import Kazoo.Recipe.TreeShape

/-!
# The runs of a cache

The tree of a `TreeCache` has its shape in every state that is reached, and everybody whom a request,
an answer or a call is about has been made.
-/

namespace Kazoo

/-- The node has been made, and has been told the names of nodes. -/
def NodeReply.Known (r : NodeReply) (size : Nat) : Prop :=
  r.node < size ∧ ∀ names, r.result = .listed names → ∀ name ∈ names, ValidName name

namespace TreeCaching

variable {C : TreeCaches} {s s' t : TreeCaching} {n m c p fuel : Nat} {name : PyStr}

/-! ## Numbers of nodes -/

/-- Whoever is asked for, answered or called has been made. -/
structure Numbered (s : TreeCaching) : Prop where
  names : ∀ x ∈ s.tree, ∀ name ∈ x.1.getLast?, ValidName name
  requests : ∀ x ∈ s.requests, x.1 < s.size
  tasks : ∀ r, .result r ∈ s.tasks → r.Known s.size
  completions : ∀ r ∈ s.completions, r.Known s.size
  wire : ∀ r, .reply r ∈ s.wire → r.Known s.size
  callbacks : ∀ c ∈ s.callbacks, c.node < s.size
  watchers : ∀ kind, ∀ n ∈ s.watchers kind, n < s.size

theorem Numbered.callClient (h : s.Numbered) (hn : n < s.size) (method : NodeMethod) :
    (s.callClient n method).Numbered := by
  unfold TreeCaching.callClient
  dsimp only
  split
  · refine ⟨h.names, h.requests, h.tasks, fun r hr => ?_, h.wire, h.callbacks, h.watchers⟩
    rcases List.mem_append.mp hr with hr | hr
    · exact h.completions r hr
    · rw [List.mem_singleton.mp hr]
      exact ⟨hn, fun _ h' => nomatch h'⟩
  · refine ⟨h.names, fun x hx => ?_, h.tasks, h.completions, h.wire, h.callbacks, h.watchers⟩
    rcases List.mem_append.mp hx with hx | hx
    · exact h.requests x hx
    · rw [List.mem_singleton.mp hx]
      exact hn

theorem Numbered.refresh (h : s.Numbered) (hn : n < s.size) : (s.refresh n).Numbered :=
  (h.callClient hn .get).callClient (by rwa [(asks_callClient .get).size]) .getChildren

theorem Numbered.publishEvent (h : s.Numbered) (e : TreeEvent) : (s.publishEvent e).Numbered := by
  unfold TreeCaching.publishEvent
  split
  · exact h
  · refine ⟨h.names, h.requests, fun r hr => ?_, h.completions, h.wire, h.callbacks, h.watchers⟩
    rcases List.mem_append.mp hr with hr | hr
    · exact h.tasks r hr
    · cases List.mem_singleton.mp hr

theorem Numbered.setNode (h : s.Numbered) (node : TreeNode) : (s.setNode n node).Numbered :=
  ⟨h.names, h.requests, h.tasks, h.completions, h.wire, h.callbacks, h.watchers⟩

theorem Numbered.resetWatchers (h : s.Numbered) : (s.resetWatchers n).Numbered :=
  ⟨h.names, h.requests, h.tasks, h.completions, h.wire, h.callbacks,
    fun kind m hm => h.watchers kind m (List.mem_of_mem_filter hm)⟩

theorem Numbered.die (h : s.Numbered) (old : TreeNode) : (s.die n old).Numbered := by
  unfold TreeCaching.die
  dsimp only
  split
  · exact (h.setNode _).publishEvent _
  · exact h.setNode _

theorem Numbered.leave (h : s.Numbered) (hn : n < s.size) : (s.leave n).Numbered := by
  unfold TreeCaching.leave
  split
  · exact h.callClient hn _
  · dsimp only
    split
    · exact (h.setNode _).resetWatchers
    · exact h

/-- One child after the other. -/
theorem Numbered.sweep {f : TreeCaching → Nat → TreeCaching} (hf : ∀ s n, Shrinks s (f s n))
    (hnumbered : ∀ s n, s.Shaped C → s.Numbered → n < s.size → (f s n).Numbered)
    (l : List (PyStr × Nat)) {t : TreeCaching} (ht : t.Shaped C) (h : t.Numbered)
    (hl : ∀ x ∈ l, x.2 < t.size) : (l.foldl (fun s child => f s child.2) t).Numbered := by
  induction l generalizing t with
  | nil => exact h
  | cons x l ih =>
    obtain ⟨hx, hl⟩ := List.forall_mem_cons.mp hl
    refine ih (ht.shrink (hf t x.2)) (hnumbered t x.2 ht h hx) fun y hy => ?_
    rw [(hf t x.2).size]
    exact hl y hy

theorem Numbered.onReconnected (h : s.Numbered) (hs : s.Shaped C) (hn : n < s.size) :
    (onReconnected fuel s n).Numbered := by
  induction fuel generalizing s n with
  | zero => exact h
  | succ fuel ih =>
    refine Numbered.sweep (f := TreeCaching.onReconnected fuel) (fun _ _ => asks_onReconnected.shrinks)
      (fun _ _ ht h hn => ih h ht hn) _ (hs.shrink asks_refresh.shrinks) (h.refresh hn) fun x hx => ?_
    rw [asks_refresh.size]
    exact (hs.child n x.1 x.2 hx).2.1

theorem Numbered.onDeleted (h : s.Numbered) (hs : s.Shaped C) (hn : n < s.size) :
    (onDeleted fuel s n).Numbered := by
  induction fuel generalizing s n with
  | zero => exact h
  | succ fuel ih =>
    have hclear : Shrinks s (s.setNode n { s.nodes n with children := [], data := none }) :=
      shrinks_clear
    have hswept : (swept fuel s n).Numbered :=
      Numbered.sweep (f := TreeCaching.onDeleted fuel) (fun _ _ => shrinks_onDeleted)
        (fun _ _ ht h hn => ih h ht hn) _ (hs.shrink hclear) (h.setNode _)
        fun x hx => (hs.child n x.1 x.2 hx).2.1
    have hshrinks : Shrinks s ((swept fuel s n).die n (s.nodes n)) :=
      (hclear.trans (.foldl (fun _ _ => shrinks_onDeleted) _ _)).trans (shrinks_die _)
    rw [onDeleted_succ]
    split
    · exact hswept.resetWatchers
    · exact (hswept.die _).leave (by rwa [hshrinks.size])

/-! ## New children -/

theorem newChild_nodes (m : Nat) : (s.newChild n name).nodes m =
    if m = n then { s.nodes n with children := (s.nodes n).children ++ [(name, s.size)] }
    else if m = s.size then ⟨join (s.nodes n).path [name], some n, [], .pending, none⟩
    else s.nodes m := by
  simp only [newChild, setNode, Function.update_apply]

theorem Shaped.newChild (h : s.Shaped C) (hn : n < s.size) (hname : ValidName name)
    (hnew : name ∉ (s.nodes n).children.map Prod.fst) : (s.newChild n name).Shaped C := by
  have hself : (s.newChild n name).nodes n =
      { s.nodes n with children := (s.nodes n).children ++ [(name, s.size)] } := by
    rw [newChild_nodes, if_pos rfl]
  have hchild : (s.newChild n name).nodes s.size =
      ⟨join (s.nodes n).path [name], some n, [], .pending, none⟩ := by
    rw [newChild_nodes, if_neg hn.ne', if_pos rfl]
  -- what does not change in an old node
  have hold (m : Nat) (hm : m ≠ s.size) : ((s.newChild n name).nodes m).path = (s.nodes m).path ∧
      ((s.newChild n name).nodes m).parent = (s.nodes m).parent ∧
      ((s.newChild n name).nodes m).data = (s.nodes m).data ∧
      (m ≠ n → ((s.newChild n name).nodes m).children = (s.nodes m).children) := by
    rw [newChild_nodes]
    split
    · next hmn => exact ⟨hmn ▸ rfl, hmn ▸ rfl, hmn ▸ rfl, fun hne => absurd hmn hne⟩
    · exact ⟨rfl, rfl, rfl, fun _ => rfl⟩
  have hpos : 0 ≠ s.size := h.pos.ne
  constructor
  case pos => exact Nat.succ_pos _
  case rootPath => rw [(hold 0 hpos).1, h.rootPath]
  case rootParent => rw [(hold 0 hpos).2.1, h.rootParent]
  case orphan =>
    intro m hm hparent
    by_cases hms : m = s.size
    · rw [hms, hchild] at hparent
      cases hparent
    · rw [(hold m hms).2.1] at hparent
      exact h.orphan m (Nat.lt_of_le_of_ne (Nat.le_of_lt_succ hm) hms) hparent
  case child =>
    intro a name' c hmem
    have hkept (hmem : (name', c) ∈ (s.nodes a).children) : a < c ∧ c < (s.newChild n name).size ∧
        ((s.newChild n name).nodes c).parent = some a ∧
        ((s.newChild n name).nodes c).path = join ((s.newChild n name).nodes a).path [name'] ∧
        ValidName name' := by
      obtain ⟨hlt, hc, hparent, hpath, hname'⟩ := h.child a name' c hmem
      rw [(hold c hc.ne).1, (hold c hc.ne).2.1, (hold a (hlt.trans hc).ne).1]
      exact ⟨hlt, Nat.lt_succ_of_lt hc, hparent, hpath, hname'⟩
    by_cases has : a = s.size
    · rw [has, hchild] at hmem
      cases hmem
    by_cases han : a = n
    · subst han
      rw [hself] at hmem
      rcases List.mem_append.mp hmem with hmem | hmem
      · exact hkept hmem
      · obtain ⟨rfl, rfl⟩ := Prod.mk.inj (List.mem_singleton.mp hmem)
        rw [hchild, (hold a has).1]
        exact ⟨hn, Nat.lt_succ_self _, rfl, rfl, hname⟩
    · rw [(hold a has).2.2.2 han] at hmem
      exact hkept hmem
  case nodup =>
    intro m
    by_cases hms : m = s.size
    · rw [hms, hchild]
      exact List.nodup_nil
    by_cases hmn : m = n
    · rw [hmn, hself, List.map_append]
      exact List.nodup_append.mpr ⟨h.nodup n, List.nodup_singleton _, by
        intro a ha b hb hab
        rw [List.mem_singleton.mp hb] at hab
        obtain rfl : a = name := hab
        exact hnew ha⟩
    · rw [(hold m hms).2.2.2 hmn]
      exact h.nodup m
  case data =>
    intro m d hd
    by_cases hms : m = s.size
    · rw [hms, hchild] at hd
      cases hd
    · rw [(hold m hms).2.2.1] at hd
      rw [(hold m hms).1]
      exact h.data m d hd

theorem Numbered.newChild (h : s.Numbered) : (s.newChild n name).Numbered where
  names := h.names
  requests x hx := Nat.lt_succ_of_lt (h.requests x hx)
  tasks r hr := (h.tasks r hr).imp_left Nat.lt_succ_of_lt
  completions r hr := (h.completions r hr).imp_left Nat.lt_succ_of_lt
  wire r hr := (h.wire r hr).imp_left Nat.lt_succ_of_lt
  callbacks c hc := Nat.lt_succ_of_lt (h.callbacks c hc)
  watchers kind m hm := Nat.lt_succ_of_lt (h.watchers kind m hm)

theorem Shaped.addChild (h : s.Shaped C) (hn : n < s.size) (hname : ValidName name) :
    (s.addChild n name).Shaped C := by
  unfold TreeCaching.addChild
  split
  · exact h
  · next hnew => exact (h.newChild hn hname hnew).shrink asks_refresh.shrinks

theorem Numbered.addChild (h : s.Numbered) : (s.addChild n name).Numbered := by
  unfold TreeCaching.addChild
  split
  · exact h
  · exact h.newChild.refresh (Nat.lt_succ_self _)

theorem size_le_addChild : s.size ≤ (s.addChild n name).size := by
  unfold addChild
  split
  · exact le_rfl
  · rw [asks_refresh.size]
    exact Nat.le_succ _

/-- The tree has its shape, and everybody is known. -/
structure Sound (C : TreeCaches) (s : TreeCaching) : Prop where
  shaped : s.Shaped C
  numbered : s.Numbered

theorem Sound.listed (h : Sound C s) (hn : n < s.size) {names : List PyStr}
    (hnames : ∀ name ∈ names, ValidName name) :
    Sound C (names.foldl (fun s name => s.addChild n name) s) := by
  induction names generalizing s with
  | nil => exact h
  | cons name names ih =>
    obtain ⟨hname, hnames⟩ := List.forall_mem_cons.mp hnames
    exact ih ⟨h.shaped.addChild hn hname, h.numbered.addChild⟩ (hn.trans_le size_le_addChild) hnames

theorem sound_init : Sound C (.init C) where
  shaped := {
    pos := Nat.one_pos
    rootPath := rfl
    rootParent := rfl
    orphan := fun _ hn _ => Nat.lt_one_iff.mp hn
    child := fun _ _ _ h => absurd h List.not_mem_nil
    nodup := fun _ => .nil
    data := fun _ _ h => nomatch h }
  numbered := {
    names := by
      intro x hx name hname
      rw [List.mem_singleton.mp hx] at hname
      cases hname
    requests := fun _ h => absurd h List.not_mem_nil
    tasks := fun _ h => absurd h List.not_mem_nil
    completions := fun _ h => absurd h List.not_mem_nil
    wire := fun _ h => absurd h List.not_mem_nil
    callbacks := fun _ h => absurd h List.not_mem_nil
    watchers := fun _ _ h => absurd h List.not_mem_nil }

theorem Sound.refresh (h : Sound C s) (hn : n < s.size) : Sound C (s.refresh n) :=
  ⟨h.shaped.shrink asks_refresh.shrinks, h.numbered.refresh hn⟩

theorem Sound.callClient (h : Sound C s) (hn : n < s.size) (method : NodeMethod) :
    Sound C (s.callClient n method) :=
  ⟨h.shaped.shrink (asks_callClient method).shrinks, h.numbered.callClient hn method⟩

theorem Sound.onDeleted (h : Sound C s) (hn : n < s.size) : Sound C (onDeleted fuel s n) :=
  ⟨h.shaped.shrink shrinks_onDeleted, h.numbered.onDeleted h.shaped hn⟩

theorem Sound.publishEvent (h : Sound C s) (e : TreeEvent) : Sound C (s.publishEvent e) :=
  ⟨h.shaped.shrink (asks_publishEvent e).shrinks, h.numbered.publishEvent e⟩

theorem Sound.setNode (h : Sound C s) {node : TreeNode} (hpath : node.path = (s.nodes n).path)
    (hparent : node.parent = (s.nodes n).parent) (hchildren : node.children = (s.nodes n).children)
    (hdata : ∀ d ∈ node.data, d ∈ (s.nodes n).data ∨ d.path = (s.nodes n).path) :
    Sound C (s.setNode n node) :=
  ⟨h.shaped.shrink (shrinks_setNode hpath hparent (hchildren ▸ .refl _) hdata), h.numbered.setNode _⟩

theorem Sound.processWatch (h : Sound C s) (hn : n < s.size) (type : EventType) :
    Sound C (s.processWatch n type) := by
  unfold TreeCaching.processWatch
  cases type with
  | CREATED =>
    dsimp only
    split
    · exact h.refresh hn
    · exact h
  | DELETED => exact h.onDeleted hn
  | CHANGED => exact h.callClient hn .get
  | CHILD => exact h.callClient hn .getChildren
  | NONE => exact h

theorem Sound.processReply (h : Sound C s) {result : NodeResult} (hn : n < s.size)
    (hnames : ∀ names, result = .listed names → ∀ name ∈ names, ValidName name) :
    Sound C (s.processReply n result) := by
  cases result with
  | existing stat =>
    cases stat with
    | none => exact h
    | some stat =>
      refine Sound.refresh (h.setNode ?_ ?_ ?_ ?_) hn
      · rfl
      · rfl
      · rfl
      · exact fun _ hd => .inl hd
  | listed names => exact h.listed hn fun name hname => hnames names rfl name (mem_sortedNames.mp hname)
  | noNode => exact h.onDeleted hn
  | failed => exact h
  | got data stat =>
    have hs : Sound C (s.setNode n { s.nodes n with
        data := some ⟨(s.nodes n).path, data, stat⟩, state := .live }) := by
      refine h.setNode rfl rfl rfl fun d hd => .inr ?_
      exact Option.some.inj hd ▸ rfl
    simp only [TreeCaching.processReply]
    split
    · split
      · exact hs
      · exact hs.publishEvent _
    · exact hs.publishEvent _

/-! ## Steps -/

/-- The cache stays as it is. -/
theorem Sound.same (h : Sound C s) (hnodes : t.nodes = s.nodes) (hsize : t.size = s.size)
    (ht : t.Numbered) : Sound C t :=
  ⟨h.shaped.shrink (.of_eq hnodes hsize), ht⟩

theorem fire_eq (s : TreeCaching) (type : EventType) (key : ZnodePath) : ∃ armed sent, ∃ events,
    (∀ m ∈ events, ∃ type key stamp, m = .event type key stamp) ∧
      s.fire type key = { s with armed, sent, wire := s.wire ++ events } := by
  unfold fire
  split
  · exact ⟨_, _, [.event type key s.sent], by simp, rfl⟩
  · exact ⟨s.armed, s.sent, [], by simp, by simp⟩

/-- The nodes of the server change, and events are sent. -/
theorem change_eq (s : TreeCaching) (c : TreeChange) : ∃ armed sent, ∃ events,
    (∀ m ∈ events, ∃ type key stamp, m = .event type key stamp) ∧
      s.change c = { s with
        tree := s.tree.result (s.zxid + 1) c, zxid := s.zxid + 1, armed, sent
        wire := s.wire ++ events } := by
  have htwice (t : TreeCaching) (type type' : EventType) (key key' : ZnodePath) : ∃ armed sent, ∃ events,
      (∀ m ∈ events, ∃ type key stamp, m = .event type key stamp) ∧
        (t.fire type key).fire type' key' = { t with armed, sent, wire := t.wire ++ events } := by
    obtain ⟨armed, sent, events, hevents, heq⟩ := fire_eq t type key
    obtain ⟨armed', sent', events', hevents', heq'⟩ := fire_eq (t.fire type key) type' key'
    refine ⟨armed', sent', events ++ events', fun m hm => ?_, ?_⟩
    · exact (List.mem_append.mp hm).elim (hevents m) (hevents' m)
    · rw [heq', heq]
      simp only [List.append_assoc]
  cases c with
  | create key data time owner =>
    exact htwice { s with tree := _, zxid := s.zxid + 1 } .CREATED .CHILD key key.dropLast
  | set key data time => exact fire_eq { s with tree := _, zxid := s.zxid + 1 } .CHANGED key
  | delete key =>
    exact htwice { s with tree := _, zxid := s.zxid + 1 } .DELETED .CHILD key key.dropLast

theorem key_of_mem_modify {t : ZnodeTree} {key : ZnodePath} {f : TreeZnode → TreeZnode}
    {x : ZnodePath × TreeZnode} (h : x ∈ t.modify key f) : ∃ y ∈ t, y.1 = x.1 := by
  obtain ⟨y, hy, rfl⟩ := List.mem_map.mp h
  refine ⟨y, hy, ?_⟩
  split <;> rfl

theorem names_result {t : ZnodeTree} {zxid : Int} {c : TreeChange} (hc : t.Allows c)
    (h : ∀ x ∈ t, ∀ name ∈ x.1.getLast?, ValidName name) :
    ∀ x ∈ t.result zxid c, ∀ name ∈ x.1.getLast?, ValidName name := by
  have hmodify {t : ZnodeTree} (h : ∀ x ∈ t, ∀ name ∈ x.1.getLast?, ValidName name) (key : ZnodePath)
      (f : TreeZnode → TreeZnode) : ∀ x ∈ t.modify key f, ∀ name ∈ x.1.getLast?, ValidName name := by
    intro x hx
    obtain ⟨y, hy, hkey⟩ := key_of_mem_modify hx
    rw [← hkey]
    exact h y hy
  cases c with
  | create key data time owner =>
    refine List.forall_mem_cons.mpr ⟨fun name hname => ?_, hmodify h _ _⟩
    obtain ⟨⟨name', hname', hvalid⟩, -⟩ := hc
    exact Option.some.inj (hname'.symm.trans hname) ▸ hvalid
  | set key data time => exact hmodify h _ _
  | delete key => exact hmodify (fun x hx => h x (List.mem_of_mem_filter hx)) _ _

theorem Sound.change (h : Sound C s) {c : TreeChange} (hc : s.tree.Allows c) : Sound C (s.change c) := by
  obtain ⟨armed, sent, events, hevents, heq⟩ := change_eq s c
  rw [heq]
  refine h.same rfl rfl ⟨names_result hc h.numbered.names, h.numbered.requests, h.numbered.tasks,
    h.numbered.completions, fun r hr => ?_, h.numbered.callbacks, h.numbered.watchers⟩
  rcases List.mem_append.mp hr with hr | hr
  · exact h.numbered.wire r hr
  · obtain ⟨type, key, stamp, heq⟩ := hevents _ hr
    cases heq

theorem serve_listed {key : ZnodePath} {method : NodeMethod} {names : List PyStr}
    (h : s.serve key method = .listed names) : names = s.tree.names key := by
  unfold serve at h
  cases method with
  | get => cases hnode : s.tree.znode? key <;> simp [hnode] at h
  | «exists» => cases h
  | getChildren =>
    cases hnode : s.tree.znode? key with
    | none => simp [hnode] at h
    | some node =>
      simp only [hnode, Option.map_some, Option.getD_some, NodeResult.listed.injEq] at h
      exact h.symm

theorem Sound.answer (h : Sound C s) : Sound C (s.answer C) := by
  unfold TreeCaching.answer
  split
  · exact h
  next n method requests hrequests =>
    have hn := h.numbered.requests (n, method) (hrequests ▸ List.mem_cons_self)
    refine h.same rfl rfl ⟨h.numbered.names, fun x hx => ?_, h.numbered.tasks, h.numbered.completions,
      fun r hr => ?_, h.numbered.callbacks, h.numbered.watchers⟩
    · exact h.numbered.requests x (hrequests ▸ List.mem_cons_of_mem _ hx)
    · rcases List.mem_append.mp hr with hr | hr
      · exact h.numbered.wire r hr
      · obtain rfl := CacheMessage.reply.inj (List.mem_singleton.mp hr)
        refine ⟨hn, fun names hnames name hname => ?_⟩
        rw [serve_listed hnames] at hname
        obtain ⟨x, hx, hlast⟩ := List.mem_filterMap.mp hname
        exact h.numbered.names x hx name (Option.ite_none_right_eq_some.mp hlast).2

theorem Sound.read (h : Sound C s) {order : List Nat} (horder : order.Perm (s.called C)) :
    Sound C (s.read C order) := by
  unfold TreeCaching.read
  split
  · exact h
  next r wire hwire =>
    have hr := h.numbered.wire r (hwire ▸ List.mem_cons_self)
    refine h.same rfl rfl ⟨h.numbered.names, h.numbered.requests, h.numbered.tasks, fun r' hr' => ?_,
      fun r' hr' => ?_, h.numbered.callbacks, fun kind m hm => ?_⟩
    · rcases List.mem_append.mp hr' with hr' | hr'
      · exact h.numbered.completions r' hr'
      · rw [List.mem_singleton.mp hr']
        exact hr
    · exact h.numbered.wire r' (hwire ▸ List.mem_cons_of_mem _ hr')
    · dsimp only at hm
      split at hm
      · rcases List.mem_cons.mp hm with rfl | hm
        · exact hr.1
        · exact h.numbered.watchers kind m hm
      · exact h.numbered.watchers kind m hm
  next type key stamp wire hwire =>
    refine h.same rfl rfl ⟨h.numbered.names, h.numbered.requests, h.numbered.tasks,
      h.numbered.completions, fun r' hr' => ?_, fun call hcall => ?_, fun kind m hm => ?_⟩
    · exact h.numbered.wire r' (hwire ▸ List.mem_cons_of_mem _ hr')
    · rcases List.mem_append.mp hcall with hcall | hcall
      · exact h.numbered.callbacks call hcall
      · obtain ⟨n, hn, rfl⟩ := List.mem_map.mp hcall
        have hcalled := horder.mem_iff.mp hn
        unfold called at hcalled
        rw [hwire] at hcalled
        rcases List.mem_append.mp hcalled with hin | hin
        · split at hin
          · exact h.numbered.watchers _ n (List.mem_of_mem_filter hin)
          · cases hin
        · split at hin
          · exact h.numbered.watchers _ n (List.mem_of_mem_filter hin)
          · cases hin
    · dsimp only at hm
      split at hm
      · exact h.numbered.watchers kind m (List.mem_of_mem_filter hm)
      · exact h.numbered.watchers kind m hm

theorem Sound.inBackground (h : Sound C s) {task : CacheTask}
    (htask : ∀ r, task = .result r → r.Known s.size) : Sound C (s.inBackground task) := by
  refine h.same rfl rfl ⟨h.numbered.names, h.numbered.requests, fun r hr => ?_, h.numbered.completions,
    h.numbered.wire, h.numbered.callbacks, h.numbered.watchers⟩
  rcases List.mem_append.mp hr with hr | hr
  · exact h.numbered.tasks r hr
  · exact htask r (List.mem_singleton.mp hr).symm

/-- Fields that are not about nodes. -/
theorem Sound.reset (h : Sound C s) {keeperState : KeeperState} {state : KazooState}
    {cacheState : TreeCacheState} {start : StartStage} {listening stopped isInitialized : Bool}
    {outstandingOps : Int} {published : List TreeEvent} :
    Sound C { s with keeperState, state, cacheState, start, listening, stopped, isInitialized,
                     outstandingOps, published } :=
  h.same rfl rfl ⟨h.numbered.names, h.numbered.requests, h.numbered.tasks, h.numbered.completions,
    h.numbered.wire, h.numbered.callbacks, h.numbered.watchers⟩

theorem Sound.makeStateChange (h : Sound C s) (state : KazooState) :
    Sound C (s.makeStateChange state) := by
  unfold TreeCaching.makeStateChange
  split
  · exact h
  · have hs : Sound C { s with state := state } := h.reset
    dsimp only
    split
    · cases state with
      | SUSPENDED => exact hs.publishEvent _
      | CONNECTED =>
        have htask : Sound C ({ s with state := .CONNECTED }.inBackground .reconnected) :=
          hs.inBackground fun _ h' => nomatch h'
        exact htask.publishEvent _
      | LOST =>
        have hlost : Sound C { s with state := .LOST, isInitialized := false } := h.reset
        exact hlost.publishEvent _
    · exact hs

theorem Sound.notifyPending (h : Sound C s) : Sound C s.notifyPending := by
  refine h.same rfl rfl ⟨h.numbered.names, fun _ h' => absurd h' List.not_mem_nil, h.numbered.tasks,
    fun r hr => ?_, fun _ h' => absurd h' List.not_mem_nil, h.numbered.callbacks, h.numbered.watchers⟩
  rcases List.mem_append.mp hr with hr | hr
  · exact h.numbered.completions r hr
  · obtain ⟨n, hn, rfl⟩ := List.mem_map.mp hr
    refine ⟨?_, fun _ h' => nomatch h'⟩
    rcases List.mem_append.mp hn with hn | hn
    · obtain ⟨m, hm, hsome⟩ := List.mem_filterMap.mp hn
      cases m with
      | reply r =>
        rw [← Option.some.inj hsome]
        exact (h.numbered.wire r hm).1
      | event type key stamp => cases hsome
    · obtain ⟨x, hx, rfl⟩ := List.mem_map.mp hn
      exact h.numbered.requests x hx

theorem Sound.clientResetWatchers (h : Sound C s) : Sound C s.clientResetWatchers := by
  refine h.same rfl rfl ⟨h.numbered.names, h.numbered.requests, h.numbered.tasks, h.numbered.completions,
    h.numbered.wire, fun call hcall => ?_, fun _ _ h' => absurd h' List.not_mem_nil⟩
  rcases List.mem_append.mp hcall with hcall | hcall
  · exact h.numbered.callbacks call hcall
  · obtain ⟨n, hn, rfl⟩ := List.mem_map.mp hcall
    rcases List.mem_append.mp hn with hn | hn
    · exact h.numbered.watchers _ n hn
    · exact h.numbered.watchers _ n hn

theorem Sound.sessionCallback (h : Sound C s) (st : KeeperState) : Sound C (s.sessionCallback st) := by
  have hs : Sound C { s with keeperState := st } := h.reset
  unfold TreeCaching.sessionCallback
  dsimp only
  split
  · exact hs
  · split
    · exact hs.makeStateChange _
    · split
      · exact (hs.makeStateChange _).notifyPending.clientResetWatchers
      · exact (hs.notifyPending.makeStateChange _).clientResetWatchers

theorem Sound.processResult (h : Sound C s) {r : NodeReply} (hr : r.Known s.size) :
    Sound C (s.processResult r) := by
  have hs := h.processReply hr.1 hr.2
  unfold TreeCaching.processResult
  dsimp only
  split
  · exact Sound.publishEvent hs.reset _
  · exact hs.reset

theorem Sound.doTask (h : Sound C s) {task : CacheTask} (htask : ∀ r, task = .result r → r.Known s.size) :
    Sound C (s.doTask task) := by
  cases task with
  | created => exact h.refresh h.shaped.pos
  | reconnected =>
    exact ⟨h.shaped.shrink asks_onReconnected.shrinks, h.numbered.onReconnected h.shaped h.shaped.pos⟩
  | result r => exact h.processResult (htask r rfl)
  | publish e => exact h.reset
  | stop => exact h.reset

theorem Sound.close (h : Sound C s) : Sound C s.close := by
  have hstop : Sound C (s.inBackground .stop) := h.inBackground fun _ h' => nomatch h'
  have hs : Sound C { s.inBackground .stop with cacheState := .closed, listening := false } := hstop.reset
  exact hs.onDeleted hs.shaped.pos

theorem Sound.post (h : Sound C s) {act : TreeCacheAct} (hen : s.enabled C act) :
    Sound C (s.post C act) := by
  cases act with
  | change c => exact h.change hen
  | answer => exact h.answer
  | read order => exact h.read hen.2.2
  | complete =>
    unfold TreeCaching.post
    dsimp only
    split
    · exact h
    next r completions hcompletions =>
      have hs : Sound C { s with completions := completions } := by
        refine h.same rfl rfl ⟨h.numbered.names, h.numbered.requests, h.numbered.tasks, fun r' hr' => ?_,
          h.numbered.wire, h.numbered.callbacks, h.numbered.watchers⟩
        exact h.numbered.completions r' (hcompletions ▸ List.mem_cons_of_mem _ hr')
      refine hs.inBackground fun r' hr' => ?_
      obtain rfl := CacheTask.result.inj hr'
      exact h.numbered.completions r (hcompletions ▸ List.mem_cons_self)
  | callback =>
    unfold TreeCaching.post
    dsimp only
    split
    · exact h
    next call callbacks hcallbacks =>
      have hs : Sound C { s with callbacks := callbacks } := by
        refine h.same rfl rfl ⟨h.numbered.names, h.numbered.requests, h.numbered.tasks,
          h.numbered.completions, h.numbered.wire, fun call' hcall' => ?_, h.numbered.watchers⟩
        exact h.numbered.callbacks call' (hcallbacks ▸ List.mem_cons_of_mem _ hcall')
      exact hs.processWatch (h.numbered.callbacks call (hcallbacks ▸ List.mem_cons_self)) call.type
  | background =>
    unfold TreeCaching.post
    dsimp only
    split
    · exact h
    next task tasks htasks =>
      have hs : Sound C { s with tasks := tasks } := by
        refine h.same rfl rfl ⟨h.numbered.names, h.numbered.requests, fun r hr => ?_,
          h.numbered.completions, h.numbered.wire, h.numbered.callbacks, h.numbered.watchers⟩
        exact h.numbered.tasks r (htasks ▸ List.mem_cons_of_mem _ hr)
      refine hs.doTask fun r hr => ?_
      exact h.numbered.tasks r (htasks ▸ hr ▸ List.mem_cons_self)
  | session st => exact h.sessionCallback st
  | start => exact h.reset
  | startReturns =>
    have hs : Sound C { s with start := .returned } := h.reset
    unfold TreeCaching.post
    dsimp only
    split
    · exact hs.inBackground fun _ h' => nomatch h'
    · exact hs
  | close => exact h.close

theorem sound_of_reach {ok : TreeCaching → TreeCacheAct → Prop} (hr : (treeCaching C).Reach ok s) :
    Sound C s :=
  hr.invariant sound_init fun _ _ _ h hen _ => h.post hen

/-- The cache of everything. -/
def rootCache : TreeCaches := ⟨[], str "/", ⟨_, rfl⟩⟩

/-- The cache of a node. -/
def nodeCache : TreeCaches := ⟨[], str "/a", ⟨_, rfl⟩⟩

/-- The cache has been started on a server with these nodes, and its first two answers have come. -/
def growing (nodes : List ZnodePath) : List TreeCacheAct :=
  nodes.map (fun key => .change (.create key [] 0 0)) ++
    [.session .CONNECTING, .session .CONNECTED, .start, .startReturns, .background, .answer, .answer,
      .read [], .read [], .complete, .complete, .background, .background]

end TreeCaching

end Kazoo
