import Kazoo.Recipe.TreeCache
import Mathlib.Logic.Relation

/-!
# The tree of a cache

The nodes of a `TreeCache` form a tree whatever happens: a node has its place below its parent for
good, or leaves it.  Everything that is not below a node is untouched when the node is deleted.
-/

namespace Kazoo

/-- A path below which a name comes after another slash. -/
def PlainPath (path : PyStr) : Prop := path ≠ [] ∧ endswithSlash path = false

instance (path : PyStr) : Decidable (PlainPath path) := inferInstanceAs (Decidable (_ ∧ _))

theorem lookup_eq_some_iff_mem {κ α : Type} [BEq κ] [LawfulBEq κ] {l : List (κ × α)} {k : κ} {a : α}
    (hnodup : (l.map Prod.fst).Nodup) : l.lookup k = some a ↔ (k, a) ∈ l := by
  induction l with
  | nil => simp
  | cons x l ih =>
    obtain ⟨k', a'⟩ := x
    obtain ⟨hnew, hnodup⟩ := List.nodup_cons.mp hnodup
    rw [List.lookup_cons, List.mem_cons]
    by_cases hk : k = k'
    · subst hk
      have hnot : (k, a) ∉ l := fun h => hnew (List.mem_map.mpr ⟨_, h, rfl⟩)
      simp [hnot, eq_comm]
    · rw [beq_eq_false_iff_ne.mpr hk, ih hnodup]
      simp [hk]

/-! ## Paths of children -/

section Paths

variable {path name name' : PyStr}

theorem join_name (path : PyStr) (hname : ValidName name) :
    join path [name] = if PlainPath path then path ++ slash :: name else path ++ name := by
  have habs : isabs name = false := by
    rw [Bool.eq_false_iff]
    intro h
    obtain ⟨p, rfl⟩ := isabs_iff.mp h
    exact hname.2.1 List.mem_cons_self
  rw [join_one, if_neg (by rw [habs]; exact Bool.false_ne_true)]
  by_cases hpath : PlainPath path
  · rw [if_pos hpath, if_neg (not_or.mpr ⟨hpath.1, by rw [hpath.2]; exact Bool.false_ne_true⟩)]
  · rw [if_neg hpath, if_pos]
    by_contra hnot
    obtain ⟨hne, hslash⟩ := not_or.mp hnot
    exact hpath ⟨hne, Bool.eq_false_iff.mpr hslash⟩

/-- A child has its name from its path. -/
theorem join_inj (hname : ValidName name) (hname' : ValidName name') :
    join path [name] = join path [name'] ↔ name = name' := by
  refine ⟨fun h => ?_, fun h => h ▸ rfl⟩
  rw [join_name path hname, join_name path hname'] at h
  split at h
  · exact (List.cons.inj (List.append_cancel_left h)).2
  · exact List.append_cancel_left h

/-- `on_deleted` looks for the name under which the parent knows the node, or for what follows its
first character. -/
theorem drop_join (path : PyStr) (hname : ValidName name) :
    (join path [name]).drop (path.length + 1) = if PlainPath path then name else name.drop 1 := by
  rw [join_name path hname]
  split
  · rw [← List.drop_drop, List.drop_left]
    rfl
  · rw [← List.drop_drop, List.drop_left]

end Paths

/-- The node as `on_deleted` leaves it. -/
def TreeNode.deleted (node : TreeNode) : TreeNode :=
  { node with children := [], data := none, state := .dead }

namespace TreeCaching

variable {C : TreeCaches} {s s' t : TreeCaching} {n m c p fuel : Nat} {name : PyStr}

/-! ## What the cache leaves alone -/

/-- What a function of the cache leaves behind. -/
structure CacheEffect where
  nodes : Nat → TreeNode
  size : Nat
  watchers : WatchKind → List Nat
  outstandingOps : Int
  requests : List (Nat × NodeMethod)
  failures : List Nat
  events : List TreeEvent

def CacheEffect.on (e : CacheEffect) (s : TreeCaching) : TreeCaching :=
  { s with
    nodes := e.nodes
    size := e.size
    watchers := e.watchers
    outstandingOps := e.outstandingOps
    requests := s.requests ++ e.requests
    completions := s.completions ++ e.failures.map fun n => ⟨n, .failed, 0⟩
    tasks := s.tasks ++ e.events.map .publish }

/-- The cache asks for more and publishes, and nothing fails as long as the client is not closed. -/
def Within (s s' : TreeCaching) : Prop :=
  ∃ e : CacheEffect, s' = e.on s ∧ (s.keeperState ∉ CLOSED_STATES → e.failures = [])

theorem Within.refl (s : TreeCaching) : Within s s :=
  ⟨⟨s.nodes, s.size, s.watchers, s.outstandingOps, [], [], []⟩, by simp [CacheEffect.on], fun _ => rfl⟩

theorem Within.trans (h : Within s t) (h' : Within t s') : Within s s' := by
  obtain ⟨e, rfl, hfails⟩ := h
  obtain ⟨e', rfl, hfails'⟩ := h'
  refine ⟨{ e' with requests := e.requests ++ e'.requests, failures := e.failures ++ e'.failures,
                    events := e.events ++ e'.events }, ?_, fun hopen => ?_⟩
  · simp [CacheEffect.on, List.append_assoc]
  · rw [hfails hopen, hfails' hopen]
    rfl

theorem within_setNode (node : TreeNode) : Within s (s.setNode n node) :=
  ⟨⟨Function.update s.nodes n node, s.size, s.watchers, s.outstandingOps, [], [], []⟩,
    by simp [CacheEffect.on, setNode], fun _ => rfl⟩

theorem within_resetWatchers : Within s (s.resetWatchers n) :=
  ⟨⟨s.nodes, s.size, (s.resetWatchers n).watchers, s.outstandingOps, [], [], []⟩,
    by simp [CacheEffect.on, resetWatchers], fun _ => rfl⟩

theorem within_publishEvent (e : TreeEvent) : Within s (s.publishEvent e) := by
  unfold publishEvent
  split
  · exact .refl s
  · exact ⟨⟨s.nodes, s.size, s.watchers, s.outstandingOps, [], [], [e]⟩,
      by simp [CacheEffect.on, inBackground], fun _ => rfl⟩

theorem within_callClient (method : NodeMethod) : Within s (s.callClient n method) := by
  by_cases hclosed : s.keeperState ∈ CLOSED_STATES
  · exact ⟨⟨s.nodes, s.size, s.watchers, s.outstandingOps + 1, [], [n], []⟩,
      by simp [CacheEffect.on, callClient, hclosed], fun hopen => absurd hclosed hopen⟩
  · exact ⟨⟨s.nodes, s.size, s.watchers, s.outstandingOps + 1, [(n, method)], [], []⟩,
      by simp [CacheEffect.on, callClient, hclosed], fun _ => rfl⟩

theorem within_newChild : Within s (s.newChild n name) :=
  ⟨⟨(s.newChild n name).nodes, s.size + 1, s.watchers, s.outstandingOps, [], [], []⟩,
    by simp [CacheEffect.on, newChild, setNode], fun _ => rfl⟩

/-! ## What the functions of the cache are made of -/

/-- The node without its children, which are deleted one after the other. -/
def swept (fuel : Nat) (s : TreeCaching) (n : Nat) : TreeCaching :=
  (s.nodes n).children.foldl (fun s child => onDeleted fuel s child.2)
    (s.setNode n { s.nodes n with children := [], data := none })

theorem onDeleted_succ : onDeleted (fuel + 1) s n =
    if (swept fuel s n).cacheState = .closed then (swept fuel s n).resetWatchers n
    else ((swept fuel s n).die n (s.nodes n)).leave n := rfl

/-- What is so of the single operations, and of two things done one after the other. -/
structure Composes (R : TreeCaching → TreeCaching → Prop) : Prop where
  refl : ∀ s, R s s
  trans : ∀ {s t s'}, R s t → R t s' → R s s'
  setNode : ∀ {s n} node, R s (s.setNode n node)
  resetWatchers : ∀ {s n}, R s (s.resetWatchers n)
  newChild : ∀ {s n name}, R s (s.newChild n name)
  callClient : ∀ {s n} method, R s (s.callClient n method)
  publishEvent : ∀ {s} e, e ≠ .initialized → R s (s.publishEvent e)

namespace Composes

variable {R : TreeCaching → TreeCaching → Prop} (hR : Composes R)
include hR

theorem foldl {α : Type} {f : TreeCaching → α → TreeCaching} (hf : ∀ s a, R s (f s a)) (l : List α)
    (s : TreeCaching) : R s (l.foldl f s) := by
  induction l generalizing s with
  | nil => exact hR.refl s
  | cons a l ih => exact hR.trans (hf s a) (ih (f s a))

theorem refresh : R s (s.refresh n) := hR.trans (hR.callClient .get) (hR.callClient .getChildren)

theorem onReconnected : R s (onReconnected fuel s n) := by
  induction fuel generalizing s n with
  | zero => exact hR.refl s
  | succ fuel ih => exact hR.trans hR.refresh (hR.foldl (fun _ _ => ih) _ _)

theorem leave : R s (s.leave n) := by
  unfold TreeCaching.leave
  split
  · exact hR.callClient _
  · dsimp only
    split
    · exact hR.trans (hR.setNode _) hR.resetWatchers
    · exact hR.refl s

theorem die (old : TreeNode) : R s (s.die n old) := by
  unfold TreeCaching.die
  dsimp only
  split
  · exact hR.trans (hR.setNode _) (hR.publishEvent _ (by simp))
  · exact hR.setNode _

theorem onDeleted : R s (onDeleted fuel s n) := by
  induction fuel generalizing s n with
  | zero => exact hR.refl s
  | succ fuel ih =>
    have hswept : R s (swept fuel s n) := hR.trans (hR.setNode _) (hR.foldl (fun _ _ => ih) _ _)
    rw [onDeleted_succ]
    split
    · exact hR.trans hswept hR.resetWatchers
    · exact hR.trans hswept (hR.trans (hR.die _) hR.leave)

theorem addChild : R s (s.addChild n name) := by
  unfold TreeCaching.addChild
  split
  · exact hR.refl s
  · exact hR.trans hR.newChild hR.refresh

theorem processWatch (type : EventType) : R s (s.processWatch n type) := by
  cases type with
  | CREATED =>
    unfold TreeCaching.processWatch
    dsimp only
    split
    · exact hR.refresh
    · exact hR.refl s
  | DELETED => exact hR.onDeleted
  | CHANGED => exact hR.callClient .get
  | CHILD => exact hR.callClient .getChildren
  | NONE => exact hR.refl s

theorem processReply (result : NodeResult) : R s (s.processReply n result) := by
  cases result with
  | existing stat =>
    cases stat with
    | none => exact hR.refl s
    | some stat => exact hR.trans (hR.setNode _) hR.refresh
  | listed names => exact hR.foldl (fun _ _ => hR.addChild) _ _
  | noNode => exact hR.onDeleted
  | failed => exact hR.refl s
  | got data stat =>
    simp only [TreeCaching.processReply]
    split
    · split
      · exact hR.setNode _
      · exact hR.trans (hR.setNode _) (hR.publishEvent _ (by simp))
    · exact hR.trans (hR.setNode _) (hR.publishEvent _ (by simp))

end Composes

theorem composes_within : Composes Within where
  refl := .refl
  trans := .trans
  setNode := within_setNode
  resetWatchers := within_resetWatchers
  newChild := within_newChild
  callClient := within_callClient
  publishEvent e _ := within_publishEvent e

theorem within_onDeleted : Within s (onDeleted fuel s n) := composes_within.onDeleted

/-! ## The shape of the tree -/

structure Shaped (C : TreeCaches) (s : TreeCaching) : Prop where
  pos : 0 < s.size
  rootPath : (s.nodes 0).path = C.path
  rootParent : (s.nodes 0).parent = none
  orphan : ∀ n, n < s.size → (s.nodes n).parent = none → n = 0
  child : ∀ n name c, (name, c) ∈ (s.nodes n).children →
    n < c ∧ c < s.size ∧ (s.nodes c).parent = some n ∧
      (s.nodes c).path = join (s.nodes n).path [name] ∧ ValidName name
  nodup : ∀ n, ((s.nodes n).children.map Prod.fst).Nodup
  data : ∀ n, ∀ d ∈ (s.nodes n).data, d.path = (s.nodes n).path

/-- Children may have left, and data may have come or gone. -/
structure Shrinks (s s' : TreeCaching) : Prop where
  size : s'.size = s.size
  path : ∀ n, (s'.nodes n).path = (s.nodes n).path
  parent : ∀ n, (s'.nodes n).parent = (s.nodes n).parent
  children : ∀ n, (s'.nodes n).children.Sublist (s.nodes n).children
  data : ∀ n, ∀ d ∈ (s'.nodes n).data, d ∈ (s.nodes n).data ∨ d.path = (s.nodes n).path

theorem Shaped.shrink (h : s.Shaped C) (hs : Shrinks s s') : s'.Shaped C where
  pos := hs.size ▸ h.pos
  rootPath := (hs.path 0).trans h.rootPath
  rootParent := (hs.parent 0).trans h.rootParent
  orphan n hn hparent := h.orphan n (hs.size ▸ hn) ((hs.parent n).symm.trans hparent)
  child n name c hmem := by
    rw [hs.size, hs.parent, hs.path, hs.path]
    exact h.child n name c ((hs.children n).subset hmem)
  nodup n := (h.nodup n).sublist ((hs.children n).map Prod.fst)
  data n d hd := by
    rw [hs.path]
    exact (hs.data n d hd).elim (h.data n d) id

theorem Shrinks.of_eq (hnodes : s'.nodes = s.nodes) (hsize : s'.size = s.size) : Shrinks s s' where
  size := hsize
  path n := by rw [hnodes]
  parent n := by rw [hnodes]
  children n := by rw [hnodes]
  data n d hd := by
    rw [hnodes] at hd
    exact .inl hd

theorem Shrinks.refl (s : TreeCaching) : Shrinks s s := .of_eq rfl rfl

theorem Shrinks.trans (h : Shrinks s t) (h' : Shrinks t s') : Shrinks s s' where
  size := h'.size.trans h.size
  path n := (h'.path n).trans (h.path n)
  parent n := (h'.parent n).trans (h.parent n)
  children n := (h'.children n).trans (h.children n)
  data n d hd := by
    rcases h'.data n d hd with hd | hd
    · exact h.data n d hd
    · exact .inr (hd.trans (h.path n))

theorem Shrinks.foldl {α : Type} {f : TreeCaching → α → TreeCaching} (hf : ∀ s a, Shrinks s (f s a))
    (l : List α) (s : TreeCaching) : Shrinks s (l.foldl f s) := by
  induction l generalizing s with
  | nil => exact .refl s
  | cons a l ih => exact (hf s a).trans (ih (f s a))

@[simp] theorem setNode_nodes_self (node : TreeNode) : (s.setNode n node).nodes n = node :=
  Function.update_self _ _ _

theorem setNode_nodes_of_ne (node : TreeNode) (h : m ≠ n) : (s.setNode n node).nodes m = s.nodes m :=
  Function.update_of_ne h _ _

theorem shrinks_setNode {node : TreeNode} (hpath : node.path = (s.nodes n).path)
    (hparent : node.parent = (s.nodes n).parent)
    (hchildren : node.children.Sublist (s.nodes n).children)
    (hdata : ∀ d ∈ node.data, d ∈ (s.nodes n).data ∨ d.path = (s.nodes n).path) :
    Shrinks s (s.setNode n node) where
  size := rfl
  path m := by
    by_cases hm : m = n
    · rw [hm, setNode_nodes_self, hpath]
    · rw [setNode_nodes_of_ne _ hm]
  parent m := by
    by_cases hm : m = n
    · rw [hm, setNode_nodes_self, hparent]
    · rw [setNode_nodes_of_ne _ hm]
  children m := by
    by_cases hm : m = n
    · rw [hm, setNode_nodes_self]
      exact hchildren
    · rw [setNode_nodes_of_ne _ hm]
  data m d hd := by
    by_cases hm : m = n
    · rw [hm, setNode_nodes_self] at hd
      exact hm ▸ hdata d hd
    · rw [setNode_nodes_of_ne _ hm] at hd
      exact .inl hd

/-- The tree and the tables are as before. -/
structure Asks (s s' : TreeCaching) : Prop where
  nodes : s'.nodes = s.nodes
  size : s'.size = s.size
  watchers : s'.watchers = s.watchers

theorem Asks.refl (s : TreeCaching) : Asks s s := ⟨rfl, rfl, rfl⟩

theorem Asks.trans (h : Asks s t) (h' : Asks t s') : Asks s s' :=
  ⟨h'.nodes.trans h.nodes, h'.size.trans h.size, h'.watchers.trans h.watchers⟩

theorem Asks.foldl {α : Type} {f : TreeCaching → α → TreeCaching} (hf : ∀ s a, Asks s (f s a))
    (l : List α) (s : TreeCaching) : Asks s (l.foldl f s) := by
  induction l generalizing s with
  | nil => exact .refl s
  | cons a l ih => exact (hf s a).trans (ih (f s a))

theorem Asks.shrinks (h : Asks s s') : Shrinks s s' := .of_eq h.nodes h.size

theorem asks_callClient (method : NodeMethod) : Asks s (s.callClient n method) := by
  unfold callClient
  dsimp only
  split <;> exact ⟨rfl, rfl, rfl⟩

theorem asks_publishEvent (e : TreeEvent) : Asks s (s.publishEvent e) := by
  unfold publishEvent
  split <;> exact ⟨rfl, rfl, rfl⟩

theorem asks_refresh : Asks s (s.refresh n) :=
  (asks_callClient .get).trans (asks_callClient .getChildren)

theorem asks_onReconnected : Asks s (onReconnected fuel s n) := by
  induction fuel generalizing s n with
  | zero => exact .refl s
  | succ fuel ih => exact asks_refresh.trans (.foldl (fun _ _ => ih) _ _)

theorem shrinks_resetWatchers : Shrinks s (s.resetWatchers n) := .of_eq rfl rfl

theorem shrinks_leave : Shrinks s (s.leave n) := by
  unfold leave
  split
  · exact (asks_callClient _).shrinks
  · dsimp only
    split
    · refine Shrinks.trans ?_ shrinks_resetWatchers
      exact shrinks_setNode rfl rfl List.filter_sublist fun _ hd => .inl hd
    · exact .refl s

theorem shrinks_die (old : TreeNode) : Shrinks s (s.die n old) := by
  have hset : Shrinks s (s.setNode n { s.nodes n with state := .dead }) :=
    shrinks_setNode rfl rfl (.refl _) fun _ hd => .inl hd
  unfold die
  dsimp only
  split
  · exact hset.trans (asks_publishEvent _).shrinks
  · exact hset

theorem shrinks_clear : Shrinks s (s.setNode n { s.nodes n with children := [], data := none }) :=
  shrinks_setNode rfl rfl (List.nil_sublist _) (by simp)

theorem shrinks_onDeleted : Shrinks s (onDeleted fuel s n) := by
  induction fuel generalizing s n with
  | zero => exact .refl s
  | succ fuel ih =>
    have hswept : Shrinks s (swept fuel s n) := shrinks_clear.trans (.foldl (fun _ _ => ih) _ _)
    rw [onDeleted_succ]
    split
    · exact hswept.trans shrinks_resetWatchers
    · exact hswept.trans ((shrinks_die _).trans shrinks_leave)

/-! ## Above and below -/

/-- `m` is `n`, or a node below it. -/
def Below (s : TreeCaching) (n m : Nat) : Prop :=
  Relation.ReflTransGen (fun a b => ∃ name, (name, b) ∈ (s.nodes a).children) n m

/-- The cache has the node. -/
abbrev Attached (s : TreeCaching) (n : Nat) : Prop := s.Below 0 n

theorem Below.shrink (hs : Shrinks s s') (h : s'.Below n m) : s.Below n m :=
  Relation.ReflTransGen.mono (fun _ _ ⟨name, hmem⟩ => ⟨name, (hs.children _).subset hmem⟩) _ _ h

theorem Shaped.le_of_below (h : s.Shaped C) (hb : s.Below n m) : n ≤ m := by
  induction hb with
  | refl => exact Nat.le_refl n
  | tail _ hchild ih =>
    obtain ⟨name, hmem⟩ := hchild
    exact ih.trans (h.child _ name _ hmem).1.le

/-- A node has one parent. -/
theorem Shaped.parent_unique (h : s.Shaped C) {q : Nat} {name' : PyStr}
    (hp : (name, c) ∈ (s.nodes p).children) (hq : (name', c) ∈ (s.nodes q).children) :
    p = q ∧ name = name' := by
  obtain ⟨-, -, hparent, hpath, hname⟩ := h.child p name c hp
  obtain ⟨-, -, hparent', hpath', hname'⟩ := h.child q name' c hq
  obtain rfl : p = q := Option.some.inj (hparent.symm.trans hparent')
  exact ⟨rfl, (join_inj hname hname').mp (hpath.symm.trans hpath')⟩

/-- Who has left its parent is out of the tree with all that is below it. -/
theorem Shaped.not_below_of_left (h : s.Shaped C) (hs : Shrinks s s') (hn : n ≠ 0)
    (hleft : ∀ p name, (name, n) ∉ (s'.nodes p).children) (ha : s'.Attached m) : ¬ s.Below n m := by
  induction ha with
  | refl =>
    intro hb
    exact hn (Nat.le_zero.mp (h.le_of_below hb))
  | tail _ hchild ih =>
    obtain ⟨name, hmem⟩ := hchild
    intro hb
    rcases Relation.ReflTransGen.cases_tail hb with heq | ⟨q, hbq, name', hmem'⟩
    · exact hleft _ name (heq ▸ hmem)
    · obtain ⟨rfl, -⟩ := h.parent_unique ((hs.children _).subset hmem) hmem'
      exact ih hbq

/-! ## Deleting a node -/

theorem leave_nodes (hm : ∀ name, (name, n) ∉ (s.nodes m).children) :
    (s.leave n).nodes m = s.nodes m := by
  unfold leave
  split
  · rw [(asks_callClient _).nodes]
  · next p hparent =>
    dsimp only
    split
    · next hlookup =>
      have hmp : m ≠ p := by
        rintro rfl
        obtain ⟨front, back, hsplit, -⟩ := List.lookup_eq_some_iff.mp hlookup
        exact hm _ (hsplit ▸ List.mem_append_right front List.mem_cons_self)
      exact setNode_nodes_of_ne _ hmp
    · rfl

theorem mem_watchers_leave (hm : m ≠ n) {kind : WatchKind} :
    m ∈ (s.leave n).watchers kind ↔ m ∈ s.watchers kind := by
  unfold leave
  split
  · rw [(asks_callClient _).watchers]
  · dsimp only
    split
    · simp [resetWatchers, setNode, hm]
    · rfl

theorem die_nodes_of_ne (old : TreeNode) (hm : m ≠ n) : (s.die n old).nodes m = s.nodes m := by
  unfold die
  dsimp only
  split
  · rw [(asks_publishEvent _).nodes, setNode_nodes_of_ne _ hm]
  · exact setNode_nodes_of_ne _ hm

theorem die_nodes_self (old : TreeNode) :
    (s.die n old).nodes n = { s.nodes n with state := .dead } := by
  unfold die
  dsimp only
  split
  · rw [(asks_publishEvent _).nodes, setNode_nodes_self]
  · exact setNode_nodes_self _

theorem die_watchers (old : TreeNode) : (s.die n old).watchers = s.watchers := by
  unfold die
  dsimp only
  split
  · exact (asks_publishEvent _).watchers
  · rfl

theorem leave_apart (hmn : m ≠ n) (hm : ∀ name, (name, n) ∉ (s.nodes m).children) :
    (s.leave n).nodes m = s.nodes m ∧ ∀ kind, m ∈ (s.leave n).watchers kind ↔ m ∈ s.watchers kind :=
  ⟨leave_nodes hm, fun _ => mem_watchers_leave hmn⟩

/-- The node `k` is the same before and after. -/
def Apart (s s' : TreeCaching) (k : Nat) : Prop :=
  s'.nodes k = s.nodes k ∧ ∀ kind, k ∈ s'.watchers kind ↔ k ∈ s.watchers kind

theorem Apart.refl (s : TreeCaching) (k : Nat) : Apart s s k := ⟨rfl, fun _ => Iff.rfl⟩

theorem Apart.trans {k : Nat} (h : Apart s t k) (h' : Apart t s' k) : Apart s s' k :=
  ⟨h'.1.trans h.1, fun kind => (h'.2 kind).trans (h.2 kind)⟩

/-- What a node has to be for the deletion of `n` to leave it alone. -/
def Spared (s : TreeCaching) (n k : Nat) : Prop :=
  ¬ s.Below n k ∧ ∀ name, (name, n) ∉ (s.nodes k).children

/-- The children of `n` are deleted one after the other. -/
theorem Shaped.sweep_apart {k : Nat}
    (hdelete : ∀ (t : TreeCaching) (c : Nat), t.Shaped C → t.Spared c k → Apart t (onDeleted fuel t c) k)
    (l : List (PyStr × Nat)) {t : TreeCaching} (ht : t.Shaped C)
    (hl : ∀ x ∈ l, (t.nodes x.2).parent = some n ∧ ¬ t.Below x.2 k)
    (hk : (t.nodes k).children = [] ∨ k ≠ n) :
    Apart t (l.foldl (fun s child => onDeleted fuel s child.2) t) k := by
  induction l generalizing t with
  | nil => exact .refl t k
  | cons x l ih =>
    obtain ⟨hx, hl⟩ := List.forall_mem_cons.mp hl
    have hspared : t.Spared x.2 k := by
      refine ⟨hx.2, fun name hmem => ?_⟩
      rcases hk with hnil | hkn
      · rw [hnil] at hmem
        cases hmem
      · exact hkn (Option.some.inj ((ht.child k name x.2 hmem).2.2.1.symm.trans hx.1))
    have hfirst : Apart t (onDeleted fuel t x.2) k := hdelete t x.2 ht hspared
    have hshrinks : Shrinks t (onDeleted fuel t x.2) := shrinks_onDeleted
    refine hfirst.trans (ih (ht.shrink hshrinks) (fun y hy => ?_) (hfirst.1 ▸ hk))
    exact ⟨(hshrinks.parent y.2).trans (hl y hy).1, fun hb => (hl y hy).2 (hb.shrink hshrinks)⟩

/-- Before the node dies, everything that is not below its children is as before. -/
theorem Shaped.swept_apart (h : s.Shaped C) {k : Nat}
    (hdelete : ∀ (t : TreeCaching) (c : Nat), t.Shaped C → t.Spared c k → Apart t (onDeleted fuel t c) k)
    (hk : k = n ∨ ¬ s.Below n k) :
    Apart (s.setNode n { s.nodes n with children := [], data := none }) (swept fuel s n) k := by
  have hclear : Shrinks s (s.setNode n { s.nodes n with children := [], data := none }) := shrinks_clear
  refine Shaped.sweep_apart (n := n) hdelete _ (h.shrink hclear) (fun x hx => ?_) ?_
  · obtain ⟨hlt, -, hparent, -⟩ := h.child n x.1 x.2 hx
    refine ⟨(hclear.parent x.2).trans hparent, fun hb => ?_⟩
    have hbelow : s.Below x.2 k := hb.shrink hclear
    rcases hk with rfl | hk
    · exact Nat.not_le_of_lt hlt (h.le_of_below hbelow)
    · exact hk (.head ⟨x.1, hx⟩ hbelow)
  · by_cases hkn : k = n
    · subst hkn
      rw [setNode_nodes_self]
      exact .inl rfl
    · exact .inr hkn

/-- What is not below the node is as before, but for the parent that it leaves. -/
theorem Shaped.onDeleted_apart (h : s.Shaped C) {k : Nat} (hk : s.Spared n k) :
    Apart s (onDeleted fuel s n) k := by
  induction fuel generalizing s n with
  | zero => exact .refl s k
  | succ fuel ih =>
    have hkn : k ≠ n := by
      rintro rfl
      exact hk.1 .refl
    have hclear : Apart s (s.setNode n { s.nodes n with children := [], data := none }) k :=
      ⟨setNode_nodes_of_ne _ hkn, fun _ => Iff.rfl⟩
    have hswept : Apart s (swept fuel s n) k :=
      hclear.trans (h.swept_apart (fun t c ht hc => ih ht hc) (.inr hk.1))
    rw [onDeleted_succ]
    split
    · refine hswept.trans ⟨rfl, fun kind => ?_⟩
      simp [resetWatchers, hkn]
    · have hdie : Apart (swept fuel s n) ((swept fuel s n).die n (s.nodes n)) k :=
        ⟨die_nodes_of_ne _ hkn, fun kind => by rw [die_watchers]⟩
      refine hswept.trans (hdie.trans (leave_apart hkn ?_))
      rw [hdie.1, hswept.1]
      exact hk.2

section Deleted

variable (h : s.Shaped C) (hopen : s.cacheState ≠ .closed)

theorem cacheState_swept : (swept fuel s n).cacheState = s.cacheState := by
  obtain ⟨e, he, -⟩ : Within s (swept fuel s n) :=
    (within_setNode _).trans (composes_within.foldl (fun _ _ => within_onDeleted) _ _)
  rw [he]
  rfl

include hopen in
theorem onDeleted_open : onDeleted (fuel + 1) s n = ((swept fuel s n).die n (s.nodes n)).leave n := by
  rw [onDeleted_succ, if_neg (by rwa [cacheState_swept])]

include h

/-- Just before the node leaves its parent. -/
theorem Shaped.die_swept :
    ((swept fuel s n).die n (s.nodes n)).nodes n = (s.nodes n).deleted ∧
      ∀ k, ¬ s.Below n k → Apart s ((swept fuel s n).die n (s.nodes n)) k := by
  have hdelete (k : Nat) (t : TreeCaching) (c : Nat) (ht : t.Shaped C) (hc : t.Spared c k) :
      Apart t (onDeleted fuel t c) k := ht.onDeleted_apart hc
  constructor
  · rw [die_nodes_self, (h.swept_apart (hdelete n) (.inl rfl)).1, setNode_nodes_self]
    rfl
  · intro k hk
    have hkn : k ≠ n := by
      rintro rfl
      exact hk .refl
    have hclear : Apart s (s.setNode n { s.nodes n with children := [], data := none }) k :=
      ⟨setNode_nodes_of_ne _ hkn, fun _ => Iff.rfl⟩
    exact (hclear.trans (h.swept_apart (hdelete k) (.inr hk))).trans
      ⟨die_nodes_of_ne _ hkn, fun kind => by rw [die_watchers]⟩

include hopen

/-- The parent that finds the node loses it. -/
theorem Shaped.onDeleted_parent (hchild : (name, n) ∈ (s.nodes p).children)
    (hplain : PlainPath (s.nodes p).path) :
    (onDeleted (fuel + 1) s n).nodes p =
      { s.nodes p with children := (s.nodes p).children.filter (·.1 ≠ name) } := by
  obtain ⟨hlt, -, hparent, hpath, hname⟩ := h.child p name n hchild
  obtain ⟨hself, hapart⟩ : ((swept fuel s n).die n (s.nodes n)).nodes n = (s.nodes n).deleted ∧ _ :=
    h.die_swept
  have hp := (hapart p fun hb => Nat.not_le_of_lt hlt (h.le_of_below hb)).1
  have hdrop : (s.nodes n).path.drop ((s.nodes p).path.length + 1) = name := by
    rw [hpath, drop_join _ hname, if_pos hplain]
  have hlookup : (s.nodes p).children.lookup name = some n :=
    (lookup_eq_some_iff_mem (h.nodup p)).mpr hchild
  rw [onDeleted_open hopen]
  generalize (swept fuel s n).die n (s.nodes n) = t at hself hp
  have hparent' : (t.nodes n).parent = some p := by
    rw [hself]
    exact hparent
  have hdrop' : (t.nodes n).path.drop ((s.nodes p).path.length + 1) = name := by
    rw [hself]
    exact hdrop
  unfold leave
  rw [hparent']
  dsimp only
  rw [hp, hdrop', if_pos hlookup]
  exact setNode_nodes_self _

theorem Shaped.onDeleted_left (p : Nat) (hplain : PlainPath (s.nodes p).path) (name : PyStr) :
    (name, n) ∉ ((onDeleted (fuel + 1) s n).nodes p).children := by
  intro hmem
  have hchild : (name, n) ∈ (s.nodes p).children := (shrinks_onDeleted.children p).subset hmem
  rw [h.onDeleted_parent hopen hchild hplain] at hmem
  exact of_decide_eq_true (List.mem_filter.mp hmem).2 rfl

end Deleted

end TreeCaching

end Kazoo
