import Kazoo.Recipe.TreeRuns

/-!
# Closed caches

What a `TreeCache` still does after `close`: the background thread finishes what was on its queue,
answers that are on their way register watchers, and calls of watchers that have been dispatched make
requests, as none of them looks whether the cache is closed.
-/

namespace Kazoo

/-- A closed cache does nothing about it. -/
def NodeResult.Settled : NodeResult → Prop
  | .existing (some _) => False
  | .listed names => names = []
  | _ => True

def CacheTask.Settled : CacheTask → Prop
  | .created | .reconnected => False
  | .result r => r.result.Settled
  | .publish _ | .stop => True

instance (result : NodeResult) : Decidable result.Settled := by
  unfold NodeResult.Settled
  split <;> infer_instance

instance (task : CacheTask) : Decidable task.Settled := by
  unfold CacheTask.Settled
  split <;> infer_instance

/-- A closed cache is not asked for anything by the call. -/
def WatchCall.Settled (call : WatchCall) : Prop := call.type = .DELETED ∨ call.type = .NONE

instance (call : WatchCall) : Decidable call.Settled := inferInstanceAs (Decidable (_ ∨ _))

/-- The message registers no watcher. -/
def CacheMessage.Settled : CacheMessage → Prop
  | .reply r => r.result.watches = none
  | .event _ _ _ => True

instance (m : CacheMessage) : Decidable m.Settled := by
  unfold CacheMessage.Settled
  split <;> infer_instance

namespace TreeCaching

variable {C : TreeCaches} {s s' t : TreeCaching} {n m c p fuel : Nat} {name : PyStr}

/-- No watcher is in the tables, and no step makes a request, publishes an event or registers a
watcher. -/
structure Detached (C : TreeCaches) (s : TreeCaching) : Prop where
  watchers : ∀ kind, s.watchers kind = []
  steps : ∀ act, s.enabled C act →
    (s.post C act).outstandingOps = s.outstandingOps ∧ (s.post C act).requests ⊆ s.requests ∧
      (s.post C act).published = s.published ∧ ∀ kind, (s.post C act).watchers kind = []

/-- The cache is closed while nothing is under way: no request waits, no answer on its way registers a
watcher, no call of a watcher and no task asks for more, and only nodes of the tree are watched. -/
def Quiet (s : TreeCaching) : TreeCacheAct → Prop
  | .close =>
    s.requests = [] ∧ (∀ m ∈ s.wire, m.Settled) ∧ (∀ call ∈ s.callbacks, call.Settled) ∧
      (∀ task ∈ s.tasks, task.Settled) ∧ ∀ kind, ∀ n ∈ s.watchers kind, s.Attached n
  | _ => True

/-! ## Nodes below a node -/

/-- Two children of a node have nothing below them in common. -/
theorem Shaped.not_below_sibling (h : s.Shaped C) {name' : PyStr} {m' : Nat}
    (hm : (name, m) ∈ (s.nodes n).children) (hm' : (name', m') ∈ (s.nodes n).children) (hne : m ≠ m')
    {k : Nat} (hb : s.Below m' k) : ¬ s.Below m k := by
  induction hb with
  | refl =>
    intro hb'
    obtain heq | ⟨q, hbq, name'', hq⟩ := Relation.ReflTransGen.cases_tail hb'
    · exact hne heq.symm
    · obtain ⟨rfl, -⟩ := h.parent_unique hq hm'
      exact Nat.not_le_of_lt (h.child _ name m hm).1 (h.le_of_below hbq)
  | tail hb₁ hchild ih =>
    obtain ⟨name₁, hchild⟩ := hchild
    intro hb'
    obtain heq | ⟨q, hbq, name'', hq⟩ := Relation.ReflTransGen.cases_tail hb'
    · subst heq
      obtain ⟨rfl, -⟩ := h.parent_unique hchild hm
      exact Nat.not_le_of_lt (h.child _ name' m' hm').1 (h.le_of_below hb₁)
    · obtain ⟨rfl, -⟩ := h.parent_unique hq hchild
      exact ih hbq

theorem Below.of_same (hb : s.Below n m) (hsame : ∀ k, s.Below n k → t.nodes k = s.nodes k) :
    t.Below n m := by
  induction hb with
  | refl => exact .refl
  | tail hb hchild ih =>
    obtain ⟨name, hchild⟩ := hchild
    refine ih.tail ⟨name, ?_⟩
    rw [hsame _ hb]
    exact hchild

/-! ## Deletions in a closed cache -/

/-- Only the nodes change, and the tables. -/
def Silent (s s' : TreeCaching) : Prop :=
  ∃ nodes watchers, s' = { s with nodes, watchers } ∧ ∀ kind, watchers kind ⊆ s.watchers kind

theorem Silent.refl (s : TreeCaching) : Silent s s :=
  ⟨s.nodes, s.watchers, rfl, fun _ => List.Subset.refl _⟩

theorem Silent.trans (h : Silent s t) (h' : Silent t s') : Silent s s' := by
  obtain ⟨nodes, watchers, rfl, hsub⟩ := h
  obtain ⟨nodes', watchers', rfl, hsub'⟩ := h'
  exact ⟨nodes', watchers', rfl, fun kind _ hm => hsub kind (hsub' kind hm)⟩

theorem silent_setNode (node : TreeNode) : Silent s (s.setNode n node) :=
  ⟨_, _, rfl, fun _ => List.Subset.refl _⟩

theorem silent_resetWatchers : Silent s (s.resetWatchers n) :=
  ⟨_, _, rfl, fun _ _ hm => List.mem_of_mem_filter hm⟩

theorem Silent.closed (h : Silent s s') (hclosed : s.cacheState = .closed) : s'.cacheState = .closed := by
  obtain ⟨nodes, watchers, rfl, -⟩ := h
  exact hclosed

theorem silent_sweep
    (hdelete : ∀ (t : TreeCaching) (c : Nat), t.cacheState = .closed → Silent t (onDeleted fuel t c))
    (l : List (PyStr × Nat)) (hclosed : s.cacheState = .closed) :
    Silent s (l.foldl (fun s child => onDeleted fuel s child.2) s) := by
  induction l generalizing s with
  | nil => exact .refl s
  | cons x l ih =>
    have hfirst := hdelete s x.2 hclosed
    exact hfirst.trans (ih (hfirst.closed hclosed))

theorem silent_onDeleted (hclosed : s.cacheState = .closed) : Silent s (onDeleted fuel s n) := by
  induction fuel generalizing s n with
  | zero => exact .refl s
  | succ fuel ih =>
    have hclear : Silent s (s.setNode n { s.nodes n with children := [], data := none }) :=
      silent_setNode _
    have hswept : Silent s (swept fuel s n) :=
      hclear.trans (silent_sweep (fun _ _ h => ih h) _ (hclear.closed hclosed))
    rw [onDeleted_succ, if_pos (hswept.closed hclosed)]
    exact hswept.trans silent_resetWatchers

/-- Everything below the node is taken out of the tables. -/
theorem Shaped.closed_watchers (h : s.Shaped C) (hclosed : s.cacheState = .closed) (hn : n < s.size)
    (hfuel : s.size ≤ n + fuel) (hb : s.Below n m) (kind : WatchKind) :
    m ∉ (onDeleted fuel s n).watchers kind := by
  induction fuel generalizing s n with
  | zero => omega
  | succ fuel ih =>
    have hclear : Silent s (s.setNode n { s.nodes n with children := [], data := none }) :=
      silent_setNode _
    have hshrinks : Shrinks s (s.setNode n { s.nodes n with children := [], data := none }) := shrinks_clear
    have hsweep (l : List (PyStr × Nat)) {t : TreeCaching} (ht : t.cacheState = .closed) :
        Silent t (l.foldl (fun s child => onDeleted fuel s child.2) t) :=
      silent_sweep (fun _ _ h => silent_onDeleted h) l ht
    have hswept : Silent s (swept fuel s n) := hclear.trans (hsweep _ (hclear.closed hclosed))
    rw [onDeleted_succ, if_pos (hswept.closed hclosed)]
    intro hwatched
    obtain ⟨hwatched, hne⟩ := List.mem_filter.mp hwatched
    obtain heq | ⟨c, ⟨name, hc⟩, hb⟩ := Relation.ReflTransGen.cases_head hb
    · exact of_decide_eq_true hne heq.symm
    obtain ⟨hlt, hsize, -⟩ := h.child n name c hc
    obtain ⟨front, back, hsplit⟩ := List.append_of_mem hc
    unfold swept at hwatched
    rw [hsplit, List.foldl_append, List.foldl_cons] at hwatched
    -- the children before do not touch what is below this one
    have hfront : Silent s (front.foldl (fun s child => onDeleted fuel s child.2)
        (s.setNode n { s.nodes n with children := [], data := none })) :=
      hclear.trans (hsweep front (hclear.closed hclosed))
    have hfront' : Shrinks s (front.foldl (fun s child => onDeleted fuel s child.2)
        (s.setNode n { s.nodes n with children := [], data := none })) :=
      hshrinks.trans (.foldl (fun _ _ => shrinks_onDeleted) front _)
    have hsame (k : Nat) (hk : s.Below c k) : (front.foldl (fun s child => onDeleted fuel s child.2)
        (s.setNode n { s.nodes n with children := [], data := none })).nodes k = s.nodes k := by
      have hkn : k ≠ n := by
        rintro rfl
        exact Nat.not_le_of_lt hlt (h.le_of_below hk)
      refine (Shaped.sweep_apart (n := n) (fun t d ht hd => ht.onDeleted_apart hd) front
        (h.shrink hshrinks) (fun x hx => ?_) (.inr hkn)).1.trans (setNode_nodes_of_ne _ hkn)
      have hx' : (x.1, x.2) ∈ (s.nodes n).children := hsplit ▸ List.mem_append_left _ hx
      refine ⟨(hshrinks.parent x.2).trans (h.child n x.1 x.2 hx').2.2.1, fun hbx => ?_⟩
      refine h.not_below_sibling hx' hc ?_ hk (hbx.shrink hshrinks)
      intro heq
      have hnodup := h.nodup n
      rw [hsplit, List.map_append, List.nodup_append] at hnodup
      refine hnodup.2.2 x.1 (List.mem_map_of_mem hx) name List.mem_cons_self ?_
      exact (h.parent_unique hx' (heq ▸ hc)).2
    generalize front.foldl (fun s child => onDeleted fuel s child.2)
      (s.setNode n { s.nodes n with children := [], data := none }) = t at hwatched hfront hfront' hsame
    have htclosed := hfront.closed hclosed
    have hsilent : Silent t (onDeleted fuel t c) := silent_onDeleted htclosed
    obtain ⟨nodes, watchers, hback, hsub⟩ := hsweep back (hsilent.closed htclosed)
    rw [hback] at hwatched
    exact ih (h.shrink hfront') htclosed (hfront'.size ▸ hsize) (by rw [hfront'.size]; omega)
      (Below.of_same hb hsame) (hsub kind hwatched)

/-! ## After the close -/

/-- What a closed cache has left to do asks for nothing. -/
structure Closing (s : TreeCaching) : Prop where
  listening : s.listening = false
  requests : s.requests = []
  wire : ∀ m ∈ s.wire, m.Settled
  watchers : ∀ kind, s.watchers kind = []
  callbacks : ∀ call ∈ s.callbacks, call.Settled
  tasks : s.stopped = false → ∃ before after, s.tasks = before ++ .stop :: after ∧
    ∀ task ∈ before, task.Settled

/-- What a step after the close leaves as it is. -/
structure Idles (s s' : TreeCaching) : Prop where
  outstandingOps : s'.outstandingOps = s.outstandingOps
  requests : s'.requests = s.requests
  published : s'.published = s.published

theorem Shaped.closing_close (h : s.Shaped C) (hquiet : s.Quiet .close) : s.close.Closing := by
  obtain ⟨hrequests, hwire, hcallbacks, htasks, hwatched⟩ := hquiet
  let t : TreeCaching := { s.inBackground .stop with cacheState := .closed, listening := false }
  have ht : t.Shaped C := h.shrink (.of_eq rfl rfl)
  have hnone (kind : WatchKind) : s.close.watchers kind = [] := by
    refine List.eq_nil_iff_forall_not_mem.mpr fun m hm => ?_
    have hsilent : Silent t s.close := silent_onDeleted rfl
    obtain ⟨nodes, watchers, heq, hsub⟩ := hsilent
    refine ht.closed_watchers rfl ht.pos (Nat.le_of_eq (Nat.zero_add _).symm) ?_ kind hm
    refine hwatched kind m (hsub kind ?_)
    rw [heq] at hm
    exact hm
  obtain ⟨nodes, watchers, heq, -⟩ : Silent t s.close := silent_onDeleted rfl
  rw [heq] at hnone ⊢
  exact ⟨rfl, hrequests, hwire, hnone, hcallbacks, fun _ => ⟨s.tasks, [], rfl, htasks⟩⟩

theorem Closing.silent (h : s.Closing) (hs : Silent s s') : s'.Closing ∧ Idles s s' := by
  obtain ⟨nodes, watchers, rfl, hsub⟩ := hs
  refine ⟨⟨h.listening, h.requests, h.wire, fun kind => ?_, h.callbacks, h.tasks⟩, rfl, rfl, rfl⟩
  exact List.eq_nil_of_subset_nil (h.watchers kind ▸ hsub kind)

/-- A task is put behind the end. -/
theorem Closing.inBackground (h : s.Closing) (task : CacheTask) : (s.inBackground task).Closing := by
  refine ⟨h.listening, h.requests, h.wire, h.watchers, h.callbacks, fun hstopped => ?_⟩
  obtain ⟨before, after, htasks, hsettled⟩ := h.tasks hstopped
  refine ⟨before, after ++ [task], ?_, hsettled⟩
  show s.tasks ++ [task] = _
  rw [htasks, List.append_assoc]
  rfl

theorem processWatch_settled (hclosed : s.cacheState = .closed) {type : EventType}
    (htype : type = .DELETED ∨ type = .NONE) : Silent s (s.processWatch n type) := by
  rcases htype with rfl | rfl
  · exact silent_onDeleted hclosed
  · exact .refl s

theorem makeStateChange_unheard (h : s.listening = false) (state : KazooState) :
    s.makeStateChange state = { s with state := state } := by
  unfold makeStateChange
  split
  next heq => rw [← heq]
  · dsimp only
    rw [if_neg (by rw [h]; exact Bool.false_ne_true)]

theorem processReply_settled (hclosed : s.cacheState = .closed) {result : NodeResult}
    (hresult : result.Settled) : Silent s (s.processReply n result) := by
  cases result with
  | existing stat =>
    cases stat with
    | none => exact .refl s
    | some stat => exact hresult.elim
  | listed names =>
    obtain rfl : names = [] := hresult
    exact .refl s
  | noNode => exact silent_onDeleted hclosed
  | failed => exact .refl s
  | got data stat =>
    have hpublish (t : TreeCaching) (ht : t.cacheState = .closed) (e : TreeEvent) :
        t.publishEvent e = t := by
      unfold publishEvent
      rw [if_pos ht]
    simp only [processReply]
    rw [hpublish (s.setNode n _) hclosed, hpublish (s.setNode n _) hclosed]
    split
    · split <;> exact silent_setNode _
    · exact silent_setNode _

theorem Closing.doTask (h : s.Closing) (hclosed : s.cacheState = .closed) {task : CacheTask}
    (htask : task.Settled) : (s.doTask task).Closing := by
  cases task with
  | created => exact htask.elim
  | reconnected => exact htask.elim
  | publish e => exact ⟨h.listening, h.requests, h.wire, h.watchers, h.callbacks, h.tasks⟩
  | stop => exact ⟨h.listening, h.requests, h.wire, h.watchers, h.callbacks, fun h' => nomatch h'⟩
  | result r =>
    have hsilent : Silent s (s.processReply r.node r.result) := processReply_settled hclosed htask
    have hs := (h.silent hsilent).1
    have hclosed' := hsilent.closed hclosed
    show (s.processResult r).Closing
    unfold processResult
    generalize s.processReply r.node r.result = t at hs hclosed'
    dsimp only
    split
    · unfold publishEvent
      rw [if_pos hclosed']
      exact ⟨hs.listening, hs.requests, hs.wire, hs.watchers, hs.callbacks, hs.tasks⟩
    · exact ⟨hs.listening, hs.requests, hs.wire, hs.watchers, hs.callbacks, hs.tasks⟩

theorem Closing.sessionCallback (h : s.Closing) (st : KeeperState) :
    (s.sessionCallback st).Closing ∧ Idles s (s.sessionCallback st) := by
  have hreset (state : KazooState) (keeperState : KeeperState) :
      ({ s with state, keeperState } : TreeCaching).Closing :=
    ⟨h.listening, h.requests, h.wire, h.watchers, h.callbacks, h.tasks⟩
  have hdrop {t : TreeCaching} (ht : t.Closing) : t.notifyPending.clientResetWatchers.Closing ∧
      Idles t t.notifyPending.clientResetWatchers := by
    refine ⟨⟨ht.listening, rfl, fun _ h' => absurd h' List.not_mem_nil, fun _ => rfl,
      fun call hcall => ?_, ht.tasks⟩, rfl, ht.requests.symm, rfl⟩
    rcases List.mem_append.mp hcall with hcall | hcall
    · exact ht.callbacks call hcall
    · obtain ⟨n, -, rfl⟩ := List.mem_map.mp hcall
      exact .inr rfl
  unfold TreeCaching.sessionCallback
  dsimp only
  split
  · exact ⟨hreset s.state st, rfl, rfl, rfl⟩
  · split
    · rw [makeStateChange_unheard (s := { s with keeperState := st }) h.listening]
      exact ⟨hreset .CONNECTED st, rfl, rfl, rfl⟩
    · split
      · rw [makeStateChange_unheard (s := { s with keeperState := st }) h.listening]
        obtain ⟨hs, hops, hrequests, hpublished⟩ := hdrop (hreset .LOST st)
        exact ⟨hs, hops, hrequests, hpublished⟩
      · have hlistening : ({ s with keeperState := st } : TreeCaching).notifyPending.listening = false :=
          h.listening
        rw [makeStateChange_unheard hlistening]
        obtain ⟨hs, hops, hrequests, hpublished⟩ := hdrop (hreset .SUSPENDED st)
        exact ⟨hs, hops, hrequests, hpublished⟩

theorem Closing.read (h : s.Closing) {order : List Nat} (horder : order.Perm (s.called C)) :
    (s.read C order).Closing ∧ Idles s (s.read C order) := by
  have hnone : order = [] := by
    refine List.Perm.eq_nil (horder.trans ?_)
    unfold called
    split
    · rw [h.watchers, h.watchers]
      split <;> split <;> exact .nil
    · exact .nil
  unfold TreeCaching.read
  split
  · exact ⟨h, rfl, rfl, rfl⟩
  next r wire hwire =>
    have hr : r.result.watches = none := h.wire (.reply r) (hwire ▸ List.mem_cons_self)
    refine ⟨⟨h.listening, h.requests, fun m hm => h.wire m (hwire ▸ List.mem_cons_of_mem _ hm),
      fun kind => ?_, h.callbacks, h.tasks⟩, rfl, rfl, rfl⟩
    dsimp only
    rw [hr, if_neg (fun hwatch => nomatch hwatch.1)]
    exact h.watchers kind
  next type key stamp wire hwire =>
    refine ⟨⟨h.listening, h.requests, fun m hm => h.wire m (hwire ▸ List.mem_cons_of_mem _ hm),
      fun kind => ?_, fun call hcall => ?_, h.tasks⟩, rfl, rfl, rfl⟩
    · dsimp only
      rw [h.watchers]
      split <;> rfl
    · rw [hnone, List.map_nil, List.append_nil] at hcall
      exact h.callbacks call hcall

/-- The background thread is not over yet. -/
theorem Closing.background (h : s.Closing) (hclosed : s.cacheState = .closed)
    (hstopped : s.stopped = false) : (s.post C .background).Closing := by
  obtain ⟨before, after, htasks, hsettled⟩ := h.tasks hstopped
  unfold TreeCaching.post
  dsimp only
  rw [htasks]
  cases before with
  | nil =>
    exact ⟨h.listening, h.requests, h.wire, h.watchers, h.callbacks, fun h' => nomatch h'⟩
  | cons task before =>
    obtain ⟨htask, hsettled⟩ := List.forall_mem_cons.mp hsettled
    have hs : ({ s with tasks := before ++ .stop :: after } : TreeCaching).Closing :=
      ⟨h.listening, h.requests, h.wire, h.watchers, h.callbacks, fun _ => ⟨before, after, rfl, hsettled⟩⟩
    exact hs.doTask hclosed htask

/-- Another step than one of the background thread. -/
theorem Closing.post (h : s.Closing) (hclosed : s.cacheState = .closed) {act : TreeCacheAct}
    (hen : s.enabled C act) (hact : act ≠ .background) :
    (s.post C act).Closing ∧ Idles s (s.post C act) := by
  cases act with
  | change c =>
    obtain ⟨armed, sent, events, hevents, heq⟩ := change_eq s c
    show (s.change c).Closing ∧ Idles s (s.change c)
    rw [heq]
    refine ⟨⟨h.listening, h.requests, fun m hm => ?_, h.watchers, h.callbacks, h.tasks⟩, rfl, rfl, rfl⟩
    rcases List.mem_append.mp hm with hm | hm
    · exact h.wire m hm
    · obtain ⟨type, key, stamp, rfl⟩ := hevents m hm
      trivial
  | answer => exact absurd h.requests hen.2
  | read order => exact h.read hen.2.2
  | complete =>
    unfold TreeCaching.post
    dsimp only
    split
    · exact ⟨h, rfl, rfl, rfl⟩
    next r completions hcompletions =>
      have hs : ({ s with completions := completions } : TreeCaching).Closing :=
        ⟨h.listening, h.requests, h.wire, h.watchers, h.callbacks, h.tasks⟩
      exact ⟨hs.inBackground _, rfl, rfl, rfl⟩
  | callback =>
    unfold TreeCaching.post
    dsimp only
    split
    · exact ⟨h, rfl, rfl, rfl⟩
    next call callbacks hcallbacks =>
      have hs : ({ s with callbacks := callbacks } : TreeCaching).Closing := by
        refine ⟨h.listening, h.requests, h.wire, h.watchers, fun call' hcall' => ?_, h.tasks⟩
        exact h.callbacks call' (hcallbacks ▸ List.mem_cons_of_mem _ hcall')
      have hcall := h.callbacks call (hcallbacks ▸ List.mem_cons_self)
      have hsilent := processWatch_settled (s := { s with callbacks := callbacks }) (n := call.node)
        hclosed hcall
      obtain ⟨hs', hops, hrequests, hpublished⟩ := hs.silent hsilent
      exact ⟨hs', hops, hrequests, hpublished⟩
  | background => exact absurd rfl hact
  | session st => exact h.sessionCallback st
  | start => cases hclosed.symm.trans hen
  | startReturns =>
    have hs : ({ s with start := .returned } : TreeCaching).Closing :=
      ⟨h.listening, h.requests, h.wire, h.watchers, h.callbacks, h.tasks⟩
    unfold TreeCaching.post
    dsimp only
    split
    · exact ⟨hs.inBackground _, rfl, rfl, rfl⟩
    · exact ⟨hs, rfl, rfl, rfl⟩
  | close => cases hclosed.symm.trans hen

/-! ## Runs -/

/-- Neither the cache nor the session changes its state. -/
structure SameStates (s s' : TreeCaching) : Prop where
  cacheState : s'.cacheState = s.cacheState
  listening : s'.listening = s.listening
  state : s'.state = s.state

theorem SameStates.refl (s : TreeCaching) : SameStates s s := ⟨rfl, rfl, rfl⟩

theorem Within.sameStates (h : Within s s') : SameStates s s' := by
  obtain ⟨e, rfl, -⟩ := h
  exact ⟨rfl, rfl, rfl⟩

theorem sameStates_doTask (task : CacheTask) : SameStates s (s.doTask task) := by
  cases task with
  | created => exact composes_within.refresh.sameStates
  | reconnected => exact composes_within.onReconnected.sameStates
  | publish e => exact ⟨rfl, rfl, rfl⟩
  | stop => exact ⟨rfl, rfl, rfl⟩
  | result r =>
    have h := (composes_within.processReply (s := s) (n := r.node) r.result).sameStates
    show SameStates s (s.processResult r)
    unfold processResult
    dsimp only
    split
    · have hpublish := (within_publishEvent (s := { s.processReply r.node r.result with
        outstandingOps := (s.processReply r.node r.result).outstandingOps - 1
        isInitialized := true }) .initialized).sameStates
      exact ⟨hpublish.cacheState.trans h.cacheState, hpublish.listening.trans h.listening,
        hpublish.state.trans h.state⟩
    · exact ⟨h.cacheState, h.listening, h.state⟩

theorem sameStates_makeStateChange (state : KazooState) :
    SameStates { s with state := state } (s.makeStateChange state) := by
  unfold makeStateChange
  split
  · next heq => exact ⟨rfl, rfl, heq⟩
  · dsimp only
    split
    · cases state with
      | SUSPENDED => exact (within_publishEvent _).sameStates
      | CONNECTED =>
        have h := (within_publishEvent (s := { s with state := .CONNECTED }.inBackground .reconnected)
          .connectionReconnected).sameStates
        exact ⟨h.cacheState, h.listening, h.state⟩
      | LOST =>
        have h := (within_publishEvent (s := { s with state := .LOST, isInitialized := false })
          .connectionLost).sameStates
        exact ⟨h.cacheState, h.listening, h.state⟩
    · exact .refl _

/-- The state of the session after `_session_callback`. -/
theorem sameStates_sessionCallback (st : KeeperState) : ∃ state,
    SameStates { s with state := state } (s.sessionCallback st) := by
  unfold sessionCallback
  dsimp only
  split
  · exact ⟨s.state, rfl, rfl, rfl⟩
  · split
    · obtain ⟨hcache, hlistening, hstate⟩ :=
        sameStates_makeStateChange (s := { s with keeperState := st }) .CONNECTED
      exact ⟨.CONNECTED, hcache, hlistening, hstate⟩
    · split
      · obtain ⟨hcache, hlistening, hstate⟩ :=
          sameStates_makeStateChange (s := { s with keeperState := st }) .LOST
        exact ⟨.LOST, hcache, hlistening, hstate⟩
      · obtain ⟨hcache, hlistening, hstate⟩ := sameStates_makeStateChange
          (s := ({ s with keeperState := st } : TreeCaching).notifyPending) .SUSPENDED
        exact ⟨.SUSPENDED, hcache, hlistening, hstate⟩

theorem sameStates_post (act : TreeCacheAct) (hsession : ∀ st, act ≠ .session st) (hstart : act ≠ .start)
    (hclose : act ≠ .close) : SameStates s (s.post C act) := by
  cases act with
  | change c =>
    obtain ⟨armed, sent, events, -, heq⟩ := change_eq s c
    show SameStates s (s.change c)
    rw [heq]
    exact ⟨rfl, rfl, rfl⟩
  | answer =>
    show SameStates s (s.answer C)
    unfold answer
    split <;> exact ⟨rfl, rfl, rfl⟩
  | read order =>
    show SameStates s (s.read C order)
    unfold read
    split <;> exact ⟨rfl, rfl, rfl⟩
  | complete =>
    unfold post
    dsimp only
    split <;> exact ⟨rfl, rfl, rfl⟩
  | callback =>
    unfold post
    dsimp only
    split
    · exact .refl s
    · next call callbacks _ =>
      have h := (composes_within.processWatch (s := { s with callbacks := callbacks }) (n := call.node)
        call.type).sameStates
      exact ⟨h.cacheState, h.listening, h.state⟩
  | background =>
    unfold post
    dsimp only
    split
    · exact .refl s
    · next task tasks _ =>
      have h := sameStates_doTask (s := { s with tasks := tasks }) task
      exact ⟨h.cacheState, h.listening, h.state⟩
  | session st => exact absurd rfl (hsession st)
  | start => exact absurd rfl hstart
  | startReturns =>
    unfold post
    dsimp only
    split <;> exact ⟨rfl, rfl, rfl⟩
  | close => exact absurd rfl hclose

/-- Only `close` closes the cache. -/
theorem cacheState_post (act : TreeCacheAct) (hclosed : (s.post C act).cacheState = .closed) :
    act = .close ∨ s.cacheState = .closed := by
  by_cases hclose : act = .close
  · exact .inl hclose
  refine .inr ?_
  cases act with
  | session st =>
    obtain ⟨state, hsame⟩ := sameStates_sessionCallback (s := s) st
    exact hsame.cacheState.symm.trans hclosed
  | start => cases hclosed
  | _ => exact (sameStates_post _ (by simp) (by simp) hclose).cacheState.symm.trans hclosed

theorem closing_of_reach (hr : (treeCaching C).Reach Quiet s) (hclosed : s.cacheState = .closed) :
    s.Closing := by
  revert hclosed
  refine hr.invariant (P := fun s => s.cacheState = .closed → s.Closing) (fun h => nomatch h)
    fun s act hr ih hen hok hclosed => ?_
  rcases cacheState_post act hclosed with rfl | hbefore
  · exact (sound_of_reach hr).shaped.closing_close hok
  · by_cases hact : act = .background
    · subst hact
      exact (ih hbefore).background (C := C) hbefore hen.2
    · exact ((ih hbefore).post hbefore hen hact).1

/-- A cache that is closed while nothing is under way is detached once its thread is over. -/
theorem closed_detached (hr : (treeCaching C).Reach Quiet s) (hclosed : s.cacheState = .closed)
    (hstopped : s.stopped = true) : s.Detached C := by
  have h := closing_of_reach hr hclosed
  refine ⟨h.watchers, fun act hen => ?_⟩
  have hact : act ≠ .background := by
    rintro rfl
    cases hstopped.symm.trans hen.2
  obtain ⟨ht, hops, hrequests, hpublished⟩ := h.post hclosed hen hact
  exact ⟨hops, hrequests ▸ List.Subset.refl _, hpublished, ht.watchers⟩

/-- The cache asks for the root. -/
def asking : List TreeCacheAct :=
  [.session .CONNECTING, .session .CONNECTED, .start, .startReturns, .background]

/-- It is closed while the answer is on its way, which registers a watcher when the thread is over. -/
theorem closed_not_detached :
    ¬ ∀ (C : TreeCaches) (s : TreeCaching), (treeCaching C).Reachable s → s.cacheState = .closed →
      s.stopped = true → s.Detached C := by
  intro h
  have hr : (treeCaching rootCache).Reachable ((treeCaching rootCache).exec (.init rootCache)
      (asking ++ [.answer, .close, .background, .read []])) := .of_legal (by decide +kernel)
  have hnone := (h rootCache _ hr (by decide +kernel) (by decide +kernel)).watchers .data
  revert hnone
  decide +kernel

theorem legal_quiet {acts : List TreeCacheAct} (hacts : .close ∉ acts)
    (h : (treeCaching C).Legal Machine.Free s acts) : (treeCaching C).Legal Quiet s acts := by
  induction acts generalizing s with
  | nil => trivial
  | cons act acts ih =>
    obtain ⟨hen, -, hrest⟩ := h
    obtain ⟨hact, hacts⟩ := not_or.mp (List.mem_cons.not.mp hacts)
    refine ⟨hen, ?_, ih hacts hrest⟩
    cases act with
    | close => exact absurd rfl hact
    | _ => trivial

/-- Both answers have come, and the background thread waits. -/
def settled : List TreeCacheAct :=
  asking ++ [.answer, .answer, .read [], .read [], .complete, .complete, .background, .background,
    .background, .background]

theorem closed_detached_settled :
    ((treeCaching rootCache).exec (.init rootCache) (settled ++ [.close, .background])).Detached
      rootCache := by
  refine closed_detached (.of_legal (Machine.legal_append_iff.mpr
    ⟨legal_quiet (by decide) (by decide +kernel), by decide +kernel, ?_, by decide +kernel, trivial,
      trivial⟩)) (by decide +kernel) (by decide +kernel)
  refine ⟨by decide +kernel, by decide +kernel, by decide +kernel, by decide +kernel,
    fun kind n hn => ?_⟩
  have hroot : n = 0 := by
    revert n
    cases kind <;> decide +kernel
  rw [hroot]
  exact .refl

end TreeCaching

end Kazoo
