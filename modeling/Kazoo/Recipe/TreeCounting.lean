import Kazoo.Recipe.TreeClosing

/-!
# The outstanding operations of a cache

`_outstanding_ops` of a `TreeCache` is raised in `_call_client` and lowered at the end of
`_process_result`.  Each call is somewhere between the two: with the client, on its way back, or with
the background thread.
-/

namespace Kazoo

def CacheMessage.isReply : CacheMessage → Bool
  | .reply _ => true
  | .event _ _ _ => false

def CacheTask.isResult : CacheTask → Bool
  | .result _ => true
  | .created | .reconnected | .publish _ | .stop => false

namespace TreeCaching

variable {C : TreeCaches} {s s' t : TreeCaching} {n fuel : Nat}

/-- The calls of the nodes whose results have not been processed: those that the client has sent or
will send, the answers on the wire, the completed ones, and the results on the queue of the background
thread. -/
def pending (s : TreeCaching) : Nat :=
  s.requests.length + s.wire.countP CacheMessage.isReply + s.completions.length +
    s.tasks.countP CacheTask.isResult

/-- How often `INITIALIZED` has been published, whether or not the listeners know already. -/
def initializations (s : TreeCaching) : Nat :=
  s.published.count .initialized + s.tasks.count (.publish .initialized)

/-- The counter returns to zero. -/
def Returns (s s' : TreeCaching) : Prop := s.outstandingOps ≠ 0 ∧ s'.outstandingOps = 0

/-- The client loses its session. -/
def Loses (s s' : TreeCaching) : Prop := s.state ≠ .LOST ∧ s'.state = .LOST

instance (s s' : TreeCaching) : Decidable (Returns s s') := inferInstanceAs (Decidable (_ ∧ _))

instance (s s' : TreeCaching) : Decidable (Loses s s') := inferInstanceAs (Decidable (_ ∧ _))

end TreeCaching

/-- A cache, and whether its counter has returned to zero since the start or the last loss of the
session. -/
structure CountedCache where
  cache : TreeCaching
  returned : Bool

namespace CountedCache

variable (C : TreeCaches)

def post (x : CountedCache) (act : TreeCacheAct) : CountedCache where
  cache := x.cache.post C act
  returned :=
    if act = .start ∨ x.cache.Loses (x.cache.post C act) then false
    else x.returned || decide (x.cache.Returns (x.cache.post C act))

end CountedCache

/-- The runs of a cache, with the history of its counter. -/
def countedCaching (C : TreeCaches) : Machine CountedCache TreeCacheAct where
  init := ⟨.init C, false⟩
  enabled x act := x.cache.enabled C act
  post := CountedCache.post C

instance (C : TreeCaches) (x : CountedCache) (act : TreeCacheAct) :
    Decidable ((countedCaching C).enabled x act) :=
  inferInstanceAs (Decidable (x.cache.enabled C act))

/-- Every run of a cache has its history. -/
theorem countedCaching_reachable {C : TreeCaches} {s : TreeCaching} (hr : (treeCaching C).Reachable s) :
    ∃ returned, (countedCaching C).Reachable ⟨s, returned⟩ := by
  induction hr with
  | init => exact ⟨false, .init⟩
  | step _ hen _ ih =>
    obtain ⟨returned, hr⟩ := ih
    exact ⟨_, hr.step hen trivial⟩

namespace TreeCaching

variable {C : TreeCaches} {s s' t : TreeCaching} {n fuel : Nat}

/-! ## What is counted -/

/-- Calls may have been made, each of which has been counted, and nothing else has happened to the
counter. -/
structure Counts (s s' : TreeCaching) : Prop where
  balance : s'.outstandingOps - s'.pending = s.outstandingOps - s.pending
  le : s.outstandingOps ≤ s'.outstandingOps
  initializations : s'.initializations = s.initializations
  isInitialized : s'.isInitialized = s.isInitialized

theorem Counts.refl (s : TreeCaching) : Counts s s := ⟨rfl, le_rfl, rfl, rfl⟩

theorem Counts.trans (h : Counts s t) (h' : Counts t s') : Counts s s' :=
  ⟨h'.balance.trans h.balance, h.le.trans h'.le, h'.initializations.trans h.initializations,
    h'.isInitialized.trans h.isInitialized⟩

/-- As long as calls are only made, the counter does not return to zero. -/
theorem Counts.exact (h : Counts s t) (hexact : s.outstandingOps = s.pending) :
    t.outstandingOps = t.pending ∧ ¬ Returns s t := by
  have hbalance := h.balance
  have hle := h.le
  refine ⟨by omega, fun hreturns => ?_⟩
  have := hreturns.1
  have := hreturns.2
  omega

theorem counts_inBackground (task : CacheTask) (hresult : task.isResult = false)
    (htask : task ≠ .publish .initialized) : Counts s (s.inBackground task) where
  balance := by simp [inBackground, pending, hresult]
  le := le_rfl
  initializations := by
    have hnone : [task].count (.publish .initialized) = 0 :=
      List.count_eq_zero.mpr fun h => htask (List.mem_singleton.mp h).symm
    simp [inBackground, TreeCaching.initializations, hnone]
  isInitialized := rfl

theorem counts_publishEvent {e : TreeEvent} (he : e ≠ .initialized) : Counts s (s.publishEvent e) := by
  unfold publishEvent
  split
  · exact .refl s
  · exact counts_inBackground _ rfl fun h => he (CacheTask.publish.inj h)

theorem counts_callClient (method : NodeMethod) : Counts s (s.callClient n method) := by
  unfold callClient
  dsimp only
  split
  · exact ⟨by simp [pending]; omega, Int.le_add_one le_rfl, rfl, rfl⟩
  · exact ⟨by simp [pending]; omega, Int.le_add_one le_rfl, rfl, rfl⟩

theorem composes_counts : Composes Counts where
  refl := .refl
  trans := .trans
  setNode _ := ⟨rfl, le_rfl, rfl, rfl⟩
  resetWatchers := ⟨rfl, le_rfl, rfl, rfl⟩
  newChild := ⟨rfl, le_rfl, rfl, rfl⟩
  callClient := counts_callClient
  publishEvent _ := counts_publishEvent

/-! ## Steps -/

/-- The calls are where they were, or one of them is a place further. -/
theorem Counts.of_pending (hpending : t.pending = s.pending) (hinit : t.initializations = s.initializations)
    (hops : t.outstandingOps = s.outstandingOps) (hflag : t.isInitialized = s.isInitialized) :
    Counts s t :=
  ⟨by rw [hpending, hops], hops.ge, hinit, hflag⟩

theorem counts_change (c : TreeChange) : Counts s (s.change c) := by
  obtain ⟨armed, sent, events, hevents, heq⟩ := change_eq s c
  have hnone : events.countP CacheMessage.isReply = 0 := by
    refine List.countP_eq_zero.mpr fun m hm => ?_
    obtain ⟨type, key, stamp, rfl⟩ := hevents m hm
    exact Bool.false_ne_true
  rw [heq]
  exact .of_pending (by simp [pending, hnone]) rfl rfl rfl

theorem counts_answer : Counts s (s.answer C) := by
  unfold answer
  split
  · exact .refl s
  · next hrequests =>
    refine .of_pending ?_ rfl rfl rfl
    simp [pending, hrequests, CacheMessage.isReply]
    omega

theorem counts_read (order : List Nat) : Counts s (s.read C order) := by
  unfold read
  split
  · exact .refl s
  · next hwire =>
    refine .of_pending ?_ rfl rfl rfl
    simp [pending, hwire, List.countP_cons, CacheMessage.isReply]
    omega
  · next hwire =>
    refine .of_pending ?_ rfl rfl rfl
    simp [pending, hwire, CacheMessage.isReply]

theorem counts_notifyPending : Counts s s.notifyPending := by
  refine .of_pending ?_ rfl rfl rfl
  have hsent {f : CacheMessage → Option Nat} (hf : ∀ m, (f m).isSome = m.isReply) :
      (s.wire.filterMap f).length = s.wire.countP CacheMessage.isReply := by
    rw [List.length_filterMap_eq_countP]
    exact List.countP_congr fun m _ => by rw [hf]
  simp only [pending, notifyPending, List.length_append, List.length_map, List.length_nil,
    List.countP_nil]
  rw [hsent fun m => by cases m <;> rfl]
  omega

theorem counts_clientResetWatchers : Counts s s.clientResetWatchers := .of_pending rfl rfl rfl rfl

/-- The cache of a listening cache that sees the session lost is no longer initialized. -/
def heard (s : TreeCaching) (state : KazooState) : TreeCaching :=
  if s.listening ∧ s.state ≠ .LOST ∧ state = .LOST then { s with isInitialized := false } else s

theorem counts_makeStateChange (state : KazooState) : Counts (s.heard state) (s.makeStateChange state) := by
  unfold makeStateChange
  split
  · next heq =>
    rw [heard, if_neg fun h => h.2.1 (heq.trans h.2.2)]
    exact .refl s
  next hne =>
    have hs : Counts s { s with state := state } := .of_pending rfl rfl rfl rfl
    dsimp only
    split
    · next hlistening =>
      cases state with
      | SUSPENDED =>
        rw [heard, if_neg (by simp)]
        exact hs.trans (counts_publishEvent (by simp))
      | CONNECTED =>
        rw [heard, if_neg (by simp)]
        exact hs.trans ((counts_inBackground _ rfl (by simp)).trans (counts_publishEvent (by simp)))
      | LOST =>
        rw [heard, if_pos ⟨hlistening, hne, rfl⟩]
        have hlost : Counts { s with isInitialized := false }
            { s with state := .LOST, isInitialized := false } := .of_pending rfl rfl rfl rfl
        exact hlost.trans (counts_publishEvent (by simp))
    · next hdeaf =>
      rw [heard, if_neg fun h => hdeaf h.1]
      exact hs

theorem counts_sessionCallback (st : KeeperState) :
    Counts (s.heard (s.sessionCallback st).state) (s.sessionCallback st) := by
  have hs (state : KazooState) :
      Counts (s.heard state) (({ s with keeperState := st } : TreeCaching).heard state) := by
    unfold heard
    dsimp only
    split <;> exact .of_pending rfl rfl rfl rfl
  unfold sessionCallback
  dsimp only
  split
  · rw [heard, if_neg fun h => h.2.1 h.2.2]
    exact .of_pending rfl rfl rfl rfl
  · split
    · rw [(sameStates_makeStateChange (s := { s with keeperState := st }) .CONNECTED).state]
      exact (hs _).trans (counts_makeStateChange _)
    · split
      · have hstate : ({ s with keeperState := st }.makeStateChange
            .LOST).notifyPending.clientResetWatchers.state = .LOST :=
          (sameStates_makeStateChange (s := { s with keeperState := st }) .LOST).state
        rw [hstate]
        exact (hs _).trans ((counts_makeStateChange _).trans
          (counts_notifyPending.trans counts_clientResetWatchers))
      · have hstate : (({ s with keeperState := st } : TreeCaching).notifyPending.makeStateChange
            .SUSPENDED).clientResetWatchers.state = .SUSPENDED :=
          (sameStates_makeStateChange (s := ({ s with keeperState := st } : TreeCaching).notifyPending)
            .SUSPENDED).state
        have hheard (t : TreeCaching) : t.heard .SUSPENDED = t := if_neg (by simp)
        have hchange := counts_makeStateChange
          (s := ({ s with keeperState := st } : TreeCaching).notifyPending) .SUSPENDED
        have hks : Counts s { s with keeperState := st } := .of_pending rfl rfl rfl rfl
        rw [hheard] at hchange
        rw [hstate, hheard]
        exact hks.trans (counts_notifyPending.trans (hchange.trans counts_clientResetWatchers))

theorem counts_close : Counts s s.close := by
  have hs : Counts s { s.inBackground .stop with cacheState := .closed, listening := false } :=
    (counts_inBackground .stop rfl (by simp)).trans (.of_pending rfl rfl rfl rfl)
  exact hs.trans composes_counts.onDeleted

/-- A task other than a result. -/
theorem counts_doTask {task : CacheTask} {tasks : List CacheTask} (htasks : s.tasks = task :: tasks)
    (hresult : task.isResult = false) : Counts s ({ s with tasks := tasks }.doTask task) := by
  have hpending : ({ s with tasks := tasks } : TreeCaching).pending = s.pending := by
    simp [pending, htasks, hresult]
  have hs (h : task ≠ .publish .initialized) : Counts s { s with tasks := tasks } := by
    refine .of_pending hpending ?_ rfl rfl
    simp [initializations, htasks, h]
  cases task with
  | created => exact (hs (by simp)).trans composes_counts.refresh
  | reconnected => exact (hs (by simp)).trans composes_counts.onReconnected
  | result r => cases hresult
  | publish e =>
    refine .of_pending hpending ?_ rfl rfl
    by_cases he : e = .initialized
    · simp [doTask, initializations, htasks, he]
      omega
    · simp [doTask, initializations, htasks, he]
  | stop => exact (hs (by simp)).trans (.of_pending rfl rfl rfl rfl)

/-- Only a result that is processed lowers the counter, or may publish that the cache is initialized. -/
theorem counts_post {act : TreeCacheAct} (hsession : ∀ st, act ≠ .session st)
    (hresult : act = .background → ∀ r tasks, s.tasks ≠ .result r :: tasks) :
    Counts s (s.post C act) := by
  cases act with
  | change c => exact counts_change c
  | answer => exact counts_answer
  | read order => exact counts_read order
  | complete =>
    unfold post
    dsimp only
    split
    · exact .refl s
    · next hcompletions =>
      refine .of_pending ?_ ?_ rfl rfl
      · simp [pending, inBackground, hcompletions, CacheTask.isResult]
        omega
      · simp [initializations, inBackground]
  | callback =>
    unfold post
    dsimp only
    split
    · exact .refl s
    next call callbacks _ =>
      have hs : Counts s { s with callbacks := callbacks } := .of_pending rfl rfl rfl rfl
      exact hs.trans (composes_counts.processWatch _)
  | background =>
    unfold post
    dsimp only
    split
    · exact .refl s
    next task tasks htasks =>
      refine counts_doTask htasks ?_
      cases task with
      | result r => exact absurd htasks (hresult rfl r tasks)
      | created => rfl
      | reconnected => rfl
      | publish e => rfl
      | stop => rfl
  | session st => exact absurd rfl (hsession st)
  | start => exact .of_pending rfl rfl rfl rfl
  | startReturns =>
    have hs : Counts s { s with start := .returned } := .of_pending rfl rfl rfl rfl
    unfold post
    dsimp only
    split
    · exact hs.trans (counts_inBackground _ rfl (by simp))
    · exact hs
  | close => exact counts_close

/-- A result lowers the counter by one when it has been processed, and the first time that there is
nothing left it makes the cache initialized. -/
theorem background_result {r : NodeReply} {tasks : List CacheTask} (htasks : s.tasks = .result r :: tasks)
    (hexact : s.outstandingOps = s.pending) :
    let t := s.post C .background
    t.outstandingOps = t.pending ∧ t.isInitialized = (s.isInitialized || decide (Returns s t)) ∧
      t.initializations = s.initializations +
        if s.cacheState ≠ .closed ∧ Returns s t ∧ s.isInitialized = false then 1 else 0 := by
  have hpost : s.post C .background = { s with tasks := tasks }.processResult r := by
    unfold post
    dsimp only
    rw [htasks]
    rfl
  have hpending : s.pending = ({ s with tasks := tasks } : TreeCaching).pending + 1 := by
    simp [pending, htasks, List.countP_cons, CacheTask.isResult]
    omega
  have hcount : s.initializations = ({ s with tasks := tasks } : TreeCaching).initializations := by
    simp [initializations, htasks]
  have hcounts : Counts { s with tasks := tasks }
      ({ s with tasks := tasks }.processReply r.node r.result) := composes_counts.processReply _
  have hcache := (composes_within.processReply (s := { s with tasks := tasks }) (n := r.node)
    r.result).sameStates.cacheState
  rw [hpost]
  unfold processResult
  generalize ({ s with tasks := tasks } : TreeCaching).processReply r.node r.result = t at hcounts hcache
  obtain ⟨hbalance, -, hinit, hflag⟩ := hcounts
  have hsame : ({ s with tasks := tasks } : TreeCaching).outstandingOps = s.outstandingOps := rfl
  have hne : s.outstandingOps ≠ 0 := by omega
  have hops : t.outstandingOps - 1 = t.pending := by omega
  replace hflag : t.isInitialized = s.isInitialized := hflag
  replace hcache : t.cacheState = s.cacheState := hcache
  rw [← hcount] at hinit
  dsimp only
  split
  · next hreturn =>
    obtain ⟨hzero, hfirst⟩ := hreturn
    have hreturns (u : TreeCaching) (hu : u.outstandingOps = t.outstandingOps - 1) : Returns s u :=
      ⟨hne, hu.trans hzero⟩
    unfold publishEvent
    split
    · next hclosed =>
      refine ⟨hops, ?_, ?_⟩
      · rw [decide_eq_true (hreturns _ rfl), Bool.or_true]
      · rw [if_neg fun h => h.1 (hcache.symm.trans hclosed)]
        exact hinit
    · next hopen =>
      refine ⟨?_, ?_, ?_⟩
      · simpa [inBackground, pending, CacheTask.isResult] using hops
      · rw [decide_eq_true (hreturns _ rfl), Bool.or_true]
        rfl
      · rw [if_pos ⟨fun h => hopen (hcache.trans h), hreturns _ rfl, hflag.symm.trans hfirst⟩, ← hinit]
        simp [inBackground, initializations]
        omega
  · next hstays =>
    refine ⟨hops, ?_, ?_⟩
    · cases hinitialized : s.isInitialized with
      | true => exact hflag.trans hinitialized
      | false =>
        rw [Bool.false_or, decide_eq_false fun h => hstays ⟨h.2, hflag.trans hinitialized⟩]
        exact hflag.trans hinitialized
    · rw [if_neg fun h => hstays ⟨h.2.1.2, hflag.trans h.2.2⟩]
      exact hinit

/-! ## Runs -/

/-- Before the cache is started, there is only the server and the session. -/
def Dormant (C : TreeCaches) (s : TreeCaching) : Prop :=
  ∃ tree zxid keeperState state, s = { TreeCaching.init C with tree, zxid, keeperState, state }

theorem Dormant.post (h : s.Dormant C) {act : TreeCacheAct} (hen : s.enabled C act) (hstart : act ≠ .start) :
    (s.post C act).Dormant C := by
  obtain ⟨tree, zxid, keeperState, state, rfl⟩ := h
  cases act with
  | change c => cases c <;> exact ⟨_, _, _, _, rfl⟩
  | answer => exact absurd rfl hen.2
  | read order => exact absurd rfl hen.2.1
  | complete => exact absurd rfl hen
  | callback => exact absurd rfl hen
  | background => exact absurd rfl hen.1
  | session st =>
    show (TreeCaching.sessionCallback _ st).Dormant C
    have hunheard (t : TreeCaching) (ht : t.listening = false) (state : KazooState) :=
      makeStateChange_unheard ht state
    unfold sessionCallback
    dsimp only
    split
    · exact ⟨_, _, _, _, rfl⟩
    · split
      · rw [hunheard]
        · exact ⟨_, _, _, _, rfl⟩
        · rfl
      · split
        · rw [hunheard]
          · exact ⟨_, _, _, _, rfl⟩
          · rfl
        · rw [hunheard]
          · exact ⟨_, _, _, _, rfl⟩
          · rfl
  | start => exact absurd rfl hstart
  | startReturns => cases hen
  | close => cases hen

end TreeCaching

namespace CountedCache

variable {C : TreeCaches} {x : CountedCache}

/-- The counter is the number of the calls that are pending, and a started cache is initialized as soon
as it has returned to zero. -/
structure Exact (C : TreeCaches) (x : CountedCache) : Prop where
  ops : x.cache.outstandingOps = x.cache.pending
  dormant : x.cache.cacheState = .latent → x.cache.Dormant C
  listening : x.cache.cacheState = .started → x.cache.listening = true
  isInitialized : x.cache.cacheState = .started → x.cache.isInitialized = x.returned

theorem exact_init : Exact C (countedCaching C).init where
  ops := rfl
  dormant _ := ⟨_, _, _, _, rfl⟩
  listening h := nomatch h
  isInitialized h := nomatch h

theorem returned_post {act : TreeCacheAct} (hstart : act ≠ .start) : (x.post C act).returned =
    if x.cache.Loses (x.cache.post C act) then false
    else x.returned || decide (x.cache.Returns (x.cache.post C act)) := by
  simp [CountedCache.post, hstart]

/-- A step that processes a result. -/
theorem Exact.result (h : Exact C x) {r : NodeReply} {tasks : List CacheTask}
    (htasks : x.cache.tasks = .result r :: tasks) (hopen : x.cache.cacheState ≠ .latent) :
    Exact C (x.post C .background) ∧ (x.cache.post C .background).initializations =
      x.cache.initializations + if x.cache.cacheState = .started ∧
        x.cache.Returns (x.cache.post C .background) ∧ x.returned = false then 1 else 0 := by
  obtain ⟨hops, hflag, hinit⟩ := TreeCaching.background_result (C := C) htasks h.ops
  obtain ⟨hcache, hlistening, hstate⟩ :=
    TreeCaching.sameStates_post (C := C) (s := x.cache) .background (by simp) (by simp) (by simp)
  have hkept : ¬ x.cache.Loses (x.cache.post C .background) := fun hloses =>
    hloses.1 (hstate.symm.trans hloses.2)
  refine ⟨⟨hops, fun hlatent => ?_, fun hstarted => ?_, fun hstarted => ?_⟩, ?_⟩
  · exact absurd (hcache.symm.trans hlatent) hopen
  · exact hlistening.trans (h.listening (hcache.symm.trans hstarted))
  · rw [returned_post (by simp), if_neg hkept, ← h.isInitialized (hcache.symm.trans hstarted)]
    exact hflag
  · rw [hinit]
    by_cases hstarted : x.cache.cacheState = .started
    · simp only [hstarted, ← h.isInitialized hstarted]
      simp
    · have hclosed : x.cache.cacheState = .closed := by
        cases hcase : x.cache.cacheState with
        | latent => exact absurd hcase hopen
        | started => exact absurd hcase hstarted
        | closed => rfl
      simp [hclosed]

/-- A change of the session: when it is lost, a started cache is no longer initialized. -/
theorem Exact.session (h : Exact C x) (hopen : x.cache.cacheState ≠ .latent) (st : KeeperState) :
    Exact C (x.post C (.session st)) ∧
      (x.cache.post C (.session st)).initializations = x.cache.initializations ∧
        ¬ x.cache.Returns (x.cache.post C (.session st)) := by
  have hcounts : TreeCaching.Counts (x.cache.heard (x.cache.post C (.session st)).state)
      (x.cache.post C (.session st)) := TreeCaching.counts_sessionCallback st
  obtain ⟨state, hcache, hlistening, -⟩ := TreeCaching.sameStates_sessionCallback (s := x.cache) st
  have hheard (state : KazooState) : (x.cache.heard state).outstandingOps = x.cache.outstandingOps ∧
      (x.cache.heard state).pending = x.cache.pending ∧
        (x.cache.heard state).initializations = x.cache.initializations := by
    unfold TreeCaching.heard
    split <;> exact ⟨rfl, rfl, rfl⟩
  obtain ⟨hsame, hpending, hinit⟩ := hheard (x.cache.post C (.session st)).state
  obtain ⟨hops, hstays⟩ := hcounts.exact (hsame.trans (h.ops.trans (congrArg Nat.cast hpending.symm)))
  have hreturns : ¬ x.cache.Returns (x.cache.post C (.session st)) := fun hreturns =>
    hstays ⟨fun hzero => hreturns.1 (hsame.symm.trans hzero), hreturns.2⟩
  refine ⟨⟨hops, fun h' => absurd (hcache.symm.trans h') hopen, fun h' => ?_, fun h' => ?_⟩,
    hcounts.initializations.trans hinit, hreturns⟩
  · exact hlistening.trans (h.listening (hcache.symm.trans h'))
  · have hstarted : x.cache.cacheState = .started := hcache.symm.trans h'
    refine hcounts.isInitialized.trans ?_
    rw [returned_post (by simp), decide_eq_false hreturns, Bool.or_false, TreeCaching.heard]
    have hlost : (x.cache.listening ∧ x.cache.state ≠ .LOST ∧ (x.cache.post C (.session st)).state = .LOST) ↔
        x.cache.Loses (x.cache.post C (.session st)) := and_iff_right (h.listening hstarted)
    by_cases hloses : x.cache.Loses (x.cache.post C (.session st))
    · rw [if_pos (hlost.mpr hloses), if_pos hloses]
    · rw [if_neg (mt hlost.mp hloses), if_neg hloses]
      exact h.isInitialized hstarted

/-- Another step does nothing to the number of publications, and the counter does not return. -/
theorem Exact.other (h : Exact C x) {act : TreeCacheAct} (hen : x.cache.enabled C act)
    (hopen : x.cache.cacheState ≠ .latent)
    (hresult : act = .background → ∀ r tasks, x.cache.tasks ≠ .result r :: tasks) :
    Exact C (x.post C act) ∧
      (x.cache.post C act).initializations = x.cache.initializations ∧
        ¬ x.cache.Returns (x.cache.post C act) := by
  have hstart : act ≠ .start := fun heq => hopen (by rw [heq] at hen; exact hen)
  by_cases hsession : ∃ st, act = .session st
  · obtain ⟨st, rfl⟩ := hsession
    exact h.session hopen st
  replace hsession : ∀ st, act ≠ .session st := not_exists.mp hsession
  have hcounts : TreeCaching.Counts x.cache (x.cache.post C act) := TreeCaching.counts_post hsession hresult
  obtain ⟨hops, hreturns⟩ := hcounts.exact h.ops
  refine ⟨?_, hcounts.initializations, hreturns⟩
  by_cases hclose : act = .close
  · have hclosed : (x.cache.post C act).cacheState = .closed := by
      rw [hclose]
      exact TreeCaching.composes_within.onDeleted.sameStates.cacheState
    exact ⟨hops, fun h' => (by cases hclosed.symm.trans h'), fun h' => (by cases hclosed.symm.trans h'),
      fun h' => (by cases hclosed.symm.trans h')⟩
  obtain ⟨hcache, hlistening, hstate⟩ :=
    TreeCaching.sameStates_post (C := C) (s := x.cache) act hsession hstart hclose
  have hkept : ¬ x.cache.Loses (x.cache.post C act) := fun hloses =>
    hloses.1 (hstate.symm.trans hloses.2)
  refine ⟨hops, fun h' => absurd (hcache.symm.trans h') hopen, fun h' => ?_, fun h' => ?_⟩
  · exact hlistening.trans (h.listening (hcache.symm.trans h'))
  · refine (hcounts.isInitialized.trans (h.isInitialized (hcache.symm.trans h'))).trans ?_
    rw [returned_post hstart, if_neg hkept, decide_eq_false hreturns, Bool.or_false]

/-- A step does to the number of publications what the history says. -/
theorem Exact.post (h : Exact C x) {act : TreeCacheAct} (hen : x.cache.enabled C act) :
    Exact C (x.post C act) ∧ (x.cache.post C act).initializations = x.cache.initializations +
      if x.cache.cacheState = .started ∧ x.cache.Returns (x.cache.post C act) ∧ x.returned = false then 1
      else 0 := by
  by_cases hlatent : x.cache.cacheState = .latent
  · have hdormant := h.dormant hlatent
    rw [if_neg fun hstarted => by cases hlatent.symm.trans hstarted.1]
    by_cases hstart : act = .start
    · subst hstart
      obtain ⟨tree, zxid, keeperState, state, heq⟩ := hdormant
      refine ⟨⟨h.ops, fun h' => (by cases h'), fun _ => rfl, fun _ => ?_⟩, rfl⟩
      show x.cache.isInitialized = _
      rw [heq]
      rfl
    · obtain ⟨tree, zxid, keeperState, state, heq⟩ := hdormant.post hen hstart
      obtain ⟨tree', zxid', keeperState', state', heq'⟩ := hdormant
      refine ⟨⟨?_, fun _ => ⟨_, _, _, _, heq⟩, fun h' => ?_, fun h' => ?_⟩, ?_⟩
      · show (x.cache.post C act).outstandingOps = (x.cache.post C act).pending
        rw [heq]
        rfl
      · cases (congrArg TreeCaching.cacheState heq).symm.trans h'
      · cases (congrArg TreeCaching.cacheState heq).symm.trans h'
      · rw [heq, heq']
        rfl
  · by_cases hresult : act = .background → ∀ r tasks, x.cache.tasks ≠ .result r :: tasks
    · obtain ⟨hexact, hinit, hreturns⟩ := h.other hen hlatent hresult
      rw [if_neg fun h' => hreturns h'.2.1]
      exact ⟨hexact, hinit⟩
    · push Not at hresult
      obtain ⟨rfl, r, tasks, htasks⟩ := hresult
      exact h.result htasks hlatent

theorem exact_of_reachable (hr : (countedCaching C).Reachable x) : Exact C x :=
  hr.invariant exact_init fun _ _ _ h hen _ => (h.post hen).1

/-- The counter is the number of the calls whose results have not been processed, and `INITIALIZED` is
published in the steps in which it returns to zero for the first time. -/
theorem outstanding_exact (hr : (countedCaching C).Reachable x) :
    x.cache.outstandingOps = x.cache.pending ∧ 0 ≤ x.cache.outstandingOps ∧
      ∀ act, x.cache.enabled C act →
        (x.cache.post C act).initializations = x.cache.initializations +
          if x.cache.cacheState = .started ∧ x.cache.Returns (x.cache.post C act) ∧ x.returned = false
          then 1 else 0 := by
  have h := exact_of_reachable hr
  refine ⟨h.ops, ?_, fun act hen => (h.post hen).2⟩
  rw [h.ops]
  exact Int.natCast_nonneg _

/-- The result of the second call of a cache without children is all that is left to do. -/
def almostInitialized : CountedCache :=
  (countedCaching TreeCaching.nodeCache).exec ⟨.init TreeCaching.nodeCache, false⟩
    (TreeCaching.growing [[str "a"]]).dropLast

theorem outstanding_exact_nodeCache : almostInitialized.cache.outstandingOps = 1 ∧
    (almostInitialized.cache.post TreeCaching.nodeCache .background).initializations = 1 := by
  have hr : (countedCaching TreeCaching.nodeCache).Reachable almostInitialized :=
    .of_legal (by decide +kernel)
  obtain ⟨hops, -, hinit⟩ := outstanding_exact hr
  refine ⟨hops.trans (by decide +kernel), ?_⟩
  exact (hinit .background (by decide +kernel)).trans (by decide +kernel)

end CountedCache

end Kazoo
