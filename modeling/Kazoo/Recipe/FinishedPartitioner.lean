import Kazoo.Recipe.PartitionStates
import Kazoo.Recipe.StoredLocks

/-!
# Finished partitioners

What `finish` leaves of the locks of a partitioner, when nothing of the partitioner runs any more.
-/

namespace Kazoo

/-! ## Runs with their history -/

structure Finishing {π θ κ ι : Type} (P : Partitioners π θ κ ι) where
  state : Partitions P
  -- history: a `finish` has made its copy of `_locks` of the partitioner
  copied : π → Bool
  -- history: the thread has been through the copy, in `finish`
  past : θ → Bool

namespace Finishing

variable {π θ κ ι : Type} {P : Partitioners π θ κ ι}

def new : Finishing P := ⟨.new, fun _ => false, fun _ => false⟩

variable [DecidableEq π] [DecidableEq θ]

/-- The history after a step. -/
def copiedAfter (s : Finishing P) : PartitionAct P → π → Bool
  | .go i =>
    if (s.state.threads i).stage = .releasing .finish then Function.update s.copied (P.owner i) true
    else s.copied
  | _ => s.copied

def pastAfter (s : Finishing P) : PartitionAct P → θ → Bool
  | .go i =>
    if (s.state.threads i).stage = .released .finish then Function.update s.past i true else s.past
  | _ => s.past

/-- Once `finish` has returned in a partitioner in FAILURE of which no thread is on its way, it holds no
lock, and no lock object that it has made has a node. -/
def NothingLeft (s : Finishing P) : Prop :=
  ∀ i, s.past i = true → (s.state.threads i).stage = .done → (s.state.object i).state = .failure →
    (∀ j, P.owner j = P.owner i →
      (s.state.threads j).stage = .absent ∨ (s.state.threads j).stage = .done) →
    (s.state.object i).locks = [] ∧ ∀ name l, P.maker name l = P.owner i →
      ((s.state.worlds name).locks l).isAcquired = false ∧ (s.state.worlds name).NoChild l

/-- No lock goes into `_locks` behind the copy that `finish` has made, no `release` of `finish` raises,
and each `acquire` that fails cleans up. -/
def Tidy (s : Finishing P) (a : PartitionAct P) : Prop :=
  s.state.Clean a ∧
    match a with
    | .go i =>
      match (s.state.threads i).stage with
      | .appending => s.copied (P.owner i) = false
      | .freed .finish => (s.state.threads i).thrown = none
      | _ => True
    | _ => True

instance (s : Finishing P) (a : PartitionAct P) : Decidable (s.Tidy a) := by
  induction a using PartitionAct.casesOn
  case go i =>
    dsimp only [Tidy]
    generalize (s.state.threads i).stage = stage
    cases stage
    case freed caller => cases caller <;> (dsimp only; infer_instance)
    all_goals (dsimp only; infer_instance)
  all_goals (dsimp only [Tidy]; infer_instance)

end Finishing

/-- All interleavings, with their history. -/
def finishing {π θ κ ι : Type} [DecidableEq π] [DecidableEq θ] [DecidableEq ι] [LinearOrder κ]
    (P : Partitioners π θ κ ι) : Machine (Finishing P) (PartitionAct P) where
  init := .new
  enabled := fun s a => (s.state.step a).isSome
  post := fun s a =>
    match s.state.step a with
    | some state => ⟨state, s.copiedAfter a, s.pastAfter a⟩
    | none => s

instance {π θ κ ι : Type} [DecidableEq π] [DecidableEq θ] [DecidableEq ι] [LinearOrder κ]
    (P : Partitioners π θ κ ι) (s : Finishing P) (a : PartitionAct P) :
    Decidable ((finishing P).enabled s a) :=
  inferInstanceAs (Decidable ((s.state.step a).isSome = true))

namespace PartitionStage

/-- In the loop of `_release_locks`, called by `finish`. -/
def Finishes : PartitionStage → Prop
  | .iterating .finish | .freeing .finish | .freed .finish => True
  | _ => False

/-- In the loop, or behind it. -/
def Ends : PartitionStage → Prop
  | .released .finish => True
  | stage => stage.Finishes

theorem Finishes.ends {stage : PartitionStage} (h : stage.Finishes) : stage.Ends := by
  cases stage <;> first | exact h.elim | exact h

end PartitionStage

namespace Partitions

variable {π θ κ ι : Type} [DecidableEq π] [DecidableEq θ] [DecidableEq ι]
  {P : Partitioners π θ κ ι} {s s' r : Partitions P} {a : PartitionAct P} {i j : θ} {p : π}

/-! ## What a step does to `_locks` -/

/-- Only `self._locks.append(lock)` puts a lock there. -/
def Appends (s : Partitions P) (p : π) (a : PartitionAct P) : Prop :=
  ∃ i, a = .go i ∧ P.owner i = p ∧ (s.threads i).stage = .appending

omit [DecidableEq θ] [DecidableEq ι] in
theorem locks_subset {q : π} {o : PartitionerObject κ ι} (h : o.locks ⊆ (s.objects q).locks) (p : π) :
    ((s.setObject q o).objects p).locks ⊆ (s.objects p).locks := by
  by_cases hp : p = q
  · subst hp
    rw [setObject_objects_self]
    exact h
  · rw [setObject_objects_of_ne hp]
    exact List.Subset.refl _

omit [DecidableEq θ] [DecidableEq ι] in
theorem locks_kept {q : π} {o : PartitionerObject κ ι} (h : o.locks = (s.objects q).locks) (p : π) :
    ((s.setObject q o).objects p).locks ⊆ (s.objects p).locks := by
  rw [locks_setObject h]
  exact List.Subset.refl _

omit [DecidableEq π] [DecidableEq θ] [DecidableEq ι] in
theorem locks_of_eq (h : s'.objects = s.objects) : (s'.objects p).locks ⊆ (s.objects p).locks := by
  rw [h]
  exact List.Subset.refl _

theorem locks_of_go (hstep : s.go i = some s') (hnot : ¬ s.Appends p (.go i)) :
    (s'.objects p).locks ⊆ (s.objects p).locks := by
  cases goes_of_go hstep with
  | allocates | settled | taken | retakes | tested | doubts | aborts | doubted | suspects | suspected
  | trusts | reconsiders | copies | iterated | iterates | missing | skips | throws | fails =>
    exact List.Subset.refl _
  | acquired => exact locks_of_eq (acquired_objects s i _ _)
  | resumes => exact locks_of_eq (resumed_objects s i _)
  | released => exact locks_of_eq (releaseOver_objects s i _)
  | relapses | concludes | reallocates | watches | failsOut =>
    refine locks_kept ?_ p
    rfl
  | removes => exact locks_subset List.erase_subset p
  | appends hstage =>
    by_cases hp : P.owner i = p
    · exact absurd ⟨i, rfl, hp, hstage⟩ hnot
    · show ((s.setObject (P.owner i) _).objects p).locks ⊆ _
      rw [setObject_objects_of_ne (Ne.symm hp)]
      exact List.Subset.refl _

variable [LinearOrder κ]

theorem locks_of_step (hstep : s.step a = some s') (hnot : ¬ s.Appends p a) :
    (s'.objects p).locks ⊆ (s.objects p).locks := by
  cases steps_of_step hstep with
  | join | change | updateAcquired | settle =>
    refine locks_kept ?_ p
    rfl
  | changeLate | lose | update | split | splitRaised | splitFail | take | lock | free | call | regroup
  | server => exact List.Subset.refl _
  | go => exact locks_of_go hstep hnot
  | @leave i carriedOut => cases carriedOut <;> (refine locks_kept ?_ p; rfl)

/-! ## What a step does to a thread inside `finish` -/

/-- Thread `j` is not at the steps of `finish` that count, or it goes through them in their order. -/
inductive Stepped (s : Partitions P) (a : PartitionAct P) (s' : Partitions P) (j : θ) : Prop
  | still : (s'.threads j).stage = (s.threads j).stage →
      (s'.threads j).remaining = (s.threads j).remaining → Stepped s a s' j
  | aside : ¬ (s'.threads j).stage.Ends → Stepped s a s' j
  -- `self._locks[:]`
  | copies : a = .go j → (s.threads j).stage = .releasing .finish → s'.objects = s.objects →
      (s'.threads j).remaining = (s.object j).locks → (s'.threads j).stage.Finishes → Stepped s a s' j
  -- `release` of the first lock of what is left
  | frees : (s.threads j).stage.Finishes → (s'.threads j).stage.Finishes →
      (s'.threads j).remaining = (s.threads j).remaining → Stepped s a s' j
  -- `self._locks.remove(lock)`
  | removes (lock : PyStr × ι) : (s.threads j).stage.Finishes → (s'.threads j).stage.Finishes →
      (s.threads j).remaining = lock :: (s'.threads j).remaining →
      (s'.object j).locks = (s.object j).locks.erase lock → Stepped s a s' j
  -- `except KazooException`
  | skips : a = .go j → (s.threads j).stage = .freed .finish → (s.threads j).thrown ≠ none →
      Stepped s a s' j
  | ends : (s.threads j).stage.Finishes → (s'.threads j).stage = .released .finish →
      (s.threads j).remaining = [] → s'.objects = s.objects → Stepped s a s' j

omit [LinearOrder κ] [DecidableEq π] in
/-- Only the thread `i` goes on. -/
theorem stepped_setThread {t : PartitionThread κ ι} (hi : Stepped s a (r.setThread i t) i) (j : θ)
    (hthreads : r.threads = s.threads := by rfl) : Stepped s a (r.setThread i t) j := by
  by_cases hj : j = i
  · exact hj ▸ hi
  · have heq : (r.setThread i t).threads j = s.threads j := by
      rw [setThread_threads_of_ne hj, hthreads]
    exact .still (by rw [heq]) (by rw [heq])

omit [LinearOrder κ] [DecidableEq π] in
theorem stepped_aside {t : PartitionThread κ ι} (hnot : ¬ t.stage.Ends) (j : θ)
    (hthreads : r.threads = s.threads := by rfl) : Stepped s a (r.setThread i t) j := by
  refine stepped_setThread (.aside ?_) j hthreads
  rw [setThread_threads_self]
  exact hnot

omit [LinearOrder κ] [DecidableEq π] in
theorem stepped_setStage {stage : PartitionStage} (hnot : ¬ stage.Ends) (j : θ)
    (hthreads : r.threads = s.threads := by rfl) : Stepped s a (r.setStage i stage) j :=
  stepped_aside hnot j hthreads

omit [LinearOrder κ] in
theorem stepped_go (hstep : s.go i = some s') (j : θ) : Stepped s (.go i) s' j := by
  cases goes_of_go hstep with
  | allocates | settled | taken | retakes | appends | tested | doubts | aborts | doubted | suspects
  | suspected | trusts | relapses | concludes | reconsiders | missing | throws | fails | reallocates
  | watches => exact stepped_aside id j
  | acquired =>
    unfold Partitions.acquired
    repeat' split
    all_goals exact stepped_setStage id j
  | @resumes site => cases site <;> exact stepped_setStage id j
  | failsOut => split <;> exact stepped_setStage id j
  | @released caller =>
    cases caller with
    | finish => exact stepped_setStage id j
    | releaseSet | abort =>
      refine stepped_setStage ?_ j
      split <;> exact id
  -- inside `_release_locks`
  | @copies caller hstage =>
    cases caller with
    | finish =>
      refine stepped_setThread (.copies rfl hstage rfl ?_ ?_) j
      · rw [setThread_threads_self]
      · rw [setThread_threads_self]
        trivial
    | releaseSet | abort => exact stepped_aside id j
  | @iterated caller hstage hremaining =>
    cases caller with
    | finish =>
      refine stepped_setThread (.ends (hstage ▸ trivial) ?_ hremaining rfl) j
      rw [setThread_threads_self]
    | releaseSet | abort => exact stepped_setStage id j
  | @iterates caller _ _ _ _ hstage =>
    cases caller with
    | finish =>
      refine stepped_setThread (.frees (hstage ▸ trivial) ?_ ?_) j
      · rw [setThread_threads_self]
        trivial
      · rw [setThread_threads_self]
    | releaseSet | abort => exact stepped_aside id j
  | @removes caller lock _ hstage hremaining =>
    cases caller with
    | finish =>
      refine stepped_setThread (.removes lock (hstage ▸ trivial) ?_ ?_ ?_) j
      · rw [setThread_threads_self]
        trivial
      · rw [setThread_threads_self]
        exact hremaining
      · exact congrArg PartitionerObject.locks (setObject_objects_self s _ _)
    | releaseSet | abort => exact stepped_aside id j
  | @skips caller _ rest e hstage _ hthrown =>
    cases caller with
    | finish =>
      by_cases hj : j = i
      · exact .skips (hj ▸ rfl) (hj ▸ hstage) (by rw [hj, hthrown]; exact Option.some_ne_none e)
      · have heq := setThread_threads_of_ne hj s
          { s.threads i with stage := .iterating .finish, remaining := rest }
        exact .still (congrArg _ heq) (congrArg _ heq)
    | releaseSet | abort => exact stepped_aside id j

theorem stepped_step (hstep : s.step a = some s') (j : θ) : Stepped s a s' j := by
  cases steps_of_step hstep with
  | join | changeLate | change | regroup | server => exact .still rfl rfl
  | updateAcquired | update | lock =>
    refine stepped_setThread (.still ?_ ?_) j <;> rw [setThread_threads_self]
  | @settle i failed => cases failed <;> exact stepped_setStage id j
  | lose | split | splitRaised | splitFail | take | call => exact stepped_aside id j
  | @free i name act caller l rest w hstage =>
    cases caller with
    | finish =>
      refine stepped_setThread (.frees (hstage ▸ trivial) ?_ ?_) j
      · rw [setThread_threads_self]
        dsimp only
        split <;> trivial
      · rw [setThread_threads_self]
    | releaseSet | abort =>
      refine stepped_aside ?_ j
      dsimp only
      split <;> exact id
  | go => exact stepped_go hstep j
  | @leave i carriedOut => cases carriedOut <;> exact stepped_setStage id j

end Partitions

/-! ## What `finish` has done -/

namespace Finishing

variable {π θ κ ι : Type} [DecidableEq π] [DecidableEq θ] [DecidableEq ι] [LinearOrder κ]
  {P : Partitioners π θ κ ι} {s : Finishing P} {state : Partitions P} {a : PartitionAct P}

/-- What `finish` has not gone through yet is in its copy. -/
structure Inv (s : Finishing P) : Prop where
  accounted : s.state.Accounted
  finishes : ∀ i, (s.state.threads i).stage.Finishes → s.copied (P.owner i) = true ∧
    (s.state.object i).locks ⊆ (s.state.threads i).remaining
  past : ∀ i, (s.state.threads i).stage = .released .finish ∨ s.past i = true →
    s.copied (P.owner i) = true ∧ (s.state.object i).locks = []

omit [LinearOrder κ] [DecidableEq π] [DecidableEq θ] [DecidableEq ι] in
theorem inv_new : (new : Finishing P).Inv where
  accounted := Partitions.accounted_new
  finishes := fun _ h => h.elim
  past := fun _ h => by rcases h with h | h <;> cases h

omit [LinearOrder κ] [DecidableEq θ] [DecidableEq ι] in
theorem copiedAfter_of_copied {p : π} (h : s.copied p = true) : s.copiedAfter a p = true := by
  cases a <;> try exact h
  unfold copiedAfter
  dsimp only
  split
  · rw [Function.update_apply]
    split
    · rfl
    · exact h
  · exact h

omit [LinearOrder κ] [DecidableEq π] [DecidableEq ι] in
theorem past_of_pastAfter {i : θ} (h : s.pastAfter a i = true) :
    s.past i = true ∨ (s.state.threads i).stage = .released .finish := by
  cases a <;> try exact .inl h
  next k =>
    unfold pastAfter at h
    dsimp only at h
    split at h
    · next hstage =>
      rw [Function.update_apply] at h
      split at h
      · next hi => exact .inr (hi ▸ hstage)
      · exact .inl h
    · exact .inl h

/-- Behind the copy `_locks` only gets shorter. -/
theorem locks_subset_of_copied (htidy : s.Tidy a) (hstep : s.state.step a = some state) {p : π}
    (hcopied : s.copied p = true) : (state.objects p).locks ⊆ (s.state.objects p).locks := by
  refine Partitions.locks_of_step hstep ?_
  rintro ⟨i, rfl, rfl, hstage⟩
  have hnot := htidy.2
  simp only [hstage] at hnot
  exact Bool.false_ne_true (hnot.symm.trans hcopied)

theorem Inv.step (h : s.Inv) (htidy : s.Tidy a) (hstep : s.state.step a = some state) :
    Inv ⟨state, s.copiedAfter a, s.pastAfter a⟩ := by
  have hfewer : ∀ i, s.copied (P.owner i) = true → (state.object i).locks ⊆ (s.state.object i).locks :=
    fun i hcopied => locks_subset_of_copied htidy hstep hcopied
  have hpast : ∀ i, s.copied (P.owner i) = true ∧ (s.state.object i).locks = [] →
      s.copiedAfter a (P.owner i) = true ∧ (state.object i).locks = [] := fun i ⟨hcopied, hnone⟩ =>
    ⟨copiedAfter_of_copied hcopied, List.subset_nil.mp (hnone ▸ hfewer i hcopied)⟩
  refine ⟨h.accounted.step htidy.1 hstep, fun i hstage => ?_, fun i hreleased => ?_⟩
  · change (state.threads i).stage.Finishes at hstage
    cases Partitions.stepped_step hstep i with
    | still hsame hremaining =>
      obtain ⟨hcopied, hsubset⟩ := h.finishes i (hsame ▸ hstage)
      refine ⟨copiedAfter_of_copied hcopied, ?_⟩
      show (state.object i).locks ⊆ (state.threads i).remaining
      rw [hremaining]
      exact List.Subset.trans (hfewer i hcopied) hsubset
    | aside hnot => exact absurd hstage.ends hnot
    | copies hact hreleasing hobjects hremaining =>
      subst hact
      refine ⟨?_, ?_⟩
      · show s.copiedAfter (.go i) (P.owner i) = true
        rw [copiedAfter, if_pos hreleasing, Function.update_self]
      · show (state.objects (P.owner i)).locks ⊆ (state.threads i).remaining
        rw [hremaining, hobjects]
        exact List.Subset.refl _
    | frees hfinishes _ hremaining =>
      obtain ⟨hcopied, hsubset⟩ := h.finishes i hfinishes
      refine ⟨copiedAfter_of_copied hcopied, ?_⟩
      show (state.object i).locks ⊆ (state.threads i).remaining
      rw [hremaining]
      exact List.Subset.trans (hfewer i hcopied) hsubset
    | removes lock hfinishes _ hremaining hlocks =>
      obtain ⟨hcopied, hsubset⟩ := h.finishes i hfinishes
      refine ⟨copiedAfter_of_copied hcopied, fun other hmem => ?_⟩
      change other ∈ (state.object i).locks at hmem
      -- no lock is in `_locks` twice
      have hnodup : (s.state.object i).locks.Nodup := h.accounted.nodup _
      rw [hlocks, hnodup.mem_erase_iff] at hmem
      have hleft := hsubset hmem.2
      rw [hremaining] at hleft
      exact (List.mem_cons.mp hleft).resolve_left hmem.1
    | skips hact hfreed hthrown =>
      subst hact
      have hnone := htidy.2
      simp only [hfreed] at hnone
      exact absurd hnone hthrown
    | ends _ hends =>
      rw [hends] at hstage
      exact hstage.elim
  · rcases hreleased with hreleased | hreleased
    · change (state.threads i).stage = .released .finish at hreleased
      cases Partitions.stepped_step hstep i with
      | still hsame => exact hpast i (h.past i (.inl (hsame ▸ hreleased)))
      | aside hnot => exact absurd (hreleased ▸ trivial) hnot
      | copies _ _ _ _ hfinishes | frees _ hfinishes | removes _ _ hfinishes =>
        rw [hreleased] at hfinishes
        exact hfinishes.elim
      | skips hact hfreed hthrown =>
        subst hact
        have hnone := htidy.2
        simp only [hfreed] at hnone
        exact absurd hnone hthrown
      | ends hfinishes _ hnone _ =>
        obtain ⟨hcopied, hsubset⟩ := h.finishes i hfinishes
        rw [hnone] at hsubset
        exact hpast i ⟨hcopied, List.subset_nil.mp hsubset⟩
    · exact hpast i (h.past i (past_of_pastAfter hreleased).symm)

theorem inv_of_reach (h : (finishing P).Reach Tidy s) : s.Inv := by
  refine h.invariant inv_new fun s a _ hs hen htidy => ?_
  obtain ⟨state, hstep⟩ := Option.isSome_iff_exists.mp hen
  have hpost : (finishing P).post s a = ⟨state, s.copiedAfter a, s.pastAfter a⟩ := by
    show (match s.state.step a with | some state => _ | none => _) = _
    rw [hstep]
  rw [hpost]
  exact hs.step htidy hstep

/-! ## Nothing is left -/

omit [LinearOrder κ] [DecidableEq π] [DecidableEq θ] [DecidableEq ι] in
theorem Inv.nothingLeft (h : s.Inv) : s.NothingLeft := by
  intro i hpast _ _ hquiet
  obtain ⟨-, hnone⟩ := h.past i (.inr hpast)
  refine ⟨hnone, fun name l hmaker => ?_⟩
  -- the threads of the other partitioners have not made it
  have hhands : ∀ j, ¬ (s.state.threads j).Takes (name, l) := by
    intro j htakes
    have howner := (h.accounted.hands j _ htakes).maker.symm.trans hmaker
    have hstage := htakes.1
    rcases hquiet j howner with habsent | hdone
    · rw [habsent] at hstage
      exact hstage
    · rw [hdone] at hstage
      exact hstage
  have hfree : ((s.state.worlds name).locks l).isAcquired = false := by
    refine h.accounted.spent name l ?_ fun j hkeeps => hhands j hkeeps.takes
    rw [hmaker, show (s.state.objects (P.owner i)).locks = [] from hnone]
    exact List.not_mem_nil
  have habsent := h.accounted.idle name l fun j hacquires => hhands j hacquires.keeps.takes
  exact ⟨hfree, World.noChild_iff.mpr ((h.accounted.traced name l).free habsent hfree)⟩

end Finishing

/-! ## One partitioner, an allocation thread and a thread that finishes -/

/-- The second thread is that of the user. -/
def onePartitionerFinished : Partitioners Unit Bool Int Bool where
  identifier _ := str "a"
  node _ := str "16e-a"
  set _ := [0]
  text := reprInt
  owner _ := ()
  locks _ := twoLocks
  maker _ _ := ()
  kind_eq := twoLocks_kind

namespace Finishing

/-- The allocation thread gets the lock of the item, and is about to store it. -/
def gettingLock : List (PartitionAct onePartitionerFinished) :=
  [.join (), .settle false false, .go false, .split false [onePartitionerFinished.node ()],
    .take false false] ++
    [.thread false .look, .thread false .attempt, .thread false .ensure, .thread false (.find []),
      .create false 0, .thread false .store, .thread false .contend,
      .thread false (.compare [(twoLocks.config false).nodeName 0]),
      .thread false .mark].map (.lock false (reprInt 0)) ++ [.go false]

/-- `finish` is called, and copies `_locks`. -/
def copying : List (PartitionAct onePartitionerFinished) := [.call true .finish, .go true]

/-- `_fail_out`, from behind the loop. -/
def failingOut : List (PartitionAct onePartitionerFinished) :=
  [.go true, .go true, .go true, .leave true true]

/-- The allocation thread stores the lock, and goes on until it is done. -/
def storing : List (PartitionAct onePartitionerFinished) := List.replicate 4 (.go false)

/-- It stores the lock, and says ACQUIRED, before that; `finish` releases the lock. -/
def finishingInOrder : List (PartitionAct onePartitionerFinished) :=
  gettingLock ++ List.replicate 5 (.go false) ++ copying ++ [.go true] ++
    [.thread false (.test 0), .thread false (.read 0), .delete false 0, .thread false (.unmark 0),
      .thread false (.clear 0)].map (.free true (reprInt 0)) ++ [.go true] ++ failingOut

end Finishing

end Kazoo
