import Kazoo.Recipe.PartitionOwnership

/-!
# FAILURE

Who writes the state of a partitioner, and who of them can write over FAILURE.
-/

namespace Kazoo

namespace Partitions

variable {π θ κ ι : Type} [DecidableEq π] [DecidableEq θ] [DecidableEq ι]
  {P : Partitioners π θ κ ι} {s s' : Partitions P} {i : θ} {p : π}

/-! ## The places that write the state -/

/-- The step sets the state of `p`. -/
inductive Writes (s : Partitions P) (p : π) : PartitionAct P → PartitionState → Prop
  -- `_establish_sessionwatch`
  | change : (s.objects p).state ≠ .failure → Writes s p (.change p) .release
  -- `updated`
  | update {i : θ} : P.owner i = p → (s.objects p).state = .acquired → Writes s p (.update i) .release
  -- `abort_if_needed`
  | relapse {i : θ} : P.owner i = p → (s.threads i).stage = .relapsing → Writes s p (.go i) .release
  -- the end of `_allocate_transition`
  | conclude {i : θ} : P.owner i = p → (s.threads i).stage = .concluding →
      (s.objects p).stateId = (s.threads i).stateId → Writes s p (.go i) .acquired
  -- `release_set`
  | reallocate {i : θ} : P.owner i = p → (s.objects p).state ≠ .failure →
      Writes s p (.go i) .allocating
  -- `_fail_out`
  | fail {i : θ} : P.owner i = p → (s.threads i).stage = .failing → Writes s p (.go i) .failure

/-- Either nobody has set the state of `p`, or one of the writers has. -/
inductive Stated (s : Partitions P) (a : PartitionAct P) (p : π) (o : PartitionerObject κ ι) : Prop
  | kept : o.state = (s.objects p).state → o.stateId = (s.objects p).stateId → Stated s a p o
  | written {state : PartitionState} : Writes s p a state → o.state = state →
      o.stateId = (s.objects p).stateId + 1 → Stated s a p o

omit [DecidableEq π] [DecidableEq θ] [DecidableEq ι] in
theorem Stated.refl {a : PartitionAct P} : Stated s a p (s.objects p) := .kept rfl rfl

omit [DecidableEq π] [DecidableEq θ] [DecidableEq ι] in
/-- No partitioner is changed. -/
theorem stated_of_eq {a : PartitionAct P} (h : s'.objects = s.objects) : Stated s a p (s'.objects p) := by
  rw [h]
  exact .refl

omit [DecidableEq θ] [DecidableEq ι] in
/-- Only the partitioner `q` is changed. -/
theorem stated_setObject {a : PartitionAct P} {q : π} {o : PartitionerObject κ ι}
    (h : Stated s a q o) (p : π) : Stated s a p ((s.setObject q o).objects p) := by
  by_cases hp : p = q
  · subst hp
    rw [setObject_objects_self]
    exact h
  · rw [setObject_objects_of_ne hp]
    exact .refl

omit [DecidableEq θ] [DecidableEq ι] in
theorem stated_same {a : PartitionAct P} {q : π} {o : PartitionerObject κ ι}
    (hstate : o.state = (s.objects q).state) (hid : o.stateId = (s.objects q).stateId) (p : π) :
    Stated s a p ((s.setObject q o).objects p) := stated_setObject (.kept hstate hid) p

theorem stated_go (hstep : s.go i = some s') (p : π) : Stated s (.go i) p (s'.objects p) := by
  cases goes_of_go hstep with
  | allocates | settled | taken | retakes | tested | doubts | aborts | doubted | suspects | suspected
  | trusts | reconsiders | copies | iterated | iterates | missing | skips | throws | fails =>
    exact .refl
  | acquired => exact stated_of_eq (acquired_objects s i _ _)
  | resumes => exact stated_of_eq (resumed_objects s i _)
  | released => exact stated_of_eq (releaseOver_objects s i _)
  | appends | removes | watches => refine stated_same ?_ ?_ p <;> rfl
  -- the writers
  | relapses hstage => exact stated_setObject (.written (.relapse rfl hstage) rfl rfl) p
  | concludes hstage hid => exact stated_setObject (.written (.conclude rfl hstage hid) rfl rfl) p
  | reallocates _ hstate => exact stated_setObject (.written (.reallocate rfl hstate) rfl rfl) p
  | failsOut hstage => exact stated_setObject (.written (.fail rfl hstage) rfl rfl) p

variable [LinearOrder κ] {a : PartitionAct P}

theorem stated_step (hstep : s.step a = some s') (p : π) : Stated s a p (s'.objects p) := by
  cases steps_of_step hstep with
  | join | settle => refine stated_same ?_ ?_ p <;> rfl
  | changeLate | lose | update | split | splitRaised | splitFail | take | lock | free | call | regroup
  | server => exact .refl
  | change _ hstate =>
    refine stated_setObject (.written (.change fun h => ?_) rfl rfl) p
    exact hstate (.inl h)
  | updateAcquired _ _ hstate => exact stated_setObject (.written (.update rfl hstate) rfl rfl) p
  | go => exact stated_go hstep p
  | @leave i carriedOut => cases carriedOut <;> (refine stated_same ?_ ?_ p <;> rfl)

/-! ## The state ids that the threads remember -/

/-- A thread remembers the state id that it had, or has just read that of an allocation. -/
def Recalls (s s' : Partitions P) (j : θ) : Prop :=
  (s'.threads j).stage.Remembers →
    (s.threads j).stage.Remembers ∧ (s'.threads j).stateId = (s.threads j).stateId ∨
      (s.object j).state = .allocating ∧ (s'.threads j).stateId = (s.object j).stateId ∧
        s'.objects = s.objects

variable {r : Partitions P} {j : θ}

omit [DecidableEq π] [DecidableEq θ] [DecidableEq ι] [LinearOrder κ] in
theorem recalls_of_eq (hthreads : s'.threads = s.threads) : Recalls s s' j := fun hstage => .inl <| by
  rw [hthreads] at hstage ⊢
  exact ⟨hstage, rfl⟩

omit [DecidableEq π] [DecidableEq ι] [LinearOrder κ] in
/-- Only the thread `i` goes on. -/
theorem recalls_setThread {t : PartitionThread κ ι}
    (h : t.stage.Remembers → (s.threads i).stage.Remembers ∧ t.stateId = (s.threads i).stateId)
    (hthreads : r.threads = s.threads := by rfl) : Recalls s (r.setThread i t) j := by
  intro hstage
  left
  by_cases hj : j = i
  · subst hj
    rw [setThread_threads_self] at hstage ⊢
    exact h hstage
  · rw [setThread_threads_of_ne hj, hthreads] at hstage ⊢
    exact ⟨hstage, rfl⟩

omit [DecidableEq π] [DecidableEq ι] [LinearOrder κ] in
theorem recalls_setStage {stage : PartitionStage}
    (h : stage.Remembers → (s.threads i).stage.Remembers)
    (hthreads : r.threads = s.threads := by rfl) : Recalls s (r.setStage i stage) j :=
  recalls_setThread (fun hstage => ⟨h hstage, by rw [hthreads]⟩) hthreads

omit [LinearOrder κ] in
theorem recalls_go (hstep : s.go i = some s') : Recalls s s' j := by
  cases goes_of_go hstep with
  | allocates _ hstate =>
    intro hremembers
    by_cases hj : j = i
    · subst hj
      right
      rw [setThread_threads_self]
      exact ⟨hstate, rfl, rfl⟩
    · left
      rw [setThread_threads_of_ne hj] at hremembers ⊢
      exact ⟨hremembers, rfl⟩
  | settled | doubts | aborts | doubted | suspects | suspected | trusts | relapses | concludes | iterated
  | missing | throws | fails | reallocates | watches => exact recalls_setStage False.elim
  | copies | iterates | removes | skips => exact recalls_setThread False.elim
  | failsOut =>
    refine recalls_setStage (fun h => ?_)
    split at h <;> exact h.elim
  | @released caller =>
    cases caller with
    | finish => exact recalls_setStage False.elim
    | releaseSet | abort =>
      refine recalls_setStage (fun h => ?_)
      split at h <;> exact h.elim
  -- in `_allocate_transition` the thread has its state id
  | taken hstage | tested hstage | reconsiders hstage =>
    exact recalls_setStage (fun _ => hstage ▸ trivial)
  | @resumes site hstage => cases site <;> exact recalls_setStage (fun _ => hstage ▸ trivial)
  | acquired hstage =>
    have hremembers : (s.threads i).stage.Remembers := hstage ▸ trivial
    unfold Partitions.acquired
    repeat' split
    all_goals exact recalls_setStage (fun _ => hremembers)
  | retakes hstage | appends hstage => exact recalls_setThread (fun _ => ⟨hstage ▸ trivial, rfl⟩)

theorem recalls_step (hstep : s.step a = some s') (j : θ) : Recalls s s' j := by
  cases steps_of_step hstep with
  | join | changeLate | change | regroup | server => exact recalls_of_eq rfl
  | updateAcquired | update | lock => exact recalls_setThread (fun h => ⟨h, rfl⟩)
  | @settle i failed =>
    refine recalls_setStage (fun h => ?_)
    cases failed <;> exact h.elim
  | split hstage | take _ hstage => exact recalls_setThread (fun _ => ⟨hstage ▸ trivial, rfl⟩)
  | free =>
    refine recalls_setThread (fun h => ?_)
    dsimp only at h
    split at h <;> exact h.elim
  | go => exact recalls_go hstep
  | @leave i carriedOut => cases carriedOut <;> exact recalls_setStage False.elim
  | lose | splitRaised | splitFail | call => exact recalls_setStage False.elim

/-- A thread in `_allocate_transition` whose state id is the present one is allocating. -/
structure Remembering (s : Partitions P) : Prop where
  stateId : ∀ j, (s.threads j).stage.Remembers → (s.threads j).stateId ≤ (s.object j).stateId
  state : ∀ j, (s.threads j).stage.Remembers → (s.threads j).stateId = (s.object j).stateId →
    (s.object j).state = .allocating

theorem Remembering.step (h : s.Remembering) (hstep : s.step a = some s') : s'.Remembering := by
  have hobject (j : θ) := stated_step hstep (P.owner j)
  constructor
  · intro j hstage
    rcases recalls_step hstep j hstage with ⟨hold, hid⟩ | ⟨-, hid, hobjects⟩
    · have hle := h.stateId j hold
      rw [hid]
      cases hobject j with
      | kept _ hkept => exact hle.trans_eq hkept.symm
      | written _ _ hnext => exact (Nat.le_succ_of_le hle).trans_eq hnext.symm
    · rw [hid, object, object, hobjects]
  · intro j hstage heq
    rcases recalls_step hstep j hstage with ⟨hold, hid⟩ | ⟨hstate, -, hobjects⟩
    · have hle := h.stateId j hold
      rw [hid] at heq
      cases hobject j with
      | kept hsame hkept => exact hsame.trans (h.state j hold (heq.trans hkept))
      | written _ _ hnext =>
        have hlt : (s.threads j).stateId < (s'.object j).stateId :=
          (Nat.lt_succ_of_le hle).trans_eq hnext.symm
        omega
    · rw [object, hobjects]
      exact hstate

theorem remembering_of_reach {ok : Partitions P → PartitionAct P → Prop}
    (h : (partitioning P).Reach ok s) : s.Remembering := by
  refine h.invariant ⟨fun _ h => h.elim, fun _ h => h.elim⟩ fun s a _ hs hen _ => ?_
  obtain ⟨s', hstep⟩ := Option.isSome_iff_exists.mp hen
  show ((s.step a).getD s).Remembering
  rw [hstep]
  exact hs.step hstep

/-! ## What becomes of FAILURE -/

/-- No thread sets RELEASE in `abort_if_needed` where the state has become FAILURE since the thread has
looked at it. -/
def Lasting (s : Partitions P) : PartitionAct P → Prop
  | .go i => (s.threads i).stage = .relapsing → (s.object i).state ≠ .failure
  | _ => True

instance (s : Partitions P) (a : PartitionAct P) : Decidable (s.Lasting a) := by
  induction a using PartitionAct.casesOn
  all_goals (dsimp only [Lasting]; infer_instance)

/-- A step leaves FAILURE where it is, unless `abort_if_needed` writes over it. -/
theorem Remembering.failure_step_iff (h : s.Remembering) (hstep : s.step a = some s') :
    (∀ p, (s.objects p).state = .failure → (s'.objects p).state = .failure) ↔ s.Lasting a := by
  constructor
  · intro hkept
    cases a with
    | go i =>
      intro hstage hfailure
      simp only [Partitions.step, Partitions.go, hstage] at hstep
      cases hstep
      have hkept := hkept (P.owner i) hfailure
      rw [show ((s.setObject _ _).setStage i _).objects (P.owner i) = _ from
        setObject_objects_self s _ _] at hkept
      cases hkept
    | _ => trivial
  · intro hlasting p hfailure
    cases stated_step hstep p with
    | kept hsame => exact hsame.trans hfailure
    | written hwrites hstate _ =>
      cases hwrites with
      | change hnot => exact absurd hfailure hnot
      | update _ hacquired => cases hacquired.symm.trans hfailure
      | relapse howner hstage =>
        subst howner
        exact absurd hfailure (hlasting hstage)
      | conclude howner hstage hid =>
        subst howner
        cases (h.state _ (hstage ▸ trivial) hid.symm).symm.trans hfailure
      | reallocate _ hnot => exact absurd hfailure hnot
      | fail => exact hstate

/-- Where a partitioner has been in FAILURE in the run, it has stayed there. -/
def FailureFinal (s : Partitions P) (acts : List (PartitionAct P)) : Prop :=
  ∀ before after, before ++ after <+: acts → ∀ p,
    (((partitioning P).exec s before).objects p).state = .failure →
      (((partitioning P).exec s (before ++ after)).objects p).state = .failure

theorem post_eq (hstep : s.step a = some s') : (partitioning P).post s a = s' := by
  show (s.step a).getD s = s'
  rw [hstep]
  rfl

theorem failure_of_lasting {acts : List (PartitionAct P)} (hs : s.Remembering)
    (hlegal : (partitioning P).Legal Lasting s acts) (hfailure : (s.objects p).state = .failure) :
    (((partitioning P).exec s acts).objects p).state = .failure := by
  induction acts generalizing s with
  | nil => exact hfailure
  | cons a acts ih =>
    obtain ⟨hen, hlasting, hrest⟩ := hlegal
    obtain ⟨s', hstep⟩ := Option.isSome_iff_exists.mp hen
    rw [post_eq hstep] at hrest
    show (((partitioning P).exec ((partitioning P).post s a) acts).objects p).state = _
    rw [post_eq hstep]
    exact ih (hs.step hstep) hrest ((hs.failure_step_iff hstep).mpr hlasting p hfailure)

theorem lasting_of_final {acts : List (PartitionAct P)} (hs : s.Remembering)
    (hlegal : (partitioning P).Legal Machine.Free s acts) (hfinal : s.FailureFinal acts) :
    (partitioning P).Legal Lasting s acts := by
  induction acts generalizing s with
  | nil => trivial
  | cons a acts ih =>
    obtain ⟨hen, -, hrest⟩ := hlegal
    obtain ⟨s', hstep⟩ := Option.isSome_iff_exists.mp hen
    have hpost := post_eq hstep
    refine ⟨hen, (hs.failure_step_iff hstep).mp fun p hfailure => ?_, ?_⟩
    · have hkept := hfinal [] [a] (List.prefix_append [a] acts) p hfailure
      rwa [show (partitioning P).exec s ([] ++ [a]) = s' from hpost] at hkept
    · rw [hpost] at hrest ⊢
      refine ih (hs.step hstep) hrest fun before after hprefix p hfailure => ?_
      have hkept := hfinal (a :: before) after (List.cons_prefix_cons.mpr ⟨rfl, hprefix⟩) p
      rw [show (partitioning P).exec s (a :: before) = (partitioning P).exec s' before by
        rw [← hpost]; rfl] at hkept
      have hlast := hkept hfailure
      rwa [show (partitioning P).exec s (a :: before ++ after) =
        (partitioning P).exec s' (before ++ after) by rw [← hpost]; rfl] at hlast

/-- FAILURE is final in exactly those runs in which `abort_if_needed` does not write over it. -/
theorem failure_final_iff (P : Partitioners π θ κ ι) {acts : List (PartitionAct P)}
    (hlegal : (partitioning P).Legal Machine.Free .new acts) :
    FailureFinal .new acts ↔ (partitioning P).Legal Lasting .new acts := by
  have hnew : (new : Partitions P).Remembering := ⟨fun _ h => h.elim, fun _ h => h.elim⟩
  refine ⟨lasting_of_final hnew hlegal, fun hlasting before after hprefix p hfailure => ?_⟩
  obtain ⟨rest, rfl⟩ := hprefix
  rw [List.append_assoc] at hlasting
  obtain ⟨hbefore, hafter⟩ := Machine.legal_append_iff.mp hlasting
  rw [Machine.exec_append]
  have hs : ((partitioning P).exec .new before).Remembering :=
    remembering_of_reach (.of_legal hbefore)
  exact failure_of_lasting hs (Machine.legal_append_iff.mp hafter).1 hfailure

end Partitions

/-! ## One partitioner of one item -/

theorem twoLocks_kind (_ : PyStr) (second : Bool) : (twoLocks.config second).kind = .lock := rfl

/-- All threads work for it. -/
def onePartitioner : Partitioners Unit Nat Int Bool where
  identifier _ := str "a"
  node _ := str "16e-a"
  set _ := [0]
  text := reprInt
  owner _ := ()
  locks _ := twoLocks
  maker _ _ := ()
  kind_eq := twoLocks_kind

namespace Partitions

/-- The children watch settles, and thread 0 gets the lock of the item. -/
def taking : List (PartitionAct onePartitioner) :=
  [.join (), .settle 0 false, .go 0, .split 0 [onePartitioner.node ()], .take 0 false] ++
    [.thread false .look, .thread false .attempt, .thread false .ensure, .thread false (.find []),
      .create false 0, .thread false .store, .thread false .contend,
      .thread false (.compare [(twoLocks.config false).nodeName 0]),
      .thread false .mark].map (.lock 0 (reprInt 0))

/-- Thread 0 stores it, and is about to test. -/
def storing : List (PartitionAct onePartitioner) := [.go 0, .go 0]

/-- `release` of the lock, in thread 1. -/
def freeing : List (PartitionAct onePartitioner) :=
  [.thread false (.test 0), .thread false (.read 0), .delete false 0, .thread false (.unmark 0),
    .thread false (.clear 0)].map (.free 1 (reprInt 0))

/-- The connection is suspended, and the set is released; thread 0 sees that it is allocated anew. -/
def reallocating : List (PartitionAct onePartitioner) :=
  [.change (), .call 1 .releaseSet, .go 1, .go 1] ++ freeing ++
    [.go 1, .go 1, .go 1, .go 1, .go 0, .go 0]

/-- The session is lost. -/
def failing : List (PartitionAct onePartitioner) := [.lose 2, .go 2]

/-- Thread 0 sets RELEASE after that. -/
theorem failure_is_left :
    ¬ ∀ acts : List (PartitionAct onePartitioner),
      (partitioning onePartitioner).Legal Machine.Free .new acts → FailureFinal .new acts := by
  intro h
  have hfinal := h (taking ++ storing ++ reallocating ++ failing ++ [.go 0]) (by decide +kernel)
    (taking ++ storing ++ reallocating ++ failing) [.go 0] (List.prefix_refl _) ()
    (by decide +kernel)
  revert hfinal
  decide +kernel

/-- It sets it before. -/
theorem failure_final_before :
    FailureFinal .new (taking ++ storing ++ reallocating ++ [.go 0] ++ failing) :=
  (failure_final_iff onePartitioner (by decide +kernel)).mpr (by decide +kernel)

end Partitions

end Kazoo
