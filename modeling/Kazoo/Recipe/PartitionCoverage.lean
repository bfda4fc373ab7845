import Kazoo.Recipe.DefaultPartition
import Kazoo.Recipe.PartitionStates

/-!
# Every item has its owner

Each partitioner splits the set by the list of the party that it has read, on its own.  Where the
partitioners of a group have all read that they are the party, and are ACQUIRED, they have the whole set
between them.
-/

namespace Kazoo

/-! ## Runs with their history -/

structure Allotting {π θ κ ι : Type} (P : Partitioners π θ κ ι) where
  state : Partitions P
  -- history: the children of the party path by which the thread has split the set
  listed : θ → List PyStr
  -- history: those by which the `_partition_set` of the partitioner was made
  view : π → List PyStr

namespace Allotting

variable {π θ κ ι : Type} {P : Partitioners π θ κ ι}

def new : Allotting P := ⟨.new, fun _ => [], fun _ => []⟩

variable [DecidableEq π] [DecidableEq θ]

def listedAfter (s : Allotting P) : PartitionAct P → θ → List PyStr
  | .split i children => Function.update s.listed i children
  | _ => s.listed

/-- The end of `_allocate_transition` sets `_partition_set`. -/
def viewAfter (s : Allotting P) : PartitionAct P → π → List PyStr
  | .go i =>
    if (s.state.threads i).stage = .concluding ∧
        (s.state.object i).stateId = (s.state.threads i).stateId ∧
        (s.state.threads i).childrenChanged = false then
      Function.update s.view (P.owner i) (s.listed i)
    else s.view
  | _ => s.view

end Allotting

/-- All interleavings, with their history. -/
def allotting {π θ κ ι : Type} [DecidableEq π] [DecidableEq θ] [DecidableEq ι] [LinearOrder κ]
    (P : Partitioners π θ κ ι) : Machine (Allotting P) (PartitionAct P) where
  init := .new
  enabled := fun s a => (s.state.step a).isSome
  post := fun s a =>
    match s.state.step a with
    | some state => ⟨state, s.listedAfter a, s.viewAfter a⟩
    | none => s

instance {π θ κ ι : Type} [DecidableEq π] [DecidableEq θ] [DecidableEq ι] [LinearOrder κ]
    (P : Partitioners π θ κ ι) (s : Allotting P) (a : PartitionAct P) :
    Decidable ((allotting P).enabled s a) :=
  inferInstanceAs (Decidable ((s.state.step a).isSome = true))

/-! ## Who sets the lists -/

namespace Partitions

variable {π θ κ ι : Type} [DecidableEq π] [DecidableEq θ] [DecidableEq ι]
  {P : Partitioners π θ κ ι} {s s' r : Partitions P} {i j : θ} {p : π}

/-- An allocation thread has the list that it had. -/
def Keeps (s s' : Partitions P) (j : θ) : Prop :=
  (s'.threads j).stage.Allocates →
    (s.threads j).stage.Allocates ∧ (s'.threads j).partitionSet = (s.threads j).partitionSet

omit [DecidableEq π] [DecidableEq θ] [DecidableEq ι] in
theorem keeps_of_eq (hthreads : s'.threads = s.threads) : Keeps s s' j := fun hstage => by
  rw [hthreads] at hstage ⊢
  exact ⟨hstage, rfl⟩

omit [DecidableEq π] [DecidableEq ι] in
theorem keeps_setThread {t : PartitionThread κ ι}
    (h : t.stage.Allocates → (s.threads i).stage.Allocates ∧ t.partitionSet = (s.threads i).partitionSet)
    (hthreads : r.threads = s.threads := by rfl) : Keeps s (r.setThread i t) j := by
  intro hstage
  by_cases hj : j = i
  · subst hj
    rw [setThread_threads_self] at hstage ⊢
    exact h hstage
  · rw [setThread_threads_of_ne hj, hthreads] at hstage ⊢
    exact ⟨hstage, rfl⟩

omit [DecidableEq π] [DecidableEq ι] in
theorem keeps_setStage {stage : PartitionStage}
    (h : stage.Allocates → (s.threads i).stage.Allocates)
    (hthreads : r.threads = s.threads := by rfl) : Keeps s (r.setStage i stage) j :=
  keeps_setThread (fun hstage => ⟨h hstage, by rw [hthreads]⟩) hthreads

theorem keeps_go (hstep : s.go i = some s') : Keeps s s' j := by
  cases goes_of_go hstep with
  | allocates => exact keeps_setThread False.elim
  | settled | doubts | aborts | doubted | suspects | suspected | trusts | relapses | concludes | iterated
  | missing | throws | fails | reallocates | watches => exact keeps_setStage False.elim
  | copies | iterates | removes | skips => exact keeps_setThread False.elim
  | failsOut =>
    refine keeps_setStage (fun h => ?_)
    split at h <;> exact h.elim
  | @released caller =>
    cases caller with
    | finish => exact keeps_setStage False.elim
    | releaseSet | abort =>
      refine keeps_setStage (fun h => ?_)
      split at h <;> exact h.elim
  | taken hstage | tested hstage | reconsiders hstage =>
    exact keeps_setStage (fun _ => hstage ▸ trivial)
  | @resumes site hstage => cases site <;> exact keeps_setStage (fun _ => hstage ▸ trivial)
  | acquired hstage =>
    have hallocates : (s.threads i).stage.Allocates := hstage ▸ trivial
    unfold Partitions.acquired
    repeat' split
    all_goals exact keeps_setStage (fun _ => hallocates)
  | retakes hstage | appends hstage => exact keeps_setThread (fun _ => ⟨hstage ▸ trivial, rfl⟩)

variable [LinearOrder κ] {a : PartitionAct P}

/-- Only the call of `_partition_func` gives a thread its list. -/
theorem keeps_step (hstep : s.step a = some s') (j : θ) :
    Keeps s s' j ∨ ∃ children, a = .split j children ∧
      partitioner (P.identifier (P.owner j)) (children.map memberIdentifier) (P.set (P.owner j)) =
        .ok (s'.threads j).partitionSet := by
  cases steps_of_step hstep with
  | join | changeLate | change | regroup | server => exact .inl (keeps_of_eq rfl)
  | updateAcquired | update | lock => exact .inl (keeps_setThread (fun h => ⟨h, rfl⟩))
  | @settle i failed =>
    refine .inl (keeps_setStage (fun h => ?_))
    cases failed <;> exact h.elim
  | @split i children party partitionSet hstage hparty hperm hset =>
    by_cases hj : j = i
    · subst hj
      refine .inr ⟨children, rfl, ?_⟩
      rw [setThread_threads_self]
      exact hset
    · left
      intro hallocates
      rw [setThread_threads_of_ne hj] at hallocates ⊢
      exact ⟨hallocates, rfl⟩
  | take _ hstage => exact .inl (keeps_setThread (fun _ => ⟨hstage ▸ trivial, rfl⟩))
  | free =>
    refine .inl (keeps_setThread (fun h => ?_))
    dsimp only at h
    split at h <;> exact h.elim
  | go => exact .inl (keeps_go hstep)
  | @leave i carriedOut => cases carriedOut <;> exact .inl (keeps_setStage False.elim)
  | lose | splitRaised | splitFail | call => exact .inl (keeps_setStage False.elim)

omit [DecidableEq π] [DecidableEq θ] [DecidableEq ι] [LinearOrder κ] in
/-- A partitioner in ACQUIRED was in ACQUIRED, with the list that it has. -/
def Stays (s : Partitions P) (p : π) (o : PartitionerObject κ ι) : Prop :=
  o.state = .acquired → (s.objects p).state = .acquired ∧ o.partitionSet = (s.objects p).partitionSet

omit [DecidableEq π] [DecidableEq θ] [DecidableEq ι] [LinearOrder κ] in
theorem stays_of_eq (hobjects : s'.objects = s.objects) : Stays s p (s'.objects p) := fun hacquired => by
  rw [hobjects] at hacquired ⊢
  exact ⟨hacquired, rfl⟩

omit [DecidableEq θ] [DecidableEq ι] [LinearOrder κ] in
theorem stays_setObject {q : π} {o : PartitionerObject κ ι} (h : Stays s q o) (p : π) :
    Stays s p ((s.setObject q o).objects p) := by
  by_cases hp : p = q
  · subst hp
    rw [setObject_objects_self]
    exact h
  · rw [setObject_objects_of_ne hp]
    exact fun hacquired => ⟨hacquired, rfl⟩

omit [DecidableEq θ] [DecidableEq ι] [LinearOrder κ] in
theorem stays_same {q : π} {o : PartitionerObject κ ι} (hstate : o.state = (s.objects q).state)
    (hset : o.partitionSet = (s.objects q).partitionSet) (p : π) : Stays s p ((s.setObject q o).objects p) :=
  stays_setObject (fun hacquired => ⟨hstate.symm.trans hacquired, hset⟩) p

omit [DecidableEq θ] [DecidableEq ι] [LinearOrder κ] in
theorem stays_left {q : π} {o : PartitionerObject κ ι} (hstate : o.state ≠ .acquired) (p : π) :
    Stays s p ((s.setObject q o).objects p) :=
  stays_setObject (fun hacquired => absurd hacquired hstate) p

/-- The thread concludes, and sets `_partition_set`. -/
def Concludes (s : Partitions P) (a : PartitionAct P) (i : θ) : Prop :=
  a = .go i ∧ (s.threads i).stage = .concluding ∧ (s.object i).stateId = (s.threads i).stateId ∧
    (s.threads i).childrenChanged = false

omit [LinearOrder κ] in
theorem stays_go (hstep : s.go i = some s') (hnot : ¬ s.Concludes (.go i) i) (p : π) :
    Stays s p (s'.objects p) := by
  cases goes_of_go hstep with
  | allocates | settled | taken | retakes | tested | doubts | aborts | doubted | suspects | suspected
  | trusts | reconsiders | copies | iterated | iterates | missing | skips | throws | fails =>
    exact stays_of_eq rfl
  | acquired => exact stays_of_eq (acquired_objects s i _ _)
  | resumes => exact stays_of_eq (resumed_objects s i _)
  | released => exact stays_of_eq (releaseOver_objects s i _)
  | appends | removes | watches => refine stays_same ?_ ?_ p <;> rfl
  | relapses | reallocates | failsOut =>
    refine stays_left ?_ p
    nofun
  | concludes hstage hid hchanged => exact absurd ⟨rfl, hstage, hid, hchanged⟩ hnot

omit [LinearOrder κ] in
theorem concludes_go (hstep : s.go i = some s') (h : s.Concludes (.go i) i) (p : π) :
    s'.objects p = if p = P.owner i then
      { (s.object i).setState .acquired with partitionSet := (s.threads i).partitionSet }
    else s.objects p := by
  obtain ⟨-, hstage, hid, hchanged⟩ := h
  have hid' : (s.objects (P.owner i)).stateId = (s.threads i).stateId := hid
  simp only [go, hstage, hid', hchanged, and_self, if_true] at hstep
  cases hstep
  by_cases hp : p = P.owner i
  · subst hp
    rw [if_pos rfl]
    exact setObject_objects_self s _ _
  · rw [if_neg hp]
    exact setObject_objects_of_ne hp s _

/-- Only the end of `_allocate_transition` sets `_partition_set`. -/
theorem stays_step (hstep : s.step a = some s') (hnot : ∀ i, ¬ s.Concludes a i) (p : π) :
    Stays s p (s'.objects p) := by
  cases steps_of_step hstep with
  | join | settle => refine stays_same ?_ ?_ p <;> rfl
  | changeLate | lose | update | split | splitRaised | splitFail | take | lock | free | call | regroup
  | server => exact stays_of_eq rfl
  | change | updateAcquired =>
    refine stays_left ?_ p
    nofun
  | go => exact stays_go hstep (hnot _) p
  | @leave i carriedOut =>
    cases carriedOut <;> (refine stays_same ?_ ?_ p <;> rfl)

end Partitions

namespace Allotting

open Partitions

variable {π θ κ ι : Type} [DecidableEq π] [DecidableEq θ] [DecidableEq ι] [LinearOrder κ]
  {P : Partitioners π θ κ ι} {s : Allotting P} {state : Partitions P} {a : PartitionAct P}

/-! ## The invariant -/

/-- Every list is the split of the set by the party that was read for it. -/
structure Inv (s : Allotting P) : Prop where
  thread : ∀ j, (s.state.threads j).stage.Allocates →
    partitioner (P.identifier (P.owner j)) ((s.listed j).map memberIdentifier) (P.set (P.owner j)) =
      .ok (s.state.threads j).partitionSet
  object : ∀ p, (s.state.objects p).state = .acquired →
    partitioner (P.identifier p) ((s.view p).map memberIdentifier) (P.set p) =
      .ok (s.state.objects p).partitionSet

theorem listedAfter_of_allocates (hstep : s.state.step a = some state) {j : θ}
    (hallocates : (s.state.threads j).stage.Allocates) : s.listedAfter a j = s.listed j := by
  unfold listedAfter
  split
  · next i children =>
    by_cases hj : j = i
    · subst hj
      -- the thread that calls `_partition_func` has no list yet
      simp only [Partitions.step] at hstep
      obtain ⟨⟨hsplitting, -⟩, -⟩ := Option.ite_none_right_eq_some.mp hstep
      rw [hsplitting] at hallocates
      exact hallocates.elim
    · exact Function.update_of_ne hj _ _
  · rfl

omit [DecidableEq θ] [DecidableEq ι] [LinearOrder κ] in
theorem viewAfter_of_concludes {i : θ} (h : s.state.Concludes a i) :
    s.viewAfter a = Function.update s.view (P.owner i) (s.listed i) := by
  obtain ⟨rfl, hcond⟩ := h
  exact if_pos hcond

omit [DecidableEq θ] [DecidableEq ι] [LinearOrder κ] in
theorem viewAfter_of_not (h : ∀ i, ¬ s.state.Concludes a i) : s.viewAfter a = s.view := by
  cases a with
  | go i => exact if_neg fun hcond => h i ⟨rfl, hcond⟩
  | _ => rfl

theorem Inv.step (h : s.Inv) (hstep : s.state.step a = some state) :
    Inv ⟨state, s.listedAfter a, s.viewAfter a⟩ := by
  constructor
  · intro j hallocates
    obtain hkeeps | ⟨children, rfl, hset⟩ := keeps_step hstep j
    · obtain ⟨hold, hsame⟩ := hkeeps hallocates
      show partitioner _ ((s.listedAfter a j).map memberIdentifier) _ = .ok (state.threads j).partitionSet
      rw [hsame, listedAfter_of_allocates hstep hold]
      exact h.thread j hold
    · show partitioner _ ((Function.update s.listed j children j).map memberIdentifier) _ = _
      rw [Function.update_self]
      exact hset
  · intro p hacquired
    show partitioner (P.identifier p) ((s.viewAfter a p).map memberIdentifier) (P.set p) =
      .ok (state.objects p).partitionSet
    have hkept : s.viewAfter a p = s.view p → Stays s.state p (state.objects p) →
        partitioner (P.identifier p) ((s.viewAfter a p).map memberIdentifier) (P.set p) =
          .ok (state.objects p).partitionSet := by
      intro hview hstays
      obtain ⟨hold, hsame⟩ := hstays hacquired
      rw [hview, hsame]
      exact h.object p hold
    by_cases hconcludes : ∃ i, s.state.Concludes a i
    · obtain ⟨i, hi⟩ := hconcludes
      have hview := viewAfter_of_concludes hi
      obtain ⟨rfl, hcond⟩ := hi
      have hobject := concludes_go hstep ⟨rfl, hcond⟩ p
      by_cases hp : p = P.owner i
      · subst hp
        rw [if_pos rfl] at hobject
        rw [hview, Function.update_self, hobject]
        exact h.thread i (hcond.1 ▸ trivial)
      · rw [if_neg hp] at hobject
        apply hkept
        · rw [hview, Function.update_of_ne hp]
        · rw [hobject]
          exact fun hold => ⟨hold, rfl⟩
    · have hnot : ∀ i, ¬ s.state.Concludes a i := not_exists.mp hconcludes
      exact hkept (congrFun (viewAfter_of_not hnot) p) (stays_step hstep hnot p)

theorem post_eq (hstep : s.state.step a = some state) :
    (allotting P).post s a = ⟨state, s.listedAfter a, s.viewAfter a⟩ := by
  show (match s.state.step a with | some state => _ | none => _) = _
  rw [hstep]

theorem inv_of_reach {ok : Allotting P → PartitionAct P → Prop} (hr : (allotting P).Reach ok s) :
    s.Inv := by
  refine hr.invariant ⟨fun _ hallocates => hallocates.elim, nofun⟩ fun s a _ h hen _ => ?_
  obtain ⟨state, hstep⟩ := Option.isSome_iff_exists.mp hen
  rw [post_eq hstep]
  exact h.step hstep

/-- A run with its history is a run. -/
theorem reach_state (hr : (allotting P).Reach (fun s a => s.state.Orderly a) s) :
    (partitioning P).Reach Orderly s.state := by
  refine hr.invariant (P := fun s : Allotting P => (partitioning P).Reach Orderly s.state) .init
    fun s a _ h hen hok => ?_
  obtain ⟨state, hstep⟩ := Option.isSome_iff_exists.mp hen
  have hnext := Machine.Reach.step h hen hok
  rw [Partitions.post_eq hstep] at hnext
  rw [post_eq hstep]
  exact hnext

/-! ## The whole set -/

/-- Some partitioners are ACQUIRED, and each has split the same set by a list that names just them. -/
structure Agreed (s : Allotting P) (group : List π) (items : List κ) : Prop where
  acquired : ∀ p ∈ group, (s.state.objects p).state = .acquired
  view : ∀ p ∈ group, ((s.view p).map memberIdentifier).Perm (group.map P.identifier)
  set : ∀ p ∈ group, (P.set p).Perm items

/-- Then each item is in the list of one of them and in no other list of a partitioner in ACQUIRED, its
owner holds the lock of the item, and no list is longer than another by more than one. -/
theorem every_item_is_owned (hr : (allotting P).Reach (fun s a => s.state.Orderly a) s) {group : List π}
    {items : List κ} (hne : group ≠ []) (hgroup : (group.map P.identifier).Nodup) (hitems : items.Nodup)
    (h : s.Agreed group items) :
    (∀ x ∈ items, ∃ p ∈ group, x ∈ (s.state.objects p).partitionSet ∧ s.state.Holds p x ∧
      ∀ q, (s.state.objects q).state = .acquired → x ∈ (s.state.objects q).partitionSet → q = p) ∧
    ∀ p ∈ group, ∀ q ∈ group, (s.state.objects p).partitionSet.length ≤
      (s.state.objects q).partitionSet.length + 1 := by
  obtain ⟨share, hshare, -, hcovers, -, hbalanced⟩ := default_partition hitems hgroup
  have hlist : ∀ p ∈ group, (s.state.objects p).partitionSet = share (P.identifier p) := by
    intro p hp
    have hown := (inv_of_reach hr).object p (h.acquired p hp)
    rw [hshare _ (List.mem_map_of_mem hp) _ _ (h.view p hp) (h.set p hp)] at hown
    exact (Except.ok.inj hown).symm
  have hexclusive := ownership_is_exclusive P (reach_state hr)
  constructor
  · intro x hx
    have hnames : group.map P.identifier ≠ [] := fun hnil => hne (List.map_eq_nil_iff.mp hnil)
    obtain ⟨name, hname, hmem⟩ := (hcovers hnames x).mp hx
    obtain ⟨p, hp, rfl⟩ := List.mem_map.mp hname
    rw [← hlist p hp] at hmem
    refine ⟨p, hp, hmem, hexclusive.holds p (h.acquired p hp) x hmem, fun q hq hx' => ?_⟩
    by_contra hne
    exact hexclusive.apart q p hne hq (h.acquired p hp) x hx' hmem
  · intro p hp q hq
    rw [hlist p hp, hlist q hq]
    exact hbalanced _ (List.mem_map_of_mem hp) _ (List.mem_map_of_mem hq)

end Allotting

/-! ## Two partitioners of two items -/

def twoItems : Partitioners Bool Bool Int Bool where
  identifier second := if second then str "a" else str "b"
  node second := if second then str "4d2-a" else str "16e-b"
  set _ := [0, 1]
  text := reprInt
  owner i := i
  locks _ := twoLocks
  maker _ l := l
  kind_eq := twoLocks_kind

namespace Allotting

/-- Partitioner `p` reads that both are there, and gets the lock of its item. -/
def allocating (p : Bool) (x : Int) : List (PartitionAct twoItems) :=
  [.settle p false, .go p, .split p [twoItems.node false, twoItems.node true], .take p p,
    .lock p (reprInt x) (.thread p .look), .lock p (reprInt x) (.thread p .attempt),
    .lock p (reprInt x) (.thread p .ensure), .lock p (reprInt x) (.thread p (.find [])),
    .lock p (reprInt x) (.create p 0), .lock p (reprInt x) (.thread p .store),
    .lock p (reprInt x) (.thread p .contend),
    .lock p (reprInt x) (.thread p (.compare [(twoLocks.config p).nodeName 0])),
    .lock p (reprInt x) (.thread p .mark)] ++ List.replicate 6 (.go p)

def bothAllocate : Allotting twoItems :=
  (allotting twoItems).exec .new ([.join false, .join true] ++ allocating true 0 ++ allocating false 1)

theorem every_item_is_owned_bothAllocate :
    (∀ x ∈ [0, 1], ∃ p ∈ [false, true], x ∈ (bothAllocate.state.objects p).partitionSet ∧
      bothAllocate.state.Holds p x ∧
      ∀ q, (bothAllocate.state.objects q).state = .acquired →
        x ∈ (bothAllocate.state.objects q).partitionSet → q = p) ∧
    ∀ p ∈ [false, true], ∀ q ∈ [false, true], (bothAllocate.state.objects p).partitionSet.length ≤
      (bothAllocate.state.objects q).partitionSet.length + 1 := by
  have hreach : (allotting twoItems).Reach (fun s a => s.state.Orderly a) bothAllocate :=
    .of_legal (by decide +kernel)
  have hagreed : bothAllocate.Agreed [false, true] [0, 1] :=
    ⟨by decide +kernel, by decide +kernel, by decide +kernel⟩
  exact every_item_is_owned hreach (by decide) (by decide +kernel) (by decide) hagreed

end Allotting

end Kazoo
