import Kazoo.Recipe.PartitionOwnership
import Kazoo.Recipe.SpentLocks

/-!
# Stored locks

Where the lock objects of the partitioners are: in `_locks` of the partitioner that has made them, in
the hands of an allocation thread, or spent.
-/

namespace Kazoo

/-- In `_allocate_transition`, with a lock object that may be acquired and is not in `_locks` yet. -/
def PartitionStage.Keeps : PartitionStage → Prop
  | .acquiring | .appending => True
  | _ => False

theorem PartitionStage.Keeps.takes {stage : PartitionStage} (h : stage.Keeps) : stage.Takes := by
  cases stage <;> first | exact h.elim | trivial

/-- With no lock object in its hands, and not about to go on from a `release`. -/
def PartitionStage.Rests : PartitionStage → Prop
  | .freed _ => False
  | stage => ¬ stage.Takes

theorem PartitionStage.Rests.not_takes {stage : PartitionStage} (h : stage.Rests) : ¬ stage.Takes := by
  cases stage <;> first | exact h | exact h.elim

/-- Without the history of the clean-ups. -/
theorem Attempts.Neat.forget {ι : Type} {L : Locks ι} {s : Attempts L} (h : s.Neat) :
    Attempts.Neat ⟨s.world, fun _ => false⟩ where
  locks l :=
    ⟨(h.locks l).alone, (h.locks l).tried, (h.locks l).creating, (h.locks l).deleting,
      fun h' => absurd h' Bool.false_ne_true⟩
  late := h.late

namespace PartitionThread

variable {κ ι : Type}

def Takes (t : PartitionThread κ ι) (lock : PyStr × ι) : Prop := t.stage.Takes ∧ t.lock = some lock

def Keeps (t : PartitionThread κ ι) (lock : PyStr × ι) : Prop := t.stage.Keeps ∧ t.lock = some lock

def Acquires (t : PartitionThread κ ι) (lock : PyStr × ι) : Prop :=
  t.stage = .acquiring ∧ t.lock = some lock

/-- `lock.release` has returned without an exception. -/
def Freed (t : PartitionThread κ ι) (lock : PyStr × ι) : Prop :=
  (∃ caller, t.stage = .freed caller) ∧ t.thrown = none ∧ t.remaining.head? = some lock

theorem Acquires.keeps {t : PartitionThread κ ι} {lock : PyStr × ι} (h : t.Acquires lock) :
    t.Keeps lock := ⟨h.1 ▸ trivial, h.2⟩

theorem Keeps.takes {t : PartitionThread κ ι} {lock : PyStr × ι} (h : t.Keeps lock) : t.Takes lock :=
  ⟨h.1.takes, h.2⟩

end PartitionThread

namespace Partitions

variable {π θ κ ι : Type} {P : Partitioners π θ κ ι} {s s' : Partitions P}

/-! ## The condition -/

/-- Each `acquire` reads its own children as they are; what raises in it is a `KazooException`, and not
the clean-up; a create that has raised is carried out only while the same `acquire` is going on. -/
def Clean (s : Partitions P) : PartitionAct P → Prop
  | .lock _ name act =>
    Attempts.Careful ⟨s.worlds name, fun _ => false⟩ act ∧ (s.worlds name).Handles act
  | .server name act =>
    Attempts.Careful ⟨s.worlds name, fun _ => false⟩ act ∧ (s.worlds name).Timely act
  | _ => True

instance (s : Partitions P) (a : PartitionAct P) : Decidable (s.Clean a) := by
  induction a using PartitionAct.casesOn
  all_goals (dsimp only [Clean]; infer_instance)

/-! ## The accounts -/

/-- A lock object that nobody but the thread `i` knows. -/
structure Hand (s : Partitions P) (i : θ) (lock : PyStr × ι) : Prop where
  made : s.made lock.1 lock.2 = true
  maker : P.maker lock.1 lock.2 = P.owner i
  unstored : ∀ p, lock ∉ (s.objects p).locks
  unreleased : ∀ j, lock ∉ (s.threads j).remaining
  alone : ∀ j, (s.threads j).Takes lock → j = i

structure Accounted (s : Partitions P) : Prop where
  neat : ∀ name, Attempts.Neat ⟨s.worlds name, fun _ => false⟩
  traced : ∀ name, (s.worlds name).Traced
  idle : ∀ name l, (∀ j, ¬ (s.threads j).Acquires (name, l)) →
    ((s.worlds name).locks l).stage = .absent
  fresh : ∀ name l, s.made name l = false → (s.worlds name).locks l = .new
  locks : ∀ p lock, lock ∈ (s.objects p).locks →
    s.made lock.1 lock.2 = true ∧ P.maker lock.1 lock.2 = p
  nodup : ∀ p, (s.objects p).locks.Nodup
  remaining : ∀ j lock, lock ∈ (s.threads j).remaining → s.made lock.1 lock.2 = true
  hands : ∀ i lock, (s.threads i).Takes lock → s.Hand i lock
  uncalled : ∀ i name l, (s.threads i).Takes (name, l) → ((s.worlds name).locks l).releasing = []
  -- a lock object that is neither stored nor kept is not acquired
  spent : ∀ name l, (name, l) ∉ (s.objects (P.maker name l)).locks →
    (∀ j, ¬ (s.threads j).Keeps (name, l)) → ((s.worlds name).locks l).isAcquired = false
  freed : ∀ j name l, (s.threads j).Freed (name, l) → ((s.worlds name).locks l).isAcquired = false

theorem neat_worlds_new (name : PyStr) :
    Attempts.Neat ⟨(new : Partitions P).worlds name, fun _ => false⟩ := Attempts.neat_new

theorem accounted_new : (new : Partitions P).Accounted where
  neat := neat_worlds_new
  traced := fun _ _ => LockObject.traced_new fun n hn => by
    obtain ⟨owner, hmem⟩ := hn
    cases hmem
  idle := fun _ _ _ => rfl
  fresh := fun _ _ _ => rfl
  locks := fun _ _ h => absurd h List.not_mem_nil
  nodup := fun _ => List.nodup_nil
  remaining := fun _ _ h => absurd h List.not_mem_nil
  hands := fun _ _ h => h.1.elim
  uncalled := fun _ _ _ h => h.1.elim
  spent := fun _ _ _ _ => rfl
  freed := fun _ _ _ ⟨⟨_, h⟩, _⟩ => by cases h

/-- What the accounts do not speak of has changed. -/
theorem Accounted.congr (h : s.Accounted) (hworlds : s'.worlds = s.worlds) (hmade : s'.made = s.made)
    (hlocks : ∀ p, (s'.objects p).locks = (s.objects p).locks) (hthreads : s'.threads = s.threads) :
    s'.Accounted := by
  have hhand : ∀ i lock, s.Hand i lock → s'.Hand i lock := by
    intro i lock hhand
    refine ⟨?_, hhand.maker, fun p => ?_, ?_, ?_⟩
    · rw [hmade]
      exact hhand.made
    · rw [hlocks]
      exact hhand.unstored p
    · rw [hthreads]
      exact hhand.unreleased
    · rw [hthreads]
      exact hhand.alone
  refine ⟨?_, ?_, ?_, ?_, fun p => ?_, fun p => ?_, ?_, fun i lock htakes => hhand i lock ?_, ?_,
    fun name l => ?_, ?_⟩
  · rw [hworlds]
    exact h.neat
  · rw [hworlds]
    exact h.traced
  · rw [hworlds, hthreads]
    exact h.idle
  · rw [hworlds, hmade]
    exact h.fresh
  · rw [hlocks, hmade]
    exact h.locks p
  · rw [hlocks]
    exact h.nodup p
  · rw [hthreads, hmade]
    exact h.remaining
  · rw [hthreads] at htakes
    exact h.hands i lock htakes
  · rw [hthreads, hworlds]
    exact h.uncalled
  · rw [hlocks, hthreads, hworlds]
    exact h.spent name l
  · rw [hthreads, hworlds]
    exact h.freed

variable [DecidableEq π] [DecidableEq θ] [DecidableEq ι] {i : θ}

omit [DecidableEq θ] [DecidableEq ι] in
theorem locks_setObject {p : π} {o : PartitionerObject κ ι} (hlocks : o.locks = (s.objects p).locks)
    (q : π) : ((s.setObject p o).objects q).locks = (s.objects q).locks := by
  by_cases hq : q = p
  · subst hq
    rw [setObject_objects_self]
    exact hlocks
  · rw [setObject_objects_of_ne hq]

omit [DecidableEq θ] [DecidableEq ι] in
theorem Accounted.setObject (h : s.Accounted) {p : π} {o : PartitionerObject κ ι}
    (hlocks : o.locks = (s.objects p).locks) : (s.setObject p o).Accounted :=
  h.congr rfl rfl (locks_setObject hlocks) rfl

/-! ## A thread goes on -/

variable {o : PartitionerObject κ ι} {t : PartitionThread κ ι}

omit [DecidableEq ι] in
/-- What a thread has in its hands stays there, and nobody else gets it. -/
theorem Hand.moved {j : θ} {lock : PyStr × ι} (h : s.Hand j lock)
    (hj : ((s.moved i o t).threads j).Takes lock)
    (hlocks : lock ∈ o.locks → lock ∈ (s.object i).locks ∨
      (s.threads i).Takes lock ∧ ¬ t.stage.Takes)
    (hremaining : lock ∈ t.remaining → lock ∈ (s.threads i).remaining ∨ lock ∈ (s.object i).locks)
    (htakes : t.Takes lock → s.Hand i lock) : (s.moved i o t).Hand j lock := by
  have hself : (s.moved i o t).threads i = t := by rw [moved_thread, if_pos rfl]
  have hother : ∀ k, k ≠ i → (s.moved i o t).threads k = s.threads k := fun k hk => by
    rw [moved_thread, if_neg hk]
  have hi : (s.threads i).Takes lock → t.stage.Takes := fun htaken => by
    have heq := h.alone i htaken
    rw [← heq, hself] at hj
    exact hj.1
  refine ⟨h.made, h.maker, fun p => ?_, fun k => ?_, fun k hk => ?_⟩
  · rw [moved_object]
    split
    · intro hmem
      rcases hlocks hmem with hmem | ⟨htaken, hdrop⟩
      · exact h.unstored _ hmem
      · exact hdrop (hi htaken)
    · exact h.unstored p
  · by_cases hki : k = i
    · subst hki
      rw [hself]
      intro hmem
      rcases hremaining hmem with hmem | hmem
      · exact h.unreleased _ hmem
      · exact h.unstored _ hmem
    · rw [hother k hki]
      exact h.unreleased k
  · by_cases hki : k = i
    · subst hki
      by_cases hjk : j = k
      · exact hjk.symm
      rw [hself] at hk
      rw [hother j hjk] at hj
      exact ((htakes hk).alone j hj).symm
    · rw [hother k hki] at hk
      exact h.alone k hk

omit [DecidableEq ι] in
theorem Accounted.moved (h : s.Accounted)
    (hlocks : ∀ lock ∈ o.locks, lock ∈ (s.object i).locks ∨
      (s.threads i).Takes lock ∧ ¬ t.stage.Takes)
    (hnodup : o.locks.Nodup)
    (hremaining : ∀ lock ∈ t.remaining, lock ∈ (s.threads i).remaining ∨ lock ∈ (s.object i).locks)
    (htakes : ∀ name l, t.Takes (name, l) →
      s.Hand i (name, l) ∧ ((s.worlds name).locks l).releasing = [])
    (hidle : ∀ name l, (s.threads i).Acquires (name, l) → ¬ t.Acquires (name, l) →
      ((s.worlds name).locks l).stage = .absent)
    (hspent : ∀ name l, (name, l) ∈ (s.object i).locks ∨ (s.threads i).Keeps (name, l) →
      (name, l) ∉ o.locks → ¬ t.Keeps (name, l) → ((s.worlds name).locks l).isAcquired = false)
    (hfreed : ∀ name l, t.Freed (name, l) → ((s.worlds name).locks l).isAcquired = false) :
    (s.moved i o t).Accounted := by
  have hself : (s.moved i o t).threads i = t := by rw [moved_thread, if_pos rfl]
  have hother : ∀ j, j ≠ i → (s.moved i o t).threads j = s.threads j := fun j hj => by
    rw [moved_thread, if_neg hj]
  have howner : (s.moved i o t).objects (P.owner i) = o := by rw [moved_object, if_pos rfl]
  have hobject : ∀ p, p ≠ P.owner i → (s.moved i o t).objects p = s.objects p := fun p hp => by
    rw [moved_object, if_neg hp]
  refine ⟨h.neat, h.traced, fun name l hnone => ?_, h.fresh, fun p lock => ?_, fun p => ?_,
    fun j lock => ?_, fun j lock hj => ?_, fun j name l hj => ?_, fun name l hnot hnone => ?_,
    fun j name l => ?_⟩
  · by_cases hi : (s.threads i).Acquires (name, l)
    · exact hidle name l hi (hself ▸ hnone i)
    · refine h.idle name l fun j => ?_
      by_cases hj : j = i
      · exact hj ▸ hi
      · exact hother j hj ▸ hnone j
  · by_cases hp : p = P.owner i
    · subst hp
      rw [howner]
      intro hmem
      rcases hlocks lock hmem with hmem | ⟨htaken, -⟩
      · exact h.locks _ lock hmem
      · have hhand := h.hands i lock htaken
        exact ⟨hhand.made, hhand.maker⟩
    · rw [hobject p hp]
      exact h.locks p lock
  · by_cases hp : p = P.owner i
    · subst hp
      rw [howner]
      exact hnodup
    · rw [hobject p hp]
      exact h.nodup p
  · by_cases hj : j = i
    · subst hj
      rw [hself]
      intro hmem
      rcases hremaining lock hmem with hmem | hmem
      · exact h.remaining j lock hmem
      · exact (h.locks _ lock hmem).1
    · rw [hother j hj]
      exact h.remaining j lock
  · refine Hand.moved ?_ hj (hlocks lock) (hremaining lock) fun htaken => (htakes lock.1 lock.2 htaken).1
    by_cases hji : j = i
    · subst hji
      rw [hself] at hj
      exact (htakes lock.1 lock.2 hj).1
    · rw [hother j hji] at hj
      exact h.hands j lock hj
  · by_cases hji : j = i
    · subst hji
      rw [hself] at hj
      exact (htakes name l hj).2
    · rw [hother j hji] at hj
      exact h.uncalled j name l hj
  · by_cases hi : (name, l) ∈ (s.object i).locks ∨ (s.threads i).Keeps (name, l)
    · refine hspent name l hi ?_ (hself ▸ hnone i)
      -- it has been made by the partitioner of thread `i`
      have hmaker : P.maker name l = P.owner i := by
        rcases hi with hmem | hkeeps
        · exact (h.locks _ _ hmem).2
        · exact (h.hands i _ hkeeps.takes).maker
      rw [hmaker, howner] at hnot
      exact hnot
    · obtain ⟨hunstored, hunkept⟩ := not_or.mp hi
      refine h.spent name l ?_ fun j => ?_
      · by_cases hp : P.maker name l = P.owner i
        · rw [hp]
          exact hunstored
        · rw [hobject _ hp] at hnot
          exact hnot
      · by_cases hj : j = i
        · exact hj ▸ hunkept
        · exact hother j hj ▸ hnone j
  · by_cases hj : j = i
    · subst hj
      rw [hself]
      exact hfreed name l
    · rw [hother j hj]
      exact h.freed j name l

omit [DecidableEq ι] in
/-- A thread that keeps no lock object goes on. -/
theorem Accounted.goOn (h : s.Accounted) (hkeeps : ¬ (s.threads i).stage.Keeps)
    (hremaining : ∀ lock ∈ t.remaining, lock ∈ (s.threads i).remaining ∨ lock ∈ (s.object i).locks)
    (htakes : t.stage.Takes → (s.threads i).stage.Takes ∧ t.lock = (s.threads i).lock)
    (hfreed : ∀ name l, t.Freed (name, l) → ((s.worlds name).locks l).isAcquired = false) :
    (s.setThread i t).Accounted := by
  rw [← moved_self]
  refine h.moved (fun lock hmem => .inl hmem) (h.nodup _) hremaining (fun name l htaken => ?_)
    (fun name l hacquires => absurd hacquires.keeps.1 hkeeps) (fun name l hheld hnot => ?_) hfreed
  · obtain ⟨hstage, hlock⟩ := htakes htaken.1
    have htaken' : (s.threads i).Takes (name, l) := ⟨hstage, hlock ▸ htaken.2⟩
    exact ⟨h.hands i _ htaken', h.uncalled i name l htaken'⟩
  · rcases hheld with hmem | hheld
    · exact absurd hmem hnot
    · exact absurd hheld.1 hkeeps

omit [DecidableEq ι] in
theorem Accounted.setStage (h : s.Accounted) {stage : PartitionStage}
    (hkeeps : ¬ (s.threads i).stage.Keeps) (htakes : stage.Takes → (s.threads i).stage.Takes)
    (hfreed : ∀ caller, stage ≠ .freed caller) : (s.setStage i stage).Accounted := by
  refine h.goOn hkeeps (fun _ hmem => .inl hmem) (fun hstage => ⟨htakes hstage, rfl⟩)
    fun name l hfreed' => ?_
  obtain ⟨⟨caller, hstage⟩, -⟩ := hfreed'
  exact absurd hstage (hfreed caller)

omit [DecidableEq ι] in
theorem Accounted.setThread (h : s.Accounted) (hkeeps : ¬ (s.threads i).stage.Keeps)
    (hremaining : ∀ lock ∈ t.remaining, lock ∈ (s.threads i).remaining ∨ lock ∈ (s.object i).locks)
    (hrests : t.stage.Rests) : (s.setThread i t).Accounted := by
  refine h.goOn hkeeps hremaining (fun htakes => absurd htakes hrests.not_takes) fun name l hfreed => ?_
  obtain ⟨⟨caller, hstage⟩, -⟩ := hfreed
  rw [hstage] at hrests
  exact hrests.elim

omit [DecidableEq ι] in
/-- A thread that keeps no lock object leaves those that it has taken. -/
theorem Accounted.leave (h : s.Accounted) {stage : PartitionStage}
    (hkeeps : ¬ (s.threads i).stage.Keeps) (hrests : stage.Rests) : (s.setStage i stage).Accounted :=
  h.setThread hkeeps (fun _ hmem => .inl hmem) hrests

omit [DecidableEq ι] in
/-- A thread stays where it is. -/
theorem Accounted.stay (h : s.Accounted) (hstage : t.stage = (s.threads i).stage)
    (hlock : t.lock = (s.threads i).lock) (hremaining : t.remaining = (s.threads i).remaining)
    (hthrown : t.thrown = (s.threads i).thrown ∨ ∀ caller, t.stage ≠ .freed caller) :
    (s.setThread i t).Accounted := by
  have htakes : ∀ lock, t.Takes lock → (s.threads i).Takes lock := fun lock h =>
    ⟨hstage ▸ h.1, hlock ▸ h.2⟩
  rw [← moved_self]
  refine h.moved (fun lock hmem => .inl hmem) (h.nodup _) (fun lock hmem => .inl (hremaining ▸ hmem))
    (fun name l htaken => ⟨h.hands i _ (htakes _ htaken), h.uncalled i name l (htakes _ htaken)⟩)
    (fun name l hacquires hnot => ?_) (fun name l hheld hnot hdrop => ?_) fun name l hfreed => ?_
  · exact absurd ⟨hstage.trans hacquires.1, hlock.trans hacquires.2⟩ hnot
  · rcases hheld with hmem | hheld
    · exact absurd hmem hnot
    · exact absurd ⟨hstage ▸ hheld.1, hlock.trans hheld.2⟩ hdrop
  · obtain ⟨⟨caller, hcaller⟩, hnone, hhead⟩ := hfreed
    rcases hthrown with hthrown | hthrown
    · exact h.freed i name l ⟨⟨caller, hstage.symm.trans hcaller⟩, hthrown.symm.trans hnone,
        hremaining ▸ hhead⟩
    · exact absurd hcaller (hthrown caller)

/-! ## Steps on a lock path -/

variable {name : PyStr} {l : ι} {w : World (P.locks name)} {act : LockAct (P.locks name)}

omit [DecidableEq π] [DecidableEq θ] [DecidableEq ι] in
theorem Accounted.setWorld (h : s.Accounted) (hneat : Attempts.Neat ⟨w, fun _ => false⟩)
    (htraced : w.Traced)
    (hidle : ∀ l, (∀ j, ¬ (s.threads j).Acquires (name, l)) → (w.locks l).stage = .absent)
    (hfresh : ∀ l, s.made name l = false → w.locks l = .new)
    (huncalled : ∀ j l, (s.threads j).Takes (name, l) → (w.locks l).releasing = [])
    (hfree : ∀ l, (∀ j, ¬ (s.threads j).Keeps (name, l)) →
      ((s.worlds name).locks l).isAcquired = false → (w.locks l).isAcquired = false) :
    (s.setWorld name w).Accounted := by
  -- nobody keeps what `release` is called of
  have hfreed : ∀ j name l, (s.threads j).Freed (name, l) → ∀ k, ¬ (s.threads k).Keeps (name, l) :=
    fun j name l hfreed k hkeeps =>
      (h.hands k _ hkeeps.takes).unreleased j (List.mem_of_head? hfreed.2.2)
  refine ⟨?_, ?_, ?_, ?_, h.locks, h.nodup, h.remaining, fun i lock htakes => ?_, ?_, ?_, ?_⟩
  · exact forall_setWorld (Q := fun name w => Attempts.Neat ⟨w, fun _ => false⟩) hneat h.neat
  · exact forall_setWorld (Q := fun name w => w.Traced) htraced h.traced
  · exact forall_setWorld (Q := fun name w => ∀ l, (∀ j, ¬ (s.threads j).Acquires (name, l)) →
      (w.locks l).stage = .absent) hidle h.idle
  · exact forall_setWorld (Q := fun name w => ∀ l, s.made name l = false → w.locks l = .new) hfresh
      h.fresh
  · have hhand := h.hands i lock htakes
    exact ⟨hhand.made, hhand.maker, hhand.unstored, hhand.unreleased, hhand.alone⟩
  · intro i name'
    exact forall_setWorld (Q := fun name w => ∀ l, (s.threads i).Takes (name, l) →
      (w.locks l).releasing = []) (huncalled i) (fun name l => h.uncalled i name l) name'
  · exact forall_setWorld (Q := fun name w => ∀ l,
      (name, l) ∉ (s.objects (P.maker name l)).locks → (∀ j, ¬ (s.threads j).Keeps (name, l)) →
        (w.locks l).isAcquired = false)
      (fun l hnot hnone => hfree l hnone (h.spent name l hnot hnone)) h.spent
  · intro j name'
    exact forall_setWorld (Q := fun name w => ∀ l, (s.threads j).Freed (name, l) →
      (w.locks l).isAcquired = false)
      (fun l hj => hfree l (hfreed j name l hj) (h.freed j name l hj)) (fun name l => h.freed j name l)
      name'

omit [DecidableEq π] [DecidableEq θ] in
/-- Only the lock object that acts is to be looked at. -/
theorem Accounted.actor (h : s.Accounted) (hstep : (s.worlds name).step act = some w)
    (hactor : World.actor? act = some l)
    (hcareful : Attempts.Careful ⟨s.worlds name, fun _ => false⟩ act)
    (hmade : s.made name l = true) (htraced : w.Traced)
    (hidle : (∀ j, ¬ (s.threads j).Acquires (name, l)) → (w.locks l).stage = .absent)
    (huncalled : ∀ j, (s.threads j).Takes (name, l) → (w.locks l).releasing = [])
    (hfree : (∀ j, ¬ (s.threads j).Keeps (name, l)) →
      ((s.worlds name).locks l).isAcquired = false → (w.locks l).isAcquired = false) :
    (s.setWorld name w).Accounted := by
  have hothers : ∀ l', l' ≠ l → w.locks l' = (s.worlds name).locks l' := fun l' hl =>
    World.locks_of_step hstep fun h' => hl (Option.some.inj (h'.symm.trans hactor))
  refine h.setWorld ((h.neat name).step hcareful hstep).forget htraced (fun l' hnone => ?_)
    (fun l' hfresh => ?_) (fun j l' htakes => ?_) fun l' hnone hold => ?_
  · by_cases hl : l' = l
    · subst hl
      exact hidle hnone
    · rw [hothers l' hl]
      exact h.idle name l' hnone
  · have hl : l' ≠ l := by
      rintro rfl
      exact Bool.false_ne_true (hfresh.symm.trans hmade)
    rw [hothers l' hl]
    exact h.fresh name l' hfresh
  · by_cases hl : l' = l
    · subst hl
      exact huncalled j htakes
    · rw [hothers l' hl]
      exact h.uncalled j name l' htakes
  · by_cases hl : l' = l
    · subst hl
      exact hfree hnone hold
    · rw [hothers l' hl]
      exact hold

omit [DecidableEq π] [DecidableEq θ] in
/-- A step inside `lock.acquire`. -/
theorem Accounted.lock (h : s.Accounted) (hstep : (s.worlds name).step act = some w)
    (hcareful : Attempts.Careful ⟨s.worlds name, fun _ => false⟩ act)
    (hhandles : (s.worlds name).Handles act) (hacquires : (s.threads i).Acquires (name, l))
    (hact : act.acquires l) :
    (s.setWorld name w).Accounted := by
  obtain ⟨a, hself, -⟩ := World.acquires_of_world hact hstep
  refine h.actor hstep (World.actor_of_acquires hact) hcareful
    (h.hands i _ hacquires.keeps.takes).made
    ((h.traced name).acquires (h.neat name) hcareful hhandles hact hstep) (fun hnone => absurd hacquires (hnone i)) (fun j htakes => ?_)
    fun hnone => absurd hacquires.keeps (hnone i)
  exact hself.releasing.trans (h.uncalled j name l htakes)

omit [DecidableEq π] [DecidableEq θ] [DecidableEq ι] in
/-- A lock object of which `release` is called is in no hands. -/
theorem Accounted.idle_of_remaining (h : s.Accounted) (hmem : (name, l) ∈ (s.threads i).remaining) :
    (∀ j, ¬ (s.threads j).Takes (name, l)) ∧ ((s.worlds name).locks l).stage = .absent := by
  have hnone : ∀ j, ¬ (s.threads j).Takes (name, l) := fun j htakes =>
    (h.hands j _ htakes).unreleased i hmem
  exact ⟨hnone, h.idle name l fun j hacquires => hnone j hacquires.keeps.takes⟩

omit [DecidableEq π] [DecidableEq θ] in
/-- `lock.release` is called. -/
theorem Accounted.call (h : s.Accounted) (hmem : (name, l) ∈ (s.threads i).remaining)
    (hstep : (s.worlds name).step (.thread l .release) = some w) : (s.setWorld name w).Accounted := by
  obtain ⟨hnone, habsent⟩ := h.idle_of_remaining hmem
  obtain ⟨htraced, habsent'⟩ := (h.traced name).calls habsent hstep
  refine h.actor hstep rfl trivial (h.remaining i _ hmem) htraced (fun _ => habsent')
    (fun j htakes => absurd htakes (hnone j)) fun _ hfree => ?_
  cases World.steps_of_step hstep with
  | thread _ ho =>
    cases ho
    rw [World.setLock_locks_self]
    exact hfree

omit [DecidableEq π] [DecidableEq θ] in
/-- A step inside `lock.release`. -/
theorem Accounted.free (h : s.Accounted) (hmem : (name, l) ∈ (s.threads i).remaining)
    (hact : act.releases l) (hstep : (s.worlds name).step act = some w) :
    (s.setWorld name w).Accounted := by
  obtain ⟨hnone, habsent⟩ := h.idle_of_remaining hmem
  obtain ⟨htraced, habsent'⟩ := (h.traced name).releases habsent hact hstep
  have hcareful : Attempts.Careful ⟨s.worlds name, fun _ => false⟩ act := by
    cases act with
    | thread l' act =>
      cases act with
      | find | clean => cases hact.2
      | _ => trivial
    | delete => trivial
    | _ => exact hact.elim
  exact h.actor hstep (World.actor_of_releases hact) hcareful (h.remaining i _ hmem) htraced
    (fun _ => habsent') (fun j htakes => absurd htakes (hnone j))
    fun _ => World.isAcquired_of_releases hact hstep

omit [DecidableEq π] [DecidableEq θ] in
/-- A step of the server on its own account. -/
theorem Accounted.unasked (h : s.Accounted)
    (hcareful : Attempts.Careful ⟨s.worlds name, fun _ => false⟩ act)
    (htimely : (s.worlds name).Timely act) (hunasked : act.unasked = true)
    (hstep : (s.worlds name).step act = some w) : (s.setWorld name w).Accounted := by
  have hlocks : ∀ l, w.locks l = (s.worlds name).locks l := fun l => by
    refine World.locks_of_step hstep ?_
    cases act <;> first | (cases hunasked; done) | (rintro ⟨⟩)
  refine h.setWorld ((h.neat name).step hcareful hstep).forget
    ((h.traced name).server hcareful htimely hunasked hstep) (fun l hnone => ?_) (fun l hfresh => ?_)
    (fun j l htakes => ?_) fun l _ hold => ?_
  · rw [hlocks]
    exact h.idle name l hnone
  · rw [hlocks]
    exact h.fresh name l hfresh
  · rw [hlocks]
    exact h.uncalled j name l htakes
  · rw [hlocks]
    exact hold

omit [DecidableEq π] [DecidableEq θ] in
theorem setMade_made (s : Partitions P) (name name' : PyStr) (l l' : ι) :
    (s.setMade name l).made name' l' = if name' = name ∧ l' = l then true else s.made name' l' := by
  show Function.update s.made name _ name' l' = _
  by_cases hname : name' = name
  · subst hname
    rw [Function.update_self, Function.update_apply]
    simp only [true_and]
  · rw [Function.update_of_ne hname, if_neg (fun h => hname h.1)]

omit [DecidableEq π] [DecidableEq θ] in
theorem Accounted.setMade (h : s.Accounted) (name : PyStr) (l : ι) : (s.setMade name l).Accounted := by
  have hmade : ∀ name' l', s.made name' l' = true → (s.setMade name l).made name' l' = true := by
    intro name' l' hold
    rw [setMade_made]
    split
    · rfl
    · exact hold
  refine ⟨h.neat, h.traced, h.idle, fun name' l' hnot => ?_, fun p lock hmem => ?_, h.nodup,
    fun j lock hmem => ?_, fun i lock htakes => ?_, h.uncalled, h.spent, h.freed⟩
  · refine h.fresh name' l' ?_
    by_contra hold
    rw [hmade name' l' (by simpa using hold)] at hnot
    cases hnot
  · obtain ⟨hold, hmaker⟩ := h.locks p lock hmem
    exact ⟨hmade _ _ hold, hmaker⟩
  · exact hmade _ _ (h.remaining j lock hmem)
  · have hhand := h.hands i lock htakes
    exact ⟨hmade _ _ hhand.made, hhand.maker, hhand.unstored, hhand.unreleased, hhand.alone⟩

omit [DecidableEq π] [DecidableEq θ] [DecidableEq ι] in
theorem not_keeps {stage : PartitionStage} (hstage : (s.threads i).stage = stage)
    (hnot : ¬ stage.Keeps) : ¬ (s.threads i).stage.Keeps := hstage ▸ hnot

/-- `lock.acquire` is entered, with a lock object that nobody else knows. -/
theorem Accounted.enter (h : s.Accounted) (hkeeps : ¬ (s.threads i).stage.Keeps)
    (hhand : s.Hand i (name, l)) (huncalled : ((s.worlds name).locks l).releasing = [])
    (hfree : ((s.worlds name).locks l).isAcquired = false)
    (hw : (s.worlds name).step (.thread l (.enter true true true)) = some w) :
    (s.entered i name l w).Accounted := by
  let t : PartitionThread κ ι :=
    { s.threads i with stage := .acquiring, lock := some (name, l), thrown := none }
  have hthread : (s.setThread i t).Accounted := by
    rw [← moved_self]
    refine h.moved (fun lock hmem => .inl hmem) (h.nodup _) (fun lock hmem => .inl hmem)
      (fun name' l' htakes => ?_) (fun _ _ hacquires => absurd hacquires.keeps.1 hkeeps)
      (fun name' l' hheld hnot => ?_) fun name' l' hfreed => ?_
    · cases htakes.2
      exact ⟨hhand, huncalled⟩
    · rcases hheld with hmem | hheld
      · exact absurd hmem hnot
      · exact absurd hheld.1 hkeeps
    · obtain ⟨⟨caller, hstage⟩, -⟩ := hfreed
      cases hstage
  have hacquires : ((s.setThread i t).threads i).Acquires (name, l) := by
    rw [setThread_threads_self]
    exact ⟨rfl, rfl⟩
  have huncalled' : (w.locks l).releasing = [] := by
    cases World.steps_of_step hw with
    | thread _ ho =>
      cases LockObject.steps_of_step ho
      rw [World.setLock_locks_self]
      exact huncalled
  exact hthread.actor hw rfl trivial hhand.made ((h.traced name).enters hfree huncalled hw)
    (fun hnone => absurd hacquires (hnone i)) (fun _ _ => huncalled')
    fun hnone => absurd hacquires.keeps (hnone i)

/-! ## Steps of the threads -/

omit [DecidableEq ι] in
/-- `lock.acquire` is over. -/
theorem Accounted.acquired_step (h : s.Accounted) (hacquires : (s.threads i).Acquires (name, l))
    (habsent : ((s.worlds name).locks l).stage = .absent) : (s.acquired i name l).Accounted := by
  have hgo : ∀ stage : PartitionStage, (¬ stage.Keeps → ((s.worlds name).locks l).isAcquired = false) →
      (∀ caller, stage ≠ .freed caller) → (s.setStage i stage).Accounted := by
    intro stage hfree hfreed
    have hheld : ∀ name' l', (s.threads i).lock = some (name', l') → (name', l') = (name, l) :=
      fun name' l' hlock => Option.some.inj (hlock.symm.trans hacquires.2)
    show (s.setThread i { s.threads i with stage := stage }).Accounted
    rw [← moved_self]
    refine h.moved (fun lock hmem => .inl hmem) (h.nodup _) (fun lock hmem => .inl hmem)
      (fun name' l' htakes => ?_) (fun name' l' hacquires' _ => ?_) (fun name' l' hheld' hnot hdrop => ?_)
      fun name' l' hfreed' => ?_
    · have htaken : (s.threads i).Takes (name', l') := ⟨hacquires.keeps.takes.1, htakes.2⟩
      exact ⟨h.hands i _ htaken, h.uncalled i _ _ htaken⟩
    · cases hheld name' l' hacquires'.2
      exact habsent
    · rcases hheld' with hmem | hkept
      · exact absurd hmem hnot
      · cases hheld name' l' hkept.2
        exact hfree fun hkeeps => hdrop ⟨hkeeps, hkept.2⟩
    · obtain ⟨⟨caller, hstage⟩, -⟩ := hfreed'
      exact absurd hstage (hfreed caller)
  unfold Partitions.acquired
  split
  · exact hgo _ (fun hkeeps => absurd trivial hkeeps) fun _ => (by rintro ⟨⟩)
  · next hfree =>
    have hfree := Bool.eq_false_iff.mpr hfree
    split
    · exact hgo _ (fun _ => hfree) fun _ => (by rintro ⟨⟩)
    · split
      · exact hgo _ (fun _ => hfree) fun _ => (by rintro ⟨⟩)
      · split
        · exact hgo _ (fun _ => hfree) fun _ => (by rintro ⟨⟩)
        · exact hgo _ (fun _ => hfree) fun _ => (by rintro ⟨⟩)

omit [DecidableEq ι] in
/-- `self._locks.append(lock)`. -/
theorem Accounted.append (h : s.Accounted) {lock : PyStr × ι} (hstage : (s.threads i).stage = .appending)
    (hlock : (s.threads i).lock = some lock) :
    (s.moved i { s.object i with locks := (s.object i).locks ++ [lock] }
      { s.threads i with
        stage := .testing .appended, position := (s.threads i).position + 1, lock := none }).Accounted := by
  have htaken : (s.threads i).Takes lock := ⟨hstage ▸ trivial, hlock⟩
  have hhand := h.hands i lock htaken
  refine h.moved (fun lock' hmem => ?_) ?_ (fun lock' hmem => .inl hmem) (fun name l htakes => htakes.1.elim)
    (fun name l hacquires => ?_) (fun name l hheld hnot => ?_) fun name l hfreed => ?_
  · rcases List.mem_append.mp hmem with hmem | hmem
    · exact .inl hmem
    · rw [List.mem_singleton.mp hmem]
      exact .inr ⟨htaken, id⟩
  · refine List.nodup_append.mpr ⟨h.nodup _, List.nodup_singleton _, ?_⟩
    rintro lock' hmem _ hmem' rfl
    rw [List.mem_singleton.mp hmem'] at hmem
    exact hhand.unstored _ hmem
  · cases hstage.symm.trans hacquires.1
  · refine absurd ?_ hnot
    rcases hheld with hmem | hkept
    · exact List.mem_append_left _ hmem
    · rw [Option.some.inj (hkept.2.symm.trans hlock)]
      exact List.mem_append_right _ (List.mem_singleton_self _)
  · obtain ⟨⟨caller, hstage⟩, -⟩ := hfreed
    cases hstage

/-- `self._locks.remove(lock)`, behind a `release` that has returned. -/
theorem Accounted.remove (h : s.Accounted) {lock : PyStr × ι} {rest : List (PyStr × ι)}
    {caller : ReleaseCaller} (hstage : (s.threads i).stage = .freed caller)
    (hthrown : (s.threads i).thrown = none) (hremaining : (s.threads i).remaining = lock :: rest) :
    (s.moved i { s.object i with locks := (s.object i).locks.erase lock }
      { s.threads i with stage := .iterating caller, remaining := rest }).Accounted := by
  have hfreed : (s.threads i).Freed lock := ⟨⟨caller, hstage⟩, hthrown, by rw [hremaining]; rfl⟩
  refine h.moved (fun lock' hmem => .inl (List.mem_of_mem_erase hmem)) ((h.nodup _).erase _)
    (fun lock' hmem => .inl ?_) (fun name l htakes => htakes.1.elim)
    (fun name l hacquires => ?_) (fun name l hheld hnot _ => ?_) fun name l hfreed' => ?_
  · rw [hremaining]
    exact List.mem_cons_of_mem _ hmem
  · cases hstage.symm.trans hacquires.1
  · rcases hheld with hmem | hkept
    · by_cases heq : (name, l) = lock
      · subst heq
        exact h.freed i name l hfreed
      · exact absurd ((List.mem_erase_of_ne heq).mpr hmem) hnot
    · exact absurd hkept.1 (by rw [hstage]; exact id)
  · obtain ⟨⟨caller, hstage⟩, -⟩ := hfreed'
    cases hstage

theorem Accounted.go (h : s.Accounted) (hstep : s.go i = some s') : s'.Accounted := by
  cases goes_of_go hstep with
  | acquired hstage hlock habsent => exact h.acquired_step ⟨hstage, hlock⟩ habsent
  | appends hstage hlock => exact h.append hstage hlock
  -- the other stages keep no lock object
  | settled hstage | taken hstage | doubts hstage | aborts hstage | doubted hstage | suspects hstage
  | suspected hstage | trusts hstage | reconsiders hstage | iterated hstage | missing hstage
  | throws hstage | fails hstage => exact h.leave (not_keeps hstage id) id
  | allocates hstage => exact h.setThread (not_keeps hstage id) (fun _ hmem => .inl hmem) id
  | @retakes name l w hstage hlock hw =>
    have htaken : (s.threads i).Takes (name, l) := ⟨hstage ▸ trivial, hlock⟩
    have hhand := h.hands i _ htaken
    refine h.enter (not_keeps hstage id) hhand (h.uncalled i name l htaken) ?_ hw
    refine h.spent name l (hhand.unstored _) fun j hj => ?_
    obtain rfl := hhand.alone j hj.takes
    exact not_keeps hstage id hj.1
  | @tested site hstage =>
    refine h.setStage (not_keeps hstage id) (fun htakes => ?_) fun _ => (by rintro ⟨⟩)
    rw [hstage]
    cases site <;> exact htakes
  | @resumes site hstage =>
    have hkeeps : ¬ (s.threads i).stage.Keeps := not_keeps hstage id
    cases site with
    | timedOut => exact h.setStage hkeeps (fun _ => hstage ▸ trivial) fun _ => (by rintro ⟨⟩)
    | appended | concluded => exact h.leave hkeeps id
  | relapses hstage =>
    have hobject : (s.setObject (P.owner i) ((s.object i).setState .release)).Accounted :=
      h.setObject rfl
    exact hobject.leave (not_keeps hstage id) id
  | watches hstage =>
    have hobject : (s.setObject (P.owner i)
      { s.object i with watches := (s.object i).watches + 1 }).Accounted := h.setObject rfl
    exact hobject.leave (not_keeps hstage id) id
  | concludes hstage =>
    have hobject : (s.setObject (P.owner i)
      { (s.object i).setState .acquired with partitionSet := (s.threads i).partitionSet }).Accounted :=
        h.setObject rfl
    exact hobject.leave (not_keeps hstage id) id
  | copies hstage => exact h.setThread (not_keeps hstage id) (fun _ hmem => .inr hmem) id
  | @iterates _ name l rest w hstage hremaining hw =>
    have hmem : (name, l) ∈ (s.threads i).remaining := by
      rw [hremaining]
      exact List.mem_cons_self
    have hcalled : ((s.setWorld name w).setReleased name l).Accounted :=
      (h.call hmem hw).congr rfl rfl (fun _ => rfl) rfl
    exact hcalled.setThread (not_keeps hstage id) (fun _ hmem => .inl hmem) id
  | removes hstage hremaining hthrown => exact h.remove hstage hthrown hremaining
  | @skips _ lock rest _ hstage hremaining =>
    have hrest : ∀ lock' ∈ rest, lock' ∈ (s.threads i).remaining ∨ lock' ∈ (s.object i).locks :=
      fun lock' hmem => .inl (by rw [hremaining]; exact List.mem_cons_of_mem _ hmem)
    exact h.setThread (not_keeps hstage id) hrest id
  | @released caller hstage =>
    cases caller with
    | finish => exact h.leave (not_keeps hstage id) id
    | releaseSet | abort =>
      refine h.leave (not_keeps hstage id) ?_
      split <;> exact id
  | reallocates hstage =>
    have hobject : (s.setObject (P.owner i) ((s.object i).setState .allocating)).Accounted :=
      h.setObject rfl
    exact hobject.leave (not_keeps hstage id) id
  | failsOut hstage =>
    have hobject : (s.setObject (P.owner i) ((s.object i).setState .failure)).Accounted :=
      h.setObject rfl
    refine hobject.leave (not_keeps hstage id) ?_
    split <;> exact id

/-- The thread makes a lock object, and enters `lock.acquire`. -/
theorem Accounted.take (h : s.Accounted) (hkeeps : ¬ (s.threads i).stage.Keeps)
    (hmade : s.made name l = false) (hmaker : P.maker name l = P.owner i)
    (hw : (s.worlds name).step (.thread l (.enter true true true)) = some w) :
    ((s.setMade name l).entered i name l w).Accounted := by
  -- nobody knows a lock object that has not been made
  have hfresh : ∀ {p : Prop}, s.made name l = true → p := fun heq =>
    absurd (hmade.symm.trans heq) Bool.false_ne_true
  have hnew := h.fresh name l hmade
  refine (h.setMade name l).enter hkeeps ⟨?_, hmaker, fun p hmem => ?_, fun j hmem => ?_,
    fun j htakes => ?_⟩ ?_ ?_ hw
  · rw [setMade_made, if_pos ⟨rfl, rfl⟩]
  · exact hfresh (h.locks p _ hmem).1
  · exact hfresh (h.remaining j _ hmem)
  · exact hfresh (h.hands j _ htakes).made
  · show ((s.worlds name).locks l).releasing = []
    rw [hnew]
    rfl
  · show ((s.worlds name).locks l).isAcquired = false
    rw [hnew]
    rfl

/-- A step inside `lock.release`, which may be the last. -/
theorem Accounted.freeing (h : s.Accounted) {caller : ReleaseCaller} {rest : List (PyStr × ι)}
    (hstage : (s.threads i).stage = .freeing caller)
    (hremaining : (s.threads i).remaining = (name, l) :: rest) (hact : act.releases l)
    (hstep : (s.worlds name).step act = some w) {freed : Prop} [Decidable freed]
    (hless : freed → (w.locks l).releasing.length < ((s.worlds name).locks l).releasing.length) :
    ((s.setWorld name w).setThread i { s.threads i with
      stage := if freed then .freed caller else .freeing caller
      thrown := if freed then (s.worlds name).raises? act else none }).Accounted := by
  have hmem : (name, l) ∈ (s.threads i).remaining := by
    rw [hremaining]
    exact List.mem_cons_self
  have hkeeps : ¬ (s.threads i).stage.Keeps := by
    rw [hstage]
    exact id
  refine (h.free hmem hact hstep).goOn hkeeps (fun _ hmem => .inl hmem) (fun htakes => ?_)
    fun name' l' hfreed => ?_
  · dsimp only at htakes
    split at htakes <;> exact htakes.elim
  · obtain ⟨⟨caller', hcaller⟩, hthrown, hhead⟩ := hfreed
    dsimp only at hcaller hthrown hhead
    rw [hremaining] at hhead
    cases hhead
    split at hcaller
    · next hover =>
      rw [if_pos hover] at hthrown
      show (((s.setWorld name w).worlds name).locks l).isAcquired = false
      rw [show (s.setWorld name w).worlds name = w from Function.update_self ..]
      exact (h.traced name).isAcquired_of_left hact hstep (hless hover) hthrown
    · cases hcaller

variable [LinearOrder κ] {a : PartitionAct P}

theorem Accounted.step (h : s.Accounted) (hclean : s.Clean a) (hstep : s.step a = some s') :
    s'.Accounted := by
  cases steps_of_step hstep with
  | @join p =>
    have hparty : (s.setParty (P.node p :: s.party)).Accounted := h.congr rfl rfl (fun _ => rfl) rfl
    exact hparty.setObject rfl
  | changeLate => exact h
  | change => exact h.setObject rfl
  | lose _ _ hstage | call _ hstage | splitRaised hstage | splitFail hstage =>
    exact h.leave (not_keeps hstage id) id
  | @updateAcquired i =>
    have hobject : (s.setObject (P.owner i) ((s.object i).setState .release)).Accounted :=
      h.setObject rfl
    exact hobject.stay rfl rfl rfl (.inl rfl)
  | update => exact h.stay rfl rfl rfl (.inl rfl)
  | @settle i failed _ hstage =>
    have hobject : (s.setObject (P.owner i)
      { s.object i with watches := (s.object i).watches - 1 }).Accounted := h.setObject rfl
    cases failed <;> exact hobject.leave (not_keeps hstage id) id
  | split hstage => exact h.setThread (not_keeps hstage id) (fun _ hmem => .inl hmem) id
  | take _ hstage hfresh hmaker hw => exact h.take (not_keeps hstage id) hfresh hmaker hw
  | @lock i name act l w hstage hlock hact hw =>
    refine (h.lock hw hclean.1 hclean.2 ⟨hstage, hlock⟩ hact).stay rfl rfl rfl (.inr fun caller => ?_)
    show (s.threads i).stage ≠ _
    rw [hstage]
    rintro ⟨⟩
  | free hstage hremaining hact hw => exact h.freeing hstage hremaining hact hw id
  | go => exact h.go hstep
  | @leave i carriedOut hstage =>
    have hobject : (s.setObject (P.owner i) { s.object i with participating := false }).Accounted :=
      h.setObject rfl
    cases carriedOut with
    | false => exact hobject.leave (not_keeps hstage id) id
    | true =>
      have hparty : ((s.setObject (P.owner i) { s.object i with participating := false }).setParty
          (s.party.erase (P.node (P.owner i)))).Accounted := hobject.congr rfl rfl (fun _ => rfl) rfl
      exact hparty.leave (not_keeps hstage id) id
  | regroup => exact h.congr rfl rfl (fun _ => rfl) rfl
  | server hunasked hw => exact h.unasked hclean.1 hclean.2 hunasked hw

end Partitions

end Kazoo
