import Kazoo.Recipe.LockingExclusion

/-!
# The lock nodes of a locking queue

Which lock nodes belong to the entries that the clients process, while no session expires.
-/

namespace Kazoo

/-- The check works on the lock node of the entry, which it has created. -/
def CheckStage.Locks : CheckStage → PyStr → Prop
  | .reading locked _ _, name | .undoing locked, name => locked = name
  | _, _ => False

theorem QueueEntries.present_subset_addAll {e : QueueEntries} {priority : Nat} (values : List Bytes) :
    e.present ⊆ (e.addAll priority values).present := by
  induction values generalizing e with
  | nil => exact fun x hx => hx
  | cons value values ih => exact fun x hx => ih (List.mem_cons_of_mem _ hx)

namespace Holdings

variable {κ ι : Type} [DecidableEq κ] [DecidableEq ι] {Q : LockingQueues κ ι} {s t : Holdings κ ι}
  {c d : κ} {i j : ι} {name : PyStr}

/-- The client processes the entry, which has not been consumed. -/
def Recorded (s : Holdings κ ι) (c : κ) (name : PyStr) : Prop :=
  s.entries.Has name ∧ ∃ entry ∈ (s.objects c).processing, entry.1 = name

/-- Nothing comes between the creation of a lock node and the record of its entry: no answer to the
creation is lost, no check gives up the lock that it has created, and a check takes an entry only for a
call of `get` that still waits. -/
def Undisturbed (Q : LockingQueues κ ι) (s : Holdings κ ι) : HoldingAct κ ι → Prop
  | .check i =>
    match (s.gets i).check with
    | .reading name _ _ =>
      s.entries.Has name →
        (s.objects (Q.client i)).stage = .getting i ∨ s.Recorded (Q.client i) name
    | _ => True
  | .loseCheck i carriedOut again =>
    match (s.gets i).check with
    | .creating name _ _ =>
      carriedOut = true → s.lock? name = none → s.Recorded (Q.client i) name
    | .reading name _ _ =>
      again = false → s.lock? name = some (Q.id (Q.client i)) → s.Recorded (Q.client i) name
    | .undoing name => carriedOut = false → s.lock? name ≠ some (Q.id (Q.client i))
    | _ => True
  | _ => True

instance (s : Holdings κ ι) (act : HoldingAct κ ι) : Decidable (s.Undisturbed Q act) := by
  induction act using HoldingAct.casesOn
  case check i =>
    dsimp only [Undisturbed, Recorded, QueueEntries.Has]
    generalize (s.gets i).check = stage
    cases stage <;> (dsimp only; infer_instance)
  case loseCheck i carriedOut again =>
    dsimp only [Undisturbed, Recorded, QueueEntries.Has]
    generalize (s.gets i).check = stage
    cases stage <;> (dsimp only; infer_instance)
  all_goals (dsimp only [Undisturbed]; infer_instance)

/-- None of the calls and the callbacks of the client runs. -/
def Idle (Q : LockingQueues κ ι) (s : Holdings κ ι) (c : κ) : Prop :=
  (s.objects c).stage = .absent ∧ ∀ i, Q.client i = c → (s.gets i).check = .absent

/-- A check of the client works on the lock node. -/
def Working (Q : LockingQueues κ ι) (s : Holdings κ ι) (c : κ) (name : PyStr) : Prop :=
  ∃ i, Q.client i = c ∧ (s.gets i).check.Locks name

/-- A call of `get` that still waits has the entry. -/
def Awaited (s : Holdings κ ι) (c : κ) (name : PyStr) : Prop :=
  ∃ i, (s.objects c).stage = .getting i ∧ ∃ entry ∈ (s.gets i).value, entry.1 = name

/-- Every lock node of a client is accounted for. -/
structure Accounted (Q : LockingQueues κ ι) (s : Holdings κ ι) : Prop where
  locks : ∀ c name, s.lock? name = some (Q.id c) →
    s.Working Q c name ∨ s.entries.Has name ∧ (s.Awaited c name ∨ s.Recorded c name)
  waiting : ∀ c i, (s.objects c).stage = .getting i →
    Q.client i = c ∧ (s.objects c).processing = none ∧ (s.gets i).called = true
  fresh : ∀ i, (s.gets i).called = false → s.gets i = .new
  inline : ∀ i, (s.gets i).inline = true →
    (s.objects (Q.client i)).stage = .getting i ∧ (s.gets i).check ≠ .absent
  valued : ∀ i, (s.gets i).value ≠ none → (s.gets i).check = .absent

omit [DecidableEq κ] [DecidableEq ι] in
theorem accounted_new : Accounted Q (new : Holdings κ ι) where
  locks := fun _ _ h => nomatch h
  waiting := fun _ _ h => nomatch h
  fresh := fun _ _ => rfl
  inline := fun _ h => nomatch h
  valued := fun _ h => absurd rfl h

/-! ## What the threads do -/

omit [DecidableEq κ] in
theorem gets_setGet (g : LockingGet) : (s.setGet i g).gets i = g := Function.update_self ..

omit [DecidableEq κ] in
theorem gets_setGet_of_ne {g : LockingGet} (hj : j ≠ i) : (s.setGet i g).gets j = s.gets j :=
  Function.update_of_ne hj ..

/-- The calls are the same but for the watches. -/
def SameCall (g g' : LockingGet) : Prop :=
  g'.called = g.called ∧ g'.check = g.check ∧ g'.inline = g.inline ∧ g'.value = g.value ∧
    (g = .new → g' = .new)

omit [DecidableEq κ] [DecidableEq ι] in
/-- The server may take lock nodes away, and create one for a check that works on it. -/
theorem Accounted.server (h : Accounted Q s)
    (hobjects : ∀ c, (t.objects c).stage = (s.objects c).stage ∧
      (t.objects c).processing = (s.objects c).processing)
    (hgets : ∀ i, SameCall (s.gets i) (t.gets i))
    (hlocks : ∀ c name, t.lock? name = some (Q.id c) →
      s.lock? name = some (Q.id c) ∧ (s.entries.Has name → t.entries.Has name) ∨
        s.Working Q c name ∨ t.Recorded c name) :
    Accounted Q t := by
  have hworking {c : κ} {name : PyStr} (h : s.Working Q c name) : t.Working Q c name := by
    obtain ⟨i, hclient, hlocks⟩ := h
    exact ⟨i, hclient, (hgets i).2.1.symm ▸ hlocks⟩
  refine ⟨fun c name hlock => ?_, fun c i => ?_, fun i => ?_, fun i => ?_, fun i => ?_⟩
  · rcases hlocks c name hlock with ⟨hlock, hhas⟩ | hnew
    · rcases h.locks c name hlock with hold | ⟨hthere, hrest⟩
      · exact .inl (hworking hold)
      · refine .inr ⟨hhas hthere, hrest.imp ?_ ?_⟩
        · rintro ⟨i, hstage, entry, hentry, hname⟩
          exact ⟨i, (hobjects c).1.trans hstage, entry, (hgets i).2.2.2.1.symm ▸ hentry, hname⟩
        · rintro ⟨-, entry, hentry, hname⟩
          exact ⟨hhas hthere, entry, (hobjects c).2.symm ▸ hentry, hname⟩
    · rcases hnew with hworks | hrecorded
      · exact .inl (hworking hworks)
      · exact .inr ⟨hrecorded.1, .inr hrecorded⟩
  · rw [(hobjects c).1, (hobjects c).2, (hgets i).1]
    exact h.waiting c i
  · rw [(hgets i).1]
    exact fun hnot => (hgets i).2.2.2.2 (h.fresh i hnot)
  · rw [(hgets i).2.2.1, (hgets i).2.1, (hobjects _).1]
    exact h.inline i
  · rw [(hgets i).2.1, (hgets i).2.2.2.1]
    exact h.valued i

omit [DecidableEq κ] in
/-- A check goes on; the lock node that it leaves is recorded, or awaited. -/
theorem Accounted.setGet (h : Accounted Q s) {g : LockingGet}
    (hcalled : g.called = true)
    (hinline : g.inline = true →
      (s.objects (Q.client i)).stage = .getting i ∧ g.check ≠ .absent)
    (hvalued : g.value ≠ none → g.check = .absent)
    (hkept : (s.gets i).value ≠ none → g.value = (s.gets i).value)
    (hlocks : ∀ name, (s.gets i).check.Locks name → s.lock? name = some (Q.id (Q.client i)) →
      g.check.Locks name ∨ s.entries.Has name ∧
        ((s.objects (Q.client i)).stage = .getting i ∧ (∃ entry ∈ g.value, entry.1 = name) ∨
          s.Recorded (Q.client i) name)) :
    Accounted Q (s.setGet i g) := by
  have hself := gets_setGet (s := s) (i := i) g
  have hother {j : ι} (hj : j ≠ i) := gets_setGet_of_ne (s := s) (g := g) hj
  refine ⟨fun c name hlock => ?_, fun c j hstage => ?_, fun j => ?_, fun j => ?_, fun j => ?_⟩
  · rcases h.locks c name hlock with ⟨j, rfl, hworks⟩ | ⟨hthere, hrest⟩
    · by_cases hj : j = i
      · subst hj
        rcases hlocks name hworks hlock with hworks | ⟨hthere, ⟨hstage, hvalue⟩ | hrecorded⟩
        · exact .inl ⟨j, rfl, hself.symm ▸ hworks⟩
        · exact .inr ⟨hthere, .inl ⟨j, hstage, hself.symm ▸ hvalue⟩⟩
        · exact .inr ⟨hthere, .inr hrecorded⟩
      · exact .inl ⟨j, rfl, (hother hj).symm ▸ hworks⟩
    · refine .inr ⟨hthere, hrest.imp_left ?_⟩
      rintro ⟨j, hstage, entry, hentry, hname⟩
      refine ⟨j, hstage, entry, ?_, hname⟩
      by_cases hj : j = i
      · subst hj
        rw [hself, hkept (Option.ne_none_iff_exists'.mpr ⟨entry, hentry⟩)]
        exact hentry
      · rw [hother hj]
        exact hentry
  · obtain ⟨hclient, hprocessing, hbefore⟩ := h.waiting c j hstage
    refine ⟨hclient, hprocessing, ?_⟩
    by_cases hj : j = i
    · subst hj
      rw [hself, hcalled]
    · rw [hother hj]
      exact hbefore
  · by_cases hj : j = i
    · subst hj
      rw [hself, hcalled]
      exact fun h => nomatch h
    · rw [hother hj]
      exact h.fresh j
  · by_cases hj : j = i
    · subst hj
      rw [hself]
      exact hinline
    · rw [hother hj]
      exact h.inline j
  · by_cases hj : j = i
    · subst hj
      rw [hself]
      exact hvalued
    · rw [hother hj]
      exact h.valued j

omit [DecidableEq ι] in
/-- The main thread goes on; what it forgets is no entry that is locked. -/
theorem Accounted.setObject (h : Accounted Q s) {o : HolderObject ι}
    (hwaiting : ∀ i, o.stage = .getting i →
      Q.client i = c ∧ o.processing = none ∧ (s.gets i).called = true)
    (hinline : ∀ i, Q.client i = c → (s.gets i).inline = true → o.stage = .getting i)
    (hlocks : ∀ name, s.lock? name = some (Q.id c) → s.entries.Has name →
      s.Awaited c name ∨ s.Recorded c name → s.Working Q c name ∨
        (∃ i, o.stage = .getting i ∧ ∃ entry ∈ (s.gets i).value, entry.1 = name) ∨
          ∃ entry ∈ o.processing, entry.1 = name) :
    Accounted Q (s.setObject c o) := by
  have hself : (s.setObject c o).objects c = o := Function.update_self ..
  have hother {d : κ} (hd : d ≠ c) : (s.setObject c o).objects d = s.objects d :=
    Function.update_of_ne hd ..
  refine ⟨fun d name hlock => ?_, fun d => ?_, h.fresh, fun i hi => ?_, h.valued⟩
  · rcases h.locks d name hlock with hworks | ⟨hthere, hrest⟩
    · exact .inl hworks
    · by_cases hd : d = c
      · subst hd
        rcases hlocks name hlock hthere hrest with hworks | ⟨i, hstage, hvalue⟩ | hprocessing
        · exact .inl hworks
        · exact .inr ⟨hthere, .inl ⟨i, hself.symm ▸ hstage, hvalue⟩⟩
        · exact .inr ⟨hthere, .inr ⟨hthere, hself.symm ▸ hprocessing⟩⟩
      · refine .inr ⟨hthere, hrest.imp ?_ ?_⟩
        · rintro ⟨i, hstage, hvalue⟩
          exact ⟨i, (hother hd).symm ▸ hstage, hvalue⟩
        · rintro ⟨-, hprocessing⟩
          exact ⟨hthere, (hother hd).symm ▸ hprocessing⟩
  · by_cases hd : d = c
    · subst hd
      rw [hself]
      exact hwaiting
    · rw [hother hd]
      exact h.waiting d
  · by_cases hc : Q.client i = c
    · rw [hc, hself]
      exact ⟨hinline i hc hi, (h.inline i hi).2⟩
    · rw [hother hc]
      exact h.inline i hi

omit [DecidableEq ι] in
/-- The main thread is not in `_inner_get`, before and after. -/
theorem Accounted.leaves (h : Accounted Q s) {o : HolderObject ι}
    (hbefore : ∀ i, (s.objects c).stage ≠ .getting i) (hafter : ∀ i, o.stage ≠ .getting i)
    (hlocks : ∀ name, s.lock? name = some (Q.id c) → s.Recorded c name →
      ∃ entry ∈ o.processing, entry.1 = name) : Accounted Q (s.setObject c o) := by
  refine h.setObject (fun i hi => absurd hi (hafter i)) (fun i hc hi => ?_) fun name hlock _ hrest => ?_
  · exact absurd (hc ▸ (h.inline i hi).1) (hbefore i)
  · rcases hrest with ⟨i, hstage, -⟩ | hrecorded
    · exact absurd hstage (hbefore i)
    · exact .inr (.inr (hlocks name hlock hrecorded))

omit [DecidableEq ι] in
theorem Accounted.setStage (h : Accounted Q s) {stage : HolderStage ι}
    (hbefore : ∀ i, (s.objects c).stage ≠ .getting i) (hafter : ∀ i, stage ≠ .getting i) :
    Accounted Q (s.setStage c stage) :=
  h.leaves hbefore hafter fun _ _ hrecorded => hrecorded.2

/-! ## What the server does -/

theorem sameCall_refl (g : LockingGet) : SameCall g g := ⟨rfl, rfl, rfl, rfl, id⟩

theorem sameCall_fired (g : LockingGet) (node : QueueNode) : SameCall g (g.fired node) := by
  unfold LockingGet.fired
  split
  next hwatch =>
    refine ⟨rfl, rfl, rfl, rfl, fun hnew => ?_⟩
    rw [hnew] at hwatch
    cases hwatch
  · exact sameCall_refl g

omit [DecidableEq κ] [DecidableEq ι] in
theorem sameCall_createLock {id : Bytes} : SameCall (s.gets i) ((s.createLock name id).gets i) := by
  unfold createLock
  split
  · exact sameCall_refl _
  · exact sameCall_fired _ _

omit [DecidableEq κ] [DecidableEq ι] in
theorem sameCall_deleteLock : SameCall (s.gets i) ((s.deleteLock name).gets i) := by
  unfold deleteLock
  split
  · exact sameCall_refl _
  · exact sameCall_fired _ _

omit [DecidableEq κ] [DecidableEq ι] in
theorem lock?_of_createLock {id : Bytes} {other : PyStr}
    (h : (s.createLock name (Q.id c)).lock? other = some id) :
    s.lock? other = some id ∨ s.lock? name = none ∧ other = name ∧ id = Q.id c := by
  cases hlock : s.lock? name with
  | some _ =>
    simp only [createLock, hlock] at h
    exact .inl h
  | none =>
    rw [lock?_createLock hlock] at h
    split at h
    next heq => exact .inr ⟨rfl, heq, (Option.some.inj h).symm⟩
    · exact .inl h

omit [DecidableEq κ] [DecidableEq ι] in
theorem lock?_of_deleteLock {id : Bytes} {other : PyStr}
    (h : (s.deleteLock name).lock? other = some id) : other ≠ name ∧ s.lock? other = some id := by
  rw [lock?_deleteLock] at h
  split at h
  · cases h
  next hne => exact ⟨hne, h⟩

omit [DecidableEq κ] [DecidableEq ι] in
/-- A lock node is created by a check that works on it, or for an entry that is recorded. -/
theorem Accounted.createLock (h : Accounted Q s)
    (hnew : s.lock? name = none → s.Working Q c name ∨ s.Recorded c name) :
    Accounted Q (s.createLock name (Q.id c)) := by
  refine h.server (fun d => ?_) (fun i => sameCall_createLock) fun d other hlock => ?_
  · rw [objects_createLock]
    exact ⟨rfl, rfl⟩
  · rcases lock?_of_createLock hlock with hold | ⟨hnone, rfl, hid⟩
    · rw [entries_createLock]
      exact .inl ⟨hold, id⟩
    · obtain rfl := Q.id_injective hid
      refine .inr ((hnew hnone).imp_right fun hrecorded => ?_)
      rw [Recorded, entries_createLock, objects_createLock]
      exact hrecorded

omit [DecidableEq κ] [DecidableEq ι] in
theorem Accounted.deleteLock (h : Accounted Q s) (name : PyStr) : Accounted Q (s.deleteLock name) := by
  refine h.server (fun d => ?_) (fun i => sameCall_deleteLock) fun d other hlock => ?_
  · rw [objects_deleteLock]
    exact ⟨rfl, rfl⟩
  · rw [entries_deleteLock]
    exact .inl ⟨(lock?_of_deleteLock hlock).2, id⟩

omit [DecidableEq κ] [DecidableEq ι] in
/-- An entry is deleted with its lock node. -/
theorem Accounted.commit (h : Accounted Q s) (call : Settling) (name : PyStr) :
    Accounted Q (s.commit c call name) := by
  unfold Holdings.commit
  cases call with
  | release => exact h.deleteLock name
  | consume =>
    show Accounted Q (if _ then _ else _)
    split
    · refine h.server (fun d => ?_) (fun i => ?_) fun d other hlock => ?_
      · show (((s.deleteLock name).objects d).stage = _) ∧ ((s.deleteLock name).objects d).processing = _
        rw [objects_deleteLock]
        exact ⟨rfl, rfl⟩
      · obtain ⟨hcalled, hcheck, hinline, hvalue, hnew⟩ :
            SameCall (s.gets i) ((s.deleteLock name).gets i) := sameCall_deleteLock
        obtain ⟨hcalled', hcheck', hinline', hvalue', hnew'⟩ :=
          sameCall_fired ((s.deleteLock name).gets i) .entries
        exact ⟨hcalled'.trans hcalled, hcheck'.trans hcheck, hinline'.trans hinline,
          hvalue'.trans hvalue, fun hg => hnew' (hnew hg)⟩
      · obtain ⟨hne, hlock⟩ := lock?_of_deleteLock hlock
        refine .inl ⟨hlock, fun hhas => ?_⟩
        obtain ⟨x, hx, rfl⟩ := List.mem_map.mp hhas
        exact List.mem_map_of_mem (QueueEntries.mem_present_delete.mpr ⟨hx, hne⟩)
    · exact h

omit [DecidableEq κ] [DecidableEq ι] in
/-- No entry is locked after the transaction for it. -/
theorem lock?_commit {call : Settling} (hhas : (s.commit c call name).entries.Has name) :
    (s.commit c call name).lock? name = none := by
  unfold Holdings.commit at hhas ⊢
  cases call with
  | release =>
    exact (lock?_deleteLock name).trans (if_pos rfl)
  | consume =>
    by_cases hboth : s.entries.Has name ∧ (s.lock? name).isSome = true
    · simp only [if_pos hboth] at hhas
      exact absurd hhas (QueueEntries.not_has_delete _ _)
    · simp only [if_neg hboth] at hhas ⊢
      exact Option.not_isSome_iff_eq_none.mp fun hsome => hboth ⟨hhas, hsome⟩

/-! ## Steps -/

omit [DecidableEq ι] in
theorem not_getting_of_goOn (h : s.goOn Q c = some t) (i : ι) : (s.objects c).stage ≠ .getting i := by
  intro hstage
  simp only [goOn, hstage] at h
  cases h

omit [DecidableEq ι] in
theorem not_getting_of_loses {carriedOut again : Bool} (h : s.loses c carriedOut again = some t)
    (i : ι) : (s.objects c).stage ≠ .getting i := by
  intro hstage
  simp only [loses, hstage] at h
  cases h

omit [DecidableEq ι] in
theorem Accounted.moved (h : Accounted Q s) (hnot : ∀ i, (s.objects c).stage ≠ .getting i)
    (hmoved : Moved Q s c t) : Accounted Q t := by
  cases hmoved with
  | waits hstage =>
    refine h.setStage hnot fun i => ?_
    rcases hstage with rfl | ⟨call, rfl⟩ <;> exact fun h => nomatch h
  | sees => exact h.setStage hnot fun _ h' => nomatch h'
  | @puts priority values hstage hnext =>
    have hs : Accounted Q (s.addEntries priority values) := by
      refine h.server (fun d => ⟨rfl, rfl⟩) (fun i => sameCall_fired _ _) fun d name hlock => .inl ⟨hlock, ?_⟩
      intro hhas
      obtain ⟨x, hx, rfl⟩ := List.mem_map.mp hhas
      exact List.mem_map_of_mem (QueueEntries.present_subset_addAll values hx)
    exact hs.setStage hnot fun _ h' => nomatch h'
  | @commits call entry o hstage hprocessing habsent hkept =>
    refine (h.commit call entry.1).leaves ?_ ?_ fun name hlock hrecorded => ?_
    · rw [objects_commit]
      exact hnot
    · rw [habsent]
      exact fun _ h' => nomatch h'
    · rw [Recorded, objects_commit, hprocessing] at hrecorded
      obtain ⟨hhas, entry', hentry', rfl⟩ := hrecorded
      obtain rfl := Option.some.inj hentry'
      rw [lock?_commit hhas] at hlock
      cases hlock

omit [DecidableEq κ] in
/-- A check that runs goes on, or ends. -/
theorem Accounted.checks (h : Accounted Q s) {g : LockingGet} (hcheck : (s.gets i).check ≠ .absent)
    (hcalled : g.called = (s.gets i).called)
    (hinline : g.inline = true → (s.gets i).inline = true ∧ g.check ≠ .absent)
    (hvalued : g.value ≠ none → g.check = .absent)
    (hlocks : ∀ name, (s.gets i).check.Locks name → s.lock? name = some (Q.id (Q.client i)) →
      g.check.Locks name ∨ s.entries.Has name ∧
        ((s.objects (Q.client i)).stage = .getting i ∧ (∃ entry ∈ g.value, entry.1 = name) ∨
          s.Recorded (Q.client i) name)) :
    Accounted Q (s.setGet i g) := by
  refine h.setGet ?_ (fun hg => ?_) hvalued (fun hvalue => absurd (h.valued i hvalue) hcheck) hlocks
  · rw [hcalled]
    by_contra hnot
    exact hcheck (h.fresh i (Bool.eq_false_iff.mpr hnot) ▸ rfl)
  · exact ⟨(h.inline i (hinline hg).1).1, (hinline hg).2⟩

omit [DecidableEq κ] [DecidableEq ι] in
theorem Accounted.value_eq_none (h : Accounted Q s) (hcheck : (s.gets i).check ≠ .absent) :
    (s.gets i).value = none := by
  by_contra hvalue
  exact hcheck (h.valued i hvalue)

theorem Accounted.checkFails (h : Accounted Q s) (hcheck : (s.gets i).check ≠ .absent)
    (hlocks : ∀ name, (s.gets i).check.Locks name → s.lock? name = some (Q.id (Q.client i)) →
      s.Recorded (Q.client i) name) : Accounted Q (s.checkFails Q i) := by
  have hs : Accounted Q (s.setGet i (s.gets i).checked) :=
    h.checks hcheck rfl (fun h' => nomatch h') (fun _ => rfl) fun name hworks hlock =>
      have hrecorded := hlocks name hworks hlock
      .inr ⟨hrecorded.1, .inr hrecorded⟩
  unfold Holdings.checkFails
  show Accounted Q (if _ then _ else _)
  split
  next hinline =>
    -- the call of `get` is left, which has no entry yet
    have hstage := (h.inline i hinline).1
    refine hs.setObject (fun _ h' => nomatch h') (fun j hj hinline' => ?_) fun name _ _ hrest => ?_
    · have hget := (hs.inline j hinline').1
      rw [hj] at hget
      obtain rfl := HolderStage.getting.inj (hstage.symm.trans hget)
      rw [gets_setGet] at hinline'
      cases hinline'
    · rcases hrest with ⟨j, hget, entry, hentry, -⟩ | hrecorded
      · obtain rfl := HolderStage.getting.inj (hstage.symm.trans hget)
        rw [gets_setGet, LockingGet.checked, h.value_eq_none hcheck] at hentry
        cases hentry
      · exact .inr (.inr hrecorded.2)
  · exact hs

omit [DecidableEq κ] in
/-- The check creates the lock node, and works on it. -/
theorem Accounted.creates (h : Accounted Q s) {values taken : List PyStr}
    (hcheck : (s.gets i).check = .creating name values taken) :
    let t := s.createLock name (Q.id (Q.client i))
    Accounted Q (t.setGet i { t.gets i with check := .reading name values taken }) := by
  have hne : (s.gets i).check ≠ .absent := hcheck ▸ fun h' => nomatch h'
  have hs : Accounted Q (s.setGet i { s.gets i with check := .reading name values taken }) := by
    refine h.checks hne rfl (fun hinline => ⟨hinline, fun h' => nomatch h'⟩)
      (fun hvalue => absurd (h.valued i hvalue) hne) fun other hworks => ?_
    rw [hcheck] at hworks
    exact hworks.elim
  intro t
  refine hs.server (fun d => ?_) (fun j => ?_) fun d other hlock => ?_
  · show (t.objects d).stage = _ ∧ (t.objects d).processing = _
    rw [objects_createLock]
    exact ⟨rfl, rfl⟩
  · by_cases hj : j = i
    · subst hj
      obtain ⟨hcalled, -, hinline, hvalue, -⟩ : SameCall (s.gets j) (t.gets j) := sameCall_createLock
      rw [gets_setGet, gets_setGet]
      exact ⟨hcalled, rfl, hinline, hvalue, fun hnew => nomatch congrArg LockingGet.check hnew⟩
    · rw [gets_setGet_of_ne hj, gets_setGet_of_ne hj]
      exact sameCall_createLock
  · rcases lock?_of_createLock hlock with hold | ⟨-, rfl, hid⟩
    · refine .inl ⟨hold, fun hhas => ?_⟩
      show t.entries.Has other
      rw [entries_createLock]
      exact hhas
    · obtain rfl := Q.id_injective hid
      refine .inr (.inl ⟨i, rfl, ?_⟩)
      rw [gets_setGet]
      rfl

omit [DecidableEq κ] in
/-- The entry is recorded, or the call of `get` takes it. -/
theorem Accounted.reads (h : Accounted Q s) {values taken : List PyStr} {entry : QueueEntry}
    (hok : s.Undisturbed Q (.check i)) (hcheck : (s.gets i).check = .reading name values taken)
    (hfind : s.entries.present.find? (·.1 = name) = some entry) :
    Accounted Q { s.setGet i { (s.gets i).checked with value := some entry } with
      takes := ⟨name, Q.client i, values, taken⟩ :: s.takes } := by
  simp only [Undisturbed, hcheck] at hok
  have hne : (s.gets i).check ≠ .absent := hcheck ▸ fun h' => nomatch h'
  have hname : entry.1 = name := by simpa using List.find?_some hfind
  have hhas : s.entries.Has name :=
    List.mem_map.mpr ⟨entry, List.mem_of_find?_eq_some hfind, hname⟩
  have hs : Accounted Q (s.setGet i { (s.gets i).checked with value := some entry }) := by
    refine h.checks hne rfl (fun h' => nomatch h') (fun _ => rfl) fun other hworks _ => ?_
    rw [hcheck] at hworks
    obtain rfl : name = other := hworks
    exact .inr ⟨hhas, (hok hhas).imp_left fun hstage => ⟨hstage, entry, rfl, hname⟩⟩
  exact ⟨hs.locks, hs.waiting, hs.fresh, hs.inline, hs.valued⟩

theorem Accounted.checkOn (h : Accounted Q s) (hok : s.Undisturbed Q (.check i))
    (hgoes : CheckGoes Q s i t) : Accounted Q t := by
  have hrunning {stage : CheckStage} (hcheck : (s.gets i).check = stage) (hstage : stage ≠ .absent) :
      (s.gets i).check ≠ .absent := hcheck ▸ hstage
  have hvalued (hne : (s.gets i).check ≠ .absent) {stage : CheckStage}
      (hvalue : (s.gets i).value ≠ none) : stage = .absent := absurd (h.valued i hvalue) hne
  cases hgoes with
  | lists hcheck _ | chooses hcheck _ _ =>
    have hne := hrunning hcheck (by simp)
    refine h.checks hne rfl (fun hinline => ⟨hinline, fun h' => nomatch h'⟩) (hvalued hne)
      fun name hworks => ?_
    rw [hcheck] at hworks
    exact hworks.elim
  | findsNone hcheck _ _ | comesLate hcheck _ =>
    refine h.checks (hrunning hcheck (by simp)) rfl (fun h' => nomatch h') (fun _ => rfl)
      fun name hworks => ?_
    rw [hcheck] at hworks
    exact hworks.elim
  | creates hcheck _ => exact h.creates hcheck
  | reads hcheck hfind => exact h.reads hok hcheck hfind
  | misses hcheck _ =>
    have hne := hrunning hcheck (by simp)
    refine h.checks hne rfl (fun hinline => ⟨hinline, fun h' => nomatch h'⟩) (hvalued hne)
      fun other hworks _ => .inl ?_
    rw [hcheck] at hworks
    exact hworks
  | @undoes name id hcheck _ =>
    obtain ⟨hcalled, hcheck', hinline, hvalue, -⟩ :
        SameCall (s.gets i) ((s.deleteLock name).gets i) := sameCall_deleteLock
    refine (h.deleteLock name).checks (by rw [hcheck']; exact hrunning hcheck (by simp)) rfl
      (fun h' => nomatch h') (fun _ => rfl) fun other hworks hother => ?_
    rw [hcheck', hcheck] at hworks
    exact absurd hworks.symm (lock?_of_deleteLock hother).1
  | @fails name hcheck hlock =>
    refine h.checkFails (hrunning hcheck (by simp)) fun other hworks hother => ?_
    rw [hcheck] at hworks
    obtain rfl : name = other := hworks
    rw [hlock] at hother
    cases hother

/-- A check fails that has not created a lock node. -/
theorem Accounted.givesUp (h : Accounted Q s) {stage : CheckStage}
    (hcheck : (s.gets i).check = stage) (hne : stage ≠ .absent) (hnone : ∀ name, ¬ stage.Locks name) :
    Accounted Q (s.checkFails Q i) :=
  h.checkFails (hcheck ▸ hne) fun name hworks => absurd (hcheck ▸ hworks) (hnone name)

theorem Accounted.checkLoses (h : Accounted Q s) {carriedOut again : Bool}
    (hok : s.Undisturbed Q (.loseCheck i carriedOut again))
    (hlost : CheckLost Q s i carriedOut again t) : Accounted Q t := by
  cases hlost with
  | retries => exact h
  | listing hcheck | listingTaken hcheck | notCreated hcheck =>
    exact h.givesUp hcheck (by simp) fun _ => id
  | @reading _ name values taken hcheck =>
    simp only [Undisturbed, hcheck] at hok
    refine h.checkFails (by rw [hcheck]; simp) fun other hworks hlock => ?_
    rw [hcheck] at hworks
    obtain rfl : name = other := hworks
    exact hok trivial hlock
  | @created _ name values taken hcheck =>
    simp only [Undisturbed, hcheck] at hok
    obtain ⟨-, hcheck', -⟩ :
        SameCall (s.gets i) ((s.createLock name (Q.id (Q.client i))).gets i) := sameCall_createLock
    exact (h.createLock fun hnone => .inr (hok trivial hnone)).givesUp (hcheck'.trans hcheck) (by simp)
      fun _ => id
  | @undone _ name hcheck =>
    obtain ⟨-, hcheck', -⟩ : SameCall (s.gets i) ((s.deleteLock name).gets i) := sameCall_deleteLock
    refine (h.deleteLock name).checkFails (by rw [hcheck', hcheck]; simp) fun other hworks hlock => ?_
    rw [hcheck', hcheck] at hworks
    exact absurd hworks.symm (lock?_of_deleteLock hlock).1
  | @notUndone _ name hcheck =>
    simp only [Undisturbed, hcheck] at hok
    refine h.checkFails (by rw [hcheck]; simp) fun other hworks hlock => ?_
    rw [hcheck] at hworks
    obtain rfl : name = other := hworks
    exact absurd hlock (hok trivial)

theorem sameCall_dropped (g : LockingGet) : SameCall g g.dropped := by
  refine ⟨rfl, rfl, rfl, rfl, fun hnew => ?_⟩
  rw [hnew]
  rfl

omit [DecidableEq ι] in
theorem objects_connected {o : HolderObject ι} (hstage : o.stage = (s.objects c).stage)
    (hprocessing : o.processing = (s.objects c).processing) (d : κ) :
    ((s.setObject c o).objects d).stage = (s.objects d).stage ∧
      ((s.setObject c o).objects d).processing = (s.objects d).processing := by
  show (Function.update s.objects c o d).stage = _ ∧ (Function.update s.objects c o d).processing = _
  by_cases hd : d = c
  · subst hd
    rw [Function.update_self]
    exact ⟨hstage, hprocessing⟩
  · rw [Function.update_of_ne hd]
    exact ⟨rfl, rfl⟩

/-- A first check begins, in the thread of the call. -/
theorem Accounted.begins (h : Accounted Q s) (hstage : (s.objects (Q.client i)).stage = .absent)
    (hprocessing : (s.objects (Q.client i)).processing = none) (hnew : s.gets i = .new)
    {g : LockingGet} (hcalled : g.called = true) (hvalue : g.value = none)
    (hcheck : g.check ≠ .absent) :
    Accounted Q ((s.setGet i g).setStage (Q.client i) (.getting i)) := by
  let t := (s.setGet i g).setStage (Q.client i) (.getting i)
  have hself : t.gets i = g := Function.update_self ..
  have hother {j : ι} (hj : j ≠ i) : t.gets j = s.gets j := Function.update_of_ne hj ..
  have hobject : t.objects (Q.client i) = { s.objects (Q.client i) with stage := .getting i } :=
    Function.update_self ..
  have hobjects {c : κ} (hc : c ≠ Q.client i) : t.objects c = s.objects c :=
    Function.update_of_ne hc ..
  have hbusy {c : κ} {j : ι} (hget : (s.objects c).stage = .getting j) : c ≠ Q.client i := by
    rintro rfl
    cases hstage.symm.trans hget
  refine ⟨fun c name hlock => ?_, fun c j hget => ?_, fun j => ?_, fun j hinline => ?_, fun j => ?_⟩
  · rcases h.locks c name hlock with ⟨j, hj, hworks⟩ | ⟨hhas, ⟨j, hget, hentry⟩ | ⟨-, entry, hentry, hname⟩⟩
    · have hne : j ≠ i := by
        rintro rfl
        rw [hnew] at hworks
        exact hworks.elim
      exact .inl ⟨j, hj, (congrArg (·.check.Locks name) (hother hne)).mpr hworks⟩
    · have hne : j ≠ i := by
        rintro rfl
        exact hbusy hget (h.waiting c j hget).1.symm
      refine .inr ⟨hhas, .inl ⟨j, ?_, ?_⟩⟩
      · exact (congrArg HolderObject.stage (hobjects (hbusy hget))).trans hget
      · rw [hother hne]
        exact hentry
    · have hc : c ≠ Q.client i := by
        rintro rfl
        cases hprocessing.symm.trans hentry
      exact .inr ⟨hhas, .inr ⟨hhas, entry, (congrArg HolderObject.processing (hobjects hc)).trans hentry, hname⟩⟩
  · by_cases hc : c = Q.client i
    · subst hc
      obtain rfl := HolderStage.getting.inj ((congrArg HolderObject.stage hobject).symm.trans hget)
      exact ⟨rfl, (congrArg HolderObject.processing hobject).trans hprocessing,
        (congrArg LockingGet.called hself).trans hcalled⟩
    · rw [hobjects hc] at hget ⊢
      obtain ⟨hclient, hnone, hbefore⟩ := h.waiting c j hget
      refine ⟨hclient, hnone, ?_⟩
      rw [hother (fun heq => hc (heq ▸ hclient.symm))]
      exact hbefore
  · by_cases hj : j = i
    · rw [hj, hself, hcalled]
      exact fun h' => nomatch h'
    · rw [hother hj]
      exact h.fresh j
  · by_cases hj : j = i
    · rw [hj, hobject, hself]
      exact ⟨rfl, hcheck⟩
    · rw [hother hj] at hinline ⊢
      obtain ⟨hget, hrunning⟩ := h.inline j hinline
      rw [hobjects (hbusy hget)]
      exact ⟨hget, hrunning⟩
  · by_cases hj : j = i
    · rw [hj, hself]
      exact fun hsome => absurd hvalue hsome
    · rw [hother hj]
      exact h.valued j

theorem Accounted.finish (h : Accounted Q s) (hstage : (s.objects (Q.client i)).stage = .getting i)
    (hcheck : (s.gets i).check = .absent) :
    Accounted Q ((s.setGet i { s.gets i with canceled := true }).setObject (Q.client i)
      { s.objects (Q.client i) with stage := .absent, processing := (s.gets i).value }) := by
  obtain ⟨-, hprocessing, hcalled⟩ := h.waiting _ i hstage
  have hs : Accounted Q (s.setGet i { s.gets i with canceled := true }) :=
    h.setGet hcalled (fun hinline => h.inline i hinline) (fun _ => hcheck) (fun _ => rfl)
      fun _ hworks _ => .inl hworks
  refine hs.setObject (fun _ h' => nomatch h') (fun j hj hinline => ?_) fun name _ _ hrest => ?_
  · obtain ⟨hget, hrunning⟩ := hs.inline j hinline
    rw [hj] at hget
    obtain rfl := HolderStage.getting.inj (hstage.symm.trans hget)
    rw [gets_setGet] at hrunning
    exact absurd hcheck hrunning
  · rcases hrest with ⟨j, hget, entry, hentry, hname⟩ | ⟨-, entry, hentry, -⟩
    · obtain rfl := HolderStage.getting.inj (hstage.symm.trans hget)
      rw [gets_setGet] at hentry
      exact .inr (.inr ⟨entry, hentry, hname⟩)
    · cases hprocessing.symm.trans hentry

omit [DecidableEq κ] in
/-- A dispatched call begins a check only where none runs and no entry has been taken. -/
theorem Accounted.call (h : Accounted Q s) {g : LockingGet} (hcall : (s.gets i).CalledBack g) :
    Accounted Q (s.setGet i g) := by
  have hcalled {type : EventType} {calls : List EventType} (hcalls : (s.gets i).calls = type :: calls) :
      (s.gets i).called = true := by
    by_contra hnot
    rw [h.fresh i (Bool.eq_false_iff.mpr hnot)] at hcalls
    cases hcalls
  cases hcall with
  | passes hcalls _ | spent hcalls _ _ =>
    exact h.setGet (hcalled hcalls) (h.inline i) (h.valued i) (fun _ => rfl)
      fun _ hworks _ => .inl hworks
  | lists hcalls habsent _ hnone =>
    refine h.setGet (hcalled hcalls) (fun hin => absurd habsent (h.inline i hin).2)
      (fun hsome => absurd hnone hsome) (fun _ => rfl) fun name hworks _ => ?_
    rw [habsent] at hworks
    exact hworks.elim

theorem Accounted.step (h : Accounted Q s) {act : HoldingAct κ ι} (hok : s.Undisturbed Q act)
    (hstep : s.step Q act = some t) : Accounted Q t := by
  cases steps_of_step hstep with
  | put hstage _ | settle hstage _ =>
    exact h.setStage (fun i hi => (by cases hstage.symm.trans hi)) fun _ h' => (by cases h')
  | @get i timed hstage hprocessing hcalled =>
    have hnew := h.fresh i hcalled
    exact h.begins hstage hprocessing hnew rfl (hnew ▸ rfl) (by rintro ⟨⟩)
  | go _ hgo => exact h.moved (not_getting_of_goOn hgo) (moved_of_goOn hgo)
  | check _ hgoes => exact h.checkOn hok hgoes
  | @deliver i node hevent =>
    refine h.server (fun _ => ⟨rfl, rfl⟩) (fun j => ?_) fun _ _ hlock => .inl ⟨hlock, id⟩
    by_cases hj : j = i
    · subst hj
      rw [gets_setGet]
      refine ⟨rfl, rfl, rfl, rfl, fun hnew => ?_⟩
      rw [hnew] at hevent
      cases hevent
    · rw [gets_setGet_of_ne hj]
      exact sameCall_refl _
  | call hcall => exact h.call hcall
  | finish hstage hcheck _ => exact h.finish hstage hcheck
  | drop _ =>
    refine h.server (objects_connected rfl rfl) (fun i => ?_) fun _ _ hlock => .inl ⟨hlock, id⟩
    show SameCall _ (if _ then _ else _)
    split
    · exact sameCall_dropped _
    · exact sameCall_refl _
  | reconnect _ =>
    exact h.server (objects_connected rfl rfl) (fun i => sameCall_refl _) fun _ _ hlock => .inl ⟨hlock, id⟩
  | lose _ hloses => exact h.moved (not_getting_of_loses hloses) (moved_of_loses hloses)
  | loseCheck _ hlost => exact h.checkLoses hok hlost

/-- Nobody is kept from an entry by the lock of a client that does not process it. -/
theorem no_orphaned_locks (hr : (holding Q).Reach (fun s act => s.Undisturbed Q act) s)
    (hidle : s.Idle Q c) (hlock : s.lock? name = some (Q.id c)) :
    ∃ value, (s.objects c).processing = some (name, value) := by
  have h : Accounted Q s := hr.invariant accounted_new fun s act _ h hen hok => by
    obtain ⟨t, hstep⟩ := Option.isSome_iff_exists.mp hen
    show Accounted Q ((s.step Q act).getD s)
    rw [hstep]
    exact h.step hok hstep
  rcases h.locks c name hlock with ⟨i, hclient, hworks⟩ | ⟨-, ⟨i, hget, -⟩ | ⟨-, ⟨name, value⟩, hentry, rfl⟩⟩
  · rw [hidle.2 i hclient] at hworks
    exact hworks.elim
  · cases hidle.1.symm.trans hget
  · exact ⟨value, hentry⟩

/-- The lock node is created, and the connection is lost before the answer. -/
def createdUnanswered : List (HoldingAct Bool Bool) :=
  [.put false 100 [[7]], .go false, .get false false, .check false, .check false, .drop false,
    .loseCheck false true false, .reconnect false]

theorem orphaned_lock :
    ¬ ∀ (s : Holdings Bool Bool) (c : Bool) (name : PyStr), (holding twoHolders).Reachable s →
      s.Idle twoHolders c → s.lock? name = some (twoHolders.id c) →
        ∃ value, (s.objects c).processing = some (name, value) := by
  intro h
  have hr : (holding twoHolders).Reachable ((holding twoHolders).exec .new createdUnanswered) :=
    .of_legal (by decide +kernel)
  obtain ⟨value, hprocessing⟩ := h _ false (entryName 100 0) hr
    ⟨by decide +kernel, fun i _ => by revert i; decide +kernel⟩ (by decide +kernel)
  have hnone : (((holding twoHolders).exec .new createdUnanswered).objects false).processing = none := by
    decide +kernel
  cases hnone.symm.trans hprocessing

theorem no_orphaned_locks_bothHold :
    ∃ value, (((holding twoHolders).exec .new bothHold).objects false).processing =
      some (entryName 100 0, value) :=
  no_orphaned_locks (Q := twoHolders) (.of_legal (by decide +kernel))
    ⟨by decide +kernel, fun i _ => by revert i; decide +kernel⟩ (by decide +kernel)

end Holdings

end Kazoo
