import Kazoo.Recipe.LockingQueue
import Mathlib.Data.Fintype.Basic

/-!
# A blocked `get`

Its watches are cleared when the connection is lost, and the call of `check_for_updates` that tells it
so does nothing.
-/

namespace Kazoo

namespace LockingGet

/-- The watch function is registered, or an event is under way to it. -/
def Registered (g : LockingGet) (node : QueueNode) : Prop :=
  g.watch node = true ∨ g.event node = true

/-- A call of `check_for_updates` is going to list the children of both nodes. -/
def Due (g : LockingGet) : Prop := EventType.CHILD ∈ g.calls ∨ g.check = .listing

/-- Nothing that makes an entry available is missed. -/
def Watchful (g : LockingGet) : Prop :=
  g.Due ∨ g.Registered .entries ∧
    (g.Registered .taken ∨ ∃ values, g.check = .listingTaken values)

/-- It is not missed between two checks, either. -/
def Steady (g : LockingGet) : Prop :=
  EventType.CHILD ∈ g.calls ∨ g.Registered .entries ∧ g.Registered .taken

instance (g : LockingGet) (node : QueueNode) : Decidable (g.Registered node) :=
  inferInstanceAs (Decidable (_ ∨ _))

instance (g : LockingGet) : Decidable g.Due := inferInstanceAs (Decidable (_ ∨ _))

instance (g : LockingGet) : Decidable g.Steady := inferInstanceAs (Decidable (_ ∨ _))

/-- Watches of `g` have fired since. -/
structure After (g g' : LockingGet) : Prop where
  called : g'.called = g.called
  check : g'.check = g.check
  canceled : g'.canceled = g.canceled
  value : g'.value = g.value
  calls : g'.calls = g.calls
  registered : ∀ node, g.Registered node → g'.Registered node

variable {g g' g'' : LockingGet}

theorem After.refl : After g g := ⟨rfl, rfl, rfl, rfl, rfl, fun _ => id⟩

theorem After.trans (h : After g g') (h' : After g' g'') : After g g'' :=
  ⟨h'.called.trans h.called, h'.check.trans h.check, h'.canceled.trans h.canceled,
    h'.value.trans h.value, h'.calls.trans h.calls,
    fun node hnode => h'.registered node (h.registered node hnode)⟩

theorem after_fired (node : QueueNode) : After g (g.fired node) := by
  unfold fired
  split
  · refine ⟨rfl, rfl, rfl, rfl, rfl, fun other hother => ?_⟩
    unfold Registered at hother ⊢
    by_cases heq : other = node
    · subst heq
      exact .inr (Function.update_self _ _ _)
    · simpa only [Function.update_of_ne heq] using hother
  · exact .refl

theorem Watchful.after (h : g.Watchful) (ha : After g g') : g'.Watchful := by
  unfold Watchful Due at h ⊢
  rw [ha.calls, ha.check]
  exact h.imp_right fun ⟨hentries, htaken⟩ =>
    ⟨ha.registered _ hentries, htaken.imp_left (ha.registered _)⟩

theorem Steady.watchful (h : g.Steady) : g.Watchful :=
  h.imp .inl fun hboth => hboth.imp_right .inl

theorem Watchful.steady (h : g.Watchful) (hlisting : g.check ≠ .listing)
    (htaken : ∀ values, g.check ≠ .listingTaken values) : g.Steady := by
  rcases h with (hcalls | hcheck) | ⟨hentries, htaken' | ⟨values, hcheck⟩⟩
  · exact .inl hcalls
  · exact absurd hcheck hlisting
  · exact .inr ⟨hentries, htaken'⟩
  · exact absurd hcheck (htaken values)

theorem Steady.after (h : g.Steady) (ha : After g g') : g'.Steady := by
  unfold Steady at h ⊢
  rw [ha.calls]
  exact h.imp_right fun hboth => ⟨ha.registered _ hboth.1, ha.registered _ hboth.2⟩

end LockingGet

namespace Holdings

variable {κ ι : Type} [DecidableEq κ] [DecidableEq ι] {Q : LockingQueues κ ι} {s t : Holdings κ ι}
  {c : κ} {i j : ι} {name : PyStr}

/-- A call of `get` has not got an entry yet. -/
def Blocked (Q : LockingQueues κ ι) (s : Holdings κ ι) (i : ι) : Prop :=
  (s.objects (Q.client i)).stage = .getting i ∧ (s.gets i).value = none

/-- When the connection is lost, every blocked `get` of the client is about to list the children of
both nodes.  No check of a blocked `get` ends through an exception, where another is not due and its
watches are not registered. -/
def Rearmed (Q : LockingQueues κ ι) (s : Holdings κ ι) : HoldingAct κ ι → Prop
  | .drop c => ∀ i, Q.client i = c → s.Blocked Q i → (s.gets i).Due
  | .loseCheck i _ false =>
    s.Blocked Q i → (s.gets i).inline = true ∨ (s.gets i).Steady
  | _ => True

instance (s : Holdings κ ι) (i : ι) : Decidable (s.Blocked Q i) :=
  inferInstanceAs (Decidable (_ ∧ _))

instance [Fintype ι] (s : Holdings κ ι) (act : HoldingAct κ ι) : Decidable (s.Rearmed Q act) := by
  unfold Rearmed
  split <;> infer_instance

structure Rearming (Q : LockingQueues κ ι) (s : Holdings κ ι) : Prop where
  called : ∀ i, (s.objects (Q.client i)).stage = .getting i ∨ (s.gets i).canceled = true →
    (s.gets i).called = true
  running : ∀ i, (s.objects (Q.client i)).stage = .getting i → (s.gets i).canceled = false
  watchful : ∀ i, s.Blocked Q i → (s.gets i).Watchful

omit [DecidableEq κ] [DecidableEq ι] in
theorem rearming_new : Rearming Q (new : Holdings κ ι) where
  called := fun _ h => nomatch h
  running := fun _ h => nomatch h
  watchful := fun _ h => nomatch h.1

omit [DecidableEq κ] in
/-- What is left to show about a step that concerns the call `i`. -/
theorem Rearming.of_step (h : Rearming Q s)
    (hstage : ∀ j, j ≠ i → (t.objects (Q.client j)).stage = .getting j →
      (s.objects (Q.client j)).stage = .getting j)
    (hothers : ∀ j, j ≠ i → LockingGet.After (s.gets j) (t.gets j))
    (hcalled : (t.objects (Q.client i)).stage = .getting i ∨ (t.gets i).canceled = true →
      (t.gets i).called = true)
    (hrunning : (t.objects (Q.client i)).stage = .getting i → (t.gets i).canceled = false)
    (hwatchful : t.Blocked Q i → (t.gets i).Watchful) : Rearming Q t := by
  refine ⟨fun j hj => ?_, fun j hj => ?_, fun j hj => ?_⟩
  · by_cases heq : j = i
    · subst heq
      exact hcalled hj
    · have ha := hothers j heq
      rw [ha.called]
      rw [ha.canceled] at hj
      exact h.called j (hj.imp_left (hstage j heq))
  · by_cases heq : j = i
    · subst heq
      exact hrunning hj
    · rw [(hothers j heq).canceled]
      exact h.running j (hstage j heq hj)
  · by_cases heq : j = i
    · subst heq
      exact hwatchful hj
    · have ha := hothers j heq
      exact (h.watchful j ⟨hstage j heq hj.1, ha.value ▸ hj.2⟩).after ha

omit [DecidableEq κ] [DecidableEq ι] in
/-- Nothing but the main threads and the server has changed. -/
theorem Rearming.of_after (h : Rearming Q s)
    (hstage : ∀ j, (t.objects (Q.client j)).stage = .getting j →
      (s.objects (Q.client j)).stage = .getting j)
    (ha : ∀ j, LockingGet.After (s.gets j) (t.gets j)) : Rearming Q t := by
  refine ⟨fun j hj => ?_, fun j hj => ?_, fun j hj => ?_⟩
  · rw [(ha j).called]
    rw [(ha j).canceled] at hj
    exact h.called j (hj.imp_left (hstage j))
  · rw [(ha j).canceled]
    exact h.running j (hstage j hj)
  · exact (h.watchful j ⟨hstage j hj.1, (ha j).value ▸ hj.2⟩).after (ha j)

omit [DecidableEq ι] in
/-- The main thread does not enter `_inner_get`. -/
theorem Rearming.setObject (h : Rearming Q s) {o : HolderObject ι}
    (hstage : ∀ j, o.stage = .getting j → (s.objects c).stage = .getting j) :
    Rearming Q (s.setObject c o) := by
  refine h.of_after (fun j hj => ?_) fun _ => .refl
  have hobject : (s.setObject c o).objects (Q.client j) = Function.update s.objects c o (Q.client j) :=
    rfl
  by_cases heq : Q.client j = c
  · rw [hobject, heq, Function.update_self] at hj
    rw [heq]
    exact hstage j hj
  · rw [hobject, Function.update_of_ne heq] at hj
    exact hj

omit [DecidableEq ι] in
theorem Rearming.setStage (h : Rearming Q s) {stage : HolderStage ι}
    (hstage : ∀ j, stage ≠ .getting j) : Rearming Q (s.setStage c stage) :=
  h.setObject fun j hj => absurd hj (hstage j)

omit [DecidableEq κ] [DecidableEq ι] in
theorem after_createLock {id : Bytes} (j : ι) :
    LockingGet.After (s.gets j) ((s.createLock name id).gets j) := by
  unfold createLock
  split
  · exact .refl
  · exact LockingGet.after_fired _

omit [DecidableEq κ] [DecidableEq ι] in
theorem after_deleteLock (j : ι) : LockingGet.After (s.gets j) ((s.deleteLock name).gets j) := by
  unfold deleteLock
  split
  · exact .refl
  · exact LockingGet.after_fired _

omit [DecidableEq κ] [DecidableEq ι] in
theorem after_commit {call : Settling} (j : ι) :
    LockingGet.After (s.gets j) ((s.commit c call name).gets j) := by
  unfold commit
  cases call with
  | release => exact after_deleteLock j
  | consume =>
    show LockingGet.After _ ((if _ then _ else _ : Holdings κ ι).gets j)
    split
    · exact (after_deleteLock j).trans (LockingGet.after_fired _)
    · exact .refl

omit [DecidableEq κ] in
/-- The call `i` goes on, and nothing else. -/
theorem Rearming.setGet (h : Rearming Q s) {g : LockingGet} (hcalled : g.called = (s.gets i).called)
    (hcanceled : g.canceled = (s.gets i).canceled)
    (hwatchful : (s.objects (Q.client i)).stage = .getting i → g.value = none → g.Watchful) :
    Rearming Q (s.setGet i g) := by
  have hget : (s.setGet i g).gets i = g := Function.update_self _ _ _
  refine h.of_step (i := i) (fun j _ hj => hj) (fun j hj => ?_) (fun hj => ?_) (fun hj => ?_) fun hj => ?_
  · rw [show (s.setGet i g).gets j = s.gets j from Function.update_of_ne hj _ _]
    exact .refl
  · rw [hget] at hj ⊢
    rw [hcalled]
    exact h.called i (hj.imp_right fun h' => hcanceled ▸ h')
  · rw [hget, hcanceled]
    exact h.running i hj
  · rw [hget]
    exact hwatchful hj.1 (hget ▸ hj.2)

/-- A check ends through an exception. -/
theorem Rearming.checkFails (h : Rearming Q s)
    (hsteady : s.Blocked Q i → (s.gets i).inline = true ∨ (s.gets i).Steady) :
    Rearming Q (s.checkFails Q i) := by
  unfold Holdings.checkFails
  show Rearming Q (if _ then _ else _)
  split
  case isTrue hinline =>
    have hset : (s.setGet i (s.gets i).checked).setStage (Q.client i) .absent =
        (s.setStage (Q.client i) .absent).setGet i (s.gets i).checked := rfl
    rw [hset]
    refine (h.setStage fun _ => by simp).setGet rfl rfl fun hstage => ?_
    rw [show ((s.setStage (Q.client i) .absent).objects (Q.client i)).stage = .absent by
      simp [Holdings.setStage, Holdings.setObject]] at hstage
    cases hstage
  case isFalse hinline =>
    refine h.setGet rfl rfl fun hstage hvalue => ?_
    have hkept := (hsteady ⟨hstage, hvalue⟩).resolve_left hinline
    exact LockingGet.Steady.watchful hkept

theorem watch_register (g : LockingGet) (node : QueueNode) : (register g node).watch node = true :=
  Function.update_self _ _ _

theorem registered_register {g : LockingGet} (node other : QueueNode) (h : g.Registered other) :
    (register g node).Registered other := by
  by_cases heq : other = node
  · subst heq
    exact .inl (watch_register g other)
  · show Function.update g.watch node true other = true ∨ g.event other = true
    rw [Function.update_of_ne heq]
    exact h

omit [DecidableEq κ] in
/-- The locks are listed, and the check goes on or is over. -/
theorem Rearming.listsTaken (h : Rearming Q s) {values : List PyStr}
    (hcheck : (s.gets i).check = .listingTaken values) {g : LockingGet}
    (hcalled : g.called = (s.gets i).called) (hcanceled : g.canceled = (s.gets i).canceled)
    (hvalue : g.value = (s.gets i).value) (hcalls : g.calls = (s.gets i).calls)
    (hwatch : g.watch = (register (s.gets i) .taken).watch) (hevent : g.event = (s.gets i).event) :
    Rearming Q (s.setGet i g) := by
  refine h.setGet hcalled hcanceled fun hstage hnone => LockingGet.Steady.watchful ?_
  unfold LockingGet.Steady LockingGet.Registered
  rw [hcalls, hwatch, hevent]
  rcases h.watchful i ⟨hstage, hvalue ▸ hnone⟩ with (hdue | hlisting) | ⟨hentries, -⟩
  · exact .inl hdue
  · rw [hcheck] at hlisting
    cases hlisting
  · exact .inr ⟨registered_register .taken .entries hentries, .inl (watch_register (s.gets i) .taken)⟩

omit [DecidableEq κ] [DecidableEq ι] in
/-- After both listings the watches are there, or another check is due. -/
theorem Rearming.steady (h : Rearming Q s) {stage : CheckStage} (hcheck : (s.gets i).check = stage)
    (hlisted : stage ≠ .listing ∧ ∀ values, stage ≠ .listingTaken values)
    (hblocked : s.Blocked Q i) : (s.gets i).Steady :=
  (h.watchful i hblocked).steady (hcheck ▸ hlisted.1) (hcheck ▸ hlisted.2)

omit [DecidableEq κ] in
/-- A steady call keeps its watches. -/
theorem Rearming.setSteady (h : Rearming Q s) {g : LockingGet}
    (hsteady : s.Blocked Q i → (s.gets i).Steady) (hcalled : g.called = (s.gets i).called)
    (hcanceled : g.canceled = (s.gets i).canceled) (hvalue : g.value = (s.gets i).value)
    (hcalls : g.calls = (s.gets i).calls) (hwatch : g.watch = (s.gets i).watch)
    (hevent : g.event = (s.gets i).event) : Rearming Q (s.setGet i g) := by
  refine h.setGet hcalled hcanceled fun hstage hnone => LockingGet.Steady.watchful ?_
  unfold LockingGet.Steady LockingGet.Registered
  rw [hcalls, hwatch, hevent]
  exact hsteady ⟨hstage, hvalue ▸ hnone⟩

omit [DecidableEq κ] [DecidableEq ι] in
theorem Rearming.createLock (h : Rearming Q s) {id : Bytes} : Rearming Q (s.createLock name id) :=
  h.of_after (fun j hj => by rwa [objects_createLock] at hj) after_createLock

omit [DecidableEq κ] [DecidableEq ι] in
theorem Rearming.deleteLock (h : Rearming Q s) : Rearming Q (s.deleteLock name) :=
  h.of_after (fun j hj => by rwa [objects_deleteLock] at hj) after_deleteLock

omit [DecidableEq κ] [DecidableEq ι] in
theorem steady_createLock {id : Bytes} (hsteady : s.Blocked Q i → (s.gets i).Steady)
    (hblocked : (s.createLock name id).Blocked Q i) : ((s.createLock name id).gets i).Steady := by
  have ha : LockingGet.After (s.gets i) ((s.createLock name id).gets i) := after_createLock i
  refine LockingGet.Steady.after (hsteady ⟨?_, ha.value ▸ hblocked.2⟩) ha
  rw [← objects_createLock]
  exact hblocked.1

omit [DecidableEq κ] [DecidableEq ι] in
theorem steady_deleteLock (hsteady : s.Blocked Q i → (s.gets i).Steady)
    (hblocked : (s.deleteLock name).Blocked Q i) : ((s.deleteLock name).gets i).Steady := by
  have ha : LockingGet.After (s.gets i) ((s.deleteLock name).gets i) := after_deleteLock i
  refine LockingGet.Steady.after (hsteady ⟨?_, ha.value ▸ hblocked.2⟩) ha
  rw [← objects_deleteLock]
  exact hblocked.1

theorem Rearming.checkOn (h : Rearming Q s) (hgoes : CheckGoes Q s i t) : Rearming Q t := by
  cases hgoes with
  | lists hcheck _ =>
    exact h.setGet rfl rfl fun _ _ => .inr ⟨.inl (watch_register (s.gets i) .entries), .inr ⟨_, rfl⟩⟩
  | findsNone hcheck _ _ | chooses hcheck _ _ =>
    exact h.listsTaken hcheck rfl rfl rfl rfl rfl rfl
  | comesLate hcheck _ =>
    exact h.setSteady (h.steady hcheck (by simp)) rfl rfl rfl rfl rfl rfl
  | creates hcheck _ =>
    have hsteady := h.steady hcheck (by simp)
    exact h.createLock.setSteady (steady_createLock hsteady) rfl rfl rfl rfl rfl rfl
  | @reads name values taken entry _ _ =>
    have hs : Rearming Q (s.setGet i { (s.gets i).checked with value := some entry }) :=
      h.setGet rfl rfl fun _ hvalue => nomatch hvalue
    exact ⟨hs.called, hs.running, hs.watchful⟩
  | misses hcheck _ =>
    exact h.setSteady (h.steady hcheck (by simp)) rfl rfl rfl rfl rfl rfl
  | undoes hcheck _ =>
    have hsteady := h.steady hcheck (by simp)
    exact h.deleteLock.setSteady (steady_deleteLock hsteady) rfl rfl rfl rfl rfl rfl
  | fails hcheck _ =>
    exact h.checkFails fun hblocked => .inr (h.steady hcheck (by simp) hblocked)

omit [DecidableEq ι] in
theorem Rearming.moved (h : Rearming Q s) (hmoved : Moved Q s c t) : Rearming Q t := by
  cases hmoved with
  | waits hstage =>
    refine h.setStage fun j heq => ?_
    rcases hstage with rfl | ⟨call, rfl⟩ <;> cases heq
  | sees => exact h.setStage fun _ => by simp
  | @puts priority values =>
    have hs : Rearming Q (s.addEntries priority values) :=
      h.of_after (fun _ hj => hj) fun _ => LockingGet.after_fired _
    exact hs.setStage fun _ => by simp
  | @commits call entry o _ _ habsent =>
    have hs : Rearming Q (s.commit c call entry.1) :=
      h.of_after (fun j hj => by rwa [objects_commit] at hj) after_commit
    exact hs.setObject fun _ heq => nomatch habsent.symm.trans heq

theorem Rearming.checkLoses (h : Rearming Q s) {carriedOut again : Bool}
    (hok : s.Rearmed Q (.loseCheck i carriedOut again))
    (hlost : CheckLost Q s i carriedOut again t) : Rearming Q t := by
  cases hlost with
  | retries => exact h
  | listing _ | listingTaken _ | reading _ => exact h.checkFails hok
  | created hcheck =>
    have hsteady := h.steady hcheck (by simp)
    exact h.createLock.checkFails fun hblocked => .inr (steady_createLock hsteady hblocked)
  | undone hcheck =>
    have hsteady := h.steady hcheck (by simp)
    exact h.deleteLock.checkFails fun hblocked => .inr (steady_deleteLock hsteady hblocked)
  | notCreated hcheck | notUndone hcheck =>
    exact h.checkFails fun hblocked => .inr (h.steady hcheck (by simp) hblocked)

omit [DecidableEq κ] in
/-- A dispatched call that is not for a child event does nothing, and another lists the children. -/
theorem Rearming.call (h : Rearming Q s) {g : LockingGet} (hcall : (s.gets i).CalledBack g) :
    Rearming Q (s.setGet i g) := by
  cases hcall with
  | passes hcalls htype =>
    refine h.setGet rfl rfl fun hstage hvalue => ?_
    rcases h.watchful i ⟨hstage, hvalue⟩ with (hin | hlisting) | hboth
    · rw [hcalls] at hin
      rcases List.mem_cons.mp hin with heq | hin
      · exact absurd heq.symm htype
      · exact .inl (.inl hin)
    · exact .inl (.inr hlisting)
    · exact .inr hboth
  | spent _ _ hover =>
    refine h.setGet rfl rfl fun hstage hvalue => ?_
    rw [h.running i hstage, show (s.gets i).value = none from hvalue] at hover
    rcases hover with hover | hover <;> cases hover
  | lists _ _ _ _ => exact h.setGet rfl rfl fun _ _ => .inl (.inr rfl)

theorem Rearming.get (h : Rearming Q s) {timed : Bool} (hnew : (s.gets i).called = false) :
    Rearming Q ((s.setGet i
      { s.gets i with called := true, timed := timed, check := .listing, inline := true }).setStage
        (Q.client i) (.getting i)) := by
  generalize hg : ({ s.gets i with
    called := true, timed := timed, check := .listing, inline := true } : LockingGet) = g
  have hget : ((s.setGet i g).setStage (Q.client i) (.getting i)).gets i = g :=
    Function.update_self _ _ _
  have hcanceled : g.canceled = false := by
    rw [← hg, ← Bool.not_eq_true]
    intro hover
    rw [h.called i (.inr hover)] at hnew
    cases hnew
  refine h.of_step (i := i) (fun j hj hstage => ?_) (fun j hj => ?_) ?_ ?_ fun _ => ?_
  · by_cases heq : Q.client j = Q.client i
    · rw [heq, show (((s.setGet i g).setStage (Q.client i) (.getting i)).objects (Q.client i)).stage =
        .getting i by simp [Holdings.setStage, Holdings.setObject]] at hstage
      injection hstage with hstage
      exact absurd hstage.symm hj
    · rw [show ((s.setGet i g).setStage (Q.client i) (.getting i)).objects (Q.client j) =
        s.objects (Q.client j) from Function.update_of_ne heq _ _] at hstage
      exact hstage
  · rw [show ((s.setGet i g).setStage (Q.client i) (.getting i)).gets j = s.gets j from
      Function.update_of_ne hj _ _]
    exact .refl
  · rw [hget, ← hg]
    exact fun _ => rfl
  · rw [hget]
    exact fun _ => hcanceled
  · rw [hget, ← hg]
    exact .inl (.inr rfl)

theorem Rearming.finish (h : Rearming Q s) {o : HolderObject ι}
    (hstage : (s.objects (Q.client i)).stage = .getting i) (habsent : o.stage = .absent) :
    Rearming Q ((s.setGet i { s.gets i with canceled := true }).setObject (Q.client i) o) := by
  generalize hg : ({ s.gets i with canceled := true } : LockingGet) = g
  have hget : ((s.setGet i g).setObject (Q.client i) o).gets i = g := Function.update_self _ _ _
  have hobject : ((s.setGet i g).setObject (Q.client i) o).objects (Q.client i) = o :=
    Function.update_self _ _ _
  refine h.of_step (i := i) (fun j _ hj => ?_) (fun j hj => ?_) (fun _ => ?_) (fun hj => ?_) fun hj => ?_
  · by_cases heq : Q.client j = Q.client i
    · rw [heq, hobject, habsent] at hj
      cases hj
    · rw [show ((s.setGet i g).setObject (Q.client i) o).objects (Q.client j) =
        s.objects (Q.client j) from Function.update_of_ne heq _ _] at hj
      exact hj
  · rw [show ((s.setGet i g).setObject (Q.client i) o).gets j = s.gets j from
      Function.update_of_ne hj _ _]
    exact .refl
  · rw [hget, ← hg]
    exact h.called i (.inl hstage)
  · rw [hobject, habsent] at hj
    cases hj
  · have hin := hj.1
    rw [hobject, habsent] at hin
    cases hin

omit [DecidableEq ι] in
/-- Who is about to list the children does not need its watches. -/
theorem Rearming.drop (h : Rearming Q s) (hok : s.Rearmed Q (.drop c)) :
    Rearming Q { s.setObject c { s.objects c with connected := false } with
      gets := fun i => if Q.client i = c then (s.gets i).dropped else s.gets i } := by
  have hs : Rearming Q (s.setObject c { s.objects c with connected := false }) :=
    h.setObject fun _ h' => h'
  have hstage (j : ι) : (Function.update s.objects c { s.objects c with connected := false }
      (Q.client j)).stage = (s.objects (Q.client j)).stage := by
    by_cases heq : Q.client j = c
    · rw [heq, Function.update_self]
    · rw [Function.update_of_ne heq]
  refine ⟨fun j hj => ?_, fun j hj => ?_, fun j hj => ?_⟩
  · show (if Q.client j = c then (s.gets j).dropped else s.gets j).called = true
    replace hj : (Function.update s.objects c { s.objects c with connected := false }
        (Q.client j)).stage = .getting j ∨
      (if Q.client j = c then (s.gets j).dropped else s.gets j).canceled = true := hj
    rw [hstage] at hj
    by_cases hc : Q.client j = c
    · rw [if_pos hc] at hj ⊢
      exact h.called j hj
    · rw [if_neg hc] at hj ⊢
      exact h.called j hj
  · show (if Q.client j = c then (s.gets j).dropped else s.gets j).canceled = false
    split <;> exact hs.running j hj
  · have hblocked : s.Blocked Q j := by
      refine ⟨(hstage j).symm.trans hj.1, ?_⟩
      have hvalue : (if Q.client j = c then (s.gets j).dropped else s.gets j).value = none := hj.2
      split at hvalue <;> exact hvalue
    show (if Q.client j = c then (s.gets j).dropped else s.gets j).Watchful
    split
    case isTrue hc =>
      refine .inl ((hok j hc hblocked).imp_left fun hin => ?_)
      exact List.mem_append_left _ hin
    case isFalse => exact h.watchful j hblocked

theorem Rearming.step (h : Rearming Q s) {act : HoldingAct κ ι} (hstep : s.step Q act = some t)
    (hok : s.Rearmed Q act) : Rearming Q t := by
  cases steps_of_step hstep with
  | put _ _ | settle _ _ => exact h.setStage fun _ => by simp
  | get _ _ hnew => exact h.get hnew
  | go _ hgo => exact h.moved (moved_of_goOn hgo)
  | check _ hgoes => exact h.checkOn hgoes
  | deliver _ => exact h.setGet rfl rfl fun _ _ => .inl (.inl (by simp))
  | call hcall => exact h.call hcall
  | finish hstage _ _ => exact h.finish hstage rfl
  | drop _ => exact h.drop hok
  | reconnect _ => exact h.setObject fun _ h' => h'
  | lose _ hloses => exact h.moved (moved_of_loses hloses)
  | loseCheck _ hlost => exact h.checkLoses hok hlost

/-- While a call of `get` waits, and no check is running or on its way, both of its watches are there. -/
theorem get_watched (hr : (holding Q).Reach (Rearmed Q) s) (hblocked : s.Blocked Q i)
    (hcheck : (s.gets i).check = .absent) (hcalls : EventType.CHILD ∉ (s.gets i).calls)
    (hevents : ∀ node, (s.gets i).event node = false) (node : QueueNode) :
    (s.gets i).watch node = true := by
  have h : Rearming Q s := hr.invariant rearming_new fun s act _ h hen hact => by
    obtain ⟨t, hstep⟩ := Option.isSome_iff_exists.mp hen
    show Rearming Q ((s.step Q act).getD s)
    rw [hstep]
    exact h.step hstep hact
  have hsteady := (h.watchful i hblocked).steady (by simp [hcheck]) (by simp [hcheck])
  obtain ⟨hentries, htaken⟩ := hsteady.resolve_left hcalls
  have hwatch (node : QueueNode) (hregistered : (s.gets i).Registered node) :
      (s.gets i).watch node = true :=
    hregistered.resolve_right (by rw [hevents node]; exact Bool.false_ne_true)
  cases node with
  | entries => exact hwatch .entries hentries
  | taken => exact hwatch .taken htaken

end Holdings

/-- The connection is lost when a call of `check_for_updates` is dispatched.  It finds the entry taken. -/
def getRearmed : List (HoldingAct Bool Bool) :=
  [.get true false, .check true, .check true, .put false 100 [[7]], .go false, .deliver true .entries,
    .drop true, .reconnect true, .get false false, .check false, .check false, .check false,
    .check false, .finish false, .call true, .check true, .check true, .call true]

theorem Holdings.get_watched_twoHolders :
    let s := (holding twoHolders).exec .new getRearmed
    s.Blocked twoHolders true ∧ ∀ node, (s.gets true).watch node = true := by
  intro s
  have hblocked : s.Blocked twoHolders true := ⟨by decide +kernel, by decide +kernel⟩
  refine ⟨hblocked, Holdings.get_watched (.of_legal (by decide +kernel)) hblocked
    (by decide +kernel) (by decide +kernel) fun node => ?_⟩
  cases node <;> decide +kernel

/-- The connection is lost while nothing is on its way. -/
def getForgotten : List (HoldingAct Bool Bool) :=
  [.get true false, .check true, .check true, .drop true, .reconnect true, .call true, .call true]

theorem Holdings.get_unwatched :
    let s := (holding twoHolders).exec .new getForgotten
    (holding twoHolders).Reachable s ∧ (s.objects true).connected = true ∧
      s.Blocked twoHolders true ∧ (s.gets true).check = .absent ∧ (s.gets true).calls = [] ∧
        (∀ node, (s.gets true).event node = false) ∧ ∀ node, (s.gets true).watch node = false := by
  intro s
  refine ⟨.of_legal (by decide +kernel), by decide +kernel, ⟨by decide +kernel, by decide +kernel⟩,
    by decide +kernel, by decide +kernel, fun node => ?_, fun node => ?_⟩
  · cases node <;> decide +kernel
  · cases node <;> decide +kernel

end Kazoo
