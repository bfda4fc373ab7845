import Kazoo.AsyncResult
import Kazoo.Lib.Machine
import Mathlib.Data.Fintype.Basic
import Mathlib.Logic.Function.Basic

/-!
# Waiting for an AsyncResult

`get` of the result object of `kazoo/handlers/utils.py`, by any number of threads, while others complete
the result.  The condition of the result is held by one thread at a time, and given up in
`_condition.wait`.
-/

namespace Kazoo

variable {ι κ ν : Type}

/-- What `get` returns or raises, where the result is ready. -/
def AsyncResult.outcome (r : AsyncResult κ ν) : Option (Except Exn (Option ν)) :=
  r.exception.map fun
    | none => .ok r.value
    | some e => .error e

/-- Where a thread inside `get` is. -/
inductive ResultWaiterStage (ν : Type)
  | outside
  -- about to take the condition
  | entering
  -- in `_condition.wait`
  | waiting
  -- notified, or timed out, and about to take the condition again
  | resuming
  -- what it has got; `none` is a `TimeoutError`
  | done (result : Option (Except Exn (Option ν)))

structure ResultWaiter (ν : Type) where
  stage : ResultWaiterStage ν
  blocking : Bool
  -- whether `timeout` is not `None`
  timed : Bool

structure Awaited (ι κ ν : Type) where
  result : AsyncResult κ ν
  -- the thread inside `set` or `set_exception`: the callbacks that `_do_callbacks` has not come to
  completing : Option (List κ)
  waiters : ι → ResultWaiter ν
  -- history: what the result has been completed with
  outcomes : List (Except Exn (Option ν))

inductive AwaitAct (ι κ ν : Type)
  | call (i : ι) (blocking timed : Bool)
  | enter (i : ι)
  | timeOut (i : ι)
  | resume (i : ι)
  | set (value : ν)
  | setException (exception : Exn)
  -- the next callback is put on the queue, or called and returns
  | dispatch
  -- the next callback is called, and raises
  | raise
  | notifyAll
  | rawlink (callback : κ)
  | unlink (callback : κ)

namespace Awaited

def new : Awaited ι κ ν where
  result := ⟨none, none, []⟩
  completing := none
  waiters := fun _ => ⟨.outside, false, false⟩
  outcomes := []

/-- Nobody holds the condition. -/
def Free (s : Awaited ι κ ν) : Prop := s.completing = none

instance (s : Awaited ι κ ν) : Decidable s.Free :=
  match h : s.completing with
  | none => .isTrue h
  | some _ => .isFalse fun hnone => by cases h.symm.trans hnone

/-- `set` and `set_exception`, up to `_do_callbacks`. -/
def complete (result : AsyncResult κ ν) (outcome : Except Exn (Option ν)) (s : Awaited ι κ ν) :
    Awaited ι κ ν :=
  { s with result, completing := some result.callbacks, outcomes := outcome :: s.outcomes }

def notified (w : ResultWaiter ν) : ResultWaiter ν :=
  match w.stage with
  | .waiting => { w with stage := .resuming }
  | _ => w

variable [DecidableEq ι] [DecidableEq κ]

def setStage (i : ι) (stage : ResultWaiterStage ν) (s : Awaited ι κ ν) : Awaited ι κ ν :=
  { s with waiters := Function.update s.waiters i { s.waiters i with stage } }

def step (s : Awaited ι κ ν) : AwaitAct ι κ ν → Option (Awaited ι κ ν)
  | .call i blocking timed =>
    match (s.waiters i).stage with
    | .outside => some { s with waiters := Function.update s.waiters i ⟨.entering, blocking, timed⟩ }
    | _ => none
  | .enter i =>
    match (s.waiters i).stage with
    | .entering =>
      if s.Free then
        some (
          match s.result.outcome with
          | some r => s.setStage i (.done (some r))
          | none => s.setStage i (if (s.waiters i).blocking then .waiting else .done none))
      else none
    | _ => none
  | .timeOut i =>
    match (s.waiters i).stage with
    | .waiting => if (s.waiters i).timed then some (s.setStage i .resuming) else none
    | _ => none
  | .resume i =>
    match (s.waiters i).stage with
    | .resuming => if s.Free then some (s.setStage i (.done s.result.outcome)) else none
    | _ => none
  | .set value =>
    if s.Free then
      some (s.complete { s.result with value := some value, exception := some none } (.ok (some value)))
    else none
  | .setException e =>
    if s.Free then some (s.complete { s.result with exception := some (some e) } (.error e)) else none
  | .dispatch =>
    match s.completing with
    | some (_ :: rest) => some { s with completing := some rest }
    | _ => none
  -- the exception leaves `set`, and the condition is free
  | .raise =>
    match s.completing with
    | some (_ :: _) => some { s with completing := none }
    | _ => none
  | .notifyAll =>
    match s.completing with
    | some [] => some { s with completing := none, waiters := fun i => notified (s.waiters i) }
    | _ => none
  | .rawlink callback =>
    if s.Free ∧ callback ∉ s.result.callbacks then
      some { s with result := { s.result with callbacks := s.result.callbacks ++ [callback] } }
    else none
  | .unlink callback =>
    if s.Free ∧ s.result.exception = none then
      some { s with result := { s.result with callbacks := s.result.callbacks.erase callback } }
    else none

end Awaited

/-- All interleavings of the threads. -/
def awaiting (ι κ ν : Type) [DecidableEq ι] [DecidableEq κ] : Machine (Awaited ι κ ν) (AwaitAct ι κ ν) where
  init := .new
  enabled := fun s act => (s.step act).isSome
  post := fun s act => (s.step act).getD s

instance [DecidableEq ι] [DecidableEq κ] (s : Awaited ι κ ν) (act : AwaitAct ι κ ν) :
    Decidable ((awaiting ι κ ν).enabled s act) :=
  inferInstanceAs (Decidable ((s.step act).isSome = true))

namespace Awaited

/-! ## What a step does -/

variable [DecidableEq ι] [DecidableEq κ] {s s' : Awaited ι κ ν} {act : AwaitAct ι κ ν}

/-- All that a step can do. -/
inductive Steps (s : Awaited ι κ ν) : AwaitAct ι κ ν → Awaited ι κ ν → Prop
  | call {i : ι} {blocking timed : Bool} (hstage : (s.waiters i).stage = .outside) :
    Steps s (.call i blocking timed)
      { s with waiters := Function.update s.waiters i ⟨.entering, blocking, timed⟩ }
  | enterReady {i : ι} {r : Except Exn (Option ν)} (hstage : (s.waiters i).stage = .entering)
      (hfree : s.Free) (hready : s.result.outcome = some r) :
    Steps s (.enter i) (s.setStage i (.done (some r)))
  | enter {i : ι} (hstage : (s.waiters i).stage = .entering) (hfree : s.Free)
      (hpending : s.result.outcome = none) :
    Steps s (.enter i) (s.setStage i (if (s.waiters i).blocking then .waiting else .done none))
  | timeOut {i : ι} (hstage : (s.waiters i).stage = .waiting) (htimed : (s.waiters i).timed = true) :
    Steps s (.timeOut i) (s.setStage i .resuming)
  | resume {i : ι} (hstage : (s.waiters i).stage = .resuming) (hfree : s.Free) :
    Steps s (.resume i) (s.setStage i (.done s.result.outcome))
  | set {value : ν} (hfree : s.Free) :
    Steps s (.set value)
      (s.complete { s.result with value := some value, exception := some none } (.ok (some value)))
  | setException {e : Exn} (hfree : s.Free) :
    Steps s (.setException e) (s.complete { s.result with exception := some (some e) } (.error e))
  | dispatch {callback : κ} {rest : List κ} (hcompleting : s.completing = some (callback :: rest)) :
    Steps s .dispatch { s with completing := some rest }
  | raise {callback : κ} {rest : List κ} (hcompleting : s.completing = some (callback :: rest)) :
    Steps s .raise { s with completing := none }
  | notifyAll (hcompleting : s.completing = some []) :
    Steps s .notifyAll { s with completing := none, waiters := fun i => notified (s.waiters i) }
  | rawlink {callback : κ} (hfree : s.Free) :
    Steps s (.rawlink callback)
      { s with result := { s.result with callbacks := s.result.callbacks ++ [callback] } }
  | unlink {callback : κ} (hfree : s.Free) :
    Steps s (.unlink callback)
      { s with result := { s.result with callbacks := s.result.callbacks.erase callback } }

theorem steps_of_step (h : s.step act = some s') : Steps s act s' := by
  cases act <;> simp only [step] at h
  case call i blocking timed =>
    split at h <;> cases h
    exact .call ‹_›
  case enter i =>
    split at h
    · next hstage =>
      obtain ⟨hfree, h⟩ := Option.ite_none_right_eq_some.mp h
      split at h <;> cases h
      · exact .enterReady hstage hfree ‹_›
      · exact .enter hstage hfree ‹_›
    · cases h
  case timeOut i =>
    split at h
    · next hstage =>
      obtain ⟨htimed, ⟨⟩⟩ := Option.ite_none_right_eq_some.mp h
      exact .timeOut hstage htimed
    · cases h
  case resume i =>
    split at h
    · next hstage =>
      obtain ⟨hfree, ⟨⟩⟩ := Option.ite_none_right_eq_some.mp h
      exact .resume hstage hfree
    · cases h
  case set value =>
    obtain ⟨hfree, ⟨⟩⟩ := Option.ite_none_right_eq_some.mp h
    exact .set hfree
  case setException e =>
    obtain ⟨hfree, ⟨⟩⟩ := Option.ite_none_right_eq_some.mp h
    exact .setException hfree
  case dispatch =>
    split at h <;> cases h
    exact .dispatch ‹_›
  case raise =>
    split at h <;> cases h
    exact .raise ‹_›
  case notifyAll =>
    split at h <;> cases h
    exact .notifyAll ‹_›
  case rawlink callback =>
    obtain ⟨hcond, ⟨⟩⟩ := Option.ite_none_right_eq_some.mp h
    exact .rawlink hcond.1
  case unlink callback =>
    obtain ⟨hcond, ⟨⟩⟩ := Option.ite_none_right_eq_some.mp h
    exact .unlink hcond.1

theorem post_of_enabled (hen : (awaiting ι κ ν).enabled s act) :
    s.step act = some ((awaiting ι κ ν).post s act) := by
  obtain ⟨s', hs'⟩ := Option.isSome_iff_exists.mp hen
  show s.step act = some ((s.step act).getD s)
  rw [hs', Option.getD_some]

omit [DecidableEq κ] in
theorem stage_setStage {i j : ι} {stage : ResultWaiterStage ν} :
    ((s.setStage i stage).waiters j).stage = if j = i then stage else (s.waiters j).stage := by
  unfold setStage
  by_cases hj : j = i
  · subst hj
    simp
  · simp [hj]

/-! ## Waiters that are woken -/

/-- The result is ready, nobody is completing it, and the thread is not notified. -/
def Stranded (s : Awaited ι κ ν) (i : ι) : Prop :=
  (s.waiters i).stage = .waiting ∧ s.result.outcome ≠ none ∧ s.Free

/-- A callback that is called right away raises, and with it `set` or `set_exception`, while a thread is
waiting. -/
def Strands (s : Awaited ι κ ν) : AwaitAct ι κ ν → Prop
  | .raise => ∃ i, (s.waiters i).stage = .waiting
  | _ => False

/-- Whoever is completing the result has set it. -/
theorem ready_step (h : s.completing ≠ none → s.result.outcome ≠ none) (hsteps : Steps s act s') :
    s'.completing ≠ none → s'.result.outcome ≠ none := by
  cases hsteps with
  | call | enterReady | enter | timeOut | resume => exact h
  | set | setException => exact fun _ => Option.some_ne_none _
  | dispatch hcompleting => exact fun _ => h (by rw [hcompleting]; exact Option.some_ne_none _)
  | raise | notifyAll => exact fun hnot => absurd rfl hnot
  | rawlink | unlink => exact h

/-- Every waiting thread is going to be notified. -/
def Attended (s : Awaited ι κ ν) : Prop := ∀ i, ¬ s.Stranded i

omit [DecidableEq κ] [DecidableEq ι] in
theorem attended_new : (new : Awaited ι κ ν).Attended := by
  rintro i ⟨hwaiting, -, -⟩
  cases hwaiting

theorem attended_step (h : s.Attended) (hsteps : Steps s act s') (hok : ¬ s.Strands act) : s'.Attended := by
  have hset : ∀ {i : ι} {stage : ResultWaiterStage ν}, (stage = .waiting → s.result.outcome = none) →
      (s.setStage i stage).Attended := by
    rintro i stage hpending j ⟨hwaiting, hready, hfree⟩
    rw [stage_setStage] at hwaiting
    split at hwaiting
    · exact hready (hpending hwaiting)
    · exact h j ⟨hwaiting, hready, hfree⟩
  cases hsteps with
  | @call i blocking timed =>
    rintro j ⟨hwaiting, hready, hfree⟩
    by_cases hj : j = i
    · subst hj
      simp at hwaiting
    · simp only [Function.update_of_ne hj] at hwaiting
      exact h j ⟨hwaiting, hready, hfree⟩
  | enterReady => exact hset nofun
  | enter _ _ hpending => exact hset fun _ => hpending
  | timeOut => exact hset nofun
  | resume => exact hset nofun
  | set | setException =>
    rintro j ⟨-, -, hfree⟩
    cases hfree
  | dispatch =>
    rintro j ⟨-, -, hfree⟩
    cases hfree
  | raise =>
    rintro j ⟨hwaiting, -, -⟩
    exact hok ⟨j, hwaiting⟩
  | notifyAll =>
    rintro j ⟨hwaiting, -, -⟩
    revert hwaiting
    show (notified (s.waiters j)).stage ≠ .waiting
    unfold notified
    split
    · nofun
    · assumption
  | rawlink | unlink =>
    rintro j ⟨hwaiting, hready, hfree⟩
    exact h j ⟨hwaiting, hready, hfree⟩

theorem stranded_of_strands (hready : s.completing ≠ none → s.result.outcome ≠ none)
    (hsteps : Steps s act s') (hstrands : s.Strands act) : ∃ i, s'.Stranded i := by
  cases hsteps with
  | raise hcompleting =>
    obtain ⟨i, hwaiting⟩ := hstrands
    exact ⟨i, hwaiting, hready (by rw [hcompleting]; exact Option.some_ne_none _), rfl⟩
  | _ => exact hstrands.elim

theorem attended_run_iff {acts : List (AwaitAct ι κ ν)} (h : s.Attended)
    (hready : s.completing ≠ none → s.result.outcome ≠ none)
    (hlegal : (awaiting ι κ ν).Legal Machine.Free s acts) :
    (awaiting ι κ ν).Legal (fun s act => ¬ s.Strands act) s acts ↔
      ∀ before after, acts = before ++ after → ((awaiting ι κ ν).exec s before).Attended := by
  induction acts generalizing s with
  | nil =>
    refine iff_of_true trivial fun before after heq => ?_
    rw [(List.append_eq_nil_iff.mp heq.symm).1]
    exact h
  | cons act acts ih =>
    obtain ⟨hen, -, hrest⟩ := hlegal
    have hsteps := steps_of_step (post_of_enabled hen)
    have hnext := ready_step hready hsteps
    constructor
    · rintro ⟨-, hok, hokRest⟩ before after heq
      cases before with
      | nil => exact h
      | cons first before =>
        obtain ⟨rfl, hsplit⟩ := List.cons.inj heq
        exact (ih (attended_step h hsteps hok) hnext hrest).mp hokRest before after hsplit
    · intro hattended
      have hok : ¬ s.Strands act := fun hstrands => by
        obtain ⟨i, hstranded⟩ := stranded_of_strands hready hsteps hstrands
        exact hattended [act] acts rfl i hstranded
      refine ⟨hen, hok, (ih (attended_step h hsteps hok) hnext hrest).mpr fun before after hsplit => ?_⟩
      exact hattended (act :: before) after (by rw [hsplit]; rfl)

/-- In a run no thread is ever left waiting for a result that is there, if and only if no callback that is
called right away raises while a thread is waiting. -/
theorem waiters_woken_iff {acts : List (AwaitAct ι κ ν)}
    (hlegal : (awaiting ι κ ν).Legal Machine.Free .new acts) :
    (∀ before after, acts = before ++ after → ∀ i, ¬ ((awaiting ι κ ν).exec .new before).Stranded i) ↔
      (awaiting ι κ ν).Legal (fun s act => ¬ s.Strands act) .new acts := by
  exact (attended_run_iff attended_new (fun hnot => absurd rfl hnot) hlegal).symm

/-! ## What the threads get -/

/-- What is said of one thread. -/
structure Answered (s : Awaited ι κ ν) (w : ResultWaiter ν) : Prop where
  waiting : w.stage = .waiting → w.blocking = true
  resuming : w.stage = .resuming → s.result.outcome ≠ none ∨ w.timed = true
  got : ∀ r, w.stage = .done (some r) → r ∈ s.outcomes
  timedOut : w.stage = .done none → w.timed = true ∨ w.blocking = false

structure Sound (s : Awaited ι κ ν) : Prop where
  ready : s.completing ≠ none → s.result.outcome ≠ none
  outcome : ∀ r, s.result.outcome = some r → r ∈ s.outcomes
  answered : ∀ i, s.Answered (s.waiters i)

omit [DecidableEq ι] [DecidableEq κ] in
/-- A thread is answered as well where the result is not set back. -/
theorem Answered.of_outcome {w : ResultWaiter ν} (h : s.Answered w)
    (hready : s.result.outcome ≠ none → s'.result.outcome ≠ none)
    (houtcomes : ∀ r, r ∈ s.outcomes → r ∈ s'.outcomes) : s'.Answered w :=
  ⟨h.waiting, fun hw => (h.resuming hw).imp hready id, fun r hr => houtcomes r (h.got r hr), h.timedOut⟩

omit [DecidableEq κ] in
/-- A step of one thread. -/
theorem Sound.update (h : s.Sound) {i : ι} {w : ResultWaiter ν} (hw : s.Answered w) :
    Sound { s with waiters := Function.update s.waiters i w } := by
  refine ⟨h.ready, h.outcome, fun j => ?_⟩
  by_cases hj : j = i
  · subst hj
    simp only [Function.update_self]
    exact hw.of_outcome id fun _ => id
  · simp only [Function.update_of_ne hj]
    exact (h.answered j).of_outcome id fun _ => id

omit [DecidableEq ι] [DecidableEq κ] in
/-- `set` and `set_exception`. -/
theorem Sound.complete (h : s.Sound) {result : AsyncResult κ ν} {outcome : Except Exn (Option ν)}
    (hresult : result.outcome = some outcome) : (s.complete result outcome).Sound := by
  have hready : result.outcome ≠ none := by
    rw [hresult]
    exact Option.some_ne_none _
  refine ⟨fun _ => hready, fun r hr => ?_, fun i => ?_⟩
  · obtain rfl : outcome = r := Option.some.inj (hresult.symm.trans hr)
    exact List.mem_cons_self
  · exact (h.answered i).of_outcome (fun _ => hready) fun _ => List.mem_cons_of_mem _

theorem sound_step (h : s.Sound) (hsteps : Steps s act s') : s'.Sound := by
  cases hsteps with
  | call => exact h.update ⟨nofun, nofun, nofun, nofun⟩
  | @enterReady i r _ _ hready =>
    apply h.update
    refine ⟨nofun, nofun, fun got hgot => ?_, nofun⟩
    obtain rfl : r = got := Option.some.inj (ResultWaiterStage.done.inj hgot)
    exact h.outcome r hready
  | @enter i =>
    apply h.update
    cases hblocking : (s.waiters i).blocking with
    | true => exact ⟨fun _ => hblocking, nofun, nofun, nofun⟩
    | false => exact ⟨nofun, nofun, nofun, fun _ => .inr hblocking⟩
  | timeOut _ htimed =>
    apply h.update
    exact ⟨nofun, fun _ => .inr htimed, nofun, nofun⟩
  | @resume i hstage =>
    apply h.update
    refine ⟨nofun, nofun, fun r hr => h.outcome r (ResultWaiterStage.done.inj hr), fun hnone => ?_⟩
    have hpending : s.result.outcome = none := ResultWaiterStage.done.inj hnone
    exact ((h.answered i).resuming hstage).elim (absurd hpending) .inl
  | set => exact h.complete rfl
  | setException => exact h.complete rfl
  | dispatch hcompleting =>
    have hready : s.result.outcome ≠ none := h.ready (by rw [hcompleting]; exact Option.some_ne_none _)
    exact ⟨fun _ => hready, h.outcome, fun i => (h.answered i).of_outcome id fun _ => id⟩
  | raise =>
    exact ⟨fun hnot => absurd rfl hnot, h.outcome, fun i => (h.answered i).of_outcome id fun _ => id⟩
  | notifyAll hcompleting =>
    have hready : s.result.outcome ≠ none := h.ready (by rw [hcompleting]; exact Option.some_ne_none _)
    refine ⟨fun hnot => absurd rfl hnot, h.outcome, fun i => ?_⟩
    show Answered _ (notified (s.waiters i))
    unfold notified
    split
    · exact ⟨nofun, fun _ => .inl hready, nofun, nofun⟩
    · exact (h.answered i).of_outcome id fun _ => id
  | rawlink | unlink => exact ⟨h.ready, h.outcome, fun i => (h.answered i).of_outcome id fun _ => id⟩

theorem sound_of_reachable {ok : Awaited ι κ ν → AwaitAct ι κ ν → Prop}
    (hreach : (awaiting ι κ ν).Reach ok s) : s.Sound := by
  apply Machine.Reach.invariant (P := Sound) _ _ hreach
  · exact ⟨fun hnot => absurd rfl hnot, nofun, fun _ => ⟨nofun, nofun, nofun, nofun⟩⟩
  · exact fun s act _ hsound hen _ => sound_step hsound (steps_of_step (post_of_enabled hen))

theorem attended_of_reach (hreach : (awaiting ι κ ν).Reach (fun s act => ¬ s.Strands act) s) :
    s.Attended := by
  apply Machine.Reach.invariant (P := Attended) attended_new _ hreach
  intro s act _ hattended hen hok
  exact attended_step hattended (steps_of_step (post_of_enabled hen)) hok

/-- `get` gives what the result was completed with, and raises a `TimeoutError` only if it was called with
`block=False` or with a timeout.  Once the result is ready and free, each thread still inside `get` gets it
with its own next step. -/
theorem get_answers (hreach : (awaiting ι κ ν).Reach (fun s act => ¬ s.Strands act) s) (i : ι) :
    (∀ r, (s.waiters i).stage = .done (some r) → r ∈ s.outcomes) ∧
    ((s.waiters i).stage = .done none → (s.waiters i).timed = true ∨ (s.waiters i).blocking = false) ∧
    (∀ r, s.Free → s.result.outcome = some r → (s.waiters i).stage ≠ .outside →
      (∀ got, (s.waiters i).stage ≠ .done got) →
      ∃ act, (act = .enter i ∨ act = .resume i) ∧ s.step act = some (s.setStage i (.done (some r)))) := by
  have hattended := attended_of_reach hreach
  have hanswered := (sound_of_reachable hreach).answered i
  refine ⟨hanswered.got, hanswered.timedOut, fun r hfree hready houtside hdone => ?_⟩
  cases hstage : (s.waiters i).stage with
  | outside => exact absurd hstage houtside
  | entering => exact ⟨.enter i, .inl rfl, by simp only [step, hstage, hready, if_pos hfree]⟩
  | waiting => exact absurd ⟨hstage, by rw [hready]; exact Option.some_ne_none r, hfree⟩ (hattended i)
  | resuming => exact ⟨.resume i, .inr rfl, by simp only [step, hstage, hready, if_pos hfree]⟩
  | done got => exact absurd hstage (hdone got)

/-! ## Runs -/

instance (w : ResultWaiter ν) : Decidable (w.stage = .waiting) :=
  match w.stage with
  | .waiting => .isTrue rfl
  | .outside | .entering | .resuming | .done _ => .isFalse nofun

instance [Fintype ι] (s : Awaited ι κ ν) (act : AwaitAct ι κ ν) : Decidable (s.Strands act) :=
  match act with
  | .raise => inferInstanceAs (Decidable (∃ i, (s.waiters i).stage = .waiting))
  | .call .. | .enter _ | .timeOut _ | .resume _ | .set _ | .setException _ | .dispatch | .notifyAll
  | .rawlink _ | .unlink _ => .isFalse id

/-- A thread waits, and another comes when the result is set. -/
def firstWaits : List (AwaitAct Bool Unit Nat) :=
  [.call false true false, .rawlink (), .enter false, .call true true false, .set 7, .dispatch, .notifyAll]

/-- The client is stopped, and the callback raises. -/
def callbackRaises : List (AwaitAct Bool Unit Nat) :=
  [.call false true false, .rawlink (), .enter false, .set 7, .raise]

theorem waiters_woken_iff_callbackRaises :
    (∀ before after, firstWaits = before ++ after →
      ∀ i, ¬ ((awaiting Bool Unit Nat).exec .new before).Stranded i) ∧
    ¬ ∀ before after, callbackRaises = before ++ after →
      ∀ i, ¬ ((awaiting Bool Unit Nat).exec .new before).Stranded i :=
  ⟨(waiters_woken_iff (by decide +kernel)).mpr (by decide +kernel),
    (waiters_woken_iff (by decide +kernel)).not.mpr (by decide +kernel)⟩

theorem get_answers_firstWaits :
    ∃ act, (act = .enter true ∨ act = .resume true) ∧
      ((awaiting Bool Unit Nat).exec .new firstWaits).step act =
        some (((awaiting Bool Unit Nat).exec .new firstWaits).setStage true (.done (some (.ok (some 7))))) := by
  have hreach : (awaiting Bool Unit Nat).Reach (fun s act => ¬ s.Strands act)
      ((awaiting Bool Unit Nat).exec .new firstWaits) :=
    .of_legal (by decide +kernel)
  exact (get_answers hreach true).2.2 (.ok (some 7)) rfl rfl nofun nofun

end Awaited

end Kazoo
