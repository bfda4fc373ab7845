import Kazoo.Exceptions
import Kazoo.Text
import Mathlib.Algebra.BigOperators.Group.List.Basic
import Mathlib.Algebra.Order.Floor.Semiring
import Mathlib.Data.Rat.Floor
import Mathlib.Tactic.Linarith

/-!
# Retries

`KazooRetry` of `kazoo/retry.py`.  Times are rational numbers of seconds, so rounding is left out;
the clock moves while the retry sleeps and at no other time.
-/

namespace Kazoo

/-! ## The configuration -/

/-- What `KazooRetry.__init__` fixes.  Nobody can sleep for a negative time, so no duration is. -/
structure KazooRetry where
  -- `None` and `-1` are no bound
  maxTries : Option Int
  delay : ℚ
  delay_nonneg : 0 ≤ delay
  backoff : ℚ
  backoff_nonneg : 0 ≤ backoff
  maxJitter : ℚ
  maxJitter_nonneg : 0 ≤ maxJitter
  maxJitter_le_one : maxJitter ≤ 1
  maxDelay : ℚ
  maxDelay_nonneg : 0 ≤ maxDelay
  ignoreExpire : Bool
  deadline : Option ℚ
  -- whether there is an `interrupt` function
  interrupt : Bool

/-- `max(min(max_jitter, 1.0), 0.0)`. -/
def clampJitter (maxJitter : ℚ) : ℚ := max (min maxJitter 1) 0

theorem clampJitter_mem (maxJitter : ℚ) : 0 ≤ clampJitter maxJitter ∧ clampJitter maxJitter ≤ 1 :=
  ⟨le_max_right _ _, max_le (min_le_right _ _) zero_le_one⟩

/-- One turn of the loop of `__call__`, as its surroundings decide it. -/
structure RetryTurn (α : Type) where
  -- what `func` returns or raises
  outcome : Except Exn α
  -- `random.uniform(1.0 - self.max_jitter, 1.0 + self.max_jitter)`
  jitter : ℚ
  -- what `interrupt` returns each time that it is called
  interrupted : Nat → Bool

structure RetryState where
  attempts : Int
  curDelay : ℚ
  curStoptime : Option ℚ
  clock : ℚ
  -- when `func` was called
  calls : List ℚ
  -- the delays slept between two calls
  slept : List ℚ

/-- How a call of the retry ends. -/
inductive RetryEnd (α : Type)
  -- as `func` did
  | outcome (outcome : Except Exn α)
  -- `RetryFailedError`
  | failed (text : PyStr)
  -- `InterruptedError`
  | interrupted

namespace KazooRetry

variable (R : KazooRetry) {α : Type}

/-- `reset`. -/
def reset (clock : ℚ) : RetryState := ⟨0, R.delay, none, clock, [], []⟩

/-- Whether the exception is an instance of one of `retry_exceptions`. -/
def isRetryException (e : Exn) : Bool :=
  e = Exn.connectionLoss || e = Exn.operationTimeoutError || e = Exn.forceRetryError ||
    (R.ignoreExpire && (e = Exn.sessionExpiredError || e = Exn.connectionClosedError))

/-- Whether the loop goes on after the outcome, as long as the budget lasts. -/
def retryable : Except Exn α → Bool
  | .ok _ => false
  | .error e => e ≠ Exn.connectionClosedError && R.isRetryException e

/-! ## Sleeping -/

/-- The loop over `remain_time`: what it sleeps, and whether it is interrupted. -/
def slices (interrupted : Nat → Bool) (remainTime : ℚ) (n : Nat) : List ℚ × Bool :=
  if 0 < remainTime then
    if interrupted n then ([min (1 / 10) remainTime], true)
    else
      let (rest, cut) := slices interrupted (remainTime - 1 / 10) (n + 1)
      (min (1 / 10) remainTime :: rest, cut)
  else ([], false)
  termination_by ⌈10 * remainTime⌉₊
  decreasing_by
    have hpos : 0 < 10 * remainTime := by linarith
    have hle : 10 * (remainTime - 1 / 10) = 10 * remainTime - 1 := by ring
    rw [hle, Nat.ceil_sub_one]
    have := Nat.ceil_pos.mpr hpos
    omega

/-! ## The loop -/

def entered (s : RetryState) : RetryState :=
  { s with
    curStoptime := match R.deadline, s.curStoptime with
      | some deadline, none => some (s.clock + deadline)
      | _, curStoptime => curStoptime
    calls := s.calls ++ [s.clock] }

/-- The handler of the `retry_exceptions`. -/
def handle (turn : RetryTurn α) (s : RetryState) : RetryState × Option (RetryEnd α) :=
  let s := { s with attempts := s.attempts + 1 }
  if some s.attempts = R.maxTries then (s, some (.failed (str "Too many retry attempts")))
  else
    let sleeptime := s.curDelay * turn.jitter
    if s.curStoptime.any (s.clock + sleeptime ≥ ·) then
      (s, some (.failed (str "Exceeded retry deadline")))
    else if R.interrupt then
      let (parts, cut) := slices turn.interrupted sleeptime 0
      let s := { s with clock := s.clock + parts.sum }
      if cut then (s, some .interrupted)
      else
        ({ s with
          slept := s.slept ++ [parts.sum]
          curDelay := min (sleeptime * R.backoff) R.maxDelay }, none)
    else
      ({ s with
        clock := s.clock + sleeptime
        slept := s.slept ++ [sleeptime]
        curDelay := min (sleeptime * R.backoff) R.maxDelay }, none)

/-- The body of `while True`. -/
def attempt (turn : RetryTurn α) (s : RetryState) : RetryState × Option (RetryEnd α) :=
  let s := R.entered s
  match turn.outcome with
  | .ok value => (s, some (.outcome (.ok value)))
  | .error e =>
    if e = Exn.connectionClosedError then (s, some (.outcome (.error e)))
    else if R.isRetryException e then R.handle turn s
    else (s, some (.outcome (.error e)))

/-- The loop, for as many turns as are given. -/
def loop : RetryState → List (RetryTurn α) → RetryState × Option (RetryEnd α)
  | s, [] => (s, none)
  | s, turn :: turns =>
    match R.attempt turn s with
    | (s, some ended) => (s, some ended)
    | (s, none) => loop s turns

/-- `__call__`. -/
def call (clock : ℚ) (turns : List (RetryTurn α)) : RetryState × Option (RetryEnd α) :=
  R.loop (R.reset clock) turns

/-! ## What a turn does -/

section

variable {R} {s : RetryState} {t : RetryTurn α} {turns before : List (RetryTurn α)} {start : ℚ}

theorem slices_sum {interrupted : Nat → Bool} (remainTime : ℚ) (n : Nat)
    (hcut : (slices interrupted remainTime n).2 = false) :
    (slices interrupted remainTime n).1.sum = max remainTime 0 := by
  fun_induction slices interrupted remainTime n with
  | case1 remainTime n hpos hstop => cases hcut
  | case2 remainTime n hpos _ rest cut hrest ih =>
    rw [hrest] at ih
    rw [List.sum_cons, ih hcut, max_eq_left hpos.le]
    rcases le_total remainTime (1 / 10) with hle | hle
    · rw [min_eq_right hle, max_eq_right (by linarith), add_zero]
    · rw [min_eq_left hle, max_eq_left (by linarith)]
      ring
  | case3 remainTime n hpos => exact (max_eq_right (not_lt.mp hpos)).symm

theorem slices_uncut {interrupted : Nat → Bool} (hnot : ∀ n, interrupted n = false)
    (remainTime : ℚ) (n : Nat) : (slices interrupted remainTime n).2 = false := by
  fun_induction slices interrupted remainTime n with
  | case1 remainTime n hpos hcut => simp [hnot] at hcut
  | case2 remainTime n hpos _ rest cut hrest ih => rwa [hrest] at ih
  | case3 remainTime n hpos => rfl

/-- Sleeping in slices takes as long as sleeping at once. -/
theorem slices_sum_of_nonneg {interrupted : Nat → Bool} (hnot : ∀ n, interrupted n = false)
    {sleeptime : ℚ} (h : 0 ≤ sleeptime) : (slices interrupted sleeptime 0).1.sum = sleeptime := by
  rw [slices_sum sleeptime 0 (slices_uncut hnot sleeptime 0), max_eq_left h]

/-- What `random.uniform` may draw. -/
def Drawn (R : KazooRetry) (t : RetryTurn α) : Prop :=
  1 - R.maxJitter ≤ t.jitter ∧ t.jitter ≤ 1 + R.maxJitter

def Uninterrupted (t : RetryTurn α) : Prop := ∀ n, t.interrupted n = false

theorem Drawn.nonneg (h : R.Drawn t) : 0 ≤ t.jitter := by
  have := R.maxJitter_le_one
  linarith [h.1]

/-- The state after the delay. -/
def waited (R : KazooRetry) (sleeptime : ℚ) (s : RetryState) : RetryState :=
  { s with
    clock := s.clock + sleeptime
    slept := s.slept ++ [sleeptime]
    curDelay := min (sleeptime * R.backoff) R.maxDelay }

/-- With `s` after the failure has been counted, the budget ends there. -/
def Exhausted (R : KazooRetry) (s : RetryState) (jitter : ℚ) (text : PyStr) : Prop :=
  text = str "Too many retry attempts" ∧ R.maxTries = some s.attempts ∨
    text = str "Exceeded retry deadline" ∧ ∃ stop ∈ s.curStoptime, stop ≤ s.clock + s.curDelay * jitter

/-- The handler when nobody interrupts. -/
theorem handle_eq (hdrawn : R.Drawn t) (hnot : Uninterrupted t) (hdelay : 0 ≤ s.curDelay) :
    let counted := { s with attempts := s.attempts + 1 }
    R.handle t s =
      if some counted.attempts = R.maxTries then
        (counted, some (.failed (str "Too many retry attempts")))
      else if s.curStoptime.any (s.clock + s.curDelay * t.jitter ≥ ·) then
        (counted, some (.failed (str "Exceeded retry deadline")))
      else (R.waited (s.curDelay * t.jitter) counted, none) := by
  intro counted
  have hsum := slices_sum_of_nonneg hnot (mul_nonneg hdelay hdrawn.nonneg)
  have hcut := slices_uncut hnot (s.curDelay * t.jitter) 0
  rw [handle]
  dsimp only
  refine if_congr Iff.rfl rfl (if_congr Iff.rfl rfl ?_)
  split
  · rw [hcut, if_neg Bool.false_ne_true, hsum]
    rfl
  · rfl

theorem handle_spec (hdrawn : R.Drawn t) (hnot : Uninterrupted t) (hdelay : 0 ≤ s.curDelay) :
    let counted := { s with attempts := s.attempts + 1 }
    (∃ text, R.Exhausted counted t.jitter text ∧ R.handle t s = (counted, some (.failed text))) ∨
      some counted.attempts ≠ R.maxTries ∧
        (∀ stop ∈ s.curStoptime, s.clock + s.curDelay * t.jitter < stop) ∧
        R.handle t s = (R.waited (s.curDelay * t.jitter) counted, none) := by
  intro counted
  rw [handle_eq hdrawn hnot hdelay]
  split
  · next htries => exact .inl ⟨_, .inl ⟨rfl, htries.symm⟩, rfl⟩
  next htries =>
  split
  · next hstop =>
    obtain ⟨stop, hstop, hle⟩ := Option.any_eq_true _ _ |>.mp hstop
    exact .inl ⟨_, .inr ⟨rfl, stop, hstop, of_decide_eq_true hle⟩, rfl⟩
  · next hstop =>
    refine .inr ⟨htries, fun stop hmem => ?_, rfl⟩
    by_contra hge
    exact hstop (Option.any_eq_true _ _ |>.mpr ⟨stop, hmem, decide_eq_true (not_lt.mp hge)⟩)

/-- Nothing depends on how the delay is slept. -/
theorem attempt_interrupt (hdrawn : R.Drawn t) (hnot : Uninterrupted t) (hdelay : 0 ≤ s.curDelay)
    (interrupt : Bool) : { R with interrupt := interrupt }.attempt t s = R.attempt t s := by
  have hhandle : { R with interrupt := interrupt }.handle t (R.entered s) =
      R.handle t (R.entered s) := by
    exact (handle_eq (R := { R with interrupt := interrupt }) (s := R.entered s) hdrawn hnot
      hdelay).trans (handle_eq (s := R.entered s) hdrawn hnot hdelay).symm
  cases houtcome : t.outcome with
  | ok value => simp only [attempt, houtcome]; rfl
  | error e =>
    simp only [attempt, houtcome]
    exact if_congr Iff.rfl rfl (if_congr Iff.rfl hhandle rfl)

theorem attempt_of_not_retryable (h : R.retryable t.outcome = false) :
    R.attempt t s = (R.entered s, some (.outcome t.outcome)) := by
  cases houtcome : t.outcome with
  | ok value => simp only [attempt, houtcome]
  | error e =>
    simp only [houtcome, retryable, Bool.and_eq_false_iff, decide_eq_false_iff_not, not_not] at h
    simp only [attempt, houtcome]
    split
    · rfl
    · next hclosed => rw [h.resolve_left hclosed, if_neg Bool.false_ne_true]

theorem attempt_of_retryable (h : R.retryable t.outcome = true) :
    R.attempt t s = R.handle t (R.entered s) := by
  cases houtcome : t.outcome with
  | ok value => simp [houtcome, retryable] at h
  | error e =>
    simp only [houtcome, retryable, Bool.and_eq_true, decide_eq_true_eq] at h
    simp only [attempt, houtcome]
    rw [if_neg h.1, if_pos h.2]

/-! ## What a call does -/

/-- The state after the turns `before`, none of which has ended the call. -/
structure Going (R : KazooRetry) (start : ℚ) (before : List (RetryTurn α)) (s : RetryState) :
    Prop where
  attempts : s.attempts = before.length
  calls : s.calls.length = before.length
  retryable : ∀ t ∈ before, R.retryable t.outcome = true
  tries : ∀ n : Nat, 1 ≤ n → n ≤ before.length → R.maxTries ≠ some (n : Int)
  curDelay : 0 ≤ s.curDelay
  fresh : before = [] → s.clock = start ∧ s.curStoptime = none
  first : before ≠ [] → s.calls.head? = some start ∧ s.curStoptime = R.deadline.map (start + ·)
  late : ∀ deadline ∈ R.deadline, ∀ call ∈ s.calls.tail, call < start + deadline
  clock : ∀ deadline ∈ R.deadline, before ≠ [] → s.clock < start + deadline

theorem going_reset : R.Going (α := α) start [] (R.reset start) where
  attempts := rfl
  calls := rfl
  retryable := by simp
  tries n hn hle := by simp at hle; omega
  curDelay := R.delay_nonneg
  fresh _ := ⟨rfl, rfl⟩
  first h := absurd rfl h
  late _ _ _ h := absurd h List.not_mem_nil
  clock _ _ h := absurd rfl h

/-- The stop time is that of the first call. -/
theorem Going.entered_stoptime (h : R.Going start before s) :
    (R.entered s).curStoptime = R.deadline.map (start + ·) := by
  by_cases hbefore : before = []
  · obtain ⟨hclock, hstop⟩ := h.fresh hbefore
    simp only [entered, hclock, hstop]
    cases R.deadline <;> rfl
  · obtain ⟨-, hstop⟩ := h.first hbefore
    simp only [entered, hstop]
    cases R.deadline <;> rfl

theorem Going.entered_first (h : R.Going start before s) :
    (R.entered s).calls.head? = some start := by
  by_cases hbefore : before = []
  · obtain ⟨hclock, -⟩ := h.fresh hbefore
    have hcalls : s.calls = [] := by
      rw [← List.length_eq_zero_iff, h.calls, hbefore, List.length_nil]
    simp [entered, hcalls, hclock]
  · simp [entered, List.head?_append, (h.first hbefore).1]

/-- Every call but the first is in time. -/
theorem Going.entered_late (h : R.Going start before s) :
    ∀ deadline ∈ R.deadline, ∀ call ∈ (R.entered s).calls.tail, call < start + deadline := by
  intro deadline hdeadline call hcall
  have htail : (R.entered s).calls.tail = s.calls.tail ++ if before = [] then [] else [s.clock] := by
    have hlength := h.calls
    cases hcalls : s.calls with
    | nil =>
      rw [hcalls, List.length_nil] at hlength
      have hbefore := List.length_eq_zero_iff.mp hlength.symm
      simp [entered, hcalls, hbefore]
    | cons call calls =>
      rw [hcalls, List.length_cons] at hlength
      have hbefore : before ≠ [] := by
        rintro rfl
        simp at hlength
      simp [entered, hcalls, hbefore]
  rw [htail, List.mem_append] at hcall
  rcases hcall with hcall | hcall
  · exact h.late deadline hdeadline call hcall
  · split at hcall
    · exact absurd hcall List.not_mem_nil
    · next hbefore =>
      rw [List.mem_singleton.mp hcall]
      exact h.clock deadline hdeadline hbefore

/-- A failure that may be retried ends the call with the budget, or else another turn follows. -/
theorem Going.attempt (h : R.Going start before s) (hdrawn : R.Drawn t) (hnot : Uninterrupted t)
    (hretryable : R.retryable t.outcome = true) :
    let counted := { R.entered s with attempts := s.attempts + 1 }
    (∃ text, R.Exhausted counted t.jitter text ∧
      R.attempt t s = (counted, some (.failed text))) ∨
    ∃ s', R.attempt t s = (s', none) ∧ R.Going start (before ++ [t]) s' := by
  intro counted
  rw [attempt_of_retryable hretryable]
  rcases handle_spec (s := R.entered s) hdrawn hnot h.curDelay with hfailed | ⟨htries, hstop, hnext⟩
  · exact .inl hfailed
  refine .inr ⟨_, hnext, ?_⟩
  have hne : before ++ [t] ≠ [] := by simp
  exact {
    attempts := by
      show s.attempts + 1 = _
      rw [h.attempts, List.length_append, List.length_singleton]
      push_cast
      rfl
    calls := by
      show (s.calls ++ [s.clock]).length = _
      rw [List.length_append, List.length_append, h.calls]
      rfl
    retryable := fun u hu => by
      rcases List.mem_append.mp hu with hu | hu
      · exact h.retryable u hu
      · exact List.mem_singleton.mp hu ▸ hretryable
    tries := fun n hn hle hmax => by
      rw [List.length_append, List.length_singleton] at hle
      rcases Nat.lt_or_ge before.length n with hlt | hge
      · obtain rfl : n = before.length + 1 := by omega
        refine htries ?_
        rw [hmax]
        show some (s.attempts + 1) = _
        rw [h.attempts]
        push_cast
        rfl
      · exact h.tries n hn hge hmax
    curDelay := le_min (mul_nonneg (mul_nonneg h.curDelay hdrawn.nonneg) R.backoff_nonneg)
      R.maxDelay_nonneg
    fresh := fun hnil => absurd hnil hne
    first := fun _ => ⟨h.entered_first, h.entered_stoptime⟩
    late := h.entered_late
    clock := fun deadline hdeadline _ => hstop _ (by
      rw [h.entered_stoptime, hdeadline]
      rfl) }

/-- How the call stands after some turns: it goes on, or it ended as `func` did, or with the budget. -/
theorem loop_spec (h : R.Going start before s) (hdrawn : ∀ t ∈ turns, R.Drawn t)
    (hnot : ∀ t ∈ turns, Uninterrupted t) :
    (∃ s', R.loop s turns = (s', none) ∧ R.Going start (before ++ turns) s') ∨
    ∃ done t rest s', turns = done ++ t :: rest ∧ R.Going start (before ++ done) s' ∧
      (R.retryable t.outcome = false ∧
          R.loop s turns = (R.entered s', some (.outcome t.outcome)) ∨
        R.retryable t.outcome = true ∧ ∃ text,
          R.Exhausted { R.entered s' with attempts := s'.attempts + 1 } t.jitter text ∧
          R.loop s turns =
            ({ R.entered s' with attempts := s'.attempts + 1 }, some (.failed text))) := by
  induction turns generalizing s before with
  | nil => exact .inl ⟨s, rfl, by rwa [List.append_nil]⟩
  | cons t turns ih =>
    by_cases hretryable : R.retryable t.outcome = true
    · rcases h.attempt (hdrawn t List.mem_cons_self) (hnot t List.mem_cons_self) hretryable with
        ⟨text, hexhausted, hattempt⟩ | ⟨s', hattempt, hgoing⟩
      · refine .inr ⟨[], t, turns, s, rfl, by rwa [List.append_nil], .inr ⟨hretryable, text,
          hexhausted, ?_⟩⟩
        rw [loop, hattempt]
      · have hloop : R.loop s (t :: turns) = R.loop s' turns := by rw [loop, hattempt]
        rw [hloop]
        rcases ih hgoing (fun u hu => hdrawn u (List.mem_cons_of_mem t hu))
          (fun u hu => hnot u (List.mem_cons_of_mem t hu)) with
          ⟨s'', hrest, hgoing⟩ | ⟨done, u, rest, s'', rfl, hgoing, hends⟩
        · exact .inl ⟨s'', hrest, by rwa [List.append_assoc] at hgoing⟩
        · exact .inr ⟨t :: done, u, rest, s'', rfl, by rwa [List.append_assoc] at hgoing, hends⟩
    · rw [Bool.not_eq_true] at hretryable
      refine .inr ⟨[], t, turns, s, rfl, by rwa [List.append_nil], .inl ⟨hretryable, ?_⟩⟩
      rw [loop, attempt_of_not_retryable hretryable]

theorem loop_interrupt (h : R.Going start before s) (hdrawn : ∀ t ∈ turns, R.Drawn t)
    (hnot : ∀ t ∈ turns, Uninterrupted t) (interrupt : Bool) :
    { R with interrupt := interrupt }.loop s turns = R.loop s turns := by
  induction turns generalizing s before with
  | nil => rfl
  | cons t turns ih =>
    have hdrawn' := hdrawn t List.mem_cons_self
    have hnot' := hnot t List.mem_cons_self
    rw [loop, loop, attempt_interrupt hdrawn' hnot' h.curDelay]
    by_cases hretryable : R.retryable t.outcome = true
    · rcases h.attempt hdrawn' hnot' hretryable with ⟨text, -, hattempt⟩ | ⟨s', hattempt, hgoing⟩
      · rw [hattempt]
      · rw [hattempt]
        exact ih hgoing (fun u hu => hdrawn u (List.mem_cons_of_mem t hu))
          (fun u hu => hnot u (List.mem_cons_of_mem t hu))
    · rw [Bool.not_eq_true] at hretryable
      rw [attempt_of_not_retryable hretryable]

end

/-! ## Attempts and deadline -/

/-- Why the budget has ended, with `s` the state at the end. -/
def BudgetEnds (start : ℚ) (turns : List (RetryTurn α)) (s : RetryState) (text : PyStr) : Prop :=
  text = str "Too many retry attempts" ∧ R.maxTries = some (s.calls.length : Int) ∨
    text = str "Exceeded retry deadline" ∧ ∃ deadline ∈ R.deadline,
      ∃ t ∈ turns[s.calls.length - 1]?, start + deadline ≤ s.clock + s.curDelay * t.jitter

section

variable {R} {start : ℚ} {turns before after : List (RetryTurn α)} {t : RetryTurn α}
  (hdrawn : ∀ t ∈ turns, R.Drawn t) (hnot : ∀ t ∈ turns, Uninterrupted t)

/-- Of two places in a list, one comes first. -/
theorem append_cons_cases {β : Type} {l m r r' : List β} {a b : β} (h : l ++ a :: r = m ++ b :: r') :
    l.length < m.length ∧ a ∈ m ∨ l = m ∧ a = b ∨ b ∈ l := by
  rcases List.append_eq_append_iff.mp h with ⟨c, hm, hc⟩ | ⟨c, hl, hc⟩
  · cases c with
    | nil => exact .inr (.inl ⟨by simpa using hm.symm, by simpa using (List.cons.inj hc).1⟩)
    | cons x c =>
      obtain ⟨rfl, -⟩ := List.cons.inj hc
      exact .inl ⟨by simp [hm], by simp [hm]⟩
  · cases c with
    | nil => exact .inr (.inl ⟨by simpa using hl, by simpa using (List.cons.inj hc).1.symm⟩)
    | cons x c =>
      obtain ⟨rfl, -⟩ := List.cons.inj hc
      exact .inr (.inr (by simp [hl]))

include hdrawn hnot

theorem call_spec (start : ℚ) :
    (∃ s', R.call start turns = (s', none) ∧ R.Going start turns s') ∨
    ∃ done t rest s', turns = done ++ t :: rest ∧ R.Going start done s' ∧
      (R.retryable t.outcome = false ∧
          R.call start turns = (R.entered s', some (.outcome t.outcome)) ∨
        R.retryable t.outcome = true ∧ ∃ text,
          R.Exhausted { R.entered s' with attempts := s'.attempts + 1 } t.jitter text ∧
          R.call start turns =
            ({ R.entered s' with attempts := s'.attempts + 1 }, some (.failed text))) :=
  loop_spec going_reset hdrawn hnot

theorem call_outcome (hturns : turns = before ++ t :: after)
    (hbefore : ∀ u ∈ before, R.retryable u.outcome = true) (ht : R.retryable t.outcome = false) :
    (R.call start turns).2 = some (.outcome t.outcome) ∧
        (R.call start turns).1.calls.length = before.length + 1 ∨
      ∃ text, (R.call start turns).2 = some (.failed text) ∧
        (R.call start turns).1.calls.length ≤ before.length := by
  rcases call_spec hdrawn hnot start with ⟨s', -, hgoing⟩ |
    ⟨done, u, rest, s', hsplit, hgoing, ⟨hu, hran⟩ | ⟨hu, text, -, hran⟩⟩
  · have hmem := hgoing.retryable t (by simp [hturns])
    rw [ht] at hmem
    cases hmem
  · rw [hran]
    rcases append_cons_cases (hsplit.symm.trans hturns) with ⟨-, hmem⟩ | ⟨rfl, rfl⟩ | hmem
    · rw [hbefore u hmem] at hu
      cases hu
    · refine .inl ⟨rfl, ?_⟩
      show (s'.calls ++ [s'.clock]).length = _
      rw [List.length_append, hgoing.calls]
      rfl
    · rw [hgoing.retryable t hmem] at ht
      cases ht
  · rw [hran]
    rcases append_cons_cases (hsplit.symm.trans hturns) with ⟨hlt, -⟩ | ⟨rfl, rfl⟩ | hmem
    · refine .inr ⟨text, rfl, ?_⟩
      show (s'.calls ++ [s'.clock]).length ≤ _
      rw [List.length_append, hgoing.calls, List.length_singleton]
      exact hlt
    · rw [ht] at hu
      cases hu
    · rw [hgoing.retryable t hmem] at ht
      cases ht

theorem call_retryable (hall : ∀ t ∈ turns, R.retryable t.outcome = true) :
    (R.call start turns).2 = none ∧ (R.call start turns).1.calls.length = turns.length ∨
      ∃ text, (R.call start turns).2 = some (.failed text) := by
  rcases call_spec hdrawn hnot start with ⟨s', hran, hgoing⟩ |
    ⟨done, u, rest, s', hsplit, hgoing, ⟨hu, -⟩ | ⟨-, text, -, hran⟩⟩
  · rw [hran]
    exact .inl ⟨rfl, hgoing.calls⟩
  · rw [hall u (by simp [hsplit])] at hu
    cases hu
  · rw [hran]
    exact .inr ⟨text, rfl⟩

theorem call_failed {text : PyStr} (hfailed : (R.call start turns).2 = some (.failed text)) :
    R.BudgetEnds start turns (R.call start turns).1 text := by
  rcases call_spec hdrawn hnot start with ⟨s', hran, -⟩ |
    ⟨done, u, rest, s', hsplit, hgoing, ⟨-, hran⟩ | ⟨-, text', hexhausted, hran⟩⟩
  · rw [hran] at hfailed
    cases hfailed
  · rw [hran] at hfailed
    cases hfailed
  · rw [hran] at hfailed ⊢
    cases hfailed
    have hlength : (s'.calls ++ [s'.clock]).length = done.length + 1 := by
      rw [List.length_append, hgoing.calls]
      rfl
    rcases hexhausted with ⟨htext, htries⟩ | ⟨htext, stop, hstop, hle⟩
    · refine .inl ⟨htext, ?_⟩
      show R.maxTries = some (((s'.calls ++ [s'.clock]).length : Nat) : Int)
      rw [hlength, htries]
      show some (s'.attempts + 1) = _
      rw [hgoing.attempts]
      push_cast
      rfl
    · have hstop : stop ∈ (R.entered s').curStoptime := hstop
      rw [hgoing.entered_stoptime] at hstop
      obtain ⟨deadline, hdeadline, rfl⟩ := Option.mem_map.mp hstop
      refine .inr ⟨htext, deadline, hdeadline, u, ?_, hle⟩
      show turns[(s'.calls ++ [s'.clock]).length - 1]? = some u
      rw [hlength, hsplit]
      simp

theorem call_tries {n : Nat} (hn : 1 ≤ n) (htries : R.maxTries = some (n : Int))
    (hdeadline : R.deadline = none) :
    (R.call start turns).1.calls.length ≤ n ∧ ((∃ text, (R.call start turns).2 = some (.failed text)) ↔
      n ≤ turns.length ∧ ∀ t ∈ turns.take n, R.retryable t.outcome = true) := by
  -- as long as the call goes on, there are tries left
  have hleft {done : List (RetryTurn α)} {s' : RetryState} (h : R.Going start done s') :
      done.length < n := by
    by_contra hge
    exact h.tries n hn (not_lt.mp hge) htries
  rcases call_spec hdrawn hnot start with ⟨s', hran, hgoing⟩ |
    ⟨done, u, rest, s', hsplit, hgoing, ⟨hu, hran⟩ | ⟨hu, text, hexhausted, hran⟩⟩
  · rw [hran]
    have hlt := hleft hgoing
    refine ⟨hgoing.calls.trans_le hlt.le, iff_of_false (by simp) ?_⟩
    rintro ⟨hle, -⟩
    omega
  · rw [hran]
    have hlt := hleft hgoing
    refine ⟨?_, iff_of_false (by simp) ?_⟩
    · show (s'.calls ++ [s'.clock]).length ≤ n
      rw [List.length_append, hgoing.calls]
      exact hlt
    · rintro ⟨-, hall⟩
      have hmem : u ∈ turns.take n := by
        rw [hsplit, List.take_append]
        refine List.mem_append_right _ ?_
        rw [show n - done.length = (n - done.length - 1) + 1 by omega, List.take_succ_cons]
        exact List.mem_cons_self
      rw [hall u hmem] at hu
      cases hu
  · rw [hran]
    have hlt := hleft hgoing
    refine ⟨?_, iff_of_true ⟨text, rfl⟩ ?_⟩
    · show (s'.calls ++ [s'.clock]).length ≤ n
      rw [List.length_append, hgoing.calls]
      exact hlt
    rcases hexhausted with ⟨-, hmax⟩ | ⟨-, stop, hstop, -⟩
    · have hlast : done.length + 1 = n := by
        have hattempts : s'.attempts + 1 = (n : Int) := Option.some.inj (hmax.symm.trans htries)
        rw [hgoing.attempts] at hattempts
        exact_mod_cast hattempts
      have htake : turns.take n = done ++ [u] := by
        rw [hsplit, ← hlast, show done ++ u :: rest = (done ++ [u]) ++ rest by simp]
        exact List.take_left' (by simp)
      refine ⟨by simp [hsplit, ← hlast], fun t ht => ?_⟩
      rw [htake] at ht
      rcases List.mem_append.mp ht with ht | ht
      · exact hgoing.retryable t ht
      · exact List.mem_singleton.mp ht ▸ hu
    · have hstop : stop ∈ (R.entered s').curStoptime := hstop
      rw [hgoing.entered_stoptime, hdeadline] at hstop
      cases hstop

theorem call_deadline {deadline : ℚ} (hdeadline : deadline ∈ R.deadline) {first call : ℚ}
    (hfirst : first ∈ (R.call start turns).1.calls.head?)
    (hcall : call ∈ (R.call start turns).1.calls.tail) : call < first + deadline := by
  rcases call_spec hdrawn hnot start with ⟨s', hran, hgoing⟩ |
    ⟨done, u, rest, s', hsplit, hgoing, hends⟩
  · rw [hran] at hfirst hcall
    have hne : turns ≠ [] := by
      rintro hnil
      have hlength := hgoing.calls
      rw [hnil, List.length_nil, List.length_eq_zero_iff] at hlength
      rw [hlength] at hcall
      cases hcall
    obtain rfl := Option.some.inj (hfirst.symm.trans (hgoing.first hne).1)
    exact hgoing.late deadline hdeadline call hcall
  · have hcalls : (R.call start turns).1.calls = (R.entered s').calls := by
      rcases hends with ⟨-, hran⟩ | ⟨-, text, -, hran⟩
      · rw [hran]
      · rw [hran]
    rw [hcalls] at hfirst hcall
    obtain rfl := Option.some.inj (hfirst.symm.trans hgoing.entered_first)
    exact hgoing.entered_late deadline hdeadline call hcall

end

/-- Two tries and no deadline. -/
def twoTries : KazooRetry where
  maxTries := some 2
  delay := 1 / 10
  delay_nonneg := by norm_num
  backoff := 2
  backoff_nonneg := by norm_num
  maxJitter := clampJitter (2 / 5)
  maxJitter_nonneg := (clampJitter_mem (2 / 5)).1
  maxJitter_le_one := (clampJitter_mem (2 / 5)).2
  maxDelay := 60
  maxDelay_nonneg := by norm_num
  ignoreExpire := true
  deadline := none
  interrupt := false

/-- A turn in which `func` fails and may be called again. -/
def failure (jitter : ℚ) : RetryTurn Unit where
  outcome := .error .forceRetryError
  jitter := jitter
  interrupted := fun _ => false

end KazooRetry

end Kazoo
