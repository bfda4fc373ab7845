import Kazoo.Retry
import Mathlib.Algebra.Order.Archimedean.Basic

/-!
# The delays between retries

`max_delay` of `KazooRetry` in `kazoo/retry.py`.  The jitter is drawn after the delay has been capped,
and the first delay is not capped at all.
-/

namespace Kazoo
namespace KazooRetry

variable {R : KazooRetry} {α : Type} {s : RetryState} {t : RetryTurn α}
  {turns : List (RetryTurn α)}

/-! ## What a turn sleeps -/

/-- A turn sleeps for nothing, or for the delay times the jitter, and then it was not the last. -/
theorem attempt_slept (hdrawn : R.Drawn t) (hdelay : 0 ≤ s.curDelay) :
    (R.attempt t s).1.slept = s.slept ∧ (R.attempt t s).2 ≠ none ∨
      some (s.attempts + 1) ≠ R.maxTries ∧
        R.attempt t s = (R.waited (s.curDelay * t.jitter)
          { R.entered s with attempts := s.attempts + 1 }, none) := by
  by_cases hretryable : R.retryable t.outcome = true
  · rw [attempt_of_retryable hretryable, handle]
    dsimp only
    split
    · exact .inl ⟨rfl, by simp⟩
    next htries =>
    split
    · exact .inl ⟨rfl, by simp⟩
    split
    · split
      · exact .inl ⟨rfl, by simp⟩
      · next hcut =>
        have hsum := slices_sum (s.curDelay * t.jitter) 0 (Bool.not_eq_true _ ▸ hcut)
        rw [show (R.entered s).curDelay = s.curDelay from rfl, hsum,
          max_eq_left (mul_nonneg hdelay hdrawn.nonneg)]
        exact .inr ⟨htries, rfl⟩
    · exact .inr ⟨htries, rfl⟩
  · rw [Bool.not_eq_true] at hretryable
    rw [attempt_of_not_retryable hretryable]
    exact .inl ⟨rfl, by simp⟩

/-- The first delay is the given one; each of the others is capped, and has grown with the backoff
and the jitter at most. -/
structure Delayed (R : KazooRetry) (k : Nat) (s : RetryState) : Prop where
  attempts : s.attempts = k
  tries : ∀ j < k, some ((j : Int) + 1) ≠ R.maxTries
  nonneg : 0 ≤ s.curDelay
  grown : s.curDelay ≤ R.delay * (R.backoff * (1 + R.maxJitter)) ^ k
  capped : s.curDelay ≤ R.maxDelay ∨ s.curDelay = R.delay

theorem Delayed.waited {k : Nat} (h : R.Delayed k s) (hdrawn : R.Drawn t)
    (htries : some ((k : Int) + 1) ≠ R.maxTries) :
    R.Delayed (k + 1) (R.waited (s.curDelay * t.jitter)
      { R.entered s with attempts := s.attempts + 1 }) where
  attempts := by
    show s.attempts + 1 = _
    rw [h.attempts]
    push_cast
    rfl
  tries j hj := by
    rcases Nat.lt_succ_iff_lt_or_eq.mp hj with hj | rfl
    · exact h.tries j hj
    · exact htries
  nonneg := le_min (mul_nonneg (mul_nonneg h.nonneg hdrawn.nonneg) R.backoff_nonneg)
    R.maxDelay_nonneg
  grown := by
    have hslept : s.curDelay * t.jitter ≤
        R.delay * (R.backoff * (1 + R.maxJitter)) ^ k * (1 + R.maxJitter) :=
      mul_le_mul h.grown hdrawn.2 hdrawn.nonneg (h.nonneg.trans h.grown)
    calc min (s.curDelay * t.jitter * R.backoff) R.maxDelay
        ≤ s.curDelay * t.jitter * R.backoff := min_le_left _ _
      _ ≤ R.delay * (R.backoff * (1 + R.maxJitter)) ^ k * (1 + R.maxJitter) * R.backoff :=
        mul_le_mul_of_nonneg_right hslept R.backoff_nonneg
      _ = R.delay * (R.backoff * (1 + R.maxJitter)) ^ (k + 1) := by ring
  capped := .inl (min_le_right _ _)

/-- A bound for the delay of every turn that can follow is one for all that is slept. -/
theorem loop_slept_le {k : Nat} {bound : ℚ} (h : R.Delayed k s) (hdrawn : ∀ t ∈ turns, R.Drawn t)
    (hbound : ∀ {k s}, R.Delayed k s → some ((k : Int) + 1) ≠ R.maxTries →
      ∀ t : RetryTurn α, R.Drawn t → s.curDelay * t.jitter ≤ bound)
    (hslept : ∀ sleeptime ∈ s.slept, sleeptime ≤ bound) :
    ∀ sleeptime ∈ (R.loop s turns).1.slept, sleeptime ≤ bound := by
  induction turns generalizing s k with
  | nil => exact hslept
  | cons t turns ih =>
    have ht := hdrawn t List.mem_cons_self
    rw [loop]
    rcases attempt_slept ht h.nonneg with ⟨hsame, hends⟩ | ⟨htries, hattempt⟩
    · obtain ⟨ended, hended⟩ := Option.ne_none_iff_exists'.mp hends
      rw [show R.attempt t s = ((R.attempt t s).1, some ended) from Prod.ext rfl hended]
      exact hsame.symm ▸ hslept
    · rw [h.attempts] at htries
      rw [hattempt]
      refine ih (h.waited ht htries) (fun u hu => hdrawn u (List.mem_cons_of_mem t hu)) ?_
      intro sleeptime hmem
      rcases List.mem_append.mp hmem with hmem | hmem
      · exact hslept sleeptime hmem
      · rw [List.mem_singleton.mp hmem]
        exact hbound h htries t ht

/-! ## Turns that sleep too long -/

/-- A turn that fails and draws the most. -/
def slowest (R : KazooRetry) (α : Type) : RetryTurn α where
  outcome := .error .forceRetryError
  jitter := 1 + R.maxJitter
  interrupted := fun _ => false

theorem drawn_slowest : R.Drawn (R.slowest α) := by
  have hjitter := R.maxJitter_nonneg
  exact ⟨by simp only [slowest]; linarith, le_refl _⟩

theorem attempt_slowest (hdeadline : R.deadline = none) (hstop : s.curStoptime = none)
    (hdelay : 0 ≤ s.curDelay) (htries : some (s.attempts + 1) ≠ R.maxTries) :
    R.attempt (R.slowest α) s = (R.waited (s.curDelay * (1 + R.maxJitter))
      { R.entered s with attempts := s.attempts + 1 }, none) := by
  have hentered : (R.entered s).curStoptime = none := by
    simp only [entered, hdeadline, hstop]
  rw [attempt_of_retryable rfl]
  refine (handle_eq (s := R.entered s) drawn_slowest (fun _ => rfl) hdelay).trans
    ((if_neg htries).trans (if_neg ?_))
  rw [hentered, Option.any_none]
  exact Bool.false_ne_true

/-- The first delay is slept with the whole jitter. -/
theorem slept_slowest (hdeadline : R.deadline = none) (hstop : s.curStoptime = none)
    (hdelay : 0 ≤ s.curDelay) (htries : some (s.attempts + 1) ≠ R.maxTries) :
    s.curDelay * (1 + R.maxJitter) ∈ (R.loop s [R.slowest α]).1.slept := by
  rw [loop, attempt_slowest hdeadline hstop hdelay htries]
  exact List.mem_append_right _ List.mem_cons_self

/-- When the delay has grown past the cap after `m` turns at the latest, one of them sleeps too
long: the last, or the one after the cap was reached. -/
theorem exists_slept_gt (hdeadline : R.deadline = none) (hbackoff : 1 ≤ R.backoff)
    (hjitter : 0 < R.maxJitter) (hmax : 0 < R.maxDelay) (m : Nat) (hstop : s.curStoptime = none)
    (hdelay : 0 ≤ s.curDelay)
    (htries : ∀ k : Nat, k ≤ m → some (s.attempts + 1 + k) ≠ R.maxTries)
    (hlong : R.maxDelay <
      s.curDelay * (1 + R.maxJitter) * (R.backoff * (1 + R.maxJitter)) ^ m) :
    ∃ sleeptime ∈ (R.loop s (List.replicate (m + 1) (R.slowest α))).1.slept,
      R.maxDelay < sleeptime := by
  have hrate : 1 ≤ R.backoff * (1 + R.maxJitter) := by nlinarith
  have hfirst : some (s.attempts + 1) ≠ R.maxTries := by simpa using htries 0 (Nat.zero_le m)
  have hattempt := attempt_slowest (α := α) hdeadline hstop hdelay hfirst
  induction m generalizing s with
  | zero =>
    exact ⟨_, slept_slowest hdeadline hstop hdelay hfirst, by simpa using hlong⟩
  | succ m ih =>
    have hloop : R.loop s (List.replicate (m + 1 + 1) (R.slowest α)) =
        R.loop (R.waited (s.curDelay * (1 + R.maxJitter))
          { R.entered s with attempts := s.attempts + 1 })
          (List.replicate (m + 1) (R.slowest α)) := by
      rw [List.replicate_succ, loop, hattempt]
    have hnonneg : 0 ≤ s.curDelay * (1 + R.maxJitter) := by nlinarith
    have hnext : 0 ≤ min (s.curDelay * (1 + R.maxJitter) * R.backoff) R.maxDelay :=
      le_min (mul_nonneg hnonneg R.backoff_nonneg) R.maxDelay_nonneg
    have hstop' : (R.waited (s.curDelay * (1 + R.maxJitter))
        { R.entered s with attempts := s.attempts + 1 }).curStoptime = none := by
      simp only [waited, entered, hdeadline, hstop]
    have htries' (k : Nat) (hk : k ≤ m) : some (s.attempts + 1 + 1 + k) ≠ R.maxTries := by
      have h := htries (k + 1) (by omega)
      push_cast at h
      rwa [show s.attempts + 1 + 1 + (k : Int) = s.attempts + 1 + (k + 1) by ring]
    have htriesNext : some (s.attempts + 1 + 1) ≠ R.maxTries := by
      simpa using htries' 0 (Nat.zero_le m)
    rw [hloop]
    refine ih hstop' hnext htries' ?_ ?_ ?_
    · show R.maxDelay < min (s.curDelay * (1 + R.maxJitter) * R.backoff) R.maxDelay *
        (1 + R.maxJitter) * (R.backoff * (1 + R.maxJitter)) ^ m
      rcases le_total (s.curDelay * (1 + R.maxJitter) * R.backoff) R.maxDelay with hle | hle
      · rw [min_eq_left hle]
        calc R.maxDelay < s.curDelay * (1 + R.maxJitter) *
              (R.backoff * (1 + R.maxJitter)) ^ (m + 1) := hlong
          _ = _ := by ring
      · -- the delay is capped, and the jitter is drawn on top
        rw [min_eq_right hle]
        have hpow : 1 ≤ (R.backoff * (1 + R.maxJitter)) ^ m := one_le_pow₀ hrate
        have hover : R.maxDelay < R.maxDelay * (1 + R.maxJitter) := by nlinarith
        nlinarith
    · exact htriesNext
    · exact attempt_slowest hdeadline hstop' hnext htriesNext

/-! ## Every call -/

variable (R)

/-- No call of the retry sleeps longer than `max_delay` between two attempts, whatever its deadline. -/
def NeverLonger (α : Type) : Prop :=
  ∀ (deadline : Option ℚ) (start : ℚ) (turns : List (RetryTurn α)), (∀ t ∈ turns, R.Drawn t) →
    ∀ sleeptime ∈ ({ R with deadline := deadline }.call start turns).1.slept,
      sleeptime ≤ R.maxDelay

/-- There is no delay, or the first one cannot be too long, and there is no jitter or the tries run
out while the delay grows. -/
def CapHolds : Prop :=
  R.maxTries = some 1 ∨ R.delay * (1 + R.maxJitter) ≤ R.maxDelay ∧
    (R.maxJitter = 0 ∨ R.delay = 0 ∨ ∃ n : Nat, R.maxTries = some ((n : Int) + 2) ∧
      R.delay * (1 + R.maxJitter) * (R.backoff * (1 + R.maxJitter)) ^ n ≤ R.maxDelay)

variable {R}

theorem delayed_reset {start : ℚ} : R.Delayed 0 (R.reset start) where
  attempts := rfl
  tries j hj := absurd hj (Nat.not_lt_zero j)
  nonneg := R.delay_nonneg
  grown := by rw [pow_zero, mul_one]; rfl
  capped := .inr rfl

/-- Under the condition no turn can sleep too long. -/
theorem CapHolds.delay_le (h : R.CapHolds) (hbackoff : 1 ≤ R.backoff) {k : Nat} (hk : R.Delayed k s)
    (htries : some ((k : Int) + 1) ≠ R.maxTries) (ht : R.Drawn t) :
    s.curDelay * t.jitter ≤ R.maxDelay := by
  have hjitter := R.maxJitter_nonneg
  have hslept : s.curDelay * t.jitter ≤
      R.delay * (R.backoff * (1 + R.maxJitter)) ^ k * (1 + R.maxJitter) :=
    mul_le_mul hk.grown ht.2 ht.nonneg (hk.nonneg.trans hk.grown)
  rcases h with hone | ⟨hfirst, hnone | hzero | ⟨n, hmax, hlast⟩⟩
  · -- there is no turn after the first
    refine absurd hone.symm ?_
    cases k with
    | zero => simpa using htries
    | succ k => simpa using hk.tries 0 (Nat.succ_pos k)
  · have hcapped : s.curDelay ≤ R.maxDelay := by
      rcases hk.capped with hle | heq
      · exact hle
      · rw [heq]
        simpa [hnone] using hfirst
    have hone : t.jitter ≤ 1 := by
      have := ht.2
      rwa [hnone, add_zero] at this
    calc s.curDelay * t.jitter ≤ s.curDelay * 1 := mul_le_mul_of_nonneg_left hone hk.nonneg
      _ ≤ R.maxDelay := by rwa [mul_one]
  · calc s.curDelay * t.jitter ≤ _ := hslept
      _ = 0 := by rw [hzero, zero_mul, zero_mul]
      _ ≤ R.maxDelay := R.maxDelay_nonneg
  · have hkn : k ≤ n := by
      by_contra hlt
      rcases Nat.lt_or_ge (n + 1) k with hk' | hk'
      · refine hk.tries (n + 1) hk' ?_
        rw [hmax]
        push_cast
        ring_nf
      · obtain rfl : k = n + 1 := by omega
        refine htries ?_
        rw [hmax]
        push_cast
        ring_nf
    have hpow : (R.backoff * (1 + R.maxJitter)) ^ k ≤ (R.backoff * (1 + R.maxJitter)) ^ n :=
      pow_le_pow_right₀ (by nlinarith) hkn
    calc s.curDelay * t.jitter ≤ _ := hslept
      _ ≤ R.delay * (R.backoff * (1 + R.maxJitter)) ^ n * (1 + R.maxJitter) :=
        mul_le_mul_of_nonneg_right (mul_le_mul_of_nonneg_left hpow R.delay_nonneg) (by linarith)
      _ = R.delay * (1 + R.maxJitter) * (R.backoff * (1 + R.maxJitter)) ^ n := by ring
      _ ≤ R.maxDelay := hlast

theorem CapHolds.slept_le (h : R.CapHolds) (hbackoff : 1 ≤ R.backoff) (start : ℚ)
    (hdrawn : ∀ t ∈ turns, R.Drawn t) :
    ∀ sleeptime ∈ (R.call start turns).1.slept, sleeptime ≤ R.maxDelay :=
  loop_slept_le delayed_reset hdrawn (fun hk htries _ ht => h.delay_le hbackoff hk htries ht)
    fun _ hmem => absurd hmem List.not_mem_nil

/-- Without the condition the slowest turns sleep too long. -/
theorem exists_longer (h : ¬ R.CapHolds) (hbackoff : 1 ≤ R.backoff) (hdeadline : R.deadline = none)
    (start : ℚ) : ∃ m, ∃ sleeptime ∈
      (R.call start (List.replicate m (R.slowest α))).1.slept, R.maxDelay < sleeptime := by
  obtain ⟨hone, h⟩ := not_or.mp h
  have hstart : some ((R.reset start).attempts + 1) ≠ R.maxTries := fun heq => hone heq.symm
  by_cases hfirst : R.delay * (1 + R.maxJitter) ≤ R.maxDelay
  · obtain ⟨hnone, h⟩ := not_or.mp (not_and.mp h hfirst)
    obtain ⟨hzero, hlast⟩ := not_or.mp h
    have hjitter : 0 < R.maxJitter := lt_of_le_of_ne R.maxJitter_nonneg (Ne.symm hnone)
    have hdelay : 0 < R.delay := lt_of_le_of_ne R.delay_nonneg (Ne.symm hzero)
    have hmax : 0 < R.maxDelay := by nlinarith
    have hpos : 0 < R.delay * (1 + R.maxJitter) := by nlinarith
    obtain ⟨m, htries, hlong⟩ : ∃ m : Nat,
        (∀ k : Nat, k ≤ m → some ((0 : Int) + 1 + k) ≠ R.maxTries) ∧
          R.maxDelay < R.delay * (1 + R.maxJitter) * (R.backoff * (1 + R.maxJitter)) ^ m := by
      by_cases htries : ∃ n : Nat, R.maxTries = some ((n : Int) + 2)
      · obtain ⟨n, htries⟩ := htries
        refine ⟨n, fun k hk heq => ?_, not_le.mp fun hle => hlast ⟨n, htries, hle⟩⟩
        have := Option.some.inj (heq.trans htries)
        omega
      · -- the tries do not run out
        have hrate : 1 < R.backoff * (1 + R.maxJitter) := by nlinarith
        obtain ⟨m, hm⟩ := pow_unbounded_of_one_lt (R.maxDelay / (R.delay * (1 + R.maxJitter))) hrate
        refine ⟨m, fun k _ heq => ?_, ?_⟩
        · cases k with
          | zero => exact hone heq.symm
          | succ k =>
            refine htries ⟨k, heq.symm.trans ?_⟩
            push_cast
            ring_nf
        · rw [div_lt_iff₀ hpos] at hm
          linarith
    exact ⟨m + 1, exists_slept_gt hdeadline hbackoff hjitter hmax m rfl R.delay_nonneg htries hlong⟩
  · exact ⟨1, _, slept_slowest hdeadline rfl R.delay_nonneg hstart, not_le.mp hfirst⟩

theorem minute_nonneg : (0 : ℚ) ≤ 60 := by norm_num

theorem hour_nonneg : (0 : ℚ) ≤ 3600 := by norm_num

/-- Two tries, with a delay of a minute between them. -/
def afterOneMinute (maxDelay : ℚ) (h : 0 ≤ maxDelay) : KazooRetry :=
  { twoTries with delay := 60, delay_nonneg := minute_nonneg, maxDelay := maxDelay,
                  maxDelay_nonneg := h }

end KazooRetry
end Kazoo
