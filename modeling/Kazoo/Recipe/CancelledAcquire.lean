import Kazoo.Recipe.AcquireCalls

/-!
# Cancelled calls of `acquire`

`Lock.cancel` of `kazoo/recipe/lock.py`, and `Election` of `kazoo/recipe/election.py`.  The flag that
`cancel` sets is cleared only when `acquire` raises, and not for the call for which it was set.
-/

namespace Kazoo

/-! ## Elections -/

namespace Election

/-- `except CancelledError: pass`. -/
def handled : Except Exn Unit → Except Exn Unit
  | .error e => if e = .cancelledError then .ok () else .error e
  | .ok () => .ok ()

/-- `run`, by how `self.lock.acquire`, `func` and `self.lock.release` end, and whether `func` is
called. -/
def run (acquired : Except Exn Bool) (func : Except Exn Unit) (released : Except Exn Bool) :
    Bool × Except Exn Unit :=
  match acquired with
  | .error e => (false, handled (.error e))
  | .ok _ =>
    match released with
    | .error e => (true, handled (.error e))
    | .ok _ => (true, handled func)

/-- Nobody is elected, and no exception says why. -/
theorem run_eq_iff {acquired : Except Exn Bool} {func : Except Exn Unit}
    {released : Except Exn Bool} :
    run acquired func released = (false, .ok ()) ↔ acquired = .error .cancelledError := by
  cases acquired with
  | error e => simp [run, handled]
  | ok gotten => cases released <;> simp [run]

end Election

namespace AcquireCalls

variable {ι : Type} [DecidableEq ι] {L : Locks ι} {w' : World L} {s : AcquireCalls L}
  {act : CallAct L}

/-! ## The flag -/

/-- A call that gets into `acquire` finds the flag clear, or set since the call started. -/
def FlagFresh (s : AcquireCalls L) : CallAct L → Prop
  | .enter l i _ => (s.world.locks l).cancelled = true →
      ∀ call ∈ (s.outside l)[i]?, call.cancelled = true
  | _ => True

instance (s : AcquireCalls L) (act : CallAct L) : Decidable (FlagFresh s act) := by
  unfold FlagFresh
  split <;> infer_instance

/-- What the condition keeps. -/
structure Honest (s : AcquireCalls L) : Prop where
  cancellations : ∀ call ∈ s.cancellations, call.cancelled = true
  flag : ∀ l, (s.world.locks l).stage ≠ .absent → (s.world.locks l).cancelled = true →
    (s.inside l).cancelled = true

theorem after_cancellations (s : AcquireCalls L) (w : World L) (time : ℚ) (act : LockAct L) :
    (s.after w time act).cancellations = s.cancellations ∨
      ∃ l, act = .thread l .contend ∧ (s.world.locks l).cancelled = true ∧
        (s.after w time act).cancellations = s.cancellations ++ [s.inside l] := by
  unfold after
  split
  · exact .inl rfl
  · next l =>
    by_cases hflag : (s.world.locks l).cancelled = true
    · exact .inr ⟨l, rfl, hflag, if_pos hflag⟩
    · exact .inl (if_neg hflag)
  all_goals exact .inl rfl

/-- `acquire` looks at the flag only in the loop. -/
theorem contend_step {l : ι} {w : World L} (h : w.step (.thread l .contend) = some w') :
    (w.locks l).stage ≠ .absent := by
  cases World.steps_of_step h with
  | thread _ ho =>
    cases LockObject.steps_of_step ho with
    | contend hstage | cancelled hstage =>
      rw [hstage]
      exact Stage.noConfusion

theorem Honest.go (h : s.Honest) {act : LockAct L} {time : ℚ}
    (hstep : s.world.step act = some w') (hgoes : s.Goes time act) :
    (s.after w' time act).Honest where
  cancellations := by
    rcases after_cancellations s w' time act with heq | ⟨l, rfl, hflag, heq⟩
    · rw [heq]
      exact h.cancellations
    · rw [heq]
      intro call hcall
      rcases List.mem_append.mp hcall with hcall | hcall
      · exact h.cancellations call hcall
      · rw [List.mem_singleton.mp hcall]
        exact h.flag l (contend_step hstep) hflag
  flag l hinside hflag := by
    rw [after_world] at hinside hflag
    by_cases hcancel : act = .thread l .cancel
    · have hinside : (s.after w' time act).inside l = (s.inside l).cancel := by
        rw [hcancel]
        exact Function.update_self _ _ _
      rw [hinside]
      rfl
    · have hcontinues := World.continues_of_step hstep hcancel
        (fun blocking timed ephemeral heq => by subst heq; exact hgoes)
      have hset := h.flag l (hcontinues.inside hinside) (hcontinues.cancelled hflag)
      rcases after_inside s w' time act l with heq | ⟨hact, -⟩ | ⟨-, heq⟩
      · rw [heq]
        exact hset
      · exact absurd hact hcancel
      · rw [heq]
        exact hset

theorem Honest.step (h : s.Honest) (hen : s.enabled act) (hfresh : FlagFresh s act) :
    (s.post act).Honest := by
  cases act with
  | start l blocking timeout ephemeral => exact ⟨h.cancellations, h.flag⟩
  | enter l i time =>
    obtain ⟨call, w', -, hcall, -, -, hstep, hpost⟩ := enter_spec hen
    rw [hpost]
    refine ⟨h.cancellations, fun l' hinside hflag => ?_⟩
    have hinside' : (w'.locks l').stage ≠ .absent := hinside
    have hflag' : (w'.locks l').cancelled = true := hflag
    rw [setInside_inside]
    by_cases hl : l' = l
    · rw [hl, (World.enter_step hstep).2.2.2] at hflag'
      rw [if_pos hl]
      exact hfresh hflag' call hcall
    · rw [World.locks_of_step hstep (fun heq => hl (Option.some.inj heq).symm)] at hinside' hflag'
      rw [if_neg hl]
      exact h.flag l' hinside' hflag'
  | refuse l i =>
    obtain ⟨-, call, hcall, -⟩ := hen
    rw [post, show (s.outside l)[i]? = some call from hcall]
    exact ⟨h.cancellations, h.flag⟩
  | go act time =>
    obtain ⟨hstep, hgoes⟩ := hen
    obtain ⟨w', hw'⟩ := Option.isSome_iff_exists.mp hstep
    rw [post, hw']
    exact h.go hw' hgoes

theorem honest_of_reach (h : (acquireCalls L).Reach FlagFresh s) : s.Honest :=
  h.invariant ⟨fun _ h => absurd h List.not_mem_nil, fun _ h => absurd rfl h⟩
    fun _ _ _ hs hen hok => hs.step hen hok

/-! ## Every run -/

/-- In every run in which each call that gets into `acquire` finds the flag clear, or set since it
started, a call raises `CancelledError` only if `cancel` has been called since it started; and
`Election.run` returns without having called its function for no other reason. -/
theorem cancelled_since_start (L : Locks ι) :
    (∀ s, (acquireCalls L).Reach FlagFresh s → ∀ call ∈ s.cancellations, call.cancelled = true) ∧
      ∀ acquired func released, Election.run acquired func released = (false, .ok ()) →
        acquired = .error .cancelledError :=
  ⟨fun _ h => (honest_of_reach h).cancellations, fun _ _ _ h => Election.run_eq_iff.mp h⟩

/-- The writer calls `acquire`, up to its first look at the flag. -/
def writerContends : List (CallAct writerAndReader) :=
  [.start true true none true, .enter true 0 0] ++
    going [.thread true .look, .thread true .attempt, .thread true .ensure, .thread true (.find []),
      .create true 0, .thread true .store]

/-- `cancel` is called before the look at the flag, once for a call that then fails. -/
theorem cancelled_since_start_writer :
    ((acquireCalls writerAndReader).exec .new (writerContends ++
        going [.thread true .cancel, .thread true .contend])).cancellations ≠ [] ∧
      ∀ call ∈ ((acquireCalls writerAndReader).exec .new (writerContends ++
        going [.thread true .cancel, .thread true .contend])).cancellations,
        call.cancelled = true :=
  ⟨by decide +kernel, (cancelled_since_start writerAndReader).1 _ (.of_legal (by decide +kernel))⟩

/-- `cancel` is called when there is nothing to cancel. -/
theorem cancelled_before_start :
    ¬ ∀ s, (acquireCalls writerAndReader).Reachable s →
      ∀ call ∈ s.cancellations, call.cancelled = true := by
  intro h
  have hall := h ((acquireCalls writerAndReader).exec .new (going [.thread true .cancel] ++
    writerContends ++ going [.thread true .contend])) (.of_legal (by decide +kernel))
  revert hall
  decide +kernel

end AcquireCalls

end Kazoo
