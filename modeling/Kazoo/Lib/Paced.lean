import Mathlib.Data.List.Infix

/-!
# Paced — computations that move at the pace of their surroundings

A paced computation takes its turns from outside: what one turn brings is not for it to choose.  It
returns, raises, or waits for the next turn.  `Carries` describes one that has a fixed way to go,
however long its steps are, and the rules are those of a sequence and of a loop.
-/

inductive Ended (ε α : Type)
  | returned (a : α)
  | raised (e : ε)
  | waiting
  deriving DecidableEq

/-- How far a computation came, and the turns that it left. -/
structure Ran (σ τ ε α : Type) where
  ended : Ended ε α
  state : σ
  turns : List τ
  deriving DecidableEq

def Paced (σ τ ε α : Type) : Type := σ → List τ → Ran σ τ ε α

namespace Paced

variable {σ τ ε α β : Type}

def ret (a : α) : Paced σ τ ε α := fun s turns => ⟨.returned a, s, turns⟩

def andThen (x : Paced σ τ ε α) (f : α → Paced σ τ ε β) : Paced σ τ ε β := fun s turns =>
  let ran := x s turns
  match ran.ended with
  | .returned a => f a ran.state ran.turns
  | .raised e => ⟨.raised e, ran.state, ran.turns⟩
  | .waiting => ⟨.waiting, ran.state, ran.turns⟩

instance : Monad (Paced σ τ ε) where
  pure := ret
  bind := andThen

def ofExcept : Except ε α → Paced σ τ ε α
  | .ok a => ret a
  | .error e => fun s turns => ⟨.raised e, s, turns⟩

section Bind

variable {x : Paced σ τ ε α} {f : α → Paced σ τ ε β} {s s' : σ} {turns rest : List τ}

theorem bind_returned {a : α} (h : x s turns = ⟨.returned a, s', rest⟩) :
    (x >>= f) s turns = f a s' rest := by
  show andThen x f s turns = _
  rw [andThen, h]

theorem bind_raised {e : ε} (h : x s turns = ⟨.raised e, s', rest⟩) :
    (x >>= f) s turns = ⟨.raised e, s', rest⟩ := by
  show andThen x f s turns = _
  rw [andThen, h]

theorem bind_waiting (h : x s turns = ⟨.waiting, s', rest⟩) :
    (x >>= f) s turns = ⟨.waiting, s', rest⟩ := by
  show andThen x f s turns = _
  rw [andThen, h]

end Bind

variable (stops : τ → Option ε) (moves : τ → Bool)

/-- The computation has `last` steps to go and then returns `a`; `state n` is its state `n` steps on
its way.  A turn that `moves` takes it a step further at least.  While it waits, a turn that `stops`
makes it raise, and when it has returned it looks at no further turn. -/
def Carries (x : Paced σ τ ε α) (a : α) (state : Nat → σ) (last : Nat) : Prop :=
  ∀ turns, (∀ turn ∈ turns, stops turn = none) →
    (∃ n < last, turns.countP moves ≤ n ∧ x (state 0) turns = ⟨.waiting, state n, []⟩ ∧
      ∀ turn e more, stops turn = some e →
        x (state 0) (turns ++ turn :: more) = ⟨.raised e, state n, more⟩) ∨
    ∃ rest, rest <:+ turns ∧ turns.countP moves ≤ last + rest.countP moves ∧
      ∀ more, x (state 0) (turns ++ more) = ⟨.returned a, state last, rest ++ more⟩

section Rules

variable {stops moves} {x : Paced σ τ ε α} {a : α} {b : β} {state : Nat → σ} {first last : Nat}

theorem carries_ret : Carries stops moves (pure a : Paced σ τ ε α) a state 0 :=
  fun turns _ => .inr ⟨turns, List.suffix_refl turns, Nat.le_add_left _ _, fun _ => rfl⟩

theorem Carries.congr {state' : Nat → σ} (h : Carries stops moves x a state last)
    (hstate : ∀ n ≤ last, state n = state' n) : Carries stops moves x a state' last := by
  intro turns hturns
  rw [← hstate 0 (Nat.zero_le last), ← hstate last (Nat.le_refl last)]
  rcases h turns hturns with ⟨n, hn, hcount, hwait⟩ | hreturn
  · refine .inl ⟨n, hn, hcount, ?_⟩
    rwa [← hstate n hn.le]
  · exact .inr hreturn

theorem Carries.andThen {f : α → Paced σ τ ε β} (hx : Carries stops moves x a state first)
    (hf : Carries stops moves (f a) b (fun n => state (first + n)) last) :
    Carries stops moves (x >>= f) b state (first + last) := by
  intro turns hturns
  rcases hx turns hturns with ⟨n, hn, hcount, hwait, hstop⟩ | ⟨rest, hrest, hcount, hreturn⟩
  · -- the first one waits
    refine .inl ⟨n, by omega, hcount, bind_waiting hwait, ?_⟩
    intro turn e more hturn
    exact bind_raised (hstop turn e more hturn)
  · have hnow : x (state 0) turns = ⟨.returned a, state first, rest⟩ := by
      have hnil := hreturn []
      rwa [List.append_nil, List.append_nil] at hnil
    rcases hf rest (fun turn h => hturns turn (hrest.subset h)) with
      ⟨n, hn, hcount', hwait, hstop⟩ | ⟨rest', hrest', hcount', hreturn'⟩
    · -- the second one waits
      refine .inl ⟨first + n, by omega, by omega, ?_, ?_⟩
      · rw [bind_returned hnow]
        exact hwait
      · intro turn e more hturn
        rw [bind_returned (hreturn (turn :: more))]
        exact hstop turn e more hturn
    · refine .inr ⟨rest', hrest'.trans hrest, by omega, ?_⟩
      intro more
      rw [bind_returned (hreturn more)]
      exact hreturn' more

/-- One computation after the other, on a way of `total` steps. -/
theorem Carries.bind {f : α → Paced σ τ ε β} {state₁ state₂ : Nat → σ} {total : Nat}
    (hx : Carries stops moves x a state₁ first) (hf : Carries stops moves (f a) b state₂ last)
    (htotal : first + last = total) (h₁ : ∀ n ≤ first, state₁ n = state n)
    (h₂ : ∀ n ≤ last, state₂ n = state (first + n)) :
    Carries stops moves (x >>= f) b state total := by
  subst htotal
  exact (hx.congr h₁).andThen (hf.congr h₂)

/-- What does not look at the turns is no step. -/
theorem Carries.ofExcept_bind {r : Except ε α} {f : α → Paced σ τ ε β} (h : r = .ok a)
    (hf : Carries stops moves (f a) b state last) :
    Carries stops moves (ofExcept r >>= f) b state last := by
  subst h
  exact hf

/-- A loop with a counter: `x n` is the loop `n` steps on its way. -/
theorem carries_loop {x : Nat → Paced σ τ ε α}
    (hdone : ∀ turns, x last (state last) turns = ⟨.returned a, state last, turns⟩)
    (hwait : ∀ n < last, x n (state n) [] = ⟨.waiting, state n, []⟩)
    (hstop : ∀ n < last, ∀ turn e, stops turn = some e → ∀ turns,
      x n (state n) (turn :: turns) = ⟨.raised e, state n, turns⟩)
    (hkeep : ∀ n < last, ∀ turn, stops turn = none → moves turn = false → ∀ turns,
      x n (state n) (turn :: turns) = x n (state n) turns)
    (hmove : ∀ n < last, ∀ turn, stops turn = none → moves turn = true →
      ∃ m, n < m ∧ m ≤ last ∧ ∀ turns, x n (state n) (turn :: turns) = x m (state m) turns) :
    Carries stops moves (x 0) a state last := by
  suffices h : ∀ turns : List τ, (∀ turn ∈ turns, stops turn = none) → ∀ k ≤ last,
      (∃ n < last, k + turns.countP moves ≤ n ∧ x k (state k) turns = ⟨.waiting, state n, []⟩ ∧
        ∀ turn e more, stops turn = some e →
          x k (state k) (turns ++ turn :: more) = ⟨.raised e, state n, more⟩) ∨
      ∃ rest, rest <:+ turns ∧ k + turns.countP moves ≤ last + rest.countP moves ∧
        ∀ more, x k (state k) (turns ++ more) = ⟨.returned a, state last, rest ++ more⟩ by
    intro turns hturns
    have h₀ := h turns hturns 0 (Nat.zero_le last)
    rwa [Nat.zero_add] at h₀
  intro turns
  induction turns with
  | nil =>
    intro _ k hk
    rcases Nat.lt_or_eq_of_le hk with hlt | rfl
    · exact .inl ⟨k, hlt, Nat.le_refl k, hwait k hlt, fun turn e more h => hstop k hlt turn e h more⟩
    · exact .inr ⟨[], List.suffix_refl [], Nat.le_refl _, fun more => hdone more⟩
  | cons turn turns ih =>
    intro hturns k hk
    have hturn := hturns turn List.mem_cons_self
    have hrest : ∀ turn ∈ turns, stops turn = none := fun t h => hturns t (List.mem_cons_of_mem turn h)
    rcases Nat.lt_or_eq_of_le hk with hlt | rfl
    · -- the turn takes the loop from `k` to `m`
      obtain ⟨m, hkm, hm, hnext⟩ : ∃ m, k + (if moves turn then 1 else 0) ≤ m ∧ m ≤ last ∧
          ∀ turns, x k (state k) (turn :: turns) = x m (state m) turns := by
        cases hmoves : moves turn with
        | false => exact ⟨k, Nat.le_refl k, hk, hkeep k hlt turn hturn hmoves⟩
        | true => exact hmove k hlt turn hturn hmoves
      rw [List.countP_cons]
      rcases ih hrest m hm with ⟨n, hn, hcount, hwait, hstop⟩ | ⟨rest, hsuffix, hcount, hreturn⟩
      · refine .inl ⟨n, hn, by omega, (hnext turns).trans hwait, ?_⟩
        intro turn' e more h
        exact (hnext _).trans (hstop turn' e more h)
      · refine .inr ⟨rest, hsuffix.trans (List.suffix_cons turn turns), by omega, ?_⟩
        intro more
        exact (hnext _).trans (hreturn more)
    · exact .inr ⟨turn :: turns, List.suffix_refl _, Nat.le_refl _, fun more => hdone _⟩

/-- With a moving turn for every step, the computation returns. -/
theorem Carries.returns (h : Carries stops moves x a state last) {turns : List τ}
    (hturns : ∀ turn ∈ turns, stops turn = none) (hmany : last ≤ turns.countP moves) :
    ∃ rest, x (state 0) turns = ⟨.returned a, state last, rest⟩ := by
  rcases h turns hturns with ⟨n, hn, hcount, -⟩ | ⟨rest, -, -, hreturn⟩
  · omega
  · have hnil := hreturn []
    rw [List.append_nil, List.append_nil] at hnil
    exact ⟨rest, hnil⟩

end Rules

end Paced
