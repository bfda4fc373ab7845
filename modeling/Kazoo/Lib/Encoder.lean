import Mathlib.Data.List.Basic

/-!
# Encoder — encoders that may refuse a value

An encoder yields a list, or an error.  `Encodes N out fits n` says what it does with one value:
what it yields has length `n`, it only yields something if the value `fits`, and it does so as long
as `n` is below the bound `N`.  The parts of a message are below a bound that the message is below,
so the rules need no bound for each part.
-/

structure Encodes {ε β : Type} (N : Nat) (out : Except ε (List β)) (fits : Prop) (n : Nat) :
    Prop where
  length : ∀ b, out = .ok b → b.length = n
  sound : ∀ b, out = .ok b → fits
  succeeds : n < N → fits → ∃ b, out = .ok b

namespace Encodes

variable {ε β : Type} {N n m : Nat} {out : Except ε (List β)} {P Q : Prop}

theorem ret {b : List β} (h : b.length = n) :
    Encodes N (pure b : Except ε (List β)) True n where
  length b' hb := by cases hb; exact h
  sound _ _ := trivial
  succeeds _ _ := ⟨b, rfl⟩

/-- One encoder after the other: `m` is the length in the end. -/
theorem bind (h : Encodes N out P n) (hnm : n ≤ m) {f : List β → Except ε (List β)}
    (hf : ∀ b, b.length = n → Encodes N (f b) Q m) : Encodes N (out >>= f) (P ∧ Q) m := by
  cases out with
  | error e =>
    refine ⟨fun b hb => (by cases hb), fun b hb => (by cases hb), fun hm hfits => ?_⟩
    -- the first part only fails where it does not fit
    obtain ⟨b, hb⟩ := h.succeeds (Nat.lt_of_le_of_lt hnm hm) hfits.1
    cases hb
  | ok b =>
    have hf := hf b (h.length b rfl)
    exact ⟨hf.length, fun b' hb' => ⟨h.sound b rfl, hf.sound b' hb'⟩,
      fun hm hfits => hf.succeeds hm hfits.2⟩

theorem congr (h : Encodes N out P n) (hPQ : P ↔ Q) : Encodes N out Q n where
  length := h.length
  sound b hb := hPQ.mp (h.sound b hb)
  succeeds hn hQ := h.succeeds hn (hPQ.mpr hQ)

end Encodes
