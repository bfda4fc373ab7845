import Mathlib.Algebra.Group.Nat.Defs
import Mathlib.Data.Nat.Basic

/-!
# Fixed width — numbers written with leading zeros

All numbers of one width compare as their texts do, most significant digit first.
-/

namespace FixedWidth

variable {α : Type} (digit : Nat → α) (base : Nat)

/-- `n` written with `width` digits. -/
def digits : Nat → Nat → List α
  | 0, _ => []
  | width + 1, n => digit (n / base ^ width) :: digits width (n % base ^ width)

@[simp] theorem length_digits (width n : Nat) : (digits digit base width n).length = width := by
  induction width generalizing n with
  | zero => rfl
  | succ width ih => rw [digits, List.length_cons, ih]

theorem mem_digits {width n : Nat} (hbase : 0 < base) (hn : n < base ^ width) :
    ∀ c ∈ digits digit base width n, ∃ d < base, c = digit d := by
  induction width generalizing n with
  | zero => exact fun c hc => absurd hc List.not_mem_nil
  | succ width ih =>
    intro c hc
    rw [digits] at hc
    rcases List.mem_cons.mp hc with rfl | hc
    · refine ⟨_, Nat.div_lt_of_lt_mul ?_, rfl⟩
      rwa [← Nat.pow_succ]
    · exact ih (Nat.mod_lt n (Nat.pow_pos hbase)) c hc

/-- The last digit comes off. -/
theorem digits_succ {width n : Nat} (hn : n < base ^ (width + 1)) :
    digits digit base (width + 1) n =
      digits digit base width (n / base) ++ [digit (n % base)] := by
  induction width generalizing n with
  | zero =>
    rw [Nat.zero_add, Nat.pow_one] at hn
    simp [digits, Nat.mod_eq_of_lt hn]
  | succ width ih =>
    have hpos : 0 < base ^ (width + 1) := by
      rcases Nat.eq_zero_or_pos (base ^ (width + 1)) with h | h
      · rw [Nat.pow_succ, h, Nat.zero_mul] at hn
        omega
      · exact h
    have htop : n / base / base ^ width = n / base ^ (width + 1) := by
      rw [Nat.div_div_eq_div_mul, Nat.pow_succ, Nat.mul_comm]
    have hrest : n % base ^ (width + 1) / base = n / base % base ^ width := by
      rw [Nat.pow_succ, Nat.mod_mul_left_div_self]
    have hlast : n % base ^ (width + 1) % base = n % base :=
      Nat.mod_mod_of_dvd n (Nat.dvd_mul_left base (base ^ width))
    rw [digits, ih (Nat.mod_lt n hpos), hrest, hlast, ← htop]
    rfl

/-- The number is read back, whatever was read before it. -/
theorem foldl_digits {value : α → Nat} (hvalue : ∀ d < base, value (digit d) = d) {width n : Nat}
    (hn : n < base ^ width) (before : Nat) :
    (digits digit base width n).foldl (fun m c => base * m + value c) before =
      before * base ^ width + n := by
  induction width generalizing n before with
  | zero =>
    rw [Nat.pow_zero] at hn ⊢
    rw [digits, List.foldl_nil]
    omega
  | succ width ih =>
    have hpos : 0 < base ^ width := by
      rcases Nat.eq_zero_or_pos (base ^ width) with h | h
      · rw [Nat.pow_succ, h, Nat.zero_mul] at hn
        omega
      · exact h
    have htop : n / base ^ width < base := by
      refine Nat.div_lt_of_lt_mul ?_
      rwa [← Nat.pow_succ]
    rw [digits, List.foldl_cons, hvalue _ htop, ih (Nat.mod_lt n hpos), Nat.pow_succ, Nat.add_mul,
      Nat.mul_comm base before, Nat.mul_assoc before, Nat.mul_comm base, Nat.add_assoc,
      Nat.mul_comm (n / _), Nat.div_add_mod]

section

variable {digit base} [LT α] (hdigit : ∀ i j, i < j → j < base → digit i < digit j)
include hdigit

/-- The smaller number has the smaller text. -/
theorem digits_lt_digits {width n m : Nat} (hnm : n < m) (hm : m < base ^ width) :
    digits digit base width n < digits digit base width m := by
  induction width generalizing n m with
  | zero => rw [Nat.pow_zero] at hm; omega
  | succ width ih =>
    -- some number is below the bound, so the bound is not zero
    have hpos : 0 < base ^ width := by
      rcases Nat.eq_zero_or_pos (base ^ width) with h | h
      · rw [Nat.pow_succ, h, Nat.zero_mul] at hm
        omega
      · exact h
    have htop : m / base ^ width < base := by
      refine Nat.div_lt_of_lt_mul ?_
      rwa [← Nat.pow_succ]
    -- the leading digits decide, or they are the same and the rest does
    rw [digits, digits, List.cons_lt_cons_iff]
    rcases Nat.lt_or_eq_of_le (Nat.div_le_div_right (c := base ^ width) (Nat.le_of_lt hnm)) with h | h
    · exact .inl (hdigit _ _ h htop)
    · refine .inr ⟨congrArg digit h, ih ?_ (Nat.mod_lt m hpos)⟩
      have hn := Nat.div_add_mod n (base ^ width)
      have hm := Nat.div_add_mod m (base ^ width)
      rw [h] at hn
      omega

theorem digits_lt_digits_iff [Std.Asymm (· < · : α → α → Prop)] {width n m : Nat}
    (hn : n < base ^ width) (hm : m < base ^ width) :
    digits digit base width n < digits digit base width m ↔ n < m := by
  refine ⟨fun h => ?_, fun h => digits_lt_digits hdigit h hm⟩
  by_contra hge
  rcases Nat.lt_or_eq_of_le (Nat.le_of_not_lt hge) with hlt | rfl
  · exact List.lt_asymm h (digits_lt_digits hdigit hlt hn)
  · exact List.lt_asymm h h

/-- Different numbers have different texts. -/
theorem digits_injective (hirrefl : ∀ x : α, ¬ x < x) {width n m : Nat} (hn : n < base ^ width)
    (hm : m < base ^ width) (h : digits digit base width n = digits digit base width m) : n = m := by
  -- one of two different numbers is smaller, and no text comes before itself
  have hne : ∀ l : List α, ¬ l < l := by
    intro l
    induction l with
    | nil => exact List.not_lt_nil _
    | cons x l ih =>
      rw [List.cons_lt_cons_iff]
      exact fun h' => h'.elim (hirrefl x) fun h' => ih h'.2
  rcases Nat.lt_trichotomy n m with hlt | heq | hgt
  · exact absurd (h ▸ digits_lt_digits hdigit hlt hm) (hne _)
  · exact heq
  · exact absurd (h ▸ digits_lt_digits hdigit hgt hn) (hne _)

end

/-- Of two texts of one length, what follows decides only when they are the same. -/
theorem append_lt_append_iff [LT α] {x y z w : List α}
    (h : x.length = y.length) : x ++ z < y ++ w ↔ x < y ∨ x = y ∧ z < w := by
  induction x generalizing y with
  | nil =>
    obtain rfl := List.length_eq_zero_iff.mp h.symm
    simp
  | cons a x ih =>
    cases y with
    | nil => cases h
    | cons b y =>
      rw [List.cons_append, List.cons_append, List.cons_lt_cons_iff, List.cons_lt_cons_iff,
        ih (Nat.succ.inj h), List.cons.injEq]
      constructor
      · rintro (hlt | ⟨rfl, hlt | ⟨rfl, hlt⟩⟩)
        · exact .inl (.inl hlt)
        · exact .inl (.inr ⟨rfl, hlt⟩)
        · exact .inr ⟨⟨rfl, rfl⟩, hlt⟩
      · rintro ((hlt | ⟨rfl, hlt⟩) | ⟨⟨rfl, rfl⟩, hlt⟩)
        · exact .inl hlt
        · exact .inr ⟨rfl, .inl hlt⟩
        · exact .inr ⟨rfl, .inr ⟨rfl, hlt⟩⟩

/-- Nothing that follows a text makes it come before another of its length. -/
theorem append_lt_iff [LT α] {x y z : List α} (h : x.length = y.length) : x ++ z < y ↔ x < y := by
  have hiff := append_lt_append_iff (z := z) (w := []) h
  rw [List.append_nil] at hiff
  exact hiff.trans (or_iff_left fun h' => List.not_lt_nil z h'.2)

end FixedWidth
