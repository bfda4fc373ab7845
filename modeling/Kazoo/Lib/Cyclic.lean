import Mathlib.Data.List.Nodup
import Mathlib.Data.List.Range

/-!
# Cyclic — counters that wrap around

A counter that starts at `0` and then runs through `1, …, m` again and again, and the windows of
consecutive values it takes.  A window no longer than the cycle repeats no value.
-/

namespace Cyclic

/-- The counter after `n` steps. -/
def value (m : Nat) : Nat → Nat
  | 0 => 0
  | n + 1 => n % m + 1

/-- The values of the `n` steps that follow the first `a`. -/
def window (m a n : Nat) : List Nat := (List.range' (a + 1) n).map (value m)

variable {m : Nat}

theorem value_succ (n : Nat) : value m (n + 1) = value m n % m + 1 := by
  cases n with
  | zero => rw [value, value, Nat.zero_mod]
  | succ n => rw [value, value, Nat.mod_add_mod]

theorem value_succ_le (hm : 0 < m) (n : Nat) : value m (n + 1) ≤ m := Nat.mod_lt n hm

theorem one_le_value_succ (n : Nat) : 1 ≤ value m (n + 1) := Nat.le_add_left 1 _

/-- Two steps with the same value are a whole number of cycles apart. -/
theorem eq_of_value_eq {i j : Nat} (hij : i ≤ j) (hj : j < i + m)
    (h : value m (i + 1) = value m (j + 1)) : i = j := by
  have hmod : i % m = j % m := Nat.succ.inj h
  -- equal remainders make the distance a multiple of the cycle, and it is shorter than one
  have hzero : (j - i) % m = 0 := Nat.sub_mod_eq_zero_of_mod_eq hmod.symm
  rw [Nat.mod_eq_of_lt (by omega)] at hzero
  omega

theorem window_succ_right (m a n : Nat) : window m a (n + 1) = window m a n ++ [value m (a + n + 1)] := by
  rw [window, List.range'_concat, List.map_append, Nat.one_mul, Nat.add_right_comm]
  rfl

theorem window_succ_left (m a n : Nat) :
    window m a (n + 1) = value m (a + 1) :: window m (a + 1) n := by
  rw [window, List.range'_succ, List.map_cons]
  rfl

@[simp] theorem length_window (m a n : Nat) : (window m a n).length = n := by
  rw [window, List.length_map, List.length_range']

theorem mem_window {a n x : Nat} (h : x ∈ window m a n) :
    ∃ i, a ≤ i ∧ i < a + n ∧ x = value m (i + 1) := by
  obtain ⟨j, hj, rfl⟩ := List.mem_map.mp h
  rw [List.mem_range'_1] at hj
  exact ⟨j - 1, by omega, by omega, by rw [Nat.sub_add_cancel (by omega)]⟩

theorem nodup_window {a n : Nat} (hn : n ≤ m) : (window m a n).Nodup := by
  induction n generalizing a with
  | zero => exact List.nodup_nil
  | succ n ih =>
    rw [window_succ_left, List.nodup_cons]
    refine ⟨fun hmem => ?_, ih (by omega)⟩
    -- a second step with the first value is a whole cycle later, and the window ends before that
    obtain ⟨i, hi, hin, heq⟩ := mem_window hmem
    have hai := eq_of_value_eq (m := m) (by omega : a ≤ i) (by omega) heq
    omega

theorem mem_window_range (hm : 0 < m) {a n x : Nat} (h : x ∈ window m a n) : 1 ≤ x ∧ x ≤ m := by
  obtain ⟨i, -, -, rfl⟩ := mem_window h
  exact ⟨one_le_value_succ i, value_succ_le hm i⟩

end Cyclic
