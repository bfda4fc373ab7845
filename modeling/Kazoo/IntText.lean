import Kazoo.Text
import Mathlib.Data.List.Basic

/-!
# Python integers as text

`repr(i)` and `int(s)` in base ten, and the `ascii` codec.
-/

namespace Kazoo

/-! ## The codec -/

/-- `s.encode("ascii")`. -/
def PyStr.encodeAscii (s : PyStr) : Except Exn Bytes :=
  if s.all (·.val < 128) then .ok (s.map fun c => .ofNat c.val) else .error .unicodeEncodeError

/-- `b.decode("ascii")`. -/
def Bytes.decodeAscii (b : Bytes) : Except Exn PyStr :=
  if b.all (·.toNat < 128) then .ok (b.map fun x => Fin.ofNat 0x110000 x.toNat)
  else .error .unicodeDecodeError

theorem Bytes.decodeAscii_encodeAscii {s : PyStr} {b : Bytes} (h : s.encodeAscii = .ok b) :
    Bytes.decodeAscii b = .ok s := by
  unfold PyStr.encodeAscii at h
  split at h <;> cases h
  next hall =>
    have hascii : ∀ c ∈ s, c.val < 128 := fun c hc => of_decide_eq_true (List.all_eq_true.mp hall c hc)
    have htoNat : ∀ c ∈ s, (UInt8.ofNat c.val).toNat = c.val := by
      intro c hc
      rw [UInt8.toNat_ofNat']
      exact Nat.mod_eq_of_lt (Nat.lt_trans (hascii c hc) (by decide))
    have hbytes : (s.map fun c => UInt8.ofNat c.val).all (·.toNat < 128) = true := by
      apply List.all_eq_true.mpr
      intro x hx
      obtain ⟨c, hc, rfl⟩ := List.mem_map.mp hx
      rw [htoNat c hc]
      exact decide_eq_true (hascii c hc)
    have hback : ∀ c ∈ s, Fin.ofNat 0x110000 (UInt8.ofNat c.val).toNat = c := by
      intro c hc
      rw [htoNat c hc, Fin.ofNat_val_eq_self]
    rw [Bytes.decodeAscii, if_pos hbytes, List.map_map]
    exact congrArg Except.ok ((List.map_congr_left hback).trans (List.map_id s))

/-! ## Decimal text -/

/-- The digits of `n`. -/
def decimalText (n : Nat) : PyStr := (Nat.toDigits 10 n).map CodePoint.ofChar

/-- `repr(i)`. -/
def reprInt (i : Int) : PyStr :=
  if i < 0 then .ofChar '-' :: decimalText i.natAbs else decimalText i.natAbs

/-- The blanks that `int` skips. -/
def CodePoint.isBlank (c : CodePoint) : Bool := 9 ≤ c.val && c.val ≤ 13 || c.val = 32

def CodePoint.isDigit (c : CodePoint) : Bool := 48 ≤ c.val && c.val ≤ 57

/-- Digits, with single underscores between them. -/
def natOfText (s : PyStr) : Option Nat :=
  let groups := s.splitOn (CodePoint.ofChar '_')
  if ∀ group ∈ groups, group ≠ [] ∧ group.all CodePoint.isDigit then
    some (groups.flatten.foldl (fun n c => 10 * n + (c.val - 48)) 0)
  else none

/-- `int(s)` of an ASCII text. -/
def intOfText (s : PyStr) : Except Exn Int :=
  let text := ((s.dropWhile CodePoint.isBlank).reverse.dropWhile CodePoint.isBlank).reverse
  let magnitude :=
    match text with
    | c :: rest =>
      if c = .ofChar '-' then (natOfText rest).map fun n => -(n : Int)
      else if c = .ofChar '+' then (natOfText rest).map Int.ofNat
      else (natOfText text).map Int.ofNat
    | [] => none
  match magnitude with
  | some i => .ok i
  | none => .error .valueError

theorem CodePoint.ofChar_val (c : Char) : (CodePoint.ofChar c).val = c.toNat := by
  refine Nat.mod_eq_of_lt ?_
  rcases c.valid with h | ⟨-, h⟩
  · exact Nat.lt_trans h (by decide)
  · exact h

section Decimal

variable (n : Nat)

/-- The digits of a number read as that number. -/
theorem foldl_decimalText :
    (decimalText n).foldl (fun n c => 10 * n + (c.val - 48)) 0 = n := by
  simp only [decimalText, List.foldl_map, CodePoint.ofChar_val]
  exact Nat.ofDigitChars_ten_toDigits

theorem isDigit_of_mem_decimalText {c : CodePoint} (h : c ∈ decimalText n) :
    48 ≤ c.val ∧ c.val ≤ 57 := by
  obtain ⟨d, hd, rfl⟩ := List.mem_map.mp h
  have hdigit := Nat.isDigit_of_mem_toDigits (by decide) (by decide) hd
  simp only [Char.isDigit, Bool.and_eq_true, decide_eq_true_eq] at hdigit
  rw [CodePoint.ofChar_val]
  exact hdigit

theorem decimalText_ne_nil : decimalText n ≠ [] := by
  intro h
  exact Nat.toDigits_ne_nil (List.map_eq_nil_iff.mp h)

theorem natOfText_decimalText : natOfText (decimalText n) = some n := by
  have hunderscore : CodePoint.ofChar '_' ∉ decimalText n := by
    intro h
    have hdigit := isDigit_of_mem_decimalText n h
    revert hdigit
    decide
  have hgroups : ∀ group ∈ [decimalText n], group ≠ [] ∧ group.all CodePoint.isDigit := by
    intro group hgroup
    obtain rfl := List.mem_singleton.mp hgroup
    refine ⟨decimalText_ne_nil n, List.all_eq_true.mpr fun c hc => ?_⟩
    obtain ⟨hlow, hhigh⟩ := isDigit_of_mem_decimalText n hc
    simp only [CodePoint.isDigit, hlow, hhigh, decide_true, Bool.and_true]
  simp only [natOfText, List.splitOn_eq_singleton hunderscore]
  rw [if_pos hgroups, List.flatten_singleton, foldl_decimalText]

end Decimal

theorem dropWhile_isBlank {s : PyStr} (h : ∀ c ∈ s, c.isBlank = false) :
    ((s.dropWhile CodePoint.isBlank).reverse.dropWhile CodePoint.isBlank).reverse = s := by
  have hkeep : ∀ t : PyStr, (∀ c ∈ t, c.isBlank = false) → t.dropWhile CodePoint.isBlank = t := by
    intro t ht
    cases t with
    | nil => rfl
    | cons c t => rw [List.dropWhile_cons, ht c (List.mem_cons_self ..), if_neg Bool.false_ne_true]
  rw [hkeep s h, hkeep s.reverse (fun c hc => h c (List.mem_reverse.mp hc)), List.reverse_reverse]

/-- What `repr` writes is ASCII without blanks. -/
theorem mem_reprInt {i : Int} {c : CodePoint} (h : c ∈ reprInt i) :
    c.val < 128 ∧ c.isBlank = false := by
  have hdigit : ∀ {c : CodePoint}, c ∈ decimalText i.natAbs → c.val < 128 ∧ c.isBlank = false := by
    intro c hc
    obtain ⟨hlow, hhigh⟩ := isDigit_of_mem_decimalText _ hc
    refine ⟨by omega, ?_⟩
    simp only [CodePoint.isBlank, Bool.or_eq_false_iff, Bool.and_eq_false_iff,
      decide_eq_false_iff_not]
    omega
  unfold reprInt at h
  split at h
  · rcases List.mem_cons.mp h with rfl | hc
    · decide
    · exact hdigit hc
  · exact hdigit h

/-- `int(repr(i))`. -/
theorem intOfText_reprInt (i : Int) : intOfText (reprInt i) = .ok i := by
  have htext := dropWhile_isBlank (s := reprInt i) fun c hc => (mem_reprInt hc).2
  simp only [intOfText, htext]
  by_cases hneg : i < 0
  · simp only [reprInt, hneg, if_true, natOfText_decimalText, Option.map_some]
    refine congrArg Except.ok ?_
    show -(i.natAbs : Int) = i
    omega
  · simp only [reprInt, hneg, if_false]
    cases htext : decimalText i.natAbs with
    | nil => exact absurd htext (decimalText_ne_nil _)
    | cons c rest =>
      -- the first digit is no sign
      have hc : c ∈ decimalText i.natAbs := htext ▸ List.mem_cons_self ..
      have hdigit := isDigit_of_mem_decimalText _ hc
      have hminus : c ≠ .ofChar '-' := by
        rintro rfl
        revert hdigit
        decide
      have hplus : c ≠ .ofChar '+' := by
        rintro rfl
        revert hdigit
        decide
      simp only [hminus, hplus, if_false, ← htext, natOfText_decimalText, Option.map_some]
      refine congrArg Except.ok ?_
      show (i.natAbs : Int) = i
      omega

theorem encodeAscii_reprInt (i : Int) :
    (reprInt i).encodeAscii = .ok ((reprInt i).map fun c => .ofNat c.val) :=
  if_pos (List.all_eq_true.mpr fun _ hc => decide_eq_true (mem_reprInt hc).1)

theorem reprInt_ne_nil (i : Int) : reprInt i ≠ [] := by
  unfold reprInt
  split
  · exact List.cons_ne_nil _ _
  · exact decimalText_ne_nil _

end Kazoo
