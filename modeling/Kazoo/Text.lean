import Kazoo.Exceptions
import Mathlib.Algebra.Group.Int.Defs
import Mathlib.Algebra.GroupWithZero.Nat
import Mathlib.Data.List.Sort
import Mathlib.Order.Fin.Basic

/-!
# Python text and bytes

A `str` is a list of code points, surrogates included: the lone surrogates are exactly what
`str.encode("utf-8")` refuses.
-/

namespace Kazoo

abbrev Bytes := List UInt8
abbrev CodePoint := Fin 0x110000
abbrev PyStr := List CodePoint

instance CodePoint.neZero : NeZero 0x110000 := ⟨by decide⟩

instance PyStr.decidableMem (s : PyStr) (l : List PyStr) : Decidable (s ∈ l) :=
  inferInstanceAs (Decidable (s ∈ l))

def CodePoint.ofChar (c : Char) : CodePoint := Fin.ofNat 0x110000 c.toNat

/-- A literal of the source. -/
def str (s : String) : PyStr := s.toList.map CodePoint.ofChar

def CodePoint.isSurrogate (c : CodePoint) : Bool := 0xD800 ≤ c.val && c.val < 0xE000

/-- The UTF-8 bytes of one code point. -/
def CodePoint.encode (c : CodePoint) : Except Exn Bytes :=
  let n := c.val
  if n < 0x80 then .ok [.ofNat n]
  else if n < 0x800 then .ok [.ofNat (0xC0 + n / 64), .ofNat (0x80 + n % 64)]
  else if c.isSurrogate then .error .unicodeEncodeError
  else if n < 0x10000 then
    .ok [.ofNat (0xE0 + n / 4096), .ofNat (0x80 + n / 64 % 64), .ofNat (0x80 + n % 64)]
  else
    .ok [.ofNat (0xF0 + n / 262144), .ofNat (0x80 + n / 4096 % 64), .ofNat (0x80 + n / 64 % 64),
      .ofNat (0x80 + n % 64)]

/-- `s.encode("utf-8")`. -/
def PyStr.encode : PyStr → Except Exn Bytes
  | [] => .ok []
  | c :: s => do return (← c.encode) ++ (← PyStr.encode s)

/-- The low six bits of a continuation byte. -/
def continuation (b : UInt8) : Option Nat :=
  if 0x80 ≤ b.toNat ∧ b.toNat < 0xC0 then some (b.toNat - 0x80) else none

/-- The scalar value `n` read from a sequence whose shortest value is `least`: overlong forms,
surrogates and values past the last code point are refused. -/
def scalarValue (least n : Nat) : Option CodePoint :=
  if least ≤ n ∧ ¬ (0xD800 ≤ n ∧ n < 0xE000) then
    if h : n < 0x110000 then some ⟨n, h⟩ else none
  else none

/-- `b.decode("utf-8")`. -/
def Bytes.decode : Bytes → Except Exn PyStr
  | [] => .ok []
  | b₀ :: rest =>
    if b₀.toNat < 0x80 then do
      return Fin.ofNat 0x110000 b₀.toNat :: (← Bytes.decode rest)
    -- a continuation byte starts nothing
    else if b₀.toNat < 0xC0 then .error .unicodeDecodeError
    else match rest with
    | [] => .error .unicodeDecodeError
    | b₁ :: rest =>
      match continuation b₁ with
      | none => .error .unicodeDecodeError
      | some x₁ =>
        -- two bytes
        if b₀.toNat < 0xE0 then
          match scalarValue 0x80 ((b₀.toNat - 0xC0) * 64 + x₁) with
          | none => .error .unicodeDecodeError
          | some c => do return c :: (← Bytes.decode rest)
        else match rest with
        | [] => .error .unicodeDecodeError
        | b₂ :: rest =>
          match continuation b₂ with
          | none => .error .unicodeDecodeError
          | some x₂ =>
            -- three bytes
            if b₀.toNat < 0xF0 then
              match scalarValue 0x800 (((b₀.toNat - 0xE0) * 64 + x₁) * 64 + x₂) with
              | none => .error .unicodeDecodeError
              | some c => do return c :: (← Bytes.decode rest)
            -- four bytes; `scalarValue` refuses what the lead bytes from 0xF5 on announce
            else match rest with
            | [] => .error .unicodeDecodeError
            | b₃ :: rest =>
              match continuation b₃ with
              | none => .error .unicodeDecodeError
              | some x₃ =>
                match scalarValue 0x10000
                    ((((b₀.toNat - 0xF0) * 64 + x₁) * 64 + x₂) * 64 + x₃) with
                | none => .error .unicodeDecodeError
                | some c => do return c :: (← Bytes.decode rest)

theorem CodePoint.encode_isOk_iff (c : CodePoint) :
    c.encode.isOk = true ↔ c.isSurrogate = false := by
  unfold CodePoint.encode CodePoint.isSurrogate
  -- one or two bytes are below the surrogates
  by_cases h₁ : c.val < 0x80
  · simp only [h₁, if_true, Except.isOk, Except.toBool, true_iff, Bool.and_eq_false_iff,
      decide_eq_false_iff_not]
    omega
  by_cases h₂ : c.val < 0x800
  · simp only [h₁, h₂, if_true, if_false, Except.isOk, Except.toBool, true_iff,
      Bool.and_eq_false_iff, decide_eq_false_iff_not]
    omega
  simp only [h₁, h₂, if_false]
  cases hs : (decide (0xD800 ≤ c.val) && decide (c.val < 0xE000))
  · simp only [Bool.false_eq_true, if_false]
    split <;> simp [Except.isOk, Except.toBool]
  · simp [Except.isOk, Except.toBool]

/-- A text can be encoded exactly when it holds no surrogate. -/
theorem PyStr.encode_isOk_iff (s : PyStr) :
    (PyStr.encode s).isOk = true ↔ ∀ c ∈ s, c.isSurrogate = false := by
  induction s with
  | nil => simp [PyStr.encode, Except.isOk, Except.toBool]
  | cons c s ih =>
    rw [List.forall_mem_cons, ← c.encode_isOk_iff, ← ih, PyStr.encode]
    cases hc : c.encode with
    | error e => simp [Except.isOk, Except.toBool, bind, Except.bind]
    | ok b =>
      cases hs : PyStr.encode s with
      | error e => simp [Except.isOk, Except.toBool, bind, Except.bind]
      | ok b' => simp [Except.isOk, Except.toBool, bind, Except.bind, pure, Except.pure]

/-! ## Sorting -/

/-- `sorted(names)`. -/
def sortedNames (names : List PyStr) : List PyStr := names.insertionSort fun a b => ¬ b < a

section

variable {names rest : List PyStr} {a b : PyStr}

@[simp] theorem mem_sortedNames : a ∈ sortedNames names ↔ a ∈ names :=
  List.mem_insertionSort _

@[simp] theorem length_sortedNames : (sortedNames names).length = names.length :=
  List.length_insertionSort _ _

theorem sortedNames_eq_nil_iff : sortedNames names = [] ↔ names = [] := by
  rw [← List.length_eq_zero_iff, length_sortedNames, List.length_eq_zero_iff]

theorem pairwise_sortedNames (names : List PyStr) :
    (sortedNames names).Pairwise fun a b => ¬ b < a := by
  have : Std.Total fun a b : PyStr => ¬ b < a := ⟨fun a b => List.le_total a b⟩
  have : IsTrans PyStr fun a b => ¬ b < a := ⟨fun _ _ _ => List.le_trans⟩
  exact List.pairwise_insertionSort _ names

/-- The first is the least. -/
theorem head_sortedNames (h : sortedNames names = a :: rest) : a ∈ names ∧ ∀ b ∈ names, ¬ b < a := by
  have hsorted := pairwise_sortedNames names
  rw [h] at hsorted
  have hmem : ∀ b, b ∈ names ↔ b ∈ a :: rest := fun b => h ▸ mem_sortedNames.symm
  refine ⟨(hmem a).mpr List.mem_cons_self, fun b hb => ?_⟩
  rcases List.mem_cons.mp ((hmem b).mp hb) with rfl | hb
  · exact List.lt_irrefl b
  · exact (List.pairwise_cons.mp hsorted).1 b hb

end

end Kazoo
