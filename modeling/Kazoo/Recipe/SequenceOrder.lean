import Kazoo.Recipe.Contenders
import Mathlib.Data.Int.Init

/-!
# The order of the contenders when the counter overflows

`_get_predecessor` of `kazoo/recipe/lock.py` compares sequence numbers as texts.  The server counts
the creations below a node with a signed counter of 32 bits and writes it with `%010d`, so a number
below zero has a minus sign for one of its ten characters, or eleven characters.
-/

namespace Kazoo

/-! ## Signed sequence numbers -/

/-- The counter of the parent after so many creations. -/
def counter (created : Nat) : Int := Int.bmod created (2 ^ 32)

/-- The least number whose text has a sign and less than ten digits. -/
def shortLimit : Nat := 10 ^ 9

def signedWidth (number : Int) : Nat := if shortLimit ≤ number.natAbs then 10 else 9

/-- `%010d` of a number with its sign. -/
def signedText (number : Int) : PyStr :=
  if 0 ≤ number then sequenceText number.toNat
  else str "-" ++ FixedWidth.digits digitChar 10 (signedWidth number) number.natAbs

namespace LockConfig

def signedName (c : LockConfig) (number : Int) : PyStr := c.lockPrefix ++ signedText number

/-- `contender_matches` of `_get_predecessor`, each with what the expression has read of it. -/
def contenderMatches (decimal : CodePoint → Bool) (c : LockConfig) (node : PyStr)
    (children : List PyStr) : List (PyStr × PyStr) :=
  children.filterMap fun child =>
    match contendersSearch decimal c.excludeNames child with
    | some contenderSequence =>
      if contenderSequence < node.drop c.lockPrefix.length then some (contenderSequence, child)
      else none
    | none => none

theorem getPredecessor_eq (decimal : CodePoint → Bool) (c : LockConfig) (node : PyStr)
    (children : List PyStr) : c.getPredecessor decimal node children =
      if node ∉ children then .error .forceRetryError
      else .ok (((c.contenderMatches decimal node children).insertionSort
        fun m m' => ¬ m'.1 < m.1).getLast?.map Prod.snd) := rfl

/-- The names that `_get_predecessor` takes for those of predecessors. -/
def predecessors (decimal : CodePoint → Bool) (c : LockConfig) (node : PyStr)
    (children : List PyStr) : List PyStr :=
  (c.contenderMatches decimal node children).map Prod.snd

theorem mem_predecessors {decimal : CodePoint → Bool} {c : LockConfig} {node name : PyStr}
    {children : List PyStr} : name ∈ c.predecessors decimal node children ↔
      name ∈ children ∧ c.Before decimal node name := by
  simp only [predecessors, contenderMatches, List.mem_map, List.mem_filterMap, Before, Prod.exists]
  constructor
  · rintro ⟨sequence, name', ⟨child, hchild, hmatch⟩, rfl⟩
    split at hmatch
    · next sequence' hsearch =>
      obtain ⟨hlt, heq⟩ := Option.ite_none_right_eq_some.mp hmatch
      cases heq
      exact ⟨hchild, _, hsearch, hlt⟩
    · cases hmatch
  · rintro ⟨hchild, sequence, hsearch, hlt⟩
    refine ⟨sequence, name, ⟨name, hchild, ?_⟩, rfl⟩
    rw [hsearch]
    exact if_pos hlt

/-- The lock object `c` looks for the nodes of `c'`, and none of its patterns takes the minus sign
of a number for a part of the name before it. -/
def Contends (c c' : LockConfig) : Prop :=
  NODE_NAME c'.kind ∈ c.excludeNames ∧
    ∀ name ∈ c.excludeNames, ¬ NODE_NAME c'.kind ++ str "-" <:+ name

end LockConfig

/-! ## What the search finds in a name with a sign -/

section

variable {decimal : CodePoint → Bool} {width number : Nat} {front rest found : PyStr}

/-- The digits after a sign. -/
def signedDigits (width number : Nat) : PyStr := FixedWidth.digits digitChar 10 width number

@[simp] theorem length_signedDigits : (signedDigits width number).length = width :=
  FixedWidth.length_digits _ _ _ _

theorem notMem_signedDigits (hlimit : number < 10 ^ width) {a : CodePoint}
    (ha : ∀ d < 10, a ≠ digitChar d) : a ∉ signedDigits width number := by
  intro hmem
  obtain ⟨d, hd, heq⟩ := FixedWidth.mem_digits digitChar 10 (by decide) hlimit _ hmem
  exact ha d hd heq

/-- Ten digits at the end of the name are all that follows the sign. -/
theorem digitsMatch_signed (hminus : decimal (CodePoint.ofChar '-') = false) {sign : PyStr}
    (hwidth : width = 9 ∨ width = 10) (hlimit : number < 10 ^ width)
    (hrest : rest <:+ front ++ str "-" ++ signedDigits width number)
    (h : digitsMatch decimal sign rest = some found) :
    width = 10 ∧ rest = signedDigits width number ∧ found = sign ++ rest := by
  unfold digitsMatch at h
  split at h
  · next hmatch =>
    obtain ⟨hlen, hall, hend⟩ := hmatch
    have hnil : rest.drop 10 = [] := by
      refine hend.resolve_right fun hnewline => ?_
      -- the name would end in a newline
      have hlast : [CodePoint.ofChar '\n'] <:+ signedDigits width number := by
        refine List.suffix_of_suffix_length_le ?_ (List.suffix_append (front ++ str "-") _)
          (by simp; omega)
        exact (show str "\n" <:+ rest from hnewline ▸ List.drop_suffix 10 rest).trans hrest
      exact notMem_signedDigits hlimit (by decide) (hlast.subset (List.mem_singleton_self _))
    have hten : rest.length = 10 := by
      rw [List.length_take] at hlen
      have := congrArg List.length hnil
      rw [List.length_drop, List.length_nil] at this
      omega
    have htake : rest.take 10 = rest := List.take_of_length_le hten.le
    rw [htake] at h hall
    cases h
    rcases hwidth with rfl | rfl
    · -- the sign would be one of them
      have heq : rest = str "-" ++ signedDigits 9 number := by
        refine (List.suffix_of_suffix_length_le hrest ?_ ?_).eq_of_length ?_
        · rw [List.append_assoc]
          exact List.suffix_append _ _
        · simp [hten, str]
        · simp [hten, str]
      have hsign := List.all_eq_true.mp hall (CodePoint.ofChar '-') (by simp [heq, str])
      rw [hminus] at hsign
      cases hsign
    · refine ⟨rfl, ?_, rfl⟩
      refine (List.suffix_of_suffix_length_le hrest (List.suffix_append _ _) ?_).eq_of_length ?_ <;>
        simp [hten]
  · cases h

theorem sequenceMatch_signed (hminus : decimal (CodePoint.ofChar '-') = false)
    (hwidth : width = 9 ∨ width = 10) (hlimit : number < 10 ^ width)
    (hrest : rest <:+ front ++ str "-" ++ signedDigits width number)
    (h : sequenceMatch decimal rest = some found) :
    width = 10 ∧ (rest = signedDigits width number ∨
      rest = str "-" ++ signedDigits width number) ∧ found = rest := by
  unfold sequenceMatch at h
  split at h
  · next hsign =>
    rcases Option.or_eq_some_iff.mp h with h | ⟨-, h⟩
    · obtain ⟨hten, hdigits, rfl⟩ := digitsMatch_signed hminus hwidth hlimit
        ((List.drop_suffix 1 rest).trans hrest) h
      have hall : str "-" ++ rest.drop 1 = rest := by rw [← hsign, List.take_append_drop]
      exact ⟨hten, .inr (hdigits ▸ hall.symm), hall⟩
    · obtain ⟨hten, hdigits, rfl⟩ := digitsMatch_signed hminus hwidth hlimit hrest h
      exact ⟨hten, .inl hdigits, rfl⟩
  · obtain ⟨hten, hdigits, rfl⟩ := digitsMatch_signed hminus hwidth hlimit hrest h
    exact ⟨hten, .inl hdigits, rfl⟩

/-- With nine digits after the sign, no contender is found. -/
theorem contendersSearch_short (hminus : decimal (CodePoint.ofChar '-') = false)
    {names : List PyStr} (hlimit : number < 10 ^ 9) :
    contendersSearch decimal names (front ++ str "-" ++ signedDigits 9 number) = none := by
  cases hsearch : contendersSearch decimal names (front ++ str "-" ++ signedDigits 9 number) with
  | none => rfl
  | some found =>
    obtain ⟨place, hplace, h⟩ := List.exists_of_findSome?_eq_some hsearch
    obtain ⟨name, -, h⟩ := List.exists_of_findSome?_eq_some h
    split at h
    · have hrest := (List.drop_suffix name.length place).trans ((List.mem_tails _ _).mp hplace)
      obtain ⟨hten, -⟩ := sequenceMatch_signed hminus (.inl rfl) hlimit hrest h
      cases hten
    · cases h

/-- The leftmost place at which something is found is not after any other. -/
theorem findSome?_tails {α β : Type} {g : List α → Option β} {l place : List α} {b : β}
    (hplace : place <:+ l) (hsome : g place ≠ none) (h : l.tails.findSome? g = some b) :
    ∃ leftmost, place <:+ leftmost ∧ leftmost <:+ l ∧ g leftmost = some b := by
  induction l with
  | nil =>
    obtain rfl := List.suffix_nil.mp hplace
    exact ⟨[], List.suffix_refl _, List.suffix_refl _, by simpa using h⟩
  | cons a l ih =>
    rw [List.tails_cons, List.findSome?_cons] at h
    split at h
    · next b' hb =>
      cases h
      exact ⟨a :: l, hplace, List.suffix_refl _, hb⟩
    · next hnone =>
      rcases List.suffix_cons_iff.mp hplace with rfl | hplace
      · exact absurd hnone hsome
      · obtain ⟨leftmost, hleft, hsuffix, hb⟩ := ih hplace h
        exact ⟨leftmost, hleft, hsuffix.trans (List.suffix_cons a l), hb⟩

/-- With ten digits after the sign, it is found with its sign by those that look for it. -/
theorem contendersSearch_long (hdecimal : ∀ d < 10, decimal (digitChar d) = true)
    (hminus : decimal (CodePoint.ofChar '-') = false) {c c' : LockConfig} (hcontends : c.Contends c')
    (hlimit : number < 10 ^ 10) :
    contendersSearch decimal c.excludeNames
        (c'.lockPrefix ++ str "-" ++ signedDigits 10 number) =
      some (str "-" ++ signedDigits 10 number) := by
  obtain ⟨hname, hpatterns⟩ := hcontends
  let g : PyStr → Option PyStr := fun place => c.excludeNames.findSome? fun name =>
    if name.isPrefixOf place then sequenceMatch decimal (place.drop name.length) else none
  have hmatch : sequenceMatch decimal (str "-" ++ signedDigits 10 number) =
      some (str "-" ++ signedDigits 10 number) := by
    have htake : (signedDigits 10 number).take 10 = signedDigits 10 number :=
      List.take_of_length_le (by simp)
    have hdrop : (signedDigits 10 number).drop 10 = [] := List.drop_of_length_le (by simp)
    have hall : (signedDigits 10 number).all decimal = true := by
      refine List.all_eq_true.mpr fun x hx => ?_
      obtain ⟨d, hd, rfl⟩ := FixedWidth.mem_digits digitChar 10 (by decide) hlimit x hx
      exact hdecimal d hd
    have hrest : (str "-" ++ signedDigits 10 number).drop 1 = signedDigits 10 number := rfl
    have hsign : (str "-" ++ signedDigits 10 number).take 1 = str "-" := rfl
    rw [sequenceMatch, if_pos hsign, hrest, digitsMatch, htake, hdrop,
      if_pos ⟨length_signedDigits, hall, .inl rfl⟩, Option.some_or]
  -- the name itself and what follows it are a match
  have hplace : NODE_NAME c'.kind ++ (str "-" ++ signedDigits 10 number) <:+
      c'.lockPrefix ++ str "-" ++ signedDigits 10 number := by
    rw [LockConfig.lockPrefix, List.append_assoc, List.append_assoc]
    exact List.suffix_append _ _
  have hsome : g (NODE_NAME c'.kind ++ (str "-" ++ signedDigits 10 number)) ≠ none := by
    intro hnone
    have hnone := List.findSome?_eq_none_iff.mp hnone _ hname
    rw [if_pos (List.isPrefixOf_iff_prefix.mpr (List.prefix_append _ _)), List.drop_left,
      hmatch] at hnone
    cases hnone
  cases hsearch : contendersSearch decimal c.excludeNames
      (c'.lockPrefix ++ str "-" ++ signedDigits 10 number) with
  | none =>
    exact absurd (List.findSome?_eq_none_iff.mp hsearch _ ((List.mem_tails _ _).mpr hplace)) hsome
  | some found =>
    obtain ⟨leftmost, hleft, hsuffix, hfound⟩ := findSome?_tails hplace hsome hsearch
    obtain ⟨name, hmem, hfound⟩ := List.exists_of_findSome?_eq_some hfound
    split at hfound
    · next hpre =>
      obtain ⟨rest, rfl⟩ := List.isPrefixOf_iff_prefix.mp hpre
      rw [List.drop_left] at hfound
      obtain ⟨-, hrest | hrest, rfl⟩ := sequenceMatch_signed hminus (.inr rfl) hlimit
        ((List.suffix_append name rest).trans hsuffix) hfound
      · -- the pattern would take the sign
        rw [hrest, ← List.append_assoc] at hleft
        refine absurd ?_ (hpatterns name hmem)
        obtain ⟨l, hl⟩ := hleft
        exact ⟨l, List.append_cancel_right ((List.append_assoc _ _ _).trans hl)⟩
      · rw [hrest]
    · cases hfound

end

/-! ## Texts with and without a sign -/

section

variable {a b : Int} {number number' : Nat}

theorem signedText_of_nonneg (h : 0 ≤ a) : signedText a = sequenceText a.toNat := if_pos h

theorem signedText_of_neg (h : a < 0) :
    signedText a = str "-" ++ signedDigits (signedWidth a) a.natAbs :=
  if_neg (not_le.mpr h)

/-- The sign comes before every digit. -/
theorem sign_lt_sequenceText (rest : PyStr) (hlimit : number < sequenceLimit) :
    str "-" ++ rest < sequenceText number := by
  have hmem := FixedWidth.mem_digits digitChar 10 (by decide) hlimit
  have hlength := length_sequenceText number
  cases htext : sequenceText number with
  | nil =>
    rw [htext] at hlength
    cases hlength
  | cons x text =>
    obtain ⟨d, hd, rfl⟩ := hmem x (by rw [← sequenceText, htext]; exact List.mem_cons_self)
    have hsign : ∀ d < 10, CodePoint.ofChar '-' < digitChar d := by decide
    exact List.cons_lt_cons_iff.mpr (.inl (hsign d hd))

theorem sign_append_lt_iff {x y : PyStr} : str "-" ++ x < str "-" ++ y ↔ x < y := by
  rw [show str "-" ++ x = CodePoint.ofChar '-' :: x from rfl,
    show str "-" ++ y = CodePoint.ofChar '-' :: y from rfl, List.cons_lt_cons_iff]
  simp

/-- Of ten digits and nine, the tenth does not count. -/
theorem signedDigits_long_lt_short_iff (hlimit : number < 10 ^ 10) (hlimit' : number' < 10 ^ 9) :
    signedDigits 10 number < signedDigits 9 number' ↔ number / 10 < number' := by
  have htop : number / 10 < 10 ^ 9 := Nat.div_lt_of_lt_mul (by rwa [← Nat.pow_succ'])
  rw [signedDigits, FixedWidth.digits_succ digitChar 10 hlimit,
    FixedWidth.append_lt_iff (by simp [signedDigits])]
  exact FixedWidth.digits_lt_digits_iff digitChar_lt htop hlimit'

end

/-! ## The order of two contenders -/

/-- The later contender counts the earlier one among its predecessors, and not the other way round. -/
def InOrder (decimal : CodePoint → Bool) (earlier later : LockConfig) (a b : Int)
    (children : List PyStr) : Prop :=
  earlier.signedName a ∈ later.predecessors decimal (later.signedName b) children ∧
    later.signedName b ∉ earlier.predecessors decimal (earlier.signedName a) children

/-- The texts of the earlier number `a` and the later number `b` are both read, and compare as the
numbers were given out. -/
def OrderKept (a b : Int) : Prop :=
  0 ≤ a ∧ 0 ≤ b ∨ a ≤ -shortLimit ∧ (0 ≤ b ∨ -shortLimit < b ∧ -a / 10 < -b)

section

variable {decimal : CodePoint → Bool} {c c' : LockConfig} {a b : Int}

theorem drop_signedName : (c.signedName b).drop c.lockPrefix.length = signedText b := List.drop_left

theorem signedName_of_neg (h : a < 0) :
    c.signedName a = c.lockPrefix ++ str "-" ++ signedDigits (signedWidth a) a.natAbs := by
  rw [LockConfig.signedName, signedText_of_neg h, List.append_assoc]

theorem before_of_nonneg (hdecimal : ∀ d < 10, decimal (digitChar d) = true)
    (hcontends : c.Contends c') (ha : 0 ≤ a) (hlimit : a < sequenceLimit) :
    c.Before decimal (c.signedName b) (c'.signedName a) ↔ sequenceText a.toNat < signedText b := by
  have hsearch : contendersSearch decimal c.excludeNames (c'.lockPrefix ++ sequenceText a.toNat) =
      some (sequenceText a.toNat) := contendersSearch_nodeName hdecimal (by omega) hcontends.1
  rw [LockConfig.Before, drop_signedName, LockConfig.signedName, signedText_of_nonneg ha]
  constructor
  · rintro ⟨sequence, hsequence, hlt⟩
    rwa [← Option.some.inj (hsequence.symm.trans hsearch)]
  · exact fun hlt => ⟨_, hsearch, hlt⟩

/-- No lock object takes a later number for an earlier one, when neither has a sign. -/
theorem lt_of_before_of_nonneg (ha : 0 ≤ a) (hlimit : a < sequenceLimit)
    (h : c.Before decimal (c.signedName b) (c'.signedName a)) :
    sequenceText a.toNat < signedText b := by
  obtain ⟨sequence, hsequence, hlt⟩ := h
  rw [LockConfig.signedName, signedText_of_nonneg ha] at hsequence
  rw [drop_signedName, (eq_of_contendersSearch (c := c') (by omega) hsequence).1] at hlt
  exact hlt

theorem not_before_of_short (hminus : decimal (CodePoint.ofChar '-') = false) (ha : a < 0)
    (hshort : -shortLimit < a) : ¬ c.Before decimal (c.signedName b) (c'.signedName a) := by
  rintro ⟨sequence, hsequence, -⟩
  have hwidth : signedWidth a = 9 := if_neg (by omega)
  rw [signedName_of_neg ha, hwidth, contendersSearch_short hminus (by unfold shortLimit at hshort; omega)]
    at hsequence
  cases hsequence

theorem before_of_long (hdecimal : ∀ d < 10, decimal (digitChar d) = true)
    (hminus : decimal (CodePoint.ofChar '-') = false) (hcontends : c.Contends c')
    (hlong : a ≤ -shortLimit) (hlimit : -sequenceLimit < a) :
    c.Before decimal (c.signedName b) (c'.signedName a) ↔
      str "-" ++ signedDigits 10 a.natAbs < signedText b := by
  have hneg : a < 0 := by unfold shortLimit at hlong; omega
  have hwidth : signedWidth a = 10 := if_pos (by omega)
  have hsmall : a.natAbs < 10 ^ 10 := by
    unfold sequenceLimit at hlimit
    omega
  have hsearch := contendersSearch_long hdecimal hminus hcontends hsmall
  rw [LockConfig.Before, drop_signedName, signedName_of_neg hneg, hwidth]
  constructor
  · rintro ⟨sequence, hsequence, hlt⟩
    rwa [← Option.some.inj (hsequence.symm.trans hsearch)]
  · exact fun hlt => ⟨_, hsearch, hlt⟩

/-- Of two numbers in their right order, the texts are so too, in the cases that `OrderKept` names. -/
theorem before_iff (hdecimal : ∀ d < 10, decimal (digitChar d) = true)
    (hminus : decimal (CodePoint.ofChar '-') = false) (hcontends : c.Contends c')
    (ha : -2 ^ 31 ≤ a ∧ a < 2 ^ 31) (hb : -2 ^ 31 ≤ b ∧ b < 2 ^ 31)
    (hsame : (0 ≤ a ↔ 0 ≤ b) → a < b) :
    c.Before decimal (c.signedName b) (c'.signedName a) ↔ OrderKept a b := by
  unfold OrderKept shortLimit
  rcases le_or_gt 0 a with ha0 | ha0
  · rw [before_of_nonneg hdecimal hcontends ha0 (by unfold sequenceLimit; omega)]
    rcases le_or_gt 0 b with hb0 | hb0
    · have hlt := hsame (by omega)
      refine iff_of_true ?_ (.inl ⟨ha0, hb0⟩)
      rw [signedText_of_nonneg hb0]
      exact sequenceText_lt (by omega) (by unfold sequenceLimit; omega)
    · refine iff_of_false ?_ (by omega)
      rw [signedText_of_neg hb0]
      exact List.lt_asymm (sign_lt_sequenceText _ (by unfold sequenceLimit; omega))
  rcases lt_or_ge (-shortLimit : Int) a with hshort | hlong
  · refine iff_of_false (not_before_of_short hminus ha0 hshort) ?_
    unfold shortLimit at hshort
    omega
  · rw [before_of_long hdecimal hminus hcontends hlong (by unfold sequenceLimit; omega)]
    unfold shortLimit at hlong
    rcases le_or_gt 0 b with hb0 | hb0
    · refine iff_of_true ?_ (.inr ⟨hlong, .inl hb0⟩)
      rw [signedText_of_nonneg hb0]
      exact sign_lt_sequenceText _ (by unfold sequenceLimit; omega)
    rw [signedText_of_neg hb0, sign_append_lt_iff]
    have hlt := hsame (by omega)
    by_cases hwidth : -(10 ^ 9 : Int) < b
    · rw [show signedWidth b = 9 from if_neg (by unfold shortLimit; omega),
        signedDigits_long_lt_short_iff (by omega) (by omega)]
      omega
    · rw [show signedWidth b = 10 from if_pos (by unfold shortLimit; omega)]
      refine iff_of_false ?_ (by omega)
      exact List.lt_asymm (FixedWidth.digits_lt_digits digitChar_lt (by omega) (by omega))

/-- When the order is kept, the earlier contender does not count the later one. -/
theorem not_before_of_orderKept (hminus : decimal (CodePoint.ofChar '-') = false)
    (ha : -2 ^ 31 ≤ a ∧ a < 2 ^ 31) (hb : -2 ^ 31 ≤ b ∧ b < 2 ^ 31)
    (hsame : (0 ≤ a ↔ 0 ≤ b) → a < b) (hkept : OrderKept a b) :
    ¬ c.Before decimal (c.signedName a) (c'.signedName b) := by
  unfold OrderKept at hkept
  rcases le_or_gt 0 b with hb0 | hb0
  · intro h
    have hlt := lt_of_before_of_nonneg hb0 (by unfold sequenceLimit; omega) h
    rcases le_or_gt 0 a with ha0 | ha0
    · rw [signedText_of_nonneg ha0] at hlt
      have := hsame (by omega)
      exact List.lt_asymm hlt (sequenceText_lt (by omega) (by unfold sequenceLimit; omega))
    · rw [signedText_of_neg ha0] at hlt
      exact List.lt_asymm hlt (sign_lt_sequenceText _ (by unfold sequenceLimit; omega))
  · exact not_before_of_short hminus hb0 (by omega)

/-- Less than half a cycle apart, two numbers with the same sign are in their right order. -/
theorem counter_lt {i j : Nat} (hij : i < j) (hclose : j < i + 2 ^ 31)
    (hsign : 0 ≤ counter i ↔ 0 ≤ counter j) : counter i < counter j := by
  unfold counter at hsign ⊢
  simp only [Int.bmod_def] at hsign ⊢
  omega

theorem counter_mem (i : Nat) : -2 ^ 31 ≤ counter i ∧ counter i < 2 ^ 31 := by
  unfold counter
  rw [Int.bmod_def]
  constructor <;> omega

/-- Of two contenders that were created less than half a cycle of the counter apart, the later one
counts the earlier one among its predecessors, and not the other way round, if and only if neither
number has a sign, or the earlier one has a sign and ten digits and the later one has no sign or
fewer digits that make more. -/
theorem sequence_order_iff (hdecimal : ∀ d < 10, decimal (digitChar d) = true)
    (hminus : decimal (CodePoint.ofChar '-') = false) (creations : Nat → LockConfig) {i j : Nat}
    (hij : i < j) (hclose : j < i + 2 ^ 31) (hcontends : (creations j).Contends (creations i))
    {children : List PyStr} (hearlier : (creations i).signedName (counter i) ∈ children) :
    InOrder decimal (creations i) (creations j) (counter i) (counter j) children ↔
      OrderKept (counter i) (counter j) := by
  have hsame := counter_lt hij hclose
  rw [InOrder, LockConfig.mem_predecessors, LockConfig.mem_predecessors,
    before_iff hdecimal hminus hcontends (counter_mem i) (counter_mem j) hsame]
  constructor
  · exact fun h => h.1.2
  · exact fun h => ⟨⟨hearlier, h⟩, fun hlate =>
      not_before_of_orderKept hminus (counter_mem i) (counter_mem j) hsame h hlate.2⟩

end

/-! ## Two contenders -/

/-- The digits of ASCII. -/
def asciiDecimal (c : CodePoint) : Bool := digitChar 0 ≤ c && c ≤ digitChar 9

/-- Two locks whose nodes are created by turns. -/
def byTurns (created : Nat) : LockConfig where
  kind := .lock
  uuid := List.replicate 32 (digitChar (created % 2))
  uuid_length := List.length_replicate
  extraLockPatterns := []
  excludeNames := [str "__lock__"]
  mem_excludeNames := by simp [EXCLUDE_NAMES]
  client := created % 2

theorem contends_byTurns (i j : Nat) : (byTurns i).Contends (byTurns j) := by
  refine ⟨List.mem_cons_self, fun name hname => ?_⟩
  rw [List.mem_singleton.mp hname]
  show ¬ str "__lock__" ++ str "-" <:+ str "__lock__"
  decide

/-- The fifth number after the overflow, and the third without a sign. -/
theorem inOrder_byTurns :
    InOrder asciiDecimal (byTurns (2 ^ 31 + 5)) (byTurns (2 ^ 32 + 3)) (-2147483643) 3
      [(byTurns (2 ^ 31 + 5)).signedName (-2147483643)] := by
  have hi : counter (2 ^ 31 + 5) = -2147483643 := by decide
  have hj : counter (2 ^ 32 + 3) = 3 := by decide
  have hdecimal : ∀ d < 10, asciiDecimal (digitChar d) = true := by decide
  have hpresent : (byTurns (2 ^ 31 + 5)).signedName (counter (2 ^ 31 + 5)) ∈
      [(byTurns (2 ^ 31 + 5)).signedName (-2147483643)] := by
    rw [hi]
    exact List.mem_cons_self
  have hiff := sequence_order_iff hdecimal (by decide) byTurns (i := 2 ^ 31 + 5)
    (j := 2 ^ 32 + 3) (by omega) (by omega) (contends_byTurns _ _) hpresent
  rw [hi, hj] at hiff
  exact hiff.mpr (.inr ⟨by decide, .inl (by decide)⟩)

/-- The greatest number, and the one that the counter goes on with. -/
theorem not_inOrder_byTurns :
    ¬ ∀ (creations : Nat → LockConfig) (i j : Nat), i < j → j < i + 2 ^ 31 →
      (creations j).Contends (creations i) →
      ∀ children, (creations i).signedName (counter i) ∈ children →
        (creations j).signedName (counter j) ∈ children →
        InOrder asciiDecimal (creations i) (creations j) (counter i) (counter j) children := by
  intro h
  have hi : counter (2 ^ 31 - 1) = 2147483647 := by decide
  have hj : counter (2 ^ 31) = -2147483648 := by decide
  have hinOrder := h byTurns (2 ^ 31 - 1) (2 ^ 31) (by omega) (by omega)
    (contends_byTurns _ _) [(byTurns (2 ^ 31 - 1)).signedName (counter (2 ^ 31 - 1)),
      (byTurns (2 ^ 31)).signedName (counter (2 ^ 31))] (by simp) (by simp)
  rw [hi, hj] at hinOrder
  have hbefore := (LockConfig.mem_predecessors.mp hinOrder.1).2
  have hkept := (before_iff (by decide) (by decide) (contends_byTurns _ _) (by decide) (by decide)
    (by decide)).mp hbefore
  revert hkept
  unfold OrderKept shortLimit
  omega

end Kazoo
