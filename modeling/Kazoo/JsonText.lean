import Kazoo.Encodable
import Kazoo.IntText
import Kazoo.Lib.FixedWidth

/-!
# JSON text

`json.dumps` and `json.loads` for objects whose members are texts and integers.  What `dumps` writes
is ASCII: every other code point is escaped, by a pair of surrogates where it takes two.
-/

namespace Kazoo

inductive JsonValue
  | str (s : PyStr)
  | int (i : Int)
  deriving DecidableEq

abbrev JsonObject := List (PyStr × JsonValue)

/-! ## Writing -/

/-- `ESCAPE_DCT`: what stands after the backslash. -/
def escapes : List (CodePoint × CodePoint) :=
  [(.ofChar '"', .ofChar '"'), (.ofChar '\\', .ofChar '\\'), (0x0A, .ofChar 'n'), (0x0D, .ofChar 'r'),
    (0x09, .ofChar 't'), (0x0C, .ofChar 'f'), (0x08, .ofChar 'b')]

def hexDigit (d : Nat) : CodePoint := if d < 10 then .ofNat _ (48 + d) else .ofNat _ (87 + d)

/-- `\uXXXX`. -/
def unicodeEscape (n : Nat) : PyStr :=
  .ofChar '\\' :: .ofChar 'u' :: FixedWidth.digits hexDigit 16 4 n

def CodePoint.escape (c : CodePoint) : PyStr :=
  match escapes.lookup c with
  | some letter => [.ofChar '\\', letter]
  | none =>
    if 32 ≤ c.val ∧ c.val ≤ 126 then [c]
    else if c.val < 0x10000 then unicodeEscape c.val
    else
      unicodeEscape (0xD800 + (c.val - 0x10000) / 1024) ++
        unicodeEscape (0xDC00 + (c.val - 0x10000) % 1024)

/-- A text between quotation marks. -/
def jsonString (s : PyStr) : PyStr :=
  .ofChar '"' :: (s.flatMap CodePoint.escape ++ [.ofChar '"'])

def JsonValue.text : JsonValue → PyStr
  | .str s => jsonString s
  | .int i => reprInt i

def memberText (m : PyStr × JsonValue) : PyStr := jsonString m.1 ++ (str ": " ++ m.2.text)

def membersText : JsonObject → PyStr
  | [] => []
  | [m] => memberText m
  | m :: ms => memberText m ++ (str ", " ++ membersText ms)

/-- `json.dumps(members)`. -/
def dumps (members : JsonObject) : PyStr := str "\x7b" ++ (membersText members ++ str "\x7d")

/-! ## Reading -/

/-- `BACKSLASH`. -/
def unescape (letter : CodePoint) : Option CodePoint :=
  if letter = .ofChar '/' then some letter
  else (escapes.find? (·.2 = letter)).map (·.1)

def hexValue (c : CodePoint) : Option Nat :=
  if c.isDigit = true then some (c.val - 48)
  else if 97 ≤ c.val ∧ c.val ≤ 102 then some (c.val - 87)
  else if 65 ≤ c.val ∧ c.val ≤ 70 then some (c.val - 55)
  else none

/-- Four hexadecimal digits. -/
def hexUnit (a b c d : CodePoint) : Option Nat := do
  let (a, b, c, d) := (← hexValue a, ← hexValue b, ← hexValue c, ← hexValue d)
  return ((a * 16 + b) * 16 + c) * 16 + d

/-- The rest of a string and what follows it, after its quotation mark. -/
def scanString : PyStr → Option (PyStr × PyStr)
  | [] => none
  | c :: rest =>
    if c = .ofChar '"' then some ([], rest)
    else if c = .ofChar '\\' then
      match rest with
      | [] => none
      | letter :: rest =>
        if letter = .ofChar 'u' then
          match rest with
          | a :: b :: c :: d :: rest =>
            match hexUnit a b c d with
            | none => none
            | some unit =>
              let alone := (scanString rest).map fun r => (Fin.ofNat _ unit :: r.1, r.2)
              -- a pair of surrogates is one code point
              match rest with
              | x :: y :: a :: b :: c :: d :: after =>
                if 0xD800 ≤ unit ∧ unit < 0xDC00 ∧ x = .ofChar '\\' ∧ y = .ofChar 'u' then
                  match hexUnit a b c d with
                  | none => none
                  | some low =>
                    if 0xDC00 ≤ low ∧ low < 0xE000 then
                      (scanString after).map fun r =>
                        (Fin.ofNat _ (0x10000 + (unit - 0xD800) * 1024 + (low - 0xDC00)) :: r.1, r.2)
                    else alone
                else alone
              | _ => alone
          | _ => none
        else
          match unescape letter with
          | none => none
          | some c => (scanString rest).map fun r => (c :: r.1, r.2)
    else if c.val < 32 then none
    else (scanString rest).map fun r => (c :: r.1, r.2)

def skipBlanks (s : PyStr) : PyStr :=
  s.dropWhile fun c => c.val = 32 || c.val = 9 || c.val = 10 || c.val = 13

/-- Digits, with no zero before others. -/
def scanDigits (s : PyStr) : Option (Nat × PyStr) :=
  let digits := s.takeWhile CodePoint.isDigit
  let digits := if digits.head? = some (.ofChar '0') then digits.take 1 else digits
  if digits = [] then none
  else some (digits.foldl (fun n c => 10 * n + (c.val - 48)) 0, s.drop digits.length)

/-- A text or an integer; numbers with a fraction or an exponent are not read. -/
def scanValue : PyStr → Option (JsonValue × PyStr)
  | [] => none
  | c :: rest =>
    if c = .ofChar '"' then (scanString rest).map fun r => (.str r.1, r.2)
    else
      let scanned :=
        if c = .ofChar '-' then (scanDigits rest).map fun r => (-(r.1 : Int), r.2)
        else (scanDigits (c :: rest)).map fun r => ((r.1 : Int), r.2)
      match scanned with
      | none => none
      | some (i, rest) =>
        if rest.head? = some (.ofChar '.') ∨ rest.head? = some (.ofChar 'e') ∨
            rest.head? = some (.ofChar 'E') then none
        else some (.int i, rest)

def expect (c : CodePoint) : PyStr → Option PyStr
  | d :: rest => if d = c then some rest else none
  | [] => none

/-- The members of an object and what follows its brace; each takes some of the text. -/
def scanMembers : Nat → PyStr → Option (JsonObject × PyStr)
  | 0, _ => none
  | limit + 1, s => do
    let (key, s) ← scanString (← expect (.ofChar '"') s)
    let (value, s) ← scanValue (skipBlanks (← expect (.ofChar ':') (skipBlanks s)))
    match skipBlanks s with
    | c :: s =>
      if c = .ofChar '}' then some ([(key, value)], s)
      else if c = .ofChar ',' then do
        let (members, s) ← scanMembers limit (skipBlanks s)
        some ((key, value) :: members, s)
      else none
    | [] => none

/-- `json.loads(s)`, where it is an object. -/
def loads (s : PyStr) : Option JsonObject := do
  let inside := skipBlanks (← expect (.ofChar '{') (skipBlanks s))
  let (members, rest) ←
    match expect (.ofChar '}') inside with
    | some rest => some ([], rest)
    | none => scanMembers inside.length inside
  if skipBlanks rest = [] then some members else none

/-- `members[key]`; the last of equal keys counts. -/
def JsonObject.get (members : JsonObject) (key : PyStr) : Option JsonValue :=
  members.reverse.lookup key

/-! ## What is written is read back -/

theorem hexValue_hexDigit : ∀ d < 16, hexValue (hexDigit d) = some d := by decide

theorem digits_four (n : Nat) :
    FixedWidth.digits hexDigit 16 4 n =
      [hexDigit (n / 4096), hexDigit (n % 4096 / 256), hexDigit (n % 4096 % 256 / 16),
        hexDigit (n % 4096 % 256 % 16)] := by
  simp [FixedWidth.digits]

theorem hexUnit_digits {n : Nat} (hn : n < 65536) :
    hexUnit (hexDigit (n / 4096)) (hexDigit (n % 4096 / 256)) (hexDigit (n % 4096 % 256 / 16))
      (hexDigit (n % 4096 % 256 % 16)) = some n := by
  have h₁ := hexValue_hexDigit (n / 4096) (by omega)
  have h₂ := hexValue_hexDigit (n % 4096 / 256) (by omega)
  have h₃ := hexValue_hexDigit (n % 4096 % 256 / 16) (by omega)
  have h₄ := hexValue_hexDigit (n % 4096 % 256 % 16) (by omega)
  rw [hexUnit, h₁, h₂, h₃, h₄]
  refine congrArg some ?_
  omega

/-- A code point before the rest of a string. -/
def consScanned (c : CodePoint) (r : PyStr × PyStr) : PyStr × PyStr := (c :: r.1, r.2)

theorem scanString_plain {c : CodePoint} (hquote : c ≠ .ofChar '"') (hslash : c ≠ .ofChar '\\')
    (hcontrol : 32 ≤ c.val) (rest : PyStr) :
    scanString (c :: rest) = (scanString rest).map (consScanned c) := by
  rw [scanString.eq_def]
  simp only [hquote, hslash, Nat.not_lt.mpr hcontrol, if_false]
  rfl

theorem scanString_letter {c letter : CodePoint} (hletter : letter ≠ .ofChar 'u')
    (h : unescape letter = some c) (rest : PyStr) :
    scanString (.ofChar '\\' :: letter :: rest) = (scanString rest).map (consScanned c) := by
  rw [scanString.eq_def]
  simp only [(by decide : CodePoint.ofChar '\\' ≠ CodePoint.ofChar '"'), hletter, if_false, if_true, h]
  rfl

theorem scanString_unit {n : Nat} (hn : n < 65536) (halone : n < 0xD800 ∨ 0xDC00 ≤ n) (rest : PyStr) :
    scanString (unicodeEscape n ++ rest) =
      (scanString rest).map (consScanned (Fin.ofNat _ n)) := by
  rw [unicodeEscape, digits_four]
  simp only [List.cons_append, List.nil_append]
  rw [scanString, if_neg (by decide), if_pos rfl]
  simp only [if_true, hexUnit_digits hn]
  split
  · rw [if_neg (by omega)]
    rfl
  · rfl

theorem scanString_pair {high low : Nat} (hhigh : 0xD800 ≤ high ∧ high < 0xDC00)
    (hlow : 0xDC00 ≤ low ∧ low < 0xE000) (rest : PyStr) :
    scanString (unicodeEscape high ++ (unicodeEscape low ++ rest)) =
      (scanString rest).map
        (consScanned (Fin.ofNat _ (0x10000 + (high - 0xD800) * 1024 + (low - 0xDC00)))) := by
  have hunit := hexUnit_digits (n := high) (by omega)
  have hunit' := hexUnit_digits (n := low) (by omega)
  rw [unicodeEscape, digits_four, unicodeEscape, digits_four]
  simp only [List.cons_append, List.nil_append]
  rw [scanString, if_neg (by decide), if_pos rfl]
  simp only [if_true, hunit, hunit', hhigh, hlow, and_self]
  rfl

theorem mem_escapes_of_lookup {c letter : CodePoint} (h : escapes.lookup c = some letter) :
    (c, letter) ∈ escapes := by
  obtain ⟨before, after, heq, -⟩ := List.lookup_eq_some_iff.mp h
  rw [heq]
  exact List.mem_append_right _ (List.mem_cons_self ..)

/-- Every code point that is no surrogate is read back. -/
theorem scanString_escape {c : CodePoint} (hc : c.isSurrogate = false) (rest : PyStr) :
    scanString (c.escape ++ rest) = (scanString rest).map (consScanned c) := by
  unfold CodePoint.escape
  cases hletter : escapes.lookup c with
  | some letter =>
    have hall : escapes.all (fun p => p.2 ≠ .ofChar 'u' ∧ unescape p.2 = some p.1) = true := by decide
    have hread := of_decide_eq_true
      (List.all_eq_true.mp hall (c, letter) (mem_escapes_of_lookup hletter))
    exact scanString_letter hread.1 hread.2 rest
  | none =>
    have hescaped (p : CodePoint × CodePoint) (hp : p ∈ escapes) : c ≠ p.1 :=
      bne_iff_ne.mp (List.lookup_eq_none_iff.mp hletter p hp)
    have hquote := hescaped (.ofChar '"', .ofChar '"') (by decide)
    have hslash := hescaped (.ofChar '\\', .ofChar '\\') (by decide)
    dsimp only
    split
    · rename_i hplain
      exact scanString_plain hquote hslash hplain.1 rest
    · simp only [CodePoint.isSurrogate, Bool.and_eq_false_iff, decide_eq_false_iff_not] at hc
      split
      · rename_i hone
        rw [scanString_unit hone (by omega), Fin.ofNat_val_eq_self]
      · rw [List.append_assoc, scanString_pair (by omega) (by omega)]
        have hvalue : 0x10000 + (0xD800 + (c.val - 0x10000) / 1024 - 0xD800) * 1024 +
            (0xDC00 + (c.val - 0x10000) % 1024 - 0xDC00) = c.val := by omega
        rw [hvalue, Fin.ofNat_val_eq_self]

theorem scanString_jsonString {s : PyStr} (hs : s.NoSurrogates) (rest : PyStr) :
    scanString (s.flatMap CodePoint.escape ++ .ofChar '"' :: rest) = some (s, rest) := by
  induction s with
  | nil =>
    rw [scanString.eq_def]
    rfl
  | cons c s ih =>
    obtain ⟨hc, hrest⟩ := List.forall_mem_cons.mp hs
    rw [List.flatMap_cons, List.append_assoc, scanString_escape hc, ih hrest]
    rfl

/-- What ends a value in what `dumps` writes. -/
def EndsValue (rest : PyStr) : Prop := ∃ c after, rest = c :: after ∧ (c = .ofChar ',' ∨ c = .ofChar '}')

theorem head_decimalText {n : Nat} (hn : n ≠ 0) : (decimalText n).head? ≠ some (.ofChar '0') := by
  induction n using Nat.strong_induction_on with
  | _ n ih =>
    by_cases hlt : n < 10
    · have hall : ∀ n < 10, n ≠ 0 → (decimalText n).head? ≠ some (.ofChar '0') := by decide
      exact hall n hlt hn
    · have hsplit : decimalText n = decimalText (n / 10) ++ [.ofChar (n % 10).digitChar] := by
        rw [decimalText, Nat.toDigits_of_base_le (by decide) (Nat.le_of_not_lt hlt), List.map_append]
        rfl
      rw [hsplit, List.head?_append_of_ne_nil _ (decimalText_ne_nil _)]
      exact ih (n / 10) (by omega) (by omega)

theorem takeWhile_decimalText (n : Nat) {rest : PyStr} (hrest : EndsValue rest) :
    (decimalText n ++ rest).takeWhile CodePoint.isDigit = decimalText n := by
  obtain ⟨c, after, rfl, hc⟩ := hrest
  have hdigits : ∀ d ∈ decimalText n, d.isDigit = true := by
    intro d hd
    obtain ⟨hlow, hhigh⟩ := isDigit_of_mem_decimalText n hd
    simp only [CodePoint.isDigit, hlow, hhigh, decide_true, Bool.and_true]
  have hstop : c.isDigit = false := by
    rcases hc with rfl | rfl <;> decide
  rw [List.takeWhile_append_of_pos hdigits, List.takeWhile_cons, hstop]
  exact List.append_nil _

theorem scanDigits_decimalText (n : Nat) {rest : PyStr} (hrest : EndsValue rest) :
    scanDigits (decimalText n ++ rest) = some (n, rest) := by
  have hwhole : (if (decimalText n).head? = some (.ofChar '0') then (decimalText n).take 1
      else decimalText n) = decimalText n := by
    by_cases hn : n = 0
    · subst hn
      decide
    · rw [if_neg (head_decimalText hn)]
  simp only [scanDigits, takeWhile_decimalText n hrest, hwhole, decimalText_ne_nil, if_false,
    foldl_decimalText, List.drop_left]

/-- The members hold no surrogates. -/
def JsonValue.Clean : JsonValue → Prop
  | .str s => s.NoSurrogates
  | .int _ => True

def JsonObject.Clean (members : JsonObject) : Prop :=
  ∀ m ∈ members, m.1.NoSurrogates ∧ m.2.Clean

theorem scanValue_int (i : Int) {rest : PyStr} (hrest : EndsValue rest) :
    scanValue (reprInt i ++ rest) = some (.int i, rest) := by
  have hends : ¬ (rest.head? = some (.ofChar '.') ∨ rest.head? = some (.ofChar 'e') ∨
      rest.head? = some (.ofChar 'E')) := by
    obtain ⟨c, after, rfl, hc⟩ := hrest
    rcases hc with rfl | rfl <;> simp <;> decide
  by_cases hneg : i < 0
  · rw [reprInt, if_pos hneg, List.cons_append, scanValue, if_neg (by decide)]
    simp only [if_true, scanDigits_decimalText _ hrest, Option.map_some, hends, if_false]
    have habs : -(i.natAbs : Int) = i := by omega
    rw [habs]
  · rw [reprInt, if_neg hneg]
    have hscan := scanDigits_decimalText i.natAbs hrest
    have hfirst (c : CodePoint) (hc : c ∈ decimalText i.natAbs) : c ≠ .ofChar '"' ∧ c ≠ .ofChar '-' := by
      have hdigit := isDigit_of_mem_decimalText _ hc
      refine ⟨?_, ?_⟩ <;> rintro rfl <;> revert hdigit <;> decide
    cases htext : decimalText i.natAbs with
    | nil => exact absurd htext (decimalText_ne_nil _)
    | cons c digits =>
      obtain ⟨hquote, hminus⟩ := hfirst c (by rw [htext]; exact List.mem_cons_self ..)
      rw [htext, List.cons_append] at hscan
      rw [List.cons_append, scanValue, if_neg hquote]
      simp only [hminus, if_false, hscan, Option.map_some, hends]
      have habs : (i.natAbs : Int) = i := by omega
      rw [habs]

theorem scanValue_text {v : JsonValue} (hv : v.Clean) {rest : PyStr} (hrest : EndsValue rest) :
    scanValue (v.text ++ rest) = some (v, rest) := by
  cases v with
  | int i => exact scanValue_int i hrest
  | str s =>
    rw [JsonValue.text, jsonString, List.cons_append, scanValue, if_pos rfl, List.append_assoc]
    simp only [List.cons_append, List.nil_append, scanString_jsonString hv, Option.map_some]

theorem skipBlanks_cons {c : CodePoint} (h : c.isBlank = false) (rest : PyStr) :
    skipBlanks (c :: rest) = c :: rest := by
  rw [skipBlanks, List.dropWhile_cons, if_neg]
  simp only [CodePoint.isBlank, Bool.or_eq_false_iff, Bool.and_eq_false_iff,
    decide_eq_false_iff_not] at h
  simp only [Bool.or_eq_true, decide_eq_true_eq]
  omega

theorem skipBlanks_text (v : JsonValue) (rest : PyStr) :
    skipBlanks (v.text ++ rest) = v.text ++ rest := by
  cases v with
  | str s => exact skipBlanks_cons (by decide) _
  | int i =>
    rw [JsonValue.text]
    cases htext : reprInt i with
    | nil => exact absurd htext (reprInt_ne_nil i)
    | cons c digits =>
      have hblank := (mem_reprInt (i := i) (c := c) (by rw [htext]; exact List.mem_cons_self ..)).2
      exact skipBlanks_cons hblank _

/-- One member, and what follows its value. -/
theorem scanMembers_member {m : PyStr × JsonValue} (hkey : m.1.NoSurrogates) (hvalue : m.2.Clean)
    (limit : Nat) {c : CodePoint} {after : PyStr} (hc : c = .ofChar ',' ∨ c = .ofChar '}') :
    scanMembers (limit + 1) (memberText m ++ c :: after) =
      if c = .ofChar '}' then some ([m], after)
      else (scanMembers limit (skipBlanks after)).map fun r => (m :: r.1, r.2) := by
  have hblank : c.isBlank = false := by
    rcases hc with rfl | rfl <;> decide
  have hcolon : str ": " ++ m.2.text ++ c :: after =
      .ofChar ':' :: .ofChar ' ' :: (m.2.text ++ c :: after) := rfl
  have hends : EndsValue (c :: after) := ⟨c, after, rfl, hc⟩
  rw [memberText, jsonString, scanMembers, List.cons_append, List.cons_append, expect, if_pos rfl]
  simp only [List.append_assoc, List.cons_append, List.nil_append, Option.bind_eq_bind,
    Option.bind_some, scanString_jsonString hkey]
  rw [← List.append_assoc, hcolon, skipBlanks_cons (by decide), expect, if_pos rfl]
  simp only [Option.bind_some]
  have hskip : skipBlanks (.ofChar ' ' :: (m.2.text ++ c :: after)) = m.2.text ++ c :: after :=
    skipBlanks_text m.2 _
  rw [hskip, scanValue_text hvalue hends]
  simp only [Option.bind_some, skipBlanks_cons hblank]
  rcases hc with rfl | rfl
  · simp only [(by decide : CodePoint.ofChar ',' ≠ CodePoint.ofChar '}'), if_false, if_true]
    cases scanMembers limit (skipBlanks after) <;> rfl
  · simp only [if_true]

theorem skipBlanks_memberText (m : PyStr × JsonValue) (rest : PyStr) :
    skipBlanks (memberText m ++ rest) = memberText m ++ rest := skipBlanks_cons (by decide) _

theorem membersText_cons_cons (m m' : PyStr × JsonValue) (ms : JsonObject) :
    membersText (m :: m' :: ms) = memberText m ++ (str ", " ++ membersText (m' :: ms)) := rfl

theorem skipBlanks_membersText {ms : JsonObject} (hms : ms ≠ []) (rest : PyStr) :
    skipBlanks (membersText ms ++ rest) = membersText ms ++ rest := by
  match ms, hms with
  | [m], _ => exact skipBlanks_memberText m rest
  | m :: m' :: ms, _ =>
    rw [membersText_cons_cons, List.append_assoc]
    exact skipBlanks_memberText m _

theorem scanMembers_membersText {ms : JsonObject} (hms : ms ≠ []) (hclean : ms.Clean) {limit : Nat}
    (hlimit : ms.length ≤ limit) (rest : PyStr) :
    scanMembers limit (membersText ms ++ .ofChar '}' :: rest) = some (ms, rest) := by
  induction ms generalizing limit with
  | nil => exact absurd rfl hms
  | cons m ms ih =>
    obtain ⟨limit, rfl⟩ := Nat.exists_eq_succ_of_ne_zero (n := limit) (by
      rintro rfl
      exact absurd hlimit (by simp))
    obtain ⟨hm, hclean⟩ := List.forall_mem_cons.mp hclean
    cases ms with
    | nil => exact (scanMembers_member hm.1 hm.2 limit (.inr rfl)).trans (if_pos rfl)
    | cons m' ms =>
      have hrest := ih (List.cons_ne_nil _ _) hclean (Nat.le_of_succ_le_succ hlimit)
      have hcomma : str ", " ++ membersText (m' :: ms) ++ .ofChar '}' :: rest =
          .ofChar ',' :: .ofChar ' ' :: (membersText (m' :: ms) ++ .ofChar '}' :: rest) := rfl
      rw [membersText_cons_cons, List.append_assoc, hcomma, scanMembers_member hm.1 hm.2 limit (.inl rfl),
        if_neg (by decide)]
      have hskip : skipBlanks (.ofChar ' ' :: (membersText (m' :: ms) ++ .ofChar '}' :: rest)) =
          membersText (m' :: ms) ++ .ofChar '}' :: rest :=
        skipBlanks_membersText (List.cons_ne_nil _ _) _
      rw [hskip, hrest]
      rfl

theorem length_le_membersText (ms : JsonObject) : ms.length ≤ (membersText ms).length := by
  induction ms with
  | nil => exact Nat.le_refl 0
  | cons m ms ih =>
    cases ms with
    | nil => simp [membersText, memberText, jsonString]
    | cons m' ms =>
      rw [membersText_cons_cons, List.length_append, List.length_append, List.length_cons]
      have hcomma : (str ", ").length = 2 := rfl
      omega

/-- What `dumps` writes is read back. -/
theorem loads_dumps {members : JsonObject} (hclean : members.Clean) :
    loads (dumps members) = some members := by
  cases members with
  | nil => decide
  | cons m ms =>
    have hms : m :: ms ≠ [] := List.cons_ne_nil m ms
    have hbrace : dumps (m :: ms) = .ofChar '{' :: (membersText (m :: ms) ++ .ofChar '}' :: []) := rfl
    have hopen : expect (.ofChar '}') (membersText (m :: ms) ++ .ofChar '}' :: []) = none := by
      cases ms <;> rfl
    have hlength : (m :: ms).length ≤ (membersText (m :: ms) ++ [CodePoint.ofChar '}']).length := by
      rw [List.length_append]
      exact Nat.le_trans (length_le_membersText _) (Nat.le_add_right _ _)
    rw [hbrace, loads, skipBlanks_cons (by decide), expect, if_pos rfl]
    simp only [Option.bind_eq_bind, Option.bind_some, skipBlanks_membersText hms, hopen,
      scanMembers_membersText hms hclean hlength]
    rfl

/-! ## What is written is ASCII -/

theorem ascii_of_all {s : PyStr} (h : s.all (·.val < 128) = true) : ∀ d ∈ s, d.val < 128 :=
  fun d hd => of_decide_eq_true (List.all_eq_true.mp h d hd)

theorem noSurrogates_of_ascii {s : PyStr} (h : ∀ c ∈ s, c.val < 128) : s.NoSurrogates := by
  intro c hc
  have hlt := h c hc
  simp only [CodePoint.isSurrogate, Bool.and_eq_false_iff, decide_eq_false_iff_not]
  omega

theorem ascii_unicodeEscape {n : Nat} (hn : n < 65536) : ∀ d ∈ unicodeEscape n, d.val < 128 := by
  have hall : ∀ d < 16, (hexDigit d).val < 128 := by decide
  intro d hd
  rcases List.mem_cons.mp hd with rfl | hd
  · decide
  · rcases List.mem_cons.mp hd with rfl | hd
    · decide
    · obtain ⟨digit, hdigit, rfl⟩ := FixedWidth.mem_digits hexDigit 16 (by decide) hn d hd
      exact hall digit hdigit

theorem ascii_escape (c : CodePoint) : ∀ d ∈ c.escape, d.val < 128 := by
  intro d hd
  unfold CodePoint.escape at hd
  cases hletter : escapes.lookup c with
  | some letter =>
    have hall : escapes.all (fun p => p.2.val < 128) = true := by decide
    have hlt := of_decide_eq_true
      (List.all_eq_true.mp hall (c, letter) (mem_escapes_of_lookup hletter))
    simp only [hletter, List.mem_cons, List.not_mem_nil, or_false] at hd
    rcases hd with rfl | rfl
    · decide
    · exact hlt
  | none =>
    simp only [hletter] at hd
    split at hd
    · rename_i hplain
      rw [List.mem_singleton] at hd
      rw [hd]
      omega
    · split at hd
      · rename_i hone
        exact ascii_unicodeEscape hone d hd
      · have hc := c.isLt
        rcases List.mem_append.mp hd with hd | hd
        · exact ascii_unicodeEscape (by omega) d hd
        · exact ascii_unicodeEscape (by omega) d hd

theorem ascii_jsonString (s : PyStr) : ∀ d ∈ jsonString s, d.val < 128 := by
  intro d hd
  simp only [jsonString, List.mem_cons, List.mem_append, List.not_mem_nil, or_false,
    List.mem_flatMap] at hd
  rcases hd with rfl | ⟨c, -, hd⟩ | rfl
  · decide
  · exact ascii_escape c d hd
  · decide

theorem ascii_memberText (m : PyStr × JsonValue) : ∀ d ∈ memberText m, d.val < 128 := by
  have hcolon : ∀ d ∈ str ": ", d.val < 128 := ascii_of_all (by decide)
  intro d hd
  rcases List.mem_append.mp hd with hd | hd
  · exact ascii_jsonString m.1 d hd
  · rcases List.mem_append.mp hd with hd | hd
    · exact hcolon d hd
    · cases hvalue : m.2 with
      | str s =>
        rw [hvalue] at hd
        exact ascii_jsonString s d hd
      | int i =>
        rw [hvalue] at hd
        exact (mem_reprInt hd).1

theorem ascii_membersText (ms : JsonObject) : ∀ d ∈ membersText ms, d.val < 128 := by
  have hcomma : ∀ d ∈ str ", ", d.val < 128 := ascii_of_all (by decide)
  induction ms with
  | nil => exact fun d hd => absurd hd List.not_mem_nil
  | cons m ms ih =>
    cases ms with
    | nil => exact ascii_memberText m
    | cons m' ms =>
      intro d hd
      rcases List.mem_append.mp hd with hd | hd
      · exact ascii_memberText m d hd
      · rcases List.mem_append.mp hd with hd | hd
        · exact hcomma d hd
        · exact ih d hd

theorem ascii_dumps (members : JsonObject) : ∀ d ∈ dumps members, d.val < 128 := by
  intro d hd
  simp only [dumps, List.mem_append] at hd
  have hbraces : ∀ d ∈ str "\x7b" ++ str "\x7d", d.val < 128 := ascii_of_all (by decide)
  rcases hd with hd | hd | hd
  · exact hbraces d (List.mem_append_left _ hd)
  · exact ascii_membersText members d hd
  · exact hbraces d (List.mem_append_right _ hd)

end Kazoo
