import Kazoo.Lib.Located
import Kazoo.Protocol.Serialization

/-!
# Round trips

What the writers of `kazoo/protocol/serialization.py` write, its readers read back, wherever it
stands in a buffer and whatever follows it.
-/

namespace Kazoo

/-! ## Numbers -/

theorem ofBigEndian_append (b : Bytes) (x : UInt8) :
    ofBigEndian (b ++ [x]) = ofBigEndian b * 256 + x.toNat := by
  rw [ofBigEndian, List.foldl_append]
  rfl

theorem ofBigEndian_bigEndian (width n : Nat) :
    ofBigEndian (bigEndian width n) = n % 256 ^ width := by
  induction width generalizing n with
  | zero => rw [Nat.pow_zero, Nat.mod_one]; rfl
  | succ width ih =>
    have hpow : 256 ^ (width + 1) = 256 * 256 ^ width := Nat.pow_succ'
    rw [bigEndian, ofBigEndian_append, ih, UInt8.toNat_ofNat', hpow, Nat.mod_mul]
    omega

/-- Two's complement, half of the range being `m`. -/
theorem signed_emod {i : Int} {m : Nat} (hlo : -(m : Int) ≤ i) (hhi : i < m) :
    (i % (2 * m : Nat)).toNat < 2 * m ∧
      (if (i % (2 * m : Nat)).toNat < m then ((i % (2 * m : Nat)).toNat : Int)
        else (i % (2 * m : Nat)).toNat - (2 * m : Nat)) = i := by
  by_cases hi : 0 ≤ i
  · rw [Int.emod_eq_of_lt hi (by omega), if_pos (by omega)]
    omega
  · rw [Int.emod_eq_add_self_emod, Int.emod_eq_of_lt (by omega) (by omega), if_neg (by omega)]
    omega

variable {buffer b : Bytes} {offset : Nat}

theorem structUnpackFrom_located {width : Nat} {i : Int} (hwidth : 0 < width)
    (hb : structPack width i = .ok b) (h : Located buffer offset b) :
    structUnpackFrom width buffer offset = .ok i := by
  have hlength := structPack_length hb
  have hbound := h.length_le (List.length_pos_iff.mp (by omega))
  have htake := h.take
  rw [hlength] at hbound htake
  unfold structPack at hb
  split at hb
  · next hfits =>
    cases hb
    obtain ⟨hlo, hhi⟩ := hfits
    -- the modulus is twice the bound, and a power of 256
    have hmax : (2 : Int) ^ (8 * width - 1) = (2 ^ (8 * width - 1) : Nat) := by norm_cast
    have hbase : (2 : Int) ^ (8 * width) = (2 * 2 ^ (8 * width - 1) : Nat) := by
      rw [← Nat.pow_succ', Nat.succ_eq_add_one, Nat.sub_add_cancel (by omega)]
      norm_cast
    have hbytes : 256 ^ width = 2 * 2 ^ (8 * width - 1) := by
      rw [← Nat.pow_succ', Nat.succ_eq_add_one, Nat.sub_add_cancel (by omega), Nat.pow_mul]
    rw [hmax] at hlo hhi
    obtain ⟨hlt, hvalue⟩ := signed_emod hlo hhi
    rw [structUnpackFrom, if_pos hbound, htake, hbase, ofBigEndian_bigEndian, hbytes,
      Nat.mod_eq_of_lt hlt]
    exact congrArg Except.ok hvalue
  · cases hb

theorem intPack_length {i : Int} (hb : intPack i = .ok b) : b.length = 4 := structPack_length hb

theorem longPack_length {i : Int} (hb : longPack i = .ok b) : b.length = 8 := structPack_length hb

theorem intUnpackFrom_located {i : Int} (hb : intPack i = .ok b) (h : Located buffer offset b) :
    intUnpackFrom buffer offset = .ok i :=
  structUnpackFrom_located (by decide) hb h

theorem longUnpackFrom_located {i : Int} (hb : longPack i = .ok b) (h : Located buffer offset b) :
    longUnpackFrom buffer offset = .ok i :=
  structUnpackFrom_located (by decide) hb h

theorem byteUnpackFrom_located {x : UInt8} (h : Located buffer offset [x]) :
    byteUnpackFrom buffer offset = .ok x := by
  rw [byteUnpackFrom, h.getElem?]

/-! ## Texts -/

theorem toNat_ofNat {n : Nat} (h : n < 256) : (UInt8.ofNat n).toNat = n := by
  rw [UInt8.toNat_ofNat', Nat.mod_eq_of_lt h]

theorem continuation_ofNat {x : Nat} (h : x < 64) : continuation (.ofNat (0x80 + x)) = some x := by
  rw [continuation, toNat_ofNat (by omega), if_pos (by omega), Nat.add_sub_cancel_left]

theorem scalarValue_val {c : CodePoint} {least n : Nat} (hn : n = c.val) (hleast : least ≤ c.val)
    (hc : c.isSurrogate = false) : scalarValue least n = some c := by
  subst hn
  have hrange : ¬ (0xD800 ≤ c.val ∧ c.val < 0xE000) := by
    rintro ⟨hlo, hhi⟩
    rw [CodePoint.isSurrogate, decide_eq_true hlo, decide_eq_true hhi] at hc
    cases hc
  rw [scalarValue, if_pos ⟨hleast, hrange⟩, dif_pos c.isLt]

/-- A code point is read back, in each of the four lengths. -/
theorem CodePoint.decode_encode {c : CodePoint} (hb : c.encode = .ok b) (rest : Bytes) :
    Bytes.decode (b ++ rest) = (do return c :: (← Bytes.decode rest)) := by
  have hlimit := c.isLt
  have hc : c.isSurrogate = false := by
    rw [← c.encode_isOk_iff, hb]
    rfl
  unfold CodePoint.encode at hb
  dsimp only at hb
  split at hb
  · next h₁ =>
    cases hb
    have hvalue : (Fin.ofNat 0x110000 c.val : CodePoint) = c := Fin.ext (Nat.mod_eq_of_lt hlimit)
    rw [List.singleton_append, Bytes.decode.eq_def]
    dsimp only
    rw [toNat_ofNat (by omega), if_pos h₁, hvalue]
  split at hb
  · next h₁ h₂ =>
    cases hb
    rw [List.cons_append, List.singleton_append, Bytes.decode.eq_def]
    dsimp only
    rw [toNat_ofNat (by omega), if_neg (by omega), if_neg (by omega), continuation_ofNat (by omega)]
    dsimp only
    rw [if_pos (by omega), scalarValue_val (by omega) (by omega) hc]
  split at hb
  · cases hb
  split at hb
  · next h₁ h₂ _ h₃ =>
    cases hb
    rw [List.cons_append, List.cons_append, List.singleton_append, Bytes.decode.eq_def]
    dsimp only
    rw [toNat_ofNat (by omega), if_neg (by omega), if_neg (by omega), continuation_ofNat (by omega)]
    dsimp only
    rw [if_neg (by omega), continuation_ofNat (by omega)]
    dsimp only
    rw [if_pos (by omega), scalarValue_val (by omega) (by omega) hc]
  · next h₁ h₂ _ h₃ =>
    cases hb
    rw [List.cons_append, List.cons_append, List.cons_append, List.singleton_append,
      Bytes.decode.eq_def]
    dsimp only
    rw [toNat_ofNat (by omega), if_neg (by omega), if_neg (by omega), continuation_ofNat (by omega)]
    dsimp only
    rw [if_neg (by omega), continuation_ofNat (by omega)]
    dsimp only
    rw [if_neg (by omega), continuation_ofNat (by omega)]
    dsimp only
    rw [scalarValue_val (by omega) (by omega) hc]

theorem PyStr.decode_encode {s : PyStr} (hb : PyStr.encode s = .ok b) : Bytes.decode b = .ok s := by
  induction s generalizing b with
  | nil => cases hb; rfl
  | cons c s ih =>
    rw [PyStr.encode] at hb
    obtain ⟨p, hp, hb⟩ := bind_eq_ok hb
    obtain ⟨q, hq, hb⟩ := bind_eq_ok hb
    cases hb
    rw [CodePoint.decode_encode hp, ih hq]
    rfl

/-- A text behind its length, the empty one as well. -/
def wireText (s : PyStr) : Except Exn Bytes := do
  let utf8 ← PyStr.encode s
  return (← intPack utf8.length) ++ utf8

theorem readString_wireText (s : PyStr) : ReadsBack (wireText s) readString (some s) := by
  intro b buffer offset hb h
  obtain ⟨utf8, hutf8, hb⟩ := bind_eq_ok hb
  obtain ⟨p, hp, hb⟩ := bind_eq_ok hb
  cases hb
  obtain ⟨hstart, htext⟩ := Located.append_iff.mp h
  rw [intPack_length hp] at htext
  have htake : (buffer.drop (offset + 4)).take (utf8.length : Int).toNat = utf8 := htext.take
  have hlength : p.length = 4 := intPack_length hp
  rw [readString, intUnpackFrom_located hp hstart]
  dsimp only [bind, Except.bind]
  rw [if_neg (by omega), htake, PyStr.decode_encode hutf8, List.length_append, hlength,
    ← Nat.add_assoc]
  rfl

theorem readString_null : ReadsBack (intPack (-1)) readString none := by
  intro b buffer offset hb h
  rw [readString, intUnpackFrom_located hb h, intPack_length hb]
  rfl

theorem readBuffer_writeBuffer (data : Option Bytes) :
    ReadsBack (writeBuffer data) readBuffer data := by
  intro b buffer offset hb h
  cases data with
  | none =>
    rw [readBuffer, intUnpackFrom_located hb h, intPack_length hb]
    rfl
  | some bytes =>
    obtain ⟨p, hp, hb⟩ := bind_eq_ok hb
    cases hb
    obtain ⟨hstart, hbytes⟩ := Located.append_iff.mp h
    have hlength : p.length = 4 := intPack_length hp
    rw [hlength] at hbytes
    have htake : (buffer.drop (offset + 4)).take (bytes.length : Int).toNat = bytes := hbytes.take
    rw [readBuffer, intUnpackFrom_located hp hstart]
    dsimp only [bind, Except.bind]
    rw [if_neg (by omega), htake, List.length_append, hlength, ← Nat.add_assoc]
    rfl

/-! ## Lists -/

/-- One value after the other. -/
def writeMany {α : Type} (write : α → Except Exn Bytes) : List α → Except Exn Bytes
  | [] => .ok []
  | x :: xs => do return (← write x) ++ (← writeMany write xs)

theorem readMany_writeMany {α β : Type} {write : α → Except Exn Bytes}
    {read : Bytes → Nat → Except Exn (β × Nat)} {f : α → β}
    (hread : ∀ x, ReadsBack (write x) read (f x)) {xs : List α} (hb : writeMany write xs = .ok b)
    (h : Located buffer offset b) :
    readMany read buffer xs.length offset = .ok (xs.map f, offset + b.length) := by
  induction xs generalizing b offset with
  | nil => cases hb; rfl
  | cons x xs ih =>
    obtain ⟨p, hp, hb⟩ := bind_eq_ok hb
    obtain ⟨q, hq, hb⟩ := bind_eq_ok hb
    cases hb
    obtain ⟨hhead, htail⟩ := Located.append_iff.mp h
    rw [List.length_cons, readMany, hread x p buffer offset hp hhead]
    dsimp only [bind, Except.bind]
    rw [ih hq htail, List.length_append, ← Nat.add_assoc]
    rfl

/-! ## Stats -/

/-- `stat_struct.pack`, format `!qqqqiiiqiiq`. -/
def wireStat (stat : ZnodeStat) : Except Exn Bytes := do
  let czxid ← longPack stat.czxid
  let mzxid ← longPack stat.mzxid
  let ctime ← longPack stat.ctime
  let mtime ← longPack stat.mtime
  let version ← intPack stat.version
  let cversion ← intPack stat.cversion
  let aversion ← intPack stat.aversion
  let ephemeralOwner ← longPack stat.ephemeralOwner
  let dataLength ← intPack stat.dataLength
  let numChildren ← intPack stat.numChildren
  let pzxid ← longPack stat.pzxid
  return czxid ++ mzxid ++ ctime ++ mtime ++ version ++ cversion ++ aversion ++ ephemeralOwner ++
    dataLength ++ numChildren ++ pzxid

theorem statUnpackFrom_wireStat {stat : ZnodeStat} (hb : wireStat stat = .ok b)
    (h : Located buffer offset b) :
    statUnpackFrom buffer offset = .ok stat ∧ b.length = statSize := by
  obtain ⟨b₁, h₁, hb⟩ := bind_eq_ok hb
  obtain ⟨b₂, h₂, hb⟩ := bind_eq_ok hb
  obtain ⟨b₃, h₃, hb⟩ := bind_eq_ok hb
  obtain ⟨b₄, h₄, hb⟩ := bind_eq_ok hb
  obtain ⟨b₅, h₅, hb⟩ := bind_eq_ok hb
  obtain ⟨b₆, h₆, hb⟩ := bind_eq_ok hb
  obtain ⟨b₇, h₇, hb⟩ := bind_eq_ok hb
  obtain ⟨b₈, h₈, hb⟩ := bind_eq_ok hb
  obtain ⟨b₉, h₉, hb⟩ := bind_eq_ok hb
  obtain ⟨b₁₀, h₁₀, hb⟩ := bind_eq_ok hb
  obtain ⟨b₁₁, h₁₁, hb⟩ := bind_eq_ok hb
  cases hb
  simp only [Located.append_iff, List.length_append, longPack_length h₁, longPack_length h₂,
    longPack_length h₃, longPack_length h₄, intPack_length h₅, intPack_length h₆, intPack_length h₇,
    longPack_length h₈, intPack_length h₉, intPack_length h₁₀, longPack_length h₁₁] at h ⊢
  obtain ⟨⟨⟨⟨⟨⟨⟨⟨⟨⟨l₁, l₂⟩, l₃⟩, l₄⟩, l₅⟩, l₆⟩, l₇⟩, l₈⟩, l₉⟩, l₁₀⟩, l₁₁⟩ := h
  refine ⟨?_, rfl⟩
  rw [statUnpackFrom, longUnpackFrom_located h₁ l₁, longUnpackFrom_located h₂ l₂,
    longUnpackFrom_located h₃ l₃, longUnpackFrom_located h₄ l₄, intUnpackFrom_located h₅ l₅,
    intUnpackFrom_located h₆ l₆, intUnpackFrom_located h₇ l₇, longUnpackFrom_located h₈ l₈,
    intUnpackFrom_located h₉ l₉, intUnpackFrom_located h₁₀ l₁₀, longUnpackFrom_located h₁₁ l₁₁]
  rfl

/-! ## Headers -/

theorem MultiHeader.deserialize_serialize {type err : Int} {done : Bool}
    (hb : multiHeaderSerialize type done err = .ok b) (h : Located buffer offset b) :
    MultiHeader.deserialize buffer offset = .ok (⟨some type, done, some err⟩, offset + 9) ∧
      b.length = 9 := by
  obtain ⟨b₁, h₁, hb⟩ := bind_eq_ok hb
  obtain ⟨b₂, h₂, hb⟩ := bind_eq_ok hb
  cases hb
  simp only [Located.append_iff, List.length_append, intPack_length h₁, intPack_length h₂,
    List.length_singleton] at h ⊢
  obtain ⟨⟨l₁, l₂⟩, l₃⟩ := h
  refine ⟨?_, trivial⟩
  rw [deserialize, intUnpackFrom_located h₁ l₁, byteUnpackFrom_located l₂,
    intUnpackFrom_located h₂ l₃]
  cases done <;> rfl

theorem multiHeader_length {type err : Int} {done : Bool}
    (hb : multiHeaderSerialize type done err = .ok b) : b.length = 9 :=
  (MultiHeader.deserialize_serialize hb (.start b)).2

end Kazoo
