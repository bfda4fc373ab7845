import Kazoo.Protocol.States

/-!
# Fixed-width fields

The `struct.Struct` objects of `kazoo/protocol/serialization.py`: big-endian two's complement, with
`struct.error` for a value that does not fit and for a buffer that is too short.
-/

namespace Kazoo

/-- The `width` low bytes of `n`, most significant first. -/
def bigEndian : Nat → Nat → Bytes
  | 0, _ => []
  | width + 1, n => bigEndian width (n / 256) ++ [.ofNat n]

/-- The value of a big-endian byte string. -/
def ofBigEndian (b : Bytes) : Nat := b.foldl (fun n x => n * 256 + x.toNat) 0

/-- The values a signed field of `width` bytes can hold. -/
def FitsWidth (width : Nat) (i : Int) : Prop := -(2 ^ (8 * width - 1) : Int) ≤ i ∧ i < 2 ^ (8 * width - 1)

instance (width : Nat) (i : Int) : Decidable (FitsWidth width i) := inferInstanceAs (Decidable (_ ∧ _))

/-- `pack` of a signed field. -/
def structPack (width : Nat) (i : Int) : Except Exn Bytes :=
  if FitsWidth width i then .ok (bigEndian width (i % 2 ^ (8 * width)).toNat) else .error .structError

/-- `unpack_from` of a signed field. -/
def structUnpackFrom (width : Nat) (buffer : Bytes) (offset : Nat) : Except Exn Int :=
  if offset + width ≤ buffer.length then
    let n := ofBigEndian ((buffer.drop offset).take width)
    .ok (if n < 2 ^ (8 * width - 1) then n else n - 2 ^ (8 * width))
  else .error .structError

/-- `int_struct.pack`, format `!i`. -/
def intPack (i : Int) : Except Exn Bytes := structPack 4 i

/-- `long_struct.pack`, format `!q`. -/
def longPack (i : Int) : Except Exn Bytes := structPack 8 i

def intUnpackFrom (buffer : Bytes) (offset : Nat) : Except Exn Int := structUnpackFrom 4 buffer offset
def longUnpackFrom (buffer : Bytes) (offset : Nat) : Except Exn Int := structUnpackFrom 8 buffer offset

/-- `bool_struct.unpack_from`, format `B`. -/
def byteUnpackFrom (buffer : Bytes) (offset : Nat) : Except Exn UInt8 :=
  match buffer[offset]? with
  | some b => .ok b
  | none => .error .structError

/-- `stat_struct.unpack_from`, format `!qqqqiiiqiiq`. -/
def statUnpackFrom (buffer : Bytes) (offset : Nat) : Except Exn ZnodeStat := do
  return {
    czxid := ← longUnpackFrom buffer offset
    mzxid := ← longUnpackFrom buffer (offset + 8)
    ctime := ← longUnpackFrom buffer (offset + 16)
    mtime := ← longUnpackFrom buffer (offset + 24)
    version := ← intUnpackFrom buffer (offset + 32)
    cversion := ← intUnpackFrom buffer (offset + 36)
    aversion := ← intUnpackFrom buffer (offset + 40)
    ephemeralOwner := ← longUnpackFrom buffer (offset + 44)
    dataLength := ← intUnpackFrom buffer (offset + 52)
    numChildren := ← intUnpackFrom buffer (offset + 56)
    pzxid := ← longUnpackFrom buffer (offset + 60) }

/-- `stat_struct.size`. -/
def statSize : Nat := 68

theorem bigEndian_length (width n : Nat) : (bigEndian width n).length = width := by
  induction width generalizing n with
  | zero => rfl
  | succ width ih => rw [bigEndian, List.length_append, ih, List.length_singleton]

theorem structPack_isOk_iff (width : Nat) (i : Int) :
    (structPack width i).isOk = true ↔ FitsWidth width i := by
  unfold structPack
  split
  · next h => simp only [Except.isOk, Except.toBool, h]
  · next h => simp only [Except.isOk, Except.toBool, h, Bool.false_eq_true]

theorem structPack_length {width : Nat} {i : Int} {b : Bytes} (h : structPack width i = .ok b) :
    b.length = width := by
  unfold structPack at h
  split at h
  · cases h
    exact bigEndian_length _ _
  · cases h

/-! ## Short buffers -/

variable {buffer : Bytes} {offset : Nat}

/-- What a field is read from is there. -/
theorem structUnpackFrom_le {width : Nat} {i : Int}
    (h : structUnpackFrom width buffer offset = .ok i) : offset + width ≤ buffer.length := by
  by_contra hshort
  rw [structUnpackFrom, if_neg hshort] at h
  cases h

theorem intUnpackFrom_le {i : Int} (h : intUnpackFrom buffer offset = .ok i) :
    offset + 4 ≤ buffer.length := structUnpackFrom_le h

theorem longUnpackFrom_le {i : Int} (h : longUnpackFrom buffer offset = .ok i) :
    offset + 8 ≤ buffer.length := structUnpackFrom_le h

theorem byteUnpackFrom_le {b : UInt8} (h : byteUnpackFrom buffer offset = .ok b) :
    offset + 1 ≤ buffer.length := by
  rw [byteUnpackFrom] at h
  cases hbyte : buffer[offset]? with
  | none =>
    rw [hbyte] at h
    cases h
  | some b => exact (List.getElem?_eq_some_iff.mp hbyte).1

/-- The last field of a stat is there, and so is all of it. -/
theorem statUnpackFrom_le {stat : ZnodeStat} (h : statUnpackFrom buffer offset = .ok stat) :
    offset + statSize ≤ buffer.length := by
  obtain ⟨_, -, h⟩ := bind_eq_ok h
  obtain ⟨_, -, h⟩ := bind_eq_ok h
  obtain ⟨_, -, h⟩ := bind_eq_ok h
  obtain ⟨_, -, h⟩ := bind_eq_ok h
  obtain ⟨_, -, h⟩ := bind_eq_ok h
  obtain ⟨_, -, h⟩ := bind_eq_ok h
  obtain ⟨_, -, h⟩ := bind_eq_ok h
  obtain ⟨_, -, h⟩ := bind_eq_ok h
  obtain ⟨_, -, h⟩ := bind_eq_ok h
  obtain ⟨_, -, h⟩ := bind_eq_ok h
  obtain ⟨_, hlast, -⟩ := bind_eq_ok h
  have hle := longUnpackFrom_le hlast
  rw [statSize]
  omega

end Kazoo
