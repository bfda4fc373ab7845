import Kazoo.Replies
import Kazoo.Transactions

/-!
# Truncation — what the readers make of a buffer that ends too early

A field of a fixed width that is not there is a `struct.error`; a text or a byte string that is not
there is sliced.  So a reader notices that its buffer is too short if something of a fixed width
follows, and otherwise yields what there is.
-/

namespace Kazoo

/-! ## Where a reader ends -/

/-- The loop of `Transaction.deserialize`, with the offset behind the last header it reads. -/
def operationsExtent (bytes : Bytes) :
    Nat → MultiHeader → Option OperationResult → Nat → Except Exn Nat
  | 0, _, _, _ => .error .structError
  | fuel + 1, header, response, offset => do
    if header.done then return offset
    else
      let (response, offset) ← operationDeserialize header response bytes offset
      let (header, offset) ← MultiHeader.deserialize bytes offset
      operationsExtent bytes fuel header response offset

/-- The end of the last field that `request.deserialize` reads; the reply to `Delete` has none. -/
def Request.extent (request : Request) (buffer : Bytes) (offset : Nat) : Except Exn Nat :=
  match request with
  | .create _ | .sync _ => do return (← readString buffer offset).2
  | .create2 _ => do return (← readString buffer offset).2 + statSize
  | .delete _ => .ok 0
  | .exists _ _ | .setData _ | .setACL _ _ _ => .ok (offset + statSize)
  | .getData _ _ | .reconfig _ _ _ _ => do return (← readBuffer buffer offset).2 + statSize
  | .getACL _ => do
    let count ← intUnpackFrom buffer offset
    if count = -1 then return offset + 4
    return (← readMany readAcl buffer count.toNat (offset + 4)).2 + statSize
  | .getChildren _ _ => do
    let count ← intUnpackFrom buffer offset
    if count = -1 then return offset + 4
    return (← readMany readString buffer count.toNat (offset + 4)).2
  | .getChildren2 _ _ => do
    let count ← intUnpackFrom buffer offset
    if count = -1 then return offset + 4
    return (← readMany readString buffer count.toNat (offset + 4)).2 + statSize
  | .transaction _ =>
    operationsExtent buffer (buffer.length + 2) ⟨none, false, none⟩ none offset
  | .close | .checkVersion _ | .auth _ _ _ => .error .attributeError

/-- The reply does not end in a text. -/
def Request.EndsFixed : Request → Prop
  | .create _ | .sync _ | .getChildren _ _ => False
  | _ => True

/-- The functions that read from a buffer; `SASL.deserialize` is `read_buffer`. -/
inductive Reader
  | string
  | buffer
  | acl
  | watch
  | connect
  | reply (request : Request)

namespace Reader

/-- The reader returns, and `stop` is the offset that it returns, or the end of its last field. -/
def ReturnsAt (r : Reader) (buffer : Bytes) (offset stop : Nat) : Prop :=
  match r with
  | .string => ∃ s, readString buffer offset = .ok (s, stop)
  | .buffer => ∃ data, readBuffer buffer offset = .ok (data, stop)
  | .acl => ∃ acl, readAcl buffer offset = .ok (acl, stop)
  | .watch => ∃ watch, Watch.deserialize buffer offset = .ok (watch, stop)
  | .connect => ∃ connect, Connect.deserialize buffer offset = .ok (connect, stop)
  | .reply request =>
    (∃ response, request.deserialize buffer offset = .ok response) ∧
      request.extent buffer offset = .ok stop

/-- Where the last length stands, if nothing of a fixed width has to follow what it announces. -/
def lastLength (r : Reader) (buffer : Bytes) (offset : Nat) : Option Nat :=
  match r with
  | .string | .buffer | .reply (.create _) | .reply (.sync _) => some offset
  | .acl => (readString buffer (offset + 4)).toOption.map Prod.snd
  | .watch => some (offset + 8)
  | .connect => some (offset + 16)
  | .reply (.getChildren _ _) =>
    match intUnpackFrom buffer offset with
    | .ok count =>
      if 0 < count then
        (readMany readString buffer (count.toNat - 1) (offset + 4)).toOption.map Prod.snd
      else none
    | .error _ => none
  | .reply _ => none

end Reader

/-- As much as the length at `start` announces is there. -/
def Covered (buffer : Bytes) (start : Nat) : Prop :=
  ∀ length, intUnpackFrom buffer start = .ok length → start + 4 + length.toNat ≤ buffer.length

section Extents

variable {buffer : Bytes} {offset stop start : Nat}

theorem covered_iff {length : Int} (h : intUnpackFrom buffer start = .ok length) :
    Covered buffer start ↔ start + 4 + length.toNat ≤ buffer.length := by
  constructor
  · exact fun hcovered => hcovered length h
  · intro hle other hother
    rwa [← Except.ok.inj (h.symm.trans hother)]

theorem readString_eq_ok {s : Option PyStr} (h : readString buffer offset = .ok (s, stop)) :
    ∃ length, intUnpackFrom buffer offset = .ok length ∧ stop = offset + 4 + length.toNat := by
  obtain ⟨length, hlength, h⟩ := bind_eq_ok h
  refine ⟨length, hlength, ?_⟩
  split at h
  · have hstop := (Prod.mk.inj (pure_inj h)).2
    omega
  · obtain ⟨_, -, h⟩ := bind_eq_ok h
    exact (Prod.mk.inj (pure_inj h)).2.symm

theorem readBuffer_eq_ok {data : Option Bytes} (h : readBuffer buffer offset = .ok (data, stop)) :
    ∃ length, intUnpackFrom buffer offset = .ok length ∧ stop = offset + 4 + length.toNat := by
  obtain ⟨length, hlength, h⟩ := bind_eq_ok h
  refine ⟨length, hlength, ?_⟩
  split at h
  · have hstop := (Prod.mk.inj (pure_inj h)).2
    omega
  · exact (Prod.mk.inj (pure_inj h)).2.symm

/-- The last of the values that are read one after the other. -/
theorem readMany_succ {α : Type} (read : Bytes → Nat → Except Exn (α × Nat)) (count offset : Nat) :
    readMany read buffer (count + 1) offset = (do
      let (xs, offset) ← readMany read buffer count offset
      let (x, offset) ← read buffer offset
      return (xs ++ [x], offset)) := by
  induction count generalizing offset with
  | zero =>
    dsimp only [readMany, bind, Except.bind, pure, Except.pure]
    cases read buffer offset <;> rfl
  | succ count ih =>
    have hfirst (m : Nat) : readMany read buffer (m + 1) offset = (do
        let (x, offset) ← read buffer offset
        let (xs, offset) ← readMany read buffer m offset
        return (x :: xs, offset)) := rfl
    rw [hfirst, hfirst]
    dsimp only [bind, Except.bind]
    cases read buffer offset with
    | error e => rfl
    | ok x =>
      dsimp only
      rw [ih]
      dsimp only [bind, Except.bind]
      cases readMany read buffer count x.2 with
      | error e => rfl
      | ok xs =>
        dsimp only [pure, Except.pure]
        cases read buffer xs.2 <;> rfl

/-- Behind a header there is nothing that is not in the buffer. -/
theorem operationsExtent_le {header : MultiHeader} {response : Option OperationResult} {fuel : Nat}
    (hheader : header.done = true → offset ≤ buffer.length)
    (h : operationsExtent buffer fuel header response offset = .ok stop) :
    stop ≤ buffer.length := by
  induction fuel generalizing header response offset with
  | zero => cases h
  | succ fuel ih =>
    rw [operationsExtent] at h
    split at h
    · next hdone => exact pure_inj h ▸ hheader hdone
    · obtain ⟨⟨response', offset'⟩, -, h⟩ := bind_eq_ok h
      obtain ⟨⟨header', offset''⟩, hnext, h⟩ := bind_eq_ok h
      obtain ⟨rfl, hle⟩ := MultiHeader.deserialize_le hnext
      exact ih (fun _ => hle) h

/-- A stat behind the other fields is the last of them. -/
theorem statUnpackFrom_bind_le {α : Type} {f : ZnodeStat → Except Exn α} {x : α}
    (h : (statUnpackFrom buffer stop >>= f) = .ok x) : stop + statSize ≤ buffer.length := by
  obtain ⟨stat, hstat, -⟩ := bind_eq_ok h
  exact statUnpackFrom_le hstat

/-- When nothing has to follow, the end is that of the last text or byte string. -/
theorem stop_le_iff_covered {length : Int} (hlength : intUnpackFrom buffer start = .ok length) :
    start + 4 + length.toNat ≤ buffer.length ↔ ∀ start' ∈ some start, Covered buffer start' := by
  rw [← covered_iff hlength]
  simp only [Option.mem_some_iff, forall_eq']

theorem stop_le_of_fixed (h : stop ≤ buffer.length) :
    stop ≤ buffer.length ↔ ∀ start' ∈ (none : Option Nat), Covered buffer start' :=
  iff_of_true h fun _ h => nomatch h

namespace Reader

theorem string_stop_le_iff {s : Option PyStr} (h : readString buffer offset = .ok (s, stop)) :
    stop ≤ buffer.length ↔ ∀ start ∈ some offset, Covered buffer start := by
  obtain ⟨length, hlength, rfl⟩ := readString_eq_ok h
  exact stop_le_iff_covered hlength

theorem buffer_stop_le_iff {data : Option Bytes} (h : readBuffer buffer offset = .ok (data, stop)) :
    stop ≤ buffer.length ↔ ∀ start ∈ some offset, Covered buffer start := by
  obtain ⟨length, hlength, rfl⟩ := readBuffer_eq_ok h
  exact stop_le_iff_covered hlength

theorem acl_stop_le_iff {acl : ReadACL} (h : readAcl buffer offset = .ok (acl, stop)) :
    stop ≤ buffer.length ↔
      ∀ start ∈ lastLength .acl buffer offset, Covered buffer start := by
  obtain ⟨perms, -, h⟩ := bind_eq_ok h
  obtain ⟨⟨scheme, next⟩, hscheme, h⟩ := bind_eq_ok h
  obtain ⟨⟨id, _⟩, hid, h⟩ := bind_eq_ok h
  obtain ⟨-, rfl⟩ := Prod.mk.inj (pure_inj h)
  rw [lastLength, hscheme]
  exact string_stop_le_iff hid

theorem watch_stop_le_iff {watch : Watch} (h : Watch.deserialize buffer offset = .ok (watch, stop)) :
    stop ≤ buffer.length ↔ ∀ start ∈ some (offset + 8), Covered buffer start := by
  obtain ⟨type, -, h⟩ := bind_eq_ok h
  obtain ⟨state, -, h⟩ := bind_eq_ok h
  obtain ⟨⟨path, _⟩, hpath, h⟩ := bind_eq_ok h
  obtain ⟨-, rfl⟩ := Prod.mk.inj (pure_inj h)
  exact string_stop_le_iff hpath

/-- The byte behind the password is read if it is there. -/
theorem connect_stop_le_iff {connect : Connect}
    (h : Connect.deserialize buffer offset = .ok (connect, stop)) :
    stop ≤ buffer.length ↔ ∀ start ∈ some (offset + 16), Covered buffer start := by
  obtain ⟨protoVersion, -, h⟩ := bind_eq_ok h
  obtain ⟨timeout, -, h⟩ := bind_eq_ok h
  obtain ⟨sessionId, -, h⟩ := bind_eq_ok h
  obtain ⟨⟨password, next⟩, hpassword, h⟩ := bind_eq_ok h
  rw [← buffer_stop_le_iff hpassword]
  dsimp only at h
  cases hbyte : byteUnpackFrom buffer next with
  | ok readOnly =>
    rw [hbyte] at h
    obtain ⟨-, rfl⟩ := Prod.mk.inj (pure_inj h)
    have hle := byteUnpackFrom_le hbyte
    exact iff_of_true hle (by omega)
  | error e =>
    rw [hbyte] at h
    obtain ⟨-, rfl⟩ := Prod.mk.inj (pure_inj h)
    rfl

theorem getChildren_stop_le_iff {path : PyStr} {watcher : Option Watcher}
    (h : (Request.getChildren path watcher).extent buffer offset = .ok stop) :
    stop ≤ buffer.length ↔
      ∀ start ∈ lastLength (.reply (.getChildren path watcher)) buffer offset,
        Covered buffer start := by
  obtain ⟨count, hcount, h⟩ := bind_eq_ok h
  have hle := intUnpackFrom_le hcount
  rw [lastLength, hcount]
  dsimp only
  split at h
  · next hnull =>
    obtain rfl := pure_inj h
    rw [if_neg (by omega)]
    exact stop_le_of_fixed hle
  · obtain ⟨⟨names, _⟩, hnames, h⟩ := bind_eq_ok h
    obtain rfl := pure_inj h
    by_cases hpos : 0 < count
    · rw [if_pos hpos]
      obtain ⟨m, hm⟩ : ∃ m, count.toNat = m + 1 := ⟨count.toNat - 1, by omega⟩
      rw [hm] at hnames ⊢
      rw [readMany_succ] at hnames
      obtain ⟨⟨front, next⟩, hfront, hnames⟩ := bind_eq_ok hnames
      obtain ⟨⟨last, _⟩, hlast, hnames⟩ := bind_eq_ok hnames
      obtain ⟨-, rfl⟩ := Prod.mk.inj (pure_inj hnames)
      rw [Nat.add_sub_cancel, hfront]
      exact string_stop_le_iff hlast
    · rw [if_neg hpos]
      obtain hzero : count.toNat = 0 := by omega
      rw [hzero] at hnames
      obtain ⟨-, rfl⟩ := Prod.mk.inj (pure_inj hnames)
      exact stop_le_of_fixed hle

/-- A stat stands behind one field. -/
theorem fieldStat_stop_le {α β : Type} {field : Except Exn (α × Nat)}
    {f : α × Nat → ZnodeStat → Except Exn β} {x : β}
    (h : (field >>= fun r => statUnpackFrom buffer r.2 >>= f r) = .ok x)
    (hstop : (field >>= fun r => pure (r.2 + statSize)) = .ok stop) : stop ≤ buffer.length := by
  obtain ⟨_, hfield, h⟩ := bind_eq_ok h
  obtain ⟨_, hfield', hstop⟩ := bind_eq_ok hstop
  obtain rfl := Except.ok.inj (hfield.symm.trans hfield')
  exact pure_inj hstop ▸ statUnpackFrom_bind_le h

/-- A stat stands behind a list, which is null or has its length before it. -/
theorem manyStat_stop_le {α β : Type} {many : Int → Except Exn (α × Nat)}
    {f : α × Nat → ZnodeStat → Except Exn β} {d x : β}
    (h : (intUnpackFrom buffer offset >>= fun count =>
      if count = -1 then pure d else many count >>= fun r => statUnpackFrom buffer r.2 >>= f r) =
      .ok x)
    (hstop : (intUnpackFrom buffer offset >>= fun count =>
      if count = -1 then pure (offset + 4) else many count >>= fun r => pure (r.2 + statSize)) =
      .ok stop) : stop ≤ buffer.length := by
  obtain ⟨count, hcount, h⟩ := bind_eq_ok h
  obtain ⟨_, hcount', hstop⟩ := bind_eq_ok hstop
  obtain rfl := Except.ok.inj (hcount.symm.trans hcount')
  split at h
  · next hnull =>
    rw [if_pos hnull] at hstop
    exact pure_inj hstop ▸ intUnpackFrom_le hcount
  · next hnull =>
    rw [if_neg hnull] at hstop
    exact fieldStat_stop_le h hstop

/-- A stat or a header is the last field, or there is none. -/
theorem reply_stop_le {request : Request} {response : Response} (hfixed : request.EndsFixed)
    (h : request.deserialize buffer offset = .ok response)
    (hstop : request.extent buffer offset = .ok stop) : stop ≤ buffer.length := by
  cases request with
  | close => cases h
  | create r => exact hfixed.elim
  | create2 r => exact fieldStat_stop_le h hstop
  | delete r => exact Except.ok.inj hstop ▸ Nat.zero_le _
  | «exists» path watcher => exact Except.ok.inj hstop ▸ statUnpackFrom_bind_le h
  | setData r => exact Except.ok.inj hstop ▸ statUnpackFrom_bind_le h
  | setACL path acls version => exact Except.ok.inj hstop ▸ statUnpackFrom_bind_le h
  | getData path watcher => exact fieldStat_stop_le h hstop
  | reconfig joining leaving newMembers configId => exact fieldStat_stop_le h hstop
  | getACL path => exact manyStat_stop_le h hstop
  | getChildren path watcher => exact hfixed.elim
  | getChildren2 path watcher => exact manyStat_stop_le h hstop
  | sync path => exact hfixed.elim
  | checkVersion r => cases h
  | transaction operations => exact operationsExtent_le (fun h => absurd h Bool.false_ne_true) hstop
  | auth authType scheme credential => cases h

/-- A reader that returns stays within its buffer exactly when the last length that it reads does,
and always if something of a fixed width has to follow. -/
theorem stop_le_iff {r : Reader} (h : r.ReturnsAt buffer offset stop) :
    stop ≤ buffer.length ↔ ∀ start ∈ r.lastLength buffer offset, Covered buffer start := by
  cases r with
  | string =>
    obtain ⟨s, h⟩ := h
    exact string_stop_le_iff h
  | buffer =>
    obtain ⟨data, h⟩ := h
    exact buffer_stop_le_iff h
  | acl =>
    obtain ⟨acl, h⟩ := h
    exact acl_stop_le_iff h
  | watch =>
    obtain ⟨watch, h⟩ := h
    exact watch_stop_le_iff h
  | connect =>
    obtain ⟨connect, h⟩ := h
    exact connect_stop_le_iff h
  | reply request =>
    obtain ⟨⟨response, h⟩, hstop⟩ := h
    cases request with
    | create r =>
      obtain ⟨⟨path, _⟩, hpath, hstop⟩ := bind_eq_ok hstop
      obtain rfl := pure_inj hstop
      exact string_stop_le_iff hpath
    | sync path =>
      obtain ⟨⟨path, _⟩, hpath, hstop⟩ := bind_eq_ok hstop
      obtain rfl := pure_inj hstop
      exact string_stop_le_iff hpath
    | getChildren path watcher => exact getChildren_stop_le_iff hstop
    | _ => exact stop_le_of_fixed (reply_stop_le (by trivial) h hstop)

end Reader

end Extents

/-! ## Cut texts -/

theorem not_error {α : Type} {a : α} : ¬ ∃ e : Exn, (.ok a : Except Exn α) = .error e := by
  rintro ⟨e, h⟩
  cases h

theorem not_ok {α : Type} {e : Exn} : ¬ ∃ a : α, (.error e : Except Exn α) = .ok a := by
  rintro ⟨a, h⟩
  cases h

/-- A character that is cut is no text. -/
theorem CodePoint.decode_take {c : CodePoint} {b : Bytes} (hb : c.encode = .ok b) {k : Nat}
    (hpos : 0 < k) (hk : k < b.length) : Bytes.decode (b.take k) = .error .unicodeDecodeError := by
  have hlimit := c.isLt
  unfold CodePoint.encode at hb
  dsimp only at hb
  split at hb
  · cases hb
    rw [List.length_singleton] at hk
    omega
  split at hb
  · next h₁ h₂ =>
    cases hb
    simp only [List.length_cons, List.length_nil] at hk
    obtain rfl : k = 1 := by omega
    rw [List.take_succ_cons, List.take_zero, Bytes.decode.eq_def]
    dsimp only
    rw [toNat_ofNat (by omega), if_neg (by omega), if_neg (by omega)]
  split at hb
  · cases hb
  split at hb
  · next h₁ h₂ _ h₃ =>
    cases hb
    simp only [List.length_cons, List.length_nil] at hk
    obtain rfl | rfl : k = 1 ∨ k = 2 := by omega
    all_goals
      simp only [List.take_succ_cons, List.take_zero]
      rw [Bytes.decode.eq_def]
      dsimp only
      rw [toNat_ofNat (by omega), if_neg (by omega), if_neg (by omega)]
    rw [continuation_ofNat (by omega)]
    dsimp only
    rw [if_neg (by omega)]
  · next h₁ h₂ _ h₃ =>
    cases hb
    simp only [List.length_cons, List.length_nil] at hk
    obtain rfl | rfl | rfl : k = 1 ∨ k = 2 ∨ k = 3 := by omega
    all_goals
      simp only [List.take_succ_cons, List.take_zero]
      rw [Bytes.decode.eq_def]
      dsimp only
      rw [toNat_ofNat (by omega), if_neg (by omega), if_neg (by omega)]
    · rw [continuation_ofNat (by omega)]
      dsimp only
      rw [if_neg (by omega)]
    · rw [continuation_ofNat (by omega)]
      dsimp only
      rw [if_neg (by omega), continuation_ofNat (by omega)]
      dsimp only
      rw [if_neg (by omega)]

/-- The `k` bytes that are left are all of some first characters of the text. -/
def BetweenCharacters (text : PyStr) (k : Nat) : Prop :=
  ∃ kept cut b, text = kept ++ cut ∧ PyStr.encode kept = .ok b ∧ b.length = k

theorem encode_cons_eq_ok {c : CodePoint} {s : PyStr} {b : Bytes}
    (h : PyStr.encode (c :: s) = .ok b) :
    ∃ first rest, c.encode = .ok first ∧ PyStr.encode s = .ok rest ∧ b = first ++ rest := by
  obtain ⟨first, hfirst, h⟩ := bind_eq_ok h
  obtain ⟨rest, hrest, h⟩ := bind_eq_ok h
  exact ⟨first, rest, hfirst, hrest, (pure_inj h).symm⟩

theorem CodePoint.encode_ne_nil {c : CodePoint} {b : Bytes} (h : c.encode = .ok b) :
    0 < b.length := by
  unfold CodePoint.encode at h
  dsimp only at h
  split at h
  · cases h
    exact Nat.one_pos
  split at h
  · cases h
    exact Nat.two_pos
  split at h
  · cases h
  split at h <;>
  · cases h
    exact Nat.succ_pos _

/-- What is left of a text is a text again when it is cut between two characters. -/
theorem decode_take_iff {text : PyStr} {b : Bytes} (hb : PyStr.encode text = .ok b) {k : Nat}
    (hk : k ≤ b.length) : (∃ s, Bytes.decode (b.take k) = .ok s) ↔ BetweenCharacters text k := by
  induction text generalizing b k with
  | nil =>
    obtain rfl := pure_inj hb
    obtain rfl : k = 0 := Nat.le_zero.mp hk
    exact iff_of_true ⟨[], rfl⟩ ⟨[], [], [], rfl, rfl, rfl⟩
  | cons c text ih =>
    obtain ⟨first, rest, hfirst, hrest, rfl⟩ := encode_cons_eq_ok hb
    have hpos := CodePoint.encode_ne_nil hfirst
    rw [List.length_append] at hk
    rcases Nat.eq_zero_or_pos k with rfl | hkpos
    · rw [List.take_zero]
      exact iff_of_true ⟨[], rfl⟩ ⟨[], c :: text, [], rfl, rfl, rfl⟩
    by_cases hinside : k < first.length
    · -- inside the first character
      rw [List.take_append_of_le_length hinside.le, CodePoint.decode_take hfirst hkpos hinside]
      refine iff_of_false not_ok ?_
      rintro ⟨kept, cut, kb, hsplit, hkept, rfl⟩
      cases kept with
      | nil =>
        obtain rfl := pure_inj hkept
        exact absurd hkpos (lt_irrefl 0)
      | cons c' kept =>
        obtain ⟨rfl, -⟩ := List.cons.inj hsplit
        obtain ⟨first', rest', hfirst', -, rfl⟩ := encode_cons_eq_ok hkept
        obtain rfl := Except.ok.inj (hfirst.symm.trans hfirst')
        rw [List.length_append] at hinside
        omega
    · -- behind it
      obtain ⟨j, rfl⟩ : ∃ j, k = first.length + j := ⟨k - first.length, by omega⟩
      rw [List.take_length_add_append, CodePoint.decode_encode hfirst]
      have hiff := ih hrest (k := j) (by omega)
      constructor
      · rintro ⟨s, h⟩
        obtain ⟨s', hs', -⟩ := bind_eq_ok h
        obtain ⟨kept, cut, kb, rfl, hkept, rfl⟩ := hiff.mp ⟨s', hs'⟩
        refine ⟨c :: kept, cut, first ++ kb, rfl, ?_, List.length_append⟩
        rw [PyStr.encode, hfirst, hkept]
        rfl
      · rintro ⟨kept, cut, kb, hsplit, hkept, hlength⟩
        cases kept with
        | nil =>
          obtain rfl := pure_inj hkept
          rw [List.length_nil] at hlength
          omega
        | cons c' kept =>
          obtain ⟨rfl, rfl⟩ := List.cons.inj hsplit
          obtain ⟨first', rest', hfirst', hrest', rfl⟩ := encode_cons_eq_ok hkept
          obtain rfl := Except.ok.inj (hfirst.symm.trans hfirst')
          rw [List.length_append] at hlength
          obtain ⟨s, hs⟩ := hiff.mpr ⟨kept, cut, rest', rfl, hrest', by omega⟩
          exact ⟨c :: s, by rw [hs]; rfl⟩

/-- The bytes `b` end in the text, and their first `k` end between two of its characters. -/
def CutBetween (text : PyStr) (b : Bytes) (k : Nat) : Prop :=
  ∃ utf8 m, PyStr.encode text = .ok utf8 ∧ BetweenCharacters text m ∧ k + utf8.length = b.length + m

section Cut

variable {text : PyStr} {b front : Bytes} {k offset : Nat}

theorem cutBetween_iff {start last : Bytes} (hlast : wireText text = .ok last) :
    CutBetween text (start ++ last) k ↔
      ∃ m, k = start.length + (4 + m) ∧ BetweenCharacters text m := by
  obtain ⟨utf8, hutf8, hwire⟩ := bind_eq_ok hlast
  obtain ⟨p, hp, hwire⟩ := bind_eq_ok hwire
  obtain rfl := pure_inj hwire
  have hlength : (start ++ (p ++ utf8)).length = start.length + 4 + utf8.length := by
    rw [List.length_append, List.length_append, intPack_length hp, Nat.add_assoc]
  rw [CutBetween, hlength]
  constructor
  · rintro ⟨utf8', m, hutf8', hm, heq⟩
    obtain rfl := Except.ok.inj (hutf8.symm.trans hutf8')
    exact ⟨m, by omega, hm⟩
  · rintro ⟨m, rfl, hm⟩
    exact ⟨utf8, m, hutf8, hm, by omega⟩

theorem intUnpackFrom_short {buffer : Bytes} (h : buffer.length < offset + 4) :
    intUnpackFrom buffer offset = .error .structError := if_neg (by omega)

theorem intUnpackFrom_of_le {buffer : Bytes} (h : offset + 4 ≤ buffer.length) :
    ∃ i, intUnpackFrom buffer offset = .ok i := ⟨_, if_pos h⟩

theorem longUnpackFrom_of_le {buffer : Bytes} (h : offset + 8 ≤ buffer.length) :
    ∃ i, longUnpackFrom buffer offset = .ok i := ⟨_, if_pos h⟩

/-- Of a byte string, the length is all that has to be there. -/
theorem readBuffer_of_le {buffer : Bytes} (h : offset + 4 ≤ buffer.length) :
    ∃ x, readBuffer buffer offset = .ok x := by
  obtain ⟨length, hlength⟩ := intUnpackFrom_of_le h
  rw [readBuffer, hlength]
  dsimp only [bind, Except.bind]
  split
  · exact ⟨_, rfl⟩
  · exact ⟨_, rfl⟩

/-- A text behind its length, in a buffer that ends within it. -/
theorem readString_cut (hb : wireText text = .ok b) (hk : k < b.length) :
    (∃ e, readString (front ++ b.take k) front.length = .error e) ↔
      ¬ ∃ m, k = 4 + m ∧ BetweenCharacters text m := by
  obtain ⟨utf8, hutf8, hb⟩ := bind_eq_ok hb
  obtain ⟨p, hp, hb⟩ := bind_eq_ok hb
  obtain rfl := pure_inj hb
  have hlength : p.length = 4 := intPack_length hp
  rw [List.length_append, hlength] at hk
  by_cases hshort : k < 4
  · -- within the length
    have herror : readString (front ++ (p ++ utf8).take k) front.length = .error .structError := by
      rw [readString, intUnpackFrom_short]
      · rfl
      · rw [List.length_append, List.length_take]
        omega
    refine iff_of_true ⟨_, herror⟩ ?_
    rintro ⟨m, hm, -⟩
    omega
  obtain ⟨m, rfl⟩ : ∃ m, k = 4 + m := ⟨k - 4, by omega⟩
  have htake : (p ++ utf8).take (4 + m) = p ++ utf8.take m := by
    rw [← hlength, List.take_length_add_append]
  have hstart : Located (front ++ (p ++ utf8.take m)) front.length p := by
    rw [← List.append_assoc]
    exact .here _ _ _
  have hrest : ((front ++ (p ++ utf8.take m)).drop (front.length + 4)).take
      (utf8.length : Int).toNat = utf8.take m := by
    rw [← hlength, ← List.length_append, ← List.append_assoc, List.drop_left, Int.toNat_natCast,
      List.take_take, Nat.min_eq_right (by omega)]
  have hread : readString (front ++ (p ++ utf8).take (4 + m)) front.length = (do
      let s ← Bytes.decode (utf8.take m)
      return (some s, front.length + 4 + utf8.length)) := by
    rw [htake, readString, intUnpackFrom_located hp hstart]
    dsimp only [bind, Except.bind]
    rw [if_neg (by omega), hrest]
    rfl
  have hiff : (∃ m', 4 + m = 4 + m' ∧ BetweenCharacters text m') ↔ BetweenCharacters text m := by
    simp only [Nat.add_left_cancel_iff, exists_eq_left']
  rw [hread, hiff, ← decode_take_iff hutf8 (by omega)]
  cases Bytes.decode (utf8.take m) with
  | error e => exact iff_of_true ⟨e, rfl⟩ not_ok
  | ok s => exact iff_of_false not_error (not_not.mpr ⟨s, rfl⟩)

end Cut

/-! ## Cut replies -/

section Alike

variable {pre full : Bytes} {offset : Nat}

theorem structUnpackFrom_extend {width : Nat} {i : Int} (hpre : pre <+: full)
    (h : structUnpackFrom width pre offset = .ok i) :
    structUnpackFrom width full offset = .ok i := by
  have hle := structUnpackFrom_le h
  obtain ⟨rest, rfl⟩ := hpre
  have hsame : ((pre ++ rest).drop offset).take width = (pre.drop offset).take width := by
    rw [List.drop_append_of_le_length (by omega),
      List.take_append_of_le_length (by rw [List.length_drop]; omega)]
  rw [structUnpackFrom, if_pos hle] at h
  rw [structUnpackFrom, if_pos (by rw [List.length_append]; omega), hsame]
  exact h

theorem byteUnpackFrom_extend {byte : UInt8} (hpre : pre <+: full)
    (h : byteUnpackFrom pre offset = .ok byte) : byteUnpackFrom full offset = .ok byte := by
  have hle := byteUnpackFrom_le h
  obtain ⟨rest, rfl⟩ := hpre
  rw [byteUnpackFrom] at h ⊢
  rwa [List.getElem?_append_left (by omega)]

theorem MultiHeader.deserialize_extend {header : MultiHeader} {stop : Nat} (hpre : pre <+: full)
    (h : MultiHeader.deserialize pre offset = .ok (header, stop)) :
    MultiHeader.deserialize full offset = .ok (header, stop) := by
  obtain ⟨type, htype, h⟩ := bind_eq_ok h
  obtain ⟨done, hdone, h⟩ := bind_eq_ok h
  obtain ⟨err, herr, h⟩ := bind_eq_ok h
  rw [deserialize, show intUnpackFrom full offset = _ from structUnpackFrom_extend hpre htype,
    byteUnpackFrom_extend hpre hdone,
    show intUnpackFrom full (offset + 5) = _ from structUnpackFrom_extend hpre herr]
  exact h

/-- Where a reader that returns ends does not depend on what is missing. -/
def StopsAlike {α : Type} (read : Bytes → Nat → Except Exn (α × Nat)) : Prop :=
  ∀ pre full offset x y stop stop', pre <+: full → read pre offset = .ok (x, stop) →
    read full offset = .ok (y, stop') → stop = stop'

theorem stopsAlike_readString : StopsAlike readString := by
  intro pre full offset x y stop stop' hpre hx hy
  obtain ⟨length, hlength, rfl⟩ := readString_eq_ok hx
  obtain ⟨length', hlength', rfl⟩ := readString_eq_ok hy
  rw [Except.ok.inj ((structUnpackFrom_extend hpre hlength).symm.trans hlength')]

theorem stopsAlike_readBuffer : StopsAlike readBuffer := by
  intro pre full offset x y stop stop' hpre hx hy
  obtain ⟨length, hlength, rfl⟩ := readBuffer_eq_ok hx
  obtain ⟨length', hlength', rfl⟩ := readBuffer_eq_ok hy
  rw [Except.ok.inj ((structUnpackFrom_extend hpre hlength).symm.trans hlength')]

theorem stopsAlike_readAcl : StopsAlike readAcl := by
  intro pre full offset x y stop stop' hpre hx hy
  obtain ⟨_, -, hx⟩ := bind_eq_ok hx
  obtain ⟨⟨_, next⟩, hscheme, hx⟩ := bind_eq_ok hx
  obtain ⟨⟨_, _⟩, hid, hx⟩ := bind_eq_ok hx
  obtain ⟨-, rfl⟩ := Prod.mk.inj (pure_inj hx)
  obtain ⟨_, -, hy⟩ := bind_eq_ok hy
  obtain ⟨⟨_, next'⟩, hscheme', hy⟩ := bind_eq_ok hy
  obtain ⟨⟨_, _⟩, hid', hy⟩ := bind_eq_ok hy
  obtain ⟨-, rfl⟩ := Prod.mk.inj (pure_inj hy)
  obtain rfl : next = next' := stopsAlike_readString _ _ _ _ _ _ _ hpre hscheme hscheme'
  exact stopsAlike_readString _ _ _ _ _ _ _ hpre hid hid'

theorem stopsAlike_readMany {α : Type} {read : Bytes → Nat → Except Exn (α × Nat)}
    (hread : StopsAlike read) (count : Nat) :
    StopsAlike fun buffer offset => readMany read buffer count offset := by
  intro pre full offset x y stop stop' hpre hx hy
  induction count generalizing offset x y with
  | zero =>
    obtain ⟨-, rfl⟩ := Prod.mk.inj (pure_inj hx)
    obtain ⟨-, rfl⟩ := Prod.mk.inj (pure_inj hy)
    rfl
  | succ count ih =>
    obtain ⟨⟨_, next⟩, hfirst, hx⟩ := bind_eq_ok hx
    obtain ⟨⟨_, _⟩, hrest, hx⟩ := bind_eq_ok hx
    obtain ⟨-, rfl⟩ := Prod.mk.inj (pure_inj hx)
    obtain ⟨⟨_, next'⟩, hfirst', hy⟩ := bind_eq_ok hy
    obtain ⟨⟨_, _⟩, hrest', hy⟩ := bind_eq_ok hy
    obtain ⟨-, rfl⟩ := Prod.mk.inj (pure_inj hy)
    obtain rfl : next = next' := hread _ _ _ _ _ _ _ hpre hfirst hfirst'
    exact ih _ _ _ hrest hrest'

/-- The body of an operation, whatever the response before it was. -/
theorem stopsAlike_operationDeserialize {header : MultiHeader}
    {response response' x y : Option OperationResult} {stop stop' : Nat} (hpre : pre <+: full)
    (hx : operationDeserialize header response pre offset = .ok (x, stop))
    (hy : operationDeserialize header response' full offset = .ok (y, stop')) : stop = stop' := by
  unfold operationDeserialize at hx hy
  split at hx
  · rw [if_pos ‹_›] at hy
    obtain ⟨⟨_, next⟩, hpath, hx⟩ := bind_eq_ok hx
    obtain ⟨⟨_, next'⟩, hpath', hy⟩ := bind_eq_ok hy
    obtain ⟨-, rfl⟩ := Prod.mk.inj (pure_inj hx)
    obtain ⟨-, rfl⟩ := Prod.mk.inj (pure_inj hy)
    exact stopsAlike_readString _ _ _ _ _ _ _ hpre hpath hpath'
  rw [if_neg ‹_›] at hy
  split at hx
  · rw [if_pos ‹_›] at hy
    exact (Prod.mk.inj (pure_inj hx)).2.symm.trans (Prod.mk.inj (pure_inj hy)).2
  rw [if_neg ‹_›] at hy
  split at hx
  · rw [if_pos ‹_›] at hy
    obtain ⟨_, -, hx⟩ := bind_eq_ok hx
    obtain ⟨_, -, hy⟩ := bind_eq_ok hy
    exact (Prod.mk.inj (pure_inj hx)).2.symm.trans (Prod.mk.inj (pure_inj hy)).2
  rw [if_neg ‹_›] at hy
  split at hx
  · rw [if_pos ‹_›] at hy
    exact (Prod.mk.inj (pure_inj hx)).2.symm.trans (Prod.mk.inj (pure_inj hy)).2
  rw [if_neg ‹_›] at hy
  split at hx
  · rw [if_pos ‹_›] at hy
    obtain ⟨_, -, hx⟩ := bind_eq_ok hx
    obtain ⟨_, -, hx⟩ := bind_eq_ok hx
    obtain ⟨_, -, hy⟩ := bind_eq_ok hy
    obtain ⟨_, -, hy⟩ := bind_eq_ok hy
    exact (Prod.mk.inj (pure_inj hx)).2.symm.trans (Prod.mk.inj (pure_inj hy)).2
  · rw [if_neg ‹_›] at hy
    exact (Prod.mk.inj (pure_inj hx)).2.symm.trans (Prod.mk.inj (pure_inj hy)).2

/-- What is written whole in the full buffer is read to its end in the other one, or not at all. -/
theorem StopsAlike.stop_eq {α : Type} {read : Bytes → Nat → Except Exn (α × Nat)}
    {out : Except Exn Bytes} {x y : α} {stop : Nat} (hstops : StopsAlike read)
    (hback : ReadsBack out read y) {b : Bytes} (hb : out = .ok b) (h : Located full offset b)
    (hpre : pre <+: full) (hread : read pre offset = .ok (x, stop)) : stop = offset + b.length :=
  hstops pre full offset x y stop _ hpre hread (hback b full offset hb h)

theorem count_eq {n : Nat} {count : Int} {b : Bytes} (hb : intPack n = .ok b)
    (h : Located full offset b) (hpre : pre <+: full)
    (hcount : intUnpackFrom pre offset = .ok count) : count = n :=
  Except.ok.inj ((structUnpackFrom_extend hpre hcount).symm.trans (intUnpackFrom_located hb h))

theorem readsBack_writeMany {α β : Type} {write : α → Except Exn Bytes}
    {read : Bytes → Nat → Except Exn (β × Nat)} {f : α → β}
    (hread : ∀ x, ReadsBack (write x) read (f x)) (xs : List α) :
    ReadsBack (writeMany write xs) (fun buffer offset => readMany read buffer xs.length offset)
      (xs.map f) :=
  fun _ _ _ hb h => readMany_writeMany hread hb h

end Alike

section Replies

variable {before b : Bytes} {k : Nat}

/-- Where a buffer that holds the beginning of `b` ends. -/
theorem length_append_take (hk : k < b.length) :
    (before ++ b.take k).length = before.length + k := by
  rw [List.length_append, List.length_take, Nat.min_eq_left hk.le]

theorem prefix_append_take : before ++ b.take k <+: before ++ b :=
  (List.prefix_append_right_inj before).mpr (List.take_prefix k b)

/-- Where a field ends that is read, the stat behind it has no room in a buffer that is cut. -/
theorem fieldStat_cut {α : Type} {read : Bytes → Nat → Except Exn (α × Nat)}
    {out : Except Exn Bytes} {x y : α} {stat : ZnodeStat} {next : Nat} (hstops : StopsAlike read)
    (hback : ReadsBack out read y) (hb : (do return (← out) ++ (← wireStat stat)) = .ok b)
    (hk : k < b.length) (hread : read (before ++ b.take k) before.length = .ok (x, next)) :
    (before ++ b.take k).length < next + statSize := by
  have hlocated : Located (before ++ b) before.length b := .behind before b
  obtain ⟨b₁, h₁, hb⟩ := bind_eq_ok hb
  obtain ⟨b₂, h₂, hb⟩ := bind_eq_ok hb
  obtain rfl := pure_inj hb
  obtain ⟨l₁, l₂⟩ := Located.append_iff.mp hlocated
  have hstat := (statUnpackFrom_wireStat h₂ l₂).2
  have hnext := hstops.stop_eq hback h₁ l₁ prefix_append_take hread
  rw [length_append_take hk]
  rw [List.length_append] at hk
  omega

/-- Neither has the one behind a list. -/
theorem manyStat_cut {α β γ : Type} {write : α → Except Exn Bytes}
    {read : Bytes → Nat → Except Exn (β × Nat)} {f : α → β} {xs : List α} {stat : ZnodeStat}
    {g : List β × Nat → ZnodeStat → Except Exn γ} {d x : γ} (hstops : StopsAlike read)
    (hback : ∀ x, ReadsBack (write x) read (f x))
    (hb : (do
      let count ← intPack xs.length
      let xs ← writeMany write xs
      return count ++ xs ++ (← wireStat stat)) = .ok b) (hk : k < b.length)
    (hread : (intUnpackFrom (before ++ b.take k) before.length >>= fun count =>
      if count = -1 then pure d else
        readMany read (before ++ b.take k) count.toNat (before.length + 4) >>= fun r =>
          statUnpackFrom (before ++ b.take k) r.2 >>= g r) = .ok x) : False := by
  have hpre : before ++ b.take k <+: before ++ b := prefix_append_take
  have hlength : (before ++ b.take k).length = before.length + k := length_append_take hk
  have hlocated : Located (before ++ b) before.length b := .behind before b
  obtain ⟨b₁, h₁, hb⟩ := bind_eq_ok hb
  obtain ⟨b₂, h₂, hb⟩ := bind_eq_ok hb
  obtain ⟨b₃, h₃, hb⟩ := bind_eq_ok hb
  obtain rfl := pure_inj hb
  simp only [Located.append_iff, List.length_append, intPack_length h₁, ← Nat.add_assoc]
    at hlocated
  obtain ⟨⟨l₁, l₂⟩, l₃⟩ := hlocated
  have hstat := (statUnpackFrom_wireStat h₃ l₃).2
  obtain ⟨count, hcount, hread⟩ := bind_eq_ok hread
  obtain rfl := count_eq h₁ l₁ hpre hcount
  rw [if_neg intPack_natCast_ne, Int.toNat_natCast] at hread
  obtain ⟨⟨_, next⟩, hmany, hread⟩ := bind_eq_ok hread
  have hle := statUnpackFrom_bind_le hread
  have hnext := (stopsAlike_readMany hstops _).stop_eq (readsBack_writeMany hback xs) h₂ l₂ hpre hmany
  simp only [List.length_append, intPack_length h₁] at hk
  omega

end Replies

theorem writeMany_concat {α : Type} {write : α → Except Exn Bytes} {xs : List α} {x : α} {b : Bytes}
    (h : writeMany write (xs ++ [x]) = .ok b) :
    ∃ front last, writeMany write xs = .ok front ∧ write x = .ok last ∧ b = front ++ last := by
  induction xs generalizing b with
  | nil =>
    obtain ⟨last, hlast, h⟩ := bind_eq_ok h
    obtain ⟨_, hnil, h⟩ := bind_eq_ok h
    obtain rfl := pure_inj hnil
    obtain rfl := pure_inj h
    exact ⟨[], last, rfl, hlast, List.append_nil last⟩
  | cons y xs ih =>
    obtain ⟨first, hfirst, h⟩ := bind_eq_ok h
    obtain ⟨rest, hrest, h⟩ := bind_eq_ok h
    obtain rfl := pure_inj h
    obtain ⟨front, last, hfront, hlast, rfl⟩ := ih hrest
    refine ⟨first ++ front, last, ?_, hlast, (List.append_assoc _ _ _).symm⟩
    rw [writeMany, hfirst, hfront]
    rfl

namespace Body

/-- The text at the end of the reply. -/
def lastText : Body → Option PyStr
  | .path p => some p
  | .children names => names.getLast?
  | _ => none

/-- The reply `b` is cut between two characters of the text at its end. -/
def CutsText (body : Body) (b : Bytes) (k : Nat) : Prop :=
  ∃ text ∈ body.lastText, CutBetween text b k

section

variable {body : Body} {request : Request} {before b : Bytes} {k : Nat}

/-- A reply that ends in a stat is not read when it is cut. -/
theorem deserialize_cut_fixed (hanswers : body.Answers request) (hb : body.wire = .ok b)
    (hk : k < b.length) (hfixed : body.lastText = none) :
    ∃ e, request.deserialize (before ++ b.take k) before.length = .error e := by
  cases hread : request.deserialize (before ++ b.take k) before.length with
  | error e => exact ⟨e, rfl⟩
  | ok response =>
    exfalso
    have hlength : (before ++ b.take k).length = before.length + k := length_append_take hk
    cases body with
    | path p => cases hfixed
    | stat st =>
      have hstat := (statUnpackFrom_wireStat hb (.behind before b)).2
      have hle : before.length + statSize ≤ (before ++ b.take k).length := by
        cases request <;> first | exact hanswers.elim | exact statUnpackFrom_bind_le hread
      omega
    | dataStat data st =>
      have hle : ∃ data next, readBuffer (before ++ b.take k) before.length = .ok (data, next) ∧
          next + statSize ≤ (before ++ b.take k).length := by
        cases request <;> first
          | exact hanswers.elim
          | (obtain ⟨⟨data, next⟩, hdata, hread⟩ := bind_eq_ok hread
             exact ⟨data, next, hdata, statUnpackFrom_bind_le hread⟩)
      obtain ⟨_, next, hdata, hle⟩ := hle
      exact hle.not_gt (fieldStat_cut stopsAlike_readBuffer (readBuffer_writeBuffer _) hb hk hdata)
    | aclStat acls st =>
      cases request <;> first | exact hanswers.elim | skip
      exact manyStat_cut stopsAlike_readAcl readAcl_wireAcl hb hk hread
    | children names =>
      cases request <;> first | exact hanswers.elim | skip
      obtain rfl : names = [] := List.getLast?_eq_none_iff.mp hfixed
      obtain ⟨b₁, h₁, hb⟩ := bind_eq_ok hb
      obtain ⟨b₂, h₂, hb⟩ := bind_eq_ok hb
      obtain rfl := pure_inj hb
      obtain rfl := pure_inj h₂
      obtain ⟨count, hcount, -⟩ := bind_eq_ok hread
      have hle := intUnpackFrom_le hcount
      simp only [List.append_nil, intPack_length h₁] at hk
      omega
    | childrenStat names st =>
      cases request <;> first | exact hanswers.elim | skip
      exact manyStat_cut stopsAlike_readString readString_wireText hb hk hread
    | pathStat p st =>
      cases request <;> first | exact hanswers.elim | skip
      obtain ⟨⟨_, next⟩, hpath, hread⟩ := bind_eq_ok hread
      have hle := statUnpackFrom_bind_le hread
      exact hle.not_gt (fieldStat_cut stopsAlike_readString (readString_wireText _) hb hk hpath)

/-- The reply to `Create` and to `Sync`. -/
theorem deserialize_cut_path {p : PyStr} (hanswers : (Body.path p).Answers request)
    (hb : (Body.path p).wire = .ok b) (hk : k < b.length) :
    (∃ e, request.deserialize (before ++ b.take k) before.length = .error e) ↔
      ¬ (Body.path p).CutsText b k := by
  have hcuts : (Body.path p).CutsText b k ↔ ∃ m, k = 4 + m ∧ BetweenCharacters p m := by
    have hbetween : CutBetween p ([] ++ b) k ↔ _ := cutBetween_iff hb
    simpa [CutsText, lastText] using hbetween
  have hcut : (∃ e, readString (before ++ b.take k) before.length = .error e) ↔ _ :=
    readString_cut hb hk
  rw [hcuts, ← hcut]
  have hread : request.deserialize (before ++ b.take k) before.length =
      (do return .str (← readString (before ++ b.take k) before.length).1) := by
    cases request <;> first | exact hanswers.elim | rfl
  rw [hread]
  cases readString (before ++ b.take k) before.length with
  | error e => exact iff_of_true ⟨e, rfl⟩ ⟨e, rfl⟩
  | ok x => exact iff_of_false not_error not_error

/-- The reply to `GetChildren`, with a child at least. -/
theorem deserialize_cut_children {names : List PyStr} {last : PyStr}
    (hanswers : (Body.children (names ++ [last])).Answers request)
    (hb : (Body.children (names ++ [last])).wire = .ok b) (hk : k < b.length) :
    (∃ e, request.deserialize (before ++ b.take k) before.length = .error e) ↔
      ¬ (Body.children (names ++ [last])).CutsText b k := by
  cases request <;> first | exact hanswers.elim | skip
  obtain ⟨c, hc, hb⟩ := bind_eq_ok hb
  obtain ⟨all, hall, hb⟩ := bind_eq_ok hb
  obtain rfl := pure_inj hb
  obtain ⟨others, text, hothers, htext, rfl⟩ := writeMany_concat hall
  have hlast : (Body.children (names ++ [last])).lastText = some last := List.getLast?_concat
  have hcuts : (Body.children (names ++ [last])).CutsText (c ++ others ++ text) k ↔
      ∃ m, k = (c ++ others).length + (4 + m) ∧ BetweenCharacters last m := by
    rw [CutsText, hlast, ← cutBetween_iff htext]
    simp only [Option.mem_some_iff, exists_eq_left']
  rw [← List.append_assoc] at hk ⊢
  rw [hcuts]
  have hlength : (c ++ others).length = 4 + others.length := by
    rw [List.length_append, intPack_length hc]
  have hcount : ((names ++ [last]).length : Int).toNat = names.length + 1 := by simp
  by_cases hbefore : k < (c ++ others).length
  · -- the last text is not there at all
    rw [iff_true_right (by rintro ⟨m, hm, -⟩; omega)]
    cases hread : (Request.getChildren _ _).deserialize (before ++ (c ++ others ++ text).take k)
        before.length with
    | error e => exact ⟨e, rfl⟩
    | ok response =>
      exfalso
      have hpre : before ++ (c ++ others ++ text).take k <+: before ++ (c ++ others ++ text) :=
        prefix_append_take
      have hlocated : Located (before ++ (c ++ others ++ text)) before.length
          (c ++ others ++ text) := .behind before _
      simp only [Located.append_iff, intPack_length hc] at hlocated
      obtain ⟨⟨l₁, l₂⟩, -⟩ := hlocated
      obtain ⟨count, hcounted, hread⟩ := bind_eq_ok hread
      obtain rfl := count_eq hc l₁ hpre hcounted
      rw [if_neg intPack_natCast_ne, hcount, readMany_succ] at hread
      obtain ⟨⟨_, _⟩, hmany, -⟩ := bind_eq_ok hread
      obtain ⟨⟨_, next⟩, hnames, hmany⟩ := bind_eq_ok hmany
      obtain ⟨⟨_, _⟩, hfinal, -⟩ := bind_eq_ok hmany
      have hnext := (stopsAlike_readMany stopsAlike_readString _).stop_eq
        (readsBack_writeMany readString_wireText names) hothers l₂ hpre hnames
      obtain ⟨_, hint, -⟩ := readString_eq_ok hfinal
      have hle := intUnpackFrom_le hint
      have hlength : (before ++ (c ++ others ++ text).take k).length = before.length + k :=
        length_append_take hk
      omega
  · -- the reader comes to the last text
    obtain ⟨j, rfl⟩ : ∃ j, k = (c ++ others).length + j := ⟨k - (c ++ others).length, by omega⟩
    have hsum : (c ++ others ++ text).length = (c ++ others).length + text.length :=
      List.length_append
    have hj : j < text.length := by omega
    have htake : before ++ (c ++ others ++ text).take ((c ++ others).length + j) =
        before ++ (c ++ others) ++ text.take j := by
      rw [List.take_length_add_append, List.append_assoc before]
    have hlocated : Located (before ++ (c ++ others) ++ text.take j) before.length (c ++ others) :=
      .here _ _ _
    simp only [Located.append_iff, intPack_length hc] at hlocated
    obtain ⟨l₁, l₂⟩ := hlocated
    have hnames := readMany_writeMany readString_wireText hothers l₂
    have hstop : before.length + 4 + others.length = (before ++ (c ++ others)).length := by
      rw [List.length_append, hlength, Nat.add_assoc]
    have hiff : (∃ m, (c ++ others).length + j = (c ++ others).length + (4 + m) ∧
        BetweenCharacters last m) ↔ ∃ m, j = 4 + m ∧ BetweenCharacters last m := by
      simp only [Nat.add_left_cancel_iff]
    have hcut : (∃ e, readString (before ++ (c ++ others) ++ text.take j)
        (before ++ (c ++ others)).length = .error e) ↔ _ := readString_cut htext hj
    rw [hiff, ← hcut, htake,
      Request.deserialize, intUnpackFrom_located hc l₁]
    dsimp only [bind, Except.bind]
    rw [if_neg intPack_natCast_ne, hcount, readMany_succ, hnames]
    dsimp only [bind, Except.bind]
    rw [hstop]
    cases readString (before ++ (c ++ others) ++ text.take j) (before ++ (c ++ others)).length with
    | error e => exact iff_of_true ⟨e, rfl⟩ ⟨e, rfl⟩
    | ok x => exact iff_of_false not_error not_error

/-- A reply that is cut is not read, unless it is cut between two characters of the text at its
end. -/
theorem deserialize_cut (hanswers : body.Answers request) (hb : body.wire = .ok b)
    (hk : k < b.length) :
    (∃ e, request.deserialize (before ++ b.take k) before.length = .error e) ↔
      ¬ body.CutsText b k := by
  have hfixed (hnone : body.lastText = none) :
      (∃ e, request.deserialize (before ++ b.take k) before.length = .error e) ↔
        ¬ body.CutsText b k := by
    refine iff_of_true (deserialize_cut_fixed hanswers hb hk hnone) ?_
    rintro ⟨text, htext, -⟩
    rw [hnone] at htext
    cases htext
  cases body with
  | path p => exact deserialize_cut_path hanswers hb hk
  | children names =>
    rcases List.eq_nil_or_concat' names with rfl | ⟨names, last, rfl⟩
    · exact hfixed rfl
    · exact deserialize_cut_children hanswers hb hk
  | _ => exact hfixed rfl

end

end Body

section Replies

variable {before b : Bytes} {k : Nat}

theorem ReplyHeader.deserialize_cut {header : ReplyHeader} (hb : header.wire = .ok b)
    (hk : k < b.length) :
    ∃ e, ReplyHeader.deserialize (before ++ b.take k) before.length = .error e := by
  obtain ⟨xid, hxid, hb⟩ := bind_eq_ok hb
  obtain ⟨zxid, hzxid, hb⟩ := bind_eq_ok hb
  obtain ⟨err, herr, hb⟩ := bind_eq_ok hb
  obtain rfl := pure_inj hb
  cases hread : ReplyHeader.deserialize (before ++ (xid ++ zxid ++ err).take k) before.length with
  | error e => exact ⟨e, rfl⟩
  | ok header =>
    exfalso
    obtain ⟨_, -, hread⟩ := bind_eq_ok hread
    obtain ⟨_, -, hread⟩ := bind_eq_ok hread
    obtain ⟨_, hlast, -⟩ := bind_eq_ok hread
    have hle := intUnpackFrom_le hlast
    rw [length_append_take hk] at hle
    simp only [List.length_append, intPack_length hxid, longPack_length hzxid,
      intPack_length herr] at hk
    omega

theorem Watch.deserialize_cut {type state : Int} {path : PyStr}
    (hb : wireWatch type state path = .ok b) (hk : k < b.length) :
    (∃ e, Watch.deserialize (before ++ b.take k) before.length = .error e) ↔
      ¬ CutBetween path b k := by
  obtain ⟨t, ht, hb⟩ := bind_eq_ok hb
  obtain ⟨st, hst, hb⟩ := bind_eq_ok hb
  obtain ⟨text, htext, hb⟩ := bind_eq_ok hb
  obtain rfl := pure_inj hb
  rw [cutBetween_iff htext]
  have hlength : (t ++ st).length = 8 := by
    rw [List.length_append, intPack_length ht, intPack_length hst]
  by_cases hfront : k < (t ++ st).length
  · rw [iff_true_right (by rintro ⟨m, hm, -⟩; omega)]
    cases hread : Watch.deserialize (before ++ (t ++ st ++ text).take k) before.length with
    | error e => exact ⟨e, rfl⟩
    | ok watch =>
      exfalso
      obtain ⟨_, -, hread⟩ := bind_eq_ok hread
      obtain ⟨_, hstate, -⟩ := bind_eq_ok hread
      have hle := intUnpackFrom_le hstate
      rw [length_append_take hk] at hle
      omega
  · obtain ⟨j, rfl⟩ : ∃ j, k = (t ++ st).length + j := ⟨k - (t ++ st).length, by omega⟩
    have hsum : (t ++ st ++ text).length = (t ++ st).length + text.length := List.length_append
    have hj : j < text.length := by omega
    have hcut : (∃ e, readString (before ++ (t ++ st) ++ text.take j)
        (before ++ (t ++ st)).length = .error e) ↔ _ := readString_cut htext hj
    have htake : before ++ (t ++ st ++ text).take ((t ++ st).length + j) =
        before ++ (t ++ st) ++ text.take j := by
      rw [List.take_length_add_append, List.append_assoc before]
    have hlocated : Located (before ++ (t ++ st) ++ text.take j) before.length (t ++ st) :=
      .here _ _ _
    simp only [Located.append_iff, intPack_length ht] at hlocated
    obtain ⟨l₁, l₂⟩ := hlocated
    simp only [Nat.add_left_cancel_iff]
    rw [← hcut, htake, Watch.deserialize, intUnpackFrom_located ht l₁, intUnpackFrom_located hst l₂,
      List.length_append, hlength]
    dsimp only [bind, Except.bind]
    cases readString (before ++ (t ++ st) ++ text.take j) (before.length + 8) with
    | error e => exact iff_of_true ⟨e, rfl⟩ ⟨e, rfl⟩
    | ok x => exact iff_of_false not_error not_error

/-- Of the reply to a `SASL` request, the length has to be there. -/
theorem readBuffer_cut (hk : k < b.length) :
    (∃ e, readBuffer (before ++ b.take k) before.length = .error e) ↔ k < 4 := by
  have hlength : (before ++ b.take k).length = before.length + k := length_append_take hk
  by_cases hshort : k < 4
  · refine iff_of_true ⟨.structError, ?_⟩ hshort
    rw [readBuffer, intUnpackFrom_short (by omega)]
    rfl
  · refine iff_of_false ?_ hshort
    obtain ⟨x, hx⟩ : ∃ x, readBuffer (before ++ b.take k) before.length = .ok x :=
      readBuffer_of_le (by omega)
    rw [hx]
    exact not_error

/-- Three numbers and the length of the password have to be there. -/
theorem Connect.deserialize_cut (hk : k < b.length) :
    (∃ e, Connect.deserialize (before ++ b.take k) before.length = .error e) ↔ k < 20 := by
  have hlength : (before ++ b.take k).length = before.length + k := length_append_take hk
  by_cases hshort : k < 20
  · refine iff_of_true ?_ hshort
    cases hread : Connect.deserialize (before ++ b.take k) before.length with
    | error e => exact ⟨e, rfl⟩
    | ok connect =>
      exfalso
      obtain ⟨_, -, hread⟩ := bind_eq_ok hread
      obtain ⟨_, -, hread⟩ := bind_eq_ok hread
      obtain ⟨_, -, hread⟩ := bind_eq_ok hread
      obtain ⟨⟨_, _⟩, hpassword, -⟩ := bind_eq_ok hread
      obtain ⟨_, hint, -⟩ := readBuffer_eq_ok hpassword
      have hle := intUnpackFrom_le hint
      omega
  · refine iff_of_false ?_ hshort
    generalize before ++ b.take k = buffer at hlength
    obtain ⟨version, hversion⟩ := intUnpackFrom_of_le (show before.length + 4 ≤ buffer.length by omega)
    obtain ⟨timeOut, htimeOut⟩ :=
      intUnpackFrom_of_le (show before.length + 4 + 4 ≤ buffer.length by omega)
    obtain ⟨sessionId, hsessionId⟩ :=
      longUnpackFrom_of_le (show before.length + 8 + 8 ≤ buffer.length by omega)
    obtain ⟨⟨password, next⟩, hpassword⟩ :=
      readBuffer_of_le (show before.length + 16 + 4 ≤ buffer.length by omega)
    rw [Connect.deserialize, hversion, htimeOut, hsessionId]
    dsimp only [bind, Except.bind]
    rw [hpassword]
    dsimp only
    cases byteUnpackFrom buffer next with
    | ok readOnly => exact not_error
    | error e => exact not_error

/-- A cut reply to a multi is not read: behind every result there is a header. -/
theorem operationsDeserialize_cut {a : OperationAnswer} {answers : List OperationAnswer}
    {pre full body rest last : Bytes} {offset fuel : Nat}
    (ha : ∀ a' ∈ a :: answers, a'.Succeeds ∨ a'.Fails)
    (hbody : OperationAnswer.wireResult a.result = .ok body)
    (hrest : writeMany OperationAnswer.wire answers = .ok rest)
    (hlast : multiHeaderSerialize (-1) true (-1) = .ok last)
    (h : Located full offset (body ++ rest ++ last)) (hpre : pre <+: full)
    (hcut : pre.length < offset + (body ++ rest ++ last).length) {header : MultiHeader}
    (htype : header.type = some a.type) (hdone : header.done = false)
    (response : Option OperationResult) (results out : List OperationResult) :
    operationsDeserialize pre fuel header response offset results ≠ .ok out := by
  intro hread
  induction answers generalizing a body rest fuel header response results offset with
  | nil =>
    cases fuel with
    | zero => cases hread
    | succ fuel =>
    rw [operationsDeserialize, hdone, if_neg Bool.false_ne_true] at hread
    obtain ⟨⟨response', stop⟩, hresult, hread⟩ := bind_eq_ok hread
    obtain ⟨⟨header', stop'⟩, hheader, hread⟩ := bind_eq_ok hread
    obtain rfl := pure_inj hrest
    rw [List.append_nil] at h hcut
    obtain ⟨hhere, hend⟩ := Located.append_iff.mp h
    have hstop : stop = offset + body.length := stopsAlike_operationDeserialize hpre hresult
      (OperationAnswer.operationDeserialize_wire (ha a List.mem_cons_self) hbody hhere htype none)
    have hle := (MultiHeader.deserialize_le hheader).2
    rw [List.length_append, multiHeader_length hlast] at hcut
    omega
  | cons next answers ih =>
    cases fuel with
    | zero => cases hread
    | succ fuel =>
    rw [operationsDeserialize, hdone, if_neg Bool.false_ne_true] at hread
    obtain ⟨⟨response', stop⟩, hresult, hread⟩ := bind_eq_ok hread
    obtain ⟨⟨header', stop'⟩, hheader, hread⟩ := bind_eq_ok hread
    obtain ⟨first, hfirst, hrest⟩ := bind_eq_ok hrest
    obtain ⟨rest, hothers, hrest⟩ := bind_eq_ok hrest
    obtain rfl := pure_inj hrest
    obtain ⟨nextHeader, nextBody, hnextHeader, hnext, rfl⟩ := OperationAnswer.wire_eq_ok hfirst
    simp only [List.append_assoc] at h hcut
    obtain ⟨hhere, h⟩ := Located.append_iff.mp h
    obtain ⟨hstart, h⟩ := Located.append_iff.mp h
    rw [multiHeader_length hnextHeader] at h
    obtain rfl : stop = offset + body.length := stopsAlike_operationDeserialize hpre hresult
      (OperationAnswer.operationDeserialize_wire (ha a List.mem_cons_self) hbody hhere htype none)
    obtain ⟨rfl, rfl⟩ := Prod.mk.inj (Except.ok.inj
      ((MultiHeader.deserialize_extend hpre hheader).symm.trans
        (MultiHeader.deserialize_serialize hnextHeader hstart).1))
    refine ih (fun a' ha' => ha a' (List.mem_cons_of_mem a ha')) hnext hothers
      (by rwa [List.append_assoc]) ?_ rfl rfl _ _ hread
    simp only [List.length_append, multiHeader_length hnextHeader] at hcut ⊢
    omega

/-- The first turn reads no result, and behind the first header the loop stands at the result of
the first answer. -/
theorem transactionDeserialize_cut {answers : List OperationAnswer}
    (ha : ∀ a ∈ answers, a.Succeeds ∨ a.Fails) (hb : wireMulti answers = .ok b)
    (hk : k < b.length) :
    ∃ e, transactionDeserialize (before ++ b.take k) before.length = .error e := by
  cases hread : transactionDeserialize (before ++ b.take k) before.length with
  | error e => exact ⟨e, rfl⟩
  | ok out =>
    exfalso
    have hlength : (before ++ b.take k).length = before.length + k := length_append_take hk
    have hpre : before ++ b.take k <+: before ++ b := prefix_append_take
    have h : Located (before ++ b) before.length b := .behind before b
    obtain ⟨body, hbody, hb⟩ := bind_eq_ok hb
    obtain ⟨last, hlast, hb⟩ := bind_eq_ok hb
    obtain rfl := pure_inj hb
    rw [transactionDeserialize, operationsDeserialize, if_neg Bool.false_ne_true] at hread
    obtain ⟨⟨response, stop⟩, hnone, hread⟩ := bind_eq_ok hread
    obtain ⟨rfl, rfl⟩ := Prod.mk.inj (pure_inj hnone)
    obtain ⟨⟨header, stop⟩, hheader, hread⟩ := bind_eq_ok hread
    cases answers with
    | nil =>
      obtain rfl := pure_inj hbody
      have hle := (MultiHeader.deserialize_le hheader).2
      rw [List.nil_append, multiHeader_length hlast] at hk
      omega
    | cons a answers =>
      obtain ⟨first, hfirst, hbody⟩ := bind_eq_ok hbody
      obtain ⟨rest, hrest, hbody⟩ := bind_eq_ok hbody
      obtain rfl := pure_inj hbody
      obtain ⟨firstHeader, result, hfirstHeader, hresult, rfl⟩ := OperationAnswer.wire_eq_ok hfirst
      have hparts : firstHeader ++ result ++ rest ++ last =
          firstHeader ++ (result ++ rest ++ last) := by simp only [List.append_assoc]
      rw [hparts] at h hk hpre hlength hread hheader
      obtain ⟨hstart, h⟩ := Located.append_iff.mp h
      rw [multiHeader_length hfirstHeader] at h
      obtain ⟨rfl, rfl⟩ := Prod.mk.inj (Except.ok.inj
        ((MultiHeader.deserialize_extend hpre hheader).symm.trans
          (MultiHeader.deserialize_serialize hfirstHeader hstart).1))
      refine operationsDeserialize_cut ha hresult hrest hlast h hpre ?_ rfl rfl _ _ _ hread
      have hsum : (firstHeader ++ (result ++ rest ++ last)).length =
          firstHeader.length + (result ++ rest ++ last).length := List.length_append
      rw [multiHeader_length hfirstHeader] at hsum
      omega

end Replies

/-- A reader that returns has stayed within its buffer exactly when the last length that it reads
does.  A reply that is cut raises, unless the cut falls between two characters of a text at its end
(`Create`, `Sync`, `GetChildren`, a watch event) or behind the length of a password or a token. -/
theorem short_buffers_iff (buffer before b : Bytes) {k : Nat} (hk : k < b.length) :
    (∀ (r : Reader) (offset stop : Nat), r.ReturnsAt buffer offset stop →
      (stop ≤ buffer.length ↔ ∀ start ∈ r.lastLength buffer offset, Covered buffer start)) ∧
    (∀ header, ReplyHeader.wire header = .ok b →
      ∃ e, ReplyHeader.deserialize (before ++ b.take k) before.length = .error e) ∧
    (∀ type state path, wireWatch type state path = .ok b →
      ((∃ e, Watch.deserialize (before ++ b.take k) before.length = .error e) ↔
        ¬ CutBetween path b k)) ∧
    (∀ r, ConnectResponse.wire r = .ok b →
      ((∃ e, Connect.deserialize (before ++ b.take k) before.length = .error e) ↔ k < 20)) ∧
    (∀ token, writeBuffer token = .ok b →
      ((∃ e, readBuffer (before ++ b.take k) before.length = .error e) ↔ k < 4)) ∧
    (∀ answers operations, (∀ a ∈ answers, a.Succeeds ∨ a.Fails) → wireMulti answers = .ok b →
      ∃ e, (Request.transaction operations).deserialize (before ++ b.take k) before.length =
        .error e) ∧
    ∀ body request, Body.Answers body request → body.wire = .ok b →
      ((∃ e, request.deserialize (before ++ b.take k) before.length = .error e) ↔
        ¬ body.CutsText b k) := by
  refine ⟨fun r offset stop h => Reader.stop_le_iff h,
    fun header hb => ReplyHeader.deserialize_cut hb hk,
    fun type state path hb => Watch.deserialize_cut hb hk,
    fun r hb => Connect.deserialize_cut hk, fun token hb => readBuffer_cut hk,
    fun answers operations ha hb => ?_,
    fun body request hanswers hb => Body.deserialize_cut hanswers hb hk⟩
  obtain ⟨e, he⟩ : ∃ e, transactionDeserialize (before ++ b.take k) before.length = .error e :=
    transactionDeserialize_cut ha hb hk
  exact ⟨e, by rw [Request.deserialize, he]; rfl⟩

/-- The reply `/ab` to a `Create`, on the wire. -/
def createdReply : Bytes := [0, 0, 0, 3, 47, 97, 98]

theorem short_buffers_created :
    (7 ≤ (createdReply.take 6).length ↔
      ∀ start ∈ Reader.string.lastLength (createdReply.take 6) 0,
        Covered (createdReply.take 6) start) ∧
    ((∃ e, (Request.create ⟨str "/ab", some [], [], 0⟩).deserialize ([] ++ createdReply.take 3)
        ([] : Bytes).length = .error e) ↔ ¬ (Body.path (str "/ab")).CutsText createdReply 3) :=
  have hboth := short_buffers_iff (createdReply.take 6) [] createdReply (show 3 < _ by decide)
  ⟨hboth.1 .string 0 7 ⟨some (str "/a"), by decide +kernel⟩,
    hboth.2.2.2.2.2.2 (.path (str "/ab")) (.create ⟨str "/ab", some [], [], 0⟩) trivial
      (by decide +kernel)⟩

/-- Without its last byte, the reply is read as `/a`, and the offset behind it is not in the
buffer. -/
theorem short_buffers_invented :
    (¬ ∀ (r : Reader) (buffer : Bytes) (offset stop : Nat), r.ReturnsAt buffer offset stop →
      stop ≤ buffer.length) ∧
    ¬ ∀ (body : Body) (request : Request) (before b : Bytes) (k : Nat), body.Answers request →
      body.wire = .ok b → k < b.length →
        ∃ e, request.deserialize (before ++ b.take k) before.length = .error e := by
  constructor
  · intro h
    have hle := h .string (createdReply.take 6) 0 7 ⟨some (str "/a"), by decide +kernel⟩
    exact absurd hle (by decide)
  · intro h
    obtain ⟨e, he⟩ := h (.path (str "/ab")) (.create ⟨str "/ab", some [], [], 0⟩) [] createdReply 6
      trivial (by decide +kernel) (by decide)
    have hread : (Request.create ⟨str "/ab", some [], [], 0⟩).deserialize
        ([] ++ createdReply.take 6) ([] : Bytes).length = .ok (.str (some (str "/a"))) := by
      decide +kernel
    cases hread.symm.trans he

end Kazoo
