import Kazoo.Encodable
import Kazoo.Protocol.RoundTrip

/-!
# Request frames — no two requests share their bytes

A decoder for what `_submit` writes.  The frame does not tell `None` from the empty string, nor one
watcher from another; everything else can be read back from it, provided that there is an xid.
-/

namespace Kazoo

/-- The typed requests: what goes through the queue, and what the connection thread sends itself. -/
inductive Typed
  | queued (request : Request)
  | ping
  | sasl (challenge : Option Bytes)
  deriving DecidableEq, Repr

namespace Typed

def type : Typed → Int
  | .queued request => request.type
  | .ping => 11
  | .sasl _ => 102

def serialize : Typed → Except Exn Bytes
  | .queued request => request.serialize
  | .ping => .ok []
  | .sasl challenge => writeBuffer challenge

end Typed

/-- What `_submit` hands to `_write`, for any of the requests. -/
def submitFrame (request : Typed) (xid : Int) : Except Exn Bytes := do
  let xid ← packTruthy xid
  let type ← packTruthy request.type
  let b := xid ++ type ++ (← request.serialize)
  return (← intPack b.length) ++ b

theorem submitFrame_queued (request : Request) (xid : Int) :
    submitFrame (.queued request) xid = submitBytes request xid := rfl

/-! ## What the frame does not tell apart -/

/-- A watcher is there or not. -/
def presence (watcher : Option Watcher) : Option Watcher := watcher.map fun _ => 0

def Request.norm : Request → Request
  | .exists path watcher => .exists path (presence watcher)
  | .getData path watcher => .getData path (presence watcher)
  | .getChildren path watcher => .getChildren path (presence watcher)
  | .getChildren2 path watcher => .getChildren2 path (presence watcher)
  | .reconfig joining leaving newMembers configId =>
    .reconfig (joining.getD []) (leaving.getD []) (newMembers.getD []) configId
  | request => request

def Typed.norm : Typed → Typed
  | .queued request => .queued request.norm
  | request => request

theorem Typed.norm_type (request : Typed) : request.norm.type = request.type := by
  cases request with
  | queued request => cases request <;> rfl
  | ping => rfl
  | sasl challenge => rfl

/-! ## The decoder -/

def readInt (buffer : Bytes) (offset : Nat) : Except Exn (Int × Nat) := do
  return (← intUnpackFrom buffer offset, offset + 4)

/-- A string, where `None` is as good as the empty one. -/
def readText (buffer : Bytes) (offset : Nat) : Except Exn (PyStr × Nat) := do
  let (s, offset) ← readString buffer offset
  return (s.getD [], offset)

def readWatcher (buffer : Bytes) (offset : Nat) : Except Exn (Option Watcher × Nat) := do
  return (if (← byteUnpackFrom buffer offset) = 1 then some 0 else none, offset + 1)

def readTextAcl (buffer : Bytes) (offset : Nat) : Except Exn (ACL × Nat) := do
  let (perms, offset) ← readInt buffer offset
  let (scheme, offset) ← readText buffer offset
  let (id, offset) ← readText buffer offset
  return (⟨perms, ⟨scheme, id⟩⟩, offset)

def readAcls (buffer : Bytes) (offset : Nat) : Except Exn (List ACL × Nat) := do
  let (count, offset) ← readInt buffer offset
  readMany readTextAcl buffer count.toNat offset

def readCreate (buffer : Bytes) (offset : Nat) : Except Exn (Create × Nat) := do
  let (path, offset) ← readText buffer offset
  let (data, offset) ← readBuffer buffer offset
  let (acl, offset) ← readAcls buffer offset
  let (flags, offset) ← readInt buffer offset
  return (⟨path, data, acl, flags⟩, offset)

/-- The fields of `Delete` and `CheckVersion`. -/
def readPathVersion (buffer : Bytes) (offset : Nat) : Except Exn ((PyStr × Int) × Nat) := do
  let (path, offset) ← readText buffer offset
  let (version, offset) ← readInt buffer offset
  return ((path, version), offset)

/-- The fields of the requests that may leave a watch. -/
def readPathWatcher (buffer : Bytes) (offset : Nat) :
    Except Exn ((PyStr × Option Watcher) × Nat) := do
  let (path, offset) ← readText buffer offset
  let (watcher, offset) ← readWatcher buffer offset
  return ((path, watcher), offset)

def readSetData (buffer : Bytes) (offset : Nat) : Except Exn (SetData × Nat) := do
  let (path, offset) ← readText buffer offset
  let (data, offset) ← readBuffer buffer offset
  let (version, offset) ← readInt buffer offset
  return (⟨path, data, version⟩, offset)

def readOperation (type : Int) (buffer : Bytes) (offset : Nat) : Except Exn (Operation × Nat) :=
  if type = Create.type then do
    let (r, offset) ← readCreate buffer offset
    return (.create r, offset)
  else if type = Delete.type then do
    let (r, offset) ← readPathVersion buffer offset
    return (.delete ⟨r.1, r.2⟩, offset)
  else if type = SetData.type then do
    let (r, offset) ← readSetData buffer offset
    return (.setData r, offset)
  else do
    let (r, offset) ← readPathVersion buffer offset
    return (.checkVersion ⟨r.1, r.2⟩, offset)

/-- The operations up to the header that says that it is the last. -/
def readOperations (buffer : Bytes) : Nat → Nat → Except Exn (List Operation × Nat)
  | 0, _ => .error .structError
  | fuel + 1, offset => do
    let (header, offset) ← MultiHeader.deserialize buffer offset
    if header.done then return ([], offset)
    let (op, offset) ← readOperation (header.type.getD 0) buffer offset
    let (ops, offset) ← readOperations buffer fuel offset
    return (op :: ops, offset)

/-- The fields of a request of the given type. -/
def readTyped (type : Int) (buffer : Bytes) (offset : Nat) : Except Exn (Typed × Nat) :=
  if type = -11 then .ok (.queued .close, offset)
  else if type = 11 then .ok (.ping, offset)
  else if type = 102 then do
    let (challenge, offset) ← readBuffer buffer offset
    return (.sasl challenge, offset)
  else if type = 1 then do
    let (r, offset) ← readCreate buffer offset
    return (.queued (.create r), offset)
  else if type = 15 then do
    let (r, offset) ← readCreate buffer offset
    return (.queued (.create2 r), offset)
  else if type = 2 then do
    let (r, offset) ← readPathVersion buffer offset
    return (.queued (.delete ⟨r.1, r.2⟩), offset)
  else if type = 13 then do
    let (r, offset) ← readPathVersion buffer offset
    return (.queued (.checkVersion ⟨r.1, r.2⟩), offset)
  else if type = 3 then do
    let (r, offset) ← readPathWatcher buffer offset
    return (.queued (.exists r.1 r.2), offset)
  else if type = 4 then do
    let (r, offset) ← readPathWatcher buffer offset
    return (.queued (.getData r.1 r.2), offset)
  else if type = 8 then do
    let (r, offset) ← readPathWatcher buffer offset
    return (.queued (.getChildren r.1 r.2), offset)
  else if type = 12 then do
    let (r, offset) ← readPathWatcher buffer offset
    return (.queued (.getChildren2 r.1 r.2), offset)
  else if type = 5 then do
    let (r, offset) ← readSetData buffer offset
    return (.queued (.setData r), offset)
  else if type = 6 then do
    let (path, offset) ← readText buffer offset
    return (.queued (.getACL path), offset)
  else if type = 9 then do
    let (path, offset) ← readText buffer offset
    return (.queued (.sync path), offset)
  else if type = 7 then do
    let (path, offset) ← readText buffer offset
    let (acls, offset) ← readAcls buffer offset
    let (version, offset) ← readInt buffer offset
    return (.queued (.setACL path acls version), offset)
  else if type = 14 then do
    let (operations, offset) ← readOperations buffer (buffer.length + 1) offset
    return (.queued (.transaction operations), offset)
  else if type = 16 then do
    let (joining, offset) ← readText buffer offset
    let (leaving, offset) ← readText buffer offset
    let (newMembers, offset) ← readText buffer offset
    let configId ← longUnpackFrom buffer offset
    return (.queued (.reconfig joining leaving newMembers configId), offset + 8)
  else do
    let (authType, offset) ← readInt buffer offset
    let (scheme, offset) ← readText buffer offset
    let (credential, offset) ← readText buffer offset
    return (.queued (.auth authType scheme credential), offset)

/-- The xid and the request of a frame, behind its length. -/
def decodeFrame (frame : Bytes) : Except Exn (Int × Typed) := do
  let (xid, offset) ← readInt frame 4
  let (type, offset) ← readInt frame offset
  let (request, _) ← readTyped type frame offset
  return (xid, request)

/-! ## What is written is read back -/

theorem readInt_intPack (i : Int) : ReadsBack (intPack i) readInt i := by
  intro b buffer offset hb h
  rw [readInt, intUnpackFrom_located hb h, intPack_length hb]
  rfl

theorem readText_writeString (s : Option PyStr) :
    ReadsBack (writeString s) readText (s.getD []) := by
  intro b buffer offset hb h
  rcases s with _ | _ | ⟨c, s⟩
  · rw [readText, readString_null b buffer offset hb h]
    rfl
  · rw [readText, readString_null b buffer offset hb h]
    rfl
  · rw [readText, readString_wireText (c :: s) b buffer offset hb h]
    rfl

theorem readWatcher_writeWatcher {watcher : Option Watcher} {buffer : Bytes} {offset : Nat}
    (h : Located buffer offset (writeWatcher watcher)) :
    readWatcher buffer offset = .ok (presence watcher, offset + 1) := by
  rw [readWatcher, byteUnpackFrom_located h]
  cases watcher <;> rfl

/-- One entry of `writeAcls`. -/
def writeAcl (acl : ACL) : Except Exn Bytes := do
  let perms ← intPack acl.perms
  let scheme ← writeString (some acl.id.scheme)
  return perms ++ scheme ++ (← writeString (some acl.id.id))

theorem readTextAcl_writeAcl (acl : ACL) : ReadsBack (writeAcl acl) readTextAcl acl := by
  intro b buffer offset hb h
  obtain ⟨b₁, h₁, hb⟩ := bind_eq_ok hb
  obtain ⟨b₂, h₂, hb⟩ := bind_eq_ok hb
  obtain ⟨b₃, h₃, hb⟩ := bind_eq_ok hb
  cases hb
  simp only [Located.append_iff, List.length_append, ← Nat.add_assoc] at h ⊢
  obtain ⟨⟨l₁, l₂⟩, l₃⟩ := h
  rw [readTextAcl, readInt_intPack _ _ _ _ h₁ l₁]
  dsimp only [bind, Except.bind]
  rw [readText_writeString _ _ _ _ h₂ l₂]
  dsimp only
  rw [readText_writeString _ _ _ _ h₃ l₃]
  rfl

theorem writeAcls_eq (acls : List ACL) : writeAcls acls = writeMany writeAcl acls := by
  induction acls with
  | nil => rfl
  | cons acl acls ih => simp only [writeAcls, writeMany, writeAcl, ih, bind_assoc, pure_bind]

theorem readAcls_writeAcls {acls : List ACL} {b₁ b₂ buffer : Bytes} {offset : Nat}
    (h₁ : intPack acls.length = .ok b₁) (h₂ : writeAcls acls = .ok b₂)
    (l₁ : Located buffer offset b₁) (l₂ : Located buffer (offset + b₁.length) b₂) :
    readAcls buffer offset = .ok (acls, offset + b₁.length + b₂.length) := by
  rw [writeAcls_eq] at h₂
  have hmany := readMany_writeMany (f := id) readTextAcl_writeAcl h₂ l₂
  rw [readAcls, readInt_intPack _ _ _ _ h₁ l₁]
  dsimp only [bind, Except.bind]
  rw [Int.toNat_natCast, hmany, List.map_id]

theorem readCreate_serialize (r : Create) : ReadsBack r.serialize readCreate r := by
  intro b buffer offset hb h
  obtain ⟨b₁, h₁, hb⟩ := bind_eq_ok hb
  obtain ⟨b₂, h₂, hb⟩ := bind_eq_ok hb
  obtain ⟨b₃, h₃, hb⟩ := bind_eq_ok hb
  obtain ⟨b₄, h₄, hb⟩ := bind_eq_ok hb
  obtain ⟨b₅, h₅, hb⟩ := bind_eq_ok hb
  cases hb
  simp only [Located.append_iff, List.length_append, ← Nat.add_assoc] at h ⊢
  obtain ⟨⟨⟨⟨l₁, l₂⟩, l₃⟩, l₄⟩, l₅⟩ := h
  rw [readCreate, readText_writeString _ _ _ _ h₁ l₁]
  dsimp only [bind, Except.bind]
  rw [readBuffer_writeBuffer _ _ _ _ h₂ l₂]
  dsimp only
  rw [readAcls_writeAcls h₃ h₄ l₃ l₄]
  dsimp only
  rw [readInt_intPack _ _ _ _ h₅ l₅]
  rfl

theorem readPathVersion_serialize (path : PyStr) (version : Int) :
    ReadsBack (do return (← writeString (some path)) ++ (← intPack version)) readPathVersion
      (path, version) := by
  intro b buffer offset hb h
  obtain ⟨b₁, h₁, hb⟩ := bind_eq_ok hb
  obtain ⟨b₂, h₂, hb⟩ := bind_eq_ok hb
  cases hb
  simp only [Located.append_iff, List.length_append, ← Nat.add_assoc] at h ⊢
  rw [readPathVersion, readText_writeString _ _ _ _ h₁ h.1]
  dsimp only [bind, Except.bind]
  rw [readInt_intPack _ _ _ _ h₂ h.2]
  rfl

theorem readPathWatcher_serialize (path : PyStr) (watcher : Option Watcher) :
    ReadsBack (do return (← writeString (some path)) ++ writeWatcher watcher) readPathWatcher
      (path, presence watcher) := by
  intro b buffer offset hb h
  obtain ⟨b₁, h₁, hb⟩ := bind_eq_ok hb
  cases hb
  simp only [Located.append_iff, List.length_append, ← Nat.add_assoc] at h ⊢
  rw [readPathWatcher, readText_writeString _ _ _ _ h₁ h.1]
  dsimp only [bind, Except.bind]
  rw [readWatcher_writeWatcher h.2]
  rfl

theorem readSetData_serialize (r : SetData) : ReadsBack r.serialize readSetData r := by
  intro b buffer offset hb h
  obtain ⟨b₁, h₁, hb⟩ := bind_eq_ok hb
  obtain ⟨b₂, h₂, hb⟩ := bind_eq_ok hb
  obtain ⟨b₃, h₃, hb⟩ := bind_eq_ok hb
  cases hb
  simp only [Located.append_iff, List.length_append, ← Nat.add_assoc] at h ⊢
  obtain ⟨⟨l₁, l₂⟩, l₃⟩ := h
  rw [readSetData, readText_writeString _ _ _ _ h₁ l₁]
  dsimp only [bind, Except.bind]
  rw [readBuffer_writeBuffer _ _ _ _ h₂ l₂]
  dsimp only
  rw [readInt_intPack _ _ _ _ h₃ l₃]
  rfl

theorem readOperation_serialize (op : Operation) :
    ReadsBack op.serialize (readOperation op.type) op := by
  cases op with
  | create r => exact (readCreate_serialize r).map Operation.create
  | delete r =>
    exact (readPathVersion_serialize r.path r.version).map fun r => Operation.delete ⟨r.1, r.2⟩
  | setData r => exact (readSetData_serialize r).map Operation.setData
  | checkVersion r =>
    exact (readPathVersion_serialize r.path r.version).map fun r =>
      Operation.checkVersion ⟨r.1, r.2⟩

/-- The loop needs one turn for each operation and one for the last header. -/
theorem readOperations_serialize {ops : List Operation} {b₁ b₂ buffer : Bytes} {offset fuel : Nat}
    (h₁ : writeOperations ops = .ok b₁) (h₂ : multiHeaderSerialize (-1) true (-1) = .ok b₂)
    (l₁ : Located buffer offset b₁) (l₂ : Located buffer (offset + b₁.length) b₂)
    (hfuel : ops.length < fuel) :
    readOperations buffer fuel offset = .ok (ops, offset + b₁.length + b₂.length) := by
  induction ops generalizing b₁ offset fuel with
  | nil =>
    cases h₁
    obtain ⟨hheader, hlength⟩ := MultiHeader.deserialize_serialize h₂ l₂
    obtain ⟨fuel, rfl⟩ : ∃ n, fuel = n + 1 := ⟨fuel - 1, by omega⟩
    rw [List.length_nil, Nat.add_zero] at hheader
    rw [readOperations, hheader, hlength]
    rfl
  | cons op ops ih =>
    obtain ⟨fuel, rfl⟩ : ∃ n, fuel = n + 1 := ⟨fuel - 1, by omega⟩
    obtain ⟨p, hp, h₁⟩ := bind_eq_ok h₁
    obtain ⟨q, hq, h₁⟩ := bind_eq_ok h₁
    obtain ⟨r, hr, h₁⟩ := bind_eq_ok h₁
    cases h₁
    simp only [Located.append_iff, List.length_append, ← Nat.add_assoc] at l₁ l₂ ⊢
    obtain ⟨⟨lp, lq⟩, lr⟩ := l₁
    obtain ⟨hheader, hlength⟩ := MultiHeader.deserialize_serialize hp lp
    rw [hlength] at lq lr l₂ ⊢
    rw [readOperations, hheader]
    dsimp only [bind, Except.bind]
    rw [if_neg (by decide), Option.getD_some, readOperation_serialize op _ _ _ hq lq]
    dsimp only
    rw [ih hr lr l₂ (by rw [List.length_cons] at hfuel; omega)]
    rfl

theorem length_le_writeOperations {ops : List Operation} {b : Bytes}
    (hb : writeOperations ops = .ok b) : ops.length ≤ b.length := by
  induction ops generalizing b with
  | nil => exact Nat.zero_le _
  | cons op ops ih =>
    obtain ⟨p, hp, hb⟩ := bind_eq_ok hb
    obtain ⟨q, hq, hb⟩ := bind_eq_ok hb
    obtain ⟨r, hr, hb⟩ := bind_eq_ok hb
    cases hb
    have hlength := (MultiHeader.deserialize_serialize hp (Located.start p)).2
    have hrest := ih hr
    simp only [List.length_append, List.length_cons]
    omega

theorem readTyped_serialize (request : Typed) :
    ReadsBack request.serialize (readTyped request.type) request.norm := by
  cases request with
  | ping => intro b buffer offset hb _; cases hb; rfl
  | sasl challenge => exact (readBuffer_writeBuffer challenge).map Typed.sasl
  | queued request =>
    cases request with
    | close => intro b buffer offset hb _; cases hb; rfl
    | create r => exact (readCreate_serialize r).map fun r => Typed.queued (.create r)
    | create2 r => exact (readCreate_serialize r).map fun r => Typed.queued (.create2 r)
    | delete r =>
      exact (readPathVersion_serialize r.path r.version).map fun r =>
        Typed.queued (.delete ⟨r.1, r.2⟩)
    | checkVersion r =>
      exact (readPathVersion_serialize r.path r.version).map fun r =>
        Typed.queued (.checkVersion ⟨r.1, r.2⟩)
    | «exists» path watcher =>
      exact (readPathWatcher_serialize path watcher).map fun r => Typed.queued (.exists r.1 r.2)
    | getData path watcher =>
      exact (readPathWatcher_serialize path watcher).map fun r => Typed.queued (.getData r.1 r.2)
    | getChildren path watcher =>
      exact (readPathWatcher_serialize path watcher).map fun r =>
        Typed.queued (.getChildren r.1 r.2)
    | getChildren2 path watcher =>
      exact (readPathWatcher_serialize path watcher).map fun r =>
        Typed.queued (.getChildren2 r.1 r.2)
    | setData r => exact (readSetData_serialize r).map fun r => Typed.queued (.setData r)
    | getACL path =>
      exact (readText_writeString (some path)).map fun path => Typed.queued (.getACL path)
    | sync path =>
      exact (readText_writeString (some path)).map fun path => Typed.queued (.sync path)
    | setACL path acls version =>
      intro b buffer offset hb h
      obtain ⟨b₁, h₁, hb⟩ := bind_eq_ok hb
      obtain ⟨b₂, h₂, hb⟩ := bind_eq_ok hb
      obtain ⟨b₃, h₃, hb⟩ := bind_eq_ok hb
      obtain ⟨b₄, h₄, hb⟩ := bind_eq_ok hb
      cases hb
      simp only [Located.append_iff, List.length_append, ← Nat.add_assoc] at h ⊢
      obtain ⟨⟨⟨l₁, l₂⟩, l₃⟩, l₄⟩ := h
      show (readText buffer offset >>= _) = _
      rw [readText_writeString _ _ _ _ h₁ l₁]
      dsimp only [bind, Except.bind]
      rw [readAcls_writeAcls h₂ h₃ l₂ l₃]
      dsimp only
      rw [readInt_intPack _ _ _ _ h₄ l₄]
      rfl
    | transaction operations =>
      intro b buffer offset hb h
      obtain ⟨b₁, h₁, hb⟩ := bind_eq_ok hb
      obtain ⟨b₂, h₂, hb⟩ := bind_eq_ok hb
      cases hb
      have hfuel : operations.length < buffer.length + 1 := by
        have hlength := length_le_writeOperations h₁
        have hend := (MultiHeader.deserialize_serialize h₂ (Located.start b₂)).2
        have hbound := h.length_le (List.length_pos_iff.mp (by rw [List.length_append]; omega))
        rw [List.length_append] at hbound
        omega
      simp only [Located.append_iff, List.length_append, ← Nat.add_assoc] at h ⊢
      show (readOperations buffer (buffer.length + 1) offset >>= _) = _
      rw [readOperations_serialize h₁ h₂ h.1 h.2 hfuel]
      rfl
    | reconfig joining leaving newMembers configId =>
      intro b buffer offset hb h
      obtain ⟨b₁, h₁, hb⟩ := bind_eq_ok hb
      obtain ⟨b₂, h₂, hb⟩ := bind_eq_ok hb
      obtain ⟨b₃, h₃, hb⟩ := bind_eq_ok hb
      obtain ⟨b₄, h₄, hb⟩ := bind_eq_ok hb
      cases hb
      simp only [Located.append_iff, List.length_append, ← Nat.add_assoc,
        longPack_length h₄] at h ⊢
      obtain ⟨⟨⟨l₁, l₂⟩, l₃⟩, l₄⟩ := h
      show (readText buffer offset >>= _) = _
      rw [readText_writeString _ _ _ _ h₁ l₁]
      dsimp only [bind, Except.bind]
      rw [readText_writeString _ _ _ _ h₂ l₂]
      dsimp only
      rw [readText_writeString _ _ _ _ h₃ l₃]
      dsimp only
      rw [longUnpackFrom_located h₄ l₄]
      rfl
    | auth authType scheme credential =>
      intro b buffer offset hb h
      obtain ⟨b₁, h₁, hb⟩ := bind_eq_ok hb
      obtain ⟨b₂, h₂, hb⟩ := bind_eq_ok hb
      obtain ⟨b₃, h₃, hb⟩ := bind_eq_ok hb
      cases hb
      simp only [Located.append_iff, List.length_append, ← Nat.add_assoc] at h ⊢
      obtain ⟨⟨l₁, l₂⟩, l₃⟩ := h
      show (readInt buffer offset >>= _) = _
      rw [readInt_intPack _ _ _ _ h₁ l₁]
      dsimp only [bind, Except.bind]
      rw [readText_writeString _ _ _ _ h₂ l₂]
      dsimp only
      rw [readText_writeString _ _ _ _ h₃ l₃]
      rfl

theorem Typed.type_ne_zero (request : Typed) : request.type ≠ 0 := by
  cases request with
  | queued request => exact request.type_ne_zero
  | ping => decide
  | sasl challenge => show (102 : Int) ≠ 0; decide

theorem decodeFrame_submitFrame {request : Typed} {xid : Int} {frame : Bytes} (hxid : xid ≠ 0)
    (h : submitFrame request xid = .ok frame) : decodeFrame frame = .ok (xid, request.norm) := by
  obtain ⟨b₁, h₁, h⟩ := bind_eq_ok h
  obtain ⟨b₂, h₂, h⟩ := bind_eq_ok h
  obtain ⟨b₃, h₃, h⟩ := bind_eq_ok h
  obtain ⟨p, hp, h⟩ := bind_eq_ok h
  rw [packTruthy, if_pos hxid] at h₁
  rw [packTruthy, if_pos request.type_ne_zero] at h₂
  obtain rfl := pure_inj h
  have hframe := Located.start (p ++ (b₁ ++ b₂ ++ b₃))
  simp only [Located.append_iff, intPack_length hp, Nat.zero_add, List.length_append,
    ← Nat.add_assoc] at hframe
  obtain ⟨-, ⟨l₁, l₂⟩, l₃⟩ := hframe
  rw [decodeFrame, readInt_intPack _ _ _ _ h₁ l₁]
  dsimp only [bind, Except.bind]
  rw [readInt_intPack _ _ _ _ h₂ l₂]
  dsimp only
  rw [readTyped_serialize request _ _ _ h₃ l₃]
  rfl

/-- With an xid, the bytes of a frame give the xid and the request, up to `None` for the empty
string and one watcher for another. -/
theorem frames_are_decodable :
    (∀ request xid frame, xid ≠ 0 → submitFrame request xid = .ok frame →
      decodeFrame frame = .ok (xid, request.norm)) ∧
    ∀ request request' xid xid' frame, xid ≠ 0 → xid' ≠ 0 →
      submitFrame request xid = .ok frame → submitFrame request' xid' = .ok frame →
        xid = xid' ∧ request.type = request'.type ∧ request.norm = request'.norm := by
  refine ⟨fun request xid frame hxid h => decodeFrame_submitFrame hxid h,
    fun request request' xid xid' frame hxid hxid' h h' => ?_⟩
  have heq := (decodeFrame_submitFrame hxid h).symm.trans (decodeFrame_submitFrame hxid' h')
  obtain ⟨hid, hnorm⟩ := Prod.mk.inj (Except.ok.inj heq)
  exact ⟨hid, by rw [← request.norm_type, hnorm, request'.norm_type], hnorm⟩

theorem frames_are_decodable_sync :
    ∃ frame, submitFrame (.queued (.sync (str "/a"))) 6 = .ok frame ∧
      decodeFrame frame = .ok (6, .queued (.sync (str "/a"))) :=
  ⟨_, rfl, frames_are_decodable.1 (.queued (.sync (str "/a"))) 6 _ (by decide) rfl⟩

/-- A zero xid is left out, so the type of `GetACL` stands where `Sync` has its xid. -/
theorem zero_xid_collides :
    ¬ ∀ request request' xid xid' frame,
      submitFrame request xid = .ok frame → submitFrame request' xid' = .ok frame →
        xid = xid' ∧ request.type = request'.type ∧ request.norm = request'.norm := by
  intro h
  have hxid := (h (.queued (.getACL (str "\x00\x00\x00\x05abcde"))) (.queued (.sync (str "abcde")))
    0 6 _ (by rfl) (by rfl)).1
  exact absurd hxid (by decide)

end Kazoo
