import Kazoo.Lib.Encoder
import Kazoo.Protocol.Connection

/-!
# Encodable — the requests that can be written

The API checks the types of its arguments, `_submit` encodes them in the connection thread.  What
`_submit` can encode is a matter of ranges: each number in its field, no lone surrogate in a text,
and a frame whose length fits its prefix.
-/

namespace Kazoo

/-- The first length that no `!i` prefix holds. -/
def frameLimit : Nat := 2147483648

theorem fitsWidth_four (n : Nat) : FitsWidth 4 n ↔ n < frameLimit := by
  unfold FitsWidth frameLimit
  omega

theorem structPack_encodes (width : Nat) (i : Int) :
    Encodes frameLimit (structPack width i) (FitsWidth width i) width where
  length _ hb := structPack_length hb
  sound b hb := by
    rw [← structPack_isOk_iff, hb]
    rfl
  succeeds _ hfits := ⟨_, if_pos hfits⟩

theorem intPack_encodes (i : Int) : Encodes frameLimit (intPack i) (FitsWidth 4 i) 4 :=
  structPack_encodes 4 i

/-- A byte string behind its length. -/
theorem prefixed_encodes (b : Bytes) :
    Encodes frameLimit (do return (← intPack b.length) ++ b) True (4 + b.length) where
  length out hout := by
    cases h : intPack b.length with
    | error e => rw [h] at hout; cases hout
    | ok p =>
      rw [h] at hout
      cases hout
      rw [List.length_append, (intPack_encodes _).length p h]
  sound _ _ := trivial
  succeeds hlt _ := by
    obtain ⟨p, hp⟩ := (intPack_encodes b.length).succeeds (by unfold frameLimit; omega)
      ((fitsWidth_four _).mpr (by omega))
    exact ⟨p ++ b, by rw [hp]; rfl⟩

/-- A byte string can be written behind its length if the length has a prefix. -/
theorem prefixed_isOk_iff (b : Bytes) :
    (∃ out, (do return (← intPack b.length) ++ b : Except Exn Bytes) = .ok out) ↔
      b.length < frameLimit := by
  rw [← fitsWidth_four]
  constructor
  · rintro ⟨out, hout⟩
    cases h : intPack b.length with
    | error e => rw [h] at hout; cases hout
    | ok p => exact (intPack_encodes _).sound p h
  · intro hfits
    exact ⟨_, by rw [intPack, structPack, if_pos hfits]; rfl⟩

/-! ## Texts -/

/-- How many bytes a code point takes. -/
def CodePoint.utf8Length (c : CodePoint) : Nat :=
  if c.val < 0x80 then 1 else if c.val < 0x800 then 2 else if c.val < 0x10000 then 3 else 4

namespace PyStr

def utf8Length (s : PyStr) : Nat := (s.map CodePoint.utf8Length).sum

/-- The text holds no lone surrogate. -/
def NoSurrogates (s : PyStr) : Prop := ∀ c ∈ s, c.isSurrogate = false

instance (s : PyStr) : Decidable s.NoSurrogates := inferInstanceAs (Decidable (∀ c ∈ s, _))

end PyStr

theorem CodePoint.encode_length {c : CodePoint} {b : Bytes} (h : c.encode = .ok b) :
    b.length = c.utf8Length := by
  unfold CodePoint.encode at h
  unfold CodePoint.utf8Length
  dsimp only at h
  split at h
  · next h₁ => cases h; rw [if_pos h₁]; rfl
  split at h
  · next h₁ h₂ => cases h; rw [if_neg h₁, if_pos h₂]; rfl
  split at h
  · cases h
  split at h
  · next h₁ h₂ _ h₃ => cases h; rw [if_neg h₁, if_neg h₂, if_pos h₃]; rfl
  · next h₁ h₂ _ h₃ => cases h; rw [if_neg h₁, if_neg h₂, if_neg h₃]; rfl

theorem isOk_iff_exists {α : Type} (x : Except Exn α) : x.isOk = true ↔ ∃ a, x = .ok a := by
  cases x <;> simp [Except.isOk, Except.toBool]

theorem PyStr.encode_encodes (s : PyStr) :
    Encodes frameLimit (PyStr.encode s) s.NoSurrogates s.utf8Length where
  length b hb := by
    induction s generalizing b with
    | nil => cases hb; rfl
    | cons c s ih =>
      rw [PyStr.encode] at hb
      cases hc : c.encode with
      | error e => rw [hc] at hb; cases hb
      | ok p =>
        cases hs : PyStr.encode s with
        | error e => rw [hc, hs] at hb; cases hb
        | ok q =>
          rw [hc, hs] at hb
          cases hb
          rw [List.length_append, CodePoint.encode_length hc, ih q hs]
          rfl
  sound b hb := (PyStr.encode_isOk_iff s).mp ((isOk_iff_exists _).mpr ⟨b, hb⟩)
  succeeds _ hs := (isOk_iff_exists _).mp ((PyStr.encode_isOk_iff s).mpr hs)

theorem writeText_encodes (s : PyStr) :
    Encodes frameLimit (writeString (some s)) s.NoSurrogates (4 + s.utf8Length) := by
  cases s with
  | nil =>
    have hnull : FitsWidth 4 (-1) := by decide
    exact (intPack_encodes (-1)).congr (iff_of_true hnull fun c hc => by cases hc)
  | cons c s =>
    have hwrite : Encodes frameLimit (writeString (some (c :: s)))
        (PyStr.NoSurrogates (c :: s) ∧ True) (4 + PyStr.utf8Length (c :: s)) := by
      refine (PyStr.encode_encodes (c :: s)).bind (Nat.le_add_left _ _) fun b hb => ?_
      rw [← hb]
      exact prefixed_encodes b
    exact hwrite.congr (and_iff_left trivial)

/-- The texts `write_string` can write. -/
def StringFits : Option PyStr → Prop
  | none => True
  | some s => s.NoSurrogates

instance : (s : Option PyStr) → Decidable (StringFits s)
  | none => inferInstanceAs (Decidable True)
  | some s => inferInstanceAs (Decidable s.NoSurrogates)

/-- The bytes `write_string` writes. -/
def stringLength : Option PyStr → Nat
  | none => 4
  | some s => 4 + s.utf8Length

theorem writeString_encodes (s : Option PyStr) :
    Encodes frameLimit (writeString s) (StringFits s) (stringLength s) := by
  cases s with
  | none => exact (intPack_encodes (-1)).congr (iff_of_true (by decide) trivial)
  | some s => exact writeText_encodes s

/-! ## Parts of requests -/

def bufferLength : Option Bytes → Nat
  | none => 4
  | some b => 4 + b.length

theorem writeBuffer_encodes (b : Option Bytes) :
    Encodes frameLimit (writeBuffer b) True (bufferLength b) := by
  match b with
  | none => exact (intPack_encodes (-1)).congr (by decide)
  | some b => exact prefixed_encodes b

def ACL.Fits (acl : ACL) : Prop :=
  FitsWidth 4 acl.perms ∧ acl.id.scheme.NoSurrogates ∧ acl.id.id.NoSurrogates

instance (acl : ACL) : Decidable acl.Fits := inferInstanceAs (Decidable (_ ∧ _ ∧ _))

def ACL.length (acl : ACL) : Nat :=
  4 + (4 + acl.id.scheme.utf8Length) + (4 + acl.id.id.utf8Length)

def aclsLength (acls : List ACL) : Nat := (acls.map ACL.length).sum

theorem writeAcls_encodes (acls : List ACL) :
    Encodes frameLimit (writeAcls acls) (∀ acl ∈ acls, acl.Fits) (aclsLength acls) := by
  induction acls with
  | nil => exact (Encodes.ret rfl).congr (iff_of_true trivial fun acl h => by cases h)
  | cons acl acls ih =>
    have hsum : aclsLength (acl :: acls) = acl.length + aclsLength acls := rfl
    have hacl : acl.length = 4 + (4 + acl.id.scheme.utf8Length) + (4 + acl.id.id.utf8Length) := rfl
    have hwrite : Encodes frameLimit (writeAcls (acl :: acls))
        (FitsWidth 4 acl.perms ∧ acl.id.scheme.NoSurrogates ∧ acl.id.id.NoSurrogates ∧
          (∀ acl ∈ acls, acl.Fits) ∧ True) (aclsLength (acl :: acls)) := by
      refine (intPack_encodes acl.perms).bind (by omega) fun p hp => ?_
      refine (writeText_encodes acl.id.scheme).bind (by omega) fun q hq => ?_
      refine (writeText_encodes acl.id.id).bind (by omega) fun r hr => ?_
      refine ih.bind (by omega) fun t ht => Encodes.ret ?_
      simp only [List.length_append]
      omega
    refine hwrite.congr ?_
    rw [List.forall_mem_cons]
    unfold ACL.Fits
    tauto

/-! ## Requests -/

def Create.Fits (r : Create) : Prop :=
  r.path.NoSurrogates ∧ FitsWidth 4 r.acl.length ∧ (∀ acl ∈ r.acl, acl.Fits) ∧ FitsWidth 4 r.flags

instance (r : Create) : Decidable r.Fits := inferInstanceAs (Decidable (_ ∧ _ ∧ _ ∧ _))

def Create.length (r : Create) : Nat :=
  4 + r.path.utf8Length + bufferLength r.data + 4 + aclsLength r.acl + 4

theorem Create.serialize_encodes (r : Create) :
    Encodes frameLimit r.serialize r.Fits r.length := by
  have hlength : r.length =
    4 + r.path.utf8Length + bufferLength r.data + 4 + aclsLength r.acl + 4 := rfl
  have hwrite : Encodes frameLimit r.serialize
      (r.path.NoSurrogates ∧ True ∧ FitsWidth 4 r.acl.length ∧ (∀ acl ∈ r.acl, acl.Fits) ∧
        FitsWidth 4 r.flags ∧ True) r.length := by
    refine (writeText_encodes r.path).bind (by omega) fun p hp => ?_
    refine (writeBuffer_encodes r.data).bind (by omega) fun d hd => ?_
    refine (intPack_encodes _).bind (by omega) fun c hc => ?_
    refine (writeAcls_encodes r.acl).bind (by omega) fun a ha => ?_
    refine (intPack_encodes r.flags).bind (by omega) fun f hf => Encodes.ret ?_
    simp only [List.length_append]
    omega
  refine hwrite.congr ?_
  unfold Create.Fits
  tauto

/-- `Delete` and `CheckVersion`: a path and a version. -/
theorem pathVersion_encodes (path : PyStr) (version : Int) :
    Encodes frameLimit (do return (← writeString (some path)) ++ (← intPack version))
      (path.NoSurrogates ∧ FitsWidth 4 version) (4 + path.utf8Length + 4) := by
  have hwrite : Encodes frameLimit (do return (← writeString (some path)) ++ (← intPack version))
      (path.NoSurrogates ∧ FitsWidth 4 version ∧ True) (4 + path.utf8Length + 4) := by
    refine (writeText_encodes path).bind (by omega) fun p hp => ?_
    refine (intPack_encodes version).bind (by omega) fun v hv => Encodes.ret ?_
    rw [List.length_append]
    omega
  refine hwrite.congr ?_
  tauto

/-- `Exists`, `GetData` and the two `GetChildren`: a path and whether there is a watcher. -/
theorem pathWatcher_encodes (path : PyStr) (watcher : Option Watcher) :
    Encodes frameLimit (do return (← writeString (some path)) ++ writeWatcher watcher)
      path.NoSurrogates (4 + path.utf8Length + 1) := by
  have hwrite : Encodes frameLimit (do return (← writeString (some path)) ++ writeWatcher watcher)
      (path.NoSurrogates ∧ True) (4 + path.utf8Length + 1) := by
    refine (writeText_encodes path).bind (by omega) fun p hp => Encodes.ret ?_
    rw [List.length_append, hp]
    rfl
  exact hwrite.congr (and_iff_left trivial)

theorem SetData.serialize_encodes (r : SetData) :
    Encodes frameLimit r.serialize (r.path.NoSurrogates ∧ FitsWidth 4 r.version)
      (4 + r.path.utf8Length + bufferLength r.data + 4) := by
  have hwrite : Encodes frameLimit r.serialize
      (r.path.NoSurrogates ∧ True ∧ FitsWidth 4 r.version ∧ True)
      (4 + r.path.utf8Length + bufferLength r.data + 4) := by
    refine (writeText_encodes r.path).bind (by omega) fun p hp => ?_
    refine (writeBuffer_encodes r.data).bind (by omega) fun d hd => ?_
    refine (intPack_encodes r.version).bind (by omega) fun v hv => Encodes.ret ?_
    simp only [List.length_append]
    omega
  refine hwrite.congr ?_
  tauto

namespace Operation

def Fits : Operation → Prop
  | .create r => r.Fits
  | .delete r => r.path.NoSurrogates ∧ FitsWidth 4 r.version
  | .setData r => r.path.NoSurrogates ∧ FitsWidth 4 r.version
  | .checkVersion r => r.path.NoSurrogates ∧ FitsWidth 4 r.version

instance : (op : Operation) → Decidable op.Fits
  | .create r => inferInstanceAs (Decidable r.Fits)
  | .delete _ | .setData _ | .checkVersion _ => inferInstanceAs (Decidable (_ ∧ _))

def length : Operation → Nat
  | .create r => r.length
  | .delete r => 4 + r.path.utf8Length + 4
  | .setData r => 4 + r.path.utf8Length + bufferLength r.data + 4
  | .checkVersion r => 4 + r.path.utf8Length + 4

theorem serialize_encodes (op : Operation) :
    Encodes frameLimit op.serialize op.Fits op.length := by
  cases op with
  | create r => exact r.serialize_encodes
  | delete r => exact pathVersion_encodes r.path r.version
  | setData r => exact r.serialize_encodes
  | checkVersion r => exact pathVersion_encodes r.path r.version

theorem type_fits (op : Operation) : FitsWidth 4 op.type := by
  cases op <;>
    simp [type, Create.type, Delete.type, SetData.type, CheckVersion.type, FitsWidth]

end Operation

theorem multiHeader_encodes {type : Int} (htype : FitsWidth 4 type) (done : Bool) :
    Encodes frameLimit (multiHeaderSerialize type done (-1)) True 9 := by
  have hwrite : Encodes frameLimit (multiHeaderSerialize type done (-1))
      (FitsWidth 4 type ∧ FitsWidth 4 (-1) ∧ True) 9 := by
    refine (intPack_encodes type).bind (by omega) fun t ht => ?_
    refine (intPack_encodes (-1)).bind (by omega) fun e he => Encodes.ret ?_
    simp only [List.length_append, List.length_singleton]
    omega
  exact hwrite.congr (iff_of_true ⟨htype, by decide, trivial⟩ trivial)

def operationsLength (ops : List Operation) : Nat := (ops.map fun op => 9 + op.length).sum

theorem writeOperations_encodes (ops : List Operation) :
    Encodes frameLimit (writeOperations ops) (∀ op ∈ ops, op.Fits) (operationsLength ops) := by
  induction ops with
  | nil => exact (Encodes.ret rfl).congr (iff_of_true trivial fun op h => by cases h)
  | cons op ops ih =>
    have hsum : operationsLength (op :: ops) = 9 + op.length + operationsLength ops := rfl
    have hwrite : Encodes frameLimit (writeOperations (op :: ops))
        (True ∧ op.Fits ∧ (∀ op ∈ ops, op.Fits) ∧ True) (operationsLength (op :: ops)) := by
      refine (multiHeader_encodes op.type_fits false).bind (by omega) fun h hh => ?_
      refine op.serialize_encodes.bind (by omega) fun b hb => ?_
      refine ih.bind (by omega) fun t ht => Encodes.ret ?_
      simp only [List.length_append]
      omega
    refine hwrite.congr ?_
    rw [List.forall_mem_cons]
    tauto

namespace Request

/-- Each number fits its field, and no text holds a lone surrogate. -/
def Fits : Request → Prop
  | .close => True
  | .create r | .create2 r => r.Fits
  | .delete r => r.path.NoSurrogates ∧ FitsWidth 4 r.version
  | .setData r => r.path.NoSurrogates ∧ FitsWidth 4 r.version
  | .checkVersion r => r.path.NoSurrogates ∧ FitsWidth 4 r.version
  | .exists path _ | .getData path _ | .getChildren path _ | .getChildren2 path _ | .getACL path
  | .sync path => path.NoSurrogates
  | .setACL path acls version =>
    path.NoSurrogates ∧ FitsWidth 4 acls.length ∧ (∀ acl ∈ acls, acl.Fits) ∧ FitsWidth 4 version
  | .transaction operations => ∀ op ∈ operations, op.Fits
  | .reconfig joining leaving newMembers configId =>
    StringFits joining ∧ StringFits leaving ∧ StringFits newMembers ∧ FitsWidth 8 configId
  | .auth authType scheme credential =>
    FitsWidth 4 authType ∧ scheme.NoSurrogates ∧ credential.NoSurrogates

instance : (r : Request) → Decidable r.Fits
  | .close => inferInstanceAs (Decidable True)
  | .create r | .create2 r => inferInstanceAs (Decidable r.Fits)
  | .delete _ | .setData _ | .checkVersion _ => inferInstanceAs (Decidable (_ ∧ _))
  | .exists path _ | .getData path _ | .getChildren path _ | .getChildren2 path _ | .getACL path
  | .sync path => inferInstanceAs (Decidable path.NoSurrogates)
  | .setACL _ _ _ => inferInstanceAs (Decidable (_ ∧ _ ∧ _ ∧ _))
  | .transaction _ => inferInstanceAs (Decidable (∀ op ∈ _, _))
  | .reconfig _ _ _ _ => inferInstanceAs (Decidable (_ ∧ _ ∧ _ ∧ _))
  | .auth _ _ _ => inferInstanceAs (Decidable (_ ∧ _ ∧ _))

/-- The length of the request on the wire, its xid and type apart. -/
def length : Request → Nat
  | .close => 0
  | .create r | .create2 r => r.length
  | .delete r => 4 + r.path.utf8Length + 4
  | .setData r => 4 + r.path.utf8Length + bufferLength r.data + 4
  | .checkVersion r => 4 + r.path.utf8Length + 4
  | .exists path _ | .getData path _ | .getChildren path _ | .getChildren2 path _ =>
    4 + path.utf8Length + 1
  | .getACL path | .sync path => 4 + path.utf8Length
  | .setACL path acls _ => 4 + path.utf8Length + 4 + aclsLength acls + 4
  | .transaction operations => operationsLength operations + 9
  | .reconfig joining leaving newMembers _ =>
    stringLength joining + stringLength leaving + stringLength newMembers + 8
  | .auth _ scheme credential => 4 + (4 + scheme.utf8Length) + (4 + credential.utf8Length)

theorem serialize_encodes (r : Request) : Encodes frameLimit r.serialize r.Fits r.length := by
  cases r with
  | close => exact Encodes.ret rfl
  | create r | create2 r => exact r.serialize_encodes
  | delete r => exact pathVersion_encodes r.path r.version
  | setData r => exact r.serialize_encodes
  | checkVersion r => exact pathVersion_encodes r.path r.version
  | «exists» path watcher | getData path watcher | getChildren path watcher
  | getChildren2 path watcher => exact pathWatcher_encodes path watcher
  | getACL path | sync path => exact writeText_encodes path
  | setACL path acls version =>
    have hwrite : Encodes frameLimit (serialize (.setACL path acls version))
        (path.NoSurrogates ∧ FitsWidth 4 acls.length ∧ (∀ acl ∈ acls, acl.Fits) ∧
          FitsWidth 4 version ∧ True) (4 + path.utf8Length + 4 + aclsLength acls + 4) := by
      refine (writeText_encodes path).bind (by omega) fun p hp => ?_
      refine (intPack_encodes _).bind (by omega) fun c hc => ?_
      refine (writeAcls_encodes acls).bind (by omega) fun a ha => ?_
      refine (intPack_encodes version).bind (by omega) fun v hv => Encodes.ret ?_
      simp only [List.length_append]
      omega
    refine hwrite.congr ?_
    unfold Fits
    tauto
  | transaction operations =>
    have hwrite : Encodes frameLimit (serialize (.transaction operations))
        ((∀ op ∈ operations, op.Fits) ∧ True ∧ True) (operationsLength operations + 9) := by
      refine (writeOperations_encodes operations).bind (by omega) fun o ho => ?_
      refine (multiHeader_encodes (by decide) true).bind (by omega) fun h hh => Encodes.ret ?_
      rw [List.length_append]
      omega
    refine hwrite.congr ?_
    unfold Fits
    tauto
  | reconfig joining leaving newMembers configId =>
    have hwrite : Encodes frameLimit (serialize (.reconfig joining leaving newMembers configId))
        (StringFits joining ∧ StringFits leaving ∧ StringFits newMembers ∧ FitsWidth 8 configId ∧
          True)
        (stringLength joining + stringLength leaving + stringLength newMembers + 8) := by
      refine (writeString_encodes joining).bind (by omega) fun j hj => ?_
      refine (writeString_encodes leaving).bind (by omega) fun l hl => ?_
      refine (writeString_encodes newMembers).bind (by omega) fun n hn => ?_
      refine (structPack_encodes 8 configId).bind (by omega) fun c hc => Encodes.ret ?_
      simp only [List.length_append]
      omega
    refine hwrite.congr ?_
    unfold Fits
    tauto
  | auth authType scheme credential =>
    have hwrite : Encodes frameLimit (serialize (.auth authType scheme credential))
        (FitsWidth 4 authType ∧ scheme.NoSurrogates ∧ credential.NoSurrogates ∧ True)
        (4 + (4 + scheme.utf8Length) + (4 + credential.utf8Length)) := by
      refine (intPack_encodes authType).bind (by omega) fun t ht => ?_
      refine (writeText_encodes scheme).bind (by omega) fun s hs => ?_
      refine (writeText_encodes credential).bind (by omega) fun c hc => Encodes.ret ?_
      simp only [List.length_append]
      omega
    refine hwrite.congr ?_
    unfold Fits
    tauto

/-- What `_submit` can write: the frame, with xid and type, is one that its length prefix can
announce. -/
def Encodable (r : Request) : Prop := r.Fits ∧ 8 + r.length < frameLimit

instance (r : Request) : Decidable r.Encodable := inferInstanceAs (Decidable (_ ∧ _))

theorem type_ne_zero (r : Request) : r.type ≠ 0 := by
  cases r <;> simp [type, Create.type, Delete.type, SetData.type, CheckVersion.type]

theorem type_fits (r : Request) : FitsWidth 4 r.type := by
  cases r <;>
    simp [type, Create.type, Delete.type, SetData.type, CheckVersion.type, FitsWidth]

end Request

theorem ok_bind {α β : Type} (a : α) (f : α → Except Exn β) :
    ((Except.ok a : Except Exn α) >>= f) = f a := rfl

/-- `_submit` gets as far as writing to the socket exactly for the encodable requests. -/
theorem submitBytes_isOk_iff (r : Request) {xid : Int} (hxid : xid ≠ 0) (hfits : FitsWidth 4 xid) :
    (∃ b, submitBytes r xid = .ok b) ↔ r.Encodable := by
  have hfour : 4 < frameLimit := by unfold frameLimit; omega
  obtain ⟨px, hpx⟩ := (intPack_encodes xid).succeeds hfour hfits
  obtain ⟨pt, hpt⟩ := (intPack_encodes r.type).succeeds hfour r.type_fits
  have hserialize := r.serialize_encodes
  have hxid' : packTruthy xid = .ok px := by rw [packTruthy, if_pos hxid, hpx]
  have htype : packTruthy r.type = .ok pt := by rw [packTruthy, if_pos r.type_ne_zero, hpt]
  cases hbody : r.serialize with
  | error e =>
    refine iff_of_false (fun ⟨b, hb⟩ => ?_) fun hr => ?_
    · rw [submitBytes, hxid', htype, hbody, ok_bind, ok_bind] at hb
      cases hb
    · obtain ⟨b, hb⟩ := hserialize.succeeds (by have h := hr.2; omega) hr.1
      rw [hbody] at hb
      cases hb
  | ok body =>
    have hlength : (px ++ pt ++ body).length = 8 + r.length := by
      rw [List.length_append, List.length_append, (intPack_encodes _).length px hpx,
        (intPack_encodes _).length pt hpt, hserialize.length body hbody]
    have hsubmit : submitBytes r xid =
        (do return (← intPack (px ++ pt ++ body).length) ++ (px ++ pt ++ body)) := by
      rw [submitBytes, hxid', htype, hbody, ok_bind, ok_bind, ok_bind]
    rw [Request.Encodable, and_iff_right (hserialize.sound body hbody), ← hlength, hsubmit]
    exact prefixed_isOk_iff (px ++ pt ++ body)

end Kazoo
