import Kazoo.Protocol.RoundTrip

/-!
# Replies — what the server writes is what the client reads

The wire format of the replies, and `deserialize` as its inverse at any offset of any buffer.  Only
the reply of `Exists` has a value of its own for something else: a stat whose `czxid` is -1.
-/

namespace Kazoo

/-! ## The connect response -/

structure Connect where
  protocolVersion : Int
  lastZxidSeen : Int
  timeOut : Int
  sessionId : Int
  passwd : Option Bytes
  readOnly : Bool
  deriving DecidableEq, Repr

/-- `Connect.deserialize`: a buffer that ends before the read-only byte is one of an older server. -/
def Connect.deserialize (bytes : Bytes) (offset : Nat) : Except Exn (Connect × Nat) := do
  let protoVersion ← intUnpackFrom bytes offset
  let timeout ← intUnpackFrom bytes (offset + 4)
  let sessionId ← longUnpackFrom bytes (offset + 8)
  let (password, offset) ← readBuffer bytes (offset + 16)
  match byteUnpackFrom bytes offset with
  | .ok readOnly => return (⟨protoVersion, 0, timeout, sessionId, password, readOnly == 1⟩, offset + 1)
  | .error _ => return (⟨protoVersion, 0, timeout, sessionId, password, false⟩, offset)

/-! ## The wire format -/

def ReplyHeader.wire (header : ReplyHeader) : Except Exn Bytes := do
  let xid ← intPack header.xid
  let zxid ← longPack header.zxid
  return xid ++ zxid ++ (← intPack header.err)

/-- A watch event; `path` is not null. -/
def wireWatch (type state : Int) (path : PyStr) : Except Exn Bytes := do
  let type ← intPack type
  let state ← intPack state
  return type ++ state ++ (← wireText path)

structure ConnectResponse where
  protocolVersion : Int
  timeOut : Int
  sessionId : Int
  passwd : Option Bytes
  -- older servers do not send the byte
  readOnly : Option Bool

namespace ConnectResponse

def wire (r : ConnectResponse) : Except Exn Bytes := do
  let protocolVersion ← intPack r.protocolVersion
  let timeOut ← intPack r.timeOut
  let sessionId ← longPack r.sessionId
  let passwd ← writeBuffer r.passwd
  return protocolVersion ++ timeOut ++ sessionId ++ passwd ++
    (r.readOnly.map fun readOnly => if readOnly then (1 : UInt8) else 0).toList

def value (r : ConnectResponse) : Connect :=
  ⟨r.protocolVersion, 0, r.timeOut, r.sessionId, r.passwd, r.readOnly.getD false⟩

end ConnectResponse

def wireAcl (acl : ACL) : Except Exn Bytes := do
  let perms ← intPack acl.perms
  let scheme ← wireText acl.id.scheme
  return perms ++ scheme ++ (← wireText acl.id.id)

/-- What follows the header of a reply. -/
inductive Body
  | path (path : PyStr)
  | stat (stat : ZnodeStat)
  | dataStat (data : Option Bytes) (stat : ZnodeStat)
  | aclStat (acls : List ACL) (stat : ZnodeStat)
  | children (children : List PyStr)
  | childrenStat (children : List PyStr) (stat : ZnodeStat)
  | pathStat (path : PyStr) (stat : ZnodeStat)

namespace Body

def wire : Body → Except Exn Bytes
  | .path p => wireText p
  | .stat st => wireStat st
  | .dataStat data st => do return (← writeBuffer data) ++ (← wireStat st)
  | .aclStat acls st => do
    let count ← intPack acls.length
    let acls ← writeMany wireAcl acls
    return count ++ acls ++ (← wireStat st)
  | .children names => do
    let count ← intPack names.length
    return count ++ (← writeMany wireText names)
  | .childrenStat names st => do
    let count ← intPack names.length
    let names ← writeMany wireText names
    return count ++ names ++ (← wireStat st)
  | .pathStat p st => do return (← wireText p) ++ (← wireStat st)

/-- The requests whose replies have such a body. -/
def Answers : Body → Request → Prop
  | .path _, .create _ | .path _, .sync _ => True
  | .stat _, .exists _ _ | .stat _, .setData _ | .stat _, .setACL _ _ _ => True
  | .dataStat _ _, .getData _ _ | .dataStat _ _, .reconfig _ _ _ _ => True
  | .aclStat _ _, .getACL _ => True
  | .children _, .getChildren _ _ => True
  | .childrenStat _ _, .getChildren2 _ _ => True
  | .pathStat _ _, .create2 _ => True
  | _, _ => False

instance : (body : Body) → (request : Request) → Decidable (body.Answers request) := by
  intro body request
  cases body <;> cases request <;> unfold Answers <;> infer_instance

def response : Body → Response
  | .path p => .str (some p)
  | .stat st => .stat st
  | .dataStat data st => .data data st
  | .aclStat acls st =>
    .acls (acls.map fun acl => ⟨acl.perms, some acl.id.scheme, some acl.id.id⟩) (some st)
  | .children names => .children (names.map some)
  | .childrenStat names st => .childrenStat (names.map some) (some st)
  | .pathStat p st => .pathStat (some p) st

/-- To `Exists`, a stat without a `czxid` says that there is no node. -/
def SaysMissing : Body → Request → Prop
  | .stat st, .exists _ _ => st.czxid = -1
  | _, _ => False

instance : (body : Body) → (request : Request) → Decidable (body.SaysMissing request) := by
  intro body request
  cases body <;> cases request <;> unfold SaysMissing <;> infer_instance

end Body

/-! ## Reading it back -/

variable {buffer b : Bytes} {offset : Nat}

theorem ReplyHeader.deserialize_wire {header : ReplyHeader} (hb : header.wire = .ok b)
    (h : Located buffer offset b) :
    ReplyHeader.deserialize buffer offset = .ok (header, offset + b.length) := by
  obtain ⟨b₁, h₁, hb⟩ := bind_eq_ok hb
  obtain ⟨b₂, h₂, hb⟩ := bind_eq_ok hb
  obtain ⟨b₃, h₃, hb⟩ := bind_eq_ok hb
  cases hb
  simp only [Located.append_iff, List.length_append, intPack_length h₁, longPack_length h₂,
    intPack_length h₃] at h ⊢
  obtain ⟨⟨l₁, l₂⟩, l₃⟩ := h
  rw [deserialize, intUnpackFrom_located h₁ l₁, longUnpackFrom_located h₂ l₂,
    intUnpackFrom_located h₃ l₃]
  rfl

theorem Watch.deserialize_wire {type state : Int} {path : PyStr}
    (hb : wireWatch type state path = .ok b) (h : Located buffer offset b) :
    Watch.deserialize buffer offset = .ok (⟨type, state, some path⟩, offset + b.length) := by
  obtain ⟨b₁, h₁, hb⟩ := bind_eq_ok hb
  obtain ⟨b₂, h₂, hb⟩ := bind_eq_ok hb
  obtain ⟨b₃, h₃, hb⟩ := bind_eq_ok hb
  cases hb
  simp only [Located.append_iff, List.length_append, intPack_length h₁, intPack_length h₂] at h ⊢
  obtain ⟨⟨l₁, l₂⟩, l₃⟩ := h
  rw [deserialize, intUnpackFrom_located h₁ l₁, intUnpackFrom_located h₂ l₂]
  dsimp only [bind, Except.bind]
  rw [readString_wireText _ _ _ _ h₃ l₃]
  simp only [Nat.add_assoc]
  rfl

/-- The byte that decides between the two forms is the last of the response, or is missing because
the buffer ends. -/
theorem Connect.deserialize_wire {r : ConnectResponse} (hb : r.wire = .ok b)
    (h : Located buffer offset b)
    (hlast : r.readOnly = none → buffer.length = offset + b.length) :
    Connect.deserialize buffer offset = .ok (r.value, offset + b.length) := by
  obtain ⟨b₁, h₁, hb⟩ := bind_eq_ok hb
  obtain ⟨b₂, h₂, hb⟩ := bind_eq_ok hb
  obtain ⟨b₃, h₃, hb⟩ := bind_eq_ok hb
  obtain ⟨b₄, h₄, hb⟩ := bind_eq_ok hb
  cases hb
  simp only [Located.append_iff, List.length_append, intPack_length h₁, intPack_length h₂,
    longPack_length h₃] at h hlast ⊢
  obtain ⟨⟨⟨⟨l₁, l₂⟩, l₃⟩, l₄⟩, l₅⟩ := h
  rw [deserialize, intUnpackFrom_located h₁ l₁, intUnpackFrom_located h₂ l₂,
    longUnpackFrom_located h₃ l₃]
  dsimp only [bind, Except.bind]
  rw [readBuffer_writeBuffer _ _ _ _ h₄ l₄]
  dsimp only
  have hvalue : ∀ readOnly, r.readOnly.getD false = readOnly →
      r.value = ⟨r.protocolVersion, 0, r.timeOut, r.sessionId, r.passwd, readOnly⟩ := by
    rintro _ rfl
    rfl
  cases hreadOnly : r.readOnly with
  | none =>
    rw [hreadOnly] at hlast hvalue
    have hend : buffer[offset + (4 + 4 + 8) + b₄.length]? = none := by
      rw [List.getElem?_eq_none_iff, hlast rfl]
      simp [Nat.add_assoc]
    rw [byteUnpackFrom, hend, hvalue false rfl]
    simp only [Nat.add_assoc]
    rfl
  | some readOnly =>
    rw [hreadOnly, ← Nat.add_assoc] at l₅
    rw [hreadOnly] at hvalue
    rw [byteUnpackFrom_located l₅, hvalue readOnly rfl]
    cases readOnly <;> (simp only [Nat.add_assoc]; rfl)

theorem readAcl_wireAcl (acl : ACL) :
    ReadsBack (wireAcl acl) readAcl ⟨acl.perms, some acl.id.scheme, some acl.id.id⟩ := by
  intro b buffer offset hb h
  obtain ⟨b₁, h₁, hb⟩ := bind_eq_ok hb
  obtain ⟨b₂, h₂, hb⟩ := bind_eq_ok hb
  obtain ⟨b₃, h₃, hb⟩ := bind_eq_ok hb
  cases hb
  simp only [Located.append_iff, List.length_append, intPack_length h₁, ← Nat.add_assoc] at h ⊢
  obtain ⟨⟨l₁, l₂⟩, l₃⟩ := h
  rw [readAcl, intUnpackFrom_located h₁ l₁]
  dsimp only [bind, Except.bind]
  rw [readString_wireText _ _ _ _ h₂ l₂]
  dsimp only
  rw [readString_wireText _ _ _ _ h₃ l₃]
  rfl

theorem intPack_natCast_ne {n : Nat} : (n : Int) ≠ -1 := by omega

theorem Body.deserialize_wire {body : Body} {request : Request} (hanswers : body.Answers request)
    (hb : body.wire = .ok b) (h : Located buffer offset b) :
    request.deserialize buffer offset =
      .ok (if body.SaysMissing request then .none else body.response) := by
  cases body with
  | path p =>
    cases request <;> try exact hanswers.elim
    all_goals
      rw [Request.deserialize, readString_wireText _ _ _ _ hb h]
      rfl
  | stat st =>
    have hstat := (statUnpackFrom_wireStat hb h).1
    cases request <;> try exact hanswers.elim
    case «exists» path watcher =>
      rw [Request.deserialize, hstat]
      by_cases hczxid : st.czxid = -1
      · rw [if_pos (show SaysMissing (.stat st) (.exists path watcher) from hczxid)]
        simp [bind, Except.bind, pure, Except.pure, hczxid]
      · rw [if_neg (show ¬ SaysMissing (.stat st) (.exists path watcher) from hczxid)]
        simp [bind, Except.bind, pure, Except.pure, hczxid, response]
    all_goals
      rw [Request.deserialize, hstat]
      rfl
  | dataStat data st =>
    obtain ⟨b₁, h₁, hb⟩ := bind_eq_ok hb
    obtain ⟨b₂, h₂, hb⟩ := bind_eq_ok hb
    cases hb
    obtain ⟨l₁, l₂⟩ := Located.append_iff.mp h
    cases request <;> try exact hanswers.elim
    all_goals
      rw [Request.deserialize, readBuffer_writeBuffer _ _ _ _ h₁ l₁]
      dsimp only [bind, Except.bind]
      rw [(statUnpackFrom_wireStat h₂ l₂).1]
      rfl
  | aclStat acls st =>
    obtain ⟨b₁, h₁, hb⟩ := bind_eq_ok hb
    obtain ⟨b₂, h₂, hb⟩ := bind_eq_ok hb
    obtain ⟨b₃, h₃, hb⟩ := bind_eq_ok hb
    cases hb
    simp only [Located.append_iff, List.length_append, intPack_length h₁, ← Nat.add_assoc] at h
    obtain ⟨⟨l₁, l₂⟩, l₃⟩ := h
    cases request <;> try exact hanswers.elim
    have hmany := readMany_writeMany readAcl_wireAcl h₂ l₂
    rw [Request.deserialize, intUnpackFrom_located h₁ l₁]
    dsimp only [bind, Except.bind]
    rw [if_neg intPack_natCast_ne, Int.toNat_natCast, hmany]
    dsimp only
    rw [(statUnpackFrom_wireStat h₃ l₃).1]
    rfl
  | children names =>
    obtain ⟨b₁, h₁, hb⟩ := bind_eq_ok hb
    obtain ⟨b₂, h₂, hb⟩ := bind_eq_ok hb
    cases hb
    simp only [Located.append_iff, intPack_length h₁] at h
    obtain ⟨l₁, l₂⟩ := h
    cases request <;> try exact hanswers.elim
    have hmany := readMany_writeMany readString_wireText h₂ l₂
    rw [Request.deserialize, intUnpackFrom_located h₁ l₁]
    dsimp only [bind, Except.bind]
    rw [if_neg intPack_natCast_ne, Int.toNat_natCast, hmany]
    rfl
  | childrenStat names st =>
    obtain ⟨b₁, h₁, hb⟩ := bind_eq_ok hb
    obtain ⟨b₂, h₂, hb⟩ := bind_eq_ok hb
    obtain ⟨b₃, h₃, hb⟩ := bind_eq_ok hb
    cases hb
    simp only [Located.append_iff, List.length_append, intPack_length h₁, ← Nat.add_assoc] at h
    obtain ⟨⟨l₁, l₂⟩, l₃⟩ := h
    cases request <;> try exact hanswers.elim
    have hmany := readMany_writeMany readString_wireText h₂ l₂
    rw [Request.deserialize, intUnpackFrom_located h₁ l₁]
    dsimp only [bind, Except.bind]
    rw [if_neg intPack_natCast_ne, Int.toNat_natCast, hmany]
    dsimp only
    rw [(statUnpackFrom_wireStat h₃ l₃).1]
    rfl
  | pathStat p st =>
    obtain ⟨b₁, h₁, hb⟩ := bind_eq_ok hb
    obtain ⟨b₂, h₂, hb⟩ := bind_eq_ok hb
    cases hb
    obtain ⟨l₁, l₂⟩ := Located.append_iff.mp h
    cases request <;> try exact hanswers.elim
    rw [Request.deserialize, readString_wireText _ _ _ _ h₁ l₁]
    dsimp only [bind, Except.bind]
    rw [(statUnpackFrom_wireStat h₂ l₂).1]
    rfl

/-- Whatever stands before and behind it, every reply is read as it was written, and where the
reader says how far it has come, that is the end of the reply.  A stat without a `czxid` is read by
`Exists` as no node. -/
theorem replies_are_read (before after : Bytes) :
    (∀ header b, ReplyHeader.wire header = .ok b →
      ReplyHeader.deserialize (before ++ b ++ after) before.length =
        .ok (header, before.length + b.length)) ∧
    (∀ type state path b, wireWatch type state path = .ok b →
      Watch.deserialize (before ++ b ++ after) before.length =
        .ok (⟨type, state, some path⟩, before.length + b.length)) ∧
    (∀ r b, ConnectResponse.wire r = .ok b → (r.readOnly = none → after = []) →
      Connect.deserialize (before ++ b ++ after) before.length =
        .ok (r.value, before.length + b.length)) ∧
    ∀ body request b, Body.Answers body request → body.wire = .ok b →
      request.deserialize (before ++ b ++ after) before.length =
        .ok (if body.SaysMissing request then .none else body.response) := by
  refine ⟨fun header b hb => ReplyHeader.deserialize_wire hb (.here _ _ _),
    fun type state path b hb => Watch.deserialize_wire hb (.here _ _ _),
    fun r b hb hlast => Connect.deserialize_wire hb (.here _ _ _) fun hnone => ?_,
    fun body request b hanswers hb => Body.deserialize_wire hanswers hb (.here _ _ _)⟩
  rw [hlast hnone, List.append_nil, List.length_append]

def newNode : ZnodeStat := ⟨5, 5, 1000, 1000, 0, 0, 0, 0, 3, 0, 5⟩

def openAcl : Body := .aclStat [⟨31, ⟨str "world", str "anyone"⟩⟩] newNode

theorem replies_are_read_acl :
    ∃ b, openAcl.wire = .ok b ∧
      (Request.getACL (str "/a")).deserialize ([1, 2] ++ b ++ [3]) 2 =
        .ok (.acls [⟨31, some (str "world"), some (str "anyone")⟩] (some newNode)) :=
  ⟨_, rfl, (replies_are_read [1, 2] [3]).2.2.2 openAcl (.getACL (str "/a")) _ trivial rfl⟩

theorem exists_reads_no_node :
    ¬ ∀ (before after : Bytes) (body : Body) (request : Request) (b : Bytes),
      body.Answers request → body.wire = .ok b →
      request.deserialize (before ++ b ++ after) before.length = .ok body.response := by
  intro h
  have hread := h [] [] (.stat { newNode with czxid := -1 }) (.exists (str "/a") none) _ trivial rfl
  revert hread
  decide +kernel

end Kazoo
