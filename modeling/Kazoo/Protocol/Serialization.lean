import Kazoo.Protocol.Struct

/-!
# Requests and replies on the wire

`kazoo/protocol/serialization.py`.  A request class is a structure with the fields of its
namedtuple; `Request` is what the client can hold in its queue.
-/

namespace Kazoo

/-- The identity of a watch function. -/
abbrev Watcher := Nat

structure Id where
  scheme : PyStr
  id : PyStr
  deriving DecidableEq, Repr

structure ACL where
  perms : Int
  id : Id
  deriving DecidableEq, Repr

/-! ## Reading -/

/-- `read_string`.  The slice may be shorter than the length that was read. -/
def readString (buffer : Bytes) (offset : Nat) : Except Exn (Option PyStr × Nat) := do
  let length ← intUnpackFrom buffer offset
  let offset := offset + 4
  if length < 0 then return (none, offset)
  else
    let s ← Bytes.decode ((buffer.drop offset).take length.toNat)
    return (some s, offset + length.toNat)

/-- `read_buffer`. -/
def readBuffer (bytes : Bytes) (offset : Nat) : Except Exn (Option Bytes × Nat) := do
  let length ← intUnpackFrom bytes offset
  let offset := offset + 4
  if length < 0 then return (none, offset)
  else return (some ((bytes.drop offset).take length.toNat), offset + length.toNat)

/-- An `ACL` as it is read: a null string field is `None`. -/
structure ReadACL where
  perms : Int
  scheme : Option PyStr
  id : Option PyStr
  deriving DecidableEq, Repr

/-- `read_acl`. -/
def readAcl (bytes : Bytes) (offset : Nat) : Except Exn (ReadACL × Nat) := do
  let perms ← intUnpackFrom bytes offset
  let (scheme, offset) ← readString bytes (offset + 4)
  let (id, offset) ← readString bytes offset
  return (⟨perms, scheme, id⟩, offset)

/-- `for c in range(count)`: `count` values read one after the other. -/
def readMany {α : Type} (read : Bytes → Nat → Except Exn (α × Nat)) (bytes : Bytes) :
    Nat → Nat → Except Exn (List α × Nat)
  | 0, offset => .ok ([], offset)
  | count + 1, offset => do
    let (x, offset) ← read bytes offset
    let (xs, offset) ← readMany read bytes count offset
    return (x :: xs, offset)

/-! ## Writing -/

/-- `write_string`: the empty string is written like `None`. -/
def writeString : Option PyStr → Except Exn Bytes
  | none => intPack (-1)
  | some [] => intPack (-1)
  | some (c :: s) => do
    let utf8 ← PyStr.encode (c :: s)
    return (← intPack utf8.length) ++ utf8

/-- `write_buffer`. -/
def writeBuffer : Option Bytes → Except Exn Bytes
  | none => intPack (-1)
  | some b => do return (← intPack b.length) ++ b

/-- The loop over `self.acl` in `Create.serialize`, `Create2.serialize` and `SetACL.serialize`. -/
def writeAcls : List ACL → Except Exn Bytes
  | [] => .ok []
  | acl :: acls => do
    let perms ← intPack acl.perms
    let scheme ← writeString (some acl.id.scheme)
    let id ← writeString (some acl.id.id)
    return perms ++ scheme ++ id ++ (← writeAcls acls)

/-- `[1 if self.watcher else 0]`. -/
def writeWatcher (watcher : Option Watcher) : Bytes := [if watcher.isSome then 1 else 0]

/-! ## Request classes -/

structure Create where
  path : PyStr
  data : Option Bytes
  acl : List ACL
  flags : Int
  deriving DecidableEq, Repr

def Create.type : Int := 1

def Create.serialize (r : Create) : Except Exn Bytes := do
  let path ← writeString (some r.path)
  let data ← writeBuffer r.data
  let count ← intPack r.acl.length
  let acls ← writeAcls r.acl
  return path ++ data ++ count ++ acls ++ (← intPack r.flags)

structure Delete where
  path : PyStr
  version : Int
  deriving DecidableEq, Repr

def Delete.type : Int := 2

def Delete.serialize (r : Delete) : Except Exn Bytes := do
  return (← writeString (some r.path)) ++ (← intPack r.version)

structure SetData where
  path : PyStr
  data : Option Bytes
  version : Int
  deriving DecidableEq, Repr

def SetData.type : Int := 5

def SetData.serialize (r : SetData) : Except Exn Bytes := do
  let path ← writeString (some r.path)
  let data ← writeBuffer r.data
  return path ++ data ++ (← intPack r.version)

structure CheckVersion where
  path : PyStr
  version : Int
  deriving DecidableEq, Repr

def CheckVersion.type : Int := 13

def CheckVersion.serialize (r : CheckVersion) : Except Exn Bytes := do
  return (← writeString (some r.path)) ++ (← intPack r.version)

/-- What `TransactionRequest` adds to its list. -/
inductive Operation
  | create (r : Create)
  | delete (r : Delete)
  | setData (r : SetData)
  | checkVersion (r : CheckVersion)
  deriving DecidableEq, Repr

def Operation.type : Operation → Int
  | .create _ => Create.type
  | .delete _ => Delete.type
  | .setData _ => SetData.type
  | .checkVersion _ => CheckVersion.type

def Operation.serialize : Operation → Except Exn Bytes
  | .create r => r.serialize
  | .delete r => r.serialize
  | .setData r => r.serialize
  | .checkVersion r => r.serialize

/-- `MultiHeader(type, done, err).serialize()`. -/
def multiHeaderSerialize (type : Int) (done : Bool) (err : Int) : Except Exn Bytes := do
  return (← intPack type) ++ [if done then 1 else 0] ++ (← intPack err)

/-- The loop of `Transaction.serialize`. -/
def writeOperations : List Operation → Except Exn Bytes
  | [] => .ok []
  | op :: ops => do
    let header ← multiHeaderSerialize op.type false (-1)
    let body ← op.serialize
    return header ++ body ++ (← writeOperations ops)

/-- The request classes the client sends through its queue. -/
inductive Request
  | close
  | create (r : Create)
  | create2 (r : Create)
  | delete (r : Delete)
  | exists (path : PyStr) (watcher : Option Watcher)
  | getData (path : PyStr) (watcher : Option Watcher)
  | setData (r : SetData)
  | getACL (path : PyStr)
  | setACL (path : PyStr) (acls : List ACL) (version : Int)
  | getChildren (path : PyStr) (watcher : Option Watcher)
  | getChildren2 (path : PyStr) (watcher : Option Watcher)
  | sync (path : PyStr)
  | checkVersion (r : CheckVersion)
  | transaction (operations : List Operation)
  | reconfig (joining leaving newMembers : Option PyStr) (configId : Int)
  | auth (authType : Int) (scheme auth : PyStr)
  deriving DecidableEq, Repr

namespace Request

def type : Request → Int
  | .close => -11
  | .create _ => Create.type
  | .delete _ => Delete.type
  | .exists _ _ => 3
  | .getData _ _ => 4
  | .setData _ => SetData.type
  | .getACL _ => 6
  | .setACL _ _ _ => 7
  | .getChildren _ _ => 8
  | .sync _ => 9
  | .getChildren2 _ _ => 12
  | .checkVersion _ => CheckVersion.type
  | .transaction _ => 14
  | .create2 _ => 15
  | .reconfig _ _ _ _ => 16
  | .auth _ _ _ => 100

def serialize : Request → Except Exn Bytes
  | .close => .ok []
  | .create r => r.serialize
  | .create2 r => r.serialize
  | .delete r => r.serialize
  | .exists path watcher => do return (← writeString (some path)) ++ writeWatcher watcher
  | .getData path watcher => do return (← writeString (some path)) ++ writeWatcher watcher
  | .setData r => r.serialize
  | .getACL path => writeString (some path)
  | .setACL path acls version => do
    let path ← writeString (some path)
    let count ← intPack acls.length
    let acls ← writeAcls acls
    return path ++ count ++ acls ++ (← intPack version)
  | .getChildren path watcher => do return (← writeString (some path)) ++ writeWatcher watcher
  | .getChildren2 path watcher => do return (← writeString (some path)) ++ writeWatcher watcher
  | .sync path => writeString (some path)
  | .checkVersion r => r.serialize
  | .transaction operations => do
    return (← writeOperations operations) ++ (← multiHeaderSerialize (-1) true (-1))
  | .reconfig joining leaving newMembers configId => do
    let joining ← writeString joining
    let leaving ← writeString leaving
    let newMembers ← writeString newMembers
    return joining ++ leaving ++ newMembers ++ (← longPack configId)
  | .auth authType scheme credential => do
    let authType ← intPack authType
    let scheme ← writeString (some scheme)
    return authType ++ scheme ++ (← writeString (some credential))

/-- `getattr(request, "watcher", None)`. -/
def watcher : Request → Option Watcher
  | .exists _ watcher | .getData _ watcher | .getChildren _ watcher | .getChildren2 _ watcher =>
    watcher
  | _ => none

/-- `request.path`, read for the requests that carry a watcher. -/
def path : Request → PyStr
  | .exists path _ | .getData path _ | .getChildren path _ | .getChildren2 path _ => path
  | _ => []

/-- `isinstance(request, (GetChildren, GetChildren2))`. -/
def isGetChildren : Request → Bool
  | .getChildren _ _ | .getChildren2 _ _ => true
  | _ => false

/-- `bool(request)`: `Close` is an empty tuple, every other request has fields. -/
def truthy : Request → Bool
  | .close => false
  | _ => true

end Request

/-! ## Replies -/

/-- One result of `Transaction.deserialize`. -/
inductive OperationResult
  | path (path : PyStr)
  | ack
  | stat (stat : ZnodeStat)
  | error (e : Exn)
  deriving DecidableEq, Repr

/-- What an async result is set to. -/
inductive Response
  | none
  | true
  | str (s : Option PyStr)
  | stat (stat : ZnodeStat)
  | data (data : Option Bytes) (stat : ZnodeStat)
  | acls (acls : List ReadACL) (stat : Option ZnodeStat)
  | children (children : List (Option PyStr))
  | childrenStat (children : List (Option PyStr)) (stat : Option ZnodeStat)
  | pathStat (path : Option PyStr) (stat : ZnodeStat)
  | results (results : List OperationResult)
  deriving DecidableEq, Repr

structure MultiHeader where
  type : Option Int
  done : Bool
  err : Option Int
  deriving DecidableEq, Repr

/-- `MultiHeader.deserialize`, format `!iBi`. -/
def MultiHeader.deserialize (bytes : Bytes) (offset : Nat) : Except Exn (MultiHeader × Nat) := do
  let t ← intUnpackFrom bytes offset
  let done ← byteUnpackFrom bytes (offset + 4)
  let err ← intUnpackFrom bytes (offset + 5)
  return (⟨some t, done == 1, some err⟩, offset + 9)

/-- The body of the loop of `Transaction.deserialize` under `header`: the value left in `response`
and the new offset.  A type the chain of comparisons does not know keeps the response before it. -/
def operationDeserialize (header : MultiHeader) (response : Option OperationResult) (bytes : Bytes)
    (offset : Nat) : Except Exn (Option OperationResult × Nat) := do
  if header.type = some Create.type then
    let (path, offset) ← readString bytes offset
    return (path.map .path, offset)
  else if header.type = some Delete.type then return (some .ack, offset)
  else if header.type = some SetData.type then
    return (some (.stat (← statUnpackFrom bytes offset)), offset + statSize)
  else if header.type = some CheckVersion.type then return (some .ack, offset)
  else if header.type = some (-1) then
    let err ← intUnpackFrom bytes offset
    return (some (.error (← EXCEPTIONS err)), offset + 4)
  else return (response, offset)

/-- `if response`: a null or empty path is dropped. -/
def OperationResult.truthy : OperationResult → Bool
  | .path p => !p.isEmpty
  | _ => true

/-- The loop of `Transaction.deserialize`.  Every turn reads a header of nine bytes, so a loop of
more turns than the buffer has bytes has run off its end, where `unpack_from` raises. -/
def operationsDeserialize (bytes : Bytes) : Nat → MultiHeader → Option OperationResult → Nat →
    List OperationResult → Except Exn (List OperationResult)
  | 0, _, _, _, _ => .error .structError
  | fuel + 1, header, response, offset, results => do
    if header.done then return results
    else
      let (response, offset) ← operationDeserialize header response bytes offset
      let results := results ++ (response.filter OperationResult.truthy).toList
      let (header, offset) ← MultiHeader.deserialize bytes offset
      operationsDeserialize bytes fuel header response offset results

/-- `Transaction.deserialize`. -/
def transactionDeserialize (bytes : Bytes) (offset : Nat) : Except Exn (List OperationResult) :=
  operationsDeserialize bytes (bytes.length + 2) ⟨Option.none, false, Option.none⟩ Option.none offset []

/-- `request.deserialize(buffer, offset)`.  `Close`, `CheckVersion` and `Auth` have no such
method. -/
def Request.deserialize (request : Request) (buffer : Bytes) (offset : Nat) :
    Except Exn Response :=
  match request with
  | .create _ | .sync _ => do return .str (← readString buffer offset).1
  | .create2 _ => do
    let (path, offset) ← readString buffer offset
    return .pathStat path (← statUnpackFrom buffer offset)
  | .delete _ => .ok .true
  | .exists _ _ => do
    let stat ← statUnpackFrom buffer offset
    return if stat.czxid ≠ -1 then .stat stat else .none
  | .setData _ | .setACL _ _ _ => do return .stat (← statUnpackFrom buffer offset)
  | .getData _ _ | .reconfig _ _ _ _ => do
    let (data, offset) ← readBuffer buffer offset
    return .data data (← statUnpackFrom buffer offset)
  | .getACL _ => do
    let count ← intUnpackFrom buffer offset
    if count = -1 then return .acls [] Option.none
    let (acls, offset) ← readMany readAcl buffer count.toNat (offset + 4)
    return .acls acls (some (← statUnpackFrom buffer offset))
  | .getChildren _ _ => do
    let count ← intUnpackFrom buffer offset
    if count = -1 then return .children []
    return .children (← readMany readString buffer count.toNat (offset + 4)).1
  | .getChildren2 _ _ => do
    let count ← intUnpackFrom buffer offset
    if count = -1 then return .childrenStat [] Option.none
    let (children, offset) ← readMany readString buffer count.toNat (offset + 4)
    return .childrenStat children (some (← statUnpackFrom buffer offset))
  | .transaction _ => do return .results (← transactionDeserialize buffer offset)
  | .close | .checkVersion _ | .auth _ _ _ => .error .attributeError

structure Watch where
  type : Int
  state : Int
  path : Option PyStr
  deriving DecidableEq, Repr

/-- `Watch.deserialize`. -/
def Watch.deserialize (bytes : Bytes) (offset : Nat) : Except Exn (Watch × Nat) := do
  let type ← intUnpackFrom bytes offset
  let state ← intUnpackFrom bytes (offset + 4)
  let (path, offset) ← readString bytes (offset + 8)
  return (⟨type, state, path⟩, offset)

structure ReplyHeader where
  xid : Int
  zxid : Int
  err : Int
  deriving DecidableEq, Repr

/-- `ReplyHeader.deserialize`, format `!iqi`. -/
def ReplyHeader.deserialize (bytes : Bytes) (offset : Nat) : Except Exn (ReplyHeader × Nat) := do
  let xid ← intUnpackFrom bytes offset
  let zxid ← longUnpackFrom bytes (offset + 4)
  let err ← intUnpackFrom bytes (offset + 12)
  return (⟨xid, zxid, err⟩, offset + 16)

end Kazoo
