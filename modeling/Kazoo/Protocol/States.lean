import Kazoo.Text

/-! States and events: `kazoo/protocol/states.py`. -/

namespace Kazoo

/-- High level connection state values. -/
inductive KazooState
  | SUSPENDED | CONNECTED | LOST
  deriving DecidableEq, Repr

inductive KeeperState
  | AUTH_FAILED | CONNECTED | CONNECTED_RO | CONNECTING | CLOSED | EXPIRED_SESSION
  deriving DecidableEq, Repr

/-- `CLOSED_STATES` of `kazoo/client.py`. -/
def CLOSED_STATES : List KeeperState := [.EXPIRED_SESSION, .AUTH_FAILED, .CLOSED]

/-- The states in which a session is established. -/
def CONNECTED_STATES : List KeeperState := [.CONNECTED, .CONNECTED_RO]

inductive EventType
  | CREATED | DELETED | CHANGED | CHILD | NONE
  deriving DecidableEq, Repr

def CREATED_EVENT : Int := 1
def DELETED_EVENT : Int := 2
def CHANGED_EVENT : Int := 3
def CHILD_EVENT : Int := 4

def EVENT_TYPE_MAP (type : Int) : Option EventType :=
  if type = -1 then some .NONE
  else if type = CREATED_EVENT then some .CREATED
  else if type = DELETED_EVENT then some .DELETED
  else if type = CHANGED_EVENT then some .CHANGED
  else if type = CHILD_EVENT then some .CHILD
  else none

structure WatchedEvent where
  type : EventType
  state : KeeperState
  path : Option PyStr
  deriving DecidableEq, Repr

structure ZnodeStat where
  czxid : Int
  mzxid : Int
  ctime : Int
  mtime : Int
  version : Int
  cversion : Int
  aversion : Int
  ephemeralOwner : Int
  dataLength : Int
  numChildren : Int
  pzxid : Int
  deriving DecidableEq, Repr

/-- Only `CONNECTING` is neither a connected nor a closed state. -/
theorem KeeperState.cases (st : KeeperState) :
    st ∈ CONNECTED_STATES ∨ st ∈ CLOSED_STATES ∨ st = .CONNECTING := by
  cases st <;> decide

theorem notMem_CLOSED_of_mem_CONNECTED {st : KeeperState} (h : st ∈ CONNECTED_STATES) :
    st ∉ CLOSED_STATES := by
  revert h
  cases st <;> decide

end Kazoo
