import Kazoo.Lib.Machine
import Kazoo.Lib.OneShot
import Kazoo.Protocol.Paths
import Kazoo.WatchSession
import Mathlib.Data.List.DropRight
import Mathlib.Logic.Function.Basic

/-!
# A cache of a subtree

`TreeCache` of `kazoo/recipe/cache.py`, with its three queues: the completions of the client's
requests, the calls of the watchers, and the tasks of the background thread.  A watch event and a
task are processed in one step each.  The server answers over one ordered stream.
-/

namespace Kazoo

/-! ## The nodes of the server -/

/-- The path of a node on the server, by its components. -/
abbrev ZnodePath := List PyStr

structure TreeZnode where
  data : Bytes
  stat : ZnodeStat
  deriving DecidableEq, Repr

/-- The stat without what depends on the children. -/
def ZnodeStat.own (stat : ZnodeStat) : ZnodeStat :=
  { stat with cversion := 0, numChildren := 0, pzxid := 0 }

abbrev ZnodeTree := List (ZnodePath × TreeZnode)

inductive TreeChange
  | create (key : ZnodePath) (data : Bytes) (time owner : Int)
  | set (key : ZnodePath) (data : Bytes) (time : Int)
  | delete (key : ZnodePath)
  deriving DecidableEq, Repr

namespace ZnodeTree

def znode? (t : ZnodeTree) (key : ZnodePath) : Option TreeZnode :=
  (t.find? (·.1 = key)).map Prod.snd

def names (t : ZnodeTree) (key : ZnodePath) : List PyStr :=
  t.filterMap fun x => if x.1.dropLast = key then x.1.getLast? else none

def modify (t : ZnodeTree) (key : ZnodePath) (f : TreeZnode → TreeZnode) : ZnodeTree :=
  t.map fun x => if x.1 = key then (x.1, f x.2) else x

/-- The stat of a node whose children change. -/
def childChanged (zxid children : Int) (node : TreeZnode) : TreeZnode :=
  { node with stat := { node.stat with
      cversion := node.stat.cversion + 1
      numChildren := node.stat.numChildren + children
      pzxid := zxid } }

def newZnode (zxid : Int) (data : Bytes) (time owner : Int) : TreeZnode where
  data := data
  stat := ⟨zxid, zxid, time, time, 0, 0, 0, owner, data.length, 0, zxid⟩

def setData (zxid : Int) (data : Bytes) (time : Int) (node : TreeZnode) : TreeZnode where
  data := data
  stat := { node.stat with
    mzxid := zxid, mtime := time, version := node.stat.version + 1, dataLength := data.length }

/-- The server carries out the change. -/
def Allows (t : ZnodeTree) : TreeChange → Prop
  | .create key _ _ _ =>
    (∃ name ∈ key.getLast?, ValidName name) ∧ t.znode? key = none ∧ t.znode? key.dropLast ≠ none
  | .set key _ _ => t.znode? key ≠ none
  | .delete key => key ≠ [] ∧ t.znode? key ≠ none ∧ t.names key = []

instance (t : ZnodeTree) (c : TreeChange) : Decidable (t.Allows c) := by
  cases c <;> unfold Allows <;> infer_instance

def result (t : ZnodeTree) (zxid : Int) : TreeChange → ZnodeTree
  | .create key data time owner =>
    (key, newZnode zxid data time owner) :: t.modify key.dropLast (childChanged zxid 1)
  | .set key data time => t.modify key (setData zxid data time)
  | .delete key => ZnodeTree.modify (t.filter (·.1 ≠ key)) key.dropLast (childChanged zxid (-1))

end ZnodeTree

/-! ## The objects of the cache -/

inductive TreeNodeState
  | pending | live | dead
  deriving DecidableEq, Repr

structure NodeData where
  path : PyStr
  data : Bytes
  stat : ZnodeStat
  deriving DecidableEq, Repr

structure TreeNode where
  path : PyStr
  parent : Option Nat
  -- in the order of the dictionary
  children : List (PyStr × Nat)
  state : TreeNodeState
  data : Option NodeData
  deriving DecidableEq, Repr

inductive TreeEvent
  | nodeAdded (data : Option NodeData)
  | nodeUpdated (data : Option NodeData)
  | nodeRemoved (data : Option NodeData)
  | connectionSuspended
  | connectionReconnected
  | connectionLost
  | initialized
  deriving DecidableEq, Repr

/-- The `method_name` of `_call_client`. -/
inductive NodeMethod
  | get | getChildren | «exists»
  deriving DecidableEq, Repr

inductive NodeResult
  | got (data : Bytes) (stat : ZnodeStat)
  | listed (children : List PyStr)
  | existing (stat : Option ZnodeStat)
  -- `NoNodeError`
  | noNode
  -- another exception
  | failed
  deriving DecidableEq, Repr

/-- The watch that the server has armed with the answer, and the table into which the client enters
the watcher. -/
def NodeResult.watches : NodeResult → Option WatchKind
  | .got _ _ | .existing _ => some .data
  | .listed _ => some .child
  | .noNode | .failed => none

/-- The async result of a node, with the number of the message that has completed it. -/
structure NodeReply where
  node : Nat
  result : NodeResult
  stamp : Nat
  deriving DecidableEq, Repr

/-- A message of the server to the client. -/
inductive CacheMessage
  | reply (r : NodeReply)
  | event (type : EventType) (key : ZnodePath) (stamp : Nat)
  deriving DecidableEq, Repr

/-- A call of `_process_watch`. -/
structure WatchCall where
  node : Nat
  type : EventType
  stamp : Nat
  deriving DecidableEq, Repr

/-- What `_in_background` puts on the queue. -/
inductive CacheTask
  | created
  | reconnected
  | result (r : NodeReply)
  | publish (e : TreeEvent)
  | stop
  deriving DecidableEq, Repr

inductive TreeCacheState
  | latent | started | closed
  deriving DecidableEq, Repr

/-- The thread that calls `start`. -/
inductive StartStage
  | absent
  -- in `client.ensure_path`
  | ensuring
  | returned
  deriving DecidableEq, Repr

/-- The client and the path of the cache. -/
structure TreeCaches where
  chroot : PyStr
  path : PyStr
  accepted : ∃ wire, prefixRoot chroot path false = .ok wire

namespace TreeCaches

/-- `_prefix_root` of the path, by its components. -/
def key (C : TreeCaches) (path : PyStr) : ZnodePath :=
  components slash C.chroot ++ components slash path

theorem prefixRoot_key (C : TreeCaches) {path wire : PyStr}
    (h : prefixRoot C.chroot path false = .ok wire) : wire = absolute (C.key path) [] :=
  (prefixRoot_eq_ok_iff.mp h).2.symm

end TreeCaches

structure TreeCaching where
  -- the server: its nodes, the last transaction, the watches of the session, the messages it has sent
  tree : ZnodeTree
  zxid : Int
  armed : WatchKind → ZnodePath → Bool
  sent : Nat
  -- the connection
  requests : List (Nat × NodeMethod)
  wire : List CacheMessage
  -- the client: the nodes whose `_process_watch` is in its tables, each under its own path
  keeperState : KeeperState
  state : KazooState
  watchers : WatchKind → List Nat
  completions : List NodeReply
  callbacks : List WatchCall
  -- the cache
  nodes : Nat → TreeNode
  size : Nat
  cacheState : TreeCacheState
  start : StartStage
  listening : Bool
  outstandingOps : Int
  isInitialized : Bool
  tasks : List CacheTask
  stopped : Bool
  -- what the listeners have been called with, the last one first
  published : List TreeEvent

inductive TreeCacheAct
  | change (c : TreeChange)
  | answer
  -- the client reads a message, and the callbacks of an event are called in this order
  | read (order : List Nat)
  | complete
  | callback
  | background
  | session (st : KeeperState)
  | start
  | startReturns
  | close
  deriving DecidableEq, Repr

namespace TreeCaching

variable (C : TreeCaches)

/-! ## The server -/

def key (s : TreeCaching) (n : Nat) : ZnodePath := C.key (s.nodes n).path

/-- A change of the node fires the watches for it, with one event to the session. -/
def fire (s : TreeCaching) (type : EventType) (key : ZnodePath) : TreeCaching :=
  if s.armed .data key && type.fires .data || s.armed .child key && type.fires .child then
    { s with
      wire := s.wire ++ [.event type key s.sent]
      sent := s.sent + 1
      armed := fun kind k => if k = key && type.fires kind then false else s.armed kind k }
  else s

def change (s : TreeCaching) (c : TreeChange) : TreeCaching :=
  let s := { s with tree := s.tree.result (s.zxid + 1) c, zxid := s.zxid + 1 }
  match c with
  | .create key _ _ _ => (s.fire .CREATED key).fire .CHILD key.dropLast
  | .set key _ _ => s.fire .CHANGED key
  | .delete key => (s.fire .DELETED key).fire .CHILD key.dropLast

def serve (s : TreeCaching) (key : ZnodePath) : NodeMethod → NodeResult
  | .get => ((s.tree.znode? key).map fun node => .got node.data node.stat).getD .noNode
  | .getChildren => ((s.tree.znode? key).map fun _ => .listed (s.tree.names key)).getD .noNode
  | .exists => .existing ((s.tree.znode? key).map TreeZnode.stat)

/-- The next request is carried out and answered. -/
def answer (s : TreeCaching) : TreeCaching :=
  match s.requests with
  | [] => s
  | (n, method) :: requests =>
    let result := s.serve (s.key C n) method
    { s with
      requests := requests
      wire := s.wire ++ [.reply ⟨n, result, s.sent⟩]
      sent := s.sent + 1
      armed := fun kind k => s.armed kind k || (result.watches = some kind && k = s.key C n) }

/-! ## The client -/

/-- `_read_response` enters the watcher, and `_read_watch_event` takes out the watchers of the path. -/
def read (s : TreeCaching) (order : List Nat) : TreeCaching :=
  match s.wire with
  | [] => s
  | .reply r :: wire =>
    { s with
      wire := wire
      watchers := fun kind =>
        if r.result.watches = some kind ∧ r.node ∉ s.watchers kind then r.node :: s.watchers kind
        else s.watchers kind
      completions := s.completions ++ [r] }
  | .event type key stamp :: wire =>
    { s with
      wire := wire
      watchers := fun kind =>
        if type.fires kind then (s.watchers kind).filter (s.key C · ≠ key) else s.watchers kind
      callbacks := s.callbacks ++ order.map fun n => ⟨n, type, stamp⟩ }

/-- The watchers that the next message takes out of the tables. -/
def called (s : TreeCaching) : List Nat :=
  match s.wire with
  | .event type key _ :: _ =>
    (if type.fires .data then (s.watchers .data).filter (s.key C · = key) else []) ++
      (if type.fires .child then (s.watchers .child).filter (s.key C · = key) else [])
  | _ => []

def connected (s : TreeCaching) : Prop := s.keeperState ∈ CONNECTED_STATES

instance (s : TreeCaching) : Decidable s.connected :=
  inferInstanceAs (Decidable (s.keeperState ∈ CONNECTED_STATES))

/-- `_notify_pending`; with the connection the server loses the watches of the session. -/
def notifyPending (s : TreeCaching) : TreeCaching :=
  let sent := s.wire.filterMap fun
    | .reply r => some r.node
    | .event _ _ _ => none
  { s with
    armed := fun _ _ => false
    requests := []
    wire := []
    completions := s.completions ++ (sent ++ s.requests.map Prod.fst).map fun n => ⟨n, .failed, 0⟩ }

/-- `_reset_watchers` of the client. -/
def clientResetWatchers (s : TreeCaching) : TreeCaching :=
  { s with
    watchers := fun _ => []
    callbacks :=
      s.callbacks ++ (s.watchers .child ++ s.watchers .data).map fun n => ⟨n, .NONE, 0⟩ }

/-! ## The cache -/

def setNode (s : TreeCaching) (n : Nat) (node : TreeNode) : TreeCaching :=
  { s with nodes := Function.update s.nodes n node }

def inBackground (s : TreeCaching) (task : CacheTask) : TreeCaching :=
  { s with tasks := s.tasks ++ [task] }

def publishEvent (s : TreeCaching) (e : TreeEvent) : TreeCaching :=
  if s.cacheState = .closed then s else s.inBackground (.publish e)

/-- `_call_client`; a client that is closed fails the request at once. -/
def callClient (s : TreeCaching) (n : Nat) (method : NodeMethod) : TreeCaching :=
  let s := { s with outstandingOps := s.outstandingOps + 1 }
  if s.keeperState ∈ CLOSED_STATES then
    { s with completions := s.completions ++ [⟨n, .failed, 0⟩] }
  else { s with requests := s.requests ++ [(n, method)] }

/-- `_refresh`, and `on_created`. -/
def refresh (s : TreeCaching) (n : Nat) : TreeCaching :=
  (s.callClient n .get).callClient n .getChildren

/-- `on_reconnected`; the depth of the tree is less than the number of its nodes. -/
def onReconnected : Nat → TreeCaching → Nat → TreeCaching
  | 0, s, _ => s
  | fuel + 1, s, n =>
    (s.nodes n).children.foldl (fun s child => onReconnected fuel s child.2) (s.refresh n)

/-- `_reset_watchers` of the node. -/
def resetWatchers (s : TreeCaching) (n : Nat) : TreeCaching :=
  { s with watchers := fun kind => (s.watchers kind).filter (· ≠ n) }

/-- The end of `on_deleted`: the root waits for its node to come back, another node leaves its
parent. -/
def leave (s : TreeCaching) (n : Nat) : TreeCaching :=
  match (s.nodes n).parent with
  | none => s.callClient n .exists
  | some p =>
    let parent := s.nodes p
    let child := (s.nodes n).path.drop (parent.path.length + 1)
    if parent.children.lookup child = some n then
      (s.setNode p { parent with children := parent.children.filter (·.1 ≠ child) }).resetWatchers n
    else s

/-- The node is dead, and has been live with the data. -/
def die (s : TreeCaching) (n : Nat) (old : TreeNode) : TreeCaching :=
  let s := s.setNode n { s.nodes n with state := .dead }
  if old.state = .live then s.publishEvent (.nodeRemoved old.data) else s

/-- `on_deleted`; the depth of the tree is less than the number of its nodes. -/
def onDeleted : Nat → TreeCaching → Nat → TreeCaching
  | 0, s, _ => s
  | fuel + 1, s, n =>
    let old := s.nodes n
    let s := s.setNode n { old with children := [], data := none }
    let s := old.children.foldl (fun s child => onDeleted fuel s child.2) s
    if s.cacheState = .closed then s.resetWatchers n else (s.die n old).leave n

def processWatch (s : TreeCaching) (n : Nat) : EventType → TreeCaching
  -- on another node the assertion fails
  | .CREATED => if (s.nodes n).parent = none then s.refresh n else s
  | .DELETED => onDeleted s.size s n
  | .CHANGED => s.callClient n .get
  | .CHILD => s.callClient n .getChildren
  | .NONE => s

def newChild (s : TreeCaching) (n : Nat) (name : PyStr) : TreeCaching :=
  let node := s.nodes n
  let s := s.setNode s.size ⟨join node.path [name], some n, [], .pending, none⟩
  { s.setNode n { node with children := node.children ++ [(name, s.size)] } with size := s.size + 1 }

/-- A name of the list that `get_children` returns. -/
def addChild (s : TreeCaching) (n : Nat) (name : PyStr) : TreeCaching :=
  if name ∈ (s.nodes n).children.map Prod.fst then s else (s.newChild n name).refresh s.size

/-- `_process_result` up to the count of the operations. -/
def processReply (s : TreeCaching) (n : Nat) : NodeResult → TreeCaching
  | .existing (some _) =>
    let node := s.nodes n
    (s.setNode n { node with state := if node.state = .dead then .pending else node.state }).refresh n
  | .listed children => (sortedNames children).foldl (fun s name => s.addChild n name) s
  | .noNode => onDeleted s.size s n
  | .got data stat =>
    let node := s.nodes n
    let nodeData : NodeData := ⟨node.path, data, stat⟩
    let s := s.setNode n { node with data := some nodeData, state := .live }
    if node.state = .live then
      if node.data.map (·.stat.mzxid) = some stat.mzxid then s
      else s.publishEvent (.nodeUpdated (some nodeData))
    else s.publishEvent (.nodeAdded (some nodeData))
  | .existing none | .failed => s

def processResult (s : TreeCaching) (r : NodeReply) : TreeCaching :=
  let s := s.processReply r.node r.result
  let s := { s with outstandingOps := s.outstandingOps - 1 }
  if s.outstandingOps = 0 ∧ s.isInitialized = false then
    { s with isInitialized := true }.publishEvent .initialized
  else s

/-- `_session_watcher`. -/
def sessionWatcher (s : TreeCaching) : KazooState → TreeCaching
  | .SUSPENDED => s.publishEvent .connectionSuspended
  | .CONNECTED => (s.inBackground .reconnected).publishEvent .connectionReconnected
  | .LOST => { s with isInitialized := false }.publishEvent .connectionLost

def makeStateChange (s : TreeCaching) (state : KazooState) : TreeCaching :=
  if s.state = state then s
  else
    let s := { s with state := state }
    if s.listening then s.sessionWatcher state else s

/-- `_session_callback` of the client, with another state than the current one. -/
def sessionCallback (s : TreeCaching) (st : KeeperState) : TreeCaching :=
  let closedState := s.keeperState ∈ CLOSED_STATES
  let s := { s with keeperState := st }
  if closedState ∧ st = .CONNECTING then s
  else if st ∈ CONNECTED_STATES then s.makeStateChange .CONNECTED
  else if st ∈ CLOSED_STATES then (s.makeStateChange .LOST).notifyPending.clientResetWatchers
  else (s.notifyPending.makeStateChange .SUSPENDED).clientResetWatchers

/-- The next task of the background thread. -/
def doTask (s : TreeCaching) : CacheTask → TreeCaching
  | .created => s.refresh 0
  | .reconnected => onReconnected s.size s 0
  | .result r => s.processResult r
  | .publish e => { s with published := e :: s.published }
  | .stop => { s with stopped := true }

def close (s : TreeCaching) : TreeCaching :=
  let s := { s.inBackground .stop with cacheState := .closed, listening := false }
  onDeleted s.size s 0

/-! ## The steps -/

def enabled (s : TreeCaching) : TreeCacheAct → Prop
  | .change c => s.tree.Allows c
  | .answer => s.connected ∧ s.requests ≠ []
  | .read order => s.connected ∧ s.wire ≠ [] ∧ order.Perm (s.called C)
  | .complete => s.completions ≠ []
  | .callback => s.callbacks ≠ []
  | .background => s.tasks ≠ [] ∧ s.stopped = false
  | .session st =>
    st ≠ s.keeperState ∧ ¬ (s.keeperState ∈ CONNECTED_STATES ∧ st ∈ CONNECTED_STATES)
  | .start => s.cacheState = .latent
  | .startReturns => s.start = .ensuring
  | .close => s.cacheState = .started

instance (s : TreeCaching) (act : TreeCacheAct) : Decidable (s.enabled C act) := by
  cases act <;> unfold enabled <;> infer_instance

def post (s : TreeCaching) : TreeCacheAct → TreeCaching
  | .change c => s.change c
  | .answer => s.answer C
  | .read order => s.read C order
  | .complete =>
    match s.completions with
    | [] => s
    | r :: completions => { s with completions := completions }.inBackground (.result r)
  | .callback =>
    match s.callbacks with
    | [] => s
    | call :: callbacks => { s with callbacks := callbacks }.processWatch call.node call.type
  | .background =>
    match s.tasks with
    | [] => s
    | task :: tasks => { s with tasks := tasks }.doTask task
  | .session st => s.sessionCallback st
  | .start => { s with cacheState := .started, listening := true, start := .ensuring }
  | .startReturns =>
    let s := { s with start := .returned }
    if s.connected then s.inBackground .created else s
  | .close => s.close

/-- A latent cache of a client that has not been started, and a server with nothing but `/`. -/
def init : TreeCaching where
  tree := [([], ZnodeTree.newZnode 0 [] 0 0)]
  zxid := 0
  armed := fun _ _ => false
  sent := 1
  requests := []
  wire := []
  keeperState := .CLOSED
  state := .LOST
  watchers := fun _ => []
  completions := []
  callbacks := []
  nodes := fun _ => ⟨C.path, none, [], .pending, none⟩
  size := 1
  cacheState := .latent
  start := .absent
  listening := false
  outstandingOps := 0
  isInitialized := false
  tasks := []
  stopped := false
  published := []

/-! ## Lookups -/

/-- The loop of `_find_node`. -/
def descend (s : TreeCaching) : List PyStr → Nat → Option Nat
  | [], n => some n
  | name :: names, n => ((s.nodes n).children.lookup name).bind (descend s names)

/-- `s.strip("/")`. -/
def stripSlash (path : PyStr) : PyStr := (lstripSlash path).rdropWhile (· == slash)

def findNode (s : TreeCaching) (path : PyStr) : Except Exn (Option Nat) :=
  if C.path.isPrefixOf path then
    let stripedPath := stripSlash (path.drop C.path.length)
    .ok (s.descend ((stripedPath.splitOn slash).filter (· ≠ [])) 0)
  else .error .valueError

def getData (s : TreeCaching) (path : PyStr) (default : Option NodeData) :
    Except Exn (Option NodeData) := do
  return match ← s.findNode C path with
    | none => default
    | some n => (s.nodes n).data

def getChildren (s : TreeCaching) (path : PyStr) (default : Option (List PyStr)) :
    Except Exn (Option (List PyStr)) := do
  return match ← s.findNode C path with
    | none => default
    | some n => some ((s.nodes n).children.map Prod.fst)

end TreeCaching

/-- All interleavings of the server, the client, the watchers and the background thread. -/
def treeCaching (C : TreeCaches) : Machine TreeCaching TreeCacheAct where
  init := .init C
  enabled := TreeCaching.enabled C
  post := TreeCaching.post C

instance (C : TreeCaches) (s : TreeCaching) (act : TreeCacheAct) :
    Decidable ((treeCaching C).enabled s act) :=
  inferInstanceAs (Decidable (s.enabled C act))

end Kazoo
