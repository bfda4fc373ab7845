import Kazoo.Lib.Machine
import Kazoo.Lib.Replay
import Kazoo.Protocol.Connection

/-!
# A session's watches, on both ends of one connection

The server keeps the nodes and the watches it has armed for the session, and sends replies and
watch events over one ordered stream.  The client reads the stream with `_read_socket`.  Any number
of messages may be under way in either direction.

A creation or a deletion of a node is the change of the node itself and then the change of the
children of its parent.
-/

namespace Kazoo

inductive WatchKind
  | data | child
  deriving DecidableEq, Repr

def Client.table (c : Client) : WatchKind → WatchTable
  | .data => c.dataWatchers
  | .child => c.childWatchers

/-! ## ZooKeeper's watch rules -/

/-- The watch that the server arms when it carries out a request. -/
def armedBy (nodes : List PyStr) : Request → Option (WatchKind × PyStr)
  | .exists path (some _) => some (.data, path)
  | .getData path (some _) => if path ∈ nodes then some (.data, path) else none
  | .getChildren path (some _) | .getChildren2 path (some _) =>
    if path ∈ nodes then some (.child, path) else none
  | _ => none

/-- The kinds of watches that an event of this type fires. -/
def EventType.fires : EventType → WatchKind → Bool
  | .CREATED, .data | .CHANGED, .data | .DELETED, _ | .CHILD, .child => true
  | _, _ => false

/-- Whether a change of this type can happen to the node. -/
def EventType.Possible (nodes : List PyStr) (path : PyStr) : EventType → Prop
  | .CREATED => path ∉ nodes
  | .DELETED | .CHANGED | .CHILD => path ∈ nodes
  | .NONE => False

instance (nodes : List PyStr) (path : PyStr) :
    (type : EventType) → Decidable (type.Possible nodes path)
  | .CREATED => inferInstanceAs (Decidable (path ∉ nodes))
  | .DELETED | .CHANGED | .CHILD => inferInstanceAs (Decidable (path ∈ nodes))
  | .NONE => inferInstanceAs (Decidable False)

def EventType.change (nodes : List PyStr) (path : PyStr) : EventType → List PyStr
  | .CREATED => path :: nodes
  | .DELETED => nodes.filter (· ≠ path)
  | _ => nodes

/-- One reply has armed a watch that has not fired since.  `reply` is its place in the stream. -/
structure Arming where
  kind : WatchKind
  path : PyStr
  reply : Nat
  deriving DecidableEq, Repr

def Arming.firedBy (a : Arming) (type : EventType) (path : PyStr) : Bool :=
  type.fires a.kind && a.path = path

/-! ## Messages to the client -/

/-- The answer to a request.  What the server says of a watched request without an error is
well formed. -/
structure Reply where
  entry : PendingEntry
  header : ReplyHeader
  buffer : Bytes
  offset : Nat
  xid_eq : header.xid = entry.xid
  decodes : entry.request.watcher.isSome → header.err = 0 →
    (entry.request.deserialize buffer offset).isOk = true

/-- A watch event as it is on the wire. -/
structure Event where
  type : EventType
  path : PyStr
  header : ReplyHeader
  buffer : Bytes
  offset : Nat
  xid_eq : header.xid = WATCH_XID
  decodes : ∃ code state next, EVENT_TYPE_MAP code = some type ∧
    Watch.deserialize buffer offset = .ok (⟨code, state, some path⟩, next)

inductive Message
  | reply (r : Reply)
  -- an event, with the armings it has taken from the server's tables
  | event (e : Event) (fired : List Arming)

def Message.header : Message → ReplyHeader
  | .reply r => r.header
  | .event e _ => e.header

def Message.buffer : Message → Bytes
  | .reply r => r.buffer
  | .event e _ => e.buffer

def Message.offset : Message → Nat
  | .reply r => r.offset
  | .event e _ => e.offset

def Message.read (c : Client) (m : Message) : Client × ReadResult :=
  c.readSocket m.header m.buffer m.offset

def Message.entry? : Message → Option PendingEntry
  | .reply r => some r.entry
  | .event _ _ => none

/-- The server has carried out the request, on a node that is there or on one that is not. -/
def Reply.carriedOut (r : Reply) : Bool := r.header.err = 0 || r.header.err = noNodeErrorCode

/-! ## The two ends -/

/-- A client whose connection has just been made. -/
structure Start where
  client : Client
  nodes : List PyStr
  running : client.stopped = false
  nothingPending : client.pending = []
  noWatchers : ∀ kind, client.table kind = ∅

/-- However a session ends, its watchers do not stay for the next. -/
theorem Client.callbackEnd_table {react : Listeners} (state : KeeperState) (c : Client)
    (kind : WatchKind) : (callbackEnd react state c).table kind = ∅ := by
  unfold callbackEnd
  split <;> cases kind <;> rfl

structure Session where
  client : Client
  xid : Int
  -- requests that the server has not answered, oldest first
  toServer : List PendingEntry
  nodes : List PyStr
  armed : List Arming
  -- everything the server has sent, oldest first, of which the client has read the first `seen`
  messages : List Message
  seen : Nat

namespace Session

def start (st : Start) : Session where
  client := st.client
  xid := 0
  toServer := []
  nodes := st.nodes
  armed := []
  messages := []
  seen := 0

/-- A caller of the API leaves a request in `_queue`. -/
def call (request : Request) (a : AsyncId) (s : Session) : Session :=
  { s with client := { s.client with queue := s.client.queue ++ [⟨.request request, some a⟩] } }

/-- `_send_request` moves the head of `_queue` to the wire and to `_pending`. -/
def send (request : Request) (a : AsyncId) (s : Session) : Session :=
  let xid := if request.type = 100 then AUTH_XID else nextXid s.xid
  let e : PendingEntry := ⟨request, some a, xid⟩
  { s with
    client := { s.client with
      queue := s.client.queue.tail
      pending := s.client.pending ++ [e] }
    xid := if request.type = 100 then s.xid else nextXid s.xid
    toServer := s.toServer ++ [e] }

/-- The server takes the next request and answers it. -/
def answer (r : Reply) (s : Session) : Session :=
  let arming := (armedBy s.nodes r.entry.request).map fun (kind, path) =>
    ⟨kind, path, s.messages.length⟩
  { s with
    toServer := s.toServer.tail
    messages := s.messages ++ [.reply r]
    armed := if r.carriedOut then s.armed ++ arming.toList else s.armed }

/-- A node changes.  If that fires a watch, then one event is sent, for both kinds. -/
def change (e : Event) (s : Session) : Session :=
  let fired := s.armed.filter (·.firedBy e.type e.path)
  { s with
    nodes := e.type.change s.nodes e.path
    armed := s.armed.filter fun a => !a.firedBy e.type e.path
    messages := if fired = [] then s.messages else s.messages ++ [.event e fired] }

/-- `_read_socket` takes the next message off the stream. -/
def deliver (s : Session) : Session :=
  match s.messages[s.seen]? with
  | some m => { s with client := (m.read s.client).1, seen := s.seen + 1 }
  | none => s

inductive Act
  | call (request : Request) (a : AsyncId)
  | send (request : Request) (a : AsyncId)
  | answer (r : Reply)
  | change (e : Event)
  | deliver

/-- The server answers in order, and says of a watched node whether it is there. -/
def Answers (s : Session) (r : Reply) : Prop :=
  s.toServer.head? = some r.entry ∧
    (r.entry.request.watcher.isSome →
      (r.header.err = 0 → r.entry.request.path ∈ s.nodes) ∧
      (r.header.err = noNodeErrorCode → r.entry.request.path ∉ s.nodes))

/-- The client stays connected: what it reads neither raises nor ends the connection. -/
def enabled (s : Session) : Act → Prop
  | .call request _ => request ≠ .close
  | .send request a => s.client.queue.head? = some ⟨.request request, some a⟩ ∧ request ≠ .close
  | .answer r => s.Answers r
  | .change e => e.type.Possible s.nodes e.path
  | .deliver => ∃ m, s.messages[s.seen]? = some m ∧ (m.read s.client).2 = .none

instance decidableEnabled (s : Session) : (act : Act) → Decidable (s.enabled act)
  | .call request _ => inferInstanceAs (Decidable (request ≠ .close))
  | .send _ _ => inferInstanceAs (Decidable (_ ∧ _))
  | .answer _ => inferInstanceAs (Decidable (_ ∧ (_ → (_ → _) ∧ (_ → _))))
  | .change e => inferInstanceAs (Decidable (e.type.Possible s.nodes e.path))
  | .deliver =>
    match h : s.messages[s.seen]? with
    | some m =>
      if hread : (m.read s.client).2 = .none then .isTrue ⟨m, h, hread⟩
      else .isFalse fun ⟨_, h', hread'⟩ => hread (Option.some.inj (h.symm.trans h') ▸ hread')
    | none => .isFalse fun ⟨_, h', _⟩ => nomatch h.symm.trans h'

def post (s : Session) : Act → Session
  | .call request a => s.call request a
  | .send request a => s.send request a
  | .answer r => s.answer r
  | .change e => s.change e
  | .deliver => s.deliver

end Session

/-- All interleavings of the client, the server and everyone else who changes nodes. -/
def session (st : Start) : Machine Session Session.Act where
  init := .start st
  enabled := Session.enabled
  post := Session.post

instance (st : Start) (s : Session) (act : Session.Act) : Decidable ((session st).enabled s act) :=
  Session.decidableEnabled s act

/-! ## Events, as the client takes them -/

/-- What an event of this type does to a running client. -/
def Client.fire (c : Client) (type : EventType) (path : PyStr) : Client :=
  let popped kind := if type.fires kind then (c.table kind).watchers path else []
  let left kind := if type.fires kind then (c.table kind).pop path else c.table kind
  let ev : WatchedEvent := ⟨type, c.clientState, some (c.unchroot path)⟩
  { c with
    dataWatchers := left .data
    childWatchers := left .child
    dispatched := c.dispatched ++ (popped .data ++ popped .child).map fun watch => (watch, ev) }

theorem Client.fire_table (c : Client) (type : EventType) (path : PyStr) (kind : WatchKind) :
    (c.fire type path).table kind =
      if type.fires kind then (c.table kind).pop path else c.table kind := by
  cases kind <;> rfl

theorem Client.fire_watchers (c : Client) (type : EventType) (path : PyStr) (kind : WatchKind)
    (path' : PyStr) :
    ((c.fire type path).table kind).watchers path' =
      if type.fires kind = true ∧ path' = path then [] else (c.table kind).watchers path' := by
  rw [fire_table]
  by_cases hfires : type.fires kind = true
  · by_cases hpath : path' = path
    · rw [if_pos hfires, if_pos ⟨hfires, hpath⟩, hpath, WatchTable.watchers_pop_self]
    · rw [if_pos hfires, if_neg fun h => hpath h.2, WatchTable.watchers_pop_ne _ hpath]
  · rw [if_neg hfires, if_neg fun h => hfires h.1]

/-- The tables that `_read_watch_event` pops are those of the watches that the server has fired. -/
theorem Client.readSocket_event {c : Client} (hrunning : c.stopped = false) (e : Event) :
    c.readSocket e.header e.buffer e.offset = (c.fire e.type e.path, .none) := by
  obtain ⟨type, path, header, buffer, offset, hxid, code, state, next, hcode, hdecode⟩ := e
  have hread : c.readSocket header buffer offset = c.handleWatch ⟨code, state, some path⟩ := by
    unfold readSocket
    rw [hxid, if_neg (by decide), if_neg (by decide), if_pos rfl]
    unfold readWatchEvent
    rw [hdecode]
  rw [hread]
  unfold EVENT_TYPE_MAP at hcode
  split at hcode
  · next h =>
    cases hcode
    subst h
    simp [handleWatch, fire, EventType.fires, table, CREATED_EVENT, CHANGED_EVENT, DELETED_EVENT,
      CHILD_EVENT]
  split at hcode
  · next h =>
    cases hcode
    subst h
    simp [handleWatch, dispatchWatchers, unchrootPath, popWatchers, fire, EventType.fires, table,
      hrunning, unchroot, CREATED_EVENT]
  split at hcode
  · next h =>
    cases hcode
    subst h
    simp [handleWatch, dispatchWatchers, unchrootPath, popWatchers, fire, EventType.fires, table,
      hrunning, unchroot, CREATED_EVENT, CHANGED_EVENT, DELETED_EVENT]
  split at hcode
  · next h =>
    cases hcode
    subst h
    simp [handleWatch, dispatchWatchers, unchrootPath, popWatchers, fire, EventType.fires, table,
      hrunning, unchroot, CREATED_EVENT, CHANGED_EVENT]
  split at hcode
  · next h =>
    cases hcode
    subst h
    simp [handleWatch, dispatchWatchers, unchrootPath, popWatchers, fire, EventType.fires, table,
      hrunning, unchroot, CREATED_EVENT, CHANGED_EVENT, DELETED_EVENT, CHILD_EVENT]
  · cases hcode

end Kazoo
