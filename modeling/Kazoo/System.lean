import Kazoo.Lib.Machine
import Kazoo.Protocol.Connection

/-!
# The client as a system of threads

One connection thread runs `zk_loop`; any number of user threads are inside `_call`, `stop`,
`start_async` and `close`.  A step is what one thread does between two accesses to the state the
threads share: the deques, the socket pair, the events.  The calls in progress are kept by the
place they have come to (`checked`, `appended`, `marked`, ..), and everything the environment
chooses (socket errors, messages, host resolution) is part of the action.

`_session_callback` is three steps of the connection thread, because `_call` may append to `_queue`
between any two of them: up to `_notify_pending`, `_notify_pending`, and what follows it.
-/

namespace Kazoo

/-- Where the connection thread goes on when `_session_callback` returns. -/
inductive After
  -- back into `_connect_loop`, for the next host or the next retry
  | retry
  -- to `self._xid = 0` in `_connect_attempt`
  | attempt
  -- to the authentication in `_connect`
  | authenticate
  -- from `_read_socket` back into the loop of `_connect_attempt`
  | serve
  -- out of `_connect_attempt` with `STOP_CONNECTING`
  | stop
  -- out of the `finally` clause of `zk_loop`
  | exit
  deriving DecidableEq, Repr

/-- Where the connection thread is. -/
inductive Routine
  -- `_connection_routine` is `None`
  | absent
  -- spawned, and nothing run yet
  | spawned
  -- in `retry(self._connect_loop, retry)`, between two attempts
  | retrying
  -- in `_connect_attempt`, before `self._xid = 0`
  | attempting
  -- in `_connect`, before its session callback
  | dialling
  -- in `_connect`, after its session callback
  | authenticating
  -- at `select` in the loop of `_connect_attempt`
  | serving
  -- in `_send_request`: the request is written, not yet popped
  | submitted (e : PendingEntry)
  -- popped, the wake byte not yet read
  | popped (e : PendingEntry)
  -- the wake byte is read, `_pending` not yet appended to
  | received (e : PendingEntry)
  -- in `_send_request`, `_queue` found empty, before `recv(1)`
  | clearing
  -- in `_session_callback(st)`, before `_notify_pending`
  | notifying (st : KeeperState) (after : After)
  -- in `_session_callback(st)`, after `_notify_pending`
  | finishing (st : KeeperState) (after : After)
  -- in `zk_loop`, before its `finally` clause
  | stopping
  -- the thread has ended and is not joined
  | finished
  deriving DecidableEq, Repr

def After.resume : After → Routine
  | .retry => .retrying
  | .attempt => .attempting
  | .authenticate => .authenticating
  | .serve => .serving
  | .stop => .stopping
  | .exit => .finished

/-- On the way out of the loop of `_connect_attempt`. -/
def Routine.Leaving : Routine → Prop
  | .retrying | .stopping => True
  | .notifying _ after => after = .retry ∨ after = .stop
  | _ => False

/-- A request written on the server connection. -/
structure Frame where
  entry : PendingEntry
  bytes : Bytes
  deriving DecidableEq, Repr

structure Sys where
  client : Client
  -- `_xid`; it is `None` before the first attempt, when nothing reads it
  xid : Int
  -- `_read_sock` and `_write_sock`: the unread bytes of the open socket pair
  sockets : Option Nat
  connectionClosed : Bool
  connectionStopped : Bool
  pingOutstanding : Bool
  routine : Routine
  -- what has been written on the current server connection, oldest first
  wire : List Frame
  -- how many messages other than pings and watch events were read from it
  repliesRead : Nat
  -- in `_call`, past the test of the state, before `_queue.append`
  checked : List Entry
  -- in `_call`, after `_queue.append`, before the wake byte is sent
  appended : List Entry
  -- the calls of `stop` that have found `_stopped` unset and not yet set it
  entered : Nat
  -- the calls of `stop` that have set `_stopped` and not yet appended `Close`
  marked : Nat
  -- the calls of `stop` that have appended `Close` and not yet sent the wake byte
  closing : Nat
  -- the calls of `stop` in `_safe_close`
  joining : Nat
  -- the async results handed to `_call` so far
  issued : List AsyncId
  -- those of them whose request was not turned away
  accepted : List AsyncId

namespace Sys

def new (chroot : PyStr) : Sys where
  client := .new chroot
  xid := 0
  sockets := none
  connectionClosed := true
  connectionStopped := true
  pingOutstanding := false
  routine := .absent
  wire := []
  repliesRead := 0
  checked := []
  appended := []
  entered := 0
  marked := 0
  closing := 0
  joining := 0
  issued := []
  accepted := []

/-! ## User threads -/

/-- The test at the start of `_call`. -/
def callCheck (s : Sys) (item : Item) (a : AsyncId) : Sys :=
  let s := { s with issued := s.issued ++ [a] }
  match s.client.callRefusal with
  | some exc => { s with client := s.client.complete (some a) (.exception exc) }
  | none => { s with checked := s.checked ++ [⟨item, some a⟩] }

/-- `self._queue.append((request, async_object))` of the `i`-th call past its test. -/
def callAppend (s : Sys) (i : Nat) : Sys :=
  match s.checked[i]? with
  | none => s
  | some e =>
    { s with
      client := { s.client with queue := s.client.queue ++ [e] }
      checked := s.checked.eraseIdx i
      appended := s.appended ++ [e]
      accepted := s.accepted ++ e.asyncObject.toList }

/-- The rest of `_call`: `ok` tells whether `write_sock.send` returns. -/
def callSend (s : Sys) (i : Nat) (ok : Bool) : Sys :=
  match s.appended[i]? with
  | none => s
  | some e =>
    if ok = true ∧ s.sockets.isSome then
      { s with appended := s.appended.eraseIdx i, sockets := s.sockets.map (· + 1) }
    -- there is no socket pair, or `send` raises: the request stays in `_queue`
    else
      { s with
        appended := s.appended.eraseIdx i
        client := s.client.complete e.asyncObject (.exception .connectionClosedError) }

def closeEntry : Entry := ⟨.request .close, none⟩

/-- `self._stopped.set()` in `stop`. -/
def stopMark (s : Sys) : Sys :=
  { s with
    client := { s.client with stopped := true }
    entered := s.entered - 1
    marked := s.marked + 1 }

/-- `self._queue.append((CloseInstance, None))`. -/
def stopAppend (s : Sys) : Sys :=
  { s with
    client := { s.client with queue := s.client.queue ++ [closeEntry] }
    marked := s.marked - 1
    closing := s.closing + 1 }

/-- The wake byte of `stop`; an exception leaves through the `finally` clause. -/
def stopSend (s : Sys) (ok : Bool) : Sys :=
  { s with
    sockets := if ok then s.sockets.map (· + 1) else s.sockets
    closing := s.closing - 1
    joining := s.joining + 1 }

/-- `_safe_close` returns. -/
def safeClose (s : Sys) : Sys := { s with joining := s.joining - 1, routine := .absent }

/-- `start_async` when not live, from the return of `_safe_close` on. -/
def startAsync (s : Sys) : Sys :=
  { s with
    client := { s.client with stopped := false }
    sockets := if s.connectionClosed then some 0 else s.sockets
    connectionClosed := false
    routine := .spawned }

/-- `close` on a stopped connection. -/
def close (s : Sys) : Sys := { s with connectionClosed := true, sockets := none }

/-! ## The connection thread -/

variable (react : Listeners)

/-- Enter `_session_callback(st)`. -/
def callback (st : KeeperState) (after : After) (s : Sys) : Sys :=
  let c := s.client.callbackBegin react st
  { s with client := c.1, routine := if c.2 then .notifying st after else after.resume }

/-- The `except` clauses of `_connect_attempt`, and what `zk_loop` makes of an exception that
leaves it: the retry exceptions are retried, any other ends the thread.  `_socket_error_handling`
has made an `OSError` into a `ConnectionDropped`. -/
def raised (e : Exn) (s : Sys) : Sys :=
  match e with
  | .osError | .connectionDropped | .kazooTimeoutError =>
    if s.client.clientState ≠ .CONNECTING then s.callback react .CONNECTING .retry
    else { s with routine := .retrying }
  | .zookeeper code =>
    if e = .authFailedError ∨ e = .sessionClosedRequireSaslError then
      s.callback react .AUTH_FAILED .stop
    else if e = .sessionExpiredError then s.callback react .EXPIRED_SESSION .retry
    else if code = -4 ∨ code = -7 then { s with routine := .retrying }
    else { s with routine := .stopping }
  | .saslException => s.callback react .AUTH_FAILED .stop
  | .connectionClosedError => s.callback react .EXPIRED_SESSION .retry
  -- `_send_ping` raises it on a read-only connection
  | .rwServerAvailable => s.callback react .CONNECTING .retry
  | .forceRetryError => { s with routine := .retrying }
  -- `except Exception: raise`
  | _ => { s with routine := .stopping }

/-- The start of `_connect_attempt`. -/
def attempt (s : Sys) : Sys :=
  if s.client.clientState ≠ .CONNECTING then s.callback react .CONNECTING .attempt
  else { s with routine := .attempting }

/-- `self._xid = 0`, and a new server connection. -/
def dial (s : Sys) : Sys := { s with xid := 0, wire := [], repliesRead := 0, routine := .dialling }

/-- `_connect` from the server's answer to its session callback. -/
def connected (readOnly : Bool) (sessionId protocolVersion : Int) (passwd : Bytes) (s : Sys) : Sys :=
  let s := { s with
    client := { s.client with
      sessionId := some sessionId
      protocolVersion := some protocolVersion
      sessionPasswd := passwd } }
  s.callback react (if readOnly then .CONNECTED_RO else .CONNECTED) .authenticate

/-- The end of `_connect` and the way into the loop of `_connect_attempt`. -/
def authenticated (zxid : Option Int) (s : Sys) : Sys :=
  let client := match zxid with
    | some zxid => { s.client with lastZxid := zxid }
    | none => s.client
  { s with client := client, pingOutstanding := false, routine := .serving }

/-- `_read_socket` on a message. -/
def take (header : ReplyHeader) (buffer : Bytes) (offset : Nat) (s : Sys) : Sys :=
  { s with
    client := (s.client.readSocket header buffer offset).1
    pingOutstanding := if header.xid = PING_XID then false else s.pingOutstanding
    repliesRead :=
      if header.xid = PING_XID ∨ header.xid = WATCH_XID then s.repliesRead else s.repliesRead + 1 }

/-- `_read_socket`, and what the loop of `_connect_attempt` does with its result. -/
def read (header : ReplyHeader) (buffer : Bytes) (offset : Nat) (s : Sys) : Sys :=
  let s' := s.take header buffer offset
  match (s.client.readSocket header buffer offset).2 with
  | .none => s'
  | .closeResponse => s'.callback react .CLOSED .stop
  | .authFailed => s'.callback react .AUTH_FAILED .serve
  | .raised e => s'.raised react e

/-- `_send_request` up to the return of `_submit`; `err` is what the server socket raises. -/
def submit (err : Option Exn) (s : Sys) : Sys :=
  match s.client.queue with
  | [] => { s with routine := .clearing }
  -- the two hooks stay at the head of the queue
  | ⟨.SESSION_EXPIRED, _⟩ :: _ => s.raised react .sessionExpiredError
  | ⟨.CONNECTION_DROP, _⟩ :: _ => s.raised react .connectionDropped
  | ⟨.request request, asyncObject⟩ :: _ =>
    let xid := if request.type = 100 then AUTH_XID else nextXid s.xid
    let s := { s with xid := if request.type = 100 then s.xid else nextXid s.xid }
    match submitBytes request xid, err with
    -- `_submit` raises before it writes
    | .error e, _ => s.raised react e
    | .ok _, some e => s.raised react e
    | .ok bytes, none =>
      let e : PendingEntry := ⟨request, asyncObject, xid⟩
      { s with wire := s.wire ++ [⟨e, bytes⟩], routine := .submitted e }

/-- `client._queue.popleft()`. -/
def popleft (s : Sys) : Sys :=
  match s.routine with
  | .submitted e =>
    { s with client := { s.client with queue := s.client.queue.tail }, routine := .popped e }
  | _ => s

/-- `self._read_sock.recv(1)`. -/
def recv (err : Option Exn) (s : Sys) : Sys :=
  match err, s.routine with
  | some e, _ => s.raised react e
  | none, .popped e => { s with sockets := s.sockets.map (· - 1), routine := .received e }
  | none, _ => s

/-- `client._pending.append((request, async_object, xid))`. -/
def pend (s : Sys) : Sys :=
  match s.routine with
  | .received e =>
    { s with client := { s.client with pending := s.client.pending ++ [e] }, routine := .serving }
  | _ => s

/-- `recv(1)` where `_queue` was found empty: an `OSError` is passed over. -/
def clear (err : Option Exn) (s : Sys) : Sys :=
  match err with
  | none => { s with sockets := s.sockets.map (· - 1), routine := .serving }
  | some .osError => { s with routine := .serving }
  | some e => s.raised react e

def notify (s : Sys) : Sys :=
  match s.routine with
  | .notifying st after =>
    { s with client := s.client.notifyPending st, routine := .finishing st after }
  | _ => s

def finish (s : Sys) : Sys :=
  match s.routine with
  | .finishing st after =>
    { s with client := s.client.callbackEnd react st, routine := after.resume }
  | _ => s

/-- The `finally` clause of `zk_loop`. -/
def exit (s : Sys) : Sys := ({ s with connectionStopped := true }).callback react .CLOSED .exit

/-! ## The machine -/

/-- No connection thread is running. -/
def idle (s : Sys) : Prop := s.routine = .absent ∨ s.routine = .finished

/-- `select` can report the wake-up socket, and `recv(1)` on it returns. -/
def readable (s : Sys) : Prop := 0 < s.sockets.getD 0

instance (s : Sys) : Decidable s.idle := inferInstanceAs (Decidable (_ ∨ _))
instance (s : Sys) : Decidable s.readable := inferInstanceAs (Decidable (_ < _))

end Sys

inductive Act
  | callCheck (item : Item) (a : AsyncId)
  | callAppend (i : Nat)
  | callSend (i : Nat) (ok : Bool)
  -- the test at the start of `stop`
  | stopEnter
  | stopMark
  | stopAppend
  | stopSend (ok : Bool)
  | safeClose
  | startAsync
  | close
  -- the first statement of `zk_loop`
  | begin
  -- `_connect_loop` with no host resolved
  | unresolved
  | attempt
  | dial
  | connected (readOnly : Bool) (sessionId protocolVersion : Int) (passwd : Bytes)
  | authenticated (zxid : Option Int)
  -- an exception in `_connect` or in the loop, outside the functions below
  | raise (e : Exn)
  | read (header : ReplyHeader) (buffer : Bytes) (offset : Nat)
  | ping
  | submit (err : Option Exn)
  | popleft
  | recv (err : Option Exn)
  | pend
  | clear (err : Option Exn)
  | notify
  | finish
  -- the retries are exhausted, or `_stopped` was seen
  | giveUp
  | exit

namespace Sys

/-- When a thread is at the place an action starts from. -/
def enabled (s : Sys) : Act → Prop
  | .callCheck item a => item ≠ .request .close ∧ a ∉ s.issued
  | .callAppend i => i < s.checked.length
  | .callSend i _ => i < s.appended.length
  | .stopEnter => s.client.stopped = false
  | .stopMark => 0 < s.entered
  | .stopAppend => 0 < s.marked
  | .stopSend _ => 0 < s.closing
  | .safeClose => 0 < s.joining ∧ s.connectionStopped = true ∧ s.idle
  | .startAsync => s.client.live = false ∧ s.connectionStopped = true ∧ s.idle
  | .close => s.connectionStopped = true
  | .begin => s.routine = .spawned
  | .unresolved => s.routine = .retrying ∧ s.client.stopped = false
  | .attempt => s.routine = .retrying ∧ s.client.stopped = false
  | .dial => s.routine = .attempting
  | .connected _ _ _ _ => s.routine = .dialling
  | .authenticated _ => s.routine = .authenticating
  | .raise _ => s.routine = .dialling ∨ s.routine = .authenticating ∨ s.routine = .serving
  | .read _ _ _ => s.routine = .serving
  | .ping => s.routine = .serving
  | .submit _ => s.routine = .serving ∧ s.readable
  | .popleft => ∃ e, s.routine = .submitted e
  | .recv err => (∃ e, s.routine = .popped e) ∧ (err.isSome ∨ s.readable)
  | .pend => ∃ e, s.routine = .received e
  | .clear err => s.routine = .clearing ∧ (err.isSome ∨ s.readable)
  | .notify => ∃ st after, s.routine = .notifying st after
  | .finish => ∃ st after, s.routine = .finishing st after
  | .giveUp => s.routine = .retrying
  | .exit => s.routine = .stopping

instance decidableEnabled (s : Sys) : (act : Act) → Decidable (s.enabled act)
  | .popleft => decidable_of_iff (s.routine matches .submitted _) (by
      unfold enabled; cases s.routine <;> simp)
  | .recv err => decidable_of_iff
      ((s.routine matches .popped _) = true ∧ (err.isSome ∨ s.readable)) (by
        unfold enabled; cases s.routine <;> simp)
  | .pend => decidable_of_iff (s.routine matches .received _) (by
      unfold enabled; cases s.routine <;> simp)
  | .notify => decidable_of_iff (s.routine matches .notifying _ _) (by
      unfold enabled; cases s.routine <;> simp)
  | .finish => decidable_of_iff (s.routine matches .finishing _ _) (by
      unfold enabled; cases s.routine <;> simp)
  | .callCheck _ _ | .safeClose | .startAsync | .unresolved | .attempt | .submit _ | .clear _ =>
      inferInstanceAs (Decidable (_ ∧ _))
  | .callAppend _ | .callSend _ _ | .stopMark | .stopAppend | .stopSend _ =>
      inferInstanceAs (Decidable (_ < _))
  | .raise _ => inferInstanceAs (Decidable (_ ∨ _))
  | .stopEnter | .close | .begin | .dial | .connected _ _ _ _ | .authenticated _ | .read _ _ _
  | .ping | .giveUp | .exit => inferInstanceAs (Decidable (_ = _))

variable (react : Listeners)

def post (s : Sys) : Act → Sys
  | .callCheck item a => s.callCheck item a
  | .callAppend i => s.callAppend i
  | .callSend i ok => s.callSend i ok
  | .stopEnter => { s with entered := s.entered + 1 }
  | .stopMark => s.stopMark
  | .stopAppend => s.stopAppend
  | .stopSend ok => s.stopSend ok
  | .safeClose => s.safeClose
  | .startAsync => s.startAsync
  | .close => s.close
  | .begin => { s with connectionStopped := false, routine := .retrying }
  | .unresolved => s
  | .attempt => s.attempt react
  | .dial => s.dial
  | .connected readOnly sessionId protocolVersion passwd =>
    s.connected react readOnly sessionId protocolVersion passwd
  | .authenticated zxid => s.authenticated zxid
  | .raise e => s.raised react e
  | .read header buffer offset => s.read react header buffer offset
  | .ping => { s with pingOutstanding := true }
  | .submit err => s.submit react err
  | .popleft => s.popleft
  | .recv err => s.recv react err
  | .pend => s.pend
  | .clear err => s.clear react err
  | .notify => s.notify
  | .finish => s.finish react
  | .giveUp => { s with routine := .stopping }
  | .exit => s.exit react

/-! ## Frames -/

/-- `s` after the connection thread has moved the state variables and the listeners, and gone on
to `r`. -/
def turn (s : Sys) (st : KeeperState) (kz : KazooState) (live : Bool) (ls : List ListenerId)
    (ns : List (ListenerId × KazooState)) (r : Routine) : Sys :=
  { s with
    client := { s.client with
      clientState := st, state := kz, live := live, stateListeners := ls, notified := ns }
    routine := r }

variable {react : Listeners}

variable (react) in
/-- Entering `_session_callback` moves the state to `st`, and either reaches `_notify_pending` or
skips the rest. -/
theorem callback_frame (st : KeeperState) (after : After) (s : Sys) :
    ∃ kz live ls ns r,
      s.callback react st after = s.turn st kz live ls ns r ∧
        (r = .notifying st after ∧ (s.client.callbackBegin react st).2 = true ∨
          r = after.resume ∧ (s.client.callbackBegin react st).2 = false) := by
  obtain ⟨kz, live, ls, ns, h⟩ := Client.callbackBegin_frame react st s.client
  unfold callback
  dsimp only
  rw [h]
  cases (s.client.callbackBegin react st).2 with
  | true => exact ⟨kz, live, ls, ns, _, rfl, .inl ⟨rfl, rfl⟩⟩
  | false => exact ⟨kz, live, ls, ns, _, rfl, .inr ⟨rfl, rfl⟩⟩

variable (react) in
/-- An exception either enters a session callback that leaves the loop, or just leaves it. -/
theorem raised_cases (e : Exn) (s : Sys) :
    (∃ st after, s.raised react e = s.callback react st after ∧
      ((st = .CONNECTING ∨ st = .EXPIRED_SESSION) ∧ after = .retry ∨
        st = .AUTH_FAILED ∧ after = .stop)) ∨
    ∃ r, s.raised react e = { s with routine := r } ∧ (r = .retrying ∨ r = .stopping) := by
  unfold raised
  split
  · split
    · exact .inl ⟨_, _, rfl, .inl ⟨.inl rfl, rfl⟩⟩
    · exact .inr ⟨_, rfl, .inl rfl⟩
  · split
    · exact .inl ⟨_, _, rfl, .inl ⟨.inl rfl, rfl⟩⟩
    · exact .inr ⟨_, rfl, .inl rfl⟩
  · split
    · exact .inl ⟨_, _, rfl, .inl ⟨.inl rfl, rfl⟩⟩
    · exact .inr ⟨_, rfl, .inl rfl⟩
  · split
    · exact .inl ⟨_, _, rfl, .inr ⟨rfl, rfl⟩⟩
    · split
      · exact .inl ⟨_, _, rfl, .inl ⟨.inr rfl, rfl⟩⟩
      · split
        · exact .inr ⟨_, rfl, .inl rfl⟩
        · exact .inr ⟨_, rfl, .inr rfl⟩
  · exact .inl ⟨_, _, rfl, .inr ⟨rfl, rfl⟩⟩
  · exact .inl ⟨_, _, rfl, .inl ⟨.inr rfl, rfl⟩⟩
  · exact .inl ⟨_, _, rfl, .inl ⟨.inl rfl, rfl⟩⟩
  · exact .inr ⟨_, rfl, .inl rfl⟩
  · exact .inr ⟨_, rfl, .inr rfl⟩

variable (react) in
/-- An exception only moves the state variables and the listeners, and leaves the loop. -/
theorem raised_frame (e : Exn) (s : Sys) :
    ∃ st kz live ls ns r, s.raised react e = s.turn st kz live ls ns r ∧ r.Leaving := by
  -- with a session callback on the way, or straight out of the loop
  obtain ⟨st, after, h, hafter⟩ | ⟨r, h, hr⟩ := raised_cases react e s
  · have hafter : after = .retry ∨ after = .stop := by
      rcases hafter with ⟨-, rfl⟩ | ⟨-, rfl⟩
      · exact .inl rfl
      · exact .inr rfl
    obtain ⟨kz, live, ls, ns, r, hturn, hr⟩ := callback_frame react st after s
    refine ⟨st, kz, live, ls, ns, r, h.trans hturn, ?_⟩
    rcases hr with ⟨rfl, -⟩ | ⟨rfl, -⟩
    · exact hafter
    · rcases hafter with rfl | rfl <;> trivial
  · refine ⟨s.client.clientState, s.client.state, s.client.live, s.client.stateListeners,
      s.client.notified, r, h, ?_⟩
    rcases hr with rfl | rfl <;> trivial

variable (react) in
/-- Coming into a connected state fails no request. -/
theorem connected_frame (readOnly : Bool) (sessionId protocolVersion : Int) (passwd : Bytes)
    (s : Sys) :
    ∃ st ∈ CONNECTED_STATES, ∃ kz live ls ns,
      s.connected react readOnly sessionId protocolVersion passwd =
        { s with
          client := { s.client with
            sessionId := some sessionId, protocolVersion := some protocolVersion
            sessionPasswd := passwd, clientState := st, state := kz, live := live
            stateListeners := ls, notified := ns }
          routine := .authenticating } := by
  have hst : (if readOnly then KeeperState.CONNECTED_RO else .CONNECTED) ∈ CONNECTED_STATES := by
    cases readOnly <;> decide
  refine ⟨_, hst, ?_⟩
  unfold connected
  dsimp only
  obtain ⟨kz, live, ls, ns, r, h, ⟨-, hnotifies⟩ | ⟨hr, -⟩⟩ := callback_frame react
    (if readOnly then .CONNECTED_RO else .CONNECTED) .authenticate
    { s with
      client := { s.client with
        sessionId := some sessionId
        protocolVersion := some protocolVersion
        sessionPasswd := passwd } }
  -- a connected state is no state to fail requests in
  · rw [Client.callbackBegin_notifies_iff] at hnotifies
    cases readOnly <;> simp [CLOSED_STATES] at hnotifies
  · exact ⟨kz, live, ls, ns, by rw [h, hr]; rfl⟩

variable (react) in
/-- What `_read_socket` leaves is kept, and the loop goes on or ends. -/
theorem read_frame (header : ReplyHeader) (buffer : Bytes) (offset : Nat) (s : Sys) :
    ∃ st kz live ls ns r,
      s.read react header buffer offset =
        (s.take header buffer offset).turn st kz live ls ns r ∧
      (r = s.routine ∨ r = .serving ∨ r = .notifying .AUTH_FAILED .serve ∨ r.Leaving) := by
  unfold read
  dsimp only
  split
  · exact ⟨_, _, _, _, _, s.routine, rfl, .inl rfl⟩
  -- the reply to the `Close` ends the loop
  · obtain ⟨kz, live, ls, ns, r, h, hr⟩ :=
      callback_frame react .CLOSED .stop (s.take header buffer offset)
    refine ⟨_, kz, live, ls, ns, r, h, .inr (.inr (.inr ?_))⟩
    rcases hr with ⟨rfl, -⟩ | ⟨rfl, -⟩
    · exact .inr rfl
    · trivial
  -- `_read_socket` calls back itself and returns to the loop
  · obtain ⟨kz, live, ls, ns, r, h, hr⟩ :=
      callback_frame react .AUTH_FAILED .serve (s.take header buffer offset)
    refine ⟨_, kz, live, ls, ns, r, h, ?_⟩
    rcases hr with ⟨rfl, -⟩ | ⟨rfl, -⟩
    · exact .inr (.inr (.inl rfl))
    · exact .inr (.inl rfl)
  · next e _ =>
    obtain ⟨st, kz, live, ls, ns, r, h, hr⟩ :=
      raised_frame react e (s.take header buffer offset)
    exact ⟨st, kz, live, ls, ns, r, h, .inr (.inr (.inr hr))⟩

variable (react) in
/-- `_submit` finds the queue empty, or does not return, or writes the head of the queue. -/
theorem submit_cases (err : Option Exn) (s : Sys) :
    (s.client.queue = [] ∧ s.submit react err = { s with routine := .clearing }) ∨
    (∃ xid e, s.submit react err = ({ s with xid := xid }).raised react e) ∨
    ∃ request asyncObject rest bytes,
      s.client.queue = ⟨.request request, asyncObject⟩ :: rest ∧
      submitBytes request (if request.type = 100 then AUTH_XID else nextXid s.xid) = .ok bytes ∧
      s.submit react err =
        let e : PendingEntry :=
          ⟨request, asyncObject, if request.type = 100 then AUTH_XID else nextXid s.xid⟩
        { s with
          xid := if request.type = 100 then s.xid else nextXid s.xid
          wire := s.wire ++ [⟨e, bytes⟩]
          routine := .submitted e } := by
  unfold submit
  split
  · next hnil => exact .inl ⟨hnil, rfl⟩
  · exact .inr (.inl ⟨s.xid, .sessionExpiredError, rfl⟩)
  · exact .inr (.inl ⟨s.xid, .connectionDropped, rfl⟩)
  · next request asyncObject rest hcons =>
    dsimp only
    split
    · exact .inr (.inl ⟨_, _, rfl⟩)
    · exact .inr (.inl ⟨_, _, rfl⟩)
    · next bytes hbytes => exact .inr (.inr ⟨request, asyncObject, rest, bytes, hcons, hbytes, rfl⟩)

end Sys

/-- The client with its threads, for listeners that behave as `react` says. -/
def system (react : Listeners) (chroot : PyStr) : Machine Sys Act where
  init := .new chroot
  enabled := Sys.enabled
  post := Sys.post react

instance (react : Listeners) (chroot : PyStr) (s : Sys) (act : Act) :
    Decidable ((system react chroot).enabled s act) := Sys.decidableEnabled s act

/-! ## Pieces of runs -/

/-- Listeners that do nothing. -/
def Listeners.quiet : Listeners := fun _ _ _ => {}

namespace Sys

/-- The client is started and a session is established. -/
def connecting : List Act :=
  [.startAsync, .begin, .attempt, .dial, .connected false 1 0 [], .authenticated none]

/-- One call of `_call`, no other being in progress. -/
def calling (request : Request) (a : AsyncId) : List Act :=
  [.callCheck (.request request) a, .callAppend 0, .callSend 0 true]

/-- One call of `_send_request` that returns. -/
def sending : List Act := [.submit none, .popleft, .recv none, .pend]

/-- The state `acts` lead to from the start, without a chroot and with quiet listeners. -/
def run (acts : List Act) : Sys := (system .quiet []).exec (.new []) acts

theorem reach_run {ok : Sys → Act → Prop} {acts : List Act}
    (h : (system .quiet []).Legal ok (.new []) acts) : (system .quiet []).Reach ok (run acts) :=
  .of_legal h

end Sys

end Kazoo
