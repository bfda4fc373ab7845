import Kazoo.Protocol.Serialization
import Mathlib.Data.List.AList

/-!
# The client state

The part of `kazoo/client.py` that the connection thread and the callers of the API share: the two
deques, the watcher tables, the two state variables and the functions that move them.  What the
client hands to the outside (completed async results, dispatched watchers, listener calls) is kept
in three logs, oldest first.
-/

namespace Kazoo

/-- The identity of an async result. -/
abbrev AsyncId := Nat

/-- The identity of a state listener. -/
abbrev ListenerId := Nat

/-! ## Watcher tables -/

/-- `defaultdict(set)`, from paths to watch functions. -/
abbrev WatchTable := AList (fun _ : PyStr => List Watcher)

namespace WatchTable

def watchers (t : WatchTable) (path : PyStr) : List Watcher := (t.lookup path).getD []

/-- `table[path].add(watcher)`. -/
def add (t : WatchTable) (path : PyStr) (w : Watcher) : WatchTable :=
  t.insert path ((t.watchers path).insert w)

/-- What `table.pop(path, [])` leaves of the table. -/
def pop (t : WatchTable) (path : PyStr) : WatchTable := t.erase path

/-- The watchers of `table.values()`, one set after the other. -/
def all (t : WatchTable) : List Watcher := t.entries.flatMap Sigma.snd

@[simp] theorem watchers_empty (path : PyStr) : watchers ∅ path = [] := by
  unfold watchers
  rw [AList.lookup_empty, Option.getD_none]

@[simp] theorem watchers_add_self (t : WatchTable) (path : PyStr) (w : Watcher) :
    (t.add path w).watchers path = (t.watchers path).insert w := by
  rw [watchers, add, AList.lookup_insert, Option.getD_some]

theorem watchers_add_ne (t : WatchTable) {path path' : PyStr} (w : Watcher) (h : path' ≠ path) :
    (t.add path w).watchers path' = t.watchers path' := by
  rw [watchers, add, AList.lookup_insert_ne h, watchers]

@[simp] theorem watchers_pop_self (t : WatchTable) (path : PyStr) :
    (t.pop path).watchers path = [] := by
  rw [watchers, pop, AList.lookup_erase, Option.getD_none]

theorem watchers_pop_ne (t : WatchTable) {path path' : PyStr} (h : path' ≠ path) :
    (t.pop path).watchers path' = t.watchers path' := by
  rw [watchers, pop, AList.lookup_erase_ne h, watchers]

end WatchTable

/-! ## State -/

/-- What a caller hands to `_call`: a request, or one of the two hooks of the test harness. -/
inductive Item
  | request (r : Request)
  | SESSION_EXPIRED
  | CONNECTION_DROP
  deriving DecidableEq, Repr

/-- An element of `_queue`. -/
structure Entry where
  item : Item
  asyncObject : Option AsyncId
  deriving DecidableEq, Repr

/-- An element of `_pending`. -/
structure PendingEntry where
  request : Request
  asyncObject : Option AsyncId
  xid : Int
  deriving DecidableEq, Repr

/-- How an async result is completed: by `set` or by `set_exception`. -/
inductive Outcome
  | value (r : Response)
  | exception (e : Exn)
  deriving DecidableEq, Repr

structure Completion where
  asyncObject : AsyncId
  outcome : Outcome
  deriving DecidableEq, Repr

structure Client where
  -- `_state`, read through the property `client_state`
  clientState : KeeperState
  state : KazooState
  stateListeners : List ListenerId
  childWatchers : WatchTable
  dataWatchers : WatchTable
  queue : List Entry
  pending : List PendingEntry
  lastZxid : Int
  sessionId : Option Int
  sessionPasswd : Bytes
  protocolVersion : Option Int
  live : Bool
  stopped : Bool
  chroot : PyStr
  completions : List Completion
  dispatched : List (Watcher × WatchedEvent)
  notified : List (ListenerId × KazooState)

namespace Client

/-- A client as `__init__` leaves it. -/
def new (chroot : PyStr) : Client where
  clientState := .CLOSED
  state := .LOST
  stateListeners := []
  childWatchers := ∅
  dataWatchers := ∅
  queue := []
  pending := []
  lastZxid := 0
  sessionId := none
  sessionPasswd := List.replicate 16 0
  protocolVersion := none
  live := false
  stopped := true
  chroot := chroot
  completions := []
  dispatched := []
  notified := []

/-- `async_object.set(..)` or `.set_exception(..)`, guarded by `if async_object`. -/
def complete (c : Client) (asyncObject : Option AsyncId) (outcome : Outcome) : Client :=
  match asyncObject with
  | some a => { c with completions := c.completions ++ [⟨a, outcome⟩] }
  | none => c

def resetSession (c : Client) : Client :=
  { c with sessionId := none, sessionPasswd := List.replicate 16 0 }

def resetWatchers (c : Client) : Client :=
  let watchers := c.childWatchers.all ++ c.dataWatchers.all
  let ev : WatchedEvent := ⟨.NONE, c.clientState, none⟩
  { c with
    childWatchers := ∅
    dataWatchers := ∅
    dispatched := c.dispatched ++ watchers.map fun watch => (watch, ev) }

def reset (c : Client) : Client :=
  let c := { c with queue := [], pending := [] }
  let c := c.resetWatchers.resetSession
  { c with lastZxid := 0, protocolVersion := none }

/-! ## Listeners -/

def addListener (c : Client) (listener : ListenerId) : Client :=
  { c with stateListeners := c.stateListeners.insert listener }

def removeListener (c : Client) (listener : ListenerId) : Client :=
  { c with stateListeners := c.stateListeners.erase listener }

end Client

/-- What a listener does when it is called: it may take itself off the set of listeners, and then
return `True`, return something else, or raise an `Exception`. -/
structure Reaction where
  removesItself : Bool := false
  returnsTrue : Bool := false
  raises : Bool := false
  deriving DecidableEq, Repr

/-- The behaviour of all listeners: each call may depend on every listener call before it. -/
abbrev Listeners := List (ListenerId × KazooState) → ListenerId → KazooState → Reaction

namespace Client

variable (react : Listeners)

/-- One turn of the loop of `_make_state_change`. -/
def callListener (state : KazooState) (c : Client) (listener : ListenerId) : Client :=
  let reaction := react c.notified listener state
  let c := { c with notified := c.notified ++ [(listener, state)] }
  let c := if reaction.removesItself then c.removeListener listener else c
  if reaction.raises then c
  else if reaction.returnsTrue then c.removeListener listener
  else c

/-- `_make_state_change`: the loop runs over a copy of the listeners. -/
def makeStateChange (state : KazooState) (c : Client) : Client :=
  if c.state = state then c
  else c.stateListeners.foldl (callListener react state) { c with state := state }

/-! ## Session callbacks -/

/-- The exception `_notify_pending` completes the requests with. -/
def notifyException (state : KeeperState) : Exn :=
  if state = .AUTH_FAILED then .authFailedError
  else if state = .EXPIRED_SESSION then .sessionExpiredError
  else .connectionLoss

/-- `_notify_pending`: first `_pending`, then `_queue`, is popped until it is empty. -/
def notifyPending (state : KeeperState) (c : Client) : Client :=
  let exc := notifyException state
  let c := c.pending.foldl (fun c e => c.complete e.asyncObject (.exception exc))
    { c with pending := [] }
  c.queue.foldl (fun c e => c.complete e.asyncObject (.exception exc)) { c with queue := [] }

/-- `_session_callback`. -/
def sessionCallback (state : KeeperState) (c : Client) : Client :=
  if state = c.clientState then c
  else
    let closedState := c.clientState ∈ CLOSED_STATES
    let c := { c with clientState := state }
    -- the rest only applies once a session has been established
    if closedState ∧ state = .CONNECTING then c
    else if state ∈ CONNECTED_STATES then
      makeStateChange react .CONNECTED { c with live := true }
    else if state ∈ CLOSED_STATES then
      -- the session is over
      let c := makeStateChange react .LOST { c with live := false }
      (notifyPending state c).reset
    else
      -- the connection is lost, and the session may be taken up again
      let c := notifyPending state { c with live := false }
      (makeStateChange react .SUSPENDED c).resetWatchers

/-! `_session_callback` cut where the deques are shared with the callers of `_call`: what precedes
`_notify_pending`, with whether it is reached, and what follows it. -/

def callbackBegin (state : KeeperState) (c : Client) : Client × Bool :=
  if state = c.clientState then (c, false)
  else
    let closedState := c.clientState ∈ CLOSED_STATES
    let c := { c with clientState := state }
    if closedState ∧ state = .CONNECTING then (c, false)
    else if state ∈ CONNECTED_STATES then
      (makeStateChange react .CONNECTED { c with live := true }, false)
    else if state ∈ CLOSED_STATES then
      (makeStateChange react .LOST { c with live := false }, true)
    else ({ c with live := false }, true)

def callbackEnd (state : KeeperState) (c : Client) : Client :=
  if state ∈ CLOSED_STATES then c.reset
  else (makeStateChange react .SUSPENDED c).resetWatchers

/-- The exception with which `_call` turns a request away in a closed state. -/
def callRefusal (c : Client) : Option Exn :=
  match c.clientState with
  | .AUTH_FAILED => some .authFailedError
  | .CLOSED => some .connectionClosedError
  | .EXPIRED_SESSION => some .sessionExpiredError
  | _ => none

/-- `unchroot`. -/
def unchroot (c : Client) (path : PyStr) : PyStr :=
  if c.chroot = [] then path
  else if c.chroot = path then str "/"
  else if c.chroot.isPrefixOf path then path.drop c.chroot.length
  else path

/-! ## What the functions above change -/

variable {react}

/-- The async results waiting in the two deques, in the order `_notify_pending` completes them. -/
def waiting (c : Client) : List AsyncId :=
  c.pending.filterMap (·.asyncObject) ++ c.queue.filterMap (·.asyncObject)

theorem complete_eq (c : Client) (a : Option AsyncId) (o : Outcome) :
    c.complete a o = { c with completions := c.completions ++ a.toList.map (⟨·, o⟩) } := by
  cases a with
  | none => simp only [complete, Option.toList_none, List.map_nil, List.append_nil]
  | some a => rfl

theorem complete_asyncObjects (c : Client) (a : Option AsyncId) (o : Outcome) :
    (c.complete a o).completions.map (·.asyncObject) =
      c.completions.map (·.asyncObject) ++ a.toList := by
  cases a <;> simp [complete]

private theorem foldl_complete {α : Type} (f : α → Option AsyncId) (o : Outcome) (es : List α)
    (c : Client) :
    es.foldl (fun c e => c.complete (f e) o) c =
      { c with completions := c.completions ++ (es.filterMap f).map (⟨·, o⟩) } := by
  induction es generalizing c with
  | nil => simp only [List.foldl_nil, List.filterMap_nil, List.map_nil, List.append_nil]
  | cons e es ih =>
    rw [List.foldl_cons, ih, complete_eq]
    cases h : f e with
    | none => simp [h]
    | some a => simp [h]

/-- `_notify_pending` empties both deques and completes every waiting async result once. -/
theorem notifyPending_eq (state : KeeperState) (c : Client) :
    notifyPending state c =
      { c with
        pending := []
        queue := []
        completions := c.completions ++
          c.waiting.map (⟨·, .exception (notifyException state)⟩) } := by
  simp only [notifyPending, foldl_complete, waiting, List.map_append, List.append_assoc]

theorem notifyPending_asyncObjects (state : KeeperState) (c : Client) :
    (notifyPending state c).completions.map (·.asyncObject) =
      c.completions.map (·.asyncObject) ++ c.waiting := by
  simp [notifyPending_eq, Function.comp_def]

variable (react) in
/-- A listener is called once, and can only leave the set of listeners. -/
theorem callListener_frame (state : KazooState) (c : Client) (l : ListenerId) :
    ∃ ls, ls.Sublist c.stateListeners ∧ callListener react state c l =
      { c with stateListeners := ls, notified := c.notified ++ [(l, state)] } := by
  unfold callListener
  cases react c.notified l state with
  | mk removesItself returnsTrue raises =>
    -- a listener that takes itself off and returns `True` is taken off twice
    cases removesItself <;> cases returnsTrue <;> cases raises <;>
      simp only [if_true, Bool.false_eq_true, if_false] <;>
      refine ⟨_, ?_, rfl⟩ <;>
      first
        | exact .refl _
        | exact List.erase_sublist
        | exact List.erase_sublist.trans List.erase_sublist

/-- The listeners' loop only touches the set of listeners and the log of their calls. -/
theorem callListeners_frame (state : KazooState) (todo : List ListenerId) (c : Client) :
    ∃ ls ns, todo.foldl (callListener react state) c =
      { c with stateListeners := ls, notified := ns } := by
  induction todo generalizing c with
  | nil => exact ⟨c.stateListeners, c.notified, rfl⟩
  | cons l todo ih =>
    obtain ⟨ls, -, h⟩ := callListener_frame react state c l
    obtain ⟨ls', ns', h'⟩ := ih (callListener react state c l)
    exact ⟨ls', ns', by rw [List.foldl_cons, h', h]⟩

variable (react) in
theorem makeStateChange_frame (state : KazooState) (c : Client) :
    ∃ ls ns, makeStateChange react state c =
      { c with state := state, stateListeners := ls, notified := ns } := by
  unfold makeStateChange
  split
  · next h => exact ⟨c.stateListeners, c.notified, by rw [← h]⟩
  · exact callListeners_frame state c.stateListeners { c with state := state }

section

variable (st : KazooState) (c : Client)

@[simp] theorem makeStateChange_state : (makeStateChange react st c).state = st := by
  obtain ⟨ls, ns, h⟩ := makeStateChange_frame react st c
  rw [h]

@[simp] theorem makeStateChange_clientState : (makeStateChange react st c).clientState = c.clientState := by
  obtain ⟨ls, ns, h⟩ := makeStateChange_frame react st c
  rw [h]

@[simp] theorem makeStateChange_live : (makeStateChange react st c).live = c.live := by
  obtain ⟨ls, ns, h⟩ := makeStateChange_frame react st c
  rw [h]

@[simp] theorem makeStateChange_stopped : (makeStateChange react st c).stopped = c.stopped := by
  obtain ⟨ls, ns, h⟩ := makeStateChange_frame react st c
  rw [h]

@[simp] theorem makeStateChange_queue : (makeStateChange react st c).queue = c.queue := by
  obtain ⟨ls, ns, h⟩ := makeStateChange_frame react st c
  rw [h]

@[simp] theorem makeStateChange_pending : (makeStateChange react st c).pending = c.pending := by
  obtain ⟨ls, ns, h⟩ := makeStateChange_frame react st c
  rw [h]

@[simp] theorem makeStateChange_completions :
    (makeStateChange react st c).completions = c.completions := by
  obtain ⟨ls, ns, h⟩ := makeStateChange_frame react st c
  rw [h]

end

section

variable (st : KeeperState) (c : Client)

/-- In a closed state `_reset` throws the deques away. -/
theorem callbackEnd_queue :
    (callbackEnd react st c).queue = if st ∈ CLOSED_STATES then [] else c.queue := by
  unfold callbackEnd
  split
  · rfl
  · simp only [resetWatchers, makeStateChange_queue]

theorem callbackEnd_pending :
    (callbackEnd react st c).pending = if st ∈ CLOSED_STATES then [] else c.pending := by
  unfold callbackEnd
  split
  · rfl
  · simp only [resetWatchers, makeStateChange_pending]

@[simp] theorem callbackEnd_completions :
    (callbackEnd react st c).completions = c.completions := by
  unfold callbackEnd
  split
  · rfl
  · simp only [resetWatchers, makeStateChange_completions]

@[simp] theorem callbackEnd_stopped : (callbackEnd react st c).stopped = c.stopped := by
  unfold callbackEnd
  split
  · rfl
  · simp only [resetWatchers, makeStateChange_stopped]

end

variable (react) in
/-- Up to `_notify_pending`, `_session_callback` only touches the state variables and the
listeners. -/
theorem callbackBegin_frame (state : KeeperState) (c : Client) :
    ∃ kz live ls ns, (callbackBegin react state c).1 =
      { c with
        clientState := state, state := kz, live := live, stateListeners := ls, notified := ns } := by
  unfold callbackBegin
  split
  · next h => exact ⟨c.state, c.live, c.stateListeners, c.notified, by rw [h]⟩
  · dsimp only
    split
    · exact ⟨c.state, c.live, c.stateListeners, c.notified, rfl⟩
    · split
      · obtain ⟨ls, ns, h⟩ := makeStateChange_frame react .CONNECTED
          { c with clientState := state, live := true }
        exact ⟨_, _, ls, ns, h⟩
      · split
        · obtain ⟨ls, ns, h⟩ := makeStateChange_frame react .LOST
            { c with clientState := state, live := false }
          exact ⟨_, _, ls, ns, h⟩
        · exact ⟨c.state, false, c.stateListeners, c.notified, rfl⟩

/-- The requests are only failed on a real change, into a closed state or out of a connected one. -/
theorem callbackBegin_notifies_iff (state : KeeperState) (c : Client) :
    (callbackBegin react state c).2 = true ↔
      state ≠ c.clientState ∧
        (state ∈ CLOSED_STATES ∨ state = .CONNECTING ∧ c.clientState ∈ CONNECTED_STATES) := by
  unfold callbackBegin
  cases hs : state <;> cases hc : c.clientState <;> simp [CLOSED_STATES, CONNECTED_STATES]

/-- The three parts of `_session_callback`, run one after the other, are the whole of it. -/
theorem sessionCallback_eq (state : KeeperState) (c : Client) :
    sessionCallback react state c =
      bif (callbackBegin react state c).2 then
        callbackEnd react state (notifyPending state (callbackBegin react state c).1)
      else (callbackBegin react state c).1 := by
  unfold sessionCallback callbackBegin callbackEnd
  by_cases hsame : state = c.clientState
  · simp only [hsame, if_true, cond_false]
  -- the two paths that stop before `_notify_pending`, then the three that change the state
  by_cases hskip : c.clientState ∈ CLOSED_STATES ∧ state = .CONNECTING
  · simp only [if_neg hsame, if_pos hskip, cond_false]
  by_cases hconn : state ∈ CONNECTED_STATES
  · simp only [hsame, hskip, hconn, if_true, if_false, cond_false]
  by_cases hclosed : state ∈ CLOSED_STATES
  · simp only [hsame, hskip, hconn, hclosed, if_true, if_false, cond_true]
  · simp only [hsame, hskip, hconn, hclosed, if_false, cond_true]

end Client

end Kazoo
