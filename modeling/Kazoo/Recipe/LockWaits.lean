import Kazoo.Recipe.Lock

/-!
# Waiting lock objects

What `Kazoo.Recipe.Lock` leaves open about waiting: `wake_event`, the listener and the watch of the
`while` loop of `_inner_acquire`, and the connections on which watch events come.  The server may
answer a `get` from an old list of children, and it may take its time with every event.
-/

namespace Kazoo

variable {ι : Type}

/-! ## One lock object -/

/-- Where the loop of `_inner_acquire` is when there is a predecessor. -/
inductive Asking
  -- about to call `client.add_listener(self._watch_session)`
  | adding
  -- about to call `client.get(predecessor, self._watch_predecessor)`
  | getting
  -- waiting for the async result of `client.get`
  | asked
  deriving DecidableEq, Repr

structure Waiter where
  -- `self.wake_event`
  wakeEvent : Bool
  -- `wake_event.clear()` has been called in this turn of the loop
  cleared : Bool
  -- calls of `cancel` that have set `cancelled`, and not yet `wake_event`
  cancelling : Nat
  -- the local variable `predecessor`, without the lock path
  predecessor : PyStr
  asking : Asking
  -- how often `client.get` has been called; an async result is known by its number
  gets : Nat
  -- whether the newest async result is there: found, or a `NoNodeError`
  answer : Option Bool

namespace Waiter

/-- A lock object that has never waited. -/
def new : Waiter where
  wakeEvent := false
  cleared := false
  cancelling := 0
  predecessor := []
  asking := .adding
  gets := 0
  answer := none

end Waiter

/-! ## One connection -/

/-- What the server has sent. -/
inductive Delivery (ι : Type)
  -- the reply to a `get`
  | answer (l : ι) (get : Nat) (path : PyStr) (found : Bool)
  -- a watch event: the node was changed or deleted
  | event (path : PyStr)
  deriving DecidableEq

/-- Where the connection thread is. -/
inductive ConnectionThread (ι : Type)
  | serving
  -- in `_read_response`, between `async_object.set` and the registration of the watcher
  | registering (path : PyStr) (l : ι)
  -- in `_make_state_change`, with the listeners that it has yet to call
  | telling (connected : Bool) (listeners : List ι)
  -- about to fail what is pending and to `_reset_watchers`
  | resetting
  | connecting
  deriving DecidableEq

structure Link (ι : Type) where
  -- the `get`s that the server has not seen: who, the number of the async result, the path
  requests : List (ι × Nat × PyStr)
  -- whether the server has a connection with the client
  alive : Bool
  -- the watches that the server holds for it
  armed : List PyStr
  -- what the server has sent and the client has not read
  stream : List (Delivery ι)
  -- `_data_watchers`: of which lock object `_watch_predecessor` is registered for which path
  watchers : List (PyStr × ι)
  -- the lock objects whose `_watch_predecessor` is on the callback queue
  callbacks : List ι
  -- the lock objects whose `_watch_session` is among the state listeners
  listeners : List ι
  thread : ConnectionThread ι

namespace Link

/-- A client that has not connected yet. -/
def new : Link ι where
  requests := []
  alive := false
  armed := []
  stream := []
  watchers := []
  callbacks := []
  listeners := []
  thread := .connecting

/-- The server fires the watches on all nodes but those that remain. -/
def fire (remains : PyStr → Bool) (k : Link ι) : Link ι :=
  { k with
    armed := k.armed.filter remains
    stream := k.stream ++ (k.armed.filter fun path => !remains path).map .event }

/-- The server gives up the connection. -/
def broken (k : Link ι) : Link ι := { k with alive := false, armed := [] }

/-- The server answers a `get`, from a list of children that may be old, while `names` are there
now.  Where the answer is old, the event that the node is gone comes later. -/
def serve (children names : List PyStr) (k : Link ι) : Option (Link ι) :=
  match k.requests with
  | [] => none
  | (l, get, path) :: requests =>
    if path ∈ children then
      some { k with
        requests := requests
        armed := if path ∈ names then path :: k.armed else k.armed
        stream := k.stream ++ [.answer l get path true] ++
          if path ∈ names then [] else [.event path] }
    else some { k with requests := requests, stream := k.stream ++ [.answer l get path false] }

/-- `_read_watch_event`. -/
def event (path : PyStr) (k : Link ι) : Link ι :=
  { k with
    callbacks := k.callbacks ++ (k.watchers.filter fun x => x.1 = path).map Prod.snd
    watchers := k.watchers.filter fun x => x.1 ≠ path }

/-- The connection thread is done with the old connection. -/
def reset (k : Link ι) : Link ι :=
  { k with
    requests := []
    stream := []
    callbacks := k.callbacks ++ k.watchers.map Prod.snd
    watchers := []
    thread := .connecting }

end Link

/-! ## All together -/

structure Waits {ι : Type} (L : Locks ι) where
  world : World L
  waiters : ι → Waiter
  -- by client
  links : Nat → Link ι

inductive WaitAct {ι : Type} (L : Locks ι)
  | lock (act : LockAct L)
  -- `wake_event.clear()`
  | clear (l : ι)
  -- `client.add_listener`
  | addListener (l : ι)
  -- `client.get` puts its request on the queue
  | get (l : ι)
  -- the second line of `cancel`
  | cancelSet (l : ι)
  | serve (client : Nat) (children : List PyStr)
  -- a node is written to
  | change (name : PyStr)
  -- the connection thread reads a message
  | read (client : Nat)
  | register (client : Nat)
  -- the connection is lost, and the connection thread has not noticed
  | lose (client : Nat)
  -- it notices, or gives the connection up itself
  | drop (client : Nat)
  -- it calls the next listener
  | tell (client : Nat)
  | reset (client : Nat)
  | connect (client : Nat)
  -- the callback thread calls the next `_watch_predecessor`
  | callback (client : Nat)

namespace Waits

variable {L : Locks ι}

def new : Waits L where
  world := .new
  waiters := fun _ => .new
  links := fun _ => .new

def names (w : Waits L) : List PyStr := w.world.nodes.map Znode.name

/-- The connection that `l` uses. -/
def link (w : Waits L) (l : ι) : Link ι := w.links (L.config l).client

def setLink (client : Nat) (k : Link ι) (w : Waits L) : Waits L :=
  { w with links := Function.update w.links client k }

variable [DecidableEq ι]

def setWaiter (l : ι) (x : Waiter) (w : Waits L) : Waits L :=
  { w with waiters := Function.update w.waiters l x }

def wake (l : ι) (w : Waits L) : Waits L := w.setWaiter l { w.waiters l with wakeEvent := true }

/-- What waiting adds to the conditions of a step of a lock object. -/
def allows (w : Waits L) : LockAct L → Bool
  | .thread l .contend => (w.waiters l).cleared
  | .thread l (.watch found) =>
    (w.waiters l).asking = .asked && (w.waiters l).answer = some found
  | .thread l .wake => (w.waiters l).wakeEvent
  | .thread l .timeOut => !(w.waiters l).wakeEvent
  | .thread l (.fail _) =>
    match (w.world.locks l).stage with
    | .watching _ => (w.waiters l).asking = .asked
    | _ => true
  | _ => true

variable (L) in
/-- What waiting adds to a step of the lock object `o`. -/
def waited (l : ι) (o : LockObject) (act : LockObject.Act) (x : Waiter) : Waiter :=
  match act with
  | .contend => { x with cleared := false }
  | .compare children =>
    match o.stage with
    | .comparing node =>
      match (L.config l).getPredecessor L.decimal node children with
      | .ok (some predecessor) => { x with predecessor := predecessor, asking := .adding }
      | _ => x
    | _ => x
  | .cancel => { x with cancelling := x.cancelling + 1 }
  | _ => x

/-- Whether the step leaves the `try` statement, whose `finally` calls `client.remove_listener`. -/
def leaves (o : LockObject) : LockObject.Act → Bool
  | .watch found => !found
  | .wake | .timeOut => true
  | .fail _ =>
    match o.stage with
    | .watching _ => true
    | _ => false
  | _ => false

/-- The server fires its watches, and gives up the connection of a session that expires. -/
def followLink (act : LockAct L) (world : World L) (w : Waits L) (client : Nat) : Link ι :=
  let k := (w.links client).fire fun path => path ∈ world.nodes.map Znode.name
  match act with
  | .expire client' => if client' = client then k.broken else k
  | .thread l act =>
    if (L.config l).client = client ∧ leaves (w.world.locks l) act then
      { k with listeners := k.listeners.filter fun l' => l' ≠ l }
    else k
  | _ => k

def follow (act : LockAct L) (world : World L) (w : Waits L) : Waits L where
  world := world
  waiters :=
    match act with
    | .thread l act =>
      Function.update w.waiters l (waited L l (w.world.locks l) act (w.waiters l))
    | _ => w.waiters
  links := w.followLink act world

/-- The step, where it can be taken. -/
def step (w : Waits L) : WaitAct L → Option (Waits L)
  | .lock act =>
    if w.allows act then (w.world.step act).map fun world => w.follow act world else none
  | .clear l =>
    match (w.world.locks l).stage with
    | .contending _ =>
      if (w.waiters l).cleared then none
      else some (w.setWaiter l { w.waiters l with wakeEvent := false, cleared := true })
    | _ => none
  | .addListener l =>
    match (w.world.locks l).stage with
    | .watching _ =>
      if (w.waiters l).asking = .adding then
        some ((w.setLink (L.config l).client
            { w.link l with listeners := l :: (w.link l).listeners }).setWaiter l
          { w.waiters l with asking := .getting })
      else none
    | _ => none
  | .get l =>
    match (w.world.locks l).stage with
    | .watching _ =>
      let x := w.waiters l
      if x.asking = .getting then
        some ((w.setLink (L.config l).client
            { w.link l with
              requests := (w.link l).requests ++ [(l, x.gets + 1, x.predecessor)] }).setWaiter l
          { x with asking := .asked, gets := x.gets + 1, answer := none })
      else none
    | _ => none
  | .cancelSet l =>
    let x := w.waiters l
    if 0 < x.cancelling then
      some (w.setWaiter l { x with wakeEvent := true, cancelling := x.cancelling - 1 })
    else none
  | .serve client children =>
    if (w.links client).alive ∧ w.world.Lists children then
      ((w.links client).serve children w.names).map fun k => w.setLink client k
    else none
  | .change name => some { w with links := fun client => (w.links client).fire (· ≠ name) }
  | .read client =>
    let k := w.links client
    match k.thread, k.stream with
    | .serving, .answer l get path found :: stream =>
      let w' := w.setLink client { k with
        stream := stream
        thread := if found then .registering path l else .serving }
      some (if get = (w.waiters l).gets then
        w'.setWaiter l { w.waiters l with answer := some found } else w')
    | .serving, .event path :: stream =>
      some (w.setLink client ({ k with stream := stream }.event path))
    | _, _ => none
  | .register client =>
    let k := w.links client
    match k.thread with
    | .registering path l =>
      some (w.setLink client { k with watchers := (path, l) :: k.watchers, thread := .serving })
    | _ => none
  | .lose client => some (w.setLink client (w.links client).broken)
  | .drop client =>
    let k := w.links client
    if k.thread = .serving ∨ k.thread = .connecting then
      some (w.setLink client { k.broken with thread := .telling false k.listeners })
    else none
  | .tell client =>
    let k := w.links client
    match k.thread with
    | .telling connected (l :: listeners) =>
      some ((w.setLink client { k with
        listeners := k.listeners.filter fun l' => l' ≠ l
        thread := .telling connected listeners }).wake l)
    | .telling connected [] =>
      some (w.setLink client { k with thread := if connected then .serving else .resetting })
    | _ => none
  | .reset client =>
    if (w.links client).thread = .resetting then some (w.setLink client (w.links client).reset)
    else none
  | .connect client =>
    let k := w.links client
    if k.thread = .connecting then
      some (w.setLink client { k with alive := true, thread := .telling true k.listeners })
    else none
  | .callback client =>
    let k := w.links client
    match k.callbacks with
    | l :: callbacks => some ((w.setLink client { k with callbacks := callbacks }).wake l)
    | [] => none

/-- All that a step can do. -/
inductive Steps (w : Waits L) : WaitAct L → Waits L → Prop
  | lock {act : LockAct L} {world : World L} (hallows : w.allows act = true)
      (hworld : w.world.step act = some world) : Steps w (.lock act) (w.follow act world)
  | clear {l : ι} {node : PyStr} (hstage : (w.world.locks l).stage = .contending node)
      (hcleared : (w.waiters l).cleared = false) :
    Steps w (.clear l) (w.setWaiter l { w.waiters l with wakeEvent := false, cleared := true })
  | addListener {l : ι} {node : PyStr} (hstage : (w.world.locks l).stage = .watching node)
      (hasking : (w.waiters l).asking = .adding) :
    Steps w (.addListener l)
      ((w.setLink (L.config l).client
          { w.link l with listeners := l :: (w.link l).listeners }).setWaiter l
        { w.waiters l with asking := .getting })
  | get {l : ι} {node : PyStr} (hstage : (w.world.locks l).stage = .watching node)
      (hasking : (w.waiters l).asking = .getting) :
    Steps w (.get l)
      ((w.setLink (L.config l).client
          { w.link l with
            requests := (w.link l).requests ++
              [(l, (w.waiters l).gets + 1, (w.waiters l).predecessor)] }).setWaiter l
        { w.waiters l with asking := .asked, gets := (w.waiters l).gets + 1, answer := none })
  | cancelSet {l : ι} (hcancelling : 0 < (w.waiters l).cancelling) :
    Steps w (.cancelSet l) (w.setWaiter l
      { w.waiters l with wakeEvent := true, cancelling := (w.waiters l).cancelling - 1 })
  | serve {client : Nat} {children : List PyStr} {k : Link ι}
      (halive : (w.links client).alive = true) (hlists : w.world.Lists children)
      (hserve : (w.links client).serve children w.names = some k) :
    Steps w (.serve client children) (w.setLink client k)
  | change {name : PyStr} :
    Steps w (.change name) { w with links := fun client => (w.links client).fire (· ≠ name) }
  | answer {client : Nat} {l : ι} {get : Nat} {path : PyStr} {found : Bool}
      {stream : List (Delivery ι)} (hthread : (w.links client).thread = .serving)
      (hstream : (w.links client).stream = .answer l get path found :: stream) :
    Steps w (.read client)
      (if get = (w.waiters l).gets then
        (w.setLink client { w.links client with
          stream := stream
          thread := if found then .registering path l else .serving }).setWaiter l
            { w.waiters l with answer := some found }
      else w.setLink client { w.links client with
        stream := stream
        thread := if found then .registering path l else .serving })
  | event {client : Nat} {path : PyStr} {stream : List (Delivery ι)}
      (hthread : (w.links client).thread = .serving)
      (hstream : (w.links client).stream = .event path :: stream) :
    Steps w (.read client)
      (w.setLink client ({ w.links client with stream := stream }.event path))
  | register {client : Nat} {path : PyStr} {l : ι}
      (hthread : (w.links client).thread = .registering path l) :
    Steps w (.register client) (w.setLink client { w.links client with
      watchers := (path, l) :: (w.links client).watchers, thread := .serving })
  | lose {client : Nat} : Steps w (.lose client) (w.setLink client (w.links client).broken)
  | drop {client : Nat}
      (hthread : (w.links client).thread = .serving ∨ (w.links client).thread = .connecting) :
    Steps w (.drop client) (w.setLink client
      { (w.links client).broken with thread := .telling false (w.links client).listeners })
  | tell {client : Nat} {connected : Bool} {l : ι} {listeners : List ι}
      (hthread : (w.links client).thread = .telling connected (l :: listeners)) :
    Steps w (.tell client)
      ((w.setLink client { w.links client with
        listeners := (w.links client).listeners.filter fun l' => l' ≠ l
        thread := .telling connected listeners }).wake l)
  | told {client : Nat} {connected : Bool}
      (hthread : (w.links client).thread = .telling connected []) :
    Steps w (.tell client) (w.setLink client
      { w.links client with thread := if connected then .serving else .resetting })
  | reset {client : Nat} (hthread : (w.links client).thread = .resetting) :
    Steps w (.reset client) (w.setLink client (w.links client).reset)
  | connect {client : Nat} (hthread : (w.links client).thread = .connecting) :
    Steps w (.connect client) (w.setLink client { w.links client with
      alive := true, thread := .telling true (w.links client).listeners })
  | callback {client : Nat} {l : ι} {callbacks : List ι}
      (hcallbacks : (w.links client).callbacks = l :: callbacks) :
    Steps w (.callback client)
      ((w.setLink client { w.links client with callbacks := callbacks }).wake l)

theorem steps_of_step {w w' : Waits L} {act : WaitAct L} (h : w.step act = some w') :
    w.Steps act w' := by
  cases act <;> simp only [step, Option.ite_none_right_eq_some, Option.map_eq_some_iff] at h
  case lock act =>
    obtain ⟨hallows, world, hworld, rfl⟩ := h
    exact .lock hallows hworld
  case clear l =>
    split at h
    case h_1 node hstage =>
      split at h
      · cases h
      case isFalse hcleared =>
        exact Option.some.inj h ▸ .clear hstage (Bool.eq_false_iff.mpr hcleared)
    · cases h
  case addListener l =>
    split at h
    case h_1 node hstage =>
      obtain ⟨hasking, h⟩ := Option.ite_none_right_eq_some.mp h
      exact Option.some.inj h ▸ .addListener hstage hasking
    · cases h
  case get l =>
    split at h
    case h_1 node hstage =>
      obtain ⟨hasking, h⟩ := Option.ite_none_right_eq_some.mp h
      exact Option.some.inj h ▸ .get hstage hasking
    · cases h
  case cancelSet l => exact Option.some.inj h.2 ▸ .cancelSet h.1
  case serve client children =>
    obtain ⟨⟨halive, hlists⟩, k, hserve, rfl⟩ := h
    exact .serve halive hlists hserve
  case change name => exact Option.some.inj h ▸ .change
  case read client =>
    split at h
    case h_1 l get path found stream hthread hstream =>
      exact Option.some.inj h ▸ .answer hthread hstream
    case h_2 path stream hthread hstream => exact Option.some.inj h ▸ .event hthread hstream
    · cases h
  case register client =>
    split at h
    case h_1 path l hthread => exact Option.some.inj h ▸ .register hthread
    · cases h
  case lose client => exact Option.some.inj h ▸ .lose
  case drop client => exact Option.some.inj h.2 ▸ .drop h.1
  case tell client =>
    split at h
    case h_1 connected l listeners hthread => exact Option.some.inj h ▸ .tell hthread
    case h_2 connected hthread => exact Option.some.inj h ▸ .told hthread
    · cases h
  case reset client => exact Option.some.inj h.2 ▸ .reset h.1
  case connect client => exact Option.some.inj h.2 ▸ .connect h.1
  case callback client =>
    split at h
    case h_1 l callbacks hcallbacks => exact Option.some.inj h ▸ .callback hcallbacks
    · cases h

end Waits

/-- All interleavings of the lock objects, the server and the threads of the clients. -/
def vigil [DecidableEq ι] (L : Locks ι) : Machine (Waits L) (WaitAct L) where
  init := .new
  enabled := fun w act => (w.step act).isSome
  post := fun w act => (w.step act).getD w

instance [DecidableEq ι] (L : Locks ι) (w : Waits L) (act : WaitAct L) :
    Decidable ((vigil L).enabled w act) :=
  inferInstanceAs (Decidable ((w.step act).isSome = true))

end Kazoo
