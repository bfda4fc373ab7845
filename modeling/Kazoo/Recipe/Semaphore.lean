import Kazoo.Recipe.Lock

/-!
# Semaphores on one path

Any number of `Semaphore` objects of any number of clients, each shared by threads.  Every
`_inner_acquire` makes a lock object of its own, which contends with the others as in
`Kazoo.Recipe.Lock`.  The server carries out the writes of one client in the order in which they are
sent, and shows no client a state older than one it has shown it.
-/

namespace Kazoo

/-- The semaphores `σ` of a path, the threads `θ` that use them, and the lock objects `ι` that will be
made. -/
structure Semaphores (σ θ ι : Type) where
  maxLeases : Nat
  client : σ → Nat
  -- the semaphore that the thread works with
  object : θ → σ
  locks : Locks ι
  -- the semaphore that makes the lock object, in `self.client.Lock(self.lock_path, self.data)`
  maker : ι → σ
  kind_eq : ∀ l, (locks.config l).kind = .lock
  client_eq : ∀ l, (locks.config l).client = client (maker l)

/-! ## One thread -/

/-- How `_inner_acquire` ends. -/
inductive Ending
  | returned (gotten : Bool)
  | raised (e : Exn)
  deriving DecidableEq, Repr

/-- Where a thread is in `acquire` or `release`. -/
inductive SemaphoreStage (ι : Type)
  | idle
  -- at the top of `_inner_acquire`
  | attempting
  -- in `_ensure_path`: in `client.ensure_path`, in `client.get`, in `client.set`
  | ensuring
  | checking
  | storing
  -- in `client.exists(self.create_path)`
  | looking
  -- about to make the lock object
  | making
  -- in `lock.acquire`
  | locking (l : ι)
  -- at the top of the `while` loop
  | counting (l : ι)
  -- in `client.create(self.create_path, ...)` of `_get_lease`
  | creating (l : ι)
  -- in the last `client.exists` of `_get_lease`
  | confirming (l : ι)
  -- in `wake_event.wait`
  | waiting (l : ι)
  -- at the `finally`, and in its `lock.release`
  | unlocking (l : ι) (ending : Ending)
  | freeing (l : ι) (ending : Ending)
  -- between two attempts of `client.retry`
  | sleeping
  -- in `_best_effort_cleanup`
  | cleaning
  -- in `release`: at the top of `_inner_release`, in `client.delete`, between two attempts
  | releasing
  | deleting
  | resting
  deriving DecidableEq, Repr

structure SemaphoreCall where
  blocking : Bool
  -- whether `timeout` is not `None`
  timed : Bool
  deriving DecidableEq, Repr

structure SemaphoreObject where
  isAcquired : Bool
  assuredPath : Bool
  cancelled : Bool
  deriving DecidableEq, Repr

namespace SemaphoreObject

/-- A semaphore as `__init__` leaves it. -/
def new : SemaphoreObject := ⟨false, false, false⟩

end SemaphoreObject

/-! ## The server and all semaphores -/

/-- A write whose caller has got an exception, and which may still be carried out. -/
inductive LateWrite (σ ι : Type)
  -- the lease of the semaphore that has made `l`, asked for with `l` acquired
  | createLease (l : ι)
  | deleteLease (k : σ)
  | deleteLock (l : ι) (name : PyStr)
  deriving DecidableEq, Repr

/-- The children of the lock path and of the semaphore path.  A lease is known by the semaphore whose
`create_path` it is. -/
abbrev PoolState {σ θ ι : Type} (S : Semaphores σ θ ι) := List (Znode S.locks) × List σ

structure Pool {σ θ ι : Type} (S : Semaphores σ θ ι) where
  world : World S.locks
  leases : List σ
  -- every state there has been, the oldest first and some of them repeatedly
  log : List (PoolState S)
  -- how much of it each client has seen
  view : Nat → Nat
  late : List (LateWrite σ ι)
  objects : σ → SemaphoreObject
  threads : θ → SemaphoreStage ι
  calls : θ → SemaphoreCall
  -- the lock objects that have been made
  made : ι → Bool

/-- The steps.  A step that reads takes the place of a state in the log. -/
inductive SemaphoreAct {σ θ ι : Type} (S : Semaphores σ θ ι)
  | acquire (i : θ) (blocking timed : Bool)
  | attempt (i : θ)
  | ensure (i : θ) (existed : Bool)
  -- `int(data.decode("utf-8"))`, where this is a number
  | check (i : θ) (leases : Option Int)
  | store (i : θ)
  | look (i : θ) (place : Nat)
  | make (i : θ) (l : ι)
  | lock (i : θ) (act : LockAct S.locks) (place : Nat)
  -- `lock.acquire` has returned or raised
  | locked (i : θ) (e : Option Exn)
  | count (i : θ) (place : Nat)
  | create (i : θ)
  | confirm (i : θ) (place : Nat)
  | wake (i : θ)
  | timeOut (i : θ)
  | unlock (i : θ)
  | free (i : θ) (act : LockAct S.locks)
  -- `lock.release` has returned or raised
  | freed (i : θ) (e : Option Exn)
  -- a call to the server raises
  | fail (i : θ) (e : Exn)
  -- the decision of `client.retry`
  | again (i : θ)
  | giveUp (i : θ)
  | clean (i : θ)
  | release (i : θ)
  | test (i : θ)
  | delete (i : θ)
  | cancel (k : σ)
  | serveLate (n : Nat)
  | loseLate (n : Nat)
  -- a sequential child of the lock path whose caller has got an exception
  | serveLateNode (n number : Nat)

namespace Pool

variable {σ θ ι : Type} {S : Semaphores σ θ ι}

def new : Pool S where
  world := .new
  leases := []
  log := [([], [])]
  view := fun _ => 0
  late := []
  objects := fun _ => .new
  threads := fun _ => .idle
  calls := fun _ => ⟨false, false⟩
  made := fun _ => false

/-- Whose write it is. -/
def lateClient (S : Semaphores σ θ ι) : LateWrite σ ι → Nat
  | .createLease l | .deleteLock l _ => S.client (S.maker l)
  | .deleteLease k => S.client k

/-- The server has carried out what the client has sent before. -/
def Settled (s : Pool S) (client : Nat) : Prop := ∀ r ∈ s.late, lateClient S r ≠ client

instance (s : Pool S) (client : Nat) : Decidable (s.Settled client) :=
  inferInstanceAs (Decidable (∀ r ∈ s.late, lateClient S r ≠ client))

/-- The server is in a new state. -/
def record (s : Pool S) : Pool S := { s with log := s.log ++ [(s.world.nodes, s.leases)] }

/-- The client has seen the state at the place. -/
def see (s : Pool S) (client place : Nat) : Pool S :=
  { s with view := Function.update s.view client place }

/-- The client has seen the present state. -/
def synced (s : Pool S) (client : Nat) : Pool S := s.see client (s.log.length - 1)

/-- What the client may be shown at the place. -/
def shown? (s : Pool S) (client place : Nat) : Option (PoolState S) :=
  if s.view client ≤ place then s.log[place]? else none

variable [DecidableEq σ] [DecidableEq θ] [DecidableEq ι]

def setStage (s : Pool S) (i : θ) (stage : SemaphoreStage ι) : Pool S :=
  { s with threads := Function.update s.threads i stage }

def setObject (s : Pool S) (k : σ) (o : SemaphoreObject) : Pool S :=
  { s with objects := Function.update s.objects k o }

def setLeases (s : Pool S) (leases : List σ) : Pool S := { s with leases := leases }.record

/-- A step of the lock objects. -/
def setWorld (s : Pool S) (world : World S.locks) : Pool S := { s with world := world }.record

/-- The write has been sent, and its caller gets an exception. -/
def lose (s : Pool S) (r : LateWrite σ ι) : Pool S := { s with late := s.late ++ [r] }

/-- `_inner_acquire` is over, and `acquire` with it unless it is retried or has to clean up. -/
def finish (s : Pool S) (i : θ) : Ending → Pool S
  | .returned gotten =>
    (s.setObject (S.object i) { s.objects (S.object i) with isAcquired := gotten }).setStage i .idle
  | .raised e =>
    if e.retried then s.setStage i .sleeping
    else if e.isKazooException then s.setStage i .cleaning
    else s.setStage i .idle

/-- `_best_effort_cleanup` is over. -/
def cleaned (s : Pool S) (i : θ) : Pool S :=
  (s.setObject (S.object i) { s.objects (S.object i) with cancelled := false }).setStage i .idle

/-- A call to the server raises, whether or not it has been carried out. -/
def failing (s : Pool S) (i : θ) (e : Exn) : Option (Pool S) :=
  match s.threads i with
  | .ensuring | .checking | .storing | .looking => some (s.finish i (.raised e))
  | .counting l | .confirming l => some (s.setStage i (.unlocking l (.raised e)))
  | .creating l =>
    some ((s.lose (.createLease l)).setStage i (.unlocking l (.raised e)))
  | .cleaning =>
    let s := s.lose (.deleteLease (S.object i))
    some (if e.isKazooException then s.cleaned i else s.setStage i .idle)
  | .deleting =>
    -- a `NoNodeError` is a lease that is gone
    if e = .noNodeError then none
    else some ((s.lose (.deleteLease (S.object i))).setStage i
      (if e.retried then .resting else .idle))
  | _ => none

/-- The deletes of a lock node that may still be carried out after the step. -/
def leaves (world : World S.locks) : LockAct S.locks → List (LateWrite σ ι)
  | .thread l (.fail e) =>
    match (world.locks l).stage with
    | .deleting _ node => if e = .noNodeError then [] else [.deleteLock l node]
    | _ => []
  | .thread l (.releaseFail i _ _) =>
    match (world.locks l).releasing[i]? with
    | some (.deleting node) => [.deleteLock l node]
    | _ => []
  | _ => []

/-- A step of the lock object that `k` has made. -/
def lockStep (s : Pool S) (k : σ) (act : LockAct S.locks) (place : Nat) : Option (Pool S) :=
  let client := S.client k
  if act.writes = true ∧ ¬ s.Settled client then none
  else match s.world.step act with
  | none => none
  | some world =>
    let s' := { s with late := s.late ++ leaves s.world act }.setWorld world
    match act.children? with
    | none => some (if act.writes then s'.synced client else s')
    | some children =>
      match s.shown? client place with
      | some (nodes, _) =>
        if children.Perm (nodes.map Znode.name) then some (s'.see client place) else none
      | none => none

/-- A write that has been late is carried out. -/
def serve (s : Pool S) : LateWrite σ ι → Pool S
  | .createLease l =>
    if S.maker l ∈ s.leases then s else s.setLeases (S.maker l :: s.leases)
  | .deleteLease k => s.setLeases (s.leases.erase k)
  | .deleteLock _ name => s.setWorld (s.world.delete name)

/-- The step, where the thread is at the place it starts from. -/
def step (s : Pool S) : SemaphoreAct S → Option (Pool S)
  | .acquire i blocking timed =>
    if s.threads i = .idle then
      some ({ s with calls := Function.update s.calls i ⟨blocking, timed⟩ }.setObject (S.object i)
        { s.objects (S.object i) with cancelled := false } |>.setStage i .attempting)
    else none
  | .attempt i =>
    if s.threads i = .attempting then
      some (s.setStage i (if (s.objects (S.object i)).assuredPath then .looking else .ensuring))
    else none
  | .ensure i existed =>
    if s.threads i = .ensuring then
      some ((s.setObject (S.object i) { s.objects (S.object i) with assuredPath := true }).setStage i
        (if existed then .checking else .storing))
    else none
  | .check i leases =>
    if s.threads i = .checking then
      some (if leases = none ∨ leases = some (S.maxLeases : Int) then s.setStage i .looking
        else s.finish i (.raised .valueError))
    else none
  | .store i => if s.threads i = .storing then some (s.setStage i .looking) else none
  | .look i place =>
    if s.threads i = .looking then
      match s.shown? (S.client (S.object i)) place with
      | some (_, leases) =>
        let s := s.see (S.client (S.object i)) place
        some (if S.object i ∈ leases then s.finish i (.returned true) else s.setStage i .making)
      | none => none
    else none
  | .make i l =>
    if s.threads i = .making ∧ s.made l = false ∧ S.maker l = S.object i then
      match s.world.step (.thread l (.enter (s.calls i).blocking (s.calls i).timed true)) with
      | some world =>
        some ({ s with made := Function.update s.made l true }.setWorld world |>.setStage i
          (.locking l))
      | none => none
    else none
  | .lock i act place =>
    match s.threads i with
    | .locking l => if act.acquires l then s.lockStep (S.object i) act place else none
    | _ => none
  | .locked i e =>
    match s.threads i with
    | .locking l =>
      if (s.world.locks l).stage = .absent then
        some (s.setStage i (
          if (s.world.locks l).isAcquired then .counting l
          else .unlocking l (match e with
            | none => .returned false
            | some e => .raised e)))
      else none
    | _ => none
  | .count i place =>
    match s.threads i with
    | .counting l =>
      if (s.objects (S.object i)).cancelled then
        some (s.setStage i (.unlocking l (.raised .cancelledError)))
      else match s.shown? (S.client (S.object i)) place with
      | some (_, leases) =>
        some ((s.see (S.client (S.object i)) place).setStage i
          (if leases.length < S.maxLeases then .creating l else .confirming l))
      | none => none
    | _ => none
  | .create i =>
    match s.threads i with
    | .creating l =>
      if s.Settled (S.client (S.object i)) then
        some (if S.object i ∈ s.leases then
            s.setStage i (.unlocking l (.raised .nodeExistsError))
          else (s.setLeases (S.object i :: s.leases)).synced (S.client (S.object i)) |>.setStage i
            (.confirming l))
      else none
    | _ => none
  | .confirm i place =>
    match s.threads i with
    | .confirming l =>
      match s.shown? (S.client (S.object i)) place with
      | some (_, leases) =>
        let found := S.object i ∈ leases
        some (((s.see (S.client (S.object i)) place).setObject (S.object i)
          { s.objects (S.object i) with isAcquired := found }).setStage i (
            if found then .unlocking l (.returned true)
            else if (s.calls i).blocking then .waiting l
            else .unlocking l (.returned false)))
      | none => none
    | _ => none
  | .wake i =>
    match s.threads i with
    | .waiting l => some (s.setStage i (.counting l))
    | _ => none
  | .timeOut i =>
    match s.threads i with
    | .waiting l =>
      if (s.calls i).timed then some (s.setStage i (.unlocking l (.raised .lockTimeout))) else none
    | _ => none
  | .unlock i =>
    match s.threads i with
    | .unlocking l ending =>
      match s.world.step (.thread l .release) with
      | some world => some ((s.setWorld world).setStage i (.freeing l ending))
      | none => none
    | _ => none
  | .free i act =>
    match s.threads i with
    | .freeing l _ => if act.releases l then s.lockStep (S.object i) act 0 else none
    | _ => none
  | .freed i e =>
    match s.threads i with
    | .freeing l ending =>
      if (s.world.locks l).releasing = [] then
        some (s.finish i (match e with
          | none => ending
          | some e => .raised e))
      else none
    | _ => none
  | .fail i e => s.failing i e
  | .again i =>
    match s.threads i with
    | .sleeping => some (s.setStage i .attempting)
    | .resting => some (s.setStage i .releasing)
    | _ => none
  | .giveUp i =>
    match s.threads i with
    | .sleeping => some (s.finish i (.raised .retryFailedError))
    | .resting => some (s.setStage i .idle)
    | _ => none
  | .clean i =>
    if s.threads i = .cleaning ∧ s.Settled (S.client (S.object i)) then
      some (((s.setLeases (s.leases.erase (S.object i))).synced (S.client (S.object i))).cleaned i)
    else none
  | .release i => if s.threads i = .idle then some (s.setStage i .releasing) else none
  | .test i =>
    if s.threads i = .releasing then
      some (s.setStage i (if (s.objects (S.object i)).isAcquired then .deleting else .idle))
    else none
  | .delete i =>
    if s.threads i = .deleting ∧ s.Settled (S.client (S.object i)) then
      some (((s.setLeases (s.leases.erase (S.object i))).synced (S.client (S.object i))).setObject
        (S.object i) { s.objects (S.object i) with isAcquired := false } |>.setStage i .idle)
    else none
  | .cancel k => some (s.setObject k { s.objects k with cancelled := true })
  | .serveLate n =>
    match s.late[n]? with
    | some r =>
      if ∀ r' ∈ s.late.take n, lateClient S r' ≠ lateClient S r then
        some ({ s with late := s.late.eraseIdx n }.serve r)
      else none
    | none => none
  | .loseLate n => if n < s.late.length then some { s with late := s.late.eraseIdx n } else none
  | .serveLateNode n number =>
    match s.world.step (.createLate n number) with
    | some world => some (s.setWorld world)
    | none => none

/-- All that a step can do. -/
inductive Steps (s : Pool S) : SemaphoreAct S → Pool S → Prop
  | acquire {i : θ} {blocking timed : Bool} (hi : s.threads i = .idle) :
    Steps s (.acquire i blocking timed)
      ({ s with calls := Function.update s.calls i ⟨blocking, timed⟩ }.setObject (S.object i)
        { s.objects (S.object i) with cancelled := false } |>.setStage i .attempting)
  | attempt {i : θ} (hi : s.threads i = .attempting) :
    Steps s (.attempt i)
      (s.setStage i (if (s.objects (S.object i)).assuredPath then .looking else .ensuring))
  | ensure {i : θ} {existed : Bool} (hi : s.threads i = .ensuring) :
    Steps s (.ensure i existed)
      ((s.setObject (S.object i) { s.objects (S.object i) with assuredPath := true }).setStage i
        (if existed then .checking else .storing))
  | check {i : θ} {leases : Option Int} (hi : s.threads i = .checking)
      (hsize : leases = none ∨ leases = some (S.maxLeases : Int)) :
    Steps s (.check i leases) (s.setStage i .looking)
  | checkFailed {i : θ} {leases : Option Int} (hi : s.threads i = .checking)
      (hsize : ¬ (leases = none ∨ leases = some (S.maxLeases : Int))) :
    Steps s (.check i leases) (s.finish i (.raised .valueError))
  | store {i : θ} (hi : s.threads i = .storing) : Steps s (.store i) (s.setStage i .looking)
  | look {i : θ} {place : Nat} {x : PoolState S} (hi : s.threads i = .looking)
      (hshown : s.shown? (S.client (S.object i)) place = some x) (hfound : S.object i ∉ x.2) :
    Steps s (.look i place) ((s.see (S.client (S.object i)) place).setStage i .making)
  | lookFound {i : θ} {place : Nat} {x : PoolState S} (hi : s.threads i = .looking)
      (hshown : s.shown? (S.client (S.object i)) place = some x) (hfound : S.object i ∈ x.2) :
    Steps s (.look i place) ((s.see (S.client (S.object i)) place).finish i (.returned true))
  | make {i : θ} {l : ι} {world : World S.locks} (hi : s.threads i = .making)
      (hfresh : s.made l = false) (hmaker : S.maker l = S.object i)
      (hworld : s.world.step (.thread l (.enter (s.calls i).blocking (s.calls i).timed true)) =
        some world) :
    Steps s (.make i l)
      ({ s with made := Function.update s.made l true }.setWorld world |>.setStage i (.locking l))
  | lock {i : θ} {act : LockAct S.locks} {place : Nat} {l : ι} {s' : Pool S}
      (hi : s.threads i = .locking l) (hact : act.acquires l)
      (hstep : s.lockStep (S.object i) act place = some s') : Steps s (.lock i act place) s'
  | locked {i : θ} {e : Option Exn} {l : ι} (hi : s.threads i = .locking l)
      (habsent : (s.world.locks l).stage = .absent) (hheld : (s.world.locks l).isAcquired = true) :
    Steps s (.locked i e) (s.setStage i (.counting l))
  | notLocked {i : θ} {l : ι} (hi : s.threads i = .locking l)
      (habsent : (s.world.locks l).stage = .absent) (hfree : (s.world.locks l).isAcquired ≠ true) :
    Steps s (.locked i none) (s.setStage i (.unlocking l (.returned false)))
  | lockRaised {i : θ} {e : Exn} {l : ι} (hi : s.threads i = .locking l)
      (habsent : (s.world.locks l).stage = .absent) (hfree : (s.world.locks l).isAcquired ≠ true) :
    Steps s (.locked i (some e)) (s.setStage i (.unlocking l (.raised e)))
  | countCancelled {i : θ} {place : Nat} {l : ι} (hi : s.threads i = .counting l)
      (hflag : (s.objects (S.object i)).cancelled = true) :
    Steps s (.count i place) (s.setStage i (.unlocking l (.raised .cancelledError)))
  | count {i : θ} {place : Nat} {l : ι} {x : PoolState S} (hi : s.threads i = .counting l)
      (hflag : (s.objects (S.object i)).cancelled ≠ true)
      (hshown : s.shown? (S.client (S.object i)) place = some x) :
    Steps s (.count i place) ((s.see (S.client (S.object i)) place).setStage i
      (if x.2.length < S.maxLeases then .creating l else .confirming l))
  | createExists {i : θ} {l : ι} (hi : s.threads i = .creating l)
      (hsettled : s.Settled (S.client (S.object i))) (hmem : S.object i ∈ s.leases) :
    Steps s (.create i) (s.setStage i (.unlocking l (.raised .nodeExistsError)))
  | create {i : θ} {l : ι} (hi : s.threads i = .creating l)
      (hsettled : s.Settled (S.client (S.object i))) (hnone : S.object i ∉ s.leases) :
    Steps s (.create i) ((s.setLeases (S.object i :: s.leases)).synced (S.client (S.object i))
      |>.setStage i (.confirming l))
  | confirm {i : θ} {place : Nat} {l : ι} {x : PoolState S} (hi : s.threads i = .confirming l)
      (hshown : s.shown? (S.client (S.object i)) place = some x) :
    Steps s (.confirm i place) (((s.see (S.client (S.object i)) place).setObject (S.object i)
      { s.objects (S.object i) with isAcquired := S.object i ∈ x.2 }).setStage i (
        if S.object i ∈ x.2 then .unlocking l (.returned true)
        else if (s.calls i).blocking then .waiting l
        else .unlocking l (.returned false)))
  | wake {i : θ} {l : ι} (hi : s.threads i = .waiting l) :
    Steps s (.wake i) (s.setStage i (.counting l))
  | timeOut {i : θ} {l : ι} (hi : s.threads i = .waiting l) (htimed : (s.calls i).timed = true) :
    Steps s (.timeOut i) (s.setStage i (.unlocking l (.raised .lockTimeout)))
  | unlock {i : θ} {l : ι} {ending : Ending} {world : World S.locks}
      (hi : s.threads i = .unlocking l ending)
      (hworld : s.world.step (.thread l .release) = some world) :
    Steps s (.unlock i) ((s.setWorld world).setStage i (.freeing l ending))
  | free {i : θ} {act : LockAct S.locks} {l : ι} {ending : Ending} {s' : Pool S}
      (hi : s.threads i = .freeing l ending) (hact : act.releases l)
      (hstep : s.lockStep (S.object i) act 0 = some s') : Steps s (.free i act) s'
  | freed {i : θ} {l : ι} {ending : Ending} (hi : s.threads i = .freeing l ending)
      (hover : (s.world.locks l).releasing = []) :
    Steps s (.freed i none) (s.finish i ending)
  | freedRaised {i : θ} {e : Exn} {l : ι} {ending : Ending} (hi : s.threads i = .freeing l ending)
      (hover : (s.world.locks l).releasing = []) :
    Steps s (.freed i (some e)) (s.finish i (.raised e))
  | fail {i : θ} {e : Exn} {s' : Pool S} (hfails : s.failing i e = some s') : Steps s (.fail i e) s'
  | again {i : θ} (hi : s.threads i = .sleeping) : Steps s (.again i) (s.setStage i .attempting)
  | againRelease {i : θ} (hi : s.threads i = .resting) :
    Steps s (.again i) (s.setStage i .releasing)
  | giveUp {i : θ} (hi : s.threads i = .sleeping) :
    Steps s (.giveUp i) (s.finish i (.raised .retryFailedError))
  | giveUpRelease {i : θ} (hi : s.threads i = .resting) : Steps s (.giveUp i) (s.setStage i .idle)
  | clean {i : θ} (hi : s.threads i = .cleaning) (hsettled : s.Settled (S.client (S.object i))) :
    Steps s (.clean i)
      (((s.setLeases (s.leases.erase (S.object i))).synced (S.client (S.object i))).cleaned i)
  | release {i : θ} (hi : s.threads i = .idle) : Steps s (.release i) (s.setStage i .releasing)
  | test {i : θ} (hi : s.threads i = .releasing) :
    Steps s (.test i)
      (s.setStage i (if (s.objects (S.object i)).isAcquired then .deleting else .idle))
  | delete {i : θ} (hi : s.threads i = .deleting) (hsettled : s.Settled (S.client (S.object i))) :
    Steps s (.delete i) (((s.setLeases (s.leases.erase (S.object i))).synced
      (S.client (S.object i))).setObject (S.object i)
        { s.objects (S.object i) with isAcquired := false } |>.setStage i .idle)
  | cancel {k : σ} : Steps s (.cancel k) (s.setObject k { s.objects k with cancelled := true })
  | serveLate {n : Nat} {r : LateWrite σ ι} (hn : s.late[n]? = some r)
      (hfirst : ∀ r' ∈ s.late.take n, lateClient S r' ≠ lateClient S r) :
    Steps s (.serveLate n) ({ s with late := s.late.eraseIdx n }.serve r)
  | loseLate {n : Nat} (hn : n < s.late.length) : Steps s (.loseLate n) { s with late := s.late.eraseIdx n }
  | serveLateNode {n number : Nat} {world : World S.locks}
      (hworld : s.world.step (.createLate n number) = some world) :
    Steps s (.serveLateNode n number) (s.setWorld world)

theorem steps_of_step {s s' : Pool S} {act : SemaphoreAct S} (h : s.step act = some s') :
    s.Steps act s' := by
  cases act <;> simp only [step] at h
  case fail i e => exact .fail h
  case acquire i blocking timed => split at h <;> cases h; exact .acquire ‹_›
  case attempt i => split at h <;> cases h; exact .attempt ‹_›
  case ensure i existed => split at h <;> cases h; exact .ensure ‹_›
  case store i => split at h <;> cases h; exact .store ‹_›
  case wake i => split at h <;> cases h; exact .wake ‹_›
  case release i => split at h <;> cases h; exact .release ‹_›
  case test i => split at h <;> cases h; exact .test ‹_›
  case cancel k => cases h; exact .cancel
  case loseLate n => split at h <;> cases h; exact .loseLate ‹_›
  case serveLateNode n number => split at h <;> cases h; exact .serveLateNode ‹_›
  case check i leases =>
    split at h <;> cases h
    next hi =>
      split
      · exact .check hi ‹_›
      · exact .checkFailed hi ‹_›
  case look i place =>
    split at h
    · split at h <;> cases h
      next hi _ _ _ hshown =>
        split
        · next hfound => exact .lookFound hi hshown hfound
        · next hfound => exact .look hi hshown hfound
    · cases h
  case make i l =>
    split at h
    · next hmaking =>
      split at h <;> cases h
      exact .make hmaking.1 hmaking.2.1 hmaking.2.2 ‹_›
    · cases h
  case lock i act place =>
    split at h
    · next hi =>
      obtain ⟨hact, h⟩ := Option.ite_none_right_eq_some.mp h
      exact .lock hi hact h
    · cases h
  case locked i e =>
    split at h
    · next hi =>
      split at h <;> cases h
      next habsent =>
        split
        · next hheld => exact .locked hi habsent hheld
        · next hfree =>
          cases e with
          | none => exact .notLocked hi habsent hfree
          | some e => exact .lockRaised hi habsent hfree
    · cases h
  case count i place =>
    split at h
    · next hi =>
      split at h
      · next hflag =>
        cases h
        exact .countCancelled hi hflag
      · next hflag =>
        split at h <;> cases h
        next hshown => exact .count hi hflag hshown
    · cases h
  case create i =>
    split at h
    · next hi =>
      split at h <;> cases h
      next hsettled =>
        split
        · next hmem => exact .createExists hi hsettled hmem
        · next hnone => exact .create hi hsettled hnone
    · cases h
  case confirm i place =>
    split at h
    · next hi =>
      split at h <;> cases h
      next hshown => exact .confirm hi hshown
    · cases h
  case timeOut i =>
    split at h
    · next hi =>
      split at h <;> cases h
      exact .timeOut hi ‹_›
    · cases h
  case unlock i =>
    split at h
    · next hi =>
      split at h <;> cases h
      exact .unlock hi ‹_›
    · cases h
  case free i act =>
    split at h
    · next hi =>
      obtain ⟨hact, h⟩ := Option.ite_none_right_eq_some.mp h
      exact .free hi hact h
    · cases h
  case freed i e =>
    split at h
    · next hi =>
      split at h <;> cases h
      next hover =>
        cases e with
        | none => exact .freed hi hover
        | some e => exact .freedRaised hi hover
    · cases h
  case again i =>
    split at h <;> cases h
    · exact .again ‹_›
    · exact .againRelease ‹_›
  case giveUp i =>
    split at h <;> cases h
    · exact .giveUp ‹_›
    · exact .giveUpRelease ‹_›
  case clean i =>
    split at h <;> cases h
    next hcond => exact .clean hcond.1 hcond.2
  case delete i =>
    split at h <;> cases h
    next hcond => exact .delete hcond.1 hcond.2
  case serveLate n =>
    split at h
    · next hn =>
      split at h <;> cases h
      exact .serveLate hn ‹_›
    · cases h

end Pool

/-- All interleavings of the threads and the server. -/
def leasing {σ θ ι : Type} [DecidableEq σ] [DecidableEq θ] [DecidableEq ι] (S : Semaphores σ θ ι) :
    Machine (Pool S) (SemaphoreAct S) where
  init := .new
  enabled := fun s act => (s.step act).isSome
  post := fun s act => (s.step act).getD s

instance {σ θ ι : Type} [DecidableEq σ] [DecidableEq θ] [DecidableEq ι] (S : Semaphores σ θ ι)
    (s : Pool S) (act : SemaphoreAct S) : Decidable ((leasing S).enabled s act) :=
  inferInstanceAs (Decidable ((s.step act).isSome = true))

end Kazoo
