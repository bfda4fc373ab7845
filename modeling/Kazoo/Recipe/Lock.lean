import Kazoo.Lib.Machine
import Kazoo.Recipe.Contenders
import Mathlib.Logic.Function.Basic

/-!
# Lock objects on one path

Any number of lock objects of any number of clients contend for one path.  Each object is shared by
threads: one at a time is inside `acquire`, past `_acquire_method_lock`, and any number are inside
`release`.  The server numbers the sequential children of the path and serves lists of children as
old as it likes.  Any call to it may raise any exception, whether or not it has been carried out.
-/

namespace Kazoo

/-! ## One lock object -/

/-- The arguments of a call of `acquire`, and its `already_acquired`. -/
structure Call where
  blocking : Bool
  -- whether `timeout` is not `None`
  timed : Bool
  ephemeral : Bool
  alreadyAcquired : Bool
  deriving DecidableEq, Repr

/-- Where the thread inside `acquire` is. -/
inductive Stage
  -- nobody holds `_acquire_method_lock`
  | absent
  | entered
  -- at the top of `_inner_acquire`
  | attempting
  | ensuring
  | finding
  | creating
  -- it knows its node, and has not stored it
  | named (node : PyStr)
  -- at the top of the `while` loop
  | contending (node : PyStr)
  -- in `_get_predecessor`
  | comparing (node : PyStr)
  -- in `client.get(predecessor, self._watch_predecessor)`
  | watching (node : PyStr)
  -- in `wake_event.wait(timeout)`
  | waiting (node : PyStr)
  -- `_inner_acquire` has returned `True`
  | gotten (node : PyStr)
  -- between two attempts of `KazooRetry`
  | sleeping
  -- in `_best_effort_cleanup`, after which it raises or returns `False`
  | cleaning (raising : Bool)
  | deleting (raising : Bool) (node : PyStr)
  deriving DecidableEq, Repr

/-- Where a thread inside `_inner_release` is. -/
inductive Releasing
  | testing
  -- about to read `self.node`
  | reading
  | deleting (node : PyStr)
  -- about to set `is_acquired` to `False`
  | unmarking
  -- about to set `node` to `None`
  | clearing
  deriving DecidableEq, Repr

structure LockObject where
  node : Option PyStr
  createTried : Bool
  isAcquired : Bool
  assuredPath : Bool
  cancelled : Bool
  call : Call
  stage : Stage
  releasing : List Releasing
  -- history: the node with which `acquire` was last successful
  acquiredWith : Option PyStr

namespace LockObject

/-- A lock object as `__init__` leaves it. -/
def new : LockObject where
  node := none
  createTried := false
  isAcquired := false
  assuredPath := false
  cancelled := false
  call := ⟨false, false, false, false⟩
  stage := .absent
  releasing := []
  acquiredWith := none

/-- `_inner_acquire` raises: the retries and the handlers of `acquire`. -/
def raised (e : Exn) (o : LockObject) : LockObject :=
  if e.retried then { o with stage := .sleeping }
  else if e.isKazooException && !o.call.alreadyAcquired then { o with stage := .cleaning true }
  else { o with stage := .absent }

/-- `gotten` is `False`. -/
def refused (o : LockObject) : LockObject :=
  if o.call.alreadyAcquired then { o with stage := .absent }
  else { o with stage := .cleaning false }

/-- `acquire` is left after `_best_effort_cleanup`. -/
def cleaned (raising : Bool) (o : LockObject) : LockObject :=
  { o with cancelled := if raising then false else o.cancelled, stage := .absent }

/-- Thread `i` inside `release` goes on, or leaves. -/
def releaser (i : Nat) (next : Option Releasing) (o : LockObject) : LockObject :=
  match next with
  | some r => { o with releasing := o.releasing.set i r }
  | none => { o with releasing := o.releasing.eraseIdx i }

/-- The steps of the threads in which the server changes nothing. -/
inductive Act
  | enter (blocking timed ephemeral : Bool)
  | look
  | attempt
  | ensure
  | find (children : List PyStr)
  | store
  | contend
  | compare (children : List PyStr)
  | watch (found : Bool)
  | wake
  | timeOut
  | fail (e : Exn)
  | again
  | giveUp
  | mark
  | clean (children : List PyStr)
  | release
  | test (i : Nat)
  | read (i : Nat)
  | unmark (i : Nat)
  | clear (i : Nat)
  | releaseFail (i : Nat) (e : Exn) (again : Bool)
  | cancel
  deriving DecidableEq, Repr

/-- The list of children that a step has got from the server. -/
def Act.children? : Act → Option (List PyStr)
  | .find children | .compare children | .clean children => some children
  | _ => none

/-- A call to the server raises. -/
def failing (e : Exn) (o : LockObject) : Option LockObject :=
  match o.stage with
  | .ensuring => if o.assuredPath then none else some (o.raised e)
  | .finding => if o.createTried then some (o.raised e) else none
  | .comparing _ => some (o.raised e)
  -- a `NoNodeError` is a predecessor that is gone
  | .watching _ => if e = .noNodeError then none else some (o.raised e)
  | .cleaning raising | .deleting raising _ =>
    some (if e.isKazooException then o.cleaned raising else { o with stage := .absent })
  | _ => none

/-- The step, where a thread is at the place it starts from. -/
def step (decimal : CodePoint → Bool) (c : LockConfig) (o : LockObject) : Act → Option LockObject
  | .enter blocking timed ephemeral =>
    if o.stage = .absent then
      some { o with call := ⟨blocking, timed, ephemeral, false⟩, stage := .entered }
    else none
  | .look =>
    if o.stage = .entered then
      some { o with
        call := { o.call with alreadyAcquired := o.isAcquired }
        stage := .attempting }
    else none
  | .attempt =>
    if o.stage = .attempting then
      some (
        if o.isAcquired then
          if o.call.blocking then o.raised .forceRetryError else o.refused
        else { o with stage := .ensuring })
    else none
  | .ensure =>
    if o.stage = .ensuring then some { o with assuredPath := true, stage := .finding } else none
  | .find children =>
    if o.stage = .finding then
      if o.createTried then
        match c.findNode children with
        | some node => some { o with stage := .named node }
        | none => some { o with stage := .creating }
      else some { o with createTried := true, stage := .creating }
    else none
  | .store =>
    match o.stage with
    | .named node => some { o with node := some node, stage := .contending node }
    | _ => none
  | .contend =>
    match o.stage with
    | .contending node =>
      some (if o.cancelled then o.raised .cancelledError else { o with stage := .comparing node })
    | _ => none
  | .compare children =>
    match o.stage with
    | .comparing node =>
      match c.getPredecessor decimal node children with
      | .error e => some (o.raised e)
      | .ok none => some { o with stage := .gotten node }
      | .ok (some _) =>
        some (if o.call.blocking then { o with stage := .watching node } else o.refused)
    | _ => none
  | .watch found =>
    match o.stage with
    | .watching node =>
      some { o with stage := if found then .waiting node else .contending node }
    | _ => none
  | .wake =>
    match o.stage with
    | .waiting node => some { o with stage := .contending node }
    | _ => none
  | .timeOut =>
    match o.stage with
    | .waiting _ => if o.call.timed then some (o.raised .lockTimeout) else none
    | _ => none
  | .fail e => o.failing e
  | .again => if o.stage = .sleeping then some { o with stage := .attempting } else none
  -- `RetryFailedError("Exceeded retry deadline")`
  | .giveUp => if o.stage = .sleeping ∧ o.call.timed then some o.refused else none
  | .mark =>
    match o.stage with
    | .gotten node =>
      some { o with isAcquired := true, stage := .absent, acquiredWith := some node }
    | _ => none
  | .clean children =>
    match o.stage with
    | .cleaning raising =>
      match o.node.or (c.findNode children) with
      | some node => some { o with stage := .deleting raising node }
      | none => some (o.cleaned raising)
    | _ => none
  | .release => some { o with releasing := o.releasing ++ [.testing] }
  | .test i =>
    if o.releasing[i]? = some .testing then
      some (o.releaser i (if o.isAcquired then some .reading else none))
    else none
  -- `self.path + "/" + None` is a `TypeError`
  | .read i =>
    if o.releasing[i]? = some .reading then some (o.releaser i (o.node.map .deleting)) else none
  | .unmark i =>
    if o.releasing[i]? = some .unmarking then
      some { o.releaser i (some .clearing) with isAcquired := false }
    else none
  | .clear i =>
    if o.releasing[i]? = some .clearing then some { o.releaser i none with node := none } else none
  -- `client.retry` tries again, or the exception leaves `release`
  | .releaseFail i e again =>
    match o.releasing[i]? with
    | some (.deleting _) =>
      if e = .noNodeError ∨ again = true ∧ e.retried = false then none
      else some (o.releaser i (if again then some .testing else none))
    | _ => none
  | .cancel => some { o with cancelled := true }

/-- All that a step can do. -/
inductive Steps (decimal : CodePoint → Bool) (c : LockConfig) (o : LockObject) :
    Act → LockObject → Prop
  | enter {blocking timed ephemeral : Bool} (hstage : o.stage = .absent) :
    Steps decimal c o (.enter blocking timed ephemeral)
      { o with call := ⟨blocking, timed, ephemeral, false⟩, stage := .entered }
  | look (hstage : o.stage = .entered) :
    Steps decimal c o .look
      { o with call := { o.call with alreadyAcquired := o.isAcquired }, stage := .attempting }
  | attempt (hstage : o.stage = .attempting) (hfree : o.isAcquired = false) :
    Steps decimal c o .attempt { o with stage := .ensuring }
  | attemptHeld (hstage : o.stage = .attempting) (hheld : o.isAcquired = true) :
    Steps decimal c o .attempt (if o.call.blocking then o.raised .forceRetryError else o.refused)
  | ensure (hstage : o.stage = .ensuring) :
    Steps decimal c o .ensure { o with assuredPath := true, stage := .finding }
  | findOwn {children : List PyStr} {node : PyStr} (hstage : o.stage = .finding)
      (htried : o.createTried = true) (hfound : c.findNode children = some node) :
    Steps decimal c o (.find children) { o with stage := .named node }
  | findNone {children : List PyStr} (hstage : o.stage = .finding) (htried : o.createTried = true)
      (hfound : c.findNode children = none) :
    Steps decimal c o (.find children) { o with stage := .creating }
  | findFirst {children : List PyStr} (hstage : o.stage = .finding) (htried : o.createTried = false) :
    Steps decimal c o (.find children) { o with createTried := true, stage := .creating }
  | store {node : PyStr} (hstage : o.stage = .named node) :
    Steps decimal c o .store { o with node := some node, stage := .contending node }
  | contend {node : PyStr} (hstage : o.stage = .contending node) (hflag : o.cancelled = false) :
    Steps decimal c o .contend { o with stage := .comparing node }
  | cancelled {node : PyStr} (hstage : o.stage = .contending node) (hflag : o.cancelled = true) :
    Steps decimal c o .contend (o.raised .cancelledError)
  | compareRaised {children : List PyStr} {node : PyStr} {e : Exn} (hstage : o.stage = .comparing node)
      (herror : c.getPredecessor decimal node children = .error e) :
    Steps decimal c o (.compare children) (o.raised e)
  | compareFirst {children : List PyStr} {node : PyStr} (hstage : o.stage = .comparing node)
      (hnone : c.getPredecessor decimal node children = .ok none) :
    Steps decimal c o (.compare children) { o with stage := .gotten node }
  | compareBehind {children : List PyStr} {node predecessor : PyStr}
      (hstage : o.stage = .comparing node)
      (hsome : c.getPredecessor decimal node children = .ok (some predecessor)) :
    Steps decimal c o (.compare children)
      (if o.call.blocking then { o with stage := .watching node } else o.refused)
  | watch {found : Bool} {node : PyStr} (hstage : o.stage = .watching node) :
    Steps decimal c o (.watch found)
      { o with stage := if found then .waiting node else .contending node }
  | wake {node : PyStr} (hstage : o.stage = .waiting node) :
    Steps decimal c o .wake { o with stage := .contending node }
  | timeOut {node : PyStr} (hstage : o.stage = .waiting node) (htimed : o.call.timed = true) :
    Steps decimal c o .timeOut (o.raised .lockTimeout)
  | fail {e : Exn} {o' : LockObject} (hfails : o.failing e = some o') : Steps decimal c o (.fail e) o'
  | again (hstage : o.stage = .sleeping) : Steps decimal c o .again { o with stage := .attempting }
  | giveUp (hstage : o.stage = .sleeping) (htimed : o.call.timed = true) :
    Steps decimal c o .giveUp o.refused
  | mark {node : PyStr} (hstage : o.stage = .gotten node) :
    Steps decimal c o .mark
      { o with isAcquired := true, stage := .absent, acquiredWith := some node }
  | clean {children : List PyStr} {raising : Bool} {node : PyStr} (hstage : o.stage = .cleaning raising)
      (hnode : o.node.or (c.findNode children) = some node) :
    Steps decimal c o (.clean children) { o with stage := .deleting raising node }
  | cleanNothing {children : List PyStr} {raising : Bool} (hstage : o.stage = .cleaning raising)
      (hnode : o.node.or (c.findNode children) = none) :
    Steps decimal c o (.clean children) (o.cleaned raising)
  | release : Steps decimal c o .release { o with releasing := o.releasing ++ [.testing] }
  | test {i : Nat} (hi : o.releasing[i]? = some .testing) :
    Steps decimal c o (.test i) (o.releaser i (if o.isAcquired then some .reading else none))
  | read {i : Nat} (hi : o.releasing[i]? = some .reading) :
    Steps decimal c o (.read i) (o.releaser i (o.node.map .deleting))
  | unmark {i : Nat} (hi : o.releasing[i]? = some .unmarking) :
    Steps decimal c o (.unmark i) { o.releaser i (some .clearing) with isAcquired := false }
  | clear {i : Nat} (hi : o.releasing[i]? = some .clearing) :
    Steps decimal c o (.clear i) { o.releaser i none with node := none }
  | releaseFail {i : Nat} {e : Exn} {again : Bool} {node : PyStr}
      (hi : o.releasing[i]? = some (.deleting node))
      (hfails : ¬ (e = .noNodeError ∨ again = true ∧ e.retried = false)) :
    Steps decimal c o (.releaseFail i e again) (o.releaser i (if again then some .testing else none))
  | cancel : Steps decimal c o .cancel { o with cancelled := true }

theorem steps_of_step {decimal : CodePoint → Bool} {c : LockConfig} {o o' : LockObject} {act : Act}
    (h : o.step decimal c act = some o') : Steps decimal c o act o' := by
  cases act <;> simp only [step] at h
  case fail e => exact .fail h
  case release => cases h; exact .release
  case cancel => cases h; exact .cancel
  case enter => split at h <;> cases h; exact .enter ‹_›
  case look => split at h <;> cases h; exact .look ‹_›
  case ensure => split at h <;> cases h; exact .ensure ‹_›
  case again => split at h <;> cases h; exact .again ‹_›
  case store => split at h <;> cases h; exact .store ‹_›
  case watch found => split at h <;> cases h; exact .watch ‹_›
  case wake => split at h <;> cases h; exact .wake ‹_›
  case mark => split at h <;> cases h; exact .mark ‹_›
  case test i => split at h <;> cases h; exact .test ‹_›
  case read i => split at h <;> cases h; exact .read ‹_›
  case unmark i => split at h <;> cases h; exact .unmark ‹_›
  case clear i => split at h <;> cases h; exact .clear ‹_›
  case attempt =>
    split at h <;> cases h
    next hstage =>
      by_cases hheld : o.isAcquired = true
      · rw [if_pos hheld]
        exact .attemptHeld hstage hheld
      · rw [if_neg hheld]
        exact .attempt hstage (Bool.eq_false_iff.mpr hheld)
  case find children =>
    split at h
    · next hstage =>
      split at h
      · next htried =>
        split at h <;> cases h
        · exact .findOwn hstage htried ‹_›
        · exact .findNone hstage htried ‹_›
      · next htried =>
        cases h
        exact .findFirst hstage (Bool.eq_false_iff.mpr htried)
    · cases h
  case contend =>
    split at h <;> cases h
    next hstage =>
      by_cases hflag : o.cancelled = true
      · rw [if_pos hflag]
        exact .cancelled hstage hflag
      · rw [if_neg hflag]
        exact .contend hstage (Bool.eq_false_iff.mpr hflag)
  case compare children =>
    split at h
    · next hstage =>
      split at h <;> cases h
      · exact .compareRaised hstage ‹_›
      · exact .compareFirst hstage ‹_›
      · exact .compareBehind hstage ‹_›
    · cases h
  case timeOut =>
    split at h
    · next hstage =>
      split at h <;> cases h
      exact .timeOut hstage ‹_›
    · cases h
  case giveUp =>
    split at h <;> cases h
    next hcond => exact .giveUp hcond.1 hcond.2
  case clean children =>
    split at h
    · next hstage =>
      split at h <;> cases h
      · exact .clean hstage ‹_›
      · exact .cleanNothing hstage ‹_›
    · cases h
  case releaseFail i e again =>
    split at h
    · next hi =>
      split at h <;> cases h
      exact .releaseFail hi ‹_›
    · cases h

end LockObject

/-! ## The server and all lock objects -/

/-- The lock objects that ever contend, and the code points that `\d` matches. -/
structure Locks (ι : Type) where
  config : ι → LockConfig
  uuid_injective : Function.Injective fun l => (config l).uuid
  oneFamily : (∀ l, (config l).kind = .lock) ∨ ∀ l, (config l).kind ≠ .lock
  decimal : CodePoint → Bool
  decimal_ascii : ∀ d < 10, decimal (digitChar d) = true

/-- A session of a client: the client and how many it has had before. -/
abbrev SessionId := Nat × Nat

/-- The name of a child that no lock object has asked for. -/
structure Foreign {ι : Type} (L : Locks ι) where
  name : PyStr
  foreign : ∀ l, ¬ (L.config l).lockPrefix <+: name

/-- A child of the lock path.  A contender that is ephemeral has an owner. -/
inductive Znode {ι : Type} (L : Locks ι)
  | contender (l : ι) (number : Nat) (owner : Option SessionId)
  | other (child : Foreign L)

namespace Znode

variable {ι : Type} {L : Locks ι}

def name : Znode L → PyStr
  | .contender l number _ => (L.config l).nodeName number
  | .other child => child.name

def owner : Znode L → Option SessionId
  | .contender _ _ owner => owner
  | .other _ => none

end Znode

structure World {ι : Type} (L : Locks ι) where
  locks : ι → LockObject
  nodes : List (Znode L)
  -- no sequential child has had this number or a greater one
  next : Nat
  -- every list of children there has been, newest first
  history : List (List (Znode L))
  -- how many sessions each client has had before the one it has
  expired : Nat → Nat
  -- creates that may still be carried out, though their callers have got an exception
  late : List (ι × Option SessionId)

namespace World

variable {ι : Type} {L : Locks ι}

def new : World L where
  locks := fun _ => .new
  nodes := []
  next := 0
  history := [[]]
  expired := fun _ => 0
  late := []

/-- The server may answer with these children: some of the lists that there have been, in any
order. -/
def Lists (w : World L) (children : List PyStr) : Prop :=
  ∃ nodes ∈ w.history, children.Perm (nodes.map Znode.name)

instance (w : World L) (children : List PyStr) : Decidable (w.Lists children) :=
  inferInstanceAs (Decidable (∃ nodes ∈ w.history, children.Perm (nodes.map Znode.name)))

def setNodes (nodes : List (Znode L)) (w : World L) : World L :=
  { w with nodes := nodes, history := nodes :: w.history }

/-- The server creates a sequential child for `l`: its number is greater than all before. -/
def create (l : ι) (number : Nat) (owner : Option SessionId) (w : World L) : World L :=
  { w.setNodes (.contender l number owner :: w.nodes) with next := number + 1 }

def delete (name : PyStr) (w : World L) : World L :=
  w.setNodes (w.nodes.filter fun x => x.name ≠ name)

/-- The owner of what `l` creates now. -/
def owner (w : World L) (l : ι) : Option SessionId :=
  if (w.locks l).call.ephemeral then some ((L.config l).client, w.expired (L.config l).client)
  else none

def Alive (w : World L) (owner : Option SessionId) : Prop :=
  ∀ id, owner = some id → w.expired id.1 = id.2

instance (w : World L) (owner : Option SessionId) : Decidable (w.Alive owner) :=
  match owner with
  | none => .isTrue fun _ h => by cases h
  | some id => decidable_of_iff (w.expired id.1 = id.2)
      ⟨fun h _ hid => Option.some.inj hid ▸ h, fun h => h id rfl⟩

/-- The number is one that the server may give next, and has ten digits. -/
def Fits (w : World L) (number : Nat) : Prop := w.next ≤ number ∧ number < sequenceLimit

instance (w : World L) (number : Nat) : Decidable (w.Fits number) :=
  inferInstanceAs (Decidable (_ ∧ _))

end World

inductive LockAct {ι : Type} (L : Locks ι)
  | thread (l : ι) (act : LockObject.Act)
  -- `client.create` is carried out and returns
  | create (l : ι) (number : Nat)
  -- `client.create` raises, and may be carried out later
  | createFail (l : ι) (e : Exn)
  -- the delete of `_best_effort_cleanup`
  | clean (l : ι)
  -- the delete of `_inner_release`, by thread `i`
  | delete (l : ι) (i : Nat)
  | createLate (i number : Nat)
  -- a child is deleted: by someone else, or for a caller who has got an exception
  | vanish (name : PyStr)
  | appear (child : Foreign L)
  | expire (client : Nat)

namespace World

variable {ι : Type} [DecidableEq ι] {L : Locks ι}

def setLock (l : ι) (o : LockObject) (w : World L) : World L :=
  { w with locks := Function.update w.locks l o }

/-- The step, where it can be taken. -/
def step (w : World L) : LockAct L → Option (World L)
  | .thread l act =>
    if ∀ children, act.children? = some children → w.Lists children then
      ((w.locks l).step L.decimal (L.config l) act).map fun o => w.setLock l o
    else none
  | .create l number =>
    if (w.locks l).stage = .creating ∧ w.Fits number then
      some ((w.create l number (w.owner l)).setLock l
        { w.locks l with stage := .named ((L.config l).nodeName number) })
    else none
  | .createFail l e =>
    if (w.locks l).stage = .creating then
      some { w.setLock l ((w.locks l).raised e) with late := w.late ++ [(l, w.owner l)] }
    else none
  | .clean l =>
    match (w.locks l).stage with
    | .deleting raising node => some ((w.delete node).setLock l ((w.locks l).cleaned raising))
    | _ => none
  | .delete l i =>
    match (w.locks l).releasing[i]? with
    | some (.deleting node) =>
      some ((w.delete node).setLock l ((w.locks l).releaser i (some .unmarking)))
    | _ => none
  | .createLate i number =>
    match w.late[i]? with
    | some (l, owner) =>
      if w.Alive owner ∧ w.Fits number then
        some { w.create l number owner with late := w.late.eraseIdx i }
      else none
    | none => none
  | .vanish name => some (w.delete name)
  | .appear child => some (w.setNodes (.other child :: w.nodes))
  | .expire client =>
    let session := (client, w.expired client)
    some { w.setNodes (w.nodes.filter fun x => x.owner ≠ some session) with
      expired := Function.update w.expired client (w.expired client + 1) }

/-- All that a step can do. -/
inductive Steps (w : World L) : LockAct L → World L → Prop
  | thread {l : ι} {act : LockObject.Act} {o : LockObject}
      (hlists : ∀ children, act.children? = some children → w.Lists children)
      (hstep : (w.locks l).step L.decimal (L.config l) act = some o) :
    Steps w (.thread l act) (w.setLock l o)
  | create {l : ι} {number : Nat} (hstage : (w.locks l).stage = .creating) (hfits : w.Fits number) :
    Steps w (.create l number) ((w.create l number (w.owner l)).setLock l
      { w.locks l with stage := .named ((L.config l).nodeName number) })
  | createFail {l : ι} {e : Exn} (hstage : (w.locks l).stage = .creating) :
    Steps w (.createFail l e)
      { w.setLock l ((w.locks l).raised e) with late := w.late ++ [(l, w.owner l)] }
  | clean {l : ι} {raising : Bool} {node : PyStr} (hstage : (w.locks l).stage = .deleting raising node) :
    Steps w (.clean l) ((w.delete node).setLock l ((w.locks l).cleaned raising))
  | delete {l : ι} {i : Nat} {node : PyStr} (hi : (w.locks l).releasing[i]? = some (.deleting node)) :
    Steps w (.delete l i) ((w.delete node).setLock l ((w.locks l).releaser i (some .unmarking)))
  | createLate {i number : Nat} {l : ι} {owner : Option SessionId} (hlate : w.late[i]? = some (l, owner))
      (halive : w.Alive owner) (hfits : w.Fits number) :
    Steps w (.createLate i number) { w.create l number owner with late := w.late.eraseIdx i }
  | vanish {name : PyStr} : Steps w (.vanish name) (w.delete name)
  | appear {child : Foreign L} : Steps w (.appear child) (w.setNodes (.other child :: w.nodes))
  | expire {client : Nat} :
    Steps w (.expire client)
      { w.setNodes (w.nodes.filter fun x => x.owner ≠ some (client, w.expired client)) with
        expired := Function.update w.expired client (w.expired client + 1) }

theorem steps_of_step {w w' : World L} {act : LockAct L} (h : w.step act = some w') :
    w.Steps act w' := by
  cases act <;> simp only [step] at h
  case thread l act =>
    obtain ⟨hlists, h⟩ := Option.ite_none_right_eq_some.mp h
    obtain ⟨o, ho, rfl⟩ := Option.map_eq_some_iff.mp h
    exact .thread hlists ho
  case create l number =>
    split at h <;> cases h
    next hcond => exact .create hcond.1 hcond.2
  case createFail l e =>
    split at h <;> cases h
    exact .createFail ‹_›
  case clean l =>
    split at h <;> cases h
    exact .clean ‹_›
  case delete l i =>
    split at h <;> cases h
    exact .delete ‹_›
  case createLate i number =>
    split at h
    · next hlate =>
      split at h <;> cases h
      next hcond => exact .createLate hlate hcond.1 hcond.2
    · cases h
  case vanish name => cases h; exact .vanish
  case appear child => cases h; exact .appear
  case expire client => cases h; exact .expire

end World

/-- All interleavings of the threads, the server and everyone else. -/
def contention {ι : Type} [DecidableEq ι] (L : Locks ι) : Machine (World L) (LockAct L) where
  init := .new
  enabled := fun w act => (w.step act).isSome
  post := fun w act => (w.step act).getD w

instance {ι : Type} [DecidableEq ι] (L : Locks ι) (w : World L) (act : LockAct L) :
    Decidable ((contention L).enabled w act) :=
  inferInstanceAs (Decidable ((w.step act).isSome = true))

/-! ## The steps of one call of `acquire` or `release` -/

namespace LockObject.Act

/-- The steps of the thread inside `acquire`, once it is entered. -/
def acquires : LockObject.Act → Bool
  | .look | .attempt | .ensure | .find _ | .store | .contend | .compare _ | .watch _ | .wake
  | .timeOut | .fail _ | .again | .giveUp | .mark | .clean _ => true
  | _ => false

/-- The steps of the thread inside `release`, once it is entered. -/
def releases : LockObject.Act → Bool
  | .test _ | .read _ | .unmark _ | .clear _ | .releaseFail _ _ _ => true
  | _ => false

end LockObject.Act

namespace LockAct

variable {ι : Type} {L : Locks ι}

def acquires (l : ι) : LockAct L → Prop
  | .thread l' act => l' = l ∧ act.acquires = true
  | .create l' _ | .createFail l' _ | .clean l' => l' = l
  | _ => False

def releases (l : ι) : LockAct L → Prop
  | .thread l' act => l' = l ∧ act.releases = true
  | .delete l' _ => l' = l
  | _ => False

/-- The server answers a write. -/
def writes : LockAct L → Bool
  | .create _ _ | .clean _ | .delete _ _ => true
  | _ => false

/-- The list of children that the step has got from the server. -/
def children? : LockAct L → Option (List PyStr)
  | .thread _ act => act.children?
  | _ => none

instance [DecidableEq ι] (l : ι) (act : LockAct L) : Decidable (act.acquires l) := by
  cases act <;> unfold acquires <;> infer_instance

instance [DecidableEq ι] (l : ι) (act : LockAct L) : Decidable (act.releases l) := by
  cases act <;> unfold releases <;> infer_instance

end LockAct

end Kazoo
