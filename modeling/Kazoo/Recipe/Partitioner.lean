import Kazoo.Recipe.Lock

/-!
# Set partitioners on one path

Any number of `SetPartitioner` objects, their allocation threads, the session listeners, and any
number of threads of users that call `release_set` and `finish`.  The locks of the items are the lock
objects of `Kazoo.Recipe.Lock`, one lock path for each text of an item.
-/

namespace Kazoo

/-! ## The default partition function -/

section

variable {κ : Type}

/-- `items[skip::k]`. -/
def everyNth (k : Nat) : Nat → List κ → List κ
  | _, [] => []
  | 0, x :: items => x :: everyNth k (k - 1) items
  | skip + 1, _ :: items => everyNth k skip items

theorem mem_of_mem_everyNth {k skip : Nat} {items : List κ} {x : κ} (h : x ∈ everyNth k skip items) :
    x ∈ items := by
  induction items generalizing skip with
  | nil => exact h
  | cons y items ih =>
    cases skip with
    | zero =>
      rcases List.mem_cons.mp h with rfl | h
      · exact List.mem_cons_self
      · exact List.mem_cons_of_mem y (ih h)
    | succ skip => exact List.mem_cons_of_mem y (ih h)

/-- What `ShallowParty.__iter__` makes of a child: `child[child.find("-") + 1 :]`. -/
def memberIdentifier (child : PyStr) : PyStr :=
  if CodePoint.ofChar '-' ∈ child then child.drop (child.idxOf (CodePoint.ofChar '-') + 1)
  else child

variable [LinearOrder κ]

/-- `_partitioner`. -/
def partitioner (identifier : PyStr) (members : List PyStr) (partitions : List κ) :
    Except Exn (List κ) :=
  let allPartitions := partitions.insertionSort (· ≤ ·)
  let workers := members.insertionSort fun m m' => ¬ m' < m
  match workers.idxOf? identifier with
  | some i => .ok (everyNth workers.length i allPartitions)
  | none => .error .valueError

/-- A partition is part of the set. -/
theorem mem_of_mem_partitioner {identifier : PyStr} {members : List PyStr} {partitions items : List κ}
    (h : partitioner identifier members partitions = .ok items) {x : κ} (hx : x ∈ items) :
    x ∈ partitions := by
  simp only [partitioner] at h
  split at h
  · cases h
    exact (List.mem_insertionSort _).mp (mem_of_mem_everyNth hx)
  · cases h

end

/-! ## What leaves a lock object -/

/-- The exception with which the step of a thread leaves `acquire` or `release`, once the clean-up is
over. -/
def LockObject.raises? (decimal : CodePoint → Bool) (c : LockConfig) (o : LockObject) :
    LockObject.Act → Option Exn
  | .contend => if o.cancelled then some .cancelledError else none
  | .compare children =>
    match o.stage with
    | .comparing node =>
      match c.getPredecessor decimal node children with
      | .error e => if e.retried then none else some e
      | .ok _ => none
    | _ => none
  | .timeOut => some .lockTimeout
  | .fail e =>
    match o.stage with
    | .cleaning _ | .deleting _ _ => if e.isKazooException then none else some e
    | _ => if e.retried then none else some e
  | .read _ => if o.node = none then some .typeError else none
  | .releaseFail _ e again => if again then none else some e
  | _ => none

def World.raises? {ι : Type} {L : Locks ι} (w : World L) : LockAct L → Option Exn
  | .thread l act => (w.locks l).raises? L.decimal (L.config l) act
  | .createFail _ e => if e.retried then none else some e
  | _ => none

/-! ## One partitioner -/

inductive PartitionState
  | allocating | acquired | release | failure
  deriving DecidableEq, Repr

/-- The partitioners `π` of a path, the threads `θ` that run their methods, the items `κ`, and the
lock objects `ι` that will be made. -/
structure Partitioners (π θ κ ι : Type) where
  identifier : π → PyStr
  -- the name of its node in the party
  node : π → PyStr
  set : π → List κ
  -- `str(member)`
  text : κ → PyStr
  owner : θ → π
  -- the lock objects of the path `_lock_path + "/" + str(member)`
  locks : PyStr → Locks ι
  -- the partitioner that makes the lock object, in `self._client.Lock(...)`
  maker : PyStr → ι → π
  kind_eq : ∀ name l, ((locks name).config l).kind = .lock

/-- From where `abort_if_needed` has been called. -/
inductive AbortSite
  | timedOut | appended | concluded
  deriving DecidableEq, Repr

/-- From where `_release_locks` has been called. -/
inductive ReleaseCaller
  | releaseSet | finish | abort
  deriving DecidableEq, Repr

/-- Where a thread is. -/
inductive PartitionStage
  | absent
  -- at the top of `_allocate_transition`
  | settled
  -- about to call `_partition_func`
  | splitting
  -- at the top of the `for` loop
  | taking
  -- in `lock.acquire`
  | acquiring
  -- about to call `lock.acquire` again
  | retaking
  -- about to append the lock to `_locks`
  | appending
  -- in `abort_if_needed`: it reads `state_id`, `children_changed`, `allocating`, `acquired`
  | testing (site : AbortSite)
  | judging (site : AbortSite)
  | doubting
  | suspecting
  -- and sets the state
  | relapsing
  -- before the last `with` of `_allocate_transition`
  | concluding
  -- in `_release_locks`: before the loop, at its top, in `lock.release`, behind that, behind the loop
  | releasing (caller : ReleaseCaller)
  | iterating (caller : ReleaseCaller)
  | freeing (caller : ReleaseCaller)
  | freed (caller : ReleaseCaller)
  | released (caller : ReleaseCaller)
  -- in `release_set`, about to set the state
  | reallocating
  -- about to call `_child_watching`
  | watching
  -- in `_fail_out`, and in its `_party.leave`
  | failing
  | leaving
  | done
  deriving DecidableEq, Repr

/-- A thread and its local variables. -/
structure PartitionThread (κ ι : Type) where
  stage : PartitionStage
  stateId : Nat
  -- whether `updated` has been linked
  linked : Bool
  childrenChanged : Bool
  partitionSet : List κ
  -- how many of its members have their lock in `_locks`
  position : Nat
  lock : Option (PyStr × ι)
  -- what `lock.acquire` or `lock.release` raises
  thrown : Option Exn
  -- what is left of the copy of `_locks` in `_release_locks`
  remaining : List (PyStr × ι)

structure PartitionerObject (κ ι : Type) where
  -- whether `__init__` is over
  joined : Bool
  state : PartitionState
  stateId : Nat
  partitionSet : List κ
  locks : List (PyStr × ι)
  -- `_party.participating`
  participating : Bool
  -- how many children watches have not settled yet
  watches : Nat

namespace PartitionerObject

variable {κ ι : Type}

def new : PartitionerObject κ ι := ⟨false, .allocating, 0, [], [], false, 0⟩

def setState (state : PartitionState) (o : PartitionerObject κ ι) : PartitionerObject κ ι :=
  { o with state := state, stateId := o.stateId + 1 }

end PartitionerObject

def PartitionThread.new {κ ι : Type} : PartitionThread κ ι :=
  ⟨.absent, 0, false, false, [], 0, none, none, []⟩

/-! ## All partitioners -/

structure Partitions {π θ κ ι : Type} (P : Partitioners π θ κ ι) where
  worlds : ∀ name, World (P.locks name)
  -- the lock objects that have been made, and those whose `release` has been called
  made : PyStr → ι → Bool
  released : PyStr → ι → Bool
  -- every list of children of the party path there has been, newest first
  parties : List (List PyStr)
  objects : π → PartitionerObject κ ι
  threads : θ → PartitionThread κ ι

inductive PartitionAct {π θ κ ι : Type} (P : Partitioners π θ κ ι)
  -- `__init__`
  | join (p : π)
  -- `_establish_sessionwatch`, with a state other than `LOST`
  | change (p : π)
  -- with `LOST`: the thread is spawned
  | lose (i : θ)
  -- `updated`, which thread `i` has linked
  | update (i : θ)
  -- a children watch has settled or failed: the thread is spawned
  | settle (i : θ) (failed : Bool)
  | split (i : θ) (children : List PyStr)
  -- the children of the party path cannot be read
  | splitFail (i : θ)
  -- the thread makes the lock object, and calls `acquire`
  | take (i : θ) (l : ι)
  | lock (i : θ) (name : PyStr) (act : LockAct (P.locks name))
  | free (i : θ) (name : PyStr) (act : LockAct (P.locks name))
  -- the thread goes on by itself
  | go (i : θ)
  | leave (i : θ) (carriedOut : Bool)
  -- a user calls `release_set` or `finish`
  | call (i : θ) (caller : ReleaseCaller)
  -- the children of the party path change by others, or by requests whose callers got an exception
  | regroup (children : List PyStr)
  | server (name : PyStr) (act : LockAct (P.locks name))

/-- The steps of the server on a lock path that are nobody's: no session expires. -/
def LockAct.unasked {ι : Type} {L : Locks ι} : LockAct L → Bool
  | .createLate _ _ | .vanish _ | .appear _ => true
  | _ => false

namespace Partitions

variable {π θ κ ι : Type} {P : Partitioners π θ κ ι}

def new : Partitions P where
  worlds := fun _ => .new
  made := fun _ _ => false
  released := fun _ _ => false
  parties := [[]]
  objects := fun _ => .new
  threads := fun _ => .new

/-- The children of the party path. -/
def party (s : Partitions P) : List PyStr := s.parties.headD []

def setParty (s : Partitions P) (children : List PyStr) : Partitions P :=
  { s with parties := children :: s.parties }

def setWorld (s : Partitions P) (name : PyStr) (w : World (P.locks name)) : Partitions P :=
  { s with worlds := Function.update s.worlds name w }

variable [DecidableEq π] [DecidableEq θ] [DecidableEq ι]

def setThread (s : Partitions P) (i : θ) (t : PartitionThread κ ι) : Partitions P :=
  { s with threads := Function.update s.threads i t }

def setStage (s : Partitions P) (i : θ) (stage : PartitionStage) : Partitions P :=
  s.setThread i { s.threads i with stage := stage }

def setObject (s : Partitions P) (p : π) (o : PartitionerObject κ ι) : Partitions P :=
  { s with objects := Function.update s.objects p o }

def setMade (s : Partitions P) (name : PyStr) (l : ι) : Partitions P :=
  { s with made := Function.update s.made name (Function.update (s.made name) l true) }

def setReleased (s : Partitions P) (name : PyStr) (l : ι) : Partitions P :=
  { s with released := Function.update s.released name (Function.update (s.released name) l true) }

/-- The partitioner whose method the thread runs. -/
def object (s : Partitions P) (i : θ) : PartitionerObject κ ι := s.objects (P.owner i)

/-- `lock.acquire(timeout=self._max_reaction_time)` is called. -/
def enter (s : Partitions P) (i : θ) (name : PyStr) (l : ι) : Option (Partitions P) :=
  match (s.worlds name).step (.thread l (.enter true true true)) with
  | some w => some ((s.setWorld name w).setThread i
      { s.threads i with stage := .acquiring, lock := some (name, l), thrown := none })
  | none => none

/-- `lock.acquire` is left. -/
def acquired (s : Partitions P) (i : θ) (name : PyStr) (l : ι) : Partitions P :=
  if ((s.worlds name).locks l).isAcquired then s.setStage i .appending
  else match (s.threads i).thrown with
    -- it has returned `False`
    | none => s.setStage i .appending
    | some e =>
      if e = .lockTimeout then s.setStage i (.testing .timedOut)
      else if e.isKazooException then s.setStage i (.releasing .finish)
      else s.setStage i .done

/-- `abort_if_needed` has returned `False`. -/
def resumed (s : Partitions P) (i : θ) : AbortSite → Partitions P
  | .timedOut => s.setStage i .retaking
  | .appended => s.setStage i .taking
  | .concluded => s.setStage i .failing

/-- `_release_locks` is over. -/
def releaseOver (s : Partitions P) (i : θ) : ReleaseCaller → Partitions P
  | .finish => s.setStage i .failing
  | .releaseSet => s.setStage i (if (s.object i).locks = [] then .reallocating else .failing)
  | .abort => s.setStage i (if (s.object i).locks = [] then .watching else .failing)

/-- The thread goes on where nothing is chosen by others. -/
def go (s : Partitions P) (i : θ) : Option (Partitions P) :=
  let t := s.threads i
  let p := P.owner i
  let o := s.objects p
  match t.stage with
  | .settled =>
    some (
      if o.state = .allocating then
        s.setThread i { t with stage := .splitting, stateId := o.stateId, linked := true }
      else s.setStage i .done)
  | .taking =>
    if t.position < t.partitionSet.length then none else some (s.setStage i .concluding)
  | .acquiring =>
    match t.lock with
    | some (name, l) =>
      if ((s.worlds name).locks l).stage = .absent then some (s.acquired i name l) else none
    | none => none
  | .retaking =>
    match t.lock with
    | some (name, l) => s.enter i name l
    | none => none
  | .appending =>
    match t.lock with
    | some lock =>
      some ((s.setObject p { o with locks := o.locks ++ [lock] }).setThread i
        { t with stage := .testing .appended, position := t.position + 1, lock := none })
    | none => none
  | .testing site =>
    some (s.setStage i (if o.stateId = t.stateId then .judging site else .doubting))
  | .judging site =>
    some (if t.childrenChanged then s.setStage i (.releasing .abort) else s.resumed i site)
  | .doubting =>
    some (s.setStage i (if o.state = .allocating then .relapsing else .suspecting))
  | .suspecting => some (s.setStage i (if o.state = .acquired then .relapsing else .done))
  | .relapsing => some ((s.setObject p (o.setState .release)).setStage i .done)
  | .concluding =>
    some (
      if o.stateId = t.stateId ∧ t.childrenChanged = false then
        (s.setObject p { o.setState .acquired with partitionSet := t.partitionSet }).setStage i .done
      else s.setStage i (.testing .concluded))
  | .releasing caller =>
    some (s.setThread i { t with stage := .iterating caller, remaining := o.locks })
  | .iterating caller =>
    match t.remaining with
    | [] => some (s.setStage i (.released caller))
    | (name, l) :: _ =>
      match (s.worlds name).step (.thread l .release) with
      | some w => some (((s.setWorld name w).setReleased name l).setThread i
          { t with stage := .freeing caller, thrown := none })
      | none => none
  | .freed caller =>
    match t.remaining with
    | [] => none
    | lock :: remaining =>
      match t.thrown with
      | none =>
        -- `list.remove(x): x not in list` is a `ValueError`
        some (
          if lock ∈ o.locks then
            (s.setObject p { o with locks := o.locks.erase lock }).setThread i
              { t with stage := .iterating caller, remaining := remaining }
          else s.setStage i .done)
      | some e =>
        some (
          if e.isKazooException then
            s.setThread i { t with stage := .iterating caller, remaining := remaining }
          else s.setStage i .done)
  | .released caller => some (s.releaseOver i caller)
  | .reallocating =>
    some (
      if o.state = .failure then s.setStage i .done
      else (s.setObject p (o.setState .allocating)).setStage i .watching)
  | .watching => some ((s.setObject p { o with watches := o.watches + 1 }).setStage i .done)
  | .failing =>
    some ((s.setObject p (o.setState .failure)).setStage i
      (if o.participating then .leaving else .done))
  | _ => none

/-- Thread `i` is inside `lock.acquire`. -/
def entered (s : Partitions P) (i : θ) (name : PyStr) (l : ι) (w : World (P.locks name)) :
    Partitions P :=
  (s.setWorld name w).setThread i
    { s.threads i with stage := .acquiring, lock := some (name, l), thrown := none }

omit [DecidableEq π] [DecidableEq ι] in
theorem acquired_objects (s : Partitions P) (i : θ) (name : PyStr) (l : ι) :
    (s.acquired i name l).objects = s.objects := by
  unfold acquired
  repeat' split
  all_goals rfl

omit [DecidableEq π] [DecidableEq ι] in
theorem resumed_objects (s : Partitions P) (i : θ) (site : AbortSite) :
    (s.resumed i site).objects = s.objects := by
  cases site <;> rfl

omit [DecidableEq π] [DecidableEq ι] in
theorem releaseOver_objects (s : Partitions P) (i : θ) (caller : ReleaseCaller) :
    (s.releaseOver i caller).objects = s.objects := by
  cases caller <;> rfl

/-- All that `go` can do. -/
inductive Goes (s : Partitions P) (i : θ) : Partitions P → Prop
  | allocates (hstage : (s.threads i).stage = .settled) (hstate : (s.object i).state = .allocating) :
    Goes s i (s.setThread i { s.threads i with
      stage := .splitting, stateId := (s.object i).stateId, linked := true })
  | settled (hstage : (s.threads i).stage = .settled) (hstate : (s.object i).state ≠ .allocating) :
    Goes s i (s.setStage i .done)
  | taken (hstage : (s.threads i).stage = .taking)
      (hposition : ¬ (s.threads i).position < (s.threads i).partitionSet.length) :
    Goes s i (s.setStage i .concluding)
  | acquired {name : PyStr} {l : ι} (hstage : (s.threads i).stage = .acquiring)
      (hlock : (s.threads i).lock = some (name, l))
      (habsent : ((s.worlds name).locks l).stage = .absent) : Goes s i (s.acquired i name l)
  | retakes {name : PyStr} {l : ι} {w : World (P.locks name)}
      (hstage : (s.threads i).stage = .retaking) (hlock : (s.threads i).lock = some (name, l))
      (hw : (s.worlds name).step (.thread l (.enter true true true)) = some w) :
    Goes s i (s.entered i name l w)
  | appends {lock : PyStr × ι} (hstage : (s.threads i).stage = .appending)
      (hlock : (s.threads i).lock = some lock) :
    Goes s i ((s.setObject (P.owner i)
      { s.object i with locks := (s.object i).locks ++ [lock] }).setThread i
        { s.threads i with
          stage := .testing .appended, position := (s.threads i).position + 1, lock := none })
  | tested {site : AbortSite} (hstage : (s.threads i).stage = .testing site)
      (hid : (s.object i).stateId = (s.threads i).stateId) : Goes s i (s.setStage i (.judging site))
  | doubts {site : AbortSite} (hstage : (s.threads i).stage = .testing site)
      (hid : (s.object i).stateId ≠ (s.threads i).stateId) : Goes s i (s.setStage i .doubting)
  | aborts {site : AbortSite} (hstage : (s.threads i).stage = .judging site)
      (hchanged : (s.threads i).childrenChanged = true) :
    Goes s i (s.setStage i (.releasing .abort))
  | resumes {site : AbortSite} (hstage : (s.threads i).stage = .judging site)
      (hchanged : (s.threads i).childrenChanged = false) : Goes s i (s.resumed i site)
  | doubted (hstage : (s.threads i).stage = .doubting) (hstate : (s.object i).state = .allocating) :
    Goes s i (s.setStage i .relapsing)
  | suspects (hstage : (s.threads i).stage = .doubting) (hstate : (s.object i).state ≠ .allocating) :
    Goes s i (s.setStage i .suspecting)
  | suspected (hstage : (s.threads i).stage = .suspecting) (hstate : (s.object i).state = .acquired) :
    Goes s i (s.setStage i .relapsing)
  | trusts (hstage : (s.threads i).stage = .suspecting) (hstate : (s.object i).state ≠ .acquired) :
    Goes s i (s.setStage i .done)
  | relapses (hstage : (s.threads i).stage = .relapsing) :
    Goes s i ((s.setObject (P.owner i) ((s.object i).setState .release)).setStage i .done)
  | concludes (hstage : (s.threads i).stage = .concluding)
      (hid : (s.object i).stateId = (s.threads i).stateId)
      (hchanged : (s.threads i).childrenChanged = false) :
    Goes s i ((s.setObject (P.owner i)
      { (s.object i).setState .acquired with partitionSet := (s.threads i).partitionSet }).setStage i
        .done)
  | reconsiders (hstage : (s.threads i).stage = .concluding)
      (hnot : ¬ ((s.object i).stateId = (s.threads i).stateId ∧
        (s.threads i).childrenChanged = false)) :
    Goes s i (s.setStage i (.testing .concluded))
  | copies {caller : ReleaseCaller} (hstage : (s.threads i).stage = .releasing caller) :
    Goes s i (s.setThread i { s.threads i with
      stage := .iterating caller, remaining := (s.object i).locks })
  | iterated {caller : ReleaseCaller} (hstage : (s.threads i).stage = .iterating caller)
      (hremaining : (s.threads i).remaining = []) : Goes s i (s.setStage i (.released caller))
  | iterates {caller : ReleaseCaller} {name : PyStr} {l : ι} {rest : List (PyStr × ι)}
      {w : World (P.locks name)} (hstage : (s.threads i).stage = .iterating caller)
      (hremaining : (s.threads i).remaining = (name, l) :: rest)
      (hw : (s.worlds name).step (.thread l .release) = some w) :
    Goes s i (((s.setWorld name w).setReleased name l).setThread i
      { s.threads i with stage := .freeing caller, thrown := none })
  | removes {caller : ReleaseCaller} {lock : PyStr × ι} {rest : List (PyStr × ι)}
      (hstage : (s.threads i).stage = .freed caller)
      (hremaining : (s.threads i).remaining = lock :: rest) (hthrown : (s.threads i).thrown = none)
      (hmem : lock ∈ (s.object i).locks) :
    Goes s i ((s.setObject (P.owner i)
      { s.object i with locks := (s.object i).locks.erase lock }).setThread i
        { s.threads i with stage := .iterating caller, remaining := rest })
  | missing {caller : ReleaseCaller} {lock : PyStr × ι} {rest : List (PyStr × ι)}
      (hstage : (s.threads i).stage = .freed caller)
      (hremaining : (s.threads i).remaining = lock :: rest) (hthrown : (s.threads i).thrown = none)
      (hnot : lock ∉ (s.object i).locks) : Goes s i (s.setStage i .done)
  | skips {caller : ReleaseCaller} {lock : PyStr × ι} {rest : List (PyStr × ι)} {e : Exn}
      (hstage : (s.threads i).stage = .freed caller)
      (hremaining : (s.threads i).remaining = lock :: rest) (hthrown : (s.threads i).thrown = some e)
      (hkazoo : e.isKazooException = true) :
    Goes s i (s.setThread i { s.threads i with stage := .iterating caller, remaining := rest })
  | throws {caller : ReleaseCaller} {lock : PyStr × ι} {rest : List (PyStr × ι)} {e : Exn}
      (hstage : (s.threads i).stage = .freed caller)
      (hremaining : (s.threads i).remaining = lock :: rest) (hthrown : (s.threads i).thrown = some e)
      (hkazoo : e.isKazooException ≠ true) : Goes s i (s.setStage i .done)
  | released {caller : ReleaseCaller} (hstage : (s.threads i).stage = .released caller) :
    Goes s i (s.releaseOver i caller)
  | fails (hstage : (s.threads i).stage = .reallocating) (hstate : (s.object i).state = .failure) :
    Goes s i (s.setStage i .done)
  | reallocates (hstage : (s.threads i).stage = .reallocating)
      (hstate : (s.object i).state ≠ .failure) :
    Goes s i ((s.setObject (P.owner i) ((s.object i).setState .allocating)).setStage i .watching)
  | watches (hstage : (s.threads i).stage = .watching) :
    Goes s i ((s.setObject (P.owner i)
      { s.object i with watches := (s.object i).watches + 1 }).setStage i .done)
  | failsOut (hstage : (s.threads i).stage = .failing) :
    Goes s i ((s.setObject (P.owner i) ((s.object i).setState .failure)).setStage i
      (if (s.object i).participating then .leaving else .done))

omit [DecidableEq π] in
theorem enter_eq {s s' : Partitions P} {i : θ} {name : PyStr} {l : ι}
    (h : s.enter i name l = some s') :
    ∃ w, (s.worlds name).step (.thread l (.enter true true true)) = some w ∧
      s' = s.entered i name l w := by
  unfold enter at h
  split at h <;> cases h
  exact ⟨_, ‹_›, rfl⟩

theorem goes_of_go {s s' : Partitions P} {i : θ} (h : s.go i = some s') : s.Goes i s' := by
  cases hstage : (s.threads i).stage <;> simp only [go, hstage] at h
  case absent | splitting | freeing | leaving | done => cases h
  case relapsing => cases h; exact .relapses hstage
  case releasing caller => cases h; exact .copies hstage
  case released caller => cases h; exact .released hstage
  case watching => cases h; exact .watches hstage
  case failing => cases h; exact .failsOut hstage
  case taking => split at h <;> cases h; exact .taken hstage ‹_›
  case appending => split at h <;> cases h; exact .appends hstage ‹_›
  case settled =>
    cases h
    split
    · exact .allocates hstage ‹_›
    · exact .settled hstage ‹_›
  case testing site =>
    cases h
    split
    · exact .tested hstage ‹_›
    · exact .doubts hstage ‹_›
  case judging site =>
    cases h
    split
    · exact .aborts hstage ‹_›
    · next hchanged => exact .resumes hstage (Bool.eq_false_iff.mpr hchanged)
  case doubting =>
    cases h
    split
    · exact .doubted hstage ‹_›
    · exact .suspects hstage ‹_›
  case suspecting =>
    cases h
    split
    · exact .suspected hstage ‹_›
    · exact .trusts hstage ‹_›
  case concluding =>
    cases h
    split
    · next hboth => exact .concludes hstage hboth.1 hboth.2
    · exact .reconsiders hstage ‹_›
  case reallocating =>
    cases h
    split
    · exact .fails hstage ‹_›
    · exact .reallocates hstage ‹_›
  case acquiring =>
    split at h
    · next hlock =>
      split at h <;> cases h
      exact .acquired hstage hlock ‹_›
    · cases h
  case retaking =>
    split at h
    · next hlock =>
      obtain ⟨w, hw, rfl⟩ := enter_eq h
      exact .retakes hstage hlock hw
    · cases h
  case iterating caller =>
    split at h
    · cases h
      exact .iterated hstage ‹_›
    · next hremaining =>
      split at h <;> cases h
      exact .iterates hstage hremaining ‹_›
  case freed caller =>
    split at h
    · cases h
    · next hremaining =>
      split at h <;> cases h
      · next hthrown =>
        split
        · exact .removes hstage hremaining hthrown ‹_›
        · exact .missing hstage hremaining hthrown ‹_›
      · next hthrown =>
        split
        · exact .skips hstage hremaining hthrown ‹_›
        · exact .throws hstage hremaining hthrown ‹_›

variable [LinearOrder κ]

/-- The step, where it can be taken. -/
def step (s : Partitions P) : PartitionAct P → Option (Partitions P)
  | .join p =>
    if (s.objects p).joined then none
    else some ((s.setParty (P.node p :: s.party)).setObject p
      { s.objects p with joined := true, participating := true, watches := 1 })
  | .change p =>
    let o := s.objects p
    if o.joined then
      some (if o.state = .failure ∨ o.state = .release then s
        else s.setObject p (o.setState .release))
    else none
  | .lose i =>
    if (s.object i).joined ∧ (s.object i).state ≠ .failure ∧ (s.threads i).stage = .absent then
      some (s.setStage i .failing)
    else none
  | .update i =>
    let t := s.threads i
    let o := s.object i
    if t.linked = true ∧ t.childrenChanged = false then
      some ((if o.state = .acquired then s.setObject (P.owner i) (o.setState .release) else s).setThread
        i { t with childrenChanged := true })
    else none
  | .settle i failed =>
    let o := s.object i
    if 0 < o.watches ∧ (s.threads i).stage = .absent then
      some ((s.setObject (P.owner i) { o with watches := o.watches - 1 }).setStage i
        (if failed then .failing else .settled))
    else none
  | .split i children =>
    if (s.threads i).stage = .splitting ∧ ∃ party ∈ s.parties, children.Perm party then
      some (
        match partitioner (P.identifier (P.owner i)) (children.map memberIdentifier)
            (P.set (P.owner i)) with
        | .ok partitionSet =>
          s.setThread i { s.threads i with
            stage := .taking, partitionSet := partitionSet, position := 0 }
        | .error _ => s.setStage i .done)
    else none
  | .splitFail i =>
    if (s.threads i).stage = .splitting then some (s.setStage i .done) else none
  | .take i l =>
    let t := s.threads i
    match t.partitionSet[t.position]? with
    | some x =>
      if t.stage = .taking ∧ s.made (P.text x) l = false ∧ P.maker (P.text x) l = P.owner i then
        (s.setMade (P.text x) l).enter i (P.text x) l
      else none
    | none => none
  | .lock i name act =>
    let t := s.threads i
    match t.lock, (s.worlds name).step act with
    | some (name', l), some w =>
      if t.stage = .acquiring ∧ name' = name ∧ act.acquires l then
        some ((s.setWorld name w).setThread i
          { t with thrown := ((s.worlds name).raises? act).or t.thrown })
      else none
    | _, _ => none
  | .free i name act =>
    let t := s.threads i
    match t.stage, t.remaining, (s.worlds name).step act with
    | .freeing caller, (name', l) :: _, some w =>
      if name' = name ∧ act.releases l then
        -- the calls of `release` on one lock object are known by where they are only
        let freed := (w.locks l).releasing.length < ((s.worlds name).locks l).releasing.length
        some ((s.setWorld name w).setThread i { t with
          stage := if freed then .freed caller else .freeing caller
          thrown := if freed then (s.worlds name).raises? act else none })
      else none
    | _, _, _ => none
  | .go i => s.go i
  | .leave i carriedOut =>
    if (s.threads i).stage = .leaving then
      let s' := s.setObject (P.owner i) { s.object i with participating := false }
      some ((if carriedOut then s'.setParty (s.party.erase (P.node (P.owner i))) else s').setStage i
        .done)
    else none
  | .call i caller =>
    if (s.object i).joined = true ∧ (s.threads i).stage = .absent ∧ caller ≠ .abort then
      some (s.setStage i (.releasing caller))
    else none
  | .regroup children => some (s.setParty children)
  | .server name act =>
    match (s.worlds name).step act with
    | some w => if act.unasked then some (s.setWorld name w) else none
    | none => none

/-- All that a step can do. -/
inductive Steps (s : Partitions P) : PartitionAct P → Partitions P → Prop
  | join {p : π} (hjoined : (s.objects p).joined ≠ true) :
    Steps s (.join p) ((s.setParty (P.node p :: s.party)).setObject p
      { s.objects p with joined := true, participating := true, watches := 1 })
  | changeLate {p : π} (hjoined : (s.objects p).joined = true)
      (hstate : (s.objects p).state = .failure ∨ (s.objects p).state = .release) :
    Steps s (.change p) s
  | change {p : π} (hjoined : (s.objects p).joined = true)
      (hstate : ¬ ((s.objects p).state = .failure ∨ (s.objects p).state = .release)) :
    Steps s (.change p) (s.setObject p ((s.objects p).setState .release))
  | lose {i : θ} (hjoined : (s.object i).joined = true) (hstate : (s.object i).state ≠ .failure)
      (habsent : (s.threads i).stage = .absent) : Steps s (.lose i) (s.setStage i .failing)
  | updateAcquired {i : θ} (hlinked : (s.threads i).linked = true)
      (hchanged : (s.threads i).childrenChanged = false) (hstate : (s.object i).state = .acquired) :
    Steps s (.update i) ((s.setObject (P.owner i) ((s.object i).setState .release)).setThread i
      { s.threads i with childrenChanged := true })
  | update {i : θ} (hlinked : (s.threads i).linked = true)
      (hchanged : (s.threads i).childrenChanged = false) (hstate : (s.object i).state ≠ .acquired) :
    Steps s (.update i) (s.setThread i { s.threads i with childrenChanged := true })
  | settle {i : θ} {failed : Bool} (hwatches : 0 < (s.object i).watches)
      (habsent : (s.threads i).stage = .absent) :
    Steps s (.settle i failed) ((s.setObject (P.owner i)
      { s.object i with watches := (s.object i).watches - 1 }).setStage i
        (if failed then .failing else .settled))
  | split {i : θ} {children party : List PyStr} {partitionSet : List κ}
      (hstage : (s.threads i).stage = .splitting) (hparty : party ∈ s.parties)
      (hperm : children.Perm party)
      (hset : partitioner (P.identifier (P.owner i)) (children.map memberIdentifier)
        (P.set (P.owner i)) = .ok partitionSet) :
    Steps s (.split i children) (s.setThread i { s.threads i with
      stage := .taking, partitionSet := partitionSet, position := 0 })
  | splitRaised {i : θ} {children party : List PyStr} {e : Exn}
      (hstage : (s.threads i).stage = .splitting) (hparty : party ∈ s.parties)
      (hperm : children.Perm party)
      (herror : partitioner (P.identifier (P.owner i)) (children.map memberIdentifier)
        (P.set (P.owner i)) = .error e) : Steps s (.split i children) (s.setStage i .done)
  | splitFail {i : θ} (hstage : (s.threads i).stage = .splitting) :
    Steps s (.splitFail i) (s.setStage i .done)
  | take {i : θ} {l : ι} {x : κ} {w : World (P.locks (P.text x))}
      (hx : (s.threads i).partitionSet[(s.threads i).position]? = some x)
      (hstage : (s.threads i).stage = .taking) (hfresh : s.made (P.text x) l = false)
      (hmaker : P.maker (P.text x) l = P.owner i)
      (hw : (s.worlds (P.text x)).step (.thread l (.enter true true true)) = some w) :
    Steps s (.take i l) ((s.setMade (P.text x) l).entered i (P.text x) l w)
  | lock {i : θ} {name : PyStr} {act : LockAct (P.locks name)} {l : ι} {w : World (P.locks name)}
      (hstage : (s.threads i).stage = .acquiring) (hlock : (s.threads i).lock = some (name, l))
      (hact : act.acquires l) (hw : (s.worlds name).step act = some w) :
    Steps s (.lock i name act) ((s.setWorld name w).setThread i
      { s.threads i with thrown := ((s.worlds name).raises? act).or (s.threads i).thrown })
  | free {i : θ} {name : PyStr} {act : LockAct (P.locks name)} {caller : ReleaseCaller} {l : ι}
      {rest : List (PyStr × ι)} {w : World (P.locks name)}
      (hstage : (s.threads i).stage = .freeing caller)
      (hremaining : (s.threads i).remaining = (name, l) :: rest) (hact : act.releases l)
      (hw : (s.worlds name).step act = some w) :
    Steps s (.free i name act) ((s.setWorld name w).setThread i { s.threads i with
      stage := if (w.locks l).releasing.length < ((s.worlds name).locks l).releasing.length
        then .freed caller else .freeing caller
      thrown := if (w.locks l).releasing.length < ((s.worlds name).locks l).releasing.length
        then (s.worlds name).raises? act else none })
  | go {i : θ} {s' : Partitions P} (hgo : s.Goes i s') : Steps s (.go i) s'
  | leave {i : θ} {carriedOut : Bool} (hstage : (s.threads i).stage = .leaving) :
    Steps s (.leave i carriedOut)
      ((if carriedOut then
          (s.setObject (P.owner i) { s.object i with participating := false }).setParty
            (s.party.erase (P.node (P.owner i)))
        else s.setObject (P.owner i) { s.object i with participating := false }).setStage i .done)
  | call {i : θ} {caller : ReleaseCaller} (hjoined : (s.object i).joined = true)
      (habsent : (s.threads i).stage = .absent) (hcaller : caller ≠ .abort) :
    Steps s (.call i caller) (s.setStage i (.releasing caller))
  | regroup {children : List PyStr} : Steps s (.regroup children) (s.setParty children)
  | server {name : PyStr} {act : LockAct (P.locks name)} {w : World (P.locks name)}
      (hunasked : act.unasked = true) (hw : (s.worlds name).step act = some w) :
    Steps s (.server name act) (s.setWorld name w)

theorem steps_of_step {s s' : Partitions P} {a : PartitionAct P} (h : s.step a = some s') :
    s.Steps a s' := by
  cases a <;> simp only [step] at h
  case go i => exact .go (goes_of_go h)
  case regroup children => cases h; exact .regroup
  case join p => split at h <;> cases h; exact .join ‹_›
  case splitFail i => split at h <;> cases h; exact .splitFail ‹_›
  case leave i carriedOut => split at h <;> cases h; exact .leave ‹_›
  case change p =>
    split at h <;> cases h
    next hjoined =>
      split
      · exact .changeLate hjoined ‹_›
      · exact .change hjoined ‹_›
  case lose i =>
    split at h <;> cases h
    next hguard => exact .lose hguard.1 hguard.2.1 hguard.2.2
  case update i =>
    split at h <;> cases h
    next hguard =>
      split
      · exact .updateAcquired hguard.1 hguard.2 ‹_›
      · exact .update hguard.1 hguard.2 ‹_›
  case settle i failed =>
    split at h <;> cases h
    next hguard => exact .settle hguard.1 hguard.2
  case split i children =>
    split at h <;> cases h
    next hguard =>
      obtain ⟨hstage, party, hparty, hperm⟩ := hguard
      split
      · exact .split hstage hparty hperm ‹_›
      · exact .splitRaised hstage hparty hperm ‹_›
  case take i l =>
    split at h
    · next hx =>
      obtain ⟨⟨hstage, hfresh, hmaker⟩, h⟩ := Option.ite_none_right_eq_some.mp h
      obtain ⟨w, hw, rfl⟩ := enter_eq h
      exact .take hx hstage hfresh hmaker hw
    · cases h
  case lock i name act =>
    split at h
    · next hlock hw =>
      split at h <;> cases h
      next hguard =>
        obtain ⟨hstage, rfl, hact⟩ := hguard
        exact .lock hstage hlock hact hw
    · cases h
  case free i name act =>
    split at h
    · next hstage hremaining hw =>
      split at h <;> cases h
      next hguard =>
        obtain ⟨rfl, hact⟩ := hguard
        exact .free hstage hremaining hact hw
    · cases h
  case call i caller =>
    split at h <;> cases h
    next hguard => exact .call hguard.1 hguard.2.1 hguard.2.2
  case server name act =>
    split at h
    · next hw =>
      split at h <;> cases h
      exact .server ‹_› hw
    · cases h

end Partitions

/-- All interleavings of the threads, the listeners and the server. -/
def partitioning {π θ κ ι : Type} [DecidableEq π] [DecidableEq θ] [DecidableEq ι] [LinearOrder κ]
    (P : Partitioners π θ κ ι) : Machine (Partitions P) (PartitionAct P) where
  init := .new
  enabled := fun s act => (s.step act).isSome
  post := fun s act => (s.step act).getD s

instance {π θ κ ι : Type} [DecidableEq π] [DecidableEq θ] [DecidableEq ι] [LinearOrder κ]
    (P : Partitioners π θ κ ι) (s : Partitions P) (act : PartitionAct P) :
    Decidable ((partitioning P).enabled s act) :=
  inferInstanceAs (Decidable ((s.step act).isSome = true))

end Kazoo
