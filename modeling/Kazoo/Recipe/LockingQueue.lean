import Kazoo.Protocol.States
import Kazoo.Recipe.Queue

/-!
# Locking queues on one path

`LockingQueue` of `kazoo/recipe/queue.py`.  Any number of clients, each with one call at a time in its
main thread, and with the calls of `check_for_updates` that its watches make.  A request is carried
out and answered in one step; while the connection is lost it may be carried out without an answer.
Sessions do not expire.
-/

namespace Kazoo

/-- What the clients `κ` fix, and whose the calls of `_inner_get` are. -/
structure LockingQueues (κ ι : Type) where
  -- `uuid.uuid4().hex.encode()`
  id : κ → Bytes
  id_injective : Function.Injective id
  client : ι → κ

/-- The nodes whose children are listed. -/
inductive QueueNode
  | entries | taken
  deriving DecidableEq, Repr

/-- Where a call of `check_for_updates` is. -/
inductive CheckStage
  | absent
  -- about to call `client.retry(client.get_children, ...)`, for the entries and for the locks
  | listing
  | listingTaken (values : List PyStr)
  -- `_take`: about to create the lock node, to get the entry, and to delete the lock node
  | creating (name : PyStr) (values taken : List PyStr)
  | reading (name : PyStr) (values taken : List PyStr)
  | undoing (name : PyStr)
  deriving DecidableEq, Repr

/-- The variables of a call of `_inner_get`. -/
structure LockingGet where
  called : Bool
  -- there is a timeout
  timed : Bool
  -- the check that holds `lock`, and whether it runs in the thread of the call
  check : CheckStage
  inline : Bool
  canceled : Bool
  -- `flag` is set when it is
  value : Option QueueEntry
  -- the calls of the watch function that are dispatched
  calls : List EventType
  -- where it is registered, and the events that are under way to it
  watch : QueueNode → Bool
  event : QueueNode → Bool

/-- `consume` or `release`. -/
inductive Settling
  | consume | release
  deriving DecidableEq, Repr

/-- Where the main thread of a client is. -/
inductive HolderStage (ι : Type)
  | absent
  -- about to create the entries, at once
  | putting (priority : Nat) (values : List Bytes)
  -- in `_inner_get`
  | getting (i : ι)
  -- `holds_lock`: about to call `client.sync`, and `client.retry(client.get, ...)`
  | syncing (call : Settling)
  | confirming (call : Settling)
  -- about to commit the transaction
  | committing (call : Settling)
  deriving DecidableEq, Repr

structure HolderObject (ι : Type) where
  connected : Bool
  stage : HolderStage ι
  -- `processing_element`
  processing : Option QueueEntry

/-- An entry is deleted. -/
structure Removal (κ : Type) where
  name : PyStr
  client : κ
  -- the data of its lock node
  holder : Option Bytes
  deriving DecidableEq, Repr

/-- `_take` has returned an entry. -/
structure Taking (κ : Type) where
  name : PyStr
  client : κ
  -- the listings on which it was chosen
  values : List PyStr
  taken : List PyStr
  deriving DecidableEq, Repr

structure Holdings (κ ι : Type) where
  entries : QueueEntries
  -- the lock nodes, with their data
  taken : List QueueEntry
  objects : κ → HolderObject ι
  gets : ι → LockingGet
  -- history
  removed : List (Removal κ)
  takes : List (Taking κ)

inductive HoldingAct (κ ι : Type)
  -- `put` and `put_all`
  | put (c : κ) (priority : Int) (values : List Bytes)
  | get (i : ι) (timed : Bool)
  | settle (c : κ) (call : Settling)
  -- the request of the main thread, or of the check, is carried out and answered
  | go (c : κ)
  | check (i : ι)
  | deliver (i : ι) (node : QueueNode)
  -- the first dispatched call begins
  | call (i : ι)
  -- the flag is set, or the time is over
  | finish (i : ι)
  | drop (c : κ)
  | reconnect (c : κ)
  -- the request ends through a `ConnectionLoss`, and `client.retry` may try again
  | lose (c : κ) (carriedOut again : Bool)
  | loseCheck (i : ι) (carriedOut again : Bool)
  deriving DecidableEq, Repr

namespace LockingGet

def new : LockingGet where
  called := false
  timed := false
  check := .absent
  inline := false
  canceled := false
  value := none
  calls := []
  watch := fun _ => false
  event := fun _ => false

/-- The children of the node have changed. -/
def fired (g : LockingGet) (node : QueueNode) : LockingGet :=
  if g.watch node then
    { g with watch := Function.update g.watch node false, event := Function.update g.event node true }
  else g

/-- `_reset_watchers`, which finds what is registered, and what is about to be taken off. -/
def dropped (g : LockingGet) : LockingGet :=
  { g with
    calls := g.calls ++
      ([QueueNode.entries, .taken].filter fun node => g.watch node || g.event node).map fun _ => .NONE
    watch := fun _ => false
    event := fun _ => false }

/-- No event is under way, as what it tells comes before what is asked later. -/
def still (g : LockingGet) : Bool := !g.event .entries && !g.event .taken

/-- The check is over. -/
def checked (g : LockingGet) : LockingGet := { g with check := .absent, inline := false }

/-- A dispatched call of `check_for_updates`. -/
def calledBack (g : LockingGet) : Option LockingGet :=
  match g.calls with
  | [] => none
  | type :: calls =>
    if type ≠ .CHILD then
      if g.check = .absent ∨ g.inline then some { g with calls := calls } else none
    else if g.check = .absent then
      if g.canceled || g.value.isSome then some { g with calls := calls }
      else some { g with calls := calls, check := .listing }
    else none

/-- All that a dispatched call can do. -/
inductive CalledBack (g : LockingGet) : LockingGet → Prop
  -- `_reset_watchers` has dispatched it, and nobody lists the children
  | passes {type : EventType} {calls : List EventType} (hcalls : g.calls = type :: calls)
      (htype : type ≠ .CHILD) : CalledBack g { g with calls := calls }
  | spent {calls : List EventType} (hcalls : g.calls = .CHILD :: calls) (hcheck : g.check = .absent)
      (hover : g.canceled = true ∨ g.value.isSome = true) : CalledBack g { g with calls := calls }
  | lists {calls : List EventType} (hcalls : g.calls = .CHILD :: calls) (hcheck : g.check = .absent)
      (hcanceled : g.canceled = false) (hvalue : g.value = none) :
    CalledBack g { g with calls := calls, check := .listing }

theorem calledBack_of_eq {g g' : LockingGet} (h : g.calledBack = some g') : CalledBack g g' := by
  unfold calledBack at h
  split at h
  · cases h
  case h_2 type calls hcalls =>
    split at h
    case isTrue htype =>
      obtain ⟨-, h⟩ := Option.ite_none_right_eq_some.mp h
      exact Option.some.inj h ▸ .passes hcalls htype
    case isFalse htype =>
      obtain rfl := not_not.mp htype
      obtain ⟨hcheck, h⟩ := Option.ite_none_right_eq_some.mp h
      split at h
      case isTrue hover =>
        exact Option.some.inj h ▸ .spent hcalls hcheck (Bool.or_eq_true_iff.mp hover)
      case isFalse hover =>
        rw [Bool.or_eq_true, not_or] at hover
        exact Option.some.inj h ▸ .lists hcalls hcheck (Bool.eq_false_iff.mpr hover.1)
          (Option.not_isSome_iff_eq_none.mp hover.2)

end LockingGet

namespace Holdings

variable {κ ι : Type} [DecidableEq κ] [DecidableEq ι] (Q : LockingQueues κ ι)

def new : Holdings κ ι where
  entries := .new
  taken := []
  objects := fun _ => ⟨true, .absent, none⟩
  gets := fun _ => .new
  removed := []
  takes := []

def setObject (s : Holdings κ ι) (c : κ) (o : HolderObject ι) : Holdings κ ι :=
  { s with objects := Function.update s.objects c o }

def setStage (s : Holdings κ ι) (c : κ) (stage : HolderStage ι) : Holdings κ ι :=
  s.setObject c { s.objects c with stage := stage }

def setGet (s : Holdings κ ι) (i : ι) (g : LockingGet) : Holdings κ ι :=
  { s with gets := Function.update s.gets i g }

/-! ## The server -/

/-- The watches of the node fire. -/
def fire (s : Holdings κ ι) (node : QueueNode) : Holdings κ ι :=
  { s with gets := fun i => (s.gets i).fired node }

/-- The data of the lock node of an entry. -/
def lock? (s : Holdings κ ι) (name : PyStr) : Option Bytes :=
  (s.taken.find? (·.1 = name)).map Prod.snd

def createLock (s : Holdings κ ι) (name : PyStr) (id : Bytes) : Holdings κ ι :=
  match s.lock? name with
  | some _ => s
  | none => { s.fire .taken with taken := (name, id) :: s.taken }

def deleteLock (s : Holdings κ ι) (name : PyStr) : Holdings κ ι :=
  match s.lock? name with
  | none => s
  | some _ => { s.fire .taken with taken := s.taken.filter (·.1 ≠ name) }

def addEntries (s : Holdings κ ι) (priority : Nat) (values : List Bytes) : Holdings κ ι :=
  { s.fire .entries with entries := values.foldl (fun e value => e.add priority value) s.entries }

/-- The transaction of `consume` or `release`, which is carried out as a whole or not at all. -/
def commit (s : Holdings κ ι) (c : κ) (call : Settling) (name : PyStr) : Holdings κ ι :=
  match call with
  | .release => s.deleteLock name
  | .consume =>
    if s.entries.Has name ∧ (s.lock? name).isSome then
      { (s.deleteLock name).fire .entries with
        entries := s.entries.delete name
        removed := ⟨name, c, s.lock? name⟩ :: s.removed }
    else s

section

variable {s : Holdings κ ι} {name : PyStr}

omit [DecidableEq κ] [DecidableEq ι]

theorem objects_createLock {id : Bytes} : (s.createLock name id).objects = s.objects := by
  unfold createLock
  split <;> rfl

theorem objects_deleteLock : (s.deleteLock name).objects = s.objects := by
  unfold deleteLock
  split <;> rfl

theorem objects_commit {c : κ} {call : Settling} : (s.commit c call name).objects = s.objects := by
  unfold commit
  cases call with
  | release => exact objects_deleteLock
  | consume =>
    show (if _ then _ else _ : Holdings κ ι).objects = _
    split
    · exact objects_deleteLock
    · rfl

end

/-! ## The threads -/

/-- `_filter_locked`. -/
def filterLocked (values taken : List PyStr) : List PyStr :=
  let available := sortedNames values
  if taken.length = 0 then available else available.filter (· ∉ taken)

/-- The check ends through an exception, which leaves the call of `get` if it runs in its thread. -/
def checkFails (s : Holdings κ ι) (i : ι) : Holdings κ ι :=
  let t := s.setGet i (s.gets i).checked
  if (s.gets i).inline then t.setStage (Q.client i) .absent else t

def register (g : LockingGet) (node : QueueNode) : LockingGet :=
  { g with watch := Function.update g.watch node true }

/-- The next step of the check. -/
def checkOn (s : Holdings κ ι) (i : ι) : Option (Holdings κ ι) :=
  let g := s.gets i
  match g.check with
  | .absent => none
  | .listing =>
    if g.still then
      some (s.setGet i { register g .entries with
        check := .listingTaken (s.entries.present.map Prod.fst) })
    else none
  | .listingTaken values =>
    if g.still then
      let taken := s.taken.map Prod.fst
      match filterLocked values taken with
      | [] => some (s.setGet i (register g .taken).checked)
      | name :: _ =>
        some (s.setGet i { register g .taken with check := .creating name values taken })
    else none
  | .creating name values taken =>
    match s.lock? name with
    -- `NodeExistsError`
    | some _ => some (s.setGet i g.checked)
    | none =>
      let t := s.createLock name (Q.id (Q.client i))
      some (t.setGet i { t.gets i with check := .reading name values taken })
  | .reading name values taken =>
    match s.entries.present.find? (·.1 = name) with
    | some entry =>
      some { s.setGet i { g.checked with value := some entry } with
        takes := ⟨name, Q.client i, values, taken⟩ :: s.takes }
    -- `NoNodeError`
    | none => some (s.setGet i { g with check := .undoing name })
  | .undoing name =>
    match s.lock? name with
    | some _ =>
      let t := s.deleteLock name
      some (t.setGet i (t.gets i).checked)
    | none => some (s.checkFails Q i)

/-- The next step of the main thread, where it is not in `_inner_get`. -/
def goOn (s : Holdings κ ι) (c : κ) : Option (Holdings κ ι) :=
  match (s.objects c).stage, (s.objects c).processing with
  | .absent, _ | .getting _, _ => none
  | .putting priority values, _ =>
    if s.entries.next + values.length ≤ sequenceLimit then
      some ((s.addEntries priority values).setStage c .absent)
    else none
  | .syncing call, _ => some (s.setStage c (.confirming call))
  | .confirming call, some (name, _) =>
    -- `NoNodeError` is raised, and another's lock makes `holds_lock` false
    some (s.setStage c (if s.lock? name = some (Q.id c) then .committing call else .absent))
  | .committing call, some (name, _) =>
    let t := s.commit c call name
    some (t.setObject c { t.objects c with stage := .absent, processing := none })
  | .confirming _, none | .committing _, none => none

/-- The request of the main thread is lost. -/
def loses (s : Holdings κ ι) (c : κ) (carriedOut again : Bool) : Option (Holdings κ ι) :=
  match (s.objects c).stage, (s.objects c).processing with
  | .absent, _ | .getting _, _ => none
  | .putting priority values, _ =>
    if carriedOut then
      if s.entries.next + values.length ≤ sequenceLimit then
        some ((s.addEntries priority values).setStage c .absent)
      else none
    else some (s.setStage c .absent)
  | .syncing _, _ => some (s.setStage c .absent)
  | .confirming call, _ => some (s.setStage c (if again then .confirming call else .absent))
  | .committing call, some (name, _) =>
    some ((if carriedOut then s.commit c call name else s).setStage c .absent)
  | .committing _, none => none

/-- The request of the check is lost. -/
def checkLoses (s : Holdings κ ι) (i : ι) (carriedOut again : Bool) : Option (Holdings κ ι) :=
  match (s.gets i).check with
  | .absent => none
  | .listing | .listingTaken _ | .reading _ _ _ => some (if again then s else s.checkFails Q i)
  | .creating name _ _ =>
    some ((if carriedOut then s.createLock name (Q.id (Q.client i)) else s).checkFails Q i)
  | .undoing name => some ((if carriedOut then s.deleteLock name else s).checkFails Q i)

def step (s : Holdings κ ι) : HoldingAct κ ι → Option (Holdings κ ι)
  | .put c priority values =>
    match (s.objects c).stage, checkPutArguments priority with
    | .absent, .ok priority => some (s.setStage c (.putting priority values))
    | _, _ => none
  | .get i timed =>
    match (s.objects (Q.client i)).stage, (s.objects (Q.client i)).processing with
    | .absent, none =>
      if (s.gets i).called then none
      else
        some ((s.setGet i
          { s.gets i with called := true, timed := timed, check := .listing, inline := true }).setStage
            (Q.client i) (.getting i))
    | _, _ => none
  | .settle c call =>
    match (s.objects c).stage, (s.objects c).processing with
    | .absent, some _ => some (s.setStage c (.syncing call))
    | _, _ => none
  | .go c => if (s.objects c).connected then s.goOn Q c else none
  | .check i => if (s.objects (Q.client i)).connected then s.checkOn Q i else none
  | .deliver i node =>
    let g := s.gets i
    if g.event node then
      some (s.setGet i
        { g with event := Function.update g.event node false, calls := g.calls ++ [.CHILD] })
    else none
  | .call i => (s.gets i).calledBack.map (s.setGet i)
  | .finish i =>
    let g := s.gets i
    if (s.objects (Q.client i)).stage = .getting i ∧ g.check = .absent ∧
        (g.value.isSome ∨ g.timed) then
      some ((s.setGet i { g with canceled := true }).setObject (Q.client i)
        { s.objects (Q.client i) with stage := .absent, processing := g.value })
    else none
  | .drop c =>
    if (s.objects c).connected then
      some { s.setObject c { s.objects c with connected := false } with
        gets := fun i => if Q.client i = c then (s.gets i).dropped else s.gets i }
    else none
  | .reconnect c =>
    if (s.objects c).connected then none
    else some (s.setObject c { s.objects c with connected := true })
  | .lose c carriedOut again => if (s.objects c).connected then none else s.loses c carriedOut again
  | .loseCheck i carriedOut again =>
    if (s.objects (Q.client i)).connected then none else s.checkLoses Q i carriedOut again

end Holdings

/-- All interleavings of the clients `κ`, with losses of connections. -/
def holding {κ ι : Type} [DecidableEq κ] [DecidableEq ι] (Q : LockingQueues κ ι) :
    Machine (Holdings κ ι) (HoldingAct κ ι) where
  init := .new
  enabled := fun s act => (s.step Q act).isSome
  post := fun s act => (s.step Q act).getD s

instance {κ ι : Type} [DecidableEq κ] [DecidableEq ι] (Q : LockingQueues κ ι) (s : Holdings κ ι)
    (act : HoldingAct κ ι) : Decidable ((holding Q).enabled s act) :=
  inferInstanceAs (Decidable ((s.step Q act).isSome = true))

namespace Holdings

variable {κ ι : Type} [DecidableEq κ] {Q : LockingQueues κ ι}
  {s t : Holdings κ ι} {c : κ}

/-- What becomes of the request of a main thread that is not in `_inner_get`. -/
inductive Moved (Q : LockingQueues κ ι) (s : Holdings κ ι) (c : κ) : Holdings κ ι → Prop
  -- the call is over, or asks for the lock
  | waits {stage : HolderStage ι} :
      stage = .absent ∨ (∃ call, stage = .confirming call) → Moved Q s c (s.setStage c stage)
  -- it has seen its own lock
  | sees {call : Settling} {entry : QueueEntry} : (s.objects c).processing = some entry →
      s.lock? entry.1 = some (Q.id c) → Moved Q s c (s.setStage c (.committing call))
  | puts {priority : Nat} {values : List Bytes} : (s.objects c).stage = .putting priority values →
      s.entries.next + values.length ≤ sequenceLimit →
      Moved Q s c ((s.addEntries priority values).setStage c .absent)
  -- the client forgets the entry if it is answered
  | commits {call : Settling} {entry : QueueEntry} {o : HolderObject ι} :
      (s.objects c).stage = .committing call → (s.objects c).processing = some entry →
      o.stage = .absent → o.processing = none ∨ o.processing = some entry →
      Moved Q s c ((s.commit c call entry.1).setObject c o)

theorem moved_of_goOn (h : s.goOn Q c = some t) : Moved Q s c t := by
  unfold goOn at h
  split at h
  case h_1 | h_2 | h_7 | h_8 => cases h
  case h_3 hstage =>
    obtain ⟨hnext, h⟩ := Option.ite_none_right_eq_some.mp h
    cases h
    exact .puts hstage hnext
  case h_4 call _ =>
    cases h
    exact .waits (.inr ⟨call, rfl⟩)
  case h_5 hentry =>
    cases h
    split
    · next hlock => exact .sees hentry hlock
    · exact .waits (.inl rfl)
  case h_6 hstage hentry =>
    cases h
    exact .commits hstage hentry rfl (.inl rfl)

theorem moved_of_loses {carriedOut again : Bool} (h : s.loses c carriedOut again = some t) :
    Moved Q s c t := by
  unfold loses at h
  split at h
  case h_1 | h_2 | h_7 => cases h
  case h_3 hstage =>
    split at h
    · obtain ⟨hnext, h⟩ := Option.ite_none_right_eq_some.mp h
      cases h
      exact .puts hstage hnext
    · cases h
      exact .waits (.inl rfl)
  case h_4 =>
    cases h
    exact .waits (.inl rfl)
  case h_5 call _ =>
    cases h
    split
    · exact .waits (.inr ⟨call, rfl⟩)
    · exact .waits (.inl rfl)
  case h_6 hstage hentry =>
    cases h
    split
    · refine .commits hstage hentry rfl (.inr ?_)
      rw [objects_commit]
      exact hentry
    · exact .waits (.inl rfl)

/-! ## What a step does -/

variable [DecidableEq ι] {i : ι}

/-- All that the check of a call can do next. -/
inductive CheckGoes (Q : LockingQueues κ ι) (s : Holdings κ ι) (i : ι) : Holdings κ ι → Prop
  | lists (hcheck : (s.gets i).check = .listing) (hstill : (s.gets i).still = true) :
    CheckGoes Q s i (s.setGet i { register (s.gets i) .entries with
      check := .listingTaken (s.entries.present.map Prod.fst) })
  | findsNone {values : List PyStr} (hcheck : (s.gets i).check = .listingTaken values)
      (hstill : (s.gets i).still = true)
      (hfilter : filterLocked values (s.taken.map Prod.fst) = []) :
    CheckGoes Q s i (s.setGet i (register (s.gets i) .taken).checked)
  | chooses {name : PyStr} {values rest : List PyStr}
      (hcheck : (s.gets i).check = .listingTaken values) (hstill : (s.gets i).still = true)
      (hfilter : filterLocked values (s.taken.map Prod.fst) = name :: rest) :
    CheckGoes Q s i (s.setGet i { register (s.gets i) .taken with
      check := .creating name values (s.taken.map Prod.fst) })
  | comesLate {name : PyStr} {values taken : List PyStr} {id : Bytes}
      (hcheck : (s.gets i).check = .creating name values taken) (hlock : s.lock? name = some id) :
    CheckGoes Q s i (s.setGet i (s.gets i).checked)
  | creates {name : PyStr} {values taken : List PyStr}
      (hcheck : (s.gets i).check = .creating name values taken) (hnone : s.lock? name = none) :
    CheckGoes Q s i ((s.createLock name (Q.id (Q.client i))).setGet i
      { (s.createLock name (Q.id (Q.client i))).gets i with check := .reading name values taken })
  | reads {name : PyStr} {values taken : List PyStr} {entry : QueueEntry}
      (hcheck : (s.gets i).check = .reading name values taken)
      (hfind : s.entries.present.find? (·.1 = name) = some entry) :
    CheckGoes Q s i { s.setGet i { (s.gets i).checked with value := some entry } with
      takes := ⟨name, Q.client i, values, taken⟩ :: s.takes }
  | misses {name : PyStr} {values taken : List PyStr}
      (hcheck : (s.gets i).check = .reading name values taken)
      (hfind : s.entries.present.find? (·.1 = name) = none) :
    CheckGoes Q s i (s.setGet i { s.gets i with check := .undoing name })
  | undoes {name : PyStr} {id : Bytes} (hcheck : (s.gets i).check = .undoing name)
      (hlock : s.lock? name = some id) :
    CheckGoes Q s i ((s.deleteLock name).setGet i ((s.deleteLock name).gets i).checked)
  | fails {name : PyStr} (hcheck : (s.gets i).check = .undoing name)
      (hnone : s.lock? name = none) : CheckGoes Q s i (s.checkFails Q i)

theorem checkGoes_of_checkOn (h : s.checkOn Q i = some t) : CheckGoes Q s i t := by
  unfold checkOn at h
  cases hcheck : (s.gets i).check <;>
    simp only [hcheck, Option.ite_none_right_eq_some, reduceCtorEq] at h
  case listing => exact Option.some.inj h.2 ▸ .lists hcheck h.1
  case listingTaken values =>
    obtain ⟨hstill, h⟩ := h
    split at h
    case h_1 hfilter => exact Option.some.inj h ▸ .findsNone hcheck hstill hfilter
    case h_2 name rest hfilter => exact Option.some.inj h ▸ .chooses hcheck hstill hfilter
  case creating name values taken =>
    split at h
    case h_1 id hlock => exact Option.some.inj h ▸ .comesLate hcheck hlock
    case h_2 hnone => exact Option.some.inj h ▸ .creates hcheck hnone
  case reading name values taken =>
    split at h
    case h_1 entry hfind => exact Option.some.inj h ▸ .reads hcheck hfind
    case h_2 hfind => exact Option.some.inj h ▸ .misses hcheck hfind
  case undoing name =>
    split at h
    case h_1 id hlock => exact Option.some.inj h ▸ .undoes hcheck hlock
    case h_2 hnone => exact Option.some.inj h ▸ .fails hcheck hnone

/-- All that can become of the request of a check that is lost. -/
inductive CheckLost (Q : LockingQueues κ ι) (s : Holdings κ ι) (i : ι) :
    Bool → Bool → Holdings κ ι → Prop
  -- `client.retry` asks again
  | retries {carriedOut : Bool} : CheckLost Q s i carriedOut true s
  | listing {carriedOut : Bool} (hcheck : (s.gets i).check = .listing) :
    CheckLost Q s i carriedOut false (s.checkFails Q i)
  | listingTaken {carriedOut : Bool} {values : List PyStr}
      (hcheck : (s.gets i).check = .listingTaken values) :
    CheckLost Q s i carriedOut false (s.checkFails Q i)
  | reading {carriedOut : Bool} {name : PyStr} {values taken : List PyStr}
      (hcheck : (s.gets i).check = .reading name values taken) :
    CheckLost Q s i carriedOut false (s.checkFails Q i)
  | created {again : Bool} {name : PyStr} {values taken : List PyStr}
      (hcheck : (s.gets i).check = .creating name values taken) :
    CheckLost Q s i true again ((s.createLock name (Q.id (Q.client i))).checkFails Q i)
  | notCreated {again : Bool} {name : PyStr} {values taken : List PyStr}
      (hcheck : (s.gets i).check = .creating name values taken) :
    CheckLost Q s i false again (s.checkFails Q i)
  | undone {again : Bool} {name : PyStr} (hcheck : (s.gets i).check = .undoing name) :
    CheckLost Q s i true again ((s.deleteLock name).checkFails Q i)
  | notUndone {again : Bool} {name : PyStr} (hcheck : (s.gets i).check = .undoing name) :
    CheckLost Q s i false again (s.checkFails Q i)

theorem checkLost_of_checkLoses {carriedOut again : Bool}
    (h : s.checkLoses Q i carriedOut again = some t) : CheckLost Q s i carriedOut again t := by
  unfold checkLoses at h
  cases hcheck : (s.gets i).check <;>
    simp only [hcheck, Option.some.injEq, reduceCtorEq] at h
  case listing =>
    cases again with
    | true => exact h ▸ .retries
    | false => exact h ▸ .listing hcheck
  case listingTaken values =>
    cases again with
    | true => exact h ▸ .retries
    | false => exact h ▸ .listingTaken hcheck
  case reading name values taken =>
    cases again with
    | true => exact h ▸ .retries
    | false => exact h ▸ .reading hcheck
  case creating name values taken =>
    cases carriedOut with
    | true => exact h ▸ .created hcheck
    | false => exact h ▸ .notCreated hcheck
  case undoing name =>
    cases carriedOut with
    | true => exact h ▸ .undone hcheck
    | false => exact h ▸ .notUndone hcheck

/-- All that a step can do. -/
inductive Steps (Q : LockingQueues κ ι) (s : Holdings κ ι) : HoldingAct κ ι → Holdings κ ι → Prop
  | put {c : κ} {n : Nat} {priority : Int} {values : List Bytes}
      (hstage : (s.objects c).stage = .absent) (hpriority : checkPutArguments priority = .ok n) :
    Steps Q s (.put c priority values) (s.setStage c (.putting n values))
  | get {i : ι} {timed : Bool} (hstage : (s.objects (Q.client i)).stage = .absent)
      (hprocessing : (s.objects (Q.client i)).processing = none)
      (hcalled : (s.gets i).called = false) :
    Steps Q s (.get i timed) ((s.setGet i
      { s.gets i with called := true, timed := timed, check := .listing, inline := true }).setStage
        (Q.client i) (.getting i))
  | settle {c : κ} {call : Settling} {entry : QueueEntry} (hstage : (s.objects c).stage = .absent)
      (hprocessing : (s.objects c).processing = some entry) :
    Steps Q s (.settle c call) (s.setStage c (.syncing call))
  | go {c : κ} {t : Holdings κ ι} (hconnected : (s.objects c).connected = true)
      (hgo : s.goOn Q c = some t) : Steps Q s (.go c) t
  | check {i : ι} {t : Holdings κ ι} (hconnected : (s.objects (Q.client i)).connected = true)
      (hgoes : CheckGoes Q s i t) : Steps Q s (.check i) t
  | deliver {i : ι} {node : QueueNode} (hevent : (s.gets i).event node = true) :
    Steps Q s (.deliver i node) (s.setGet i { s.gets i with
      event := Function.update (s.gets i).event node false, calls := (s.gets i).calls ++ [.CHILD] })
  | call {i : ι} {g : LockingGet} (hcall : (s.gets i).CalledBack g) :
    Steps Q s (.call i) (s.setGet i g)
  | finish {i : ι} (hstage : (s.objects (Q.client i)).stage = .getting i)
      (hcheck : (s.gets i).check = .absent)
      (hdone : (s.gets i).value.isSome = true ∨ (s.gets i).timed = true) :
    Steps Q s (.finish i)
      ((s.setGet i { s.gets i with canceled := true }).setObject (Q.client i)
        { s.objects (Q.client i) with stage := .absent, processing := (s.gets i).value })
  | drop {c : κ} (hconnected : (s.objects c).connected = true) :
    Steps Q s (.drop c) { s.setObject c { s.objects c with connected := false } with
      gets := fun i => if Q.client i = c then (s.gets i).dropped else s.gets i }
  | reconnect {c : κ} (hconnected : (s.objects c).connected = false) :
    Steps Q s (.reconnect c) (s.setObject c { s.objects c with connected := true })
  | lose {c : κ} {carriedOut again : Bool} {t : Holdings κ ι}
      (hconnected : (s.objects c).connected = false)
      (hloses : s.loses c carriedOut again = some t) : Steps Q s (.lose c carriedOut again) t
  | loseCheck {i : ι} {carriedOut again : Bool} {t : Holdings κ ι}
      (hconnected : (s.objects (Q.client i)).connected = false)
      (hlost : CheckLost Q s i carriedOut again t) : Steps Q s (.loseCheck i carriedOut again) t

theorem steps_of_step {act : HoldingAct κ ι} (h : s.step Q act = some t) : Steps Q s act t := by
  cases act <;>
    simp only [step, Option.ite_none_right_eq_some, Option.ite_none_left_eq_some,
      Option.map_eq_some_iff, Option.some.injEq, Bool.not_eq_true] at h
  case put c priority values =>
    split at h
    case h_1 n hstage hpriority => exact Option.some.inj h ▸ .put hstage hpriority
    · cases h
  case get i timed =>
    split at h
    case h_1 hstage hprocessing =>
      obtain ⟨hcalled, h⟩ := Option.ite_none_left_eq_some.mp h
      exact Option.some.inj h ▸ .get hstage hprocessing (Bool.eq_false_iff.mpr hcalled)
    · cases h
  case settle c call =>
    split at h
    case h_1 entry hstage hprocessing => exact Option.some.inj h ▸ .settle hstage hprocessing
    · cases h
  case go c => exact .go h.1 h.2
  case check i => exact .check h.1 (checkGoes_of_checkOn h.2)
  case deliver i node => exact h.2 ▸ .deliver h.1
  case call i =>
    obtain ⟨g, hcall, rfl⟩ := h
    exact .call (LockingGet.calledBack_of_eq hcall)
  case finish i =>
    obtain ⟨⟨hstage, hcheck, hdone⟩, rfl⟩ := h
    exact .finish hstage hcheck hdone
  case drop c => exact h.2 ▸ .drop h.1
  case reconnect c => exact h.2 ▸ .reconnect h.1
  case lose c carriedOut again => exact .lose h.1 h.2
  case loseCheck i carriedOut again => exact .loseCheck h.1 (checkLost_of_checkLoses h.2)

end Holdings

/-- Two clients, with one call of `get` each. -/
def twoHolders : LockingQueues Bool Bool where
  id := fun c => if c then [1] else [0]
  id_injective := by
    unfold Function.Injective
    decide
  client := fun i => i

end Kazoo
