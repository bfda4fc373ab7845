import Kazoo.IntText
import Kazoo.Lib.Machine
import Kazoo.Protocol.RoundTrip
import Kazoo.Recipe.Contenders
import Mathlib.Algebra.BigOperators.Group.List.Basic
import Mathlib.Algebra.Ring.Int.Defs
import Mathlib.Logic.Function.Basic

/-!
# Counters

`kazoo/recipe/counter.py` with integer values: the threads that change the counter of one path, the
node that they change, and the requests whose replies are lost.
-/

namespace Kazoo

def Exn.badVersionError : Exn := .zookeeper (-103)

/-! ## The data of the node -/

/-- The value that `_value` makes of the data. -/
def counterValue (supportCurator : Bool) (default : Int) (data : Bytes) : Except Exn Int :=
  if data = [] then .ok default
  else if supportCurator then
    -- `struct.unpack` takes a buffer of exactly the right size
    if data.length = 4 then intUnpackFrom data 0 else .error .structError
  else do intOfText (← Bytes.decodeAscii data)

/-- The data that `_inner_change` makes of the value. -/
def counterData (supportCurator : Bool) (value : Int) : Except Exn Bytes :=
  if supportCurator then intPack value else (reprInt value).encodeAscii

theorem counterData_ne_nil {supportCurator : Bool} {value : Int} {data : Bytes}
    (h : counterData supportCurator value = .ok data) : data ≠ [] := by
  unfold counterData at h
  split at h
  · intro hnil
    have hlength := intPack_length h
    rw [hnil] at hlength
    cases hlength
  · rw [encodeAscii_reprInt] at h
    cases h
    intro hnil
    exact reprInt_ne_nil value (List.map_eq_nil_iff.mp hnil)

/-- What one `Counter` writes every other reads, whatever their defaults. -/
theorem counterValue_counterData {supportCurator : Bool} {value : Int} {data : Bytes}
    (h : counterData supportCurator value = .ok data) (default : Int) :
    counterValue supportCurator default data = .ok value := by
  rw [counterValue, if_neg (counterData_ne_nil h)]
  unfold counterData at h
  split at h
  · next hcurator =>
    rw [if_pos (hcurator ▸ rfl), if_pos (intPack_length h)]
    exact intUnpackFrom_located h (Located.start data)
  · next hkazoo =>
    rw [if_neg hkazoo, Bytes.decodeAscii_encodeAscii h]
    exact intOfText_reprInt value

/-! ## The node -/

/-- One call of `_change`; `__sub__` calls it with the negated argument. -/
structure Change where
  number : Nat
  value : Int
  deriving DecidableEq, Repr

/-- The `client.set` of a change, with the value that it has read and the value that it writes. -/
structure Update where
  change : Change
  pre : Int
  post : Int
  data : Bytes
  version : Nat
  deriving DecidableEq, Repr

inductive CounterRequest
  -- of `ensure_path`
  | create
  | set (u : Update)
  deriving DecidableEq, Repr

structure CounterNode where
  -- the data and the version of the node, and before them what it has held; nothing where there is
  -- no node
  versions : List (Bytes × Nat)
  -- history: the updates that have been carried out, the last one first
  applied : List Update

namespace CounterNode

/-- The server carries out a request; the reply is the exception that the client raises for it. -/
def serve (n : CounterNode) : CounterRequest → CounterNode × Option Exn
  | .create =>
    match n.versions with
    | [] => ({ n with versions := [([], 0)] }, none)
    | _ :: _ => (n, none)
  | .set u =>
    match n.versions with
    | [] => (n, some .noNodeError)
    | (_, version) :: _ =>
      if version = u.version then
        ({ versions := (u.data, version + 1) :: n.versions, applied := u :: n.applied }, none)
      else (n, some .badVersionError)

/-- The data that a read finds after `ensure_path`. -/
def data (n : CounterNode) : Bytes := (n.versions.head?.map Prod.fst).getD []

end CounterNode

/-! ## The threads -/

/-- The `Counter` objects `κ` of the path, and the node that they start from.  Its data is the same
integer to all of them. -/
structure Counters (κ : Type) where
  supportCurator : Bool
  default : κ → Int
  node : Option (Bytes × Nat)
  initial : Int
  readable : ∀ k,
    counterValue supportCurator (default k) ((node.map Prod.fst).getD []) = .ok initial

namespace Counters

variable {κ : Type}

def read (C : Counters κ) (k : κ) (data : Bytes) : Except Exn Int :=
  counterValue C.supportCurator (C.default k) data

def write (C : Counters κ) (value : Int) : Except Exn Bytes := counterData C.supportCurator value

end Counters

structure CounterObject where
  ensuredPath : Bool
  preValue : Option Int
  postValue : Option Int

/-- Where a thread is in `_change`. -/
inductive ChangeStage
  | ensuring
  | getting
  -- `self.pre_value` has been set to `read`
  | adding (read : Int) (version : Nat)
  | setting (u : Update)
  -- the server has answered the `client.set`
  | answered (u : Update) (reply : Option Exn)
  -- `_inner_change` has raised
  | failed (e : Exn)
  deriving DecidableEq, Repr

/-- A change that has returned, with `pre_value` as it is then. -/
structure Returned where
  update : Update
  preValue : Option Int

structure Counting (κ ι : Type) where
  node : CounterNode
  objects : κ → CounterObject
  threads : ι → Option (Change × ChangeStage)
  -- requests whose callers have been told that the connection is lost
  late : List CounterRequest
  next : Nat
  -- history
  returned : List Returned
  raised : List Change

inductive CounterAct (ι : Type)
  | start (i : ι) (value : Int)
  | serveCreate (i : ι)
  | ensured (i : ι)
  | get (i : ι) (data : Bytes) (version : Nat)
  | add (i : ι)
  | serveSet (i : ι)
  | finish (i : ι)
  | fail (i : ι) (e : Exn)
  | serveLate (n : Nat)
  | again (i : ι)
  | giveUp (i : ι)
  deriving DecidableEq, Repr

namespace Counting

variable {κ ι : Type} [DecidableEq κ] [DecidableEq ι]

def new (C : Counters κ) : Counting κ ι where
  node := ⟨C.node.toList, []⟩
  objects := fun _ => ⟨false, none, none⟩
  threads := fun _ => none
  late := []
  next := 0
  returned := []
  raised := []

/-- `_inner_change` is entered. -/
def entered (o : CounterObject) : ChangeStage := if o.ensuredPath then .getting else .ensuring

def setStage (s : Counting κ ι) (i : ι) (c : Change) (stage : ChangeStage) : Counting κ ι :=
  { s with threads := Function.update s.threads i (some (c, stage)) }

def setObject (s : Counting κ ι) (k : κ) (o : CounterObject) : Counting κ ι :=
  { s with objects := Function.update s.objects k o }

/-- `client.set` raises. -/
def setRaised (s : Counting κ ι) (k : κ) (i : ι) (c : Change) (e : Exn) : Counting κ ι :=
  if e = .badVersionError then
    (s.setObject k { s.objects k with postValue := none }).setStage i c (.failed .forceRetryError)
  else s.setStage i c (.failed e)

/-- The step, where the thread is at the place it starts from. -/
def step (C : Counters κ) (object : ι → κ) (s : Counting κ ι) :
    CounterAct ι → Option (Counting κ ι)
  | .start i value =>
    match s.threads i with
    | none =>
      some ({ s with next := s.next + 1 }.setStage i ⟨s.next, value⟩
        (entered (s.objects (object i))))
    | some _ => none
  | .serveCreate i =>
    match s.threads i with
    | some (_, .ensuring) => some { s with node := (s.node.serve .create).1 }
    | _ => none
  | .ensured i =>
    match s.threads i with
    | some (c, .ensuring) =>
      if s.node.versions = [] then none
      else some ((s.setObject (object i)
        { s.objects (object i) with ensuredPath := true }).setStage i c .getting)
    | _ => none
  | .get i data version =>
    match s.threads i with
    | some (c, .getting) =>
      -- the server that answers may lag behind
      if (data, version) ∈ s.node.versions then
        match C.read (object i) data with
        | .error e => some (s.setStage i c (.failed e))
        | .ok value =>
          some ((s.setObject (object i)
            { s.objects (object i) with preValue := some value }).setStage i c
              (.adding value version))
      else none
    | _ => none
  | .add i =>
    match s.threads i with
    | some (c, .adding _ version) =>
      match (s.objects (object i)).preValue with
      | none => some (s.setStage i c (.failed .typeError))
      | some pre =>
        match C.write (pre + c.value) with
        | .error e => some (s.setStage i c (.failed e))
        | .ok data => some (s.setStage i c (.setting ⟨c, pre, pre + c.value, data, version⟩))
    | _ => none
  | .serveSet i =>
    match s.threads i with
    | some (c, .setting u) =>
      some ({ s with node := (s.node.serve (.set u)).1 }.setStage i c
        (.answered u (s.node.serve (.set u)).2))
    | _ => none
  | .finish i =>
    match s.threads i with
    | some (_, .answered u none) =>
      some { s.setObject (object i) { s.objects (object i) with postValue := some u.post } with
        threads := Function.update s.threads i none
        returned := ⟨u, (s.objects (object i)).preValue⟩ :: s.returned }
    | some (c, .answered _ (some e)) => some (s.setRaised (object i) i c e)
    | _ => none
  | .fail i e =>
    match s.threads i with
    | some (c, .ensuring) => some ({ s with late := .create :: s.late }.setStage i c (.failed e))
    | some (c, .getting) => some (s.setStage i c (.failed e))
    -- before the server has carried the request out, or after
    | some (c, .setting u) => some ({ s with late := .set u :: s.late }.setRaised (object i) i c e)
    | some (c, .answered _ _) => some (s.setRaised (object i) i c e)
    | _ => none
  | .serveLate n =>
    match s.late[n]? with
    | some r => some { s with node := (s.node.serve r).1, late := s.late.eraseIdx n }
    | none => none
  -- the decision of `client.retry`
  | .again i =>
    match s.threads i with
    | some (c, .failed e) =>
      if e.retried then some (s.setStage i c (entered (s.objects (object i)))) else none
    | _ => none
  | .giveUp i =>
    match s.threads i with
    | some (c, .failed _) =>
      some { s with threads := Function.update s.threads i none, raised := c :: s.raised }
    | _ => none

end Counting

/-- The runs of the threads `ι`, each of which works with one of the objects. -/
def counting {κ ι : Type} [DecidableEq κ] [DecidableEq ι] (C : Counters κ) (object : ι → κ) :
    Machine (Counting κ ι) (CounterAct ι) where
  init := .new C
  enabled := fun s act => (s.step C object act).isSome
  post := fun s act => (s.step C object act).getD s

instance {κ ι : Type} [DecidableEq κ] [DecidableEq ι] (C : Counters κ) (object : ι → κ)
    (s : Counting κ ι) (act : CounterAct ι) : Decidable ((counting C object).enabled s act) :=
  inferInstanceAs (Decidable ((s.step C object act).isSome = true))

end Kazoo
