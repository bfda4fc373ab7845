import Kazoo.Lib.Machine
import Kazoo.Recipe.Contenders

/-!
# Queues on one path

`BaseQueue` and `Queue` of `kazoo/recipe/queue.py`.  Any number of producers, and any number of `Queue`
objects, each with one call of `get` at a time.  A server that answers may lag behind; a request whose
caller is told that the connection is lost may be carried out at any later time, or never.
-/

namespace Kazoo

/-! ## Entries -/

/-- The end of the path that `put` creates: `"{prefix}-{priority:03d}-"` and the sequence number. -/
def entryName (priority number : Nat) : PyStr :=
  str "entry-" ++ FixedWidth.digits digitChar 10 3 priority ++ str "-" ++ sequenceText number

/-- `_check_put_arguments`, for a priority that is an `int`. -/
def checkPutArguments (priority : Int) : Except Exn Nat :=
  if priority < 0 ∨ 999 < priority then .error .valueError else .ok priority.toNat

theorem checkPutArguments_eq_ok_iff {priority : Int} {n : Nat} :
    checkPutArguments priority = .ok n ↔ (0 ≤ priority ∧ priority ≤ 999) ∧ priority.toNat = n := by
  unfold checkPutArguments
  split
  next h => exact iff_of_false (fun h' => nomatch h') (by omega)
  next h => simp only [Except.ok.injEq, show 0 ≤ priority ∧ priority ≤ 999 by omega, true_and]

theorem lt_of_checkPutArguments {priority : Int} {n : Nat} (h : checkPutArguments priority = .ok n) :
    n < 10 ^ 3 := by
  obtain ⟨hbounds, rfl⟩ := checkPutArguments_eq_ok_iff.mp h
  omega

theorem drop_entryName (priority number : Nat) :
    (entryName priority number).drop 10 = sequenceText number := by
  have hlength : (str "entry-" ++ FixedWidth.digits digitChar 10 3 priority ++ str "-").length =
      10 := by
    rw [List.length_append, List.length_append, FixedWidth.length_digits]
    rfl
  exact List.drop_left' hlength

/-- No number is used twice, so no name is. -/
theorem number_of_entryName {priority number priority' number' : Nat} (h : number < sequenceLimit)
    (h' : number' < sequenceLimit) (heq : entryName priority number = entryName priority' number') :
    number = number' := by
  apply sequenceText_injective h h'
  rw [← drop_entryName priority, heq, drop_entryName]

/-- The name and the value of an entry. -/
abbrev QueueEntry := PyStr × Bytes

/-- What producers have put and what is left of it, under one path. -/
structure QueueEntries where
  present : List QueueEntry
  -- history: everything that has been put
  put : List QueueEntry
  -- the sequence number of the next node
  next : Nat

namespace QueueEntries

variable {e e' : QueueEntries} {name : PyStr} {value : Bytes}

def new : QueueEntries := ⟨[], [], 0⟩

/-- A sequence node is created. -/
def add (e : QueueEntries) (priority : Nat) (value : Bytes) : QueueEntries where
  present := (entryName priority e.next, value) :: e.present
  put := (entryName priority e.next, value) :: e.put
  next := e.next + 1

def delete (e : QueueEntries) (name : PyStr) : QueueEntries :=
  { e with present := e.present.filter (·.1 ≠ name) }

def Has (e : QueueEntries) (name : PyStr) : Prop := name ∈ e.present.map Prod.fst

instance (e : QueueEntries) (name : PyStr) : Decidable (e.Has name) :=
  inferInstanceAs (Decidable (_ ∈ _))

/-- The names are those of the numbers below `next`, each used once. -/
structure Sound (e : QueueEntries) : Prop where
  numbered : ∀ entry ∈ e.put, ∃ priority number, number < e.next ∧ entry.1 = entryName priority number
  limit : e.next ≤ sequenceLimit
  nodup : (e.put.map Prod.fst).Nodup
  present : e.present.Sublist e.put

theorem sound_new : new.Sound := ⟨fun _ h => absurd h List.not_mem_nil, by decide, .nil, .slnil⟩

theorem Sound.fresh (h : e.Sound) (hnext : e.next < sequenceLimit) (priority : Nat) :
    entryName priority e.next ∉ e.put.map Prod.fst := by
  intro hmem
  obtain ⟨entry, hentry, heq⟩ := List.mem_map.mp hmem
  obtain ⟨priority', number, hlt, hname⟩ := h.numbered entry hentry
  have hnumber := number_of_entryName (Nat.lt_trans hlt hnext) hnext (hname.symm.trans heq)
  omega

theorem Sound.add (h : e.Sound) (hnext : e.next < sequenceLimit) (priority : Nat) (value : Bytes) :
    (e.add priority value).Sound := by
  refine ⟨?_, hnext, List.nodup_cons.mpr ⟨h.fresh hnext priority, h.nodup⟩, h.present.cons_cons _⟩
  intro entry hentry
  rcases List.mem_cons.mp hentry with rfl | hentry
  · exact ⟨priority, e.next, Nat.lt_succ_self _, rfl⟩
  · obtain ⟨priority', number, hlt, hname⟩ := h.numbered entry hentry
    exact ⟨priority', number, Nat.lt_succ_of_lt hlt, hname⟩

theorem Sound.delete (h : e.Sound) (name : PyStr) : (e.delete name).Sound :=
  ⟨h.numbered, h.limit, h.nodup, List.filter_sublist.trans h.present⟩

/-- A name has one value for good. -/
theorem Sound.value_unique (h : e.Sound) {value' : Bytes} (hput : (name, value) ∈ e.put)
    (hput' : (name, value') ∈ e.put) : value = value' := by
  have hinj := List.inj_on_of_nodup_map h.nodup hput hput' rfl
  exact (Prod.mk.inj hinj).2

theorem not_has_delete (e : QueueEntries) (name : PyStr) : ¬ (e.delete name).Has name := by
  intro h
  obtain ⟨entry, hentry, heq⟩ := List.mem_map.mp h
  exact of_decide_eq_true (List.mem_filter.mp hentry).2 heq

theorem mem_present_delete {entry : QueueEntry} :
    entry ∈ (e.delete name).present ↔ entry ∈ e.present ∧ entry.1 ≠ name := by
  rw [delete, List.mem_filter, decide_eq_true_iff]

end QueueEntries

/-! ## `Queue` -/

/-- Where the thread inside `get` is. -/
inductive QueueStage
  | absent
  -- about to call `client.retry(client.get_children, path)`
  | listing
  -- about to call `client.get`
  | reading (name : PyStr)
  -- about to call `client.delete`
  | deleting (name : PyStr) (data : Bytes)
  -- `_inner_get` has raised
  | failed (e : Exn)
  deriving DecidableEq, Repr

structure QueueObject where
  -- `_children`
  children : List PyStr
  stage : QueueStage

structure Queues (ι : Type) where
  entries : QueueEntries
  objects : ι → QueueObject
  -- deletes whose callers have been told that the connection is lost
  late : List PyStr
  -- history: the entries whose data `get` has returned, and the lists on which it has returned `None`
  returned : List (ι × QueueEntry)
  empties : List (ι × List PyStr)

inductive QueueAct (ι : Type)
  -- some producer's `put`, whether or not it is told
  | put (priority : Int) (value : Bytes)
  | get (i : ι)
  | list (i : ι) (names : List PyStr)
  | read (i : ι) (data : Bytes)
  -- the server answers that there is no such node
  | miss (i : ι)
  | delete (i : ι)
  -- a request fails for another reason; if `lost`, the server may have it all the same
  | fail (i : ι) (e : Exn) (lost : Bool)
  | serveLate (n : Nat)
  -- the decision of `client.retry`
  | again (i : ι)
  | giveUp (i : ι)
  deriving DecidableEq, Repr

namespace Queues

variable {ι : Type} [DecidableEq ι]

def new : Queues ι where
  entries := .new
  objects := fun _ => ⟨[], .absent⟩
  late := []
  returned := []
  empties := []

def setObject (s : Queues ι) (i : ι) (o : QueueObject) : Queues ι :=
  { s with objects := Function.update s.objects i o }

def setStage (s : Queues ι) (i : ι) (stage : QueueStage) : Queues ι :=
  s.setObject i { s.objects i with stage := stage }

/-- `_inner_get` is entered. -/
def entered (o : QueueObject) : QueueObject :=
  match o.children with
  | [] => { o with stage := .listing }
  | name :: _ => { o with stage := .reading name }

/-- `except NoNodeError`. -/
def vanished (s : Queues ι) (i : ι) : Queues ι := s.setObject i ⟨[], .failed .forceRetryError⟩

/-- The step, where the thread is at the place it starts from. -/
def step (s : Queues ι) : QueueAct ι → Option (Queues ι)
  | .put priority value =>
    match checkPutArguments priority with
    | .error _ => none
    | .ok priority =>
      if s.entries.next < sequenceLimit then
        some { s with entries := s.entries.add priority value }
      else none
  | .get i =>
    match (s.objects i).stage with
    | .absent => some (s.setObject i (entered (s.objects i)))
    | _ => none
  | .list i names =>
    match (s.objects i).stage with
    | .listing =>
      match sortedNames names with
      | [] => some { s.setObject i ⟨[], .absent⟩ with empties := (i, names) :: s.empties }
      | name :: children => some (s.setObject i ⟨name :: children, .reading name⟩)
    | _ => none
  | .read i data =>
    match (s.objects i).stage with
    | .reading name =>
      if (name, data) ∈ s.entries.put then some (s.setStage i (.deleting name data)) else none
    | _ => none
  | .miss i =>
    match (s.objects i).stage with
    | .reading name | .deleting name _ => if s.entries.Has name then none else some (s.vanished i)
    | _ => none
  | .delete i =>
    match (s.objects i).stage with
    | .deleting name data =>
      if s.entries.Has name then
        some { s.setObject i ⟨(s.objects i).children.drop 1, .absent⟩ with
          entries := s.entries.delete name
          returned := (i, name, data) :: s.returned }
      else none
    | _ => none
  | .fail i e lost =>
    if e = .noNodeError then none
    else
      match (s.objects i).stage with
      -- what `client.retry` does not retry, or no longer
      | .listing => some (s.setStage i (.failed (if e.retried then .retryFailedError else e)))
      | .reading _ => some (s.setStage i (.failed e))
      | .deleting name _ =>
        some { s.setStage i (.failed e) with late := if lost then name :: s.late else s.late }
      | _ => none
  | .serveLate n =>
    match s.late[n]? with
    | some name => some { s with entries := s.entries.delete name, late := s.late.eraseIdx n }
    | none => none
  | .again i =>
    match (s.objects i).stage with
    | .failed e => if e.retried then some (s.setObject i (entered (s.objects i))) else none
    | _ => none
  | .giveUp i =>
    match (s.objects i).stage with
    | .failed _ => some (s.setStage i .absent)
    | _ => none

/-- All that a step can do. -/
inductive Steps (s : Queues ι) : QueueAct ι → Queues ι → Prop
  | put {n : Nat} {priority : Int} {value : Bytes} (hpriority : checkPutArguments priority = .ok n)
      (hnext : s.entries.next < sequenceLimit) :
    Steps s (.put priority value) { s with entries := s.entries.add n value }
  | get {i : ι} (hstage : (s.objects i).stage = .absent) :
    Steps s (.get i) (s.setObject i (entered (s.objects i)))
  | listEmpty {i : ι} {names : List PyStr} (hstage : (s.objects i).stage = .listing)
      (hnames : sortedNames names = []) :
    Steps s (.list i names) { s.setObject i ⟨[], .absent⟩ with empties := (i, names) :: s.empties }
  | list {i : ι} {names children : List PyStr} {name : PyStr}
      (hstage : (s.objects i).stage = .listing) (hnames : sortedNames names = name :: children) :
    Steps s (.list i names) (s.setObject i ⟨name :: children, .reading name⟩)
  | read {i : ι} {name : PyStr} {data : Bytes} (hstage : (s.objects i).stage = .reading name)
      (hput : (name, data) ∈ s.entries.put) :
    Steps s (.read i data) (s.setStage i (.deleting name data))
  | missRead {i : ι} {name : PyStr} (hstage : (s.objects i).stage = .reading name)
      (hgone : ¬ s.entries.Has name) : Steps s (.miss i) (s.vanished i)
  | missDelete {i : ι} {name : PyStr} {data : Bytes} (hstage : (s.objects i).stage = .deleting name data)
      (hgone : ¬ s.entries.Has name) : Steps s (.miss i) (s.vanished i)
  | delete {i : ι} {name : PyStr} {data : Bytes} (hstage : (s.objects i).stage = .deleting name data)
      (hhas : s.entries.Has name) :
    Steps s (.delete i) { s.setObject i ⟨(s.objects i).children.drop 1, .absent⟩ with
      entries := s.entries.delete name
      returned := (i, name, data) :: s.returned }
  | failList {i : ι} {e : Exn} {lost : Bool} (he : e ≠ .noNodeError)
      (hstage : (s.objects i).stage = .listing) :
    Steps s (.fail i e lost) (s.setStage i (.failed (if e.retried then .retryFailedError else e)))
  | failRead {i : ι} {e : Exn} {lost : Bool} {name : PyStr} (he : e ≠ .noNodeError)
      (hstage : (s.objects i).stage = .reading name) :
    Steps s (.fail i e lost) (s.setStage i (.failed e))
  | failDelete {i : ι} {e : Exn} {lost : Bool} {name : PyStr} {data : Bytes} (he : e ≠ .noNodeError)
      (hstage : (s.objects i).stage = .deleting name data) :
    Steps s (.fail i e lost)
      { s.setStage i (.failed e) with late := if lost then name :: s.late else s.late }
  | serveLate {n : Nat} {name : PyStr} (hname : s.late[n]? = some name) :
    Steps s (.serveLate n)
      { s with entries := s.entries.delete name, late := s.late.eraseIdx n }
  | again {i : ι} {e : Exn} (hstage : (s.objects i).stage = .failed e) (he : e.retried = true) :
    Steps s (.again i) (s.setObject i (entered (s.objects i)))
  | giveUp {i : ι} {e : Exn} (hstage : (s.objects i).stage = .failed e) :
    Steps s (.giveUp i) (s.setStage i .absent)

theorem steps_of_step {s s' : Queues ι} {act : QueueAct ι} (h : s.step act = some s') :
    s.Steps act s' := by
  cases act <;> simp only [step] at h
  case put priority value =>
    split at h
    · cases h
    case h_2 n hpriority =>
      obtain ⟨hnext, h⟩ := Option.ite_none_right_eq_some.mp h
      exact Option.some.inj h ▸ .put hpriority hnext
  case get i =>
    split at h
    case h_1 hstage => exact Option.some.inj h ▸ .get hstage
    · cases h
  case list i names =>
    split at h
    case h_1 hstage =>
      split at h
      case h_1 hnames => exact Option.some.inj h ▸ .listEmpty hstage hnames
      case h_2 name children hnames => exact Option.some.inj h ▸ .list hstage hnames
    · cases h
  case read i data =>
    split at h
    case h_1 name hstage =>
      obtain ⟨hput, h⟩ := Option.ite_none_right_eq_some.mp h
      exact Option.some.inj h ▸ .read hstage hput
    · cases h
  case miss i =>
    split at h
    case h_1 name hstage =>
      obtain ⟨hgone, h⟩ := Option.ite_none_left_eq_some.mp h
      exact Option.some.inj h ▸ .missRead hstage hgone
    case h_2 name data hstage =>
      obtain ⟨hgone, h⟩ := Option.ite_none_left_eq_some.mp h
      exact Option.some.inj h ▸ .missDelete hstage hgone
    · cases h
  case delete i =>
    split at h
    case h_1 name data hstage =>
      obtain ⟨hhas, h⟩ := Option.ite_none_right_eq_some.mp h
      exact Option.some.inj h ▸ .delete hstage hhas
    · cases h
  case fail i e lost =>
    obtain ⟨he, h⟩ := Option.ite_none_left_eq_some.mp h
    split at h
    case h_1 hstage => exact Option.some.inj h ▸ .failList he hstage
    case h_2 name hstage => exact Option.some.inj h ▸ .failRead he hstage
    case h_3 name data hstage => exact Option.some.inj h ▸ .failDelete he hstage
    · cases h
  case serveLate n =>
    split at h
    case h_1 name hname => exact Option.some.inj h ▸ .serveLate hname
    · cases h
  case again i =>
    split at h
    case h_1 e hstage =>
      obtain ⟨he, h⟩ := Option.ite_none_right_eq_some.mp h
      exact Option.some.inj h ▸ .again hstage he
    · cases h
  case giveUp i =>
    split at h
    case h_1 e hstage => exact Option.some.inj h ▸ .giveUp hstage
    · cases h

end Queues

/-- All interleavings of the producers and of the objects `ι`. -/
def queueing (ι : Type) [DecidableEq ι] : Machine (Queues ι) (QueueAct ι) where
  init := .new
  enabled := fun s act => (s.step act).isSome
  post := fun s act => (s.step act).getD s

instance {ι : Type} [DecidableEq ι] (s : Queues ι) (act : QueueAct ι) :
    Decidable ((queueing ι).enabled s act) :=
  inferInstanceAs (Decidable ((s.step act).isSome = true))

namespace Queues

variable {ι : Type} [DecidableEq ι] {s s' : Queues ι} {i : ι} {act : QueueAct ι}

/-! ## What every step keeps -/

structure Inv (s : Queues ι) : Prop where
  entries : s.entries.Sound
  deleting : ∀ i name data, (s.objects i).stage = .deleting name data → (name, data) ∈ s.entries.put
  put : ∀ r ∈ s.returned, r.2 ∈ s.entries.put
  gone : ∀ r ∈ s.returned, ¬ s.entries.Has r.2.1
  nodup : (s.returned.map fun r => r.2.1).Nodup
  empties : ∀ r ∈ s.empties, r.2 = []

omit [DecidableEq ι] in
theorem inv_new : (new : Queues ι).Inv where
  entries := QueueEntries.sound_new
  deleting := fun _ _ _ h => nomatch h
  put := fun _ h => absurd h List.not_mem_nil
  gone := fun _ h => absurd h List.not_mem_nil
  nodup := .nil
  empties := fun _ h => absurd h List.not_mem_nil

/-- The thread moves, and nothing else. -/
theorem Inv.setObject (h : s.Inv) {o : QueueObject}
    (ho : ∀ name data, o.stage = .deleting name data → (name, data) ∈ s.entries.put) :
    (s.setObject i o).Inv := by
  refine ⟨h.entries, ?_, h.put, h.gone, h.nodup, h.empties⟩
  intro j name data hstage
  by_cases hj : j = i
  · subst hj
    exact ho name data (by simpa [Queues.setObject] using hstage)
  · exact h.deleting j name data (by simpa [Queues.setObject, hj] using hstage)

theorem entered_stage (o : QueueObject) (name : PyStr) (data : Bytes) :
    (entered o).stage ≠ .deleting name data := by
  unfold entered
  split <;> exact nofun

omit [DecidableEq ι] in
theorem Inv.add (h : s.Inv) (hnext : s.entries.next < sequenceLimit) (priority : Nat)
    (value : Bytes) : { s with entries := s.entries.add priority value }.Inv where
  entries := h.entries.add hnext priority value
  deleting := fun i name data hstage => List.mem_cons_of_mem _ (h.deleting i name data hstage)
  put := fun r hr => List.mem_cons_of_mem _ (h.put r hr)
  gone := by
    intro r hr hhas
    rcases List.mem_cons.mp hhas with hname | hhas
    · refine h.entries.fresh hnext priority ?_
      rw [show entryName priority s.entries.next = r.2.1 from hname.symm]
      exact List.mem_map_of_mem (h.put r hr)
    · exact h.gone r hr hhas
  nodup := h.nodup
  empties := h.empties

omit [DecidableEq ι] in
theorem Inv.vanish (h : s.Inv) (name : PyStr) : { s with entries := s.entries.delete name }.Inv where
  entries := h.entries.delete name
  deleting := h.deleting
  put := h.put
  gone := by
    intro r hr hhas
    obtain ⟨entry, hentry, hname⟩ := List.mem_map.mp hhas
    exact h.gone r hr
      (List.mem_map.mpr ⟨entry, (QueueEntries.mem_present_delete.mp hentry).1, hname⟩)
  nodup := h.nodup
  empties := h.empties

omit [DecidableEq ι] in
theorem Inv.deliver (h : s.Inv) {name : PyStr} {data : Bytes}
    (hstage : (s.objects i).stage = .deleting name data) (hhas : s.entries.Has name) :
    { s with
      entries := s.entries.delete name
      returned := (i, name, data) :: s.returned }.Inv where
  entries := h.entries.delete name
  deleting := h.deleting
  put := by
    intro r hr
    rcases List.mem_cons.mp hr with rfl | hr
    · exact h.deleting i name data hstage
    · exact h.put r hr
  gone := by
    intro r hr
    rcases List.mem_cons.mp hr with rfl | hr
    · exact QueueEntries.not_has_delete _ _
    · exact (h.vanish name).gone r hr
  nodup := by
    refine List.nodup_cons.mpr ⟨fun hmem => ?_, h.nodup⟩
    obtain ⟨r, hr, hname⟩ := List.mem_map.mp hmem
    exact h.gone r hr (hname ▸ hhas)
  empties := h.empties

theorem Inv.step (h : s.Inv) (hstep : s.step act = some s') : s'.Inv := by
  cases steps_of_step hstep with
  | @put n priority value _ hnext => exact h.add hnext n value
  | get _ | again _ _ =>
    exact h.setObject fun name data hstage => absurd hstage (entered_stage _ _ _)
  | @listEmpty i names _ hnames =>
    have hset : (s.setObject i ⟨[], .absent⟩).Inv := h.setObject nofun
    refine { hset with empties := ?_ }
    intro r hr
    rcases List.mem_cons.mp hr with rfl | hr
    · exact sortedNames_eq_nil_iff.mp hnames
    · exact h.empties r hr
  | list _ _ | missRead _ _ | missDelete _ _ | failList _ _ | failRead _ _ | giveUp _ =>
    exact h.setObject nofun
  | read _ hput =>
    refine h.setObject fun name' data' hstage' => ?_
    cases hstage'
    exact hput
  | delete hstage hhas => exact (h.deliver hstage hhas).setObject nofun
  | @failDelete i e lost name data _ _ =>
    have hset : (s.setStage i (.failed e)).Inv := h.setObject nofun
    exact { hset with }
  | @serveLate n name _ =>
    have hvanish := h.vanish name
    exact { hvanish with }

theorem inv_of_reach {ok : Queues ι → QueueAct ι → Prop} (h : (queueing ι).Reach ok s) : s.Inv := by
  apply h.invariant inv_new
  intro s act _ hs henabled _
  obtain ⟨s', hs'⟩ := Option.isSome_iff_exists.mp henabled
  show ((s.step act).getD s).Inv
  rw [hs']
  exact hs.step hs'

/-! ## Delivery -/

/-- No request is lost on its way. -/
def Lossless (_ : Queues ι) : QueueAct ι → Prop
  | .fail _ _ lost => lost = false
  | _ => True

instance (s : Queues ι) (act : QueueAct ι) : Decidable (s.Lossless act) := by
  unfold Lossless
  split <;> infer_instance

/-- How many calls of `get` have returned the value of the entry. -/
def deliveries (s : Queues ι) (name : PyStr) : Nat := (s.returned.map fun r => r.2.1).count name

/-- No value is returned twice, and what is returned has been put. -/
structure AtMostOnce (s : Queues ι) : Prop where
  once : ∀ name, s.deliveries name ≤ 1
  put : ∀ r ∈ s.returned, r.2 ∈ s.entries.put

/-- What is gone has been returned, once, and `None` has been returned only where there was nothing in
the list. -/
structure NothingLost (s : Queues ι) : Prop where
  delivered : ∀ entry ∈ s.entries.put, entry ∉ s.entries.present → s.deliveries entry.1 = 1
  empties : ∀ r ∈ s.empties, r.2 = []

omit [DecidableEq ι] in
theorem Inv.atMostOnce (h : s.Inv) : s.AtMostOnce :=
  ⟨fun name => List.nodup_iff_count_le_one.mp h.nodup name, h.put⟩

/-- What holds besides as long as no request is lost. -/
structure Kept (s : Queues ι) : Prop where
  late : s.late = []
  returned : ∀ entry ∈ s.entries.put, entry ∈ s.entries.present ∨ ∃ i, (i, entry) ∈ s.returned

omit [DecidableEq ι] in
theorem Kept.nothingLost (h : s.Kept) (hs : s.Inv) : s.NothingLost := by
  refine ⟨fun entry hput hgone => ?_, hs.empties⟩
  obtain ⟨i, hreturned⟩ := (h.returned entry hput).resolve_left hgone
  exact List.count_eq_one_of_mem hs.nodup (List.mem_map.mpr ⟨_, hreturned, rfl⟩)

theorem Kept.step (h : s.Kept) (hs : s.Inv) (hok : s.Lossless act) (hstep : s.step act = some s') :
    s'.Kept := by
  cases steps_of_step hstep with
  | put _ _ =>
    refine ⟨h.late, fun entry hput => ?_⟩
    rcases List.mem_cons.mp hput with rfl | hput
    · exact .inl List.mem_cons_self
    · exact (h.returned entry hput).imp (List.mem_cons_of_mem _) id
  | @delete i name data hstage _ =>
    refine ⟨h.late, fun entry hput => ?_⟩
    rcases h.returned entry hput with hpresent | ⟨j, hreturned⟩
    · by_cases hname : entry.1 = name
      · -- the entry is the one whose data the thread has
        have hdata := hs.entries.value_unique (hname ▸ hput : (name, entry.2) ∈ s.entries.put)
          (hs.deleting i name data hstage)
        exact .inr ⟨i, List.mem_cons.mpr (.inl (by rw [← hname, ← hdata]))⟩
      · exact .inl (QueueEntries.mem_present_delete.mpr ⟨hpresent, hname⟩)
    · exact .inr ⟨j, List.mem_cons_of_mem _ hreturned⟩
  | @failDelete i e lost name data _ _ =>
    obtain rfl : lost = false := hok
    exact ⟨h.late, h.returned⟩
  | serveLate hname =>
    rw [h.late] at hname
    cases hname
  | _ => exact ⟨h.late, h.returned⟩

theorem kept_of_reach (h : (queueing ι).Reach Lossless s) : s.Kept := by
  apply h.invariant (P := Kept) ⟨rfl, fun _ h => absurd h List.not_mem_nil⟩
  intro s act hr hs henabled hok
  obtain ⟨s', hs'⟩ := Option.isSome_iff_exists.mp henabled
  show ((s.step act).getD s).Kept
  rw [hs']
  exact hs.step (inv_of_reach hr) hok hs'

/-- Both have the list; the second is too late, and finds the queue empty when it looks again. -/
def twoConsumers : List (QueueAct Bool) :=
  let name := entryName 100 0
  [.put 100 [7], .get false, .get true, .list false [name], .list true [name], .read false [7],
    .read true [7], .delete false, .miss true, .again true, .list true []]

end Queues

end Kazoo
