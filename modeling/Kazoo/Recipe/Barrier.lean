import Kazoo.Lib.Machine
import Kazoo.Protocol.States
import Kazoo.Recipe.Contenders
import Mathlib.Logic.Function.Basic

/-!
# Double barriers on one path

`DoubleBarrier` of `kazoo/recipe/barrier.py`.  Any number of participants, each with one call of `enter`
or `leave` at a time and with a session of its own.  A request is carried out and answered in one
step; a watch event is under way until it is delivered.
-/

namespace Kazoo

/-- What the constructors of the participants `π` fix. -/
structure DoubleBarriers (π : Type) where
  numClients : Nat
  -- `uuid.uuid4().hex`
  nodeName : π → PyStr
  nodeName_length : ∀ p, (nodeName p).length = 32
  nodeName_hex : ∀ p, ∀ c ∈ nodeName p, c ≤ CodePoint.ofChar 'f'
  nodeName_injective : Function.Injective nodeName

def readyName : PyStr := str "ready"

/-- Which of the two calls an exception leaves. -/
inductive BarrierCall
  | enter | leave
  deriving DecidableEq, Repr

/-- Where the thread of a participant is.  Names are relative to the path. -/
inductive BarrierStage
  | outside
  -- `_inner_enter`, about to call `ensure_path(path)`
  | ensuring
  -- about to create its node
  | creating
  -- about to call `exists(path + "/ready", watch=created)`
  | watching
  -- about to call `get_children(path)`
  | counting
  -- in `ready.wait()`
  | awaitingReady
  -- `ensure_path(path + "/ready")`: about to ask for the node, and about to create it
  | askingReady
  | makingReady
  -- `_inner_leave`, about to delete the ready node
  | unreadying
  -- about to call `get_children(path)`
  | listing
  -- about to delete its node, the only one
  | deletingLast
  -- about to call `exists`, and in `ready.wait()`, as the first
  | checkingHighest (highest : PyStr)
  | awaitingHighest (highest : PyStr)
  -- about to delete its node, to call `exists`, and in `ready.wait()`, as another
  | deletingOwn (first : PyStr)
  | checkingFirst (first : PyStr)
  | awaitingFirst (first : PyStr)
  -- `_inner_enter` or `_inner_leave` has raised
  | failed (call : BarrierCall) (e : Exn)
  -- in `_best_effort_cleanup`
  | cleaning
  deriving DecidableEq, Repr

structure BarrierObject where
  stage : BarrierStage
  assuredPath : Bool
  participating : Bool
  -- the watch function of this turn: the node whose watch it is registered for, the event that is
  -- under way to it, and whether it has called `ready.set()`
  watch : Option PyStr
  event : Option EventType
  ready : Bool
  -- history: the calls of `enter`
  enters : Nat

structure Gathering (π : Type) where
  -- the participant nodes under the path, and whether there is the ready node
  present : List π
  ready : Bool
  objects : π → BarrierObject
  -- history: the greatest number of participant nodes at one time, since the participant has created
  -- its node, or found it existing
  peak : π → Nat
  -- history: the calls of `enter` that have returned with `participating`, with `peak` as it was
  entries : List (π × Nat)
  -- history: how often the participant has deleted its node
  deletions : π → Nat

inductive BarrierAct (π : Type)
  | enter (p : π)
  | leave (p : π)
  -- the request that the thread is about to make is carried out and answered, or its wait is over
  | go (p : π)
  | deliver (p : π)
  -- the participant loses its connection; a request that it has made may be carried out
  | drop (p : π) (e : Exn) (carriedOut : Bool)
  -- the server ends the session
  | expire (p : π)
  -- the decision of `client.retry`
  | again (p : π)
  | giveUp (p : π)
  deriving DecidableEq, Repr

namespace Gathering

variable {π : Type} [DecidableEq π] (B : DoubleBarriers π)

def new : Gathering π where
  present := []
  ready := false
  objects := fun _ => ⟨.outside, false, false, none, none, false, 0⟩
  peak := fun _ => 0
  entries := []
  deletions := fun _ => 0

def setObject (s : Gathering π) (p : π) (o : BarrierObject) : Gathering π :=
  { s with objects := Function.update s.objects p o }

def setStage (s : Gathering π) (p : π) (stage : BarrierStage) : Gathering π :=
  s.setObject p { s.objects p with stage := stage }

/-! ## The server -/

/-- The names under the path. -/
def children (s : Gathering π) : List PyStr :=
  s.present.map B.nodeName ++ if s.ready then [readyName] else []

/-- The watch functions that are registered for the node are sent an event. -/
def notify (s : Gathering π) (name : PyStr) (type : EventType) : Gathering π :=
  { s with
    objects := fun p =>
      if (s.objects p).watch = some name then
        { s.objects p with watch := none, event := some type }
      else s.objects p }

/-- The node of `p` appears, if it is not there. -/
def createNode (s : Gathering π) (p : π) : Gathering π :=
  if p ∈ s.present then s
  else
    { s.notify (B.nodeName p) .CREATED with
      present := p :: s.present
      peak := fun q => max (s.peak q) (s.present.length + 1) }

def deleteNode (s : Gathering π) (p : π) : Gathering π :=
  if p ∈ s.present then
    { s.notify (B.nodeName p) .DELETED with present := s.present.filter (· ≠ p) }
  else s

def createReady (s : Gathering π) : Gathering π :=
  if s.ready then s else { s.notify readyName .CREATED with ready := true }

def deleteReady (s : Gathering π) : Gathering π :=
  if s.ready then { s.notify readyName .DELETED with ready := false } else s

/-- What the request of the thread does to the server. -/
def effect (s : Gathering π) (p : π) : Gathering π :=
  match (s.objects p).stage with
  | .creating => s.createNode B p
  | .makingReady => s.createReady
  | .unreadying => s.deleteReady
  | .deletingLast | .deletingOwn _ | .cleaning => s.deleteNode B p
  | _ => s

/-! ## The threads -/

/-- `exists(path + "/" + name, watch=...)` with a new event object. -/
def register (s : Gathering π) (p : π) (name : PyStr) : Gathering π :=
  s.setObject p { s.objects p with watch := some name, event := none, ready := false }

/-- `enter` returns after `_inner_enter`. -/
def enterReturns (s : Gathering π) (p : π) : Gathering π :=
  { s.setObject p { s.objects p with stage := .outside, participating := true } with
    entries := (p, s.peak p) :: s.entries }

/-- `participating` is cleared, and the call returns. -/
def returns (s : Gathering π) (p : π) : Gathering π :=
  s.setObject p { s.objects p with stage := .outside, participating := false }

/-- `_inner_enter` is entered. -/
def start (s : Gathering π) (p : π) : Gathering π :=
  s.setStage p (if (s.objects p).assuredPath then .creating else .ensuring)

/-- The branch that `_inner_leave` takes on the children. -/
def leaving (own : PyStr) (children : List PyStr) : Option BarrierStage :=
  match sortedNames children with
  | [] => none
  | [name] => some (if name = own then .deletingLast else .deletingOwn name)
  | first :: second :: rest =>
    some (if own = first then .checkingHighest ((second :: rest).getLastD second)
      else .deletingOwn first)

/-- The thread deletes its node, and goes on with `next`. -/
def deleting (s : Gathering π) (p : π) (next : Gathering π → Gathering π) : Gathering π :=
  if p ∈ s.present then
    next { s.deleteNode B p with
      deletions := Function.update s.deletions p (s.deletions p + 1) }
  else s.setStage p (.failed .leave .noNodeError)

/-- The next step of the thread, where it is able to take one. -/
def goOn (s : Gathering π) (p : π) : Option (Gathering π) :=
  match (s.objects p).stage with
  | .outside | .failed _ _ => none
  | .ensuring =>
    some (s.setObject p { s.objects p with stage := .creating, assuredPath := true })
  | .creating =>
    -- `NodeExistsError` is passed over
    let s := s.createNode B p
    some ({ s with peak := Function.update s.peak p s.present.length }.setStage p .watching)
  | .watching => some ((s.register p readyName).setStage p .counting)
  | .counting =>
    some (s.setStage p
      (if (s.children B).length < B.numClients then .awaitingReady else .askingReady))
  | .awaitingReady => if (s.objects p).ready then some (s.enterReturns p) else none
  | .askingReady => some (if s.ready then s.enterReturns p else s.setStage p .makingReady)
  | .makingReady => some (s.createReady.enterReturns p)
  | .unreadying => some (s.deleteReady.setStage p .listing)
  | .listing =>
    match leaving (B.nodeName p) (s.children B) with
    | none => some (s.returns p)
    | some stage => some (s.setStage p stage)
  | .deletingLast => some (s.deleting B p fun s => s.returns p)
  | .checkingHighest highest =>
    some (if highest ∈ s.children B then
      (s.register p highest).setStage p (.awaitingHighest highest)
    else s.setStage p .listing)
  | .awaitingHighest _ | .awaitingFirst _ =>
    if (s.objects p).ready then some (s.setStage p .listing) else none
  | .deletingOwn first => some (s.deleting B p fun s => s.setStage p (.checkingFirst first))
  | .checkingFirst first =>
    some (if first ∈ s.children B then
      (s.register p first).setStage p (.awaitingFirst first)
    else s.setStage p .listing)
  | .cleaning =>
    -- `NoNodeError` is passed over
    let deletions := if p ∈ s.present then s.deletions p + 1 else s.deletions p
    some ({ s.deleteNode B p with
      deletions := Function.update s.deletions p deletions }.returns p)

/-- The type of event that the watch function of the thread waits for. -/
def awaited : BarrierStage → EventType
  | .counting | .awaitingReady | .askingReady | .makingReady => .CREATED
  | _ => .DELETED

/-- The stage with a request of the thread that fails, if there is one. -/
def failing (e : Exn) : BarrierStage → Option BarrierStage
  | .ensuring | .creating | .watching | .counting | .askingReady | .makingReady =>
    some (.failed .enter e)
  | .unreadying | .listing | .deletingLast | .checkingHighest _ | .deletingOwn _
  | .checkingFirst _ => some (.failed .leave e)
  -- `client.retry` tries again, or raises out of the call
  | .cleaning => some (if e.retried then .cleaning else .outside)
  | .outside | .awaitingReady | .awaitingHighest _ | .awaitingFirst _ | .failed _ _ => none

def step (s : Gathering π) : BarrierAct π → Option (Gathering π)
  | .enter p =>
    match (s.objects p).stage with
    | .outside =>
      some ((s.setObject p { s.objects p with enters := (s.objects p).enters + 1 }).start p)
    | _ => none
  | .leave p =>
    match (s.objects p).stage with
    | .outside => some (s.setStage p .unreadying)
    | _ => none
  | .go p => s.goOn B p
  | .deliver p =>
    match (s.objects p).event with
    | none => none
    | some type =>
      let ready := (s.objects p).ready || type = awaited (s.objects p).stage
      some (s.setObject p { s.objects p with event := none, ready := ready })
  | .drop p e carriedOut =>
    let t := if carriedOut then s.effect B p else s
    let o := { t.objects p with watch := none, event := none }
    some (t.setObject p
      (match failing e o.stage with
        | none => o
        | some stage => { o with stage := stage }))
  | .expire p =>
    let t := s.deleteNode B p
    some (t.setObject p { t.objects p with watch := none, event := none })
  | .again p =>
    match (s.objects p).stage with
    | .failed call e =>
      if e.retried then
        match call with
        | .enter => some (s.start p)
        | .leave => some (s.setStage p .unreadying)
      else none
    | _ => none
  | .giveUp p =>
    match (s.objects p).stage with
    -- a retried exception turns into a `RetryFailedError`
    | .failed _ e =>
      some (s.setStage p (if e.isKazooException || e.retried then .cleaning else .outside))
    | _ => none

end Gathering

/-! ## Names -/

namespace DoubleBarriers

variable {π : Type} (B : DoubleBarriers π) (p : π)

theorem nodeName_ne_readyName : B.nodeName p ≠ readyName := by
  intro h
  have hlength := B.nodeName_length p
  rw [h] at hlength
  exact absurd hlength (by decide)

/-- The ready node is listed last. -/
theorem nodeName_lt_readyName : B.nodeName p < readyName := by
  cases hname : B.nodeName p with
  | nil =>
    have hlength := B.nodeName_length p
    rw [hname] at hlength
    cases hlength
  | cons c rest =>
    have hc : c ≤ CodePoint.ofChar 'f' := B.nodeName_hex p c (hname ▸ List.mem_cons_self)
    have hlt : CodePoint.ofChar 'f' < CodePoint.ofChar 'r' := by decide
    exact List.Lex.rel (lt_of_le_of_lt hc hlt)

end DoubleBarriers

/-! ## What a change at the server tells a participant -/

/-- The participant after the children have changed. -/
def BarrierObject.told (o : BarrierObject) (before after : List PyStr) : BarrierObject :=
  match o.watch with
  | none => o
  | some name =>
    if name ∈ before ↔ name ∈ after then o
    else
      { o with watch := none, event := some (if name ∈ after then .CREATED else .DELETED) }

namespace BarrierObject

variable (o : BarrierObject) (before after : List PyStr)

@[simp] theorem told_self : o.told before before = o := by
  unfold told
  split <;> simp

@[simp] theorem told_stage : (o.told before after).stage = o.stage := by
  unfold told
  split
  · rfl
  · split <;> rfl

@[simp] theorem told_participating : (o.told before after).participating = o.participating := by
  unfold told
  split
  · rfl
  · split <;> rfl

@[simp] theorem told_ready : (o.told before after).ready = o.ready := by
  unfold told
  split
  · rfl
  · split <;> rfl

@[simp] theorem told_enters : (o.told before after).enters = o.enters := by
  unfold told
  split
  · rfl
  · split <;> rfl

variable {o before after} {name : PyStr}

theorem told_of_watch (h : o.watch = some name) :
    o.told before after =
      if name ∈ before ↔ name ∈ after then o
      else
        { o with watch := none, event := some (if name ∈ after then .CREATED else .DELETED) } := by
  simp only [told, h]

theorem told_of_watch_none (h : o.watch = none) : o.told before after = o := by
  simp only [told, h]

/-- What stays watched has not changed. -/
theorem watch_of_told (h : (o.told before after).watch = some name) :
    o.watch = some name ∧ o.told before after = o ∧ (name ∈ before ↔ name ∈ after) := by
  cases hwatch : o.watch with
  | none =>
    rw [told_of_watch_none hwatch, hwatch] at h
    cases h
  | some watched =>
    by_cases hsame : watched ∈ before ↔ watched ∈ after
    · have htold : o.told before after = o := by rw [told_of_watch hwatch, if_pos hsame]
      rw [htold, hwatch] at h
      cases h
      exact ⟨rfl, htold, hsame⟩
    · rw [told_of_watch hwatch, if_neg hsame] at h
      cases h

/-- An event is old, or of a change to what was watched. -/
theorem event_of_told {type : EventType} (h : (o.told before after).event = some type) :
    o.event = some type ∨
      ∃ name, o.watch = some name ∧ (o.told before after).watch = none ∧
        (type = .CREATED ∧ name ∉ before ∧ name ∈ after ∨
          type = .DELETED ∧ name ∈ before ∧ name ∉ after) := by
  cases hwatch : o.watch with
  | none =>
    rw [told_of_watch_none hwatch] at h
    exact .inl h
  | some watched =>
    by_cases hsame : watched ∈ before ↔ watched ∈ after
    · rw [told_of_watch hwatch, if_pos hsame] at h
      exact .inl h
    · right
      rw [told_of_watch hwatch, if_neg hsame] at h ⊢
      refine ⟨watched, rfl, rfl, ?_⟩
      by_cases hafter : watched ∈ after
      · rw [if_pos hafter] at h
        exact .inl ⟨(Option.some.inj h).symm, fun hbefore => hsame ⟨fun _ => hafter, fun _ => hbefore⟩, hafter⟩
      · rw [if_neg hafter] at h
        refine .inr ⟨(Option.some.inj h).symm, ?_, hafter⟩
        by_contra hbefore
        exact hsame ⟨fun hin => absurd hin hbefore, fun hin => absurd hin hafter⟩

end BarrierObject

namespace Gathering

variable {π : Type} [DecidableEq π] {B : DoubleBarriers π} {s t : Gathering π} {p q : π}

omit [DecidableEq π] in
theorem mem_children {name : PyStr} :
    name ∈ s.children B ↔
      (∃ q ∈ s.present, B.nodeName q = name) ∨ s.ready = true ∧ name = readyName := by
  unfold children
  by_cases hready : s.ready = true <;> simp [hready]

omit [DecidableEq π] in
@[simp] theorem nodeName_mem_children : B.nodeName q ∈ s.children B ↔ q ∈ s.present := by
  rw [mem_children]
  constructor
  · rintro (⟨r, hr, hname⟩ | ⟨-, hname⟩)
    · exact B.nodeName_injective hname ▸ hr
    · exact absurd hname (B.nodeName_ne_readyName q)
  · exact fun h => .inl ⟨q, h, rfl⟩

omit [DecidableEq π] in
@[simp] theorem readyName_mem_children : readyName ∈ s.children B ↔ s.ready = true := by
  rw [mem_children]
  constructor
  · rintro (⟨r, -, hname⟩ | ⟨h, -⟩)
    · exact absurd hname (B.nodeName_ne_readyName r)
    · exact h
  · exact fun h => .inr ⟨h, rfl⟩

omit [DecidableEq π] in
theorem length_children :
    (s.children B).length = s.present.length + if s.ready then 1 else 0 := by
  unfold children
  split <;> simp

omit [DecidableEq π] in
theorem nodup_children (h : s.present.Nodup) : (s.children B).Nodup := by
  have hnames : (s.present.map B.nodeName).Nodup := h.map B.nodeName_injective
  unfold children
  split
  · refine List.nodup_append.mpr ⟨hnames, List.nodup_singleton _, fun a ha b hb heq => ?_⟩
    obtain ⟨q, -, rfl⟩ := List.mem_map.mp ha
    exact B.nodeName_ne_readyName q (heq.trans (List.mem_singleton.mp hb))
  · rw [List.append_nil]
    exact hnames

/-- The highest is another. -/
theorem leaving_highest {own highest : PyStr} {names : List PyStr} (hnodup : names.Nodup)
    (h : leaving own names = some (.checkingHighest highest)) : highest ≠ own := by
  unfold leaving at h
  split at h
  · cases h
  · split at h <;> cases h
  case h_3 first second rest hsorted =>
    have hsorted' : (first :: second :: rest).Nodup :=
      hsorted ▸ (List.perm_insertionSort _ names).nodup_iff.mpr hnodup
    split at h
    case isTrue hown =>
      injection h with h
      injection h with h
      rintro rfl
      refine (List.nodup_cons.mp hsorted').1 ?_
      rw [← hown, ← h, List.getLastD_cons]
      exact List.getLastD_mem_cons
    · cases h

@[simp] theorem mem_present_createNode : q ∈ (s.createNode B p).present ↔ q = p ∨ q ∈ s.present := by
  unfold createNode
  split
  case isTrue h =>
    constructor
    · exact .inr
    · rintro (rfl | hq)
      · exact h
      · exact hq
  · exact List.mem_cons

@[simp] theorem mem_present_deleteNode : q ∈ (s.deleteNode B p).present ↔ q ≠ p ∧ q ∈ s.present := by
  unfold deleteNode
  split
  · simp [and_comm]
  case isFalse h => exact ⟨fun hq => ⟨fun heq => h (heq ▸ hq), hq⟩, fun hq => hq.2⟩

@[simp] theorem ready_createNode : (s.createNode B p).ready = s.ready := by
  unfold createNode
  split <;> rfl

@[simp] theorem ready_deleteNode : (s.deleteNode B p).ready = s.ready := by
  unfold deleteNode
  split <;> rfl

omit [DecidableEq π] in
@[simp] theorem ready_createReady : s.createReady.ready = true := by
  unfold createReady
  split
  · assumption
  · rfl

omit [DecidableEq π] in
@[simp] theorem ready_deleteReady : s.deleteReady.ready = false := by
  unfold deleteReady
  split
  · rfl
  case isFalse h => exact Bool.eq_false_iff.mpr h

omit [DecidableEq π] in
@[simp] theorem present_createReady : s.createReady.present = s.present := by
  unfold createReady
  split <;> rfl

omit [DecidableEq π] in
@[simp] theorem present_deleteReady : s.deleteReady.present = s.present := by
  unfold deleteReady
  split <;> rfl

@[simp] theorem deletions_createNode : (s.createNode B p).deletions = s.deletions := by
  unfold createNode
  split <;> rfl

@[simp] theorem deletions_deleteNode : (s.deleteNode B p).deletions = s.deletions := by
  unfold deleteNode
  split <;> rfl

omit [DecidableEq π] in
@[simp] theorem deletions_createReady : s.createReady.deletions = s.deletions := by
  unfold createReady
  split <;> rfl

omit [DecidableEq π] in
@[simp] theorem deletions_deleteReady : s.deleteReady.deletions = s.deletions := by
  unfold deleteReady
  split <;> rfl

omit [DecidableEq π] in
/-- A node that changes, and the others do not. -/
theorem objects_notify {name : PyStr} {type : EventType} {before after : List PyStr}
    (hsame : ∀ other, other ≠ name → (other ∈ before ↔ other ∈ after))
    (hname : ¬ (name ∈ before ↔ name ∈ after))
    (htype : type = if name ∈ after then .CREATED else .DELETED) (q : π) :
    (s.notify name type).objects q = (s.objects q).told before after := by
  simp only [notify]
  cases hwatch : (s.objects q).watch with
  | none => rw [BarrierObject.told_of_watch_none hwatch, if_neg (by simp)]
  | some watched =>
    rw [BarrierObject.told_of_watch hwatch]
    by_cases heq : watched = name
    · subst heq
      rw [if_pos rfl, if_neg hname, htype]
    · rw [if_neg (fun h => heq (Option.some.inj h)), if_pos (hsame watched heq)]

theorem objects_createNode (q : π) :
    (s.createNode B p).objects q =
      (s.objects q).told (s.children B) ((s.createNode B p).children B) := by
  by_cases hp : p ∈ s.present
  · simp only [createNode, if_pos hp, BarrierObject.told_self]
  · have hnew : ∀ r, r ∈ (s.createNode B p).present ↔ r = p ∨ r ∈ s.present := fun _ =>
      mem_present_createNode
    have hready : (s.createNode B p).ready = s.ready := ready_createNode
    have hobjects : (s.createNode B p).objects = (s.notify (B.nodeName p) .CREATED).objects := by
      rw [createNode, if_neg hp]
    have hafter : B.nodeName p ∈ (s.createNode B p).children B :=
      nodeName_mem_children.mpr ((hnew p).mpr (.inl rfl))
    rw [hobjects]
    refine objects_notify (fun other hother => ?_) (fun h => ?_) (by rw [if_pos hafter]) q
    · rw [mem_children, mem_children, hready]
      refine or_congr_left ⟨fun ⟨r, hr, hname⟩ => ⟨r, (hnew r).mpr (.inr hr), hname⟩, ?_⟩
      rintro ⟨r, hr, rfl⟩
      rcases (hnew r).mp hr with rfl | hr
      · exact absurd rfl hother
      · exact ⟨r, hr, rfl⟩
    · exact hp (nodeName_mem_children.mp (h.mpr hafter))

theorem objects_deleteNode (q : π) :
    (s.deleteNode B p).objects q =
      (s.objects q).told (s.children B) ((s.deleteNode B p).children B) := by
  by_cases hp : p ∈ s.present
  · have hnew : ∀ r, r ∈ (s.deleteNode B p).present ↔ r ≠ p ∧ r ∈ s.present := fun _ =>
      mem_present_deleteNode
    have hready : (s.deleteNode B p).ready = s.ready := ready_deleteNode
    have hobjects : (s.deleteNode B p).objects = (s.notify (B.nodeName p) .DELETED).objects := by
      rw [deleteNode, if_pos hp]
    have hafter : B.nodeName p ∉ (s.deleteNode B p).children B := fun h =>
      ((hnew p).mp (nodeName_mem_children.mp h)).1 rfl
    rw [hobjects]
    refine objects_notify (fun other hother => ?_) (fun h => ?_) (by rw [if_neg hafter]) q
    · rw [mem_children, mem_children, hready]
      refine or_congr_left ⟨?_, fun ⟨r, hr, hname⟩ => ⟨r, ((hnew r).mp hr).2, hname⟩⟩
      rintro ⟨r, hr, rfl⟩
      exact ⟨r, (hnew r).mpr ⟨fun heq => hother (heq ▸ rfl), hr⟩, rfl⟩
    · exact hafter (h.mp (nodeName_mem_children.mpr hp))
  · simp only [deleteNode, if_neg hp, BarrierObject.told_self]

omit [DecidableEq π] in
theorem objects_createReady (q : π) :
    s.createReady.objects q = (s.objects q).told (s.children B) (s.createReady.children B) := by
  by_cases hready : s.ready = true
  · simp only [createReady, if_pos hready, BarrierObject.told_self]
  · have hobjects : s.createReady.objects = (s.notify readyName .CREATED).objects := by
      rw [createReady, if_neg hready]
    have hafter : readyName ∈ s.createReady.children B :=
      readyName_mem_children.mpr ready_createReady
    rw [hobjects]
    refine objects_notify (fun other hother => ?_) (fun h => ?_) (by rw [if_pos hafter]) q
    · simp only [mem_children, present_createReady, hother, and_false, or_false]
    · exact hready (readyName_mem_children.mp (h.mpr hafter))

omit [DecidableEq π] in
theorem objects_deleteReady (q : π) :
    s.deleteReady.objects q = (s.objects q).told (s.children B) (s.deleteReady.children B) := by
  by_cases hready : s.ready = true
  · have hobjects : s.deleteReady.objects = (s.notify readyName .DELETED).objects := by
      rw [deleteReady, if_pos hready]
    have hafter : readyName ∉ s.deleteReady.children B := fun h =>
      absurd (readyName_mem_children.mp h) (by rw [ready_deleteReady]; exact Bool.false_ne_true)
    rw [hobjects]
    refine objects_notify (fun other hother => ?_) (fun h => ?_) (by rw [if_neg hafter]) q
    · simp only [mem_children, present_deleteReady, hother, and_false, or_false]
    · exact hafter (h.mp (readyName_mem_children.mpr hready))
  · simp only [deleteReady, if_neg hready, BarrierObject.told_self]

/-! ## What a step changes for the others -/

theorem objects_setObject_self {o : BarrierObject} : (s.setObject p o).objects p = o :=
  Function.update_self _ _ _

theorem objects_setObject_of_ne {o : BarrierObject} (h : q ≠ p) :
    (s.setObject p o).objects q = s.objects q :=
  Function.update_of_ne h _ _

theorem setObject_setObject {o o' : BarrierObject} :
    (s.setObject p o).setObject p o' = s.setObject p o' := by
  simp only [setObject, Function.update_idem]

theorem setStage_register {name : PyStr} {stage : BarrierStage} :
    (s.register p name).setStage p stage =
      s.setObject p { s.objects p with
        stage := stage, watch := some name, event := none, ready := false } := by
  simp only [setStage, register, objects_setObject_self, setObject_setObject]

/-- `p` changes its own object, and its own history. -/
structure Own (s t : Gathering π) (p : π) : Prop where
  present : t.present = s.present
  ready : t.ready = s.ready
  objects : ∀ q, q ≠ p → t.objects q = s.objects q
  deletions : ∀ q, q ≠ p → t.deletions q = s.deletions q
  peak : ∀ q, q ≠ p → t.peak q = s.peak q

omit [DecidableEq π] in
theorem Own.refl : Own s s p :=
  ⟨rfl, rfl, fun _ _ => rfl, fun _ _ => rfl, fun _ _ => rfl⟩

theorem own_setObject {o : BarrierObject} : Own s (s.setObject p o) p :=
  ⟨rfl, rfl, fun _ hq => objects_setObject_of_ne hq, fun _ _ => rfl, fun _ _ => rfl⟩

theorem own_enterReturns : Own s (s.enterReturns p) p :=
  ⟨rfl, rfl, fun _ hq => objects_setObject_of_ne hq, fun _ _ => rfl, fun _ _ => rfl⟩

omit [DecidableEq π] in
theorem Own.trans {u : Gathering π} (h : Own s t p) (h' : Own t u p) : Own s u p :=
  ⟨h'.present.trans h.present, h'.ready.trans h.ready,
    fun q hq => (h'.objects q hq).trans (h.objects q hq),
    fun q hq => (h'.deletions q hq).trans (h.deletions q hq),
    fun q hq => (h'.peak q hq).trans (h.peak q hq)⟩

theorem own_deletions {n : Nat} :
    Own (s.deleteNode B p)
      { s.deleteNode B p with deletions := Function.update s.deletions p n } p :=
  ⟨rfl, rfl, fun _ _ => rfl,
    fun _ hq => by rw [deletions_deleteNode]; exact Function.update_of_ne hq _ _, fun _ _ => rfl⟩

theorem own_peak {n : Nat} : Own s { s with peak := Function.update s.peak p n } p :=
  ⟨rfl, rfl, fun _ _ => rfl, fun _ _ => rfl, fun _ hq => Function.update_of_ne hq _ _⟩

theorem own_deleting {next : Gathering π → Gathering π} (hnext : ∀ u : Gathering π, Own u (next u) p) :
    Own (s.deleteNode B p) (s.deleting B p next) p := by
  unfold deleting
  split
  · exact own_deletions.trans (hnext _)
  case isFalse h =>
    rw [deleteNode, if_neg h]
    exact own_setObject

/-! ## What a thread does next -/

/-- All that the thread can do next. -/
inductive Goes (B : DoubleBarriers π) (s : Gathering π) (p : π) : Gathering π → Prop
  | ensures (hstage : (s.objects p).stage = .ensuring) :
    Goes B s p (s.setObject p { s.objects p with stage := .creating, assuredPath := true })
  | creates (hstage : (s.objects p).stage = .creating) :
    Goes B s p ({ s.createNode B p with
      peak := Function.update (s.createNode B p).peak p (s.createNode B p).present.length }.setStage p
        .watching)
  | watches (hstage : (s.objects p).stage = .watching) :
    Goes B s p ((s.register p readyName).setStage p .counting)
  | lacks (hstage : (s.objects p).stage = .counting)
      (hfew : (s.children B).length < B.numClients) : Goes B s p (s.setStage p .awaitingReady)
  | fills (hstage : (s.objects p).stage = .counting)
      (hmany : B.numClients ≤ (s.children B).length) : Goes B s p (s.setStage p .askingReady)
  | readied (hstage : (s.objects p).stage = .awaitingReady) (hready : (s.objects p).ready = true) :
    Goes B s p (s.enterReturns p)
  | findsReady (hstage : (s.objects p).stage = .askingReady) (hready : s.ready = true) :
    Goes B s p (s.enterReturns p)
  | missesReady (hstage : (s.objects p).stage = .askingReady) (hready : s.ready = false) :
    Goes B s p (s.setStage p .makingReady)
  | makesReady (hstage : (s.objects p).stage = .makingReady) :
    Goes B s p (s.createReady.enterReturns p)
  | clearsReady (hstage : (s.objects p).stage = .unreadying) :
    Goes B s p (s.deleteReady.setStage p .listing)
  | finished (hstage : (s.objects p).stage = .listing)
      (hleaving : leaving (B.nodeName p) (s.children B) = none) : Goes B s p (s.returns p)
  | lists {stage : BarrierStage} (hstage : (s.objects p).stage = .listing)
      (hleaving : leaving (B.nodeName p) (s.children B) = some stage) :
    Goes B s p (s.setStage p stage)
  | deletesLast (hstage : (s.objects p).stage = .deletingLast) :
    Goes B s p (s.deleting B p fun s => s.returns p)
  | deletesOwn {name : PyStr} (hstage : (s.objects p).stage = .deletingOwn name) :
    Goes B s p (s.deleting B p fun s => s.setStage p (.checkingFirst name))
  | findsHighest {name : PyStr} (hstage : (s.objects p).stage = .checkingHighest name)
      (hin : name ∈ s.children B) :
    Goes B s p ((s.register p name).setStage p (.awaitingHighest name))
  | missesHighest {name : PyStr} (hstage : (s.objects p).stage = .checkingHighest name)
      (hout : name ∉ s.children B) : Goes B s p (s.setStage p .listing)
  | findsFirst {name : PyStr} (hstage : (s.objects p).stage = .checkingFirst name)
      (hin : name ∈ s.children B) :
    Goes B s p ((s.register p name).setStage p (.awaitingFirst name))
  | missesFirst {name : PyStr} (hstage : (s.objects p).stage = .checkingFirst name)
      (hout : name ∉ s.children B) : Goes B s p (s.setStage p .listing)
  | highestGone {name : PyStr} (hstage : (s.objects p).stage = .awaitingHighest name)
      (hready : (s.objects p).ready = true) : Goes B s p (s.setStage p .listing)
  | firstGone {name : PyStr} (hstage : (s.objects p).stage = .awaitingFirst name)
      (hready : (s.objects p).ready = true) : Goes B s p (s.setStage p .listing)
  | cleans (hstage : (s.objects p).stage = .cleaning) :
    Goes B s p ({ s.deleteNode B p with
      deletions := Function.update s.deletions p
        (if p ∈ s.present then s.deletions p + 1 else s.deletions p) }.returns p)

theorem goes_of_goOn (h : s.goOn B p = some t) : Goes B s p t := by
  unfold goOn at h
  cases hstage : (s.objects p).stage <;>
    simp only [hstage, Option.some.injEq, reduceCtorEq, Option.ite_none_right_eq_some] at h
  case ensuring => exact h ▸ .ensures hstage
  case creating => exact h ▸ .creates hstage
  case watching => exact h ▸ .watches hstage
  case counting =>
    subst h
    split
    case isTrue hfew => exact .lacks hstage hfew
    case isFalse hmany => exact .fills hstage (Nat.le_of_not_lt hmany)
  case awaitingReady => exact h.2 ▸ .readied hstage h.1
  case askingReady =>
    subst h
    split
    case isTrue hready => exact .findsReady hstage hready
    case isFalse hnone => exact .missesReady hstage (Bool.eq_false_iff.mpr hnone)
  case makingReady => exact h ▸ .makesReady hstage
  case unreadying => exact h ▸ .clearsReady hstage
  case listing =>
    split at h
    case h_1 hleaving => exact Option.some.inj h ▸ .finished hstage hleaving
    case h_2 stage hleaving => exact Option.some.inj h ▸ .lists hstage hleaving
  case deletingLast => exact h ▸ .deletesLast hstage
  case checkingHighest name =>
    subst h
    split
    case isTrue hin => exact .findsHighest hstage hin
    case isFalse hout => exact .missesHighest hstage hout
  case awaitingHighest => exact h.2 ▸ .highestGone hstage h.1
  case deletingOwn => exact h ▸ .deletesOwn hstage
  case checkingFirst name =>
    subst h
    split
    case isTrue hin => exact .findsFirst hstage hin
    case isFalse hout => exact .missesFirst hstage hout
  case awaitingFirst => exact h.2 ▸ .firstGone hstage h.1
  case cleaning => exact h ▸ .cleans hstage

/-- The thread changes the server by its request. -/
theorem Goes.own (h : Goes B s p t) : Own (s.effect B p) t p := by
  unfold effect
  cases h with
  | ensures hstage | lacks hstage _ | fills hstage _ | missesReady hstage _ | finished hstage _
  | lists hstage _ | missesHighest hstage _ | missesFirst hstage _ | highestGone hstage _
  | firstGone hstage _ =>
    simp only [hstage]
    exact own_setObject
  | watches hstage | findsHighest hstage _ | findsFirst hstage _ =>
    simp only [hstage]
    exact own_setObject.trans own_setObject
  | readied hstage _ | findsReady hstage _ | makesReady hstage =>
    simp only [hstage]
    exact own_enterReturns
  | creates hstage =>
    simp only [hstage]
    exact own_peak.trans own_setObject
  | clearsReady hstage =>
    simp only [hstage]
    exact own_setObject
  | deletesLast hstage | deletesOwn hstage =>
    simp only [hstage]
    exact own_deleting fun _ => own_setObject
  | cleans hstage =>
    simp only [hstage]
    exact own_deletions.trans own_setObject

/-- A step of `p`, as the others see it. -/
structure Beside (B : DoubleBarriers π) (s t : Gathering π) (p : π) : Prop where
  objects : ∀ q, q ≠ p → t.objects q = (s.objects q).told (s.children B) (t.children B)
  present : ∀ q, q ≠ p → (q ∈ t.present ↔ q ∈ s.present)
  deletions : ∀ q, q ≠ p → t.deletions q = s.deletions q

omit [DecidableEq π] in
theorem Beside.refl : Beside B s s p :=
  ⟨fun _ _ => BarrierObject.told_self _ _ |>.symm, fun _ _ => Iff.rfl, fun _ _ => rfl⟩

omit [DecidableEq π] in
theorem Beside.own {u : Gathering π} (h : Beside B s t p) (hown : Own t u p) : Beside B s u p := by
  have hchildren : u.children B = t.children B := by
    rw [children, children, hown.present, hown.ready]
  refine ⟨fun q hq => ?_, fun q hq => ?_, fun q hq => ?_⟩
  · rw [hown.objects q hq, h.objects q hq, hchildren]
  · rw [hown.present, h.present q hq]
  · rw [hown.deletions q hq, h.deletions q hq]

theorem beside_deleteNode : Beside B s (s.deleteNode B p) p :=
  ⟨fun q _ => objects_deleteNode q, fun q hq => by simp [hq], fun q _ => by simp⟩

theorem objects_effect (q : π) :
    (s.effect B p).objects q =
      (s.objects q).told (s.children B) ((s.effect B p).children B) := by
  unfold effect
  split
  · exact objects_createNode q
  · exact objects_createReady q
  · exact objects_deleteReady q
  · exact objects_deleteNode q
  · exact objects_deleteNode q
  · exact objects_deleteNode q
  · exact (BarrierObject.told_self _ _).symm

theorem beside_effect : Beside B s (s.effect B p) p := by
  refine ⟨fun q _ => objects_effect q, fun q hq => ?_, fun q _ => ?_⟩
  · unfold effect
    split <;> simp [hq]
  · unfold effect
    split <;> simp

theorem Goes.beside (h : Goes B s p t) : Beside B s t p := beside_effect.own h.own

end Gathering

/-- All interleavings of the participants `π`, with losses of connections and sessions. -/
def gathering {π : Type} [DecidableEq π] (B : DoubleBarriers π) :
    Machine (Gathering π) (BarrierAct π) where
  init := .new
  enabled := fun s act => (s.step B act).isSome
  post := fun s act => (s.step B act).getD s

instance {π : Type} [DecidableEq π] (B : DoubleBarriers π) (s : Gathering π) (act : BarrierAct π) :
    Decidable ((gathering B).enabled s act) :=
  inferInstanceAs (Decidable ((s.step B act).isSome = true))

end Kazoo
