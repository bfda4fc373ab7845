import Kazoo.Recipe.DataWatch

/-!
# Waiting at a barrier

`Barrier.wait` of `kazoo/recipe/barrier.py`.  Any number of calls, of any number of clients, on one
path; each has an event and a `wait_for_clear` of its own.  Everyone changes the node, as `create` and
`remove` do.
-/

namespace Kazoo

/-- Where the thread inside a call of `wait` is. -/
inductive WaitStage
  | outside
  -- in `client.exists`
  | asking
  -- in `cleared.wait`
  | waiting
  | returned (result : Bool)
  -- `client.exists` has raised
  | raised
  deriving DecidableEq, Repr

/-- One call of `wait`. -/
structure BarrierWait where
  stage : WaitStage
  -- whether `timeout` is not `None`
  timed : Bool
  line : WatchLine
  -- `wait_for_clear` is dispatched, and has not run
  calls : List EventType
  cleared : Bool
  -- history: since the call there was a time without the node
  gone : Bool
  deriving DecidableEq

namespace BarrierWait

def new : BarrierWait where
  stage := .outside
  timed := false
  line := ⟨true, false, none⟩
  calls := []
  cleared := false
  gone := false

def changed (path : PyStr) (c : NodeChange) (w : BarrierWait) : BarrierWait :=
  { w with line := w.line.fire ⟨c.type, .CONNECTED, some path⟩, gone := w.gone || c.result.isNone }

/-- `_reset_watchers`. -/
def dropped (w : BarrierWait) : BarrierWait :=
  { w with calls := w.calls ++ w.line.resetWatchers.map (·.type), line := w.line.drop }

def reconnected (w : BarrierWait) : BarrierWait := { w with line := { w.line with connected := true } }

/-- `_read_watch_event` -/
def delivered (event : WatchedEvent) (w : BarrierWait) : BarrierWait :=
  { w with calls := w.calls ++ [event.type], line := { w.line with event := none } }

/-- `wait_for_clear` -/
def waitForClear (type : EventType) (w : BarrierWait) : BarrierWait :=
  { w with calls := w.calls.tail, cleared := w.cleared || type == .DELETED }

end BarrierWait

/-- The path, and the client of each call. -/
structure BarrierWaits (κ ι : Type) where
  path : PyStr
  client : ι → κ

structure BarrierNode (ι : Type) where
  node : Option DataNode
  -- the last zxid of a write
  zxid : Int
  waits : ι → BarrierWait

inductive WaitingAct (κ ι : Type)
  | call (i : ι) (timed : Bool)
  -- `client.exists` returns, and the watcher is registered
  | answer (i : ι)
  | answerFails (i : ι)
  | change (c : NodeChange)
  -- the client reads the event
  | deliver (i : ι)
  -- the connection of a client, or its session, is lost
  | drop (k : κ)
  | reconnect (k : κ)
  | run (i : ι)
  -- `cleared.wait(timeout)` is over
  | wake (i : ι)
  | timeOut (i : ι)

namespace BarrierNode

variable {κ ι : Type} [DecidableEq κ] [DecidableEq ι]

def new : BarrierNode ι := ⟨none, 0, fun _ => .new⟩

def setWait (i : ι) (w : BarrierWait) (s : BarrierNode ι) : BarrierNode ι :=
  { s with waits := Function.update s.waits i w }

def step (B : BarrierWaits κ ι) (s : BarrierNode ι) : WaitingAct κ ι → Option (BarrierNode ι)
  | .call i timed =>
    let w := s.waits i
    if w.stage = .outside then some (s.setWait i { w with stage := .asking, timed, gone := s.node.isNone })
    else none
  | .answer i =>
    let w := s.waits i
    if w.stage = .asking ∧ w.line.connected = true then
      some (s.setWait i { w with
        line := w.line.register
        stage := if s.node.isNone then .returned true else .waiting })
    else none
  | .answerFails i =>
    let w := s.waits i
    if w.stage = .asking then some (s.setWait i { w with stage := .raised }) else none
  | .change c =>
    if c.Allowed s.node s.zxid then
      some { node := c.result, zxid := c.zxid s.zxid, waits := fun i => (s.waits i).changed B.path c }
    else none
  | .deliver i =>
    (s.waits i).line.event.map fun event => s.setWait i ((s.waits i).delivered event)
  | .drop k =>
    some { s with waits := fun i => if B.client i = k then (s.waits i).dropped else s.waits i }
  | .reconnect k =>
    some { s with waits := fun i => if B.client i = k then (s.waits i).reconnected else s.waits i }
  | .run i =>
    (s.waits i).calls.head?.map fun type => s.setWait i ((s.waits i).waitForClear type)
  | .wake i =>
    let w := s.waits i
    if w.stage = .waiting ∧ w.cleared = true then some (s.setWait i { w with stage := .returned true })
    else none
  | .timeOut i =>
    let w := s.waits i
    if w.stage = .waiting ∧ w.timed = true then
      some (s.setWait i { w with stage := .returned w.cleared })
    else none

end BarrierNode

/-- All interleavings of the calls, the clients' threads and the server. -/
def barrierWaiting {κ ι : Type} [DecidableEq κ] [DecidableEq ι] (B : BarrierWaits κ ι) :
    Machine (BarrierNode ι) (WaitingAct κ ι) where
  init := .new
  enabled := fun s act => (s.step B act).isSome
  post := fun s act => (s.step B act).getD s

instance {κ ι : Type} [DecidableEq κ] [DecidableEq ι] (B : BarrierWaits κ ι) (s : BarrierNode ι)
    (act : WaitingAct κ ι) : Decidable ((barrierWaiting B).enabled s act) :=
  inferInstanceAs (Decidable ((s.step B act).isSome = true))

/-! ## What a step does to one call -/

/-- What a step can do to the node and to one call, and whether it uses up the watch of the call for
something else than the deletion of the node. -/
inductive Turn (path : PyStr) (node : Option DataNode) (w : BarrierWait) :
    Option DataNode → BarrierWait → Prop → Prop
  | still : Turn path node w node w False
  | call {timed : Bool} (hstage : w.stage = .outside) :
    Turn path node w node { w with stage := .asking, timed, gone := node.isNone } False
  | answer (hstage : w.stage = .asking) :
    Turn path node w node { w with
      line := w.line.register
      stage := if node.isNone then .returned true else .waiting } False
  | answerFails (hstage : w.stage = .asking) : Turn path node w node { w with stage := .raised } False
  | change {c : NodeChange} {zxid : Int} (hallowed : c.Allowed node zxid) :
    Turn path node w c.result (w.changed path c) (w.line.registered = true ∧ c.type ≠ .DELETED)
  | deliver {event : WatchedEvent} (hevent : w.line.event = some event) :
    Turn path node w node (w.delivered event) False
  | drop : Turn path node w node w.dropped (w.cleared = false ∧ .DELETED ∉ w.calls)
  | reconnect : Turn path node w node w.reconnected False
  | run {type : EventType} (hcalls : w.calls.head? = some type) :
    Turn path node w node (w.waitForClear type) False
  | wake (hstage : w.stage = .waiting) (hcleared : w.cleared = true) :
    Turn path node w node { w with stage := .returned true } False
  | timeOut (hstage : w.stage = .waiting) (htimed : w.timed = true) :
    Turn path node w node { w with stage := .returned w.cleared } False

namespace BarrierNode

variable {κ ι : Type} [DecidableEq κ] [DecidableEq ι] {B : BarrierWaits κ ι} {s s' : BarrierNode ι}
  {act : WaitingAct κ ι} {i : ι}

/-- The step uses up the watch of call `i` for something else than the deletion of the node. -/
def Misses (B : BarrierWaits κ ι) (i : ι) (s : BarrierNode ι) : WaitingAct κ ι → Prop
  | .change c => (s.waits i).line.registered = true ∧ c.type ≠ .DELETED
  | .drop k => B.client i = k ∧ (s.waits i).cleared = false ∧ .DELETED ∉ (s.waits i).calls
  | _ => False

instance (s : BarrierNode ι) : Decidable (Misses B i s act) :=
  match act with
  | .change _ => inferInstanceAs (Decidable (_ ∧ _))
  | .drop _ => inferInstanceAs (Decidable (_ ∧ _ ∧ _))
  | .call .. | .answer _ | .answerFails _ | .deliver _ | .reconnect _ | .run _ | .wake _ | .timeOut _ =>
    inferInstanceAs (Decidable False)

omit [DecidableEq κ] in
/-- One call takes its turn, and the others do nothing. -/
theorem turn_setWait {j : ι} {w : BarrierWait} (h : Turn B.path s.node (s.waits j) s.node w False) (i : ι) :
    Turn B.path s.node (s.waits i) s.node ((s.setWait j w).waits i) False := by
  show Turn B.path s.node (s.waits i) s.node (Function.update s.waits j w i) False
  by_cases hi : i = j
  · subst hi
    rw [Function.update_self]
    exact h
  · rw [Function.update_of_ne hi]
    exact .still

theorem turn_of_step (h : s.step B act = some s') (i : ι) :
    ∃ missed : Prop, Turn B.path s.node (s.waits i) s'.node (s'.waits i) missed ∧
      (missed ↔ Misses B i s act) := by
  cases act <;> simp only [step] at h
  case call j timed =>
    obtain ⟨hstage, ⟨⟩⟩ := Option.ite_none_right_eq_some.mp h
    exact ⟨False, turn_setWait (.call hstage) i, Iff.rfl⟩
  case answer j =>
    obtain ⟨hstage, ⟨⟩⟩ := Option.ite_none_right_eq_some.mp h
    exact ⟨False, turn_setWait (.answer hstage.1) i, Iff.rfl⟩
  case answerFails j =>
    obtain ⟨hstage, ⟨⟩⟩ := Option.ite_none_right_eq_some.mp h
    exact ⟨False, turn_setWait (.answerFails hstage) i, Iff.rfl⟩
  case change c =>
    obtain ⟨hallowed, ⟨⟩⟩ := Option.ite_none_right_eq_some.mp h
    exact ⟨_, .change hallowed, Iff.rfl⟩
  case deliver j =>
    obtain ⟨event, hevent, rfl⟩ := Option.map_eq_some_iff.mp h
    exact ⟨False, turn_setWait (.deliver hevent) i, Iff.rfl⟩
  case drop k =>
    cases h
    by_cases hk : B.client i = k
    · refine ⟨_, ?_, (and_iff_right hk).symm⟩
      simp only [if_pos hk]
      exact .drop
    · refine ⟨False, ?_, ⟨False.elim, fun hmisses => hk hmisses.1⟩⟩
      simp only [if_neg hk]
      exact .still
  case reconnect k =>
    cases h
    refine ⟨False, ?_, Iff.rfl⟩
    by_cases hk : B.client i = k
    · simp only [if_pos hk]
      exact .reconnect
    · simp only [if_neg hk]
      exact .still
  case run j =>
    obtain ⟨type, hcalls, rfl⟩ := Option.map_eq_some_iff.mp h
    exact ⟨False, turn_setWait (.run hcalls) i, Iff.rfl⟩
  case wake j =>
    obtain ⟨hstage, ⟨⟩⟩ := Option.ite_none_right_eq_some.mp h
    exact ⟨False, turn_setWait (.wake hstage.1 hstage.2) i, Iff.rfl⟩
  case timeOut j =>
    obtain ⟨hstage, ⟨⟩⟩ := Option.ite_none_right_eq_some.mp h
    exact ⟨False, turn_setWait (.timeOut hstage.1 hstage.2) i, Iff.rfl⟩

end BarrierNode

/-! ## One call -/

namespace BarrierWait

variable {path : PyStr} {node node' : Option DataNode} {w w' : BarrierWait} {missed : Prop}

/-- Something is left that leads to `cleared.set()`: the watch, the event of the deletion, or a call of
`wait_for_clear` with it. -/
def Alert (w : BarrierWait) : Prop :=
  w.cleared = true ∨ .DELETED ∈ w.calls ∨ (∃ event ∈ w.line.event, event.type = .DELETED) ∨
    w.line.registered = true

structure Sound (node : Option DataNode) (w : BarrierWait) : Prop where
  -- nothing happens to the watch before `exists` is answered
  idle : w.stage = .outside ∨ w.stage = .asking ∨ w.stage = .raised →
    w.line.registered = false ∧ w.line.event = none ∧ w.calls = [] ∧ w.cleared = false
  -- as long as the watch is there, it has not been used
  fresh : w.line.registered = true → w.line.event = none ∧ w.calls = [] ∧ w.cleared = false
  present : w.stage = .waiting → w.line.registered = true → node ≠ none
  absent : w.stage ≠ .outside → node = none → w.gone = true
  deleted : w.cleared = true ∨ .DELETED ∈ w.calls ∨ (∃ event ∈ w.line.event, event.type = .DELETED) →
    w.gone = true
  returned : w.stage = .returned true → w.gone = true
  timed : w.stage = .returned false → w.timed = true

theorem sound_new : Sound node new where
  idle := fun _ => ⟨rfl, rfl, rfl, rfl⟩
  fresh := nofun
  present := nofun
  absent := fun h => absurd rfl h
  deleted := by simp [new]
  returned := nofun
  timed := nofun

theorem fire_cases (line : WatchLine) (event : WatchedEvent) :
    line.registered = true ∧ line.fire event = { line with registered := false, event := some event } ∨
      line.registered = false ∧ line.fire event = line := by
  cases hregistered : line.registered with
  | true => exact .inl ⟨rfl, WatchLine.fire_of_registered hregistered⟩
  | false => exact .inr ⟨rfl, WatchLine.fire_of_not_registered hregistered⟩

theorem Sound.changed (h : Sound node w) (path : PyStr) (c : NodeChange) :
    Sound c.result (w.changed path c) := by
  have hgone : w.gone = true → (w.changed path c).gone = true := fun hgone => by
    simp [BarrierWait.changed, hgone]
  have hresult : c.result = none → (w.changed path c).gone = true := fun hresult => by
    simp [BarrierWait.changed, hresult]
  obtain ⟨hregistered, hfire⟩ | ⟨hregistered, hfire⟩ :=
    fire_cases w.line ⟨c.type, .CONNECTED, some path⟩
  · obtain ⟨hevent, hcalls, hcleared⟩ := h.fresh hregistered
    refine ⟨fun hstage => ?_, fun hfresh => ?_, fun _ hfresh => ?_, fun _ => hresult, ?_,
      fun hstage => hgone (h.returned hstage), h.timed⟩
    · rw [(h.idle hstage).1] at hregistered
      cases hregistered
    · simp [BarrierWait.changed, hfire] at hfresh
    · simp [BarrierWait.changed, hfire] at hfresh
    · rintro (hset | hcall | ⟨event, hmem, htype⟩)
      · rw [show w.cleared = true from hset] at hcleared
        cases hcleared
      · have hcall : .DELETED ∈ w.calls := hcall
        rw [hcalls] at hcall
        cases hcall
      · simp only [BarrierWait.changed, hfire, Option.mem_some_iff] at hmem
        subst hmem
        apply hresult
        cases c <;> first | rfl | cases htype
  · refine ⟨fun hstage => ?_, fun hfresh => ?_, fun _ hfresh => ?_, fun _ => hresult, ?_,
      fun hstage => hgone (h.returned hstage), h.timed⟩
    · simp only [BarrierWait.changed, hfire]
      exact h.idle hstage
    · simp only [BarrierWait.changed, hfire] at hfresh ⊢
      exact h.fresh hfresh
    · simp only [BarrierWait.changed, hfire] at hfresh
      rw [hregistered] at hfresh
      cases hfresh
    · intro hdeleted
      apply hgone
      apply h.deleted
      simpa only [BarrierWait.changed, hfire] using hdeleted

theorem resetWatchers_type (line : WatchLine) : .DELETED ∉ line.resetWatchers.map (·.type) := by
  unfold WatchLine.resetWatchers
  split <;> simp

theorem Sound.dropped (h : Sound node w) : Sound node w.dropped := by
  refine ⟨fun hstage => ?_, nofun, fun _ => nofun, h.absent, ?_, h.returned, h.timed⟩
  · obtain ⟨hregistered, hevent, hcalls, hcleared⟩ := h.idle hstage
    refine ⟨rfl, rfl, ?_, hcleared⟩
    simp [BarrierWait.dropped, WatchLine.resetWatchers, hregistered, hevent, hcalls]
  · rintro (hset | hcall | ⟨event, hmem, -⟩)
    · exact h.deleted (.inl hset)
    · obtain hcall | hcall := List.mem_append.mp hcall
      · exact h.deleted (.inr (.inl hcall))
      · exact absurd hcall (resetWatchers_type w.line)
    · cases hmem

theorem Sound.delivered (h : Sound node w) {event : WatchedEvent} (hevent : w.line.event = some event) :
    Sound node (w.delivered event) := by
  have hused : w.line.registered = false := by
    by_contra hregistered
    rw [(h.fresh (by simpa using hregistered)).1] at hevent
    cases hevent
  refine ⟨fun hstage => ?_, fun hfresh => ?_, fun _ hfresh => ?_, h.absent, ?_, h.returned, h.timed⟩
  · rw [(h.idle hstage).2.1] at hevent
    cases hevent
  · rw [show w.line.registered = true from hfresh] at hused
    cases hused
  · rw [show w.line.registered = true from hfresh] at hused
    cases hused
  · rintro (hset | hcall | ⟨event', hmem, -⟩)
    · exact h.deleted (.inl hset)
    · obtain hcall | hcall := List.mem_append.mp hcall
      · exact h.deleted (.inr (.inl hcall))
      · exact h.deleted (.inr (.inr ⟨event, hevent, (List.mem_singleton.mp hcall).symm⟩))
    · cases hmem

theorem Sound.waitForClear (h : Sound node w) {type : EventType} (hcalls : w.calls.head? = some type) :
    Sound node (w.waitForClear type) := by
  have hmem : type ∈ w.calls := List.mem_of_head? hcalls
  have hcalls : w.calls ≠ [] := List.ne_nil_of_mem hmem
  refine ⟨fun hstage => ?_, fun hfresh => ?_, h.present, h.absent, ?_, h.returned, h.timed⟩
  · exact absurd (h.idle hstage).2.2.1 hcalls
  · exact absurd (h.fresh hfresh).2.1 hcalls
  · rintro (hset | hcall | hevent)
    · simp only [BarrierWait.waitForClear, Bool.or_eq_true, beq_iff_eq] at hset
      obtain hset | rfl := hset
      · exact h.deleted (.inl hset)
      · exact h.deleted (.inr (.inl hmem))
    · exact h.deleted (.inr (.inl (List.mem_of_mem_tail hcall)))
    · exact h.deleted (.inr (.inr hevent))

theorem Sound.turn (h : Sound node w) (hturn : Turn path node w node' w' missed) : Sound node' w' := by
  cases hturn with
  | still => exact h
  | call hstage =>
    have hidle := h.idle (.inl hstage)
    exact ⟨fun _ => hidle, h.fresh, nofun, fun _ hnone => Option.isNone_iff_eq_none.mpr hnone,
      fun hdeleted => by simp [hidle] at hdeleted, nofun, nofun⟩
  | answer hstage =>
    obtain ⟨hregistered, hevent, hcalls, hcleared⟩ := h.idle (.inr (.inl hstage))
    have habsent := h.absent (by simp [hstage])
    refine ⟨fun hidle => ?_, fun _ => ⟨hevent, hcalls, hcleared⟩, fun hwaiting _ hnone => ?_,
      fun _ => habsent, h.deleted, fun hreturned => ?_, fun hreturned => ?_⟩
    · revert hidle
      cases node <;> simp
    · simp [hnone] at hwaiting
    · apply habsent
      by_contra hnode
      simp [hnode] at hreturned
    · revert hreturned
      cases node <;> simp
  | answerFails hstage =>
    have hidle := h.idle (.inr (.inl hstage))
    exact ⟨fun _ => hidle, h.fresh, nofun, fun _ => h.absent (by simp [hstage]), h.deleted, nofun, nofun⟩
  | change => exact h.changed path _
  | deliver hevent => exact h.delivered hevent
  | drop => exact h.dropped
  | reconnect => exact ⟨h.idle, h.fresh, h.present, h.absent, h.deleted, h.returned, h.timed⟩
  | run hcalls => exact h.waitForClear hcalls
  | wake hstage hcleared =>
    exact ⟨by simp, h.fresh, nofun, fun _ => h.absent (by simp [hstage]), h.deleted,
      fun _ => h.deleted (.inl hcleared), nofun⟩
  | timeOut hstage htimed =>
    exact ⟨by simp, h.fresh, nofun, fun _ => h.absent (by simp [hstage]), h.deleted,
      fun hreturned => h.deleted (.inl (WaitStage.returned.inj hreturned)), fun _ => htimed⟩

theorem alert_changed (h : Sound node w) (path : PyStr) (c : NodeChange) :
    (w.changed path c).Alert ↔ w.Alert ∧ ¬ (w.line.registered = true ∧ c.type ≠ .DELETED) := by
  obtain ⟨hregistered, hfire⟩ | ⟨hregistered, hfire⟩ :=
    fire_cases w.line ⟨c.type, .CONNECTED, some path⟩
  · obtain ⟨-, hcalls, hcleared⟩ := h.fresh hregistered
    simp [Alert, BarrierWait.changed, hfire, hregistered, hcalls, hcleared]
  · simp [Alert, BarrierWait.changed, hfire, hregistered]

theorem alert_dropped : w.dropped.Alert ↔ w.Alert ∧ ¬ (w.cleared = false ∧ .DELETED ∉ w.calls) := by
  have hcalls : .DELETED ∈ w.dropped.calls ↔ .DELETED ∈ w.calls :=
    List.mem_append.trans (or_iff_left (resetWatchers_type w.line))
  have halert : w.dropped.Alert ↔ w.cleared = true ∨ .DELETED ∈ w.calls := by
    rw [Alert, hcalls]
    simp [BarrierWait.dropped, WatchLine.drop]
  rw [halert, Alert]
  constructor
  · rintro (hcleared | hcall)
    · exact ⟨.inl hcleared, by simp [hcleared]⟩
    · exact ⟨.inr (.inl hcall), fun hnot => hnot.2 hcall⟩
  · rintro ⟨-, hnot⟩
    by_contra hneither
    push Not at hneither
    exact hnot ⟨Bool.eq_false_iff.mpr hneither.1, hneither.2⟩

theorem alert_delivered {event : WatchedEvent} (hevent : w.line.event = some event) :
    (w.delivered event).Alert ↔ w.Alert := by
  simp only [Alert, BarrierWait.delivered, hevent, List.mem_append, List.mem_singleton, Option.mem_some_iff,
    Option.not_mem_none, false_and, exists_false, false_or, exists_eq_left', or_assoc]
  rw [eq_comm (a := EventType.DELETED)]

theorem alert_waitForClear {type : EventType} (hcalls : w.calls.head? = some type) :
    (w.waitForClear type).Alert ↔ w.Alert := by
  obtain ⟨rest, hrest⟩ := List.head?_eq_some_iff.mp hcalls
  simp only [Alert, BarrierWait.waitForClear, hrest, List.tail_cons, List.mem_cons, Bool.or_eq_true,
    beq_iff_eq, or_assoc]
  rw [eq_comm (a := EventType.DELETED)]

/-- A call that waits goes on to wait for the deletion, unless the watch is used up. -/
theorem alert_turn (h : Sound node w) (hturn : Turn path node w node' w' missed)
    (hstage : w.stage = .waiting) (hstay : w'.stage = .waiting) : w'.Alert ↔ w.Alert ∧ ¬ missed := by
  cases hturn with
  | still | reconnect => exact (and_iff_left not_false).symm
  | call hnot | answer hnot | answerFails hnot =>
    rw [hstage] at hnot
    cases hnot
  | change => exact alert_changed h path _
  | deliver hevent => exact (alert_delivered hevent).trans (and_iff_left not_false).symm
  | drop => exact alert_dropped
  | run hcalls => exact (alert_waitForClear hcalls).trans (and_iff_left not_false).symm
  | wake | timeOut => cases hstay

/-- A call that waits goes on, or returns whether `cleared` is set. -/
theorem stage_turn (hturn : Turn path node w node' w' missed) (hstage : w.stage = .waiting) :
    w'.stage = .waiting ∨ w'.stage = .returned w.cleared ∧ (w.cleared = true ∨ w.timed = true) := by
  cases hturn with
  | still | reconnect | change | deliver | drop | run => exact .inl hstage
  | call hnot | answer hnot | answerFails hnot =>
    rw [hstage] at hnot
    cases hnot
  | wake _ hcleared => exact .inr ⟨by rw [hcleared], .inl hcleared⟩
  | timeOut _ htimed => exact .inr ⟨rfl, .inr htimed⟩

theorem returned_turn (hturn : Turn path node w node' w' missed) {result : Bool}
    (hstage : w.stage = .returned result) : w'.stage = .returned result := by
  cases hturn with
  | still | reconnect | change | deliver | drop | run => exact hstage
  | call hnot | answer hnot | answerFails hnot | wake hnot | timeOut hnot =>
    rw [hstage] at hnot
    cases hnot

end BarrierWait

/-! ## Runs -/

/-- The call whose thread, or whose callback, takes the step. -/
def WaitingAct.actor? {κ ι : Type} : WaitingAct κ ι → Option ι
  | .call i _ | .answer i | .answerFails i | .deliver i | .run i | .wake i | .timeOut i => some i
  | .change _ | .drop _ | .reconnect _ => none

namespace BarrierNode

variable {κ ι : Type} [DecidableEq κ] [DecidableEq ι] {B : BarrierWaits κ ι} {s s' : BarrierNode ι}
  {act : WaitingAct κ ι} {acts : List (WaitingAct κ ι)} {i : ι}

theorem post_of_enabled (hen : (barrierWaiting B).enabled s act) :
    s.step B act = some ((barrierWaiting B).post s act) := by
  obtain ⟨s', hs'⟩ := Option.isSome_iff_exists.mp hen
  show s.step B act = some ((s.step B act).getD s)
  rw [hs', Option.getD_some]

theorem sound_of_reachable (hr : (barrierWaiting B).Reachable s) (i : ι) :
    BarrierWait.Sound s.node (s.waits i) := by
  refine hr.invariant (P := fun s => ∀ i, BarrierWait.Sound s.node (s.waits i))
    (fun i => BarrierWait.sound_new) ?_ i
  intro s act _ h hen _ i
  obtain ⟨missed, hturn, -⟩ := turn_of_step (post_of_enabled hen) i
  exact (h i).turn hturn

theorem returned_exec {result : Bool} (hlegal : (barrierWaiting B).Legal Machine.Free s acts)
    (hstage : (s.waits i).stage = .returned result) :
    (((barrierWaiting B).exec s acts).waits i).stage = .returned result := by
  induction acts generalizing s with
  | nil => exact hstage
  | cons act acts ih =>
    obtain ⟨hen, -, hrest⟩ := hlegal
    obtain ⟨missed, hturn, -⟩ := turn_of_step (post_of_enabled hen) i
    exact ih hrest (BarrierWait.returned_turn hturn hstage)

/-- A call waits for the deletion as long as no step has used up its watch for something else. -/
theorem alert_exec (hr : (barrierWaiting B).Reachable s)
    (hlegal : (barrierWaiting B).Legal Machine.Free s acts) (hstage : (s.waits i).stage = .waiting)
    (hstay : (((barrierWaiting B).exec s acts).waits i).stage = .waiting) :
    (((barrierWaiting B).exec s acts).waits i).Alert ↔
      (s.waits i).Alert ∧ (barrierWaiting B).Legal (fun s act => ¬ Misses B i s act) s acts := by
  induction acts generalizing s with
  | nil => exact (and_iff_left trivial).symm
  | cons act acts ih =>
    obtain ⟨hen, -, hrest⟩ := hlegal
    obtain ⟨missed, hturn, hmissed⟩ := turn_of_step (post_of_enabled hen) i
    have hnext : (((barrierWaiting B).post s act).waits i).stage = .waiting := by
      obtain hnext | ⟨hreturned, -⟩ := BarrierWait.stage_turn hturn hstage
      · exact hnext
      · have hend := returned_exec hrest hreturned
        cases hstay.symm.trans hend
    have halert := BarrierWait.alert_turn (sound_of_reachable hr i) hturn hstage hnext
    refine (ih (.step hr hen trivial) hrest hnext hstay).trans ?_
    rw [halert, hmissed, and_assoc]
    exact and_congr_right fun _ => ⟨fun h => ⟨hen, h.1, h.2⟩, fun h => h.2⟩

/-- A call that has missed the deletion never returns `True`, and returns only if it has a timeout. -/
theorem deaf_exec (hr : (barrierWaiting B).Reachable s)
    (hlegal : (barrierWaiting B).Legal Machine.Free s acts) (hstage : (s.waits i).stage = .waiting)
    (hdeaf : ¬ (s.waits i).Alert) :
    (((barrierWaiting B).exec s acts).waits i).stage = .waiting ∨
      (((barrierWaiting B).exec s acts).waits i).stage = .returned false := by
  induction acts generalizing s with
  | nil => exact .inl hstage
  | cons act acts ih =>
    obtain ⟨hen, -, hrest⟩ := hlegal
    obtain ⟨missed, hturn, -⟩ := turn_of_step (post_of_enabled hen) i
    obtain hnext | ⟨hreturned, -⟩ := BarrierWait.stage_turn hturn hstage
    · have halert := BarrierWait.alert_turn (sound_of_reachable hr i) hturn hstage hnext
      exact ih (.step hr hen trivial) hrest hnext fun h => hdeaf (halert.mp h).1
    · rw [Bool.eq_false_iff.mpr fun hcleared => hdeaf (.inl hcleared)] at hreturned
      have hend := returned_exec hrest hreturned
      exact .inr hend

/-! ## A call that returns -/

/-- The call can return `True`, by steps of its own thread and its client's alone. -/
def Returns (B : BarrierWaits κ ι) (i : ι) (s : BarrierNode ι) : Prop :=
  ∃ acts, (∀ act ∈ acts, act.actor? = some i) ∧ (barrierWaiting B).Legal Machine.Free s acts ∧
    (((barrierWaiting B).exec s acts).waits i).stage = .returned true

theorem Returns.step (hact : act.actor? = some i) (hstep : s.step B act = some s') (h : Returns B i s') :
    Returns B i s := by
  obtain ⟨acts, hacts, hlegal, hreturned⟩ := h
  have hpost : (barrierWaiting B).post s act = s' := by
    show (s.step B act).getD s = s'
    rw [hstep, Option.getD_some]
  have hen : (barrierWaiting B).enabled s act := by
    show (s.step B act).isSome = true
    rw [hstep, Option.isSome_some]
  refine ⟨act :: acts, List.forall_mem_cons.mpr ⟨hact, hacts⟩, ⟨hen, trivial, ?_⟩, ?_⟩
  · rw [hpost]
    exact hlegal
  · show (((barrierWaiting B).exec ((barrierWaiting B).post s act) acts).waits i).stage = _
    rw [hpost]
    exact hreturned

omit [DecidableEq κ] in
@[simp] theorem setWait_waits (w : BarrierWait) (s : BarrierNode ι) : (s.setWait i w).waits i = w := by
  show Function.update s.waits i w i = w
  rw [Function.update_self]

theorem returns_of_cleared (hstage : (s.waits i).stage = .waiting) (hcleared : (s.waits i).cleared = true) :
    Returns B i s := by
  have hstep : s.step B (.wake i) = some (s.setWait i { s.waits i with stage := .returned true }) :=
    if_pos ⟨hstage, hcleared⟩
  refine .step rfl hstep ⟨[], by simp, trivial, ?_⟩
  show ((s.setWait i _).waits i).stage = _
  rw [setWait_waits]

theorem returns_of_calls {calls : List EventType} (hstage : (s.waits i).stage = .waiting)
    (hcalls : (s.waits i).calls = calls) (hmem : .DELETED ∈ calls) : Returns B i s := by
  induction calls generalizing s with
  | nil => cases hmem
  | cons type rest ih =>
    have hstep : s.step B (.run i) = some (s.setWait i ((s.waits i).waitForClear type)) := by
      show ((s.waits i).calls.head?.map _) = _
      rw [hcalls]
      rfl
    refine .step rfl hstep ?_
    by_cases htype : type = .DELETED
    · apply returns_of_cleared <;> simp [BarrierWait.waitForClear, hstage, htype]
    · have hrest := (List.mem_cons.mp hmem).resolve_left fun heq => htype heq.symm
      apply ih _ _ hrest
      · rw [setWait_waits]
        exact hstage
      · rw [setWait_waits]
        simp only [BarrierWait.waitForClear, hcalls, List.tail_cons]

theorem returns_of_event {event : WatchedEvent} (hstage : (s.waits i).stage = .waiting)
    (hevent : (s.waits i).line.event = some event) (htype : event.type = .DELETED) : Returns B i s := by
  have hstep : s.step B (.deliver i) = some (s.setWait i ((s.waits i).delivered event)) := by
    show ((s.waits i).line.event.map _) = _
    rw [hevent]
    rfl
  refine .step rfl hstep (returns_of_calls ?_ rfl ?_)
  · rw [setWait_waits]
    exact hstage
  · simp [BarrierWait.delivered, htype]

/-- Once the node is gone, a call that waits for the deletion returns `True`, whatever the others do. -/
theorem returns_of_gone (hr : (barrierWaiting B).Reachable s) (hstage : (s.waits i).stage = .waiting)
    (halert : (s.waits i).Alert) (hnode : s.node = none) : Returns B i s := by
  obtain hcleared | hcall | ⟨event, hevent, htype⟩ | hregistered := halert
  · exact returns_of_cleared hstage hcleared
  · exact returns_of_calls hstage rfl hcall
  · exact returns_of_event hstage hevent htype
  · exact absurd hnode ((sound_of_reachable hr i).present hstage hregistered)

/-- A call that waits can return `True` where the deletion has not been missed, and nowhere else. -/
theorem returns_iff (hr : (barrierWaiting B).Reachable s) (hstage : (s.waits i).stage = .waiting) :
    (∃ acts, (barrierWaiting B).Legal Machine.Free s acts ∧
      (((barrierWaiting B).exec s acts).waits i).stage = .returned true) ↔ (s.waits i).Alert := by
  constructor
  · rintro ⟨acts, hlegal, hreturned⟩
    by_contra hdeaf
    obtain hend | hend := deaf_exec hr hlegal hstage hdeaf <;> rw [hend] at hreturned <;> cases hreturned
  · intro halert
    by_cases hnode : s.node = none
    · obtain ⟨acts, -, hlegal, hreturned⟩ := returns_of_gone hr hstage halert hnode
      exact ⟨acts, hlegal, hreturned⟩
    · have hallowed : NodeChange.delete.Allowed s.node s.zxid := hnode
      have hstep : s.step B (.change .delete) = some
          ⟨none, s.zxid, fun i => (s.waits i).changed B.path .delete⟩ := if_pos hallowed
      have hen : (barrierWaiting B).enabled s (.change .delete) := by
        show (s.step B _).isSome = true
        rw [hstep, Option.isSome_some]
      have hpost : (barrierWaiting B).post s (.change .delete) = _ := Option.some.inj
        ((post_of_enabled hen).symm.trans hstep)
      have hgone : Returns B i ((barrierWaiting B).post s (.change .delete)) := by
        apply returns_of_gone (.step hr hen trivial)
        · rw [hpost]
          exact hstage
        · rw [hpost]
          exact (BarrierWait.alert_changed (sound_of_reachable hr i) B.path .delete).mpr
            ⟨halert, fun hnot => hnot.2 rfl⟩
        · rw [hpost]
      obtain ⟨acts, -, hlegal, hreturned⟩ := hgone
      exact ⟨.change .delete :: acts, ⟨hen, trivial, hlegal⟩, hreturned⟩

/-! ## Barriers that are cleared -/

/-- `wait` returns `True` only where the node has been gone since the call, and `False` only where it has
been given a timeout. -/
theorem wait_true (hr : (barrierWaiting B).Reachable s) (i : ι) :
    ((s.waits i).stage = .returned true → (s.waits i).gone = true) ∧
      ((s.waits i).stage = .returned false → (s.waits i).timed = true) :=
  ⟨(sound_of_reachable hr i).returned, (sound_of_reachable hr i).timed⟩

theorem alert_answer (hr : (barrierWaiting B).Reachable s)
    (hlegal : (barrierWaiting B).Legal Machine.Free s (.answer i :: acts))
    (hstay : (((barrierWaiting B).exec s (.answer i :: acts)).waits i).stage = .waiting) :
    (((barrierWaiting B).exec s (.answer i :: acts)).waits i).Alert ↔
      (barrierWaiting B).Legal (fun s act => ¬ Misses B i s act) s (.answer i :: acts) := by
  obtain ⟨hen, -, hrest⟩ := hlegal
  obtain ⟨hcond, hpost⟩ := Option.ite_none_right_eq_some.mp (post_of_enabled hen)
  have hpost := Option.some.inj hpost
  have hstage : (((barrierWaiting B).post s (.answer i)).waits i).stage =
      if s.node.isNone then .returned true else .waiting := by
    rw [← hpost, setWait_waits]
  have hregistered : (((barrierWaiting B).post s (.answer i)).waits i).line.registered = true := by
    rw [← hpost, setWait_waits]
    rfl
  split at hstage
  · have hend := returned_exec hrest hstage
    cases hstay.symm.trans hend
  · refine (alert_exec (.step hr hen trivial) hrest hstage hstay).trans ?_
    exact ⟨fun h => ⟨hen, id, h.2⟩, fun h => ⟨.inr (.inr (.inr hregistered)), h.2.2⟩⟩

/-- A call that has found the node, and waits, can still return `True` exactly where no step since has
used up its watch for something else than the deletion of the node; and if none has, it does return `True`
once the node is gone, whatever the others do. -/
theorem wait_cleared_iff (hr : (barrierWaiting B).Reachable s)
    (hlegal : (barrierWaiting B).Legal Machine.Free s (.answer i :: acts))
    (hstay : (((barrierWaiting B).exec s (.answer i :: acts)).waits i).stage = .waiting) :
    ((∃ more, (barrierWaiting B).Legal Machine.Free ((barrierWaiting B).exec s (.answer i :: acts)) more ∧
        (((barrierWaiting B).exec ((barrierWaiting B).exec s (.answer i :: acts)) more).waits i).stage =
          .returned true) ↔
      (barrierWaiting B).Legal (fun s act => ¬ Misses B i s act) s (.answer i :: acts)) ∧
    ((barrierWaiting B).Legal (fun s act => ¬ Misses B i s act) s (.answer i :: acts) →
      ((barrierWaiting B).exec s (.answer i :: acts)).node = none →
      Returns B i ((barrierWaiting B).exec s (.answer i :: acts))) := by
  have halert := alert_answer hr hlegal hstay
  have hreach := hr.exec hlegal
  exact ⟨(returns_iff hreach hstay).trans halert,
    fun hquiet hnode => returns_of_gone hreach hstay (halert.mpr hquiet) hnode⟩

/-! ## Two calls -/

/-- Two clients, with a call each. -/
def twoWaits : BarrierWaits Bool Bool := ⟨str "/barrier", id⟩

/-- The node with its data of this zxid. -/
def barrierNode (zxid : Int) : DataNode := ⟨some [], ⟨1, zxid, 0, 0, 0, 0, 0, 0, 0, 0, 1⟩⟩

/-- Both calls are about to ask for the node. -/
def bothAsk : BarrierNode Bool :=
  (barrierWaiting twoWaits).exec .new [.change (.create (barrierNode 1)), .call false false, .call true false]

theorem reachable_bothAsk : (barrierWaiting twoWaits).Reachable bothAsk := .of_legal (by decide +kernel)

/-- The data of the node are set after the first answer and before the second, and then it is deleted. -/
def setAndDelete : List (WaitingAct Bool Bool) :=
  [.answer false, .change (.set (barrierNode 2)), .answer true, .change .delete]

/-- The first call does not notice that the node is gone, and the second does. -/
theorem wait_cleared_iff_setAndDelete :
    (¬ ∃ more, (barrierWaiting twoWaits).Legal Machine.Free
        ((barrierWaiting twoWaits).exec bothAsk setAndDelete) more ∧
      (((barrierWaiting twoWaits).exec ((barrierWaiting twoWaits).exec bothAsk setAndDelete) more).waits
        false).stage = .returned true) ∧
      Returns twoWaits true ((barrierWaiting twoWaits).exec bothAsk setAndDelete) := by
  constructor
  · intro hreturns
    exact absurd ((wait_cleared_iff reachable_bothAsk (by decide +kernel) (by decide +kernel)).1.mp hreturns)
      (by decide +kernel)
  · have hlegal : (barrierWaiting twoWaits).Legal Machine.Free bothAsk
        [.answer false, .change (.set (barrierNode 2))] := by decide +kernel
    have hlegal' : (barrierWaiting twoWaits).Legal Machine.Free
        ((barrierWaiting twoWaits).exec bothAsk [.answer false, .change (.set (barrierNode 2))])
        [.answer true, .change .delete] := by decide +kernel
    exact (wait_cleared_iff (reachable_bothAsk.exec hlegal) hlegal' (by decide +kernel)).2
      (by decide +kernel) (by decide +kernel)

/-- The second call after it has returned. -/
def secondReturns : BarrierNode Bool :=
  (barrierWaiting twoWaits).exec bothAsk (setAndDelete ++ [.deliver true, .run true, .wake true])

theorem wait_true_secondReturns : (secondReturns.waits true).gone = true :=
  (wait_true (reachable_bothAsk.exec (by decide +kernel)) true).1 (by decide +kernel)

end BarrierNode

end Kazoo
