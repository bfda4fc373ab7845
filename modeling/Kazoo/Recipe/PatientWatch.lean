import Kazoo.Lib.Machine
import Kazoo.Lib.OneShot
import Kazoo.Text
import Mathlib.Algebra.Order.Ring.Unbundled.Rat

/-!
# Watching for children that stay

`PatientChildrenWatch` of `kazoo/recipe/watchers.py`: the loop of `_inner_start`, the thread of the
client that reads answers and events, and the thread that calls the watchers.  Each turn of the loop
has an `async_result` and a watcher of its own, known by the number of the turn.
-/

namespace Kazoo

/-- What the clients do to the node. -/
inductive ChildChange
  | create (name : PyStr)
  | delete (name : PyStr)
  | createNode
  | deleteNode
  deriving DecidableEq, Repr

namespace ChildChange

def Allowed (node : Option (List PyStr)) : ChildChange → Prop
  | .create name => ∃ children ∈ node, name ∉ children
  | .delete name => ∃ children ∈ node, name ∈ children
  | .createNode => node = none
  | .deleteNode => node = some []

instance (node : Option (List PyStr)) (c : ChildChange) : Decidable (c.Allowed node) := by
  cases c <;> unfold Allowed <;> infer_instance

def result (node : Option (List PyStr)) : ChildChange → Option (List PyStr)
  | .create name => node.map (name :: ·)
  | .delete name => node.map (·.filter (· ≠ name))
  | .createNode => some []
  | .deleteNode => none

end ChildChange

/-- A message of the server to the client about the node. -/
inductive ChildrenMessage
  /-- What `get_children` of the loop returns, or that there is no node. -/
  | answer (children : Option (List PyStr))
  | event
  deriving DecidableEq, Repr

namespace ChildrenMessage

/-- The client enters the watcher into its table with the answer. -/
def subscribes : ChildrenMessage → Bool
  | .answer (some _) => true
  | .answer none | .event => false

def fires : ChildrenMessage → Bool
  | .event => true
  | .answer _ => false

end ChildrenMessage

inductive PatientStage
  -- in `client.retry`, about to ask
  | asking
  | requested
  -- the server has answered
  | served
  -- the answer has been read
  | answered (children : List PyStr)
  | sleeping (since : Rat)
  | testing
  | clearing
  | publishing
  | published
  | failed
  deriving DecidableEq

namespace PatientStage

/-- `get_children` returns. -/
def Returns : PatientStage → Prop
  | .answered _ => True
  | _ => False

/-- `sleep_func` returns. -/
def Wakes (timeBoundary now : Rat) : PatientStage → Prop
  | .sleeping since => since + timeBoundary ≤ now
  | _ => False

instance (stage : PatientStage) : Decidable stage.Returns := by
  cases stage <;> unfold Returns <;> infer_instance

instance (timeBoundary now : Rat) (stage : PatientStage) :
    Decidable (stage.Wakes timeBoundary now) := by
  cases stage <;> unfold Wakes <;> infer_instance

end PatientStage

/-- What the server has answered, and what it has been through by then. -/
structure ChildrenSnapshot where
  turn : Nat
  children : List PyStr
  time : Rat
  changes : Nat
  drops : Nat
  deriving DecidableEq

/-- A test of `children_changed`. -/
structure FlagTest where
  turn : Nat
  time : Rat
  -- the watcher of the turn had been called
  called : Bool
  deriving DecidableEq

structure PatientWatching where
  -- the server: the children of the node, how often they have changed, the watch of the session
  node : Option (List PyStr)
  changes : Nat
  armed : Bool
  -- the connection, and how often it has been lost
  connected : Bool
  drops : Nat
  wire : List ChildrenMessage
  -- the client: the watcher about to be entered, those in the table, the calls that wait, and the call
  registering : Option Nat
  watchers : List Nat
  callbacks : List Nat
  calling : Option Nat
  -- the loop
  now : Rat
  stage : PatientStage
  turn : Nat
  children : List PyStr
  childrenChanged : Bool
  -- the turns whose `async_result` is set
  set : List Nat
  asy : Option (List PyStr × Nat)
  -- history
  snapshot : Option ChildrenSnapshot
  test : Option FlagTest
  deriving DecidableEq

structure PatientWatches where
  node : Option (List PyStr)
  timeBoundary : Rat

inductive PatientAct
  | change (c : ChildChange)
  -- another request of the session arms the watch
  | arm
  | drop
  | reconnect
  | serve
  | read
  | register
  | callback
  | callbackEnds
  | tick (d : Rat)
  -- the steps of `_inner_start`; a request may fail, and `client.retry` may give up
  | request
  | requestFails
  | giveUp
  | resume
  | wake
  | test
  | clear
  | publish
  deriving DecidableEq

namespace PatientWatching

variable (W : PatientWatches)

/-- The watcher of the turn has been called. -/
def Called (s : PatientWatching) (turn : Nat) : Prop := turn ∈ s.set ∨ s.calling = some turn

instance (s : PatientWatching) (turn : Nat) : Decidable (s.Called turn) :=
  inferInstanceAs (Decidable (_ ∨ _))

def change (s : PatientWatching) (c : ChildChange) : PatientWatching :=
  let s := { s with node := c.result s.node, changes := s.changes + 1 }
  if s.armed then { s with armed := false, wire := s.wire ++ [.event] } else s

/-- `_notify_pending` and `_reset_watchers`; the server forgets the watches of the connection. -/
def drop (s : PatientWatching) : PatientWatching :=
  { s with
    connected := false, drops := s.drops + 1, armed := false, wire := []
    callbacks := s.callbacks ++ s.watchers, watchers := []
    stage := if s.stage = .requested ∨ s.stage = .served then .asking else s.stage }

def serve (s : PatientWatching) : PatientWatching :=
  match s.node with
  | none => { s with wire := s.wire ++ [.answer none], stage := .served }
  | some children =>
    { s with
      wire := s.wire ++ [.answer (some children)], armed := true, stage := .served
      snapshot := some ⟨s.turn, children, s.now, s.changes, s.drops⟩ }

/-- `_read_response` and `_read_watch_event`. -/
def read (s : PatientWatching) : PatientWatching :=
  match s.wire with
  | [] => s
  | .answer none :: wire => { s with wire := wire, stage := .failed }
  | .answer (some children) :: wire =>
    { s with wire := wire, registering := some s.turn, stage := .answered children }
  | .event :: wire =>
    { s with wire := wire, callbacks := s.callbacks ++ s.watchers, watchers := [] }

/-- The loop goes on with the children, and goes to sleep. -/
def resume (s : PatientWatching) : PatientWatching :=
  match s.stage with
  | .answered children => { s with children := children, stage := .sleeping s.now }
  | _ => s

def enabled (s : PatientWatching) : PatientAct → Prop
  | .change c => c.Allowed s.node
  | .arm => s.connected = true ∧ s.node ≠ none
  | .drop => s.connected = true ∧ s.registering = none
  | .reconnect => s.connected = false
  | .serve => s.connected = true ∧ s.stage = .requested
  | .read => s.connected = true ∧ s.registering = none ∧ s.wire ≠ []
  | .register => s.registering ≠ none
  | .callback => s.calling = none ∧ s.callbacks ≠ []
  | .callbackEnds => s.calling ≠ none
  | .tick d => 0 ≤ d
  | .request | .giveUp => s.stage = .asking
  | .requestFails => s.stage = .requested
  | .resume => s.stage.Returns
  | .wake => s.stage.Wakes W.timeBoundary s.now
  | .test => s.stage = .testing
  | .clear => s.stage = .clearing
  | .publish => s.stage = .publishing

instance (s : PatientWatching) (act : PatientAct) : Decidable (s.enabled W act) := by
  cases act <;> unfold enabled <;> infer_instance

def post (s : PatientWatching) : PatientAct → PatientWatching
  | .change c => s.change c
  | .arm => { s with armed := true }
  | .drop => s.drop
  | .reconnect => { s with connected := true }
  | .serve => s.serve
  | .read => s.read
  | .register => { s with registering := none, watchers := s.registering.toList ++ s.watchers }
  -- `_children_watcher`: the flag first
  | .callback =>
    { s with calling := s.callbacks.head?, callbacks := s.callbacks.tail, childrenChanged := true }
  | .callbackEnds => { s with calling := none, set := s.calling.toList ++ s.set }
  | .tick d => { s with now := s.now + d }
  | .request => { s with stage := .requested }
  | .requestFails => { s with stage := .asking }
  | .giveUp => { s with stage := .failed }
  | .resume => s.resume
  | .wake => { s with stage := .testing }
  | .test =>
    { s with
      stage := if s.childrenChanged then .clearing else .publishing
      test := some ⟨s.turn, s.now, decide (s.Called s.turn)⟩ }
  | .clear => { s with childrenChanged := false, stage := .asking, turn := s.turn + 1 }
  | .publish => { s with asy := some (s.children, s.turn), stage := .published }

/-- `start` has been called, with the client connected or not. -/
def init : PatientWatching where
  node := W.node
  changes := 0
  armed := false
  connected := false
  drops := 0
  wire := []
  registering := none
  watchers := []
  callbacks := []
  calling := none
  now := 0
  stage := .asking
  turn := 0
  children := []
  childrenChanged := false
  set := []
  asy := none
  snapshot := none
  test := none

end PatientWatching

/-- All interleavings of the loop, the client, the server and the other clients. -/
def patientWatching (W : PatientWatches) : Machine PatientWatching PatientAct where
  init := .init W
  enabled := PatientWatching.enabled W
  post := PatientWatching.post

instance (W : PatientWatches) (s : PatientWatching) (act : PatientAct) :
    Decidable ((patientWatching W).enabled s act) :=
  inferInstanceAs (Decidable (s.enabled W act))

namespace PatientWatching

variable {W : PatientWatches} {s t : PatientWatching} {snap : ChildrenSnapshot} {turn : Nat}

/-! ## Where the watcher of a turn is -/

/-- The answers on their way. -/
def answers (wire : List ChildrenMessage) : List (Option (List PyStr)) :=
  wire.filterMap fun
    | .answer children => some children
    | .event => none

/-- Neither the children have changed nor has the connection been lost. -/
structure Unchanged (s : PatientWatching) (snap : ChildrenSnapshot) : Prop where
  node : s.node = some snap.children
  changes : s.changes = snap.changes
  drops : s.drops = snap.drops

/-- The watcher is entered by the messages on their way, if it is not yet, and the server has its watch,
or they fire it. -/
def Live (s : PatientWatching) (registered : Bool) (snap : ChildrenSnapshot) : Prop :=
  (subscribedAfter ChildrenMessage.subscribes ChildrenMessage.fires registered s.wire = true ∧
      s.armed = true ∧ s.Unchanged snap) ∨
    delivered ChildrenMessage.subscribes ChildrenMessage.fires registered s.wire ≠ []

/-- The watcher of the turn is nowhere. -/
structure Idle (s : PatientWatching) : Prop where
  registering : s.registering = none
  watchers : s.watchers = []
  callbacks : s.callbacks = []
  called : ¬ s.Called s.turn

/-- The watcher of the turn has been called, and is nowhere else. -/
structure Over (s : PatientWatching) : Prop where
  registering : s.registering = none
  watchers : s.watchers = []
  callbacks : s.callbacks = []
  called : s.Called s.turn

/-- The watcher of the turn is in one place. -/
inductive Held (s : PatientWatching) (snap : ChildrenSnapshot) : Prop
  | registering (hregistering : s.registering = some s.turn) (hwatchers : s.watchers = [])
      (hcallbacks : s.callbacks = []) (hcalled : ¬ s.Called s.turn) (hconnected : s.connected = true)
      (hlive : s.Live true snap)
  | registered (hregistering : s.registering = none) (hwatchers : s.watchers = [s.turn])
      (hcallbacks : s.callbacks = []) (hcalled : ¬ s.Called s.turn) (hconnected : s.connected = true)
      (hlive : s.Live true snap)
  | waiting (hregistering : s.registering = none) (hwatchers : s.watchers = [])
      (hcallbacks : s.callbacks = [s.turn]) (hcalled : ¬ s.Called s.turn)
  | called (hover : s.Over)

/-- The answer of the turn, which has been read. -/
structure Watches (s : PatientWatching) (snap : ChildrenSnapshot) : Prop where
  snapshot : s.snapshot = some snap
  turn : snap.turn = s.turn
  answers : answers s.wire = []
  held : s.Held snap

/-- The flag has been tested long enough after the snapshot, and before the watcher was called. -/
def Tested (W : PatientWatches) (s : PatientWatching) (snap : ChildrenSnapshot) : Prop :=
  ∃ test ∈ s.test, test.turn = s.turn ∧ test.called = false ∧ snap.time + W.timeBoundary ≤ test.time

/-- What the loop knows in each of its stages. -/
def Phase (W : PatientWatches) (s : PatientWatching) : Prop :=
  match s.stage with
  | .asking | .requested | .failed => s.Idle ∧ answers s.wire = []
  | .served =>
    s.Idle ∧ (answers s.wire = [none] ∨
      ∃ snap ∈ s.snapshot, snap.turn = s.turn ∧ snap.time ≤ s.now ∧
        answers s.wire = [some snap.children] ∧ s.connected = true ∧ s.Live false snap)
  | .answered children => ∃ snap, s.Watches snap ∧ snap.children = children ∧ snap.time ≤ s.now
  | .sleeping since => ∃ snap, s.Watches snap ∧ snap.children = s.children ∧ snap.time ≤ since
  | .testing =>
    ∃ snap, s.Watches snap ∧ snap.children = s.children ∧ snap.time + W.timeBoundary ≤ s.now
  | .clearing => s.Over ∧ answers s.wire = []
  | .publishing => ∃ snap, s.Watches snap ∧ snap.children = s.children ∧ s.Tested W snap
  | .published =>
    ∃ snap, s.Watches snap ∧ snap.children = s.children ∧ s.Tested W snap ∧
      s.asy = some (s.children, s.turn)

structure Patient (W : PatientWatches) (s : PatientWatching) : Prop where
  phase : s.Phase W
  flag : s.childrenChanged = true ↔ s.Called s.turn
  le_turn : ∀ turn, s.Called turn → turn ≤ s.turn
  asy : s.asy ≠ none → s.stage = .published

/-! ## Steps of the others -/

/-- The loop has not gone on. -/
structure Beside (s t : PatientWatching) : Prop where
  stage : t.stage = s.stage
  turn : t.turn = s.turn
  children : t.children = s.children
  asy : t.asy = s.asy
  snapshot : t.snapshot = s.snapshot
  test : t.test = s.test
  now : s.now ≤ t.now

/-- What the loop knows stays true. -/
theorem Phase.beside (h : s.Phase W) (hb : Beside s t) (hidle : s.Idle → t.Idle)
    (hover : s.Over → t.Over) (hanswers : answers t.wire = answers s.wire)
    (hlive : s.stage = .served → ∀ snap, s.connected = true → s.Live false snap →
      t.connected = true ∧ t.Live false snap)
    (hheld : ∀ snap, s.Held snap → t.Held snap) : t.Phase W := by
  obtain ⟨hstage, hturn, hchildren, hasy, hsnapshot, htest, hnow⟩ := hb
  have hwatches (snap : ChildrenSnapshot) (h : s.Watches snap) : t.Watches snap :=
    ⟨hsnapshot.trans h.snapshot, h.turn.trans hturn.symm, hanswers.trans h.answers, hheld snap h.held⟩
  have htested (snap : ChildrenSnapshot) (h : s.Tested W snap) : t.Tested W snap := by
    unfold Tested
    rw [htest, hturn]
    exact h
  unfold Phase at h ⊢
  rw [hstage]
  cases hs : s.stage with
  | asking | requested | failed =>
    rw [hs] at h
    exact ⟨hidle h.1, hanswers.trans h.2⟩
  | served =>
    rw [hs] at h
    refine ⟨hidle h.1, ?_⟩
    rw [hanswers, hsnapshot, hturn]
    refine h.2.imp_right fun ⟨snap, hsnap, hturn, htime, hans, hconn, hl⟩ => ?_
    exact ⟨snap, hsnap, hturn, htime.trans hnow, hans, hlive hs snap hconn hl⟩
  | answered children =>
    rw [hs] at h
    obtain ⟨snap, hw, hc, htime⟩ := h
    exact ⟨snap, hwatches snap hw, hc, htime.trans hnow⟩
  | sleeping since =>
    rw [hs] at h
    obtain ⟨snap, hw, hc, htime⟩ := h
    exact ⟨snap, hwatches snap hw, hc.trans hchildren.symm, htime⟩
  | testing =>
    rw [hs] at h
    obtain ⟨snap, hw, hc, htime⟩ := h
    exact ⟨snap, hwatches snap hw, hc.trans hchildren.symm, htime.trans hnow⟩
  | clearing =>
    rw [hs] at h
    exact ⟨hover h.1, hanswers.trans h.2⟩
  | publishing =>
    rw [hs] at h
    obtain ⟨snap, hw, hc, ht⟩ := h
    exact ⟨snap, hwatches snap hw, hc.trans hchildren.symm, htested snap ht⟩
  | published =>
    rw [hs] at h
    obtain ⟨snap, hw, hc, ht, ha⟩ := h
    refine ⟨snap, hwatches snap hw, hc.trans hchildren.symm, htested snap ht, ?_⟩
    rw [hasy, hchildren, hturn]
    exact ha

/-- The watcher stays where it is. -/
structure SamePlace (s t : PatientWatching) : Prop where
  registering : t.registering = s.registering
  watchers : t.watchers = s.watchers
  callbacks : t.callbacks = s.callbacks
  called : ∀ turn, t.Called turn ↔ s.Called turn
  childrenChanged : t.childrenChanged = s.childrenChanged
  answers : answers t.wire = answers s.wire
  connected : s.connected = true → t.connected = true
  live : ∀ registered snap, s.Live registered snap → t.Live registered snap

theorem Held.same (h : s.Held snap) (hp : SamePlace s t) (hturn : t.turn = s.turn) : t.Held snap := by
  obtain ⟨hregistering, hwatchers, hcallbacks, hcalled, -, -, hconnected, hlive⟩ := hp
  have hnot (h : ¬ s.Called s.turn) : ¬ t.Called t.turn := by
    rw [hturn, hcalled]
    exact h
  cases h with
  | registering hr hw hc hn hconn hl =>
    exact .registering (hregistering.trans (hr.trans (congrArg some hturn.symm))) (hwatchers.trans hw)
      (hcallbacks.trans hc) (hnot hn) (hconnected hconn) (hlive true snap hl)
  | registered hr hw hc hn hconn hl =>
    exact .registered (hregistering.trans hr) (hwatchers.trans (hw.trans (congrArg ([·]) hturn.symm)))
      (hcallbacks.trans hc) (hnot hn) (hconnected hconn) (hlive true snap hl)
  | waiting hr hw hc hn =>
    exact .waiting (hregistering.trans hr) (hwatchers.trans hw)
      (hcallbacks.trans (hc.trans (congrArg ([·]) hturn.symm))) (hnot hn)
  | called hover =>
    exact .called ⟨hregistering.trans hover.registering, hwatchers.trans hover.watchers,
      hcallbacks.trans hover.callbacks, by rw [hturn, hcalled]; exact hover.called⟩

theorem Patient.same (h : s.Patient W) (hb : Beside s t) (hp : SamePlace s t) : t.Patient W where
  phase := by
    refine h.phase.beside hb (fun hidle => ?_) (fun hover => ?_) hp.answers
      (fun _ snap hconn hl => ⟨hp.connected hconn, hp.live false snap hl⟩) fun snap hheld => hheld.same hp hb.turn
    · exact ⟨hp.registering.trans hidle.registering, hp.watchers.trans hidle.watchers,
        hp.callbacks.trans hidle.callbacks, by rw [hb.turn, hp.called]; exact hidle.called⟩
    · exact ⟨hp.registering.trans hover.registering, hp.watchers.trans hover.watchers,
        hp.callbacks.trans hover.callbacks, by rw [hb.turn, hp.called]; exact hover.called⟩
  flag := by rw [hp.childrenChanged, hb.turn, hp.called, h.flag]
  le_turn turn hturn := by
    rw [hb.turn]
    exact h.le_turn turn ((hp.called turn).mp hturn)
  asy hasy := by
    rw [hb.stage]
    exact h.asy (hb.asy ▸ hasy)

/-- A change of the children fires the watch. -/
theorem Live.change {registered : Bool} (h : s.Live registered snap) (c : ChildChange) :
    (s.change c).Live registered snap := by
  by_cases harmed : s.armed = true
  · have hchange : s.change c = { s with
        node := c.result s.node, changes := s.changes + 1, armed := false
        wire := s.wire ++ [.event] } := if_pos harmed
    refine .inr ?_
    rw [hchange, delivered_concat]
    rcases h with ⟨hsubscribed, -⟩ | hdelivered
    · rw [hsubscribed]
      exact List.append_ne_nil_of_right_ne_nil _ (List.cons_ne_nil _ _)
    · exact List.append_ne_nil_of_left_ne_nil hdelivered _
  · have hchange : s.change c = { s with node := c.result s.node, changes := s.changes + 1 } :=
      if_neg harmed
    rcases h with ⟨-, h, -⟩ | hdelivered
    · exact absurd h harmed
    · rw [hchange]
      exact .inr hdelivered

theorem Patient.change (h : s.Patient W) (c : ChildChange) : (s.change c).Patient W := by
  have hfields : Beside s (s.change c) ∧ (s.change c).registering = s.registering ∧
      (s.change c).watchers = s.watchers ∧ (s.change c).callbacks = s.callbacks ∧
      (∀ turn, (s.change c).Called turn ↔ s.Called turn) ∧
      (s.change c).childrenChanged = s.childrenChanged ∧ (s.change c).connected = s.connected ∧
      answers (s.change c).wire = answers s.wire := by
    unfold PatientWatching.change
    dsimp only
    split
    · exact ⟨⟨rfl, rfl, rfl, rfl, rfl, rfl, le_rfl⟩, rfl, rfl, rfl, fun _ => Iff.rfl, rfl, rfl, by
        simp [answers, List.filterMap_append]⟩
    · exact ⟨⟨rfl, rfl, rfl, rfl, rfl, rfl, le_rfl⟩, rfl, rfl, rfl, fun _ => Iff.rfl, rfl, rfl, rfl⟩
  obtain ⟨hb, hregistering, hwatchers, hcallbacks, hcalled, hflag, hconnected, hanswers⟩ := hfields
  exact h.same hb ⟨hregistering, hwatchers, hcallbacks, hcalled, hflag, hanswers,
    fun hconn => hconnected.trans hconn, fun _ _ hl => hl.change c⟩

theorem Patient.arm (h : s.Patient W) : ({ s with armed := true } : PatientWatching).Patient W := by
  refine h.same ⟨rfl, rfl, rfl, rfl, rfl, rfl, le_rfl⟩
    ⟨rfl, rfl, rfl, fun _ => Iff.rfl, rfl, rfl, id, fun registered snap hl => ?_⟩
  rcases hl with ⟨hsubscribed, -, hunchanged⟩ | hdelivered
  · exact .inl ⟨hsubscribed, rfl, hunchanged.node, hunchanged.changes, hunchanged.drops⟩
  · exact .inr hdelivered

theorem Live.congr {registered : Bool} (h : s.Live registered snap) (hwire : t.wire = s.wire)
    (harmed : t.armed = s.armed) (hnode : t.node = s.node) (hchanges : t.changes = s.changes)
    (hdrops : t.drops = s.drops) : t.Live registered snap := by
  unfold Live
  rw [hwire, harmed]
  exact h.imp_left fun ⟨hs, ha, hu⟩ =>
    ⟨hs, ha, hnode.trans hu.node, hchanges.trans hu.changes, hdrops.trans hu.drops⟩

theorem Patient.reconnect (h : s.Patient W) :
    ({ s with connected := true } : PatientWatching).Patient W :=
  h.same ⟨rfl, rfl, rfl, rfl, rfl, rfl, le_rfl⟩
    ⟨rfl, rfl, rfl, fun _ => Iff.rfl, rfl, rfl, fun _ => rfl, fun _ _ hl => hl.congr rfl rfl rfl rfl rfl⟩

theorem Patient.tick (h : s.Patient W) {d : Rat} (hd : 0 ≤ d) :
    ({ s with now := s.now + d } : PatientWatching).Patient W :=
  h.same ⟨rfl, rfl, rfl, rfl, rfl, rfl, le_add_of_nonneg_right hd⟩
    ⟨rfl, rfl, rfl, fun _ => Iff.rfl, rfl, rfl, id, fun _ _ hl => hl.congr rfl rfl rfl rfl rfl⟩

theorem called_callbackEnds : ({ s with calling := none, set := s.calling.toList ++ s.set } :
    PatientWatching).Called turn ↔ s.Called turn := by
  unfold Called
  rw [List.mem_append, Option.mem_toList]
  constructor
  · rintro ((h | h) | h)
    · exact .inr h
    · exact .inl h
    · cases h
  · rintro (h | h)
    · exact .inl (.inr h)
    · exact .inl (.inl h)

theorem Patient.callbackEnds (h : s.Patient W) :
    ({ s with calling := none, set := s.calling.toList ++ s.set } : PatientWatching).Patient W :=
  h.same ⟨rfl, rfl, rfl, rfl, rfl, rfl, le_rfl⟩
    ⟨rfl, rfl, rfl, fun _ => called_callbackEnds, rfl, rfl, id,
      fun _ _ hl => hl.congr rfl rfl rfl rfl rfl⟩

/-! ## Steps of the watcher -/

theorem Patient.register (h : s.Patient W) (hen : s.registering ≠ none) :
    ({ s with registering := none, watchers := s.registering.toList ++ s.watchers } :
      PatientWatching).Patient W := by
  refine ⟨h.phase.beside ⟨rfl, rfl, rfl, rfl, rfl, rfl, le_rfl⟩ (fun hidle => absurd hidle.registering hen)
    (fun hover => absurd hover.registering hen) rfl
    (fun _ snap hconn hl => ⟨hconn, hl.congr rfl rfl rfl rfl rfl⟩) fun snap hheld => ?_, h.flag, h.le_turn,
    h.asy⟩
  cases hheld with
  | registering hr hw hc hn hconn hl =>
    refine .registered rfl ?_ hc hn hconn (hl.congr rfl rfl rfl rfl rfl)
    dsimp only
    rw [hr, hw]
    rfl
  | registered hr | waiting hr => exact absurd hr hen
  | called hover => exact absurd hover.registering hen

theorem Held.callbacks_eq (h : s.Held snap) : s.callbacks = [] ∨ s.callbacks = [s.turn] := by
  cases h with
  | registering _ _ hc | registered _ _ hc => exact .inl hc
  | waiting _ _ hc => exact .inr hc
  | called hover => exact .inl hover.callbacks

/-- Only the watcher of the turn waits to be called. -/
theorem Phase.callbacks_eq (h : s.Phase W) : s.callbacks = [] ∨ s.callbacks = [s.turn] := by
  unfold Phase at h
  cases hs : s.stage with
  | asking | requested | failed | served | clearing =>
    rw [hs] at h
    exact .inl h.1.callbacks
  | answered _ | sleeping _ | testing | publishing | published =>
    rw [hs] at h
    obtain ⟨snap, hw, -⟩ := h
    exact hw.held.callbacks_eq

theorem Patient.callback (h : s.Patient W) (hen : s.callbacks ≠ []) :
    ({ s with calling := s.callbacks.head?, callbacks := s.callbacks.tail, childrenChanged := true } :
      PatientWatching).Patient W := by
  have hcallbacks := h.phase.callbacks_eq.resolve_left hen
  rw [hcallbacks]
  have hcalled : ({ s with calling := some s.turn, callbacks := [], childrenChanged := true } :
      PatientWatching).Called s.turn := .inr rfl
  refine ⟨h.phase.beside ⟨rfl, rfl, rfl, rfl, rfl, rfl, le_rfl⟩ (fun hidle => absurd hidle.callbacks hen)
    (fun hover => absurd hover.callbacks hen) rfl
    (fun _ snap hconn hl => ⟨hconn, hl.congr rfl rfl rfl rfl rfl⟩) (fun snap hheld => ?_),
    iff_of_true rfl hcalled, fun turn hturn => ?_, h.asy⟩
  · cases hheld with
    | registering _ _ hc | registered _ _ hc => exact absurd hc hen
    | waiting hr hw hc hn => exact .called ⟨hr, hw, rfl, hcalled⟩
    | called hover => exact absurd hover.callbacks hen
  · rcases hturn with hset | hturn
    · exact h.le_turn turn (.inl hset)
    · exact (Option.some.inj hturn).ge

/-! ## Messages -/

/-- The watcher that is in the table is called. -/
theorem Patient.readEvent (h : s.Patient W) {wire : List ChildrenMessage} (hwire : s.wire = .event :: wire)
    (hregistering : s.registering = none) :
    ({ s with wire := wire, callbacks := s.callbacks ++ s.watchers, watchers := [] } :
      PatientWatching).Patient W := by
  refine ⟨h.phase.beside ⟨rfl, rfl, rfl, rfl, rfl, rfl, le_rfl⟩ (fun hidle => ?_) (fun hover => ?_) ?_
    (fun _ snap hconn hl => ⟨hconn, ?_⟩) (fun snap hheld => ?_), h.flag, h.le_turn, h.asy⟩
  · refine ⟨hidle.registering, rfl, ?_, hidle.called⟩
    dsimp only
    rw [hidle.callbacks, hidle.watchers]
    rfl
  · refine ⟨hover.registering, rfl, ?_, hover.called⟩
    dsimp only
    rw [hover.callbacks, hover.watchers]
    rfl
  · rw [hwire]
    rfl
  · rcases hl with ⟨hsubscribed, harmed, hunchanged⟩ | hdelivered
    · rw [hwire] at hsubscribed
      exact .inl ⟨hsubscribed, harmed, hunchanged.node, hunchanged.changes, hunchanged.drops⟩
    · rw [hwire] at hdelivered
      exact .inr hdelivered
  · cases hheld with
    | registering hr => cases hregistering.symm.trans hr
    | registered hr hw hc hn =>
      refine .waiting hr rfl ?_ hn
      dsimp only
      rw [hc, hw]
      rfl
    | waiting hr hw hc hn =>
      refine .waiting hr rfl ?_ hn
      dsimp only
      rw [hc, hw]
      rfl
    | called hover =>
      refine .called ⟨hover.registering, rfl, ?_, hover.called⟩
      dsimp only
      rw [hover.callbacks, hover.watchers]
      rfl

/-- An answer comes when the loop waits for it. -/
theorem Phase.served (h : s.Phase W) (hanswers : answers s.wire ≠ []) : s.stage = .served := by
  unfold Phase at h
  cases hs : s.stage with
  | served => rfl
  | asking | requested | failed | clearing =>
    rw [hs] at h
    exact absurd h.2 hanswers
  | answered _ | sleeping _ | testing | publishing | published =>
    rw [hs] at h
    obtain ⟨snap, hw, -⟩ := h
    exact absurd hw.answers hanswers

theorem Patient.read (h : s.Patient W) (hregistering : s.registering = none) : s.read.Patient W := by
  unfold PatientWatching.read
  cases hwire : s.wire with
  | nil => exact h
  | cons m wire =>
    cases m with
    | event => exact h.readEvent hwire hregistering
    | answer result =>
      have hserved := h.phase.served (by rw [hwire]; exact List.cons_ne_nil _ _)
      have hphase := h.phase
      unfold Phase at hphase
      rw [hserved] at hphase
      obtain ⟨hidle, hphase⟩ := hphase
      have hasy : s.asy = none := by
        by_contra hasy
        cases hserved.symm.trans (h.asy hasy)
      cases result with
      | none =>
        refine ⟨⟨⟨hidle.registering, hidle.watchers, hidle.callbacks, hidle.called⟩, ?_⟩, h.flag, h.le_turn,
          fun h' => absurd hasy h'⟩
        rcases hphase with hanswers | ⟨snap, -, -, -, hanswers, -⟩
        · rw [hwire] at hanswers
          exact (List.cons.inj hanswers).2
        · rw [hwire] at hanswers
          cases (List.cons.inj hanswers).1
      | some children =>
        rcases hphase with hanswers | ⟨snap, hsnap, hturn, htime, hanswers, hconn, hl⟩
        · rw [hwire] at hanswers
          cases (List.cons.inj hanswers).1
        rw [hwire] at hanswers
        obtain ⟨hchildren, hanswers⟩ := List.cons.inj hanswers
        have hlive : ({ s with wire := wire, registering := some s.turn, stage := .answered children } :
            PatientWatching).Live true snap := by
          rcases hl with ⟨hsubscribed, harmed, hunchanged⟩ | hdelivered
          · rw [hwire] at hsubscribed
            exact .inl ⟨hsubscribed, harmed, hunchanged.node, hunchanged.changes, hunchanged.drops⟩
          · rw [hwire] at hdelivered
            exact .inr hdelivered
        refine ⟨⟨snap, ⟨hsnap, hturn, hanswers, ?_⟩, (Option.some.inj hchildren).symm, htime⟩, h.flag,
          h.le_turn, fun h' => absurd hasy h'⟩
        exact .registering rfl hidle.watchers hidle.callbacks hidle.called hconn hlive

theorem Patient.drop (h : s.Patient W) (hregistering : s.registering = none) : s.drop.Patient W := by
  by_cases hstage : s.stage = .requested ∨ s.stage = .served
  · have hidle : s.Idle := by
      have hphase := h.phase
      unfold Phase at hphase
      rcases hstage with hstage | hstage
      · rw [hstage] at hphase
        exact hphase.1
      · rw [hstage] at hphase
        exact hphase.1
    have hasy : s.asy = none := by
      by_contra hasy
      rcases hstage with hstage | hstage <;> cases hstage.symm.trans (h.asy hasy)
    have hcallbacks : s.callbacks ++ s.watchers = [] := by rw [hidle.callbacks, hidle.watchers, List.append_nil]
    unfold PatientWatching.drop
    rw [if_pos hstage, hcallbacks]
    exact ⟨⟨⟨hidle.registering, rfl, rfl, hidle.called⟩, rfl⟩, h.flag, h.le_turn,
      fun h' => absurd hasy h'⟩
  · unfold PatientWatching.drop
    rw [if_neg hstage]
    have hanswers : answers s.wire = [] := by
      by_contra hne
      exact hstage (.inr (h.phase.served hne))
    refine ⟨h.phase.beside ⟨rfl, rfl, rfl, rfl, rfl, rfl, le_rfl⟩ (fun hidle => ?_) (fun hover => ?_)
      hanswers.symm (fun hserved => absurd (.inr hserved) hstage) fun snap hheld => ?_, h.flag,
      h.le_turn, h.asy⟩
    · exact ⟨hidle.registering, rfl, by rw [hidle.callbacks, hidle.watchers, List.append_nil],
        hidle.called⟩
    · exact ⟨hover.registering, rfl, by rw [hover.callbacks, hover.watchers, List.append_nil],
        hover.called⟩
    · cases hheld with
      | registering hr => cases hregistering.symm.trans hr
      | registered hr hw hc hn =>
        exact .waiting hr rfl (by rw [hc, hw, List.nil_append]) hn
      | waiting hr hw hc hn =>
        exact .waiting hr rfl (by rw [hc, hw, List.append_nil]) hn
      | called hover =>
        exact .called ⟨hover.registering, rfl, by rw [hover.callbacks, hover.watchers, List.append_nil],
          hover.called⟩

/-! ## Steps of the loop -/

theorem Patient.asy_eq_none (h : s.Patient W) (hstage : s.stage ≠ .published) : s.asy = none := by
  by_contra hasy
  exact hstage (h.asy hasy)

/-- A request is made or has failed. -/
theorem Patient.retry (h : s.Patient W) (hstage : s.stage = .asking ∨ s.stage = .requested)
    {stage : PatientStage} (hnext : stage = .asking ∨ stage = .requested ∨ stage = .failed) :
    ({ s with stage := stage } : PatientWatching).Patient W := by
  have hphase : s.Idle ∧ answers s.wire = [] := by
    have hphase := h.phase
    unfold Phase at hphase
    rcases hstage with hstage | hstage
    · rw [hstage] at hphase
      exact hphase
    · rw [hstage] at hphase
      exact hphase
  have hasy : s.asy = none := h.asy_eq_none (by rcases hstage with hstage | hstage <;> rw [hstage] <;> decide)
  have hidle : ({ s with stage := stage } : PatientWatching).Idle :=
    ⟨hphase.1.registering, hphase.1.watchers, hphase.1.callbacks, hphase.1.called⟩
  refine ⟨?_, h.flag, h.le_turn, fun h' => absurd hasy h'⟩
  rcases hnext with rfl | rfl | rfl <;> exact ⟨hidle, hphase.2⟩

theorem Patient.serve (h : s.Patient W) (hstage : s.stage = .requested) (hconn : s.connected = true) :
    s.serve.Patient W := by
  have hphase := h.phase
  unfold Phase at hphase
  rw [hstage] at hphase
  obtain ⟨hidle, hanswers⟩ := hphase
  have hasy := h.asy_eq_none (by rw [hstage]; decide)
  unfold PatientWatching.serve
  cases hnode : s.node with
  | none =>
    refine ⟨⟨⟨hidle.registering, hidle.watchers, hidle.callbacks, hidle.called⟩, .inl ?_⟩, h.flag, h.le_turn,
      fun h' => absurd hasy h'⟩
    exact List.filterMap_append.trans (congrArg (· ++ _) hanswers)
  | some children =>
    refine ⟨⟨⟨hidle.registering, hidle.watchers, hidle.callbacks, hidle.called⟩, .inr ?_⟩, h.flag,
      h.le_turn, fun h' => absurd hasy h'⟩
    refine ⟨_, rfl, rfl, le_rfl, ?_, hconn, .inl ⟨?_, rfl, rfl, rfl, rfl⟩⟩
    · exact List.filterMap_append.trans (congrArg (· ++ _) hanswers)
    · dsimp only
      rw [subscribedAfter_concat]
      simp [resubscribed, ChildrenMessage.subscribes, ChildrenMessage.fires]

theorem Watches.same (h : s.Watches snap) (hp : SamePlace s t) (hturn : t.turn = s.turn)
    (hsnapshot : t.snapshot = s.snapshot) : t.Watches snap :=
  ⟨hsnapshot.trans h.snapshot, h.turn.trans hturn.symm, hp.answers.trans h.answers,
    h.held.same hp hturn⟩

/-- What the loop does to itself. -/
theorem samePlace_loop {stage : PatientStage} {children : List PyStr} {asy : Option (List PyStr × Nat)}
    {test : Option FlagTest} : SamePlace s { s with stage, children, asy, test } :=
  ⟨rfl, rfl, rfl, fun _ => Iff.rfl, rfl, rfl, id, fun _ _ hl => hl.congr rfl rfl rfl rfl rfl⟩

theorem Patient.resume (h : s.Patient W) : s.resume.Patient W := by
  unfold PatientWatching.resume
  cases hstage : s.stage with
  | answered children =>
    have hphase := h.phase
    unfold Phase at hphase
    rw [hstage] at hphase
    obtain ⟨snap, hw, hchildren, htime⟩ := hphase
    have hasy := h.asy_eq_none (fun h' => nomatch hstage.symm.trans h')
    exact ⟨⟨snap, hw.same samePlace_loop rfl rfl, hchildren, htime⟩, h.flag, h.le_turn,
      fun h' => absurd hasy h'⟩
  | _ => exact h

theorem Patient.wake (h : s.Patient W) (hwakes : s.stage.Wakes W.timeBoundary s.now) :
    ({ s with stage := .testing } : PatientWatching).Patient W := by
  cases hstage : s.stage with
  | sleeping since =>
    rw [hstage] at hwakes
    have hphase := h.phase
    unfold Phase at hphase
    rw [hstage] at hphase
    obtain ⟨snap, hw, hchildren, htime⟩ := hphase
    have hasy := h.asy_eq_none (fun h' => nomatch hstage.symm.trans h')
    refine ⟨⟨snap, hw.same samePlace_loop rfl rfl, hchildren, ?_⟩, h.flag, h.le_turn,
      fun h' => absurd hasy h'⟩
    exact (add_le_add_left htime _).trans hwakes
  | _ =>
    rw [hstage] at hwakes
    exact hwakes.elim

/-- The flag is set exactly if the watcher of the turn has been called. -/
theorem Patient.test (h : s.Patient W) (hstage : s.stage = .testing) :
    ({ s with
        stage := if s.childrenChanged then .clearing else .publishing
        test := some ⟨s.turn, s.now, decide (s.Called s.turn)⟩ } : PatientWatching).Patient W := by
  have hphase := h.phase
  unfold Phase at hphase
  rw [hstage] at hphase
  obtain ⟨snap, hw, hchildren, htime⟩ := hphase
  have hasy := h.asy_eq_none (by rw [hstage]; decide)
  refine ⟨?_, h.flag, h.le_turn, fun h' => absurd hasy h'⟩
  by_cases hchanged : s.childrenChanged = true
  · rw [if_pos hchanged]
    have hcalled := h.flag.mp hchanged
    have hover : s.Over := by
      cases hw.held with
      | registering _ _ _ hn | registered _ _ _ hn | waiting _ _ _ hn => exact absurd hcalled hn
      | called hover => exact hover
    exact ⟨⟨hover.registering, hover.watchers, hover.callbacks, hcalled⟩, hw.answers⟩
  · rw [if_neg hchanged]
    refine ⟨snap, hw.same samePlace_loop rfl rfl, hchildren, _, rfl, rfl, ?_, htime⟩
    exact decide_eq_false fun hcalled => hchanged (h.flag.mpr hcalled)

theorem Patient.clear (h : s.Patient W) (hstage : s.stage = .clearing) :
    ({ s with childrenChanged := false, stage := .asking, turn := s.turn + 1 } :
      PatientWatching).Patient W := by
  have hphase := h.phase
  unfold Phase at hphase
  rw [hstage] at hphase
  obtain ⟨hover, hanswers⟩ := hphase
  have hasy := h.asy_eq_none (by rw [hstage]; decide)
  -- nobody has been called for the next turn
  have hnew : ¬ s.Called (s.turn + 1) := fun hcalled =>
    Nat.not_succ_le_self s.turn (h.le_turn _ hcalled)
  exact ⟨⟨⟨hover.registering, hover.watchers, hover.callbacks, hnew⟩, hanswers⟩,
    iff_of_false Bool.false_ne_true hnew, fun turn hturn => (h.le_turn turn hturn).trans (Nat.le_succ _),
    fun h' => absurd hasy h'⟩

theorem Patient.publish (h : s.Patient W) (hstage : s.stage = .publishing) :
    ({ s with asy := some (s.children, s.turn), stage := .published } : PatientWatching).Patient W := by
  have hphase := h.phase
  unfold Phase at hphase
  rw [hstage] at hphase
  obtain ⟨snap, hw, hchildren, htested⟩ := hphase
  exact ⟨⟨snap, hw.same samePlace_loop rfl rfl, hchildren, htested, rfl⟩, h.flag, h.le_turn, fun _ => rfl⟩

theorem Patient.post (h : s.Patient W) {act : PatientAct} (hen : s.enabled W act) :
    (s.post act).Patient W := by
  cases act with
  | change c => exact h.change c
  | arm => exact h.arm
  | drop => exact h.drop hen.2
  | reconnect => exact h.reconnect
  | serve => exact h.serve hen.2 hen.1
  | read => exact h.read hen.2.1
  | register => exact h.register hen
  | callback => exact h.callback hen.2
  | callbackEnds => exact h.callbackEnds
  | tick d => exact h.tick hen
  | request => exact h.retry (.inl hen) (.inr (.inl rfl))
  | requestFails => exact h.retry (.inr hen) (.inl rfl)
  | giveUp => exact h.retry (.inl hen) (.inr (.inr rfl))
  | resume => exact h.resume
  | wake => exact h.wake hen
  | test => exact h.test hen
  | clear => exact h.clear hen
  | publish => exact h.publish hen

theorem patient_init : (init W).Patient W := by
  have hcalled (turn : Nat) : ¬ (init W).Called turn := by
    rintro (h | h) <;> cases h
  exact ⟨⟨⟨rfl, rfl, rfl, hcalled 0⟩, rfl⟩, iff_of_false Bool.false_ne_true (hcalled 0),
    fun turn hturn => absurd hturn (hcalled turn), fun h => absurd rfl h⟩

theorem patient_of_reach (hr : (patientWatching W).Reachable s) : s.Patient W :=
  hr.invariant patient_init fun _ _ _ h hen _ => h.post hen

/-! ## What the result says -/

/-- The `async_result` of the turn is set, or the watcher is being called, or will be. -/
def Told (s : PatientWatching) (turn : Nat) : Prop :=
  s.Called turn ∨ turn ∈ s.callbacks ∨
    ((turn ∈ s.watchers ∨ s.registering = some turn) ∧ s.connected = true ∧ .event ∈ s.wire)

/-- What the client does by itself. -/
def PatientAct.ofClient : PatientAct → Bool
  | .read | .register | .callback | .callbackEnds => true
  | _ => false

theorem event_of_delivered {registered : Bool} {wire : List ChildrenMessage}
    (h : delivered ChildrenMessage.subscribes ChildrenMessage.fires registered wire ≠ []) :
    .event ∈ wire := by
  obtain ⟨m, hm⟩ := List.exists_mem_of_ne_nil _ h
  obtain ⟨hmem, hfires⟩ := mem_of_mem_delivered hm
  cases m with
  | event => exact hmem
  | answer children => cases hfires

theorem Held.told_or_unchanged (h : s.Held snap) : s.Told s.turn ∨ s.Unchanged snap := by
  cases h with
  | registering hr _ _ _ hconn hl =>
    rcases hl with ⟨-, -, hunchanged⟩ | hdelivered
    · exact .inr hunchanged
    · exact .inl (.inr (.inr ⟨.inr hr, hconn, event_of_delivered hdelivered⟩))
  | registered _ hw _ _ hconn hl =>
    rcases hl with ⟨-, -, hunchanged⟩ | hdelivered
    · exact .inr hunchanged
    · exact .inl (.inr (.inr ⟨.inl (hw ▸ List.mem_cons_self), hconn, event_of_delivered hdelivered⟩))
  | waiting _ _ hc => exact .inl (.inr (.inl (hc ▸ List.mem_cons_self)))
  | called hover => exact .inl (.inl hover.called)

theorem Patient.published (h : s.Patient W) {children : List PyStr} (hasy : s.asy = some (children, turn)) :
    ∃ snap, s.Watches snap ∧ snap.children = children ∧ s.turn = turn ∧ s.Tested W snap := by
  have hstage := h.asy (by rw [hasy]; exact Option.some_ne_none _)
  have hphase := h.phase
  unfold Phase at hphase
  rw [hstage] at hphase
  obtain ⟨snap, hw, hchildren, htested, hasy'⟩ := hphase
  obtain ⟨rfl, rfl⟩ := Prod.mk.inj (Option.some.inj (hasy'.symm.trans hasy))
  exact ⟨snap, hw, hchildren, rfl, htested⟩

/-- The client comes to set the `async_result` of the turn by itself. -/
def Settles (W : PatientWatches) (s : PatientWatching) (turn : Nat) : Prop :=
  ∃ acts, (∀ act ∈ acts, PatientAct.ofClient act = true) ∧ (patientWatching W).Legal Machine.Free s acts ∧
    turn ∈ ((patientWatching W).exec s acts).set

theorem Settles.cons (act : PatientAct) (hclient : PatientAct.ofClient act = true) (hen : s.enabled W act)
    (h : Settles W (s.post act) turn) : Settles W s turn := by
  obtain ⟨acts, hall, hlegal, hset⟩ := h
  exact ⟨act :: acts, List.forall_mem_cons.mpr ⟨hclient, hall⟩, ⟨hen, trivial, hlegal⟩, hset⟩

theorem Settles.of_called (h : s.Called turn) : Settles W s turn := by
  rcases h with hset | hcalling
  · exact ⟨[], fun _ h => absurd h List.not_mem_nil, trivial, hset⟩
  · have hen : s.enabled W .callbackEnds := by
      show s.calling ≠ none
      rw [hcalling]
      exact Option.some_ne_none _
    refine .cons .callbackEnds rfl hen ⟨[], fun _ h => absurd h List.not_mem_nil, trivial, ?_⟩
    exact List.mem_append_left _ (Option.mem_toList.mpr hcalling)

theorem Settles.of_waiting (h : s.callbacks = [turn]) : Settles W s turn := by
  have hfree (t : PatientWatching) (hcalling : t.calling = none) (hcallbacks : t.callbacks = [turn]) :
      Settles W t turn := by
    refine .cons .callback rfl ⟨hcalling, by rw [hcallbacks]; exact List.cons_ne_nil _ _⟩ ?_
    exact .of_called (.inr (congrArg List.head? hcallbacks))
  by_cases hcalling : s.calling = none
  · exact hfree s hcalling h
  · exact .cons .callbackEnds rfl hcalling (hfree _ rfl h)

theorem Settles.of_fired (hconn : s.connected = true) (hregistering : s.registering = none)
    (hwatchers : s.watchers = [turn]) (hcallbacks : s.callbacks = []) (hanswers : answers s.wire = [])
    (hevent : .event ∈ s.wire) : Settles W s turn := by
  obtain ⟨wire, hwire⟩ : ∃ wire, s.wire = .event :: wire := by
    cases hwire : s.wire with
    | nil =>
      rw [hwire] at hevent
      cases hevent
    | cons m wire =>
      cases m with
      | event => exact ⟨wire, rfl⟩
      | answer children =>
        rw [hwire] at hanswers
        cases hanswers
  refine .cons .read rfl ⟨hconn, hregistering, by rw [hwire]; exact List.cons_ne_nil _ _⟩
    (.of_waiting ?_)
  unfold post read
  rw [hwire]
  dsimp only
  rw [hcallbacks, hwatchers]
  rfl

theorem Held.settles (h : s.Held snap) (hanswers : answers s.wire = []) (htold : s.Told s.turn) :
    Settles W s s.turn := by
  cases h with
  | called hover => exact .of_called hover.called
  | waiting _ _ hc => exact .of_waiting hc
  | registered hr hw hc hn hconn =>
    rcases htold with hcalled | hwaits | ⟨-, -, hevent⟩
    · exact absurd hcalled hn
    · rw [hc] at hwaits
      cases hwaits
    · exact .of_fired hconn hr hw hc hanswers hevent
  | registering hr hw hc hn hconn =>
    rcases htold with hcalled | hwaits | ⟨-, -, hevent⟩
    · exact absurd hcalled hn
    · rw [hc] at hwaits
      cases hwaits
    · have hen : s.registering ≠ none := by
        rw [hr]
        exact Option.some_ne_none _
      refine .cons .register rfl hen (.of_fired hconn rfl ?_ hc hanswers hevent)
      show s.registering.toList ++ s.watchers = [s.turn]
      rw [hr, hw]
      rfl

/-- The children of the result are those of one snapshot, taken at least `time_boundary` before the flag
was tested, when its watcher had not been called.  Once the children have changed or the connection has
been lost since, `child_result` is set, or the client is about to set it. -/
theorem published_snapshot (hr : (patientWatching W).Reachable s) {children : List PyStr}
    (hasy : s.asy = some (children, turn)) :
    ∃ snap ∈ s.snapshot, snap.turn = turn ∧ snap.children = children ∧
      (∃ test ∈ s.test, test.turn = turn ∧ test.called = false ∧
        snap.time + W.timeBoundary ≤ test.time) ∧
      (s.Told turn ∨ s.Unchanged snap) ∧ (s.Told turn → Settles W s turn) := by
  obtain ⟨snap, hw, hchildren, rfl, htested⟩ := (patient_of_reach hr).published hasy
  exact ⟨snap, hw.snapshot, hw.turn, hchildren, htested, hw.held.told_or_unchanged,
    hw.held.settles hw.answers⟩

/-- A node with a child. -/
def oneChild : PatientWatches := ⟨some [str "a"], 5⟩

/-- The children stay for long enough, and then there is another one. -/
theorem published_snapshot_oneChild :
    let s := (patientWatching oneChild).exec (.init oneChild)
      [.reconnect, .request, .serve, .read, .register, .resume, .tick 5, .wake, .test, .publish,
        .change (.create (str "b"))]
    ∃ snap ∈ s.snapshot, snap.turn = 0 ∧ snap.children = [str "a"] ∧
      (∃ test ∈ s.test, test.turn = 0 ∧ test.called = false ∧
        snap.time + oneChild.timeBoundary ≤ test.time) ∧
      (s.Told 0 ∨ s.Unchanged snap) ∧ (s.Told 0 → Settles oneChild s 0) :=
  published_snapshot (.of_legal (by decide +kernel)) (by decide +kernel)

end PatientWatching

end Kazoo
