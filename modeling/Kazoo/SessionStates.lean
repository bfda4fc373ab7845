import Kazoo.Lib.Machine
import Kazoo.Client

/-!
# The session state machine

The runs of `_session_callback` from the initial state, with listeners that come and go and with
any traffic on the deques and the watcher tables in between.
-/

namespace Kazoo

/-- What requests, replies and watch events leave behind between two session callbacks. -/
structure Traffic where
  queue : List Entry
  pending : List PendingEntry
  childWatchers : WatchTable
  dataWatchers : WatchTable
  completions : List Completion
  dispatched : List (Watcher × WatchedEvent)

inductive SessionEvent
  | callback (st : KeeperState)
  | addListener (l : ListenerId)
  | removeListener (l : ListenerId)
  | traffic (t : Traffic)

namespace Client

def carry (c : Client) (t : Traffic) : Client :=
  { c with
    queue := t.queue
    pending := t.pending
    childWatchers := t.childWatchers
    dataWatchers := t.dataWatchers
    completions := c.completions ++ t.completions
    dispatched := c.dispatched ++ t.dispatched }

variable (react : Listeners)

def sessionStep (c : Client) : SessionEvent → Client
  | .callback st => c.sessionCallback react st
  | .addListener l => c.addListener l
  | .removeListener l => c.removeListener l
  | .traffic t => c.carry t

/-- The client after a sequence of events. -/
def sessionRun (c : Client) (events : List SessionEvent) : Client := events.foldl (sessionStep react) c

/-! ## The three state variables -/

/-- `_live`, `state` and `_state` tell the same story: the high-level state is `CONNECTED` in a
connected state, `SUSPENDED` only while reconnecting, and `LOST` otherwise. -/
structure StatesAgree (c : Client) : Prop where
  live : c.live = true ↔ c.clientState ∈ CONNECTED_STATES
  connected : c.state = .CONNECTED ↔ c.clientState ∈ CONNECTED_STATES
  suspended : c.state = .SUSPENDED → c.clientState = .CONNECTING

/-- The moves of the high-level state. -/
inductive Moves : KazooState → KazooState → Prop
  | lostConnected : Moves .LOST .CONNECTED
  | connectedSuspended : Moves .CONNECTED .SUSPENDED
  | connectedLost : Moves .CONNECTED .LOST
  | suspendedConnected : Moves .SUSPENDED .CONNECTED
  | suspendedLost : Moves .SUSPENDED .LOST

variable {react}

@[simp] theorem resetWatchers_clientState (c : Client) : c.resetWatchers.clientState = c.clientState := rfl
@[simp] theorem resetWatchers_state (c : Client) : c.resetWatchers.state = c.state := rfl
@[simp] theorem resetWatchers_live (c : Client) : c.resetWatchers.live = c.live := rfl
@[simp] theorem reset_clientState (c : Client) : c.reset.clientState = c.clientState := rfl
@[simp] theorem reset_state (c : Client) : c.reset.state = c.state := rfl
@[simp] theorem reset_live (c : Client) : c.reset.live = c.live := rfl

@[simp] theorem notifyPending_clientState (st : KeeperState) (c : Client) :
    (notifyPending st c).clientState = c.clientState := by rw [notifyPending_eq]
@[simp] theorem notifyPending_state (st : KeeperState) (c : Client) :
    (notifyPending st c).state = c.state := by rw [notifyPending_eq]
@[simp] theorem notifyPending_live (st : KeeperState) (c : Client) :
    (notifyPending st c).live = c.live := by rw [notifyPending_eq]

/-- `_session_callback` always leaves the state it was called with. -/
theorem sessionCallback_clientState (st : KeeperState) (c : Client) :
    (c.sessionCallback react st).clientState = st := by
  unfold sessionCallback
  split
  · next h => exact h.symm
  · dsimp only
    split
    · rfl
    · split
      · rw [makeStateChange_clientState]
      · split
        · rw [reset_clientState, notifyPending_clientState, makeStateChange_clientState]
        · rw [resetWatchers_clientState, makeStateChange_clientState, notifyPending_clientState]

/-- The high-level state after `_session_callback`, read off the state before it. -/
theorem sessionCallback_state (st : KeeperState) (c : Client) :
    (c.sessionCallback react st).state =
      if st = c.clientState ∨ c.clientState ∈ CLOSED_STATES ∧ st = .CONNECTING then c.state
      else if st ∈ CONNECTED_STATES then .CONNECTED
      else if st ∈ CLOSED_STATES then .LOST
      else .SUSPENDED := by
  unfold sessionCallback
  by_cases hsame : st = c.clientState
  · simp only [hsame, if_true, true_or]
  by_cases hskip : c.clientState ∈ CLOSED_STATES ∧ st = .CONNECTING
  · simp only [if_neg hsame, if_pos hskip, if_pos (Or.inr hskip : st = c.clientState ∨ _)]
  · simp only [if_neg hsame, if_neg hskip, if_neg (not_or.mpr ⟨hsame, hskip⟩)]
    split
    · rw [makeStateChange_state]
    · split
      · rw [reset_state, notifyPending_state, makeStateChange_state]
      · rw [resetWatchers_state, makeStateChange_state]

theorem sessionCallback_live (st : KeeperState) (c : Client) :
    (c.sessionCallback react st).live =
      if st = c.clientState ∨ c.clientState ∈ CLOSED_STATES ∧ st = .CONNECTING then c.live
      else decide (st ∈ CONNECTED_STATES) := by
  unfold sessionCallback
  by_cases hsame : st = c.clientState
  · simp only [hsame, if_true, true_or]
  by_cases hskip : c.clientState ∈ CLOSED_STATES ∧ st = .CONNECTING
  · simp only [if_neg hsame, if_pos hskip, if_pos (Or.inr hskip : st = c.clientState ∨ _)]
  · simp only [if_neg hsame, if_neg hskip, if_neg (not_or.mpr ⟨hsame, hskip⟩)]
    split
    · next h => rw [makeStateChange_live, decide_eq_true h]
    · next h =>
      split
      · rw [reset_live, notifyPending_live, makeStateChange_live, decide_eq_false h]
      · rw [resetWatchers_live, makeStateChange_live, notifyPending_live, decide_eq_false h]

theorem StatesAgree.sessionCallback {c : Client} (h : c.StatesAgree) (st : KeeperState) :
    (c.sessionCallback react st).StatesAgree := by
  obtain ⟨hlive, hconn, hsusp⟩ := h
  constructor
  · rw [sessionCallback_live, sessionCallback_clientState]
    split
    -- a callback that is skipped leaves the state, or goes from a closed one to `CONNECTING`
    · next hstay =>
      rcases hstay with rfl | ⟨hclosed, rfl⟩
      · exact hlive
      · rw [hlive]
        revert hclosed
        cases c.clientState <;> decide
    · rw [decide_eq_true_eq]
  · rw [sessionCallback_state, sessionCallback_clientState]
    split
    · next hstay =>
      rcases hstay with rfl | ⟨hclosed, rfl⟩
      · exact hconn
      · rw [hconn]
        revert hclosed
        cases c.clientState <;> decide
    · next hmove =>
      cases st <;> decide
  · rw [sessionCallback_state, sessionCallback_clientState]
    split
    · next hstay =>
      rcases hstay with rfl | ⟨_, rfl⟩
      · exact hsusp
      · exact fun _ => rfl
    -- only `CONNECTING` suspends
    · cases st <;> decide

theorem StatesAgree.sessionStep {c : Client} (h : c.StatesAgree) (e : SessionEvent) :
    (c.sessionStep react e).StatesAgree := by
  cases e with
  | callback st => exact h.sessionCallback st
  | addListener l => exact ⟨h.live, h.connected, h.suspended⟩
  | removeListener l => exact ⟨h.live, h.connected, h.suspended⟩
  | traffic t => exact ⟨h.live, h.connected, h.suspended⟩

theorem new_statesAgree (chroot : PyStr) : (new chroot).StatesAgree := by
  constructor <;> simp [new, CONNECTED_STATES]

variable (react) in
theorem StatesAgree.sessionRun {c : Client} (h : c.StatesAgree) (events : List SessionEvent) :
    (c.sessionRun react events).StatesAgree := by
  induction events generalizing c with
  | nil => exact h
  | cons e events ih => exact ih (h.sessionStep e)

/-- A callback that changes the high-level state makes one of the five moves. -/
theorem StatesAgree.moves {c : Client} (h : c.StatesAgree) {st : KeeperState}
    (hchange : (c.sessionCallback react st).state ≠ c.state) :
    Moves c.state (c.sessionCallback react st).state := by
  obtain ⟨-, hconn, hsusp⟩ := h
  rw [sessionCallback_state] at hchange ⊢
  split at hchange
  · exact absurd rfl hchange
  · next hmove =>
    rw [if_neg hmove]
    -- old and new state by cases: the invariant rules out what is no move
    revert hchange hconn hsusp hmove
    cases c.state <;> cases c.clientState <;> cases st <;>
      simp [CONNECTED_STATES, CLOSED_STATES] <;> constructor

/-! ## What the listeners see -/

/-- The states listener `l` has been called with, oldest first. -/
def observed (l : ListenerId) (c : Client) : List KazooState :=
  (c.notified.filter (·.1 = l)).map (·.2)

variable (react) in
/-- The changes of the high-level state that happen while `l` is registered. -/
def due (l : ListenerId) : Client → List SessionEvent → List KazooState
  | _, [] => []
  | c, e :: events =>
    let c' := c.sessionStep react e
    (if c'.state ≠ c.state ∧ l ∈ c.stateListeners then [c'.state] else []) ++ due l c' events

theorem callListener_observed (st : KazooState) (c : Client) (l l' : ListenerId) :
    observed l' (callListener react st c l) = observed l' c ++ if l' = l then [st] else [] := by
  obtain ⟨ls, -, hframe⟩ := callListener_frame react st c l
  rw [hframe, observed, observed, List.filter_append, List.map_append]
  by_cases h : l = l'
  · simp [h]
  · simp [h, Ne.symm h]

theorem callListener_nodup (st : KazooState) (c : Client) (l : ListenerId)
    (h : c.stateListeners.Nodup) : (callListener react st c l).stateListeners.Nodup := by
  obtain ⟨ls, hsub, hframe⟩ := callListener_frame react st c l
  rw [hframe]
  exact h.sublist hsub

/-- The loop of `_make_state_change` calls each listener of the copy once, whatever they do. -/
theorem callListeners_observed (st : KazooState) {todo : List ListenerId} (hnd : todo.Nodup)
    (c : Client) (l : ListenerId) :
    observed l (todo.foldl (callListener react st) c) =
      observed l c ++ if l ∈ todo then [st] else [] := by
  induction todo generalizing c with
  | nil => simp
  | cons l' todo ih =>
    -- whatever the first listener does, the copy still holds the others
    obtain ⟨hnot, hnd⟩ := List.nodup_cons.mp hnd
    rw [List.foldl_cons, ih hnd, callListener_observed, List.append_assoc]
    by_cases h : l = l'
    · simp [h, hnot]
    · simp [h]

theorem callListeners_nodup (st : KazooState) (todo : List ListenerId) (c : Client)
    (h : c.stateListeners.Nodup) :
    (todo.foldl (callListener react st) c).stateListeners.Nodup := by
  induction todo generalizing c with
  | nil => exact h
  | cons l todo ih => exact ih _ (callListener_nodup st c l h)

theorem makeStateChange_nodup (st : KazooState) (c : Client) (h : c.stateListeners.Nodup) :
    (makeStateChange react st c).stateListeners.Nodup := by
  unfold makeStateChange
  split
  · exact h
  · exact callListeners_nodup st _ _ h

theorem makeStateChange_observed (st : KazooState) (c : Client) (hnd : c.stateListeners.Nodup)
    (l : ListenerId) :
    observed l (makeStateChange react st c) =
      observed l c ++ if st ≠ c.state ∧ l ∈ c.stateListeners then [st] else [] := by
  unfold makeStateChange
  by_cases h : c.state = st
  · simp [h]
  · rw [if_neg h, callListeners_observed st hnd]
    simp [observed, Ne.symm h]

@[simp] theorem notifyPending_stateListeners (st : KeeperState) (c : Client) :
    (notifyPending st c).stateListeners = c.stateListeners := by rw [notifyPending_eq]
@[simp] theorem notifyPending_observed (l : ListenerId) (st : KeeperState) (c : Client) :
    observed l (notifyPending st c) = observed l c := by rw [notifyPending_eq]; rfl
@[simp] theorem reset_observed (l : ListenerId) (c : Client) : observed l c.reset = observed l c := rfl
@[simp] theorem resetWatchers_observed (l : ListenerId) (c : Client) :
    observed l c.resetWatchers = observed l c := rfl

theorem sessionCallback_nodup (st : KeeperState) (c : Client) (h : c.stateListeners.Nodup) :
    (c.sessionCallback react st).stateListeners.Nodup := by
  unfold sessionCallback
  split
  · exact h
  · dsimp only
    split
    · exact h
    · split
      · exact makeStateChange_nodup _ _ h
      · split
        · change (notifyPending st _).stateListeners.Nodup
          rw [notifyPending_stateListeners]
          exact makeStateChange_nodup _ _ h
        · change (makeStateChange react _ _).stateListeners.Nodup
          apply makeStateChange_nodup
          rw [notifyPending_stateListeners]
          exact h

/-- One callback calls every registered listener once if it changes the high-level state, and no
listener otherwise. -/
theorem sessionCallback_observed (st : KeeperState) (c : Client) (hnd : c.stateListeners.Nodup)
    (l : ListenerId) :
    observed l (c.sessionCallback react st) = observed l c ++
      if (c.sessionCallback react st).state ≠ c.state ∧ l ∈ c.stateListeners then
        [(c.sessionCallback react st).state] else [] := by
  rw [sessionCallback_state]
  unfold sessionCallback
  by_cases hsame : st = c.clientState
  · simp only [hsame, if_true, true_or, ne_eq, not_true, false_and, if_false, List.append_nil]
  by_cases hskip : c.clientState ∈ CLOSED_STATES ∧ st = .CONNECTING
  · simp only [if_neg hsame, if_pos hskip, if_pos (Or.inr hskip : st = c.clientState ∨ _), ne_eq,
      not_true, false_and, if_false, List.append_nil]
    rfl
  · simp only [if_neg hsame, if_neg hskip, if_neg (not_or.mpr ⟨hsame, hskip⟩)]
    by_cases hconn : st ∈ CONNECTED_STATES
    · simp only [if_pos hconn]
      exact makeStateChange_observed .CONNECTED { c with clientState := st, live := true } hnd l
    · by_cases hclosed : st ∈ CLOSED_STATES
      · simp only [if_neg hconn, if_pos hclosed, reset_observed, notifyPending_observed]
        exact makeStateChange_observed .LOST { c with clientState := st, live := false } hnd l
      · simp only [if_neg hconn, if_neg hclosed, resetWatchers_observed]
        rw [makeStateChange_observed _ _ (by rw [notifyPending_stateListeners]; exact hnd),
          notifyPending_observed, notifyPending_state, notifyPending_stateListeners]
        rfl

theorem sessionStep_nodup (c : Client) (e : SessionEvent) (h : c.stateListeners.Nodup) :
    (c.sessionStep react e).stateListeners.Nodup := by
  cases e with
  | callback st => exact sessionCallback_nodup st c h
  | addListener l => exact h.insert
  | removeListener l => exact h.erase l
  | traffic t => exact h

theorem sessionRun_nodup (c : Client) (events : List SessionEvent) (h : c.stateListeners.Nodup) :
    (c.sessionRun react events).stateListeners.Nodup := by
  induction events generalizing c with
  | nil => exact h
  | cons e events ih => exact ih _ (sessionStep_nodup c e h)

theorem sessionStep_observed (c : Client) (e : SessionEvent) (h : c.stateListeners.Nodup)
    (l : ListenerId) :
    observed l (c.sessionStep react e) = observed l c ++
      if (c.sessionStep react e).state ≠ c.state ∧ l ∈ c.stateListeners then
        [(c.sessionStep react e).state] else [] := by
  cases e with
  | callback st => exact sessionCallback_observed st c h l
  | addListener l' => simp [sessionStep, addListener, observed]
  | removeListener l' => simp [sessionStep, removeListener, observed]
  | traffic t => simp [sessionStep, carry, observed]

theorem sessionRun_observed (c : Client) (events : List SessionEvent) (h : c.stateListeners.Nodup)
    (l : ListenerId) :
    observed l (c.sessionRun react events) = observed l c ++ due react l c events := by
  induction events generalizing c with
  | nil => simp [sessionRun, due]
  | cons e events ih =>
    change observed l ((c.sessionStep react e).sessionRun react events) = _
    rw [ih _ (sessionStep_nodup c e h), sessionStep_observed c e h, due, List.append_assoc]

/-! ## Leaving a connected state -/

/-- The exception each state prescribes for the requests it ends. -/
def prescribedException : KeeperState → Exn
  | .AUTH_FAILED => .authFailedError
  | .EXPIRED_SESSION => .sessionExpiredError
  | _ => .connectionLoss

theorem notifyException_eq (st : KeeperState) : notifyException st = prescribedException st := by
  cases st <;> rfl

/-- Everything that waited in `before` is gone and was completed, once and in order, by the
exception that `st` prescribes. -/
structure Drained (st : KeeperState) (before after : Client) : Prop where
  queue : after.queue = []
  pending : after.pending = []
  childWatchers : after.childWatchers = ∅
  dataWatchers : after.dataWatchers = ∅
  completions : after.completions =
    before.completions ++ before.waiting.map (⟨·, .exception (prescribedException st)⟩)

theorem sessionCallback_drained {st : KeeperState} {c : Client}
    (hconn : c.clientState ∈ CONNECTED_STATES) (hst : st ∉ CONNECTED_STATES) :
    Drained st c (c.sessionCallback react st) := by
  have hsame : st ≠ c.clientState := fun h => hst (h ▸ hconn)
  have hskip : ¬ (c.clientState ∈ CLOSED_STATES ∧ st = .CONNECTING) :=
    fun h => notMem_CLOSED_of_mem_CONNECTED hconn h.1
  unfold sessionCallback
  simp only [if_neg hsame, if_neg hskip, if_neg hst]
  split
  · rw [notifyPending_eq, notifyException_eq]
    refine ⟨rfl, rfl, rfl, rfl, ?_⟩
    change (makeStateChange react _ _).completions ++ (makeStateChange react _ _).waiting.map _ = _
    simp only [waiting, makeStateChange_completions, makeStateChange_pending,
      makeStateChange_queue]
  · rw [notifyPending_eq, notifyException_eq]
    refine ⟨?_, ?_, rfl, rfl, ?_⟩
    · exact makeStateChange_queue _ _
    · exact makeStateChange_pending _ _
    · exact makeStateChange_completions _ _

/-- After any sequence of session callbacks, with listeners of any behaviour: `_live` is set
exactly in a connected state, every listener has been called with exactly the changes of the
high-level state that happened while it was registered, and the next callback either leaves the
high-level state (and then calls nobody) or makes one of the five moves, and on the way out of a
connected state leaves nothing waiting. -/
theorem session_state_machine (react : Listeners) (chroot : PyStr) (events : List SessionEvent) :
    let c := (new chroot).sessionRun react events
    (c.live = true ↔ c.clientState ∈ CONNECTED_STATES) ∧
      (∀ l, observed l c = due react l (new chroot) events) ∧
      ∀ st, let c' := c.sessionCallback react st
        (c'.live = true ↔ c'.clientState ∈ CONNECTED_STATES) ∧
        (c'.state ≠ c.state → Moves c.state c'.state) ∧
        (c'.state = c.state → ∀ l, observed l c' = observed l c) ∧
        (c.clientState ∈ CONNECTED_STATES → c'.clientState ∉ CONNECTED_STATES →
          Drained st c c') := by
  have hagree := (new_statesAgree chroot).sessionRun react events
  have hnd : ((new chroot).sessionRun react events).stateListeners.Nodup :=
    sessionRun_nodup _ events List.nodup_nil
  refine ⟨hagree.live, ?_, fun st => ⟨(hagree.sessionCallback st).live, hagree.moves, ?_, ?_⟩⟩
  · intro l
    rw [sessionRun_observed _ _ List.nodup_nil]
    rfl
  · intro hstay l
    rw [sessionCallback_observed st _ hnd, if_neg (fun h => h.1 hstay), List.append_nil]
  · intro hconn hleft
    rw [sessionCallback_clientState] at hleft
    exact sessionCallback_drained hconn hleft

end Client

end Kazoo
