import Kazoo.Lib.Machine
import Mathlib.Algebra.Order.Archimedean.Basic
import Mathlib.Algebra.Order.Ring.Unbundled.Rat
import Mathlib.Data.Rat.Defs
import Mathlib.Tactic.Linarith

/-!
# The heartbeat

The inner loop of `_connect_attempt` in `kazoo/protocol/connection.py`, which the connection routine
stays in while it is connected: it waits in `select` until the next ping is due, reads one message,
sends one request, or sends a ping, and drops the connection when a `select` ends without anything to
read while a ping has had no reply.  Time passes in any place of the loop.
-/

namespace Kazoo

/-- What comes in on the socket, as `_read_socket` tells it apart. -/
inductive Arrival
  -- `header.xid == PING_XID`
  | pong
  -- the reply to a `Close`
  | closeResponse
  | other
  deriving DecidableEq

/-- How the loop is left. -/
inductive LoopEnd
  -- `ConnectionDropped("outstanding heartbeat ping not received")`
  | unanswered
  -- `CLOSE_RESPONSE`
  | closed
  -- any other exception, that of a read or a write which runs into its timeout among them
  | raised
  deriving DecidableEq

/-- Where the connection routine is in the loop. -/
inductive LoopStage
  | head
  -- in the `select`, which times out at `until`
  | selecting (deadline untl : ℚ)
  -- in `_read_socket`; the `select` also found a byte in `_read_sock` or not
  | reading (deadline : ℚ) (wake : Bool)
  -- in `_send_request`
  | sending
  -- at `if time.monotonic() >= deadline`
  | checking (deadline : ℚ)
  -- in `_send_ping`
  | pinging
  | ended (how : LoopEnd)
  deriving DecidableEq

namespace LoopStage

def selects : LoopStage → Bool
  | .selecting .. => true
  | _ => false

def reads : LoopStage → Bool
  | .reading .. => true
  | _ => false

def checks : LoopStage → Bool
  | .checking _ => true
  | _ => false

end LoopStage

structure Heartbeat where
  now : ℚ
  stage : LoopStage
  lastSend : ℚ
  pingOutstanding : Bool
  -- what there is to read on `_socket`
  inbox : List Arrival
  -- the bytes in `_read_sock`
  wakes : Nat
  -- the requests in `client._queue`
  queue : Nat
  -- when the pings were sent to which the server has not replied
  unanswered : List ℚ
  -- when something was last written on the socket
  wrote : ℚ
  -- when a `select` last found something
  heard : ℚ
  -- when the last `select` was entered or left
  since : ℚ

inductive HeartbeatAction
  -- `random.randint(1, 40)` and the rest of the loop down to `select`
  | draw (k : Fin 40)
  | tick (d : ℚ)
  | arrive (m : Arrival)
  -- another thread appends a request to `client._queue`, or writes a byte to `_write_sock`
  | append
  | wake
  -- `select` returns nothing, or something
  | quiet
  | ready
  -- `_read_socket` and `_send_request` return
  | read
  | send
  | check
  -- `_send_ping` returns
  | pinged
  | raises

/-- `jitter_time`. -/
def jitterTime (k : Fin 40) : ℚ := (k + 1) / 100

theorem le_jitterTime (k : Fin 40) : 1 / 100 ≤ jitterTime k := by
  have hk : (0 : ℚ) ≤ (k : ℕ) := Nat.cast_nonneg _
  rw [jitterTime]
  linarith

theorem jitterTime_le (k : Fin 40) : jitterTime k ≤ 2 / 5 := by
  have hk : ((k : ℕ) : ℚ) ≤ 39 := by exact_mod_cast Nat.le_of_lt_succ k.isLt
  rw [jitterTime]
  linarith

namespace Heartbeat

/-- The `read_timeout` is that of the negotiation in seconds. -/
def deadline (readTimeout : ℚ) (k : Fin 40) (s : Heartbeat) : ℚ :=
  s.lastSend + readTimeout / 2 - jitterTime k

def timeout (readTimeout : ℚ) (k : Fin 40) (s : Heartbeat) : ℚ :=
  max (s.deadline readTimeout k - s.now) (jitterTime k)

/-- `select` finds something. -/
def Readable (s : Heartbeat) : Prop := s.inbox ≠ [] ∨ 0 < s.wakes

instance (s : Heartbeat) : Decidable s.Readable := inferInstanceAs (Decidable (_ ∨ _))

/-- When the loop goes on if nothing holds it up. -/
def due (s : Heartbeat) : ℚ :=
  match s.stage with
  | .selecting _ untl => untl
  | _ => s.since

def Enabled (s : Heartbeat) : HeartbeatAction → Prop
  | .draw _ => s.stage = .head
  | .tick d => 0 ≤ d
  | .arrive m => m = .pong → s.unanswered ≠ []
  | .append | .wake => True
  | .quiet => s.stage.selects ∧ s.due ≤ s.now ∧ ¬ s.Readable
  | .ready => s.stage.selects ∧ s.Readable
  | .read => s.stage.reads ∧ s.inbox ≠ []
  | .send => s.stage = .sending
  | .check => s.stage.checks
  | .pinged => s.stage = .pinging
  | .raises => s.stage.reads ∨ s.stage = .sending ∨ s.stage = .pinging

instance (s : Heartbeat) : ∀ a, Decidable (s.Enabled a)
  | .draw _ => inferInstanceAs (Decidable (_ = _))
  | .tick _ => inferInstanceAs (Decidable (_ ≤ _))
  | .arrive _ => inferInstanceAs (Decidable (_ → _))
  | .append | .wake => inferInstanceAs (Decidable True)
  | .quiet => inferInstanceAs (Decidable (_ ∧ _ ∧ _))
  | .ready | .read => inferInstanceAs (Decidable (_ ∧ _))
  | .check => inferInstanceAs (Decidable (_ = true))
  | .send | .pinged => inferInstanceAs (Decidable (_ = _))
  | .raises => inferInstanceAs (Decidable (_ ∨ _ ∨ _))

/-- `_read_socket`, and what the loop does with its result. -/
def readSocket (deadline : ℚ) (wake : Bool) (s : Heartbeat) : Heartbeat :=
  match s.inbox with
  | [] => s
  | .closeResponse :: inbox => { s with inbox := inbox, stage := .ended .closed }
  | m :: inbox =>
    { s with
      inbox := inbox
      pingOutstanding := s.pingOutstanding && m != .pong
      stage := if wake then .sending else .checking deadline }

/-- `_send_request`, after which `last_send` is set.  Where there is nothing in the queue, only the byte
is taken. -/
def sendRequest (s : Heartbeat) : Heartbeat :=
  { s with
    stage := .head
    wakes := s.wakes - 1
    queue := s.queue - 1
    wrote := if s.queue = 0 then s.wrote else s.now
    lastSend := s.now }

/-- A `select` which found nothing. -/
def selectNothing (deadline : ℚ) (s : Heartbeat) : Heartbeat :=
  if s.pingOutstanding then
    { s with since := s.now, pingOutstanding := false, stage := .ended .unanswered }
  else { s with since := s.now, stage := .checking deadline }

def selectSomething (deadline : ℚ) (s : Heartbeat) : Heartbeat :=
  { s with
    since := s.now
    heard := s.now
    stage := if s.inbox = [] then .sending else .reading deadline (decide (0 < s.wakes)) }

def step (readTimeout : ℚ) (s : Heartbeat) : HeartbeatAction → Heartbeat
  | .draw k =>
    { s with
      stage := .selecting (s.deadline readTimeout k) (s.now + s.timeout readTimeout k)
      since := s.now }
  | .tick d => { s with now := s.now + d }
  | .arrive m =>
    { s with
      inbox := s.inbox ++ [m]
      unanswered := if m = .pong then s.unanswered.tail else s.unanswered }
  | .append => { s with queue := s.queue + 1 }
  | .wake => { s with wakes := s.wakes + 1 }
  | .quiet => match s.stage with
    | .selecting deadline _ => s.selectNothing deadline
    | _ => s
  | .ready => match s.stage with
    | .selecting deadline _ => s.selectSomething deadline
    | _ => s
  | .read => match s.stage with
    | .reading deadline wake => s.readSocket deadline wake
    | _ => s
  | .send => s.sendRequest
  | .check => match s.stage with
    | .checking deadline =>
      if deadline ≤ s.now then
        { s with stage := .pinging, pingOutstanding := true, unanswered := s.unanswered ++ [s.now] }
      else { s with stage := .head }
    | _ => s
  | .pinged => { s with stage := .head, lastSend := s.now, wrote := s.now }
  | .raises => { s with stage := .ended .raised }

end Heartbeat

/-- The loop from the time that `_connect` has returned, with no ping sent. -/
def heartbeat (readTimeout : ℚ) : Machine Heartbeat HeartbeatAction where
  init := ⟨0, .head, 0, false, [], 0, 0, [], 0, 0, 0⟩
  enabled := Heartbeat.Enabled
  post := Heartbeat.step readTimeout

namespace Heartbeat

instance (readTimeout : ℚ) (s : Heartbeat) (a : HeartbeatAction) :
    Decidable ((heartbeat readTimeout).enabled s a) := inferInstanceAs (Decidable (s.Enabled a))

/-- `select` returns at most `δ` after its timeout, and no more than `δ` passes between two calls of
it. -/
def Prompt (δ : ℚ) (s : Heartbeat) : HeartbeatAction → Prop
  | .tick d => s.now + d ≤ s.due + δ
  | _ => True

/-- There is a request in the queue wherever `_send_request` is called. -/
def Stocked (s : Heartbeat) : HeartbeatAction → Prop
  | .send => 0 < s.queue
  | _ => True

/-- The server replies to a ping within `r`. -/
def Answering (r : ℚ) (s : Heartbeat) : HeartbeatAction → Prop
  | .tick d => ∀ t ∈ s.unanswered, s.now + d ≤ t + r
  | _ => True

/-- The loop is prompt, and no byte is without its request. -/
def Regular (δ : ℚ) (s : Heartbeat) (a : HeartbeatAction) : Prop := s.Prompt δ a ∧ s.Stocked a

/-- The loop is such, and nothing comes in. -/
def Deaf (δ : ℚ) (s : Heartbeat) : HeartbeatAction → Prop
  | .arrive _ => False
  | a => s.Regular δ a

instance (δ : ℚ) (s : Heartbeat) : ∀ a, Decidable (s.Regular δ a)
  | .tick _ => inferInstanceAs (Decidable (_ ≤ _ ∧ True))
  | .send => inferInstanceAs (Decidable (True ∧ _ < _))
  | .draw _ | .arrive _ | .append | .wake | .quiet | .ready | .read | .check | .pinged | .raises =>
    inferInstanceAs (Decidable (True ∧ True))

/-- A ping that is answered, a request, and a ping that is not. -/
def answeredThenDeaf : List HeartbeatAction :=
  [.draw 39, .tick (23 / 5), .quiet, .check, .pinged, .arrive .pong, .draw 9, .ready, .read, .check,
    .draw 19, .append, .wake, .ready, .send, .draw 39, .tick (23 / 5), .quiet, .check, .pinged, .draw 39,
    .tick (23 / 5)]

theorem reach_answeredThenDeaf :
    (heartbeat 10).Reach (Regular (1 / 10))
      ((heartbeat 10).exec (heartbeat 10).init answeredThenDeaf) :=
  .of_legal (by decide +kernel)

theorem going_answeredThenDeaf (how : LoopEnd) :
    ((heartbeat 10).exec (heartbeat 10).init answeredThenDeaf).stage ≠ .ended how := by
  have hselects : ((heartbeat 10).exec (heartbeat 10).init answeredThenDeaf).stage.selects := by
    decide +kernel
  exact fun heq => by simp [heq, LoopStage.selects] at hselects

section

variable {readTimeout δ : ℚ} {s s' : Heartbeat} {a : HeartbeatAction}

/-- All that a step can do. -/
inductive Steps (readTimeout : ℚ) (s : Heartbeat) : HeartbeatAction → Heartbeat → Prop
  | draw (k : Fin 40) (hstage : s.stage = .head) :
      Steps readTimeout s (.draw k) { s with
        stage := .selecting (s.deadline readTimeout k) (s.now + s.timeout readTimeout k)
        since := s.now }
  | tick (d : ℚ) (hd : 0 ≤ d) : Steps readTimeout s (.tick d) { s with now := s.now + d }
  | pong (p : ℚ) (l : List ℚ) (hl : s.unanswered = p :: l) :
      Steps readTimeout s (.arrive .pong) { s with inbox := s.inbox ++ [.pong], unanswered := l }
  | arrive (m : Arrival) (hm : m ≠ .pong) :
      Steps readTimeout s (.arrive m) { s with inbox := s.inbox ++ [m] }
  | append : Steps readTimeout s .append { s with queue := s.queue + 1 }
  | wake : Steps readTimeout s .wake { s with wakes := s.wakes + 1 }
  | unanswered (deadline untl : ℚ) (hstage : s.stage = .selecting deadline untl) (hdue : untl ≤ s.now)
      (hinbox : s.inbox = []) (hping : s.pingOutstanding = true) :
      Steps readTimeout s .quiet
        { s with since := s.now, pingOutstanding := false, stage := .ended .unanswered }
  | quiet (deadline untl : ℚ) (hstage : s.stage = .selecting deadline untl) (hdue : untl ≤ s.now)
      (hinbox : s.inbox = []) (hping : s.pingOutstanding = false) :
      Steps readTimeout s .quiet { s with since := s.now, stage := .checking deadline }
  | ready (deadline untl : ℚ) (hstage : s.stage = .selecting deadline untl) (hinbox : s.inbox ≠ []) :
      Steps readTimeout s .ready { s with
        since := s.now, heard := s.now, stage := .reading deadline (decide (0 < s.wakes)) }
  | woken (deadline untl : ℚ) (hstage : s.stage = .selecting deadline untl) (hinbox : s.inbox = []) :
      Steps readTimeout s .ready { s with since := s.now, heard := s.now, stage := .sending }
  | closes (deadline : ℚ) (wake : Bool) (inbox : List Arrival) (hstage : s.stage = .reading deadline wake)
      (hinbox : s.inbox = .closeResponse :: inbox) :
      Steps readTimeout s .read { s with inbox := inbox, stage := .ended .closed }
  | read (deadline : ℚ) (wake : Bool) (m : Arrival) (inbox : List Arrival)
      (hstage : s.stage = .reading deadline wake) (hm : m ≠ .closeResponse)
      (hinbox : s.inbox = m :: inbox) :
      Steps readTimeout s .read { s with
        inbox := inbox
        pingOutstanding := s.pingOutstanding && m != .pong
        stage := if wake then .sending else .checking deadline }
  | send (hstage : s.stage = .sending) : Steps readTimeout s .send s.sendRequest
  | pings (deadline : ℚ) (hstage : s.stage = .checking deadline) (hdue : deadline ≤ s.now) :
      Steps readTimeout s .check { s with
        stage := .pinging, pingOutstanding := true, unanswered := s.unanswered ++ [s.now] }
  | waits (deadline : ℚ) (hstage : s.stage = .checking deadline) (hdue : s.now < deadline) :
      Steps readTimeout s .check { s with stage := .head }
  | pinged (hstage : s.stage = .pinging) :
      Steps readTimeout s .pinged { s with stage := .head, lastSend := s.now, wrote := s.now }
  | raises (hstage : ¬ s.stage.selects) : Steps readTimeout s .raises { s with stage := .ended .raised }

theorem LoopStage.selects_eq {stage : LoopStage} (h : stage.selects) :
    ∃ deadline untl, stage = .selecting deadline untl := by
  cases stage <;> simp_all [LoopStage.selects]

theorem LoopStage.reads_eq {stage : LoopStage} (h : stage.reads) :
    ∃ deadline wake, stage = .reading deadline wake := by
  cases stage <;> simp_all [LoopStage.reads]

theorem LoopStage.checks_eq {stage : LoopStage} (h : stage.checks) :
    ∃ deadline, stage = .checking deadline := by
  cases stage <;> simp_all [LoopStage.checks]

theorem steps_of_enabled (readTimeout : ℚ) (h : s.Enabled a) :
    Steps readTimeout s a (s.step readTimeout a) := by
  cases a with
  | draw k => exact .draw k h
  | tick d => exact .tick d h
  | arrive m =>
    by_cases hm : m = .pong
    · obtain ⟨p, l, hl⟩ := List.exists_cons_of_ne_nil (h hm)
      subst hm
      simpa [step, hl] using Steps.pong p l hl
    · simpa [step, hm] using (Steps.arrive m hm : Steps readTimeout s _ _)
  | append => exact .append
  | wake => exact .wake
  | quiet =>
    obtain ⟨hselects, hdue, hquiet⟩ := h
    obtain ⟨deadline, untl, hstage⟩ := LoopStage.selects_eq hselects
    have hinbox : s.inbox = [] := of_not_not fun hne => hquiet (.inl hne)
    rw [due, hstage] at hdue
    cases hping : s.pingOutstanding with
    | true =>
      simpa [step, selectNothing, hstage, hping] using
        Steps.unanswered deadline untl hstage hdue hinbox hping
    | false =>
      simpa [step, selectNothing, hstage, hping] using Steps.quiet deadline untl hstage hdue hinbox hping
  | ready =>
    obtain ⟨hselects, -⟩ := h
    obtain ⟨deadline, untl, hstage⟩ := LoopStage.selects_eq hselects
    by_cases hinbox : s.inbox = []
    · simpa [step, selectSomething, hstage, hinbox] using Steps.woken deadline untl hstage hinbox
    · simpa [step, selectSomething, hstage, hinbox] using Steps.ready deadline untl hstage hinbox
  | read =>
    obtain ⟨hreads, hne⟩ := h
    obtain ⟨deadline, wake, hstage⟩ := LoopStage.reads_eq hreads
    obtain ⟨m, inbox, hinbox⟩ := List.exists_cons_of_ne_nil hne
    cases m with
    | closeResponse =>
      simpa [step, readSocket, hstage, hinbox] using Steps.closes deadline wake inbox hstage hinbox
    | pong =>
      simpa [step, readSocket, hstage, hinbox] using
        Steps.read deadline wake .pong inbox hstage (by decide) hinbox
    | other =>
      simpa [step, readSocket, hstage, hinbox] using
        Steps.read deadline wake .other inbox hstage (by decide) hinbox
  | send => exact .send h
  | check =>
    obtain ⟨deadline, hstage⟩ := LoopStage.checks_eq h
    by_cases hdue : deadline ≤ s.now
    · simpa [step, hstage, hdue] using Steps.pings deadline hstage hdue
    · simpa [step, hstage, hdue] using Steps.waits deadline hstage (lt_of_not_ge hdue)
  | pinged => exact .pinged h
  | raises =>
    refine .raises fun hselects => ?_
    obtain ⟨deadline, untl, hstage⟩ := LoopStage.selects_eq hselects
    simp [Enabled, hstage, LoopStage.reads] at h

theorem due_eq (h : ¬ s.stage.selects) : s.due = s.since := by
  unfold due
  split
  · next hstage => exact absurd (by rw [hstage]; rfl) h
  · rfl

/-! ## What is written -/

/-- The longest that a ping waits for its time. -/
def pingInterval (readTimeout : ℚ) : ℚ := max (readTimeout / 2 - 1 / 100) 0

/-- How late each place of the loop is reached, counted from `last_send`. -/
structure Paced (readTimeout δ : ℚ) (s : Heartbeat) : Prop where
  since : s.since ≤ s.now
  lastSend : s.lastSend ≤ s.now
  due : s.now ≤ s.due + δ
  place : match s.stage with
    | .head => s.since ≤ s.lastSend + pingInterval readTimeout
    | .selecting deadline untl =>
      deadline ≤ s.lastSend + pingInterval readTimeout ∧
        untl ≤ s.lastSend + pingInterval readTimeout + 2 / 5 + δ
    | .reading deadline _ | .checking deadline =>
      deadline ≤ s.lastSend + pingInterval readTimeout ∧
        s.since ≤ s.lastSend + pingInterval readTimeout + 2 / 5 + 2 * δ
    | .sending | .pinging => s.since ≤ s.lastSend + pingInterval readTimeout + 2 / 5 + 2 * δ
    | .ended _ => True

theorem deadline_le (readTimeout : ℚ) (s : Heartbeat) (k : Fin 40) :
    s.deadline readTimeout k ≤ s.lastSend + pingInterval readTimeout := by
  have hjitter := le_jitterTime k
  have hinterval : readTimeout / 2 - 1 / 100 ≤ pingInterval readTimeout := le_max_left _ _
  rw [deadline]
  linarith

theorem untl_le (k : Fin 40) :
    s.now + s.timeout readTimeout k ≤ max (s.deadline readTimeout k) (s.now + 2 / 5) := by
  have hjitter := jitterTime_le k
  rw [timeout, ← max_add_add_left, add_sub_cancel]
  exact max_le_max le_rfl (by linarith)

theorem timeout_pos (readTimeout : ℚ) (s : Heartbeat) (k : Fin 40) : 0 < s.timeout readTimeout k := by
  have hjitter := le_jitterTime k
  have hle : jitterTime k ≤ s.timeout readTimeout k := le_max_right _ _
  linarith

theorem paced_step (hδ : 0 ≤ δ) (h : Paced readTimeout δ s) (hen : s.Enabled a) (hprompt : s.Prompt δ a) :
    Paced readTimeout δ (s.step readTimeout a) := by
  have hinterval : 0 ≤ pingInterval readTimeout := le_max_right _ _
  obtain ⟨hsince, hlast, hdue, hplace⟩ := h
  have hgo := steps_of_enabled readTimeout hen
  generalize s.step readTimeout a = s' at hgo
  cases hgo with
  | draw k hstage =>
    simp only [hstage, Heartbeat.due] at hplace hdue
    have htimeout := timeout_pos readTimeout s k
    have hdeadline := deadline_le readTimeout s k
    refine ⟨le_rfl, hlast, ?_, hdeadline, (untl_le k).trans (max_le ?_ ?_)⟩
    · show s.now ≤ s.now + _ + δ
      linarith
    · linarith
    · linarith
  | tick d hd => exact ⟨by linarith, by linarith, hprompt, hplace⟩
  | pong | arrive | append | wake => exact ⟨hsince, hlast, hdue, hplace⟩
  | unanswered deadline untl hstage => exact ⟨le_rfl, hlast, by simpa [Heartbeat.due], trivial⟩
  | quiet deadline untl hstage | ready deadline untl hstage =>
    simp only [hstage, Heartbeat.due] at hplace hdue
    exact ⟨le_rfl, hlast, by simpa [Heartbeat.due], hplace.1, by linarith [hplace.2]⟩
  | woken deadline untl hstage =>
    simp only [hstage, Heartbeat.due] at hplace hdue
    exact ⟨le_rfl, hlast, by simpa [Heartbeat.due], by linarith [hplace.2]⟩
  | closes deadline wake inbox hstage =>
    simp only [hstage, Heartbeat.due] at hplace hdue
    exact ⟨hsince, hlast, hdue, trivial⟩
  | read deadline wake m inbox hstage =>
    simp only [hstage, Heartbeat.due] at hplace hdue
    cases wake with
    | true => exact ⟨hsince, hlast, hdue, hplace.2⟩
    | false => exact ⟨hsince, hlast, hdue, hplace⟩
  | send hstage =>
    simp only [hstage, Heartbeat.due] at hplace hdue
    exact ⟨hsince, le_rfl, hdue, by show s.since ≤ s.now + _; linarith⟩
  | pings deadline hstage =>
    simp only [hstage, Heartbeat.due] at hplace hdue
    exact ⟨hsince, hlast, hdue, hplace.2⟩
  | waits deadline hstage hbefore =>
    simp only [hstage, Heartbeat.due] at hplace hdue
    exact ⟨hsince, hlast, hdue, by show s.since ≤ s.lastSend + _; linarith [hplace.1]⟩
  | pinged hstage =>
    simp only [hstage, Heartbeat.due] at hplace hdue
    exact ⟨hsince, le_rfl, hdue, by show s.since ≤ s.now + _; linarith⟩
  | raises hstage => exact ⟨hsince, hlast, due_eq hstage ▸ hdue, trivial⟩

theorem paced_of_reach (hδ : 0 ≤ δ) (hr : (heartbeat readTimeout).Reach (Prompt δ) s) :
    Paced readTimeout δ s := by
  refine hr.invariant ⟨le_rfl, le_rfl, ?_, ?_⟩ fun s a _ h hen hprompt => paced_step hδ h hen hprompt
  · show (0 : ℚ) ≤ 0 + δ
    linarith
  · show (0 : ℚ) ≤ 0 + pingInterval readTimeout
    rw [zero_add]
    exact le_max_right _ _

/-- Where a request is there to be sent, setting `last_send` goes with a write. -/
theorem wrote_step (h : s.wrote = s.lastSend) (hen : s.Enabled a) (hstocked : s.Stocked a) :
    (s.step readTimeout a).wrote = (s.step readTimeout a).lastSend := by
  have hgo := steps_of_enabled readTimeout hen
  generalize s.step readTimeout a = s' at hgo
  cases hgo with
  | send hstage => exact if_neg (Nat.ne_of_gt hstocked)
  | pinged hstage => rfl
  | _ => exact h

theorem wrote_of_reach (hr : (heartbeat readTimeout).Reach Stocked s) : s.wrote = s.lastSend :=
  hr.invariant (P := fun s => s.wrote = s.lastSend) rfl fun _ _ _ h hen hstocked =>
    wrote_step h hen hstocked

/-- A loop that is held up by at most `δ` writes something in each ping interval and the `0.4` and
`3 * δ` after it, if it is never woken without a request: a byte without one sets `last_send` too. -/
theorem heartbeat_writes (hδ : 0 ≤ δ)
    (hr : (heartbeat readTimeout).Reach (Regular δ) s)
    (hgoing : ∀ how, s.stage ≠ .ended how) :
    s.now ≤ s.wrote + pingInterval readTimeout + 2 / 5 + 3 * δ := by
  obtain ⟨hsince, hlast, hdue, hplace⟩ := paced_of_reach hδ (hr.mono fun _ _ h => h.1)
  rw [wrote_of_reach (hr.mono fun _ _ h => h.2)]
  rw [Heartbeat.due] at hdue
  revert hplace hdue
  cases hstage : s.stage with
  | ended how => exact absurd hstage (hgoing how)
  | _ => simp only; intro hdue hplace; linarith

/-- Between two pings of a loop with a read timeout of ten seconds. -/
theorem heartbeat_writes_answered :
    ((heartbeat 10).exec (heartbeat 10).init answeredThenDeaf).now ≤
      ((heartbeat 10).exec (heartbeat 10).init answeredThenDeaf).wrote + pingInterval 10 + 2 / 5 +
        3 * (1 / 10) :=
  heartbeat_writes (by norm_num) reach_answeredThenDeaf going_answeredThenDeaf

/-! ## A server that is no longer heard -/

/-- The longest that a `select` waits. -/
def longestSelect (readTimeout : ℚ) : ℚ := max (readTimeout / 2 - 1 / 100) (2 / 5)

/-- How long nothing has been found: after one `select` in vain a ping is sent, after the second the
loop is left. -/
structure Listening (readTimeout δ : ℚ) (s : Heartbeat) : Prop where
  since : s.since ≤ s.now
  lastSend : s.lastSend ≤ s.now
  due : s.now ≤ s.due + δ
  place : match s.stage with
    | .selecting deadline untl =>
      deadline ≤ untl ∧ untl ≤ s.since + longestSelect readTimeout ∧
        (s.since ≤ s.heard + δ ∨
          s.pingOutstanding = true ∧ s.since ≤ s.heard + longestSelect readTimeout + 3 * δ)
    | .checking deadline =>
      s.since ≤ s.heard ∨
        deadline ≤ s.since ∧ s.since ≤ s.heard + longestSelect readTimeout + 2 * δ
    | .head | .pinging =>
      s.since ≤ s.heard ∨
        s.pingOutstanding = true ∧ s.since ≤ s.heard + longestSelect readTimeout + 2 * δ
    | .reading .. | .sending => s.since ≤ s.heard
    | .ended _ => True

theorem deadline_le_untl (readTimeout : ℚ) (s : Heartbeat) (k : Fin 40) :
    s.deadline readTimeout k ≤ s.now + s.timeout readTimeout k := by
  have hle : s.deadline readTimeout k - s.now ≤ s.timeout readTimeout k := le_max_left _ _
  linarith

theorem timeout_le (readTimeout : ℚ) (hlast : s.lastSend ≤ s.now) (k : Fin 40) :
    s.timeout readTimeout k ≤ longestSelect readTimeout := by
  have hjitter := le_jitterTime k
  refine max_le_max ?_ (jitterTime_le k)
  rw [deadline]
  linarith

theorem listening_step (hδ : 0 ≤ δ) (h : Listening readTimeout δ s) (hen : s.Enabled a)
    (hprompt : s.Prompt δ a) : Listening readTimeout δ (s.step readTimeout a) := by
  have hselect : 2 / 5 ≤ longestSelect readTimeout := le_max_right _ _
  obtain ⟨hsince, hlast, hdue, hplace⟩ := h
  have hgo := steps_of_enabled readTimeout hen
  generalize s.step readTimeout a = s' at hgo
  cases hgo with
  | draw k hstage =>
    simp only [hstage, Heartbeat.due] at hplace hdue
    have htimeout := timeout_pos readTimeout s k
    have hle := timeout_le readTimeout hlast k
    refine ⟨le_rfl, hlast, by show s.now ≤ s.now + _ + δ; linarith, deadline_le_untl readTimeout s k,
      by linarith, ?_⟩
    rcases hplace with hheard | ⟨hping, hheard⟩
    · exact .inl (by show s.now ≤ s.heard + δ; linarith)
    · exact .inr ⟨hping, by show s.now ≤ s.heard + _ + 3 * δ; linarith⟩
  | tick d hd => exact ⟨by linarith, by linarith, hprompt, hplace⟩
  | pong | arrive | append | wake => exact ⟨hsince, hlast, hdue, hplace⟩
  | unanswered deadline untl hstage => exact ⟨le_rfl, hlast, by simpa [Heartbeat.due], trivial⟩
  | quiet deadline untl hstage huntl hinbox hping =>
    simp only [hstage, Heartbeat.due, hping] at hplace hdue
    obtain ⟨hdeadline, hbound, hheard | ⟨hfalse, -⟩⟩ := hplace
    · refine ⟨le_rfl, hlast, by simpa [Heartbeat.due], .inr ⟨by linarith, ?_⟩⟩
      show s.now ≤ s.heard + _ + 2 * δ
      linarith
    · cases hfalse
  | ready deadline untl hstage | woken deadline untl hstage =>
    exact ⟨le_rfl, hlast, by simpa [Heartbeat.due], le_rfl⟩
  | closes deadline wake inbox hstage =>
    simp only [hstage, Heartbeat.due] at hplace hdue
    exact ⟨hsince, hlast, hdue, trivial⟩
  | read deadline wake m inbox hstage =>
    simp only [hstage, Heartbeat.due] at hplace hdue
    cases wake with
    | true => exact ⟨hsince, hlast, hdue, hplace⟩
    | false => exact ⟨hsince, hlast, hdue, .inl hplace⟩
  | send hstage =>
    simp only [hstage, Heartbeat.due] at hplace hdue
    exact ⟨hsince, le_rfl, hdue, .inl hplace⟩
  | pings deadline hstage =>
    simp only [hstage, Heartbeat.due] at hplace hdue
    exact ⟨hsince, hlast, hdue, hplace.imp_right fun h => ⟨rfl, h.2⟩⟩
  | waits deadline hstage hbefore =>
    simp only [hstage, Heartbeat.due] at hplace hdue
    exact ⟨hsince, hlast, hdue, .inl (hplace.resolve_right fun h => by linarith [h.1])⟩
  | pinged hstage =>
    simp only [hstage, Heartbeat.due] at hplace hdue
    exact ⟨hsince, le_rfl, hdue, hplace⟩
  | raises hstage => exact ⟨hsince, hlast, due_eq hstage ▸ hdue, trivial⟩

theorem listening_of_reach (hδ : 0 ≤ δ) (hr : (heartbeat readTimeout).Reach (Prompt δ) s) :
    Listening readTimeout δ s := by
  refine hr.invariant ⟨le_rfl, le_rfl, ?_, .inl le_rfl⟩
    fun s a _ h hen hprompt => listening_step hδ h hen hprompt
  show (0 : ℚ) ≤ 0 + δ
  linarith

/-- A connection on which no `select` finds anything is given up after two of them: the first ends with
a ping, the second with the exception. -/
theorem heartbeat_notices (hδ : 0 ≤ δ) (hr : (heartbeat readTimeout).Reach (Prompt δ) s)
    (hgoing : ∀ how, s.stage ≠ .ended how) :
    s.now ≤ s.heard + 2 * longestSelect readTimeout + 4 * δ := by
  have hselect : 2 / 5 ≤ longestSelect readTimeout := le_max_right _ _
  obtain ⟨hsince, hlast, hdue, hplace⟩ := listening_of_reach hδ hr
  rw [Heartbeat.due] at hdue
  revert hplace hdue
  cases hstage : s.stage with
  | ended how => exact absurd hstage (hgoing how)
  | selecting deadline untl =>
    rintro hdue ⟨-, hbound, hheard | ⟨-, hheard⟩⟩ <;> linarith
  | reading | sending => intro hdue hheard; simp only at hdue hheard; linarith
  | _ => rintro hdue (hheard | ⟨-, hheard⟩) <;> simp only at hdue <;> linarith

theorem heartbeat_notices_answered :
    ((heartbeat 10).exec (heartbeat 10).init answeredThenDeaf).now ≤
      ((heartbeat 10).exec (heartbeat 10).init answeredThenDeaf).heard + 2 * longestSelect 10 +
        4 * (1 / 10) :=
  heartbeat_notices (by norm_num) (reach_answeredThenDeaf.mono fun _ _ h => h.1) going_answeredThenDeaf

/-! ## A server that replies -/

/-- While the server replies within `r`, no `select` ends in vain with a ping outstanding. -/
structure Answered (readTimeout r : ℚ) (s : Heartbeat) : Prop where
  recent : ∀ t ∈ s.unanswered, s.now ≤ t + r
  outstanding : s.pingOutstanding = true → s.unanswered ≠ [] ∨ .pong ∈ s.inbox
  place : match s.stage with
    | .selecting _ untl =>
      s.lastSend + readTimeout / 2 - 2 / 5 ≤ untl ∧ ∀ t ∈ s.unanswered, t ≤ s.lastSend
    | .pinging => ∀ t ∈ s.unanswered, t ≤ s.now
    | .ended how => how ≠ .unanswered
    | _ => ∀ t ∈ s.unanswered, t ≤ s.lastSend

theorem answered_step {r : ℚ} (hr : 0 ≤ r) (hsoon : r < readTimeout / 2 - 2 / 5)
    (hlast : s.lastSend ≤ s.now) (h : Answered readTimeout r s) (hen : s.Enabled a)
    (hanswering : s.Answering r a) : Answered readTimeout r (s.step readTimeout a) := by
  obtain ⟨hrecent, hout, hplace⟩ := h
  have hgo := steps_of_enabled readTimeout hen
  generalize s.step readTimeout a = s' at hgo
  cases hgo with
  | draw k hstage =>
    simp only [hstage] at hplace
    refine ⟨hrecent, hout, ?_, hplace⟩
    have hdeadline := deadline_le_untl readTimeout s k
    have hjitter := jitterTime_le k
    rw [deadline] at hdeadline
    linarith
  | tick d hd =>
    refine ⟨hanswering, hout, ?_⟩
    revert hplace
    cases hstage : s.stage with
    | pinging => exact fun hplace t ht => (hplace t ht).trans (by show s.now ≤ s.now + d; linarith)
    | _ => exact fun hplace => hplace
  | pong p l hl =>
    have hmem : ∀ t ∈ l, t ∈ s.unanswered := fun t ht => hl ▸ List.mem_cons_of_mem p ht
    refine ⟨fun t ht => hrecent t (hmem t ht), fun _ => .inr (by simp), ?_⟩
    revert hplace
    cases hstage : s.stage with
    | selecting deadline untl => exact fun hplace => ⟨hplace.1, fun t ht => hplace.2 t (hmem t ht)⟩
    | ended how => exact fun hplace => hplace
    | _ => exact fun hplace t ht => hplace t (hmem t ht)
  | arrive m hm =>
    exact ⟨hrecent, fun hping => (hout hping).imp_right (List.mem_append_left _), hplace⟩
  | append | wake => exact ⟨hrecent, hout, hplace⟩
  | unanswered deadline untl hstage hdue hinbox hping =>
    simp only [hstage] at hplace
    obtain hne | hpong := hout hping
    · obtain ⟨t, ht⟩ := List.exists_mem_of_ne_nil _ hne
      have hbefore := hplace.2 t ht
      have hwithin := hrecent t ht
      linarith [hplace.1]
    · rw [hinbox] at hpong
      cases hpong
  | quiet deadline untl hstage | ready deadline untl hstage | woken deadline untl hstage =>
    simp only [hstage] at hplace
    exact ⟨hrecent, hout, hplace.2⟩
  | closes deadline wake inbox hstage hinbox =>
    refine ⟨hrecent, fun hping => (hout hping).imp_right fun hpong => ?_, by simp⟩
    rw [hinbox] at hpong
    exact (List.mem_cons.mp hpong).resolve_left (by decide)
  | read deadline wake m inbox hstage hm hinbox =>
    simp only [hstage] at hplace
    refine ⟨hrecent, fun hping => ?_, ?_⟩
    · obtain ⟨hping, hne⟩ := Bool.and_eq_true_iff.mp hping
      refine (hout hping).imp_right fun hpong => ?_
      rw [hinbox] at hpong
      exact (List.mem_cons.mp hpong).resolve_left fun heq => by simp [← heq] at hne
    · cases wake <;> exact hplace
  | send hstage =>
    simp only [hstage] at hplace
    exact ⟨hrecent, hout, fun t ht => (hplace t ht).trans hlast⟩
  | pings deadline hstage =>
    simp only [hstage] at hplace
    refine ⟨fun t ht => ?_, fun _ => .inl (by simp), fun t ht => ?_⟩
    · obtain ht | ht := List.mem_append.mp ht
      · exact hrecent t ht
      · obtain rfl := List.mem_singleton.mp ht
        show s.now ≤ s.now + r
        linarith
    · obtain ht | ht := List.mem_append.mp ht
      · exact (hplace t ht).trans hlast
      · exact (List.mem_singleton.mp ht).le
  | waits deadline hstage =>
    simp only [hstage] at hplace
    exact ⟨hrecent, hout, hplace⟩
  | pinged hstage =>
    simp only [hstage] at hplace
    exact ⟨hrecent, hout, hplace⟩
  | raises => exact ⟨hrecent, hout, by simp⟩

theorem lastSend_le_of_reachable (hr : (heartbeat readTimeout).Reachable s) : s.lastSend ≤ s.now := by
  refine hr.invariant (P := fun s => s.lastSend ≤ s.now) le_rfl fun s a _ hlast hen _ => ?_
  have hgo := steps_of_enabled readTimeout hen
  show (s.step readTimeout a).lastSend ≤ (s.step readTimeout a).now
  generalize s.step readTimeout a = s' at hgo
  cases hgo with
  | tick d hd => exact hlast.trans (by show s.now ≤ s.now + d; linarith)
  | send | pinged => exact le_rfl
  | _ => exact hlast

theorem answered_of_reach {r : ℚ} (h : 0 ≤ r) (hsoon : r < readTimeout / 2 - 2 / 5)
    (hr : (heartbeat readTimeout).Reach (Answering r) s) : Answered readTimeout r s := by
  refine hr.invariant ⟨by simp [heartbeat], by simp [heartbeat], by simp [heartbeat]⟩
    fun s a hr hs hen hanswering => ?_
  exact answered_step h hsoon (lastSend_le_of_reachable (hr.mono fun _ _ _ => trivial)) hs hen hanswering

theorem reach_step {ok : Heartbeat → HeartbeatAction → Prop} (hr : (heartbeat readTimeout).Reach ok s)
    (a : HeartbeatAction) (hen : s.Enabled a) (hok : ok s a) :
    (heartbeat readTimeout).Reach ok (s.step readTimeout a) :=
  .step hr hen hok

/-- The shortest wait that `randint` gives, of a `select` that finds nothing. -/
theorem reach_idle {r : ℚ} (hlong : 4 / 5 ≤ readTimeout / 2)
    (hr : (heartbeat readTimeout).Reach (Answering r) s) (hstage : s.stage = .head)
    (hsent : s.lastSend = s.now) (hinbox : s.inbox = []) (hwakes : s.wakes = 0)
    (hold : ∀ t ∈ s.unanswered, s.now + (readTimeout / 2 - 2 / 5) ≤ t + r) :
    (heartbeat readTimeout).Reach (Answering r)
      (selectNothing (s.now + (readTimeout / 2 - 2 / 5))
        { s with
          now := s.now + (readTimeout / 2 - 2 / 5)
          since := s.now
          stage := .selecting (s.now + (readTimeout / 2 - 2 / 5)) (s.now + (readTimeout / 2 - 2 / 5)) }) := by
  have hjitter : jitterTime 39 = 2 / 5 := by
    rw [jitterTime]
    norm_num [show ((39 : Fin 40) : ℕ) = 39 from rfl]
  have hdeadline : s.deadline readTimeout 39 = s.now + (readTimeout / 2 - 2 / 5) := by
    rw [deadline, hsent, hjitter, add_sub_assoc]
  have htimeout : s.timeout readTimeout 39 = readTimeout / 2 - 2 / 5 := by
    rw [timeout, hdeadline, hjitter, add_sub_cancel_left, max_eq_left (by linarith)]
  have hdraw := reach_step hr (.draw 39) hstage trivial
  simp only [step, hdeadline, htimeout] at hdraw
  have htick := reach_step hdraw (.tick (readTimeout / 2 - 2 / 5)) (show (0 : ℚ) ≤ _ by linarith) hold
  exact reach_step htick .quiet ⟨rfl, le_rfl, by simp [Readable, step, hinbox, hwakes]⟩ trivial

/-- One more request, sent before the `select` ends. -/
theorem reach_request (hδ : 0 ≤ δ) (hr : (heartbeat readTimeout).Reach (Deaf δ) s)
    (hstage : s.stage = .head) (hinbox : s.inbox = []) (hwakes : s.wakes = 0) (hqueue : s.queue = 0) :
    (heartbeat readTimeout).Reach (Deaf δ) { s with
      now := s.now + 1 / 100
      since := s.now + 1 / 100
      heard := s.now + 1 / 100
      lastSend := s.now + 1 / 100
      wrote := s.now + 1 / 100 } := by
  have htimeout : 1 / 100 ≤ s.timeout readTimeout 39 := (le_jitterTime 39).trans (le_max_right _ _)
  have hdraw := reach_step hr (.draw 39) hstage ⟨trivial, trivial⟩
  have htick := reach_step hdraw (.tick (1 / 100)) (show (0 : ℚ) ≤ 1 / 100 by norm_num)
    ⟨by show s.now + 1 / 100 ≤ s.now + _ + δ; linarith, trivial⟩
  have happend := reach_step htick .append trivial ⟨trivial, trivial⟩
  have hwake := reach_step happend .wake trivial ⟨trivial, trivial⟩
  have hready := reach_step hwake .ready ⟨rfl, .inr (Nat.succ_pos _)⟩ ⟨trivial, trivial⟩
  have hsend := reach_step hready .send (by simp [Enabled, step, selectSomething, hinbox])
    ⟨trivial, Nat.succ_pos _⟩
  simpa [step, selectSomething, sendRequest, hinbox, hwakes, hqueue, hstage] using hsend

theorem reach_requests (hδ : 0 ≤ δ) (n : ℕ) (hr : (heartbeat readTimeout).Reach (Deaf δ) s)
    (hstage : s.stage = .head) (hinbox : s.inbox = []) (hwakes : s.wakes = 0) (hqueue : s.queue = 0) :
    ∃ s', (heartbeat readTimeout).Reach (Deaf δ) s' ∧ s'.stage = .head ∧
      s'.unanswered = s.unanswered ∧ s'.now = s.now + n / 100 := by
  induction n generalizing s with
  | zero => exact ⟨s, hr, hstage, rfl, by simp⟩
  | succ n ih =>
    obtain ⟨s', hr', hstage', hunanswered, hnow⟩ :=
      ih (reach_request hδ hr hstage hinbox hwakes hqueue) hstage hinbox hwakes hqueue
    refine ⟨s', hr', hstage', hunanswered, ?_⟩
    rw [hnow]
    push_cast
    linarith

/-- The first ping of a loop that has nothing else to do. -/
theorem reach_ping (readTimeout : ℚ) (hδ : 0 ≤ δ) :
    ∃ T, (heartbeat readTimeout).Reach (Deaf δ)
      { (heartbeat readTimeout).init with
        now := T, lastSend := T, since := T, wrote := T, pingOutstanding := true, unanswered := [T] } := by
  have hdue := deadline_le_untl readTimeout (heartbeat readTimeout).init 39
  have hinit : (heartbeat readTimeout).Reach (Deaf δ) (heartbeat readTimeout).init := .init
  have hdraw := reach_step hinit (.draw 39) rfl ⟨trivial, trivial⟩
  simp only [step] at hdraw
  generalize (heartbeat readTimeout).init.deadline readTimeout 39 = D at hdraw hdue
  generalize hT : (heartbeat readTimeout).init.timeout readTimeout 39 = T at hdraw hdue
  have hpos : 0 < T := hT ▸ timeout_pos readTimeout _ 39
  have hwait : (heartbeat readTimeout).init.now + T = T := zero_add T
  rw [hwait] at hdraw hdue
  have htick := reach_step hdraw (.tick T) hpos.le
    ⟨by show 0 + T ≤ T + δ; linarith, trivial⟩
  simp only [step, hwait] at htick
  have hquiet := reach_step htick .quiet ⟨rfl, le_rfl, by simp [Readable, heartbeat]⟩
    ⟨trivial, trivial⟩
  have hcheck := reach_step hquiet .check rfl ⟨trivial, trivial⟩
  have hpinging : (heartbeat readTimeout).Reach (Deaf δ)
      { (heartbeat readTimeout).init with
        now := T, since := T, stage := .pinging, pingOutstanding := true, unanswered := [T] } := by
    simpa [heartbeat, step, selectNothing, hdue] using hcheck
  exact ⟨T, reach_step hpinging .pinged rfl ⟨trivial, trivial⟩⟩

/-- Requests keep the loop from ever noticing that a ping has no reply: each of them ends a `select`
before its timeout. -/
theorem heartbeat_deaf (readTimeout : ℚ) (hδ : 0 ≤ δ) (T : ℚ) :
    ∃ s, (heartbeat readTimeout).Reach (Deaf δ) s ∧ (∀ how, s.stage ≠ .ended how) ∧
      ∃ t ∈ s.unanswered, t + T ≤ s.now := by
  obtain ⟨sent, hr⟩ := reach_ping readTimeout hδ
  obtain ⟨n, hn⟩ := exists_nat_ge (T * 100)
  obtain ⟨s, hr, hstage, hunanswered, hnow⟩ := reach_requests hδ n hr rfl rfl rfl rfl
  refine ⟨s, hr, by simp [hstage], sent, by simp [hunanswered], ?_⟩
  rw [hnow]
  linarith

theorem heartbeat_deaf_ten :
    ∃ s, (heartbeat 10).Reach (Deaf 0) s ∧ (∀ how, s.stage ≠ .ended how) ∧
      ∃ t ∈ s.unanswered, t + 3600 ≤ s.now :=
  heartbeat_deaf 10 le_rfl 3600

end

end Heartbeat

end Kazoo
