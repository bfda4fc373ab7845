import Kazoo.System
import Mathlib.Order.Basic

/-!
# One image of the system

The servers apply the same transactions in the same order, each at its own speed.  The client tells the
server it connects to the zxid of the last answer it has read, and a server that is behind that turns it
away.  What the client is shown by the servers it is connected to, one after another, never goes back
as long as its session goes on.
-/

namespace Kazoo

/-- A message of the server on its way to the client. -/
inductive ServerMessage
  -- an answer, with the last transaction that the server has applied
  | answer (zxid : Nat)
  -- a watch event for the transaction; its header has no zxid
  | event (zxid : Nat)
  deriving DecidableEq, Repr

def ServerMessage.zxid : ServerMessage → Nat
  | .answer zxid | .event zxid => zxid

def ServerMessage.isAnswer : ServerMessage → Bool
  | .answer _ => true
  | .event _ => false

/-- The client and the servers `ν`. -/
structure Image (ν : Type) where
  sys : Sys
  -- the last transaction that is committed, and the last that each server has applied
  committed : Nat
  applied : ν → Nat
  -- the server at the other end of the connection
  server : Option ν
  -- oldest first
  messages : List ServerMessage
  -- history: the answers read since `last_zxid` was last reset, and these with the events, newest first
  seen : List Nat
  known : List Nat

inductive ImageAct (ν : Type)
  -- somebody's write
  | commit
  -- the server applies a transaction; `watched` where it fires a watch of the client
  | apply (j : ν) (watched : Bool)
  -- the server answers a request
  | answer
  -- the server takes the client up: it answers to `Connect`
  | accept (j : ν) (readOnly : Bool) (sessionId protocolVersion : Int) (passwd : Bytes)
  -- the end of `_connect`, which has read `n` answers to `Auth`
  | authenticated (n : Nat)
  | read (header : ReplyHeader) (buffer : Bytes) (offset : Nat)
  -- any other step of the client
  | client (act : Act)

/-- The steps of the client that need no message of a server. -/
def Act.alone : Act → Bool
  | .connected .. | .authenticated _ | .read .. => false
  | _ => true

def Act.dials : Act → Bool
  | .dial => true
  | _ => false

/-- The step is the end of a `_session_callback` with a closed state, which calls `_reset`. -/
def Sys.resets (s : Sys) : Act → Bool
  | .finish =>
    match s.routine with
    | .finishing st _ => st ∈ CLOSED_STATES
    | _ => false
  | _ => false

namespace Image

variable {ν : Type} [DecidableEq ν]

def new (chroot : PyStr) : Image ν where
  sys := .new chroot
  committed := 0
  applied := fun _ => 0
  server := none
  messages := []
  seen := []
  known := []

/-- What `_connect` makes of the headers of the answers to `Auth`. -/
def authZxid (answers : List ServerMessage) : Option Int :=
  ((answers.map ServerMessage.zxid).filter (0 < ·)).getLast?.map Nat.cast

def step (react : Listeners) (s : Image ν) : ImageAct ν → Option (Image ν)
  | .commit => some { s with committed := s.committed + 1 }
  | .apply j watched =>
    if s.applied j < s.committed then
      some { s with
        applied := Function.update s.applied j (s.applied j + 1)
        messages :=
          if watched = true ∧ s.server = some j then s.messages ++ [.event (s.applied j + 1)]
          else s.messages }
    else none
  | .answer => s.server.map fun j => { s with messages := s.messages ++ [.answer (s.applied j)] }
  | .accept j readOnly sessionId protocolVersion passwd =>
    let act := .connected readOnly sessionId protocolVersion passwd
    -- a server that is behind the client closes the connection
    if s.sys.enabled act ∧ s.sys.client.lastZxid ≤ s.applied j then
      some { s with sys := s.sys.post react act, server := some j, messages := [] }
    else none
  | .authenticated n =>
    let act := .authenticated (authZxid (s.messages.take n))
    if s.sys.enabled act ∧ (s.messages.take n).all ServerMessage.isAnswer = true then
      some { s with sys := s.sys.post react act, messages := s.messages.drop n }
    else none
  | .read header buffer offset =>
    let act := .read header buffer offset
    if s.sys.enabled act then
      if header.xid = PING_XID ∨ header.xid = AUTH_XID then some { s with sys := s.sys.post react act }
      else match s.messages with
        | .event zxid :: rest =>
          if header.xid = WATCH_XID then
            some { s with sys := s.sys.post react act, messages := rest, known := zxid :: s.known }
          else none
        | .answer zxid :: rest =>
          if header.xid ≠ WATCH_XID ∧ header.zxid = zxid then
            -- without a pending request nobody sees the answer
            let unread := s.sys.client.pending = []
            some { s with
              sys := s.sys.post react act
              messages := rest
              seen := if unread then s.seen else zxid :: s.seen
              known := if unread then s.known else zxid :: s.known }
          else none
        | [] => none
    else none
  | .client act =>
    if act.alone = true ∧ s.sys.enabled act then
      some { s with
        sys := s.sys.post react act
        server := if act.dials then none else s.server
        messages := if act.dials then [] else s.messages
        seen := if s.sys.resets act then [] else s.seen
        known := if s.sys.resets act then [] else s.known }
    else none

end Image

/-- The client with any number of servers. -/
def systemImage {ν : Type} [DecidableEq ν] (react : Listeners) (chroot : PyStr) :
    Machine (Image ν) (ImageAct ν) where
  init := .new chroot
  enabled := fun s act => (s.step react act).isSome
  post := fun s act => (s.step react act).getD s

instance {ν : Type} [DecidableEq ν] (react : Listeners) (chroot : PyStr) (s : Image ν)
    (act : ImageAct ν) : Decidable ((systemImage react chroot).enabled s act) :=
  inferInstanceAs (Decidable ((s.step react act).isSome = true))

/-! ## The last zxid -/

namespace Client

variable {c : Client} {header : ReplyHeader} {buffer : Bytes} {offset : Nat}

theorem answer_lastZxid (c : Client) (e : PendingEntry) (header : ReplyHeader) (buffer : Bytes)
    (offset : Nat) (hauth : header.xid ≠ AUTH_XID) (hxid : header.xid = e.xid) :
    (c.answer e.request e.asyncObject header.err buffer offset).1.lastZxid = c.lastZxid := by
  obtain ⟨data, child, ks, -, h⟩ := answer_spec c e header buffer offset hauth hxid
  rw [h]

theorem readAuth_lastZxid (c : Client) (header : ReplyHeader) :
    (c.readAuth header).1.lastZxid = c.lastZxid := by
  unfold readAuth
  split
  · rfl
  · dsimp only
    split
    · rfl
    · split <;> rfl

/-- `_read_response` moves `last_zxid` before it looks at the request. -/
theorem readResponse_lastZxid (hauth : header.xid ≠ AUTH_XID) (hpending : c.pending ≠ []) :
    (c.readResponse header buffer offset).1.lastZxid =
      if header.zxid > 0 then header.zxid else c.lastZxid := by
  unfold readResponse
  split
  · contradiction
  · next request asyncObject xid rest hcons =>
    have hzxid : (if header.zxid > 0 then { c with pending := rest, lastZxid := header.zxid }
        else { c with pending := rest } : Client).lastZxid =
        if header.zxid > 0 then header.zxid else c.lastZxid := by
      split <;> rfl
    dsimp only
    split
    · split
      · exact hzxid
      · exact hzxid
    · next hxid =>
      exact (answer_lastZxid _ ⟨request, asyncObject, xid⟩ header buffer offset hauth
        (not_not.mp hxid)).trans hzxid

/-- Pings, answers to `Auth` and watch events leave `last_zxid` alone, and so does an answer that no
request waits for. -/
theorem readSocket_lastZxid_aside
    (h : header.xid = PING_XID ∨ header.xid = AUTH_XID ∨ header.xid = WATCH_XID ∨ c.pending = []) :
    (c.readSocket header buffer offset).1.lastZxid = c.lastZxid := by
  unfold readSocket
  split
  · rfl
  · next hping =>
    split
    · exact readAuth_lastZxid c header
    · next hauth =>
      split
      · obtain ⟨data, child, sent, hread⟩ := readWatchEvent_frame c buffer offset
        rw [hread]
      · next hwatch =>
        have hnil : c.pending = [] := by simpa [hping, hauth, hwatch] using h
        unfold readResponse
        rw [hnil]

theorem readSocket_lastZxid (hping : header.xid ≠ PING_XID) (hauth : header.xid ≠ AUTH_XID)
    (hwatch : header.xid ≠ WATCH_XID) (hpending : c.pending ≠ []) :
    (c.readSocket header buffer offset).1.lastZxid =
      if header.zxid > 0 then header.zxid else c.lastZxid := by
  unfold readSocket
  rw [if_neg hping, if_neg hauth, if_neg hwatch]
  exact readResponse_lastZxid hauth hpending

theorem callbackEnd_lastZxid (react : Listeners) (st : KeeperState) (c : Client) :
    (callbackEnd react st c).lastZxid = if st ∈ CLOSED_STATES then 0 else c.lastZxid := by
  unfold callbackEnd
  split
  · rfl
  · obtain ⟨ls, ns, h⟩ := makeStateChange_frame react .SUSPENDED c
    rw [h]
    rfl

end Client

namespace Sys

variable {react : Listeners} {s : Sys} {act : Act}

theorem callback_lastZxid (st : KeeperState) (after : After) (s : Sys) :
    (s.callback react st after).client.lastZxid = s.client.lastZxid := by
  obtain ⟨kz, live, ls, ns, r, h, -⟩ := callback_frame react st after s
  rw [h]
  rfl

theorem raised_lastZxid (e : Exn) (s : Sys) :
    (s.raised react e).client.lastZxid = s.client.lastZxid := by
  obtain ⟨st, kz, live, ls, ns, r, h, -⟩ := raised_frame react e s
  rw [h]
  rfl

theorem read_lastZxid (header : ReplyHeader) (buffer : Bytes) (offset : Nat) :
    (s.post react (.read header buffer offset)).client.lastZxid =
      (s.client.readSocket header buffer offset).1.lastZxid := by
  obtain ⟨st, kz, live, ls, ns, r, h, -⟩ := read_frame react header buffer offset s
  show (s.read react header buffer offset).client.lastZxid = _
  rw [h]
  rfl

theorem connected_lastZxid (readOnly : Bool) (sessionId protocolVersion : Int) (passwd : Bytes) :
    (s.post react (.connected readOnly sessionId protocolVersion passwd)).client.lastZxid =
      s.client.lastZxid := by
  obtain ⟨st, -, kz, live, ls, ns, h⟩ := connected_frame react readOnly sessionId protocolVersion passwd s
  show (s.connected react readOnly sessionId protocolVersion passwd).client.lastZxid = _
  rw [h]

/-- No step without a message moves `last_zxid`, but the end of the session. -/
theorem alone_lastZxid (h : act.alone = true) :
    (s.post react act).client.lastZxid = if s.resets act then 0 else s.client.lastZxid := by
  cases act with
  | connected | authenticated | read => cases h
  | finish =>
    cases hroutine : s.routine with
    | finishing st after =>
      simp only [Sys.post, finish, resets, hroutine, Client.callbackEnd_lastZxid, decide_eq_true_eq]
    | _ => simp [Sys.post, finish, resets, hroutine]
  | callCheck item a =>
    simp only [Sys.post, callCheck, resets]
    split
    · rw [Client.complete_eq]
      rfl
    · rfl
  | callAppend i =>
    simp only [Sys.post, callAppend, resets]
    split <;> rfl
  | callSend i ok =>
    simp only [Sys.post, callSend, resets]
    split
    · rfl
    · split
      · rfl
      · rw [Client.complete_eq]
        rfl
  | attempt =>
    simp only [Sys.post, attempt, resets]
    split
    · exact callback_lastZxid _ _ s
    · rfl
  | raise e => exact raised_lastZxid e s
  | submit err =>
    simp only [Sys.post, resets]
    obtain ⟨-, h⟩ | ⟨xid, e, h⟩ | ⟨_, _, _, _, -, -, h⟩ := submit_cases react err s
    · rw [h]
      rfl
    · rw [h]
      exact raised_lastZxid e _
    · rw [h]
      rfl
  | popleft =>
    simp only [Sys.post, popleft, resets]
    split <;> rfl
  | recv err =>
    simp only [Sys.post, recv, resets]
    split
    · exact raised_lastZxid _ s
    · rfl
    · rfl
  | pend =>
    simp only [Sys.post, pend, resets]
    split <;> rfl
  | clear err =>
    simp only [Sys.post, clear, resets]
    split
    · rfl
    · rfl
    · exact raised_lastZxid _ s
  | notify =>
    simp only [Sys.post, notify, resets]
    split
    · rw [Client.notifyPending_eq]
      rfl
    · rfl
  | exit => exact callback_lastZxid _ _ { s with connectionStopped := true }
  | stopEnter | stopMark | stopAppend | stopSend | safeClose | startAsync | close | begin | unresolved
  | dial | ping | giveUp => rfl

end Sys

/-! ## What the client is shown -/

namespace Image

variable {ν : Type} {react : Listeners} {chroot : PyStr} {s s' : Image ν} {act : ImageAct ν}

/-- Nothing that is on its way to the client, and nothing that its server can still send, is older than
transaction `b`. -/
structure Behind (b : Int) (s : Image ν) : Prop where
  messages : ∀ m ∈ s.messages, b ≤ m.zxid
  server : ∀ j ∈ s.server, b ≤ s.applied j

/-- The messages come in the order of the transactions, and none is from the future. -/
structure InOrder (s : Image ν) : Prop where
  messages : (s.messages.map ServerMessage.zxid).Pairwise (· ≤ ·)
  server : ∀ j ∈ s.server, ∀ m ∈ s.messages, m.zxid ≤ s.applied j
  absent : s.server = none → s.messages = []

theorem InOrder.sublist (h : s.InOrder) (hserver : s'.server = s.server) (happlied : s'.applied = s.applied)
    (hmessages : s'.messages.Sublist s.messages) : s'.InOrder where
  messages := h.messages.sublist (hmessages.map _)
  server := by
    rw [hserver, happlied]
    exact fun j hj m hm => h.server j hj m (hmessages.subset hm)
  absent := by
    rw [hserver]
    intro hnone
    rw [h.absent hnone] at hmessages
    exact List.sublist_nil.mp hmessages

theorem Behind.sublist {b : Int} (h : Behind b s) (hserver : s'.server = s.server)
    (happlied : s'.applied = s.applied) (hmessages : s'.messages.Sublist s.messages) : Behind b s' where
  messages := fun m hm => h.messages m (hmessages.subset hm)
  server := by
    rw [hserver, happlied]
    exact h.server

/-- The server sends a message about its last transaction. -/
theorem InOrder.send (h : s.InOrder) {j : ν} (hserver : s.server = some j) {m : ServerMessage}
    (hm : m.zxid = s.applied j) : InOrder { s with messages := s.messages ++ [m] } where
  messages := by
    rw [List.map_append, List.pairwise_append]
    refine ⟨h.messages, List.pairwise_singleton _ _, fun z hz z' hz' => ?_⟩
    obtain ⟨m', hm', rfl⟩ := List.mem_map.mp hz
    rw [List.map_singleton, List.mem_singleton] at hz'
    rw [hz', hm]
    exact h.server j hserver m' hm'
  server := fun j' hj' m' hm' => by
    cases hserver.symm.trans hj'
    obtain hold | hnew := List.mem_append.mp hm'
    · exact h.server j hserver m' hold
    · rw [List.mem_singleton.mp hnew, hm]
  absent := fun hnone => by cases hserver.symm.trans hnone

theorem Behind.send {b : Int} (h : Behind b s) {j : ν} (hserver : s.server = some j) {m : ServerMessage}
    (hm : m.zxid = s.applied j) : Behind b { s with messages := s.messages ++ [m] } where
  messages := fun m' hm' => by
    obtain hold | hnew := List.mem_append.mp hm'
    · exact h.messages m' hold
    · rw [List.mem_singleton.mp hnew, hm]
      exact h.server j hserver
  server := h.server

/-- What is read is not older than what comes after it. -/
theorem behind_read (h : s.InOrder) {m : ServerMessage} {rest : List ServerMessage}
    (hmessages : s.messages = m :: rest) (hrest : s'.messages = rest) (hserver : s'.server = s.server)
    (happlied : s'.applied = s.applied) : Behind m.zxid s' := by
  have horder := h.messages
  rw [hmessages, List.map_cons, List.pairwise_cons] at horder
  refine ⟨fun m' hm' => ?_, fun j hj => ?_⟩
  · rw [hrest] at hm'
    exact Int.ofNat_le.mpr (horder.1 _ (List.mem_map_of_mem hm'))
  · rw [hserver] at hj
    rw [happlied]
    exact Int.ofNat_le.mpr (h.server j hj m (by rw [hmessages]; exact List.mem_cons_self))

variable [DecidableEq ν]

/-- All that a step can do. -/
inductive Steps (react : Listeners) (s : Image ν) : ImageAct ν → Image ν → Prop
  | commit : Steps react s .commit { s with committed := s.committed + 1 }
  | apply {j : ν} {watched : Bool} (hlt : s.applied j < s.committed) :
    Steps react s (.apply j watched) { s with
      applied := Function.update s.applied j (s.applied j + 1)
      messages :=
        if watched = true ∧ s.server = some j then s.messages ++ [.event (s.applied j + 1)]
        else s.messages }
  | answer {j : ν} (hserver : s.server = some j) :
    Steps react s .answer { s with messages := s.messages ++ [.answer (s.applied j)] }
  | accept {j : ν} {readOnly : Bool} {sessionId protocolVersion : Int} {passwd : Bytes}
      (hahead : s.sys.client.lastZxid ≤ s.applied j) :
    Steps react s (.accept j readOnly sessionId protocolVersion passwd) { s with
      sys := s.sys.post react (.connected readOnly sessionId protocolVersion passwd)
      server := some j
      messages := [] }
  | authenticated {n : Nat} :
    Steps react s (.authenticated n) { s with
      sys := s.sys.post react (.authenticated (authZxid (s.messages.take n)))
      messages := s.messages.drop n }
  | readAside {header : ReplyHeader} {buffer : Bytes} {offset : Nat}
      (hxid : header.xid = PING_XID ∨ header.xid = AUTH_XID) :
    Steps react s (.read header buffer offset) { s with
      sys := s.sys.post react (.read header buffer offset) }
  | readEvent {header : ReplyHeader} {buffer : Bytes} {offset zxid : Nat} {rest : List ServerMessage}
      (hxid : header.xid = WATCH_XID) (hmessages : s.messages = .event zxid :: rest) :
    Steps react s (.read header buffer offset) { s with
      sys := s.sys.post react (.read header buffer offset)
      messages := rest
      known := zxid :: s.known }
  | readUnread {header : ReplyHeader} {buffer : Bytes} {offset zxid : Nat} {rest : List ServerMessage}
      (hmessages : s.messages = .answer zxid :: rest) (hpending : s.sys.client.pending = []) :
    Steps react s (.read header buffer offset) { s with
      sys := s.sys.post react (.read header buffer offset)
      messages := rest }
  | readAnswer {header : ReplyHeader} {buffer : Bytes} {offset zxid : Nat} {rest : List ServerMessage}
      (hping : header.xid ≠ PING_XID) (hauth : header.xid ≠ AUTH_XID) (hwatch : header.xid ≠ WATCH_XID)
      (hzxid : header.zxid = zxid) (hmessages : s.messages = .answer zxid :: rest)
      (hpending : s.sys.client.pending ≠ []) :
    Steps react s (.read header buffer offset) { s with
      sys := s.sys.post react (.read header buffer offset)
      messages := rest
      seen := zxid :: s.seen
      known := zxid :: s.known }
  | client {act : Act} (halone : act.alone = true) :
    Steps react s (.client act) { s with
      sys := s.sys.post react act
      server := if act.dials then none else s.server
      messages := if act.dials then [] else s.messages
      seen := if s.sys.resets act then [] else s.seen
      known := if s.sys.resets act then [] else s.known }

theorem steps_of_step (h : s.step react act = some s') : Steps react s act s' := by
  cases act <;> simp only [step] at h
  case commit =>
    cases h
    exact .commit
  case apply j watched =>
    obtain ⟨hlt, ⟨⟩⟩ := Option.ite_none_right_eq_some.mp h
    exact .apply hlt
  case answer =>
    obtain ⟨j, hserver, rfl⟩ := Option.map_eq_some_iff.mp h
    exact .answer hserver
  case accept j readOnly sessionId protocolVersion passwd =>
    obtain ⟨hcond, ⟨⟩⟩ := Option.ite_none_right_eq_some.mp h
    exact .accept hcond.2
  case authenticated n =>
    obtain ⟨hcond, ⟨⟩⟩ := Option.ite_none_right_eq_some.mp h
    exact .authenticated
  case read header buffer offset =>
    obtain ⟨-, h⟩ := Option.ite_none_right_eq_some.mp h
    split at h
    · next hxid =>
      cases h
      exact .readAside hxid
    next hxid =>
    rw [not_or] at hxid
    split at h
    · next zxid rest hmessages =>
      obtain ⟨hwatch, ⟨⟩⟩ := Option.ite_none_right_eq_some.mp h
      exact .readEvent hwatch hmessages
    · next zxid rest hmessages =>
      obtain ⟨hcond, ⟨⟩⟩ := Option.ite_none_right_eq_some.mp h
      by_cases hpending : s.sys.client.pending = []
      · simp only [if_pos hpending]
        exact .readUnread hmessages hpending
      · simp only [if_neg hpending]
        exact .readAnswer hxid.1 hxid.2 hcond.1 hcond.2 hmessages hpending
    · cases h
  case client act =>
    obtain ⟨hcond, ⟨⟩⟩ := Option.ite_none_right_eq_some.mp h
    exact .client hcond.1

/-- A server applies one more transaction. -/
theorem applied_mono (s : Image ν) (j j' : ν) :
    s.applied j' ≤ Function.update s.applied j (s.applied j + 1) j' :=
  le_update_self_iff.mpr (Nat.le_succ _) j'

theorem InOrder.apply (h : s.InOrder) (j : ν) :
    InOrder { s with applied := Function.update s.applied j (s.applied j + 1) } where
  messages := h.messages
  server := fun j' hj' m hm => (h.server j' hj' m hm).trans (applied_mono s j j')
  absent := h.absent

theorem Behind.apply {b : Int} (h : Behind b s) (j : ν) :
    Behind b { s with applied := Function.update s.applied j (s.applied j + 1) } where
  messages := h.messages
  server := fun j' hj' => (h.server j' hj').trans (Int.ofNat_le.mpr (applied_mono s j j'))

theorem inOrder_step (h : s.InOrder) (hsteps : Steps react s act s') : s'.InOrder := by
  cases hsteps with
  | commit => exact ⟨h.messages, h.server, h.absent⟩
  | @apply j watched =>
    split
    · next hfires => exact (h.apply j).send hfires.2 (by simp [ServerMessage.zxid])
    · exact h.apply j
  | answer hserver => exact h.send hserver rfl
  | accept => exact ⟨.nil, fun _ _ _ hm => (by cases hm), fun _ => rfl⟩
  | authenticated => exact h.sublist rfl rfl (List.drop_sublist _ _)
  | readAside => exact ⟨h.messages, h.server, h.absent⟩
  | readEvent _ hmessages | readUnread hmessages | readAnswer _ _ _ _ hmessages =>
    exact h.sublist rfl rfl (by rw [hmessages]; exact List.sublist_cons_self _ _)
  | @client act =>
    cases act.dials with
    | true => exact ⟨.nil, fun _ hj => (by cases hj), fun _ => rfl⟩
    | false => exact ⟨h.messages, h.server, h.absent⟩

/-- No step of the connection brings anything older than it has, until the client connects again. -/
theorem behind_step {b : Int} (h : Behind b s) (hsteps : Steps react s act s')
    (haccept : ∀ j readOnly sessionId protocolVersion passwd,
      act = .accept j readOnly sessionId protocolVersion passwd → b ≤ s.applied j) : Behind b s' := by
  cases hsteps with
  | commit => exact ⟨h.messages, h.server⟩
  | @apply j watched =>
    split
    · next hfires => exact (h.apply j).send hfires.2 (by simp [ServerMessage.zxid])
    · exact h.apply j
  | answer hserver => exact h.send hserver rfl
  | @accept j =>
    refine ⟨fun _ hm => (by cases hm), fun j' hj' => ?_⟩
    cases hj'
    exact haccept j _ _ _ _ rfl
  | authenticated => exact h.sublist rfl rfl (List.drop_sublist _ _)
  | readAside => exact ⟨h.messages, h.server⟩
  | readEvent _ hmessages | readUnread hmessages | readAnswer _ _ _ _ hmessages =>
    exact h.sublist rfl rfl (by rw [hmessages]; exact List.sublist_cons_self _ _)
  | @client act =>
    cases act.dials with
    | true => exact ⟨fun _ hm => (by cases hm), fun _ hj => (by cases hj)⟩
    | false => exact ⟨h.messages, h.server⟩

/-! ## Answers -/

/-- The answers that the client has read, and `last_zxid`. -/
structure Sound (s : Image ν) : Prop where
  inOrder : s.InOrder
  nonneg : 0 ≤ s.sys.client.lastZxid
  behind : Behind s.sys.client.lastZxid s
  seen : ∀ z ∈ s.seen, (z : Int) ≤ s.sys.client.lastZxid
  order : s.seen.Pairwise (· ≥ ·)

/-- Neither the answers nor `last_zxid` have changed. -/
theorem Sound.keep (h : s.Sound) (hsteps : Steps react s act s')
    (hzxid : s'.sys.client.lastZxid = s.sys.client.lastZxid) (hseen : s'.seen = s.seen)
    (haccept : ∀ j readOnly sessionId protocolVersion passwd,
      act = .accept j readOnly sessionId protocolVersion passwd → s.sys.client.lastZxid ≤ s.applied j) :
    s'.Sound where
  inOrder := inOrder_step h.inOrder hsteps
  nonneg := hzxid ▸ h.nonneg
  behind := hzxid ▸ behind_step h.behind hsteps haccept
  seen := by
    rw [hzxid, hseen]
    exact h.seen
  order := hseen ▸ h.order

theorem authZxid_mem {answers : List ServerMessage} {z : Int} (h : authZxid answers = some z) :
    ∃ m ∈ answers, (m.zxid : Int) = z := by
  obtain ⟨n, hlast, rfl⟩ := Option.map_eq_some_iff.mp h
  have hn := (List.mem_filter.mp (List.mem_of_getLast? hlast)).1
  obtain ⟨m, hm, rfl⟩ := List.mem_map.mp hn
  exact ⟨m, hm, rfl⟩

theorem Sound.authenticated (h : s.Sound) (n : Nat) : Sound { s with
    sys := s.sys.post react (.authenticated (authZxid (s.messages.take n)))
    messages := s.messages.drop n } := by
  have hsteps : Steps react s (.authenticated n) _ := .authenticated
  cases hzxid : authZxid (s.messages.take n) with
  | none =>
    rw [hzxid] at hsteps
    exact h.keep hsteps rfl rfl nofun
  | some z =>
    obtain ⟨m, hm, rfl⟩ := authZxid_mem hzxid
    have hmem : m ∈ s.messages := List.mem_of_mem_take hm
    have hle : s.sys.client.lastZxid ≤ m.zxid := h.behind.messages m hmem
    rw [hzxid] at hsteps
    refine ⟨inOrder_step h.inOrder hsteps, Int.natCast_nonneg _, ⟨fun m' hm' => ?_, fun j hj => ?_⟩,
      fun z hz => (h.seen z hz).trans hle, h.order⟩
    · have horder := h.inOrder.messages
      rw [← List.take_append_drop n s.messages, List.map_append, List.pairwise_append] at horder
      exact Int.ofNat_le.mpr (horder.2.2 _ (List.mem_map_of_mem hm) _ (List.mem_map_of_mem hm'))
    · exact Int.ofNat_le.mpr (h.inOrder.server j hj m hmem)

theorem Sound.step (h : s.Sound) (hsteps : Steps react s act s') : s'.Sound := by
  cases hsteps with
  | commit => exact h.keep (show Steps react s _ _ from .commit) rfl rfl nofun
  | apply hlt => exact h.keep (show Steps react s _ _ from .apply hlt) rfl rfl nofun
  | answer hserver => exact h.keep (show Steps react s _ _ from .answer hserver) rfl rfl nofun
  | accept hahead =>
    refine h.keep (.accept hahead) (Sys.connected_lastZxid _ _ _ _) rfl ?_
    rintro _ _ _ _ _ ⟨⟩
    exact hahead
  | @authenticated n => exact h.authenticated n
  | readAside hxid =>
    refine h.keep (.readAside hxid) ((Sys.read_lastZxid _ _ _).trans ?_) rfl nofun
    exact Client.readSocket_lastZxid_aside (hxid.imp_right .inl)
  | readEvent hxid hmessages =>
    refine h.keep (.readEvent hxid hmessages) ((Sys.read_lastZxid _ _ _).trans ?_) rfl nofun
    exact Client.readSocket_lastZxid_aside (.inr (.inr (.inl hxid)))
  | readUnread hmessages hpending =>
    refine h.keep (.readUnread hmessages hpending) ((Sys.read_lastZxid _ _ _).trans ?_) rfl nofun
    exact Client.readSocket_lastZxid_aside (.inr (.inr (.inr hpending)))
  | @readAnswer header buffer offset zxid rest hping hauth hwatch hzxid hmessages hpending =>
    have hle : s.sys.client.lastZxid ≤ zxid :=
      h.behind.messages (.answer zxid) (by rw [hmessages]; exact List.mem_cons_self)
    have hnonneg := h.nonneg
    have hlast : (s.sys.post react (.read header buffer offset)).client.lastZxid = zxid := by
      rw [Sys.read_lastZxid, Client.readSocket_lastZxid hping hauth hwatch hpending, hzxid]
      split <;> omega
    have hsteps : Steps react s (.read header buffer offset) _ :=
      .readAnswer hping hauth hwatch hzxid hmessages hpending
    refine ⟨inOrder_step h.inOrder hsteps, ?_, ?_, fun z hz => ?_, ?_⟩
    · rw [hlast]
      exact Int.natCast_nonneg _
    · rw [hlast]
      exact behind_read (m := .answer zxid) h.inOrder hmessages rfl rfl rfl
    · rw [hlast]
      obtain rfl | hz := List.mem_cons.mp hz
      · exact Int.le_refl _
      · exact (h.seen z hz).trans hle
    · exact List.pairwise_cons.mpr ⟨fun z hz => Int.ofNat_le.mp ((h.seen z hz).trans hle), h.order⟩
  | @client act halone =>
    have hlast : (s.sys.post react act).client.lastZxid =
        if s.sys.resets act then 0 else s.sys.client.lastZxid := Sys.alone_lastZxid halone
    have hsteps : Steps react s (.client act) _ := .client halone
    cases hresets : s.sys.resets act with
    | true =>
      rw [hresets, if_pos rfl] at hlast
      rw [hresets] at hsteps
      have hzero : Behind 0 s := ⟨fun _ _ => Int.natCast_nonneg _, fun _ _ => Int.natCast_nonneg _⟩
      have hbehind := behind_step hzero hsteps nofun
      rw [← hlast] at hbehind
      exact ⟨inOrder_step h.inOrder hsteps, Int.le_of_eq hlast.symm, hbehind, fun _ hz => (by cases hz), .nil⟩
    | false =>
      rw [hresets] at hlast hsteps
      exact h.keep hsteps hlast rfl nofun

theorem post_of_enabled (hen : (systemImage react chroot).enabled s act) :
    s.step react act = some ((systemImage react chroot).post s act) := by
  obtain ⟨s', hs'⟩ := Option.isSome_iff_exists.mp hen
  show s.step react act = some ((s.step react act).getD s)
  rw [hs', Option.getD_some]

theorem sound_of_reachable (hr : (systemImage react chroot).Reachable s) : s.Sound := by
  refine hr.invariant (P := Sound) ?_ fun s act _ h hen _ => h.step (steps_of_step (post_of_enabled hen))
  exact ⟨⟨.nil, fun _ _ _ hm => (by cases hm), fun _ => rfl⟩, Int.le_refl 0,
    ⟨fun _ hm => (by cases hm), fun _ hj => (by cases hj)⟩, fun _ hz => (by cases hz), .nil⟩

/-- As long as the session goes on, the answers that the client reads follow the order of the transactions,
whichever servers they come from, and the server it is connected to has all that it has seen. -/
theorem system_image (hr : (systemImage react chroot).Reachable s) :
    s.seen.Pairwise (· ≥ ·) ∧ ∀ j ∈ s.server, ∀ z ∈ s.seen, z ≤ s.applied j := by
  have h := sound_of_reachable hr
  exact ⟨h.order, fun j hj z hz => Int.ofNat_le.mp ((h.seen z hz).trans (h.behind.server j hj))⟩

/-! ## Events -/

/-- The server that takes the client up has all that the client knows, also by watch events. -/
def Fresh (s : Image ν) : ImageAct ν → Prop
  | .accept j .. => ∀ z ∈ s.known, z ≤ s.applied j
  | _ => True

instance (s : Image ν) (act : ImageAct ν) : Decidable (Fresh s act) :=
  match act with
  | .accept j .. => inferInstanceAs (Decidable (∀ z ∈ s.known, z ≤ s.applied j))
  | .commit | .apply .. | .answer | .authenticated _ | .read .. | .client _ =>
    inferInstanceAs (Decidable True)

/-- What the client has read, events included. -/
structure Told (s : Image ν) : Prop where
  order : s.known.Pairwise (· ≥ ·)
  behind : ∀ z ∈ s.known, Behind z s

omit [DecidableEq ν] in
theorem Told.learn (h : s.Told) (hinOrder : s.InOrder)
    (hkeep : ∀ z ∈ s.known, Behind z s') {m : ServerMessage} {rest : List ServerMessage}
    (hmessages : s.messages = m :: rest) (hrest : s'.messages = rest) (hserver : s'.server = s.server)
    (happlied : s'.applied = s.applied) (hknown : s'.known = m.zxid :: s.known) : s'.Told := by
  have hhead : ∀ z ∈ s.known, z ≤ m.zxid := fun z hz =>
    Int.ofNat_le.mp ((h.behind z hz).messages m (by rw [hmessages]; exact List.mem_cons_self))
  constructor
  · rw [hknown]
    exact List.pairwise_cons.mpr ⟨hhead, h.order⟩
  · intro z hz
    rw [hknown] at hz
    obtain rfl | hz := List.mem_cons.mp hz
    · exact behind_read hinOrder hmessages hrest hserver happlied
    · exact hkeep z hz

theorem Told.step (h : s.Told) (hinOrder : s.InOrder) (hsteps : Steps react s act s')
    (hfresh : Fresh s act) : s'.Told := by
  have hkeep : ∀ z ∈ s.known, Behind z s' := fun z hz => by
    apply behind_step (h.behind z hz) hsteps
    rintro j _ _ _ _ rfl
    exact Int.ofNat_le.mpr (hfresh z hz)
  cases hsteps with
  | commit | apply | answer | accept | authenticated | readAside | readUnread => exact ⟨h.order, hkeep⟩
  | readEvent hxid hmessages =>
    exact h.learn hinOrder hkeep hmessages rfl rfl rfl rfl
  | readAnswer hping hauth hwatch hzxid hmessages hpending =>
    exact h.learn hinOrder hkeep hmessages rfl rfl rfl rfl
  | @client act halone =>
    cases hresets : s.sys.resets act with
    | true => exact ⟨.nil, fun _ hz => by cases hz⟩
    | false =>
      rw [hresets] at hkeep
      exact ⟨h.order, hkeep⟩

/-- Where each server that takes the client up has all that the client knows, the events follow the order
of the transactions together with the answers. -/
theorem system_image_events (hr : (systemImage react chroot).Reach Fresh s) : s.known.Pairwise (· ≥ ·) := by
  have htold : s.Told := by
    refine hr.invariant (P := Told) ⟨.nil, fun _ hz => by cases hz⟩ fun s act hreach h hen hfresh => ?_
    exact h.step (sound_of_reachable (hreach.mono fun _ _ _ => trivial)).inOrder
      (steps_of_step (post_of_enabled hen)) hfresh
  exact htold.order

/-! ## Two servers -/

/-- The client is started, and server `j` takes it up. -/
def connecting (j : Bool) : List (ImageAct Bool) :=
  [.client .startAsync, .client .begin, .client .attempt, .client .dial, .accept j false 1 0 [],
    .authenticated 0]

/-- The connection is lost, and server `j` takes the client up. -/
def reconnecting (j : Bool) : List (ImageAct Bool) :=
  [.client (.raise .connectionDropped), .client .notify, .client .finish, .client .attempt, .client .dial,
    .accept j false 1 0 [], .authenticated 0]

/-- A request that is answered at transaction `zxid`. -/
def asking (a : AsyncId) (zxid : Nat) : List (ImageAct Bool) :=
  (Sys.calling (.exists (str "/a") none) a ++ Sys.sending).map .client ++
    [.answer, .read ⟨1, zxid, -101⟩ [] 0]

/-- There are two transactions; server `true` has applied both, and server `false` the first. -/
def twoTransactions : List (ImageAct Bool) :=
  [.commit, .commit, .apply true false, .apply true false, .apply false false]

/-- The client reads the second transaction from server `true`, and asks server `false` when it has
caught up. -/
def caughtUp : Image Bool :=
  (systemImage .quiet []).exec (.new [])
    (twoTransactions ++ connecting true ++ asking 0 2 ++ [.apply false false] ++ reconnecting false ++
      asking 1 2)

theorem reachable_caughtUp : (systemImage .quiet []).Reachable caughtUp := .of_legal (by decide +kernel)

theorem system_image_caughtUp : caughtUp.seen = [2, 2] ∧ caughtUp.seen.Pairwise (· ≥ ·) :=
  ⟨by decide +kernel, (system_image reachable_caughtUp).1⟩

/-- The client has read the first transaction, and is told of the second by server `true`. -/
def told : List (ImageAct Bool) :=
  [.commit, .apply true false, .apply false false] ++ connecting true ++ asking 0 1 ++
    [.commit, .apply true true,
      .read ⟨WATCH_XID, -1, 0⟩ [0, 0, 0, 3, 0, 0, 0, 3, 0, 0, 0, 2, 47, 97] 0]

theorem system_image_events_caughtUp :
    ((systemImage .quiet []).exec (Image.new (ν := Bool) [])
      (told ++ [.apply false false] ++ reconnecting false ++ asking 1 2)).known.Pairwise (· ≥ ·) :=
  system_image_events (.of_legal (by decide +kernel))

/-- Server `false`, which has not applied the second transaction, takes the client up: `last_zxid` knows
nothing of the event. -/
theorem events_out_of_order :
    ((systemImage .quiet []).exec (Image.new (ν := Bool) [])
      (told ++ reconnecting false ++ asking 1 1)).known = [1, 2, 1] ∧
    (systemImage .quiet []).Legal Machine.Free (Image.new (ν := Bool) [])
      (told ++ reconnecting false ++ asking 1 1) := by
  decide +kernel

end Image

end Kazoo
