import Kazoo.Ledger

/-!
# Wake-ups — the bytes that tell the connection thread of queued requests

`_call` and `stop` append to `_queue` and then send a byte, `_send_request` pops `_queue` and then
receives one, session callbacks empty `_queue` and leave the bytes.  The books are kept with the
calls that have appended and not yet sent.
-/

namespace Kazoo

/-- The byte that the connection thread is about to receive without a request for it in
`_queue`. -/
def Routine.owed : Routine → Nat
  | .popped _ | .clearing => 1
  | _ => 0

/-- Outside the part of `zk_loop` that runs with `connection_stopped` clear. -/
def Routine.Outside : Routine → Prop
  | .absent | .spawned | .finished | .notifying _ .exit | .finishing _ .exit => True
  | _ => False

theorem Routine.owed_of_leaving {r : Routine} (h : r.Leaving) : r.owed = 0 := by
  cases r <;> first | rfl | exact h.elim

theorem After.owed_resume (after : After) : after.resume.owed = 0 := by cases after <;> rfl

namespace Sys

variable {react : Listeners} {chroot : PyStr} {s : Sys}

/-- The unread bytes of the wake-up socket pair. -/
def unread (s : Sys) : Nat := s.sockets.getD 0

/-- The wake-up sends succeed, and `close` finds no request in `_queue` whose byte it would throw
away. -/
def KeepsBytes (s : Sys) : Act → Prop
  | .callSend _ ok | .stopSend ok => ok = true ∧ s.sockets.isSome
  | .close => s.client.queue.length ≤ s.appended.length + s.closing
  | _ => True

instance (s : Sys) : (act : Act) → Decidable (s.KeepsBytes act)
  | .callSend _ _ | .stopSend _ => inferInstanceAs (Decidable (_ ∧ _))
  | .close => inferInstanceAs (Decidable (_ ≤ _))
  | .callCheck _ _ | .callAppend _ | .stopEnter | .stopMark | .stopAppend | .safeClose | .startAsync
  | .begin | .unresolved | .attempt | .dial | .connected _ _ _ _ | .authenticated _ | .raise _
  | .read _ _ _ | .ping | .submit _ | .popleft | .recv _ | .pend | .clear _ | .notify | .finish
  | .giveUp | .exit => inferInstanceAs (Decidable True)

structure Awake (s : Sys) : Prop where
  bytes : s.client.queue.length + s.routine.owed ≤ s.unread + s.appended.length + s.closing
  closed : s.connectionClosed = true → s.sockets = none
  stopped : s.connectionStopped = true → s.routine.Outside

namespace Awake

/-- The connection thread goes on to a place where it owes no byte, and nobody appends or sends. -/
theorem goOn {s' : Sys} (hs : s.Awake) (hqueue : s'.client.queue.length ≤ s.client.queue.length)
    (hsockets : s'.sockets = s.sockets) (happended : s'.appended = s.appended)
    (hclosing : s'.closing = s.closing) (howed : s'.routine.owed = 0)
    (hclosed : s'.connectionClosed = s.connectionClosed)
    (hstopped : s'.connectionStopped = true → s'.routine.Outside) : s'.Awake where
  bytes := by
    have h := hs.bytes
    rw [howed, unread, hsockets, happended, hclosing]
    unfold unread at h
    omega
  closed h := by rw [hsockets]; exact hs.closed (hclosed ▸ h)
  stopped := hstopped

/-- The connection thread is inside `zk_loop`. -/
theorem inside (hs : s.Awake) (hr : ¬ s.routine.Outside) : s.connectionStopped ≠ true :=
  fun h => hr (hs.stopped h)

theorem callback (hs : s.Awake) (hin : s.connectionStopped ≠ true) (st : KeeperState)
    (after : After) : (s.callback react st after).Awake := by
  obtain ⟨kz, live, ls, ns, r, h, hr⟩ := callback_frame react st after s
  rw [h]
  refine hs.goOn (Nat.le_refl _) rfl rfl rfl ?_ rfl fun h => absurd h hin
  rcases hr with ⟨rfl, -⟩ | ⟨rfl, -⟩
  · rfl
  · exact After.owed_resume after

theorem raised (hs : s.Awake) (hin : s.connectionStopped ≠ true) (e : Exn) :
    (s.raised react e).Awake := by
  obtain ⟨st, kz, live, ls, ns, r, h, hr⟩ := raised_frame react e s
  rw [h]
  exact hs.goOn (Nat.le_refl _) rfl rfl rfl (Routine.owed_of_leaving hr) rfl
    fun h => absurd h hin

theorem take (hs : s.Awake) (hr : s.routine = .serving) (header : ReplyHeader) (buffer : Bytes)
    (offset : Nat) : (s.take header buffer offset).Awake := by
  have hin : s.connectionStopped ≠ true := hs.inside (by rw [hr]; exact id)
  have hqueue : (s.client.readSocket header buffer offset).1.queue = s.client.queue := by
    obtain ⟨-, data, child, sent, h⟩ | ⟨e, rest, -, -, -, zxid, data, child, ks, -, h⟩ :=
      s.client.readSocket_spec header buffer offset <;>
    · rw [h]
  refine hs.goOn ?_ rfl rfl rfl ?_ rfl fun h => absurd h hin
  · exact Nat.le_of_eq (congrArg List.length hqueue)
  · rw [show (s.take header buffer offset).routine = .serving from hr]; rfl

theorem length_eraseIdx_lt {es : List Entry} {i : Nat} {e : Entry} (h : es[i]? = some e) :
    (es.eraseIdx i).length + 1 = es.length := by
  obtain ⟨hi, -⟩ := List.getElem?_eq_some_iff.mp h
  rw [List.length_eraseIdx_of_lt hi]
  omega

/-- A byte is sent that was still to be sent. -/
theorem sent {s' : Sys} (hs : s.Awake) (hsome : s.sockets.isSome = true)
    (hsockets : s'.sockets = s.sockets.map (· + 1))
    (hlength : s'.appended.length + s'.closing + 1 = s.appended.length + s.closing)
    (hqueue : s'.client.queue = s.client.queue) (hroutine : s'.routine = s.routine)
    (hclosed : s'.connectionClosed = s.connectionClosed)
    (hstopped : s'.connectionStopped = s.connectionStopped) : s'.Awake where
  bytes := by
    obtain ⟨n, hn⟩ := Option.isSome_iff_exists.mp hsome
    have hbytes := hs.bytes
    rw [hn] at hsockets
    simp only [unread, hn, hsockets, hqueue, hroutine, Option.map_some, Option.getD_some] at hbytes ⊢
    omega
  closed h := by
    rw [hs.closed (hclosed ▸ h)] at hsome
    cases hsome
  stopped h := by
    rw [hroutine]
    exact hs.stopped (hstopped ▸ h)

/-- The connection thread receives the byte that it owes. -/
theorem received (hs : s.Awake) (hin : s.connectionStopped ≠ true) (howes : s.routine.owed = 1)
    (hread : 0 < s.unread) {r : Routine} (hr : r.owed = 0) :
    ({ s with sockets := s.sockets.map (· - 1), routine := r } : Sys).Awake where
  bytes := by
    have hbytes := hs.bytes
    cases hsock : s.sockets with
    | none => simp [unread, hsock] at hread
    | some n =>
      simp only [unread, hsock, howes, hr, Option.map_some, Option.getD_some] at hbytes hread ⊢
      omega
  closed h := by
    have hnone := hs.closed h
    simp [hnone]
  stopped h := absurd h hin

theorem submitted (hs : s.Awake) (hr : s.routine = .serving) (hread : 0 < s.unread)
    (err : Option Exn) : (s.submit react err).Awake := by
  have hin := hs.inside (by rw [hr]; exact id)
  obtain ⟨hnil, h⟩ | ⟨xid, e, h⟩ | ⟨_, _, _, _, -, -, h⟩ := submit_cases react err s
  · rw [h]
    refine ⟨?_, hs.closed, fun h => absurd h hin⟩
    -- the queue is empty, and there is a byte to receive
    simp only [unread, hnil, List.length_nil, Routine.owed] at hread ⊢
    omega
  · rw [h]
    refine raised (s := { s with xid := xid }) ?_ hin e
    exact ⟨hs.bytes, hs.closed, hs.stopped⟩
  · rw [h]
    exact hs.goOn (Nat.le_refl _) rfl rfl rfl rfl rfl fun h => absurd h hin

/-- Every step that keeps the bytes keeps the books. -/
theorem post (hc : s.Coherent) (hs : s.Awake) {act : Act} (hen : s.enabled act)
    (hok : s.KeepsBytes act) : (s.post react act).Awake := by
  have hbytes := hs.bytes
  cases act with
  | callCheck item a =>
    simp only [Sys.post, callCheck]
    split
    · rw [Client.complete_eq]; exact ⟨hs.bytes, hs.closed, hs.stopped⟩
    · exact ⟨hs.bytes, hs.closed, hs.stopped⟩
  | callAppend i =>
    simp only [Sys.post, callAppend]
    split
    · exact hs
    · refine ⟨?_, hs.closed, hs.stopped⟩
      simp only [unread, List.length_append, List.length_singleton] at hbytes ⊢
      omega
  | callSend i ok =>
    cases h : s.appended[i]? with
    | none => simpa only [Sys.post, callSend, h] using hs
    | some e =>
      have hok : ok = true ∧ s.sockets.isSome = true := hok
      -- the call has sent the byte it owed
      have hlength := length_eraseIdx_lt h
      simp only [Sys.post, callSend, h, if_pos hok]
      refine hs.sent hok.2 rfl ?_ rfl rfl rfl rfl
      dsimp only
      omega
  | stopEnter | stopMark | ping | unresolved => exact ⟨hs.bytes, hs.closed, hs.stopped⟩
  | stopAppend =>
    refine ⟨?_, hs.closed, hs.stopped⟩
    simp only [Sys.post, stopAppend, unread, List.length_append, List.length_singleton] at hbytes ⊢
    omega
  | stopSend ok =>
    obtain ⟨rfl, hsome⟩ := hok
    have hclosing : 0 < s.closing := hen
    refine hs.sent hsome rfl ?_ rfl rfl rfl rfl
    simp only [Sys.post, stopSend]
    omega
  | safeClose =>
    exact hs.goOn (Nat.le_refl _) rfl rfl rfl rfl rfl fun _ => trivial
  | startAsync =>
    have howed : s.routine.owed = 0 := by rcases hen.2.2 with h | h <;> rw [h] <;> rfl
    refine ⟨?_, fun h => ?_, fun _ => trivial⟩
    · rw [howed] at hbytes
      simp only [Sys.post, startAsync, unread, Routine.owed] at hbytes ⊢
      -- a closed pair is replaced by an empty one, an open pair is kept
      split
      · next hclosed =>
        rw [hs.closed hclosed] at hbytes
        exact hbytes
      · exact hbytes
    · cases h
  | close =>
    have howed : s.routine.owed = 0 := by
      have hout := hs.stopped hen
      revert hout
      cases s.routine <;> simp [Routine.Outside, Routine.owed]
    -- the bytes are thrown away, and those of the queue are still to be sent
    refine ⟨?_, fun _ => rfl, hs.stopped⟩
    have hlength : s.client.queue.length ≤ s.appended.length + s.closing := hok
    simp only [Sys.post, Sys.close, unread, howed, Option.getD_none]
    omega
  | begin => exact hs.goOn (Nat.le_refl _) rfl rfl rfl rfl rfl fun h => by cases h
  | dial | giveUp =>
    have hin := hs.inside (by rw [hen]; exact id)
    exact hs.goOn (Nat.le_refl _) rfl rfl rfl rfl rfl fun h => absurd h hin
  | authenticated zxid =>
    have hin := hs.inside (by rw [hen]; exact id)
    cases zxid <;> exact hs.goOn (Nat.le_refl _) rfl rfl rfl rfl rfl fun h => absurd h hin
  | attempt =>
    have hin := hs.inside (by rw [hen.1]; exact id)
    simp only [Sys.post, attempt]
    split
    · exact hs.callback hin _ _
    · exact hs.goOn (Nat.le_refl _) rfl rfl rfl rfl rfl fun h => absurd h hin
  | connected readOnly sessionId protocolVersion passwd =>
    have hin := hs.inside (by rw [hen]; exact id)
    refine callback ?_ ?_ _ _
    · exact ⟨hs.bytes, hs.closed, hs.stopped⟩
    · exact hin
  | raise e =>
    have hin := hs.inside (by rcases hen with h | h | h <;> rw [h] <;> exact id)
    exact hs.raised hin e
  | read header buffer offset =>
    have hin : (s.take header buffer offset).connectionStopped ≠ true :=
      hs.inside (by rw [hen]; exact id)
    have htake := hs.take hen header buffer offset
    simp only [Sys.post, read]
    split
    · exact htake
    · exact htake.callback hin _ _
    · exact htake.callback hin _ _
    · exact htake.raised hin _
  | submit err => exact hs.submitted hen.1 hen.2 err
  | popleft =>
    obtain ⟨e, hr⟩ := hen
    have hin := hs.inside (by rw [hr]; exact id)
    obtain ⟨rest, hqueue⟩ := hc.submitted e hr
    simp only [Sys.post, popleft, hr]
    -- the request is gone from the queue, its byte is owed now
    refine ⟨?_, hs.closed, fun h => absurd h hin⟩
    simp only [unread, hqueue, List.length_cons, List.tail_cons, Routine.owed] at hbytes ⊢
    omega
  | recv err =>
    obtain ⟨⟨e, hr⟩, hread⟩ := hen
    have hin := hs.inside (by rw [hr]; exact id)
    cases err with
    | none =>
      have hread : 0 < s.unread := hread.resolve_left (by simp)
      simp only [Sys.post, recv, hr]
      exact hs.received hin (by rw [hr]; rfl) hread rfl
    | some exc => exact hs.raised hin exc
  | pend =>
    obtain ⟨e, hr⟩ := hen
    have hin := hs.inside (by rw [hr]; exact id)
    simp only [Sys.post, pend, hr]
    exact hs.goOn (Nat.le_refl _) rfl rfl rfl rfl rfl fun h => absurd h hin
  | clear err =>
    obtain ⟨hr, hread⟩ := hen
    have hin := hs.inside (by rw [hr]; exact id)
    simp only [Sys.post, clear]
    split
    · have hread : 0 < s.unread := hread.resolve_left (by simp)
      exact hs.received hin (by rw [hr]; rfl) hread rfl
    · exact hs.goOn (Nat.le_refl _) rfl rfl rfl rfl rfl fun h => absurd h hin
    · exact hs.raised hin _
  | notify =>
    obtain ⟨st, after, hr⟩ := hen
    simp only [Sys.post, notify, hr, Client.notifyPending_eq]
    -- the queue is emptied, and its bytes stay
    refine hs.goOn (Nat.zero_le _) rfl rfl rfl rfl rfl fun h => ?_
    have hout := hs.stopped h
    rw [hr] at hout
    cases after <;> exact hout
  | finish =>
    obtain ⟨st, after, hr⟩ := hen
    simp only [Sys.post, finish, hr]
    refine hs.goOn ?_ rfl rfl rfl (After.owed_resume after) rfl fun h => ?_
    · rw [Client.callbackEnd_queue]
      split
      · exact Nat.zero_le _
      · exact Nat.le_refl _
    · have hout := hs.stopped h
      rw [hr] at hout
      revert hout
      cases after <;> exact id
  | exit =>
    obtain ⟨kz, live, ls, ns, r, h, hr⟩ := callback_frame react .CLOSED .exit
      { s with connectionStopped := true }
    simp only [Sys.post, exit, h]
    rcases hr with ⟨rfl, -⟩ | ⟨rfl, -⟩
    · exact hs.goOn (Nat.le_refl _) rfl rfl rfl rfl rfl fun _ => trivial
    · exact hs.goOn (Nat.le_refl _) rfl rfl rfl rfl rfl fun _ => trivial

end Awake

theorem awake_of_reach (h : (system react chroot).Reach KeepsBytes s) : s.Awake :=
  h.invariant ⟨Nat.le_refl _, fun _ => rfl, fun _ => trivial⟩ fun _ _ hr hs hen hok =>
    Awake.post (coherent_of_reach hr) hs hen hok

/-- Every queued request has its byte in the socket pair, or in a call that is about to send it. -/
def NoLostWakeUp (s : Sys) : Prop :=
  s.client.queue.length ≤ s.unread + (s.appended.length + s.closing)

/-- In a run in which no byte is lost on the way into the socket pair or with it, no wake-up is
lost. -/
theorem no_lost_wake_up (h : (system react chroot).Reach KeepsBytes s) : s.NoLostWakeUp := by
  have hbytes := (awake_of_reach h).bytes
  unfold NoLostWakeUp
  omega

/-- A request is queued, its byte is sent, and another one is queued. -/
theorem noLostWakeUp_called :
    (run (connecting ++ calling (.exists (str "/a") none) 0 ++
      [.callCheck (.request (.exists (str "/b") none)) 1, .callAppend 0])).NoLostWakeUp :=
  no_lost_wake_up (reach_run (by decide +kernel))

/-- `_call` has appended its request, and not yet sent the byte. -/
def betweenAppendAndSend : List Act :=
  connecting ++ [.callCheck (.request (.exists (str "/a") none)) 0, .callAppend 0]

theorem append_precedes_byte :
    ¬ ∀ (react : Listeners) (chroot : PyStr) (s : Sys), (system react chroot).Reachable s →
      s.routine = .serving → s.client.queue.length ≤ s.unread := by
  intro h
  have hreach : (system .quiet []).Reachable (run betweenAppendAndSend) :=
    reach_run (by decide +kernel)
  have hbytes := h .quiet [] _ hreach (by decide +kernel)
  revert hbytes
  decide +kernel

end Sys

end Kazoo
