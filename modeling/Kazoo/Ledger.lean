import Kazoo.System

/-!
# Ledger — where the requests of `_call` are

An async result that `_call` has accepted is held (its request is in `_queue`, in `_pending`, or in
the hand of `_send_request`) or completed.  Every step of the system is entered in this ledger: what
it drops, what it brings in, and nothing else.
-/

namespace Kazoo

/-- The request `_send_request` has popped from `_queue` and not yet appended to `_pending`. -/
def Routine.inHand : Routine → List PendingEntry
  | .popped e | .received e => [e]
  | _ => []

/-- Neither in `_send_request`, past `_submit`, nor in `_session_callback`, past
`_notify_pending`. -/
def Routine.EmptyHanded : Routine → Prop
  | .submitted _ | .popped _ | .received _ | .finishing _ _ => False
  | _ => True

namespace Routine

theorem EmptyHanded.inHand {r : Routine} (h : r.EmptyHanded) : r.inHand = [] := by
  cases r <;> first | rfl | exact h.elim

theorem Leaving.emptyHanded {r : Routine} (h : r.Leaving) : r.EmptyHanded := by
  cases r <;> trivial

theorem emptyHanded_resume (after : After) : after.resume.EmptyHanded := by
  cases after <;> trivial

end Routine

namespace Sys

/-! ## What the deques and the connection thread agree on -/

structure Coherent (s : Sys) : Prop where
  -- what `_send_request` is writing is the head of `_queue`
  submitted : ∀ e, s.routine = .submitted e →
    ∃ rest, s.client.queue = ⟨.request e.request, e.asyncObject⟩ :: rest
  -- only the connection thread appends to `_pending`
  finishing : ∀ st after, s.routine = .finishing st after → s.client.pending = []
  checkedOpen : ∀ e ∈ s.checked, e.item ≠ .request .close
  -- nobody waits for a `Close`
  queueClose : ∀ e ∈ s.client.queue, e.item = .request .close → e.asyncObject = none
  pendingClose : ∀ e ∈ s.routine.inHand ++ s.client.pending,
    e.request = .close → e.asyncObject = none

namespace Coherent

variable {react : Listeners} {s : Sys}

/-- The deques are left alone, and the connection thread is at a place where it holds nothing. -/
theorem elsewhere {s' : Sys} (hs : s.Coherent) (hqueue : s'.client.queue = s.client.queue)
    (hpending : s'.client.pending = s.client.pending) (hchecked : s'.checked = s.checked)
    (hr : s'.routine.EmptyHanded) : s'.Coherent where
  submitted e h := by rw [h] at hr; cases hr
  finishing st after h := by rw [h] at hr; cases hr
  checkedOpen := hchecked ▸ hs.checkedOpen
  queueClose := hqueue ▸ hs.queueClose
  pendingClose e he := by
    rw [hr.inHand, hpending] at he
    exact hs.pendingClose e (List.mem_append_right _ he)

theorem callback (hs : s.Coherent) (st : KeeperState) (after : After) :
    (s.callback react st after).Coherent := by
  obtain ⟨kz, live, ls, ns, r, h, hr⟩ := callback_frame react st after s
  rw [h]
  refine hs.elsewhere rfl rfl rfl ?_
  rcases hr with ⟨rfl, -⟩ | ⟨rfl, -⟩
  · trivial
  · exact Routine.emptyHanded_resume after

theorem raised (hs : s.Coherent) (e : Exn) : (s.raised react e).Coherent := by
  obtain ⟨st, kz, live, ls, ns, r, h, hr⟩ := raised_frame react e s
  rw [h]
  exact hs.elsewhere rfl rfl rfl hr.emptyHanded

theorem take (hs : s.Coherent) (hr : s.routine = .serving) (header : ReplyHeader) (buffer : Bytes)
    (offset : Nat) : (s.take header buffer offset).Coherent := by
  have hhand : s.routine.inHand = [] := by rw [hr]; rfl
  have hmem := hs.pendingClose
  rw [hhand, List.nil_append] at hmem
  refine ⟨?_, ?_, hs.checkedOpen, ?_, ?_⟩
  · intro e h; rw [Sys.take, hr] at h; cases h
  · intro st after h; rw [Sys.take, hr] at h; cases h
  · unfold Sys.take
    obtain ⟨-, data, child, sent, h⟩ | ⟨e, rest, -, -, -, zxid, data, child, ks, -, h⟩ :=
      s.client.readSocket_spec header buffer offset <;>
    · rw [h]; exact hs.queueClose
  · unfold Sys.take
    obtain ⟨-, data, child, sent, h⟩ | ⟨e, rest, hcons, -, -, zxid, data, child, ks, -, h⟩ :=
      s.client.readSocket_spec header buffer offset
    · rw [h, hhand]; exact hmem
    · rw [h, hhand]
      rw [hcons] at hmem
      exact fun e he => hmem e (List.mem_cons_of_mem _ he)

/-- Every step keeps the deques coherent. -/
theorem post (hs : s.Coherent) {act : Act} (hen : s.enabled act) :
    (s.post react act).Coherent := by
  cases act with
  | callCheck item a =>
    simp only [Sys.post, Sys.callCheck]
    split
    · exact ⟨hs.submitted, hs.finishing, hs.checkedOpen, hs.queueClose, hs.pendingClose⟩
    · refine ⟨hs.submitted, hs.finishing, ?_, hs.queueClose, hs.pendingClose⟩
      intro e he
      rcases List.mem_append.mp he with he | he
      · exact hs.checkedOpen e he
      · rw [List.mem_singleton.mp he]; exact hen.1
  | callAppend i =>
    simp only [Sys.post, Sys.callAppend]
    split
    · exact hs
    · next e hi =>
      -- `_call` is never handed a `Close`, so the new entry adds none
      have hopen : e.item ≠ .request .close := hs.checkedOpen e (List.mem_of_getElem? hi)
      refine ⟨?_, hs.finishing, ?_, ?_, hs.pendingClose⟩
      · intro e' h
        obtain ⟨rest, hrest⟩ := hs.submitted e' h
        exact ⟨rest ++ [e], by simp only [hrest, List.cons_append]⟩
      · exact fun e' he' => hs.checkedOpen e' (List.mem_of_mem_eraseIdx he')
      · intro e' he' hclose
        rcases List.mem_append.mp he' with he' | he'
        · exact hs.queueClose e' he' hclose
        · exact absurd (List.mem_singleton.mp he' ▸ hclose) hopen
  | callSend i ok =>
    simp only [Sys.post, Sys.callSend]
    split
    · exact hs
    · split
      · exact ⟨hs.submitted, hs.finishing, hs.checkedOpen, hs.queueClose, hs.pendingClose⟩
      · rw [Client.complete_eq]
        exact ⟨hs.submitted, hs.finishing, hs.checkedOpen, hs.queueClose, hs.pendingClose⟩
  -- the head of the queue is the same with a `Close` behind it
  | stopAppend =>
    refine ⟨?_, hs.finishing, hs.checkedOpen, ?_, hs.pendingClose⟩
    · intro e h
      obtain ⟨rest, hrest⟩ := hs.submitted e h
      exact ⟨rest ++ [closeEntry], by simp only [Sys.post, Sys.stopAppend, hrest, List.cons_append]⟩
    · intro e he hclose
      rcases List.mem_append.mp he with he | he
      · exact hs.queueClose e he hclose
      · rw [List.mem_singleton.mp he]; rfl
  | stopEnter | stopMark | stopSend | close | unresolved | ping =>
    exact ⟨hs.submitted, hs.finishing, hs.checkedOpen, hs.queueClose, hs.pendingClose⟩
  | safeClose | startAsync | begin | dial | giveUp => exact hs.elsewhere rfl rfl rfl trivial
  | authenticated zxid => cases zxid <;> exact hs.elsewhere rfl rfl rfl trivial
  | attempt =>
    simp only [Sys.post, attempt]
    split
    · exact hs.callback _ _
    · exact hs.elsewhere rfl rfl rfl trivial
  | connected readOnly sessionId protocolVersion passwd =>
    refine callback ?_ _ _
    exact ⟨hs.submitted, hs.finishing, hs.checkedOpen, hs.queueClose, hs.pendingClose⟩
  | raise e => exact hs.raised e
  | read header buffer offset =>
    have htake := hs.take hen header buffer offset
    simp only [Sys.post, read]
    split
    · exact htake
    · exact htake.callback _ _
    · exact htake.callback _ _
    · exact htake.raised _
  | submit err =>
    simp only [Sys.post]
    obtain ⟨-, h⟩ | ⟨xid, e, h⟩ |
      ⟨request, asyncObject, rest, bytes, hqueue, -, h⟩ := submit_cases react err s
    · rw [h]; exact hs.elsewhere rfl rfl rfl trivial
    · rw [h]
      refine raised ?_ e
      exact ⟨hs.submitted, hs.finishing, hs.checkedOpen, hs.queueClose, hs.pendingClose⟩
    · rw [h]
      refine ⟨?_, ?_, hs.checkedOpen, hs.queueClose, ?_⟩
      · intro e he; cases he; exact ⟨rest, hqueue⟩
      · intro st after h; cases h
      · exact fun e he => hs.pendingClose e (List.mem_append_right _ he)
  | popleft =>
    obtain ⟨e, hr⟩ := hen
    -- what was written and what is popped are the same entry
    obtain ⟨rest, hqueue⟩ := hs.submitted e hr
    simp only [Sys.post, popleft, hr]
    refine ⟨by simp, by simp, hs.checkedOpen, ?_, ?_⟩
    · exact fun e' he' => hs.queueClose e' (List.mem_of_mem_tail he')
    · intro e' he' hclose
      rcases List.mem_cons.mp he' with rfl | he'
      · refine hs.queueClose ⟨.request e'.request, e'.asyncObject⟩ ?_ (by rw [hclose])
        rw [hqueue]; exact List.mem_cons_self
      · exact hs.pendingClose e' (List.mem_append_right _ he') hclose
  | recv err =>
    obtain ⟨⟨e, hr⟩, -⟩ := hen
    cases err with
    | none =>
      simp only [Sys.post, recv, hr]
      refine ⟨by simp, by simp, hs.checkedOpen, hs.queueClose, ?_⟩
      have h := hs.pendingClose
      rw [hr] at h
      exact h
    | some exc => exact hs.raised exc
  | pend =>
    obtain ⟨e, hr⟩ := hen
    simp only [Sys.post, pend, hr]
    refine ⟨by simp, by simp, hs.checkedOpen, hs.queueClose, ?_⟩
    have h := hs.pendingClose
    rw [hr] at h
    intro e' he'
    rcases List.mem_append.mp (show e' ∈ s.client.pending ++ [e] from he') with he' | he'
    · exact h e' (List.mem_cons_of_mem _ he')
    · exact h e' (List.mem_cons.mpr (.inl (List.mem_singleton.mp he')))
  | clear err =>
    simp only [Sys.post, clear]
    split
    · exact hs.elsewhere rfl rfl rfl trivial
    · exact hs.elsewhere rfl rfl rfl trivial
    · exact hs.raised _
  | notify =>
    obtain ⟨st, after, hr⟩ := hen
    simp only [Sys.post, notify, hr, Client.notifyPending_eq]
    -- `_notify_pending` has emptied both deques
    refine ⟨by simp, fun _ _ _ => rfl, hs.checkedOpen, by simp, ?_⟩
    simp [Routine.inHand]
  | finish =>
    obtain ⟨st, after, hr⟩ := hen
    have hempty := Routine.emptyHanded_resume after
    simp only [Sys.post, finish, hr]
    -- `_reset` throws the deques away, in a closed state only
    by_cases hclosed : st ∈ CLOSED_STATES
    · refine ⟨?_, ?_, hs.checkedOpen, ?_, ?_⟩
      · intro e he; rw [show after.resume = _ from he] at hempty; cases hempty
      · intro st' after' he; rw [show after.resume = _ from he] at hempty; cases hempty
      · simp [Client.callbackEnd_queue, hclosed]
      · simp [Client.callbackEnd_pending, hclosed, hempty.inHand]
    · refine hs.elsewhere ?_ ?_ rfl hempty
      · simp [Client.callbackEnd_queue, hclosed]
      · simp [Client.callbackEnd_pending, hclosed]
  | exit =>
    refine callback ?_ _ _
    exact ⟨hs.submitted, hs.finishing, hs.checkedOpen, hs.queueClose, hs.pendingClose⟩

end Coherent

theorem coherent_new (chroot : PyStr) : (Sys.new chroot).Coherent where
  submitted _ h := by cases h
  finishing _ _ _ := rfl
  checkedOpen _ he := absurd he List.not_mem_nil
  queueClose _ he := absurd he List.not_mem_nil
  pendingClose _ he := absurd he List.not_mem_nil

theorem coherent_of_reach {react : Listeners} {chroot : PyStr} {s : Sys} {ok : Sys → Act → Prop}
    (h : (system react chroot).Reach ok s) : s.Coherent :=
  h.invariant (coherent_new chroot) fun _ _ _ hs hen _ => hs.post hen

/-! ## The entries of a step -/

/-- The async results whose requests are in a deque or in the hand of `_send_request`. -/
def held (s : Sys) : List AsyncId :=
  s.routine.inHand.filterMap (·.asyncObject) ++ s.client.waiting

/-- The async results completed so far, each as often as it was completed. -/
def completed (s : Sys) : List AsyncId := s.client.completions.map (·.asyncObject)

/-- In how many places `a` is. -/
def places (s : Sys) (a : AsyncId) : Nat := s.held.count a + s.completed.count a

/-- What `_read_response` pops when `EXCEPTIONS` then raises. -/
def unanswered (c : Client) (header : ReplyHeader) : List AsyncId :=
  match c.pending with
  | [] => []
  | e :: _ =>
    if header.xid ≠ PING_XID ∧ header.xid ≠ WATCH_XID ∧ header.xid ≠ AUTH_XID ∧
        header.xid = e.xid ∧ header.err ∉ exceptionCodes then
      e.asyncObject.toList
    else []

/-- The async results whose requests a step loses. -/
def dropped (s : Sys) : Act → List AsyncId
  | .read header _ _ => unanswered s.client header
  | .recv (some _) => s.routine.inHand.filterMap (·.asyncObject)
  | .finish =>
    match s.routine with
    | .finishing st _ =>
      if st ∈ CLOSED_STATES then s.client.queue.filterMap (·.asyncObject) else []
    | _ => []
  | _ => []

/-- The async results a step of `_call` appends to `_queue` or completes. -/
def broughtIn (s : Sys) : Act → List AsyncId
  | .callCheck _ a => if s.client.callRefusal.isSome then [a] else []
  | .callAppend i =>
    match s.checked[i]? with
    | some e => e.asyncObject.toList
    | none => []
  | .callSend i ok =>
    match s.appended[i]? with
    | some e => if ok = true ∧ s.sockets.isSome then [] else e.asyncObject.toList
    | none => []
  | _ => []

variable {react : Listeners} {s : Sys}

theorem places_eq (s : Sys) (a : AsyncId) :
    s.places a =
      (s.routine.inHand.filterMap (·.asyncObject)).count a +
        (s.client.pending.filterMap (·.asyncObject)).count a +
        (s.client.queue.filterMap (·.asyncObject)).count a + s.completed.count a := by
  simp only [places, held, Client.waiting, List.count_append, Nat.add_assoc]

theorem places_congr {s' : Sys} (a : AsyncId) (hqueue : s'.client.queue = s.client.queue)
    (hpending : s'.client.pending = s.client.pending)
    (hdone : s'.client.completions = s.client.completions)
    (hhand : s'.routine.inHand = s.routine.inHand) : s'.places a = s.places a := by
  unfold places held completed Client.waiting
  rw [hqueue, hpending, hdone, hhand]

theorem places_callback (a : AsyncId) (st : KeeperState) (after : After)
    (hr : s.routine.inHand = []) : (s.callback react st after).places a = s.places a := by
  obtain ⟨kz, live, ls, ns, r, h, hr'⟩ := callback_frame react st after s
  rw [h]
  refine places_congr a rfl rfl rfl ?_
  rw [hr]
  rcases hr' with ⟨rfl, -⟩ | ⟨rfl, -⟩
  · rfl
  · exact (Routine.emptyHanded_resume after).inHand

variable (react) in
theorem places_raised (a : AsyncId) (e : Exn) :
    (s.raised react e).places a + (s.routine.inHand.filterMap (·.asyncObject)).count a =
      s.places a := by
  obtain ⟨st, kz, live, ls, ns, r, h, hr⟩ := raised_frame react e s
  rw [h]
  unfold places held completed turn Client.waiting
  simp only [hr.emptyHanded.inHand, List.filterMap_nil, List.nil_append, List.count_append]
  omega

theorem filterMap_cons_count {α : Type} (f : α → Option AsyncId) (e : α) (es : List α)
    (a : AsyncId) :
    ((e :: es).filterMap f).count a = (f e).toList.count a + (es.filterMap f).count a := by
  cases h : f e <;> simp [h, List.count_cons, Nat.add_comm]

/-- A message completes what it takes from `_pending`, unless its error code is unknown. -/
theorem places_take (hs : s.Coherent) (header : ReplyHeader) (buffer : Bytes) (offset : Nat)
    (a : AsyncId) :
    (s.take header buffer offset).places a + (unanswered s.client header).count a =
      s.places a := by
  unfold places held completed take Client.waiting
  obtain ⟨hnone, data, child, sent, h⟩ |
    ⟨e, rest, hcons, hping, hwatch, zxid, data, child, ks, hks, h⟩ :=
    s.client.readSocket_spec header buffer offset
  -- nothing was popped
  · have hun : unanswered s.client header = [] := by
      unfold unanswered
      rcases hnone with hping | hwatch | hnil
      · split <;> simp [hping]
      · split <;> simp [hwatch]
      · rw [hnil]
    simp only [h, hun, List.count_nil, Nat.add_zero]
  · have hclose : e.request = .close → e.asyncObject = none :=
      hs.pendingClose e (List.mem_append_right _ (hcons ▸ List.mem_cons_self))
    -- the async result of the head is completed, or it is what the ledger calls unanswered
    have hks : ks.map (·.asyncObject) ++ unanswered s.client header = e.asyncObject.toList := by
      unfold unanswered
      rw [hcons]
      dsimp only
      cases hks with
      | anonymous ha => simp [ha]
      | unknownError hauth hxid herr => rw [if_pos ⟨hping, hwatch, hauth, hxid, herr⟩]; rfl
      | close hc => simp [hclose hc]
      | failed exc ha hcode =>
        rw [if_neg fun hun => hun.2.2.2.2 (hcode hun.2.2.1 hun.2.2.2.1), ha]; rfl
      | reply r ha hxid hcode => rw [if_neg fun hun => hun.2.2.2.2 hcode, ha]; rfl
      | auth ha hauth _ => rw [if_neg fun hun => hun.2.2.1 hauth, ha]; rfl
    have hcount : (ks.map (·.asyncObject)).count a + (unanswered s.client header).count a =
        e.asyncObject.toList.count a := by rw [← hks, List.count_append]
    have hhead : (s.client.pending.filterMap (·.asyncObject)).count a =
        e.asyncObject.toList.count a + (rest.filterMap (·.asyncObject)).count a := by
      rw [hcons, filterMap_cons_count]
    simp only [h, List.count_append, List.map_append, hhead]
    omega

variable (react) in
/-- The ledger: what is in some place after a step was there before or has just been brought in by
`_call`, and nothing else is lost than what the step drops. -/
theorem places_post (hs : s.Coherent) {act : Act} (hen : s.enabled act) (a : AsyncId) :
    (s.post react act).places a + (s.dropped act).count a =
      s.places a + (s.broughtIn act).count a := by
  cases act with
  | callCheck item b =>
    simp only [post, callCheck, dropped, broughtIn]
    split
    · next exc h => simp [places_eq, completed, Client.complete, h, Nat.add_assoc]
    · next h => simp [places_eq, completed, h]
  | callAppend i =>
    cases h : s.checked[i]? with
    | none => simp only [post, callAppend, dropped, broughtIn, h]
    | some e =>
      simp only [post, callAppend, dropped, broughtIn, h, places_eq, completed,
        List.filterMap_append, List.count_append, filterMap_cons_count, List.filterMap_nil,
        List.count_nil]
      omega
  | callSend i ok =>
    cases h : s.appended[i]? with
    | none => simp only [post, callSend, dropped, broughtIn, h]
    | some e =>
      simp only [post, callSend, dropped, broughtIn, h]
      split
      · simp only [places_eq, completed]
      · simp only [places_eq, completed, Client.complete_asyncObjects, List.count_append,
          List.count_nil]
        simp only [Client.complete_eq]
        omega
  | stopAppend => simp [post, stopAppend, places_eq, completed, dropped, broughtIn, closeEntry]
  | stopEnter | stopMark | stopSend | close | unresolved | ping =>
    simp only [dropped, broughtIn, List.count_nil, Nat.add_zero]
    exact places_congr a rfl rfl rfl rfl
  | safeClose | startAsync =>
    simp only [dropped, broughtIn, List.count_nil, Nat.add_zero]
    have hhand : s.routine.inHand = [] := by rcases hen.2.2 with h | h <;> rw [h] <;> rfl
    exact places_congr a rfl rfl rfl hhand.symm
  | begin | dial | giveUp =>
    simp only [dropped, broughtIn, List.count_nil, Nat.add_zero]
    have hhand : s.routine.inHand = [] := by rw [hen]; rfl
    exact places_congr a rfl rfl rfl hhand.symm
  | authenticated zxid =>
    simp only [dropped, broughtIn, List.count_nil, Nat.add_zero]
    have hhand : s.routine.inHand = [] := by rw [hen]; rfl
    cases zxid <;> exact places_congr a rfl rfl rfl hhand.symm
  | attempt =>
    have hhand : s.routine.inHand = [] := by rw [hen.1]; rfl
    simp only [post, attempt, dropped, broughtIn, List.count_nil, Nat.add_zero]
    split
    · exact places_callback a _ _ hhand
    · exact places_congr a rfl rfl rfl hhand.symm
  | connected readOnly sessionId protocolVersion passwd =>
    have hhand : s.routine.inHand = [] := by rw [hen]; rfl
    simp only [post, connected, dropped, broughtIn, List.count_nil, Nat.add_zero]
    refine (places_callback a _ _ ?_).trans (places_congr a rfl rfl rfl rfl)
    exact hhand
  | raise e =>
    have hhand : s.routine.inHand = [] := by rcases hen with h | h | h <;> rw [h] <;> rfl
    have hraised := places_raised react (s := s) a e
    rwa [hhand] at hraised
  | read header buffer offset =>
    have hhand : (s.take header buffer offset).routine.inHand = [] := by
      rw [show (s.take header buffer offset).routine = .serving from hen]; rfl
    have htake := places_take hs header buffer offset a
    have hread : (s.read react header buffer offset).places a =
        (s.take header buffer offset).places a := by
      unfold read
      dsimp only
      split
      · rfl
      · exact places_callback a _ _ hhand
      · exact places_callback a _ _ hhand
      · next e _ =>
        have hraised := places_raised react (s := s.take header buffer offset) a e
        rwa [hhand] at hraised
    simp only [post, dropped, broughtIn, List.count_nil, Nat.add_zero, hread]
    exact htake
  | submit err =>
    have hhand : s.routine.inHand = [] := by rw [hen.1]; rfl
    simp only [post, dropped, broughtIn, List.count_nil, Nat.add_zero]
    obtain ⟨-, h⟩ | ⟨xid, e, h⟩ |
      ⟨request, asyncObject, rest, bytes, -, -, h⟩ := submit_cases react err s
    · rw [h]; exact places_congr a rfl rfl rfl hhand.symm
    · have hraised := places_raised react (s := { s with xid := xid }) a e
      rw [show ({ s with xid := xid } : Sys).routine.inHand = [] from hhand] at hraised
      rw [h]
      exact hraised.trans (places_congr a rfl rfl rfl rfl)
    · rw [h]; exact places_congr a rfl rfl rfl hhand.symm
  | popleft =>
    obtain ⟨e, hr⟩ := hen
    obtain ⟨rest, hqueue⟩ := hs.submitted e hr
    -- from the head of the queue into the hand
    simp only [post, popleft, hr, places_eq, completed, hqueue, List.tail_cons, Routine.inHand,
      dropped, broughtIn, filterMap_cons_count, List.filterMap_nil, List.count_nil]
    omega
  | recv err =>
    obtain ⟨⟨e, hr⟩, -⟩ := hen
    cases err with
    | none => simp only [post, recv, hr, places_eq, completed, Routine.inHand, dropped, broughtIn]
    | some exc => exact places_raised react a exc
  | pend =>
    obtain ⟨e, hr⟩ := hen
    -- from the hand to the end of `_pending`
    simp only [post, pend, hr, places_eq, completed, Routine.inHand, dropped, broughtIn,
      List.filterMap_append, List.count_append, filterMap_cons_count, List.filterMap_nil,
      List.count_nil]
    omega
  | clear err =>
    have hhand : s.routine.inHand = [] := by rw [hen.1]; rfl
    simp only [post, clear, dropped, broughtIn, List.count_nil, Nat.add_zero]
    split
    · exact places_congr a rfl rfl rfl hhand.symm
    · exact places_congr a rfl rfl rfl hhand.symm
    · next e _ =>
      have hraised := places_raised react (s := s) a e
      rwa [hhand] at hraised
  | notify =>
    obtain ⟨st, after, hr⟩ := hen
    -- from the deques to the completed
    simp only [post, notify, hr, places_eq, completed, Client.notifyPending_asyncObjects,
      Routine.inHand, dropped, broughtIn, List.count_append, Client.waiting]
    simp only [Client.notifyPending_eq, List.filterMap_nil, List.count_nil]
    omega
  | finish =>
    obtain ⟨st, after, hr⟩ := hen
    have hpending := hs.finishing st after hr
    have hbefore : (Routine.finishing st after).inHand = [] := rfl
    -- `_pending` is empty since `_notify_pending`; only `_queue` may have been appended to
    simp only [places_eq, hr, hbefore, hpending, dropped, broughtIn]
    simp only [post, finish, hr, completed, (Routine.emptyHanded_resume after).inHand,
      Client.callbackEnd_completions, Client.callbackEnd_queue, Client.callbackEnd_pending,
      hpending]
    split <;> simp [Nat.add_comm]
  | exit =>
    have hhand : s.routine.inHand = [] := by rw [hen]; rfl
    simp only [post, exit, dropped, broughtIn, List.count_nil, Nat.add_zero]
    refine (places_callback a _ _ ?_).trans (places_congr a rfl rfl rfl rfl)
    exact hhand

end Sys

end Kazoo
