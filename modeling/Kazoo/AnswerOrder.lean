import Kazoo.Authentication
import Mathlib.Data.List.Nodup

/-!
# Answers come in order

The requests go from `_queue` over the server connection into `_pending`, and `_read_response` takes them
from its head.  Whatever happens on the way, none overtakes another.
-/

namespace Kazoo

/-- The request that the message is the answer to. -/
def Client.answering (c : Client) (header : ReplyHeader) : Option PendingEntry :=
  match c.pending with
  | [] => none
  | e :: _ =>
    if header.xid ≠ PING_XID ∧ header.xid ≠ AUTH_XID ∧ header.xid ≠ WATCH_XID ∧ header.xid = e.xid then some e
    else none

/-- In `_send_request`, past `_submit`. -/
def Routine.sends : Routine → Bool
  | .submitted _ | .popped _ | .received _ => true
  | _ => false

namespace Routine

theorem unpended_of_not_sends {r : Routine} (h : r.sends = false) : r.unpended = [] := by
  cases r <;> first | rfl | cases h

theorem not_sends_of_leaving {r : Routine} (h : r.Leaving) : r.sends = false := by
  cases r <;> first | rfl | exact h.elim

end Routine

theorem After.resume_not_sends (after : After) : after.resume.sends = false := by
  cases after <;> rfl

namespace Sys

variable {react : Listeners} {chroot : PyStr} {s s' : Sys} {act : Act}

/-- The async results of the requests on their way, those first that are answered first. -/
def onTheWay (s : Sys) : List AsyncId :=
  (s.client.pending ++ s.routine.unpended).filterMap (·.asyncObject) ++
    s.unsent.filterMap (·.asyncObject)

theorem onTheWay_of_not_sends (h : s.routine.sends = false) :
    s.onTheWay = s.client.pending.filterMap (·.asyncObject) ++
      s.client.queue.filterMap (·.asyncObject) := by
  have hunsent : s.unsent = s.client.queue := by
    unfold unsent
    split
    · next e hroutine =>
      rw [hroutine] at h
      cases h
    · rfl
  rw [onTheWay, Routine.unpended_of_not_sends h, List.append_nil, hunsent]

/-- Where `_send_request` does not write it, the request in its hand is the only one that is on neither
deque. -/
theorem deques_sublist (hc : s.Coherent) :
    (s.client.pending.filterMap (·.asyncObject) ++ s.client.queue.filterMap (·.asyncObject)).Sublist
      s.onTheWay := by
  cases hroutine : s.routine with
  | submitted e =>
    obtain ⟨rest, hqueue⟩ := hc.submitted e hroutine
    have heq : s.onTheWay = s.client.pending.filterMap (·.asyncObject) ++
        s.client.queue.filterMap (·.asyncObject) := by
      unfold onTheWay unsent
      rw [hroutine, hqueue]
      cases he : e.asyncObject <;> simp [Routine.unpended, he]
    exact heq ▸ List.Sublist.refl _
  | popped e | received e =>
    unfold onTheWay unsent
    rw [hroutine, List.filterMap_append]
    exact (List.sublist_append_left _ _).append_right _
  | _ => exact onTheWay_of_not_sends (by rw [hroutine]; rfl) ▸ List.Sublist.refl _

/-- No request comes onto a deque, and the connection thread is at a place where it has none in its
hand. -/
theorem onTheWay_moved (hc : s.Coherent) (hr : s'.routine.sends = false)
    (hpending : s'.client.pending.Sublist s.client.pending)
    (hqueue : s'.client.queue.Sublist s.client.queue) : s'.onTheWay.Sublist s.onTheWay := by
  rw [onTheWay_of_not_sends hr]
  exact ((hpending.filterMap _).append (hqueue.filterMap _)).trans (deques_sublist hc)

theorem onTheWay_callback (hc : s.Coherent) (hpending : s'.client.pending.Sublist s.client.pending)
    (hqueue : s'.client.queue.Sublist s.client.queue) (st : KeeperState) (after : After) :
    (s'.callback react st after).onTheWay.Sublist s.onTheWay := by
  obtain ⟨kz, live, ls, ns, r, h, hr⟩ := callback_frame react st after s'
  rw [h]
  refine onTheWay_moved hc ?_ hpending hqueue
  show r.sends = false
  obtain ⟨rfl, -⟩ | ⟨rfl, -⟩ := hr
  · rfl
  · exact After.resume_not_sends after

theorem onTheWay_raised (hc : s.Coherent) (hpending : s'.client.pending.Sublist s.client.pending)
    (hqueue : s'.client.queue.Sublist s.client.queue) (e : Exn) :
    (s'.raised react e).onTheWay.Sublist s.onTheWay := by
  obtain ⟨st, kz, live, ls, ns, r, h, hr⟩ := raised_frame react e s'
  rw [h]
  exact onTheWay_moved hc (Routine.not_sends_of_leaving hr) hpending hqueue

theorem take_pending (header : ReplyHeader) (buffer : Bytes) (offset : Nat) (s : Sys) :
    (s.take header buffer offset).client.pending.Sublist s.client.pending ∧
      ∀ e ∈ s.client.answering header,
        s.client.pending = e :: (s.take header buffer offset).client.pending := by
  have htake : (s.take header buffer offset).client = (s.client.readSocket header buffer offset).1 := rfl
  rw [htake]
  obtain ⟨haside, data, child, sent, h⟩ | ⟨e, rest, hpending, -, -, zxid, data, child, ks, -, h⟩ :=
    s.client.readSocket_spec header buffer offset
  · refine ⟨by rw [h], fun e he => ?_⟩
    unfold Client.answering at he
    split at he
    · cases he
    · next e' rest hpending =>
      obtain ⟨⟨hping, -, hwatch, -⟩, -⟩ := Option.ite_none_right_eq_some.mp he
      obtain hxid | hxid | hnil := haside
      · exact absurd hxid hping
      · exact absurd hxid hwatch
      · cases hpending.symm.trans hnil
  · refine ⟨by rw [h, hpending]; exact List.sublist_cons_self _ _, fun e' he => ?_⟩
    unfold Client.answering at he
    rw [hpending] at he
    obtain ⟨-, heq⟩ := Option.ite_none_right_eq_some.mp he
    cases heq
    rw [hpending, h]

variable (react) in
/-- The request that a message answers was the next one. -/
theorem onTheWay_read (hserving : s.routine = .serving) (header : ReplyHeader) (buffer : Bytes)
    (offset : Nat) :
    (((s.client.answering header).bind (·.asyncObject)).toList ++
      (s.read react header buffer offset).onTheWay).Sublist s.onTheWay := by
  have hbefore : s.routine.sends = false := by
    rw [hserving]
    rfl
  obtain ⟨st, kz, live, ls, ns, r, h, hr⟩ := read_frame react header buffer offset s
  have hafter : (s.read react header buffer offset).routine.sends = false := by
    rw [h]
    show r.sends = false
    obtain rfl | rfl | rfl | hleaving := hr
    · exact hbefore
    · rfl
    · rfl
    · exact Routine.not_sends_of_leaving hleaving
  have hclient : (s.read react header buffer offset).client.pending =
      (s.take header buffer offset).client.pending ∧
      (s.read react header buffer offset).client.queue = s.client.queue := by
    rw [h]
    exact ⟨rfl, (take_queue header buffer offset s).1⟩
  rw [onTheWay_of_not_sends hafter, onTheWay_of_not_sends hbefore, hclient.1, hclient.2, ← List.append_assoc]
  apply List.Sublist.append_right
  obtain ⟨hsublist, hhead⟩ := take_pending header buffer offset s
  cases hanswering : s.client.answering header with
  | none => exact hsublist.filterMap _
  | some e =>
    rw [hhead e hanswering]
    cases he : e.asyncObject <;> simp [he]

/-- The async results of the requests that a step appends to `_queue`. -/
def appends (s : Sys) : Act → List AsyncId
  | .callAppend i => s.checked[i]?.toList.flatMap (·.asyncObject.toList)
  | _ => []

variable (react) in
theorem accepted_post (act : Act) : (s.post react act).accepted = s.accepted ++ s.appends act := by
  by_cases hcall : act.isCall = true
  · cases act with
    | callCheck item a =>
      simp only [post, callCheck, appends, List.append_nil]
      split <;> rfl
    | callAppend i =>
      simp only [post, callAppend, appends]
      cases s.checked[i]? <;> simp
    | callSend i ok =>
      simp only [post, callSend, appends, List.append_nil]
      split
      · rfl
      · split <;> rfl
    | _ => cases hcall
  · have hcall : act.isCall = false := Bool.eq_false_iff.mpr hcall
    rw [(sameCalls_post react hcall).2.2.2]
    cases act <;> first | exact (List.append_nil _).symm | cases hcall

theorem onTheWay_append (hc : s.Coherent) (e : Entry) :
    onTheWay { s with client := { s.client with queue := s.client.queue ++ [e] } } =
      s.onTheWay ++ e.asyncObject.toList := by
  unfold onTheWay
  rw [unsent_append hc e, List.filterMap_append, List.append_assoc]
  cases he : e.asyncObject <;> simp [he]

/-- `_send_request` has written the head of `_queue`, and takes it into `_pending`. -/
theorem onTheWay_sends {e : PendingEntry} {r : Routine} {rest : List Entry}
    (hroutine : s.routine = .submitted e) (hqueue : s.client.queue = ⟨.request e.request, e.asyncObject⟩ :: rest)
    (hr : r = .popped e ∨ r = .received e) :
    onTheWay { s with client := { s.client with queue := rest }, routine := r } = s.onTheWay := by
  unfold onTheWay unsent
  rw [hroutine, hqueue]
  obtain rfl | rfl := hr <;> rfl

variable (react) in
/-- A step of the client leaves the order as it is. -/
theorem onTheWay_post (hc : s.Coherent) (hen : s.enabled act)
    (hread : ∀ header buffer offset, act ≠ .read header buffer offset) :
    (s.post react act).onTheWay.Sublist (s.onTheWay ++ s.appends act) := by
  cases act with
  | callAppend i =>
    simp only [post, callAppend, appends]
    cases s.checked[i]? with
    | none => exact List.sublist_append_left _ _
    | some e =>
      show (onTheWay { s with client := { s.client with queue := s.client.queue ++ [e] } }).Sublist _
      rw [onTheWay_append hc e]
      simp
  | read header buffer offset => exact absurd rfl (hread header buffer offset)
  | stopAppend =>
    show (onTheWay { s with client := { s.client with queue := s.client.queue ++ [closeEntry] } }).Sublist _
    rw [onTheWay_append hc closeEntry]
    exact List.Sublist.refl _
  | callCheck item a =>
    simp only [post, callCheck, appends, List.append_nil]
    split
    · rw [Client.complete_eq]
      exact List.Sublist.refl _
    · exact List.Sublist.refl _
  | callSend i ok =>
    simp only [post, callSend, appends, List.append_nil]
    split
    · exact List.Sublist.refl _
    · split
      · exact List.Sublist.refl _
      · rw [Client.complete_eq]
        exact List.Sublist.refl _
  | stopEnter | stopMark | stopSend | close | unresolved | ping => exact List.sublist_append_left _ _
  | safeClose | startAsync | begin | dial | giveUp =>
    simp only [appends, List.append_nil]
    exact onTheWay_moved hc rfl (.refl _) (.refl _)
  | authenticated zxid =>
    simp only [appends, List.append_nil]
    cases zxid <;> exact onTheWay_moved hc rfl (.refl _) (.refl _)
  | attempt =>
    simp only [post, attempt, appends, List.append_nil]
    split
    · exact onTheWay_callback hc (.refl _) (.refl _) _ _
    · exact onTheWay_moved hc rfl (.refl _) (.refl _)
  | connected =>
    simp only [post, connected, appends, List.append_nil]
    apply onTheWay_callback hc <;> exact List.Sublist.refl _
  | raise e =>
    simp only [appends, List.append_nil]
    exact onTheWay_raised hc (.refl _) (.refl _) e
  | submit err =>
    simp only [post, appends, List.append_nil]
    obtain ⟨-, h⟩ | ⟨xid, e, h⟩ | ⟨request, asyncObject, rest, bytes, hhead, -, h⟩ := submit_cases react err s
    · rw [h]
      exact onTheWay_moved hc rfl (.refl _) (.refl _)
    · rw [h]
      apply onTheWay_raised hc <;> exact List.Sublist.refl _
    · have hbefore : s.routine.sends = false := by
        rw [hen.1]
        rfl
      rw [h, onTheWay_of_not_sends hbefore]
      unfold onTheWay unsent
      dsimp only
      rw [hhead]
      cases asyncObject <;> simp [Routine.unpended]
  | popleft =>
    obtain ⟨e, hroutine⟩ := hen
    obtain ⟨rest, hhead⟩ := hc.submitted e hroutine
    simp only [post, popleft, hroutine, appends, List.append_nil]
    rw [hhead]
    exact onTheWay_sends hroutine hhead (.inl rfl) ▸ List.Sublist.refl _
  | recv err =>
    obtain ⟨⟨e, hroutine⟩, -⟩ := hen
    simp only [post, recv, appends, List.append_nil]
    split
    · exact onTheWay_raised hc (.refl _) (.refl _) _
    · next e' hroutine' =>
      unfold onTheWay unsent
      rw [hroutine']
      exact List.Sublist.refl _
    · exact List.Sublist.refl _
  | pend =>
    obtain ⟨e, hroutine⟩ := hen
    simp only [post, pend, hroutine, appends, List.append_nil]
    unfold onTheWay unsent
    rw [hroutine]
    dsimp only [Routine.unpended]
    rw [List.append_nil]
  | clear err =>
    simp only [post, clear, appends, List.append_nil]
    split
    · exact onTheWay_moved hc rfl (.refl _) (.refl _)
    · exact onTheWay_moved hc rfl (.refl _) (.refl _)
    · exact onTheWay_raised hc (.refl _) (.refl _) _
  | notify =>
    obtain ⟨st, after, hroutine⟩ := hen
    simp only [post, notify, hroutine, appends, List.append_nil]
    rw [Client.notifyPending_eq]
    exact onTheWay_moved hc rfl (List.nil_sublist _) (List.nil_sublist _)
  | finish =>
    obtain ⟨st, after, hroutine⟩ := hen
    simp only [post, finish, hroutine, appends, List.append_nil]
    apply onTheWay_moved hc (After.resume_not_sends after)
    · show (s.client.callbackEnd react st).pending.Sublist s.client.pending
      rw [Client.callbackEnd_pending]
      split
      · exact List.nil_sublist _
      · exact List.Sublist.refl _
    · show (s.client.callbackEnd react st).queue.Sublist s.client.queue
      rw [Client.callbackEnd_queue]
      split
      · exact List.nil_sublist _
      · exact List.Sublist.refl _
  | exit =>
    simp only [appends, List.append_nil]
    exact onTheWay_callback hc (.refl _) (.refl _) _ _

/-! ## Each request is appended once -/

structure AppendedOnce (s : Sys) : Prop where
  once : ∀ a, s.accepted.count a + s.checkedIds.count a ≤ 1
  fresh : ∀ a, a ∉ s.issued → s.accepted.count a + s.checkedIds.count a = 0

theorem AppendedOnce.nodup (h : s.AppendedOnce) : s.accepted.Nodup := by
  apply List.nodup_iff_count_le_one.mpr
  intro a
  have hle := h.once a
  omega

theorem AppendedOnce.issued (h : s.AppendedOnce) {a : AsyncId} (ha : a ∈ s.accepted) : a ∈ s.issued := by
  by_contra hnot
  have hzero := h.fresh a hnot
  have hpos := List.count_pos_iff.mpr ha
  omega

theorem appendedOnce_post (h : s.AppendedOnce) (hen : s.enabled act) : (s.post react act).AppendedOnce := by
  by_cases hcall : act.isCall = true
  · cases act with
    | callCheck item a =>
      have hfresh := h.fresh a hen.2
      have hissued : (s.callCheck item a).issued = s.issued ++ [a] := by
        unfold callCheck; dsimp only; split <;> rfl
      have haccepted : (s.callCheck item a).accepted = s.accepted := by
        unfold callCheck; dsimp only; split <;> rfl
      have hchecked : ∀ b, (s.callCheck item a).checkedIds.count b ≤
          s.checkedIds.count b + [a].count b := by
        intro b
        unfold callCheck checkedIds
        dsimp only
        split <;> simp
      refine ⟨fun b => ?_, fun b hb => ?_⟩
      · have hnew := hchecked b
        have hold := h.once b
        rw [post, haccepted]
        by_cases hb : b = a
        · subst hb
          rw [List.count_singleton_self] at hnew
          omega
        · have hnone : [a].count b = 0 := List.count_eq_zero_of_not_mem (by simpa using hb)
          omega
      · rw [post, hissued, List.mem_append, not_or] at hb
        have hnew := hchecked b
        have hold := h.fresh b hb.1
        have hnone : [a].count b = 0 := List.count_eq_zero_of_not_mem hb.2
        rw [post, haccepted]
        omega
    | callAppend i =>
      cases hi : s.checked[i]? with
      | none => simpa only [post, callAppend, hi] using h
      | some e =>
        have hsum : ∀ a, (s.callAppend i).accepted.count a + (s.callAppend i).checkedIds.count a =
            s.accepted.count a + s.checkedIds.count a := by
          intro a
          have hchecked := count_eraseIdx hi a
          simp only [checkedIds, callAppend, hi, hchecked, List.count_append]
          omega
        have hissued : (s.callAppend i).issued = s.issued := by simp only [callAppend, hi]
        exact ⟨fun a => hsum a ▸ h.once a, fun a ha => (hsum a).trans (h.fresh a (hissued ▸ ha))⟩
    | callSend i ok =>
      simp only [post, callSend]
      split
      · exact h
      · split
        · exact ⟨h.once, h.fresh⟩
        · exact ⟨h.once, h.fresh⟩
    | _ => cases hcall
  · have hcall : act.isCall = false := Bool.eq_false_iff.mpr hcall
    obtain ⟨hchecked, -, hissued, haccepted⟩ := sameCalls_post react (s := s) hcall
    have hids : (s.post react act).checkedIds = s.checkedIds := congrArg (List.filterMap _) hchecked
    constructor
    · rw [haccepted, hids]
      exact h.once
    · rw [haccepted, hids, hissued]
      exact h.fresh

theorem appendedOnce_of_reach {ok : Sys → Act → Prop} (hr : (system react chroot).Reach ok s) :
    s.AppendedOnce :=
  hr.invariant (P := AppendedOnce) ⟨fun _ => Nat.zero_le _, fun _ _ => rfl⟩ fun _ _ _ h hen _ =>
    appendedOnce_post h hen

end Sys

end Kazoo
