import Kazoo.Ledger
import Mathlib.Data.List.Perm.Basic

/-!
# Conservation — a request is completed, and completed once

Two consequences of the ledger.  A run loses no accepted request unless one of its steps drops one,
and it completes no request twice unless `_call` reports a failure for a request that is still on
its way.
-/

namespace Kazoo

/-- The steps of `_call`. -/
def Act.isCall : Act → Bool
  | .callCheck _ _ | .callAppend _ | .callSend _ _ => true
  | _ => false

namespace Sys

variable {react : Listeners} {chroot : PyStr} {s : Sys}

/-! ## The calls in progress -/

/-- The calls in progress are the same in both states. -/
def SameCalls (s s' : Sys) : Prop :=
  s'.checked = s.checked ∧ s'.appended = s.appended ∧ s'.issued = s.issued ∧
    s'.accepted = s.accepted

theorem sameCalls_callback (st : KeeperState) (after : After) (s : Sys) :
    s.SameCalls (s.callback react st after) := by
  obtain ⟨kz, live, ls, ns, r, h, -⟩ := callback_frame react st after s
  rw [h]
  exact ⟨rfl, rfl, rfl, rfl⟩

theorem sameCalls_raised (e : Exn) (s : Sys) : s.SameCalls (s.raised react e) := by
  obtain ⟨st, kz, live, ls, ns, r, h, -⟩ := raised_frame react e s
  rw [h]
  exact ⟨rfl, rfl, rfl, rfl⟩

variable (react) in
/-- Only `_call` changes the calls in progress. -/
theorem sameCalls_post {act : Act} (h : act.isCall = false) : s.SameCalls (s.post react act) := by
  cases act with
  | callCheck _ _ | callAppend _ | callSend _ _ => cases h
  | stopEnter | stopMark | stopAppend | stopSend | safeClose | startAsync | close | begin
  | unresolved | dial | ping | giveUp => exact ⟨rfl, rfl, rfl, rfl⟩
  | authenticated zxid => cases zxid <;> exact ⟨rfl, rfl, rfl, rfl⟩
  | attempt =>
    simp only [post, attempt]
    split
    · exact sameCalls_callback _ _ s
    · exact ⟨rfl, rfl, rfl, rfl⟩
  | connected => exact sameCalls_callback _ _ _
  | raise e => exact sameCalls_raised e s
  | read header buffer offset =>
    obtain ⟨st, kz, live, ls, ns, r, hread, -⟩ :=
      read_frame react header buffer offset s
    simp only [post, hread]
    exact ⟨rfl, rfl, rfl, rfl⟩
  | submit err =>
    simp only [post]
    obtain ⟨-, h⟩ | ⟨xid, e, h⟩ | ⟨_, _, _, _, -, -, h⟩ := submit_cases react err s
    · rw [h]; exact ⟨rfl, rfl, rfl, rfl⟩
    · rw [h]; exact sameCalls_raised e _
    · rw [h]; exact ⟨rfl, rfl, rfl, rfl⟩
  | popleft => simp only [post, popleft]; split <;> exact ⟨rfl, rfl, rfl, rfl⟩
  | pend => simp only [post, pend]; split <;> exact ⟨rfl, rfl, rfl, rfl⟩
  | notify => simp only [post, notify]; split <;> exact ⟨rfl, rfl, rfl, rfl⟩
  | finish => simp only [post, finish]; split <;> exact ⟨rfl, rfl, rfl, rfl⟩
  | recv err =>
    simp only [post, recv]
    split
    · exact sameCalls_raised _ s
    · exact ⟨rfl, rfl, rfl, rfl⟩
    · exact ⟨rfl, rfl, rfl, rfl⟩
  | clear err =>
    simp only [post, clear]
    split
    · exact ⟨rfl, rfl, rfl, rfl⟩
    · exact ⟨rfl, rfl, rfl, rfl⟩
    · exact sameCalls_raised _ s
  | exit => exact sameCalls_callback _ _ _

theorem broughtIn_of_not_call {act : Act} (h : act.isCall = false) : s.broughtIn act = [] := by
  cases act <;> first | rfl | cases h

/-! ## No request is lost -/

/-- Every request `_call` has accepted is in `_queue` or in `_pending`, or it is completed, or
`_send_request` has it in hand, between `popleft` and `append`. -/
def NoneLost (s : Sys) : Prop :=
  ∀ a ∈ s.accepted,
    a ∈ s.client.waiting ∨ a ∈ s.completed ∨ a ∈ s.routine.inHand.filterMap (·.asyncObject)

/-- The step drops no request: it neither pops one for a reply whose error code is unknown, nor
leaves `_send_request` between `popleft` and `append`, nor throws a non-empty `_queue` away. -/
def DropsNone (s : Sys) (act : Act) : Prop := s.dropped act = []

instance (s : Sys) (act : Act) : Decidable (s.DropsNone act) :=
  inferInstanceAs (Decidable (s.dropped act = []))

theorem noneLost_iff : s.NoneLost ↔ ∀ a ∈ s.accepted, 0 < s.places a := by
  unfold NoneLost places held
  simp only [Nat.add_pos_iff_pos_or_pos, List.count_pos_iff, List.mem_append]
  refine forall₂_congr fun a _ => ?_
  tauto

theorem accepted_places_callAppend (i : Nat) (hs : ∀ a ∈ s.accepted, 0 < s.places a) :
    ∀ a ∈ (s.callAppend i).accepted, 0 < s.places a + (s.broughtIn (.callAppend i)).count a := by
  intro a ha
  cases h : s.checked[i]? with
  | none =>
    simp only [callAppend, h] at ha
    exact Nat.add_pos_left (hs a ha) _
  | some e =>
    simp only [callAppend, h, List.mem_append] at ha
    simp only [broughtIn, h]
    rcases ha with ha | ha
    · exact Nat.add_pos_left (hs a ha) _
    · exact Nat.add_pos_right _ (List.count_pos_iff.mpr ha)

/-- A step that drops nothing keeps every accepted request in some place. -/
theorem noneLost_post (hc : s.Coherent) (hs : s.NoneLost) {act : Act} (hen : s.enabled act)
    (hdrop : s.DropsNone act) : (s.post react act).NoneLost := by
  rw [noneLost_iff] at hs ⊢
  intro a ha
  have hledger := places_post react hc hen a
  rw [hdrop, List.count_nil, Nat.add_zero] at hledger
  rw [hledger]
  by_cases hcall : act.isCall = true
  -- only `append` accepts a request, and it puts it into `_queue` at once
  · cases act with
    | callAppend i => exact accepted_places_callAppend i hs a ha
    | callCheck item b =>
      refine Nat.add_pos_left (hs a ?_) _
      simp only [post, callCheck] at ha
      split at ha <;> exact ha
    | callSend i ok =>
      refine Nat.add_pos_left (hs a ?_) _
      simp only [post, callSend] at ha
      split at ha
      · exact ha
      · split at ha <;> exact ha
    | _ => cases hcall
  · have hcall : act.isCall = false := Bool.eq_false_iff.mpr hcall
    rw [(sameCalls_post react hcall).2.2.2] at ha
    exact Nat.add_pos_left (hs a ha) _

/-- No request is lost in a run that drops none. -/
theorem no_request_is_lost (h : (system react chroot).Reach DropsNone s) : s.NoneLost :=
  h.invariant (fun _ ha => absurd ha List.not_mem_nil) fun _ _ hr hs hen hok =>
    noneLost_post (coherent_of_reach hr) hs hen hok

/-- A request is being answered. -/
theorem noneLost_answered :
    (run (connecting ++ calling (.exists (str "/a") none) 0 ++ sending ++
      [.read ⟨1, 1, 0⟩ [] 0])).NoneLost :=
  no_request_is_lost (reach_run (by decide +kernel))

/-- The reply to a request carries an error code that `EXCEPTIONS` does not know. -/
def unknownReply : List Act :=
  connecting ++ calling (.exists (str "/a") none) 0 ++ sending ++ [.read ⟨1, 1, -9⟩ [] 0]

theorem unknown_error_loses_request :
    ¬ ∀ (react : Listeners) (chroot : PyStr) (s : Sys),
      (system react chroot).Reachable s → s.NoneLost := by
  intro h
  have hlegal : (system .quiet []).Legal Machine.Free (.new []) unknownReply := by decide +kernel
  -- the reply has taken request 0 off `_pending`, and nothing has completed it
  have hkept := h .quiet [] _ (reach_run hlegal) 0 (by decide +kernel)
  revert hkept
  decide +kernel

/-! ## No request is completed twice -/

def checkedIds (s : Sys) : List AsyncId := s.checked.filterMap (·.asyncObject)

def appendedIds (s : Sys) : List AsyncId := s.appended.filterMap (·.asyncObject)

/-- Each async result is on its way in one place at most, and in one call at most. -/
structure Single (s : Sys) : Prop where
  once : ∀ a, s.checkedIds.count a + s.places a ≤ 1
  oneCall : ∀ a, s.checkedIds.count a + s.appendedIds.count a ≤ 1
  fresh : ∀ a, a ∉ s.issued → s.checkedIds.count a + s.appendedIds.count a + s.places a = 0

/-- `_call` only reports a failed wake-up for a request that is nowhere any more: neither in a
deque, nor in the hand of `_send_request`, nor completed. -/
def FailsOnlyLost (s : Sys) : Act → Prop
  | .callSend i ok => ∀ a ∈ s.broughtIn (.callSend i ok), s.places a = 0
  | _ => True

instance (s : Sys) : (act : Act) → Decidable (s.FailsOnlyLost act)
  | .callSend i ok => inferInstanceAs (Decidable (∀ a ∈ s.broughtIn (.callSend i ok), _))
  | .callCheck _ _ | .callAppend _ | .stopEnter | .stopMark | .stopAppend | .stopSend _
  | .safeClose | .startAsync | .close | .begin | .unresolved | .attempt | .dial
  | .connected _ _ _ _ | .authenticated _ | .raise _ | .read _ _ _ | .ping | .submit _ | .popleft
  | .recv _ | .pend | .clear _ | .notify | .finish | .giveUp | .exit =>
    inferInstanceAs (Decidable True)

theorem count_eraseIdx {es : List Entry} {i : Nat} {e : Entry} (h : es[i]? = some e)
    (a : AsyncId) :
    (es.filterMap (·.asyncObject)).count a =
      e.asyncObject.toList.count a + ((es.eraseIdx i).filterMap (·.asyncObject)).count a := by
  obtain ⟨hi, rfl⟩ := List.getElem?_eq_some_iff.mp h
  rw [← filterMap_cons_count]
  exact ((List.getElem_cons_eraseIdx_perm hi).filterMap _).symm.count_eq a

/-- A step that only issues new async results, and multiplies none, keeps them single. -/
theorem Single.grow {s' : Sys} (hs : s.Single) {new : List AsyncId} (hnodup : new.Nodup)
    (hnew : ∀ a ∈ new, a ∉ s.issued) (hissued : s'.issued = s.issued ++ new)
    (honce : ∀ a, s'.checkedIds.count a + s'.places a ≤
      s.checkedIds.count a + s.places a + new.count a)
    (hcall : ∀ a, s'.checkedIds.count a + s'.appendedIds.count a ≤
      s.checkedIds.count a + s.appendedIds.count a + new.count a) : s'.Single := by
  -- a new async result was nowhere, and is issued once
  have hsum : ∀ a, a ∈ new →
      s.checkedIds.count a + s.appendedIds.count a + s.places a = 0 ∧ new.count a ≤ 1 :=
    fun a ha => ⟨hs.fresh a (hnew a ha), List.nodup_iff_count_le_one.mp hnodup a⟩
  have hnone : ∀ a, a ∉ new → new.count a = 0 := fun a ha => List.count_eq_zero_of_not_mem ha
  refine ⟨fun a => ?_, fun a => ?_, fun a ha => ?_⟩
  · have h1 := honce a
    have h2 := hs.once a
    by_cases ha : a ∈ new
    · have h3 := hsum a ha
      omega
    · have h3 := hnone a ha
      omega
  · have h1 := hcall a
    have h2 := hs.oneCall a
    by_cases ha : a ∈ new
    · have h3 := hsum a ha
      omega
    · have h3 := hnone a ha
      omega
  · rw [hissued, List.mem_append, not_or] at ha
    have h1 := honce a
    have h2 := hcall a
    have h3 := hs.fresh a ha.1
    have h4 := hnone a ha.2
    omega

/-- Completing an async result that is nowhere any more keeps it single. -/
theorem single_callSend (hs : s.Single) {i : Nat} {ok : Bool}
    (hlost : ∀ a ∈ s.broughtIn (.callSend i ok), s.places a = 0)
    (hledger : ∀ a, (s.callSend i ok).places a =
      s.places a + (s.broughtIn (.callSend i ok)).count a) : (s.callSend i ok).Single := by
  cases h : s.appended[i]? with
  | none => simpa only [callSend, h] using hs
  | some e =>
    have happended : ∀ a, s.appendedIds.count a =
        e.asyncObject.toList.count a + (s.callSend i ok).appendedIds.count a := by
      intro a
      have herase := count_eraseIdx h a
      simp only [appendedIds, callSend, h]
      split <;> exact herase
    have hchecked : (s.callSend i ok).checkedIds = s.checkedIds := by
      simp only [checkedIds, callSend, h]
      split <;> rfl
    have hissued : (s.callSend i ok).issued = s.issued := by
      simp only [callSend, h]
      split <;> rfl
    have hbrought : ∀ a, (s.broughtIn (.callSend i ok)).count a ≤ e.asyncObject.toList.count a := by
      intro a
      simp only [broughtIn, h]
      split
      · exact Nat.zero_le _
      · exact Nat.le_refl _
    -- what the call completes was nowhere else, and what it does not complete stays where it was
    refine ⟨fun a => ?_, fun a => ?_, fun a ha => ?_⟩
    · have h1 := hs.once a
      have h2 := hs.oneCall a
      have h3 := happended a
      have h4 := hbrought a
      rw [hchecked, hledger]
      by_cases ha : a ∈ s.broughtIn (.callSend i ok)
      · have h5 := hlost a ha
        omega
      · rw [List.count_eq_zero_of_not_mem ha]
        exact h1
    · have h1 := hs.oneCall a
      have h2 := happended a
      rw [hchecked]
      omega
    · rw [hissued] at ha
      have h1 := hs.fresh a ha
      have h2 := happended a
      have h3 := hbrought a
      rw [hchecked, hledger]
      omega

theorem single_post (hc : s.Coherent) (hs : s.Single) {act : Act} (hen : s.enabled act)
    (hok : s.FailsOnlyLost act) : (s.post react act).Single := by
  have hledger := fun a => places_post react hc hen a
  by_cases hcall : act.isCall = true
  · cases act with
    | callCheck item a =>
      cases h : s.client.callRefusal with
      -- turned away: the new async result is completed at once
      | some exc =>
        simp only [dropped, broughtIn, h, Option.isSome_some, if_true, List.count_nil,
          Nat.add_zero, post] at hledger
        refine hs.grow (List.nodup_singleton a) ?_ ?_ ?_ ?_
        · rintro b hb; rw [List.mem_singleton.mp hb]; exact hen.2
        · simp [post, callCheck, h]
        · intro b
          have hchecked : (s.callCheck item a).checkedIds = s.checkedIds := by
            simp [checkedIds, callCheck, h]
          rw [post, hledger, hchecked]
          omega
        · intro b
          simp [post, checkedIds, appendedIds, callCheck, h]
      -- let through: the call holds it
      | none =>
        simp only [dropped, broughtIn, h, Option.isSome_none, Bool.false_eq_true, if_false,
          List.count_nil, Nat.add_zero, post] at hledger
        have hchecked : (s.callCheck item a).checkedIds = s.checkedIds ++ [a] := by
          simp [checkedIds, callCheck, h]
        refine hs.grow (List.nodup_singleton a) ?_ ?_ ?_ ?_
        · rintro b hb; rw [List.mem_singleton.mp hb]; exact hen.2
        · simp [post, callCheck, h]
        · intro b
          rw [post, hledger, hchecked, List.count_append]
          omega
        · intro b
          have happended : (s.callCheck item a).appendedIds = s.appendedIds := by
            simp [appendedIds, callCheck, h]
          rw [post, hchecked, happended, List.count_append]
          omega
    | callAppend i =>
      simp only [dropped, List.count_nil, Nat.add_zero, post] at hledger
      cases h : s.checked[i]? with
      | none => simpa only [post, callAppend, h] using hs
      | some e =>
        simp only [broughtIn, h] at hledger
        -- from the call to the queue
        have hchecked := count_eraseIdx h
        refine hs.grow List.nodup_nil (by simp) ?_ ?_ ?_
        · simp [post, callAppend, h]
        · intro a
          rw [post, hledger]
          simp only [checkedIds, callAppend, h, hchecked]
          omega
        · intro a
          simp only [post, checkedIds, appendedIds, callAppend, h, hchecked, List.filterMap_append,
            List.count_append, filterMap_cons_count, List.filterMap_nil, List.count_nil]
          omega
    | callSend i ok =>
      simp only [dropped, List.count_nil, Nat.add_zero, post] at hledger
      exact single_callSend hs hok hledger
    | _ => cases hcall
  · have hcall : act.isCall = false := Bool.eq_false_iff.mpr hcall
    -- the other steps bring in nothing
    obtain ⟨hchecked, happended, hissued, -⟩ := sameCalls_post react (s := s) hcall
    refine hs.grow List.nodup_nil (by simp) (by simp [hissued]) ?_ ?_
    · intro a
      have h1 := hledger a
      rw [broughtIn_of_not_call hcall] at h1
      rw [checkedIds, hchecked]
      unfold checkedIds
      omega
    · intro a
      rw [checkedIds, hchecked, appendedIds, happended]
      exact Nat.le_refl _

theorem single_of_reach (h : (system react chroot).Reach FailsOnlyLost s) : s.Single :=
  h.invariant
    ⟨fun _ => Nat.zero_le _, fun _ => Nat.zero_le _, fun _ _ => rfl⟩
    fun _ _ hr hs hen hok => single_post (coherent_of_reach hr) hs hen hok

/-- No async result is completed twice, and a request that is completed is in neither deque. -/
def CompletedOnce (s : Sys) : Prop :=
  (∀ a, s.completed.count a ≤ 1) ∧ ∀ a ∈ s.completed, a ∉ s.client.waiting

/-- In a run in which `_call` only reports a failed wake-up for requests that are lost already, each
request is completed at most once, and is out of the deques then. -/
theorem completed_at_most_once (h : (system react chroot).Reach FailsOnlyLost s) :
    s.CompletedOnce := by
  have hs := single_of_reach h
  -- one place at most, so once completed and then not held
  have hplaces : ∀ a, s.held.count a + s.completed.count a ≤ 1 := fun a =>
    (Nat.le_add_left _ _).trans (hs.once a)
  refine ⟨fun a => (Nat.le_add_left _ _).trans (hplaces a), fun a ha hwait => ?_⟩
  have hheld : a ∈ s.held := List.mem_append_right _ hwait
  have h1 := hplaces a
  have h2 := List.count_pos_iff.mpr ha
  have h3 := List.count_pos_iff.mpr hheld
  omega

/-- A request is answered, and the next one is failed by a connection drop. -/
theorem completedOnce_dropped :
    (run (connecting ++ calling (.exists (str "/a") none) 0 ++ sending ++ [.read ⟨1, 1, 0⟩ [] 0] ++
      calling (.exists (str "/b") none) 1 ++ [.raise .connectionDropped, .notify])).CompletedOnce :=
  completed_at_most_once (reach_run (by decide +kernel))

/-- `write_sock.send` raises, and the connection is dropped after that. -/
def failedWakeUp : List Act :=
  connecting ++
    [.callCheck (.request (.exists (str "/a") none)) 0, .callAppend 0, .callSend 0 false,
      .raise .connectionDropped, .notify]

theorem failed_wake_up_completes_twice :
    ¬ ∀ (react : Listeners) (chroot : PyStr) (s : Sys),
      (system react chroot).Reachable s → s.CompletedOnce := by
  intro h
  have hlegal : (system .quiet []).Legal Machine.Free (.new []) failedWakeUp := by decide +kernel
  have htwice : (run failedWakeUp).completed.count 0 = 2 := by decide +kernel
  have honce := (h .quiet [] _ (reach_run hlegal)).1 0
  rw [htwice] at honce
  exact absurd honce (by decide)

end Sys

end Kazoo
