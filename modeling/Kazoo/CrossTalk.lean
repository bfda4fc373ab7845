import Kazoo.Conservation

/-!
# Cross-talk — replies that complete somebody else's request

Only one of the two branches of `_read_socket` that pop `_pending` compares xids.  The other, for
`AUTH_XID`, takes the head whatever it is.
-/

namespace Kazoo

namespace Sys

variable {react : Listeners} {chroot : PyStr} {s : Sys}

/-! ## An async result is held once -/

/-- Completions are only ever added. -/
def Grows (s s' : Sys) : Prop := ∃ ks, s'.client.completions = s.client.completions ++ ks

theorem Grows.same {s' : Sys} (h : s'.client.completions = s.client.completions) : s.Grows s' :=
  ⟨[], by rw [h, List.append_nil]⟩

theorem grows_callback (st : KeeperState) (after : After) (s : Sys) :
    s.Grows (s.callback react st after) := by
  obtain ⟨kz, live, ls, ns, r, h, -⟩ := callback_frame react st after s
  exact .same (by rw [h]; rfl)

theorem grows_raised (e : Exn) (s : Sys) : s.Grows (s.raised react e) := by
  obtain ⟨st, kz, live, ls, ns, r, h, -⟩ := raised_frame react e s
  exact .same (by rw [h]; rfl)

theorem grows_take (header : ReplyHeader) (buffer : Bytes) (offset : Nat) (s : Sys) :
    s.Grows (s.take header buffer offset) := by
  unfold take
  obtain ⟨-, data, child, sent, h⟩ | ⟨e, rest, -, -, -, zxid, data, child, ks, -, h⟩ :=
    s.client.readSocket_spec header buffer offset
  · exact .same (by rw [h])
  · exact ⟨ks, by rw [h]⟩

variable (react) in
theorem grows_post (act : Act) : s.Grows (s.post react act) := by
  cases act with
  | callCheck item a =>
    simp only [post, callCheck]
    split
    · exact ⟨_, by rw [Client.complete_eq]⟩
    · exact .same rfl
  | callAppend i => simp only [post, callAppend]; split <;> exact .same rfl
  | callSend i ok =>
    simp only [post, callSend]
    split
    · exact .same rfl
    · split
      · exact .same rfl
      · exact ⟨_, by rw [Client.complete_eq]⟩
  | stopEnter | stopMark | stopAppend | stopSend | safeClose | startAsync | close | begin
  | unresolved | dial | ping | giveUp => exact .same rfl
  | authenticated zxid => cases zxid <;> exact .same rfl
  | attempt =>
    simp only [post, attempt]
    split
    · exact grows_callback _ _ s
    · exact .same rfl
  | connected => exact grows_callback _ _ _
  | raise e => exact grows_raised e s
  | read header buffer offset =>
    obtain ⟨st, kz, live, ls, ns, r, h, -⟩ := read_frame react header buffer offset s
    simp only [post, h]
    exact grows_take header buffer offset s
  | submit err =>
    simp only [post]
    obtain ⟨-, h⟩ | ⟨xid, e, h⟩ | ⟨_, _, _, _, -, -, h⟩ := submit_cases react err s
    · rw [h]; exact .same rfl
    · rw [h]; exact grows_raised e _
    · rw [h]; exact .same rfl
  | popleft => simp only [post, popleft]; split <;> exact .same rfl
  | pend => simp only [post, pend]; split <;> exact .same rfl
  | notify =>
    simp only [post, notify]
    split
    · exact ⟨_, by rw [Client.notifyPending_eq]⟩
    · exact .same rfl
  | finish =>
    simp only [post, finish]
    split
    · exact .same (by rw [Client.callbackEnd_completions])
    · exact .same rfl
  | recv err =>
    simp only [post, recv]
    split
    · exact grows_raised _ s
    · exact .same rfl
    · exact .same rfl
  | clear err =>
    simp only [post, clear]
    split
    · exact .same rfl
    · exact .same rfl
    · exact grows_raised _ s
  | exit => exact grows_callback _ _ _

/-- What is being called or held now is so in one place, and has been issued. -/
structure HeldOnce (s : Sys) : Prop where
  once : ∀ a, s.checkedIds.count a + s.held.count a ≤ 1
  fresh : ∀ a, a ∉ s.issued → s.checkedIds.count a + s.held.count a = 0

variable (react) in
theorem held_post_of_not_call (hc : s.Coherent) {act : Act} (hen : s.enabled act)
    (hcall : act.isCall = false) (a : AsyncId) :
    (s.post react act).held.count a ≤ s.held.count a := by
  have hledger := places_post react hc hen a
  obtain ⟨ks, hks⟩ := grows_post react (s := s) act
  rw [broughtIn_of_not_call hcall] at hledger
  -- what the completions gain is what the deques lose
  simp only [places, completed, hks, List.map_append, List.count_append, List.count_nil] at hledger
  omega

theorem heldOnce_post (hc : s.Coherent) (hs : s.HeldOnce) {act : Act} (hen : s.enabled act) :
    (s.post react act).HeldOnce := by
  by_cases hcall : act.isCall = true
  · cases act with
    | callCheck item a =>
      have hfresh := hs.fresh a hen.2
      have hissued : (s.callCheck item a).issued = s.issued ++ [a] := by
        unfold callCheck; dsimp only; split <;> rfl
      have hheld : (s.callCheck item a).held = s.held := by
        unfold callCheck; dsimp only; split <;> rfl
      have hchecked : ∀ b, (s.callCheck item a).checkedIds.count b ≤
          s.checkedIds.count b + [a].count b := by
        intro b
        unfold callCheck checkedIds
        dsimp only
        split <;> simp
      -- only `a` is new, and it was nowhere
      refine ⟨fun b => ?_, fun b hb => ?_⟩
      · have h1 := hchecked b
        have h2 := hs.once b
        rw [post, hheld]
        by_cases hb : b = a
        · subst hb
          rw [List.count_singleton_self] at h1
          omega
        · have hnone : [a].count b = 0 := List.count_eq_zero_of_not_mem (by simpa using hb)
          omega
      · rw [post, hissued, List.mem_append, not_or] at hb
        have h1 := hchecked b
        have h2 := hs.fresh b hb.1
        have hnone : [a].count b = 0 := List.count_eq_zero_of_not_mem hb.2
        rw [post, hheld]
        omega
    | callAppend i =>
      cases h : s.checked[i]? with
      | none => simpa only [post, callAppend, h] using hs
      | some e =>
        have hsum : ∀ a, (s.callAppend i).checkedIds.count a + (s.callAppend i).held.count a =
            s.checkedIds.count a + s.held.count a := by
          intro a
          have hchecked := count_eraseIdx h a
          simp only [checkedIds, held, Client.waiting, callAppend, h, hchecked,
            List.filterMap_append, List.count_append, filterMap_cons_count, List.filterMap_nil,
            List.count_nil]
          omega
        have hissued : (s.callAppend i).issued = s.issued := by simp only [callAppend, h]
        exact ⟨fun a => hsum a ▸ hs.once a, fun a ha => by
          rw [post, hsum]
          exact hs.fresh a (hissued ▸ ha)⟩
    | callSend i ok =>
      simp only [post, callSend]
      split
      · exact hs
      · split
        · exact ⟨hs.once, hs.fresh⟩
        · rw [Client.complete_eq]
          exact ⟨hs.once, hs.fresh⟩
    | _ => cases hcall
  · have hcall : act.isCall = false := Bool.eq_false_iff.mpr hcall
    obtain ⟨hchecked, -, hissued, -⟩ := sameCalls_post react (s := s) hcall
    have hheld := held_post_of_not_call react hc hen hcall
    refine ⟨fun a => ?_, fun a ha => ?_⟩
    · have h1 := hheld a
      have h2 := hs.once a
      rw [checkedIds, hchecked]
      unfold checkedIds at h2
      omega
    · have h1 := hheld a
      have h2 := hs.fresh a (hissued ▸ ha)
      rw [checkedIds, hchecked]
      unfold checkedIds at h2
      omega

theorem heldOnce_of_reach {ok : Sys → Act → Prop} (h : (system react chroot).Reach ok s) :
    s.HeldOnce :=
  h.invariant ⟨fun _ => Nat.zero_le _, fun _ _ => rfl⟩ fun _ _ hr hs hen _ =>
    heldOnce_post (coherent_of_reach hr) hs hen

/-- No two entries of `_pending` are waited for through one async result. -/
theorem nodup_pending (h : s.HeldOnce) : (s.client.pending.filterMap (·.asyncObject)).Nodup := by
  rw [List.nodup_iff_count_le_one]
  intro a
  have hle := h.once a
  simp only [held, Client.waiting, List.count_append] at hle
  omega

end Sys

namespace Client

/-! ## Completing with somebody else's reply -/

/-- The message completes an entry of `_pending` by `set` although its xid is not the entry's. -/
def CrossTalk (c : Client) (header : ReplyHeader) (buffer : Bytes) (offset : Nat) : Prop :=
  ∃ e ∈ c.pending, ∃ a response, e.asyncObject = some a ∧ header.xid ≠ e.xid ∧
    ⟨a, .value response⟩ ∈
      (c.readSocket header buffer offset).1.completions.drop c.completions.length

/-- The message is the reply to an `Auth` that was accepted, and the head of `_pending` is no
`Auth`. -/
def AuthAhead (c : Client) (header : ReplyHeader) : Prop :=
  header.xid = AUTH_XID ∧ header.err = 0 ∧
    ∃ e ∈ c.pending.head?, e.asyncObject.isSome ∧ e.xid ≠ AUTH_XID

theorem crossTalk_of_authAhead {c : Client} {header : ReplyHeader} (h : c.AuthAhead header)
    (buffer : Bytes) (offset : Nat) : c.CrossTalk header buffer offset := by
  obtain ⟨hauth, herr, e, he, hsome, hxid⟩ := h
  obtain ⟨a, ha⟩ := Option.isSome_iff_exists.mp hsome
  cases hpending : c.pending with
  | nil => rw [hpending] at he; cases he
  | cons head rest =>
    rw [hpending] at he
    obtain rfl : head = e := Option.some.inj he
    refine ⟨head, by rw [hpending]; exact List.mem_cons_self, a, .true, ha, hauth ▸ hxid.symm, ?_⟩
    have hread : (c.readSocket header buffer offset).1.completions =
        c.completions ++ [⟨a, .value .true⟩] := by
      obtain ⟨request, asyncObject, xid⟩ := head
      obtain rfl : asyncObject = some a := ha
      simp [readSocket, readAuth, hauth, herr, hpending, AUTH_XID, PING_XID, complete]
    rw [hread, List.drop_left]
    exact List.mem_singleton_self _

theorem authAhead_of_crossTalk {c : Client} {header : ReplyHeader} {buffer : Bytes} {offset : Nat}
    (hnodup : (c.pending.filterMap (·.asyncObject)).Nodup)
    (h : c.CrossTalk header buffer offset) : c.AuthAhead header := by
  obtain ⟨e, he, a, response, ha, hxid, hdone⟩ := h
  obtain ⟨-, data, child, sent, hread⟩ |
    ⟨head, rest, hcons, -, -, zxid, data, child, ks, hks, hread⟩ :=
    c.readSocket_spec header buffer offset
  · rw [hread, List.drop_length] at hdone
    cases hdone
  · rw [hread, List.drop_left] at hdone
    -- the async result of `e` is the one of the head, so `e` is the head
    have hhead : ∀ b, head.asyncObject = some b → a = b → e = head := by
      rintro b hb rfl
      rw [hcons, List.filterMap_cons_some hb, List.nodup_cons] at hnodup
      rw [hcons] at he
      rcases List.mem_cons.mp he with he | he
      · exact he
      · exact absurd (List.mem_filterMap.mpr ⟨e, he, ha⟩) hnodup.1
    -- of all the ways to complete the head, only `auth` does it with another xid
    cases hks with
    | anonymous | unknownError | close => cases hdone
    | failed exc hb _ => simp at hdone
    | reply r hb heq _ =>
      rw [List.mem_singleton, Completion.mk.injEq] at hdone
      rw [hhead _ hb hdone.1] at hxid
      exact absurd heq hxid
    | auth hb hauth herr =>
      rw [List.mem_singleton, Completion.mk.injEq] at hdone
      refine ⟨hauth, herr, head, by rw [hcons]; rfl, by rw [hb]; rfl, ?_⟩
      rw [hhead _ hb hdone.1, hauth] at hxid
      exact hxid.symm

end Client

namespace Sys

variable {react : Listeners} {chroot : PyStr} {s : Sys}

/-- In every reachable state, a message completes no request with a reply to another one, if and
only if it does not accept an `Auth` before the requests sent ahead of that `Auth` are answered. -/
theorem no_crossTalk_iff (h : (system react chroot).Reachable s) (header : ReplyHeader)
    (buffer : Bytes) (offset : Nat) :
    ¬ s.client.CrossTalk header buffer offset ↔ ¬ s.client.AuthAhead header :=
  not_congr ⟨Client.authAhead_of_crossTalk (nodup_pending (heldOnce_of_reach h)),
    fun hauth => Client.crossTalk_of_authAhead hauth buffer offset⟩

/-- A `get` and then an `Auth` are sent. -/
def authAfterGet : List Act :=
  connecting ++ calling (.getData (str "/a") none) 0 ++ sending ++
    calling (.auth 0 (str "digest") (str "u:p")) 1 ++ sending

theorem no_crossTalk_iff_authAfterGet :
    ¬ (run authAfterGet).client.CrossTalk ⟨1, 1, 0⟩ [] 0 ↔
      ¬ (run authAfterGet).client.AuthAhead ⟨1, 1, 0⟩ :=
  no_crossTalk_iff (reach_run (by decide +kernel)) ⟨1, 1, 0⟩ [] 0

/-- The `Auth` is answered first, and completes the `get`. -/
theorem auth_reply_completes_get :
    ¬ ∀ (react : Listeners) (chroot : PyStr) (s : Sys), (system react chroot).Reachable s →
      ∀ header buffer offset, ¬ s.client.CrossTalk header buffer offset := by
  intro h
  have hreach : (system .quiet []).Reachable (run authAfterGet) := reach_run (by decide +kernel)
  refine h .quiet [] _ hreach ⟨AUTH_XID, 0, 0⟩ [] 0 (Client.crossTalk_of_authAhead ?_ [] 0)
  refine ⟨rfl, rfl, ⟨.getData (str "/a") none, some 0, 1⟩, ?_, rfl, by decide⟩
  decide +kernel

end Sys

end Kazoo
