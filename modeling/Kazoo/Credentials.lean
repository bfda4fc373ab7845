import Kazoo.Authentication

/-!
# Credentials come first

What each step of the client does to the line of what is sent, and in what order requests and credentials
reach a server.
-/

namespace Kazoo

namespace Authentication

variable {react : Listeners} {chroot : PyStr} {authData : List Credential} {s s' : Authentication}

/-! ## Steps of `_call` -/

/-- The test at the start of `_call`, in `add_auth_async` or elsewhere. -/
theorem Sound.callCheck (h : s.Sound) {item : Item} {a : AsyncId} (hnew : a ∉ s.sys.issued)
    (hready : s.Ready (.callCheck item a)) : (s.client react (.callCheck item a)).Sound := by
  have hwritten : Sent.request a ∉ s.written := fun ha => hnew (h.issuedWritten a ha)
  have hline : Sent.request a ∉ s.line := fun ha => hnew (h.issued_line ha)
  have hdue : ∀ b, ∀ c ∈ Function.update s.due a s.added b, c ∈ s.added := by
    intro b c hc
    by_cases hb : b = a
    · subst hb
      rwa [Function.update_self] at hc
    · rw [Function.update_of_ne hb] at hc
      exact h.due b c hc
  cases hrefusal : s.sys.client.callRefusal with
  | some exc =>
    -- nothing is turned away in a session
    have hlinked : ∀ href : s.refused = false, ¬ s.Linked := by
      intro _ hlinked
      have hconnected := hlinked.connected
      revert hrefusal hconnected
      unfold Client.callRefusal
      cases s.sys.client.clientState <;> simp [CONNECTED_STATES]
    have hsys : s.sys.callCheck item a =
        { s.sys with
          issued := s.sys.issued ++ [a]
          client := s.sys.client.complete (some a) (.exception exc) } := by
      unfold Sys.callCheck
      simp only [hrefusal]
    have hsound : Sound { s with
        sys := s.sys.callCheck item a
        added := item.credential.toList ++ s.added
        due := Function.update s.due a s.added } := by
      rw [hsys, Client.complete_eq]
      refine ⟨fun c hc => ?_, h.checked, fun b c hc => List.mem_append_right _ (hdue b c hc),
        fun e he b hb => List.mem_append_left _ (h.issuedChecked e he b hb),
        fun e he b hb => List.mem_append_left _ (h.issuedQueue e he b hb),
        fun b hb => List.mem_append_left _ (h.issuedWritten b hb), h.dialling,
        fun href => (h.inTime href).update hwritten _, fun href => ?_⟩
      · obtain hc | hc := List.mem_append.mp hc
        · exact hready c (Option.mem_toList.mp hc)
        · exact h.added c hc
      · exact .inl ((h.link href).resolve_right (hlinked href))
    simpa only [client, Sys.post, hrefusal, Option.isSome_some, if_true] using hsound
  | none =>
    have hsys : s.sys.callCheck item a =
        { s.sys with issued := s.sys.issued ++ [a], checked := s.sys.checked ++ [⟨item, some a⟩] } := by
      unfold Sys.callCheck
      simp only [hrefusal]
    have hsound : Sound { s with
        sys := s.sys.callCheck item a
        due := Function.update s.due a s.added } := by
      rw [hsys]
      refine ⟨h.added, fun e he => ?_, hdue, fun e he b hb => ?_,
        fun e he b hb => List.mem_append_left _ (h.issuedQueue e he b hb),
        fun b hb => List.mem_append_left _ (h.issuedWritten b hb), h.dialling,
        fun href => (h.inTime href).update hwritten _, fun href => (h.link href).imp_right fun hlinked => ?_⟩
      · obtain hold | hnew := List.mem_append.mp he
        · exact h.checked e hold
        · rw [List.mem_singleton.mp hnew]
          exact hready
      · obtain hold | hnew := List.mem_append.mp he
        · exact List.mem_append_left _ (h.issuedChecked e hold b hb)
        · rw [List.mem_singleton.mp hnew] at hb
          cases hb
          exact List.mem_append_right _ (List.mem_singleton_self _)
      · exact ⟨hlinked.session, hlinked.connected, hlinked.fresh, hlinked.replayed,
          fun hreplay => (hlinked.inTime hreplay).update hline _, hlinked.added⟩
    simpa only [client, Sys.post, hrefusal, Option.isSome_none, Bool.false_eq_true, if_false,
      List.nil_append] using hsound

/-- `_queue.append` in `_call`: what the request needs is ahead of it. -/
theorem Sound.callAppend (h : s.Sound) (hc : s.sys.Coherent) {i : Nat} :
    (s.client react (.callAppend i)).Sound := by
  cases hchecked : s.sys.checked[i]? with
  | none =>
    have hsys : s.sys.callAppend i = s.sys := by
      unfold Sys.callAppend
      simp only [hchecked]
    simpa only [client, Sys.post, hsys, hchecked, Option.toList_none, List.flatMap_nil,
      List.nil_append] using h
  | some e =>
    have hmem : e ∈ s.sys.checked := List.mem_of_getElem? hchecked
    have hsys : s.sys.callAppend i =
        { s.sys with
          client := { s.sys.client with queue := s.sys.client.queue ++ [e] }
          checked := s.sys.checked.eraseIdx i
          appended := s.sys.appended ++ [e]
          accepted := s.sys.accepted ++ e.asyncObject.toList } := by
      unfold Sys.callAppend
      simp only [hchecked]
    have hsound : Sound { s with
        sys := s.sys.callAppend i
        added := e.item.credential.toList ++ s.added } := by
      rw [hsys]
      refine ⟨fun c hc => ?_, fun e' he' => h.checked e' (List.mem_of_mem_eraseIdx he'),
        fun b c hc => List.mem_append_right _ (h.due b c hc),
        fun e' he' => h.issuedChecked e' (List.mem_of_mem_eraseIdx he'), fun e' he' b hb => ?_,
        h.issuedWritten, h.dialling, h.inTime, fun href => (h.link href).imp_right fun hlinked => ?_⟩
      · obtain hnew | hold := List.mem_append.mp hc
        · exact h.checked e hmem c (Option.mem_toList.mp hnew)
        · exact h.added c hold
      · obtain hold | hnew := List.mem_append.mp he'
        · exact h.issuedQueue e' hold b hb
        · rw [List.mem_singleton.mp hnew] at hb
          exact h.issuedChecked e hmem b hb
      · have hline : ∀ added, line { s with
            sys := { s.sys with
              client := { s.sys.client with queue := s.sys.client.queue ++ [e] }
              checked := s.sys.checked.eraseIdx i
              appended := s.sys.appended ++ [e]
              accepted := s.sys.accepted ++ e.asyncObject.toList }
            added } = s.line ++ e.sent := by
          intro added
          have hunsent := Sys.unsent_append hc e
          unfold line
          show _ ++ (Sys.unsent { s.sys with client :=
            { s.sys.client with queue := s.sys.client.queue ++ [e] } }).flatMap Entry.sent = _
          rw [hunsent, List.flatMap_append, List.flatMap_singleton, List.append_assoc _ _ e.sent]
        refine ⟨hlinked.session, hlinked.connected, hlinked.fresh, hlinked.replayed, fun hreplay => ?_,
          fun hreplay c hc => ?_⟩
        · rw [hline]
          apply (hlinked.inTime hreplay).append
          intro sent hsent c hneeds
          cases sent with
          | auth => exact hneeds.elim
          | request a => exact inSupply_iff.mpr (hlinked.added hreplay c (h.due a c hneeds))
        · rw [hline]
          obtain hnew | hold := List.mem_append.mp hc
          · exact List.mem_append_right _ (Entry.auth_mem_sent.mpr (Option.mem_toList.mp hnew))
          · exact List.mem_append_left _ (hlinked.added hreplay c hold)
    simpa only [client, Sys.post, hchecked, Option.toList_some, List.flatMap_singleton] using hsound

/-! ## Steps of the connection thread -/

theorem Sound.submit (h : s.Sound) (hroutine : s.sys.routine = .serving) (err : Option Exn) :
    (s.client react (.submit err)).Sound := by
  have hsession : s.sys.routine.InSession := by
    rw [hroutine]
    trivial
  have hne : s.sys.routine ≠ .authenticating := by
    rw [hroutine]
    nofun
  have hunsent : s.sys.unsent = s.sys.client.queue := by
    unfold Sys.unsent
    rw [hroutine]
  show Sound { s with
    sys := s.sys.submit react err
    written := s.written ++ (s.sys.submit react err).routine.sent }
  obtain ⟨hnil, hsys⟩ | ⟨xid, e, hsys⟩ | ⟨request, asyncObject, rest, bytes, hqueue, -, hsys⟩ :=
    Sys.submit_cases react err s.sys
  · rw [hsys]
    simp only [Routine.sent, List.append_nil]
    exact h.go hroutine trivial nofun trivial ⟨rfl, rfl⟩ (fun _ => id) rfl hunsent.symm
  · have hsent : (s.sys.submit react err).routine.sent = [] := by
      have haway : (s.sys.submit react err).routine.Away := by
        rw [hsys]
        exact (Sys.away_raised e { s.sys with xid }).1
      revert haway
      generalize (s.sys.submit react err).routine = r
      cases r with
      | submitted => exact fun haway => absurd trivial haway
      | _ => exact fun _ => rfl
    rw [hsent, List.append_nil, hsys]
    have hmoved : Sound { s with sys := { s.sys with xid } } :=
      h.stay ⟨rfl, rfl⟩ rfl rfl rfl
    exact hmoved.raised e
  · -- the head of `_queue` is now written, and the line is the same
    have hmem : (⟨.request request, asyncObject⟩ : Entry) ∈ s.sys.client.queue := by
      rw [hqueue]
      exact List.mem_cons_self
    rw [hsys]
    dsimp only [Routine.sent]
    have hline : s.replay = some [] → s.line =
        (s.written ++ Entry.sent ⟨.request request, asyncObject⟩) ++ rest.flatMap Entry.sent := by
      intro hdone
      unfold line
      rw [hdone, hunsent, hqueue, List.flatMap_cons, List.append_assoc, List.append_assoc]
      rfl
    refine ⟨h.added, h.checked, h.due, h.issuedChecked, h.issuedQueue, fun a ha => ?_, nofun,
      fun href => ?_, fun href => .inr ?_⟩
    · obtain hold | hnew := List.mem_append.mp ha
      · exact h.issuedWritten a hold
      · exact h.issuedQueue _ hmem a (Entry.request_mem_sent hnew)
    · have hlinked := h.linked href hsession
      have hdone := hlinked.replayed hne
      have htime := hlinked.inTime (by rw [hdone]; exact Option.some_ne_none _)
      rw [hline hdone] at htime
      exact htime.left
    · have hlinked := h.linked href hsession
      have hdone := hlinked.replayed hne
      have hsome : s.replay ≠ none := by
        rw [hdone]
        exact Option.some_ne_none _
      have hnew : line { s with
          sys := { s.sys with
            xid := if request.type = 100 then s.sys.xid else nextXid s.sys.xid
            wire := s.sys.wire ++
              [⟨⟨request, asyncObject, if request.type = 100 then AUTH_XID else nextXid s.sys.xid⟩, bytes⟩]
            routine := .submitted
              ⟨request, asyncObject, if request.type = 100 then AUTH_XID else nextXid s.sys.xid⟩ }
          written := s.written ++ Entry.sent ⟨.request request, asyncObject⟩ } = s.line := by
        rw [hline hdone]
        unfold line Sys.unsent
        simp only [hdone, hqueue]
        simp
      exact hlinked.sends trivial rfl hsome hsome (fun _ => hdone) hnew

/-- `_read_socket`: either the client goes on as before, or it leaves the session, or an `Auth` was turned
down. -/
theorem Sound.read (h : s.Sound) (header : ReplyHeader) (buffer : Bytes)
    (offset : Nat) : (s.client react (.read header buffer offset)).Sound := by
  have htaken : Sound { s with sys := s.sys.take header buffer offset } := by
    obtain ⟨hqueue, hstate⟩ := Sys.take_queue header buffer offset s.sys
    exact h.stay ⟨rfl, rfl⟩ hqueue rfl hstate
  have hrefused : ∀ {b : Bool}, (s.refused || b) = false → s.refused = false := fun h =>
    (Bool.or_eq_false_iff.mp h).1
  show Sound { s with
    sys := s.sys.read react header buffer offset
    refused := s.refused || (header.xid = AUTH_XID && header.err ≠ 0) }
  unfold Sys.read
  dsimp only
  split
  · exact htaken.refuse hrefused
  · exact (htaken.callback .CLOSED id).refuse hrefused
  · next hresult =>
    obtain ⟨hauth, herr⟩ := Client.readSocket_authFailed hresult
    have htrue : (s.refused || (header.xid = AUTH_XID && header.err ≠ 0)) = true := by
      simp [hauth, herr]
    rw [htrue]
    have hturned : Sound { s with sys := s.sys.take header buffer offset, refused := true } :=
      htaken.refuse nofun
    apply hturned.move (Sys.sameCalls_callback _ _ _).made _ _ nofun
    · rw [Sys.queue_callback]
      exact fun e he => .inl he
    · obtain ⟨kz, live, ls, ns, r, hsys, hr⟩ :=
        Sys.callback_frame react .AUTH_FAILED .serve (s.sys.take header buffer offset)
      rw [hsys]
      obtain ⟨rfl, -⟩ | ⟨rfl, -⟩ := hr <;> nofun
  · exact (htaken.raised _).refuse hrefused

/-- `_notify_pending` and what follows it. -/
theorem Sound.finish (h : s.Sound) {sys : Sys} {st : KeeperState} {after : After}
    (hroutine : s.sys.routine = .notifying st after ∨ s.sys.routine = .finishing st after)
    (hcalls : s.sys.SameCallers sys) (hqueue : ∀ e ∈ sys.client.queue, e ∈ s.sys.client.queue)
    (hsys : sys.routine = .finishing st after ∨ sys.routine = after.resume) : Sound { s with sys } := by
  apply h.move hcalls (fun e he => .inl (hqueue e he))
  · intro hdial
    obtain hfinishing | hresume := hsys
    · cases hfinishing.symm.trans hdial
    · exact absurd (hresume.symm.trans hdial) (After.resume_ne_dialling after)
  · intro href
    have haway : ¬ after.resume.InSession := by
      obtain haway | hlinked := h.link href
      · obtain hold | hold := hroutine <;> rwa [hold] at haway
      · have hsession := hlinked.session
        obtain hold | hold := hroutine <;> exact absurd hsession (by rw [hold]; exact id)
    obtain hfinishing | hresume := hsys
    · exact .inl (hfinishing ▸ haway)
    · exact .inl (hresume ▸ After.away_resume haway)

/-- `_connect` has a session: what was added so far is in `auth_data`. -/
theorem Sound.connected (h : s.Sound) (hroutine : s.sys.routine = .dialling) (readOnly : Bool)
    (sessionId protocolVersion : Int) (passwd : Bytes) :
    Sound { s with sys := s.sys.connected react readOnly sessionId protocolVersion passwd } := by
  obtain ⟨hreplay, hwritten⟩ := h.dialling hroutine
  have hcalls : s.sys.SameCalls (s.sys.connected react readOnly sessionId protocolVersion passwd) :=
    Sys.sameCalls_callback _ _ _
  refine h.move hcalls.made ?_ (fun _ => hroutine) ?_
  · unfold Sys.connected
    rw [Sys.queue_callback]
    exact fun e he => .inl he
  · intro _
    obtain ⟨st, hst, kz, live, ls, ns, hsys⟩ :=
      Sys.connected_frame react readOnly sessionId protocolVersion passwd s.sys
    rw [hsys]
    exact .inr ⟨trivial, hst, fun _ => ⟨rfl, hwritten⟩, fun hne => absurd rfl hne,
      fun hsome => absurd hreplay hsome, fun hsome => absurd hreplay hsome⟩

theorem Sound.client (h : s.Sound) (hc : s.sys.Coherent) {act : Act} (hen : s.sys.enabled act)
    (hready : s.Ready act) : (s.client react act).Sound := by
  have hcalls : act.isCall = false → s.sys.SameCallers (s.sys.post react act) :=
    fun hcall => (Sys.sameCalls_post react hcall).made
  cases act with
  | callCheck item a => exact h.callCheck hen.2 hready
  | callAppend i => exact h.callAppend hc
  | callSend i ok =>
    show Sound { s with sys := s.sys.callSend i ok }
    unfold Sys.callSend
    split
    · exact h
    · split
      · exact h.stay ⟨rfl, rfl⟩ rfl rfl rfl
      · rw [Client.complete_eq]
        exact h.stay ⟨rfl, rfl⟩ rfl rfl rfl
  | stopEnter | stopMark | stopSend | close | unresolved | ping => exact h.stay (hcalls rfl) rfl rfl rfl
  | stopAppend =>
    apply h.move (hcalls rfl) (fun e he => ?_) id
    · intro hrefused
      obtain haway | hlinked := h.link hrefused
      · exact .inl haway
      · refine .inr (hlinked.keep hlinked.session ?_ rfl ?_)
        · exact (em (s.sys.routine = .authenticating)).imp_right hlinked.replayed
        · have hunsent := Sys.unsent_append hc Sys.closeEntry
          show (Sys.unsent { s.sys with client :=
            { s.sys.client with queue := s.sys.client.queue ++ [Sys.closeEntry] } }).flatMap Entry.sent = _
          rw [hunsent, List.flatMap_append]
          exact List.append_nil _
    · obtain hold | hnew := List.mem_append.mp he
      · exact .inl hold
      · rw [List.mem_singleton.mp hnew]
        exact .inr rfl
  | safeClose | startAsync | begin | giveUp => exact h.away (hcalls rfl) (fun _ => id) ⟨id, nofun⟩
  | attempt =>
    show Sound { s with sys := s.sys.attempt react }
    unfold Sys.attempt
    split
    · exact h.callback .CONNECTING id
    · exact h.away ⟨rfl, rfl⟩ (fun _ => id) ⟨id, nofun⟩
  | dial =>
    exact ⟨h.added, h.checked, h.due, h.issuedChecked, h.issuedQueue, fun _ ha => (by cases ha),
      fun _ => ⟨rfl, rfl⟩, fun _ => supplied_nil, fun _ => .inl id⟩
  | connected readOnly sessionId protocolVersion passwd => exact h.connected hen _ _ _ _
  | authenticated zxid =>
    have hsys : s.sys.authenticated zxid = { s.sys with
        client := { s.sys.client with lastZxid := zxid.getD s.sys.client.lastZxid }
        pingOutstanding := false
        routine := .serving } := by
      cases zxid <;> rfl
    show Sound { s with sys := s.sys.authenticated zxid }
    rw [hsys]
    refine h.move ⟨rfl, rfl⟩ (fun _ => .inl) nofun fun hrefused => ?_
    have hroutine : s.sys.routine = .authenticating := hen
    have hlinked := h.linked hrefused (by rw [hroutine]; trivial)
    refine .inr (hlinked.keep trivial (.inr hready) rfl ?_)
    unfold Sys.unsent
    rw [hroutine]
  | raise e => exact h.raised e
  | read header buffer offset => exact h.read header buffer offset
  | submit err => exact h.submit hen.1 err
  | popleft =>
    obtain ⟨e, hroutine⟩ := hen
    have hsys : s.sys.popleft = { s.sys with
        client := { s.sys.client with queue := s.sys.client.queue.tail }
        routine := .popped e } := by
      unfold Sys.popleft
      simp only [hroutine]
    show Sound { s with sys := s.sys.popleft }
    rw [hsys]
    refine h.go hroutine trivial nofun trivial ⟨rfl, rfl⟩ (fun _ => List.mem_of_mem_tail) rfl ?_
    unfold Sys.unsent
    rw [hroutine]
  | recv err =>
    obtain ⟨⟨e, hroutine⟩, -⟩ := hen
    show Sound { s with sys := s.sys.recv react err }
    cases err with
    | some exc => exact h.raised exc
    | none =>
      have hsys : s.sys.recv react none =
          { s.sys with sockets := s.sys.sockets.map (· - 1), routine := .received e } := by
        unfold Sys.recv
        simp only [hroutine]
      rw [hsys]
      refine h.go hroutine trivial nofun trivial ⟨rfl, rfl⟩ (fun _ => id) rfl ?_
      unfold Sys.unsent
      rw [hroutine]
  | pend =>
    obtain ⟨e, hroutine⟩ := hen
    have hsys : s.sys.pend = { s.sys with
        client := { s.sys.client with pending := s.sys.client.pending ++ [e] }
        routine := .serving } := by
      unfold Sys.pend
      simp only [hroutine]
    show Sound { s with sys := s.sys.pend }
    rw [hsys]
    refine h.go hroutine trivial nofun trivial ⟨rfl, rfl⟩ (fun _ => id) rfl ?_
    unfold Sys.unsent
    rw [hroutine]
  | clear err =>
    have hroutine : s.sys.routine = .clearing := hen.1
    have hserving : ∀ sockets, Sound { s with sys := { s.sys with sockets, routine := .serving } } := by
      intro sockets
      refine h.go hroutine trivial nofun trivial ⟨rfl, rfl⟩ (fun _ => id) rfl ?_
      unfold Sys.unsent
      rw [hroutine]
    show Sound { s with sys := s.sys.clear react err }
    unfold Sys.clear
    split
    · exact hserving _
    · exact hserving _
    · exact h.raised _
  | notify =>
    obtain ⟨st, after, hroutine⟩ := hen
    have hsys : s.sys.notify =
        { s.sys with client := s.sys.client.notifyPending st, routine := .finishing st after } := by
      unfold Sys.notify
      simp only [hroutine]
    show Sound { s with sys := s.sys.notify }
    rw [hsys, Client.notifyPending_eq]
    exact h.finish (.inl hroutine) ⟨rfl, rfl⟩ (fun _ he => (by cases he)) (.inl rfl)
  | finish =>
    obtain ⟨st, after, hroutine⟩ := hen
    have hsys : s.sys.finish react =
        { s.sys with client := s.sys.client.callbackEnd react st, routine := after.resume } := by
      unfold Sys.finish
      simp only [hroutine]
    show Sound { s with sys := s.sys.finish react }
    rw [hsys]
    refine h.finish (.inr hroutine) ⟨rfl, rfl⟩ ?_ (.inr rfl)
    show ∀ e ∈ (s.sys.client.callbackEnd react st).queue, e ∈ s.sys.client.queue
    rw [Client.callbackEnd_queue]
    split
    · nofun
    · exact fun _ => id
  | exit =>
    have hstopped : Sound { s with sys := { s.sys with connectionStopped := true } } :=
      h.stay ⟨rfl, rfl⟩ rfl rfl rfl
    exact hstopped.callback .CLOSED id

/-! ## The other steps -/

theorem Sound.addAuthData (h : s.Sound) (c : Credential) :
    Sound { s with authData := s.authData.insert c } where
  added := fun c' hc' => List.mem_insert_of_mem (h.added c' hc')
  checked := fun e he c' hc' => List.mem_insert_of_mem (h.checked e he c' hc')
  due := h.due
  issuedChecked := h.issuedChecked
  issuedQueue := h.issuedQueue
  issuedWritten := h.issuedWritten
  dialling := h.dialling
  inTime := h.inTime
  link := fun href => (h.link href).imp_right fun hlinked =>
    ⟨hlinked.session, hlinked.connected, hlinked.fresh, hlinked.replayed, hlinked.inTime, hlinked.added⟩

/-- The copy of `auth_data` has all that anything on `_queue` needs. -/
theorem Sound.copy (h : s.Sound) {order : List Credential} (hroutine : s.sys.routine = .authenticating)
    (hreplay : s.replay = none) (horder : order.Perm s.authData) : Sound { s with replay := some order } := by
  refine ⟨h.added, h.checked, h.due, h.issuedChecked, h.issuedQueue, h.issuedWritten,
    fun hdial => (by cases hroutine.symm.trans hdial), h.inTime, fun href => .inr ?_⟩
  have hlinked := h.linked href (by rw [hroutine]; trivial)
  obtain ⟨-, hwritten⟩ := hlinked.fresh hreplay
  have hline : line { s with replay := some order } =
      order.map .auth ++ s.sys.unsent.flatMap Entry.sent := by
    unfold line
    rw [hwritten]
    rfl
  have hadded : ∀ c ∈ s.added, .auth c ∈ order.map Sent.auth := fun c hc =>
    List.mem_map_of_mem (horder.mem_iff.mpr (h.added c hc))
  refine ⟨hlinked.session, hlinked.connected, nofun, fun hne => absurd hroutine hne, fun _ => ?_, fun _ => ?_⟩
  · rw [hline]
    have horder : InTime s.due (order.map Sent.auth) := by
      apply supplied_nil.append
      intro sent hsent c hneeds
      obtain ⟨c', -, rfl⟩ := List.mem_map.mp hsent
      exact hneeds.elim
    apply Supplied.append horder
    intro sent _ c hneeds
    cases sent with
    | auth => exact hneeds.elim
    | request a => exact inSupply_iff.mpr (hadded c (h.due a c hneeds))
  · rw [hline]
    exact fun c hc => List.mem_append_left _ (hadded c hc)

/-- The next credential of the copy is sent, and the line is the same. -/
theorem Sound.invoke (h : s.Sound) {c : Credential} {rest : List Credential}
    (hroutine : s.sys.routine = .authenticating) (hreplay : s.replay = some (c :: rest)) :
    Sound { s with replay := some rest, written := s.written ++ [.auth c] } := by
  have hline : line { s with replay := some rest, written := s.written ++ [.auth c] } = s.line := by
    unfold line
    rw [hreplay]
    simp
  have hsome : s.replay ≠ none := by
    rw [hreplay]
    exact Option.some_ne_none _
  refine ⟨h.added, h.checked, h.due, h.issuedChecked, h.issuedQueue, fun a ha => ?_,
    fun hdial => (by cases hroutine.symm.trans hdial), fun href => ?_, fun href => .inr ?_⟩
  · obtain hold | hnew := List.mem_append.mp ha
    · exact h.issuedWritten a hold
    · cases List.mem_singleton.mp hnew
  · apply Supplied.append (h.inTime href)
    intro sent hsent c hneeds
    rw [List.mem_singleton.mp hsent] at hneeds
    exact hneeds.elim
  · have hlinked := h.linked href (by rw [hroutine]; trivial)
    exact hlinked.sends hlinked.session rfl hsome (Option.some_ne_none _) (fun hne => absurd hroutine hne) hline

theorem sound_new : (new chroot authData).Sound where
  added := nofun
  checked := nofun
  due := nofun
  issuedChecked := nofun
  issuedQueue := nofun
  issuedWritten := nofun
  dialling := nofun
  inTime := fun _ => supplied_nil
  link := fun _ => .inl id

theorem sound_of_reachable (hr : (authentication react chroot authData).Reachable s) : s.Sound := by
  apply Machine.Reach.invariant (P := Sound) sound_new _ hr
  intro s act hreach h hen _
  have hsteps := steps_of_step (post_of_enabled hen)
  revert hsteps
  generalize (authentication react chroot authData).post s act = s'
  intro hsteps
  cases hsteps with
  | addAuthData => exact h.addAuthData _
  | copy hroutine hreplay horder => exact h.copy hroutine hreplay horder
  | invoke hreplay hroutine => exact h.invoke hroutine hreplay
  | client hcan hready => exact h.client (Sys.coherent_of_reach (reach_sys hreach)) hcan hready

/-- On a server connection on which no `Auth` was turned down, each request comes after all credentials that
had been added when it was made, also where these were added on an earlier connection; and what was added
is on the connection, or will be. -/
theorem credentials_come_first (hr : (authentication react chroot authData).Reachable s)
    (hrefused : s.refused = false) :
    (∀ older a newer, s.written = older ++ .request a :: newer → ∀ c ∈ s.due a, .auth c ∈ older) ∧
    (s.sys.routine = .serving → ∀ c ∈ s.added,
      .auth c ∈ s.written ∨ ∃ e ∈ s.sys.client.queue, e.item.credential = some c) := by
  have h := sound_of_reachable hr
  constructor
  · intro older a newer hwritten c hc
    exact inSupply_iff.mp (h.inTime hrefused older (.request a) newer hwritten c hc)
  · intro hserving c hc
    have hlinked := h.linked hrefused (by rw [hserving]; trivial)
    have hdone := hlinked.replayed (by rw [hserving]; nofun)
    have hmem := hlinked.added (by rw [hdone]; exact Option.some_ne_none _) c hc
    unfold line Sys.unsent at hmem
    rw [hdone, hserving] at hmem
    obtain hwritten | hqueued := List.mem_append.mp hmem
    · obtain hwritten | hnone := List.mem_append.mp hwritten
      · exact .inl hwritten
      · cases hnone
    · obtain ⟨e, he, hsent⟩ := List.mem_flatMap.mp hqueued
      exact .inr ⟨e, he, Entry.auth_mem_sent.mp hsent⟩

/-! ## Runs -/

def jsmith : Credential := ⟨str "digest", str "jsmith:jsmith"⟩

/-- A connection, on which the credentials of `auth_data` are sent first. -/
def connecting (order : List Credential) : List AuthAct :=
  [.client .attempt, .client .dial, .client (.connected false 1 0 []), .copy order] ++
    order.map (fun _ => .invoke) ++ [.client (.authenticated none)]

/-- `add_auth`, and a request after it. -/
def addingAuth : List AuthAct :=
  [.addAuthData jsmith] ++ (Sys.calling (.auth 0 jsmith.scheme jsmith.auth) 0).map .client ++
    (Sys.calling (.exists (str "/a") none) 1).map .client

/-- The connection is lost before the request is sent, which another thread makes meanwhile. -/
def connectionLost : List AuthAct :=
  [.client (.callCheck (.request (.exists (str "/b") none)) 2),
    .client (.raise .connectionDropped), .client .notify, .client .finish]

def reconnected : Authentication :=
  (authentication .quiet [] []).exec (.new [] [])
    ([.client .startAsync, .client .begin] ++ connecting [] ++ addingAuth ++ connectionLost ++
      connecting [jsmith] ++ [.client (.callAppend 0), .client (.callSend 0 true)] ++
      Sys.sending.map .client)

theorem credentials_come_first_reconnected :
    reconnected.written = [.auth jsmith, .request 2] ∧ jsmith ∈ reconnected.due 2 ∧
      ∀ older a newer, reconnected.written = older ++ .request a :: newer →
        ∀ c ∈ reconnected.due a, .auth c ∈ older := by
  have hreach : (authentication .quiet [] []).Reachable reconnected := .of_legal (by decide +kernel)
  exact ⟨by decide +kernel, by decide +kernel, (credentials_come_first hreach (by decide +kernel)).1⟩

def mallory : Credential := ⟨str "digest", str "mallory:guess"⟩

/-- The server turns one `Auth` down, and with it the next is failed, which is still on `_queue`. -/
def turnedDown : List AuthAct :=
  [.addAuthData mallory] ++ (Sys.calling (.auth 0 mallory.scheme mallory.auth) 0).map .client ++
    Sys.sending.map .client ++
    [.addAuthData jsmith] ++ (Sys.calling (.auth 0 jsmith.scheme jsmith.auth) 1).map .client ++
    [.client (.callCheck (.request (.exists (str "/a") none)) 2),
      .client (.read ⟨AUTH_XID, 0, -115⟩ [] 0), .client .notify, .client .finish]

/-- A thread that is inside `_call` then has its request sent without the credential it was to come
after. -/
theorem turned_down_leaves_out :
    let acts := [.client .startAsync, .client .begin] ++ connecting [] ++ turnedDown ++
      [.client (.callAppend 0), .client (.callSend 0 true)] ++ Sys.sending.map .client
    let s := (authentication .quiet [] []).exec (.new [] []) acts
    (authentication .quiet [] []).Legal Machine.Free (.new [] []) acts ∧
      s.refused = true ∧ jsmith ∈ s.due 2 ∧ s.written = [.auth mallory, .request 2] := by
  decide +kernel

end Authentication

end Kazoo
