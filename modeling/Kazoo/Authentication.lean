import Kazoo.Conservation
import Kazoo.Lib.Supplied
import Kazoo.Matching
import Mathlib.Logic.Function.Basic

/-!
# Authentication

`add_auth_async` keeps each credential in `auth_data` and sends it to the server.  A server connection
knows only the credentials that were sent on it, so `_connect` sends those of `auth_data` before anything
of `_queue`.
-/

namespace Kazoo

structure Credential where
  scheme : PyStr
  auth : PyStr
  deriving DecidableEq, Repr

def Item.credential : Item → Option Credential
  | .request (.auth _ scheme auth) => some ⟨scheme, auth⟩
  | _ => none

/-- What the server is sent, pings and `Close` apart. -/
inductive Sent
  | auth (credential : Credential)
  | request (a : AsyncId)
  deriving DecidableEq, Repr

def Entry.sent (e : Entry) : List Sent :=
  match e.item.credential with
  | some credential => [.auth credential]
  | none => e.asyncObject.toList.map .request

/-- What `_submit` has just written. -/
def Routine.sent : Routine → List Sent
  | .submitted e => Entry.sent ⟨.request e.request, e.asyncObject⟩
  | _ => []

structure Authentication where
  sys : Sys
  -- `auth_data`, a set
  authData : List Credential
  -- what is left of the copy of `auth_data` in `_connect`; `none` before it is made
  replay : Option (List Credential)
  -- history: the credentials whose `Auth` was put on `_queue`, or turned away by `_call`
  added : List Credential
  -- history: what was added when the request was made
  due : AsyncId → List Credential
  -- history: what was sent on the server connection, oldest first
  written : List Sent
  -- history: whether the server has turned an `Auth` down on it
  refused : Bool

inductive AuthAct
  -- `self.auth_data.add(..)` in `add_auth_async`
  | addAuthData (credential : Credential)
  -- `copy.copy(client.auth_data)`; a set is gone through in any order
  | copy (order : List Credential)
  -- `_invoke` with the next `Auth`, which the server accepts
  | invoke
  | client (act : Act)

namespace Authentication

def new (chroot : PyStr) (authData : List Credential) : Authentication where
  sys := .new chroot
  authData := authData
  replay := none
  added := []
  due := fun _ => []
  written := []
  refused := false

/-- What is to be done before the step. -/
def Ready (s : Authentication) : Act → Prop
  -- `add_auth_async` has put the credential into `auth_data`
  | .callCheck item _ => ∀ c ∈ item.credential, c ∈ s.authData
  -- all of the copy is sent
  | .authenticated _ => s.replay = some []
  | _ => True

instance (s : Authentication) (act : Act) : Decidable (s.Ready act) :=
  match act with
  | .callCheck item _ => inferInstanceAs (Decidable (∀ c ∈ item.credential, c ∈ s.authData))
  | .authenticated _ => inferInstanceAs (Decidable (s.replay = some []))
  | .callAppend _ | .callSend _ _ | .stopEnter | .stopMark | .stopAppend | .stopSend _ | .safeClose
  | .startAsync | .close | .begin | .unresolved | .attempt | .dial | .connected _ _ _ _ | .raise _
  | .read _ _ _ | .ping | .submit _ | .popleft | .recv _ | .pend | .clear _ | .notify | .finish | .giveUp
  | .exit => .isTrue trivial

def client (react : Listeners) (act : Act) (s : Authentication) : Authentication :=
  let s' := { s with sys := s.sys.post react act }
  match act with
  | .callCheck item a =>
    let turnedAway := if s.sys.client.callRefusal.isSome then item.credential.toList else []
    { s' with added := turnedAway ++ s.added, due := Function.update s.due a s.added }
  | .callAppend i =>
    { s' with added := (s.sys.checked[i]?).toList.flatMap (·.item.credential.toList) ++ s.added }
  | .dial => { s' with replay := none, written := [], refused := false }
  | .submit _ => { s' with written := s.written ++ s'.sys.routine.sent }
  | .read header _ _ => { s' with refused := s.refused || (header.xid = AUTH_XID && header.err ≠ 0) }
  | _ => s'

def step (react : Listeners) (s : Authentication) : AuthAct → Option Authentication
  | .addAuthData c => some { s with authData := s.authData.insert c }
  | .copy order =>
    if s.sys.routine = .authenticating ∧ s.replay = none ∧ order.Perm s.authData then
      some { s with replay := some order }
    else none
  | .invoke =>
    match s.replay with
    | some (c :: rest) =>
      if s.sys.routine = .authenticating then
        some { s with replay := some rest, written := s.written ++ [.auth c] }
      else none
    | _ => none
  | .client act => if s.sys.enabled act ∧ s.Ready act then some (s.client react act) else none

end Authentication

/-- A client with the credentials that it was made with. -/
def authentication (react : Listeners) (chroot : PyStr) (authData : List Credential) :
    Machine Authentication AuthAct where
  init := .new chroot authData
  enabled := fun s act => (s.step react act).isSome
  post := fun s act => (s.step react act).getD s

instance (react : Listeners) (chroot : PyStr) (authData : List Credential) (s : Authentication)
    (act : AuthAct) : Decidable ((authentication react chroot authData).enabled s act) :=
  inferInstanceAs (Decidable ((s.step react act).isSome = true))

namespace Authentication

variable {react : Listeners} {chroot : PyStr} {authData : List Credential} {s s' : Authentication}
  {act : AuthAct}

/-- All that a step can do. -/
inductive Steps (react : Listeners) (s : Authentication) : AuthAct → Authentication → Prop
  | addAuthData {c : Credential} :
    Steps react s (.addAuthData c) { s with authData := s.authData.insert c }
  | copy {order : List Credential} (hroutine : s.sys.routine = .authenticating) (hreplay : s.replay = none)
      (horder : order.Perm s.authData) : Steps react s (.copy order) { s with replay := some order }
  | invoke {c : Credential} {rest : List Credential} (hreplay : s.replay = some (c :: rest))
      (hroutine : s.sys.routine = .authenticating) :
    Steps react s .invoke { s with replay := some rest, written := s.written ++ [.auth c] }
  | client {act : Act} (hen : s.sys.enabled act) (hready : s.Ready act) :
    Steps react s (.client act) (s.client react act)

theorem steps_of_step (h : s.step react act = some s') : Steps react s act s' := by
  cases act <;> simp only [step] at h
  case addAuthData c =>
    cases h
    exact .addAuthData
  case copy order =>
    obtain ⟨⟨hroutine, hreplay, horder⟩, ⟨⟩⟩ := Option.ite_none_right_eq_some.mp h
    exact .copy hroutine hreplay horder
  case invoke =>
    split at h
    · obtain ⟨hroutine, ⟨⟩⟩ := Option.ite_none_right_eq_some.mp h
      exact .invoke ‹_› hroutine
    · cases h
  case client act =>
    obtain ⟨hcond, ⟨⟩⟩ := Option.ite_none_right_eq_some.mp h
    exact .client hcond.1 hcond.2

theorem post_of_enabled (hen : (authentication react chroot authData).enabled s act) :
    s.step react act = some ((authentication react chroot authData).post s act) := by
  obtain ⟨s', hs'⟩ := Option.isSome_iff_exists.mp hen
  show s.step react act = some ((s.step react act).getD s)
  rw [hs', Option.getD_some]

theorem client_sys (act : Act) (s : Authentication) :
    (s.client react act).sys = s.sys.post react act := by
  cases act <;> rfl

/-- A run is a run of the client. -/
theorem reach_sys {ok : Authentication → AuthAct → Prop}
    (hr : (authentication react chroot authData).Reach ok s) : (system react chroot).Reachable s.sys := by
  apply Machine.Reach.invariant (P := fun s : Authentication => (system react chroot).Reachable s.sys) _ _ hr
  · exact .init
  · intro s act _ h hen _
    have hsteps := steps_of_step (post_of_enabled hen)
    revert hsteps
    generalize (authentication react chroot authData).post s act = s'
    intro hsteps
    cases hsteps with
    | addAuthData | copy | invoke => exact h
    | client hcan =>
      rw [client_sys]
      exact .step h hcan trivial

end Authentication

/-! ## The way out of a session -/

/-- Not in a session, and not on the way back into it. -/
def Routine.Away : Routine → Prop
  | .notifying _ after | .finishing _ after => ¬ after.resume.InSession
  | r => ¬ r.InSession

theorem Routine.away_of_leaving {r : Routine} (h : r.Leaving) : r.Away := by
  cases r with
  | notifying st after => obtain rfl | rfl := h <;> exact id
  | retrying | stopping => exact id
  | _ => exact h.elim

theorem Routine.not_inSession_of_away {r : Routine} (h : r.Away) : ¬ r.InSession := by
  cases r with
  | notifying | finishing => exact id
  | _ => exact h

theorem Routine.ne_dialling_of_leaving {r : Routine} (h : r.Leaving) : r ≠ .dialling := by
  rintro rfl
  exact h

theorem After.away_resume {after : After} (h : ¬ after.resume.InSession) : after.resume.Away := by
  cases after <;> exact h

namespace Sys

variable {react : Listeners} {s : Sys}

/-- No call is made, and none gets past its test. -/
def SameCallers (s s' : Sys) : Prop := s'.checked = s.checked ∧ s'.issued = s.issued

theorem SameCalls.made {s' : Sys} (h : s.SameCalls s') : s.SameCallers s' := ⟨h.1, h.2.2.1⟩

theorem away_callback (st : KeeperState) {after : After} (hafter : ¬ after.resume.InSession) (s : Sys) :
    (s.callback react st after).routine.Away ∧ (s.callback react st after).routine ≠ .dialling := by
  obtain ⟨kz, live, ls, ns, r, h, hr⟩ := callback_frame react st after s
  rw [h]
  show r.Away ∧ r ≠ .dialling
  obtain ⟨rfl, -⟩ | ⟨rfl, -⟩ := hr
  · exact ⟨hafter, nofun⟩
  · exact ⟨After.away_resume hafter, After.resume_ne_dialling after⟩

theorem away_raised (e : Exn) (s : Sys) :
    (s.raised react e).routine.Away ∧ (s.raised react e).routine ≠ .dialling := by
  obtain ⟨st, kz, live, ls, ns, r, h, hr⟩ := raised_frame react e s
  rw [h]
  exact ⟨Routine.away_of_leaving hr, Routine.ne_dialling_of_leaving hr⟩

theorem queue_callback (st : KeeperState) (after : After) (s : Sys) :
    (s.callback react st after).client.queue = s.client.queue := by
  obtain ⟨kz, live, ls, ns, r, h, -⟩ := callback_frame react st after s
  rw [h]
  rfl

theorem queue_raised (e : Exn) (s : Sys) : (s.raised react e).client.queue = s.client.queue := by
  obtain ⟨st, kz, live, ls, ns, r, h, -⟩ := raised_frame react e s
  rw [h]
  rfl

theorem take_queue (header : ReplyHeader) (buffer : Bytes) (offset : Nat) (s : Sys) :
    (s.take header buffer offset).client.queue = s.client.queue ∧
      (s.take header buffer offset).client.clientState = s.client.clientState := by
  unfold take
  obtain ⟨-, data, child, sent, h⟩ | ⟨e, rest, -, -, -, zxid, data, child, ks, -, h⟩ :=
    s.client.readSocket_spec header buffer offset <;>
  · dsimp only
    rw [h]
    exact ⟨rfl, rfl⟩

/-- What is on `_queue` and not yet written. -/
def unsent (s : Sys) : List Entry :=
  match s.routine with
  | .submitted _ => s.client.queue.tail
  | _ => s.client.queue

theorem unsent_append (hc : s.Coherent) (e : Entry) :
    unsent { s with client := { s.client with queue := s.client.queue ++ [e] } } = s.unsent ++ [e] := by
  unfold unsent
  cases hroutine : s.routine with
  | submitted e' =>
    obtain ⟨rest, hqueue⟩ := hc.submitted e' hroutine
    rw [hqueue]
    rfl
  | _ => rfl

end Sys

/-! ## The invariant -/

def Sent.Supplies : Sent → Credential → Prop
  | .auth c, c' => c = c'
  | .request _, _ => False

def Sent.Needs (due : AsyncId → List Credential) : Sent → Credential → Prop
  | .auth _, _ => False
  | .request a, c => c ∈ due a

/-- The requests come after the credentials that were added before them. -/
def InTime (due : AsyncId → List Credential) (l : List Sent) : Prop :=
  Supplied Sent.Supplies (Sent.Needs due) l

theorem inSupply_iff {l : List Sent} {c : Credential} : InSupply Sent.Supplies l c ↔ .auth c ∈ l := by
  constructor
  · rintro ⟨sent, hmem, hc⟩
    cases sent with
    | auth c' =>
      obtain rfl : c' = c := hc
      exact hmem
    | request a => exact hc.elim
  · exact fun hmem => ⟨.auth c, hmem, rfl⟩

/-- A request that was not made yet may need anything. -/
theorem InTime.update {due : AsyncId → List Credential} {l : List Sent} (h : InTime due l) {a : AsyncId}
    (ha : .request a ∉ l) (cs : List Credential) : InTime (Function.update due a cs) l := by
  apply Supplied.mono h
  intro sent hsent c hc
  cases sent with
  | auth => exact hc
  | request a' =>
    have hne : a' ≠ a := by
      rintro rfl
      exact ha hsent
    have hupdate : c ∈ Function.update due a cs a' := hc
    rwa [Function.update_of_ne hne] at hupdate

namespace Entry

theorem mem_sent {e : Entry} {sent : Sent} (h : sent ∈ e.sent) :
    (∃ c ∈ e.item.credential, sent = .auth c) ∨ ∃ a ∈ e.asyncObject, sent = .request a := by
  unfold Entry.sent at h
  split at h
  · next c hc => exact .inl ⟨c, hc, List.mem_singleton.mp h⟩
  · obtain ⟨a, ha, rfl⟩ := List.mem_map.mp h
    exact .inr ⟨a, Option.mem_toList.mp ha, rfl⟩

theorem request_mem_sent {e : Entry} {a : AsyncId} (h : .request a ∈ e.sent) : a ∈ e.asyncObject := by
  obtain ⟨c, -, heq⟩ | ⟨a', ha', heq⟩ := mem_sent h
  · cases heq
  · obtain rfl := Sent.request.inj heq
    exact ha'

theorem auth_mem_sent {e : Entry} {c : Credential} : .auth c ∈ e.sent ↔ e.item.credential = some c := by
  constructor
  · intro h
    obtain ⟨c', hc', heq⟩ | ⟨a, -, heq⟩ := mem_sent h
    · obtain rfl := Sent.auth.inj heq
      exact hc'
    · cases heq
  · intro hc
    unfold Entry.sent
    rw [hc]
    exact List.mem_singleton_self _

end Entry

namespace Authentication

variable {react : Listeners} {chroot : PyStr} {authData : List Credential} {s s' : Authentication}

/-- What is sent on the server connection, and what will be if nothing else is queued. -/
def line (s : Authentication) : List Sent :=
  s.written ++ (s.replay.getD []).map .auth ++ s.sys.unsent.flatMap Entry.sent

/-- A server connection with a session. -/
structure Linked (s : Authentication) : Prop where
  session : s.sys.routine.InSession
  connected : s.sys.client.clientState ∈ CONNECTED_STATES
  fresh : s.replay = none → s.sys.routine = .authenticating ∧ s.written = []
  replayed : s.sys.routine ≠ .authenticating → s.replay = some []
  inTime : s.replay ≠ none → InTime s.due s.line
  added : s.replay ≠ none → ∀ c ∈ s.added, .auth c ∈ s.line

structure Sound (s : Authentication) : Prop where
  added : ∀ c ∈ s.added, c ∈ s.authData
  checked : ∀ e ∈ s.sys.checked, ∀ c ∈ e.item.credential, c ∈ s.authData
  due : ∀ a, ∀ c ∈ s.due a, c ∈ s.added
  issuedChecked : ∀ e ∈ s.sys.checked, ∀ a ∈ e.asyncObject, a ∈ s.sys.issued
  issuedQueue : ∀ e ∈ s.sys.client.queue, ∀ a ∈ e.asyncObject, a ∈ s.sys.issued
  issuedWritten : ∀ a, .request a ∈ s.written → a ∈ s.sys.issued
  dialling : s.sys.routine = .dialling → s.replay = none ∧ s.written = []
  inTime : s.refused = false → InTime s.due s.written
  link : s.refused = false → s.sys.routine.Away ∨ s.Linked

/-- The connection thread goes on, or a thread inside `stop` does. -/
theorem Linked.keep (h : s.Linked) {sys : Sys} (hsession : sys.routine.InSession)
    (hreplay : sys.routine = .authenticating ∨ s.replay = some [])
    (hstate : sys.client.clientState = s.sys.client.clientState)
    (hunsent : sys.unsent.flatMap Entry.sent = s.sys.unsent.flatMap Entry.sent) :
    Linked { s with sys } := by
  have hline : line { s with sys } = s.line := by
    unfold line
    rw [hunsent]
  refine ⟨hsession, hstate ▸ h.connected, fun hnone => ?_, fun hne => ?_, ?_, ?_⟩
  · obtain hauth | hdone := hreplay
    · exact ⟨hauth, (h.fresh hnone).2⟩
    · cases hnone.symm.trans hdone
  · exact hreplay.resolve_left hne
  · rw [hline]
    exact h.inTime
  · rw [hline]
    exact h.added

/-- What was next on the line is written, and the line is the same. -/
theorem Linked.sends (h : s.Linked) {sys : Sys} {replay : Option (List Credential)} {written : List Sent}
    (hsession : sys.routine.InSession) (hstate : sys.client.clientState = s.sys.client.clientState)
    (hold : s.replay ≠ none) (hnew : replay ≠ none)
    (hreplayed : sys.routine ≠ .authenticating → replay = some [])
    (hline : line { s with sys, replay, written } = s.line) : Linked { s with sys, replay, written } := by
  refine ⟨hsession, hstate ▸ h.connected, fun hnone => absurd hnone hnew, hreplayed, ?_, ?_⟩
  · rw [hline]
    exact fun _ => h.inTime hold
  · rw [hline]
    exact fun _ => h.added hold

/-- Nothing is said of the rest of a connection on which an `Auth` was turned down. -/
theorem Sound.refuse (h : s.Sound) {refused : Bool} (hrefused : refused = false → s.refused = false) :
    Sound { s with refused } where
  added := h.added
  checked := h.checked
  due := h.due
  issuedChecked := h.issuedChecked
  issuedQueue := h.issuedQueue
  issuedWritten := h.issuedWritten
  dialling := h.dialling
  inTime := fun href => h.inTime (hrefused href)
  link := fun href => (h.link (hrefused href)).imp_right fun hlinked =>
    ⟨hlinked.session, hlinked.connected, hlinked.fresh, hlinked.replayed, hlinked.inTime, hlinked.added⟩

/-- Where no request is made, and none is put on `_queue` but a `Close`. -/
theorem Sound.move (h : s.Sound) {sys : Sys} (hcalls : s.sys.SameCallers sys)
    (hqueue : ∀ e ∈ sys.client.queue, e ∈ s.sys.client.queue ∨ e.asyncObject = none)
    (hdialling : sys.routine = .dialling → s.sys.routine = .dialling)
    (hlink : s.refused = false → sys.routine.Away ∨ Linked { s with sys }) : Sound { s with sys } := by
  obtain ⟨hchecked, hissued⟩ := hcalls
  refine ⟨h.added, ?_, h.due, ?_, fun e he a ha => ?_, ?_, fun hdial => h.dialling (hdialling hdial),
    h.inTime, hlink⟩
  · rw [hchecked]
    exact h.checked
  · rw [hchecked, hissued]
    exact h.issuedChecked
  · rw [hissued]
    obtain hold | hnone := hqueue e he
    · exact h.issuedQueue e hold a ha
    · rw [hnone] at ha
      cases ha
  · rw [hissued]
    exact h.issuedWritten

/-- The connection thread leaves the session, or is not in it. -/
theorem Sound.away (h : s.Sound) {sys : Sys} (hcalls : s.sys.SameCallers sys)
    (hqueue : ∀ e ∈ sys.client.queue, e ∈ s.sys.client.queue)
    (haway : sys.routine.Away ∧ sys.routine ≠ .dialling) : Sound { s with sys } :=
  h.move hcalls (fun e he => .inl (hqueue e he)) (fun hdial => absurd hdial haway.2) fun _ => .inl haway.1

theorem Sound.raised (h : s.Sound) (e : Exn) : Sound { s with sys := s.sys.raised react e } := by
  apply h.away (Sys.sameCalls_raised e s.sys).made _ (Sys.away_raised e s.sys)
  rw [Sys.queue_raised]
  exact fun _ => id

theorem Sound.callback (h : s.Sound) (st : KeeperState) {after : After} (hafter : ¬ after.resume.InSession) :
    Sound { s with sys := s.sys.callback react st after } := by
  apply h.away (Sys.sameCalls_callback st after s.sys).made _ (Sys.away_callback st hafter s.sys)
  rw [Sys.queue_callback]
  exact fun _ => id

/-- The connection thread stays where it is. -/
theorem Sound.stay (h : s.Sound) {sys : Sys} (hcalls : s.sys.SameCallers sys)
    (hqueue : sys.client.queue = s.sys.client.queue) (hroutine : sys.routine = s.sys.routine)
    (hstate : sys.client.clientState = s.sys.client.clientState) : Sound { s with sys } := by
  apply h.move hcalls (fun e he => .inl (hqueue ▸ he)) (fun hdial => hroutine ▸ hdial)
  intro hrefused
  obtain haway | hlinked := h.link hrefused
  · exact .inl (hroutine ▸ haway)
  · refine .inr (hlinked.keep (hroutine ▸ hlinked.session) ?_ hstate ?_)
    · by_cases hauth : s.sys.routine = .authenticating
      · exact .inl (hroutine.trans hauth)
      · exact .inr (hlinked.replayed hauth)
    · unfold Sys.unsent
      rw [hroutine, hqueue]

theorem Sound.linked (h : s.Sound) (hrefused : s.refused = false) (hsession : s.sys.routine.InSession) :
    s.Linked :=
  (h.link hrefused).resolve_left fun haway => Routine.not_inSession_of_away haway hsession

/-- The connection thread goes on in the loop of `_connect_attempt`. -/
theorem Sound.go (h : s.Sound) {sys : Sys} {r : Routine} (hroutine : s.sys.routine = r) (hr : r.InSession)
    (hauth : r ≠ .authenticating) (hsession : sys.routine.InSession)
    (hcalls : s.sys.SameCallers sys)
    (hqueue : ∀ e ∈ sys.client.queue, e ∈ s.sys.client.queue)
    (hstate : sys.client.clientState = s.sys.client.clientState) (hunsent : sys.unsent = s.sys.unsent) :
    Sound { s with sys } := by
  subst hroutine
  apply h.move hcalls (fun e he => .inl (hqueue e he))
  · intro hdial
    rw [hdial] at hsession
    exact hsession.elim
  · intro hrefused
    have hlinked := h.linked hrefused hr
    exact .inr (hlinked.keep hsession (.inr (hlinked.replayed hauth)) hstate (by rw [hunsent]))

theorem Sound.issued_line (h : s.Sound) {a : AsyncId} (ha : .request a ∈ s.line) : a ∈ s.sys.issued := by
  unfold line at ha
  obtain hleft | hunsent := List.mem_append.mp ha
  · obtain hwritten | hreplay := List.mem_append.mp hleft
    · exact h.issuedWritten a hwritten
    · obtain ⟨c, -, heq⟩ := List.mem_map.mp hreplay
      cases heq
  · obtain ⟨e, he, hsent⟩ := List.mem_flatMap.mp hunsent
    have hmem : e ∈ s.sys.client.queue := by
      unfold Sys.unsent at he
      split at he
      · exact List.mem_of_mem_tail he
      · exact he
    exact h.issuedQueue e hmem a (Entry.request_mem_sent hsent)

end Authentication

end Kazoo
