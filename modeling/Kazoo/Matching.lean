import Kazoo.Lib.Cyclic
import Kazoo.Ledger

/-!
# Matching — replies and their requests

`_read_response` takes the head of `_pending` for the request a reply answers.  Against a server
that answers in the order it was asked, `_pending` is what the server still has to answer, and the
xids it is compared by do not repeat.
-/

namespace Kazoo

/-- The number of xids that `_send_request` goes through. -/
def xidCycle : Nat := 2147483647

theorem nextXid_value (n : Nat) :
    nextXid (Cyclic.value xidCycle n) = Cyclic.value xidCycle (n + 1) := by
  rw [Cyclic.value_succ, nextXid, xidCycle]
  omega

/-- Inside `_connect_attempt` with a session, callbacks apart. -/
def Routine.InSession : Routine → Prop
  | .authenticating | .serving | .submitted _ | .popped _ | .received _ | .clearing => True
  | _ => False

/-- The request that is on the wire and not yet in `_pending`. -/
def Routine.unpended : Routine → List PendingEntry
  | .submitted e | .popped e | .received e => [e]
  | _ => []

/-- Neither a session nor requests of the last one are left. -/
def Routine.Offline : Routine → Prop
  | .absent | .spawned | .attempting | .dialling | .finishing _ _ | .finished => True
  | _ => False

theorem Routine.not_inSession_of_offline {r : Routine} (h : r.Offline) : ¬ r.InSession := by
  cases r <;> first | exact id | exact h.elim

theorem Routine.unpended_of_not_inSession {r : Routine} (h : ¬ r.InSession) : r.unpended = [] := by
  cases r <;> first | rfl | exact absurd trivial h

theorem Routine.not_inSession_of_leaving {r : Routine} (h : r.Leaving) : ¬ r.InSession := by
  cases r <;> first | exact id | exact h.elim

theorem After.resume_ne_dialling (after : After) : after.resume ≠ .dialling := by
  cases after <;> simp [After.resume]

/-- The xids of the requests that are no `Auth`. -/
def nonAuthXids (es : List PendingEntry) : List Int :=
  (es.filter fun e => e.request.type ≠ 100).map (·.xid)

@[simp] theorem nonAuthXids_append (es es' : List PendingEntry) :
    nonAuthXids (es ++ es') = nonAuthXids es ++ nonAuthXids es' := by
  rw [nonAuthXids, List.filter_append, List.map_append, nonAuthXids, nonAuthXids]

theorem nonAuthXids_cons_auth {e : PendingEntry} (h : e.request.type = 100)
    (es : List PendingEntry) : nonAuthXids (e :: es) = nonAuthXids es := by
  simp [nonAuthXids, h]

theorem nonAuthXids_cons {e : PendingEntry} (h : e.request.type ≠ 100)
    (es : List PendingEntry) : nonAuthXids (e :: es) = e.xid :: nonAuthXids es := by
  simp [nonAuthXids, h]

namespace Sys

variable {react : Listeners} {chroot : PyStr} {s : Sys}

/-- The requests that were sent on the server connection and are not answered, oldest first. -/
def awaited (s : Sys) : List PendingEntry := (s.wire.drop s.repliesRead).map Frame.entry

/-- The server answers the requests in their order, each with the xid it had, and rejects no
`Auth`; pings and watch events come at any time.  Fewer requests than there are xids are awaited
when one more is sent. -/
def FifoServer (s : Sys) : Act → Prop
  | .read header _ _ =>
    header.xid = PING_XID ∨ header.xid = WATCH_XID ∨
      ∃ e ∈ s.awaited.head?, header.xid = e.xid ∧ (e.xid = AUTH_XID → header.err = 0)
  | .submit _ => s.awaited.length < xidCycle
  | _ => True

instance (s : Sys) : (act : Act) → Decidable (s.FifoServer act)
  | .read _ _ _ => inferInstanceAs (Decidable (_ ∨ _ ∨ _))
  | .submit _ => inferInstanceAs (Decidable (_ < _))
  | .callCheck _ _ | .callAppend _ | .callSend _ _ | .stopEnter | .stopMark | .stopAppend
  | .stopSend _ | .safeClose | .startAsync | .close | .begin | .unresolved | .attempt | .dial
  | .connected _ _ _ _ | .authenticated _ | .raise _ | .ping | .popleft | .recv _ | .pend | .clear _
  | .notify | .finish | .giveUp | .exit => inferInstanceAs (Decidable True)

/-! ## The invariant -/

structure Matching (s : Sys) : Prop where
  connected : s.routine.InSession → s.client.clientState ∈ CONNECTED_STATES
  outstanding : s.routine.InSession → s.client.pending ++ s.routine.unpended = s.awaited
  readLe : s.routine.InSession → s.repliesRead ≤ s.wire.length
  few : s.routine.InSession → s.awaited.length ≤ xidCycle
  fresh : s.routine = .dialling → s.wire = [] ∧ s.repliesRead = 0 ∧ s.xid = 0
  -- the counter has taken `a + n` steps, and the last `n` of them are awaited
  window : s.routine.InSession → ∃ a n,
    nonAuthXids s.awaited = (Cyclic.window xidCycle a n).map Int.ofNat ∧
      s.xid = Cyclic.value xidCycle (a + n)
  -- `_pending` survives the connection only until the next session callback
  left : s.client.pending ≠ [] → (∃ st after, s.routine = .notifying st after) ∨
    s.client.clientState ∈ CONNECTED_STATES ∧
      (s.routine.InSession ∨ s.routine = .retrying ∨ s.routine = .stopping)
  distinct : (nonAuthXids s.client.pending).Nodup
  inRange : ∀ x ∈ nonAuthXids s.client.pending, 1 ≤ x ∧ x ≤ xidCycle
  auth : ∀ e ∈ s.client.pending ++ s.routine.unpended, e.request.type = 100 → e.xid = AUTH_XID
  after : ∀ st after, s.routine = .notifying st after ∨ s.routine = .finishing st after →
    ¬ after.resume.InSession

namespace Matching

/-- The requests that wait for an answer have different xids, all of them in range. -/
theorem awaited_xids (hs : s.Matching) (hr : s.routine.InSession) :
    (nonAuthXids s.awaited).Nodup ∧ ∀ x ∈ nonAuthXids s.awaited, 1 ≤ x ∧ x ≤ xidCycle := by
  obtain ⟨a, n, hwindow, -⟩ := hs.window hr
  have hn : n ≤ xidCycle := by
    have hlength : (nonAuthXids s.awaited).length ≤ s.awaited.length := by
      rw [nonAuthXids, List.length_map]
      exact List.length_filter_le _ _
    rw [hwindow, List.length_map, Cyclic.length_window] at hlength
    exact hlength.trans (hs.few hr)
  rw [hwindow]
  refine ⟨(Cyclic.nodup_window hn).map fun _ _ h => Int.ofNat.inj h, fun x hx => ?_⟩
  obtain ⟨i, hi, rfl⟩ := List.mem_map.mp hx
  have hrange := Cyclic.mem_window_range (by decide) hi
  exact ⟨Int.ofNat_le.mpr hrange.1, Int.ofNat_le.mpr hrange.2⟩

/-- Without a session, only `_pending` matters. -/
theorem offline {s' : Sys} (hs : s.Matching) (hpending : s'.client.pending = s.client.pending)
    (hsession : ¬ s'.routine.InSession) (hdialling : s'.routine ≠ .dialling)
    (hleft : s.client.pending ≠ [] → (∃ st after, s'.routine = .notifying st after) ∨
      s'.client.clientState ∈ CONNECTED_STATES ∧
        (s'.routine.InSession ∨ s'.routine = .retrying ∨ s'.routine = .stopping))
    (hafter : ∀ st after, s'.routine = .notifying st after ∨ s'.routine = .finishing st after →
      ¬ after.resume.InSession) : s'.Matching where
  connected h := absurd h hsession
  outstanding h := absurd h hsession
  readLe h := absurd h hsession
  few h := absurd h hsession
  fresh h := absurd h hdialling
  window h := absurd h hsession
  left := hpending ▸ hleft
  distinct := hpending ▸ hs.distinct
  inRange := hpending ▸ hs.inRange
  auth e he := by
    rw [hpending, Routine.unpended_of_not_inSession hsession, List.append_nil] at he
    exact hs.auth e (List.mem_append_left _ he)
  after := hafter

/-- A session callback out of the connected states empties `_pending` if there is anything in it. -/
theorem callback (hs : s.Matching) (hr : ∀ st after, s.routine ≠ .notifying st after)
    {st : KeeperState} (hst : st ∉ CONNECTED_STATES) {after : After}
    (hafter : ¬ after.resume.InSession) {s' : Sys} (hclient : s'.client = s.client) :
    (s'.callback react st after).Matching := by
  obtain ⟨kz, live, ls, ns, r, h, hcases⟩ := callback_frame react st after s'
  have hpending : s'.client.pending = s.client.pending := by rw [hclient]
  rw [hclient] at hcases
  rw [h]
  rcases hcases with ⟨rfl, -⟩ | ⟨rfl, hskip⟩
  -- `_notify_pending` is next
  · refine hs.offline hpending id (by simp [turn]) (fun _ => .inl ⟨st, after, rfl⟩) ?_
    rintro st' after' (h | h)
    · cases h; exact hafter
    · cases h
  -- the callback is skipped: the state was not a connected one, so nothing is pending
  · refine hs.offline hpending hafter (After.resume_ne_dialling after) (fun hne => ?_) ?_
    · obtain ⟨st', after', h⟩ | ⟨hconn, -⟩ := hs.left hne
      · exact absurd h (hr st' after')
      · rw [(Client.callbackBegin_notifies_iff st s.client).mpr] at hskip
        · cases hskip
        · refine ⟨fun h => hst (h ▸ hconn), ?_⟩
          cases st <;> simp [CLOSED_STATES, CONNECTED_STATES] at hst ⊢
          exact List.mem_pair.mp hconn
    · rintro st' after' (h | h) <;> cases after <;> cases h

theorem raised (hs : s.Matching) (hr : ∀ st after, s.routine ≠ .notifying st after) (e : Exn)
    {s' : Sys} (hclient : s'.client = s.client) : (s'.raised react e).Matching := by
  obtain ⟨st, after, h, hafter⟩ | ⟨r, h, hr'⟩ := raised_cases react e s'
  · rw [h]
    rcases hafter with ⟨rfl | rfl, rfl⟩ | ⟨rfl, rfl⟩ <;> exact hs.callback hr (by decide) id hclient
  · rw [h]
    have hleaving : r.Leaving := by rcases hr' with rfl | rfl <;> trivial
    refine hs.offline (congrArg Client.pending hclient) (Routine.not_inSession_of_leaving hleaving) ?_ ?_ ?_
    · rcases hr' with rfl | rfl <;> simp
    · intro hne
      obtain ⟨st, after, h⟩ | ⟨hconn, -⟩ := hs.left hne
      · exact absurd h (hr st after)
      · exact .inr ⟨hclient ▸ hconn, .inr hr'⟩
    · rintro st after (h | h) <;> rcases hr' with rfl | rfl <;> cases h

/-- A message either leaves `_pending` and the server's part of it alone, or is the answer to the
head of both. -/
theorem take_cases (hs : s.Matching) (hr : s.routine = .serving) {header : ReplyHeader}
    {buffer : Bytes} {offset : Nat} (hok : s.FifoServer (.read header buffer offset)) :
    ((header.xid = PING_XID ∨ header.xid = WATCH_XID) ∧
      ∃ data child sent, (s.client.readSocket header buffer offset).1 =
        { s.client with dataWatchers := data, childWatchers := child, dispatched := sent }) ∨
    ∃ e rest, s.awaited = e :: rest ∧ s.client.pending = e :: rest ∧ header.xid = e.xid ∧
      (header.xid = AUTH_XID → header.err = 0) ∧ header.xid ≠ PING_XID ∧ header.xid ≠ WATCH_XID ∧
      ∃ zxid data child ks, Client.Answered e header ks ∧
        (s.client.readSocket header buffer offset).1 =
          { s.client with
            pending := rest, lastZxid := zxid, dataWatchers := data, childWatchers := child
            completions := s.client.completions ++ ks } := by
  have houtstanding : s.client.pending = s.awaited := by
    have h := hs.outstanding (by rw [hr]; trivial)
    simpa [hr, Routine.unpended] using h
  have hanswer : header.xid ≠ PING_XID → header.xid ≠ WATCH_XID →
      ∃ e rest, s.awaited = e :: rest ∧ header.xid = e.xid ∧ (e.xid = AUTH_XID → header.err = 0) := by
    intro hping hwatch
    obtain h | h | ⟨e, he, hxid, hauth⟩ := hok
    · exact absurd h hping
    · exact absurd h hwatch
    · cases hawaited : s.awaited with
      | nil => rw [hawaited] at he; cases he
      | cons head rest =>
        rw [hawaited] at he
        obtain rfl : head = e := Option.some.inj he
        exact ⟨head, rest, rfl, hxid, hauth⟩
  obtain ⟨hnone, hread⟩ | ⟨e, rest, hcons, hping, hwatch, hread⟩ :=
    s.client.readSocket_spec header buffer offset
  · by_cases hping : header.xid = PING_XID
    · exact .inl ⟨.inl hping, hread⟩
    by_cases hwatch : header.xid = WATCH_XID
    · exact .inl ⟨.inr hwatch, hread⟩
    -- the server only answers what it was asked, so `_pending` is not empty
    obtain ⟨e, rest, hcons, -⟩ := hanswer hping hwatch
    have hnil : s.client.pending = [] := (hnone.resolve_left hping).resolve_left hwatch
    rw [houtstanding, hcons] at hnil
    cases hnil
  · obtain ⟨e', rest', hcons', hxid, hauth⟩ := hanswer hping hwatch
    rw [houtstanding, hcons'] at hcons
    cases hcons
    exact .inr ⟨e, rest, hcons', houtstanding.trans hcons', hxid, fun h => hauth (hxid ▸ h),
      hping, hwatch, hread⟩

theorem take (hs : s.Matching) (hr : s.routine = .serving) {header : ReplyHeader} {buffer : Bytes}
    {offset : Nat} (hok : s.FifoServer (.read header buffer offset)) :
    (s.take header buffer offset).Matching := by
  have hsession : s.routine.InSession := by rw [hr]; trivial
  obtain ⟨hxid, data, child, sent, hread⟩ |
    ⟨e, rest, hawaited, hpending, -, -, hping, hwatch, zxid, data, child, ks, -, hread⟩ :=
    hs.take_cases hr hok
  · have htake : s.take header buffer offset =
        { s with
          client := { s.client with dataWatchers := data, childWatchers := child, dispatched := sent }
          pingOutstanding := if header.xid = PING_XID then false else s.pingOutstanding } := by
      unfold Sys.take
      rw [hread, if_pos hxid]
    rw [htake]
    exact ⟨hs.connected, hs.outstanding, hs.readLe, hs.few, hs.fresh, hs.window, hs.left, hs.distinct,
      hs.inRange, hs.auth, hs.after⟩
  · have htake : s.take header buffer offset =
        { s with
          client := { s.client with
            pending := rest, lastZxid := zxid, dataWatchers := data, childWatchers := child
            completions := s.client.completions ++ ks }
          pingOutstanding := if header.xid = PING_XID then false else s.pingOutstanding
          repliesRead := s.repliesRead + 1 } := by
      unfold Sys.take
      rw [hread, if_neg (not_or.mpr ⟨hping, hwatch⟩)]
    have hrest : (s.take header buffer offset).awaited = rest := by
      rw [htake]
      unfold awaited at hawaited ⊢
      rw [← List.drop_drop, List.map_drop, hawaited]
      rfl
    have hlt : s.repliesRead < s.wire.length := by
      by_contra hge
      rw [awaited, List.drop_eq_nil_of_le (Nat.not_lt.mp hge)] at hawaited
      cases hawaited
    -- what is left is part of what was pending
    have hsublist : (nonAuthXids rest).Sublist (nonAuthXids s.client.pending) := by
      rw [hpending]
      exact ((List.sublist_cons_self e rest).filter _).map _
    -- the window moves on by one, unless an `Auth` is answered
    have hwindow : ∃ a n, nonAuthXids rest = (Cyclic.window xidCycle a n).map Int.ofNat ∧
        s.xid = Cyclic.value xidCycle (a + n) := by
      obtain ⟨a, n, hwindow, hxid⟩ := hs.window hsession
      rw [hawaited] at hwindow
      by_cases hauth : e.request.type = 100
      · exact ⟨a, n, by rw [← hwindow, nonAuthXids_cons_auth hauth], hxid⟩
      · rw [nonAuthXids_cons hauth] at hwindow
        cases n with
        | zero => cases hwindow
        | succ n =>
          rw [Cyclic.window_succ_left, List.map_cons, List.cons.injEq] at hwindow
          exact ⟨a + 1, n, hwindow.2, by rw [hxid, Nat.add_right_comm, Nat.add_assoc]⟩
    rw [htake] at hrest ⊢
    refine ⟨hs.connected, fun _ => ?_, fun _ => hlt, fun _ => ?_, fun h => ?_, fun _ => ?_,
      fun _ => ?_, hs.distinct.sublist hsublist, fun x hx => hs.inRange x (hsublist.subset hx), ?_,
      hs.after⟩
    · rw [hrest, hr]
      exact List.append_nil rest
    · rw [hrest]
      have hfew := hs.few hsession
      rw [hawaited, List.length_cons] at hfew
      omega
    · rw [hr] at h
      cases h
    · rw [hrest]
      exact hwindow
    · exact .inr ⟨hs.connected hsession, .inl hsession⟩
    · intro e' he'
      refine hs.auth e' ?_
      rw [hpending]
      exact List.mem_cons_of_mem _ he'

/-- A thread other than the connection thread takes a step. -/
theorem elsewhere {s' : Sys} (hs : s.Matching) (hr : s'.routine = s.routine)
    (hpending : s'.client.pending = s.client.pending)
    (hstate : s'.client.clientState = s.client.clientState) (hwire : s'.wire = s.wire)
    (hread : s'.repliesRead = s.repliesRead) (hxid : s'.xid = s.xid) : s'.Matching := by
  have hawaited : s'.awaited = s.awaited := by rw [awaited, hwire, hread, awaited]
  constructor <;> simp only [hr, hpending, hstate, hwire, hread, hxid, hawaited]
  exacts [hs.connected, hs.outstanding, hs.readLe, hs.few, hs.fresh, hs.window, hs.left, hs.distinct,
    hs.inRange, hs.auth, hs.after]

/-- The connection thread goes on within the session. -/
theorem within {s' : Sys} (hs : s.Matching) (hr : s.routine.InSession)
    (hr' : s'.routine.InSession) (hun : s'.routine.unpended = s.routine.unpended)
    (hpending : s'.client.pending = s.client.pending)
    (hstate : s'.client.clientState = s.client.clientState) (hwire : s'.wire = s.wire)
    (hread : s'.repliesRead = s.repliesRead) (hxid : s'.xid = s.xid) : s'.Matching := by
  have hawaited : s'.awaited = s.awaited := by rw [awaited, hwire, hread, awaited]
  constructor <;> (try simp only [hun, hpending, hstate, hwire, hread, hxid, hawaited])
  · exact fun _ => hs.connected hr
  · exact fun _ => hs.outstanding hr
  · exact fun _ => hs.readLe hr
  · exact fun _ => hs.few hr
  · exact fun h => absurd hr' (by rw [h]; exact id)
  · exact fun _ => hs.window hr
  · exact fun _ => .inr ⟨hs.connected hr, .inl hr'⟩
  · exact hs.distinct
  · exact hs.inRange
  · exact hs.auth
  · rintro st after (h | h) <;> rw [h] at hr' <;> cases hr'

theorem pending_eq_nil (hs : s.Matching) (hr : s.routine.Offline) : s.client.pending = [] := by
  by_contra hne
  obtain ⟨st, after, h⟩ | ⟨-, h | h | h⟩ := hs.left hne
  · rw [h] at hr; exact hr
  · exact Routine.not_inSession_of_offline hr h
  · rw [h] at hr; exact hr
  · rw [h] at hr; exact hr

/-- The connection thread goes on without a session and with nothing pending. -/
theorem idling {s' : Sys} (hs : s.Matching) (hr : s.routine.Offline)
    (hpending : s'.client.pending = s.client.pending) (hsession : ¬ s'.routine.InSession)
    (hdialling : s'.routine ≠ .dialling)
    (hafter : ∀ st after, s'.routine = .notifying st after ∨ s'.routine = .finishing st after →
      ¬ after.resume.InSession) : s'.Matching :=
  hs.offline hpending hsession hdialling (fun h => absurd (hs.pending_eq_nil hr) h) hafter

/-- The head of `_queue` is written under the next xid. -/
theorem submitted (hs : s.Matching) (hr : s.routine.InSession) (hun : s.routine.unpended = [])
    (hok : s.awaited.length < xidCycle) (request : Request) (asyncObject : Option AsyncId)
    (bytes : Bytes) :
    let e : PendingEntry :=
      ⟨request, asyncObject, if request.type = 100 then AUTH_XID else nextXid s.xid⟩
    Matching { s with
      xid := if request.type = 100 then s.xid else nextXid s.xid
      wire := s.wire ++ [⟨e, bytes⟩]
      routine := .submitted e } := by
  intro e
  have houtstanding := hs.outstanding hr
  rw [hun, List.append_nil] at houtstanding
  have hawaited : ((s.wire ++ [Frame.mk e bytes]).drop s.repliesRead).map Frame.entry =
      s.awaited ++ [e] := by
    rw [List.drop_append_of_le_length (hs.readLe hr), List.map_append]
    rfl
  refine ⟨fun _ => hs.connected hr, fun _ => ?_, fun _ => ?_, fun _ => ?_, fun h => (by cases h),
    fun _ => ?_, fun _ => .inr ⟨hs.connected hr, .inl trivial⟩, hs.distinct, hs.inRange, ?_,
    by rintro st after (h | h) <;> cases h⟩
  · exact (congrArg (· ++ [e]) houtstanding).trans hawaited.symm
  · exact (hs.readLe hr).trans (by simp)
  · rw [awaited, hawaited, List.length_append]
    exact hok
  -- the window grows by one, unless an `Auth` is sent
  · obtain ⟨a, n, hwindow, hxid⟩ := hs.window hr
    rw [awaited, hawaited, nonAuthXids_append]
    by_cases hauth : request.type = 100
    · refine ⟨a, n, ?_, ?_⟩
      · rw [nonAuthXids_cons_auth hauth, hwindow]
        exact List.append_nil _
      · rw [if_pos hauth]; exact hxid
    · have hnext : nextXid s.xid = Cyclic.value xidCycle (a + n + 1) := by
        rw [hxid, nextXid_value]
      refine ⟨a, n + 1, ?_, ?_⟩
      · rw [nonAuthXids_cons hauth, hwindow, Cyclic.window_succ_right, List.map_append,
          show e.xid = nextXid s.xid from if_neg hauth, hnext]
        rfl
      · rw [if_neg hauth]; exact hnext
  · intro e' he'
    rcases List.mem_append.mp he' with he' | he'
    · exact hs.auth e' (List.mem_append_left _ he')
    · obtain rfl := List.mem_singleton.mp he'
      exact fun hauth => if_pos hauth

/-- A new connection: nothing has been sent or read, and the counter is at 0. -/
theorem established (hs : s.Matching) (hr : s.routine = .dialling) (readOnly : Bool)
    (sessionId protocolVersion : Int) (passwd : Bytes) :
    (s.connected react readOnly sessionId protocolVersion passwd).Matching := by
  have hnil := hs.pending_eq_nil (by rw [hr]; trivial)
  obtain ⟨hwire, hread, hxid⟩ := hs.fresh hr
  obtain ⟨st, hconn, kz, live, ls, ns, h⟩ :=
    connected_frame react readOnly sessionId protocolVersion passwd s
  have hempty : s.awaited = [] := by rw [awaited, hwire, List.drop_nil]; rfl
  rw [h]
  refine ⟨fun _ => hconn, fun _ => ?_, fun _ => ?_, fun _ => ?_, fun h => (by cases h),
    fun _ => ⟨0, 0, ?_, hxid⟩, fun hne => absurd hnil hne, hs.distinct, hs.inRange, ?_,
    by rintro st after (h | h) <;> cases h⟩
  · exact (List.append_nil _).trans (hnil.trans hempty.symm)
  · exact hread ▸ Nat.zero_le _
  · exact Nat.le_trans (Nat.le_of_eq (congrArg List.length hempty)) (Nat.zero_le _)
  · exact congrArg nonAuthXids hempty
  · intro e he
    simp [hnil, Routine.unpended] at he

/-- The xid of the new entry of `_pending` is the last of the window. -/
theorem pended (hs : s.Matching) {e : PendingEntry} (hr : s.routine = .received e) :
    s.pend.Matching := by
  have hsession : s.routine.InSession := by rw [hr]; trivial
  have houtstanding := hs.outstanding hsession
  have hauth := hs.auth
  obtain ⟨hdistinct, hrange⟩ := hs.awaited_xids hsession
  rw [hr] at houtstanding hauth
  rw [← houtstanding] at hdistinct hrange
  simp only [Sys.pend, hr]
  refine ⟨fun _ => hs.connected hsession, fun _ => ?_, fun _ => hs.readLe hsession,
    fun _ => hs.few hsession, fun h => (by cases h), fun _ => hs.window hsession,
    fun _ => .inr ⟨hs.connected hsession, .inl trivial⟩, hdistinct, hrange, ?_,
    by rintro st after (h | h) <;> cases h⟩
  · exact (List.append_nil _).trans houtstanding
  · exact fun e' he' => hauth e' ((List.append_nil _).subst he')

theorem read (hs : s.Matching) (hr : s.routine = .serving) {header : ReplyHeader} {buffer : Bytes}
    {offset : Nat} (hok : s.FifoServer (.read header buffer offset)) :
    (s.read react header buffer offset).Matching := by
  have hroutine : (s.take header buffer offset).routine = .serving := hr
  have htake := hs.take hr hok
  simp only [Sys.read]
  split
  · exact htake
  · exact htake.callback (by simp [hroutine]) (by decide) id rfl
  · next hresult =>
    -- only an `Auth` that is rejected ends here
    obtain ⟨hauth, herr⟩ := Client.readSocket_authFailed hresult
    obtain ⟨hxid | hxid, -⟩ | ⟨e, rest, -, -, -, haccepted, -⟩ := hs.take_cases hr hok
    · rw [hauth] at hxid; cases hxid
    · rw [hauth] at hxid; cases hxid
    · exact absurd (haccepted hauth) herr
  · exact htake.raised (by simp [hroutine]) _ rfl

/-- Every step against a server that answers in order keeps the invariant. -/
theorem post (hs : s.Matching) {act : Act} (hen : s.enabled act) (hok : s.FifoServer act) :
    (s.post react act).Matching := by
  cases act with
  | callCheck item a =>
    simp only [Sys.post, callCheck]
    split
    · rw [Client.complete_eq]; exact hs.elsewhere rfl rfl rfl rfl rfl rfl
    · exact hs.elsewhere rfl rfl rfl rfl rfl rfl
  | callAppend i =>
    simp only [Sys.post, callAppend]
    split
    · exact hs
    · exact hs.elsewhere rfl rfl rfl rfl rfl rfl
  | callSend i ok =>
    simp only [Sys.post, callSend]
    split
    · exact hs
    · split
      · exact hs.elsewhere rfl rfl rfl rfl rfl rfl
      · rw [Client.complete_eq]; exact hs.elsewhere rfl rfl rfl rfl rfl rfl
  | stopEnter | stopMark | stopAppend | stopSend | close | ping | unresolved =>
    exact hs.elsewhere rfl rfl rfl rfl rfl rfl
  | safeClose | startAsync =>
    have hr : s.routine.Offline := by rcases hen.2.2 with h | h <;> rw [h] <;> trivial
    exact hs.idling hr rfl id (by simp [Sys.post, safeClose, startAsync])
      (by rintro st after (h | h) <;> cases h)
  | begin =>
    exact hs.idling (by rw [hen]; trivial) rfl id (by simp [Sys.post])
      (by rintro st after (h | h) <;> cases h)
  | giveUp =>
    refine hs.offline rfl id (by simp [Sys.post]) (fun hne => ?_)
      (by rintro st after (h | h) <;> cases h)
    obtain ⟨st, after, h⟩ | ⟨hconn, -⟩ := hs.left hne
    · rw [hen] at h; cases h
    · exact .inr ⟨hconn, .inr (.inr rfl)⟩
  | dial =>
    have hnil := hs.pending_eq_nil (by rw [hen]; trivial)
    refine ⟨fun h => h.elim, fun h => h.elim, fun h => h.elim, fun h => h.elim,
      fun _ => ⟨rfl, rfl, rfl⟩, fun h => h.elim, fun h => absurd hnil h, hs.distinct, hs.inRange, ?_,
      by rintro st after (h | h) <;> cases h⟩
    intro e he
    simp [Sys.post, dial, hnil, Routine.unpended] at he
  | authenticated zxid =>
    have hr : s.routine.InSession := by rw [hen]; trivial
    have hun : s.routine.unpended = [] := by rw [hen]; rfl
    cases zxid <;> exact hs.within hr trivial hun.symm rfl rfl rfl rfl rfl
  | attempt =>
    simp only [Sys.post, attempt]
    split
    · exact hs.callback (by simp [hen.1]) (by decide) id rfl
    · next hstate =>
      refine hs.offline rfl id (by simp) (fun hne => ?_) (by rintro st after (h | h) <;> cases h)
      obtain ⟨st, after, h⟩ | ⟨hconn, -⟩ := hs.left hne
      · rw [hen.1] at h; cases h
      · rw [not_not.mp hstate] at hconn
        exact absurd hconn (by decide)
  | connected readOnly sessionId protocolVersion passwd =>
    exact hs.established hen readOnly sessionId protocolVersion passwd
  | raise e =>
    exact hs.raised (by rcases hen with h | h | h <;> simp [h]) e rfl
  | read header buffer offset => exact hs.read hen hok
  | submit err =>
    have hr : s.routine.InSession := by rw [hen.1]; trivial
    have hun : s.routine.unpended = [] := by rw [hen.1]; rfl
    simp only [Sys.post]
    obtain ⟨-, h⟩ | ⟨xid, e, h⟩ | ⟨request, asyncObject, rest, bytes, -, -, h⟩ :=
      submit_cases react err s
    · rw [h]; exact hs.within hr trivial hun.symm rfl rfl rfl rfl rfl
    · rw [h]; exact hs.raised (by simp [hen.1]) e rfl
    · rw [h]
      exact hs.submitted hr hun hok request asyncObject bytes
  | popleft =>
    obtain ⟨e, hr⟩ := hen
    simp only [Sys.post, popleft, hr]
    exact hs.within (by rw [hr]; trivial) trivial (by rw [hr]; rfl) rfl rfl rfl rfl rfl
  | recv err =>
    obtain ⟨⟨e, hr⟩, -⟩ := hen
    cases err with
    | none =>
      simp only [Sys.post, recv, hr]
      exact hs.within (by rw [hr]; trivial) trivial (by rw [hr]; rfl) rfl rfl rfl rfl rfl
    | some exc => exact hs.raised (by simp [hr]) exc rfl
  | pend =>
    obtain ⟨e, hr⟩ := hen
    exact hs.pended hr
  | clear err =>
    obtain ⟨hr, -⟩ := hen
    simp only [Sys.post, clear]
    split
    · exact hs.within (by rw [hr]; trivial) trivial (by rw [hr]; rfl) rfl rfl rfl rfl rfl
    · exact hs.within (by rw [hr]; trivial) trivial (by rw [hr]; rfl) rfl rfl rfl rfl rfl
    · exact hs.raised (by simp [hr]) _ rfl
  | notify =>
    obtain ⟨st, after, hr⟩ := hen
    simp only [Sys.post, Sys.notify, hr, Client.notifyPending_eq]
    refine ⟨fun h => h.elim, fun h => h.elim, fun h => h.elim, fun h => h.elim, fun h => (by cases h),
      fun h => h.elim, fun h => absurd rfl h, List.nodup_nil, fun x hx => absurd hx List.not_mem_nil,
      fun e he => absurd he List.not_mem_nil, ?_⟩
    rintro st' after' (h | h)
    · cases h
    · cases h; exact hs.after st after (.inl hr)
  | finish =>
    obtain ⟨st, after, hr⟩ := hen
    have hnil := hs.pending_eq_nil (by rw [hr]; trivial)
    simp only [Sys.post, Sys.finish, hr]
    refine hs.idling (by rw [hr]; trivial) ?_ (hs.after st after (.inr hr))
      (After.resume_ne_dialling after) ?_
    · rw [Client.callbackEnd_pending, hnil]
      split <;> rfl
    · rintro st' after' (h | h) <;> cases after <;> cases h
  | exit =>
    have hr : s.routine = .stopping := hen
    exact hs.callback (by simp [hr]) (by decide) id rfl

end Matching

theorem matching_of_reach (h : (system react chroot).Reach FifoServer s) : s.Matching := by
  refine h.invariant ?_ fun _ _ _ hs hen hok => Matching.post hs hen hok
  refine ⟨fun h => h.elim, fun h => h.elim, fun h => h.elim, fun h => h.elim, fun h => (by cases h),
    fun h => h.elim, fun h => absurd rfl h, List.nodup_nil, fun x hx => absurd hx List.not_mem_nil,
    fun e he => absurd he List.not_mem_nil, ?_⟩
  rintro st after (h | h) <;> cases h

/-! ## Replies are matched to their own requests -/

structure RepliesMatched (s : Sys) : Prop where
  pending_eq : s.routine.InSession → s.client.pending ++ s.routine.unpended = s.awaited
  distinct : (nonAuthXids s.client.pending).Nodup
  inRange : ∀ x ∈ nonAuthXids s.client.pending, 1 ≤ x ∧ x ≤ 2147483647
  notReserved : ∀ x ∈ nonAuthXids s.client.pending,
    x ≠ WATCH_XID ∧ x ≠ PING_XID ∧ x ≠ AUTH_XID
  restart : s.enabled .dial → s.client.pending = []
  unsolicited : ∀ header buffer offset, s.enabled (.read header buffer offset) →
    header.xid = PING_XID ∨ header.xid = WATCH_XID →
      (s.client.readSocket header buffer offset).1.pending = s.client.pending ∧
      (s.client.readSocket header buffer offset).1.completions = s.client.completions
  answered : ∀ header buffer offset, s.enabled (.read header buffer offset) →
    s.FifoServer (.read header buffer offset) →
    header.xid ≠ PING_XID → header.xid ≠ WATCH_XID →
      ∃ e rest, s.awaited = e :: rest ∧ header.xid = e.xid ∧
        s.client.pending = e :: rest ∧
        (s.client.readSocket header buffer offset).1.pending = rest ∧
        (∀ expected received,
          (s.client.readSocket header buffer offset).2 ≠ .raised (.xidsDoNotMatch expected received)) ∧
        ∃ ks, (s.client.readSocket header buffer offset).1.completions = s.client.completions ++ ks ∧
          ∀ k ∈ ks, e.asyncObject = some k.asyncObject

/-- Against a server that answers each connection's requests in order, in every state of every run
`_pending` is what the server has still to answer, and its replies complete their own requests. -/
theorem replies_are_matched (h : (system react chroot).Reach FifoServer s) : s.RepliesMatched := by
  have hs := matching_of_reach h
  refine ⟨hs.outstanding, hs.distinct, hs.inRange, fun x hx => ?_,
    fun hdial => hs.pending_eq_nil (by rw [hdial]; trivial), ?_, ?_⟩
  · obtain ⟨hpos, -⟩ := hs.inRange x hx
    unfold WATCH_XID PING_XID AUTH_XID
    omega
  · intro header buffer offset hen hxid
    obtain ⟨-, data, child, sent, hread⟩ | ⟨e, rest, -, -, -, -, hping, hwatch, -⟩ :=
      hs.take_cases hen (hxid.elim .inl fun h => .inr (.inl h))
    · rw [hread]; exact ⟨rfl, rfl⟩
    · exact (hxid.elim hping hwatch).elim
  · intro header buffer offset hen hok hping hwatch
    obtain ⟨hxid, -⟩ | ⟨e, rest, hawaited, hpending, hxid, -, -, -, zxid, data, child, ks, hks, hread⟩ :=
      hs.take_cases hen hok
    · exact (hxid.elim hping hwatch).elim
    · refine ⟨e, rest, hawaited, hxid, hpending, by rw [hread], fun expected received hmismatch => ?_,
        ks, by rw [hread], ?_⟩
      · obtain ⟨e', he', hne⟩ := Client.readSocket_mismatch hwatch hmismatch
        rw [hpending] at he'
        obtain rfl : e = e' := Option.some.inj he'
        exact hne hxid
      · intro k hk
        cases hks with
        | anonymous | unknownError | close => cases hk
        | failed exc ha _ => rw [List.mem_singleton.mp hk]; exact ha
        | reply r ha _ _ => rw [List.mem_singleton.mp hk]; exact ha
        | auth ha _ _ => rw [List.mem_singleton.mp hk]; exact ha

/-- Two requests and an `Auth` are sent, and the first of them is answered after a ping. -/
theorem repliesMatched_answered :
    (run (connecting ++ calling (.getData (str "/a") none) 0 ++ sending ++
      calling (.auth 0 (str "digest") (str "u:p")) 1 ++ sending ++
      calling (.exists (str "/b") none) 2 ++ sending ++
      [.read ⟨PING_XID, 0, 0⟩ [] 0, .read ⟨1, 1, -101⟩ [] 0])).RepliesMatched :=
  replies_are_matched (reach_run (by decide +kernel))

end Sys

end Kazoo
