import Kazoo.System
import Kazoo.WatchSession

/-!
# Watches are neither lost nor duplicated

The server's armed watches are what the whole stream has armed and not fired, the client's tables
are the same of the part it has read.  That the two agree on the part read is all there is to it.
-/

namespace Kazoo

/-! ## Replies, as the client takes them -/

/-- The watch that a request asks for. -/
def Request.watches (request : Request) : Option (WatchKind × PyStr) :=
  request.watcher.map fun _ => (if request.isGetChildren then .child else .data, request.path)

/-- The watch that the client takes a reply to have armed. -/
def Reply.arms (r : Reply) : Option (WatchKind × PyStr) :=
  if r.header.err = 0 ∨ r.header.err = noNodeErrorCode ∧ r.entry.request.type = 3 then
    r.entry.request.watches
  else none

theorem Request.watches_of_getChildren {request : Request} {w : Watcher}
    (hw : request.watcher = some w) (h : request.isGetChildren = true) :
    request.watches = some (.child, request.path) := by
  rw [watches, hw, if_pos h, Option.map_some]

theorem Request.watches_of_not_getChildren {request : Request} {w : Watcher}
    (hw : request.watcher = some w) (h : request.isGetChildren ≠ true) :
    request.watches = some (.data, request.path) := by
  rw [watches, hw, if_neg h, Option.map_some]

/-- `xid` and `asyncObject` of what `_submit` puts on the wire for the callers of the API. -/
structure PendingEntry.Sent (e : PendingEntry) : Prop where
  isSome : e.asyncObject.isSome
  notClose : e.request ≠ .close
  auth : e.request.type = 100 → e.xid = AUTH_XID
  positive : e.request.type ≠ 100 → 1 ≤ e.xid

namespace Client

/-- The watcher of a reply goes where the server armed its watch. -/
def learn (c : Client) (r : Reply) : Client :=
  if r.arms.isSome then c.registerWatcher r.entry.request else c

variable {c : Client}

theorem learn_table (hrunning : c.stopped = false) (r : Reply) {w : Watcher}
    (hw : r.entry.request.watcher = some w) (kind : WatchKind) (path : PyStr) :
    ((c.learn r).table kind).watchers path =
      if r.arms = some (kind, path) then ((c.table kind).watchers path).insert w
      else (c.table kind).watchers path := by
  unfold learn
  by_cases harms : r.arms.isSome
  · have hwatches : r.arms = r.entry.request.watches := by
      unfold Reply.arms at harms ⊢
      split
      · rfl
      · next h => rw [if_neg h] at harms; cases harms
    rw [if_pos harms, hwatches, registerWatcher, hw]
    simp only [hrunning, Bool.false_eq_true, if_false]
    by_cases hchild : r.entry.request.isGetChildren
    · rw [Request.watches_of_getChildren hw hchild, if_pos hchild]
      cases kind with
      | data => simp [table]
      | child =>
        by_cases hpath : path = r.entry.request.path
        · simp [table, hpath]
        · simp [table, WatchTable.watchers_add_ne _ _ hpath, Ne.symm hpath]
    · rw [Request.watches_of_not_getChildren hw hchild, if_neg hchild]
      cases kind with
      | child => simp [table]
      | data =>
        by_cases hpath : path = r.entry.request.path
        · simp [table, hpath]
        · simp [table, WatchTable.watchers_add_ne _ _ hpath, Ne.symm hpath]
  · have hnone : r.arms = none := Option.not_isSome_iff_eq_none.mp harms
    rw [if_neg harms, hnone, if_neg (by simp)]

theorem learn_frame (c : Client) (r : Reply) :
    ∃ data child, c.learn r = { c with dataWatchers := data, childWatchers := child } := by
  unfold learn
  split
  · exact registerWatcher_frame c r.entry.request
  · exact ⟨c.dataWatchers, c.childWatchers, rfl⟩

/-- A reply without a watcher leaves the tables alone. -/
theorem learn_of_unwatched {r : Reply} (hw : r.entry.request.watcher = none) : c.learn r = c := by
  unfold learn registerWatcher
  rw [hw]
  split <;> rfl

theorem mem_learn_table (hrunning : c.stopped = false) {r : Reply} {kind : WatchKind}
    {path : PyStr} {w : Watcher} :
    w ∈ ((c.learn r).table kind).watchers path ↔
      r.arms = some (kind, path) ∧ r.entry.request.watcher = some w ∨
        w ∈ (c.table kind).watchers path := by
  cases hw : r.entry.request.watcher with
  | none => simp [learn_of_unwatched hw]
  | some w' =>
    rw [learn_table hrunning r hw]
    by_cases harms : r.arms = some (kind, path)
    · simp [harms, eq_comm]
    · simp [harms]

theorem nodup_learn_table (hrunning : c.stopped = false) (r : Reply) {kind : WatchKind}
    {path : PyStr} (h : ((c.table kind).watchers path).Nodup) :
    (((c.learn r).table kind).watchers path).Nodup := by
  cases hw : r.entry.request.watcher with
  | none => rwa [learn_of_unwatched hw]
  | some w =>
    rw [learn_table hrunning r hw]
    split
    · exact h.insert
    · exact h

theorem learn_of_arms {r : Reply} (harms : r.arms = r.entry.request.watches) :
    c.learn r = c.registerWatcher r.entry.request := by
  cases hw : r.entry.request.watcher with
  | none =>
    rw [learn_of_unwatched hw, registerWatcher, hw]
  | some w =>
    have hsome : r.arms.isSome = true := by
      rw [harms, Request.watches, hw]
      rfl
    exact if_pos hsome

theorem complete_registerWatcher (a : Option AsyncId) (o : Outcome) (r : Reply) :
    (c.complete a o).registerWatcher r.entry.request =
      { c.registerWatcher r.entry.request with
        completions := c.completions ++ a.toList.map (⟨·, o⟩) } := by
  rw [complete_eq]
  unfold registerWatcher
  split
  · dsimp only
    split
    · rfl
    · split <;> rfl
  · rfl

/-- A reply with the right xid that leaves the client connected. -/
theorem answer_learns {r : Reply} (hsent : r.entry.Sent)
    (hresult : (c.answer r.entry.request r.entry.asyncObject r.header.err r.buffer r.offset).2 =
      .none) :
    ∃ ks, (c.answer r.entry.request r.entry.asyncObject r.header.err r.buffer r.offset).1 =
      { c.learn r with completions := c.completions ++ ks } := by
  have htruthy : r.entry.request.truthy ∧ r.entry.asyncObject.isSome := by
    refine ⟨?_, hsent.isSome⟩
    have hclose := hsent.notClose
    revert hclose
    cases r.entry.request <;> simp [Request.truthy]
  unfold answer at hresult ⊢
  dsimp only at hresult ⊢
  split
  · next herr =>
    -- an error: the server has armed nothing
    have harms : r.arms = none := if_neg fun h => h.elim herr.1 herr.2
    rw [if_pos herr] at hresult
    split
    · next e hexc => rw [hexc] at hresult; cases hresult
    · next exc hexc =>
      rw [complete_eq, learn, harms]
      exact ⟨_, rfl⟩
  · next herr =>
    rw [if_neg herr, if_pos htruthy] at hresult
    split
    · next hexists =>
      have harms : r.arms = r.entry.request.watches := if_pos (.inr hexists)
      rw [complete_registerWatcher, learn_of_arms harms]
      exact ⟨_, rfl⟩
    · next hexists =>
      have hzero : r.header.err = 0 := by
        by_contra hne
        exact herr ⟨hne, hexists⟩
      have harms : r.arms = r.entry.request.watches := if_pos (.inl hzero)
      rw [if_neg hexists] at hresult
      split
      · next exc hexc =>
        have hwatcher : r.entry.request.watcher = none := by
          by_contra hne
          have hok := r.decodes (Option.isSome_iff_ne_none.mpr hne) hzero
          rw [hexc] at hok
          cases hok
        rw [complete_eq, learn_of_unwatched hwatcher]
        exact ⟨_, rfl⟩
      · next response hresponse =>
        rw [complete_registerWatcher, learn_of_arms harms]
        exact ⟨_, rfl⟩

/-- A reply takes the head of `_pending`, and of the watches it only brings its own. -/
theorem readSocket_reply {r : Reply} (hsent : r.entry.Sent) {rest : List PendingEntry}
    (hpending : c.pending = r.entry :: rest)
    (hresult : (c.readSocket r.header r.buffer r.offset).2 = .none) :
    ∃ zxid ks, (c.readSocket r.header r.buffer r.offset).1 =
      { c.learn r with
        pending := rest, lastZxid := zxid, completions := c.completions ++ ks } := by
  by_cases hauth : r.entry.request.type = 100
  · have hxid : r.header.xid = AUTH_XID := r.xid_eq.trans (hsent.auth hauth)
    have hwatcher : r.entry.request.watcher = none := by
      revert hauth
      cases r.entry.request <;> simp [Request.type, Request.watcher, Create.type, Delete.type,
        SetData.type, CheckVersion.type]
    obtain ⟨a, ha⟩ := Option.isSome_iff_exists.mp hsent.isSome
    have hread : c.readSocket r.header r.buffer r.offset = c.readAuth r.header := by
      unfold readSocket
      rw [hxid, if_neg (by decide), if_pos rfl]
    rw [hread] at hresult ⊢
    unfold readAuth at hresult ⊢
    rw [hpending] at hresult ⊢
    simp only [ha] at hresult ⊢
    rw [learn_of_unwatched hwatcher]
    split
    · next herr => rw [if_pos herr] at hresult; cases hresult
    · rw [complete_eq]
      exact ⟨_, _, rfl⟩
  · have hxid : 1 ≤ r.header.xid := r.xid_eq.symm ▸ hsent.positive hauth
    have hping : r.header.xid ≠ PING_XID := by unfold PING_XID; omega
    have hnotAuth : r.header.xid ≠ AUTH_XID := by unfold AUTH_XID; omega
    have hwatch : r.header.xid ≠ WATCH_XID := by unfold WATCH_XID; omega
    let c' : Client := { c with
      pending := rest
      lastZxid := if r.header.zxid > 0 then r.header.zxid else c.lastZxid }
    have hread : c.readSocket r.header r.buffer r.offset =
        c'.answer r.entry.request r.entry.asyncObject r.header.err r.buffer r.offset := by
      unfold readSocket
      rw [if_neg hping, if_neg hnotAuth, if_neg hwatch]
      unfold readResponse
      rw [hpending]
      dsimp only
      rw [if_neg (not_not.mpr r.xid_eq)]
      congr 1
      split
      · next h => simp only [c', if_pos h]
      · next h => simp only [c', if_neg h]
    rw [hread] at hresult ⊢
    obtain ⟨ks, hks⟩ := answer_learns hsent hresult
    refine ⟨c'.lastZxid, ks, hks.trans ?_⟩
    unfold learn registerWatcher
    split
    · split
      · dsimp only
        split
        · rfl
        · split <;> rfl
      · rfl
    · rfl

end Client

/-! ## What a stream of messages has armed -/

open Replay

def Message.Sets : Message → WatchKind × PyStr → Prop
  | .reply r, key => r.arms = some key
  | .event _ _, _ => False

def Message.Clears : Message → WatchKind × PyStr → Prop
  | .reply _, _ => False
  | .event e _, key => e.type.fires key.1 = true ∧ key.2 = e.path

/-- Message `a.reply` of the stream has armed the watch, and it has not fired since. -/
def Live (stream : List Message) (a : Arming) : Prop :=
  LiveAt Message.Sets Message.Clears stream (a.kind, a.path) a.reply

/-- The watcher of a reply that has armed the watch, which has not fired since. -/
def Watched (stream : List Message) (kind : WatchKind) (path : PyStr) (w : Watcher) : Prop :=
  ∃ i r, Live stream ⟨kind, path, i⟩ ∧ stream[i]? = some (.reply r) ∧
    r.entry.request.watcher = some w

theorem Arming.firedBy_iff (a : Arming) (type : EventType) (path : PyStr) :
    a.firedBy type path = true ↔ type.fires a.kind = true ∧ a.path = path := by
  simp [firedBy]

variable {stream : List Message} {a : Arming}

theorem live_reply {r : Reply} :
    Live (stream ++ [.reply r]) a ↔
      r.arms = some (a.kind, a.path) ∧ a.reply = stream.length ∨ Live stream a := by
  unfold Live
  rw [liveAt_concat, and_comm]
  exact or_congr Iff.rfl (and_iff_left id)

theorem live_event {e : Event} {fired : List Arming} :
    Live (stream ++ [.event e fired]) a ↔ Live stream a ∧ ¬ a.firedBy e.type e.path = true := by
  unfold Live
  rw [liveAt_concat, Arming.firedBy_iff]
  exact or_iff_right fun h => h.2

theorem watched_reply {r : Reply} {kind : WatchKind} {path : PyStr} {w : Watcher} :
    Watched (stream ++ [.reply r]) kind path w ↔
      r.arms = some (kind, path) ∧ r.entry.request.watcher = some w ∨
        Watched stream kind path w := by
  constructor
  · rintro ⟨i, r', hlive, hr', hw⟩
    rcases live_reply.mp hlive with ⟨harms, rfl⟩ | hlive
    · rw [List.getElem?_concat_length] at hr'
      cases hr'
      exact .inl ⟨harms, hw⟩
    · rw [List.getElem?_append_left hlive.lt_length] at hr'
      exact .inr ⟨i, r', hlive, hr', hw⟩
  · rintro (⟨harms, hw⟩ | ⟨i, r', hlive, hr', hw⟩)
    · exact ⟨stream.length, r, live_reply.mpr (.inl ⟨harms, rfl⟩), List.getElem?_concat_length, hw⟩
    · refine ⟨i, r', live_reply.mpr (.inr hlive), ?_, hw⟩
      rwa [List.getElem?_append_left hlive.lt_length]

theorem watched_event {e : Event} {fired : List Arming} {kind : WatchKind} {path : PyStr}
    {w : Watcher} :
    Watched (stream ++ [.event e fired]) kind path w ↔
      Watched stream kind path w ∧ ¬ (e.type.fires kind = true ∧ path = e.path) := by
  constructor
  · rintro ⟨i, r, hlive, hr, hw⟩
    obtain ⟨hlive, hfired⟩ := live_event.mp hlive
    rw [List.getElem?_append_left hlive.lt_length] at hr
    exact ⟨⟨i, r, hlive, hr, hw⟩, fun h => hfired ((Arming.firedBy_iff _ _ _).mpr h)⟩
  · rintro ⟨⟨i, r, hlive, hr, hw⟩, hfired⟩
    refine ⟨i, r, live_event.mpr ⟨hlive, fun h => hfired ((Arming.firedBy_iff _ _ _).mp h)⟩, ?_, hw⟩
    rwa [List.getElem?_append_left hlive.lt_length]

/-- What the server arms and what the client takes it to have armed are the same. -/
theorem Session.Answers.arms_eq {s : Session} {r : Reply} (h : s.Answers r) :
    r.arms = if r.carriedOut then armedBy s.nodes r.entry.request else none := by
  obtain ⟨-, hnode⟩ := h
  unfold Reply.arms Reply.carriedOut
  generalize r.entry.request = request at hnode ⊢
  generalize r.header.err = err at hnode ⊢
  by_cases hzero : err = 0
  · subst hzero
    cases request with
    | «exists» path watcher => cases watcher <;> simp [Request.watches, Request.watcher,
        Request.isGetChildren, Request.path, armedBy]
    | getData path watcher | getChildren path watcher | getChildren2 path watcher =>
      cases watcher with
      | none => simp [Request.watches, Request.watcher, armedBy]
      | some w =>
        have hmem : path ∈ s.nodes := (hnode rfl).1 rfl
        simp [Request.watches, Request.watcher, Request.isGetChildren, Request.path, armedBy, hmem]
    | _ => simp [Request.watches, Request.watcher, armedBy]
  by_cases hmissing : err = noNodeErrorCode
  · subst hmissing
    cases request with
    | «exists» path watcher => cases watcher <;> simp [Request.watches, Request.watcher,
        Request.isGetChildren, Request.path, Request.type, armedBy]
    | getData path watcher | getChildren path watcher | getChildren2 path watcher =>
      cases watcher with
      | none => simp [Request.watches, Request.watcher, armedBy]
      | some w =>
        have hmem : path ∉ s.nodes := (hnode rfl).2 rfl
        simp [hzero, Request.type, armedBy, hmem]
    | _ => simp [Request.watches, Request.watcher, armedBy]
  · simp [hzero, hmissing]

namespace Session

/-! ## The invariant -/

structure Tracks (s : Session) : Prop where
  running : s.client.stopped = false
  seenLe : s.seen ≤ s.messages.length
  pending : s.client.pending = (s.messages.drop s.seen).filterMap Message.entry? ++ s.toServer
  sent : ∀ e ∈ s.client.pending, e.Sent
  armed : ∀ a, a ∈ s.armed ↔ Live s.messages a
  fired : ∀ j e fired, s.messages[j]? = some (.event e fired) →
    ∀ a, a ∈ fired ↔ a.firedBy e.type e.path = true ∧ Live (s.messages.take j) a
  table : ∀ kind path w,
    w ∈ (s.client.table kind).watchers path ↔ Watched (s.messages.take s.seen) kind path w
  nodup : ∀ kind path, ((s.client.table kind).watchers path).Nodup

variable {s : Session}

theorem tracks_start (st : Start) : (start st).Tracks := by
  have hnone : ∀ kind path, (st.client.table kind).watchers path = [] := fun kind path => by
    rw [st.noWatchers kind, WatchTable.watchers_empty]
  refine ⟨st.running, Nat.le_refl 0, st.nothingPending, fun e he => ?_,
    fun a => iff_of_false List.not_mem_nil not_liveAt_nil, fun j e fired h => ?_,
    fun kind path w => iff_of_false ?_ ?_, fun kind path => ?_⟩
  · rw [start, st.nothingPending] at he
    cases he
  · cases h
  · rw [start, hnone]
    exact List.not_mem_nil
  · rintro ⟨i, r, hlive, -⟩
    exact not_liveAt_nil hlive
  · rw [start, hnone]
    exact List.nodup_nil

/-- What `_submit` gives a request for its reply to be told apart from pings and events. -/
theorem sent_submitted {request : Request} (hclose : request ≠ .close) (a : AsyncId) (xid : Int) :
    PendingEntry.Sent ⟨request, some a, if request.type = 100 then AUTH_XID else nextXid xid⟩ := by
  refine ⟨rfl, hclose, fun h => if_pos h, fun h => ?_⟩
  show 1 ≤ if request.type = 100 then AUTH_XID else nextXid xid
  rw [if_neg h, nextXid]
  omega

namespace Tracks

theorem call (hs : s.Tracks) (request : Request) (a : AsyncId) : (s.call request a).Tracks := by
  have htable : ∀ kind, (s.call request a).client.table kind = s.client.table kind := by
    intro kind
    cases kind <;> rfl
  refine ⟨hs.running, hs.seenLe, hs.pending, hs.sent, hs.armed, hs.fired, ?_, ?_⟩
  · intro kind path w
    rw [htable]
    exact hs.table kind path w
  · intro kind path
    rw [htable]
    exact hs.nodup kind path

theorem send (hs : s.Tracks) {request : Request} (hclose : request ≠ .close) (a : AsyncId) :
    (s.send request a).Tracks := by
  have htable : ∀ kind, (s.send request a).client.table kind = s.client.table kind := by
    intro kind
    cases kind <;> rfl
  refine ⟨hs.running, hs.seenLe, ?_, ?_, hs.armed, hs.fired, ?_, ?_⟩
  · show s.client.pending ++ [_] = _ ++ (s.toServer ++ [_])
    rw [hs.pending, List.append_assoc]
    rfl
  · intro e he
    rcases List.mem_append.mp he with he | he
    · exact hs.sent e he
    · obtain rfl := List.mem_singleton.mp he
      exact sent_submitted hclose a s.xid
  · intro kind path w
    rw [htable]
    exact hs.table kind path w
  · intro kind path
    rw [htable]
    exact hs.nodup kind path

theorem answer (hs : s.Tracks) {r : Reply} (hr : s.Answers r) : (s.answer r).Tracks := by
  obtain ⟨rest, hrest⟩ : ∃ rest, s.toServer = r.entry :: rest := by
    have hhead := hr.1
    cases h : s.toServer with
    | nil => rw [h] at hhead; cases hhead
    | cons e rest => rw [h] at hhead; cases hhead; exact ⟨rest, rfl⟩
  have hseen := hs.seenLe
  refine ⟨hs.running, ?_, ?_, hs.sent, fun a => ?_, fun j e fired hj a => ?_,
    fun kind path w => ?_, hs.nodup⟩
  · show s.seen ≤ (s.messages ++ [_]).length
    rw [List.length_append]
    omega
  · show s.client.pending = ((s.messages ++ [Message.reply r]).drop s.seen).filterMap _ ++ s.toServer.tail
    rw [hs.pending, hrest, List.drop_append_of_le_length hseen, List.filterMap_append,
      List.append_assoc]
    rfl
  · show _ ∈ (if r.carriedOut then _ else _) ↔ Live (s.messages ++ [.reply r]) a
    rw [live_reply, hr.arms_eq, ← hs.armed]
    split
    · cases h : armedBy s.nodes r.entry.request with
      | none => simp
      | some key =>
        obtain ⟨kind, path⟩ := key
        obtain ⟨kind', path', reply⟩ := a
        simp [or_comm, eq_comm, and_assoc]
    · simp
  · rcases getElem?_concat.mp hj with hj | ⟨-, hj⟩
    · have hlt := (List.getElem?_eq_some_iff.mp hj).1
      show _ ↔ _ ∧ Live ((s.messages ++ [_]).take j) a
      rw [List.take_append_of_le_length (Nat.le_of_lt hlt)]
      exact hs.fired j e fired hj a
    · cases hj
  · show _ ↔ Watched ((s.messages ++ [_]).take s.seen) kind path w
    rw [List.take_append_of_le_length hseen]
    exact hs.table kind path w

theorem change (hs : s.Tracks) (e : Event) : (s.change e).Tracks := by
  have hseen := hs.seenLe
  have hleft : ∀ a, a ∈ (s.change e).armed ↔
      Live s.messages a ∧ ¬ a.firedBy e.type e.path = true := fun a => by
    show a ∈ s.armed.filter _ ↔ _
    rw [List.mem_filter, hs.armed, Bool.not_eq_true', Bool.not_eq_true]
  by_cases hnone : s.armed.filter (·.firedBy e.type e.path) = []
  · -- nobody watches, and nothing is sent
    have hmessages : (s.change e).messages = s.messages := if_pos hnone
    have hkept : ∀ a, a ∈ s.armed → ¬ a.firedBy e.type e.path = true := fun a ha =>
      List.filter_eq_nil_iff.mp hnone a ha
    refine ⟨hs.running, ?_, ?_, hs.sent, fun a => ?_, ?_, ?_, hs.nodup⟩
    · rw [hmessages]; exact hseen
    · rw [hmessages]; exact hs.pending
    · rw [hleft, hmessages]
      exact and_iff_left_of_imp fun h => hkept a ((hs.armed a).mpr h)
    · rw [hmessages]; exact hs.fired
    · rw [hmessages]; exact hs.table
  · have hmessages : (s.change e).messages =
        s.messages ++ [.event e (s.armed.filter (·.firedBy e.type e.path))] := if_neg hnone
    refine ⟨hs.running, ?_, ?_, hs.sent, fun a => ?_, fun j e' fired hj a => ?_,
      fun kind path w => ?_, hs.nodup⟩
    · rw [hmessages, List.length_append]
      exact Nat.le_trans hseen (Nat.le_add_right _ _)
    · show s.client.pending = ((s.change e).messages.drop s.seen).filterMap _ ++ s.toServer
      rw [hmessages, List.drop_append_of_le_length hseen, List.filterMap_append, hs.pending]
      exact congrArg (· ++ s.toServer) (List.append_nil _).symm
    · rw [hleft, hmessages, live_event]
    · rw [hmessages] at hj ⊢
      rcases getElem?_concat.mp hj with hj | ⟨rfl, hlast⟩
      · have hlt := (List.getElem?_eq_some_iff.mp hj).1
        rw [List.take_append_of_le_length (Nat.le_of_lt hlt)]
        exact hs.fired j e' fired hj a
      · obtain ⟨rfl, rfl⟩ := Message.event.inj hlast
        rw [List.take_left, List.mem_filter, hs.armed, and_comm]
    · show _ ↔ Watched ((s.change e).messages.take s.seen) kind path w
      rw [hmessages, List.take_append_of_le_length hseen]
      exact hs.table kind path w

theorem take_next {m : Message} (hm : s.messages[s.seen]? = some m) :
    s.messages.take (s.seen + 1) = s.messages.take s.seen ++ [m] := by
  rw [List.take_add_one, hm, Option.toList_some]

theorem drop_next {m : Message} (hm : s.messages[s.seen]? = some m) :
    s.messages.drop s.seen = m :: s.messages.drop (s.seen + 1) := by
  obtain ⟨hlt, rfl⟩ := List.getElem?_eq_some_iff.mp hm
  exact List.drop_eq_getElem_cons hlt

/-- The next reply is for the head of `_pending`. -/
theorem pending_cons (hs : s.Tracks) {r : Reply} (hm : s.messages[s.seen]? = some (.reply r)) :
    s.client.pending =
      r.entry :: ((s.messages.drop (s.seen + 1)).filterMap Message.entry? ++ s.toServer) := by
  rw [hs.pending, drop_next hm]
  rfl

theorem deliver_reply (hs : s.Tracks) {r : Reply} (hm : s.messages[s.seen]? = some (.reply r))
    (hresult : (s.client.readSocket r.header r.buffer r.offset).2 = .none) :
    s.deliver.Tracks := by
  have hpending := hs.pending_cons hm
  have hsent : r.entry.Sent := hs.sent r.entry (by rw [hpending]; exact List.mem_cons_self)
  obtain ⟨zxid, ks, hread⟩ := Client.readSocket_reply hsent hpending hresult
  have hdeliver : s.deliver = { s with
      client := { s.client.learn r with
        pending := (s.messages.drop (s.seen + 1)).filterMap Message.entry? ++ s.toServer
        lastZxid := zxid, completions := s.client.completions ++ ks }
      seen := s.seen + 1 } := by
    rw [deliver, hm, ← hread]
    rfl
  have htable : ∀ kind, s.deliver.client.table kind = (s.client.learn r).table kind := fun kind => by
    rw [hdeliver]
    cases kind <;> rfl
  have hrunning : s.deliver.client.stopped = s.client.stopped := by
    obtain ⟨data, child, hlearn⟩ := Client.learn_frame s.client r
    rw [hdeliver, hlearn]
  refine ⟨hrunning.trans hs.running, ?_, ?_, fun e he => hs.sent e ?_, ?_, ?_,
    fun kind path w => ?_, fun kind path => ?_⟩
  · rw [hdeliver]; exact (List.getElem?_eq_some_iff.mp hm).1
  · rw [hdeliver]
  · rw [hdeliver] at he
    rw [hpending]
    exact List.mem_cons_of_mem _ he
  · rw [hdeliver]; exact hs.armed
  · rw [hdeliver]; exact hs.fired
  · have hstream : s.deliver.messages.take s.deliver.seen = s.messages.take s.seen ++ [.reply r] := by
      rw [hdeliver]
      exact take_next hm
    rw [htable, hstream, Client.mem_learn_table hs.running, watched_reply, hs.table]
  · rw [htable]
    exact Client.nodup_learn_table hs.running r (hs.nodup kind path)

theorem deliver_fires (hs : s.Tracks) {e : Event} {fired : List Arming}
    (hm : s.messages[s.seen]? = some (.event e fired)) :
    s.deliver = { s with client := s.client.fire e.type e.path, seen := s.seen + 1 } := by
  rw [deliver, hm]
  show { s with
    client := (s.client.readSocket e.header e.buffer e.offset).1, seen := s.seen + 1 } = _
  rw [Client.readSocket_event hs.running e]

theorem deliver_event (hs : s.Tracks) {e : Event} {fired : List Arming}
    (hm : s.messages[s.seen]? = some (.event e fired)) : s.deliver.Tracks := by
  have hdeliver := hs.deliver_fires hm
  refine ⟨?_, ?_, ?_, fun e' he => hs.sent e' ?_, ?_, ?_, fun kind path w => ?_, fun kind path => ?_⟩
  · rw [hdeliver]; exact hs.running
  · rw [hdeliver]; exact (List.getElem?_eq_some_iff.mp hm).1
  · have hpending := hs.pending
    rw [drop_next hm] at hpending
    rw [hdeliver]
    exact hpending
  · rw [hdeliver] at he; exact he
  · rw [hdeliver]; exact hs.armed
  · rw [hdeliver]; exact hs.fired
  · have hstream : s.deliver.messages.take s.deliver.seen =
        s.messages.take s.seen ++ [.event e fired] := by
      rw [hdeliver]
      exact take_next hm
    rw [hstream, watched_event, ← hs.table, hdeliver, Client.fire_watchers]
    split
    · next h => exact iff_of_false List.not_mem_nil fun h' => h'.2 h
    · next h => exact (and_iff_left h).symm
  · rw [hdeliver, Client.fire_watchers]
    split
    · exact List.nodup_nil
    · exact hs.nodup kind path

theorem post (hs : s.Tracks) {act : Act} (hen : s.enabled act) : (s.post act).Tracks := by
  cases act with
  | call request a => exact hs.call request a
  | send request a => exact hs.send hen.2 a
  | answer r => exact hs.answer hen
  | change e => exact hs.change e
  | deliver =>
    obtain ⟨m, hm, hresult⟩ := hen
    cases m with
    | reply r => exact hs.deliver_reply hm hresult
    | event e fired => exact hs.deliver_event hm

end Tracks

theorem tracks_of_reachable {st : Start} (h : (session st).Reachable s) : s.Tracks :=
  h.invariant (tracks_start st) fun _ _ _ hs hen _ => hs.post hen

/-! ## Watches are kept -/

/-- The reply has brought the watcher, and it waits in the table of the watch. -/
def Waits (s : Session) (a : Arming) : Prop :=
  ∃ r w, s.messages[a.reply]? = some (.reply r) ∧ r.entry.request.watcher = some w ∧
    w ∈ (s.client.table a.kind).watchers a.path

/-- How often `watch` is in the tables that the event pops. -/
def tablesWith (c : Client) (type : EventType) (path : PyStr) (watch : Watcher) : Nat :=
  (if type.fires .data = true ∧ watch ∈ (c.table .data).watchers path then 1 else 0) +
    if type.fires .child = true ∧ watch ∈ (c.table .child).watchers path then 1 else 0

structure WatchesKept (s : Session) : Prop where
  armed : ∀ a ∈ s.armed, a.reply < s.seen → s.Waits a
  fired : ∀ e fired, s.messages[s.seen]? = some (.event e fired) →
    ∀ a ∈ fired, a.reply < s.seen ∧ s.Waits a
  event : ∀ e fired, s.messages[s.seen]? = some (.event e fired) →
    s.enabled .deliver ∧
    (∃ sent : List Watcher,
      s.deliver.client.dispatched = s.client.dispatched ++ sent.map (fun watch =>
        (watch, ⟨e.type, s.client.clientState, some (s.client.unchroot e.path)⟩)) ∧
      ∀ watch, sent.count watch = tablesWith s.client e.type e.path watch) ∧
    ∀ kind path, (s.deliver.client.table kind).watchers path =
      if e.type.fires kind = true ∧ path = e.path then [] else (s.client.table kind).watchers path
  reply : ∀ r, s.messages[s.seen]? = some (.reply r) → s.enabled .deliver →
    s.deliver.client.dispatched = s.client.dispatched
  table : ∀ kind path, ∀ w ∈ (s.client.table kind).watchers path,
    ∃ i r, i < s.seen ∧ s.messages[i]? = some (.reply r) ∧ r.entry.request.watcher = some w ∧
      (⟨kind, path, i⟩ ∈ s.armed ∨
        ∃ j e fired, s.seen ≤ j ∧ s.messages[j]? = some (.event e fired) ∧ ⟨kind, path, i⟩ ∈ fired)

theorem watcher_of_live {stream : List Message} {a : Arming} (h : Live stream a) :
    ∃ r w, stream[a.reply]? = some (.reply r) ∧ r.entry.request.watcher = some w := by
  obtain ⟨⟨m, hm, hsets⟩, -⟩ := h
  cases m with
  | event e fired => exact hsets.elim
  | reply r =>
    have harms : r.arms = some (a.kind, a.path) := hsets
    have hwatches : r.entry.request.watches = some (a.kind, a.path) := by
      unfold Reply.arms at harms
      split at harms
      · exact harms
      · cases harms
    obtain ⟨w, hw, -⟩ := Option.map_eq_some_iff.mp hwatches
    exact ⟨r, w, hm, hw⟩

namespace Tracks

theorem waits (hs : s.Tracks) {a : Arming} (h : Live (s.messages.take s.seen) a) : s.Waits a := by
  obtain ⟨r, w, hr, hw⟩ := watcher_of_live h
  have hmessages : s.messages[a.reply]? = some (.reply r) := by
    rw [List.getElem?_take] at hr
    split at hr
    · exact hr
    · cases hr
  exact ⟨r, w, hmessages, hw, (hs.table a.kind a.path w).mpr ⟨a.reply, r, h, hr, hw⟩⟩

theorem dispatches (hs : s.Tracks) {e : Event} {fired : List Arming}
    (hm : s.messages[s.seen]? = some (.event e fired)) :
    ∃ sent : List Watcher,
      s.deliver.client.dispatched = s.client.dispatched ++ sent.map (fun watch =>
        (watch, ⟨e.type, s.client.clientState, some (s.client.unchroot e.path)⟩)) ∧
      ∀ watch, sent.count watch = tablesWith s.client e.type e.path watch := by
  have hcount : ∀ kind watch,
      (if e.type.fires kind then (s.client.table kind).watchers e.path else []).count watch =
        if e.type.fires kind = true ∧ watch ∈ (s.client.table kind).watchers e.path then 1
        else 0 := fun kind watch => by
    by_cases hfires : e.type.fires kind = true
    · rw [if_pos hfires, (hs.nodup kind e.path).count]
      exact if_congr (and_iff_right hfires).symm rfl rfl
    · rw [if_neg hfires, if_neg fun h => hfires h.1, List.count_nil]
  refine ⟨_, congrArg (fun s' => s'.client.dispatched) (hs.deliver_fires hm), fun watch => ?_⟩
  rw [List.count_append, hcount, hcount, tablesWith]

theorem reply_dispatches_nothing (hs : s.Tracks) {r : Reply}
    (hm : s.messages[s.seen]? = some (.reply r)) (hen : s.enabled .deliver) :
    s.deliver.client.dispatched = s.client.dispatched := by
  obtain ⟨m, hm', hresult⟩ := hen
  obtain rfl : Message.reply r = m := Option.some.inj (hm.symm.trans hm')
  have hpending := hs.pending_cons hm
  have hsent : r.entry.Sent := hs.sent r.entry (by rw [hpending]; exact List.mem_cons_self)
  obtain ⟨zxid, ks, hread⟩ := Client.readSocket_reply hsent hpending hresult
  obtain ⟨data, child, hlearn⟩ := Client.learn_frame s.client r
  have hdeliver : s.deliver.client = (s.client.readSocket r.header r.buffer r.offset).1 := by
    rw [deliver, hm]
    rfl
  rw [hdeliver, hread, hlearn]

theorem source (hs : s.Tracks) {kind : WatchKind} {path : PyStr} {w : Watcher}
    (hw : w ∈ (s.client.table kind).watchers path) :
    ∃ i r, i < s.seen ∧ s.messages[i]? = some (.reply r) ∧ r.entry.request.watcher = some w ∧
      (⟨kind, path, i⟩ ∈ s.armed ∨
        ∃ j e fired, s.seen ≤ j ∧ s.messages[j]? = some (.event e fired) ∧
          ⟨kind, path, i⟩ ∈ fired) := by
  obtain ⟨i, r, hlive, hr, hwatcher⟩ := (hs.table kind path w).mp hw
  have hi : i < s.seen := Nat.lt_of_lt_of_le hlive.lt_length (List.length_take_le _ _)
  rw [List.getElem?_take_of_lt hi] at hr
  refine ⟨i, r, hi, hr, hwatcher, ?_⟩
  -- either nothing has fired it, or the event that did is still under way
  rcases LiveAt.live_or_cleared hlive with hlive | ⟨j, m, hj, hm, hclears, hlive⟩
  · exact .inl ((hs.armed ⟨kind, path, i⟩).mpr hlive)
  · cases m with
    | reply r => exact hclears.elim
    | event e fired =>
      have hfired : Arming.firedBy ⟨kind, path, i⟩ e.type e.path = true :=
        (Arming.firedBy_iff _ _ _).mpr hclears
      exact .inr ⟨j, e, fired, hj, hm, (hs.fired j e fired hm _).mpr ⟨hfired, hlive⟩⟩

end Tracks

/-- While the client stays connected, in every state of every run the watchers whose watches are
armed, or have been fired by the next event, wait in their tables, the next event hands over each
of them once for every table it is in, and no other watcher waits. -/
theorem watches_are_kept {st : Start} (h : (session st).Reachable s) : s.WatchesKept := by
  have hs := tracks_of_reachable h
  refine ⟨fun a ha hread => hs.waits (((hs.armed a).mp ha).take hread), fun e fired hm a ha => ?_,
    fun e fired hm => ⟨⟨_, hm, ?_⟩, hs.dispatches hm, fun kind path => ?_⟩,
    fun r hm hen => hs.reply_dispatches_nothing hm hen, fun kind path w hw => hs.source hw⟩
  · obtain ⟨-, hlive⟩ := (hs.fired s.seen e fired hm a).mp ha
    exact ⟨Nat.lt_of_lt_of_le hlive.lt_length (List.length_take_le _ _), hs.waits hlive⟩
  · show (s.client.readSocket e.header e.buffer e.offset).2 = .none
    rw [Client.readSocket_event hs.running e]
  · rw [hs.deliver_fires hm]
    exact Client.fire_watchers s.client e.type e.path kind path

/-- A client that has just connected, to a server with one node. -/
def onlyNode : Start where
  client := { Client.new [] with clientState := .CONNECTED, state := .CONNECTED, stopped := false }
  nodes := [str "/a"]
  running := rfl
  nothingPending := rfl
  noWatchers := fun kind => by cases kind <;> rfl

def existsReply : Reply where
  entry := ⟨.exists (str "/a") (some 7), some 0, 1⟩
  header := ⟨1, 1, 0⟩
  buffer := List.replicate statSize 0
  offset := 0
  xid_eq := rfl
  decodes := fun _ _ => by decide +kernel

def childrenReply : Reply where
  entry := ⟨.getChildren (str "/a") (some 7), some 1, 2⟩
  header := ⟨2, 1, 0⟩
  buffer := [255, 255, 255, 255]
  offset := 0
  xid_eq := rfl
  decodes := fun _ _ => by decide +kernel

def deletedEvent : Event where
  type := .DELETED
  path := str "/a"
  header := ⟨WATCH_XID, 2, 0⟩
  buffer := [0, 0, 0, 2, 0, 0, 0, 3, 0, 0, 0, 2, 47, 97]
  offset := 0
  xid_eq := rfl
  decodes := ⟨2, 3, 14, rfl, by decide +kernel⟩

/-- One function watches the node and its children.  The node is deleted while the second reply is
on its way, and the client is about to read the event. -/
def doublyWatched : List Act :=
  [.call (.exists (str "/a") (some 7)) 0, .send (.exists (str "/a") (some 7)) 0,
    .call (.getChildren (str "/a") (some 7)) 1, .send (.getChildren (str "/a") (some 7)) 1,
    .answer existsReply, .deliver, .answer childrenReply, .change deletedEvent, .deliver]

theorem watchesKept_doublyWatched :
    WatchesKept ((session onlyNode).exec (.start onlyNode) doublyWatched) :=
  watches_are_kept (.of_legal (by decide +kernel))

/-- The event is still to be read: the function waits in both tables, and is called twice. -/
example :
    let s := (session onlyNode).exec (.start onlyNode) doublyWatched
    s.seen = 2 ∧ s.messages.length = 3 ∧ s.armed = [] ∧ s.client.dispatched = [] ∧
      (s.client.dataWatchers.watchers (str "/a"), s.client.childWatchers.watchers (str "/a")) =
        ([7], [7]) ∧
      s.deliver.client.dispatched.map (·.1) = [7, 7] := by
  decide +kernel

/-! ## The connection thread takes these steps -/

/-- The connection thread is in its loop, with the client and the xid of the session. -/
structure Mirrors (s : Session) (y : Sys) : Prop where
  serving : y.routine = .serving
  client : y.client = s.client
  xid : y.xid = s.xid

variable {react : Listeners} {chroot : PyStr} {y : Sys}

theorem Mirrors.send (h : Mirrors s y) {request : Request} {a : AsyncId} {bytes : Bytes}
    (hen : s.enabled (.send request a))
    (hbytes : submitBytes request (if request.type = 100 then AUTH_XID else nextXid s.xid) =
      .ok bytes) :
    Mirrors (s.send request a) ((system react chroot).exec y Sys.sending) := by
  obtain ⟨rest, hqueue⟩ := List.head?_eq_some_iff.mp hen.1
  have hsubmit : y.submit react none = { y with
      xid := if request.type = 100 then s.xid else nextXid s.xid
      wire := y.wire ++ [⟨⟨request, some a,
        if request.type = 100 then AUTH_XID else nextXid s.xid⟩, bytes⟩]
      routine := .submitted ⟨request, some a,
        if request.type = 100 then AUTH_XID else nextXid s.xid⟩ } := by
    unfold Sys.submit
    rw [h.client, hqueue, h.xid]
    simp only [hbytes]
  have hexec : (system react chroot).exec y Sys.sending =
      (((y.submit react none).popleft).recv react none).pend := rfl
  rw [hexec, hsubmit]
  refine ⟨rfl, ?_, rfl⟩
  simp only [Sys.popleft, Sys.recv, Sys.pend, h.client, Session.send]

theorem Mirrors.deliver (h : Mirrors s y) {m : Message} (hm : s.messages[s.seen]? = some m)
    (hresult : (m.read s.client).2 = .none) :
    Mirrors s.deliver (y.post react (.read m.header m.buffer m.offset)) := by
  have hread : (y.client.readSocket m.header m.buffer m.offset).2 = .none := by
    rw [h.client]
    exact hresult
  have hpost : y.post react (.read m.header m.buffer m.offset) =
      y.take m.header m.buffer m.offset := by
    show y.read react m.header m.buffer m.offset = _
    unfold Sys.read
    rw [hread]
  rw [hpost, Session.deliver, hm]
  exact ⟨h.serving, congrArg (fun c => (c.readSocket m.header m.buffer m.offset).1) h.client, h.xid⟩

end Session

end Kazoo
