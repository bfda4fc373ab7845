import Kazoo.Client

/-!
# The connection handler

The functions of `kazoo/protocol/connection.py` that read messages and write requests, as functions
on the client state.  A function that may leave by an exception returns how it left.
-/

namespace Kazoo

def WATCH_XID : Int := -1
def PING_XID : Int := -2
def AUTH_XID : Int := -4

/-- How `_read_socket` comes back. -/
inductive ReadResult
  | none
  | closeResponse
  -- it calls `_session_callback(AUTH_FAILED)` and then returns `None`
  | authFailed
  | raised (e : Exn)
  deriving DecidableEq, Repr

namespace Client

/-! ## Watch events -/

/-- `table.pop(path, [])` and what is left of the table; a null path is no key of any table. -/
def popWatchers (table : WatchTable) (path : Option PyStr) : List Watcher × WatchTable :=
  match path with
  | some p => (table.watchers p, table.pop p)
  | none => ([], table)

/-- `client.unchroot(path)`, with the `AttributeError` of `None.startswith`. -/
def unchrootPath (c : Client) (path : Option PyStr) : Except Exn (Option PyStr) :=
  match path with
  | some p => .ok (some (c.unchroot p))
  | none => if c.chroot = [] then .ok none else .error .attributeError

/-- The end of `_read_watch_event`: the popped watchers go to the watch thread. -/
def dispatchWatchers (c : Client) (type : EventType) (path : Option PyStr)
    (watchers : List Watcher) : Client × ReadResult :=
  match c.unchrootPath path with
  | .error e => (c, .raised e)
  | .ok path =>
    let ev : WatchedEvent := ⟨type, c.clientState, path⟩
    -- the watchers are off the tables by now, and nobody calls them
    if c.stopped then (c, .none)
    else ({ c with dispatched := c.dispatched ++ watchers.map fun watch => (watch, ev) }, .none)

/-- `_read_watch_event` on a decoded event. -/
def handleWatch (c : Client) (watch : Watch) : Client × ReadResult :=
  let data := popWatchers c.dataWatchers watch.path
  let child := popWatchers c.childWatchers watch.path
  if watch.type = CREATED_EVENT then
    dispatchWatchers { c with dataWatchers := data.2 } .CREATED watch.path data.1
  else if watch.type = CHANGED_EVENT then
    dispatchWatchers { c with dataWatchers := data.2 } .CHANGED watch.path data.1
  else if watch.type = DELETED_EVENT then
    dispatchWatchers { c with dataWatchers := data.2, childWatchers := child.2 } .DELETED
      watch.path (data.1 ++ child.1)
  else if watch.type = CHILD_EVENT then
    dispatchWatchers { c with childWatchers := child.2 } .CHILD watch.path child.1
  else (c, .none)

/-- `_read_watch_event`. -/
def readWatchEvent (c : Client) (buffer : Bytes) (offset : Nat) : Client × ReadResult :=
  match Watch.deserialize buffer offset with
  | .error e => (c, .raised e)
  | .ok (watch, _) => c.handleWatch watch

/-! ## Replies -/

/-- `Transaction.unchroot`. -/
def unchrootResults (c : Client) (results : List OperationResult) : List OperationResult :=
  results.map fun
    | .path p => .path (c.unchroot p)
    | result => result

/-- What the async result of `request` is set to for a decoded response. -/
def finishResponse (c : Client) : Response → Response
  | .results results => .results (c.unchrootResults results)
  | response => response

/-- "Determine if watchers should be registered". -/
def registerWatcher (c : Client) (request : Request) : Client :=
  match request.watcher with
  | some watcher =>
    if c.stopped then c
    else if request.isGetChildren then
      { c with childWatchers := c.childWatchers.add request.path watcher }
    else { c with dataWatchers := c.dataWatchers.add request.path watcher }
  | none => c

/-- The end of `_read_response`. -/
def closeOrNone (request : Request) : ReadResult :=
  if request = .close then .closeResponse else .none

/-- `_read_response` once the head of `_pending` is popped and its xid compared. -/
def answer (c : Client) (request : Request) (asyncObject : Option AsyncId) (err : Int)
    (buffer : Bytes) (offset : Nat) : Client × ReadResult :=
  let existsError := err = noNodeErrorCode ∧ request.type = 3
  if err ≠ 0 ∧ ¬ existsError then
    match EXCEPTIONS err with
    | .error e => (c, .raised e)
    | .ok callbackException =>
      (c.complete asyncObject (.exception callbackException), closeOrNone request)
  else if request.truthy ∧ asyncObject.isSome then
    if existsError then
      ((c.complete asyncObject (.value .none)).registerWatcher request, closeOrNone request)
    else
      match request.deserialize buffer offset with
      -- this `return` comes before the test for `Close`
      | .error exc => (c.complete asyncObject (.exception exc), .none)
      | .ok response =>
        let c := c.complete asyncObject (.value (c.finishResponse response))
        (c.registerWatcher request, closeOrNone request)
  -- `if async_object`: nobody waits, and the body is not even decoded
  else (c, closeOrNone request)

/-- `_read_response`. -/
def readResponse (c : Client) (header : ReplyHeader) (buffer : Bytes) (offset : Nat) :
    Client × ReadResult :=
  match c.pending with
  | [] => (c, .raised .indexError)
  | ⟨request, asyncObject, xid⟩ :: pending =>
    let c := { c with pending := pending }
    let c := if header.zxid > 0 then { c with lastZxid := header.zxid } else c
    if header.xid ≠ xid then
      match asyncObject with
      -- `None.set_exception`
      | none => (c, .raised .attributeError)
      | some _ =>
        let exc := Exn.xidsDoNotMatch xid header.xid
        (c.complete asyncObject (.exception exc), .raised exc)
    else c.answer request asyncObject header.err buffer offset

/-- The branch of `_read_socket` for `AUTH_XID`. -/
def readAuth (c : Client) (header : ReplyHeader) : Client × ReadResult :=
  match c.pending with
  | [] => (c, .raised .indexError)
  | ⟨_, asyncObject, _⟩ :: pending =>
    let c := { c with pending := pending }
    match asyncObject with
    -- the reply is not compared with the request it is for
    | none => (c, .raised .attributeError)
    | some _ =>
      if header.err ≠ 0 then
        (c.complete asyncObject (.exception .authFailedError), .authFailed)
      else (c.complete asyncObject (.value .true), .none)

/-- `_read_socket`, once `_read_header` has come back with `header`, `buffer` and `offset`. -/
def readSocket (c : Client) (header : ReplyHeader) (buffer : Bytes) (offset : Nat) :
    Client × ReadResult :=
  if header.xid = PING_XID then (c, .none)
  else if header.xid = AUTH_XID then c.readAuth header
  else if header.xid = WATCH_XID then c.readWatchEvent buffer offset
  else c.readResponse header buffer offset

/-! ## What a message does to the client -/

theorem dispatchWatchers_frame (c : Client) (type : EventType) (path : Option PyStr)
    (watchers : List Watcher) :
    ∃ sent, (c.dispatchWatchers type path watchers).1 = { c with dispatched := sent } := by
  unfold dispatchWatchers
  split
  · exact ⟨c.dispatched, rfl⟩
  · dsimp only
    split
    · exact ⟨c.dispatched, rfl⟩
    · exact ⟨_, rfl⟩

/-- A watch event only touches the watcher tables and what is dispatched. -/
theorem readWatchEvent_frame (c : Client) (buffer : Bytes) (offset : Nat) :
    ∃ data child sent, (c.readWatchEvent buffer offset).1 =
      { c with dataWatchers := data, childWatchers := child, dispatched := sent } := by
  unfold readWatchEvent
  split
  · exact ⟨c.dataWatchers, c.childWatchers, c.dispatched, rfl⟩
  · next watch _ _ =>
    unfold handleWatch
    dsimp only
    split
    · obtain ⟨sent, h⟩ := dispatchWatchers_frame
        { c with dataWatchers := (popWatchers c.dataWatchers watch.path).2 } .CREATED watch.path
        (popWatchers c.dataWatchers watch.path).1
      exact ⟨_, c.childWatchers, sent, h⟩
    · split
      · obtain ⟨sent, h⟩ := dispatchWatchers_frame
          { c with dataWatchers := (popWatchers c.dataWatchers watch.path).2 } .CHANGED watch.path
          (popWatchers c.dataWatchers watch.path).1
        exact ⟨_, c.childWatchers, sent, h⟩
      · split
        · obtain ⟨sent, h⟩ := dispatchWatchers_frame
            { c with
              dataWatchers := (popWatchers c.dataWatchers watch.path).2
              childWatchers := (popWatchers c.childWatchers watch.path).2 } .DELETED watch.path
            ((popWatchers c.dataWatchers watch.path).1 ++ (popWatchers c.childWatchers watch.path).1)
          exact ⟨_, _, sent, h⟩
        · split
          · obtain ⟨sent, h⟩ := dispatchWatchers_frame
              { c with childWatchers := (popWatchers c.childWatchers watch.path).2 } .CHILD
              watch.path (popWatchers c.childWatchers watch.path).1
            exact ⟨c.dataWatchers, _, sent, h⟩
          · exact ⟨c.dataWatchers, c.childWatchers, c.dispatched, rfl⟩

theorem registerWatcher_frame (c : Client) (request : Request) :
    ∃ data child, c.registerWatcher request =
      { c with dataWatchers := data, childWatchers := child } := by
  unfold registerWatcher
  split
  · split
    · exact ⟨c.dataWatchers, c.childWatchers, rfl⟩
    · split
      · exact ⟨c.dataWatchers, _, rfl⟩
      · exact ⟨_, c.childWatchers, rfl⟩
  · exact ⟨c.dataWatchers, c.childWatchers, rfl⟩

/-- How the popped head `e` of `_pending` can be completed by a message with this header. -/
inductive Answered (e : PendingEntry) (header : ReplyHeader) : List Completion → Prop
  | anonymous : e.asyncObject = none → Answered e header []
  -- `EXCEPTIONS[header.err]` raises before the async result is touched
  | unknownError : header.xid ≠ AUTH_XID → header.xid = e.xid → header.err ∉ exceptionCodes →
      Answered e header []
  | close : e.request = .close → Answered e header []
  | failed {a : AsyncId} (exc : Exn) : e.asyncObject = some a →
      (header.xid ≠ AUTH_XID → header.xid = e.xid → header.err ∈ exceptionCodes) →
      Answered e header [⟨a, .exception exc⟩]
  | reply {a : AsyncId} (r : Response) : e.asyncObject = some a → header.xid = e.xid →
      header.err ∈ exceptionCodes → Answered e header [⟨a, .value r⟩]
  | auth {a : AsyncId} : e.asyncObject = some a → header.xid = AUTH_XID → header.err = 0 →
      Answered e header [⟨a, .value .true⟩]

theorem answer_spec (c : Client) (e : PendingEntry) (header : ReplyHeader) (buffer : Bytes)
    (offset : Nat) (hauth : header.xid ≠ AUTH_XID) (hxid : header.xid = e.xid) :
    ∃ data child ks, Answered e header ks ∧
      (c.answer e.request e.asyncObject header.err buffer offset).1 =
        { c with
          dataWatchers := data, childWatchers := child, completions := c.completions ++ ks } := by
  unfold answer
  dsimp only
  split
  · next herr =>
    -- an error reply, unless it says to an `exists` that there is no node
    split
    · next exc hexc =>
      have hcode : header.err ∉ exceptionCodes := by
        intro hmem
        rw [EXCEPTIONS_of_mem hmem] at hexc
        cases hexc
      exact ⟨c.dataWatchers, c.childWatchers, [], .unknownError hauth hxid hcode, by simp⟩
    · next exc hexc =>
      have hcode : header.err ∈ exceptionCodes := (EXCEPTIONS_eq_ok_iff.mp hexc).1
      rw [complete_eq]
      cases ha : e.asyncObject with
      | none => exact ⟨c.dataWatchers, c.childWatchers, [], .anonymous ha, rfl⟩
      | some a =>
        exact ⟨c.dataWatchers, c.childWatchers, _, .failed exc ha (fun _ _ => hcode), rfl⟩
  · next herr =>
    -- both codes that mean success here are in the table
    have hcode : header.err ∈ exceptionCodes := by
      by_cases hzero : header.err = 0
      · rw [hzero]; decide
      · rw [(not_not.mp fun hexists => herr ⟨hzero, hexists⟩).1]; decide
    -- somebody waits for the reply, or it completes nothing
    split
    · next hsome =>
      obtain ⟨a, ha⟩ := Option.isSome_iff_exists.mp hsome.2
      rw [ha]
      split
      · obtain ⟨data, child, h⟩ := registerWatcher_frame (c.complete (some a) (.value .none)) e.request
        exact ⟨data, child, _, .reply .none ha hxid hcode, h⟩
      · split
        · next exc _ =>
          exact ⟨c.dataWatchers, c.childWatchers, _, .failed exc ha (fun _ _ => hcode), rfl⟩
        · next response _ =>
          obtain ⟨data, child, h⟩ :=
            registerWatcher_frame (c.complete (some a) (.value (c.finishResponse response))) e.request
          exact ⟨data, child, _, .reply _ ha hxid hcode, h⟩
    · next hnone =>
      have hnobody : Answered e header [] := by
        by_cases hclose : e.request = .close
        · exact .close hclose
        · refine .anonymous (Option.not_isSome_iff_eq_none.mp fun hsome => hnone ⟨?_, hsome⟩)
          revert hclose
          cases e.request <;> simp [Request.truthy]
      exact ⟨c.dataWatchers, c.childWatchers, [], hnobody, by simp⟩

/-- A message is either none of the replies `_pending` waits for, and then leaves the requests
alone, or it takes the head of `_pending` and at most completes that. -/
theorem readSocket_spec (c : Client) (header : ReplyHeader) (buffer : Bytes) (offset : Nat) :
    ((header.xid = PING_XID ∨ header.xid = WATCH_XID ∨ c.pending = []) ∧
      ∃ data child sent, (c.readSocket header buffer offset).1 =
        { c with dataWatchers := data, childWatchers := child, dispatched := sent }) ∨
    ∃ e rest, c.pending = e :: rest ∧ header.xid ≠ PING_XID ∧ header.xid ≠ WATCH_XID ∧
      ∃ zxid data child ks, Answered e header ks ∧ (c.readSocket header buffer offset).1 =
        { c with
          pending := rest, lastZxid := zxid, dataWatchers := data, childWatchers := child
          completions := c.completions ++ ks } := by
  unfold readSocket
  by_cases hping : header.xid = PING_XID
  · rw [if_pos hping]
    exact .inl ⟨.inl hping, c.dataWatchers, c.childWatchers, c.dispatched, rfl⟩
  rw [if_neg hping]
  by_cases hauth : header.xid = AUTH_XID
  · rw [if_pos hauth]
    -- the head is taken whatever its xid is
    have hwatch : header.xid ≠ WATCH_XID := by rw [hauth]; decide
    unfold readAuth
    split
    · next hnil =>
      exact .inl ⟨.inr (.inr hnil), c.dataWatchers, c.childWatchers, c.dispatched, rfl⟩
    · next request asyncObject xid rest hcons =>
      refine .inr ⟨_, rest, hcons, hping, hwatch, c.lastZxid, c.dataWatchers, c.childWatchers, ?_⟩
      dsimp only
      split
      · exact ⟨[], .anonymous rfl, by simp⟩
      · split
        · exact ⟨_, .failed .authFailedError rfl (fun h => absurd hauth h), rfl⟩
        · next herr => exact ⟨_, .auth rfl hauth (not_not.mp herr), rfl⟩
  rw [if_neg hauth]
  by_cases hwatch : header.xid = WATCH_XID
  · rw [if_pos hwatch]
    exact .inl ⟨.inr (.inl hwatch), readWatchEvent_frame c buffer offset⟩
  rw [if_neg hwatch]
  -- what is left is a reply for the head
  unfold readResponse
  split
  · next hnil => exact .inl ⟨.inr (.inr hnil), c.dataWatchers, c.childWatchers, c.dispatched, rfl⟩
  · next request asyncObject xid rest hcons =>
    refine .inr ⟨_, rest, hcons, hping, hwatch, if header.zxid > 0 then header.zxid else c.lastZxid, ?_⟩
    -- `last_zxid` is set on the way, before the xids are compared
    have hzxid : (if header.zxid > 0 then { c with pending := rest, lastZxid := header.zxid }
        else { c with pending := rest }) =
        { c with
          pending := rest
          lastZxid := if header.zxid > 0 then header.zxid else c.lastZxid } := by
      split <;> rfl
    dsimp only
    rw [hzxid]
    split
    · next hne =>
      split
      · exact ⟨c.dataWatchers, c.childWatchers, [], .anonymous rfl, by simp⟩
      · exact ⟨c.dataWatchers, c.childWatchers, _, .failed _ rfl (fun _ h => absurd h hne), rfl⟩
    · next hxid =>
      obtain ⟨data, child, ks, hks, h⟩ :=
        answer_spec { c with
          pending := rest
          lastZxid := if header.zxid > 0 then header.zxid else c.lastZxid }
          ⟨request, asyncObject, xid⟩ header buffer offset hauth (not_not.mp hxid)
      exact ⟨data, child, ks, hks, h⟩

/-! ## How a message is left -/

theorem dispatchWatchers_result (c : Client) (type : EventType) (path : Option PyStr)
    (watchers : List Watcher) : (c.dispatchWatchers type path watchers).2 ≠ .authFailed := by
  unfold dispatchWatchers
  dsimp only
  split
  · simp
  · split <;> simp

theorem readWatchEvent_result (c : Client) (buffer : Bytes) (offset : Nat) :
    (c.readWatchEvent buffer offset).2 ≠ .authFailed := by
  unfold readWatchEvent handleWatch
  dsimp only
  split
  · simp
  · split
    · exact dispatchWatchers_result _ _ _ _
    · split
      · exact dispatchWatchers_result _ _ _ _
      · split
        · exact dispatchWatchers_result _ _ _ _
        · split
          · exact dispatchWatchers_result _ _ _ _
          · simp

theorem closeOrNone_cases (request : Request) :
    closeOrNone request = .closeResponse ∨ closeOrNone request = .none := by
  unfold closeOrNone
  split
  · exact .inl rfl
  · exact .inr rfl

/-- A reply with the right xid raises for its error code only. -/
theorem answer_result {c : Client} {request : Request} {asyncObject : Option AsyncId} {err : Int}
    {buffer : Bytes} {offset : Nat} {result : ReadResult}
    (h : (c.answer request asyncObject err buffer offset).2 = result) :
    result = .raised .invalidErrorCode ∨ result = .closeResponse ∨ result = .none := by
  subst h
  unfold answer
  dsimp only
  split
  · split
    · next e herr =>
      unfold EXCEPTIONS at herr
      split at herr
      · cases herr
      · cases herr; exact .inl rfl
    · exact .inr (closeOrNone_cases request)
  · split
    · split
      · exact .inr (closeOrNone_cases request)
      · split
        · exact .inr (.inr rfl)
        · exact .inr (closeOrNone_cases request)
    · exact .inr (closeOrNone_cases request)

/-- Only the reply to an `Auth` ends in `AUTH_FAILED`. -/
theorem readSocket_authFailed {c : Client} {header : ReplyHeader} {buffer : Bytes} {offset : Nat}
    (h : (c.readSocket header buffer offset).2 = .authFailed) :
    header.xid = AUTH_XID ∧ header.err ≠ 0 := by
  unfold readSocket at h
  split at h
  · cases h
  split at h
  · next hauth =>
    refine ⟨hauth, fun herr => ?_⟩
    unfold readAuth at h
    dsimp only at h
    split at h
    · cases h
    · split at h
      · cases h
      -- an `Auth` that was accepted
      · rw [if_neg (not_not.mpr herr)] at h
        cases h
  split at h
  · exact absurd h (readWatchEvent_result c buffer offset)
  · unfold readResponse at h
    dsimp only at h
    split at h
    · cases h
    · split at h
      · split at h <;> cases h
      · obtain hr | hr | hr := answer_result h <;> cases hr

/-- `xids do not match` is only said of a reply whose xid is not the one of the head. -/
theorem readSocket_mismatch {c : Client} {header : ReplyHeader} {buffer : Bytes} {offset : Nat}
    (hwatch : header.xid ≠ WATCH_XID) {expected received : Int}
    (h : (c.readSocket header buffer offset).2 = .raised (.xidsDoNotMatch expected received)) :
    ∃ e ∈ c.pending.head?, header.xid ≠ e.xid := by
  unfold readSocket at h
  split at h
  · cases h
  split at h
  · unfold readAuth at h
    dsimp only at h
    split at h
    · cases h
    · split at h
      · cases h
      · split at h <;> cases h
  unfold readResponse at h
  dsimp only at h
  split at h
  · cases h
  · next request asyncObject xid rest hcons =>
    split at h
    · next hne => exact ⟨⟨request, asyncObject, xid⟩, by rw [hcons]; rfl, hne⟩
    · obtain hr | hr | hr := answer_result h <;> cases hr

end Client

/-! ## Writing requests -/

/-- `if i: b.extend(int_struct.pack(i))`. -/
def packTruthy (i : Int) : Except Exn Bytes := if i ≠ 0 then intPack i else .ok []

/-- The bytes `_submit` hands to `_write`. -/
def submitBytes (request : Request) (xid : Int) : Except Exn Bytes := do
  let xid ← packTruthy xid
  let type ← packTruthy request.type
  let b := xid ++ type ++ (← request.serialize)
  return (← intPack b.length) ++ b

/-- `(self._xid % 2147483647) + 1`. -/
def nextXid (xid : Int) : Int := xid % 2147483647 + 1

end Kazoo
