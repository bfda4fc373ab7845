import Kazoo.Encodable
import Kazoo.System

/-!
# Bad requests — what an argument out of range does to the connection

`_submit` encodes a request inside the loop of `_connect_attempt`, and none of the handlers up the
stack keeps a `struct.error` or a `UnicodeEncodeError` to the request it comes from.
-/

namespace Kazoo

namespace Sys

variable {react : Listeners} {s : Sys}

/-- The request is on the wire, or completed by an exception, and nothing else has happened: the
loop of `_connect_attempt` goes on, in the same session state, and no other request is completed. -/
structure HandledAlone (s s' : Sys) (request : Request) (asyncObject : Option AsyncId) : Prop where
  handled : (∃ f, s'.wire = s.wire ++ [f] ∧ f.entry.request = request ∧
      f.entry.asyncObject = asyncObject) ∨
    ∃ a exc, asyncObject = some a ∧
      s'.client.completions = s.client.completions ++ [⟨a, .exception exc⟩]
  loop : s'.routine = .serving ∨ ∃ e, s'.routine = .submitted e
  state : s'.client.clientState = s.client.clientState
  others : ∃ own, s'.client.completions = s.client.completions ++ own ∧
    ∀ k ∈ own, asyncObject = some k.asyncObject

/-- The xid of a request is a number that `_submit` writes. -/
theorem xid_written (request : Request) (xid : Int) :
    let x := if request.type = 100 then AUTH_XID else nextXid xid
    x ≠ 0 ∧ FitsWidth 4 x := by
  intro x
  by_cases hauth : request.type = 100
  · rw [show x = AUTH_XID from if_pos hauth]
    decide
  · rw [show x = nextXid xid from if_neg hauth]
    unfold nextXid FitsWidth
    omega

/-- A request at the head of `_queue` is handled without harm if and only if `_submit` can encode
it. -/
theorem handledAlone_iff {request : Request} {asyncObject : Option AsyncId} {rest : List Entry}
    (hqueue : s.client.queue = ⟨.request request, asyncObject⟩ :: rest) :
    HandledAlone s (s.post react (.submit none)) request asyncObject ↔ request.Encodable := by
  obtain ⟨hne, hfits⟩ := xid_written request s.xid
  rw [← submitBytes_isOk_iff request hne hfits]
  cases hbytes : submitBytes request (if request.type = 100 then AUTH_XID else nextXid s.xid) with
  | ok bytes =>
    refine iff_of_true ?_ ⟨bytes, rfl⟩
    simp only [post, submit, hqueue, hbytes]
    exact ⟨.inl ⟨_, rfl, rfl, rfl⟩, .inr ⟨_, rfl⟩, rfl, [], (List.append_nil _).symm,
      fun k hk => by cases hk⟩
  | error e =>
    refine iff_of_false (fun h => ?_) (fun ⟨b, hb⟩ => by cases hb)
    have hloop := h.loop
    simp only [post, submit, hqueue, hbytes] at hloop
    obtain ⟨st, kz, live, ls, ns, r, hraised, hr⟩ := raised_frame react e
      { s with xid := if request.type = 100 then s.xid else nextXid s.xid }
    rw [hraised] at hloop
    rcases hloop with hloop | ⟨e', hloop⟩ <;>
    · rw [show r = _ from hloop] at hr
      exact hr

/-- `set("/a", None, version)`, called and about to be sent. -/
def settingVersion (version : Int) : List Act :=
  connecting ++ calling (.setData ⟨str "/a", none, version⟩) 0

theorem handledAlone_iff_version :
    HandledAlone (run (settingVersion 7)) ((run (settingVersion 7)).post .quiet (.submit none))
        (.setData ⟨str "/a", none, 7⟩) (some 0) ↔
      (Request.setData ⟨str "/a", none, 7⟩).Encodable := by
  have hqueue : (run (settingVersion 7)).client.queue =
      [⟨.request (.setData ⟨str "/a", none, 7⟩), some 0⟩] := by decide +kernel
  exact handledAlone_iff hqueue

theorem version_out_of_range_ends_loop :
    ¬ ∀ (react : Listeners) (chroot : PyStr) (s : Sys) request asyncObject rest,
      (system react chroot).Reachable s → s.enabled (.submit none) →
      s.client.queue = ⟨.request request, asyncObject⟩ :: rest →
      HandledAlone s (s.post react (.submit none)) request asyncObject := by
  intro h
  have hreach : (system .quiet []).Reachable (run (settingVersion 2147483648)) :=
    reach_run (by decide +kernel)
  have hqueue : (run (settingVersion 2147483648)).client.queue =
      [⟨.request (.setData ⟨str "/a", none, 2147483648⟩), some 0⟩] := by decide +kernel
  have hloop := (h .quiet [] _ _ _ _ hreach (by decide +kernel) hqueue).loop
  have hstopping : ((run (settingVersion 2147483648)).post .quiet (.submit none)).routine =
      .stopping := by decide +kernel
  rw [hstopping] at hloop
  rcases hloop with hloop | ⟨e, hloop⟩ <;> cases hloop

-- an `exists` that waits for its reply fails with the bad `set`, and the session is closed
example :
    let s := run (connecting ++ calling (.exists (str "/b") none) 1 ++ sending ++
      calling (.setData ⟨str "/a", none, 2147483648⟩) 0 ++ [.submit none, .exit, .notify])
    s.client.clientState = .CLOSED ∧
      ⟨1, .exception .connectionLoss⟩ ∈ s.client.completions := by decide +kernel

end Sys

end Kazoo
