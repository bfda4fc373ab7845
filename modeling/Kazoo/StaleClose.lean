import Kazoo.Ledger

/-!
# Stale Close — a `Close` that outlives the `stop` it belongs to

`stop` appends a `Close` to `_queue` in whatever state the client is, and leaves it to a session
callback to throw the `Close` away where no connection is there to send it.  `_session_callback`
ignores a state that is current already, so a connection thread that ends in the state `CLOSED`
leaves the `Close` for the next session.
-/

namespace Kazoo

/-- On its way through the last `_session_callback` of `zk_loop`. -/
def Routine.exiting : Routine → Option KeeperState
  | .notifying st .exit | .finishing st .exit => some st
  | _ => none

theorem Routine.exiting_of_leaving {r : Routine} (h : r.Leaving) : r.exiting = none := by
  cases r with
  | notifying st after => rcases h with rfl | rfl <;> rfl
  | finishing => exact h.elim
  | _ => rfl

theorem After.exiting_resume (after : After) : after.resume.exiting = none := by cases after <;> rfl

namespace Sys

variable {react : Listeners} {chroot : PyStr} {s : Sys}

/-- `_queue` holds a `CloseInstance`. -/
def CloseQueued (s : Sys) : Prop := ∃ e ∈ s.client.queue, e.item = .request .close

instance (s : Sys) : Decidable s.CloseQueued := inferInstanceAs (Decidable (∃ e ∈ _, _))

/-- `stop` appends its `Close` while a connection thread is there to handle it, the thread does not
end in the state `CLOSED` with a `Close` queued, and `start_async` does not come between the first
two statements of a `stop`. -/
def HandlesClose (s : Sys) : Act → Prop
  | .stopAppend => ¬ s.idle
  | .exit => s.client.clientState = .CLOSED → ¬ s.CloseQueued
  | .startAsync => s.marked = 0
  | _ => True

instance (s : Sys) : (act : Act) → Decidable (s.HandlesClose act)
  | .stopAppend => inferInstanceAs (Decidable (¬ _))
  | .exit => inferInstanceAs (Decidable (_ → ¬ _))
  | .startAsync => inferInstanceAs (Decidable (_ = _))
  | .callCheck _ _ | .callAppend _ | .callSend _ _ | .stopEnter | .stopMark | .stopSend _
  | .safeClose | .close | .begin | .unresolved | .attempt | .dial | .connected _ _ _ _
  | .authenticated _ | .raise _ | .read _ _ _ | .ping | .submit _ | .popleft | .recv _ | .pend
  | .clear _ | .notify | .finish | .giveUp => inferInstanceAs (Decidable True)

/-- A `Close` is queued only between a `stop` and the end of the connection thread. -/
structure CloseInTime (s : Sys) : Prop where
  queued : s.CloseQueued → s.client.stopped = true ∧ ¬ s.idle
  marked : 0 < s.marked → s.client.stopped = true
  exiting : ∀ st ∈ s.routine.exiting, st = .CLOSED

namespace CloseInTime

/-- A step that appends no `Close`, keeps `_stopped` set and leaves the connection thread running
keeps the invariant. -/
theorem running {s' : Sys} (hs : s.CloseInTime) (hqueue : s'.CloseQueued → s.CloseQueued)
    (hstopped : s.client.stopped = true → s'.client.stopped = true)
    (hmarked : s'.marked = s.marked) (hidle : ¬ s'.idle)
    (hexit : ∀ st ∈ s'.routine.exiting, st = .CLOSED) : s'.CloseInTime where
  queued h := ⟨hstopped (hs.queued (hqueue h)).1, hidle⟩
  marked h := hstopped (hs.marked (hmarked ▸ h))
  exiting := hexit

/-- A step that leaves the connection thread where it is, and appends no `Close`, keeps the
invariant. -/
theorem staying {s' : Sys} (hs : s.CloseInTime) (hqueue : s'.CloseQueued → s.CloseQueued)
    (hstopped : s.client.stopped = true → s'.client.stopped = true)
    (hmarked : s'.marked = s.marked) (hr : s'.routine = s.routine) : s'.CloseInTime where
  queued h := ⟨hstopped (hs.queued (hqueue h)).1, by
    unfold idle; rw [hr]; exact (hs.queued (hqueue h)).2⟩
  marked h := hstopped (hs.marked (hmarked ▸ h))
  exiting := hr ▸ hs.exiting

theorem callback (hs : s.CloseInTime) (st : KeeperState) {after : After} (hafter : after ≠ .exit) :
    (s.callback react st after).CloseInTime := by
  obtain ⟨kz, live, ls, ns, r, h, hr⟩ := callback_frame react st after s
  rw [h]
  refine hs.running id id rfl ?_ ?_
  -- the thread is in the callback or past it, and only `exit` leads out of the loop
  · rcases hr with ⟨rfl, -⟩ | ⟨rfl, -⟩
    · simp [idle, turn]
    · cases after <;> simp [idle, turn, After.resume] at hafter ⊢
  · rcases hr with ⟨rfl, -⟩ | ⟨rfl, -⟩
    · cases after <;> simp [turn, Routine.exiting] at hafter ⊢
    · simp [turn, After.exiting_resume]

theorem raised (hs : s.CloseInTime) (e : Exn) : (s.raised react e).CloseInTime := by
  obtain ⟨st, kz, live, ls, ns, r, h, hr⟩ := raised_frame react e s
  rw [h]
  refine hs.running id id rfl ?_ ?_
  · cases r <;> simp [idle, turn, Routine.Leaving] at hr ⊢
  · simp [turn, Routine.exiting_of_leaving hr]

theorem take (hs : s.CloseInTime) (header : ReplyHeader) (buffer : Bytes) (offset : Nat) :
    (s.take header buffer offset).CloseInTime := by
  obtain ⟨-, data, child, sent, h⟩ | ⟨e, rest, -, -, -, zxid, data, child, ks, -, h⟩ :=
    s.client.readSocket_spec header buffer offset <;>
  · refine hs.staying ?_ ?_ rfl rfl
    · unfold CloseQueued Sys.take; rw [h]; exact id
    · unfold Sys.take; rw [h]; exact id

/-- Every step that handles its `Close` in time keeps the invariant. -/
theorem post (hc : s.Coherent) (hs : s.CloseInTime) {act : Act} (hen : s.enabled act)
    (hok : s.HandlesClose act) : (s.post react act).CloseInTime := by
  cases act with
  | callCheck item a =>
    simp only [Sys.post, callCheck]
    split
    · rw [Client.complete_eq]; exact hs.staying id id rfl rfl
    · exact hs.staying id id rfl rfl
  | callAppend i =>
    simp only [Sys.post, callAppend]
    split
    · exact hs
    · next e h =>
      refine hs.staying ?_ id rfl rfl
      rintro ⟨e', he', hclose⟩
      -- `_call` is never handed a `Close`
      rcases List.mem_append.mp he' with he' | he'
      · exact ⟨e', he', hclose⟩
      · rw [List.mem_singleton.mp he'] at hclose
        exact absurd hclose (hc.checkedOpen e (List.mem_of_getElem? h))
  | callSend i ok =>
    simp only [Sys.post, callSend]
    split
    · exact hs
    · split
      · exact hs.staying id id rfl rfl
      · rw [Client.complete_eq]; exact hs.staying id id rfl rfl
  | stopEnter | stopSend | close | ping | unresolved => exact hs.staying id id rfl rfl
  | stopMark => exact ⟨fun h => ⟨rfl, (hs.queued h).2⟩, fun _ => rfl, hs.exiting⟩
  | stopAppend =>
    refine ⟨fun _ => ⟨hs.marked hen, hok⟩, fun h => hs.marked ?_, hs.exiting⟩
    exact Nat.lt_of_lt_of_le h (Nat.sub_le _ _)
  -- the thread has ended, so no `Close` is queued
  | safeClose =>
    refine ⟨fun h => absurd hen.2.2 (hs.queued h).2, hs.marked, ?_⟩
    simp [Sys.post, safeClose, Routine.exiting]
  | startAsync =>
    refine ⟨fun h => absurd hen.2.2 (hs.queued h).2, fun h => ?_, ?_⟩
    · have hnone : s.marked = 0 := hok
      have h : 0 < s.marked := h
      omega
    · simp [Sys.post, startAsync, Routine.exiting]
  | begin | dial | giveUp =>
    refine hs.running id id rfl ?_ ?_
    · simp [Sys.post, idle, dial]
    · simp [Sys.post, Routine.exiting, dial]
  | authenticated zxid =>
    cases zxid <;> exact hs.running id id rfl (by simp [Sys.post, idle, authenticated])
      (by simp [Sys.post, Routine.exiting, authenticated])
  | attempt =>
    simp only [Sys.post, attempt]
    split
    · exact hs.callback _ (by decide)
    · exact hs.running id id rfl (by simp [idle]) (by simp [Routine.exiting])
  | connected readOnly sessionId protocolVersion passwd =>
    refine CloseInTime.callback ?_ _ (by decide)
    exact hs.staying id id rfl rfl
  | raise e => exact hs.raised e
  | read header buffer offset =>
    have htake := hs.take header buffer offset
    simp only [Sys.post, read]
    split
    · exact htake
    · exact htake.callback _ (by decide)
    · exact htake.callback _ (by decide)
    · exact htake.raised _
  | submit err =>
    simp only [Sys.post]
    obtain ⟨-, h⟩ | ⟨xid, e, h⟩ | ⟨_, _, _, _, -, -, h⟩ := submit_cases react err s
    · rw [h]; exact hs.running id id rfl (by simp [idle]) (by simp [Routine.exiting])
    · rw [h]
      refine raised ?_ e
      exact hs.staying id id rfl rfl
    · rw [h]; exact hs.running id id rfl (by simp [idle]) (by simp [Routine.exiting])
  | popleft =>
    obtain ⟨e, hr⟩ := hen
    simp only [Sys.post, popleft, hr]
    refine hs.running ?_ id rfl (by simp [idle]) (by simp [Routine.exiting])
    rintro ⟨e', he', hclose⟩
    exact ⟨e', List.mem_of_mem_tail he', hclose⟩
  | recv err =>
    obtain ⟨⟨e, hr⟩, -⟩ := hen
    cases err with
    | none =>
      simp only [Sys.post, recv, hr]
      exact hs.running id id rfl (by simp [idle]) (by simp [Routine.exiting])
    | some exc => exact hs.raised exc
  | pend =>
    obtain ⟨e, hr⟩ := hen
    simp only [Sys.post, pend, hr]
    exact hs.running id id rfl (by simp [idle]) (by simp [Routine.exiting])
  | clear err =>
    simp only [Sys.post, clear]
    split
    · exact hs.running id id rfl (by simp [idle]) (by simp [Routine.exiting])
    · exact hs.running id id rfl (by simp [idle]) (by simp [Routine.exiting])
    · exact hs.raised _
  | notify =>
    obtain ⟨st, after, hr⟩ := hen
    have hexit := hs.exiting
    rw [hr] at hexit
    simp only [Sys.post, notify, hr, Client.notifyPending_eq]
    refine hs.running ?_ id rfl (by simp [idle]) ?_
    · rintro ⟨e, he, -⟩; cases he
    · cases after <;> exact hexit
  | finish =>
    obtain ⟨st, after, hr⟩ := hen
    have hexit := hs.exiting
    rw [hr] at hexit
    simp only [Sys.post, finish, hr]
    have hqueue : ∀ e ∈ (s.client.callbackEnd react st).queue, e ∈ s.client.queue := by
      rw [Client.callbackEnd_queue]
      split
      · exact fun e he => absurd he List.not_mem_nil
      · exact fun e he => he
    -- the last callback is into `CLOSED`, and `_reset` empties the queue
    by_cases hafter : after = .exit
    · subst hafter
      obtain rfl : st = .CLOSED := hexit st rfl
      refine ⟨?_, ?_, by simp [After.exiting_resume]⟩
      · rintro ⟨e, he, -⟩
        simp [Client.callbackEnd_queue, CLOSED_STATES] at he
      · rw [Client.callbackEnd_stopped]; exact hs.marked
    · refine hs.running ?_ ?_ rfl ?_ (by simp [After.exiting_resume])
      · rintro ⟨e, he, hclose⟩
        exact ⟨e, hqueue e he, hclose⟩
      · rw [Client.callbackEnd_stopped]; exact id
      · cases after <;> simp [idle, After.resume] at hafter ⊢
  | exit =>
    obtain ⟨kz, live, ls, ns, r, h, hr⟩ := callback_frame react .CLOSED .exit
      { s with connectionStopped := true }
    simp only [Sys.post, exit, h]
    rcases hr with ⟨rfl, -⟩ | ⟨rfl, hskip⟩
    -- the callback is ignored only if the state is `CLOSED` already
    · exact hs.running id id rfl (by simp [idle, turn]) (by simp [turn, Routine.exiting])
    · have hclosed : s.client.clientState = .CLOSED := by
        by_contra hne
        rw [(Client.callbackBegin_notifies_iff .CLOSED s.client).mpr ⟨Ne.symm hne, .inl (by decide)⟩]
          at hskip
        cases hskip
      exact ⟨fun hq => absurd hq (hok hclosed), hs.marked, by simp [turn, After.exiting_resume]⟩

end CloseInTime

theorem closeInTime_of_reach (h : (system react chroot).Reach HandlesClose s) : s.CloseInTime := by
  refine h.invariant ⟨?_, ?_, ?_⟩ fun _ _ hr hs hen hok =>
    CloseInTime.post (coherent_of_reach hr) hs hen hok
  · rintro ⟨e, he, -⟩; cases he
  · intro h; cases h
  · simp [system, Sys.new, Routine.exiting]

/-- A `Close` is only written if `stop` was called after the last `start_async`, and `start_async`
launches the connection thread with no `Close` in `_queue`. -/
def NoStaleClose (s : Sys) : Prop :=
  (∀ e, s.routine = .submitted e → e.request = .close → s.client.stopped = true) ∧
    (s.enabled .startAsync → ¬ s.CloseQueued)

/-- In a run in which each `stop` leaves its `Close` to a connection thread that ends out of the
state `CLOSED` or with the `Close` sent, no `Close` is stale. -/
theorem no_stale_close (h : (system react chroot).Reach HandlesClose s) : s.NoStaleClose := by
  have hs := closeInTime_of_reach h
  refine ⟨fun e he hclose => ?_, fun hen hq => (hs.queued hq).2 hen.2.2⟩
  obtain ⟨rest, hqueue⟩ := (coherent_of_reach h).submitted e he
  refine (hs.queued ⟨_, hqueue ▸ List.mem_cons_self, ?_⟩).1
  rw [hclose]

/-- The client is started, stopped and started again, a session being established in between. -/
theorem noStaleClose_restarted :
    (run (connecting ++ [.stopEnter, .stopMark, .stopAppend, .stopSend true] ++ sending ++
      [.read ⟨1, 0, 0⟩ [] 0, .notify, .finish, .exit, .safeClose] ++ connecting)).NoStaleClose :=
  no_stale_close (reach_run (by decide +kernel))

/-- No host is resolved until the client is stopped; when it is started again, it sends the `Close`
as its first request. -/
def neverConnected : List Act :=
  [.startAsync, .begin, .unresolved, .stopEnter, .stopMark, .stopAppend, .stopSend true, .giveUp,
    .exit, .safeClose] ++ connecting ++ [.submit none]

theorem stale_close_is_sent :
    ¬ ∀ (react : Listeners) (chroot : PyStr) (s : Sys),
      (system react chroot).Reachable s → s.NoStaleClose := by
  intro h
  have hlegal : (system .quiet []).Legal Machine.Free (.new []) neverConnected := by decide +kernel
  have hsent : (run neverConnected).routine = .submitted ⟨.close, none, 1⟩ := by decide +kernel
  have hstopped := (h .quiet [] _ (reach_run hlegal)).1 _ hsent rfl
  revert hstopped
  decide +kernel

end Sys

end Kazoo
