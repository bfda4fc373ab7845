import Kazoo.Handlers.Threading

/-!
# Stopping the handler

`stop` of `SequentialThreadingHandler` waits for both workers, and they for the callbacks that came before
its `_STOP`: it returns after a bounded number of their steps.  A worker that calls `stop` itself makes
`join` raise, and leaves the queues to the workers of the next `start`.
-/

namespace Kazoo

namespace Lane

variable {l : Lane} {i g : Nat}

/-! ## What a worker has still to do -/

/-- The steps of the lane's worker until it has ended. -/
def cost (l : Lane) : Nat :=
  if ∀ w ∈ l.threads, w.frame = .ended then 0
  else 2 * ((l.queues l.current).items.takeWhile (· ≠ .stop)).length + l.running.length + 1

theorem Deserted.cost (h : l.Deserted) : l.cost = 0 := if_pos h

theorem cost_of_front {front : List WorkerThread} {frame : WorkerFrame}
    (hthreads : l.threads = front ++ [⟨g, frame⟩]) (hframe : frame ≠ .ended)
    (hfront : ∀ w ∈ front, w.frame = .ended) :
    l.cost = 2 * ((l.queues l.current).items.takeWhile (· ≠ .stop)).length +
      frame.func?.toList.length + 1 := by
  rw [cost, if_neg fun hall => hframe (hall ⟨g, frame⟩ (by simp [hthreads])),
    running_of_front hthreads hfront]

theorem cost_get {status : Status} (h : l.Is status) (hw : l.threads[i]? = some ⟨g, .idle⟩)
    (hitems : (l.queues g).items ≠ []) : (l.get i).cost + 1 ≤ l.cost := by
  obtain ⟨front, hthreads, rfl, hg, hfront, -, -⟩ := h.manned_of_frame hw (by simp)
  obtain rfl : g = l.current := hg
  rw [cost_of_front hthreads (by simp) hfront]
  obtain ⟨x, items, hx⟩ := List.exists_cons_of_ne_nil hitems
  cases x with
  | func n =>
    rw [get_func hthreads hx, cost_of_front rfl (by simp) hfront, hx]
    simp [WorkerFrame.func?]
    omega
  | stop =>
    have hdeserted : (l.get front.length).Deserted := by
      rw [get_stop hthreads hx]
      exact deserted_concat hfront
    rw [hdeserted.cost]
    omega

theorem cost_finish {status : Status} {n : Nat} (h : l.Is status)
    (hw : l.threads[i]? = some ⟨g, .running n⟩) : (l.finish i).cost + 1 ≤ l.cost := by
  obtain ⟨front, hthreads, rfl, hg, hfront, -, -⟩ := h.manned_of_frame hw (by simp)
  obtain rfl : g = l.current := hg
  rw [finish_running hthreads, cost_of_front rfl (by simp) hfront, cost_of_front hthreads (by simp) hfront]
  simp [WorkerFrame.func?]

/-- What is put behind `_STOP` costs nothing. -/
theorem cost_put {status : Status} (h : l.Is status) (hstatus : status ≠ .manned) (n : Nat) :
    (l.putOn g (.func n)).cost = l.cost := by
  have hdeserted : l.Deserted → (l.putOn g (.func n)).cost = l.cost := fun hd => by
    have hput : (l.putOn g (.func n)).Deserted := hd
    rw [hput.cost, hd.cost]
  cases status with
  | manned => exact absurd rfl hstatus
  | unmanned | stopped => exact hdeserted h.1
  | stopping =>
    obtain ⟨⟨front, frame, hthreads, hframe, hfront⟩, -, hstop⟩ | h := h
    · rw [cost_of_front (l := l.putOn g (.func n)) hthreads hframe hfront, cost_of_front hthreads hframe hfront]
      have htake : ((l.putOn g (.func n)).queues l.current).items.takeWhile (· ≠ .stop) =
          (l.queues l.current).items.takeWhile (· ≠ .stop) := by
        by_cases hcur : l.current = g
        · subst hcur
          simp only [putOn, Function.update_self, WorkQueue.put_items]
          exact WorkQueue.takeWhile_of_mem hstop _
        · simp [putOn, Function.update_of_ne hcur]
      show 2 * (((l.putOn g (.func n)).queues l.current).items.takeWhile (· ≠ .stop)).length + _ + 1 = _
      rw [htake]
    · exact hdeserted h.1

end Lane

/-! ## `stop` returns -/

namespace Handler

section

variable {s : Handler} {a : HandlerAction} {t : QueueType}

/-- `stop` has put its `_STOP` on both queues. -/
def Stopping (s : Handler) : Prop := s.change.joins ∨ s.change.renews

/-- The steps of the workers and of the thread in `stop`. -/
def works : HandlerAction → Bool
  | .join | .renew | .get .. | .finish .. => true
  | _ => false

/-- How many of them there may be until `stop` returns. -/
def stopCost (s : Handler) : Nat :=
  (s.lanes .completion).cost + (s.lanes .callback).cost +
    match s.change with
    | .joining _ => s.workers.length + 3
    | .renewing types => types.length
    | _ => 0

theorem stopCost_setLane {f : Lane → Lane} {k : Nat} (h : (f (s.lanes t)).cost + k ≤ (s.lanes t).cost) :
    (s.setLane t f).stopCost + k ≤ s.stopCost := by
  cases t <;> simp [stopCost, Handler.setLane] <;> omega

theorem status_of_stopping (hstopping : s.Stopping) (t : QueueType) : s.status t ≠ .manned := by
  unfold Handler.status
  unfold Stopping StateChange.joins StateChange.renews at hstopping
  split
  · simp_all
  · simp_all
  · simp_all
  · split <;> decide
  · split <;> decide

/-- A step while `stop` waits lowers the bound if it is one of the workers or of `stop`, and leaves it as it
is otherwise. -/
theorem stopCost_step (h : s.Sequential) (hstopping : s.Stopping) (hen : s.Enabled a)
    (houtside : s.Outside a) :
    (s.step a).change = .free ∧ (s.step a).running = false ∨
      (s.step a).Stopping ∧ (s.step a).stopCost + (if works a then 1 else 0) ≤ s.stopCost := by
  have hbusy : s.change ≠ .free := by
    intro hfree
    simp [Stopping, hfree, StateChange.joins, StateChange.renews] at hstopping
  cases a with
  | start => exact absurd hen hbusy
  | stop caller => exact absurd hen.1 hbusy
  | spawn =>
    have hspawns : s.change.spawns := hen
    cases hchange : s.change <;> simp_all [Stopping, StateChange.spawns, StateChange.joins, StateChange.renews]
  | putStop =>
    have hputs : s.change.puts := hen
    cases hchange : s.change <;> simp_all [Stopping, StateChange.puts, StateChange.joins, StateChange.renews]
  | join =>
    rw [step]
    split
    · next caller hchange =>
      have hcaller : caller = none := by simpa [caller?, hchange] using h.outside
      subst hcaller
      rw [joinWorker]
      split
      · next hnone =>
        have hnil := List.getLast?_eq_none_iff.mp hnone
        exact .inr ⟨.inr rfl, by simp [stopCost, hchange, hnil, works]⟩
      · next p hsome =>
        obtain ⟨front, hworkers⟩ := List.getLast?_eq_some_iff.mp hsome
        exact .inr ⟨.inl (by simp [hchange, StateChange.joins]),
          by simp only [stopCost, hchange, hworkers, works, List.dropLast_concat, List.length_append,
            List.length_singleton, reduceCtorEq, if_false, if_true]; omega⟩
    · next hother =>
      obtain ⟨hjoins, -⟩ := hen
      cases hchange : s.change <;> simp_all [StateChange.joins]
  | renew =>
    rw [step]
    split
    · next t types hchange =>
      have hoff := h.off.resolve_left hbusy
      have hstage := h.stage t
      simp only [status, hchange, if_pos List.mem_cons_self] at hstage
      cases types with
      | nil => exact .inl ⟨rfl, hoff⟩
      | cons t' types =>
        refine .inr ⟨.inr rfl, ?_⟩
        have hdeserted : (s.lanes t).renew.Deserted := hstage.1
        have hrenew : (s.setLane t Lane.renew).stopCost ≤ s.stopCost := stopCost_setLane (k := 0)
          (by rw [hdeserted.cost]; exact Nat.zero_le _)
        simp only [stopCost, Handler.setLane, hchange] at hrenew
        simp only [stopCost, renewQueue, Handler.setLane, hchange, works, List.isEmpty_cons]
        simp at hrenew ⊢
        omega
    · next hother =>
      have hrenews : s.change.renews := hen
      cases hchange : s.change with
      | renewing types => cases types <;> simp_all [StateChange.renews]
      | _ => simp_all [StateChange.renews]
  | dispatch t => exact .inr ⟨hstopping, le_rfl⟩
  | put i =>
    rw [step]
    split
    · next n t g hd =>
      exact .inr ⟨hstopping, stopCost_setLane (k := 0) (f := Lane.putOn g (.func n))
        (Lane.cost_put (h.stage t) (status_of_stopping hstopping t) n).le⟩
    · exact .inr ⟨hstopping, le_rfl⟩
  | get t i =>
    obtain ⟨g, hw, hitems⟩ := canGet_eq_true hen
    exact .inr ⟨hstopping, stopCost_setLane (Lane.cost_get (h.stage t) hw hitems)⟩
  | finish t i =>
    obtain ⟨g, n, hw⟩ := runs?_eq_true hen.1
    exact .inr ⟨hstopping, stopCost_setLane (Lane.cost_finish (h.stage t) hw)⟩

/-- The worker that is joined next has ended, or it can go on: there is at least `_STOP` for it. -/
theorem exists_works_of_worker {p : QueueType × Nat} (h : s.Sequential) (hjoins : s.change.joins)
    (hp : s.workers.getLast? = some p) (hstage : (s.lanes p.1).Is .stopping) : ∃ a, works a ∧ s.Enabled a := by
  have hlast := h.last p (List.mem_of_getLast? hp)
  have hjoin : s.frame? p.1 p.2 = some .ended → ∃ a, works a ∧ s.Enabled a := fun hended =>
    ⟨.join, rfl, hjoins, fun p' hp' => by
      obtain rfl : p = p' := Option.some.inj (hp.symm.trans hp')
      exact .inr hended⟩
  obtain ⟨⟨front, frame, hthreads, hframe, hfront⟩, -, hstop⟩ | hstopped := hstage
  · rw [hthreads, List.length_append, List.length_singleton] at hlast
    have hp2 : p.2 = front.length := by omega
    have hw : (s.lanes p.1).threads[p.2]? = some ⟨(s.lanes p.1).current, frame⟩ := by
      rw [hthreads, hp2, List.getElem?_concat_length]
    cases frame with
    | ended => exact absurd rfl hframe
    | idle =>
      refine ⟨.get p.1 p.2, rfl, ?_⟩
      simp only [Enabled, canGet, hw]
      cases hitems : ((s.lanes p.1).queues (s.lanes p.1).current).items with
      | nil =>
        rw [hitems] at hstop
        cases hstop
      | cons x items => rfl
    | running n =>
      refine ⟨.finish p.1 p.2, rfl, ?_, by simp [h.outside]⟩
      simp [runs?, frame?, hw, WorkerFrame.func?]
  · have hlt : p.2 < (s.lanes p.1).threads.length := by omega
    refine hjoin ?_
    rw [frame?, List.getElem?_eq_getElem hlt]
    exact congrArg some (hstopped.1 _ (List.getElem_mem hlt))

theorem exists_works (h : s.Sequential) (hstopping : s.Stopping) : ∃ a, works a ∧ s.Enabled a := by
  obtain hjoins | hrenews := hstopping
  · cases hlast : s.workers.getLast? with
    | none => exact ⟨.join, rfl, hjoins, fun p hp => by rw [hlast] at hp; cases hp⟩
    | some p =>
      refine exists_works_of_worker h hjoins hlast ?_
      have hstage := h.stage p.1
      have hmem := List.mem_map_of_mem (f := Prod.fst) (List.mem_of_getLast? hlast)
      cases hchange : s.change <;> simp only [hchange, StateChange.joins, Bool.false_eq_true] at hjoins
      simp only [status, hchange, if_pos hmem] at hstage
      exact hstage
  · exact ⟨.renew, rfl, hrenews⟩

/-- A completion callback calls `stop` and the handler is started again, after one more callback has been
dispatched. -/
def innerStop (s : Handler) (i : Nat) : List HandlerAction :=
  [.dispatch .completion, .put s.dispatching.length, .stop (some (.completion, i)), .putStop, .putStop,
    .join, .start, .spawn, .spawn, .get .completion (i + 1)]

end

end Handler

end Kazoo
