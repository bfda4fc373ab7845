import Mathlib.Data.List.Basic
import Mathlib.Data.List.Flatten
import Mathlib.Data.List.Perm.Basic
import Mathlib.Data.List.Range
import Mathlib.Data.List.TakeWhile
import Mathlib.Logic.Function.Basic

/-!
# The queues of the threading handler

The queues of `SequentialThreadingHandler` in `kazoo/handlers/threading.py`, one for the callbacks of watch
events and one for those of completed results, and the worker threads that read them.  What belongs to one
of the two types of callback is a lane.
-/

namespace Kazoo

inductive QueueType
  | completion
  | callback
  deriving DecidableEq

/-- What is put on a queue, a callback by its number. -/
inductive Work
  | func (n : Nat)
  -- `_STOP`
  | stop
  deriving DecidableEq

structure WorkQueue where
  items : List Work
  -- what `get` has returned
  taken : List Work

namespace WorkQueue

def empty : WorkQueue := ⟨[], []⟩

def put (x : Work) (q : WorkQueue) : WorkQueue := { q with items := q.items ++ [x] }

def get (q : WorkQueue) : WorkQueue :=
  match q.items with
  | [] => q
  | x :: items => ⟨items, q.taken ++ [x]⟩

end WorkQueue

/-- The callbacks among what is on a queue. -/
def callbacks : List Work → List Nat
  | [] => []
  | .func n :: l => n :: callbacks l
  | .stop :: l => callbacks l

/-- The callbacks that were put on a queue before `_STOP`. -/
def WorkQueue.accepted (q : WorkQueue) : List Nat :=
  callbacks ((q.taken ++ q.items).takeWhile (· ≠ .stop))

inductive WorkerFrame
  -- in `work_queue.get()`
  | idle
  -- in `func()`
  | running (n : Nat)
  | ended
  deriving DecidableEq

/-- The callback that is running. -/
def WorkerFrame.func? : WorkerFrame → Option Nat
  | .running n => some n
  | .idle | .ended => none

@[simp] theorem WorkerFrame.func?_running (n : Nat) : (running n).func? = some n := rfl

@[simp] theorem WorkerFrame.func?_idle : idle.func? = none := rfl

structure WorkerThread where
  -- the number of its `work_queue`
  queue : Nat
  frame : WorkerFrame
  deriving DecidableEq

/-- What belongs to one of the two types: the queues that its attribute has held, by their number, and
the threads that have been spawned for it. -/
structure Lane where
  current : Nat
  queues : Nat → WorkQueue
  threads : List WorkerThread
  -- the callbacks that have been called, and those that have returned
  started : List Nat
  done : List Nat

namespace Lane

def new : Lane := ⟨0, fun _ => .empty, [], [], []⟩

def putOn (g : Nat) (x : Work) (l : Lane) : Lane :=
  { l with queues := Function.update l.queues g ((l.queues g).put x) }

/-- `_create_thread_worker`. -/
def spawn (l : Lane) : Lane := { l with threads := l.threads ++ [⟨l.current, .idle⟩] }

/-- `work_queue.get()` returns in a worker. -/
def get (i : Nat) (l : Lane) : Lane :=
  match l.threads[i]? with
  | none => l
  | some w =>
    let queues := Function.update l.queues w.queue (l.queues w.queue).get
    match (l.queues w.queue).items with
    | [] => l
    | .func n :: _ =>
      { l with
        queues := queues
        threads := l.threads.set i { w with frame := .running n }
        started := l.started ++ [n] }
    | .stop :: _ =>
      { l with queues := queues, threads := l.threads.set i { w with frame := .ended } }

/-- `func()` returns or raises in a worker. -/
def finish (i : Nat) (l : Lane) : Lane :=
  match l.threads[i]? with
  | some ⟨g, .running n⟩ =>
    { l with threads := l.threads.set i ⟨g, .idle⟩, done := l.done ++ [n] }
  | _ => l

/-- `self.queue_impl()`. -/
def renew (l : Lane) : Lane := { l with current := l.current + 1 }

/-- What the worker threads are running. -/
def running (l : Lane) : List Nat := l.threads.filterMap fun w => w.frame.func?

/-- All callbacks that were put before the `_STOP` of their queue. -/
def accepted (l : Lane) : List Nat :=
  (List.range (l.current + 1)).flatMap fun g => (l.queues g).accepted

/-- All callbacks that were put on a queue of the lane. -/
def puts (l : Lane) : List Nat :=
  (List.range (l.current + 1)).flatMap fun g => callbacks ((l.queues g).taken ++ (l.queues g).items)

end Lane

/-! ## A lane with at most one worker -/

theorem callbacks_append (l l' : List Work) : callbacks (l ++ l') = callbacks l ++ callbacks l' := by
  induction l with
  | nil => rfl
  | cons x l ih => cases x <;> simp [callbacks, ih]

namespace WorkQueue

/-- The queue's worker has come to `_STOP`. -/
def Closed (q : WorkQueue) : Prop := ∃ l, q.taken = l ++ [.stop] ∧ .stop ∉ l

variable {q : WorkQueue}

theorem takeWhile_of_notMem {l : List Work} (h : .stop ∉ l) (l' : List Work) :
    (l ++ l').takeWhile (· ≠ .stop) = l ++ l'.takeWhile (· ≠ .stop) :=
  List.takeWhile_append_of_pos fun x hx => decide_eq_true fun heq : x = .stop => h (heq ▸ hx)

theorem takeWhile_of_mem {l : List Work} (h : .stop ∈ l) (l' : List Work) :
    (l ++ l').takeWhile (· ≠ .stop) = l.takeWhile (· ≠ .stop) := by
  rw [List.takeWhile_append, if_neg fun hlength => ?_]
  have hall := (List.takeWhile_prefix (· ≠ Work.stop) (l := l)).eq_of_length hlength
  exact absurd (List.mem_takeWhile_imp (hall ▸ h)) (by decide)

theorem accepted_of_open (h : .stop ∉ q.taken) :
    q.accepted = callbacks q.taken ++ callbacks (q.items.takeWhile (· ≠ .stop)) := by
  rw [accepted, takeWhile_of_notMem h, callbacks_append]

theorem Closed.accepted (h : q.Closed) : q.accepted = callbacks q.taken := by
  obtain ⟨l, htaken, hl⟩ := h
  rw [WorkQueue.accepted, htaken, List.append_assoc, takeWhile_of_notMem hl, callbacks_append,
    callbacks_append]
  simp [callbacks]

@[simp] theorem put_taken (x : Work) : (q.put x).taken = q.taken := rfl

@[simp] theorem put_items (x : Work) : (q.put x).items = q.items ++ [x] := rfl

end WorkQueue

namespace Lane

variable {l : Lane} {i g : Nat}

/-- All workers of the lane have ended. -/
def Deserted (l : Lane) : Prop := ∀ w ∈ l.threads, w.frame = .ended

/-- All have but the last, which reads the current queue. -/
def Manned (l : Lane) : Prop :=
  ∃ front frame, l.threads = front ++ [⟨l.current, frame⟩] ∧ frame ≠ .ended ∧ ∀ w ∈ front, w.frame = .ended

/-- What holds between any two steps: all queues but the current one are closed, callbacks were started
as they came off the queues, and those not done are running. -/
structure Sound (l : Lane) : Prop where
  past : ∀ g < l.current, (l.queues g).Closed
  future : ∀ g, l.current < g → l.queues g = .empty
  started : l.started = (List.range (l.current + 1)).flatMap fun g => callbacks (l.queues g).taken
  done : l.done ++ l.running = l.started

theorem Deserted.running (h : l.Deserted) : l.running = [] :=
  List.filterMap_eq_nil_iff.mpr fun w hw => by rw [h w hw]; rfl

theorem deserted_concat {front : List WorkerThread} (h : ∀ w ∈ front, w.frame = .ended) :
    ∀ w ∈ front ++ [⟨g, .ended⟩], w.frame = .ended := by
  intro w hw
  obtain hw | hw := List.mem_append.mp hw
  · exact h w hw
  · rw [List.mem_singleton.mp hw]

/-- The stages that a lane goes through from one `start` to the end of the next `stop`. -/
inductive Status
  | unmanned
  | manned
  | stopping
  | stopped
  deriving DecidableEq

/-- The worker has come to `_STOP`. -/
def Stopped (l : Lane) : Prop := l.Deserted ∧ (l.queues l.current).Closed

def Is (l : Lane) : Status → Prop
  | .unmanned => l.Deserted ∧ (l.queues l.current).taken = [] ∧ .stop ∉ (l.queues l.current).items
  | .manned => l.Manned ∧ .stop ∉ (l.queues l.current).taken ∧ .stop ∉ (l.queues l.current).items
  | .stopping =>
    l.Manned ∧ .stop ∉ (l.queues l.current).taken ∧ .stop ∈ (l.queues l.current).items ∨ l.Stopped
  | .stopped => l.Stopped

/-! ### What the steps of a lane keep -/

theorem putOn_queues (x : Work) (g' : Nat) :
    ((l.putOn g x).queues g').taken = (l.queues g').taken := by
  by_cases h : g' = g
  · subst h
    simp [putOn]
  · simp [putOn, Function.update_of_ne h]

theorem Sound.putOn (h : l.Sound) (hg : g ≤ l.current) (x : Work) : (l.putOn g x).Sound where
  past g' hg' := by
    obtain ⟨front, htaken, hfront⟩ := h.past g' hg'
    exact ⟨front, (putOn_queues x g').trans htaken, hfront⟩
  future g' hg' := by
    have hne : g' ≠ g := (hg.trans_lt hg').ne'
    exact (Function.update_of_ne hne _ _).trans (h.future g' hg')
  started := by
    refine h.started.trans ?_
    simp only [putOn_queues]
    rfl
  done := h.done

theorem Is.congr {l' : Lane} {status : Status} (h : l.Is status) (hthreads : l'.threads = l.threads)
    (hcur : l'.current = l.current) (htaken : (l'.queues l.current).taken = (l.queues l.current).taken)
    (hitems : .stop ∈ (l'.queues l.current).items ↔ .stop ∈ (l.queues l.current).items) : l'.Is status := by
  cases status <;>
    simpa only [Is, Stopped, Manned, Deserted, WorkQueue.Closed, hthreads, hcur, htaken, hitems] using h

/-- A callback that is put on a queue does not change the stage of the lane. -/
theorem Is.putFunc {status : Status} (h : l.Is status) (n : Nat) : (l.putOn g (.func n)).Is status := by
  refine h.congr rfl rfl (putOn_queues _ _) ?_
  by_cases hcur : l.current = g
  · simp [Lane.putOn, hcur]
  · simp [Lane.putOn, Function.update_of_ne hcur]

theorem Is.putStop (h : l.Is .manned) : (l.putOn l.current .stop).Is .stopping := by
  obtain ⟨hmanned, htaken, -⟩ := h
  refine .inl ⟨hmanned, ?_, ?_⟩
  · show Work.stop ∉ ((l.putOn l.current .stop).queues l.current).taken
    rwa [putOn_queues]
  · simp [Lane.putOn]

theorem Is.spawn (h : l.Is .unmanned) : l.spawn.Is .manned := by
  obtain ⟨hdeserted, htaken, hitems⟩ := h
  refine ⟨⟨l.threads, .idle, rfl, by decide, hdeserted⟩, ?_, hitems⟩
  show Work.stop ∉ (l.queues l.current).taken
  simp [htaken]

theorem Sound.spawn (h : l.Sound) : l.spawn.Sound where
  past := h.past
  future := h.future
  started := h.started
  done := by
    refine Eq.trans ?_ h.done
    simp [Lane.running, Lane.spawn, WorkerFrame.func?]

/-- The stage of a lane whose worker has ended. -/
theorem Is.renew (h : l.Is .stopped) (hs : l.Sound) : l.renew.Is .unmanned := by
  have hempty := hs.future (l.current + 1) (Nat.lt_succ_self _)
  refine ⟨h.1, ?_, ?_⟩
  · show (l.queues (l.current + 1)).taken = []
    rw [hempty]
    rfl
  · show Work.stop ∉ (l.queues (l.current + 1)).items
    rw [hempty]
    exact List.not_mem_nil

theorem Sound.renew (h : l.Is .stopped) (hs : l.Sound) : l.renew.Sound where
  past g hg := by
    obtain hg | rfl := Nat.lt_succ_iff_lt_or_eq.mp hg
    · exact hs.past g hg
    · exact h.2
  future g hg := hs.future g (Nat.lt_of_succ_lt hg)
  started := by
    refine hs.started.trans ?_
    show _ = (List.range (l.current + 1 + 1)).flatMap fun g => callbacks (l.queues g).taken
    rw [List.range_succ (n := l.current + 1), List.flatMap_append]
    simp [hs.future (l.current + 1) (Nat.lt_succ_self _), WorkQueue.empty, callbacks]
  done := hs.done

/-- The stages in which a worker may get something, or finish. -/
theorem Is.manned_of_frame {status : Status} (h : l.Is status) {w : WorkerThread}
    (hw : l.threads[i]? = some w) (hframe : w.frame ≠ .ended) :
    ∃ front, l.threads = front ++ [⟨l.current, w.frame⟩] ∧ i = front.length ∧ w.queue = l.current ∧
      (∀ w ∈ front, w.frame = .ended) ∧ .stop ∉ (l.queues l.current).taken ∧
      (status = .manned ∧ .stop ∉ (l.queues l.current).items ∨
        status = .stopping ∧ .stop ∈ (l.queues l.current).items) := by
  have hdeserted : ¬ l.Deserted := fun hd => hframe (hd w (List.mem_of_getElem? hw))
  have hmanned : l.Manned ∧ .stop ∉ (l.queues l.current).taken ∧
      (status = .manned ∧ .stop ∉ (l.queues l.current).items ∨
        status = .stopping ∧ .stop ∈ (l.queues l.current).items) := by
    cases status with
    | unmanned | stopped => exact absurd h.1 hdeserted
    | manned => exact ⟨h.1, h.2.1, .inl ⟨rfl, h.2.2⟩⟩
    | stopping =>
      obtain h | h := h
      · exact ⟨h.1, h.2.1, .inr ⟨rfl, h.2.2⟩⟩
      · exact absurd h.1 hdeserted
  obtain ⟨⟨front, frame, hthreads, -, hfront⟩, hrest⟩ := hmanned
  rw [hthreads] at hw
  have hi : ¬ i < front.length := fun hlt =>
    hframe (hfront w (List.mem_of_getElem? (List.getElem?_append_left hlt ▸ hw)))
  have hi : i = front.length := by
    have hlt := List.getElem?_eq_some_iff.mp hw |>.1
    simp only [List.length_append, List.length_singleton] at hlt
    omega
  subst hi
  rw [List.getElem?_concat_length] at hw
  obtain rfl := Option.some.inj hw
  exact ⟨front, hthreads, rfl, rfl, hfront, hrest⟩

theorem flatMap_taken (l : Lane) (q : WorkQueue) :
    ((List.range (l.current + 1)).flatMap fun g => callbacks (Function.update l.queues l.current q g).taken) =
      ((List.range l.current).flatMap fun g => callbacks (l.queues g).taken) ++ callbacks q.taken := by
  rw [List.range_succ, List.flatMap_append]
  congr 1
  · refine List.flatMap_congr fun g hg => ?_
    rw [Function.update_of_ne (List.mem_range.mp hg).ne]
  · simp

theorem Sound.started_eq (h : l.Sound) :
    l.started = ((List.range l.current).flatMap fun g => callbacks (l.queues g).taken) ++
      callbacks (l.queues l.current).taken := by
  rw [← flatMap_taken, Function.update_eq_self]
  exact h.started

theorem running_of_front {front : List WorkerThread} {frame : WorkerFrame}
    (hthreads : l.threads = front ++ [⟨g, frame⟩]) (hfront : ∀ w ∈ front, w.frame = .ended) :
    l.running = frame.func?.toList := by
  rw [running, hthreads, List.filterMap_append,
    List.filterMap_eq_nil_iff.mpr fun w hw => by rw [hfront w hw]; rfl]
  cases frame <;> rfl

/-- A queue that stays as it is but for what `get` returns. -/
theorem Sound.update {l' : Lane} {q : WorkQueue} (h : l.Sound) (hcur : l'.current = l.current)
    (hqueues : l'.queues = Function.update l.queues l.current q)
    (hstarted : l'.started = ((List.range l.current).flatMap fun g => callbacks (l.queues g).taken) ++
      callbacks q.taken)
    (hdone : l'.done ++ l'.running = l'.started) : l'.Sound where
  past g hg := by
    rw [hcur] at hg
    rw [hqueues, Function.update_of_ne hg.ne]
    exact h.past g hg
  future g hg := by
    rw [hcur] at hg
    rw [hqueues, Function.update_of_ne hg.ne']
    exact h.future g hg
  started := by rw [hstarted, hcur, hqueues, flatMap_taken]
  done := hdone

theorem get_func {front : List WorkerThread} {items : List Work} {n : Nat}
    (hthreads : l.threads = front ++ [⟨l.current, .idle⟩])
    (hx : (l.queues l.current).items = .func n :: items) :
    l.get front.length = { l with
      queues := Function.update l.queues l.current ⟨items, (l.queues l.current).taken ++ [.func n]⟩
      threads := front ++ [⟨l.current, .running n⟩]
      started := l.started ++ [n] } := by
  simp [Lane.get, hthreads, hx, WorkQueue.get]

theorem get_stop {front : List WorkerThread} {items : List Work}
    (hthreads : l.threads = front ++ [⟨l.current, .idle⟩])
    (hx : (l.queues l.current).items = .stop :: items) :
    l.get front.length = { l with
      queues := Function.update l.queues l.current ⟨items, (l.queues l.current).taken ++ [.stop]⟩
      threads := front ++ [⟨l.current, .ended⟩] } := by
  simp [Lane.get, hthreads, hx, WorkQueue.get]

theorem finish_running {front : List WorkerThread} {n : Nat}
    (hthreads : l.threads = front ++ [⟨l.current, .running n⟩]) :
    l.finish front.length = { l with
      threads := front ++ [⟨l.current, .idle⟩]
      done := l.done ++ [n] } := by
  simp [Lane.finish, hthreads]

theorem Sound.get {status : Status} (hs : l.Sound) (h : l.Is status) (hw : l.threads[i]? = some ⟨g, .idle⟩)
    (hitems : (l.queues g).items ≠ []) : (l.get i).Sound ∧ (l.get i).Is status := by
  obtain ⟨front, hthreads, rfl, hg, hfront, htaken, hstatus⟩ := h.manned_of_frame hw (by simp)
  obtain rfl : g = l.current := hg
  have hdone := hs.done
  rw [running_of_front hthreads hfront, WorkerFrame.func?, Option.toList_none, List.append_nil] at hdone
  obtain ⟨x, items, hx⟩ := List.exists_cons_of_ne_nil hitems
  cases x with
  | func n =>
    rw [get_func hthreads hx]
    refine ⟨hs.update rfl rfl ?_ ?_, ?_⟩
    · rw [hs.started_eq, callbacks_append, List.append_assoc]
      rfl
    · rw [running_of_front rfl hfront, hdone]
      rfl
    · have hmanned : Manned { l with
          queues := Function.update l.queues l.current ⟨items, (l.queues l.current).taken ++ [.func n]⟩
          threads := front ++ [⟨l.current, .running n⟩]
          started := l.started ++ [n] } := ⟨front, .running n, rfl, by simp, hfront⟩
      rw [hx] at hstatus
      obtain ⟨rfl, hopen⟩ | ⟨rfl, hstop⟩ := hstatus
      · refine ⟨hmanned, by simpa using htaken, ?_⟩
        simpa using hopen
      · refine .inl ⟨hmanned, by simpa using htaken, ?_⟩
        simpa using hstop
  | stop =>
    rw [get_stop hthreads hx]
    refine ⟨hs.update rfl rfl ?_ ?_, ?_⟩
    · rw [hs.started_eq, callbacks_append]
      simp [callbacks]
    · rw [running_of_front rfl hfront, WorkerFrame.func?, Option.toList_none, List.append_nil]
      exact hdone
    · obtain ⟨rfl, hopen⟩ | ⟨rfl, -⟩ := hstatus
      · exact absurd (hx ▸ List.mem_cons_self) hopen
      · exact .inr ⟨deserted_concat hfront, (l.queues l.current).taken, by simp, htaken⟩

theorem Sound.finish {status : Status} {n : Nat} (hs : l.Sound) (h : l.Is status)
    (hw : l.threads[i]? = some ⟨g, .running n⟩) : (l.finish i).Sound ∧ (l.finish i).Is status := by
  obtain ⟨front, hthreads, rfl, hg, hfront, htaken, hstatus⟩ := h.manned_of_frame hw (by simp)
  obtain rfl : g = l.current := hg
  have hdone := hs.done
  rw [running_of_front hthreads hfront] at hdone
  rw [finish_running hthreads]
  refine ⟨⟨hs.past, hs.future, hs.started, ?_⟩, ?_⟩
  · rw [running_of_front rfl hfront, WorkerFrame.func?, Option.toList_none, List.append_nil]
    exact hdone
  · have hmanned : Manned { l with threads := front ++ [⟨l.current, .idle⟩], done := l.done ++ [n] } :=
      ⟨front, .idle, rfl, by decide, hfront⟩
    obtain ⟨rfl, hopen⟩ | ⟨rfl, hstop⟩ := hstatus
    · exact ⟨hmanned, htaken, hopen⟩
    · exact .inl ⟨hmanned, htaken, hstop⟩

/-! ### Which callbacks are called -/

theorem Is.closed_or_open {status : Status} (h : l.Is status) :
    (l.queues l.current).Closed ∨ .stop ∉ (l.queues l.current).taken := by
  cases status with
  | unmanned => exact .inr (by rw [h.2.1]; exact List.not_mem_nil)
  | manned => exact .inr h.2.1
  | stopping => exact h.elim (fun h => .inr h.2.1) fun h => .inl h.2
  | stopped => exact .inl h.2

theorem Is.running_le {status : Status} (h : l.Is status) : l.running.length ≤ 1 := by
  have hcases : l.Deserted ∨ l.Manned := by
    cases status with
    | unmanned | stopped => exact .inl h.1
    | manned => exact .inr h.1
    | stopping => exact h.elim (fun h => .inr h.1) fun h => .inl h.1
  obtain hdeserted | ⟨front, frame, hthreads, -, hfront⟩ := hcases
  · rw [hdeserted.running]
    exact Nat.zero_le 1
  · rw [running_of_front hthreads hfront]
    cases frame <;> simp [WorkerFrame.func?]

theorem Sound.accepted_past (h : l.Sound) :
    ((List.range l.current).flatMap fun g => (l.queues g).accepted) =
      (List.range l.current).flatMap fun g => callbacks (l.queues g).taken :=
  List.flatMap_congr fun g hg => (h.past g (List.mem_range.mp hg)).accepted

theorem Sound.started_begins {status : Status} (hs : l.Sound) (h : l.Is status) :
    l.started <+: l.accepted := by
  rw [accepted, hs.started_eq, List.range_succ, List.flatMap_append, hs.accepted_past,
    List.flatMap_singleton]
  obtain hclosed | hopen := h.closed_or_open
  · exact hclosed.accepted ▸ List.prefix_refl _
  · rw [WorkQueue.accepted_of_open hopen, ← List.append_assoc]
    exact List.prefix_append _ _

/-- While a lane has no worker, every callback of its earlier queues has returned that had been put there
before `_STOP`. -/
theorem Sound.drained (hs : l.Sound) (h : l.Is .unmanned) :
    l.done = (List.range l.current).flatMap fun g => (l.queues g).accepted := by
  have hdone := hs.done
  rw [h.1.running, List.append_nil] at hdone
  rw [hdone, hs.started_eq, hs.accepted_past, h.2.1, callbacks, List.append_nil]

theorem accepted_sublist (q : WorkQueue) : q.accepted.Sublist (callbacks (q.taken ++ q.items)) := by
  have hsplit := List.takeWhile_append_dropWhile (p := (· ≠ Work.stop)) (l := q.taken ++ q.items)
  rw [WorkQueue.accepted]
  conv_rhs => rw [← hsplit, callbacks_append]
  exact List.sublist_append_left _ _

theorem accepted_sublist_puts (l : Lane) : l.accepted.Sublist l.puts := by
  rw [accepted, puts]
  generalize List.range (l.current + 1) = gs
  induction gs with
  | nil => exact List.Sublist.refl _
  | cons g gs ih => exact (accepted_sublist (l.queues g)).append ih

/-- The callbacks on the queues, where one queue has got another one. -/
theorem puts_perm {l' : Lane} {n : Nat} (hg : g ≤ l.current) (hcur : l'.current = l.current)
    (hsame : ∀ g', g' ≠ g → l'.queues g' = l.queues g')
    (hnew : callbacks ((l'.queues g).taken ++ (l'.queues g).items) =
      callbacks ((l.queues g).taken ++ (l.queues g).items) ++ [n]) : l'.puts.Perm (n :: l.puts) := by
  obtain ⟨front, back, hsplit⟩ := List.append_of_mem (List.mem_range.mpr (Nat.lt_succ_of_le hg))
  have hnodup := hsplit ▸ List.nodup_range (n := l.current + 1)
  have hfront : g ∉ front := fun hmem =>
    (List.nodup_append.mp hnodup).2.2 g hmem g List.mem_cons_self rfl
  have hback : g ∉ back := (List.nodup_cons.mp (List.nodup_append.mp hnodup).2.1).1
  have hkept : ∀ gs : List Nat, g ∉ gs →
      (gs.flatMap fun g' => callbacks ((l'.queues g').taken ++ (l'.queues g').items)) =
        gs.flatMap fun g' => callbacks ((l.queues g').taken ++ (l.queues g').items) := fun gs hgs =>
    List.flatMap_congr fun g' hg' => by rw [hsame g' fun heq => hgs (heq ▸ hg')]
  rw [puts, puts, hcur, hsplit]
  simp only [List.flatMap_append, List.flatMap_cons, hkept front hfront, hkept back hback, hnew]
  simp only [List.append_assoc, List.singleton_append]
  rw [← List.append_assoc, ← List.append_assoc]
  exact List.perm_middle

/-- `get` moves a callback, and `_STOP` is none. -/
theorem puts_get (l : Lane) (i : Nat) : (l.get i).puts = l.puts := by
  unfold get
  split
  · rfl
  · next w hw =>
    have hmoved : ∀ g, callbacks ((Function.update l.queues w.queue (l.queues w.queue).get g).taken ++
        (Function.update l.queues w.queue (l.queues w.queue).get g).items) =
          callbacks ((l.queues g).taken ++ (l.queues g).items) := by
      intro g
      by_cases hg : g = w.queue
      · subst hg
        rw [Function.update_self]
        unfold WorkQueue.get
        split
        · rfl
        · next hitems => rw [hitems, List.append_assoc, List.singleton_append]
      · rw [Function.update_of_ne hg]
    dsimp only
    split
    · rfl
    · exact List.flatMap_congr fun g _ => hmoved g
    · exact List.flatMap_congr fun g _ => hmoved g

theorem puts_finish (l : Lane) (i : Nat) : (l.finish i).puts = l.puts := by
  unfold finish
  split <;> rfl

theorem puts_putStop (l : Lane) : (l.putOn l.current .stop).puts = l.puts := by
  refine List.flatMap_congr fun g _ => ?_
  by_cases hg : g = l.current
  · subst hg
    simp [putOn, callbacks_append, callbacks]
  · simp [putOn, Function.update_of_ne hg]

theorem Sound.puts_renew (h : l.Sound) : l.renew.puts = l.puts := by
  show ((List.range (l.current + 1 + 1)).flatMap fun g =>
    callbacks ((l.queues g).taken ++ (l.queues g).items)) = _
  rw [List.range_succ (n := l.current + 1), List.flatMap_append]
  simp [h.future (l.current + 1) (Nat.lt_succ_self _), WorkQueue.empty, callbacks, puts]

theorem puts_putFunc (hg : g ≤ l.current) (n : Nat) : (l.putOn g (.func n)).puts.Perm (n :: l.puts) := by
  refine puts_perm hg rfl (fun g' hne => Function.update_of_ne hne _ _) ?_
  simp [putOn, callbacks_append, callbacks]

end Lane

end Kazoo
