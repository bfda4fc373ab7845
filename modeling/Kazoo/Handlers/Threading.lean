import Kazoo.Handlers.Lane
import Kazoo.Lib.Machine

/-!
# The threading handler

`SequentialThreadingHandler` of `kazoo/handlers/threading.py`: `start` spawns a worker for each of the two
queues, `stop` puts `_STOP` on both, joins the workers and replaces the queues.  Any number of threads
dispatch callbacks, without `_state_change`, so that a queue may be replaced between the time that its
attribute is read and `put`.
-/

namespace Kazoo

/-- What the thread in `with self._state_change` has still to do.  A worker may call `stop` in a
callback. -/
inductive StateChange
  | free
  | spawning (types : List QueueType)
  | putting (types : List QueueType) (caller : Option (QueueType × Nat))
  | joining (caller : Option (QueueType × Nat))
  | renewing (types : List QueueType)
  deriving DecidableEq

namespace StateChange

def spawns : StateChange → Bool
  | .spawning (_ :: _) => true
  | _ => false

def puts : StateChange → Bool
  | .putting (_ :: _) _ => true
  | _ => false

def joins : StateChange → Bool
  | .joining _ => true
  | _ => false

def renews : StateChange → Bool
  | .renewing (_ :: _) => true
  | _ => false

end StateChange

structure Handler where
  running : Bool
  change : StateChange
  lanes : QueueType → Lane
  workers : List (QueueType × Nat)
  -- calls of `put` whose queue is already known: the callback, the type and the number of the queue
  dispatching : List (Nat × QueueType × Nat)
  -- how many callbacks have been dispatched
  dispatched : Nat

inductive HandlerAction
  | start
  | spawn
  | stop (caller : Option (QueueType × Nat))
  | putStop
  | join
  | renew
  -- a thread reads the attribute, and calls `put`
  | dispatch (t : QueueType)
  | put (i : Nat)
  | get (t : QueueType) (i : Nat)
  | finish (t : QueueType) (i : Nat)
  deriving DecidableEq

namespace Handler

def frame? (s : Handler) (t : QueueType) (i : Nat) : Option WorkerFrame :=
  ((s.lanes t).threads[i]?).map WorkerThread.frame

/-- The callback that the worker runs. -/
def runs? (s : Handler) (p : QueueType × Nat) : Bool :=
  ((s.frame? p.1 p.2).bind WorkerFrame.func?).isSome

/-- The worker which is in `stop`. -/
def caller? (s : Handler) : Option (QueueType × Nat) :=
  match s.change with
  | .putting _ caller | .joining caller => caller
  | _ => none

def setLane (t : QueueType) (f : Lane → Lane) (s : Handler) : Handler :=
  { s with lanes := Function.update s.lanes t (f (s.lanes t)) }

/-- `worker.join()`, which raises in the worker itself. -/
def CanJoin (s : Handler) (p : QueueType × Nat) : Prop :=
  s.caller? = some p ∨ s.frame? p.1 p.2 = some .ended

instance (s : Handler) (p : QueueType × Nat) : Decidable (s.CanJoin p) :=
  inferInstanceAs (Decidable (_ ∨ _))

/-- There is something for `work_queue.get()` to return. -/
def canGet (s : Handler) (t : QueueType) (i : Nat) : Bool :=
  match (s.lanes t).threads[i]? with
  | some ⟨g, .idle⟩ => !((s.lanes t).queues g).items.isEmpty
  | _ => false

def Enabled (s : Handler) : HandlerAction → Prop
  | .start => s.change = .free
  | .spawn => s.change.spawns
  | .stop caller => s.change = .free ∧ ∀ p ∈ caller, s.runs? p
  | .putStop => s.change.puts
  | .join => s.change.joins ∧ ∀ p ∈ s.workers.getLast?, s.CanJoin p
  | .renew => s.change.renews
  | .dispatch _ => True
  | .put i => i < s.dispatching.length
  | .get t i => s.canGet t i
  | .finish t i => s.runs? (t, i) ∧ s.caller? ≠ some (t, i)

instance (s : Handler) : ∀ a, Decidable (s.Enabled a)
  | .start => inferInstanceAs (Decidable (_ = _))
  | .spawn | .putStop | .renew | .get .. => inferInstanceAs (Decidable (_ = true))
  | .stop _ | .join => inferInstanceAs (Decidable (_ ∧ ∀ p ∈ _, _))
  | .dispatch _ => inferInstanceAs (Decidable True)
  | .put _ => inferInstanceAs (Decidable (_ < _))
  | .finish .. => inferInstanceAs (Decidable (_ ∧ _))

/-- The first statements of `start` and `stop`. -/
def enterStart (s : Handler) : Handler :=
  if s.running then s else { s with change := .spawning [.completion, .callback] }

def enterStop (caller : Option (QueueType × Nat)) (s : Handler) : Handler :=
  if s.running then { s with running := false, change := .putting [.completion, .callback] caller }
  else s

/-- A turn of the loop in `start`. -/
def spawnWorker (t : QueueType) (types : List QueueType) (s : Handler) : Handler :=
  { s.setLane t Lane.spawn with
    workers := s.workers ++ [(t, (s.lanes t).threads.length)]
    running := types.isEmpty
    change := if types.isEmpty then .free else .spawning types }

def putStop (t : QueueType) (types : List QueueType) (caller : Option (QueueType × Nat)) (s : Handler) :
    Handler :=
  { s.setLane t (fun l => l.putOn l.current .stop) with
    workers := if types.isEmpty then s.workers.reverse else s.workers
    change := if types.isEmpty then .joining caller else .putting types caller }

/-- A turn of `while self._workers`. -/
def joinWorker (caller : Option (QueueType × Nat)) (s : Handler) : Handler :=
  match s.workers.getLast? with
  | none => { s with change := .renewing [.callback, .completion] }
  | some p =>
    { s with workers := s.workers.dropLast, change := if caller = some p then .free else s.change }

def renewQueue (t : QueueType) (types : List QueueType) (s : Handler) : Handler :=
  { s.setLane t Lane.renew with change := if types.isEmpty then .free else .renewing types }

def step (s : Handler) : HandlerAction → Handler
  | .start => s.enterStart
  | .spawn => match s.change with
    | .spawning (t :: types) => s.spawnWorker t types
    | _ => s
  | .stop caller => s.enterStop caller
  | .putStop => match s.change with
    | .putting (t :: types) caller => s.putStop t types caller
    | _ => s
  | .join => match s.change with
    | .joining caller => s.joinWorker caller
    | _ => s
  | .renew => match s.change with
    | .renewing (t :: types) => s.renewQueue t types
    | _ => s
  | .dispatch t =>
    { s with
      dispatching := s.dispatching ++ [(s.dispatched, t, (s.lanes t).current)]
      dispatched := s.dispatched + 1 }
  | .put i => match s.dispatching[i]? with
    | some (n, t, g) =>
      { s.setLane t (Lane.putOn g (.func n)) with dispatching := s.dispatching.eraseIdx i }
    | none => s
  | .get t i => s.setLane t (Lane.get i)
  | .finish t i => s.setLane t (Lane.finish i)

end Handler

/-- The threads that use a handler, and its workers. -/
def handlerThreads : Machine Handler HandlerAction where
  init := ⟨false, .free, fun _ => .new, [], [], 0⟩
  enabled := Handler.Enabled
  post := Handler.step

namespace Handler

instance (s : Handler) (a : HandlerAction) : Decidable (handlerThreads.enabled s a) :=
  inferInstanceAs (Decidable (s.Enabled a))

/-- No worker calls `stop`. -/
def Outside (_ : Handler) : HandlerAction → Prop
  | .stop (some _) => False
  | _ => True

instance (s : Handler) : ∀ a, Decidable (s.Outside a)
  | .stop (some _) => inferInstanceAs (Decidable False)
  | .stop none | .start | .spawn | .putStop | .join | .renew | .dispatch _ | .put _ | .get .. |
    .finish .. => inferInstanceAs (Decidable True)

end Handler

namespace Handler

section

variable {s : Handler} {a : HandlerAction} {t : QueueType}

/-- The stage of a lane, as the thread in `start` or `stop` leaves it. -/
def status (s : Handler) (t : QueueType) : Lane.Status :=
  match s.change with
  | .free => if s.running then .manned else .unmanned
  | .spawning types => if t ∈ types then .unmanned else .manned
  | .putting types _ => if t ∈ types then .manned else .stopping
  | .joining _ => if t ∈ s.workers.map Prod.fst then .stopping else .stopped
  | .renewing types => if t ∈ types then .stopped else .unmanned

/-- The workers that `_workers` holds at each point of `start` and `stop`. -/
def Listed (s : Handler) : Prop :=
  match s.change with
  | .free => s.workers.map Prod.fst = if s.running then [.completion, .callback] else []
  | .spawning types => types ≠ [] ∧ s.workers.map Prod.fst ++ types = [.completion, .callback]
  | .putting types _ =>
    types ≠ [] ∧ types <:+ [.completion, .callback] ∧ s.workers.map Prod.fst = [.completion, .callback]
  | .joining _ => s.workers.map Prod.fst <+: [.callback, .completion]
  | .renewing types => types ≠ [] ∧ types <:+ [.callback, .completion] ∧ s.workers = []

structure Sequential (s : Handler) : Prop where
  sound : ∀ t, (s.lanes t).Sound
  stage : ∀ t, (s.lanes t).Is (s.status t)
  listed : s.Listed
  last : ∀ p ∈ s.workers, p.2 + 1 = (s.lanes p.1).threads.length
  outside : s.caller? = none
  off : s.change = .free ∨ s.running = false
  known : ∀ d ∈ s.dispatching, d.2.2 ≤ (s.lanes d.2.1).current

theorem mem_types (t : QueueType) : t ∈ [QueueType.completion, .callback] := by
  cases t <;> decide

/-- A step of one lane alone. -/
theorem Sequential.setLane (h : s.Sequential) {f : Lane → Lane} (hsound : (f (s.lanes t)).Sound)
    (hstage : (f (s.lanes t)).Is (s.status t))
    (hlength : (f (s.lanes t)).threads.length = (s.lanes t).threads.length)
    (hcur : (f (s.lanes t)).current = (s.lanes t).current) : (s.setLane t f).Sequential where
  sound := (Function.forall_update_iff s.lanes fun _ l => l.Sound).mpr ⟨hsound, fun t' _ => h.sound t'⟩
  stage := (Function.forall_update_iff s.lanes fun t l => l.Is (s.status t)).mpr
    ⟨hstage, fun t' _ => h.stage t'⟩
  listed := h.listed
  last p hp := by
    refine (h.last p hp).trans ?_
    by_cases hpt : p.1 = t
    · rw [hpt]
      simpa [Handler.setLane] using hlength.symm
    · simp [Handler.setLane, Function.update_of_ne hpt]
  outside := h.outside
  off := h.off
  known d hd := by
    refine (h.known d hd).trans_eq ?_
    by_cases hdt : d.2.1 = t
    · rw [hdt]
      simpa [Handler.setLane] using hcur.symm
    · simp [Handler.setLane, Function.update_of_ne hdt]

theorem canGet_eq_true {i : Nat} (h : s.canGet t i) :
    ∃ g, (s.lanes t).threads[i]? = some ⟨g, .idle⟩ ∧ ((s.lanes t).queues g).items ≠ [] := by
  unfold canGet at h
  split at h
  · next g hw => exact ⟨g, hw, by simpa using h⟩
  · cases h

theorem sequential_get {i : Nat} (h : s.Sequential) (hen : s.canGet t i) :
    (s.setLane t (Lane.get i)).Sequential := by
  obtain ⟨g, hw, hitems⟩ := canGet_eq_true hen
  obtain ⟨hsound, hstage⟩ := (h.sound t).get (h.stage t) hw hitems
  refine h.setLane hsound hstage ?_ ?_
  · unfold Lane.get
    rw [hw]
    dsimp only
    split <;> simp
  · unfold Lane.get
    rw [hw]
    dsimp only
    split <;> rfl

theorem runs?_eq_true {p : QueueType × Nat} (h : s.runs? p) :
    ∃ g n, (s.lanes p.1).threads[p.2]? = some ⟨g, .running n⟩ := by
  unfold runs? frame? at h
  cases hw : (s.lanes p.1).threads[p.2]? with
  | none => simp [hw] at h
  | some w =>
    obtain ⟨g, frame⟩ := w
    cases frame with
    | running n => exact ⟨g, n, rfl⟩
    | idle | ended => simp [hw, WorkerFrame.func?] at h

theorem sequential_finish {i : Nat} (h : s.Sequential) (hen : s.runs? (t, i)) :
    (s.setLane t (Lane.finish i)).Sequential := by
  obtain ⟨g, n, hw⟩ := runs?_eq_true hen
  obtain ⟨hsound, hstage⟩ := (h.sound t).finish (h.stage t) hw
  refine h.setLane hsound hstage ?_ ?_
  · rw [Lane.finish, hw]
    simp
  · rw [Lane.finish, hw]

theorem sequential_put {i n g : Nat} (h : s.Sequential) (hd : s.dispatching[i]? = some (n, t, g)) :
    Sequential { s.setLane t (Lane.putOn g (.func n)) with dispatching := s.dispatching.eraseIdx i } := by
  have hg : g ≤ (s.lanes t).current := h.known _ (List.mem_of_getElem? hd)
  have hput := h.setLane (f := Lane.putOn g (.func n)) ((h.sound t).putOn hg _) ((h.stage t).putFunc n)
    rfl rfl
  exact ⟨hput.sound, hput.stage, hput.listed, hput.last, hput.outside,
    hput.off, fun d hd => hput.known d (List.mem_of_mem_eraseIdx hd)⟩

theorem sequential_dispatch (h : s.Sequential) (t : QueueType) : (s.step (.dispatch t)).Sequential where
  sound := h.sound
  stage := h.stage
  listed := h.listed
  last := h.last
  outside := h.outside
  off := h.off
  known d hd := by
    obtain hd | hd := List.mem_append.mp hd
    · exact h.known d hd
    · obtain rfl := List.mem_singleton.mp hd
      exact le_rfl

theorem sequential_start (h : s.Sequential) (hfree : s.change = .free) : s.enterStart.Sequential := by
  unfold enterStart
  split
  · exact h
  · next hrunning =>
    have hlisted := h.listed
    rw [Listed, hfree] at hlisted
    refine ⟨h.sound, fun t => ?_, ⟨by simp, ?_⟩, h.last, rfl, .inr (by simpa using hrunning), h.known⟩
    · have hstage := h.stage t
      simp only [status, hfree, if_neg hrunning] at hstage
      simpa only [status, if_pos (mem_types t)] using hstage
    · simpa [hrunning] using hlisted

theorem sequential_stop (h : s.Sequential) (hfree : s.change = .free) :
    (s.enterStop none).Sequential := by
  unfold enterStop
  split
  · next hrunning =>
    have hlisted := h.listed
    rw [Listed, hfree] at hlisted
    refine ⟨h.sound, fun t => ?_, ⟨by simp, List.suffix_refl _, ?_⟩, h.last, rfl, .inr rfl,
      h.known⟩
    · have hstage := h.stage t
      simp only [status, hfree, if_pos hrunning] at hstage
      simpa only [status, if_pos (mem_types t)] using hstage
    · simpa [hrunning] using hlisted
  · exact h

theorem append_cons_eq {ts types : List QueueType} (h : ts ++ t :: types = [.completion, .callback]) :
    ts = [] ∧ t = .completion ∧ types = [.callback] ∨ ts = [.completion] ∧ t = .callback ∧ types = [] := by
  rcases ts with _ | ⟨t', _ | ⟨t'', ts⟩⟩ <;> simp_all

theorem sequential_spawn {types : List QueueType} (h : s.Sequential)
    (hchange : s.change = .spawning (t :: types)) : (s.spawnWorker t types).Sequential := by
  have hlisted := h.listed
  have hstage := h.stage
  have houtside := h.outside
  simp only [Listed, hchange] at hlisted
  simp only [status, hchange] at hstage
  have hspawn : (s.lanes t).spawn.Is .manned := by
    have hunmanned := hstage t
    rw [if_pos List.mem_cons_self] at hunmanned
    exact hunmanned.spawn
  refine ⟨?_, ?_, ?_, ?_, ?_, ?_, ?_⟩
  · exact (Function.forall_update_iff s.lanes fun _ l => l.Sound).mpr
      ⟨(h.sound t).spawn, fun t' _ => h.sound t'⟩
  · refine (Function.forall_update_iff s.lanes fun t' l => l.Is ((s.spawnWorker t types).status t')).mpr
      ⟨?_, fun t' ht' => ?_⟩
    · obtain ⟨-, rfl, rfl⟩ | ⟨-, rfl, rfl⟩ := append_cons_eq hlisted.2 <;> exact hspawn
    · have hkept := hstage t'
      obtain ⟨-, rfl, rfl⟩ | ⟨-, rfl, rfl⟩ := append_cons_eq hlisted.2 <;> cases t' <;>
        first | exact hkept | exact absurd rfl ht'
  · obtain ⟨hworkers, rfl, rfl⟩ | ⟨hworkers, rfl, rfl⟩ := append_cons_eq hlisted.2 <;>
      simp [Listed, spawnWorker, hworkers]
  · intro p hp
    obtain hp | hp := List.mem_append.mp hp
    · have hne : p.1 ≠ t := by
        have hmem := List.mem_map_of_mem (f := Prod.fst) hp
        obtain ⟨hworkers, rfl, -⟩ | ⟨hworkers, rfl, -⟩ := append_cons_eq hlisted.2 <;>
          rw [hworkers] at hmem
        · cases hmem
        · rw [List.mem_singleton.mp hmem]
          decide
      refine (h.last p hp).trans ?_
      simp [spawnWorker, Handler.setLane, Function.update_of_ne hne]
    · rw [List.mem_singleton.mp hp]
      simp [spawnWorker, Handler.setLane, Lane.spawn]
  · obtain ⟨-, rfl, rfl⟩ | ⟨-, rfl, rfl⟩ := append_cons_eq hlisted.2 <;> rfl
  · obtain ⟨-, rfl, rfl⟩ | ⟨-, rfl, rfl⟩ := append_cons_eq hlisted.2
    · exact .inr rfl
    · exact .inl rfl
  · intro d hd
    refine (h.known d hd).trans_eq ?_
    by_cases hdt : d.2.1 = t
    · simp [spawnWorker, Handler.setLane, hdt, Lane.spawn]
    · simp [spawnWorker, Handler.setLane, Function.update_of_ne hdt]

theorem cons_suffix_cases {t' t'' : QueueType} {types : List QueueType} (h : t :: types <:+ [t', t'']) :
    t = t' ∧ types = [t''] ∨ t = t'' ∧ types = [] := by
  obtain ⟨front, h⟩ := h
  rcases front with _ | ⟨x, _ | ⟨y, front⟩⟩ <;> simp_all

theorem sequential_putStop {types : List QueueType} {caller : Option (QueueType × Nat)} (h : s.Sequential)
    (hchange : s.change = .putting (t :: types) caller) : (s.putStop t types caller).Sequential := by
  have hoff := h.off.resolve_left (by rw [hchange]; simp)
  have hlisted := h.listed
  have hstage := h.stage
  have houtside := h.outside
  simp only [Listed, hchange] at hlisted
  simp only [status, hchange] at hstage
  simp only [caller?, hchange] at houtside
  obtain ⟨-, hsuffix, hworkers⟩ := hlisted
  have hput : ((s.lanes t).putOn (s.lanes t).current .stop).Is .stopping := by
    have hmanned := hstage t
    rw [if_pos List.mem_cons_self] at hmanned
    exact hmanned.putStop
  refine ⟨?_, ?_, ?_, ?_, ?_, ?_, ?_⟩
  · exact (Function.forall_update_iff s.lanes fun _ l => l.Sound).mpr
      ⟨(h.sound t).putOn le_rfl _, fun t' _ => h.sound t'⟩
  · refine (Function.forall_update_iff s.lanes fun t' l => l.Is ((s.putStop t types caller).status t')).mpr
      ⟨?_, fun t' ht' => ?_⟩
    · obtain ⟨rfl, rfl⟩ | ⟨rfl, rfl⟩ := cons_suffix_cases hsuffix <;>
        simpa [status, putStop, hworkers] using hput
    · have hkept := hstage t'
      obtain ⟨rfl, rfl⟩ | ⟨rfl, rfl⟩ := cons_suffix_cases hsuffix <;> cases t' <;>
        first | exact absurd rfl ht' | simpa [status, putStop, hworkers] using hkept
  · obtain ⟨rfl, rfl⟩ | ⟨rfl, rfl⟩ := cons_suffix_cases hsuffix
    · exact ⟨by simp, by simp, hworkers⟩
    · simp [Listed, putStop, hworkers]
  · intro p hp
    have hp : p ∈ s.workers := by
      obtain ⟨rfl, rfl⟩ | ⟨rfl, rfl⟩ := cons_suffix_cases hsuffix
      · exact hp
      · exact List.mem_reverse.mp hp
    refine (h.last p hp).trans ?_
    by_cases hpt : p.1 = t
    · simp [putStop, Handler.setLane, hpt, Lane.putOn]
    · simp [putStop, Handler.setLane, Function.update_of_ne hpt]
  · obtain ⟨rfl, rfl⟩ | ⟨rfl, rfl⟩ := cons_suffix_cases hsuffix <;> exact houtside
  · exact .inr hoff
  · intro d hd
    refine (h.known d hd).trans_eq ?_
    by_cases hdt : d.2.1 = t
    · simp [putStop, Handler.setLane, hdt, Lane.putOn]
    · simp [putStop, Handler.setLane, Function.update_of_ne hdt]

/-- A lane whose last worker has ended is through with stopping. -/
theorem stopped_of_ended {l : Lane} {i : Nat} (h : l.Is .stopping) (hlast : i + 1 = l.threads.length)
    (hended : (l.threads[i]?).map WorkerThread.frame = some .ended) : l.Is .stopped := by
  obtain ⟨⟨front, frame, hthreads, hframe, -⟩, -⟩ | h := h
  · rw [hthreads, List.length_append, List.length_singleton] at hlast
    obtain rfl : i = front.length := by omega
    rw [hthreads, List.getElem?_concat_length] at hended
    exact absurd (Option.some.inj hended) hframe
  · exact h

theorem prefix_cases {ts : List QueueType} (h : ts ++ [t] <+: [.callback, .completion]) :
    ts = [] ∧ t = .callback ∨ ts = [.callback] ∧ t = .completion := by
  rcases ts with _ | ⟨t', _ | ⟨t'', ts⟩⟩ <;> simp_all

theorem sequential_join {caller : Option (QueueType × Nat)} (h : s.Sequential)
    (hchange : s.change = .joining caller) (hcan : ∀ p ∈ s.workers.getLast?, s.CanJoin p) :
    (s.joinWorker caller).Sequential := by
  have hoff := h.off.resolve_left (by rw [hchange]; simp)
  have hlisted := h.listed
  have hstage := h.stage
  have houtside := h.outside
  simp only [Listed, hchange] at hlisted
  simp only [status, hchange] at hstage
  simp only [caller?, hchange] at houtside
  subst houtside
  unfold joinWorker
  split
  · next hnone =>
    have hnil := List.getLast?_eq_none_iff.mp hnone
    refine ⟨h.sound, fun t => ?_, ⟨by simp, by simp, hnil⟩, h.last, rfl, .inr hoff, h.known⟩
    have hstopped := hstage t
    rw [hnil] at hstopped
    cases t <;> exact hstopped
  · next p hsome =>
    have hended := (hcan p (by rw [hsome]; rfl)).resolve_left (by rw [h.outside]; simp)
    obtain ⟨front, hworkers⟩ := List.getLast?_eq_some_iff.mp hsome
    have hp : p ∈ s.workers := by rw [hworkers]; simp
    have hdrop : s.workers.dropLast = front := by rw [hworkers]; simp
    rw [hdrop]
    have hmap : s.workers.map Prod.fst = front.map Prod.fst ++ [p.1] := by rw [hworkers]; simp
    have hchange' : (if none = some p then StateChange.free else s.change) = .joining none := by
      rw [if_neg (by simp), hchange]
    rw [hchange']
    refine ⟨h.sound, fun t => ?_, ?_, fun p' hp' => h.last p' (by rw [hworkers]; simp [hp']), rfl,
      .inr hoff, h.known⟩
    · have hkept := hstage t
      rw [hmap] at hkept hlisted
      by_cases hpt : t = p.1
      · subst hpt
        rw [if_pos (by simp)] at hkept
        obtain ⟨hfront, -⟩ | ⟨hfront, hp1⟩ := prefix_cases hlisted
        · simpa [status, hfront] using stopped_of_ended hkept (h.last p hp) hended
        · simpa [status, hfront, hp1] using hp1 ▸ stopped_of_ended hkept (h.last p hp) hended
      · simpa only [status, List.mem_append, List.mem_singleton, hpt, or_false] using hkept
    · rw [hmap] at hlisted
      exact (List.prefix_append _ _).trans hlisted

theorem sequential_renew {types : List QueueType} (h : s.Sequential)
    (hchange : s.change = .renewing (t :: types)) : (s.renewQueue t types).Sequential := by
  have hoff := h.off.resolve_left (by rw [hchange]; simp)
  have hlisted := h.listed
  have hstage := h.stage
  simp only [Listed, hchange] at hlisted
  simp only [status, hchange] at hstage
  obtain ⟨-, hsuffix, hworkers⟩ := hlisted
  have hstopped := hstage t
  rw [if_pos List.mem_cons_self] at hstopped
  refine ⟨?_, ?_, ?_, ?_, ?_, ?_, ?_⟩
  · exact (Function.forall_update_iff s.lanes fun _ l => l.Sound).mpr
      ⟨(h.sound t).renew hstopped, fun t' _ => h.sound t'⟩
  · refine (Function.forall_update_iff s.lanes fun t' l => l.Is ((s.renewQueue t types).status t')).mpr
      ⟨?_, fun t' ht' => ?_⟩
    · have hrenew := hstopped.renew (h.sound t)
      obtain ⟨rfl, rfl⟩ | ⟨rfl, rfl⟩ := cons_suffix_cases hsuffix
      · exact hrenew
      · simpa [status, renewQueue, Handler.setLane, hoff] using hrenew
    · have hkept := hstage t'
      obtain ⟨rfl, rfl⟩ | ⟨rfl, rfl⟩ := cons_suffix_cases hsuffix <;> cases t' <;>
        first | exact absurd rfl ht' | simpa [status, renewQueue, Handler.setLane, hoff] using hkept
  · obtain ⟨rfl, rfl⟩ | ⟨rfl, rfl⟩ := cons_suffix_cases hsuffix
    · exact ⟨by simp, by simp, hworkers⟩
    · simp [Listed, renewQueue, Handler.setLane, hworkers, hoff]
  · intro p hp
    have hp : p ∈ s.workers := hp
    rw [hworkers] at hp
    cases hp
  · obtain ⟨rfl, rfl⟩ | ⟨rfl, rfl⟩ := cons_suffix_cases hsuffix <;> rfl
  · exact .inr hoff
  · intro d hd
    refine (h.known d hd).trans ?_
    by_cases hdt : d.2.1 = t
    · simp [renewQueue, Handler.setLane, hdt, Lane.renew]
    · simp [renewQueue, Handler.setLane, Function.update_of_ne hdt]

theorem sequential_step (h : s.Sequential) (hen : s.Enabled a) (houtside : s.Outside a) :
    (s.step a).Sequential := by
  cases a with
  | start => exact sequential_start h hen
  | spawn =>
    rw [step]
    split
    · next hchange => exact sequential_spawn h hchange
    · exact h
  | stop caller =>
    cases caller with
    | none => exact sequential_stop h hen.1
    | some p => cases houtside
  | putStop =>
    rw [step]
    split
    · next hchange => exact sequential_putStop h hchange
    · exact h
  | join =>
    rw [step]
    split
    · next hchange => exact sequential_join h hchange hen.2
    · exact h
  | renew =>
    rw [step]
    split
    · next hchange => exact sequential_renew h hchange
    · exact h
  | dispatch t => exact sequential_dispatch h t
  | put i =>
    rw [step]
    split
    · next hd => exact sequential_put h hd
    · exact h
  | get t i => exact sequential_get h hen
  | finish t i => exact sequential_finish h hen.1

theorem sequential_of_reach (hr : handlerThreads.Reach Outside s) : s.Sequential := by
  refine hr.invariant ⟨fun t => ?_, fun t => ?_, rfl, by simp [handlerThreads], rfl, .inl rfl,
    by simp [handlerThreads]⟩ fun s a _ h hen houtside => sequential_step h hen houtside
  · exact ⟨fun g hg => absurd hg (Nat.not_lt_zero g), fun g _ => rfl, rfl, rfl⟩
  · exact ⟨fun w hw => absurd hw List.not_mem_nil, rfl, List.not_mem_nil⟩

/-- The callbacks that have been dispatched: those that were put on a queue, and those about to be. -/
def numbers (s : Handler) : List Nat :=
  (s.lanes .completion).puts ++ (s.lanes .callback).puts ++ s.dispatching.map Prod.fst

theorem numbers_setLane {f : Lane → Lane} (h : (f (s.lanes t)).puts = (s.lanes t).puts) :
    (s.setLane t f).numbers = s.numbers := by
  cases t <;> simp [numbers, Handler.setLane, h]

theorem eraseIdx_map_perm {i : Nat} {d : Nat × QueueType × Nat} {l : List (Nat × QueueType × Nat)}
    (h : l[i]? = some d) : (d.1 :: (l.eraseIdx i).map Prod.fst).Perm (l.map Prod.fst) := by
  obtain ⟨hi, rfl⟩ := List.getElem?_eq_some_iff.mp h
  exact (List.getElem_cons_eraseIdx_perm hi).map Prod.fst

theorem numbers_put {i n g : Nat} (h : s.Sequential) (hd : s.dispatching[i]? = some (n, t, g)) :
    (numbers { s.setLane t (Lane.putOn g (.func n)) with
      dispatching := s.dispatching.eraseIdx i }).Perm s.numbers := by
  have hput := Lane.puts_putFunc (h.known _ (List.mem_of_getElem? hd)) n
  have hrest := eraseIdx_map_perm hd
  generalize s.dispatching.eraseIdx i = rest at hrest
  cases t with
  | completion =>
    have hmoved := (hput.append_right (s.lanes .callback).puts).append_right (rest.map Prod.fst)
    exact (hmoved.trans List.perm_middle.symm).trans (hrest.append_left _)
  | callback =>
    have hmoved := (hput.append_left (s.lanes .completion).puts).append_right (rest.map Prod.fst)
    refine (hmoved.trans ?_).trans (hrest.append_left _)
    exact (List.perm_middle.append_right _).trans List.perm_middle.symm

/-- A callback is dispatched under a new number, and no step copies one. -/
theorem numbers_step (h : s.Sequential) (hen : s.Enabled a) :
    ((s.step a).numbers.Perm s.numbers ∧ (s.step a).dispatched = s.dispatched) ∨
      ((s.step a).numbers = s.numbers ++ [s.dispatched] ∧ (s.step a).dispatched = s.dispatched + 1) := by
  cases a with
  | dispatch t => exact .inr ⟨by simp [numbers, step, List.append_assoc], rfl⟩
  | start =>
    rw [step, enterStart]
    split <;> exact .inl ⟨.refl _, rfl⟩
  | stop caller =>
    rw [step, enterStop]
    split <;> exact .inl ⟨.refl _, rfl⟩
  | spawn =>
    rw [step]
    split
    · next t types _ => exact .inl ⟨.of_eq (numbers_setLane (f := Lane.spawn) rfl), rfl⟩
    · exact .inl ⟨.refl _, rfl⟩
  | putStop =>
    rw [step]
    split
    · next t types caller _ =>
      exact .inl ⟨.of_eq (numbers_setLane (f := fun l => l.putOn l.current .stop) (Lane.puts_putStop _)), rfl⟩
    · exact .inl ⟨.refl _, rfl⟩
  | join =>
    rw [step]
    split
    · rw [joinWorker]
      split <;> exact .inl ⟨.refl _, rfl⟩
    · exact .inl ⟨.refl _, rfl⟩
  | renew =>
    rw [step]
    split
    · next t types _ => exact .inl ⟨.of_eq (numbers_setLane (f := Lane.renew) (h.sound t).puts_renew), rfl⟩
    · exact .inl ⟨.refl _, rfl⟩
  | put i =>
    rw [step]
    split
    · next hd => exact .inl ⟨numbers_put h hd, rfl⟩
    · exact .inl ⟨.refl _, rfl⟩
  | get t i => exact .inl ⟨.of_eq (numbers_setLane (Lane.puts_get _ i)), rfl⟩
  | finish t i => exact .inl ⟨.of_eq (numbers_setLane (Lane.puts_finish _ i)), rfl⟩

theorem numbers_of_reach (hr : handlerThreads.Reach Outside s) :
    s.numbers.Nodup ∧ ∀ n ∈ s.numbers, n < s.dispatched := by
  refine hr.invariant (P := fun s => s.numbers.Nodup ∧ ∀ n ∈ s.numbers, n < s.dispatched) ?_
    fun s a hr ⟨hnodup, hlt⟩ hen _ => ?_
  · exact ⟨List.nodup_nil, fun n hn => absurd hn List.not_mem_nil⟩
  · show (s.step a).numbers.Nodup ∧ ∀ n ∈ (s.step a).numbers, n < (s.step a).dispatched
    obtain ⟨hperm, hcount⟩ | ⟨hnew, hcount⟩ := numbers_step (sequential_of_reach hr) hen
    · rw [hcount]
      exact ⟨hperm.nodup_iff.mpr hnodup, fun n hn => hlt n (hperm.mem_iff.mp hn)⟩
    · rw [hnew, hcount]
      refine ⟨List.nodup_append.mpr ⟨hnodup, by simp, fun n hn m hm => ?_⟩, fun n hn => ?_⟩
      · rw [List.mem_singleton.mp hm]
        exact (hlt n hn).ne
      · obtain hn | hn := List.mem_append.mp hn
        · exact (hlt n hn).trans (Nat.lt_succ_self _)
        · rw [List.mem_singleton.mp hn]
          exact Nat.lt_succ_self _

theorem puts_sublist (s : Handler) (t : QueueType) : (s.lanes t).puts.Sublist s.numbers := by
  cases t with
  | completion => exact (List.sublist_append_left _ _).trans (List.sublist_append_left _ _)
  | callback => exact (List.sublist_append_right _ _).trans (List.sublist_append_left _ _)

/-- Where no worker calls `stop`, the callbacks of a type are called one at a time, none of them twice,
in the order in which they were put on their queues, those of a queue before those of the next one. -/
theorem callbacks_sequential (hr : handlerThreads.Reach Outside s) (t : QueueType) :
    (s.lanes t).done ++ (s.lanes t).running = (s.lanes t).started ∧ (s.lanes t).running.length ≤ 1 ∧
      (s.lanes t).started.Nodup ∧ (s.lanes t).started <+: (s.lanes t).accepted := by
  have h := sequential_of_reach hr
  have hstarted := (h.sound t).started_begins (h.stage t)
  have hnodup := (numbers_of_reach hr).1.sublist
    ((Lane.accepted_sublist_puts (s.lanes t)).trans (puts_sublist s t))
  exact ⟨(h.sound t).done, (h.stage t).running_le, hnodup.sublist hstarted.sublist, hstarted⟩

end

/-- Two callbacks of watches and one of a completion, of which the second watch callback comes behind
`_STOP`, up to the time that `stop` waits for its workers. -/
def startAndStop : List HandlerAction :=
  [.start, .spawn, .spawn, .dispatch .callback, .dispatch .completion, .dispatch .callback, .put 0,
    .get .callback 0, .put 0, .stop none, .putStop, .get .completion 0, .putStop, .put 0, .finish .callback 0]

/-- The rest of it. -/
def stopReturns : List HandlerAction :=
  [.get .callback 0, .finish .completion 0, .get .completion 0, .join, .join, .join, .renew, .renew]

theorem reach_startAndStop :
    handlerThreads.Reach Outside (handlerThreads.exec handlerThreads.init startAndStop) :=
  .of_legal (by decide +kernel)

theorem reach_stopReturns :
    handlerThreads.Reach Outside (handlerThreads.exec handlerThreads.init (startAndStop ++ stopReturns)) :=
  .of_legal (by decide +kernel)

/-- The watch callback that came in time is done, and the other is not. -/
theorem callbacks_sequential_startAndStop :
    ((handlerThreads.exec handlerThreads.init startAndStop).lanes .callback).done = [0] ∧
      ((handlerThreads.exec handlerThreads.init startAndStop).lanes .callback).started <+:
        ((handlerThreads.exec handlerThreads.init startAndStop).lanes .callback).accepted :=
  ⟨by decide +kernel, (callbacks_sequential reach_startAndStop .callback).2.2.2⟩

end Handler

end Kazoo
