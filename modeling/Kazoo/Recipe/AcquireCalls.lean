import Kazoo.Recipe.LockNodes
import Kazoo.Recipe.NeverForgotten
import Mathlib.Data.Rat.Defs
import Mathlib.Algebra.Order.Ring.Unbundled.Rat
import Mathlib.Tactic.Linarith

/-!
# Calls of `acquire`

`Lock.acquire` of `kazoo/recipe/lock.py` from its start, with the wait for `_acquire_method_lock`, the
time for which a call is blocked, and what it has to do with `cancel`.  Requests take no time.
-/

namespace Kazoo

variable {ι : Type} {L : Locks ι}

/-! ## The calls -/

structure AcquireCall where
  blocking : Bool
  timeout : Option ℚ
  ephemeral : Bool
  -- history: whether `cancel` has been called since the call started
  cancelled : Bool
  -- history: the time that it has spent blocked
  blocked : ℚ
  deriving DecidableEq

/-- `cancel` is called. -/
def AcquireCall.cancel (call : AcquireCall) : AcquireCall := { call with cancelled := true }

/-- It has been blocked for some time. -/
def AcquireCall.block (time : ℚ) (call : AcquireCall) : AcquireCall :=
  { call with blocked := call.blocked + time }

structure AcquireCalls {ι : Type} (L : Locks ι) where
  world : World L
  -- the calls that wait for `_acquire_method_lock`
  outside : ι → List AcquireCall
  -- the last one that has got it
  inside : ι → AcquireCall
  -- history: the calls that have not got it
  refused : List AcquireCall
  -- history: the calls in which `CancelledError` was raised
  cancellations : List AcquireCall

inductive CallAct {ι : Type} (L : Locks ι)
  | start (l : ι) (blocking : Bool) (timeout : Option ℚ) (ephemeral : Bool)
  -- `_acquire_method_lock.acquire` returns `True` after the time
  | enter (l : ι) (i : Nat) (time : ℚ)
  -- it returns `False`
  | refuse (l : ι) (i : Nat)
  -- any other step, and the time that it spends in `wake_event.wait`
  | go (act : LockAct L) (time : ℚ)

namespace AcquireCalls

def new : AcquireCalls L where
  world := .new
  outside := fun _ => []
  inside := fun _ => ⟨false, none, false, false, 0⟩
  refused := []
  cancellations := []

/-- How long the step may spend in `wake_event.wait(timeout)`. -/
def Waits (timeout : Option ℚ) (time : ℚ) : LockObject.Act → Prop
  -- the event is set in time
  | .wake => 0 ≤ time ∧ ∀ limit ∈ timeout, time ≤ limit
  | .timeOut => timeout = some time
  | _ => time = 0

instance (timeout : Option ℚ) (time : ℚ) (act : LockObject.Act) :
    Decidable (Waits timeout time act) := by
  induction act using LockObject.Act.casesOn <;> unfold Waits <;> infer_instance

/-- The steps that `go` takes, and their times.  The client raises no `CancelledError`. -/
def Goes (s : AcquireCalls L) (time : ℚ) : LockAct L → Prop
  | .thread _ (.enter _ _ _) => False
  | .thread l act => act ≠ .fail .cancelledError ∧ Waits (s.inside l).timeout time act
  | .createFail _ e => e ≠ .cancelledError ∧ time = 0
  | _ => time = 0

instance (s : AcquireCalls L) (time : ℚ) (act : LockAct L) : Decidable (s.Goes time act) := by
  induction act using LockAct.casesOn with
  | thread l act => induction act using LockObject.Act.casesOn <;> unfold Goes <;> infer_instance
  | _ => unfold Goes; infer_instance

variable [DecidableEq ι]

def setInside (l : ι) (call : AcquireCall) (s : AcquireCalls L) : AcquireCalls L :=
  { s with inside := Function.update s.inside l call }

def setOutside (l : ι) (calls : List AcquireCall) (s : AcquireCalls L) : AcquireCalls L :=
  { s with outside := Function.update s.outside l calls }

/-- The step of the lock object with which a call gets into `acquire`. -/
def entering (l : ι) (call : AcquireCall) : LockAct L :=
  .thread l (.enter call.blocking call.timeout.isSome call.ephemeral)

/-- The history after a step of the lock objects from `s` to `world`. -/
def after (s : AcquireCalls L) (world : World L) (time : ℚ) : LockAct L → AcquireCalls L
  | .thread l .cancel =>
    { s with world := world }
      |>.setOutside l ((s.outside l).map AcquireCall.cancel)
      |>.setInside l (s.inside l).cancel
  | .thread l .contend =>
    { s with
      world := world
      cancellations :=
        if (s.world.locks l).cancelled then s.cancellations ++ [s.inside l] else s.cancellations }
  | .thread l .wake | .thread l .timeOut =>
    { s with world := world }.setInside l ((s.inside l).block time)
  | _ => { s with world := world }

def enabled (s : AcquireCalls L) : CallAct L → Prop
  -- `_acquire_method_lock.acquire` refuses negative times, and times without blocking
  | .start _ blocking timeout _ => ∀ limit ∈ timeout, 0 ≤ limit ∧ blocking = true
  | .enter l i time => ∃ call ∈ (s.outside l)[i]?, 0 ≤ time ∧ (∀ limit ∈ call.timeout, time ≤ limit) ∧
      (call.blocking = false → time = 0) ∧ (s.world.step (entering l call)).isSome = true
  | .refuse l i => (s.world.locks l).stage ≠ .absent ∧
      ∃ call ∈ (s.outside l)[i]?, call.blocking = false ∨ call.timeout ≠ none
  | .go act time => (s.world.step act).isSome = true ∧ s.Goes time act

instance (s : AcquireCalls L) (act : CallAct L) : Decidable (s.enabled act) := by
  induction act using CallAct.casesOn <;> unfold enabled <;> infer_instance

def post (s : AcquireCalls L) : CallAct L → AcquireCalls L
  | .start l blocking timeout ephemeral =>
    s.setOutside l (s.outside l ++ [⟨blocking, timeout, ephemeral, false, 0⟩])
  | .enter l i time =>
    match (s.outside l)[i]? with
    | some call =>
      { s with world := (s.world.step (entering l call)).getD s.world }
        |>.setOutside l ((s.outside l).eraseIdx i)
        |>.setInside l (call.block time)
    | none => s
  | .refuse l i =>
    match (s.outside l)[i]? with
    | some call =>
      { s with refused := s.refused ++ [call.block (call.timeout.getD 0)] }
        |>.setOutside l ((s.outside l).eraseIdx i)
    | none => s
  | .go act time => s.after ((s.world.step act).getD s.world) time act

end AcquireCalls

/-- All interleavings of calls of `acquire`, with everything else that happens to the locks. -/
def acquireCalls [DecidableEq ι] (L : Locks ι) : Machine (AcquireCalls L) (CallAct L) where
  init := .new
  enabled := AcquireCalls.enabled
  post := AcquireCalls.post

instance [DecidableEq ι] (L : Locks ι) (s : AcquireCalls L) (act : CallAct L) :
    Decidable ((acquireCalls L).enabled s act) :=
  inferInstanceAs (Decidable (s.enabled act))

/-! ## What a step leaves -/

namespace LockObject

/-- The call in `acquire` goes on, or ends, and `cancel` is not called. -/
structure Continues (o o' : LockObject) : Prop where
  inside : o'.stage ≠ .absent → o.stage ≠ .absent
  cancelled : o'.cancelled = true → o.cancelled = true
  timed : o'.call.timed = o.call.timed

variable {decimal : CodePoint → Bool} {c : LockConfig} {o o' : LockObject} {act : Act}

theorem Continues.refl (o : LockObject) : Continues o o := ⟨id, id, rfl⟩

theorem Continues.of_inside (hinside : o.stage ≠ .absent)
    (hcancelled : o'.cancelled = true → o.cancelled = true) (hcall : o'.call.timed = o.call.timed) :
    Continues o o' :=
  ⟨fun _ => hinside, hcancelled, hcall⟩

theorem continues_raised (hinside : o.stage ≠ .absent) (e : Exn) : Continues o (o.raised e) := by
  obtain ⟨stage, -, h⟩ := raised_frame e o
  rw [h]
  exact .of_inside hinside id rfl

theorem continues_refused (hinside : o.stage ≠ .absent) : Continues o o.refused := by
  obtain ⟨stage, -, h⟩ := refused_frame o
  rw [h]
  exact .of_inside hinside id rfl

theorem continues_cleaned (hinside : o.stage ≠ .absent) (raising : Bool) :
    Continues o (o.cleaned raising) := by
  refine .of_inside hinside (fun h => ?_) rfl
  cases raising
  · exact h
  · cases h

theorem continues_releaser (i : Nat) (next : Option Releasing) : Continues o (o.releaser i next) := by
  cases next <;> exact ⟨id, id, rfl⟩

theorem continues_of_step (h : o.step decimal c act = some o') (hcancel : act ≠ .cancel)
    (henter : ∀ blocking timed ephemeral, act ≠ .enter blocking timed ephemeral) :
    Continues o o' := by
  cases steps_of_step h with
  | enter => exact absurd rfl (henter _ _ _)
  | cancel => exact absurd rfl hcancel
  | look hstage | attempt hstage | ensure hstage | findOwn hstage | findNone hstage | findFirst hstage
  | store hstage | contend hstage | compareFirst hstage | watch hstage | wake hstage | again hstage
  | mark hstage | clean hstage => exact .of_inside (by simp [hstage]) id rfl
  | attemptHeld hstage =>
    split
    · exact continues_raised (by simp [hstage]) _
    · exact continues_refused (by simp [hstage])
  | cancelled hstage | compareRaised hstage | timeOut hstage =>
    exact continues_raised (by simp [hstage]) _
  | compareBehind hstage =>
    split
    · exact .of_inside (by simp [hstage]) id rfl
    · exact continues_refused (by simp [hstage])
  | giveUp hstage => exact continues_refused (by simp [hstage])
  | cleanNothing hstage => exact continues_cleaned (by simp [hstage]) _
  | test | read | releaseFail => exact continues_releaser _ _
  | release => exact ⟨id, id, rfl⟩
  | unmark | clear => exact ⟨id, id, rfl⟩
  | fail hfails =>
    unfold failing at hfails
    (repeat' split at hfails) <;> cases hfails
    all_goals first
      | exact continues_raised (by simp [*]) _
      | exact continues_cleaned (by simp [*]) _
      | exact .of_inside (by simp [*]) id rfl

end LockObject

variable [DecidableEq ι] {w w' : World L} {l : ι}

theorem World.continues_of_step {act : LockAct L} (h : w.step act = some w')
    (hcancel : act ≠ .thread l .cancel)
    (henter : ∀ blocking timed ephemeral, act ≠ .thread l (.enter blocking timed ephemeral)) :
    LockObject.Continues (w.locks l) (w'.locks l) := by
  by_cases hactor : World.actor? act = some l
  · cases World.steps_of_step h with
    | @thread l' act o _ ho =>
      obtain rfl : l' = l := Option.some.inj hactor
      rw [World.setLock_locks_self]
      exact LockObject.continues_of_step ho (fun heq => hcancel (heq ▸ rfl))
        fun blocking timed ephemeral heq => henter blocking timed ephemeral (heq ▸ rfl)
    | @create l' number hstage =>
      obtain rfl : l' = l := Option.some.inj hactor
      rw [World.setLock_locks_self]
      exact .of_inside (by simp [hstage]) id rfl
    | @createFail l' e hstage =>
      obtain rfl : l' = l := Option.some.inj hactor
      show LockObject.Continues _ ((w.setLock l' _).locks l')
      rw [World.setLock_locks_self]
      exact LockObject.continues_raised (by simp [hstage]) e
    | @clean l' raising node hstage =>
      obtain rfl : l' = l := Option.some.inj hactor
      rw [World.setLock_locks_self]
      exact LockObject.continues_cleaned (by simp [hstage]) raising
    | @delete l' =>
      obtain rfl : l' = l := Option.some.inj hactor
      rw [World.setLock_locks_self]
      exact LockObject.continues_releaser _ _
    | createLate | vanish | appear | expire => cases hactor
  · rw [World.locks_of_step h hactor]
    exact .refl _

namespace World

theorem enter_step {blocking timed ephemeral : Bool}
    (h : w.step (.thread l (.enter blocking timed ephemeral)) = some w') :
    (w.locks l).stage = .absent ∧ (w'.locks l).stage = .entered ∧
      (w'.locks l).call.timed = timed ∧ (w'.locks l).cancelled = (w.locks l).cancelled := by
  cases steps_of_step h with
  | thread _ ho =>
    rw [setLock_locks_self]
    cases LockObject.steps_of_step ho with
    | enter habsent => exact ⟨habsent, rfl, rfl, rfl⟩

/-- A wait ends, with the event or without it. -/
theorem waited_step {act : LockObject.Act} (hact : act = .wake ∨ act = .timeOut)
    (h : w.step (.thread l act) = some w') :
    (∃ node, (w.locks l).stage = .waiting node) ∧ ∀ node, (w'.locks l).stage ≠ .waiting node := by
  cases steps_of_step h with
  | thread _ ho =>
    rw [setLock_locks_self]
    rcases hact with rfl | rfl
    · cases LockObject.steps_of_step ho with
      | wake hstage => exact ⟨⟨_, hstage⟩, by simp⟩
    · cases LockObject.steps_of_step ho with
      | timeOut hstage =>
        refine ⟨⟨_, hstage⟩, fun node' hnode' => ?_⟩
        have hnot := LockObject.not_blocked_raised .lockTimeout (w.locks l)
        rw [hnode'] at hnot
        exact hnot trivial

end World

namespace AcquireCalls

@[simp] theorem after_world (s : AcquireCalls L) (w : World L) (time : ℚ) (act : LockAct L) :
    (s.after w time act).world = w := by
  unfold after
  split <;> rfl

@[simp] theorem after_refused (s : AcquireCalls L) (w : World L) (time : ℚ) (act : LockAct L) :
    (s.after w time act).refused = s.refused := by
  unfold after
  split <;> rfl

theorem after_outside (s : AcquireCalls L) (w : World L) (time : ℚ) (act : LockAct L) (l : ι) :
    (s.after w time act).outside l = s.outside l ∨
      act = .thread l .cancel ∧ (s.after w time act).outside l = (s.outside l).map .cancel := by
  unfold after
  split
  · next l' =>
    by_cases hl : l = l'
    · subst hl
      exact .inr ⟨rfl, Function.update_self _ _ _⟩
    · exact .inl (Function.update_of_ne hl _ _)
  all_goals exact .inl rfl

theorem after_inside (s : AcquireCalls L) (w : World L) (time : ℚ) (act : LockAct L) (l : ι) :
    (s.after w time act).inside l = s.inside l ∨
      act = .thread l .cancel ∧ (s.after w time act).inside l = (s.inside l).cancel ∨
      (act = .thread l .wake ∨ act = .thread l .timeOut) ∧
        (s.after w time act).inside l = (s.inside l).block time := by
  have hset {call : AcquireCall} {s' : AcquireCalls L} {l' : ι} (hl : l ≠ l')
      (hinside : s'.inside = s.inside) : (s'.setInside l' call).inside l = s.inside l :=
    (Function.update_of_ne hl _ _).trans (by rw [hinside])
  unfold after
  split
  · next l' =>
    by_cases hl : l = l'
    · subst hl
      exact .inr (.inl ⟨rfl, Function.update_self _ _ _⟩)
    · exact .inl (hset hl rfl)
  · exact .inl rfl
  · next l' =>
    by_cases hl : l = l'
    · subst hl
      exact .inr (.inr ⟨.inl rfl, Function.update_self _ _ _⟩)
    · exact .inl (hset hl rfl)
  · next l' =>
    by_cases hl : l = l'
    · subst hl
      exact .inr (.inr ⟨.inr rfl, Function.update_self _ _ _⟩)
    · exact .inl (hset hl rfl)
  · exact .inl rfl

end AcquireCalls

/-! ## Time limits -/

/-- The call has not been blocked for longer than it is willing to wait. -/
def AcquireCall.InTime (call : AcquireCall) : Prop := ∀ limit ∈ call.timeout, call.blocked ≤ limit

namespace AcquireCalls

def InTime (s : AcquireCalls L) : Prop :=
  (∀ call ∈ s.refused, call.InTime) ∧ ∀ l, (∀ call ∈ s.outside l, call.InTime) ∧ (s.inside l).InTime

/-- A call with a time limit waits for `wake_event` only if it has not been blocked before. -/
def FirstWait (s : AcquireCalls L) : CallAct L → Prop
  | .go (.thread l (.watch true)) _ => (s.inside l).timeout ≠ none → (s.inside l).blocked = 0
  | _ => True

/-- What the condition keeps. -/
structure Timely (s : AcquireCalls L) : Prop where
  refused : ∀ call ∈ s.refused, call.InTime
  outside : ∀ l, ∀ call ∈ s.outside l, call.blocked = 0 ∧ ∀ limit ∈ call.timeout, 0 ≤ limit
  inside : ∀ l, (s.inside l).InTime
  waiting : ∀ l node, (s.world.locks l).stage = .waiting node → (s.inside l).timeout ≠ none →
    (s.inside l).blocked = 0

variable {s : AcquireCalls L} {act : CallAct L}

omit [DecidableEq ι] in
theorem timely_new : Timely (new : AcquireCalls L) where
  refused _ h := absurd h List.not_mem_nil
  outside _ _ h := absurd h List.not_mem_nil
  inside _ _ h := by cases h
  waiting _ _ h := by cases h

omit [DecidableEq ι] in
theorem Timely.inTime (h : s.Timely) : s.InTime :=
  ⟨h.refused, fun l => ⟨fun call hcall limit hlimit => by
    rw [(h.outside l call hcall).1]
    exact (h.outside l call hcall).2 limit hlimit, h.inside l⟩⟩

theorem Timely.go (h : s.Timely) {act : LockAct L} {time : ℚ}
    (hstep : s.world.step act = some w') (hgoes : s.Goes time act)
    (hfirst : FirstWait s (.go act time)) : (s.after w' time act).Timely where
  refused := by
    rw [after_refused]
    exact h.refused
  outside l call hcall := by
    rcases after_outside s w' time act l with heq | ⟨-, heq⟩
    · exact h.outside l call (heq ▸ hcall)
    · rw [heq] at hcall
      obtain ⟨call', hcall', rfl⟩ := List.mem_map.mp hcall
      exact h.outside l call' hcall'
  inside l limit hlimit := by
    rcases after_inside s w' time act l with heq | ⟨-, heq⟩ | ⟨hact, heq⟩
    · rw [heq] at hlimit ⊢
      exact h.inside l limit hlimit
    · rw [heq] at hlimit ⊢
      exact h.inside l limit hlimit
    · rw [heq] at hlimit ⊢
      have hlimit : limit ∈ (s.inside l).timeout := hlimit
      -- nothing was waited for before
      have hzero : (s.inside l).blocked = 0 := by
        have hwaiting : ∃ node, (s.world.locks l).stage = .waiting node := by
          rcases hact with rfl | rfl
          · exact (World.waited_step (.inl rfl) hstep).1
          · exact (World.waited_step (.inr rfl) hstep).1
        obtain ⟨node, hnode⟩ := hwaiting
        exact h.waiting l node hnode (by rw [hlimit]; exact Option.some_ne_none limit)
      show (s.inside l).blocked + time ≤ limit
      rw [hzero, zero_add]
      rcases hact with rfl | rfl
      · exact hgoes.2.2 limit hlimit
      · have htime : (s.inside l).timeout = some time := hgoes.2
        rw [htime] at hlimit
        exact (Option.some.inj hlimit).le
  waiting l node hnode htimed := by
    rw [after_world] at hnode
    rcases World.blocked_of_step hstep (l := l) (by rw [hnode]; trivial) with
      ⟨hsame, -⟩ | ⟨_, _, _, -, -, -, hwatching⟩ | ⟨node', rfl, -, -⟩
    · rw [hnode] at hsame
      rcases after_inside s w' time act l with heq | ⟨-, heq⟩ | ⟨hact, heq⟩
      · rw [heq] at htimed ⊢
        exact h.waiting l node hsame.symm htimed
      · rw [heq] at htimed ⊢
        exact h.waiting l node hsame.symm htimed
      · rcases hact with rfl | rfl
        · exact absurd hnode ((World.waited_step (.inl rfl) hstep).2 node)
        · exact absurd hnode ((World.waited_step (.inr rfl) hstep).2 node)
    · rw [hnode] at hwatching
      cases hwatching
    · exact hfirst htimed

theorem mem_setOutside {l l' : ι} {calls : List AcquireCall} {call : AcquireCall}
    (h : call ∈ (s.setOutside l calls).outside l') : call ∈ calls ∨ call ∈ s.outside l' := by
  by_cases hl : l' = l
  · subst hl
    exact .inl ((Function.update_self l' calls s.outside) ▸ h)
  · exact .inr ((Function.update_of_ne hl calls s.outside) ▸ h)

/-- What a step says that a call gets into `acquire` with. -/
theorem enter_spec {l : ι} {i : Nat} {time : ℚ} (hen : s.enabled (.enter l i time)) :
    ∃ call w', call ∈ s.outside l ∧ (s.outside l)[i]? = some call ∧ 0 ≤ time ∧
      (∀ limit ∈ call.timeout, time ≤ limit) ∧ s.world.step (entering l call) = some w' ∧
      s.post (.enter l i time) = (({ s with world := w' }.setOutside l
        ((s.outside l).eraseIdx i)).setInside l (call.block time)) := by
  obtain ⟨call, hcall, hnonneg, hlimit, -, hstep⟩ := hen
  obtain ⟨w', hw'⟩ := Option.isSome_iff_exists.mp hstep
  refine ⟨call, w', List.mem_of_getElem? hcall, hcall, hnonneg, hlimit, hw', ?_⟩
  simp only [post, show (s.outside l)[i]? = some call from hcall, hw', Option.getD_some]

/-- Only one object gets a call. -/
theorem setInside_inside {l l' : ι} {call : AcquireCall} :
    (s.setInside l call).inside l' = if l' = l then call else s.inside l' :=
  Function.update_apply _ _ _ _

theorem Timely.step (h : s.Timely) (hen : s.enabled act) (hfirst : FirstWait s act) :
    (s.post act).Timely := by
  cases act with
  | start l blocking timeout ephemeral =>
    exact {
      refused := h.refused
      outside := fun l' call hcall => by
        rcases mem_setOutside hcall with hcall | hcall
        · rcases List.mem_append.mp hcall with hcall | hcall
          · exact h.outside l call hcall
          · obtain rfl := List.mem_singleton.mp hcall
            exact ⟨rfl, fun limit hlimit => (hen limit hlimit).1⟩
        · exact h.outside l' call hcall
      inside := h.inside
      waiting := h.waiting }
  | enter l i time =>
    obtain ⟨call, w', hmem, -, -, hlimit, hstep, hpost⟩ := enter_spec hen
    obtain ⟨hzero, -⟩ := h.outside l call hmem
    rw [hpost]
    exact {
      refused := h.refused
      outside := fun l' call' hcall' => by
        rcases mem_setOutside hcall' with hcall' | hcall'
        · exact h.outside l call' (List.mem_of_mem_eraseIdx hcall')
        · exact h.outside l' call' hcall'
      inside := fun l' => by
        rw [setInside_inside]
        split
        · intro limit hmem'
          show call.blocked + time ≤ limit
          rw [hzero, zero_add]
          exact hlimit limit hmem'
        · exact h.inside l'
      waiting := fun l' node hnode htimed => by
        have hwaiting : (w'.locks l').stage = .waiting node := hnode
        rw [setInside_inside] at htimed ⊢
        by_cases hl : l' = l
        · rw [hl, (World.enter_step hstep).2.1] at hwaiting
          cases hwaiting
        · rw [World.locks_of_step hstep (fun heq => hl (Option.some.inj heq).symm)] at hwaiting
          rw [if_neg hl] at htimed ⊢
          exact h.waiting l' node hwaiting htimed }
  | refuse l i =>
    obtain ⟨-, call, hcall, -⟩ := hen
    have hmem := List.mem_of_getElem? hcall
    have hpost : s.post (.refuse l i) = { s with refused :=
        s.refused ++ [call.block (call.timeout.getD 0)] }.setOutside l
          ((s.outside l).eraseIdx i) := by
      rw [post, show (s.outside l)[i]? = some call from hcall]
    rw [hpost]
    exact {
      refused := fun call' hcall' => by
        rcases List.mem_append.mp hcall' with hcall' | hcall'
        · exact h.refused call' hcall'
        · obtain rfl := List.mem_singleton.mp hcall'
          intro limit hlimit
          have hlimit : call.timeout = some limit := hlimit
          show call.blocked + call.timeout.getD 0 ≤ limit
          rw [(h.outside l call hmem).1, hlimit, zero_add]
          exact le_refl limit
      outside := fun l' call' hcall' => by
        rcases mem_setOutside hcall' with hcall' | hcall'
        · exact h.outside l call' (List.mem_of_mem_eraseIdx hcall')
        · exact h.outside l' call' hcall'
      inside := h.inside
      waiting := h.waiting }
  | go act time =>
    obtain ⟨hstep, hgoes⟩ := hen
    obtain ⟨w', hw'⟩ := Option.isSome_iff_exists.mp hstep
    rw [post, hw']
    exact h.go hw' hgoes hfirst

theorem timely_of_reach (h : (acquireCalls L).Reach FirstWait s) : s.Timely :=
  h.invariant timely_new fun _ _ _ hs hen hok => hs.step hen hok

/-- The lock object knows whether the call has a time limit. -/
def Linked (s : AcquireCalls L) : Prop := ∀ l, (s.world.locks l).stage ≠ .absent →
  (s.world.locks l).call.timed = (s.inside l).timeout.isSome

theorem Linked.step (h : s.Linked) (hen : s.enabled act) : (s.post act).Linked := by
  cases act with
  | start l blocking timeout ephemeral => exact h
  | enter l i time =>
    obtain ⟨call, w', -, -, -, -, hstep, hpost⟩ := enter_spec hen
    rw [hpost]
    intro l' hinside
    have hinside : (w'.locks l').stage ≠ .absent := hinside
    show (w'.locks l').call.timed = (Function.update s.inside l (call.block time) l').timeout.isSome
    by_cases hl : l' = l
    · subst hl
      rw [(World.enter_step hstep).2.2.1, Function.update_self]
      rfl
    · rw [Function.update_of_ne hl]
      rw [World.locks_of_step hstep (fun heq => hl (Option.some.inj heq).symm)] at hinside ⊢
      exact h l' hinside
  | refuse l i =>
    obtain ⟨-, call, hcall, -⟩ := hen
    rw [post, show (s.outside l)[i]? = some call from hcall]
    exact h
  | go act time =>
    obtain ⟨hstep, hgoes⟩ := hen
    obtain ⟨w', hw'⟩ := Option.isSome_iff_exists.mp hstep
    rw [post, hw', Option.getD_some]
    intro l hinside
    rw [after_world] at hinside ⊢
    have htimeout : ((s.after w' time act).inside l).timeout = (s.inside l).timeout := by
      rcases after_inside s w' time act l with heq | ⟨-, heq⟩ | ⟨-, heq⟩ <;> rw [heq] <;>
        rfl
    rw [htimeout]
    by_cases hcancel : act = .thread l .cancel
    · subst hcancel
      simp only [World.step, LockObject.step, LockObject.Act.children?] at hw'
      obtain ⟨-, hw'⟩ := Option.ite_none_right_eq_some.mp hw'
      cases hw'
      rw [World.setLock_locks_self] at hinside ⊢
      exact h l hinside
    · have hcontinues := World.continues_of_step hw' hcancel
        (fun blocking timed ephemeral heq => by subst heq; exact hgoes)
      rw [hcontinues.timed]
      exact h l (hcontinues.inside hinside)

theorem linked_of_reachable (h : (acquireCalls L).Reachable s) : s.Linked :=
  h.invariant (fun _ h => absurd rfl h) fun _ _ _ hs hen _ => hs.step hen

/-- A call of `acquire` stays within its time limit in every run in which it waits for `wake_event`
only when it has not been blocked before.  Whenever it waits after it has been blocked, it can be
blocked for too long. -/
theorem acquire_in_time (L : Locks ι) :
    (∀ s, (acquireCalls L).Reach FirstWait s → s.InTime) ∧
      ∀ s, (acquireCalls L).Reachable s → ∀ l node limit,
        (s.world.locks l).stage = .waiting node → (s.inside l).timeout = some limit →
        0 < (s.inside l).blocked →
        (acquireCalls L).enabled s (.go (.thread l .timeOut) limit) ∧
          ¬ ((acquireCalls L).post s (.go (.thread l .timeOut) limit)).InTime := by
  refine ⟨fun s h => (timely_of_reach h).inTime, fun s h l node limit hstage htimeout hblocked => ?_⟩
  have htimed : (s.world.locks l).call.timed = true := by
    rw [linked_of_reachable h l (by rw [hstage]; exact Stage.noConfusion), htimeout]
    rfl
  have hstep : s.world.step (.thread l .timeOut) =
      some (s.world.setLock l ((s.world.locks l).raised .lockTimeout)) := by
    simp [World.step, LockObject.step, LockObject.Act.children?, hstage, htimed]
  refine ⟨⟨by rw [hstep]; rfl, LockObject.Act.noConfusion, htimeout⟩, fun hinTime => ?_⟩
  have hle := (hinTime.2 l).2 limit
  have hinside : ((acquireCalls L).post s (.go (.thread l .timeOut) limit)).inside l =
      (s.inside l).block limit := Function.update_self _ _ _
  rw [hinside] at hle
  have hle : (s.inside l).blocked + limit ≤ limit := hle htimeout
  linarith

/-! ## A writer and a reader -/

abbrev writerAndReader : Locks Bool := World.writerAndReader

/-- Steps that are not waits. -/
def going (acts : List (LockAct writerAndReader)) : List (CallAct writerAndReader) :=
  acts.map (.go · 0)

/-- The names of the two nodes. -/
def writerNode : PyStr := (writerAndReader.config true).nodeName 0
def readerNode : PyStr := (writerAndReader.config false).nodeName 1

/-- The writer acquires the lock, and a call for the reader waits up to three seconds for it. -/
def readerWaits : List (CallAct writerAndReader) :=
  [.start true true none true, .enter true 0 0] ++
    going [.thread true .look, .thread true .attempt, .thread true .ensure, .thread true (.find []),
      .create true 0, .thread true .store, .thread true .contend,
      .thread true (.compare [writerNode]), .thread true .mark] ++
    [.start false true (some 3) true, .enter false 0 0] ++
    going [.thread false .look, .thread false .attempt, .thread false .ensure,
      .thread false (.find [writerNode]), .create false 1, .thread false .store,
      .thread false .contend, .thread false (.compare [writerNode, readerNode]),
      .thread false (.watch true)]

/-- The event is set after two seconds, though the writer still holds the lock. -/
def wokenInVain : List (CallAct writerAndReader) :=
  .go (.thread false .wake) 2 ::
    going [.thread false .contend, .thread false (.compare [writerNode, readerNode]),
      .thread false (.watch true)]

instance (s : AcquireCalls writerAndReader) (act : CallAct writerAndReader) :
    Decidable (FirstWait s act) := by
  unfold FirstWait
  split <;> infer_instance

theorem acquire_in_time_reader :
    ((acquireCalls writerAndReader).exec .new
      (readerWaits ++ [.go (.thread false .wake) 2])).InTime :=
  (acquire_in_time writerAndReader).1 _ (.of_legal (by decide +kernel))

theorem acquire_too_long :
    ¬ ∀ s, (acquireCalls writerAndReader).Reachable s → s.InTime := by
  intro h
  have hinTime := h ((acquireCalls writerAndReader).exec .new
    (readerWaits ++ wokenInVain ++ [.go (.thread false .wake) 2])) (.of_legal (by decide +kernel))
  have hle := (hinTime.2 false).2 3 (by decide +kernel)
  revert hle
  decide +kernel

end AcquireCalls

end Kazoo
