import Kazoo.Recipe.LockOrder
import Mathlib.Data.List.Perm.Basic

/-!
# Elections

`Election` of `kazoo/recipe/election.py`: any number of elections on one path, and any number of threads
inside `run` of each of them.  `run` acquires the lock of its election, calls the leader function and
releases the lock.
-/

namespace Kazoo

variable {ι : Type}

/-- The elections `ι` have a lock each. -/
structure Elections (L : Locks ι) where
  world : World L
  -- the threads inside the leader function of each election
  leading : ι → Nat

inductive ElectionAct (L : Locks ι)
  -- `self.lock.acquire()` is called, by `with self.lock`
  | run (l : ι)
  -- a step inside `acquire` or `release`, `cancel`, or a step of the server
  | lock (act : LockAct L)
  -- the leader function returns or raises, and `self.lock.release()` is called
  | finish (l : ι)

/-- A call of a method of the lock, which `run` alone makes. -/
def LockAct.calls {L : Locks ι} : LockAct L → Bool
  | .thread _ (.enter ..) | .thread _ .release => true
  | _ => false

/-- `acquire` returns `True` to the thread that has called it. -/
def LockAct.elects? {L : Locks ι} : LockAct L → Option ι
  | .thread l .mark => some l
  | _ => none

namespace Elections

variable [DecidableEq ι] {L : Locks ι}

def new : Elections L := ⟨.new, fun _ => 0⟩

def step (s : Elections L) : ElectionAct L → Option (Elections L)
  | .run l => (s.world.step (.thread l (.enter true false true))).map fun w => { s with world := w }
  | .lock act =>
    if act.calls then none
    else (s.world.step act).map fun w =>
      { world := w
        leading := match act.elects? with
          | some l => Function.update s.leading l (s.leading l + 1)
          | none => s.leading }
  | .finish l =>
    if s.leading l = 0 then none
    else (s.world.step (.thread l .release)).map fun w =>
      { world := w, leading := Function.update s.leading l (s.leading l - 1) }

end Elections

/-- All interleavings of the threads inside `run`. -/
def electing [DecidableEq ι] (L : Locks ι) : Machine (Elections L) (ElectionAct L) where
  init := .new
  enabled := fun s act => (s.step act).isSome
  post := fun s act => (s.step act).getD s

instance [DecidableEq ι] (L : Locks ι) (s : Elections L) (act : ElectionAct L) :
    Decidable ((electing L).enabled s act) :=
  inferInstanceAs (Decidable ((s.step act).isSome = true))

/-! ## Threads between `acquire` and the end of `release` -/

namespace LockObject

/-- The threads inside `release` that have not set `is_acquired` to `False`. -/
def early (o : LockObject) : Nat := o.releasing.countP (· ≠ .clearing)

/-- At most one thread has the lock of the object, in the leader function or on its way out. -/
structure Led (leading : Nat) (o : LockObject) : Prop where
  one : leading + o.early ≤ 1
  acquired : 0 < leading + o.early → o.isAcquired = true

variable {decimal : CodePoint → Bool} {c : LockConfig} {o o' : LockObject} {act : Act} {leading : Nat}

theorem Led.congr (h : Led leading o) (hreleasing : o'.releasing = o.releasing)
    (hacquired : o'.isAcquired = o.isAcquired) : Led leading o' := by
  refine ⟨?_, ?_⟩
  · rw [early, hreleasing]
    exact h.one
  · rw [early, hreleasing, hacquired]
    exact h.acquired

theorem raised_releasing (e : Exn) (o : LockObject) :
    (o.raised e).releasing = o.releasing ∧ (o.raised e).isAcquired = o.isAcquired := by
  obtain ⟨stage, -, h⟩ := raised_frame e o
  rw [h]
  exact ⟨rfl, rfl⟩

theorem refused_releasing (o : LockObject) :
    o.refused.releasing = o.releasing ∧ o.refused.isAcquired = o.isAcquired := by
  obtain ⟨stage, -, h⟩ := refused_frame o
  rw [h]
  exact ⟨rfl, rfl⟩

theorem Led.raised (h : Led leading o) (e : Exn) : Led leading (o.raised e) :=
  h.congr (raised_releasing e o).1 (raised_releasing e o).2

theorem Led.refused (h : Led leading o) : Led leading o.refused :=
  h.congr (refused_releasing o).1 (refused_releasing o).2

theorem Led.failing (h : Led leading o) {e : Exn} (hfails : o.failing e = some o') : Led leading o' := by
  unfold LockObject.failing at hfails
  repeat' split at hfails
  all_goals cases hfails
  all_goals first | exact h.raised _ | exact h.congr rfl rfl

/-- A thread inside `release` goes on, or leaves. -/
theorem early_releaser {i : Nat} {r : Releasing} (hi : o.releasing[i]? = some r)
    (next : Option Releasing) :
    (o.releaser i next).early + (if r = .clearing then 0 else 1) =
      o.early + next.toList.countP (· ≠ .clearing) := by
  obtain ⟨hlt, rfl⟩ := List.getElem?_eq_some_iff.mp hi
  have hold := (List.getElem_cons_eraseIdx_perm hlt).countP_eq (· ≠ .clearing)
  have hold : o.early = (o.releasing.eraseIdx i).countP (· ≠ .clearing) +
      (if o.releasing[i] = .clearing then 0 else 1) := by
    rw [early, ← hold, List.countP_cons]
    split <;> simp_all
  cases next with
  | none =>
    show (o.releasing.eraseIdx i).countP (· ≠ .clearing) + _ = _
    rw [hold]
    rfl
  | some r' =>
    have hnew := (List.set_perm_cons_eraseIdx hlt r').countP_eq (· ≠ .clearing)
    show (o.releasing.set i r').countP (· ≠ .clearing) + _ = _
    rw [hnew, hold, List.countP_cons]
    simp only [Option.toList_some, List.countP_cons, List.countP_nil]
    omega

theorem Led.releaser (h : Led leading o) {i : Nat} {r : Releasing} (hi : o.releasing[i]? = some r)
    {next : Option Releasing} (hnext : r ≠ .clearing ∨ next = none) : Led leading (o.releaser i next) := by
  have hle : (o.releaser i next).early ≤ o.early := by
    have hearly := early_releaser hi next
    have hcount : next.toList.countP (· ≠ .clearing) ≤ next.toList.length := List.countP_le_length
    have hlength : next.toList.length ≤ 1 := by cases next <;> simp
    obtain hr | rfl := hnext
    · rw [if_neg hr] at hearly
      omega
    · simp only [Option.toList_none, List.countP_nil] at hearly
      omega
  refine ⟨(Nat.add_le_add_left hle _).trans h.one, fun hpos => ?_⟩
  rw [releaser_isAcquired]
  exact h.acquired (hpos.trans_le (Nat.add_le_add_left hle _))

/-- A step inside `acquire` or `release`, or `cancel`. -/
theorem Led.step (h : Led leading o) (hstep : o.step decimal c act = some o')
    (hmark : act ≠ .mark) (hrelease : act ≠ .release) : Led leading o' := by
  cases steps_of_step hstep with
  | enter | look | attempt | ensure | findOwn | findNone | findFirst | store | contend | compareFirst | watch
  | wake | again | clean | cleanNothing | cancel => exact h.congr rfl rfl
  | attemptHeld | compareBehind =>
    split
    · first | exact h.raised _ | exact h.congr rfl rfl
    · exact h.refused
  | cancelled | compareRaised | timeOut => exact h.raised _
  | giveUp => exact h.refused
  | fail hfails => exact h.failing hfails
  | mark => exact absurd rfl hmark
  | release => exact absurd rfl hrelease
  | test hi | read hi => exact h.releaser hi (.inl (by decide))
  | releaseFail hi => exact h.releaser hi (.inl (by simp))
  | clear hi => exact (h.releaser hi (.inr rfl)).congr rfl rfl
  | @unmark i hi =>
    -- the thread is the only one, so that nobody is left who needs the lock
    have hearly := early_releaser hi (some .clearing)
    have hone := h.one
    simp at hearly
    have hnone : leading + early { o.releaser i (some .clearing) with isAcquired := false } = 0 := by
      show leading + (o.releaser i (some .clearing)).early = 0
      omega
    exact ⟨by omega, fun hpos => by omega⟩

/-- The thread that has been elected is the only one. -/
theorem Led.mark (h : Led leading o) (hfree : o.isAcquired = false)
    (hstep : o.step decimal c .mark = some o') : Led (leading + 1) o' := by
  have hnone : leading + o.early = 0 := by
    by_contra hpos
    rw [h.acquired (Nat.pos_of_ne_zero hpos)] at hfree
    cases hfree
  cases steps_of_step hstep with
  | mark =>
    refine ⟨?_, fun _ => rfl⟩
    show leading + 1 + o.early ≤ 1
    omega

/-- The leader function is over. -/
theorem Led.finish (h : Led leading o) (hleading : leading ≠ 0)
    (hstep : o.step decimal c .release = some o') : Led (leading - 1) o' := by
  cases steps_of_step hstep with
  | release =>
    have hearly : early { o with releasing := o.releasing ++ [.testing] } = o.early + 1 := by
      simp [early, List.countP_append]
    refine ⟨?_, fun _ => ?_⟩
    · have hone := h.one
      rw [hearly]
      omega
    · exact h.acquired (by omega)

/-! ## The calls of `acquire` -/

/-- The call of `acquire` ends with `True` or an exception, as nothing in it is refused. -/
def Waits (o : LockObject) : Prop :=
  o.stage ≠ .absent → o.call.blocking = true ∧ o.call.timed = false

theorem waits_raised (h : Waits o) (hinside : o.stage ≠ .absent) (e : Exn) : Waits (o.raised e) := by
  obtain ⟨stage, -, heq⟩ := raised_frame e o
  rw [heq]
  exact fun _ => h hinside

theorem waits_releaser (h : Waits o) (i : Nat) (next : Option Releasing) : Waits (o.releaser i next) := by
  cases next with
  | none => exact h
  | some r => exact h

theorem waits_failing (h : Waits o) {e : Exn} (hfails : o.failing e = some o') : Waits o' := by
  unfold LockObject.failing at hfails
  repeat' split at hfails
  all_goals cases hfails
  all_goals first
    | exact waits_raised h (by simp [*]) _
    | exact fun _ => h (by simp [*])

theorem waits_step (h : Waits o) (hstep : o.step decimal c act = some o')
    (henter : ∀ blocking timed ephemeral, act = .enter blocking timed ephemeral →
      blocking = true ∧ timed = false) : Waits o' := by
  cases steps_of_step hstep with
  | enter => exact fun _ => henter _ _ _ rfl
  | look hstage | attempt hstage | ensure hstage | findOwn hstage | findNone hstage | findFirst hstage
  | store hstage | contend hstage | compareFirst hstage | watch hstage | wake hstage | again hstage
  | mark hstage | clean hstage | cleanNothing hstage => exact fun _ => h (by simp [hstage])
  | cancelled hstage | compareRaised hstage => exact waits_raised h (by simp [hstage]) _
  | attemptHeld hstage =>
    rw [if_pos (h (by simp [hstage])).1]
    exact waits_raised h (by simp [hstage]) _
  | compareBehind hstage =>
    rw [if_pos (h (by simp [hstage])).1]
    exact fun _ => h (by simp [hstage])
  | timeOut hstage htimed | giveUp hstage htimed =>
    rw [(h (by simp [hstage])).2] at htimed
    cases htimed
  | fail hfails => exact waits_failing h hfails
  | test | read | releaseFail => exact waits_releaser h _ _
  | unmark | clear => exact fun hinside => waits_releaser h _ _ hinside
  | release | cancel => exact h

end LockObject

namespace World

variable [DecidableEq ι] {L : Locks ι} {w w' : World L} {act : LockAct L} {l : ι} {leading : Nat}

/-- What a step inside a method of the lock, or of the server, makes of a lock object. -/
inductive Moves (w : World L) (l : ι) : LockObject → Prop
  | still : Moves w l (w.locks l)
  | thread {act : LockObject.Act} {o : LockObject} (hmark : act ≠ .mark) (hrelease : act ≠ .release)
      (henter : ∀ blocking timed ephemeral, act ≠ .enter blocking timed ephemeral)
      (hstep : (w.locks l).step L.decimal (L.config l) act = some o) : Moves w l o
  | created {node : PyStr} (hstage : (w.locks l).stage = .creating) :
    Moves w l { w.locks l with stage := .named node }
  | createFailed {e : Exn} (hstage : (w.locks l).stage = .creating) : Moves w l ((w.locks l).raised e)
  | cleaned {raising : Bool} {node : PyStr} (hstage : (w.locks l).stage = .deleting raising node) :
    Moves w l ((w.locks l).cleaned raising)
  | deleted {i : Nat} {node : PyStr} (hi : (w.locks l).releasing[i]? = some (.deleting node)) :
    Moves w l ((w.locks l).releaser i (some .unmarking))

theorem moves_of_step (hcalls : act.calls = false) (helects : act.elects? ≠ some l)
    (hstep : w.step act = some w') : Moves w l (w'.locks l) := by
  by_cases hact : actor? act = some l
  · have hset : ∀ {l' : ι} {o : LockObject} {w₁ : World L}, some l' = some l →
        Moves w l' o → Moves w l ((w₁.setLock l' o).locks l) := by
      rintro l' o w₁ ⟨⟩ ho
      rw [setLock_locks_self]
      exact ho
    cases steps_of_step hstep with
    | @thread l' act _ _ ho =>
      refine hset hact (.thread ?_ ?_ ?_ ho)
      · rintro rfl
        exact helects hact
      · rintro rfl
        cases hcalls
      · rintro _ _ _ rfl
        cases hcalls
    | create hstage => exact hset hact (.created hstage)
    | createFail hstage => exact hset hact (.createFailed hstage)
    | clean hstage => exact hset hact (.cleaned hstage)
    | delete hi => exact hset hact (.deleted hi)
    | createLate | vanish | appear | expire => cases hact
  · rw [locks_of_step hstep hact]
    exact .still

omit [DecidableEq ι] in
theorem led_moves (h : LockObject.Led leading (w.locks l)) {o : LockObject} (hmoves : Moves w l o) :
    LockObject.Led leading o := by
  cases hmoves with
  | still => exact h
  | thread hmark hrelease _ ho => exact h.step ho hmark hrelease
  | created => exact h.congr rfl rfl
  | createFailed => exact h.raised _
  | cleaned => exact h.congr rfl rfl
  | deleted hi => exact h.releaser hi (.inl (by simp))

omit [DecidableEq ι] in
theorem waits_moves (h : (w.locks l).Waits) {o : LockObject} (hmoves : Moves w l o) : o.Waits := by
  cases hmoves with
  | still => exact h
  | thread _ _ henter ho =>
    exact LockObject.waits_step h ho fun blocking timed ephemeral heq => absurd heq (henter _ _ _)
  | created hstage => exact fun _ => h (by simp [hstage])
  | createFailed hstage => exact LockObject.waits_raised h (by simp [hstage]) _
  | cleaned => exact fun hinside => absurd rfl hinside
  | deleted => exact LockObject.waits_releaser h _ _

end World

namespace Elections

variable [DecidableEq ι] {L : Locks ι} {s s' : Elections L} {act : ElectionAct L}

/-- All that a step can do. -/
inductive Steps (s : Elections L) : ElectionAct L → Elections L → Prop
  | run {l : ι} {w : World L} (hstep : s.world.step (.thread l (.enter true false true)) = some w) :
    Steps s (.run l) { s with world := w }
  | lock {act : LockAct L} {w : World L} (hcalls : act.calls = false) (helects : act.elects? = none)
      (hstep : s.world.step act = some w) : Steps s (.lock act) { s with world := w }
  | elected {l : ι} {w : World L} (hstep : s.world.step (.thread l .mark) = some w) :
    Steps s (.lock (.thread l .mark))
      { world := w, leading := Function.update s.leading l (s.leading l + 1) }
  | finish {l : ι} {w : World L} (hleading : s.leading l ≠ 0)
      (hstep : s.world.step (.thread l .release) = some w) :
    Steps s (.finish l) { world := w, leading := Function.update s.leading l (s.leading l - 1) }

omit [DecidableEq ι] in
theorem elects?_eq_some {act : LockAct L} {l : ι} (h : act.elects? = some l) : act = .thread l .mark := by
  cases act with
  | thread l' act =>
    cases act <;> cases h
    rfl
  | _ => cases h

theorem steps_of_step (h : s.step act = some s') : Steps s act s' := by
  cases act <;> simp only [step] at h
  case run l =>
    obtain ⟨w, hw, rfl⟩ := Option.map_eq_some_iff.mp h
    exact .run hw
  case lock act =>
    split at h
    · cases h
    next hcalls =>
    obtain ⟨w, hw, rfl⟩ := Option.map_eq_some_iff.mp h
    cases helects : act.elects? with
    | none => exact .lock (Bool.eq_false_iff.mpr hcalls) helects hw
    | some l =>
      obtain rfl := elects?_eq_some helects
      exact .elected hw
  case finish l =>
    split at h
    · cases h
    · obtain ⟨w, hw, rfl⟩ := Option.map_eq_some_iff.mp h
      exact .finish ‹_› hw

theorem post_of_enabled (hen : (electing L).enabled s act) :
    s.step act = some ((electing L).post s act) := by
  obtain ⟨s', hs'⟩ := Option.isSome_iff_exists.mp hen
  show s.step act = some ((s.step act).getD s)
  rw [hs', Option.getD_some]

theorem reachable_of_steps (h : (contention L).Reachable s.world) (hsteps : Steps s act s') :
    (contention L).Reachable s'.world := by
  cases hsteps with
  | run hw | lock _ _ hw | elected hw | finish _ hw => exact World.reachable_step h hw

/-- The world of the elections is one of lock objects. -/
theorem world_reachable (hr : (electing L).Reachable s) : (contention L).Reachable s.world := by
  refine hr.invariant (P := fun s => (contention L).Reachable s.world) .init fun s act _ h hen _ => ?_
  exact reachable_of_steps h (steps_of_step (post_of_enabled hen))

/-- What the threads of one election have done to its lock. -/
structure Fair (leading : Nat) (o : LockObject) : Prop where
  led : LockObject.Led leading o
  waits : o.Waits

/-- A thread of election `l` calls a method of the lock, or has got the lock. -/
theorem fair_called {l : ι} {act : LockObject.Act} {w : World L} {leading : ι → Nat} {n : Nat}
    (h : ∀ l, Fair (leading l) (s.world.locks l)) (hstep : s.world.step (.thread l act) = some w)
    (hl : ∀ o, (s.world.locks l).step L.decimal (L.config l) act = some o → Fair n o) (l' : ι) :
    Fair (Function.update leading l n l') (w.locks l') := by
  by_cases heq : l' = l
  · subst heq
    rw [Function.update_self]
    cases World.steps_of_step hstep with
    | thread _ ho =>
      rw [World.setLock_locks_self]
      exact hl _ ho
  · rw [Function.update_of_ne heq, World.locks_of_step hstep fun hact => heq (Option.some.inj hact).symm]
    exact h l'

theorem fair_step (hsound : s.world.Sound) (h : ∀ l, Fair (s.leading l) (s.world.locks l))
    (hsteps : Steps s act s') (l : ι) : Fair (s'.leading l) (s'.world.locks l) := by
  cases hsteps with
  | @run l' w hw =>
    have hnext := fair_called h hw (n := s.leading l') (fun o ho => ?_) l
    · rwa [Function.update_eq_self] at hnext
    · refine ⟨(h l').led.step ho nofun nofun, LockObject.waits_step (h l').waits ho ?_⟩
      rintro _ _ _ ⟨⟩
      exact ⟨rfl, rfl⟩
  | lock hcalls helects hw =>
    have hmoves := World.moves_of_step hcalls (l := l) (by rw [helects]; exact nofun) hw
    exact ⟨World.led_moves (h l).led hmoves, World.waits_moves (h l).waits hmoves⟩
  | @elected l' w hw =>
    refine fair_called h hw (fun o ho => ?_) l
    -- nobody else has got the lock while this thread was trying
    have hfree : (s.world.locks l').isAcquired = false := by
      cases LockObject.steps_of_step ho with
      | mark hstage => exact (hsound.locks l').unmarked (by rw [hstage]; trivial)
    exact ⟨(h l').led.mark hfree ho, LockObject.waits_step (h l').waits ho nofun⟩
  | @finish l' w hleading hw =>
    exact fair_called h hw (fun o ho =>
      ⟨(h l').led.finish hleading ho, LockObject.waits_step (h l').waits ho nofun⟩) l

theorem fair_of_reachable (hr : (electing L).Reachable s) (l : ι) :
    Fair (s.leading l) (s.world.locks l) := by
  refine hr.invariant (P := fun s => ∀ l, Fair (s.leading l) (s.world.locks l)) (fun l => ?_) ?_ l
  · exact ⟨⟨Nat.zero_le 1, fun hpos => absurd hpos (Nat.lt_irrefl 0)⟩, fun hinside => absurd rfl hinside⟩
  · intro s act hreach h hen _
    exact fair_step (World.sound_of_reachable (world_reachable hreach)) h
      (steps_of_step (post_of_enabled hen))

/-- The leader of election `l` has its node on the server. -/
def Leads (s : Elections L) (l : ι) : Prop := 0 < s.leading l ∧ s.world.Holds l

instance (s : Elections L) (l : ι) : Decidable (s.Leads l) :=
  inferInstanceAs (Decidable (_ ∧ _))

/-- An election runs its leader function once at a time.  As long as it runs, the lock says that it is
acquired, and a thread that waits for it has called `acquire` so that it returns nothing but `True`.  Of
all elections on the path one at most leads. -/
theorem one_leader (hr : (electing L).Reachable s) :
    (∀ l, s.leading l ≤ 1 ∧ (0 < s.leading l → (s.world.locks l).isAcquired = true)) ∧
      (∀ l, (s.world.locks l).stage ≠ .absent →
        (s.world.locks l).call.blocking = true ∧ (s.world.locks l).call.timed = false) ∧
      ∀ l l', (L.config l).kind = .lock → s.Leads l → s.Leads l' → l = l' := by
  refine ⟨fun l => ⟨?_, fun hleading => ?_⟩, fun l => (fair_of_reachable hr l).waits,
    fun l l' hkind hleads hleads' => ?_⟩
  · have hone := (fair_of_reachable hr l).led.one
    omega
  · exact (fair_of_reachable hr l).led.acquired (by omega)
  · by_contra hne
    have hexclusive : (L.config l).kind ≠ .readLock := by
      rw [hkind]
      decide
    exact World.held_alone (world_reachable hr) hne hexclusive hleads.2 hleads'.2

/-! ## Two elections -/

/-- An election has a plain lock. -/
theorem candidates_lock : (∀ _ : Bool, LockKind.lock = .lock) ∨ ∀ _ : Bool, LockKind.lock ≠ .lock :=
  .inl fun _ => rfl

/-- The lock objects of two elections of two clients. -/
def twoCandidates : Locks Bool where
  config second :=
    { kind := .lock
      uuid := List.replicate 32 (CodePoint.ofChar (if second then 'a' else 'b'))
      uuid_length := World.length_uuid second
      extraLockPatterns := []
      excludeNames := EXCLUDE_NAMES .lock
      mem_excludeNames := World.mem_EXCLUDE_NAMES_iff .lock
      client := second.toNat }
  uuid_injective := World.writerAndReader.uuid_injective
  oneFamily := candidates_lock
  decimal c := 48 ≤ c.val && c.val ≤ 57
  decimal_ascii := World.digitChar_ascii

/-- One call of `run`, up to the leader function, of a candidate who finds nobody in front. -/
def elected (second : Bool) (number : Nat) : List (ElectionAct twoCandidates) :=
  .run second :: [LockAct.thread second .look, .thread second .attempt, .thread second .ensure,
    .thread second (.find []), .create second number, .thread second .store, .thread second .contend,
    .thread second (.compare [(twoCandidates.config second).nodeName number]), .thread second .mark].map .lock

/-- The session of the first leader expires, and a second is elected while the leader function of the
first goes on. -/
def twoLeaders : Elections twoCandidates :=
  (electing twoCandidates).exec .new (elected false 0 ++ [.lock (.expire 0)] ++ elected true 1)

theorem one_leader_twoLeaders :
    twoLeaders.leading false = 1 ∧ twoLeaders.leading true = 1 ∧ twoLeaders.Leads true ∧
      ¬ twoLeaders.Leads false := by
  have hleads : twoLeaders.Leads true := by decide +kernel
  refine ⟨by decide +kernel, by decide +kernel, hleads, fun hfirst => ?_⟩
  have hone := (one_leader (s := twoLeaders) (.of_legal (by decide +kernel))).2.2
  exact absurd (hone true false (by decide) hleads hfirst) (by decide)

end Elections

end Kazoo
