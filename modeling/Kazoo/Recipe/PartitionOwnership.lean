import Kazoo.IntText
import Kazoo.Recipe.LockNodes
import Kazoo.Recipe.Partitioner
import Mathlib.Data.Fintype.Basic

/-!
# Ownership

When a partitioner that says ACQUIRED has the locks of its items: as long as no `acquire` returns
`False`, and nobody takes locks away on which the state, or an allocation in progress, relies.
-/

namespace Kazoo

/-! ## A lock object that is asked for with a timeout -/

/-- `acquire` is over, or is about to clean up. -/
def Stage.Ends : Stage → Prop
  | .absent | .cleaning _ | .deleting _ _ => True
  | _ => False

namespace LockObject

variable {decimal : CodePoint → Bool} {c : LockConfig} {o o' : LockObject} {act : Act}
  {thrown : Option Exn}

/-- The lock object has the node, or is about to say so. -/
def InUse (o : LockObject) (node : PyStr) : Prop :=
  o.stage = .gotten node ∨ o.isAcquired = true ∧ o.acquiredWith = some node

instance (o : LockObject) (node : PyStr) : Decidable (o.InUse node) :=
  inferInstanceAs (Decidable (_ ∨ _))

/-- A blocking `acquire` that has not given up is left with success or with an exception. -/
structure Throws (thrown : Option Exn) (o : LockObject) : Prop where
  blocking : o.call.blocking = true
  ends : o.stage.Ends → thrown ≠ none ∨ o.stage = .absent ∧ o.isAcquired = true

theorem Throws.onward (h : Throws thrown o) {thrown' : Option Exn}
    (hcall : o'.call.blocking = o.call.blocking) (hstage : ¬ o'.stage.Ends) : Throws thrown' o' :=
  ⟨hcall.trans h.blocking, fun hends => absurd hends hstage⟩

theorem Throws.raised (h : Throws thrown o) {thrown' : Option Exn} {e : Exn}
    (hthrown : e.retried = false → thrown' ≠ none) : Throws thrown' (o.raised e) := by
  unfold LockObject.raised
  split
  · exact h.onward rfl id
  · next hretried =>
    have hthrown := hthrown (by simpa using hretried)
    split <;> exact ⟨h.blocking, fun _ => .inl hthrown⟩

theorem or_ne_none {e : Option Exn} (h : thrown ≠ none) : e.or thrown ≠ none := by
  cases e with
  | none => exact h
  | some e => exact nofun

theorem Throws.failing (h : Throws thrown o) {e : Exn} (hstep : o.failing e = some o') :
    Throws ((o.raises? decimal c (.fail e)).or thrown) o' := by
  unfold LockObject.failing at hstep
  unfold raises?
  repeat' split at hstep
  all_goals cases hstep
  all_goals simp only [*]
  -- an exception of the clean-up is swallowed, or replaces the one there was
  case h_5.isTrue hkazoo | h_6.isTrue hkazoo =>
    refine ⟨h.blocking, fun _ => .inl (or_ne_none ?_)⟩
    have hends := h.ends (by simp only [*, Stage.Ends])
    exact hends.resolve_right (by simp only [*, reduceCtorEq, false_and, not_false_eq_true])
  case h_5.isFalse hkazoo | h_6.isFalse hkazoo =>
    exact ⟨h.blocking, fun _ => .inl nofun⟩
  all_goals
    apply h.raised
    intro hretried
    rw [hretried]
    exact nofun

theorem Throws.step (h : Throws thrown o) (hstep : o.step decimal c act = some o')
    (hact : act.acquires = true) (hnot : act ≠ .giveUp) :
    Throws ((o.raises? decimal c act).or thrown) o' := by
  cases steps_of_step hstep with
  | enter | release | test | read | unmark | clear | releaseFail | cancel => cases hact
  | giveUp => exact absurd rfl hnot
  | fail hfails => exact h.failing hfails
  | look | attempt | ensure | findOwn | findNone | findFirst | store | contend | compareFirst | wake
  | again => exact h.onward rfl id
  | attemptHeld =>
    rw [if_pos h.blocking]
    exact h.raised (by rintro ⟨⟩)
  | cancelled _ hcancelled =>
    apply h.raised
    intro hretried
    simp only [raises?, hcancelled, if_true]
    rintro ⟨⟩
  | compareRaised hstage herror =>
    apply h.raised
    intro hretried
    simp only [raises?, hstage, herror, hretried]
    rintro ⟨⟩
  | compareBehind =>
    rw [if_pos h.blocking]
    exact h.onward rfl id
  | @watch found => cases found <;> exact h.onward rfl id
  | timeOut => exact h.raised fun _ => (by rintro ⟨⟩)
  | mark => exact ⟨h.blocking, fun _ => .inr ⟨rfl, rfl⟩⟩
  | clean hstage | cleanNothing hstage =>
    -- the exception has been thrown before the clean-up
    have hends := h.ends (by simp only [hstage, Stage.Ends])
    have hthrown := hends.resolve_right
      (by simp only [hstage, reduceCtorEq, false_and, not_false_eq_true])
    exact ⟨h.blocking, fun _ => .inl (or_ne_none hthrown)⟩

end LockObject

namespace World

variable {ι : Type} {L : Locks ι} {w w' : World L} {l : ι} {node : PyStr}

/-- The node of `l` is on the server. -/
def Present (w : World L) (l : ι) (node : PyStr) : Prop :=
  ∃ number owner, node = (L.config l).nodeName number ∧ Znode.contender l number owner ∈ w.nodes

theorem Present.mem (h : w.Present l node) : node ∈ w.nodes.map Znode.name := by
  obtain ⟨number, owner, rfl, hmem⟩ := h
  exact List.mem_map.mpr ⟨_, hmem, rfl⟩

theorem Sound.present (hs : w.Sound) (howns : w.Owns l node)
    (hmem : node ∈ w.nodes.map Znode.name) : w.Present l node := by
  obtain ⟨number, hnumber, rfl⟩ := howns
  obtain ⟨owner, hmem⟩ := hs.contender_of_mem hnumber hmem
  exact ⟨number, owner, rfl, hmem⟩

theorem Present.vanish (h : w.Present l node) {name : PyStr} (hne : node ≠ name) :
    (w.delete name).Present l node := by
  obtain ⟨number, owner, rfl, hmem⟩ := h
  exact ⟨number, owner, rfl, List.mem_filter.mpr ⟨hmem, decide_eq_true hne⟩⟩

/-- The step does not give `acquire` up for lost, and the server does not show the node of the lock
object in front when it is gone. -/
def Orderly (w : World L) : LockAct L → Prop
  | .thread _ .giveUp => False
  | .thread l (.compare children) =>
    match (w.locks l).stage with
    | .comparing node => (L.config l).getPredecessor L.decimal node children = .ok none →
        node ∈ w.nodes.map Znode.name
    | _ => True
  | _ => True

instance (w : World L) (act : LockAct L) : Decidable (w.Orderly act) := by
  induction act using LockAct.casesOn
  case thread l act =>
    induction act using LockObject.Act.casesOn
    case compare children =>
      dsimp only [Orderly]
      generalize (w.locks l).stage = stage
      cases stage <;> (dsimp only; infer_instance)
    all_goals (dsimp only [Orderly]; infer_instance)
  all_goals (dsimp only [Orderly]; infer_instance)

variable [DecidableEq ι]

theorem Present.step (h : w.Present l node) (hmine : ∀ l, (w.locks l).Mine (L.config l))
    {act : LockAct L} (hstep : w.step act = some w') (hact : ¬ Deletes l act) : w'.Present l node := by
  obtain ⟨number, owner, rfl, hmem⟩ := h
  exact ⟨number, owner, rfl, contender_of_step hmine hstep hact hmem⟩

omit [DecidableEq ι] in
/-- A lock object that is acquired, and has its node, holds. -/
theorem Sound.holds (hs : w.Sound) (hacquired : (w.locks l).isAcquired = true)
    (hpresent : ∀ node, (w.locks l).InUse node → w.Present l node) : w.Holds l := by
  obtain ⟨node, hwith, -⟩ := (hs.locks l).acquired hacquired
  exact ⟨hacquired, node, (hpresent node (.inr ⟨hacquired, hwith⟩)).mem, .inr hwith⟩

/-- What one step of the thread inside `acquire` keeps, on a lock object that is not acquired: it has
its node if it is about to be, or is. -/
theorem inUse_of_acquires (hs : w.Sound) (hmine : ∀ l, (w.locks l).Mine (L.config l))
    {act : LockAct L} (hstep : w.step act = some w') (hact : act.acquires l)
    (hfree : (w.locks l).stage ≠ .absent → (w.locks l).isAcquired = false)
    (hpresent : ∀ node, (w.locks l).InUse node → w.Present l node)
    (hok : w.Orderly act) :
    ((w'.locks l).stage ≠ .absent → (w'.locks l).isAcquired = false) ∧
      ∀ node, (w'.locks l).InUse node → w'.Present l node := by
  obtain ⟨a, hacquires, hcompare, hdeletes⟩ := acquires_of_world hact hstep
  have hfree := hfree hacquires.inside
  have hkept : (∀ raising node, (w.locks l).stage ≠ .deleting raising node) → ∀ node,
      w.Present l node → w'.Present l node := by
    intro hnot node h
    apply h.step hmine hstep
    intro hdel
    obtain ⟨raising, node', hdeleting⟩ := hdeletes hdel
    exact hnot raising node' hdeleting
  constructor
  · intro hstage
    rcases hacquires.marks with ⟨heq, -⟩ | ⟨habsent, -⟩
    · exact heq.trans hfree
    · exact absurd habsent hstage
  rintro node (hgotten | ⟨hacquired, hwith⟩)
  · -- `_get_predecessor` has found nobody
    obtain ⟨children, rfl, hstage, hnone⟩ := hacquires.gotten node hgotten
    obtain rfl := hcompare children rfl
    have howns := (hs.locks l).owns node (by rw [hstage]; rfl)
    simp only [Orderly, hstage] at hok
    apply hkept
    · rw [hstage]
      exact nofun
    · exact hs.present howns (hok hnone)
  · -- `acquire` returns `True`
    rcases hacquires.marks with ⟨heq, -⟩ | ⟨-, node', hgotten, heq⟩
    · exact absurd (hfree.symm.trans (heq.symm.trans hacquired)) Bool.false_ne_true
    · obtain rfl : node' = node := Option.some.inj (heq.symm.trans hwith)
      apply hkept
      · rw [hgotten]
        exact nofun
      · exact hpresent node' (.inl hgotten)

theorem throws_of_acquires {thrown : Option Exn} (h : (w.locks l).Throws thrown) {act : LockAct L}
    (hstep : w.step act = some w') (hact : act.acquires l) (hok : w.Orderly act) :
    (w'.locks l).Throws ((w.raises? act).or thrown) := by
  cases steps_of_step hstep with
  | @thread l' act o _ ho =>
    obtain ⟨rfl, hact⟩ := hact
    rw [setLock_locks_self]
    apply h.step ho hact
    rintro rfl
    exact hok
  | @create l' =>
    obtain rfl : l' = l := hact
    rw [setLock_locks_self]
    exact h.onward rfl id
  | @createFail l' e =>
    obtain rfl : l' = l := hact
    show ((World.setLock l' _ w).locks l').Throws _
    rw [setLock_locks_self]
    apply h.raised
    intro hretried
    simp only [raises?, hretried]
    rintro ⟨⟩
  | @clean l' raising node hstage =>
    obtain rfl : l' = l := hact
    have hends := h.ends (by rw [hstage]; trivial)
    have hthrown := hends.resolve_right (by rw [hstage]; simp)
    rw [setLock_locks_self]
    exact ⟨h.blocking, fun _ => .inl (LockObject.or_ne_none hthrown)⟩
  | delete | createLate | vanish | appear | expire => cases hact

end World

/-! ## Who relies on which lock -/

namespace PartitionStage

/-- In `_allocate_transition`, behind the call of `_partition_func`. -/
def Allocates : PartitionStage → Prop
  | .taking | .acquiring | .retaking | .appending | .testing _ | .judging _ | .concluding => True
  | _ => False

/-- It remembers a state id. -/
def Remembers : PartitionStage → Prop
  | .splitting | .taking | .acquiring | .retaking | .appending | .testing _ | .judging _
  | .concluding => True
  | _ => False

/-- The thread has made a lock object that is not in `_locks` yet. -/
def Takes : PartitionStage → Prop
  | .acquiring | .retaking | .appending | .testing .timedOut | .judging .timedOut => True
  | _ => False

/-- `lock.acquire` has raised `LockTimeout`. -/
def Retries : PartitionStage → Prop
  | .retaking | .testing .timedOut | .judging .timedOut => True
  | _ => False

/-- In `_release_locks`, it has called `lock.release` and has not gone on. -/
def Frees : PartitionStage → Prop
  | .freeing _ | .freed _ => True
  | _ => False

instance (stage : PartitionStage) : Decidable stage.Allocates := by
  cases stage <;> unfold Allocates <;> infer_instance

variable {stage : PartitionStage}

theorem Allocates.remembers (h : stage.Allocates) : stage.Remembers := by
  cases stage <;> trivial

theorem Takes.allocates (h : stage.Takes) : stage.Allocates := by
  cases stage <;> trivial

theorem Retries.takes (h : stage.Retries) : stage.Takes := by
  cases stage with
  | retaking => trivial
  | testing site | judging site => cases site <;> trivial
  | _ => exact h.elim

end PartitionStage

namespace Partitions

variable {π θ κ ι : Type} {P : Partitioners π θ κ ι} {s s' : Partitions P}

/-- The allocation thread has the state id that counts. -/
def Current (s : Partitions P) (i : θ) : Prop :=
  (s.threads i).stage.Allocates ∧ (s.threads i).stateId = (s.object i).stateId

/-- What goes wrong in none of the steps: `acquire` does not return `False`, and is not shown its node
in front when that is gone; `_release_locks` does not begin, with locks to release, in ACQUIRED or
while another allocation thread with the present state id has put locks into `_locks`; no node is
deleted behind the back of a lock object that has it and has not been released. -/
def Orderly (s : Partitions P) : PartitionAct P → Prop
  | .lock _ name act => (s.worlds name).Orderly act
  | .go i =>
    match (s.threads i).stage with
    | .releasing _ => (s.object i).locks ≠ [] → (s.object i).state ≠ .acquired ∧
        ∀ j, j ≠ i → P.owner j = P.owner i → s.Current j → (s.threads j).position = 0
    | _ => True
  | .server name (.vanish node) => ∀ l, s.released name l = false →
      ¬ ((s.worlds name).locks l).InUse node
  | _ => True

instance (s : Partitions P) (i : θ) : Decidable (s.Current i) :=
  inferInstanceAs (Decidable (_ ∧ _))

instance [Fintype θ] [DecidableEq θ] [DecidableEq π] [Fintype ι] (s : Partitions P)
    (a : PartitionAct P) : Decidable (s.Orderly a) := by
  unfold Orderly
  repeat' split
  all_goals infer_instance

/-- A lock in `_locks` for the item, which nobody takes away. -/
def Backed (s : Partitions P) (p : π) (x : κ) : Prop :=
  ∃ l, (P.text x, l) ∈ (s.objects p).locks ∧ s.released (P.text x) l = false ∧
    (∀ j, (P.text x, l) ∉ (s.threads j).remaining) ∧
      ((s.worlds (P.text x)).locks l).isAcquired = true

/-- What a thread that works for `p` may rely on. -/
structure ThreadOk (s : Partitions P) (p : π) (t : PartitionThread κ ι) : Prop where
  stateId : t.stage.Remembers → t.stateId ≤ (s.objects p).stateId
  state : t.stage.Remembers → t.stateId = (s.objects p).stateId →
    (s.objects p).state = .allocating
  backed : t.stage.Allocates → t.stateId = (s.objects p).stateId →
    ∀ x ∈ t.partitionSet.take t.position, s.Backed p x
  takes : t.stage.Takes → ∀ name l, t.lock = some (name, l) →
    s.made name l = true ∧ P.maker name l = p ∧ s.released name l = false ∧
      ∃ x, t.partitionSet[t.position]? = some x ∧ P.text x = name
  throws : t.stage = .acquiring → ∀ name l, t.lock = some (name, l) →
    ((s.worlds name).locks l).Throws t.thrown
  retries : t.stage.Retries → ∀ name l, t.lock = some (name, l) →
    ((s.worlds name).locks l).isAcquired = false
  appending : t.stage = .appending → ∀ name l, t.lock = some (name, l) →
    ((s.worlds name).locks l).isAcquired = true
  concluding : t.stage = .concluding → t.partitionSet.length ≤ t.position
  remaining : ∀ lock ∈ t.remaining, s.made lock.1 lock.2 = true
  frees : t.stage.Frees → ∀ lock, t.remaining.head? = some lock →
    s.released lock.1 lock.2 = true

variable [DecidableEq ι]

structure Inv (s : Partitions P) : Prop where
  world : ∀ name, (contention (P.locks name)).Reachable (s.worlds name)
  present : ∀ name l, s.released name l = false → ∀ node, ((s.worlds name).locks l).InUse node →
    (s.worlds name).Present l node
  unmarked : ∀ name l, s.released name l = false → ((s.worlds name).locks l).stage ≠ .absent →
    ((s.worlds name).locks l).isAcquired = false
  fresh : ∀ name l, s.made name l = false →
    (s.worlds name).locks l = .new ∧ s.released name l = false
  threads : ∀ i, s.ThreadOk (P.owner i) (s.threads i)
  locks : ∀ p lock, lock ∈ (s.objects p).locks →
    s.made lock.1 lock.2 = true ∧ P.maker lock.1 lock.2 = p
  apart : ∀ i lock, (s.threads i).stage.Takes → (s.threads i).lock = some lock →
    (∀ p, lock ∉ (s.objects p).locks) ∧ ∀ j, lock ∉ (s.threads j).remaining
  alone : ∀ i j lock, (s.threads i).stage.Takes → (s.threads j).stage.Takes →
    (s.threads i).lock = some lock → (s.threads j).lock = some lock → i = j
  acquired : ∀ p, (s.objects p).state = .acquired → ∀ x ∈ (s.objects p).partitionSet, s.Backed p x

omit [DecidableEq ι] in
/-- Outside `_allocate_transition` a thread relies on nothing. -/
theorem threadOk_aside {p : π} {t : PartitionThread κ ι} (hstage : ¬ t.stage.Remembers)
    (hremaining : ∀ lock ∈ t.remaining, s.made lock.1 lock.2 = true)
    (hfrees : t.stage.Frees → ∀ lock, t.remaining.head? = some lock →
      s.released lock.1 lock.2 = true) : s.ThreadOk p t where
  stateId := fun h => absurd h hstage
  state := fun h => absurd h hstage
  backed := fun h => absurd h.remembers hstage
  takes := fun h => absurd h.allocates.remembers hstage
  throws := fun h => absurd (h ▸ trivial) hstage
  retries := fun h => absurd h.takes.allocates.remembers hstage
  appending := fun h => absurd (h ▸ trivial) hstage
  concluding := fun h => absurd (h ▸ trivial) hstage
  remaining := hremaining
  frees := hfrees

theorem inv_new : (new : Partitions P).Inv where
  world := fun _ => .init
  present := by
    rintro name l - node (h | ⟨h, -⟩) <;> cases h
  unmarked := fun _ _ _ _ => rfl
  fresh := fun _ _ _ => ⟨rfl, rfl⟩
  threads := fun _ => threadOk_aside id nofun fun h => h.elim
  locks := nofun
  apart := nofun
  alone := nofun
  acquired := nofun

/-! ## What a step leaves as it is -/

/-- Nothing is taken away from a partitioner that has not been released. -/
structure Calm (s s' : Partitions P) : Prop where
  made : ∀ name l, s.made name l = true → s'.made name l = true
  released : ∀ name l, s.released name l = true → s'.released name l = true
  locks : ∀ p lock, lock ∈ (s.objects p).locks → s.released lock.1 lock.2 = false →
    lock ∈ (s'.objects p).locks
  remaining : ∀ j, (s'.threads j).remaining ⊆ (s.threads j).remaining
  kept : ∀ name l, s.released name l = false → (∀ j, (name, l) ∉ (s.threads j).remaining) →
    s'.released name l = false ∧
      (((s.worlds name).locks l).isAcquired = true → ((s'.worlds name).locks l).isAcquired = true)

omit [DecidableEq ι] in
theorem Backed.calm {p : π} {x : κ} (h : s.Backed p x) (hcalm : Calm s s') : s'.Backed p x := by
  obtain ⟨l, hlock, hreleased, hremaining, hacquired⟩ := h
  obtain ⟨hreleased', hacquired'⟩ := hcalm.kept _ l hreleased hremaining
  exact ⟨l, hcalm.locks p _ hlock hreleased, hreleased', fun j hmem =>
    hremaining j (hcalm.remaining j hmem), hacquired' hacquired⟩

/-- A thread that does nothing while the others do. -/
theorem Inv.bystander (h : s.Inv) (hcalm : Calm s s') {j : θ} (hthread : s'.threads j = s.threads j)
    (hobject : (s'.objects (P.owner j)).stateId = (s.objects (P.owner j)).stateId ∧
        (s'.objects (P.owner j)).state = (s.objects (P.owner j)).state ∨
      (s.objects (P.owner j)).stateId < (s'.objects (P.owner j)).stateId)
    (hlock : (s.threads j).stage.Takes → ∀ name l, (s.threads j).lock = some (name, l) →
      (s'.worlds name).locks l = (s.worlds name).locks l) :
    s'.ThreadOk (P.owner j) (s'.threads j) := by
  obtain ⟨stateId, state, backed, takes, throws, retries, appending, concluding, remaining, frees⟩ :=
    h.threads j
  rw [hthread]
  -- a thread with an old state id keeps it
  have hcurrent : (s.threads j).stage.Remembers →
      (s.threads j).stateId = (s'.objects (P.owner j)).stateId →
        (s.threads j).stateId = (s.objects (P.owner j)).stateId ∧
          (s'.objects (P.owner j)).state = (s.objects (P.owner j)).state := by
    intro hstage heq
    have hle := stateId hstage
    rcases hobject with ⟨hid, hstate⟩ | hlt
    · exact ⟨heq.trans hid, hstate⟩
    · omega
  constructor
  · intro hstage
    have hle := stateId hstage
    rcases hobject with ⟨hid, -⟩ | hlt <;> omega
  · intro hstage heq
    obtain ⟨hold, hstate⟩ := hcurrent hstage heq
    exact hstate.trans (state hstage hold)
  · intro hstage heq x hx
    exact (backed hstage (hcurrent hstage.remembers heq).1 x hx).calm hcalm
  · intro hstage name l hname
    obtain ⟨hmade, hmaker, hreleased, hx⟩ := takes hstage name l hname
    have hapart := (h.apart j _ hstage hname).2
    exact ⟨hcalm.made name l hmade, hmaker, (hcalm.kept name l hreleased hapart).1, hx⟩
  · intro hstage name l hname
    rw [hlock (hstage ▸ trivial) name l hname]
    exact throws hstage name l hname
  · intro hstage name l hname
    rw [hlock hstage.takes name l hname]
    exact retries hstage name l hname
  · intro hstage name l hname
    rw [hlock (hstage ▸ trivial) name l hname]
    exact appending hstage name l hname
  · exact concluding
  · exact fun lock hmem => hcalm.made _ _ (remaining lock hmem)
  · exact fun hstage lock hhead => hcalm.released _ _ (frees hstage lock hhead)

variable [DecidableEq π] [DecidableEq θ] {i : θ}

omit [DecidableEq ι] [DecidableEq π] in
@[simp] theorem setThread_threads_self (s : Partitions P) (t : PartitionThread κ ι) :
    (s.setThread i t).threads i = t := Function.update_self ..

omit [DecidableEq ι] [DecidableEq π] in
theorem setThread_threads_of_ne {j : θ} (hne : j ≠ i) (s : Partitions P) (t : PartitionThread κ ι) :
    (s.setThread i t).threads j = s.threads j := Function.update_of_ne hne ..

omit [DecidableEq ι] [DecidableEq θ] in
@[simp] theorem setObject_objects_self (s : Partitions P) (p : π) (o : PartitionerObject κ ι) :
    (s.setObject p o).objects p = o := Function.update_self ..

omit [DecidableEq ι] [DecidableEq θ] in
theorem setObject_objects_of_ne {p q : π} (hne : q ≠ p) (s : Partitions P)
    (o : PartitionerObject κ ι) : (s.setObject p o).objects q = s.objects q :=
  Function.update_of_ne hne ..

/-- Thread `i` goes on, and sets fields of its partitioner. -/
abbrev moved (s : Partitions P) (i : θ) (o : PartitionerObject κ ι) (t : PartitionThread κ ι) :
    Partitions P := (s.setObject (P.owner i) o).setThread i t

omit [DecidableEq ι] in
theorem moved_object (s : Partitions P) (i : θ) (o : PartitionerObject κ ι)
    (t : PartitionThread κ ι) (p : π) :
    (s.moved i o t).objects p = if p = P.owner i then o else s.objects p :=
  Function.update_apply ..

omit [DecidableEq ι] in
theorem moved_thread (s : Partitions P) (i : θ) (o : PartitionerObject κ ι)
    (t : PartitionThread κ ι) (j : θ) :
    (s.moved i o t).threads j = if j = i then t else s.threads j :=
  Function.update_apply ..

variable {o : PartitionerObject κ ι} {t : PartitionThread κ ι}

omit [DecidableEq ι] in
theorem calm_moved
    (hkeep : ∀ lock ∈ (s.object i).locks, s.released lock.1 lock.2 = false → lock ∈ o.locks)
    (hremaining : t.remaining ⊆ (s.threads i).remaining) : Calm s (s.moved i o t) where
  made := fun _ _ h => h
  released := fun _ _ h => h
  locks := fun p lock hmem hreleased => by
    rw [moved_object]
    split
    · next heq =>
      subst heq
      exact hkeep lock hmem hreleased
    · exact hmem
  remaining := fun j => by
    rw [moved_thread]
    split
    · next heq =>
      subst heq
      exact hremaining
    · exact List.Subset.refl _
  kept := fun _ _ h _ => ⟨h, id⟩

theorem Inv.moved (h : s.Inv)
    (hkeep : ∀ lock ∈ (s.object i).locks, s.released lock.1 lock.2 = false → lock ∈ o.locks)
    (hlocks : ∀ lock ∈ o.locks, lock ∈ (s.object i).locks ∨
      (s.threads i).stage.Takes ∧ (s.threads i).lock = some lock ∧ ¬ t.stage.Takes)
    (hremaining : t.remaining ⊆ (s.threads i).remaining)
    (hobject : o.stateId = (s.object i).stateId ∧ o.state = (s.object i).state ∨
      (s.object i).stateId < o.stateId)
    (htakes : t.stage.Takes → (s.threads i).stage.Takes ∧ t.lock = (s.threads i).lock)
    (hthread : (s.moved i o t).ThreadOk (P.owner i) t)
    (hacquired : o.state = .acquired → ∀ x ∈ o.partitionSet, (s.moved i o t).Backed (P.owner i) x) :
    (s.moved i o t).Inv := by
  have hcalm := calm_moved hkeep hremaining
  have htaking : ∀ j, ((s.moved i o t).threads j).stage.Takes →
      (s.threads j).stage.Takes ∧ ((s.moved i o t).threads j).lock = (s.threads j).lock := by
    intro j
    rw [moved_thread]
    split
    · next heq =>
      subst heq
      exact htakes
    · exact fun hstage => ⟨hstage, rfl⟩
  refine ⟨h.world, h.present, h.unmarked, h.fresh, fun j => ?_, fun p lock => ?_,
    fun j lock hstage hlock => ?_, fun j j' lock hstage hstage' hlock hlock' => ?_, fun p => ?_⟩
  · by_cases hj : j = i
    · subst hj
      rw [moved_thread, if_pos rfl]
      exact hthread
    · apply h.bystander hcalm
      · rw [moved_thread, if_neg hj]
      · rw [moved_object]
        split
        · next heq =>
          rw [heq]
          exact hobject
        · exact .inl ⟨rfl, rfl⟩
      · exact fun _ _ _ _ => rfl
  · rw [moved_object]
    split
    · next heq =>
      subst heq
      intro hmem
      rcases hlocks lock hmem with hold | ⟨hstage, hlock, -⟩
      · exact h.locks _ lock hold
      · obtain ⟨hmade, hmaker, -⟩ := (h.threads i).takes hstage lock.1 lock.2 hlock
        exact ⟨hmade, hmaker⟩
    · exact h.locks p lock
  · obtain ⟨hold, hsame⟩ := htaking j hstage
    obtain ⟨hapart, hremains⟩ := h.apart j lock hold (hsame.symm.trans hlock)
    refine ⟨fun p => ?_, fun j' hmem => hremains j' (hcalm.remaining j' hmem)⟩
    rw [moved_object]
    split
    · intro hmem
      rcases hlocks lock hmem with hmem | ⟨hstage', hlock', hnot⟩
      · exact hapart _ hmem
      · obtain rfl := h.alone i j lock hstage' hold hlock' (hsame.symm.trans hlock)
        rw [moved_thread, if_pos rfl] at hstage
        exact hnot hstage
    · exact hapart p
  · obtain ⟨hold, hsame⟩ := htaking j hstage
    obtain ⟨hold', hsame'⟩ := htaking j' hstage'
    exact h.alone j j' lock hold hold' (hsame.symm.trans hlock) (hsame'.symm.trans hlock')
  · rw [moved_object]
    split
    · next heq =>
      subst heq
      exact hacquired
    · exact fun hstate x hx => (h.acquired p hstate x hx).calm hcalm

omit [DecidableEq ι] in
theorem moved_self (s : Partitions P) (i : θ) (t : PartitionThread κ ι) :
    s.moved i (s.object i) t = s.setThread i t := by
  unfold Partitions.moved setObject object
  rw [Function.update_eq_self]

/-- Thread `i` does something outside `_allocate_transition`. -/
theorem Inv.aside (h : s.Inv)
    (hkeep : ∀ lock ∈ (s.object i).locks, s.released lock.1 lock.2 = false → lock ∈ o.locks)
    (hlocks : o.locks ⊆ (s.object i).locks) (hremaining : t.remaining ⊆ (s.threads i).remaining)
    (hobject : o.stateId = (s.object i).stateId ∧ o.state = (s.object i).state ∨
      (s.object i).stateId < o.stateId)
    (hstate : o.state = .acquired →
      (s.object i).state = .acquired ∧ o.partitionSet = (s.object i).partitionSet)
    (hstage : ¬ t.stage.Remembers) (hfrees : ¬ t.stage.Frees) : (s.moved i o t).Inv := by
  apply h.moved hkeep (fun lock hmem => .inl (hlocks hmem)) hremaining hobject
  · exact fun htakes => absurd htakes.allocates.remembers hstage
  · apply threadOk_aside hstage
    · exact fun lock hmem => (h.threads i).remaining lock (hremaining hmem)
    · exact fun h => absurd h hfrees
  · intro hacquired x hx
    obtain ⟨hold, heq⟩ := hstate hacquired
    exact (h.acquired _ hold x (heq ▸ hx)).calm (calm_moved hkeep hremaining)

theorem Inv.setThread (h : s.Inv) (hremaining : t.remaining ⊆ (s.threads i).remaining)
    (htakes : t.stage.Takes → (s.threads i).stage.Takes ∧ t.lock = (s.threads i).lock)
    (hthread : (s.setThread i t).ThreadOk (P.owner i) t) : (s.setThread i t).Inv := by
  rw [← moved_self] at hthread ⊢
  apply h.moved (fun _ hmem _ => hmem) (fun _ hmem => .inl hmem) hremaining (.inl ⟨rfl, rfl⟩) htakes
    hthread
  intro hacquired x hx
  exact (h.acquired _ hacquired x hx).calm (calm_moved (fun _ hmem _ => hmem) hremaining)

/-- Thread `i` goes on, with the variables that it has. -/
theorem Inv.setStage (h : s.Inv) {stage : PartitionStage}
    (hremembers : stage.Remembers → (s.threads i).stage.Allocates)
    (htakes : stage.Takes → (s.threads i).stage.Takes)
    (hretries : stage.Retries → ∀ name l, (s.threads i).lock = some (name, l) →
      ((s.worlds name).locks l).isAcquired = false)
    (happending : stage = .appending → ∀ name l, (s.threads i).lock = some (name, l) →
      ((s.worlds name).locks l).isAcquired = true)
    (hconcluding : stage = .concluding →
      (s.threads i).partitionSet.length ≤ (s.threads i).position)
    (hacquiring : stage ≠ .acquiring) (hfrees : ¬ stage.Frees) : (s.setStage i stage).Inv := by
  have hthread := h.threads i
  exact h.setThread (t := { s.threads i with stage := stage }) (List.Subset.refl _)
    (fun hstage => ⟨htakes hstage, rfl⟩) {
    stateId := fun hstage => hthread.stateId (hremembers hstage).remembers
    state := fun hstage => hthread.state (hremembers hstage).remembers
    backed := fun hstage hid x hx => by
      have hbacked := hthread.backed (hremembers hstage.remembers) hid x hx
      rw [← moved_self]
      exact hbacked.calm (calm_moved (fun _ hmem _ => hmem) (List.Subset.refl _))
    takes := fun hstage => hthread.takes (htakes hstage)
    throws := fun hstage => absurd hstage hacquiring
    retries := hretries
    appending := happending
    concluding := hconcluding
    remaining := hthread.remaining
    frees := fun hstage => absurd hstage hfrees }

omit [DecidableEq π] [DecidableEq θ] in
/-- Only the server and the lock objects have changed. -/
theorem Inv.server (h : s.Inv) (hcalm : Calm s s') (hobjects : s'.objects = s.objects)
    (hthreads : s'.threads = s.threads)
    (hlock : ∀ j, (s.threads j).stage.Takes → ∀ name l, (s.threads j).lock = some (name, l) →
      (s'.worlds name).locks l = (s.worlds name).locks l)
    (hworld : ∀ name, (contention (P.locks name)).Reachable (s'.worlds name))
    (hpresent : ∀ name l, s'.released name l = false → ∀ node,
      ((s'.worlds name).locks l).InUse node → (s'.worlds name).Present l node)
    (hunmarked : ∀ name l, s'.released name l = false →
      ((s'.worlds name).locks l).stage ≠ .absent → ((s'.worlds name).locks l).isAcquired = false)
    (hfresh : ∀ name l, s'.made name l = false →
      (s'.worlds name).locks l = .new ∧ s'.released name l = false) : s'.Inv := by
  refine ⟨hworld, hpresent, hunmarked, hfresh, fun j => ?_, fun p lock hmem => ?_, ?_, ?_,
    fun p hstate x hx => ?_⟩
  · apply h.bystander hcalm (by rw [hthreads]) (.inl ?_) (hlock j)
    rw [hobjects]
    exact ⟨rfl, rfl⟩
  · rw [hobjects] at hmem
    obtain ⟨hmade, hmaker⟩ := h.locks p lock hmem
    exact ⟨hcalm.made _ _ hmade, hmaker⟩
  · rw [hobjects, hthreads]
    exact h.apart
  · rw [hthreads]
    exact h.alone
  · rw [hobjects] at hstate hx
    exact (h.acquired p hstate x hx).calm hcalm

omit [DecidableEq π] [DecidableEq θ] in
theorem Inv.setMade (h : s.Inv) (name : PyStr) (l : ι) : (s.setMade name l).Inv := by
  have hmade : ∀ name' l', s.made name' l' = true → (s.setMade name l).made name' l' = true := by
    intro name' l' hold
    show Function.update s.made name _ name' l' = true
    by_cases hname : name' = name
    · subst hname
      rw [Function.update_self, Function.update_apply]
      split
      · rfl
      · exact hold
    · rwa [Function.update_of_ne hname]
  have hcalm : Calm s (s.setMade name l) :=
    ⟨hmade, fun _ _ h => h, fun _ _ h _ => h, fun _ => List.Subset.refl _, fun _ _ h _ => ⟨h, id⟩⟩
  apply h.server hcalm rfl rfl (fun _ _ _ _ _ => rfl) h.world h.present h.unmarked
  intro name' l' hnot
  apply h.fresh
  by_contra hold
  rw [hmade name' l' (by simpa using hold)] at hnot
  cases hnot

omit [DecidableEq π] [DecidableEq θ] in
theorem setReleased_released (s : Partitions P) (name name' : PyStr) (l l' : ι) :
    (s.setReleased name l).released name' l' =
      if name' = name ∧ l' = l then true else s.released name' l' := by
  show Function.update s.released name _ name' l' = _
  by_cases hname : name' = name
  · subst hname
    rw [Function.update_self, Function.update_apply]
    simp only [true_and]
  · rw [Function.update_of_ne hname, if_neg (fun h => hname h.1)]

omit [DecidableEq π] [DecidableEq θ] in
theorem Inv.setReleased (h : s.Inv) {name : PyStr} {l : ι}
    (hremaining : (name, l) ∈ (s.threads i).remaining) : (s.setReleased name l).Inv := by
  have hold : ∀ name' l', (s.setReleased name l).released name' l' = false →
      s.released name' l' = false := by
    intro name' l' hnot
    rw [setReleased_released] at hnot
    split at hnot
    · cases hnot
    · exact hnot
  have hcalm : Calm s (s.setReleased name l) := by
    refine ⟨fun _ _ h => h, fun name' l' hreleased => ?_, fun _ _ h _ => h,
      fun _ => List.Subset.refl _, fun name' l' hreleased hapart => ⟨?_, id⟩⟩
    · rw [setReleased_released]
      split
      · rfl
      · exact hreleased
    · rw [setReleased_released, if_neg]
      · exact hreleased
      · rintro ⟨rfl, rfl⟩
        exact hapart i hremaining
  apply h.server hcalm rfl rfl (fun _ _ _ _ _ => rfl) h.world
    (fun name' l' hnot => h.present name' l' (hold name' l' hnot))
    (fun name' l' hnot => h.unmarked name' l' (hold name' l' hnot))
  intro name' l' hnot
  obtain ⟨hnew, hreleased⟩ := h.fresh name' l' hnot
  refine ⟨hnew, ?_⟩
  rw [setReleased_released, if_neg]
  · exact hreleased
  · rintro ⟨rfl, rfl⟩
    have hmade := (h.threads i).remaining _ hremaining
    exact Bool.false_ne_true (hnot.symm.trans hmade)

/-! ## Steps on a lock path -/

variable {name : PyStr} {l : ι} {w : World (P.locks name)} {act : LockAct (P.locks name)}

omit [DecidableEq ι] [DecidableEq π] [DecidableEq θ] in
/-- What holds of the path that changes, and of the others, holds of all. -/
theorem forall_setWorld {Q : ∀ name, World (P.locks name) → Prop} (hw : Q name w)
    (h : ∀ name, Q name (s.worlds name)) (name' : PyStr) : Q name' ((s.setWorld name w).worlds name') := by
  show Q name' (Function.update s.worlds name w name')
  by_cases hname : name' = name
  · subst hname
    rwa [Function.update_self]
  · rw [Function.update_of_ne hname]
    exact h name'

omit [DecidableEq π] [DecidableEq θ] in
/-- A step that only released lock objects take, or nobody. -/
theorem Inv.setWorld (h : s.Inv) (hstep : (s.worlds name).step act = some w)
    (hactor : ∀ l, World.actor? act = some l → s.released name l = true)
    (hpresent : ∀ l, s.released name l = false → ∀ node, ((s.worlds name).locks l).InUse node →
      (s.worlds name).Present l node → w.Present l node) : (s.setWorld name w).Inv := by
  have hlocks : ∀ name' l', s.released name' l' = false →
      ((s.setWorld name w).worlds name').locks l' = (s.worlds name').locks l' := by
    intro name' l' hreleased
    show (Function.update s.worlds name w name').locks l' = _
    by_cases hname : name' = name
    · subst hname
      rw [Function.update_self]
      apply World.locks_of_step hstep
      intro heq
      rw [hactor l' heq] at hreleased
      cases hreleased
    · rw [Function.update_of_ne hname]
  have hcalm : Calm s (s.setWorld name w) :=
    ⟨fun _ _ h => h, fun _ _ h => h, fun _ _ h _ => h, fun _ => List.Subset.refl _,
      fun name' l' hreleased _ => ⟨hreleased, fun hacquired => by rwa [hlocks name' l' hreleased]⟩⟩
  apply h.server hcalm rfl rfl
  · intro j hstage name' l' hlock
    exact hlocks name' l' ((h.threads j).takes hstage name' l' hlock).2.2.1
  · exact forall_setWorld (Q := fun name w => (contention (P.locks name)).Reachable w)
      (World.reachable_step (h.world name) hstep) h.world
  · intro name' l' hreleased node hinUse
    rw [hlocks name' l' hreleased] at hinUse
    have hold := h.present name' l' hreleased node hinUse
    show (Function.update s.worlds name w name').Present l' node
    by_cases hname : name' = name
    · subst hname
      rw [Function.update_self]
      exact hpresent l' hreleased node hinUse hold
    · rwa [Function.update_of_ne hname]
  · intro name' l' hreleased
    rw [hlocks name' l' hreleased]
    exact h.unmarked name' l' hreleased
  · intro name' l' hnot
    obtain ⟨hnew, hreleased⟩ := h.fresh name' l' hnot
    exact ⟨(hlocks name' l' hreleased).trans hnew, hreleased⟩

theorem deletes_of_actor {ι : Type} {L : Locks ι} {act : LockAct L} {l l' : ι}
    (hactor : World.actor? act = some l) (hdel : World.Deletes l' act) : l' = l := by
  cases act <;> cases hactor
  case clean => exact hdel.symm
  case delete => exact hdel.symm
  all_goals exact hdel.elim

omit [DecidableEq π] in
/-- Thread `i` takes a step inside `acquire`, or enters it, with a lock object that nobody else knows. -/
theorem Inv.acquire (h : s.Inv) (hstep : (s.worlds name).step act = some w)
    (hactor : World.actor? act = some l) (hallocates : (s.threads i).stage.Allocates)
    (hmine : s.made name l = true ∧ P.maker name l = P.owner i ∧ s.released name l = false ∧
      ∃ x, (s.threads i).partitionSet[(s.threads i).position]? = some x ∧ P.text x = name)
    (hlocks : ∀ p, (name, l) ∉ (s.objects p).locks)
    (hremaining : ∀ j, (name, l) ∉ (s.threads j).remaining)
    (halone : ∀ j, (s.threads j).stage.Takes → (s.threads j).lock = some (name, l) → j = i)
    (hfree : ((s.worlds name).locks l).isAcquired = false)
    (hunmarked : (w.locks l).stage ≠ .absent → (w.locks l).isAcquired = false)
    (hpresent : ∀ node, (w.locks l).InUse node → w.Present l node)
    {thrown : Option Exn} (hthrows : (w.locks l).Throws thrown) :
    ((s.setWorld name w).setThread i
      { s.threads i with stage := .acquiring, lock := some (name, l), thrown := thrown }).Inv := by
  have hothers : ∀ name' l', (name', l') ≠ (name, l) →
      ((s.setWorld name w).worlds name').locks l' = (s.worlds name').locks l' := by
    intro name' l' hne
    show (Function.update s.worlds name w name').locks l' = _
    by_cases hname : name' = name
    · subst hname
      rw [Function.update_self]
      apply World.locks_of_step hstep
      rw [hactor]
      rintro ⟨⟩
      exact hne rfl
    · rw [Function.update_of_ne hname]
  have hself : (s.setWorld name w).worlds name = w := Function.update_self ..
  let t : PartitionThread κ ι :=
    { s.threads i with stage := .acquiring, lock := some (name, l), thrown := thrown }
  let s' := (s.setWorld name w).setThread i t
  have hthreads : ∀ j, j ≠ i → s'.threads j = s.threads j := fun j hj =>
    setThread_threads_of_ne hj _ _
  have hcalm : Calm s s' := by
    refine ⟨fun _ _ h => h, fun _ _ h => h, fun _ _ h _ => h, fun j => ?_,
      fun name' l' hreleased _ => ⟨hreleased, fun hacquired => ?_⟩⟩
    · by_cases hj : j = i
      · subst hj
        rw [setThread_threads_self]
        exact List.Subset.refl _
      · rw [hthreads j hj]
        exact List.Subset.refl _
    · by_cases heq : (name', l') = (name, l)
      · cases heq
        rw [hfree] at hacquired
        cases hacquired
      · exact (congrArg LockObject.isAcquired (hothers name' l' heq)).trans hacquired
  have htaking : ∀ j lock, (s'.threads j).stage.Takes → (s'.threads j).lock = some lock →
      j = i ∧ lock = (name, l) ∨ j ≠ i ∧ lock ≠ (name, l) ∧ (s.threads j).stage.Takes ∧
        (s.threads j).lock = some lock := by
    intro j lock hstage hlock
    by_cases hj : j = i
    · subst hj
      rw [setThread_threads_self] at hlock
      exact .inl ⟨rfl, (Option.some.inj hlock).symm⟩
    · rw [hthreads j hj] at hstage hlock
      exact .inr ⟨hj, fun heq => hj (halone j hstage (heq ▸ hlock)), hstage, hlock⟩
  have hthread := h.threads i
  obtain ⟨hmade, hmaker, hreleased, hx⟩ := hmine
  refine ⟨?_, fun name' l' hreleased' => ?_, fun name' l' hreleased' => ?_, fun name' l' hnot => ?_,
    fun j => ?_, h.locks, fun j lock hstage hlock => ?_, fun j j' lock hstage hstage' hlock hlock' => ?_,
    fun p hstate x hx => (h.acquired p hstate x hx).calm hcalm⟩
  · exact forall_setWorld (Q := fun name w => (contention (P.locks name)).Reachable w)
      (World.reachable_step (h.world name) hstep) h.world
  · intro node hinUse
    by_cases heq : (name', l') = (name, l)
    · cases heq
      change (((s.setWorld name w).worlds name).locks l).InUse node at hinUse
      show ((s.setWorld name w).worlds name).Present l node
      rw [hself] at hinUse ⊢
      exact hpresent node hinUse
    · change (((s.setWorld name w).worlds name').locks l').InUse node at hinUse
      rw [hothers name' l' heq] at hinUse
      have hold := h.present name' l' hreleased' node hinUse
      show (Function.update s.worlds name w name').Present l' node
      by_cases hname : name' = name
      · subst hname
        rw [Function.update_self]
        apply hold.step (World.mine_of_reachable (h.world name')) hstep
        intro hdel
        obtain rfl := deletes_of_actor hactor hdel
        exact heq rfl
      · rwa [Function.update_of_ne hname]
  · intro hstage
    change (((s.setWorld name w).worlds name').locks l').stage ≠ .absent at hstage
    show (((s.setWorld name w).worlds name').locks l').isAcquired = false
    by_cases heq : (name', l') = (name, l)
    · cases heq
      rw [hself] at hstage ⊢
      exact hunmarked hstage
    · rw [hothers name' l' heq] at hstage ⊢
      exact h.unmarked name' l' hreleased' hstage
  · obtain ⟨hnew, hreleased'⟩ := h.fresh name' l' hnot
    refine ⟨(hothers name' l' ?_).trans hnew, hreleased'⟩
    intro heq
    cases heq
    exact Bool.false_ne_true (hnot.symm.trans hmade)
  · by_cases hj : j = i
    · subst hj
      rw [setThread_threads_self]
      exact {
        stateId := fun _ => hthread.stateId hallocates.remembers
        state := fun _ => hthread.state hallocates.remembers
        backed := fun _ hid x hx => (hthread.backed hallocates hid x hx).calm hcalm
        takes := fun _ name' l' heq => by cases heq; exact ⟨hmade, hmaker, hreleased, hx⟩
        throws := fun _ name' l' heq => by
          cases heq
          show (((s.setWorld name w).worlds name).locks l).Throws thrown
          rw [hself]
          exact hthrows
        retries := fun hstage => hstage.elim
        appending := nofun
        concluding := nofun
        remaining := hthread.remaining
        frees := fun hfrees => hfrees.elim }
    · apply h.bystander hcalm (hthreads j hj) (.inl ⟨rfl, rfl⟩)
      intro hstage name' l' hlock
      exact hothers name' l' fun heq => hj (halone j hstage (heq ▸ hlock))
  · have hremains : ∀ j', (s'.threads j').remaining ⊆ (s.threads j').remaining := hcalm.remaining
    rcases htaking j lock hstage hlock with ⟨-, rfl⟩ | ⟨-, -, hold, hlock⟩
    · exact ⟨hlocks, fun j' hmem => hremaining j' (hremains j' hmem)⟩
    · obtain ⟨hapart, hrest⟩ := h.apart j lock hold hlock
      exact ⟨hapart, fun j' hmem => hrest j' (hremains j' hmem)⟩
  · rcases htaking j lock hstage hlock with ⟨rfl, rfl⟩ | ⟨-, hne, hold, hlock⟩ <;>
      rcases htaking j' _ hstage' hlock' with ⟨rfl, heq⟩ | ⟨-, hne', hold', hlock'⟩
    · rfl
    · exact absurd rfl hne'
    · exact absurd heq hne
    · exact h.alone j j' lock hold hold' hlock hlock'

omit [DecidableEq π] in
theorem Inv.enter (h : s.Inv) (hallocates : (s.threads i).stage.Allocates)
    (hmine : s.made name l = true ∧ P.maker name l = P.owner i ∧ s.released name l = false ∧
      ∃ x, (s.threads i).partitionSet[(s.threads i).position]? = some x ∧ P.text x = name)
    (hlocks : ∀ p, (name, l) ∉ (s.objects p).locks)
    (hremaining : ∀ j, (name, l) ∉ (s.threads j).remaining)
    (halone : ∀ j, (s.threads j).stage.Takes → (s.threads j).lock = some (name, l) → j = i)
    (hfree : ((s.worlds name).locks l).isAcquired = false)
    (hw : (s.worlds name).step (.thread l (.enter true true true)) = some w) :
    (s.entered i name l w).Inv := by
  have hentered : w.locks l = { (s.worlds name).locks l with
      call := ⟨true, true, true, false⟩, stage := .entered } := by
    cases World.steps_of_step hw with
    | thread _ ho =>
      cases LockObject.steps_of_step ho
      exact Function.update_self ..
  apply h.acquire hw rfl hallocates hmine hlocks hremaining halone hfree
  · intro _
    rw [hentered]
    exact hfree
  · rw [hentered]
    rintro node (hgotten | ⟨hacquired, -⟩)
    · cases hgotten
    · exact absurd (hfree.symm.trans hacquired) Bool.false_ne_true
  · rw [hentered]
    exact ⟨rfl, fun hends => hends.elim⟩

/-- Thread `i` leaves `_allocate_transition`, or is not in it. -/
theorem Inv.leave (h : s.Inv) {stage : PartitionStage} (hstage : ¬ stage.Remembers)
    (hfrees : ¬ stage.Frees) : (s.setStage i stage).Inv :=
  h.setStage (fun hremembers => absurd hremembers hstage)
    (fun htakes => absurd htakes.allocates.remembers hstage)
    (fun hretries => absurd hretries.takes.allocates.remembers hstage)
    (fun heq => absurd (heq ▸ trivial) hstage) (fun heq => absurd (heq ▸ trivial) hstage)
    (fun heq => absurd (heq ▸ trivial) hstage) hfrees

/-- `_release_locks` makes its copy of `_locks`. -/
theorem Inv.snapshot (h : s.Inv) {caller : ReleaseCaller} (hstate : (s.object i).state ≠ .acquired)
    (hothers : ∀ j, j ≠ i → P.owner j = P.owner i → s.Current j → (s.threads j).position = 0) :
    (s.setThread i { s.threads i with
      stage := .iterating caller, remaining := (s.object i).locks }).Inv := by
  let s' := s.setThread i { s.threads i with
    stage := .iterating caller, remaining := (s.object i).locks }
  have hself : s'.threads i = { s.threads i with
      stage := .iterating caller, remaining := (s.object i).locks } := setThread_threads_self ..
  have hthreads : ∀ j, j ≠ i → s'.threads j = s.threads j := fun j hj =>
    setThread_threads_of_ne hj _ _
  -- the other partitioners keep what they have
  have hbacked : ∀ p x, p ≠ P.owner i → s.Backed p x → s'.Backed p x := by
    rintro p x hp ⟨l, hlock, hreleased, hremaining, hacquired⟩
    refine ⟨l, hlock, hreleased, fun j => ?_, hacquired⟩
    by_cases hj : j = i
    · subst hj
      rw [hself]
      intro hmem
      exact hp ((h.locks p _ hlock).2.symm.trans (h.locks _ _ hmem).2)
    · rw [hthreads j hj]
      exact hremaining j
  have htaking : ∀ j, (s'.threads j).stage.Takes → j ≠ i := by
    rintro j hstage rfl
    rw [hself] at hstage
    exact hstage
  refine ⟨h.world, h.present, h.unmarked, h.fresh, fun j => ?_, h.locks, fun j lock hstage hlock => ?_,
    fun j j' lock hstage hstage' hlock hlock' => ?_, fun p hacquired x hx => ?_⟩
  · by_cases hj : j = i
    · subst hj
      rw [hself]
      exact threadOk_aside id (fun lock hmem => (h.locks _ lock hmem).1) fun h => h.elim
    · rw [hthreads j hj]
      have hthread := h.threads j
      refine { hthread with backed := fun hstage hid x hx => ?_ }
      by_cases hp : P.owner j = P.owner i
      · rw [hothers j hj hp ⟨hstage, hid⟩, List.take_zero] at hx
        cases hx
      · exact hbacked _ x hp (hthread.backed hstage hid x hx)
  · have hj := htaking j hstage
    rw [hthreads j hj] at hstage hlock
    obtain ⟨hapart, hremaining⟩ := h.apart j lock hstage hlock
    refine ⟨hapart, fun j' => ?_⟩
    by_cases hj' : j' = i
    · subst hj'
      rw [hself]
      exact hapart _
    · rw [hthreads j' hj']
      exact hremaining j'
  · have hj := htaking j hstage
    have hj' := htaking j' hstage'
    rw [hthreads j hj] at hstage hlock
    rw [hthreads j' hj'] at hstage' hlock'
    exact h.alone j j' lock hstage hstage' hlock hlock'
  · apply hbacked p x
    · rintro rfl
      exact hstate hacquired
    · exact h.acquired p hacquired x hx

/-- `self._locks.append(lock)`. -/
theorem Inv.append (h : s.Inv) {lock : PyStr × ι} (hstage : (s.threads i).stage = .appending)
    (hlock : (s.threads i).lock = some lock) :
    (s.moved i { s.object i with locks := (s.object i).locks ++ [lock] }
      { s.threads i with
        stage := .testing .appended, position := (s.threads i).position + 1, lock := none }).Inv := by
  have hthread := h.threads i
  have htakes : (s.threads i).stage.Takes := by
    rw [hstage]
    trivial
  have hkeep : ∀ lock' ∈ (s.object i).locks, s.released lock'.1 lock'.2 = false →
      lock' ∈ (s.object i).locks ++ [lock] := fun lock' hmem _ => List.mem_append_left _ hmem
  have hcalm := calm_moved (o := { s.object i with locks := (s.object i).locks ++ [lock] })
    (t := { s.threads i with
      stage := .testing .appended, position := (s.threads i).position + 1, lock := none })
    hkeep (List.Subset.refl _)
  apply h.moved hkeep
  · intro lock' hmem
    rcases List.mem_append.mp hmem with hmem | hmem
    · exact .inl hmem
    · rw [List.mem_singleton.mp hmem]
      exact .inr ⟨htakes, hlock, id⟩
  · exact List.Subset.refl _
  · exact .inl ⟨rfl, rfl⟩
  · exact fun htakes => htakes.elim
  · obtain ⟨-, -, hreleased, x, hx, hname⟩ := hthread.takes htakes _ _ hlock
    have hobject := moved_object s i { s.object i with locks := (s.object i).locks ++ [lock] }
      { s.threads i with
        stage := .testing .appended, position := (s.threads i).position + 1, lock := none }
      (P.owner i)
    rw [if_pos rfl] at hobject
    exact {
      stateId := fun _ => by
        rw [hobject]
        exact hthread.stateId htakes.allocates.remembers
      state := fun _ => by
        rw [hobject]
        exact hthread.state htakes.allocates.remembers
      backed := fun _ hid y hy => by
        rw [hobject] at hid
        change y ∈ (s.threads i).partitionSet.take ((s.threads i).position + 1) at hy
        rw [List.take_add_one, hx] at hy
        rcases List.mem_append.mp hy with hy | hy
        · exact (hthread.backed htakes.allocates hid y hy).calm hcalm
        · -- the lock that has just been put there
          rw [List.mem_singleton.mp hy]
          obtain ⟨name, l⟩ := lock
          subst hname
          refine ⟨l, ?_, hreleased, fun j hmem => (h.apart i _ htakes hlock).2 j (hcalm.remaining j hmem),
            hthread.appending hstage _ _ hlock⟩
          rw [hobject]
          exact List.mem_append_right _ (List.mem_singleton_self _)
      takes := fun htakes => htakes.elim
      throws := nofun
      retries := fun hretries => hretries.elim
      appending := nofun
      concluding := nofun
      remaining := hthread.remaining
      frees := fun hfrees => hfrees.elim }
  · intro hacquired x hx
    exact (h.acquired _ hacquired x hx).calm hcalm

/-- The state becomes ACQUIRED. -/
theorem Inv.conclude (h : s.Inv) (hstage : (s.threads i).stage = .concluding)
    (hid : (s.object i).stateId = (s.threads i).stateId) :
    (s.moved i { (s.object i).setState .acquired with partitionSet := (s.threads i).partitionSet }
      { s.threads i with stage := .done }).Inv := by
  have hkeep : ∀ lock ∈ (s.object i).locks, s.released lock.1 lock.2 = false →
      lock ∈ (s.object i).locks := fun lock hmem _ => hmem
  refine h.moved ?_ ?_ ?_ ?_ ?_ ?_ ?_
  · exact hkeep
  · exact fun lock hmem => .inl hmem
  · exact List.Subset.refl _
  · exact .inr (Nat.lt_succ_self _)
  · exact fun htakes => htakes.elim
  · exact threadOk_aside id (h.threads i).remaining fun hfrees => hfrees.elim
  intro _ x hx
  have hthread := h.threads i
  have hall : (s.threads i).partitionSet.take (s.threads i).position = (s.threads i).partitionSet :=
    List.take_of_length_le (hthread.concluding hstage)
  have hbacked : s.Backed (P.owner i) x := by
    apply hthread.backed
    · rw [hstage]
      trivial
    · exact hid.symm
    · rw [hall]
      exact hx
  exact hbacked.calm (calm_moved hkeep (List.Subset.refl _))

/-! ## Steps of the partitioners -/

omit [DecidableEq π] [DecidableEq θ] in
theorem Inv.setParty (h : s.Inv) (children : List PyStr) : (s.setParty children).Inv :=
  h.server ⟨fun _ _ h => h, fun _ _ h => h, fun _ _ h _ => h, fun _ => List.Subset.refl _,
    fun _ _ h _ => ⟨h, id⟩⟩ rfl rfl (fun _ _ _ _ _ => rfl) h.world h.present h.unmarked h.fresh

omit [DecidableEq θ] in
/-- Fields of a partitioner are set, and none of its locks is touched. -/
theorem Inv.setObject (h : s.Inv) {p : π} (hlocks : o.locks = (s.objects p).locks)
    (hobject : o.stateId = (s.objects p).stateId ∧ o.state = (s.objects p).state ∨
      (s.objects p).stateId < o.stateId)
    (hstate : o.state = .acquired →
      (s.objects p).state = .acquired ∧ o.partitionSet = (s.objects p).partitionSet) :
    (s.setObject p o).Inv := by
  have hobjects : ∀ q, (s.setObject p o).objects q = if q = p then o else s.objects q := fun q =>
    Function.update_apply ..
  have hsame : ∀ q, ((s.setObject p o).objects q).locks = (s.objects q).locks := by
    intro q
    rw [hobjects]
    split
    · next heq => rw [heq, hlocks]
    · rfl
  have hcalm : Calm s (s.setObject p o) :=
    ⟨fun _ _ h => h, fun _ _ h => h, fun q lock hmem _ => by rwa [hsame],
      fun _ => List.Subset.refl _, fun _ _ h _ => ⟨h, id⟩⟩
  refine ⟨h.world, h.present, h.unmarked, h.fresh, fun j => ?_, fun q lock hmem => ?_,
    fun j lock hstage hlock => ?_, h.alone, fun q => ?_⟩
  · apply h.bystander hcalm rfl
    · rw [hobjects]
      split
      · next heq =>
        rw [heq]
        exact hobject
      · exact .inl ⟨rfl, rfl⟩
    · exact fun _ _ _ _ => rfl
  · rw [hsame] at hmem
    exact h.locks q lock hmem
  · obtain ⟨hapart, hremaining⟩ := h.apart j lock hstage hlock
    refine ⟨fun q => ?_, hremaining⟩
    rw [hsame]
    exact hapart q
  · rw [hobjects]
    split
    · next heq =>
      subst heq
      intro hacquired x hx
      obtain ⟨hold, heq⟩ := hstate hacquired
      exact (h.acquired q hold x (heq ▸ hx)).calm hcalm
    · exact fun hacquired x hx => (h.acquired q hacquired x hx).calm hcalm

/-- `updated` tells the thread that the children have changed. -/
theorem Inv.update (h : s.Inv) :
    (s.setThread i { s.threads i with childrenChanged := true }).Inv := by
  have hthread := h.threads i
  have hcalm := calm_moved (s := s) (i := i) (o := s.object i)
    (t := { s.threads i with childrenChanged := true }) (fun _ hmem _ => hmem) (List.Subset.refl _)
  rw [moved_self] at hcalm
  refine h.setThread ?_ ?_ ?_
  · exact List.Subset.refl _
  · exact fun htakes => ⟨htakes, rfl⟩
  exact {
    stateId := hthread.stateId
    state := hthread.state
    backed := fun hstage hid x hx => (hthread.backed hstage hid x hx).calm hcalm
    takes := hthread.takes
    throws := hthread.throws
    retries := hthread.retries
    appending := hthread.appending
    concluding := hthread.concluding
    remaining := hthread.remaining
    frees := hthread.frees }

/-! ## Steps of the threads -/

theorem Inv.acquired_step (h : s.Inv) (hstage : (s.threads i).stage = .acquiring)
    (hlock : (s.threads i).lock = some (name, l))
    (habsent : ((s.worlds name).locks l).stage = .absent) : (s.acquired i name l).Inv := by
  have hthread := h.threads i
  have hthrows := hthread.throws hstage name l hlock
  have hends := hthrows.ends (by rw [habsent]; trivial)
  have hallocates : (s.threads i).stage.Allocates := by
    rw [hstage]
    trivial
  unfold Partitions.acquired
  split
  · next hacquired =>
    refine h.setStage (fun _ => hallocates) (fun _ => ?_) nofun (fun _ name' l' hlock' => ?_) nofun nofun
      id
    · rw [hstage]
      trivial
    · rw [hlock] at hlock'
      cases hlock'
      exact hacquired
  · next hfree =>
    split
    · next hthrown => exact absurd hends (by simp [hthrown, hfree])
    · next e hthrown =>
      split
      · refine h.setStage (fun _ => hallocates) (fun _ => ?_) (fun _ name' l' hlock' => ?_) nofun nofun
          nofun id
        · rw [hstage]
          trivial
        · rw [hlock] at hlock'
          cases hlock'
          simpa using hfree
      · split
        · exact h.leave id id
        · exact h.leave id id

/-- The thread of `_allocate_transition` remembers the state that it has found. -/
theorem Inv.settle (h : s.Inv) (hstate : (s.object i).state = .allocating) :
    (s.setThread i { s.threads i with
      stage := .splitting, stateId := (s.object i).stateId, linked := true }).Inv := by
  refine h.setThread ?_ ?_ ?_
  · exact List.Subset.refl _
  · exact fun htakes => htakes.elim
  exact {
    stateId := fun _ => Nat.le_refl _
    state := fun _ _ => hstate
    backed := fun hallocates => hallocates.elim
    takes := fun htakes => htakes.elim
    throws := nofun
    retries := fun hretries => hretries.elim
    appending := nofun
    concluding := nofun
    remaining := (h.threads i).remaining
    frees := fun hfrees => hfrees.elim }

/-- The state is still the one that is remembered. -/
theorem Inv.resume (h : s.Inv) {site : AbortSite} (hstage : (s.threads i).stage = .judging site) :
    (s.resumed i site).Inv := by
  have hallocates : (s.threads i).stage.Allocates := hstage ▸ trivial
  cases site with
  | timedOut =>
    refine h.setStage (fun _ => hallocates) (fun _ => ?_) (fun _ => ?_) nofun nofun nofun id
    · rw [hstage]
      trivial
    · apply (h.threads i).retries
      rw [hstage]
      trivial
  | appended =>
    exact h.setStage (fun _ => hallocates) (fun htakes => htakes.elim)
      (fun hretries => hretries.elim) nofun nofun nofun id
  | concluded => exact h.leave id id

/-- `lock.release()` is called for the next lock of the copy. -/
theorem Inv.iterate (h : s.Inv) {caller : ReleaseCaller} {rest : List (PyStr × ι)}
    (hremaining : (s.threads i).remaining = (name, l) :: rest)
    (hw : (s.worlds name).step (.thread l .release) = some w) :
    (((s.setWorld name w).setReleased name l).setThread i
      { s.threads i with stage := .freeing caller, thrown := none }).Inv := by
  have hreleased := h.setReleased (l := l) (i := i) (by rw [hremaining]; exact List.mem_cons_self)
  have hself := setReleased_released s name name l l
  rw [if_pos ⟨rfl, rfl⟩] at hself
  have hworld : ((s.setReleased name l).setWorld name w).Inv := by
    apply hreleased.setWorld hw
    · rintro l' ⟨⟩
      exact hself
    · intro l' _ node _ hpresent
      exact hpresent.step (World.mine_of_reachable (h.world name)) hw id
  refine hworld.setThread ?_ ?_ ?_
  · exact List.Subset.refl _
  · exact fun htakes => htakes.elim
  · refine threadOk_aside id ?_ ?_
    · exact (h.threads i).remaining
    intro _ lock hhead
    change (s.threads i).remaining.head? = some lock at hhead
    rw [hremaining] at hhead
    cases hhead
    exact hself

/-- A lock that has been released leaves `_locks`. -/
theorem Inv.remove (h : s.Inv) {caller : ReleaseCaller} {lock : PyStr × ι}
    {rest : List (PyStr × ι)} (hstage : (s.threads i).stage = .freed caller)
    (hremaining : (s.threads i).remaining = lock :: rest) :
    (s.moved i { s.object i with locks := (s.object i).locks.erase lock }
      { s.threads i with stage := .iterating caller, remaining := rest }).Inv := by
  have hrest : rest ⊆ (s.threads i).remaining := by
    rw [hremaining]
    exact List.subset_cons_self _ _
  have hreleased := (h.threads i).frees (hstage ▸ trivial) lock (by rw [hremaining]; rfl)
  refine h.aside (fun lock' hmem hnot => ?_) List.erase_subset hrest (.inl ⟨rfl, rfl⟩)
    (fun hacquired => ⟨hacquired, rfl⟩) id id
  -- a lock that has been released is nobody's any more
  apply (List.mem_erase_of_ne _).mpr hmem
  rintro rfl
  rw [hreleased] at hnot
  cases hnot

/-- Thread `i` goes on, out of `_allocate_transition`, and changes its partitioner. -/
theorem Inv.aside_kept (h : s.Inv) {stage : PartitionStage} (hstage : ¬ stage.Remembers)
    (hfrees : ¬ stage.Frees) (hlocks : o.locks = (s.object i).locks)
    (hobject : o.stateId = (s.object i).stateId ∧ o.state = (s.object i).state ∨
      (s.object i).stateId < o.stateId)
    (hstate : o.state = .acquired →
      (s.object i).state = .acquired ∧ o.partitionSet = (s.object i).partitionSet) :
    (s.moved i o { s.threads i with stage := stage }).Inv :=
  h.aside (fun _ hmem _ => hlocks ▸ hmem) (hlocks ▸ List.Subset.refl _) (List.Subset.refl _) hobject
    hstate hstage hfrees

theorem Inv.go (h : s.Inv) (hok : s.Orderly (.go i)) (hstep : s.go i = some s') : s'.Inv := by
  have hthread := h.threads i
  cases goes_of_go hstep with
  | allocates _ hstate => exact h.settle hstate
  | settled | doubts | aborts | doubted | suspects | suspected | trusts | iterated | missing | throws
  | fails => exact h.leave id id
  | taken hstage hposition =>
    exact h.setStage (fun _ => hstage ▸ trivial) (fun htakes => htakes.elim)
      (fun hretries => hretries.elim) nofun (fun _ => Nat.le_of_not_lt hposition) nofun id
  | acquired hstage hlock habsent => exact h.acquired_step hstage hlock habsent
  | @retakes name l w hstage hlock hw =>
    have htakes : (s.threads i).stage.Takes := hstage ▸ trivial
    obtain ⟨hlocks, hremaining⟩ := h.apart i _ htakes hlock
    exact h.enter htakes.allocates (hthread.takes htakes name l hlock) hlocks hremaining
      (fun j hj hlock' => h.alone j i _ hj htakes hlock' hlock)
      (hthread.retries (hstage ▸ trivial) name l hlock) hw
  | appends hstage hlock => exact h.append hstage hlock
  | @tested site hstage =>
    have hallocates : (s.threads i).stage.Allocates := hstage ▸ trivial
    have htakes : (PartitionStage.judging site).Takes → (s.threads i).stage.Takes := by
      rw [hstage]
      cases site <;> exact id
    have hretries : (PartitionStage.judging site).Retries → (s.threads i).stage.Retries := by
      rw [hstage]
      cases site <;> exact id
    exact h.setStage (fun _ => hallocates) htakes
      (fun h name l hlock => hthread.retries (hretries h) name l hlock) nofun nofun nofun id
  | resumes hstage => exact h.resume hstage
  | relapses => exact h.aside_kept id id rfl (.inr (Nat.lt_succ_self _)) nofun
  | concludes hstage hid => exact h.conclude hstage hid
  | reconsiders hstage =>
    have hallocates : (s.threads i).stage.Allocates := hstage ▸ trivial
    exact h.setStage (fun _ => hallocates) (fun htakes => htakes.elim)
      (fun hretries => hretries.elim) nofun nofun nofun id
  | @copies caller hstage =>
    simp only [Orderly, hstage] at hok
    by_cases hlocks : (s.objects (P.owner i)).locks = []
    · -- there is nothing to release
      rw [show (s.object i).locks = [] from hlocks, ← moved_self]
      exact h.aside (fun _ hmem _ => hmem) (List.Subset.refl _) (List.nil_subset _) (.inl ⟨rfl, rfl⟩)
        (fun hacquired => ⟨hacquired, rfl⟩) id id
    · obtain ⟨hstate, hothers⟩ := hok hlocks
      exact h.snapshot hstate hothers
  | iterates _ hremaining hw => exact h.iterate hremaining hw
  | removes hstage hremaining => exact h.remove hstage hremaining
  | @skips _ _ rest _ _ hremaining =>
    have hrest : rest ⊆ (s.threads i).remaining := by
      rw [hremaining]
      exact List.subset_cons_self _ _
    rw [← moved_self]
    exact h.aside (fun _ hmem _ => hmem) (List.Subset.refl _) hrest (.inl ⟨rfl, rfl⟩)
      (fun hacquired => ⟨hacquired, rfl⟩) id id
  | released =>
    unfold releaseOver
    split
    · exact h.leave id id
    · split
      · exact h.leave id id
      · exact h.leave id id
    · split
      · exact h.leave id id
      · exact h.leave id id
  | reallocates => exact h.aside_kept id id rfl (.inr (Nat.lt_succ_self _)) nofun
  | watches =>
    exact h.aside_kept id id rfl (.inl ⟨rfl, rfl⟩) fun hacquired => ⟨hacquired, rfl⟩
  | failsOut =>
    split
    · exact h.aside_kept id id rfl (.inr (Nat.lt_succ_self _)) nofun
    · exact h.aside_kept id id rfl (.inr (Nat.lt_succ_self _)) nofun

omit [DecidableEq π] in
/-- A step inside `lock.acquire`. -/
theorem Inv.lock (h : s.Inv) (hok : s.Orderly (.lock i name act))
    (hstep : (s.worlds name).step act = some w) (hstage : (s.threads i).stage = .acquiring)
    (hlock : (s.threads i).lock = some (name, l)) (hact : act.acquires l) :
    ((s.setWorld name w).setThread i { s.threads i with
      thrown := ((s.worlds name).raises? act).or (s.threads i).thrown }).Inv := by
  have hthread := h.threads i
  have htakes : (s.threads i).stage.Takes := hstage ▸ trivial
  have hmine := hthread.takes htakes name l hlock
  obtain ⟨hlocks, hremaining⟩ := h.apart i _ htakes hlock
  have hinside : ((s.worlds name).locks l).stage ≠ .absent := by
    obtain ⟨a, hacquires, -⟩ := World.acquires_of_world hact hstep
    exact hacquires.inside
  have hactor : World.actor? act = some l := by
    cases act <;> first | exact hact.elim | exact congrArg some hact | exact congrArg some hact.1
  obtain ⟨hunmarked, hpresent⟩ := World.inUse_of_acquires (World.sound_of_reachable (h.world name))
    (World.mine_of_reachable (h.world name)) hstep hact (h.unmarked name l hmine.2.2.1)
    (h.present name l hmine.2.2.1) hok
  have hsame : { s.threads i with
      thrown := ((s.worlds name).raises? act).or (s.threads i).thrown } =
      { s.threads i with
        stage := .acquiring, lock := some (name, l)
        thrown := ((s.worlds name).raises? act).or (s.threads i).thrown } := by
    rw [← hstage, ← hlock]
  rw [hsame]
  exact h.acquire hstep hactor htakes.allocates hmine hlocks hremaining
    (fun j hj hlock' => h.alone j i _ hj htakes hlock' hlock) (h.unmarked name l hmine.2.2.1 hinside)
    hunmarked hpresent
    (World.throws_of_acquires (hthread.throws hstage name l hlock) hstep hact hok)

omit [DecidableEq π] [DecidableEq θ] in
/-- A step inside `lock.release`. -/
theorem Inv.free (h : s.Inv) (hstep : (s.worlds name).step act = some w)
    (hreleased : s.released name l = true) (hact : act.releases l) : (s.setWorld name w).Inv := by
  have hactor : World.actor? act = some l := by
    cases act <;> first | exact hact.elim | exact congrArg some hact | exact congrArg some hact.1
  apply h.setWorld hstep
  · intro l' hl'
    obtain rfl := Option.some.inj (hactor.symm.trans hl')
    exact hreleased
  · intro l' hnot node _ hpresent
    apply hpresent.step (World.mine_of_reachable (h.world name)) hstep
    intro hdel
    obtain rfl := deletes_of_actor hactor hdel
    rw [hreleased] at hnot
    cases hnot

omit [DecidableEq π] [DecidableEq θ] in
/-- A step of the server on its own account. -/
theorem Inv.unasked (h : s.Inv) (hok : s.Orderly (.server name act))
    (hstep : (s.worlds name).step act = some w) (hact : act.unasked = true) :
    (s.setWorld name w).Inv := by
  have hmine := World.mine_of_reachable (h.world name)
  cases act
  case vanish node =>
    apply h.setWorld hstep nofun
    intro l hreleased node' hinUse hpresent
    cases hstep
    apply hpresent.vanish
    rintro rfl
    exact hok l hreleased hinUse
  case createLate | appear =>
    apply h.setWorld hstep nofun
    exact fun l _ node _ hpresent => hpresent.step hmine hstep id
  all_goals cases hact

variable [LinearOrder κ]

theorem Inv.step (h : s.Inv) {a : PartitionAct P} (hok : s.Orderly a) (hstep : s.step a = some s') :
    s'.Inv := by
  cases steps_of_step hstep with
  | join => exact (h.setParty _).setObject rfl (.inl ⟨rfl, rfl⟩) fun hacquired => ⟨hacquired, rfl⟩
  | changeLate => exact h
  | change => exact h.setObject rfl (.inr (Nat.lt_succ_self _)) nofun
  | lose | splitRaised | splitFail | call => exact h.leave id id
  | @updateAcquired i =>
    have hreleased : (s.setObject (P.owner i) ((s.object i).setState .release)).Inv :=
      h.setObject rfl (.inr (Nat.lt_succ_self _)) nofun
    exact hreleased.update
  | update => exact h.update
  | @settle i failed =>
    cases failed
    · exact h.aside_kept id id rfl (.inl ⟨rfl, rfl⟩) fun hacquired => ⟨hacquired, rfl⟩
    · exact h.aside_kept id id rfl (.inl ⟨rfl, rfl⟩) fun hacquired => ⟨hacquired, rfl⟩
  | @split i _ _ _ hstage =>
    have hthread := h.threads i
    have hremembers : (s.threads i).stage.Remembers := hstage ▸ trivial
    refine h.setThread ?_ ?_ ?_
    · exact List.Subset.refl _
    · exact fun htakes => htakes.elim
    exact {
      stateId := fun _ => hthread.stateId hremembers
      state := fun _ => hthread.state hremembers
      backed := fun _ _ x hx => by cases hx
      takes := fun htakes => htakes.elim
      throws := nofun
      retries := fun hretries => hretries.elim
      appending := nofun
      concluding := nofun
      remaining := hthread.remaining
      frees := fun hfrees => hfrees.elim }
  | @take i l x w hx hstage hmade hmaker hw =>
    have hallocates : (s.threads i).stage.Allocates := hstage ▸ trivial
    obtain ⟨hnew, hreleased⟩ := h.fresh _ l hmade
    have hself : (s.setMade (P.text x) l).made (P.text x) l = true := by
      show Function.update s.made _ (Function.update _ l true) _ l = true
      rw [Function.update_self, Function.update_self]
    -- nobody knows a lock object that has not been made
    have hfresh : ∀ {p : Prop}, s.made (P.text x) l = true → p := fun heq =>
      absurd (hmade.symm.trans heq) Bool.false_ne_true
    refine (h.setMade (P.text x) l).enter hallocates ⟨hself, hmaker, hreleased, x, hx, rfl⟩ ?_ ?_ ?_ ?_ hw
    · exact fun p hmem => hfresh (h.locks p _ hmem).1
    · exact fun j hmem => hfresh ((h.threads j).remaining _ hmem)
    · exact fun j hj hlock => hfresh ((h.threads j).takes hj _ l hlock).1
    · show ((s.worlds (P.text x)).locks l).isAcquired = false
      rw [hnew]
      rfl
  | lock hstage hlock hact hw => exact h.lock hok hw hstage hlock hact
  | @free i name act caller l rest w hstage hremaining hact hw =>
    have hthread := h.threads i
    have hreleased := hthread.frees (hstage ▸ trivial) (name, l) (by rw [hremaining]; rfl)
    have hstages : ∀ (freed : Prop) [Decidable freed],
        ¬ (if freed then PartitionStage.freed caller else .freeing caller).Remembers := by
      intro freed _
      split <;> exact id
    refine (h.free hw hreleased hact).setThread ?_ ?_ ?_
    · exact List.Subset.refl _
    · exact fun htakes => absurd htakes.allocates.remembers (hstages _)
    · refine threadOk_aside (hstages _) ?_ ?_
      · exact hthread.remaining
      · exact fun _ => hthread.frees (hstage ▸ trivial)
  | go => exact h.go hok hstep
  | @leave i carriedOut =>
    have hleft : (s.setObject (P.owner i) { s.object i with participating := false }).Inv :=
      h.setObject rfl (.inl ⟨rfl, rfl⟩) fun hacquired => ⟨hacquired, rfl⟩
    cases carriedOut
    · exact hleft.leave id id
    · exact (hleft.setParty _).leave id id
  | regroup => exact h.setParty _
  | server hunasked hw => exact h.unasked hok hw hunasked

theorem inv_of_reach (h : (partitioning P).Reach Orderly s) : s.Inv := by
  apply h.invariant inv_new
  intro s a _ hs henabled hok
  obtain ⟨s', hs'⟩ := Option.isSome_iff_exists.mp henabled
  show ((s.step a).getD s).Inv
  rw [hs']
  exact hs.step hok hs'

/-! ## Ownership -/

/-- The partitioner holds an acquired lock for the item. -/
def Holds (s : Partitions P) (p : π) (x : κ) : Prop :=
  ∃ l, (P.text x, l) ∈ (s.objects p).locks ∧ (s.worlds (P.text x)).Holds l

/-- No item is in the lists of two partitioners in ACQUIRED, and each of them holds the locks of its
list. -/
structure Exclusive (s : Partitions P) : Prop where
  apart : ∀ p q, p ≠ q → (s.objects p).state = .acquired → (s.objects q).state = .acquired →
    ∀ x ∈ (s.objects p).partitionSet, x ∉ (s.objects q).partitionSet
  holds : ∀ p, (s.objects p).state = .acquired → ∀ x ∈ (s.objects p).partitionSet, s.Holds p x

omit [DecidableEq π] [DecidableEq θ] [LinearOrder κ] in
theorem Inv.holds (h : s.Inv) {p : π} {x : κ} (hbacked : s.Backed p x) : s.Holds p x := by
  obtain ⟨l, hlock, hreleased, -, hacquired⟩ := hbacked
  exact ⟨l, hlock, (World.sound_of_reachable (h.world _)).holds hacquired
    (h.present _ l hreleased)⟩

omit [DecidableEq π] [DecidableEq θ] [LinearOrder κ] in
theorem Inv.exclusive (h : s.Inv) : s.Exclusive := by
  have hholds : ∀ p, (s.objects p).state = .acquired → ∀ x ∈ (s.objects p).partitionSet,
      s.Holds p x := fun p hacquired x hx => h.holds (h.acquired p hacquired x hx)
  refine ⟨fun p q hne hp hq x hx hx' => ?_, hholds⟩
  obtain ⟨l, hlock, hheld⟩ := hholds p hp x hx
  obtain ⟨l', hlock', hheld'⟩ := hholds q hq x hx'
  have hl : l ≠ l' := by
    rintro rfl
    exact hne ((h.locks p _ hlock).2.symm.trans (h.locks q _ hlock').2)
  have hkind : (((P.locks (P.text x)).config l)).kind ≠ .readLock := by
    rw [P.kind_eq]
    decide
  exact World.held_alone (h.world _) hl hkind hheld hheld'

/-- In every run whose steps are all orderly, in every state reached, ownership is exclusive. -/
theorem ownership_is_exclusive (P : Partitioners π θ κ ι) {s : Partitions P}
    (h : (partitioning P).Reach Orderly s) : s.Exclusive :=
  (inv_of_reach h).exclusive

end Partitions

/-! ## Two partitioners of one item -/

/-- A lock object for each of the two. -/
def twoLocks : Locks Bool where
  config second :=
    { kind := .lock
      uuid := List.replicate 32 (CodePoint.ofChar (if second then 'a' else 'b'))
      uuid_length := World.length_uuid second
      extraLockPatterns := []
      excludeNames := EXCLUDE_NAMES .lock
      mem_excludeNames := World.mem_EXCLUDE_NAMES_iff .lock
      client := second.toNat }
  uuid_injective := fun l l' h => by
    revert h
    cases l <;> cases l' <;> decide
  oneFamily := .inl (by decide)
  decimal := CodePoint.isDigit
  decimal_ascii := by decide

/-- Two partitioners of `{0}`; the identifier of the second comes first. -/
def twoPartitioners : Partitioners Bool Bool Int Bool where
  identifier second := if second then str "a" else str "b"
  node second := if second then str "4d2-a" else str "16e-b"
  set _ := [0]
  text := reprInt
  owner i := i
  locks _ := twoLocks
  maker _ l := l
  kind_eq := fun _ _ => rfl

namespace Partitions

/-- Partitioner `p` joins, its children watch settles, and it makes the lock object of the item. -/
def joining (p : Bool) (party : List PyStr) : List (PartitionAct twoPartitioners) :=
  [.join p, .settle p false, .go p, .split p party, .take p p, .lock p (reprInt 0) (.thread p .look),
    .lock p (reprInt 0) (.thread p .attempt)]

/-- `acquire` is over: the thread stores the lock object, tests, and concludes. -/
def concluding (p : Bool) : List (PartitionAct twoPartitioners) := List.replicate 6 (.go p)

/-- The first partitioner, alone, acquires the item. -/
def firstAcquires : List (PartitionAct twoPartitioners) :=
  joining false [twoPartitioners.node false] ++
    [.lock false (reprInt 0) (.thread false .ensure), .lock false (reprInt 0) (.thread false (.find [])),
      .lock false (reprInt 0) (.create false 0), .lock false (reprInt 0) (.thread false .store),
      .lock false (reprInt 0) (.thread false .contend),
      .lock false (reprInt 0) (.thread false (.compare [(twoLocks.config false).nodeName 0])),
      .lock false (reprInt 0) (.thread false .mark)] ++ concluding false

/-- The second joins; the connection fails in `acquire` until its deadline is over. -/
def secondGivesUp : List (PartitionAct twoPartitioners) :=
  joining true [twoPartitioners.node true, twoPartitioners.node false] ++
    [.lock true (reprInt 0) (.thread true (.fail .connectionLoss)),
      .lock true (reprInt 0) (.thread true .giveUp),
      .lock true (reprInt 0) (.thread true (.clean [(twoLocks.config false).nodeName 0]))] ++
    concluding true

/-- Both say that they own the item, and the second has not got its lock. -/
theorem refused_lock_is_owned :
    ¬ ∀ s : Partitions twoPartitioners, (partitioning twoPartitioners).Reachable s → s.Exclusive := by
  intro h
  have hlegal : (partitioning twoPartitioners).Legal Machine.Free .new
      (firstAcquires ++ secondGivesUp) := by decide +kernel
  have hexclusive := h _ (.of_legal hlegal)
  exact hexclusive.apart false true (by decide) (by decide +kernel) (by decide +kernel) 0
    (by decide +kernel) (by decide +kernel)

/-- Up to there nothing has gone wrong. -/
theorem ownership_is_exclusive_first :
    (((partitioning twoPartitioners).exec .new firstAcquires).objects false).state = .acquired ∧
      ((partitioning twoPartitioners).exec .new firstAcquires).Exclusive :=
  ⟨by decide +kernel, ownership_is_exclusive twoPartitioners (.of_legal (by decide +kernel))⟩

end Partitions

end Kazoo
