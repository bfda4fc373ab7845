import Kazoo.Recipe.FailedAcquire
import Kazoo.Recipe.LockNodes
import Kazoo.Recipe.Partitioner

/-!
# Spent locks

What a lock object knows of its node, from the moment that `acquire` has it until `release` has
deleted it: a lock object that is not acquired, and that no thread is about to acquire, has no node.
-/

namespace Kazoo

/-- `acquire` has looked at `is_acquired`. -/
def Stage.Working : Stage → Prop
  | .absent | .entered => False
  | _ => True

theorem Stage.Working.inside {stage : Stage} (h : stage.Working) : stage ≠ .absent := by
  rintro rfl
  exact h

theorem Stage.working_of_stored {stage : Stage} {node : PyStr} (h : stage.stored? = some node) :
    stage.Working := by
  cases stage <;> first | exact trivial | cases h

variable {ι : Type} {L : Locks ι}

/-! ## One lock object -/

namespace LockObject

open World

variable {w w' : World L} {l : ι} {o o' : LockObject} {act : Act}

/-- The node that a thread inside `release` deletes is the only one, and then there is none. -/
def Frees (w : World L) (l : ι) (o : LockObject) : Releasing → Prop
  | .testing | .reading => True
  | .deleting node => ∀ n, w.HasNode l n → (L.config l).nodeName n = node
  | .unmarking => ∀ n, ¬ w.HasNode l n
  | .clearing => o.isAcquired = false ∧ ∀ n, ¬ w.HasNode l n

/-- The lock object knows of its node. -/
structure Traced (w : World L) (l : ι) (o : LockObject) : Prop where
  inside : o.stage ≠ .absent → o.isAcquired = false ∧ o.releasing = []
  already : o.stage.Working → o.call.alreadyAcquired = false
  free : o.stage = .absent → o.isAcquired = false → ∀ n, ¬ w.HasNode l n
  known : ∀ node, o.stage.node? = some node → ∀ n, w.HasNode l n → (L.config l).nodeName n = node
  stored : ∀ node, o.stage.stored? = some node → o.node = some node
  marked : o.isAcquired = true → ∀ n, w.HasNode l n → o.node = some ((L.config l).nodeName n)
  frees : ∀ r ∈ o.releasing, o.Frees w l r

theorem traced_new (hnone : ∀ n, ¬ w.HasNode l n) : Traced w l new where
  inside := fun h => absurd rfl h
  already := fun h => h.elim
  free := fun _ _ => hnone
  known := fun _ h => by cases h
  stored := fun _ h => by cases h
  marked := fun h => by cases h
  frees := fun _ h => absurd h List.not_mem_nil

theorem Traced.fewer (h : Traced w l o) (hfewer : ∀ n, w'.HasNode l n → w.HasNode l n) :
    Traced w' l o where
  inside := h.inside
  already := h.already
  free habsent hfree n hn := h.free habsent hfree n (hfewer n hn)
  known node hnode n hn := h.known node hnode n (hfewer n hn)
  stored := h.stored
  marked hacquired n hn := h.marked hacquired n (hfewer n hn)
  frees r hr := by
    have hfrees := h.frees r hr
    cases r with
    | testing | reading => trivial
    | deleting node => exact fun n hn => hfrees n (hfewer n hn)
    | unmarking => exact fun n hn => hfrees n (hfewer n hn)
    | clearing => exact ⟨hfrees.1, fun n hn => hfrees.2 n (hfewer n hn)⟩

/-- The thread inside `acquire` goes on with a node that it knows. -/
theorem Traced.onward (h : Traced w l o) (hinside : o.stage ≠ .absent) (hstays : o'.stage ≠ .absent)
    (halready : o'.call.alreadyAcquired = false) (hacquired : o'.isAcquired = o.isAcquired)
    (hreleasing : o'.releasing = o.releasing)
    (hknown : ∀ node, o'.stage.node? = some node → ∀ n, w'.HasNode l n →
      (L.config l).nodeName n = node)
    (hstored : ∀ node, o'.stage.stored? = some node → o'.node = some node) : Traced w' l o' := by
  obtain ⟨hfree, hnone⟩ := h.inside hinside
  refine ⟨fun _ => ⟨hacquired.trans hfree, hreleasing.trans hnone⟩, fun _ => halready,
    fun habsent => absurd habsent hstays, hknown, hstored, fun h' => ?_, ?_⟩
  · exact absurd ((hacquired.trans hfree).symm.trans h') Bool.false_ne_true
  · rw [hreleasing, hnone]
    exact fun r hr => absurd hr List.not_mem_nil

/-- It goes on without a node, whatever the server has. -/
theorem Traced.rest (h : Traced w l o) (hinside : o.stage ≠ .absent) (hstays : o'.stage ≠ .absent)
    (halready : o'.call.alreadyAcquired = false) (hacquired : o'.isAcquired = o.isAcquired)
    (hreleasing : o'.releasing = o.releasing) (hstage : o'.stage.node? = none) : Traced w' l o' := by
  refine h.onward hinside hstays halready hacquired hreleasing (fun node hnode => ?_)
    fun node hnode => ?_
  · rw [hstage] at hnode
    cases hnode
  · rw [(Stage.trying_of_stored hnode).2] at hstage
    cases hstage

/-- `acquire` is left, and the server has no node of the lock object. -/
theorem Traced.emptied (h : Traced w l o) (hinside : o.stage ≠ .absent)
    (hreleasing : o'.releasing = o.releasing) (hstage : o'.stage = .absent)
    (hnone : ∀ n, ¬ w'.HasNode l n) : Traced w' l o' := by
  obtain ⟨-, hempty⟩ := h.inside hinside
  refine ⟨fun h' => absurd hstage h', fun h' => ?_, fun _ _ => hnone, fun node hnode => ?_,
    fun node hnode => ?_, fun _ n hn => absurd hn (hnone n), ?_⟩
  · rw [hstage] at h'
    exact h'.elim
  · rw [hstage] at hnode
    cases hnode
  · rw [hstage] at hnode
    cases hnode
  · rw [hreleasing, hempty]
    exact fun r hr => absurd hr List.not_mem_nil

/-- An exception that the handlers of `acquire` know of leads to another try, or to the clean-up. -/
theorem Traced.raised (h : Traced w l o) (hworks : o.stage.Working) {e : Exn}
    (hknown : e.retried = true ∨ e.isKazooException = true) : Traced w' l (o.raised e) := by
  have halready := h.already hworks
  unfold LockObject.raised
  split
  · exact h.rest hworks.inside (by rintro ⟨⟩) halready rfl rfl rfl
  · next hretried =>
    have hkazoo : (e.isKazooException && !o.call.alreadyAcquired) = true := by
      rw [hknown.resolve_left hretried, halready]
      rfl
    rw [if_pos hkazoo]
    exact h.rest hworks.inside (by rintro ⟨⟩) halready rfl rfl rfl

theorem Traced.refused (h : Traced w l o) (hworks : o.stage.Working) : Traced w' l o.refused := by
  have halready := h.already hworks
  unfold LockObject.refused
  rw [if_neg (Bool.eq_false_iff.mp halready)]
  exact h.rest hworks.inside (by rintro ⟨⟩) halready rfl rfl rfl

/-- The thread keeps the node that it has stored. -/
theorem Traced.keeps (h : Traced w l o) (node : PyStr) (hnode : o.stage.stored? = some node)
    {stage : Stage} (hstage : stage.node? = some node) : Traced w l { o with stage := stage } := by
  have hknown := (Stage.trying_of_stored hnode).2
  have hworks := Stage.working_of_stored hnode
  refine h.onward hworks.inside (fun habsent => ?_) (h.already hworks) rfl rfl
    (fun node' hnode' => ?_) fun node' hnode' => ?_
  · rw [show stage = .absent from habsent] at hstage
    cases hstage
  · obtain rfl := Option.some.inj (hstage.symm.trans hnode')
    exact h.known node hknown
  · obtain rfl := Option.some.inj (hstage.symm.trans (Stage.trying_of_stored hnode').2)
    exact h.stored node hnode

/-- What raises is not the clean-up, and the handlers of `acquire` know of the exception. -/
def Handles (o : LockObject) : Act → Prop
  | .fail e =>
    match o.stage with
    | .cleaning _ | .deleting _ _ => False
    | _ => e.retried = true ∨ e.isKazooException = true
  | _ => True

instance (o : LockObject) (act : Act) : Decidable (o.Handles act) := by
  induction act using LockObject.Act.casesOn
  case fail e =>
    dsimp only [Handles]
    generalize o.stage = stage
    cases stage <;> (dsimp only; infer_instance)
  all_goals (dsimp only [Handles]; infer_instance)

theorem Traced.failing (h : Traced w l o) {e : Exn} (hhandles : o.Handles (.fail e))
    (hstep : o.failing e = some o') : Traced w' l o' := by
  unfold LockObject.failing at hstep
  cases hstage : o.stage <;> simp only [Handles, hstage] at hhandles hstep
  case ensuring | finding =>
    have hworks : o.stage.Working := hstage ▸ trivial
    split at hstep <;> cases hstep
    exact h.raised hworks hhandles
  case comparing =>
    have hworks : o.stage.Working := hstage ▸ trivial
    cases hstep
    exact h.raised hworks hhandles
  case watching =>
    have hworks : o.stage.Working := hstage ▸ trivial
    split at hstep <;> cases hstep
    exact h.raised hworks hhandles
  all_goals cases hstep

/-- A step of the thread inside `acquire`. -/
theorem Traced.acquire (h : Traced w l o) {cleanedUp : Bool} (hneat : Neat w l o cleanedUp)
    (hfind : ∀ children, act = .find children → o.createTried = true → w.Reads l children)
    (hclean : ∀ children, act = .clean children → o.node = none → w.Reads l children)
    (hhandles : o.Handles act) (hact : act.acquires = true)
    (hstep : o.step L.decimal (L.config l) act = some o') : Traced w l o' := by
  cases steps_of_step hstep with
  | enter | release | test | read | unmark | clear | releaseFail | cancel => cases hact
  | look hstage =>
    have hinside : o.stage ≠ .absent := by rw [hstage]; rintro ⟨⟩
    exact h.rest hinside (by rintro ⟨⟩) (h.inside hinside).1 rfl rfl rfl
  | attempt hstage | ensure hstage | findNone hstage | findFirst hstage | again hstage =>
    have hworks : o.stage.Working := hstage ▸ trivial
    exact h.rest hworks.inside (by rintro ⟨⟩) (h.already hworks) rfl rfl rfl
  | attemptHeld hstage =>
    have hworks : o.stage.Working := hstage ▸ trivial
    split
    · exact h.raised hworks (.inl rfl)
    · exact h.refused hworks
  | findOwn hstage htried hfound =>
    have hworks : o.stage.Working := hstage ▸ trivial
    -- the node that the children show is the only one
    obtain ⟨number, hnumber, rfl⟩ := (findNode_of_reads (hfind _ rfl htried)).2 _ hfound
    refine h.onward hworks.inside (by rintro ⟨⟩) (h.already hworks) rfl rfl
      (fun node' hnode' n hn => ?_) fun _ hnode' => (by cases hnode')
    rw [← Option.some.inj hnode', hneat.alone n number hn hnumber]
  | store hstage =>
    have hworks : o.stage.Working := hstage ▸ trivial
    refine h.onward hworks.inside (by rintro ⟨⟩) (h.already hworks) rfl rfl (fun node' hnode' => ?_)
      fun _ hnode' => hnode'
    exact h.known node' (by rw [hstage]; exact hnode')
  | contend hstage | compareFirst hstage | wake hstage =>
    exact h.keeps _ (by rw [hstage]; rfl) rfl
  | cancelled hstage | timeOut hstage => exact h.raised (hstage ▸ trivial) (.inr rfl)
  | compareRaised hstage herror =>
    -- `_get_predecessor` raises `ForceRetryError` only
    unfold LockConfig.getPredecessor at herror
    dsimp only at herror
    split at herror <;> cases herror
    exact h.raised (hstage ▸ trivial) (.inl rfl)
  | compareBehind hstage =>
    split
    · exact h.keeps _ (by rw [hstage]; rfl) rfl
    · exact h.refused (hstage ▸ trivial)
  | @watch found _ hstage => cases found <;> exact h.keeps _ (by rw [hstage]; rfl) rfl
  | fail hfails => exact h.failing hhandles hfails
  | giveUp hstage => exact h.refused (hstage ▸ trivial)
  | @mark node hstage =>
    have hnode : o.stage.stored? = some node := by rw [hstage]; rfl
    obtain ⟨-, hnone⟩ := h.inside (by rw [hstage]; rintro ⟨⟩)
    -- the node that it has is the one it has stored
    refine ⟨fun habsent => absurd rfl habsent, fun h' => h'.elim, fun _ h' => (by cases h'),
      fun _ h' => (by cases h'), fun _ h' => (by cases h'), fun _ n hn => ?_, ?_⟩
    · rw [h.known node (Stage.trying_of_stored hnode).2 n hn]
      exact h.stored node hnode
    · rw [show ({ o with isAcquired := true, stage := Stage.absent, acquiredWith := some node } :
        LockObject).releasing = [] from hnone]
      exact fun r hr => absurd hr List.not_mem_nil
  | clean hstage =>
    have hworks : o.stage.Working := hstage ▸ trivial
    exact h.rest hworks.inside (by rintro ⟨⟩) (h.already hworks) rfl rfl rfl
  | cleanNothing hstage hnothing =>
    have hworks : o.stage.Working := hstage ▸ trivial
    obtain ⟨hnone, hfound⟩ := Option.or_eq_none_iff.mp hnothing
    exact h.emptied hworks.inside rfl rfl
      ((findNode_of_reads (hclean _ rfl hnone)).1 hfound)

/-- `acquire` is entered. -/
theorem Traced.enter (h : Traced w l o) (hfree : o.isAcquired = false) (hnone : o.releasing = [])
    {blocking timed ephemeral : Bool}
    (hstep : o.step L.decimal (L.config l) (.enter blocking timed ephemeral) = some o') :
    Traced w l o' := by
  obtain ⟨-, rfl⟩ := (Option.ite_none_right_eq_some.mp hstep).imp id Option.some.inj
  exact ⟨fun _ => ⟨hfree, hnone⟩, fun h' => h'.elim, fun h' => (by cases h'), fun _ h' => (by cases h'),
    fun _ h' => (by cases h'), h.marked, h.frees⟩

/-! ## Threads inside `release` -/

theorem Frees.mono {r : Releasing} (h : o.Frees w l r)
    (hfree : o.isAcquired = false → o'.isAcquired = false) : o'.Frees w l r := by
  cases r with
  | testing | reading => trivial
  | deleting node => exact h
  | unmarking => exact h
  | clearing => exact ⟨hfree h.1, h.2⟩

/-- A thread inside `release` goes on, or leaves. -/
theorem Traced.releaser (h : Traced w l o) (habsent : o.stage = .absent) (i : Nat)
    {next : Option Releasing} (hnext : ∀ r ∈ next, o.Frees w l r) : Traced w l (o.releaser i next) := by
  have hstage : (o.releaser i next).stage = .absent := (releaser_stage i next o).trans habsent
  refine ⟨fun h' => absurd hstage h', fun h' => ?_, fun _ hfree => ?_, fun node hnode => ?_,
    fun node hnode => ?_, ?_, fun r hr => ?_⟩
  · rw [hstage] at h'
    exact h'.elim
  · exact h.free habsent ((releaser_isAcquired i next o).symm.trans hfree)
  · rw [hstage] at hnode
    cases hnode
  · rw [hstage] at hnode
    cases hnode
  · rw [releaser_isAcquired, releaser_node]
    exact h.marked
  · have hfrees : o.Frees w l r := by
      cases next with
      | none => exact h.frees r (List.mem_of_mem_eraseIdx hr)
      | some r' =>
        rcases List.mem_or_eq_of_mem_set hr with hr | rfl
        · exact h.frees r hr
        · exact hnext r rfl
    exact hfrees.mono fun hfree => (releaser_isAcquired i next o).trans hfree

/-- A step of a thread inside `release`. -/
theorem Traced.release (h : Traced w l o) (habsent : o.stage = .absent) (hact : act.releases = true)
    (hstep : o.step L.decimal (L.config l) act = some o') : Traced w l o' ∧ o'.stage = .absent := by
  cases steps_of_step hstep with
  | test =>
    refine ⟨h.releaser habsent _ fun r hr => ?_, (releaser_stage _ _ o).trans habsent⟩
    split at hr <;> cases hr
    trivial
  | read =>
    refine ⟨h.releaser habsent _ fun r hr => ?_, (releaser_stage _ _ o).trans habsent⟩
    obtain ⟨node, hnode, rfl⟩ := Option.map_eq_some_iff.mp hr
    intro n hn
    by_cases hacquired : o.isAcquired = true
    · exact Option.some.inj ((h.marked hacquired n hn).symm.trans hnode)
    · exact absurd hn (h.free habsent (Bool.eq_false_iff.mpr hacquired) n)
  | unmark hi =>
    have hnone : ∀ n, ¬ w.HasNode l n := h.frees .unmarking (List.mem_of_getElem? hi)
    refine ⟨⟨fun h' => absurd habsent h', h.already, fun _ _ => hnone, h.known, h.stored,
      fun h' => (by cases h'), fun r hr => ?_⟩, habsent⟩
    rcases List.mem_or_eq_of_mem_set hr with hr | rfl
    · exact (h.frees r hr).mono fun _ => rfl
    · exact ⟨rfl, hnone⟩
  | clear hi =>
    obtain ⟨hfree, hnone⟩ : o.isAcquired = false ∧ _ := h.frees .clearing (List.mem_of_getElem? hi)
    refine ⟨⟨fun h' => absurd habsent h', h.already, fun _ _ => hnone, h.known, fun node hnode => ?_,
      fun h' => absurd (hfree.symm.trans h') Bool.false_ne_true, fun r hr => ?_⟩, habsent⟩
    · cases (congrArg Stage.stored? habsent).symm.trans hnode
    · exact (h.frees r (List.mem_of_mem_eraseIdx hr)).mono fun hfree => hfree
  | releaseFail =>
    refine ⟨h.releaser habsent _ fun r hr => ?_, (releaser_stage _ _ o).trans habsent⟩
    split at hr <;> cases hr
    trivial
  | _ => cases hact

/-- `release` is called. -/
theorem Traced.called (h : Traced w l o) (habsent : o.stage = .absent) :
    Traced w l { o with releasing := o.releasing ++ [.testing] } := by
  refine ⟨fun h' => absurd habsent h', h.already, h.free, h.known, h.stored, h.marked, fun r hr => ?_⟩
  rcases List.mem_append.mp hr with hr | hr
  · exact (h.frees r hr).mono id
  · rw [List.mem_singleton.mp hr]
    trivial

/-- A thread that leaves `release` without an exception leaves the lock object free. -/
theorem Traced.isAcquired_of_left (h : Traced w l o) (hact : act.releases = true)
    (hstep : o.step L.decimal (L.config l) act = some o')
    (hless : o'.releasing.length < o.releasing.length)
    (hnone : o.raises? L.decimal (L.config l) act = none) : o'.isAcquired = false := by
  have hset (i : Nat) (r : Releasing) : ¬ (o.releaser i (some r)).releasing.length < o.releasing.length := by
    show ¬ (o.releasing.set i r).length < _
    rw [List.length_set]
    exact Nat.lt_irrefl _
  cases steps_of_step hstep with
  | test =>
    rw [releaser_isAcquired]
    by_contra hacquired
    rw [if_pos (Bool.eq_true_of_not_eq_false hacquired)] at hless
    exact hset _ _ hless
  | read =>
    cases hnode : o.node with
    | none =>
      rw [raises?, if_pos hnode] at hnone
      cases hnone
    | some node =>
      rw [hnode] at hless
      exact absurd hless (hset _ _)
  | unmark => rfl
  | clear hi => exact (h.frees .clearing (List.mem_of_getElem? hi)).1
  | @releaseFail i e again =>
    cases again with
    | true => exact absurd hless (hset _ _)
    | false => cases hnone
  | _ => cases hact

/-- No step inside `release` makes the lock object acquired. -/
theorem isAcquired_of_releases {decimal : CodePoint → Bool} {c : LockConfig} (hact : act.releases = true)
    (hstep : o.step decimal c act = some o') (hfree : o.isAcquired = false) : o'.isAcquired = false := by
  cases steps_of_step hstep with
  | test | read | releaseFail => exact (releaser_isAcquired _ _ o).trans hfree
  | unmark => rfl
  | clear => exact hfree
  | _ => cases hact

end LockObject

/-! ## All lock objects of a path -/

namespace World

variable {w w' : World L} {l l' : ι} {act : LockAct L}

/-- Each lock object knows of its node. -/
def Traced (w : World L) : Prop := ∀ l, LockObject.Traced w l (w.locks l)

/-- No node comes to be but for who asks for it. -/
theorem hasNode_of_step [DecidableEq ι] (hstep : w.step act = some w') {n : Nat} (h : w'.HasNode l n) :
    w.HasNode l n ∨ act = .create l n ∨ ∃ i owner, act = .createLate i n ∧ w.late[i]? = some (l, owner) := by
  have hdelete {w : World L} {name : PyStr} (h : (w.delete name).HasNode l n) : w.HasNode l n :=
    (Attempts.hasNode_delete h).1
  cases steps_of_step hstep with
  | thread | createFail => exact .inl h
  | create =>
    rcases Attempts.hasNode_create h with ⟨rfl, rfl⟩ | h
    · exact .inr (.inl rfl)
    · exact .inl h
  | clean | delete | vanish => exact .inl (hdelete h)
  | @createLate i _ _ owner hlate =>
    rcases Attempts.hasNode_create h with ⟨rfl, rfl⟩ | h
    · exact .inr (.inr ⟨i, owner, rfl, hlate⟩)
    · exact .inl h
  | appear =>
    obtain ⟨owner, hmem⟩ := h
    exact .inl ⟨owner, (List.mem_cons.mp hmem).resolve_left (by simp)⟩
  | expire =>
    obtain ⟨owner, hmem⟩ := h
    exact .inl ⟨owner, (List.mem_filter.mp hmem).1⟩

variable [DecidableEq ι]

/-- A lock object that does nothing gets no node, unless one is created late. -/
theorem others_of_step (hstep : w.step act = some w') (hactor : actor? act ≠ some l)
    (hlate : ∀ i n owner, act = .createLate i n → w.late[i]? ≠ some (l, owner)) :
    w'.locks l = w.locks l ∧ ∀ n, w'.HasNode l n → w.HasNode l n := by
  refine ⟨locks_of_step hstep hactor, fun n hn => ?_⟩
  rcases hasNode_of_step hstep hn with hn | rfl | ⟨i, owner, hact, hlist⟩
  · exact hn
  · exact absurd rfl hactor
  · exact absurd hlist (hlate i n owner hact)

theorem Traced.others (h : w.Traced) (hstep : w.step act = some w') (hactor : actor? act ≠ some l)
    (hlate : ∀ i n owner, act = .createLate i n → w.late[i]? ≠ some (l, owner)) :
    LockObject.Traced w' l (w'.locks l) := by
  obtain ⟨hlocks, hfewer⟩ := others_of_step hstep hactor hlate
  rw [hlocks]
  exact (h l).fewer hfewer

/-- Only the lock object that acts is to be looked at. -/
theorem Traced.actor (h : w.Traced) (hstep : w.step act = some w') (hactor : actor? act = some l)
    (hself : LockObject.Traced w' l (w'.locks l)) : w'.Traced := by
  intro l'
  by_cases hl : l' = l
  · exact hl ▸ hself
  · refine h.others hstep (fun h' => hl (Option.some.inj (h'.symm.trans hactor))) fun i n owner hact => ?_
    rw [hact] at hactor
    cases hactor

omit [DecidableEq ι] in
theorem actor_of_acquires (hact : act.acquires l) : actor? act = some l := by
  cases act <;> first | exact hact.elim | exact congrArg some hact | exact congrArg some hact.1

omit [DecidableEq ι] in
theorem actor_of_releases (hact : act.releases l) : actor? act = some l := by
  cases act <;> first | exact hact.elim | exact congrArg some hact | exact congrArg some hact.1

/-- What raises inside `acquire` is not the clean-up, and the handlers of `acquire` know of the
exception. -/
def Handles (w : World L) : LockAct L → Prop
  | .thread l act => (w.locks l).Handles act
  | .createFail _ e => e.retried = true ∨ e.isKazooException = true
  | _ => True

omit [DecidableEq ι] in
instance (w : World L) (act : LockAct L) : Decidable (w.Handles act) := by
  induction act using LockAct.casesOn
  all_goals (dsimp only [Handles]; infer_instance)

/-- A step of the thread inside `acquire`. -/
theorem Traced.acquires (h : w.Traced) (hneat : Attempts.Neat ⟨w, fun _ => false⟩)
    (hcareful : Attempts.Careful ⟨w, fun _ => false⟩ act) (hhandles : w.Handles act)
    (hact : act.acquires l) (hstep : w.step act = some w') : w'.Traced := by
  refine h.actor hstep (actor_of_acquires hact) ?_
  cases steps_of_step hstep with
  | @thread l' act o _ ho =>
    obtain ⟨rfl, hact⟩ := hact
    rw [setLock_locks_self]
    have hfind : ∀ children, act = .find children → (w.locks l').createTried = true →
        w.Reads l' children := by
      rintro children rfl
      exact hcareful
    have hclean : ∀ children, act = .clean children → (w.locks l').node = none →
        w.Reads l' children := by
      rintro children rfl hnone
      simp only [Attempts.Careful, hnone] at hcareful
      exact hcareful
    exact ((h l').acquire (hneat.locks l') hfind hclean hhandles hact ho).fewer fun _ => id
  | @create l' number hstage =>
    obtain rfl : l' = l := hact
    rw [setLock_locks_self]
    have hno := ((hneat.locks l').creating hstage).2
    have hworks : (w.locks l').stage.Working := hstage ▸ trivial
    refine (h l').onward hworks.inside (by rintro ⟨⟩) ((h l').already hworks) rfl rfl
      (fun node hnode n hn => ?_) fun _ hnode => (by cases hnode)
    obtain ⟨-, rfl⟩ := (Attempts.hasNode_create hn).resolve_right (hno n)
    exact Option.some.inj hnode
  | @createFail l' e hstage =>
    obtain rfl : l' = l := hact
    show LockObject.Traced _ l' ((w.setLock l' _).locks l')
    rw [setLock_locks_self]
    exact (h l').raised (hstage ▸ trivial) hhandles
  | @clean l' raising node hstage =>
    obtain rfl : l' = l := hact
    rw [setLock_locks_self]
    refine (h l').emptied (by rw [hstage]; rintro ⟨⟩) rfl rfl fun n hn => ?_
    obtain ⟨hn, hne⟩ := Attempts.hasNode_delete hn
    exact hne ((hneat.locks l').deleting raising node hstage n hn)
  | delete | createLate | vanish | appear | expire => cases hact

/-- `acquire` is entered. -/
theorem Traced.enters (h : w.Traced) (hfree : (w.locks l).isAcquired = false)
    (hnone : (w.locks l).releasing = []) {blocking timed ephemeral : Bool}
    (hstep : w.step (.thread l (.enter blocking timed ephemeral)) = some w') : w'.Traced := by
  refine h.actor hstep rfl ?_
  cases steps_of_step hstep with
  | thread _ ho =>
    rw [setLock_locks_self]
    exact ((h l).enter hfree hnone ho).fewer fun _ => id

/-- `release` is called. -/
theorem Traced.calls (h : w.Traced) (habsent : (w.locks l).stage = .absent)
    (hstep : w.step (.thread l .release) = some w') : w'.Traced ∧ (w'.locks l).stage = .absent := by
  cases steps_of_step hstep with
  | thread _ ho =>
    cases ho
    refine ⟨h.actor hstep rfl ?_, ?_⟩
    · rw [setLock_locks_self]
      exact ((h l).called habsent).fewer fun _ => id
    · rw [setLock_locks_self]
      exact habsent

/-- A step of a thread inside `release`. -/
theorem Traced.releases (h : w.Traced) (habsent : (w.locks l).stage = .absent)
    (hact : act.releases l) (hstep : w.step act = some w') :
    w'.Traced ∧ (w'.locks l).stage = .absent := by
  have hself : LockObject.Traced w' l (w'.locks l) ∧ (w'.locks l).stage = .absent := by
    cases steps_of_step hstep with
    | @thread l' act o _ ho =>
      obtain ⟨rfl, hact⟩ := hact
      rw [setLock_locks_self]
      obtain ⟨htraced, habsent⟩ := (h l').release habsent hact ho
      exact ⟨htraced.fewer fun _ => id, habsent⟩
    | @delete l' i node hi =>
      obtain rfl : l' = l := hact
      rw [setLock_locks_self]
      have hfewer : ∀ n, (w.delete node).HasNode l' n → w.HasNode l' n := fun n hn =>
        (Attempts.hasNode_delete hn).1
      have honly : (w.locks l').Frees w l' (.deleting node) := (h l').frees _ (List.mem_of_getElem? hi)
      -- the node that is deleted has been the only one
      have hgone : (w.locks l').Frees (w.delete node) l' .unmarking := fun n hn =>
        (Attempts.hasNode_delete hn).2 (honly n (hfewer n hn))
      have htraced : LockObject.Traced (w.delete node) l' ((w.locks l').releaser i (some .unmarking)) :=
        ((h l').fewer hfewer).releaser habsent i fun r hr => by
          cases hr
          exact hgone
      exact ⟨htraced.fewer fun _ => id, habsent⟩
    | create | createFail | clean | createLate | vanish | appear | expire => cases hact
  exact ⟨h.actor hstep (actor_of_releases hact) hself.1, hself.2⟩

/-- A thread that leaves `release` without an exception leaves the lock object free. -/
theorem Traced.isAcquired_of_left (h : w.Traced) (hact : act.releases l) (hstep : w.step act = some w')
    (hless : (w'.locks l).releasing.length < (w.locks l).releasing.length)
    (hnone : w.raises? act = none) : (w'.locks l).isAcquired = false := by
  cases steps_of_step hstep with
  | @thread l' act o _ ho =>
    obtain ⟨rfl, hact⟩ := hact
    rw [setLock_locks_self] at hless ⊢
    exact (h l').isAcquired_of_left hact ho hless hnone
  | @delete l' i =>
    obtain rfl : l' = l := hact
    rw [setLock_locks_self] at hless
    refine absurd hless ?_
    show ¬ ((w.locks l').releasing.set i .unmarking).length < _
    rw [List.length_set]
    exact Nat.lt_irrefl _
  | create | createFail | clean | createLate | vanish | appear | expire => cases hact

theorem isAcquired_of_releases (hact : act.releases l) (hstep : w.step act = some w')
    (hfree : (w.locks l).isAcquired = false) : (w'.locks l).isAcquired = false := by
  cases steps_of_step hstep with
  | @thread l' act o _ ho =>
    obtain ⟨rfl, hact⟩ := hact
    rw [setLock_locks_self]
    exact LockObject.isAcquired_of_releases hact ho hfree
  | @delete l' i =>
    obtain rfl : l' = l := hact
    rw [setLock_locks_self]
    exact (LockObject.releaser_isAcquired i _ _).trans hfree
  | create | createFail | clean | createLate | vanish | appear | expire => cases hact

/-- A create that has raised is carried out only while the same `acquire` is going on. -/
def Timely (w : World L) : LockAct L → Prop
  | .createLate i _ =>
    match w.late[i]? with
    | some (l, _) => (w.locks l).stage ≠ .absent
    | none => True
  | _ => True

instance (w : World L) (act : LockAct L) : Decidable (w.Timely act) := by
  induction act using LockAct.casesOn
  case createLate i number =>
    dsimp only [Timely]
    generalize w.late[i]? = late
    cases late <;> (dsimp only; infer_instance)
  all_goals (dsimp only [Timely]; infer_instance)

/-- A step of the server on its own account. -/
theorem Traced.server (h : w.Traced) (hcareful : Attempts.Careful ⟨w, fun _ => false⟩ act)
    (htimely : w.Timely act) (hunasked : act.unasked = true) (hstep : w.step act = some w') :
    w'.Traced := by
  intro l
  have hactor : actor? act ≠ some l := by
    cases act <;> first | (cases hunasked; done) | (rintro ⟨⟩)
  by_cases hlate : ∃ i n owner, act = .createLate i n ∧ w.late[i]? = some (l, owner)
  · obtain ⟨i, n, owner, rfl, hlist⟩ := hlate
    simp only [Attempts.Careful, hlist] at hcareful
    simp only [Timely, hlist] at htimely
    have hunread : (w.locks l).stage.Unread := hcareful.2.2
    obtain ⟨hfree, hnone⟩ := (h l).inside htimely
    rw [locks_of_step hstep hactor]
    refine ⟨(h l).inside, (h l).already, fun habsent => absurd habsent htimely, fun node hnode => ?_,
      (h l).stored, fun hacquired => ?_, fun r hr => ?_⟩
    · -- the thread inside `acquire` has no node
      revert hunread hnode
      cases (w.locks l).stage <;> first | exact fun h _ => h.elim | exact fun _ h => (by cases h)
    · exact absurd (hfree.symm.trans hacquired) Bool.false_ne_true
    · rw [hnone] at hr
      exact absurd hr List.not_mem_nil
  · refine h.others hstep hactor fun i n owner hact hlist => hlate ⟨i, n, owner, hact, hlist⟩

end World

end Kazoo
