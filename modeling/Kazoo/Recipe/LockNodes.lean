import Kazoo.Recipe.LockExclusion

/-!
# Nodes of lock objects

Who deletes the node of a lock object: nobody but the lock object itself, as long as sessions last.
-/

namespace Kazoo

variable {ι : Type} {L : Locks ι}

/-! ## The names that a lock object keeps -/

/-- The name that the thread inside `acquire` has at hand. -/
def Stage.name? : Stage → Option PyStr
  | .named node | .contending node | .comparing node | .watching node | .waiting node
  | .gotten node | .deleting _ node => some node
  | _ => none

namespace LockObject

variable {decimal : CodePoint → Bool} {c : LockConfig} {o o' : LockObject} {act : Act}

/-- Every name that the lock object keeps begins with its prefix. -/
structure Mine (c : LockConfig) (o : LockObject) : Prop where
  node : ∀ name, o.node = some name → c.lockPrefix <+: name
  stage : ∀ name, o.stage.name? = some name → c.lockPrefix <+: name
  releasing : ∀ name, .deleting name ∈ o.releasing → c.lockPrefix <+: name

theorem mine_new : Mine c new := ⟨nofun, nofun, nofun⟩

/-- A thread inside `acquire` with a name that is in order. -/
theorem Mine.setStage (h : Mine c o) {stage : Stage}
    (hstage : ∀ name, stage.name? = some name → c.lockPrefix <+: name) :
    Mine c { o with stage := stage } :=
  ⟨h.node, hstage, h.releasing⟩

/-- The thread inside `acquire` has no name at hand. -/
theorem Mine.rest (h : Mine c o) (hnode : o'.node = o.node) (hstage : o'.stage.name? = none)
    (hreleasing : o'.releasing = o.releasing) : Mine c o' := by
  refine ⟨hnode ▸ h.node, fun name hname => ?_, hreleasing ▸ h.releasing⟩
  rw [hstage] at hname
  cases hname

/-- Nothing has changed but what says nothing of names. -/
theorem Mine.congr (h : Mine c o) (hnode : o'.node = o.node) (hstage : o'.stage = o.stage)
    (hreleasing : o'.releasing = o.releasing) : Mine c o' := by
  obtain ⟨node, stage, releasing⟩ := h
  rw [← hnode] at node
  rw [← hstage] at stage
  rw [← hreleasing] at releasing
  exact ⟨node, stage, releasing⟩

theorem Mine.raised (h : Mine c o) (e : Exn) : Mine c (o.raised e) := by
  unfold LockObject.raised
  split
  · exact h.rest rfl rfl rfl
  · split <;> exact h.rest rfl rfl rfl

theorem Mine.refused (h : Mine c o) : Mine c o.refused := by
  unfold LockObject.refused
  split <;> exact h.rest rfl rfl rfl

theorem Mine.cleaned (h : Mine c o) (raising : Bool) : Mine c (o.cleaned raising) :=
  h.rest rfl rfl rfl

theorem Mine.failing (h : Mine c o) {e : Exn} (hstep : o.failing e = some o') : Mine c o' := by
  unfold LockObject.failing at hstep
  repeat' split at hstep
  all_goals cases hstep
  all_goals first
    | exact h.raised e
    | exact h.cleaned _
    | exact h.rest rfl rfl rfl

/-- A thread inside `release` has at most a name that the lock object has stored. -/
theorem Mine.releaser (h : Mine c o) (i : Nat) {next : Option Releasing}
    (hnext : ∀ name, next = some (.deleting name) → c.lockPrefix <+: name) :
    Mine c (o.releaser i next) := by
  cases next with
  | none => exact ⟨h.node, h.stage, fun name hmem => h.releasing name (List.mem_of_mem_eraseIdx hmem)⟩
  | some r =>
    refine ⟨h.node, h.stage, fun name hmem => ?_⟩
    rcases List.mem_or_eq_of_mem_set hmem with hmem | heq
    · exact h.releasing name hmem
    · exact hnext name (heq ▸ rfl)

/-- The thread goes on with the name that it has. -/
theorem Mine.goOn (h : Mine c o) {node : PyStr} (hold : o.stage.name? = some node) {stage : Stage}
    (hstage : stage.name? = some node) : Mine c { o with stage := stage } := by
  apply h.setStage
  intro name hname
  rw [hstage] at hname
  cases hname
  exact h.stage node hold

theorem Mine.step (h : Mine c o) (hstep : o.step decimal c act = some o') : Mine c o' := by
  cases steps_of_step hstep with
  | enter | look | attempt | ensure | findNone | findFirst | again | mark => exact h.rest rfl rfl rfl
  | attemptHeld =>
    split
    · exact h.raised _
    · exact h.refused
  | findOwn _ _ hfound =>
    apply h.setStage
    intro name hname
    cases hname
    exact (LockConfig.findNode_eq_some hfound).2
  | @store node hstage =>
    have hmine : c.lockPrefix <+: node := h.stage node (by rw [hstage]; rfl)
    refine ⟨fun name hname => ?_, fun name hname => ?_, h.releasing⟩
    · cases hname
      exact hmine
    · cases hname
      exact hmine
  | contend hstage | compareFirst hstage | wake hstage => exact h.goOn (by rw [hstage]; rfl) rfl
  | cancelled | compareRaised | timeOut => exact h.raised _
  | compareBehind hstage =>
    split
    · exact h.goOn (by rw [hstage]; rfl) rfl
    · exact h.refused
  | @watch found _ hstage => cases found <;> exact h.goOn (by rw [hstage]; rfl) rfl
  | fail hfails => exact h.failing hfails
  | giveUp => exact h.refused
  | clean _ hnode =>
    apply h.setStage
    intro name hname
    cases hname
    rcases Option.or_eq_some_iff.mp hnode with hstored | ⟨-, hfound⟩
    · exact h.node _ hstored
    · exact (LockConfig.findNode_eq_some hfound).2
  | cleanNothing => exact h.cleaned _
  | release =>
    refine ⟨h.node, h.stage, fun name hmem => ?_⟩
    rcases List.mem_append.mp hmem with hmem | hmem
    · exact h.releasing name hmem
    · cases List.mem_singleton.mp hmem
  | test =>
    apply h.releaser
    intro name hname
    split at hname <;> cases hname
  | read =>
    apply h.releaser
    intro name hname
    obtain ⟨name', hstored, heq⟩ := Option.map_eq_some_iff.mp hname
    cases heq
    exact h.node _ hstored
  | @unmark i =>
    have hclearing : Mine c (o.releaser i (some .clearing)) := h.releaser i (by simp)
    exact hclearing.congr rfl rfl rfl
  | @clear i =>
    have hgone : Mine c (o.releaser i none) := h.releaser i (by simp)
    exact ⟨by simp, hgone.stage, hgone.releasing⟩
  | releaseFail =>
    apply h.releaser
    intro name hname
    split at hname <;> cases hname
  | cancel => exact h.congr rfl rfl rfl

/-! ## The thread inside `acquire` -/

/-- One step of the thread inside `acquire`: it marks the lock object at the end, or leaves the mark as
it is, and it gets to that end through `_get_predecessor`. -/
structure Acquires (decimal : CodePoint → Bool) (c : LockConfig) (o o' : LockObject) (act : Act) :
    Prop where
  inside : o.stage ≠ .absent
  releasing : o'.releasing = o.releasing
  marks : o'.isAcquired = o.isAcquired ∧ o'.acquiredWith = o.acquiredWith ∨
    o'.stage = .absent ∧ ∃ node, o.stage = .gotten node ∧ o'.acquiredWith = some node
  gotten : ∀ node, o'.stage = .gotten node → ∃ children, act = .compare children ∧
    o.stage = .comparing node ∧ c.getPredecessor decimal node children = .ok none
  failed : (∃ raising node, o.stage = .deleting raising node) →
    o'.stage = .absent ∧ o'.isAcquired = o.isAcquired

theorem acquires_rest (hinside : o.stage ≠ .absent)
    (hdeleting : ∀ raising node, o.stage ≠ .deleting raising node)
    (hgotten : ∀ node, o'.stage ≠ .gotten node) (hreleasing : o'.releasing = o.releasing)
    (hacquired : o'.isAcquired = o.isAcquired) (hwith : o'.acquiredWith = o.acquiredWith) :
    Acquires decimal c o o' act where
  inside := hinside
  releasing := hreleasing
  marks := .inl ⟨hacquired, hwith⟩
  gotten := fun node hnode => absurd hnode (hgotten node)
  failed := fun ⟨raising, node, heq⟩ => absurd heq (hdeleting raising node)

theorem acquires_raised (hinside : o.stage ≠ .absent)
    (hdeleting : ∀ raising node, o.stage ≠ .deleting raising node) (e : Exn) :
    Acquires decimal c o (o.raised e) act := by
  obtain ⟨stage, hstage, heq⟩ := raised_frame e o
  rw [heq]
  refine acquires_rest hinside hdeleting (fun node hnode => hstage ?_) rfl rfl rfl
  rw [show stage = .gotten node from hnode]
  trivial

theorem acquires_refused (hinside : o.stage ≠ .absent)
    (hdeleting : ∀ raising node, o.stage ≠ .deleting raising node) :
    Acquires decimal c o o.refused act := by
  obtain ⟨stage, hstage, heq⟩ := refused_frame o
  rw [heq]
  refine acquires_rest hinside hdeleting (fun node hnode => hstage ?_) rfl rfl rfl
  rw [show stage = .gotten node from hnode]
  trivial

theorem acquires_failing (h : o.failing e = some o') : Acquires decimal c o o' act := by
  unfold failing at h
  (repeat' split at h) <;> cases h
  all_goals first
    | exact acquires_raised (by simp [*]) (by simp [*]) _
    | exact ⟨by simp [*], rfl, .inl ⟨rfl, rfl⟩, by rintro _ ⟨⟩, fun _ => ⟨rfl, rfl⟩⟩

theorem acquires_of_step (h : o.step decimal c act = some o') (hact : act.acquires = true) :
    Acquires decimal c o o' act := by
  cases steps_of_step h with
  | enter | release | test | read | unmark | clear | releaseFail | cancel => cases hact
  | look hstage | attempt hstage | ensure hstage | findOwn hstage | findNone hstage | findFirst hstage
  | store hstage | contend hstage | wake hstage | again hstage | clean hstage | cleanNothing hstage =>
    exact acquires_rest (by simp [hstage]) (by simp [hstage]) (by rintro _ ⟨⟩) rfl rfl rfl
  | cancelled hstage | compareRaised hstage | timeOut hstage =>
    exact acquires_raised (by simp [hstage]) (by simp [hstage]) _
  | giveUp hstage => exact acquires_refused (by simp [hstage]) (by simp [hstage])
  | attemptHeld hstage =>
    split
    · exact acquires_raised (by simp [hstage]) (by simp [hstage]) _
    · exact acquires_refused (by simp [hstage]) (by simp [hstage])
  | @compareFirst children node hstage hnone =>
    refine ⟨by simp [hstage], rfl, .inl ⟨rfl, rfl⟩, fun node' hnode' => ?_, by simp [hstage]⟩
    cases hnode'
    exact ⟨children, rfl, hstage, hnone⟩
  | compareBehind hstage =>
    split
    · exact acquires_rest (by simp [hstage]) (by simp [hstage]) (by simp) rfl rfl rfl
    · exact acquires_refused (by simp [hstage]) (by simp [hstage])
  | @watch found node hstage =>
    exact acquires_rest (by simp [hstage]) (by simp [hstage]) (by cases found <;> simp) rfl rfl rfl
  | fail hfails => exact acquires_failing hfails
  | @mark node hstage =>
    exact ⟨by simp [hstage], rfl, .inr ⟨rfl, node, hstage, rfl⟩, by simp, by simp [hstage]⟩

end LockObject

/-! ## Who deletes a node -/

namespace World

variable {w w' : World L} {l : ι}

/-- The step may delete a node of `l`. -/
def Deletes (l : ι) : LockAct L → Prop
  | .clean l' | .delete l' _ => l' = l
  | .vanish name => (L.config l).lockPrefix <+: name
  | .expire _ => True
  | _ => False

theorem contender_of_delete {name : PyStr} {number : Nat} {owner : Option SessionId}
    (hmem : Znode.contender l number owner ∈ w.nodes)
    (hname : ¬ (L.config l).lockPrefix <+: name) :
    Znode.contender l number owner ∈ (w.delete name).nodes := by
  apply List.mem_filter.mpr
  refine ⟨hmem, decide_eq_true fun heq => hname ?_⟩
  rw [← heq]
  exact LockConfig.lockPrefix_nodeName _ _

/-- A delete by another lock object. -/
theorem contender_of_delete_of_ne {l' : ι} (hne : l' ≠ l) {name : PyStr}
    (hname : (L.config l').lockPrefix <+: name) {number : Nat} {owner : Option SessionId}
    (hmem : Znode.contender l number owner ∈ w.nodes) :
    Znode.contender l number owner ∈ (w.delete name).nodes := by
  apply List.mem_filter.mpr
  refine ⟨hmem, decide_eq_true fun heq => hne ?_⟩
  rw [← heq] at hname
  exact (Locks.eq_of_lockPrefix hname).symm

/-- Only the nodes and the numbers matter. -/
theorem Grows.congr {w₁ : World L} (h : Grows w w₁) (hnodes : w'.nodes = w₁.nodes)
    (hnext : w'.next = w₁.next) : Grows w w' :=
  ⟨hnext ▸ h.next, hnodes ▸ h.nodes⟩

variable [DecidableEq ι]

theorem mine_setLock (h : ∀ l, (w.locks l).Mine (L.config l)) {o : LockObject}
    (ho : o.Mine (L.config l)) (hlocks : w'.locks = w.locks) (l' : ι) :
    ((w'.setLock l o).locks l').Mine (L.config l') := by
  show (Function.update w'.locks l o l').Mine _
  by_cases hl : l' = l
  · subst hl
    rw [Function.update_self]
    exact ho
  · rw [Function.update_of_ne hl, hlocks]
    exact h l'

theorem mine_of_step (h : ∀ l, (w.locks l).Mine (L.config l)) {act : LockAct L}
    (hstep : w.step act = some w') : ∀ l, (w'.locks l).Mine (L.config l) := by
  cases steps_of_step hstep with
  | @thread l act o _ ho => exact mine_setLock h ((h l).step ho) rfl
  | @create l =>
    apply mine_setLock h _ rfl
    apply (h l).setStage
    intro name hname
    cases hname
    exact LockConfig.lockPrefix_nodeName _ _
  | @createFail l e => exact mine_setLock h ((h l).raised e) rfl
  | @clean l => exact mine_setLock h ((h l).cleaned _) rfl
  | @delete l i => exact mine_setLock h ((h l).releaser i (by simp)) rfl
  | createLate | vanish | appear | expire => exact h

theorem mine_of_reachable (h : (contention L).Reachable w) : ∀ l, (w.locks l).Mine (L.config l) := by
  apply h.invariant fun l => LockObject.mine_new
  intro w act _ hmine henabled _
  obtain ⟨w', hw'⟩ := Option.isSome_iff_exists.mp henabled
  show ∀ l, (((w.step act).getD w).locks l).Mine _
  rw [hw']
  exact mine_of_step hmine hw'

/-- New contenders have new numbers, whatever the step. -/
theorem grows_of_step {act : LockAct L} (hstep : w.step act = some w') : Grows w w' := by
  cases steps_of_step hstep with
  | thread | createFail => exact .of_eq rfl rfl
  | @create l _ _ hfits => exact (Grows.create hfits l (w.owner l)).congr rfl rfl
  | @clean _ _ node | @delete _ _ node => exact (Grows.delete node).congr rfl rfl
  | @createLate _ _ l owner _ _ hfits => exact (Grows.create hfits l owner).congr rfl rfl
  | appear =>
    apply Grows.setNodes
    exact fun l n owner hmem => (List.mem_cons.mp hmem).resolve_left (by simp)
  | @vanish name => exact .delete name
  | @expire client =>
    have hg : Grows w (w.setNodes (w.nodes.filter fun x => x.owner ≠ some (client, w.expired client))) :=
      .setNodes fun l n owner hmem => (List.mem_filter.mp hmem).1
    exact hg.congr rfl rfl

/-- The lock object that takes the step. -/
def actor? : LockAct L → Option ι
  | .thread l _ | .create l _ | .createFail l _ | .clean l | .delete l _ => some l
  | _ => none

theorem locks_of_step {act : LockAct L} (hstep : w.step act = some w') (hact : actor? act ≠ some l) :
    w'.locks l = w.locks l := by
  have hset : ∀ {l' : ι} {o : LockObject} {w₁ : World L}, actor? act = some l' →
      w₁.locks = w.locks → (w₁.setLock l' o).locks l = w.locks l := by
    intro l' o w₁ hactor hlocks
    have hne : l ≠ l' := fun heq => hact (heq ▸ hactor)
    show Function.update w₁.locks l' o l = _
    rw [Function.update_of_ne hne, hlocks]
  cases steps_of_step hstep with
  | thread | create | createFail | clean | delete => exact hset rfl rfl
  | createLate | vanish | appear | expire => rfl

theorem history_subset_of_step {act : LockAct L} (hstep : w.step act = some w') :
    w.history ⊆ w'.history := by
  cases steps_of_step hstep with
  | thread | createFail => exact List.Subset.refl _
  | create | clean | delete | createLate | vanish | appear | expire => exact List.subset_cons_self _ _

/-- The nodes of `l` outlast every step but those that are meant for them. -/
theorem contender_of_step (hmine : ∀ l, (w.locks l).Mine (L.config l)) {act : LockAct L}
    (hstep : w.step act = some w') (hact : ¬ Deletes l act) {number : Nat} {owner : Option SessionId}
    (hmem : Znode.contender l number owner ∈ w.nodes) :
    Znode.contender l number owner ∈ w'.nodes := by
  cases steps_of_step hstep with
  | thread | createFail => exact hmem
  | create | createLate | appear => exact List.mem_cons_of_mem _ hmem
  | @clean l' _ node hstage =>
    exact contender_of_delete_of_ne hact ((hmine l').stage node (by rw [hstage]; rfl)) hmem
  | @delete l' _ node hi =>
    have hname := (hmine l').releasing node (List.mem_of_getElem? hi)
    exact contender_of_delete_of_ne hact hname hmem
  | vanish => exact contender_of_delete hmem hact
  | expire => exact absurd trivial hact

theorem acquires_of_world {act : LockAct L} {w' : World L} (hact : act.acquires l)
    (hstep : w.step act = some w') :
    ∃ a, LockObject.Acquires L.decimal (L.config l) (w.locks l) (w'.locks l) a ∧
      (∀ children, a = .compare children → act = .thread l (.compare children)) ∧
      (World.Deletes l act → ∃ raising node, (w.locks l).stage = .deleting raising node) := by
  cases steps_of_step hstep with
  | @thread l' act o _ ho =>
    obtain ⟨rfl, hact⟩ := hact
    refine ⟨act, ?_, fun children heq => heq ▸ rfl, False.elim⟩
    rw [World.setLock_locks_self]
    exact LockObject.acquires_of_step ho hact
  | @create l' number hstage =>
    obtain rfl : l' = l := hact
    refine ⟨.look, ?_, by simp, False.elim⟩
    rw [World.setLock_locks_self]
    exact LockObject.acquires_rest (by simp [hstage]) (by simp [hstage]) (by simp) rfl rfl rfl
  | @createFail l' e hstage =>
    obtain rfl : l' = l := hact
    refine ⟨.look, ?_, by simp, False.elim⟩
    show LockObject.Acquires _ _ _ ((World.setLock l' _ w).locks l') _
    rw [World.setLock_locks_self]
    exact LockObject.acquires_raised (by simp [hstage]) (by simp [hstage]) e
  | @clean l' raising node hstage =>
    obtain rfl : l' = l := hact
    refine ⟨.look, ?_, by simp, fun _ => ⟨raising, node, hstage⟩⟩
    rw [World.setLock_locks_self]
    exact ⟨by simp [hstage], rfl, .inl ⟨rfl, rfl⟩, by rintro _ ⟨⟩, fun _ => ⟨rfl, rfl⟩⟩
  | delete | createLate | vanish | appear | expire => cases hact

end World

end Kazoo
