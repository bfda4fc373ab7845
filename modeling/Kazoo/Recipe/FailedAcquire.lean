import Kazoo.Recipe.LockExclusion

/-!
# Failed acquires

What `_best_effort_cleanup` leaves of a lock object on the server.
-/

namespace Kazoo

variable {ι : Type} {L : Locks ι}

/-! ## Runs with their history -/

structure Attempts {ι : Type} (L : Locks ι) where
  world : World L
  -- history: the last `acquire` has failed, what its cleanup asked for has been carried out, and
  -- `acquire` has not been entered since
  cleanedUp : ι → Bool

namespace Attempts

def new : Attempts L := ⟨.new, fun _ => false⟩

variable [DecidableEq ι]

/-- The history after a step that leads to `world`.  A cleanup ends with the delete, or where there
is nothing to delete. -/
def after (s : Attempts L) (act : LockAct L) (world : World L) : ι → Bool :=
  match act with
  | .thread l (.enter _ _ _) => Function.update s.cleanedUp l false
  | .thread l (.clean _) => Function.update s.cleanedUp l ((world.locks l).stage = .absent)
  | .clean l => Function.update s.cleanedUp l true
  | _ => s.cleanedUp

end Attempts

/-- The runs of the lock objects, with their history. -/
def attempts [DecidableEq ι] (L : Locks ι) : Machine (Attempts L) (LockAct L) where
  init := .new
  enabled := fun s act => (s.world.step act).isSome
  post := fun s act =>
    match s.world.step act with
    | some world => ⟨world, s.after act world⟩
    | none => s

instance [DecidableEq ι] (L : Locks ι) (s : Attempts L) (act : LockAct L) :
    Decidable ((attempts L).enabled s act) :=
  inferInstanceAs (Decidable ((s.world.step act).isSome = true))

/-! ## Nodes of a lock object -/

namespace World

variable {w w' : World L} {l : ι}

def HasNode (w : World L) (l : ι) (number : Nat) : Prop :=
  ∃ owner, Znode.contender l number owner ∈ w.nodes

/-- The children of the lock object are in the list, and no others of its name. -/
def Reads (w : World L) (l : ι) (children : List PyStr) : Prop :=
  (∀ name ∈ children, (L.config l).lockPrefix <+: name → name ∈ w.nodes.map Znode.name) ∧
    ∀ name ∈ w.nodes.map Znode.name, (L.config l).lockPrefix <+: name → name ∈ children

/-- No child of the lock path begins with the prefix of the lock object. -/
def NoChild (w : World L) (l : ι) : Prop :=
  ∀ name ∈ w.nodes.map Znode.name, ¬ (L.config l).lockPrefix <+: name

instance (w : World L) (l : ι) (children : List PyStr) : Decidable (w.Reads l children) :=
  inferInstanceAs (Decidable (_ ∧ _))

instance (w : World L) (l : ι) : Decidable (w.NoChild l) :=
  inferInstanceAs (Decidable (∀ name ∈ w.nodes.map Znode.name, ¬ _ <+: name))

theorem HasNode.mem_names {number : Nat} (h : w.HasNode l number) :
    (L.config l).nodeName number ∈ w.nodes.map Znode.name := by
  obtain ⟨owner, hmem⟩ := h
  exact List.mem_map_of_mem hmem

theorem hasNode_of_lockPrefix {name : PyStr} (hname : name ∈ w.nodes.map Znode.name)
    (h : (L.config l).lockPrefix <+: name) :
    ∃ number, w.HasNode l number ∧ name = (L.config l).nodeName number := by
  obtain ⟨x, hx, rfl⟩ := List.mem_map.mp hname
  cases x with
  | contender l' number owner =>
    obtain rfl := Locks.eq_of_lockPrefix h
    exact ⟨number, ⟨owner, hx⟩, rfl⟩
  | other child => exact absurd h (child.foreign l)

theorem noChild_iff : w.NoChild l ↔ ∀ number, ¬ w.HasNode l number := by
  constructor
  · intro h number hnode
    exact h _ hnode.mem_names ((L.config l).lockPrefix_nodeName number)
  · intro h name hname hpre
    obtain ⟨number, hnumber, -⟩ := hasNode_of_lockPrefix hname hpre
    exact h number hnumber

/-- What `_find_node` says of its own children as they are. -/
theorem findNode_of_reads {children : List PyStr} (h : w.Reads l children) :
    ((L.config l).findNode children = none → ∀ number, ¬ w.HasNode l number) ∧
      ∀ node, (L.config l).findNode children = some node →
        ∃ number, w.HasNode l number ∧ node = (L.config l).nodeName number := by
  constructor
  · intro hnone number hnode
    have hchild := h.2 _ hnode.mem_names ((L.config l).lockPrefix_nodeName number)
    have hpre := List.find?_eq_none.mp hnone _ hchild
    exact hpre (List.isPrefixOf_iff_prefix.mpr ((L.config l).lockPrefix_nodeName number))
  · intro node hsome
    obtain ⟨hmem, hpre⟩ := LockConfig.findNode_eq_some hsome
    exact hasNode_of_lockPrefix (h.1 _ hmem hpre) hpre

end World

/-! ## The condition -/

/-- The thread inside `acquire` has not read the children since its last `client.create`. -/
def Stage.Unread : Stage → Prop
  | .absent | .entered | .attempting | .ensuring | .finding | .sleeping | .cleaning _ => True
  | _ => False

instance (stage : Stage) : Decidable stage.Unread := by
  cases stage <;> first
    | exact .isTrue trivial
    | exact .isFalse id

namespace Attempts

/-- `_find_node` reads its own children as they are; a cleanup that trusts `self.node` is right to; and
a create that has raised is carried out before the lock object next reads the children, or never. -/
def Careful (s : Attempts L) : LockAct L → Prop
  | .thread l (.find children) => (s.world.locks l).createTried = true → s.world.Reads l children
  | .thread l (.clean children) =>
    match (s.world.locks l).node with
    | none => s.world.Reads l children
    | some node =>
      ∀ name ∈ s.world.nodes.map Znode.name, (L.config l).lockPrefix <+: name → name = node
  | .createLate i _ =>
    match s.world.late[i]? with
    | some (l, _) =>
      s.world.NoChild l ∧ s.cleanedUp l = false ∧ (s.world.locks l).stage.Unread
    | none => True
  | _ => True

instance (s : Attempts L) (act : LockAct L) : Decidable (s.Careful act) := by
  induction act using LockAct.casesOn
  case thread l act =>
    induction act using LockObject.Act.casesOn
    case clean children =>
      dsimp only [Careful]
      generalize (s.world.locks l).node = node
      cases node <;> (dsimp only; infer_instance)
    all_goals (dsimp only [Careful]; infer_instance)
  case createLate i number =>
    dsimp only [Careful]
    generalize s.world.late[i]? = late
    cases late <;> (dsimp only; infer_instance)
  all_goals (dsimp only [Careful]; infer_instance)

end Attempts

/-! ## One lock object -/

namespace LockObject

open World

structure Neat (w : World L) (l : ι) (o : LockObject) (cleanedUp : Bool) : Prop where
  alone : ∀ n n', w.HasNode l n → w.HasNode l n' → n = n'
  tried : ∀ n, w.HasNode l n → o.createTried = true
  creating : o.stage = .creating → o.createTried = true ∧ ∀ n, ¬ w.HasNode l n
  deleting : ∀ raising node, o.stage = .deleting raising node →
    ∀ n, w.HasNode l n → (L.config l).nodeName n = node
  cleanedUp : cleanedUp = true → o.stage = .absent ∧ ∀ n, ¬ w.HasNode l n

variable {w w' : World L} {l : ι} {o o' : LockObject} {cleanedUp : Bool}

theorem neat_new : Neat (World.new : World L) l new false where
  alone := fun n n' h => by
    obtain ⟨owner, hmem⟩ := h
    cases hmem
  tried := fun n h => by
    obtain ⟨owner, hmem⟩ := h
    cases hmem
  creating := nofun
  deleting := nofun
  cleanedUp := nofun

/-- The lock object has lost nodes, if anything. -/
theorem Neat.fewer (h : Neat w l o cleanedUp) (hfewer : ∀ n, w'.HasNode l n → w.HasNode l n) :
    Neat w' l o cleanedUp where
  alone := fun n n' hn hn' => h.alone n n' (hfewer n hn) (hfewer n' hn')
  tried := fun n hn => h.tried n (hfewer n hn)
  creating := fun hstage => ⟨(h.creating hstage).1, fun n hn => (h.creating hstage).2 n (hfewer n hn)⟩
  deleting := fun raising node hstage n hn => h.deleting raising node hstage n (hfewer n hn)
  cleanedUp := fun hcleaned =>
    ⟨(h.cleanedUp hcleaned).1, fun n hn => (h.cleanedUp hcleaned).2 n (hfewer n hn)⟩

/-- The thread inside `acquire` goes on, not to create or to delete. -/
theorem Neat.goOn (h : Neat w l o cleanedUp) (hinside : o.stage ≠ .absent)
    (htried : o.createTried = true → o'.createTried = true) (hcreating : o'.stage ≠ .creating)
    (hdeleting : ∀ raising node, o'.stage ≠ .deleting raising node) :
    Neat w l o' cleanedUp where
  alone := h.alone
  tried := fun n hn => htried (h.tried n hn)
  creating := fun hstage => absurd hstage hcreating
  deleting := fun raising node hstage => absurd hstage (hdeleting raising node)
  cleanedUp := fun hcleaned => absurd (h.cleanedUp hcleaned).1 hinside

/-- Another thread has changed the lock object. -/
theorem Neat.aside (h : Neat w l o cleanedUp) (hstage : o'.stage = o.stage)
    (htried : o'.createTried = o.createTried) : Neat w l o' cleanedUp := by
  obtain ⟨alone, tried, creating, deleting, cleaned⟩ := h
  rw [← htried] at tried creating
  rw [← hstage] at creating deleting cleaned
  exact ⟨alone, tried, creating, deleting, cleaned⟩

@[simp] theorem raised_createTried (e : Exn) (o : LockObject) :
    (o.raised e).createTried = o.createTried := by
  obtain ⟨stage, -, h⟩ := raised_frame e o
  rw [h]

@[simp] theorem refused_createTried (o : LockObject) : o.refused.createTried = o.createTried := by
  obtain ⟨stage, -, h⟩ := refused_frame o
  rw [h]

theorem raised_stage (e : Exn) (o : LockObject) :
    (o.raised e).stage ≠ .creating ∧
      ∀ raising node, (o.raised e).stage ≠ .deleting raising node := by
  unfold raised
  split
  · exact ⟨nofun, nofun⟩
  · split <;> exact ⟨nofun, nofun⟩

theorem refused_stage (o : LockObject) :
    o.refused.stage ≠ .creating ∧ ∀ raising node, o.refused.stage ≠ .deleting raising node := by
  unfold refused
  split <;> exact ⟨nofun, nofun⟩

theorem Neat.raised (h : Neat w l o cleanedUp) (hinside : o.stage ≠ .absent) (e : Exn) :
    Neat w l (o.raised e) cleanedUp :=
  h.goOn hinside (fun htried => (raised_createTried e o).trans htried) (raised_stage e o).1
    (raised_stage e o).2

theorem Neat.refused (h : Neat w l o cleanedUp) (hinside : o.stage ≠ .absent) :
    Neat w l o.refused cleanedUp :=
  h.goOn hinside (fun htried => (refused_createTried o).trans htried) (refused_stage o).1
    (refused_stage o).2

theorem Neat.failing (h : Neat w l o cleanedUp) {e : Exn} (hstep : o.failing e = some o') :
    Neat w l o' cleanedUp := by
  unfold LockObject.failing at hstep
  split at hstep
  · next hstage =>
    split at hstep <;> cases hstep
    exact h.raised (by rw [hstage]; nofun) e
  · next hstage =>
    split at hstep <;> cases hstep
    exact h.raised (by rw [hstage]; nofun) e
  · next hstage =>
    cases hstep
    exact h.raised (by rw [hstage]; nofun) e
  · next hstage =>
    split at hstep <;> cases hstep
    exact h.raised (by rw [hstage]; nofun) e
  · next hstage =>
    cases hstep
    have hinside : o.stage ≠ .absent := by rw [hstage]; nofun
    split <;> exact h.goOn hinside id nofun nofun
  · next hstage =>
    cases hstep
    have hinside : o.stage ≠ .absent := by rw [hstage]; nofun
    split <;> exact h.goOn hinside id nofun nofun
  · cases hstep

@[simp] theorem releaser_createTried (i : Nat) (next : Option Releasing) (o : LockObject) :
    (o.releaser i next).createTried = o.createTried := by
  cases next <;> rfl

/-- Once tried, for ever tried. -/
theorem createTried_of_step {decimal : CodePoint → Bool} {c : LockConfig} {act : Act}
    (h : o.step decimal c act = some o') (htried : o.createTried = true) :
    o'.createTried = true := by
  cases act <;> simp only [LockObject.step, LockObject.failing] at h <;>
    (repeat' split at h) <;> cases h <;> first
      | exact htried
      | rfl
      | simp [htried]

theorem Neat.releasing (h : Neat w l o cleanedUp) (i : Nat) (next : Option Releasing) :
    Neat w l (o.releaser i next) cleanedUp :=
  h.aside (releaser_stage i next o) (releaser_createTried i next o)

theorem Neat.enter (h : Neat w l o cleanedUp) {blocking timed ephemeral : Bool}
    (hstep : o.step L.decimal (L.config l) (.enter blocking timed ephemeral) = some o') :
    Neat w l o' false := by
  obtain ⟨-, rfl⟩ := (Option.ite_none_right_eq_some.mp hstep).imp id Option.some.inj
  exact ⟨h.alone, h.tried, nofun, nofun, nofun⟩

/-- The cleanup has read the children, or trusts the node that it has stored. -/
theorem Neat.clean (h : Neat w l o cleanedUp) {children : List PyStr}
    (hreads : o.node = none → w.Reads l children)
    (htrusts : ∀ node, o.node = some node →
      ∀ number, w.HasNode l number → (L.config l).nodeName number = node)
    (hstep : o.step L.decimal (L.config l) (.clean children) = some o') :
    Neat w l o' (o'.stage = .absent) := by
  cases steps_of_step hstep with
  | @clean _ _ node _ hnode =>
    refine ⟨h.alone, h.tried, by simp, fun raising' node' hdeleting number hnumber => ?_, by simp⟩
    cases hdeleting
    rcases Option.or_eq_some_iff.mp hnode with hstored | ⟨hnone, hfound⟩
    · exact htrusts node hstored number hnumber
    · obtain ⟨number', hnumber', rfl⟩ := (findNode_of_reads (hreads hnone)).2 node hfound
      rw [h.alone number number' hnumber hnumber']
  | cleanNothing _ hnothing =>
    obtain ⟨hnone, hfound⟩ := Option.or_eq_none_iff.mp hnothing
    exact ⟨h.alone, h.tried, by rintro ⟨⟩, by rintro _ _ ⟨⟩,
      fun _ => ⟨rfl, (findNode_of_reads (hreads hnone)).1 hfound⟩⟩

/-- A step of a thread in which the server changes nothing. -/
theorem Neat.step (h : Neat w l o cleanedUp) {act : Act}
    (hfind : ∀ children, act = .find children → o.createTried = true → w.Reads l children)
    (henter : ∀ blocking timed ephemeral, act ≠ .enter blocking timed ephemeral)
    (hclean : ∀ children, act ≠ .clean children)
    (hstep : o.step L.decimal (L.config l) act = some o') : Neat w l o' cleanedUp := by
  cases steps_of_step hstep with
  | enter => exact absurd rfl (henter _ _ _)
  | clean | cleanNothing => exact absurd rfl (hclean _)
  | look hstage | attempt hstage | ensure hstage | findOwn hstage | store hstage | contend hstage
  | compareFirst hstage | wake hstage | again hstage | mark hstage =>
    exact h.goOn (by rw [hstage]; rintro ⟨⟩) id (by simp) (by simp)
  | cancelled hstage | compareRaised hstage | timeOut hstage =>
    exact h.raised (by rw [hstage]; rintro ⟨⟩) _
  | giveUp hstage => exact h.refused (by rw [hstage]; rintro ⟨⟩)
  | attemptHeld hstage =>
    have hinside : o.stage ≠ .absent := by rw [hstage]; rintro ⟨⟩
    split
    · exact h.raised hinside _
    · exact h.refused hinside
  | findNone hstage htried hnone =>
    have hinside : o.stage ≠ .absent := by rw [hstage]; rintro ⟨⟩
    -- the children are as they are, and hold no node of the lock object
    have hno := (findNode_of_reads (hfind _ rfl htried)).1 hnone
    exact ⟨h.alone, h.tried, fun _ => ⟨htried, hno⟩, by simp,
      fun hcleaned => absurd (h.cleanedUp hcleaned).1 hinside⟩
  | findFirst hstage htried =>
    have hinside : o.stage ≠ .absent := by rw [hstage]; rintro ⟨⟩
    have hno : ∀ n, ¬ w.HasNode l n := fun n hn =>
      absurd (htried.symm.trans (h.tried n hn)) Bool.false_ne_true
    exact ⟨h.alone, fun _ _ => rfl, fun _ => ⟨rfl, hno⟩, by simp,
      fun hcleaned => absurd (h.cleanedUp hcleaned).1 hinside⟩
  | compareBehind hstage =>
    have hinside : o.stage ≠ .absent := by rw [hstage]; rintro ⟨⟩
    split
    · exact h.goOn hinside id (by simp) (by simp)
    · exact h.refused hinside
  | @watch found node hstage =>
    have hinside : o.stage ≠ .absent := by rw [hstage]; rintro ⟨⟩
    cases found <;> exact h.goOn hinside id (by simp) (by simp)
  | fail hfails => exact h.failing hfails
  | release | cancel => exact h.aside rfl rfl
  | test | read | releaseFail => exact h.releasing _ _
  | unmark | clear => exact h.aside (releaser_stage _ _ o) (releaser_createTried _ _ o)

end LockObject

/-! ## All lock objects together -/

namespace Attempts

variable {s : Attempts L}

structure Neat (s : Attempts L) : Prop where
  locks : ∀ l, LockObject.Neat s.world l (s.world.locks l) (s.cleanedUp l)
  late : ∀ l owner, (l, owner) ∈ s.world.late → (s.world.locks l).createTried = true

theorem neat_new : (new : Attempts L).Neat :=
  ⟨fun _ => LockObject.neat_new, nofun⟩

variable [DecidableEq ι]

/-- The lock object `l` has changed, and the others have lost nodes, if anything. -/
theorem Neat.update (h : s.Neat) {world : World L} {l : ι} {o : LockObject} {cleanedUp : Bool}
    (hlocks : world.locks = s.world.locks)
    (hfewer : ∀ l', l' ≠ l → ∀ n, world.HasNode l' n → s.world.HasNode l' n)
    (ho : LockObject.Neat world l o cleanedUp)
    (hlate : ∀ l' owner, (l', owner) ∈ world.late → (l', owner) ∈ s.world.late)
    (htried : (s.world.locks l).createTried = true → o.createTried = true) :
    Neat ⟨world.setLock l o, Function.update s.cleanedUp l cleanedUp⟩ := by
  constructor
  · intro l'
    show LockObject.Neat (world.setLock l o) l' (Function.update world.locks l o l')
      (Function.update s.cleanedUp l cleanedUp l')
    by_cases hl : l' = l
    · subst hl
      rw [Function.update_self, Function.update_self]
      exact ho.fewer fun _ => id
    · rw [Function.update_of_ne hl, Function.update_of_ne hl, hlocks]
      exact (h.locks l').fewer (hfewer l' hl)
  · intro l' owner hmem
    show (Function.update world.locks l o l').createTried = true
    have hold := h.late l' owner (hlate l' owner hmem)
    by_cases hl : l' = l
    · subst hl
      rw [Function.update_self]
      exact htried hold
    · rw [Function.update_of_ne hl, hlocks]
      exact hold

/-- The history does not change. -/
theorem Neat.goOn (h : s.Neat) {world : World L} {l : ι} {o : LockObject}
    (hlocks : world.locks = s.world.locks)
    (hfewer : ∀ l', l' ≠ l → ∀ n, world.HasNode l' n → s.world.HasNode l' n)
    (ho : LockObject.Neat world l o (s.cleanedUp l))
    (hlate : ∀ l' owner, (l', owner) ∈ world.late → (l', owner) ∈ s.world.late)
    (htried : (s.world.locks l).createTried = true → o.createTried = true) :
    Neat ⟨world.setLock l o, s.cleanedUp⟩ := by
  have hupdate := h.update hlocks hfewer ho hlate htried
  rw [Function.update_eq_self] at hupdate
  exact hupdate

omit [DecidableEq ι] in
/-- Only the server has changed. -/
theorem Neat.server (h : s.Neat) {world : World L} (hlocks : world.locks = s.world.locks)
    (hfewer : ∀ l n, world.HasNode l n → s.world.HasNode l n)
    (hlate : ∀ l owner, (l, owner) ∈ world.late → (l, owner) ∈ s.world.late) :
    Neat ⟨world, s.cleanedUp⟩ where
  locks := fun l => by
    show LockObject.Neat world l (world.locks l) (s.cleanedUp l)
    rw [hlocks]
    exact (h.locks l).fewer (hfewer l)
  late := fun l owner hmem => by
    show (world.locks l).createTried = true
    rw [hlocks]
    exact h.late l owner (hlate l owner hmem)

omit [DecidableEq ι] in
theorem hasNode_delete {w : World L} {name : PyStr} {l : ι} {number : Nat}
    (h : (w.delete name).HasNode l number) :
    w.HasNode l number ∧ (L.config l).nodeName number ≠ name := by
  obtain ⟨owner, hmem⟩ := h
  obtain ⟨hmem, hne⟩ := List.mem_filter.mp hmem
  exact ⟨⟨owner, hmem⟩, of_decide_eq_true hne⟩

/-- A step of a thread. -/
theorem Neat.thread (h : s.Neat) {l : ι} {act : LockObject.Act} {o : LockObject}
    (hok : s.Careful (.thread l act))
    (hstep : (s.world.locks l).step L.decimal (L.config l) act = some o) :
    Neat ⟨s.world.setLock l o, s.after (.thread l act) (s.world.setLock l o)⟩ := by
  have htried := LockObject.createTried_of_step hstep
  have hlock := h.locks l
  by_cases henter : ∃ blocking timed ephemeral, act = .enter blocking timed ephemeral
  · obtain ⟨blocking, timed, ephemeral, rfl⟩ := henter
    exact h.update rfl (fun _ _ _ => id) (hlock.enter hstep) (fun _ _ => id) htried
  by_cases hclean : ∃ children, act = .clean children
  · obtain ⟨children, rfl⟩ := hclean
    have hneat := hlock.clean (fun hnone => by rwa [Careful, hnone] at hok)
      (fun node hnode number hnumber => by
        rw [Careful, hnode] at hok
        exact hok _ hnumber.mem_names ((L.config l).lockPrefix_nodeName number)) hstep
    rw [after, World.setLock_locks_self]
    exact h.update rfl (fun _ _ _ => id) hneat (fun _ _ => id) htried
  · have hneat := hlock.step (fun children heq => by subst heq; exact hok)
      (fun blocking timed ephemeral heq => henter ⟨blocking, timed, ephemeral, heq⟩)
      (fun children heq => hclean ⟨children, heq⟩) hstep
    have hafter : s.after (.thread l act) (s.world.setLock l o) = s.cleanedUp := by
      cases act with
      | enter blocking timed ephemeral => exact absurd ⟨_, _, _, rfl⟩ henter
      | clean children => exact absurd ⟨_, rfl⟩ hclean
      | _ => rfl
    rw [hafter]
    exact h.goOn rfl (fun _ _ _ => id) hneat (fun _ _ => id) htried

omit [DecidableEq ι] in
theorem hasNode_create {w : World L} {l l' : ι} {number n : Nat} {owner : Option SessionId}
    (h : (w.create l number owner).HasNode l' n) : l' = l ∧ n = number ∨ w.HasNode l' n := by
  obtain ⟨owner', hmem⟩ := h
  rcases List.mem_cons.mp hmem with heq | hmem
  · cases heq
    exact .inl ⟨rfl, rfl⟩
  · exact .inr ⟨owner', hmem⟩

theorem Neat.step (h : s.Neat) {act : LockAct L} {world : World L} (hok : s.Careful act)
    (hstep : s.world.step act = some world) : Neat ⟨world, s.after act world⟩ := by
  cases World.steps_of_step hstep with
  | thread _ ho => exact h.thread hok ho
  | @create l _ hstage =>
    obtain ⟨htried, hno⟩ := (h.locks l).creating hstage
    have hinside : (s.world.locks l).stage ≠ .absent := by rw [hstage]; rintro ⟨⟩
    refine h.goOn rfl (fun l' hl n hn => (hasNode_create hn).resolve_left fun heq => hl heq.1)
      ⟨fun n n' hn hn' => ?_, fun _ _ => htried, by simp, by simp,
        fun hcleaned => ?_⟩ (fun _ _ => id) id
    · have hn := (hasNode_create hn).resolve_right (hno n)
      have hn' := (hasNode_create hn').resolve_right (hno n')
      rw [hn.2, hn'.2]
    · exact absurd ((h.locks l).cleanedUp hcleaned).1 hinside
  | @createFail l e hstage =>
    have htried := ((h.locks l).creating hstage).1
    have hinside : (s.world.locks l).stage ≠ .absent := by rw [hstage]; rintro ⟨⟩
    have hnext := h.goOn rfl (fun _ _ _ => id) ((h.locks l).raised hinside e) (fun _ _ => id)
      fun htried => (LockObject.raised_createTried e _).trans htried
    refine ⟨fun l' => (hnext.locks l').fewer fun _ => id, fun l' owner hmem => ?_⟩
    rcases List.mem_append.mp hmem with hmem | hmem
    · exact hnext.late l' owner hmem
    · cases List.mem_singleton.mp hmem
      show ((s.world.setLock l _).locks l).createTried = true
      rw [World.setLock_locks_self, LockObject.raised_createTried, htried]
  | @clean l raising node hstage =>
    -- the node that the cleanup has chosen is the only one
    have hgone : ∀ n, ¬ (s.world.delete node).HasNode l n := fun n hn =>
      (hasNode_delete hn).2 ((h.locks l).deleting raising node hstage n (hasNode_delete hn).1)
    exact h.update rfl (fun _ _ _ hn => (hasNode_delete hn).1)
      ⟨fun n n' hn => absurd hn (hgone n), fun n hn => absurd hn (hgone n), by rintro ⟨⟩,
        by rintro _ _ ⟨⟩,
        fun _ => ⟨rfl, hgone⟩⟩ (fun _ _ => id) id
  | @delete l i =>
    exact h.goOn rfl (fun _ _ _ hn => (hasNode_delete hn).1)
      (((h.locks l).releasing i _).fewer fun _ hn => (hasNode_delete hn).1) (fun _ _ => id)
      (fun htried => (LockObject.releaser_createTried i _ _).trans htried)
  | @createLate i number l owner hlate =>
    rw [Careful, hlate] at hok
    obtain ⟨hnone, hnot, hunread⟩ := hok
    have hno := World.noChild_iff.mp hnone
    have htried := h.late l owner (List.mem_of_getElem? hlate)
    constructor
    · intro l'
      by_cases hl : l' = l
      · subst hl
        refine ⟨fun n n' hn hn' => ?_, fun _ _ => htried, fun hstage => ?_,
          fun raising node hstage => ?_, fun hcleaned => ?_⟩
        · have hn := (hasNode_create hn).resolve_right (hno n)
          have hn' := (hasNode_create hn').resolve_right (hno n')
          rw [hn.2, hn'.2]
        · rw [show (s.world.locks l').stage = _ from hstage] at hunread
          exact hunread.elim
        · rw [show (s.world.locks l').stage = _ from hstage] at hunread
          exact hunread.elim
        · exact absurd (hnot.symm.trans hcleaned) (by simp)
      · exact (h.locks l').fewer fun n hn =>
          (hasNode_create hn).resolve_left fun heq => hl heq.1
    · intro l' owner' hmem
      exact h.late l' owner' (List.mem_of_mem_eraseIdx hmem)
  | vanish => exact h.server rfl (fun _ _ hn => (hasNode_delete hn).1) fun _ _ => id
  | appear =>
    refine h.server rfl (fun l n hn => ?_) fun _ _ => id
    obtain ⟨owner, hmem⟩ := hn
    exact ⟨owner, (List.mem_cons.mp hmem).resolve_left (by simp)⟩
  | expire =>
    refine h.server rfl (fun l n hn => ?_) fun _ _ => id
    obtain ⟨owner, hmem⟩ := hn
    exact ⟨owner, (List.mem_filter.mp hmem).1⟩

theorem neat_of_reach (h : (attempts L).Reach Careful s) : s.Neat := by
  refine h.invariant neat_new fun s act _ hs hen hok => ?_
  obtain ⟨world, hworld⟩ := Option.isSome_iff_exists.mp hen
  show Neat (match s.world.step act with
    | some world => ⟨world, s.after act world⟩
    | none => s)
  rw [hworld]
  exact hs.step hok hworld

/-- No lock object whose failed `acquire` has been cleaned up has a child left. -/
def NoneLeft (s : Attempts L) : Prop := ∀ l, s.cleanedUp l = true → s.world.NoChild l

/-- A call of `acquire`, up to the answer to `client.create`. -/
def callingAcquire (children : List PyStr) : List (LockAct World.writerAndReader) :=
  [.thread true (.enter true true true), .thread true .look, .thread true .attempt,
    .thread true .ensure, .thread true (.find children)]

/-- `cancel` is called before `acquire`, which cleans up its node. -/
def cancelledAcquire : List (LockAct World.writerAndReader) :=
  [.thread true .cancel] ++ callingAcquire [] ++
    [.create true 0, .thread true .store, .thread true .contend,
      .thread true (.clean [(World.writerAndReader.config true).nodeName 0]), .clean true]

/-- The next `acquire` gives up after a create that has been carried out without an answer: its
cleanup deletes the node of the first once more. -/
def lostCreate : List (LockAct World.writerAndReader) :=
  cancelledAcquire ++ callingAcquire [] ++
    [.createFail true .connectionLoss, .createLate 0 1, .thread true .giveUp,
      .thread true (.clean [(World.writerAndReader.config true).nodeName 1]), .clean true]

end Attempts

end Kazoo
