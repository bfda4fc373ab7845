import Kazoo.Recipe.Lock

/-!
# Exclusion

A lock object that has looked at a list with its own node has seen every node numbered before it
that is still there, however old the list is: numbers only grow, and no node comes back.
-/

namespace Kazoo

variable {ι : Type} {L : Locks ι}

/-! ## Whose node a name is -/

namespace Locks

theorem eq_of_lockPrefix {l l' : ι} {number : Nat}
    (h : (L.config l).lockPrefix <+: (L.config l').nodeName number) : l' = l :=
  L.uuid_injective (LockConfig.uuid_of_lockPrefix h)

theorem nodeName_injective {l l' : ι} {n n' : Nat} (hn : n < sequenceLimit) (hn' : n' < sequenceLimit)
    (h : (L.config l).nodeName n = (L.config l').nodeName n') : l = l' ∧ n = n' := by
  have hpre : (L.config l').lockPrefix <+: (L.config l).nodeName n := by
    rw [h]
    exact LockConfig.lockPrefix_nodeName _ _
  obtain rfl := eq_of_lockPrefix hpre
  exact ⟨rfl, sequenceText_injective hn hn' (List.append_cancel_left h)⟩

theorem nodeName_mem_excludeNames {kind kind' : LockKind} (h : kind ≠ .readLock)
    (hfamily : kind = .lock ↔ kind' = .lock) :
    NODE_NAME kind' ∈ EXCLUDE_NAMES kind ∧ NODE_NAME kind ∈ EXCLUDE_NAMES kind' := by
  revert h hfamily
  cases kind <;> cases kind' <;> decide

/-- Unless both are read locks, each of two lock objects waits for the nodes of the other. -/
theorem excludes {l : ι} (h : (L.config l).kind ≠ .readLock) (l' : ι) :
    NODE_NAME (L.config l').kind ∈ (L.config l).excludeNames ∧
      NODE_NAME (L.config l).kind ∈ (L.config l').excludeNames := by
  have hfamily : (L.config l).kind = .lock ↔ (L.config l').kind = .lock := by
    rcases L.oneFamily with hlock | hlock
    · exact iff_of_true (hlock l) (hlock l')
    · exact iff_of_false (hlock l) (hlock l')
  obtain ⟨hl, hl'⟩ := nodeName_mem_excludeNames h hfamily
  exact ⟨(LockConfig.mem_excludeNames _ _).mpr (.inl hl),
    (LockConfig.mem_excludeNames _ _).mpr (.inl hl')⟩

end Locks

namespace World

variable {w w' : World L} {l l' : ι}

/-! ## The server -/

structure Numbered (w : World L) : Prop where
  current : w.nodes ∈ w.history
  bound : w.next ≤ sequenceLimit
  fresh : ∀ nodes ∈ w.history, ∀ l n owner, Znode.contender l n owner ∈ nodes → n < w.next
  persist : ∀ nodes ∈ w.history, ∀ l n owner l' n' owner', Znode.contender l n owner ∈ w.nodes →
    Znode.contender l' n' owner' ∈ nodes → n < n' → Znode.contender l n owner ∈ nodes
  unique : ∀ l l' n owner owner', Znode.contender l n owner ∈ w.nodes →
    Znode.contender l' n owner' ∈ w.nodes → l = l'

/-- New contenders have new numbers. -/
structure Grows (w w' : World L) : Prop where
  next : w.next ≤ w'.next
  nodes : ∀ l n owner, Znode.contender l n owner ∈ w'.nodes →
    Znode.contender l n owner ∈ w.nodes ∨ w.next ≤ n

theorem Numbered.setNodes (hw : w.Numbered) {nodes : List (Znode L)}
    (h : ∀ l n owner, Znode.contender l n owner ∈ nodes → Znode.contender l n owner ∈ w.nodes) :
    (w.setNodes nodes).Numbered := by
  refine ⟨List.mem_cons_self, hw.bound, fun nodes' hnodes' l n owner hmem => ?_,
    fun nodes' hnodes' l n owner l' n' owner' hmem hmem' hlt => ?_,
    fun l l' n owner owner' hmem hmem' =>
      hw.unique l l' n owner owner' (h _ _ _ hmem) (h _ _ _ hmem')⟩
  · rcases List.mem_cons.mp hnodes' with rfl | hnodes'
    · exact hw.fresh _ hw.current l n owner (h _ _ _ hmem)
    · exact hw.fresh nodes' hnodes' l n owner hmem
  · rcases List.mem_cons.mp hnodes' with rfl | hnodes'
    · exact hmem
    · exact hw.persist nodes' hnodes' l n owner l' n' owner' (h _ _ _ hmem) hmem' hlt

theorem Grows.setNodes {nodes : List (Znode L)}
    (h : ∀ l n owner, Znode.contender l n owner ∈ nodes → Znode.contender l n owner ∈ w.nodes) :
    Grows w (w.setNodes nodes) :=
  ⟨Nat.le_refl _, fun l n owner hmem => .inl (h l n owner hmem)⟩

theorem Numbered.delete (hw : w.Numbered) (name : PyStr) : (w.delete name).Numbered :=
  hw.setNodes fun _ _ _ h => (List.mem_filter.mp h).1

theorem Grows.delete (name : PyStr) : Grows w (w.delete name) :=
  .setNodes fun _ _ _ h => (List.mem_filter.mp h).1

theorem Numbered.create (hw : w.Numbered) {number : Nat} (hfits : w.Fits number) (l : ι)
    (owner : Option SessionId) : (w.create l number owner).Numbered := by
  have hfresh := hw.fresh w.nodes hw.current
  refine ⟨List.mem_cons_self, hfits.2, fun nodes hnodes l' n owner' hmem => ?_,
    fun nodes hnodes l' n owner' l'' n' owner'' hmem hmem' hlt => ?_,
    fun l' l'' n owner' owner'' hmem hmem' => ?_⟩
  · show n < number + 1
    have hnumber := hfits.1
    rcases List.mem_cons.mp hnodes with rfl | hnodes
    · rcases List.mem_cons.mp hmem with heq | hmem
      · cases heq; omega
      · have := hfresh l' n owner' hmem; omega
    · have := hw.fresh nodes hnodes l' n owner' hmem; omega
  · rcases List.mem_cons.mp hnodes with rfl | hnodes
    · exact hmem
    · -- an old list has no number as great as the new one
      have hold := hw.fresh nodes hnodes l'' n' owner'' hmem'
      have hnumber := hfits.1
      rcases List.mem_cons.mp hmem with heq | hmem
      · cases heq; omega
      · exact hw.persist nodes hnodes l' n owner' l'' n' owner'' hmem hmem' hlt
  · have hnumber := hfits.1
    rcases List.mem_cons.mp hmem with heq | hmem <;>
      rcases List.mem_cons.mp hmem' with heq' | hmem'
    · cases heq; cases heq'; rfl
    · cases heq; have := hfresh l'' number owner'' hmem'; omega
    · cases heq'; have := hfresh l' number owner' hmem; omega
    · exact hw.unique l' l'' n owner' owner'' hmem hmem'

theorem Grows.create {number : Nat} (hfits : w.Fits number) (l : ι) (owner : Option SessionId) :
    Grows w (w.create l number owner) := by
  refine ⟨Nat.le_succ_of_le hfits.1, fun l' n owner' hmem => ?_⟩
  rcases List.mem_cons.mp hmem with heq | hmem
  · cases heq; exact .inr hfits.1
  · exact .inl hmem

/-! ## What a lock object knows of its node -/

def Owns (w : World L) (l : ι) (node : PyStr) : Prop :=
  ∃ number < w.next, node = (L.config l).nodeName number

/-- The node of `l` with this number has no contender before it. -/
def First (w : World L) (l : ι) (number : Nat) : Prop :=
  ∀ l' n owner, Znode.contender l' n owner ∈ w.nodes → n < number →
    NODE_NAME (L.config l').kind ∉ (L.config l).excludeNames

def Cleared (w : World L) (l : ι) (node : PyStr) : Prop :=
  ∃ number < w.next, node = (L.config l).nodeName number ∧ w.First l number

theorem Owns.mono {node : PyStr} (h : w.Owns l node) (hg : Grows w w') : w'.Owns l node := by
  obtain ⟨number, hlt, rfl⟩ := h
  exact ⟨number, Nat.lt_of_lt_of_le hlt hg.next, rfl⟩

/-- Nobody gets in front of a node. -/
theorem Cleared.mono {node : PyStr} (h : w.Cleared l node) (hg : Grows w w') : w'.Cleared l node := by
  obtain ⟨number, hlt, rfl, hfirst⟩ := h
  refine ⟨number, Nat.lt_of_lt_of_le hlt hg.next, rfl, fun l' n owner hmem hn => ?_⟩
  rcases hg.nodes l' n owner hmem with hmem | hnew
  · exact hfirst l' n owner hmem hn
  · omega

theorem Numbered.owns_of_findNode (hw : w.Numbered) {children : List PyStr} {node : PyStr}
    (hlists : w.Lists children) (h : (L.config l).findNode children = some node) :
    w.Owns l node := by
  obtain ⟨hmem, hpre⟩ := LockConfig.findNode_eq_some h
  obtain ⟨nodes, hnodes, hperm⟩ := hlists
  obtain ⟨x, hx, rfl⟩ := List.mem_map.mp (hperm.subset hmem)
  cases x with
  | contender l' n owner =>
    obtain rfl := Locks.eq_of_lockPrefix hpre
    exact ⟨n, hw.fresh nodes hnodes l' n owner hx, rfl⟩
  | other child => exact absurd hpre (child.foreign l)

/-- However old the list of children is, if it has the node then it has every contender before it
that is still there. -/
theorem Numbered.cleared_of_getPredecessor (hw : w.Numbered) {children : List PyStr} {node : PyStr}
    (hlists : w.Lists children) (howns : w.Owns l node)
    (h : (L.config l).getPredecessor L.decimal node children = .ok none) : w.Cleared l node := by
  obtain ⟨number, hnumber, rfl⟩ := howns
  obtain ⟨hself, hnone⟩ := LockConfig.getPredecessor_eq_none h
  rw [LockConfig.drop_nodeName] at hnone
  obtain ⟨nodes, hnodes, hperm⟩ := hlists
  have hlimit := hw.bound
  refine ⟨number, hnumber, rfl, fun l' n owner hmem hn hexcludes => ?_⟩
  obtain ⟨x, hx, hname⟩ := List.mem_map.mp (hperm.subset hself)
  cases x with
  | other child =>
    have hpre := (L.config l).lockPrefix_nodeName number
    rw [← hname] at hpre
    exact child.foreign l hpre
  | contender l'' n' owner' =>
    have hn' := hw.fresh nodes hnodes l'' n' owner' hx
    obtain ⟨rfl, rfl⟩ := Locks.nodeName_injective (Nat.lt_of_lt_of_le hn' hlimit)
      (Nat.lt_of_lt_of_le hnumber hlimit) hname
    have hthere := hw.persist nodes hnodes l' n owner l'' n' owner' hmem hx hn
    have hchild : (L.config l').nodeName n ∈ children :=
      hperm.symm.subset (List.mem_map_of_mem hthere)
    have hnlimit : n < sequenceLimit := by omega
    exact hnone _ hchild _ (contendersSearch_nodeName L.decimal_ascii hnlimit hexcludes)
      (sequenceText_lt hn (by omega))

end World

/-! ## The lock objects -/

namespace Stage

/-- `_inner_acquire` has found that the lock object is not acquired. -/
def Trying : Stage → Prop
  | .ensuring | .finding | .creating | .named _ | .contending _ | .comparing _ | .watching _
  | .waiting _ | .gotten _ => True
  | _ => False

/-- The local variable `node` of `_inner_acquire`. -/
def node? : Stage → Option PyStr
  | .named node | .contending node | .comparing node | .watching node | .waiting node
  | .gotten node => some node
  | _ => none

/-- What `_inner_acquire` has stored in `self.node`. -/
def stored? : Stage → Option PyStr
  | .contending node | .comparing node | .watching node | .waiting node | .gotten node => some node
  | _ => none

theorem trying_of_stored {stage : Stage} {node : PyStr} (h : stage.stored? = some node) :
    stage.Trying ∧ stage.node? = some node := by
  revert h
  cases stage <;> simp [stored?, Trying, node?]

theorem node?_of_not_trying {stage : Stage} (h : ¬ stage.Trying) : stage.node? = none := by
  revert h
  cases stage <;> simp [Trying, node?]

theorem stored?_of_not_trying {stage : Stage} (h : ¬ stage.Trying) : stage.stored? = none := by
  revert h
  cases stage <;> simp [Trying, stored?]

end Stage

namespace LockObject

open World

structure Sound (w : World L) (l : ι) (o : LockObject) : Prop where
  unmarked : o.stage.Trying → o.isAcquired = false
  owns : ∀ node, o.stage.node? = some node → w.Owns l node
  stored : ∀ node, o.stage.stored? = some node → ∀ n, o.node = some n → n = node
  gotten : ∀ node, o.stage = .gotten node → w.Cleared l node
  acquired : o.isAcquired = true →
    ∃ node, o.acquiredWith = some node ∧ w.Cleared l node ∧ ∀ n, o.node = some n → n = node

variable {w w' : World L} {l : ι} {o o' : LockObject}

theorem sound_new : Sound w l new :=
  ⟨fun h => h.elim, nofun, nofun, nofun, nofun⟩

theorem Sound.mono (hs : Sound w l o) (hg : Grows w w') : Sound w' l o := by
  refine ⟨hs.unmarked, fun node h => (hs.owns node h).mono hg, hs.stored,
    fun node h => (hs.gotten node h).mono hg, fun h => ?_⟩
  obtain ⟨node, hwith, hcleared, hnode⟩ := hs.acquired h
  exact ⟨node, hwith, hcleared.mono hg, hnode⟩

/-- The thread inside `acquire` is not trying, and touches neither the mark nor the node. -/
theorem Sound.aside (hs : Sound w l o) (hstage : ¬ o'.stage.Trying)
    (hacquired : o'.isAcquired = o.isAcquired) (hnode : o'.node = o.node)
    (hwith : o'.acquiredWith = o.acquiredWith) : Sound w l o' := by
  refine ⟨fun h => absurd h hstage, fun node h => ?_, fun node h => ?_, fun node h => ?_, ?_⟩
  · rw [Stage.node?_of_not_trying hstage] at h; cases h
  · rw [Stage.stored?_of_not_trying hstage] at h; cases h
  · rw [h] at hstage; exact absurd trivial hstage
  · rw [hacquired, hnode, hwith]
    exact hs.acquired

theorem raised_frame (e : Exn) (o : LockObject) :
    ∃ stage, ¬ stage.Trying ∧ o.raised e = { o with stage := stage } := by
  unfold raised
  split
  · exact ⟨.sleeping, id, rfl⟩
  · split
    · exact ⟨.cleaning true, id, rfl⟩
    · exact ⟨.absent, id, rfl⟩

theorem refused_frame (o : LockObject) :
    ∃ stage, ¬ stage.Trying ∧ o.refused = { o with stage := stage } := by
  unfold refused
  split
  · exact ⟨.absent, id, rfl⟩
  · exact ⟨.cleaning false, id, rfl⟩

theorem Sound.raised (hs : Sound w l o) (e : Exn) : Sound w l (o.raised e) := by
  obtain ⟨stage, hstage, h⟩ := raised_frame e o
  rw [h]
  exact hs.aside hstage rfl rfl rfl

theorem Sound.refused (hs : Sound w l o) : Sound w l o.refused := by
  obtain ⟨stage, hstage, h⟩ := refused_frame o
  rw [h]
  exact hs.aside hstage rfl rfl rfl

theorem Sound.cleaned (hs : Sound w l o) (raising : Bool) : Sound w l (o.cleaned raising) :=
  hs.aside id rfl rfl rfl

/-- A thread inside `release` can only take the mark and the node away. -/
theorem Sound.releaser (hs : Sound w l o) (hstage : o'.stage = o.stage)
    (hacquired : o'.isAcquired = true → o.isAcquired = true)
    (hnode : o'.node = o.node ∨ o'.node = none) (hwith : o'.acquiredWith = o.acquiredWith) :
    Sound w l o' := by
  have hsub : ∀ n, o'.node = some n → o.node = some n := fun n h => by
    rcases hnode with heq | heq
    · rwa [← heq]
    · rw [heq] at h; cases h
  refine ⟨fun h => ?_, fun node h => hs.owns node (hstage ▸ h),
    fun node h n hn => hs.stored node (hstage ▸ h) n (hsub n hn),
    fun node h => hs.gotten node (hstage ▸ h), fun h => ?_⟩
  · have hfalse := hs.unmarked (hstage ▸ h)
    by_contra hne
    rw [hacquired (by simpa using hne)] at hfalse
    cases hfalse
  · obtain ⟨node, hold, hcleared, hn⟩ := hs.acquired (hacquired h)
    exact ⟨node, hwith.trans hold, hcleared, fun n h => hn n (hsub n h)⟩

@[simp] theorem releaser_stage (i : Nat) (next : Option Releasing) (o : LockObject) :
    (o.releaser i next).stage = o.stage := by
  cases next <;> rfl

@[simp] theorem releaser_isAcquired (i : Nat) (next : Option Releasing) (o : LockObject) :
    (o.releaser i next).isAcquired = o.isAcquired := by
  cases next <;> rfl

@[simp] theorem releaser_node (i : Nat) (next : Option Releasing) (o : LockObject) :
    (o.releaser i next).node = o.node := by
  cases next <;> rfl

@[simp] theorem releaser_acquiredWith (i : Nat) (next : Option Releasing) (o : LockObject) :
    (o.releaser i next).acquiredWith = o.acquiredWith := by
  cases next <;> rfl

theorem Sound.releasing (hs : Sound w l o) (i : Nat) (next : Option Releasing) :
    Sound w l (o.releaser i next) := by
  refine hs.releaser ?_ ?_ (.inl ?_) ?_ <;> simp

/-- The thread inside `acquire` keeps its node from one place in the loop to another. -/
theorem Sound.goOn (hs : Sound w l o) {stage : Stage} {node : PyStr} (h : o.stage.stored? = some node)
    (hstage : stage.stored? = some node) (hgotten : ∀ n, stage ≠ .gotten n) :
    Sound w l { o with stage := stage } := by
  obtain ⟨htrying, hnode⟩ := Stage.trying_of_stored h
  obtain ⟨-, hnode'⟩ := Stage.trying_of_stored hstage
  refine ⟨fun _ => hs.unmarked htrying, fun n hn => ?_, fun n hn => ?_,
    fun n hn => absurd hn (hgotten n), hs.acquired⟩
  · obtain rfl : node = n := Option.some.inj (hnode'.symm.trans hn)
    exact hs.owns node hnode
  · obtain rfl : node = n := Option.some.inj (hstage.symm.trans hn)
    exact hs.stored node h

theorem Sound.failing (hs : Sound w l o) {e : Exn} (h : o.failing e = some o') : Sound w l o' := by
  unfold LockObject.failing at h
  split at h
  · split at h
    · cases h
    · cases h; exact hs.raised e
  · split at h
    · cases h; exact hs.raised e
    · cases h
  · cases h; exact hs.raised e
  · split at h
    · cases h
    · cases h; exact hs.raised e
  · cases h
    split
    · exact hs.cleaned _
    · exact hs.aside id rfl rfl rfl
  · cases h
    split
    · exact hs.cleaned _
    · exact hs.aside id rfl rfl rfl
  · cases h

/-- A step of a thread in which the server changes nothing. -/
theorem Sound.step (hs : Sound w l o) (hw : w.Numbered) {act : Act}
    (hlists : ∀ children, act.children? = some children → w.Lists children)
    (h : o.step L.decimal (L.config l) act = some o') : Sound w l o' := by
  cases steps_of_step h with
  | enter | look | again => exact hs.aside id rfl rfl rfl
  | attemptHeld =>
    split
    · exact hs.raised _
    · exact hs.refused
  | attempt hstage hfree =>
    exact ⟨fun _ => hfree, nofun, nofun, nofun,
      fun hheld => absurd (hfree.symm.trans hheld) Bool.false_ne_true⟩
  | ensure hstage | findNone hstage | findFirst hstage =>
    exact ⟨fun _ => hs.unmarked (by rw [hstage]; trivial), nofun, nofun, nofun, hs.acquired⟩
  | findOwn hstage _ hfind =>
    refine ⟨fun _ => hs.unmarked (by rw [hstage]; trivial), fun n hn => ?_, nofun, nofun, hs.acquired⟩
    cases hn
    exact hw.owns_of_findNode (hlists _ rfl) hfind
  | @store node hstage =>
    have hfree := hs.unmarked (by rw [hstage]; trivial)
    have howns := hs.owns node (by rw [hstage]; rfl)
    refine ⟨fun _ => hfree, fun n hn => ?_, fun n hn n' hn' => ?_, nofun, fun hacquired => ?_⟩
    · cases hn; exact howns
    · cases hn; cases hn'; rfl
    · rw [show o.isAcquired = true from hacquired] at hfree
      cases hfree
  | contend hstage | wake hstage => exact hs.goOn (by rw [hstage]; rfl) rfl nofun
  | cancelled | compareRaised | timeOut => exact hs.raised _
  | @compareFirst children node hstage hnone =>
    have hfree := hs.unmarked (by rw [hstage]; trivial)
    have howns := hs.owns node (by rw [hstage]; rfl)
    refine ⟨fun _ => hfree, fun n hn => ?_, fun n hn => ?_, fun n hn => ?_, hs.acquired⟩
    · cases hn; exact howns
    · cases hn; exact hs.stored node (by rw [hstage]; rfl)
    · cases hn
      exact hw.cleared_of_getPredecessor (hlists children rfl) howns hnone
  | compareBehind hstage =>
    split
    · exact hs.goOn (by rw [hstage]; rfl) rfl nofun
    · exact hs.refused
  | @watch found node hstage =>
    have hstored : o.stage.stored? = some node := by rw [hstage]; rfl
    refine hs.goOn hstored ?_ ?_ <;> cases found <;> simp [Stage.stored?]
  | fail hfails => exact hs.failing hfails
  | giveUp => exact hs.refused
  | @mark node hstage =>
    exact ⟨fun h => h.elim, nofun, nofun, nofun, fun _ => ⟨node, rfl, hs.gotten node hstage,
      hs.stored node (by rw [hstage]; rfl)⟩⟩
  | clean => exact hs.aside id rfl rfl rfl
  | cleanNothing => exact hs.cleaned _
  | release | cancel => exact hs.releaser rfl id (.inl rfl) rfl
  | test | read | releaseFail => exact hs.releasing _ _
  | unmark => exact hs.releaser rfl nofun (.inl rfl) rfl
  | clear => exact hs.releaser rfl id (.inr rfl) rfl

end LockObject

/-! ## All lock objects together -/

namespace World

variable {w w' : World L}

structure Sound (w : World L) : Prop where
  numbered : w.Numbered
  locks : ∀ l, LockObject.Sound w l (w.locks l)

theorem sound_new : (new : World L).Sound := by
  refine ⟨⟨List.mem_singleton_self _, Nat.zero_le _, fun nodes hnodes l n owner hmem => ?_,
    fun nodes _ l n owner l' n' owner' hmem => ?_, fun l l' n owner owner' hmem => ?_⟩,
    fun l => LockObject.sound_new⟩
  · rw [List.mem_singleton.mp hnodes] at hmem
    cases hmem
  · cases hmem
  · cases hmem

theorem Numbered.congr (hw : w.Numbered) (hnodes : w'.nodes = w.nodes) (hnext : w'.next = w.next)
    (hhistory : w'.history = w.history) : w'.Numbered := by
  obtain ⟨current, bound, fresh, persist, unique⟩ := hw
  constructor
  · rw [hnodes, hhistory]; exact current
  · rw [hnext]; exact bound
  · rw [hnext, hhistory]; exact fresh
  · rw [hnodes, hhistory]; exact persist
  · rw [hnodes]; exact unique

theorem Grows.of_eq (hnodes : w'.nodes = w.nodes) (hnext : w'.next = w.next) : Grows w w' :=
  ⟨Nat.le_of_eq hnext.symm, fun _ _ _ h => .inl (hnodes ▸ h)⟩

/-- Only the server's nodes and the lock objects matter. -/
theorem Sound.congr (hs : w.Sound) (hlocks : w'.locks = w.locks) (hnodes : w'.nodes = w.nodes)
    (hnext : w'.next = w.next) (hhistory : w'.history = w.history) : w'.Sound :=
  ⟨hs.numbered.congr hnodes hnext hhistory,
    fun l => hlocks ▸ (hs.locks l).mono (.of_eq hnodes hnext)⟩

/-- The server has changed, and no lock object. -/
theorem Sound.server (hs : w.Sound) (hw : w'.Numbered) (hg : Grows w w')
    (hlocks : w'.locks = w.locks) : w'.Sound :=
  ⟨hw, fun l => hlocks ▸ (hs.locks l).mono hg⟩

/-- The lock object says that it is acquired, and its node is on the server: the node it has stored,
or the one it was acquired with, where a late `release` has taken the first away. -/
def Holds (w : World L) (l : ι) : Prop :=
  (w.locks l).isAcquired = true ∧ ∃ node, node ∈ w.nodes.map Znode.name ∧
    ((w.locks l).node = some node ∨ (w.locks l).acquiredWith = some node)

instance (w : World L) (l : ι) : Decidable (w.Holds l) :=
  inferInstanceAs (Decidable (_ = true ∧ ∃ node, node ∈ w.nodes.map Znode.name ∧ (_ ∨ _)))

/-- A name that `l` knows as its own, and that is on the server, is that of a contender. -/
theorem Sound.contender_of_mem (hs : w.Sound) {l : ι} {number : Nat} (hnumber : number < w.next)
    (hmem : (L.config l).nodeName number ∈ w.nodes.map Znode.name) :
    ∃ owner, Znode.contender l number owner ∈ w.nodes := by
  obtain ⟨x, hx, hname⟩ := List.mem_map.mp hmem
  cases x with
  | other child =>
    have hpre := (L.config l).lockPrefix_nodeName number
    rw [← hname] at hpre
    exact absurd hpre (child.foreign l)
  | contender l' n owner =>
    have hn := hs.numbered.fresh _ hs.numbered.current l' n owner hx
    have hbound := hs.numbered.bound
    obtain ⟨rfl, rfl⟩ := Locks.nodeName_injective (Nat.lt_of_lt_of_le hn hbound)
      (Nat.lt_of_lt_of_le hnumber hbound) hname
    exact ⟨owner, hx⟩

theorem Sound.first_of_holds (hs : w.Sound) {l : ι} (h : w.Holds l) :
    ∃ number owner, Znode.contender l number owner ∈ w.nodes ∧ w.First l number := by
  obtain ⟨hacquired, node, hnode, hits⟩ := h
  obtain ⟨node', hwith, ⟨number, hnumber, rfl, hfirst⟩, hstored⟩ := (hs.locks l).acquired hacquired
  obtain rfl : node = (L.config l).nodeName number := by
    rcases hits with h | h
    · exact hstored node h
    · exact Option.some.inj (h.symm.trans hwith)
  obtain ⟨owner, hmem⟩ := hs.contender_of_mem hnumber hnode
  exact ⟨number, owner, hmem, hfirst⟩

variable [DecidableEq ι]

/-- The server has changed, and with it lock object `l`. -/
theorem Sound.update (hs : w.Sound) (hw : w'.Numbered) (hg : Grows w w')
    (hlocks : w'.locks = w.locks) {l : ι} {o : LockObject} (ho : LockObject.Sound w' l o) :
    (w'.setLock l o).Sound := by
  refine ⟨hw.congr rfl rfl rfl, fun l' => ?_⟩
  have hsame : Grows w' (w'.setLock l o) := .of_eq rfl rfl
  show LockObject.Sound (w'.setLock l o) l' (Function.update w'.locks l o l')
  by_cases hl : l' = l
  · subst hl
    rw [Function.update_self]
    exact ho.mono hsame
  · rw [Function.update_of_ne hl, hlocks]
    exact ((hs.locks l').mono hg).mono hsame

theorem Sound.step (hs : w.Sound) {act : LockAct L} (h : w.step act = some w') :
    w'.Sound := by
  have hw := hs.numbered
  cases steps_of_step h with
  | thread hlists ho => exact hs.update hw (.of_eq rfl rfl) rfl ((hs.locks _).step hw hlists ho)
  | @create l number hstage hfits =>
    have hg := Grows.create hfits l (w.owner l)
    have hold := (hs.locks l).mono hg
    have hfree := hold.unmarked (by rw [hstage]; trivial)
    refine hs.update (hw.create hfits l _) hg rfl
      ⟨fun _ => hfree, fun n hn => ?_, nofun, nofun, hold.acquired⟩
    cases hn
    exact ⟨number, Nat.lt_succ_self number, rfl⟩
  | @createFail l e =>
    have hnext := hs.update hw (.of_eq rfl rfl) rfl ((hs.locks l).raised e)
    exact hnext.congr rfl rfl rfl rfl
  | @clean l raising node =>
    exact hs.update (hw.delete node) (.delete node) rfl
      (((hs.locks l).mono (.delete node)).cleaned raising)
  | @delete l i node =>
    exact hs.update (hw.delete node) (.delete node) rfl
      (((hs.locks l).mono (.delete node)).releasing i _)
  | @createLate i number l owner _ _ hfits =>
    have hnext := hs.server (hw.create hfits l owner) (.create hfits l owner) rfl
    exact hnext.congr rfl rfl rfl rfl
  | @vanish name => exact hs.server (hw.delete name) (.delete name) rfl
  | @appear child =>
    have hmem : ∀ l n owner, Znode.contender l n owner ∈ Znode.other child :: w.nodes →
        Znode.contender l n owner ∈ w.nodes := fun l n owner h =>
      (List.mem_cons.mp h).resolve_left nofun
    exact hs.server (hw.setNodes hmem) (.setNodes hmem) rfl
  | @expire client =>
    have hmem : ∀ l n owner, Znode.contender l n owner ∈
        w.nodes.filter (fun x => x.owner ≠ some (client, w.expired client)) →
        Znode.contender l n owner ∈ w.nodes := fun l n owner h => (List.mem_filter.mp h).1
    have hnext := hs.server (hw.setNodes hmem) (.setNodes hmem) rfl
    exact hnext.congr rfl rfl rfl rfl

theorem sound_of_reachable (h : (contention L).Reachable w) : w.Sound := by
  refine h.invariant sound_new fun w act _ hs hen _ => ?_
  obtain ⟨w', hw'⟩ := Option.isSome_iff_exists.mp hen
  show Sound ((w.step act).getD w)
  rw [hw', Option.getD_some]
  exact hs.step hw'

/-! ## Exclusion -/

/-- A `Lock` or a `WriteLock` that is held is held alone. -/
theorem held_alone (h : (contention L).Reachable w) {l l' : ι} (hne : l ≠ l')
    (hexclusive : (L.config l).kind ≠ .readLock) (hheld : w.Holds l) : ¬ w.Holds l' := by
  intro hheld'
  have hs := sound_of_reachable h
  obtain ⟨n, owner, hmem, hfirst⟩ := hs.first_of_holds hheld
  obtain ⟨n', owner', hmem', hfirst'⟩ := hs.first_of_holds hheld'
  obtain ⟨hexcludes, hexcludes'⟩ := Locks.excludes hexclusive l'
  -- the one with the greater number has seen the other
  rcases Nat.lt_trichotomy n n' with hlt | rfl | hgt
  · exact hfirst' l n owner hmem hlt hexcludes'
  · exact hne (hs.numbered.unique l l' n owner owner' hmem hmem')
  · exact hfirst l' n' owner' hmem' hgt hexcludes

/-! ## Read locks together -/

theorem reachable_step (h : (contention L).Reachable w) {act : LockAct L}
    (hstep : w.step act = some w') : (contention L).Reachable w' := by
  have hnext : (contention L).post w act = w' := by
    show (w.step act).getD w = w'
    rw [hstep, Option.getD_some]
  have hen : (contention L).enabled w act := by
    show (w.step act).isSome = true
    rw [hstep, Option.isSome_some]
  rw [← hnext]
  exact .step h hen trivial

@[simp] theorem setLock_locks_self (l : ι) (o : LockObject) (w : World L) :
    (w.setLock l o).locks l = o :=
  Function.update_self ..

@[simp] theorem setLock_setLock (l : ι) (o o' : LockObject) (w : World L) :
    (w.setLock l o).setLock l o' = w.setLock l o' := by
  simp only [setLock, Function.update_idem]

theorem reachable_thread {l : ι} {o o' : LockObject} {act : LockObject.Act}
    (h : (contention L).Reachable (w.setLock l o))
    (hstep : o.step L.decimal (L.config l) act = some o')
    (hlists : ∀ children, act.children? = some children → w.Lists children) :
    (contention L).Reachable (w.setLock l o') := by
  have hthread : (w.setLock l o).step (.thread l act) = some (w.setLock l o') := by
    simp only [World.step, setLock_locks_self, hstep, Option.map_some, setLock_setLock]
    exact if_pos hlists
  exact reachable_step h hthread

/-- A step that does not list the children. -/
theorem reachable_alone {l : ι} {o o' : LockObject} {act : LockObject.Act}
    (h : (contention L).Reachable (w.setLock l o)) (hact : act.children? = none)
    (hstep : o.step L.decimal (L.config l) act = some o') :
    (contention L).Reachable (w.setLock l o') := by
  refine reachable_thread h hstep fun children heq => ?_
  rw [hact] at heq
  cases heq

/-- A read lock that finds nothing but read locks is acquired at once. -/
theorem readLock_acquires (h : (contention L).Reachable w) {l : ι}
    (hkind : (L.config l).kind = .readLock) (hextra : (L.config l).extraLockPatterns = [])
    (hnew : w.locks l = .new) {number : Nat} (hfits : w.Fits number)
    (hreaders : ∀ x ∈ w.nodes, ∃ l' n owner, x = .contender l' n owner ∧
      (L.config l').kind = .readLock) :
    ∃ w' owner, (contention L).Reachable w' ∧ w'.Holds l ∧
      w'.nodes = .contender l number owner :: w.nodes ∧ w'.next = number + 1 ∧
      ∀ l', l' ≠ l → w'.locks l' = w.locks l' := by
  have hs := sound_of_reachable h
  have hcurrent : ∀ children, some (w.nodes.map Znode.name) = some children → w.Lists children :=
    fun children heq => Option.some.inj heq ▸ ⟨w.nodes, hs.numbered.current, .refl _⟩
  let c := L.config l
  let call : Call := ⟨false, false, true, false⟩
  let creating : LockObject :=
    { LockObject.new with call := call, assuredPath := true, createTried := true, stage := .creating }
  -- up to the call of `client.create`
  have h₀ : (contention L).Reachable (w.setLock l .new) := by
    rw [← hnew, setLock, Function.update_eq_self]
    exact h
  have h₁ := reachable_alone h₀ rfl (show LockObject.new.step L.decimal c (.enter false false true) =
    some { LockObject.new with call := call, stage := .entered } from rfl)
  have h₂ := reachable_alone h₁ rfl (show LockObject.step L.decimal c _ .look =
    some { LockObject.new with call := call, stage := .attempting } from rfl)
  have h₃ := reachable_alone h₂ rfl (show LockObject.step L.decimal c _ .attempt =
    some { LockObject.new with call := call, stage := .ensuring } from rfl)
  have h₄ := reachable_alone h₃ rfl (show LockObject.step L.decimal c _ .ensure =
    some { LockObject.new with call := call, assuredPath := true, stage := .finding } from rfl)
  have h₅ := reachable_thread h₄ (show LockObject.step L.decimal c _ (.find _) = some creating
    from rfl) hcurrent
  -- the server gives the node its number
  let owner := (w.setLock l creating).owner l
  let node := c.nodeName number
  let w₁ := w.create l number owner
  have hcreate : (w.setLock l creating).step (.create l number) =
      some (w₁.setLock l { creating with stage := .named node }) := by
    have hguard : ((w.setLock l creating).locks l).stage = .creating ∧
        (w.setLock l creating).Fits number := ⟨by rw [setLock_locks_self], hfits⟩
    refine (if_pos hguard).trans (congrArg some ?_)
    rw [setLock_locks_self]
    show ((w₁.setLock l creating).setLock l _) = _
    rw [setLock_setLock]
  have h₆ := reachable_step h₅ hcreate
  have h₇ := reachable_alone h₆ rfl (show LockObject.step L.decimal c _ .store =
    some { creating with node := some node, stage := .contending node } from rfl)
  have h₈ := reachable_alone h₇ rfl (show LockObject.step L.decimal c _ .contend =
    some { creating with node := some node, stage := .comparing node } from rfl)
  -- and finds nobody in front of it
  have hnobody : c.getPredecessor L.decimal node (w₁.nodes.map Znode.name) = .ok none := by
    have hnames : ∀ name ∈ c.excludeNames, name = str "__lock__" := fun name hname => by
      have hname := (c.mem_excludeNames name).mp hname
      rw [hkind, hextra] at hname
      exact List.mem_singleton.mp (hname.resolve_right List.not_mem_nil)
    refine LockConfig.getPredecessor_of_search List.mem_cons_self fun child hchild => ?_
    obtain ⟨x, hx, rfl⟩ := List.mem_map.mp hchild
    rcases List.mem_cons.mp hx with rfl | hx
    · exact contendersSearch_readLock hkind hfits.2 hnames
    · obtain ⟨l', n, owner', rfl, hkind'⟩ := hreaders x hx
      have hn := hs.numbered.fresh _ hs.numbered.current l' n owner' hx
      exact contendersSearch_readLock hkind' (Nat.lt_of_lt_of_le hn hs.numbered.bound) hnames
  have h₉ := reachable_thread h₈ (show LockObject.step L.decimal c _ (.compare _) =
    some { creating with node := some node, stage := .gotten node } by
      simp only [LockObject.step, hnobody]) (fun children heq => Option.some.inj heq ▸
        ⟨w₁.nodes, List.mem_cons_self, .refl _⟩)
  have h₁₀ := reachable_alone h₉ rfl (show LockObject.step L.decimal c _ .mark =
    some { creating with
      node := some node, isAcquired := true, stage := .absent, acquiredWith := some node } from rfl)
  refine ⟨_, owner, h₁₀, ?_, rfl, rfl, fun l' hl => Function.update_of_ne hl _ _⟩
  rw [Holds, setLock_locks_self]
  exact ⟨rfl, node, List.mem_cons_self, .inl rfl⟩

/-- Read locks without extra patterns, as many as there are numbers for, can be acquired one after
the other. -/
theorem readLocks_acquire {ls : List ι} (hnodup : ls.Nodup) (hlength : ls.length ≤ sequenceLimit)
    (hls : ∀ l ∈ ls, (L.config l).kind = .readLock ∧ (L.config l).extraLockPatterns = []) :
    ∃ w : World L, (contention L).Reachable w ∧ (∀ l ∈ ls, w.Holds l) ∧ w.next = ls.length ∧
      (∀ l, l ∉ ls → w.locks l = .new) ∧
      ∀ x ∈ w.nodes, ∃ l n owner, x = .contender l n owner ∧ (L.config l).kind = .readLock := by
  induction ls with
  | nil => exact ⟨.new, .init, nofun, rfl, fun _ _ => rfl, nofun⟩
  | cons l ls ih =>
    obtain ⟨hl, hnodup⟩ := List.nodup_cons.mp hnodup
    obtain ⟨w, h, hheld, hnext, hnew, hreaders⟩ := ih hnodup (Nat.le_of_succ_le hlength)
      fun l' hl' => hls l' (List.mem_cons_of_mem l hl')
    obtain ⟨hkind, hextra⟩ := hls l List.mem_cons_self
    obtain ⟨w', owner, h', hheld', hnodes', hnext', hothers⟩ :=
      readLock_acquires h hkind hextra (hnew l hl) ⟨Nat.le_of_eq hnext, hlength⟩ hreaders
    refine ⟨w', h', fun l' hl' => ?_, hnext', fun l' hl' => ?_, fun x hx => ?_⟩
    · rcases List.mem_cons.mp hl' with rfl | hl'
      · exact hheld'
      · -- the others still hold: theirs are the same objects and the same nodes
        have hne : l' ≠ l := fun heq => hl (heq ▸ hl')
        obtain ⟨hacquired, node, hnode, hits⟩ := hheld l' hl'
        rw [Holds, hothers l' hne, hnodes']
        exact ⟨hacquired, node, List.mem_cons_of_mem _ hnode, hits⟩
    · rw [List.mem_cons, not_or] at hl'
      rw [hothers l' hl'.1]
      exact hnew l' hl'.2
    · rw [hnodes'] at hx
      rcases List.mem_cons.mp hx with rfl | hx
      · exact ⟨l, _, owner, rfl, hkind⟩
      · exact hreaders x hx

/-- In every state of every run, a `Lock` or a `WriteLock` that is held is held alone; read locks
can be held together. -/
theorem lock_exclusion (L : Locks ι) :
    (∀ w, (contention L).Reachable w → ∀ l l', l ≠ l' → (L.config l).kind ≠ .readLock →
      w.Holds l → ¬ w.Holds l') ∧
    ∀ ls : List ι, ls.Nodup → ls.length ≤ sequenceLimit →
      (∀ l ∈ ls, (L.config l).kind = .readLock ∧ (L.config l).extraLockPatterns = []) →
      ∃ w, (contention L).Reachable w ∧ ∀ l ∈ ls, w.Holds l := by
  refine ⟨fun w h l l' hne hexclusive hheld => held_alone h hne hexclusive hheld,
    fun ls hnodup hlength hls => ?_⟩
  obtain ⟨w, h, hheld, -⟩ := readLocks_acquire hnodup hlength hls
  exact ⟨w, h, hheld⟩

theorem length_uuid (b : Bool) :
    (List.replicate 32 (CodePoint.ofChar (if b then 'a' else 'b'))).length = 32 :=
  List.length_replicate

/-- A lock without extra patterns. -/
theorem mem_EXCLUDE_NAMES_iff (kind : LockKind) (name : PyStr) :
    name ∈ EXCLUDE_NAMES kind ↔ name ∈ EXCLUDE_NAMES kind ∨ name ∈ ([] : List PyStr) := by simp

theorem digitChar_ascii : ∀ d < 10, (48 ≤ (digitChar d).val && (digitChar d).val ≤ 57) = true := by
  decide

/-- A write lock and a read lock. -/
def writerAndReader : Locks Bool where
  config writer :=
    { kind := if writer then .writeLock else .readLock
      uuid := List.replicate 32 (CodePoint.ofChar (if writer then 'a' else 'b'))
      uuid_length := length_uuid writer
      extraLockPatterns := []
      excludeNames := EXCLUDE_NAMES (if writer then .writeLock else .readLock)
      mem_excludeNames := mem_EXCLUDE_NAMES_iff (if writer then .writeLock else .readLock)
      client := 0 }
  uuid_injective := fun l l' h => by
    revert h
    cases l <;> cases l' <;> decide
  oneFamily := .inr (by decide)
  decimal c := 48 ≤ c.val && c.val ≤ 57
  decimal_ascii := digitChar_ascii

/-- One call of `acquire`, up to the comparison with `others`. -/
def acquiring (writer : Bool) (number : Nat) (others : List PyStr) :
    List (LockAct writerAndReader) :=
  [.thread writer (.enter true false true), .thread writer .look, .thread writer .attempt,
    .thread writer .ensure, .thread writer (.find others), .create writer number,
    .thread writer .store, .thread writer .contend,
    .thread writer (.compare (others ++ [(writerAndReader.config writer).nodeName number]))]

/-- The writer holds the lock, and the reader has found it before itself. -/
def writerHolds : World writerAndReader :=
  (contention writerAndReader).exec .new (acquiring true 0 [] ++ [.thread true .mark] ++
    acquiring false 1 [(writerAndReader.config true).nodeName 0])

theorem lock_exclusion_writer : writerHolds.Holds true ∧ ¬ writerHolds.Holds false := by
  have hheld : writerHolds.Holds true := by decide +kernel
  exact ⟨hheld, (lock_exclusion writerAndReader).1 writerHolds (.of_legal (by decide +kernel)) true
    false (by decide) (by decide) hheld⟩

end World

end Kazoo
