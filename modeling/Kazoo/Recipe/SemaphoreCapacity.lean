import Kazoo.Recipe.LockNodes
import Kazoo.Recipe.Semaphore

/-!
# Capacity

Why the leases of a semaphore are never too many: whoever counts them holds the lock, and has seen
every lease of those who held it before.
-/

namespace Kazoo

/-! ## A lock object that is acquired once -/

namespace LockObject

/-- `acquire` has asked for the node to be deleted, or is over without success. -/
def Failed (o : LockObject) : Prop :=
  (∃ raising node, o.stage = .deleting raising node) ∨ o.stage = .absent ∧ o.isAcquired = false

end LockObject

/-! ## What the server remembers -/

/-- The lock object that the thread works with. -/
def SemaphoreStage.lock? {ι : Type} : SemaphoreStage ι → Option ι
  | .locking l | .counting l | .creating l | .confirming l | .waiting l | .unlocking l _
  | .freeing l _ => some l
  | _ => none

namespace Pool

variable {σ θ ι : Type} {S : Semaphores σ θ ι} {s s' : Pool S} {l l' : ι}

/-- The node of `l` with the number is there, and every other contender has a greater number. -/
def Leads (nodes : List (Znode S.locks)) (l : ι) (number : Nat) : Prop :=
  (∃ owner, Znode.contender l number owner ∈ nodes) ∧
    ∀ l' n owner, Znode.contender l' n owner ∈ nodes → l' = l ∧ n = number ∨ number < n

theorem Leads.unique {nodes : List (Znode S.locks)} {number number' : Nat}
    (h : Leads nodes l number) (h' : Leads nodes l' number') : l' = l := by
  obtain ⟨⟨owner, hmem⟩, hfirst⟩ := h
  obtain ⟨⟨owner', hmem'⟩, hfirst'⟩ := h'
  rcases hfirst l' number' owner' hmem' with ⟨heq, -⟩ | hlt
  · exact heq
  rcases hfirst' l number owner hmem with ⟨heq, -⟩ | hlt'
  · exact heq.symm
  · omega

/-- A step that does not delete its node leaves a leader in the lead. -/
theorem Leads.step [DecidableEq ι] {w w' : World S.locks} (hw : w.Numbered)
    (hmine : ∀ l, (w.locks l).Mine (S.locks.config l)) {act : LockAct S.locks}
    (hstep : w.step act = some w') (hact : ¬ World.Deletes l act) {number : Nat}
    (h : Leads w.nodes l number) : Leads w'.nodes l number := by
  obtain ⟨⟨owner, hmem⟩, hfirst⟩ := h
  refine ⟨⟨owner, World.contender_of_step hmine hstep hact hmem⟩, fun l' n owner' hmem' => ?_⟩
  rcases (World.grows_of_step hstep).nodes l' n owner' hmem' with hold | hnew
  · exact hfirst l' n owner' hold
  · have hbelow := hw.fresh _ hw.current l number owner hmem
    exact .inr (by omega)

structure Chronicle (s : Pool S) [DecidableEq ι] : Prop where
  world : (contention S.locks).Reachable s.world
  last : ∃ earlier, s.log = earlier ++ [(s.world.nodes, s.leases)]
  views : ∀ client, s.view client < s.log.length
  history : ∀ x ∈ s.log, x.1 ∈ s.world.history
  -- no contender gets in front of another
  ordered : s.log.Pairwise fun x y => ∀ l n owner l' n' owner',
    Znode.contender l n owner ∈ y.1 → Znode.contender l' n' owner' ∈ x.1 → n < n' →
      Znode.contender l n owner ∈ x.1
  unique : ∀ x ∈ s.log, ∀ l l' n owner owner', Znode.contender l n owner ∈ x.1 →
    Znode.contender l' n owner' ∈ x.1 → l = l'
  -- leases come from leaders
  grown : ∀ i x, s.log[i]? = some x → ∀ k ∈ s.leases, k ∉ x.2 →
    ∃ z ∈ s.log.drop (i + 1), ∃ l number, S.maker l = k ∧ Leads z.1 l number
  nodup : s.leases.Nodup
  bound : s.leases.length ≤ S.maxLeases

variable [DecidableEq ι]

theorem Chronicle.numbered (h : s.Chronicle) : s.world.Numbered :=
  (World.sound_of_reachable h.world).numbered

/-- The server has come to a new state. -/
theorem Chronicle.append (h : s.Chronicle)
    (hworld : (contention S.locks).Reachable s'.world)
    (hlog : s'.log = s.log ++ [(s'.world.nodes, s'.leases)]) (hview : s'.view = s.view)
    (hhistory : s.world.history ⊆ s'.world.history) (hnodup : s'.leases.Nodup)
    (hbound : s'.leases.length ≤ S.maxLeases)
    (hgrown : ∀ k ∈ s'.leases, k ∉ s.leases →
      ∃ l number, S.maker l = k ∧ Leads s'.world.nodes l number) : s'.Chronicle := by
  have hnumbered := (World.sound_of_reachable hworld).numbered
  have hold : ∀ x ∈ s.log, x.1 ∈ s'.world.history := fun x hx => hhistory (h.history x hx)
  refine ⟨hworld, ⟨s.log, hlog⟩, fun client => ?_, fun x hx => ?_, ?_, fun x hx => ?_, ?_, hnodup, hbound⟩
  · rw [hview, hlog, List.length_append]
    exact Nat.lt_add_right _ (h.views client)
  · rw [hlog] at hx
    rcases List.mem_append.mp hx with hx | hx
    · exact hold x hx
    · rw [List.mem_singleton.mp hx]
      exact hnumbered.current
  · rw [hlog]
    apply List.pairwise_append.mpr
    refine ⟨h.ordered, List.pairwise_singleton _ _, fun x hx y hy => ?_⟩
    rw [List.mem_singleton.mp hy]
    exact fun l n owner l' n' owner' => hnumbered.persist x.1 (hold x hx) l n owner l' n' owner'
  · rw [hlog] at hx
    rcases List.mem_append.mp hx with hx | hx
    · exact h.unique x hx
    · rw [List.mem_singleton.mp hx]
      exact hnumbered.unique
  · intro i x hi k hk hnot
    rw [hlog] at hi ⊢
    rcases Nat.lt_or_ge i s.log.length with hlt | hge
    · rw [List.getElem?_append_left hlt] at hi
      rw [List.drop_append_of_le_length hlt]
      by_cases hbefore : k ∈ s.leases
      · obtain ⟨z, hz, hleads⟩ := h.grown i x hi k hbefore hnot
        exact ⟨z, List.mem_append_left _ hz, hleads⟩
      · exact ⟨_, List.mem_append_right _ (List.mem_singleton_self _), hgrown k hk hbefore⟩
    · rw [List.getElem?_append_right hge] at hi
      rw [List.mem_singleton.mp (List.mem_of_getElem? hi)] at hnot
      exact absurd hk hnot

/-- A client has seen more. -/
theorem Chronicle.see (h : s.Chronicle) {client place : Nat} (hplace : place < s.log.length) :
    (s.see client place).Chronicle := by
  refine ⟨h.world, h.last, fun client' => ?_, h.history, h.ordered, h.unique, h.grown, h.nodup, h.bound⟩
  show Function.update s.view client place client' < _
  by_cases heq : client' = client
  · rw [heq, Function.update_self]
    exact hplace
  · rw [Function.update_of_ne heq]
    exact h.views client'

/-- Only the server and the views matter. -/
theorem Chronicle.congr (h : s.Chronicle) (hworld : s'.world = s.world) (hleases : s'.leases = s.leases)
    (hlog : s'.log = s.log) (hview : s'.view = s.view) : s'.Chronicle := by
  obtain ⟨world, last, views, history, ordered, unique, grown, nodup, bound⟩ := h
  constructor
  · rwa [hworld]
  · rwa [hworld, hleases, hlog]
  · rwa [hlog, hview]
  · rwa [hworld, hlog]
  · rwa [hlog]
  · rwa [hlog]
  · rwa [hleases, hlog]
  · rwa [hleases]
  · rwa [hleases]

omit [DecidableEq ι] in
theorem of_shown {client place : Nat} {x : PoolState S}
    (hx : s.shown? client place = some x) :
    s.view client ≤ place ∧ place < s.log.length ∧ s.log[place]? = some x := by
  obtain ⟨hview, hx⟩ := Option.ite_none_right_eq_some.mp hx
  exact ⟨hview, (List.getElem?_eq_some_iff.mp hx).1, hx⟩

theorem Chronicle.last_mem (h : s.Chronicle) (client : Nat) :
    (s.world.nodes, s.leases) ∈ s.log.drop (s.view client) := by
  have hview := h.views client
  obtain ⟨earlier, hlog⟩ := h.last
  rw [hlog, List.length_append, List.length_singleton] at hview
  rw [hlog, List.drop_append_of_le_length (Nat.le_of_lt_succ hview)]
  exact List.mem_append_right _ (List.mem_singleton_self _)

/-! ## What a lock object that is held is good for -/

/-- In every state that the client may yet be shown, `l` leads. -/
def Leading (s : Pool S) (l : ι) : Prop :=
  ∃ number, ∀ x ∈ s.log.drop (s.view (S.client (S.maker l))), Leads x.1 l number

/-- No node of `l` has been deleted, nor will be by a late write. -/
def Intact (s : Pool S) (l : ι) : Prop :=
  (∀ name, .deleteLock l name ∉ s.late) ∧ s.log.Pairwise fun x y => ∀ number owner,
    Znode.contender l number owner ∈ x.1 → Znode.contender l number owner ∈ y.1

theorem Leading.now (h : s.Leading l) (hs : s.Chronicle) :
    ∃ number, Leads s.world.nodes l number := by
  obtain ⟨number, hleads⟩ := h
  exact ⟨number, hleads _ (hs.last_mem _)⟩

theorem Leading.unique (h : s.Leading l) (h' : s.Leading l') (hs : s.Chronicle) : l' = l := by
  obtain ⟨number, hleads⟩ := h.now hs
  obtain ⟨number', hleads'⟩ := h'.now hs
  exact hleads.unique hleads'

theorem Leading.append (h : s.Leading l) (hs : s.Chronicle)
    (hlog : s'.log = s.log ++ [(s'.world.nodes, s'.leases)]) (hview : s'.view = s.view)
    (hkept : ∀ number, Leads s.world.nodes l number → Leads s'.world.nodes l number) :
    s'.Leading l := by
  obtain ⟨number, hleads⟩ := h
  have hnow := hleads _ (hs.last_mem _)
  refine ⟨number, fun x hx => ?_⟩
  rw [hlog, hview, List.drop_append_of_le_length (Nat.le_of_lt (hs.views _))] at hx
  rcases List.mem_append.mp hx with hx | hx
  · exact hleads x hx
  · rw [List.mem_singleton.mp hx]
    exact hkept number hnow

omit [DecidableEq ι] in
theorem Leading.see (h : s.Leading l) {client place : Nat} (hplace : s.view client ≤ place) :
    (s.see client place).Leading l := by
  obtain ⟨number, hleads⟩ := h
  refine ⟨number, fun x hx => hleads x ?_⟩
  change x ∈ s.log.drop (Function.update s.view client place _) at hx
  by_cases heq : S.client (S.maker l) = client
  · rw [heq, Function.update_self] at hx
    rw [heq]
    exact List.drop_subset_drop_left _ hplace hx
  · rwa [Function.update_of_ne heq] at hx

omit [DecidableEq ι] in
theorem Leading.congr (h : s.Leading l) (hlog : s'.log = s.log) (hview : s'.view = s.view) :
    s'.Leading l := by
  unfold Leading
  rw [hlog, hview]
  exact h

theorem Intact.append (h : s.Intact l) (hs : s.Chronicle)
    (hlog : s'.log = s.log ++ [(s'.world.nodes, s'.leases)])
    (hlate : ∀ name, .deleteLock l name ∉ s'.late)
    (hkept : ∀ number owner, Znode.contender l number owner ∈ s.world.nodes →
      Znode.contender l number owner ∈ s'.world.nodes) : s'.Intact l := by
  refine ⟨hlate, ?_⟩
  rw [hlog]
  refine List.pairwise_append.mpr ⟨h.2, List.pairwise_singleton _ _, fun x hx y hy number owner hmem => ?_⟩
  rw [List.mem_singleton.mp hy]
  apply hkept
  -- what was in an earlier state is in the last one
  obtain ⟨earlier, hlast⟩ := hs.last
  rw [hlast] at hx
  rcases List.mem_append.mp hx with hx | hx
  · have hpairwise := h.2
    rw [hlast] at hpairwise
    exact (List.pairwise_append.mp hpairwise).2.2 x hx _ (List.mem_singleton_self _) number owner hmem
  · rw [List.mem_singleton.mp hx] at hmem
    exact hmem

omit [DecidableEq ι] in
theorem Intact.congr (h : s.Intact l) (hlog : s'.log = s.log)
    (hlate : ∀ name, .deleteLock l name ∉ s'.late) : s'.Intact l := by
  refine ⟨hlate, ?_⟩
  rw [hlog]
  exact h.2

section Room

variable [DecidableEq σ]

/-- There is room for the lease of the semaphore that has made `l`. -/
def Room (s : Pool S) (l : ι) : Prop := (s.leases.filter (· ≠ S.maker l)).length < S.maxLeases

omit [DecidableEq ι] in
theorem Room.sublist (h : s.Room l) (hleases : s'.leases.Sublist s.leases) : s'.Room l :=
  Nat.lt_of_le_of_lt (hleases.filter _).length_le h

/-- Whoever leads and counts has seen all leases but perhaps its own. -/
theorem Leading.room (h : s.Leading l) (hs : s.Chronicle) {place : Nat} {x : PoolState S}
    (hx : s.shown? (S.client (S.maker l)) place = some x) (hcount : x.2.length < S.maxLeases) :
    s.Room l := by
  obtain ⟨hview, -, hplace⟩ := of_shown hx
  obtain ⟨number, hleads⟩ := h
  have hsubset : s.leases.filter (· ≠ S.maker l) ⊆ x.2 := by
    intro k hk
    obtain ⟨hk, hne⟩ := List.mem_filter.mp hk
    by_contra hnot
    -- a lease that is not in the list is of a later leader
    obtain ⟨z, hz, l', number', rfl, hleads'⟩ := hs.grown place x hplace k hk hnot
    have hseen : z ∈ s.log.drop (s.view (S.client (S.maker l))) :=
      List.drop_subset_drop_left _ (by omega) hz
    obtain rfl := (hleads z hseen).unique hleads'
    exact of_decide_eq_true hne rfl
  have hlength := (List.subperm_of_subset (hs.nodup.filter _) hsubset).length_le
  exact Nat.lt_of_le_of_lt hlength hcount

/-- The lease of a leader for whom there is room. -/
theorem Chronicle.lease (hs : s.Chronicle) (hleading : s.Leading l) (hroom : s.Room l)
    (hnone : S.maker l ∉ s.leases) : (s.setLeases (S.maker l :: s.leases)).Chronicle := by
  refine hs.append hs.world rfl rfl (List.Subset.refl _) (List.nodup_cons.mpr ⟨hnone, hs.nodup⟩) ?_ ?_
  · have hall : s.leases.filter (· ≠ S.maker l) = s.leases := by
      apply List.filter_eq_self.mpr
      intro k hk
      exact decide_eq_true fun heq => hnone (heq ▸ hk)
    rw [Room, hall] at hroom
    exact hroom
  · intro k hk hnot
    rcases List.mem_cons.mp hk with rfl | hk
    · obtain ⟨number, hleads⟩ := hleading.now hs
      exact ⟨l, number, rfl, hleads⟩
    · exact absurd hk hnot

theorem Chronicle.erase (hs : s.Chronicle) (k : σ) : (s.setLeases (s.leases.erase k)).Chronicle := by
  refine hs.append hs.world rfl rfl (List.Subset.refl _) (hs.nodup.erase k) ?_ ?_
  · exact Nat.le_trans (List.length_erase_le) hs.bound
  · exact fun k' hk' hnot => absurd (List.mem_of_mem_erase hk') hnot

omit [DecidableEq ι] in
theorem Room.lease (h : s.Room l) : (s.setLeases (S.maker l :: s.leases)).Room l := by
  show (List.filter _ (S.maker l :: s.leases)).length < _
  rw [List.filter_cons_of_neg (by simp)]
  exact h

end Room

/-! ## A step of a lock object -/

/-- However old the state is that the client is shown, if `_get_predecessor` finds nobody in it then
the lock object leads from there on. -/
theorem Intact.leading (h : s.Intact l) (hs : s.Chronicle) {place : Nat} {x : PoolState S}
    (hx : s.shown? (S.client (S.maker l)) place = some x) {children : List PyStr}
    (hperm : children.Perm (x.1.map Znode.name)) {node : PyStr} (howns : s.world.Owns l node)
    (hnone : (S.locks.config l).getPredecessor S.locks.decimal node children = .ok none) :
    (s.see (S.client (S.maker l)) place).Leading l := by
  obtain ⟨-, hlt, hplace⟩ := of_shown hx
  obtain ⟨number, hnumber, rfl⟩ := howns
  have hnumbered := hs.numbered
  have hlimit := hnumbered.bound
  have hmem : x ∈ s.log := List.mem_of_getElem? hplace
  have hbelow : ∀ l' n owner, Znode.contender l' n owner ∈ x.1 → n < sequenceLimit :=
    fun l' n owner hn => Nat.lt_of_lt_of_le (hnumbered.fresh x.1 (hs.history x hmem) l' n owner hn) hlimit
  obtain ⟨hself, hbefore⟩ := LockConfig.getPredecessor_eq_none hnone
  rw [LockConfig.drop_nodeName] at hbefore
  have hthere : ∃ owner, Znode.contender l number owner ∈ x.1 := by
    obtain ⟨z, hz, hname⟩ := List.mem_map.mp (hperm.subset hself)
    cases z with
    | other child =>
      have hpre := (S.locks.config l).lockPrefix_nodeName number
      rw [← hname] at hpre
      exact absurd hpre (child.foreign l)
    | contender l' n owner =>
      obtain ⟨rfl, rfl⟩ := Locks.nodeName_injective (hbelow l' n owner hz)
        (Nat.lt_of_lt_of_le hnumber hlimit) hname
      exact ⟨owner, hz⟩
  have hfirst : ∀ l' n owner, Znode.contender l' n owner ∈ x.1 → ¬ n < number := by
    intro l' n owner hn hlt
    have hkind : (S.locks.config l).kind ≠ .readLock := by
      rw [S.kind_eq l]
      decide
    have hchild : (S.locks.config l').nodeName n ∈ children :=
      hperm.symm.subset (List.mem_map_of_mem hn)
    exact hbefore _ hchild _ (contendersSearch_nodeName S.locks.decimal_ascii (hbelow l' n owner hn)
      (Locks.excludes hkind l').1) (sequenceText_lt hlt (by omega))
  obtain ⟨owner, hmine⟩ := hthere
  -- the states from there on
  have hdrop : s.log.drop place = x :: s.log.drop (place + 1) := by
    rw [List.drop_eq_getElem_cons hlt]
    rw [List.getElem?_eq_getElem hlt] at hplace
    rw [Option.some.inj hplace]
  have hintact := h.2.sublist (List.drop_sublist place s.log)
  have hordered := hs.ordered.sublist (List.drop_sublist place s.log)
  rw [hdrop] at hintact hordered
  refine ⟨number, fun y hy => ?_⟩
  change y ∈ s.log.drop (Function.update s.view _ place _) at hy
  rw [Function.update_self] at hy
  have hunique := hs.unique y (List.mem_of_mem_drop hy)
  rw [hdrop] at hy
  have hmine' : Znode.contender l number owner ∈ y.1 := by
    rcases List.mem_cons.mp hy with rfl | hy
    · exact hmine
    · exact List.rel_of_pairwise_cons hintact hy number owner hmine
  have hfirst' : ∀ l' n owner', Znode.contender l' n owner' ∈ y.1 → ¬ n < number := by
    intro l' n owner' hn hlt
    rcases List.mem_cons.mp hy with rfl | hy
    · exact hfirst l' n owner' hn hlt
    · exact hfirst l' n owner'
        (List.rel_of_pairwise_cons hordered hy l' n owner' l number owner hn hmine hlt) hlt
  refine ⟨⟨owner, hmine'⟩, fun l' n owner' hn => ?_⟩
  rcases Nat.lt_trichotomy n number with hlt | rfl | hgt
  · exact absurd hlt (hfirst' l' n owner' hn)
  · exact .inl ⟨hunique l' l n owner' owner hn hmine', rfl⟩
  · exact .inr hgt

/-- How it stands with a lock object whose `acquire` has been called, once. -/
structure Pursuit (s : Pool S) (l : ι) : Prop where
  quiet : (s.world.locks l).releasing = []
  free : (s.world.locks l).stage ≠ .absent → (s.world.locks l).isAcquired = false
  intact : ¬ (s.world.locks l).Failed → s.Intact l
  leading : (s.world.locks l).isAcquired = true ∨ (∃ node, (s.world.locks l).stage = .gotten node) →
    s.Leading l

/-- The server takes a step that says nothing to `l`. -/
structure Keeps (s s' : Pool S) [DecidableEq σ] (l : ι) : Prop where
  locks : s'.world.locks l = s.world.locks l
  intact : s.Intact l → s'.Intact l
  leading : s.Leading l → s'.Leading l
  room : s.Leading l → s.Room l → s'.Room l

variable [DecidableEq σ]

omit [DecidableEq ι] in
theorem Pursuit.keep (h : s.Pursuit l) (hkeeps : s.Keeps s' l) : s'.Pursuit l := by
  obtain ⟨quiet, free, intact, leading⟩ := h
  rw [← hkeeps.locks] at quiet free intact leading
  exact ⟨quiet, free, fun hfailed => hkeeps.intact (intact hfailed),
    fun hlead => hkeeps.leading (leading hlead)⟩

omit [DecidableEq ι] in
theorem keeps_see (s : Pool S) {client place : Nat} (hplace : s.view client ≤ place) (l : ι) :
    s.Keeps (s.see client place) l :=
  ⟨rfl, fun h => h.congr rfl h.1, fun h => h.see hplace, fun _ h => h⟩

theorem keeps_leases (hs : s.Chronicle) (leases : List σ) (l : ι)
    (hroom : s.Leading l → s.Room l → (s.setLeases leases).Room l) : s.Keeps (s.setLeases leases) l :=
  ⟨rfl, fun h => h.append hs rfl h.1 fun _ _ => id, fun h => h.append hs rfl rfl fun _ => id, hroom⟩

theorem keeps_erase (hs : s.Chronicle) (k : σ) (l : ι) : s.Keeps (s.setLeases (s.leases.erase k)) l :=
  keeps_leases hs _ l fun _ h => h.sublist List.erase_sublist

/-- Whoever else leads is the same lock object. -/
theorem keeps_lease (hs : s.Chronicle) (hleading : s.Leading l) (l' : ι) :
    s.Keeps (s.setLeases (S.maker l :: s.leases)) l' := by
  apply keeps_leases hs
  intro hleading' hroom
  obtain rfl := hleading.unique hleading' hs
  exact hroom.lease

theorem keeps_world (hs : s.Chronicle) {act : LockAct S.locks} {world : World S.locks}
    (hstep : s.world.step act = some world) (hactor : World.actor? act ≠ some l)
    (hdeletes : ¬ World.Deletes l act) {late : List (LateWrite σ ι)}
    (hlate : ∀ name, .deleteLock l name ∈ late → .deleteLock l name ∈ s.late) :
    s.Keeps ({ s with late := late }.setWorld world) l := by
  have hmine := World.mine_of_reachable hs.world
  refine ⟨World.locks_of_step hstep hactor, fun h => ?_, fun h => ?_, fun _ h => h⟩
  · exact h.append hs rfl (fun name hname => h.1 name (hlate name hname)) fun number owner hmem =>
      World.contender_of_step hmine hstep hdeletes hmem
  · exact h.append hs rfl rfl fun number hleads => hleads.step hs.numbered hmine hstep hdeletes

omit [DecidableEq σ] in
theorem Chronicle.setWorld (hs : s.Chronicle) {act : LockAct S.locks} {world : World S.locks}
    (hstep : s.world.step act = some world) (late : List (LateWrite σ ι)) :
    ({ s with late := late }.setWorld world).Chronicle := by
  refine hs.append ?_ rfl rfl (World.history_subset_of_step hstep) hs.nodup hs.bound ?_
  · have hreach := Machine.Reach.step (a := act) hs.world (Option.isSome_iff_exists.mpr ⟨world, hstep⟩) trivial
    change (contention S.locks).Reachable ((s.world.step act).getD s.world) at hreach
    rw [hstep] at hreach
    exact hreach
  · exact fun k hk hnot => absurd hk hnot

/-- The state after a step of a lock object, before its client learns of it. -/
def stepped (s : Pool S) (act : LockAct S.locks) (world : World S.locks) : Pool S :=
  { s with late := s.late ++ leaves s.world act }.setWorld world

omit [DecidableEq σ] in
theorem lockStep_cases {k : σ} {act : LockAct S.locks} {place : Nat}
    (h : s.lockStep k act place = some s') :
    ∃ world, s.world.step act = some world ∧ (act.writes = true → s.Settled (S.client k)) ∧
      ((act.children? = none ∧
        (s' = s.stepped act world ∨ s' = (s.stepped act world).synced (S.client k))) ∨
      ∃ children x, act.children? = some children ∧ s.shown? (S.client k) place = some x ∧
        children.Perm (x.1.map Znode.name) ∧ s' = (s.stepped act world).see (S.client k) place) := by
  unfold lockStep at h
  dsimp only at h
  split at h
  · cases h
  next hsettled =>
  have hsettled : act.writes = true → s.Settled (S.client k) := by
    intro hwrites
    by_contra hnot
    exact hsettled ⟨hwrites, hnot⟩
  split at h
  · cases h
  next world hworld =>
  refine ⟨world, hworld, hsettled, ?_⟩
  split at h
  · next hchildren =>
    cases h
    refine .inl ⟨hchildren, ?_⟩
    split
    · exact .inr rfl
    · exact .inl rfl
  · next children hchildren =>
    split at h
    · next nodes leases hshown =>
      obtain ⟨hperm, h⟩ := Option.ite_none_right_eq_some.mp h
      cases h
      exact .inr ⟨children, (nodes, leases), hchildren, hshown, hperm, rfl⟩
    · cases h

omit [DecidableEq ι] [DecidableEq σ] in
/-- What a lock object leaves behind is for its own node. -/
theorem mem_leaves {world : World S.locks} {act : LockAct S.locks} {r : LateWrite σ ι}
    (hr : r ∈ leaves world act) :
    ∃ l name, r = .deleteLock l name ∧ World.actor? act = some l ∧
      ((∃ raising, (world.locks l).stage = .deleting raising name) ∨
        .deleting name ∈ (world.locks l).releasing) := by
  unfold leaves at hr
  split at hr
  · next l e =>
    split at hr
    · next raising name hstage =>
      split at hr
      · cases hr
      · exact ⟨l, name, List.mem_singleton.mp hr, rfl, .inl ⟨raising, hstage⟩⟩
    · cases hr
  · next l i e again =>
    split at hr
    · next name hreleasing =>
      exact ⟨l, name, List.mem_singleton.mp hr, rfl, .inr (List.mem_of_getElem? hreleasing)⟩
    · cases hr
  · cases hr

/-- The client of the lock object has at most learnt something. -/
theorem keeps_lockStep (hs : s.Chronicle) {k : σ} {act : LockAct S.locks} {place : Nat}
    (h : s.lockStep k act place = some s') :
    s'.Chronicle ∧ ∃ world, s.world.step act = some world ∧
      (act.writes = true → s.Settled (S.client k)) ∧ s'.world = world ∧
      s'.late = s.late ++ leaves s.world act ∧ s'.threads = s.threads ∧ s'.made = s.made ∧
      ∀ l, (s.stepped act world).Keeps s' l := by
  obtain ⟨world, hworld, hsettled, hcases⟩ := lockStep_cases h
  have hbase : (s.stepped act world).Chronicle := hs.setWorld hworld _
  rcases hcases with ⟨-, rfl | rfl⟩ | ⟨children, x, -, hshown, -, rfl⟩
  · exact ⟨hbase, world, hworld, hsettled, rfl, rfl, rfl, rfl,
      fun l => ⟨rfl, id, id, fun _ => id⟩⟩
  · have hview := hbase.views (S.client k)
    exact ⟨hbase.see (by omega), world, hworld, hsettled, rfl, rfl, rfl, rfl, keeps_see _ (by omega)⟩
  · obtain ⟨hview, hlt, -⟩ := of_shown hshown
    have hlt' : place < (s.stepped act world).log.length := by
      show place < (s.log ++ [_]).length
      rw [List.length_append]
      exact Nat.lt_add_right _ hlt
    exact ⟨hbase.see hlt', world, hworld, hsettled, rfl, rfl, rfl, rfl, keeps_see _ hview⟩

theorem Pursuit.lockStep (h : s.Pursuit l) (hs : s.Chronicle) {act : LockAct S.locks} {place : Nat}
    (hact : act.acquires l) (hstep : s.lockStep (S.maker l) act place = some s') : s'.Pursuit l := by
  obtain ⟨hs', world, hworld, -, hworld', -, -, -, hlearns⟩ := keeps_lockStep hs hstep
  obtain ⟨a, hacquires, hcompare, hdeletes⟩ := World.acquires_of_world hact hworld
  have hmine := World.mine_of_reachable hs.world
  have hbase : (s.stepped act world).Chronicle := hs.setWorld hworld _
  -- as long as no cleanup has asked for a delete, the step deletes nothing and leaves nothing
  have hleaves : (¬ ∃ raising node, (s.world.locks l).stage = .deleting raising node) →
      ∀ name, .deleteLock l name ∉ leaves s.world act := by
    intro hnot name hname
    obtain ⟨l', name', heq, -, ⟨raising, hstage⟩ | hreleasing⟩ := mem_leaves hname
    · cases heq
      exact hnot ⟨raising, name, hstage⟩
    · cases heq
      rw [h.quiet] at hreleasing
      cases hreleasing
  have hintact : (¬ ∃ raising node, (s.world.locks l).stage = .deleting raising node) →
      s.Intact l → s'.Intact l := by
    intro hnot hold
    apply (hlearns l).intact
    refine hold.append hs rfl (fun name hname => ?_) fun number owner hmem =>
      World.contender_of_step hmine hworld (fun hdel => hnot (hdeletes hdel)) hmem
    rcases List.mem_append.mp hname with hname | hname
    · exact hold.1 name hname
    · exact hleaves hnot name hname
  have hfree := h.free hacquires.inside
  rw [← hworld'] at hacquires
  refine ⟨hacquires.releasing.trans h.quiet, fun hstage => ?_, fun hfailed => ?_, ?_⟩
  · rcases hacquires.marks with ⟨heq, -⟩ | ⟨habsent, -⟩
    · exact heq.trans hfree
    · exact absurd habsent hstage
  · have hnot : ¬ ∃ raising node, (s.world.locks l).stage = .deleting raising node := by
      intro hdeleting
      obtain ⟨habsent, heq⟩ := hacquires.failed hdeleting
      exact hfailed (.inr ⟨habsent, heq.trans hfree⟩)
    apply hintact hnot
    apply h.intact
    rintro (hdeleting | ⟨habsent, -⟩)
    · exact hnot hdeleting
    · exact hacquires.inside habsent
  · rintro (hacquired | ⟨node, hgotten⟩)
    · -- `acquire` returns
      rcases hacquires.marks with ⟨heq, -⟩ | ⟨-, node, hgotten, -⟩
      · exact absurd (hfree.symm.trans (heq.symm.trans hacquired)) Bool.false_ne_true
      · apply (hlearns l).leading
        refine (h.leading (.inr ⟨node, hgotten⟩)).append hs rfl rfl fun number hleads =>
          hleads.step hs.numbered hmine hworld fun hdel => ?_
        obtain ⟨raising, node', hstage⟩ := hdeletes hdel
        rw [hgotten] at hstage
        cases hstage
    · -- `_get_predecessor` has found nobody
      obtain ⟨children, rfl, hstage, hnone⟩ := hacquires.gotten node hgotten
      obtain rfl := hcompare children rfl
      have hnot : ¬ (s.world.locks l).Failed := by
        rintro (⟨raising, node', hdeleting⟩ | ⟨habsent, -⟩)
        · rw [hstage] at hdeleting
          cases hdeleting
        · rw [hstage] at habsent
          cases habsent
      have howns := ((World.sound_of_reachable hs.world).locks l).owns node (by rw [hstage]; rfl)
      obtain ⟨world', hworld'', -, ⟨hchildren, -⟩ | ⟨children', x, hchildren, hshown, hperm, rfl⟩⟩ :=
        lockStep_cases hstep
      · cases hchildren
      · cases hchildren
        obtain rfl := Option.some.inj (hworld.symm.trans hworld'')
        obtain ⟨-, hlt, -⟩ := of_shown hshown
        have hleading := (h.intact hnot).leading hs hshown hperm howns hnone
        exact hleading.append (hs.see hlt) rfl rfl fun number hleads =>
          hleads.step hs.numbered hmine hworld id

/-! ## All threads together -/

/-- What a thread of the semaphore `k` may rely on. -/
def Fits (s : Pool S) (k : σ) : SemaphoreStage ι → Prop
  | .locking l => S.maker l = k ∧ s.Pursuit l
  | .counting l | .confirming l | .waiting l => S.maker l = k ∧ s.Intact l ∧ s.Leading l
  | .creating l => S.maker l = k ∧ s.Intact l ∧ s.Leading l ∧ s.Room l
  | .unlocking l _ | .freeing l _ => S.maker l = k
  | _ => True

structure Inv (s : Pool S) : Prop where
  chronicle : s.Chronicle
  fits : ∀ i, s.Fits (S.object i) (s.threads i)
  alone : ∀ i j l, (s.threads i).lock? = some l → (s.threads j).lock? = some l → i = j
  made : ∀ i l, (s.threads i).lock? = some l → s.made l = true
  fresh : ∀ l, s.made l = false → s.world.locks l = .new ∧ s.Intact l
  lateLease : ∀ l, .createLease l ∈ s.late → s.Leading l ∧ s.Room l
  lateDelete : ∀ l name, .deleteLock l name ∈ s.late → (S.locks.config l).lockPrefix <+: name
  -- a lock object is given up after the lease has been asked for
  order : s.late.Pairwise fun r r' => ∀ l name, r = .deleteLock l name → r' ≠ .createLease l

omit [DecidableEq ι] in
theorem Fits.keep {k : σ} {stage : SemaphoreStage ι} (h : s.Fits k stage)
    (hkeeps : ∀ l, stage.lock? = some l → s.Keeps s' l) : s'.Fits k stage := by
  cases stage with
  | locking l => exact ⟨h.1, h.2.keep (hkeeps l rfl)⟩
  | counting l | confirming l | waiting l =>
    exact ⟨h.1, (hkeeps l rfl).intact h.2.1, (hkeeps l rfl).leading h.2.2⟩
  | creating l =>
    have hkeeps := hkeeps l rfl
    exact ⟨h.1, hkeeps.intact h.2.1, hkeeps.leading h.2.2.1, hkeeps.room h.2.2.1 h.2.2.2⟩
  | unlocking l ending | freeing l ending => exact h
  | _ => trivial

variable [DecidableEq θ] {i : θ} {k : σ}

omit [DecidableEq ι] [DecidableEq σ] in
theorem setStage_threads_self (s : Pool S) (i : θ) (stage : SemaphoreStage ι) :
    (s.setStage i stage).threads i = stage := Function.update_self ..

omit [DecidableEq ι] [DecidableEq σ] in
theorem setStage_threads_of_ne {j : θ} (hne : j ≠ i) (s : Pool S) (stage : SemaphoreStage ι) :
    (s.setStage i stage).threads j = s.threads j := Function.update_of_ne hne ..

omit [DecidableEq ι] [DecidableEq θ] in
theorem setObject_objects_self (s : Pool S) (k : σ) (o : SemaphoreObject) :
    (s.setObject k o).objects k = o := Function.update_self ..

omit [DecidableEq ι] [DecidableEq θ] in
theorem setObject_objects_of_ne {k' : σ} (hne : k ≠ k') (s : Pool S) (o : SemaphoreObject) :
    (s.setObject k' o).objects k = s.objects k := Function.update_of_ne hne ..

/-- The thread goes on, with the lock object that it has or with none. -/
theorem Inv.setStage (h : s.Inv) {stage : SemaphoreStage ι} (hstage : s.Fits (S.object i) stage)
    (hlock : ∀ l, stage.lock? = some l → (s.threads i).lock? = some l) : (s.setStage i stage).Inv := by
  have hlocks : ∀ j l, ((s.setStage i stage).threads j).lock? = some l →
      (s.threads j).lock? = some l := by
    intro j l hj
    by_cases hne : j = i
    · rw [hne, setStage_threads_self] at hj
      rw [hne]
      exact hlock l hj
    · rwa [setStage_threads_of_ne hne] at hj
  refine ⟨h.chronicle.congr rfl rfl rfl rfl, fun j => ?_, fun j j' l hj hj' => ?_, fun j l hj => ?_,
    h.fresh, h.lateLease, h.lateDelete, h.order⟩
  · have hsame : ∀ l, s.Keeps (s.setStage i stage) l := fun l => ⟨rfl, id, id, fun _ => id⟩
    by_cases hne : j = i
    · rw [hne, setStage_threads_self]
      exact hstage.keep fun l _ => hsame l
    · rw [setStage_threads_of_ne hne]
      exact (h.fits j).keep fun l _ => hsame l
  · exact h.alone j j' l (hlocks j l hj) (hlocks j' l hj')
  · exact h.made j l (hlocks j l hj)

/-- The thread goes on with the lock object that it has. -/
theorem Inv.goOn (h : s.Inv) {old stage : SemaphoreStage ι} (hi : s.threads i = old)
    (hlock : stage.lock? = old.lock?) (hstage : s.Fits (S.object i) stage) : (s.setStage i stage).Inv := by
  apply h.setStage hstage
  intro l hl
  rw [hi, ← hlock]
  exact hl

/-- The thread has no lock object from here on. -/
theorem Inv.drop (h : s.Inv) {stage : SemaphoreStage ι} (hstage : stage.lock? = none) :
    (s.setStage i stage).Inv := by
  apply h.setStage
  · cases stage <;> trivial
  · intro l hl
    rw [hstage] at hl
    cases hl

omit [DecidableEq θ] in
theorem Inv.setObject (h : s.Inv) (k : σ) (o : SemaphoreObject) : (s.setObject k o).Inv :=
  ⟨h.chronicle.congr rfl rfl rfl rfl,
    fun i => (h.fits i).keep fun _ _ => ⟨rfl, id, id, fun _ => id⟩, h.alone, h.made, h.fresh,
    h.lateLease, h.lateDelete, h.order⟩

theorem Inv.finish (h : s.Inv) (ending : Ending) : (s.finish i ending).Inv := by
  cases ending with
  | returned gotten => exact (h.setObject _ _).drop rfl
  | raised e =>
    unfold Pool.finish
    dsimp only
    split
    · exact h.drop rfl
    · split <;> exact h.drop rfl

theorem Inv.cleaned (h : s.Inv) : (s.cleaned i).Inv := (h.setObject _ _).drop rfl

omit [DecidableEq θ] in
/-- The server has changed, and no lock object. -/
theorem Inv.server (h : s.Inv) (hs' : s'.Chronicle) (hthreads : s'.threads = s.threads)
    (hmade : s'.made = s.made) (hlate : s'.late = s.late) (hkeeps : ∀ l, s.Keeps s' l) : s'.Inv where
  chronicle := hs'
  fits := fun i => hthreads ▸ (h.fits i).keep fun l _ => hkeeps l
  alone := hthreads ▸ h.alone
  made := hmade ▸ hthreads ▸ h.made
  fresh := by
    intro l hl
    rw [hmade] at hl
    obtain ⟨hnew, hintact⟩ := h.fresh l hl
    exact ⟨(hkeeps l).locks.trans hnew, (hkeeps l).intact hintact⟩
  lateLease := by
    intro l hl
    rw [hlate] at hl
    obtain ⟨hleading, hroom⟩ := h.lateLease l hl
    exact ⟨(hkeeps l).leading hleading, (hkeeps l).room hleading hroom⟩
  lateDelete := hlate ▸ h.lateDelete
  order := hlate ▸ h.order

omit [DecidableEq θ] in
theorem Inv.see (h : s.Inv) {client place : Nat} {x : PoolState S}
    (hx : s.shown? client place = some x) : (s.see client place).Inv := by
  obtain ⟨hview, hlt, -⟩ := of_shown hx
  exact h.server (h.chronicle.see hlt) rfl rfl rfl (keeps_see s hview)

omit [DecidableEq θ] in
theorem Inv.synced (h : s.Inv) (client : Nat) : (s.synced client).Inv := by
  have hview := h.chronicle.views client
  exact h.server (h.chronicle.see (by omega)) rfl rfl rfl (keeps_see s (by omega))

omit [DecidableEq θ] in
theorem Inv.erase (h : s.Inv) (k : σ) : (s.setLeases (s.leases.erase k)).Inv :=
  h.server (h.chronicle.erase k) rfl rfl rfl (keeps_erase h.chronicle k)

omit [DecidableEq θ] in
theorem Inv.lease (h : s.Inv) (hleading : s.Leading l) (hroom : s.Room l) (hnone : S.maker l ∉ s.leases) :
    (s.setLeases (S.maker l :: s.leases)).Inv :=
  h.server (h.chronicle.lease hleading hroom hnone) rfl rfl rfl (keeps_lease h.chronicle hleading)

omit [DecidableEq θ] in
theorem Inv.withLate (h : s.Inv) {late : List (LateWrite σ ι)} (hlate : late.Sublist s.late) :
    { s with late := late }.Inv where
  chronicle := h.chronicle.congr rfl rfl rfl rfl
  fits := fun i => (h.fits i).keep fun _ _ =>
    ⟨rfl, fun hintact => hintact.congr rfl fun name hname => hintact.1 name (hlate.subset hname), id,
      fun _ => id⟩
  alone := h.alone
  made := h.made
  fresh := fun l hl => ⟨(h.fresh l hl).1,
    (h.fresh l hl).2.congr rfl fun name hname => (h.fresh l hl).2.1 name (hlate.subset hname)⟩
  lateLease := fun l hl => h.lateLease l (hlate.subset hl)
  lateDelete := fun l name hl => h.lateDelete l name (hlate.subset hl)
  order := h.order.sublist hlate

omit [DecidableEq θ] in
/-- A write of a lease may be carried out later. -/
theorem Inv.lose (h : s.Inv) {r : LateWrite σ ι} (hdelete : ∀ l name, r ≠ .deleteLock l name)
    (hlease : ∀ l, r = .createLease l → s.Intact l ∧ s.Leading l ∧ s.Room l) : (s.lose r).Inv := by
  have hlate : ∀ l name, .deleteLock l name ∈ s.late ++ [r] → .deleteLock l name ∈ s.late := by
    intro l name hname
    rcases List.mem_append.mp hname with hname | hname
    · exact hname
    · exact absurd (List.mem_singleton.mp hname).symm (hdelete l name)
  have hintact : ∀ l, s.Intact l → (s.lose r).Intact l :=
    fun l hold => hold.congr rfl fun name hname => hold.1 name (hlate l name hname)
  refine ⟨h.chronicle.congr rfl rfl rfl rfl, fun i => (h.fits i).keep fun l _ =>
    ⟨rfl, hintact l, id, fun _ => id⟩, h.alone, h.made,
    fun l hl => ⟨(h.fresh l hl).1, hintact l (h.fresh l hl).2⟩, fun l hl => ?_,
    fun l name hname => h.lateDelete l name (hlate l name hname), ?_⟩
  · rcases List.mem_append.mp hl with hl | hl
    · exact h.lateLease l hl
    · exact (hlease l (List.mem_singleton.mp hl).symm).2
  · refine List.pairwise_append.mpr ⟨h.order, List.pairwise_singleton _ _, fun r₀ hr₀ r' hr' => ?_⟩
    rw [List.mem_singleton.mp hr']
    intro l name heq heq'
    -- no delete of the node of `l` is under way
    exact (hlease l heq').1.1 name (heq ▸ hr₀)

omit [DecidableEq ι] [DecidableEq θ] in
theorem Keeps.trans {s₁ : Pool S} (h : s.Keeps s₁ l) (h' : s₁.Keeps s' l) : s.Keeps s' l :=
  ⟨h'.locks.trans h.locks, fun hl => h'.intact (h.intact hl), fun hl => h'.leading (h.leading hl),
    fun hl hroom => h'.room (h.leading hl) (h.room hl hroom)⟩

/-- The thread `i` has made a step of its lock object, and left deletes of its node. -/
theorem Inv.world (h : s.Inv) (hi : (s.threads i).lock? = some l) {act : LockAct S.locks}
    {world : World S.locks} {left : List (LateWrite σ ι)} (hstep : s.world.step act = some world)
    (hactor : World.actor? act = some l)
    (hdeletes : ∀ l', World.Deletes l' act → l' = l ∧ .createLease l ∉ s.late)
    (hleft : ∀ r ∈ left, ∃ name, r = .deleteLock l name ∧ (S.locks.config l).lockPrefix <+: name)
    (hs' : s'.Chronicle) (hthreads : s'.threads = s.threads) (hmade : s'.made = s.made)
    (hlate : s'.late = s.late ++ left)
    (hlearns : ∀ l', ({ s with late := s.late ++ left }.setWorld world).Keeps s' l')
    (hfits : s'.Fits (S.object i) (s.threads i)) : s'.Inv := by
  have hmine := World.mine_of_reachable h.chronicle.world
  have hnew : ∀ l' name, l' ≠ l → .deleteLock l' name ∈ s.late ++ left → .deleteLock l' name ∈ s.late := by
    intro l' name hne hname
    rcases List.mem_append.mp hname with hname | hname
    · exact hname
    · obtain ⟨name', heq, -⟩ := hleft _ hname
      cases heq
      exact absurd rfl hne
  have hkeeps : ∀ l', l' ≠ l → s.Keeps s' l' := by
    intro l' hne
    refine (keeps_world h.chronicle hstep ?_ (fun hdel => hne (hdeletes l' hdel).1)
      fun name => hnew l' name hne).trans (hlearns l')
    rw [hactor]
    exact fun heq => hne (Option.some.inj heq).symm
  have hmade' : s.made l = true := h.made i l hi
  have hlease : ∀ l', .createLease l' ∈ s'.late → .createLease l' ∈ s.late := by
    intro l' hl'
    rw [hlate] at hl'
    rcases List.mem_append.mp hl' with hl' | hl'
    · exact hl'
    · obtain ⟨name, heq, -⟩ := hleft _ hl'
      cases heq
  refine ⟨hs', fun j => ?_, hthreads ▸ h.alone, hmade ▸ hthreads ▸ h.made, fun l' hl' => ?_,
    fun l' hl' => ?_, fun l' name hname => ?_, ?_⟩
  · rw [hthreads]
    by_cases hne : j = i
    · rw [hne]
      exact hfits
    · refine (h.fits j).keep fun l' hl' => hkeeps l' ?_
      rintro rfl
      exact hne (h.alone j i l' hl' hi)
  · rw [hmade] at hl'
    have hne : l' ≠ l := by
      rintro rfl
      rw [hmade'] at hl'
      cases hl'
    obtain ⟨hfresh, hintact⟩ := h.fresh l' hl'
    exact ⟨(hkeeps l' hne).locks.trans hfresh, (hkeeps l' hne).intact hintact⟩
  · have hl' := hlease l' hl'
    obtain ⟨hleading, hroom⟩ := h.lateLease l' hl'
    by_cases hne : l' = l
    · subst hne
      -- its node is still there: what is late comes before a delete
      have hnow : ({ s with late := s.late ++ left }.setWorld world).Leading l' :=
        hleading.append h.chronicle rfl rfl fun number hleads =>
          hleads.step h.chronicle.numbered hmine hstep fun hdel => (hdeletes l' hdel).2 hl'
      exact ⟨(hlearns l').leading hnow, (hlearns l').room hnow hroom⟩
    · exact ⟨(hkeeps l' hne).leading hleading, (hkeeps l' hne).room hleading hroom⟩
  · rw [hlate] at hname
    rcases List.mem_append.mp hname with hname | hname
    · exact h.lateDelete l' name hname
    · obtain ⟨name', heq, hpre⟩ := hleft _ hname
      cases heq
      exact hpre
  · rw [hlate]
    have hnone : ∀ r ∈ left, ∀ l', r ≠ .createLease l' := by
      intro r hr l' heq
      obtain ⟨name, heq', -⟩ := hleft r hr
      cases heq'.symm.trans heq
    refine List.pairwise_append.mpr ⟨h.order, ?_, fun r _ r' hr' l' name _ => hnone r' hr' l'⟩
    exact List.pairwise_of_forall_mem_list fun r _ r' hr' l' name _ => hnone r' hr' l'

theorem Inv.lockStep (h : s.Inv) (hi : (s.threads i).lock? = some l) (hmaker : S.maker l = k)
    {act : LockAct S.locks} {place : Nat} (hactor : World.actor? act = some l)
    (hdeletes : ∀ l', World.Deletes l' act → l' = l ∧ act.writes = true)
    (hstep : s.lockStep k act place = some s') (hfits : s'.Fits (S.object i) (s.threads i)) : s'.Inv := by
  obtain ⟨hs', world, hworld, hsettled, -, hlate, hthreads, hmade, hlearns⟩ :=
    keeps_lockStep h.chronicle hstep
  have hmine := World.mine_of_reachable h.chronicle.world
  refine h.world hi hworld hactor (fun l' hdel => ?_) (fun r hr => ?_) hs' hthreads hmade hlate hlearns
    hfits
  · obtain ⟨heq, hwrites⟩ := hdeletes l' hdel
    refine ⟨heq, fun hlease => hsettled hwrites _ hlease ?_⟩
    rw [← hmaker]
    rfl
  · obtain ⟨l', name, rfl, hactor', hname⟩ := mem_leaves hr
    obtain rfl : l = l' := Option.some.inj (hactor.symm.trans hactor')
    refine ⟨name, rfl, ?_⟩
    rcases hname with ⟨raising, hstage⟩ | hreleasing
    · exact (hmine l).stage name (by rw [hstage]; rfl)
    · exact (hmine l).releasing name hreleasing

/-- `self.client.Lock(...)`, and its `acquire` is called. -/
theorem Inv.make (h : s.Inv) (hfresh : s.made l = false) (hmaker : S.maker l = S.object i)
    {call : SemaphoreCall} {world : World S.locks}
    (hstep : s.world.step (.thread l (.enter call.blocking call.timed true)) = some world) :
    (({ s with made := Function.update s.made l true }.setWorld world).setStage i (.locking l)).Inv := by
  have hmine := World.mine_of_reachable h.chronicle.world
  obtain ⟨hnew, hintact⟩ := h.fresh l hfresh
  have hunused : ∀ j l', (s.threads j).lock? = some l' → l' ≠ l := by
    rintro j l' hj rfl
    have hmade := h.made j l' hj
    rw [hfresh] at hmade
    cases hmade
  -- nothing but the lock object has changed
  have hkeeps : ∀ l', l' ≠ l → s.Keeps (s.setWorld world) l' := fun l' hne =>
    keeps_world h.chronicle hstep (fun heq => hne (Option.some.inj heq).symm) id fun _ => id
  have hentered : world.locks l =
      { LockObject.new with call := ⟨call.blocking, call.timed, true, false⟩, stage := .entered } := by
    cases World.steps_of_step hstep with
    | thread _ ho =>
      rw [World.setLock_locks_self]
      rw [hnew] at ho
      exact (Option.some.inj ho).symm
  have hpursuit : (s.setWorld world).Pursuit l := by
    have hlocks : (s.setWorld world).world.locks l = world.locks l := rfl
    refine ⟨?_, fun _ => ?_, fun _ => ?_, fun hlead => ?_⟩
    · rw [hlocks, hentered]
      rfl
    · rw [hlocks, hentered]
      rfl
    · exact hintact.append h.chronicle rfl hintact.1 fun number owner hmem =>
        World.contender_of_step hmine hstep id hmem
    · rw [hlocks, hentered] at hlead
      rcases hlead with hacquired | ⟨node, hgotten⟩
      · cases hacquired
      · cases hgotten
  have hthreads : ∀ j, j ≠ i →
      (({ s with made := Function.update s.made l true }.setWorld world).setStage i
        (.locking l)).threads j = s.threads j := fun j hj => setStage_threads_of_ne hj _ _
  have hself : (({ s with made := Function.update s.made l true }.setWorld world).setStage i
      (.locking l)).threads i = .locking l := setStage_threads_self _ _ _
  have hchronicle : (s.setWorld world).Chronicle := h.chronicle.setWorld hstep s.late
  refine ⟨hchronicle.congr rfl rfl rfl rfl, fun j => ?_, fun j j' l' hj hj' => ?_, fun j l' hj => ?_,
    fun l' hl' => ?_, fun l' hl' => ?_, h.lateDelete, h.order⟩
  · by_cases hne : j = i
    · rw [hne, hself]
      exact ⟨hmaker, hpursuit.keep ⟨rfl, id, id, fun _ => id⟩⟩
    · rw [hthreads j hne]
      exact (h.fits j).keep fun l' hl' => (hkeeps l' (hunused j l' hl')).trans ⟨rfl, id, id, fun _ => id⟩
  · by_cases hne : j = i <;> by_cases hne' : j' = i
    · rw [hne, hne']
    · rw [hne, hself] at hj
      rw [hthreads j' hne'] at hj'
      exact absurd (Option.some.inj hj).symm (hunused j' l' hj')
    · rw [hthreads j hne] at hj
      rw [hne', hself] at hj'
      exact absurd (Option.some.inj hj').symm (hunused j l' hj)
    · rw [hthreads j hne] at hj
      rw [hthreads j' hne'] at hj'
      exact h.alone j j' l' hj hj'
  · show Function.update s.made l true l' = true
    by_cases hne : j = i
    · rw [hne, hself] at hj
      rw [Option.some.inj hj, Function.update_self]
    · rw [hthreads j hne] at hj
      rw [Function.update_of_ne (hunused j l' hj)]
      exact h.made j l' hj
  · change Function.update s.made l true l' = false at hl'
    have hne : l' ≠ l := by
      rintro rfl
      rw [Function.update_self] at hl'
      cases hl'
    rw [Function.update_of_ne hne] at hl'
    obtain ⟨hnew', hintact'⟩ := h.fresh l' hl'
    exact ⟨(hkeeps l' hne).locks.trans hnew', (hkeeps l' hne).intact hintact'⟩
  · have hnow : (s.setWorld world).Leading l' :=
      (h.lateLease l' hl').1.append h.chronicle rfl rfl fun number hleads =>
        hleads.step h.chronicle.numbered hmine hstep id
    exact ⟨hnow, (h.lateLease l' hl').2⟩

/-- `lock.release` is called. -/
theorem Inv.unlock (h : s.Inv) {ending : Ending} (hi : s.threads i = .unlocking l ending)
    {world : World S.locks} (hstep : s.world.step (.thread l .release) = some world) :
    ((s.setWorld world).setStage i (.freeing l ending)).Inv := by
  have hlock : (s.threads i).lock? = some l := by rw [hi]; rfl
  have hmaker : S.maker l = S.object i := by
    have hfits := h.fits i
    rw [hi] at hfits
    exact hfits
  have hbase : { s with late := s.late ++ [] }.setWorld world = s.setWorld world := by
    rw [List.append_nil]
  have hworld : (s.setWorld world).Inv := by
    refine h.world hlock hstep rfl (fun l' hdel => hdel.elim) (fun r hr => ?_)
      (h.chronicle.setWorld hstep s.late) rfl rfl (List.append_nil _).symm (fun l' => ?_) ?_
    · cases hr
    · rw [hbase]
      exact ⟨rfl, id, id, fun _ => id⟩
    · rw [hi]
      exact hmaker
  apply hworld.setStage
  · exact hmaker
  · exact fun l' hl' => hlock.trans hl'

omit [DecidableEq ι] [DecidableEq σ] [DecidableEq θ] in
theorem eq_of_lockPrefix {name : PyStr} (h : (S.locks.config l).lockPrefix <+: name)
    (h' : (S.locks.config l').lockPrefix <+: name) : l = l' := by
  have htake : ∀ l : ι, (S.locks.config l).lockPrefix <+: name →
      name.take 32 = (S.locks.config l).uuid := by
    intro l hpre
    have huuid : (S.locks.config l).uuid <+: name := (List.prefix_append _ _).trans hpre
    rw [List.prefix_iff_eq_take.mp huuid, (S.locks.config l).uuid_length]
  exact S.locks.uuid_injective ((htake l h).symm.trans (htake l' h'))

omit [DecidableEq ι] [DecidableEq θ] in
/-- A thread whose lock object may lose its node relies on nothing about it. -/
theorem Fits.spoiled {stage : SemaphoreStage ι} (h : s.Fits k stage) (hlock : stage.lock? = some l)
    (hspoiled : ¬ s.Intact l) (hlocks : s'.world.locks l = s.world.locks l) : s'.Fits k stage := by
  cases stage with
  | locking l' =>
    obtain rfl := Option.some.inj hlock
    have hfailed : (s.world.locks l').Failed := by
      by_contra hnot
      exact hspoiled (h.2.intact hnot)
    refine ⟨h.1, ?_, ?_, ?_, ?_⟩
    · rw [hlocks]
      exact h.2.quiet
    · rw [hlocks]
      exact h.2.free
    · rw [hlocks]
      exact fun hnot => absurd hfailed hnot
    · rw [hlocks]
      intro hlead
      rcases hfailed with ⟨raising, node, hdeleting⟩ | ⟨habsent, hfree⟩ <;>
        rcases hlead with hacquired | ⟨node', hgotten⟩
      · have hfree := h.2.free (by rw [hdeleting]; nofun)
        cases hfree.symm.trans hacquired
      · cases hdeleting.symm.trans hgotten
      · cases hfree.symm.trans hacquired
      · cases habsent.symm.trans hgotten
  | counting l' | confirming l' | waiting l' =>
    obtain rfl := Option.some.inj hlock
    exact absurd h.2.1 hspoiled
  | creating l' =>
    obtain rfl := Option.some.inj hlock
    exact absurd h.2.1 hspoiled
  | unlocking l' ending | freeing l' ending => exact h
  | _ => trivial

omit [DecidableEq θ] in
/-- A delete of a lock node that has been late is carried out. -/
theorem Inv.serveDelete (h : s.Inv) {n : Nat} {name : PyStr}
    (hn : s.late[n]? = some (.deleteLock l name))
    (hfirst : ∀ r ∈ s.late.take n, lateClient S r ≠ S.client (S.maker l)) :
    ({ s with late := s.late.eraseIdx n }.setWorld (s.world.delete name)).Inv := by
  have hmem : .deleteLock l name ∈ s.late := List.mem_of_getElem? hn
  have hspoiled : ¬ s.Intact l := fun hintact => hintact.1 name hmem
  have hsublist : (s.late.eraseIdx n).Sublist s.late := List.eraseIdx_sublist ..
  have hstep : s.world.step (.vanish name) = some (s.world.delete name) := rfl
  have hkeeps : ∀ l', l' ≠ l →
      s.Keeps ({ s with late := s.late.eraseIdx n }.setWorld (s.world.delete name)) l' := by
    intro l' hne
    refine keeps_world h.chronicle hstep nofun (fun hpre => hne ?_) fun name' hname => hsublist.subset hname
    exact eq_of_lockPrefix hpre (h.lateDelete l name hmem)
  -- a lease that was asked for before would have been carried out before
  have hlease : .createLease l ∉ s.late.eraseIdx n := by
    rw [List.eraseIdx_eq_take_drop_succ, List.mem_append, not_or]
    have hlt := (List.getElem?_eq_some_iff.mp hn).1
    have horder := h.order
    rw [← List.take_append_drop n s.late, List.drop_eq_getElem_cons hlt] at horder
    have hget : s.late[n] = .deleteLock l name := by
      rw [List.getElem?_eq_getElem hlt] at hn
      exact Option.some.inj hn
    rw [hget] at horder
    refine ⟨fun hbefore => hfirst _ hbefore rfl, fun hafter => ?_⟩
    have hrest := (List.pairwise_append.mp horder).2.1
    exact List.rel_of_pairwise_cons hrest hafter l name rfl rfl
  refine ⟨h.chronicle.setWorld hstep _, fun i => ?_, h.alone, h.made, fun l' hl' => ?_, fun l' hl' => ?_,
    fun l' name' hname => h.lateDelete l' name' (hsublist.subset hname), h.order.sublist hsublist⟩
  · show Fits _ _ (s.threads i)
    cases hlock : (s.threads i).lock? with
    | none => exact (h.fits i).keep fun l' hl' => by rw [hlock] at hl'; cases hl'
    | some l' =>
      by_cases hne : l' = l
      · rw [hne] at hlock
        exact (h.fits i).spoiled hlock hspoiled rfl
      · refine (h.fits i).keep fun l'' hl'' => hkeeps l'' ?_
        rw [hlock] at hl''
        exact Option.some.inj hl'' ▸ hne
  · obtain ⟨hnew, hintact⟩ := h.fresh l' hl'
    have hne : l' ≠ l := fun heq => hspoiled (heq ▸ hintact)
    exact ⟨(hkeeps l' hne).locks.trans hnew, (hkeeps l' hne).intact hintact⟩
  · have hne : l' ≠ l := fun heq => hlease (heq ▸ hl')
    obtain ⟨hleading, hroom⟩ := h.lateLease l' (hsublist.subset hl')
    exact ⟨(hkeeps l' hne).leading hleading, (hkeeps l' hne).room hleading hroom⟩

omit [DecidableEq θ] in
theorem Inv.serveLate (h : s.Inv) {n : Nat} {r : LateWrite σ ι} (hn : s.late[n]? = some r)
    (hfirst : ∀ r' ∈ s.late.take n, lateClient S r' ≠ lateClient S r) :
    ({ s with late := s.late.eraseIdx n }.serve r).Inv := by
  have herased := h.withLate (List.eraseIdx_sublist s.late n)
  cases r with
  | createLease l =>
    obtain ⟨hleading, hroom⟩ := h.lateLease l (List.mem_of_getElem? hn)
    unfold serve
    dsimp only
    split
    · exact herased
    · next hnone => exact herased.lease (hleading.congr rfl rfl) hroom hnone
  | deleteLease k => exact herased.erase k
  | deleteLock l name => exact h.serveDelete hn hfirst

omit [DecidableEq θ] in
theorem Inv.serveLateNode (h : s.Inv) {n number : Nat} {world : World S.locks}
    (hstep : s.world.step (.createLate n number) = some world) : (s.setWorld world).Inv := by
  refine h.server (h.chronicle.setWorld hstep s.late) rfl rfl rfl fun l => ?_
  exact keeps_world h.chronicle hstep (fun heq => by cases heq) id fun _ => id

/-! ## Steps and runs -/

omit [DecidableEq ι] [DecidableEq σ] [DecidableEq θ] in
theorem actor_of_acquires {act : LockAct S.locks} (h : act.acquires l) :
    World.actor? act = some l ∧ ∀ l', World.Deletes l' act → l' = l ∧ act.writes = true := by
  cases act
  case thread l₀ act =>
    obtain rfl := h.1
    exact ⟨rfl, fun l' hdel => hdel.elim⟩
  case create l₀ number =>
    obtain rfl : l₀ = l := h
    exact ⟨rfl, fun l' hdel => hdel.elim⟩
  case createFail l₀ e =>
    obtain rfl : l₀ = l := h
    exact ⟨rfl, fun l' hdel => hdel.elim⟩
  case clean l₀ =>
    obtain rfl : l₀ = l := h
    exact ⟨rfl, fun l' hdel => ⟨Eq.symm hdel, rfl⟩⟩
  all_goals cases h

omit [DecidableEq ι] [DecidableEq σ] [DecidableEq θ] in
theorem actor_of_releases {act : LockAct S.locks} (h : act.releases l) :
    World.actor? act = some l ∧ ∀ l', World.Deletes l' act → l' = l ∧ act.writes = true := by
  cases act
  case thread l₀ act =>
    obtain rfl := h.1
    exact ⟨rfl, fun l' hdel => hdel.elim⟩
  case delete l₀ n =>
    obtain rfl : l₀ = l := h
    exact ⟨rfl, fun l' hdel => ⟨Eq.symm hdel, rfl⟩⟩
  all_goals cases h

theorem Inv.failing (h : s.Inv) {e : Exn} (hstep : s.failing i e = some s') : s'.Inv := by
  have hfits := h.fits i
  unfold Pool.failing at hstep
  split at hstep
  case h_5 l hi =>
    cases hstep
    rw [hi] at hfits
    exact h.goOn hi rfl hfits.1
  case h_6 l hi =>
    cases hstep
    rw [hi] at hfits
    exact h.goOn hi rfl hfits.1
  case h_7 l hi =>
    cases hstep
    rw [hi] at hfits
    have hlost : (s.lose (.createLease l)).Inv := by
      apply h.lose
      · exact fun l' name => nofun
      · intro l' heq
        cases heq
        exact hfits.2
    exact hlost.goOn hi rfl hfits.1
  case h_8 =>
    cases hstep
    have hlost : (s.lose (.deleteLease (S.object i))).Inv := h.lose (fun l name => nofun) fun l => nofun
    split
    · exact hlost.cleaned
    · exact hlost.drop rfl
  case h_9 =>
    split at hstep <;> cases hstep
    have hlost : (s.lose (.deleteLease (S.object i))).Inv := h.lose (fun l name => nofun) fun l => nofun
    split <;> exact hlost.drop rfl
  case h_10 => cases hstep
  all_goals
    cases hstep
    exact h.finish _

/-- `lock.acquire` has returned `True`. -/
theorem Inv.locked (h : s.Inv) (hi : s.threads i = .locking l)
    (habsent : (s.world.locks l).stage = .absent) (hheld : (s.world.locks l).isAcquired = true) :
    (s.setStage i (.counting l)).Inv := by
  have hfits := h.fits i
  rw [hi] at hfits
  obtain ⟨hmaker, hpursuit⟩ := hfits
  have hhealthy : ¬ (s.world.locks l).Failed := by
    rintro (⟨raising, node, hdeleting⟩ | ⟨-, hfree⟩)
    · cases habsent.symm.trans hdeleting
    · cases hheld.symm.trans hfree
  exact h.goOn hi rfl ⟨hmaker, hpursuit.intact hhealthy, hpursuit.leading (.inl hheld)⟩

/-- `_get_lease` reads the leases. -/
theorem Inv.count (h : s.Inv) (hi : s.threads i = .counting l) {place : Nat} {x : PoolState S}
    (hx : s.shown? (S.client (S.object i)) place = some x) :
    ((s.see (S.client (S.object i)) place).setStage i
      (if x.2.length < S.maxLeases then .creating l else .confirming l)).Inv := by
  have hfits := h.fits i
  rw [hi] at hfits
  obtain ⟨hmaker, hintact, hleading⟩ := hfits
  obtain ⟨hview, -, -⟩ := of_shown hx
  have hseen := h.see hx
  have hkeeps := keeps_see s hview l
  split
  · next hcount =>
    rw [← hmaker] at hx
    have hroom := hleading.room h.chronicle hx hcount
    exact hseen.goOn hi rfl
      ⟨hmaker, hkeeps.intact hintact, hkeeps.leading hleading, hkeeps.room hleading hroom⟩
  · exact hseen.goOn hi rfl ⟨hmaker, hkeeps.intact hintact, hkeeps.leading hleading⟩

/-- `_get_lease` creates the lease. -/
theorem Inv.create (h : s.Inv) (hi : s.threads i = .creating l) (hnone : S.object i ∉ s.leases) :
    (((s.setLeases (S.object i :: s.leases)).synced (S.client (S.object i))).setStage i
      (.confirming l)).Inv := by
  have hfits := h.fits i
  rw [hi] at hfits
  obtain ⟨hmaker, hintact, hleading, hroom⟩ := hfits
  rw [← hmaker] at hnone ⊢
  have hleased := h.lease hleading hroom hnone
  have hkeeps := keeps_lease h.chronicle hleading l
  have hview := hleased.chronicle.views (S.client (S.maker l))
  have hlearns : (s.setLeases (S.maker l :: s.leases)).Keeps
      ((s.setLeases (S.maker l :: s.leases)).synced (S.client (S.maker l))) l :=
    keeps_see _ (Nat.le_sub_one_of_lt hview) l
  have hkeeps' := hkeeps.trans hlearns
  refine (hleased.synced _).goOn hi rfl ?_
  exact ⟨hmaker, hkeeps'.intact hintact, hkeeps'.leading hleading⟩

/-- The last `client.exists` of `_get_lease`. -/
theorem Inv.confirm (h : s.Inv) (hi : s.threads i = .confirming l) {place : Nat} {x : PoolState S}
    (hx : s.shown? (S.client (S.object i)) place = some x) (o : SemaphoreObject)
    {stage : SemaphoreStage ι} (hstage : stage = .waiting l ∨ ∃ ending, stage = .unlocking l ending) :
    (((s.see (S.client (S.object i)) place).setObject (S.object i) o).setStage i stage).Inv := by
  have hfits := h.fits i
  rw [hi] at hfits
  obtain ⟨hmaker, hintact, hleading⟩ := hfits
  obtain ⟨hview, -, -⟩ := of_shown hx
  have hseen := (h.see hx).setObject (S.object i) o
  rcases hstage with rfl | ⟨ending, rfl⟩
  · have hkeeps := keeps_see s hview l
    exact hseen.goOn hi rfl ⟨hmaker, hkeeps.intact hintact, hkeeps.leading hleading⟩
  · exact hseen.goOn hi rfl hmaker

theorem Inv.step (h : s.Inv) {act : SemaphoreAct S} (hstep : s.step act = some s') : s'.Inv := by
  cases steps_of_step hstep with
  | @acquire i blocking timed =>
    have hcalls : { s with calls := Function.update s.calls i ⟨blocking, timed⟩ }.Inv :=
      ⟨h.chronicle.congr rfl rfl rfl rfl,
        fun j => (h.fits j).keep fun _ _ => ⟨rfl, id, id, fun _ => id⟩, h.alone, h.made, h.fresh,
        h.lateLease, h.lateDelete, h.order⟩
    exact (hcalls.setObject _ _).drop rfl
  | attempt => split <;> exact h.drop rfl
  | @ensure i existed => cases existed <;> exact (h.setObject _ _).drop rfl
  | check | store | again | againRelease | release | giveUpRelease => exact h.drop rfl
  | checkFailed | giveUp | freed | freedRaised => exact h.finish _
  | look _ hshown => exact (h.see hshown).drop rfl
  | lookFound _ hshown => exact (h.see hshown).finish _
  | make _ hfresh hmaker hentered => exact h.make hfresh hmaker hentered
  | @lock i act place l _ hi hact hlock =>
    obtain ⟨hactor, hdeletes⟩ := actor_of_acquires hact
    have hfits := h.fits i
    rw [hi] at hfits
    obtain ⟨hmaker, hpursuit⟩ := hfits
    refine h.lockStep (by rw [hi]; rfl) hmaker hactor hdeletes hlock ?_
    rw [← hmaker] at hlock
    rw [hi]
    exact ⟨hmaker, hpursuit.lockStep h.chronicle hact hlock⟩
  | locked hi habsent hheld => exact h.locked hi habsent hheld
  | @notLocked i l hi | @lockRaised i _ l hi | @countCancelled i _ l hi | @createExists i l hi
  | @timeOut i l hi =>
    have hfits := h.fits i
    rw [hi] at hfits
    exact h.goOn hi rfl hfits.1
  | count hi _ hshown => exact h.count hi hshown
  | create hi _ hnone => exact h.create hi hnone
  | confirm hi hshown =>
    apply h.confirm hi hshown
    split
    · exact .inr ⟨_, rfl⟩
    · split
      · exact .inl rfl
      · exact .inr ⟨_, rfl⟩
  | @wake i l hi =>
    have hfits := h.fits i
    rw [hi] at hfits
    exact h.goOn hi rfl hfits
  | unlock hi hworld => exact h.unlock hi hworld
  | @free i act l ending _ hi hact hfree =>
    obtain ⟨hactor, hdeletes⟩ := actor_of_releases hact
    have hfits := h.fits i
    rw [hi] at hfits
    refine h.lockStep (by rw [hi]; rfl) hfits hactor hdeletes hfree ?_
    rw [hi]
    exact hfits
  | fail hfails => exact h.failing hfails
  | clean => exact ((h.erase _).synced _).cleaned
  | test => split <;> exact h.drop rfl
  | delete => exact (((h.erase _).synced _).setObject _ _).drop rfl
  | cancel => exact h.setObject _ _
  | serveLate hn hfirst => exact h.serveLate hn hfirst
  | loseLate => exact h.withLate (List.eraseIdx_sublist s.late _)
  | serveLateNode hworld => exact h.serveLateNode hworld

omit [DecidableEq θ] in
theorem inv_new : (new : Pool S).Inv where
  chronicle := by
    refine ⟨.init, ⟨[], rfl⟩, fun _ => Nat.one_pos, fun x hx => ?_, List.pairwise_singleton _ _,
      fun x hx l l' n owner owner' hmem => ?_, fun _ _ _ k hk => ?_, .nil, Nat.zero_le _⟩
    · rw [List.mem_singleton.mp hx]
      exact List.mem_singleton_self _
    · rw [List.mem_singleton.mp hx] at hmem
      cases hmem
    · cases hk
  fits := fun _ => trivial
  alone := nofun
  made := nofun
  fresh := fun l _ => ⟨rfl, nofun, List.pairwise_singleton _ _⟩
  lateLease := nofun
  lateDelete := nofun
  order := .nil

theorem inv_of_reachable (h : (leasing S).Reachable s) : s.Inv := by
  apply h.invariant inv_new
  intro s act _ hinv henabled _
  obtain ⟨s', hs'⟩ := Option.isSome_iff_exists.mp henabled
  show ((s.step act).getD s).Inv
  rw [hs']
  exact hinv.step hs'

/-- The leases of a semaphore path are never more than `max_leases`, and no semaphore has two. -/
theorem leases_within_capacity (S : Semaphores σ θ ι) {s : Pool S} (h : (leasing S).Reachable s) :
    s.leases.length ≤ S.maxLeases ∧ ∀ k, s.leases.count k ≤ 1 :=
  ⟨(inv_of_reachable h).chronicle.bound,
    List.nodup_iff_count_le_one.mp (inv_of_reachable h).chronicle.nodup⟩

/-- Two semaphores of two clients, for one lease. -/
def oneLease : Semaphores Bool Bool Bool where
  maxLeases := 1
  client := fun k => if k then 1 else 0
  object := id
  locks := {
    config := fun l =>
      { kind := .lock
        uuid := List.replicate 32 (CodePoint.ofChar (if l then 'a' else 'b'))
        uuid_length := World.length_uuid l
        extraLockPatterns := []
        excludeNames := EXCLUDE_NAMES .lock
        mem_excludeNames := World.mem_EXCLUDE_NAMES_iff .lock
        client := if l then 1 else 0 }
    uuid_injective := fun l l' h => by
      revert h
      cases l <;> cases l' <;> decide
    oneFamily := .inl fun _ => rfl
    decimal := fun c => 48 ≤ c.val && c.val ≤ 57
    decimal_ascii := World.digitChar_ascii }
  maker := id
  kind_eq := fun _ => rfl
  client_eq := fun _ => rfl

/-- `_inner_acquire` with a free lock, up to `_get_lease`, in a log of `places` states. -/
def counts (l : Bool) (number places : Nat) : List (SemaphoreAct oneLease) :=
  [.acquire l false false, .attempt l, .ensure l true, .check l (some 1), .look l (places - 1), .make l l,
    .lock l (.thread l .look) 0, .lock l (.thread l .attempt) 0, .lock l (.thread l .ensure) 0,
    .lock l (.thread l (.find [])) (places + 3), .lock l (.create l number) 0, .lock l (.thread l .store) 0,
    .lock l (.thread l .contend) 0,
    .lock l (.thread l (.compare [(oneLease.locks.config l).nodeName number])) (places + 5),
    .lock l (.thread l .mark) 0, .locked l none, .count l (places + 8)]

/-- `lock.release`. -/
def frees (l : Bool) : List (SemaphoreAct oneLease) :=
  [.unlock l, .free l (.thread l (.test 0)), .free l (.thread l (.read 0)), .free l (.delete l 0),
    .free l (.thread l (.unmark 0)), .free l (.thread l (.clear 0)), .freed l none]

/-- The first semaphore gets the lease, and the second finds it taken. -/
def takenLease : List (SemaphoreAct oneLease) :=
  counts false 0 1 ++ [.create false, .confirm false 11] ++ frees false ++ counts true 1 18 ++
    [.confirm true 26]

theorem leases_within_capacity_taken :
    ((leasing oneLease).exec (leasing oneLease).init takenLease).leases.length ≤ 1 ∧
      ∀ k, ((leasing oneLease).exec (leasing oneLease).init takenLease).leases.count k ≤ 1 :=
  leases_within_capacity oneLease (.of_legal (by decide +kernel))

end Pool

end Kazoo
