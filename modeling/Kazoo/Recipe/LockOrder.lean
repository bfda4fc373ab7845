import Kazoo.Recipe.LockNodes
import Kazoo.Recipe.Predecessor

/-!
# The order of holders

Locks are granted in the order in which the server has created the nodes of their contenders: over a
run the numbers of the holders only grow, and nobody who came later gets in front of a contender that is
still there.
-/

namespace Kazoo

/-- The contenders that stop a lock object are all that do. -/
theorem LockConfig.getPredecessor_of_behind {c : LockConfig} {decimal : CodePoint → Bool} {node : PyStr}
    {children : List PyStr} (hnode : node ∈ children)
    (hbehind : ∀ child ∈ children, ∀ found,
      contendersSearch decimal c.excludeNames child = some found → ¬ found < node.drop c.lockPrefix.length) :
    c.getPredecessor decimal node children = .ok none := by
  have hnil : c.contenderMatches decimal node children = [] := by
    refine List.filterMap_eq_nil_iff.mpr fun child hchild => ?_
    split
    · next found hfound => exact if_neg (hbehind child hchild found hfound)
    · rfl
  rw [getPredecessor_eq, if_neg (not_not.mpr hnode), hnil]
  rfl

variable {ι : Type} {L : Locks ι}

namespace World

variable {w w' : World L} {l l' : ι} {n n' : Nat}

/-- The lock object holds the lock with its node of this number. -/
def HoldsWith (w : World L) (l : ι) (n : Nat) : Prop :=
  (w.locks l).isAcquired = true ∧ (∃ owner, Znode.contender l n owner ∈ w.nodes) ∧
    ((w.locks l).node = some ((L.config l).nodeName n) ∨
      (w.locks l).acquiredWith = some ((L.config l).nodeName n))

theorem HoldsWith.holds (h : w.HoldsWith l n) : w.Holds l := by
  obtain ⟨hacquired, ⟨owner, hmem⟩, hnode⟩ := h
  exact ⟨hacquired, _, List.mem_map_of_mem hmem, hnode⟩

theorem Sound.exists_holdsWith (hs : w.Sound) (h : w.Holds l) : ∃ n, w.HoldsWith l n := by
  obtain ⟨hacquired, node, hnode, hits⟩ := h
  obtain ⟨node', hwith, ⟨number, hnumber, rfl, -⟩, hstored⟩ := (hs.locks l).acquired hacquired
  obtain rfl : node = (L.config l).nodeName number := by
    obtain h | h := hits
    · exact hstored node h
    · exact Option.some.inj (h.symm.trans hwith)
  exact ⟨number, hacquired, hs.contender_of_mem hnumber hnode, hits⟩

/-- A contender that waits for others has none of them in front of it when it holds. -/
theorem Sound.first_of_holdsWith (hs : w.Sound) (h : w.HoldsWith l n) : w.First l n := by
  obtain ⟨hacquired, ⟨owner, hmem⟩, hits⟩ := h
  obtain ⟨node, hwith, ⟨number, hnumber, rfl, hfirst⟩, hstored⟩ := (hs.locks l).acquired hacquired
  have hbound := hs.numbered.bound
  have hn := hs.numbered.fresh _ hs.numbered.current l n owner hmem
  have hname : (L.config l).nodeName n = (L.config l).nodeName number := by
    obtain hnode | hnode := hits
    · exact hstored _ hnode
    · exact Option.some.inj (hnode.symm.trans hwith)
  obtain ⟨-, rfl⟩ := Locks.nodeName_injective (Nat.lt_of_lt_of_le hn hbound)
    (Nat.lt_of_lt_of_le hnumber hbound) hname
  exact hfirst

/-- Two lock objects that exclude each other. -/
def Exclude (L : Locks ι) (l l' : ι) : Prop :=
  (L.config l).kind ≠ .readLock ∨ (L.config l').kind ≠ .readLock

theorem Exclude.excludes (h : Exclude L l l') :
    NODE_NAME (L.config l').kind ∈ (L.config l).excludeNames ∧
      NODE_NAME (L.config l).kind ∈ (L.config l').excludeNames := by
  obtain h | h := h
  · exact Locks.excludes h l'
  · exact (Locks.excludes h l).symm

theorem Grows.trans {w'' : World L} (h : Grows w w') (h' : Grows w' w'') : Grows w w'' :=
  ⟨h.next.trans h'.next, fun l n owner hmem => (h'.nodes l n owner hmem).elim (h.nodes l n owner)
    fun hnew => .inr (h.next.trans hnew)⟩

/-- The names of others do not look like contenders to the lock object. -/
def Unmistaken (w : World L) (l : ι) : Prop :=
  ∀ child, Znode.other child ∈ w.nodes →
    contendersSearch L.decimal (L.config l).excludeNames child.name = none

/-- With nobody in front of it, a contender has no predecessor among the children there are. -/
theorem Sound.getPredecessor_of_first (hs : w.Sound) {owner : Option SessionId}
    (hmem : Znode.contender l n owner ∈ w.nodes) (hkind : (L.config l).kind ≠ .readLock)
    (hfirst : w.First l n) (hnames : w.Unmistaken l) :
    (L.config l).getPredecessor L.decimal ((L.config l).nodeName n) (w.nodes.map Znode.name) =
      .ok none := by
  have hbound := hs.numbered.bound
  have hn := hs.numbered.fresh _ hs.numbered.current l n owner hmem
  refine LockConfig.getPredecessor_of_behind (List.mem_map_of_mem hmem) fun child hchild found hfound hlt => ?_
  obtain ⟨x, hx, rfl⟩ := List.mem_map.mp hchild
  cases x with
  | other child =>
    rw [Znode.name, hnames child hx] at hfound
    cases hfound
  | contender l' n' owner' =>
    have hn' := hs.numbered.fresh _ hs.numbered.current l' n' owner' hx
    obtain ⟨rfl, -⟩ := eq_of_contendersSearch (Nat.lt_of_lt_of_le hn' hbound) hfound
    rw [LockConfig.drop_nodeName] at hlt
    have hbefore := (sequenceText_lt_iff (Nat.lt_of_lt_of_le hn' hbound) (Nat.lt_of_lt_of_le hn hbound)).mp hlt
    exact hfirst l' n' owner' hx hbefore (Locks.excludes hkind l').1

variable [DecidableEq ι]

theorem post_of_enabled {act : LockAct L} (hen : (contention L).enabled w act) :
    w.step act = some ((contention L).post w act) := by
  obtain ⟨w', hw'⟩ := Option.isSome_iff_exists.mp hen
  show w.step act = some ((w.step act).getD w)
  rw [hw', Option.getD_some]

theorem grows_of_legal {acts : List (LockAct L)} (h : (contention L).Legal Machine.Free w acts) :
    Grows w ((contention L).exec w acts) := by
  induction acts generalizing w with
  | nil => exact .of_eq rfl rfl
  | cons act acts ih =>
    obtain ⟨hen, -, hrest⟩ := h
    exact (grows_of_step (post_of_enabled hen)).trans (ih hrest)

/-- A contender that is there was there before every later one. -/
theorem contender_before {acts : List (LockAct L)} (hr : (contention L).Reachable w)
    (hacts : (contention L).Legal Machine.Free w acts) {owner owner' : Option SessionId}
    (hmem : Znode.contender l n owner ∈ w.nodes)
    (hmem' : Znode.contender l' n' owner' ∈ ((contention L).exec w acts).nodes) (hle : n' ≤ n) :
    Znode.contender l' n' owner' ∈ w.nodes := by
  have hs := sound_of_reachable hr
  have hn := hs.numbered.fresh _ hs.numbered.current l n owner hmem
  exact ((grows_of_legal hacts).nodes l' n' owner' hmem').resolve_right (by omega)

/-- Over a run the numbers of the holders only grow: who held the lock before had its node before. -/
theorem holders_in_order {acts : List (LockAct L)} (hr : (contention L).Reachable w)
    (hacts : (contention L).Legal Machine.Free w acts) (hexclude : Exclude L l l')
    (hheld : w.HoldsWith l n) (hheld' : ((contention L).exec w acts).HoldsWith l' n') :
    n < n' ∨ n = n' ∧ l = l' := by
  obtain ⟨-, ⟨owner, hmem⟩, -⟩ := id hheld
  obtain ⟨-, ⟨owner', hmem'⟩, -⟩ := id hheld'
  obtain hlt | rfl | hgt := Nat.lt_trichotomy n n'
  · exact .inl hlt
  · have hthere := contender_before hr hacts hmem hmem' le_rfl
    exact .inr ⟨rfl, (sound_of_reachable hr).numbered.unique l l' n owner owner' hmem hthere⟩
  · have hthere := contender_before hr hacts hmem hmem' hgt.le
    exact absurd hexclude.excludes.1
      ((sound_of_reachable hr).first_of_holdsWith hheld l' n' owner' hthere hgt)

/-- While a contender waits, the lock is held by contenders alone whose nodes were in front of its own
when it was created: nobody overtakes it. -/
theorem never_overtaken {acts : List (LockAct L)} (hr : (contention L).Reachable w)
    (hacts : (contention L).Legal Machine.Free w acts) (hexclude : Exclude L l l') (hne : l ≠ l')
    {owner : Option SessionId} (hmem : Znode.contender l n owner ∈ w.nodes)
    (hstays : Znode.contender l n owner ∈ ((contention L).exec w acts).nodes)
    (hheld : ((contention L).exec w acts).HoldsWith l' n') :
    n' < n ∧ ∃ owner', Znode.contender l' n' owner' ∈ w.nodes := by
  have hs' := sound_of_reachable (hr.exec hacts)
  obtain ⟨-, ⟨owner', hmem'⟩, -⟩ := id hheld
  have hlt : n' < n := by
    obtain hlt | rfl | hgt := Nat.lt_trichotomy n' n
    · exact hlt
    · exact absurd (hs'.numbered.unique l l' n' owner owner' hstays hmem') hne
    · exact absurd hexclude.excludes.2 (hs'.first_of_holdsWith hheld l n owner hstays hgt)
  exact ⟨hlt, owner', contender_before hr hacts hmem hmem' hlt.le⟩

/-! ## The contender in front -/

/-- Its next steps, from the head of the loop in `_inner_acquire`. -/
def takes (l : ι) (children : List PyStr) : List (LockAct L) :=
  [.thread l .contend, .thread l (.compare children), .thread l .mark]

/-- The writer holds the lock. -/
def writerFirst : World writerAndReader :=
  (contention writerAndReader).exec .new (acquiring true 0 [] ++ [.thread true .mark])

/-- It releases the lock, and the reader acquires it. -/
def readerNext : List (LockAct writerAndReader) :=
  [.thread true .release, .thread true (.test 0), .thread true (.read 0), .delete true 0,
    .thread true (.unmark 0), .thread true (.clear 0)] ++ acquiring false 1 [] ++ [.thread false .mark]

theorem reachable_writerFirst : (contention writerAndReader).Reachable writerFirst :=
  .of_legal (by decide +kernel)

theorem legal_readerNext : (contention writerAndReader).Legal Machine.Free writerFirst readerNext := by
  decide +kernel

theorem holdsWith_writerFirst : ∃ n, writerFirst.HoldsWith true n :=
  (sound_of_reachable reachable_writerFirst).exists_holdsWith (by decide +kernel)

theorem holdsWith_readerNext :
    ∃ n, ((contention writerAndReader).exec writerFirst readerNext).HoldsWith false n :=
  (sound_of_reachable (reachable_writerFirst.exec legal_readerNext)).exists_holdsWith (by decide +kernel)

theorem holders_in_order_writerFirst :
    ∃ n n' : Nat, writerFirst.HoldsWith true n ∧
      ((contention writerAndReader).exec writerFirst readerNext).HoldsWith false n' ∧ n < n' := by
  obtain ⟨n, hheld⟩ := holdsWith_writerFirst
  obtain ⟨n', hheld'⟩ := holdsWith_readerNext
  have horder := holders_in_order reachable_writerFirst legal_readerNext (.inl (by decide)) hheld hheld'
  exact ⟨n, n', hheld, hheld', horder.resolve_right fun h => absurd h.2 (by decide)⟩

/-- The reader's node is there, and the writer holds the lock. -/
def readerWaits : World writerAndReader :=
  (contention writerAndReader).exec writerFirst
    (acquiring false 1 [(writerAndReader.config true).nodeName 0])

theorem reachable_readerWaits : (contention writerAndReader).Reachable readerWaits :=
  reachable_writerFirst.exec (by decide +kernel)

theorem never_overtaken_readerWaits : ∃ n < 1, readerWaits.HoldsWith true n := by
  have hs := sound_of_reachable reachable_readerWaits
  obtain ⟨owner, hmem⟩ := hs.contender_of_mem (show 1 < readerWaits.next by decide +kernel)
    (show (writerAndReader.config false).nodeName 1 ∈ _ by decide +kernel)
  obtain ⟨n, hheld⟩ := hs.exists_holdsWith (l := true) (by decide +kernel)
  have hr := reachable_readerWaits
  generalize readerWaits = w at hr hmem hheld
  exact ⟨n, (never_overtaken hr (show (contention writerAndReader).Legal Machine.Free w [] from trivial)
    (.inr (by decide)) (by decide) hmem hmem hheld).1, hheld⟩

/-- The writer alone, with its node created. -/
def writerReady : World writerAndReader :=
  (contention writerAndReader).exec .new
    [.thread true (.enter true false true), .thread true .look, .thread true .attempt, .thread true .ensure,
      .thread true (.find []), .create true 0, .thread true .store]

end World

end Kazoo
