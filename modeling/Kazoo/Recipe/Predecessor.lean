import Kazoo.Lib.Adjacent
import Kazoo.Recipe.SequenceOrder

/-!
# The predecessor of a contender

`_get_predecessor` and `contenders` of `kazoo/recipe/lock.py`: as long as the contenders have different
numbers of ten digits, the predecessor is the contender with the greatest smaller number, and for a
plain lock the one right before in the order of `contenders`.
-/

namespace Kazoo

/-- `sorted(matches, key=lambda m: m.groups())`, of matches with their strings. -/
def sortedMatches (contenderMatches : List (PyStr × PyStr)) : List (PyStr × PyStr) :=
  contenderMatches.insertionSort fun m m' => ¬ m'.1 < m.1

/-- `contender_nodes` of `contenders`, given the children it reads, and the names in the order in which
they are joined. -/
def contenderNodes (decimal : CodePoint → Bool) (names children : List PyStr) : List PyStr :=
  (sortedMatches (children.filterMap fun child =>
    (contendersSearch decimal names child).map fun contenderSequence =>
      (contenderSequence, child))).map Prod.snd

/-- The loop of `contenders` over its nodes, given what `client.get` returns or raises for each. -/
def contendersData (get : PyStr → Except Exn (Option Bytes)) : List PyStr → Except Exn (List PyStr)
  | [] => .ok []
  | node :: nodes =>
    match get node with
    | .ok none => contendersData get nodes
    | .ok (some data) => do
      let data ← data.decode
      return data :: (← contendersData get nodes)
    | .error e => if e = .noNodeError then contendersData get nodes else .error e

/-- `contenders`. -/
def contenders (decimal : CodePoint → Bool) (names children : List PyStr)
    (get : PyStr → Except Exn (Option Bytes)) : Except Exn (List PyStr) :=
  contendersData get (contenderNodes decimal names children)

/-- The children in which the expression finds one of the names and a number. -/
def contenderChildren (decimal : CodePoint → Bool) (names children : List PyStr) : List PyStr :=
  children.filter fun child => (contendersSearch decimal names child).isSome

/-- The contenders have different numbers of ten digits. -/
structure Numbers (decimal : CodePoint → Bool) (names children : List PyStr) (number : PyStr → Nat) :
    Prop where
  reads : ∀ child ∈ children, ∀ contenderSequence,
    contendersSearch decimal names child = some contenderSequence →
      number child < sequenceLimit ∧ contenderSequence = sequenceText (number child)
  nodup : ((contenderChildren decimal names children).map number).Nodup

section

variable {decimal : CodePoint → Bool} {names children : List PyStr} {number : PyStr → Nat}
  {child p : PyStr} {k : Nat} {c : LockConfig}

theorem pairwise_sortedMatches (contenderMatches : List (PyStr × PyStr)) :
    (sortedMatches contenderMatches).Pairwise fun m m' => ¬ m'.1 < m.1 := by
  have : Std.Total fun m m' : PyStr × PyStr => ¬ m'.1 < m.1 := ⟨fun m m' => List.le_total m.1 m'.1⟩
  have : IsTrans (PyStr × PyStr) fun m m' => ¬ m'.1 < m.1 := ⟨fun _ _ _ => List.le_trans⟩
  exact List.pairwise_insertionSort _ contenderMatches

theorem mem_contenderChildren : child ∈ contenderChildren decimal names children ↔
    child ∈ children ∧ ∃ contenderSequence,
      contendersSearch decimal names child = some contenderSequence := by
  rw [contenderChildren, List.mem_filter, Option.isSome_iff_exists]

theorem sequenceText_lt_iff {a b : Nat} (ha : a < sequenceLimit) (hb : b < sequenceLimit) :
    sequenceText a < sequenceText b ↔ a < b :=
  FixedWidth.digits_lt_digits_iff digitChar_lt ha hb

namespace LockConfig

/-- What `_get_predecessor` takes for matches are the contenders with a smaller number. -/
theorem mem_contenderMatches (h : Numbers decimal c.excludeNames children number)
    (hk : k < sequenceLimit) {contenderSequence : PyStr} :
    (contenderSequence, child) ∈ c.contenderMatches decimal (c.nodeName k) children ↔
      child ∈ contenderChildren decimal c.excludeNames children ∧ number child < k ∧
        contenderSequence = sequenceText (number child) := by
  rw [contenderMatches, List.mem_filterMap, mem_contenderChildren, c.drop_nodeName]
  constructor
  · rintro ⟨name, hname, hmatch⟩
    split at hmatch
    · next found hsearch =>
      obtain ⟨hlt, heq⟩ := Option.ite_none_right_eq_some.mp hmatch
      cases heq
      obtain ⟨hlimit, hfound⟩ := h.reads child hname contenderSequence hsearch
      rw [hfound, sequenceText_lt_iff hlimit hk] at hlt
      exact ⟨⟨hname, contenderSequence, hsearch⟩, hlt, hfound⟩
    · cases hmatch
  · rintro ⟨⟨hmem, found, hsearch⟩, hlt, rfl⟩
    obtain ⟨hlimit, rfl⟩ := h.reads child hmem found hsearch
    refine ⟨child, hmem, ?_⟩
    rw [hsearch]
    exact if_pos ((sequenceText_lt_iff hlimit hk).mpr hlt)

theorem getPredecessor_nodeName (hnode : c.nodeName k ∈ children) :
    c.getPredecessor decimal (c.nodeName k) children =
      .ok ((sortedMatches (c.contenderMatches decimal (c.nodeName k) children)).getLast?.map
        Prod.snd) := by
  rw [getPredecessor_eq, if_neg (not_not.mpr hnode), sortedMatches]

theorem getPredecessor_eq_none_iff (h : Numbers decimal c.excludeNames children number)
    (hk : k < sequenceLimit) (hnode : c.nodeName k ∈ children) :
    c.getPredecessor decimal (c.nodeName k) children = .ok none ↔
      ∀ child ∈ contenderChildren decimal c.excludeNames children, ¬ number child < k := by
  rw [getPredecessor_nodeName hnode, Except.ok.injEq, Option.map_eq_none_iff,
    List.getLast?_eq_none_iff, List.eq_nil_iff_forall_not_mem]
  constructor
  · intro hnone child hchild hlt
    exact hnone _ ((List.mem_insertionSort _).mpr
      ((mem_contenderMatches h hk).mpr ⟨hchild, hlt, rfl⟩))
  · rintro hnone ⟨found, child⟩ hmem
    obtain ⟨hchild, hlt, -⟩ := (mem_contenderMatches h hk).mp ((List.mem_insertionSort _).mp hmem)
    exact hnone child hchild hlt

/-- The last of the sorted matches has the greatest number. -/
theorem precedes_of_getPredecessor (h : Numbers decimal c.excludeNames children number)
    (hk : k < sequenceLimit) (hnode : c.nodeName k ∈ children)
    (hp : c.getPredecessor decimal (c.nodeName k) children = .ok (some p)) :
    Precedes number (contenderChildren decimal c.excludeNames children) k p := by
  rw [getPredecessor_nodeName hnode, Except.ok.injEq] at hp
  obtain ⟨⟨found, name⟩, hlast, rfl⟩ := Option.map_eq_some_iff.mp hp
  have hsorted := List.mem_of_getLast? hlast
  obtain ⟨hname, hlt, rfl⟩ := (mem_contenderMatches h hk).mp ((List.mem_insertionSort _).mp hsorted)
  refine ⟨hname, hlt, fun child hchild hbelow => ?_⟩
  have hmatch : (sequenceText (number child), child) ∈
      sortedMatches (c.contenderMatches decimal (c.nodeName k) children) :=
    (List.mem_insertionSort _).mpr ((mem_contenderMatches h hk).mpr ⟨hchild, hbelow, rfl⟩)
  have hrel := rel_getLast (pairwise_sortedMatches _) (fun m => List.lt_irrefl m.1) hlast hmatch
  by_contra hgreater
  exact hrel (sequenceText_lt (Nat.lt_of_not_le hgreater) (Nat.lt_trans hbelow hk))

theorem getPredecessor_eq_some_iff (h : Numbers decimal c.excludeNames children number)
    (hk : k < sequenceLimit) (hnode : c.nodeName k ∈ children) :
    c.getPredecessor decimal (c.nodeName k) children = .ok (some p) ↔
      Precedes number (contenderChildren decimal c.excludeNames children) k p := by
  constructor
  · exact precedes_of_getPredecessor h hk hnode
  · intro hp
    cases hpred : c.getPredecessor decimal (c.nodeName k) children with
    | error e =>
      rw [getPredecessor_nodeName hnode] at hpred
      cases hpred
    | ok predecessor =>
      cases predecessor with
      | none =>
        exact absurd hp.below ((getPredecessor_eq_none_iff h hk hnode).mp hpred p hp.mem)
      | some q =>
        -- the numbers are different
        have hq := precedes_of_getPredecessor h hk hnode hpred
        rw [List.inj_on_of_nodup_map h.nodup hq.mem hp.mem (hq.key_eq hp)]

end LockConfig

/-! ## The order of `contenders` -/

theorem contenderNodes_perm : (contenderNodes decimal names children).Perm
    (contenderChildren decimal names children) := by
  have hnames : ((children.filterMap fun child =>
      (contendersSearch decimal names child).map fun contenderSequence =>
        (contenderSequence, child)).map Prod.snd) = contenderChildren decimal names children := by
    rw [List.map_filterMap, contenderChildren, ← List.filterMap_eq_filter]
    refine List.filterMap_congr fun child _ => ?_
    cases hsearch : contendersSearch decimal names child <;> simp [Option.guard, hsearch]
  rw [← hnames]
  exact (List.perm_insertionSort _ _).map Prod.snd

theorem pairwise_contenderNodes (h : Numbers decimal names children number) :
    (contenderNodes decimal names children).Pairwise fun x y => number x < number y := by
  have hne : (contenderNodes decimal names children).Pairwise fun x y => number x ≠ number y :=
    List.pairwise_map.mp ((contenderNodes_perm.map number).nodup_iff.mpr h.nodup)
  have hread : ∀ m ∈ sortedMatches (children.filterMap fun child =>
      (contendersSearch decimal names child).map fun contenderSequence =>
        (contenderSequence, child)),
      number m.2 < sequenceLimit ∧ m.1 = sequenceText (number m.2) := by
    rintro m hm
    obtain ⟨child, hchild, hm⟩ := List.mem_filterMap.mp ((List.mem_insertionSort _).mp hm)
    obtain ⟨found, hsearch, rfl⟩ := Option.map_eq_some_iff.mp hm
    exact h.reads child hchild found hsearch
  rw [contenderNodes, List.pairwise_map] at hne ⊢
  refine ((pairwise_sortedMatches _).and hne).imp_of_mem ?_
  rintro m m' hm hm' ⟨hle, hdiffer⟩
  obtain ⟨hlimit, htext⟩ := hread m hm
  obtain ⟨hlimit', htext'⟩ := hread m' hm'
  rw [htext, htext', sequenceText_lt_iff hlimit' hlimit] at hle
  exact Nat.lt_of_le_of_ne (Nat.le_of_not_lt hle) hdiffer

/-- In which order the names are joined does not matter for which children are found. -/
theorem contendersSearch_isSome {names' : List PyStr} (hnames : ∀ name, name ∈ names ↔ name ∈ names') :
    (contendersSearch decimal names child).isSome = (contendersSearch decimal names' child).isSome := by
  rw [Bool.eq_iff_iff, contendersSearch, contendersSearch]
  simp only [List.findSome?_isSome_iff, hnames]

theorem contenderChildren_congr {names' : List PyStr} (hnames : ∀ name, name ∈ names ↔ name ∈ names') :
    contenderChildren decimal names children = contenderChildren decimal names' children :=
  List.filter_congr fun _ _ => contendersSearch_isSome hnames

/-- The loop leaves out the nodes that are gone, and keeps the others in their order. -/
theorem contendersData_eq {get : PyStr → Except Exn (Option Bytes)} {identifier : PyStr → PyStr}
    {nodes : List PyStr} (hget : ∀ node ∈ nodes, get node = .error .noNodeError ∨
      ∃ data : Bytes, get node = .ok (some data) ∧ data.decode = .ok (identifier node)) :
    ∃ present : List PyStr, present.Sublist nodes ∧ contendersData get nodes = .ok (present.map identifier) := by
  induction nodes with
  | nil => exact ⟨[], .slnil, rfl⟩
  | cons node nodes ih =>
    obtain ⟨hnode, hnodes⟩ := List.forall_mem_cons.mp hget
    obtain ⟨present, hsublist, hdata⟩ := ih hnodes
    rcases hnode with hgone | ⟨data, hthere, hdecode⟩
    · refine ⟨present, hsublist.cons node, ?_⟩
      rw [contendersData, hgone]
      exact (if_pos rfl).trans hdata
    · refine ⟨node :: present, hsublist.cons_cons node, ?_⟩
      rw [contendersData, hthere]
      dsimp only
      rw [hdecode, hdata]
      rfl

/-- `contenders` names those that it still finds in the order of their numbers. -/
theorem contenders_sorted (h : Numbers decimal names children number)
    {get : PyStr → Except Exn (Option Bytes)} {identifier : PyStr → PyStr}
    (hget : ∀ node ∈ contenderChildren decimal names children, get node = .error .noNodeError ∨
      ∃ data : Bytes, get node = .ok (some data) ∧ data.decode = .ok (identifier node)) :
    ∃ present : List PyStr, (∀ node ∈ present, node ∈ contenderChildren decimal names children) ∧
      present.Pairwise (fun x y => number x < number y) ∧
      contenders decimal names children get = .ok (present.map identifier) := by
  obtain ⟨present, hsublist, hdata⟩ := contendersData_eq
    fun node (hnode : node ∈ contenderNodes decimal names children) => hget node (contenderNodes_perm.mem_iff.mp hnode)
  refine ⟨present, fun node hnode => ?_, (pairwise_contenderNodes h).sublist hsublist, hdata⟩
  exact contenderNodes_perm.mem_iff.mp (hsublist.subset hnode)

/-- A plain lock finds its own node, with its number. -/
theorem mem_contenderNodes_nodeName (hdecimal : ∀ d < 10, decimal (digitChar d) = true)
    (h : Numbers decimal names children number) (hk : k < sequenceLimit)
    (hname : NODE_NAME c.kind ∈ names) (hnode : c.nodeName k ∈ children) :
    c.nodeName k ∈ contenderNodes decimal names children ∧ number (c.nodeName k) = k := by
  have hsearch : contendersSearch decimal names (c.nodeName k) = some (sequenceText k) :=
    contendersSearch_nodeName hdecimal hk hname
  obtain ⟨hlimit, htext⟩ := h.reads _ hnode _ hsearch
  exact ⟨contenderNodes_perm.mem_iff.mpr (mem_contenderChildren.mpr ⟨hnode, _, hsearch⟩),
    (sequenceText_injective hk hlimit htext).symm⟩

theorem mem_contenderNodes_iff (hlock : NODE_NAME c.kind ∈ c.excludeNames)
    (hnames : ∀ name, name ∈ names ↔ name ∈ c.excludeNames ∨ name = NODE_NAME c.kind) :
    child ∈ contenderNodes decimal names children ↔
      child ∈ contenderChildren decimal c.excludeNames children := by
  have hsame : ∀ name, name ∈ names ↔ name ∈ c.excludeNames := fun name =>
    (hnames name).trans (or_iff_left_of_imp fun heq => heq ▸ hlock)
  rw [contenderNodes_perm.mem_iff, contenderChildren_congr hsame]

/-- The predecessor is the contender with the greatest smaller number, and for a plain lock the node
before its own in the order of `contenders`, in whichever order the names are joined there. -/
theorem getPredecessor_precedes (hdecimal : ∀ d < 10, decimal (digitChar d) = true)
    (c : LockConfig) (h : Numbers decimal c.excludeNames children number) (hk : k < sequenceLimit) :
    (∀ node, node ∉ children →
      c.getPredecessor decimal node children = .error .forceRetryError) ∧
    (c.nodeName k ∈ children →
      (∃ predecessor, c.getPredecessor decimal (c.nodeName k) children = .ok predecessor) ∧
      (c.getPredecessor decimal (c.nodeName k) children = .ok none ↔
        ∀ child ∈ contenderChildren decimal c.excludeNames children, ¬ number child < k) ∧
      (∀ p, c.getPredecessor decimal (c.nodeName k) children = .ok (some p) ↔
        Precedes number (contenderChildren decimal c.excludeNames children) k p) ∧
      (c.kind = .lock → ∀ names : List PyStr,
        (∀ name, name ∈ names ↔ name ∈ c.excludeNames ∨ name = NODE_NAME c.kind) →
        Numbers decimal names children number →
          (c.getPredecessor decimal (c.nodeName k) children = .ok none ↔
            ∃ back, contenderNodes decimal names children = c.nodeName k :: back) ∧
          ∀ p, c.getPredecessor decimal (c.nodeName k) children = .ok (some p) ↔
            ∃ front back, contenderNodes decimal names children =
              front ++ p :: c.nodeName k :: back)) := by
  refine ⟨fun node hmissing => ?_, fun hnode => ⟨?_, ?_, fun p => ?_, ?_⟩⟩
  · rw [LockConfig.getPredecessor_eq, if_pos hmissing]
  · exact ⟨_, LockConfig.getPredecessor_nodeName hnode⟩
  · exact LockConfig.getPredecessor_eq_none_iff h hk hnode
  · exact LockConfig.getPredecessor_eq_some_iff h hk hnode
  intro hkind names hnames hnumbers
  have hlock : NODE_NAME c.kind ∈ c.excludeNames := by
    rw [c.mem_excludeNames, hkind]
    exact .inl List.mem_cons_self
  obtain ⟨hmem, hnumber⟩ := mem_contenderNodes_nodeName (c := c) hdecimal hnumbers hk
    ((hnames _).mpr (.inl hlock)) hnode
  have hsorted := pairwise_contenderNodes hnumbers
  refine ⟨?_, fun p => ?_⟩
  · rw [LockConfig.getPredecessor_eq_none_iff h hk hnode, ← none_below_iff hsorted hmem, hnumber]
    simp only [mem_contenderNodes_iff hlock hnames]
  · rw [LockConfig.getPredecessor_eq_some_iff h hk hnode, ← precedes_iff_adjacent hsorted hmem,
      hnumber]
    exact Precedes.congr fun x => (mem_contenderNodes_iff hlock hnames).symm

end

/-- Two locks, the second created before the first, and a node that is none of theirs. -/
def unordered : List PyStr :=
  [(byTurns 0).nodeName 7, str "config", (byTurns 1).nodeName 3]

theorem numbers_unordered : Numbers asciiDecimal [str "__lock__"] unordered fun child =>
    if child = (byTurns 0).nodeName 7 then 7 else 3 := by
  have hdecimal : ∀ d < 10, asciiDecimal (digitChar d) = true := by decide
  have hfirst : contendersSearch asciiDecimal [str "__lock__"] ((byTurns 0).nodeName 7) =
      some (sequenceText 7) :=
    contendersSearch_nodeName hdecimal (by decide) List.mem_cons_self
  have hsecond : contendersSearch asciiDecimal [str "__lock__"] ((byTurns 1).nodeName 3) =
      some (sequenceText 3) :=
    contendersSearch_nodeName hdecimal (by decide) List.mem_cons_self
  have hconfig : contendersSearch asciiDecimal [str "__lock__"] (str "config") = none := by decide
  have hne : (byTurns 1).nodeName 3 ≠ (byTurns 0).nodeName 7 := by decide
  constructor
  · intro child hchild found hsearch
    rcases List.mem_cons.mp hchild with rfl | hchild
    · rw [hfirst] at hsearch
      cases hsearch
      exact ⟨by rw [if_pos rfl]; decide, by rw [if_pos rfl]⟩
    rcases List.mem_cons.mp hchild with rfl | hchild
    · rw [hconfig] at hsearch
      cases hsearch
    · obtain rfl := List.mem_singleton.mp hchild
      rw [hsecond] at hsearch
      cases hsearch
      exact ⟨by rw [if_neg hne]; decide, by rw [if_neg hne]⟩
  · have hchildren : contenderChildren asciiDecimal [str "__lock__"] unordered =
        [(byTurns 0).nodeName 7, (byTurns 1).nodeName 3] := by
      rw [contenderChildren, unordered]
      simp [hfirst, hsecond, hconfig]
    rw [hchildren]
    simp [hne]

theorem getPredecessor_precedes_unordered :
    (byTurns 0).getPredecessor asciiDecimal ((byTurns 0).nodeName 7) unordered =
      .ok (some ((byTurns 1).nodeName 3)) := by
  have hdecimal : ∀ d < 10, asciiDecimal (digitChar d) = true := by decide
  have hsecond : contendersSearch asciiDecimal [str "__lock__"] ((byTurns 1).nodeName 3) =
      some (sequenceText 3) :=
    contendersSearch_nodeName hdecimal (by decide) List.mem_cons_self
  have hne : (byTurns 1).nodeName 3 ≠ (byTurns 0).nodeName 7 := by decide
  refine (((getPredecessor_precedes hdecimal (byTurns 0) numbers_unordered (by decide)).2
    List.mem_cons_self).2.2.1 _).mpr ⟨?_, ?_, fun child _ hlt => ?_⟩
  · exact mem_contenderChildren.mpr ⟨by simp [unordered], _, hsecond⟩
  · rw [if_neg hne]
    decide
  · rw [if_neg hne]
    split at hlt
    · exact absurd hlt (by decide)
    · next hother => rw [if_neg hother]

end Kazoo
