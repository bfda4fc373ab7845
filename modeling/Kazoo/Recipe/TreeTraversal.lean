import Kazoo.Recipe.TreeRuns
import Mathlib.Algebra.Order.BigOperators.Group.List
import Mathlib.Algebra.Order.Ring.Nat

/-!
# Reconnections of a cache

The traversal `on_reconnected` of a `TreeCache` in the background thread, step by step, while the
thread of the callbacks deletes nodes.  An iterator over a dictionary raises once the dictionary has
another size than when the iteration began.
-/

namespace Kazoo

/-- A call of `on_reconnected`. -/
inductive TraversalFrame
  -- about to call `_refresh`
  | entering (n : Nat)
  -- about to take `self._children.values()`
  | refreshed (n : Nat)
  /-- About to take the next one of the children that are left; how many there were at first, and how
  many there are in the dictionary if `on_deleted` has put another in its place since. -/
  | iterating (n : Nat) (rest : List (PyStr × Nat)) (used : Nat) (swapped : Option Nat)
  deriving DecidableEq, Repr

structure Traversal where
  cache : TreeCaching
  -- the innermost call first
  frames : List TraversalFrame
  -- a `RuntimeError` has ended the traversal
  raised : Bool
  -- history: the nodes for which both requests have been made
  refreshed : List Nat

inductive TraversalAct
  | go
  -- `_process_watch` of the node is called with DELETED
  | deleted (n : Nat)
  deriving DecidableEq, Repr

namespace TreeCaching

/-- The nodes whose dictionaries `on_deleted` replaces. -/
def subtree : Nat → TreeCaching → Nat → List Nat
  | 0, _, _ => []
  | fuel + 1, s, n => n :: (s.nodes n).children.flatMap fun child => subtree fuel s child.2

end TreeCaching

namespace TraversalFrame

/-- `on_deleted` puts other dictionaries in the place of those of the nodes. -/
def swap (s : TreeCaching) (nodes : List Nat) : TraversalFrame → TraversalFrame
  | .iterating n rest used none =>
    .iterating n rest used (if n ∈ nodes then some (s.nodes n).children.length else none)
  | frame => frame

end TraversalFrame

namespace Traversal

/-- The next step of the traversal. -/
def go (s : Traversal) : Traversal :=
  match s.frames with
  | [] => s
  | .entering n :: frames =>
    { s with
      cache := s.cache.refresh n, frames := .refreshed n :: frames, refreshed := n :: s.refreshed }
  | .refreshed n :: frames =>
    let children := (s.cache.nodes n).children
    { s with frames := .iterating n children children.length none :: frames }
  | .iterating n rest used swapped :: frames =>
    if swapped.getD (s.cache.nodes n).children.length ≠ used then
      { s with frames := [], raised := true }
    else match rest with
      | [] => { s with frames := frames }
      | child :: rest =>
        { s with frames := .entering child.2 :: .iterating n rest used swapped :: frames }

def deleted (s : Traversal) (n : Nat) : Traversal :=
  { s with
    cache := s.cache.processWatch n .DELETED
    frames := s.frames.map (·.swap s.cache (s.cache.subtree s.cache.size n)) }

def enabled (s : Traversal) : TraversalAct → Prop
  | .go => s.frames ≠ []
  | .deleted n => n < s.cache.size

instance (s : Traversal) (act : TraversalAct) : Decidable (s.enabled act) := by
  cases act <;> unfold enabled <;> infer_instance

def post (s : Traversal) : TraversalAct → Traversal
  | .go => s.go
  | .deleted n => s.deleted n

end Traversal

/-- All interleavings of the traversal of the whole cache with deletions. -/
def traversing (cache : TreeCaching) : Machine Traversal TraversalAct where
  init := ⟨cache, [.entering 0], false, []⟩
  enabled := Traversal.enabled
  post := Traversal.post

instance (cache : TreeCaching) (s : Traversal) (act : TraversalAct) :
    Decidable ((traversing cache).enabled s act) :=
  inferInstanceAs (Decidable (s.enabled act))

namespace TreeCaching

variable {C : TreeCaches} {s s' t : TreeCaching} {n m k p fuel : Nat} {name : PyStr}

/-! ## What a deletion does -/

/-- The parent finds the node, and takes it out of its dictionary. -/
def Removes (s : TreeCaching) (n p : Nat) : Prop :=
  s.cacheState ≠ .closed ∧ (s.nodes n).parent = some p ∧
    (s.nodes p).children.lookup ((s.nodes n).path.drop ((s.nodes p).path.length + 1)) = some n

instance (s : TreeCaching) (n p : Nat) : Decidable (s.Removes n p) :=
  inferInstanceAs (Decidable (_ ∧ _ ∧ _))

/-- Every node below is visited. -/
theorem Shaped.mem_subtree (h : s.Shaped C) (hn : n < s.size) (hfuel : s.size ≤ n + fuel)
    (hb : s.Below n m) : m ∈ subtree fuel s n := by
  induction fuel generalizing n with
  | zero => omega
  | succ fuel ih =>
    unfold subtree
    obtain rfl | ⟨c, ⟨name, hc⟩, hb⟩ := Relation.ReflTransGen.cases_head hb
    · exact List.mem_cons_self
    · obtain ⟨hlt, hsize, -⟩ := h.child n name c hc
      exact List.mem_cons_of_mem _ (List.mem_flatMap.mpr ⟨_, hc, ih hsize (by omega) hb⟩)

theorem below_of_mem_subtree (hm : m ∈ subtree fuel s n) : s.Below n m := by
  induction fuel generalizing n with
  | zero => cases hm
  | succ fuel ih =>
    rcases List.mem_cons.mp hm with rfl | hm
    · exact .refl
    · obtain ⟨child, hchild, hm⟩ := List.mem_flatMap.mp hm
      exact .head ⟨child.1, hchild⟩ (ih hm)

/-- The parent is not below the node. -/
theorem Shaped.not_below_of_removes (h : s.Shaped C) (hremoves : s.Removes n p) : ¬ s.Below n p :=
  fun hb => Nat.not_le_of_lt
    (h.child p _ n ((lookup_eq_some_iff_mem (h.nodup p)).mp hremoves.2.2)).1 (h.le_of_below hb)

theorem Shaped.nodes_die (h : s.Shaped C) (hk : ¬ s.Below n k) :
    ((swept fuel s n).die n (s.nodes n)).nodes k = s.nodes k := (h.die_swept.2 k hk).1

/-- Other nodes stay as they are, unless the node is taken from them. -/
theorem Shaped.onDeleted_of_not_removes (h : s.Shaped C) (hk : ¬ s.Below n k)
    (hnot : ¬ s.Removes n k) : (onDeleted (fuel + 1) s n).nodes k = s.nodes k := by
  have hkn : k ≠ n := by
    rintro rfl
    exact hk .refl
  have hnodes : ((swept fuel s n).die n (s.nodes n)).nodes k = s.nodes k := h.nodes_die hk
  by_cases hopen : s.cacheState = .closed
  · rw [die_nodes_of_ne _ hkn] at hnodes
    rw [onDeleted_succ, if_pos (cacheState_swept.trans hopen)]
    exact hnodes
  · obtain ⟨hself, -⟩ : ((swept fuel s n).die n (s.nodes n)).nodes n = (s.nodes n).deleted ∧ _ :=
      h.die_swept
    rw [onDeleted_open hopen]
    generalize (swept fuel s n).die n (s.nodes n) = t at hnodes hself
    unfold leave
    rw [hself]
    cases hparent : (s.nodes n).parent with
    | none =>
      rw [show (s.nodes n).deleted.parent = none from hparent]
      exact (congrFun (asks_callClient .exists).nodes k).trans hnodes
    | some q =>
      rw [show (s.nodes n).deleted.parent = some q from hparent]
      dsimp only
      split
      next hlookup =>
        have hkq : k ≠ q := by
          rintro rfl
          rw [hnodes] at hlookup
          exact hnot ⟨hopen, hparent, hlookup⟩
        exact (setNode_nodes_of_ne _ hkq).trans hnodes
      · exact hnodes

/-- The parent has one child less. -/
theorem Shaped.length_of_removes (h : s.Shaped C) (hremoves : s.Removes n p) :
    ((onDeleted (fuel + 1) s n).nodes p).children.length < (s.nodes p).children.length := by
  have hnodes : ((swept fuel s n).die n (s.nodes n)).nodes p = s.nodes p :=
    h.nodes_die (h.not_below_of_removes hremoves)
  obtain ⟨hopen, hparent, hlookup⟩ := hremoves
  have hmem := (lookup_eq_some_iff_mem (h.nodup p)).mp hlookup
  obtain ⟨hself, -⟩ : ((swept fuel s n).die n (s.nodes n)).nodes n = (s.nodes n).deleted ∧ _ :=
    h.die_swept
  rw [onDeleted_open hopen]
  generalize (swept fuel s n).die n (s.nodes n) = t at hnodes hself
  have hlookup' : (s.nodes p).children.lookup
      ((s.nodes n).deleted.path.drop ((s.nodes p).path.length + 1)) = some n := hlookup
  unfold leave
  rw [hself, show (s.nodes n).deleted.parent = some p from hparent]
  dsimp only
  rw [hnodes, if_pos hlookup']
  refine (congrArg (·.children.length) (setNode_nodes_self _)).trans_lt ?_
  refine lt_of_le_of_ne (List.length_filter_le _ _) fun hlength => ?_
  have hall := List.length_filter_eq_length_iff.mp hlength _ hmem
  exact of_decide_eq_true hall rfl

/-- Who is still in the tree is below the same nodes. -/
theorem Shaped.below_kept (h : s.Shaped C) (hs : Shrinks s t) (ha : t.Attached m) (hb : s.Below k m) :
    t.Below k m := by
  induction ha with
  | refl =>
    rw [Nat.le_zero.mp (h.le_of_below hb)]
    exact .refl
  | tail _ hchild ih =>
    obtain ⟨name, hchild⟩ := hchild
    obtain rfl | ⟨q, hbq, name', hq⟩ := Relation.ReflTransGen.cases_tail hb
    · exact .refl
    · obtain ⟨rfl, -⟩ := h.parent_unique hq ((hs.children _).subset hchild)
      exact (ih hbq).tail ⟨name, hchild⟩

/-! ## How long a traversal takes -/

/-- The steps of `on_reconnected`. -/
def visitCost : Nat → TreeCaching → Nat → Nat
  | 0, _, _ => 0
  | fuel + 1, s, n => 3 + ((s.nodes n).children.map fun child => 1 + visitCost fuel s child.2).sum

/-- The steps for the children that are left. -/
def restCost (s : TreeCaching) (rest : List (PyStr × Nat)) : Nat :=
  (rest.map fun child => 1 + visitCost s.size s child.2).sum

theorem Shaped.visitCost_eq (h : s.Shaped C) {fuel' : Nat} (hn : n < s.size)
    (hfuel : s.size ≤ n + fuel) (hfuel' : s.size ≤ n + fuel') :
    visitCost fuel s n = visitCost fuel' s n := by
  induction fuel generalizing n fuel' with
  | zero => omega
  | succ fuel ih =>
    cases fuel' with
    | zero => omega
    | succ fuel' =>
      have hchildren : ∀ child ∈ (s.nodes n).children,
          1 + visitCost fuel s child.2 = 1 + visitCost fuel' s child.2 := by
        intro child hchild
        obtain ⟨hlt, hsize, -⟩ := h.child n child.1 child.2 hchild
        have hcost : visitCost fuel s child.2 = visitCost fuel' s child.2 :=
          ih hsize (by omega) (by omega)
        rw [hcost]
      unfold visitCost
      rw [List.map_congr_left hchildren]

theorem Shaped.visitCost_size (h : s.Shaped C) :
    visitCost s.size s n = 3 + restCost s (s.nodes n).children := by
  obtain ⟨fuel, hsize⟩ := Nat.exists_eq_add_one.mpr h.pos
  have hchildren : ∀ child ∈ (s.nodes n).children,
      1 + visitCost fuel s child.2 = 1 + visitCost s.size s child.2 := by
    intro child hchild
    obtain ⟨hlt, hlt', -⟩ := h.child n child.1 child.2 hchild
    have hcost : visitCost fuel s child.2 = visitCost s.size s child.2 :=
      h.visitCost_eq hlt' (by omega) (by omega)
    rw [hcost]
  unfold restCost
  rw [← List.map_congr_left hchildren, hsize]
  rfl

theorem visitCost_le (hs : Shrinks s t) : visitCost fuel t n ≤ visitCost fuel s n := by
  induction fuel generalizing n with
  | zero => exact Nat.le_refl 0
  | succ fuel ih =>
    have hless := ((hs.children n).map fun child => 1 + visitCost fuel t child.2).sum_le_sum
      fun _ _ => Nat.zero_le _
    have heach := List.sum_le_sum (l := (s.nodes n).children)
      (f := fun child => 1 + visitCost fuel t child.2) (g := fun child => 1 + visitCost fuel s child.2)
      fun child _ => Nat.add_le_add_left ih 1
    unfold visitCost
    omega

theorem restCost_le (hs : Shrinks s t) {rest rest' : List (PyStr × Nat)} (hrest : rest'.Sublist rest) :
    restCost t rest' ≤ restCost s rest := by
  unfold restCost
  rw [hs.size]
  have hless := (hrest.map fun child => 1 + visitCost s.size t child.2).sum_le_sum
    fun _ _ => Nat.zero_le _
  have heach := List.sum_le_sum (l := rest) (f := fun child => 1 + visitCost s.size t child.2)
    (g := fun child => 1 + visitCost s.size s child.2) fun child _ =>
      Nat.add_le_add_left (visitCost_le hs) 1
  exact hless.trans heach

end TreeCaching

/-! ## The frames of a traversal -/

namespace TraversalFrame

open TreeCaching (Shrinks Shaped)

variable {C : TreeCaches} {s t : TreeCaching} {n : Nat} {frame : TraversalFrame}

/-- The node is still to be visited. -/
def Covers (s : TreeCaching) (n : Nat) : TraversalFrame → Prop
  | .entering k => s.Below k n
  | .refreshed k => s.Below k n ∧ n ≠ k
  | .iterating _ rest _ _ => ∃ child ∈ rest, s.Below child.2 n

/-- The dictionary has as many entries as at first. -/
def Steady (s : TreeCaching) : TraversalFrame → Prop
  | .entering _ | .refreshed _ => True
  | .iterating k _ used swapped => swapped.getD (s.nodes k).children.length = used

/-- The dictionary has lost entries. -/
def Doomed (s : TreeCaching) : TraversalFrame → Prop
  | .entering _ | .refreshed _ => False
  | .iterating k _ used swapped => swapped.getD (s.nodes k).children.length < used

/-- The deletion of the node takes it from no dictionary that is iterated over. -/
def Spared (s : TreeCaching) (n : Nat) : TraversalFrame → Prop
  | .iterating k _ _ none => ¬ s.Removes n k
  | .iterating _ _ _ (some _) | .entering _ | .refreshed _ => True

instance (s : TreeCaching) (n : Nat) (frame : TraversalFrame) : Decidable (frame.Spared s n) := by
  unfold Spared
  split <;> infer_instance

/-- The steps that are left. -/
def cost (s : TreeCaching) : TraversalFrame → Nat
  | .entering k => TreeCaching.visitCost s.size s k
  | .refreshed k => 2 + s.restCost (s.nodes k).children
  | .iterating _ rest _ _ => 1 + s.restCost rest

theorem cost_le (hs : Shrinks s t) : frame.cost t ≤ frame.cost s := by
  cases frame with
  | entering k =>
    unfold cost
    rw [hs.size]
    exact TreeCaching.visitCost_le hs
  | refreshed k => exact Nat.add_le_add_left (TreeCaching.restCost_le hs (hs.children k)) 2
  | iterating k rest used swapped => exact Nat.add_le_add_left (TreeCaching.restCost_le hs (.refl _)) 1

theorem cost_swap (s : TreeCaching) (nodes : List Nat) (frame : TraversalFrame) :
    (frame.swap s nodes).cost t = frame.cost t := by
  unfold swap
  split <;> rfl

/-! ## Frames and deletions -/

theorem Doomed.shrink (hs : Shrinks s t) (hdoomed : frame.Doomed s) : frame.Doomed t := by
  match frame with
  | .entering k | .refreshed k => exact hdoomed
  | .iterating k rest used (some size) => exact hdoomed
  | .iterating k rest used none => exact (hs.children k).length_le.trans_lt hdoomed

/-- The iterator of a dictionary that has lost entries does not get them back. -/
theorem Doomed.swap (hdoomed : frame.Doomed s) :
    (frame.swap s (s.subtree s.size n)).Doomed (s.processWatch n .DELETED) := by
  have hshrinks : Shrinks s (s.processWatch n .DELETED) := TreeCaching.shrinks_onDeleted
  match frame with
  | .entering k | .refreshed k => exact hdoomed
  | .iterating k rest used (some size) => exact hdoomed
  | .iterating k rest used none =>
    by_cases hk : k ∈ s.subtree s.size n
    · dsimp only [TraversalFrame.swap]
      rw [if_pos hk]
      exact hdoomed
    · dsimp only [TraversalFrame.swap]
      rw [if_neg hk]
      exact hdoomed.shrink hshrinks

section Swap

variable (h : s.Shaped C)

include h

/-- A dictionary that nobody is taken from keeps its size, wherever it is. -/
theorem Steady.swap (hn : n < s.size) (hspared : frame.Spared s n) (hsteady : frame.Steady s) :
    (frame.swap s (s.subtree s.size n)).Steady (s.processWatch n .DELETED) := by
  obtain ⟨fuel, hsize⟩ := Nat.exists_eq_add_one.mpr h.pos
  match frame with
  | .entering k | .refreshed k => trivial
  | .iterating k rest used (some size) => exact hsteady
  | .iterating k rest used none =>
    dsimp only [TraversalFrame.swap]
    by_cases hk : k ∈ s.subtree s.size n
    · rw [if_pos hk]
      exact hsteady
    · have hnot : ¬ s.Below n k := fun hb => hk (h.mem_subtree hn (Nat.le_add_left _ _) hb)
      have hlength : ((s.processWatch n .DELETED).nodes k).children.length =
          (s.nodes k).children.length := by
        unfold TreeCaching.processWatch
        rw [hsize, h.onDeleted_of_not_removes hnot hspared]
      rw [if_neg hk]
      exact hlength.trans hsteady

/-- A dictionary from which the node is taken is smaller than the iterator expects. -/
theorem Steady.doomed (hspared : ¬ frame.Spared s n) (hsteady : frame.Steady s) :
    (frame.swap s (s.subtree s.size n)).Doomed (s.processWatch n .DELETED) := by
  obtain ⟨fuel, hsize⟩ := Nat.exists_eq_add_one.mpr h.pos
  match frame with
  | .entering k | .refreshed k => exact absurd trivial hspared
  | .iterating k rest used (some size) => exact absurd trivial hspared
  | .iterating k rest used none =>
    have hremoves : s.Removes n k := not_not.mp hspared
    have hk : k ∉ s.subtree s.size n := fun hk =>
      h.not_below_of_removes hremoves (TreeCaching.below_of_mem_subtree hk)
    have hless : ((s.processWatch n .DELETED).nodes k).children.length <
        (s.nodes k).children.length := by
      unfold TreeCaching.processWatch
      rw [hsize]
      exact h.length_of_removes hremoves
    dsimp only [TraversalFrame.swap]
    rw [if_neg hk]
    exact hless.trans_eq hsteady

theorem Covers.swap {m : Nat} (hm : (s.processWatch n .DELETED).Attached m) (hc : frame.Covers s m) :
    (frame.swap s (s.subtree s.size n)).Covers (s.processWatch n .DELETED) m := by
  have hkept {k : Nat} (hb : s.Below k m) : (s.processWatch n .DELETED).Below k m :=
    h.below_kept TreeCaching.shrinks_onDeleted hm hb
  match frame with
  | .entering k => exact hkept hc
  | .refreshed k => exact hc.imp_left hkept
  | .iterating k rest used swapped =>
    obtain ⟨child, hchild, hb⟩ := hc
    cases swapped <;> exact ⟨child, hchild, hkept hb⟩

end Swap

end TraversalFrame

namespace Traversal

variable {C : TreeCaches} {s : Traversal} {n : Nat} {cache : TreeCaching} {acts : List TraversalAct}

/-- No node is taken out of a dictionary while the traversal iterates over it. -/
def Spares (s : Traversal) : TraversalAct → Prop
  | .go => True
  | .deleted n => ∀ frame ∈ s.frames, frame.Spared s.cache n

instance (s : Traversal) (act : TraversalAct) : Decidable (s.Spares act) := by
  cases act <;> unfold Spares <;> infer_instance

/-- The traversal goes on, and every node is still to be visited or has been. -/
structure Sound (C : TreeCaches) (s : Traversal) : Prop where
  shaped : s.cache.Shaped C
  raised : s.raised = false
  steady : ∀ frame ∈ s.frames, frame.Steady s.cache
  covered : ∀ n, s.cache.Attached n → n ∈ s.refreshed ∨ ∃ frame ∈ s.frames, frame.Covers s.cache n

/-- The traversal has raised, or will. -/
def Broken (s : Traversal) : Prop :=
  if s.raised then s.frames = [] else ∃ frame ∈ s.frames, frame.Doomed s.cache

def cost (s : Traversal) : Nat := (s.frames.map (·.cost s.cache)).sum

theorem shrinks_go (s : Traversal) : TreeCaching.Shrinks s.cache s.go.cache := by
  unfold go
  split
  · exact .refl _
  · exact TreeCaching.asks_refresh.shrinks
  · exact .refl _
  · split
    · exact .refl _
    · split <;> exact .refl _

theorem shrinks_post (s : Traversal) (act : TraversalAct) :
    TreeCaching.Shrinks s.cache (s.post act).cache := by
  cases act with
  | go => exact s.shrinks_go
  | deleted n => exact TreeCaching.shrinks_onDeleted

/-! ## The steps of a traversal -/

theorem Sound.go (h : s.Sound C) : s.go.Sound C := by
  obtain ⟨hshaped, hraised, hsteady, hcovered⟩ := h
  obtain ⟨cache, frames, raised, refreshed⟩ := s
  match frames with
  | [] => exact ⟨hshaped, hraised, hsteady, hcovered⟩
  | .entering k :: frames =>
    have hnodes : (cache.refresh k).nodes = cache.nodes := TreeCaching.asks_refresh.nodes
    have hbelow (a b : Nat) (hb : cache.Below a b) : (cache.refresh k).Below a b := by
      unfold TreeCaching.Below
      rw [hnodes]
      exact hb
    have hcovers {n : Nat} {frame : TraversalFrame} (hc : frame.Covers cache n) :
        frame.Covers (cache.refresh k) n := by
      cases frame with
      | entering a => exact hbelow a n hc
      | refreshed a => exact hc.imp_left (hbelow a n)
      | iterating a rest used swapped => exact hc.imp fun child => And.imp_right (hbelow child.2 n)
    refine ⟨hshaped.shrink TreeCaching.asks_refresh.shrinks, hraised, ?_, fun n hn => ?_⟩
    · refine List.forall_mem_cons.mpr ⟨trivial, fun frame hframe => ?_⟩
      have hsteady := hsteady frame (List.mem_cons_of_mem _ hframe)
      cases frame with
      | iterating a rest used swapped =>
        unfold TraversalFrame.Steady
        dsimp only [Traversal.go]
        rw [hnodes]
        exact hsteady
      | _ => trivial
    · rcases hcovered n (hn.shrink TreeCaching.asks_refresh.shrinks) with hdone | ⟨frame, hframe, hc⟩
      · exact .inl (List.mem_cons_of_mem _ hdone)
      · rcases List.mem_cons.mp hframe with rfl | hframe
        · by_cases hnk : n = k
          · exact .inl (hnk ▸ List.mem_cons_self)
          · exact .inr ⟨_, List.mem_cons_self, hbelow k n hc, hnk⟩
        · exact .inr ⟨frame, List.mem_cons_of_mem _ hframe, hcovers hc⟩
  | .refreshed k :: frames =>
    refine ⟨hshaped, hraised, ?_, fun n hn => ?_⟩
    · exact List.forall_mem_cons.mpr ⟨rfl, (List.forall_mem_cons.mp hsteady).2⟩
    · refine (hcovered n hn).imp_right fun ⟨frame, hframe, hc⟩ => ?_
      rcases List.mem_cons.mp hframe with rfl | hframe
      · -- below one of the children
        obtain heq | ⟨c, ⟨name, hc'⟩, hb⟩ := Relation.ReflTransGen.cases_head hc.1
        · exact absurd heq.symm hc.2
        · exact ⟨_, List.mem_cons_self, _, hc', hb⟩
      · exact ⟨frame, List.mem_cons_of_mem _ hframe, hc⟩
  | .iterating k rest used swapped :: frames =>
    obtain ⟨hsize, hsteady⟩ := List.forall_mem_cons.mp hsteady
    have hgo : ¬ swapped.getD (cache.nodes k).children.length ≠ used := fun hne => hne hsize
    cases rest with
    | nil =>
      dsimp only [Traversal.go]
      rw [if_neg hgo]
      refine ⟨hshaped, hraised, hsteady, fun n hn => ?_⟩
      refine (hcovered n hn).imp_right fun ⟨frame, hframe, hc⟩ => ?_
      rcases List.mem_cons.mp hframe with rfl | hframe
      · obtain ⟨child, hchild, -⟩ := hc
        cases hchild
      · exact ⟨frame, hframe, hc⟩
    | cons child rest =>
      dsimp only [Traversal.go]
      rw [if_neg hgo]
      refine ⟨hshaped, hraised, ?_, fun n hn => ?_⟩
      · exact List.forall_mem_cons.mpr ⟨trivial, List.forall_mem_cons.mpr ⟨hsize, hsteady⟩⟩
      · refine (hcovered n hn).imp_right fun ⟨frame, hframe, hc⟩ => ?_
        rcases List.mem_cons.mp hframe with rfl | hframe
        · obtain ⟨child', hchild, hb⟩ := hc
          rcases List.mem_cons.mp hchild with rfl | hchild
          · exact ⟨_, List.mem_cons_self, hb⟩
          · exact ⟨_, List.mem_cons_of_mem _ List.mem_cons_self, child', hchild, hb⟩
        · exact ⟨frame, List.mem_cons_of_mem _ (List.mem_cons_of_mem _ hframe), hc⟩

theorem Sound.deleted (h : s.Sound C) (hn : n < s.cache.size) (hs : s.Spares (.deleted n)) :
    (s.deleted n).Sound C := by
  have hshrinks : TreeCaching.Shrinks s.cache (s.deleted n).cache := TreeCaching.shrinks_onDeleted
  refine ⟨h.shaped.shrink hshrinks, h.raised, fun frame' hframe' => ?_, fun m hm => ?_⟩
  · obtain ⟨frame, hframe, rfl⟩ := List.mem_map.mp hframe'
    exact TraversalFrame.Steady.swap h.shaped hn (hs frame hframe) (h.steady frame hframe)
  · refine (h.covered m (hm.shrink hshrinks)).imp_right fun ⟨frame, hframe, hc⟩ => ?_
    exact ⟨_, List.mem_map_of_mem hframe, TraversalFrame.Covers.swap h.shaped hm hc⟩

theorem Sound.post (h : s.Sound C) {act : TraversalAct} (hen : s.enabled act) (hs : s.Spares act) :
    (s.post act).Sound C := by
  cases act with
  | go => exact h.go
  | deleted n => exact h.deleted hen hs

theorem sound_init (h : cache.Shaped C) : (traversing cache).init.Sound C where
  shaped := h
  raised := rfl
  steady := List.forall_mem_singleton.mpr trivial
  covered _ hn := .inr ⟨_, List.mem_singleton_self _, hn⟩

theorem Sound.exec (h : s.Sound C) (hlegal : (traversing cache).Legal Spares s acts) :
    ((traversing cache).exec s acts).Sound C := by
  induction acts generalizing s with
  | nil => exact h
  | cons act acts ih =>
    obtain ⟨hen, hs, hlegal⟩ := hlegal
    exact ih (h.post hen hs) hlegal

/-! ## Traversals that raise -/

/-- A deletion that does not spare the traversal breaks it. -/
theorem Sound.broken (h : s.Sound C) {act : TraversalAct} (hs : ¬ s.Spares act) :
    (s.post act).Broken := by
  cases act with
  | go => exact absurd trivial hs
  | deleted n =>
    simp only [Spares, not_forall] at hs
    obtain ⟨frame, hframe, hspared⟩ := hs
    refine (if_neg (Bool.eq_false_iff.mp h.raised)).mpr ?_
    exact ⟨_, List.mem_map_of_mem hframe,
      TraversalFrame.Steady.doomed h.shaped hspared (h.steady frame hframe)⟩

theorem Broken.post (hbroken : s.Broken) (act : TraversalAct) : (s.post act).Broken := by
  obtain ⟨cache, frames, raised, refreshed⟩ := s
  cases raised with
  | true =>
    obtain rfl : frames = [] := hbroken
    cases act <;> rfl
  | false =>
    obtain ⟨frame, hframe, hdoomed⟩ : ∃ frame ∈ frames, frame.Doomed cache := hbroken
    cases act with
    | deleted n => exact ⟨_, List.mem_map_of_mem hframe, hdoomed.swap⟩
    | go =>
      match frames with
      | .entering k :: frames =>
        rcases List.mem_cons.mp hframe with rfl | hframe
        · exact absurd hdoomed id
        · exact ⟨frame, List.mem_cons_of_mem _ hframe,
            hdoomed.shrink TreeCaching.asks_refresh.shrinks⟩
      | .refreshed k :: frames =>
        rcases List.mem_cons.mp hframe with rfl | hframe
        · exact absurd hdoomed id
        · exact ⟨frame, List.mem_cons_of_mem _ hframe, hdoomed⟩
      | .iterating k rest used swapped :: frames =>
        dsimp only [Traversal.post, Traversal.go]
        split
        · exact rfl
        next hsize =>
          -- the dictionary on top has its size
          rcases List.mem_cons.mp hframe with rfl | htail
          · exact absurd (not_not.mp hsize) (Nat.ne_of_lt hdoomed)
          · cases rest with
            | nil => exact ⟨frame, htail, hdoomed⟩
            | cons child rest =>
              exact ⟨frame, List.mem_cons_of_mem _ (List.mem_cons_of_mem _ htail), hdoomed⟩

theorem Broken.exec (hbroken : s.Broken) : ((traversing cache).exec s acts).Broken := by
  induction acts generalizing s with
  | nil => exact hbroken
  | cons act acts ih => exact ih (hbroken.post act)

/-- A traversal that ends without raising has been spared. -/
theorem Sound.spared (h : s.Sound C) (hlegal : (traversing cache).Legal Machine.Free s acts)
    (hend : ((traversing cache).exec s acts).frames = [])
    (hraised : ((traversing cache).exec s acts).raised = false) :
    (traversing cache).Legal Spares s acts := by
  induction acts generalizing s with
  | nil => trivial
  | cons act acts ih =>
    obtain ⟨hen, -, hlegal⟩ := hlegal
    by_cases hs : s.Spares act
    · exact ⟨hen, hs, ih (h.post hen hs) hlegal hend hraised⟩
    · have hbroken : ((traversing cache).exec (s.post act) acts).Broken := (h.broken hs).exec
      replace hend : ((traversing cache).exec (s.post act) acts).frames = [] := hend
      replace hraised : ((traversing cache).exec (s.post act) acts).raised = false := hraised
      unfold Broken at hbroken
      rw [if_neg (Bool.eq_false_iff.mp hraised), hend] at hbroken
      obtain ⟨frame, hframe, -⟩ := hbroken
      cases hframe

/-! ## The end of a traversal -/

/-- Each step brings the traversal nearer to its end. -/
theorem cost_go (h : s.cache.Shaped C) (hframes : s.frames ≠ []) : s.go.cost + 1 ≤ s.cost := by
  obtain ⟨cache, frames, raised, refreshed⟩ := s
  have hrest (frames : List TraversalFrame) {t : TreeCaching} (hs : TreeCaching.Shrinks cache t) :
      (frames.map (·.cost t)).sum ≤ (frames.map (·.cost cache)).sum :=
    List.sum_le_sum fun frame _ => TraversalFrame.cost_le hs
  match frames with
  | [] => exact absurd rfl hframes
  | .entering k :: frames =>
    have hs : TreeCaching.Shrinks cache (cache.refresh k) := TreeCaching.asks_refresh.shrinks
    have htop := TreeCaching.restCost_le hs (hs.children k)
    have hvisit : cache.visitCost cache.size k = 3 + cache.restCost (cache.nodes k).children :=
      h.visitCost_size
    have hframes := hrest frames hs
    show 2 + (cache.refresh k).restCost ((cache.refresh k).nodes k).children +
      (frames.map (·.cost (cache.refresh k))).sum + 1 ≤
        cache.visitCost cache.size k + (frames.map (·.cost cache)).sum
    omega
  | .refreshed k :: frames =>
    simp only [cost, Traversal.go, List.map_cons, List.sum_cons, TraversalFrame.cost]
    omega
  | .iterating k rest used swapped :: frames =>
    simp only [cost, Traversal.go, List.map_cons, List.sum_cons, TraversalFrame.cost]
    split
    · simp only [List.map_nil, List.sum_nil]
      omega
    · cases rest with
      | nil =>
        dsimp only
        omega
      | cons child rest =>
        simp only [List.map_cons, List.sum_cons, TreeCaching.restCost]
        omega

theorem cost_deleted : (s.deleted n).cost ≤ s.cost := by
  unfold cost deleted
  rw [List.map_map]
  refine List.sum_le_sum fun frame _ => ?_
  rw [Function.comp_apply, TraversalFrame.cost_swap]
  exact TraversalFrame.cost_le TreeCaching.shrinks_onDeleted

theorem count_go_le (h : s.cache.Shaped C) (hlegal : (traversing cache).Legal Machine.Free s acts) :
    acts.count .go + ((traversing cache).exec s acts).cost ≤ s.cost := by
  induction acts generalizing s with
  | nil => exact (Nat.zero_add _).le
  | cons act acts ih =>
    obtain ⟨hen, -, hlegal⟩ := hlegal
    have hrest := ih (h.shrink (s.shrinks_post act)) hlegal
    cases act with
    | go =>
      have hcost := cost_go h hen
      rw [List.count_cons_self]
      replace hrest : acts.count .go + ((traversing cache).exec s.go acts).cost ≤ s.go.cost := hrest
      show acts.count .go + 1 + ((traversing cache).exec s.go acts).cost ≤ s.cost
      omega
    | deleted n =>
      have hne : TraversalAct.deleted n ≠ .go := fun h' => nomatch h'
      rw [List.count_cons_of_ne hne]
      exact hrest.trans cost_deleted

/-- The traversal ends, and it ends without raising, with the requests made for every node that has
been in the tree all the time, exactly if no node is taken out of a dictionary while it is iterated
over. -/
theorem reconnected_refreshes (hr : (treeCaching C).Reachable cache) :
    (∃ bound, ∀ acts, (traversing cache).Legal Machine.Free (traversing cache).init acts →
      acts.count .go ≤ bound) ∧
    ∀ acts, (traversing cache).Legal Machine.Free (traversing cache).init acts →
      ((traversing cache).exec (traversing cache).init acts).frames = [] →
        ((((traversing cache).exec (traversing cache).init acts).raised = false ∧
          ∀ n, (∀ acts', acts' <+: acts →
              ((traversing cache).exec (traversing cache).init acts').cache.Attached n) →
            n ∈ ((traversing cache).exec (traversing cache).init acts).refreshed) ↔
          (traversing cache).Legal Spares (traversing cache).init acts) := by
  have hshaped := (TreeCaching.sound_of_reach hr).shaped
  have hinit := sound_init hshaped
  refine ⟨⟨(traversing cache).init.cost, fun acts hlegal => ?_⟩, fun acts hlegal hend => ⟨fun hall => ?_, fun hspares => ?_⟩⟩
  · exact (Nat.le_add_right _ _).trans (count_go_le hinit.shaped hlegal)
  · exact hinit.spared hlegal hend hall.1
  · obtain ⟨-, hraised, -, hcovered⟩ := hinit.exec hspares
    refine ⟨hraised, fun n hn => (hcovered n (hn acts (List.prefix_refl _))).resolve_right ?_⟩
    rw [hend]
    rintro ⟨frame, hframe, -⟩
    cases hframe

/-- A cached node with two children. -/
def twoChildren : TreeCaching :=
  (treeCaching TreeCaching.nodeCache).exec (.init TreeCaching.nodeCache)
    (TreeCaching.growing [[str "a"], [str "a", str "x"], [str "a", str "y"]])

theorem reconnected_refreshes_twoChildren :
    let s := (traversing twoChildren).exec (traversing twoChildren).init (.deleted 1 :: .replicate 7 .go)
    s.raised = false ∧
      ∀ n, (∀ acts', acts' <+: .deleted 1 :: .replicate 7 .go →
          ((traversing twoChildren).exec (traversing twoChildren).init acts').cache.Attached n) →
        n ∈ s.refreshed :=
  ((reconnected_refreshes (.of_legal (by decide +kernel))).2 _ (by decide +kernel) (by decide +kernel)).mpr
    (by decide +kernel)

/-- The callback of the first child comes while the dictionary is iterated over. -/
theorem reconnected_raises :
    ¬ ∀ (C : TreeCaches) (cache : TreeCaching) (acts : List TraversalAct),
      (treeCaching C).Reachable cache →
        (traversing cache).Legal Machine.Free (traversing cache).init acts →
          ((traversing cache).exec (traversing cache).init acts).frames = [] →
            ((traversing cache).exec (traversing cache).init acts).raised = false ∧
              ∀ n, (∀ acts', acts' <+: acts →
                  ((traversing cache).exec (traversing cache).init acts').cache.Attached n) →
                n ∈ ((traversing cache).exec (traversing cache).init acts).refreshed := by
  intro h
  have hr : (treeCaching TreeCaching.nodeCache).Reachable twoChildren := .of_legal (by decide +kernel)
  have hall := h _ twoChildren [.go, .go, .go, .deleted 1, .go, .go, .go, .go] hr (by decide +kernel)
    (by decide +kernel)
  have hraised : ((traversing twoChildren).exec (traversing twoChildren).init
      [.go, .go, .go, .deleted 1, .go, .go, .go, .go]).raised = true := by decide +kernel
  exact Bool.false_ne_true (hall.1.symm.trans hraised)

end Traversal

end Kazoo
