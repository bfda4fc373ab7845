import Mathlib.Algebra.BigOperators.Group.Finset.Basic
import Mathlib.Algebra.GroupWithZero.Nat
import Mathlib.Data.Finset.Union
import Mathlib.Data.List.DropRight
import Mathlib.Data.List.Infix

/-!
# Path trees — finite trees whose nodes are the paths to them

A node is the list of the labels on the way down to it.  Trees lose their leaves one at a time; what
is counted against a tree once can be paid from it while it shrinks.
-/

structure PathTree (α : Type) where
  nodes : Finset (List α)
  root : [] ∈ nodes
  parent : ∀ p a, p ++ [a] ∈ nodes → p ∈ nodes

namespace PathTree

variable {α : Type} (t : PathTree α) {p q : List α} {a b : α} {names : List α}

theorem above (h : p ++ q ∈ t.nodes) : p ∈ t.nodes := by
  induction q using List.reverseRecOn with
  | nil => rwa [List.append_nil] at h
  | append_singleton q a ih =>
    rw [← List.append_assoc] at h
    exact ih (t.parent _ _ h)

theorem mem_of_isPrefix (h : p <+: q) (hq : q ∈ t.nodes) : p ∈ t.nodes := by
  obtain ⟨r, rfl⟩ := h
  exact t.above hq

/-- `names` are the labels of the children of `p`, each of them once. -/
def Lists (p : List α) (names : List α) : Prop :=
  names.Nodup ∧ ∀ a, a ∈ names ↔ p ++ [a] ∈ t.nodes

def Leaf (p : List α) : Prop := ∀ a, p ++ [a] ∉ t.nodes

theorem lists_iff : t.Lists p names ↔ names.Nodup ∧ (∀ a ∈ names, p ++ [a] ∈ t.nodes) ∧
    ∀ q ∈ t.nodes, ∀ a ∈ q.getLast?, q.dropLast = p → a ∈ names := by
  have hconcat (a : α) : p ++ [a] ∈ t.nodes →
      (∀ q ∈ t.nodes, ∀ a ∈ q.getLast?, q.dropLast = p → a ∈ names) → a ∈ names :=
    fun h hlast => hlast _ h a (by simp) (by simp)
  constructor
  · rintro ⟨hnodup, hmem⟩
    refine ⟨hnodup, fun a h => (hmem a).mp h, fun q hq a ha hdrop => (hmem a).mpr ?_⟩
    rwa [← hdrop, List.dropLast_append_getLast? a ha]
  · rintro ⟨hnodup, hmem, hlast⟩
    exact ⟨hnodup, fun a => ⟨hmem a, fun h => hconcat a h hlast⟩⟩

theorem leaf_iff : t.Leaf p ↔ ∀ q ∈ t.nodes, q ≠ [] → q.dropLast ≠ p := by
  constructor
  · intro h q hq hne hdrop
    refine h (q.getLast hne) ?_
    rwa [← hdrop, List.dropLast_append_getLast hne]
  · intro h a hmem
    exact h _ hmem (by simp) (by simp)

variable [DecidableEq α]

instance (p names : List α) : Decidable (t.Lists p names) := decidable_of_iff' _ t.lists_iff

instance (p : List α) : Decidable (t.Leaf p) := decidable_of_iff' _ t.leaf_iff

theorem exists_lists (p : List α) : ∃ names, t.Lists p names := by
  let children := t.nodes.toList.filterMap fun q => if q.dropLast = p then q.getLast? else none
  refine ⟨children.dedup, List.nodup_dedup _, fun a => ?_⟩
  rw [List.mem_dedup, List.mem_filterMap]
  constructor
  · rintro ⟨q, hq, hlast⟩
    split at hlast
    · next hdrop =>
      rw [← hdrop, List.dropLast_append_getLast? a hlast]
      exact Finset.mem_toList.mp hq
    · cases hlast
  · intro h
    refine ⟨p ++ [a], Finset.mem_toList.mpr h, ?_⟩
    rw [List.dropLast_concat, if_pos rfl, List.getLast?_concat]

/-! ## Losing a leaf -/

/-- The tree without one of its leaves. -/
def remove (p : List α) (hp : p ≠ []) (hleaf : t.Leaf p) : PathTree α where
  nodes := t.nodes.erase p
  root := Finset.mem_erase.mpr ⟨hp.symm, t.root⟩
  parent q a h := by
    obtain ⟨-, h⟩ := Finset.mem_erase.mp h
    refine Finset.mem_erase.mpr ⟨?_, t.parent q a h⟩
    rintro rfl
    exact hleaf a (Finset.mem_of_mem_erase h)

/-! ## Subtrees -/

/-- The nodes at `p` and below. -/
def subtree (p : List α) : Finset (List α) := t.nodes.filter (p <+: ·)

theorem mem_subtree : q ∈ t.subtree p ↔ q ∈ t.nodes ∧ p <+: q := Finset.mem_filter

theorem mem_subtree_self : p ∈ t.subtree p ↔ p ∈ t.nodes := by
  simp [mem_subtree]

theorem subtree_subset (h : p <+: q) : t.subtree q ⊆ t.subtree p := fun _ hr =>
  t.mem_subtree.mpr ⟨(t.mem_subtree.mp hr).1, h.trans (t.mem_subtree.mp hr).2⟩

theorem disjoint_subtree (hne : a ≠ b) :
    Disjoint (t.subtree (p ++ [a])) (t.subtree (p ++ [b])) := by
  rw [Finset.disjoint_left]
  intro q ha hb
  obtain ⟨_, rfl⟩ := (t.mem_subtree.mp ha).2
  obtain ⟨_, hb⟩ := (t.mem_subtree.mp hb).2
  rw [List.append_assoc, List.append_assoc] at hb
  have hcons := List.append_cancel_left hb
  exact hne (List.cons.inj hcons).1.symm

/-- The subtrees at different children, and the node itself, fit into the subtree. -/
theorem sum_card_subtree_lt (hnodup : names.Nodup) (hp : p ∈ t.nodes) :
    (names.map fun a => (t.subtree (p ++ [a])).card).sum < (t.subtree p).card := by
  have hsum : (names.map fun a => (t.subtree (p ++ [a])).card).sum =
      (names.toFinset.biUnion fun a => t.subtree (p ++ [a])).card := by
    rw [Finset.card_biUnion fun a _ b _ hne => t.disjoint_subtree hne,
      List.sum_toFinset _ hnodup]
  rw [hsum]
  refine Finset.card_lt_card ⟨?_, fun hsub => ?_⟩
  · rw [Finset.biUnion_subset]
    exact fun a _ => t.subtree_subset (List.prefix_append p [a])
  · -- the node itself is in none of them
    obtain ⟨a, -, hmem⟩ := Finset.mem_biUnion.mp (hsub (t.mem_subtree_self.mpr hp))
    have hlength := (t.mem_subtree.mp hmem).2.length_le
    rw [List.length_append, List.length_singleton] at hlength
    omega

end PathTree
