import Mathlib.Data.List.Basic
import Mathlib.Order.Lattice

/-!
# Adjacent — who comes right before whom

Of the elements of a list, each with a key, the one that precedes a key is the greatest below it.  In
a list that is sorted by the keys this is the element right before.
-/

section Precedes

variable {α κ : Type*} [LinearOrder κ] {key : α → κ} {l : List α} {a p q : α} {k : κ}

/-- Of the elements of `l` with a smaller key than `k`, `p` has the greatest. -/
structure Precedes (key : α → κ) (l : List α) (k : κ) (p : α) : Prop where
  mem : p ∈ l
  below : key p < k
  greatest : ∀ x ∈ l, key x < k → key x ≤ key p

theorem Precedes.key_eq (h : Precedes key l k p) (h' : Precedes key l k q) : key p = key q :=
  le_antisymm (h'.greatest p h.mem h.below) (h.greatest q h'.mem h'.below)

theorem Precedes.congr {l' : List α} (hmem : ∀ x, x ∈ l ↔ x ∈ l') :
    Precedes key l k p ↔ Precedes key l' k p := by
  constructor
  · exact fun h => ⟨(hmem p).mp h.mem, h.below, fun x hx => h.greatest x ((hmem x).mpr hx)⟩
  · exact fun h => ⟨(hmem p).mpr h.mem, h.below, fun x hx => h.greatest x ((hmem x).mp hx)⟩

/-- The last element of a sorted list is not before any other. -/
theorem rel_getLast {r : α → α → Prop} (hl : l.Pairwise r) (hrefl : ∀ x, r x x)
    (hlast : l.getLast? = some a) {x : α} (hx : x ∈ l) : r x a := by
  obtain ⟨front, rfl⟩ := List.getLast?_eq_some_iff.mp hlast
  rcases List.mem_append.mp hx with hx | hx
  · exact (List.pairwise_append.mp hl).2.2 x hx a (List.mem_singleton_self a)
  · rw [List.mem_singleton.mp hx]
    exact hrefl a

variable {front back : List α}

/-- In a sorted list, the elements before `a` are those with a smaller key. -/
theorem mem_front_iff (hl : (front ++ a :: back).Pairwise fun x y => key x < key y) {x : α} :
    x ∈ front ↔ x ∈ front ++ a :: back ∧ key x < key a := by
  obtain ⟨-, hback, hfront⟩ := List.pairwise_append.mp hl
  constructor
  · exact fun hx => ⟨List.mem_append_left _ hx, hfront x hx a List.mem_cons_self⟩
  · rintro ⟨hx, hlt⟩
    rcases List.mem_append.mp hx with hx | hx
    · exact hx
    rcases List.mem_cons.mp hx with rfl | hx
    · exact absurd hlt (lt_irrefl _)
    · exact absurd hlt (lt_asymm (List.rel_of_pairwise_cons hback hx))

theorem none_below_iff (hl : l.Pairwise fun x y => key x < key y) (ha : a ∈ l) :
    (∀ x ∈ l, ¬ key x < key a) ↔ ∃ back, l = a :: back := by
  obtain ⟨front, back, rfl⟩ := List.append_of_mem ha
  constructor
  · intro hnone
    have hfront : front = [] := by
      refine List.eq_nil_iff_forall_not_mem.mpr fun x hx => ?_
      obtain ⟨hmem, hlt⟩ := (mem_front_iff hl).mp hx
      exact hnone x hmem hlt
    exact ⟨back, by rw [hfront, List.nil_append]⟩
  · rintro ⟨rest, heq⟩ x hx hlt
    rw [heq] at hl hx
    rcases List.mem_cons.mp hx with rfl | hx
    · exact lt_irrefl _ hlt
    · exact lt_asymm hlt (List.rel_of_pairwise_cons hl hx)

/-- In a sorted list, the greatest element below `a` is right before it. -/
theorem precedes_iff_adjacent (hl : l.Pairwise fun x y => key x < key y) (ha : a ∈ l) :
    Precedes key l (key a) p ↔ ∃ front back, l = front ++ p :: a :: back := by
  constructor
  · intro h
    obtain ⟨front, back, rfl⟩ := List.append_of_mem ha
    obtain ⟨first, last, rfl⟩ := List.append_of_mem ((mem_front_iff hl).mpr ⟨h.mem, h.below⟩)
    have hlast : last = [] := by
      refine List.eq_nil_iff_forall_not_mem.mpr fun x hx => ?_
      have hx' : x ∈ first ++ p :: last := List.mem_append_right _ (List.mem_cons_of_mem p hx)
      obtain ⟨hmem, hlt⟩ := (mem_front_iff hl).mp hx'
      have hpx : key p < key x :=
        List.rel_of_pairwise_cons (List.pairwise_append.mp (List.pairwise_append.mp hl).1).2.1 hx
      exact absurd hpx (not_lt_of_ge (h.greatest x hmem hlt))
    exact ⟨first, back, by rw [hlast, List.append_assoc]; rfl⟩
  · rintro ⟨front, back, rfl⟩
    have hsplit : front ++ p :: a :: back = (front ++ [p]) ++ a :: back := by
      rw [List.append_assoc]
      rfl
    rw [hsplit] at hl ⊢
    have hbefore : p ∈ front ++ [p] := List.mem_append_right _ (List.mem_singleton_self p)
    refine ⟨((mem_front_iff hl).mp hbefore).1, ((mem_front_iff hl).mp hbefore).2, fun x hx hlt => ?_⟩
    rcases List.mem_append.mp ((mem_front_iff hl).mpr ⟨hx, hlt⟩) with hx | hx
    · exact le_of_lt ((List.pairwise_append.mp (List.pairwise_append.mp hl).1).2.2 x hx p
        (List.mem_singleton_self p))
    · rw [List.mem_singleton.mp hx]

end Precedes
