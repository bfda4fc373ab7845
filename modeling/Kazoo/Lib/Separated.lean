import Mathlib.Data.List.Basic
import Mathlib.Data.List.DropRight

/-!
# Separated lists — the components between the separators

A list is cut at `sep` and the empty pieces are dropped; `rooted` puts one separator in front of
each component.
-/

section Rooted

variable {α : Type*} {sep : α}

/-- The components, each behind a separator. -/
def rooted (sep : α) (cs : List (List α)) : List α := cs.flatMap (sep :: ·)

theorem rooted_cons (c : List α) (cs : List (List α)) :
    rooted sep (c :: cs) = sep :: (c ++ rooted sep cs) := rfl

theorem rooted_append (cs ds : List (List α)) :
    rooted sep (cs ++ ds) = rooted sep cs ++ rooted sep ds := List.flatMap_append

theorem rooted_eq_nil_iff {cs : List (List α)} : rooted sep cs = [] ↔ cs = [] := by
  cases cs <;> simp [rooted]

theorem cons_intercalate {cs : List (List α)} (h : cs ≠ []) :
    sep :: [sep].intercalate cs = rooted sep cs := by
  induction cs with
  | nil => exact absurd rfl h
  | cons c cs ih =>
    cases cs with
    | nil => simp [rooted]
    | cons d ds =>
      rw [rooted_cons, ← ih (List.cons_ne_nil d ds)]
      simp [List.intercalate, List.intersperse]

end Rooted

section Components

variable {α : Type*} [DecidableEq α] {sep : α}

/-- The nonempty pieces of `l` between separators. -/
def components (sep : α) (l : List α) : List (List α) := (l.splitOn sep).filter (· ≠ [])

@[simp] theorem components_nil : components sep ([] : List α) = [] := by
  simp [components, List.splitOn_nil]

theorem components_append_sep (l m : List α) :
    components sep (l ++ sep :: m) = components sep l ++ components sep m := by
  rw [components, List.splitOn_append_cons_self, List.filter_append]
  rfl

@[simp] theorem components_sep (l : List α) : components sep (sep :: l) = components sep l := by
  simpa using components_append_sep ([] : List α) l

theorem components_of_notMem {c : List α} (h : sep ∉ c) (hc : c ≠ []) :
    components sep c = [c] := by
  simp [components, List.splitOn_eq_singleton h, hc]

/-- Leading separators do not count. -/
theorem components_dropWhile (l : List α) :
    components sep (l.dropWhile (· == sep)) = components sep l := by
  induction l with
  | nil => rfl
  | cons a l ih =>
    rw [List.dropWhile_cons]
    split
    · next h => rw [ih, beq_iff_eq.mp h, components_sep]
    · rfl

/-- What has no component is all separators. -/
theorem components_eq_nil_iff {l : List α} : components sep l = [] ↔ ∀ a ∈ l, a = sep := by
  induction l with
  | nil => simp
  | cons a l ih =>
    by_cases ha : a = sep
    · subst ha
      simp [ih]
    · obtain ⟨c, cs, hcs⟩ := List.exists_cons_of_ne_nil (List.splitOn_ne_nil sep l)
      simp [components, List.splitOn_cons_eq_if_modifyHead, ha, hcs]

theorem notMem_of_mem_splitOn {c l : List α} (h : c ∈ l.splitOn sep) : sep ∉ c := by
  induction l generalizing c with
  | nil => simp_all
  | cons a l ih =>
    rw [List.splitOn_cons_eq_if_modifyHead] at h
    split at h
    · rcases List.mem_cons.mp h with rfl | h
      · exact List.not_mem_nil
      · exact ih h
    · next ha =>
      obtain ⟨d, ds, hds⟩ := List.exists_cons_of_ne_nil (List.splitOn_ne_nil sep l)
      rw [hds, List.modifyHead_cons, List.mem_cons] at h
      rcases h with rfl | h
      · have hd : sep ∉ d := ih (by rw [hds]; exact List.mem_cons_self)
        rw [List.mem_cons, not_or]
        exact ⟨fun heq => ha (beq_iff_eq.mpr heq.symm), hd⟩
      · exact ih (by rw [hds]; exact List.mem_cons_of_mem d h)

theorem mem_components {c l : List α} (h : c ∈ components sep l) : c ≠ [] ∧ sep ∉ c := by
  obtain ⟨hmem, hne⟩ := List.mem_filter.mp h
  exact ⟨of_decide_eq_true hne, notMem_of_mem_splitOn hmem⟩

theorem splitOn_sep (l : List α) : (sep :: l).splitOn sep = [] :: l.splitOn sep := by
  have hsplit := List.splitOn_append_cons_self (a := sep) ([] : List α) l
  rwa [List.splitOn_nil] at hsplit

/-- Cutting at every separator, what is in front of the first component is empty. -/
theorem splitOn_rooted {cs : List (List α)} (h : ∀ c ∈ cs, sep ∉ c) :
    (rooted sep cs).splitOn sep = [] :: cs := by
  induction cs with
  | nil => exact List.splitOn_nil sep
  | cons c cs ih =>
    obtain ⟨hc, hcs⟩ := List.forall_mem_cons.mp h
    have hrest := ih hcs
    rw [rooted_cons, splitOn_sep]
    cases cs with
    | nil => rw [rooted, List.flatMap_nil, List.append_nil, List.splitOn_eq_singleton hc]
    | cons d ds =>
      rw [rooted_cons, splitOn_sep] at hrest
      rw [rooted_cons, List.splitOn_append_cons_self, List.splitOn_eq_singleton hc,
        List.tail_eq_of_cons_eq hrest]
      rfl

/-- Cutting undoes `rooted`. -/
theorem components_rooted {cs : List (List α)} (h : ∀ c ∈ cs, c ≠ [] ∧ sep ∉ c) :
    components sep (rooted sep cs) = cs := by
  rw [components, splitOn_rooted fun c hc => (h c hc).2, List.filter_cons_of_neg (by simp)]
  exact List.filter_eq_self.mpr fun c hc => decide_eq_true (h c hc).1

/-- Trailing separators do not count. -/
theorem components_rdropWhile (l : List α) :
    components sep (l.rdropWhile (· == sep)) = components sep l := by
  induction l using List.reverseRecOn with
  | nil => rfl
  | append_singleton l a ih =>
    rw [List.rdropWhile_concat]
    split
    · next ha =>
      rw [beq_iff_eq] at ha
      rw [ih, ha, components_append_sep, components_nil, List.append_nil]
    · rfl

omit [DecidableEq α] in
theorem eq_append_cons_last {l : List α} (h : sep ∈ l) :
    ∃ front back, l = front ++ sep :: back ∧ sep ∉ back := by
  obtain ⟨front, back, heq, hnot⟩ := List.eq_append_cons_of_mem (List.mem_reverse.mpr h)
  refine ⟨back.reverse, front.reverse, ?_, fun hmem => hnot (List.mem_reverse.mp hmem)⟩
  rw [← List.reverse_reverse l, heq, List.reverse_append, List.reverse_cons, List.append_assoc]
  rfl

/-- Two texts without separators make one component, if any. -/
theorem mem_components_of_notMem {l r comp : List α} (hl : sep ∉ l) (hr : sep ∉ r)
    (h : comp ∈ components sep (l ++ r)) : comp ∈ components sep l ∨ comp ∈ components sep r ∨
      ∃ x ∈ components sep l, ∃ y ∈ components sep r, comp = x ++ y := by
  by_cases hlnil : l = []
  · rw [hlnil, List.nil_append] at h
    exact .inr (.inl h)
  by_cases hrnil : r = []
  · rw [hrnil, List.append_nil] at h
    exact .inl h
  have hnot : sep ∉ l ++ r := fun hmem => (List.mem_append.mp hmem).elim hl hr
  rw [components_of_notMem hnot (List.append_ne_nil_of_left_ne_nil hlnil r), List.mem_singleton] at h
  refine .inr (.inr ⟨l, ?_, r, ?_, h⟩)
  · rw [components_of_notMem hl hlnil]
    exact List.mem_singleton_self l
  · rw [components_of_notMem hr hrnil]
    exact List.mem_singleton_self r

/-- A component of two texts is one of either, or made of one of each. -/
theorem mem_components_append {l r comp : List α} (h : comp ∈ components sep (l ++ r)) :
    comp ∈ components sep l ∨ comp ∈ components sep r ∨
      ∃ x ∈ components sep l, ∃ y ∈ components sep r, comp = x ++ y := by
  -- what is before the last separator of `l`, and behind the first one of `r`, stays apart
  obtain ⟨cs, l', hleft, hleft', hl⟩ : ∃ cs l', components sep l = cs ++ components sep l' ∧
      components sep (l ++ r) = cs ++ components sep (l' ++ r) ∧ sep ∉ l' := by
    by_cases hl : sep ∈ l
    · obtain ⟨front, back, rfl, hback⟩ := eq_append_cons_last hl
      refine ⟨components sep front, back, components_append_sep _ _, ?_, hback⟩
      rw [List.append_assoc, List.cons_append, components_append_sep]
    · exact ⟨[], l, rfl, rfl, hl⟩
  obtain ⟨ds, r', hright, hright', hr⟩ : ∃ ds r', components sep r = components sep r' ++ ds ∧
      components sep (l' ++ r) = components sep (l' ++ r') ++ ds ∧ sep ∉ r' := by
    by_cases hr : sep ∈ r
    · obtain ⟨front, back, rfl, hfront⟩ := List.eq_append_cons_of_mem hr
      refine ⟨components sep back, front, components_append_sep _ _, ?_, hfront⟩
      rw [← List.append_assoc, components_append_sep]
    · exact ⟨[], r, (List.append_nil _).symm, (List.append_nil _).symm, hr⟩
  rw [hleft', hright', List.mem_append, List.mem_append] at h
  simp only [hleft, hright, List.mem_append]
  rcases h with h | h | h
  · exact .inl (.inl h)
  · rcases mem_components_of_notMem hl hr h with h | h | ⟨x, hx, y, hy, heq⟩
    · exact .inl (.inr h)
    · exact .inr (.inl (.inl h))
    · exact .inr (.inr ⟨x, .inr hx, y, .inl hy, heq⟩)
  · exact .inr (.inl (.inr h))

end Components
