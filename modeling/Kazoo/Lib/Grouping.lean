import Mathlib.Data.List.Perm.Basic
import Mathlib.Data.List.Nodup

/-!
# Grouping — dictionaries that gather values under keys

A dictionary is a list of keys and values in the order of insertion.  What a loop has gathered under a
key is what it makes of the elements with that key, in their order.
-/

namespace Grouping

variable {κ ν α : Type} [DecidableEq κ]

/-- `d[k] = f(d[k])`, where a new key has the value `default` first. -/
def update (default : ν) (f : ν → ν) (k : κ) : List (κ × ν) → List (κ × ν)
  | [] => [(k, f default)]
  | (k', v) :: d => if k' = k then (k', f v) :: d else (k', v) :: update default f k d

/-- `d[k]`. -/
def value (default : ν) (d : List (κ × ν)) (k : κ) : ν := (d.lookup k).getD default

/-- A loop that updates the value under the key of each element. -/
def gather (default : ν) (key : α → κ) (f : ν → α → ν) (l : List α) (d : List (κ × ν)) : List (κ × ν) :=
  l.foldl (fun d a => update default (f · a) (key a) d) d

section

variable {default : ν} {f : ν → ν} {d : List (κ × ν)} {k k' : κ} {v : ν}

theorem value_cons {x : κ × ν} :
    value default (x :: d) k = if x.1 = k then x.2 else value default d k := by
  obtain ⟨k', v⟩ := x
  rw [value, List.lookup_cons]
  by_cases h : k = k'
  · simp [h]
  · rw [beq_eq_false_iff_ne.mpr h, if_neg (Ne.symm h)]
    rfl

theorem value_update : value default (update default f k d) k' =
    if k' = k then f (value default d k) else value default d k' := by
  induction d with
  | nil =>
    rw [update, value_cons]
    by_cases h : k' = k
    · simp [h, value]
    · simp [h, Ne.symm h]
  | cons x d ih =>
    obtain ⟨k₀, v⟩ := x
    rw [update]
    by_cases h₀ : k₀ = k
    · subst h₀
      rw [if_pos rfl, value_cons, value_cons, value_cons]
      by_cases h : k' = k₀
      · simp [h]
      · simp [h, Ne.symm h]
    · rw [if_neg h₀, value_cons, ih, value_cons, value_cons, if_neg h₀]
      by_cases h : k' = k
      · simp [h, h₀]
      · simp [h]

theorem keys_update : (update default f k d).map Prod.fst =
    if k ∈ d.map Prod.fst then d.map Prod.fst else d.map Prod.fst ++ [k] := by
  induction d with
  | nil => rfl
  | cons x d ih =>
    obtain ⟨k₀, v⟩ := x
    rw [update]
    by_cases h : k₀ = k
    · simp [h]
    · rw [if_neg h, List.map_cons, ih]
      by_cases hmem : k ∈ d.map Prod.fst
      · simp [hmem]
      · simp [hmem, Ne.symm h]

theorem mem_keys_update :
    k' ∈ (update default f k d).map Prod.fst ↔ k' = k ∨ k' ∈ d.map Prod.fst := by
  rw [keys_update]
  split
  · next hmem => exact ⟨.inr, fun h => h.elim (fun heq => heq ▸ hmem) id⟩
  · rw [List.mem_append, List.mem_singleton, or_comm]

theorem nodup_update (h : (d.map Prod.fst).Nodup) : ((update default f k d).map Prod.fst).Nodup := by
  rw [keys_update]
  split
  · exact h
  · next hnew => exact List.nodup_append.mpr ⟨h, List.nodup_singleton k, fun a ha b hb hab =>
      hnew (by rw [← List.mem_singleton.mp hb, ← hab]; exact ha)⟩

theorem value_of_mem (default : ν) (h : (d.map Prod.fst).Nodup) (hmem : (k, v) ∈ d) : value default d k = v := by
  induction d with
  | nil => cases hmem
  | cons x d ih =>
    obtain ⟨hnew, hd⟩ := List.nodup_cons.mp h
    rw [value_cons]
    rcases List.mem_cons.mp hmem with rfl | hmem
    · exact if_pos rfl
    · have hne : x.1 ≠ k := fun heq => hnew (heq ▸ List.mem_map_of_mem hmem)
      rw [if_neg hne, ih hd hmem]

end

section

variable {default : ν} {key : α → κ} {f : ν → α → ν} {l : List α} {d : List (κ × ν)} {k : κ}

theorem gather_append {l' : List α} :
    gather default key f (l ++ l') d = gather default key f l' (gather default key f l d) :=
  List.foldl_append

theorem value_gather : value default (gather default key f l d) k =
    (l.filter (key · = k)).foldl f (value default d k) := by
  induction l generalizing d with
  | nil => rfl
  | cons a l ih =>
    show value default (gather default key f l (update default (f · a) (key a) d)) k = _
    rw [ih, value_update, List.filter_cons]
    by_cases h : key a = k
    · simp [h]
    · simp [h, Ne.symm h]

theorem mem_keys_gather : k ∈ (gather default key f l d).map Prod.fst ↔
    (∃ a ∈ l, key a = k) ∨ k ∈ d.map Prod.fst := by
  induction l generalizing d with
  | nil => simp [gather]
  | cons a l ih =>
    show k ∈ (gather default key f l (update default (f · a) (key a) d)).map Prod.fst ↔ _
    rw [ih, mem_keys_update, List.exists_mem_cons_iff, ← or_assoc, eq_comm, or_comm (a := ∃ _, _)]

theorem nodup_gather (h : (d.map Prod.fst).Nodup) :
    ((gather default key f l d).map Prod.fst).Nodup := by
  induction l generalizing d with
  | nil => exact h
  | cons a l ih => exact ih (nodup_update h)

/-- What is under a key is made of the elements with that key. -/
theorem value_of_mem_gather {v : ν} (hmem : (k, v) ∈ gather default key f l []) :
    v = (l.filter (key · = k)).foldl f default := by
  have hnodup : ((gather default key f l []).map Prod.fst).Nodup := nodup_gather List.nodup_nil
  rw [← value_of_mem default hnodup hmem, value_gather]
  rfl

end

/-! ## Elements by their keys -/

section

variable {l : List α} {ks : List κ}

theorem filter_append_perm {p q : α → Prop} [DecidablePred p] [DecidablePred q]
    (h : ∀ a ∈ l, p a → ¬ q a) :
    (l.filter (p ·) ++ l.filter (q ·)).Perm (l.filter fun a => p a ∨ q a) := by
  have hperm := List.filter_append_perm (fun a => decide (p a)) (l.filter fun a => p a ∨ q a)
  rw [List.filter_filter, List.filter_filter] at hperm
  have hp : (l.filter fun a => decide (p a) && decide (p a ∨ q a)) = l.filter (p ·) :=
    List.filter_congr fun a _ => by by_cases hpa : p a <;> simp [hpa]
  have hq : (l.filter fun a => (!decide (p a)) && decide (p a ∨ q a)) = l.filter (q ·) := by
    refine List.filter_congr fun a ha => ?_
    by_cases hpa : p a
    · simp [hpa, h a ha hpa]
    · simp [hpa]
  rwa [hp, hq] at hperm

/-- Group by group, these are the elements that have one of the keys. -/
theorem flatMap_filter_perm (key : α → κ) (l : List α) (h : ks.Nodup) :
    (ks.flatMap fun k => l.filter (key · = k)).Perm (l.filter (key · ∈ ks)) := by
  induction ks with
  | nil => simp
  | cons k ks ih =>
    obtain ⟨hnew, hks⟩ := List.nodup_cons.mp h
    rw [List.flatMap_cons]
    refine ((ih hks).append_left _).trans ?_
    have hdisjoint : ∀ a ∈ l, key a = k → key a ∉ ks := fun a _ heq hmem => hnew (heq ▸ hmem)
    refine (filter_append_perm hdisjoint).trans ?_
    simp only [List.mem_cons]
    exact .refl _

end

end Grouping
