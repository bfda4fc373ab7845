import Mathlib.Data.List.Basic

/-!
# Supplied — after all that is needed

Some events of a log supply things, and some need them.  The log is supplied if each event comes after
events that supply all it needs.
-/

section Supplied

variable {α β : Type*} {supplies needs needs' : α → β → Prop} {l l' : List α} {a : α} {b : β}

def InSupply (supplies : α → β → Prop) (l : List α) (b : β) : Prop := ∃ a ∈ l, supplies a b

def Supplied (supplies needs : α → β → Prop) (l : List α) : Prop :=
  ∀ older a newer, l = older ++ a :: newer → ∀ b, needs a b → InSupply supplies older b

theorem InSupply.append_left (h : InSupply supplies l b) (l' : List α) : InSupply supplies (l ++ l') b := by
  obtain ⟨a, ha, hb⟩ := h
  exact ⟨a, List.mem_append_left l' ha, hb⟩

theorem supplied_nil : Supplied supplies needs [] := by
  intro older a newer heq
  exact absurd heq.symm (List.append_ne_nil_of_right_ne_nil _ (List.cons_ne_nil a newer))

theorem Supplied.left (h : Supplied supplies needs (l ++ l')) : Supplied supplies needs l := by
  rintro older a newer rfl
  apply h older a (newer ++ l')
  rw [List.append_assoc, List.cons_append]

theorem Supplied.mono (h : Supplied supplies needs l) (hneeds : ∀ a ∈ l, ∀ b, needs' a b → needs a b) :
    Supplied supplies needs' l := by
  rintro older a newer rfl b hb
  have ha : a ∈ older ++ a :: newer := List.mem_append_right _ List.mem_cons_self
  exact h older a newer rfl b (hneeds a ha b hb)

/-- New events that need nothing but what is there. -/
theorem Supplied.append (h : Supplied supplies needs l)
    (hnew : ∀ a ∈ l', ∀ b, needs a b → InSupply supplies l b) : Supplied supplies needs (l ++ l') := by
  rintro older a newer heq b hb
  obtain ⟨mid, rfl, rfl⟩ | ⟨mid, rfl, hmid⟩ := List.append_eq_append_iff.mp heq
  · exact (hnew a (List.mem_append_right _ List.mem_cons_self) b hb).append_left mid
  · cases mid with
    | nil =>
      obtain rfl : l' = a :: newer := hmid.symm
      rw [List.append_nil] at hnew
      exact hnew a List.mem_cons_self b hb
    | cons first mid =>
      obtain ⟨rfl, rfl⟩ := List.cons.inj hmid
      exact h older a mid rfl b hb

end Supplied
