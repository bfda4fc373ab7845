import Mathlib.Data.List.Infix

/-!
# Located — parts of a buffer

`Located buffer offset part` says that `part` stands in `buffer` from `offset` on.  A reader that is
correct for located parts is correct whatever stands before and behind them, and the parts of a
message are located one behind the other.
-/

def Located {α : Type} (buffer : List α) (offset : Nat) (part : List α) : Prop :=
  part <+: buffer.drop offset

namespace Located

variable {α : Type} {buffer part rest : List α} {offset : Nat} {x : α}

theorem here (before part after : List α) :
    Located (before ++ part ++ after) before.length part := by
  rw [Located, List.append_assoc, List.drop_left]
  exact List.prefix_append part after

theorem behind (before part : List α) : Located (before ++ part) before.length part := by
  simpa using here before part []

theorem start (part : List α) : Located part 0 part := List.prefix_refl part

@[simp] theorem nil : Located buffer offset [] := List.nil_prefix

@[simp] theorem append_iff : Located buffer offset (part ++ rest) ↔
    Located buffer offset part ∧ Located buffer (offset + part.length) rest := by
  unfold Located
  constructor
  · rintro ⟨after, h⟩
    rw [List.append_assoc] at h
    refine ⟨⟨rest ++ after, h⟩, after, ?_⟩
    rw [← List.drop_drop, ← h, List.drop_left]
  · rintro ⟨⟨after, h⟩, hrest⟩
    rw [← List.drop_drop, ← h, List.drop_left] at hrest
    rw [← h]
    exact (List.prefix_append_right_inj part).mpr hrest

theorem take (h : Located buffer offset part) : (buffer.drop offset).take part.length = part :=
  (List.prefix_iff_eq_take.mp h).symm

theorem length_le (h : Located buffer offset part) (hpart : part ≠ []) :
    offset + part.length ≤ buffer.length := by
  have hlength := List.IsPrefix.length_le h
  have hpos := List.length_pos_iff.mpr hpart
  rw [List.length_drop] at hlength
  omega

theorem getElem? (h : Located buffer offset [x]) : buffer[offset]? = some x := by
  obtain ⟨after, h⟩ := h
  have hhead : (buffer.drop offset)[0]? = some x := by rw [← h]; rfl
  rwa [List.getElem?_drop, Nat.add_zero] at hhead

end Located

/-- Wherever `out` is located, `read` takes it for `x` and comes to its end. -/
def ReadsBack {ε α β : Type} (out : Except ε (List β)) (read : List β → Nat → Except ε (α × Nat))
    (x : α) : Prop :=
  ∀ b buffer offset, out = .ok b → Located buffer offset b →
    read buffer offset = .ok (x, offset + b.length)

theorem ReadsBack.map {ε α β γ : Type} {out : Except ε (List β)}
    {read : List β → Nat → Except ε (α × Nat)} {x : α} (h : ReadsBack out read x) (f : α → γ) :
    ReadsBack out (fun buffer offset => do
      let (x, offset) ← read buffer offset
      return (f x, offset)) (f x) := by
  intro b buffer offset hb hlocated
  dsimp only
  rw [h b buffer offset hb hlocated]
  rfl
