import Mathlib.Data.List.Basic

/-!
# Replay — what a log has set and not cleared again

Entries of a log may set a key and may clear it.  `LiveAt log key i` says that entry `i` sets `key`
and that nothing after it clears it.  Two parties that replay the same log, one behind the other,
agree on the part both have seen.
-/

namespace Replay

variable {α κ : Type} (sets clears : α → κ → Prop)

def LiveAt (log : List α) (key : κ) (i : Nat) : Prop :=
  (∃ m, log[i]? = some m ∧ sets m key) ∧ ∀ j m, i < j → log[j]? = some m → ¬ clears m key

variable {sets clears} {log : List α} {key : κ} {i n : Nat}

theorem LiveAt.lt_length (h : LiveAt sets clears log key i) : i < log.length := by
  obtain ⟨⟨m, hm, -⟩, -⟩ := h
  exact (List.getElem?_eq_some_iff.mp hm).1

theorem not_liveAt_nil : ¬ LiveAt sets clears [] key i := fun h => Nat.not_lt_zero _ h.lt_length

theorem getElem?_concat {m x : α} {j : Nat} :
    (log ++ [m])[j]? = some x ↔ log[j]? = some x ∨ j = log.length ∧ m = x := by
  rcases Nat.lt_trichotomy j log.length with h | rfl | h
  · rw [List.getElem?_append_left h]
    exact ⟨.inl, fun h' => h'.elim id fun h' => absurd h'.1 (Nat.ne_of_lt h)⟩
  · simp
  · have hlen : (log ++ [m]).length ≤ j := by
      rw [List.length_append, List.length_singleton]
      omega
    rw [List.getElem?_eq_none hlen, List.getElem?_eq_none (Nat.le_of_lt h)]
    exact iff_of_false nofun fun h' => h'.elim nofun fun h' => absurd h'.1 (Nat.ne_of_gt h)

/-- One more entry sets its own keys and clears others. -/
theorem liveAt_concat {m : α} :
    LiveAt sets clears (log ++ [m]) key i ↔
      i = log.length ∧ sets m key ∨ LiveAt sets clears log key i ∧ ¬ clears m key := by
  have hlast : (log ++ [m])[log.length]? = some m := getElem?_concat.mpr (.inr ⟨rfl, rfl⟩)
  constructor
  -- what is live is the new entry itself, or an old one that it does not clear
  · rintro ⟨⟨m', hm', hset⟩, hclear⟩
    rcases getElem?_concat.mp hm' with hm' | ⟨rfl, rfl⟩
    · have hi := (List.getElem?_eq_some_iff.mp hm').1
      exact .inr ⟨⟨⟨m', hm', hset⟩,
        fun j m'' hij hj => hclear j m'' hij (getElem?_concat.mpr (.inl hj))⟩,
        hclear log.length m hi hlast⟩
    · exact .inl ⟨rfl, hset⟩
  -- nothing comes after the new entry
  · rintro (⟨rfl, hset⟩ | ⟨⟨⟨m', hm', hset⟩, hrest⟩, hclear⟩)
    · refine ⟨⟨m, hlast, hset⟩, fun j m' hj hm' => ?_⟩
      rcases getElem?_concat.mp hm' with hm' | ⟨rfl, -⟩
      · exact absurd (List.getElem?_eq_some_iff.mp hm').1 (Nat.not_lt_of_gt hj)
      · exact absurd hj (Nat.lt_irrefl _)
    · refine ⟨⟨m', getElem?_concat.mpr (.inl hm'), hset⟩, fun j m'' hij hj => ?_⟩
      rcases getElem?_concat.mp hj with hj | ⟨-, rfl⟩
      · exact hrest j m'' hij hj
      · exact hclear

/-- What is live in the end is live for whoever has seen it. -/
theorem LiveAt.take (h : LiveAt sets clears log key i) (hi : i < n) :
    LiveAt sets clears (log.take n) key i := by
  obtain ⟨⟨m, hm, hset⟩, hrest⟩ := h
  refine ⟨⟨m, by rwa [List.getElem?_take_of_lt hi], hset⟩, fun j m' hij hj => hrest j m' hij ?_⟩
  -- an entry that has been seen is an entry of the log
  rw [List.getElem?_take] at hj
  split at hj
  · exact hj
  · cases hj

theorem LiveAt.untake (h : LiveAt sets clears (log.take n) key i) (hn : log.length ≤ n) :
    LiveAt sets clears log key i := by
  rwa [List.take_of_length_le hn] at h

/-- What was live when only `n` entries had been seen is live in the end, unless an entry not seen
yet clears it; the first such entry finds it live. -/
theorem LiveAt.live_or_cleared (h : LiveAt sets clears (log.take n) key i) :
    LiveAt sets clears log key i ∨
      ∃ j m, n ≤ j ∧ log[j]? = some m ∧ clears m key ∧ LiveAt sets clears (log.take j) key i := by
  -- follow the log from `n` to its end
  obtain ⟨d, hd⟩ : ∃ d, log.length - n = d := ⟨_, rfl⟩
  induction d generalizing n with
  | zero => exact .inl (h.untake (by omega))
  | succ d ih =>
    have hn : n < log.length := by omega
    have hm : log[n]? = some log[n] := List.getElem?_eq_getElem hn
    by_cases hclear : clears log[n] key
    · exact .inr ⟨n, log[n], Nat.le_refl n, hm, hclear, h⟩
    · have hnext : LiveAt sets clears (log.take (n + 1)) key i := by
        rw [List.take_add_one, hm]
        exact liveAt_concat.mpr (.inr ⟨h, hclear⟩)
      rcases ih hnext (by omega) with hlive | ⟨j, m, hj, hjm, hc, hl⟩
      · exact .inl hlive
      · exact .inr ⟨j, m, by omega, hjm, hc, hl⟩

end Replay
