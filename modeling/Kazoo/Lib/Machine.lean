import Mathlib.Data.List.Basic

/-!
# Machine — guarded transition systems and their runs

A machine is a starting state, a guard saying which actions may be taken, and the state each action
leads to.  Interleavings of several threads are runs of one machine whose actions name the thread
and everything the environment chooses.  `Reach ok` are the states of the runs all of whose steps
meet `ok`, so one machine serves both the unrestricted runs and those under an assumption.
-/

structure Machine (σ α : Type) where
  init : σ
  enabled : σ → α → Prop
  post : σ → α → σ

namespace Machine

variable {σ α : Type} (M : Machine σ α) {ok ok' : σ → α → Prop}

/-- The states reached by runs all of whose steps meet `ok`. -/
inductive Reach (ok : σ → α → Prop) : σ → Prop
  | init : Reach ok M.init
  | step {s : σ} {a : α} : Reach ok s → M.enabled s a → ok s a → Reach ok (M.post s a)

/-- Nothing is asked of the steps of a run. -/
def Free : σ → α → Prop := fun _ _ => True

abbrev Reachable (s : σ) : Prop := M.Reach Free s

variable {M}

theorem Reach.mono (h : ∀ s a, ok s a → ok' s a) {s : σ} (hr : M.Reach ok s) : M.Reach ok' s := by
  induction hr with
  | init => exact .init
  | step _ hen hok ih => exact .step ih hen (h _ _ hok)

/-- What holds at the start and is kept by every step that meets `ok` holds of every state such
runs reach.  The step may use that its source is itself such a state. -/
theorem Reach.invariant {P : σ → Prop} (hinit : P M.init)
    (hstep : ∀ s a, M.Reach ok s → P s → M.enabled s a → ok s a → P (M.post s a))
    {s : σ} (hr : M.Reach ok s) : P s := by
  induction hr with
  | init => exact hinit
  | step hr hen hok ih => exact hstep _ _ hr ih hen hok

/-! ## Runs as lists of actions -/

variable (M) in
/-- The state after `acts`, taken in order from `s`. -/
def exec (s : σ) (acts : List α) : σ := acts.foldl M.post s

variable (M) in
/-- Each of `acts` is enabled and meets `ok` where it is taken. -/
def Legal (ok : σ → α → Prop) : σ → List α → Prop
  | _, [] => True
  | s, a :: acts => M.enabled s a ∧ ok s a ∧ Legal ok (M.post s a) acts

instance decidableLegal [∀ s a, Decidable (M.enabled s a)] [∀ s a, Decidable (ok s a)] :
    ∀ (s : σ) (acts : List α), Decidable (M.Legal ok s acts)
  | _, [] => inferInstanceAs (Decidable True)
  | s, a :: acts =>
      have := decidableLegal (M.post s a) acts
      inferInstanceAs (Decidable (_ ∧ _ ∧ _))

instance (s : σ) (a : α) : Decidable (Free s a) := inferInstanceAs (Decidable True)

theorem Reach.exec {s : σ} (hr : M.Reach ok s) {acts : List α} (h : M.Legal ok s acts) :
    M.Reach ok (M.exec s acts) := by
  induction acts generalizing s with
  | nil => exact hr
  | cons a acts ih =>
      obtain ⟨hen, hok, hrest⟩ := h
      exact ih (.step hr hen hok) hrest

variable {s : σ} {acts acts' : List α}

theorem exec_append : M.exec s (acts ++ acts') = M.exec (M.exec s acts) acts' :=
  List.foldl_append

theorem legal_append_iff :
    M.Legal ok s (acts ++ acts') ↔ M.Legal ok s acts ∧ M.Legal ok (M.exec s acts) acts' := by
  induction acts generalizing s with
  | nil => exact (and_iff_right trivial).symm
  | cons a acts ih =>
    show _ ∧ _ ∧ M.Legal ok (M.post s a) (acts ++ acts') ↔ (_ ∧ _ ∧ M.Legal ok (M.post s a) acts) ∧ _
    rw [ih, and_assoc, and_assoc]
    exact Iff.rfl

/-- Where two conditions on steps are the same under an invariant, they are met by the same runs. -/
theorem legal_congr {P : σ → Prop} (hs : P s) (hpost : ∀ s a, P s → M.enabled s a → P (M.post s a))
    (hok : ∀ s a, P s → M.enabled s a → (ok s a ↔ ok' s a)) :
    M.Legal ok s acts ↔ M.Legal ok' s acts := by
  induction acts generalizing s with
  | nil => exact Iff.rfl
  | cons a acts ih =>
    constructor
    · rintro ⟨hen, ha, hrest⟩
      exact ⟨hen, (hok s a hs hen).mp ha, (ih (hpost s a hs hen)).mp hrest⟩
    · rintro ⟨hen, ha, hrest⟩
      exact ⟨hen, (hok s a hs hen).mpr ha, (ih (hpost s a hs hen)).mpr hrest⟩

/-- A legal list of actions from the start ends in a reached state. -/
theorem Reach.of_legal (h : M.Legal ok M.init acts) :
    M.Reach ok (M.exec M.init acts) :=
  Reach.init.exec h

end Machine
