import Kazoo.Recipe.Barrier
import Mathlib.Data.Fintype.Basic

/-!
# Leaving a double barrier

One round without failures, in which nobody leaves before everyone has created its node.  The
participant with the least name is the last to delete its node.
-/

namespace Kazoo

namespace BarrierObject

/-- `leave` has been called. -/
def Leaving (o : BarrierObject) : Prop :=
  match o.stage with
  | .outside => o.participating = false ∧ 0 < o.enters
  | .unreadying | .listing | .deletingLast | .checkingHighest _ | .awaitingHighest _
  | .deletingOwn _ | .checkingFirst _ | .awaitingFirst _ => True
  | _ => False

/-- `leave` has returned. -/
def Left (o : BarrierObject) : Prop :=
  o.stage = .outside ∧ o.participating = false ∧ 0 < o.enters

/-- `enter` has returned, in a round in which it does not fail. -/
def Entered (o : BarrierObject) : Prop := o.stage = .outside ∧ 0 < o.enters ∨ o.Leaving

instance (o : BarrierObject) : Decidable o.Leaving := by
  unfold Leaving
  split <;> infer_instance

instance (o : BarrierObject) : Decidable o.Left := inferInstanceAs (Decidable (_ ∧ _))

instance (o : BarrierObject) : Decidable o.Entered := inferInstanceAs (Decidable (_ ∨ _))

theorem Left.leaving {o : BarrierObject} (h : o.Left) : o.Leaving := by
  unfold Leaving
  rw [h.1]
  exact h.2

@[simp] theorem leaving_told {o : BarrierObject} {before after : List PyStr} :
    (o.told before after).Leaving ↔ o.Leaving := by
  simp only [Leaving, told_stage, told_participating, told_enters]

end BarrierObject

namespace Gathering

variable {π : Type} [DecidableEq π] {B : DoubleBarriers π} {s t : Gathering π} {p q first : π}

/-! ## One round -/

/-- Everyone calls `enter` once, and `leave` once it has entered, and nothing fails. -/
def OneRound (s : Gathering π) : BarrierAct π → Prop
  | .enter p => (s.objects p).enters = 0
  | .leave p => (s.objects p).participating = true
  | .drop _ _ _ | .expire _ => False
  | _ => True

instance (s : Gathering π) (act : BarrierAct π) : Decidable (s.OneRound act) := by
  induction act using BarrierAct.casesOn <;> (dsimp only [OneRound]; infer_instance)

/-- Nobody calls `leave` before everyone has entered. -/
def EnteredFirst (s : Gathering π) (act : BarrierAct π) : Prop :=
  s.OneRound act ∧ ∀ p, act = .leave p → ∀ q, (s.objects q).Entered

instance [Fintype π] (s : Gathering π) (act : BarrierAct π) : Decidable (s.EnteredFirst act) :=
  inferInstanceAs (Decidable (_ ∧ _))

/-! ## Where the node of a participant is -/

def Away (s : Gathering π) (p : π) : Prop := p ∉ s.present ∧ s.deletions p = 0

def Here (s : Gathering π) (p : π) : Prop := p ∈ s.present ∧ s.deletions p = 0

def Gone (s : Gathering π) (p : π) : Prop := p ∉ s.present ∧ s.deletions p = 1

/-- The participant has created its node. -/
def Created (s : Gathering π) (p : π) : Prop := p ∈ s.present ∨ 0 < s.deletions p

omit [DecidableEq π] in
theorem Away.not_created (h : s.Away p) : ¬ s.Created p := by
  rintro (hp | hp)
  · exact h.1 hp
  · rw [h.2] at hp
    exact Nat.lt_irrefl 0 hp

/-- What the stage of a participant says of its node, and of the others, where `first` has the
least name. -/
def Standing (B : DoubleBarriers π) (first : π) (s : Gathering π) (p : π) : Prop :=
  match (s.objects p).stage with
  | .outside =>
    if (s.objects p).participating then s.Here p
    else if (s.objects p).enters = 0 then s.Away p
    else s.Gone p ∧ s.present = []
  | .ensuring | .creating => s.Away p
  | .watching | .counting | .awaitingReady | .askingReady | .makingReady | .unreadying => s.Here p
  | .listing => s.Here p ∨ s.Gone p ∧ first ∉ s.present
  | .deletingLast => s.Here p ∧ (∀ q ∈ s.present, q = p) ∧ s.ready = false
  | .checkingHighest _ | .awaitingHighest _ => s.Here p ∧ p = first
  | .deletingOwn name => s.Here p ∧ name = B.nodeName first ∧ p ≠ first
  | .checkingFirst name => s.Gone p ∧ name = B.nodeName first
  | .awaitingFirst name =>
    s.Gone p ∧ name = B.nodeName first ∧
      (∀ watched, (s.objects p).watch = some watched → watched = B.nodeName first) ∧
      ((s.objects p).event = some .DELETED ∨ (s.objects p).ready = true → first ∉ s.present)
  | .failed _ _ | .cleaning => False

structure Exiting (B : DoubleBarriers π) (first : π) (s : Gathering π) : Prop where
  standing : ∀ p, s.Standing B first p
  entered : ∀ p, (s.objects p).enters = 0 →
    (s.objects p).stage = .outside ∧ (s.objects p).participating = false
  -- nobody leaves before everyone has created its node
  created : ∀ p, (s.objects p).Leaving → ∀ q, s.Created q
  emptied : 0 < s.deletions first → s.present = [] ∧ s.ready = false

omit [DecidableEq π] in
theorem exiting_new : Exiting B first (new : Gathering π) where
  standing := fun _ => ⟨List.not_mem_nil, rfl⟩
  entered := fun _ _ => ⟨rfl, rfl⟩
  created := fun _ h => absurd h.2 (Nat.lt_irrefl 0)
  emptied := fun h => absurd h (Nat.lt_irrefl 0)

omit [DecidableEq π] in
/-- Who has deleted its node is leaving. -/
theorem Standing.leaving (h : s.Standing B first p) (hdeletions : 0 < s.deletions p) :
    (s.objects p).Leaving ∧ s.Gone p := by
  have hhere : ¬ s.Here p := fun hhere => absurd hhere.2 (by omega)
  have haway : ¬ s.Away p := fun haway => absurd haway.2 (by omega)
  cases hstage : (s.objects p).stage <;>
    simp only [Standing, hstage, BarrierObject.Leaving, true_and] at h ⊢
  case outside =>
    split at h
    · exact absurd h hhere
    case isFalse hout =>
      split at h
      · exact absurd h haway
      case isFalse henters => exact ⟨⟨Bool.eq_false_iff.mpr hout, by omega⟩, h.1⟩
  case ensuring | creating => exact absurd h haway
  case watching | counting | awaitingReady | askingReady | makingReady | unreadying =>
    exact absurd h hhere
  case listing => exact (h.resolve_left hhere).1
  case deletingLast | checkingHighest | awaitingHighest | deletingOwn => exact absurd h.1 hhere
  case checkingFirst | awaitingFirst => exact h.1

/-! ## What a step keeps -/

/-- The others keep their standing when `p` takes a step. -/
theorem Exiting.others (h : Exiting B first s) (hb : Beside B s t p)
    (hpresent : p ∈ t.present → p ∈ s.present ∨ s.Away p)
    (hready : t.ready = true → s.ready = true ∨ s.Here p) (hq : q ≠ p) :
    t.Standing B first q := by
  have hshrinks (hleaving : (s.objects q).Leaving) (r : π) (hr : r ∈ t.present) :
      r ∈ s.present := by
    by_cases heq : r = p
    · subst heq
      rcases hpresent hr with hr | haway
      · exact hr
      · exact absurd (h.created q hleaving r) haway.not_created
    · exact (hb.present r heq).mp hr
  have hhere : s.Here q → t.Here q := fun hhere =>
    ⟨(hb.present q hq).mpr hhere.1, (hb.deletions q hq).trans hhere.2⟩
  have haway : s.Away q → t.Away q := fun haway =>
    ⟨fun hin => haway.1 ((hb.present q hq).mp hin), (hb.deletions q hq).trans haway.2⟩
  have hgone : s.Gone q → t.Gone q := fun hgone =>
    ⟨fun hin => hgone.1 ((hb.present q hq).mp hin), (hb.deletions q hq).trans hgone.2⟩
  have hobject := hb.objects q hq
  have hstanding := h.standing q
  cases hstage : (s.objects q).stage
  case failed | cleaning => simp only [Standing, hstage] at hstanding
  all_goals
    simp only [Standing, hobject, BarrierObject.told_stage, BarrierObject.told_participating,
      BarrierObject.told_enters, BarrierObject.told_ready, hstage] at hstanding ⊢
    simp only [BarrierObject.Leaving, hstage] at hshrinks
  case outside =>
    split at hstanding
    case isTrue hin => rw [if_pos hin]; exact hhere hstanding
    case isFalse hout =>
      rw [if_neg hout]
      split at hstanding
      case isTrue henters => rw [if_pos henters]; exact haway hstanding
      case isFalse henters =>
        rw [if_neg henters]
        refine ⟨hgone hstanding.1, List.eq_nil_iff_forall_not_mem.mpr fun r hr => ?_⟩
        have hold := hshrinks ⟨Bool.eq_false_iff.mpr hout, by omega⟩ r hr
        rw [hstanding.2] at hold
        cases hold
  case ensuring | creating => exact haway hstanding
  case watching | counting | awaitingReady | askingReady | makingReady | unreadying =>
    exact hhere hstanding
  case listing =>
    refine hstanding.imp hhere fun hout => ⟨hgone hout.1, fun hin => hout.2 (hshrinks trivial _ hin)⟩
  case deletingLast =>
    obtain ⟨hnode, honly, hnone⟩ := hstanding
    refine ⟨hhere hnode, fun r hr => honly r (hshrinks trivial r hr), ?_⟩
    rw [← Bool.not_eq_true]
    intro hmade
    rcases hready hmade with hold | hmaker
    · rw [hnone] at hold
      cases hold
    · exact hq (honly p hmaker.1).symm
  case checkingHighest | awaitingHighest | deletingOwn =>
    exact hstanding.imp_left hhere
  case checkingFirst => exact hstanding.imp_left hgone
  case awaitingFirst =>
    obtain ⟨hnode, hname, hwatch, hevent⟩ := hstanding
    refine ⟨hgone hnode, hname, fun watched hwatched => ?_, fun hwoken hin => ?_⟩
    · exact hwatch watched (BarrierObject.watch_of_told hwatched).1
    · have hold := hshrinks trivial first hin
      rcases hwoken with hnews | hwoken
      · rcases BarrierObject.event_of_told hnews with hnews | ⟨name, hwatched, -, hchange⟩
        · exact hevent (.inl hnews) hold
        · rcases hchange with ⟨htype, -, -⟩ | ⟨-, -, hafter⟩
          · cases htype
          · rw [hwatch name hwatched] at hafter
            exact hafter (nodeName_mem_children.mpr hin)
      · exact hevent (.inr hwoken) hold

/-- What is left to show about a step of `p`. -/
theorem Exiting.of_step (h : Exiting B first s) (hb : Beside B s t p)
    (hpresent : p ∈ t.present → p ∈ s.present ∨ s.Away p)
    (hready : t.ready = true → s.ready = true ∨ s.Here p) (hcreated : s.Created p → t.Created p)
    (hentered : (t.objects p).enters = 0 →
      (t.objects p).stage = .outside ∧ (t.objects p).participating = false)
    (hleaving : (t.objects p).Leaving → ∀ q, s.Created q) (hstanding : t.Standing B first p)
    (hemptied : p = first → 0 < t.deletions p → t.present = [] ∧ t.ready = false) :
    Exiting B first t := by
  have hkept (q : π) (hq : s.Created q) : t.Created q := by
    by_cases heq : q = p
    · subst heq
      exact hcreated hq
    · unfold Created
      rw [hb.present q heq, hb.deletions q heq]
      exact hq
  refine ⟨fun q => ?_, fun q hq => ?_, fun q hq => ?_, fun hdeleted => ?_⟩
  · by_cases heq : q = p
    · subst heq
      exact hstanding
    · exact h.others hb hpresent hready heq
  · by_cases heq : q = p
    · subst heq
      exact hentered hq
    · rw [hb.objects q heq, BarrierObject.told_enters] at hq
      rw [hb.objects q heq, BarrierObject.told_stage, BarrierObject.told_participating]
      exact h.entered q hq
  · by_cases heq : q = p
    · subst heq
      exact fun r => hkept r (hleaving hq r)
    · rw [hb.objects q heq, BarrierObject.leaving_told] at hq
      exact fun r => hkept r (h.created q hq r)
  · by_cases heq : first = p
    · subst heq
      exact hemptied rfl hdeleted
    · rw [hb.deletions first heq] at hdeleted
      obtain ⟨hempty, hnone⟩ := h.emptied hdeleted
      have hall := h.created first ((h.standing first).leaving hdeleted).1
      have hout : p ∉ s.present := by
        rw [hempty]
        exact List.not_mem_nil
      constructor
      · refine List.eq_nil_iff_forall_not_mem.mpr fun r hr => ?_
        by_cases hr' : r = p
        · subst hr'
          rcases hpresent hr with hin | haway
          · exact hout hin
          · exact haway.not_created (hall r)
        · have hin := (hb.present r hr').mp hr
          rw [hempty] at hin
          cases hin
      · rw [← Bool.not_eq_true]
        intro hmade
        rcases hready hmade with hold | hmaker
        · rw [hnone] at hold
          cases hold
        · exact hout hmaker.1

/-- The thread changes nothing but its own object. -/
theorem Exiting.setObject (h : Exiting B first s) {o : BarrierObject}
    (hentered : o.enters = 0 → o.stage = .outside ∧ o.participating = false)
    (hleaving : o.Leaving → ∀ q, s.Created q)
    (hstanding : (s.setObject p o).Standing B first p) : Exiting B first (s.setObject p o) := by
  refine h.of_step (Beside.refl.own own_setObject) .inl .inl id ?_ ?_ hstanding ?_
  · rw [objects_setObject_self]
    exact hentered
  · rw [objects_setObject_self]
    exact hleaving
  · rintro rfl hdeleted
    exact h.emptied hdeleted

/-! ## The participant with the least name -/

omit [DecidableEq π] in
/-- The least child, where the first is there. -/
theorem least_child (hfirst : ∀ q, ¬ B.nodeName q < B.nodeName first) (hin : first ∈ s.present)
    {name : PyStr} {rest : List PyStr} (h : sortedNames (s.children B) = name :: rest) :
    name = B.nodeName first := by
  obtain ⟨hname, hleast⟩ := head_sortedNames h
  have hle : ¬ B.nodeName first < name := hleast _ (nodeName_mem_children.mpr hin)
  refine List.le_antisymm hle ?_
  rcases mem_children.mp hname with ⟨q, -, rfl⟩ | ⟨-, rfl⟩
  · exact hfirst q
  · exact fun hlt => absurd (B.nodeName_lt_readyName first) (List.lt_asymm hlt)

omit [DecidableEq π] in
/-- While someone who is leaving has its node, the first has its own. -/
theorem Exiting.first_present (h : Exiting B first s) (hleaving : (s.objects p).Leaving)
    (hin : p ∈ s.present) : first ∈ s.present := by
  rcases h.created p hleaving first with hfirst | hdeleted
  · exact hfirst
  · rw [(h.emptied hdeleted).1] at hin
    cases hin

omit [DecidableEq π] in
/-- Once the first has deleted its node, nothing is left. -/
theorem Exiting.children_eq_nil (h : Exiting B first s) (hleaving : (s.objects p).Leaving)
    (hout : first ∉ s.present) : s.children B = [] := by
  have hdeleted := (h.created p hleaving first).resolve_left hout
  obtain ⟨hempty, hnone⟩ := h.emptied hdeleted
  simp [children, hempty, hnone]

omit [DecidableEq π] in
theorem Exiting.enters_ne (h : Exiting B first s) (hstage : (s.objects p).stage ≠ .outside) :
    (s.objects p).enters ≠ 0 :=
  fun h0 => hstage (h.entered p h0).1

/-- A thread that is inside a call gets on with it. -/
theorem Exiting.goOn (h : Exiting B first s) (hinside : (s.objects p).stage ≠ .outside)
    {o : BarrierObject} (henters : o.enters = (s.objects p).enters)
    (hleaving : o.Leaving → (s.objects p).Leaving)
    (hstanding : (s.setObject p o).Standing B first p) : Exiting B first (s.setObject p o) :=
  h.setObject (fun h0 => absurd (henters ▸ h0) (h.enters_ne hinside))
    (fun h' => h.created p (hleaving h')) hstanding

omit [DecidableEq π] in
/-- A child is listed when the node of the thread is. -/
theorem leaving_ne_none (hin : p ∈ s.present) : leaving (B.nodeName p) (s.children B) ≠ none := by
  have hown : B.nodeName p ∈ s.children B := nodeName_mem_children.mpr hin
  intro hnone
  unfold leaving at hnone
  split at hnone
  case h_1 hnil =>
    rw [sortedNames_eq_nil_iff.mp hnil] at hown
    cases hown
  all_goals cases hnone

/-- `leave` returns when no child is left. -/
theorem Exiting.finished (h : Exiting B first s) (hstage : (s.objects p).stage = .listing)
    (hleaving : leaving (B.nodeName p) (s.children B) = none) : Exiting B first (s.returns p) := by
  have hstanding := h.standing p
  simp only [Standing, hstage] at hstanding
  obtain ⟨hgone, hout⟩ := hstanding.resolve_left fun hhere => leaving_ne_none hhere.1 hleaving
  have hinside : (s.objects p).stage ≠ .outside := by simp [hstage]
  have hin : (s.objects p).Leaving := by simp only [BarrierObject.Leaving, hstage]
  have hempty := h.children_eq_nil hin hout
  refine h.goOn hinside rfl (fun _ => hin) ?_
  simp only [Standing, objects_setObject_self, Bool.false_eq_true, if_false,
    if_neg (h.enters_ne hinside)]
  refine ⟨hgone, List.eq_nil_iff_forall_not_mem.mpr fun q hq => ?_⟩
  have hchild : B.nodeName q ∈ s.children B := nodeName_mem_children.mpr hq
  rw [hempty] at hchild
  cases hchild

/-- The last one there deletes its node; before, the first waits and the others delete theirs. -/
theorem Exiting.lists (h : Exiting B first s) (hfirst : ∀ q, ¬ B.nodeName q < B.nodeName first)
    (hstage : (s.objects p).stage = .listing) {stage : BarrierStage}
    (hsome : leaving (B.nodeName p) (s.children B) = some stage) :
    Exiting B first (s.setStage p stage) := by
  have hleaving : (s.objects p).Leaving := by simp only [BarrierObject.Leaving, hstage]
  have hstanding := h.standing p
  simp only [Standing, hstage] at hstanding
  have hhere : s.Here p := hstanding.resolve_right fun ⟨_, hout⟩ => by
    rw [h.children_eq_nil hleaving hout] at hsome
    cases hsome
  have hin := h.first_present hleaving hhere.1
  have hown : B.nodeName p ∈ s.children B := nodeName_mem_children.mpr hhere.1
  refine h.goOn (by simp [hstage]) rfl (fun _ => hleaving) ?_
  unfold leaving at hsome
  split at hsome
  case h_1 => cases hsome
  case h_2 name hsorted =>
    have honly (other : PyStr) (hother : other ∈ s.children B) : other = name := by
      have := mem_sortedNames.mpr hother
      rw [hsorted] at this
      exact List.mem_singleton.mp this
    injection hsome with hsome
    subst hsome
    rw [if_pos (honly _ hown).symm]
    simp only [Standing, objects_setObject_self]
    refine ⟨hhere, fun q hq => ?_, ?_⟩
    · apply B.nodeName_injective
      rw [honly _ (nodeName_mem_children.mpr hq), honly _ hown]
    · rw [← Bool.not_eq_true]
      intro hready
      have := honly _ (readyName_mem_children.mpr hready)
      rw [← honly _ hown] at this
      exact B.nodeName_ne_readyName p this.symm
  case h_3 name second rest hsorted =>
    have hname := least_child hfirst hin hsorted
    injection hsome with hsome
    subst hsome
    by_cases hmine : B.nodeName p = name
    · rw [if_pos hmine]
      simp only [Standing, objects_setObject_self]
      exact ⟨hhere, B.nodeName_injective (hmine.trans hname)⟩
    · rw [if_neg hmine]
      simp only [Standing, objects_setObject_self]
      exact ⟨hhere, hname, fun heq => hmine (heq ▸ hname.symm)⟩

/-- The thread deletes its node. -/
theorem Exiting.deletes (h : Exiting B first s) (hstage : (s.objects p).stage ≠ .outside) (hleaving : (s.objects p).Leaving) {o : BarrierObject}
    (henters : o.enters = (s.objects p).enters)
    (hnone : p = first → (∀ q ∈ s.present, q = p) ∧ s.ready = false) :
    let t := { s.deleteNode B p with
      deletions := Function.update s.deletions p (s.deletions p + 1) }
    (t.setObject p o).Standing B first p → Exiting B first (t.setObject p o) := by
  intro t hstanding
  have hdeletions : (t.setObject p o).deletions p = s.deletions p + 1 := Function.update_self _ _ _
  have hpresent (q : π) : q ∈ (t.setObject p o).present ↔ q ≠ p ∧ q ∈ s.present :=
    mem_present_deleteNode
  have hready : (t.setObject p o).ready = s.ready := ready_deleteNode
  refine h.of_step (beside_deleteNode.own (own_deletions.trans own_setObject)) ?_ ?_ ?_ ?_ ?_
    hstanding ?_
  · exact fun h' => absurd rfl ((hpresent p).mp h').1
  · exact fun h' => .inl (hready ▸ h')
  · exact fun _ => .inr (by omega)
  · rw [objects_setObject_self, henters]
    exact fun h0 => absurd h0 (h.enters_ne hstage)
  · exact fun _ => h.created p hleaving
  · rintro heq -
    obtain ⟨honly, hnone⟩ := hnone heq
    refine ⟨List.eq_nil_iff_forall_not_mem.mpr fun q hq => ?_, hready.trans hnone⟩
    obtain ⟨hne, hq⟩ := (hpresent q).mp hq
    exact hne (honly q hq)

theorem Exiting.enterReturns (h : Exiting B first s) (hhere : s.Here p)
    (henters : (s.objects p).enters ≠ 0) : Exiting B first (s.enterReturns p) := by
  refine h.of_step (Beside.refl.own own_enterReturns) .inl .inl id ?_ ?_ ?_ ?_
  · simp only [Gathering.enterReturns, objects_setObject_self]
    exact fun h0 => absurd h0 henters
  · simp only [Gathering.enterReturns, objects_setObject_self, BarrierObject.Leaving]
    exact fun hleaving => absurd hleaving.1 (by decide)
  · simp only [Standing, Gathering.enterReturns, objects_setObject_self, if_true]
    exact hhere
  · exact fun _ hdeleted => absurd hhere.2 (Nat.ne_of_gt hdeleted)

theorem Exiting.creates (h : Exiting B first s) (hstage : (s.objects p).stage = .creating) :
    Exiting B first ({ s.createNode B p with
      peak := Function.update (s.createNode B p).peak p (s.createNode B p).present.length }.setStage p
        .watching) := by
  have haway : s.Away p := by
    have hstanding := h.standing p
    simpa only [Standing, hstage] using hstanding
  have henters := h.enters_ne (p := p) (by simp [hstage])
  have hin : p ∈ (s.createNode B p).present := mem_present_createNode.mpr (.inl rfl)
  have hdeletions : (s.createNode B p).deletions p = 0 := by rw [deletions_createNode, haway.2]
  refine h.of_step (Goes.creates hstage).beside (fun _ => .inr haway)
    (fun hready => .inl (ready_createNode (B := B) (p := p) ▸ hready)) (fun _ => .inl hin) ?_ ?_ ?_ ?_
  · simp only [setStage, objects_setObject_self]
    rw [objects_createNode, BarrierObject.told_enters]
    exact fun h0 => absurd h0 henters
  · simp only [setStage, objects_setObject_self, BarrierObject.Leaving]
    exact False.elim
  · simp only [Standing, setStage, objects_setObject_self]
    exact ⟨hin, hdeletions⟩
  · exact fun _ hdeleted => absurd hdeletions (Nat.ne_of_gt hdeleted)

theorem Exiting.makesReady (h : Exiting B first s) (hstage : (s.objects p).stage = .makingReady) :
    Exiting B first (s.createReady.enterReturns p) := by
  have hhere : s.Here p := by
    have hstanding := h.standing p
    simpa only [Standing, hstage] using hstanding
  have henters := h.enters_ne (p := p) (by simp [hstage])
  have hpresent : (s.createReady.enterReturns p).present = s.present := present_createReady
  have hdeletions : (s.createReady.enterReturns p).deletions = s.deletions := deletions_createReady
  refine h.of_step (Goes.makesReady (B := B) hstage).beside (fun hin => .inl (hpresent ▸ hin))
    (fun _ => .inr hhere) (fun _ => .inl (hpresent ▸ hhere.1)) ?_ ?_ ?_ ?_
  · simp only [Gathering.enterReturns, objects_setObject_self, objects_createReady (B := B) p,
      BarrierObject.told_enters]
    exact fun h0 => absurd h0 henters
  · simp only [Gathering.enterReturns, objects_setObject_self, BarrierObject.Leaving]
    exact fun hleaving => absurd hleaving.1 (by decide)
  · simp only [Standing, Gathering.enterReturns, objects_setObject_self, if_true]
    exact ⟨hpresent ▸ hhere.1, hdeletions ▸ hhere.2⟩
  · exact fun _ hdeleted => absurd hhere.2 (Nat.ne_of_gt (hdeletions ▸ hdeleted))

theorem Exiting.clearsReady (h : Exiting B first s) (hstage : (s.objects p).stage = .unreadying) :
    Exiting B first (s.deleteReady.setStage p .listing) := by
  have hhere : s.Here p := by
    have hstanding := h.standing p
    simpa only [Standing, hstage] using hstanding
  have hleaving : (s.objects p).Leaving := by simp only [BarrierObject.Leaving, hstage]
  have henters := h.enters_ne (p := p) (by simp [hstage])
  have hpresent : (s.deleteReady.setStage p .listing).present = s.present := present_deleteReady
  have hready : (s.deleteReady.setStage p .listing).ready = false := ready_deleteReady
  have hdeletions : (s.deleteReady.setStage p .listing).deletions = s.deletions :=
    deletions_deleteReady
  refine h.of_step (Goes.clearsReady (B := B) hstage).beside (fun hin => .inl (hpresent ▸ hin))
    (fun h' => absurd (hready.symm.trans h') Bool.false_ne_true)
    (fun _ => .inl (hpresent ▸ hhere.1)) ?_ (fun _ => h.created p hleaving) ?_ ?_
  · simp only [setStage, objects_setObject_self, objects_deleteReady (B := B) p,
      BarrierObject.told_enters]
    exact fun h0 => absurd h0 henters
  · simp only [Standing, setStage, objects_setObject_self]
    exact .inl ⟨hpresent ▸ hhere.1, hdeletions ▸ hhere.2⟩
  · exact fun _ hdeleted => absurd hhere.2 (Nat.ne_of_gt (hdeletions ▸ hdeleted))

/-- The last one to delete its node leaves nothing. -/
theorem Exiting.deletesLast (h : Exiting B first s) (hstage : (s.objects p).stage = .deletingLast) :
    Exiting B first (s.deleting B p fun s => s.returns p) := by
  obtain ⟨hhere, honly, hnone⟩ :
      s.Here p ∧ (∀ q ∈ s.present, q = p) ∧ s.ready = false := by
    have hstanding := h.standing p
    simpa only [Standing, hstage] using hstanding
  have henters := h.enters_ne (p := p) (by simp [hstage])
  have hempty : (s.deleteNode B p).present = [] :=
    List.eq_nil_iff_forall_not_mem.mpr fun q hq =>
      absurd (honly q (mem_present_deleteNode.mp hq).2) (mem_present_deleteNode.mp hq).1
  rw [deleting, if_pos hhere.1]
  refine h.deletes (by simp [hstage]) (by simp [BarrierObject.Leaving, hstage]) ?_
    (fun _ => ⟨honly, hnone⟩) ?_
  · rw [objects_deleteNode, BarrierObject.told_enters]
  · simp only [Standing, objects_setObject_self, Bool.false_eq_true, if_false]
    rw [if_neg (by rw [objects_deleteNode, BarrierObject.told_enters]; exact henters)]
    refine ⟨⟨?_, ?_⟩, hempty⟩
    · show p ∉ (s.deleteNode B p).present
      rw [hempty]
      exact List.not_mem_nil
    · show Function.update s.deletions p (s.deletions p + 1) p = 1
      rw [Function.update_self, hhere.2]

theorem Exiting.deletesOwn (h : Exiting B first s) {name : PyStr}
    (hstage : (s.objects p).stage = .deletingOwn name) :
    Exiting B first (s.deleting B p fun s => s.setStage p (.checkingFirst name)) := by
  obtain ⟨hhere, hname, hne⟩ : s.Here p ∧ name = B.nodeName first ∧ p ≠ first := by
    have hstanding := h.standing p
    simpa only [Standing, hstage] using hstanding
  rw [deleting, if_pos hhere.1]
  refine h.deletes (by simp [hstage]) (by simp [BarrierObject.Leaving, hstage]) ?_
    (fun heq => absurd heq hne) ?_
  · show ((s.deleteNode B p).objects p).enters = _
    rw [objects_deleteNode, BarrierObject.told_enters]
  · simp only [Standing, objects_setObject_self]
    refine ⟨⟨fun hin => absurd rfl (mem_present_deleteNode.mp hin).1, ?_⟩, hname⟩
    show Function.update s.deletions p (s.deletions p + 1) p = 1
    rw [Function.update_self, hhere.2]

theorem Exiting.go (h : Exiting B first s) (hfirst : ∀ q, ¬ B.nodeName q < B.nodeName first)
    (hgo : s.goOn B p = some t) : Exiting B first t := by
  have hstanding := h.standing p
  cases goes_of_goOn hgo with
  | creates hstage => exact h.creates hstage
  | makesReady hstage => exact h.makesReady hstage
  | clearsReady hstage => exact h.clearsReady hstage
  | finished hstage hleaving => exact h.finished hstage hleaving
  | lists hstage hleaving => exact h.lists hfirst hstage hleaving
  | deletesLast hstage => exact h.deletesLast hstage
  | deletesOwn hstage => exact h.deletesOwn hstage
  | cleans hstage => simp only [Standing, hstage] at hstanding
  | readied hstage _ | findsReady hstage _ =>
    simp only [Standing, hstage] at hstanding
    exact h.enterReturns hstanding (h.enters_ne (by simp [hstage]))
  | ensures hstage | lacks hstage _ | fills hstage _ | missesReady hstage _ =>
    simp only [Standing, hstage] at hstanding
    refine h.goOn (by simp [hstage]) rfl (fun h' => h'.elim) ?_
    simp only [Standing, objects_setObject_self]
    exact hstanding
  | watches hstage =>
    simp only [Standing, hstage] at hstanding
    rw [setStage_register]
    refine h.goOn (by simp [hstage]) rfl (fun h' => h'.elim) ?_
    simp only [Standing, objects_setObject_self]
    exact hstanding
  | findsHighest hstage _ =>
    simp only [Standing, hstage] at hstanding
    rw [setStage_register]
    refine h.goOn (by simp [hstage]) rfl (fun _ => by simp [BarrierObject.Leaving, hstage]) ?_
    simp only [Standing, objects_setObject_self]
    exact hstanding
  | missesHighest hstage _ | highestGone hstage _ =>
    simp only [Standing, hstage] at hstanding
    refine h.goOn (by simp [hstage]) rfl (fun _ => by simp [BarrierObject.Leaving, hstage]) ?_
    simp only [Standing, objects_setObject_self]
    exact .inl hstanding.1
  | findsFirst hstage _ =>
    simp only [Standing, hstage] at hstanding
    obtain ⟨hgone, rfl⟩ := hstanding
    rw [setStage_register]
    refine h.goOn (by simp [hstage]) rfl (fun _ => by simp [BarrierObject.Leaving, hstage]) ?_
    simp only [Standing, objects_setObject_self]
    refine ⟨hgone, trivial, fun watched hwatched => (Option.some.inj hwatched).symm, ?_⟩
    rintro (hnews | hwoken)
    · cases hnews
    · cases hwoken
  | missesFirst hstage hout =>
    simp only [Standing, hstage] at hstanding
    obtain ⟨hgone, rfl⟩ := hstanding
    refine h.goOn (by simp [hstage]) rfl (fun _ => by simp [BarrierObject.Leaving, hstage]) ?_
    simp only [Standing, objects_setObject_self]
    exact .inr ⟨hgone, fun hin => hout (nodeName_mem_children.mpr hin)⟩
  | firstGone hstage hready =>
    simp only [Standing, hstage] at hstanding
    obtain ⟨hgone, -, -, hevent⟩ := hstanding
    refine h.goOn (by simp [hstage]) rfl (fun _ => by simp [BarrierObject.Leaving, hstage]) ?_
    simp only [Standing, objects_setObject_self]
    exact .inr ⟨hgone, hevent (.inr hready)⟩

theorem Exiting.deliver (h : Exiting B first s) {type : EventType}
    (hevent : (s.objects p).event = some type) :
    Exiting B first (s.setObject p { s.objects p with
      event := none, ready := (s.objects p).ready || type = awaited (s.objects p).stage }) := by
  have hstanding := h.standing p
  refine h.setObject (h.entered p) (h.created p) ?_
  cases hstage : (s.objects p).stage
  case failed | cleaning => simp only [Standing, hstage] at hstanding
  all_goals
    simp only [Standing, hstage] at hstanding
    simp only [Standing, objects_setObject_self, hstage]
  case awaitingFirst =>
    obtain ⟨hgone, hname, hwatch, hwoken⟩ := hstanding
    refine ⟨hgone, hname, hwatch, ?_⟩
    rintro (hnews | hready)
    · cases hnews
    · rcases Bool.or_eq_true_iff.mp hready with hready | htype
      · exact hwoken (.inr hready)
      · exact hwoken (.inl (hevent.trans (congrArg some (of_decide_eq_true htype))))
  all_goals exact hstanding

theorem Exiting.step (h : Exiting B first s) (hfirst : ∀ q, ¬ B.nodeName q < B.nodeName first)
    {act : BarrierAct π} (hstep : s.step B act = some t) (hok : s.OneRound act)
    (hleave : ∀ p, act = .leave p → ∀ q, s.Created q) : Exiting B first t := by
  cases act <;> simp only [Gathering.step] at hstep
  case enter p =>
    have hnew : (s.objects p).enters = 0 := hok
    obtain ⟨hstage, hout⟩ := h.entered p hnew
    have haway := h.standing p
    simp only [Standing, hstage, hout, hnew, Bool.false_eq_true, if_false, if_true] at haway
    rw [hstage] at hstep
    injection hstep with hstep
    subst hstep
    rw [start, setStage, objects_setObject_self, setObject_setObject]
    refine h.setObject (fun h0 => absurd h0 (by simp)) ?_ ?_
    · split <;> exact False.elim
    · split <;> (simp only [Standing, objects_setObject_self]; exact haway)
  case leave p =>
    have hin : (s.objects p).participating = true := hok
    split at hstep
    case h_1 hstage =>
      injection hstep with hstep
      subst hstep
      have hhere := h.standing p
      simp only [Standing, hstage, hin, if_true] at hhere
      refine h.setObject (fun h0 => ?_) (fun _ => hleave p rfl) ?_
      · rw [(h.entered p h0).2] at hin
        cases hin
      · simp only [Standing, objects_setObject_self]
        exact hhere
    · cases hstep
  case go p => exact h.go hfirst hstep
  case deliver p =>
    split at hstep
    · cases hstep
    case h_2 type hevent =>
      injection hstep with hstep
      subst hstep
      exact h.deliver hevent
  case drop => exact hok.elim
  case expire => exact hok.elim
  case again p | giveUp p =>
    split at hstep
    case h_1 hstage =>
      have hstanding := h.standing p
      simp only [Standing, hstage] at hstanding
    · cases hstep

/-- In the runs of one round in which nobody leaves before everyone has created its node. -/
theorem exiting_of_reach (hfirst : ∀ q, ¬ B.nodeName q < B.nodeName first)
    {ok : Gathering π → BarrierAct π → Prop} (hok : ∀ s act, ok s act → s.OneRound act)
    (hleave : ∀ s p, (gathering B).Reach ok s → Exiting B first s → ok s (.leave p) →
      ∀ q, s.Created q)
    (hr : (gathering B).Reach ok s) : Exiting B first s := by
  refine hr.invariant exiting_new fun s act hr h hen hact => ?_
  obtain ⟨t, hstep⟩ := Option.isSome_iff_exists.mp hen
  show Exiting B first ((s.step B act).getD s)
  rw [hstep]
  refine h.step hfirst hstep (hok s act hact) fun p heq => ?_
  subst heq
  exact hleave s p hr h hact

omit [DecidableEq π] in
theorem Exiting.created_of_entered (h : Exiting B first s) (hentered : (s.objects p).Entered) :
    s.Created p := by
  rcases hentered with ⟨hstage, henters⟩ | hleaving
  · have hstanding := h.standing p
    simp only [Standing, hstage, if_neg (Nat.ne_of_gt henters)] at hstanding
    split at hstanding
    · exact .inl hstanding.1
    · exact .inr (by rw [hstanding.1.2]; exact Nat.one_pos)
  · exact h.created p hleaving p

omit [DecidableEq π] in
theorem exists_first [Fintype π] (B : DoubleBarriers π) (p : π) :
    ∃ first, ∀ q, ¬ B.nodeName q < B.nodeName first := by
  cases h : sortedNames (Finset.univ.toList.map B.nodeName) with
  | nil =>
    have hp : B.nodeName p ∈ Finset.univ.toList.map B.nodeName :=
      List.mem_map_of_mem (Finset.mem_toList.mpr (Finset.mem_univ p))
    rw [sortedNames_eq_nil_iff.mp h] at hp
    cases hp
  | cons name rest =>
    obtain ⟨hname, hleast⟩ := head_sortedNames h
    obtain ⟨first, -, rfl⟩ := List.mem_map.mp hname
    exact ⟨first, fun q =>
      hleast _ (List.mem_map_of_mem (Finset.mem_toList.mpr (Finset.mem_univ q)))⟩

theorem exiting_of_enteredFirst (hfirst : ∀ q, ¬ B.nodeName q < B.nodeName first)
    (hr : (gathering B).Reach EnteredFirst s) : Exiting B first s :=
  exiting_of_reach hfirst (fun _ _ hact => hact.1)
    (fun _ p _ h hact q => h.created_of_entered (hact.2 p rfl q)) hr

/-- When anyone has left, everyone has deleted its node, once; and no `leave` fails. -/
theorem leave_empties [Fintype π] (hr : (gathering B).Reach EnteredFirst s) (p : π) :
    (∀ e, (s.objects p).stage ≠ .failed .leave e) ∧
      ((s.objects p).Left → s.present = [] ∧ ∀ q, s.deletions q = 1) := by
  obtain ⟨first, hfirst⟩ := exists_first B p
  have h := exiting_of_enteredFirst hfirst hr
  constructor
  · intro e hstage
    have hstanding := h.standing p
    simp only [Standing, hstage] at hstanding
  · intro hleft
    have hempty : s.present = [] := by
      have hstanding := h.standing p
      simp only [Standing, hleft.1, hleft.2.1, Bool.false_eq_true, if_false,
        if_neg (Nat.ne_of_gt hleft.2.2)] at hstanding
      exact hstanding.2
    refine ⟨hempty, fun q => ?_⟩
    have hout : q ∉ s.present := by
      rw [hempty]
      exact List.not_mem_nil
    have hdeleted := (h.created p hleft.leaving q).resolve_left hout
    exact ((h.standing q).leaving hdeleted).2.2

end Gathering

instance neZeroPair : NeZero 2 := ⟨by decide⟩

/-- Two participants, the first with the least name. -/
def pair : DoubleBarriers (Fin 2) where
  numClients := 2
  nodeName := fun p => List.replicate 31 (CodePoint.ofChar '0') ++
    [CodePoint.ofChar (if p = 0 then '0' else '1')]
  nodeName_length := by decide
  nodeName_hex := fun p c h => by
    rcases List.mem_append.mp h with h | h
    · rw [List.eq_of_mem_replicate h]
      decide
    · rw [List.mem_singleton.mp h]
      split <;> decide
  nodeName_injective := by decide

/-- The second to come makes the ready node, and the first to leave waits for it. -/
def pairRound : List (BarrierAct (Fin 2)) :=
  [.enter 0, .go 0, .go 0, .go 0, .go 0,
    .enter 1, .go 1, .go 1, .go 1, .go 1, .go 1, .go 1, .deliver 0, .go 0,
    .leave 0, .go 0, .go 0, .go 0, .leave 1, .go 1, .go 1, .go 1, .go 1,
    .deliver 0, .go 0, .go 0, .go 0, .deliver 1, .go 1, .go 1]

theorem Gathering.leave_empties_pair :
    let s := (gathering pair).exec .new pairRound
    (s.objects 1).Left ∧ s.present = [] ∧ ∀ q, s.deletions q = 1 := by
  intro s
  have hleft : (s.objects 1).Left := by decide +kernel
  exact ⟨hleft, (Gathering.leave_empties (.of_legal (by decide +kernel)) 1).2 hleft⟩

end Kazoo
