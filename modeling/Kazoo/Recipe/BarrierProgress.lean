import Kazoo.Recipe.BarrierExit
import Mathlib.Data.Fintype.Card

/-!
# Progress at a double barrier

One round without failures of as many participants as the barrier is for.  Who counts too few
children waits for the ready node to be created, although it may have been created and deleted
before.
-/

namespace Kazoo

namespace BarrierObject

/-- The wait of the thread is over, or an event is under way that ends it. -/
def Woken (o : BarrierObject) : Prop :=
  o.ready = true ∨ o.event = some (Gathering.awaited o.stage)

/-- The thread creates the ready node, unless it finds it. -/
def Making (o : BarrierObject) : Prop := o.stage = .askingReady ∨ o.stage = .makingReady

/-- The thread has created its node, and does not wait. -/
def Counting (o : BarrierObject) : Prop := o.stage = .watching ∨ o.stage = .counting ∨ o.Making

/-- The participant is going to delete the ready node. -/
def Clearing (o : BarrierObject) : Prop :=
  o.stage = .outside ∧ o.participating = true ∨ o.stage = .unreadying

instance (o : BarrierObject) : Decidable o.Woken := inferInstanceAs (Decidable (_ ∨ _))

instance (o : BarrierObject) : Decidable o.Making := inferInstanceAs (Decidable (_ ∨ _))

variable {o : BarrierObject} {before after : List PyStr}

@[simp] theorem making_told : (o.told before after).Making ↔ o.Making := by
  simp only [Making, told_stage]

@[simp] theorem counting_told : (o.told before after).Counting ↔ o.Counting := by
  simp only [Counting, told_stage, making_told]

@[simp] theorem clearing_told : (o.told before after).Clearing ↔ o.Clearing := by
  simp only [Clearing, told_stage, told_participating]

/-- A participant with an event under way is not told anything. -/
theorem woken_told (hsingle : o.event ≠ none → o.watch = none) (h : o.Woken) :
    (o.told before after).Woken := by
  rcases h with hready | hevent
  · exact .inl (by rw [told_ready, hready])
  · have hwatch := hsingle (by rw [hevent]; exact Option.some_ne_none _)
    rw [told_of_watch_none hwatch]
    exact .inr hevent

/-- What is told to a participant that is not woken by it. -/
theorem told_of_not_woken {name : PyStr} {type : EventType} (hwatch : o.watch = some name)
    (htype : Gathering.awaited o.stage = type)
    (hchange : ¬ (name ∈ before ↔ name ∈ after) → type = if name ∈ after then .CREATED else .DELETED)
    (h : ¬ (o.told before after).Woken) :
    o.told before after = o ∧ (name ∈ before ↔ name ∈ after) := by
  by_cases hsame : name ∈ before ↔ name ∈ after
  · exact ⟨by rw [told_of_watch hwatch, if_pos hsame], hsame⟩
  · refine absurd (.inr ?_) h
    rw [told_stage, htype, hchange hsame, told_of_watch hwatch, if_neg hsame]

end BarrierObject

namespace Gathering

variable {π : Type} [DecidableEq π] {B : DoubleBarriers π} {s t : Gathering π} {p q first : π}

/-- Who counts too few children after everyone has created its node has been woken, or will be: the
ready node is not there, and someone is about to create it. -/
def Unforgotten (B : DoubleBarriers π) (s : Gathering π) (act : BarrierAct π) : Prop :=
  s.OneRound act ∧ ∀ p, act = .go p → (s.objects p).stage = .counting →
    (s.children B).length < B.numClients → (∀ q, s.Created q) →
      (s.objects p).Woken ∨
        (s.objects p).watch = some readyName ∧ s.ready = false ∧ ∃ q, (s.objects q).Making

instance [Fintype π] (s : Gathering π) (act : BarrierAct π) : Decidable (s.Unforgotten B act) :=
  have (q : π) : Decidable (s.Created q) := inferInstanceAs (Decidable (_ ∨ _))
  inferInstanceAs (Decidable (_ ∧ _))

/-! ## Nobody waits in vain -/

/-- The thread is woken when the node changes. -/
def Armed (B : DoubleBarriers π) (s : Gathering π) (p : π) (name : PyStr) : Prop :=
  ¬ (s.objects p).Woken → (s.objects p).watch = some name ∧ name ∈ s.children B

/-- What the stage of a participant says of its wait. -/
def Waiting (B : DoubleBarriers π) (s : Gathering π) (p : π) : Prop :=
  match (s.objects p).stage with
  | .outside => s.entries = [] → (s.objects p).enters = 0
  | .counting => s.entries = [] → (s.objects p).watch = some readyName
  | .awaitingReady =>
    ¬ (s.objects p).Woken →
      (s.objects p).watch = some readyName ∧ s.ready = false ∧
        (s.entries = [] ∨ ∃ q, (s.objects q).Making)
  | .askingReady | .makingReady => ∀ q, s.Created q
  | .unreadying | .listing | .deletingLast | .deletingOwn _ | .checkingFirst _ => s.entries ≠ []
  | .checkingHighest name => s.entries ≠ [] ∧ name ≠ B.nodeName p
  | .awaitingHighest name => s.entries ≠ [] ∧ name ≠ B.nodeName p ∧ s.Armed B p name
  | .awaitingFirst name => s.entries ≠ [] ∧ s.Armed B p name
  | .ensuring | .creating | .watching | .failed _ _ | .cleaning => True

structure Moving (B : DoubleBarriers π) (s : Gathering π) : Prop where
  waiting : ∀ p, s.Waiting B p
  nodup : s.present.Nodup
  single : ∀ p, (s.objects p).event ≠ none → (s.objects p).watch = none
  -- before the ready node is created for the first time
  unmade : s.entries = [] → s.ready = false
  quiet : s.entries = [] → ∀ p, (s.objects p).event = none ∧ (s.objects p).ready = false ∧
    ∀ name, (s.objects p).watch = some name → name = readyName
  counting : s.entries = [] → (∀ q, s.Created q) → ∃ q, (s.objects q).Counting
  -- and after
  created : s.entries ≠ [] → ∀ q, s.Created q
  clearing : s.ready = true → ∃ q, (s.objects q).Clearing

/-- What a step of `p` keeps for the others. -/
structure Advances (B : DoubleBarriers π) (s t : Gathering π) (p : π) : Prop where
  beside : Beside B s t p
  created : s.Created p → t.Created p
  entries : s.entries ≠ [] → t.entries ≠ []
  unmade : s.entries = [] → t.ready = false → t.entries = []
  still : t.entries = [] → t.ready = false
  making : (s.objects p).Making → t.ready = false → (t.objects p).Making

omit [DecidableEq π] in
theorem Beside.created (hb : Beside B s t p) (hcreated : s.Created p → t.Created p)
    (h : s.Created q) : t.Created q := by
  by_cases heq : q = p
  · subst heq
    exact hcreated h
  · unfold Created
    rw [hb.present q heq, hb.deletions q heq]
    exact h

omit [DecidableEq π] in
theorem Advances.entries_eq_nil (hadv : Advances B s t p) (hnil : t.entries = []) :
    s.entries = [] := by
  by_contra hne
  exact hadv.entries hne hnil

omit [DecidableEq π] in
/-- Before the ready node is created, no watch fires. -/
theorem Advances.objects_eq (hadv : Advances B s t p) (h : Moving B s) (hq : q ≠ p)
    (hnil : t.entries = []) : t.objects q = s.objects q := by
  have hold := hadv.entries_eq_nil hnil
  rw [hadv.beside.objects q hq]
  cases hwatch : (s.objects q).watch with
  | none => exact BarrierObject.told_of_watch_none hwatch
  | some name =>
    have hname := (h.quiet hold q).2.2 name hwatch
    subst hname
    have hsame : readyName ∈ s.children B ↔ readyName ∈ t.children B := by
      rw [readyName_mem_children, readyName_mem_children, h.unmade hold, hadv.still hnil]
    rw [BarrierObject.told_of_watch hwatch, if_pos hsame]

omit [DecidableEq π] in
theorem Advances.armed (hadv : Advances B s t p) (h : Moving B s) (hq : q ≠ p) {name : PyStr}
    (htype : awaited (s.objects q).stage = .DELETED) (harmed : s.Armed B q name) :
    t.Armed B q name := by
  intro hwoken
  rw [hadv.beside.objects q hq] at hwoken ⊢
  obtain ⟨hwatch, hin⟩ := harmed fun hold => hwoken (BarrierObject.woken_told (h.single q) hold)
  obtain ⟨htold, hsame⟩ := BarrierObject.told_of_not_woken hwatch htype
    (fun hchange => by rw [if_neg fun hafter => hchange ⟨fun _ => hafter, fun _ => hin⟩]) hwoken
  rw [htold]
  exact ⟨hwatch, hsame.mp hin⟩

omit [DecidableEq π] in
theorem Advances.making_some (hadv : Advances B s t p) (hready : t.ready = false)
    (h : ∃ q, (s.objects q).Making) : ∃ q, (t.objects q).Making := by
  obtain ⟨q, hq⟩ := h
  by_cases heq : q = p
  · subst heq
    exact ⟨q, hadv.making hq hready⟩
  · refine ⟨q, ?_⟩
    rw [hadv.beside.objects q heq, BarrierObject.making_told]
    exact hq

omit [DecidableEq π] in
theorem Advances.waiting (hadv : Advances B s t p) (h : Moving B s) (hq : q ≠ p) :
    t.Waiting B q := by
  have hobject := hadv.beside.objects q hq
  have hwaiting := h.waiting q
  have hstage' : (t.objects q).stage = (s.objects q).stage := by
    rw [hobject, BarrierObject.told_stage]
  cases hstage : (s.objects q).stage <;>
    simp only [Waiting, hstage', hstage] at hwaiting ⊢
  case outside =>
    intro hnil
    rw [hadv.objects_eq h hq hnil]
    exact hwaiting (hadv.entries_eq_nil hnil)
  case counting =>
    intro hnil
    rw [hadv.objects_eq h hq hnil]
    exact hwaiting (hadv.entries_eq_nil hnil)
  case awaitingReady =>
    intro hwoken
    rw [hobject] at hwoken ⊢
    obtain ⟨hwatch, hready, hmade⟩ :=
      hwaiting fun hold => hwoken (BarrierObject.woken_told (h.single q) hold)
    have hout : readyName ∉ s.children B := fun hin =>
      absurd (readyName_mem_children.mp hin) (by rw [hready]; exact Bool.false_ne_true)
    have htype : awaited (s.objects q).stage = .CREATED := by
      rw [hstage]
      rfl
    obtain ⟨htold, hsame⟩ := BarrierObject.told_of_not_woken hwatch htype
      (fun hchange => by
        rw [if_pos (not_not.mp fun hafter =>
          hchange ⟨fun hin => absurd hin hout, fun hin => absurd hin hafter⟩)]) hwoken
    have hready' : t.ready = false := by
      rw [← Bool.not_eq_true]
      exact fun hmade => hout (hsame.mpr (readyName_mem_children.mpr hmade))
    rw [htold]
    exact ⟨hwatch, hready', hmade.imp (hadv.unmade · hready') (hadv.making_some hready')⟩
  case askingReady | makingReady => exact fun r => hadv.beside.created hadv.created (hwaiting r)
  case unreadying | listing | deletingLast | deletingOwn | checkingFirst =>
    exact hadv.entries hwaiting
  case checkingHighest => exact hwaiting.imp_left hadv.entries
  case awaitingHighest name =>
    exact ⟨hadv.entries hwaiting.1, hwaiting.2.1, hadv.armed h hq (by rw [hstage]; rfl) hwaiting.2.2⟩
  case awaitingFirst name =>
    exact ⟨hadv.entries hwaiting.1, hadv.armed h hq (by rw [hstage]; rfl) hwaiting.2⟩

/-- What is left to show about a step of `p`. -/
theorem Moving.of_step (h : Moving B s) (hadv : Advances B s t p) (hwaiting : t.Waiting B p)
    (hnodup : t.present.Nodup)
    (hsingle : (t.objects p).event ≠ none → (t.objects p).watch = none)
    (hquiet : t.entries = [] → (t.objects p).event = none ∧ (t.objects p).ready = false ∧
      ∀ name, (t.objects p).watch = some name → name = readyName)
    (hcounting : t.entries = [] → (∀ q, t.Created q) →
      (t.objects p).Counting ∨ (∀ q, s.Created q) ∧ ¬ (s.objects p).Counting)
    (hcreated : t.entries ≠ [] → s.entries ≠ [] ∨ ∀ q, s.Created q)
    (hclearing : t.ready = true →
      (t.objects p).Clearing ∨ s.ready = true ∧ ¬ (s.objects p).Clearing) : Moving B t := by
  refine ⟨fun q => ?_, hnodup, fun q hevent => ?_, hadv.still, fun hnil q => ?_, fun hnil hall => ?_,
    fun hne q => ?_, fun hready => ?_⟩
  · by_cases heq : q = p
    · subst heq
      exact hwaiting
    · exact hadv.waiting h heq
  · by_cases heq : q = p
    · subst heq
      exact hsingle hevent
    · cases hwatch : (t.objects q).watch with
      | none => rfl
      | some name =>
        rw [hadv.beside.objects q heq] at hevent hwatch
        obtain ⟨hold, htold, -⟩ := BarrierObject.watch_of_told hwatch
        rw [htold] at hevent
        rw [h.single q hevent] at hold
        cases hold
  · by_cases heq : q = p
    · subst heq
      exact hquiet hnil
    · rw [hadv.objects_eq h heq hnil]
      exact h.quiet (hadv.entries_eq_nil hnil) q
  · rcases hcounting hnil hall with hp | ⟨hold, hp⟩
    · exact ⟨p, hp⟩
    · obtain ⟨q, hq⟩ := h.counting (hadv.entries_eq_nil hnil) hold
      have hne : q ≠ p := fun heq => hp (heq ▸ hq)
      refine ⟨q, ?_⟩
      rw [hadv.beside.objects q hne, BarrierObject.counting_told]
      exact hq
  · rcases hcreated hne with hold | hall
    · exact hadv.beside.created hadv.created (h.created hold q)
    · exact hadv.beside.created hadv.created (hall q)
  · rcases hclearing hready with hp | ⟨hold, hp⟩
    · exact ⟨p, hp⟩
    · obtain ⟨q, hq⟩ := h.clearing hold
      have hne : q ≠ p := fun heq => hp (heq ▸ hq)
      refine ⟨q, ?_⟩
      rw [hadv.beside.objects q hne, BarrierObject.clearing_told]
      exact hq

/-- The thread changes nothing but its own object. -/
theorem Moving.setObject (h : Moving B s) {o : BarrierObject}
    (hwaiting : (s.setObject p o).Waiting B p) (hsingle : o.event ≠ none → o.watch = none)
    (hquiet : s.entries = [] → o.event = none ∧ o.ready = false ∧
      ∀ name, o.watch = some name → name = readyName)
    (hmaking : (s.objects p).Making → o.Making)
    (hcounting : s.entries = [] → (∀ q, s.Created q) → (s.objects p).Counting → o.Counting)
    (hclearing : (s.objects p).Clearing → o.Clearing) : Moving B (s.setObject p o) := by
  have hobject : (s.setObject p o).objects p = o := objects_setObject_self
  refine h.of_step ⟨Beside.refl.own own_setObject, id, id, fun h' _ => h', h.unmade, ?_⟩ hwaiting
    h.nodup ?_ ?_ ?_ .inl ?_ <;> rw [hobject]
  · exact fun h' _ => hmaking h'
  · exact hsingle
  · exact hquiet
  · intro hnil hall
    exact or_iff_not_imp_right.mpr fun hno =>
      hcounting hnil hall (not_not.mp fun h' => hno ⟨hall, h'⟩)
  · intro hready
    exact or_iff_not_imp_right.mpr fun hno => hclearing (not_not.mp fun h' => hno ⟨hready, h'⟩)

/-- Only the stage changes, and the thread neither made the ready node nor was about to delete it. -/
theorem Moving.setStage (h : Moving B s) {stage : BarrierStage}
    (hwaiting : (s.setStage p stage).Waiting B p) (hmaking : ¬ (s.objects p).Making)
    (hcounting : s.entries = [] → (∀ q, s.Created q) → ¬ (s.objects p).Counting)
    (hclearing : ¬ (s.objects p).Clearing) : Moving B (s.setStage p stage) :=
  h.setObject hwaiting (h.single p) (h.quiet · p) (fun h' => absurd h' hmaking)
    (fun hnil hall h' => absurd h' (hcounting hnil hall)) (fun h' => absurd h' hclearing)

theorem Moving.enterReturns (h : Moving B s) (hentries : s.entries ≠ [])
    (hmaking : (s.objects p).Making → s.ready = true) : Moving B (s.enterReturns p) := by
  have hobject : (s.enterReturns p).objects p =
      { s.objects p with stage := .outside, participating := true } := objects_setObject_self
  refine h.of_step ⟨Beside.refl.own own_enterReturns, id, fun _ => List.cons_ne_nil _ _,
    fun hnil _ => absurd hnil hentries, fun hnil => absurd hnil (List.cons_ne_nil _ _), ?_⟩ ?_ h.nodup
    ?_ ?_ ?_ (fun _ => .inl hentries) ?_
  · exact fun h' hready => absurd ((hmaking h').symm.trans hready) (by decide)
  · simp only [Waiting, hobject]
    exact fun hnil => absurd hnil (List.cons_ne_nil _ _)
  · rw [hobject]
    exact h.single p
  · exact fun hnil => absurd hnil (List.cons_ne_nil _ _)
  · exact fun hnil => absurd hnil (List.cons_ne_nil _ _)
  · rw [hobject]
    exact fun _ => .inl (.inl ⟨rfl, rfl⟩)

/-! ## Counting the children -/

omit [DecidableEq π] in
theorem Moving.not_leaving (h : Moving B s) (hnil : s.entries = []) : ¬ (s.objects q).Leaving := by
  have hwaiting := h.waiting q
  intro hleaving
  cases hstage : (s.objects q).stage <;>
    simp only [Waiting, BarrierObject.Leaving, hstage, hnil, ne_eq, not_true_eq_false, false_and,
      forall_const] at hwaiting hleaving
  case outside => omega

omit [DecidableEq π] in
/-- Before anyone has entered, nobody has deleted its node. -/
theorem Moving.present (h : Moving B s) (hx : Exiting B first s) (hnil : s.entries = [])
    (hall : ∀ q, s.Created q) (q : π) : q ∈ s.present := by
  rcases hall q with hin | hdeleted
  · exact hin
  · exact absurd ((hx.standing q).leaving hdeleted).1 (h.not_leaving hnil)

theorem card_le_length_present [Fintype π] (hall : ∀ q, q ∈ s.present) :
    Fintype.card π ≤ s.present.length :=
  calc Fintype.card π
      ≤ s.present.toFinset.card := Finset.card_le_card fun q _ => List.mem_toFinset.mpr (hall q)
    _ ≤ s.present.length := List.toFinset_card_le _

theorem mem_present_of_card_le [Fintype π] (hnodup : s.present.Nodup)
    (hcard : Fintype.card π ≤ s.present.length) (q : π) : q ∈ s.present := by
  rw [← List.toFinset_card_of_nodup hnodup] at hcard
  have huniv := Finset.eq_univ_of_card _ (Nat.le_antisymm (Finset.card_le_univ _) hcard)
  rw [← List.mem_toFinset, huniv]
  exact Finset.mem_univ q

/-- Who counts as many children as there are participants comes after all of them. -/
theorem Moving.created_of_count [Fintype π] (h : Moving B s)
    (hcard : Fintype.card π = B.numClients) (hcount : B.numClients ≤ (s.children B).length) (q : π) :
    s.Created q := by
  by_cases hready : s.ready = true
  · exact h.created (fun hnil => absurd (h.unmade hnil) (by rw [hready]; decide)) q
  · rw [length_children, if_neg hready, Nat.add_zero, ← hcard] at hcount
    exact .inl (mem_present_of_card_le h.nodup hcount q)

/-! ## The requests -/

/-- The event of a participant that is told of a change. -/
theorem single_told {o : BarrierObject} {before after : List PyStr}
    (h : o.event ≠ none → o.watch = none) :
    (o.told before after).event ≠ none → (o.told before after).watch = none := by
  intro hevent
  cases hwatch : (o.told before after).watch with
  | none => rfl
  | some name =>
    obtain ⟨hold, htold, -⟩ := BarrierObject.watch_of_told hwatch
    rw [htold] at hevent
    rw [h hevent] at hold
    cases hold

theorem Moving.creates (h : Moving B s) (hx : Exiting B first s)
    (hstage : (s.objects p).stage = .creating) :
    Moving B ({ s.createNode B p with
      peak := Function.update (s.createNode B p).peak p (s.createNode B p).present.length }.setStage p
        .watching) := by
  have hb := (Goes.creates (B := B) hstage).beside
  have haway : s.Away p := by
    have hstanding := hx.standing p
    simpa only [Standing, hstage] using hstanding
  have hnil : s.entries = [] := by
    by_contra hne
    exact haway.not_created (h.created hne p)
  generalize hu : s.createNode B p = u at hb ⊢
  have hready : u.ready = s.ready := hu ▸ ready_createNode
  have hentries : u.entries = s.entries := by
    rw [← hu, createNode]
    split <;> rfl
  have htold : u.objects p = (s.objects p).told (s.children B) (u.children B) :=
    hu ▸ objects_createNode p
  have hquiet := h.quiet hnil p
  have hsame : u.objects p = s.objects p := by
    rw [htold]
    cases hwatch : (s.objects p).watch with
    | none => exact BarrierObject.told_of_watch_none hwatch
    | some name =>
      have hname := hquiet.2.2 name hwatch
      subst hname
      rw [BarrierObject.told_of_watch hwatch, if_pos]
      rw [readyName_mem_children, readyName_mem_children, hready]
  have hmaking : ¬ (s.objects p).Making := by simp [BarrierObject.Making, hstage]
  have hclearing : ¬ (s.objects p).Clearing := by simp [BarrierObject.Clearing, hstage]
  refine h.of_step ⟨hb, fun _ => .inl ?_, fun hne => absurd hnil hne, fun _ _ => hentries.trans hnil,
    fun _ => hready.trans (h.unmade hnil), fun h' => absurd h' hmaking⟩ ?_ ?_ ?_ ?_ ?_ ?_ ?_
  · exact hu ▸ mem_present_createNode.mpr (.inl rfl)
  · simp only [Waiting, Gathering.setStage, objects_setObject_self]
  · show u.present.Nodup
    rw [← hu, createNode, if_neg haway.1]
    exact List.nodup_cons.mpr ⟨haway.1, h.nodup⟩
  · simp only [Gathering.setStage, objects_setObject_self, hsame]
    exact h.single p
  · simp only [Gathering.setStage, objects_setObject_self, hsame]
    exact fun _ => hquiet
  · simp only [Gathering.setStage, objects_setObject_self]
    exact fun _ _ => .inl (.inl rfl)
  · exact fun hne => absurd (hentries.trans hnil) hne
  · exact fun hmade => .inr ⟨hready ▸ hmade, hclearing⟩

/-- Once the ready node has been created, what the thread does at the server is of no matter to
those who wait, but for the ready node. -/
theorem Moving.after (h : Moving B s) (hb : Beside B s t p) (hcreated : s.Created p → t.Created p)
    (hentries : t.entries ≠ [])
    (hold : s.entries ≠ [] ∨ t.ready = true ∧ ∀ q, s.Created q)
    (hmaking : (s.objects p).Making → t.ready = false → (t.objects p).Making)
    (hwaiting : t.Waiting B p) (hnodup : t.present.Nodup)
    (hsingle : (t.objects p).event ≠ none → (t.objects p).watch = none)
    (hclearing : t.ready = true →
      (t.objects p).Clearing ∨ s.ready = true ∧ ¬ (s.objects p).Clearing) : Moving B t := by
  refine h.of_step ⟨hb, hcreated, fun _ => hentries, fun hnil hready => ?_,
    fun hnil => absurd hnil hentries, hmaking⟩ hwaiting hnodup hsingle
    (fun hnil => absurd hnil hentries) (fun hnil => absurd hnil hentries)
    (fun _ => hold.imp_right And.right) hclearing
  rcases hold with hne | ⟨hmade, -⟩
  · exact absurd hnil hne
  · rw [hready] at hmade
    cases hmade

theorem Moving.makesReady (h : Moving B s) (hstage : (s.objects p).stage = .makingReady) :
    Moving B (s.createReady.enterReturns p) := by
  have hall := h.waiting p
  simp only [Waiting, hstage] at hall
  have hpresent : (s.createReady.enterReturns p).present = s.present := present_createReady
  have hready : (s.createReady.enterReturns p).ready = true := ready_createReady
  have hdeletions : (s.createReady.enterReturns p).deletions = s.deletions :=
    deletions_createReady
  have hobject : (s.createReady.enterReturns p).objects p =
      { s.createReady.objects p with stage := .outside, participating := true } :=
    objects_setObject_self
  refine h.after (Goes.makesReady hstage).beside ?_ (List.cons_ne_nil _ _) (.inr ⟨hready, hall⟩)
    ?_ ?_ ?_ ?_ ?_
  · unfold Created
    rw [hpresent, hdeletions]
    exact id
  · exact fun _ hnone => absurd (hready.symm.trans hnone) (by decide)
  · simp only [Waiting, hobject]
    exact fun hnil => absurd hnil (List.cons_ne_nil _ _)
  · exact hpresent ▸ h.nodup
  · rw [hobject, objects_createReady (B := B) p]
    exact single_told (h.single p)
  · rw [hobject]
    exact fun _ => .inl (.inl ⟨rfl, rfl⟩)

theorem Moving.clearsReady (h : Moving B s) (hstage : (s.objects p).stage = .unreadying) :
    Moving B (s.deleteReady.setStage p .listing) := by
  have hentries := h.waiting p
  simp only [Waiting, hstage] at hentries
  have hpresent : (s.deleteReady.setStage p .listing).present = s.present := present_deleteReady
  have hready : (s.deleteReady.setStage p .listing).ready = false := ready_deleteReady
  have hdeletions : (s.deleteReady.setStage p .listing).deletions = s.deletions :=
    deletions_deleteReady
  have hentries' : (s.deleteReady.setStage p .listing).entries ≠ [] := by
    show s.deleteReady.entries ≠ []
    unfold deleteReady
    split <;> exact hentries
  have hobject : (s.deleteReady.setStage p .listing).objects p =
      { s.deleteReady.objects p with stage := .listing } := objects_setObject_self
  refine h.after (Goes.clearsReady hstage).beside ?_ hentries' (.inl hentries) ?_ ?_ ?_ ?_ ?_
  · unfold Created
    rw [hpresent, hdeletions]
    exact id
  · exact fun h' => absurd h' (by simp [BarrierObject.Making, hstage])
  · simp only [Waiting, hobject]
    exact hentries'
  · exact hpresent ▸ h.nodup
  · rw [hobject, objects_deleteReady (B := B) p]
    exact single_told (h.single p)
  · exact fun hmade => absurd (hready.symm.trans hmade) (by decide)

/-- The thread deletes its node, and goes on with `o`. -/
theorem Moving.deletes (h : Moving B s) (hentries : s.entries ≠ []) {o : BarrierObject}
    (hmaking : ¬ (s.objects p).Making) (hclearing : ¬ (s.objects p).Clearing)
    (hwatch : o.watch = ((s.deleteNode B p).objects p).watch)
    (hevent : o.event = ((s.deleteNode B p).objects p).event) :
    let t := { s.deleteNode B p with
      deletions := Function.update s.deletions p (s.deletions p + 1) }
    ((t.setObject p o).entries ≠ [] → (t.setObject p o).Waiting B p) → Moving B (t.setObject p o) := by
  intro t hwaiting
  have hdeletions : (t.setObject p o).deletions p = s.deletions p + 1 := Function.update_self _ _ _
  have hready : (t.setObject p o).ready = s.ready := ready_deleteNode
  have hentries' : (t.setObject p o).entries ≠ [] := by
    show (s.deleteNode B p).entries ≠ []
    unfold deleteNode
    split <;> exact hentries
  refine h.after (beside_deleteNode.own (own_deletions.trans own_setObject)) ?_ hentries'
    (.inl hentries) (fun h' => absurd h' hmaking) (hwaiting hentries') ?_ ?_ ?_
  · exact fun _ => .inr (by omega)
  · show (s.deleteNode B p).present.Nodup
    unfold deleteNode
    split
    · exact h.nodup.filter _
    · exact h.nodup
  · rw [objects_setObject_self, hwatch, hevent, objects_deleteNode]
    exact single_told (h.single p)
  · exact fun hmade => .inr ⟨hready ▸ hmade, hclearing⟩

/-- Who counts too few children waits. -/
theorem Moving.lacks [Fintype π] (h : Moving B s) (hx : Exiting B first s)
    (hcard : Fintype.card π = B.numClients) (hstage : (s.objects p).stage = .counting)
    (hfew : (s.children B).length < B.numClients)
    (hcount : (∀ q, s.Created q) → (s.objects p).Woken ∨
      (s.objects p).watch = some readyName ∧ s.ready = false ∧ ∃ q, (s.objects q).Making) :
    Moving B (s.setStage p .awaitingReady) := by
  have hwaiting := h.waiting p
  have hmaking : ¬ (s.objects p).Making := by simp [BarrierObject.Making, hstage]
  simp only [Waiting, hstage] at hwaiting
  refine h.setStage ?_ hmaking (fun hnil hall => ?_) (by simp [BarrierObject.Clearing, hstage])
  · simp only [Waiting, Gathering.setStage, objects_setObject_self]
    intro hwoken
    have hwoken' : ¬ (s.objects p).Woken := fun hold => hwoken (by
      simpa only [BarrierObject.Woken, hstage, awaited] using hold)
    by_cases hnil : s.entries = []
    · exact ⟨hwaiting hnil, h.unmade hnil, .inl hnil⟩
    · obtain ⟨hwatch, hready, q, hq⟩ := (hcount (h.created hnil)).resolve_left hwoken'
      refine ⟨hwatch, hready, .inr ⟨q, ?_⟩⟩
      have hne : q ≠ p := fun heq => hmaking (heq ▸ hq)
      rw [objects_setObject_of_ne hne]
      exact hq
  · have hlength := card_le_length_present (h.present hx hnil hall)
    rw [length_children] at hfew
    omega

theorem Moving.fills [Fintype π] (h : Moving B s) (hcard : Fintype.card π = B.numClients)
    (hstage : (s.objects p).stage = .counting) (hmany : B.numClients ≤ (s.children B).length) :
    Moving B (s.setStage p .askingReady) := by
  refine h.setObject ?_ (h.single p) (h.quiet · p)
    (fun h' => absurd h' (by simp [BarrierObject.Making, hstage]))
    (fun _ _ _ => .inr (.inr (.inl rfl)))
    (fun h' => absurd h' (by simp [BarrierObject.Clearing, hstage]))
  simp only [Waiting, objects_setObject_self]
  exact h.created_of_count hcard hmany

theorem Moving.missesReady (h : Moving B s) (hstage : (s.objects p).stage = .askingReady) :
    Moving B (s.setStage p .makingReady) := by
  have hall := h.waiting p
  simp only [Waiting, hstage] at hall
  refine h.setObject ?_ (h.single p) (h.quiet · p) (fun _ => .inr rfl)
    (fun _ _ _ => .inr (.inr (.inr rfl)))
    (fun h' => absurd h' (by simp [BarrierObject.Clearing, hstage]))
  simp only [Waiting, objects_setObject_self]
  exact hall

theorem Moving.finished (h : Moving B s) (hstage : (s.objects p).stage = .listing) :
    Moving B (s.returns p) := by
  have hentries := h.waiting p
  simp only [Waiting, hstage] at hentries
  refine h.setObject ?_ (h.single p) (h.quiet · p)
    (fun h' => absurd h' (by simp [BarrierObject.Making, hstage]))
    (fun hnil => absurd hnil hentries)
    (fun h' => absurd h' (by simp [BarrierObject.Clearing, hstage]))
  simp only [Waiting, objects_setObject_self]
  exact fun hnil => absurd hnil hentries

theorem Moving.lists (h : Moving B s) (hstage : (s.objects p).stage = .listing)
    {stage : BarrierStage} (hleaving : leaving (B.nodeName p) (s.children B) = some stage) :
    Moving B (s.setStage p stage) := by
  have hentries := h.waiting p
  simp only [Waiting, hstage] at hentries
  refine h.setStage ?_ (by simp [BarrierObject.Making, hstage])
    (fun hnil => absurd hnil hentries) (by simp [BarrierObject.Clearing, hstage])
  have hhighest (highest : PyStr) (hstage' : stage = .checkingHighest highest) :
      highest ≠ B.nodeName p :=
    leaving_highest (nodup_children h.nodup) (hstage' ▸ hleaving)
  unfold leaving at hleaving
  split at hleaving
  · cases hleaving
  all_goals
    injection hleaving with hleaving
    subst hleaving
    split
  case h_3.isTrue hown =>
    simp only [Waiting, Gathering.setStage, objects_setObject_self]
    exact ⟨hentries, hhighest _ (if_pos hown)⟩
  all_goals
    simp only [Waiting, Gathering.setStage, objects_setObject_self]
    exact hentries

/-- Another node is watched that is there. -/
theorem Moving.watches (h : Moving B s) (hentries : s.entries ≠ []) {name : PyStr}
    (hin : name ∈ s.children B) {stage : BarrierStage} (hmaking : ¬ (s.objects p).Making)
    (hclearing : ¬ (s.objects p).Clearing)
    (hstage : stage = .awaitingHighest name ∧ name ≠ B.nodeName p ∨ stage = .awaitingFirst name) :
    Moving B ((s.register p name).setStage p stage) := by
  rw [setStage_register]
  refine h.setObject ?_ (fun hevent => absurd rfl hevent) (fun hnil => absurd hnil hentries)
    (fun h' => absurd h' hmaking) (fun hnil => absurd hnil hentries) (fun h' => absurd h' hclearing)
  have harmed : (s.setObject p { s.objects p with
      stage := stage, watch := some name, event := none, ready := false }).Armed B p name := by
    intro _
    rw [objects_setObject_self]
    exact ⟨rfl, hin⟩
  rcases hstage with ⟨rfl, hne⟩ | rfl
  · simp only [Waiting, objects_setObject_self]
    exact ⟨hentries, hne, harmed⟩
  · simp only [Waiting, objects_setObject_self]
    exact ⟨hentries, harmed⟩

/-- The children are listed again. -/
theorem Moving.listsAgain (h : Moving B s) (hentries : s.entries ≠ [])
    (hmaking : ¬ (s.objects p).Making) (hclearing : ¬ (s.objects p).Clearing) :
    Moving B (s.setStage p .listing) := by
  refine h.setStage ?_ hmaking (fun hnil => absurd hnil hentries) hclearing
  simp only [Waiting, Gathering.setStage, objects_setObject_self]
  exact hentries

theorem Moving.go [Fintype π] (h : Moving B s) (hx : Exiting B first s)
    (hcard : Fintype.card π = B.numClients)
    (hcount : (s.objects p).stage = .counting → (s.children B).length < B.numClients →
      (∀ q, s.Created q) → (s.objects p).Woken ∨
        (s.objects p).watch = some readyName ∧ s.ready = false ∧ ∃ q, (s.objects q).Making)
    (hgo : s.goOn B p = some t) : Moving B t := by
  have hwaiting := h.waiting p
  have hstanding := hx.standing p
  cases goes_of_goOn hgo with
  | creates hstage => exact h.creates hx hstage
  | lacks hstage hfew => exact h.lacks hx hcard hstage hfew (hcount hstage hfew)
  | fills hstage hmany => exact h.fills hcard hstage hmany
  | missesReady hstage _ => exact h.missesReady hstage
  | makesReady hstage => exact h.makesReady hstage
  | clearsReady hstage => exact h.clearsReady hstage
  | finished hstage _ => exact h.finished hstage
  | lists hstage hleaving => exact h.lists hstage hleaving
  | cleans hstage => simp only [Standing, hstage] at hstanding
  | ensures hstage =>
    refine h.setObject ?_ (h.single p) (h.quiet · p)
      (fun h' => absurd h' (by simp [BarrierObject.Making, hstage])) ?_ ?_
    · simp only [Waiting, objects_setObject_self]
    · exact fun _ _ h' => absurd h' (by simp [BarrierObject.Counting, BarrierObject.Making, hstage])
    · exact fun h' => absurd h' (by simp [BarrierObject.Clearing, hstage])
  | watches hstage =>
    rw [setStage_register]
    refine h.setObject ?_ (fun hevent => absurd rfl hevent)
      (fun _ => ⟨rfl, rfl, fun name hname => (Option.some.inj hname).symm⟩)
      (fun h' => absurd h' (by simp [BarrierObject.Making, hstage])) (fun _ _ _ => .inr (.inl rfl)) ?_
    · simp only [Waiting, objects_setObject_self]
      exact fun _ => trivial
    · exact fun h' => absurd h' (by simp [BarrierObject.Clearing, hstage])
  | readied hstage hready =>
    refine h.enterReturns (fun hnil => ?_)
      fun h' => absurd h' (by simp [BarrierObject.Making, hstage])
    rw [(h.quiet hnil p).2.1] at hready
    cases hready
  | findsReady _ hready =>
    refine h.enterReturns (fun hnil => ?_) fun _ => hready
    rw [h.unmade hnil] at hready
    cases hready
  | deletesLast hstage =>
    simp only [Waiting, Standing, hstage] at hwaiting hstanding
    rw [deleting, if_pos hstanding.1.1]
    refine h.deletes hwaiting (by simp [BarrierObject.Making, hstage])
      (by simp [BarrierObject.Clearing, hstage]) rfl rfl fun hne => ?_
    simp only [Waiting, objects_setObject_self]
    exact fun hnil => absurd hnil hne
  | deletesOwn hstage =>
    simp only [Waiting, Standing, hstage] at hwaiting hstanding
    rw [deleting, if_pos hstanding.1.1]
    refine h.deletes hwaiting (by simp [BarrierObject.Making, hstage])
      (by simp [BarrierObject.Clearing, hstage]) rfl rfl fun hne => ?_
    simp only [Waiting, objects_setObject_self]
    exact hne
  | findsHighest hstage hin =>
    simp only [Waiting, hstage] at hwaiting
    exact h.watches hwaiting.1 hin (by simp [BarrierObject.Making, hstage])
      (by simp [BarrierObject.Clearing, hstage]) (.inl ⟨rfl, hwaiting.2⟩)
  | findsFirst hstage hin =>
    simp only [Waiting, hstage] at hwaiting
    exact h.watches hwaiting hin (by simp [BarrierObject.Making, hstage])
      (by simp [BarrierObject.Clearing, hstage]) (.inr rfl)
  | missesFirst hstage _ =>
    simp only [Waiting, hstage] at hwaiting
    exact h.listsAgain hwaiting (by simp [BarrierObject.Making, hstage])
      (by simp [BarrierObject.Clearing, hstage])
  | missesHighest hstage _ | highestGone hstage _ | firstGone hstage _ =>
    simp only [Waiting, hstage] at hwaiting
    exact h.listsAgain hwaiting.1 (by simp [BarrierObject.Making, hstage])
      (by simp [BarrierObject.Clearing, hstage])

theorem Moving.deliver (h : Moving B s) {type : EventType}
    (hevent : (s.objects p).event = some type) :
    Moving B (s.setObject p { s.objects p with
      event := none, ready := (s.objects p).ready || type = awaited (s.objects p).stage }) := by
  have hwaiting := h.waiting p
  have hentries : s.entries ≠ [] := fun hnil => by
    rw [(h.quiet hnil p).1] at hevent
    cases hevent
  refine h.setObject ?_ (fun hno => absurd rfl hno) (fun hnil => absurd hnil hentries) id
    (fun hnil => absurd hnil hentries) id
  generalize ho : ({ s.objects p with
    event := none,
    ready := (s.objects p).ready || type = awaited (s.objects p).stage } : BarrierObject) = o
  have hstage' : o.stage = (s.objects p).stage := ho ▸ rfl
  have hwatch : o.watch = (s.objects p).watch := ho ▸ rfl
  have hwoken (hold : (s.objects p).Woken) : o.Woken := by
    left
    rw [← ho]
    rcases hold with hready | hnews
    · exact Bool.or_eq_true_iff.mpr (.inl hready)
    · rw [hevent] at hnews
      exact Bool.or_eq_true_iff.mpr (.inr (decide_eq_true (Option.some.inj hnews)))
  have hobject : (s.setObject p o).objects p = o := objects_setObject_self
  have harmed (name : PyStr) (hold : s.Armed B p name) : (s.setObject p o).Armed B p name := by
    intro hno
    rw [hobject] at hno ⊢
    rw [hwatch]
    exact hold fun h' => hno (hwoken h')
  cases hstage : (s.objects p).stage <;>
    simp only [Waiting, hobject, hstage', hwatch, hstage] at hwaiting ⊢
  case outside | counting => exact fun hnil => absurd hnil hentries
  case awaitingReady =>
    intro hno
    obtain ⟨hwatched, hready, hmade⟩ := hwaiting fun h' => hno (hwoken h')
    refine ⟨hwatched, hready, hmade.imp_right fun ⟨q, hq⟩ => ⟨q, ?_⟩⟩
    have hne : q ≠ p := by
      rintro rfl
      simp [BarrierObject.Making, hstage] at hq
    rw [objects_setObject_of_ne hne]
    exact hq
  case awaitingHighest => exact ⟨hwaiting.1, hwaiting.2.1, harmed _ hwaiting.2.2⟩
  case awaitingFirst => exact ⟨hwaiting.1, harmed _ hwaiting.2⟩
  all_goals exact hwaiting

omit [DecidableEq π] in
theorem Moving.entries_of_participating (h : Moving B s) (hx : Exiting B first s)
    (hstage : (s.objects p).stage = .outside) (hin : (s.objects p).participating = true) :
    s.entries ≠ [] := by
  intro hnil
  have hwaiting := h.waiting p
  simp only [Waiting, hstage] at hwaiting
  rw [(hx.entered p (hwaiting hnil)).2] at hin
  cases hin

theorem Moving.step [Fintype π] (h : Moving B s) (hx : Exiting B first s)
    (hcard : Fintype.card π = B.numClients) {act : BarrierAct π} (hstep : s.step B act = some t)
    (hok : s.Unforgotten B act) : Moving B t := by
  obtain ⟨hround, hcount⟩ := hok
  cases act <;> simp only [Gathering.step] at hstep
  case enter p =>
    have hnew : (s.objects p).enters = 0 := hround
    obtain ⟨hstage, hout⟩ := hx.entered p hnew
    rw [hstage] at hstep
    injection hstep with hstep
    subst hstep
    rw [start, Gathering.setStage, objects_setObject_self, setObject_setObject]
    refine h.setObject ?_ (h.single p) (h.quiet · p) ?_ ?_ ?_
    · split <;> simp only [Waiting, objects_setObject_self]
    · exact fun h' => absurd h' (by simp [BarrierObject.Making, hstage])
    · exact fun _ _ h' => absurd h' (by simp [BarrierObject.Counting, BarrierObject.Making, hstage])
    · exact fun h' => absurd h' (by simp [BarrierObject.Clearing, hstage, hout])
  case leave p =>
    have hin : (s.objects p).participating = true := hround
    split at hstep
    case h_1 hstage =>
      injection hstep with hstep
      subst hstep
      have hentries := h.entries_of_participating hx hstage hin
      refine h.setObject ?_ (h.single p) (h.quiet · p) ?_ (fun hnil => absurd hnil hentries)
        (fun _ => .inr rfl)
      · simp only [Waiting, objects_setObject_self]
        exact hentries
      · exact fun h' => absurd h' (by simp [BarrierObject.Making, hstage])
    · cases hstep
  case go p => exact h.go hx hcard (hcount p rfl) hstep
  case deliver p =>
    split at hstep
    · cases hstep
    case h_2 type hevent =>
      injection hstep with hstep
      subst hstep
      exact h.deliver hevent
  case drop => exact hround.elim
  case expire => exact hround.elim
  case again p | giveUp p =>
    split at hstep
    case h_1 hstage =>
      have hstanding := hx.standing p
      simp only [Standing, hstage] at hstanding
    · cases hstep

omit [DecidableEq π] in
theorem moving_new (p : π) : Moving B (new : Gathering π) where
  waiting := fun _ _ => rfl
  nodup := List.nodup_nil
  single := fun _ hevent => absurd rfl hevent
  unmade := fun _ => rfl
  quiet := fun _ _ => ⟨rfl, rfl, fun _ hname => nomatch hname⟩
  counting := fun _ hall => by
    rcases hall p with hin | hdeleted
    · cases hin
    · exact absurd hdeleted (Nat.lt_irrefl 0)
  created := fun hne => absurd rfl hne
  clearing := fun hready => nomatch hready

theorem moving_of_reach [Fintype π] (hfirst : ∀ q, ¬ B.nodeName q < B.nodeName first)
    (hcard : Fintype.card π = B.numClients) (hr : (gathering B).Reach (Unforgotten B) s) :
    Exiting B first s ∧ Moving B s := by
  refine hr.invariant (P := fun s => Exiting B first s ∧ Moving B s)
    ⟨exiting_new, moving_new first⟩ fun s act hr ⟨hx, h⟩ hen hact => ?_
  obtain ⟨t, hstep⟩ := Option.isSome_iff_exists.mp hen
  show Exiting B first ((s.step B act).getD s) ∧ Moving B ((s.step B act).getD s)
  rw [hstep]
  refine ⟨hx.step hfirst hstep hact.1 fun p heq => ?_, h.step hx hcard hstep hact⟩
  subst heq
  simp only [Gathering.step] at hstep
  split at hstep
  case h_1 hstage => exact h.created (h.entries_of_participating hx hstage hact.1)
  · cases hstep

/-! ## No stuck state -/

/-- Who cannot take a step has left, or waits and has not been woken. -/
theorem waits_of_stuck (hx : Exiting B first s)
    (hstuck : ∀ act, s.OneRound act → s.step B act = none) (p : π) :
    (s.objects p).Left ∨ ¬ (s.objects p).Woken ∧ ((s.objects p).stage = .awaitingReady ∨
      ∃ name, (s.objects p).stage = .awaitingHighest name ∨
        (s.objects p).stage = .awaitingFirst name) := by
  have hgo : s.goOn B p = none := hstuck (.go p) trivial
  have hevent : (s.objects p).event = none := by
    have hdeliver := hstuck (.deliver p) trivial
    simp only [step] at hdeliver
    split at hdeliver
    · assumption
    · cases hdeliver
  have hwoken (hready : ¬ (s.objects p).ready = true) : ¬ (s.objects p).Woken := by
    rintro (hset | hnews)
    · exact hready hset
    · rw [hevent] at hnews
      cases hnews
  have hstanding := hx.standing p
  cases hstage : (s.objects p).stage
  case outside =>
    left
    have hout : (s.objects p).participating = false := by
      rw [← Bool.not_eq_true]
      intro hin
      have hleave := hstuck (.leave p) hin
      simp only [step, hstage, reduceCtorEq] at hleave
    refine ⟨hstage, hout, Nat.pos_of_ne_zero fun hnew => ?_⟩
    have henter := hstuck (.enter p) hnew
    simp only [step, hstage, reduceCtorEq] at henter
  case failed | cleaning => simp only [Standing, hstage] at hstanding
  case listing =>
    simp only [goOn, hstage] at hgo
    split at hgo <;> cases hgo
  case awaitingReady =>
    right
    simp only [goOn, hstage] at hgo
    split at hgo
    · cases hgo
    case isFalse hready => exact ⟨hwoken hready, .inl rfl⟩
  case awaitingHighest name =>
    right
    simp only [goOn, hstage] at hgo
    split at hgo
    · cases hgo
    case isFalse hready => exact ⟨hwoken hready, .inr ⟨name, .inl rfl⟩⟩
  case awaitingFirst name =>
    right
    simp only [goOn, hstage] at hgo
    split at hgo
    · cases hgo
    case isFalse hready => exact ⟨hwoken hready, .inr ⟨name, .inr rfl⟩⟩
  all_goals simp only [goOn, hstage, reduceCtorEq] at hgo

/-- Nobody waits for the ready node in a stuck state. -/
theorem Moving.not_awaitingReady (h : Moving B s) (hx : Exiting B first s)
    (hstuck : ∀ act, s.OneRound act → s.step B act = none) :
    (s.objects p).stage ≠ .awaitingReady := by
  intro hstage
  have hall (q : π) : s.Created q := by
    have hstanding := hx.standing q
    rcases waits_of_stuck hx hstuck q with hleft | ⟨-, hstage | ⟨name, hstage | hstage⟩⟩
    · exact hx.created q hleft.leaving q
    · simp only [Standing, hstage] at hstanding
      exact .inl hstanding.1
    · simp only [Standing, hstage] at hstanding
      exact .inl hstanding.1.1
    · simp only [Standing, hstage] at hstanding
      exact .inr (by rw [hstanding.1.2]; exact Nat.one_pos)
  -- nobody is on the way to make the ready node, or to count
  have hidle (q : π) : ¬ (s.objects q).Counting := by
    intro hcounting
    rcases waits_of_stuck hx hstuck q with hleft | ⟨-, hwaits | ⟨name, hwaits | hwaits⟩⟩
    · simp [BarrierObject.Counting, BarrierObject.Making, hleft.1] at hcounting
    all_goals simp [BarrierObject.Counting, BarrierObject.Making, hwaits] at hcounting
  have hwaiting := h.waiting p
  simp only [Waiting, hstage] at hwaiting
  have hwoken : ¬ (s.objects p).Woken := by
    rcases waits_of_stuck hx hstuck p with hleft | ⟨hwoken, -⟩
    · cases hstage.symm.trans hleft.1
    · exact hwoken
  obtain ⟨-, -, hnil | ⟨q, hq⟩⟩ := hwaiting hwoken
  · obtain ⟨q, hq⟩ := h.counting hnil hall
    exact hidle q hq
  · exact hidle q (.inr (.inr hq))

theorem Moving.left_of_stuck (h : Moving B s) (hx : Exiting B first s)
    (hstuck : ∀ act, s.OneRound act → s.step B act = none) (p : π) : (s.objects p).Left := by
  have hready : s.ready = false := by
    rw [← Bool.not_eq_true]
    intro hready
    obtain ⟨q, hq⟩ := h.clearing hready
    rcases waits_of_stuck hx hstuck q with hleft | ⟨-, hwaits | ⟨name, hwaits | hwaits⟩⟩
    · simp [BarrierObject.Clearing, hleft.1, hleft.2.1] at hq
    all_goals simp [BarrierObject.Clearing, hwaits] at hq
  have hwatched {name : PyStr} (hin : name ∈ s.children B) :
      ∃ q ∈ s.present, B.nodeName q = name := by
    rcases mem_children.mp hin with hnode | ⟨hmade, -⟩
    · exact hnode
    · rw [hready] at hmade
      cases hmade
  -- who has its node waits for another's, as the first does, and nobody else
  have hnode (q : π) (hin : q ∈ s.present) : q = first ∧ ∃ r ∈ s.present, r ≠ q := by
    have hstanding := hx.standing q
    have hwaiting := h.waiting q
    rcases waits_of_stuck hx hstuck q with hleft | ⟨hwoken, hwaits | ⟨name, hwaits | hwaits⟩⟩
    · simp only [Standing, hleft.1, hleft.2.1, Bool.false_eq_true, if_false,
        if_neg (Nat.ne_of_gt hleft.2.2)] at hstanding
      exact absurd hin hstanding.1.1
    · exact absurd hwaits (h.not_awaitingReady hx hstuck)
    · simp only [Standing, Waiting, hwaits] at hstanding hwaiting
      obtain ⟨r, hr, hname⟩ := hwatched (hwaiting.2.2 hwoken).2
      exact ⟨hstanding.2, r, hr, fun heq => hwaiting.2.1 (heq ▸ hname.symm)⟩
    · simp only [Standing, hwaits] at hstanding
      exact absurd hin hstanding.1.1
  have hempty (q : π) : q ∉ s.present := by
    intro hin
    obtain ⟨heq, r, hr, hne⟩ := hnode q hin
    exact hne ((hnode r hr).1.trans heq.symm)
  have hstanding := hx.standing p
  have hwaiting := h.waiting p
  rcases waits_of_stuck hx hstuck p with hleft | ⟨hwoken, hwaits | ⟨name, hwaits | hwaits⟩⟩
  · exact hleft
  · exact absurd hwaits (h.not_awaitingReady hx hstuck)
  · simp only [Standing, hwaits] at hstanding
    exact absurd hstanding.1.1 (hempty p)
  · simp only [Waiting, hwaits] at hwaiting
    obtain ⟨r, hr, -⟩ := hwatched (hwaiting.2 hwoken).2
    exact absurd hr (hempty r)

/-- In a round in which nobody is forgotten, someone can go on until everyone has left. -/
theorem round_goes_on [Fintype π] (hcard : Fintype.card π = B.numClients)
    (hr : (gathering B).Reach (Unforgotten B) s) {p : π} (hp : ¬ (s.objects p).Left) :
    ∃ act, s.OneRound act ∧ (gathering B).enabled s act := by
  obtain ⟨first, hfirst⟩ := exists_first B p
  obtain ⟨hx, h⟩ := moving_of_reach hfirst hcard hr
  by_contra hno
  refine hp (h.left_of_stuck hx (fun act hact => ?_) p)
  rw [← Option.not_isSome_iff_eq_none]
  exact fun hen => hno ⟨act, hact, hen⟩

end Gathering

/-- The second to come has entered, and not left, when the first has created its node. -/
def pairEntering : List (BarrierAct (Fin 2)) :=
  [.enter 0, .go 0, .go 0, .enter 1, .go 1, .go 1, .go 1, .go 1, .go 1, .go 1]

theorem Gathering.round_goes_on_pair :
    let s := (gathering pair).exec .new pairEntering
    ¬ (s.objects 0).Left ∧ ∃ act, s.OneRound act ∧ (gathering pair).enabled s act := by
  intro s
  have hleft : ¬ (s.objects 0).Left := by decide +kernel
  exact ⟨hleft, Gathering.round_goes_on rfl (.of_legal (by decide +kernel)) hleft⟩

/-- The second leaves, and deletes the ready node and its own, before the first looks for them. -/
def pairForgotten : List (BarrierAct (Fin 2)) :=
  pairEntering ++ [.leave 1, .go 1, .go 1, .go 1, .go 1, .go 0, .go 0]

theorem Gathering.round_stuck :
    let s := (gathering pair).exec .new pairForgotten
    (gathering pair).Reach OneRound s ∧ (s.objects 0).stage = .awaitingReady ∧
      ∀ act, ¬ (s.OneRound act ∧ (gathering pair).enabled s act) := by
  intro s
  refine ⟨.of_legal (by decide +kernel), by decide +kernel, fun act => ?_⟩
  cases act
  case drop | expire => exact fun h => h.1
  case enter p | leave p | go p | deliver p | again p | giveUp p =>
    revert p
    decide +kernel

end Kazoo
