import Kazoo.Recipe.BarrierExit

/-!
# Entering a double barrier

Any number of participants and rounds, with losses of connections and sessions.  A ready node that a
round has left behind counts as a child, and a participant may make the ready node when those that
it has counted are gone.
-/

namespace Kazoo

namespace Gathering

variable {π : Type} [DecidableEq π] {B : DoubleBarriers π} {s t : Gathering π} {p q : π}

/-- So many participant nodes have been there at once since the participant has created or found
its own. -/
def Attended (B : DoubleBarriers π) (s : Gathering π) (p : π) : Prop := B.numClients ≤ s.peak p

instance (s : Gathering π) (p : π) : Decidable (s.Attended B p) :=
  inferInstanceAs (Decidable (_ ≤ _))

/-- The ready node makes up the number of the children for no participant that counts them, and when
it is created it is so for those that wait for it. -/
def Crowded (B : DoubleBarriers π) (s : Gathering π) (act : BarrierAct π) : Prop :=
  let made (p : π) : Prop := (s.objects p).stage = .makingReady → s.ready = false →
    ∀ q, awaited (s.objects q).stage = .CREATED → (s.objects q).watch = some readyName →
      s.Attended B q
  match act with
  | .go p =>
    ((s.objects p).stage = .counting → B.numClients ≤ (s.children B).length → s.Attended B p) ∧ made p
  | .drop p _ true => made p
  | _ => True

instance [Fintype π] (s : Gathering π) (act : BarrierAct π) : Decidable (s.Crowded B act) := by
  induction act using BarrierAct.casesOn
  case drop p before carriedOut =>
    induction carriedOut using Bool.casesOn <;> (dsimp only [Crowded]; infer_instance)
  all_goals (dsimp only [Crowded]; infer_instance)

/-! ## Who goes on has been attended -/

/-- What the stage of a participant says of the number of participant nodes. -/
def Entering (B : DoubleBarriers π) (s : Gathering π) (p : π) : Prop :=
  match (s.objects p).stage with
  | .counting | .awaitingReady =>
    ((s.objects p).ready = true ∨ (s.objects p).event = some .CREATED → s.Attended B p) ∧
      ∀ name, (s.objects p).watch = some name → name = readyName
  | .askingReady | .makingReady => s.Attended B p
  | _ => True

structure Counted (B : DoubleBarriers π) (s : Gathering π) : Prop where
  entering : ∀ p, s.Entering B p
  entries : ∀ x ∈ s.entries, B.numClients ≤ x.2

omit [DecidableEq π] in
theorem counted_new : Counted B (new : Gathering π) where
  entering := fun _ => trivial
  entries := fun _ h => nomatch h

theorem le_peak_createNode : s.peak q ≤ (s.createNode B p).peak q := by
  unfold createNode
  split
  · exact Nat.le_refl _
  · exact Nat.le_max_left _ _

@[simp] theorem peak_deleteNode : (s.deleteNode B p).peak = s.peak := by
  unfold deleteNode
  split <;> rfl

omit [DecidableEq π] in
@[simp] theorem peak_createReady : s.createReady.peak = s.peak := by
  unfold createReady
  split <;> rfl

omit [DecidableEq π] in
@[simp] theorem peak_deleteReady : s.deleteReady.peak = s.peak := by
  unfold deleteReady
  split <;> rfl

theorem le_peak_effect : s.peak q ≤ (s.effect B p).peak q := by
  unfold effect
  split
  · exact le_peak_createNode
  · exact Nat.le_of_eq (by rw [peak_createReady])
  · exact Nat.le_of_eq (by rw [peak_deleteReady])
  · exact Nat.le_of_eq (by rw [peak_deleteNode])
  · exact Nat.le_of_eq (by rw [peak_deleteNode])
  · exact Nat.le_of_eq (by rw [peak_deleteNode])
  · exact Nat.le_refl _

/-- The ready node appears by the request for it only. -/
theorem ready_effect (h : (s.effect B p).ready = true) :
    s.ready = true ∨ (s.objects p).stage = .makingReady := by
  unfold effect at h
  split at h
  case h_1 => exact .inl (ready_createNode (B := B) (p := p) ▸ h)
  case h_2 hstage => exact .inr hstage
  case h_3 =>
    rw [ready_deleteReady] at h
    cases h
  case h_4 | h_5 | h_6 => exact .inl (ready_deleteNode (B := B) (p := p) ▸ h)
  case h_7 => exact .inl h

omit [DecidableEq π] in
/-- Only who waits for the ready node has anything to show. -/
theorem entering_of_awaited (h : awaited (s.objects p).stage ≠ .CREATED) : s.Entering B p := by
  unfold Entering
  cases hstage : (s.objects p).stage
  case counting | awaitingReady | askingReady | makingReady =>
    rw [hstage] at h
    exact absurd rfl h
  all_goals trivial

omit [DecidableEq π] in
/-- A change at the server keeps what is known of a participant. -/
theorem Entering.told (h : s.Entering B q)
    (hobject : t.objects q = (s.objects q).told (s.children B) (t.children B))
    (hpeak : s.peak q ≤ t.peak q)
    (hmade : s.ready = false → t.ready = true → awaited (s.objects q).stage = .CREATED →
      (s.objects q).watch = some readyName → s.Attended B q) : t.Entering B q := by
  have hkept : s.Attended B q → t.Attended B q := fun hq => Nat.le_trans hq hpeak
  by_cases hawaited : awaited (s.objects q).stage = .CREATED
  · have hwaits (hwaits : ((s.objects q).ready = true ∨ (s.objects q).event = some .CREATED →
          s.Attended B q) ∧ ∀ name, (s.objects q).watch = some name → name = readyName) :
        ((t.objects q).ready = true ∨ (t.objects q).event = some .CREATED → t.Attended B q) ∧
          ∀ name, (t.objects q).watch = some name → name = readyName := by
      obtain ⟨hwoken, hwatch⟩ := hwaits
      rw [hobject]
      refine ⟨fun hnews => hkept ?_, fun name hname =>
        hwatch name (BarrierObject.watch_of_told hname).1⟩
      rcases hnews with hready | hevent
      · exact hwoken (.inl (by rwa [BarrierObject.told_ready] at hready))
      · rcases BarrierObject.event_of_told hevent with hold | ⟨name, hname, -, hchange⟩
        · exact hwoken (.inr hold)
        · have hready := hwatch name hname
          subst hready
          rcases hchange with ⟨-, hbefore, hafter⟩ | ⟨htype, -⟩
          · rw [readyName_mem_children, Bool.not_eq_true] at hbefore
            exact hmade hbefore (readyName_mem_children.mp hafter) hawaited hname
          · cases htype
    have hstage' : (t.objects q).stage = (s.objects q).stage := by
      rw [hobject, BarrierObject.told_stage]
    unfold Entering at h ⊢
    rw [hstage']
    split at h
    · exact hwaits h
    · exact hwaits h
    · exact hkept h
    · exact hkept h
    · trivial
  · refine entering_of_awaited ?_
    rw [hobject, BarrierObject.told_stage]
    exact hawaited

omit [DecidableEq π] in
theorem Entering.congr (h : s.Entering B q) (hobject : t.objects q = s.objects q)
    (hpeak : t.peak q = s.peak q) : t.Entering B q := by
  unfold Entering Attended at h ⊢
  rwa [hobject, hpeak]

theorem Counted.effect (h : Counted B s)
    (hmade : (s.objects p).stage = .makingReady → s.ready = false →
      ∀ q, awaited (s.objects q).stage = .CREATED → (s.objects q).watch = some readyName →
        s.Attended B q) (q : π) : (s.effect B p).Entering B q := by
  refine (h.entering q).told (objects_effect q) le_peak_effect fun hnone hready => ?_
  rcases ready_effect hready with hold | hstage
  · rw [hnone] at hold
    cases hold
  · exact hmade hstage hnone q

theorem Counted.setObject (h : Counted B s) {o : BarrierObject}
    (hentering : (s.setObject p o).Entering B p) : Counted B (s.setObject p o) := by
  refine ⟨fun q => ?_, h.entries⟩
  by_cases heq : q = p
  · subst heq
    exact hentering
  · exact (h.entering q).congr (objects_setObject_of_ne heq) rfl

/-- The thread leaves the calls of `enter` behind, or the part of it that matters. -/
theorem Counted.own (h : Counted B s)
    (hmade : (s.objects p).stage = .makingReady → s.ready = false →
      ∀ q, awaited (s.objects q).stage = .CREATED → (s.objects q).watch = some readyName →
        s.Attended B q)
    (hown : Own (s.effect B p) t p) (hentering : t.Entering B p)
    (hentries : ∀ x ∈ t.entries, x ∈ s.entries ∨ x = (p, s.peak p) ∧ s.Attended B p) :
    Counted B t := by
  refine ⟨fun q => ?_, fun x hx => ?_⟩
  · by_cases heq : q = p
    · subst heq
      exact hentering
    · exact (h.effect hmade q).congr (hown.objects q heq) (hown.peak q heq)
  · rcases hentries x hx with hold | ⟨rfl, hattended⟩
    · exact h.entries x hold
    · exact hattended

@[simp] theorem entries_createNode : (s.createNode B p).entries = s.entries := by
  unfold createNode
  split <;> rfl

@[simp] theorem entries_deleteNode : (s.deleteNode B p).entries = s.entries := by
  unfold deleteNode
  split <;> rfl

omit [DecidableEq π] in
@[simp] theorem entries_createReady : s.createReady.entries = s.entries := by
  unfold createReady
  split <;> rfl

omit [DecidableEq π] in
@[simp] theorem entries_deleteReady : s.deleteReady.entries = s.entries := by
  unfold deleteReady
  split <;> rfl

theorem entries_deleting {next : Gathering π → Gathering π}
    (hnext : ∀ u, (next u).entries = u.entries) : (s.deleting B p next).entries = s.entries := by
  unfold deleting
  split
  · rw [hnext, entries_deleteNode]
  · rfl

/-- Which calls of `enter` return. -/
theorem Goes.entries (h : Goes B s p t) :
    t.entries = s.entries ∨
      t.entries = (p, s.peak p) :: s.entries ∧
        ((s.objects p).stage = .awaitingReady ∧ (s.objects p).ready = true ∨
          (s.objects p).stage = .askingReady ∨ (s.objects p).stage = .makingReady) := by
  cases h with
  | readied hstage hready => exact .inr ⟨rfl, .inl ⟨hstage, hready⟩⟩
  | findsReady hstage _ => exact .inr ⟨rfl, .inr (.inl hstage)⟩
  | makesReady hstage =>
    refine .inr ⟨?_, .inr (.inr hstage)⟩
    simp only [enterReturns, setObject, entries_createReady, peak_createReady]
  | creates _ => exact .inl entries_createNode
  | clearsReady _ => exact .inl entries_deleteReady
  | deletesLast _ | deletesOwn _ => exact .inl (entries_deleting fun _ => rfl)
  | cleans _ => exact .inl entries_deleteNode
  | _ => exact .inl rfl

theorem awaited_leaving {own : PyStr} {names : List PyStr} {stage : BarrierStage}
    (h : leaving own names = some stage) : awaited stage = .DELETED := by
  unfold leaving at h
  split at h
  · cases h
  · injection h with h
    subst h
    split <;> rfl
  · injection h with h
    subst h
    split <;> rfl

/-- What the thread says of its stage afterwards. -/
theorem Goes.entering (hgo : Goes B s p t) (hentering : s.Entering B p)
    (hcount : (s.objects p).stage = .counting → B.numClients ≤ (s.children B).length →
      s.Attended B p) : t.Entering B p := by
  cases hgo with
  | watches hstage =>
    rw [setStage_register]
    simp only [Entering, objects_setObject_self]
    exact ⟨fun hnews => absurd hnews (by simp), fun name hname => (Option.some.inj hname).symm⟩
  | fills hstage hmany =>
    simp only [Entering, setStage, objects_setObject_self]
    exact hcount hstage hmany
  | lacks hstage _ | missesReady hstage _ =>
    simp only [Entering, hstage] at hentering
    simp only [Entering, setStage, objects_setObject_self]
    exact hentering
  | lists _ hleaving =>
    exact entering_of_awaited (by simp [setStage, objects_setObject_self, awaited_leaving hleaving])
  | deletesLast _ | deletesOwn _ =>
    refine entering_of_awaited ?_
    unfold deleting
    split <;> simp [setStage, returns, objects_setObject_self, awaited]
  | _ =>
    exact entering_of_awaited
      (by simp [setStage, enterReturns, returns, objects_setObject_self, awaited])

theorem Counted.go (h : Counted B s)
    (hcount : (s.objects p).stage = .counting → B.numClients ≤ (s.children B).length →
      s.Attended B p)
    (hmade : (s.objects p).stage = .makingReady → s.ready = false →
      ∀ q, awaited (s.objects q).stage = .CREATED → (s.objects q).watch = some readyName →
        s.Attended B q)
    (hgo : s.goOn B p = some t) : Counted B t := by
  have hgoes := goes_of_goOn hgo
  have hentering := h.entering p
  refine h.own hmade hgoes.own (hgoes.entering hentering hcount) fun x hx => ?_
  rcases hgoes.entries with hsame | ⟨hnew, hstage⟩
  · exact .inl (hsame ▸ hx)
  · rw [hnew] at hx
    refine (List.mem_cons.mp hx).symm.imp_right fun heq => ⟨heq, ?_⟩
    unfold Entering at hentering
    rcases hstage with ⟨hstage, hready⟩ | hstage | hstage
    · rw [hstage] at hentering
      exact hentering.1 (.inl hready)
    · rw [hstage] at hentering
      exact hentering
    · rw [hstage] at hentering
      exact hentering

/-- The thread changes nothing but its own object, and does not get on with `enter`. -/
theorem Counted.setObject_of_awaited (h : Counted B s) {o : BarrierObject}
    (hawaited : awaited o.stage ≠ .CREATED) : Counted B (s.setObject p o) := by
  refine h.setObject (entering_of_awaited ?_)
  rw [objects_setObject_self]
  exact hawaited

theorem Counted.deliver (h : Counted B s) {type : EventType}
    (hevent : (s.objects p).event = some type) :
    Counted B (s.setObject p { s.objects p with
      event := none, ready := (s.objects p).ready || type = awaited (s.objects p).stage }) := by
  have hentering := h.entering p
  refine h.setObject ?_
  unfold Entering at hentering ⊢
  rw [objects_setObject_self]
  cases hstage : (s.objects p).stage <;> simp only [hstage] at hentering ⊢
  case counting | awaitingReady =>
    refine ⟨fun hnews => hentering.1 ?_, hentering.2⟩
    rcases hnews with hready | hnone
    · refine (Bool.or_eq_true_iff.mp hready).imp_right fun htype => ?_
      rw [hevent, of_decide_eq_true htype]
      rfl
    · cases hnone
  case askingReady | makingReady => exact hentering

/-- The watch and the event under way are lost. -/
theorem Counted.loses (h : Counted B s) :
    Counted B (s.setObject p { s.objects p with watch := none, event := none }) := by
  have hentering := h.entering p
  refine h.setObject ?_
  unfold Entering at hentering ⊢
  rw [objects_setObject_self]
  cases hstage : (s.objects p).stage <;> simp only [hstage] at hentering ⊢
  case counting | awaitingReady =>
    refine ⟨fun hnews => hentering.1 (hnews.imp_right fun hnone => nomatch hnone), ?_⟩
    exact fun name hname => nomatch hname
  case askingReady | makingReady => exact hentering

theorem awaited_failing {e : Exn} {stage stage' : BarrierStage}
    (h : failing e stage = some stage') : awaited stage' ≠ .CREATED := by
  unfold failing at h
  split at h
  case h_13 =>
    injection h with h
    subst h
    split <;> simp [awaited]
  all_goals
    cases h
    try simp [awaited]

@[simp] theorem entries_effect : (s.effect B p).entries = s.entries := by
  unfold effect
  split <;> simp

theorem Counted.step (h : Counted B s) {act : BarrierAct π} (hstep : s.step B act = some t)
    (hok : s.Crowded B act) : Counted B t := by
  cases act <;> simp only [Gathering.step] at hstep
  case enter p =>
    split at hstep
    · injection hstep with hstep
      subst hstep
      rw [start, setStage, objects_setObject_self, setObject_setObject]
      refine h.setObject_of_awaited ?_
      split <;> simp [awaited]
    · cases hstep
  case leave p =>
    split at hstep
    · injection hstep with hstep
      subst hstep
      exact h.setObject_of_awaited (by simp [awaited])
    · cases hstep
  case go p => exact h.go hok.1 hok.2 hstep
  case deliver p =>
    split at hstep
    · cases hstep
    case h_2 type hevent =>
      injection hstep with hstep
      subst hstep
      exact h.deliver hevent
  case drop p e carriedOut =>
    injection hstep with hstep
    subst hstep
    have hcounted : Counted B (if carriedOut then s.effect B p else s) := by
      cases carriedOut with
      | false => exact h
      | true =>
        refine ⟨h.effect hok, ?_⟩
        simp only [if_true, entries_effect]
        exact h.entries
    generalize (if carriedOut = true then s.effect B p else s) = u at hcounted ⊢
    split
    · exact hcounted.loses
    case h_2 stage hfailing => exact hcounted.setObject_of_awaited (awaited_failing hfailing)
  case expire p =>
    injection hstep with hstep
    subst hstep
    have hcounted : Counted B (s.deleteNode B p) := by
      refine ⟨fun q => (h.entering q).told (objects_deleteNode q) ?_ ?_, ?_⟩
      · rw [peak_deleteNode]
      · rw [ready_deleteNode]
        exact fun hnone hready => absurd (hnone.symm.trans hready) Bool.false_ne_true
      · rw [entries_deleteNode]
        exact h.entries
    exact hcounted.loses
  case again p =>
    split at hstep
    · split at hstep
      · split at hstep
        all_goals
          injection hstep with hstep
          subst hstep
          refine h.setObject_of_awaited ?_
        · split <;> simp [awaited]
        · simp [awaited]
      · cases hstep
    · cases hstep
  case giveUp p =>
    split at hstep
    · injection hstep with hstep
      subst hstep
      refine h.setObject_of_awaited ?_
      split <;> simp [awaited]
    · cases hstep

/-- Who enters has been one of as many participants as the barrier is for. -/
theorem enters_attended (hr : (gathering B).Reach (Crowded B) s) :
    ∀ x ∈ s.entries, B.numClients ≤ x.2 := by
  have hcounted : Counted B s := hr.invariant counted_new fun s act _ h hen hact => by
    obtain ⟨t, hstep⟩ := Option.isSome_iff_exists.mp hen
    show Counted B ((s.step B act).getD s)
    rw [hstep]
    exact h.step hstep hact
  exact hcounted.entries

end Gathering

/-- Both enter, and both sessions end. -/
def pairGone : List (BarrierAct (Fin 2)) :=
  [.enter 0, .go 0, .go 0, .go 0, .go 0, .enter 1, .go 1, .go 1, .go 1, .go 1, .go 1, .go 1,
    .deliver 0, .go 0, .expire 0, .expire 1]

theorem Gathering.enters_attended_pair :
    let s := (gathering pair).exec .new pairGone
    s.entries = [(0, 2), (1, 2)] ∧ ∀ x ∈ s.entries, 2 ≤ x.2 :=
  ⟨by decide +kernel, Gathering.enters_attended (.of_legal (by decide +kernel))⟩

/-- The ready node that they leave behind is the second child of a participant that comes alone. -/
theorem Gathering.enters_alone :
    let s := (gathering pair).exec .new (pairGone ++ [.enter 0, .go 0, .go 0, .go 0, .go 0])
    (gathering pair).Reachable s ∧ (0, 1) ∈ s.entries ∧ ¬ ∀ x ∈ s.entries, pair.numClients ≤ x.2 :=
  ⟨.of_legal (by decide +kernel), by decide +kernel, by decide +kernel⟩

end Kazoo
