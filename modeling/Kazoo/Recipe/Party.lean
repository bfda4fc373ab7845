import Kazoo.Lib.Machine
import Mathlib.Data.List.Nodup
import Mathlib.Data.Nat.Basic
import Mathlib.Order.Basic

/-!
# Parties

`BaseParty` of `kazoo/recipe/party.py`: who is in the party on one path.  Any number of party objects of
any number of clients, each with one call of `join` or `leave` at a time.  A request whose caller has got
an exception may be carried out later.
-/

namespace Kazoo

/-- Where the thread inside `join` or `leave` is. -/
inductive PartyStage
  | outside
  -- at the top of `_inner_join`
  | ensuring
  | creating
  -- in `_inner_leave`
  | deleting
  deriving DecidableEq, Repr

structure PartyObject where
  ensuredPath : Bool
  participating : Bool
  stage : PartyStage
  -- history: the session in which `join` was last successful
  joinedIn : Option Nat
  -- history: the last request to create or to delete the node has been answered
  settled : Bool
  deriving DecidableEq, Repr

def PartyObject.new : PartyObject where
  ensuredPath := false
  participating := false
  stage := .outside
  joinedIn := none
  settled := true

/-- A request to create or to delete the node of the object, whose caller has got an exception. -/
structure PartyRequest (ι : Type) where
  object : ι
  session : Nat
  creates : Bool

structure PartyPath (κ ι : Type) where
  objects : ι → PartyObject
  -- whose node is there, and the session of its client that has created it
  nodes : List (ι × Nat)
  -- how many sessions each client has had before the one it has
  session : κ → Nat
  -- the sessions that the server has closed or expired
  ended : κ → Nat → Bool
  late : List (PartyRequest ι)

inductive PartyAct (κ ι : Type)
  | join (i : ι)
  | ensure (i : ι)
  | ensureFails (i : ι) (again : Bool)
  | create (i : ι)
  | createFails (i : ι) (again : Bool)
  | leave (i : ι)
  | delete (i : ι)
  | deleteFails (i : ι) (again : Bool)
  | late (n : Nat)
  | expire (k : κ) (n : Nat)
  -- the client gets a new session
  | renew (k : κ)
  -- somebody else deletes the node
  | vanish (i : ι)

namespace PartyPath

variable {κ ι : Type}

def new : PartyPath κ ι where
  objects := fun _ => .new
  nodes := []
  session := fun _ => 0
  ended := fun _ _ => false
  late := []

/-- The node of the object is there. -/
def Has (s : PartyPath κ ι) (i : ι) : Prop := i ∈ s.nodes.map Prod.fst

variable [DecidableEq ι]

instance (s : PartyPath κ ι) (i : ι) : Decidable (s.Has i) :=
  inferInstanceAs (Decidable (i ∈ s.nodes.map Prod.fst))

def setObject (i : ι) (o : PartyObject) (s : PartyPath κ ι) : PartyPath κ ι :=
  { s with objects := Function.update s.objects i o }

/-- The server creates the node, if it is not there. -/
def createNode (i : ι) (n : Nat) (s : PartyPath κ ι) : PartyPath κ ι :=
  if s.Has i then s else { s with nodes := (i, n) :: s.nodes }

def deleteNode (i : ι) (s : PartyPath κ ι) : PartyPath κ ι :=
  { s with nodes := s.nodes.filter fun x => x.1 ≠ i }

variable [DecidableEq κ]

def step (client : ι → κ) (s : PartyPath κ ι) : PartyAct κ ι → Option (PartyPath κ ι)
  | .join i =>
    let o := s.objects i
    if o.stage = .outside then some (s.setObject i { o with stage := .ensuring }) else none
  | .ensure i =>
    let o := s.objects i
    if o.stage = .ensuring then some (s.setObject i { o with ensuredPath := true, stage := .creating })
    else none
  | .ensureFails i again =>
    let o := s.objects i
    if o.stage = .ensuring ∧ o.ensuredPath = false then
      some (s.setObject i { o with stage := if again then .ensuring else .outside })
    else none
  | .create i =>
    let o := s.objects i
    let n := s.session (client i)
    if o.stage = .creating ∧ s.ended (client i) n = false then
      -- a `NodeExistsError` is as good as an answer
      some ((s.createNode i n).setObject i
        { o with participating := true, stage := .outside, joinedIn := some n, settled := true })
    else none
  | .createFails i again =>
    let o := s.objects i
    if o.stage = .creating then
      some { s.setObject i { o with stage := if again then .ensuring else .outside, settled := false } with
        late := s.late ++ [⟨i, s.session (client i), true⟩] }
    else none
  | .leave i =>
    let o := s.objects i
    if o.stage = .outside then some (s.setObject i { o with participating := false, stage := .deleting })
    else none
  | .delete i =>
    let o := s.objects i
    if o.stage = .deleting ∧ s.ended (client i) (s.session (client i)) = false then
      some ((s.deleteNode i).setObject i { o with stage := .outside, settled := true })
    else none
  | .deleteFails i again =>
    let o := s.objects i
    if o.stage = .deleting then
      some { s.setObject i { o with stage := if again then .deleting else .outside, settled := false } with
        late := s.late ++ [⟨i, s.session (client i), false⟩] }
    else none
  | .late n =>
    match s.late[n]? with
    | some r =>
      if s.ended (client r.object) r.session = false then
        let s := { s with late := s.late.eraseIdx n }
        some (if r.creates then s.createNode r.object r.session else s.deleteNode r.object)
      else none
    | none => none
  | .expire k n =>
    if n ≤ s.session k then
      some { s with
        nodes := s.nodes.filter fun x => ¬ (client x.1 = k ∧ x.2 = n)
        ended := Function.update s.ended k (Function.update (s.ended k) n true) }
    else none
  | .renew k => some { s with session := Function.update s.session k (s.session k + 1) }
  | .vanish i => some (s.deleteNode i)

end PartyPath

/-- All interleavings of the calls, the sessions and the server. -/
def party {κ ι : Type} [DecidableEq κ] [DecidableEq ι] (client : ι → κ) :
    Machine (PartyPath κ ι) (PartyAct κ ι) where
  init := .new
  enabled := fun s act => (s.step client act).isSome
  post := fun s act => (s.step client act).getD s

instance {κ ι : Type} [DecidableEq κ] [DecidableEq ι] (client : ι → κ) (s : PartyPath κ ι)
    (act : PartyAct κ ι) : Decidable ((party client).enabled s act) :=
  inferInstanceAs (Decidable ((s.step client act).isSome = true))

/-! ## Nodes -/

namespace PartyPath

variable {κ ι : Type} {client : ι → κ} {s s' : PartyPath κ ι} {act : PartyAct κ ι}

/-- Each node belongs to a session that goes on, and each object has at most one. -/
structure Owned (client : ι → κ) (s : PartyPath κ ι) : Prop where
  alive : ∀ x ∈ s.nodes, x.2 ≤ s.session (client x.1) ∧ s.ended (client x.1) x.2 = false
  nodup : (s.nodes.map Prod.fst).Nodup
  late : ∀ r ∈ s.late, r.session ≤ s.session (client r.object)
  begun : ∀ k n, s.ended k n = true → n ≤ s.session k

theorem Owned.filter (h : Owned client s) (p : ι × Nat → Bool) :
    Owned client { s with nodes := s.nodes.filter p } :=
  ⟨fun x hx => h.alive x (List.mem_of_mem_filter hx), h.nodup.sublist (List.filter_sublist.map _), h.late,
    h.begun⟩

theorem Owned.fails (h : Owned client s) {i : ι} (creates : Bool) :
    Owned client { s with late := s.late ++ [⟨i, s.session (client i), creates⟩] } := by
  refine ⟨h.alive, h.nodup, fun r hr => ?_, h.begun⟩
  obtain hr | hr := List.mem_append.mp hr
  · exact h.late r hr
  · cases List.mem_singleton.mp hr
    exact Nat.le_refl _

variable [DecidableEq ι]

theorem mem_createNode {i : ι} {n : Nat} {x : ι × Nat} (h : x ∈ (s.createNode i n).nodes) :
    x = (i, n) ∨ x ∈ s.nodes := by
  unfold createNode at h
  split at h
  · exact .inr h
  · exact List.mem_cons.mp h

theorem mem_deleteNode {i : ι} {x : ι × Nat} : x ∈ (s.deleteNode i).nodes ↔ x ∈ s.nodes ∧ x.1 ≠ i := by
  simp [deleteNode]

theorem createNode_frame (i : ι) (n : Nat) (s : PartyPath κ ι) :
    ∃ nodes, s.createNode i n = { s with nodes := nodes } := by
  unfold createNode
  split
  · exact ⟨s.nodes, rfl⟩
  · exact ⟨_, rfl⟩

/-- Only the creation of a node of its own brings an object to the party, and only its deletion takes it
away. -/
theorem mem_createNode_of_ne {i j : ι} (hne : i ≠ j) (n m : Nat) (s : PartyPath κ ι) :
    (i, m) ∈ (s.createNode j n).nodes ↔ (i, m) ∈ s.nodes := by
  unfold createNode
  split
  · exact Iff.rfl
  · rw [List.mem_cons]
    exact or_iff_right fun heq => hne (congrArg Prod.fst heq)

theorem Owned.setObject (h : Owned client s) (i : ι) (o : PartyObject) : Owned client (s.setObject i o) :=
  ⟨h.alive, h.nodup, h.late, h.begun⟩

theorem Owned.createNode (h : Owned client s) {i : ι} {n : Nat} (hbegun : n ≤ s.session (client i))
    (halive : s.ended (client i) n = false) : Owned client (s.createNode i n) := by
  unfold PartyPath.createNode
  split
  · exact h
  · next hnot =>
    refine ⟨fun x hx => ?_, List.nodup_cons.mpr ⟨hnot, h.nodup⟩, h.late, h.begun⟩
    obtain rfl | hx := List.mem_cons.mp hx
    · exact ⟨hbegun, halive⟩
    · exact h.alive x hx

/-! ## Steps -/

variable [DecidableEq κ]

/-- A client gets a new session only when the one before is over, the server carries out the requests for
a node in the order in which they are made, and nobody else deletes the node. -/
def Orderly (s : PartyPath κ ι) : PartyAct κ ι → Prop
  | .renew k => s.ended k (s.session k) = true
  | .late n => ∀ r ∈ s.late[n]?, (s.objects r.object).settled = false
  | .vanish _ => False
  | _ => True

instance (s : PartyPath κ ι) (act : PartyAct κ ι) : Decidable (Orderly s act) :=
  match act with
  | .renew _ => inferInstanceAs (Decidable (_ = _))
  | .late n => inferInstanceAs (Decidable (∀ r ∈ s.late[n]?, (s.objects r.object).settled = false))
  | .vanish _ => inferInstanceAs (Decidable False)
  | .join _ | .ensure _ | .ensureFails .. | .create _ | .createFails .. | .leave _ | .delete _
  | .deleteFails .. | .expire .. => inferInstanceAs (Decidable True)

/-- All that a step can do. -/
inductive Steps (client : ι → κ) (s : PartyPath κ ι) : PartyAct κ ι → PartyPath κ ι → Prop
  | join {i : ι} (hstage : (s.objects i).stage = .outside) :
    Steps client s (.join i) (s.setObject i { s.objects i with stage := .ensuring })
  | ensure {i : ι} (hstage : (s.objects i).stage = .ensuring) :
    Steps client s (.ensure i)
      (s.setObject i { s.objects i with ensuredPath := true, stage := .creating })
  | ensureFails {i : ι} {again : Bool} (hstage : (s.objects i).stage = .ensuring) :
    Steps client s (.ensureFails i again)
      (s.setObject i { s.objects i with stage := if again then .ensuring else .outside })
  | create {i : ι} (halive : s.ended (client i) (s.session (client i)) = false) :
    Steps client s (.create i) ((s.createNode i (s.session (client i))).setObject i
      { s.objects i with
        participating := true, stage := .outside, joinedIn := some (s.session (client i)), settled := true })
  | createFails {i : ι} {again : Bool} (hstage : (s.objects i).stage = .creating) :
    Steps client s (.createFails i again)
      { s.setObject i
          { s.objects i with stage := if again then .ensuring else .outside, settled := false } with
        late := s.late ++ [⟨i, s.session (client i), true⟩] }
  | leave {i : ι} (hstage : (s.objects i).stage = .outside) :
    Steps client s (.leave i) (s.setObject i { s.objects i with participating := false, stage := .deleting })
  | delete {i : ι} (hstage : (s.objects i).stage = .deleting) :
    Steps client s (.delete i)
      ((s.deleteNode i).setObject i { s.objects i with stage := .outside, settled := true })
  | deleteFails {i : ι} {again : Bool} (hstage : (s.objects i).stage = .deleting) :
    Steps client s (.deleteFails i again)
      { s.setObject i
          { s.objects i with stage := if again then .deleting else .outside, settled := false } with
        late := s.late ++ [⟨i, s.session (client i), false⟩] }
  | lateCreate {n : Nat} {r : PartyRequest ι} (hr : s.late[n]? = some r)
      (halive : s.ended (client r.object) r.session = false) :
    Steps client s (.late n) ({ s with late := s.late.eraseIdx n }.createNode r.object r.session)
  | lateDelete {n : Nat} {r : PartyRequest ι} (hr : s.late[n]? = some r) :
    Steps client s (.late n) ({ s with late := s.late.eraseIdx n }.deleteNode r.object)
  | expire {k : κ} {n : Nat} (hbegun : n ≤ s.session k) :
    Steps client s (.expire k n) { s with
      nodes := s.nodes.filter fun x => ¬ (client x.1 = k ∧ x.2 = n)
      ended := Function.update s.ended k (Function.update (s.ended k) n true) }
  | renew {k : κ} :
    Steps client s (.renew k) { s with session := Function.update s.session k (s.session k + 1) }
  | vanish {i : ι} : Steps client s (.vanish i) (s.deleteNode i)

theorem steps_of_step (h : s.step client act = some s') : Steps client s act s' := by
  cases act <;> simp only [step] at h
  case join i =>
    obtain ⟨hstage, ⟨⟩⟩ := Option.ite_none_right_eq_some.mp h
    exact .join hstage
  case ensure i =>
    obtain ⟨hstage, ⟨⟩⟩ := Option.ite_none_right_eq_some.mp h
    exact .ensure hstage
  case ensureFails i again =>
    obtain ⟨hcond, ⟨⟩⟩ := Option.ite_none_right_eq_some.mp h
    exact .ensureFails hcond.1
  case create i =>
    obtain ⟨hcond, ⟨⟩⟩ := Option.ite_none_right_eq_some.mp h
    exact .create hcond.2
  case createFails i again =>
    obtain ⟨hstage, ⟨⟩⟩ := Option.ite_none_right_eq_some.mp h
    exact .createFails hstage
  case leave i =>
    obtain ⟨hstage, ⟨⟩⟩ := Option.ite_none_right_eq_some.mp h
    exact .leave hstage
  case delete i =>
    obtain ⟨hcond, ⟨⟩⟩ := Option.ite_none_right_eq_some.mp h
    exact .delete hcond.1
  case deleteFails i again =>
    obtain ⟨hstage, ⟨⟩⟩ := Option.ite_none_right_eq_some.mp h
    exact .deleteFails hstage
  case late n =>
    split at h
    · next r hr =>
      obtain ⟨halive, h⟩ := Option.ite_none_right_eq_some.mp h
      cases hcreates : r.creates <;> rw [hcreates] at h <;> cases h
      · exact .lateDelete hr
      · exact .lateCreate hr halive
    · cases h
  case expire k n =>
    obtain ⟨hbegun, ⟨⟩⟩ := Option.ite_none_right_eq_some.mp h
    exact .expire hbegun
  case renew k =>
    cases h
    exact .renew
  case vanish i =>
    cases h
    exact .vanish

omit [DecidableEq ι] in
/-- What the server has ended once it has ended session `n` of client `k` too. -/
theorem ended_expire_iff {k k' : κ} {n n' : Nat} :
    Function.update s.ended k (Function.update (s.ended k) n true) k' n' = true ↔
      (k' = k ∧ n' = n) ∨ s.ended k' n' = true := by
  by_cases hk : k' = k
  · subst hk
    by_cases hn : n' = n
    · simp [hn]
    · simp [hn]
  · simp [hk]

omit [DecidableEq ι] in
theorem alive_expire_iff {k k' : κ} {n n' : Nat} :
    Function.update s.ended k (Function.update (s.ended k) n true) k' n' = false ↔
      ¬ (k' = k ∧ n' = n) ∧ s.ended k' n' = false := by
  rw [← Bool.not_eq_true, ended_expire_iff, not_or, Bool.not_eq_true]

omit [DecidableEq ι] in
theorem session_le_renew (k k' : κ) :
    s.session k' ≤ Function.update s.session k (s.session k + 1) k' :=
  le_update_self_iff.mpr (Nat.le_succ _) k'

theorem Owned.step (h : Owned client s) (hsteps : Steps client s act s') : Owned client s' := by
  cases hsteps with
  | join | ensure | ensureFails | leave => exact h.setObject _ _
  | create halive => exact (h.createNode (Nat.le_refl _) halive).setObject _ _
  | createFails | deleteFails => exact (h.fails _).setObject _ _
  | delete => exact (h.filter _).setObject _ _
  | @lateCreate n r hr halive =>
    have hbegun := h.late r (List.mem_of_getElem? hr)
    have herased : Owned client { s with late := s.late.eraseIdx n } :=
      ⟨h.alive, h.nodup, fun r hr => h.late r (List.mem_of_mem_eraseIdx hr), h.begun⟩
    exact herased.createNode hbegun halive
  | @lateDelete n =>
    have herased : Owned client { s with late := s.late.eraseIdx n } :=
      ⟨h.alive, h.nodup, fun r hr => h.late r (List.mem_of_mem_eraseIdx hr), h.begun⟩
    exact herased.filter _
  | @expire k n hbegun =>
    refine ⟨fun x hx => ?_, h.nodup.sublist (List.filter_sublist.map _), h.late, fun k' n' hended => ?_⟩
    · obtain ⟨hx, hother⟩ := List.mem_filter.mp hx
      obtain ⟨hle, halive⟩ := h.alive x hx
      exact ⟨hle, alive_expire_iff.mpr ⟨of_decide_eq_true hother, halive⟩⟩
    · obtain ⟨rfl, rfl⟩ | hended := ended_expire_iff.mp hended
      · exact hbegun
      · exact h.begun k' n' hended
  | @renew k =>
    have hmono := session_le_renew (s := s) k
    exact ⟨fun x hx => ⟨Nat.le_trans (h.alive x hx).1 (hmono _), (h.alive x hx).2⟩, h.nodup,
      fun r hr => Nat.le_trans (h.late r hr) (hmono _),
      fun k' n hended => Nat.le_trans (h.begun k' n hended) (hmono _)⟩
  | vanish => exact h.filter _

/-! ## Members -/

omit [DecidableEq κ] [DecidableEq ι] in
theorem has_iff {i : ι} : s.Has i ↔ ∃ n, (i, n) ∈ s.nodes := by
  simp [Has]

/-- The session that a client has is the only one of its sessions that can go on. -/
def Current (s : PartyPath κ ι) : Prop := ∀ k n, n ≤ s.session k → s.ended k n = false → n = s.session k

/-- What an object says of itself is true, where its last request has been answered. -/
structure Kept (client : ι → κ) (s : PartyPath κ ι) (i : ι) : Prop where
  leaving : (s.objects i).stage = .deleting → (s.objects i).participating = false
  member : (s.objects i).settled = true → (s.objects i).participating = true →
    ∃ n ≤ s.session (client i), (s.objects i).joinedIn = some n ∧
      ∀ m, (i, m) ∈ s.nodes ↔ m = n ∧ s.ended (client i) n = false
  stranger : (s.objects i).settled = true → (s.objects i).stage ≠ .deleting →
    (s.objects i).participating = false → ¬ s.Has i

theorem current_step (h : s.Current) (hsteps : Steps client s act s') (hok : Orderly s act) : s'.Current := by
  have hcreate : ∀ i n, (s.createNode i n).session = s.session ∧ (s.createNode i n).ended = s.ended := by
    intro i n
    obtain ⟨nodes, heq⟩ := createNode_frame i n s
    rw [heq]
    exact ⟨rfl, rfl⟩
  cases hsteps with
  | join | ensure | ensureFails | createFails | leave | delete | deleteFails | lateDelete | vanish => exact h
  | @create i =>
    obtain ⟨hsession, hended⟩ := hcreate i (s.session (client i))
    intro k n
    simp only [setObject, hsession, hended]
    exact h k n
  | @lateCreate n r =>
    obtain ⟨nodes, heq⟩ := createNode_frame r.object r.session { s with late := s.late.eraseIdx n }
    rw [heq]
    exact h
  | @expire k n =>
    intro k' n' hle halive
    exact h k' n' hle (alive_expire_iff.mp halive).2
  | @renew k =>
    intro k' n hle halive
    by_cases hk : k' = k
    · subst hk
      simp only [Function.update_self] at hle ⊢
      by_contra hne
      -- the session before is over
      have hlast := h k' n (by omega) halive
      rw [hlast, show s.ended k' (s.session k') = true from hok] at halive
      cases halive
    · simp only [Function.update_of_ne hk] at hle ⊢
      exact h k' n hle halive

omit [DecidableEq ι] [DecidableEq κ] in
/-- Nothing that concerns object `i` has changed. -/
theorem Kept.congr {i : ι} (h : Kept client s i) (hobject : s'.objects i = s.objects i)
    (hnodes : ∀ m, (i, m) ∈ s'.nodes ↔ (i, m) ∈ s.nodes)
    (hsession : s.session (client i) ≤ s'.session (client i))
    (hended : s'.ended (client i) = s.ended (client i)) : Kept client s' i where
  leaving := by
    rw [hobject]
    exact h.leaving
  member := by
    rw [hobject]
    intro hsettled hparticipating
    obtain ⟨n, hle, hjoined, hmem⟩ := h.member hsettled hparticipating
    refine ⟨n, Nat.le_trans hle hsession, hjoined, fun m => ?_⟩
    rw [hnodes, hended]
    exact hmem m
  stranger := by
    rw [hobject]
    intro hsettled hstage hparticipating hhas
    obtain ⟨m, hm⟩ := has_iff.mp hhas
    exact h.stranger hsettled hstage hparticipating (has_iff.mpr ⟨m, (hnodes m).mp hm⟩)

omit [DecidableEq κ] in
/-- Another object has taken the step. -/
theorem Kept.other {i j : ι} (h : Kept client s i) (hne : i ≠ j) (o : PartyObject)
    (hnodes : ∀ m, (i, m) ∈ s'.nodes ↔ (i, m) ∈ s.nodes)
    (hobjects : s'.objects = Function.update s.objects j o) (hsession : s'.session = s.session)
    (hended : s'.ended = s.ended) : Kept client s' i :=
  h.congr (by rw [hobjects, Function.update_of_ne hne]) hnodes (Nat.le_of_eq (by rw [hsession]))
    (by rw [hended])

omit [DecidableEq κ] in
/-- A call goes on, and has not begun to leave. -/
theorem Kept.goOn {i j : ι} (h : Kept client s i) {o : PartyObject} (hstage : (s.objects j).stage ≠ .deleting)
    (hnext : o.stage ≠ .deleting) (hparticipating : o.participating = (s.objects j).participating)
    (hjoined : o.joinedIn = (s.objects j).joinedIn) (hsettled : o.settled = (s.objects j).settled) :
    Kept client (s.setObject j o) i := by
  by_cases hij : i = j
  · subst hij
    refine ⟨?_, ?_, ?_⟩ <;> simp only [setObject, Function.update_self]
    · exact fun hleaving => absurd hleaving hnext
    · rw [hparticipating, hjoined, hsettled]
      exact h.member
    · rw [hparticipating, hsettled]
      exact fun hdone _ => h.stranger hdone hstage
  · exact h.other hij _ (fun _ => Iff.rfl) rfl rfl rfl

omit [DecidableEq ι] [DecidableEq κ] in
/-- As long as a request of the object may be under way, nothing is said of its node. -/
theorem kept_of_unsettled {i : ι} (hsettled : (s.objects i).settled = false)
    (hleaving : (s.objects i).stage = .deleting → (s.objects i).participating = false) :
    Kept client s i := by
  refine ⟨hleaving, fun hnot => ?_, fun hnot => ?_⟩ <;>
  · rw [hnot] at hsettled
    cases hsettled

omit [DecidableEq κ] in
theorem Kept.created {i : ι} (howned : Owned client s) (hcurrent : s.Current)
    (halive : s.ended (client i) (s.session (client i)) = false) :
    Kept client ((s.createNode i (s.session (client i))).setObject i
      { s.objects i with
        participating := true, stage := .outside, joinedIn := some (s.session (client i)), settled := true })
      i := by
  have hmem : ∀ m, (i, m) ∈ (s.createNode i (s.session (client i))).nodes ↔ m = s.session (client i) := by
    intro m
    constructor
    · intro hm
      obtain heq | hm := mem_createNode hm
      · exact congrArg Prod.snd heq
      -- a node that was there already is one of the same session
      · exact hcurrent _ _ (howned.alive _ hm).1 (howned.alive _ hm).2
    · rintro rfl
      unfold createNode
      split
      · next hhas =>
        obtain ⟨m, hm⟩ := has_iff.mp hhas
        obtain rfl : m = s.session (client i) := hcurrent _ _ (howned.alive _ hm).1 (howned.alive _ hm).2
        exact hm
      · exact List.mem_cons_self
  obtain ⟨nodes, heq⟩ := createNode_frame i (s.session (client i)) s
  rw [heq] at hmem ⊢
  refine ⟨?_, fun _ _ => ⟨s.session (client i), Nat.le_refl _, ?_, fun m => ?_⟩, ?_⟩
  · simp [setObject]
  · simp [setObject]
  · exact (hmem m).trans (and_iff_left halive).symm
  · simp [setObject]

omit [DecidableEq ι] in
/-- The nodes of the session go with it. -/
theorem Kept.expire {i : ι} (h : Kept client s i) (k : κ) (n : Nat) :
    Kept client { s with
      nodes := s.nodes.filter fun x => ¬ (client x.1 = k ∧ x.2 = n)
      ended := Function.update s.ended k (Function.update (s.ended k) n true) } i := by
  have hfilter : ∀ m, (i, m) ∈ s.nodes.filter (fun x => ¬ (client x.1 = k ∧ x.2 = n)) ↔
      (i, m) ∈ s.nodes ∧ ¬ (client i = k ∧ m = n) := fun m => by
    rw [List.mem_filter, decide_eq_true_eq]
  refine ⟨h.leaving, fun hsettled hparticipating => ?_, fun hsettled hstage hparticipating hhas => ?_⟩
  · obtain ⟨n', hle, hjoined, hmem⟩ := h.member hsettled hparticipating
    refine ⟨n', hle, hjoined, fun m => ?_⟩
    rw [hfilter, hmem, alive_expire_iff]
    constructor
    · rintro ⟨⟨rfl, halive⟩, hother⟩
      exact ⟨rfl, hother, halive⟩
    · rintro ⟨rfl, hother, halive⟩
      exact ⟨⟨rfl, halive⟩, hother⟩
  · obtain ⟨m, hm⟩ := has_iff.mp hhas
    exact h.stranger hsettled hstage hparticipating (has_iff.mpr ⟨m, ((hfilter m).mp hm).1⟩)

theorem Kept.step {i : ι} (h : Kept client s i) (howned : Owned client s) (hcurrent : s.Current)
    (hsteps : Steps client s act s') (hok : Orderly s act) : Kept client s' i := by
  cases hsteps with
  | join hstage => exact h.goOn (by simp [hstage]) (by simp) rfl rfl rfl
  | ensure hstage => exact h.goOn (by simp [hstage]) (by simp) rfl rfl rfl
  | @ensureFails j again hstage =>
    exact h.goOn (by simp [hstage]) (by cases again <;> simp) rfl rfl rfl
  | @create j halive =>
    by_cases hij : i = j
    · subst hij
      exact .created howned hcurrent halive
    · obtain ⟨nodes, heq⟩ := createNode_frame j (s.session (client j)) s
      have hnodes := fun m => mem_createNode_of_ne hij (s.session (client j)) m s
      rw [heq] at hnodes ⊢
      exact h.other hij _ hnodes rfl rfl rfl
  | @createFails j again =>
    by_cases hij : i = j
    · subst hij
      apply kept_of_unsettled <;> simp only [setObject, Function.update_self]
      cases again <;> simp
    · exact h.other hij _ (fun _ => Iff.rfl) rfl rfl rfl
  | @leave j =>
    by_cases hij : i = j
    · subst hij
      refine ⟨?_, ?_, ?_⟩ <;> simp only [setObject, Function.update_self]
      · exact fun _ => trivial
      · nofun
      · exact fun _ hstage => absurd rfl hstage
    · exact h.other hij _ (fun _ => Iff.rfl) rfl rfl rfl
  | @delete j hstage =>
    by_cases hij : i = j
    · subst hij
      have hleft := h.leaving hstage
      refine ⟨?_, ?_, ?_⟩ <;> simp only [setObject, Function.update_self]
      · nofun
      · rw [hleft]
        nofun
      · rintro - - - hhas
        obtain ⟨m, hm⟩ := has_iff.mp hhas
        exact (mem_deleteNode.mp hm).2 rfl
    · exact h.other hij _ (fun _ => mem_deleteNode.trans (and_iff_left hij)) rfl rfl rfl
  | @deleteFails j again hstage =>
    by_cases hij : i = j
    · subst hij
      apply kept_of_unsettled <;> simp only [setObject, Function.update_self]
      exact fun _ => h.leaving hstage
    · exact h.other hij _ (fun _ => Iff.rfl) rfl rfl rfl
  | @lateCreate n r hr =>
    obtain ⟨nodes, heq⟩ := createNode_frame r.object r.session { s with late := s.late.eraseIdx n }
    by_cases hij : i = r.object
    · subst hij
      rw [heq]
      exact kept_of_unsettled (hok r hr) h.leaving
    · have hnodes := fun m => mem_createNode_of_ne hij r.session m { s with late := s.late.eraseIdx n }
      rw [heq] at hnodes ⊢
      exact h.congr rfl hnodes (Nat.le_refl _) rfl
  | @lateDelete n r hr =>
    by_cases hij : i = r.object
    · subst hij
      exact kept_of_unsettled (hok r hr) h.leaving
    · exact h.congr rfl (fun m => mem_deleteNode.trans (and_iff_left hij)) (Nat.le_refl _) rfl
  | expire => exact h.expire _ _
  | renew => exact h.congr rfl (fun _ => Iff.rfl) (session_le_renew _ _) rfl
  | vanish => exact hok.elim

theorem post_of_enabled (hen : (party client).enabled s act) :
    s.step client act = some ((party client).post s act) := by
  obtain ⟨s', hs'⟩ := Option.isSome_iff_exists.mp hen
  show s.step client act = some ((s.step client act).getD s)
  rw [hs', Option.getD_some]

/-- The invariant of the orderly runs. -/
structure Honest (client : ι → κ) (s : PartyPath κ ι) : Prop where
  owned : Owned client s
  current : s.Current
  kept : ∀ i, Kept client s i

theorem honest_of_reach (hr : (party client).Reach Orderly s) : Honest client s := by
  refine hr.invariant (P := Honest client) ?_ fun s act _ h hen hok => ?_
  · refine ⟨⟨nofun, .nil, nofun, nofun⟩, fun k n hle _ => Nat.le_zero.mp hle, fun i => ⟨nofun, nofun, ?_⟩⟩
    exact fun _ _ _ hhas => by cases hhas
  · have hsteps := steps_of_step (post_of_enabled hen)
    exact ⟨h.owned.step hsteps, current_step h.current hsteps hok,
      fun i => (h.kept i).step h.owned h.current hsteps hok⟩

/-- In an orderly run an object that is in no call, and whose last request has been answered, has its node
in the party exactly where it participates and the session goes on in which it has joined. -/
theorem members_participate (hr : (party client).Reach Orderly s) {i : ι}
    (hidle : (s.objects i).stage = .outside) (hsettled : (s.objects i).settled = true) :
    s.Has i ↔ (s.objects i).participating = true ∧
      ∃ n, (s.objects i).joinedIn = some n ∧ s.ended (client i) n = false := by
  have h := (honest_of_reach hr).kept i
  constructor
  · intro hhas
    have hparticipating : (s.objects i).participating = true := by
      by_contra hnot
      exact h.stranger hsettled (by simp [hidle]) (by simpa using hnot) hhas
    obtain ⟨n, -, hjoined, hmem⟩ := h.member hsettled hparticipating
    obtain ⟨m, hm⟩ := has_iff.mp hhas
    exact ⟨hparticipating, n, hjoined, ((hmem m).mp hm).2⟩
  · rintro ⟨hparticipating, n, hjoined, halive⟩
    obtain ⟨n', -, hjoined', hmem⟩ := h.member hsettled hparticipating
    obtain rfl : n = n' := Option.some.inj (hjoined.symm.trans hjoined')
    exact has_iff.mpr ⟨n, (hmem n).mpr ⟨rfl, halive⟩⟩

/-! ## One client -/

/-- Two objects of one client. -/
def oneClient : Bool → Unit := fun _ => ()

/-- One call of `join`. -/
def joining (i : Bool) : List (PartyAct Unit Bool) := [.join i, .ensure i, .create i]

/-- Both objects have joined, and the first has left. -/
def firstLeft : PartyPath Unit Bool :=
  (party oneClient).exec .new (joining false ++ joining true ++ [.leave false, .delete false])

theorem members_participate_firstLeft : ¬ firstLeft.Has false ∧ firstLeft.Has true := by
  have hr : (party oneClient).Reach Orderly firstLeft := .of_legal (by decide +kernel)
  constructor
  · intro hhas
    exact absurd ((members_participate hr (by decide +kernel) (by decide +kernel)).mp hhas).1
      (by decide +kernel)
  · exact (members_participate hr (by decide +kernel) (by decide +kernel)).mpr
      ⟨by decide +kernel, 0, by decide +kernel, by decide +kernel⟩

/-- The client gets a new session while the server still keeps the one before.  `join` meets the old node,
which goes with its session. -/
def goneWithOldSession : PartyPath Unit Bool :=
  (party oneClient).exec .new (joining false ++ [.renew ()] ++ joining false ++ [.expire () 0])

theorem participates_without_node :
    (goneWithOldSession.objects false).participating = true ∧
      goneWithOldSession.ended () (goneWithOldSession.session ()) = false ∧ ¬ goneWithOldSession.Has false := by
  decide +kernel

end PartyPath

end Kazoo
