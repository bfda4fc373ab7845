import Kazoo.Protocol.RoundTrip
import Kazoo.Recipe.DefaultPartition
import Kazoo.Recipe.Party
import Mathlib.Data.List.Infix

/-!
# Who is in the party

The iteration over `Party` and over `ShallowParty`, and `__len__`.  `Party` lists the children of its path
first, and asks for the data of one after another while the party goes on.  `ShallowParty` reads the
identifiers in the names of the children.
-/

namespace Kazoo

/-- `Party._NODE_NAME` -/
def partyNodeName : PyStr := str "__party__"

/-- What the constructors of the party objects fix. -/
structure Guests (κ ι : Type) where
  client : ι → κ
  -- whether the object is a `ShallowParty`
  shallow : ι → Bool
  -- `uuid.uuid4().hex`
  uuid : ι → PyStr
  uuid_length : ∀ i, (uuid i).length = 32
  uuid_hex : ∀ i, CodePoint.ofChar '-' ∉ uuid i
  uuid_injective : Function.Injective uuid
  identifier : ι → PyStr
  data : ι → Bytes
  encode_identifier : ∀ i, PyStr.encode (identifier i) = .ok (data i)

namespace Guests

variable {κ ι : Type} (G : Guests κ ι)

/-- `self.node` -/
def node (i : ι) : PyStr :=
  if G.shallow i then G.uuid i ++ CodePoint.ofChar '-' :: G.identifier i else G.uuid i ++ partyNodeName

theorem node_injective : Function.Injective G.node := by
  have htake : ∀ i, (G.node i).take 32 = G.uuid i := fun i => by
    unfold node
    split <;> exact List.take_left' (G.uuid_length i)
  intro i j h
  apply G.uuid_injective
  rw [← htake i, ← htake j, h]

theorem memberIdentifier_eq {i : ι} (h : G.shallow i = true) : memberIdentifier (G.node i) = G.identifier i := by
  rw [node, if_pos h]
  exact memberIdentifier_node (G.uuid_hex i) (G.identifier i)

end Guests

/-- The test of `Party._get_children`. -/
def InParty (child : PyStr) : Prop := partyNodeName <:+: child

instance (child : PyStr) : Decidable (InParty child) :=
  inferInstanceAs (Decidable (partyNodeName <:+: child))

/-- Where an iteration over a `Party` is. -/
inductive Reading
  | absent
  -- the children that are left, and what it has yielded, with the children it is from
  | reading (rest : List PyStr) (yielded : List (PyStr × PyStr))
  -- an exception has left it
  | raised
  deriving DecidableEq, Repr

/-- A child of the path that is of no party object. -/
structure Stranger {κ ι : Type} (G : Guests κ ι) where
  child : PyStr
  data : Bytes
  foreign : ∀ i, child ≠ G.node i

/-- A party with one iteration. -/
structure RollCall {κ ι : Type} (G : Guests κ ι) where
  path : PartyPath κ ι
  others : List (Stranger G)
  reading : Reading
  -- history: the node of the object was missing at some time since the children were listed
  missing : ι → Bool

inductive RollCallAct {κ ι : Type} (G : Guests κ ι)
  | party (act : PartyAct κ ι)
  | appear (stranger : Stranger G)
  | disappear (child : PyStr)
  -- `_get_children` returns
  | list (children : List PyStr)
  -- `client.get` for the next child is answered
  | get
  -- `_get_children` or `client.get` raises
  | fail

namespace RollCall

variable {κ ι : Type} {G : Guests κ ι}

def new : RollCall G where
  path := .new
  others := []
  reading := .absent
  missing := fun _ => false

/-- The children of the path. -/
def children (s : RollCall G) : List PyStr :=
  s.path.nodes.map (fun x => G.node x.1) ++ s.others.map (·.child)

/-- The data of a child. -/
def data? (s : RollCall G) (child : PyStr) : Option Bytes :=
  ((s.path.nodes.find? fun x => G.node x.1 = child).map fun x => G.data x.1).or
    ((s.others.find? fun x => x.child = child).map (·.data))

/-- One turn of the loop of `Party.__iter__`. -/
def get (s : RollCall G) : Option (RollCall G) :=
  match s.reading with
  | .reading (child :: rest) yielded =>
    match s.data? child with
    -- `NoNodeError`
    | none => some { s with reading := .reading rest yielded }
    | some data =>
      match Bytes.decode data with
      | .ok value => some { s with reading := .reading rest (yielded ++ [(child, value)]) }
      | .error _ => some { s with reading := .raised }
  | _ => none

variable [DecidableEq κ] [DecidableEq ι]

def step (s : RollCall G) : RollCallAct G → Option (RollCall G)
  | .party act => (s.path.step G.client act).map fun path =>
    { s with path, missing := fun i => s.missing i || !path.Has i }
  | .appear stranger =>
    if stranger.child ∉ s.others.map (·.child) then some { s with others := stranger :: s.others } else none
  | .disappear child => some { s with others := s.others.filter fun x => x.child ≠ child }
  | .list children =>
    if children.Perm s.children then
      some { s with
        reading := .reading (children.filter InParty) []
        missing := fun i => !s.path.Has i }
    else none
  | .get => s.get
  | .fail => some { s with reading := .raised }

end RollCall

/-- All interleavings of the party and the iteration. -/
def rollCall {κ ι : Type} [DecidableEq κ] [DecidableEq ι] (G : Guests κ ι) :
    Machine (RollCall G) (RollCallAct G) where
  init := .new
  enabled := fun s act => (s.step act).isSome
  post := fun s act => (s.step act).getD s

instance {κ ι : Type} [DecidableEq κ] [DecidableEq ι] (G : Guests κ ι) (s : RollCall G)
    (act : RollCallAct G) : Decidable ((rollCall G).enabled s act) :=
  inferInstanceAs (Decidable ((s.step act).isSome = true))

/-! ## The iteration over a `Party` -/

namespace Guests

variable {κ ι : Type} (G : Guests κ ι)

theorem inParty_node {i : ι} (h : G.shallow i = false) : InParty (G.node i) := by
  rw [InParty, node, if_neg (by simp [h])]
  exact (List.suffix_append _ _).isInfix

theorem decode_data (i : ι) : Bytes.decode (G.data i) = .ok (G.identifier i) :=
  PyStr.decode_encode (G.encode_identifier i)

end Guests

namespace RollCall

variable {κ ι : Type} {G : Guests κ ι} {s s' : RollCall G}

theorem data?_of_has {i : ι} (h : s.path.Has i) : s.data? (G.node i) = some (G.data i) := by
  obtain ⟨x, hx, rfl⟩ := List.mem_map.mp h
  cases hfind : s.path.nodes.find? fun y => G.node y.1 = G.node x.1 with
  | none => exact absurd (decide_eq_true rfl) (List.find?_eq_none.mp hfind x hx)
  | some y =>
    have hnode : G.node y.1 = G.node x.1 := by simpa using List.find?_some hfind
    rw [data?, hfind, ← G.node_injective hnode]
    rfl

/-- The data of the node of an object are those it was created with. -/
theorem data?_node {i : ι} {data : Bytes} (h : s.data? (G.node i) = some data) : data = G.data i := by
  obtain h | ⟨-, h⟩ := Option.or_eq_some_iff.mp h
  · obtain ⟨y, hfind, rfl⟩ := Option.map_eq_some_iff.mp h
    have hnode : G.node y.1 = G.node i := by simpa using List.find?_some hfind
    rw [G.node_injective hnode]
  · obtain ⟨x, hfind, -⟩ := Option.map_eq_some_iff.mp h
    exact absurd (by simpa using List.find?_some hfind) (x.foreign i)

theorem nodup_children (howned : PartyPath.Owned G.client s.path)
    (hothers : (s.others.map (·.child)).Nodup) : s.children.Nodup := by
  have hnodes : (s.path.nodes.map fun x => G.node x.1).Nodup := by
    have hnodup := howned.nodup.map G.node_injective
    rwa [List.map_map] at hnodup
  refine List.nodup_append.mpr ⟨hnodes, hothers, fun child hchild child' hchild' heq => ?_⟩
  obtain ⟨x, -, rfl⟩ := List.mem_map.mp hchild
  obtain ⟨y, -, rfl⟩ := List.mem_map.mp hchild'
  exact y.foreign x.1 heq.symm

/-- An iteration that has yielded `yielded`, and has not asked for `rest`. -/
structure Turn (s : RollCall G) (rest : List PyStr) (yielded : List (PyStr × PyStr)) : Prop where
  there : ∀ i, s.missing i = false → s.path.Has i
  nodup : (yielded.map Prod.fst ++ rest).Nodup
  due : ∀ i, G.shallow i = false → s.missing i = false →
    G.node i ∈ rest ∨ (G.node i, G.identifier i) ∈ yielded
  told : ∀ i x, (G.node i, x) ∈ yielded → x = G.identifier i

structure Sound (s : RollCall G) : Prop where
  owned : PartyPath.Owned G.client s.path
  others : (s.others.map (·.child)).Nodup
  turn : ∀ rest yielded, s.reading = .reading rest yielded → s.Turn rest yielded

theorem Turn.skip {rest : List PyStr} {child : PyStr} {yielded : List (PyStr × PyStr)}
    (h : s.Turn (child :: rest) yielded) (hnone : s.data? child = none) :
    Turn { s with reading := .reading rest yielded } rest yielded where
  there := h.there
  nodup := h.nodup.sublist ((List.sublist_cons_self _ _).append_left _)
  due := fun i hshallow hmissing => by
    obtain hmem | hyielded := h.due i hshallow hmissing
    · obtain rfl | hrest := List.mem_cons.mp hmem
      · rw [data?_of_has (h.there i hmissing)] at hnone
        cases hnone
      · exact .inl hrest
    · exact .inr hyielded
  told := h.told

theorem Turn.yield {rest : List PyStr} {child value : PyStr} {data : Bytes} {yielded : List (PyStr × PyStr)}
    (h : s.Turn (child :: rest) yielded) (hdata : s.data? child = some data)
    (hvalue : Bytes.decode data = .ok value) :
    Turn { s with reading := .reading rest (yielded ++ [(child, value)]) } rest
      (yielded ++ [(child, value)]) := by
  have hidentifier : ∀ i, G.node i = child → value = G.identifier i := by
    rintro i rfl
    rw [data?_node hdata, G.decode_data] at hvalue
    exact (Except.ok.inj hvalue).symm
  refine ⟨h.there, ?_, fun i hshallow hmissing => ?_, fun i x hmem => ?_⟩
  · rw [List.map_append, List.append_assoc]
    exact h.nodup
  · obtain hmem | hyielded := h.due i hshallow hmissing
    · obtain heq | hrest := List.mem_cons.mp hmem
      · rw [heq, ← hidentifier i heq]
        exact .inr (List.mem_append_right _ (List.mem_singleton_self _))
      · exact .inl hrest
    · exact .inr (List.mem_append_left _ hyielded)
  · obtain hold | hnew := List.mem_append.mp hmem
    · exact h.told i x hold
    · cases List.mem_singleton.mp hnew
      exact hidentifier i rfl

theorem sound_new : (new : RollCall G).Sound :=
  ⟨⟨nofun, .nil, nofun, fun _ _ hended => by cases hended⟩, .nil, nofun⟩

theorem Sound.get (h : s.Sound) (hstep : s.get = some s') : s'.Sound := by
  unfold RollCall.get at hstep
  split at hstep
  · next child rest yielded hreading =>
    have hturn := h.turn _ _ hreading
    split at hstep
    · next hnone =>
      cases hstep
      refine ⟨h.owned, h.others, ?_⟩
      rintro _ _ ⟨⟩
      exact hturn.skip hnone
    · next data hdata =>
      split at hstep
      · next value hvalue =>
        cases hstep
        refine ⟨h.owned, h.others, ?_⟩
        rintro _ _ ⟨⟩
        exact hturn.yield hdata hvalue
      · cases hstep
        refine ⟨h.owned, h.others, ?_⟩
        rintro _ _ ⟨⟩
  · cases hstep

variable [DecidableEq ι]

theorem Sound.listed (h : s.Sound) {children : List PyStr} (hperm : children.Perm s.children) :
    Turn { s with
      reading := .reading (children.filter InParty) []
      missing := fun i => !s.path.Has i } (children.filter InParty) [] where
  there := fun i hmissing => by simpa using hmissing
  nodup := (hperm.nodup_iff.mpr (nodup_children h.owned h.others)).filter _
  due := fun i hshallow hmissing => by
    have hhas : s.path.Has i := by simpa using hmissing
    obtain ⟨x, hx, rfl⟩ := List.mem_map.mp hhas
    refine .inl (List.mem_filter.mpr ⟨hperm.mem_iff.mpr ?_, decide_eq_true (G.inParty_node hshallow)⟩)
    exact List.mem_append_left _ (List.mem_map_of_mem hx)
  told := nofun

variable [DecidableEq κ] {act : RollCallAct G}

theorem Sound.step (h : s.Sound) (hstep : s.step act = some s') : s'.Sound := by
  cases act <;> simp only [RollCall.step] at hstep
  case party act =>
    obtain ⟨path, hpath, rfl⟩ := Option.map_eq_some_iff.mp hstep
    refine ⟨h.owned.step (PartyPath.steps_of_step hpath), h.others, fun rest yielded hreading => ?_⟩
    have hturn := h.turn rest yielded hreading
    refine ⟨fun i hmissing => ?_, hturn.nodup, fun i hshallow hmissing => hturn.due i hshallow ?_, hturn.told⟩
    · simpa using (Bool.or_eq_false_iff.mp hmissing).2
    · exact (Bool.or_eq_false_iff.mp hmissing).1
  case appear stranger =>
    obtain ⟨hfresh, ⟨⟩⟩ := Option.ite_none_right_eq_some.mp hstep
    refine ⟨h.owned, List.nodup_cons.mpr ⟨hfresh, h.others⟩, fun rest yielded hreading => ?_⟩
    have hturn := h.turn rest yielded hreading
    exact ⟨hturn.there, hturn.nodup, hturn.due, hturn.told⟩
  case disappear child =>
    cases hstep
    refine ⟨h.owned, h.others.sublist (List.filter_sublist.map _), fun rest yielded hreading => ?_⟩
    have hturn := h.turn rest yielded hreading
    exact ⟨hturn.there, hturn.nodup, hturn.due, hturn.told⟩
  case list children =>
    obtain ⟨hperm, ⟨⟩⟩ := Option.ite_none_right_eq_some.mp hstep
    refine ⟨h.owned, h.others, ?_⟩
    rintro _ _ ⟨⟩
    exact h.listed hperm
  case get => exact h.get hstep
  case fail =>
    cases hstep
    exact ⟨h.owned, h.others, nofun⟩

theorem sound_of_reachable (hr : (rollCall G).Reachable s) : s.Sound := by
  refine hr.invariant (P := Sound) sound_new fun s act _ h hen _ => ?_
  obtain ⟨s', hs'⟩ := Option.isSome_iff_exists.mp hen
  show Sound ((s.step act).getD s)
  rw [hs', Option.getD_some]
  exact h.step hs'

/-- An iteration over a `Party` that has come to its end has yielded each child once, every member whose
node was there all the time among them, and for each member its identifier. -/
theorem roll_call (hr : (rollCall G).Reachable s) {yielded : List (PyStr × PyStr)}
    (hend : s.reading = .reading [] yielded) :
    (yielded.map Prod.fst).Nodup ∧
      (∀ i, G.shallow i = false → s.missing i = false → (G.node i, G.identifier i) ∈ yielded) ∧
      ∀ i x, (G.node i, x) ∈ yielded → x = G.identifier i := by
  have hturn := (sound_of_reachable hr).turn [] yielded hend
  refine ⟨?_, fun i hshallow hmissing => ?_, hturn.told⟩
  · have hnodup := hturn.nodup
    rwa [List.append_nil] at hnodup
  · exact (hturn.due i hshallow hmissing).resolve_left List.not_mem_nil

end RollCall

/-! ## The iteration over a `ShallowParty` -/

namespace PartyPath

variable {κ ι : Type} [DecidableEq κ] [DecidableEq ι] {G : Guests κ ι} {s : PartyPath κ ι}

/-- Where no call is in progress, and every request has been answered, what a `ShallowParty` yields after
an orderly run are the identifiers of the objects that participate in a session that goes on, each once,
and `len` is their number. -/
theorem shallow_members (hr : (party G.client).Reach Orderly s) (hshallow : ∀ i, G.shallow i = true)
    (hidle : ∀ i, (s.objects i).stage = .outside ∧ (s.objects i).settled = true) {children : List PyStr}
    (hchildren : children.Perm (s.nodes.map fun x => G.node x.1)) :
    ∃ members : List ι, members.Nodup ∧
      (∀ i, i ∈ members ↔ (s.objects i).participating = true ∧
        ∃ n, (s.objects i).joinedIn = some n ∧ s.ended (G.client i) n = false) ∧
      (children.map memberIdentifier).Perm (members.map G.identifier) ∧ children.length = members.length := by
  refine ⟨s.nodes.map Prod.fst, (honest_of_reach hr).owned.nodup,
    fun i => members_participate hr (hidle i).1 (hidle i).2, ?_, ?_⟩
  · refine (hchildren.map memberIdentifier).trans (.of_eq ?_)
    rw [List.map_map, List.map_map]
    exact List.map_congr_left fun x _ => G.memberIdentifier_eq (hshallow x.1)
  · rw [hchildren.length_eq, List.length_map, List.length_map]

end PartyPath

/-! ## Two objects -/

/-- Two objects of one client, `a` and `b`. -/
def twoGuests (shallow : Bool) : Guests Unit Bool where
  client := PartyPath.oneClient
  shallow := fun _ => shallow
  uuid second := List.replicate 32 (CodePoint.ofChar (if second then 'b' else 'a'))
  uuid_length := fun _ => List.length_replicate
  uuid_hex := by decide
  uuid_injective := fun i j h => by
    revert h
    cases i <;> cases j <;> decide
  identifier second := if second then str "b" else str "a"
  data second := if second then [98] else [97]
  encode_identifier := by decide

namespace RollCall

/-- Both are in the party when the children are listed, and the second leaves before it is asked for. -/
def secondLeaves : RollCall (twoGuests false) :=
  (rollCall (twoGuests false)).exec .new
    ((PartyPath.joining false ++ PartyPath.joining true).map .party ++
      [.list [(twoGuests false).node false, (twoGuests false).node true], .get] ++
      [.party (.leave true), .party (.delete true), .get])

theorem roll_call_secondLeaves :
    secondLeaves.reading = .reading [] [((twoGuests false).node false, str "a")] ∧
      ((twoGuests false).node false, (twoGuests false).identifier false) ∈
        [((twoGuests false).node false, str "a")] := by
  have hr : (rollCall (twoGuests false)).Reachable secondLeaves := .of_legal (by decide +kernel)
  have hend : secondLeaves.reading = .reading [] [((twoGuests false).node false, str "a")] := by
    decide +kernel
  exact ⟨hend, (roll_call hr hend).2.1 false rfl (by decide +kernel)⟩

end RollCall

theorem PartyPath.shallow_members_firstLeft : ∃ members : List Bool, members.Nodup ∧
    (∀ i, i ∈ members ↔ (firstLeft.objects i).participating = true ∧
      ∃ n, (firstLeft.objects i).joinedIn = some n ∧ firstLeft.ended () n = false) ∧
    ([(twoGuests true).node true].map memberIdentifier).Perm (members.map (twoGuests true).identifier) ∧
    [(twoGuests true).node true].length = members.length :=
  shallow_members (G := twoGuests true) (.of_legal (by decide +kernel)) (fun _ => rfl) (by decide +kernel)
    (by decide +kernel)

end Kazoo
