import Kazoo.Lib.Machine
import Kazoo.Lib.PathTree
import Kazoo.MakePath

/-!
# Recursive deletion

`delete` with `recursive` of `kazoo/client.py`, while other clients delete nodes of the same tree.
Each request of the call is one step, and so is the call of `_delete_recursive` for one child.
-/

namespace Kazoo

def Exn.badArgumentsError : Exn := .zookeeper (-8)
def Exn.notEmptyError : Exn := .zookeeper (-111)

/-! ## The server -/

/-- The nodes of the server, each by its path. -/
structure NodeTree extends PathTree PyStr where
  valid : ∀ p ∈ nodes, ∀ name ∈ p, ValidName name
  -- the special paths, which the server does not delete
  special : NodePath → Bool

namespace NodeTree

variable (t : NodeTree)

def remove (p : NodePath) (hp : p ≠ []) (hleaf : t.Leaf p) : NodeTree where
  toPathTree := t.toPathTree.remove p hp hleaf
  valid q hq := t.valid q (Finset.mem_of_mem_erase hq)
  special := t.special

/-- The server carries out a `GetChildren`, with `names` for its listing. -/
def getChildren (p : NodePath) (names : List PyStr) : Except Exn (List PyStr) :=
  if p ∈ t.nodes then .ok names else .error .noNodeError

/-- The server carries out a `Delete` of any version. -/
def delete (p : NodePath) : Except Exn NodeTree :=
  if h : p = [] ∨ t.special p = true then .error .badArgumentsError
  else if p ∉ t.nodes then .error .noNodeError
  else if hleaf : t.Leaf p then .ok (t.remove p (not_or.mp h).1 hleaf)
  else .error .notEmptyError

end NodeTree

/-! ## The call -/

/-- A call of `_delete_recursive` in progress. -/
structure DeleteFrame where
  path : PyStr
  -- the children still to be visited, when they have been listed
  children : Option (List PyStr)
  deriving DecidableEq, Repr

structure DeletingState where
  tree : NodeTree
  -- the call in progress and its callers
  frames : List DeleteFrame
  -- what the outermost call returned or raised
  ended : Option (Except Exn (Option Bool))
  -- the nodes that the server has deleted for this client
  deleted : List NodePath

inductive DeleteAct
  -- another client deletes a node
  | others (p : NodePath)
  | getChildren (names : List PyStr)
  | visit
  | delete
  deriving DecidableEq, Repr

/-- Whether the call takes the step. -/
def DeleteAct.own : DeleteAct → Bool
  | .others _ => false
  | _ => true

/-- `child_path`. -/
def childPath (path child : PyStr) : PyStr :=
  if path = str "/" then path ++ child else path ++ str "/" ++ child

/-- A client that deletes the node at a path, and the tree that it finds. -/
structure RecursiveDelete where
  client : Client
  path : PyStr
  tree : NodeTree

namespace DeletingState

variable (s : DeletingState)

/-- The call in progress returns. -/
def returns (value : Option Bool) : DeletingState :=
  { s with
    frames := s.frames.tail
    ended := if s.frames.tail = [] then some (.ok value) else none }

/-- No frame handles the exception. -/
def raise (e : Exn) : DeletingState := { s with ended := some (.error e) }

end DeletingState

namespace RecursiveDelete

variable (D : RecursiveDelete)

/-- `self.get_children(path)` with its handler. -/
def getChildren (frame : DeleteFrame) (names : List PyStr) (s : DeletingState) : DeletingState :=
  match prefixRoot D.client.chroot frame.path false with
  | .error e => s.raise e
  | .ok wire =>
    match s.tree.getChildren (components slash wire) names with
    | .ok children => { s with frames := ⟨frame.path, some children⟩ :: s.frames.tail }
    | .error e => if e = .noNodeError then s.returns (some true) else s.raise e

/-- `self.delete(path)` with its handler. -/
def delete (frame : DeleteFrame) (s : DeletingState) : DeletingState :=
  match prefixRoot D.client.chroot frame.path false with
  | .error e => s.raise e
  | .ok wire =>
    match s.tree.delete (components slash wire) with
    | .ok tree => { s.returns none with tree := tree, deleted := s.deleted ++ [components slash wire] }
    | .error e => if e = .noNodeError then s.returns none else s.raise e

def enabled (s : DeletingState) : DeleteAct → Prop
  | .others p => p ∈ s.tree.nodes ∧ p ≠ [] ∧ s.tree.special p = false ∧ s.tree.Leaf p
  | .getChildren names => s.ended = none ∧
    ∃ frame ∈ s.frames.head?, frame.children = none ∧
      match prefixRoot D.client.chroot frame.path false with
      | .ok wire => s.tree.Lists (components slash wire) names
      | .error _ => True
  | .visit => s.ended = none ∧ ∃ frame ∈ s.frames.head?, ∃ names ∈ frame.children, names ≠ []
  | .delete => s.ended = none ∧ ∃ frame ∈ s.frames.head?, frame.children = some []

def post (s : DeletingState) : DeleteAct → DeletingState
  | .others p =>
    match s.tree.delete p with
    | .ok tree => { s with tree := tree }
    | .error _ => s
  | .getChildren names =>
    match s.frames with
    | frame :: _ => D.getChildren frame names s
    | [] => s
  | .visit =>
    match s.frames with
    | ⟨path, some (child :: children)⟩ :: callers =>
      { s with frames := ⟨childPath path child, none⟩ :: ⟨path, some children⟩ :: callers }
    | _ => s
  | .delete =>
    match s.frames with
    | frame :: _ => D.delete frame s
    | [] => s

def deleting : Machine DeletingState DeleteAct where
  init := ⟨D.tree, [⟨D.path, none⟩], none, []⟩
  enabled := D.enabled
  post := D.post

instance decidableEnabled (s : DeletingState) (act : DeleteAct) :
    Decidable (D.deleting.enabled s act) := by
  show Decidable (D.enabled s act)
  induction act using DeleteAct.casesOn <;> unfold enabled <;> try infer_instance
  have (frame : DeleteFrame) (names : List PyStr) : Decidable
      (match prefixRoot D.client.chroot frame.path false with
        | .ok wire => s.tree.Lists (components slash wire) names
        | .error _ => True) := by
    split <;> infer_instance
  infer_instance

/-- The node at the path. -/
def target : NodePath := D.client.nodePath D.path

/-! ## Paths of children -/

section

variable {D} {c : Client} {path child : PyStr}

theorem components_valid (h : ValidName child) : components slash child = [child] :=
  components_of_notMem h.2.1 h.1

theorem components_childPath (h : ValidName child) :
    components slash (childPath path child) = components slash path ++ [child] := by
  unfold childPath
  split
  · next hroot =>
    rw [hroot, show str "/" ++ child = slash :: child from rfl, components_sep, components_valid h,
      show components slash (str "/") = [] from components_sep []]
    rfl
  · rw [List.append_assoc, show str "/" ++ child = slash :: child from rfl, components_append_sep,
      components_valid h]

theorem nodePath_childPath (h : ValidName child) :
    c.nodePath (childPath path child) = c.nodePath path ++ [child] := by
  rw [Client.nodePath, components_childPath h, ← List.append_assoc]
  rfl

theorem accepts_childPath (haccepts : c.Accepts path) (h : ValidName child) :
    c.Accepts (childPath path child) := by
  rw [Client.Accepts, nodePath_childPath h]
  refine Proper.append_iff.mpr ⟨haccepts, fun name hname => ?_⟩
  rw [List.mem_singleton.mp hname]
  exact h.2.2

end

/-! ## What one request does -/

section

variable {D} {frame : DeleteFrame} {names : List PyStr} {s : DeletingState} {p : NodePath}

theorem getChildren_spec (h : D.client.Accepts frame.path) :
    D.getChildren frame names s =
      if D.client.nodePath frame.path ∈ s.tree.nodes then
        { s with frames := ⟨frame.path, some names⟩ :: s.frames.tail }
      else s.returns (some true) := by
  obtain ⟨wire, hwire, hcomps⟩ := h.wire
  simp only [getChildren, hwire, NodeTree.getChildren, hcomps]
  split
  · next heq =>
    split at heq
    · next hmem =>
      rw [if_pos hmem]
      cases heq
      rfl
    · cases heq
  · next heq =>
    split at heq
    · cases heq
    · next hmem =>
      rw [if_neg hmem]
      cases heq
      rfl

/-- What another client may delete is deleted. -/
theorem delete_leaf {t : NodeTree} (hmem : p ∈ t.nodes) (hp : p ≠ []) (hspecial : t.special p = false)
    (hleaf : t.Leaf p) : t.delete p = .ok (t.remove p hp hleaf) := by
  rw [NodeTree.delete, dif_neg (not_or.mpr ⟨hp, by simp [hspecial]⟩), if_neg (not_not.mpr hmem),
    dif_pos hleaf]

/-- A node whose children are gone is deleted, or was gone, or is one that the server keeps. -/
theorem delete_spec (frame : DeleteFrame) (h : D.client.Accepts frame.path)
    (hleaf : s.tree.Leaf (D.client.nodePath frame.path)) :
    (∃ hp, D.delete frame s =
        { s.returns none with
          tree := s.tree.remove (D.client.nodePath frame.path) hp hleaf
          deleted := s.deleted ++ [D.client.nodePath frame.path] }
      ∧ D.client.nodePath frame.path ∈ s.tree.nodes) ∨
    (D.delete frame s = s.returns none ∧ D.client.nodePath frame.path ∉ s.tree.nodes) ∨
    (D.delete frame s = s.raise .badArgumentsError ∧
      (D.client.nodePath frame.path = [] ∨ s.tree.special (D.client.nodePath frame.path) = true)) := by
  obtain ⟨wire, hwire, hcomps⟩ := h.wire
  simp only [delete, hwire, NodeTree.delete, hcomps]
  by_cases hbad : D.client.nodePath frame.path = [] ∨
      s.tree.special (D.client.nodePath frame.path) = true
  · rw [dif_pos hbad]
    exact .inr (.inr ⟨rfl, hbad⟩)
  by_cases hmem : D.client.nodePath frame.path ∈ s.tree.nodes
  · rw [dif_neg hbad, if_neg (not_not.mpr hmem), dif_pos hleaf]
    exact .inl ⟨(not_or.mp hbad).1, rfl, hmem⟩
  · rw [dif_neg hbad, if_pos hmem]
    exact .inr (.inl ⟨rfl, hmem⟩)

end

/-! ## The calls in progress -/

/-- What a call knows that has listed the children: all of them that are still there are named. -/
structure Visits (path : PyStr) (names : List PyStr) (t : NodeTree) : Prop where
  accepts : D.client.Accepts path
  here : D.client.nodePath path ∈ D.tree.nodes
  nodup : names.Nodup
  listed : ∀ a ∈ names, D.client.nodePath path ++ [a] ∈ D.tree.nodes
  rest : ∀ a, D.client.nodePath path ++ [a] ∈ t.nodes → a ∈ names

/-- The callers of a call for `n`. -/
def Callers (t : NodeTree) : NodePath → List DeleteFrame → Prop
  | n, [] => n = D.target
  | n, ⟨path, children⟩ :: callers =>
    ∃ names child, children = some names ∧ n = D.client.nodePath path ++ [child] ∧
      D.Visits path (child :: names) t ∧ Callers t (D.client.nodePath path) callers

/-- The calls in progress, and what is left for them when there is none. -/
def Stands (t : NodeTree) : List DeleteFrame → Prop
  | [] => D.target ∉ t.nodes
  | ⟨path, none⟩ :: callers =>
    D.client.Accepts path ∧ (callers ≠ [] → D.client.nodePath path ∈ D.tree.nodes) ∧
      D.Callers t (D.client.nodePath path) callers
  | ⟨path, some names⟩ :: callers =>
    D.Visits path names t ∧ D.Callers t (D.client.nodePath path) callers

section

variable {D} {t t' : NodeTree} {path : PyStr} {names : List PyStr} {n : NodePath}
  {callers frames : List DeleteFrame}

theorem Visits.mono (h : D.Visits path names t) (hsub : t'.nodes ⊆ t.nodes) :
    D.Visits path names t' :=
  { h with rest := fun a ha => h.rest a (hsub ha) }

theorem Callers.mono (h : D.Callers t n callers) (hsub : t'.nodes ⊆ t.nodes) :
    D.Callers t' n callers := by
  induction callers generalizing n with
  | nil => exact h
  | cons frame callers ih =>
    obtain ⟨names, child, hchildren, hn, hvisits, h⟩ := h
    exact ⟨names, child, hchildren, hn, hvisits.mono hsub, ih h⟩

theorem Stands.mono (h : D.Stands t frames) (hsub : t'.nodes ⊆ t.nodes) : D.Stands t' frames := by
  match frames, h with
  | [], h => exact fun hmem => h (hsub hmem)
  | ⟨_, none⟩ :: _, ⟨haccepts, hhere, h⟩ => exact ⟨haccepts, hhere, h.mono hsub⟩
  | ⟨_, some _⟩ :: _, ⟨hvisits, h⟩ => exact ⟨hvisits.mono hsub, h.mono hsub⟩

/-- The calls stay in the subtree. -/
theorem Callers.below (h : D.Callers t n callers) : D.target <+: n := by
  induction callers generalizing n with
  | nil => rw [show n = D.target from h]
  | cons frame callers ih =>
    obtain ⟨names, child, -, rfl, -, h⟩ := h
    exact (ih h).trans (List.prefix_append _ [child])

/-- When the node is gone, its caller goes on to the next child. -/
theorem Callers.returned (h : D.Callers t n callers) (hgone : n ∉ t.nodes) : D.Stands t callers := by
  match callers, h with
  | [], h =>
    show D.target ∉ t.nodes
    rwa [← show n = D.target from h]
  | ⟨path, _⟩ :: callers, ⟨names, child, rfl, hn, hvisits, h⟩ =>
    refine ⟨⟨hvisits.accepts, hvisits.here, (List.nodup_cons.mp hvisits.nodup).2,
      fun a ha => hvisits.listed a (List.mem_cons_of_mem child ha), fun a ha => ?_⟩, h⟩
    rcases List.mem_cons.mp (hvisits.rest a ha) with rfl | ha'
    · exact absurd (hn ▸ ha) hgone
    · exact ha'

end

/-! ## Every step -/

/-- What holds of every state reached. -/
structure Holds (s : DeletingState) : Prop where
  shrunk : s.tree.nodes ⊆ D.tree.nodes
  special : s.tree.special = D.tree.special
  deleted : ∀ q ∈ s.deleted, q ∈ D.tree.subtree D.target
  stands : (∀ e, s.ended ≠ some (.error e)) → D.Stands s.tree s.frames
  ended : s.frames = [] → ∃ value, s.ended = some (.ok value)
  returned : ∀ value, s.ended = some (.ok value) → s.frames = []
  raised : ∀ e, s.ended = some (.error e) → e = .badArgumentsError ∧
    ∃ q ∈ D.tree.subtree D.target, q = [] ∨ D.tree.special q = true

/-- The steps that a call still has to take. -/
def steps (frame : DeleteFrame) : Nat :=
  let n := D.client.nodePath frame.path
  match frame.children with
  | none => max 1 (3 * (D.tree.subtree n).card - 1)
  | some names => 1 + 3 * (names.map fun a => (D.tree.subtree (n ++ [a])).card).sum

def stepsLeft (s : DeletingState) : Nat :=
  if s.ended = none then (s.frames.map D.steps).sum else 0

section

variable {D} {s : DeletingState} {act : DeleteAct}

theorem holds_init (h : D.client.Accepts D.path) : D.Holds D.deleting.init where
  shrunk := Finset.Subset.refl _
  special := rfl
  deleted := by simp [deleting]
  stands _ := ⟨h, fun hne => absurd rfl hne, rfl⟩
  ended h := by simp [deleting] at h
  returned _ h := by simp [deleting] at h
  raised _ h := by simp [deleting] at h

/-- A call for a node that is gone returns. -/
theorem Holds.returns (h : D.Holds s) {frame : DeleteFrame} {callers : List DeleteFrame}
    {value : Option Bool} {tree : NodeTree} {deleted : List NodePath}
    (hframes : s.frames = frame :: callers) (hsub : tree.nodes ⊆ s.tree.nodes)
    (hspecial : tree.special = s.tree.special) (hdeleted : ∀ q ∈ deleted, q ∈ D.tree.subtree D.target)
    (hcallers : D.Callers s.tree (D.client.nodePath frame.path) callers)
    (hgone : D.client.nodePath frame.path ∉ tree.nodes) :
    D.Holds { s.returns value with tree := tree, deleted := deleted } where
  shrunk := hsub.trans h.shrunk
  special := hspecial.trans h.special
  deleted := hdeleted
  stands _ := by
    show D.Stands tree s.frames.tail
    rw [hframes]
    exact (hcallers.mono hsub).returned hgone
  ended hnil := ⟨value, if_pos hnil⟩
  returned v hv := by
    by_contra hne
    exact absurd ((if_neg hne).symm.trans hv) (by simp)
  raised e he := by
    have he : (if s.frames.tail = [] then some (Except.ok value) else none) = some (.error e) := he
    split at he <;> simp at he

/-- The call goes on with other frames. -/
theorem Holds.goes (h : D.Holds s) {frames : List DeleteFrame} (hended : s.ended = none)
    (hne : frames ≠ []) (hstands : D.Stands s.tree frames) : D.Holds { s with frames := frames } where
  shrunk := h.shrunk
  special := h.special
  deleted := h.deleted
  stands _ := hstands
  ended hnil := absurd hnil hne
  returned v hv := by
    have hv : s.ended = some (.ok v) := hv
    rw [hended] at hv
    cases hv
  raised := h.raised

theorem post_getChildren {frame : DeleteFrame} {callers : List DeleteFrame} {names : List PyStr}
    (hframes : s.frames = frame :: callers) :
    D.post s (.getChildren names) = D.getChildren frame names s := by
  simp only [post, hframes]

theorem post_visit {path child : PyStr} {children : List PyStr} {callers : List DeleteFrame}
    (hframes : s.frames = ⟨path, some (child :: children)⟩ :: callers) :
    D.post s .visit =
      { s with frames := ⟨childPath path child, none⟩ :: ⟨path, some children⟩ :: callers } := by
  simp only [post, hframes]

theorem post_delete {frame : DeleteFrame} {callers : List DeleteFrame}
    (hframes : s.frames = frame :: callers) : D.post s .delete = D.delete frame s := by
  simp only [post, hframes]

theorem stepsLeft_cons {frame : DeleteFrame} {callers : List DeleteFrame} (hended : s.ended = none)
    (hframes : s.frames = frame :: callers) :
    D.stepsLeft s = D.steps frame + (callers.map D.steps).sum := by
  rw [stepsLeft, if_pos hended, hframes, List.map_cons, List.sum_cons]

theorem stepsLeft_goes {frame : DeleteFrame} {callers : List DeleteFrame} (hended : s.ended = none) :
    D.stepsLeft { s with frames := frame :: callers } =
      D.steps frame + (callers.map D.steps).sum :=
  stepsLeft_cons hended rfl

/-- What is left when the call returns. -/
theorem stepsLeft_returns_le {frame : DeleteFrame} {callers : List DeleteFrame}
    {value : Option Bool} {tree : NodeTree} {deleted : List NodePath}
    (hframes : s.frames = frame :: callers) :
    D.stepsLeft { s.returns value with tree := tree, deleted := deleted } ≤
      (callers.map D.steps).sum := by
  have hcallers : s.frames.tail = callers := by rw [hframes, List.tail_cons]
  rw [stepsLeft]
  split
  · exact Nat.le_of_eq (congrArg (fun frames => (frames.map D.steps).sum) hcallers)
  · exact Nat.zero_le _

/-- What `get_children` brings the call. -/
theorem holds_getChildren (h : D.Holds s) {names : List PyStr}
    (hen : D.enabled s (.getChildren names)) :
    D.Holds (D.post s (.getChildren names)) ∧
      D.stepsLeft (D.post s (.getChildren names)) < D.stepsLeft s := by
  obtain ⟨hended, ⟨path, _⟩, hhead, rfl, hlists⟩ := hen
  obtain ⟨callers, hframes⟩ := List.head?_eq_some_iff.mp hhead
  have hstands := h.stands (by simp [hended])
  rw [hframes] at hstands
  obtain ⟨haccepts, -, hcallers⟩ := hstands
  obtain ⟨wire, hwire, hcomps⟩ := haccepts.wire
  simp only [hwire, hcomps] at hlists
  obtain ⟨hnodup, hmem⟩ := hlists
  have hleft := stepsLeft_cons (D := D) hended hframes
  rw [post_getChildren hframes, getChildren_spec haccepts, hframes]
  split
  · next hhere =>
    have hhere := h.shrunk hhere
    refine ⟨h.goes hended (List.cons_ne_nil _ _) ⟨⟨haccepts, hhere, hnodup,
      fun a ha => h.shrunk ((hmem a).mp ha), fun a => (hmem a).mpr⟩, hcallers⟩, ?_⟩
    have hcard : (names.map fun a =>
        (D.tree.subtree (D.client.nodePath path ++ [a])).card).sum <
          (D.tree.subtree (D.client.nodePath path)).card := D.tree.sum_card_subtree_lt hnodup hhere
    have hask : D.steps ⟨path, none⟩ =
        max 1 (3 * (D.tree.subtree (D.client.nodePath path)).card - 1) := rfl
    have hlisted : D.steps ⟨path, some names⟩ = 1 + 3 *
        (names.map fun a => (D.tree.subtree (D.client.nodePath path ++ [a])).card).sum := rfl
    rw [hleft, stepsLeft_goes hended]
    show D.steps ⟨path, some names⟩ + (callers.map D.steps).sum < _
    omega
  · next hgone =>
    refine ⟨h.returns hframes (Finset.Subset.refl _) rfl h.deleted hcallers hgone, ?_⟩
    have hpos : 0 < D.steps ⟨path, none⟩ := Nat.lt_of_lt_of_le Nat.zero_lt_one (le_max_left _ _)
    exact Nat.lt_of_le_of_lt (stepsLeft_returns_le hframes) (by omega)

/-- The call of `_delete_recursive` for the next child. -/
theorem holds_visit (h : D.Holds s) (hen : D.enabled s .visit) :
    D.Holds (D.post s .visit) ∧ D.stepsLeft (D.post s .visit) < D.stepsLeft s := by
  obtain ⟨hended, ⟨path, _⟩, hhead, names, rfl, hne⟩ := hen
  obtain ⟨child, names, rfl⟩ := List.exists_cons_of_ne_nil hne
  obtain ⟨callers, hframes⟩ := List.head?_eq_some_iff.mp hhead
  have hstands := h.stands (by simp [hended])
  rw [hframes] at hstands
  obtain ⟨hvisits, hcallers⟩ := hstands
  have hmem := hvisits.listed child List.mem_cons_self
  have hvalid : ValidName child := D.tree.valid _ hmem child (by simp)
  have hnode : D.client.nodePath (childPath path child) = D.client.nodePath path ++ [child] :=
    nodePath_childPath hvalid
  rw [post_visit hframes]
  refine ⟨h.goes hended (List.cons_ne_nil _ _) ⟨accepts_childPath hvisits.accepts hvalid,
    fun _ => hnode ▸ hmem, names, child, rfl, hnode, hvisits, hcallers⟩, ?_⟩
  have hcard := Finset.card_pos.mpr ⟨_, D.tree.mem_subtree_self.mpr hmem⟩
  rw [stepsLeft_cons hended hframes, stepsLeft_goes hended, List.map_cons, List.sum_cons]
  simp only [steps, hnode, List.map_cons, List.sum_cons]
  omega

/-- The call deletes its own node. -/
theorem holds_delete (h : D.Holds s) (hen : D.enabled s .delete) :
    D.Holds (D.post s .delete) ∧ D.stepsLeft (D.post s .delete) < D.stepsLeft s := by
  obtain ⟨hended, ⟨path, _⟩, hhead, rfl⟩ := hen
  obtain ⟨callers, hframes⟩ := List.head?_eq_some_iff.mp hhead
  have hstands := h.stands (by simp [hended])
  rw [hframes] at hstands
  obtain ⟨hvisits, hcallers⟩ := hstands
  have hleaf : s.tree.Leaf (D.client.nodePath path) := fun a ha =>
    absurd (hvisits.rest a ha) List.not_mem_nil
  have hmine : D.client.nodePath path ∈ D.tree.subtree D.target :=
    D.tree.mem_subtree.mpr ⟨hvisits.here, hcallers.below⟩
  have hleft := stepsLeft_cons (D := D) hended hframes
  have hpos : D.steps ⟨path, some []⟩ = 1 := rfl
  rw [post_delete hframes]
  rcases delete_spec ⟨path, some []⟩ hvisits.accepts hleaf with
    ⟨hp, hdelete, -⟩ | ⟨hdelete, hgone⟩ | ⟨hdelete, hspecial⟩
  · rw [hdelete]
    refine ⟨h.returns hframes (Finset.erase_subset _ _) rfl ?_ hcallers (Finset.notMem_erase _ _), ?_⟩
    · intro q hq
      rcases List.mem_append.mp hq with hq | hq
      · exact h.deleted q hq
      · exact List.mem_singleton.mp hq ▸ hmine
    · exact Nat.lt_of_le_of_lt (stepsLeft_returns_le hframes) (by omega)
  · rw [hdelete]
    refine ⟨h.returns hframes (Finset.Subset.refl _) rfl h.deleted hcallers hgone, ?_⟩
    exact Nat.lt_of_le_of_lt (stepsLeft_returns_le hframes) (by omega)
  · rw [hdelete]
    refine ⟨{
      shrunk := h.shrunk
      special := h.special
      deleted := h.deleted
      stands := fun hne => absurd rfl (hne _)
      ended := fun hnil => absurd (hframes.symm.trans hnil) (List.cons_ne_nil _ _)
      returned := fun _ hv => by cases hv
      raised := fun e he => ?_ }, ?_⟩
    · obtain rfl := Except.error.inj (Option.some.inj he)
      exact ⟨rfl, _, hmine, h.special ▸ hspecial⟩
    · rw [stepsLeft, if_neg (by simp [DeletingState.raise])]
      omega

theorem holds_others (h : D.Holds s) {p : NodePath} (hen : D.enabled s (.others p)) :
    D.Holds (D.post s (.others p)) ∧ D.stepsLeft (D.post s (.others p)) = D.stepsLeft s := by
  obtain ⟨hmem, hp, hspecial, hleaf⟩ := hen
  have hpost : D.post s (.others p) = { s with tree := s.tree.remove p hp hleaf } := by
    simp only [post, delete_leaf hmem hp hspecial hleaf]
  have hsub : (s.tree.remove p hp hleaf).nodes ⊆ s.tree.nodes := Finset.erase_subset _ _
  rw [hpost]
  exact ⟨{ h with shrunk := hsub.trans h.shrunk, stands := fun hne => (h.stands hne).mono hsub }, rfl⟩

end

/-! ## Every run -/

/-- The steps that the call takes in a run come off those that it still has to take. -/
theorem holds_exec {s : DeletingState} {acts : List DeleteAct} (h : D.Holds s)
    (hlegal : D.deleting.Legal Machine.Free s acts) :
    D.Holds (D.deleting.exec s acts) ∧
      acts.countP DeleteAct.own + D.stepsLeft (D.deleting.exec s acts) ≤ D.stepsLeft s := by
  induction acts generalizing s with
  | nil => exact ⟨h, by simp [Machine.exec]⟩
  | cons act acts ih =>
    obtain ⟨hen, -, hlegal⟩ := hlegal
    have hstep : D.Holds (D.post s act) ∧
        D.stepsLeft (D.post s act) + (if act.own then 1 else 0) ≤ D.stepsLeft s := by
      cases act with
      | others p => exact ⟨(holds_others h hen).1, Nat.le_of_eq (holds_others h hen).2⟩
      | getChildren names => exact holds_getChildren h hen
      | visit => exact holds_visit h hen
      | delete => exact holds_delete h hen
    obtain ⟨hholds, hcount⟩ := ih hstep.1 hlegal
    refine ⟨hholds, ?_⟩
    rw [List.countP_cons]
    have := hstep.2
    show _ + _ + D.stepsLeft (D.deleting.exec (D.post s act) acts) ≤ _
    omega

/-- A call that has not ended can take a step. -/
theorem Holds.goes_on {D : RecursiveDelete} {s : DeletingState} (h : D.Holds s)
    (hended : s.ended = none) : ∃ act, act.own = true ∧ D.enabled s act := by
  match hframes : s.frames with
  | [] =>
    obtain ⟨value, hvalue⟩ := h.ended hframes
    rw [hended] at hvalue
    cases hvalue
  | ⟨path, none⟩ :: callers =>
    have hstands := h.stands (by simp [hended])
    rw [hframes] at hstands
    obtain ⟨wire, hwire, -⟩ := hstands.1.wire
    obtain ⟨names, hlists⟩ := s.tree.exists_lists (components slash wire)
    refine ⟨.getChildren names, rfl, hended, _, by rw [hframes]; rfl, rfl, ?_⟩
    simpa only [hwire] using hlists
  | ⟨path, some []⟩ :: callers =>
    exact ⟨.delete, rfl, hended, _, by rw [hframes]; rfl, rfl⟩
  | ⟨path, some (child :: names)⟩ :: callers =>
    exact ⟨.visit, rfl, hended, _, by rw [hframes]; rfl, _, rfl, List.cons_ne_nil _ _⟩

/-- Recursive deletion ends, raises no `NoNodeError`, and removes the subtree and nothing else. -/
theorem deleteRecursive_removes {chroot : Option PyStr} {out : PyStr} {acts : List DeleteAct}
    (hchroot : newChroot chroot = .ok D.client.chroot) (hpath : normpath D.path false = .ok out)
    (hlegal : D.deleting.Legal Machine.Free D.deleting.init acts) :
    let s := D.deleting.exec D.deleting.init acts
    acts.countP DeleteAct.own ≤ 3 * (D.tree.subtree D.target).card + 1 ∧
      (s.ended = none → ∃ act, act.own = true ∧ D.deleting.enabled s act) ∧
      (∀ e, s.ended = some (.error e) → e = .badArgumentsError ∧
        ∃ q ∈ D.tree.subtree D.target, q = [] ∨ D.tree.special q = true) ∧
      (∀ value, s.ended = some (.ok value) → ∀ q ∈ D.tree.subtree D.target, q ∉ s.tree.nodes) ∧
      ∀ q ∈ s.deleted, q ∈ D.tree.subtree D.target := by
  intro s
  obtain ⟨hholds, hcount⟩ := D.holds_exec (holds_init (Client.accepts_of_normpath hchroot hpath)) hlegal
  refine ⟨?_, hholds.goes_on, hholds.raised, fun value hvalue q hq hmem => ?_, hholds.deleted⟩
  · have hinit : D.stepsLeft D.deleting.init = D.steps ⟨D.path, none⟩ := by
      rw [stepsLeft_cons rfl rfl, List.map_nil, List.sum_nil, Nat.add_zero]
    have hsteps : D.steps ⟨D.path, none⟩ = max 1 (3 * (D.tree.subtree D.target).card - 1) := rfl
    omega
  · have hstands := hholds.stands fun e he => by
      have herror := hvalue.symm.trans he
      cases herror
    rw [hholds.returned value hvalue] at hstands
    exact hstands (s.tree.mem_of_isPrefix (D.tree.mem_subtree.mp hq).2 hmem)

/-- A node with one child, deleted under a path with more slashes than it needs. -/
def oneChild : RecursiveDelete where
  client := .new []
  path := str "a//"
  tree :=
    { nodes := {[], [str "a"], [str "a", str "b"], [str "c"]}
      root := by decide
      parent := fun p name h => by
        have hall : ∀ q ∈ ({[], [str "a"], [str "a", str "b"], [str "c"]} : Finset NodePath),
            q.dropLast ∈ ({[], [str "a"], [str "a", str "b"], [str "c"]} : Finset NodePath) := by
          decide +kernel
        simpa only [List.dropLast_concat] using hall _ h
      valid := by decide +kernel
      special := fun _ => false }

/-- Another client deletes the child after the call has listed it. -/
theorem deleteRecursive_removes_oneChild :
    let acts := [.getChildren [str "b"], .visit, .others [str "a", str "b"], .getChildren [],
      .delete]
    let s := oneChild.deleting.exec oneChild.deleting.init acts
    s.ended = some (.ok none) ∧ s.deleted = [[str "a"]] ∧
      ∀ q ∈ oneChild.tree.subtree oneChild.target, q ∉ s.tree.nodes := by
  have hpath : normpath (str "a//") false = .ok (str "a") := by decide +kernel
  have hchroot : newChroot none = .ok oneChild.client.chroot := rfl
  have hlegal : oneChild.deleting.Legal Machine.Free oneChild.deleting.init
      [.getChildren [str "b"], .visit, .others [str "a", str "b"], .getChildren [], .delete] := by
    decide +kernel
  have hremoves := oneChild.deleteRecursive_removes hchroot hpath hlegal
  exact ⟨by decide +kernel, by decide +kernel,
    hremoves.2.2.2.1 none (by decide +kernel)⟩

end RecursiveDelete

end Kazoo
