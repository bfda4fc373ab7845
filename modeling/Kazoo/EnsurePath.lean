import Kazoo.Lib.Machine
import Kazoo.MakePath

/-!
# `ensure_path` among other clients

`ensure_path_async` of `kazoo/client.py` with one request at a time on its way, and other clients
that create nodes between any two of them.
-/

namespace Kazoo

/-- `pending` are the paths of the `prepare_completion`s that wait, the next one first. -/
inductive EnsureStage
  -- the `Exists` of `exists_async(path)` is on its way
  | asking (path : PyStr) (pending : List PyStr)
  -- the `Create` of `create_async(path, acl=acl)`
  | creating (path : PyStr) (pending : List PyStr)
  -- the result that `ensure_path_async` returned is completed
  | done (result : Except Exn Unit)

structure Ensuring where
  tree : ServerTree
  stage : EnsureStage
  -- how many requests have been answered
  requests : Nat

inductive EnsureAct
  -- another client creates a node, if it can
  | other (p : NodePath) (n : StoredNode)
  -- the server answers the request that is on its way
  | own

/-- A result of `ensure_path_async` is completed: `prepare_completion` creates the next node. -/
def ensured : Except Exn Unit → List PyStr → EnsureStage
  | .ok _, [] => .done (.ok ())
  | .ok _, path :: pending => .creating path pending
  | .error e, _ => .done (.error e)

namespace Ensuring

/-- The answer, and what its completion does: `exists_completion` or `create_completion`. -/
def answer (c : Client) (s : Ensuring) : Ensuring :=
  match s.stage with
  | .asking path pending =>
    match c.existsAsync path s.tree with
    | .error e => ⟨s.tree, ensured (.error e) pending, s.requests + 1⟩
    | .ok true => ⟨s.tree, ensured (.ok ()) pending, s.requests + 1⟩
    | .ok false =>
      if (split path).2 ≠ [] then
        ⟨s.tree, .asking (split path).1 (path :: pending), s.requests + 1⟩
      else ⟨s.tree, .creating path pending, s.requests + 1⟩
  | .creating path pending =>
    let (result, tree) := Client.ensureCompletion (c.createOnly path ⟨some [], false⟩ s.tree)
    ⟨tree, ensured result pending, s.requests + 1⟩
  | .done _ => s

def createOther (p : NodePath) (n : StoredNode) (s : Ensuring) : Ensuring :=
  match s.tree.create p n with
  | .ok tree => { s with tree := tree }
  | .error _ => s

end Ensuring

/-- One call of `ensure_path`. -/
def ensuring (c : Client) (path : PyStr) (t : ServerTree) : Machine Ensuring EnsureAct where
  init := ⟨t, .asking path [], 0⟩
  enabled s
    | .other _ _ => True
    | .own => ∀ result, s.stage ≠ .done result
  post s
    | .other p n => s.createOther p n
    | .own => s.answer c

/-- The other clients create no ephemeral node above `p`. -/
def Permanent (p : NodePath) (_ : Ensuring) (a : EnsureAct) : Prop :=
  ∀ q n, a = .other q n → q <+: p → q ≠ p → n.ephemeral = false

theorem permanent_own (p : NodePath) (s : Ensuring) : Permanent p s .own := fun _ _ h => nomatch h

/-- More requests than that are not sent. -/
def ensureBound (path : PyStr) : Nat := 2 * path.length + 2

/-- What `ensure_path` is for. -/
structure Ensures (c : Client) (path : PyStr) (t : ServerTree) (s : Ensuring) : Prop where
  terminates : s.requests < ensureBound path ∨ ∃ result, s.stage = .done result
  succeeds : ∀ result, s.stage = .done result → result = .ok ()
  present : ∀ result, s.stage = .done result → ∀ k, k <+: c.nodePath path → s.tree.node k ≠ none
  keeps : ∀ k n, t.node k = some n → s.tree.node k = some n

/-! ## Termination -/

/-- How many requests there are still to come, at most. -/
def EnsureStage.ahead : EnsureStage → Nat
  | .asking path pending => 2 * path.length + pending.length + 2
  | .creating _ pending => pending.length + 1
  | .done _ => 0

section

variable {c : Client} {path : PyStr} {t : ServerTree} {s : Ensuring} {pending : List PyStr}
  {ok : Ensuring → EnsureAct → Prop}

theorem ahead_ensured (result : Except Exn Unit) (pending : List PyStr) :
    (ensured result pending).ahead ≤ pending.length := by
  cases result with
  | error e => exact Nat.zero_le _
  | ok u =>
    cases pending with
    | nil => exact le_refl 0
    | cons path pending => exact le_refl _

namespace Ensuring

theorem ahead_answer (h : ∀ result, s.stage ≠ .done result) :
    (s.answer c).stage.ahead < s.stage.ahead ∧ (s.answer c).requests = s.requests + 1 := by
  unfold answer
  cases hstage : s.stage with
  | asking path pending =>
    dsimp only
    have hdone (result : Except Exn Unit) :
        (ensured result pending).ahead < (EnsureStage.asking path pending).ahead := by
      have hle := ahead_ensured result pending
      show _ < 2 * path.length + pending.length + 2
      omega
    split
    · next e _ => exact ⟨hdone (.error e), rfl⟩
    · exact ⟨hdone (.ok ()), rfl⟩
    · split
      · next htail =>
        have hlength := length_split_le path
        have hpos := List.length_pos_iff.mpr htail
        refine ⟨?_, rfl⟩
        show 2 * (split path).1.length + (path :: pending).length + 2 <
          2 * path.length + pending.length + 2
        rw [List.length_cons]
        omega
      · refine ⟨?_, rfl⟩
        show pending.length + 1 < 2 * path.length + pending.length + 2
        omega
  | creating path pending =>
    exact ⟨Nat.lt_succ_of_le (ahead_ensured _ pending), rfl⟩
  | done result => exact absurd hstage (h result)

theorem createOther_stage (p : NodePath) (n : StoredNode) :
    (s.createOther p n).stage = s.stage ∧ (s.createOther p n).requests = s.requests := by
  unfold createOther
  split <;> exact ⟨rfl, rfl⟩

end Ensuring

theorem requests_le (hr : (ensuring c path t).Reach ok s) :
    s.requests + s.stage.ahead ≤ ensureBound path := by
  refine hr.invariant (P := fun s => s.requests + s.stage.ahead ≤ ensureBound path) ?_ ?_
  · exact le_of_eq (Nat.zero_add _)
  · intro s a _ ih hen _
    cases a with
    | other p n =>
      obtain ⟨hstage, hrequests⟩ := s.createOther_stage p n
      show (s.createOther p n).requests + (s.createOther p n).stage.ahead ≤ _
      rwa [hstage, hrequests]
    | own =>
      obtain ⟨hahead, hrequests⟩ := Ensuring.ahead_answer (c := c) hen
      show (s.answer c).requests + (s.answer c).stage.ahead ≤ _
      omega

/-- Any run can be continued, by the answers alone, until the result is completed. -/
theorem exists_done (hr : (ensuring c path t).Reach ok s) (hown : ∀ s, ok s .own) :
    ∃ s', (ensuring c path t).Reach ok s' ∧ ∃ result, s'.stage = .done result := by
  induction hahead : s.stage.ahead using Nat.strong_induction_on generalizing s with
  | _ m ih =>
    by_cases hdone : ∃ result, s.stage = .done result
    · exact ⟨s, hr, hdone⟩
    · have hen : ∀ result, s.stage ≠ .done result := fun result h => hdone ⟨result, h⟩
      have hless := (Ensuring.ahead_answer (c := c) hen).1
      have hnext : (ensuring c path t).Reach ok (s.answer c) :=
        Machine.Reach.step (a := EnsureAct.own) hr hen (hown s)
      exact ih _ (hahead ▸ hless) hnext rfl

/-! ## Success -/

/-- From the request for `path` the calls go back to that for `top`. -/
def Descends (top : PyStr) : PyStr → List PyStr → Prop
  | path, [] => path = top
  | path, next :: pending => (split next).2 ≠ [] ∧ (split next).1 = path ∧ Descends top next pending

namespace Descends

variable {top : PyStr}

theorem prefix_nodePath (h : Descends top path pending) : c.nodePath path <+: c.nodePath top := by
  induction pending generalizing path with
  | nil =>
    obtain rfl : path = top := h
    exact List.prefix_refl _
  | cons next pending ih =>
    obtain ⟨htail, rfl, h⟩ := h
    have hsplit := c.nodePath_split next
    rw [if_neg htail] at hsplit
    exact (hsplit ▸ List.prefix_append _ _).trans (ih h)

theorem accepts (h : Descends top path pending) (htop : c.Accepts top) : c.Accepts path := by
  induction pending generalizing path with
  | nil =>
    obtain rfl : path = top := h
    exact htop
  | cons next pending ih =>
    obtain ⟨-, rfl, h⟩ := h
    exact (ih h).split

/-- Only the path that the caller gave may end in a slash. -/
theorem stripped (h : Descends top path pending) : path = top ∨ Stripped path := by
  cases pending with
  | nil => exact .inl h
  | cons next pending => exact .inr (h.2.1 ▸ stripped_split next)

end Descends

/-- The parent of a node that is to be created is there. -/
def StageSound (c : Client) (top : PyStr) (t : ServerTree) : EnsureStage → Prop
  | .asking path pending => Descends top path pending
  | .creating path pending => Descends top path pending ∧ t.node (c.nodePath path).dropLast ≠ none
  | .done result => result = .ok () ∧ t.node (c.nodePath top) ≠ none

/-- `t` is the tree at the beginning. -/
structure Sound (c : Client) (top : PyStr) (t : ServerTree) (s : Ensuring) : Prop where
  keeps : ∀ k n, t.node k = some n → s.tree.node k = some n
  habitable : s.tree.Habitable (c.nodePath top)
  stage : StageSound c top s.tree s.stage

/-- What has to hold at the beginning. -/
structure Startable (c : Client) (top : PyStr) (t : ServerTree) : Prop where
  habitable : t.Habitable (c.nodePath top)
  parent : endswithSlash top = true → t.node (c.nodePath top).dropLast ≠ none

theorem StageSound.mono {t' : ServerTree} {top : PyStr} {stage : EnsureStage}
    (h : StageSound c top t stage) (hkeeps : ∀ k, t.node k ≠ none → t'.node k ≠ none) :
    StageSound c top t' stage := by
  cases stage with
  | asking path pending => exact h
  | creating path pending => exact ⟨h.1, hkeeps _ h.2⟩
  | done result => exact ⟨h.1, hkeeps _ h.2⟩

/-- A node is there, so the result for its path is completed. -/
theorem stageSound_ensured {top : PyStr} (h : Descends top path pending)
    (hnode : t.node (c.nodePath path) ≠ none) : StageSound c top t (ensured (.ok ()) pending) := by
  cases pending with
  | nil =>
    obtain rfl : path = top := h
    exact ⟨rfl, hnode⟩
  | cons next pending =>
    obtain ⟨htail, rfl, h⟩ := h
    refine ⟨h, ?_⟩
    have hsplit := c.nodePath_split next
    rw [if_neg htail] at hsplit
    rwa [hsplit, List.dropLast_concat]

/-- What a `Create` that the server carries out leaves unchanged. -/
theorem ServerTree.create_eq_ok {t' : ServerTree} {p : NodePath} {n : StoredNode}
    (h : t.create p n = .ok t') :
    t.node p = none ∧ ∀ q, t'.node q = if q = p then some n else t.node q := by
  by_cases hfree : t.node p = none
  · refine ⟨hfree, ?_⟩
    rcases create_free n hfree with ⟨t'', hcreate, hnode⟩ | ⟨e, -, hcreate⟩
    · obtain rfl := Except.ok.inj (h.symm.trans hcreate)
      exact hnode
    · rw [hcreate] at h
      cases h
  · rw [create_existing hfree] at h
    cases h

/-- Another node, and not an ephemeral one above `p`. -/
theorem ServerTree.Habitable.created {t' : ServerTree} {p q : NodePath} {n : StoredNode}
    (h : t.Habitable p) (hnode : ∀ k, t'.node k = if k = q then some n else t.node k)
    (hplain : q <+: p → q ≠ p → n.ephemeral = false) : t'.Habitable p := by
  intro k hk hne m hm
  rw [hnode] at hm
  split at hm
  · next hkq =>
    obtain rfl := Option.some.inj hm
    exact hplain (hkq ▸ hk) (hkq ▸ hne)
  · exact h k hk hne m hm

/-- A tree that has come to hold one more node, or is as it was. -/
theorem Sound.grown {top : PyStr} {t' : ServerTree} {stage : EnsureStage} {requests : Nat}
    {q : NodePath} {n : StoredNode} (h : Sound c top t s) (hfree : s.tree.node q = none)
    (hnode : ∀ k, t'.node k = if k = q then some n else s.tree.node k)
    (hplain : q <+: c.nodePath top → q ≠ c.nodePath top → n.ephemeral = false)
    (hstage : StageSound c top t' stage) : Sound c top t ⟨t', stage, requests⟩ where
  keeps k m hk := by
    have hnow := h.keeps k m hk
    have hne : k ≠ q := by
      rintro rfl
      exact nomatch hfree.symm.trans hnow
    rw [hnode, if_neg hne, hnow]
  habitable := h.habitable.created hnode hplain
  stage := hstage

theorem keeps_of_created {t' : ServerTree} {q : NodePath} {n : StoredNode}
    (hnode : ∀ k, t'.node k = if k = q then some n else t.node k) (k : NodePath)
    (h : t.node k ≠ none) : t'.node k ≠ none := by
  rw [hnode]
  split
  · exact Option.some_ne_none n
  · exact h

theorem Sound.other {top : PyStr} (h : Sound c top t s) {q : NodePath} {n : StoredNode}
    (hplain : q <+: c.nodePath top → q ≠ c.nodePath top → n.ephemeral = false) :
    Sound c top t (s.createOther q n) := by
  unfold Ensuring.createOther
  cases hcreate : s.tree.create q n with
  | error e => exact h
  | ok t' =>
    obtain ⟨hfree, hnode⟩ := ServerTree.create_eq_ok hcreate
    exact h.grown hfree hnode hplain (h.stage.mono (keeps_of_created hnode))

/-- The answer to `exists`. -/
theorem Sound.asked {top : PyStr} (h : Sound c top t s) (hstage : s.stage = .asking path pending)
    (haccepts : c.Accepts top) (hchroot : t.node (components slash c.chroot) ≠ none)
    (hstart : Startable c top t) : Sound c top t (s.answer c) := by
  have hdescends : Descends top path pending := by
    have hsound := h.stage
    rw [hstage] at hsound
    exact hsound
  have hpresent : ∀ k, t.node k ≠ none → s.tree.node k ≠ none := by
    intro k hk
    obtain ⟨n, hn⟩ := Option.ne_none_iff_exists'.mp hk
    rw [h.keeps k n hn]
    exact Option.some_ne_none n
  unfold Ensuring.answer
  rw [hstage]
  dsimp only
  rw [(hdescends.accepts haccepts).existsAsync]
  cases hnode : s.tree.node (c.nodePath path) with
  | some n =>
    have hthere : s.tree.node (c.nodePath path) ≠ none := by
      rw [hnode]
      exact Option.some_ne_none n
    exact ⟨h.keeps, h.habitable, stageSound_ensured hdescends hthere⟩
  | none =>
    dsimp only [Option.isSome]
    by_cases htail : (split path).2 = []
    · rw [if_neg (not_not.mpr htail)]
      refine ⟨h.keeps, h.habitable, hdescends, ?_⟩
      -- a path without components is the chroot, which is there
      have hne : path ≠ [] := by
        rintro rfl
        rw [Client.nodePath, components_nil, List.append_nil] at hnode
        exact hpresent _ hchroot hnode
      have hslash := (split_snd_eq_nil_iff hne).mp htail
      rcases hdescends.stripped with rfl | hstripped
      · exact hpresent _ (hstart.parent hslash)
      · rw [Client.nodePath, hstripped hslash, List.append_nil] at hnode
        exact absurd hnode (hpresent _ hchroot)
    · rw [if_pos htail]
      exact ⟨h.keeps, h.habitable, htail, rfl, hdescends⟩

/-- The answer to `create`: the node is made, or another client has made it. -/
theorem Sound.created {top : PyStr} (h : Sound c top t s) (hstage : s.stage = .creating path pending)
    (haccepts : c.Accepts top) : Sound c top t (s.answer c) := by
  obtain ⟨hdescends, hparent⟩ : Descends top path pending ∧
      s.tree.node (c.nodePath path).dropLast ≠ none := by
    have hsound := h.stage
    rw [hstage] at hsound
    exact hsound
  obtain ⟨wire, honly⟩ := (hdescends.accepts haccepts).createOnly ⟨some [], false⟩ s.tree
  unfold Ensuring.answer
  rw [hstage]
  dsimp only
  rw [honly]
  by_cases hfree : s.tree.node (c.nodePath path) = none
  · obtain ⟨parent, hsome⟩ := Option.ne_none_iff_exists'.mp hparent
    have heph : parent.ephemeral = false := by
      have hne : c.nodePath path ≠ [] := by
        intro hnil
        rw [hnil] at hfree
        exact s.tree.root hfree
      have hprefix : (c.nodePath path).dropLast <+: c.nodePath top :=
        (List.dropLast_prefix _).trans hdescends.prefix_nodePath
      refine h.habitable _ hprefix (fun heq => ?_) parent hsome
      have hbelow : c.nodePath path <+: c.nodePath top := hdescends.prefix_nodePath
      have hlength := hbelow.length_le
      rw [← heq, List.length_dropLast] at hlength
      have hpos := List.length_pos_iff.mpr hne
      omega
    obtain ⟨t', hcreate, hnode⟩ := ServerTree.create_under (n := ⟨some [], false⟩) hfree hsome heph
    have hthere : t'.node (c.nodePath path) ≠ none := by
      rw [hnode, if_pos rfl]
      exact Option.some_ne_none _
    rw [hcreate]
    exact h.grown hfree hnode (fun _ _ => rfl) (stageSound_ensured hdescends hthere)
  · rw [ServerTree.create_existing hfree]
    exact ⟨h.keeps, h.habitable, stageSound_ensured hdescends hfree⟩

theorem sound_of_reach (hr : (ensuring c path t).Reach (Permanent (c.nodePath path)) s)
    (haccepts : c.Accepts path) (hchroot : t.node (components slash c.chroot) ≠ none)
    (hstart : Startable c path t) : Sound c path t s := by
  have hinit : Sound c path t (ensuring c path t).init :=
    ⟨fun _ _ h => h, hstart.habitable, show Descends path path [] from rfl⟩
  refine hr.invariant hinit ?_
  intro s a _ ih hen hplain
  cases a with
  | other q n => exact ih.other (hplain q n rfl)
  | own =>
    cases hstage : s.stage with
    | asking path' pending => exact ih.asked hstage haccepts hchroot hstart
    | creating path' pending => exact ih.created hstage haccepts
    | done result => exact absurd hstage (hen result)

theorem Sound.ensures (h : Sound c path t s)
    (hr : (ensuring c path t).Reach ok s) : Ensures c path t s where
  terminates := by
    have hle := requests_le hr
    cases hstage : s.stage with
    | asking path' pending =>
      left
      rw [hstage] at hle
      change s.requests + (2 * path'.length + pending.length + 2) ≤ ensureBound path at hle
      omega
    | creating path' pending =>
      left
      rw [hstage] at hle
      change s.requests + (pending.length + 1) ≤ ensureBound path at hle
      omega
    | done result => exact .inr ⟨result, rfl⟩
  succeeds result hdone := by
    have hsound := h.stage
    rw [hdone] at hsound
    exact hsound.1
  present result hdone k hk := by
    have hsound := h.stage
    rw [hdone] at hsound
    obtain ⟨below, hbelow⟩ := hk
    by_cases hempty : below = []
    · rw [hempty, List.append_nil] at hbelow
      exact hbelow ▸ hsound.2
    · have hthere : s.tree.node (k ++ below) ≠ none := hbelow ▸ hsound.2
      obtain ⟨n, hn, -⟩ := ServerTree.above hthere hempty
      rw [hn]
      exact Option.some_ne_none n
  keeps := h.keeps

/-! ## Failure -/

/-- The parent of a node with a slash at the end of its path is missing: one `Exists` and one
`Create`, whatever other clients might have done. -/
theorem fails_of_slash (haccepts : c.Accepts path) (hslash : endswithSlash path = true)
    (hparent : t.node (c.nodePath path).dropLast = none) (hown : ∀ s, ok s .own) :
    ∃ s, (ensuring c path t).Reach ok s ∧ s.stage = .done (.error .noNodeError) := by
  have hfree : t.node (c.nodePath path) = none := by
    by_contra hnode
    have hne : c.nodePath path ≠ [] := by
      intro hnil
      rw [hnil] at hparent
      exact t.root hparent
    obtain ⟨n, hn, -⟩ := t.parent _ hne hnode
    exact nomatch hparent.symm.trans hn
  have hpath : path ≠ [] := by
    rintro rfl
    cases hslash
  have htail := (split_snd_eq_nil_iff hpath).mpr hslash
  have hasked : Ensuring.answer c ⟨t, .asking path [], 0⟩ = ⟨t, .creating path [], 1⟩ := by
    unfold Ensuring.answer
    dsimp only
    rw [haccepts.existsAsync, hfree]
    dsimp only [Option.isSome]
    rw [if_neg (not_not.mpr htail)]
  have hcreated : Ensuring.answer c ⟨t, .creating path [], 1⟩ =
      ⟨t, .done (.error .noNodeError), 2⟩ := by
    obtain ⟨wire, honly⟩ := haccepts.createOnly ⟨some [], false⟩ t
    rw [ServerTree.create_orphan hparent] at honly
    unfold Ensuring.answer
    dsimp only
    rw [honly]
    rfl
  have hfirst : (ensuring c path t).Reach ok ⟨t, .creating path [], 1⟩ :=
    hasked ▸ Machine.Reach.step (a := EnsureAct.own) .init
      (fun _ h => nomatch h) (hown _)
  have hsecond : (ensuring c path t).Reach ok ⟨t, .done (.error .noNodeError), 2⟩ :=
    hcreated ▸ Machine.Reach.step (a := EnsureAct.own) hfirst
      (fun _ h => nomatch h) (hown _)
  exact ⟨_, hsecond, rfl⟩

/-- Under an ephemeral node nothing can be created. -/
theorem habitable_of_ensures (hown : ∀ s, ok s .own)
    (h : ∀ s, (ensuring c path t).Reach ok s → Ensures c path t s) :
    t.Habitable (c.nodePath path) := by
  obtain ⟨s, hr, result, hdone⟩ := exists_done (c := c) (t := t) .init hown
  have hensures := h s hr
  have hthere := hensures.present result hdone _ (List.prefix_refl _)
  intro k hk hne n hn
  exact ServerTree.habitable_of_node hthere k hk hne n (hensures.keeps k n hn)

end

/-- Among other clients that create nodes, but no ephemeral one above, a call of `ensure_path` comes
to an end with the node and all that is above it there, if there is no ephemeral node above it and,
for a path with a slash at its end, if the parent is there from the beginning; and not otherwise. -/
theorem ensure_path_ensures_iff (c : Client) (t : ServerTree) {chroot : Option PyStr}
    {path out : PyStr} (hchroot : newChroot chroot = .ok c.chroot)
    (hpresent : t.node (components slash c.chroot) ≠ none) (hpath : normpath path false = .ok out) :
    (∀ s, (ensuring c path t).Reach (Permanent (c.nodePath path)) s → Ensures c path t s) ↔
      t.Habitable (c.nodePath path) ∧
        (endswithSlash path = true → t.node (c.nodePath path).dropLast ≠ none) := by
  have haccepts := Client.accepts_of_normpath hchroot hpath
  have hown := permanent_own (c.nodePath path)
  constructor
  · intro h
    refine ⟨habitable_of_ensures hown h, fun hslash hparent => ?_⟩
    obtain ⟨s, hr, hdone⟩ := fails_of_slash haccepts hslash hparent hown
    cases (h s hr).succeeds _ hdone
  · rintro ⟨hhabitable, hparent⟩ s hr
    exact (sound_of_reach hr haccepts hpresent ⟨hhabitable, hparent⟩).ensures hr

/-- Repeated slashes, in a path that is not absolute. -/
theorem ensure_path_ensures_slashed :
    ∃ s, Ensures (.new []) (str "a//b") Client.onlyRoot s ∧ s.stage = .done (.ok ()) := by
  have hpath : normpath (str "a//b") false = .ok (str "a/b") := by decide +kernel
  have hchroot : newChroot none = .ok (Client.new []).chroot := rfl
  have hall := (ensure_path_ensures_iff (.new []) Client.onlyRoot hchroot (by decide) hpath).mpr
    ⟨Client.habitable_onlyRoot _, by decide⟩
  obtain ⟨s, hr, result, hdone⟩ :
      ∃ s, (ensuring (.new []) (str "a//b") Client.onlyRoot).Reach (Permanent _) s ∧ _ :=
    exists_done .init (permanent_own ((Client.new []).nodePath (str "a//b")))
  obtain rfl := (hall s hr).succeeds result hdone
  exact ⟨s, hall s hr, hdone⟩

/-- With a slash at the end, the node is created without its parent. -/
theorem ensure_path_fails_slash :
    ¬ ∀ (t : ServerTree) (path out : PyStr), normpath path false = .ok out →
      ∀ s, (ensuring (.new []) path t).Reach (Permanent ((Client.new []).nodePath path)) s →
        Ensures (.new []) path t s := by
  intro h
  have hpath : normpath (str "/a/b/") false = .ok (str "/a/b") := by decide +kernel
  have hchroot : newChroot none = .ok (Client.new []).chroot := rfl
  have haccepts := Client.accepts_of_normpath hchroot hpath
  obtain ⟨s, hr, hdone⟩ := fails_of_slash (t := Client.onlyRoot) haccepts (by decide +kernel)
    (by decide +kernel) (permanent_own ((Client.new []).nodePath (str "/a/b/")))
  cases (h Client.onlyRoot (str "/a/b/") (str "/a/b") hpath s hr).succeeds _ hdone

end Kazoo
