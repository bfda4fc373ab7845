import Kazoo.Chroot
import Mathlib.Data.List.DropRight

/-!
# `create` with `makepath`

`create_async` and `ensure_path_async` of `kazoo/client.py`, against a server that nobody else uses
and that refuses nothing but what its tree forbids.  The completions are followed in the order in
which they are called.
-/

namespace Kazoo

/-! ## The tree of the server -/

/-- A path on the server, by its components. -/
abbrev NodePath := List PyStr

structure StoredNode where
  value : Option Bytes
  ephemeral : Bool
  deriving DecidableEq, Repr

/-- Every node but `/` has a parent, which is not ephemeral. -/
structure ServerTree where
  node : NodePath → Option StoredNode
  root : node [] ≠ none
  parent : ∀ p, p ≠ [] → node p ≠ none → ∃ n, node p.dropLast = some n ∧ n.ephemeral = false

namespace ServerTree

/-- The tree with one more node. -/
def insert (t : ServerTree) (p : NodePath) (n : StoredNode) (hfree : t.node p = none)
    (hparent : ∃ parent, t.node p.dropLast = some parent ∧ parent.ephemeral = false) :
    ServerTree where
  node q := if q = p then some n else t.node q
  root := by
    split
    · exact Option.some_ne_none n
    · exact t.root
  parent q hq hnode := by
    obtain ⟨m, hm, heph⟩ : ∃ m, t.node q.dropLast = some m ∧ m.ephemeral = false := by
      by_cases hqp : q = p
      · exact hqp ▸ hparent
      · rw [if_neg hqp] at hnode
        exact t.parent q hq hnode
    refine ⟨m, ?_, heph⟩
    rw [if_neg, hm]
    rintro h
    rw [h, hfree] at hm
    cases hm

/-- The server carries out a `Create`. -/
def create (t : ServerTree) (p : NodePath) (n : StoredNode) : Except Exn ServerTree :=
  match hparent : t.node p.dropLast with
  | none => .error .noNodeError
  | some parent =>
    if hfree : t.node p = none then
      if heph : parent.ephemeral = false then .ok (t.insert p n hfree ⟨parent, hparent, heph⟩)
      else .error .noChildrenForEphemeralsError
    else .error .nodeExistsError

variable {t t' : ServerTree} {p q : NodePath} {n parent : StoredNode}

theorem create_orphan (hparent : t.node p.dropLast = none) :
    t.create p n = .error .noNodeError := by
  unfold create
  split
  · rfl
  · next h => rw [h] at hparent; cases hparent

theorem create_existing (hnode : t.node p ≠ none) : t.create p n = .error .nodeExistsError := by
  have hparent : t.node p.dropLast ≠ none := by
    by_cases hp : p = []
    · exact hp ▸ t.root
    · obtain ⟨m, hm, -⟩ := t.parent p hp hnode
      exact fun h => nomatch hm.symm.trans h
  unfold create
  split
  · next h => exact absurd h hparent
  · rw [dif_neg hnode]

theorem create_under_ephemeral (hfree : t.node p = none) (hparent : t.node p.dropLast = some parent)
    (heph : parent.ephemeral = true) : t.create p n = .error .noChildrenForEphemeralsError := by
  unfold create
  split
  · next h => exact nomatch hparent.symm.trans h
  · next m hm =>
    obtain rfl := Option.some.inj (hparent.symm.trans hm)
    rw [dif_pos hfree, dif_neg (by rw [heph]; decide)]

theorem create_under (hfree : t.node p = none) (hparent : t.node p.dropLast = some parent)
    (heph : parent.ephemeral = false) :
    ∃ t', t.create p n = .ok t' ∧ ∀ q, t'.node q = if q = p then some n else t.node q := by
  unfold create
  split
  · next h => exact nomatch hparent.symm.trans h
  · next m hm =>
    obtain rfl := Option.some.inj (hparent.symm.trans hm)
    rw [dif_pos hfree, dif_pos heph]
    exact ⟨_, rfl, fun q => rfl⟩

/-- What the server answers where there is no node. -/
theorem create_free (n : StoredNode) (hfree : t.node p = none) :
    (∃ t', t.create p n = .ok t' ∧ ∀ q, t'.node q = if q = p then some n else t.node q) ∨
      ∃ e, e ≠ .nodeExistsError ∧ t.create p n = .error e := by
  cases hparent : t.node p.dropLast with
  | none => exact .inr ⟨_, by decide, create_orphan hparent⟩
  | some parent =>
    cases heph : parent.ephemeral with
    | true => exact .inr ⟨_, by decide, create_under_ephemeral hfree hparent heph⟩
    | false => exact .inl (create_under hfree hparent heph)

/-- What is above a node is there, and not ephemeral. -/
theorem above (h : t.node (p ++ q) ≠ none) (hq : q ≠ []) :
    ∃ n, t.node p = some n ∧ n.ephemeral = false := by
  induction q using List.reverseRecOn with
  | nil => exact absurd rfl hq
  | append_singleton q a ih =>
    have hne : p ++ (q ++ [a]) ≠ [] := by simp
    obtain ⟨m, hm, heph⟩ := t.parent _ hne h
    have hlast : (p ++ (q ++ [a])).dropLast = p ++ q := by
      rw [← List.append_assoc, List.dropLast_concat]
    rw [hlast] at hm
    by_cases hempty : q = []
    · subst hempty
      rw [List.append_nil] at hm
      exact ⟨m, hm, heph⟩
    · exact ih (by rw [hm]; exact Option.some_ne_none m) hempty

/-- No node above `p` is ephemeral. -/
def Habitable (t : ServerTree) (p : NodePath) : Prop :=
  ∀ k, k <+: p → k ≠ p → ∀ n, t.node k = some n → n.ephemeral = false

theorem habitable_of_node (h : t.node p ≠ none) : t.Habitable p := by
  rintro k ⟨q, rfl⟩ hne n hn
  have hq : q ≠ [] := by
    rintro rfl
    exact hne (List.append_nil k).symm
  obtain ⟨m, hm, heph⟩ := above h hq
  obtain rfl := Option.some.inj (hn.symm.trans hm)
  exact heph

theorem habitable_concat_iff {a : PyStr} :
    t.Habitable (p ++ [a]) ↔ t.Habitable p ∧ ∀ n, t.node p = some n → n.ephemeral = false := by
  constructor
  · intro h
    refine ⟨fun k hk hne => h k (hk.trans (List.prefix_append p [a])) ?_,
      h p (List.prefix_append p [a]) (by simp)⟩
    rintro rfl
    have hlength := hk.length_le
    rw [List.length_append, List.length_singleton] at hlength
    omega
  · rintro ⟨habove, hp⟩ k hk hne n hn
    rcases List.prefix_concat_iff.mp hk with rfl | hk
    · exact absurd rfl hne
    · by_cases hkp : k = p
      · exact hp n (hkp ▸ hn)
      · exact habove k hk hkp n hn

/-- `t'` is `t` with what was missing of `p` and above it, all empty. -/
def Filled (t : ServerTree) (p : NodePath) (t' : ServerTree) : Prop :=
  ∀ k, t'.node k = if k <+: p ∧ t.node k = none then some ⟨some [], false⟩ else t.node k

theorem Filled.self (h : t.node p ≠ none) : t.Filled p t := by
  intro k
  rw [if_neg]
  rintro ⟨⟨q, rfl⟩, hk⟩
  by_cases hq : q = []
  · subst hq
    rw [List.append_nil] at h
    exact h hk
  · obtain ⟨m, hm, -⟩ := above h hq
    exact nomatch hm.symm.trans hk

theorem Filled.node_of_some (h : t.Filled p t') (hq : t.node q = some n) : t'.node q = some n := by
  rw [h, if_neg, hq]
  rintro ⟨-, hnone⟩
  exact nomatch hq.symm.trans hnone

theorem Filled.node_next (h : t.Filled p t') {a : PyStr} (hfree : t.node (p ++ [a]) = none) :
    t'.node (p ++ [a]) = none := by
  rw [h, if_neg, hfree]
  rintro ⟨hstart, -⟩
  have hlength := hstart.length_le
  rw [List.length_append, List.length_singleton] at hlength
  omega

/-- When the nodes down to `p` are there, the next one can be created. -/
theorem Filled.exists_parent (h : t.Filled p t')
    (hhere : ∀ n, t.node p = some n → n.ephemeral = false) :
    ∃ n, t'.node p = some n ∧ n.ephemeral = false := by
  by_cases hp : t.node p = none
  · exact ⟨⟨some [], false⟩, by rw [h, if_pos ⟨List.prefix_refl p, hp⟩], rfl⟩
  · obtain ⟨n, hn⟩ := Option.ne_none_iff_exists'.mp hp
    exact ⟨n, h.node_of_some hn, hhere n hn⟩

theorem Filled.create_next (h : t.Filled p t') {a : PyStr} (hfree : t.node (p ++ [a]) = none)
    (hhere : ∀ n, t.node p = some n → n.ephemeral = false) :
    ∃ t₂, t'.create (p ++ [a]) ⟨some [], false⟩ = .ok t₂ ∧ t.Filled (p ++ [a]) t₂ := by
  obtain ⟨m, hm, heph⟩ := h.exists_parent hhere
  obtain ⟨t₂, hcreate, hnode⟩ := create_under (n := ⟨some [], false⟩) (h.node_next hfree)
    (by rw [List.dropLast_concat]; exact hm) heph
  refine ⟨t₂, hcreate, fun k => ?_⟩
  rw [hnode, h]
  by_cases hk : k = p ++ [a]
  · rw [if_pos hk, if_pos ⟨hk ▸ List.prefix_refl _, hk ▸ hfree⟩]
  · rw [if_neg hk]
    simp only [List.prefix_concat_iff, hk, false_or]

theorem Filled.node_self (h : t.Filled p t') (hfree : t.node p = none) :
    t'.node p = some ⟨some [], false⟩ := by
  rw [h, if_pos ⟨List.prefix_refl p, hfree⟩]

end ServerTree

/-! ## Paths -/

/-- `os.path.split`. -/
def split (path : PyStr) : PyStr × PyStr :=
  let head := path.rdropWhile (· ≠ slash)
  let tail := path.rtakeWhile (· ≠ slash)
  (if head.all (· = slash) then head else head.rdropWhile (· = slash), tail)

theorem components_rstrip (path : PyStr) :
    components slash (path.rdropWhile (· = slash)) = components slash path := by
  induction path using List.reverseRecOn with
  | nil => rfl
  | append_singleton path c ih =>
    by_cases hc : c = slash
    · subst hc
      rw [List.rdropWhile_concat_pos _ _ _ (by simp), ih, components_append_sep, components_nil,
        List.append_nil]
    · rw [List.rdropWhile_concat_neg _ _ _ (by simpa using hc)]

theorem notMem_split (path : PyStr) : slash ∉ (split path).2 := by
  intro h
  have h := List.mem_rtakeWhile_imp h
  simp at h

theorem length_split_le (path : PyStr) :
    (split path).1.length + (split path).2.length ≤ path.length := by
  have hsplit := congrArg List.length (List.rdropWhile_append_rtakeWhile (p := (· ≠ slash)) (l := path))
  rw [List.length_append] at hsplit
  have hhead : (split path).1.length ≤ (path.rdropWhile (· ≠ slash)).length := by
    unfold split
    dsimp only
    split
    · exact le_refl _
    · exact (List.rdropWhile_prefix _ _).length_le
  unfold split at hhead ⊢
  dsimp only at hhead ⊢
  omega

/-- The tail is the last component, if the path does not end in a slash. -/
theorem components_split (path : PyStr) :
    components slash path =
      components slash (split path).1 ++ if (split path).2 = [] then [] else [(split path).2] := by
  have hhead : components slash (split path).1 =
      components slash (path.rdropWhile (· ≠ slash)) := by
    unfold split
    dsimp only
    split
    · rfl
    · exact components_rstrip _
  have htail : components slash (split path).2 =
      if (split path).2 = [] then [] else [(split path).2] := by
    split
    · next h => rw [h, components_nil]
    · next h => exact components_of_notMem (notMem_split path) h
  have hpath : path = path.rdropWhile (· ≠ slash) ++ (split path).2 :=
    (List.rdropWhile_append_rtakeWhile (p := (· ≠ slash)) (l := path)).symm
  rw [hhead, ← htail]
  rcases List.eq_nil_or_concat' (path.rdropWhile (· ≠ slash)) with hnil | ⟨head, c, hconcat⟩
  · rw [hnil] at hpath ⊢
    rw [components_nil, List.nil_append, ← List.nil_append (split path).2, ← hpath]
  · -- the head ends in a slash
    have hc : c = slash := by
      have hne : path.rdropWhile (· ≠ slash) ≠ [] := by rw [hconcat]; simp
      have hlast := List.rdropWhile_last_not (· ≠ slash) path hne
      rw [List.getLast_congr hne (by simp) hconcat] at hlast
      simpa using hlast
    subst hc
    rw [hconcat, List.append_assoc, List.singleton_append] at hpath
    rw [hconcat, components_append_sep, components_nil, List.append_nil, ← components_append_sep,
      ← hpath]

theorem split_snd_eq_nil_iff {path : PyStr} (hpath : path ≠ []) :
    (split path).2 = [] ↔ endswithSlash path = true := by
  obtain ⟨front, c, rfl⟩ := (List.eq_nil_or_concat' path).resolve_left hpath
  simp [split, endswithSlash, List.rtakeWhile_concat]

/-- Only a path without components ends in a slash. -/
def Stripped (path : PyStr) : Prop := endswithSlash path = true → components slash path = []

theorem stripped_split (path : PyStr) : Stripped (split path).1 := by
  intro hslash
  unfold split at hslash ⊢
  dsimp only at hslash ⊢
  split at hslash
  · next hall =>
    rw [if_pos hall]
    exact components_eq_nil_iff.mpr fun a ha => of_decide_eq_true (List.all_eq_true.mp hall a ha)
  · -- `rstrip` leaves no slash at the end
    obtain ⟨front, hfront⟩ := List.getLast?_eq_some_iff.mp (beq_iff_eq.mp hslash)
    have hne : ((path.rdropWhile (· ≠ slash)).rdropWhile (· = slash)) ≠ [] := by
      rw [hfront]
      simp
    have hlast := List.rdropWhile_last_not (· = slash) (path.rdropWhile (· ≠ slash)) hne
    rw [List.getLast_congr hne (by simp) hfront, List.getLast_concat] at hlast
    exact absurd (decide_eq_true rfl) hlast

theorem Stripped.components_eq_nil {path : PyStr} (h : Stripped path) (htail : (split path).2 = []) :
    components slash path = [] := by
  by_cases hpath : path = []
  · rw [hpath, components_nil]
  · exact h ((split_snd_eq_nil_iff hpath).mp htail)

namespace Client

variable (c : Client)

/-- The node that the server is asked for under `path`. -/
def nodePath (path : PyStr) : NodePath := components slash c.chroot ++ components slash path

/-! ## The requests -/

/-- `exists_async`. -/
def existsAsync (path : PyStr) (t : ServerTree) : Except Exn Bool := do
  let wire ← prefixRoot c.chroot path false
  return (t.node (components slash wire)).isSome

/-- `_create_async_inner`, with the result that it leaves. -/
def createAsyncInner (path : PyStr) (n : StoredNode) (t : ServerTree) :
    Except Exn (PyStr × ServerTree) := do
  let wire ← prefixRoot c.chroot path false
  return (wire, ← t.create (components slash wire) n)

/-- `create_async` without `makepath`. -/
def createOnly (path : PyStr) (n : StoredNode) (t : ServerTree) : Except Exn PyStr × ServerTree :=
  match c.createAsyncInner path n t with
  | .ok (wire, t') => (.ok (c.unchroot wire), t')
  | .error e => (.error e, t)

/-- `create_completion` of `ensure_path_async`. -/
def ensureCompletion : Except Exn PyStr × ServerTree → Except Exn Unit × ServerTree
  | (.ok _, t) => (.ok (), t)
  | (.error e, t) => (if e = .nodeExistsError then .ok () else .error e, t)

/-- `ensure_path_async`. -/
def ensurePathAsync (path : PyStr) (t : ServerTree) : Except Exn Unit × ServerTree :=
  match c.existsAsync path t with
  | .error e => (.error e, t)
  | .ok true => (.ok (), t)
  | .ok false =>
    if (split path).2 ≠ [] then
      match ensurePathAsync (split path).1 t with
      | (.error e, t) => (.error e, t)
      | (.ok _, t) => ensureCompletion (c.createOnly path ⟨some [], false⟩ t)
    else ensureCompletion (c.createOnly path ⟨some [], false⟩ t)
  termination_by path.length
  decreasing_by
    have hlength := length_split_le path
    have htail : 0 < (split path).2.length := List.length_pos_iff.mpr ‹_›
    omega

/-- `create_async` with `makepath`.  `retry_completion` calls `do_create` again, at most `fuel`
times. -/
def createMakepath : (fuel : Nat) → PyStr → StoredNode → ServerTree →
    Option (Except Exn PyStr × ServerTree)
  | 0, _, _, _ => none
  | fuel + 1, path, n, t =>
    match c.createOnly path n t with
    | (.error e, t) =>
      if e = .noNodeError then
        match c.ensurePathAsync (split path).1 t with
        | (.error e, t) => some (.error e, t)
        | (.ok _, t) => createMakepath fuel path n t
      else some (.error e, t)
    | (.ok path, t) => some (.ok path, t)

/-! ## What the requests do -/

section

variable {c} {path : PyStr} {n : StoredNode} {t t' : ServerTree}

/-- `_prefix_root` accepts the path. -/
def Accepts (c : Client) (path : PyStr) : Prop := Proper (c.nodePath path)

theorem components_normpath {written out : PyStr} (h : normpath written false = .ok out) :
    Proper (components slash out) ∧ components slash out = components slash written := by
  obtain ⟨comps, hcomps, hout⟩ := bind_eq_ok h
  obtain ⟨hproper, rfl⟩ := newComps_eq_ok_iff.mp hcomps
  have hcut : components slash ([slash].intercalate (components slash written)) =
      components slash written := by
    by_cases hne : components slash written = []
    · rw [hne, List.intercalate_nil, components_nil]
    · rw [← components_sep, cons_intercalate hne]
      exact components_rooted fun comp hcomp => mem_components hcomp
  have hsame : components slash out = components slash written := by
    rw [← hcut, ← pure_inj hout, Bool.false_and, if_neg Bool.false_ne_true]
    split
    · exact components_sep _
    · rfl
  exact ⟨hsame ▸ hproper, hsame⟩

/-- `normpath` accepts the path, and `set_hosts` has accepted the chroot. -/
theorem accepts_of_normpath {chroot : Option PyStr} {out : PyStr}
    (hchroot : newChroot chroot = .ok c.chroot) (hpath : normpath path false = .ok out) :
    c.Accepts path := by
  have hpath : Proper (components slash path) :=
    (components_normpath hpath).2 ▸ (components_normpath hpath).1
  refine Proper.append_iff.mpr ⟨?_, hpath⟩
  have hempty : Proper (components slash []) := fun _ h => absurd h List.not_mem_nil
  cases chroot with
  | none => exact Except.ok.inj hchroot ▸ hempty
  | some written =>
    rw [newChroot] at hchroot
    split at hchroot
    · exact Except.ok.inj hchroot ▸ hempty
    · exact (components_normpath hchroot).1

theorem Accepts.wire (h : c.Accepts path) :
    ∃ wire, prefixRoot c.chroot path false = .ok wire ∧ components slash wire = c.nodePath path := by
  refine ⟨_, prefixRoot_eq_ok_iff.mpr ⟨h, rfl⟩, ?_⟩
  have hnames : ∀ comp ∈ c.nodePath path, comp ≠ [] ∧ slash ∉ comp := fun comp hcomp =>
    (List.mem_append.mp hcomp).elim mem_components mem_components
  show components slash (absolute (c.nodePath path) []) = c.nodePath path
  unfold absolute
  split
  · next hnil => rw [hnil, components_sep, components_nil]
  · rw [List.append_nil, components_rooted hnames]

theorem nodePath_split (c : Client) (path : PyStr) :
    c.nodePath path =
      c.nodePath (split path).1 ++ if (split path).2 = [] then [] else [(split path).2] := by
  rw [nodePath, components_split path, ← List.append_assoc]
  rfl

theorem Accepts.split (h : c.Accepts path) : c.Accepts (split path).1 := by
  unfold Accepts at h
  rw [nodePath_split] at h
  exact (Proper.append_iff.mp h).1

theorem Accepts.existsAsync (h : c.Accepts path) (t : ServerTree) :
    c.existsAsync path t = .ok (t.node (c.nodePath path)).isSome := by
  obtain ⟨wire, hwire, hcomps⟩ := h.wire
  rw [Client.existsAsync, hwire, ← hcomps]
  rfl

/-- The server's answer, with the path for the caller. -/
theorem Accepts.createOnly (h : c.Accepts path) (n : StoredNode) (t : ServerTree) :
    ∃ wire, c.createOnly path n t =
      match t.create (c.nodePath path) n with
      | .ok t' => (.ok (c.unchroot wire), t')
      | .error e => (.error e, t) := by
  obtain ⟨wire, hwire, hcomps⟩ := h.wire
  refine ⟨wire, ?_⟩
  rw [Client.createOnly, Client.createAsyncInner, hwire, ← hcomps]
  cases hcreate : t.create (components slash wire) n <;>
    simp only [bind, Except.bind, pure, Except.pure, hcreate]

/-! ### `ensure_path_async` -/

/-- If there is no ephemeral node above, the missing nodes are created. -/
theorem ensurePathAsync_of_habitable (haccepts : c.Accepts path) (hstripped : Stripped path)
    (hchroot : t.node (components slash c.chroot) ≠ none) (h : t.Habitable (c.nodePath path)) :
    ∃ t', c.ensurePathAsync path t = (.ok (), t') ∧ t.Filled (c.nodePath path) t' := by
  fun_induction Client.ensurePathAsync c path t with
  | case1 path e herror =>
    rw [haccepts.existsAsync] at herror
    cases herror
  | case2 path hexists =>
    rw [haccepts.existsAsync] at hexists
    have hnode := Option.isSome_iff_ne_none.mp (Except.ok.inj hexists)
    exact ⟨t, rfl, .self hnode⟩
  | case3 path hexists htail e t' hparent ih =>
    have hsplit := nodePath_split c path
    rw [if_neg htail] at hsplit
    rw [hsplit] at h
    obtain ⟨t'', hensured, -⟩ :=
      ih haccepts.split (stripped_split path) (ServerTree.habitable_concat_iff.mp h).1
    rw [hensured] at hparent
    cases hparent
  | case4 path hexists htail u t' hparent ih =>
    have hsplit := nodePath_split c path
    rw [if_neg htail] at hsplit
    rw [haccepts.existsAsync] at hexists
    have hfree := Option.isSome_eq_false_iff.mp (Except.ok.inj hexists)
    rw [hsplit] at h hfree
    obtain ⟨habove, hhere⟩ := ServerTree.habitable_concat_iff.mp h
    obtain ⟨t'', hensured, hfilled⟩ := ih haccepts.split (stripped_split path) habove
    obtain rfl : t'' = t' := (Prod.mk.inj (hensured.symm.trans hparent)).2
    obtain ⟨t₂, hcreate, hnode⟩ := hfilled.create_next (Option.isNone_iff_eq_none.mp hfree) hhere
    obtain ⟨wire, honly⟩ := haccepts.createOnly ⟨some [], false⟩ t''
    rw [hsplit, hcreate] at honly
    rw [honly, hsplit]
    exact ⟨t₂, rfl, hnode⟩
  | case5 path hexists htail =>
    -- a path without components is the chroot
    rw [haccepts.existsAsync, nodePath, hstripped.components_eq_nil (not_not.mp htail),
      List.append_nil, Option.isSome_iff_ne_none.mpr hchroot] at hexists
    cases hexists

/-- Under an ephemeral node nothing is created. -/
theorem ensurePathAsync_of_not_habitable (haccepts : c.Accepts path) (hstripped : Stripped path)
    (hchroot : t.node (components slash c.chroot) ≠ none) (h : ¬ t.Habitable (c.nodePath path)) :
    ∃ e, (c.ensurePathAsync path t).1 = .error e := by
  fun_induction Client.ensurePathAsync c path t with
  | case1 path e herror => exact ⟨e, rfl⟩
  | case2 path hexists =>
    rw [haccepts.existsAsync] at hexists
    have hnode := Option.isSome_iff_ne_none.mp (Except.ok.inj hexists)
    exact absurd (ServerTree.habitable_of_node hnode) h
  | case3 path hexists htail e t' hparent ih => exact ⟨e, rfl⟩
  | case4 path hexists htail u t' hparent ih =>
    have hsplit := nodePath_split c path
    rw [if_neg htail] at hsplit
    rw [haccepts.existsAsync] at hexists
    have hfree := Option.isNone_iff_eq_none.mp (Option.isSome_eq_false_iff.mp (Except.ok.inj hexists))
    rw [hsplit] at h hfree
    have hsafe : t.Habitable (c.nodePath (split path).1) := by
      by_contra hnot
      obtain ⟨e, he⟩ := ih haccepts.split (stripped_split path) hnot
      rw [hparent] at he
      cases he
    obtain ⟨t'', hensured, hfilled⟩ :=
      ensurePathAsync_of_habitable haccepts.split (stripped_split path) hchroot hsafe
    obtain rfl : t'' = t' := (Prod.mk.inj (hensured.symm.trans hparent)).2
    -- so it is the parent itself that is ephemeral
    obtain ⟨n, hn, heph⟩ : ∃ n, t.node (c.nodePath (split path).1) = some n ∧ n.ephemeral = true := by
      by_contra hnone
      refine h (ServerTree.habitable_concat_iff.mpr ⟨hsafe, fun n hn => ?_⟩)
      by_contra heph
      exact hnone ⟨n, hn, by simpa using heph⟩
    obtain ⟨wire, honly⟩ := haccepts.createOnly ⟨some [], false⟩ t''
    rw [hsplit, ServerTree.create_under_ephemeral (hfilled.node_next hfree)
      (by rw [List.dropLast_concat]; exact hfilled.node_of_some hn) heph] at honly
    exact ⟨.noChildrenForEphemeralsError, by rw [honly]; rfl⟩
  | case5 path hexists htail =>
    rw [haccepts.existsAsync, nodePath, hstripped.components_eq_nil (not_not.mp htail),
      List.append_nil, Option.isSome_iff_ne_none.mpr hchroot] at hexists
    cases hexists

/-! ### `create_async` -/

/-- The outcome is what `makepath` is for: a refusal because of the node itself, or the node as it
was asked for, with nothing else than what was missing above it. -/
structure Makes (t : ServerTree) (p : NodePath) (n : StoredNode) (result : Except Exn PyStr)
    (t' : ServerTree) : Prop where
  refused : result = .error .nodeExistsError → t.node p ≠ none
  returned : result ≠ .error .nodeExistsError → ∃ path, result = .ok path
  stored : result ≠ .error .nodeExistsError → t'.node p = some n
  others : result ≠ .error .nodeExistsError → ∀ k, k ≠ p → t'.node k ≠ t.node k →
    k <+: p ∧ t.node k = none

/-- When there is a node already, or else it can be reached without an ephemeral node above it, and
its parent exists if the path is written with a slash at its end. -/
def Makeable (t : ServerTree) (p : NodePath) (path : PyStr) : Prop :=
  t.node p ≠ none ∨
    t.Habitable p ∧ (endswithSlash path = true → t.node p.dropLast ≠ none)

theorem not_makes_of_error {p : NodePath} {e : Exn} (hfree : t.node p = none) :
    ¬ Makes t p n (.error e) t' := by
  intro h
  by_cases he : e = .nodeExistsError
  · exact h.refused (by rw [he]) hfree
  · obtain ⟨path, hpath⟩ := h.returned fun heq => he (Except.error.inj heq)
    cases hpath

/-- With enough turns the chain of completions comes to its end. -/
def Completes (c : Client) (path : PyStr) (n : StoredNode) (t : ServerTree)
    (result : Except Exn PyStr) (t' : ServerTree) : Prop :=
  ∀ fuel, 2 ≤ fuel → c.createMakepath fuel path n t = some (result, t')

theorem completes_of_createOnly {result : Except Exn PyStr}
    (h : c.createOnly path n t = (result, t')) (hnode : result ≠ .error .noNodeError) :
    c.Completes path n t result t' := by
  intro fuel hfuel
  obtain ⟨fuel, rfl⟩ : ∃ k, fuel = k + 1 := ⟨fuel - 1, by omega⟩
  rw [createMakepath, h]
  cases result with
  | ok path => rfl
  | error e =>
    dsimp only
    rw [if_neg fun he => hnode (by rw [he])]

theorem completes_of_ensured {t₁ : ServerTree} {result : Except Exn PyStr}
    (h : c.createOnly path n t = (.error .noNodeError, t))
    (hensured : c.ensurePathAsync (split path).1 t = (.ok (), t₁))
    (hagain : c.createOnly path n t₁ = (result, t')) (hnode : result ≠ .error .noNodeError) :
    c.Completes path n t result t' := by
  intro fuel hfuel
  obtain ⟨fuel, rfl⟩ : ∃ k, fuel = k + 2 := ⟨fuel - 2, by omega⟩
  rw [createMakepath, h]
  dsimp only
  rw [if_pos rfl, hensured]
  dsimp only
  rw [createMakepath, hagain]
  cases result with
  | ok path => rfl
  | error e =>
    dsimp only
    rw [if_neg fun he => hnode (by rw [he])]

theorem completes_of_not_ensured {e : Exn}
    (h : c.createOnly path n t = (.error .noNodeError, t))
    (hensured : c.ensurePathAsync (split path).1 t = (.error e, t')) :
    c.Completes path n t (.error e) t' := by
  intro fuel hfuel
  obtain ⟨fuel, rfl⟩ : ∃ k, fuel = k + 1 := ⟨fuel - 1, by omega⟩
  rw [createMakepath, h]
  dsimp only
  rw [if_pos rfl, hensured]

/-- The parent is there: the first `Create` decides. -/
theorem makes_iff_of_parent (haccepts : c.Accepts path) {parent : StoredNode}
    (hfree : t.node (c.nodePath path) = none)
    (hparent : t.node (c.nodePath path).dropLast = some parent) (hne : c.nodePath path ≠ []) :
    ∃ result t', c.Completes path n t result t' ∧
      (Makes t (c.nodePath path) n result t' ↔ Makeable t (c.nodePath path) path) := by
  obtain ⟨front, a, hconcat⟩ := (List.eq_nil_or_concat' (c.nodePath path)).resolve_left hne
  obtain ⟨wire, honly⟩ := haccepts.createOnly n t
  have hfront : t.node front = some parent := by
    rw [hconcat, List.dropLast_concat] at hparent
    exact hparent
  cases heph : parent.ephemeral with
  | true =>
    rw [ServerTree.create_under_ephemeral hfree hparent heph] at honly
    refine ⟨_, t, completes_of_createOnly honly (by decide), ?_⟩
    refine iff_of_false (not_makes_of_error hfree) ?_
    rintro (hnode | ⟨hsafe, -⟩)
    · exact hnode hfree
    · rw [hconcat] at hsafe
      have hplain := (ServerTree.habitable_concat_iff.mp hsafe).2 parent hfront
      rw [heph] at hplain
      cases hplain
  | false =>
    obtain ⟨t', hcreate, hnode⟩ := ServerTree.create_under (n := n) hfree hparent heph
    rw [hcreate] at honly
    refine ⟨_, t', completes_of_createOnly honly (by rintro ⟨⟩), iff_of_true ?_ ?_⟩
    · refine ⟨nofun, fun _ => ⟨_, rfl⟩, fun _ => by rw [hnode, if_pos rfl], fun _ k hk hchanged => ?_⟩
      rw [hnode, if_neg hk] at hchanged
      exact absurd rfl hchanged
    · refine .inr ⟨?_, fun _ => by rw [hparent]; exact Option.some_ne_none parent⟩
      rw [hconcat]
      refine ServerTree.habitable_concat_iff.mpr
        ⟨ServerTree.habitable_of_node (by rw [hfront]; exact Option.some_ne_none parent), ?_⟩
      intro m hm
      rw [hfront] at hm
      exact Option.some.inj hm ▸ heph

/-- The parent is missing, and `split` finds it. -/
theorem makes_iff_of_tail (haccepts : c.Accepts path)
    (hchroot : t.node (components slash c.chroot) ≠ none)
    (hfree : t.node (c.nodePath path) = none)
    (horphan : t.node (c.nodePath path).dropLast = none) (htail : (split path).2 ≠ []) :
    ∃ result t', c.Completes path n t result t' ∧
      (Makes t (c.nodePath path) n result t' ↔ Makeable t (c.nodePath path) path) := by
  have hsplit := nodePath_split c path
  rw [if_neg htail] at hsplit
  obtain ⟨wire, honly⟩ := haccepts.createOnly n t
  rw [ServerTree.create_orphan horphan] at honly
  rw [hsplit, List.dropLast_concat] at horphan
  have hsafe_iff : t.Habitable (c.nodePath path) ↔ t.Habitable (c.nodePath (split path).1) := by
    rw [hsplit, ServerTree.habitable_concat_iff, and_iff_left]
    intro m hm
    exact nomatch hm.symm.trans horphan
  by_cases hsafe : t.Habitable (c.nodePath (split path).1)
  · obtain ⟨t₁, hensured, hfilled⟩ :=
      ensurePathAsync_of_habitable haccepts.split (stripped_split path) hchroot hsafe
    obtain ⟨wire', hagain⟩ := haccepts.createOnly n t₁
    have hfree' := hfree
    rw [hsplit] at hfree'
    obtain ⟨t', hcreate, hnode⟩ := ServerTree.create_under (n := n) (hfilled.node_next hfree')
      (by rw [List.dropLast_concat]; exact hfilled.node_self horphan) rfl
    rw [hsplit, hcreate] at hagain
    refine ⟨_, t', completes_of_ensured honly hensured hagain (by rintro ⟨⟩), iff_of_true ?_ ?_⟩
    · rw [hsplit]
      refine ⟨nofun, fun _ => ⟨_, rfl⟩, fun _ => by rw [hnode, if_pos rfl], fun _ k hk hchanged => ?_⟩
      rw [hnode, if_neg hk, hfilled] at hchanged
      split at hchanged
      · next hnew => exact ⟨hnew.1.trans (List.prefix_append _ _), hnew.2⟩
      · exact absurd rfl hchanged
    · refine .inr ⟨hsafe_iff.mpr hsafe, fun hslash => ?_⟩
      have hpath : path ≠ [] := by
        rintro rfl
        exact htail rfl
      exact absurd ((split_snd_eq_nil_iff hpath).mpr hslash) htail
  · obtain ⟨e, he⟩ :=
      ensurePathAsync_of_not_habitable haccepts.split (stripped_split path) hchroot hsafe
    refine ⟨_, _, completes_of_not_ensured honly (Prod.ext he rfl), ?_⟩
    refine iff_of_false (not_makes_of_error hfree) ?_
    rintro (hnode | ⟨habove, -⟩)
    · exact hnode hfree
    · exact hsafe (hsafe_iff.mp habove)

/-- The parent is missing, and what `split` finds is the node itself. -/
theorem makes_iff_of_slash (haccepts : c.Accepts path)
    (hchroot : t.node (components slash c.chroot) ≠ none)
    (hfree : t.node (c.nodePath path) = none)
    (horphan : t.node (c.nodePath path).dropLast = none) (htail : (split path).2 = []) :
    ∃ result t', c.Completes path n t result t' ∧
      (Makes t (c.nodePath path) n result t' ↔ Makeable t (c.nodePath path) path) := by
  have hsame := nodePath_split c path
  rw [if_pos htail, List.append_nil] at hsame
  obtain ⟨wire, honly⟩ := haccepts.createOnly n t
  rw [ServerTree.create_orphan horphan] at honly
  have hpath : path ≠ [] := by
    rintro rfl
    rw [nodePath, components_nil, List.append_nil] at hfree
    exact hchroot hfree
  have hslash := (split_snd_eq_nil_iff hpath).mp htail
  have hnot : ¬ Makeable t (c.nodePath path) path := by
    rintro (hnode | ⟨-, hparent⟩)
    · exact hnode hfree
    · exact hparent hslash horphan
  by_cases hsafe : t.Habitable (c.nodePath (split path).1)
  · obtain ⟨t₁, hensured, hfilled⟩ :=
      ensurePathAsync_of_habitable haccepts.split (stripped_split path) hchroot hsafe
    -- it is there now, but empty
    have hmade : t₁.node (c.nodePath path) ≠ none := by
      rw [hsame, hfilled.node_self (hsame ▸ hfree)]
      exact Option.some_ne_none _
    obtain ⟨wire', hagain⟩ := haccepts.createOnly n t₁
    rw [ServerTree.create_existing hmade] at hagain
    exact ⟨_, t₁, completes_of_ensured honly hensured hagain (by decide),
      iff_of_false (not_makes_of_error hfree) hnot⟩
  · obtain ⟨e, he⟩ :=
      ensurePathAsync_of_not_habitable haccepts.split (stripped_split path) hchroot hsafe
    exact ⟨_, _, completes_of_not_ensured honly (Prod.ext he rfl),
      iff_of_false (not_makes_of_error hfree) hnot⟩

end

/-- Under every chroot that `set_hosts` makes and whose node exists, and for every path that
`normpath` accepts, `create` with `makepath` makes the node exactly when it is makeable. -/
theorem create_makepath_makes_iff (c : Client) (t : ServerTree) {chroot : Option PyStr}
    {path out : PyStr} (n : StoredNode) (hchroot : newChroot chroot = .ok c.chroot)
    (hpresent : t.node (components slash c.chroot) ≠ none) (hpath : normpath path false = .ok out) :
    ∃ result t', c.Completes path n t result t' ∧
      (Makes t (c.nodePath path) n result t' ↔ Makeable t (c.nodePath path) path) := by
  have haccepts := accepts_of_normpath hchroot hpath
  by_cases hfree : t.node (c.nodePath path) = none
  · cases hparent : t.node (c.nodePath path).dropLast with
    | some parent =>
      have hne : c.nodePath path ≠ [] := by
        intro hnil
        rw [hnil] at hfree
        exact t.root hfree
      exact makes_iff_of_parent haccepts hfree hparent hne
    | none =>
      by_cases htail : (split path).2 = []
      · exact makes_iff_of_slash haccepts hpresent hfree hparent htail
      · exact makes_iff_of_tail haccepts hpresent hfree hparent htail
  · obtain ⟨wire, honly⟩ := haccepts.createOnly n t
    rw [ServerTree.create_existing hfree] at honly
    refine ⟨_, t, completes_of_createOnly honly (by decide), iff_of_true ?_ (.inl hfree)⟩
    exact ⟨fun _ => hfree, fun h => absurd rfl h, fun h => absurd rfl h, fun h => absurd rfl h⟩

/-! ## A tree with nothing but `/` -/

def onlyRoot : ServerTree where
  node p := if p = [] then some ⟨some [], false⟩ else none
  root := by decide
  parent := fun p hp hnode => absurd (if_neg hp) hnode

theorem habitable_onlyRoot (p : NodePath) : onlyRoot.Habitable p := by
  intro k _ _ n hn
  simp only [onlyRoot] at hn
  split at hn
  · cases hn
    rfl
  · cases hn

/-- Repeated slashes do not matter. -/
theorem create_makepath_makes_twice_slashed :
    ∃ result t', (Client.new []).Completes (str "/a//b") ⟨some [120], true⟩ onlyRoot result t' ∧
      Makes onlyRoot [str "a", str "b"] ⟨some [120], true⟩ result t' := by
  have hpath : normpath (str "/a//b") false = .ok (str "/a/b") := by decide +kernel
  have hchroot : newChroot none = .ok (Client.new []).chroot := rfl
  obtain ⟨result, t', hcompletes, hmakes⟩ :=
    create_makepath_makes_iff (.new []) onlyRoot ⟨some [120], true⟩ hchroot (by decide) hpath
  have hmakeable : Makeable onlyRoot [str "a", str "b"] (str "/a//b") :=
    .inr ⟨habitable_onlyRoot _, by decide⟩
  exact ⟨result, t', hcompletes, hmakes.mpr hmakeable⟩

/-- A slash at the end does: the node is made by `ensure_path`, and then refused to its creator. -/
theorem create_makepath_refuses_own_node :
    ¬ ∀ (t : ServerTree) (path out : PyStr) (n : StoredNode), normpath path false = .ok out →
      ∃ result t', (Client.new []).Completes path n t result t' ∧
        Makes t ((Client.new []).nodePath path) n result t' := by
  intro h
  have hpath : normpath (str "/a/b/") false = .ok (str "/a/b") := by decide +kernel
  have hchroot : newChroot none = .ok (Client.new []).chroot := rfl
  have haccepts := accepts_of_normpath hchroot hpath
  obtain ⟨result, t', hcompletes, hmakes⟩ :=
    h onlyRoot (str "/a/b/") (str "/a/b") ⟨some [120], false⟩ hpath
  obtain ⟨result', t'', hcompletes', hiff⟩ := makes_iff_of_slash (n := ⟨some [120], false⟩) haccepts
    (t := onlyRoot) (by decide +kernel) (by decide +kernel) (by decide +kernel) (by decide +kernel)
  have hsame := Option.some.inj ((hcompletes 2 (le_refl 2)).symm.trans (hcompletes' 2 (le_refl 2)))
  obtain ⟨rfl, rfl⟩ := Prod.mk.inj hsame
  rcases hiff.mp hmakes with hnode | ⟨-, hparent⟩
  · exact hnode (by decide +kernel)
  · exact hparent (by decide +kernel) (by decide +kernel)

end Client

end Kazoo
