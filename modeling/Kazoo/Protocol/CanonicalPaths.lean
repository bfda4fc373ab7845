import Kazoo.Protocol.Paths

/-!
# Canonical paths

What `normpath` of `kazoo/protocol/paths.py` returns for any text: the components of the text with
one slash between two of them, behind the slash in front that the text has and before the slash at
the end that `trailing` keeps.
-/

namespace Kazoo

/-- The path with the given components, absolute or not, and what follows the last of them. -/
def pathOf (absolutely : Bool) (comps : List PyStr) (trailer : PyStr) : PyStr :=
  if absolutely then absolute comps trailer else [slash].intercalate comps ++ trailer

/-- The text has a component that is refused. -/
def Dotted (path : PyStr) : Prop := ∃ comp ∈ path.splitOn slash, comp = str "." ∨ comp = str ".."

/-- What makes a form canonical of `out`, made of `path`. -/
structure Canonical (path : PyStr) (trailing : Bool) (out : PyStr) : Prop where
  /-- No component is empty but one in front of an absolute path, and one that `trailing` keeps. -/
  splitOn : out ≠ [slash] → out ≠ [] → ∃ comps : List PyStr, (∀ comp ∈ comps, comp ≠ []) ∧
    out.splitOn slash = (if isabs path then [[]] else []) ++ comps ++
      (if trailing && endswithSlash path then [[]] else [])
  normpath_self : normpath out trailing = .ok out
  isabs : isabs out = isabs path

section Normpath

variable {path path' out out' : PyStr} {trailing : Bool} {cs : List PyStr}

theorem dotted_iff : Dotted path ↔ ¬ Proper (components slash path) := by
  have hne : str "." ≠ [] ∧ str ".." ≠ [] := by decide
  simp only [Dotted, Proper, components, List.mem_filter]
  constructor
  · rintro ⟨comp, hmem, hcomp⟩ hproper
    have hempty : comp ≠ [] := by
      rcases hcomp with rfl | rfl
      · exact hne.1
      · exact hne.2
    exact hcomp.elim (hproper comp ⟨hmem, decide_eq_true hempty⟩).1
      (hproper comp ⟨hmem, decide_eq_true hempty⟩).2
  · refine not_imp_comm.mp fun h comp hmem => ?_
    rw [← not_or]
    exact fun hcomp => h ⟨comp, hmem.1, hcomp⟩

theorem newComps_error {l : List PyStr} {e : Exn} (h : newComps l = .error e) : e = .valueError := by
  induction l with
  | nil => cases h
  | cons comp l ih =>
    rw [newComps] at h
    split at h
    · exact ih h
    · split at h
      · exact (Except.error.inj h).symm
      · cases hl : newComps l with
        | ok cs =>
          rw [hl] at h
          cases h
        | error e' =>
          rw [hl] at h
          exact ih (hl.trans h)

/-- The component in front of everything is not empty, unless the path is absolute or empty. -/
theorem components_ne_nil (hne : path ≠ []) (habs : isabs path = false) :
    components slash path ≠ [] := by
  obtain ⟨a, rest, rfl⟩ := List.exists_cons_of_ne_nil hne
  intro h
  have ha : a = slash := components_eq_nil_iff.mp h a List.mem_cons_self
  rw [ha] at habs
  cases habs

/-- What `normpath` makes of any text. -/
theorem normpath_eq_ok_iff : normpath path trailing = .ok out ↔ ¬ Dotted path ∧
    pathOf (isabs path) (components slash path) (trailer trailing path) = out := by
  rw [dotted_iff, not_not]
  cases habs : isabs path with
  | true =>
    obtain ⟨rest, rfl⟩ := isabs_iff.mp habs
    rw [normpath_cons_eq_ok_iff, components_sep]
    rfl
  | false =>
    have hout : normpath path trailing =
        (do return [slash].intercalate (← newComps (path.splitOn slash)) ++ trailer trailing path) := by
      unfold normpath trailer
      rw [habs]
      cases newComps (path.splitOn slash) with
      | error e => rfl
      | ok cs => cases trailing && endswithSlash path <;> simp
    rw [hout]
    constructor
    · intro h
      obtain ⟨cs, hcs, h⟩ := bind_eq_ok h
      obtain ⟨hproper, rfl⟩ := newComps_eq_ok_iff.mp hcs
      exact ⟨hproper, pure_inj h⟩
    · rintro ⟨hproper, rfl⟩
      rw [newComps_eq_ok_iff.mpr ⟨hproper, rfl⟩]
      rfl

theorem normpath_eq_error_iff {e : Exn} :
    normpath path trailing = .error e ↔ e = .valueError ∧ Dotted path := by
  cases hpath : normpath path trailing with
  | ok out => exact iff_of_false (fun h => nomatch h) fun h => (normpath_eq_ok_iff.mp hpath).1 h.2
  | error e' =>
    have hdotted : Dotted path := by
      by_contra hnot
      rw [normpath_eq_ok_iff.mpr ⟨hnot, rfl⟩] at hpath
      cases hpath
    have hvalue : e' = .valueError := by
      unfold normpath at hpath
      cases hcomps : newComps (path.splitOn slash) with
      | ok cs =>
        rw [hcomps] at hpath
        cases hpath
      | error e'' =>
        rw [hcomps] at hpath
        cases hpath
        exact newComps_error hcomps
    rw [Except.error.injEq, hvalue, eq_comm]
    exact (and_iff_left hdotted).symm

end Normpath

/-! ## Paths with components -/

section Components

variable {cs : List PyStr} {absolutely trailing : Bool} {path out : PyStr}

theorem cons_pathOf (absolutely : Bool) (hne : cs ≠ []) (t : PyStr) :
    (if absolutely then [] else [slash]) ++ pathOf absolutely cs t = rooted slash cs ++ t := by
  cases absolutely with
  | true => exact if_neg hne
  | false =>
    show slash :: ([slash].intercalate cs ++ t) = _
    rw [← List.cons_append, cons_intercalate hne]

theorem splitOn_pathOf (hne : cs ≠ []) (hcs : ∀ comp ∈ cs, comp ≠ [] ∧ slash ∉ comp) (kept : Bool) :
    (pathOf absolutely cs (if kept then [slash] else [])).splitOn slash =
      (if absolutely then [[]] else []) ++ cs ++ (if kept then [[]] else []) := by
  have hrooted : (rooted slash cs ++ if kept then [slash] else []).splitOn slash =
      [] :: cs ++ (if kept then [[]] else []) := by
    have hsplit := splitOn_rooted fun comp h => (hcs comp h).2
    cases kept with
    | true => exact (List.splitOn_append_cons_self _ []).trans (congrArg (· ++ [[]]) hsplit)
    | false =>
      rw [if_neg Bool.false_ne_true, if_neg Bool.false_ne_true, List.append_nil, List.append_nil]
      exact hsplit
  rw [← cons_pathOf absolutely hne] at hrooted
  cases absolutely with
  | true => exact hrooted
  | false =>
    have hcons : (slash :: pathOf false cs (if kept then [slash] else [])).splitOn slash = _ := hrooted
    rw [splitOn_sep] at hcons
    exact List.tail_eq_of_cons_eq hcons

theorem isabs_pathOf (hne : cs ≠ []) (hcs : ∀ comp ∈ cs, comp ≠ [] ∧ slash ∉ comp) (t : PyStr) :
    isabs (pathOf absolutely cs t) = absolutely := by
  cases absolutely with
  | true => exact isabs_absolute cs t
  | false =>
    obtain ⟨c, cs, rfl⟩ := List.exists_cons_of_ne_nil hne
    obtain ⟨a, p, hp, ha⟩ := intercalate_eq_cons hcs
    show isabs ([slash].intercalate (c :: cs) ++ t) = false
    rw [hp]
    simpa [isabs] using ha

theorem components_pathOf (absolutely kept : Bool) (hne : cs ≠ [])
    (hcs : ∀ comp ∈ cs, comp ≠ [] ∧ slash ∉ comp) :
    components slash (pathOf absolutely cs (if kept then [slash] else [])) = cs := by
  have hall : cs.filter (· ≠ []) = cs :=
    List.filter_eq_self.mpr fun comp h => decide_eq_true (hcs comp h).1
  rw [components, splitOn_pathOf hne hcs, List.filter_append, List.filter_append, hall]
  cases absolutely <;> cases kept <;> simp

theorem endswithSlash_pathOf (hne : cs ≠ []) (hcs : ∀ comp ∈ cs, comp ≠ [] ∧ slash ∉ comp) (kept : Bool) :
    endswithSlash (pathOf absolutely cs (if kept then [slash] else [])) = kept := by
  have hrooted : endswithSlash (rooted slash cs ++ if kept then [slash] else []) = kept := by
    cases kept with
    | true => exact endswithSlash_append_cons _ []
    | false =>
      rw [if_neg Bool.false_ne_true, List.append_nil]
      exact endswithSlash_rooted hcs
  rw [← cons_pathOf absolutely hne] at hrooted
  cases absolutely with
  | true => exact hrooted
  | false =>
    obtain ⟨c, cs, rfl⟩ := List.exists_cons_of_ne_nil hne
    obtain ⟨a, p, hp, -⟩ := intercalate_eq_cons hcs
    rw [pathOf, if_neg Bool.false_ne_true, hp] at hrooted ⊢
    exact hrooted

theorem normpath_pathOf (hne : cs ≠ []) (hcs : ∀ comp ∈ cs, comp ≠ [] ∧ slash ∉ comp)
    (hproper : Proper cs) {kept : Bool} (hkept : kept = true → trailing = true) :
    normpath (pathOf absolutely cs (if kept then [slash] else [])) trailing =
      .ok (pathOf absolutely cs (if kept then [slash] else [])) := by
  rw [normpath_eq_ok_iff, dotted_iff, not_not, components_pathOf _ _ hne hcs, isabs_pathOf hne hcs, trailer,
    endswithSlash_pathOf hne hcs]
  refine ⟨hproper, ?_⟩
  cases kept with
  | true => rw [hkept rfl, Bool.and_self]
  | false => rw [Bool.and_false]

end Components

/-! ## The canonical form -/

section Canonical

variable {path path' out out' : PyStr} {trailing : Bool}

theorem trailer_eq (trailing : Bool) (path : PyStr) :
    trailer trailing path = if trailing && endswithSlash path then [slash] else [] := rfl

/-- The root, or nothing, is its own canonical form. -/
theorem canonical_of_components_eq_nil (hnone : components slash path = [])
    (h : normpath path trailing = .ok out) : Canonical path trailing out ∧ (out = [] ↔ path = []) := by
  obtain ⟨-, rfl⟩ := normpath_eq_ok_iff.mp h
  rw [hnone]
  by_cases hempty : path = []
  · subst hempty
    have hself : pathOf (isabs []) [] (trailer trailing []) = [] := by cases trailing <;> rfl
    rw [hself]
    refine ⟨⟨fun _ hne => absurd rfl hne, ?_, rfl⟩, Iff.rfl⟩
    cases trailing <;> rfl
  · have habs : isabs path = true := by
      by_contra habs
      exact components_ne_nil hempty (Bool.eq_false_iff.mpr habs) hnone
    have hself : pathOf (isabs path) [] (trailer trailing path) = [slash] := by
      rw [habs]
      rfl
    rw [hself]
    refine ⟨⟨fun hne => absurd rfl hne, ?_, habs.symm⟩, ?_⟩
    · cases trailing <;> decide +kernel
    · exact iff_of_false (List.cons_ne_nil _ _) hempty

theorem canonical_of_normpath (h : normpath path trailing = .ok out) :
    Canonical path trailing out ∧ (out = [] ↔ path = []) := by
  by_cases hnone : components slash path = []
  · exact canonical_of_components_eq_nil hnone h
  · obtain ⟨hdotted, rfl⟩ := normpath_eq_ok_iff.mp h
    have hcs : ∀ comp ∈ components slash path, comp ≠ [] ∧ slash ∉ comp := fun _ hc => mem_components hc
    have hproper : Proper (components slash path) := not_not.mp (mt dotted_iff.mpr hdotted)
    have hpath : path ≠ [] := by
      rintro rfl
      exact hnone components_nil
    rw [trailer_eq]
    refine ⟨⟨fun _ _ => ⟨_, fun comp hc => (hcs comp hc).1, splitOn_pathOf hnone hcs _⟩, ?_, ?_⟩, ?_⟩
    · exact normpath_pathOf hnone hcs hproper fun hkept => (Bool.and_eq_true_iff.mp hkept).1
    · exact isabs_pathOf hnone hcs _
    · refine iff_of_false (fun hempty => hnone ?_) hpath
      rw [← components_pathOf (isabs path) _ hnone hcs, hempty, components_nil]

/-- Without `trailing`, the form is that of the components. -/
theorem components_of_normpath (h : normpath path false = .ok out) :
    components slash out = components slash path := by
  obtain ⟨-, rfl⟩ := normpath_eq_ok_iff.mp h
  by_cases hnone : components slash path = []
  · rw [hnone]
    cases isabs path
    · rfl
    · exact components_sep []
  · exact components_pathOf _ false hnone fun _ hc => mem_components hc

theorem normpath_inj (h : normpath path false = .ok out) (h' : normpath path' false = .ok out') :
    out = out' ↔ isabs path = isabs path' ∧ components slash path = components slash path' := by
  constructor
  · rintro rfl
    refine ⟨?_, ?_⟩
    · exact (canonical_of_normpath h).1.isabs.symm.trans (canonical_of_normpath h').1.isabs
    · exact (components_of_normpath h).symm.trans (components_of_normpath h')
  · rintro ⟨habs, hcomps⟩
    rw [← (normpath_eq_ok_iff.mp h).2, ← (normpath_eq_ok_iff.mp h').2, habs, hcomps]
    rfl

/-- `normpath` refuses the texts with a relative component.  What it returns is canonical, is empty
for the empty text only, and two texts have the same form exactly when both or neither are absolute
and they have the same components. -/
theorem normpath_canonical (path path' : PyStr) (trailing : Bool) :
    (∀ e, normpath path trailing = .error e ↔ e = .valueError ∧ Dotted path) ∧
      (∀ out, normpath path trailing = .ok out → Canonical path trailing out ∧ (out = [] ↔ path = [])) ∧
      ∀ out out', normpath path false = .ok out → normpath path' false = .ok out' →
        (out = out' ↔ isabs path = isabs path' ∧ components slash path = components slash path') :=
  ⟨fun _ => normpath_eq_error_iff, fun _ => canonical_of_normpath, fun _ _ => normpath_inj⟩

/-- The empty text has one component, which is empty. -/
theorem normpath_empty_component :
    ¬ ∀ (path : PyStr) (trailing : Bool) (out : PyStr), normpath path trailing = .ok out →
      out ≠ [slash] → ∃ comps : List PyStr, (∀ comp ∈ comps, comp ≠ []) ∧
        out.splitOn slash = (if isabs path then [[]] else []) ++ comps ++
          (if trailing && endswithSlash path then [[]] else []) := by
  intro h
  obtain ⟨comps, hne, hsplit⟩ := h [] false [] rfl (by decide)
  have hcomps : [[]] = comps := by simpa [isabs, List.splitOn_nil] using hsplit
  exact hne [] (hcomps ▸ List.mem_singleton_self []) rfl

end Canonical


end Kazoo
