import Kazoo.Text
import Kazoo.Lib.Separated

/-!
# Paths

`kazoo/protocol/paths.py`.  Every path that `_prefix_root` makes is given by its components.
-/

namespace Kazoo

def slash : CodePoint := CodePoint.ofChar '/'

/-- `s.startswith("/")`. -/
def isabs (s : PyStr) : Bool := s.head? == some slash

/-- `s.endswith("/")`. -/
def endswithSlash (s : PyStr) : Bool := s.getLast? == some slash

/-- The loop of `normpath` over the components. -/
def newComps : List PyStr → Except Exn (List PyStr)
  | [] => .ok []
  | comp :: comps =>
    if comp = [] then newComps comps
    else if comp = str "." ∨ comp = str ".." then .error .valueError
    else do return comp :: (← newComps comps)

def normpath (path : PyStr) (trailing : Bool) : Except Exn PyStr := do
  let comps ← newComps (path.splitOn slash)
  let newPath := [slash].intercalate comps
  let newPath := if trailing && endswithSlash path then newPath ++ [slash] else newPath
  return if isabs path && newPath != [slash] then slash :: newPath else newPath

def join (a : PyStr) (p : List PyStr) : PyStr :=
  p.foldl (fun path b =>
    if isabs b then b
    else if path = [] ∨ endswithSlash path then path ++ b
    else path ++ slash :: b) a

def normRoot (root : PyStr) : Except Exn PyStr := normpath (join (str "/") [root]) false

/-- `path.lstrip("/")`. -/
def lstripSlash (path : PyStr) : PyStr := path.dropWhile (· == slash)

def prefixRoot (root path : PyStr) (trailing : Bool) : Except Exn PyStr := do
  normpath (join (← normRoot root) [lstripSlash path]) trailing

/-- What the server takes for the name of a node. -/
def ValidName (name : PyStr) : Prop :=
  name ≠ [] ∧ slash ∉ name ∧ name ≠ str "." ∧ name ≠ str ".."

instance (name : PyStr) : Decidable (ValidName name) := inferInstanceAs (Decidable (_ ∧ _))

/-! ## Absolute paths by their components -/

/-- No component is relative. -/
def Proper (comps : List PyStr) : Prop := ∀ comp ∈ comps, comp ≠ str "." ∧ comp ≠ str ".."

theorem Proper.append_iff {cs ds : List PyStr} : Proper (cs ++ ds) ↔ Proper cs ∧ Proper ds :=
  List.forall_mem_append

/-- The slash that `trailing` keeps. -/
def trailer (trailing : Bool) (path : PyStr) : PyStr :=
  if trailing && endswithSlash path then [slash] else []

/-- The absolute path with the given components, and what follows the last of them. -/
def absolute (comps : List PyStr) (trailer : PyStr) : PyStr :=
  if comps = [] then [slash] else rooted slash comps ++ trailer

theorem newComps_eq_ok_iff {l cs : List PyStr} :
    newComps l = .ok cs ↔ Proper (l.filter (· ≠ [])) ∧ l.filter (· ≠ []) = cs := by
  induction l generalizing cs with
  | nil => simp [newComps, Proper]
  | cons comp l ih =>
    by_cases hempty : comp = []
    · rw [newComps, if_pos hempty, ih, List.filter_cons_of_neg (by simp [hempty])]
    rw [List.filter_cons_of_pos (by simpa using hempty)]
    by_cases hdots : comp = str "." ∨ comp = str ".."
    · rw [newComps, if_neg hempty, if_pos hdots]
      constructor
      · intro h
        cases h
      · intro h
        exact absurd hdots (not_or.mpr (h.1 comp List.mem_cons_self))
    · have hcons : newComps (comp :: l) = (newComps l).map (comp :: ·) := by
        rw [newComps, if_neg hempty, if_neg hdots]
        cases newComps l <;> rfl
      rw [hcons]
      constructor
      · intro h
        cases hl : newComps l with
        | error e => rw [hl] at h; cases h
        | ok ds =>
          rw [hl] at h
          obtain ⟨hproper, rfl⟩ := ih.mp hl
          cases h
          exact ⟨List.forall_mem_cons.mpr ⟨not_or.mp hdots, hproper⟩, rfl⟩
      · rintro ⟨hproper, rfl⟩
        rw [ih.mpr ⟨(List.forall_mem_cons.mp hproper).2, rfl⟩]
        rfl

theorem isabs_iff {s : PyStr} : isabs s = true ↔ ∃ p, s = slash :: p := by
  cases s <;> simp [isabs]

theorem endswithSlash_append_cons (p q : PyStr) :
    endswithSlash (p ++ slash :: q) = endswithSlash (slash :: q) := by
  simp [endswithSlash, List.getLast?_append]

theorem endswithSlash_lstripSlash (path : PyStr) :
    endswithSlash (slash :: lstripSlash path) = endswithSlash (slash :: path) := by
  induction path with
  | nil => rfl
  | cons c path ih =>
    rw [lstripSlash, List.dropWhile_cons]
    split
    · next hc =>
      rw [beq_iff_eq] at hc
      rw [← lstripSlash, ih, hc]
      exact (endswithSlash_append_cons [slash] path).symm
    · rfl

theorem endswithSlash_of_all {path : PyStr} (h : components slash path = []) :
    endswithSlash (slash :: path) = true := by
  rw [endswithSlash, List.getLast?_eq_some_getLast (List.cons_ne_nil slash path), beq_iff_eq,
    Option.some_inj]
  rcases List.mem_cons.mp (List.getLast_mem (List.cons_ne_nil slash path)) with hlast | hlast
  · exact hlast
  · exact components_eq_nil_iff.mp h _ hlast

theorem isabs_absolute (cs : List PyStr) (t : PyStr) : isabs (absolute cs t) = true := by
  unfold absolute
  split
  · rfl
  · next h =>
    obtain ⟨c, cs, rfl⟩ := List.exists_cons_of_ne_nil h
    rfl

theorem intercalate_eq_cons {c : PyStr} {cs : List PyStr}
    (h : ∀ comp ∈ c :: cs, comp ≠ [] ∧ slash ∉ comp) :
    ∃ a p, [slash].intercalate (c :: cs) = a :: p ∧ a ≠ slash := by
  obtain ⟨hne, hnot⟩ := h c List.mem_cons_self
  obtain ⟨a, c, rfl⟩ := List.exists_cons_of_ne_nil hne
  have hrooted : slash :: [slash].intercalate ((a :: c) :: cs) = rooted slash ((a :: c) :: cs) :=
    cons_intercalate (List.cons_ne_nil (a :: c) cs)
  refine ⟨a, c ++ rooted slash cs, List.tail_eq_of_cons_eq hrooted, ?_⟩
  rintro rfl
  exact hnot List.mem_cons_self

/-- What `normpath` makes of an absolute path. -/
theorem normpath_cons_eq_ok_iff {path out : PyStr} {trailing : Bool} :
    normpath (slash :: path) trailing = .ok out ↔
      Proper (components slash path) ∧
        absolute (components slash path) (trailer trailing (slash :: path)) = out := by
  have hcomps : ((slash :: path).splitOn slash).filter (· ≠ []) = components slash path :=
    components_sep path
  have hnew (cs : List PyStr) : newComps ((slash :: path).splitOn slash) = .ok cs ↔
      Proper (components slash path) ∧ components slash path = cs := by
    rw [newComps_eq_ok_iff, hcomps]
  have hout : (let newPath := [slash].intercalate (components slash path)
      let newPath :=
        if trailing && endswithSlash (slash :: path) then newPath ++ [slash] else newPath
      if isabs (slash :: path) && newPath != [slash] then slash :: newPath else newPath) =
        absolute (components slash path) (trailer trailing (slash :: path)) := by
    dsimp only
    cases hcs : components slash path with
    | nil =>
      rw [absolute, if_pos rfl, List.intercalate_nil]
      cases trailing <;> cases endswithSlash (slash :: path) <;> rfl
    | cons c cs =>
      obtain ⟨a, p, hp, ha⟩ := intercalate_eq_cons fun comp hcomp =>
        mem_components (hcs ▸ hcomp : comp ∈ components slash path)
      rw [absolute, if_neg (List.cons_ne_nil c cs), trailer,
        ← cons_intercalate (List.cons_ne_nil c cs), hp]
      cases trailing && endswithSlash (slash :: path) <;> simp [isabs, ha]
  constructor
  · intro h
    obtain ⟨cs, hcs, h⟩ := bind_eq_ok h
    obtain ⟨hproper, rfl⟩ := (hnew cs).mp hcs
    exact ⟨hproper, hout ▸ pure_inj h⟩
  · rintro ⟨hproper, rfl⟩
    rw [normpath, (hnew _).mpr ⟨hproper, rfl⟩, ← hout]
    rfl

/-! ## Prefixed paths -/

theorem join_one (a b : PyStr) :
    join a [b] = if isabs b then b else if a = [] ∨ endswithSlash a then a ++ b
      else a ++ slash :: b := rfl

theorem join_slash (root : PyStr) :
    ∃ p, join (str "/") [root] = slash :: p ∧ components slash p = components slash root := by
  rw [join_one]
  split
  · next h =>
    obtain ⟨p, rfl⟩ := isabs_iff.mp h
    exact ⟨p, rfl, (components_sep p).symm⟩
  · exact ⟨root, rfl, rfl⟩

theorem normRoot_eq_ok_iff {root out : PyStr} :
    normRoot root = .ok out ↔
      Proper (components slash root) ∧ absolute (components slash root) [] = out := by
  obtain ⟨p, hp, hcomps⟩ := join_slash root
  rw [normRoot, hp, normpath_cons_eq_ok_iff, hcomps]
  rfl

theorem isabs_lstripSlash (path : PyStr) : isabs (lstripSlash path) = false := by
  induction path with
  | nil => rfl
  | cons c path ih =>
    rw [lstripSlash, List.dropWhile_cons]
    split
    · exact ih
    · next hc => simpa [isabs] using hc

theorem endswithSlash_rooted {cs : List PyStr} (h : ∀ comp ∈ cs, comp ≠ [] ∧ slash ∉ comp) :
    endswithSlash (rooted slash cs) = false := by
  rcases List.eq_nil_or_concat' cs with rfl | ⟨cs, c, rfl⟩
  · rfl
  · obtain ⟨hne, hnot⟩ := h c (List.mem_append_right cs List.mem_cons_self)
    obtain ⟨d, a, rfl⟩ := (List.eq_nil_or_concat' c).resolve_left hne
    rw [rooted_append, endswithSlash]
    have hlast : rooted slash [d ++ [a]] = slash :: d ++ [a] := by simp [rooted]
    rw [hlast, ← List.append_assoc, List.getLast?_concat, beq_eq_false_iff_ne, Ne, Option.some_inj]
    rintro rfl
    exact hnot (List.mem_append_right d List.mem_cons_self)

/-- A relative path behind an absolute root. -/
theorem join_absolute {cs : List PyStr} {p : PyStr} (h : ∀ comp ∈ cs, comp ≠ [] ∧ slash ∉ comp)
    (hp : isabs p = false) : join (absolute cs []) [p] = rooted slash cs ++ slash :: p := by
  rw [join_one, if_neg (by rw [hp]; exact Bool.false_ne_true)]
  cases cs with
  | nil => rfl
  | cons c cs =>
    rw [absolute, if_neg (List.cons_ne_nil c cs), List.append_nil, if_neg]
    rw [endswithSlash_rooted h, or_iff_left Bool.false_ne_true]
    exact List.cons_ne_nil _ _

/-- A path on the wire has the components of the root and then its own. -/
theorem prefixRoot_eq_ok_iff {root path wire : PyStr} {trailing : Bool} :
    prefixRoot root path trailing = .ok wire ↔
      Proper (components slash root ++ components slash path) ∧
        absolute (components slash root ++ components slash path)
          (trailer trailing (slash :: path)) = wire := by
  have hroot : ∀ comp ∈ components slash root, comp ≠ [] ∧ slash ∉ comp :=
    fun comp h => mem_components h
  have hpath : components slash (lstripSlash path) = components slash path :=
    components_dropWhile path
  have hjoined (wire : PyStr) :
      normpath (join (absolute (components slash root) []) [lstripSlash path]) trailing = .ok wire ↔
        Proper (components slash root ++ components slash path) ∧
          absolute (components slash root ++ components slash path)
            (trailer trailing (slash :: path)) = wire := by
    rw [join_absolute hroot (isabs_lstripSlash path)]
    obtain ⟨p, hp, hcomps⟩ : ∃ p, rooted slash (components slash root) ++
        slash :: lstripSlash path = slash :: p ∧
        components slash p = components slash root ++ components slash path := by
      cases hcs : components slash root with
      | nil => exact ⟨lstripSlash path, rfl, hpath⟩
      | cons c cs =>
        refine ⟨c ++ rooted slash cs ++ slash :: lstripSlash path, rfl, ?_⟩
        have hrooted := components_rooted hroot
        rw [hcs, rooted_cons, components_sep] at hrooted
        rw [components_append_sep, hrooted, hpath]
    have htrailer : trailer trailing (slash :: p) = trailer trailing (slash :: path) := by
      rw [trailer, trailer, ← hp, endswithSlash_append_cons, endswithSlash_lstripSlash]
    rw [hp, normpath_cons_eq_ok_iff, hcomps, htrailer]
  constructor
  · intro h
    obtain ⟨r, hr, h⟩ := bind_eq_ok h
    obtain ⟨-, rfl⟩ := normRoot_eq_ok_iff.mp hr
    exact (hjoined wire).mp h
  · intro h
    rw [prefixRoot, normRoot_eq_ok_iff.mpr ⟨(Proper.append_iff.mp h.1).1, rfl⟩]
    exact (hjoined wire).mpr h

end Kazoo
