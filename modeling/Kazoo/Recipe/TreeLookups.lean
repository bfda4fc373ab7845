import Kazoo.Protocol.CanonicalPaths
import Kazoo.Recipe.TreeRuns

/-!
# Lookups in a cache

`get_data` and `get_children` of a `TreeCache`: the path is compared with the root's as a text, and
what follows is cut into names, so they answer for the path that was asked for unless the text goes
on in the middle of the root's last component, or spells the root in another way.
-/

namespace Kazoo

/-- An absolute path that `normpath` leaves as it is. -/
def Normalised (path : PyStr) : Prop := isabs path = true ∧ normpath path false = .ok path

/-- The normalised path is the root, or under it. -/
def Under (root path : PyStr) : Prop := path = root ∨ root = [slash] ∨ root ++ [slash] <+: path

instance (path : PyStr) : Decidable (Normalised path) := inferInstanceAs (Decidable (_ ∧ _))

instance (root path : PyStr) : Decidable (Under root path) := inferInstanceAs (Decidable (_ ∨ _))

/-- The text goes on in the middle of the last component of the root. -/
def Extends (root path : PyStr) : Prop :=
  root ≠ [slash] ∧ ∃ a rest, path = root ++ a :: rest ∧ a ≠ slash

/-- The path leads through the root, and its text does not begin with the root's. -/
def Respelled (root path : PyStr) : Prop :=
  ¬ root <+: path ∧ components slash root <+: components slash path

section Paths

variable {root path p : PyStr} {cs ds : List PyStr} {name : PyStr}

theorem components_absolute (h : ∀ comp ∈ cs, comp ≠ [] ∧ slash ∉ comp) :
    components slash (absolute cs []) = cs := by
  unfold absolute
  split
  · next hnone => rw [hnone, components_sep, components_nil]
  · rw [List.append_nil, components_rooted h]

theorem Normalised.eq_absolute (h : Normalised path) :
    path = absolute (components slash path) [] ∧ Proper (components slash path) := by
  obtain ⟨rest, rfl⟩ := isabs_iff.mp h.1
  obtain ⟨hproper, heq⟩ := normpath_cons_eq_ok_iff.mp h.2
  rw [components_sep]
  exact ⟨heq.symm, hproper⟩

theorem normalised_of_normpath (habs : isabs path = true) (h : normpath path false = .ok p) :
    Normalised p ∧ components slash p = components slash path := by
  have hcanonical := (canonical_of_normpath h).1
  exact ⟨⟨hcanonical.isabs.trans habs, hcanonical.normpath_self⟩, components_of_normpath h⟩

/-- For normalised paths, the texts say what the components say. -/
theorem under_iff (hroot : Normalised root) (hp : Normalised p) :
    Under root p ↔ components slash root <+: components slash p := by
  have hrootEq := hroot.eq_absolute.1
  have hpEq := hp.eq_absolute.1
  have hcs : ∀ comp ∈ components slash root, comp ≠ [] ∧ slash ∉ comp := fun _ h => mem_components h
  by_cases hnone : components slash root = []
  · rw [hnone, absolute, if_pos rfl] at hrootEq
    exact iff_of_true (.inr (.inl hrootEq)) (hnone ▸ List.nil_prefix)
  have hrooted : root = rooted slash (components slash root) := by
    rw [absolute, if_neg hnone, List.append_nil] at hrootEq
    exact hrootEq
  have hslash : root ≠ [slash] := by
    rintro rfl
    exact hnone ((components_sep []).trans components_nil)
  constructor
  · rintro (rfl | heq | ⟨rest, hrest⟩)
    · exact List.prefix_refl _
    · exact absurd heq hslash
    · rw [← hrest, List.append_assoc, List.singleton_append, components_append_sep]
      exact List.prefix_append _ _
  · rintro ⟨es, hes⟩
    have hne : components slash p ≠ [] := by
      rw [← hes]
      exact List.append_ne_nil_of_left_ne_nil hnone es
    rw [absolute, if_neg hne, List.append_nil, ← hes, rooted_append, ← hrooted] at hpEq
    cases es with
    | nil =>
      rw [rooted, List.flatMap_nil, List.append_nil] at hpEq
      exact .inl hpEq
    | cons e es =>
      refine .inr (.inr ⟨e ++ rooted slash es, ?_⟩)
      rw [hpEq, rooted_cons, List.append_assoc]
      rfl

/-- Behind the root's text stands nothing, or a slash. -/
theorem components_of_isPrefix (hroot : Normalised root) (hpath : isabs path = true)
    {rest : PyStr} (heq : path = root ++ rest) (hnot : ¬ Extends root path) :
    components slash path = components slash root ++ components slash rest := by
  subst heq
  by_cases hslash : root = [slash]
  · subst hslash
    rw [show ([slash] : PyStr) ++ rest = slash :: rest from rfl, components_sep, components_sep]
    rfl
  cases rest with
  | nil => rw [List.append_nil, components_nil, List.append_nil]
  | cons a rest =>
    have ha : a = slash := by
      by_contra ha
      exact hnot ⟨hslash, a, rest, rfl, ha⟩
    rw [ha, components_append_sep, components_sep]

/-- Then the root's last component is not a component of the path. -/
theorem not_isPrefix_of_extends (hroot : Normalised root) (h : Extends root path) :
    ¬ components slash root <+: components slash path := by
  obtain ⟨hslash, a, rest, rfl, ha⟩ := h
  have hrootEq := hroot.eq_absolute.1
  have hcs : ∀ comp ∈ components slash root, comp ≠ [] ∧ slash ∉ comp := fun _ h => mem_components h
  rcases List.eq_nil_or_concat' (components slash root) with hnone | ⟨cs, c, hconcat⟩
  · rw [hnone, absolute, if_pos rfl] at hrootEq
    exact absurd hrootEq hslash
  rw [hconcat] at hrootEq hcs ⊢
  obtain ⟨hne, hnot⟩ := hcs c (List.mem_append_right cs (List.mem_singleton_self c))
  have hlast : ∀ front, slash ∉ front → components slash (c ++ a :: front) = [c ++ a :: front] := by
    intro front hfront
    refine components_of_notMem (fun hmem => ?_) (List.append_ne_nil_of_left_ne_nil hne _)
    rcases List.mem_append.mp hmem with hmem | hmem
    · exact hnot hmem
    · rcases List.mem_cons.mp hmem with heq | hmem
      · exact ha heq.symm
      · exact hfront hmem
  have hpath : components slash (root ++ a :: rest) = cs ++ components slash (c ++ a :: rest) := by
    have htext : root ++ a :: rest = rooted slash cs ++ slash :: (c ++ a :: rest) := by
      rw [hrootEq, absolute, if_neg (List.append_ne_nil_of_right_ne_nil cs (List.cons_ne_nil c [])),
        rooted_append, rooted_cons, rooted, rooted, List.flatMap_nil]
      simp
    have hrooted : components slash (rooted slash cs) = cs :=
      components_rooted fun comp hmem => hcs comp (List.mem_append_left _ hmem)
    rw [htext, components_append_sep, hrooted]
  rw [hpath, List.prefix_append_right_inj]
  -- the component that begins with `c` goes on with `a`
  obtain ⟨front, more, hmore⟩ : ∃ front more,
      components slash (c ++ a :: rest) = (c ++ a :: front) :: more := by
    by_cases hmem : slash ∈ rest
    · obtain ⟨front, back, rfl, hfront⟩ := List.eq_append_cons_of_mem hmem
      refine ⟨front, components slash back, ?_⟩
      rw [← List.cons_append, ← List.append_assoc, components_append_sep, hlast front hfront]
      rfl
    · exact ⟨rest, [], hlast rest hmem⟩
  rw [hmore]
  rintro ⟨_, hcons⟩
  have hself := congrArg List.length (List.cons.inj hcons).1
  simp at hself

/-- A relative component does not begin in the root. -/
theorem dotted_rest {rest : PyStr} (hroot : Normalised root) (h : Dotted (root ++ rest)) :
    ¬ Proper (components slash rest) := by
  intro hproper
  refine dotted_iff.mp h fun comp hmem => ?_
  rcases mem_components_append hmem with hmem | hmem | ⟨x, hx, y, hy, rfl⟩
  · exact hroot.eq_absolute.2 comp hmem
  · exact hproper comp hmem
  · obtain ⟨b, x, rfl⟩ := List.exists_cons_of_ne_nil (mem_components hx).1
    obtain ⟨d, y, rfl⟩ := List.exists_cons_of_ne_nil (mem_components hy).1
    refine ⟨fun heq => ?_, fun heq => ?_⟩
    · have hlength := congrArg List.length heq
      simp [str] at hlength
    · have hlength := congrArg List.length heq
      have hx' : x = [] := by
        rw [← List.length_eq_zero_iff]
        simp [str] at hlength
        omega
      subst hx'
      refine (hroot.eq_absolute.2 _ hx).1 ?_
      rw [(List.cons.inj heq).1]
      rfl

theorem join_valid (hcs : ∀ comp ∈ cs, comp ≠ [] ∧ slash ∉ comp) (hname : ValidName name) :
    join (absolute cs []) [name] = absolute (cs ++ [name]) [] := by
  have habs : isabs name = false := by
    rw [Bool.eq_false_iff]
    intro h
    obtain ⟨rest, rfl⟩ := isabs_iff.mp h
    exact hname.2.1 List.mem_cons_self
  rw [join_absolute hcs habs, absolute, if_neg (List.append_ne_nil_of_right_ne_nil cs (List.cons_ne_nil _ _)),
    rooted_append, rooted_cons]
  simp [rooted]

/-- One name after the other. -/
theorem foldl_join {names : List PyStr} (hcs : ∀ comp ∈ cs, comp ≠ [] ∧ slash ∉ comp)
    (hnames : ∀ name ∈ names, ValidName name) :
    names.foldl (fun path name => join path [name]) (absolute cs []) = absolute (cs ++ names) [] := by
  induction names generalizing cs with
  | nil => rw [List.foldl_nil, List.append_nil]
  | cons name names ih =>
    obtain ⟨hname, hnames⟩ := List.forall_mem_cons.mp hnames
    have hnext : ∀ comp ∈ cs ++ [name], comp ≠ [] ∧ slash ∉ comp := by
      intro comp hmem
      rcases List.mem_append.mp hmem with hmem | hmem
      · exact hcs comp hmem
      · rw [List.mem_singleton.mp hmem]
        exact ⟨hname.1, hname.2.1⟩
    rw [List.foldl_cons, join_valid hcs hname, ih hnext hnames, List.append_assoc]
    rfl

end Paths

namespace TreeCaching

variable {C : TreeCaches} {s : TreeCaching} {n m : Nat} {names : List PyStr} {path p : PyStr}

/-! ## Names on the way down -/

theorem Shaped.below_of_descend (h : s.Shaped C) (hdescend : s.descend names n = some m) :
    s.Below n m ∧ (∀ name ∈ names, ValidName name) ∧
      (s.nodes m).path = names.foldl (fun path name => join path [name]) (s.nodes n).path := by
  induction names generalizing n with
  | nil =>
    obtain rfl := Option.some.inj hdescend
    exact ⟨.refl, fun _ hmem => absurd hmem List.not_mem_nil, rfl⟩
  | cons name names ih =>
    obtain ⟨c, hlookup, hdescend⟩ := Option.bind_eq_some_iff.mp hdescend
    have hchild : (name, c) ∈ (s.nodes n).children := (lookup_eq_some_iff_mem (h.nodup n)).mp hlookup
    obtain ⟨-, -, -, hpath, hname⟩ := h.child n name c hchild
    obtain ⟨hbelow, hnames, hm⟩ := ih hdescend
    refine ⟨.head ⟨name, hchild⟩ hbelow, List.forall_mem_cons.mpr ⟨hname, hnames⟩, ?_⟩
    rw [hm, hpath]
    rfl

theorem Shaped.exists_descend (h : s.Shaped C) (hbelow : s.Below n m) :
    ∃ names, s.descend names n = some m := by
  induction hbelow using Relation.ReflTransGen.head_induction_on with
  | refl => exact ⟨[], rfl⟩
  | head hchild _ ih =>
    obtain ⟨name, hchild⟩ := hchild
    obtain ⟨names, hdescend⟩ := ih
    refine ⟨name :: names, ?_⟩
    rw [descend, (lookup_eq_some_iff_mem (h.nodup _)).mpr hchild]
    exact hdescend

/-- In a cache with a normalised root, the names on the way to a node are what its path has more than
the root's. -/
theorem Shaped.path_of_descend (h : s.Shaped C) (hroot : Normalised C.path)
    (hdescend : s.descend names 0 = some m) :
    (s.nodes m).path = absolute (components slash C.path ++ names) [] ∧
      components slash (s.nodes m).path = components slash C.path ++ names := by
  obtain ⟨-, hnames, hpath⟩ := h.below_of_descend hdescend
  have hcs : ∀ comp ∈ components slash C.path, comp ≠ [] ∧ slash ∉ comp := fun _ hc => mem_components hc
  have hm : (s.nodes m).path = absolute (components slash C.path ++ names) [] := by
    rw [hpath, h.rootPath, ← foldl_join hcs hnames, ← hroot.eq_absolute.1]
  refine ⟨hm, ?_⟩
  rw [hm, components_absolute]
  intro comp hmem
  rcases List.mem_append.mp hmem with hmem | hmem
  · exact hcs comp hmem
  · exact ⟨(hnames comp hmem).1, (hnames comp hmem).2.1⟩

/-- The way down finds the node with the path, and nothing if there is none. -/
theorem Shaped.descend_iff (h : s.Shaped C) (hroot : Normalised C.path) (hp : Normalised p)
    (hcomps : components slash p = components slash C.path ++ names) :
    s.descend names 0 = some m ↔ s.Attached m ∧ (s.nodes m).path = p := by
  constructor
  · intro hdescend
    refine ⟨(h.below_of_descend hdescend).1, ?_⟩
    rw [(h.path_of_descend hroot hdescend).1, ← hcomps, ← hp.eq_absolute.1]
  · rintro ⟨hattached, hpath⟩
    obtain ⟨names', hdescend⟩ := h.exists_descend hattached
    have hnames := (h.path_of_descend hroot hdescend).2
    rw [hpath, hcomps] at hnames
    rw [List.append_cancel_left hnames]
    exact hdescend

/-! ## Answers -/

/-- The lookups answer for the node with the path, or with the default if there is none. -/
structure Answers (C : TreeCaches) (s : TreeCaching) (path p : PyStr) : Prop where
  found : ∀ n, s.Attached n → (s.nodes n).path = p →
    (∀ default, s.getData C path default = .ok (s.nodes n).data) ∧
      ∀ default, s.getChildren C path default = .ok (some ((s.nodes n).children.map Prod.fst))
  missing : (∀ n, s.Attached n → (s.nodes n).path ≠ p) →
    (∀ default, s.getData C path default = .ok default) ∧
      ∀ default, s.getChildren C path default = .ok default

/-- The lookups raise `ValueError`. -/
def Refuses (C : TreeCaches) (s : TreeCaching) (path : PyStr) : Prop :=
  (∀ default, s.getData C path default = .error .valueError) ∧
    ∀ default, s.getChildren C path default = .error .valueError

/-- The lookups refuse the paths that are not in the tree, and answer for all others.  A path that
`normpath` refuses is that of no node. -/
def LooksUp (C : TreeCaches) (s : TreeCaching) (path : PyStr) : Prop :=
  match normpath path false with
  | .ok p => (¬ Under C.path p → s.Refuses C path) ∧ (Under C.path p → s.Answers C path p)
  | .error _ => s.Refuses C path ∨ (∀ default, s.getData C path default = .ok default) ∧
      ∀ default, s.getChildren C path default = .ok default

theorem findNode_eq (C : TreeCaches) (s : TreeCaching) (path : PyStr) : s.findNode C path =
    if C.path <+: path then .ok (s.descend (components slash (path.drop C.path.length)) 0)
    else .error .valueError := by
  have hstrip (rest : PyStr) : components slash (stripSlash rest) = components slash rest := by
    rw [stripSlash, components_rdropWhile, lstripSlash, components_dropWhile]
  unfold findNode
  simp only [List.isPrefixOf_iff_prefix]
  rw [← hstrip]
  rfl

theorem refuses_iff : s.Refuses C path ↔ ¬ C.path <+: path := by
  unfold Refuses getData getChildren
  rw [findNode_eq]
  split
  · next hpre => exact iff_of_false (fun h => nomatch h.1 none) (not_not.mpr hpre)
  · next hpre => exact iff_of_true ⟨fun _ => rfl, fun _ => rfl⟩ hpre

/-- What is found is the answer. -/
theorem answers_of_findNode {found : Option Nat} (hfind : s.findNode C path = .ok found)
    (hfound : ∀ m, found = some m ↔ s.Attached m ∧ (s.nodes m).path = p) : s.Answers C path p := by
  constructor
  · intro n hattached hpath
    obtain rfl := (hfound n).mpr ⟨hattached, hpath⟩
    unfold getData getChildren
    rw [hfind]
    exact ⟨fun _ => rfl, fun _ => rfl⟩
  · intro hmissing
    have hnone : found = none := by
      refine Option.eq_none_iff_forall_not_mem.mpr fun m hm => ?_
      obtain ⟨hattached, hpath⟩ := (hfound m).mp hm
      exact hmissing m hattached hpath
    subst hnone
    unfold getData getChildren
    rw [hfind]
    exact ⟨fun _ => rfl, fun _ => rfl⟩

theorem not_refuses_of_answers (h : s.Answers C path p) : ¬ s.Refuses C path := by
  rintro ⟨hrefuses, -⟩
  by_cases hfound : ∃ n, s.Attached n ∧ (s.nodes n).path = p
  · obtain ⟨n, hattached, hpath⟩ := hfound
    cases ((h.found n hattached hpath).1 none).symm.trans (hrefuses none)
  · have hmissing : ∀ n, s.Attached n → (s.nodes n).path ≠ p :=
      fun n hattached hpath => hfound ⟨n, hattached, hpath⟩
    cases ((h.missing hmissing).1 none).symm.trans (hrefuses none)

/-- No node has a relative name. -/
theorem Shaped.defaults_of_dotted (h : s.Shaped C) (hroot : Normalised C.path)
    (hpre : C.path <+: path) (hdotted : Dotted path) :
    (∀ default, s.getData C path default = .ok default) ∧
      ∀ default, s.getChildren C path default = .ok default := by
  obtain ⟨rest, rfl⟩ := hpre
  have hnone : s.descend (components slash rest) 0 = none := by
    refine Option.eq_none_iff_forall_not_mem.mpr fun m hm => dotted_rest hroot hdotted fun comp hmem => ?_
    obtain ⟨-, -, hdot⟩ := (h.below_of_descend hm).2.1 comp hmem
    exact hdot
  have hfind : s.findNode C (C.path ++ rest) = .ok none := by
    rw [findNode_eq, if_pos (List.prefix_append _ _), List.drop_left, hnone]
  unfold getData getChildren
  rw [hfind]
  exact ⟨fun _ => rfl, fun _ => rfl⟩

/-- The lookups are right for a path exactly if its text does not go on in the middle of the root's
last component, and does not lead through the root in another spelling; a path with a relative
component is that of no node in any case. -/
theorem lookups_answer (hr : (treeCaching C).Reachable s) (hroot : Normalised C.path)
    (habs : isabs path = true) :
    s.LooksUp C path ↔ Dotted path ∨ ¬ Extends C.path path ∧ ¬ Respelled C.path path := by
  have h := (sound_of_reach hr).shaped
  unfold LooksUp
  cases hnorm : normpath path false with
  | error e =>
    have hdotted := (normpath_eq_error_iff.mp hnorm).2
    refine iff_of_true ?_ (.inl hdotted)
    by_cases hpre : C.path <+: path
    · exact .inr (h.defaults_of_dotted hroot hpre hdotted)
    · exact .inl (refuses_iff.mpr hpre)
  | ok p =>
    obtain ⟨hp, hcomps⟩ := normalised_of_normpath habs hnorm
    dsimp only
    rw [or_iff_right (normpath_eq_ok_iff.mp hnorm).1, under_iff hroot hp, hcomps]
    by_cases hpre : C.path <+: path
    · have hspelled : ¬ Respelled C.path path := fun h' => h'.1 hpre
      rw [and_iff_left hspelled]
      by_cases hextends : Extends C.path path
      · refine iff_of_false (fun hright => ?_) (not_not.mpr hextends)
        exact refuses_iff.mp (hright.1 (not_isPrefix_of_extends hroot hextends)) hpre
      · obtain ⟨rest, rfl⟩ := hpre
        have hrest := components_of_isPrefix hroot habs rfl hextends
        have hfind : s.findNode C (C.path ++ rest) = .ok (s.descend (components slash rest) 0) := by
          rw [findNode_eq, if_pos (List.prefix_append _ _), List.drop_left]
        refine iff_of_true ⟨fun hnot => ?_, fun _ => ?_⟩ hextends
        · exact absurd (hrest ▸ List.prefix_append _ _) hnot
        · exact answers_of_findNode hfind fun m => h.descend_iff hroot hp (hcomps.trans hrest)
    · have hextends : ¬ Extends C.path path := by
        rintro ⟨-, a, rest, rfl, -⟩
        exact hpre (List.prefix_append _ _)
      rw [and_iff_right hextends, Respelled, and_iff_right hpre]
      constructor
      · exact fun hright hunder => not_refuses_of_answers (hright.2 hunder) (refuses_iff.mpr hpre)
      · exact fun hnot => ⟨fun _ => refuses_iff.mpr hpre, fun hunder => absurd hunder hnot⟩

/-- The first node below the root has its answers, too. -/
def grown : List TreeCacheAct :=
  growing [[str "a"], [str "a", str "b"]] ++
    [.answer, .answer, .read [], .read [], .complete, .complete, .background, .background]

theorem normalised_nodeCache : Normalised nodeCache.path := by decide +kernel

/-- `/a/b` is asked for under its name. -/
theorem lookups_answer_nodeCache :
    ((treeCaching nodeCache).exec (.init nodeCache) grown).LooksUp nodeCache (str "/a//b/") ↔
      Dotted (str "/a//b/") ∨
        ¬ Extends nodeCache.path (str "/a//b/") ∧ ¬ Respelled nodeCache.path (str "/a//b/") :=
  lookups_answer (.of_legal (by decide +kernel)) normalised_nodeCache (by decide +kernel)

/-- The data of `/a/b` is the answer for `/ab`. -/
theorem lookups_answer_for_another :
    ¬ ∀ (C : TreeCaches) (s : TreeCaching) (path : PyStr), (treeCaching C).Reachable s →
      Normalised C.path → isabs path = true → s.LooksUp C path := by
  intro h
  have hr : (treeCaching nodeCache).Reachable ((treeCaching nodeCache).exec (.init nodeCache) grown) :=
    .of_legal (by decide +kernel)
  have hright := h nodeCache _ (str "/ab") hr normalised_nodeCache (by decide +kernel)
  have hnorm : normpath (str "/ab") false = .ok (str "/ab") := by decide +kernel
  unfold LooksUp at hright
  rw [hnorm] at hright
  have hanswer : ((treeCaching nodeCache).exec (.init nodeCache) grown).getData nodeCache (str "/ab") none =
      .ok (some ⟨str "/a/b", [], ⟨2, 2, 0, 0, 0, 0, 0, 0, 0, 0, 2⟩⟩) := by decide +kernel
  have hunder : ¬ Under nodeCache.path (str "/ab") := by decide +kernel
  cases hanswer.symm.trans ((hright.1 hunder).1 none)

end TreeCaching

end Kazoo
