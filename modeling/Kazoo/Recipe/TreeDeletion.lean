import Kazoo.Recipe.TreeRuns

/-!
# Deleted nodes of a cache

What is left of a node of a `TreeCache` after `on_deleted`: its parent looks for it under a part of its
path that is its name only below a path without a slash at the end, and no node below it takes its
watcher out of the tables, as its parent has lost its children by then.
-/

namespace Kazoo

namespace TreeCaching

variable {C : TreeCaches} {s s' t : TreeCaching} {n m p fuel : Nat} {name : PyStr}

/-- The parent has no entry for the node, nothing below it can be reached, and no watcher of theirs is
left. -/
structure Left (s s' : TreeCaching) (p n : Nat) : Prop where
  entry : ∀ name, (name, n) ∉ (s'.nodes p).children
  below : ∀ m, s.Below n m → ¬ s'.Attached m
  watchers : ∀ kind m, s.Below n m → m ∉ s'.watchers kind

theorem leave_of_childless (hparent : (s.nodes n).parent = some p) (hnone : (s.nodes p).children = []) :
    s.leave n = s := by
  unfold leave
  rw [hparent]
  dsimp only
  rw [hnone, List.lookup_nil, if_neg (fun h => nomatch h)]

/-- The children of a node are deleted one after the other, and find nothing to do. -/
theorem Shaped.watchers_sweep
    (hdelete : ∀ (t : TreeCaching) (c : Nat), t.Shaped C → t.cacheState ≠ .closed →
      (t.nodes c).parent = some n → n ≠ c → (t.nodes n).children = [] →
        (onDeleted fuel t c).watchers = t.watchers)
    (l : List (PyStr × Nat)) (ht : t.Shaped C) (hopen : t.cacheState ≠ .closed)
    (hnone : (t.nodes n).children = []) (hl : ∀ x ∈ l, (t.nodes x.2).parent = some n ∧ n ≠ x.2) :
    (l.foldl (fun s child => onDeleted fuel s child.2) t).watchers = t.watchers := by
  induction l generalizing t with
  | nil => rfl
  | cons x l ih =>
    obtain ⟨⟨hx, hxn⟩, hl⟩ := List.forall_mem_cons.mp hl
    have hshrinks : Shrinks t (onDeleted fuel t x.2) := shrinks_onDeleted
    refine (ih (ht.shrink hshrinks) ?_ ?_ fun y hy => ?_).trans (hdelete t x.2 ht hopen hx hxn hnone)
    · obtain ⟨e, he, -⟩ : Within t (onDeleted fuel t x.2) := within_onDeleted
      rw [he]
      exact hopen
    · exact List.eq_nil_of_subset_nil (hnone ▸ (hshrinks.children n).subset)
    · rw [hshrinks.parent]
      exact hl y hy

/-- A node whose parent has lost its children keeps its watchers, and so does all that is below it. -/
theorem Shaped.watchers_of_childless (h : s.Shaped C) (hopen : s.cacheState ≠ .closed)
    (hparent : (s.nodes n).parent = some p) (hne : p ≠ n) (hnone : (s.nodes p).children = []) :
    (onDeleted fuel s n).watchers = s.watchers := by
  induction fuel generalizing s n p with
  | zero => rfl
  | succ fuel ih =>
    have hclear : Shrinks s (s.setNode n { s.nodes n with children := [], data := none }) := shrinks_clear
    have hswept : (swept fuel s n).watchers = s.watchers := by
      refine Shaped.watchers_sweep (n := n) (fun t c ht hopen hparent hne hnone => ih ht hopen hparent hne hnone)
        _ (h.shrink hclear) hopen ?_ fun x hx => ?_
      · rw [setNode_nodes_self]
      · obtain ⟨hlt, -, hparent, -⟩ := h.child n x.1 x.2 hx
        exact ⟨(hclear.parent x.2).trans hparent, hlt.ne⟩
    have hshrinks : Shrinks s ((swept fuel s n).die n (s.nodes n)) :=
      (hclear.trans (.foldl (fun _ _ => shrinks_onDeleted) _ _)).trans (shrinks_die _)
    have hleave := leave_of_childless (n := n) (p := p) ((hshrinks.parent n).trans hparent)
      (List.eq_nil_of_subset_nil (hnone ▸ (hshrinks.children p).subset))
    rw [onDeleted_open hopen, hleave, die_watchers, hswept]

theorem Shaped.watchers_swept (h : s.Shaped C) (hopen : s.cacheState ≠ .closed) :
    (swept fuel s n).watchers = s.watchers := by
  have hclear : Shrinks s (s.setNode n { s.nodes n with children := [], data := none }) := shrinks_clear
  refine Shaped.watchers_sweep (n := n) (fun t c ht hopen hparent hne hnone => ?_)
    _ (h.shrink hclear) hopen ?_ fun x hx => ?_
  · exact ht.watchers_of_childless hopen hparent hne hnone
  · rw [setNode_nodes_self]
  · obtain ⟨hlt, -, hparent, -⟩ := h.child n x.1 x.2 hx
    exact ⟨(hclear.parent x.2).trans hparent, hlt.ne⟩

section Child

variable (h : s.Shaped C) (hopen : s.cacheState ≠ .closed) (hchild : (name, n) ∈ (s.nodes p).children)

include h hopen hchild

variable (fuel) in
/-- Everything is as before for the parent when it is asked for the node. -/
theorem Shaped.before_leave :
    ((swept fuel s n).die n (s.nodes n)).watchers = s.watchers ∧
      ((swept fuel s n).die n (s.nodes n)).nodes p = s.nodes p ∧
      ((swept fuel s n).die n (s.nodes n)).nodes n = (s.nodes n).deleted := by
  obtain ⟨hlt, -⟩ := h.child p name n hchild
  obtain ⟨hself, hapart⟩ : ((swept fuel s n).die n (s.nodes n)).nodes n = (s.nodes n).deleted ∧ _ :=
    h.die_swept
  refine ⟨?_, (hapart p fun hb => Nat.not_le_of_lt hlt (h.le_of_below hb)).1, hself⟩
  rw [die_watchers, h.watchers_swept hopen]

/-- Below a path with a slash at the end, the parent is asked for a name that it does not know. -/
theorem Shaped.onDeleted_not_plain (hplain : ¬ PlainPath (s.nodes p).path) :
    (onDeleted (fuel + 1) s n).nodes p = s.nodes p := by
  obtain ⟨hlt, -, hparent, hpath, hname⟩ := h.child p name n hchild
  obtain ⟨-, hp, hself⟩ := h.before_leave fuel hopen hchild
  rw [onDeleted_open hopen]
  generalize (swept fuel s n).die n (s.nodes n) = t at hp hself
  have hparent' : (t.nodes n).parent = some p := by
    rw [hself]
    exact hparent
  have hdrop : (t.nodes n).path.drop ((s.nodes p).path.length + 1) = name.drop 1 := by
    rw [hself, TreeNode.deleted, hpath, drop_join _ hname, if_neg hplain]
  unfold leave
  rw [hparent']
  dsimp only
  rw [hp, hdrop, if_neg, hp]
  intro hlookup
  have hmem := (lookup_eq_some_iff_mem (h.nodup p)).mp hlookup
  have hshort := congrArg List.length (h.parent_unique hchild hmem).2
  rw [List.length_drop] at hshort
  have hpos := List.length_pos_iff.mpr hname.1
  omega

variable (fuel) in
/-- The node itself is taken out of the tables when the parent loses it. -/
theorem Shaped.onDeleted_watchers_plain (hplain : PlainPath (s.nodes p).path) (kind : WatchKind) :
    (onDeleted (fuel + 1) s n).watchers kind = (s.watchers kind).filter (· ≠ n) := by
  obtain ⟨-, -, hparent, hpath, hname⟩ := h.child p name n hchild
  obtain ⟨hwatchers, hp, hself⟩ := h.before_leave fuel hopen hchild
  rw [onDeleted_open hopen]
  generalize (swept fuel s n).die n (s.nodes n) = t at hwatchers hp hself
  have hparent' : (t.nodes n).parent = some p := by
    rw [hself]
    exact hparent
  have hdrop : (t.nodes n).path.drop ((s.nodes p).path.length + 1) = name := by
    rw [hself, TreeNode.deleted, hpath, drop_join _ hname, if_pos hplain]
  unfold leave
  rw [hparent']
  dsimp only
  rw [hp, hdrop, if_pos ((lookup_eq_some_iff_mem (h.nodup p)).mpr hchild)]
  show (t.watchers kind).filter (· ≠ n) = _
  rw [hwatchers]

/-- A node leaves no trace exactly if its parent finds it, and no node below it is watched. -/
theorem Shaped.left_iff (hn : n ≠ 0) :
    Left s (onDeleted (fuel + 1) s n) p n ↔
      PlainPath (s.nodes p).path ∧ ∀ m, s.Below n m → m ≠ n → ∀ kind, m ∉ s.watchers kind := by
  by_cases hplain : PlainPath (s.nodes p).path
  · have hwatchers := h.onDeleted_watchers_plain fuel hopen hchild hplain
    constructor
    · refine fun hleft => ⟨hplain, fun m hb hm kind hwatched => hleft.watchers kind m hb ?_⟩
      rw [hwatchers]
      exact List.mem_filter.mpr ⟨hwatched, decide_eq_true hm⟩
    · rintro ⟨-, hunwatched⟩
      have hentry : ∀ name, (name, n) ∉ ((onDeleted (fuel + 1) s n).nodes p).children :=
        h.onDeleted_left hopen p hplain
      refine ⟨hentry, fun m hb ha => ?_, fun kind m hb hwatched => ?_⟩
      · refine h.not_below_of_left shrinks_onDeleted hn (fun q name' hmem => ?_) ha hb
        obtain ⟨rfl, -⟩ := h.parent_unique hchild ((shrinks_onDeleted.children q).subset hmem)
        exact hentry name' hmem
      · rw [hwatchers] at hwatched
        obtain ⟨hwatched, hm⟩ := List.mem_filter.mp hwatched
        exact hunwatched m hb (of_decide_eq_true hm) kind hwatched
  · refine iff_of_false (fun hleft => hleft.entry name ?_) fun hall => hplain hall.1
    rw [h.onDeleted_not_plain hopen hchild hplain]
    exact hchild

end Child

/-- A node of the cache is stored under its name, and leaves no trace when it is deleted exactly if the
path of its parent does not end in a slash, and no node below it is watched. -/
theorem deleted_leave (hr : (treeCaching C).Reachable s) (hattached : s.Attached n) (hn : n ≠ 0) :
    ∃ p, s.Attached p ∧ (s.nodes n).parent = some p ∧
      (∀ name, (name, n) ∈ (s.nodes p).children ↔
        ValidName name ∧ join (s.nodes p).path [name] = (s.nodes n).path) ∧
      (s.cacheState ≠ .closed → (Left s (onDeleted s.size s n) p n ↔
        PlainPath (s.nodes p).path ∧ ∀ m, s.Below n m → m ≠ n → ∀ kind, m ∉ s.watchers kind)) := by
  have h := (sound_of_reach hr).shaped
  obtain heq | ⟨p, hp, name, hchild⟩ := Relation.ReflTransGen.cases_tail hattached
  · exact absurd heq hn
  obtain ⟨-, -, hparent, hpath, hname⟩ := h.child p name n hchild
  refine ⟨p, hp, hparent, fun name' => ⟨fun hmem => ?_, ?_⟩, fun hopen => ?_⟩
  · obtain ⟨-, -, -, hpath', hname'⟩ := h.child p name' n hmem
    exact ⟨hname', hpath'.symm⟩
  · rintro ⟨hname', hpath'⟩
    rw [(join_inj hname' hname).mp (hpath'.trans hpath)]
    exact hchild
  · obtain ⟨fuel, hsize⟩ := Nat.exists_eq_add_one.mpr h.pos
    rw [hsize]
    exact h.left_iff hopen hchild hn

/-- The child of `/` stays. -/
theorem deleted_child_stays :
    ¬ ∀ (C : TreeCaches) (s : TreeCaching) (n p : Nat), (treeCaching C).Reachable s → s.Attached n →
      n ≠ 0 → s.cacheState ≠ .closed → (s.nodes n).parent = some p →
        Left s (onDeleted s.size s n) p n := by
  intro h
  have hr : (treeCaching rootCache).Reachable
      ((treeCaching rootCache).exec (.init rootCache) (growing [[str "x"]])) :=
    .of_legal (by decide +kernel)
  have hleft := h rootCache _ 1 0 hr (.single ⟨str "x", by decide +kernel⟩) (by decide)
    (by decide +kernel) (by decide +kernel)
  exact hleft.entry (str "x") (by decide +kernel)

theorem deleted_leave_nodeCache :
    let s := (treeCaching nodeCache).exec (.init nodeCache) (growing [[str "a"], [str "a", str "x"]])
    ∃ p, s.Attached p ∧ (s.nodes 1).parent = some p ∧
      (∀ name, (name, 1) ∈ (s.nodes p).children ↔
        ValidName name ∧ join (s.nodes p).path [name] = (s.nodes 1).path) ∧
      (s.cacheState ≠ .closed → (Left s (onDeleted s.size s 1) p 1 ↔
        PlainPath (s.nodes p).path ∧ ∀ m, s.Below 1 m → m ≠ 1 → ∀ kind, m ∉ s.watchers kind)) :=
  deleted_leave (.of_legal (by decide +kernel)) (.single ⟨str "x", by decide +kernel⟩) (by decide)

end TreeCaching

end Kazoo
