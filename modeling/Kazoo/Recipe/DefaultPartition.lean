import Kazoo.Recipe.Partitioner

/-!
# The default partition function

`_partitioner` of `kazoo/recipe/partitioner.py`: every member sorts the items and the members by
itself, and takes every `len(workers)`-th item from its own place on.
-/

namespace Kazoo

/-! ## Strides of a list -/

section Strides

variable {κ : Type} {k skip i j : Nat} {items : List κ} {x : κ}

theorem getElem?_everyNth (hk : 0 < k) (n : Nat) :
    (everyNth k skip items)[n]? = items[skip + n * k]? := by
  induction items generalizing skip n with
  | nil => rfl
  | cons y items ih =>
    cases skip with
    | succ skip =>
      rw [everyNth, ih, Nat.add_right_comm, List.getElem?_cons_succ]
    | zero =>
      cases n with
      | zero => simp [everyNth]
      | succ n =>
        have hplace : 0 + (n + 1) * k = k - 1 + n * k + 1 := by
          rw [Nat.add_mul, Nat.one_mul]
          omega
        rw [everyNth, List.getElem?_cons_succ, ih, hplace, List.getElem?_cons_succ]

theorem mem_everyNth (hk : 0 < k) : x ∈ everyNth k skip items ↔ ∃ n, items[skip + n * k]? = some x := by
  rw [List.mem_iff_getElem?]
  exact exists_congr fun n => by rw [getElem?_everyNth hk]

theorem everyNth_sublist : (everyNth k skip items).Sublist items := by
  induction items generalizing skip with
  | nil => exact .refl []
  | cons y items ih =>
    cases skip with
    | zero => exact ih.cons_cons y
    | succ skip => exact ih.cons y

theorem length_everyNth (hk : 0 < k) :
    (everyNth k skip items).length = (items.length + (k - 1) - skip) / k := by
  induction items generalizing skip with
  | nil =>
    rw [everyNth, List.length_nil, Nat.zero_add, Nat.div_eq_of_lt (by omega)]
  | cons y items ih =>
    rw [List.length_cons]
    cases skip with
    | succ skip =>
      rw [everyNth, ih]
      congr 1
      omega
    | zero =>
      have hnext : items.length + 1 + (k - 1) - 0 = items.length + (k - 1) - (k - 1) + k := by omega
      rw [everyNth, List.length_cons, ih, hnext, Nat.add_div_right _ hk]

/-- Two strides with the same step do not differ by more than one. -/
theorem length_everyNth_le (hi : i < k) (hj : j < k) :
    (everyNth k i items).length ≤ (everyNth k j items).length + 1 := by
  have hk : 0 < k := Nat.zero_lt_of_lt hi
  rw [length_everyNth hk, length_everyNth hk, ← Nat.add_div_right _ hk]
  exact Nat.div_le_div_right (by omega)

/-- Every place is in the stride of its remainder. -/
theorem exists_mem_everyNth (hk : 0 < k) (hx : x ∈ items) : ∃ i < k, x ∈ everyNth k i items := by
  obtain ⟨n, hn⟩ := List.mem_iff_getElem?.mp hx
  refine ⟨n % k, Nat.mod_lt n hk, (mem_everyNth hk).mpr ⟨n / k, ?_⟩⟩
  rw [Nat.mul_comm, Nat.mod_add_div]
  exact hn

theorem disjoint_everyNth (hitems : items.Nodup) (hi : i < k) (hj : j < k) (hne : i ≠ j) :
    (everyNth k i items).Disjoint (everyNth k j items) := by
  have hk : 0 < k := Nat.zero_lt_of_lt hi
  intro x hx hx'
  obtain ⟨n, hn⟩ := (mem_everyNth hk).mp hx
  obtain ⟨n', hn'⟩ := (mem_everyNth hk).mp hx'
  have hlt : i + n * k < items.length := (List.getElem?_eq_some_iff.mp hn).1
  have hplace := (List.getElem?_inj hlt hitems).mp (hn.trans hn'.symm)
  apply hne
  calc i = (i + n * k) % k := by rw [Nat.add_mul_mod_self_right, Nat.mod_eq_of_lt hi]
    _ = (j + n' * k) % k := by rw [hplace]
    _ = j := by rw [Nat.add_mul_mod_self_right, Nat.mod_eq_of_lt hj]

end Strides

/-! ## Who gets what -/

section

variable {κ : Type} [LinearOrder κ] {items set : List κ} {members listed : List PyStr} {m m' : PyStr}

/-- The members do not depend on the order in which they are listed. -/
theorem sortedNames_perm (h : listed.Perm members) : sortedNames listed = sortedNames members := by
  refine List.Perm.eq_of_pairwise (fun a b _ _ hab hba => ?_) (pairwise_sortedNames listed)
    (pairwise_sortedNames members) ?_
  · exact List.le_antisymm hab hba
  · exact ((List.perm_insertionSort _ listed).trans h).trans (List.perm_insertionSort _ members).symm

theorem insertionSort_perm (h : set.Perm items) :
    set.insertionSort (· ≤ ·) = items.insertionSort (· ≤ ·) := by
  refine List.Perm.eq_of_pairwise (fun a b _ _ hab hba => le_antisymm hab hba)
    (List.pairwise_insertionSort _ set) (List.pairwise_insertionSort _ items) ?_
  exact ((List.perm_insertionSort _ set).trans h).trans (List.perm_insertionSort _ items).symm

/-- `workers.index(identifier)`. -/
def place (members : List PyStr) (m : PyStr) : Nat := (sortedNames members).idxOf m

theorem place_lt (hm : m ∈ members) : place members m < members.length := by
  have hlength : (sortedNames members).length = members.length := length_sortedNames
  rw [← hlength]
  exact List.idxOf_lt_length_of_mem (mem_sortedNames.mpr hm)

theorem place_injective (hm : m ∈ members) (h : place members m = place members m') : m = m' :=
  (List.idxOf_inj (mem_sortedNames.mpr hm)).mp h

theorem exists_place (hmembers : members.Nodup) {i : Nat} (hi : i < members.length) :
    ∃ m ∈ members, place members m = i := by
  have hi' : i < (sortedNames members).length := by rwa [length_sortedNames]
  have hnodup : (sortedNames members).Nodup :=
    (List.perm_insertionSort _ members).nodup_iff.mpr hmembers
  exact ⟨_, mem_sortedNames.mp (List.getElem_mem hi'), hnodup.idxOf_getElem i hi'⟩

/-- `ShallowParty` finds the identifier in the node of the member, as no `uuid` has a hyphen. -/
theorem memberIdentifier_node {uuid : PyStr} (huuid : CodePoint.ofChar '-' ∉ uuid) (identifier : PyStr) :
    memberIdentifier (uuid ++ CodePoint.ofChar '-' :: identifier) = identifier := by
  rw [memberIdentifier, if_pos (by simp), List.idxOf_append_of_notMem huuid, List.idxOf_cons_self,
    Nat.add_zero, List.drop_append, List.drop_eq_nil_of_le (Nat.le_succ _), Nat.add_sub_cancel_left]
  rfl

/-- What the member gets. -/
def share (members : List PyStr) (items : List κ) (m : PyStr) : List κ :=
  everyNth members.length (place members m) (items.insertionSort (· ≤ ·))

theorem partitioner_eq (hm : m ∈ members) (hlisted : listed.Perm members) (hset : set.Perm items) :
    partitioner m listed set = .ok (share members items m) := by
  have hm' : m ∈ sortedNames members := mem_sortedNames.mpr hm
  have hplace : (sortedNames members).idxOf? m = some (place members m) :=
    List.idxOf?_eq_some_iff.mpr ⟨List.idxOf_lt_length_of_mem hm', List.getElem_idxOf _,
      fun j hj => by simpa using List.not_of_lt_findIdx hj⟩
  have hworkers : listed.insertionSort (fun m m' => ¬ m' < m) = sortedNames members :=
    sortedNames_perm hlisted
  simp only [partitioner]
  rw [hworkers, insertionSort_perm hset, hplace, length_sortedNames]
  rfl

theorem mem_share_iff (hmembers : members.Nodup) (hm : m ∈ members) {x : κ} :
    x ∈ items ↔ ∃ m ∈ members, x ∈ share members items m := by
  constructor
  · intro hx
    obtain ⟨i, hi, hmem⟩ := exists_mem_everyNth (List.length_pos_of_mem hm)
      ((List.mem_insertionSort (· ≤ ·)).mpr hx)
    obtain ⟨m, hm, rfl⟩ := exists_place hmembers hi
    exact ⟨m, hm, hmem⟩
  · rintro ⟨m, -, hx⟩
    exact (List.mem_insertionSort _).mp (mem_of_mem_everyNth hx)

theorem disjoint_share (hitems : items.Nodup) (hm : m ∈ members) (hm' : m' ∈ members) (hne : m ≠ m') :
    (share members items m).Disjoint (share members items m') := by
  refine disjoint_everyNth ?_ (place_lt hm) (place_lt hm') fun h => hne (place_injective hm h)
  exact (List.perm_insertionSort _ items).nodup_iff.mpr hitems

end

/-- However the members and the items are listed, each member gets a sorted list, no two get the same
item, together they get all, and nobody gets more than one item more than another. -/
theorem default_partition {κ : Type} [LinearOrder κ] {items : List κ} {members : List PyStr}
    (hitems : items.Nodup) (hmembers : members.Nodup) :
    ∃ share : PyStr → List κ,
      (∀ m ∈ members, ∀ listed set, listed.Perm members → set.Perm items →
        partitioner m listed set = .ok (share m)) ∧
      (∀ m ∈ members, ∀ m' ∈ members, m ≠ m' → (share m).Disjoint (share m')) ∧
      (members ≠ [] → ∀ x, x ∈ items ↔ ∃ m ∈ members, x ∈ share m) ∧
      (∀ m ∈ members, (share m).Pairwise (· < ·)) ∧
      ∀ m ∈ members, ∀ m' ∈ members, (share m).length ≤ (share m').length + 1 := by
  refine ⟨share members items, fun m hm listed set => partitioner_eq hm,
    fun m hm m' hm' => disjoint_share hitems hm hm', fun hne x => ?_, fun m _ => ?_,
    fun m hm m' hm' => length_everyNth_le (place_lt hm) (place_lt hm')⟩
  · obtain ⟨m, hm⟩ := List.exists_mem_of_ne_nil members hne
    exact mem_share_iff hmembers hm
  · have hsublist : (share members items m).Sublist (items.insertionSort (· ≤ ·)) := everyNth_sublist
    have hsorted := (List.pairwise_insertionSort (· ≤ ·) items).sublist hsublist
    have hnodup : (share members items m).Nodup :=
      ((List.perm_insertionSort _ items).nodup_iff.mpr hitems).sublist everyNth_sublist
    exact hsorted.imp₂ (fun a b hle hne => lt_of_le_of_ne hle hne) hnodup

/-- Two members that list everything the other way round. -/
theorem default_partition_pair :
    ∃ share : PyStr → List Nat, share (str "a") = [1, 3] ∧ share (str "b") = [2] ∧
      partitioner (str "a") [str "a", str "b"] [1, 2, 3] = .ok (share (str "a")) ∧
      partitioner (str "b") [str "b", str "a"] [3, 1, 2] = .ok (share (str "b")) ∧
      (share (str "a")).Disjoint (share (str "b")) := by
  obtain ⟨share, hshare, hdisjoint, -⟩ := @default_partition Nat _ [1, 2, 3]
    [str "a", str "b"] (by decide) (by decide)
  have ha := hshare (str "a") (by decide) [str "a", str "b"] [1, 2, 3] (.refl _) (.refl _)
  have hb := hshare (str "b") (by decide) [str "b", str "a"] [3, 1, 2] (by decide) (by decide)
  have ha' : partitioner (str "a") [str "a", str "b"] [1, 2, 3] = .ok [1, 3] := by decide +kernel
  have hb' : partitioner (str "b") [str "b", str "a"] [3, 1, 2] = .ok [2] := by decide +kernel
  exact ⟨share, Except.ok.inj (ha.symm.trans ha'), Except.ok.inj (hb.symm.trans hb'), ha, hb,
    hdisjoint _ (by decide) _ (by decide) (by decide)⟩

end Kazoo
