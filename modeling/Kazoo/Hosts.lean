import Kazoo.Chroot

/-!
# Hosts — what `set_hosts` accepts, and what it leaves behind

`set_hosts` reads the hosts, normalizes the chroot and compares it with the one it has, and assigns
in between.
-/

namespace Kazoo

section OneCall

variable {urlsplit : PyStr → Except Exn SplitResult} {hosts hosts' : Hosts}
  {randomizeHosts : Option Bool} {c c' : HostConfig}

namespace HostConfig

variable (urlsplit) in
/-- The hosts can be read, and the chroot is the one that the client has, if it has one. -/
def Accepts (c : HostConfig) (hosts : Hosts) : Prop :=
  ∃ addresses chroot new, collectHosts urlsplit hosts = .ok (addresses, chroot) ∧
    newChroot chroot = .ok new ∧ ∀ old, c.chroot = some old → new = old

variable (urlsplit) in
/-- Nothing that is assigned before the last check is changed by it. -/
def KeepsAssigned (c : HostConfig) (hosts : Hosts) (randomizeHosts : Option Bool) : Prop :=
  (∀ randomize, randomizeHosts = some randomize → randomize = c.randomizeHosts) ∧
    ∀ addresses chroot, collectHosts urlsplit hosts = .ok (addresses, chroot) → addresses = c.hosts

variable (urlsplit) in
/-- When the call raises, the client is as it was. -/
def AllOrNothing (c : HostConfig) (hosts : Hosts) (randomizeHosts : Option Bool) : Prop :=
  ∀ e, (setHosts urlsplit hosts randomizeHosts c).1 = .error e →
    (setHosts urlsplit hosts randomizeHosts c).2 = c

end HostConfig

theorem setHosts_of_unread {e : Exn} (hread : collectHosts urlsplit hosts = .error e) :
    setHosts urlsplit hosts randomizeHosts c =
      (.error e, { c with randomizeHosts := randomizeHosts.getD c.randomizeHosts }) := by
  unfold setHosts
  rw [hread]

variable (randomizeHosts c) in
/-- Once the hosts are read, they are assigned, whatever becomes of the chroot. -/
theorem setHosts_of_read {addresses : List (PyStr × Nat)} {chroot : Option PyStr}
    (hread : collectHosts urlsplit hosts = .ok (addresses, chroot)) :
    (∃ e, ¬ c.Accepts urlsplit hosts ∧ setHosts urlsplit hosts randomizeHosts c =
      (.error e, ⟨randomizeHosts.getD c.randomizeHosts, addresses, c.chroot⟩)) ∨
    ∃ new, newChroot chroot = .ok new ∧ c.Accepts urlsplit hosts ∧
      setHosts urlsplit hosts randomizeHosts c =
        (.ok (), ⟨randomizeHosts.getD c.randomizeHosts, addresses, some new⟩) := by
  have hsame : ∀ {addresses' chroot'}, collectHosts urlsplit hosts = .ok (addresses', chroot') →
      chroot = chroot' := fun h => (Prod.mk.inj (Except.ok.inj (hread.symm.trans h))).2
  unfold setHosts
  rw [hread]
  dsimp only
  cases hnew : newChroot chroot with
  | error e =>
    refine .inl ⟨e, ?_, rfl⟩
    rintro ⟨_, _, new, hcollect, hok, -⟩
    rw [← hsame hcollect, hnew] at hok
    cases hok
  | ok new =>
    dsimp only
    cases hold : c.chroot with
    | none =>
      refine .inr ⟨new, rfl, ⟨addresses, chroot, new, hread, hnew, ?_⟩, rfl⟩
      rw [hold]
      exact fun _ h => nomatch h
    | some old =>
      rw [Option.any_some]
      by_cases heq : old = new
      · rw [if_neg (by rw [bne_iff_ne, not_not]; exact heq)]
        refine .inr ⟨new, rfl, ⟨addresses, chroot, new, hread, hnew, ?_⟩, rfl⟩
        rw [hold]
        exact fun _ h => heq.symm.trans (Option.some.inj h)
      · rw [if_pos (bne_iff_ne.mpr heq)]
        refine .inl ⟨_, ?_, rfl⟩
        rintro ⟨_, _, new', hcollect, hok, hkept⟩
        rw [← hsame hcollect, hnew] at hok
        exact heq ((hkept old hold).symm.trans (Except.ok.inj hok).symm)

/-- `set_hosts` is all-or-nothing for the arguments that it accepts, and for those that change
neither the hosts nor the flag on the way to the check that they fail. -/
theorem setHosts_allOrNothing_iff :
    c.AllOrNothing urlsplit hosts randomizeHosts ↔
      c.Accepts urlsplit hosts ∨ c.KeepsAssigned urlsplit hosts randomizeHosts := by
  have hflag : (randomizeHosts.getD c.randomizeHosts = c.randomizeHosts) ↔
      ∀ randomize, randomizeHosts = some randomize → randomize = c.randomizeHosts := by
    cases randomizeHosts <;> simp
  unfold HostConfig.AllOrNothing HostConfig.KeepsAssigned
  rw [← hflag]
  cases hread : collectHosts urlsplit hosts with
  | error e =>
    have hnot : ¬ c.Accepts urlsplit hosts := by
      rintro ⟨_, _, _, hcollect, -⟩
      rw [hread] at hcollect
      cases hcollect
    rw [setHosts_of_unread hread, or_iff_right hnot]
    constructor
    · intro h
      exact ⟨congrArg HostConfig.randomizeHosts (h e rfl), fun _ _ h => nomatch h⟩
    · rintro ⟨hkept, -⟩ _ -
      rw [hkept]
  | ok collected =>
    obtain ⟨addresses, chroot⟩ := collected
    rcases setHosts_of_read randomizeHosts c hread with
      ⟨e, hnot, hset⟩ | ⟨new, -, haccepts, hset⟩
    · rw [hset, or_iff_right hnot]
      constructor
      · intro h
        have hsame := h e rfl
        refine ⟨congrArg HostConfig.randomizeHosts hsame, fun _ _ hcollect => ?_⟩
        rw [← (Prod.mk.inj (Except.ok.inj hcollect)).1]
        exact congrArg HostConfig.hosts hsame
      · rintro ⟨hkept, hhosts⟩ _ -
        rw [hkept, hhosts addresses chroot rfl]
    · rw [hset]
      exact iff_of_true (fun e h => nomatch h) (.inl haccepts)

/-- The answers of `urlsplit` to `"xxx://127.0.0.1:2181"` and `"xxx://127.0.0.2:2181"`. -/
def loopbacks (url : PyStr) : Except Exn SplitResult :=
  if url = str "xxx://127.0.0.2:2181" then .ok ⟨some (str "127.0.0.2"), .ok (some 2181)⟩
  else localhost url

/-- A change of the chroot is refused after the hosts have been replaced. -/
theorem setHosts_replaces_hosts :
    ¬ ∀ (urlsplit : PyStr → Except Exn SplitResult) (c : HostConfig) (hosts : Hosts)
      (randomizeHosts : Option Bool), c.AllOrNothing urlsplit hosts randomizeHosts := by
  intro h
  have hkept := h loopbacks ⟨true, [(str "127.0.0.1", 2181)], some []⟩
    (.text (str "127.0.0.2:2181/new_chroot")) none .configurationError (by decide +kernel)
  exact absurd (congrArg HostConfig.hosts hkept) (by decide +kernel)

end OneCall

/-! ## The two forms -/

def comma : CodePoint := CodePoint.ofChar ','

/-- The entries joined by commas, followed by the chroot. -/
def Hosts.joined (entries : List PyStr) (chroot : PyStr) : Hosts :=
  .text ([comma].intercalate entries ++ chroot)

/-- The entries, followed by the chroot if there is one. -/
def Hosts.listed (entries : List PyStr) (chroot : PyStr) : Hosts :=
  .list (entries ++ if chroot = [] then [] else [chroot])

/-- Both calls raise, or they leave the same hosts and the same chroot. -/
def Agree (r r' : Except Exn Unit × HostConfig) : Prop :=
  (∃ e e', r.1 = .error e ∧ r'.1 = .error e') ∨
    r.1 = .ok () ∧ r'.1 = .ok () ∧ r.2.hosts = r'.2.hosts ∧ r.2.chroot = r'.2.chroot

section Forms

variable {urlsplit : PyStr → Except Exn SplitResult} {entries : List PyStr} {chroot : PyStr}
  {randomizeHosts : Option Bool} {c : HostConfig}

theorem notMem_intercalate {a : CodePoint} (hsep : a ≠ comma) (h : ∀ entry ∈ entries, a ∉ entry) :
    a ∉ [comma].intercalate entries := by
  induction entries with
  | nil => exact List.not_mem_nil
  | cons entry entries ih =>
    obtain ⟨hentry, hentries⟩ := List.forall_mem_cons.mp h
    cases entries with
    | nil => simpa [List.intercalate] using hentry
    | cons other entries =>
      have hrest := ih hentries
      simp only [List.intercalate, List.intersperse, List.flatten_cons, List.mem_append,
        List.mem_singleton, not_or] at hrest ⊢
      exact ⟨hentry, hsep, hrest⟩

theorem partitionSlash_append {front : PyStr} (hfront : slash ∉ front)
    (hchroot : chroot = [] ∨ isabs chroot = true) :
    partitionSlash (front ++ chroot) = (front, chroot.drop 1) := by
  have hall : ∀ a ∈ front, (a != slash) = true := fun a ha =>
    bne_iff_ne.mpr fun heq => hfront (heq ▸ ha)
  rw [partitionSlash, List.takeWhile_append_of_pos hall, List.dropWhile_append_of_pos hall]
  rcases hchroot with rfl | habs
  · simp
  · obtain ⟨rest, rfl⟩ := isabs_iff.mp habs
    simp

theorem isabs_strip (h : isabs chroot = true) : isabs chroot.strip = true := by
  obtain ⟨rest, rfl⟩ := isabs_iff.mp h
  have hslash : slash.isSpace = false := by decide
  rw [PyStr.strip, List.dropWhile_cons_of_neg (by rw [hslash]; exact Bool.false_ne_true),
    List.reverse_cons]
  -- the slash in front stays, whatever is cut off at the end
  induction rest.reverse with
  | nil => rw [List.nil_append, List.dropWhile_cons_of_neg (by rw [hslash]; decide)]; rfl
  | cons a back ih =>
    rw [List.cons_append, List.dropWhile_cons]
    split
    · exact ih
    · simp [isabs]

theorem not_isabs_strip (h : slash ∉ chroot) : isabs chroot.strip = false := by
  by_contra habs
  obtain ⟨rest, hrest⟩ := isabs_iff.mp (by simpa using habs)
  have hmem : slash ∈ chroot.strip := hrest ▸ List.mem_cons_self
  rw [PyStr.strip, List.mem_reverse] at hmem
  have hmem := (List.dropWhile_suffix _).subset hmem
  rw [List.mem_reverse] at hmem
  exact h ((List.dropWhile_suffix _).subset hmem)

/-- The string form. -/
theorem splitChroot_joined (hne : entries ≠ [])
    (hentries : ∀ entry ∈ entries, comma ∉ entry ∧ slash ∉ entry)
    (hchroot : chroot = [] ∨ isabs chroot = true) :
    splitChroot (.joined entries chroot) =
      .ok (entries, if chroot = [] ∨ chroot = [slash] then none else some chroot) := by
  have hfront : slash ∉ [comma].intercalate entries :=
    notMem_intercalate (by decide) fun entry h => (hentries entry h).2
  have hcut : ([comma].intercalate entries).splitOn comma = entries :=
    List.splitOn_intercalate _ (fun entry h => (hentries entry h).1) hne
  rw [Hosts.joined, splitChroot, partitionSlash_append hfront hchroot]
  dsimp only
  rw [show CodePoint.ofChar ',' = comma from rfl, hcut]
  rcases hchroot with rfl | habs
  · rfl
  · obtain ⟨rest, rfl⟩ := isabs_iff.mp habs
    simp

/-- The list form. -/
theorem splitChroot_listed (hne : entries ≠ [])
    (hentries : ∀ entry ∈ entries, slash ∉ entry) (hchroot : chroot = [] ∨ isabs chroot = true) :
    splitChroot (.listed entries chroot) =
      .ok (entries, if chroot = [] then none else some chroot) := by
  rw [Hosts.listed, splitChroot]
  by_cases hempty : chroot = []
  · obtain ⟨front, last, rfl⟩ := (List.eq_nil_or_concat' entries).resolve_left hne
    have hlast : slash ∉ last := hentries last (by simp)
    rw [if_pos hempty, if_pos hempty, List.append_nil, List.getLast?_concat]
    dsimp only
    rw [if_neg (by rw [not_isabs_strip hlast]; exact Bool.false_ne_true)]
  · rw [if_neg hempty, if_neg hempty, List.getLast?_concat]
    dsimp only
    rw [if_pos (isabs_strip (hchroot.resolve_left hempty)), List.dropLast_concat]

theorem mapM_eq_error_iff {α β : Type} {f : α → Except Exn β} {l : List α} :
    (∃ e, l.mapM f = .error e) ↔ ∃ a ∈ l, ∃ e, f a = .error e := by
  induction l with
  | nil => exact iff_of_false (fun ⟨_, h⟩ => nomatch h) (fun ⟨_, h, _⟩ => absurd h List.not_mem_nil)
  | cons a l ih =>
    rw [List.mapM_cons, List.exists_mem_cons_iff, ← ih]
    cases ha : f a with
    | error e => exact iff_of_true ⟨e, rfl⟩ (.inl ⟨e, rfl⟩)
    | ok b =>
      cases hl : l.mapM f with
      | error e => exact iff_of_true ⟨e, rfl⟩ (.inr ⟨e, rfl⟩)
      | ok bs => exact iff_of_false (fun ⟨_, h⟩ => nomatch h) (by rintro (⟨_, h⟩ | ⟨_, h⟩) <;> cases h)

/-- Two arguments that are cut in the same way are one argument to `set_hosts`. -/
theorem setHosts_congr {hosts hosts' : Hosts} (h : splitChroot hosts = splitChroot hosts') :
    setHosts urlsplit hosts randomizeHosts c = setHosts urlsplit hosts' randomizeHosts c := by
  have hcollect : collectHosts urlsplit hosts = collectHosts urlsplit hosts' := by
    rw [collectHosts, h]
    rfl
  rw [setHosts, setHosts, hcollect]

theorem Agree.refl (r : Except Exn Unit × HostConfig) : Agree r r := by
  cases h : r.1 with
  | error e => exact .inl ⟨e, e, h, h⟩
  | ok u => exact .inr ⟨h, h, rfl, rfl⟩

variable (urlsplit) in
theorem collectHosts_of_split {hosts : Hosts} {root : Option PyStr}
    (h : splitChroot hosts = .ok (entries, root)) :
    collectHosts urlsplit hosts = (do return (← entries.mapM (collectHost urlsplit), root)) := by
  rw [collectHosts, h]
  rfl

/-- A lone slash behind the hosts: no chroot to the string form, the chroot `"/"` to the list form. -/
theorem agree_slash_iff {text list : Hosts} (htext : splitChroot text = .ok (entries, none))
    (hlist : splitChroot list = .ok (entries, some [slash])) :
    Agree (setHosts urlsplit text randomizeHosts c) (setHosts urlsplit list randomizeHosts c) ↔
      (∃ entry ∈ entries, ∃ e, collectHost urlsplit entry = .error e) ∨
        ∃ old, c.chroot = some old ∧ old ≠ [] ∧ old ≠ [slash] := by
  have htext := collectHosts_of_split urlsplit htext
  have hlist := collectHosts_of_split urlsplit hlist
  have hroot : newChroot (some [slash]) = .ok [slash] := by decide +kernel
  rw [← mapM_eq_error_iff]
  cases hread : entries.mapM (collectHost urlsplit) with
  | error e =>
    rw [hread] at htext hlist
    rw [setHosts_of_unread htext, setHosts_of_unread hlist]
    exact iff_of_true (.inl ⟨e, e, rfl, rfl⟩) (.inl ⟨e, rfl⟩)
  | ok addresses =>
    rw [hread] at htext hlist
    have htext : collectHosts urlsplit text = .ok (addresses, none) := htext
    have hlist : collectHosts urlsplit list = .ok (addresses, some [slash]) := hlist
    rw [or_iff_right (fun ⟨_, h⟩ => nomatch h)]
    unfold setHosts
    rw [htext, hlist]
    dsimp only
    rw [hroot, show newChroot none = .ok [] from rfl]
    dsimp only
    cases hold : c.chroot with
    | none =>
      refine iff_of_false ?_ (fun ⟨_, h, _⟩ => nomatch h)
      rintro (⟨e, _, h, -⟩ | ⟨-, -, -, h⟩)
      · cases h
      · exact absurd (Option.some.inj h) (by decide)
    | some old =>
      rw [Option.any_some, Option.any_some]
      by_cases hempty : old = []
      · subst hempty
        refine iff_of_false ?_ (fun ⟨old, h, hne, _⟩ => hne (Option.some.inj h).symm)
        rintro (⟨e, _, h, -⟩ | ⟨-, h, -, -⟩) <;> cases h
      · by_cases hslash : old = [slash]
        · subst hslash
          refine iff_of_false ?_ (fun ⟨old, h, _, hne⟩ => hne (Option.some.inj h).symm)
          rintro (⟨_, e, -, h⟩ | ⟨h, -, -, -⟩) <;> cases h
        · rw [if_pos (bne_iff_ne.mpr hempty), if_pos (bne_iff_ne.mpr hslash)]
          exact iff_of_true (.inl ⟨_, _, rfl, rfl⟩) ⟨old, rfl, hempty, hslash⟩

/-- The string form and the list form of one argument agree, but for a chroot that is a lone slash. -/
theorem forms_agree_iff (hne : entries ≠ [])
    (hentries : ∀ entry ∈ entries, comma ∉ entry ∧ slash ∉ entry)
    (hchroot : chroot = [] ∨ isabs chroot = true) :
    Agree (setHosts urlsplit (.joined entries chroot) randomizeHosts c)
        (setHosts urlsplit (.listed entries chroot) randomizeHosts c) ↔
      chroot ≠ [slash] ∨ (∃ entry ∈ entries, ∃ e, collectHost urlsplit entry = .error e) ∨
        ∃ old, c.chroot = some old ∧ old ≠ [] ∧ old ≠ [slash] := by
  have htext := splitChroot_joined hne hentries hchroot
  have hlist := splitChroot_listed hne (fun entry h => (hentries entry h).2) hchroot
  by_cases hslash : chroot = [slash]
  · rw [or_iff_right (not_not.mpr hslash)]
    rw [if_pos (.inr hslash)] at htext
    rw [if_neg (by rw [hslash]; exact List.cons_ne_nil _ _), hslash] at hlist
    exact agree_slash_iff htext (hslash ▸ hlist)
  · refine iff_of_true ?_ (.inl hslash)
    rw [setHosts_congr (htext.trans (Eq.trans ?_ hlist.symm))]
    · exact Agree.refl _
    · simp only [hslash, or_false]

theorem forms_agree_kazoo :
    Agree (setHosts localhost (.joined [str "127.0.0.1:2181"] (str "/kazoo")) none ⟨true, [], none⟩)
      (setHosts localhost (.listed [str "127.0.0.1:2181"] (str "/kazoo")) none ⟨true, [], none⟩) :=
  (forms_agree_iff (by decide) (by decide) (by decide)).mpr (.inl (by decide))

/-- As a list, the same hosts with a slash behind them have a chroot. -/
theorem forms_differ_slash :
    ¬ ∀ (urlsplit : PyStr → Except Exn SplitResult) (entries : List PyStr) (chroot : PyStr)
      (randomizeHosts : Option Bool) (c : HostConfig), entries ≠ [] →
      (∀ entry ∈ entries, comma ∉ entry ∧ slash ∉ entry) → chroot = [] ∨ isabs chroot = true →
      Agree (setHosts urlsplit (.joined entries chroot) randomizeHosts c)
        (setHosts urlsplit (.listed entries chroot) randomizeHosts c) := by
  intro h
  rcases h localhost [str "127.0.0.1:2181"] (str "/") none ⟨true, [], none⟩ (by decide) (by decide)
    (by decide) with ⟨e, _, herror, -⟩ | ⟨-, -, -, hsame⟩
  · exact absurd herror (by
      have hok : (setHosts localhost (.joined [str "127.0.0.1:2181"] (str "/")) none
          ⟨true, [], none⟩).1 = .ok () := by decide +kernel
      rw [hok]
      exact fun h => nomatch h)
  · exact absurd hsame (by decide +kernel)

end Forms

end Kazoo
