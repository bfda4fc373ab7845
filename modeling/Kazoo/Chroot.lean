import Kazoo.Client
import Kazoo.Protocol.Paths

/-!
# Chroot — paths of the caller and paths on the wire

`collect_hosts` and `set_hosts` choose the chroot, `_prefix_root` puts it in front of a path and
`unchroot` takes it off again.  How `urlsplit` reads a host is a parameter: the chroot does not
depend on it.
-/

namespace Kazoo

/-- The characters that `str.strip` removes. -/
def CodePoint.isSpace (c : CodePoint) : Bool :=
  (9 ≤ c.val && c.val ≤ 13) || (28 ≤ c.val && c.val ≤ 32) || (0x2000 ≤ c.val && c.val ≤ 0x200A) ||
    c.val ∈ [0x85, 0xA0, 0x1680, 0x2028, 0x2029, 0x202F, 0x205F, 0x3000]

/-- `s.strip()`. -/
def PyStr.strip (s : PyStr) : PyStr :=
  ((s.dropWhile CodePoint.isSpace).reverse.dropWhile CodePoint.isSpace).reverse

/-! ## Hosts -/

/-- The argument `hosts`: a string or a list of strings. -/
inductive Hosts
  | text (hosts : PyStr)
  | list (hosts : List PyStr)
  deriving DecidableEq, Repr

/-- What is used of a `SplitResult`; reading `port` may raise. -/
structure SplitResult where
  hostname : Option PyStr
  port : Except Exn (Option Nat)

section Hosts

variable (urlsplit : PyStr → Except Exn SplitResult)

/-- `hosts.partition("/")[::2]`. -/
def partitionSlash (hosts : PyStr) : PyStr × PyStr :=
  (hosts.takeWhile (· != slash), (hosts.dropWhile (· != slash)).drop 1)

/-- One turn of the loop of `collect_hosts`. -/
def collectHost (hostPort : PyStr) : Except Exn (PyStr × Nat) := do
  let res ← urlsplit (str "xxx://" ++ hostPort)
  match res.hostname with
  | none => .error .valueError
  | some host => do
    -- port 0 counts as no port
    let port := match ← res.port with
      | some (port + 1) => port + 1
      | _ => 2181
    return (host.strip, port)

/-- The first half of `collect_hosts`: which part of the argument is the chroot. -/
def splitChroot : Hosts → Except Exn (List PyStr × Option PyStr)
  | .list hosts =>
    match hosts.getLast? with
    | none => .error .indexError
    | some last => .ok (if isabs last.strip then (hosts.dropLast, some last) else (hosts, none))
  | .text hosts =>
    let (hostPorts, chroot) := partitionSlash hosts
    .ok (hostPorts.splitOn (CodePoint.ofChar ','),
      if chroot = [] then none else some (slash :: chroot))

def collectHosts (hosts : Hosts) : Except Exn (List (PyStr × Nat) × Option PyStr) := do
  let (hostPorts, chroot) ← splitChroot hosts
  return (← hostPorts.mapM (collectHost urlsplit), chroot)

/-- The attributes of the client that `set_hosts` writes; `chroot` is `None` in `__init__`. -/
structure HostConfig where
  randomizeHosts : Bool
  hosts : List (PyStr × Nat)
  chroot : Option PyStr

/-- The chroot that `set_hosts` makes of the collected one. -/
def newChroot : Option PyStr → Except Exn PyStr
  | none => .ok []
  | some chroot => if chroot = [] then .ok [] else normpath chroot false

def setHosts (hosts : Hosts) (randomizeHosts : Option Bool) (c : HostConfig) :
    Except Exn Unit × HostConfig :=
  let c := { c with randomizeHosts := randomizeHosts.getD c.randomizeHosts }
  match collectHosts urlsplit hosts with
  | .error e => (.error e, c)
  | .ok (hosts, chroot) =>
    let c := { c with hosts := hosts }
    match newChroot chroot with
    | .error e => (.error e, c)
    | .ok new =>
      if c.chroot.any (· != new) then (.error .configurationError, c)
      else (.ok (), { c with chroot := some new })

end Hosts

/-! ## There and back -/

/-- Some character is not a slash. -/
def NamesNode (s : PyStr) : Prop := ∃ c ∈ s, c ≠ slash

instance (s : PyStr) : Decidable (NamesNode s) :=
  decidable_of_iff (s.any (· != slash) = true) (by simp [NamesNode])

theorem components_ne_nil_iff {s : PyStr} : components slash s ≠ [] ↔ NamesNode s := by
  simp [NamesNode, components_eq_nil_iff]

/-- The path on the wire stays under the chroot, and is the caller's own path without it. -/
structure Client.RoundTrip (c : Client) (path : PyStr) (trailing : Bool) (wire : PyStr) :
    Prop where
  confined : wire = c.chroot ∨ c.chroot ++ [slash] <+: wire
  unchrooted : normpath (slash :: path) trailing = .ok (c.unchroot wire)
  absolute : isabs (c.unchroot wire) = true

section RoundTrip

variable {c : Client} {path wire : PyStr} {trailing : Bool}

theorem isabs_normpath {out : PyStr} (h : normpath (slash :: path) trailing = .ok out) :
    isabs out = true := by
  obtain ⟨-, rfl⟩ := normpath_cons_eq_ok_iff.mp h
  exact isabs_absolute _ _

/-- The trailer of a path without components is all there is of it. -/
theorem trailer_of_components_eq_nil (h : components slash path = []) :
    trailer trailing (slash :: path) = if trailing then [slash] else [] := by
  rw [trailer, endswithSlash_of_all h, Bool.and_true]

/-- Without a chroot, a path is on the wire as it was normalized. -/
theorem roundTrip_of_empty (hroot : c.chroot = [])
    (hwire : prefixRoot c.chroot path trailing = .ok wire) : c.RoundTrip path trailing wire := by
  have hunchroot (p : PyStr) : c.unchroot p = p := by rw [Client.unchroot, if_pos hroot]
  rw [hroot, prefixRoot_eq_ok_iff, components_nil, List.nil_append,
    ← normpath_cons_eq_ok_iff] at hwire
  obtain ⟨p, hp⟩ := isabs_iff.mp (isabs_normpath hwire)
  exact {
    confined := Or.inr (by rw [hroot, hp]; exact ⟨p, rfl⟩)
    unchrooted := by rw [hunchroot, hwire]
    absolute := by rw [hunchroot, isabs_normpath hwire] }

theorem unchroot_self (hroot : c.chroot ≠ []) : c.unchroot c.chroot = [slash] := by
  rw [Client.unchroot, if_neg hroot, if_pos rfl]
  rfl

theorem unchroot_append {p : PyStr} (hroot : c.chroot ≠ []) (hp : p ≠ []) :
    c.unchroot (c.chroot ++ p) = p := by
  rw [Client.unchroot, if_neg hroot, if_neg, if_pos, List.drop_left]
  · exact List.isPrefixOf_iff_prefix.mpr (List.prefix_append c.chroot p)
  · intro heq
    exact hp (List.append_cancel_left (heq.symm.trans (List.append_nil c.chroot).symm))

/-- Behind a chroot that names a node there is nothing, or the normalized path. -/
theorem wire_of_rooted {cs : List PyStr} (hcs : cs ≠ [])
    (hproper : ∀ comp ∈ cs, comp ≠ [] ∧ slash ∉ comp) (hroot : c.chroot = rooted slash cs)
    (hwire : prefixRoot c.chroot path trailing = .ok wire) :
    (wire = c.chroot ∧ trailing = false ∧ normpath (slash :: path) trailing = .ok [slash]) ∨
      ∃ p, wire = c.chroot ++ slash :: p ∧
        normpath (slash :: path) trailing = .ok (slash :: p) := by
  rw [prefixRoot_eq_ok_iff, hroot, components_rooted hproper, absolute,
    if_neg (by rw [List.append_eq_nil_iff]; exact fun h => hcs h.1), rooted_append,
    List.append_assoc, ← hroot] at hwire
  obtain ⟨hpath, rfl⟩ := hwire
  have hnorm : normpath (slash :: path) trailing =
      .ok (absolute (components slash path) (trailer trailing (slash :: path))) :=
    normpath_cons_eq_ok_iff.mpr ⟨(Proper.append_iff.mp hpath).2, rfl⟩
  by_cases hcomps : components slash path = []
  · rw [hcomps, absolute, if_pos rfl] at hnorm
    rw [hcomps, trailer_of_components_eq_nil hcomps]
    cases trailing with
    | false => exact Or.inl ⟨List.append_nil c.chroot, rfl, hnorm⟩
    | true => exact Or.inr ⟨[], rfl, hnorm⟩
  · rw [absolute, if_neg hcomps] at hnorm
    obtain ⟨p, hp⟩ := isabs_iff.mp (isabs_normpath hnorm)
    rw [hp] at hnorm ⊢
    exact Or.inr ⟨p, rfl, hnorm⟩

/-- A chroot that names a node is cut off where it was put. -/
theorem roundTrip_of_rooted {cs : List PyStr} (hcs : cs ≠ [])
    (hproper : ∀ comp ∈ cs, comp ≠ [] ∧ slash ∉ comp) (hroot : c.chroot = rooted slash cs)
    (hwire : prefixRoot c.chroot path trailing = .ok wire) : c.RoundTrip path trailing wire := by
  have hne : c.chroot ≠ [] := by rw [hroot, Ne, rooted_eq_nil_iff]; exact hcs
  rcases wire_of_rooted hcs hproper hroot hwire with ⟨rfl, -, hnorm⟩ | ⟨p, rfl, hnorm⟩
  · exact {
      confined := Or.inl rfl
      unchrooted := by rw [unchroot_self hne, hnorm]
      absolute := by rw [unchroot_self hne]; rfl }
  · have hunchroot := unchroot_append hne (List.cons_ne_nil slash p)
    exact {
      confined := Or.inr ⟨p, List.append_assoc _ _ _⟩
      unchrooted := by rw [hunchroot, hnorm]
      absolute := by rw [hunchroot]; rfl }

/-- A sequential node, to whose name the server appends a number, is under the chroot as well and
keeps its number. -/
theorem unchroot_sequential {cs : List PyStr} (hcs : cs ≠ [])
    (hproper : ∀ comp ∈ cs, comp ≠ [] ∧ slash ∉ comp) (hroot : c.chroot = rooted slash cs)
    (hwire : prefixRoot c.chroot path true = .ok wire) (number : PyStr) :
    c.chroot ++ [slash] <+: wire ++ number ∧
      c.unchroot (wire ++ number) = c.unchroot wire ++ number := by
  have hne : c.chroot ≠ [] := by rw [hroot, Ne, rooted_eq_nil_iff]; exact hcs
  rcases wire_of_rooted hcs hproper hroot hwire with ⟨-, htrailing, -⟩ | ⟨p, rfl, -⟩
  · cases htrailing
  · refine ⟨⟨p ++ number, by simp⟩, ?_⟩
    rw [unchroot_append hne (List.cons_ne_nil slash p), List.append_assoc]
    exact unchroot_append hne (List.cons_ne_nil slash (p ++ number))

/-- With the chroot `"/"`, the slash in front of the first component is cut off. -/
theorem roundTrip_slash_iff (hroot : c.chroot = [slash])
    (hwire : prefixRoot c.chroot path trailing = .ok wire) :
    c.RoundTrip path trailing wire ↔ ¬ NamesNode path := by
  have hne : c.chroot ≠ [] := by rw [hroot]; exact List.cons_ne_nil slash []
  rw [hroot, prefixRoot_eq_ok_iff, components_sep, components_nil, List.nil_append,
    ← normpath_cons_eq_ok_iff] at hwire
  rw [← components_ne_nil_iff, not_not]
  constructor
  · intro h
    by_contra hcomps
    obtain ⟨comp, comps, hcons⟩ := List.exists_cons_of_ne_nil hcomps
    obtain ⟨hcomp, hnot⟩ :=
      mem_components (hcons ▸ List.mem_cons_self : comp ∈ components slash path)
    obtain ⟨a, comp, rfl⟩ := List.exists_cons_of_ne_nil hcomp
    have ha : a ≠ slash := fun heq => hnot (heq ▸ List.mem_cons_self)
    obtain ⟨-, hwire⟩ := normpath_cons_eq_ok_iff.mp hwire
    rw [absolute, if_neg hcomps, hcons, rooted_cons] at hwire
    rcases h.confined with hself | ⟨p, hp⟩
    · rw [← hwire, hroot] at hself
      cases hself
    · rw [← hwire, hroot] at hp
      exact ha (List.cons.inj (List.cons.inj hp).2).1.symm
  · intro hcomps
    have hwire' := (normpath_cons_eq_ok_iff.mp hwire).2
    rw [hcomps, absolute, if_pos rfl, ← hroot] at hwire'
    have hunchroot : c.unchroot wire = [slash] := by rw [← hwire', unchroot_self hne]
    exact {
      confined := Or.inl hwire'.symm
      unchrooted := by rw [hunchroot, hwire, ← hwire', hroot]
      absolute := by rw [hunchroot]; rfl }

/-- Behind a chroot without its leading slash nothing is found: the wire path has one. -/
theorem not_roundTrip_of_relative (hroot : isabs c.chroot = false) (hne : c.chroot ≠ [])
    (hwire : prefixRoot c.chroot path trailing = .ok wire) : ¬ c.RoundTrip path trailing wire := by
  intro h
  obtain ⟨-, hwire⟩ := prefixRoot_eq_ok_iff.mp hwire
  have habs : isabs wire = true := hwire ▸ isabs_absolute _ _
  obtain ⟨a, p, hcons⟩ := List.exists_cons_of_ne_nil hne
  rcases h.confined with hself | ⟨q, hq⟩
  · rw [hself, hroot] at habs
    cases habs
  · rw [← hq, hcons] at habs
    rw [hcons] at hroot
    exact absurd (hroot.symm.trans habs) Bool.false_ne_true

end RoundTrip

/-! ## The chroots of `set_hosts` -/

/-- The chroot names a node and is spelled without leading blanks, or there is none; a chroot of
slashes does no harm to a path of slashes. -/
def PlainRoot (hosts : Hosts) (path : PyStr) : Prop :=
  match hosts with
  | .text hosts => (partitionSlash hosts).2 = [] ∨ NamesNode (partitionSlash hosts).2 ∨
      ¬ NamesNode path
  | .list hosts => ∀ last ∈ hosts.getLast?, isabs last.strip = true →
      isabs last = true ∧ (NamesNode last ∨ ¬ NamesNode path)

section SetHosts

variable {urlsplit : PyStr → Except Exn SplitResult} {hosts : Hosts} {c : Client}
  {path wire : PyStr} {trailing : Bool}

/-- An absolute chroot, as it was written, decides about the round trip. -/
theorem roundTrip_iff_of_isabs {written : PyStr}
    (hnew : normpath (slash :: written) false = .ok c.chroot)
    (hwire : prefixRoot c.chroot path trailing = .ok wire) :
    c.RoundTrip path trailing wire ↔ NamesNode written ∨ ¬ NamesNode path := by
  obtain ⟨-, hroot⟩ := normpath_cons_eq_ok_iff.mp hnew
  by_cases hcomps : components slash written = []
  · rw [hcomps, absolute, if_pos rfl] at hroot
    rw [roundTrip_slash_iff hroot.symm hwire, or_iff_right]
    exact fun h => components_ne_nil_iff.mpr h hcomps
  · rw [absolute, if_neg hcomps, trailer, Bool.false_and, if_neg Bool.false_ne_true,
      List.append_nil] at hroot
    exact iff_of_true (roundTrip_of_rooted hcomps (fun comp h => mem_components h) hroot.symm hwire)
      (Or.inl (components_ne_nil_iff.mp hcomps))

/-- A chroot that is relative stays so. -/
theorem normpath_relative {written out : PyStr} (hwritten : isabs written = false)
    (hne : written ≠ []) (h : normpath written false = .ok out) : isabs out = false ∧ out ≠ [] := by
  obtain ⟨comps, hcomps, h⟩ := bind_eq_ok h
  obtain ⟨-, rfl⟩ := newComps_eq_ok_iff.mp hcomps
  simp only [hwritten, Bool.false_and, Bool.false_eq_true, if_false] at h
  obtain rfl := pure_inj h
  have hnames : components slash written ≠ [] := by
    obtain ⟨a, rest, rfl⟩ := List.exists_cons_of_ne_nil hne
    rw [components_ne_nil_iff]
    exact ⟨a, List.mem_cons_self, by simpa [isabs] using hwritten⟩
  obtain ⟨comp, comps, hcons⟩ := List.exists_cons_of_ne_nil hnames
  obtain ⟨a, p, hp, ha⟩ := intercalate_eq_cons fun comp hcomp =>
    mem_components (hcons ▸ hcomp : comp ∈ components slash written)
  rw [← hcons, components] at hp
  rw [hp]
  exact ⟨by simpa [isabs] using ha, List.cons_ne_nil a p⟩

theorem namesNode_cons_slash {s : PyStr} : NamesNode (slash :: s) ↔ NamesNode s := by
  simp [NamesNode]

/-- `set_hosts` took its chroot from the argument. -/
theorem newChroot_of_setHosts {randomizeHosts : Option Bool} {config config' : HostConfig}
    (h : setHosts urlsplit hosts randomizeHosts config = (.ok (), config')) :
    ∃ hostPorts chroot new, splitChroot hosts = .ok (hostPorts, chroot) ∧
      newChroot chroot = .ok new ∧ config'.chroot = some new := by
  rw [setHosts] at h
  cases hcollect : collectHosts urlsplit hosts with
  | error e => rw [hcollect] at h; cases h
  | ok collected =>
    obtain ⟨⟨hostPorts, chroot⟩, hsplit, hcollect'⟩ := bind_eq_ok hcollect
    obtain ⟨addresses, -, hcollect'⟩ := bind_eq_ok hcollect'
    obtain rfl := pure_inj hcollect'
    rw [hcollect] at h
    dsimp only at h
    cases hnew : newChroot chroot with
    | error e => rw [hnew] at h; cases h
    | ok new =>
      rw [hnew] at h
      dsimp only at h
      split at h
      · cases h
      · cases h
        exact ⟨hostPorts, chroot, new, hsplit, hnew, rfl⟩

/-- Under every hosts argument that `set_hosts` accepts, a path that `_prefix_root` accepts is kept
in the chroot and given back by `unchroot` exactly when the root is plain. -/
theorem chroot_round_trip {randomizeHosts : Option Bool} {config config' : HostConfig}
    (hset : setHosts urlsplit hosts randomizeHosts config = (.ok (), config'))
    (hchroot : config'.chroot = some c.chroot)
    (hwire : prefixRoot c.chroot path trailing = .ok wire) :
    c.RoundTrip path trailing wire ↔ PlainRoot hosts path := by
  obtain ⟨hostPorts, chroot, new, hsplit, hnew, hsome⟩ := newChroot_of_setHosts hset
  obtain rfl : new = c.chroot := Option.some_inj.mp (hsome.symm.trans hchroot)
  cases hosts with
  | text hosts =>
    have hchroot : (if (partitionSlash hosts).2 = [] then none
        else some (slash :: (partitionSlash hosts).2)) = chroot :=
      (Prod.mk.inj (Except.ok.inj hsplit)).2
    rw [PlainRoot]
    split at hchroot
    · next hnone =>
      subst hchroot
      exact iff_of_true (roundTrip_of_empty (Except.ok.inj hnew).symm hwire) (Or.inl hnone)
    · next hwritten =>
      subst hchroot
      rw [roundTrip_iff_of_isabs hnew hwire, or_iff_right hwritten]
  | list hosts =>
    rw [PlainRoot]
    rw [splitChroot] at hsplit
    cases hlast : hosts.getLast? with
    | none => rw [hlast] at hsplit; cases hsplit
    | some last =>
      rw [hlast] at hsplit
      simp only [Option.mem_some_iff, forall_eq']
      have hpair := Except.ok.inj hsplit
      by_cases hstrip : isabs last.strip = true
      · rw [if_pos hstrip] at hpair
        obtain ⟨-, rfl⟩ := Prod.mk.inj hpair
        have hne : last ≠ [] := by
          rintro rfl
          cases hstrip
        rw [newChroot, if_neg hne] at hnew
        cases habs : isabs last with
        | true =>
          obtain ⟨written, rfl⟩ := isabs_iff.mp habs
          rw [roundTrip_iff_of_isabs hnew hwire, namesNode_cons_slash]
          exact ⟨fun h _ => ⟨rfl, h⟩, fun h => (h hstrip).2⟩
        | false =>
          obtain ⟨hrelative, hroot⟩ := normpath_relative habs hne hnew
          exact iff_of_false (not_roundTrip_of_relative hrelative hroot hwire)
            fun h => Bool.false_ne_true (h hstrip).1
      · rw [if_neg hstrip] at hpair
        obtain ⟨-, rfl⟩ := Prod.mk.inj hpair
        exact iff_of_true (roundTrip_of_empty (Except.ok.inj hnew).symm hwire)
          fun h => absurd h hstrip

/-- The answer of `urlsplit` to `"xxx://127.0.0.1:2181"`. -/
def localhost (_ : PyStr) : Except Exn SplitResult :=
  .ok ⟨some (str "127.0.0.1"), .ok (some 2181)⟩

theorem chroot_round_trip_kazoo :
    (Client.new (str "/kazoo")).RoundTrip (str "//a/") false (str "/kazoo/a") :=
  (@chroot_round_trip localhost (.text (str "127.0.0.1:2181/kazoo/")) (Client.new (str "/kazoo"))
    (str "//a/") (str "/kazoo/a") false none ⟨true, [], none⟩
    ⟨true, [(str "127.0.0.1", 2181)], some (str "/kazoo")⟩ rfl rfl rfl).mpr
    (Or.inr (Or.inl (by decide)))

/-- The list form keeps a lone slash, and the path comes back without its own. -/
theorem slash_chroot_strips :
    ¬ ∀ (urlsplit : PyStr → Except Exn SplitResult) (hosts : Hosts) (config config' : HostConfig)
      (c : Client) (path wire : PyStr) (trailing : Bool),
      setHosts urlsplit hosts none config = (.ok (), config') → config'.chroot = some c.chroot →
      prefixRoot c.chroot path trailing = .ok wire → c.RoundTrip path trailing wire := by
  intro h
  have hround := h localhost (.list [str "127.0.0.1:2181", str "/"]) ⟨true, [], none⟩ _
    (Client.new (str "/")) (str "/a") _ false rfl rfl rfl
  exact absurd hround.absolute (by decide)

end SetHosts

/-! ## The boundary of a component -/

/-- The path is the chroot, or lies under it. -/
def Client.Confines (c : Client) (path : PyStr) : Prop :=
  path = c.chroot ∨ c.chroot ++ [slash] <+: path

/-- The chroot is taken off the paths that it confines, and off no other path. -/
structure Client.StripsComponents (c : Client) (path : PyStr) : Prop where
  restored : c.Confines path → prefixRoot c.chroot (c.unchroot path) false = .ok path
  untouched : ¬ c.Confines path → c.unchroot path = path

section Boundary

variable {c : Client} {path : PyStr}

/-- A normalized absolute path is given by its components. -/
theorem absolute_of_normal (habs : isabs path = true) (hpath : normpath path false = .ok path) :
    Proper (components slash path) ∧ absolute (components slash path) [] = path := by
  obtain ⟨p, rfl⟩ := isabs_iff.mp habs
  rw [components_sep]
  exact normpath_cons_eq_ok_iff.mp hpath

theorem prefixRoot_of_components {root stripped : PyStr} (habs : isabs path = true)
    (hpath : normpath path false = .ok path)
    (hcomps : components slash root ++ components slash stripped = components slash path) :
    prefixRoot root stripped false = .ok path := by
  obtain ⟨hproper, habsolute⟩ := absolute_of_normal habs hpath
  rw [prefixRoot_eq_ok_iff, hcomps]
  exact ⟨hproper, habsolute⟩

theorem restored_of_confines (habs : isabs path = true) (hpath : normpath path false = .ok path)
    (h : c.Confines path) : prefixRoot c.chroot (c.unchroot path) false = .ok path := by
  refine prefixRoot_of_components habs hpath ?_
  by_cases hempty : c.chroot = []
  · rw [Client.unchroot, if_pos hempty, hempty, components_nil, List.nil_append]
  · rcases h with rfl | ⟨rest, rfl⟩
    · rw [unchroot_self hempty, components_sep, components_nil, List.append_nil]
    · rw [List.append_assoc, List.singleton_append,
        unchroot_append hempty (List.cons_ne_nil slash rest), components_append_sep, components_sep]

/-- The test is one of texts: it is about components when what follows the chroot is a slash. -/
theorem untouched_iff (h : ¬ c.Confines path) :
    c.unchroot path = path ↔ (c.chroot = [] ∨ ¬ c.chroot <+: path) := by
  have hne : ¬ c.chroot = path := fun heq => h (.inl heq.symm)
  rw [Client.unchroot]
  by_cases hempty : c.chroot = []
  · rw [if_pos hempty]
    exact iff_of_true rfl (.inl hempty)
  rw [if_neg hempty, if_neg hne, or_iff_right hempty]
  by_cases hstart : c.chroot <+: path
  · rw [if_pos (List.isPrefixOf_iff_prefix.mpr hstart)]
    refine iff_of_false (fun hdrop => ?_) (not_not.mpr hstart)
    -- something has been dropped
    have hlength := congrArg List.length hdrop
    have hpos := List.length_pos_iff.mpr hempty
    have hle := hstart.length_le
    rw [List.length_drop] at hlength
    omega
  · rw [if_neg (fun hbegins => hstart (List.isPrefixOf_iff_prefix.mp hbegins))]
    exact iff_of_true rfl hstart

/-- `unchroot` strips the chroot at the boundary of a component exactly when the path does not go on
with the last name of the chroot. -/
theorem unchroot_strips_iff (habs : isabs path = true) (hpath : normpath path false = .ok path) :
    c.StripsComponents path ↔ (c.chroot <+: path → c.Confines path) := by
  constructor
  · intro h hstart
    by_contra hnot
    rcases (untouched_iff hnot).mp (h.untouched hnot) with hempty | hother
    · obtain ⟨p, rfl⟩ := isabs_iff.mp habs
      exact hnot (.inr ⟨p, by rw [hempty]; rfl⟩)
    · exact hother hstart
  · intro h
    exact ⟨restored_of_confines habs hpath,
      fun hnot => (untouched_iff hnot).mpr (.inr fun hstart => hnot (h hstart))⟩

theorem unchroot_strips_below : (Client.new (str "/a")).StripsComponents (str "/a/b") :=
  (@unchroot_strips_iff (.new (str "/a")) (str "/a/b") rfl (by decide +kernel)).mpr
    fun _ => .inr ⟨str "b", rfl⟩

/-- A neighbour whose name begins like the chroot loses the beginning of its name. -/
theorem unchroot_cuts_neighbour :
    ¬ ∀ (c : Client) (path : PyStr), normpath c.chroot false = .ok c.chroot → c.chroot ≠ [slash] →
      isabs path = true → normpath path false = .ok path → c.StripsComponents path := by
  intro h
  have hstrips := h (.new (str "/a")) (str "/ab/c") (by decide +kernel) (by decide) rfl
    (by decide +kernel)
  have hnot : ¬ (Client.new (str "/a")).Confines (str "/ab/c") := by
    rintro (heq | hbegins)
    · exact absurd heq (by decide)
    · exact absurd (List.isPrefixOf_iff_prefix.mpr hbegins) (by decide)
  exact absurd (hstrips.untouched hnot) (by decide +kernel)

end Boundary

end Kazoo
