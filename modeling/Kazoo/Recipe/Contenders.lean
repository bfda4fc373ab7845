import Kazoo.Lib.FixedWidth
import Kazoo.Text
import Mathlib.Data.List.Infix
import Mathlib.Data.List.Sort

/-!
# The contenders of a lock

`kazoo/recipe/lock.py`: how a lock object names its node, and how it finds itself and the
contenders before it among the children of the lock path.  Node names are relative to that path.
-/

namespace Kazoo

/-- `Lock` and its two subclasses. -/
inductive LockKind
  | lock | writeLock | readLock
  deriving DecidableEq, Repr

def NODE_NAME : LockKind → PyStr
  | .lock | .writeLock => str "__lock__"
  | .readLock => str "__rlock__"

def EXCLUDE_NAMES : LockKind → List PyStr
  | .lock | .readLock => [str "__lock__"]
  | .writeLock => [str "__lock__", str "__rlock__"]

/-- What `Lock.__init__` fixes for good.  The extra patterns are strings without any of the
characters that are special in a regular expression. -/
structure LockConfig where
  kind : LockKind
  -- `uuid.uuid4().hex`
  uuid : PyStr
  uuid_length : uuid.length = 32
  extraLockPatterns : List PyStr
  -- a set, in the order in which it is joined
  excludeNames : List PyStr
  mem_excludeNames : ∀ name,
    name ∈ excludeNames ↔ name ∈ EXCLUDE_NAMES kind ∨ name ∈ extraLockPatterns
  -- the `KazooClient` it works with
  client : Nat

namespace LockConfig

/-- `self.prefix`. -/
def lockPrefix (c : LockConfig) : PyStr := c.uuid ++ NODE_NAME c.kind

end LockConfig

/-! ## Sequence numbers -/

/-- The digit that ZooKeeper writes for `d`. -/
def digitChar (d : Nat) : CodePoint := .ofChar (Char.ofNat (48 + d))

/-- `%010d`. -/
def sequenceText (number : Nat) : PyStr := FixedWidth.digits digitChar 10 10 number

/-- The first number that does not fit. -/
def sequenceLimit : Nat := 10 ^ 10

def LockConfig.nodeName (c : LockConfig) (number : Nat) : PyStr :=
  c.lockPrefix ++ sequenceText number

/-! ## The regular expression -/

section

-- the code points that `\d` matches
variable (decimal : CodePoint → Bool)

/-- `\d{10}$` from here on, after `sign`.  The dollar also matches before a newline that ends the
text. -/
def digitsMatch (sign rest : PyStr) : Option PyStr :=
  if (rest.take 10).length = 10 ∧ (rest.take 10).all decimal ∧
      (rest.drop 10 = [] ∨ rest.drop 10 = str "\n") then
    some (sign ++ rest.take 10)
  else none

/-- `(-?\d{10})$` from here on. -/
def sequenceMatch (rest : PyStr) : Option PyStr :=
  if rest.take 1 = str "-" then
    (digitsMatch decimal (str "-") (rest.drop 1)).or (digitsMatch decimal [] rest)
  else digitsMatch decimal [] rest

/-- `self._contenders_re.search(child)`, as `group(1)` of the match: the leftmost place counts, and
there the first alternative that leads to a match. -/
def contendersSearch (names : List PyStr) (child : PyStr) : Option PyStr :=
  child.tails.findSome? fun place => names.findSome? fun name =>
    if name.isPrefixOf place then sequenceMatch decimal (place.drop name.length) else none

namespace LockConfig

/-- `_get_predecessor`, given the children it reads. -/
def getPredecessor (c : LockConfig) (node : PyStr) (children : List PyStr) :
    Except Exn (Option PyStr) :=
  let nodeSequence := node.drop c.lockPrefix.length
  let contenderMatches := children.filterMap fun child =>
    match contendersSearch decimal c.excludeNames child with
    | some contenderSequence =>
      if contenderSequence < nodeSequence then some (contenderSequence, child) else none
    | none => none
  if node ∉ children then .error .forceRetryError
  else
    let sortedMatches := contenderMatches.insertionSort fun m m' => ¬ m'.1 < m.1
    .ok (sortedMatches.getLast?.map Prod.snd)

/-- `_find_node`, given the children it reads. -/
def findNode (c : LockConfig) (children : List PyStr) : Option PyStr :=
  children.find? fun child => c.lockPrefix.isPrefixOf child

end LockConfig

end

/-! ## Retries -/

namespace Exn

/-- Whether `KazooRetry.__call__` goes on after the exception.  It raises a `ConnectionClosedError`
before it looks at its base class, `SessionExpiredError`. -/
def retried (e : Exn) : Bool :=
  e = connectionLoss || e = operationTimeoutError || e = sessionExpiredError || e = .forceRetryError

/-- Whether the exception is a `KazooException`. -/
def isKazooException : Exn → Bool
  | .zookeeper _ | .connectionClosedError | .connectionDropped | .saslException
  | .retryFailedError | .cancelledError | .lockTimeout => true
  | _ => false

end Exn

/-! ## Names apart -/

variable {c c' : LockConfig} {number number' : Nat}

theorem digitChar_lt (i j : Nat) (hij : i < j) (hj : j < 10) : digitChar i < digitChar j := by
  have h : ∀ k < 10, (digitChar k).val = 48 + k := by decide
  show (digitChar i).val < (digitChar j).val
  rw [h i (Nat.lt_trans hij hj), h j hj]
  omega

@[simp] theorem length_sequenceText (number : Nat) : (sequenceText number).length = 10 :=
  FixedWidth.length_digits _ _ _ _

/-- Python compares the texts as the server counts. -/
theorem sequenceText_lt (h : number < number') (hlimit : number' < sequenceLimit) :
    sequenceText number < sequenceText number' :=
  FixedWidth.digits_lt_digits digitChar_lt h hlimit

theorem sequenceText_injective (h : number < sequenceLimit) (h' : number' < sequenceLimit)
    (heq : sequenceText number = sequenceText number') : number = number' :=
  FixedWidth.digits_injective digitChar_lt (fun x => Nat.lt_irrefl x.val) h h' heq

theorem LockConfig.drop_nodeName (c : LockConfig) (number : Nat) :
    (c.nodeName number).drop c.lockPrefix.length = sequenceText number :=
  List.drop_left

theorem LockConfig.take_nodeName (c : LockConfig) (number : Nat) :
    (c.nodeName number).take 32 = c.uuid := by
  rw [nodeName, lockPrefix, List.append_assoc, ← c.uuid_length, List.take_left]

theorem LockConfig.sequenceText_suffix (c : LockConfig) (number : Nat) :
    sequenceText number <:+ c.nodeName number :=
  List.suffix_append _ _

/-- Whose node it is shows in its name. -/
theorem LockConfig.uuid_of_lockPrefix (h : c.lockPrefix <+: c'.nodeName number) :
    c'.uuid = c.uuid := by
  have htake : (c.lockPrefix).take 32 = c.uuid := by
    rw [lockPrefix, ← c.uuid_length, List.take_left]
  have hlen : 32 ≤ c.lockPrefix.length := by
    rw [lockPrefix, List.length_append, c.uuid_length]
    omega
  obtain ⟨rest, hrest⟩ := h
  rw [← c'.take_nodeName number, ← hrest, List.take_append_of_le_length hlen, htake]

theorem LockConfig.lockPrefix_nodeName (c : LockConfig) (number : Nat) :
    c.lockPrefix <+: c.nodeName number :=
  List.prefix_append _ _

/-! ## What the search finds -/

section

variable {decimal : CodePoint → Bool}

theorem newline_notMem_sequenceText (hlimit : number < sequenceLimit) :
    CodePoint.ofChar '\n' ∉ sequenceText number := by
  intro hmem
  obtain ⟨d, hd, heq⟩ := FixedWidth.mem_digits digitChar 10 (by decide) hlimit _ hmem
  have hne : ∀ d < 10, CodePoint.ofChar '\n' ≠ digitChar d := by decide
  exact hne d hd heq

theorem LockConfig.lockPrefix_getLast (c : LockConfig) :
    c.lockPrefix.getLast? = some (CodePoint.ofChar '_') := by
  rw [lockPrefix, List.getLast?_append]
  cases c.kind <;> rfl

/-- Ten digits at the end of a node name are its last ten characters. -/
theorem digitsMatch_suffix {sign rest found : PyStr} (hlimit : number < sequenceLimit)
    (hrest : rest <:+ c.nodeName number) (h : digitsMatch decimal sign rest = some found) :
    rest = sequenceText number ∧ found = sign ++ sequenceText number := by
  unfold digitsMatch at h
  split at h
  · next hmatch =>
    obtain ⟨hlen, -, hend⟩ := hmatch
    have hnil : rest.drop 10 = [] := by
      refine hend.resolve_right fun hnewline => ?_
      -- the name would end in a newline
      have hlast : [CodePoint.ofChar '\n'] <:+ sequenceText number := by
        refine List.suffix_of_suffix_length_le ?_ (c.sequenceText_suffix number) (by simp)
        exact (show str "\n" <:+ rest from hnewline ▸ List.drop_suffix 10 rest).trans hrest
      exact newline_notMem_sequenceText hlimit (hlast.subset (List.mem_singleton_self _))
    have hten : rest.length = 10 := by
      rw [List.length_take] at hlen
      have := congrArg List.length hnil
      rw [List.length_drop, List.length_nil] at this
      omega
    have heq : rest = sequenceText number := by
      have hlen := length_sequenceText number
      refine (List.suffix_of_suffix_length_le hrest (c.sequenceText_suffix number) ?_).eq_of_length
        ?_ <;> omega
    refine ⟨heq, ?_⟩
    cases h
    rw [← heq, List.take_of_length_le (Nat.le_of_eq hten)]
  · cases h

theorem sequenceMatch_suffix {rest found : PyStr} (hlimit : number < sequenceLimit)
    (hrest : rest <:+ c.nodeName number) (h : sequenceMatch decimal rest = some found) :
    rest = sequenceText number ∧ found = sequenceText number := by
  unfold sequenceMatch at h
  split at h
  · next hsign =>
    rcases Option.or_eq_some_iff.mp h with h | ⟨-, h⟩
    · -- the node name has no sign before its digits
      obtain ⟨hdigits, -⟩ := digitsMatch_suffix hlimit ((List.drop_suffix 1 rest).trans hrest) h
      have hall : rest = str "-" ++ sequenceText number := by
        rw [← hsign, ← hdigits, List.take_append_drop]
      obtain ⟨front, hfront⟩ := hrest
      rw [hall, ← List.append_assoc, LockConfig.nodeName] at hfront
      have hlast := c.lockPrefix_getLast
      rw [← List.append_cancel_right hfront, List.getLast?_append,
        show (str "-").getLast? = some (CodePoint.ofChar '-') from rfl, Option.some_or] at hlast
      exact absurd hlast (by decide)
    · exact digitsMatch_suffix hlimit hrest h
  · exact digitsMatch_suffix hlimit hrest h

/-- A match is a name that ends the prefix of the node, and the digits after it. -/
theorem eq_of_contendersSearch {names : List PyStr} {found : PyStr} (hlimit : number < sequenceLimit)
    (h : contendersSearch decimal names (c.nodeName number) = some found) :
    found = sequenceText number ∧ ∃ name ∈ names, name <:+ c.lockPrefix := by
  obtain ⟨place, hplace, h⟩ := List.exists_of_findSome?_eq_some h
  obtain ⟨name, hname, h⟩ := List.exists_of_findSome?_eq_some h
  have hsuffix : place <:+ c.nodeName number := (List.mem_tails _ _).mp hplace
  split at h
  · next hpre =>
    obtain ⟨rest, rfl⟩ := List.isPrefixOf_iff_prefix.mp hpre
    rw [List.drop_left] at h
    obtain ⟨rfl, hfound⟩ := sequenceMatch_suffix hlimit ((List.suffix_append name rest).trans hsuffix) h
    obtain ⟨front, hfront⟩ := hsuffix
    rw [← List.append_assoc, LockConfig.nodeName] at hfront
    exact ⟨hfound, name, hname, front, List.append_cancel_right hfront⟩
  · cases h

theorem sequenceMatch_sequenceText (hdecimal : ∀ d < 10, decimal (digitChar d) = true)
    (hlimit : number < sequenceLimit) :
    sequenceMatch decimal (sequenceText number) = some (sequenceText number) := by
  have htake : (sequenceText number).take 10 = sequenceText number :=
    List.take_of_length_le (by simp)
  have hdrop : (sequenceText number).drop 10 = [] := List.drop_of_length_le (by simp)
  have hmem := FixedWidth.mem_digits digitChar 10 (by decide) hlimit
  have hsign : (sequenceText number).take 1 ≠ str "-" := by
    intro h
    have hhead : CodePoint.ofChar '-' ∈ sequenceText number :=
      List.mem_of_mem_take (h ▸ List.mem_singleton_self _ : _ ∈ (sequenceText number).take 1)
    obtain ⟨d, hd, heq⟩ := hmem _ hhead
    have hne : ∀ d < 10, CodePoint.ofChar '-' ≠ digitChar d := by decide
    exact hne d hd heq
  have hall : (sequenceText number).all decimal = true := by
    refine List.all_eq_true.mpr fun x hx => ?_
    obtain ⟨d, hd, rfl⟩ := hmem x hx
    exact hdecimal d hd
  rw [sequenceMatch, if_neg hsign, digitsMatch, htake, hdrop,
    if_pos ⟨length_sequenceText number, hall, .inl rfl⟩, List.nil_append]

/-- The search finds every node whose name it is told, with its number. -/
theorem contendersSearch_nodeName (hdecimal : ∀ d < 10, decimal (digitChar d) = true)
    (hlimit : number < sequenceLimit) {names : List PyStr} (hname : NODE_NAME c.kind ∈ names) :
    contendersSearch decimal names (c.nodeName number) = some (sequenceText number) := by
  cases hsearch : contendersSearch decimal names (c.nodeName number) with
  | some found => rw [(eq_of_contendersSearch hlimit hsearch).1]
  | none =>
    -- the name itself and the digits after it are a match
    have hplace : NODE_NAME c.kind ++ sequenceText number ∈ (c.nodeName number).tails := by
      rw [List.mem_tails, LockConfig.nodeName, LockConfig.lockPrefix, List.append_assoc]
      exact List.suffix_append _ _
    have hnone := List.findSome?_eq_none_iff.mp hsearch _ hplace
    have hnone := List.findSome?_eq_none_iff.mp hnone _ hname
    rw [if_pos (List.isPrefixOf_iff_prefix.mpr (List.prefix_append _ _)), List.drop_left,
      sequenceMatch_sequenceText hdecimal hlimit] at hnone
    cases hnone

/-- Which contenders stop a lock object, as `_get_predecessor` sees them. -/
theorem LockConfig.getPredecessor_eq_none {node : PyStr} {children : List PyStr}
    (h : c.getPredecessor decimal node children = .ok none) :
    node ∈ children ∧ ∀ child ∈ children, ∀ sequence,
      contendersSearch decimal c.excludeNames child = some sequence →
        ¬ sequence < node.drop c.lockPrefix.length := by
  unfold getPredecessor at h
  dsimp only at h
  split at h
  · cases h
  · next hmem =>
    refine ⟨not_not.mp hmem, fun child hchild sequence hsequence hlt => ?_⟩
    have hnone := List.getLast?_eq_none_iff.mp (Option.map_eq_none_iff.mp (Except.ok.inj h))
    have hfound : (sequence, child) ∈ ([] : List (PyStr × PyStr)) := by
      rw [← hnone, List.mem_insertionSort, List.mem_filterMap]
      refine ⟨child, hchild, ?_⟩
      rw [hsequence]
      exact if_pos hlt
    exact List.not_mem_nil hfound

/-- The name counts for the lock object as one before its node. -/
def LockConfig.Before (decimal : CodePoint → Bool) (c : LockConfig) (node name : PyStr) : Prop :=
  ∃ sequence, contendersSearch decimal c.excludeNames name = some sequence ∧
    sequence < node.drop c.lockPrefix.length

theorem LockConfig.before_of_getPredecessor {node predecessor : PyStr} {children : List PyStr}
    (h : c.getPredecessor decimal node children = .ok (some predecessor)) :
    c.Before decimal node predecessor := by
  unfold getPredecessor at h
  dsimp only at h
  split at h
  · cases h
  · obtain ⟨m, hlast, rfl⟩ := Option.map_eq_some_iff.mp (Except.ok.inj h)
    have hmem := (List.mem_insertionSort _).mp (List.mem_of_getLast? hlast)
    obtain ⟨child, -, hchild⟩ := List.mem_filterMap.mp hmem
    split at hchild
    · next sequence hsequence =>
      obtain ⟨hlt, rfl⟩ := (Option.ite_none_right_eq_some.mp hchild).imp id Option.some.inj
      exact ⟨sequence, hsequence, hlt⟩
    · cases hchild

/-- Without extra patterns, a read lock does not find the nodes of read locks. -/
theorem contendersSearch_readLock {names : List PyStr} (hkind : c.kind = .readLock)
    (hlimit : number < sequenceLimit) (hnames : ∀ name ∈ names, name = str "__lock__") :
    contendersSearch decimal names (c.nodeName number) = none := by
  cases hsearch : contendersSearch decimal names (c.nodeName number) with
  | none => rfl
  | some found =>
    obtain ⟨-, name, hname, hsuffix⟩ := eq_of_contendersSearch hlimit hsearch
    obtain rfl := hnames name hname
    have hends : str "__rlock__" <:+ c.lockPrefix := by
      rw [LockConfig.lockPrefix, hkind]
      exact List.suffix_append _ _
    have hnot : ¬ str "__lock__" <:+ str "__rlock__" := by decide
    exact absurd (List.suffix_of_suffix_length_le hsuffix hends (by decide)) hnot

theorem LockConfig.getPredecessor_of_search {node : PyStr} {children : List PyStr}
    (hnode : node ∈ children)
    (hsearch : ∀ child ∈ children, contendersSearch decimal c.excludeNames child = none) :
    c.getPredecessor decimal node children = .ok none := by
  have hnil : (children.filterMap fun child =>
      match contendersSearch decimal c.excludeNames child with
      | some contenderSequence =>
        if contenderSequence < node.drop c.lockPrefix.length then some (contenderSequence, child)
        else none
      | none => none) = [] := by
    refine List.filterMap_eq_nil_iff.mpr fun child hchild => ?_
    rw [hsearch child hchild]
  unfold getPredecessor
  dsimp only
  rw [if_neg (not_not.mpr hnode), hnil]
  rfl

theorem LockConfig.findNode_eq_some {children : List PyStr} {node : PyStr}
    (h : c.findNode children = some node) : node ∈ children ∧ c.lockPrefix <+: node :=
  ⟨List.mem_of_find?_eq_some h, List.isPrefixOf_iff_prefix.mp (List.find?_some h)⟩

end

end Kazoo
