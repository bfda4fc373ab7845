import Mathlib.Data.List.Perm.Subperm
import Kazoo.Recipe.Lease

/-!
# Leases for several holders

`MultiNonBlockingLease` of `kazoo/recipe/lease.py`: an attempt tries one path after the other, and
nobody comes between.  All clients read one clock, of whole seconds.
-/

namespace Kazoo

/-- `count`, and the time at the start. -/
structure MultiLeases where
  count : Nat
  start : DateTime
  whole : start.val % 1000000 = 0

structure MultiLeaseAttempt where
  ident : PyStr
  -- in seconds
  duration : Int
  deriving DecidableEq

/-- What becomes of an attempt at one path, or at all of them. -/
inductive LeaseOutcome
  | obtained
  | refused
  | raised
  deriving DecidableEq, Repr

/-- A lease that was obtained at the path `"%s/%d" % (path, num)`. -/
structure SlotLease where
  ident : PyStr
  num : Nat
  ends : DateTime
  deriving DecidableEq

structure MultiLeasing where
  clock : DateTime
  -- the data of `lease_holder` under each of the paths
  holders : Nat → Option Bytes
  -- history: latest first
  obtained : List SlotLease

inductive MultiLeaseAct
  | tick (clock : DateTime)
  | attempt (a : MultiLeaseAttempt)
  deriving DecidableEq

/-- `self + timedelta(seconds=seconds)`; before the year 1 or past 9999 that is an `OverflowError`. -/
def DateTime.addSeconds (x : DateTime) (seconds : Int) : Option DateTime :=
  if h : 0 ≤ x.val + seconds * 1000000 ∧ x.val + seconds * 1000000 < dateLimit then
    some ⟨(x.val + seconds * 1000000).toNat, by omega⟩
  else none

namespace MultiLeasing

/-- Whether the data of the holder node lets the identifier have the lease, unless it cannot be read. -/
def allows (ident : PyStr) (now : DateTime) (raw : Bytes) : Option Bool :=
  match Lease.decode raw with
  | none => none
  | some data =>
    match data.get (str "version") with
    | none => none
    | some version =>
      if version ≠ .int Leasing.leaseVersion then some false
      else match data.get (str "end"), data.get (str "holder") with
        | some (.str text), some holder =>
          match DateTime.strptime text with
          | none => none
          | some currentEnd => some (¬ (holder ≠ .str ident ∧ now < currentEnd))
        | _, _ => none

/-- The data that the holder writes. -/
def holderData (ident : PyStr) (ends : DateTime) : Option Bytes :=
  match (Lease.mk Leasing.leaseVersion ident ends.strftime).encode with
  | .ok raw => some raw
  | .error _ => none

/-- The end of `_attempt_obtaining`, where there is no holder node any more. -/
def take (a : MultiLeaseAttempt) (now : DateTime) : LeaseOutcome × Option Bytes :=
  match now.addSeconds a.duration with
  | none => (.raised, none)
  | some ends =>
    match holderData a.ident ends with
    | none => (.raised, none)
    | some raw => (.obtained, some raw)

/-- `_attempt_obtaining` at one path, and the holder node after it. -/
def attemptObtaining (a : MultiLeaseAttempt) (now : DateTime) (holder : Option Bytes) :
    LeaseOutcome × Option Bytes :=
  match PyStr.encode a.ident with
  -- the lock encodes the identifier
  | .error _ => (.raised, holder)
  | .ok _ =>
    match holder with
    | none => take a now
    | some raw =>
      match allows a.ident now raw with
      | none => (.raised, holder)
      | some false => (.refused, holder)
      | some true => take a now

/-- The attempts from the `num`-th path on, `left` of them. -/
def attemptFrom (a : MultiLeaseAttempt) (now : DateTime) :
    (num left : Nat) → (Nat → Option Bytes) → LeaseOutcome × Nat × (Nat → Option Bytes)
  | num, 0, holders => (.refused, num, holders)
  | num, left + 1, holders =>
    let (outcome, holder) := attemptObtaining a now (holders num)
    let holders := Function.update holders num holder
    match outcome with
    | .refused => attemptFrom a now (num + 1) left holders
    | outcome => (outcome, num, holders)

/-- `__init__`: what becomes of it, at which path, and the holder nodes after it. -/
def attempt (n : Nat) (s : MultiLeasing) (a : MultiLeaseAttempt) :
    LeaseOutcome × Nat × (Nat → Option Bytes) :=
  attemptFrom a s.clock 0 n s.holders

def enabled (s : MultiLeasing) : MultiLeaseAct → Prop
  | .tick clock => s.clock ≤ clock ∧ clock.val % 1000000 = 0
  | .attempt _ => True

instance (s : MultiLeasing) (act : MultiLeaseAct) : Decidable (s.enabled act) := by
  cases act <;> unfold enabled <;> infer_instance

def post (n : Nat) (s : MultiLeasing) : MultiLeaseAct → MultiLeasing
  | .tick clock => { s with clock }
  | .attempt a =>
    match s.attempt n a, s.clock.addSeconds a.duration with
    | (.obtained, num, holders), some ends =>
      { s with holders, obtained := ⟨a.ident, num, ends⟩ :: s.obtained }
    | (_, _, holders), _ => { s with holders }

end MultiLeasing

def multiLeasing (L : MultiLeases) : Machine MultiLeasing MultiLeaseAct where
  init := ⟨L.start, fun _ => none, []⟩
  enabled := MultiLeasing.enabled
  post := MultiLeasing.post L.count

instance (L : MultiLeases) (s : MultiLeasing) (act : MultiLeaseAct) :
    Decidable ((multiLeasing L).enabled s act) :=
  inferInstanceAs (Decidable (s.enabled act))

namespace MultiLeasing

/-! ## Who holds a lease -/

/-- The lease that the identifier has obtained last. -/
def latest (s : MultiLeasing) (ident : PyStr) : Option SlotLease :=
  s.obtained.find? (·.ident = ident)

/-- It holds an unexpired lease. -/
def Holds (s : MultiLeasing) (ident : PyStr) : Prop := ∃ o ∈ s.latest ident, s.clock < o.ends

/-- At most `n` identifiers hold leases, and who is refused finds `n` others that do. -/
structure Justified (n : Nat) (s : MultiLeasing) : Prop where
  bounded : ∀ idents : List PyStr, idents.Nodup → (∀ ident ∈ idents, s.Holds ident) →
    idents.length ≤ n
  refused : ∀ a, (s.attempt n a).1 = .refused → ∃ idents : List PyStr, idents.Nodup ∧
    idents.length = n ∧ ∀ ident ∈ idents, ident ≠ a.ident ∧ s.Holds ident

/-- Who holds a lease attempts only while no path before that of its lease is free for it, and with a
duration whose end can be written. -/
def Renews (s : MultiLeasing) : MultiLeaseAct → Prop
  | .tick _ => True
  | .attempt a => ∀ o ∈ s.latest a.ident, s.clock < o.ends →
      (∀ num < o.num, (s.holders num).bind (allows a.ident s.clock) = some false) ∧
        s.clock.addSeconds a.duration ≠ none

instance (s : MultiLeasing) (act : MultiLeaseAct) : Decidable (s.Renews act) := by
  cases act <;> unfold Renews <;> infer_instance

/-! ## One attempt -/

variable {L : MultiLeases} {s : MultiLeasing} {a : MultiLeaseAttempt} {now : DateTime}
  {holder holder' : Option Bytes} {holders holders' : Nat → Option Bytes} {num left k : Nat}
  {outcome : LeaseOutcome} {raw : Bytes} {o o' : SlotLease} {n : Nat}

/-- The holder node refuses the lease to the identifier. -/
def Refuses (ident : PyStr) (now : DateTime) (holder : Option Bytes) : Prop :=
  holder.bind (allows ident now) = some false

/-- The path is free for the identifier. -/
def Free (ident : PyStr) (now : DateTime) (holder : Option Bytes) : Prop :=
  holder = none ∨ holder.bind (allows ident now) = some true

/-- What becomes of the attempt at one path. -/
inductive Tried (a : MultiLeaseAttempt) (now : DateTime) (holder : Option Bytes) :
    LeaseOutcome → Option Bytes → Prop
  | refused : Refuses a.ident now holder → Tried a now holder .refused holder
  | raised : Tried a now holder .raised holder
  -- the holder node has been deleted
  | overflow : Free a.ident now holder → now.addSeconds a.duration = none → Tried a now holder .raised none
  | obtained {ends : DateTime} {raw : Bytes} : Free a.ident now holder → a.ident.NoSurrogates →
      now.addSeconds a.duration = some ends → holderData a.ident ends = some raw →
      Tried a now holder .obtained (some raw)

theorem holderData_isSome (ident : PyStr) (ends : DateTime) : (holderData ident ends).isSome := by
  have hascii : (Lease.mk Leasing.leaseVersion ident ends.strftime).encode.isOk = true :=
    (PyStr.encode_isOk_iff _).mpr (noSurrogates_of_ascii (ascii_dumps _))
  unfold holderData
  split
  · rfl
  next e he =>
    rw [he] at hascii
    cases hascii

theorem tried_take (hident : a.ident.NoSurrogates) (hfree : Free a.ident now holder) :
    Tried a now holder (take a now).1 (take a now).2 := by
  unfold take
  split
  next hends => exact .overflow hfree hends
  next ends hends =>
    obtain ⟨raw, hraw⟩ := Option.isSome_iff_exists.mp (holderData_isSome a.ident ends)
    rw [hraw]
    exact .obtained hfree hident hends hraw

theorem tried_attemptObtaining (a : MultiLeaseAttempt) (now : DateTime) (holder : Option Bytes) :
    Tried a now holder (attemptObtaining a now holder).1 (attemptObtaining a now holder).2 := by
  unfold attemptObtaining
  split
  · exact .raised
  next text hencoded =>
    have hident : a.ident.NoSurrogates := (PyStr.encode_isOk_iff _).mp (by rw [hencoded]; rfl)
    split
    · exact tried_take hident (.inl rfl)
    next raw =>
      split
      · exact .raised
      next hfalse => exact .refused hfalse
      next htrue => exact tried_take hident (.inr htrue)

/-- The paths before the last one that is tried refuse the lease, and are left as they are. -/
theorem attemptFrom_spec (h : attemptFrom a now num left holders = (outcome, k, holders')) :
    num ≤ k ∧ k ≤ num + left ∧ (∀ j, num ≤ j → j < k → Refuses a.ident now (holders j)) ∧
      (outcome = .refused ∧ k = num + left ∧ holders' = holders ∨
        outcome ≠ .refused ∧ k < num + left ∧
          ∃ holder, Tried a now (holders k) outcome holder ∧
            holders' = Function.update holders k holder) := by
  induction left generalizing num with
  | zero =>
    obtain ⟨rfl, heq⟩ := Prod.mk.inj h
    obtain ⟨rfl, rfl⟩ := Prod.mk.inj heq
    exact ⟨le_rfl, le_rfl, fun j hj hlt => absurd hlt (Nat.not_lt.mpr hj), .inl ⟨rfl, rfl, rfl⟩⟩
  | succ left ih =>
    have htried := tried_attemptObtaining a now (holders num)
    simp only [attemptFrom] at h
    generalize attemptObtaining a now (holders num) = result at h htried
    obtain ⟨outcome₁, holder⟩ := result
    have hends (hnot : outcome₁ ≠ .refused)
        (h : (outcome₁, num, Function.update holders num holder) = (outcome, k, holders')) :
        num ≤ k ∧ k ≤ num + (left + 1) ∧ (∀ j, num ≤ j → j < k → Refuses a.ident now (holders j)) ∧
          (outcome = .refused ∧ k = num + (left + 1) ∧ holders' = holders ∨
            outcome ≠ .refused ∧ k < num + (left + 1) ∧
              ∃ holder, Tried a now (holders k) outcome holder ∧
                holders' = Function.update holders k holder) := by
      obtain ⟨rfl, heq⟩ := Prod.mk.inj h
      obtain ⟨rfl, rfl⟩ := Prod.mk.inj heq
      exact ⟨le_rfl, by omega, fun j hj hlt => absurd hlt (Nat.not_lt.mpr hj),
        .inr ⟨hnot, by omega, holder, htried, rfl⟩⟩
    cases outcome₁ with
    | obtained => exact hends (by decide) h
    | raised => exact hends (by decide) h
    | refused =>
      cases htried with
      | refused hrefuses =>
        rw [Function.update_eq_self] at h
        obtain ⟨hle, hbound, hbefore, hrest⟩ := ih h
        refine ⟨by omega, by omega, fun j hj hlt => ?_, ?_⟩
        · by_cases heq : j = num
          · subst heq
            exact hrefuses
          · exact hbefore j (by omega) hlt
        · rw [show num + (left + 1) = num + 1 + left by omega]
          exact hrest

/-! ## Every lease is in its node -/

/-- The lease is in the holder node. -/
def Written (raw : Bytes) (o : SlotLease) : Prop :=
  o.ident.NoSurrogates ∧ o.ends.val % 1000000 = 0 ∧ holderData o.ident o.ends = some raw

theorem Written.wholeSeconds (h : Written raw o) : o.ends.wholeSeconds = o.ends := by
  have hval : o.ends.wholeSeconds.val = o.ends.val - o.ends.val % 1000000 := rfl
  rw [h.2.1, Nat.sub_zero] at hval
  exact Fin.ext hval

theorem Written.decode (h : Written raw o) :
    Lease.decode raw =
      some (Lease.mk Leasing.leaseVersion o.ident o.ends.strftime).members := by
  obtain ⟨raw', hraw', hdecode⟩ := Lease.decode_encode
    (l := Lease.mk Leasing.leaseVersion o.ident o.ends.strftime) h.1
    (noSurrogates_of_ascii o.ends.ascii_strftime)
  have hdata : holderData o.ident o.ends = some raw' := by
    unfold holderData
    rw [hraw']
  rw [Option.some.inj (h.2.2.symm.trans hdata)]
  exact hdecode

theorem allows_written (hwritten : Written raw o) (ident : PyStr) :
    allows ident now raw = some (decide ¬ (o.ident ≠ ident ∧ now < o.ends)) := by
  obtain ⟨hversion, hend, hholder⟩ :=
    Leasing.get_members (Lease.mk Leasing.leaseVersion o.ident o.ends.strftime)
  simp only [allows, hwritten.decode, hversion, hend, hholder, DateTime.strptime_strftime,
    hwritten.wholeSeconds, ne_eq, not_true, if_false, JsonValue.str.injEq]

theorem Written.not_refuses (h : Written raw o) : ¬ Refuses o.ident now (some raw) := by
  intro hrefuses
  rw [Refuses, Option.bind_some, allows_written h] at hrefuses
  exact of_decide_eq_false (Option.some.inj hrefuses) fun hheld => hheld.1 rfl

/-- Nobody else takes the path of a lease that lasts. -/
theorem Written.eq_of_free (h : Written raw o) {ident : PyStr} (hfree : Free ident now (some raw))
    (hlasts : now < o.ends) : o.ident = ident := by
  rcases hfree with hnone | hallows
  · cases hnone
  · rw [Option.bind_some, allows_written h] at hallows
    by_contra hne
    exact of_decide_eq_true (Option.some.inj hallows) ⟨hne, hlasts⟩

theorem Free.not_refuses {ident : PyStr} (h : Free ident now holder) : ¬ Refuses ident now holder := by
  intro hrefuses
  rcases h with rfl | hallows
  · cases hrefuses
  · cases hrefuses.symm.trans hallows

/-- Every lease that lasts is in the node of its path, and every lease in a node that lasts is the
latest one of its holder. -/
structure Assigned (n : Nat) (s : MultiLeasing) : Prop where
  whole : s.clock.val % 1000000 = 0
  node : ∀ num raw, s.holders num = some raw →
    ∃ o, o.num = num ∧ Written raw o ∧ (s.clock < o.ends → s.latest o.ident = some o)
  kept : ∀ ident o, s.latest ident = some o → s.clock < o.ends →
    o.num < n ∧ ∃ raw, s.holders o.num = some raw ∧ Written raw o

theorem ident_of_latest {ident : PyStr} (h : s.latest ident = some o) : o.ident = ident := by
  unfold latest at h
  simpa using List.find?_some h

theorem mem_of_latest {ident : PyStr} (h : s.latest ident = some o) : o ∈ s.obtained :=
  List.mem_of_find?_eq_some h

theorem assigned_init : Assigned L.count (multiLeasing L).init where
  whole := L.whole
  node := fun _ _ h => nomatch h
  kept := fun _ _ h => nomatch h

theorem Assigned.tick (h : Assigned n s) {clock : DateTime}
    (hen : s.enabled (.tick clock)) : Assigned n { s with clock } where
  whole := hen.2
  node num raw hraw := by
    obtain ⟨o, hnum, hwritten, hlatest⟩ := h.node num raw hraw
    exact ⟨o, hnum, hwritten, fun hlasts => hlatest (hen.1.trans_lt hlasts)⟩
  kept ident o hlatest hlasts := h.kept ident o hlatest (hen.1.trans_lt hlasts)

/-- An attempt that cannot write its end deletes the node of an expired lease. -/
theorem Assigned.deleted (h : Assigned n s) (hfree : Free a.ident s.clock (s.holders k))
    (hends : s.clock.addSeconds a.duration = none) (hok : s.Renews (.attempt a)) :
    Assigned n { s with holders := Function.update s.holders k none } where
  whole := h.whole
  node num raw hraw := by
    replace hraw : Function.update s.holders k none num = some raw := hraw
    by_cases hnum : num = k
    · rw [hnum, Function.update_self] at hraw
      cases hraw
    · rw [Function.update_of_ne hnum] at hraw
      exact h.node num raw hraw
  kept ident o hlatest hlasts := by
    obtain ⟨hlt, raw, hraw, hwritten⟩ := h.kept ident o hlatest hlasts
    refine ⟨hlt, raw, ?_, hwritten⟩
    by_cases hnum : o.num = k
    · rw [← hnum, hraw] at hfree
      have hown := hwritten.eq_of_free hfree hlasts
      rw [← ident_of_latest hlatest, hown] at hlatest
      exact absurd hends (hok o hlatest hlasts).2
    · exact (Function.update_of_ne hnum ..).trans hraw

theorem addSeconds_whole {x y : DateTime} {seconds : Int} (hwhole : x.val % 1000000 = 0)
    (h : x.addSeconds seconds = some y) : y.val % 1000000 = 0 := by
  unfold DateTime.addSeconds at h
  split at h
  · obtain rfl := Option.some.inj h
    show (x.val + seconds * 1000000).toNat % 1000000 = 0
    omega
  · cases h

/-- A holder that renews its lease takes the path where it is. -/
theorem Assigned.num_eq (h : Assigned n s) (hok : s.Renews (.attempt a))
    (hbefore : ∀ j < k, Refuses a.ident s.clock (s.holders j))
    (hfree : Free a.ident s.clock (s.holders k)) (hlatest : s.latest a.ident = some o)
    (hlasts : s.clock < o.ends) : o.num = k := by
  obtain ⟨-, raw, hraw, hwritten⟩ := h.kept _ _ hlatest hlasts
  rcases Nat.lt_trichotomy o.num k with hlt | heq | hgt
  · have hrefuses := hbefore _ hlt
    rw [hraw, ← ident_of_latest hlatest] at hrefuses
    exact absurd hrefuses hwritten.not_refuses
  · exact heq
  · exact absurd ((hok o hlatest hlasts).1 k hgt) hfree.not_refuses

theorem Assigned.obtained (h : Assigned n s) (hok : s.Renews (.attempt a)) (hlt : k < n)
    (hbefore : ∀ j < k, Refuses a.ident s.clock (s.holders j))
    (hfree : Free a.ident s.clock (s.holders k)) (hident : a.ident.NoSurrogates) {ends : DateTime}
    (hends : s.clock.addSeconds a.duration = some ends) (hraw : holderData a.ident ends = some raw) :
    Assigned n { s with
      holders := Function.update s.holders k (some raw), obtained := ⟨a.ident, k, ends⟩ :: s.obtained } := by
  have hwritten : Written raw ⟨a.ident, k, ends⟩ := ⟨hident, addSeconds_whole h.whole hends, hraw⟩
  have hnew (ident : PyStr) : latest { s with
      holders := Function.update s.holders k (some raw), obtained := ⟨a.ident, k, ends⟩ :: s.obtained }
        ident = if a.ident = ident then some ⟨a.ident, k, ends⟩ else s.latest ident := by
    by_cases heq : a.ident = ident
    · rw [if_pos heq]
      exact List.find?_cons_of_pos (decide_eq_true heq)
    · rw [if_neg heq]
      exact List.find?_cons_of_neg (by simpa using heq)
  refine ⟨h.whole, fun num raw' hnum => ?_, fun ident o hlatest hlasts => ?_⟩
  · replace hnum : Function.update s.holders k (some raw) num = some raw' := hnum
    by_cases hk : num = k
    · rw [hk, Function.update_self] at hnum
      obtain rfl := Option.some.inj hnum
      exact ⟨_, hk.symm, hwritten, fun _ => (hnew _).trans (if_pos rfl)⟩
    · rw [Function.update_of_ne hk] at hnum
      obtain ⟨o, ho, hown, hlatest⟩ := h.node num raw' hnum
      refine ⟨o, ho, hown, fun hlasts => (hnew _).trans ?_⟩
      -- the attempt's own lease would be at the path that it takes
      have hne : a.ident ≠ o.ident := fun heq =>
        hk (ho.symm.trans (h.num_eq hok hbefore hfree (heq ▸ hlatest hlasts) hlasts))
      exact (if_neg hne).trans (hlatest hlasts)
  · rw [hnew] at hlatest
    split at hlatest
    · obtain rfl := Option.some.inj hlatest
      exact ⟨hlt, raw, Function.update_self .., hwritten⟩
    next hne =>
      obtain ⟨hbound, raw', hraw', hown⟩ := h.kept ident o hlatest hlasts
      refine ⟨hbound, raw', ?_, hown⟩
      have hk : o.num ≠ k := by
        rintro rfl
        rw [hraw'] at hfree
        exact hne ((hown.eq_of_free hfree hlasts).symm.trans (ident_of_latest hlatest))
      exact (Function.update_of_ne hk ..).trans hraw'

theorem Assigned.attempt (h : Assigned n s) (hok : s.Renews (.attempt a)) :
    Assigned n (s.post n (.attempt a)) := by
  obtain ⟨⟨outcome, k, holders⟩, htried⟩ : ∃ result, s.attempt n a = result := ⟨_, rfl⟩
  simp only [post, htried]
  obtain ⟨-, -, hbefore, ⟨rfl, -, rfl⟩ | ⟨hne, hlt, holder, hholder, rfl⟩⟩ := attemptFrom_spec htried
  · exact h
  · rw [Nat.zero_add] at hlt
    replace hbefore : ∀ j < k, Refuses a.ident s.clock (s.holders j) := fun j => hbefore j (Nat.zero_le j)
    cases hholder with
    | refused => exact absurd rfl hne
    | raised =>
      simp only [Function.update_eq_self]
      exact h
    | overflow hfree hends => exact h.deleted hfree hends hok
    | obtained hfree hident hends hraw =>
      simp only [hends]
      exact h.obtained hok hlt hbefore hfree hident hends hraw

theorem assigned (hr : (multiLeasing L).Reach Renews s) : Assigned L.count s := by
  refine hr.invariant assigned_init fun s act _ h hen hok => ?_
  cases act with
  | tick clock => exact h.tick hen
  | attempt a => exact h.attempt hok

/-! ## Holders and refusals -/

theorem Written.ident_eq (h : Written raw o) (h' : Written raw o') (hlasts : now < o.ends) :
    o.ident = o'.ident := by
  refine h.eq_of_free (.inr ?_) hlasts
  rw [Option.bind_some, allows_written h']
  simp

/-- The path of its latest lease. -/
def slot (s : MultiLeasing) (ident : PyStr) : Nat := ((s.latest ident).map (·.num)).getD 0

theorem slot_eq {ident : PyStr} (h : s.latest ident = some o) : s.slot ident = o.num := by
  rw [slot, h]
  rfl

theorem Assigned.bounded (h : Assigned n s) {idents : List PyStr} (hnodup : idents.Nodup)
    (hholds : ∀ ident ∈ idents, s.Holds ident) : idents.length ≤ n := by
  have hinj : ∀ x ∈ idents, ∀ y ∈ idents, s.slot x = s.slot y → x = y := by
    intro x hx y hy heq
    obtain ⟨o, hlatest, hlasts⟩ := hholds x hx
    obtain ⟨o', hlatest', hlasts'⟩ := hholds y hy
    obtain ⟨-, raw, hraw, hwritten⟩ := h.kept x o hlatest hlasts
    obtain ⟨-, raw', hraw', hwritten'⟩ := h.kept y o' hlatest' hlasts'
    rw [slot_eq hlatest, slot_eq hlatest'] at heq
    rw [heq, hraw'] at hraw
    obtain rfl := Option.some.inj hraw
    rw [← ident_of_latest hlatest, ← ident_of_latest hlatest']
    exact hwritten.ident_eq hwritten' hlasts
  have hsub : idents.map s.slot ⊆ List.range n := by
    intro num hnum
    obtain ⟨ident, hmem, rfl⟩ := List.mem_map.mp hnum
    obtain ⟨o, hlatest, hlasts⟩ := hholds ident hmem
    rw [slot_eq hlatest]
    exact List.mem_range.mpr (h.kept ident o hlatest hlasts).1
  have hle := (List.subperm_of_subset (hnodup.map_on hinj) hsub).length_le
  rwa [List.length_map, List.length_range] at hle

theorem Assigned.refused (h : Assigned n s) (hrefused : (s.attempt n a).1 = .refused) :
    ∃ idents : List PyStr, idents.Nodup ∧ idents.length = n ∧
      ∀ ident ∈ idents, ident ≠ a.ident ∧ s.Holds ident := by
  obtain ⟨⟨outcome, k, holders⟩, htried⟩ : ∃ result, s.attempt n a = result := ⟨_, rfl⟩
  rw [htried] at hrefused
  obtain ⟨-, -, hbefore, ⟨-, hk, -⟩ | ⟨hne, -⟩⟩ := attemptFrom_spec htried
  · -- each path refuses the lease because of another holder
    have hheld : ∀ num < n, ∃ ident, ident ≠ a.ident ∧ s.slot ident = num ∧ s.Holds ident := by
      intro num hnum
      have hrefuses := hbefore num (Nat.zero_le num) (by omega)
      obtain ⟨raw, hraw, hallows⟩ := Option.bind_eq_some_iff.mp hrefuses
      obtain ⟨o, ho, hwritten, hlatest⟩ := h.node num raw hraw
      rw [allows_written hwritten] at hallows
      have hother := of_decide_eq_false (Option.some.inj hallows)
      obtain ⟨hident, hlasts⟩ := not_not.mp hother
      exact ⟨o.ident, hident, (slot_eq (hlatest hlasts)).trans ho, o, hlatest hlasts, hlasts⟩
    choose! ident hother hslot hholds using hheld
    refine ⟨(List.range n).map ident, List.nodup_range.map_on fun x hx y hy heq => ?_, ?_, ?_⟩
    · rw [← hslot x (List.mem_range.mp hx), ← hslot y (List.mem_range.mp hy), heq]
    · rw [List.length_map, List.length_range]
    · intro ident hmem
      obtain ⟨num, hrange, rfl⟩ := List.mem_map.mp hmem
      exact ⟨hother num (List.mem_range.mp hrange), hholds num (List.mem_range.mp hrange)⟩
  · exact absurd hrefused hne

/-- Nobody occupies a second path, and refusals are justified. -/
theorem multi_lease_justified (hr : (multiLeasing L).Reach Renews s) : Justified L.count s where
  bounded _ hnodup hholds := (assigned hr).bounded hnodup hholds
  refused _ hrefused := (assigned hr).refused hrefused

/-- Two paths, from the start of 1970 on. -/
def twoLeases : MultiLeases := ⟨2, Leasing.epoch 0, by decide +kernel⟩

/-- `a` renews its lease at the second path after the first one has become free. -/
def renewedTwice : List MultiLeaseAct :=
  [.attempt ⟨str "b", 2⟩, .attempt ⟨str "a", 10⟩, .tick (Leasing.epoch 5000000),
    .attempt ⟨str "a", 10⟩]

theorem multi_lease_not_justified :
    ¬ ∀ (L : MultiLeases) (s : MultiLeasing), (multiLeasing L).Reachable s → Justified L.count s := by
  intro h
  have hr : (multiLeasing twoLeases).Reachable
      ((multiLeasing twoLeases).exec (multiLeasing twoLeases).init renewedTwice) :=
    .of_legal (by decide +kernel)
  have hrefused : (((multiLeasing twoLeases).exec (multiLeasing twoLeases).init
      renewedTwice).attempt twoLeases.count ⟨str "c", 10⟩).1 = .refused := by
    decide +kernel
  have hlasting : ∀ o ∈ ((multiLeasing twoLeases).exec (multiLeasing twoLeases).init
      renewedTwice).obtained, ((multiLeasing twoLeases).exec (multiLeasing twoLeases).init
      renewedTwice).clock < o.ends → o.ident = str "a" := by
    decide +kernel
  obtain ⟨idents, hnodup, hlength, hholds⟩ := (h _ _ hr).refused _ hrefused
  have hsame : ∀ ident ∈ idents, ident = str "a" := by
    intro ident hmem
    obtain ⟨o, hlatest, hlasts⟩ := (hholds ident hmem).2
    exact (ident_of_latest hlatest).symm.trans
      (hlasting o (mem_of_latest hlatest) hlasts)
  match idents, hlength with
  | [x, y], _ =>
    have heq : x = y := (hsame x (by simp)).trans (hsame y (by simp)).symm
    exact (List.nodup_cons.mp hnodup).1 (by simp [heq])

/-- The lease at the second path is renewed while the first one lasts. -/
def renewedInTime : List MultiLeaseAct :=
  [.attempt ⟨str "b", 7⟩, .attempt ⟨str "a", 10⟩, .tick (Leasing.epoch 5000000),
    .attempt ⟨str "a", 10⟩, .attempt ⟨str "c", 10⟩, .tick (Leasing.epoch 8000000),
    .attempt ⟨str "c", 10⟩]

theorem multi_lease_justified_renewedInTime : Justified 2
    ((multiLeasing twoLeases).exec (multiLeasing twoLeases).init renewedInTime) :=
  multi_lease_justified (L := twoLeases) (.of_legal (by decide +kernel))

end MultiLeasing

end Kazoo
