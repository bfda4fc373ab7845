import Kazoo.Lib.Machine
import Kazoo.Recipe.LeaseText

/-!
# Leases

`NonBlockingLease` of `kazoo/recipe/lease.py`: attempts at one path, one at a time under its lock.
All clients read one clock.
-/

namespace Kazoo

structure LeaseAttempt where
  ident : PyStr
  -- in microseconds
  duration : Nat
  deriving DecidableEq

/-- Where `_attempt_obtaining` is, with the time that it read. -/
inductive LeaseStage
  | starting
  | checking (now : DateTime)
  | getting (now : DateTime)
  | deleting (now : DateTime)
  | creating (now : DateTime)
  /-- The lock is released, whether the attempt returns or raises. -/
  | leaving
  deriving DecidableEq

/-- An attempt that obtained the lease. -/
structure ObtainedLease where
  ident : PyStr
  now : DateTime
  duration : Nat
  deriving DecidableEq

/-- When it ends, in microseconds. -/
def ObtainedLease.ends (o : ObtainedLease) : Nat := o.now.val + o.duration

structure Leasing where
  clock : DateTime
  /-- The data of `path + "/lease_holder"`. -/
  holder : Option Bytes
  /-- The attempt that holds the lock. -/
  inside : Option (LeaseAttempt × LeaseStage)
  /-- Latest first. -/
  obtained : List ObtainedLease
  deriving DecidableEq

inductive LeaseAct
  | tick (clock : DateTime)
  | enter (a : LeaseAttempt)
  | go
  deriving DecidableEq

namespace Leasing

/-- `NonBlockingLease._version`. -/
def leaseVersion : Int := 1

/-- The data of the holder node is looked at. -/
def check (a : LeaseAttempt) (now : DateTime) (raw : Bytes) : LeaseStage :=
  match Lease.decode raw with
  | none => .leaving
  | some data =>
    if data.get (str "version") ≠ some (.int leaseVersion) then .leaving
    else match data.get (str "end"), data.get (str "holder") with
      | some (.str text), some holder =>
        match DateTime.strptime text with
        | none => .leaving
        | some currentEnd =>
          if holder ≠ .str a.ident ∧ now < currentEnd then .leaving else .deleting now
      | _, _ => .leaving

/-- The new data, unless the end is past the year 9999. -/
def newData (a : LeaseAttempt) (now : DateTime) : Option Bytes := do
  let endLease ← now.add a.duration
  match (Lease.mk leaseVersion a.ident endLease.strftime).encode with
  | .ok raw => some raw
  | .error _ => none

def enabled (s : Leasing) : LeaseAct → Prop
  | .tick clock => s.clock ≤ clock
  -- the lock encodes the identifier
  | .enter a => s.inside = none ∧ 0 < a.duration ∧ (PyStr.encode a.ident).isOk = true
  | .go => s.inside ≠ none

instance (s : Leasing) (act : LeaseAct) : Decidable (s.enabled act) := by
  cases act <;> unfold enabled <;> infer_instance

/-- One step of `_attempt_obtaining`. -/
def go (s : Leasing) (a : LeaseAttempt) : LeaseStage → Leasing
  | .starting => { s with inside := some (a, .checking s.clock) }
  | .checking now =>
    { s with inside := some (a, if s.holder = none then .creating now else .getting now) }
  | .getting now =>
    { s with inside := some (a, (s.holder.map (check a now)).getD .leaving) }
  | .deleting now => { s with holder := none, inside := some (a, .creating now) }
  | .creating now =>
    match newData a now with
    | none => { s with inside := some (a, .leaving) }
    | some raw =>
      { s with
        holder := some raw, inside := some (a, .leaving)
        obtained := ⟨a.ident, now, a.duration⟩ :: s.obtained }
  | .leaving => { s with inside := none }

def post (s : Leasing) : LeaseAct → Leasing
  | .tick clock => { s with clock }
  | .enter a => { s with inside := some (a, .starting) }
  | .go =>
    match s.inside with
    | some (a, stage) => s.go a stage
    | none => s

def leasing (start : DateTime) : Machine Leasing LeaseAct where
  init := ⟨start, none, none, []⟩
  enabled := enabled
  post := post

instance (start : DateTime) (s : Leasing) (act : LeaseAct) :
    Decidable ((leasing start).enabled s act) :=
  inferInstanceAs (Decidable (s.enabled act))

/-- Nobody obtains the lease while another one's lease lasts, unless that one has obtained it again
since, with an earlier end. -/
def Exclusive (obtained : List ObtainedLease) : Prop :=
  ∀ later o₂ between o₁ earlier, obtained = later ++ o₂ :: (between ++ o₁ :: earlier) →
    o₂.ident ≠ o₁.ident → o₁.now ≤ o₂.now → o₂.now.val < o₁.ends →
      ∃ o₃ ∈ between, o₃.ident = o₁.ident ∧ o₃.ends < o₁.ends

/-! ## Ends in the middle of a second -/

/-- An attempt that can write its end does not read the clock before the end of another one's last
lease: neither in the fraction of a second that was cut off, nor after an attempt that could not
write its end deleted the node. -/
def OnTime (s : Leasing) : LeaseAct → Prop
  | .go =>
    match s.inside with
    | some (a, .checking now) =>
      s.holder = none → now.val + a.duration < dateLimit →
        ∀ o ∈ s.obtained.head?, o.ident = a.ident ∨ o.ends ≤ now.val
    | some (a, .getting now) =>
      now.val + a.duration < dateLimit →
        ∀ o ∈ s.obtained.head?,
          o.ident = a.ident ∨ now.val < o.ends - o.ends % 1000000 ∨ o.ends ≤ now.val
    | _ => True
  | _ => True

instance (s : Leasing) (act : LeaseAct) : Decidable (s.OnTime act) := by
  unfold OnTime
  split
  · split <;> infer_instance
  · infer_instance

/-- The lease `o` is in the node. -/
def Written (raw : Bytes) (o : ObtainedLease) : Prop :=
  ∃ endLease : DateTime, endLease.val = o.ends ∧
    (Lease.mk leaseVersion o.ident endLease.strftime).encode = .ok raw

/-- The lease is free for `o`, given those before. -/
def Respects (before : List ObtainedLease) (o : ObtainedLease) : Prop :=
  ∀ between o₁ earlier, before = between ++ o₁ :: earlier → o.ident ≠ o₁.ident →
    o.now.val < o₁.ends → ∃ o₃ ∈ between, o₃.ident = o₁.ident ∧ o₃.ends < o₁.ends

def Respectful : List ObtainedLease → Prop
  | [] => True
  | o :: before => Respects before o ∧ Respectful before

variable {start : DateTime} {s t : Leasing} {a : LeaseAttempt} {now : DateTime} {raw : Bytes}
  {o o' : ObtainedLease} {before : List ObtainedLease}

theorem exclusive_of_respectful {obtained : List ObtainedLease} (h : Respectful obtained) :
    Exclusive obtained := by
  intro later o₂ between o₁ earlier heq hne _ hlt
  induction later generalizing obtained with
  | nil =>
    rw [heq, List.nil_append] at h
    exact h.1 between o₁ earlier rfl hne hlt
  | cons o later ih =>
    rw [heq, List.cons_append] at h
    exact ih h.2 rfl

/-- After the lease of `o`, its holder may obtain it again at any time, and another one once it has
ended. -/
theorem respects_cons (h : Respects before o) (hnow : o.now ≤ o'.now)
    (hfree : o.ident = o'.ident ∨ o.ends ≤ o'.now.val) : Respects (o :: before) o' := by
  intro between o₁ earlier heq hne hlt
  cases between with
  | nil =>
    obtain ⟨rfl, rfl⟩ := List.cons.inj heq
    rcases hfree with hident | hends
    · exact absurd hident.symm hne
    · omega
  | cons first between =>
    obtain ⟨rfl, hbefore⟩ := List.cons.inj heq
    by_cases hident : o.ident = o₁.ident
    · rcases hfree with hsame | hends
      · exact absurd (hsame.symm.trans hident) hne
      · exact ⟨o, List.mem_cons_self .., hident, by omega⟩
    · obtain ⟨o₃, hmem, hrest⟩ := h between o₁ earlier hbefore hident (Nat.lt_of_le_of_lt hnow hlt)
      exact ⟨o₃, List.mem_cons_of_mem _ hmem, hrest⟩

theorem get_members (l : Lease) :
    l.members.get (str "version") = some (.int l.version) ∧
      l.members.get (str "end") = some (.str l.endLease) ∧
      l.members.get (str "holder") = some (.str l.holder) :=
  ⟨rfl, rfl, rfl⟩

/-- Another one's lease is taken once its whole seconds are over. -/
theorem check_written (hwritten : Written raw o) (hident : o.ident.NoSurrogates) :
    check a now raw =
      if o.ident ≠ a.ident ∧ now.val < o.ends - o.ends % 1000000 then .leaving else .deleting now := by
  obtain ⟨endLease, hends, hraw⟩ := hwritten
  obtain ⟨raw', hraw', hdecode⟩ := Lease.decode_encode
    (l := Lease.mk leaseVersion o.ident endLease.strftime) hident
    (noSurrogates_of_ascii endLease.ascii_strftime)
  obtain rfl := Except.ok.inj (hraw.symm.trans hraw')
  obtain ⟨hversion, hend, hholder⟩ := get_members (Lease.mk leaseVersion o.ident endLease.strftime)
  have hwhole : now < endLease.wholeSeconds ↔ now.val < o.ends - o.ends % 1000000 := by
    rw [← hends]
    exact Iff.rfl
  simp only [check, hdecode, hversion, hend, hholder, DateTime.strptime_strftime, ne_eq,
    not_true, if_false, hwhole, JsonValue.str.injEq]

/-! ## One attempt after the other -/

/-- What an attempt inside the lock knows. -/
def Knows (s : Leasing) (a : LeaseAttempt) : LeaseStage → Prop
  | .starting | .leaving => True
  | .checking now | .getting now => now ≤ s.clock ∧ ∀ o ∈ s.obtained, o.now ≤ now
  | .deleting now | .creating now =>
    now ≤ s.clock ∧ (∀ o ∈ s.obtained, o.now ≤ now) ∧
      (now.val + a.duration < dateLimit →
        ∀ o ∈ s.obtained.head?, o.ident = a.ident ∨ o.ends ≤ now.val)

structure Held (s : Leasing) : Prop where
  clock : ∀ o ∈ s.obtained, o.now ≤ s.clock
  idents : ∀ o ∈ s.obtained, o.ident.NoSurrogates
  respectful : Respectful s.obtained
  holder : ∀ raw ∈ s.holder, ∃ o ∈ s.obtained.head?, Written raw o
  inside : ∀ a stage, s.inside = some (a, stage) → a.ident.NoSurrogates ∧ s.Knows a stage

theorem Knows.mono {stage : LeaseStage} (h : s.Knows a stage) (hobtained : t.obtained = s.obtained)
    (hclock : s.clock ≤ t.clock) : t.Knows a stage := by
  cases stage with
  | starting => trivial
  | leaving => trivial
  | checking now | getting now =>
    refine ⟨h.1.trans hclock, ?_⟩
    rw [hobtained]
    exact h.2
  | deleting now | creating now =>
    refine ⟨h.1.trans hclock, ?_⟩
    rw [hobtained]
    exact h.2

theorem held_init : Held (leasing start).init where
  clock := nofun
  idents := nofun
  respectful := trivial
  holder := fun _ h => nomatch h
  inside := fun _ _ h => nomatch h

/-- The attempt goes on to another stage; the node may be deleted. -/
theorem Held.moved (h : Held s) {stage : LeaseStage} {holder : Option Bytes}
    (hholder : holder = s.holder ∨ holder = none) (hident : a.ident.NoSurrogates)
    (hknows : s.Knows a stage) : Held { s with holder, inside := some (a, stage) } where
  clock := h.clock
  idents := h.idents
  respectful := h.respectful
  holder raw hraw := by
    rcases hholder with rfl | rfl
    · exact h.holder raw hraw
    · cases hraw
  inside a' stage' heq := by
    obtain ⟨rfl, rfl⟩ := Prod.mk.inj (Option.some.inj heq)
    exact ⟨hident, hknows.mono rfl le_rfl⟩

theorem newData_eq (hraw : newData a now = some raw) :
    now.val + a.duration < dateLimit ∧ Written raw ⟨a.ident, now, a.duration⟩ := by
  unfold newData DateTime.add at hraw
  split at hraw
  · rename_i hlt
    refine ⟨hlt, ⟨_, hlt⟩, rfl, ?_⟩
    simp only [Option.bind_eq_bind, Option.bind_some] at hraw
    split at hraw
    · rename_i hencoded
      rw [hencoded, Option.some.inj hraw]
    · cases hraw
  · cases hraw

theorem Held.go (h : Held s) {stage : LeaseStage} (hinside : s.inside = some (a, stage))
    (hok : s.OnTime .go) : Held (s.go a stage) := by
  obtain ⟨hident, hknows⟩ := h.inside a stage hinside
  cases stage with
  | starting => exact h.moved (.inl rfl) hident ⟨le_rfl, h.clock⟩
  | checking now =>
    simp only [OnTime, hinside] at hok
    simp only [Leasing.go]
    split
    · rename_i hnone
      exact h.moved (.inl rfl) hident ⟨hknows.1, hknows.2, hok hnone⟩
    · exact h.moved (.inl rfl) hident hknows
  | getting now =>
    simp only [OnTime, hinside] at hok
    simp only [Leasing.go]
    cases hholder : s.holder with
    | none => exact h.moved (.inl hholder.symm) hident trivial
    | some raw =>
      obtain ⟨o, ho, hwritten⟩ := h.holder raw hholder
      rw [Option.map_some, Option.getD_some,
        check_written hwritten (h.idents o (List.mem_of_mem_head? ho))]
      split
      · exact h.moved (.inl hholder.symm) hident trivial
      · rename_i htaken
        refine h.moved (.inl hholder.symm) hident ⟨hknows.1, hknows.2, fun hfits o' ho' => ?_⟩
        obtain rfl := Option.some.inj (ho.symm.trans ho')
        rcases hok hfits o ho with hsame | hbefore | hends
        · exact .inl hsame
        · by_cases hsame : o.ident = a.ident
          · exact .inl hsame
          · exact absurd ⟨hsame, hbefore⟩ htaken
        · exact .inr hends
  | deleting now => exact h.moved (.inr rfl) hident hknows
  | creating now =>
    simp only [Leasing.go]
    cases hdata : newData a now with
    | none => exact h.moved (.inl rfl) hident trivial
    | some raw =>
      obtain ⟨hfits, hwritten⟩ := newData_eq hdata
      obtain ⟨hclock, hreads, hfree⟩ := hknows
      refine ⟨?_, ?_, ⟨?_, h.respectful⟩, ?_, ?_⟩
      · exact List.forall_mem_cons.mpr ⟨hclock, h.clock⟩
      · exact List.forall_mem_cons.mpr ⟨hident, h.idents⟩
      · have hrespectful := h.respectful
        cases hobtained : s.obtained with
        | nil => exact fun between o₁ earlier heq => absurd heq.symm (by simp)
        | cons o before =>
          rw [hobtained] at hreads hrespectful hfree
          exact respects_cons hrespectful.1 (hreads o (List.mem_cons_self ..)) (hfree hfits o rfl)
      · intro raw' hraw'
        obtain rfl := Option.some.inj hraw'
        exact ⟨_, rfl, hwritten⟩
      · intro a' stage' heq
        obtain ⟨rfl, rfl⟩ := Prod.mk.inj (Option.some.inj heq)
        exact ⟨hident, trivial⟩
  | leaving => exact ⟨h.clock, h.idents, h.respectful, h.holder, fun _ _ heq => nomatch heq⟩

theorem Held.step (h : Held s) {act : LeaseAct} (hen : (leasing start).enabled s act)
    (hok : s.OnTime act) : Held ((leasing start).post s act) := by
  cases act with
  | tick clock =>
    refine ⟨fun o ho => (h.clock o ho).trans hen, h.idents, h.respectful, h.holder, ?_⟩
    intro a stage heq
    obtain ⟨hident, hknows⟩ := h.inside a stage heq
    exact ⟨hident, hknows.mono rfl hen⟩
  | enter a => exact h.moved (.inl rfl) ((PyStr.encode_isOk_iff _).mp hen.2.2) trivial
  | go =>
    show Held (match s.inside with | some (a, stage) => s.go a stage | none => s)
    cases hinside : s.inside with
    | none => exact h
    | some p => exact h.go hinside hok

theorem held (hr : (leasing start).Reach (fun s act => s.OnTime act) s) : Held s :=
  hr.invariant held_init fun _ _ _ h hen hok => h.step hen hok

/-- A lease that is obtained lasts. -/
theorem lease_exclusive (hr : (leasing start).Reach (fun s act => s.OnTime act) s) :
    Exclusive s.obtained :=
  exclusive_of_respectful (held hr).respectful

/-- Microseconds after the start of 1970. -/
def epoch (micros : Nat) : DateTime :=
  ⟨(719162 * 86400000000 + micros) % dateLimit, Nat.mod_lt _ (by decide)⟩

/-- Obtained at 10.5 s for three seconds, and asked for by another one at 13.2 s. -/
def overtaken : List LeaseAct :=
  [.enter ⟨str "a", 3000000⟩, .go, .go, .go, .go, .tick (epoch 13200000),
    .enter ⟨str "b", 3000000⟩, .go, .go, .go, .go, .go, .go]

theorem lease_overtaken :
    ¬ ∀ (start : DateTime) (s : Leasing), (leasing start).Reachable s → Exclusive s.obtained := by
  intro h
  have hr : (leasing (epoch 10500000)).Reachable
      ((leasing (epoch 10500000)).exec (leasing (epoch 10500000)).init overtaken) :=
    .of_legal (by decide +kernel)
  have hobtained : ((leasing (epoch 10500000)).exec (leasing (epoch 10500000)).init
      overtaken).obtained = [⟨str "b", epoch 13200000, 3000000⟩, ⟨str "a", epoch 10500000, 3000000⟩] := by
    decide +kernel
  have hexclusive := h _ _ hr
  rw [hobtained] at hexclusive
  obtain ⟨o₃, hmem, -⟩ := hexclusive [] _ [] _ [] rfl (by decide) (by decide +kernel) (by decide +kernel)
  exact List.not_mem_nil hmem

/-- Refused at 12 s, obtained at 14 s. -/
def waitedFor : List LeaseAct :=
  [.enter ⟨str "a", 3000000⟩, .go, .go, .go, .go, .tick (epoch 12000000),
    .enter ⟨str "b", 3000000⟩, .go, .go, .go, .go, .tick (epoch 14000000),
    .enter ⟨str "b", 3000000⟩, .go, .go, .go, .go, .go, .go]

theorem lease_exclusive_waitedFor :
    Exclusive ((leasing (epoch 10500000)).exec (leasing (epoch 10500000)).init waitedFor).obtained :=
  lease_exclusive (.of_legal (by decide +kernel))

end Leasing

end Kazoo
