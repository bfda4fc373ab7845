import Kazoo.Exceptions
import Kazoo.Lib.Grouping
import Mathlib.Data.Rat.Defs
import Mathlib.Algebra.Order.Ring.Unbundled.Rat

/-!
# Selecting with a selector

`fileobj_to_fd` and `selector_select` of `kazoo/handlers/utils.py`.  The objects of both lists are
gathered under their descriptors and registered together, and what is ready is dealt out again
without regard to the list from which an object came.
-/

namespace Kazoo

/-- A descriptor, or an object with a method `fileno`. -/
inductive FdLike (ω : Type)
  | int (fd : Int)
  | object (o : ω)
  deriving DecidableEq, Repr

def EVENT_READ : Nat := 1

def EVENT_WRITE : Nat := 2

/-- `selectors_module.DefaultSelector`, as far as it goes on from what has been registered. -/
structure DefaultSelector where
  register : (fd : Int) → (events : Nat) → Except Exn Unit
  select : (registered : List (Int × Nat)) → (timeout : Option ℚ) → Except Exn (List (Int × Nat))

/-- `fd_events` and `fd_fileobjs`. -/
structure FdTables (ω : Type) where
  fdEvents : List (Int × Nat)
  fdFileobjs : List (Int × List (FdLike ω))

section

variable {ω : Type} (fileno : ω → Except Exn Int)

def fileobjToFd (fileobj : FdLike ω) : Except Exn Int := do
  let fd ← match fileobj with
    | .int fd => .ok fd
    | .object o =>
      match fileno o with
      | .ok fd => .ok fd
      | .error e =>
        .error (if e = .attributeError ∨ e = .typeError ∨ e = .valueError then .typeError else e)
  if fd < 0 then .error .typeError else .ok fd

/-- The loop over one of the lists. -/
def addFileobjs (event : Nat) : List (FdLike ω) → FdTables ω → Except Exn (FdTables ω)
  | [], t => .ok t
  | fileobj :: fileobjs, t => do
    let fd ← fileobjToFd fileno fileobj
    addFileobjs event fileobjs
      { fdEvents := Grouping.update 0 (· ||| event) fd t.fdEvents
        fdFileobjs := Grouping.update [] (· ++ [fileobj]) fd t.fdFileobjs }

/-- The loop over `fd_events`. -/
def registerAll (S : DefaultSelector) : List (Int × Nat) → Except Exn Unit
  | [] => .ok ()
  | (fd, events) :: fdEvents =>
    match S.register fd events with
    | .ok _ => registerAll S fdEvents
    | .error e => .error (if e = .valueError ∨ e = .osError then .valueError else e)

/-- The loop over `ready`. -/
def readyFileobjs (t : FdTables ω) :
    List (Int × Nat) → List (FdLike ω) → List (FdLike ω) → List (FdLike ω) × List (FdLike ω)
  | [], revents, wevents => (revents, wevents)
  | (fd, events) :: ready, revents, wevents =>
    if events &&& EVENT_READ ≠ 0 then
      readyFileobjs t ready (revents ++ Grouping.value [] t.fdFileobjs fd) wevents
    else if events &&& EVENT_WRITE ≠ 0 then
      readyFileobjs t ready revents (wevents ++ Grouping.value [] t.fdFileobjs fd)
    else readyFileobjs t ready revents wevents

def selectorSelect (S : DefaultSelector) (rlist wlist _xlist : List (FdLike ω)) (timeout : Option ℚ) :
    Except Exn (List (FdLike ω) × List (FdLike ω) × List (FdLike ω)) := do
  if ∃ t ∈ timeout, t < 0 then .error .valueError else
  let t ← addFileobjs fileno EVENT_READ rlist ⟨[], []⟩
  let t ← addFileobjs fileno EVENT_WRITE wlist t
  registerAll S t.fdEvents
  let ready ← S.select t.fdEvents timeout
  let (revents, wevents) := readyFileobjs t ready [] []
  return (revents, wevents, [])

end

/-! ## What is ready -/

/-- The selector says that the descriptor can be read. -/
def Readable (ready : List (Int × Nat)) (fd : Int) : Prop := ∃ x ∈ ready, x.1 = fd ∧ x.2 &&& EVENT_READ ≠ 0

/-- The selector says that the descriptor can be written. -/
def Writable (ready : List (Int × Nat)) (fd : Int) : Prop := ∃ x ∈ ready, x.1 = fd ∧ x.2 &&& EVENT_WRITE ≠ 0

instance (ready : List (Int × Nat)) : DecidablePred (Readable ready) := fun _ =>
  inferInstanceAs (Decidable (∃ x ∈ ready, _))

instance (ready : List (Int × Nat)) : DecidablePred (Writable ready) := fun _ =>
  inferInstanceAs (Decidable (∃ x ∈ ready, _))

/-- Only what has been registered is reported, and each descriptor once. -/
structure Reports (registered ready : List (Int × Nat)) : Prop where
  nodup : (ready.map Prod.fst).Nodup
  within : ∀ x ∈ ready, ∃ events, (x.1, events) ∈ registered ∧ x.2 &&& events = x.2

section

variable {ω : Type} {fileno : ω → Except Exn Int} {fd : FdLike ω → Int} {rlist wlist : List (FdLike ω)}
  {ready : List (Int × Nat)}

/-- The objects of both lists, with their events. -/
def mapped (rlist wlist : List (FdLike ω)) : List (Nat × FdLike ω) :=
  rlist.map (EVENT_READ, ·) ++ wlist.map (EVENT_WRITE, ·)

/-- What is registered when each object has its descriptor. -/
def registered (fd : FdLike ω → Int) (rlist wlist : List (FdLike ω)) : List (Int × Nat) :=
  Grouping.gather 0 (fun x : Nat × FdLike ω => fd x.2) (fun events x => events ||| x.1)
    (mapped rlist wlist) []

def gathered (fd : FdLike ω → Int) (rlist wlist : List (FdLike ω)) : List (Int × List (FdLike ω)) :=
  Grouping.gather [] (fun x : Nat × FdLike ω => fd x.2) (fun fileobjs x => fileobjs ++ [x.2])
    (mapped rlist wlist) []

theorem addFileobjs_eq (event : Nat) (t : FdTables ω) {fileobjs : List (FdLike ω)}
    (hfd : ∀ o ∈ fileobjs, fileobjToFd fileno o = .ok (fd o)) :
    addFileobjs fileno event fileobjs t = .ok
      { fdEvents := Grouping.gather 0 (fun x : Nat × FdLike ω => fd x.2) (fun events x => events ||| x.1)
          (fileobjs.map (event, ·)) t.fdEvents
        fdFileobjs := Grouping.gather [] (fun x : Nat × FdLike ω => fd x.2)
          (fun fileobjs x => fileobjs ++ [x.2]) (fileobjs.map (event, ·)) t.fdFileobjs } := by
  induction fileobjs generalizing t with
  | nil => rfl
  | cons o fileobjs ih =>
    obtain ⟨ho, hfd⟩ := List.forall_mem_cons.mp hfd
    rw [addFileobjs, ho]
    exact ih _ hfd

theorem registerAll_eq {S : DefaultSelector} {fdEvents : List (Int × Nat)}
    (h : ∀ x ∈ fdEvents, S.register x.1 x.2 = .ok ()) : registerAll S fdEvents = .ok () := by
  induction fdEvents with
  | nil => rfl
  | cons x fdEvents ih =>
    obtain ⟨hx, h⟩ := List.forall_mem_cons.mp h
    rw [registerAll, hx]
    exact ih h

theorem fd_of_mem_registered {d : Int} {events : Nat} (h : (d, events) ∈ registered fd rlist wlist) :
    ∃ o ∈ rlist ++ wlist, fd o = d := by
  have hkey : d ∈ (registered fd rlist wlist).map Prod.fst := List.mem_map_of_mem h
  rcases Grouping.mem_keys_gather.mp hkey with ⟨x, hx, rfl⟩ | hnone
  · refine ⟨x.2, ?_, rfl⟩
    rcases List.mem_append.mp hx with hx | hx
    · obtain ⟨o, ho, rfl⟩ := List.mem_map.mp hx
      exact List.mem_append_left _ ho
    · obtain ⟨o, ho, rfl⟩ := List.mem_map.mp hx
      exact List.mem_append_right _ ho
  · cases hnone

/-- A bit of the mask comes from one of the events. -/
theorem exists_of_foldl_or {l : List (Nat × FdLike ω)} {mask bit : Nat}
    (h : (l.foldl (fun events x => events ||| x.1) mask) &&& bit ≠ 0) :
    mask &&& bit ≠ 0 ∨ ∃ x ∈ l, x.1 &&& bit ≠ 0 := by
  induction l generalizing mask with
  | nil => exact .inl h
  | cons x l ih =>
    rcases ih h with hmask | ⟨y, hy, hbit⟩
    · rw [Nat.and_or_distrib_right] at hmask
      by_cases hx : x.1 &&& bit = 0
      · rw [hx, Nat.or_zero] at hmask
        exact .inl hmask
      · exact .inr ⟨x, List.mem_cons_self, hx⟩
    · exact .inr ⟨y, List.mem_cons_of_mem x hy, hbit⟩

/-- A ready descriptor has been asked for. -/
theorem exists_of_ready (hready : Reports (registered fd rlist wlist) ready) {d : Int} {bit : Nat}
    (h : ∃ x ∈ ready, x.1 = d ∧ x.2 &&& bit ≠ 0) :
    ∃ y ∈ mapped rlist wlist, fd y.2 = d ∧ y.1 &&& bit ≠ 0 := by
  obtain ⟨x, hx, rfl, hbit⟩ := h
  obtain ⟨events, hmem, hwithin⟩ := hready.within x hx
  have hevents : events &&& bit ≠ 0 := fun hzero => hbit (by
    rw [← hwithin, Nat.and_assoc, hzero, Nat.and_zero])
  rw [Grouping.value_of_mem_gather hmem] at hevents
  rcases exists_of_foldl_or hevents with hzero | ⟨y, hy, hbit⟩
  · exact absurd (Nat.zero_and bit) hzero
  · obtain ⟨hy, hfd⟩ := List.mem_filter.mp hy
    exact ⟨y, hy, of_decide_eq_true hfd, hbit⟩

theorem exists_of_readable (hready : Reports (registered fd rlist wlist) ready) {d : Int}
    (h : Readable ready d) : ∃ o ∈ rlist, fd o = d := by
  obtain ⟨y, hy, hfd, hbit⟩ := exists_of_ready hready h
  rcases List.mem_append.mp hy with hy | hy
  · obtain ⟨o, ho, rfl⟩ := List.mem_map.mp hy
    exact ⟨o, ho, hfd⟩
  · obtain ⟨o, -, rfl⟩ := List.mem_map.mp hy
    exact absurd (show EVENT_WRITE &&& EVENT_READ = 0 by decide) hbit

theorem exists_of_writable (hready : Reports (registered fd rlist wlist) ready) {d : Int}
    (h : Writable ready d) : ∃ o ∈ wlist, fd o = d := by
  obtain ⟨y, hy, hfd, hbit⟩ := exists_of_ready hready h
  rcases List.mem_append.mp hy with hy | hy
  · obtain ⟨o, -, rfl⟩ := List.mem_map.mp hy
    exact absurd (show EVENT_READ &&& EVENT_WRITE = 0 by decide) hbit
  · obtain ⟨o, ho, rfl⟩ := List.mem_map.mp hy
    exact ⟨o, ho, hfd⟩

/-- The objects of one descriptor, those to be read first. -/
theorem value_gathered (d : Int) : Grouping.value [] (gathered fd rlist wlist) d =
    rlist.filter (fd · = d) ++ wlist.filter (fd · = d) := by
  rw [gathered, Grouping.value_gather, List.foldl_append_eq_append, ← List.flatMap_def,
    ← List.map_eq_flatMap, mapped, List.filter_append]
  simp [Grouping.value, List.filter_map, Function.comp_def]

theorem readyFileobjs_eq {t : FdTables ω} {revents wevents : List (FdLike ω)} :
    readyFileobjs t ready revents wevents =
      (revents ++ (ready.filter (·.2 &&& EVENT_READ ≠ 0)).flatMap
          fun x => Grouping.value [] t.fdFileobjs x.1,
        wevents ++ (ready.filter fun x => x.2 &&& EVENT_WRITE ≠ 0 ∧ x.2 &&& EVENT_READ = 0).flatMap
          fun x => Grouping.value [] t.fdFileobjs x.1) := by
  induction ready generalizing revents wevents with
  | nil => simp [readyFileobjs]
  | cons x ready ih =>
    obtain ⟨d, events⟩ := x
    rw [readyFileobjs]
    by_cases hread : events &&& EVENT_READ ≠ 0
    · simp [hread, ih]
    · by_cases hwrite : events &&& EVENT_WRITE ≠ 0
      · simp only [ne_eq, not_not] at hread
        simp [hread, hwrite, ih]
      · simp only [ne_eq, not_not] at hread hwrite
        simp [hread, hwrite, ih]

/-- The objects that are dealt out for some of the ready descriptors, of both lists. -/
theorem flatMap_gathered_perm (fd : FdLike ω → Int) (rlist wlist : List (FdLike ω))
    {picked : List (Int × Nat)} (h : (picked.map Prod.fst).Nodup) :
    (picked.flatMap fun x => Grouping.value [] (gathered fd rlist wlist) x.1).Perm
      (rlist.filter (fd · ∈ picked.map Prod.fst) ++ wlist.filter (fd · ∈ picked.map Prod.fst)) := by
  simp only [value_gathered]
  refine (List.flatMap_append_perm _ _ _).symm.trans ?_
  have hr := Grouping.flatMap_filter_perm fd rlist h
  have hw := Grouping.flatMap_filter_perm fd wlist h
  rw [List.flatMap_map] at hr hw
  exact hr.append hw

theorem mem_readable {d : Int} : d ∈ (ready.filter (·.2 &&& EVENT_READ ≠ 0)).map Prod.fst ↔
    Readable ready d := by
  simp [Readable]

theorem mem_writable (hnodup : (ready.map Prod.fst).Nodup) {d : Int} :
    d ∈ (ready.filter fun x => x.2 &&& EVENT_WRITE ≠ 0 ∧ x.2 &&& EVENT_READ = 0).map Prod.fst ↔
      Writable ready d ∧ ¬ Readable ready d := by
  simp only [List.mem_map, List.mem_filter, decide_eq_true_eq]
  constructor
  · rintro ⟨x, ⟨hx, hwrite, hread⟩, rfl⟩
    refine ⟨⟨x, hx, rfl, hwrite⟩, ?_⟩
    rintro ⟨y, hy, hfd, hbit⟩
    obtain rfl := List.inj_on_of_nodup_map hnodup hy hx hfd
    exact hbit hread
  · rintro ⟨⟨x, hx, rfl, hwrite⟩, hread⟩
    refine ⟨x, ⟨hx, hwrite, ?_⟩, rfl⟩
    by_contra hbit
    exact hread ⟨x, hx, rfl, hbit⟩

/-! ## Dealing out -/

/-- The results are those of `select`: the objects of the read list that can be read, and those of the
write list that can be written, as often as they were passed. -/
def DropIn (fd : FdLike ω → Int) (ready : List (Int × Nat)) (rlist wlist : List (FdLike ω))
    (result : Except Exn (List (FdLike ω) × List (FdLike ω) × List (FdLike ω))) : Prop :=
  ∃ revents wevents, result = .ok (revents, wevents, []) ∧
    revents.Perm (rlist.filter (Readable ready <| fd ·)) ∧
      wevents.Perm (wlist.filter (Writable ready <| fd ·))

/-- No descriptor with an object in both lists is ready. -/
def Apart (fd : FdLike ω → Int) (ready : List (Int × Nat)) (rlist wlist : List (FdLike ω)) : Prop :=
  ∀ o ∈ rlist, ∀ o' ∈ wlist, fd o = fd o' → ¬ Readable ready (fd o) ∧ ¬ Writable ready (fd o)

theorem append_perm_left_iff {l l' : List (FdLike ω)} : (l ++ l').Perm l ↔ l' = [] := by
  constructor
  · intro h
    have hlength := h.length_eq
    rw [List.length_append] at hlength
    exact List.eq_nil_of_length_eq_zero (by omega)
  · rintro rfl
    rw [List.append_nil]

/-- What is dealt out: the readable objects of both lists, and of the others the writable ones. -/
theorem selectorSelect_eq (S : DefaultSelector) (xlist : List (FdLike ω)) {timeout : Option ℚ}
    (htimeout : ∀ t ∈ timeout, 0 ≤ t)
    (hfd : ∀ o ∈ rlist ++ wlist, fileobjToFd fileno o = .ok (fd o))
    (hregister : ∀ o ∈ rlist ++ wlist, ∀ events, S.register (fd o) events = .ok ())
    (hselect : S.select (registered fd rlist wlist) timeout = .ok ready)
    (hready : Reports (registered fd rlist wlist) ready) : ∃ revents wevents,
      selectorSelect fileno S rlist wlist xlist timeout = .ok (revents, wevents, []) ∧
        revents.Perm (rlist.filter (Readable ready <| fd ·) ++ wlist.filter (Readable ready <| fd ·)) ∧
        wevents.Perm (rlist.filter (fun o => Writable ready (fd o) ∧ ¬ Readable ready (fd o)) ++
          wlist.filter fun o => Writable ready (fd o) ∧ ¬ Readable ready (fd o)) := by
  have hrlist := addFileobjs_eq EVENT_READ ⟨[], []⟩ fun o ho =>
    hfd o (List.mem_append_left _ ho)
  have hwlist (t : FdTables ω) := addFileobjs_eq EVENT_WRITE t fun o ho =>
    hfd o (List.mem_append_right _ ho)
  have hall : registerAll S (registered fd rlist wlist) = .ok () := by
    refine registerAll_eq fun x hx => ?_
    obtain ⟨o, ho, heq⟩ := fd_of_mem_registered hx
    rw [← heq]
    exact hregister o ho x.2
  have hnegative : ¬ ∃ t ∈ timeout, t < 0 := fun ⟨t, ht, hlt⟩ => absurd (htimeout t ht) (not_le.mpr hlt)
  have hkeys {p : Int × Nat → Bool} : ((ready.filter p).map Prod.fst).Nodup :=
    hready.nodup.sublist (List.filter_sublist.map Prod.fst)
  have hrevents := flatMap_gathered_perm fd rlist wlist
    (hkeys (p := (·.2 &&& EVENT_READ ≠ 0)))
  have hwevents := flatMap_gathered_perm fd rlist wlist
    (hkeys (p := fun x => x.2 &&& EVENT_WRITE ≠ 0 ∧ x.2 &&& EVENT_READ = 0))
  simp only [mem_readable] at hrevents
  simp only [mem_writable hready.nodup] at hwevents
  refine ⟨_, _, ?_, hrevents, hwevents⟩
  rw [selectorSelect, if_neg hnegative, hrlist]
  show (addFileobjs fileno EVENT_WRITE wlist _ >>= _) = _
  rw [hwlist]
  dsimp only
  rw [← Grouping.gather_append, ← Grouping.gather_append]
  show (registerAll S (registered fd rlist wlist) >>= _) = _
  rw [hall]
  show (S.select (registered fd rlist wlist) timeout >>= _) = _
  rw [hselect]
  show Except.ok _ = _
  rw [readyFileobjs_eq]
  rfl

/-- The results are those of `select` if and only if no descriptor with an object in both lists is
ready. -/
theorem selectorSelect_dropIn_iff (S : DefaultSelector) {xlist : List (FdLike ω)} {timeout : Option ℚ}
    (htimeout : ∀ t ∈ timeout, 0 ≤ t)
    (hfd : ∀ o ∈ rlist ++ wlist, fileobjToFd fileno o = .ok (fd o))
    (hregister : ∀ o ∈ rlist ++ wlist, ∀ events, S.register (fd o) events = .ok ())
    (hselect : S.select (registered fd rlist wlist) timeout = .ok ready)
    (hready : Reports (registered fd rlist wlist) ready) :
    DropIn fd ready rlist wlist (selectorSelect fileno S rlist wlist xlist timeout) ↔
      Apart fd ready rlist wlist := by
  obtain ⟨revents, wevents, hresult, hr, hw⟩ :=
    selectorSelect_eq S xlist htimeout hfd hregister hselect hready
  have hread : revents.Perm (rlist.filter (Readable ready <| fd ·)) ↔
      ∀ o ∈ wlist, ¬ Readable ready (fd o) := by
    rw [hr.congr_left, append_perm_left_iff, List.filter_eq_nil_iff]
    simp only [decide_eq_true_eq]
  -- once no object of the write list is taken for reading, only those of the read list are too many
  have hwrite (hnone : ∀ o ∈ wlist, ¬ Readable ready (fd o)) :
      wevents.Perm (wlist.filter (Writable ready <| fd ·)) ↔
        ∀ o ∈ rlist, ¬ (Writable ready (fd o) ∧ ¬ Readable ready (fd o)) := by
    have hsame : (wlist.filter fun o => Writable ready (fd o) ∧ ¬ Readable ready (fd o)) =
        wlist.filter (Writable ready <| fd ·) :=
      List.filter_congr fun o ho => by simp [hnone o ho]
    rw [hsame] at hw
    rw [hw.congr_left, (List.perm_append_comm).congr_left, append_perm_left_iff, List.filter_eq_nil_iff]
    simp only [decide_eq_true_eq]
  constructor
  · rintro ⟨revents', wevents', hresult', hr', hw'⟩ o ho o' ho' heq
    cases hresult.symm.trans hresult'
    have hnone := hread.mp hr'
    have hnot : ¬ Readable ready (fd o) := heq ▸ hnone o' ho'
    exact ⟨hnot, fun hwritable => (hwrite hnone).mp hw' o ho ⟨hwritable, hnot⟩⟩
  · intro hapart
    have hnone : ∀ o ∈ wlist, ¬ Readable ready (fd o) := by
      intro o' ho' hreadable
      obtain ⟨o, ho, heq⟩ := exists_of_readable hready hreadable
      exact (hapart o ho o' ho' heq).1 (heq ▸ hreadable)
    refine ⟨revents, wevents, hresult, hread.mpr hnone, (hwrite hnone).mpr fun o ho hwritable => ?_⟩
    obtain ⟨o', ho', heq⟩ := exists_of_writable hready hwritable.1
    exact (hapart o ho o' ho' heq.symm).2 hwritable.1

end

/-- A selector that finds the descriptor 5 readable, and nothing else. -/
def fiveReadable : DefaultSelector where
  register _ _ := .ok ()
  select registered _ := .ok ((registered.filter fun x => x.1 = 5 ∧ x.2 &&& EVENT_READ ≠ 0).map fun x =>
    (x.1, EVENT_READ))

/-- Two objects with the same descriptor. -/
def filenoFive : Bool → Except Exn Int := fun _ => .ok 5

/-- The descriptor of the second list is another one. -/
theorem selectorSelect_dropIn_iff_five : DropIn (fun o : FdLike Bool => if o = .int 6 then 6 else 5)
    [(5, EVENT_READ)] [.object true, .object false, .object true] [.int 6]
    (selectorSelect filenoFive fiveReadable [.object true, .object false, .object true] [.int 6] []
      none) := by
  have hregistered : registered (fun o : FdLike Bool => if o = .int 6 then 6 else 5)
      [.object true, .object false, .object true] [.int 6] = [(5, EVENT_READ), (6, EVENT_WRITE)] := by
    decide
  refine (selectorSelect_dropIn_iff fiveReadable (by simp) (by decide) (fun _ _ _ => rfl)
    (by rw [hregistered]; rfl) ⟨by decide, ?_⟩).mpr ?_
  · intro x hx
    rw [hregistered, List.mem_singleton.mp hx]
    exact ⟨EVENT_READ, List.mem_cons_self, rfl⟩
  · unfold Apart
    decide

/-- An object to be written is returned among those to be read, when another one with its descriptor can
be read. -/
theorem selectorSelect_mixed :
    ¬ ∀ (fileno : Bool → Except Exn Int) (fd : FdLike Bool → Int) (S : DefaultSelector)
      (rlist wlist : List (FdLike Bool)) (ready : List (Int × Nat)),
      (∀ o ∈ rlist ++ wlist, fileobjToFd fileno o = .ok (fd o)) →
      (∀ o ∈ rlist ++ wlist, ∀ events, S.register (fd o) events = .ok ()) →
      S.select (registered fd rlist wlist) none = .ok ready →
      Reports (registered fd rlist wlist) ready →
      DropIn fd ready rlist wlist (selectorSelect fileno S rlist wlist [] none) := by
  intro h
  have hregistered : registered (fun _ : FdLike Bool => 5) [.object true] [.object false] =
      [(5, 3)] := by decide
  have hresult : selectorSelect filenoFive fiveReadable [.object true] [.object false] [] none =
      .ok ([.object true, .object false], [], []) := rfl
  obtain ⟨revents, wevents, heq, hr, -⟩ := h filenoFive (fun _ => 5) fiveReadable [.object true]
    [.object false] [(5, EVENT_READ)] (by decide) (fun _ _ _ => rfl) (by rw [hregistered]; rfl)
    ⟨by decide, fun x hx => by
      rw [hregistered, List.mem_singleton.mp hx]
      exact ⟨3, List.mem_cons_self, rfl⟩⟩
  cases hresult.symm.trans heq
  have hlength := hr.length_eq
  revert hlength
  decide

end Kazoo
