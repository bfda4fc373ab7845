import Kazoo.Recipe.LockingQueue

/-!
# Exclusive entries

Why no entry of a locking queue is consumed twice, and none vanishes: an entry is deleted together
with its lock node, by the client that has seen its own id in it.
-/

namespace Kazoo

/-! ## The order of the entries -/

theorem append_lt_append {α : Type} [LT α] {l₁ l₂ : List α} (r₁ r₂ : List α)
    (hlength : l₁.length = l₂.length) (h : l₁ < l₂) : l₁ ++ r₁ < l₂ ++ r₂ := by
  induction h with
  | nil => cases hlength
  | rel hlt => exact List.Lex.rel hlt
  | cons _ ih => exact List.Lex.cons (ih (Nat.succ.inj hlength))

/-- The priority decides, and then the number. -/
theorem entryName_lt {priority number priority' number' : Nat} (hpriority : priority' < 10 ^ 3)
    (hnumber : number' < sequenceLimit)
    (h : priority < priority' ∨ priority = priority' ∧ number < number') :
    entryName priority number < entryName priority' number' := by
  unfold entryName
  rw [List.append_assoc, List.append_assoc, List.append_assoc, List.append_assoc]
  refine List.append_left_lt ?_
  rcases h with hlt | ⟨rfl, hlt⟩
  · refine append_lt_append _ _ ?_ (FixedWidth.digits_lt_digits digitChar_lt hlt hpriority)
    rw [FixedWidth.length_digits, FixedWidth.length_digits]
  · exact List.append_left_lt (List.append_left_lt (sequenceText_lt hlt hnumber))

/-- A name that `put` can have made, with its priority and its number. -/
def Ranked (name : PyStr) (priority number : Nat) : Prop :=
  priority < 10 ^ 3 ∧ number < sequenceLimit ∧ name = entryName priority number

theorem Ranked.le {name other : PyStr} {priority number priority' number' : Nat}
    (h : Ranked name priority number) (h' : Ranked other priority' number') (hle : ¬ other < name) :
    priority < priority' ∨ priority = priority' ∧ number ≤ number' := by
  obtain ⟨hpriority, hnumber, rfl⟩ := h
  obtain ⟨hpriority', hnumber', rfl⟩ := h'
  by_contra hno
  exact hle (entryName_lt hpriority hnumber (by omega))

/-! ## What is chosen -/

/-- The first by priority and number of the values that are not taken. -/
def LeastFree (name : PyStr) (values taken : List PyStr) : Prop :=
  ∃ priority number, Ranked name priority number ∧ name ∈ values ∧ name ∉ taken ∧
    ∀ other ∈ values, other ∉ taken → ¬ other < name ∧
      ∃ priority' number', Ranked other priority' number' ∧
        (priority < priority' ∨ priority = priority' ∧ number ≤ number')

namespace Holdings

theorem mem_filterLocked {values taken : List PyStr} {name : PyStr} :
    name ∈ filterLocked values taken ↔ name ∈ values ∧ name ∉ taken := by
  unfold filterLocked
  split
  case isTrue hnone => simp [List.length_eq_zero_iff.mp hnone]
  case isFalse => simp

theorem pairwise_filterLocked (values taken : List PyStr) :
    (filterLocked values taken).Pairwise fun a b => ¬ b < a := by
  unfold filterLocked
  split
  · exact pairwise_sortedNames values
  · exact (pairwise_sortedNames values).filter _

theorem leastFree_of_filterLocked {values taken : List PyStr} {name : PyStr} {rest : List PyStr}
    (hranked : ∀ other ∈ values, ∃ priority number, Ranked other priority number)
    (h : filterLocked values taken = name :: rest) : LeastFree name values taken := by
  have hmem (other : PyStr) : other ∈ name :: rest ↔ other ∈ values ∧ other ∉ taken :=
    h ▸ mem_filterLocked
  have hsorted := pairwise_filterLocked values taken
  rw [h] at hsorted
  obtain ⟨hvalues, htaken⟩ := (hmem name).mp List.mem_cons_self
  obtain ⟨priority, number, hname⟩ := hranked name hvalues
  refine ⟨priority, number, hname, hvalues, htaken, fun other hother hfree => ?_⟩
  have hle : ¬ other < name := by
    rcases List.mem_cons.mp ((hmem other).mpr ⟨hother, hfree⟩) with rfl | hrest
    · exact List.lt_irrefl other
    · exact (List.pairwise_cons.mp hsorted).1 other hrest
  obtain ⟨priority', number', hother'⟩ := hranked other hother
  exact ⟨hle, priority', number', hother', hname.le hother' hle⟩

end Holdings

/-! ## Entries that are put at once -/

namespace QueueEntries

def addAll (e : QueueEntries) (priority : Nat) (values : List Bytes) : QueueEntries :=
  values.foldl (fun e value => e.add priority value) e

variable {e : QueueEntries} {priority : Nat}

theorem Sound.addAll {values : List Bytes} (h : e.Sound)
    (hnext : e.next + values.length ≤ sequenceLimit) : (e.addAll priority values).Sound := by
  induction values generalizing e with
  | nil => exact h
  | cons value values ih =>
    rw [List.length_cons] at hnext
    refine ih (h.add (by omega) priority value) ?_
    show e.next + 1 + values.length ≤ sequenceLimit
    omega

/-- What is there stays, and what is new has a new name. -/
theorem addAll_spec {values : List Bytes} (h : e.Sound)
    (hnext : e.next + values.length ≤ sequenceLimit) :
    e.put ⊆ (e.addAll priority values).put ∧ e.present ⊆ (e.addAll priority values).present ∧
      (∀ x ∈ (e.addAll priority values).present, x ∈ e.present ∨ x.1 ∉ e.put.map Prod.fst) ∧
      ∀ x ∈ (e.addAll priority values).put, x ∈ e.put ∨
        x ∈ (e.addAll priority values).present ∧
          ∃ number < e.next + values.length, x.1 = entryName priority number := by
  induction values generalizing e with
  | nil => exact ⟨fun x hx => hx, fun x hx => hx, fun x hx => .inl hx, fun x hx => .inl hx⟩
  | cons value values ih =>
    rw [List.length_cons] at hnext ⊢
    have hfresh := h.fresh (by omega) priority
    have hsound := h.add (by omega) priority value
    obtain ⟨hput, hpresent, hthere, hnew⟩ := ih hsound (by
      show e.next + 1 + values.length ≤ sequenceLimit
      omega)
    refine ⟨fun x hx => hput (List.mem_cons_of_mem _ hx),
      fun x hx => hpresent (List.mem_cons_of_mem _ hx), fun x hx => ?_, fun x hx => ?_⟩
    · rcases hthere x hx with hold | hname
      · rcases List.mem_cons.mp hold with rfl | hold
        · exact .inr hfresh
        · exact .inl hold
      · exact .inr fun hin => hname (List.mem_cons_of_mem _ hin)
    · rcases hnew x hx with hold | ⟨hin, number, hnumber, heq⟩
      · rcases List.mem_cons.mp hold with rfl | hold
        · exact .inr ⟨hpresent List.mem_cons_self, e.next, by omega, rfl⟩
        · exact .inl hold
      · refine .inr ⟨hin, number, ?_, heq⟩
        have hlt : number < e.next + 1 + values.length := hnumber
        omega

end QueueEntries

/-! ## What every step keeps -/

namespace Holdings

variable {κ ι : Type} [DecidableEq κ] [DecidableEq ι] {Q : LockingQueues κ ι} {s t : Holdings κ ι}
  {c d : κ} {i : ι} {name : PyStr}

/-- The client processes the entry, and the lock node of the entry has its id. -/
def Holds (Q : LockingQueues κ ι) (s : Holdings κ ι) (c : κ) (name : PyStr) : Prop :=
  (∃ value, (s.objects c).processing = some (name, value)) ∧ s.lock? name = some (Q.id c)

/-- The names have been put. -/
def Put (s : Holdings κ ι) (names : List PyStr) : Prop := names ⊆ s.entries.put.map Prod.fst

/-- What a check knows. -/
def Checked (s : Holdings κ ι) : CheckStage → Prop
  | .absent | .listing => True
  | .listingTaken values => s.Put values
  | .creating name values taken | .reading name values taken =>
    s.Put [name] ∧ LeastFree name values taken
  | .undoing name => s.Put [name] ∧ ¬ s.entries.Has name

structure Exclusive (Q : LockingQueues κ ι) (s : Holdings κ ι) : Prop where
  sound : s.entries.Sound
  ranked : ∀ x ∈ s.entries.put, ∃ priority number, Ranked x.1 priority number
  putting : ∀ c priority values, (s.objects c).stage = .putting priority values → priority < 10 ^ 3
  -- who is about to commit has the lock, as long as there is the entry
  committing : ∀ c call name value, (s.objects c).stage = .committing call →
    (s.objects c).processing = some (name, value) → s.entries.Has name →
      s.lock? name = some (Q.id c)
  processing : ∀ c name value, (s.objects c).processing = some (name, value) → s.Put [name]
  checked : ∀ i, s.Checked (s.gets i).check
  valued : ∀ i name value, (s.gets i).value = some (name, value) → s.Put [name]
  takes : ∀ k ∈ s.takes, LeastFree k.name k.values k.taken
  accounted : ∀ x ∈ s.entries.put, s.entries.Has x.1 ∨ ∃ r ∈ s.removed, r.name = x.1
  removed : ∀ r ∈ s.removed, s.Put [r.name] ∧ ¬ s.entries.Has r.name ∧ r.holder = some (Q.id r.client)
  nodup : (s.removed.map Removal.name).Nodup

omit [DecidableEq κ] [DecidableEq ι] in
theorem exclusive_new : Exclusive Q (new : Holdings κ ι) where
  sound := QueueEntries.sound_new
  ranked := fun _ h => absurd h List.not_mem_nil
  putting := fun _ _ _ h => nomatch h
  committing := fun _ _ _ _ h => nomatch h
  processing := fun _ _ _ h => nomatch h
  checked := fun _ => trivial
  valued := fun _ _ _ h => nomatch h
  takes := fun _ h => absurd h List.not_mem_nil
  accounted := fun _ h => absurd h List.not_mem_nil
  removed := fun _ h => absurd h List.not_mem_nil
  nodup := .nil

/-! ### Threads -/

omit [DecidableEq ι] in
theorem Exclusive.setObject (h : Exclusive Q s) {o : HolderObject ι}
    (hputting : ∀ priority values, o.stage = .putting priority values → priority < 10 ^ 3)
    (hcommitting : ∀ call name value, o.stage = .committing call → o.processing = some (name, value) →
      s.entries.Has name → s.lock? name = some (Q.id c))
    (hprocessing : ∀ name value, o.processing = some (name, value) → s.Put [name]) :
    Exclusive Q (s.setObject c o) := by
  refine ⟨h.sound, h.ranked, fun d => ?_, fun d => ?_, fun d => ?_, h.checked, h.valued, h.takes,
    h.accounted, h.removed, h.nodup⟩
  · show ∀ priority values, (Function.update s.objects c o d).stage = _ → _
    by_cases hd : d = c
    · subst hd
      rw [Function.update_self]
      exact hputting
    · rw [Function.update_of_ne hd]
      exact h.putting d
  · show ∀ call name value, (Function.update s.objects c o d).stage = _ →
      (Function.update s.objects c o d).processing = _ → _
    by_cases hd : d = c
    · subst hd
      rw [Function.update_self]
      exact hcommitting
    · rw [Function.update_of_ne hd]
      exact h.committing d
  · show ∀ name value, (Function.update s.objects c o d).processing = _ → _
    by_cases hd : d = c
    · subst hd
      rw [Function.update_self]
      exact hprocessing
    · rw [Function.update_of_ne hd]
      exact h.processing d

omit [DecidableEq ι] in
/-- The main thread neither puts nor commits. -/
theorem Exclusive.setStage (h : Exclusive Q s) {stage : HolderStage ι}
    (hputting : ∀ priority values, stage ≠ .putting priority values)
    (hcommitting : ∀ call, stage ≠ .committing call) : Exclusive Q (s.setStage c stage) :=
  h.setObject (fun priority values hstage => absurd hstage (hputting priority values))
    (fun call _ _ hstage => absurd hstage (hcommitting call)) (h.processing c)

omit [DecidableEq κ] in
theorem Exclusive.setGet (h : Exclusive Q s) {g : LockingGet} (hchecked : s.Checked g.check)
    (hvalued : ∀ name value, g.value = some (name, value) → s.Put [name]) :
    Exclusive Q (s.setGet i g) := by
  refine ⟨h.sound, h.ranked, h.putting, h.committing, h.processing, fun j => ?_, fun j => ?_, h.takes,
    h.accounted, h.removed, h.nodup⟩
  · show s.Checked (Function.update s.gets i g j).check
    by_cases hj : j = i
    · subst hj
      rw [Function.update_self]
      exact hchecked
    · rw [Function.update_of_ne hj]
      exact h.checked j
  · show ∀ name value, (Function.update s.gets i g j).value = _ → _
    by_cases hj : j = i
    · subst hj
      rw [Function.update_self]
      exact hvalued
    · rw [Function.update_of_ne hj]
      exact h.valued j

omit [DecidableEq κ] [DecidableEq ι] in
/-- The watches and the calls of the checks do not matter. -/
theorem Exclusive.setGets (h : Exclusive Q s) {gets : ι → LockingGet}
    (hchecks : ∀ i, (gets i).check = (s.gets i).check ∧ (gets i).value = (s.gets i).value) :
    Exclusive Q { s with gets := gets } := by
  refine ⟨h.sound, h.ranked, h.putting, h.committing, h.processing, fun i => ?_, fun i => ?_, h.takes,
    h.accounted, h.removed, h.nodup⟩
  · show s.Checked (gets i).check
    rw [(hchecks i).1]
    exact h.checked i
  · show ∀ name value, (gets i).value = _ → _
    rw [(hchecks i).2]
    exact h.valued i

/-! ### The server -/

@[simp] theorem value_fired (g : LockingGet) (node : QueueNode) : (g.fired node).value = g.value := by
  unfold LockingGet.fired
  split <;> rfl

@[simp] theorem check_fired (g : LockingGet) (node : QueueNode) : (g.fired node).check = g.check := by
  unfold LockingGet.fired
  split <;> rfl

omit [DecidableEq κ] [DecidableEq ι] in
theorem Exclusive.fire (h : Exclusive Q s) (node : QueueNode) : Exclusive Q (s.fire node) :=
  h.setGets fun i => ⟨check_fired (s.gets i) node, value_fired (s.gets i) node⟩

omit [DecidableEq κ] [DecidableEq ι] in
theorem taken_createLock {id : Bytes} (hnone : s.lock? name = none) :
    (s.createLock name id).taken = (name, id) :: s.taken := by
  simp only [createLock, hnone]

omit [DecidableEq κ] [DecidableEq ι] in
theorem taken_deleteLock : (s.deleteLock name).taken = s.taken.filter (·.1 ≠ name) := by
  cases hlock : s.lock? name with
  | some id => simp only [deleteLock, hlock]
  | none =>
    simp only [deleteLock, hlock]
    refine (List.filter_eq_self.mpr fun x hx => ?_).symm
    have hnone := List.find?_eq_none.mp (Option.map_eq_none_iff.mp hlock) x hx
    simpa using hnone

omit [DecidableEq κ] [DecidableEq ι] in
theorem lock?_createLock {id : Bytes} (hnone : s.lock? name = none) (other : PyStr) :
    (s.createLock name id).lock? other = if other = name then some id else s.lock? other := by
  rw [lock?, taken_createLock hnone, List.find?_cons]
  by_cases heq : name = other
  · simp [heq]
  · simp [heq, Ne.symm heq, lock?]

omit [DecidableEq κ] [DecidableEq ι] in
theorem lock?_deleteLock (other : PyStr) :
    (s.deleteLock name).lock? other = if other = name then none else s.lock? other := by
  rw [lock?, taken_deleteLock, List.find?_filter]
  split
  case isTrue heq =>
    subst heq
    simp
  case isFalse heq =>
    rw [lock?]
    congr 2
    funext x
    by_cases hx : x.1 = other
    · simp [hx, heq]
    · simp [hx]

omit [DecidableEq κ] [DecidableEq ι] in
/-- A new lock takes no other away. -/
theorem Exclusive.createLock (h : Exclusive Q s) (name : PyStr) (id : Bytes) :
    Exclusive Q (s.createLock name id) := by
  cases hlock : s.lock? name with
  | some old =>
    simp only [Holdings.createLock, hlock]
    exact h
  | none =>
    have hkept {other : PyStr} {old : Bytes} (hold : s.lock? other = some old) :
        (s.createLock name id).lock? other = some old := by
      rw [lock?_createLock hlock, if_neg]
      · exact hold
      · rintro rfl
        rw [hlock] at hold
        cases hold
    simp only [Holdings.createLock, hlock] at hkept ⊢
    have hf := h.fire .taken
    exact ⟨hf.sound, hf.ranked, hf.putting, fun d call other value hstage hprocessing hhas =>
      hkept (h.committing d call other value hstage hprocessing hhas), hf.processing, hf.checked,
      hf.valued, hf.takes, hf.accounted, hf.removed, hf.nodup⟩

omit [DecidableEq κ] [DecidableEq ι] in
/-- A lock is deleted that nobody relies on. -/
theorem Exclusive.deleteLock (h : Exclusive Q s)
    (hfree : ∀ d call value, (s.objects d).stage = .committing call →
      (s.objects d).processing = some (name, value) → ¬ s.entries.Has name) :
    Exclusive Q (s.deleteLock name) := by
  cases hlock : s.lock? name with
  | none =>
    simp only [Holdings.deleteLock, hlock]
    exact h
  | some id =>
    have hkept {other : PyStr} {old : Bytes} (hne : other ≠ name) (hold : s.lock? other = some old) :
        (s.deleteLock name).lock? other = some old := by
      rw [lock?_deleteLock, if_neg hne, hold]
    simp only [Holdings.deleteLock, hlock] at hkept ⊢
    have hf := h.fire .taken
    refine ⟨hf.sound, hf.ranked, hf.putting, fun d call other value hstage hprocessing hhas => ?_,
      hf.processing, hf.checked, hf.valued, hf.takes, hf.accounted, hf.removed, hf.nodup⟩
    refine hkept ?_ (h.committing d call other value hstage hprocessing hhas)
    rintro rfl
    exact hfree d call value hstage hprocessing hhas

omit [DecidableEq κ] [DecidableEq ι] in
theorem Exclusive.addEntries (h : Exclusive Q s) {priority : Nat} {values : List Bytes}
    (hpriority : priority < 10 ^ 3) (hnext : s.entries.next + values.length ≤ sequenceLimit) :
    Exclusive Q (s.addEntries priority values) := by
  obtain ⟨hput, hpresent, hthere, hnew⟩ :
      s.entries.put ⊆ (s.entries.addAll priority values).put ∧ _ ∧ _ ∧ _ :=
    QueueEntries.addAll_spec h.sound hnext
  have hkept {names : List PyStr} (hnames : s.Put names) : (s.addEntries priority values).Put names :=
    fun name hname => List.map_subset _ hput (hnames hname)
  have hhas {name : PyStr} (hname : s.Put [name])
      (hin : (s.addEntries priority values).entries.Has name) : s.entries.Has name := by
    obtain ⟨x, hx, rfl⟩ := List.mem_map.mp hin
    rcases hthere x hx with hold | hfresh
    · exact List.mem_map_of_mem hold
    · exact absurd (hname (List.mem_singleton_self _)) hfresh
  have hf := h.fire .entries
  refine ⟨h.sound.addAll hnext, fun x hx => ?_, hf.putting, fun d call name value hstage hprocessing hin => ?_,
    fun d name value hprocessing => hkept (h.processing d name value hprocessing), fun i => ?_,
    fun i name value hvalue => hkept (hf.valued i name value hvalue), hf.takes, fun x hx => ?_,
    fun r hr => ?_, hf.nodup⟩
  · rcases hnew x hx with hold | ⟨-, number, hnumber, heq⟩
    · exact h.ranked x hold
    · exact ⟨priority, number, hpriority, by omega, heq⟩
  · exact h.committing d call name value hstage hprocessing
      (hhas (h.processing d name value hprocessing) hin)
  · have hchecked := hf.checked i
    show (s.addEntries priority values).Checked (((s.fire .entries).gets i).check)
    cases hcheck : ((s.fire .entries).gets i).check <;> rw [hcheck] at hchecked
    case absent | listing => trivial
    case listingTaken => exact hkept hchecked
    case creating | reading => exact hchecked.imp_left hkept
    case undoing => exact ⟨hkept hchecked.1, fun hin => hchecked.2 (hhas hchecked.1 hin)⟩
  · rcases hnew x hx with hold | ⟨hin, -⟩
    · exact (h.accounted x hold).imp_left fun hin => List.map_subset _ hpresent hin
    · exact .inl (List.mem_map_of_mem hin)
  · obtain ⟨hold, hgone, hholder⟩ := h.removed r hr
    exact ⟨hkept hold, fun hin => hgone (hhas hold hin), hholder⟩

omit [DecidableEq κ] [DecidableEq ι] in
@[simp] theorem entries_createLock {id : Bytes} : (s.createLock name id).entries = s.entries := by
  unfold createLock
  split <;> rfl

omit [DecidableEq κ] [DecidableEq ι] in
@[simp] theorem entries_deleteLock : (s.deleteLock name).entries = s.entries := by
  unfold deleteLock
  split <;> rfl

omit [DecidableEq κ] [DecidableEq ι] in
@[simp] theorem removed_deleteLock : (s.deleteLock name).removed = s.removed := by
  unfold deleteLock
  split <;> rfl

omit [DecidableEq κ] [DecidableEq ι] in
/-- An entry is deleted with its lock, which nobody relies on any more. -/
theorem Exclusive.consume (h : Exclusive Q s) (hhas : s.entries.Has name)
    (hlock : s.lock? name = some (Q.id c))
    (hfree : ∀ d call value, (s.objects d).stage = .committing call →
      (s.objects d).processing = some (name, value) → ¬ s.entries.Has name) :
    Exclusive Q { (s.deleteLock name).fire .entries with
      entries := s.entries.delete name
      removed := ⟨name, c, s.lock? name⟩ :: s.removed } := by
  have hd := (h.deleteLock hfree).fire .entries
  have hentries : ((s.deleteLock name).fire .entries).entries = s.entries := entries_deleteLock
  have hremoved : ((s.deleteLock name).fire .entries).removed = s.removed := removed_deleteLock
  have hold {other : PyStr} (hin : (s.entries.delete name).Has other) : s.entries.Has other := by
    obtain ⟨x, hx, rfl⟩ := List.mem_map.mp hin
    exact List.mem_map_of_mem (QueueEntries.mem_present_delete.mp hx).1
  have hput : s.Put [name] := by
    obtain ⟨x, hx, rfl⟩ := List.mem_map.mp hhas
    intro other hother
    rw [List.mem_singleton.mp hother]
    exact List.mem_map_of_mem (h.sound.present.subset hx)
  refine ⟨h.sound.delete name, h.ranked, hd.putting, fun d call other value hstage hprocessing hin => ?_,
    fun d other value hprocessing => ?_, fun i => ?_, fun i other value hvalue => ?_, hd.takes,
    fun x hx => ?_, fun r hr => ?_, ?_⟩
  · refine hd.committing d call other value hstage hprocessing ?_
    rw [hentries]
    exact hold hin
  · have hkept := hd.processing d other value hprocessing
    rwa [Put, hentries] at hkept
  · have hchecked := hd.checked i
    show Checked _ (((s.deleteLock name).fire .entries).gets i).check
    cases hcheck : (((s.deleteLock name).fire .entries).gets i).check <;>
      rw [hcheck] at hchecked <;> simp only [Checked, Put, hentries] at hchecked ⊢
    case listingTaken => exact hchecked
    case creating | reading => exact hchecked
    case undoing => exact ⟨hchecked.1, fun hin => hchecked.2 (hold hin)⟩
  · have hkept := hd.valued i other value hvalue
    rwa [Put, hentries] at hkept
  · by_cases heq : x.1 = name
    · exact .inr ⟨_, List.mem_cons_self, heq.symm⟩
    · rcases h.accounted x hx with hin | ⟨r, hr, hname⟩
      · obtain ⟨y, hy, hname⟩ := List.mem_map.mp hin
        exact .inl (List.mem_map.mpr ⟨y, QueueEntries.mem_present_delete.mpr ⟨hy, hname ▸ heq⟩, hname⟩)
      · exact .inr ⟨r, List.mem_cons_of_mem _ hr, hname⟩
  · rcases List.mem_cons.mp hr with rfl | hr
    · exact ⟨hput, s.entries.not_has_delete name, hlock⟩
    · obtain ⟨hput, hgone, hholder⟩ := h.removed r hr
      exact ⟨hput, fun hin => hgone (hold hin), hholder⟩
  · refine List.nodup_cons.mpr ⟨fun hin => ?_, h.nodup⟩
    obtain ⟨r, hr, hname⟩ := List.mem_map.mp hin
    exact (h.removed r hr).2.1 (hname ▸ hhas)

omit [DecidableEq ι] in
theorem commit_setObject (call : Settling) (o : HolderObject ι) :
    (s.setObject c o).commit d call name = (s.commit d call name).setObject c o := by
  have hlock : (s.setObject c o).lock? name = s.lock? name := rfl
  have hdelete : (s.setObject c o).deleteLock name = (s.deleteLock name).setObject c o := by
    unfold deleteLock
    rw [hlock]
    split <;> rfl
  unfold commit
  cases call with
  | release => exact hdelete
  | consume =>
    show (if s.entries.Has name ∧ (s.lock? name).isSome = true then _ else _) =
      setObject (if s.entries.Has name ∧ (s.lock? name).isSome = true then _ else _) c o
    by_cases hboth : s.entries.Has name ∧ (s.lock? name).isSome = true
    · rw [if_pos hboth, if_pos hboth, hdelete]
      rfl
    · rw [if_neg hboth, if_neg hboth]

omit [DecidableEq ι] in
/-- A commit ends, whatever becomes of the thread. -/
theorem Exclusive.commit (h : Exclusive Q s) {call : Settling} {value : Bytes} {o : HolderObject ι}
    (hstage : (s.objects c).stage = .committing call)
    (hprocessing : (s.objects c).processing = some (name, value)) (habsent : o.stage = .absent)
    (hkept : ∀ name value, o.processing = some (name, value) → s.Put [name]) :
    Exclusive Q ((s.commit c call name).setObject c o) := by
  have hs : Exclusive Q (s.setObject c o) := by
    refine h.setObject ?_ ?_ hkept
    · rw [habsent]
      exact fun _ _ h' => nomatch h'
    · rw [habsent]
      exact fun _ _ _ h' => nomatch h'
  have hlocked := h.committing c call name value hstage hprocessing
  have hfree : ∀ d call value, ((s.setObject c o).objects d).stage = .committing call →
      ((s.setObject c o).objects d).processing = some (name, value) →
        ¬ (s.setObject c o).entries.Has name := by
    intro d call' value' hd hd' hhas
    by_cases heq : d = c
    · subst heq
      rw [show (s.setObject d o).objects d = o from Function.update_self _ _ _, habsent] at hd
      cases hd
    · rw [show (s.setObject c o).objects d = s.objects d from Function.update_of_ne heq _ _] at hd hd'
      have hother := h.committing d call' name value' hd hd' hhas
      rw [hlocked hhas] at hother
      exact heq (Q.id_injective (Option.some.inj hother)).symm
  rw [← commit_setObject]
  unfold Holdings.commit
  cases call with
  | release => exact hs.deleteLock hfree
  | consume =>
    show Exclusive Q (if _ then _ else _)
    split
    case isTrue hboth => exact hs.consume hboth.1 (hlocked hboth.1) hfree
    case isFalse => exact hs

/-! ### Steps -/

theorem Exclusive.checkFails (h : Exclusive Q s) : Exclusive Q (s.checkFails Q i) := by
  have hs : Exclusive Q (s.setGet i (s.gets i).checked) := h.setGet trivial (h.valued i)
  unfold Holdings.checkFails
  show Exclusive Q (if _ then _ else _)
  split
  · exact hs.setStage (fun _ _ h' => nomatch h') (fun _ h' => nomatch h')
  · exact hs

omit [DecidableEq κ] [DecidableEq ι] in
theorem value_gets_createLock {id : Bytes} :
    ((s.createLock name id).gets i).value = (s.gets i).value := by
  unfold Holdings.createLock
  split
  · rfl
  · exact value_fired _ _

omit [DecidableEq κ] [DecidableEq ι] in
theorem value_gets_deleteLock : ((s.deleteLock name).gets i).value = (s.gets i).value := by
  unfold Holdings.deleteLock
  split
  · rfl
  · exact value_fired _ _

omit [DecidableEq κ] [DecidableEq ι] in
/-- Nobody who commits has an entry that is not there. -/
theorem Exclusive.undo (h : Exclusive Q s) (hcheck : (s.gets i).check = .undoing name) :
    Exclusive Q (s.deleteLock name) := by
  have hchecked := h.checked i
  rw [hcheck] at hchecked
  exact h.deleteLock fun _ _ _ _ _ => hchecked.2

omit [DecidableEq κ] in
/-- The entry chosen was free on the listings, and is the least such. -/
theorem Exclusive.chooses (h : Exclusive Q s) {values rest : List PyStr}
    (hcheck : (s.gets i).check = .listingTaken values)
    (hfilter : filterLocked values (s.taken.map Prod.fst) = name :: rest) :
    Exclusive Q (s.setGet i { register (s.gets i) .taken with
      check := .creating name values (s.taken.map Prod.fst) }) := by
  have hchecked := h.checked i
  rw [hcheck] at hchecked
  have hvalues : name ∈ values :=
    (mem_filterLocked.mp (hfilter ▸ List.mem_cons_self : name ∈ filterLocked values _)).1
  refine h.setGet ⟨fun other hother => ?_, ?_⟩ (h.valued i)
  · rw [List.mem_singleton.mp hother]
    exact hchecked hvalues
  · refine leastFree_of_filterLocked (fun other hother => ?_) hfilter
    obtain ⟨x, hx, heq⟩ := List.mem_map.mp (hchecked hother)
    exact heq ▸ h.ranked x hx

omit [DecidableEq κ] in
/-- An entry is taken as the listings had it. -/
theorem Exclusive.reads (h : Exclusive Q s) {values taken : List PyStr} {entry : QueueEntry}
    (hcheck : (s.gets i).check = .reading name values taken)
    (hfind : s.entries.present.find? (·.1 = name) = some entry) :
    Exclusive Q { s.setGet i { (s.gets i).checked with value := some entry } with
      takes := ⟨name, Q.client i, values, taken⟩ :: s.takes } := by
  have hchecked := h.checked i
  rw [hcheck] at hchecked
  have hs : Exclusive Q (s.setGet i { (s.gets i).checked with value := some entry }) := by
    refine h.setGet trivial fun name' value hvalue => ?_
    injection hvalue with hvalue
    intro other hother
    rw [List.mem_singleton.mp hother, show name' = entry.1 from (congrArg Prod.fst hvalue).symm]
    exact List.mem_map_of_mem (h.sound.present.subset (List.mem_of_find?_eq_some hfind))
  refine ⟨hs.sound, hs.ranked, hs.putting, hs.committing, hs.processing, hs.checked, hs.valued,
    fun k hk => ?_, hs.accounted, hs.removed, hs.nodup⟩
  rcases List.mem_cons.mp hk with rfl | hk
  · exact hchecked.2
  · exact h.takes k hk

theorem Exclusive.checkOn (h : Exclusive Q s) (hgoes : CheckGoes Q s i t) : Exclusive Q t := by
  have hchecked := h.checked i
  cases hgoes with
  | lists _ _ =>
    refine h.setGet (fun name hname => ?_) (h.valued i)
    obtain ⟨x, hx, rfl⟩ := List.mem_map.mp hname
    exact List.mem_map_of_mem (h.sound.present.subset hx)
  | findsNone _ _ _ | comesLate _ _ => exact h.setGet trivial (h.valued i)
  | chooses hcheck _ hfilter => exact h.chooses hcheck hfilter
  | @creates name values taken hcheck _ =>
    rw [hcheck] at hchecked
    refine (h.createLock name _).setGet ?_ fun name' value hvalue => ?_
    · simp only [Checked, Put, entries_createLock]
      exact hchecked
    · rw [value_gets_createLock] at hvalue
      have hput := h.valued i name' value hvalue
      rwa [Put, entries_createLock]
  | reads hcheck hfind => exact h.reads hcheck hfind
  | @misses name values taken hcheck hfind =>
    rw [hcheck] at hchecked
    refine h.setGet ⟨hchecked.1, fun hhas => ?_⟩ (h.valued i)
    obtain ⟨x, hx, hname⟩ := List.mem_map.mp hhas
    exact absurd (List.find?_eq_none.mp hfind x hx) (by simpa using hname)
  | undoes hcheck _ =>
    refine (h.undo hcheck).setGet trivial fun name' value hvalue => ?_
    rw [LockingGet.checked, value_gets_deleteLock] at hvalue
    have hput := h.valued i name' value hvalue
    rwa [Put, entries_deleteLock]
  | fails _ _ => exact h.checkFails

omit [DecidableEq ι] in
theorem Exclusive.moved (h : Exclusive Q s) (hmoved : Moved Q s c t) : Exclusive Q t := by
  cases hmoved with
  | waits hstage =>
    rcases hstage with rfl | ⟨call, rfl⟩
    · exact h.setStage (fun _ _ h' => nomatch h') (fun _ h' => nomatch h')
    · exact h.setStage (fun _ _ h' => nomatch h') (fun _ h' => nomatch h')
  | @sees call entry hprocessing hlock =>
    refine h.setObject (fun _ _ h' => nomatch h') ?_ (h.processing c)
    intro call' other value hstage' hprocessing' _
    rw [show (s.objects c).processing = some (other, value) from hprocessing'] at hprocessing
    obtain rfl := Option.some.inj hprocessing
    exact hlock
  | puts hstage hnext =>
    exact (h.addEntries (h.putting c _ _ hstage) hnext).setStage
      (fun _ _ h' => nomatch h') (fun _ h' => nomatch h')
  | @commits call entry o hstage hprocessing habsent hkept =>
    refine h.commit hstage hprocessing habsent fun name value hsome => h.processing c name value ?_
    rcases hkept with hnone | hkept
    · rw [hnone] at hsome
      cases hsome
    · exact hprocessing.trans (hkept.symm.trans hsome)

theorem Exclusive.checkLoses (h : Exclusive Q s) {carriedOut again : Bool}
    (hlost : CheckLost Q s i carriedOut again t) : Exclusive Q t := by
  cases hlost with
  | retries => exact h
  | listing _ | listingTaken _ | reading _ | notCreated _ | notUndone _ => exact h.checkFails
  | created _ => exact (h.createLock _ _).checkFails
  | undone hcheck => exact (h.undo hcheck).checkFails

theorem Exclusive.step (h : Exclusive Q s) {act : HoldingAct κ ι} (hstep : s.step Q act = some t) :
    Exclusive Q t := by
  cases steps_of_step hstep with
  | @put c n priority values hstage hpriority =>
    refine h.setObject (fun n' values' h' => ?_) (fun _ _ _ h' => nomatch h') (h.processing c)
    injection h' with h'
    exact h' ▸ lt_of_checkPutArguments hpriority
  | @get i timed _ _ _ =>
    refine Exclusive.setStage ?_ (fun _ _ h' => nomatch h') (fun _ h' => nomatch h')
    exact h.setGet trivial (h.valued i)
  | settle _ _ => exact h.setStage (fun _ _ h' => nomatch h') (fun _ h' => nomatch h')
  | go _ hgo => exact h.moved (moved_of_goOn hgo)
  | check _ hgoes => exact h.checkOn hgoes
  | @deliver i node _ => exact h.setGet (h.checked i) (h.valued i)
  | @call i g hcall =>
    cases hcall with
    | passes _ _ | spent _ _ _ => exact h.setGet (h.checked i) (h.valued i)
    | lists _ _ _ _ => exact h.setGet trivial (h.valued i)
  | @finish i _ _ _ =>
    have hs : Exclusive Q (s.setGet i { s.gets i with canceled := true }) :=
      h.setGet (h.checked i) (h.valued i)
    exact hs.setObject (fun _ _ h' => nomatch h') (fun _ _ _ h' => nomatch h') (h.valued i)
  | @drop c _ =>
    have hs : Exclusive Q (s.setObject c { s.objects c with connected := false }) :=
      h.setObject (h.putting c) (h.committing c) (h.processing c)
    refine hs.setGets fun i => ?_
    show (if _ then _ else _ : LockingGet).check = (s.gets i).check ∧
      (if _ then _ else _ : LockingGet).value = (s.gets i).value
    split <;> exact ⟨rfl, rfl⟩
  | @reconnect c _ => exact h.setObject (h.putting c) (h.committing c) (h.processing c)
  | lose _ hloses => exact h.moved (moved_of_loses hloses)
  | loseCheck _ hlost => exact h.checkLoses hlost

theorem exclusive_of_reach {ok : Holdings κ ι → HoldingAct κ ι → Prop}
    (hr : (holding Q).Reach ok s) : Exclusive Q s :=
  hr.invariant exclusive_new fun s act _ h hen _ => by
    obtain ⟨t, hstep⟩ := Option.isSome_iff_exists.mp hen
    show Exclusive Q ((s.step Q act).getD s)
    rw [hstep]
    exact h.step hstep

/-- Entries are held by one client, deleted once and by their holders, and taken in their order. -/
theorem held_exclusively (hr : (holding Q).Reachable s) :
    (∀ name c d, s.Holds Q c name → s.Holds Q d name → c = d) ∧
      (∀ x ∈ s.entries.put, s.entries.Has x.1 ∨ ∃ r ∈ s.removed, r.name = x.1) ∧
      (∀ r ∈ s.removed, ¬ s.entries.Has r.name ∧ r.holder = some (Q.id r.client)) ∧
      (s.removed.map Removal.name).Nodup ∧
      ∀ k ∈ s.takes, LeastFree k.name k.values k.taken := by
  have h := exclusive_of_reach hr
  refine ⟨fun name c d hc hd => ?_, h.accounted, fun r hr => (h.removed r hr).2, h.nodup, h.takes⟩
  exact Q.id_injective (Option.some.inj (hc.2.symm.trans hd.2))

end Holdings

/-- Both get an entry, and the second consumes its own. -/
def bothHold : List (HoldingAct Bool Bool) :=
  [.put false 100 [[7], [8]], .go false,
    .get false false, .check false, .check false, .check false, .check false, .finish false,
    .get true false, .check true, .check true, .check true, .check true, .finish true,
    .settle true .consume, .go true, .go true, .go true]

theorem Holdings.held_exclusively_twoHolders :
    let s := (holding twoHolders).exec .new bothHold
    s.removed = [⟨entryName 100 1, true, some [1]⟩] ∧
      (s.objects false).processing = some (entryName 100 0, [7]) ∧
      (∀ name c d, s.Holds twoHolders c name → s.Holds twoHolders d name → c = d) ∧
      ∀ k ∈ s.takes, LeastFree k.name k.values k.taken := by
  intro s
  have h := Holdings.held_exclusively (s := s) (.of_legal (by decide +kernel))
  exact ⟨by decide +kernel, by decide +kernel, h.1, h.2.2.2.2⟩

end Kazoo
