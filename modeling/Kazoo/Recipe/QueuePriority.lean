import Kazoo.Recipe.Queue

/-!
# Priorities

`Queue.put` and `Queue.get` of `kazoo/recipe/queue.py`, called one after the other by a client that has
the path for itself.  `get` takes the first of a list that it keeps until it is used up, so that it is
right about the priorities only as long as nothing more urgent is put in the meantime.
-/

namespace Kazoo

/-! ## The order of the names -/

/-- The server sorts the names as priorities and numbers are sorted. -/
theorem entryName_lt_iff {priority number priority' number' : Nat} (hp : priority < 10 ^ 3)
    (hp' : priority' < 10 ^ 3) (hn : number < sequenceLimit) (hn' : number' < sequenceLimit) :
    entryName priority number < entryName priority' number' ↔
      priority < priority' ∨ priority = priority' ∧ number < number' := by
  have hsplit : ∀ p n, entryName p n =
      str "entry-" ++ (FixedWidth.digits digitChar 10 3 p ++ (str "-" ++ sequenceText n)) := by
    intro p n
    rw [entryName, List.append_assoc, List.append_assoc]
  have hlength : (FixedWidth.digits digitChar 10 3 priority).length =
      (FixedWidth.digits digitChar 10 3 priority').length := by
    rw [FixedWidth.length_digits, FixedWidth.length_digits]
  have hnumber : sequenceText number < sequenceText number' ↔ number < number' :=
    FixedWidth.digits_lt_digits_iff digitChar_lt hn hn'
  have hdash : ¬ str "-" < str "-" := by decide
  have hentry : ¬ str "entry-" < str "entry-" := by decide
  rw [hsplit, hsplit, FixedWidth.append_lt_append_iff rfl, FixedWidth.append_lt_append_iff hlength,
    FixedWidth.append_lt_append_iff rfl, hnumber,
    FixedWidth.digits_lt_digits_iff digitChar_lt hp hp']
  constructor
  · rintro (hlt | ⟨-, hlt | ⟨heq, hlt | ⟨-, hlt⟩⟩⟩)
    · exact absurd hlt hentry
    · exact .inl hlt
    · exact absurd hlt hdash
    · have hsame := FixedWidth.digits_injective digitChar_lt (fun x => Nat.lt_irrefl x.val) hp hp' heq
      exact .inr ⟨hsame, hlt⟩
  · rintro (hlt | ⟨rfl, hlt⟩)
    · exact .inr ⟨rfl, .inl hlt⟩
    · exact .inr ⟨rfl, .inr ⟨rfl, .inr ⟨rfl, hlt⟩⟩⟩

theorem entryName_injective {priority number priority' number' : Nat} (hp : priority < 10 ^ 3)
    (hp' : priority' < 10 ^ 3) (hn : number < sequenceLimit) (hn' : number' < sequenceLimit)
    (heq : entryName priority number = entryName priority' number') :
    priority = priority' ∧ number = number' := by
  refine ⟨?_, number_of_entryName hn hn' heq⟩
  have hself : ¬ entryName priority number < entryName priority number := List.lt_irrefl _
  have hlt := mt (entryName_lt_iff hp hp' hn hn').mpr (heq ▸ hself)
  have hgt := mt (entryName_lt_iff hp' hp hn' hn).mpr (heq ▸ hself)
  omega

/-! ## One client -/

/-- A call of the client. -/
inductive QueueCall
  | put (value : Bytes) (priority : Int)
  | get
  deriving DecidableEq, Repr

namespace QueueCall

def isPut : QueueCall → Bool
  | .put .. => true
  | .get => false

end QueueCall

/-- What is under the path, and the `Queue` object of the client. -/
structure SoleQueue where
  entries : QueueEntries
  -- `_children`
  children : List PyStr

namespace SoleQueue

def new : SoleQueue := ⟨.new, []⟩

def put (s : SoleQueue) (value : Bytes) (priority : Int) : Except Exn Unit × SoleQueue :=
  match checkPutArguments priority with
  | .error e => (.error e, s)
  | .ok priority => (.ok (), { s with entries := s.entries.add priority value })

/-- `_children`, once `_inner_get` has seen to it. -/
def listing (s : SoleQueue) : List PyStr :=
  if s.children = [] then sortedNames (s.entries.present.map Prod.fst) else s.children

def innerGet (s : SoleQueue) : Except Exn (Option Bytes) × SoleQueue :=
  match s.listing with
  | [] => (.ok none, { s with children := [] })
  | name :: rest =>
    match s.entries.present.find? (·.1 = name) with
    | some (_, data) => (.ok (some data), ⟨s.entries.delete name, rest⟩)
    | none => (.error .forceRetryError, { s with children := [] })

/-- `get`, where `client.retry` tries again `tries` times. -/
def get : (tries : Nat) → SoleQueue → Except Exn (Option Bytes) × SoleQueue
  | 0, s =>
    match s.innerGet with
    | (.ok data, s) => (.ok data, s)
    | (.error _, s) => (.error .retryFailedError, s)
  | tries + 1, s =>
    match s.innerGet with
    | (.ok data, s) => (.ok data, s)
    | (.error _, s) => get tries s

def call (tries : Nat) (s : SoleQueue) : QueueCall → SoleQueue
  | .put value priority => (s.put value priority).2
  | .get => (s.get tries).2

/-- The state after the calls. -/
def run (tries : Nat) (calls : List QueueCall) : SoleQueue := calls.foldl (call tries) .new

/-! ## What `get` is for -/

/-- The entry is the least by priority and by the order of insertion. -/
def First (e : QueueEntries) (entry : QueueEntry) : Prop :=
  entry ∈ e.present ∧ ∃ priority number, priority < 10 ^ 3 ∧ number < e.next ∧
    entry.1 = entryName priority number ∧
    ∀ priority' number' value', priority' < 10 ^ 3 → number' < e.next →
      (entryName priority' number', value') ∈ e.present →
        priority < priority' ∨ priority = priority' ∧ number ≤ number'

/-- `get` removes the first entry and returns its value, or there is none. -/
def TakesFirst (tries : Nat) (s : SoleQueue) : Prop :=
  match s.get tries with
  | (.ok (some data), s') => ∃ name, First s.entries (name, data) ∧
      s'.entries = s.entries.delete name
  | (.ok none, _) => s.entries.present = []
  | (.error _, _) => False

/-- No entry that is not in `_children` is more urgent than the first one there. -/
def UpToDate (s : SoleQueue) : Prop :=
  ∀ priority number priority' number' value', priority < 10 ^ 3 → number < s.entries.next →
    priority' < 10 ^ 3 → number' < s.entries.next →
      s.children.head? = some (entryName priority number) →
        (entryName priority' number', value') ∈ s.entries.present →
          entryName priority' number' ∉ s.children → priority ≤ priority'

/-! ## What the calls keep -/

structure Inv (s : SoleQueue) : Prop where
  sound : s.entries.Sound
  named : ∀ entry ∈ s.entries.put, ∃ priority number, priority < 10 ^ 3 ∧ number < s.entries.next ∧
    entry.1 = entryName priority number
  listed : ∀ name ∈ s.children, s.entries.Has name
  sorted : s.children.Pairwise fun a b => ¬ b < a
  nodup : s.children.Nodup
  -- what has been put since the list was made has greater numbers
  older : ∃ mark ≤ s.entries.next, ∀ priority number value, number < s.entries.next →
    (entryName priority number, value) ∈ s.entries.present →
      (entryName priority number ∈ s.children ↔ number < mark)

variable {s s' : SoleQueue} {name : PyStr} {rest : List PyStr} {data : Bytes}

theorem inv_new : new.Inv where
  sound := QueueEntries.sound_new
  named := fun _ h => absurd h List.not_mem_nil
  listed := fun _ h => absurd h List.not_mem_nil
  sorted := .nil
  nodup := .nil
  older := ⟨0, le_refl 0, fun _ _ _ h => absurd h (Nat.not_lt_zero _)⟩

theorem Inv.limit (h : s.Inv) {number : Nat} (hn : number < s.entries.next) :
    number < sequenceLimit := Nat.lt_of_lt_of_le hn h.sound.limit

theorem Inv.add (h : s.Inv) {priority : Nat} (hp : priority < 10 ^ 3)
    (hnext : s.entries.next < sequenceLimit) (value : Bytes) :
    { s with entries := s.entries.add priority value }.Inv := by
  have hfresh := h.sound.fresh hnext priority
  refine ⟨h.sound.add hnext priority value, fun entry hentry => ?_, fun name hname => ?_, h.sorted,
    h.nodup, ?_⟩
  · rcases List.mem_cons.mp hentry with rfl | hold
    · exact ⟨priority, s.entries.next, hp, Nat.lt_succ_self _, rfl⟩
    · obtain ⟨p, n, hp, hn, hname⟩ := h.named entry hold
      exact ⟨p, n, hp, Nat.lt_succ_of_lt hn, hname⟩
  · exact List.mem_cons_of_mem _ (h.listed name hname)
  · obtain ⟨mark, hmark, holder⟩ := h.older
    refine ⟨mark, Nat.le_succ_of_le hmark, fun p n v hn hmem => ?_⟩
    have hlimit : n < sequenceLimit := Nat.lt_of_lt_of_le hn hnext
    rcases List.mem_cons.mp hmem with heq | hold
    · have hname := (Prod.mk.inj heq).1
      obtain rfl := number_of_entryName hlimit hnext hname
      refine iff_of_false (fun hlisted => hfresh ?_) (Nat.not_lt.mpr hmark)
      rw [← hname]
      exact List.map_subset _ h.sound.present.subset (h.listed _ hlisted)
    · obtain ⟨p', n', hlt, hname⟩ := h.sound.numbered _ (h.sound.present.subset hold)
      obtain rfl := number_of_entryName hlimit (h.limit hlt) hname
      exact holder p n v hlt hold

/-- The list is made anew when it is used up. -/
theorem Inv.relist (h : s.Inv) : { s with children := s.listing }.Inv := by
  unfold listing
  split
  · have hnodup : (s.entries.present.map Prod.fst).Nodup :=
      (h.sound.present.map Prod.fst).nodup h.sound.nodup
    refine ⟨h.sound, h.named, fun name hname => mem_sortedNames.mp hname, pairwise_sortedNames _, ?_,
      ⟨s.entries.next, le_refl _, fun p n v hn hmem => ?_⟩⟩
    · exact (List.perm_insertionSort _ _).nodup_iff.mpr hnodup
    · exact iff_of_true (mem_sortedNames.mpr (List.mem_map_of_mem hmem)) hn
  · exact h

/-- The first of the list is taken. -/
theorem Inv.take (h : s.Inv) (hchildren : s.children = name :: rest) :
    (⟨s.entries.delete name, rest⟩ : SoleQueue).Inv := by
  have hnodup := hchildren ▸ h.nodup
  have hsorted := hchildren ▸ h.sorted
  have hne : ∀ name' ∈ rest, name' ≠ name := by
    rintro name' hmem rfl
    exact (List.nodup_cons.mp hnodup).1 hmem
  refine ⟨h.sound.delete name, h.named, fun name' hmem => ?_, hsorted.of_cons, hnodup.of_cons, ?_⟩
  · obtain ⟨entry, hentry, heq⟩ :=
      List.mem_map.mp (h.listed name' (hchildren ▸ List.mem_cons_of_mem _ hmem))
    refine List.mem_map.mpr ⟨entry, QueueEntries.mem_present_delete.mpr ⟨hentry, ?_⟩, heq⟩
    rw [heq]
    exact hne name' hmem
  · obtain ⟨mark, hmark, holder⟩ := h.older
    refine ⟨mark, hmark, fun p n v hn hmem => ?_⟩
    obtain ⟨hold, hother⟩ := QueueEntries.mem_present_delete.mp hmem
    rw [← holder p n v hn hold, hchildren, List.mem_cons, or_iff_right hother]

theorem Inv.innerGet (h : s.Inv) :
    s.listing = [] ∧ s.entries.present = [] ∧ s.innerGet = (.ok none, { s with children := [] }) ∨
      ∃ name rest data, s.listing = name :: rest ∧ (name, data) ∈ s.entries.present ∧
        s.innerGet = (.ok (some data), ⟨s.entries.delete name, rest⟩) := by
  cases hlisting : s.listing with
  | nil =>
    refine .inl ⟨rfl, ?_, by rw [SoleQueue.innerGet, hlisting]⟩
    unfold listing at hlisting
    split at hlisting
    · exact List.map_eq_nil_iff.mp (sortedNames_eq_nil_iff.mp hlisting)
    · next hne => exact absurd hlisting hne
  | cons name rest =>
    have hhas : s.entries.Has name := h.relist.listed name (by rw [hlisting]; exact List.mem_cons_self)
    obtain ⟨⟨name', data⟩, hentry, rfl⟩ := List.mem_map.mp hhas
    cases hfind : s.entries.present.find? (·.1 = name') with
    | none =>
      have hnone := List.find?_eq_none.mp hfind _ hentry
      exact absurd (decide_eq_true rfl) hnone
    | some entry =>
      have hfound := List.find?_some hfind
      have hname : entry.1 = name' := of_decide_eq_true hfound
      refine .inr ⟨name', rest, entry.2, rfl, ?_, ?_⟩
      · rw [← hname]
        exact List.mem_of_find?_eq_some hfind
      · rw [SoleQueue.innerGet, hlisting]
        dsimp only
        rw [hfind]

/-- `client.retry` has nothing to try again. -/
theorem Inv.get_eq (h : s.Inv) (tries : Nat) : s.get tries = s.innerGet := by
  have hok : ∃ r s', s.innerGet = (.ok r, s') := by
    rcases h.innerGet with ⟨-, -, heq⟩ | ⟨name, rest, data, -, -, heq⟩
    · exact ⟨_, _, heq⟩
    · exact ⟨_, _, heq⟩
  obtain ⟨r, s', heq⟩ := hok
  cases tries <;> rw [get, heq]

theorem Inv.call (h : s.Inv) (tries : Nat) {c : QueueCall}
    (hnext : c.isPut = true → s.entries.next < sequenceLimit) : (s.call tries c).Inv := by
  cases c with
  | put value priority =>
    unfold SoleQueue.call put
    dsimp only
    split
    · exact h
    · next p hp => exact h.add (lt_of_checkPutArguments hp) (hnext rfl) value
  | get =>
    show (s.get tries).2.Inv
    rw [h.get_eq]
    rcases h.innerGet with ⟨hlisting, -, heq⟩ | ⟨name, rest, data, hlisting, -, heq⟩
    · rw [heq, ← hlisting]
      exact h.relist
    · rw [heq]
      exact h.relist.take hlisting

/-! ## The first of the list -/

/-- In the list the first is the least; outside of it, if the list is up to date. -/
theorem Inv.first (h : s.Inv) (hlisting : s.listing = name :: rest)
    (hmem : (name, data) ∈ s.entries.present) (hupToDate : s.UpToDate) :
    First s.entries (name, data) := by
  obtain ⟨p, n, hp, hn, hname⟩ := h.named _ (h.sound.present.subset hmem)
  have hname : name = entryName p n := hname
  subst hname
  refine ⟨hmem, p, n, hp, hn, rfl, fun p' n' v' hp' hn' hmem' => ?_⟩
  by_cases hin : entryName p' n' ∈ s.listing
  · have hsorted : s.listing.Pairwise fun a b => ¬ b < a := h.relist.sorted
    rw [hlisting] at hin hsorted
    have hle : ¬ entryName p' n' < entryName p n := by
      rcases List.mem_cons.mp hin with heq | hrest
      · rw [heq]
        exact List.lt_irrefl _
      · exact (List.pairwise_cons.mp hsorted).1 _ hrest
    rw [entryName_lt_iff hp' hp (h.limit hn') (h.limit hn)] at hle
    omega
  · -- it has been put since the list was made
    have hchildren : s.listing = s.children := by
      unfold listing at hin ⊢
      split
      · next hnil =>
        rw [if_pos hnil] at hin
        exact absurd (mem_sortedNames.mpr (List.mem_map_of_mem hmem')) hin
      · rfl
    rw [hchildren] at hin hlisting
    have hle := hupToDate p n p' n' v' hp hn hp' hn' (by rw [hlisting]; rfl) hmem' hin
    obtain ⟨mark, -, holder⟩ := h.older
    have hbefore := (holder p n data hn hmem).mp (by rw [hlisting]; exact List.mem_cons_self)
    have hafter := mt (holder p' n' v' hn' hmem').mpr hin
    omega

/-- If the first of the list is the least, then the list is up to date. -/
theorem Inv.upToDate (h : s.Inv) (hlisting : s.listing = name :: rest)
    (hfirst : First s.entries (name, data)) : s.UpToDate := by
  intro p n p' n' v' hp hn hp' hn' hhead hmem' hout
  have hname : name = entryName p n := by
    unfold listing at hlisting
    split at hlisting
    · next hnil =>
      rw [hnil] at hhead
      cases hhead
    · rw [hlisting] at hhead
      exact Option.some.inj hhead
  obtain ⟨-, q, m, hq, hm, heq, hleast⟩ := hfirst
  have heq : name = entryName q m := heq
  obtain ⟨rfl, rfl⟩ := entryName_injective hp hq (h.limit hn) (h.limit hm) (hname.symm.trans heq)
  have hle := hleast p' n' v' hp' hn' hmem'
  omega

theorem Inv.takesFirst_iff (h : s.Inv) (tries : Nat) : s.TakesFirst tries ↔ s.UpToDate := by
  unfold TakesFirst
  rw [h.get_eq]
  rcases h.innerGet with ⟨hlisting, hempty, heq⟩ | ⟨name, rest, data, hlisting, hmem, heq⟩
  · rw [heq]
    refine iff_of_true hempty fun p n p' n' v' _ _ _ _ _ hmem' => ?_
    rw [hempty] at hmem'
    exact absurd hmem' List.not_mem_nil
  · rw [heq]
    constructor
    · rintro ⟨name', hfirst, hdelete⟩
      have hname : name' = name := by
        by_contra hne
        have hstays : (name', data) ∈ (s.entries.delete name).present :=
          QueueEntries.mem_present_delete.mpr ⟨hfirst.1, hne⟩
        have hdelete : s.entries.delete name = s.entries.delete name' := hdelete
        rw [hdelete] at hstays
        exact (QueueEntries.mem_present_delete.mp hstays).2 rfl
      exact h.upToDate hlisting (hname ▸ hfirst)
    · exact fun hupToDate => ⟨name, h.first hlisting hmem hupToDate, rfl⟩

/-! ## Sequences of calls -/

theorem next_call (s : SoleQueue) (tries : Nat) (hs : s.Inv) (c : QueueCall) :
    (s.call tries c).entries.next ≤ s.entries.next + if c.isPut then 1 else 0 := by
  cases c with
  | put value priority =>
    unfold SoleQueue.call put
    dsimp only
    split
    · exact Nat.le_add_right _ _
    · exact le_refl _
  | get =>
    show (s.get tries).2.entries.next ≤ _
    rw [hs.get_eq]
    rcases hs.innerGet with ⟨-, -, heq⟩ | ⟨name, rest, data, -, -, heq⟩ <;> rw [heq] <;>
      exact Nat.le_add_right _ _

/-- Every put uses up a number. -/
theorem inv_foldl (hs : s.Inv) (tries : Nat) {calls : List QueueCall}
    (hputs : s.entries.next + calls.countP QueueCall.isPut ≤ sequenceLimit) :
    (calls.foldl (call tries) s).Inv ∧
      (calls.foldl (call tries) s).entries.next ≤ s.entries.next + calls.countP QueueCall.isPut := by
  induction calls generalizing s with
  | nil => exact ⟨hs, le_refl _⟩
  | cons c calls ih =>
    rw [List.countP_cons] at hputs ⊢
    have hnext := next_call s tries hs c
    have hcall : (s.call tries c).Inv := by
      refine hs.call tries fun hput => ?_
      rw [if_pos hput] at hputs
      omega
    obtain ⟨hinv, hle⟩ := ih hcall (by omega)
    refine ⟨hinv, ?_⟩
    rw [List.foldl_cons]
    omega

theorem inv_run (tries : Nat) {calls : List QueueCall}
    (hputs : calls.countP QueueCall.isPut < 2 ^ 31) :
    (run tries calls).Inv ∧ (run tries calls).entries.next ≤ calls.countP QueueCall.isPut := by
  have hlimit : new.entries.next + calls.countP QueueCall.isPut ≤ sequenceLimit := by
    show 0 + _ ≤ sequenceLimit
    unfold sequenceLimit
    omega
  obtain ⟨hinv, hle⟩ := inv_foldl inv_new tries hlimit
  exact ⟨hinv, hle.trans (Nat.le_of_eq (Nat.zero_add _))⟩

/-! ## As runs of all queues -/

/-- The client is alone among the objects of `queueing`, and between two calls. -/
structure Runs (s : SoleQueue) (q : Queues Unit) : Prop where
  reachable : (queueing Unit).Reachable q
  entries : q.entries = s.entries
  object : q.objects () = ⟨s.children, .absent⟩

theorem reachable_step {q q' : Queues Unit} {act : QueueAct Unit}
    (h : (queueing Unit).Reachable q) (hstep : q.step act = some q') :
    (queueing Unit).Reachable q' := by
  have hen : (queueing Unit).enabled q act := by
    show (q.step act).isSome = true
    rw [hstep]
    rfl
  have hpost : (queueing Unit).post q act = q' := by
    show (q.step act).getD q = q'
    rw [hstep]
    rfl
  exact hpost ▸ .step h hen trivial

theorem objects_setObject (q : Queues Unit) (o : QueueObject) :
    (q.setObject () o).objects () = o := by
  exact Function.update_self () o q.objects

/-- `client.get` and `client.delete`. -/
theorem exists_runs_take {q : Queues Unit} (h : (queueing Unit).Reachable q) (hs : s.Inv)
    (hentries : q.entries = s.entries) (hobject : q.objects () = ⟨name :: rest, .reading name⟩)
    (hmem : (name, data) ∈ s.entries.present) :
    ∃ q', Runs ⟨s.entries.delete name, rest⟩ q' := by
  have hread : q.step (.read () data) = some (q.setStage () (.deleting name data)) := by
    simp only [Queues.step, hobject]
    rw [if_pos (hentries ▸ hs.sound.present.subset hmem)]
  have hreading := reachable_step h hread
  have hstage : (q.setStage () (.deleting name data)).objects () =
      ⟨name :: rest, .deleting name data⟩ := by
    rw [Queues.setStage, objects_setObject, hobject]
  have hhas : (q.setStage () (.deleting name data)).entries.Has name := by
    show q.entries.Has name
    rw [hentries]
    exact List.mem_map_of_mem hmem
  have hdelete : (q.setStage () (.deleting name data)).step (.delete ()) = some
      { (q.setStage () (.deleting name data)).setObject () ⟨rest, .absent⟩ with
        entries := q.entries.delete name
        returned := ((), name, data) :: q.returned } := by
    simp only [Queues.step, hstage]
    rw [if_pos hhas]
    rfl
  exact ⟨_, reachable_step hreading hdelete, congrArg (·.delete name) hentries,
    objects_setObject (q.setStage () (.deleting name data)) ⟨rest, .absent⟩⟩

theorem Runs.get {q : Queues Unit} (h : s.Runs q) (hs : s.Inv) : ∃ q', Runs s.innerGet.2 q' := by
  have hget : q.step (.get ()) = some (q.setObject () (Queues.entered ⟨s.children, .absent⟩)) := by
    simp only [Queues.step, h.object]
  have hgetting := reachable_step h.reachable hget
  cases hchildren : s.children with
  | cons name rest =>
    rw [hchildren] at hgetting
    have hlisting : s.listing = name :: rest := by
      rw [listing, if_neg (by rw [hchildren]; exact List.cons_ne_nil _ _), hchildren]
    rcases hs.innerGet with ⟨hnil, -, -⟩ | ⟨name', rest', data, hlisting', hmem, heq⟩
    · rw [hlisting] at hnil
      cases hnil
    · obtain ⟨rfl, rfl⟩ := List.cons.inj (hlisting.symm.trans hlisting')
      rw [heq]
      exact exists_runs_take hgetting hs h.entries (objects_setObject _ _) hmem
  | nil =>
    rw [hchildren] at hgetting
    have hlisting : s.listing = sortedNames (s.entries.present.map Prod.fst) := by
      rw [listing, if_pos hchildren]
    have hobject : (q.setObject () (Queues.entered ⟨[], .absent⟩)).objects () = ⟨[], .listing⟩ :=
      objects_setObject _ _
    rcases hs.innerGet with ⟨hnil, -, heq⟩ | ⟨name, rest, data, hcons, hmem, heq⟩
    · have hlist : (q.setObject () (Queues.entered ⟨[], .absent⟩)).step
          (.list () (s.entries.present.map Prod.fst)) = some
          { (q.setObject () (Queues.entered ⟨[], .absent⟩)).setObject () ⟨[], .absent⟩ with
            empties := ((), s.entries.present.map Prod.fst) :: q.empties } := by
        simp only [Queues.step, hobject]
        rw [← hlisting, hnil]
        rfl
      rw [heq]
      exact ⟨_, reachable_step hgetting hlist, h.entries,
        objects_setObject (q.setObject () (Queues.entered ⟨[], .absent⟩)) ⟨[], .absent⟩⟩
    · have hlist : (q.setObject () (Queues.entered ⟨[], .absent⟩)).step
          (.list () (s.entries.present.map Prod.fst)) = some
          ((q.setObject () (Queues.entered ⟨[], .absent⟩)).setObject ()
            ⟨name :: rest, .reading name⟩) := by
        simp only [Queues.step, hobject]
        rw [← hlisting, hcons]
      rw [heq]
      exact exists_runs_take (reachable_step hgetting hlist) hs h.entries (objects_setObject _ _) hmem

theorem Runs.call {q : Queues Unit} (h : s.Runs q) (hs : s.Inv) (tries : Nat) {c : QueueCall}
    (hnext : c.isPut = true → s.entries.next < sequenceLimit) : ∃ q', Runs (s.call tries c) q' := by
  cases c with
  | put value priority =>
    unfold SoleQueue.call put
    dsimp only
    split
    · exact ⟨q, h⟩
    · next p hp =>
      have hput : q.step (.put priority value) =
          some { q with entries := q.entries.add p value } := by
        simp only [Queues.step, hp]
        rw [h.entries, if_pos (hnext rfl)]
      exact ⟨_, reachable_step h.reachable hput, congrArg (·.add p value) h.entries, h.object⟩
  | get =>
    show ∃ q', Runs (s.get tries).2 q'
    rw [hs.get_eq]
    exact h.get hs

/-- Every sequence of calls is a run of `queueing`. -/
theorem exists_runs (tries : Nat) {calls : List QueueCall}
    (hputs : calls.countP QueueCall.isPut < 2 ^ 31) : ∃ q, (run tries calls).Runs q := by
  induction calls using List.reverseRecOn with
  | nil => exact ⟨.new, .init, rfl, rfl⟩
  | append_singleton calls c ih =>
    rw [List.countP_append, List.countP_singleton] at hputs
    have hbefore : calls.countP QueueCall.isPut < 2 ^ 31 := Nat.lt_of_le_of_lt (Nat.le_add_right _ _) hputs
    obtain ⟨q, hq⟩ := ih hbefore
    have hrun : run tries (calls ++ [c]) = (run tries calls).call tries c := by
      rw [run, List.foldl_append]
      rfl
    rw [hrun]
    obtain ⟨hinv, hle⟩ := inv_run tries hbefore
    refine hq.call hinv tries fun _ => ?_
    unfold sequenceLimit
    omega

/-- After any calls, `get` returns the value of the first entry by priority and order of insertion
exactly if `_children` is used up or up to date. -/
theorem get_takesFirst_iff (tries : Nat) (calls : List QueueCall)
    (hputs : calls.countP QueueCall.isPut < 2 ^ 31) :
    (run tries calls).TakesFirst tries ↔ (run tries calls).UpToDate :=
  (inv_run tries hputs).1.takesFirst_iff tries

/-- Two entries of one priority, and a more urgent one that comes before the list is made. -/
theorem get_takesFirst_urgent :
    (run 0 [.put [1] 100, .put [2] 100, .put [3] 0]).TakesFirst 0 := by
  refine (get_takesFirst_iff 0 _ (by decide)).mpr fun p n p' n' v' _ _ _ _ hhead => ?_
  cases hhead

/-- The more urgent entry comes when the list has been made. -/
theorem get_takes_stale :
    ¬ ∀ calls : List QueueCall, calls.countP QueueCall.isPut < 2 ^ 31 →
      (run 0 calls).TakesFirst 0 := by
  intro h
  have hinv : (run 0 [.put [1] 100, .put [2] 100, .get, .put [3] 0]).Inv := (inv_run 0 (by decide)).1
  have hupToDate := (hinv.takesFirst_iff 0).mp (h _ (by decide))
  have hle := hupToDate 100 1 0 2 [3] (by decide) (by decide +kernel) (by decide) (by decide +kernel)
    (by decide +kernel) (by decide +kernel) (by decide +kernel)
  omega

end SoleQueue

end Kazoo
