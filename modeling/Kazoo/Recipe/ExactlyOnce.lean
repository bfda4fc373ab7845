import Kazoo.Recipe.Counter
import Mathlib.Data.List.Perm.Subperm

/-!
# Every change once

What the server holds after the changes of a counter, under conflicts and lost replies.
-/

namespace Kazoo

variable {κ ι : Type} {C : Counters κ} {k : κ}

/-! ## The node -/

namespace CounterNode

variable {n : CounterNode} {c : Change} {u : Update} {r : CounterRequest} {version : Nat} {value : Int}

/-- The node has held the value at the version. -/
def Held (n : CounterNode) (C : Counters κ) (k : κ) (version : Nat) (value : Int) : Prop :=
  ∃ data, (data, version) ∈ n.versions ∧ C.read k data = .ok value

/-- The node at the version is without an update of the change. -/
def Without (n : CounterNode) (c : Change) (version : Nat) : Prop :=
  ∀ u ∈ n.applied, u.change = c → version ≤ u.version

instance : Decidable (n.Without c version) :=
  inferInstanceAs (Decidable (∀ u ∈ n.applied, _ → _))

structure Ready (n : CounterNode) (C : Counters κ) (u : Update) : Prop where
  held : ∃ k, n.Held C k u.version u.pre
  post : u.post = u.pre + u.change.value
  data : ∀ k, C.read k u.data = .ok u.post
  without : n.Without u.change u.version

structure Sound (n : CounterNode) (C : Counters κ) : Prop where
  versions : n.versions.Pairwise fun x y => y.2 < x.2
  applied : ∀ u ∈ n.applied, (u.data, u.version + 1) ∈ n.versions
  once : (n.applied.map Update.change).Nodup
  value : ∀ k, C.read k n.data = .ok (C.initial + (n.applied.map fun u => u.change.value).sum)

/-- What the server does: nothing, or it makes the node, or it carries the update out on the version
that the update is for. -/
theorem serve_cases (n : CounterNode) (r : CounterRequest) :
    ((n.serve r).1 = n ∧ ∀ u, r = .set u → (n.serve r).2 ≠ none) ∨
    (r = .create ∧ n.versions = [] ∧ (n.serve r).1 = ⟨[([], 0)], n.applied⟩) ∨
    ∃ u data rest, r = .set u ∧ n.versions = (data, u.version) :: rest ∧
      (n.serve r).1 = ⟨(u.data, u.version + 1) :: n.versions, u :: n.applied⟩ := by
  cases r with
  | create =>
    cases hversions : n.versions with
    | nil =>
      right; left
      simp only [serve, hversions, and_self]
    | cons x rest =>
      left
      simp only [serve, hversions]
      exact ⟨trivial, nofun⟩
  | set u =>
    cases hversions : n.versions with
    | nil =>
      left
      simp only [serve, hversions]
      exact ⟨trivial, fun _ _ => nofun⟩
    | cons x rest =>
      by_cases hversion : x.2 = u.version
      · right; right
        refine ⟨u, x.1, rest, rfl, ?_, ?_⟩
        · rw [← hversion]
        · simp only [serve, hversions, hversion, if_true]
      · left
        simp only [serve, hversions, hversion, if_false]
        exact ⟨trivial, fun _ _ => nofun⟩

theorem versions_subset_serve {x : Bytes × Nat} (hx : x ∈ n.versions) :
    x ∈ (n.serve r).1.versions := by
  rcases serve_cases n r with ⟨heq, -⟩ | ⟨-, hnil, -⟩ | ⟨u, data, rest, -, -, heq⟩
  · rwa [heq]
  · rw [hnil] at hx
    cases hx
  · rw [heq]
    exact List.mem_cons_of_mem _ hx

theorem applied_subset_serve (hu : u ∈ n.applied) : u ∈ (n.serve r).1.applied := by
  rcases serve_cases n r with ⟨heq, -⟩ | ⟨-, -, heq⟩ | ⟨u', data, rest, -, -, heq⟩
  · rwa [heq]
  · rwa [heq]
  · rw [heq]
    exact List.mem_cons_of_mem _ hu

/-- An update in the node was there before, or it is the one that the server has just been asked for. -/
theorem mem_applied_serve (hu : u ∈ (n.serve r).1.applied) : u ∈ n.applied ∨ r = .set u := by
  rcases serve_cases n r with ⟨heq, -⟩ | ⟨-, -, heq⟩ | ⟨u', data, rest, hr, -, heq⟩
  · rw [heq] at hu
    exact .inl hu
  · rw [heq] at hu
    exact .inl hu
  · rw [heq] at hu
    rcases List.mem_cons.mp hu with rfl | hu
    · exact .inr hr
    · exact .inl hu

theorem mem_applied_of_reply (h : (n.serve (.set u)).2 = none) :
    u ∈ (n.serve (.set u)).1.applied := by
  rcases serve_cases n (.set u) with ⟨-, hreply⟩ | ⟨hr, -⟩ | ⟨u', data, rest, hr, -, heq⟩
  · exact absurd h (hreply u rfl)
  · cases hr
  · cases hr
    rw [heq]
    exact List.mem_cons_self ..

theorem Held.serve (h : n.Held C k version value) : (n.serve r).1.Held C k version value := by
  obtain ⟨data, hmem, hread⟩ := h
  exact ⟨data, versions_subset_serve hmem, hread⟩

/-- No version that the node has had is above the present one. -/
theorem Sound.le_head (hn : n.Sound C) {data : Bytes} {top : Nat} {rest : List (Bytes × Nat)}
    (htop : n.versions = (data, top) :: rest) {x : Bytes × Nat} (hx : x ∈ n.versions) :
    x.2 ≤ top ∧ (x.2 = top → x.1 = data) := by
  have hpairwise := hn.versions
  rw [htop] at hpairwise hx
  rcases List.mem_cons.mp hx with rfl | hx
  · exact ⟨Nat.le_refl _, fun _ => rfl⟩
  · have hlt := List.rel_of_pairwise_cons hpairwise hx
    exact ⟨Nat.le_of_lt hlt, fun heq => absurd heq (Nat.ne_of_lt hlt)⟩

theorem Without.serve (hn : n.Sound C) (hheld : n.Held C k version value)
    (h : n.Without c version) : (n.serve r).1.Without c version := by
  rcases serve_cases n r with ⟨heq, -⟩ | ⟨-, -, heq⟩ | ⟨u, data, rest, -, htop, heq⟩
  · rwa [heq]
  · rwa [heq]
  · rw [heq]
    intro w hw hchange
    rcases List.mem_cons.mp hw with rfl | hw
    · -- a new update is on the present version
      obtain ⟨data', hmem, -⟩ := hheld
      exact (hn.le_head htop hmem).1
    · exact h w hw hchange

theorem Ready.serve (hn : n.Sound C) (h : n.Ready C u) : (n.serve r).1.Ready C u := by
  obtain ⟨k, hheld⟩ := h.held
  exact ⟨⟨k, hheld.serve⟩, h.post, h.data, h.without.serve hn hheld⟩

/-- The update that the server carries out is the first of its change, and is made from the present
value. -/
theorem Sound.serve (hn : n.Sound C) (hready : ∀ u, r = .set u → n.Ready C u) :
    (n.serve r).1.Sound C := by
  rcases serve_cases n r with ⟨heq, -⟩ | ⟨-, hnil, heq⟩ | ⟨u, data, rest, hr, htop, heq⟩
  · rwa [heq]
  · rw [heq]
    have hempty : n.applied = [] := by
      apply List.eq_nil_iff_forall_not_mem.mpr
      intro u hu
      have hmem := hn.applied u hu
      rw [hnil] at hmem
      cases hmem
    refine ⟨List.pairwise_singleton _ _, ?_, hn.once, ?_⟩
    · rw [hempty]
      exact fun u hu => absurd hu List.not_mem_nil
    · intro k
      have hvalue := hn.value k
      rw [data, hnil] at hvalue
      exact hvalue
  · have hu := hready u hr
    obtain ⟨k, data', hmem, hread⟩ := hu.held
    -- the version is the one that was read, and so is its value
    have hdata : data' = data := (hn.le_head htop hmem).2 rfl
    have hpre : u.pre = C.initial + (n.applied.map fun u => u.change.value).sum := by
      have hvalue := hn.value k
      rw [CounterNode.data, htop] at hvalue
      rw [hdata] at hread
      exact Except.ok.inj (hread.symm.trans hvalue)
    rw [heq]
    refine ⟨?_, ?_, ?_, ?_⟩
    · refine List.pairwise_cons.mpr ⟨fun x hx => ?_, hn.versions⟩
      exact Nat.lt_succ_of_le (hn.le_head htop hx).1
    · intro w hw
      rcases List.mem_cons.mp hw with rfl | hw
      · exact List.mem_cons_self ..
      · exact List.mem_cons_of_mem _ (hn.applied w hw)
    · refine List.nodup_cons.mpr ⟨fun hmem => ?_, hn.once⟩
      -- an earlier update of the change would be above the version that was read
      obtain ⟨w, hw, hchange⟩ := List.mem_map.mp hmem
      have hlow := hu.without w hw hchange
      have hhigh := (hn.le_head htop (hn.applied w hw)).1
      dsimp only at hhigh
      omega
    · intro k
      show C.read k u.data = _
      rw [hu.data k, hu.post, hpre, List.map_cons, List.sum_cons]
      refine congrArg Except.ok ?_
      omega

end CounterNode

/-! ## The changes -/

/-- The changes by what has become of them. -/
structure Changes (ι : Type) where
  running : ι → Option Change
  returned : List Change
  raised : List Change
  next : Nat

/-- What a thread has after an update, it has from the update or had before. -/
theorem thread_of_update [DecidableEq ι] {β : Type} {f : ι → Option β} {x : Option β} {b : β} {i j : ι}
    (h : Function.update f i x j = some b) : (j = i ∧ x = some b) ∨ (j ≠ i ∧ f j = some b) := by
  by_cases hj : j = i
  · subst hj
    rw [Function.update_self] at h
    exact .inl ⟨rfl, h⟩
  · rw [Function.update_of_ne hj] at h
    exact .inr ⟨hj, h⟩

namespace Changes

variable {g : Changes ι} {c : Change} {i : ι}

def Known (g : Changes ι) (c : Change) : Prop :=
  (∃ i, g.running i = some c) ∨ c ∈ g.returned ∨ c ∈ g.raised

structure Sound (g : Changes ι) : Prop where
  below : ∀ c, g.Known c → c.number < g.next
  distinct : ∀ i j c, g.running i = some c → g.running j = some c → i = j
  apart : ∀ i c, g.running i = some c → c ∉ g.returned
  nodup : g.returned.Nodup

variable [DecidableEq ι]

def start (g : Changes ι) (i : ι) (value : Int) : Changes ι :=
  { g with running := Function.update g.running i (some ⟨g.next, value⟩), next := g.next + 1 }

/-- Thread `i` leaves, and the lists are as they are given. -/
def leave (g : Changes ι) (i : ι) (returned raised : List Change) : Changes ι :=
  { g with running := Function.update g.running i none, returned := returned, raised := raised }

variable {returned raised : List Change}

theorem Known.start (hi : g.running i = none) (h : g.Known c) (value : Int) :
    (g.start i value).Known c := by
  rcases h with ⟨j, hj⟩ | h
  · refine .inl ⟨j, ?_⟩
    have hne : j ≠ i := by
      rintro rfl
      rw [hi] at hj
      cases hj
    show Function.update _ _ _ _ = _
    rw [Function.update_of_ne hne, hj]
  · exact .inr h

theorem Known.leave (hi : g.running i = some c) (hfiled : c ∈ returned ∨ c ∈ raised)
    (hreturned : g.returned ⊆ returned) (hraised : g.raised ⊆ raised) {c' : Change}
    (h : g.Known c') : (g.leave i returned raised).Known c' := by
  rcases h with ⟨j, hj⟩ | h | h
  · by_cases hne : j = i
    · subst hne
      obtain rfl := Option.some.inj (hi.symm.trans hj)
      exact .inr hfiled
    · exact .inl ⟨j, (Function.update_of_ne hne _ _).trans hj⟩
  · exact .inr (.inl (hreturned h))
  · exact .inr (.inr (hraised h))

theorem Sound.start (h : g.Sound) (value : Int) : (g.start i value).Sound where
  below := by
    rintro c (⟨j, hj⟩ | hc | hc)
    · rcases thread_of_update hj with ⟨-, hnew⟩ | ⟨-, hold⟩
      · cases hnew
        exact Nat.lt_succ_self _
      · exact Nat.lt_succ_of_lt (h.below c (.inl ⟨j, hold⟩))
    · exact Nat.lt_succ_of_lt (h.below c (.inr (.inl hc)))
    · exact Nat.lt_succ_of_lt (h.below c (.inr (.inr hc)))
  distinct := by
    intro j j' c hj hj'
    -- the new number is above all others
    rcases thread_of_update hj with ⟨rfl, hnew⟩ | ⟨-, hold⟩ <;>
      rcases thread_of_update hj' with ⟨rfl, hnew'⟩ | ⟨-, hold'⟩
    · rfl
    · cases hnew
      exact absurd (h.below _ (.inl ⟨j', hold'⟩)) (Nat.lt_irrefl _)
    · cases hnew'
      exact absurd (h.below _ (.inl ⟨j, hold⟩)) (Nat.lt_irrefl _)
    · exact h.distinct j j' c hold hold'
  apart := by
    intro j c hj hc
    rcases thread_of_update hj with ⟨-, hnew⟩ | ⟨-, hold⟩
    · cases hnew
      exact absurd (h.below _ (.inr (.inl hc))) (Nat.lt_irrefl _)
    · exact h.apart j c hold hc
  nodup := h.nodup

/-- The thread that leaves files its change. -/
theorem Sound.leave (h : g.Sound) (hi : g.running i = some c) (hreturned : returned ⊆ c :: g.returned)
    (hraised : raised ⊆ c :: g.raised) (hnodup : returned.Nodup) :
    (g.leave i returned raised).Sound where
  below := by
    have hfiled : c.number < g.next := h.below c (.inl ⟨i, hi⟩)
    rintro c' (⟨j, hj⟩ | hc | hc)
    · rcases thread_of_update hj with ⟨-, hnew⟩ | ⟨-, hold⟩
      · cases hnew
      · exact h.below c' (.inl ⟨j, hold⟩)
    · rcases List.mem_cons.mp (hreturned hc) with rfl | hc
      · exact hfiled
      · exact h.below c' (.inr (.inl hc))
    · rcases List.mem_cons.mp (hraised hc) with rfl | hc
      · exact hfiled
      · exact h.below c' (.inr (.inr hc))
  distinct := by
    intro j j' c' hj hj'
    rcases thread_of_update hj with ⟨-, hnew⟩ | ⟨-, hold⟩
    · cases hnew
    rcases thread_of_update hj' with ⟨-, hnew⟩ | ⟨-, hold'⟩
    · cases hnew
    exact h.distinct j j' c' hold hold'
  apart := by
    intro j c' hj hc
    rcases thread_of_update hj with ⟨-, hnew⟩ | ⟨hne, hold⟩
    · cases hnew
    rcases List.mem_cons.mp (hreturned hc) with rfl | hc
    · exact hne (h.distinct j i _ hold hi)
    · exact h.apart j c' hold hc
  nodup := hnodup

end Changes

/-! ## The threads -/

open CounterNode

/-- What a thread in `_change` may rely on. -/
def ChangeStage.Fits (C : Counters κ) (n : CounterNode) (k : κ) (c : Change) : ChangeStage → Prop
  | .adding read version => n.Held C k version read ∧ n.Without c version
  | .setting u => u.change = c ∧ n.Ready C u
  | .answered u reply => u.change = c ∧ n.Ready C u ∧ (reply = none → u ∈ n.applied)
  | _ => True

namespace Counting

section Statement

variable {s : Counting κ ι}

/-- The changes that have returned, and possibly some that have not, make up the stored value, each
counted once; and a change that has returned has written its `pre_value` plus its argument. -/
structure ExactlyOnce (C : Counters κ) (s : Counting κ ι) : Prop where
  value : ∃ others : List Change,
    (∀ c ∈ others, c ∈ s.raised ∨ ∃ i stage, s.threads i = some (c, stage)) ∧
      (s.returned.map (·.update.change) ++ others).Nodup ∧
      ∀ k, C.read k s.node.data =
        .ok (C.initial + ((s.returned.map (·.update.change) ++ others).map Change.value).sum)
  written : ∀ r ∈ s.returned, ∃ pre, r.preValue = some pre ∧
    (r.update.data, r.update.version + 1) ∈ s.node.versions ∧
      ∀ k, C.read k r.update.data = .ok (pre + r.update.change.value)

/-- A change does not read back its own addition, and when it adds to `self.pre_value`, and when it
returns, this is what it has read itself. -/
def Undisturbed (object : ι → κ) (s : Counting κ ι) : CounterAct ι → Prop
  | .get i _ version =>
    match s.threads i with
    | some (c, _) => s.node.Without c version
    | none => True
  | .add i =>
    match s.threads i with
    | some (_, .adding read _) => (s.objects (object i)).preValue = some read
    | _ => True
  | .finish i =>
    match s.threads i with
    | some (_, .answered u _) => (s.objects (object i)).preValue = some u.pre
    | _ => True
  | _ => True

instance (object : ι → κ) (act : CounterAct ι) : Decidable (s.Undisturbed object act) := by
  unfold Undisturbed
  split
  · split <;> infer_instance
  · split <;> infer_instance
  · split <;> infer_instance
  · infer_instance

end Statement

section Invariant

variable [DecidableEq κ] [DecidableEq ι] {object : ι → κ} {s s' : Counting κ ι} {i : ι} {c : Change}
  {old stage : ChangeStage}

def changes (s : Counting κ ι) : Changes ι where
  running := fun i => (s.threads i).map Prod.fst
  returned := s.returned.map (·.update.change)
  raised := s.raised
  next := s.next

structure Inv (C : Counters κ) (object : ι → κ) (s : Counting κ ι) : Prop where
  node : s.node.Sound C
  changes : s.changes.Sound
  fits : ∀ i c stage, s.threads i = some (c, stage) → stage.Fits C s.node (object i) c
  late : ∀ u, .set u ∈ s.late → s.changes.Known u.change ∧ s.node.Ready C u
  applied : ∀ u ∈ s.node.applied, s.changes.Known u.change
  returned : ∀ r ∈ s.returned,
    s.node.Ready C r.update ∧ r.update ∈ s.node.applied ∧ r.preValue = some r.update.pre

omit [DecidableEq κ] [DecidableEq ι] in
theorem running_of_thread (h : s.threads i = some (c, stage)) : s.changes.running i = some c :=
  congrArg (Option.map Prod.fst) h

omit [DecidableEq κ] in
/-- A thread that goes on with its change is the same to the changes. -/
theorem setStage_changes (hi : s.threads i = some (c, old)) (stage : ChangeStage) :
    (s.setStage i c stage).changes = s.changes := by
  show Changes.mk _ _ _ _ = Changes.mk _ _ _ _
  congr 1
  funext j
  show (Function.update s.threads i _ j).map Prod.fst = _
  by_cases hj : j = i
  · subst hj
    rw [Function.update_self]
    exact (running_of_thread hi).symm
  · rw [Function.update_of_ne hj]

omit [DecidableEq ι] in
theorem Inv.setObject (h : s.Inv C object) (k : κ) (o : CounterObject) :
    (s.setObject k o).Inv C object :=
  ⟨h.node, h.changes, h.fits, h.late, h.applied, h.returned⟩

omit [DecidableEq κ] in
theorem Inv.setStage (h : s.Inv C object) (hi : s.threads i = some (c, old))
    (hstage : stage.Fits C s.node (object i) c) : (s.setStage i c stage).Inv C object := by
  have hchanges := setStage_changes hi stage
  refine ⟨h.node, hchanges ▸ h.changes, ?_, hchanges ▸ h.late, hchanges ▸ h.applied, h.returned⟩
  intro j c' stage' hj
  rcases thread_of_update hj with ⟨rfl, hnew⟩ | ⟨-, hold⟩
  · cases hnew
    exact hstage
  · exact h.fits j c' stage' hold

theorem Inv.setRaised (h : s.Inv C object) (hi : s.threads i = some (c, old)) (k : κ) (e : Exn) :
    (s.setRaised k i c e).Inv C object := by
  unfold Counting.setRaised
  split
  · exact (h.setObject k _).setStage hi trivial
  · exact h.setStage hi trivial

omit [DecidableEq κ] [DecidableEq ι] in
theorem fits_serve {n : CounterNode} {k : κ} {r : CounterRequest} (hn : n.Sound C)
    (h : stage.Fits C n k c) : stage.Fits C (n.serve r).1 k c := by
  cases stage with
  | adding read version => exact ⟨h.1.serve, h.2.serve hn h.1⟩
  | setting u => exact ⟨h.1, h.2.serve hn⟩
  | answered u reply => exact ⟨h.1, h.2.1.serve hn, fun hreply => applied_subset_serve (h.2.2 hreply)⟩
  | _ => trivial

omit [DecidableEq κ] [DecidableEq ι] in
/-- The server carries out a request that is ready. -/
theorem Inv.serve (h : s.Inv C object) {r : CounterRequest}
    (hr : ∀ u, r = .set u → s.changes.Known u.change ∧ s.node.Ready C u) :
    { s with node := (s.node.serve r).1 }.Inv C object where
  node := h.node.serve fun u hu => (hr u hu).2
  changes := h.changes
  fits := fun i c stage hi => fits_serve h.node (h.fits i c stage hi)
  late := fun u hu => ⟨(h.late u hu).1, (h.late u hu).2.serve h.node⟩
  applied := by
    intro u hu
    rcases mem_applied_serve hu with hu | hu
    · exact h.applied u hu
    · exact (hr u hu).1
  returned := fun r hr =>
    ⟨(h.returned r hr).1.serve h.node, applied_subset_serve (h.returned r hr).2.1, (h.returned r hr).2.2⟩

omit [DecidableEq κ] [DecidableEq ι] in
theorem Inv.withLate (h : s.Inv C object) {late : List CounterRequest}
    (hlate : ∀ u, .set u ∈ late → s.changes.Known u.change ∧ s.node.Ready C u) :
    { s with late := late }.Inv C object :=
  ⟨h.node, h.changes, h.fits, hlate, h.applied, h.returned⟩

omit [DecidableEq κ] in
theorem Inv.start (h : s.Inv C object) (hi : s.threads i = none) (value : Int)
    (hstage : stage.Fits C s.node (object i) ⟨s.next, value⟩) :
    ({ s with next := s.next + 1 }.setStage i ⟨s.next, value⟩ stage).Inv C object := by
  have hrunning : s.changes.running i = none := congrArg (Option.map Prod.fst) hi
  have hchanges : ({ s with next := s.next + 1 }.setStage i ⟨s.next, value⟩ stage).changes =
      s.changes.start i value := by
    show Changes.mk _ _ _ _ = Changes.mk _ _ _ _
    congr 1
    funext j
    show (Function.update s.threads i _ j).map Prod.fst = _
    exact (Function.apply_update (fun _ => Option.map Prod.fst) s.threads i _ j)
  refine ⟨h.node, hchanges ▸ h.changes.start value, ?_, ?_, ?_, h.returned⟩
  · intro j c' stage' hj
    rcases thread_of_update hj with ⟨rfl, hnew⟩ | ⟨-, hold⟩
    · cases hnew
      exact hstage
    · exact h.fits j c' stage' hold
  · rw [hchanges]
    exact fun u hu => ⟨(h.late u hu).1.start hrunning value, (h.late u hu).2⟩
  · rw [hchanges]
    exact fun u hu => (h.applied u hu).start hrunning value

omit [DecidableEq κ] in
theorem leave_changes (s : Counting κ ι) (i : ι) (returned : List Returned) (raised : List Change) :
    { s with
      threads := Function.update s.threads i none
      returned := returned
      raised := raised }.changes = s.changes.leave i (returned.map (·.update.change)) raised := by
  show Changes.mk _ _ _ _ = Changes.mk _ _ _ _
  congr 1
  funext j
  exact Function.apply_update (fun _ => Option.map Prod.fst) s.threads i none j

omit [DecidableEq κ] in
theorem Inv.giveUp (h : s.Inv C object) (hi : s.threads i = some (c, stage)) :
    { s with threads := Function.update s.threads i none, raised := c :: s.raised }.Inv C object := by
  have hchanges := leave_changes s i s.returned (c :: s.raised)
  have hrunning := running_of_thread hi
  have hknown : ∀ c', s.changes.Known c' →
      (s.changes.leave i (s.returned.map (·.update.change)) (c :: s.raised)).Known c' :=
    fun c' => Changes.Known.leave hrunning (.inr (List.mem_cons_self ..)) (List.Subset.refl _)
      (List.subset_cons_self _ _)
  refine ⟨h.node, ?_, ?_, ?_, ?_, h.returned⟩
  · rw [hchanges]
    exact h.changes.leave hrunning (List.subset_cons_self _ _) (List.Subset.refl _) h.changes.nodup
  · intro j c' stage' hj
    rcases thread_of_update hj with ⟨-, hnew⟩ | ⟨-, hold⟩
    · cases hnew
    · exact h.fits j c' stage' hold
  · rw [hchanges]
    exact fun u hu => ⟨hknown _ (h.late u hu).1, (h.late u hu).2⟩
  · rw [hchanges]
    exact fun u hu => hknown _ (h.applied u hu)

omit [DecidableEq κ] in
theorem Inv.finish (h : s.Inv C object) {u : Update} {preValue : Option Int}
    (hi : s.threads i = some (c, .answered u none)) (hpre : preValue = some u.pre) :
    { s with
      threads := Function.update s.threads i none
      returned := ⟨u, preValue⟩ :: s.returned }.Inv C object := by
  have hchanges := leave_changes s i (⟨u, preValue⟩ :: s.returned) s.raised
  have hrunning := running_of_thread hi
  obtain ⟨rfl, hready, happlied⟩ := h.fits i c _ hi
  have hknown : ∀ c', s.changes.Known c' →
      (s.changes.leave i (u.change :: s.returned.map (·.update.change)) s.raised).Known c' :=
    fun c' => Changes.Known.leave hrunning (.inl (List.mem_cons_self ..)) (List.subset_cons_self _ _)
      (List.Subset.refl _)
  refine ⟨h.node, ?_, ?_, ?_, ?_, ?_⟩
  · rw [hchanges]
    exact h.changes.leave hrunning (List.Subset.refl _) (List.subset_cons_self _ _)
      (List.nodup_cons.mpr ⟨h.changes.apart i _ hrunning, h.changes.nodup⟩)
  · intro j c' stage' hj
    rcases thread_of_update hj with ⟨-, hnew⟩ | ⟨-, hold⟩
    · cases hnew
    · exact h.fits j c' stage' hold
  · rw [hchanges]
    exact fun w hw => ⟨hknown _ (h.late w hw).1, (h.late w hw).2⟩
  · rw [hchanges]
    exact fun w hw => hknown _ (h.applied w hw)
  · intro r hr
    rcases List.mem_cons.mp hr with rfl | hr
    · exact ⟨hready, happlied rfl, hpre⟩
    · exact h.returned r hr

/-! ## Steps and runs -/

omit [DecidableEq κ] [DecidableEq ι] in
theorem fits_entered (n : CounterNode) (k : κ) (c : Change) (o : CounterObject) :
    (entered o).Fits C n k c := by
  unfold entered
  split <;> trivial

theorem Inv.get (h : s.Inv C object) {data : Bytes} {version : Nat}
    (hok : s.Undisturbed object (.get i data version))
    (hstep : s.step C object (.get i data version) = some s') : s'.Inv C object := by
  simp only [step] at hstep
  split at hstep
  · next c hi =>
    split at hstep
    · next hmem =>
      simp only [Undisturbed, hi] at hok
      split at hstep
      · cases hstep
        exact h.setStage hi trivial
      · next value hread =>
        cases hstep
        exact (h.setObject _ _).setStage hi ⟨⟨data, hmem, hread⟩, hok⟩
    · cases hstep
  · cases hstep

theorem Inv.add (h : s.Inv C object) (hok : s.Undisturbed object (.add i))
    (hstep : s.step C object (.add i) = some s') : s'.Inv C object := by
  simp only [step] at hstep
  split at hstep
  · next c read version hi =>
    simp only [Undisturbed, hi] at hok
    rw [hok] at hstep
    obtain ⟨hheld, hwithout⟩ := h.fits i c _ hi
    dsimp only at hstep
    split at hstep
    · cases hstep
      exact h.setStage hi trivial
    · next data hdata =>
      cases hstep
      have hread : ∀ k, C.read k data = .ok (read + c.value) :=
        fun k => counterValue_counterData hdata (C.default k)
      exact h.setStage hi ⟨rfl, ⟨object i, hheld⟩, rfl, hread, hwithout⟩
  · cases hstep

theorem Inv.serveSet (h : s.Inv C object) (hstep : s.step C object (.serveSet i) = some s') :
    s'.Inv C object := by
  simp only [step] at hstep
  split at hstep
  · next c u hi =>
    cases hstep
    obtain ⟨rfl, hready⟩ := h.fits i c _ hi
    have hserved : { s with node := (s.node.serve (.set u)).1 }.Inv C object := by
      apply h.serve
      intro u' hu'
      cases hu'
      exact ⟨.inl ⟨i, running_of_thread hi⟩, hready⟩
    apply hserved.setStage hi
    exact ⟨rfl, hready.serve h.node, mem_applied_of_reply⟩
  · cases hstep

theorem Inv.fail (h : s.Inv C object) {e : Exn} (hstep : s.step C object (.fail i e) = some s') :
    s'.Inv C object := by
  simp only [step] at hstep
  split at hstep
  · next c hi =>
    cases hstep
    have hlate : { s with late := .create :: s.late }.Inv C object := by
      apply h.withLate
      intro u hu
      rcases List.mem_cons.mp hu with hu | hu
      · cases hu
      · exact h.late u hu
    exact hlate.setStage hi trivial
  · next c hi =>
    cases hstep
    exact h.setStage hi trivial
  · next c u hi =>
    cases hstep
    obtain ⟨rfl, hready⟩ := h.fits i c _ hi
    have hlate : { s with late := .set u :: s.late }.Inv C object := by
      apply h.withLate
      intro u' hu'
      rcases List.mem_cons.mp hu' with hu' | hu'
      · cases hu'
        exact ⟨.inl ⟨i, running_of_thread hi⟩, hready⟩
      · exact h.late u' hu'
    exact hlate.setRaised hi _ e
  · next c u reply hi =>
    cases hstep
    exact h.setRaised hi _ e
  · cases hstep

theorem Inv.serveLate (h : s.Inv C object) {n : Nat}
    (hstep : s.step C object (.serveLate n) = some s') : s'.Inv C object := by
  simp only [step] at hstep
  split at hstep
  · next r hr =>
    cases hstep
    have hlate : { s with late := s.late.eraseIdx n }.Inv C object :=
      h.withLate fun u hu => h.late u (List.mem_of_mem_eraseIdx hu)
    apply hlate.serve
    intro u hu
    exact h.late u (hu ▸ List.mem_of_getElem? hr)
  · cases hstep

/-- Every step that meets the condition keeps the invariant. -/
theorem Inv.step (h : s.Inv C object) {act : CounterAct ι} (hok : s.Undisturbed object act)
    (hstep : s.step C object act = some s') : s'.Inv C object := by
  cases act with
  | get i data version => exact h.get hok hstep
  | add i => exact h.add hok hstep
  | serveSet i => exact h.serveSet hstep
  | fail i e => exact h.fail hstep
  | serveLate n => exact h.serveLate hstep
  | start i value =>
    simp only [Counting.step] at hstep
    split at hstep
    · next hi =>
      cases hstep
      exact h.start hi value (fits_entered _ _ _ _)
    · cases hstep
  | serveCreate i =>
    simp only [Counting.step] at hstep
    split at hstep
    · cases hstep
      exact h.serve nofun
    · cases hstep
  | ensured i =>
    simp only [Counting.step] at hstep
    split at hstep
    · next c hi =>
      split at hstep <;> cases hstep
      exact (h.setObject _ _).setStage hi trivial
    · cases hstep
  | finish i =>
    simp only [Counting.step] at hstep
    split at hstep
    · next c u hi =>
      cases hstep
      simp only [Undisturbed, hi] at hok
      exact (h.setObject _ _).finish hi hok
    · next c u e hi =>
      cases hstep
      exact h.setRaised hi _ e
    · cases hstep
  | again i =>
    simp only [Counting.step] at hstep
    split at hstep
    · next c e hi =>
      split at hstep <;> cases hstep
      exact h.setStage hi (fits_entered _ _ _ _)
    · cases hstep
  | giveUp i =>
    simp only [Counting.step] at hstep
    split at hstep
    · next c e hi =>
      cases hstep
      exact h.giveUp hi
    · cases hstep

omit [DecidableEq κ] [DecidableEq ι] in
theorem inv_new : (new C : Counting κ ι).Inv C object where
  node := {
    versions := by
      show (C.node.toList).Pairwise _
      cases C.node with
      | none => exact .nil
      | some x => exact List.pairwise_singleton _ _
    applied := nofun
    once := .nil
    value := fun k => by
      show C.read k (C.node.toList.head?.map Prod.fst |>.getD []) = .ok (C.initial + 0)
      rw [Option.head?_toList, Int.add_zero]
      exact C.readable k }
  changes := ⟨by rintro c (⟨i, hi⟩ | hc | hc) <;> contradiction, nofun, nofun, .nil⟩
  fits := nofun
  late := nofun
  applied := nofun
  returned := nofun

theorem Inv.of_reach (h : (counting C object).Reach (Undisturbed object) s) : s.Inv C object := by
  apply h.invariant inv_new
  intro s act _ hinv henabled hok
  obtain ⟨s', hs'⟩ := Option.isSome_iff_exists.mp henabled
  show ((s.step C object act).getD s).Inv C object
  rw [hs']
  exact hinv.step hok hs'

omit [DecidableEq κ] [DecidableEq ι] in
theorem Inv.exactlyOnce (h : s.Inv C object) : s.ExactlyOnce C where
  value := by
    have hcounted : ∀ c ∈ s.changes.returned, c ∈ s.node.applied.map Update.change := by
      intro c hc
      obtain ⟨r, hr, rfl⟩ := List.mem_map.mp hc
      exact List.mem_map_of_mem (h.returned r hr).2.1
    -- the others are the updates of the node whose changes have not returned
    let others := (s.node.applied.map Update.change).filter (· ∉ s.changes.returned)
    have hnodup : (s.changes.returned ++ others).Nodup := by
      apply List.Nodup.append h.changes.nodup (h.node.once.filter _)
      intro c hc hother
      exact of_decide_eq_true (List.mem_filter.mp hother).2 hc
    have hperm : List.Perm (s.changes.returned ++ others) (s.node.applied.map Update.change) := by
      apply (List.perm_ext_iff_of_nodup hnodup h.node.once).mpr
      intro c
      rw [List.mem_append, List.mem_filter, decide_eq_true_eq]
      constructor
      · rintro (hc | ⟨hc, -⟩)
        · exact hcounted c hc
        · exact hc
      · intro hc
        by_cases hreturned : c ∈ s.changes.returned
        · exact .inl hreturned
        · exact .inr ⟨hc, hreturned⟩
    refine ⟨others, ?_, hnodup, ?_⟩
    · intro c hc
      obtain ⟨hc, hnot⟩ := List.mem_filter.mp hc
      obtain ⟨u, hu, rfl⟩ := List.mem_map.mp hc
      rcases h.applied u hu with ⟨i, hi⟩ | hreturned | hraised
      · obtain ⟨⟨c, stage⟩, hthread, rfl⟩ := Option.map_eq_some_iff.mp hi
        exact .inr ⟨i, stage, hthread⟩
      · exact absurd hreturned (of_decide_eq_true hnot)
      · exact .inl hraised
    · intro k
      rw [h.node.value k]
      have hsum := (hperm.map Change.value).sum_eq
      rw [List.map_map] at hsum
      exact congrArg (fun sum => Except.ok (C.initial + sum)) hsum.symm
  written := by
    intro r hr
    obtain ⟨hready, happlied, hpre⟩ := h.returned r hr
    refine ⟨r.update.pre, hpre, h.node.applied _ happlied, fun k => ?_⟩
    rw [hready.data k, hready.post]

end Invariant

/-- Two objects, and no node yet. -/
def twoCounters : Counters Bool where
  supportCurator := false
  default := fun _ => 0
  node := none
  initial := 0
  readable := fun _ => rfl

/-- Both have read the empty node; the second one's `client.set` is refused and it tries again. -/
def conflict : List (CounterAct Bool) :=
  [.start false 2, .start true (-1), .serveCreate false, .ensured false, .ensured true,
    .get false [] 0, .get true [] 0, .add false, .add true, .serveSet false, .serveSet true,
    .finish false, .finish true, .again true, .get true [50] 1, .add true, .serveSet true,
    .finish true]

/-- The server carries the first `client.set` out and its reply is lost. -/
def lostReply : List (CounterAct Bool) :=
  [.start true 1, .serveCreate true, .ensured true, .get true [] 0, .add true, .serveSet true,
    .fail true .connectionLoss, .again true, .get true [49] 1, .add true, .serveSet true,
    .finish true]

end Counting

end Kazoo
