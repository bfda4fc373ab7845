import Kazoo.EnsurePath
import Kazoo.IntText
import Kazoo.Protocol.RoundTrip
import Kazoo.Recipe.SemaphoreCapacity

/-!
# Semaphores of different sizes on one path

`Semaphore._ensure_path` of `kazoo/recipe/lock.py`, with `max_leases` written to the node of the
semaphore by one request and compared with the data of the node by another, while other threads are
at their own calls of `acquire`.  No request fails.
-/

namespace Kazoo

/-- Semaphores on a path, each with a `max_leases` of its own in place of the common one. -/
structure SizedSemaphores (σ θ ι : Type) extends Semaphores σ θ ι where
  size : σ → Int
  -- the chroot that the clients have in common, and `self.path`
  root : Client
  path : PyStr

/-- The node of the semaphore. -/
def SizedSemaphores.place {σ θ ι : Type} (S : SizedSemaphores σ θ ι) : NodePath :=
  S.root.nodePath S.path

/-- `client.set`. -/
def ServerTree.write (t : ServerTree) (p : NodePath) (value : Bytes) : ServerTree where
  node q := if q = p then (t.node p).map fun n => { n with value := some value } else t.node q
  root := by
    split
    · next h =>
      rw [← h]
      exact fun heq => t.root (Option.map_eq_none_iff.mp heq)
    · exact t.root
  parent q hq hnode := by
    have hthere : t.node q ≠ none := by
      split at hnode
      · next h =>
        rw [h]
        exact fun heq => hnode (by rw [heq]; rfl)
      · exact hnode
    obtain ⟨m, hm, heph⟩ := t.parent q hq hthere
    by_cases hqp : q.dropLast = p
    · refine ⟨{ m with value := some value }, ?_, heph⟩
      rw [if_pos hqp, ← hqp, hm]
      rfl
    · exact ⟨m, by rw [if_neg hqp, hm], heph⟩

/-- `int(data.decode("utf-8"))`, where that is a number. -/
def storedLeases (data : Bytes) : Option Int :=
  match data.decode with
  | .ok text => (intOfText text).toOption
  | .error _ => none

theorem storedLeases_encode {n : Int} {data : Bytes} (h : (reprInt n).encode = .ok data) :
    storedLeases data = some n := by
  rw [storedLeases, PyStr.decode_encode h]
  dsimp only
  rw [intOfText_reprInt]
  rfl

/-- The path that `create` returns is not `True`. -/
def Ensuring.existed (c : Client) (s : Ensuring) : Bool :=
  match s.stage with
  | .creating path _ => !(c.createOnly path ⟨some [], false⟩ s.tree).1.isOk
  | _ => true

/-! ## The server and all semaphores -/

/-- `pool` has the threads, the locks and the leases.  A read takes any state of the other nodes that
there has been, which allows more than the server does. -/
structure SizedPool {σ θ ι : Type} (S : SizedSemaphores σ θ ι) where
  pool : Pool S.toSemaphores
  tree : ServerTree
  -- the latest first
  before : List ServerTree
  -- where a thread is in `client.ensure_path`
  ensures : θ → EnsureStage
  -- how calls of `_inner_acquire` have ended, the last first
  ends : List (σ × Ending)

/-- The steps. -/
inductive SizedAct {σ θ ι : Type} (S : SizedSemaphores σ θ ι)
  -- where `max_leases` does not matter
  | pool (act : SemaphoreAct S.toSemaphores)
  -- the server answers the request of `client.ensure_path`
  | answer (i : θ) (place : Nat)
  -- `client.get` in `_ensure_path`
  | get (i : θ) (place : Nat)
  -- `client.set` in `_ensure_path`
  | set (i : θ)
  -- `client.get_children` in `_get_lease`
  | count (i : θ) (place : Nat)

/-- The steps of the pool that neither look at `max_leases` nor fail. -/
def SemaphoreAct.unsized {σ θ ι : Type} {S : Semaphores σ θ ι} : SemaphoreAct S → Bool
  | .ensure .. | .check .. | .store _ | .count .. | .fail .. => false
  | _ => true

namespace SizedPool

variable {σ θ ι : Type} {S : SizedSemaphores σ θ ι}

def new (S : SizedSemaphores σ θ ι) (t : ServerTree) : SizedPool S where
  pool := .new
  tree := t
  before := []
  ensures := fun _ => .done (.ok ())
  ends := []

/-- A state of the other nodes that there has been. -/
def shown? (s : SizedPool S) (place : Nat) : Option ServerTree := (s.tree :: s.before)[place]?

/-- The server carries out a write. -/
def setTree (s : SizedPool S) (t : ServerTree) : SizedPool S :=
  { s with tree := t, before := s.tree :: s.before }

variable [DecidableEq σ] [DecidableEq θ] [DecidableEq ι]

/-- The call of `_inner_acquire` that ends by a step of the pool. -/
def ending? (s : Pool S.toSemaphores) : SemaphoreAct S.toSemaphores → Option (σ × Ending)
  | .look i place =>
    match s.shown? (S.client (S.object i)) place with
    | some (_, leases) => if S.object i ∈ leases then some (S.object i, .returned true) else none
    | none => none
  | .freed i e =>
    match s.threads i with
    | .freeing _ ending => some (S.object i, match e with
      | none => ending
      | some e => .raised e)
    | _ => none
  | _ => none

/-- `client.ensure_path` is called where `_ensure_path` is. -/
def starts (s : SizedPool S) : SemaphoreAct S.toSemaphores → θ → EnsureStage
  | .attempt i => Function.update s.ensures i (.asking S.path [])
  | _ => s.ensures

/-- `client.ensure_path` goes on, or is over and returns. -/
def ensured (s : SizedPool S) (i : θ) (existed : Bool) : EnsureStage → Option (SizedPool S)
  | .done (.ok ()) =>
    match s.pool.step (.ensure i existed) with
    | some pool => some { s with pool := pool }
    | none => none
  | .done (.error _) => none
  | stage => some { s with ensures := Function.update s.ensures i stage }

def step (s : SizedPool S) : SizedAct S → Option (SizedPool S)
  | .pool act =>
    if act.unsized then
      match s.pool.step act with
      | some pool => some { s with
          pool := pool
          ensures := s.starts act
          ends := (ending? s.pool act).toList ++ s.ends }
      | none => none
    else none
  | .answer i place =>
    if s.pool.threads i = .ensuring then
      match s.ensures i with
      | .asking path pending =>
        match s.shown? place with
        | some t =>
          s.ensured i true (Ensuring.answer S.root ⟨t, .asking path pending, 0⟩).stage
        | none => none
      | .creating path pending =>
        let now : Ensuring := ⟨s.tree, .creating path pending, 0⟩
        (s.setTree (now.answer S.root).tree).ensured i (now.existed S.root) (now.answer S.root).stage
      | .done _ => none
    else none
  | .get i place =>
    if s.pool.threads i = .checking then
      match s.shown? place with
      | some t =>
        match t.node S.place with
        | some ⟨some data, _⟩ =>
          match storedLeases data with
          | some leases =>
            if leases = S.size (S.object i) then
              some { s with pool := s.pool.setStage i .looking }
            else
              some { s with
                pool := s.pool.finish i (.raised .valueError)
                ends := (S.object i, .raised .valueError) :: s.ends }
          -- data that is no number is ignored
          | none => some { s with pool := s.pool.setStage i .looking }
        | _ => none
      | none => none
    else none
  | .set i =>
    if s.pool.threads i = .storing then
      match (reprInt (S.size (S.object i))).encode with
      | .ok data =>
        some { s.setTree (s.tree.write S.place data) with pool := s.pool.setStage i .looking }
      | .error _ => none
    else none
  | .count i place =>
    match s.pool.threads i with
    | .counting l =>
      if (s.pool.objects (S.object i)).cancelled then
        some { s with pool := s.pool.setStage i (.unlocking l (.raised .cancelledError)) }
      else match s.pool.shown? (S.client (S.object i)) place with
      | some (_, leases) =>
        let stage : SemaphoreStage ι :=
          if (leases.length : Int) < S.size (S.object i) then .creating l else .confirming l
        some { s with pool := (s.pool.see (S.client (S.object i)) place).setStage i stage }
      | none => none
    | _ => none

end SizedPool

/-- All interleavings, from a tree without the node of the semaphore or with it. -/
def sizing {σ θ ι : Type} [DecidableEq σ] [DecidableEq θ] [DecidableEq ι]
    (S : SizedSemaphores σ θ ι) (t : ServerTree) : Machine (SizedPool S) (SizedAct S) where
  init := .new S t
  enabled := fun s act => (s.step act).isSome
  post := fun s act => (s.step act).getD s

instance {σ θ ι : Type} [DecidableEq σ] [DecidableEq θ] [DecidableEq ι]
    (S : SizedSemaphores σ θ ι) (t : ServerTree) (s : SizedPool S) (act : SizedAct S) :
    Decidable ((sizing S t).enabled s act) :=
  inferInstanceAs (Decidable ((s.step act).isSome = true))

/-! ## How threads get past `_ensure_path` -/

/-- Where a thread is, seen from `_ensure_path`. -/
inductive SemaphorePhase
  | outside
  | ensuring
  | checking
  | storing
  -- past it, in the same call of `acquire`
  | inside
  deriving DecidableEq

def SemaphoreStage.phase {ι : Type} : SemaphoreStage ι → SemaphorePhase
  | .ensuring => .ensuring
  | .checking => .checking
  | .storing => .storing
  | .idle | .attempting | .cleaning | .releasing | .deleting | .resting => .outside
  | _ => .inside

namespace Pool

variable {σ θ ι : Type} {S : Semaphores σ θ ι} {s s' t : Pool S} {i : θ}

/-- No thread comes to `_ensure_path`, gets past it or leaves it unless by leaving `acquire`. -/
structure Drifts (s s' : Pool S) : Prop where
  assured : ∀ k, (s'.objects k).assuredPath = (s.objects k).assuredPath
  phase : ∀ j, (s'.threads j).phase = (s.threads j).phase ∨
    (s.threads j).phase = .inside ∧ (s'.threads j).phase = .outside

theorem Drifts.of_eq (hobjects : ∀ k, (s'.objects k).assuredPath = (s.objects k).assuredPath)
    (hthreads : s'.threads = s.threads) : s.Drifts s' :=
  ⟨hobjects, fun j => .inl (by rw [hthreads])⟩

variable [DecidableEq θ]

theorem Drifts.setStage {stage old : SemaphoreStage ι}
    (hobjects : ∀ k, (t.objects k).assuredPath = (s.objects k).assuredPath)
    (hthreads : t.threads = s.threads) (hi : s.threads i = old)
    (hphase : stage.phase = old.phase ∨ old.phase = .inside ∧ stage.phase = .outside) :
    s.Drifts (t.setStage i stage) := by
  refine ⟨hobjects, fun j => ?_⟩
  by_cases hne : j = i
  · rw [hne, setStage_threads_self, hi]
    exact hphase
  · rw [setStage_threads_of_ne hne, hthreads]
    exact .inl rfl

variable [DecidableEq σ]

omit [DecidableEq θ] in
theorem assuredPath_setObject (s : Pool S) (k k' : σ) (o : SemaphoreObject)
    (ho : o.assuredPath = (s.objects k').assuredPath) :
    ((s.setObject k' o).objects k).assuredPath = (s.objects k).assuredPath := by
  by_cases hk : k = k'
  · rw [hk, setObject_objects_self, ho]
  · rw [setObject_objects_of_ne hk]

theorem Drifts.finish {old : SemaphoreStage ι} {ending : Ending}
    (hobjects : ∀ k, (t.objects k).assuredPath = (s.objects k).assuredPath)
    (hthreads : t.threads = s.threads) (hi : s.threads i = old) (hold : old.phase = .inside) :
    s.Drifts (t.finish i ending) := by
  cases ending with
  | returned gotten =>
    refine Drifts.setStage (fun k => Eq.trans ?_ (hobjects k)) hthreads hi (.inr ⟨hold, rfl⟩)
    exact assuredPath_setObject _ _ _ _ rfl
  | raised e =>
    unfold Pool.finish
    dsimp only
    split
    · exact Drifts.setStage hobjects hthreads hi (.inl hold.symm)
    · split <;> exact Drifts.setStage hobjects hthreads hi (.inr ⟨hold, rfl⟩)

variable [DecidableEq ι]

omit [DecidableEq θ] [DecidableEq σ] in
theorem Drifts.lockStep {k : σ} {act : LockAct S.locks} {place : Nat}
    (hstep : s.lockStep k act place = some s') : s.Drifts s' := by
  obtain ⟨world, -, -, ⟨-, rfl | rfl⟩ | ⟨children, x, -, -, -, rfl⟩⟩ := lockStep_cases hstep
  all_goals exact .of_eq (fun _ => rfl) rfl

/-- The steps that the sizes do not matter for. -/
theorem drifts_of_step {act : SemaphoreAct S} (hunsized : act.unsized = true)
    (hattempt : ∀ i, act ≠ .attempt i) (hstep : s.step act = some s') : s.Drifts s' := by
  have hsame : ∀ k, (s.objects k).assuredPath = (s.objects k).assuredPath := fun _ => rfl
  cases steps_of_step hstep with
  | ensure | check | checkFailed | store | countCancelled | count | fail => cases hunsized
  | attempt => exact absurd rfl (hattempt _)
  | acquire hi | clean hi | delete hi =>
    exact Drifts.setStage (fun k => assuredPath_setObject _ _ _ _ rfl) rfl hi (.inl rfl)
  | look hi | make hi | locked hi | notLocked hi | lockRaised hi | createExists hi | create hi | wake hi
  | timeOut hi | unlock hi | againRelease hi | giveUpRelease hi | release hi =>
    exact Drifts.setStage hsame rfl hi (.inl rfl)
  | lookFound hi | freed hi | freedRaised hi | giveUp hi => exact Drifts.finish hsame rfl hi rfl
  | lock _ _ hlock | free _ _ hlock => exact .lockStep hlock
  | confirm hi =>
    refine Drifts.setStage (fun k => assuredPath_setObject _ _ _ _ rfl) rfl hi (.inl ?_)
    split
    · rfl
    · split <;> rfl
  | again hi => exact Drifts.setStage hsame rfl hi (.inr ⟨rfl, rfl⟩)
  | test hi => split <;> exact Drifts.setStage hsame rfl hi (.inl rfl)
  | cancel => exact .of_eq (fun k' => assuredPath_setObject _ _ _ _ rfl) rfl
  | @serveLate n r =>
    cases r with
    | createLease l =>
      unfold serve
      dsimp only
      split <;> exact .of_eq (fun _ => rfl) rfl
    | deleteLease k | deleteLock l name => exact .of_eq (fun _ => rfl) rfl
  | loseLate | serveLateNode => exact .of_eq (fun _ => rfl) rfl

end Pool

/-! ## What `ensure_path` does to the node -/

/-- What `_prefix_root` has accepted. -/
theorem Client.accepts_of_existsAsync {c : Client} {path : PyStr} {t : ServerTree} {b : Bool}
    (h : c.existsAsync path t = .ok b) :
    c.Accepts path ∧ b = (t.node (c.nodePath path)).isSome := by
  obtain ⟨wire, hwire, -⟩ := bind_eq_ok h
  have haccepts : c.Accepts path := (prefixRoot_eq_ok_iff.mp hwire).1
  rw [haccepts.existsAsync] at h
  exact ⟨haccepts, (Except.ok.inj h).symm⟩

/-- `create` says that the node is there. -/
theorem ServerTree.node_of_create {t : ServerTree} {p : NodePath} {n : StoredNode}
    (h : t.create p n = .error .nodeExistsError) : t.node p ≠ none := by
  intro hfree
  rcases create_free n hfree with ⟨t', hcreate, -⟩ | ⟨e, hother, hcreate⟩
  · rw [hcreate] at h
    cases h
  · exact hother (Except.error.inj (hcreate.symm.trans h))

namespace Ensuring

variable {c : Client} {top path : PyStr} {pending : List PyStr} {t : ServerTree}

/-- The request that is on its way is for the path or for what is above it. -/
def OnTheWay (c : Client) (top : PyStr) : EnsureStage → Prop
  | .asking path pending => Descends top path pending ∧ (pending ≠ [] → c.Accepts top)
  | .creating path pending => Descends top path pending ∧ c.Accepts top
  | .done _ => True

theorem onTheWay_ensured (h : Descends top path pending) (haccepts : pending ≠ [] → c.Accepts top)
    (result : Except Exn Unit) : OnTheWay c top (ensured result pending) := by
  cases result with
  | error e => trivial
  | ok u =>
    cases pending with
    | nil => trivial
    | cons next pending => exact ⟨h.2.2, haccepts (List.cons_ne_nil _ _)⟩

/-- It is over when nothing waits. -/
theorem ensured_eq_done {result : Except Exn Unit} (h : ensured result pending = .done (.ok ())) :
    pending = [] ∧ result = .ok () := by
  cases result with
  | error e => cases h
  | ok u =>
    cases pending with
    | nil => exact ⟨rfl, rfl⟩
    | cons next pending => cases h

/-- The answer to `exists`. -/
theorem answer_asking (h : OnTheWay c top (.asking path pending)) {stage : EnsureStage}
    (hstage : (answer c ⟨t, .asking path pending, 0⟩).stage = stage) :
    OnTheWay c top stage ∧ (stage = .done (.ok ()) → t.node (c.nodePath top) ≠ none) := by
  subst hstage
  obtain ⟨hdescends, hpending⟩ := h
  unfold answer
  dsimp only
  split
  · next e _ =>
    exact ⟨onTheWay_ensured hdescends hpending (.error e), fun hdone => by cases hdone⟩
  · next hexists =>
    refine ⟨onTheWay_ensured hdescends hpending (.ok ()), fun hdone => ?_⟩
    obtain ⟨-, hthere⟩ := Client.accepts_of_existsAsync hexists
    obtain ⟨rfl, -⟩ := ensured_eq_done hdone
    obtain rfl : path = top := hdescends
    exact Option.isSome_iff_ne_none.mp hthere.symm
  · next hexists =>
    have haccepts : c.Accepts top := by
      cases pending with
      | nil =>
        obtain rfl : path = top := hdescends
        exact (Client.accepts_of_existsAsync hexists).1
      | cons next pending => exact hpending (List.cons_ne_nil _ _)
    split
    · next htail => exact ⟨⟨⟨htail, rfl, hdescends⟩, fun _ => haccepts⟩, fun h => by cases h⟩
    · exact ⟨⟨hdescends, haccepts⟩, fun h => by cases h⟩

/-- A node above the path. -/
theorem nodePath_ne (h : Descends top path pending) (hpending : pending ≠ []) :
    c.nodePath path ≠ c.nodePath top := by
  cases pending with
  | nil => exact absurd rfl hpending
  | cons next pending =>
    obtain ⟨htail, rfl, h⟩ := h
    have hsplit := c.nodePath_split next
    rw [if_neg htail] at hsplit
    have hle := (hsplit ▸ h.prefix_nodePath (c := c)).length_le
    intro heq
    rw [← heq, List.length_append, List.length_singleton] at hle
    omega

/-- The answer to `create`, when it has made the node. -/
theorem answer_created (h : OnTheWay c top (.creating path pending)) {next : Ensuring}
    (hnext : answer c ⟨t, .creating path pending, 0⟩ = next)
    (hexisted : existed c ⟨t, .creating path pending, 0⟩ = false) :
    next.stage = ensured (.ok ()) pending ∧ t.node (c.nodePath path) = none ∧
      ∀ q, next.tree.node q = if q = c.nodePath path then some ⟨some [], false⟩ else t.node q := by
  subst hnext
  obtain ⟨wire, honly⟩ := (h.1.accepts h.2).createOnly ⟨some [], false⟩ t
  unfold existed at hexisted
  unfold answer
  dsimp only at hexisted ⊢
  rw [honly] at hexisted ⊢
  cases hcreate : t.create (c.nodePath path) ⟨some [], false⟩ with
  | error e =>
    rw [hcreate] at hexisted
    cases hexisted
  | ok t' => exact ⟨rfl, ServerTree.create_eq_ok hcreate⟩

/-- The answer to `create`, when it has not. -/
theorem answer_existed (h : OnTheWay c top (.creating path pending)) {next : Ensuring}
    (hnext : answer c ⟨t, .creating path pending, 0⟩ = next)
    (hexisted : existed c ⟨t, .creating path pending, 0⟩ = true) :
    next.tree = t ∧ OnTheWay c top next.stage ∧
      (next.stage = .done (.ok ()) → t.node (c.nodePath top) ≠ none) := by
  subst hnext
  obtain ⟨hdescends, haccepts⟩ := h
  obtain ⟨wire, honly⟩ := (hdescends.accepts haccepts).createOnly ⟨some [], false⟩ t
  unfold existed at hexisted
  unfold answer
  dsimp only at hexisted ⊢
  rw [honly] at hexisted ⊢
  cases hcreate : t.create (c.nodePath path) ⟨some [], false⟩ with
  | ok t' =>
    rw [hcreate] at hexisted
    cases hexisted
  | error e =>
    refine ⟨rfl, onTheWay_ensured hdescends (fun _ => haccepts) _, fun hdone => ?_⟩
    obtain ⟨rfl, hresult⟩ := ensured_eq_done hdone
    obtain rfl : path = top := hdescends
    apply ServerTree.node_of_create
    rw [hcreate]
    by_contra hother
    have hne : e ≠ .nodeExistsError := fun heq => hother (by rw [heq])
    cases (if_neg hne).symm.trans hresult

end Ensuring

namespace SizedPool

variable {σ θ ι : Type} {S : SizedSemaphores σ θ ι} {s s' : SizedPool S} {n : Int}

/-- Of two semaphores of different sizes at most one is ever acquired; when calls of both are over,
one of them has raised a `ValueError`. -/
def Detected (s : SizedPool S) : Prop := ∀ k k', S.size k ≠ S.size k' →
  ¬ ((k, .returned true) ∈ s.ends ∧ (k', .returned true) ∈ s.ends) ∧
    ∀ e e', (k, e) ∈ s.ends → (k', e') ∈ s.ends →
      (k, .raised .valueError) ∈ s.ends ∨ (k', .raised .valueError) ∈ s.ends

/-- `client.get` finds the size, which whoever created the node has stored. -/
def Published (s : SizedPool S) : SizedAct S → Prop
  | .get _ place => ∀ t ∈ s.shown? place, ∀ x ∈ t.node S.place, x.value ≠ some []
  | _ => True

/-- A call that leaves out `_ensure_path` is for a semaphore that no call is checking and that no call
has refused. -/
def Checked (s : SizedPool S) : SizedAct S → Prop
  | .pool (.attempt i) => (s.pool.objects (S.object i)).assuredPath = true →
      (S.object i, .raised .valueError) ∉ s.ends ∧
        ∀ j, S.object j = S.object i → s.pool.threads j ≠ .checking
  | _ => True

/-- Before the node is created. -/
structure Untouched (s : SizedPool S) : Prop where
  absent : ∀ t ∈ s.tree :: s.before, t.node S.place = none
  phase : ∀ i, (s.pool.threads i).phase = .outside ∨ (s.pool.threads i).phase = .ensuring
  onTheWay : ∀ i, (s.pool.threads i).phase = .ensuring → Ensuring.OnTheWay S.root S.path (s.ensures i)
  assured : ∀ k, (s.pool.objects k).assuredPath = false
  ends : s.ends = []

/-- What is read from the node, once it is there: nothing yet, or `n`. -/
def Reads (n : Int) (t : ServerTree) (S : SizedSemaphores σ θ ι) : Prop :=
  ∀ x, t.node S.place = some x → x.value = some [] ∨ ∃ data, x.value = some data ∧
    storedLeases data = some n

/-- After a semaphore of size `n` has created the node. -/
structure Agreed (s : SizedPool S) (n : Int) : Prop where
  present : s.tree.node S.place ≠ none
  reads : ∀ t ∈ s.tree :: s.before, Reads n t S
  onTheWay : ∀ i, (s.pool.threads i).phase = .ensuring → Ensuring.OnTheWay S.root S.path (s.ensures i)
  size : ∀ i, (s.pool.threads i).phase = .storing ∨ (s.pool.threads i).phase = .inside →
    S.size (S.object i) = n
  assured : ∀ k, (s.pool.objects k).assuredPath = true → S.size k = n ∨
    (∃ i, S.object i = k ∧ (s.pool.threads i).phase = .checking) ∨ (k, .raised .valueError) ∈ s.ends
  ends : ∀ x ∈ s.ends, S.size x.1 = n ∨ x.2 = .raised .valueError

theorem Untouched.detected (h : s.Untouched) : s.Detected := by
  intro k k' _
  rw [h.ends]
  exact ⟨fun hmem => List.not_mem_nil hmem.1, fun e e' hmem => absurd hmem List.not_mem_nil⟩

theorem Agreed.detected (h : s.Agreed n) : s.Detected := by
  intro k k' hne
  constructor
  · rintro ⟨hk, hk'⟩
    have hsize := (h.ends _ hk).resolve_right Ending.noConfusion
    have hsize' := (h.ends _ hk').resolve_right Ending.noConfusion
    exact hne (hsize.trans hsize'.symm)
  · intro e e' hk hk'
    rcases h.ends _ hk with hsize | rfl
    · rcases h.ends _ hk' with hsize' | rfl
      · exact absurd (hsize.trans hsize'.symm) hne
      · exact .inr hk'
    · exact .inl hk

theorem untouched_new {t : ServerTree} (h : t.node S.place = none) : (new S t).Untouched where
  absent := fun _ ht => List.mem_singleton.mp ht ▸ h
  phase := fun _ => .inl rfl
  onTheWay := fun _ hphase => SemaphorePhase.noConfusion hphase
  assured := fun _ => rfl
  ends := rfl

/-! ## Steps of the pool -/

variable [DecidableEq σ] [DecidableEq θ] [DecidableEq ι]

/-- The call that ends has got past `_ensure_path`. -/
theorem inside_of_ending {p p' : Pool S.toSemaphores} {act : SemaphoreAct S.toSemaphores}
    (hstep : p.step act = some p') {x : σ × Ending} (hx : ending? p act = some x) :
    ∃ i, S.object i = x.1 ∧ (p.threads i).phase = .inside := by
  cases act
  case look i place =>
    simp only [Pool.step] at hstep
    split at hstep
    · next hi =>
      simp only [ending?] at hx
      split at hx
      · split at hx <;> cases hx
        exact ⟨i, rfl, by rw [hi]; rfl⟩
      · cases hx
    · cases hstep
  case freed i e =>
    simp only [ending?] at hx
    split at hx
    · next hi =>
      cases hx
      exact ⟨i, rfl, by rw [hi]; rfl⟩
    · cases hx
  all_goals cases hx

omit [DecidableEq σ] [DecidableEq ι] in
theorem starts_of_ne {act : SemaphoreAct S.toSemaphores} (h : ∀ i, act ≠ .attempt i) :
    s.starts act = s.ensures := by
  cases act
  case attempt i => exact absurd rfl (h i)
  all_goals rfl

omit [DecidableEq σ] [DecidableEq ι] in
/-- A request of one thread. -/
theorem onTheWay_update {i j : θ} {stage : EnsureStage}
    (hway : Ensuring.OnTheWay S.root S.path stage)
    (h : j ≠ i → Ensuring.OnTheWay S.root S.path (s.ensures j)) :
    Ensuring.OnTheWay S.root S.path (Function.update s.ensures i stage j) := by
  by_cases hne : j = i
  · rw [hne, Function.update_self]
    exact hway
  · rw [Function.update_of_ne hne]
    exact h hne

omit [DecidableEq σ] [DecidableEq ι] in
/-- `ensure_path` starts with the path itself. -/
theorem onTheWay_starts (h : ∀ j, (s.pool.threads j).phase = .ensuring →
      Ensuring.OnTheWay S.root S.path (s.ensures j)) {i : θ} {stage : SemaphoreStage ι} (j : θ)
    (hphase : ((s.pool.setStage i stage).threads j).phase = .ensuring) :
    Ensuring.OnTheWay S.root S.path (s.starts (.attempt i) j) := by
  refine onTheWay_update ⟨rfl, fun hnil => absurd rfl hnil⟩ fun hne => ?_
  rw [Pool.setStage_threads_of_ne hne] at hphase
  exact h j hphase

omit [DecidableEq σ] [DecidableEq θ] [DecidableEq ι] in
/-- Threads that drift. -/
theorem Agreed.drift (h : s.Agreed n) {pool : Pool S.toSemaphores} (hdrifts : s.pool.Drifts pool)
    {ends : List (σ × Ending)} (hsub : s.ends ⊆ ends)
    (hends : ∀ x ∈ ends, x ∈ s.ends ∨ ∃ i, S.object i = x.1 ∧ (s.pool.threads i).phase = .inside) :
    { s with pool := pool, ends := ends }.Agreed n where
  present := h.present
  reads := h.reads
  onTheWay i hphase := by
    rcases hdrifts.phase i with heq | ⟨-, hout⟩
    · exact h.onTheWay i (heq ▸ hphase)
    · rw [show _ = SemaphorePhase.ensuring from hphase] at hout
      cases hout
  size i hphase := by
    rcases hdrifts.phase i with heq | ⟨-, hout⟩
    · exact h.size i (heq ▸ hphase)
    · rw [hout] at hphase
      exact absurd hphase (by decide)
  assured k hassured := by
    rw [hdrifts.assured] at hassured
    rcases h.assured k hassured with hsize | ⟨i, hi, hphase⟩ | hrefused
    · exact .inl hsize
    · rcases hdrifts.phase i with heq | ⟨hin, -⟩
      · exact .inr (.inl ⟨i, hi, heq.trans hphase⟩)
      · rw [hphase] at hin
        cases hin
    · exact .inr (.inr (hsub hrefused))
  ends x hx := by
    rcases hends x hx with hold | ⟨i, hi, hphase⟩
    · exact h.ends x hold
    · exact .inl (hi ▸ h.size i (.inr hphase))

/-- A thread does not come to `_ensure_path` with the node there unless by a call of its own. -/
theorem Agreed.pool (h : s.Agreed n) {act : SemaphoreAct S.toSemaphores}
    (hchecked : s.Checked (.pool act)) (hunsized : act.unsized = true)
    {pool : Pool S.toSemaphores} (hstep : s.pool.step act = some pool) :
    { s with
      pool := pool
      ensures := s.starts act
      ends := (ending? s.pool act).toList ++ s.ends }.Agreed n := by
  by_cases hattempt : ∃ i, act = .attempt i
  · obtain ⟨i, rfl⟩ := hattempt
    simp only [Pool.step] at hstep
    obtain ⟨hi, hpool⟩ := Option.ite_none_right_eq_some.mp hstep
    cases hpool
    have hother : ∀ j, j ≠ i → ∀ stage : SemaphoreStage ι,
        (s.pool.setStage i stage).threads j = s.pool.threads j :=
      fun j hne stage => Pool.setStage_threads_of_ne hne _ _
    refine ⟨h.present, h.reads, fun j hphase => ?_, fun j hphase => ?_, fun k hassured => ?_, h.ends⟩
    · exact onTheWay_starts h.onTheWay j hphase
    · by_cases hne : j = i
      · subst hne
        have hphase : ((s.pool.setStage j _).threads j).phase = .storing ∨
            ((s.pool.setStage j _).threads j).phase = .inside := hphase
        rw [Pool.setStage_threads_self] at hphase
        split at hphase
        · next hassured =>
          -- the call leaves out `_ensure_path`
          obtain ⟨hrefused, hchecking⟩ := hchecked hassured
          rcases h.assured _ hassured with hsize | ⟨j', hj', hphase'⟩ | hmem
          · exact hsize
          · refine absurd ?_ (hchecking j' hj')
            revert hphase'
            cases s.pool.threads j' <;> simp [SemaphoreStage.phase]
          · exact absurd hmem hrefused
        · rcases hphase with hphase | hphase <;> cases hphase
      · exact h.size j (hother j hne _ ▸ hphase)
    · rcases h.assured k hassured with hsize | ⟨j, hj, hphase⟩ | hmem
      · exact .inl hsize
      · have hne : j ≠ i := by
          rintro rfl
          rw [hi] at hphase
          cases hphase
        exact .inr (.inl ⟨j, hj, (congrArg _ (hother j hne _)).trans hphase⟩)
      · exact .inr (.inr hmem)
  · have hattempt : ∀ i, act ≠ .attempt i := fun i heq => hattempt ⟨i, heq⟩
    rw [starts_of_ne hattempt]
    apply h.drift (Pool.drifts_of_step hunsized hattempt hstep) (List.subset_append_right _ _)
    intro x hx
    rcases List.mem_append.mp hx with hx | hx
    · exact .inr (inside_of_ending hstep (Option.mem_toList.mp hx))
    · exact .inl hx

theorem Untouched.pool (h : s.Untouched) {act : SemaphoreAct S.toSemaphores}
    (hunsized : act.unsized = true) {pool : Pool S.toSemaphores}
    (hstep : s.pool.step act = some pool) :
    { s with
      pool := pool
      ensures := s.starts act
      ends := (ending? s.pool act).toList ++ s.ends }.Untouched := by
  have hends : (ending? s.pool act).toList ++ s.ends = [] := by
    rw [h.ends, List.append_nil, Option.toList_eq_nil_iff]
    cases hending : ending? s.pool act with
    | none => rfl
    | some x =>
      obtain ⟨i, -, hphase⟩ := inside_of_ending hstep hending
      rcases h.phase i with heq | heq <;> rw [heq] at hphase <;> cases hphase
  by_cases hattempt : ∃ i, act = .attempt i
  · obtain ⟨i, rfl⟩ := hattempt
    simp only [Pool.step] at hstep
    obtain ⟨hi, hpool⟩ := Option.ite_none_right_eq_some.mp hstep
    rw [h.assured, if_neg Bool.false_ne_true] at hpool
    cases hpool
    refine ⟨h.absent, fun j => ?_, fun j hphase => ?_, h.assured, hends⟩
    · by_cases hne : j = i
      · subst hne
        exact .inr (congrArg _ (Pool.setStage_threads_self _ _ _))
      · show ((s.pool.setStage i _).threads j).phase = _ ∨ _
        rw [Pool.setStage_threads_of_ne hne]
        exact h.phase j
    · exact onTheWay_starts h.onTheWay j hphase
  · have hattempt : ∀ i, act ≠ .attempt i := fun i heq => hattempt ⟨i, heq⟩
    rw [starts_of_ne hattempt]
    have hdrifts := Pool.drifts_of_step hunsized hattempt hstep
    have hphase : ∀ i, (pool.threads i).phase = (s.pool.threads i).phase := by
      intro i
      rcases hdrifts.phase i with heq | ⟨hin, -⟩
      · exact heq
      · rcases h.phase i with heq | heq <;> rw [heq] at hin <;> cases hin
    refine ⟨h.absent, fun j => ?_, fun j hj => ?_, fun k => ?_, hends⟩
    · rw [show _ = _ from hphase j]
      exact h.phase j
    · exact h.onTheWay j ((hphase j).symm.trans hj)
    · rw [show _ = _ from hdrifts.assured k]
      exact h.assured k

/-! ## Steps of `_ensure_path` -/

/-- `ensure_path` is over, or sends another request. -/
theorem ensured_cases {i : θ} {existed : Bool} {stage : EnsureStage}
    (h : s.ensured i existed stage = some s') :
    (stage = .done (.ok ()) ∧ ∃ pool, s.pool.step (.ensure i existed) = some pool ∧
        s' = { s with pool := pool }) ∨
      stage ≠ .done (.ok ()) ∧ s' = { s with ensures := Function.update s.ensures i stage } := by
  unfold ensured at h
  split at h
  · split at h <;> cases h
    next pool hpool => exact .inl ⟨rfl, pool, hpool, rfl⟩
  · cases h
  · next hdone _ =>
    cases h
    exact .inr ⟨hdone, rfl⟩

omit [DecidableEq ι] in
/-- The thread gets from one place to another within `_ensure_path`, or out of it. -/
theorem Agreed.turn (h : s.Agreed n) {i : θ} (stage : SemaphoreStage ι)
    (hthreads : s'.pool.threads = Function.update s.pool.threads i stage)
    (hassured : ∀ k, k ≠ S.object i →
      (s'.pool.objects k).assuredPath = (s.pool.objects k).assuredPath)
    (hensures : s'.ensures = s.ensures) (hpresent : s'.tree.node S.place ≠ none)
    (hreads : ∀ t ∈ s'.tree :: s'.before, Reads n t S) (hsub : s.ends ⊆ s'.ends)
    (hends : ∀ x ∈ s'.ends, x ∈ s.ends ∨ x.2 = .raised .valueError)
    (hensuring : stage.phase ≠ .ensuring)
    (hsize : stage.phase = .storing ∨ stage.phase = .inside → S.size (S.object i) = n)
    (hobject : S.size (S.object i) = n ∨ stage.phase = .checking ∨
      (S.object i, .raised .valueError) ∈ s'.ends) : s'.Agreed n := by
  have hself : s'.pool.threads i = stage := by rw [hthreads, Function.update_self]
  have hother : ∀ j, j ≠ i → s'.pool.threads j = s.pool.threads j := by
    intro j hne
    rw [hthreads, Function.update_of_ne hne]
  refine ⟨hpresent, hreads, fun j hphase => ?_, fun j hphase => ?_, fun k hk => ?_, fun x hx => ?_⟩
  · by_cases hne : j = i
    · rw [hne, hself] at hphase
      exact absurd hphase hensuring
    · rw [hensures]
      exact h.onTheWay j (hother j hne ▸ hphase)
  · by_cases hne : j = i
    · rw [hne, hself] at hphase
      rw [hne]
      exact hsize hphase
    · exact h.size j (hother j hne ▸ hphase)
  · by_cases hki : k = S.object i
    · subst hki
      exact hobject.imp_right (Or.imp_left fun hphase => ⟨i, rfl, by rw [hself, hphase]⟩)
    · rw [hassured k hki] at hk
      rcases h.assured k hk with hsize | ⟨j, hj, hphase⟩ | hmem
      · exact .inl hsize
      · have hne : j ≠ i := by
          rintro rfl
          exact hki hj.symm
        exact .inr (.inl ⟨j, hj, (hother j hne).symm ▸ hphase⟩)
      · exact .inr (.inr (hsub hmem))
  · exact (hends x hx).elim (h.ends x) .inr

omit [DecidableEq σ] [DecidableEq ι] in
/-- The next request of `ensure_path`. -/
theorem Agreed.goOn (h : s.Agreed n) {i : θ} {stage : EnsureStage}
    (hway : Ensuring.OnTheWay S.root S.path stage) :
    { s with ensures := Function.update s.ensures i stage }.Agreed n :=
  ⟨h.present, h.reads, fun j hphase => onTheWay_update hway fun _ => h.onTheWay j hphase, h.size,
    h.assured, h.ends⟩

omit [DecidableEq σ] [DecidableEq ι] in
theorem Untouched.goOn (h : s.Untouched) {i : θ} {stage : EnsureStage}
    (hway : Ensuring.OnTheWay S.root S.path stage) :
    { s with ensures := Function.update s.ensures i stage }.Untouched :=
  ⟨h.absent, h.phase, fun j hphase => onTheWay_update hway fun _ => h.onTheWay j hphase, h.assured,
    h.ends⟩

/-- `ensure_path` finds the node. -/
theorem Agreed.ensured (h : s.Agreed n) {i : θ} {stage : EnsureStage}
    (hway : Ensuring.OnTheWay S.root S.path stage) (hstep : s.ensured i true stage = some s') :
    s'.Agreed n := by
  rcases ensured_cases hstep with ⟨-, pool, hpool, rfl⟩ | ⟨hdone, rfl⟩
  · simp only [Pool.step] at hpool
    obtain ⟨-, hpool⟩ := Option.ite_none_right_eq_some.mp hpool
    cases hpool
    refine h.turn .checking rfl (fun k hk => ?_) rfl h.present h.reads
      (List.Subset.refl _) (fun x hx => .inl hx) (by simp [SemaphoreStage.phase])
      (fun hphase => by rcases hphase with hphase | hphase <;> cases hphase) (.inr (.inl rfl))
    exact congrArg _ (Function.update_of_ne hk _ _)
  · exact h.goOn hway

omit [DecidableEq σ] [DecidableEq θ] [DecidableEq ι] in
/-- The server changes another node, or none. -/
theorem Agreed.setTree (h : s.Agreed n) {t : ServerTree}
    (ht : t.node S.place = s.tree.node S.place) : (s.setTree t).Agreed n := by
  refine ⟨?_, fun t' ht' => ?_, h.onTheWay, h.size, h.assured, h.ends⟩
  · show t.node S.place ≠ none
    rw [ht]
    exact h.present
  · rcases List.mem_cons.mp ht' with rfl | hold
    · intro x hx
      exact h.reads s.tree (List.mem_cons_self ..) x (ht ▸ hx)
    · exact h.reads t' hold

omit [DecidableEq σ] [DecidableEq θ] [DecidableEq ι] in
theorem Untouched.setTree (h : s.Untouched) {t : ServerTree} (ht : t.node S.place = none) :
    (s.setTree t).Untouched := by
  refine ⟨fun t' ht' => ?_, h.phase, h.onTheWay, h.assured, h.ends⟩
  rcases List.mem_cons.mp ht' with rfl | hold
  · exact ht
  · exact h.absent t' hold

theorem Agreed.answer (h : s.Agreed n) {i : θ} {place : Nat}
    (hstep : s.step (.answer i place) = some s') : s'.Agreed n := by
  simp only [step] at hstep
  obtain ⟨hi, hstep⟩ := Option.ite_none_right_eq_some.mp hstep
  have hway := h.onTheWay i (by rw [hi]; rfl)
  split at hstep
  · next path pending hstage =>
    rw [hstage] at hway
    split at hstep
    · exact h.ensured (Ensuring.answer_asking hway rfl).1 hstep
    · cases hstep
  · next path pending hstage =>
    rw [hstage] at hway
    cases hexisted : Ensuring.existed S.root ⟨s.tree, .creating path pending, 0⟩ with
    | true =>
      rw [hexisted] at hstep
      obtain ⟨htree, hnext, -⟩ := Ensuring.answer_existed hway rfl hexisted
      have hset : (s.setTree _).Agreed n := h.setTree (congrArg (·.node S.place) htree)
      exact hset.ensured hnext hstep
    | false =>
      rw [hexisted] at hstep
      obtain ⟨hstage', hfree, hnode⟩ := Ensuring.answer_created hway rfl hexisted
      -- the node is there, so it is one above
      have hplace : S.place ≠ S.root.nodePath path := by
        intro heq
        exact h.present (heq ▸ hfree)
      have hset : (s.setTree _).Agreed n := h.setTree ((hnode S.place).trans (if_neg hplace))
      have hnext : Ensuring.OnTheWay S.root S.path (Kazoo.ensured (.ok ()) pending) :=
        Ensuring.onTheWay_ensured hway.1 (fun _ => hway.2) _
      rw [hstage'] at hstep
      cases pending with
      | nil =>
        obtain rfl : path = S.path := hway.1
        exact absurd rfl hplace
      | cons next pending =>
        rcases ensured_cases hstep with ⟨hdone, -⟩ | ⟨-, rfl⟩
        · cases hdone
        · exact hset.goOn hnext
  · cases hstep

omit [DecidableEq ι] in
/-- `create` makes the node. -/
theorem Untouched.create (h : s.Untouched) {i : θ}
    {t : ServerTree} (ht : t.node S.place = some ⟨some [], false⟩) (o : SemaphoreObject) :
    { s.setTree t with pool := (s.pool.setObject (S.object i) o).setStage i .storing }.Agreed
      (S.size (S.object i)) := by
  refine ⟨?_, fun t' ht' => ?_, fun j hphase => ?_, fun j hphase => ?_, fun k hk => ?_,
    fun x hx => ?_⟩
  · show t.node S.place ≠ none
    rw [ht]
    exact Option.some_ne_none _
  · rcases List.mem_cons.mp ht' with rfl | hold
    · intro x hx
      obtain rfl := Option.some.inj (ht.symm.trans hx)
      exact .inl rfl
    · intro x hx
      rw [h.absent t' hold] at hx
      cases hx
  · have hphase : (((s.pool.setObject _ o).setStage i _).threads j).phase = .ensuring := hphase
    by_cases hne : j = i
    · rw [hne, Pool.setStage_threads_self] at hphase
      cases hphase
    · rw [Pool.setStage_threads_of_ne hne] at hphase
      exact h.onTheWay j hphase
  · have hphase : (((s.pool.setObject _ o).setStage i _).threads j).phase = .storing ∨
        (((s.pool.setObject _ o).setStage i _).threads j).phase = .inside := hphase
    by_cases hne : j = i
    · rw [hne]
    · rw [Pool.setStage_threads_of_ne hne] at hphase
      have hphase : (s.pool.threads j).phase = .storing ∨ (s.pool.threads j).phase = .inside := hphase
      rcases h.phase j with heq | heq <;> rw [heq] at hphase <;>
        exact absurd hphase (by decide)
  · by_cases hkey : k = S.object i
    · exact .inl (by rw [hkey])
    · have hk : ((s.pool.setObject (S.object i) o).objects k).assuredPath = true := hk
      rw [Pool.setObject_objects_of_ne hkey, h.assured] at hk
      cases hk
  · have hx : x ∈ s.ends := hx
    rw [h.ends] at hx
    cases hx

theorem Untouched.answer (h : s.Untouched) {i : θ} {place : Nat}
    (hstep : s.step (.answer i place) = some s') : s'.Untouched ∨ ∃ n, s'.Agreed n := by
  simp only [step] at hstep
  obtain ⟨hi, hstep⟩ := Option.ite_none_right_eq_some.mp hstep
  have hway := h.onTheWay i (by rw [hi]; rfl)
  have habsent := h.absent s.tree (List.mem_cons_self ..)
  split at hstep
  · next path pending hstage =>
    rw [hstage] at hway
    split at hstep
    · next t ht =>
      obtain ⟨hnext, hdone⟩ := Ensuring.answer_asking (t := t) hway rfl
      rcases ensured_cases hstep with ⟨heq, -⟩ | ⟨-, rfl⟩
      · exact absurd (h.absent t (List.mem_of_getElem? ht)) (hdone heq)
      · exact .inl (h.goOn hnext)
    · cases hstep
  · next path pending hstage =>
    rw [hstage] at hway
    cases hexisted : Ensuring.existed S.root ⟨s.tree, .creating path pending, 0⟩ with
    | true =>
      obtain ⟨htree, hnext, hdone⟩ := Ensuring.answer_existed hway rfl hexisted
      rcases ensured_cases hstep with ⟨heq, -⟩ | ⟨-, rfl⟩
      · exact absurd habsent (hdone heq)
      · have hset := h.setTree ((congrArg (·.node S.place) htree).trans habsent)
        exact .inl (hset.goOn hnext)
    | false =>
      rw [hexisted] at hstep
      obtain ⟨hstage', hfree, hnode⟩ := Ensuring.answer_created hway rfl hexisted
      rw [hstage'] at hstep
      cases pending with
      | cons next pending =>
        have hplace : S.place ≠ S.root.nodePath path :=
          Ne.symm (Ensuring.nodePath_ne hway.1 (List.cons_ne_nil _ _))
        rcases ensured_cases hstep with ⟨heq, -⟩ | ⟨-, rfl⟩
        · cases heq
        · have hnext : Ensuring.OnTheWay S.root S.path (Kazoo.ensured (.ok ()) (next :: pending)) :=
            Ensuring.onTheWay_ensured hway.1 (fun _ => hway.2) _
          have hset := h.setTree (((hnode S.place).trans (if_neg hplace)).trans habsent)
          exact .inl (hset.goOn hnext)
      | nil =>
        obtain rfl : path = S.path := hway.1
        rcases ensured_cases hstep with ⟨-, pool, hpool, rfl⟩ | ⟨hdone, rfl⟩
        · simp only [Pool.step] at hpool
          obtain ⟨-, hpool⟩ := Option.ite_none_right_eq_some.mp hpool
          cases hpool
          exact .inr ⟨_, h.create ((hnode S.place).trans (if_pos rfl)) _⟩
        · exact absurd rfl hdone
  · cases hstep

/-- `client.get`, and the comparison. -/
theorem Agreed.get (h : s.Agreed n) {i : θ} {place : Nat} (hpublished : s.Published (.get i place))
    (hstep : s.step (.get i place) = some s') : s'.Agreed n := by
  simp only [step] at hstep
  obtain ⟨hi, hstep⟩ := Option.ite_none_right_eq_some.mp hstep
  split at hstep
  case h_2 => cases hstep
  next t ht =>
  split at hstep
  case h_2 => cases hstep
  next data ephemeral hnode =>
  have hsize : storedLeases data = some n := by
    rcases h.reads t (List.mem_of_getElem? ht) _ hnode with hempty | ⟨data', hdata, hsize⟩
    · exact absurd hempty (hpublished t ht _ hnode)
    · rwa [Option.some.inj hdata]
  rw [hsize] at hstep
  dsimp only at hstep
  split at hstep <;> cases hstep
  · next heq =>
    exact h.turn .looking rfl (fun _ _ => rfl) rfl h.present h.reads (List.Subset.refl _)
      (fun x hx => .inl hx) SemaphorePhase.noConfusion (fun _ => heq.symm) (.inl heq.symm)
  · refine h.turn .idle rfl (fun _ _ => rfl) rfl h.present h.reads (List.subset_cons_self _ _)
      (fun x hx => ?_) SemaphorePhase.noConfusion (fun hphase => ?_)
      (.inr (.inr (List.mem_cons_self ..)))
    · rcases List.mem_cons.mp hx with rfl | hold
      · exact .inr rfl
      · exact .inl hold
    · rcases hphase with hphase | hphase <;> cases hphase

/-- `client.set`. -/
theorem Agreed.set (h : s.Agreed n) {i : θ} (hstep : s.step (.set i) = some s') : s'.Agreed n := by
  simp only [step] at hstep
  obtain ⟨hi, hstep⟩ := Option.ite_none_right_eq_some.mp hstep
  have hsize := h.size i (.inl (by rw [hi]; rfl))
  split at hstep <;> cases hstep
  next data hdata =>
  have hnode : (s.tree.write S.place data).node S.place =
      (s.tree.node S.place).map fun x => { x with value := some data } := if_pos rfl
  refine h.turn .looking rfl (fun _ _ => rfl) rfl ?_ (fun t ht => ?_) (List.Subset.refl _)
    (fun x hx => .inl hx) SemaphorePhase.noConfusion (fun _ => hsize) (.inl hsize)
  · show (s.tree.write S.place data).node S.place ≠ none
    rw [hnode]
    exact fun hnone => h.present (Option.map_eq_none_iff.mp hnone)
  · rcases List.mem_cons.mp ht with rfl | hold
    · intro x hx
      have hx : (s.tree.write S.place data).node S.place = some x := hx
      rw [hnode] at hx
      obtain ⟨y, -, rfl⟩ := Option.map_eq_some_iff.mp hx
      exact .inr ⟨data, rfl, hsize ▸ storedLeases_encode hdata⟩
    · exact h.reads t hold

theorem Agreed.count (h : s.Agreed n) {i : θ} {place : Nat}
    (hstep : s.step (.count i place) = some s') : s'.Agreed n := by
  have hgo : ∀ {p : Pool S.toSemaphores} {l : ι} {stage : SemaphoreStage ι},
      p.objects = s.pool.objects → p.threads = s.pool.threads → s.pool.threads i = .counting l →
      stage.phase = .inside → { s with pool := p.setStage i stage }.Agreed n := by
    intro p l stage hobjects hthreads hi hphase
    exact h.drift (Pool.Drifts.setStage (fun k => by rw [hobjects]) hthreads hi (.inl hphase))
      (List.Subset.refl _) fun x hx => .inl hx
  simp only [step] at hstep
  split at hstep
  · next l hi =>
    split at hstep
    · cases hstep
      exact hgo rfl rfl hi rfl
    · split at hstep <;> cases hstep
      exact hgo rfl rfl hi (by split <;> rfl)
  · cases hstep

/-! ## Runs -/

theorem Agreed.step (h : s.Agreed n) {act : SizedAct S} (hpublished : s.Published act)
    (hchecked : s.Checked act) (hstep : s.step act = some s') : s'.Agreed n := by
  cases act with
  | pool act =>
    simp only [SizedPool.step] at hstep
    obtain ⟨hunsized, hstep⟩ := Option.ite_none_right_eq_some.mp hstep
    split at hstep <;> cases hstep
    next hpool => exact h.pool hchecked hunsized hpool
  | answer i place => exact h.answer hstep
  | get i place => exact h.get hpublished hstep
  | set i => exact h.set hstep
  | count i place => exact h.count hstep

theorem Untouched.step (h : s.Untouched) {act : SizedAct S} (hstep : s.step act = some s') :
    s'.Untouched ∨ ∃ n, s'.Agreed n := by
  have hphase : ∀ i, (s.pool.threads i).phase ≠ .checking ∧ (s.pool.threads i).phase ≠ .storing ∧
      (s.pool.threads i).phase ≠ .inside := by
    intro i
    rcases h.phase i with heq | heq <;> rw [heq] <;> decide
  cases act with
  | pool act =>
    simp only [SizedPool.step] at hstep
    obtain ⟨hunsized, hstep⟩ := Option.ite_none_right_eq_some.mp hstep
    split at hstep <;> cases hstep
    next hpool => exact .inl (h.pool hunsized hpool)
  | answer i place => exact h.answer hstep
  | get i place =>
    simp only [SizedPool.step] at hstep
    obtain ⟨hi, -⟩ := Option.ite_none_right_eq_some.mp hstep
    exact absurd (by rw [hi]; rfl) (hphase i).1
  | set i =>
    simp only [SizedPool.step] at hstep
    obtain ⟨hi, -⟩ := Option.ite_none_right_eq_some.mp hstep
    exact absurd (by rw [hi]; rfl) (hphase i).2.1
  | count i place =>
    simp only [SizedPool.step] at hstep
    split at hstep
    · next hi => exact absurd (by rw [hi]; rfl) (hphase i).2.2
    · cases hstep

/-- On a path that nobody else uses, semaphores of different sizes are told apart in every run in
which the size is stored before anybody asks for it, and in which no call relies on a check of the
same semaphore that has failed or is not over. -/
theorem sizes_detected (S : SizedSemaphores σ θ ι) (t : ServerTree) (hfree : t.node S.place = none)
    {s : SizedPool S}
    (h : (sizing S t).Reach (fun s act => s.Published act ∧ s.Checked act) s) : s.Detected := by
  have hinv : s.Untouched ∨ ∃ n, s.Agreed n := by
    refine h.invariant (P := fun s => s.Untouched ∨ ∃ n, s.Agreed n) (.inl (untouched_new hfree)) ?_
    intro s act _ hs hen hok
    obtain ⟨s', hs'⟩ := Option.isSome_iff_exists.mp hen
    show ((s.step act).getD s).Untouched ∨ ∃ n, ((s.step act).getD s).Agreed n
    rw [hs']
    rcases hs with huntouched | ⟨n, hagreed⟩
    · exact huntouched.step hs'
    · exact .inr ⟨n, hagreed.step hok.1 hok.2 hs'⟩
  rcases hinv with huntouched | ⟨n, hagreed⟩
  · exact huntouched.detected
  · exact hagreed.detected

/-- Two semaphores of two clients, for one lease and for two. -/
def twoSizes : SizedSemaphores Bool Bool Bool where
  toSemaphores := Pool.oneLease
  size := fun k => if k then 2 else 1
  root := .new []
  path := str "/leases"

/-- The first semaphore creates the node. -/
def creates : List (SizedAct twoSizes) :=
  [.pool (.acquire false false false), .pool (.attempt false), .answer false 0, .answer false 0,
    .answer false 0]

/-- The second one finds it, and asks for the size. -/
def asks : List (SizedAct twoSizes) :=
  [.pool (.acquire true false false), .pool (.attempt true), .answer true 0, .get true 0]

def pooled (act : SemaphoreAct Pool.oneLease) : SizedAct twoSizes := .pool act

/-- The rest of a call that gets a lease, in a log of `places` states. -/
def gets (l : Bool) (number places : Nat) : List (SizedAct twoSizes) :=
  ((Pool.counts l number places).drop 4).dropLast.map pooled ++
    [.count l (places + 8), .pool (.create l), .pool (.confirm l (places + 10))] ++
    (Pool.frees l).map pooled

instance (s : SizedPool twoSizes) (act : SizedAct twoSizes) : Decidable (s.Published act) := by
  unfold Published
  split <;> infer_instance

instance (s : SizedPool twoSizes) (act : SizedAct twoSizes) : Decidable (s.Checked act) := by
  unfold Checked
  split <;> infer_instance

/-- The second semaphore is refused. -/
theorem sizes_detected_refused :
    ((sizing twoSizes Client.onlyRoot).exec (.new twoSizes Client.onlyRoot)
      (creates ++ [.set false] ++ gets false 0 1 ++ asks)).Detected :=
  sizes_detected twoSizes Client.onlyRoot (by decide) (.of_legal (by decide +kernel))

/-- Both acquire: the second one asks before the first has stored its size, or comes again when it has
been refused.  Neither half of the condition is enough. -/
theorem sizes_undetected :
    (¬ ∀ s, (sizing twoSizes Client.onlyRoot).Reach Checked s → s.Detected) ∧
      ¬ ∀ s, (sizing twoSizes Client.onlyRoot).Reach Published s → s.Detected := by
  constructor
  · intro h
    have hdetected := h ((sizing twoSizes Client.onlyRoot).exec (.new twoSizes Client.onlyRoot)
      (creates ++ asks ++ [.set false] ++ gets false 0 1 ++ gets true 1 18))
      (.of_legal (by decide +kernel))
    have hboth := (hdetected false true (by decide)).1
    revert hboth
    decide +kernel
  · intro h
    have hdetected := h ((sizing twoSizes Client.onlyRoot).exec (.new twoSizes Client.onlyRoot)
      (creates ++ [.set false] ++ gets false 0 1 ++ asks ++
        [.pool (.acquire true false false), .pool (.attempt true)] ++ gets true 1 18))
      (.of_legal (by decide +kernel))
    have hboth := (hdetected false true (by decide)).1
    revert hboth
    decide +kernel

end SizedPool

end Kazoo
