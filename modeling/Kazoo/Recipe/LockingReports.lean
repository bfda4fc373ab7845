import Kazoo.Recipe.LockingExclusion
import Kazoo.Transactions

/-!
# What a locking queue reports

`put_all`, `consume` and `release` of `LockingQueue` in `kazoo/recipe/queue.py`, one call at a time.
The server may be in any state when it answers a request, whatever it was at the request before, as the
session may have expired and other clients may have been at work.  A transaction that the server
refuses is answered with a list of errors, at which `__exit__` of `TransactionRequest` does not look.
-/

namespace Kazoo

/-! ## The server -/

/-- What the transactions of a locking queue are made of. -/
inductive LockingOperation
  -- a sequence node in the entries
  | create (priority : Nat) (value : Bytes)
  | deleteEntry (name : PyStr)
  | deleteLock (name : PyStr)
  deriving DecidableEq, Repr

/-- The nodes of a locking queue. -/
structure LockingNodes where
  entries : QueueEntries
  -- the lock nodes, with their data
  taken : List QueueEntry

/-- The errors with which all operations are answered when the `i`-th one has failed: those before it
are rolled back, and those after it are not tried. -/
def refusals (length i : Nat) (code : Int) : List OperationResult :=
  (List.range length).map fun j =>
    .error (.zookeeper (if j < i then 0 else if j = i then code else -2))

namespace LockingNodes

/-- The data of the lock node of an entry. -/
def lock? (t : LockingNodes) (name : PyStr) : Option Bytes :=
  (t.taken.find? (·.1 = name)).map Prod.snd

def deleteEntry (t : LockingNodes) (name : PyStr) : LockingNodes :=
  { t with entries := t.entries.delete name }

def deleteLock (t : LockingNodes) (name : PyStr) : LockingNodes :=
  { t with taken := t.taken.filter (·.1 ≠ name) }

def addEntries (t : LockingNodes) (priority : Nat) (values : List Bytes) : LockingNodes :=
  { t with entries := values.foldl (fun e value => e.add priority value) t.entries }

/-- One operation, or the code of the error. -/
def perform (t : LockingNodes) : LockingOperation → Except Int (OperationResult × LockingNodes)
  | .create priority value =>
    .ok (.path (entryName priority t.entries.next), t.addEntries priority [value])
  | .deleteEntry name =>
    if t.entries.Has name then .ok (.ack, t.deleteEntry name) else .error noNodeErrorCode
  | .deleteLock name =>
    if (t.lock? name).isSome then .ok (.ack, t.deleteLock name) else .error noNodeErrorCode

/-- The operations from the `i`-th one on, of which the server may deny some for reasons that are not
in the nodes, or the place of the first one that fails, and the code. -/
def performAll (denied : Nat → Option Int) : (i : Nat) → LockingNodes → List LockingOperation →
    Except (Nat × Int) (List OperationResult × LockingNodes)
  | _, t, [] => .ok ([], t)
  | i, t, op :: ops =>
    match denied i with
    | some code => .error (i, code)
    | none =>
      match t.perform op with
      | .error code => .error (i, code)
      | .ok (result, t) =>
        match performAll denied (i + 1) t ops with
        | .error e => .error e
        | .ok (results, t) => .ok (result :: results, t)

/-- The server carries out all operations or none. -/
def multi (t : LockingNodes) (denied : Nat → Option Int) (ops : List LockingOperation) :
    List OperationResult × LockingNodes :=
  match performAll denied 0 t ops with
  | .ok (results, t') => (results, t')
  | .error (i, code) => (refusals ops.length i code, t)

/-- The nodes after all operations, if each finds the node that it deletes. -/
def carryOut (t : LockingNodes) (ops : List LockingOperation) : Option LockingNodes :=
  ops.foldlM (fun t op => (t.perform op).toOption.map Prod.snd) t

section

variable {t t' : LockingNodes} {denied : Nat → Option Int} {op : LockingOperation}
  {ops : List LockingOperation} {name : PyStr} {priority : Nat}

theorem carryOut_cons_ok {result : OperationResult} (h : t.perform op = .ok (result, t')) :
    t.carryOut (op :: ops) = t'.carryOut ops := by
  rw [carryOut, List.foldlM_cons, h]
  rfl

theorem carryOut_cons_error {code : Int} (h : t.perform op = .error code) :
    t.carryOut (op :: ops) = none := by
  rw [carryOut, List.foldlM_cons, h]
  rfl

theorem result_of_perform {result : OperationResult} (h : t.perform op = .ok (result, t')) (e : Exn) :
    .error e ≠ result := by
  intro he
  cases op <;> simp only [perform] at h
  case create => cases (Prod.mk.inj (Except.ok.inj h)).1.trans he.symm
  all_goals
    split at h
    · cases (Prod.mk.inj (Except.ok.inj h)).1.trans he.symm
    · cases h

theorem performAll_ok {i : Nat} {results : List OperationResult}
    (h : performAll denied i t ops = .ok (results, t')) :
    (∀ j < ops.length, denied (i + j) = none) ∧ t.carryOut ops = some t' ∧
      ∀ e, .error e ∉ results := by
  induction ops generalizing i t results with
  | nil =>
    obtain ⟨rfl, rfl⟩ := Prod.mk.inj (Except.ok.inj h)
    exact ⟨fun _ hj => absurd hj (Nat.not_lt_zero _), rfl, fun _ => List.not_mem_nil⟩
  | cons op ops ih =>
    simp only [performAll] at h
    split at h
    · cases h
    next hdenied =>
      split at h
      · cases h
      next result t₁ hop =>
        split at h
        · cases h
        next results₁ t₂ hops =>
          obtain ⟨rfl, rfl⟩ := Prod.mk.inj (Except.ok.inj h)
          obtain ⟨hgranted, hcarried, hresults⟩ := ih hops
          refine ⟨fun j hj => ?_, (carryOut_cons_ok hop).trans hcarried, fun e he => ?_⟩
          · cases j with
            | zero => exact hdenied
            | succ j =>
              have hj := hgranted j (Nat.lt_of_succ_lt_succ hj)
              rwa [Nat.add_right_comm] at hj
          · rcases List.mem_cons.mp he with he | he
            · exact result_of_perform hop e he
            · exact hresults e he

theorem performAll_error {i : Nat} {e : Nat × Int} (h : performAll denied i t ops = .error e) :
    ops ≠ [] ∧ ((∀ j < ops.length, denied (i + j) = none) → t.carryOut ops = none) := by
  induction ops generalizing i t with
  | nil => cases h
  | cons op ops ih =>
    refine ⟨List.cons_ne_nil op ops, fun hgranted => ?_⟩
    simp only [performAll] at h
    split at h
    next hdenied => exact absurd (hdenied.symm.trans (hgranted 0 (Nat.succ_pos _))) (by simp)
    · split at h
      next hop => exact carryOut_cons_error hop
      next result t₁ hop =>
        split at h
        next e' hops =>
          obtain rfl := Except.error.inj h
          rw [carryOut_cons_ok hop]
          refine (ih hops).2 fun j hj => ?_
          rw [Nat.add_right_comm]
          exact hgranted (j + 1) (Nat.succ_lt_succ hj)
        · cases h

/-- All of the operations are carried out, or none. -/
theorem nodes_multi (t : LockingNodes) (denied : Nat → Option Int) (ops : List LockingOperation) :
    (t.multi denied ops).2 =
      if ∀ j < ops.length, denied j = none then (t.carryOut ops).getD t else t := by
  unfold multi
  split
  next results t' h =>
    obtain ⟨hgranted, hcarried, -⟩ := performAll_ok h
    simp only [Nat.zero_add] at hgranted
    rw [if_pos hgranted, hcarried]
    rfl
  next i code h =>
    have hnone := (performAll_error h).2
    simp only [Nat.zero_add] at hnone
    split
    · next hgranted => rw [hnone hgranted]; rfl
    · rfl

/-- Whether they are is what a look at the results would have told. -/
theorem error_mem_multi_iff : (∃ e, .error e ∈ (t.multi denied ops).1) ↔
    ¬ ((∀ j < ops.length, denied j = none) ∧ (t.carryOut ops).isSome) := by
  unfold multi
  split
  next results t' h =>
    obtain ⟨hgranted, hcarried, hresults⟩ := performAll_ok h
    simp only [Nat.zero_add] at hgranted
    exact iff_of_false (fun ⟨e, he⟩ => hresults e he) (not_not_intro ⟨hgranted, hcarried ▸ rfl⟩)
  next i code h =>
    obtain ⟨hne, hnone⟩ := performAll_error h
    simp only [Nat.zero_add] at hnone
    refine iff_of_true ⟨_, List.mem_map.mpr ⟨0, List.mem_range.mpr ?_, rfl⟩⟩ ?_
    · exact List.length_pos_iff.mpr hne
    · rintro ⟨hgranted, hsome⟩
      rw [hnone hgranted] at hsome
      cases hsome

theorem carryOut_create (values : List Bytes) :
    t.carryOut (values.map (.create priority)) = some (t.addEntries priority values) := by
  induction values generalizing t with
  | nil => rfl
  | cons value values ih => exact (carryOut_cons_ok rfl).trans ih

theorem next_addEntries (values : List Bytes) :
    (t.addEntries priority values).entries.next = t.entries.next + values.length := by
  induction values generalizing t with
  | nil => rfl
  | cons value values ih =>
    refine (ih (t := t.addEntries priority [value])).trans ?_
    rw [List.length_cons, Nat.add_comm values.length, ← Nat.add_assoc]
    rfl

theorem lock?_deleteLock : (t.deleteLock name).lock? name = none := by
  rw [lock?, deleteLock, List.find?_filter, Option.map_eq_none_iff, List.find?_eq_none]
  simp

theorem carryOut_release : t.carryOut [.deleteLock name] =
    if (t.lock? name).isSome then some (t.deleteLock name) else none := by
  by_cases hlock : (t.lock? name).isSome
  · rw [if_pos hlock]
    exact carryOut_cons_ok (if_pos hlock)
  · rw [if_neg hlock]
    exact carryOut_cons_error (if_neg hlock)

theorem carryOut_consume : t.carryOut [.deleteEntry name, .deleteLock name] =
    if t.entries.Has name ∧ (t.lock? name).isSome then some ((t.deleteEntry name).deleteLock name)
    else none := by
  by_cases hhas : t.entries.Has name
  · have hdelete : t.perform (.deleteEntry name) = .ok (.ack, t.deleteEntry name) := if_pos hhas
    rw [carryOut_cons_ok hdelete, carryOut_release]
    simp only [hhas, true_and]
    rfl
  · have hdelete : t.perform (.deleteEntry name) = .error noNodeErrorCode := if_neg hhas
    rw [carryOut_cons_error hdelete, if_neg fun h => hhas h.1]

/-- Where the operations change the nodes, they are carried out exactly if none is denied. -/
theorem nodes_multi_iff (hcarried : t.carryOut ops = some t') (hchange : ops ≠ [] → t ≠ t') :
    (t.multi denied ops).2 = t' ↔ ∀ j < ops.length, denied j = none := by
  rw [nodes_multi, hcarried]
  split
  next hgranted => exact iff_of_true rfl hgranted
  next hgranted =>
    refine iff_of_false (hchange ?_) hgranted
    rintro rfl
    exact hgranted fun j hj => absurd hj (Nat.not_lt_zero j)

theorem nodes_multi_create_iff (values : List Bytes) :
    (t.multi denied (values.map (.create priority))).2 = t.addEntries priority values ↔
      ∀ i < values.length, denied i = none := by
  rw [nodes_multi_iff (carryOut_create values), List.length_map]
  intro hne heq
  have hnext := congrArg (·.entries.next) heq
  simp only [next_addEntries] at hnext
  exact hne (List.map_eq_nil_iff.mpr (List.length_eq_zero_iff.mp (by omega)))

theorem nodes_multi_release_iff (hlock : (t.lock? name).isSome) :
    (t.multi denied [.deleteLock name]).2 = t.deleteLock name ↔ denied 0 = none := by
  rw [nodes_multi_iff (carryOut_release.trans (if_pos hlock))]
  · simp only [List.length_singleton, Nat.lt_one_iff, forall_eq]
  · intro _ heq
    rw [heq, lock?_deleteLock] at hlock
    cases hlock

theorem nodes_multi_consume_iff (hhas : t.entries.Has name) (hlock : (t.lock? name).isSome) :
    (t.multi denied [.deleteEntry name, .deleteLock name]).2 =
      (t.deleteEntry name).deleteLock name ↔ denied 0 = none ∧ denied 1 = none := by
  rw [nodes_multi_iff (carryOut_consume.trans (if_pos ⟨hhas, hlock⟩))]
  · constructor
    · intro h
      exact ⟨h 0 Nat.two_pos, h 1 Nat.one_lt_two⟩
    · rintro ⟨h₀, h₁⟩ j hj
      obtain rfl | rfl : j = 0 ∨ j = 1 := by
        rw [List.length_cons, List.length_singleton] at hj
        omega
      · exact h₀
      · exact h₁
  · intro _ heq
    rw [heq] at hhas
    exact QueueEntries.not_has_delete _ _ hhas

end

end LockingNodes

/-- A refusal is read as a list, and nothing is raised. -/
theorem refusals_read {operations : List Operation} {i : Nat} {code : Int} {b : Bytes}
    (hcode : code ∈ exceptionCodes)
    (hb : wireMulti (operations.mapIdx fun j operation =>
      ⟨operation, .error (.zookeeper (if j < i then 0 else if j = i then code else -2)), 0⟩) = .ok b)
    (before after : Bytes) :
    transactionDeserialize (before ++ b ++ after) before.length =
      .ok (refusals operations.length i code) := by
  refine (transactionDeserialize_wire (fun a ha => .inr ?_) hb (.here _ _ _)).trans ?_
  · obtain ⟨j, hj, rfl⟩ := List.mem_mapIdx.mp ha
    refine ⟨_, ?_, rfl⟩
    split
    · decide
    · split
      · exact hcode
      · decide
  · congr 1
    apply List.ext_getElem
    · simp [refusals]
    · intro j hj hj'
      simp [refusals]

/-! ## The client -/

/-- What `holds_lock` meets: the nodes when its `client.get` is answered, unless that or `client.sync`
raises. -/
structure LookTurn where
  nodes : LockingNodes
  raises : Option Exn

/-- What a commit meets: the nodes when the transaction comes to the server, and what the server denies;
and whether the client gets an exception for an answer, and the server has had the transaction all the
same. -/
structure CommitTurn where
  nodes : LockingNodes
  denied : Nat → Option Int
  raises : Option (Exn × Bool)

/-- `TransactionRequest.commit`. -/
def CommitTurn.commit (turn : CommitTurn) (ops : List LockingOperation) :
    Except Exn (List OperationResult) × LockingNodes :=
  let (results, nodes) := turn.nodes.multi turn.denied ops
  match turn.raises with
  | none => (.ok results, nodes)
  | some (e, carriedOut) => (.error e, if carriedOut then nodes else turn.nodes)

theorem CommitTurn.commit_answered {turn : CommitTurn} (h : turn.raises = none)
    (ops : List LockingOperation) :
    turn.commit ops =
      (.ok (turn.nodes.multi turn.denied ops).1, (turn.nodes.multi turn.denied ops).2) := by
  rw [commit, h]

theorem CommitTurn.commit_raises {turn : CommitTurn} {e : Exn} {carriedOut : Bool}
    (h : turn.raises = some (e, carriedOut)) (ops : List LockingOperation) :
    ∃ nodes, turn.commit ops = (.error e, nodes) :=
  ⟨_, by rw [commit, h]⟩

structure LockingObject where
  -- `self.id`
  id : Bytes
  processing : Option QueueEntry
  ensuredPath : Bool

namespace LockingObject

/-- `_ensure_paths`, where `client.ensure_path` may raise. -/
def ensurePaths (o : LockingObject) (raises : Option Exn) : Except Exn Unit × LockingObject :=
  if o.ensuredPath then (.ok (), o)
  else match raises with
  | some e => (.error e, o)
  | none => (.ok (), { o with ensuredPath := true })

def putAll (o : LockingObject) (values : List Bytes) (priority : Int) (ensuring : Option Exn)
    (turn : CommitTurn) : Except Exn Unit × LockingObject × LockingNodes :=
  match checkPutArguments priority with
  | .error e => (.error e, o, turn.nodes)
  | .ok priority =>
    match o.ensurePaths ensuring with
    | (.error e, o) => (.error e, o, turn.nodes)
    | (.ok (), o) =>
      match turn.commit (values.map (.create priority)) with
      | (.error e, nodes) => (.error e, o, nodes)
      | (.ok _, nodes) => (.ok (), o, nodes)

def holdsLock (o : LockingObject) (look : LookTurn) : Except Exn Bool :=
  match o.processing with
  | none => .ok false
  | some (name, _) =>
    match look.raises with
    | some e => .error e
    | none =>
      match look.nodes.lock? name with
      | none => .error .noNodeError
      | some value => .ok (value = o.id)

/-- `consume` and `release`, which differ in their transactions. -/
def settle (operations : PyStr → List LockingOperation) (o : LockingObject) (look : LookTurn)
    (turn : CommitTurn) : Except Exn Bool × LockingObject × LockingNodes :=
  match o.processing with
  | none => (.ok false, o, turn.nodes)
  | some (name, _) =>
    match o.holdsLock look with
    | .error e => (.error e, o, turn.nodes)
    | .ok false => (.ok false, o, turn.nodes)
    | .ok true =>
      match turn.commit (operations name) with
      | (.error e, nodes) => (.error e, o, nodes)
      | (.ok _, nodes) => (.ok true, { o with processing := none }, nodes)

def consume : LockingObject → LookTurn → CommitTurn →
    Except Exn Bool × LockingObject × LockingNodes :=
  settle fun name => [.deleteEntry name, .deleteLock name]

def release : LockingObject → LookTurn → CommitTurn →
    Except Exn Bool × LockingObject × LockingNodes :=
  settle fun name => [.deleteLock name]

/-! ## What is reported -/

/-- `put_all` has put all values when it returns. -/
def PutsAll (o : LockingObject) (values : List Bytes) (priority : Int) (ensuring : Option Exn)
    (turn : CommitTurn) : Prop :=
  let (result, o', nodes) := o.putAll values priority ensuring turn
  (result = .ok () → nodes = turn.nodes.addEntries priority.toNat values) ∧
    o'.processing = o.processing

/-- Where a call returns `True`, its transaction has done what it is for, and otherwise the client
keeps its entry. -/
def Settles (o : LockingObject) (Done : PyStr → LockingNodes → Prop) :
    Except Exn Bool × LockingObject × LockingNodes → Prop
  | (result, o', nodes) =>
    (result = .ok true → ∃ entry ∈ o.processing, Done entry.1 nodes) ∧
      (result ≠ .ok true → o'.processing = o.processing)

/-- `consume` has removed the entry and the client's own lock when it returns `True`. -/
def Consumes (o : LockingObject) (look : LookTurn) (turn : CommitTurn) : Prop :=
  o.Settles (fun name nodes => turn.nodes.entries.Has name ∧ turn.nodes.lock? name = some o.id ∧
    nodes = (turn.nodes.deleteEntry name).deleteLock name) (o.consume look turn)

/-- `release` has removed the client's own lock when it returns `True`. -/
def Releases (o : LockingObject) (look : LookTurn) (turn : CommitTurn) : Prop :=
  o.Settles (fun name nodes => turn.nodes.lock? name = some o.id ∧
    nodes = turn.nodes.deleteLock name) (o.release look turn)

/-- The transaction of `put_all` is sent, and answered. -/
def PutsAnswered (o : LockingObject) (priority : Int) (ensuring : Option Exn)
    (turn : CommitTurn) : Prop :=
  (0 ≤ priority ∧ priority ≤ 999) ∧ (o.ensuredPath = true ∨ ensuring = none) ∧ turn.raises = none

/-- The client has seen its own lock on the entry, and its transaction is answered. -/
def SettlesAnswered (o : LockingObject) (look : LookTurn) (turn : CommitTurn) (name : PyStr) : Prop :=
  (∃ entry ∈ o.processing, entry.1 = name) ∧ look.raises = none ∧
    look.nodes.lock? name = some o.id ∧ turn.raises = none

section

variable {o : LockingObject} {values : List Bytes} {priority : Int} {ensuring : Option Exn}
  {look : LookTurn} {turn : CommitTurn}

theorem ensurePaths_ok_iff : (o.ensurePaths ensuring).1 = .ok () ↔
    o.ensuredPath = true ∨ ensuring = none := by
  unfold ensurePaths
  split
  next h => exact iff_of_true rfl (.inl h)
  next h => cases ensuring <;> simp [h]

theorem processing_ensurePaths (o : LockingObject) (ensuring : Option Exn) :
    (o.ensurePaths ensuring).2.processing = o.processing := by
  unfold ensurePaths
  repeat' split
  all_goals rfl

theorem holdsLock_of_processing {entry : QueueEntry} (h : o.processing = some entry) :
    o.holdsLock look = .ok true ↔ look.raises = none ∧ look.nodes.lock? entry.1 = some o.id := by
  unfold holdsLock
  rw [h]
  dsimp only
  split
  next e hraises => simp [hraises]
  next hraises =>
    rw [and_iff_right hraises]
    split
    next hlock => simp [hlock]
    next value hlock => rw [hlock, Except.ok.injEq, decide_eq_true_iff, Option.some.injEq]

theorem settles_self {Done : PyStr → LockingNodes → Prop} {result : Except Exn Bool}
    {nodes : LockingNodes} (h : result ≠ .ok true) : o.Settles Done (result, o, nodes) :=
  ⟨fun h' => absurd h' h, fun _ => rfl⟩

theorem settle_of_holdsLock {operations : PyStr → List LockingOperation} {entry : QueueEntry}
    (hentry : o.processing = some entry) (h : o.holdsLock look = .ok true)
    (hraises : turn.raises = none) :
    settle operations o look turn = (.ok true, { o with processing := none },
      (turn.nodes.multi turn.denied (operations entry.1)).2) := by
  simp only [settle, hentry, h, CommitTurn.commit_answered hraises]

/-- A call that has not been answered with a commit keeps the entry. -/
theorem settle_of_not (operations : PyStr → List LockingOperation)
    (h : ∀ name, ¬ o.SettlesAnswered look turn name) :
    ∃ result nodes, settle operations o look turn = (result, o, nodes) ∧ result ≠ .ok true := by
  unfold settle
  split
  · exact ⟨_, _, rfl, by simp⟩
  next name data hentry =>
    split
    · exact ⟨_, _, rfl, by simp⟩
    · exact ⟨_, _, rfl, by simp⟩
    next hlook =>
      obtain ⟨hlooked, hlock⟩ := (holdsLock_of_processing hentry).mp hlook
      cases hraises : turn.raises with
      | none => exact absurd ⟨⟨_, hentry, rfl⟩, hlooked, hlock, hraises⟩ (h name)
      | some raised =>
        obtain ⟨nodes, hcommit⟩ := CommitTurn.commit_raises hraises (operations name)
        rw [hcommit]
        exact ⟨_, _, rfl, by simp⟩

/-- It comes down to what the server makes of the transaction. -/
theorem settles_iff (operations : PyStr → List LockingOperation) (Done : PyStr → LockingNodes → Prop) :
    o.Settles Done (settle operations o look turn) ↔
      ∀ name, o.SettlesAnswered look turn name →
        Done name (turn.nodes.multi turn.denied (operations name)).2 := by
  by_cases hanswered : ∃ name, o.SettlesAnswered look turn name
  · obtain ⟨_, ⟨entry, hentry, rfl⟩, hlooked, hlock, hraises⟩ := hanswered
    have hholds := (holdsLock_of_processing hentry).mpr ⟨hlooked, hlock⟩
    rw [settle_of_holdsLock hentry hholds hraises]
    constructor
    · rintro ⟨hdone, -⟩ _ ⟨⟨entry', hentry', rfl⟩, -⟩
      obtain ⟨entry'', hentry'', hdone⟩ := hdone rfl
      obtain rfl := Option.some.inj (hentry.symm.trans hentry')
      obtain rfl := Option.some.inj (hentry.symm.trans hentry'')
      exact hdone
    · intro hdone
      exact ⟨fun _ => ⟨entry, hentry, hdone entry.1 ⟨⟨entry, hentry, rfl⟩, hlooked, hlock, hraises⟩⟩,
        fun h => absurd rfl h⟩
  · have hnot := not_exists.mp hanswered
    obtain ⟨result, nodes, hsettle, hresult⟩ := settle_of_not operations hnot
    rw [hsettle]
    exact iff_of_true (settles_self hresult) fun name h => absurd h (hnot name)

theorem putAll_of_answered (h : o.PutsAnswered priority ensuring turn) (values : List Bytes) :
    ∃ o', o'.processing = o.processing ∧ o.putAll values priority ensuring turn =
      (.ok (), o', (turn.nodes.multi turn.denied (values.map (.create priority.toNat))).2) := by
  obtain ⟨hpriority, hensured, hraises⟩ := h
  have hchecked := checkPutArguments_eq_ok_iff.mpr ⟨hpriority, rfl⟩
  refine ⟨_, processing_ensurePaths _ ensuring, ?_⟩
  have hensured := ensurePaths_ok_iff.mpr hensured
  rw [putAll, hchecked]
  dsimp only
  split
  next h => rw [h] at hensured; cases hensured
  next h => rw [CommitTurn.commit_answered hraises, h]

theorem putAll_of_not (h : ¬ o.PutsAnswered priority ensuring turn) (values : List Bytes) :
    ∃ e o' nodes, o'.processing = o.processing ∧
      o.putAll values priority ensuring turn = (.error e, o', nodes) := by
  unfold putAll
  split
  · exact ⟨_, _, _, rfl, rfl⟩
  next hchecked =>
    have hprocessing := processing_ensurePaths o ensuring
    split
    next hensured =>
      rw [hensured] at hprocessing
      exact ⟨_, _, _, hprocessing, rfl⟩
    next o' hensured =>
      have hensures := ensurePaths_ok_iff.mp (congrArg Prod.fst hensured)
      rw [hensured] at hprocessing
      cases hraises : turn.raises with
      | none => exact absurd ⟨(checkPutArguments_eq_ok_iff.mp hchecked).1, hensures, hraises⟩ h
      | some raised =>
        obtain ⟨nodes, hcommit⟩ := CommitTurn.commit_raises hraises _
        rw [hcommit]
        exact ⟨_, _, _, hprocessing, rfl⟩

theorem putsAll_iff : o.PutsAll values priority ensuring turn ↔
    (o.PutsAnswered priority ensuring turn → ∀ i < values.length, turn.denied i = none) := by
  unfold PutsAll
  by_cases h : o.PutsAnswered priority ensuring turn
  · obtain ⟨o', hprocessing, hput⟩ := putAll_of_answered h values
    rw [hput]
    simp only [hprocessing, h, forall_const, and_true, LockingNodes.nodes_multi_create_iff]
  · obtain ⟨e, o', nodes, hprocessing, hput⟩ := putAll_of_not h values
    rw [hput]
    exact iff_of_true ⟨fun h => (nomatch h), hprocessing⟩ fun h' => absurd h' h

theorem consumes_iff : o.Consumes look turn ↔ ∀ name, o.SettlesAnswered look turn name →
    turn.denied 0 = none ∧ turn.denied 1 = none ∧ turn.nodes.entries.Has name ∧
      turn.nodes.lock? name = some o.id := by
  refine (settles_iff _ _).trans (forall₂_congr fun name _ => ⟨?_, ?_⟩)
  · rintro ⟨hhas, hlock, hnodes⟩
    obtain ⟨h₀, h₁⟩ := (LockingNodes.nodes_multi_consume_iff hhas (hlock ▸ rfl)).mp hnodes
    exact ⟨h₀, h₁, hhas, hlock⟩
  · rintro ⟨h₀, h₁, hhas, hlock⟩
    exact ⟨hhas, hlock, (LockingNodes.nodes_multi_consume_iff hhas (hlock ▸ rfl)).mpr ⟨h₀, h₁⟩⟩

theorem releases_iff : o.Releases look turn ↔ ∀ name, o.SettlesAnswered look turn name →
    turn.denied 0 = none ∧ turn.nodes.lock? name = some o.id := by
  refine (settles_iff _ _).trans (forall₂_congr fun name _ => ⟨?_, ?_⟩)
  · rintro ⟨hlock, hnodes⟩
    exact ⟨(LockingNodes.nodes_multi_release_iff (hlock ▸ rfl)).mp hnodes, hlock⟩
  · rintro ⟨h₀, hlock⟩
    exact ⟨hlock, (LockingNodes.nodes_multi_release_iff (hlock ▸ rfl)).mpr h₀⟩

end

/-- The reports are true where an answer to a transaction cannot be a refusal: none of its operations
is denied, and at the commit the entry is there, and the lock is still the client's own. -/
theorem reports_iff (o : LockingObject) (values : List Bytes) (priority : Int) (ensuring : Option Exn)
    (look : LookTurn) (turn : CommitTurn) :
    (o.PutsAll values priority ensuring turn ↔
      (o.PutsAnswered priority ensuring turn → ∀ i < values.length, turn.denied i = none)) ∧
    (o.Consumes look turn ↔ ∀ name, o.SettlesAnswered look turn name →
      turn.denied 0 = none ∧ turn.denied 1 = none ∧ turn.nodes.entries.Has name ∧
        turn.nodes.lock? name = some o.id) ∧
    (o.Releases look turn ↔ ∀ name, o.SettlesAnswered look turn name →
      turn.denied 0 = none ∧ turn.nodes.lock? name = some o.id) :=
  ⟨putsAll_iff, consumes_iff, releases_iff⟩

/-! ### Reports that are not true -/

/-- One entry, with the lock of the client of this id. -/
def locked (id : Bytes) : LockingNodes :=
  ⟨QueueEntries.new.add 100 [7], [(entryName 100 0, id)]⟩

def holder : LockingObject := ⟨[1], some (entryName 100 0, [7]), true⟩

/-- The session has expired since the look at the lock. -/
def expired : CommitTurn := ⟨{ locked [1] with taken := [] }, fun _ => none, none⟩

/-- Another client has locked the entry since. -/
def retaken : CommitTurn := ⟨locked [2], fun _ => none, none⟩

/-- The client must not create the second entry. -/
def forbidden : CommitTurn := ⟨locked [1], fun i => if i = 1 then some (-102) else none, none⟩

theorem reports_unapplied :
    ¬ holder.PutsAll [[8], [9]] 100 none forbidden ∧
    ¬ holder.Consumes ⟨locked [1], none⟩ expired ∧
    ¬ holder.Releases ⟨locked [1], none⟩ retaken := by
  refine ⟨fun h => ?_, fun h => ?_, fun h => ?_⟩
  · have hput : (holder.putAll [[8], [9]] 100 none forbidden).1 = .ok () := by decide
    have hnext := congrArg (·.entries.next) (h.1 hput)
    exact absurd hnext (by decide)
  · have hconsume : (holder.consume ⟨locked [1], none⟩ expired).1 = .ok true := by decide
    obtain ⟨entry, -, -, hlock, -⟩ := h.1 hconsume
    cases hlock
  · have hrelease : (holder.release ⟨locked [1], none⟩ retaken).1 = .ok true := by decide
    obtain ⟨entry, hentry, hlock, -⟩ := h.1 hrelease
    obtain rfl := Option.some.inj hentry
    exact absurd hlock (by decide)

end LockingObject

/-! ## In a run without refusals -/

/-- The operations of the transaction. -/
def Settling.operations (name : PyStr) : Settling → List LockingOperation
  | .consume => [.deleteEntry name, .deleteLock name]
  | .release => [.deleteLock name]

namespace Holdings

variable {κ ι : Type} {s : Holdings κ ι} {c : κ} {call : Settling}

def nodes (s : Holdings κ ι) : LockingNodes := ⟨s.entries, s.taken⟩

theorem nodes_deleteLock (name : PyStr) : (s.deleteLock name).nodes = s.nodes.deleteLock name := by
  rw [nodes, entries_deleteLock, taken_deleteLock]
  rfl

theorem deleteLock_of_none {name : PyStr} (h : s.nodes.lock? name = none) : s.deleteLock name = s := by
  have hlock : s.lock? name = none := h
  rw [deleteLock, hlock]

/-- The transactions of a queue whose requests are not denied. -/
theorem nodes_commit (name : PyStr) :
    (s.commit c call name).nodes = (s.nodes.multi (fun _ => none) (call.operations name)).2 := by
  rw [LockingNodes.nodes_multi, if_pos fun _ _ => rfl]
  cases call with
  | release =>
    rw [Settling.operations, LockingNodes.carryOut_release]
    split
    next => exact nodes_deleteLock name
    next hlock =>
      rw [commit, deleteLock_of_none (Option.not_isSome_iff_eq_none.mp hlock)]
      rfl
  | consume =>
    rw [Settling.operations, LockingNodes.carryOut_consume]
    by_cases hboth : s.nodes.entries.Has name ∧ (s.nodes.lock? name).isSome
    · rw [if_pos hboth]
      have htaken := congrArg LockingNodes.taken (nodes_deleteLock (s := s) name)
      refine (congrArg nodes (if_pos hboth)).trans ?_
      exact congrArg (LockingNodes.mk (s.entries.delete name)) htaken
    · rw [if_neg hboth]
      exact congrArg nodes (if_neg hboth)

end Holdings

theorem Holdings.goOn_committing {κ ι : Type} [DecidableEq κ] [DecidableEq ι] {Q : LockingQueues κ ι}
    {s : Holdings κ ι} {c : κ} {call : Settling} {entry : QueueEntry}
    (hstage : (s.objects c).stage = .committing call) (hentry : (s.objects c).processing = some entry) :
    ∃ s', s.goOn Q c = some s' ∧ (s'.objects c).processing = none ∧
      s'.nodes = (CommitTurn.commit ⟨s.nodes, fun _ => none, none⟩ (call.operations entry.1)).2 := by
  refine ⟨_, by rw [goOn, hstage, hentry], ?_, ?_⟩
  · simp [setObject]
  · exact nodes_commit entry.1

end Kazoo
