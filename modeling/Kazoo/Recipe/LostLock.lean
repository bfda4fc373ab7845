import Kazoo.Recipe.LockingReports
import Kazoo.Recipe.QueueLocks

/-!
# Locks of expired sessions

What `holds_lock`, `consume` and `release` of `LockingQueue` say about an entry whose lock node has
gone, in the runs of any number of clients whose sessions may expire.
-/

namespace Kazoo

structure HolderSessions (κ ι : Type) where
  holdings : Holdings κ ι
  -- the session has expired, and the client has not connected again
  expired : κ → Bool

inductive SessionAct (κ ι : Type)
  | act (a : HoldingAct κ ι)
  | expire (c : κ)
  deriving DecidableEq, Repr

namespace Holdings

variable {κ ι : Type} (Q : LockingQueues κ ι)

/-- The server deletes the lock nodes of the client, which are ephemeral. -/
def expire (s : Holdings κ ι) (c : κ) : Holdings κ ι :=
  { s.fire .taken with taken := s.taken.filter (·.2 ≠ Q.id c) }

end Holdings

namespace HolderSessions

variable {κ ι : Type} [DecidableEq κ] [DecidableEq ι] (Q : LockingQueues κ ι)

/-- Requests of an expired session are not carried out. -/
def allows (s : HolderSessions κ ι) : HoldingAct κ ι → Bool
  | .lose c carriedOut _ => !(carriedOut && s.expired c)
  | .loseCheck i carriedOut _ => !(carriedOut && s.expired (Q.client i))
  | _ => true

def step (s : HolderSessions κ ι) : SessionAct κ ι → Option (HolderSessions κ ι)
  | .act a =>
    if s.allows Q a then
      (s.holdings.step Q a).map fun holdings =>
        { holdings
          expired := match a with
            | .reconnect c => Function.update s.expired c false
            | _ => s.expired }
    else none
  | .expire c =>
    if (s.holdings.objects c).connected || s.expired c then none
    else some ⟨s.holdings.expire Q c, Function.update s.expired c true⟩

end HolderSessions

/-- All interleavings of the clients `κ`, with losses of connections and sessions. -/
def holderSessions {κ ι : Type} [DecidableEq κ] [DecidableEq ι] (Q : LockingQueues κ ι) :
    Machine (HolderSessions κ ι) (SessionAct κ ι) where
  init := ⟨.new, fun _ => false⟩
  enabled := fun s act => (s.step Q act).isSome
  post := fun s act => (s.step Q act).getD s

instance {κ ι : Type} [DecidableEq κ] [DecidableEq ι] (Q : LockingQueues κ ι)
    (s : HolderSessions κ ι) (act : SessionAct κ ι) : Decidable ((holderSessions Q).enabled s act) :=
  inferInstanceAs (Decidable ((s.step Q act).isSome = true))

/-! ## What is said about a lock -/

namespace LockingObject

variable {o : LockingObject} {nodes : LockingNodes}

/-- The lock node of the entry that the client processes has its id. -/
def HoldsIn (o : LockingObject) (nodes : LockingNodes) : Prop :=
  ∃ entry ∈ o.processing, nodes.lock? entry.1 = some o.id

instance (o : LockingObject) (nodes : LockingNodes) : Decidable (o.HoldsIn nodes) := by
  unfold HoldsIn
  infer_instance

/-- A connected client is told whether it holds the lock, and what it does not hold it neither consumes
nor releases; a transaction may meet any nodes. -/
structure Recovers (o : LockingObject) (nodes : LockingNodes) : Prop where
  holdsLock : o.holdsLock ⟨nodes, none⟩ = .ok (decide (o.HoldsIn nodes))
  refused : ¬ o.HoldsIn nodes → ∀ turn, (o.consume ⟨nodes, none⟩ turn).1 = .ok false ∧
    (o.release ⟨nodes, none⟩ turn).1 = .ok false
  answered : ∀ turn, turn.raises = none → (o.consume ⟨nodes, none⟩ turn).1 ≠ .error .noNodeError ∧
    (o.release ⟨nodes, none⟩ turn).1 ≠ .error .noNodeError

/-- There is a lock node of the entry, whoever has created it. -/
def LockThere (o : LockingObject) (nodes : LockingNodes) : Prop :=
  ∀ entry ∈ o.processing, nodes.lock? entry.1 ≠ none

theorem holdsIn_iff {entry : QueueEntry} (h : o.processing = some entry) :
    o.HoldsIn nodes ↔ nodes.lock? entry.1 = some o.id := by
  constructor
  · rintro ⟨entry', hentry', hlock⟩
    obtain rfl := Option.some.inj (h.symm.trans hentry')
    exact hlock
  · intro hlock
    exact ⟨entry, h, hlock⟩

theorem holdsLock_of_lockThere (h : o.LockThere nodes) :
    o.holdsLock ⟨nodes, none⟩ = .ok (decide (o.HoldsIn nodes)) := by
  cases hprocessing : o.processing with
  | none =>
    have hnot : ¬ o.HoldsIn nodes := by
      rintro ⟨entry, hentry, -⟩
      cases hprocessing.symm.trans hentry
    rw [decide_eq_false hnot, holdsLock, hprocessing]
  | some entry =>
    obtain ⟨id, hlock⟩ := Option.ne_none_iff_exists'.mp (h entry hprocessing)
    have hown : o.HoldsIn nodes ↔ id = o.id := by
      rw [holdsIn_iff hprocessing, hlock, Option.some.injEq]
    rw [decide_eq_decide.mpr hown, holdsLock, hprocessing]
    dsimp only
    rw [hlock]

theorem holdsLock_of_not (h : ¬ o.LockThere nodes) :
    o.holdsLock ⟨nodes, none⟩ = .error .noNodeError := by
  unfold LockThere at h
  push Not at h
  obtain ⟨entry, hprocessing, hlock⟩ := h
  unfold holdsLock
  rw [show o.processing = some entry from hprocessing]
  simp [hlock]

theorem settle_of_not_holds {operations : PyStr → List LockingOperation} {turn : CommitTurn}
    (h : o.holdsLock ⟨nodes, none⟩ = .ok false) :
    (settle operations o ⟨nodes, none⟩ turn).1 = .ok false := by
  unfold settle
  split
  · rfl
  · rw [h]

theorem settle_of_holds {operations : PyStr → List LockingOperation} {turn : CommitTurn}
    (h : o.holdsLock ⟨nodes, none⟩ = .ok true) (hraises : turn.raises = none) :
    (settle operations o ⟨nodes, none⟩ turn).1 ≠ .error .noNodeError := by
  unfold settle
  split
  · exact fun h' => nomatch h'
  · rw [h]
    dsimp only
    rw [CommitTurn.commit_answered hraises]
    exact fun h' => nomatch h'

theorem recovers_iff : o.Recovers nodes ↔ o.LockThere nodes := by
  constructor
  · intro h
    by_contra hnot
    cases (holdsLock_of_not hnot).symm.trans h.holdsLock
  · intro h
    have hholds := holdsLock_of_lockThere h
    by_cases hown : o.HoldsIn nodes
    · rw [decide_eq_true hown] at hholds
      exact ⟨holdsLock_of_lockThere h, fun hnot => absurd hown hnot,
        fun turn hraises => ⟨settle_of_holds hholds hraises, settle_of_holds hholds hraises⟩⟩
    · rw [decide_eq_false hown] at hholds
      have hsettle (operations : PyStr → List LockingOperation) (turn : CommitTurn) :
          (settle operations o ⟨nodes, none⟩ turn).1 = .ok false := settle_of_not_holds hholds
      refine ⟨holdsLock_of_lockThere h, fun _ turn => ⟨hsettle _ turn, hsettle _ turn⟩, fun turn _ => ⟨?_, ?_⟩⟩
      · rw [consume, hsettle]
        exact fun h' => nomatch h'
      · rw [release, hsettle]
        exact fun h' => nomatch h'

end LockingObject

/-! ## Runs in which no lock is lost -/

namespace Holdings

variable {κ ι : Type} {Q : LockingQueues κ ι} {s t : Holdings κ ι} {c : κ} {name : PyStr}

/-- The client, as its calls see it. -/
def object (Q : LockingQueues κ ι) (s : Holdings κ ι) (c : κ) : LockingObject :=
  ⟨Q.id c, (s.objects c).processing, true⟩

/-- Nobody processes the entry. -/
def Unprocessed (s : Holdings κ ι) (name : PyStr) : Prop :=
  ∀ d, ∀ entry ∈ (s.objects d).processing, entry.1 ≠ name

/-- The entries that are processed have lock nodes. -/
def Locked (s : Holdings κ ι) : Prop := ∀ c, ∀ entry ∈ (s.objects c).processing, s.lock? entry.1 ≠ none

theorem Locked.kept (h : s.Locked) (hobjects : ∀ c, (t.objects c).processing = (s.objects c).processing)
    (hlocks : ∀ name, ¬ s.Unprocessed name → s.lock? name ≠ none → t.lock? name ≠ none) : t.Locked := by
  intro c entry hentry
  rw [hobjects] at hentry
  exact hlocks entry.1 (fun hnot => hnot c entry hentry rfl) (h c entry hentry)

theorem Locked.createLock (h : s.Locked) {id : Bytes} : (s.createLock name id).Locked := by
  refine h.kept (fun c => by rw [objects_createLock]) fun other _ hother => ?_
  cases hlock : s.lock? name with
  | some _ =>
    simp only [Holdings.createLock, hlock]
    exact hother
  | none =>
    rw [lock?_createLock hlock]
    split
    · rintro ⟨⟩
    · exact hother

theorem Locked.deleteLock (h : s.Locked) (hnot : s.Unprocessed name) : (s.deleteLock name).Locked := by
  refine h.kept (fun c => by rw [objects_deleteLock]) fun other hother hlock => ?_
  have hne : other ≠ name := by
    rintro rfl
    exact hother hnot
  rw [lock?_deleteLock, if_neg hne]
  exact hlock

theorem lock?_commit_of_ne {call : Settling} {other : PyStr} (hne : other ≠ name) :
    (s.commit c call name).lock? other = s.lock? other := by
  unfold Holdings.commit
  cases call with
  | release => exact (lock?_deleteLock other).trans (if_neg hne)
  | consume =>
    show (if _ then _ else _ : Holdings κ ι).lock? other = _
    split
    · exact (lock?_deleteLock other).trans (if_neg hne)
    · rfl

/-- The transaction takes the lock node away. -/
def Unlocks (s : Holdings κ ι) (call : Settling) (name : PyStr) : Prop :=
  call = .release ∨ s.entries.Has name

theorem commit_of_not_unlocks {call : Settling} (h : ¬ s.Unlocks call name) :
    s.commit c call name = s := by
  cases call with
  | release => exact absurd (.inl rfl) h
  | consume => exact if_neg fun hboth => h (.inr hboth.1)

end Holdings

namespace HolderSessions

open Holdings

variable {κ ι : Type} [DecidableEq κ] [DecidableEq ι] {Q : LockingQueues κ ι}
  {s : HolderSessions κ ι} {u v : Holdings κ ι} {c : κ} {i : ι}

/-- No lock node of an entry that somebody processes is taken away: neither when a session expires,
nor by a transaction of somebody else or one whose answer is lost, nor by a check that undoes its own
lock; and none has gone when the entry is recorded. -/
def Keeps (Q : LockingQueues κ ι) (s : HolderSessions κ ι) : SessionAct κ ι → Prop
  | .expire c =>
    ∀ d, ∀ entry ∈ (s.holdings.objects d).processing, s.holdings.lock? entry.1 ≠ some (Q.id c)
  | .act (.go c) =>
    match (s.holdings.objects c).stage with
    | .committing call =>
      ∀ entry ∈ (s.holdings.objects c).processing, s.holdings.Unlocks call entry.1 →
        ∀ d ≠ c, ∀ entry' ∈ (s.holdings.objects d).processing, entry'.1 ≠ entry.1
    | _ => True
  | .act (.lose c carriedOut _) =>
    match (s.holdings.objects c).stage with
    | .committing call =>
      carriedOut = true →
        ∀ entry ∈ (s.holdings.objects c).processing, ¬ s.holdings.Unlocks call entry.1
    | _ => True
  | .act (.check i) =>
    match (s.holdings.gets i).check with
    | .undoing name => s.holdings.Unprocessed name
    | _ => True
  | .act (.loseCheck i carriedOut _) =>
    match (s.holdings.gets i).check with
    | .undoing name => carriedOut = true → s.holdings.Unprocessed name
    | _ => True
  | .act (.finish i) => ∀ entry ∈ (s.holdings.gets i).value, s.holdings.lock? entry.1 ≠ none
  | _ => True

omit [DecidableEq ι] in
theorem locked_setObject (h : u.Locked) {o : HolderObject ι}
    (ho : ∀ entry ∈ o.processing, u.lock? entry.1 ≠ none) : (u.setObject c o).Locked := by
  intro d
  show ∀ entry ∈ (Function.update u.objects c o d).processing, u.lock? entry.1 ≠ none
  by_cases hd : d = c
  · subst hd
    rw [Function.update_self]
    exact ho
  · rw [Function.update_of_ne hd]
    exact h d

omit [DecidableEq ι] in
theorem locked_setStage (h : u.Locked) (stage : HolderStage ι) : (u.setStage c stage).Locked :=
  locked_setObject h (h c)

theorem locked_checkFails (h : u.Locked) : (u.checkFails Q i).Locked := by
  unfold Holdings.checkFails
  show (if _ then _ else _ : Holdings κ ι).Locked
  split
  · exact locked_setStage (u := u.setGet i (u.gets i).checked) h .absent
  · exact h

omit [DecidableEq ι] in
/-- Who commits forgets the entry. -/
theorem locked_commit (h : u.Locked) {call : Settling} {name : PyStr} {o : HolderObject ι}
    (hnone : o.processing = none)
    (hothers : u.Unlocks call name → ∀ d ≠ c, ∀ entry ∈ (u.objects d).processing, entry.1 ≠ name) :
    ((u.commit c call name).setObject c o).Locked := by
  intro d entry hentry
  replace hentry : entry ∈ (Function.update (u.commit c call name).objects c o d).processing := hentry
  show (u.commit c call name).lock? entry.1 ≠ none
  by_cases hd : d = c
  · rw [hd, Function.update_self, hnone] at hentry
    cases hentry
  · rw [Function.update_of_ne hd, objects_commit] at hentry
    by_cases hunlocks : u.Unlocks call name
    · rw [lock?_commit_of_ne (hothers hunlocks d hd entry hentry)]
      exact h d entry hentry
    · rw [commit_of_not_unlocks hunlocks]
      exact h d entry hentry

omit [DecidableEq ι] in
theorem locked_goOn (h : u.Locked) (hok : s.Keeps Q (.act (.go c))) (hs : s.holdings = u)
    (hstep : u.goOn Q c = some v) : v.Locked := by
  subst hs
  unfold Holdings.goOn at hstep
  split at hstep
  case h_1 | h_2 | h_7 | h_8 => cases hstep
  case h_3 =>
    obtain ⟨-, hstep⟩ := Option.ite_none_right_eq_some.mp hstep
    cases hstep
    exact locked_setStage h _
  case h_4 | h_5 =>
    cases hstep
    exact locked_setStage h _
  case h_6 call name value hstage hentry =>
    cases hstep
    simp only [Keeps, hstage] at hok
    exact locked_commit h rfl (hok _ hentry)

omit [DecidableEq ι] in
theorem locked_loses (h : u.Locked) {carriedOut again : Bool}
    (hok : s.Keeps Q (.act (.lose c carriedOut again))) (hs : s.holdings = u)
    (hstep : u.loses c carriedOut again = some v) : v.Locked := by
  subst hs
  unfold Holdings.loses at hstep
  split at hstep
  case h_1 | h_2 | h_7 => cases hstep
  case h_3 =>
    split at hstep
    · obtain ⟨-, hstep⟩ := Option.ite_none_right_eq_some.mp hstep
      cases hstep
      exact locked_setStage h _
    · cases hstep
      exact locked_setStage h _
  case h_4 | h_5 =>
    cases hstep
    exact locked_setStage h _
  case h_6 call name value hstage hentry =>
    cases hstep
    simp only [Keeps, hstage] at hok
    split
    next hcarried =>
      rw [commit_of_not_unlocks (hok hcarried _ hentry)]
      exact locked_setStage h _
    · exact locked_setStage h _

theorem locked_checkOn (h : u.Locked) (hok : s.Keeps Q (.act (.check i))) (hs : s.holdings = u)
    (hgoes : CheckGoes Q u i v) : v.Locked := by
  subst hs
  cases hgoes with
  | lists _ _ | findsNone _ _ _ | chooses _ _ _ | comesLate _ _ | reads _ _ | misses _ _ => exact h
  | creates _ _ => exact h.createLock
  | undoes hcheck _ =>
    simp only [Keeps, hcheck] at hok
    exact h.deleteLock hok
  | fails _ _ => exact locked_checkFails h

theorem locked_checkLoses (h : u.Locked) {carriedOut again : Bool}
    (hok : s.Keeps Q (.act (.loseCheck i carriedOut again))) (hs : s.holdings = u)
    (hlost : CheckLost Q u i carriedOut again v) : v.Locked := by
  subst hs
  cases hlost with
  | retries => exact h
  | listing _ | listingTaken _ | reading _ | notCreated _ | notUndone _ => exact locked_checkFails h
  | created _ => exact locked_checkFails h.createLock
  | undone hcheck =>
    simp only [Keeps, hcheck] at hok
    exact locked_checkFails (h.deleteLock (hok trivial))

theorem locked_act (h : u.Locked) {a : HoldingAct κ ι} (hok : s.Keeps Q (.act a))
    (hs : s.holdings = u) (hstep : u.step Q a = some v) : v.Locked := by
  cases steps_of_step hstep with
  | put _ _ | settle _ _ => exact locked_setStage h _
  | get _ _ _ => exact locked_setStage (u := u.setGet _ _) h _
  | go _ hgo => exact locked_goOn h hok hs hgo
  | check _ hgoes => exact locked_checkOn h hok hs hgoes
  | deliver _ | call _ => exact h
  | finish _ _ _ =>
    subst hs
    exact locked_setObject (u := s.holdings.setGet _ _) h hok
  | @drop c _ => exact locked_setObject (o := { u.objects c with connected := false }) h (h c)
  | @reconnect c _ => exact locked_setObject (o := { u.objects c with connected := true }) h (h c)
  | lose _ hloses => exact locked_loses h hok hs hloses
  | loseCheck _ hlost => exact locked_checkLoses h hok hs hlost

omit [DecidableEq κ] [DecidableEq ι] in
/-- Other lock nodes stay. -/
theorem lock?_expire {s : Holdings κ ι} {name : PyStr} (h : s.lock? name ≠ some (Q.id c)) :
    (s.expire Q c).lock? name = s.lock? name := by
  unfold Holdings.lock? at h ⊢
  show ((s.taken.filter (·.2 ≠ Q.id c)).find? (·.1 = name)).map Prod.snd = _
  generalize s.taken = taken at h ⊢
  induction taken with
  | nil => rfl
  | cons x taken ih =>
    by_cases hname : x.1 = name
    · have hkept : x.2 ≠ Q.id c := by simpa [hname] using h
      rw [List.filter_cons_of_pos (by simpa using hkept), List.find?_cons_of_pos (by simpa using hname),
        List.find?_cons_of_pos (by simpa using hname)]
    · have hskip (rest : List QueueEntry) : (x :: rest).find? (·.1 = name) = rest.find? (·.1 = name) :=
        List.find?_cons_of_neg (by simpa using hname)
      rw [hskip] at h ⊢
      rw [← ih h, List.filter_cons]
      split
      · rw [hskip]
      · rfl

theorem locked_step {t : HolderSessions κ ι} (h : s.holdings.Locked) {act : SessionAct κ ι}
    (hok : s.Keeps Q act) (hstep : s.step Q act = some t) : t.holdings.Locked := by
  cases act <;> simp only [step] at hstep
  case act a =>
    obtain ⟨-, hstep⟩ := Option.ite_none_right_eq_some.mp hstep
    obtain ⟨v, hv, rfl⟩ := Option.map_eq_some_iff.mp hstep
    exact locked_act h hok rfl hv
  case expire c =>
    obtain ⟨-, hstep⟩ := Option.ite_none_left_eq_some.mp hstep
    cases hstep
    intro d entry hentry
    rw [lock?_expire (hok d entry hentry)]
    exact h d entry hentry

/-- A client gets right answers exactly if there is a lock node of its entry, so always in runs that
keep the lock nodes of entries that are processed. -/
theorem lost_lock {ok : HolderSessions κ ι → SessionAct κ ι → Prop}
    (hr : (holderSessions Q).Reach ok s) (c : κ) :
    ((s.holdings.object Q c).Recovers s.holdings.nodes ↔
      ∀ entry ∈ (s.holdings.objects c).processing, s.holdings.lock? entry.1 ≠ none) ∧
    ((∀ s act, ok s act → s.Keeps Q act) → (s.holdings.object Q c).Recovers s.holdings.nodes) := by
  refine ⟨LockingObject.recovers_iff, fun hok => LockingObject.recovers_iff.mpr ?_⟩
  have h : s.holdings.Locked := hr.invariant (P := fun s => s.holdings.Locked)
    (fun _ _ h => nomatch h) fun s act _ h hen hmeets => by
      obtain ⟨t, hstep⟩ := Option.isSome_iff_exists.mp hen
      show ((s.step Q act).getD s).holdings.Locked
      rw [hstep]
      exact locked_step h (hok s act hmeets) hstep
  exact h c

instance (s : HolderSessions Bool Bool) (act : SessionAct Bool Bool) :
    Decidable (s.Keeps twoHolders act) := by
  unfold Keeps Holdings.Unprocessed Holdings.Unlocks QueueEntries.Has
  split <;> first | infer_instance | (split <;> infer_instance)

/-- The session expires after the entry has been taken, and the client connects again. -/
def expiredHolder : List (SessionAct Bool Bool) :=
  [.act (.put false 100 [[7]]), .act (.go false), .act (.get false false), .act (.check false),
    .act (.check false), .act (.check false), .act (.check false), .act (.finish false),
    .act (.drop false), .expire false, .act (.reconnect false)]

theorem lost_lock_expiredHolder :
    ¬ ∀ (s : HolderSessions Bool Bool) (c : Bool), (holderSessions twoHolders).Reachable s →
      (s.holdings.object twoHolders c).Recovers s.holdings.nodes := by
  intro h
  have hr : (holderSessions twoHolders).Reachable
      ((holderSessions twoHolders).exec (holderSessions twoHolders).init expiredHolder) :=
    .of_legal (by decide +kernel)
  have hholds := (h _ false hr).holdsLock
  have hraises : (((holderSessions twoHolders).exec (holderSessions twoHolders).init
      expiredHolder).holdings.object twoHolders false).holdsLock
        ⟨((holderSessions twoHolders).exec (holderSessions twoHolders).init
          expiredHolder).holdings.nodes, none⟩ = .error .noNodeError := by
    decide +kernel
  cases hraises.symm.trans hholds

/-- The connection is lost, and the session goes on. -/
def reconnectedHolder : List (SessionAct Bool Bool) :=
  [.act (.put false 100 [[7]]), .act (.go false), .act (.get false false), .act (.check false),
    .act (.check false), .act (.check false), .act (.check false), .act (.finish false),
    .act (.drop false), .act (.reconnect false), .act (.drop true), .expire true]

theorem lost_lock_reconnectedHolder :
    let s := (holderSessions twoHolders).exec (holderSessions twoHolders).init reconnectedHolder
    (s.holdings.object twoHolders false).Recovers s.holdings.nodes :=
  (lost_lock (Q := twoHolders)
    (.of_legal (by decide +kernel : (holderSessions twoHolders).Legal
      (fun s act => s.Keeps twoHolders act) _ reconnectedHolder)) false).2 fun _ _ h => h

end HolderSessions

end Kazoo
