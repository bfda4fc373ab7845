import Kazoo.Recipe.LockExclusion
import Kazoo.Recipe.LockWaits
import Mathlib.Logic.Relation

/-!
# No contender is forgotten

A lock object that waits has been woken, or will be by what is on its way, or the server holds a
watch for it on a node before its own.
-/

namespace Kazoo

variable {ι : Type}

/-! ## One connection -/

/-- Every node that has been found has its watch, or its event further down the stream. -/
def Owed (armed : List PyStr) : List (Delivery ι) → Prop
  | [] => True
  | .answer _ _ path found :: rest =>
    (found = true → path ∈ armed ∨ .event path ∈ rest) ∧ Owed armed rest
  | .event _ :: rest => Owed armed rest

theorem Owed.append {armed armed' : List PyStr} {stream rest : List (Delivery ι)}
    (h : Owed armed stream) (harmed : ∀ path ∈ armed, path ∈ armed' ∨ .event path ∈ rest)
    (hrest : Owed armed' rest) : Owed armed' (stream ++ rest) := by
  induction stream with
  | nil => exact hrest
  | cons m stream ih =>
    cases m with
    | answer l get path found =>
      refine ⟨fun hfound => ?_, ih h.2⟩
      rcases h.1 hfound with hin | hin
      · exact (harmed path hin).imp_right (List.mem_append_right stream)
      · exact .inr (List.mem_append_left rest hin)
    | event path => exact ih h

theorem Owed.of_events (armed paths : List PyStr) :
    Owed armed (paths.map (Delivery.event : PyStr → Delivery ι)) := by
  induction paths with
  | nil => trivial
  | cons path paths ih => exact ih

namespace Link

variable {k : Link ι} {names names' : List PyStr}

/-- `_watch_predecessor` of `l` is registered for the path, or about to be. -/
def Expects (k : Link ι) (path : PyStr) (l : ι) : Prop :=
  (path, l) ∈ k.watchers ∨ k.thread = .registering path l

structure Tended (names : List PyStr) (k : Link ι) : Prop where
  armed : ∀ path ∈ k.armed, path ∈ names
  expected : k.alive = true → ∀ path l, k.Expects path l → path ∈ k.armed ∨ .event path ∈ k.stream
  owed : k.alive = true → Owed k.armed k.stream
  silent : k.alive = false → k.armed = []
  online : k.alive = true → k.thread ≠ .resetting ∧ k.thread ≠ .connecting ∧
    ∀ listeners, k.thread ≠ .telling false listeners
  forgotten : k.thread = .connecting → k.watchers = [] ∧ k.stream = []

theorem tended_new : (new : Link ι).Tended names where
  armed := nofun
  expected := nofun
  owed := nofun
  silent := fun _ => rfl
  online := nofun
  forgotten := fun _ => ⟨rfl, rfl⟩

/-- What the callers and the callback thread touch does not matter. -/
theorem Tended.congr {k' : Link ι} (h : k.Tended names) (halive : k'.alive = k.alive)
    (harmed : k'.armed = k.armed) (hstream : k'.stream = k.stream)
    (hwatchers : k'.watchers = k.watchers) (hthread : k'.thread = k.thread) :
    k'.Tended names := by
  obtain ⟨armed, expected, owed, silent, online, forgotten⟩ := h
  constructor
  · rw [harmed]; exact armed
  · rw [halive, harmed, hstream]
    intro hlive path l hexpects
    rw [Expects, hwatchers, hthread] at hexpects
    exact expected hlive path l hexpects
  · rw [halive, harmed, hstream]; exact owed
  · rw [halive, harmed]; exact silent
  · rw [halive, hthread]; exact online
  · rw [hthread, hwatchers, hstream]; exact forgotten

theorem Tended.fire (h : k.Tended names) {remains : PyStr → Bool}
    (hremains : ∀ path ∈ names, remains path = true → path ∈ names') :
    (k.fire remains).Tended names' := by
  have hfired : ∀ path ∈ k.armed, path ∈ (k.fire remains).armed ∨
      .event path ∈ (k.armed.filter fun path => !remains path).map (Delivery.event (ι := ι)) := by
    intro path hpath
    cases hr : remains path with
    | true => exact .inl (List.mem_filter.mpr ⟨hpath, hr⟩)
    | false =>
      exact .inr (List.mem_map_of_mem (List.mem_filter.mpr ⟨hpath, by rw [hr]; rfl⟩))
  constructor
  · intro path hpath
    obtain ⟨hin, hr⟩ := List.mem_filter.mp hpath
    exact hremains path (h.armed path hin) hr
  · intro hlive path l hexpects
    rcases h.expected hlive path l hexpects with hin | hin
    · exact (hfired path hin).imp_right (List.mem_append_right _)
    · exact .inr (List.mem_append_left _ hin)
  · intro hlive
    exact (h.owed hlive).append hfired (.of_events _ _)
  · intro hdead
    show k.armed.filter remains = []
    rw [h.silent hdead, List.filter_nil]
  · exact h.online
  · intro hconnecting
    obtain ⟨hwatchers, hstream⟩ := h.forgotten hconnecting
    have hdead : k.alive = false := by
      cases halive : k.alive with
      | false => rfl
      | true => exact absurd hconnecting (h.online halive).2.1
    refine ⟨hwatchers, ?_⟩
    show k.stream ++ _ = []
    rw [h.silent hdead, hstream]
    rfl

theorem Tended.broken (h : k.Tended names) : k.broken.Tended names where
  armed := nofun
  expected := nofun
  owed := nofun
  silent := fun _ => rfl
  online := nofun
  forgotten := h.forgotten

theorem Tended.serve {k' : Link ι} {children : List PyStr} (h : k.Tended names)
    (halive : k.alive = true) (hserve : k.serve children names = some k') : k'.Tended names := by
  unfold Link.serve at hserve
  split at hserve
  · cases hserve
  · next l get path requests _ =>
    have hold : k.thread ≠ .connecting := (h.online halive).2.1
    by_cases hfound : path ∈ children
    · rw [if_pos hfound] at hserve
      by_cases hthere : path ∈ names
      · rw [if_pos hthere, if_pos hthere] at hserve
        cases hserve
        constructor
        · exact List.forall_mem_cons.mpr ⟨hthere, h.armed⟩
        · intro _ path' l' hexpects
          rcases h.expected halive path' l' hexpects with hin | hin
          · exact .inl (List.mem_cons_of_mem path hin)
          · exact .inr (by simp [hin])
        · intro _
          rw [List.append_nil]
          exact (h.owed halive).append (fun p hp => .inl (List.mem_cons_of_mem path hp))
            ⟨fun _ => .inl List.mem_cons_self, trivial⟩
        · exact fun hdead => absurd (halive.symm.trans hdead) nofun
        · exact h.online
        · exact fun hconnecting => absurd hconnecting hold
      · rw [if_neg hthere, if_neg hthere] at hserve
        cases hserve
        constructor
        · exact h.armed
        · intro _ path' l' hexpects
          rcases h.expected halive path' l' hexpects with hin | hin
          · exact .inl hin
          · exact .inr (by simp [hin])
        · intro _
          rw [List.append_assoc]
          exact (h.owed halive).append (fun p hp => .inl hp)
            ⟨fun _ => .inr List.mem_cons_self, trivial⟩
        · exact fun hdead => absurd (halive.symm.trans hdead) nofun
        · exact h.online
        · exact fun hconnecting => absurd hconnecting hold
    · rw [if_neg hfound] at hserve
      cases hserve
      constructor
      · exact h.armed
      · intro _ path' l' hexpects
        exact (h.expected halive path' l' hexpects).imp_right (List.mem_append_left _)
      · intro _
        exact (h.owed halive).append (fun p hp => .inl hp) ⟨nofun, trivial⟩
      · exact h.silent
      · exact h.online
      · exact fun hconnecting => absurd hconnecting hold

/-- The connection thread reads an event: its watchers are called, the other paths have theirs. -/
theorem Tended.event {path : PyStr} {stream : List (Delivery ι)} (h : k.Tended names)
    (hthread : k.thread = .serving) (hstream : k.stream = .event path :: stream) :
    (({ k with stream := stream } : Link ι).event path).Tended names := by
  constructor
  · exact h.armed
  · intro hlive path' l hexpects
    rcases hexpects with hin | hin
    · obtain ⟨hin, hne⟩ := List.mem_filter.mp hin
      rcases h.expected hlive path' l (.inl hin) with harmed | hevent
      · exact .inl harmed
      · rw [hstream] at hevent
        rcases List.mem_cons.mp hevent with heq | hrest
        · cases heq
          exact absurd rfl (of_decide_eq_true hne)
        · exact .inr hrest
    · exact absurd (hthread.symm.trans hin) nofun
  · intro hlive
    have howed := h.owed hlive
    rw [hstream] at howed
    exact howed
  · exact h.silent
  · exact h.online
  · exact fun hconnecting => absurd (hthread.symm.trans hconnecting) nofun

theorem Tended.answer {l : ι} {get : Nat} {path : PyStr} {found : Bool}
    {stream : List (Delivery ι)} (h : k.Tended names)
    (hstream : k.stream = .answer l get path found :: stream) :
    ({ k with stream := stream,
              thread := if found then .registering path l else .serving } : Link ι).Tended
      names := by
  constructor
  · exact h.armed
  · intro hlive path' l' hexpects
    have howed := h.owed hlive
    rw [hstream] at howed
    rcases hexpects with hin | hin
    · rcases h.expected hlive path' l' (.inl hin) with harmed | hevent
      · exact .inl harmed
      · rw [hstream] at hevent
        exact .inr ((List.mem_cons.mp hevent).resolve_left nofun)
    · cases found with
      | true =>
        cases hin
        exact howed.1 rfl
      | false => cases hin
  · intro hlive
    have howed := h.owed hlive
    rw [hstream] at howed
    exact howed.2
  · exact h.silent
  · intro _
    cases found <;> exact ⟨nofun, nofun, nofun⟩
  · intro hconnecting
    cases found <;> cases hconnecting

theorem Tended.register {l : ι} {path : PyStr} (h : k.Tended names)
    (hthread : k.thread = .registering path l) :
    ({ k with watchers := (path, l) :: k.watchers, thread := .serving } : Link ι).Tended names := by
  constructor
  · exact h.armed
  · intro hlive path' l' hexpects
    rcases hexpects with hin | hin
    · rcases List.mem_cons.mp hin with heq | hin
      · cases heq
        exact h.expected hlive path l (.inr hthread)
      · exact h.expected hlive path' l' (.inl hin)
    · cases hin
  · exact h.owed
  · exact h.silent
  · exact fun _ => ⟨nofun, nofun, nofun⟩
  · nofun

/-- The connection thread goes on and has registered nothing. -/
theorem Tended.goOn {thread : ConnectionThread ι} (h : k.Tended names)
    (hthread : ∀ path l, thread ≠ .registering path l)
    (honline : k.alive = true → thread ≠ .resetting ∧ ∀ listeners, thread ≠ .telling false listeners)
    (hconnecting : thread ≠ .connecting) : ({ k with thread := thread } : Link ι).Tended names where
  armed := h.armed
  expected := fun hlive path l hexpects =>
    h.expected hlive path l (.inl (hexpects.resolve_right (hthread path l)))
  owed := h.owed
  silent := h.silent
  online := fun hlive => ⟨(honline hlive).1, hconnecting, (honline hlive).2⟩
  forgotten := fun heq => absurd heq hconnecting

theorem Tended.drop (h : k.Tended names) :
    ({ k.broken with thread := .telling false k.listeners } : Link ι).Tended names :=
  h.broken.goOn nofun nofun nofun

theorem Tended.tell {connected : Bool} {l : ι} {listeners : List ι} (h : k.Tended names)
    (hthread : k.thread = .telling connected (l :: listeners)) :
    ({ k with thread := .telling connected listeners } : Link ι).Tended names := by
  refine h.goOn nofun (fun hlive => ⟨nofun, fun ls heq => ?_⟩) nofun
  cases heq
  exact (h.online hlive).2.2 _ hthread

theorem Tended.told {connected : Bool} (h : k.Tended names)
    (hthread : k.thread = .telling connected []) :
    ({ k with thread := if connected then .serving else .resetting } : Link ι).Tended names := by
  cases connected with
  | true => exact h.goOn nofun (fun _ => ⟨nofun, nofun⟩) nofun
  | false => exact h.goOn nofun (fun hlive => absurd hthread ((h.online hlive).2.2 _)) nofun

theorem Tended.reset (h : k.Tended names) (hthread : k.thread = .resetting) :
    k.reset.Tended names := by
  have hdead : k.alive = true → False := fun hlive => (h.online hlive).1 hthread
  exact {
    armed := h.armed
    expected := fun hlive => (hdead hlive).elim
    owed := fun hlive => (hdead hlive).elim
    silent := h.silent
    online := fun hlive => (hdead hlive).elim
    forgotten := fun _ => ⟨rfl, rfl⟩ }

theorem Tended.connect (h : k.Tended names) (hthread : k.thread = .connecting) :
    ({ k with alive := true, thread := .telling true k.listeners } : Link ι).Tended names := by
  obtain ⟨hwatchers, hstream⟩ := h.forgotten hthread
  constructor
  · exact h.armed
  · intro _ path l hexpects
    rcases hexpects with hin | hin
    · rw [show k.watchers = [] from hwatchers] at hin
      cases hin
    · cases hin
  · intro _
    show Owed k.armed k.stream
    rw [hstream]
    trivial
  · nofun
  · exact fun _ => ⟨nofun, nofun, nofun⟩
  · nofun

theorem serve_frame {k' : Link ι} {children : List PyStr}
    (h : k.serve children names = some k') :
    k'.callbacks = k.callbacks ∧ (∀ path l, k.Expects path l → k'.Expects path l) ∧
      (∀ x ∈ k'.requests, x ∈ k.requests) ∧
      ∀ l get path found, .answer l get path found ∈ k'.stream →
        .answer l get path found ∈ k.stream ∨ (l, get, path) ∈ k.requests := by
  unfold Link.serve at h
  split at h
  · cases h
  · next l get path requests hrequests =>
    have hanswer : ∀ found (rest : List (Delivery ι)),
        (∀ l' get' path' found', .answer l' get' path' found' ∉ rest) →
        ∀ l' get' path' found',
          .answer l' get' path' found' ∈ k.stream ++ [.answer l get path found] ++ rest →
          .answer l' get' path' found' ∈ k.stream ∨ (l', get', path') ∈ k.requests := by
      intro found rest hrest l' get' path' found' hmem
      rcases List.mem_append.mp hmem with hmem | hmem
      · rcases List.mem_append.mp hmem with hmem | hmem
        · exact .inl hmem
        · cases List.mem_singleton.mp hmem
          exact .inr (hrequests ▸ List.mem_cons_self)
      · exact absurd hmem (hrest _ _ _ _)
    have hfewer : ∀ x ∈ requests, x ∈ k.requests :=
      fun x hx => hrequests ▸ List.mem_cons_of_mem _ hx
    split at h
    · cases h
      refine ⟨rfl, fun _ _ => id, hfewer, hanswer true _ fun l' get' path' found' hmem => ?_⟩
      split at hmem
      · cases hmem
      · cases List.mem_singleton.mp hmem
    · cases h
      refine ⟨rfl, fun _ _ => id, hfewer, fun l' get' path' found' hmem => ?_⟩
      exact hanswer false [] (fun _ _ _ _ => List.not_mem_nil) l' get' path' found'
        (by rw [List.append_nil]; exact hmem)

/-- The server has sent events, or given the connection up. -/
structure Follows (k k' : Link ι) : Prop where
  requests : k'.requests = k.requests
  callbacks : k'.callbacks = k.callbacks
  watchers : k'.watchers = k.watchers
  thread : k'.thread = k.thread
  answers : ∀ l get path found, .answer l get path found ∈ k'.stream →
    .answer l get path found ∈ k.stream

theorem follows_fire (remains : PyStr → Bool) (k : Link ι) : k.Follows (k.fire remains) where
  requests := rfl
  callbacks := rfl
  watchers := rfl
  thread := rfl
  answers := fun l get path found hmem => by
    rcases List.mem_append.mp hmem with hmem | hmem
    · exact hmem
    · obtain ⟨path', -, heq⟩ := List.mem_map.mp hmem
      cases heq

theorem Follows.broken {k' : Link ι} (h : k.Follows k') : k.Follows k'.broken :=
  ⟨h.requests, h.callbacks, h.watchers, h.thread, h.answers⟩

end Link

/-! ## The places in the loop -/

/-- The thread inside `acquire` waits for an answer, or for its event. -/
def Stage.Blocked : Stage → Prop
  | .watching _ | .waiting _ => True
  | _ => False

theorem Stage.Blocked.trying {stage : Stage} (h : stage.Blocked) : stage.Trying := by
  revert h
  cases stage <;> simp [Stage.Blocked, Stage.Trying]

namespace LockObject

variable {decimal : CodePoint → Bool} {c : LockConfig} {o o' : LockObject} {act : Act}

theorem not_blocked_raised (e : Exn) (o : LockObject) : ¬ (o.raised e).stage.Blocked := by
  obtain ⟨stage, hstage, h⟩ := raised_frame e o
  rw [h]
  exact fun hblocked => hstage hblocked.trying

theorem not_blocked_refused (o : LockObject) : ¬ o.refused.stage.Blocked := by
  obtain ⟨stage, hstage, h⟩ := refused_frame o
  rw [h]
  exact fun hblocked => hstage hblocked.trying

theorem not_blocked_failing {e : Exn} (h : o.failing e = some o') : ¬ o'.stage.Blocked := by
  unfold failing at h
  split at h
  · split at h <;> cases h
    exact not_blocked_raised e o
  · split at h <;> cases h
    exact not_blocked_raised e o
  · cases h
    exact not_blocked_raised e o
  · split at h <;> cases h
    exact not_blocked_raised e o
  · cases h
    split <;> exact id
  · cases h
    split <;> exact id
  · cases h

/-- How a thread comes to be blocked, or stays so while another thread acts. -/
theorem blocked_of_step (h : o.step decimal c act = some o') (hblocked : o'.stage.Blocked) :
    (o'.stage = o.stage ∧ ∀ children, act ≠ .compare children) ∨
      (∃ children node predecessor, act = .compare children ∧ o.stage = .comparing node ∧
        c.getPredecessor decimal node children = .ok (some predecessor) ∧
        o'.stage = .watching node) ∨
      ∃ node, act = .watch true ∧ o.stage = .watching node ∧ o'.stage = .waiting node := by
  cases steps_of_step h with
  | release | cancel => exact .inl ⟨rfl, by simp⟩
  | test | read | unmark | clear | releaseFail => exact .inl ⟨releaser_stage _ _ o, by simp⟩
  | @compareBehind children node predecessor hstage hsome =>
    split at hblocked
    · next hblocking =>
      exact .inr (.inl ⟨children, node, predecessor, rfl, hstage, hsome, by rw [if_pos hblocking]⟩)
    · exact absurd hblocked (not_blocked_refused o)
  | @watch found node hstage =>
    cases found with
    | true => exact .inr (.inr ⟨node, rfl, hstage, rfl⟩)
    | false => exact hblocked.elim
  | enter | look | attempt | ensure | findOwn | findNone | findFirst | store | contend | compareFirst
  | wake | again | mark | clean | cleanNothing => exact hblocked.elim
  | attemptHeld =>
    split at hblocked
    · exact absurd hblocked (not_blocked_raised _ o)
    · exact absurd hblocked (not_blocked_refused o)
  | cancelled | compareRaised | timeOut => exact absurd hblocked (not_blocked_raised _ o)
  | giveUp => exact absurd hblocked (not_blocked_refused o)
  | fail hfails => exact absurd hblocked (not_blocked_failing hfails)

end LockObject

namespace World

variable [DecidableEq ι] {L : Locks ι} {w w' : World L}

theorem setLock_locks_of_ne {l l' : ι} (h : l' ≠ l) (o : LockObject) (w : World L) :
    (w.setLock l o).locks l' = w.locks l' :=
  Function.update_of_ne h _ _

/-- A step of anyone but the thread inside `acquire` leaves that where it is, or not blocked. -/
theorem blocked_of_step {act : LockAct L} (h : w.step act = some w') {l : ι}
    (hblocked : (w'.locks l).stage.Blocked) :
    (w'.locks l).stage = (w.locks l).stage ∧ (∀ children, act ≠ .thread l (.compare children)) ∨
      (∃ children node predecessor, act = .thread l (.compare children) ∧
        (w.locks l).stage = .comparing node ∧
        (L.config l).getPredecessor L.decimal node children = .ok (some predecessor) ∧
        (w'.locks l).stage = .watching node) ∨
      ∃ node, act = .thread l (.watch true) ∧ (w.locks l).stage = .watching node ∧
        (w'.locks l).stage = .waiting node := by
  cases steps_of_step h with
  | @thread l' act o _ ho =>
    by_cases hl : l = l'
    · subst hl
      rw [setLock_locks_self] at hblocked ⊢
      rcases LockObject.blocked_of_step ho hblocked with ⟨hsame, hact⟩ |
        ⟨children, node, predecessor, rfl, hcase⟩ | ⟨node, rfl, hcase⟩
      · exact .inl ⟨hsame, fun children heq => hact children (LockAct.thread.inj heq).2⟩
      · exact .inr (.inl ⟨children, node, predecessor, rfl, hcase⟩)
      · exact .inr (.inr ⟨node, rfl, hcase⟩)
    · rw [setLock_locks_of_ne hl]
      exact .inl ⟨rfl, fun children heq => hl (LockAct.thread.inj heq).1.symm⟩
  | @create l' | @clean l' =>
    by_cases hl : l = l'
    · subst hl
      rw [setLock_locks_self] at hblocked
      exact hblocked.elim
    · rw [setLock_locks_of_ne hl]
      exact .inl ⟨rfl, by simp⟩
  | @createFail l' e =>
    by_cases hl : l = l'
    · subst hl
      have hraised : ((w.setLock l ((w.locks l).raised e)).locks l).stage.Blocked := hblocked
      rw [setLock_locks_self] at hraised
      exact absurd hraised (LockObject.not_blocked_raised e _)
    · exact .inl ⟨congrArg LockObject.stage (setLock_locks_of_ne hl _ w), by simp⟩
  | @delete l' =>
    by_cases hl : l = l'
    · subst hl
      rw [setLock_locks_self, LockObject.releaser_stage]
      exact .inl ⟨rfl, by simp⟩
    · rw [setLock_locks_of_ne hl]
      exact .inl ⟨rfl, by simp⟩
  | createLate | vanish | appear | expire => exact .inl ⟨rfl, by simp⟩

end World

/-! ## The invariant -/

namespace Waits

variable {L : Locks ι} {w : Waits L}

/-- A `get` in the client's hands or on its way is not from the future, and the newest one is for
the predecessor. -/
def Current (w : Waits L) (client : Nat) (l : ι) (get : Nat) (path : PyStr) : Prop :=
  (L.config l).client = client ∧ get ≤ (w.waiters l).gets ∧
    (get = (w.waiters l).gets → (w.waiters l).asking = .asked →
      path = (w.waiters l).predecessor)

/-- The lock object waits, or has what it needs to. -/
def Parked (w : Waits L) (l : ι) : Prop :=
  (∃ node, (w.world.locks l).stage = .waiting node) ∨
    (∃ node, (w.world.locks l).stage = .watching node) ∧ (w.waiters l).asking = .asked ∧
      (w.waiters l).answer = some true

/-- The event is set, or will be by the callback thread, or a watcher is there to have it set. -/
def Heard (w : Waits L) (l : ι) : Prop :=
  (w.waiters l).wakeEvent = true ∨ l ∈ (w.link l).callbacks ∨
    (w.link l).Expects (w.waiters l).predecessor l

structure Vigilant (w : Waits L) : Prop where
  links : ∀ client, (w.links client).Tended w.names
  requested : ∀ client l get path, (l, get, path) ∈ (w.links client).requests →
    w.Current client l get path
  sent : ∀ client l get path found, .answer l get path found ∈ (w.links client).stream →
    w.Current client l get path
  parked : ∀ l, w.Parked l → w.Heard l
  before : ∀ l node, (w.world.locks l).stage = .watching node ∨
    (w.world.locks l).stage = .waiting node →
      (L.config l).Before L.decimal node (w.waiters l).predecessor

theorem vigilant_new : (new : Waits L).Vigilant where
  links := fun _ => Link.tended_new
  requested := nofun
  sent := nofun
  parked := fun l h => by
    rcases h with ⟨node, h⟩ | ⟨⟨node, h⟩, -⟩ <;> cases h
  before := fun l node h => by
    rcases h with h | h <;> cases h

@[simp] theorem setLink_links_self (client : Nat) (k : Link ι) (w : Waits L) :
    (w.setLink client k).links client = k :=
  Function.update_self ..

theorem setLink_links_of_ne {client client' : Nat} (h : client' ≠ client) (k : Link ι)
    (w : Waits L) : (w.setLink client k).links client' = w.links client' :=
  Function.update_of_ne h _ _

variable [DecidableEq ι]

@[simp] theorem setWaiter_waiters_self (l : ι) (x : Waiter) (w : Waits L) :
    (w.setWaiter l x).waiters l = x :=
  Function.update_self ..

theorem setWaiter_waiters_of_ne {l l' : ι} (h : l' ≠ l) (x : Waiter) (w : Waits L) :
    (w.setWaiter l x).waiters l' = w.waiters l' :=
  Function.update_of_ne h _ _

/-! ## Steps of the connections -/

omit [DecidableEq ι] in
/-- One connection has changed, and whoever was heard is. -/
theorem Vigilant.setLink (h : w.Vigilant) {client : Nat} {k : Link ι} (hk : k.Tended w.names)
    (hrequests : ∀ l get path, (l, get, path) ∈ k.requests → w.Current client l get path)
    (hsent : ∀ l get path found, .answer l get path found ∈ k.stream → w.Current client l get path)
    (hcallbacks : ∀ l ∈ (w.links client).callbacks,
      l ∈ k.callbacks ∨ (w.waiters l).wakeEvent = true)
    (hexpects : ∀ path l, (w.links client).Expects path l → k.Expects path l ∨ l ∈ k.callbacks) :
    (w.setLink client k).Vigilant := by
  constructor
  · exact Function.forall_update_iff w.links (p := fun _ k => k.Tended w.names) |>.mpr
      ⟨hk, fun client' _ => h.links client'⟩
  · intro client' l get path hmem
    by_cases hclient : client' = client
    · subst hclient
      rw [setLink_links_self] at hmem
      exact hrequests l get path hmem
    · rw [setLink_links_of_ne hclient] at hmem
      exact h.requested client' l get path hmem
  · intro client' l get path found hmem
    by_cases hclient : client' = client
    · subst hclient
      rw [setLink_links_self] at hmem
      exact hsent l get path found hmem
    · rw [setLink_links_of_ne hclient] at hmem
      exact h.sent client' l get path found hmem
  · intro l hparked
    have hold := h.parked l hparked
    by_cases hclient : (L.config l).client = client
    · subst hclient
      rw [Heard, Waits.link, setLink_links_self]
      rcases hold with hset | hcallback | hexpected
      · exact .inl hset
      · exact (hcallbacks l hcallback).elim (fun hin => .inr (.inl hin)) .inl
      · exact (hexpects _ l hexpected).elim (fun hin => .inr (.inr hin)) fun hin => .inr (.inl hin)
    · rw [Heard, Waits.link, setLink_links_of_ne hclient]
      exact hold
  · exact h.before

/-- The waiting of one lock object has changed. -/
theorem Vigilant.setWaiter (h : w.Vigilant) {l : ι} {x : Waiter}
    (hcurrent : ∀ client get path, w.Current client l get path →
      (w.setWaiter l x).Current client l get path)
    (hheard : (w.setWaiter l x).Parked l → (w.setWaiter l x).Heard l)
    (hbefore : x.predecessor = (w.waiters l).predecessor) : (w.setWaiter l x).Vigilant := by
  have hcurrent : ∀ client l' get path, w.Current client l' get path →
      (w.setWaiter l x).Current client l' get path := by
    intro client l' get path hold
    by_cases hl : l' = l
    · subst hl
      exact hcurrent client get path hold
    · rw [Current, setWaiter_waiters_of_ne hl]
      exact hold
  constructor
  · exact h.links
  · exact fun client l' get path hmem => hcurrent _ _ _ _ (h.requested client l' get path hmem)
  · exact fun client l' get path found hmem =>
      hcurrent _ _ _ _ (h.sent client l' get path found hmem)
  · intro l' hparked
    by_cases hl : l' = l
    · subst hl
      exact hheard hparked
    · rw [Parked, setWaiter_waiters_of_ne hl] at hparked
      rw [Heard, setWaiter_waiters_of_ne hl]
      exact h.parked l' hparked
  · intro l' node hstage
    by_cases hl : l' = l
    · subst hl
      rw [setWaiter_waiters_self, hbefore]
      exact h.before l' node hstage
    · rw [setWaiter_waiters_of_ne hl]
      exact h.before l' node hstage

theorem Vigilant.wake (h : w.Vigilant) (l : ι) : (w.wake l).Vigilant := by
  refine h.setWaiter (fun client get path hold => ?_) (fun _ => .inl ?_) rfl
  · rw [Current, setWaiter_waiters_self]
    exact hold
  · rw [setWaiter_waiters_self]

theorem Vigilant.clear (h : w.Vigilant) {l : ι} {node : PyStr}
    (hstage : (w.world.locks l).stage = .contending node) :
    (w.setWaiter l { w.waiters l with wakeEvent := false, cleared := true }).Vigilant := by
  refine h.setWaiter (fun client get path hold => ?_) (fun hparked => ?_) rfl
  · rw [Current, setWaiter_waiters_self]
    exact hold
  · rcases hparked with ⟨node', hparked⟩ | ⟨⟨node', hparked⟩, -⟩ <;>
      exact absurd (hstage.symm.trans hparked) nofun

omit [DecidableEq ι] in
theorem Vigilant.setListeners (h : w.Vigilant) (client : Nat) (listeners : List ι) :
    (w.setLink client { w.links client with listeners := listeners }).Vigilant :=
  h.setLink ((h.links client).congr rfl rfl rfl rfl rfl) (h.requested client) (h.sent client)
    (fun _ => .inl) fun _ _ => .inl

theorem Vigilant.addListener (h : w.Vigilant) {l : ι} {node : PyStr}
    (hstage : (w.world.locks l).stage = .watching node) :
    ((w.setLink (L.config l).client
        { w.link l with listeners := l :: (w.link l).listeners }).setWaiter l
      { w.waiters l with asking := .getting }).Vigilant := by
  have hlink := h.setListeners (L.config l).client (l :: (w.link l).listeners)
  refine hlink.setWaiter (fun client get path hold => ?_) (fun hparked => ?_) rfl
  · rw [Current, setWaiter_waiters_self]
    exact ⟨hold.1, hold.2.1, nofun⟩
  · rcases hparked with ⟨node', hparked⟩ | ⟨-, hasked, -⟩
    · exact absurd (hstage.symm.trans hparked) nofun
    · rw [setWaiter_waiters_self] at hasked
      cases hasked

theorem Vigilant.get (h : w.Vigilant) {l : ι} {node : PyStr}
    (hstage : (w.world.locks l).stage = .watching node) :
    ((w.setLink (L.config l).client { w.link l with
        requests := (w.link l).requests ++
          [(l, (w.waiters l).gets + 1, (w.waiters l).predecessor)] }).setWaiter l
      { w.waiters l with
        asking := .asked, gets := (w.waiters l).gets + 1, answer := none }).Vigilant := by
  have hwaiter : (w.setWaiter l { w.waiters l with
      asking := .asked, gets := (w.waiters l).gets + 1, answer := none }).Vigilant := by
    refine h.setWaiter (fun client get path hold => ?_) (fun hparked => ?_) rfl
    · -- what is on its way is older than the new one
      have hle := hold.2.1
      rw [Current, setWaiter_waiters_self]
      exact ⟨hold.1, Nat.le_succ_of_le hle, fun hget => by dsimp only at hget; omega⟩
    · rcases hparked with ⟨node', hparked⟩ | ⟨-, -, hanswer⟩
      · exact absurd (hstage.symm.trans hparked) nofun
      · rw [setWaiter_waiters_self] at hanswer
        cases hanswer
  refine hwaiter.setLink ((h.links (L.config l).client).congr rfl rfl rfl rfl rfl)
    (fun l' get path hmem => ?_) (hwaiter.sent _) (fun _ => .inl) (fun _ _ => .inl)
  rcases List.mem_append.mp hmem with hmem | hmem
  · exact hwaiter.requested _ l' get path hmem
  · cases List.mem_singleton.mp hmem
    rw [Current, setWaiter_waiters_self]
    exact ⟨rfl, Nat.le_refl _, fun _ _ => rfl⟩

theorem Vigilant.read (h : w.Vigilant) {client : Nat} {l : ι} {get : Nat} {path : PyStr}
    {found : Bool} {stream : List (Delivery ι)} (hthread : (w.links client).thread = .serving)
    (hstream : (w.links client).stream = .answer l get path found :: stream) :
    let w' := w.setLink client { w.links client with
      stream := stream, thread := if found then .registering path l else .serving }
    (if get = (w.waiters l).gets then
      w'.setWaiter l { w.waiters l with answer := some found } else w').Vigilant := by
  intro w'
  have hcurrent := h.sent client l get path found (hstream ▸ List.mem_cons_self)
  have hlink : w'.Vigilant := by
    refine h.setLink ((h.links client).answer hstream) (h.requested client)
      (fun l' get' path' found' hmem => h.sent client l' get' path' found'
        (hstream ▸ List.mem_cons_of_mem _ hmem)) (fun _ => .inl) (fun path' l' hexpects => ?_)
    exact .inl (.inl (hexpects.resolve_right fun heq => absurd (hthread.symm.trans heq) nofun))
  split
  · next hget =>
    refine hlink.setWaiter (fun client' get' path' hold => ?_) (fun hparked => ?_) rfl
    · rw [Current, setWaiter_waiters_self]
      exact hold
    · -- the answer is the newest one, so the watcher about to be registered is for the predecessor
      by_cases hasked : (w.waiters l).asking = .asked ∧ found = true
      · obtain ⟨hasked, rfl⟩ := hasked
        obtain rfl := hcurrent.1
        refine .inr (.inr (.inr ?_))
        rw [setWaiter_waiters_self, ← hcurrent.2.2 hget hasked]
        show (w'.links (L.config l).client).thread = _
        rw [setLink_links_self, if_pos rfl]
      · rcases hparked with hwaiting | ⟨-, hasking, hanswer⟩
        · have hold := hlink.parked l (.inl hwaiting)
          rw [Heard, setWaiter_waiters_self]
          exact hold
        · rw [setWaiter_waiters_self] at hasking hanswer
          exact absurd ⟨hasking, Option.some.inj hanswer⟩ hasked
  · exact hlink

omit [DecidableEq ι] in
theorem Vigilant.change (h : w.Vigilant) (name : PyStr) :
    ({ w with links := fun client => (w.links client).fire (· ≠ name) } : Waits L).Vigilant where
  links := fun client => (h.links client).fire fun _ hpath _ => hpath
  requested := h.requested
  sent := fun client l get path found hmem =>
    h.sent client l get path found ((Link.follows_fire _ _).answers l get path found hmem)
  parked := h.parked
  before := h.before

/-! ## Steps of the lock objects -/

theorem follow_waiters_of_thread (l : ι) (act : LockObject.Act) (world : World L) (w : Waits L) :
    (w.follow (.thread l act) world).waiters l = waited L l (w.world.locks l) act (w.waiters l) :=
  Function.update_self ..

theorem follow_waiters_of_ne {act : LockAct L} {l : ι} (h : ∀ a, act ≠ .thread l a)
    (world : World L) (w : Waits L) : (w.follow act world).waiters l = w.waiters l := by
  unfold follow
  dsimp only
  split
  · next l' a =>
    refine Function.update_of_ne (fun heq => ?_) _ _
    subst heq
    exact h a rfl
  · rfl

theorem follow_links (act : LockAct L) (world : World L) (w : Waits L) (client : Nat) :
    (w.links client).Follows ((w.follow act world).links client) := by
  have hfire := Link.follows_fire (fun path => decide (path ∈ world.nodes.map Znode.name))
    (w.links client)
  show Link.Follows _ (w.followLink act world client)
  unfold followLink
  dsimp only
  split
  · split
    · exact hfire.broken
    · exact hfire
  · split
    · exact ⟨hfire.requests, hfire.callbacks, hfire.watchers, hfire.thread, hfire.answers⟩
    · exact hfire
  · exact hfire

theorem follow_tended (act : LockAct L) (world : World L) {client : Nat}
    (h : (w.links client).Tended w.names) :
    ((w.follow act world).links client).Tended (world.nodes.map Znode.name) := by
  have hfire : ((w.links client).fire fun path =>
      decide (path ∈ world.nodes.map Znode.name)).Tended (world.nodes.map Znode.name) :=
    h.fire fun path _ hremains => of_decide_eq_true hremains
  show Link.Tended _ (w.followLink act world client)
  unfold followLink
  dsimp only
  split
  · split
    · exact hfire.broken
    · exact hfire
  · split
    · exact hfire.congr rfl rfl rfl rfl rfl
    · exact hfire
  · exact hfire

omit [DecidableEq ι] in
/-- Only the comparison changes what the loop waits for. -/
theorem waited_eq (l : ι) (o : LockObject) (act : LockObject.Act) (x : Waiter)
    (h : ∀ children, act ≠ .compare children) :
    (waited L l o act x).predecessor = x.predecessor ∧
      (waited L l o act x).asking = x.asking ∧ (waited L l o act x).answer = x.answer ∧
      (waited L l o act x).gets = x.gets ∧ (waited L l o act x).wakeEvent = x.wakeEvent := by
  cases act with
  | compare children => exact absurd rfl (h children)
  | _ => exact ⟨rfl, rfl, rfl, rfl, rfl⟩

/-- A step that is not a comparison leaves the waiter as it was, as far as waiting goes. -/
theorem follow_waiter {act : LockAct L} {l : ι} (h : ∀ children, act ≠ .thread l (.compare children))
    (world : World L) (w : Waits L) :
    ((w.follow act world).waiters l).predecessor = (w.waiters l).predecessor ∧
      ((w.follow act world).waiters l).asking = (w.waiters l).asking ∧
      ((w.follow act world).waiters l).answer = (w.waiters l).answer ∧
      ((w.follow act world).waiters l).gets = (w.waiters l).gets ∧
      ((w.follow act world).waiters l).wakeEvent = (w.waiters l).wakeEvent := by
  by_cases hthread : ∃ a, act = .thread l a
  · obtain ⟨a, rfl⟩ := hthread
    rw [follow_waiters_of_thread]
    exact waited_eq l _ a _ fun children heq => h children (heq ▸ rfl)
  · rw [follow_waiters_of_ne fun a heq => hthread ⟨a, heq⟩]
    exact ⟨rfl, rfl, rfl, rfl, rfl⟩

/-- Whoever was heard is, when neither the loop nor the connections take anything away. -/
theorem Heard.follow {act : LockAct L} {l : ι} (hheard : w.Heard l)
    (h : ∀ children, act ≠ .thread l (.compare children)) (world : World L) :
    (w.follow act world).Heard l := by
  obtain ⟨hpredecessor, -, -, -, hwake⟩ := follow_waiter h world w
  have hlink := follow_links act world w (L.config l).client
  rcases hheard with hset | hcallback | hexpected
  · exact .inl (hwake.trans hset)
  · exact .inr (.inl (hlink.callbacks ▸ hcallback))
  · refine .inr (.inr ?_)
    rw [hpredecessor]
    exact hexpected.imp (fun hin => hlink.watchers ▸ hin) fun heq => hlink.thread.trans heq

/-- A comparison that finds a predecessor. -/
theorem follow_waiter_of_compare {l : ι} {children : List PyStr} {node predecessor : PyStr}
    (hstage : (w.world.locks l).stage = .comparing node)
    (h : (L.config l).getPredecessor L.decimal node children = .ok (some predecessor))
    (world : World L) : (w.follow (.thread l (.compare children)) world).waiters l =
      { w.waiters l with predecessor := predecessor, asking := .adding } := by
  rw [follow_waiters_of_thread]
  simp only [waited, hstage, h]

omit [DecidableEq ι] in
theorem waited_compare (l : ι) (o : LockObject) (children : List PyStr) (x : Waiter) :
    waited L l o (.compare children) x = x ∨ ∃ predecessor,
      waited L l o (.compare children) x = { x with predecessor := predecessor, asking := .adding } := by
  unfold waited
  dsimp only
  split
  · split
    · exact .inr ⟨_, rfl⟩
    · exact .inl rfl
  · exact .inl rfl

theorem Current.follow {act : LockAct L} {client : Nat} {l : ι} {get : Nat} {path : PyStr}
    (hcurrent : w.Current client l get path) (world : World L) :
    (w.follow act world).Current client l get path := by
  by_cases hcompare : ∃ children, act = .thread l (.compare children)
  · obtain ⟨children, rfl⟩ := hcompare
    rw [Current, follow_waiters_of_thread]
    rcases waited_compare (L := L) l (w.world.locks l) children (w.waiters l) with
      heq | ⟨predecessor, heq⟩
    · rw [heq]
      exact hcurrent
    · rw [heq]
      exact ⟨hcurrent.1, hcurrent.2.1, nofun⟩
  · obtain ⟨hpredecessor, hasking, -, hgets, -⟩ :=
      follow_waiter (fun children heq => hcompare ⟨children, heq⟩) world w
    rw [Current, hpredecessor, hasking, hgets]
    exact hcurrent

omit [DecidableEq ι] in
theorem not_compare (l : ι) (children : List PyStr) :
    (.thread l (.watch true) : LockAct L) ≠ .thread l (.compare children) := by
  intro h
  cases h

theorem Vigilant.follow (h : w.Vigilant) {act : LockAct L} {world : World L}
    (hallows : w.allows act = true) (hstep : w.world.step act = some world) :
    (w.follow act world).Vigilant := by
  constructor
  · exact fun client => follow_tended act world (h.links client)
  · intro client l get path hmem
    have hlink := follow_links act world w client
    exact (h.requested client l get path (hlink.requests ▸ hmem)).follow world
  · intro client l get path found hmem
    have hlink := follow_links act world w client
    exact (h.sent client l get path found (hlink.answers l get path found hmem)).follow world
  · intro l hparked
    have hblocked : (world.locks l).stage.Blocked := by
      rcases hparked with ⟨node, hstage⟩ | ⟨⟨node, hstage⟩, -⟩ <;>
        rw [show (world.locks l).stage = _ from hstage] <;> trivial
    rcases World.blocked_of_step hstep hblocked with ⟨hsame, hact⟩ |
      ⟨children, node, predecessor, rfl, hold, hpredecessor, hstage⟩ | ⟨node, rfl, hold, -⟩
    · obtain ⟨-, hasking, hanswer, -, -⟩ := follow_waiter hact world w
      have hparked' : w.Parked l := by
        rw [Parked, hasking, hanswer] at hparked
        rw [Parked, ← hsame]
        exact hparked
      exact (h.parked l hparked').follow hact world
    · -- the predecessor is new, and has not been asked for
      rcases hparked with ⟨node', hwaiting⟩ | ⟨-, hasked, -⟩
      · exact absurd (hstage.symm.trans hwaiting) nofun
      · rw [follow_waiter_of_compare hold hpredecessor] at hasked
        cases hasked
    · have hanswered : (w.waiters l).asking = .asked ∧ (w.waiters l).answer = some true := by
        simpa [allows] using hallows
      exact (h.parked l (.inr ⟨⟨node, hold⟩, hanswered⟩)).follow (not_compare l) world
  · intro l node hstage
    have hblocked : (world.locks l).stage.Blocked := by
      rcases hstage with hstage | hstage <;>
        rw [show (world.locks l).stage = _ from hstage] <;> trivial
    rcases World.blocked_of_step hstep hblocked with ⟨hsame, hact⟩ |
      ⟨children, node', predecessor, rfl, hold, hpredecessor, hstage'⟩ | ⟨node', rfl, hold, hstage'⟩
    · rw [(follow_waiter hact world w).1]
      refine h.before l node ?_
      rw [← hsame]
      exact hstage
    · rw [follow_waiter_of_compare hold hpredecessor]
      have hnode : node = node' := by
        rcases hstage with hstage | hstage <;> cases hstage'.symm.trans hstage
        rfl
      exact hnode ▸ LockConfig.before_of_getPredecessor hpredecessor
    · rw [(follow_waiter (not_compare l) world w).1]
      have hnode : node = node' := by
        rcases hstage with hstage | hstage <;> cases hstage'.symm.trans hstage
        rfl
      exact h.before l node (.inl (hnode ▸ hold))

/-! ## Runs -/

theorem Vigilant.step {w' : Waits L} (h : w.Vigilant) {act : WaitAct L}
    (hstep : w.step act = some w') : w'.Vigilant := by
  cases steps_of_step hstep with
  | lock hallows hworld => exact h.follow hallows hworld
  | clear hstage _ => exact h.clear hstage
  | addListener hstage _ => exact h.addListener hstage
  | get hstage _ => exact h.get hstage
  | @cancelSet l _ =>
    refine h.setWaiter (fun client get path hold => ?_) (fun _ => .inl ?_) rfl
    · rw [Current, setWaiter_waiters_self]
      exact hold
    · rw [setWaiter_waiters_self]
  | @serve client children k halive _ hserve =>
    obtain ⟨hcallbacks, hexpects, hrequests, hanswers⟩ := Link.serve_frame hserve
    refine h.setLink ((h.links client).serve halive hserve)
      (fun l get path hmem => h.requested client l get path (hrequests _ hmem))
      (fun l get path found hmem => ?_) (fun l hin => .inl (hcallbacks ▸ hin))
      fun path l hold => .inl (hexpects path l hold)
    rcases hanswers l get path found hmem with hold | hold
    · exact h.sent client l get path found hold
    · exact h.requested client l get path hold
  | @change name => exact h.change name
  | answer hthread hstream => exact h.read hthread hstream
  | @event client path stream hthread hstream =>
    refine h.setLink ((h.links client).event hthread hstream) (h.requested client)
      (fun l get path' found hmem => h.sent client l get path' found
        (hstream ▸ List.mem_cons_of_mem _ hmem))
      (fun l hin => .inl (List.mem_append_left _ hin)) (fun path' l hexpects => ?_)
    have hin := hexpects.resolve_right fun heq => absurd (hthread.symm.trans heq) nofun
    by_cases hpath : path' = path
    · exact .inr (List.mem_append_right _ (List.mem_map.mpr
        ⟨(path', l), List.mem_filter.mpr ⟨hin, decide_eq_true hpath⟩, rfl⟩))
    · exact .inl (.inl (List.mem_filter.mpr ⟨hin, decide_eq_true hpath⟩))
  | @register client path l hthread =>
    refine h.setLink ((h.links client).register hthread) (h.requested client) (h.sent client)
      (fun _ => .inl) (fun path' l' hexpects => .inl (.inl ?_))
    rcases hexpects with hin | hin
    · exact List.mem_cons_of_mem _ hin
    · cases hthread.symm.trans hin
      exact List.mem_cons_self
  | @lose client =>
    exact h.setLink (h.links client).broken (h.requested client) (h.sent client) (fun _ => .inl)
      fun _ _ => .inl
  | @drop client hthread =>
    refine h.setLink (h.links client).drop (h.requested client) (h.sent client) (fun _ => .inl)
      fun path l hexpects => .inl (.inl (hexpects.resolve_right fun heq => ?_))
    rcases hthread with hthread | hthread <;> exact absurd (hthread.symm.trans heq) nofun
  | @tell client connected l listeners hthread =>
    refine (h.wake l).setLink (((h.links client).tell hthread).congr rfl rfl rfl rfl rfl)
      ((h.wake l).requested client) ((h.wake l).sent client) (fun _ => .inl)
      fun path l' hexpects => .inl (.inl (hexpects.resolve_right fun heq => ?_))
    exact absurd (hthread.symm.trans heq) nofun
  | @told client connected hthread =>
    refine h.setLink ((h.links client).told hthread) (h.requested client) (h.sent client)
      (fun _ => .inl) fun path l hexpects => .inl (.inl (hexpects.resolve_right fun heq => ?_))
    exact absurd (hthread.symm.trans heq) nofun
  | @reset client hthread =>
    refine h.setLink ((h.links client).reset hthread) nofun nofun
      (fun l hin => .inl (List.mem_append_left _ hin)) (fun path l hexpects => .inr ?_)
    have hin := hexpects.resolve_right fun heq => absurd (hthread.symm.trans heq) nofun
    exact List.mem_append_right _ (List.mem_map_of_mem hin)
  | @connect client hthread =>
    refine h.setLink ((h.links client).connect hthread) (h.requested client) (h.sent client)
      (fun _ => .inl) fun path l hexpects => .inl (.inl (hexpects.resolve_right fun heq => ?_))
    exact absurd (hthread.symm.trans heq) nofun
  | @callback client l callbacks hcallbacks =>
    refine (h.wake l).setLink ((h.links client).congr rfl rfl rfl rfl rfl)
      ((h.wake l).requested client) ((h.wake l).sent client) (fun l' hin => ?_) fun _ _ => .inl
    have hin' : l' ∈ (w.links client).callbacks := hin
    rw [hcallbacks] at hin'
    rcases List.mem_cons.mp hin' with rfl | hin'
    · exact .inr (by rw [Waits.wake, setWaiter_waiters_self])
    · exact .inl hin'

theorem vigilant_of_reachable (h : (vigil L).Reachable w) : w.Vigilant := by
  refine h.invariant vigilant_new fun w act _ hw hen _ => ?_
  obtain ⟨w', hw'⟩ := Option.isSome_iff_exists.mp hen
  show Vigilant ((w.step act).getD w)
  rw [hw', Option.getD_some]
  exact hw.step hw'

theorem step_world {w' : Waits L} {act : WaitAct L} (h : w.step act = some w')
    (hact : ∀ a, act ≠ .lock a) : w'.world = w.world := by
  cases steps_of_step h with
  | @lock a world _ _ => exact absurd rfl (hact a)
  | answer _ _ => split <;> rfl
  | _ => rfl

/-- A run with its waiting left out is a run of the lock objects. -/
theorem contention_of_reachable (h : (vigil L).Reachable w) : (contention L).Reachable w.world := by
  induction h with
  | init => exact .init
  | @step w act _ hen _ ih =>
    obtain ⟨w', hw'⟩ := Option.isSome_iff_exists.mp hen
    show (contention L).Reachable ((w.step act).getD w).world
    rw [hw', Option.getD_some]
    by_cases hact : ∃ a, act = .lock a
    · obtain ⟨act, rfl⟩ := hact
      obtain ⟨-, hstep⟩ := Option.ite_none_right_eq_some.mp hw'
      obtain ⟨world, hworld, rfl⟩ := Option.map_eq_some_iff.mp hstep
      exact World.reachable_step ih hworld
    · have hsame : w'.world = w.world := step_world hw' fun a heq => hact ⟨a, heq⟩
      rw [hsame]
      exact ih

/-! ## Nobody is forgotten -/

/-- The event is set, or the callback thread will set it, or the connection is lost, or the event
that the watcher waits for is on its way. -/
def WakeUpPending (w : Waits L) (l : ι) : Prop :=
  (w.waiters l).wakeEvent = true ∨ l ∈ (w.link l).callbacks ∨
    ∃ path, (w.link l).Expects path l ∧
      ((w.link l).alive = false ∨ .event path ∈ (w.link l).stream)

/-- The server holds a watch for `l`, on a node that is there and comes before its own. -/
def Watches (w : Waits L) (l : ι) (node path : PyStr) : Prop :=
  (w.link l).Expects path l ∧ (w.link l).alive = true ∧ path ∈ (w.link l).armed ∧
    path ∈ w.names ∧ (L.config l).Before L.decimal node path

/-- The lock object with the first node waits for the second to go. -/
def WaitsFor (w : Waits L) (node path : PyStr) : Prop :=
  ∃ l, (w.world.locks l).stage = .waiting node ∧ ¬ w.WakeUpPending l ∧ w.Watches l node path

structure NeverForgotten (w : Waits L) : Prop where
  attended : ∀ l node, (w.world.locks l).stage = .waiting node →
    w.WakeUpPending l ∨ ∃ path, w.Watches l node path
  acyclic : ∀ node, ¬ Relation.TransGen w.WaitsFor node node
  first : ∀ l node, (w.world.locks l).stage = .waiting node →
    (∀ name ∈ w.names, ¬ (L.config l).Before L.decimal node name) → w.WakeUpPending l

omit [DecidableEq ι] in
theorem Vigilant.attended (h : w.Vigilant) {l : ι} {node : PyStr}
    (hstage : (w.world.locks l).stage = .waiting node) :
    w.WakeUpPending l ∨ ∃ path, w.Watches l node path := by
  have hlink := h.links (L.config l).client
  rcases h.parked l (.inl ⟨node, hstage⟩) with hset | hcallback | hexpects
  · exact .inl (.inl hset)
  · exact .inl (.inr (.inl hcallback))
  · cases halive : (w.link l).alive with
    | false => exact .inl (.inr (.inr ⟨_, hexpects, .inl halive⟩))
    | true =>
      rcases hlink.expected halive _ l hexpects with harmed | hevent
      · exact .inr ⟨_, hexpects, halive, harmed, hlink.armed _ harmed,
          h.before l node (.inr hstage)⟩
      · exact .inl (.inr (.inr ⟨_, hexpects, .inr hevent⟩))

omit [DecidableEq ι] in
/-- Nodes of lock objects are waited for in the order of their numbers. -/
theorem number_lt_of_before {l l' : ι} {number number' : Nat} (hlimit' : number' < sequenceLimit)
    (h : (L.config l).Before L.decimal ((L.config l).nodeName number)
      ((L.config l').nodeName number')) : number' < number := by
  obtain ⟨sequence, hsearch, hlt⟩ := h
  rw [(eq_of_contendersSearch hlimit' hsearch).1, LockConfig.drop_nodeName] at hlt
  by_contra hge
  rcases Nat.lt_or_eq_of_le (Nat.le_of_not_lt hge) with hgt | rfl
  · exact List.lt_asymm hlt (sequenceText_lt hgt hlimit')
  · exact List.lt_irrefl _ hlt

/-- The node of a lock object that waits has a number. -/
theorem number_of_waiting (h : (vigil L).Reachable w) {l : ι} {node : PyStr}
    (hstage : (w.world.locks l).stage = .waiting node) :
    ∃ number < sequenceLimit, node = (L.config l).nodeName number := by
  have hsound := World.sound_of_reachable (contention_of_reachable h)
  obtain ⟨number, hnumber, hnode⟩ := (hsound.locks l).owns node (by rw [hstage]; rfl)
  exact ⟨number, Nat.lt_of_lt_of_le hnumber hsound.numbered.bound, hnode⟩

/-- Along the nodes that wait for each other the numbers go down. -/
theorem number_lt_of_transGen (h : (vigil L).Reachable w) {l l' : ι} {number number' : Nat}
    {node node' : PyStr} (hlimit : number < sequenceLimit) (hlimit' : number' < sequenceLimit)
    (hnode : node = (L.config l).nodeName number) (hnode' : node' = (L.config l').nodeName number')
    (hchain : Relation.TransGen w.WaitsFor node node') : number' < number := by
  induction hchain generalizing l' number' with
  | single hwaits =>
    obtain ⟨m, hstage, -, -, -, -, -, hbefore⟩ := hwaits
    obtain ⟨k, hk, hname⟩ := number_of_waiting h hstage
    obtain ⟨rfl, rfl⟩ := Locks.nodeName_injective hlimit hk (hnode.symm.trans hname)
    rw [hnode, hnode'] at hbefore
    exact number_lt_of_before hlimit' hbefore
  | tail _ hwaits ih =>
    obtain ⟨m, hstage, -, -, -, -, -, hbefore⟩ := hwaits
    obtain ⟨k, hk, hname⟩ := number_of_waiting h hstage
    have hlt := ih hk hname
    rw [hname, hnode'] at hbefore
    exact Nat.lt_trans (number_lt_of_before hlimit' hbefore) hlt

/-- In every state of every run, a lock object in `wake_event.wait` has been woken, or will be by
what is on its way, or has a watch on a node before its own. -/
theorem waiters_are_never_forgotten (h : (vigil L).Reachable w) : w.NeverForgotten where
  attended l node hstage := (vigilant_of_reachable h).attended hstage
  acyclic node hcycle := by
    obtain ⟨_, ⟨l, hstage, -⟩, -⟩ := Relation.TransGen.head'_iff.mp hcycle
    obtain ⟨number, hlimit, hnode⟩ := number_of_waiting h hstage
    exact Nat.lt_irrefl number (number_lt_of_transGen h hlimit hlimit hnode hnode hcycle)
  first l node hstage hfirst := by
    rcases (vigilant_of_reachable h).attended hstage with hpending | ⟨path, hwatches⟩
    · exact hpending
    · obtain ⟨-, -, -, hthere, hbefore⟩ := hwatches
      exact absurd hbefore (hfirst path hthere)

/-- The writer holds the lock, and the reader waits for it. -/
def readerWaits : Waits World.writerAndReader :=
  (vigil World.writerAndReader).exec .new
    (([.connect 0, .tell 0] : List (WaitAct World.writerAndReader)) ++
      ([.enter true false true, .look, .attempt, .ensure, .find []] : List LockObject.Act).map
        (.lock ∘ .thread true) ++
      ([.lock (.create true 0), .lock (.thread true .store), .clear true] :
        List (WaitAct World.writerAndReader)) ++
      ([.contend, .compare [(World.writerAndReader.config true).nodeName 0], .mark] :
        List LockObject.Act).map (.lock ∘ .thread true) ++
      ([.enter true false true, .look, .attempt, .ensure, .find []] : List LockObject.Act).map
        (.lock ∘ .thread false) ++
      ([.lock (.create false 1), .lock (.thread false .store), .clear false] :
        List (WaitAct World.writerAndReader)) ++
      ([.contend, .compare [(World.writerAndReader.config true).nodeName 0,
        (World.writerAndReader.config false).nodeName 1]] : List LockObject.Act).map
        (.lock ∘ .thread false) ++
      ([.addListener false, .get false,
        .serve 0 [(World.writerAndReader.config false).nodeName 1,
          (World.writerAndReader.config true).nodeName 0],
        .read 0, .lock (.thread false (.watch true)), .register 0] :
        List (WaitAct World.writerAndReader)))

theorem neverForgotten_reader :
    (readerWaits.world.locks false).stage =
        .waiting ((World.writerAndReader.config false).nodeName 1) ∧
      readerWaits.NeverForgotten :=
  ⟨by decide +kernel, waiters_are_never_forgotten (.of_legal (by decide +kernel))⟩

end Waits

end Kazoo
