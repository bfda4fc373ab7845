import Kazoo.Lib.Machine
import Kazoo.Protocol.States
import Mathlib.Data.List.Chain

/-!
# Watching the data of a node

`DataWatch` of `kazoo/recipe/watchers.py`, and what happens meanwhile to its function in the tables of
the client and at the server.
-/

namespace Kazoo

/-! ## One function in the client's table of watchers -/

structure WatchLine where
  connected : Bool
  /-- The function is in the table, and the server has its watch. -/
  registered : Bool
  /-- The server's watch has fired, and the client has not read it. -/
  event : Option WatchedEvent
  deriving DecidableEq

namespace WatchLine

def register (l : WatchLine) : WatchLine := { l with registered := true }

/-- A watch of the server fires once. -/
def fire (l : WatchLine) (event : WatchedEvent) : WatchLine :=
  if l.registered = true then { l with registered := false, event := some event } else l

/-- `_reset_watchers`: what the function is called with when the connection is lost. -/
def resetWatchers (l : WatchLine) : List WatchedEvent :=
  if l.registered = true ∨ l.event ≠ none then [⟨.NONE, .CONNECTING, none⟩] else []

def drop (_l : WatchLine) : WatchLine := ⟨false, false, none⟩

variable {l : WatchLine} {event : WatchedEvent}

@[simp] theorem fire_connected : (l.fire event).connected = l.connected := by
  unfold fire
  split <;> rfl

theorem fire_of_registered (h : l.registered = true) :
    l.fire event = { l with registered := false, event := some event } := if_pos h

theorem fire_of_not_registered (h : l.registered = false) : l.fire event = l :=
  if_neg (by rw [h]; decide)

theorem registered_of_fire (h : (l.fire event).registered = true) : l.registered = true := by
  unfold fire at h
  split at h
  · cases h
  · exact h

theorem event_fire (h : l.event ≠ none) : (l.fire event).event ≠ none := by
  unfold fire
  split
  · exact Option.some_ne_none _
  · exact h

theorem resetWatchers_ne_nil (h : l.registered = true ∨ l.event ≠ none) : l.resetWatchers ≠ [] := by
  rw [resetWatchers, if_pos h]
  exact List.cons_ne_nil _ _

end WatchLine

/-! ## The node -/

structure DataNode where
  data : Option Bytes
  stat : ZnodeStat
  deriving DecidableEq

/-- What the clients do to the node. -/
inductive NodeChange
  | create (node : DataNode)
  | set (node : DataNode)
  | delete
  deriving DecidableEq

namespace NodeChange

/-- The node afterwards. -/
def result : NodeChange → Option DataNode
  | .create node | .set node => some node
  | .delete => none

def type : NodeChange → EventType
  | .create _ => .CREATED
  | .set _ => .CHANGED
  | .delete => .DELETED

/-- Each write has a zxid of its own, greater than those before. -/
def Allowed (node : Option DataNode) (zxid : Int) : NodeChange → Prop
  | .create new => node = none ∧ zxid < new.stat.mzxid
  | .set new => node ≠ none ∧ zxid < new.stat.mzxid
  | .delete => node ≠ none

def zxid (old : Int) : NodeChange → Int
  | .create new | .set new => new.stat.mzxid
  | .delete => old

instance (node : Option DataNode) (zxid : Int) (c : NodeChange) : Decidable (c.Allowed node zxid) := by
  cases c <;> unfold Allowed <;> infer_instance

end NodeChange

/-! ## The function of the user -/

/-- How a call of a Python function ends. -/
inductive FuncEnd
  | returnsFalse | returns | typeError | raises
  deriving DecidableEq

/-- One call that entered the function, with its arguments. -/
structure Invocation where
  data : Option Bytes
  stat : Option ZnodeStat
  /-- The third argument, where it was given. -/
  event : Option (Option WatchedEvent)
  deriving DecidableEq

structure DataWatchFunc where
  params : Nat
  either : params = 2 ∨ params = 3

/-- A call with `given` arguments; `body` is how the function ends once it is entered. -/
def DataWatchFunc.call (func : DataWatchFunc) (given : Nat) (args : Invocation) (body : FuncEnd) :
    List Invocation × FuncEnd :=
  if given = func.params then ([args], body) else ([], .typeError)

/-- `_log_func_exception`: three arguments first, and two after a `TypeError`. -/
def DataWatchFunc.logFuncException (func : DataWatchFunc) (data : Option Bytes)
    (stat : Option ZnodeStat) (event : Option WatchedEvent) (body : FuncEnd) :
    List Invocation × FuncEnd :=
  match func.call 3 ⟨data, stat, some event⟩ body with
  | (made, .typeError) =>
    let again := func.call 2 ⟨data, stat, none⟩ body
    (again.1 ++ made, again.2)
  | (made, result) => (made, result)

def Invocation.version (i : Invocation) : Option Int := i.stat.map (·.mzxid)

/-- The function is entered once, also when it raises a `TypeError` itself. -/
theorem DataWatchFunc.logFuncException_eq (func : DataWatchFunc) (data : Option Bytes)
    (stat : Option ZnodeStat) (event : Option WatchedEvent) (body : FuncEnd) :
    ∃ third, func.logFuncException data stat event body = ([⟨data, stat, third⟩], body) := by
  rcases func.either with htwo | hthree
  · refine ⟨none, ?_⟩
    simp [logFuncException, call, htwo]
  · refine ⟨some event, ?_⟩
    cases body <;> simp [logFuncException, call, hthree]

/-! ## The runs of `_get_data` -/

inductive DataStage
  | absent
  /-- `get` is asked. -/
  | getting (event : Option WatchedEvent)
  /-- `get` raised `NoNodeError`, and `exists` is asked. -/
  | missing (event : Option WatchedEvent)
  /-- `exists` found the node. -/
  | found
  /-- The answer is there: the node, or that there is none. -/
  | answered (event : Option WatchedEvent) (node : Option DataNode)
  deriving DecidableEq

structure DataWatching where
  node : Option DataNode
  /-- The last zxid of a write. -/
  zxid : Int
  line : WatchLine
  /-- The runs that have not taken the lock, with the event they were called for. -/
  calls : List (Option WatchedEvent)
  stage : DataStage
  version : Option Int
  everCalled : Bool
  stopped : Bool
  /-- `_session_watcher` is a listener of the client. -/
  listening : Bool
  /-- The calls of the function, latest first. -/
  invocations : List Invocation
  deriving DecidableEq

structure DataWatches where
  path : PyStr
  func : DataWatchFunc
  node : Option DataNode
  zxid : Int
  connected : Bool
  le_zxid : ∀ n ∈ node, n.stat.mzxid ≤ zxid

inductive DataWatchAct
  | change (c : NodeChange)
  /-- The `n`-th of the waiting runs takes the lock. -/
  | begin (n : Nat)
  | answer
  /-- The run goes on with its answer; the function, if it is called, ends so. -/
  | resume (body : FuncEnd)
  | deliver
  | drop
  | expire
  | reconnect
  deriving DecidableEq

namespace DataWatching

/-- `_session_watcher`. -/
def sessionWatcher (s : DataWatching) (state : KazooState) : DataWatching :=
  if s.listening = true ∧ state = .CONNECTED then { s with calls := s.calls ++ [none] } else s

/-- The rest of `_get_data`, once `data` and `stat` are there. -/
def finish (W : DataWatches) (s : DataWatching) (data : Option Bytes) (stat : Option ZnodeStat)
    (event : Option WatchedEvent) (body : FuncEnd) : DataWatching :=
  let version := stat.map (·.mzxid)
  if s.version ≠ version ∨ s.everCalled = false then
    let (made, result) := W.func.logFuncException data stat event body
    { s with
      stage := .absent, version, everCalled := true
      stopped := s.stopped || (result == .returnsFalse)
      listening := s.listening && (result != .returnsFalse)
      invocations := made ++ s.invocations }
  else { s with stage := .absent, version }

/-- The server's answer to the run's request. -/
def answer (s : DataWatching) : DataWatching :=
  match s.stage, s.node with
  | .getting event, some node =>
    { s with line := s.line.register, stage := .answered event (some node) }
  | .getting event, none => { s with stage := .missing event }
  | .missing _, some _ => { s with line := s.line.register, stage := .found }
  | .missing event, none => { s with line := s.line.register, stage := .answered event none }
  | _, _ => s

def resume (W : DataWatches) (s : DataWatching) (body : FuncEnd) : DataWatching :=
  match s.stage with
  | .found => { s with calls := s.calls ++ [none], stage := .absent }
  | .answered event node =>
    s.finish W (node.bind (·.data)) (node.map (·.stat)) event body
  | _ => s

def enabled (s : DataWatching) : DataWatchAct → Prop
  | .change c => c.Allowed s.node s.zxid
  | .begin n => n < s.calls.length ∧ s.stage = .absent
  -- the client reads an event before the replies that follow it
  | .answer => s.line.connected = true ∧ s.line.event = none
  | .resume _ => True
  | .deliver => s.line.event ≠ none
  | .drop => s.line.connected = true
  | .expire | .reconnect => s.line.connected = false

instance (s : DataWatching) (act : DataWatchAct) : Decidable (s.enabled act) := by
  cases act <;> unfold enabled <;> infer_instance

def post (W : DataWatches) (s : DataWatching) : DataWatchAct → DataWatching
  | .change c =>
    { s with
      node := c.result, zxid := c.zxid s.zxid
      line := s.line.fire ⟨c.type, .CONNECTED, some W.path⟩ }
  | .begin n =>
    let event := s.calls.getD n none
    let calls := s.calls.eraseIdx n
    if s.stopped = true then { s with calls := calls }
    else { s with calls := calls, stage := .getting event }
  | .answer => s.answer
  | .resume body => s.resume W body
  | .deliver =>
    { s with calls := s.calls ++ [s.line.event], line := { s.line with event := none } }
  -- a request that fails is asked again, as often as it takes
  | .drop =>
    let s := s.sessionWatcher .SUSPENDED
    { s with calls := s.calls ++ s.line.resetWatchers.map some, line := s.line.drop }
  | .expire => s.sessionWatcher .LOST
  | .reconnect =>
    let s := s.sessionWatcher .CONNECTED
    { s with line := { s.line with connected := true } }

def init (W : DataWatches) : DataWatching where
  node := W.node
  zxid := W.zxid
  line := ⟨W.connected, false, none⟩
  calls := [none]
  stage := .absent
  version := none
  everCalled := false
  stopped := false
  listening := true
  invocations := []

/-- Any number of runs, one at a time. -/
def watching (W : DataWatches) : Machine DataWatching DataWatchAct where
  init := init W
  enabled := enabled
  post := post W

instance (W : DataWatches) (s : DataWatching) (act : DataWatchAct) :
    Decidable ((watching W).enabled s act) :=
  inferInstanceAs (Decidable (s.enabled act))

/-- No run, event or request is outstanding. -/
def Quiet (s : DataWatching) : Prop :=
  s.calls = [] ∧ s.stage = .absent ∧ s.line.event = none

/-! ## What the function was called with -/

/-- The arguments were the node's, or `None` for both. -/
def Reports (i : Invocation) (node : Option DataNode) : Prop :=
  i.data = node.bind (·.data) ∧ i.stat = node.map (·.stat)

/-- The last call had the node as it is now. -/
def Current (s : DataWatching) : Prop := ∃ i ∈ s.invocations.head?, Reports i s.node

/-- `node` was the node at some time: with its `mzxid` comes the rest. -/
def Known (s : DataWatching) (node : Option DataNode) : Prop :=
  ∀ n ∈ node, n.stat.mzxid ≤ s.zxid ∧ ∀ m ∈ s.node, m.stat.mzxid = n.stat.mzxid → m = n

/-- A run is going to ask for the node. -/
def Asking (s : DataWatching) : Prop :=
  s.calls ≠ [] ∨ s.line.event ≠ none ∨
    match s.stage with
    | .getting _ | .missing _ | .found => True
    | .absent | .answered _ _ => False

/-- Nothing is missed: a change of the node fires the watch. -/
def Attending (s : DataWatching) : Prop :=
  s.line.registered = true ∧
    match s.stage with
    | .answered _ node => node = s.node
    | _ => s.Current

structure Latest (s : DataWatching) : Prop where
  le_zxid : ∀ n ∈ s.node, n.stat.mzxid ≤ s.zxid
  version : s.version = s.invocations.head?.bind (·.version)
  everCalled : s.everCalled = true ↔ s.invocations ≠ []
  differ : (s.invocations.map (·.version)).IsChain (· ≠ ·)
  reported : ∀ i ∈ s.invocations.head?, ∃ node, Reports i node ∧ s.Known node
  answered : ∀ event node, s.stage = .answered event node → s.Known node
  listening : s.stopped = false → s.listening = true
  attended : s.stopped = false → s.Asking ∨ s.Attending

variable {W : DataWatches} {s t : DataWatching} {i : Invocation} {node : Option DataNode}

theorem Reports.version (h : Reports i node) : i.version = node.map (·.stat.mzxid) := by
  rw [Invocation.version, h.2, Option.map_map]
  rfl

theorem known_node (h : ∀ n ∈ s.node, n.stat.mzxid ≤ s.zxid) : s.Known s.node := by
  intro n hn
  refine ⟨h n hn, fun m hm _ => ?_⟩
  rw [Option.mem_def] at hn hm
  exact Option.some.inj (hm.symm.trans hn)

/-- Of the known versions, only the node's own has its `mzxid`. -/
theorem Known.eq (h : s.Known node) (hversion : node.map (·.stat.mzxid) = s.node.map (·.stat.mzxid)) :
    node = s.node := by
  cases hnode : node with
  | none =>
    rw [hnode, Option.map_none, eq_comm, Option.map_eq_none_iff] at hversion
    exact hversion.symm
  | some n =>
    rw [hnode, Option.map_some, eq_comm, Option.map_eq_some_iff] at hversion
    obtain ⟨m, hm, hmzxid⟩ := hversion
    have heq := (h n (by rw [hnode]; rfl)).2 m hm hmzxid
    rw [hm, heq]

theorem Known.of_eq (h : s.Known node) (hnode : t.node = s.node) (hzxid : t.zxid = s.zxid) :
    t.Known node := by
  unfold Known
  rw [hnode, hzxid]
  exact h

/-- A write gives the node an `mzxid` that no version had before. -/
theorem Known.change (h : s.Known node) {c : NodeChange} (hallowed : c.Allowed s.node s.zxid) :
    ((watching W).post s (.change c)).Known node := by
  intro n hn
  obtain ⟨hle, hsame⟩ := h n hn
  cases c with
  | create new =>
    refine ⟨le_of_lt (lt_of_le_of_lt hle hallowed.2), fun m hm hmzxid => ?_⟩
    obtain rfl := Option.some.inj hm
    have hlt := hallowed.2
    omega
  | set new =>
    refine ⟨le_of_lt (lt_of_le_of_lt hle hallowed.2), fun m hm hmzxid => ?_⟩
    obtain rfl := Option.some.inj hm
    have hlt := hallowed.2
    omega
  | delete => exact ⟨hle, fun _ hm => nomatch hm⟩

/-- The step neither changes the node nor calls the function. -/
structure Silent (s t : DataWatching) : Prop where
  node : t.node = s.node
  zxid : t.zxid = s.zxid
  version : t.version = s.version
  everCalled : t.everCalled = s.everCalled
  stopped : t.stopped = s.stopped
  listening : t.listening = s.listening
  invocations : t.invocations = s.invocations

theorem Silent.current (hsilent : Silent s t) (h : s.Current) : t.Current := by
  unfold Current
  rw [hsilent.invocations, hsilent.node]
  exact h

theorem Latest.silent (h : Latest s) (hsilent : Silent s t)
    (hanswered : ∀ event node, t.stage = .answered event node → s.Known node)
    (hattended : s.stopped = false → t.Asking ∨ t.Attending) : Latest t where
  le_zxid := by
    rw [hsilent.node, hsilent.zxid]
    exact h.le_zxid
  version := by rw [hsilent.version, hsilent.invocations, h.version]
  everCalled := by rw [hsilent.everCalled, hsilent.invocations, h.everCalled]
  differ := by
    rw [hsilent.invocations]
    exact h.differ
  reported := by
    rw [hsilent.invocations]
    intro i hi
    obtain ⟨node, hreports, hknown⟩ := h.reported i hi
    exact ⟨node, hreports, hknown.of_eq hsilent.node hsilent.zxid⟩
  answered event node hstage := (hanswered event node hstage).of_eq hsilent.node hsilent.zxid
  listening hrunning := by
    rw [hsilent.stopped] at hrunning
    rw [hsilent.listening, h.listening hrunning]
  attended hrunning := hattended (by rw [← hsilent.stopped, hrunning])

theorem asking_of_calls (h : s.calls ≠ []) : s.Asking := .inl h

theorem latest_init : Latest (watching W).init where
  le_zxid := W.le_zxid
  version := rfl
  everCalled := by simp [watching, init]
  differ := .nil
  reported _ hi := nomatch hi
  answered _ _ heq := nomatch heq
  listening _ := rfl
  attended _ := .inl (asking_of_calls (List.cons_ne_nil _ _))

/-- A change is noticed by its event, or the node is about to be asked for anyway. -/
theorem Latest.change (h : Latest s) {c : NodeChange} (hallowed : c.Allowed s.node s.zxid) :
    Latest ((watching W).post s (.change c)) where
  le_zxid := by
    cases c with
    | create new | set new =>
      intro n hn
      obtain rfl := Option.some.inj hn
      exact le_refl _
    | delete => exact fun _ hn => nomatch hn
  version := h.version
  everCalled := h.everCalled
  differ := h.differ
  reported i hi := by
    obtain ⟨node, hreports, hknown⟩ := h.reported i hi
    exact ⟨node, hreports, hknown.change hallowed⟩
  answered event node hstage := (h.answered event node hstage).change hallowed
  listening := h.listening
  attended hrunning := by
    left
    rcases h.attended hrunning with hasking | hattending
    · rcases hasking with hcalls | hevent | hstage
      · exact .inl hcalls
      · exact .inr (.inl (WatchLine.event_fire hevent))
      · exact .inr (.inr hstage)
    · refine .inr (.inl ?_)
      show (s.line.fire _).event ≠ none
      rw [WatchLine.fire_of_registered hattending.1]
      exact Option.some_ne_none _

theorem Latest.begin (h : Latest s) {n : Nat} :
    Latest ((watching W).post s (.begin n)) := by
  show Latest (if s.stopped = true then _ else _)
  split
  · rename_i hstopped
    refine h.silent ⟨rfl, rfl, rfl, rfl, rfl, rfl, rfl⟩ ?_ ?_
    · exact h.answered
    · intro hrunning
      rw [hrunning] at hstopped
      cases hstopped
  · refine h.silent ⟨rfl, rfl, rfl, rfl, rfl, rfl, rfl⟩ (fun _ _ heq => nomatch heq) ?_
    intro _
    exact .inl (.inr (.inr trivial))

/-- The answer is the node as it is, and registers the function. -/
theorem Latest.answer (h : Latest s) : Latest s.answer := by
  unfold DataWatching.answer
  split
  case h_1 event node hstage hnode =>
    refine h.silent ⟨rfl, rfl, rfl, rfl, rfl, rfl, rfl⟩ ?_ fun _ => .inr ⟨rfl, hnode.symm⟩
    intro event' node' heq
    obtain ⟨-, rfl⟩ := DataStage.answered.inj heq
    rw [← hnode]
    exact known_node h.le_zxid
  case h_2 event hstage hnode =>
    refine h.silent ⟨rfl, rfl, rfl, rfl, rfl, rfl, rfl⟩ (fun _ _ heq => nomatch heq)
      fun _ => .inl (.inr (.inr trivial))
  case h_3 event node hstage hnode =>
    refine h.silent ⟨rfl, rfl, rfl, rfl, rfl, rfl, rfl⟩ (fun _ _ heq => nomatch heq)
      fun _ => .inl (.inr (.inr trivial))
  case h_4 event hstage hnode =>
    refine h.silent ⟨rfl, rfl, rfl, rfl, rfl, rfl, rfl⟩ ?_ fun _ => .inr ⟨rfl, hnode.symm⟩
    intro event' node' heq
    obtain ⟨-, rfl⟩ := DataStage.answered.inj heq
    exact fun _ hn => nomatch hn
  case h_5 => exact h

/-- The version is compared with the one of the last call. -/
theorem Latest.finish (h : Latest s) {event : Option WatchedEvent} {node : Option DataNode}
    (hstage : s.stage = .answered event node) (body : FuncEnd) :
    Latest (s.finish W (node.bind (·.data)) (node.map (·.stat)) event body) := by
  have hknown := h.answered event node hstage
  have hversion : (node.map (·.stat)).map (·.mzxid) = node.map (·.stat.mzxid) := Option.map_map ..
  have hattended : s.stopped = false → s.calls ≠ [] ∨ s.line.event ≠ none ∨
      s.line.registered = true ∧ node = s.node := by
    intro hrunning
    have hattended := h.attended hrunning
    simp only [Asking, Attending, hstage, or_false] at hattended
    rwa [or_assoc] at hattended
  obtain ⟨third, hcall⟩ :=
    W.func.logFuncException_eq (node.bind (·.data)) (node.map (·.stat)) event body
  unfold DataWatching.finish
  simp only [hcall]
  split
  · rename_i hdiffers
    refine ⟨h.le_zxid, ?_, ?_, ?_, ?_, (fun _ _ heq => nomatch heq), ?_, ?_⟩
    · rfl
    · exact ⟨fun _ => List.cons_ne_nil _ _, fun _ => rfl⟩
    · show List.IsChain (· ≠ ·) (_ :: s.invocations.map (·.version))
      cases hinvocations : s.invocations with
      | nil => exact .singleton _
      | cons last rest =>
        have hdiffer := h.differ
        have hlast := h.version
        rw [hinvocations] at hdiffer hlast
        refine List.isChain_cons_cons.mpr ⟨?_, hdiffer⟩
        have hever := h.everCalled.mpr (by rw [hinvocations]; exact List.cons_ne_nil _ _)
        have hne := hdiffers.resolve_right (by rw [hever]; decide)
        intro heq
        exact hne (hlast.trans heq.symm)
    · intro i hi
      obtain rfl := Option.some.inj hi
      exact ⟨node, ⟨rfl, rfl⟩, hknown⟩
    · intro hrunning
      simp only [Bool.or_eq_false_iff, beq_eq_false_iff_ne] at hrunning
      simp only [h.listening hrunning.1, Bool.true_and, bne_iff_ne]
      exact hrunning.2
    · intro hrunning
      simp only [Bool.or_eq_false_iff] at hrunning
      rcases hattended hrunning.1 with hcalls | hevent | ⟨hregistered, hnode⟩
      · exact .inl (.inl hcalls)
      · exact .inl (.inr (.inl hevent))
      · exact .inr ⟨hregistered, _, rfl, by rw [← hnode]; exact ⟨rfl, rfl⟩⟩
  · rename_i hsame
    rw [not_or, not_not, hversion] at hsame
    have hever : s.everCalled = true := by
      cases hever : s.everCalled with
      | true => rfl
      | false => exact absurd hever hsame.2
    refine h.silent ⟨rfl, rfl, ?_, rfl, rfl, rfl, rfl⟩ (fun _ _ heq => nomatch heq) ?_
    · exact hversion.trans hsame.1.symm
    · intro hrunning
      rcases hattended hrunning with hcalls | hevent | ⟨hregistered, hnode⟩
      · exact .inl (.inl hcalls)
      · exact .inl (.inr (.inl hevent))
      · refine .inr ⟨hregistered, ?_⟩
        obtain ⟨i, hi⟩ := Option.ne_none_iff_exists'.mp
          (fun hnil => h.everCalled.mp hever (List.head?_eq_none_iff.mp hnil))
        obtain ⟨reported, hreports, hreported⟩ := h.reported i hi
        have hlast := h.version
        rw [hi, Option.bind_some, hreports.version, hsame.1, hnode] at hlast
        rw [hreported.eq hlast.symm] at hreports
        exact ⟨i, hi, hreports⟩

theorem Latest.resume (h : Latest s) (body : FuncEnd) : Latest (s.resume W body) := by
  unfold DataWatching.resume
  split
  case h_1 hstage =>
    refine h.silent ⟨rfl, rfl, rfl, rfl, rfl, rfl, rfl⟩ (fun _ _ heq => nomatch heq)
      fun _ => .inl (asking_of_calls ?_)
    exact List.concat_ne_nil _ _
  case h_2 event node hstage => exact h.finish hstage body
  case h_3 => exact h

theorem Latest.deliver (h : Latest s) : Latest ((watching W).post s .deliver) :=
  h.silent ⟨rfl, rfl, rfl, rfl, rfl, rfl, rfl⟩ h.answered fun _ =>
    .inl (asking_of_calls (List.concat_ne_nil _ _))

theorem Latest.sessionWatcher (h : Latest s) (state : KazooState) : Latest (s.sessionWatcher state) := by
  unfold DataWatching.sessionWatcher
  split
  · exact h.silent ⟨rfl, rfl, rfl, rfl, rfl, rfl, rfl⟩ h.answered fun _ =>
      .inl (asking_of_calls (List.concat_ne_nil _ _))
  · exact h

/-- With the connection goes the watch, and the function is told so. -/
theorem Latest.drop (h : Latest s) : Latest ((watching W).post s .drop) := by
  have hafter := h.sessionWatcher .SUSPENDED
  refine hafter.silent ⟨rfl, rfl, rfl, rfl, rfl, rfl, rfl⟩ hafter.answered fun hrunning => .inl ?_
  rcases hafter.attended hrunning with (hwaiting | hevent | hstage) | ⟨hregistered, -⟩
  · exact .inl (List.append_ne_nil_of_left_ne_nil hwaiting _)
  · refine asking_of_calls (List.append_ne_nil_of_right_ne_nil _ ?_)
    exact mt List.map_eq_nil_iff.mp (WatchLine.resetWatchers_ne_nil (.inr hevent))
  · exact .inr (.inr hstage)
  · refine asking_of_calls (List.append_ne_nil_of_right_ne_nil _ ?_)
    exact mt List.map_eq_nil_iff.mp (WatchLine.resetWatchers_ne_nil (.inl hregistered))

/-- A run for the reconnection is called. -/
theorem Latest.reconnect (h : Latest s) : Latest ((watching W).post s .reconnect) := by
  have hafter := h.sessionWatcher .CONNECTED
  exact ⟨hafter.le_zxid, hafter.version, hafter.everCalled, hafter.differ, hafter.reported,
    hafter.answered, hafter.listening, hafter.attended⟩

theorem Latest.step (h : Latest s) {act : DataWatchAct} (hen : (watching W).enabled s act) :
    Latest ((watching W).post s act) := by
  cases act with
  | change c => exact h.change hen
  | begin n => exact h.begin
  | answer => exact h.answer
  | resume body => exact h.resume body
  | deliver => exact h.deliver
  | drop => exact h.drop
  | expire => exact h.sessionWatcher .LOST
  | reconnect => exact h.reconnect

theorem latest (hr : (watching W).Reachable s) : Latest s :=
  hr.invariant latest_init fun _ _ _ h hen _ => h.step hen

/-- The function is never called twice in a row with one version, and when nothing is outstanding its
last call had the node as it is, and the next change of it will be noticed. -/
theorem delivers_latest (hr : (watching W).Reachable s) :
    (s.invocations.map (·.version)).IsChain (· ≠ ·) ∧
      (s.line.connected = true → s.Quiet → s.stopped = false →
        s.Current ∧ s.line.registered = true) := by
  have h := latest hr
  refine ⟨h.differ, fun _ hquiet hrunning => ?_⟩
  obtain ⟨hcalls, hstage, hevent⟩ := hquiet
  have hattended := h.attended hrunning
  simp only [Asking, Attending, hcalls, hstage, hevent, ne_eq, not_true, or_false, false_or]
    at hattended
  exact ⟨hattended.2, hattended.1⟩

/-- A node that exists, as its last write left it. -/
def writtenOnce : DataNode := ⟨some [], 1, 1, 0, 0, 0, 0, 0, 0, 0, 0, 1⟩

def writtenTwice : DataNode := ⟨some [7], 1, 3, 0, 5, 1, 0, 0, 0, 1, 0, 1⟩

/-- A function of two parameters. -/
def onOneNode : DataWatches where
  path := [0x2f]
  func := ⟨2, .inl rfl⟩
  node := some writtenOnce
  zxid := 2
  connected := true
  le_zxid := by
    intro n hn
    obtain rfl := Option.some.inj hn
    decide

/-- The second write falls between the answer and the call, and the connection is lost then. -/
def writtenDuringRun : List DataWatchAct :=
  [.begin 0, .answer, .change (.set writtenTwice), .drop, .resume .returns, .reconnect, .begin 1,
    .answer, .resume .returns, .begin 0, .answer, .resume .raises]

theorem delivers_latest_onOneNode :
    ((watching onOneNode).exec (watching onOneNode).init writtenDuringRun).Current ∧
      ((watching onOneNode).exec (watching onOneNode).init writtenDuringRun).line.registered = true :=
  (delivers_latest (.of_legal (by decide +kernel))).2 (by decide +kernel)
    ⟨by decide +kernel, by decide +kernel, by decide +kernel⟩ (by decide +kernel)

end DataWatching

end Kazoo
