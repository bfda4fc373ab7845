import Kazoo.Recipe.DataWatch

/-!
# Watching the children of a node

`ChildrenWatch` of `kazoo/recipe/watchers.py`, within one session.  The listener clears
`_watch_established` without the lock of the runs, and a run sets it after its reply was read.
-/

namespace Kazoo

/-- What the clients do to the node and its children. -/
inductive ChildrenChange
  | createChild (name : PyStr)
  | deleteChild (name : PyStr)
  | deleteNode
  | createNode
  deriving DecidableEq

namespace ChildrenChange

def result (children : Option (List PyStr)) : ChildrenChange → Option (List PyStr)
  | .createChild name => children.map (name :: ·)
  | .deleteChild name => children.map (·.filter (· ≠ name))
  | .deleteNode => none
  | .createNode => some []

def Allowed (children : Option (List PyStr)) : ChildrenChange → Prop
  | .createChild name => ∃ now ∈ children, name ∉ now
  | .deleteChild name => ∃ now ∈ children, name ∈ now
  | .deleteNode => children = some []
  | .createNode => children = none

/-- The event of a child watch; there is none on a missing node. -/
def type : ChildrenChange → Option EventType
  | .createChild _ | .deleteChild _ => some .CHILD
  | .deleteNode => some .DELETED
  | .createNode => none

instance (children : Option (List PyStr)) (c : ChildrenChange) : Decidable (c.Allowed children) := by
  cases c <;> unfold Allowed <;> infer_instance

end ChildrenChange

inductive ChildrenStage
  | absent
  /-- `get_children` is asked. -/
  | listing (event : Option WatchedEvent)
  /-- The reply is there: the children, or that there is no node. -/
  | answered (event : Option WatchedEvent) (children : Option (List PyStr))
  deriving DecidableEq

/-- The request that is out fails; `RetryFailedError` ends a run without a try left. -/
def ChildrenStage.failRequest (again : Bool) : ChildrenStage → ChildrenStage
  | .listing event => if again = true then .listing event else .absent
  | stage => stage

/-- One call of the function, with its arguments. -/
structure ChildrenCall where
  children : List PyStr
  /-- The second argument, where it was given. -/
  event : Option (Option WatchedEvent)
  deriving DecidableEq

structure ChildrenWatching where
  children : Option (List PyStr)
  line : WatchLine
  /-- The calls of `_watcher` and the spawned runs that have not taken the lock. -/
  calls : List (Option WatchedEvent)
  stage : ChildrenStage
  established : Bool
  stopped : Bool
  priorChildren : Option (List PyStr)
  /-- `_session_watcher` is a listener of the client. -/
  listening : Bool
  /-- The calls of the function, latest first. -/
  invocations : List ChildrenCall
  deriving DecidableEq

structure ChildrenWatches where
  path : PyStr
  allowSessionLost : Bool
  sendEvent : Bool
  /-- The node exists. -/
  children : List PyStr
  connected : Bool

inductive ChildrenWatchAct
  | change (c : ChildrenChange)
  /-- The `n`-th of the waiting calls takes the lock. -/
  | begin (n : Nat)
  /-- The reply; the server lists the children in any order. -/
  | answer (order : List PyStr)
  /-- The run goes on with its reply; the function, if it is called, ends so. -/
  | resume (body : FuncEnd)
  | deliver
  /-- Whether the retry manager has a try left for a request that fails. -/
  | drop (again : Bool)
  | reconnect
  deriving DecidableEq

namespace ChildrenWatching

/-- `_session_watcher`. -/
def sessionWatcher (s : ChildrenWatching) (state : KazooState) : ChildrenWatching :=
  if s.listening = true then
    if state = .LOST ∨ state = .SUSPENDED then { s with established := false }
    else if state = .CONNECTED ∧ s.established = false ∧ s.stopped = false then
      { s with calls := s.calls ++ [none] }
    else s
  else s

/-- The call does not return at once: `event.type != "NONE"`. -/
def Runs (call : Option WatchedEvent) : Prop := ∀ event ∈ call, event.type ≠ .NONE

instance (call : Option WatchedEvent) : Decidable (Runs call) :=
  inferInstanceAs (Decidable (∀ event ∈ call, event.type ≠ .NONE))

def answer (s : ChildrenWatching) (order : List PyStr) : ChildrenWatching :=
  match s.stage, s.children with
  | .listing event, some _ =>
    { s with line := s.line.register, stage := .answered event (some order) }
  | .listing event, none => { s with stage := .answered event none }
  | _, _ => s

/-- The function is called, and may stop the watch. -/
def callFunc (W : ChildrenWatches) (s : ChildrenWatching) (event : Option WatchedEvent)
    (children : List PyStr) (body : FuncEnd) : ChildrenWatching :=
  let s :=
    { s with
      priorChildren := some children
      invocations := ⟨children, if W.sendEvent = true then some event else none⟩ :: s.invocations }
  if body = .returnsFalse then { s with stopped := true, listening := false } else s

/-- `_get_children`, once the request has returned or failed. -/
def resume (W : ChildrenWatches) (s : ChildrenWatching) (body : FuncEnd) : ChildrenWatching :=
  match s.stage with
  | .answered _ none => { s with stopped := true, stage := .absent }
  | .answered event (some children) =>
    let s := { s with stage := .absent }
    if s.established = false then
      let s := { s with established := true }
      if s.priorChildren = some children then s else s.callFunc W event children body
    else s.callFunc W event children body
  | _ => s

def enabled (s : ChildrenWatching) : ChildrenWatchAct → Prop
  | .change c => c.Allowed s.children
  | .begin n => n < s.calls.length ∧ s.stage = .absent
  -- the client reads an event before the replies that follow it
  | .answer order =>
    s.line.connected = true ∧ s.line.event = none ∧ ∀ now ∈ s.children, order.Perm now
  | .resume _ => True
  | .deliver => s.line.event ≠ none
  | .drop _ => s.line.connected = true
  | .reconnect => s.line.connected = false

instance (s : ChildrenWatching) (act : ChildrenWatchAct) : Decidable (s.enabled act) := by
  cases act <;> unfold enabled <;> infer_instance

def post (W : ChildrenWatches) (s : ChildrenWatching) : ChildrenWatchAct → ChildrenWatching
  | .change c =>
    { s with
      children := c.result s.children
      line := (c.type.map fun type => s.line.fire ⟨type, .CONNECTED, some W.path⟩).getD s.line }
  | .begin n =>
    let call := s.calls.getD n none
    let s := { s with calls := s.calls.eraseIdx n }
    if Runs call ∧ s.stopped = false then { s with stage := .listing call } else s
  | .answer order => s.answer order
  | .resume body => s.resume W body
  | .deliver =>
    { s with calls := s.calls ++ [s.line.event], line := { s.line with event := none } }
  | .drop again =>
    let s := s.sessionWatcher .SUSPENDED
    { s with
      calls := s.calls ++ s.line.resetWatchers.map some, line := s.line.drop
      stage := s.stage.failRequest again }
  | .reconnect =>
    let s := s.sessionWatcher .CONNECTED
    { s with line := { s.line with connected := true } }

def init (W : ChildrenWatches) : ChildrenWatching where
  children := some W.children
  line := ⟨W.connected, false, none⟩
  calls := [none]
  stage := .absent
  established := false
  stopped := false
  priorChildren := none
  listening := W.allowSessionLost
  invocations := []

/-- Any number of runs, one at a time. -/
def watching (W : ChildrenWatches) : Machine ChildrenWatching ChildrenWatchAct where
  init := init W
  enabled := enabled
  post := post W

instance (W : ChildrenWatches) (s : ChildrenWatching) (act : ChildrenWatchAct) :
    Decidable ((watching W).enabled s act) :=
  inferInstanceAs (Decidable (s.enabled act))

/-- No run, event or request is outstanding. -/
def Quiet (s : ChildrenWatching) : Prop :=
  s.calls = [] ∧ s.stage = .absent ∧ s.line.event = none

/-- The server's children are these, in some order. -/
def Same (s : ChildrenWatching) (children : List PyStr) : Prop :=
  ∃ now ∈ s.children, ∀ name, name ∈ children ↔ name ∈ now

/-- The last list passed to the function is the server's, and the next change will be noticed. -/
def InTouch (s : ChildrenWatching) : Prop :=
  (∃ call ∈ s.invocations.head?, s.Same call.children) ∧ s.line.registered = true

/-! ## When the watch goes deaf -/

/-- A run is called for. -/
def Due (s : ChildrenWatching) : Prop := ∃ call ∈ s.calls, Runs call

instance (s : ChildrenWatching) : Decidable s.Due :=
  inferInstanceAs (Decidable (∃ call ∈ s.calls, Runs call))

/-- A run that goes on with its reply still has its watch, or another run follows it; and a lost
connection is followed by a run. -/
def Rescued (W : ChildrenWatches) (s : ChildrenWatching) : ChildrenWatchAct → Prop
  | .resume body =>
    match s.stage with
    | .answered _ (some children) =>
      s.line.registered = true ∨ s.line.event ≠ none ∨ s.Due ∨
        body = .returnsFalse ∧ (s.established = true ∨ s.priorChildren ≠ some children)
    | _ => True
  | .drop again =>
    W.allowSessionLost = true ∨ s.stopped = true ∨ s.Due ∨
      match s.stage with
      | .absent => False
      | .listing _ => again = true
      | .answered _ _ => True
  | _ => True

instance (W : ChildrenWatches) (s : ChildrenWatching) (act : ChildrenWatchAct) :
    Decidable (s.Rescued W act) := by
  unfold Rescued
  split
  · split <;> infer_instance
  · cases s.stage <;> infer_instance
  · infer_instance

/-! ## Nothing is missed -/

/-- What keeps the watch from going deaf, by the stage of its run. -/
def Listens (W : ChildrenWatches) (s : ChildrenWatching) : Prop :=
  s.Due ∨ s.line.event ≠ none ∨
    match s.stage with
    | .listing _ | .answered _ none => True
    | .answered _ (some children) => s.line.registered = true → s.Same children
    | .absent =>
      s.line.registered = true ∧ (∃ children ∈ s.priorChildren, s.Same children) ∨
        W.allowSessionLost = true ∧ s.line.connected = false ∧ s.established = false

structure Hearing (W : ChildrenWatches) (s : ChildrenWatching) : Prop where
  event : Runs s.line.event
  prior : s.priorChildren = s.invocations.head?.map (·.children)
  listening : s.stopped = false → s.listening = W.allowSessionLost
  listens : s.stopped = false → s.Listens W

variable {W : ChildrenWatches} {s t : ChildrenWatching}

theorem runs_none : Runs none := nofun

theorem due_append_left {calls : List (Option WatchedEvent)}
    (h : s.Due) : ∃ call ∈ s.calls ++ calls, Runs call := by
  obtain ⟨call, hcall, hruns⟩ := h
  exact ⟨call, List.mem_append_left _ hcall, hruns⟩

theorem due_append_singleton {calls : List (Option WatchedEvent)} {call : Option WatchedEvent}
    (h : Runs call) : ∃ other ∈ calls ++ [call], Runs other :=
  ⟨call, List.mem_append_right _ (List.mem_singleton_self _), h⟩

/-- A call that returns at once leaves the others waiting. -/
theorem due_eraseIdx {n : Nat} (h : s.Due) (hcall : ¬ Runs (s.calls.getD n none)) :
    ∃ call ∈ s.calls.eraseIdx n, Runs call := by
  obtain ⟨call, hmem, hruns⟩ := h
  obtain ⟨k, hget⟩ := List.mem_iff_getElem?.mp hmem
  refine ⟨call, List.mem_eraseIdx_iff_getElem?.mpr ⟨k, fun heq => hcall ?_, hget⟩, hruns⟩
  rw [← heq, List.getD_eq_getElem?_getD, hget]
  exact hruns

theorem hearing_init : Hearing W (watching W).init where
  event := runs_none
  prior := rfl
  listening _ := rfl
  listens _ := .inl ⟨none, List.mem_singleton_self _, runs_none⟩

theorem runs_fire {type : EventType} (hevent : Runs s.line.event) (htype : type ≠ .NONE) :
    Runs (s.line.fire ⟨type, .CONNECTED, some W.path⟩).event := by
  cases hregistered : s.line.registered with
  | true =>
    rw [WatchLine.fire_of_registered hregistered]
    intro event heq
    obtain rfl := Option.some.inj heq
    exact htype
  | false =>
    rw [WatchLine.fire_of_not_registered hregistered]
    exact hevent

/-- A change at the server is noticed by a watch that is registered. -/
theorem Listens.change (h : s.Listens W) {children : Option (List PyStr)} {line : WatchLine}
    (hconnected : line.connected = s.line.connected)
    (hevent : s.line.event ≠ none → line.event ≠ none)
    (hregistered : line.registered = true → s.line.registered = true)
    (hnoticed : s.line.registered = true → ∀ listed, s.Same listed → line.event ≠ none) :
    ({ s with children, line } : ChildrenWatching).Listens W := by
  rcases h with hdue | hunread | hstage
  · exact .inl hdue
  · exact .inr (.inl (hevent hunread))
  · by_cases hread : line.event = none
    · refine .inr (.inr ?_)
      show match s.stage with | _ => _
      split at hstage <;> rename_i hs <;> simp only [hs]
      · intro hline
        exact absurd hread (hnoticed (hregistered hline) _ (hstage (hregistered hline)))
      · rcases hstage with hlisted | hlost
        · obtain ⟨hold, listed, -, hsame⟩ := hlisted
          exact absurd hread (hnoticed hold listed hsame)
        · rw [← hconnected] at hlost
          exact .inr hlost
    · exact .inr (.inl hread)

theorem Hearing.change (h : Hearing W s) {c : ChildrenChange} (hallowed : c.Allowed s.children) :
    Hearing W ((watching W).post s (.change c)) := by
  cases htold : c.type with
  | some type =>
    have htype : type ≠ .NONE := by
      cases c <;> cases htold <;> decide
    simp only [watching, post, htold, Option.map_some, Option.getD_some]
    refine ⟨runs_fire h.event htype, h.prior, h.listening, fun hrunning => ?_⟩
    refine (h.listens hrunning).change WatchLine.fire_connected WatchLine.event_fire ?_ ?_
    · exact WatchLine.registered_of_fire
    · intro hregistered _ _
      rw [WatchLine.fire_of_registered hregistered]
      exact Option.some_ne_none _
  | none =>
    simp only [watching, post, htold, Option.map_none, Option.getD_none]
    refine ⟨h.event, h.prior, h.listening, fun hrunning => ?_⟩
    refine (h.listens hrunning).change rfl id id fun _ listed hsame => ?_
    obtain ⟨now, hnow, -⟩ := hsame
    cases c with
    | createNode =>
      have hnone : s.children = none := hallowed
      rw [hnone] at hnow
      cases hnow
    | createChild name => cases htold
    | deleteChild name => cases htold
    | deleteNode => cases htold

theorem Hearing.begin (h : Hearing W s) {n : Nat} :
    Hearing W ((watching W).post s (.begin n)) := by
  show Hearing W (if Runs (s.calls.getD n none) ∧ s.stopped = false then _ else _)
  split
  · exact ⟨h.event, h.prior, h.listening, fun _ => .inr (.inr trivial)⟩
  · rename_i hreturns
    refine ⟨h.event, h.prior, h.listening, fun hrunning => ?_⟩
    rcases h.listens hrunning with hdue | hrest
    · exact .inl (due_eraseIdx hdue fun hruns => hreturns ⟨hruns, hrunning⟩)
    · exact .inr hrest

theorem Hearing.answer (h : Hearing W s) {order : List PyStr}
    (horder : ∀ now ∈ s.children, order.Perm now) : Hearing W (s.answer order) := by
  unfold ChildrenWatching.answer
  split
  case h_1 event now hstage hnow =>
    refine ⟨h.event, h.prior, h.listening, fun _ => .inr (.inr fun _ => ?_)⟩
    exact ⟨now, hnow, fun name => (horder now hnow).mem_iff⟩
  case h_2 => exact ⟨h.event, h.prior, h.listening, fun _ => .inr (.inr trivial)⟩
  case h_3 => exact h

/-- After a run that received the children, they have been passed on, now or before. -/
theorem hearing_callFunc {event : Option WatchedEvent} {children : List PyStr} {body : FuncEnd}
    (hevent : Runs s.line.event) (hstage : s.stage = .absent)
    (hlistening : s.stopped = false → s.listening = W.allowSessionLost)
    (hlisten : s.stopped = false → body ≠ .returnsFalse →
      s.Due ∨ s.line.event ≠ none ∨ s.line.registered = true ∧ s.Same children) :
    Hearing W (s.callFunc W event children body) := by
  show Hearing W (if body = .returnsFalse then _ else _)
  by_cases hbody : body = .returnsFalse
  · rw [if_pos hbody]
    exact ⟨hevent, rfl, (fun hrunning => nomatch hrunning), fun hrunning => nomatch hrunning⟩
  · rw [if_neg hbody]
    refine ⟨hevent, rfl, hlistening, fun hrunning => ?_⟩
    rcases hlisten hrunning hbody with hdue | hunread | ⟨hregistered, hsame⟩
    · exact .inl hdue
    · exact .inr (.inl hunread)
    · refine .inr (.inr ?_)
      show match s.stage with | _ => _
      simp only [hstage]
      exact .inl ⟨hregistered, children, rfl, hsame⟩

theorem Hearing.resume (h : Hearing W s) {body : FuncEnd} (hok : s.Rescued W (.resume body)) :
    Hearing W (s.resume W body) := by
  unfold ChildrenWatching.resume
  split
  case h_1 =>
    exact ⟨h.event, h.prior, (fun hrunning => nomatch hrunning), fun hrunning => nomatch hrunning⟩
  case h_2 event children hstage =>
    have hlisten : s.stopped = false →
        s.Due ∨ s.line.event ≠ none ∨ s.line.registered = true ∧ s.Same children ∨
          body = .returnsFalse ∧ (s.established = true ∨ s.priorChildren ≠ some children) := by
      intro hrunning
      have hlistens := h.listens hrunning
      simp only [Rescued, hstage] at hok
      simp only [Listens, hstage] at hlistens
      rcases hlistens with hdue | hevent | hsame
      · exact .inl hdue
      · exact .inr (.inl hevent)
      · rcases hok with hregistered | hevent | hdue | hstops
        · exact .inr (.inr (.inl ⟨hregistered, hsame hregistered⟩))
        · exact .inr (.inl hevent)
        · exact .inl hdue
        · exact .inr (.inr (.inr hstops))
    have hcalled : s.stopped = false → body ≠ .returnsFalse →
        s.Due ∨ s.line.event ≠ none ∨ s.line.registered = true ∧ s.Same children := by
      intro hrunning hbody
      rcases hlisten hrunning with hdue | hevent | hsame | hstops
      · exact .inl hdue
      · exact .inr (.inl hevent)
      · exact .inr (.inr hsame)
      · exact absurd hstops.1 hbody
    show Hearing W (if s.established = false then if s.priorChildren = some children then _ else _
      else _)
    by_cases hestablished : s.established = false
    · rw [if_pos hestablished]
      by_cases hprior : s.priorChildren = some children
      · rw [if_pos hprior]
        refine ⟨h.event, h.prior, h.listening, fun hrunning => ?_⟩
        rcases hlisten hrunning with hdue | hevent | ⟨hregistered, hsame⟩ | ⟨-, hstops⟩
        · exact .inl hdue
        · exact .inr (.inl hevent)
        · exact .inr (.inr (.inl ⟨hregistered, children, hprior, hsame⟩))
        · rcases hstops with htrue | hne
          · rw [hestablished] at htrue
            cases htrue
          · exact absurd hprior hne
      · rw [if_neg hprior]
        exact hearing_callFunc h.event rfl h.listening hcalled
    · rw [if_neg hestablished]
      exact hearing_callFunc h.event rfl h.listening hcalled
  case h_3 => exact h

theorem Hearing.deliver (h : Hearing W s) : Hearing W ((watching W).post s .deliver) :=
  ⟨runs_none, h.prior, h.listening, fun _ => .inl (due_append_singleton h.event)⟩

/-- The listener is going to call for a run, or one is called for or still has a try. -/
theorem Hearing.drop (h : Hearing W s) {again : Bool} (hok : s.Rescued W (.drop again)) :
    Hearing W ((watching W).post s (.drop again)) := by
  by_cases hlistening : s.listening = true
  · have hsession : s.sessionWatcher .SUSPENDED = { s with established := false } := by
      simp [sessionWatcher, hlistening]
    simp only [watching, post, hsession]
    refine ⟨runs_none, h.prior, h.listening, fun hrunning => .inr (.inr ?_)⟩
    have hallow : W.allowSessionLost = true := by rw [← h.listening hrunning, hlistening]
    cases hstage : s.stage with
    | absent => exact .inr ⟨hallow, rfl, rfl⟩
    | listing event =>
      cases again with
      | true => trivial
      | false => exact .inr ⟨hallow, rfl, rfl⟩
    | answered event children =>
      cases children with
      | none => trivial
      | some children => exact nofun
  · have hsession : s.sessionWatcher .SUSPENDED = s := by simp [sessionWatcher, hlistening]
    simp only [watching, post, hsession]
    refine ⟨runs_none, h.prior, h.listening, fun hrunning => ?_⟩
    have hallow : W.allowSessionLost ≠ true := by rwa [← h.listening hrunning]
    rcases hok with hallowed | hstopped | hdue | hstage
    · exact absurd hallowed hallow
    · rw [hrunning] at hstopped
      cases hstopped
    · exact .inl (due_append_left hdue)
    · refine .inr (.inr ?_)
      cases hs : s.stage with
      | absent =>
        rw [hs] at hstage
        exact hstage.elim
      | listing event =>
        rw [hs] at hstage
        cases again with
        | true => trivial
        | false => cases hstage
      | answered event children =>
        cases children with
        | none => trivial
        | some children => exact nofun

theorem Hearing.reconnect (h : Hearing W s) : Hearing W ((watching W).post s .reconnect) := by
  by_cases hrearm : s.listening = true ∧ s.established = false ∧ s.stopped = false
  · have hsession : s.sessionWatcher .CONNECTED = { s with calls := s.calls ++ [none] } := by
      simp [sessionWatcher, hrearm]
    simp only [watching, post, hsession]
    exact ⟨h.event, h.prior, h.listening, fun _ => .inl (due_append_singleton runs_none)⟩
  · have hsession : s.sessionWatcher .CONNECTED = s := by
      unfold sessionWatcher
      simp only [reduceCtorEq, or_self, if_false, true_and]
      by_cases hlistening : s.listening = true
      · rw [if_pos hlistening, if_neg fun hrest => hrearm ⟨hlistening, hrest⟩]
      · rw [if_neg hlistening]
    simp only [watching, post, hsession]
    refine ⟨h.event, h.prior, h.listening, fun hrunning => ?_⟩
    rcases h.listens hrunning with hdue | hevent | hstage
    · exact .inl hdue
    · exact .inr (.inl hevent)
    · refine .inr (.inr ?_)
      show match s.stage with | _ => _
      split at hstage <;> rename_i hs <;> simp only [hs]
      · exact hstage
      · refine .inl (hstage.resolve_right fun hlost => ?_)
        exact hrearm ⟨by rw [h.listening hrunning, hlost.1], hlost.2.2, hrunning⟩

theorem Hearing.step (h : Hearing W s) {act : ChildrenWatchAct} (hen : (watching W).enabled s act)
    (hok : s.Rescued W act) : Hearing W ((watching W).post s act) := by
  cases act with
  | change c => exact h.change hen
  | begin n => exact h.begin
  | answer order => exact h.answer hen.2.2
  | resume body => exact h.resume hok
  | deliver => exact h.deliver
  | drop again => exact h.drop hok
  | reconnect => exact h.reconnect

theorem hearing (hr : (watching W).Reach (fun s act => s.Rescued W act) s) : Hearing W s :=
  hr.invariant hearing_init fun _ _ _ h hen hok => h.step hen hok

/-- A watch all of whose runs are rescued is never deaf. -/
theorem never_deaf (hr : (watching W).Reach (fun s act => s.Rescued W act) s)
    (hconnected : s.line.connected = true) (hquiet : s.Quiet) (hrunning : s.stopped = false) :
    s.InTouch := by
  have h := hearing hr
  obtain ⟨hcalls, hstage, hevent⟩ := hquiet
  have hlistens := h.listens hrunning
  simp only [Listens, Due, hcalls, hstage, hevent, hconnected] at hlistens
  obtain ⟨hregistered, children, hprior, hsame⟩ : s.line.registered = true ∧
      ∃ children ∈ s.priorChildren, s.Same children := by
    simpa using hlistens
  rw [h.prior, Option.mem_def, Option.map_eq_some_iff] at hprior
  obtain ⟨call, hcall, rfl⟩ := hprior
  exact ⟨⟨call, hcall, hsame⟩, hregistered⟩

/-- The connection is lost between the reply to the first run and the run going on; the listener's
flag is cleared, and set again by the run, so that nothing is done on the reconnection. -/
def establishedLate : List ChildrenWatchAct :=
  [.begin 0, .answer [], .drop true, .resume .returns, .reconnect, .begin 0,
    .change (.createChild [0x61])]

def onChildren : ChildrenWatches := ⟨[0x2f, 0x71], true, false, [], true⟩

theorem deaf_establishedLate :
    ¬ ∀ (W : ChildrenWatches) (s : ChildrenWatching), (watching W).Reachable s →
      s.line.connected = true → s.Quiet → s.stopped = false → s.InTouch := by
  intro h
  have hr : (watching onChildren).Reachable
      ((watching onChildren).exec (watching onChildren).init establishedLate) :=
    .of_legal (by decide +kernel)
  have hdeaf := h onChildren _ hr (by decide +kernel) ⟨by decide +kernel, by decide +kernel, by decide +kernel⟩
    (by decide +kernel)
  have hregistered : ((watching onChildren).exec (watching onChildren).init
      establishedLate).line.registered = false := by decide +kernel
  rw [hdeaf.2] at hregistered
  cases hregistered

/-- With the reply handled at once, the listener calls for a run on the reconnection. -/
def establishedInTime : List ChildrenWatchAct :=
  [.begin 0, .answer [], .resume .returns, .drop true, .change (.createChild [0x61]), .reconnect,
    .begin 0, .begin 0, .answer [[0x61]], .resume .returns]

theorem never_deaf_establishedInTime :
    ((watching onChildren).exec (watching onChildren).init establishedInTime).InTouch :=
  never_deaf (.of_legal (by decide +kernel)) (by decide +kernel)
    ⟨by decide +kernel, by decide +kernel, by decide +kernel⟩ (by decide +kernel)

end ChildrenWatching

end Kazoo
