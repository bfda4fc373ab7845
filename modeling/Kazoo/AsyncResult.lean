import Kazoo.Exceptions
import Mathlib.Data.List.Induction
import Mathlib.Data.List.Nodup

/-!
# AsyncResult

The result object of `kazoo/handlers/utils.py` and its callbacks.  Two callbacks are one when they
are equal.
-/

namespace Kazoo

structure AsyncResult (κ ν : Type) where
  -- `_exception`: `none` is `_NONE`, and `some none` is `None`
  exception : Option (Option Exn)
  value : Option ν
  callbacks : List κ

/-- A result with what has become of its callbacks: put on the completion queue of the handler, or
called right away. -/
structure Dispatching (κ ν : Type) extends AsyncResult κ ν where
  completionQueue : List κ
  called : List κ

inductive AsyncCall (κ ν : Type)
  | rawlink (callback : κ)
  | unlink (callback : κ)
  | set (value : ν)
  | setException (exception : Exn)

namespace Dispatching

variable {κ ν : Type}

def new : Dispatching κ ν := ⟨⟨none, none, []⟩, [], []⟩

def ready (r : Dispatching κ ν) : Bool := r.exception.isSome

/-- One turn of the loop of `_do_callbacks`. -/
def dispatch (running : κ → Bool) (r : Dispatching κ ν) (callback : κ) : Dispatching κ ν :=
  if running callback then { r with completionQueue := r.completionQueue ++ [callback] }
  else { r with called := r.called ++ [callback] }

/-- `_do_callbacks`; `running` is what `self._handler.running` is at the turn of each callback. -/
def doCallbacks (running : κ → Bool) (r : Dispatching κ ν) : Dispatching κ ν :=
  r.callbacks.foldl (dispatch running) r

def set (running : κ → Bool) (value : ν) (r : Dispatching κ ν) : Dispatching κ ν :=
  { r with value := some value, exception := some none }.doCallbacks running

def setException (running : κ → Bool) (exception : Exn) (r : Dispatching κ ν) : Dispatching κ ν :=
  { r with exception := some (some exception) }.doCallbacks running

variable [DecidableEq κ]

def rawlink (running : κ → Bool) (callback : κ) (r : Dispatching κ ν) : Dispatching κ ν :=
  let r := if callback ∉ r.callbacks then { r with callbacks := r.callbacks ++ [callback] } else r
  if r.ready then r.doCallbacks running else r

def unlink (callback : κ) (r : Dispatching κ ν) : Dispatching κ ν :=
  if r.ready then r
  else if callback ∈ r.callbacks then { r with callbacks := r.callbacks.erase callback }
  else r

def post (r : Dispatching κ ν) (step : AsyncCall κ ν × (κ → Bool)) : Dispatching κ ν :=
  match step.1 with
  | .rawlink callback => r.rawlink step.2 callback
  | .unlink callback => r.unlink callback
  | .set value => r.set step.2 value
  | .setException exception => r.setException step.2 exception

/-- Calls one after the other, each with the state of the handler that its callbacks meet. -/
def run (r : Dispatching κ ν) (steps : List (AsyncCall κ ν × (κ → Bool))) : Dispatching κ ν :=
  steps.foldl post r

/-- How often the callback was dispatched. -/
def dispatches (r : Dispatching κ ν) (callback : κ) : Nat :=
  r.completionQueue.count callback + r.called.count callback

end Dispatching

namespace AsyncCall

variable {κ ν : Type}

def completes : AsyncCall κ ν → Bool
  | .set _ | .setException _ => true
  | _ => false

def links : AsyncCall κ ν → Bool
  | .rawlink _ => true
  | _ => false

variable [DecidableEq κ]

def linksThis (callback : κ) : AsyncCall κ ν → Bool
  | .rawlink other => other = callback
  | _ => false

def unlinksThis (callback : κ) : AsyncCall κ ν → Bool
  | .unlink other => other = callback
  | _ => false

end AsyncCall

section Spec

variable {κ ν : Type} [DecidableEq κ]

/-- The callback was linked and has not been unlinked since. -/
def Linked (calls : List (AsyncCall κ ν)) (callback : κ) : Prop :=
  ∃ before call after, calls = before ++ call :: after ∧ call.linksThis callback = true ∧
    ∀ call ∈ after, call.unlinksThis callback = false

/-- There is a completion, and the callback is linked when it comes or is linked later. -/
def ShouldCall (calls : List (AsyncCall κ ν)) (callback : κ) : Prop :=
  ∃ before completion after, calls = before ++ completion :: after ∧
    completion.completes = true ∧
    (Linked before callback ∨ ∃ call ∈ after, call.linksThis callback = true)

end Spec

/-! ## What one call does -/

namespace Dispatching

section Loop

variable {κ ν : Type} {r : Dispatching κ ν} {running : κ → Bool} {callback : κ}

@[simp] theorem dispatch_callbacks :
    (r.dispatch running callback).callbacks = r.callbacks := by
  unfold dispatch
  split <;> rfl

@[simp] theorem dispatch_exception :
    (r.dispatch running callback).exception = r.exception := by
  unfold dispatch
  split <;> rfl

@[simp] theorem doCallbacks_callbacks : (r.doCallbacks running).callbacks = r.callbacks := by
  suffices h : ∀ l : List κ, (l.foldl (dispatch running) r).callbacks = r.callbacks from h r.callbacks
  intro l
  induction l generalizing r with
  | nil => rfl
  | cons callback l ih => rw [List.foldl_cons, ih, dispatch_callbacks]

@[simp] theorem doCallbacks_exception : (r.doCallbacks running).exception = r.exception := by
  suffices h : ∀ l : List κ, (l.foldl (dispatch running) r).exception = r.exception from h r.callbacks
  intro l
  induction l generalizing r with
  | nil => rfl
  | cons callback l ih => rw [List.foldl_cons, ih, dispatch_exception]

theorem doCallbacks_ready : (r.doCallbacks running).ready = r.ready := by
  rw [ready, doCallbacks_exception, ready]

end Loop

variable {κ ν : Type} [DecidableEq κ] {r : Dispatching κ ν} {running : κ → Bool} {callback k : κ}

theorem dispatches_dispatch :
    (r.dispatch running callback).dispatches k = r.dispatches k + [callback].count k := by
  unfold dispatch
  split
  · show (r.completionQueue ++ [callback]).count k + r.called.count k = _
    rw [List.count_append, dispatches]
    omega
  · show r.completionQueue.count k + (r.called ++ [callback]).count k = _
    rw [List.count_append, dispatches]
    omega

/-- Whether they are put on the queue or called, every callback of the list is dispatched. -/
theorem dispatches_doCallbacks :
    (r.doCallbacks running).dispatches k = r.dispatches k + r.callbacks.count k := by
  suffices h : ∀ l : List κ, (l.foldl (dispatch running) r).dispatches k =
      r.dispatches k + l.count k from h r.callbacks
  intro l
  induction l generalizing r with
  | nil => rfl
  | cons callback l ih =>
    have hcount : (callback :: l).count k = [callback].count k + l.count k := by
      rw [← List.count_append, List.singleton_append]
    rw [List.foldl_cons, ih, dispatches_dispatch, hcount, Nat.add_assoc]

/-- The callbacks behind a `rawlink`. -/
def linked (r : Dispatching κ ν) (callback : κ) : List κ :=
  if callback ∉ r.callbacks then r.callbacks ++ [callback] else r.callbacks

theorem mem_linked : k ∈ r.linked callback ↔ k = callback ∨ k ∈ r.callbacks := by
  unfold linked
  split
  · rw [List.mem_append, List.mem_singleton, or_comm]
  · next hmem =>
    rw [not_not] at hmem
    constructor
    · exact .inr
    · rintro (rfl | h)
      · exact hmem
      · exact h

theorem nodup_linked (h : r.callbacks.Nodup) : (r.linked callback).Nodup := by
  unfold linked
  split
  · next hmem =>
    rw [List.nodup_append]
    refine ⟨h, List.nodup_singleton callback, ?_⟩
    intro a ha b hb
    obtain rfl := List.mem_singleton.mp hb
    exact fun hab => hmem (hab ▸ ha)
  · exact h

theorem rawlink_eq : r.rawlink running callback =
    if r.ready then doCallbacks running { r with callbacks := r.linked callback }
    else { r with callbacks := r.linked callback } := by
  have hlink : (if callback ∉ r.callbacks then { r with callbacks := r.callbacks ++ [callback] }
      else r) = { r with callbacks := r.linked callback } := by
    unfold linked
    split <;> rfl
  unfold rawlink
  rw [hlink]
  rfl

/-- Before the completion, a link is no more than that. -/
theorem rawlink_of_not_ready (h : r.ready = false) :
    r.rawlink running callback = { r with callbacks := r.linked callback } := by
  rw [rawlink_eq, h, if_neg Bool.false_ne_true]

/-- Afterwards it dispatches every callback of the list again. -/
theorem rawlink_of_ready (running : κ → Bool) (callback : κ) (h : r.ready = true) :
    (r.rawlink running callback).callbacks = r.linked callback ∧
      (r.rawlink running callback).ready = true ∧
      ∀ k, (r.rawlink running callback).dispatches k = r.dispatches k + (r.linked callback).count k := by
  rw [rawlink_eq, if_pos h]
  refine ⟨doCallbacks_callbacks, ?_, fun k => dispatches_doCallbacks⟩
  rw [doCallbacks_ready]
  exact h

theorem unlink_of_not_ready (callback : κ) (h : r.ready = false) (hnodup : r.callbacks.Nodup) :
    (r.unlink callback).callbacks.Nodup ∧ (r.unlink callback).exception = r.exception ∧
      (∀ k, (r.unlink callback).dispatches k = r.dispatches k) ∧
      ∀ k, k ∈ (r.unlink callback).callbacks ↔ k ≠ callback ∧ k ∈ r.callbacks := by
  unfold unlink
  rw [if_neg (by rw [h]; exact Bool.false_ne_true)]
  split
  · exact ⟨hnodup.erase callback, rfl, fun _ => rfl, fun k => hnodup.mem_erase_iff⟩
  · next hmem =>
    refine ⟨hnodup, rfl, fun _ => rfl, fun k => ?_⟩
    rw [iff_and_self]
    rintro hk rfl
    exact hmem hk

theorem unlink_of_ready (h : r.ready = true) : r.unlink callback = r := if_pos h

/-- The completion dispatches every callback of the list once more than before. -/
theorem post_completes {step : AsyncCall κ ν × (κ → Bool)} (h : step.1.completes = true) :
    (r.post step).callbacks = r.callbacks ∧ (r.post step).ready = true ∧
      ∀ k, (r.post step).dispatches k = r.dispatches k + r.callbacks.count k := by
  obtain ⟨call, running⟩ := step
  cases call with
  | rawlink callback => cases h
  | unlink callback => cases h
  | set value =>
    exact ⟨doCallbacks_callbacks, doCallbacks_ready.trans rfl, fun k => dispatches_doCallbacks⟩
  | setException exception =>
    exact ⟨doCallbacks_callbacks, doCallbacks_ready.trans rfl, fun k => dispatches_doCallbacks⟩

end Dispatching

/-! ## Before the completion -/

section Before

variable {κ ν : Type} [DecidableEq κ] {calls : List (AsyncCall κ ν)} {call : AsyncCall κ ν}
  {steps : List (AsyncCall κ ν × (κ → Bool))} {k : κ}

theorem linked_nil : ¬ Linked ([] : List (AsyncCall κ ν)) k := by
  rintro ⟨before, call, after, h, -⟩
  cases before <;> cases h

/-- The last call that concerns the callback decides. -/
theorem linked_concat : Linked (calls ++ [call]) k ↔
    call.linksThis k = true ∨ Linked calls k ∧ call.unlinksThis k = false := by
  constructor
  · rintro ⟨before, link, after, hsplit, hlink, hafter⟩
    rcases List.eq_nil_or_concat' after with rfl | ⟨after, last, rfl⟩
    · obtain ⟨-, hcall⟩ := List.append_inj' hsplit rfl
      obtain rfl := List.singleton_inj.mp hcall
      exact .inl hlink
    · rw [← List.cons_append, ← List.append_assoc] at hsplit
      obtain ⟨rfl, hcall⟩ := List.append_inj' hsplit rfl
      obtain rfl := List.singleton_inj.mp hcall
      exact .inr ⟨⟨before, link, after, rfl, hlink,
        fun c hc => hafter c (List.mem_append_left _ hc)⟩, hafter call (by simp)⟩
  · rintro (hlink | ⟨⟨before, link, after, rfl, hlink, hafter⟩, hcall⟩)
    · exact ⟨calls, call, [], rfl, hlink, fun _ h => absurd h List.not_mem_nil⟩
    · refine ⟨before, link, after ++ [call], by simp, hlink, ?_⟩
      intro c hc
      rcases List.mem_append.mp hc with hc | hc
      · exact hafter c hc
      · obtain rfl := List.mem_singleton.mp hc
        exact hcall

/-- Until a completion comes, nothing is dispatched, and the list holds what is linked. -/
structure Dispatching.Pending (r : Dispatching κ ν) (calls : List (AsyncCall κ ν)) : Prop where
  not_ready : r.ready = false
  nodup : r.callbacks.Nodup
  idle : ∀ k, r.dispatches k = 0
  mem : ∀ k, k ∈ r.callbacks ↔ Linked calls k

theorem Dispatching.Pending.post {r : Dispatching κ ν} (h : r.Pending calls)
    {step : AsyncCall κ ν × (κ → Bool)} (hstep : step.1.completes = false) :
    (r.post step).Pending (calls ++ [step.1]) := by
  obtain ⟨call, running⟩ := step
  cases call with
  | rawlink callback =>
    show (r.rawlink running callback).Pending _
    rw [rawlink_of_not_ready h.not_ready]
    refine ⟨h.not_ready, nodup_linked h.nodup, h.idle, fun k => ?_⟩
    rw [linked_concat, ← h.mem k]
    show k ∈ r.linked callback ↔ _
    rw [mem_linked]
    simp [AsyncCall.linksThis, AsyncCall.unlinksThis, eq_comm]
  | unlink callback =>
    obtain ⟨hnodup, hexception, hdispatches, hmem⟩ :=
      unlink_of_not_ready callback h.not_ready h.nodup
    refine ⟨?_, hnodup, fun k => (hdispatches k).trans (h.idle k), fun k => ?_⟩
    · show (r.unlink callback).ready = false
      rw [ready, hexception]
      exact h.not_ready
    · rw [linked_concat, ← h.mem k]
      refine (hmem k).trans ?_
      simp [AsyncCall.linksThis, AsyncCall.unlinksThis, eq_comm, and_comm]
  | set value => cases hstep
  | setException exception => cases hstep

theorem Dispatching.pending_run
    (h : ∀ call ∈ steps.map Prod.fst, call.completes = false) :
    (run new steps).Pending (steps.map Prod.fst) := by
  induction steps using List.reverseRecOn with
  | nil => exact ⟨rfl, List.nodup_nil, fun _ => rfl, fun _ => iff_of_false List.not_mem_nil linked_nil⟩
  | append_singleton steps step ih =>
    rw [List.map_append] at h ⊢
    have hbefore := ih fun call hcall => h call (List.mem_append_left _ hcall)
    rw [run, List.foldl_append]
    exact hbefore.post (h step.1 (by simp))

end Before

/-! ## After it -/

section After

variable {κ ν : Type} [DecidableEq κ] {r : Dispatching κ ν} {k : κ}
  {steps : List (AsyncCall κ ν × (κ → Bool))}

/-- Every link that comes after the completion dispatches a callback again, from the link on that
puts it on the list. -/
theorem Dispatching.dispatches_run_of_ready (hready : r.ready = true) (hnodup : r.callbacks.Nodup)
    (h : ∀ call ∈ steps.map Prod.fst, call.completes = false) :
    (r.run steps).dispatches k = r.dispatches k +
      if k ∈ r.callbacks then (steps.map Prod.fst).countP AsyncCall.links
      else ((steps.map Prod.fst).dropWhile fun call => !call.linksThis k).countP AsyncCall.links := by
  induction steps generalizing r with
  | nil => simp [run]
  | cons step steps ih =>
    have hrest : ∀ call ∈ steps.map Prod.fst, call.completes = false :=
      fun call hcall => h call (List.mem_cons_of_mem step.1 hcall)
    obtain ⟨call, running⟩ := step
    cases call with
    | rawlink callback =>
      obtain ⟨hcallbacks, hready', hdispatches⟩ :=
        rawlink_of_ready running callback hready
      have hnodup' : (r.rawlink running callback).callbacks.Nodup := by
        rw [hcallbacks]
        exact nodup_linked hnodup
      show (run (r.rawlink running callback) steps).dispatches k = _
      rw [ih hready' hnodup' hrest, hdispatches, hcallbacks, List.map_cons, List.dropWhile_cons]
      by_cases hmem : k ∈ r.callbacks
      · have hlinked : k ∈ r.linked callback := mem_linked.mpr (.inr hmem)
        rw [if_pos hlinked, if_pos hmem, List.count_eq_one_of_mem (nodup_linked hnodup) hlinked,
          List.countP_cons]
        simp only [AsyncCall.links, if_true]
        omega
      by_cases hthis : k = callback
      · have hlinked : k ∈ r.linked callback := mem_linked.mpr (.inl hthis)
        rw [if_pos hlinked, if_neg hmem, List.count_eq_one_of_mem (nodup_linked hnodup) hlinked,
          if_neg (by simp [AsyncCall.linksThis, hthis]), List.countP_cons]
        simp only [AsyncCall.links, if_true]
        omega
      · have hlinked : k ∉ r.linked callback := fun hk => (mem_linked.mp hk).elim hthis hmem
        rw [if_neg hlinked, if_neg hmem, List.count_eq_zero_of_not_mem hlinked,
          if_pos (by simp [AsyncCall.linksThis, Ne.symm hthis]), Nat.add_zero]
    | unlink callback =>
      have hskip : (!AsyncCall.linksThis k (.unlink callback : AsyncCall κ ν)) = true := rfl
      have hnone : ¬ AsyncCall.links (.unlink callback : AsyncCall κ ν) = true := Bool.false_ne_true
      show (run (r.unlink callback) steps).dispatches k = _
      rw [unlink_of_ready hready, ih hready hnodup hrest, List.map_cons, List.dropWhile_cons,
        if_pos hskip, List.countP_cons_of_neg hnone]
    | set value => exact absurd (h (.set value) (by simp)) (by simp [AsyncCall.completes])
    | setException exception =>
      exact absurd (h (.setException exception) (by simp)) (by simp [AsyncCall.completes])

end After

/-! ## Exactly once -/

section Rounds

variable {κ ν : Type} [DecidableEq κ] {calls : List (AsyncCall κ ν)} {k : κ}

/-- The links from the first one of the callback on. -/
def rounds (k : κ) (calls : List (AsyncCall κ ν)) : Nat :=
  (calls.dropWhile fun call => !call.linksThis k).countP AsyncCall.links

theorem rounds_le : rounds k calls ≤ calls.countP AsyncCall.links :=
  (List.dropWhile_suffix _).sublist.countP_le

theorem AsyncCall.links_of_linksThis {call : AsyncCall κ ν} (h : call.linksThis k = true) :
    call.links = true := by
  cases call with
  | rawlink callback => rfl
  | _ => cases h

theorem rounds_cons {call : AsyncCall κ ν} : rounds k (call :: calls) =
    if call.linksThis k then calls.countP AsyncCall.links + 1 else rounds k calls := by
  rw [rounds, List.dropWhile_cons]
  cases hthis : call.linksThis k with
  | false => rfl
  | true => exact List.countP_cons_of_pos (AsyncCall.links_of_linksThis hthis)

theorem rounds_pos_iff : 0 < rounds k calls ↔ ∃ call ∈ calls, call.linksThis k = true := by
  induction calls with
  | nil => exact iff_of_false (Nat.lt_irrefl 0) fun ⟨_, h, _⟩ => absurd h List.not_mem_nil
  | cons call calls ih =>
    rw [rounds_cons, List.exists_mem_cons_iff, ← ih]
    split
    · next hthis => exact iff_of_true (Nat.succ_pos _) (.inl hthis)
    · next hthis => rw [or_iff_right hthis]

/-- The callback of the first link is dispatched at every link. -/
theorem exists_rounds_eq (h : 0 < calls.countP AsyncCall.links) :
    ∃ k, rounds k calls = calls.countP AsyncCall.links := by
  induction calls with
  | nil => exact absurd h (Nat.lt_irrefl 0)
  | cons call calls ih =>
    cases call with
    | rawlink callback =>
      refine ⟨callback, ?_⟩
      rw [rounds_cons, if_pos (by simp [AsyncCall.linksThis]), List.countP_cons_of_pos rfl]
    | _ =>
      rw [List.countP_cons_of_neg Bool.false_ne_true] at h ⊢
      obtain ⟨k, hk⟩ := ih h
      exact ⟨k, by rw [rounds_cons, if_neg (by simp [AsyncCall.linksThis]), hk]⟩

end Rounds

section Once

variable {κ ν : Type} [DecidableEq κ] {calls before after : List (AsyncCall κ ν)}
  {completion : AsyncCall κ ν} {steps : List (AsyncCall κ ν × (κ → Bool))} {k : κ}

omit [DecidableEq κ] in
/-- There is no other completion in front of the one there is, nor behind it. -/
theorem alone (h : (before ++ completion :: after).countP AsyncCall.completes ≤ 1)
    (hcompletion : completion.completes = true) :
    (∀ call ∈ before, call.completes = false) ∧ ∀ call ∈ after, call.completes = false := by
  rw [List.countP_append, List.countP_cons_of_pos hcompletion] at h
  have hbefore : before.countP AsyncCall.completes = 0 := by omega
  have hafter : after.countP AsyncCall.completes = 0 := by omega
  rw [List.countP_eq_zero] at hbefore hafter
  exact ⟨fun call hcall => Bool.not_eq_true _ ▸ hbefore call hcall,
    fun call hcall => Bool.not_eq_true _ ▸ hafter call hcall⟩

omit [DecidableEq κ] in
theorem takeWhile_not_completes (hbefore : ∀ call ∈ before, call.completes = false)
    (hcompletion : completion.completes = true) :
    (before ++ completion :: after).takeWhile (fun call => !call.completes) = before := by
  rw [List.takeWhile_append_of_pos (fun call hcall => by rw [hbefore call hcall]; rfl),
    List.takeWhile_cons_of_neg (by rw [hcompletion]; exact Bool.false_ne_true), List.append_nil]

theorem shouldCall_iff (h : (before ++ completion :: after).countP AsyncCall.completes ≤ 1)
    (hcompletion : completion.completes = true) :
    ShouldCall (before ++ completion :: after) k ↔
      Linked before k ∨ ∃ call ∈ after, call.linksThis k = true := by
  constructor
  · rintro ⟨before', completion', after', hsplit, hcompletion', hlinked⟩
    have hbefore : (before ++ completion :: after).takeWhile (fun call => !call.completes) = before :=
      takeWhile_not_completes (alone h hcompletion).1 hcompletion
    rw [hsplit] at h hbefore
    rw [takeWhile_not_completes (alone h hcompletion').1 hcompletion'] at hbefore
    subst hbefore
    obtain ⟨rfl, rfl⟩ := List.cons.inj (List.append_cancel_left hsplit)
    exact hlinked
  · intro hlinked
    exact ⟨before, completion, after, rfl, hcompletion, hlinked⟩

/-- A run with one completion. -/
theorem Dispatching.dispatches_run (hsplit : steps.map Prod.fst = before ++ completion :: after)
    (hbefore : ∀ call ∈ before, call.completes = false) (hcompletion : completion.completes = true)
    (hafter : ∀ call ∈ after, call.completes = false) :
    (Linked before k → (run new steps).dispatches k = 1 + after.countP AsyncCall.links) ∧
    (¬ Linked before k → (run new steps).dispatches k = rounds k after) := by
  obtain ⟨first, rest, rfl, rfl, hrest⟩ := List.map_eq_append_iff.mp hsplit
  obtain ⟨step, last, rfl, rfl, rfl⟩ := List.map_eq_cons_iff.mp hrest
  have hpending : (run new first).Pending (first.map Prod.fst) := pending_run hbefore
  obtain ⟨hcallbacks, hready, hdispatches⟩ := post_completes (r := run new first) hcompletion
  have hrun : run new (first ++ step :: last) = run ((run new first).post step) last :=
    List.foldl_append
  have hnodup : ((run new first).post step).callbacks.Nodup := by
    rw [hcallbacks]
    exact hpending.nodup
  rw [hrun, dispatches_run_of_ready hready hnodup hafter, hdispatches, hpending.idle, hcallbacks,
    Nat.zero_add, ← hpending.mem k]
  constructor
  · intro hk
    rw [if_pos hk, List.count_eq_one_of_mem hpending.nodup hk]
  · intro hk
    rw [if_neg hk, List.count_eq_zero_of_not_mem hk, Nat.zero_add, rounds]

/-- The callbacks are dispatched exactly once, all that should be and no other. -/
def OnceEach (steps : List (AsyncCall κ ν × (κ → Bool))) : Prop :=
  ∀ k, (ShouldCall (steps.map Prod.fst) k → (Dispatching.new.run steps).dispatches k = 1) ∧
    (¬ ShouldCall (steps.map Prod.fst) k → (Dispatching.new.run steps).dispatches k = 0)

theorem onceEach_of_pending (h : ∀ call ∈ steps.map Prod.fst, call.completes = false) :
    OnceEach steps := by
  intro k
  refine ⟨fun hshould => ?_, fun _ => (Dispatching.pending_run h).idle k⟩
  obtain ⟨before, completion, after, hsplit, hcompletion, -⟩ := hshould
  have hmem : completion ∈ steps.map Prod.fst := by
    rw [hsplit]
    exact List.mem_append_right before List.mem_cons_self
  rw [h completion hmem] at hcompletion
  cases hcompletion

theorem onceEach_of_completion (hsplit : steps.map Prod.fst = before ++ completion :: after)
    (h : (steps.map Prod.fst).countP AsyncCall.completes ≤ 1)
    (hcompletion : completion.completes = true) :
    OnceEach steps ↔ after.countP AsyncCall.links = 0 ∨
      after.countP AsyncCall.links = 1 ∧ ∀ k, ¬ Linked before k := by
  rw [hsplit] at h
  obtain ⟨hbefore, hafter⟩ := alone h hcompletion
  have hdispatches k := Dispatching.dispatches_run (k := k) hsplit hbefore hcompletion hafter
  have hshould k := shouldCall_iff (k := k) h hcompletion
  unfold OnceEach
  rw [hsplit]
  constructor
  · intro honce
    rcases Nat.eq_zero_or_pos (after.countP AsyncCall.links) with hzero | hpos
    · exact .inl hzero
    have hnone (k : κ) : ¬ Linked before k := by
      intro hlinked
      have hone := (honce k).1 ((hshould k).mpr (.inl hlinked))
      rw [(hdispatches k).1 hlinked] at hone
      omega
    -- the first link is followed by no other
    obtain ⟨k, hk⟩ := exists_rounds_eq hpos
    have hone := (honce k).1 ((hshould k).mpr (.inr (rounds_pos_iff.mp (hk ▸ hpos))))
    rw [(hdispatches k).2 (hnone k), hk] at hone
    exact .inr ⟨hone, hnone⟩
  · rintro hcond k
    rw [hshould k]
    by_cases hlinked : Linked before k
    · refine ⟨fun _ => ?_, fun hnot => absurd (.inl hlinked) hnot⟩
      have hzero := hcond.resolve_right fun hnone => hnone.2 k hlinked
      rw [(hdispatches k).1 hlinked, hzero]
    · have hle : rounds k after ≤ after.countP AsyncCall.links := rounds_le
      rw [or_iff_right hlinked, ← rounds_pos_iff, (hdispatches k).2 hlinked]
      rcases hcond with hzero | ⟨hone, -⟩ <;> omega

/-- With one completion at most, every callback is dispatched exactly once, unless a link comes
behind the completion with callbacks linked already: it dispatches all of them again. -/
theorem callbacks_once_iff (h : (steps.map Prod.fst).countP AsyncCall.completes ≤ 1) :
    OnceEach steps ↔ ∀ before completion after,
      steps.map Prod.fst = before ++ completion :: after → completion.completes = true →
        after.countP AsyncCall.links = 0 ∨
          after.countP AsyncCall.links = 1 ∧ ∀ k, ¬ Linked before k := by
  constructor
  · intro honce before completion after hsplit hcompletion
    exact (onceEach_of_completion hsplit h hcompletion).mp honce
  · intro hcond
    by_cases hnone : ∀ call ∈ steps.map Prod.fst, call.completes = false
    · exact onceEach_of_pending hnone
    simp only [not_forall, Bool.not_eq_false] at hnone
    obtain ⟨completion, hmem, hcompletion⟩ := hnone
    obtain ⟨before, after, hsplit⟩ := List.append_of_mem hmem
    exact (onceEach_of_completion hsplit h hcompletion).mpr
      (hcond before completion after hsplit hcompletion)

/-- Linked before and after, and the result completed in between, while the handler runs. -/
def lateLink : List (AsyncCall Bool Unit × (Bool → Bool)) :=
  [(.rawlink false, fun _ => true), (.set (), fun _ => true), (.rawlink true, fun _ => true)]

theorem callbacks_once_early : OnceEach (lateLink.take 2) :=
  (callbacks_once_iff (by decide)).mpr fun before completion after hsplit hcompletion => by
    rcases before with _ | ⟨first, _ | ⟨second, before⟩⟩
    · obtain ⟨rfl, -⟩ := List.cons.inj hsplit
      cases hcompletion
    · obtain ⟨-, hrest⟩ := List.cons.inj hsplit
      obtain ⟨-, rfl⟩ := List.cons.inj hrest
      exact .inl rfl
    · have hlength := congrArg List.length hsplit
      simp only [lateLink, List.take, List.map, List.length_append, List.length_cons,
        List.length_nil] at hlength
      omega

/-- The callback that was dispatched at the completion is dispatched again by the late link. -/
theorem callbacks_twice_late : ¬ ∀ steps : List (AsyncCall Bool Unit × (Bool → Bool)),
    (steps.map Prod.fst).countP AsyncCall.completes ≤ 1 → OnceEach steps := by
  intro h
  have honce := (h lateLink (by decide) false).1
    ⟨[.rawlink false], .set (), [.rawlink true], rfl, rfl,
      .inl ⟨[], .rawlink false, [], rfl, rfl, fun _ h => absurd h List.not_mem_nil⟩⟩
  exact absurd honce (by decide)

end Once

end Kazoo
