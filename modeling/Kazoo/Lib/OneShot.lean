import Mathlib.Data.List.Basic

/-!
# One-shot subscriptions to a stream

Some messages of a stream subscribe, and some fire and thereby end the subscription.  A message is
delivered if it fires and finds a subscription.
-/

section OneShot

variable {μ : Type*} (subscribes fires : μ → Bool)

/-- Whether there is a subscription behind the message. -/
def resubscribed (subscribed : Bool) (m : μ) : Bool := !fires m && (subscribed || subscribes m)

/-- Whether there is a subscription behind the stream. -/
def subscribedAfter (subscribed : Bool) (stream : List μ) : Bool :=
  stream.foldl (resubscribed subscribes fires) subscribed

/-- The messages of the stream that are delivered. -/
def delivered : Bool → List μ → List μ
  | _, [] => []
  | subscribed, m :: stream =>
    (if subscribed && fires m then [m] else []) ++
      delivered (resubscribed subscribes fires subscribed m) stream

variable {subscribes fires} {subscribed : Bool} {stream : List μ} {m x : μ}

@[simp] theorem subscribedAfter_nil : subscribedAfter subscribes fires subscribed [] = subscribed := rfl

theorem subscribedAfter_concat : subscribedAfter subscribes fires subscribed (stream ++ [m]) =
    resubscribed subscribes fires (subscribedAfter subscribes fires subscribed stream) m :=
  List.foldl_concat _ _ _ _

theorem delivered_concat : delivered subscribes fires subscribed (stream ++ [m]) =
    delivered subscribes fires subscribed stream ++
      if subscribedAfter subscribes fires subscribed stream && fires m then [m] else [] := by
  induction stream generalizing subscribed with
  | nil => simp [delivered]
  | cons x stream ih => rw [List.cons_append, delivered, ih, delivered, List.append_assoc]; rfl

theorem mem_delivered_cons : x ∈ delivered subscribes fires subscribed (m :: stream) ↔
    (subscribed = true ∧ fires m = true ∧ x = m) ∨
      x ∈ delivered subscribes fires (resubscribed subscribes fires subscribed m) stream := by
  rw [delivered, List.mem_append]
  cases subscribed <;> cases fires m <;> simp

theorem mem_of_mem_delivered (h : x ∈ delivered subscribes fires subscribed stream) :
    x ∈ stream ∧ fires x = true := by
  induction stream generalizing subscribed with
  | nil => cases h
  | cons m stream ih =>
    rcases mem_delivered_cons.mp h with ⟨-, hfires, rfl⟩ | h
    · exact ⟨List.mem_cons_self, hfires⟩
    · exact ⟨List.mem_cons_of_mem m (ih h).1, (ih h).2⟩

end OneShot
