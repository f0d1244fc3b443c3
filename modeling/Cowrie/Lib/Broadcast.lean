import Mathlib.Data.List.Basic

/-!
# Broadcast to bounded queues

What is pushed goes to the queue of every subscriber. A subscriber whose queue is full loses its subscription, though
it goes on to take what its queue still has.

* `Subscriber` is a queue, what has been taken from it, and how much had been pushed before (`since`).
* `Subscriber.Sound limit pushed`: a subscriber has had, or will take, a beginning of what was pushed since it
  subscribed, and all of it iff it has kept its subscription.
* **`Sound.push`**, `Sound.take`: what the operations keep.
* `subscribed_push`: who loses its subscription.
-/

namespace Cowrie.Lib

variable {β : Type*}

/-- A queue and its history. -/
structure Subscriber (β : Type*) where
  since : Nat
  queue : List β := []
  taken : List β := []
  subscribed : Bool := true
  deriving DecidableEq

namespace Subscriber

/-- What has been taken and what will be. -/
def received (u : Subscriber β) : List β := u.taken ++ u.queue

/-- Something is pushed. -/
def push (limit : Nat) (b : β) (u : Subscriber β) : Subscriber β :=
  if u.subscribed = false then u
  else if u.queue.length < limit then { u with queue := u.queue ++ [b] }
  else { u with subscribed := false }

/-- The subscriber takes the first in its queue. -/
def take (u : Subscriber β) : Option (β × Subscriber β) :=
  match u.queue with
  | [] => none
  | b :: rest => some (b, { u with queue := rest, taken := u.taken ++ [b] })

/-- The subscribers miss nothing; those who have lost their subscription do. -/
structure Sound (limit : Nat) (pushed : List β) (u : Subscriber β) : Prop where
  since_le : u.since ≤ pushed.length
  bounded : u.queue.length ≤ limit
  segment : u.received <+: pushed.drop u.since
  complete : u.subscribed = true ↔ u.received = pushed.drop u.since

variable {limit : Nat} {pushed : List β} {b : β} {u v : Subscriber β}

theorem sound_new (limit : Nat) (pushed : List β) : Sound limit pushed ⟨pushed.length, [], [], true⟩ :=
  ⟨Nat.le_refl _, Nat.zero_le _, List.nil_prefix, by simp [received]⟩

theorem received_take (h : u.take = some (b, v)) : v.received = u.received := by
  unfold take at h
  split at h
  case h_1 => cases h
  case h_2 b' rest hqueue =>
    cases h
    unfold received
    rw [hqueue, List.append_assoc]
    rfl

theorem subscribed_take (h : u.take = some (b, v)) : v.subscribed = u.subscribed := by
  unfold take at h
  split at h
  case h_1 => cases h
  case h_2 b' rest hqueue =>
    cases h
    rfl

/-- Taking changes neither what is received nor the subscription. -/
theorem Sound.take (h : Sound limit pushed u) (hv : u.take = some (b, v)) : Sound limit pushed v := by
  have hreceived := received_take hv
  unfold Subscriber.take at hv
  split at hv
  case h_1 => cases hv
  case h_2 b' rest hqueue =>
    cases hv
    refine ⟨h.since_le, ?_, ?_, ?_⟩
    · have hbounded := h.bounded
      rw [hqueue, List.length_cons] at hbounded
      exact Nat.le_of_succ_le hbounded
    · rw [hreceived]
      exact h.segment
    · rw [hreceived]
      exact h.complete

/-- A push keeps the subscribers complete; one whose queue is full falls behind for good. -/
theorem Sound.push (h : Sound limit pushed u) (b : β) : Sound limit (pushed ++ [b]) (u.push limit b) := by
  have hsince : u.since ≤ (pushed ++ [b]).length := by
    rw [List.length_append]
    exact Nat.le_trans h.since_le (Nat.le_add_right _ _)
  have hdrop : (pushed ++ [b]).drop u.since = pushed.drop u.since ++ [b] := List.drop_append_of_le_length h.since_le
  -- one who has been left out stays shorter than what was pushed
  have hshort : u.received ≠ pushed.drop u.since ++ [b] := fun heq => by
    have hlength := h.segment.length_le
    rw [heq, List.length_append, List.length_singleton] at hlength
    omega
  have hsegment : u.received <+: pushed.drop u.since ++ [b] := h.segment.trans (List.prefix_append _ _)
  unfold Subscriber.push
  split_ifs with hsubscribed hroom
  · refine ⟨hsince, h.bounded, hdrop ▸ hsegment, ?_⟩
    rw [hdrop, hsubscribed]
    exact iff_of_false Bool.false_ne_true hshort
  · have hall : u.received = pushed.drop u.since := h.complete.mp (by simpa using hsubscribed)
    have hqueued : received { u with queue := u.queue ++ [b] } = pushed.drop u.since ++ [b] := by
      rw [← hall]
      exact (List.append_assoc u.taken u.queue [b]).symm
    refine ⟨hsince, ?_, ?_, ?_⟩
    · change (u.queue ++ [b]).length ≤ limit
      rw [List.length_append]
      exact hroom
    · rw [hqueued]
      exact hdrop ▸ List.prefix_refl _
    · rw [hqueued]
      exact iff_of_true (by simpa using hsubscribed) hdrop.symm
  · refine ⟨hsince, h.bounded, ?_, ?_⟩
    · change u.received <+: _
      exact hdrop ▸ hsegment
    · change false = true ↔ u.received = (pushed ++ [b]).drop u.since
      rw [hdrop]
      exact iff_of_false Bool.false_ne_true hshort

/-- A push leaves a subscriber its subscription iff there is room. -/
theorem subscribed_push (u : Subscriber β) :
    (u.push limit b).subscribed = true ↔ u.subscribed = true ∧ u.queue.length < limit := by
  unfold push
  split_ifs with hsubscribed hroom
  · simp [hsubscribed]
  · simp [hroom, hsubscribed]
  · simp [hroom]

end Subscriber

end Cowrie.Lib
