import QueuedFiles.Queue

/-!
What a queue answers to a message that is offered to it, and what it is when it has taken one.
-/

namespace QueuedFiles

namespace Queue

variable {α : Type} {q r : Queue α} {m : Message α}

def extend (q : Queue α) (m : Message α) : Queue α := { q with messages := q.messages ++ [m] }

@[simp] theorem messages_extend : (q.extend m).messages = q.messages ++ [m] := rfl

@[simp] theorem isOpen_extend : (q.extend m).isOpen = q.isOpen := rfl

@[simp] theorem capacity_extend : (q.extend m).capacity = q.capacity := rfl

@[simp] theorem payloads_extend : (q.extend m).payloads = q.payloads ++ m.payload?.toList := by
  cases m <;> simp [payloads, extend, Message.payload?]

theorem offer_eq_taken (h : q.offer m = .taken r) :
    q.isOpen = true ∧ q.messages.length < q.capacity ∧ r = q.extend m := by
  unfold offer at h
  split at h
  · cases h
  · split at h
    · cases h
      exact ⟨by simp_all, ‹_›, rfl⟩
    · cases h

theorem offer_eq_closed (h : q.offer m = .closed) : q.isOpen = false := by
  unfold offer at h
  split at h
  · simp_all
  · split at h <;> cases h

theorem offer_eq_full (h : q.offer m = .full) :
    q.isOpen = true ∧ q.capacity ≤ q.messages.length := by
  unfold offer at h
  split at h
  · cases h
  · split at h
    · cases h
    · exact ⟨by simp_all, by omega⟩

theorem offer_of_full (ho : q.isOpen = true) (hf : q.capacity ≤ q.messages.length) :
    q.offer m = .full := by
  simp [offer, ho, Nat.not_lt.2 hf]

theorem offer_of_room (ho : q.isOpen = true) (hr : q.messages.length < q.capacity) :
    q.offer m = .taken (q.extend m) := by
  simp [offer, ho, hr, extend]

theorem offer_of_closed (hc : q.isOpen = false) : q.offer m = .closed := by
  simp [offer, hc]

end Queue

end QueuedFiles
