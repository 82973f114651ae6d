import QueuedFiles.Event
import QueuedFiles.Proofs.Lists

/-!
The completion event, thread by thread. Nobody who waits comes back before the flag is set, only a
signal sets it, and once it is set nobody is told that it is not.
-/

namespace QueuedFiles

/-- A phase that a thread can be in, with a flag and for a call. -/
def EventPhase.Fits (flag : Bool) (c : EventCall) : EventPhase → Prop
  | .entering d | .testing d => d = c
  | .notifying => c = .signal ∧ flag = true
  | .leaving a | .returned a => (c = .wait → a = true) ∧ (a = true → flag = true)
  | .parked | .woken => c = .wait

/-- The thread has not been told that the flag is unset, unless it was to set the flag. -/
def EventPhase.Late (c : EventCall) : EventPhase → Prop
  | .leaving a | .returned a => c ≠ .signal → a = true
  | _ => True

/-- A thread in this phase holds the lock. -/
def EventPhase.holds : EventPhase → Bool
  | .testing _ | .notifying | .leaving _ => true
  | _ => false

/-- What one move does to the phase of its thread, with the flag before and after. -/
inductive EventPhase.Goes (flag : Bool) : EventPhase → Bool → EventPhase → Prop
  | entered (c : EventCall) : Goes flag (.entering c) flag (.testing c)
  | set : flag = false → Goes flag (.testing .signal) true .notifying
  | wasSet : flag = true → Goes flag (.testing .signal) flag (.leaving false)
  | polled : Goes flag (.testing .poll) flag (.leaving flag)
  | waited : flag = true → Goes flag (.testing .wait) flag (.leaving true)
  | parked : flag = false → Goes flag (.testing .wait) flag .parked
  | notified : Goes flag .notifying flag (.leaving true)
  | left (a : Bool) : Goes flag (.leaving a) flag (.returned a)
  | again : Goes flag .woken flag (.testing .wait)
  | stirred : Goes flag .parked flag .woken

namespace EventPhase

variable {old new : Bool} {c : EventCall} {p q : EventPhase}

theorem Goes.flag (h : p.Goes old new q) (hf : old = true) : new = true := by
  cases h with
  | set => rfl
  | _ => exact hf

theorem Goes.signaled (h : p.Goes old new q) (hf : new = true) :
    old = true ∨ p = .testing .signal := by
  cases h with
  | set => exact .inr rfl
  | _ => exact .inl hf

theorem Goes.fits (h : p.Goes old new q) (hp : p.Fits old c) : q.Fits new c := by
  cases h with
  | entered | left | stirred => exact hp
  | set => exact ⟨hp.symm, rfl⟩
  | wasSet hf => exact ⟨fun hc ↦ (by cases hp.trans hc), fun ha ↦ (by cases ha)⟩
  | polled => exact ⟨fun hc ↦ (by cases hp.trans hc), id⟩
  | waited hf => exact ⟨fun _ ↦ rfl, fun _ ↦ hf⟩
  | parked | again => exact hp.symm
  | notified => exact ⟨fun _ ↦ rfl, fun _ ↦ hp.2⟩

theorem Fits.mono (h : p.Fits old c) (hf : old = true → new = true) : p.Fits new c := by
  cases p with
  | notifying => exact ⟨h.1, hf h.2⟩
  | leaving | returned => exact ⟨h.1, fun ha ↦ hf (h.2 ha)⟩
  | _ => exact h

theorem Fits.rouse (h : p.Fits old c) : (Event.rouse p).Fits old c := by
  cases p with
  | _ => exact h

theorem Goes.late (h : p.Goes old new q) (hf : old = true) (hp : p.Fits old c)
    (hl : p.Late c) : q.Late c := by
  cases h with
  | wasSet => exact fun hc ↦ absurd hp.symm hc
  | polled => exact fun _ ↦ hf
  | waited | notified => exact fun _ ↦ rfl
  | left => exact hl
  | _ => trivial

theorem Late.rouse (h : p.Late c) : (Event.rouse p).Late c := by
  cases p with
  | _ => exact h

end EventPhase

namespace Event

variable {e f : Event} {i : Nat}

/-- All that a move of thread `i` from `p` to `q` does: to the flag, to the other threads and to the
lock. -/
structure Shift (e : Event) (i : Nat) (p q : EventPhase) (f : Event) : Prop where
  phase : e.threads[i]? = some p
  goes : p.Goes e.signaled f.signaled q
  threads : f.threads = (if p = .notifying then e.threads.map rouse else e.threads).set i q
  free : p.holds = false → q.holds = true → e.holder = none
  holder : f.holder =
    if q.holds then (if p.holds then e.holder else some i) else (if p.holds then none else e.holder)

theorem step_shift (h : e.step i = some f) : ∃ p q, e.Shift i p q f := by
  rw [step] at h
  split at h
  · next c hp =>
    obtain ⟨hfree, h⟩ := Option.ite_none_right_eq_some.1 h
    cases h
    exact ⟨_, _, hp, .entered c, rfl, fun _ _ ↦ hfree, rfl⟩
  · next hp =>
    split at h
    · next hf =>
      cases h
      exact ⟨_, _, hp, .wasSet hf, rfl, nofun, rfl⟩
    · next hf =>
      cases h
      exact ⟨_, _, hp, .set (Bool.eq_false_iff.2 hf), rfl, nofun, rfl⟩
  · next hp =>
    cases h
    exact ⟨_, _, hp, .polled, rfl, nofun, rfl⟩
  · next hp =>
    split at h
    · next hf =>
      cases h
      exact ⟨_, _, hp, .waited hf, rfl, nofun, rfl⟩
    · next hf =>
      cases h
      exact ⟨_, _, hp, .parked (Bool.eq_false_iff.2 hf), rfl, nofun, rfl⟩
  · next hp =>
    cases h
    exact ⟨_, _, hp, .notified, rfl, nofun, rfl⟩
  · next a hp =>
    cases h
    exact ⟨_, _, hp, .left a, rfl, nofun, rfl⟩
  · next hp =>
    obtain ⟨hfree, h⟩ := Option.ite_none_right_eq_some.1 h
    cases h
    exact ⟨_, _, hp, .again, rfl, fun _ _ ↦ hfree, rfl⟩
  all_goals cases h

theorem stir_shift (h : e.stir i = some f) : e.Shift i .parked .woken f := by
  rw [stir] at h
  split at h
  · next hp =>
    cases h
    exact ⟨hp, .stirred, rfl, nofun, rfl⟩
  · cases h

/-- One thread makes a move, and may rouse the others with it. -/
def Moves (e : Event) (i : Nat) (f : Event) : Prop :=
  ∃ p q, e.threads[i]? = some p ∧ p.Goes e.signaled f.signaled q ∧
    (f.threads = e.threads.set i q ∨ f.threads = (e.threads.map rouse).set i q)

theorem Shift.moves {p q : EventPhase} (h : e.Shift i p q f) : e.Moves i f := by
  refine ⟨p, q, h.phase, h.goes, ?_⟩
  rw [h.threads]
  split
  · exact .inr rfl
  · exact .inl rfl

theorem step_moves (h : e.step i = some f) : e.Moves i f := by
  obtain ⟨p, q, hs⟩ := step_shift h
  exact hs.moves

theorem stir_moves (h : e.stir i = some f) : e.Moves i f := (stir_shift h).moves

theorem Moves.length (h : e.Moves i f) : f.threads.length = e.threads.length := by
  obtain ⟨p, q, -, -, hf | hf⟩ := h <;> simp [hf]

/-- Every thread makes a move, is roused or stays as it is. -/
theorem Moves.thread (h : e.Moves i f) {j : Nat} {q : EventPhase} (hq : f.threads[j]? = some q) :
    ∃ p, e.threads[j]? = some p ∧ (p.Goes e.signaled f.signaled q ∨ q = p ∨ q = rouse p) := by
  obtain ⟨p, r, hp, hgo, hf⟩ := h
  have hi : i < e.threads.length := (List.getElem?_eq_some_iff.1 hp).1
  by_cases hij : i = j
  · subst hij
    have hr : f.threads[i]? = some r := by rcases hf with hf | hf <;> simp [hf, hi]
    cases hr.symm.trans hq
    exact ⟨p, hp, .inl hgo⟩
  · rcases hf with hf | hf
    · rw [hf, List.getElem?_set_ne hij] at hq
      exact ⟨q, hq, .inr (.inl rfl)⟩
    · rw [hf, List.getElem?_set_ne hij, List.getElem?_map] at hq
      obtain ⟨p', hp', rfl⟩ := Option.map_eq_some_iff.1 hq
      exact ⟨p', hp', .inr (.inr rfl)⟩

/-- The threads at the event are there for the given calls. -/
structure Serves (e : Event) (calls : List EventCall) : Prop where
  length : calls.length = e.threads.length
  fits : ∀ {i : Nat} {c : EventCall} {p : EventPhase}, calls[i]? = some c →
    e.threads[i]? = some p → p.Fits e.signaled c

variable {calls : List EventCall}

theorem Serves.start (h : e.Serves calls) (c : EventCall) : (e.start c).Serves (calls ++ [c]) where
  length := by simp [Event.start, h.length]
  fits := by
    intro i d p hd hp
    rcases getElem?_snoc.1 hp with hp | ⟨hi, rfl⟩
    · rcases getElem?_snoc.1 hd with hd | ⟨hi, -⟩
      · exact h.fits hd hp
      · have hlt := (List.getElem?_eq_some_iff.1 hp).1
        have hlen := h.length
        omega
    · rcases getElem?_snoc.1 hd with hd | ⟨-, rfl⟩
      · have hlt := (List.getElem?_eq_some_iff.1 hd).1
        have hlen := h.length
        omega
      · rfl

theorem Serves.moves (h : e.Serves calls) (hm : e.Moves i f) : f.Serves calls where
  length := h.length.trans hm.length.symm
  fits := by
    have hmono : e.signaled = true → f.signaled = true := by
      obtain ⟨p, q, -, hgo, -⟩ := hm
      exact hgo.flag
    intro j c q hc hq
    obtain ⟨p, hp, hgo | rfl | rfl⟩ := hm.thread hq
    · exact hgo.fits (h.fits hc hp)
    · exact (h.fits hc hp).mono hmono
    · exact (h.fits hc hp).rouse.mono hmono

/-- Only a thread that is there to signal sets the flag. -/
theorem Serves.signaled (h : e.Serves calls) (hm : e.Moves i f) (hf : f.signaled = true) :
    e.signaled = true ∨ .signal ∈ calls := by
  obtain ⟨p, q, hp, hgo, -⟩ := hm
  rcases hgo.signaled hf with he | rfl
  · exact .inl he
  · obtain ⟨hi, -⟩ := List.getElem?_eq_some_iff.1 hp
    rw [← h.length] at hi
    have hc : calls[i]? = some calls[i] := List.getElem?_eq_getElem hi
    have hfit : EventCall.signal = calls[i] := h.fits hc hp
    exact .inr (hfit ▸ List.getElem_mem hi)

end Event

end QueuedFiles
