import QueuedFiles.Proofs.Lists
import QueuedFiles.Proofs.Queue
import QueuedFiles.Queue.Traffic

/-!
A queue in use by any number of producers and its consumer, in any order of their moves. A push is
two moves: it is made, and it comes back, at once or after others. A producer that several threads
share may have several pushes under way; it is not dropped before they have come back.
-/

namespace QueuedFiles

/-- A push: its number among all pushes, who makes it, and what it is to insert. -/
structure Parcel (α : Type) where
  number : Nat
  producer : Nat
  message : Message α
deriving DecidableEq

structure Exchange (α : Type) where
  traffic : Traffic α
  /-- The producers that are left. -/
  producers : List Nat
  /-- The pushes under way, in the order of the messages that wait. -/
  calls : List (Parcel α)
  nextProducer : Nat
  nextCall : Nat

namespace Exchange

variable {α : Type}

def create (requested : Nat) : Exchange α := ⟨.create requested, [0], [], 1, 0⟩

inductive Move (α : Type) where
  | clone (k : Nat)
  | drop (k : Nat)
  | call (k : Nat) (m : Message α)
  /-- The push at a place among those under way comes back. -/
  | finish (i : Nat)
  | pop
  /-- The consumer is dropped. -/
  | leave

inductive Event (α : Type) where
  | called (c : Parcel α)
  | returned (c : Parcel α) (p : Traffic.Pushed α)
  | answered (p : Traffic.Popped α)
  | left

/-- The state after a move that can be made, with what it does that others see. -/
def step (s : Exchange α) : Move α → Option (List (Event α) × Exchange α)
  | .clone k =>
    if k ∈ s.producers then
      some ([], { s with
        traffic := s.traffic.cloneProducer
        producers := s.producers ++ [s.nextProducer]
        nextProducer := s.nextProducer + 1 })
    else none
  | .drop k =>
    if k ∈ s.producers ∧ k ∉ s.calls.map (·.producer) then
      some ([], { s with
        traffic := s.traffic.dropProducer
        producers := s.producers.erase k })
    else none
  | .call k m =>
    if k ∈ s.producers then
      some ([.called ⟨s.nextCall, k, m⟩], { s with
        traffic := s.traffic.park m
        calls := s.calls ++ [⟨s.nextCall, k, m⟩]
        nextCall := s.nextCall + 1 })
    else none
  | .finish i =>
    match s.calls[i]?, s.traffic.unpark i with
    | some c, some (p, t) =>
      some ([.returned c p], { s with traffic := t, calls := s.calls.eraseIdx i })
    | _, _ => none
  | .pop =>
    match s.traffic.pop with
    | (.message m, t) => some ([.answered (.message m)], { s with traffic := t })
    | (.ended, t) => some ([.answered .ended], { s with traffic := t })
    | _ => none
  | .leave =>
    match s.traffic.dropConsumer with
    | (true, t) => some ([.left], { s with traffic := t })
    | (false, _) => none

inductive Run (s : Exchange α) : List (Event α) → Exchange α → Prop
  | refl : Run s [] s
  | step {log more : List (Event α)} {t u : Exchange α} (m : Move α) :
      Run s log t → t.step m = some (more, u) → Run s (log ++ more) u

/-- The log and the end of a run by given moves, if they can all be made. -/
def follow (s : Exchange α) : List (Move α) → Option (List (Event α) × Exchange α)
  | [] => some ([], s)
  | m :: ms => (s.step m).bind fun (more, t) ↦ (t.follow ms).map fun (log, u) ↦ (more ++ log, u)

theorem Run.trans {s t u : Exchange α} {log more : List (Event α)} (h : Run s log t)
    (h' : Run t more u) : Run s (log ++ more) u := by
  induction h' with
  | refl => simpa using h
  | step m _ hs ih => simpa only [List.append_assoc] using Run.step m ih hs

theorem Run.of_follow {s t : Exchange α} {ms : List (Move α)} {log : List (Event α)}
    (h : s.follow ms = some (log, t)) : Run s log t := by
  induction ms generalizing s log with
  | nil =>
    cases h
    exact .refl
  | cons m ms ih =>
    obtain ⟨⟨more, u⟩, hu, h⟩ := Option.bind_eq_some_iff.1 h
    obtain ⟨⟨rest, v⟩, hv, h⟩ := Option.map_eq_some_iff.1 h
    cases h
    exact (Run.step m .refl hu).trans (ih hv)

theorem Run.of_isSome {s : Exchange α} {ms : List (Move α)} (h : (s.follow ms).isSome = true) :
    Run s ((s.follow ms).get h).1 ((s.follow ms).get h).2 :=
  of_follow (Option.some_get h).symm

/-! What a log tells of pushes and pops. -/

def Event.called? : Event α → Option (Parcel α)
  | .called c => some c
  | _ => none

def Event.inserted? : Event α → Option (Parcel α)
  | .returned c .accepted => some c
  | _ => none

def Event.refused? : Event α → Option (Parcel α)
  | .returned c (.closed _) => some c
  | _ => none

def Event.popped? : Event α → Option (Message α)
  | .answered (.message m) => some m
  | _ => none

def called (log : List (Event α)) : List (Parcel α) := log.filterMap Event.called?

/-- The pushes whose messages are in, in the order in which they went in. -/
def inserted (log : List (Event α)) : List (Parcel α) := log.filterMap Event.inserted?

def refused (log : List (Event α)) : List (Parcel α) := log.filterMap Event.refused?

/-- The messages that the consumer has got out of the queue. -/
def popped (log : List (Event α)) : List (Message α) := log.filterMap Event.popped?

section

variable (log more : List (Event α))

@[simp] theorem called_append : called (log ++ more) = called log ++ called more :=
  List.filterMap_append

@[simp] theorem inserted_append : inserted (log ++ more) = inserted log ++ inserted more :=
  List.filterMap_append

@[simp] theorem refused_append : refused (log ++ more) = refused log ++ refused more :=
  List.filterMap_append

@[simp] theorem popped_append : popped (log ++ more) = popped log ++ popped more :=
  List.filterMap_append

@[simp] theorem called_eq :
    called ([] : List (Event α)) = [] ∧ (∀ c : Parcel α, called [.called c] = [c]) ∧
    (∀ (c : Parcel α) p, called [.returned c p] = []) ∧
    (∀ p : Traffic.Popped α, called [.answered p] = []) ∧ called ([.left] : List (Event α)) = [] := by
  simp [called, Event.called?]

@[simp] theorem inserted_eq :
    inserted ([] : List (Event α)) = [] ∧ (∀ c : Parcel α, inserted [.called c] = []) ∧
    (∀ c : Parcel α, inserted [.returned c .accepted] = [c]) ∧
    (∀ (c : Parcel α) m, inserted [.returned c (.closed m)] = []) ∧
    (∀ p : Traffic.Popped α, inserted [.answered p] = []) ∧
    inserted ([.left] : List (Event α)) = [] := by
  simp [inserted, Event.inserted?]

@[simp] theorem refused_eq :
    refused ([] : List (Event α)) = [] ∧ (∀ c : Parcel α, refused [.called c] = []) ∧
    (∀ c : Parcel α, refused [.returned c .accepted] = []) ∧
    (∀ (c : Parcel α) m, refused [.returned c (.closed m)] = [c]) ∧
    (∀ p : Traffic.Popped α, refused [.answered p] = []) ∧
    refused ([.left] : List (Event α)) = [] := by
  simp [refused, Event.refused?]

@[simp] theorem popped_eq :
    popped ([] : List (Event α)) = [] ∧ (∀ c : Parcel α, popped [.called c] = []) ∧
    (∀ (c : Parcel α) p, popped [.returned c p] = []) ∧
    (∀ m : Message α, popped [.answered (.message m)] = [m]) ∧
    popped ([.answered .ended] : List (Event α)) = [] ∧
    popped ([.left] : List (Event α)) = [] := by
  simp [popped, Event.popped?]

end

theorem mem_inserted {log : List (Event α)} {c : Parcel α} :
    c ∈ inserted log ↔ .returned c .accepted ∈ log := by
  rw [inserted, List.mem_filterMap]
  constructor
  · rintro ⟨e, he, hc⟩
    rcases e with _ | ⟨d, p⟩ | _ | _ <;> try cases hc
    cases p <;> cases hc
    exact he
  · intro h
    exact ⟨_, h, rfl⟩

theorem mem_refused {log : List (Event α)} {c : Parcel α} :
    c ∈ refused log ↔ ∃ m, .returned c (.closed m) ∈ log := by
  rw [refused, List.mem_filterMap]
  constructor
  · rintro ⟨e, he, hc⟩
    rcases e with _ | ⟨d, p⟩ | _ | _ <;> try cases hc
    cases p <;> cases hc
    exact ⟨_, he⟩
  · rintro ⟨m, h⟩
    exact ⟨_, h, rfl⟩

/-- What a move can do: guards, events and the state behind it. -/
inductive Transition (s : Exchange α) : List (Event α) → Exchange α → Prop
  | cloned (k : Nat) (hk : k ∈ s.producers) :
      Transition s [] { s with
        traffic := { s.traffic with producers := s.traffic.producers + 1 }
        producers := s.producers ++ [s.nextProducer]
        nextProducer := s.nextProducer + 1 }
  | dropped (k : Nat) (hk : k ∈ s.producers) (hc : k ∉ s.calls.map (·.producer)) :
      Transition s [] { s with
        traffic := { s.traffic with producers := s.traffic.producers - 1 }
        producers := s.producers.erase k }
  | made (k : Nat) (m : Message α) (hk : k ∈ s.producers) :
      Transition s [.called ⟨s.nextCall, k, m⟩] { s with
        traffic := ⟨s.traffic.queue, s.traffic.producers + 1, s.traffic.waiting ++ [m]⟩
        calls := s.calls ++ [⟨s.nextCall, k, m⟩]
        nextCall := s.nextCall + 1 }
  | letIn (i : Nat) (c : Parcel α) (m : Message α) (hc : s.calls[i]? = some c)
      (hm : s.traffic.waiting[i]? = some m) (ho : s.traffic.queue.isOpen = true)
      (hl : s.traffic.queue.messages.length < s.traffic.queue.capacity) :
      Transition s [.returned c .accepted] { s with
        traffic := ⟨s.traffic.queue.extend m, s.traffic.producers - 1,
          s.traffic.waiting.eraseIdx i⟩
        calls := s.calls.eraseIdx i }
  | turnedAway (i : Nat) (c : Parcel α) (m : Message α) (hc : s.calls[i]? = some c)
      (hm : s.traffic.waiting[i]? = some m) (ho : s.traffic.queue.isOpen = false) :
      Transition s [.returned c (.closed m)] { s with
        traffic := ⟨s.traffic.queue, s.traffic.producers - 1, s.traffic.waiting.eraseIdx i⟩
        calls := s.calls.eraseIdx i }
  | handedOut (m : Message α) (ms : List (Message α)) (ho : s.traffic.queue.isOpen = true)
      (hq : s.traffic.queue.messages = m :: ms) :
      Transition s [.answered (.message m)] { s with
        traffic := { s.traffic with queue := { s.traffic.queue with messages := ms } } }
  | ended (ho : s.traffic.queue.isOpen = true) (hq : s.traffic.queue.messages = [])
      (hp : s.traffic.producers = 0) : Transition s [.answered .ended] s
  | leaving (ho : s.traffic.queue.isOpen = true) :
      Transition s [.left] { s with
        traffic := { s.traffic with queue := s.traffic.queue.close } }

variable {s t u : Exchange α} {log more : List (Event α)} {n i k : Nat} {c : Parcel α}
  {m : Message α}

theorem finish_transition (h : s.step (.finish i) = some (more, t)) : Transition s more t := by
  simp only [step] at h
  cases hc : s.calls[i]? with
  | none => simp [hc] at h
  | some c =>
    cases hm : s.traffic.waiting[i]? with
    | none => simp [hc, Traffic.unpark, hm] at h
    | some m =>
      cases ho : s.traffic.queue.offer m with
      | full => simp [hc, Traffic.unpark, hm, ho] at h
      | closed =>
        simp only [hc, Traffic.unpark, hm, ho, Option.some.injEq, Prod.mk.injEq] at h
        obtain ⟨rfl, rfl⟩ := h
        exact .turnedAway i c m hc hm (Queue.offer_eq_closed ho)
      | taken q =>
        obtain ⟨hopen, hroom, rfl⟩ := Queue.offer_eq_taken ho
        simp only [hc, Traffic.unpark, hm, ho, Option.some.injEq, Prod.mk.injEq] at h
        obtain ⟨rfl, rfl⟩ := h
        exact .letIn i c m hc hm hopen hroom

theorem pop_transition (h : s.step .pop = some (more, t)) : Transition s more t := by
  by_cases ho : s.traffic.queue.isOpen = true
  · simp only [step, Traffic.pop, Queue.take?, ho, Bool.not_true, Bool.false_eq_true, if_false] at h
    cases hq : s.traffic.queue.messages with
    | cons m ms =>
      simp only [hq, Option.some.injEq, Prod.mk.injEq] at h
      obtain ⟨rfl, rfl⟩ := h
      simpa only [ho] using Transition.handedOut m ms ho hq
    | nil =>
      simp only [hq] at h
      by_cases hp : s.traffic.producers = 0
      · simp only [if_pos hp, Option.some.injEq, Prod.mk.injEq] at h
        obtain ⟨rfl, rfl⟩ := h
        exact .ended ho hq hp
      · simp [if_neg hp] at h
  · simp [step, Traffic.pop, ho] at h

theorem step_transition {move : Move α} (h : s.step move = some (more, t)) :
    Transition s more t := by
  cases move with
  | clone k =>
    simp only [step] at h
    split at h
    · next hk =>
      cases h
      exact .cloned k hk
    · cases h
  | drop k =>
    simp only [step] at h
    split at h
    · next hk =>
      cases h
      exact .dropped k hk.1 hk.2
    · cases h
  | call k m =>
    simp only [step] at h
    split at h
    · next hk =>
      cases h
      exact .made k m hk
    · cases h
  | finish i => exact finish_transition h
  | pop => exact pop_transition h
  | leave =>
    simp only [step, Traffic.dropConsumer] at h
    split at h
    · next ho =>
      cases h
      split at ho
      · next hopen =>
        cases ho
        exact .leaving hopen
      · cases ho
    · cases h

/-- A push that does not have to wait is one that comes back as soon as it is made. -/
theorem push_eq (hc : s.traffic.waiting.length = s.calls.length) (hk : k ∈ s.producers)
    {p : Traffic.Pushed α} {traffic : Traffic α} (h : s.traffic.push m = (p, traffic))
    (hp : p ≠ .blocked) :
    ∃ t u, s.step (.call k m) = some ([.called ⟨s.nextCall, k, m⟩], t) ∧
      t.step (.finish s.calls.length) = some ([.returned ⟨s.nextCall, k, m⟩ p], u) ∧
      u.traffic = traffic ∧ u.calls = s.calls := by
  have hlast : (s.traffic.waiting ++ [m])[s.calls.length]? = some m := by simp [← hc]
  have herase : (s.traffic.waiting ++ [m]).eraseIdx s.calls.length = s.traffic.waiting := by
    simp [← hc, List.eraseIdx_append_of_length_le]
  refine ⟨{ s with
    traffic := s.traffic.park m
    calls := s.calls ++ [⟨s.nextCall, k, m⟩]
    nextCall := s.nextCall + 1 }, { s with traffic := traffic, nextCall := s.nextCall + 1 },
    by simp [step, hk], ?_, rfl, rfl⟩
  simp only [Traffic.push] at h
  cases ho : s.traffic.queue.offer m with
  | full =>
    simp only [ho, Prod.mk.injEq] at h
    exact absurd h.1.symm hp
  | taken q | closed =>
    simp only [ho, Prod.mk.injEq] at h
    obtain ⟨rfl, rfl⟩ := h
    simp [step, Traffic.unpark, Traffic.park, hlast, herase, ho, List.eraseIdx_append_of_length_le]

end Exchange

end QueuedFiles
