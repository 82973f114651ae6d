import Mathlib.Data.List.InsertIdx
import Mathlib.Data.List.Nodup
import QueuedFiles.Proofs.Queue.Exchange

/-!
What a queue does with the messages that are pushed onto it. They come out in the order in which
they went in, none is lost and none comes twice; a push fails when the consumer is gone and then
only, and the end of all messages is not mistaken for one of them.
-/

namespace QueuedFiles.Exchange

variable {α : Type} {s t : Exchange α} {log more : List (Event α)} {n k : Nat} {c : Parcel α}
  {m : Message α}

/-- The books of a queue: every push is under way, has come back with its message inside, or has come
back with its message in hand; and what is inside is what is not out yet. -/
structure Books (n : Nat) (log : List (Event α)) (s : Exchange α) : Prop where
  aligned : s.traffic.waiting = s.calls.map (·.message)
  counted : s.traffic.producers = s.producers.length + s.calls.length
  held : ∀ c ∈ s.calls, c.producer ∈ s.producers
  capacity : s.traffic.queue.capacity = max n 1
  bounded : s.traffic.queue.messages.length ≤ s.traffic.queue.capacity
  contents : (inserted log).map (·.message) = popped log ++ s.traffic.queue.messages
  numbers : (called log).map (·.number) = List.range s.nextCall
  whole : (called log).Perm (inserted log ++ refused log ++ s.calls)
  consumer : s.traffic.queue.isOpen = false ↔ .left ∈ log
  kept : s.traffic.queue.isOpen = true → refused log = []

theorem create_books (n : Nat) : Books n [] (create n : Exchange α) where
  aligned := rfl
  counted := rfl
  held c hc := by cases hc
  capacity := rfl
  bounded := Nat.zero_le _
  contents := rfl
  numbers := rfl
  whole := .refl _
  consumer := by simp [create, Traffic.create, Queue.create]
  kept _ := rfl

theorem Transition.aligned (h : Transition s more t)
    (hs : s.traffic.waiting = s.calls.map (·.message)) :
    t.traffic.waiting = t.calls.map (·.message) := by
  cases h with
  | made k m => simp [hs]
  | letIn i | turnedAway i => simp [hs, List.eraseIdx_map]
  | _ => exact hs

theorem Transition.counted (h : Transition s more t)
    (hs : s.traffic.producers = s.producers.length + s.calls.length) :
    t.traffic.producers = t.producers.length + t.calls.length := by
  cases h with
  | cloned k =>
    simp only [List.length_append, List.length_singleton]
    omega
  | dropped k hk =>
    have hlen := List.length_erase_of_mem hk
    have hpos := List.length_pos_of_mem hk
    simp only [hlen]
    omega
  | made k m =>
    simp only [List.length_append, List.length_singleton]
    omega
  | letIn i c m hc | turnedAway i c m hc =>
    obtain ⟨before, after, hcalls, herase⟩ := eraseIdx_cut hc
    simp only [herase]
    simp only [hcalls, List.length_append, List.length_cons] at hs ⊢
    omega
  | _ => exact hs

theorem Transition.held (h : Transition s more t) (hs : ∀ c ∈ s.calls, c.producer ∈ s.producers) :
    ∀ c ∈ t.calls, c.producer ∈ t.producers := by
  intro c hc
  cases h with
  | cloned k => exact List.mem_append_left _ (hs c hc)
  | dropped k hk hno =>
    refine (List.mem_erase_of_ne ?_).2 (hs c hc)
    intro he
    exact hno (he ▸ List.mem_map_of_mem hc)
  | made k m hk =>
    rcases List.mem_append.1 hc with hc | hc
    · exact hs c hc
    · obtain rfl := List.mem_singleton.1 hc
      exact hk
  | letIn i | turnedAway i => exact hs c (List.mem_of_mem_eraseIdx hc)
  | _ => exact hs c hc

theorem Transition.bounded (h : Transition s more t)
    (hs : s.traffic.queue.messages.length ≤ s.traffic.queue.capacity) :
    t.traffic.queue.messages.length ≤ t.traffic.queue.capacity := by
  cases h with
  | letIn i c m hc hm ho hl =>
    simp only [Queue.messages_extend, List.length_append, List.length_singleton,
      Queue.capacity_extend]
    omega
  | handedOut m ms ho hq =>
    rw [hq, List.length_cons] at hs
    exact Nat.le_of_succ_le hs
  | _ => exact hs

theorem Transition.capacity (h : Transition s more t) :
    t.traffic.queue.capacity = s.traffic.queue.capacity := by
  cases h <;> rfl

/-- A message that goes in goes behind all others, and the first is the one that comes out. -/
theorem Transition.contents (h : Transition s more t)
    (ha : s.traffic.waiting = s.calls.map (·.message))
    (hs : (inserted log).map (·.message) = popped log ++ s.traffic.queue.messages) :
    (inserted (log ++ more)).map (·.message) =
      popped (log ++ more) ++ t.traffic.queue.messages := by
  rw [inserted_append, popped_append, List.map_append, hs]
  cases h with
  | letIn i c m hc hm =>
    have hcm : m = c.message := by simpa [ha, hc] using hm.symm
    simp [hcm]
  | handedOut m ms ho hq => simp [hq]
  | _ => simp [Queue.close]

theorem Transition.numbers (h : Transition s more t)
    (hs : (called log).map (·.number) = List.range s.nextCall) :
    (called (log ++ more)).map (·.number) = List.range t.nextCall := by
  rw [called_append, List.map_append, hs]
  cases h with
  | made k m => simp [List.range_succ]
  | _ => simp

theorem Transition.whole (h : Transition s more t)
    (hs : (called log).Perm (inserted log ++ refused log ++ s.calls)) :
    (called (log ++ more)).Perm (inserted (log ++ more) ++ refused (log ++ more) ++ t.calls) := by
  rw [called_append, inserted_append, refused_append]
  cases h with
  | made k m => simpa using hs.append_right _
  | letIn i c m hc =>
    obtain ⟨before, after, hcalls, herase⟩ := eraseIdx_cut hc
    rw [hcalls] at hs
    have hout : (inserted log ++ refused log ++ (before ++ c :: after)).Perm
        (c :: (inserted log ++ refused log ++ (before ++ after))) := by
      rw [← List.append_assoc, ← List.append_assoc]
      exact List.perm_middle
    have hin : (inserted log ++ [c] ++ refused log ++ (before ++ after)).Perm
        (c :: (inserted log ++ refused log ++ (before ++ after))) := by
      simp
    simpa [herase] using hs.trans (hout.trans hin.symm)
  | turnedAway i c m hc =>
    obtain ⟨before, after, hcalls, herase⟩ := eraseIdx_cut hc
    rw [hcalls] at hs
    have hout : (inserted log ++ refused log ++ (before ++ c :: after)).Perm
        (inserted log ++ refused log ++ (c :: (before ++ after))) :=
      List.perm_middle.append_left _
    simpa [herase] using hs.trans hout
  | _ => simpa using hs

theorem Transition.consumer (h : Transition s more t)
    (hs : s.traffic.queue.isOpen = false ↔ .left ∈ log) :
    t.traffic.queue.isOpen = false ↔ .left ∈ log ++ more := by
  rw [List.mem_append, ← hs]
  cases h <;> simp [Queue.close]

theorem Transition.kept (h : Transition s more t)
    (hs : s.traffic.queue.isOpen = true → refused log = []) :
    t.traffic.queue.isOpen = true → refused (log ++ more) = [] := by
  intro ho
  rw [refused_append]
  cases h with
  | turnedAway i c m hc hm hgone => simp [hgone] at ho
  | leaving => simp [Queue.close] at ho
  | _ => simp [hs ho]

theorem Transition.books (h : Transition s more t) (hs : Books n log s) :
    Books n (log ++ more) t where
  aligned := h.aligned hs.aligned
  counted := h.counted hs.counted
  held := h.held hs.held
  capacity := h.capacity.trans hs.capacity
  bounded := h.bounded hs.bounded
  contents := h.contents hs.aligned hs.contents
  numbers := h.numbers hs.numbers
  whole := h.whole hs.whole
  consumer := h.consumer hs.consumer
  kept := h.kept hs.kept

theorem Run.books (h : Run (create n) log s) : Books n log s := by
  induction h with
  | refl => exact create_books n
  | step m _ hs ih => exact (step_transition hs).books ih

theorem Transition.single (h : Transition s more t) {e : Event α} (he : e ∈ more) : more = [e] := by
  cases h with
  | cloned | dropped => cases he
  | _ => rw [List.mem_singleton.1 he]

theorem Run.cut {s₀ : Exchange α} (h : Run s₀ log s) {e : Event α} {before after : List (Event α)}
    (hlog : log = before ++ e :: after) :
    ∃ u v, Run s₀ before u ∧ Transition u [e] v ∧ Run s₀ (before ++ [e]) v := by
  induction h generalizing after with
  | refl => simp at hlog
  | @step log more t u m h hs ih =>
    have ht := step_transition hs
    rcases cut_append (fun he ↦ ht.single he) hlog with ⟨rfl, -, rfl⟩ | ⟨rest, hrest, rfl⟩
    · exact ⟨t, u, h, ht, .step m h hs⟩
    · exact ih hrest

theorem Books.inserted_called (h : Books n log s) (hc : c ∈ inserted log) : c ∈ called log :=
  h.whole.mem_iff.2 (List.mem_append_left _ (List.mem_append_left _ hc))

theorem Books.number_lt (h : Books n log s) (hc : c ∈ called log) : c.number < s.nextCall := by
  have hn : c.number ∈ (called log).map (·.number) := List.mem_map_of_mem hc
  rwa [h.numbers, List.mem_range] at hn

theorem Books.nodup_numbers (h : Books n log s) : ((called log).map (·.number)).Nodup := by
  rw [h.numbers]
  exact List.nodup_range

theorem Books.nodup (h : Books n log s) : (inserted log ++ refused log ++ s.calls).Nodup :=
  h.whole.nodup_iff.1 (List.Nodup.of_map _ h.nodup_numbers)

/-- Of two messages that are inserted, the one whose push came back before the other was made goes
first. -/
theorem Run.inserted_in_order (h : Run (create n) log s) {a b : Parcel α}
    (hab : [.returned a .accepted, .called b].Sublist log) (hb : b ∈ inserted log) :
    [a, b].Sublist (inserted log) := by
  obtain ⟨before, after, rfl, ha⟩ := cut_of_sublist hab
  obtain ⟨u, v, hu, ht, -⟩ := h.cut rfl
  have hnot : b ∉ inserted before := by
    intro hin
    have hlt := hu.books.number_lt (hu.books.inserted_called hin)
    cases ht
    exact Nat.lt_irrefl _ hlt
  rw [inserted_append] at hb ⊢
  have hlater := (List.mem_append.1 hb).resolve_left hnot
  exact (List.singleton_sublist.2 (mem_inserted.2 ha)).append (List.singleton_sublist.2 hlater)

def ofProducer (k : Nat) (cs : List (Parcel α)) : List (Parcel α) := cs.filter (·.producer = k)

@[simp] theorem ofProducer_append (k : Nat) (cs ds : List (Parcel α)) :
    ofProducer k (cs ++ ds) = ofProducer k cs ++ ofProducer k ds :=
  List.filter_append ..

@[simp] theorem ofProducer_cons_self (c : Parcel α) (cs : List (Parcel α)) :
    ofProducer c.producer (c :: cs) = c :: ofProducer c.producer cs :=
  List.filter_cons_of_pos (by simp)

theorem ofProducer_cons_ne (hc : c.producer ≠ k) (cs : List (Parcel α)) :
    ofProducer k (c :: cs) = ofProducer k cs :=
  List.filter_cons_of_neg (by simpa using hc)

@[simp] theorem ofProducer_nil (k : Nat) : ofProducer k ([] : List (Parcel α)) = [] := rfl

/-- A producer makes no push before all of its former ones have come back. -/
def InTurn (k : Nat) (log : List (Event α)) : Prop :=
  ∀ before c after, log = before ++ .called c :: after → c.producer = k →
    ∀ d ∈ called before, d.producer = k → d ∈ inserted before ∨ d ∈ refused before

theorem InTurn.prefix (h : InTurn k (log ++ more)) : InTurn k log := by
  intro before c after hlog
  exact h before c (after ++ more) (by simp [hlog])

/-- The pushes of a producer that makes them one at a time: at most one is under way, and it is the
last. -/
structure Turn (k : Nat) (log : List (Event α)) (s : Exchange α) : Prop where
  order : ofProducer k (called log) =
    ofProducer k (inserted log) ++ ofProducer k (refused log) ++ ofProducer k s.calls
  single : (ofProducer k s.calls).length ≤ 1

theorem Books.none_under_way (h : Books n log s)
    (hk : ∀ d ∈ called log, d.producer = k → d ∈ inserted log ∨ d ∈ refused log) :
    ofProducer k s.calls = [] := by
  apply List.filter_eq_nil_iff.2
  intro d hd hdk
  have hcalled := h.whole.mem_iff.2 (List.mem_append_right _ hd)
  have hback := List.mem_append.2 (hk d hcalled (by simpa using hdk))
  exact List.disjoint_of_nodup_append h.nodup hback hd

theorem Turn.alone (ht : Turn c.producer log s) {i : Nat} (hc : s.calls[i]? = some c) :
    ofProducer c.producer s.calls = [c] ∧ ofProducer c.producer (s.calls.eraseIdx i) = [] := by
  obtain ⟨before, after, hcalls, herase⟩ := eraseIdx_cut hc
  have hsingle := ht.single
  rw [hcalls] at hsingle ⊢
  simp only [ofProducer_append, ofProducer_cons_self, List.length_append,
    List.length_cons] at hsingle
  obtain ⟨hbefore, hafter⟩ : ofProducer c.producer before = [] ∧
      ofProducer c.producer after = [] := by
    constructor <;> apply List.eq_nil_of_length_eq_zero <;> omega
  constructor
  · simp [hbefore, hafter]
  · simp [hcalls ▸ herase, hbefore, hafter]

theorem ofProducer_eraseIdx {cs : List (Parcel α)} {i : Nat} (hc : cs[i]? = some c)
    (hk : c.producer ≠ k) : ofProducer k (cs.eraseIdx i) = ofProducer k cs := by
  obtain ⟨before, after, rfl, herase⟩ := eraseIdx_cut hc
  simp [herase, ofProducer_cons_ne hk]

theorem Transition.turn (h : Transition s more t) (hs : Books n log s)
    (hk : InTurn k (log ++ more)) (ht : Turn k log s) : Turn k (log ++ more) t := by
  cases h with
  | made j m hj =>
    by_cases hjk : j = k
    · subst hjk
      have hnone := hs.none_under_way (hk log ⟨s.nextCall, j, m⟩ [] rfl rfl)
      have hone : ofProducer j [(⟨s.nextCall, j, m⟩ : Parcel α)] = [⟨s.nextCall, j, m⟩] :=
        ofProducer_cons_self ⟨s.nextCall, j, m⟩ []
      constructor
      · simp [ht.order, hnone, hone]
      · simp [hnone, hone]
    · have hnone : ofProducer k [(⟨s.nextCall, j, m⟩ : Parcel α)] = [] :=
        ofProducer_cons_ne hjk []
      constructor
      · simp [ht.order, hnone]
      · simpa [hnone] using ht.single
  | letIn i c m hc hm ho =>
    have hkept := hs.kept ho
    by_cases hck : c.producer = k
    · subst hck
      obtain ⟨hall, hrest⟩ := ht.alone hc
      exact ⟨by simp [ht.order, hall, hrest, hkept], by simp [hrest]⟩
    · have hrest := ofProducer_eraseIdx hc hck
      exact ⟨by simp [ht.order, hrest, ofProducer_cons_ne hck], hrest ▸ ht.single⟩
  | turnedAway i c m hc =>
    by_cases hck : c.producer = k
    · subst hck
      obtain ⟨hall, hrest⟩ := ht.alone hc
      exact ⟨by simp [ht.order, hall, hrest], by simp [hrest]⟩
    · have hrest := ofProducer_eraseIdx hc hck
      exact ⟨by simp [ht.order, hrest, ofProducer_cons_ne hck], hrest ▸ ht.single⟩
  | _ => exact ⟨by simpa using ht.order, ht.single⟩

theorem Run.turn (h : Run (create n) log s) (hk : InTurn k log) : Turn k log s := by
  induction h with
  | refl => exact ⟨rfl, Nat.zero_le _⟩
  | step m h hs ih => exact (step_transition hs).turn h.books hk (ih hk.prefix)

/-- The consumer gets what is first; it gets a marker that nobody has pushed when nothing is left and
nobody can push any more. -/
theorem Books.answer (h : Books n log s) (m : Message α) :
    s.traffic.pop.1.answer? = some m ↔ s.traffic.queue.isOpen = true ∧
      (s.traffic.queue.messages.head? = some m ∨ m = .shutdown ∧ s.producers = [] ∧ s.calls = [] ∧
        s.traffic.queue.messages = [] ∧ (inserted log).map (·.message) = popped log) := by
  have hcontents := h.contents
  have hnobody : s.traffic.producers = 0 ↔ s.producers = [] ∧ s.calls = [] := by
    rw [h.counted, Nat.add_eq_zero_iff, List.length_eq_zero_iff, List.length_eq_zero_iff]
  cases ho : s.traffic.queue.isOpen with
  | false => simp [Traffic.pop, ho, Traffic.Popped.answer?]
  | true =>
    cases hq : s.traffic.queue.messages with
    | cons m' ms => simp [Traffic.pop, Queue.take?, ho, hq, Traffic.Popped.answer?]
    | nil =>
      rw [hq, List.append_nil] at hcontents
      by_cases hp : s.traffic.producers = 0
      · simp [Traffic.pop, Queue.take?, ho, hq, hp, Traffic.Popped.answer?, hnobody.1 hp, hcontents,
          eq_comm]
      · have hsome : ¬ (s.producers = [] ∧ s.calls = []) := mt hnobody.2 hp
        simp [Traffic.pop, Queue.take?, ho, hq, hp, Traffic.Popped.answer?]
        tauto

theorem Books.message_waiting (h : Books n log s) {i : Nat} (hc : s.calls[i]? = some c) :
    s.traffic.waiting[i]? = some c.message := by
  rw [h.aligned, List.getElem?_map, hc]
  rfl

/-- A push under way stays so just as long as the consumer is there and has no room. -/
theorem Books.finish_eq_none (h : Books n log s) {i : Nat} (hc : s.calls[i]? = some c) :
    s.step (.finish i) = none ↔
      s.traffic.queue.isOpen = true ∧ max n 1 ≤ s.traffic.queue.length := by
  have hm := h.message_waiting hc
  rw [← h.capacity, Queue.length]
  cases ho : s.traffic.queue.offer c.message with
  | full => simp [step, Traffic.unpark, hc, hm, ho, Queue.offer_eq_full ho]
  | taken q =>
    obtain ⟨hopen, hroom, -⟩ := Queue.offer_eq_taken ho
    simp [step, Traffic.unpark, hc, hm, ho, hopen, hroom]
  | closed => simp [step, Traffic.unpark, hc, hm, ho, Queue.offer_eq_closed ho]

theorem Books.finish_gone (h : Books n log s) {i : Nat} (hc : s.calls[i]? = some c)
    (hgone : s.traffic.queue.isOpen = false) :
    ∃ t, s.step (.finish i) = some ([.returned c (.closed c.message)], t) ∧
      t.traffic.queue = s.traffic.queue := by
  have hm := h.message_waiting hc
  have ho : s.traffic.queue.offer c.message = .closed := by simp [Queue.offer, hgone]
  simp only [step, Traffic.unpark, hc, hm, ho]
  exact ⟨_, rfl, rfl⟩

/-- A push fails when the consumer is gone and then only, and its own message comes back. -/
theorem Run.returned (h : Run (create n) log s) {p : Traffic.Pushed α}
    {before after : List (Event α)} (hlog : log = before ++ .returned c p :: after) :
    p = .accepted ∧ .left ∉ before ∨ p = .closed c.message ∧ .left ∈ before ∧ c ∉ inserted log := by
  obtain ⟨u, v, hu, ht, -⟩ := h.cut hlog
  cases ht with
  | letIn i c m hc hm ho =>
    refine .inl ⟨rfl, fun hl ↦ ?_⟩
    have hgone := hu.books.consumer.2 hl
    rw [ho] at hgone
    cases hgone
  | turnedAway i c m hc hm ho =>
    obtain rfl : m = c.message := by simpa [hu.books.message_waiting hc] using hm.symm
    refine .inr ⟨rfl, hu.books.consumer.1 ho, fun hin ↦ ?_⟩
    have hout : c ∈ refused log := mem_refused.2 ⟨c.message, by simp [hlog]⟩
    exact List.disjoint_of_nodup_append h.books.nodup.of_append_left hin hout

/-- A pop that comes back gives what the queue had for it at that moment. -/
theorem Run.answered (h : Run (create n) log s) {p : Traffic.Popped α}
    {before after : List (Event α)} (hlog : log = before ++ .answered p :: after) :
    ∃ u, Run (create n) before u ∧ u.traffic.pop.1 = p := by
  obtain ⟨u, v, hu, ht, -⟩ := h.cut hlog
  refine ⟨u, hu, ?_⟩
  cases ht with
  | handedOut m ms ho hq => simp [Traffic.pop, Queue.take?, ho, hq]
  | ended ho hq hp => simp [Traffic.pop, Queue.take?, ho, hq, hp]

/-- The pushes whose messages are out. -/
def delivered (log : List (Event α)) : List (Parcel α) := (inserted log).take (popped log).length

theorem Books.delivered_eq (h : Books n log s) :
    (delivered log).map (·.message) = popped log := by
  rw [delivered, List.map_take, h.contents, List.take_left]

structure Delivers (n : Nat) (log : List (Event α)) (s : Exchange α) : Prop where
  bounded : s.traffic.queue.length ≤ max n 1
  /-- What was inserted is what came out, in the same order, and what is left. -/
  inOrder : (inserted log).map (·.message) = popped log ++ s.traffic.queue.messages
  out : (delivered log).map (·.message) = popped log
  whole : (called log).Perm (inserted log ++ refused log ++ s.calls)
  once : ((called log).map (·.number)).Nodup
  realTime : ∀ a b, [.returned a .accepted, .called b].Sublist log → b ∈ inserted log →
    [a, b].Sublist (inserted log)
  own : ∀ k, InTurn k log → ofProducer k (inserted log) <+: ofProducer k (called log) ∧
    ofProducer k (delivered log) <+: ofProducer k (called log)
  answer : ∀ m, s.traffic.pop.1.answer? = some m ↔ s.traffic.queue.isOpen = true ∧
    (s.traffic.queue.messages.head? = some m ∨ m = .shutdown ∧ s.producers = [] ∧ s.calls = [] ∧
      s.traffic.queue.messages = [] ∧ (inserted log).map (·.message) = popped log)
  answered : ∀ before p after, log = before ++ .answered p :: after →
    ∃ u, Run (create n) before u ∧ u.traffic.pop.1 = p
  gone : s.traffic.queue.isOpen = false ↔ .left ∈ log
  /-- A push under way waits only for room, and not even for that once the consumer is gone. -/
  waits : ∀ i c, s.calls[i]? = some c → (s.step (.finish i) = none ↔
    s.traffic.queue.isOpen = true ∧ max n 1 ≤ s.traffic.queue.length)
  fails : ∀ i c, s.calls[i]? = some c → s.traffic.queue.isOpen = false →
    ∃ t, s.step (.finish i) = some ([.returned c (.closed c.message)], t) ∧
      t.traffic.queue = s.traffic.queue
  returned : ∀ before c p after, log = before ++ .returned c p :: after →
    p = .accepted ∧ p.sent? = some true ∧ .left ∉ before ∨
      p = .closed c.message ∧ p.sent? = some false ∧ .left ∈ before ∧ c ∉ inserted log

/-- Every queue keeps its promises, whoever does what in which order. -/
theorem Run.delivers (h : Run (create n) log s) : Delivers n log s where
  bounded := h.books.capacity ▸ h.books.bounded
  inOrder := h.books.contents
  out := h.books.delivered_eq
  whole := h.books.whole
  once := h.books.nodup_numbers
  realTime _ _ hab hb := h.inserted_in_order hab hb
  own := by
    intro k hk
    have hin : ofProducer k (inserted log) <+: ofProducer k (called log) :=
      ⟨_, by rw [(h.turn hk).order, List.append_assoc]⟩
    exact ⟨hin, ((List.take_prefix ..).filter _).trans hin⟩
  answer := h.books.answer
  answered _ _ _ hlog := h.answered hlog
  gone := h.books.consumer
  waits _ _ hc := h.books.finish_eq_none hc
  fails _ _ hc hgone := h.books.finish_gone hc hgone
  returned := by
    intro before c p after hlog
    rcases h.returned hlog with ⟨rfl, hl⟩ | ⟨rfl, hl, hc⟩
    · exact .inl ⟨rfl, rfl, hl⟩
    · exact .inr ⟨rfl, rfl, hl, hc⟩

/-- Two producers at a queue of one: a push that waits until there is room, a marker that waits until
the consumer is gone, and a payload that is pushed too late. -/
def crowded : List (Event Nat) × Exchange Nat :=
  ((create 0).follow [.clone 0, .call 0 (.payload 5), .finish 0, .call 1 (.payload 6), .pop,
    .finish 0, .call 0 .shutdown, .pop, .call 1 (.payload 7), .leave, .finish 1, .finish 0,
    .drop 0]).get rfl

theorem delivers_crowded :
    Run (create 0) crowded.1 crowded.2 ∧ popped crowded.1 = [.payload 5, .payload 6] ∧
      refused crowded.1 = [⟨3, 1, .payload 7⟩, ⟨2, 0, .shutdown⟩] ∧
      Delivers 0 crowded.1 crowded.2 :=
  have hrun : Run (create 0) crowded.1 crowded.2 := .of_isSome _
  ⟨hrun, rfl, rfl, Run.delivers hrun⟩

end QueuedFiles.Exchange
