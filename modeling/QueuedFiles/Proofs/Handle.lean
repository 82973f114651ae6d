import QueuedFiles.Proofs.Event
import QueuedFiles.Proofs.Trace
import QueuedFiles.Ticket

/-!
The handle of a request in use by any number of threads while a worker completes the request, lock by
lock. The outcome and the flag have locks of their own: the worker fills in the outcome and then
signals, and a caller waits for the flag and then looks at the outcome.
-/

namespace QueuedFiles

namespace Handle

inductive Query where
  | poll
  | wait
  | ask (q : Question)

/-- What a query does at the event. -/
def Query.call : Query → EventCall
  | .poll => .poll
  | .wait | .ask _ => .wait

inductive Reply where
  | polled (b : Bool)
  | waited
  | told (a : Answer)

end Handle

structure Handle where
  /-- The request as the last stage has left it. -/
  request : Request
  outcome : Option Outcome
  event : Event
  /-- What each thread of the event is there for; the worker has no query. -/
  calls : List (Option Handle.Query)
  /-- The calls that have come back. -/
  ended : List Nat
  /-- How many of its two moves the worker has made. -/
  worker : Nat

namespace Handle

def create (r : Request) : Handle := ⟨r, none, .unset, [], [], 0⟩

inductive Move where
  | call (q : Query)
  /-- A thread at the event makes its next move there. -/
  | event (i : Nat)
  /-- A thread wakes up without having been woken. -/
  | stir (i : Nat)
  | publish
  | signal
  /-- A call that is through with the event comes back, and looks at the outcome before if it is to
  tell of it. -/
  | comeBack (i : Nat)

inductive Incident where
  | called (i : Nat) (q : Query)
  | published
  | returned (i : Nat) (q : Query) (r : Reply)

/-- The ticket that callers see. -/
def ticket (s : Handle) : Ticket :=
  { Ticket.ofRequest s.request with outcome := s.outcome, signaled := s.event.signaled }

/-- The reply of a call that has got an answer at the event, and the ticket it leaves behind. -/
def reply (s : Handle) (b : Bool) : Query → Reply × Ticket
  | .poll => (.polled b, s.ticket)
  | .wait => (.waited, s.ticket)
  | .ask q => (.told (s.ticket.look q).1, (s.ticket.look q).2)

/-- The state after a move that can be made, with what others see of it. -/
def step (s : Handle) : Move → Option (List Incident × Handle)
  | .call q =>
    some ([.called s.calls.length q], { s with
      event := s.event.start q.call
      calls := s.calls ++ [some q] })
  | .event i => (s.event.step i).map fun e ↦ ([], { s with event := e })
  | .stir i => (s.event.stir i).map fun e ↦ ([], { s with event := e })
  | .publish =>
    if s.worker = 0 then
      some ([.published], { s with
        outcome := (s.ticket.publish s.request.completed.outcome).outcome
        worker := 1 })
    else none
  | .signal =>
    if s.worker = 1 then
      some ([], { s with
        event := s.event.start .signal
        calls := s.calls ++ [none]
        worker := 2 })
    else none
  | .comeBack i =>
    match s.calls[i]?, s.event.answer? i with
    | some (some q), some b =>
      if i ∈ s.ended then none
      else some ([.returned i q (s.reply b q).1], { s with
        outcome := (s.reply b q).2.outcome
        ended := i :: s.ended })
    | _, _ => none

abbrev Run : Handle → List Incident → Handle → Prop := Trace step

inductive Change (s : Handle) : List Incident → Handle → Prop
  | called (q : Query) : Change s [.called s.calls.length q]
      ⟨s.request, s.outcome, s.event.start q.call, s.calls ++ [some q], s.ended, s.worker⟩
  | moved (i : Nat) (e : Event) : s.event.Moves i e → Change s []
      ⟨s.request, s.outcome, e, s.calls, s.ended, s.worker⟩
  | published : s.worker = 0 → Change s [.published]
      ⟨s.request, some s.request.outcome, s.event, s.calls, s.ended, 1⟩
  | signaling : s.worker = 1 → Change s []
      ⟨s.request, s.outcome, s.event.start .signal, s.calls ++ [none], s.ended, 2⟩
  | returned (i : Nat) (q : Query) (b : Bool) : s.calls[i]? = some (some q) →
      s.event.threads[i]? = some (.returned b) → i ∉ s.ended →
      Change s [.returned i q (s.reply b q).1]
        ⟨s.request, (s.reply b q).2.outcome, s.event, s.calls, i :: s.ended, s.worker⟩

variable {s t u : Handle} {log more : List Incident}

theorem step_change (m : Move) (hs : s.step m = some (log, t)) : s.Change log t := by
  cases m with
  | call q =>
    cases hs
    exact .called q
  | event i =>
    obtain ⟨e, he, hs⟩ := Option.map_eq_some_iff.1 hs
    cases hs
    exact .moved i e (Event.step_moves he)
  | stir i =>
    obtain ⟨e, he, hs⟩ := Option.map_eq_some_iff.1 hs
    cases hs
    exact .moved i e (Event.stir_moves he)
  | publish =>
    obtain ⟨hw, hs⟩ := Option.ite_none_right_eq_some.1 hs
    cases hs
    exact .published hw
  | signal =>
    obtain ⟨hw, hs⟩ := Option.ite_none_right_eq_some.1 hs
    cases hs
    exact .signaling hw
  | comeBack i =>
    rw [step] at hs
    split at hs
    · next q b hq hb =>
      obtain ⟨hi, hs⟩ := Option.ite_none_left_eq_some.1 hs
      cases hs
      refine .returned i q b hq ?_ hi
      rw [Event.answer?] at hb
      split at hb
      · next hp =>
        cases hb
        exact hp
      · cases hb
    · cases hs

/-! The slot is filled before the flag is set, and nobody looks at it earlier. -/

def Incident.handed? : Incident → Option Buffer
  | .returned _ _ (.told a) => a.buffer?
  | _ => none

/-- The buffers that callers have got. -/
def handed (log : List Incident) : List Buffer := log.filterMap Incident.handed?

/-- Some caller has been through with its question for the buffer. -/
def AskedBuffer (log : List Incident) : Prop := ∃ i r, .returned i (.ask .buffer) r ∈ log

@[simp] theorem handed_append : handed (log ++ more) = handed log ++ handed more :=
  List.filterMap_append

theorem askedBuffer_append : AskedBuffer (log ++ more) ↔ AskedBuffer log ∨ AskedBuffer more := by
  simp only [AskedBuffer, List.mem_append, exists_or]

/-- What a call on a handle of the request is to be told. -/
def Tells (r : Request) : Query → Reply → Prop
  | .poll, a => ∃ b, a = .polled b
  | .wait, a => a = .waited
  | .ask .result, a => a = .told (.result r.result)
  | .ask .code, a => a = .told (.code (resultCode r.result))
  | .ask .size, a => a = .told (.size r.size)
  | .ask .buffer, a => ∃ b, a = .told (.buffer b)

def eventCall (q : Option Query) : EventCall := (q.map Query.call).getD .signal

structure Kept (log : List Incident) (s : Handle) : Prop where
  serves : s.event.Serves (s.calls.map eventCall)
  flag : s.event.signaled = true → .published ∈ log
  worker : s.worker = 0 ↔ .published ∉ log
  signaler : none ∈ s.calls → .published ∈ log
  slot : .published ∈ log → ∃ b, s.outcome = some ⟨s.request.result, b, s.request.size⟩ ∧
    handed log ++ b.toList = s.request.buffer.toList ∧ (AskedBuffer log → b = none)
  returned : ∀ i q a, .returned i q a ∈ log →
    Tells s.request q a ∧ (s.event.signaled = true ∨ a = .polled false)

theorem kept_create (r : Request) : Kept [] (create r) where
  serves := ⟨rfl, fun hc ↦ by simp [create] at hc⟩
  flag := nofun
  worker := by simp [create]
  signaler := nofun
  slot := nofun
  returned := nofun

/-- Nobody has been told anything of the outcome before it is there. -/
theorem Kept.unasked (hk : s.Kept log) (hp : .published ∉ log) :
    handed log = [] ∧ ¬ AskedBuffer log := by
  have hnone : ∀ i q a, .returned i q a ∈ log → a = .polled false := by
    intro i q a ha
    exact (hk.returned i q a ha).2.resolve_left fun hf ↦ hp (hk.flag hf)
  constructor
  · rw [handed, List.filterMap_eq_nil_iff]
    intro e he
    cases e with
    | returned i q a =>
      rw [hnone i q a he]
      rfl
    | _ => rfl
  · rintro ⟨i, a, ha⟩
    obtain ⟨⟨b, hb⟩, -⟩ := hk.returned _ _ _ ha
    rw [hnone _ _ _ ha] at hb
    cases hb

/-- A move that leaves the slot alone, and that brings no call back. -/
theorem Kept.frame (hk : s.Kept log) (hrequest : t.request = s.request)
    (houtcome : t.outcome = s.outcome) (hworker : t.worker = 0 ↔ s.worker = 0)
    (hserves : t.event.Serves (t.calls.map eventCall))
    (hset : s.event.signaled = true → t.event.signaled = true)
    (hflag : t.event.signaled = true → .published ∈ log)
    (hsignaler : none ∈ t.calls → .published ∈ log) (hpublished : .published ∉ more)
    (hreturned : ∀ i q a, .returned i q a ∉ more) : t.Kept (log ++ more) := by
  have hiff : .published ∈ log ++ more ↔ .published ∈ log := by simp [hpublished]
  have hhanded : handed more = [] := by
    rw [handed, List.filterMap_eq_nil_iff]
    intro e he
    cases e with
    | returned i q a => exact absurd he (hreturned i q a)
    | _ => rfl
  have hasked : ¬ AskedBuffer more := fun ⟨i, a, ha⟩ ↦ hreturned _ _ _ ha
  refine ⟨hserves, ?_, ?_, ?_, ?_, ?_⟩
  · rwa [hiff]
  · rw [hworker, hiff, hk.worker]
  · rwa [hiff]
  · rw [hiff, houtcome, hrequest, handed_append, hhanded, List.append_nil, askedBuffer_append,
      or_iff_left hasked]
    exact hk.slot
  · intro i q a ha
    obtain ⟨htells, ha⟩ := hk.returned i q a ((List.mem_append.1 ha).resolve_right (hreturned i q a))
    rw [hrequest]
    exact ⟨htells, ha.imp_left hset⟩

/-- Whoever is to tell of the outcome finds it in its place. -/
theorem Kept.reply (hk : s.Kept log) {i : Nat} {q : Query} {b : Bool}
    (hq : s.calls[i]? = some (some q)) (hb : s.event.threads[i]? = some (.returned b)) :
    (q.call = .wait → b = true) ∧ (b = true → s.event.signaled = true) := by
  have hc : (s.calls.map eventCall)[i]? = some q.call := by
    rw [List.getElem?_map, hq]
    rfl
  exact hk.serves.fits hc hb

/-- What has been said at the slot, with a reply that hands nothing over. -/
theorem Kept.said (hk : s.Kept log) (hp : .published ∈ log) {e : Incident} (he : e.handed? = none)
    (hasked : ¬ AskedBuffer [e]) :
    ∃ b, s.outcome = some ⟨s.request.result, b, s.request.size⟩ ∧
      handed (log ++ [e]) ++ b.toList = s.request.buffer.toList ∧
      (AskedBuffer (log ++ [e]) → b = none) := by
  obtain ⟨b, hs, hh, ha⟩ := hk.slot hp
  refine ⟨b, hs, ?_, ?_⟩
  · have hnone : handed [e] = [] := by simp [handed, he]
    rwa [handed_append, hnone, List.append_nil]
  · rwa [askedBuffer_append, or_iff_left hasked]

theorem Kept.look (hk : s.Kept log) (hp : .published ∈ log) (i : Nat) (q : Question) :
    Tells s.request (.ask q) (.told (s.ticket.look q).1) ∧
      ∃ b, (s.ticket.look q).2.outcome = some ⟨s.request.result, b, s.request.size⟩ ∧
        handed (log ++ [.returned i (.ask q) (.told (s.ticket.look q).1)]) ++ b.toList =
          s.request.buffer.toList ∧
        (AskedBuffer (log ++ [.returned i (.ask q) (.told (s.ticket.look q).1)]) → b = none) := by
  obtain ⟨b, hs, hh, -⟩ := hk.slot hp
  cases q with
  | buffer =>
    refine ⟨⟨b, by simp [Ticket.look, ticket, hs]⟩, none, by simp [Ticket.look, ticket, hs], ?_, ?_⟩
    · rw [← hh, handed_append, List.append_assoc]
      congr 1
      cases b <;> simp [handed, Incident.handed?, Answer.buffer?, Ticket.look, ticket, hs]
    · exact fun _ ↦ rfl
  | result | code | size =>
    exact ⟨by simp [Tells, Ticket.look, Ticket.result, ticket, hs],
      hk.said hp rfl (by simp [AskedBuffer])⟩

theorem Change.kept (h : s.Change more t) (hk : s.Kept log) : t.Kept (log ++ more) := by
  cases h with
  | called q =>
    refine hk.frame rfl rfl .rfl ?_ id hk.flag ?_ (by simp) (by simp)
    · rw [List.map_append]
      exact hk.serves.start q.call
    · intro hm
      exact hk.signaler (by simpa using hm)
  | moved i e hm =>
    refine hk.frame rfl rfl .rfl (hk.serves.moves hm) ?_ ?_ hk.signaler (by simp) (by simp)
    · obtain ⟨p, q, -, hgo, -⟩ := hm
      exact hgo.flag
    · intro he
      rcases hk.serves.signaled hm he with he | hs
      · exact hk.flag he
      · obtain ⟨q, hq, hcall⟩ := List.mem_map.1 hs
        cases q with
        | none => exact hk.signaler hq
        | some q => cases q <;> cases hcall
  | signaling hw =>
    have hp : .published ∈ log := by
      by_contra hp
      rw [hk.worker.2 hp] at hw
      cases hw
    refine hk.frame rfl rfl (by simp [hw]) ?_ id hk.flag (fun _ ↦ hp) (by simp) (by simp)
    rw [List.map_append]
    exact hk.serves.start .signal
  | published hw =>
    obtain ⟨hhanded, hasked⟩ := hk.unasked (hk.worker.1 hw)
    refine ⟨hk.serves, by simp, by simp, by simp, ?_, ?_⟩
    · intro _
      refine ⟨s.request.buffer, rfl, ?_, ?_⟩
      · rw [handed_append, hhanded]
        rfl
      · intro ha
        exact absurd ((askedBuffer_append.1 ha).resolve_right (by simp [AskedBuffer])) hasked
    · intro i q a ha
      exact hk.returned i q a (by simpa using ha)
  | returned i q b hq hb hi =>
    obtain ⟨hwait, hflag⟩ := hk.reply hq hb
    refine ⟨hk.serves, fun hf ↦ List.mem_append_left _ (hk.flag hf), by simp [hk.worker],
      fun hm ↦ List.mem_append_left _ (hk.signaler hm), ?_, ?_⟩
    · intro hp
      replace hp : .published ∈ log := by simpa using hp
      cases q with
      | ask q => exact (hk.look hp i q).2
      | poll | wait => exact hk.said hp rfl (by simp [AskedBuffer])
    · intro j p a ha
      rcases List.mem_append.1 ha with ha | ha
      · exact hk.returned j p a ha
      · obtain ⟨rfl, rfl, rfl⟩ : j = i ∧ p = q ∧ a = (s.reply b q).1 := by simpa using ha
        cases p with
        | poll =>
          refine ⟨⟨b, rfl⟩, ?_⟩
          cases b with
          | true => exact .inl (hflag rfl)
          | false => exact .inr rfl
        | wait => exact ⟨rfl, .inl (hflag (hwait rfl))⟩
        | ask q =>
          have hf := hflag (hwait rfl)
          exact ⟨(hk.look (hk.flag hf) j q).1, .inl hf⟩

theorem Run.kept (h : Run s more t) (hk : s.Kept log) : t.Kept (log ++ more) := by
  induction h with
  | refl => simpa using hk
  | step m _ hs ih =>
    rw [← List.append_assoc]
    exact (step_change m hs).kept ih

/-! Once the flag is set, nobody who comes is told that it is not. -/

/-- The flag is set, and the threads from a number on have come since. -/
structure Since (n : Nat) (s : Handle) : Prop where
  flag : s.event.signaled = true
  late : ∀ {j c p}, n ≤ j → (s.calls.map eventCall)[j]? = some c → s.event.threads[j]? = some p →
    p.Late c

theorem Since.start {n : Nat} (h : s.Since n) (hs : s.event.Serves (s.calls.map eventCall))
    (q : Option Query) (hevent : t.event = s.event.start (eventCall q))
    (hcalls : t.calls = s.calls ++ [q]) : t.Since n where
  flag := by rw [hevent]; exact h.flag
  late := by
    intro j c p hj hc hp
    rw [hcalls, List.map_append] at hc
    rw [hevent] at hp
    rcases getElem?_snoc.1 hp with hp | ⟨-, rfl⟩
    · rcases getElem?_snoc.1 hc with hc | ⟨hl, -⟩
      · exact h.late hj hc hp
      · have hlt := (List.getElem?_eq_some_iff.1 hp).1
        have hlen := hs.length
        omega
    · trivial

theorem Change.since {n : Nat} (h : s.Change more t) (hs : s.event.Serves (s.calls.map eventCall))
    (hn : s.Since n) : t.Since n := by
  cases h with
  | called q => exact hn.start hs (some q) rfl rfl
  | signaling => exact hn.start hs none rfl rfl
  | moved i e hm =>
    refine ⟨?_, ?_⟩
    · obtain ⟨p, q, -, hgo, -⟩ := hm
      exact hgo.flag hn.flag
    · intro j c q hj hc hq
      obtain ⟨p, hp, hgo | rfl | rfl⟩ := hm.thread hq
      · exact hgo.late hn.flag (hs.fits hc hp) (hn.late hj hc hp)
      · exact hn.late hj hc hp
      · exact (hn.late hj hc hp).rouse
  | published | returned => exact ⟨hn.flag, hn.late⟩

theorem Run.polled (h : Run s more t) (hk : s.Kept log) (hf : s.event.signaled = true) :
    t.Since s.calls.length ∧
      ∀ i b, s.calls.length ≤ i → .returned i .poll (.polled b) ∈ more → b = true := by
  induction h with
  | refl =>
    refine ⟨⟨hf, ?_⟩, by simp⟩
    intro j c p hj hc
    rw [List.getElem?_eq_none (by simpa using hj)] at hc
    cases hc
  | @step more rest t u m hr hm ih =>
    have hc := step_change m hm
    have hs := (Run.kept hr hk).serves
    refine ⟨hc.since hs ih.1, ?_⟩
    intro i b hi hb
    rcases List.mem_append.1 hb with hb | hb
    · exact ih.2 i b hi hb
    · cases hc with
      | returned j q a hq ha =>
        obtain ⟨rfl, rfl, hab⟩ : i = j ∧ .poll = q ∧ .polled b = (t.reply a q).1 := by simpa using hb
        cases hab
        have hcall : (t.calls.map eventCall)[i]? = some .poll := by
          rw [List.getElem?_map, hq]
          rfl
        exact ih.1.late hi hcall ha nofun
      | _ => simp at hb

/-- The moves that a ticket can see are the moves of tickets. -/
theorem Change.ticket (h : s.Change more t) (hk : s.Kept log) :
    t.ticket = s.ticket ∨ t.ticket = s.ticket.publish s.request.completed.outcome ∨
      t.ticket = s.ticket.signal ∨
        ∃ i q a, more = [.returned i (.ask q) (.told a)] ∧ s.ticket.ask q = some (a, t.ticket) := by
  cases h with
  | called | signaling => exact .inl rfl
  | published => exact .inr (.inl rfl)
  | moved i e hm =>
    cases he : e.signaled with
    | false =>
      cases hs : s.event.signaled with
      | false => exact .inl (by rw [ticket, ticket, he, hs])
      | true =>
        obtain ⟨p, q, -, hgo, -⟩ := hm
        exact absurd (hgo.flag hs) (by simp [he])
    | true => exact .inr (.inr (.inl (by rw [ticket, he, Ticket.signal, ticket])))
  | returned i q b hq hb =>
    obtain ⟨hwait, hflag⟩ := hk.reply hq hb
    cases q with
    | poll | wait => exact .inl rfl
    | ask q =>
      refine .inr (.inr (.inr ⟨i, q, _, rfl, ?_⟩))
      have hf : s.ticket.signaled = true := hflag (hwait rfl)
      rw [Ticket.ask, Ticket.wait, if_pos hf, Option.map_some]
      cases q <;> rfl

/-- Only a call for the buffer gets it. -/
theorem Kept.asked (hk : s.Kept log) {b : Buffer} (hb : b ∈ handed log) : AskedBuffer log := by
  obtain ⟨e, he, hb⟩ := List.mem_filterMap.1 hb
  cases e with
  | returned i q a =>
    have htells := (hk.returned i q a he).1
    rcases q with _ | _ | q
    · obtain ⟨c, rfl⟩ := htells
      cases hb
    · cases htells
      cases hb
    · cases q with
      | buffer => exact ⟨i, a, he⟩
      | _ =>
        cases htells
        cases hb
  | _ => cases hb

theorem Change.request (h : s.Change more t) : t.request = s.request := by
  cases h <;> rfl

theorem Run.request (h : Run s log t) : t.request = s.request := by
  induction h with
  | refl => rfl
  | step m _ hm ih => rw [(step_change m hm).request, ih]

theorem Tells.failed {r : Request} {q : Query} {a : Reply} (h : Tells r q a) {e : Error}
    (he : r.result = .error e) :
    a ≠ .told (.result (.ok ())) ∧ (e.code ≠ 0 → a ≠ .told (.code 0)) := by
  rcases q with _ | _ | q
  · obtain ⟨b, rfl⟩ := h
    simp
  · cases h
    simp
  · cases q with
    | buffer =>
      obtain ⟨b, rfl⟩ := h
      simp
    | _ =>
      cases h
      simp [he, resultCode]

/-- What callers can rely on, whatever they and the worker do in which order. -/
structure Consistent (r : Request) (log : List Incident) (s : Handle) : Prop where
  /-- A call that tells that the request is complete finds the outcome in its place. -/
  filled : ∀ m i q a t, s.step m = some ([.returned i q a], t) → a ≠ .polled false →
    .published ∈ log ∧ ∃ b, s.outcome = some ⟨r.result, b, r.size⟩
  result : ∀ i a, .returned i (.ask .result) a ∈ log → a = .told (.result r.result)
  code : ∀ i a, .returned i (.ask .code) a ∈ log → a = .told (.code (resultCode r.result))
  size : ∀ i a, .returned i (.ask .size) a ∈ log → a = .told (.size r.size)
  failed : ∀ e, r.result = .error e → ∀ i q a, .returned i q a ∈ log →
    a ≠ .told (.result (.ok ())) ∧ (e.code ≠ 0 → a ≠ .told (.code 0))
  /-- The buffer goes to one of those who ask for it. -/
  taken : (AskedBuffer log → handed log = r.buffer.toList) ∧ (¬ AskedBuffer log → handed log = [])
  /-- After a call that tells that the request is complete, polls tell the same. -/
  raised : ∀ i q a, .returned i q a ∈ log → a ≠ .polled false → ∀ more t, Run s more t →
    ∀ j b, s.calls.length ≤ j → .returned j .poll (.polled b) ∈ more → b = true
  tickets : ∀ m more t, s.step m = some (more, t) →
    t.ticket = s.ticket ∨ t.ticket = s.ticket.publish r.completed.outcome ∨
      t.ticket = s.ticket.signal ∨
        ∃ i q a, more = [.returned i (.ask q) (.told a)] ∧ s.ticket.ask q = some (a, t.ticket)

/-- However many threads use a handle at once. -/
theorem Run.consistent {r : Request} (h : Run (create r) log s) : Consistent r log s := by
  have hk : s.Kept log := Run.kept h (kept_create r)
  have hr : s.request = r := Run.request h
  constructor
  case filled =>
    intro m i q a t hm ha
    have hc := step_change m hm
    have hf : s.event.signaled = true := by
      have ht := ((hc.kept hk).returned i q a (by simp)).2.resolve_right ha
      cases hc
      exact ht
    obtain ⟨b, hs, -⟩ := hk.slot (hk.flag hf)
    exact ⟨hk.flag hf, b, hr ▸ hs⟩
  case result =>
    intro i a ha
    exact hr ▸ (hk.returned _ _ _ ha).1
  case code =>
    intro i a ha
    exact hr ▸ (hk.returned _ _ _ ha).1
  case size =>
    intro i a ha
    exact hr ▸ (hk.returned _ _ _ ha).1
  case failed =>
    intro e he i q a ha
    exact Tells.failed (hk.returned i q a ha).1 (hr ▸ he)
  case taken =>
    refine ⟨?_, fun ha ↦ List.eq_nil_iff_forall_not_mem.2 fun b hb ↦ ha (hk.asked hb)⟩
    intro ha
    have hp : .published ∈ log := by
      by_contra hp
      exact (hk.unasked hp).2 ha
    obtain ⟨b, -, hh, hb⟩ := hk.slot hp
    rw [hb ha, Option.toList_none, List.append_nil, hr] at hh
    exact hh
  case raised =>
    intro i q a ha hne more t ht
    exact (Run.polled ht hk ((hk.returned i q a ha).2.resolve_right hne)).2
  case tickets =>
    intro m more t hm
    exact hr ▸ (step_change m hm).ticket hk

/-- A read that has filled a buffer, before it is completed. -/
def fetched : Request where
  id := 3
  operation := .read
  path := ⟨"f"⟩
  flags := .forRead false false
  buffer := some ⟨0, 0, [7, 8]⟩
  size := 2
  result := .ok ()
  heap := 0
  progress := .processing .file

/-- Two threads ask for the buffer while the request is completed, and the one that came last gets it;
polls come before and after, and a question for the result when the buffer is gone. -/
def contended : List Incident × Handle :=
  (Trace.follow step (create fetched) [.call .poll, .event 0, .event 0, .event 0, .comeBack 0,
    .call (.ask .buffer), .event 1, .event 1, .publish, .call (.ask .buffer), .event 2, .event 2,
    .signal, .event 3, .event 3, .event 3, .event 3, .event 2, .event 2, .event 2, .comeBack 2,
    .event 1, .event 1, .event 1, .comeBack 1, .call (.ask .result), .event 4, .event 4, .event 4,
    .comeBack 4, .call .poll, .event 5, .event 5, .event 5, .comeBack 5]).get rfl

theorem consistent_contended :
    Run (create fetched) contended.1 contended.2 ∧ handed contended.1 = [⟨0, 0, [7, 8]⟩] ∧
      contended.2.ended = [5, 4, 1, 2, 0] ∧ Consistent fetched contended.1 contended.2 :=
  have hrun : Run (create fetched) contended.1 contended.2 := .of_isSome _
  ⟨hrun, rfl, rfl, Run.consistent hrun⟩

end Handle

end QueuedFiles
