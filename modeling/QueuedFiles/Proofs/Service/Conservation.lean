import QueuedFiles.Proofs.Service.Desk
import QueuedFiles.Proofs.Service.Incidents
import QueuedFiles.Proofs.Service.Sample

/-!
No request is lost and none is completed twice: an accepted request is in one place, shows the
progress that belongs there, and has its outcome and its flag when it has been completed.
-/

namespace QueuedFiles

namespace Service

variable {fs : FileSystem} {codec : Codec} {s t u v : Service fs codec}
  {log more pre rest : List Incident} {q r : Request} {p : Post} {config : Config} {heap : HeapId}
  {heaps : Heaps} {files : fs.State} {codecState : codec.State}

/-- The places of a request that has been accepted. -/
inductive Place where
  | queue (lane : Lane)
  | worker (lane : Lane)
  | completed
  | dropped

/-- How often a request is in a place. -/
def presence (s : Service fs codec) (log : List Incident) (id : Nat) : Place → Nat
  | .queue lane => (ids (s.waiting lane)).count id
  | .worker lane => (ids (s.worker lane).requests).count id
  | .completed => (log.filterMap Incident.published?).count id
  | .dropped => (ids (log.filterMap Incident.dropped?)).count id

theorem Census.one_place (h : Census log s) (hr : .accepted r ∈ log) :
    ∃ place, s.presence log r.id place = 1 ∧
      ∀ other, other ≠ place → s.presence log r.id other = 0 := by
  have hpos := List.count_pos_iff.2 (mem_accepted.2 ⟨r, rfl, hr⟩)
  have hle := h.accepted_le_one r.id
  have hp := h.places r.id
  simp only [held] at hp
  have hone : (∃ lane, s.presence log r.id (.queue lane) = 1) ∨
      (∃ lane, s.presence log r.id (.worker lane) = 1) ∨ s.presence log r.id .completed = 1 ∨
      s.presence log r.id .dropped = 1 := by
    by_contra hn
    simp only [not_or, not_exists, presence] at hn
    have hqf := hn.1 .file
    have hqc := hn.1 .codec
    have hwf := hn.2.1 .file
    have hwc := hn.2.1 .codec
    omega
  have hrest : ∀ place, s.presence log r.id place = 1 →
      ∀ other, other ≠ place → s.presence log r.id other = 0 := by
    intro place hplace other hne
    rcases place with (_ | _) | (_ | _) | _ | _ <;> rcases other with (_ | _) | (_ | _) | _ | _
    all_goals
      first
      | exact absurd rfl hne
      | simp only [presence] at hplace ⊢
        omega
  rcases hone with ⟨lane, hone⟩ | ⟨lane, hone⟩ | hone | hone
  all_goals exact ⟨_, hone, hrest _ hone⟩

theorem Transition.keeps_closing (h : Transition s more t) (hs : s.closing ≠ .notYet) :
    t.closing ≠ .notYet := by
  cases h with
  | marked lane following hm | unmarked lane following hm => simpa using hm.begun.2
  | joined lane following hj => exact hj.begun.2
  | closing | dismantled => simp
  | _ => simpa using hs

theorem Run.keeps_closing (h : Run s log t) (hs : s.closing ≠ .notYet) : t.closing ≠ .notYet := by
  induction h with
  | refl => exact hs
  | step m _ hstep ih => exact (step_transition m hstep).keeps_closing ih

theorem Run.dropped_closing (h : Run (fresh config heap heaps files codecState) log s)
    (hc : codec.Returns) (hd : .dropped r ∈ log) : s.closing ≠ .notYet := by
  obtain ⟨pre, more, rest, u, v, hu, ht, hv, hrest, rfl, hm⟩ := h.split hd
  refine hrest.keeps_closing (ht.keeps_closing ?_)
  have hmarked : ∀ lane, (u.worker lane).stopping = 1 → u.closing ≠ .notYet := by
    intro lane hst hn
    have := ((hu.protocol hc).marked_of_stopping hst).1
    simp [hn, Closing.marked] at this
  rcases ht.dropped_at hc hm with ⟨lane, -, hw | hd⟩ | ⟨lane, onward, -, ho⟩
  · exact hmarked lane (by simp [hw, Worker.stopping])
  · simp [hd]
  · have hg := (hu.census.staffed onward).2 ho
    exact hmarked onward (by simp [hg, Worker.stopping])

theorem at_of_requests {lane : Lane} (h : r ∈ (s.worker lane).requests) :
    ∃ task, s.At r (.hand lane task) := by
  cases hw : s.worker lane with
  | serving q =>
    obtain rfl : r = q := by simpa [hw] using h
    exact ⟨.serving, hw⟩
  | coding q room =>
    obtain rfl : r = q := by simpa [hw] using h
    exact ⟨.coding room, hw⟩
  | routing q next =>
    obtain rfl : r = q := by simpa [hw] using h
    exact ⟨.routing next, hw⟩
  | idle | signaling | releasing | leaving | gone => simp [hw] at h

/-- A worker shows its own lane on what it has in hand, or already the next queue while the hand-off
is not through. -/
theorem Bearing.worker_progress {lane : Lane} {task : Task}
    (h : Bearing config heap log r (.hand lane task)) (hr : s.At r (.hand lane task)) :
    r.progress = .processing lane ∨ ∃ onward, onward ≠ lane ∧
      s.worker lane = .routing r (.handOff onward) ∧ r.progress = .queued onward := by
  cases task with
  | serving | coding => exact .inl h.progress
  | routing next =>
    cases next with
    | complete => exact .inl h.progress
    | handOff onward =>
      refine .inr ⟨onward, ?_, hr, h.progress⟩
      rcases Journey.routing h.journey with ⟨-, ⟨-, rfl, rfl⟩ | ⟨-, rfl, rfl⟩⟩ <;> decide

/-- An accepted request with its place, its ticket and its stages. -/
structure Accounted (log : List Incident) (s : Service fs codec) (r : Request) : Prop where
  /-- It is in one place, once, and in no other. -/
  place : ∃ place, s.presence log r.id place = 1 ∧
    ∀ other, other ≠ place → s.presence log r.id other = 0
  waiting : ∀ lane, ∀ q ∈ s.waiting lane, q.id = r.id → q.progress = .queued lane
  inHand : ∀ lane, ∀ q ∈ (s.worker lane).requests, q.id = r.id →
    q.progress = .processing lane ∨ ∃ onward, onward ≠ lane ∧
      s.worker lane = .routing q (.handOff onward) ∧ q.progress = .queued onward
  /-- Only a shutdown drops it. -/
  dropped : s.presence log r.id .dropped = 1 → s.closing ≠ .notYet
  /-- Its flag is set once, when its completion is through, and its outcome is there before. -/
  ticket : ∃ t, s.ticket? r.id = some t ∧
    (t.signaled = true ↔ s.presence log r.id .completed = 1 ∧
      ∀ lane, s.worker lane ≠ .signaling r.id) ∧
    (t.outcome.isSome = true ↔ s.presence log r.id .completed = 1) ∧
    ∀ left, t.outcome = some left → ∃ o, .published r.id o ∈ log ∧ left.result = o.result ∧
      left.size = o.size ∧ (left.buffer = o.buffer ∨ left.buffer = none)
  signaledOnce : (log.filterMap Incident.signaled?).count r.id ≤ 1
  /-- Its stages so far are the beginning of a route. -/
  route : ∃ rest, Itinerary r.operation r.isCompressed (stages r.id log ++ rest)
  completed : s.presence log r.id .completed = 1 →
    Itinerary r.operation r.isCompressed (stages r.id log)

theorem Run.bearing_of_accepted (h : Run (fresh config heap heaps files codecState) log s)
    (hr : .accepted r ∈ log) :
    ∃ q p, q.id = r.id ∧ Bearing config heap log q p := by
  obtain ⟨place, hplace, -⟩ := h.census.one_place hr
  have hpos : 0 < s.presence log r.id place := by omega
  cases place with
  | queue lane =>
    obtain ⟨q, hq, he⟩ := List.mem_map.1 (List.count_pos_iff.1 hpos)
    exact ⟨q, .queue lane, he, h.bearing hq⟩
  | worker lane =>
    obtain ⟨q, hq, he⟩ := List.mem_map.1 (List.count_pos_iff.1 hpos)
    obtain ⟨task, hat⟩ := at_of_requests hq
    exact ⟨q, _, he, h.bearing hat⟩
  | completed =>
    obtain ⟨o, ho⟩ := mem_published.1 (List.count_pos_iff.1 hpos)
    obtain ⟨q, lane, he, -, hb⟩ := h.published_bearing ho
    exact ⟨q, _, he, hb⟩
  | dropped =>
    obtain ⟨q, he, hq⟩ := mem_dropped.1 (List.count_pos_iff.1 hpos)
    obtain ⟨p, hb⟩ := h.dropped_somewhere hq
    exact ⟨q, p, he, hb⟩

theorem Run.itinerary_of_completed (h : Run (fresh config heap heaps files codecState) log s)
    (hr : .accepted r ∈ log) (hp : r.id ∈ log.filterMap Incident.published?) :
    Itinerary r.operation r.isCompressed (stages r.id log) := by
  obtain ⟨o, ho⟩ := mem_published.1 hp
  obtain ⟨q, lane, he, -, hb⟩ := h.published_bearing ho
  obtain ⟨hop, hcomp⟩ := h.same_order hr hb he
  have hi := Journey.itinerary hb.journey
  rwa [hop, hcomp, he] at hi

theorem Run.ticket_of_accepted (h : Run (fresh config heap heaps files codecState) log s)
    (hr : .accepted r ∈ log) : ∃ t, s.ticket? r.id = some t ∧ t.id = r.id ∧ t.Reflects log := by
  have hpos := List.count_pos_iff.2 (mem_accepted.2 ⟨r, rfl, hr⟩)
  have hn := h.desk.numbers r.id
  have hc := h.census.callers r.id
  have ht : r.id ∈ s.tickets.map (·.id) := List.count_pos_iff.1 (by omega)
  obtain ⟨k, hk, hid⟩ := List.mem_map.1 ht
  cases hf : s.ticket? r.id with
  | none =>
    have := List.find?_eq_none.1 hf k hk
    simp [hid] at this
  | some t =>
    exact ⟨t, rfl, by simpa using List.find?_some hf,
      h.desk.reflects t (List.mem_of_find?_eq_some hf)⟩

theorem Census.signaled_iff (h : Census log s) (id : Nat) :
    id ∈ log.filterMap Incident.signaled? ↔ id ∈ log.filterMap Incident.published? ∧
      ∀ lane, s.worker lane ≠ .signaling id := by
  have hf := h.flags id
  have hp := h.places id
  have ha := h.accepted_le_one id
  have hw : ∀ lane, 0 < (s.worker lane).closing.count id ↔ s.worker lane = .signaling id := by
    intro lane
    cases hl : s.worker lane <;> simp
    exact eq_comm
  simp only [← List.count_pos_iff, ← hw, ne_eq]
  constructor
  · intro hs
    refine ⟨by omega, ?_⟩
    intro lane
    cases lane <;> omega
  · rintro ⟨hpos, hno⟩
    have := hno .file
    have := hno .codec
    omega

/-- A worker has let go of a request once its flag is set and no worker is about to. -/
theorem Census.released_iff (h : Census log s) (id : Nat) :
    id ∈ log.filterMap Incident.released? ↔ id ∈ log.filterMap Incident.signaled? ∧
      ∀ lane, s.worker lane ≠ .releasing id := by
  have hp := h.places id
  have hf := h.flags id
  have hr := h.partings id
  have ha := h.accepted_le_one id
  have hw : ∀ lane, 0 < (s.worker lane).parting.count id ↔ s.worker lane = .releasing id := by
    intro lane
    cases hl : s.worker lane <;> simp
    exact eq_comm
  simp only [← List.count_pos_iff, ← hw, ne_eq]
  constructor
  · intro hs
    refine ⟨by omega, ?_⟩
    intro lane
    cases lane <;> omega
  · rintro ⟨hpos, hno⟩
    have := hno .file
    have := hno .codec
    omega

theorem Census.published_of_released (h : Census log s) {id : Nat}
    (hid : id ∈ log.filterMap Incident.released?) : id ∈ log.filterMap Incident.published? :=
  ((h.signaled_iff id).1 ((h.released_iff id).1 hid).1).1

/-- Conservation: in every state that can be reached, an accepted request is accounted for. -/
theorem Run.accounted (h : Run (fresh config heap heaps files codecState) log s)
    (hc : codec.Returns) (hr : .accepted r ∈ log) : Accounted log s r where
  place := h.census.one_place hr
  waiting lane q hq _ := (h.bearing (p := .queue lane) hq).progress
  inHand lane q hq _ := by
    obtain ⟨task, hat⟩ := at_of_requests hq
    exact (h.bearing hat).worker_progress hat
  dropped hd := by
    have hpos : 0 < s.presence log r.id .dropped := by omega
    obtain ⟨q, -, hq⟩ := mem_dropped.1 (List.count_pos_iff.1 hpos)
    exact h.dropped_closing hc hq
  ticket := by
    obtain ⟨t, ht, hid, href⟩ := h.ticket_of_accepted hr
    have hle : s.presence log r.id .completed ≤ 1 := by
      have := h.census.places r.id
      have := h.census.accepted_le_one r.id
      simp only [presence]
      omega
    have hone : s.presence log r.id .completed = 1 ↔ r.id ∈ log.filterMap Incident.published? := by
      rw [← List.count_pos_iff]
      simp only [presence] at hle ⊢
      omega
    refine ⟨t, ht, ?_, ?_, ?_⟩
    · rw [href.signaled, hid, h.census.signaled_iff, hone]
    · rw [hone]
      cases ho : t.outcome with
      | none => simpa [hid] using href.pending ho
      | some left =>
        obtain ⟨o, hm, -⟩ := href.filled left ho
        exact iff_of_true rfl (hid ▸ mem_published.2 ⟨o, hm⟩)
    · intro left hl
      exact hid ▸ href.filled left hl
  signaledOnce := by
    have := h.census.flags r.id
    have := h.census.places r.id
    have := h.census.accepted_le_one r.id
    omega
  route := by
    obtain ⟨q, p, he, hb⟩ := h.bearing_of_accepted hr
    obtain ⟨hop, hcomp⟩ := h.same_order hr hb he
    have := Journey.route hb.journey
    rwa [hop, hcomp, he] at this
  completed hp := by
    have hpos : 0 < s.presence log r.id .completed := by omega
    exact h.itinerary_of_completed hr (List.count_pos_iff.1 hpos)

/-- A compressed write that has been through both lanes, up to its end. -/
def written : List Incident × Service FileSystem.single (.ofPure .verbatim) :=
  ((sample default (.ofPure .verbatim) ()).follow [.enter (.write "f" [1, 2] true false), .push 1,
    .work .codec, .work .codec, .work .codec, .work .codec, .work .file, .work .file, .work .file,
    .work .file, .work .file]).get (by decide)

theorem accounted_written :
    Run (sample default (.ofPure .verbatim) ()) written.1 written.2 ∧ .signaled 1 ∈ written.1 ∧
      ∃ r, r.id = 1 ∧ .accepted r ∈ written.1 ∧ Accounted written.1 written.2 r := by
  have hrun : Run (sample default (.ofPure .verbatim) ()) written.1 written.2 := .of_isSome _
  have ha : 1 ∈ ids (written.1.filterMap Incident.accepted?) := by decide
  obtain ⟨r, hid, hr⟩ := mem_accepted.1 ha
  exact ⟨hrun, mem_signaled.1 (by decide), r, hid, hr,
    Run.accounted hrun (Codec.ofPure_returns _) hr⟩

end Service

end QueuedFiles
