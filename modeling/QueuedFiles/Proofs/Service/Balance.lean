import QueuedFiles.Proofs.Service.Aftermath
import QueuedFiles.Proofs.Service.Sources

/-!
The balance of the heaps: what they report is what requests, outcomes and callers hold, a request has
nothing but its outcome behind its flag, and nothing is left once everything is over.
-/

namespace QueuedFiles

def Request.stakes (r : Request) : List (Nat × Reservation) := r.holdings.map (r.id, ·)

def Worker.stakes (w : Worker) : List (Nat × Reservation) :=
  w.requests.flatMap fun r ↦ w.holdings.map (r.id, ·)

def Ticket.stakes (t : Ticket) : List (Nat × Reservation) := t.holdings.map (t.id, ·)

namespace Service

variable {fs : FileSystem} {codec : Codec} {s t : Service fs codec} {log more : List Incident}
  {lane : Lane} {q r : Request} {p : Post} {b : Buffer} {id : Nat} {x : Reservation}
  {config : Config} {heap : HeapId} {heaps : Heaps} {files : fs.State} {codecState : codec.State}

/-- The heaps count what a service and its callers hold, and what was out of them before. -/
theorem Run.owns_beside {others : List Reservation}
    (h : Run (fresh config heap heaps files codecState) log s) (hheap : heaps.has heap = true)
    (hothers : heaps.Owns others) : s.heaps.Owns (s.holdings ++ others) := by
  induction h with
  | refl => exact hothers
  | step m h hs ih => exact h.keeps_books hheap (step_transition m hs) ih

theorem Run.owns (h : Run (fresh config heap heaps files codecState) log s)
    (hheap : heaps.has heap = true) (hempty : ∀ k, (heaps.get k).live = []) :
    s.heaps.Owns s.holdings := by
  simpa using h.owns_beside hheap (Heaps.owns_nil hempty)

theorem Transition.lost_with (h : Transition s more t) (ho : (s.queue lane).isOpen = true)
    (hc : (t.queue lane).isOpen = false) (hr : r ∈ (t.queue lane).payloads) :
    .dropped r ∈ more := by
  cases h with
  | crashed q room =>
    by_cases hl : lane = .codec
    · subst hl
      have hw : r ∈ s.waiting .codec := by simpa [waiting_of_open ho] using hr
      simp [hw]
    · simp [hl, ho] at hc
  | left k =>
    by_cases hl : lane = k
    · subst hl
      have hw : r ∈ s.waiting lane := by simpa [waiting_of_open ho] using hr
      simp [hw]
    · simp [hl, ho] at hc
  | accepted q k hq hl | taken k q ms hw hq | stopped k ms hw hq | handedOff k' k q hw
  | marked k following hm =>
    by_cases hl : lane = k
    · subst hl
      simp [ho] at hc
    · simp [hl, ho] at hc
  | dismantled => cases lane <;> simp [Queue.payloads] at hr
  | _ => simp [ho] at hc

/-- The queue of a lane shows requests that can still be taken, and after its end those that were
lost with it. -/
theorem Run.queued (h : Run (fresh config heap heaps files codecState) log s)
    (hr : r ∈ (s.queue lane).payloads) : s.At r (.queue lane) ∨ .dropped r ∈ log := by
  induction h with
  | refl => cases lane <;> cases hr
  | @step log s t m h hs ih =>
    have ht := step_transition m hs
    by_cases ho : (t.queue lane).isOpen = true
    · exact .inl (by simpa [At, waiting_of_open ho] using hr)
    · refine .inr (List.mem_append.2 ?_)
      rw [Bool.not_eq_true] at ho
      by_cases hos : (s.queue lane).isOpen = true
      · exact .inr (ht.lost_with hos ho hr)
      · rw [Bool.not_eq_true] at hos
        rcases ht.closed_queue h.census.staffed hos with hq | ⟨hq, -⟩
        · have hat : ¬ s.At r (.queue lane) := by simp [At, waiting, hos]
          exact .inl ((ih (hq ▸ hr)).resolve_left hat)
        · simp [hq] at hr

/-- Each holding with the number of the request that has it. -/
def stakes (s : Service fs codec) : List (Nat × Reservation) :=
  s.entering.flatMap Request.stakes ++ (s.queue .file).payloads.flatMap Request.stakes ++
    (s.queue .codec).payloads.flatMap Request.stakes ++ (s.worker .file).stakes ++
    (s.worker .codec).stakes ++ s.tickets.flatMap Ticket.stakes

theorem holdings_eq (s : Service fs codec) :
    s.holdings = s.stakes.map (·.2) ++ s.taken.map Buffer.holding := by
  have hw : ∀ w : Worker, w.stakes.map (·.2) = w.holdings := by
    intro w
    cases w <;> simp [Worker.stakes, Worker.holdings, Function.comp_def]
  simp [holdings, stakes, List.map_flatMap, hw, Request.stakes, Ticket.stakes, Function.comp_def]

/-- Who has a holding that is accounted to a request: the request at its post or in a queue that
was lost with it, or the ticket with its outcome. -/
inductive Stakeholder (log : List Incident) (s : Service fs codec) (id : Nat) (x : Reservation) : Prop
  | post {r : Request} {p : Post} (hr : s.At r p) (hid : r.id = id) (hx : x.heap = r.heap)
  | lost {r : Request} {lane : Lane} (hd : .dropped r ∈ log) (hr : r ∈ (s.queue lane).payloads)
      (hid : r.id = id) (hx : x.heap = r.heap)
  | ticket {k : Ticket} {b : Buffer} (hk : k ∈ s.tickets) (hb : k.buffer = some b) (hid : k.id = id)
      (hx : b.holding = x)

theorem OwnHeap.holdings (h : OwnHeap r p) (hx : x ∈ r.holdings) : x.heap = r.heap := by
  simp only [Request.holdings, Option.mem_toList, Option.map_eq_some_iff] at hx
  obtain ⟨b, hb, rfl⟩ := hx
  exact h.buffer b hb

theorem mem_stakes : (id, x) ∈ r.stakes ↔ r.id = id ∧ x ∈ r.holdings := by
  simp [Request.stakes, and_comm]

theorem Run.lost_own (h : Run (fresh config heap heaps files codecState) log s)
    (hd : .dropped r ∈ log) : ∃ p, OwnHeap r p := by
  obtain ⟨pre, more, rest, u, v, hu, ht, -, -, rfl, hm⟩ := h.split hd
  obtain ⟨p, hat⟩ := ht.dropped_from hm
  exact ⟨p, hu.own_heap hat⟩

theorem Run.queue_stake (h : Run (fresh config heap heaps files codecState) log s)
    (hx : (id, x) ∈ (s.queue lane).payloads.flatMap Request.stakes) : Stakeholder log s id x := by
  obtain ⟨r, hr, hx⟩ := List.mem_flatMap.1 hx
  obtain ⟨hid, hx⟩ := mem_stakes.1 hx
  rcases h.queued hr with hat | hd
  · exact .post hat hid ((h.own_heap hat).holdings hx)
  · obtain ⟨p, ho⟩ := h.lost_own hd
    exact .lost hd hr hid (ho.holdings hx)

theorem Run.worker_stake (h : Run (fresh config heap heaps files codecState) log s)
    (hx : (id, x) ∈ (s.worker lane).stakes) : Stakeholder log s id x := by
  obtain ⟨r, hr, hx⟩ := List.mem_flatMap.1 hx
  obtain ⟨task, hat⟩ := at_of_requests hr
  have hw : s.worker lane = task.worker r := hat
  have ho := h.own_heap hat
  obtain ⟨hid, hx⟩ : r.id = id ∧ x ∈ (task.worker r).holdings := by
    simpa [hw, and_comm] using hx
  refine .post hat hid ?_
  cases task with
  | serving | routing => exact ho.holdings hx
  | coding room =>
    rcases List.mem_append.1 hx with hx | hx
    · exact ho.room lane x (by rw [Option.mem_toList.1 hx])
    · exact ho.holdings hx

theorem Run.stakeholder (h : Run (fresh config heap heaps files codecState) log s)
    (hx : (id, x) ∈ s.stakes) : Stakeholder log s id x := by
  simp only [stakes, List.mem_append] at hx
  rcases hx with ((((hx | hx) | hx) | hx) | hx) | hx
  · obtain ⟨r, hr, hx⟩ := List.mem_flatMap.1 hx
    obtain ⟨hid, hx⟩ := mem_stakes.1 hx
    have hat : s.At r .caller := hr
    exact .post hat hid ((h.own_heap hat).holdings hx)
  · exact h.queue_stake hx
  · exact h.queue_stake hx
  · exact h.worker_stake hx
  · exact h.worker_stake hx
  · obtain ⟨k, hk, hx⟩ := List.mem_flatMap.1 hx
    simp only [Ticket.stakes, Ticket.holdings, List.mem_map, Option.mem_toList,
      Option.map_eq_some_iff, Prod.mk.injEq] at hx
    obtain ⟨y, ⟨b, hb, hy⟩, hid, rfl⟩ := hx
    exact .ticket hk hb hid hy

theorem Run.left_in (h : Run (fresh config heap heaps files codecState) log s) {k : Ticket}
    (hk : k ∈ s.tickets) (hb : k.buffer = some b) :
    ∃ o, .published k.id o ∈ log ∧ o.buffer = some b := by
  obtain ⟨left, hleft, hlb⟩ := Option.bind_eq_some_iff.1 hb
  obtain ⟨o, ho, -, -, hsame | hnone⟩ := (h.desk.reflects k hk).filled left hleft
  · exact ⟨o, ho, hsame ▸ hlb⟩
  · cases hnone.symm.trans hlb

theorem Run.published_own (h : Run (fresh config heap heaps files codecState) log s) {o : Outcome}
    (ho : .published id o ∈ log) (hb : o.buffer = some b) :
    ∃ order, .entered id order ∈ log ∧ b.heap = order.heap heap := by
  obtain ⟨pre, more, rest, u, v, hu, ht, -, -, rfl, hm⟩ := h.split ho
  obtain ⟨r, lane, hat, rfl, rfl⟩ := ht.published_at hm
  obtain ⟨order, hentered, hc⟩ := (hu.bearing hat).order
  refine ⟨order, by simp [hentered], ?_⟩
  rw [← hc.heap]
  exact (hu.own_heap hat).buffer b hb

theorem Run.drawn (h : Run (fresh config heap heaps files codecState) log s)
    (hx : (id, x) ∈ s.stakes) : ∃ o, .entered id o ∈ log ∧ x.heap = o.heap heap := by
  cases h.stakeholder hx with
  | post hr hid hx =>
    obtain ⟨o, ho, hc⟩ := (h.bearing hr).order
    exact ⟨o, hid ▸ ho, hx.trans hc.heap⟩
  | @lost r lane hd hr hid hx =>
    obtain ⟨o, ho, hc⟩ := h.shown_order hd (List.mem_singleton_self r)
    exact ⟨o, hid ▸ ho, hx.trans hc.heap⟩
  | ticket hk hb hid hx =>
    obtain ⟨out, hout, hob⟩ := h.left_in hk hb
    obtain ⟨o, ho, hheap⟩ := h.published_own hout hob
    exact ⟨o, hid ▸ ho, hx ▸ hheap⟩

theorem Run.taken_from (h : Run (fresh config heap heaps files codecState) log s)
    (hb : b ∈ s.taken) : ∃ id o, .published id o ∈ log ∧ o.buffer = some b := by
  induction h generalizing b with
  | refl => cases hb
  | @step log s t m h hs ih =>
    have ht := step_transition m hs
    have hold : b ∈ s.taken → ∃ id o, .published id o ∈ log ++ s.record m ∧ o.buffer = some b := by
      intro hb
      obtain ⟨id, o, ho, hob⟩ := ih hb
      exact ⟨id, o, List.mem_append_left _ ho, hob⟩
    generalize s.record m = more at ht hold
    cases ht with
    | asked id q k hf =>
      rcases List.mem_append.1 hb with hb | hb
      · exact hold hb
      · cases q with
        | buffer =>
          obtain ⟨o, ho, hob⟩ := h.left_in (ticket_mem hf).1 (Option.mem_toList.1 hb)
          exact ⟨k.id, o, List.mem_append_left _ ho, hob⟩
        | result | code | size => cases hb
    | gaveBack c => exact hold (List.mem_of_mem_filter hb)
    | _ => exact hold (by simpa using hb)

theorem Census.not_dropped (h : Census log s) (hp : id ∈ log.filterMap Incident.published?) :
    id ∉ ids (log.filterMap Incident.dropped?) := by
  have hplaces := h.places id
  have hle := h.accepted_le_one id
  have hpos := List.count_pos_iff.2 hp
  rw [← List.count_eq_zero]
  omega

/-- Behind its flag a request has nothing but what is left in its ticket. -/
theorem Run.settled_stake (h : Run (fresh config heap heaps files codecState) log s)
    (hs : .signaled id ∈ log) (hx : (id, x) ∈ s.stakes) :
    ∃ k b, k ∈ s.tickets ∧ k.id = id ∧ k.buffer = some b ∧ b.holding = x := by
  have hpub := ((h.census.signaled_iff id).1 (mem_signaled.2 hs)).1
  cases h.stakeholder hx with
  | post hr hid => exact absurd (hid ▸ hpub) (h.census.over hr).1
  | lost hd hr hid => exact absurd (mem_dropped.2 ⟨_, hid, hd⟩) (h.census.not_dropped hpub)
  | ticket hk hb hid hx => exact ⟨_, _, hk, hid, hb, hx⟩

theorem buffer_withoutBuffer (k : Ticket) : k.withoutBuffer.buffer = none := by
  cases ho : k.outcome <;> simp [Ticket.withoutBuffer, Ticket.look, Ticket.buffer, ho]

theorem Transition.unheld (ht : Transition s more t)
    (h : Run (fresh config heap heaps files codecState) log s)
    (ih : ∀ k ∈ s.tickets, k.held = false → k.released = true → k.buffer = none) :
    ∀ k ∈ t.tickets, k.held = false → k.released = true → k.buffer = none := by
  intro u hu hheld hs
  cases ht with
  | entered o path =>
    rcases List.mem_append.1 hu with hu | hu
    · exact ih u hu hheld hs
    · obtain rfl := List.mem_singleton.1 hu
      cases hheld
  | refused r => exact ih u (List.mem_of_mem_filter hu) hheld hs
  | published lane r hw =>
    rcases Ticket.mem_updateAll (by simpa using hu) with ⟨k, hk, ⟨hid, rfl⟩ | ⟨-, rfl⟩⟩
    · -- No worker has let go of a request that is still in a worker's hands.
      have hat : s.At r (.hand lane (.routing .complete)) := hw
      have hrel := (h.desk.reflects k hk).released.1 hs
      rw [hid] at hrel
      exact absurd (h.census.published_of_released hrel) (h.census.over hat).1
    · exact ih u hk hheld hs
  | signaled lane id hw =>
    rcases Ticket.mem_updateAll (by simpa using hu) with ⟨k, hk, ⟨-, rfl⟩ | ⟨-, rfl⟩⟩
    · exact ih k hk hheld hs
    · exact ih u hk hheld hs
  | released lane id hw =>
    rcases Ticket.mem_updateAll (by simpa using hu) with ⟨k, hk, ⟨-, rfl⟩ | ⟨-, rfl⟩⟩
    · unfold Ticket.release at hheld ⊢
      dsimp only at hheld ⊢
      split at hheld
      · next hk => cases hk.symm.trans hheld
      · next hk =>
        rw [if_neg hk]
        exact buffer_withoutBuffer _
    · exact ih u hk hheld hs
  | asked id q =>
    rcases Ticket.mem_updateAll (by simpa using hu) with ⟨k, hk, ⟨-, rfl⟩ | ⟨-, rfl⟩⟩
    · cases q with
      | buffer => exact buffer_withoutBuffer k
      | result | code | size => exact ih k hk hheld hs
    · exact ih u hk hheld hs
  | forgot id =>
    rcases Ticket.mem_updateAll (by simpa using hu) with ⟨k, hk, ⟨-, rfl⟩ | ⟨-, rfl⟩⟩
    · unfold Ticket.forget at hs ⊢
      dsimp only at hs ⊢
      split at hs
      · next hk =>
        rw [if_pos hk]
        exact buffer_withoutBuffer _
      · next hk => exact absurd hs hk
    · exact ih u hk hheld hs
  | _ => exact ih u (by simpa using hu) hheld hs

/-- A ticket that neither a caller nor a worker holds has given up its buffer. -/
theorem Run.unheld (h : Run (fresh config heap heaps files codecState) log s) :
    ∀ k ∈ s.tickets, k.held = false → k.released = true → k.buffer = none := by
  induction h with
  | refl =>
    intro k hk
    cases hk
  | step m h hs ih => exact (step_transition m hs).unheld h ih

/-- An outcome that still has its buffer is in use: its handle is held, or its worker has not let go
of the request, be it before or behind the flag. -/
theorem Run.referenced (h : Run (fresh config heap heaps files codecState) log s) {k : Ticket}
    (hk : k ∈ s.tickets) (hb : k.buffer = some b) :
    k.held = true ∨ ∃ lane, s.worker lane = .signaling k.id ∨ s.worker lane = .releasing k.id := by
  by_contra hn
  simp only [not_or, Bool.not_eq_true, not_exists] at hn
  obtain ⟨hheld, hno⟩ := hn
  obtain ⟨o, ho, -⟩ := h.left_in hk hb
  have hsig := (h.census.signaled_iff k.id).2 ⟨mem_published.2 ⟨o, ho⟩, fun lane ↦ (hno lane).1⟩
  have hrel := (h.census.released_iff k.id).2 ⟨hsig, fun lane ↦ (hno lane).2⟩
  have hnone := h.unheld k hk hheld ((h.desk.reflects k hk).released.2 hrel)
  cases hb.symm.trans hnone

/-- Nothing is left of a request but what callers have: its worker has let go of it behind the flag,
or it was turned away, or it was lost and is in no queue any more. -/
def Ended (log : List Incident) (s : Service fs codec) (id : Nat) : Prop :=
  .released id ∈ log ∨ ∃ r, r.id = id ∧
    (.refused r ∈ log ∨ .dropped r ∈ log ∧ ∀ lane, r ∉ (s.queue lane).payloads)

theorem Census.refused_out (h : Census log s) (hr : .refused r ∈ log) :
    r.id ∉ ids (log.filterMap Incident.accepted?) ∧
      r.id ∉ log.filterMap Incident.published? ∧ r.id ∉ ids (log.filterMap Incident.dropped?) := by
  have hpos := List.count_pos_iff.2 (mem_refused.2 ⟨r, rfl, hr⟩)
  have hc := h.callers r.id
  have hp := h.places r.id
  have hle := h.entered_le_one r.id
  simp only [← List.count_eq_zero]
  omega

theorem Census.lost_once (h : Census log s) (hr : .dropped r ∈ log) (hq : .dropped q ∈ log)
    (he : r.id = q.id) : r = q := by
  have hn : (ids (log.filterMap Incident.dropped?)).Nodup := by
    rw [List.nodup_iff_count_le_one]
    intro k
    have hp := h.places k
    have hle := h.accepted_le_one k
    omega
  have hmem : ∀ {k}, .dropped k ∈ log → k ∈ log.filterMap Incident.dropped? :=
    fun hk ↦ List.mem_filterMap.2 ⟨_, hk, rfl⟩
  exact List.inj_on_of_nodup_map hn (hmem hr) (hmem hq) he

theorem Run.ended_stake (h : Run (fresh config heap heaps files codecState) log s)
    (he : Ended log s id) (hheld : ∀ k ∈ s.tickets, k.held = false) : (id, x) ∉ s.stakes := by
  intro hx
  rcases he with hs | ⟨r, rfl, hr | ⟨hd, hno⟩⟩
  · have hsig := mem_signaled.1 ((h.census.released_iff id).1 (mem_released.2 hs)).1
    obtain ⟨k, b, hk, rfl, hb, -⟩ := h.settled_stake hsig hx
    have hrel := (h.desk.reflects k hk).released.2 (mem_released.2 hs)
    cases hb.symm.trans (h.unheld k hk (hheld k hk) hrel)
  · obtain ⟨-, hpub, hdrop⟩ := h.census.refused_out hr
    cases h.stakeholder hx with
    | post hat hid =>
      exact absurd (hid ▸ mem_refused.2 ⟨r, rfl, hr⟩) (h.census.not_refused hat)
    | lost hd _ hid => exact hdrop (mem_dropped.2 ⟨_, hid, hd⟩)
    | ticket hk hb hid =>
      obtain ⟨o, ho, -⟩ := h.left_in hk hb
      exact hpub (hid ▸ mem_published.2 ⟨o, ho⟩)
  · cases h.stakeholder hx with
    | post hat hid => exact absurd (hid ▸ mem_dropped.2 ⟨r, rfl, hd⟩) (h.census.over hat).2
    | lost hd' hq hid =>
      obtain rfl := h.census.lost_once hd' hd hid
      exact hno _ hq
    | ticket hk hb hid =>
      obtain ⟨o, ho, -⟩ := h.left_in hk hb
      exact h.census.not_dropped (hid ▸ mem_published.2 ⟨o, ho⟩) (mem_dropped.2 ⟨r, rfl, hd⟩)

/-- After a shutdown every request has ended, however the codec has behaved. -/
theorem Run.all_ended (h : Run (fresh config heap heaps files codecState) log s)
    (hd : s.closing = .done) {o : Order} (ho : .entered id o ∈ log) : Ended log s id := by
  have hclosed := h.orderly.closed_of_done h.census.staffed hd
  have hentering := h.orderly.callers (by simp [hd])
  have hcallers := h.census.callers id
  have hpos : 0 < (log.filterMap Incident.entered?).count id :=
    List.count_pos_iff.2 (List.mem_filterMap.2 ⟨_, ho, rfl⟩)
  have hcases : id ∈ ids (log.filterMap Incident.accepted?) ∨
      id ∈ ids (log.filterMap Incident.refused?) := by
    simp only [← List.count_pos_iff]
    simp only [hentering, ids_nil, List.count_nil] at hcallers
    omega
  rcases hcases with hacc | href
  · obtain ⟨r, rfl, hr⟩ := mem_accepted.1 hacc
    rcases h.settled hd hr with hpub | ⟨q, hid, hq⟩
    · have hsig := (h.census.signaled_iff r.id).2 ⟨hpub, fun lane ↦ by simp [(hclosed lane).1]⟩
      refine .inl (mem_released.1 ((h.census.released_iff r.id).2 ⟨hsig, fun lane ↦ ?_⟩))
      simp [(hclosed lane).1]
    · refine .inr ⟨q, hid, .inr ⟨hq, fun lane ↦ ?_⟩⟩
      simp [Queue.payloads, h.emptied hd lane]
  · obtain ⟨r, hid, hr⟩ := mem_refused.1 href
    exact .inr ⟨r, hid, .inl hr⟩

/-- The books of all heaps in a state of a run. -/
structure Balance (heap : HeapId) (log : List Incident) (s : Service fs codec) : Prop where
  /-- A heap reports how many of its buffers are out, and their bytes. -/
  stats : ∀ k, s.heaps.stats k = ⟨(s.holdings.filter fun x ↦ x.heap = k).length,
    ((s.holdings.filter fun x ↦ x.heap = k).map (·.length)).sum⟩
  /-- Each buffer is in one place. -/
  once : (s.holdings.map fun x ↦ (x.heap, x.id)).Nodup
  /-- An outcome has its buffer only as long as somebody may still come for it. -/
  referenced : ∀ k ∈ s.tickets, ∀ b, k.buffer = some b →
    k.held = true ∨ ∃ lane, s.worker lane = .signaling k.id ∨ s.worker lane = .releasing k.id
  /-- What a request has is from the heap that its order names; for a write, the service's own. -/
  drawn : ∀ id x, (id, x) ∈ s.stakes → ∃ o, .entered id o ∈ log ∧ x.heap = o.heap heap
  taken : ∀ b ∈ s.taken, ∃ id o left, .entered id o ∈ log ∧ .published id left ∈ log ∧
    left.buffer = some b ∧ b.heap = o.heap heap
  /-- No move draws from a heap but for a request whose order names it. -/
  draws : ∀ m t, s.step m = some t → ∀ k, (t.heaps.get k).nextId ≠ (s.heaps.get k).nextId →
    (∃ o, m = .enter o ∧ o.operation = .write ∧ k = heap) ∨
      ∃ lane r o, m = .work lane ∧ r ∈ (s.worker lane).requests ∧ .entered r.id o ∈ log ∧
        k = o.heap heap
  /-- Behind its flag a request has nothing but the buffer of its outcome. -/
  settled : ∀ id x, .signaled id ∈ log → (id, x) ∈ s.stakes → ∃ k b left, k ∈ s.tickets ∧
    k.id = id ∧ k.buffer = some b ∧ b.holding = x ∧ .published id left ∈ log ∧ left.buffer = some b
  /-- Nothing is out once all requests have ended and all that callers had is dropped. -/
  empty : (∀ id o, .entered id o ∈ log → Ended log s id) → (∀ k ∈ s.tickets, k.held = false) →
    s.taken = [] → ∀ k, s.heaps.stats k = ⟨0, 0⟩
  closed : s.closing = .done → ∀ id o, .entered id o ∈ log → Ended log s id

/-- In every state of every run the heaps report what is out, wherever it is. -/
theorem Run.balanced (h : Run (fresh config heap heaps files codecState) log s)
    (hheap : heaps.has heap = true) (hempty : ∀ k, (heaps.get k).live = []) :
    Balance heap log s where
  stats := (h.owns hheap hempty).stats
  once := (h.owns hheap hempty).nodup_keys
  referenced k hk b hb := h.referenced hk hb
  drawn id x hx := h.drawn hx
  taken b hb := by
    obtain ⟨id, left, hleft, hlb⟩ := h.taken_from hb
    obtain ⟨o, ho, hown⟩ := h.published_own hleft hlb
    exact ⟨id, o, left, ho, hleft, hlb, hown⟩
  draws m t hs k hk := by
    rcases step_draws hs hk with ⟨o, rfl, hop, rfl⟩ | ⟨lane, rfl, r, hr, rfl⟩
    · exact .inl ⟨o, rfl, hop, h.frame.2⟩
    · obtain ⟨task, hat⟩ := at_of_requests hr
      obtain ⟨o, ho, hc⟩ := (h.bearing hat).order
      exact .inr ⟨lane, r, o, rfl, hr, ho, hc.heap⟩
  settled id x hs hx := by
    obtain ⟨k, b, hk, rfl, hb, hbx⟩ := h.settled_stake hs hx
    obtain ⟨left, hleft, hlb⟩ := h.left_in hk hb
    exact ⟨k, b, left, hk, rfl, hb, hbx, hleft, hlb⟩
  empty hended hheld htaken k := by
    have hnone : s.stakes = [] := by
      rw [List.eq_nil_iff_forall_not_mem]
      rintro ⟨id, x⟩ hx
      obtain ⟨o, ho, -⟩ := h.drawn hx
      exact h.ended_stake (hended id o ho) hheld hx
    rw [(h.owns hheap hempty).stats k, s.holdings_eq, hnone, htaken]
    rfl
  closed hd id o ho := h.all_ended hd ho

/-- A plain write whose handle is dropped behind the flag, while its worker still has the request. -/
def lingering : List Incident × Service FileSystem.single (.ofPure .verbatim) :=
  ((sample default (.ofPure .verbatim) ()).follow [.enter (.write "f" [1, 2] false false), .push 1,
    .work .file, .work .file, .work .file, .work .file, .forget 1]).get (by decide)

/-- Such a write up to its end, and a compressed read into a heap of its own, whose buffer the caller
has taken. -/
def fetched : List Incident × Service FileSystem.single (.ofPure .verbatim) :=
  ((sample default (.ofPure .verbatim) ()).follow [.newHeap "own",
    .enter (.write "f" [1, 2] false false), .push 1, .work .file, .work .file, .work .file,
    .work .file, .forget 1, .work .file, .enter (.read "f" 1 true true), .push 2, .work .file,
    .work .file, .work .file, .work .codec, .work .codec, .work .codec, .work .codec, .work .codec,
    .work .codec, .ask 2 .buffer]).get (by decide)

theorem balanced_fetched :
    (Heaps.empty.create "").2.has 0 = true ∧ (∀ k, ((Heaps.empty.create "").2.get k).live = []) ∧
      (Run (sample default (.ofPure .verbatim) ()) lingering.1 lingering.2 ∧
        Balance 0 lingering.1 lingering.2 ∧ .signaled 1 ∈ lingering.1 ∧
        (∀ k ∈ lingering.2.tickets, k.held = false) ∧ lingering.2.heaps.stats 0 = ⟨1, 2⟩) ∧
      Run (sample default (.ofPure .verbatim) ()) fetched.1 fetched.2 ∧
      Balance 0 fetched.1 fetched.2 ∧ Ended fetched.1 fetched.2 1 ∧
      fetched.2.heaps.stats 0 = ⟨0, 0⟩ ∧ fetched.2.heaps.stats 1 = ⟨1, 3⟩ := by
  have hlinger : Run (sample default (.ofPure .verbatim) ()) lingering.1 lingering.2 := .of_isSome _
  have hrun : Run (sample default (.ofPure .verbatim) ()) fetched.1 fetched.2 := .of_isSome _
  have hempty : ∀ k, ((Heaps.empty.create "").2.get k).live = [] := by
    intro k
    rw [(Heaps.empty.books_create "" k).1]
    simp [Heaps.get, Heaps.empty, Heap.create]
  refine ⟨rfl, hempty, ⟨hlinger, Run.balanced hlinger rfl hempty, mem_signaled.1 (by decide), ?_,
    by decide⟩, hrun, Run.balanced hrun rfl hempty, .inl (mem_released.1 (by decide)), by decide,
    by decide⟩
  decide

end Service

end QueuedFiles
