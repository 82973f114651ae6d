import QueuedFiles.Proofs.Service.Buffers

/-!
What is left of the requests once a shutdown is through. All reads and all plain writes are finished.
A compressed write is finished if it came to the file queue before the marker; else it has touched no
file, its flag is never set, and its buffers are given up.
-/

namespace QueuedFiles

namespace Service

variable {fs : FileSystem} {codec : Codec} {s t : Service fs codec} {log more : List Incident}
  {lane : Lane} {q r : Request} {config : Config} {heap : HeapId} {heaps : Heaps}
  {files : fs.State} {codecState : codec.State}

/-- What has been taken was pushed before the marker. -/
theorem Run.pushed_early (h : Run (fresh config heap heaps files codecState) log s)
    (hc : codec.Returns) (hr : .taken lane r ∈ log) :
    ∃ before i after, log = before ++ i :: after ∧ i.push? lane = some (.payload r) ∧
      .marked lane ∉ before := by
  obtain ⟨pre, more, rest, u, v, hu, ht, -, -, rfl, hm⟩ := h.split hr
  obtain ⟨-, hidle, ms, hms⟩ := ht.taken_at hu.census.staffed hm
  have hfifo := hu.fifo hc
  have hdone : u.closing ≠ .done := by
    intro hd
    cases hidle.symm.trans (hu.orderly.closed_of_done hu.census.staffed hd lane).1
  have horder := hfifo.order lane hdone
  rw [hms] at horder
  obtain ⟨early, late, rfl, hearly, hlate⟩ := List.filterMap_eq_append_iff.1 horder.symm
  obtain ⟨others, i, after, rfl, hothers, hi, -⟩ := List.filterMap_eq_cons_iff.1 hlate
  refine ⟨early ++ others, i, after ++ more ++ rest, by simp, hi, ?_⟩
  have hno : pushes lane others = [] := List.filterMap_eq_nil_iff.2 hothers
  have hpulled : pushes lane early = pulls lane (early ++ (others ++ i :: after)) := hearly
  rw [← shutdown_mem_pushes, pushes_append, hno, List.append_nil, hpulled, hfifo.stopped lane, hidle]
  exact Nat.zero_ne_one

theorem Run.inTime_of_published (h : Run (fresh config heap heaps files codecState) log s)
    (hc : codec.Returns) (hr : .accepted r ∈ log) (hop : r.operation = .write)
    (hcomp : r.isCompressed = true) (hp : r.id ∈ log.filterMap Incident.published?) :
    InTime r.id log := by
  obtain ⟨o, ho⟩ := mem_published.1 hp
  obtain ⟨q, lane, hid, -, hb⟩ := h.published_bearing ho
  obtain ⟨hqop, hqcomp⟩ := h.same_order hr hb hid
  have hj := hb.journey
  rw [hqop, hop, hqcomp, hcomp, hid] at hj
  obtain rfl := Journey.write_complete hj
  obtain ⟨x, hx, htaken⟩ := taken_mem_legs.1 (Journey.hand_taken hj)
  obtain ⟨before, i, after, hlog, hi, hm⟩ := h.pushed_early hc htaken
  cases i with
  | handedOff onward y =>
    obtain ⟨rfl, rfl⟩ : onward = .file ∧ y = x := by simpa [Incident.push?] using hi
    exact ⟨before, y, after, hlog, hx, hm⟩
  | accepted y =>
    obtain ⟨hlane, rfl⟩ : entryLane y.operation y.flags = .file ∧ y = x := by
      simpa [Incident.push?] using hi
    have hy : .accepted y ∈ log := by simp [hlog]
    obtain ⟨hyop, hyflags⟩ := h.shown_same hy (List.mem_singleton_self y) hr
      (List.mem_singleton_self r) hx
    have hf : r.flags.contains .useCompression = true := hcomp
    simp [entryLane_eq, hyop, hyflags, hop, hf] at hlane
  | marked k => simp [Incident.push?] at hi
  | _ => cases hi

theorem Run.taken_of_staged (h : Run (fresh config heap heaps files codecState) log s)
    {after : Request} {result : Except Error Unit} (hr : .staged lane r after result ∈ log) :
    .taken lane ∈ legs r.id log := by
  obtain ⟨pre, more, rest, u, v, hu, ht, -, -, rfl, hm⟩ := h.split hr
  obtain ⟨⟨task, hat⟩, -⟩ := ht.staged_at hm
  rw [legs_append, legs_append]
  exact List.mem_append_left _ (List.mem_append_left _ (Journey.hand_taken (hu.bearing hat).journey))

theorem Run.settled (h : Run (fresh config heap heaps files codecState) log s)
    (hd : s.closing = .done) (hr : .accepted r ∈ log) :
    r.id ∈ log.filterMap Incident.published? ∨ ∃ q, q.id = r.id ∧ .dropped q ∈ log := by
  obtain ⟨place, hplace, -⟩ := h.census.one_place hr
  have hpos : 0 < s.presence log r.id place := by omega
  have hclosed := h.orderly.closed_of_done h.census.staffed hd
  cases place with
  | queue lane => simp [presence, waiting, (hclosed lane).2] at hpos
  | worker lane => simp [presence, (hclosed lane).1] at hpos
  | completed => exact .inl (List.count_pos_iff.1 hpos)
  | dropped => exact .inr (mem_dropped.1 (List.count_pos_iff.1 hpos))

/-- The request has been through all its stages, and whoever asks about it gets an answer. -/
structure Finished (log : List Incident) (s : Service fs codec) (r : Request) : Prop where
  signaled : .signaled r.id ∈ log
  ticket : ∃ t, s.ticket? r.id = some t ∧ t.poll = true ∧ t.outcome.isSome = true
  stages : Itinerary r.operation r.isCompressed (stages r.id log)

/-- The request is lost: no flag, no file operation, and none of its buffers is out. -/
structure Abandoned (heap : HeapId) (log : List Incident) (s : Service fs codec) (r : Request) :
    Prop where
  silent : .signaled r.id ∉ log
  ticket : ∃ t, s.ticket? r.id = some t ∧ t.poll = false ∧ t.outcome = none
  files : ∀ q after result, .staged .file q after result ∈ log → q.id ≠ r.id
  buffers : ∀ i ∈ log, ∀ q ∈ i.requests, q.id = r.id → ∀ b, q.buffer = some b →
    b.heap = heap ∧ ¬ s.heaps.IsLive b

theorem Run.finished (h : Run (fresh config heap heaps files codecState) log s)
    (hd : s.closing = .done) (hr : .accepted r ∈ log)
    (hp : r.id ∈ log.filterMap Incident.published?) : Finished log s r := by
  have hclosed := h.orderly.closed_of_done h.census.staffed hd
  have hsig : r.id ∈ log.filterMap Incident.signaled? := by
    refine (h.census.signaled_iff r.id).2 ⟨hp, ?_⟩
    intro lane
    simp [(hclosed lane).1]
  obtain ⟨t, ht, hid, href⟩ := h.ticket_of_accepted hr
  refine ⟨mem_signaled.1 hsig, ⟨t, ht, href.signaled.2 (hid ▸ hsig), ?_⟩,
    h.itinerary_of_completed hr hp⟩
  by_contra hn
  exact href.pending (by simpa using hn) (hid ▸ hp)

theorem Run.abandoned (h : Run (fresh config heap heaps files codecState) log s)
    (hc : codec.Returns) (hheap : heaps.has heap = true) (hd : s.closing = .done)
    (hr : .accepted r ∈ log) (hq : .dropped q ∈ log) (hid : q.id = r.id) :
    Abandoned heap log s r := by
  obtain ⟨hop, -, hno, -⟩ := h.dropped_late hc hq
  have hpub : r.id ∉ log.filterMap Incident.published? := by
    have hp := h.census.places r.id
    have hle := h.census.accepted_le_one r.id
    have hdrop := List.count_pos_iff.2 (mem_dropped.2 ⟨q, hid, hq⟩)
    rw [← List.count_eq_zero]
    omega
  have hsig : r.id ∉ log.filterMap Incident.signaled? :=
    fun hs ↦ hpub ((h.census.signaled_iff r.id).1 hs).1
  obtain ⟨t, ht, htid, href⟩ := h.ticket_of_accepted hr
  refine ⟨fun hs ↦ hsig (mem_signaled.2 hs), ⟨t, ht, ?_, ?_⟩, ?_, ?_⟩
  · rw [Ticket.poll, Bool.eq_false_iff, ne_eq, href.signaled, htid]
    exact hsig
  · cases ho : t.outcome with
    | none => rfl
    | some left =>
      obtain ⟨o, hm, -⟩ := href.filled left ho
      exact absurd (mem_published.2 ⟨o, htid ▸ hm⟩) hpub
  · intro x after result hx he
    refine hno ?_
    rw [hid, ← he]
    exact h.taken_of_staged hx
  · intro i hi x hx he b hb
    have hxop := (h.shown_same hi hx hq (List.mem_singleton_self q) (he.trans hid.symm)).1
    obtain ⟨hbheap, hdead⟩ := h.given_up hc hheap hd hi hx (hxop.trans hop) hb (he ▸ hpub)
    exact ⟨hbheap, hdead.not_live⟩

/-- What a shutdown may lose: compressed writes that were not handed off before the marker, and
nothing else. -/
theorem Run.shutdown_fate (h : Run (fresh config heap heaps files codecState) log s)
    (hc : codec.Returns) (hheap : heaps.has heap = true) (hd : s.closing = .done)
    (hr : .accepted r ∈ log) :
    (r.operation = .read ∨ r.isCompressed = false → Finished log s r) ∧
    (r.operation = .write → r.isCompressed = true →
      (Finished log s r ↔ InTime r.id log) ∧ (¬ InTime r.id log → Abandoned heap log s r)) := by
  have hover := h.settled hd hr
  have hlost : ∀ q, q.id = r.id → .dropped q ∈ log →
      r.operation = .write ∧ r.isCompressed = true ∧ ¬ InTime r.id log := by
    intro q hid hq
    obtain ⟨hop, hcomp, -, hlate⟩ := h.dropped_late hc hq
    obtain ⟨hsame, hflags⟩ := h.shown_same hr (List.mem_singleton_self r) hq
      (List.mem_singleton_self q) hid.symm
    refine ⟨hsame.trans hop, ?_, hid ▸ hlate⟩
    rw [Request.isCompressed, hflags]
    exact hcomp
  refine ⟨?_, ?_⟩
  · intro hsafe
    rcases hover with hp | ⟨q, hid, hq⟩
    · exact h.finished hd hr hp
    · obtain ⟨hop, hcomp, -⟩ := hlost q hid hq
      simp [hop, hcomp] at hsafe
  · intro hop hcomp
    refine ⟨⟨?_, ?_⟩, ?_⟩
    · intro hfin
      have hsig := mem_signaled.2 hfin.signaled
      exact h.inTime_of_published hc hr hop hcomp ((h.census.signaled_iff r.id).1 hsig).1
    · intro hin
      rcases hover with hp | ⟨q, hid, hq⟩
      · exact h.finished hd hr hp
      · exact absurd hin (hlost q hid hq).2.2
    · intro hlate
      rcases hover with hp | ⟨q, hid, hq⟩
      · exact absurd (h.inTime_of_published hc hr hop hcomp hp) hlate
      · exact h.abandoned hc hheap hd hr hq hid

/-- Two compressed writes and a shutdown: the first is handed off before the marker, the second comes
out of the codec after the file worker has gone. -/
def closed : List Incident × Service FileSystem.single (.ofPure .verbatim) :=
  ((sample default (.ofPure .verbatim) ()).follow [.enter (.write "f" [1] true false), .push 1,
    .work .codec, .work .codec, .work .codec, .work .codec, .enter (.write "f" [2] true true), .push 2,
    .close, .close, .work .file, .work .file, .work .file, .work .file, .work .file, .work .file,
    .work .file, .close, .work .codec, .work .codec, .work .codec, .work .codec, .close, .work .codec,
    .work .codec, .close, .close]).get (by decide)

theorem shutdown_fate_closed :
    Run (sample default (.ofPure .verbatim) ()) closed.1 closed.2 ∧ closed.2.closing = .done ∧
      ∃ r q, r.id = 1 ∧ .accepted r ∈ closed.1 ∧ Finished closed.1 closed.2 r ∧
        q.id = 2 ∧ .accepted q ∈ closed.1 ∧ Abandoned 0 closed.1 closed.2 q := by
  have hrun : Run (sample default (.ofPure .verbatim) ()) closed.1 closed.2 := .of_isSome _
  have hdone : closed.2.closing = .done := by decide
  have hshown : (closed.1.filterMap Incident.accepted?).map
      (fun r ↦ (r.id, r.operation, r.isCompressed)) = [(1, .write, true), (2, .write, true)] := by
    decide
  have hall : ∀ id ∈ [1, 2], ∃ r, r.id = id ∧ .accepted r ∈ closed.1 ∧
      (Finished closed.1 closed.2 r ↔ InTime id closed.1) ∧
      (¬ InTime id closed.1 → Abandoned 0 closed.1 closed.2 r) := by
    intro id hid
    have hm : (id, Operation.write, true) ∈ [(1, Operation.write, true), (2, .write, true)] := by
      simpa using hid
    rw [← hshown, List.mem_map] at hm
    obtain ⟨r, hr, he⟩ := hm
    obtain ⟨rfl, hop, hcomp⟩ : r.id = id ∧ r.operation = .write ∧ r.isCompressed = true := by
      simpa using he
    have hacc := accepted_of_mem hr
    have hfate := Run.shutdown_fate hrun (Codec.ofPure_returns _) rfl hdone hacc
    exact ⟨r, rfl, hacc, hfate.2 hop hcomp⟩
  obtain ⟨r, hr, hacc, hfin, hlost⟩ := hall 1 (by decide)
  obtain ⟨q, hq, hacc', hfin', hlost'⟩ := hall 2 (by decide)
  refine ⟨hrun, hdone, r, q, hr, hacc, ?_, hq, hacc', ?_⟩
  · refine hfin.2 (by_contra fun hn ↦ (hlost hn).silent ?_)
    exact mem_signaled.1 (hr ▸ by decide)
  · refine hlost' fun hin ↦ ?_
    have hsig := mem_signaled.2 (hfin'.2 hin).signaled
    rw [hq] at hsig
    exact absurd hsig (by decide)

end Service

end QueuedFiles
