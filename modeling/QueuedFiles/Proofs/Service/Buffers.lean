import QueuedFiles.Proofs.Service.Heaps

/-!
The buffers of writes, from one owner to the next: a request keeps its buffer or gives it up, and one
that is dropped gives it up at the latest when its queue is given up.
-/

namespace QueuedFiles

namespace Service

variable {fs : FileSystem} {codec : Codec} {s t : Service fs codec} {log more : List Incident}
  {lane : Lane} {q r : Request} {p : Post} {b : Buffer} {config : Config} {heap : HeapId}
  {heaps : Heaps} {files : fs.State} {codecState : codec.State}

/-- After a transition, what shows the number of a request has come from that request. -/
theorem Transition.origin_unique (ht : Transition s more t) (h : Census log s) (hr : s.At r p)
    {p' : Post} (hq : t.At q p') (he : q.id = r.id) : q = r ∨ Flow s t more r p q p' := by
  rcases ht.origin h.staffed hq with hq' | ⟨x, p₀, hx, hf⟩ | ⟨rfl, ha⟩
  · exact .inl (h.unique hq' hr he).1
  · obtain ⟨rfl, rfl⟩ := h.unique hx hr (hf.frame.1.symm.trans he)
    exact .inr hf
  · have hlt := h.id_lt hr
    cases ha with
    | entered o path =>
      rw [← he] at hlt
      exact absurd hlt (Nat.lt_irrefl _)

theorem Census.not_refused (h : Census log s) (hr : s.At r p) :
    r.id ∉ ids (log.filterMap Incident.refused?) := by
  rw [← List.count_eq_zero]
  have hc := h.callers r.id
  have he := h.entered_le_one r.id
  cases hl : p.lane? with
  | none =>
    cases p <;> simp only [Post.lane?, reduceCtorEq] at hl
    have := List.count_pos_iff.2 (List.mem_map_of_mem (f := (·.id)) hr)
    simp only [ids] at hc ⊢
    omega
  | some lane =>
    have := h.accepted_of_held (hr.held_pos hl)
    omega

/-- A request at a post stays, or goes on by a rule, or is over. -/
theorem Run.forward (h : Run (fresh config heap heaps files codecState) log s)
    (hc : codec.Returns) (ht : Transition s more t) (hr : s.At r p) :
    (∃ q p', t.At q p' ∧ (q = r ∨ Flow s t more r p q p')) ∨
      r.id ∈ more.filterMap Incident.published? ∨ .dropped r ∈ more ∨ .refused r ∈ more := by
  have hs := h.census
  have hct := ht.census hs
  obtain ⟨hpub, hdrop⟩ := hs.over hr
  have hentered := hs.entered_of_at hr
  have hle := hs.entered_le_one r.id
  have hle' := hct.entered_le_one r.id
  have hcallers := hs.callers r.id
  have hcallers' := hct.callers r.id
  have hone : 1 ≤ ((log ++ more).filterMap Incident.entered?).count r.id := by
    rw [List.filterMap_append, List.count_append]
    omega
  have hcases : r.id ∈ ids t.entering ∨
      r.id ∈ ids ((log ++ more).filterMap Incident.accepted?) ∨
      r.id ∈ ids ((log ++ more).filterMap Incident.refused?) := by
    simp only [← List.count_pos_iff]
    omega
  rcases hcases with hm | hm | hm
  · obtain ⟨q, hq, he⟩ := List.mem_map.1 hm
    have hq' : t.At q .caller := hq
    exact .inl ⟨q, .caller, hq', ht.origin_unique hs hr hq' he⟩
  · obtain ⟨x, hx, hxa⟩ := mem_accepted.1 hm
    obtain ⟨place, hplace, -⟩ := hct.one_place hxa
    have hpos : 0 < t.presence (log ++ more) r.id place := by
      rw [← hx]
      omega
    cases place with
    | queue lane =>
      obtain ⟨q, hq, he⟩ := List.mem_map.1 (List.count_pos_iff.1 hpos)
      have hq' : t.At q (.queue lane) := hq
      exact .inl ⟨q, .queue lane, hq', ht.origin_unique hs hr hq' he⟩
    | worker lane =>
      obtain ⟨q, hq, he⟩ := List.mem_map.1 (List.count_pos_iff.1 hpos)
      obtain ⟨task, hat⟩ := at_of_requests hq
      exact .inl ⟨q, _, hat, ht.origin_unique hs hr hat he⟩
    | completed =>
      have hmem := List.count_pos_iff.1 hpos
      rw [List.filterMap_append, List.mem_append] at hmem
      exact .inr (.inl (hmem.resolve_left hpub))
    | dropped =>
      have hmem := List.count_pos_iff.1 hpos
      rw [List.filterMap_append, ids_append, List.mem_append] at hmem
      obtain ⟨z, hz, hzd⟩ := mem_dropped.1 (hmem.resolve_left hdrop)
      refine .inr (.inr (.inl ?_))
      rcases ht.dropped_at hc hzd with ⟨lane, hzat, -⟩ | ⟨lane, onward, hzat, -⟩
      all_goals
        obtain ⟨rfl, -⟩ := hs.unique hzat hr hz
        exact hzd
  · obtain ⟨z, hz, hzr⟩ := mem_refused.1 hm
    refine .inr (.inr (.inr ?_))
    rcases List.mem_append.1 hzr with hzl | hzm
    · exact absurd (mem_refused.2 ⟨z, hz, hzl⟩) (hs.not_refused hr)
    · obtain ⟨rfl, -⟩ := hs.unique (ht.refused_at hzm) hr hz
      exact hzm

/-- A buffer of a write and what has become of it: a request of its number has it, the queue that
was left with it is still there, it has been given up, or its request is finished. -/
def Kept (log : List Incident) (s : Service fs codec) (id : Nat) (b : Buffer) : Prop :=
  (∃ r, r.id = id ∧ r.operation = .write ∧ r.buffer = some b ∧
    ((∃ p, s.At r p) ∨ ∃ lane, (s.queue lane).isOpen = false ∧ r ∈ (s.queue lane).payloads)) ∨
  s.heaps.Dead b ∨ id ∈ log.filterMap Incident.published?

theorem discarded (hr : r ∈ s.fileQueue.payloads ∨ r ∈ s.codecQueue.payloads)
    (hb : r.buffer = some b) (hi : s.heaps.Issued b) :
    ((s.heaps.discardAll s.fileQueue.payloads).discardAll s.codecQueue.payloads).Dead b := by
  rcases hr with hr | hr
  · exact (Heaps.dead_discardAll hi hr hb).onward (Heaps.onward_discardAll _ _)
  · exact Heaps.dead_discardAll (hi.onward (s.heaps.onward_discardAll _)) hr hb

theorem mem_payloads (h : r ∈ s.waiting lane) : r ∈ (s.queue lane).payloads := by
  unfold waiting at h
  split at h
  · exact h
  · cases h

/-- A queue that nobody empties stays as it is until it is given up. -/
theorem Transition.closed_queue (h : Transition s more t) (hs : s.Staffed)
    (ho : (s.queue lane).isOpen = false) :
    t.queue lane = s.queue lane ∨ (t.queue lane).payloads = [] ∧
      ∀ r ∈ (s.queue lane).payloads, ∀ b, r.buffer = some b → s.heaps.Issued b →
        t.heaps.Dead b := by
  have hgone := (hs lane).2 ho
  cases h with
  | accepted r k hr hl hk | handedOff k' k r hw hk | marked k following hm hk =>
    have hne : lane ≠ k := by
      rintro rfl
      simp [hk] at ho
    exact .inl (by simp [hne])
  | taken k r ms hw | stopped k ms hw | left k hw =>
    have hne : lane ≠ k := by
      rintro rfl
      cases hgone.symm.trans hw
    exact .inl (by simp [hne])
  | crashed r room hw =>
    have hne : lane ≠ .codec := by
      rintro rfl
      cases hgone.symm.trans hw
    exact .inl (by simp [hne])
  | dismantled =>
    refine .inr ⟨by cases lane <;> simp [Queue.payloads], fun r hr b hb hi ↦ ?_⟩
    cases lane with
    | file => simpa using discarded (.inl hr) hb hi
    | codec => simpa using discarded (.inr hr) hb hi
  | _ => exact .inl (by simp)

theorem Transition.dropped_buffer (h : Transition s more t) (hc : codec.Returns)
    (hr : .dropped r ∈ more) (hb : r.buffer = some b) (hi : s.heaps.Issued b) :
    (∃ lane, (t.queue lane).isOpen = false ∧ r ∈ (t.queue lane).payloads) ∨ t.heaps.Dead b := by
  cases h with
  | crashed q room hw hx => simp [not_crashes hc] at hx
  | abandoned k onward q =>
    obtain rfl : r = q := by simpa using hr
    refine .inr ?_
    simpa [hb, Heaps.releaseOption] using Heaps.dead_release hi
  | left k =>
    have hq : r ∈ s.waiting k := by simpa using hr
    exact .inl ⟨k, by simp, by simpa using mem_payloads hq⟩
  | dismantled =>
    have hq : r ∈ s.waiting .file ∨ r ∈ s.waiting .codec := by simpa using hr
    refine .inr ?_
    simpa using discarded (hq.imp mem_payloads mem_payloads) hb hi
  | _ => simp at hr

theorem Transition.refused_buffer (h : Transition s more t) (hr : .refused r ∈ more)
    (hb : r.buffer = some b) (hi : s.heaps.Issued b) : t.heaps.Dead b := by
  cases h with
  | refused q hq =>
    obtain rfl : r = q := by simpa using hr
    simpa [hb, Heaps.releaseOption] using Heaps.dead_release hi
  | _ => simp at hr

theorem Run.flow_buffer {p' : Post} (h : Run (fresh config heap heaps files codecState) log s)
    (hf : Flow s t more r p q p') (hop : r.operation = .write) (hb : r.buffer = some b)
    (hi : s.heaps.Issued b) (hown : s.heaps.has r.heap = true) :
    q.buffer = some b ∨ t.heaps.Dead b := by
  cases hf with
  | accepted | prepared | handedOff => exact .inl hb
  | taken => exact .inl hb
  | staged task he hheaps =>
    rcases h.write_buffer he hop hown with hsame | ⟨c, -, -, -, hdead⟩
    · exact .inl (by simpa [hsame] using hb)
    · exact .inr (hheaps ▸ hdead b hb hi)

theorem Run.keeps (h : Run (fresh config heap heaps files codecState) log s) (hc : codec.Returns)
    (hheap : heaps.has heap = true) (ht : Transition s more t) {id : Nat}
    (hi : s.heaps.Issued b) (hk : Kept log s id b) : Kept (log ++ more) t id b := by
  rcases hk with ⟨r, rfl, hop, hb, ⟨p, hr⟩ | ⟨lane, ho, hr⟩⟩ | hd | hp
  · rcases h.forward hc ht hr with ⟨q, p', hq, rfl | hf⟩ | hp | hd | hx
    · exact .inl ⟨q, rfl, hop, hb, .inl ⟨p', hq⟩⟩
    · rcases h.flow_buffer hf hop hb hi (h.has_heap hheap hr) with hqb | hd
      · exact .inl ⟨q, hf.frame.1, hf.frame.2.1.trans hop, hqb, .inl ⟨p', hq⟩⟩
      · exact .inr (.inl hd)
    · exact .inr (.inr (by simp [hp]))
    · rcases ht.dropped_buffer hc hd hb hi with hl | hd
      · exact .inl ⟨r, rfl, hop, hb, .inr hl⟩
      · exact .inr (.inl hd)
    · exact .inr (.inl (ht.refused_buffer hx hb hi))
  · rcases ht.closed_queue h.census.staffed ho with hq | ⟨-, hd⟩
    · exact .inl ⟨r, rfl, hop, hb, .inr ⟨lane, by rwa [hq], by rwa [hq]⟩⟩
    · exact .inr (.inl (hd r hr b hb hi))
  · exact .inr (.inl (hd.onward ht.onward))
  · exact .inr (.inr (by simp [hp]))

theorem Run.kept {u : Service fs codec} {rest : List Incident} {id : Nat}
    (h : Run (fresh config heap heaps files codecState) log u) (hc : codec.Returns)
    (hheap : heaps.has heap = true) (hi : u.heaps.Issued b) (hk : Kept log u id b)
    (hrest : Run u rest s) : Kept (log ++ rest) s id b := by
  induction hrest with
  | refl => rwa [List.append_nil]
  | @step rest v w m hv hs ih =>
    rw [← List.append_assoc]
    exact (h.trans hv).keeps hc hheap (step_transition m hs) (hi.onward hv.onward) ih

theorem Run.emptied (h : Run (fresh config heap heaps files codecState) log s)
    (hd : s.closing = .done) (lane : Lane) : (s.queue lane).messages = [] := by
  induction h with
  | refl => cases hd
  | @step log s t m h hs ih =>
    have ht := step_transition m hs
    by_cases hsd : s.closing = .done
    · rw [((ht.done h.orderly h.census.staffed hsd).2 lane).2.2]
      exact ih hsd
    · exact (ht.dismantling hsd hd lane).2.2

theorem Run.deserted (h : Run (fresh config heap heaps files codecState) log s)
    (hd : s.closing = .done) : ¬ s.At r p := by
  intro hr
  have hp := h.orderly
  have hclosed := hp.closed_of_done h.census.staffed hd
  cases p with
  | caller =>
    have hr' : r ∈ s.entering := hr
    simp [hp.callers (by simp [hd])] at hr'
  | queue lane =>
    have hr' : r ∈ s.waiting lane := hr
    simp [waiting, (hclosed lane).2] at hr'
  | hand lane task =>
    have hr' : s.worker lane = task.worker r := hr
    cases task <;> cases (hclosed lane).1.symm.trans hr'

theorem Run.shown_kept (h : Run (fresh config heap heaps files codecState) log s)
    (hc : codec.Returns) (hheap : heaps.has heap = true) {i : Incident} (hi : i ∈ log)
    (hq : q ∈ i.requests) (hop : q.operation = .write) (hb : q.buffer = some b) :
    b.heap = heap ∧ Kept log s q.id b := by
  obtain ⟨pre, more, rest, u, v, hu, ht, hv, hrest, rfl, hm⟩ := h.split hi
  suffices hsuff : b.heap = heap ∧ v.heaps.Issued b ∧ Kept (pre ++ more) v q.id b from
    ⟨hsuff.1, hv.kept hc hheap hsuff.2.1 hsuff.2.2 hrest⟩
  rcases ht.shown_at hu.census.staffed hm hq with ⟨p, hat⟩ | ⟨p, hat⟩
  · obtain ⟨hbheap, hissued⟩ := hu.issued hheap hat hop hb
    have hk : Kept pre u q.id b := .inl ⟨q, rfl, hop, hb, .inl ⟨p, hat⟩⟩
    exact ⟨hbheap, hissued.onward ht.onward, hu.keeps hc hheap ht hissued hk⟩
  · obtain ⟨hbheap, hissued⟩ := hv.issued hheap hat hop hb
    exact ⟨hbheap, hissued, .inl ⟨q, rfl, hop, hb, .inl ⟨p, hat⟩⟩⟩

/-- After the shutdown the buffers of an unfinished write have been given up. -/
theorem Run.given_up (h : Run (fresh config heap heaps files codecState) log s)
    (hc : codec.Returns) (hheap : heaps.has heap = true) (hd : s.closing = .done) {i : Incident}
    (hi : i ∈ log) (hq : q ∈ i.requests) (hop : q.operation = .write) (hb : q.buffer = some b)
    (hn : q.id ∉ log.filterMap Incident.published?) : b.heap = heap ∧ s.heaps.Dead b := by
  obtain ⟨hbheap, hk⟩ := h.shown_kept hc hheap hi hq hop hb
  refine ⟨hbheap, ?_⟩
  rcases hk with ⟨x, -, -, -, ⟨p, hx⟩ | ⟨lane, -, hx⟩⟩ | hdead | hp
  · exact absurd hx (h.deserted hd)
  · rw [Queue.payloads, h.emptied hd lane] at hx
    cases hx
  · exact hdead
  · exact absurd hp hn

end Service

end QueuedFiles
