import QueuedFiles.Proofs.Service.Fifo

/-!
What a shutdown may lose: a compressed write that comes to the file queue behind the marker, or
after the file worker has gone. Nothing else comes so late.
-/

namespace QueuedFiles

/-- The hand-off to the file queue is through before that queue gets its marker. -/
def InTime (id : Nat) (log : List Incident) : Prop :=
  ∃ before q after, log = before ++ .handedOff .file q :: after ∧ q.id = id ∧
    .marked .file ∉ before

theorem InTime.handedOff {id : Nat} {log : List Incident} (h : InTime id log) :
    .handedOff .file ∈ legs id log := by
  obtain ⟨before, q, after, rfl, hid, -⟩ := h
  exact handedOff_mem_legs.2 ⟨q, hid, by simp⟩

theorem InTime.of_append {id : Nat} {log more : List Incident} (h : InTime id (log ++ more))
    (hl : legs id more = []) : InTime id log := by
  obtain ⟨before, q, after, he, hid, hm⟩ := h
  have hno : .handedOff .file q ∉ more := by
    intro hq
    have := handedOff_mem_legs.2 ⟨q, hid, hq⟩
    simp [hl] at this
  rcases List.append_eq_append_iff.1 he with ⟨a, -, rfl⟩ | ⟨c, rfl, hc⟩
  · simp at hno
  · cases c with
    | nil =>
      rw [List.nil_append] at hc
      simp [← hc] at hno
    | cons i c =>
      obtain ⟨rfl, -⟩ := List.cons.inj hc
      exact ⟨before, q, c, rfl, hid, hm⟩

namespace Service

variable {fs : FileSystem} {codec : Codec} {s t : Service fs codec} {log more : List Incident}
  {lane onward : Lane} {q r : Request} {config : Config} {heap : HeapId} {heaps : Heaps}
  {files : fs.State} {codecState : codec.State}

theorem Protocol.file_gone (h : Protocol log s) (hm : s.closing.marked .codec = true) :
    s.worker .file = .gone := by
  refine h.joined .file ?_
  cases hc : s.closing <;> simp_all [Closing.marked, Closing.joined]

theorem Protocol.callers_of_marked (h : Protocol log s) (hm : s.closing.marked lane = true) :
    s.entering = [] := by
  refine h.callers ?_
  intro hn
  simp [hn, Closing.marked] at hm

/-- What comes to a queue behind its marker is a compressed write on its way to the file. -/
theorem Run.late_push (h : Run (fresh config heap heaps files codecState) log s)
    (hc : codec.Returns) {i : Incident} (hi : i ∈ log) (hp : i.push? lane = some (.payload r))
    (hearly : ∀ before after, log = before ++ i :: after → .marked lane ∈ before) :
    lane = .file ∧ r.operation = .write ∧ r.isCompressed = true := by
  obtain ⟨pre, more, rest, u, v, hu, ht, -, -, rfl, hm⟩ := h.split hi
  have hprot := hu.protocol hc
  have hmarked : more = [i] → u.closing.marked lane = true := by
    rintro rfl
    exact (hprot.marks lane).1 (hearly pre rest (by simp))
  cases i with
  | accepted q =>
    have hq := ht.accepted_at hm
    have hone := ht.single hm fun _ hd ↦ by cases hd
    have hq' : q ∈ u.entering := hq
    simp [hprot.callers_of_marked (hmarked hone)] at hq'
  | handedOff onward q =>
    obtain ⟨k, hq⟩ := ht.handedOff_at hm
    have hone := ht.single hm fun _ hd ↦ by cases hd
    obtain ⟨rfl, rfl⟩ : onward = lane ∧ q = r := by simpa [Incident.push?] using hp
    rcases Journey.routing (hu.bearing hq).journey with ⟨hcomp, ⟨-, rfl, rfl⟩ | ⟨hop, rfl, rfl⟩⟩
    · have hg := hprot.file_gone (hmarked hone)
      cases hg.symm.trans hq
    · exact ⟨rfl, hop, hcomp⟩
  | marked k => simp [Incident.push?] at hp
  | _ => cases hp

theorem Run.behind (h : Run (fresh config heap heaps files codecState) log s) (hc : codec.Returns)
    (hr : s.At r (.queue lane)) (hw : (s.worker lane).stopping = 1) {i : Incident}
    (hid : ∃ q, q.id = r.id ∧ i.push? lane = some (.payload q)) (before after : List Incident)
    (hlog : log = before ++ i :: after) : .marked lane ∈ before := by
  by_contra hm
  obtain ⟨q, hq, hp⟩ := hid
  have ht := (h.fifo hc).taken_of_early hlog hp hm hw
  exact Journey.queue_untaken (h.bearing hr).journey (taken_mem_legs.2 ⟨q, hq, ht⟩)

theorem mem_messages_of_waiting (hr : r ∈ s.waiting lane) :
    (s.queue lane).isOpen = true ∧ .payload r ∈ (s.queue lane).messages := by
  have hopen : (s.queue lane).isOpen = true := by
    by_contra hn
    simp [waiting, hn] at hr
  refine ⟨hopen, ?_⟩
  rw [waiting_of_open hopen, Queue.payloads, List.mem_filterMap] at hr
  obtain ⟨m, hm, he⟩ := hr
  cases m <;> simp only [Message.payload?, reduceCtorEq, Option.some.injEq] at he
  exact he ▸ hm

/-- What waits for a worker that will take nothing more is a compressed write which has been handed
off, but not in time. -/
theorem Run.waiting_late (h : Run (fresh config heap heaps files codecState) log s)
    (hc : codec.Returns) (hr : s.At r (.queue lane))
    (hw : s.worker lane = .leaving ∨ s.closing = .dismantling) :
    r.operation = .write ∧ r.isCompressed = true ∧ .taken .file ∉ legs r.id log ∧
      .handedOff .file ∈ legs r.id log ∧ ¬ InTime r.id log := by
  have hprot := h.protocol hc
  obtain ⟨hopen, hmess⟩ := mem_messages_of_waiting hr
  have hstop : (s.worker lane).stopping = 1 := by
    rcases hw with hw | hw
    · simp [hw, Worker.stopping]
    · have hg := hprot.joined lane (by rw [hw]; rfl)
      rw [(h.census.staffed lane).1 hg] at hopen
      cases hopen
  have hnd : s.closing ≠ .done := by
    intro hdone
    rw [(hprot.orderly.closed_of_done h.census.staffed hdone lane).2] at hopen
    cases hopen
  have hpush : .payload r ∈ pushes lane log := by
    rw [← (h.fifo hc).order lane hnd]
    exact List.mem_append_right _ hmess
  obtain ⟨i, hi, hip⟩ := List.mem_filterMap.1 hpush
  obtain ⟨rfl, hop, hcomp⟩ := h.late_push hc hi hip (h.behind hc hr hstop ⟨r, rfl, hip⟩)
  have hj := (h.bearing hr).journey
  refine ⟨hop, hcomp, Journey.queue_untaken hj, ?_, ?_⟩
  · rw [hop, hcomp] at hj
    exact Journey.requeued_handedOff hj
  · rintro ⟨before, q, after, hlog, hid, hno⟩
    exact hno (h.behind hc hr hstop ⟨q, hid, by simp [Incident.push?]⟩ before after hlog)

/-- What cannot be handed off any more is a compressed write. -/
theorem Run.routing_late (h : Run (fresh config heap heaps files codecState) log s)
    (hc : codec.Returns) (hr : s.At r (.hand lane (.routing (.handOff onward))))
    (ho : (s.queue onward).isOpen = false) :
    r.operation = .write ∧ r.isCompressed = true ∧ .taken .file ∉ legs r.id log ∧
      .handedOff .file ∉ legs r.id log := by
  have hprot := h.protocol hc
  have hj := (h.bearing hr).journey
  rcases Journey.routing hj with ⟨hcomp, ⟨-, rfl, rfl⟩ | ⟨hop, rfl, rfl⟩⟩
  · have hg := (h.census.staffed .codec).2 ho
    have hstop : (s.worker .codec).stopping = 1 := by simp [hg, Worker.stopping]
    have hmark := (hprot.marked_of_stopping hstop).1
    cases (hprot.file_gone hmark).symm.trans hr
  · rw [hop, hcomp] at hj
    obtain ⟨hh, hn⟩ := Journey.not_handedOff hj
    exact ⟨hop, hcomp, hn, hh⟩

/-- Only a compressed write that is not in time is dropped, and the file worker never takes it. -/
theorem Run.dropped_late (h : Run (fresh config heap heaps files codecState) log s)
    (hc : codec.Returns) (hd : .dropped r ∈ log) :
    r.operation = .write ∧ r.isCompressed = true ∧ .taken .file ∉ legs r.id log ∧
      ¬ InTime r.id log := by
  obtain ⟨pre, more, rest, u, v, hu, ht, hv, hrest, rfl, hm⟩ := h.split hd
  have hover : r.id ∈ ids ((pre ++ more).filterMap Incident.dropped?) :=
    mem_dropped.2 ⟨r, rfl, List.mem_append_right _ hm⟩
  have hl : legs r.id (more ++ rest) = [] := by
    rw [legs_append, ht.legs_dropped hm, hv.over hrest (.inr hover)]
    rfl
  rw [List.append_assoc, legs_append, hl, List.append_nil]
  suffices hsuff : r.operation = .write ∧ r.isCompressed = true ∧ .taken .file ∉ legs r.id pre ∧
      ¬ InTime r.id pre from
    ⟨hsuff.1, hsuff.2.1, hsuff.2.2.1, fun hin ↦ hsuff.2.2.2 (hin.of_append hl)⟩
  rcases ht.dropped_at hc hm with ⟨lane, hr, hw⟩ | ⟨lane, onward, hr, ho⟩
  · obtain ⟨hop, hcomp, hn, -, hlate⟩ := hu.waiting_late hc hr hw
    exact ⟨hop, hcomp, hn, hlate⟩
  · obtain ⟨hop, hcomp, hn, hno⟩ := hu.routing_late hc hr ho
    exact ⟨hop, hcomp, hn, fun hin ↦ hno hin.handedOff⟩

end Service

end QueuedFiles
