import QueuedFiles.Proofs.Service.Replay

/-!
The service is linearizable. However callers and workers take turns, all replies and the files come
out as if the orders had been carried out one at a time, in the order in which the file worker came
to them; and that order keeps to what callers can tell.
-/

namespace QueuedFiles

namespace Service

variable {fs : FileSystem} {codec : Codec.Pure} {config : Config} {heap : HeapId} {heaps : Heaps}
  {files : fs.State} {codecState : Codec.State (.ofPure codec)} {log : List Incident}
  {s : Service fs (.ofPure codec)}

/-- The run of a service from some files on, next to its orders carried out one at a time. -/
structure Linearized (codec : Codec.Pure) (max : Nat) (initial : fs.State) (log : List Incident)
    (s : Service fs (.ofPure codec)) : Prop where
  /-- The sequence has every file stage once, with the order that got the number. -/
  stages : (processed log).map (·.1) = log.filterMap Incident.filed?
  once : ((processed log).map (·.1)).Nodup
  orders : ∀ e ∈ processed log, .entered e.1 e.2 ∈ log
  files : s.files = (Reference.sequence codec fs max initial (processed log)).2
  replies : ∀ id o, .published id o ∈ log →
    (id, o.reply) ∈ (Reference.sequence codec fs max initial (processed log)).1
  /-- Tickets show these replies, but for a buffer that has been handed over. -/
  tickets : ∀ t ∈ s.tickets, ∀ left, t.outcome = some left →
    ∃ reply, (t.id, reply) ∈ (Reference.sequence codec fs max initial (processed log)).1 ∧
      left.result = reply.result ∧ left.size = reply.size ∧
      (left.buffer.map (·.bytes) = reply.bytes ∨ left.buffer = none)
  /-- What is complete before another request is submitted precedes it. -/
  realTime : ∀ i j a b, [i, j].Sublist log → i.Completes a → j.Submits b →
    b ∈ (processed log).map (·.1) → [a, b].Sublist ((processed log).map (·.1))
  /-- Requests that enter at the file queue keep their order. -/
  entry : ∀ q r, [.accepted q, .accepted r].Sublist log →
    entryLane q.operation q.flags = .file → entryLane r.operation r.flags = .file →
    r.id ∈ (processed log).map (·.1) → [q.id, r.id].Sublist ((processed log).map (·.1))
  /-- When a plain request is complete, so are all plain ones that were accepted before it. -/
  plain : ∀ q r, [.accepted q, .accepted r].Sublist log → q.isCompressed = false →
    r.isCompressed = false → ∀ i ∈ log, i.Completes r.id → .signaled q.id ∈ log

theorem Run.entered_of_processed (h : Run (fresh config heap heaps files codecState) log s)
    {e : Nat × Order} (he : e ∈ processed log) : .entered e.1 e.2 ∈ log := by
  obtain ⟨id, hid, hmap⟩ := List.mem_filterMap.1 he
  obtain ⟨⟨o, ho⟩, -⟩ := h.filed_order hid
  rw [h.census.order?_eq ho] at hmap
  cases hmap
  exact ho

theorem Run.processed_nodup (h : Run (fresh config heap heaps files codecState) log s) :
    ((processed log).map (·.1)).Nodup := by
  rw [h.processed_ids]
  exact h.filed_nodup (Codec.ofPure_returns codec)

theorem Run.replied (h : Run (fresh config heap heaps files codecState) log s) {id : Nat}
    {o : Outcome} (ho : .published id o ∈ log) :
    (id, o.reply) ∈ (Reference.sequence codec fs config.maxDecompressedSize.toNat files
      (processed log)).1 := by
  obtain ⟨pre, more, rest, u, v, hu, ht, -, -, rfl, hm⟩ := h.split ho
  obtain ⟨r, lane, hr, rfl, rfl⟩ := ht.published_at hm
  obtain ⟨o, hent, -⟩ := (hu.bearing hr).order
  have ha := hu.answered hr o hent
  rw [Journey.phase_complete (hu.bearing hr).journey] at ha
  have hall := ha.append (((more ++ rest).filterMap Incident.filed?).filterMap
    fun id ↦ (order? (pre ++ (more ++ rest)) id).map (id, ·))
  rw [← hu.processed_append, ← List.append_assoc] at hall
  exact hall

/-- Linearizability, in every state that can be reached and with a codec that is a function. -/
theorem Run.linearized (h : Run (fresh config heap heaps files codecState) log s) :
    Linearized codec config.maxDecompressedSize.toNat files log s where
  stages := h.processed_ids
  once := h.processed_nodup
  orders _ he := h.entered_of_processed he
  files := h.replayed config.maxDecompressedSize.toNat
  replies id o ho := h.replied ho
  tickets := by
    intro t ht left hl
    obtain ⟨o, ho, hresult, hsize, hbuffer⟩ := (h.desk.reflects t ht).filled left hl
    refine ⟨o.reply, h.replied ho, hresult, hsize, hbuffer.imp_left ?_⟩
    intro hb
    rw [hb]
    rfl
  realTime := by
    intro i j a b hij hi hj hb
    rw [h.processed_ids] at hb ⊢
    exact h.precedes hij hi hj hb
  entry := by
    intro q r hqr hq hr hfiled
    rw [h.processed_ids] at hfiled ⊢
    exact h.served_in_order (Codec.ofPure_returns codec) hqr hq hr hfiled
  plain := by
    intro q r hqr hq hr i hi hcomp
    exact h.plain_complete (Codec.ofPure_returns codec) hqr hq hr hi hcomp

/-- A compressed write, a plain one that overtakes it on the way to the file, and a compressed
read. -/
def overtaken : List Incident × Service FileSystem.single (.ofPure .verbatim) :=
  ((sample default (.ofPure .verbatim) ()).follow [.enter (.write "f" [1, 2] true true), .push 1,
    .enter (.write "f" [3] false false), .push 2, .work .file, .work .codec, .work .codec,
    .work .file, .work .file, .work .codec, .work .codec, .enter (.read "f" 0 false true), .push 3,
    .work .file, .work .file, .work .file, .work .file, .work .file, .work .file, .work .file,
    .work .file, .work .file, .work .file, .work .codec, .work .codec, .work .codec, .work .codec,
    .work .codec, .work .codec]).get (by decide)

theorem linearized_overtaken :
    Run (sample default (.ofPure .verbatim) ()) overtaken.1 overtaken.2 ∧
      processed overtaken.1 =
        [(2, .write "f" [3] false false), (1, .write "f" [1, 2] true true), (3, .read "f" 0 false true)] ∧
      (overtaken.1.filterMap fun | .published id o => some (id, o.reply) | _ => none) =
        [(2, ⟨.ok (), some [3], 1⟩), (1, ⟨.ok (), some [1, 2], 2⟩),
          (3, ⟨.ok (), some [3, 1, 2, 0], 3⟩)] ∧
      overtaken.2.files = [3, 1, 2] ∧
      Linearized .verbatim (default : Config).maxDecompressedSize.toNat [] overtaken.1 overtaken.2 :=
  have hrun : Run (sample default (.ofPure .verbatim) ()) overtaken.1 overtaken.2 := .of_isSome _
  ⟨hrun, rfl, rfl, rfl, Run.linearized hrun⟩

end Service

end QueuedFiles
