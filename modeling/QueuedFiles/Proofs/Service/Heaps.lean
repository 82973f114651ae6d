import QueuedFiles.Proofs.Heap
import QueuedFiles.Proofs.Service.Losses

/-!
The heaps of a service only go on. The buffers of writes come from the service's own heap, and a
stage that puts a new buffer in the place of another gives the other up.
-/

namespace QueuedFiles

namespace FileStage

variable {fs : FileSystem} (files : fs.State) (heaps : Heaps) (r : Request)

theorem read_onward : heaps.Onward (read fs files heaps r).1.heaps := by
  simp only [read]
  repeat' split
  all_goals first
    | exact .refl heaps
    | exact (heaps.onward_reserve _ _).trans (Heaps.onward_cancel _ _)
    | exact ((heaps.onward_reserve _ _).trans (Heaps.onward_fill _ _ _)).trans
        (Heaps.onward_releaseOption _ _)

theorem write_frame : (write fs files heaps r).1.heaps = heaps ∧
    (write fs files heaps r).1.request.buffer = r.buffer := by
  simp only [write]
  repeat' split
  all_goals exact ⟨rfl, rfl⟩

theorem run_onward : heaps.Onward (run fs files heaps r).1.heaps := by
  unfold run
  split
  · exact read_onward files heaps r
  · rw [(write_frame files heaps r).1]
    exact .refl heaps

end FileStage

namespace CodecStage

theorem overflow_onward (max : Nat) (heaps : Heaps) (r : Request) :
    heaps.Onward (overflow max heaps r).heaps :=
  (heaps.onward_adopt _ _).trans (Heaps.onward_releaseOption _ _)

theorem decompressed_onward (max : Nat) (heaps : Heaps) (r : Request) (room : Reservation)
    (written : Bytes) (reported : Except BlockError Nat) :
    heaps.Onward (decompressed max heaps r room written reported).heaps :=
  (heaps.onward_fill _ _).trans (Heaps.onward_releaseOption _ _)

theorem compressed_onward (heaps : Heaps) (r : Request) (block : Except BlockError Bytes) :
    heaps.Onward (compressed heaps r block).heaps := by
  cases block <;> exact (heaps.onward_adopt _ _).trans (Heaps.onward_releaseOption _ _)

theorem compressed_buffer {heaps : Heaps} {r : Request} (block : Except BlockError Bytes)
    (hh : heaps.has r.heap = true) :
    ∃ b, (compressed heaps r block).request.buffer = some b ∧ b.heap = r.heap ∧
      (compressed heaps r block).heaps.Issued b ∧
      ∀ old, r.buffer = some old → heaps.Issued old → (compressed heaps r block).heaps.Dead old := by
  have key : ∀ bytes, ((heaps.adopt r.heap bytes).2.releaseOption r.buffer).Issued
      (heaps.adopt r.heap bytes).1 ∧ ∀ old, r.buffer = some old → heaps.Issued old →
        ((heaps.adopt r.heap bytes).2.releaseOption r.buffer).Dead old := by
    intro bytes
    refine ⟨(heaps.issued_adopt hh bytes).onward (Heaps.onward_releaseOption _ _), ?_⟩
    intro old ho hold
    rw [ho]
    exact Heaps.dead_release (hold.onward (heaps.onward_adopt _ _))
  cases block with
  | ok bytes => exact ⟨_, rfl, rfl, key bytes⟩
  | error e => exact ⟨_, rfl, rfl, key _⟩

end CodecStage

theorem Order.draw_onward (o : Order) (own : HeapId) (heaps : Heaps) :
    heaps.Onward (o.draw own heaps).2 := by
  cases o with
  | read => exact .refl heaps
  | write _ bytes => exact heaps.onward_adopt own bytes

namespace Service

variable {fs : FileSystem} {codec : Codec} {s t : Service fs codec} {log more : List Incident}
  {lane : Lane} {q r : Request} {p : Post} {b : Buffer} {config : Config} {heap : HeapId}
  {heaps : Heaps} {files : fs.State} {codecState : codec.State} {staged : Staged}
  {a : Telemetry.Activity} {added : Option Telemetry.Addition} {files' : fs.State}
  {codecState' : codec.State}

theorem StageEnd.onward (h : s.StageEnd lane r staged a added files codecState) :
    s.heaps.Onward staged.heaps := by
  cases h with
  | @file r staged files hw hs =>
    have hf := FileStage.run_onward s.files s.heaps r
    rwa [hs] at hf
  | overflow => exact CodecStage.overflow_onward _ _ _
  | compress => exact CodecStage.compressed_onward _ _ _
  | decompress => exact CodecStage.decompressed_onward _ _ _ _ _ _

theorem Transition.onward (h : Transition s more t) : s.heaps.Onward t.heaps := by
  cases h with
  | newHeap name => exact s.heaps.onward_create name
  | turnedAway o => exact (o.draw_onward _ _).trans (Heaps.onward_releaseOption _ _)
  | entered o => exact o.draw_onward _ _
  | refused | forgot => exact Heaps.onward_releaseOption _ _
  | gaveBack b => exact Heaps.onward_release _ b
  | prepared r room heaps hp =>
    cases hp with
    | write => simpa using Heaps.Onward.refl _
    | read => simpa using Heaps.onward_reserve _ _ _
  | staged lane r st a added files codecState he => simpa using he.onward
  | crashed r room =>
    cases room with
    | none => simpa using Heaps.onward_releaseOption _ _
    | some room =>
      simpa using (Heaps.onward_cancel _ room).trans (Heaps.onward_releaseOption _ _)
  | abandoned | released => simpa using Heaps.onward_releaseOption _ _
  | dismantled =>
    simpa using (Heaps.onward_discardAll _ _).trans (Heaps.onward_discardAll _ _)
  | _ => simpa using Heaps.Onward.refl _

theorem Run.onward (h : Run s log t) : s.heaps.Onward t.heaps := by
  induction h with
  | refl => exact .refl _
  | step m _ hs ih => exact ih.trans (step_transition m hs).onward

/-- An order names a heap that is there when it is taken, and heaps stay. -/
theorem Run.has_ordered (h : Run (fresh config heap heaps files codecState) log s)
    (hheap : heaps.has heap = true) {id : Nat} {o : Order} (ho : .entered id o ∈ log) :
    s.heaps.has (o.heap heap) = true := by
  obtain ⟨pre, more, rest, u, v, hu, ht, -, hrest, rfl, hm⟩ := h.split ho
  have hnamed : u.heaps.has (o.heap heap) = true := by
    cases ht with
    | entered o' path hc ha =>
      obtain ⟨-, rfl⟩ : id = u.nextId ∧ o = o' := by simpa using hm
      cases o with
      | read => exact ha
      | write => exact hu.onward.has hheap
    | _ => simp at hm
  exact hrest.onward.has (ht.onward.has hnamed)

theorem Run.has_heap (h : Run (fresh config heap heaps files codecState) log s)
    (hheap : heaps.has heap = true) (hr : s.At r p) : s.heaps.has r.heap = true := by
  obtain ⟨o, ho, hc⟩ := (h.bearing hr).order
  rw [hc.heap]
  exact h.has_ordered hheap ho

/-- A write leaves a stage with the buffer it came with, or with a new one in its place. -/
theorem Run.write_buffer (h : Run (fresh config heap heaps files codecState) log s)
    (he : s.StageEnd lane r staged a added files' codecState') (hop : r.operation = .write)
    (hh : s.heaps.has r.heap = true) :
    staged.request.buffer = r.buffer ∨ ∃ b, staged.request.buffer = some b ∧ b.heap = r.heap ∧
      staged.heaps.Issued b ∧
      ∀ old, r.buffer = some old → s.heaps.Issued old → staged.heaps.Dead old := by
  cases he with
  | @file r staged files hw hs =>
    have hf := (FileStage.write_frame s.files s.heaps r).2
    have hs' : FileStage.write fs s.files s.heaps r = (staged, files') := by
      simpa only [FileStage.run, hop] using hs
    rw [hs'] at hf
    exact .inl hf
  | overflow hw ho => cases hop.symm.trans ho
  | compress => exact .inr (CodecStage.compressed_buffer _ hh)
  | @decompress r room d state hw hd =>
    cases hop.symm.trans (h.decompressing hw).1

/-- The buffer of a write is drawn from the service's own heap and has its number from there. -/
theorem Run.issued (h : Run (fresh config heap heaps files codecState) log s)
    (hheap : heaps.has heap = true) (hr : s.At r p) (hop : r.operation = .write)
    (hb : r.buffer = some b) : b.heap = heap ∧ s.heaps.Issued b := by
  induction h generalizing r p b with
  | refl =>
    cases p with
    | caller => simp [At, fresh] at hr
    | queue lane =>
      cases lane <;> simp [At, fresh, waiting, queue, Queue.create, Queue.payloads] at hr
    | hand lane task => cases lane <;> cases task <;> cases hr
  | @step log s t m h hs ih =>
    have ht := step_transition m hs
    generalize s.record m = more at ht
    have hown : s.heaps.has heap = true := h.onward.has hheap
    rcases ht.origin h.census.staffed hr with hr' | ⟨q, p₀, hq, hf⟩ | ⟨rfl, ha⟩
    · obtain ⟨hheap, hi⟩ := ih hr' hop hb
      exact ⟨hheap, hi.onward ht.onward⟩
    · have hqop : q.operation = .write := hf.frame.2.1.symm.trans hop
      have hqheap : q.heap = heap := by
        obtain ⟨o, -, hc⟩ := (h.bearing hq).order
        have hoop : o.operation = .write := hc.operation.symm.trans hqop
        rw [hc.heap]
        cases o with
        | read => cases hoop
        | write => rfl
      have hqb : ∀ b, q.buffer = some b → b.heap = heap ∧ s.heaps.Issued b :=
        fun b hb ↦ ih hq hqop hb
      cases hf with
      | accepted | prepared | handedOff | taken =>
        obtain ⟨he, hi⟩ := hqb b hb
        exact ⟨he, hi.onward ht.onward⟩
      | @staged lane q staged a added files' codecState' task he hheaps =>
        have hb' : staged.request.buffer = some b := by simpa using hb
        rcases h.write_buffer he hqop (hqheap ▸ hown) with hsame | ⟨c, hc, hcheap, hissued, -⟩
        · obtain ⟨hbheap, hi⟩ := hqb b (hsame ▸ hb')
          exact ⟨hbheap, hi.onward ht.onward⟩
        · obtain rfl := Option.some.inj (hc.symm.trans hb')
          exact ⟨hcheap.trans hqheap, hheaps ▸ hissued⟩
    · cases ha with
      | entered o path hp hheaps =>
        cases o with
        | read => cases hop
        | write text bytes compressed append =>
          obtain rfl := Option.some.inj hb
          refine ⟨h.frame.2, ?_⟩
          rw [hheaps]
          exact s.heaps.issued_adopt (h.frame.2 ▸ hown) bytes

end Service

end QueuedFiles
