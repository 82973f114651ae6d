import QueuedFiles.Proofs.Ownership
import QueuedFiles.Proofs.Service.Heaps

/-!
The numbers that heaps hand out are new, whatever else is out there. So room that is reserved can be
given back without a trace, and a buffer in it counts for the bytes that it holds.
-/

namespace QueuedFiles

namespace Heap

/-- All numbers that are out have been handed out before the next. -/
def Numbered (h : Heap) : Prop := ∀ id ∈ h.numbers, id < h.nextId

variable {h : Heap}

theorem Numbered.register (ho : h.Numbered) (n : Nat) : (h.register n).Numbered := by
  intro id hid
  rcases List.mem_cons.1 hid with rfl | hid
  · exact Nat.lt_succ_self _
  · exact Nat.lt_succ_of_lt (ho id hid)

theorem Numbered.resize (ho : h.Numbered) (id n : Nat) : (h.resize id n).Numbered := by
  intro k hk
  rw [numbers_resize] at hk
  exact ho k hk

theorem Numbered.release (ho : h.Numbered) (id : Nat) : (h.release id).Numbered :=
  fun k hk ↦ ho k ((List.filter_sublist.map _).mem hk)

theorem Numbered.number_ne (ho : h.Numbered) : ∀ e ∈ h.live, e.1 ≠ h.nextId := by
  intro e he hid
  have hlt := ho e.1 (List.mem_map_of_mem he)
  omega

/-- What is given back at once has not been counted. -/
theorem Numbered.stats_released (ho : h.Numbered) (n : Nat) :
    ((h.register n).release h.nextId).stats = h.stats := by
  have hlive : ((h.register n).release h.nextId).live = h.live := by
    simp only [Heap.release, Heap.register]
    rw [List.filter_cons_of_neg (by simp), List.filter_eq_self.2]
    intro e he
    simpa using ho.number_ne e he
  rw [stats, stats, hlive]

theorem Numbered.stats_resized (ho : h.Numbered) (n m : Nat) :
    ((h.register n).resize h.nextId m).stats = ⟨h.stats.allocations + 1, m + h.stats.bytes⟩ := by
  have hlive : ((h.register n).resize h.nextId m).live = (h.nextId, m) :: h.live := by
    simp only [Heap.resize, Heap.register]
    rw [List.map_cons, if_pos rfl, map_of_key_ne _ ho.number_ne]
  rw [stats, stats, hlive]
  rfl

end Heap

namespace Heaps

def Numbered (hs : Heaps) : Prop := ∀ k, (hs.get k).Numbered

variable {hs : Heaps}

theorem numbered_empty : empty.Numbered := by
  intro k id hid
  simp [get, empty, Heap.create, Heap.numbers] at hid

theorem Numbered.update (ho : hs.Numbered) (h : HeapId) {f : Heap → Heap}
    (hf : ∀ x : Heap, x.Numbered → (f x).Numbered) : (hs.update h f).Numbered := by
  intro k
  rw [get_update]
  split
  · exact hf _ (ho h)
  · exact ho k

theorem Numbered.create (ho : hs.Numbered) (name : String) : (hs.create name).2.Numbered := by
  intro k id hid
  rw [Heap.numbers, (hs.books_create name k).1] at hid
  rw [(hs.books_create name k).2]
  exact ho k id hid

theorem Numbered.adopt (ho : hs.Numbered) (h : HeapId) (bytes : Bytes) :
    (hs.adopt h bytes).2.Numbered :=
  ho.update h fun _ hx ↦ hx.register _

theorem Numbered.reserve (ho : hs.Numbered) (h : HeapId) (n : Nat) : (hs.reserve h n).2.Numbered :=
  ho.update h fun _ hx ↦ hx.register _

theorem Numbered.fill (ho : hs.Numbered) (x : Reservation) (bytes : Bytes) :
    (hs.fill x bytes).2.Numbered :=
  ho.update x.heap fun _ hx ↦ hx.resize _ _

theorem Numbered.cancel (ho : hs.Numbered) (x : Reservation) : (hs.cancel x).Numbered :=
  ho.update x.heap fun _ hx ↦ hx.release _

theorem Numbered.release (ho : hs.Numbered) (b : Buffer) : (hs.release b).Numbered :=
  ho.update b.heap fun _ hx ↦ hx.release _

theorem Numbered.releaseOption (ho : hs.Numbered) (b : Option Buffer) :
    (hs.releaseOption b).Numbered := by
  cases b with
  | none => exact ho
  | some b => exact ho.release b

theorem Numbered.discardAll (ho : hs.Numbered) (rs : List Request) : (hs.discardAll rs).Numbered := by
  induction rs generalizing hs with
  | nil => exact ho
  | cons r rs ih => exact ih (ho.releaseOption r.buffer)

/-- Two updates of one heap are one. -/
theorem get_update_update (hs : Heaps) (h k : HeapId) (f g : Heap → Heap) :
    ((hs.update h f).update h g).get k =
      if k = h ∧ hs.has h then g (f (hs.get h)) else hs.get k := by
  have hhas : (hs.update h f).has h = hs.has h := by simp [has, Heaps.update]
  rw [get_update, get_update, get_update, hhas]
  by_cases hk : k = h ∧ hs.has h = true
  · rw [if_pos hk, if_pos hk, if_pos ⟨rfl, hk.2⟩]
  · rw [if_neg hk, if_neg hk, if_neg hk]

theorem Numbered.stats_cancelled (ho : hs.Numbered) (h : HeapId) (n : Nat) (k : HeapId) :
    ((hs.reserve h n).2.cancel (hs.reserve h n).1).stats k = hs.stats k := by
  simp only [stats, Heaps.cancel, Heaps.reserve, get_update_update]
  split
  · next hk =>
    rw [hk.1]
    exact (ho h).stats_released n
  · rfl

theorem Numbered.stats_filled (ho : hs.Numbered) {h : HeapId} (hh : hs.has h = true) (n : Nat)
    (bytes : Bytes) (k : HeapId) :
    ((hs.reserve h n).2.fill (hs.reserve h n).1 bytes).2.stats k =
      if k = h then ⟨(hs.stats h).allocations + 1, bytes.length + (hs.stats h).bytes⟩
      else hs.stats k := by
  simp only [stats, Heaps.fill, Heaps.reserve, get_update_update, hh, and_true]
  split
  · exact (ho h).stats_resized n bytes.length
  · rfl

end Heaps

namespace FileStage

theorem run_keeps_numbers {fs : FileSystem} {files : fs.State} {heaps : Heaps} {r : Request}
    (ho : heaps.Numbered) : (run fs files heaps r).1.heaps.Numbered := by
  unfold run
  split
  · simp only [read]
    repeat' split
    all_goals first
      | exact ho
      | exact (ho.reserve _ _).cancel _
      | exact ((ho.reserve _ _).fill _ _).releaseOption _
  · rwa [(write_frame files heaps r).1]

end FileStage

namespace Service

variable {fs : FileSystem} {codec : Codec} {s t : Service fs codec} {log more : List Incident}
  {lane : Lane} {r : Request} {staged : Staged} {a : Telemetry.Activity}
  {added : Option Telemetry.Addition} {files : fs.State} {codecState : codec.State}

theorem StageEnd.keeps_numbers (h : s.StageEnd lane r staged a added files codecState)
    (ho : s.heaps.Numbered) : staged.heaps.Numbered := by
  cases h with
  | @file r staged files hw hs =>
    have hf := @FileStage.run_keeps_numbers fs s.files s.heaps r ho
    rwa [hs] at hf
  | overflow => exact (ho.adopt _ _).releaseOption _
  | @compress _ answer =>
    cases CodecStage.checkedBlock codec.name r answer <;> exact (ho.adopt _ _).releaseOption _
  | decompress => exact (ho.fill _ _).releaseOption _

theorem Transition.keeps_numbers (h : Transition s more t) (ho : s.heaps.Numbered) :
    t.heaps.Numbered := by
  have draw : ∀ o : Order, (o.draw s.heap s.heaps).2.Numbered := by
    intro o
    cases o with
    | read => exact ho
    | write _ bytes => exact ho.adopt _ bytes
  cases h with
  | newHeap name => exact ho.create name
  | turnedAway o => exact (draw o).releaseOption _
  | entered o => exact draw o
  | refused | forgot => exact ho.releaseOption _
  | gaveBack b => exact ho.release b
  | prepared r room heaps hp =>
    cases hp with
    | write => simpa using ho
    | read => simpa using ho.reserve _ _
  | staged lane r st a added files codecState he => simpa using he.keeps_numbers ho
  | crashed r room =>
    cases room with
    | none => simpa using ho.releaseOption _
    | some room => simpa using (ho.cancel room).releaseOption _
  | abandoned | released => simpa using ho.releaseOption _
  | dismantled => simpa using (ho.discardAll _).discardAll _
  | _ => simpa using ho

theorem Run.keeps_numbers (h : Run s log t) (ho : s.heaps.Numbered) : t.heaps.Numbered := by
  induction h with
  | refl => exact ho
  | step m _ hs ih => exact (step_transition m hs).keeps_numbers ih

end Service

end QueuedFiles
