import QueuedFiles.Service.Stage

/-!
What the stages leave alone: a stage changes the buffer and the size of its request and nothing else,
and routing adds to that the failure and the place in the next queue.
-/

namespace QueuedFiles

/-- The request `k` with another buffer and another size only. -/
structure Request.Resized (k r : Request) : Prop where
  id : r.id = k.id
  operation : r.operation = k.operation
  path : r.path = k.path
  flags : r.flags = k.flags
  result : r.result = k.result
  heap : r.heap = k.heap
  progress : r.progress = k.progress

/-- A file that comes in one piece is read to its end. -/
theorem readFull_whole (content : Bytes) : readFull content.length [.bytes content] = .ok content := by
  cases content with
  | nil => rfl
  | cons b rest => simp [readFull, Except.map]

namespace FileStage

variable {fs : FileSystem} (files : fs.State) (heaps : Heaps) (r : Request)

theorem read_resized : r.Resized (read fs files heaps r).1.request := by
  simp only [read]
  repeat' split
  all_goals exact ⟨rfl, rfl, rfl, rfl, rfl, rfl, rfl⟩

theorem write_resized : r.Resized (write fs files heaps r).1.request := by
  simp only [write]
  repeat' split
  all_goals exact ⟨rfl, rfl, rfl, rfl, rfl, rfl, rfl⟩

theorem run_resized : r.Resized (run fs files heaps r).1.request := by
  unfold run
  split
  · exact read_resized files heaps r
  · exact write_resized files heaps r

end FileStage

namespace CodecStage

theorem overflow_resized (max : Nat) (heaps : Heaps) (r : Request) :
    r.Resized (overflow max heaps r).request :=
  ⟨rfl, rfl, rfl, rfl, rfl, rfl, rfl⟩

theorem decompressed_resized (max : Nat) (heaps : Heaps) (r : Request) (room : Reservation)
    (written : Bytes) (reported : Except BlockError Nat) :
    r.Resized (decompressed max heaps r room written reported).request :=
  ⟨rfl, rfl, rfl, rfl, rfl, rfl, rfl⟩

theorem compressed_resized (heaps : Heaps) (r : Request) (block : Except BlockError Bytes) :
    r.Resized (compressed heaps r block).request := by
  cases block <;> exact ⟨rfl, rfl, rfl, rfl, rfl, rfl, rfl⟩

end CodecStage

namespace Staged

variable (staged : Staged) (lane : Lane)

@[simp] theorem settled_frame :
    staged.settled.id = staged.request.id ∧
    staged.settled.operation = staged.request.operation ∧
    staged.settled.path = staged.request.path ∧ staged.settled.flags = staged.request.flags ∧
    staged.settled.buffer = staged.request.buffer ∧ staged.settled.size = staged.request.size ∧
    staged.settled.heap = staged.request.heap ∧
    staged.settled.progress = staged.request.progress := by
  unfold settled
  split <;> simp [Request.fail]

@[simp] theorem routed_frame :
    (staged.routed lane).id = staged.request.id ∧
    (staged.routed lane).operation = staged.request.operation ∧
    (staged.routed lane).path = staged.request.path ∧
    (staged.routed lane).flags = staged.request.flags ∧
    (staged.routed lane).buffer = staged.request.buffer ∧
    (staged.routed lane).size = staged.request.size ∧
    (staged.routed lane).heap = staged.request.heap := by
  unfold routed
  split <;> simp [Request.handedOff]

end Staged

end QueuedFiles
