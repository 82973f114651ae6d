import QueuedFiles.Proofs.Service.Reference

/-!
What is left of requests for somebody who does not see terminators: buffers end where their sizes say,
one request may or may not have asked for a terminator, and heaps do not tell lengths. The stages do
nothing with what is not seen but pass it on.
-/

namespace QueuedFiles

namespace Flags

def unterminated (f : Flags) : Flags := ⟨f.bits &&& ~~~nullTerminate.bits⟩

theorem contains_unterminated {f g : Flags} (hg : ~~~nullTerminate.bits &&& g.bits = g.bits) :
    f.unterminated.contains g = f.contains g := by
  simp only [contains, unterminated, UInt8.and_assoc, hg]

@[simp] theorem unterminated_unterminated (f : Flags) :
    f.unterminated.unterminated = f.unterminated := by
  simp only [unterminated, UInt8.and_assoc, UInt8.and_self]

theorem unterminated_forRead (b b' compressed : Bool) :
    (forRead b compressed).unterminated = (forRead b' compressed).unterminated := by
  cases b <;> cases b' <;> cases compressed <;> rfl

end Flags

/-- The buffer up to a place. -/
def Buffer.cut (b : Buffer) (n : Nat) : Buffer := { b with bytes := b.bytes.take n }

theorem Buffer.cut_cut (b : Buffer) (n m : Nat) : (b.cut n).cut m = b.cut (min m n) := by
  simp [cut, List.take_take]

theorem Buffer.cut_length (b : Buffer) : b.cut b.length = b := by
  simp [cut, length]

namespace Heap

/-- The books of a heap without the lengths. -/
def blind (h : Heap) : Heap := { h with live := h.live.map fun e ↦ (e.1, 0) }

theorem blind_register (h : Heap) (n : Nat) : (h.register n).blind = h.blind.register 0 := rfl

theorem blind_resize (h : Heap) (id n : Nat) : (h.resize id n).blind = h.blind := by
  simp only [blind, resize, List.map_map, Heap.mk.injEq, true_and]
  refine List.map_congr_left fun e _ ↦ ?_
  by_cases he : e.1 = id <;> simp [he]

theorem blind_release (h : Heap) (id : Nat) : (h.release id).blind = h.blind.release id := by
  simp only [blind, release, List.filter_map, Function.comp_def]

end Heap

namespace Heaps

def blind (hs : Heaps) : Heaps := ⟨hs.heaps.map Heap.blind⟩

variable (hs : Heaps) (k : HeapId)

@[simp] theorem blind_blind : hs.blind.blind = hs.blind := by
  simp [blind, Heap.blind, Function.comp_def]

@[simp] theorem has_blind : hs.blind.has k = hs.has k := by
  simp [has, blind]

theorem get_blind : hs.blind.get k = (hs.get k).blind := by
  simp only [get, blind, List.getD_eq_getElem?_getD, List.getElem?_map]
  cases hs.heaps[k]? <;> rfl

@[simp] theorem nextId_blind : (hs.blind.get k).nextId = (hs.get k).nextId := by
  rw [get_blind]
  rfl

theorem allocations_blind : (hs.blind.stats k).allocations = (hs.stats k).allocations := by
  simp [stats, get_blind, Heap.stats, Heap.blind]

theorem blind_update {f g : Heap → Heap} (hfg : ∀ x, (f x).blind = g x.blind) :
    (hs.update k f).blind = hs.blind.update k g := by
  simp only [update, blind, Heaps.mk.injEq]
  apply List.ext_getElem?
  intro i
  by_cases hi : k = i
  · subst hi
    simp [Function.comp_def, hfg]
  · simp [hi]

theorem blind_create (name : String) : (hs.create name).2.blind = (hs.blind.create name).2 := by
  simp [create, blind, Heap.blind, Heap.create]

theorem blind_register (n : Nat) :
    (hs.update k (·.register n)).blind = hs.blind.update k (·.register 0) :=
  hs.blind_update k fun _ ↦ Heap.blind_register ..

theorem blind_release (id : Nat) :
    (hs.update k (·.release id)).blind = hs.blind.update k (·.release id) :=
  hs.blind_update k fun _ ↦ Heap.blind_release ..

theorem blind_resize (i n : Nat) : (hs.update k (·.resize i n)).blind = hs.blind := by
  have h := hs.blind_update k (f := (·.resize i n)) (g := id) fun _ ↦ Heap.blind_resize ..
  simpa [update] using h

@[simp] theorem blind_adopt (bytes : Bytes) :
    (hs.blind.adopt k bytes).1 = (hs.adopt k bytes).1 ∧
      (hs.adopt k bytes).2.blind = hs.blind.update k (·.register 0) := by
  simp [adopt, blind_register]

@[simp] theorem blind_reserve (n : Nat) :
    (hs.blind.reserve k n).1 = (hs.reserve k n).1 ∧
      (hs.reserve k n).2.blind = hs.blind.update k (·.register 0) := by
  simp [reserve, blind_register]

@[simp] theorem blind_fill (x : Reservation) (bytes : Bytes) :
    (hs.fill x bytes).2.blind = hs.blind :=
  hs.blind_resize ..

@[simp] theorem blind_cancel (x : Reservation) : (hs.cancel x).blind = hs.blind.cancel x :=
  hs.blind_release ..

@[simp] theorem blind_releaseOption (b : Option Buffer) :
    (hs.releaseOption b).blind = hs.blind.releaseOption b := by
  cases b with
  | none => rfl
  | some b => exact hs.blind_release ..

/-- A buffer is given up by its number, whatever is in it. -/
@[simp] theorem releaseOption_cut (b : Option Buffer) (n : Nat) :
    hs.releaseOption (b.map (·.cut n)) = hs.releaseOption b := by
  cases b <;> rfl

end Heaps

namespace Request

/-- The request up to its size; of one request it is not seen whether it is terminated. -/
def blind (id : Nat) (r : Request) : Request :=
  { r with
    flags := if r.id = id then r.flags.unterminated else r.flags
    buffer := r.buffer.map (·.cut r.size) }

variable (id : Nat) (r : Request)

@[simp] theorem blind_blind : (r.blind id).blind id = r.blind id := by
  have hcut : (·.cut r.size) ∘ (·.cut r.size) = fun b : Buffer ↦ b.cut r.size := by
    funext b
    simp [Buffer.cut_cut]
  simp only [blind, Option.map_map, hcut]
  split <;> simp

@[simp] theorem payload_blind : (r.blind id).payload = r.payload := by
  unfold payload
  cases hb : r.buffer <;> simp [blind, hb, Buffer.cut, List.take_take]

theorem contains_blind {g : Flags} (hg : ~~~Flags.nullTerminate.bits &&& g.bits = g.bits) :
    (r.blind id).flags.contains g = r.flags.contains g := by
  simp only [blind]
  split
  · exact Flags.contains_unterminated hg
  · rfl

@[simp] theorem useCompression_blind :
    (r.blind id).flags.contains .useCompression = r.flags.contains .useCompression :=
  r.contains_blind id (by decide)

@[simp] theorem appendMode_blind :
    (r.blind id).flags.contains .appendMode = r.flags.contains .appendMode :=
  r.contains_blind id (by decide)

@[simp] theorem entryLane_blind :
    entryLane (r.blind id).operation (r.blind id).flags = entryLane r.operation r.flags := by
  simp only [entryLane, useCompression_blind]
  rfl

@[simp] theorem nextAfter_blind (lane : Lane) (ok : Bool) :
    nextAfter (r.blind id).operation (r.blind id).flags lane ok =
      nextAfter r.operation r.flags lane ok := by
  simp only [nextAfter, useCompression_blind]
  rfl

@[simp] theorem releaseOption_blind (hs : Heaps) :
    hs.releaseOption (r.blind id).buffer = hs.releaseOption r.buffer :=
  hs.releaseOption_cut r.buffer r.size

/-- A request that gets another buffer for its own. -/
theorem blind_replaced {b b' : Buffer} {n : Nat} (hb : b.cut n = b'.cut n) :
    blind id { r.blind id with buffer := some b, size := n } =
      blind id { r with buffer := some b', size := n } := by
  have hflags := congrArg Request.flags (r.blind_blind id)
  simp only [blind] at hflags ⊢
  simp only [hflags, Option.map_some, hb]

theorem blind_counted :
    blind id { r.blind id with size := r.payload.length } =
      blind id { r with size := r.payload.length } := by
  have hflags := congrArg Request.flags (r.blind_blind id)
  have hle : ∀ b, r.buffer = some b → r.payload.length ≤ r.size := by
    intro b hb
    simp only [payload, hb]
    exact List.length_take_le ..
  simp only [blind] at hflags ⊢
  simp only [hflags, Option.map_map]
  cases hb : r.buffer with
  | none => rfl
  | some b => simp [Buffer.cut_cut, Nat.min_eq_left (hle b hb)]

end Request

theorem Heaps.blind_discardAll (hs : Heaps) (id : Nat) (rs : List Request) :
    (hs.discardAll rs).blind = hs.blind.discardAll (rs.map (Request.blind id)) := by
  induction rs generalizing hs with
  | nil => rfl
  | cons r rs ih =>
    have hrelease : hs.blind.releaseOption (r.blind id).buffer =
        (hs.releaseOption r.buffer).blind := by
      rw [Request.releaseOption_blind, blind_releaseOption]
    rw [List.map_cons]
    change _ = (hs.blind.releaseOption (r.blind id).buffer).discardAll _
    rw [hrelease]
    exact ih (hs.releaseOption r.buffer)

/-- A stage as it is seen from outside. -/
def Staged.blind (id : Nat) (staged : Staged) : Staged :=
  ⟨staged.request.blind id, staged.heaps.blind, staged.result⟩

namespace Staged

variable (id : Nat) (staged : Staged) (lane : Lane)

@[simp] theorem next_blind : (staged.blind id).next lane = staged.next lane :=
  staged.request.nextAfter_blind id lane _

theorem settled_blind : (staged.blind id).settled = staged.settled.blind id := by
  unfold settled blind
  cases staged.result <;> rfl

@[simp] theorem routed_blind : (staged.blind id).routed lane = (staged.routed lane).blind id := by
  unfold routed
  rw [next_blind, settled_blind]
  cases staged.next lane <;> rfl

end Staged

variable {fs : FileSystem} (id : Nat) (files : fs.State) (heaps : Heaps) (r : Request)

namespace FileStage

theorem read_blind :
    (read fs files heaps.blind (r.blind id)).1.blind id = (read fs files heaps r).1.blind id ∧
      (read fs files heaps.blind (r.blind id)).2 = (read fs files heaps r).2 := by
  have hpath : (r.blind id).path = r.path := rfl
  simp only [read, hpath]
  cases r.path.native with
  | error e => simp [Staged.blind]
  | ok native =>
    dsimp only
    rcases fs.openToRead files native with ⟨fault | handle, files⟩
    · simp [Staged.blind]
    · dsimp only
      rcases fs.size files handle with ⟨fault | size, files⟩
      · simp [Staged.blind]
      · dsimp only
        -- The room has its number before it has a length.
        cases readFull size (fs.read files handle).1 with
        | error fault =>
          simp only [Staged.blind, Request.blind_blind, Heaps.blind_cancel, Heaps.blind_reserve,
            Heaps.blind_blind, and_true]
          rfl
        | ok data =>
          simp only [Staged.blind, Heaps.blind_releaseOption, Heaps.blind_fill, Heaps.blind_reserve,
            Heaps.blind_blind, Request.releaseOption_blind, and_true, Staged.mk.injEq]
          refine ⟨r.blind_replaced id ?_, rfl⟩
          have hcut : ∀ t : Bool,
              (if t then data ++ [Limits.terminator] else data).take data.length = data := by
            intro t
            cases t <;> simp
          simp only [Buffer.cut, Heaps.fill, hcut]
          rfl

theorem write_blind :
    (write fs files heaps.blind (r.blind id)).1.blind id = (write fs files heaps r).1.blind id ∧
      (write fs files heaps.blind (r.blind id)).2 = (write fs files heaps r).2 := by
  have hpath : (r.blind id).path = r.path := rfl
  simp only [write_reference, hpath, Request.payload_blind, Request.appendMode_blind, Staged.blind,
    Heaps.blind_blind, and_true, Staged.mk.injEq]
  split
  · exact r.blind_counted id
  · exact r.blind_blind id

theorem run_blind :
    (run fs files heaps.blind (r.blind id)).1.blind id = (run fs files heaps r).1.blind id ∧
      (run fs files heaps.blind (r.blind id)).2 = (run fs files heaps r).2 := by
  have hop : (r.blind id).operation = r.operation := rfl
  simp only [run, hop]
  cases r.operation with
  | read => exact read_blind id files heaps r
  | write => exact write_blind id files heaps r

end FileStage

namespace CodecStage

theorem overflow_blind (max : Nat) :
    (overflow max heaps.blind (r.blind id)).blind id = (overflow max heaps r).blind id := by
  simp only [overflow, Staged.blind, Heaps.alloc, Heaps.blind_releaseOption, Heaps.blind_adopt,
    Heaps.blind_blind, Request.releaseOption_blind, Staged.mk.injEq, and_true]
  exact ⟨r.blind_replaced id rfl, rfl⟩

theorem decompressed_blind (max : Nat) (room : Reservation) (written : Bytes)
    (reported : Except BlockError Nat) :
    (decompressed max heaps.blind (r.blind id) room written reported).blind id =
      (decompressed max heaps r room written reported).blind id := by
  simp only [decompressed, Staged.blind, Heaps.blind_releaseOption, Heaps.blind_fill,
    Heaps.blind_blind, Request.releaseOption_blind, Staged.mk.injEq, and_true]
  exact r.blind_replaced id rfl

theorem compressed_blind (block : Except BlockError Bytes) :
    (compressed heaps.blind (r.blind id) block).blind id = (compressed heaps r block).blind id := by
  cases block <;> simp only [compressed, Staged.blind, Heaps.alloc, Heaps.blind_releaseOption,
    Heaps.blind_adopt, Heaps.blind_blind, Request.releaseOption_blind, Staged.mk.injEq, and_true]
  · exact ⟨r.blind_replaced id rfl, rfl⟩
  · exact ⟨r.blind_replaced id rfl, rfl⟩

end CodecStage

end QueuedFiles
