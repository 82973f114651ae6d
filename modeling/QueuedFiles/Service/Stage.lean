import QueuedFiles.Service.State

/-!
The work on one request: whole-file reads and writes, and the two directions of the codec. Each
stage gives the request as it leaves the stage and its failure, if it failed; the buffers drawn and
given up on the way are booked in the heaps.
-/

namespace QueuedFiles

open Telemetry

structure Staged where
  request : Request
  heaps : Heaps
  result : Except Error Unit

namespace Staged

/-- The request with the failure of the stage, if it failed. -/
def settled (staged : Staged) : Request :=
  match staged.result with
  | .ok () => staged.request
  | .error e => staged.request.fail e

/-- Where the request goes from the lane of the stage. -/
def next (staged : Staged) (lane : Lane) : Next :=
  nextAfter staged.request.operation staged.request.flags lane staged.result.isOk

/-- The request as its worker routes it. -/
def routed (staged : Staged) (lane : Lane) : Request :=
  match staged.next lane with
  | .complete => staged.settled
  | .handOff onward => staged.settled.handedOff onward

end Staged

namespace FileStage

variable {fs : FileSystem}

/-- The whole file in a buffer of the request's heap, terminated if that was asked for. The buffer
has the size that the file reports, or one byte more, and is always to be had (see
`FileSystem.size`). A failure leaves the request as it was. -/
def read (fs : FileSystem) (files : fs.State) (heaps : Heaps) (r : Request) : Staged × fs.State :=
  let path := r.path.text
  match r.path.native with
  | .error e => (⟨r, heaps, .error e⟩, files)
  | .ok native =>
    match fs.openToRead files native with
    | (.error fault, files) => (⟨r, heaps, .error (.file .opening path fault)⟩, files)
    | (.ok handle, files) =>
      match fs.size files handle with
      | (.error fault, files) => (⟨r, heaps, .error (.file .sizeQuery path fault)⟩, files)
      | (.ok size, files) =>
        let terminated := r.flags.contains .nullTerminate
        let (room, heaps) := heaps.reserve r.heap (if terminated then size + 1 else size)
        let (events, files) := fs.read files handle
        match readFull size events with
        | .error fault =>
          (⟨r, heaps.cancel room, .error (.file .reading path fault)⟩, files)
        | .ok data =>
          let bytes := if terminated then data ++ [Limits.terminator] else data
          let (buffer, heaps) := heaps.fill room bytes
          (⟨{ r with buffer := some buffer, size := data.length }, heaps.releaseOption r.buffer,
            .ok ()⟩, files)

/-- The payload in the file, behind its content if that was asked for and there is something other
than a directory. A failure leaves the request as it was. -/
def write (fs : FileSystem) (files : fs.State) (heaps : Heaps) (r : Request) : Staged × fs.State :=
  let path := r.path.text
  match r.path.native with
  | .error e => (⟨r, heaps, .error e⟩, files)
  | .ok native =>
    let (append, files) :=
      if r.flags.contains .appendMode then fs.isExtensible files native else (false, files)
    match fs.openToWrite files native (if append then .append else .truncate) with
    | (.error fault, files) => (⟨r, heaps, .error (.file .opening path fault)⟩, files)
    | (.ok handle, files) =>
      match (if append then fs.seekEnd files handle else (.ok (), files)) with
      | (.error fault, files) => (⟨r, heaps, .error (.file .seeking path fault)⟩, files)
      | (.ok (), files) =>
        match fs.write files handle r.payload with
        | (.error fault, files) => (⟨r, heaps, .error (.file .writing path fault)⟩, files)
        | (.ok (), files) =>
          (⟨{ r with size := r.payload.length }, heaps, .ok ()⟩, files)

def run (fs : FileSystem) (files : fs.State) (heaps : Heaps) (r : Request) : Staged × fs.State :=
  match r.operation with
  | .read => read fs files heaps r
  | .write => write fs files heaps r

def activity : Operation → Activity
  | .read => .read
  | .write => .write

/-- What a successful file stage counts: the bytes that the request has now. -/
def addition (r : Request) : Addition :=
  match r.operation with
  | .read => .read r.size.toUInt64
  | .write => .write r.size.toUInt64

end FileStage

namespace CodecStage

/-- The bytes that the output of a decompression has room for, its terminator included; none if a
64-bit size cannot tell. -/
def capacity? (max : Nat) : Option Nat := if max + 1 < UInt64.size then some (max + 1) else none

/-- A read whose output cannot even be reserved. -/
def overflow (max : Nat) (heaps : Heaps) (r : Request) : Staged :=
  let (buffer, heaps) := heaps.alloc r.heap 1
  ⟨{ r with buffer := some buffer, size := 0 }, heaps.releaseOption r.buffer,
    .error (.decompression (.outputTooLarge max))⟩

/-- The output of a decompression in place of the block: at most `max` bytes and a terminator. The
terminator alone stays if the codec gave an error. -/
def decompressed (max : Nat) (heaps : Heaps) (r : Request) (room : Reservation) (written : Bytes)
    (reported : Except BlockError Nat) : Staged :=
  let size := match reported with
    | .ok n => min n max
    | .error _ => 0
  let (buffer, heaps) := heaps.fill room (Bytes.fit written size ++ [Limits.terminator])
  ⟨{ r with buffer := some buffer, size := size }, heaps.releaseOption r.buffer,
    match reported with
    | .ok _ => .ok ()
    | .error e => .error (.decompression e)⟩

/-- What a decompression counts: the block's size and the size that the codec reported. -/
def decompressAddition (r : Request) (reported : Except BlockError Nat) : Option Addition :=
  match reported with
  | .ok n => some (.decompress r.size.toUInt64 n.toUInt64)
  | .error _ => none

/-- A codec must not make nothing out of something. -/
def checkedBlock (name : String) (r : Request) (answer : Except BlockError Bytes) :
    Except BlockError Bytes :=
  match answer with
  | .ok block =>
    if block.isEmpty ∧ 0 < r.size then .error (.emptyOutput name r.size) else .ok block
  | .error e => .error e

/-- The block in place of the payload; an empty payload if there is no block. -/
def compressed (heaps : Heaps) (r : Request) (block : Except BlockError Bytes) : Staged :=
  match block with
  | .ok block =>
    let (buffer, heaps) := heaps.adopt r.heap block
    ⟨{ r with buffer := some buffer, size := block.length }, heaps.releaseOption r.buffer, .ok ()⟩
  | .error e =>
    let (buffer, heaps) := heaps.alloc r.heap 0
    ⟨{ r with buffer := some buffer, size := 0 }, heaps.releaseOption r.buffer,
      .error (.compression e)⟩

/-- What a compression counts: the payload's size and the block's. -/
def compressAddition (r : Request) (block : Except BlockError Bytes) : Option Addition :=
  match block with
  | .ok block => some (.compress r.size.toUInt64 block.length.toUInt64)
  | .error _ => none

end CodecStage

end QueuedFiles
