import QueuedFiles.Heap
import QueuedFiles.Request.Path
import QueuedFiles.Request.Progress

/-!
Requests on their way, and the outcome that each leaves behind.
-/

namespace QueuedFiles

inductive Order where
  /-- Read a whole file into a buffer of the given heap. -/
  | read (path : String) (heap : HeapId) (terminated compressed : Bool)
  /-- Write bytes to a file, in place of its content or behind it. -/
  | write (path : String) (bytes : Bytes) (compressed append : Bool)

namespace Order

def operation : Order → Operation
  | .read .. => .read
  | .write .. => .write

def path : Order → String
  | .read path .. => path
  | .write path .. => path

def flags : Order → Flags
  | .read _ _ terminated compressed => .forRead terminated compressed
  | .write _ _ compressed append => .forWrite compressed append

end Order

/-- A request, owned by a caller, a queue or a worker. -/
structure Request where
  id : Nat
  operation : Operation
  path : Path
  flags : Flags
  buffer : Option Buffer
  /-- How many bytes of the buffer count; a terminator does not. -/
  size : Nat
  /-- The last failure, if a stage has failed. -/
  result : Except Error Unit
  /-- The heap that the final buffer is drawn from. -/
  heap : HeapId
  progress : Progress

/-- The heap that the final buffer of an order is drawn from; for a write, the service's own. -/
def Order.heap (o : Order) (own : HeapId) : HeapId :=
  match o with
  | .read _ heap _ _ => heap
  | .write .. => own

/-- The buffer that an order starts with: the bytes to be written, drawn from the service's heap. -/
def Order.draw (o : Order) (own : HeapId) (heaps : Heaps) : Option Buffer × Heaps :=
  match o with
  | .read .. => (none, heaps)
  | .write _ bytes _ _ =>
    let (buffer, heaps) := heaps.adopt own bytes
    (some buffer, heaps)

def Order.request (o : Order) (id : Nat) (path : Path) (heap : HeapId) (buffer : Option Buffer) :
    Request where
  id := id
  operation := o.operation
  path := path
  flags := o.flags
  buffer := buffer
  size := (buffer.map Buffer.length).getD 0
  result := .ok ()
  heap := heap
  progress := .queued (entryLane o.operation o.flags)

/-- The heaps once requests are dropped with the buffers that they hold. -/
def Heaps.discardAll (heaps : Heaps) (rs : List Request) : Heaps :=
  rs.foldl (fun heaps r ↦ heaps.releaseOption r.buffer) heaps

structure Outcome where
  result : Except Error Unit
  buffer : Option Buffer
  size : Nat

namespace Request

/-- The bytes of the buffer that count. -/
def payload (r : Request) : Bytes :=
  match r.buffer with
  | some b => b.bytes.take r.size
  | none => []

def isCompressed (r : Request) : Bool := r.flags.contains .useCompression

def begin (r : Request) : Request := { r with progress := r.progress.begin?.getD r.progress }

def fail (r : Request) (e : Error) : Request := { r with result := .error e }

def handedOff (r : Request) (lane : Lane) : Request :=
  { r with
    progress := ((r.progress.settle? (.handOff lane)).bind Progress.requeue?).getD (.queued lane) }

def completed (r : Request) : Request :=
  { r with progress := (r.progress.settle? .complete).getD r.progress }

def outcome (r : Request) : Outcome := ⟨r.result, r.buffer, r.size⟩

end Request

end QueuedFiles
