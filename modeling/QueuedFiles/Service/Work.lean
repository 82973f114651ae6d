import QueuedFiles.Service.Stage

/-!
The moves of the two workers. A worker takes a message, does its part, hands the request on or
leaves its outcome, sets the flag, and lets go of what it still has of the request, each in a move of
its own; a move that has to wait is not there.
-/

namespace QueuedFiles

open Telemetry

namespace Service

variable {fs : FileSystem} {codec : Codec}

/-- Books a finished stage: its time, which no clock measures here, its bytes or its failure. -/
def book (s : Service fs codec) (a : Activity) (added : Option Addition)
    (result : Except Error Unit) : Service fs codec :=
  let timed := (s.recorder.addTime a .zero).2
  let counted := added.elim timed timed.count
  { s with
    recorder := match result with
      | .ok () => counted
      | .error _ => counted.count .failure }

/-- The end of a stage: the worker has a request to route. -/
def finish (s : Service fs codec) (lane : Lane) (staged : Staged) (a : Activity)
    (added : Option Addition) : Service fs codec :=
  (({ s with heaps := staged.heaps } : Service fs codec).book a added staged.result).setWorker lane
    (.routing (staged.routed lane) (staged.next lane))

def take (s : Service fs codec) (lane : Lane) : Option (Service fs codec) :=
  match (s.queue lane).take? with
  | none => none
  | some (.payload r, q) => some ((s.setQueue lane q).setWorker lane (.serving r.begin))
  | some (.shutdown, q) => some ((s.setQueue lane q).setWorker lane .leaving)

def serveFile (s : Service fs codec) (r : Request) : Service fs codec :=
  let (staged, files) := FileStage.run fs s.files s.heaps r
  let added := match staged.result with
    | .ok () => some (FileStage.addition staged.request)
    | .error _ => none
  ({ s with files := files } : Service fs codec).finish .file staged
    (FileStage.activity r.operation) added

/-- The codec stage up to the call. -/
def serveCodec (s : Service fs codec) (r : Request) : Service fs codec :=
  match r.operation with
  | .write => { s with codecWorker := .coding r none }
  | .read =>
    let max := s.config.maxDecompressedSize.toNat
    match CodecStage.capacity? max with
    | none => s.finish .codec (CodecStage.overflow max s.heaps r) .decompress none
    | some capacity =>
      let (room, heaps) := s.heaps.reserve r.heap capacity
      { s with heaps := heaps, codecWorker := .coding r (some room) }

/-- The codec worker goes down, and what it held is dropped. -/
def crash (s : Service fs codec) (r : Request) (room : Option Reservation) : Service fs codec :=
  let heaps := room.elim s.heaps s.heaps.cancel
  ((({ s with heaps := heaps } : Service fs codec).discard r).closeQueue .codec).setWorker
    .codec .gone

/-- The codec stage from the call on. -/
def callCodec (s : Service fs codec) (r : Request) (room : Option Reservation) :
    Option (Service fs codec) :=
  match room with
  | none =>
    match codec.compress s.codecState r.payload with
    | .waits => none
    | .crashes => some (s.crash r none)
    | .returns answer state =>
      let block := CodecStage.checkedBlock codec.name r answer
      some (({ s with codecState := state } : Service fs codec).finish .codec
        (CodecStage.compressed s.heaps r block) .compress (CodecStage.compressAddition r block))
  | some reserved =>
    let max := s.config.maxDecompressedSize.toNat
    match codec.decompress s.codecState r.payload max with
    | .waits => none
    | .crashes => some (s.crash r (some reserved))
    | .returns ⟨written, reported⟩ state =>
      some (({ s with codecState := state } : Service fs codec).finish .codec
        (CodecStage.decompressed max s.heaps r reserved written reported) .decompress
        (CodecStage.decompressAddition r reported))

/-- A request goes on: its outcome is left, or it is pushed onto the next queue. If nobody is left
to receive it there, it is dropped. -/
def route (s : Service fs codec) (lane : Lane) (r : Request) (next : Next) :
    Option (Service fs codec) :=
  match next with
  | .complete =>
    some ((s.updateTicket r.id (·.publish r.completed.outcome)).setWorker lane (.signaling r.id))
  | .handOff onward =>
    match (s.queue onward).offer (.payload r) with
    | .full => none
    | .taken q => some ((s.setQueue onward q).setWorker lane .idle)
    | .closed => some (((s.count .abandoned).discard r).setWorker lane .idle)

/-- The flag is set. The worker still has the request, and with it a share in the outcome. -/
def signal (s : Service fs codec) (lane : Lane) (id : Nat) : Service fs codec :=
  (s.updateTicket id (·.signal)).setWorker lane (.releasing id)

/-- The worker lets go of a request behind its flag. If the handle is gone, so is the outcome. -/
def release (s : Service fs codec) (lane : Lane) (id : Nat) : Service fs codec :=
  let left := (s.ticket? id).bind fun t ↦ if t.held then none else t.buffer
  ({ s.updateTicket id (·.release) with
    heaps := s.heaps.releaseOption left } : Service fs codec).setWorker lane .idle

def work (s : Service fs codec) (lane : Lane) : Option (Service fs codec) :=
  match s.worker lane with
  | .idle => s.take lane
  | .serving r =>
    match lane with
    | .file => some (s.serveFile r)
    | .codec => some (s.serveCodec r)
  | .coding r room =>
    match lane with
    | .file => none
    | .codec => s.callCodec r room
  | .routing r next => s.route lane r next
  | .signaling id => some (s.signal lane id)
  | .releasing id => some (s.release lane id)
  | .leaving => some ((s.closeQueue lane).setWorker lane .gone)
  | .gone => none

end Service

end QueuedFiles
