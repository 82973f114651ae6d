import QueuedFiles.FileSystem
import QueuedFiles.Queue
import QueuedFiles.Telemetry.Recorder
import QueuedFiles.Ticket

/-!
The state of a service and of what its callers hold: two queues, a worker behind each, callers whose
pushes are under way, tickets, heaps and telemetry, together with a file system and a codec.
-/

namespace QueuedFiles

open Telemetry

inductive Worker where
  | idle
  | serving (r : Request)
  /-- It has called the codec; reads have room reserved for what comes out. -/
  | coding (r : Request) (room : Option Reservation)
  /-- It has done its part of a request. -/
  | routing (r : Request) (next : Next)
  /-- It has left an outcome and is about to set the flag. -/
  | signaling (id : Nat)
  /-- It has set the flag and still has the request itself, of which nothing is left but a share in
  its outcome. -/
  | releasing (id : Nat)
  | leaving
  | gone

/-- How far the shutdown is. The file worker goes first. -/
inductive Closing where
  | notYet
  | markingFiles
  | joiningFiles
  | markingCodec
  | joiningCodec
  /-- Both workers are gone; the queues are given up with all that is left in them. -/
  | dismantling
  | done
deriving DecidableEq

structure Service (fs : FileSystem) (codec : Codec) where
  config : Config
  /-- The heap of all buffers on their way to a file. -/
  heap : HeapId
  heaps : Heaps
  fileQueue : Queue Request
  codecQueue : Queue Request
  fileWorker : Worker
  codecWorker : Worker
  recorder : Recorder
  /-- Requests whose callers are still pushing them. -/
  entering : List Request
  tickets : List Ticket
  taken : List Buffer
  nextId : Nat
  closing : Closing
  files : fs.State
  codecState : codec.State

namespace Service

variable {fs : FileSystem} {codec : Codec}

def fresh (config : Config) (heap : HeapId) (heaps : Heaps) (files : fs.State)
    (codecState : codec.State) : Service fs codec where
  config := config
  heap := heap
  heaps := heaps
  fileQueue := .create config.queueCapacity.toNat
  codecQueue := .create config.queueCapacity.toNat
  fileWorker := .idle
  codecWorker := .idle
  recorder := .empty
  entering := []
  tickets := []
  taken := []
  nextId := 1
  closing := .notYet
  files := files
  codecState := codecState

/-- A service that has just started, if its configuration passes. -/
def start (config : Config) (heap : HeapId) (heaps : Heaps) (files : fs.State)
    (codecState : codec.State) : Except Error (Service fs codec) :=
  match config.validate with
  | .error refusal => .error (.invalidConfig refusal)
  | .ok () => .ok (fresh config heap heaps files codecState)

def queue (s : Service fs codec) : Lane → Queue Request
  | .file => s.fileQueue
  | .codec => s.codecQueue

def setQueue (s : Service fs codec) (lane : Lane) (q : Queue Request) : Service fs codec :=
  match lane with
  | .file => { s with fileQueue := q }
  | .codec => { s with codecQueue := q }

def worker (s : Service fs codec) : Lane → Worker
  | .file => s.fileWorker
  | .codec => s.codecWorker

def setWorker (s : Service fs codec) (lane : Lane) (w : Worker) : Service fs codec :=
  match lane with
  | .file => { s with fileWorker := w }
  | .codec => { s with codecWorker := w }

def count (s : Service fs codec) (a : Addition) : Service fs codec :=
  { s with recorder := s.recorder.count a }

def discard (s : Service fs codec) (r : Request) : Service fs codec :=
  { s with heaps := s.heaps.releaseOption r.buffer }

def discardAll (s : Service fs codec) (rs : List Request) : Service fs codec :=
  { s with heaps := s.heaps.discardAll rs }

def closeQueue (s : Service fs codec) (lane : Lane) : Service fs codec :=
  s.setQueue lane (s.queue lane).close

/-- Gives up the queue of a lane and all requests that are left in it. -/
def dismantleQueue (s : Service fs codec) (lane : Lane) : Service fs codec :=
  let (lost, q) := (s.queue lane).dismantle
  (s.setQueue lane q).discardAll (lost.filterMap Message.payload?)

def ticket? (s : Service fs codec) (id : Nat) : Option Ticket := s.tickets.find? fun t ↦ t.id = id

def updateTicket (s : Service fs codec) (id : Nat) (f : Ticket → Ticket) : Service fs codec :=
  { s with tickets := Ticket.updateAll s.tickets id f }

variable (s : Service fs codec) (lane k : Lane) (q : Queue Request) (w : Worker)

@[simp] theorem queue_mk (config : Config) (heap : HeapId) (heaps : Heaps) (w w' : Worker)
    (recorder : Recorder) (entering : List Request) (tickets : List Ticket) (taken : List Buffer)
    (nextId : Nat) (closing : Closing) (files : fs.State) (codecState : codec.State) :
    queue ⟨config, heap, heaps, s.fileQueue, s.codecQueue, w, w', recorder, entering, tickets, taken,
      nextId, closing, files, codecState⟩ lane = s.queue lane := by
  cases lane <;> rfl

@[simp] theorem worker_mk (config : Config) (heap : HeapId) (heaps : Heaps) (q q' : Queue Request)
    (recorder : Recorder) (entering : List Request) (tickets : List Ticket) (taken : List Buffer)
    (nextId : Nat) (closing : Closing) (files : fs.State) (codecState : codec.State) :
    worker ⟨config, heap, heaps, q, q', s.fileWorker, s.codecWorker, recorder, entering, tickets,
      taken, nextId, closing, files, codecState⟩ lane = s.worker lane := by
  cases lane <;> rfl

@[simp] theorem queue_setQueue : (s.setQueue lane q).queue k = if k = lane then q else s.queue k := by
  cases lane <;> cases k <;> rfl

@[simp] theorem worker_setQueue : (s.setQueue lane q).worker k = s.worker k := by
  cases lane <;> rfl

@[simp] theorem queue_setWorker : (s.setWorker lane w).queue k = s.queue k := by
  cases lane <;> rfl

@[simp] theorem worker_setWorker :
    (s.setWorker lane w).worker k = if k = lane then w else s.worker k := by
  cases lane <;> cases k <;> rfl

@[simp] theorem setQueue_frame :
    (s.setQueue lane q).config = s.config ∧ (s.setQueue lane q).heap = s.heap ∧
    (s.setQueue lane q).heaps = s.heaps ∧ (s.setQueue lane q).recorder = s.recorder ∧
    (s.setQueue lane q).entering = s.entering ∧ (s.setQueue lane q).tickets = s.tickets ∧
    (s.setQueue lane q).taken = s.taken ∧ (s.setQueue lane q).nextId = s.nextId ∧
    (s.setQueue lane q).closing = s.closing ∧ (s.setQueue lane q).files = s.files ∧
    (s.setQueue lane q).codecState = s.codecState := by
  cases lane <;> simp [setQueue]

@[simp] theorem setWorker_frame :
    (s.setWorker lane w).config = s.config ∧ (s.setWorker lane w).heap = s.heap ∧
    (s.setWorker lane w).heaps = s.heaps ∧ (s.setWorker lane w).recorder = s.recorder ∧
    (s.setWorker lane w).entering = s.entering ∧ (s.setWorker lane w).tickets = s.tickets ∧
    (s.setWorker lane w).taken = s.taken ∧ (s.setWorker lane w).nextId = s.nextId ∧
    (s.setWorker lane w).closing = s.closing ∧ (s.setWorker lane w).files = s.files ∧
    (s.setWorker lane w).codecState = s.codecState := by
  cases lane <;> simp [setWorker]

end Service

end QueuedFiles
