import QueuedFiles.Service.State

/-!
The moves of callers. Entering and pushing are two moves, since a push waits while its queue is
full; a question is one, since it comes back only once the flag is set.
-/

namespace QueuedFiles

namespace Service

variable {fs : FileSystem} {codec : Codec}

/-- A caller enters with an order. A path that is too long is refused, and the service is as it was
but for the number of the buffer that was drawn for a write; else the request gets its number. -/
def enter (s : Service fs codec) (o : Order) : Except Error Nat × Service fs codec :=
  let (buffer, heaps) := o.draw s.heap s.heaps
  match Path.ofText o.path s.config.maxPathLength.toNat with
  | .error e => (.error e, { s with heaps := heaps.releaseOption buffer })
  | .ok path =>
    let r := o.request s.nextId path (o.heap s.heap) buffer
    (.ok r.id, { s with
      heaps := heaps
      nextId := s.nextId + 1
      entering := s.entering ++ [r]
      tickets := s.tickets ++ [.ofRequest r] })

/-- A caller pushes the request it has entered with. If the consumer is gone, the request and its
ticket are dropped. -/
def push (s : Service fs codec) (id : Nat) : Option (Except Error Unit × Service fs codec) :=
  match s.entering.find? fun r ↦ r.id = id with
  | none => none
  | some r =>
    let lane := entryLane r.operation r.flags
    let t := { s with entering := s.entering.filter fun r ↦ r.id ≠ id }
    match (s.queue lane).offer (.payload r) with
    | .full => none
    | .taken q => some (.ok (), t.setQueue lane q)
    | .closed =>
      some (.error .serviceStopped,
        { t.discard r with tickets := s.tickets.filter fun k ↦ k.id ≠ id })

/-- A caller asks about a request; the buffer, if it gets one, is then its own. -/
def ask (s : Service fs codec) (id : Nat) (q : Question) : Option (Answer × Service fs codec) :=
  match (s.ticket? id).bind fun t ↦ t.ask q with
  | none => none
  | some (answer, _) =>
    some (answer, { s.updateTicket id (fun t ↦ (t.look q).2) with
      taken := s.taken ++ answer.buffer?.toList })

/-- A caller drops the handle of a request. Its outcome goes with it unless a worker still has the
request. -/
def forget (s : Service fs codec) (id : Nat) : Service fs codec :=
  let left := (s.ticket? id).bind fun t ↦ if t.released then t.buffer else none
  { s.updateTicket id (·.forget) with heaps := s.heaps.releaseOption left }

def giveBack (s : Service fs codec) (b : Buffer) : Service fs codec :=
  { s with heaps := s.heaps.release b, taken := s.taken.filter fun c ↦ c.key ≠ b.key }

end Service

end QueuedFiles
