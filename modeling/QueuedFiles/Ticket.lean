import QueuedFiles.Request

/-!
The caller's side of a request. A worker fills the outcome, sets the flag and lets go of the request
in three moves; every question but a poll waits for the flag in one move and looks at the outcome in
the next. The outcome belongs to the worker and the handle together, and goes with the last of them.
-/

namespace QueuedFiles

structure Ticket where
  id : Nat
  operation : Operation
  path : Path
  outcome : Option Outcome
  signaled : Bool
  /-- Its worker has let go of the request behind the flag. -/
  released : Bool
  /-- The caller has its handle. -/
  held : Bool

inductive Question where
  | result
  | code
  | size
  /-- Hand over the buffer. -/
  | buffer

inductive Answer where
  | result (r : Except Error Unit)
  | code (n : Int)
  | size (n : Nat)
  | buffer (b : Option Buffer)

/-- The buffer that an answer hands over, if any. -/
def Answer.buffer? : Answer → Option Buffer
  | .buffer b => b
  | _ => none

namespace Ticket

def ofRequest (r : Request) : Ticket := ⟨r.id, r.operation, r.path, none, false, false, true⟩

def publish (t : Ticket) (o : Outcome) : Ticket := { t with outcome := some o }

def signal (t : Ticket) : Ticket := { t with signaled := true }

def poll (t : Ticket) : Bool := t.signaled

/-- The first move of a question: it comes back once the flag is set. -/
def wait (t : Ticket) : Option Unit := if t.signaled then some () else none

def result (t : Ticket) : Except Error Unit := (t.outcome.map (·.result)).getD (.ok ())

/-- The second move of a question. Only the first to ask for the buffer gets it. -/
def look (t : Ticket) : Question → Answer × Ticket
  | .result => (.result t.result, t)
  | .code => (.code (resultCode t.result), t)
  | .size => (.size ((t.outcome.map (·.size)).getD 0), t)
  | .buffer =>
    (.buffer (t.outcome.bind (·.buffer)),
      { t with outcome := t.outcome.map fun o ↦ { o with buffer := none } })

/-- Both moves, if the first comes back. -/
def ask (t : Ticket) (q : Question) : Option (Answer × Ticket) := t.wait.map fun _ ↦ t.look q

def buffer (t : Ticket) : Option Buffer := t.outcome.bind (·.buffer)

def withoutBuffer (t : Ticket) : Ticket := (t.look .buffer).2

/-- The worker lets go of the request. An outcome whose handle is gone gives up its buffer. -/
def release (t : Ticket) : Ticket :=
  let t := { t with released := true }
  if t.held then t else t.withoutBuffer

/-- The caller drops its handle. An outcome that its worker has let go of gives up its buffer. -/
def forget (t : Ticket) : Ticket :=
  let t := { t with held := false }
  if t.released then t.withoutBuffer else t

/-- The tickets with those of one number changed. -/
def updateAll (ts : List Ticket) (id : Nat) (f : Ticket → Ticket) : List Ticket :=
  ts.map fun t ↦ if t.id = id then f t else t

end Ticket

end QueuedFiles
