import QueuedFiles.Queue

/-!
A queue with its producers. A push onto a full queue waits, with a producer of its own, until it is
let in or the consumer leaves. With all producers gone the queue still delivers what it holds and
then reports its end.
-/

namespace QueuedFiles

structure Traffic (α : Type) where
  queue : Queue α
  /-- Producers that are left, those of waiting pushes included. -/
  producers : Nat
  /-- Messages of the pushes that wait, longest first. -/
  waiting : List (Message α)

namespace Traffic

variable {α : Type}

def create (requested : Nat) : Traffic α := ⟨.create requested, 1, []⟩

inductive Pushed (α : Type) where
  | accepted
  | blocked
  /-- The consumer is gone; the message comes back. -/
  | closed (returned : Message α)

/-- Whether a marker is in, once its push has come back. -/
def Pushed.sent? : Pushed α → Option Bool
  | .accepted => some true
  | .blocked => none
  | .closed _ => some false

/-- A push by one of the producers. One that would block changes nothing. -/
def push (t : Traffic α) (m : Message α) : Pushed α × Traffic α :=
  match t.queue.offer m with
  | .taken q => (.accepted, { t with queue := q })
  | .full => (.blocked, t)
  | .closed => (.closed m, t)

/-- A push that waits for room. -/
def park (t : Traffic α) (m : Message α) : Traffic α :=
  { t with producers := t.producers + 1, waiting := t.waiting ++ [m] }

/-- The end of waiting push `i`, once there is room or no consumer. Any of them may come first. -/
def unpark (t : Traffic α) (i : Nat) : Option (Pushed α × Traffic α) :=
  match t.waiting[i]? with
  | none => none
  | some m =>
    match t.queue.offer m with
    | .taken q => some (.accepted, ⟨q, t.producers - 1, t.waiting.eraseIdx i⟩)
    | .full => none
    | .closed => some (.closed m, ⟨t.queue, t.producers - 1, t.waiting.eraseIdx i⟩)

inductive Popped (α : Type) where
  | message (m : Message α)
  /-- Nothing is left and nobody can send more. -/
  | ended
  | blocked
  | noConsumer

/-- What the consumer gets, once there is something: the end of all messages reads as a marker. -/
def Popped.answer? : Popped α → Option (Message α)
  | .message m => some m
  | .ended => some .shutdown
  | .blocked | .noConsumer => none

def pop (t : Traffic α) : Popped α × Traffic α :=
  if !t.queue.isOpen then (.noConsumer, t)
  else
    match t.queue.take? with
    | some (m, q) => (.message m, { t with queue := q })
    | none => (if t.producers = 0 then .ended else .blocked, t)

def cloneProducer (t : Traffic α) : Traffic α := { t with producers := t.producers + 1 }

def dropProducer (t : Traffic α) : Traffic α := { t with producers := t.producers - 1 }

/-- The consumer leaves, if it is there. -/
def dropConsumer (t : Traffic α) : Bool × Traffic α :=
  if t.queue.isOpen then (true, { t with queue := t.queue.close }) else (false, t)

end Traffic

def queueClosedMessage : String := "work queue consumer has exited"

/-- The failed push as a value, without its payload. -/
def queueClosedRender : String := "QueueClosed(..)"

end QueuedFiles
