/-!
The bounded queue in front of a worker. Shutdown travels through the queue as a message of its own.
Once the consumer has left, pushes fail, and what was queued stays where it is, out of anybody's
reach, until the last producer leaves too.
-/

namespace QueuedFiles

inductive Message (α : Type) where
  | payload (a : α)
  /-- The consumer stops when it comes to this. -/
  | shutdown
deriving DecidableEq

def Message.payload? {α : Type} : Message α → Option α
  | .payload a => some a
  | .shutdown => none

structure Queue (α : Type) where
  capacity : Nat
  /-- The messages on their way, next one first. -/
  messages : List (Message α)
  isOpen : Bool
deriving DecidableEq

inductive Offer (α : Type) where
  | taken (queue : Queue α)
  | full
  /-- There is nobody to receive it. -/
  | closed

namespace Queue

variable {α : Type}

/-- An empty queue; a capacity of zero counts as one. -/
def create (requested : Nat) : Queue α := ⟨max requested 1, [], true⟩

def payloads (q : Queue α) : List α := q.messages.filterMap Message.payload?

def length (q : Queue α) : Nat := q.messages.length

def isEmpty (q : Queue α) : Bool := q.length = 0

def isFull (q : Queue α) : Bool := q.length = q.capacity

/-- Appends a message if the consumer is there and has room for it. -/
def offer (q : Queue α) (m : Message α) : Offer α :=
  if !q.isOpen then .closed
  else if q.messages.length < q.capacity then .taken { q with messages := q.messages ++ [m] }
  else .full

/-- The next message and the queue behind it. -/
def take? (q : Queue α) : Option (Message α × Queue α) :=
  match q.messages with
  | [] => none
  | m :: ms => some (m, { q with messages := ms })

/-- The consumer leaves. -/
def close (q : Queue α) : Queue α := { q with isOpen := false }

/-- The last producer leaves: the messages that are lost, and what remains of the queue. -/
def dismantle (q : Queue α) : List (Message α) × Queue α :=
  (q.messages, { q with messages := [] })

@[simp] theorem payloads_create (n : Nat) : (create n : Queue α).payloads = [] := rfl

theorem payloads_of_messages {q : Queue α} {m : Message α} {ms : List (Message α)}
    (h : q.messages = m :: ms) :
    q.payloads = m.payload?.toList ++ payloads { q with messages := ms } := by
  cases m <;> simp [payloads, h, Message.payload?, List.filterMap_cons]

@[simp] theorem payloads_close (q : Queue α) : q.close.payloads = q.payloads := rfl

@[simp] theorem isOpen_close (q : Queue α) : q.close.isOpen = false := rfl

@[simp] theorem length_create (n : Nat) : (create n : Queue α).length = 0 := rfl

@[simp] theorem length_close (q : Queue α) : q.close.length = q.length := rfl

end Queue

end QueuedFiles
