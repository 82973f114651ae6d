/-!
The completion event, move by move: a flag, its lock, and the threads inside its three calls. A
waiting thread parks and gives the lock up in one move; a signal wakes all parked threads before it
gives the lock up.
-/

namespace QueuedFiles

inductive EventCall where
  /-- Set the flag; answers whether it was unset. -/
  | signal
  | poll
  /-- Return once the flag is set. -/
  | wait
deriving DecidableEq

/-- Where a thread stands in its call. -/
inductive EventPhase where
  /-- About to take the lock. -/
  | entering (call : EventCall)
  /-- Holds the lock, about to look at the flag. -/
  | testing (call : EventCall)
  /-- Holds the lock and has set the flag, about to wake the others. -/
  | notifying
  /-- Holds the lock, about to give it up and return. -/
  | leaving (answer : Bool)
  /-- Asleep, without the lock. -/
  | parked
  /-- Awake again, about to take the lock once more. -/
  | woken
  | returned (answer : Bool)
deriving DecidableEq

structure Event where
  signaled : Bool
  holder : Option Nat
  threads : List EventPhase
deriving DecidableEq

namespace Event

def unset : Event := ⟨false, none, []⟩

instance : Inhabited Event := ⟨unset⟩

def rouse : EventPhase → EventPhase
  | .parked => .woken
  | p => p

def start (e : Event) (call : EventCall) : Event :=
  { e with threads := e.threads ++ [.entering call] }

/-- The next move of thread `i`, if it has one. -/
def step (e : Event) (i : Nat) : Option Event :=
  match e.threads[i]? with
  | some (.entering call) =>
    if e.holder = none then
      some { e with holder := some i, threads := e.threads.set i (.testing call) }
    else none
  | some (.testing .signal) =>
    if e.signaled then some { e with threads := e.threads.set i (.leaving false) }
    else some { e with signaled := true, threads := e.threads.set i .notifying }
  | some (.testing .poll) => some { e with threads := e.threads.set i (.leaving e.signaled) }
  | some (.testing .wait) =>
    if e.signaled then some { e with threads := e.threads.set i (.leaving true) }
    else some { e with holder := none, threads := e.threads.set i .parked }
  | some .notifying =>
    some { e with threads := (e.threads.map rouse).set i (.leaving true) }
  | some (.leaving answer) =>
    some { e with holder := none, threads := e.threads.set i (.returned answer) }
  | some .woken =>
    if e.holder = none then
      some { e with holder := some i, threads := e.threads.set i (.testing .wait) }
    else none
  | some .parked => none
  | some (.returned _) => none
  | none => none

/-- A parked thread wakes up without having been woken. -/
def stir (e : Event) (i : Nat) : Option Event :=
  match e.threads[i]? with
  | some .parked => some { e with threads := e.threads.set i .woken }
  | _ => none

def moves (e : Event) (i : Nat) : Nat → Event
  | 0 => e
  | n + 1 =>
    match e.step i with
    | some f => f.moves i n
    | none => e

/-- Thread `i` goes as far as it can: from no point is this more than four moves away. -/
def settle (e : Event) (i : Nat) : Event := e.moves i 4

def answer? (e : Event) (i : Nat) : Option Bool :=
  match e.threads[i]? with
  | some (.returned a) => some a
  | _ => none

/-- A call made by a thread of its own that nothing comes in between of: its answer, if it has
returned, and the event. -/
def perform (e : Event) (call : EventCall) : Option Bool × Event :=
  let f := (e.start call).settle e.threads.length
  (f.answer? e.threads.length, f)

end Event

end QueuedFiles
