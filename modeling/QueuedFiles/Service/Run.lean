import QueuedFiles.Service.Step

/-!
Runs of a service in which the workers go on until neither has a move. All of it is made of single
moves; only their order is chosen here, the file worker's before the codec worker's.
-/

namespace QueuedFiles

namespace Service

variable {fs : FileSystem} {codec : Codec}

def moves (s : Service fs codec) : Nat → Service fs codec
  | 0 => s
  | n + 1 =>
    match s.work .file with
    | some t => t.moves n
    | none =>
      match s.work .codec with
      | some t => t.moves n
      | none => s

/-- More moves than the workers can have left: a request needs nine at most, from the file queue
through the codec until its worker lets go of it. -/
def movesLeft (s : Service fs codec) : Nat :=
  9 * (s.fileQueue.messages.length + s.codecQueue.messages.length + 2)

/-- The workers go on until neither has a move. -/
def settle (s : Service fs codec) : Service fs codec := s.moves s.movesLeft

/-- A caller enters, pushes, and lets the workers settle. If the queue is full, it stays inside. -/
def submit (s : Service fs codec) (o : Order) : Except Error Nat × Service fs codec :=
  match s.enter o with
  | (.error e, t) => (.error e, t)
  | (.ok id, t) =>
    match t.push id with
    | none => (.ok id, t)
    | some (.error e, u) => (.error e, u)
    | some (.ok (), u) => (.ok id, u.settle)

/-- The workers settle, then the owner makes its next move, if it can. -/
def closeFurther (s : Service fs codec) : Service fs codec := s.settle.close.getD s.settle

/-- The owner closes the service as far as the workers let it. Six moves are all it has. -/
def shutdown (s : Service fs codec) : Service fs codec := (Nat.repeat closeFurther 6 s).settle

end Service

end QueuedFiles
