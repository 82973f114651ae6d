import QueuedFiles.Request.Flags

/-!
The way of a request through the two lanes. A read is done in the file lane and, if it is
compressed, goes on to the codec lane; a compressed write goes the other way. Each lane is a queue
with a worker behind it.
-/

namespace QueuedFiles

inductive Operation where
  | read
  | write
deriving DecidableEq, Repr

def Operation.name : Operation → String
  | .read => "read"
  | .write => "write"

/-- A queue and the worker that empties it. -/
inductive Lane where
  | file
  | codec
deriving DecidableEq, Repr

def Lane.name : Lane → String
  | .file => "io"
  | .codec => "compression"

def Lane.title : Lane → String
  | .file => "Io"
  | .codec => "Compression"

/-- Where a request goes once a worker is done with it. -/
inductive Next where
  | complete
  | handOff (lane : Lane)
deriving DecidableEq, Repr

def Next.render : Next → String
  | .complete => "Complete"
  | .handOff lane => "HandOff(" ++ lane.title ++ ")"

def entryLane (op : Operation) (flags : Flags) : Lane :=
  match op with
  | .write => if flags.contains .useCompression then .codec else .file
  | .read => .file

/-- Where a request goes from `lane`. A failed read is over at once; a compressed write goes on to
its file even when compression failed. -/
def nextAfter (op : Operation) (flags : Flags) (lane : Lane) (succeeded : Bool) : Next :=
  match lane, op with
  | .file, .read =>
    if flags.contains .useCompression && succeeded then .handOff .codec else .complete
  | .file, .write => .complete
  | .codec, .read => .complete
  | .codec, .write => .handOff .file

inductive Progress where
  | queued (lane : Lane)
  | processing (lane : Lane)
  | handedOff (lane : Lane)
  | completed
deriving DecidableEq, Repr

namespace Progress

def render : Progress → String
  | .queued lane => "Queued(" ++ lane.title ++ ")"
  | .processing lane => "Processing(" ++ lane.title ++ ")"
  | .handedOff lane => "HandedOff(" ++ lane.title ++ ")"
  | .completed => "Completed"

def lane? : Progress → Option Lane
  | .queued lane => some lane
  | .processing lane => some lane
  | .handedOff lane => some lane
  | .completed => none

def isTerminal : Progress → Bool
  | .completed => true
  | _ => false

def begin? : Progress → Option Progress
  | .queued lane => some (.processing lane)
  | _ => none

def settle? (p : Progress) (next : Next) : Option Progress :=
  match p, next with
  | .processing _, .complete => some .completed
  | .processing lane, .handOff other => if lane ≠ other then some (.handedOff other) else none
  | _, _ => none

def requeue? : Progress → Option Progress
  | .handedOff lane => some (.queued lane)
  | _ => none

/-- The states of one request whose stages come out as given, first to last, until it is over. -/
def walk (op : Operation) (flags : Flags) (p : Progress) : List Bool → List Progress
  | [] => [p]
  | succeeded :: outcomes =>
    match p.lane?, p.begin? with
    | some lane, some busy =>
      match busy.settle? (nextAfter op flags lane succeeded) with
      | none => [p, busy]
      | some settled =>
        match settled.requeue? with
        | some again => p :: busy :: settled :: walk op flags again outcomes
        | none => p :: busy :: walk op flags settled outcomes
    | _, _ => [p]

end Progress

end QueuedFiles
