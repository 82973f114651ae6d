import QueuedFiles.Service.State

/-!
The moves of the owner who closes the service: a marker for the file worker, the wait for its end,
then the same for the codec worker, and last the end of both queues.
-/

namespace QueuedFiles

namespace Service

variable {fs : FileSystem} {codec : Codec}

/-- A shutdown marker for a lane, which is not needed if its consumer is gone. -/
def mark (s : Service fs codec) (lane : Lane) (following : Closing) : Option (Service fs codec) :=
  match (s.queue lane).offer .shutdown with
  | .full => none
  | .taken q => some { s.setQueue lane q with closing := following }
  | .closed => some { s with closing := following }

def join (s : Service fs codec) (lane : Lane) (following : Closing) : Option (Service fs codec) :=
  match s.worker lane with
  | .gone => some { s with closing := following }
  | _ => none

/-- The owner's next move in closing the service, which no caller may be inside of any more. -/
def close (s : Service fs codec) : Option (Service fs codec) :=
  match s.closing with
  | .notYet => if s.entering.isEmpty then some { s with closing := .markingFiles } else none
  | .markingFiles => s.mark .file .joiningFiles
  | .joiningFiles => s.join .file .markingCodec
  | .markingCodec => s.mark .codec .joiningCodec
  | .joiningCodec => s.join .codec .dismantling
  | .dismantling =>
    some { (s.dismantleQueue .file).dismantleQueue .codec with closing := .done }
  | .done => none

end Service

end QueuedFiles
