import QueuedFiles.Block.Codec
import QueuedFiles.Config
import QueuedFiles.Fault

/-!
Errors of the service, their messages and their result codes.
-/

namespace QueuedFiles

inductive PathDefect where
  | empty
  | nulByte
deriving DecidableEq

def PathDefect.message : PathDefect → String
  | .empty => "empty path"
  | .nulByte => "interior NUL byte"

inductive FileStep where
  | opening
  | sizeQuery
  | reading
  | seeking
  | writing
deriving DecidableEq

def FileStep.message : FileStep → String
  | .opening => "open"
  | .sizeQuery => "size query"
  | .reading => "read"
  | .seeking => "seek to end"
  | .writing => "write"

inductive Error where
  | pathTooLong (length max : Nat)
  | pathEncoding (path : String) (defect : PathDefect)
  | file (step : FileStep) (path : String) (fault : Fault)
  | compression (error : BlockError)
  | decompression (error : BlockError)
  | invalidConfig (refusal : Config.Refusal)
  | workerSpawn (worker : String) (fault : Fault)
  | serviceStopped
deriving DecidableEq

namespace Error

def message : Error → String
  | .pathTooLong n max =>
    "path is " ++ toString n ++ " bytes, limit is " ++ toString max
  | .pathEncoding path defect =>
    "path " ++ Text.quoted path ++ " cannot be translated to a native path: " ++ defect.message
  | .file step path fault =>
    step.message ++ " failed for " ++ Text.quoted path ++ ": " ++ fault.message
  | .compression e => "compression failed: " ++ e.message
  | .decompression e => "decompression failed: " ++ e.message
  | .invalidConfig refusal => "invalid configuration: " ++ refusal.message
  | .workerSpawn worker fault => "failed to start " ++ worker ++ " worker: " ++ fault.message
  | .serviceStopped => "filesystem service has stopped"

/-- The failure from below that an error passes on. -/
def fault? : Error → Option Fault
  | .file _ _ fault => some fault
  | .workerSpawn _ fault => some fault
  | _ => none

/-- The operating system's code where there is one, else the generic code. -/
def code (e : Error) : Int := (e.fault?.bind Fault.code?).getD Limits.genericFailureCode

end Error

def resultCode : Except Error Unit → Int
  | .ok () => Limits.successCode
  | .error e => e.code

end QueuedFiles
