import QueuedFiles.Json.Document
import QueuedFiles.Json.Record
import QueuedFiles.Json.Tree
import QueuedFiles.Limits

/-!
Configuration of the service: three bounds with defaults, their checks, and their document form. A
document may leave fields out and hold unknown ones; a configuration that was read has passed the
checks.
-/

namespace QueuedFiles

structure Config where
  queueCapacity : UInt64
  /-- Longest accepted path, in bytes of UTF-8. -/
  maxPathLength : UInt64
  maxDecompressedSize : UInt64
deriving DecidableEq

namespace Config

def default : Config :=
  ⟨Limits.queueCapacity.toUInt64, Limits.pathLength.toUInt64, Limits.decompressedSize.toUInt64⟩

instance : Inhabited Config := ⟨default⟩

def ofCapacity (n : UInt64) : Config := { default with queueCapacity := n }

def withMaxPathLength (c : Config) (n : UInt64) : Config := { c with maxPathLength := n }

def withMaxDecompressedSize (c : Config) (n : UInt64) : Config :=
  { c with maxDecompressedSize := n }

inductive Refusal where
  | noQueueCapacity
  | queueCapacityTooLarge (n : UInt64)
  | noPathLength
  | noDecompressedSize
  | decompressedSizeTooLarge (n : UInt64)
  | unreadable (complaint : Json.Complaint)
  | stated (reason : String)
deriving DecidableEq

def Refusal.message : Refusal → String
  | .noQueueCapacity => "queue_capacity must be at least 1"
  | .queueCapacityTooLarge n =>
    "queue_capacity " ++ toString n ++ " exceeds " ++ toString Limits.queueCapacityCeiling
  | .noPathLength => "max_path_len must be at least 1"
  | .noDecompressedSize => "max_decompressed_size must be at least 1"
  | .decompressedSizeTooLarge n =>
    "max_decompressed_size " ++ toString n ++ " exceeds " ++ toString Limits.decompressedSizeCeiling
  | .unreadable complaint => complaint.message
  | .stated reason => reason

/-- The first bound that is out of range, the queue's before the path's before the payload's. -/
def validate (c : Config) : Except Refusal Unit :=
  if c.queueCapacity.toNat = 0 then .error .noQueueCapacity
  else if Limits.queueCapacityCeiling < c.queueCapacity.toNat then
    .error (.queueCapacityTooLarge c.queueCapacity)
  else if c.maxPathLength.toNat = 0 then .error .noPathLength
  else if c.maxDecompressedSize.toNat = 0 then .error .noDecompressedSize
  else if Limits.decompressedSizeCeiling < c.maxDecompressedSize.toNat then
    .error (.decompressedSizeTooLarge c.maxDecompressedSize)
  else .ok ()

def field (name : String) (set : Config → UInt64 → Config) : Json.Field Config where
  name := name
  value c := Json.size.map fun n ↦ set c n.toUInt64

/-- The document form: fields in this order, each of them optional. -/
def record : Json.Record Config Config where
  title := "struct FsConfig"
  lengthTitle := "struct FsConfig with 3 elements"
  fields := [
    field "queue_capacity" fun c n ↦ { c with queueCapacity := n },
    field "max_path_len" fun c n ↦ { c with maxPathLength := n },
    field "max_decompressed_size" fun c n ↦ { c with maxDecompressedSize := n }]
  closed := false
  partialOk := true
  start := default
  finish := .ok

def parse (document : Bytes) : Except Refusal Config :=
  match record.reader.document document with
  | .error complaint => .error (.unreadable complaint)
  | .ok c => (validate c).map fun _ ↦ c

def tree (c : Config) : Json.Tree :=
  .object [
    ("queue_capacity", .natural c.queueCapacity.toNat),
    ("max_path_len", .natural c.maxPathLength.toNat),
    ("max_decompressed_size", .natural c.maxDecompressedSize.toNat)]

def render (c : Config) : String := c.tree.compact

end Config

end QueuedFiles
