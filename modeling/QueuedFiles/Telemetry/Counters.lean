import QueuedFiles.Json.Document
import QueuedFiles.Json.Record
import QueuedFiles.Json.Tree

/-!
Counters of requests and bytes. Every field is a 64-bit word that wraps around.
-/

namespace QueuedFiles.Telemetry

structure Counters where
  readsCompleted : UInt64
  writesCompleted : UInt64
  compressions : UInt64
  decompressions : UInt64
  failures : UInt64
  /-- Requests given up because the next queue was closed. -/
  abandoned : UInt64
  bytesRead : UInt64
  bytesWritten : UInt64
  /-- Uncompressed side of every codec run. -/
  bytesPlain : UInt64
  /-- Compressed side of every codec run. -/
  bytesCompressed : UInt64
deriving DecidableEq

inductive Addition where
  | read (bytes : UInt64)
  | write (bytes : UInt64)
  | compress (plain compressed : UInt64)
  | decompress (compressed plain : UInt64)
  | failure
  | abandoned
deriving DecidableEq

namespace Counters

def zero : Counters := ⟨0, 0, 0, 0, 0, 0, 0, 0, 0, 0⟩

instance : Inhabited Counters := ⟨zero⟩

def add (c : Counters) : Addition → Counters
  | .read n => { c with readsCompleted := c.readsCompleted + 1, bytesRead := c.bytesRead + n }
  | .write n =>
    { c with writesCompleted := c.writesCompleted + 1, bytesWritten := c.bytesWritten + n }
  | .compress plain compressed =>
    { c with
      compressions := c.compressions + 1
      bytesPlain := c.bytesPlain + plain
      bytesCompressed := c.bytesCompressed + compressed }
  | .decompress compressed plain =>
    { c with
      decompressions := c.decompressions + 1
      bytesPlain := c.bytesPlain + plain
      bytesCompressed := c.bytesCompressed + compressed }
  | .failure => { c with failures := c.failures + 1 }
  | .abandoned => { c with abandoned := c.abandoned + 1 }

def addAll (c : Counters) (as : List Addition) : Counters := as.foldl add c

/-- Field by field, the sum of two counters. -/
def merge (c d : Counters) : Counters :=
  ⟨c.readsCompleted + d.readsCompleted, c.writesCompleted + d.writesCompleted,
    c.compressions + d.compressions, c.decompressions + d.decompressions,
    c.failures + d.failures, c.abandoned + d.abandoned,
    c.bytesRead + d.bytesRead, c.bytesWritten + d.bytesWritten,
    c.bytesPlain + d.bytesPlain, c.bytesCompressed + d.bytesCompressed⟩

instance : Add Counters := ⟨merge⟩

/-- The fields with their names in documents, in document order. -/
def named (c : Counters) : List (String × UInt64) := [
  ("reads_completed", c.readsCompleted),
  ("writes_completed", c.writesCompleted),
  ("compressions", c.compressions),
  ("decompressions", c.decompressions),
  ("failures", c.failures),
  ("abandoned", c.abandoned),
  ("bytes_read", c.bytesRead),
  ("bytes_written", c.bytesWritten),
  ("bytes_plain", c.bytesPlain),
  ("bytes_compressed", c.bytesCompressed)]

def tree (c : Counters) : Json.Tree :=
  .object (c.named.map fun (name, n) ↦ (name, .natural n.toNat))

def render (c : Counters) : String := c.tree.compact

def field (name : String) (set : Counters → UInt64 → Counters) : Json.Field Counters where
  name := name
  value c := Json.count64.map fun n ↦ set c n.toUInt64

/-- The document form: all ten fields, in this order. -/
def record : Json.Record Counters Counters where
  title := "struct TelemetryCounters"
  lengthTitle := "struct TelemetryCounters with 10 elements"
  fields := [
    field "reads_completed" fun c n ↦ { c with readsCompleted := n },
    field "writes_completed" fun c n ↦ { c with writesCompleted := n },
    field "compressions" fun c n ↦ { c with compressions := n },
    field "decompressions" fun c n ↦ { c with decompressions := n },
    field "failures" fun c n ↦ { c with failures := n },
    field "abandoned" fun c n ↦ { c with abandoned := n },
    field "bytes_read" fun c n ↦ { c with bytesRead := n },
    field "bytes_written" fun c n ↦ { c with bytesWritten := n },
    field "bytes_plain" fun c n ↦ { c with bytesPlain := n },
    field "bytes_compressed" fun c n ↦ { c with bytesCompressed := n }]
  closed := false
  partialOk := false
  start := zero
  finish := .ok

def parse (document : Bytes) : Except Json.Complaint Counters := record.reader.document document

end Counters

end QueuedFiles.Telemetry
