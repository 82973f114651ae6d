import QueuedFiles.Telemetry.Counters
import QueuedFiles.Telemetry.StageTimes

/-!
Snapshots: counters, their compression ratio, the time since the start and the time per activity, at
one moment. The order in which a snapshot's document lists the activities is free.
-/

namespace QueuedFiles.Telemetry

open Decimal

structure Snapshot where
  counters : Counters
  ratio : Binary64
  elapsed : Duration
  stageTimes : StageTimes
deriving DecidableEq

/-- Compressed bytes by plain bytes as a double; zero before any codec run. -/
def Counters.ratio (c : Counters) : Binary64 :=
  if c.bytesPlain = 0 then .zero false
  else
    ((do
      let compressed ← Binary64.ofNat c.bytesCompressed.toNat
      let plain ← Binary64.ofNat c.bytesPlain.toNat
      compressed.div plain) : Option Binary64).getD (.zero false)

namespace Snapshot

def take (c : Counters) (t : StageTimes) (elapsed : Duration) : Snapshot :=
  ⟨c, c.ratio, elapsed, t⟩

def hasAllStages (s : Snapshot) (as : List Activity) : Bool := s.stageTimes.hasAll as

/-- The document form: four fields, in this order. -/
def record : Json.Record Snapshot Snapshot where
  title := "struct TelemetrySnapshot"
  lengthTitle := "struct TelemetrySnapshot with 4 elements"
  fields := [
    ⟨"counters", fun s ↦ Counters.record.reader.map fun c ↦ { s with counters := c }⟩,
    ⟨"compression_ratio", fun s ↦ Json.double64.map fun x ↦ { s with ratio := x }⟩,
    ⟨"elapsed", fun s ↦ Duration.record.reader.map fun d ↦ { s with elapsed := d }⟩,
    ⟨"stage_times", fun s ↦ StageTimes.record.reader.map fun t ↦ { s with stageTimes := t }⟩]
  closed := false
  partialOk := false
  start := take .zero .empty .zero
  finish := .ok

def parse (document : Bytes) : Except Json.Complaint Snapshot := record.reader.document document

/-- The document form, the ratio written as a given text. -/
def tree (s : Snapshot) (ratio : String) (order : List Activity) : Json.Tree :=
  .object [
    ("counters", s.counters.tree),
    ("compression_ratio", .number ratio),
    ("elapsed", s.elapsed.tree),
    ("stage_times", s.stageTimes.tree order)]

def renderWith (s : Snapshot) (ratio : String) (order : List Activity) : String :=
  (s.tree ratio order).pretty

/-- The snapshot as a document, the activities listed in a given order. -/
def render (s : Snapshot) (order : List Activity) : String :=
  s.renderWith (String.ofList (s.ratio.render .document)) order

end Snapshot

end QueuedFiles.Telemetry
