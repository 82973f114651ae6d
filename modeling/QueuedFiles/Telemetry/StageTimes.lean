import QueuedFiles.Duration
import QueuedFiles.Json.Record
import QueuedFiles.Json.Table
import QueuedFiles.Json.Tree

/-!
Time spent per activity. An activity is present from its first measurement on, be it zero. A sum that
no duration can hold breaks off.
-/

namespace QueuedFiles

namespace Duration

/-- The document form: seconds, then nanoseconds, which may exceed a second. -/
def record : Json.Record (UInt64 × Nat) Duration where
  title := "struct Duration"
  lengthTitle := "struct Duration"
  fields := [
    ⟨"secs", fun d ↦ Json.count64.map fun n ↦ (n.toUInt64, d.2)⟩,
    ⟨"nanos", fun d ↦ Json.count32.map fun n ↦ (d.1, n)⟩]
  closed := true
  partialOk := false
  start := (0, 0)
  finish d := match ofParts? d.1 d.2 with
    | some d => .ok d
    | none => .error .durationTooLong

def tree (d : Duration) : Json.Tree :=
  .object [("secs", .natural d.seconds.toNat), ("nanos", .natural d.nanos)]

end Duration

namespace Telemetry

inductive Activity where
  | read
  | write
  | compress
  | decompress
deriving DecidableEq, Repr

namespace Activity

def all : List Activity := [.read, .write, .compress, .decompress]

def name : Activity → String
  | .read => "read"
  | .write => "write"
  | .compress => "compress"
  | .decompress => "decompress"

def key : Activity → String
  | .read => "Read"
  | .write => "Write"
  | .compress => "Compress"
  | .decompress => "Decompress"

end Activity

/-- A sum of durations that no duration can hold. -/
inductive TimeOverflow where
  | adding
  | totalling
deriving DecidableEq

def TimeOverflow.message : TimeOverflow → String
  | .adding => "overflow when adding durations"
  | .totalling => "overflow in iter::sum over durations"

/-- The time of each activity that was measured. -/
structure StageTimes where
  read : Option Duration
  write : Option Duration
  compress : Option Duration
  decompress : Option Duration
deriving DecidableEq

namespace StageTimes

def empty : StageTimes := ⟨none, none, none, none⟩

instance : Inhabited StageTimes := ⟨empty⟩

def find? (t : StageTimes) : Activity → Option Duration
  | .read => t.read
  | .write => t.write
  | .compress => t.compress
  | .decompress => t.decompress

def insert (t : StageTimes) (a : Activity) (d : Duration) : StageTimes :=
  match a with
  | .read => { t with read := some d }
  | .write => { t with write := some d }
  | .compress => { t with compress := some d }
  | .decompress => { t with decompress := some d }

/-- The time of an activity, zero if it was never measured. -/
def get (t : StageTimes) (a : Activity) : Duration := (t.find? a).getD .zero

/-- The times with an entry for an activity: its own, or zero if it has none yet. -/
def entered (t : StageTimes) (a : Activity) : StageTimes :=
  match t.find? a with
  | some _ => t
  | none => t.insert a .zero

/-- Adds a time to the entry of an activity. The entry is made before the sum, and a sum that no
duration can hold breaks off behind it. -/
def accumulate (t : StageTimes) (a : Activity) (d : Duration) :
    Except TimeOverflow Unit × StageTimes :=
  let t := t.entered a
  match (t.get a).add? d with
  | some sum => (.ok (), t.insert a sum)
  | none => (.error .adding, t)

/-- The times after one more measurement, if its sum can be held. -/
def add (t : StageTimes) (a : Activity) (d : Duration) : Except TimeOverflow StageTimes :=
  match t.accumulate a d with
  | (.ok (), t) => .ok t
  | (.error e, _) => .error e

/-- The activities measured so far, in the order given. -/
def present (t : StageTimes) (order : List Activity) : List (Activity × Duration) :=
  order.filterMap fun a ↦ (t.find? a).map (a, ·)

/-- The times of all activities together, taken in the order given. -/
def totalIn (t : StageTimes) (order : List Activity) : Except TimeOverflow Duration :=
  match Duration.sum? ((t.present order).map (·.2)) with
  | some sum => .ok sum
  | none => .error .totalling

def total (t : StageTimes) : Except TimeOverflow Duration := t.totalIn Activity.all

/-- Whether each of the given activities took some time. -/
def hasAll (t : StageTimes) (as : List Activity) : Bool := as.all fun a ↦ (t.get a).isPositive

theorem ext_find {t u : StageTimes} (h : ∀ a, t.find? a = u.find? a) : t = u := by
  cases t
  cases u
  simp only [StageTimes.mk.injEq]
  exact ⟨h .read, h .write, h .compress, h .decompress⟩

@[simp] theorem find?_insert (t : StageTimes) (a b : Activity) (d : Duration) :
    (t.insert a d).find? b = if b = a then some d else t.find? b := by
  cases a <;> cases b <;> rfl

/-- The document form of the times alone: a table from activities to durations. -/
def table : Json.Table StageTimes where
  fields := Activity.all.map fun a ↦ ⟨a.key, fun t ↦ Duration.record.reader.map (t.insert a)⟩
  start := empty

/-- The document form: one field that holds the table. -/
def record : Json.Record StageTimes StageTimes where
  title := "struct StageTimes"
  lengthTitle := "struct StageTimes with 1 element"
  fields := [⟨"times", fun _ ↦ table.reader⟩]
  closed := false
  partialOk := false
  start := empty
  finish := .ok

/-- The times as a document, the table written in a given order. -/
def tree (t : StageTimes) (order : List Activity) : Json.Tree :=
  .object [("times", .object ((t.present order).map fun (a, d) ↦ (a.key, d.tree)))]

end StageTimes

end Telemetry

end QueuedFiles
