import QueuedFiles.Telemetry.Snapshot

/-!
The telemetry shared by both workers: counters and times behind one lock. An update that breaks off
leaves the lock marked, which bars nobody: what it had added stays, and later updates go on.
-/

namespace QueuedFiles.Telemetry

structure Recorder where
  counters : Counters
  stageTimes : StageTimes
  /-- Whether some update broke off while it held the lock. -/
  marked : Bool
deriving DecidableEq

/-- What a caller does to the counters under the lock: additions, and a break at the end or none. -/
structure Update where
  additions : List Addition
  breaksOff : Bool

namespace Recorder

def empty : Recorder := ⟨.zero, .empty, false⟩

instance : Inhabited Recorder := ⟨empty⟩

/-- The counters grow by all additions made, whether or not the update breaks off behind them. -/
def update (r : Recorder) (u : Update) : Recorder :=
  { r with counters := r.counters.addAll u.additions, marked := r.marked || u.breaksOff }

def count (r : Recorder) (a : Addition) : Recorder := r.update ⟨[a], false⟩

/-- One more measurement; where its sum breaks off, the times stay as the break leaves them. -/
def addTime (r : Recorder) (a : Activity) (d : Duration) : Except TimeOverflow Unit × Recorder :=
  match r.stageTimes.accumulate a d with
  | (.ok (), t) => (.ok (), { r with stageTimes := t })
  | (.error e, t) => (.error e, { r with stageTimes := t, marked := true })

def snapshot (r : Recorder) (elapsed : Duration) : Snapshot :=
  .take r.counters r.stageTimes elapsed

@[simp] theorem counters_addTime (r : Recorder) (a : Activity) (d : Duration) :
    (r.addTime a d).2.counters = r.counters := by
  rw [addTime]
  split <;> rfl

@[simp] theorem stageTimes_addTime (r : Recorder) (a : Activity) (d : Duration) :
    (r.addTime a d).2.stageTimes = (r.stageTimes.accumulate a d).2 := by
  rw [addTime]
  split <;> next h => rw [h]

@[simp] theorem answer_addTime (r : Recorder) (a : Activity) (d : Duration) :
    (r.addTime a d).1 = (r.stageTimes.accumulate a d).1 := by
  rw [addTime]
  split <;> next h => rw [h]

end Recorder

end QueuedFiles.Telemetry
