/-!
Spans of time: whole seconds in a 64-bit word and nanoseconds below one second. Sums are made of
words, with a carry from the nanoseconds, and absent when the seconds do not fit.
-/

namespace QueuedFiles

structure Duration where
  seconds : UInt64
  nanos : Nat
  nanos_lt : nanos < 1000000000
deriving DecidableEq

namespace Duration

def zero : Duration := ⟨0, 0, by decide⟩

instance : Inhabited Duration := ⟨zero⟩

def toNanos (d : Duration) : Nat := d.seconds.toNat * 1000000000 + d.nanos

/-- The span of `n` nanoseconds, if its seconds fit in a word. -/
def ofNanos? (n : Nat) : Option Duration :=
  if n / 1000000000 < UInt64.size then
    some ⟨(n / 1000000000).toUInt64, n % 1000000000, Nat.mod_lt _ (by decide)⟩
  else none

/-- The sum of two words, if it is a word. -/
def addWords? (a b : UInt64) : Option UInt64 :=
  if a.toNat + b.toNat < UInt64.size then some (a + b) else none

/-- Seconds and nanoseconds are added apart; a second made of nanoseconds is carried over. -/
def add? (a b : Duration) : Option Duration := do
  let seconds ← addWords? a.seconds b.seconds
  if h : a.nanos + b.nanos < 1000000000 then
    some ⟨seconds, a.nanos + b.nanos, h⟩
  else
    let carried ← addWords? seconds 1
    some ⟨carried, a.nanos + b.nanos - 1000000000, by
      have := a.nanos_lt
      have := b.nanos_lt
      omega⟩

/-- A sum of many durations under way. -/
structure Tally where
  seconds : UInt64
  nanos : UInt64

/-- Takes in one more duration; the nanoseconds are carried over only when their word is full. -/
def Tally.add? (t : Tally) (d : Duration) : Option Tally := do
  let seconds ← addWords? t.seconds d.seconds
  match addWords? t.nanos d.nanos.toUInt64 with
  | some nanos => some ⟨seconds, nanos⟩
  | none =>
    let carried ← addWords? seconds (t.nanos / 1000000000)
    some ⟨carried, t.nanos % 1000000000 + d.nanos.toUInt64⟩

def Tally.close? (t : Tally) : Option Duration := do
  let seconds ← addWords? t.seconds (t.nanos / 1000000000)
  some ⟨seconds, (t.nanos % 1000000000).toNat, by
    rw [UInt64.toNat_mod]
    exact Nat.mod_lt _ (by decide)⟩

/-- The sum of all, taken in one after another. -/
def sum? (ds : List Duration) : Option Duration :=
  (ds.foldlM Tally.add? ⟨0, 0⟩).bind Tally.close?

/-- The span with the given parts, nanoseconds beyond one second carried over. -/
def ofParts? (seconds : UInt64) (nanos : Nat) : Option Duration :=
  ofNanos? (seconds.toNat * 1000000000 + nanos)

def isPositive (d : Duration) : Bool := 0 < d.toNanos

theorem toNanos_inj {a b : Duration} (h : a.toNanos = b.toNanos) : a = b := by
  rcases a with ⟨s, n, hn⟩
  rcases b with ⟨t, m, hm⟩
  simp only [toNanos] at h
  have hs : s.toNat = t.toNat := by omega
  obtain rfl := UInt64.toNat_inj.1 hs
  obtain rfl : n = m := by omega
  rfl

theorem toNanos_of_ofNanos? {n : Nat} {d : Duration} (h : ofNanos? n = some d) : d.toNanos = n := by
  unfold ofNanos? at h
  split at h
  · next hn =>
    obtain rfl := Option.some.inj h
    simp only [toNanos, Nat.toUInt64, UInt64.toNat_ofNat', Nat.mod_eq_of_lt hn]
    omega
  · simp at h

end Duration

end QueuedFiles
