import QueuedFiles.Bytes

/-!
Where the reader of a document stands. Moving on never makes what lies ahead longer.
-/

namespace QueuedFiles.Json

/-- A place in a document: how many bytes lie behind, and the bytes ahead. -/
structure Cursor where
  passed : Nat
  rest : Bytes
deriving DecidableEq

namespace Cursor

def next? (c : Cursor) : Option (UInt8 × Cursor) :=
  match c.rest with
  | [] => none
  | b :: r => some (b, ⟨c.passed + 1, r⟩)

def advance (c : Cursor) (n : Nat) : Cursor := ⟨c.passed + n, c.rest.drop n⟩

/-- The place behind the longest run of bytes that satisfy `p`. -/
def skipWhile (c : Cursor) (p : UInt8 → Bool) : Cursor := c.advance (c.rest.takeWhile p).length

def isBlank (b : UInt8) : Bool := b = 0x20 || b = 0x0a || b = 0x09 || b = 0x0d

def skipBlank (c : Cursor) : Cursor := c.skipWhile isBlank

def nextIs (c : Cursor) (p : UInt8 → Bool) : Bool := c.rest.head?.any p

theorem length_of_next? {c d : Cursor} {b : UInt8} (h : c.next? = some (b, d)) :
    d.rest.length + 1 = c.rest.length := by
  unfold next? at h
  split at h
  · simp at h
  · next hr =>
    simp only [Option.some.injEq, Prod.mk.injEq] at h
    simp [hr, ← h.2]

theorem length_advance (c : Cursor) (n : Nat) : (c.advance n).rest.length ≤ c.rest.length := by
  simp [advance]

theorem length_skipWhile (c : Cursor) (p : UInt8 → Bool) :
    (c.skipWhile p).rest.length ≤ c.rest.length := c.length_advance _

theorem length_skipBlank (c : Cursor) : c.skipBlank.rest.length ≤ c.rest.length :=
  c.length_skipWhile _

end Cursor

end QueuedFiles.Json
