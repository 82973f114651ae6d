import QueuedFiles.Json.Cause
import QueuedFiles.Json.Cursor

/-!
Why and where a reader gives up. A failure is placed at the reader's byte, one byte further, or, for
a fault of a whole record, where the reader has closed that record.
-/

namespace QueuedFiles.Json

inductive Anchor where
  /-- The byte the reader is about to read. -/
  | here
  /-- One byte further, unless the document ends. -/
  | ahead
  /-- The place reached once the enclosing record is closed. -/
  | pending
deriving DecidableEq

/-- A reader's failure, with the place where it stopped. -/
structure Failure where
  cause : Cause
  cursor : Cursor
  anchor : Anchor
deriving DecidableEq

def fail {α : Type} (cause : Cause) (c : Cursor) : Except Failure α := .error ⟨cause, c, .here⟩

def failAhead {α : Type} (cause : Cause) (c : Cursor) : Except Failure α :=
  .error ⟨cause, c, .ahead⟩

def failPending {α : Type} (cause : Cause) (c : Cursor) : Except Failure α :=
  .error ⟨cause, c, .pending⟩

namespace Failure

/-- A pending failure is placed where its record was closed. -/
def placedAt (f : Failure) (c : Cursor) : Failure :=
  match f.anchor with
  | .pending => ⟨f.cause, c, .here⟩
  | _ => f

/-- The byte a failure is reported at, as an offset into the document. -/
def offset (f : Failure) : Nat :=
  match f.anchor with
  | .ahead => f.cursor.passed + min 1 f.cursor.rest.length
  | _ => f.cursor.passed

end Failure

/-- A failure with its line, from 1, and its column in bytes. -/
structure Complaint where
  cause : Cause
  line : Nat
  column : Nat
deriving DecidableEq

namespace Complaint

def locate (document : Bytes) (f : Failure) : Complaint :=
  let before := document.take f.offset
  let lastLine := before.reverse.takeWhile (· ≠ 0x0a)
  ⟨f.cause, before.count 0x0a + 1, lastLine.length⟩

def message (c : Complaint) : String :=
  c.cause.message ++ " at line " ++ toString c.line ++ " column " ++ toString c.column

end Complaint

/-- A reader of one kind of value: what it leaves is never longer than what it was given. -/
structure Reader (α : Type) where
  read : Cursor → Except Failure (α × Cursor)
  length_le : ∀ {c d : Cursor} {a : α}, read c = .ok (a, d) → d.rest.length ≤ c.rest.length

theorem bind_eq_ok {ε α β : Type} {x : Except ε α} {f : α → Except ε β} {b : β} :
    (x >>= f) = .ok b ↔ ∃ a, x = .ok a ∧ f a = .ok b := by
  cases x <;> simp [bind, Except.bind]

theorem map_eq_ok {ε α β : Type} {x : Except ε α} {f : α → β} {b : β} :
    x.map f = .ok b ↔ ∃ a, x = .ok a ∧ f a = b := by
  cases x <;> simp [Except.map]

end QueuedFiles.Json
