import QueuedFiles.Json.Scalar

/-!
Whole documents.
-/

namespace QueuedFiles.Json

/-- One value and nothing behind it but blanks. -/
def whole {α : Type} (r : Reader α) (c : Cursor) : Except Failure α := do
  let (a, d) ← r.read c
  let d := d.skipBlank
  if d.rest.isEmpty then .ok a else failAhead .trailingText d

def Reader.document {α : Type} (r : Reader α) (document : Bytes) : Except Complaint α :=
  match whole r ⟨0, document⟩ with
  | .ok a => .ok a
  | .error f => .error (Complaint.locate document f)

end QueuedFiles.Json
