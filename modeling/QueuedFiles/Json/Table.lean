import QueuedFiles.Json.Entries

/-!
Tables: objects whose keys are drawn from a fixed set and may come in any number and order.
-/

namespace QueuedFiles.Json

open Bytes (ascii)

/-- A table type: its keys, and how the value of a key changes what has been read so far. -/
structure Table (σ : Type) where
  fields : List (Field σ)
  start : σ

namespace Table

variable {σ : Type} (t : Table σ)

/-- Every key must be known; a repeated one counts again. -/
def choose : Choice σ := fun _ key c ↦
  match t.fields.find? fun f ↦ Bytes.ofText f.name = key with
  | some f => .ok (some f)
  | none => fail (.unknownVariant (Bytes.toText key) (t.fields.map (·.name))) c

/-- A table, which only an object can be. -/
def read (c : Cursor) : Except Failure (σ × Cursor) :=
  let c := c.skipBlank
  match c.next? with
  | none => failAhead .endInValue c
  | some (b, d) =>
    if b = ascii '{' then
      closing closeObject ((entries t.choose true [] t.start d).map fun r ↦ (r.1.1, r.2))
    else mismatch "a map" c

def reader : Reader σ where
  read := t.read
  length_le {c d a} h := by
    unfold read failAhead at h
    dsimp only at h
    have := c.length_skipBlank
    split at h
    · simp at h
    · next hn =>
      have := Cursor.length_of_next? hn
      split at h
      · simp only [closing_eq_ok, map_eq_ok, Prod.mk.injEq, Prod.exists] at h
        obtain ⟨e, ⟨u, met, e', he, -, rfl⟩, h⟩ := h
        have := length_entries he
        have := length_closeObject h
        omega
      · exact absurd h mismatch_ne_ok

end Table

end QueuedFiles.Json
