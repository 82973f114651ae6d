import QueuedFiles.Json.Entries

/-!
Records: objects with known keys, or lists of the same values in their declared order.
-/

namespace QueuedFiles.Json

open Bytes (ascii)

/-- A record type: `σ` is what has been read so far, `α` the finished value. -/
structure Record (σ α : Type) where
  /-- The record as named in messages. -/
  title : String
  /-- The record with its number of values, as named in messages. -/
  lengthTitle : String
  fields : List (Field σ)
  /-- Whether unknown keys are refused; else their values are passed over. -/
  closed : Bool
  partialOk : Bool
  start : σ
  finish : σ → Except Cause α

namespace Record

variable {σ α : Type} (r : Record σ α)

/-- A known field may come once; an unknown one is refused by a closed record only. -/
def choose : Choice σ := fun met key c ↦
  match r.fields.find? fun f ↦ Bytes.ofText f.name = key with
  | some f => if f.name ∈ met then failPending (.duplicateField f.name) c else .ok (some f)
  | none =>
    if r.closed then failPending (.unknownField (Bytes.toText key) (r.fields.map (·.name))) c
    else .ok none

/-- The finished value, or what is wrong with the record as a whole. -/
def complete (met : List String) (s : σ) (c : Cursor) : Except Failure (α × Cursor) :=
  match r.fields.find? fun f ↦ f.name ∉ met with
  | some f =>
    if r.partialOk then finishAt s c else failPending (.missingField f.name) c
  | none => finishAt s c
where
  finishAt (s : σ) (c : Cursor) : Except Failure (α × Cursor) :=
    match r.finish s with
    | .ok a => .ok (a, c)
    | .error cause => failPending cause c

/-- A record written as an object, from behind its opening bracket. -/
def object (c : Cursor) : Except Failure (α × Cursor) :=
  closing closeObject do
    let ((s, met), d) ← entries r.choose true [] r.start c
    r.complete met s d

/-- Whether another value follows in a list, and the place in front of it. -/
def nextElement (first : Bool) (c : Cursor) : Except Failure (Bool × Cursor) :=
  let c := c.skipBlank
  match c.next? with
  | none => failAhead .endInList c
  | some (b, d) =>
    if b = ascii ']' then .ok (false, c)
    else if first then .ok (true, c)
    else if b = ascii ',' then
      let d := d.skipBlank
      if d.rest.isEmpty then failAhead .endInValue d
      else if d.nextIs (· = ascii ']') then failAhead .trailingComma d
      else .ok (true, d)
    else failAhead .listCommaMissing c

/-- The values of a list, `k` of which have been read; `fields` are still to come. -/
def elements (k : Nat) (s : σ) : List (Field σ) → Cursor → Except Failure (σ × Cursor)
  | [], c => .ok (s, c)
  | f :: fs, c => do
    let (more, d) ← nextElement (k = 0) c
    if more then
      let (t, e) ← (f.value s).read d
      elements (k + 1) t fs e
    else if r.partialOk then .ok (s, d)
    else failPending (.wrongLength k r.lengthTitle) d

/-- A record written as a list, from behind its opening bracket. -/
def list (c : Cursor) : Except Failure (α × Cursor) :=
  closing closeList do
    let (s, d) ← r.elements 0 r.start r.fields c
    complete.finishAt r s d

def read (c : Cursor) : Except Failure (α × Cursor) :=
  let c := c.skipBlank
  match c.next? with
  | none => failAhead .endInValue c
  | some (b, d) =>
    if b = ascii '{' then r.object d
    else if b = ascii '[' then r.list d
    else mismatch r.title c

variable {r}

theorem cursor_finishAt {s : σ} {c d : Cursor} {a : α}
    (h : complete.finishAt r s c = .ok (a, d)) : d = c := by
  unfold complete.finishAt failPending at h
  split at h <;> simp_all

theorem cursor_complete {met : List String} {s : σ} {c d : Cursor} {a : α}
    (h : r.complete met s c = .ok (a, d)) : d = c := by
  unfold complete at h
  split at h
  · split at h
    · exact cursor_finishAt h
    · simp [failPending] at h
  · exact cursor_finishAt h

theorem length_object {c d : Cursor} {a : α} (h : r.object c = .ok (a, d)) :
    d.rest.length ≤ c.rest.length := by
  simp only [object, closing_eq_ok, bind_eq_ok, Prod.exists] at h
  obtain ⟨c₁, ⟨s, met, d₁, h₁, h₂⟩, h₃⟩ := h
  have := length_entries h₁
  have := length_closeObject h₃
  rw [cursor_complete h₂] at this
  omega

theorem length_nextElement {first more : Bool} {c d : Cursor}
    (h : nextElement first c = .ok (more, d)) : d.rest.length ≤ c.rest.length := by
  unfold nextElement failAhead at h
  dsimp only at h
  have := c.length_skipBlank
  split at h
  · simp at h
  · next b e hn =>
    have := Cursor.length_of_next? hn
    have := e.length_skipBlank
    split at h
    · simp only [Except.ok.injEq, Prod.mk.injEq] at h
      rw [← h.2]
      omega
    · split at h
      · simp only [Except.ok.injEq, Prod.mk.injEq] at h
        rw [← h.2]
        omega
      · split at h
        · split at h
          · simp at h
          · split at h
            · simp at h
            · simp only [Except.ok.injEq, Prod.mk.injEq] at h
              rw [← h.2]
              omega
        · simp at h

theorem length_elements {k : Nat} {s t : σ} {fs : List (Field σ)} {c d : Cursor}
    (h : r.elements k s fs c = .ok (t, d)) : d.rest.length ≤ c.rest.length := by
  induction fs generalizing k s c with
  | nil =>
    simp only [elements, Except.ok.injEq, Prod.mk.injEq] at h
    exact h.2 ▸ Nat.le_refl _
  | cons f fs ih =>
    simp only [elements, bind_eq_ok, Prod.exists] at h
    obtain ⟨more, e, he, h⟩ := h
    have := length_nextElement he
    split at h
    · simp only [bind_eq_ok, Prod.exists] at h
      obtain ⟨u, e', he', h⟩ := h
      have := (f.value s).length_le he'
      have := ih h
      omega
    · split at h
      · simp only [Except.ok.injEq, Prod.mk.injEq] at h
        exact h.2 ▸ this
      · simp [failPending] at h

theorem length_list {c d : Cursor} {a : α} (h : r.list c = .ok (a, d)) :
    d.rest.length ≤ c.rest.length := by
  simp only [list, closing_eq_ok, bind_eq_ok, Prod.exists] at h
  obtain ⟨c₁, ⟨s, d₁, h₁, h₂⟩, h₃⟩ := h
  have := length_elements h₁
  have := length_closeList h₃
  rw [cursor_finishAt h₂] at this
  omega

variable (r)

def reader : Reader α where
  read := r.read
  length_le {c d a} h := by
    unfold read failAhead at h
    dsimp only at h
    have := c.length_skipBlank
    split at h
    · simp at h
    · next hn =>
      have := Cursor.length_of_next? hn
      split at h
      · have := length_object h
        omega
      · split at h
        · have := length_list h
          omega
        · exact absurd h mismatch_ne_ok

end Record

end QueuedFiles.Json
