import QueuedFiles.Json.Skip

/-!
Numbers of a stated kind, and the description of a value of another kind.
-/

namespace QueuedFiles.Json

open Bytes (ascii)
open Decimal

namespace Number

def found : Number → Found
  | .natural n => .integer n
  | .negative n => .integer (-n)
  | .float x => .float x

def toBinary64 : Number → Binary64
  | .natural n => (Binary64.ofNat n).getD (Binary64.zero false)
  | .negative n => ((Binary64.ofNat n).getD (Binary64.zero false)).neg
  | .float x => x

end Number

/-- What stands at a place: scalars are read, a bracket is only looked at. -/
def describe (c : Cursor) : Except Failure (Found × Cursor) :=
  match c.next? with
  | none => failAhead .noValue c
  | some (b, d) =>
    if b = ascii 'n' then (word ['u', 'l', 'l'] d).map (.null, ·)
    else if b = ascii 't' then (word ['r', 'u', 'e'] d).map (.boolean true, ·)
    else if b = ascii 'f' then (word ['a', 'l', 's', 'e'] d).map (.boolean false, ·)
    else if b = ascii '-' then (number true d).map fun r ↦ (r.1.found, r.2)
    else if isDigit b then (number false c).map fun r ↦ (r.1.found, r.2)
    else if b = ascii '"' then (text d).map fun r ↦ (.text (Bytes.toText r.1), r.2)
    else if b = ascii '[' then .ok (.list, c)
    else if b = ascii '{' then .ok (.object, c)
    else failAhead .noValue c

/-- The failure of meeting something else than `expected`. A fault inside that something wins. -/
def mismatch {α : Type} (expected : String) (c : Cursor) : Except Failure α :=
  match describe c with
  | .error f => .error f
  | .ok (found, d) => fail (.wrongType found expected) d

theorem mismatch_ne_ok {α : Type} {e : String} {c d : Cursor} {a : α} :
    mismatch e c ≠ .ok (a, d) := by
  unfold mismatch fail
  split <;> simp

def scalar (expected : String) (c : Cursor) : Except Failure (Number × Cursor) :=
  let c := c.skipBlank
  match c.next? with
  | none => failAhead .endInValue c
  | some (b, d) =>
    if b = ascii '-' then number true d
    else if isDigit b then number false c
    else mismatch expected c

theorem length_scalar {e : String} {c d : Cursor} {n : Number} (h : scalar e c = .ok (n, d)) :
    d.rest.length ≤ c.rest.length := by
  unfold scalar failAhead at h
  dsimp only at h
  have := c.length_skipBlank
  split at h
  · simp at h
  · next hn =>
    have := Cursor.length_of_next? hn
    split at h
    · have := length_number h
      omega
    · split at h
      · have := length_number h
        omega
      · unfold mismatch fail at h
        split at h <;> simp at h

def Reader.map {α β : Type} (r : Reader α) (f : α → β) : Reader β where
  read c := (r.read c).map fun x ↦ (f x.1, x.2)
  length_le h := by
    simp only [map_eq_ok, Prod.mk.injEq, Prod.exists] at h
    obtain ⟨a, d, hd, -, rfl⟩ := h
    exact r.length_le hd

/-- A natural number up to `limit`, named `expected` in messages. -/
def natural (expected : String) (limit : Nat) : Reader Nat where
  read c := do
    let (n, d) ← scalar expected c
    match n with
    | .natural k => if k ≤ limit then .ok (k, d) else fail (.wrongValue n.found expected) d
    | .negative _ => fail (.wrongValue n.found expected) d
    | .float _ => fail (.wrongType n.found expected) d
  length_le h := by
    simp only [bind_eq_ok, Prod.exists] at h
    obtain ⟨n, d, hd, h⟩ := h
    have := length_scalar hd
    split at h
    · split at h
      · simp only [Except.ok.injEq, Prod.mk.injEq] at h
        exact h.2 ▸ this
      · simp [fail] at h
    · simp [fail] at h
    · simp [fail] at h

/-- Sizes, 64-bit counts and 32-bit counts. -/
def size : Reader Nat := natural "usize" (UInt64.size - 1)

def count64 : Reader Nat := natural "u64" (UInt64.size - 1)

def count32 : Reader Nat := natural "u32" (UInt32.size - 1)

/-- A number of any kind, as the double nearest to it. -/
def double64 : Reader Binary64 where
  read c := (scalar "f64" c).map fun r ↦ (r.1.toBinary64, r.2)
  length_le h := by
    simp only [map_eq_ok, Prod.mk.injEq, Prod.exists] at h
    obtain ⟨n, d, hd, -, rfl⟩ := h
    exact length_scalar hd

end QueuedFiles.Json
