import QueuedFiles.Json.Scalar

/-!
The inside of an object: keys, values that are read or passed over, and the closing bracket. Faults
of a whole record are pending until its closing bracket has been looked for, whatever that look
finds.
-/

namespace QueuedFiles.Json

open Bytes (ascii)

/-- A key, and how its value changes what has been read so far. -/
structure Field (σ : Type) where
  name : String
  value : σ → Reader σ

def closeObject (c : Cursor) : Except Failure Cursor :=
  let c := c.skipBlank
  match c.next? with
  | none => failAhead .endInObject c
  | some (b, d) =>
    if b = ascii '}' then .ok d
    else if b = ascii ',' then failAhead .trailingComma c
    else failAhead .trailingText c

def closeList (c : Cursor) : Except Failure Cursor :=
  let c := c.skipBlank
  match c.next? with
  | none => failAhead .endInList c
  | some (b, d) =>
    if b = ascii ']' then .ok d
    else if b = ascii ',' then
      let d := d.skipBlank
      failAhead (if d.nextIs (· = ascii ']') then .trailingComma else .trailingText) d
    else failAhead .trailingText c

/-- Where an attempt to close a bracket ended. -/
def reached : Except Failure Cursor → Cursor
  | .ok c => c
  | .error f => f.cursor

/-- The content of a bracket, then its end. The end is tried even after a fault, which then wins. -/
def closing {α : Type} (close : Cursor → Except Failure Cursor)
    (content : Except Failure (α × Cursor)) : Except Failure (α × Cursor) :=
  match content with
  | .error f => .error (f.placedAt (reached (close f.cursor)))
  | .ok (a, c) => (close c).map (a, ·)

/-- The next key of an object, or `none` in front of the closing bracket. -/
def nextKey (first : Bool) (c : Cursor) : Except Failure (Option Bytes × Cursor) :=
  let c := c.skipBlank
  match c.next? with
  | none => failAhead .endInObject c
  | some (b, d) =>
    if b = ascii '}' then .ok (none, c)
    else if first then
      if b = ascii '"' then (text d).map fun r ↦ (some r.1, r.2) else failAhead .keyNotText c
    else if b = ascii ',' then
      let d := d.skipBlank
      match d.next? with
      | none => failAhead .endInValue d
      | some (b', e) =>
        if b' = ascii '"' then (text e).map fun r ↦ (some r.1, r.2)
        else failAhead (if b' = ascii '}' then .trailingComma else .keyNotText) d
    else failAhead .objectCommaMissing c

theorem length_nextKey {first : Bool} {c d : Cursor} {k : Bytes}
    (h : nextKey first c = .ok (some k, d)) : d.rest.length < c.rest.length := by
  have key {e : Cursor} (he : e.rest.length ≤ c.rest.length)
      (hx : (text e).map (fun r ↦ (some r.1, r.2)) = .ok (some k, d)) :
      d.rest.length < c.rest.length := by
    simp only [map_eq_ok, Prod.mk.injEq, Prod.exists] at hx
    obtain ⟨b, d', h', -, rfl⟩ := hx
    have := length_text h'
    omega
  unfold nextKey failAhead at h
  dsimp only at h
  have := c.length_skipBlank
  split at h
  · simp at h
  · next b e hn =>
    have := Cursor.length_of_next? hn
    split at h
    · simp at h
    · split at h
      · split at h
        · exact key (by omega) h
        · simp at h
      · split at h
        · have := e.length_skipBlank
          split at h
          · simp at h
          · next hn' =>
            have := Cursor.length_of_next? hn'
            split at h
            · exact key (by omega) h
            · simp at h
        · simp at h

/-- A key and the fields already met decide what happens to the value: it is read as a field, passed
over, or the key is refused. -/
abbrev Choice (σ : Type) := List String → Bytes → Cursor → Except Failure (Option (Field σ))

/-- The value behind a key: read into `s`, or passed over. -/
def entry {σ : Type} (s : σ) (c : Cursor) : Option (Field σ) → Except Failure (σ × Cursor)
  | some f => colon c >>= (f.value s).read
  | none => (colon c >>= skipValue).map (s, ·)

theorem length_entry {σ : Type} {s t : σ} {c d : Cursor} {f : Option (Field σ)}
    (h : entry s c f = .ok (t, d)) : d.rest.length ≤ c.rest.length := by
  cases f with
  | some f =>
    simp only [entry, bind_eq_ok] at h
    obtain ⟨e, he, h⟩ := h
    have := length_colon he
    have := (f.value s).length_le h
    omega
  | none =>
    simp only [entry, map_eq_ok, bind_eq_ok, Prod.mk.injEq] at h
    obtain ⟨e', ⟨e, he, h⟩, -, rfl⟩ := h
    have := length_colon he
    have := length_skipValue h
    omega

set_option linter.unusedVariables false in
/-- The entries of an object, up to its closing bracket: what was read, and the fields met. -/
def entries {σ : Type} (choose : Choice σ) (first : Bool) (met : List String) (s : σ) (c : Cursor) :
    Except Failure ((σ × List String) × Cursor) :=
  match hk : nextKey first c with
  | .error f => .error f
  | .ok (none, d) => .ok ((s, met), d)
  | .ok (some key, d) =>
    match choose met key d with
    | .error f => .error f
    | .ok field =>
      match he : entry s d field with
      | .error f => .error f
      | .ok (t, e) => entries choose false (field.elim met (·.name :: met)) t e
termination_by c.rest.length
decreasing_by
  have := length_nextKey hk
  have := length_entry he
  omega

theorem length_entries {σ : Type} {choose : Choice σ} {first : Bool} {met : List String}
    {s : σ} {t : σ × List String} {c d : Cursor}
    (h : entries choose first met s c = .ok (t, d)) : d.rest.length ≤ c.rest.length := by
  fun_induction entries choose first met s c with
  | case1 => simp at h
  | case2 first met s c e hk =>
    simp only [Except.ok.injEq, Prod.mk.injEq] at h
    obtain ⟨-, rfl⟩ := h
    unfold nextKey failAhead at hk
    dsimp only at hk
    split at hk
    · simp at hk
    · split at hk
      · simp only [Except.ok.injEq, Prod.mk.injEq, true_and] at hk
        exact hk ▸ c.length_skipBlank
      · split at hk
        · split at hk
          · simp [map_eq_ok] at hk
          · simp at hk
        · split at hk
          · split at hk
            · simp at hk
            · split at hk
              · simp [map_eq_ok] at hk
              · simp at hk
          · simp at hk
  | case3 => simp at h
  | case4 => simp at h
  | case5 first met s c key e hk field hc u e' he ih =>
    have := length_nextKey hk
    have := length_entry he
    have := ih h
    omega

theorem length_closeObject {c d : Cursor} (h : closeObject c = .ok d) :
    d.rest.length ≤ c.rest.length := by
  unfold closeObject failAhead at h
  dsimp only at h
  have := c.length_skipBlank
  split at h
  · simp at h
  · next hn =>
    have := Cursor.length_of_next? hn
    split at h
    · obtain rfl := Except.ok.inj h
      omega
    · split at h <;> simp at h

theorem length_closeList {c d : Cursor} (h : closeList c = .ok d) :
    d.rest.length ≤ c.rest.length := by
  unfold closeList failAhead at h
  dsimp only at h
  have := c.length_skipBlank
  split at h
  · simp at h
  · next hn =>
    have := Cursor.length_of_next? hn
    split at h
    · obtain rfl := Except.ok.inj h
      omega
    · split at h <;> simp at h

theorem closing_eq_ok {α : Type} {close : Cursor → Except Failure Cursor}
    {content : Except Failure (α × Cursor)} {a : α} {d : Cursor} :
    closing close content = .ok (a, d) ↔ ∃ c, content = .ok (a, c) ∧ close c = .ok d := by
  unfold closing
  split
  · simp
  · next x c =>
    simp only [map_eq_ok, Prod.mk.injEq, Except.ok.injEq]
    constructor
    · rintro ⟨e, he, rfl, rfl⟩
      exact ⟨c, ⟨rfl, rfl⟩, he⟩
    · rintro ⟨e, ⟨rfl, rfl⟩, he⟩
      exact ⟨d, he, rfl, rfl⟩

end QueuedFiles.Json
