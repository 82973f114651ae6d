import QueuedFiles.Json.Number

/-!
Words, and numbers of which only the form matters.
-/

namespace QueuedFiles.Json

open Bytes (ascii)

def word : List Char → Cursor → Except Failure Cursor
  | [], c => .ok c
  | w :: ws, c =>
    match c.next? with
    | none => fail .endInValue c
    | some (b, d) => if b = ascii w then word ws d else fail .unknownWord d

/-- The exponent of a number passed over, from behind its letter. -/
def skipExponent (c : Cursor) : Except Failure Cursor :=
  let c := if c.nextIs fun b ↦ b = ascii '+' || b = ascii '-' then c.advance 1 else c
  match c.next? with
  | none => fail .malformedNumber c
  | some (b, d) => if isDigit b then .ok (d.skipWhile isDigit) else fail .malformedNumber d

def skipOptionalExponent (c : Cursor) : Except Failure Cursor :=
  if c.nextIs fun b ↦ b = ascii 'e' || b = ascii 'E' then skipExponent (c.advance 1) else .ok c

def skipNumber (c : Cursor) : Except Failure Cursor :=
  match c.next? with
  | none => fail .malformedNumber c
  | some (b, d) =>
    if b = ascii '0' ∧ d.nextIs isDigit then failAhead .malformedNumber d
    else if !isDigit b then fail .malformedNumber d
    else
      let d := if b = ascii '0' then d else d.skipWhile isDigit
      if d.nextIs (· = ascii '.') then
        let d := d.advance 1
        if d.nextIs isDigit then skipOptionalExponent (d.skipWhile isDigit)
        else failAhead .malformedNumber d
      else skipOptionalExponent d

theorem length_word {w : List Char} {c d : Cursor} (h : word w c = .ok d) :
    d.rest.length ≤ c.rest.length := by
  fun_induction word w c with
  | case1 c => exact Except.ok.inj h ▸ Nat.le_refl _
  | case2 => simp [fail] at h
  | case3 w ws c e hn ih =>
    have := Cursor.length_of_next? hn
    have := ih h
    omega
  | case4 => simp [fail] at h

theorem length_skipExponent {c d : Cursor} (h : skipExponent c = .ok d) :
    d.rest.length ≤ c.rest.length := by
  unfold skipExponent fail at h
  dsimp only at h
  generalize hc : (if c.nextIs (fun b ↦ b = ascii '+' || b = ascii '-') = true then c.advance 1
    else c) = c₁ at h
  have hle : c₁.rest.length ≤ c.rest.length := by
    subst hc
    split
    · exact c.length_advance 1
    · exact Nat.le_refl _
  split at h
  · simp at h
  · next b e hn =>
    have := Cursor.length_of_next? hn
    have := e.length_skipWhile isDigit
    split at h
    · obtain rfl := Except.ok.inj h
      omega
    · simp at h

theorem length_skipOptionalExponent {c d : Cursor} (h : skipOptionalExponent c = .ok d) :
    d.rest.length ≤ c.rest.length := by
  unfold skipOptionalExponent at h
  split at h
  · exact Nat.le_trans (length_skipExponent h) (c.length_advance 1)
  · exact Except.ok.inj h ▸ Nat.le_refl _

theorem length_skipNumber {c d : Cursor} (h : skipNumber c = .ok d) :
    d.rest.length < c.rest.length := by
  unfold skipNumber at h
  split at h
  · simp [fail] at h
  · next b e hn =>
    have := Cursor.length_of_next? hn
    split at h
    · simp [failAhead] at h
    · split at h
      · simp [fail] at h
      · dsimp only at h
        generalize he : (if b = ascii '0' then e else e.skipWhile isDigit) = e₁ at h
        have hle : e₁.rest.length ≤ e.rest.length := by
          subst he
          split
          · exact Nat.le_refl _
          · exact e.length_skipWhile _
        split at h
        · split at h
          · have := length_skipOptionalExponent h
            have := (e₁.advance 1).length_skipWhile isDigit
            have := e₁.length_advance 1
            omega
          · simp [failAhead] at h
        · have := length_skipOptionalExponent h
          omega

end QueuedFiles.Json
