import QueuedFiles.Json.Form
import QueuedFiles.Json.Text

/-!
Passing over a value of any kind and any depth. The open brackets are kept in a list, so depth costs
no recursion; numbers and strings are checked for their form only.
-/

namespace QueuedFiles.Json

open Bytes (ascii)

def colon (c : Cursor) : Except Failure Cursor :=
  let c := c.skipBlank
  match c.next? with
  | none => failAhead .endInObject c
  | some (b, d) => if b = ascii ':' then .ok d else failAhead .colonMissing c

def skipKey (c : Cursor) : Except Failure Cursor :=
  let c := c.skipBlank
  match c.next? with
  | none => failAhead .endInObject c
  | some (b, d) => if b = ascii '"' then skipText d >>= colon else failAhead .keyNotText c

inductive Bracket where
  | square
  | curly
deriving DecidableEq

namespace Bracket

def closing : Bracket → UInt8
  | .square => ascii ']'
  | .curly => ascii '}'

def endCause : Bracket → Cause
  | .square => .endInList
  | .curly => .endInObject

def commaCause : Bracket → Cause
  | .square => .listCommaMissing
  | .curly => .objectCommaMissing

/-- What stands before a value inside this bracket: a key, or nothing. -/
def beforeValue : Bracket → Cursor → Except Failure Cursor
  | .square, c => .ok c
  | .curly, c => skipKey c

end Bracket

/-- The start of a value: a whole scalar passed over, or an opening bracket. -/
def skipStart (c : Cursor) : Except Failure (Option Bracket × Cursor) :=
  match c.next? with
  | none => failAhead .endInValue c
  | some (b, d) =>
    if b = ascii 'n' then (word ['u', 'l', 'l'] d).map (none, ·)
    else if b = ascii 't' then (word ['r', 'u', 'e'] d).map (none, ·)
    else if b = ascii 'f' then (word ['a', 'l', 's', 'e'] d).map (none, ·)
    else if b = ascii '-' then (skipNumber d).map (none, ·)
    else if isDigit b then (skipNumber c).map (none, ·)
    else if b = ascii '"' then (skipText d).map (none, ·)
    else if b = ascii '[' then .ok (some .square, d)
    else if b = ascii '{' then .ok (some .curly, d)
    else failAhead .noValue c

theorem length_colon {c d : Cursor} (h : colon c = .ok d) : d.rest.length < c.rest.length := by
  unfold colon failAhead at h
  dsimp only at h
  have := c.length_skipBlank
  split at h
  · simp at h
  · next hn =>
    have := Cursor.length_of_next? hn
    split at h
    · obtain rfl := Except.ok.inj h
      omega
    · simp at h

theorem length_skipKey {c d : Cursor} (h : skipKey c = .ok d) : d.rest.length < c.rest.length := by
  unfold skipKey failAhead at h
  dsimp only at h
  have := c.length_skipBlank
  split at h
  · simp at h
  · next hn =>
    have := Cursor.length_of_next? hn
    split at h
    · simp only [bind_eq_ok] at h
      obtain ⟨e, he, h⟩ := h
      have := length_skipText he
      have := length_colon h
      omega
    · simp at h

theorem Bracket.length_beforeValue {k : Bracket} {c d : Cursor} (h : k.beforeValue c = .ok d) :
    d.rest.length ≤ c.rest.length := by
  cases k with
  | square => exact Except.ok.inj h ▸ Nat.le_refl _
  | curly => exact Nat.le_of_lt (length_skipKey h)

theorem length_skipStart {c d : Cursor} {k : Option Bracket} (h : skipStart c = .ok (k, d)) :
    d.rest.length < c.rest.length := by
  unfold skipStart at h
  split at h
  · simp [failAhead] at h
  · next b e hn =>
    have := Cursor.length_of_next? hn
    have hword {w : List Char} (hw : (word w e).map (none, ·) = .ok (k, d)) :
        d.rest.length < c.rest.length := by
      simp only [map_eq_ok, Prod.mk.injEq] at hw
      obtain ⟨e', h', -, rfl⟩ := hw
      have := length_word h'
      omega
    have hnumber {e₀ : Cursor} (h₀ : e₀.rest.length ≤ c.rest.length)
        (hx : (skipNumber e₀).map (none, ·) = .ok (k, d)) : d.rest.length < c.rest.length := by
      simp only [map_eq_ok, Prod.mk.injEq] at hx
      obtain ⟨e', h', -, rfl⟩ := hx
      have := length_skipNumber h'
      omega
    split at h
    · exact hword h
    split at h
    · exact hword h
    split at h
    · exact hword h
    split at h
    · exact hnumber (by omega) h
    split at h
    · exact hnumber (Nat.le_refl _) h
    split at h
    · simp only [map_eq_ok, Prod.mk.injEq] at h
      obtain ⟨e', h', -, rfl⟩ := h
      have := length_skipText h'
      omega
    split at h
    · simp only [Except.ok.injEq, Prod.mk.injEq] at h
      rw [← h.2]
      omega
    split at h
    · simp only [Except.ok.injEq, Prod.mk.injEq] at h
      rw [← h.2]
      omega
    · simp [failAhead] at h

/-- Where the skipping of nested values stands. -/
inductive Skipping where
  | value
  /-- Inside a bracket, before its first value (`comma = false`) or behind one of its values. -/
  | inside (comma : Bool)
deriving DecidableEq

def Skipping.rank : Skipping → Nat
  | .value => 0
  | .inside _ => 1

set_option linter.unusedVariables false in
/-- Passes over what is open: `brackets`, innermost first, and the value that is due. -/
def skipOpen (stage : Skipping) (brackets : List Bracket) (c : Cursor) : Except Failure Cursor :=
  let c' := c.skipBlank
  match stage with
  | .value =>
    match hs : skipStart c' with
    | .error f => .error f
    | .ok (some k, d) => skipOpen (.inside false) (k :: brackets) d
    | .ok (none, d) => skipOpen (.inside true) brackets d
  | .inside comma =>
    match brackets with
    | [] => .ok c
    | k :: outer =>
      match hn : c'.next? with
      | none => failAhead k.endCause c'
      | some (b, d) =>
        if b = k.closing then skipOpen (.inside true) outer d
        else if comma ∧ b ≠ ascii ',' then failAhead k.commaCause c'
        else
          match hb : k.beforeValue (cond comma d c') with
          | .error f => .error f
          | .ok e => skipOpen .value (k :: outer) e
termination_by 2 * c.rest.length + stage.rank
decreasing_by
  all_goals
    have hle : c'.rest.length ≤ c.rest.length := c.length_skipBlank
    simp only [Skipping.rank]
  · have := length_skipStart hs
    omega
  · have := length_skipStart hs
    omega
  · have := Cursor.length_of_next? hn
    omega
  · have := Cursor.length_of_next? hn
    have := Bracket.length_beforeValue hb
    cases comma <;> simp only [cond] at this <;> omega

def skipValue (c : Cursor) : Except Failure Cursor := skipOpen .value [] c

theorem length_skipOpen {stage : Skipping} {ks : List Bracket} {c d : Cursor}
    (h : skipOpen stage ks c = .ok d) : d.rest.length ≤ c.rest.length := by
  fun_induction skipOpen stage ks c with
  | case1 => simp at h
  | case2 ks c c' k e hs ih =>
    have := length_skipStart hs
    have : c'.rest.length ≤ c.rest.length := c.length_skipBlank
    have := ih h
    omega
  | case3 ks c c' e hs ih =>
    have := length_skipStart hs
    have : c'.rest.length ≤ c.rest.length := c.length_skipBlank
    have := ih h
    omega
  | case4 c => exact Except.ok.inj h ▸ Nat.le_refl _
  | case5 => simp [failAhead] at h
  | case6 c c' comma k outer e hn ih =>
    have := Cursor.length_of_next? hn
    have : c'.rest.length ≤ c.rest.length := c.length_skipBlank
    have := ih h
    omega
  | case7 => simp [failAhead] at h
  | case8 => simp at h
  | case9 c c' comma k outer b e hn hk hc e' hb ih =>
    have := Cursor.length_of_next? hn
    have : c'.rest.length ≤ c.rest.length := c.length_skipBlank
    have := Bracket.length_beforeValue hb
    have := ih h
    cases comma <;> simp only [cond] at * <;> omega

theorem length_skipValue {c d : Cursor} (h : skipValue c = .ok d) :
    d.rest.length ≤ c.rest.length := length_skipOpen h

end QueuedFiles.Json
