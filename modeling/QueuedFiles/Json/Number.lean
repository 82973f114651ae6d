import QueuedFiles.Json.Failure

/-!
Numbers of a document. A number without fraction, exponent or too many digits is an integer; any
other is a double, made from a significand below `2^64` and a power of ten.
-/

namespace QueuedFiles.Json

open Bytes (ascii)
open Decimal

/-- A number as read. `negative n` is `-n`, with `n` from 1 to `2^63`. -/
inductive Number where
  | natural (n : Nat)
  | negative (n : Nat)
  | float (x : Binary64)
deriving DecidableEq

def isDigit (b : UInt8) : Bool := ascii '0' ≤ b && b ≤ ascii '9'

def digitValue (b : UInt8) : Nat := b.toNat - '0'.toNat

def wordMax : Nat := UInt64.size - 1

/-- The largest exponent that is still computed with. -/
def exponentMax : Nat := 0x7fffffff

/-- The size of the least signed word. -/
def signedLimit : Nat := UInt64.size / 2

/-- Digits taken into a value for as long as it stays within `limit`: the value and their number. -/
def absorb (limit value taken : Nat) : Bytes → Nat × Nat
  | [] => (value, taken)
  | b :: r =>
    if isDigit b ∧ value * 10 + digitValue b ≤ limit then
      absorb limit (value * 10 + digitValue b) (taken + 1) r
    else (value, taken)

/-- Digits before the point: the significand, how many digits did not fit into it, and the place
behind them all. -/
structure Integral where
  significand : Nat
  spilled : Nat
  cursor : Cursor

def integral (c : Cursor) : Except Failure Integral :=
  match c.next? with
  | none => fail .endInValue c
  | some (b, d) =>
    if b = ascii '0' then
      if d.nextIs isDigit then failAhead .malformedNumber d else .ok ⟨0, 0, d⟩
    else if isDigit b then
      let (value, taken) := absorb wordMax (digitValue b) 0 d.rest
      let e := d.advance taken
      let spilled := (e.rest.takeWhile isDigit).length
      .ok ⟨value, spilled, e.advance spilled⟩
    else fail .malformedNumber d

/-- Digits behind the point: the grown significand, how many digits it took in, and the place behind
them all. Once a digit does not fit, the rest is passed over. -/
structure Fraction where
  significand : Nat
  taken : Nat
  cursor : Cursor

def fraction (significand : Nat) (c : Cursor) : Except Failure Fraction :=
  let (value, taken) := absorb wordMax significand 0 c.rest
  if c.nextIs isDigit then .ok ⟨value, taken, (c.advance taken).skipWhile isDigit⟩
  else if c.rest.isEmpty then failAhead .endInValue c
  else failAhead .malformedNumber c

/-- The exponent behind `e`; `none` is one beyond all bounds, on a number that is zero whatever its
exponent. -/
def exponent (isZero : Bool) (c : Cursor) : Except Failure (Option Int × Cursor) :=
  let negative := c.nextIs (· = ascii '-')
  let c := if negative || c.nextIs (· = ascii '+') then c.advance 1 else c
  match c.next? with
  | none => fail .endInValue c
  | some (b, d) =>
    if !isDigit b then fail .malformedNumber d
    else
      let (value, taken) := absorb exponentMax (digitValue b) 0 d.rest
      let d := d.advance taken
      if d.nextIs isDigit then
        let d := d.advance 1
        if !isZero && !negative then fail .numberTooLarge d
        else .ok (none, d.skipWhile isDigit)
      else .ok (some (if negative then -(value : Int) else value), d)

/-- The double `significand * 10^e` with a sign. -/
def toDouble (negative : Bool) (significand : Nat) (e : Int) (c : Cursor) :
    Except Failure (Number × Cursor) :=
  match (Binary64.ofNat significand).bind fun x ↦ x.mulPowerOfTen e with
  | some x => .ok (.float (if negative then x.neg else x), c)
  | none => fail .numberTooLarge c

/-- The end of a number that is a double: an exponent, if there is one, on top of the power of ten
that the digits gave. -/
def double (negative : Bool) (significand : Nat) (e : Int) (c : Cursor) :
    Except Failure (Number × Cursor) :=
  if c.nextIs fun b ↦ b = ascii 'e' || b = ascii 'E' then do
    let (more, d) ← exponent (significand = 0) (c.advance 1)
    match more with
    | some more => toDouble negative significand (e + more) d
    | none => .ok (.float (Binary64.zero negative), d)
  else toDouble negative significand e c

/-- An integer; a negative one that is zero or below `-2^63` is a double. -/
def integer (negative : Bool) (n : Nat) (c : Cursor) : Except Failure (Number × Cursor) :=
  if !negative then .ok (.natural n, c)
  else if n = 0 ∨ signedLimit < n then toDouble true n 0 c
  else .ok (.negative n, c)

def number (negative : Bool) (c : Cursor) : Except Failure (Number × Cursor) := do
  let i ← integral c
  if i.cursor.nextIs (· = ascii '.') then
    let f ← fraction i.significand (i.cursor.advance 1)
    double negative f.significand ((i.spilled : Int) - f.taken) f.cursor
  else if i.spilled ≠ 0 ∨ i.cursor.nextIs (fun b ↦ b = ascii 'e' || b = ascii 'E') then
    double negative i.significand i.spilled i.cursor
  else integer negative i.significand i.cursor

theorem length_integral {c : Cursor} {i : Integral} (h : integral c = .ok i) :
    i.cursor.rest.length < c.rest.length := by
  unfold integral fail failAhead at h
  split at h
  · simp at h
  · next b d hn =>
    have := Cursor.length_of_next? hn
    split at h
    · split at h
      · simp at h
      · obtain rfl := Except.ok.inj h
        show d.rest.length < _
        omega
    · split at h
      · obtain rfl := Except.ok.inj h
        simp only [Cursor.advance, List.length_drop]
        omega
      · simp at h

theorem length_fraction {s : Nat} {c : Cursor} {f : Fraction} (h : fraction s c = .ok f) :
    f.cursor.rest.length ≤ c.rest.length := by
  unfold fraction failAhead at h
  dsimp only at h
  split at h
  · obtain rfl := Except.ok.inj h
    exact Nat.le_trans (Cursor.length_skipWhile _ _) (Cursor.length_advance _ _)
  · split at h <;> simp at h

theorem length_exponent {z : Bool} {c d : Cursor} {e : Option Int}
    (h : exponent z c = .ok (e, d)) : d.rest.length ≤ c.rest.length := by
  unfold exponent at h
  dsimp only at h
  generalize hc : (if (c.nextIs (· = ascii '-') || c.nextIs (· = ascii '+')) = true then c.advance 1
    else c) = c₁ at h
  have hle : c₁.rest.length ≤ c.rest.length := by
    subst hc
    split
    · exact c.length_advance 1
    · exact Nat.le_refl _
  split at h
  · simp [fail] at h
  · next b d₁ hn =>
    have := Cursor.length_of_next? hn
    generalize absorb exponentMax (digitValue b) 0 d₁.rest = t at h
    have h₁ := d₁.length_advance t.2
    have h₂ := (d₁.advance t.2).length_advance 1
    have h₃ := ((d₁.advance t.2).advance 1).length_skipWhile isDigit
    split at h
    · simp [fail] at h
    · split at h
      · split at h
        · simp [fail] at h
        · simp only [Except.ok.injEq, Prod.mk.injEq] at h
          rw [← h.2]
          omega
      · simp only [Except.ok.injEq, Prod.mk.injEq] at h
        rw [← h.2]
        omega

theorem cursor_toDouble {neg : Bool} {s : Nat} {e : Int} {c d : Cursor} {n : Number}
    (h : toDouble neg s e c = .ok (n, d)) : d = c := by
  unfold toDouble fail at h
  split at h <;> simp_all

theorem length_double {neg : Bool} {s : Nat} {e : Int} {c d : Cursor} {n : Number}
    (h : double neg s e c = .ok (n, d)) : d.rest.length ≤ c.rest.length := by
  unfold double at h
  split at h
  · simp only [bind_eq_ok, Prod.exists] at h
    obtain ⟨more, d₁, h₁, h⟩ := h
    have hle := Nat.le_trans (length_exponent h₁) (c.length_advance 1)
    split at h
    · exact cursor_toDouble h ▸ hle
    · simp only [Except.ok.injEq, Prod.mk.injEq] at h
      exact h.2 ▸ hle
  · exact cursor_toDouble h ▸ Nat.le_refl _

theorem cursor_integer {neg : Bool} {n : Nat} {c d : Cursor} {m : Number}
    (h : integer neg n c = .ok (m, d)) : d = c := by
  unfold integer at h
  split at h
  · simp_all
  · split at h
    · exact cursor_toDouble h
    · simp_all

theorem length_number {neg : Bool} {c d : Cursor} {n : Number}
    (h : number neg c = .ok (n, d)) : d.rest.length < c.rest.length := by
  simp only [number, bind_eq_ok] at h
  obtain ⟨i, hi, h⟩ := h
  have := length_integral hi
  split at h
  · simp only [bind_eq_ok] at h
    obtain ⟨f, hf, h⟩ := h
    have := length_fraction hf
    have := length_double h
    have := i.cursor.length_advance 1
    omega
  · split at h
    · have := length_double h
      omega
    · rw [cursor_integer h]
      assumption

end QueuedFiles.Json
