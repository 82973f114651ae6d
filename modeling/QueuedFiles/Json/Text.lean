import QueuedFiles.Json.Failure

/-!
Strings of a document. Two readings exist: one decodes the text, the other only finds its end and
asks less of it.
-/

namespace QueuedFiles.Json

open Bytes (ascii)

inductive Care where
  /-- Decode the text; surrogates must come in pairs. -/
  | decode
  | skim
deriving DecidableEq

def hexValue? (b : UInt8) : Option Nat :=
  if ascii '0' ≤ b ∧ b ≤ ascii '9' then some (b.toNat - '0'.toNat)
  else if ascii 'a' ≤ b ∧ b ≤ ascii 'f' then some (b.toNat - 'a'.toNat + 10)
  else if ascii 'A' ≤ b ∧ b ≤ ascii 'F' then some (b.toNat - 'A'.toNat + 10)
  else none

/-- Four hexadecimal digits. With fewer bytes left, all of them are passed over. -/
def fourHex (c : Cursor) : Except Failure (Nat × Cursor) :=
  if c.rest.length < 4 then fail .endInText (c.advance c.rest.length)
  else
    match (c.rest.take 4).mapM hexValue? with
    | some ds => .ok (ds.foldl (fun n d ↦ 16 * n + d) 0, c.advance 4)
    | none => fail .unknownEscape (c.advance 4)

/-- The first half of a surrogate pair. -/
def isLeading (n : Nat) : Bool := 0xd800 ≤ n && n ≤ 0xdbff

/-- The second half of a surrogate pair. -/
def isTrailing (n : Nat) : Bool := 0xdc00 ≤ n && n ≤ 0xdfff

def utf8 (n : Nat) : Bytes := String.utf8EncodeChar (Char.ofNat n)

/-- A given byte, as the rest of a surrogate pair has to begin with. -/
def pairByte (expected : Char) (c : Cursor) : Except Failure Cursor :=
  match c.next? with
  | none => fail .endInText c
  | some (b, d) => if b = ascii expected then .ok d else fail .brokenSurrogatePair d

/-- The code point after `\u`, as UTF-8. -/
def codePoint (care : Care) (c : Cursor) : Except Failure (Bytes × Cursor) := do
  let (high, c) ← fourHex c
  if care = .skim then .ok ([], c)
  else if isTrailing high then fail .loneSurrogate c
  else if isLeading high then
    let c ← pairByte '\\' c
    let c ← pairByte 'u' c
    let (low, c) ← fourHex c
    if isTrailing low then .ok (utf8 ((high - 0xd800) * 0x400 + (low - 0xdc00) + 0x10000), c)
    else fail .loneSurrogate c
  else .ok (utf8 high, c)

/-- The characters that a one-letter escape stands for. -/
def shortEscapes : List (Char × UInt8) :=
  [('"', 0x22), ('\\', 0x5c), ('/', 0x2f), ('b', 0x08), ('f', 0x0c), ('n', 0x0a), ('r', 0x0d),
   ('t', 0x09)]

/-- What follows a backslash, as UTF-8. -/
def escape (care : Care) (c : Cursor) : Except Failure (Bytes × Cursor) :=
  match c.next? with
  | none => fail .endInText c
  | some (b, d) =>
    if b = ascii 'u' then codePoint care d
    else
      match shortEscapes.find? fun e ↦ ascii e.1 = b with
      | some e => .ok ([e.2], d)
      | none => fail .unknownEscape d

theorem length_fourHex {c d : Cursor} {n : Nat} (h : fourHex c = .ok (n, d)) :
    d.rest.length ≤ c.rest.length := by
  unfold fourHex fail at h
  split at h
  · simp at h
  · split at h
    · simp only [Except.ok.injEq, Prod.mk.injEq] at h
      exact h.2 ▸ c.length_advance 4
    · simp at h

theorem length_pairByte {e : Char} {c d : Cursor} (h : pairByte e c = .ok d) :
    d.rest.length ≤ c.rest.length := by
  unfold pairByte fail at h
  split at h
  · simp at h
  · next hn =>
    have := Cursor.length_of_next? hn
    split at h
    · obtain rfl := Except.ok.inj h
      omega
    · simp at h

theorem length_codePoint {care : Care} {c d : Cursor} {b : Bytes}
    (h : codePoint care c = .ok (b, d)) : d.rest.length ≤ c.rest.length := by
  simp only [codePoint, bind_eq_ok, Prod.exists] at h
  obtain ⟨high, c₁, h₁, h⟩ := h
  have := length_fourHex h₁
  split at h
  · simp only [Except.ok.injEq, Prod.mk.injEq] at h
    obtain ⟨-, rfl⟩ := h
    assumption
  · split at h
    · simp [fail] at h
    · split at h
      · simp only [bind_eq_ok, Prod.exists] at h
        obtain ⟨c₂, h₂, c₃, h₃, low, c₄, h₄, h⟩ := h
        have := length_pairByte h₂
        have := length_pairByte h₃
        have := length_fourHex h₄
        split at h
        · simp only [Except.ok.injEq, Prod.mk.injEq] at h
          obtain ⟨-, rfl⟩ := h
          omega
        · simp [fail] at h
      · simp only [Except.ok.injEq, Prod.mk.injEq] at h
        obtain ⟨-, rfl⟩ := h
        assumption

theorem length_escape {care : Care} {c d : Cursor} {b : Bytes}
    (h : escape care c = .ok (b, d)) : d.rest.length ≤ c.rest.length := by
  unfold escape at h
  split at h
  · simp [fail] at h
  · next hn =>
    have := Cursor.length_of_next? hn
    split at h
    · have := length_codePoint h
      omega
    · split at h
      · simp only [Except.ok.injEq, Prod.mk.injEq] at h
        obtain ⟨-, rfl⟩ := h
        omega
      · simp [fail] at h

set_option linter.unusedVariables false in
/-- The rest of a string whose bytes so far, last first, are `soFar`, up to its closing quote. A
control character is passed over before it is refused only where the text is decoded. -/
def textBody (care : Care) (soFar : Bytes) (c : Cursor) : Except Failure (Bytes × Cursor) :=
  match hn : c.next? with
  | none => fail .endInText c
  | some (b, d) =>
    if b = ascii '"' then .ok (soFar.reverse, d)
    else if b = ascii '\\' then
      match he : escape care d with
      | .error f => .error f
      | .ok (bs, e) => textBody care (bs.reverse ++ soFar) e
    else if b < 0x20 then fail .controlCharacter (if care = .decode then d else c)
    else textBody care (b :: soFar) d
termination_by c.rest.length
decreasing_by
  · have := Cursor.length_of_next? hn
    have := length_escape he
    omega
  · have := Cursor.length_of_next? hn
    omega

/-- The text of a string, from behind its opening quote. -/
def text (c : Cursor) : Except Failure (Bytes × Cursor) := textBody .decode [] c

/-- The place behind a string, from behind its opening quote. -/
def skipText (c : Cursor) : Except Failure Cursor := (textBody .skim [] c).map (·.2)

theorem length_textBody {care : Care} {soFar b : Bytes} {c d : Cursor}
    (h : textBody care soFar c = .ok (b, d)) : d.rest.length < c.rest.length := by
  fun_induction textBody care soFar c with
  | case1 => simp [fail] at h
  | case2 soFar c e hn =>
    have := Cursor.length_of_next? hn
    simp only [Except.ok.injEq, Prod.mk.injEq] at h
    obtain ⟨-, rfl⟩ := h
    omega
  | case3 => simp at h
  | case4 soFar c e bs e' he hn hq ih =>
    have := Cursor.length_of_next? hn
    have := length_escape he
    have := ih h
    omega
  | case5 => simp [fail] at h
  | case6 soFar c q e hn hq hb hc ih =>
    have := Cursor.length_of_next? hn
    have := ih h
    omega

theorem length_text {b : Bytes} {c d : Cursor} (h : text c = .ok (b, d)) :
    d.rest.length < c.rest.length := length_textBody h

theorem length_skipText {c d : Cursor} (h : skipText c = .ok d) :
    d.rest.length < c.rest.length := by
  unfold skipText at h
  cases hb : textBody .skim [] c with
  | error f => simp [hb, Except.map] at h
  | ok r =>
    simp only [hb, Except.map, Except.ok.injEq] at h
    exact h ▸ length_textBody hb

end QueuedFiles.Json
