import QueuedFiles.Json.Skip

/-!
Documents as texts: blanks, numbers, strings, and values of any depth, each as a property of the
bytes it is written with. What a reader makes of them is said elsewhere.
-/

namespace QueuedFiles.Json

open Bytes (ascii)

def Blanks (t : Bytes) : Prop := ∀ b ∈ t, Cursor.isBlank b = true

def Digits (t : Bytes) : Prop := t ≠ [] ∧ ∀ b ∈ t, isDigit b = true

/-- Digits without a zero too many in front. -/
inductive Whole : Bytes → Prop
  | zero : Whole [ascii '0']
  | digits {b : UInt8} {t : Bytes} :
      isDigit b = true → b ≠ ascii '0' → (∀ d ∈ t, isDigit d = true) → Whole (b :: t)

inductive Fractional : Bytes → Prop
  | none : Fractional []
  | digits {t : Bytes} : Digits t → Fractional (ascii '.' :: t)

inductive Exponential : Bytes → Prop
  | none : Exponential []
  | digits {e : UInt8} {sign t : Bytes} : e = ascii 'e' ∨ e = ascii 'E' →
      sign = [] ∨ sign = [ascii '+'] ∨ sign = [ascii '-'] → Digits t → Exponential (e :: (sign ++ t))

/-- A number without a sign. -/
inductive Numeral : Bytes → Prop
  | mk {w f e : Bytes} : Whole w → Fractional f → Exponential e → Numeral (w ++ (f ++ e))

/-- Four hexadecimal digits and their value. -/
def Hex (h : Bytes) (n : Nat) : Prop :=
  h.length = 4 ∧ ∃ ds, h.mapM hexValue? = some ds ∧ ds.foldl (fun n d ↦ 16 * n + d) 0 = n

/-- A byte that stands for itself in a string. -/
def Plain (b : UInt8) : Prop := b ≠ ascii '"' ∧ b ≠ ascii '\\' ∧ ¬ b < 0x20

instance (b : UInt8) : Decidable (Plain b) :=
  inferInstanceAs (Decidable (b ≠ ascii '"' ∧ b ≠ ascii '\\' ∧ ¬ b < 0x20))

/-- What may stand between the quotes of a string. Surrogates need not come in pairs. -/
inductive Quoted : Bytes → Prop
  | nil : Quoted []
  | plain {b : UInt8} {t : Bytes} : Plain b → Quoted t → Quoted (b :: t)
  | short {e : Char × UInt8} {t : Bytes} : e ∈ shortEscapes → Quoted t →
      Quoted (ascii '\\' :: ascii e.1 :: t)
  | unit {h t : Bytes} {n : Nat} : Hex h n → Quoted t →
      Quoted (ascii '\\' :: ascii 'u' :: (h ++ t))

/-- `raw`, between quotes, is a string without lone surrogates, and `key` is its text. -/
inductive Spells : Bytes → Bytes → Prop
  | nil : Spells [] []
  | plain {b : UInt8} {raw key : Bytes} : Plain b → Spells raw key → Spells (b :: raw) (b :: key)
  | short {e : Char × UInt8} {raw key : Bytes} : e ∈ shortEscapes → Spells raw key →
      Spells (ascii '\\' :: ascii e.1 :: raw) (e.2 :: key)
  | unit {h raw key : Bytes} {n : Nat} : Hex h n → isLeading n = false → isTrailing n = false →
      Spells raw key → Spells (ascii '\\' :: ascii 'u' :: (h ++ raw)) (utf8 n ++ key)
  | pair {h l raw key : Bytes} {high low : Nat} : Hex h high → isLeading high = true →
      Hex l low → isTrailing low = true → Spells raw key →
      Spells (ascii '\\' :: ascii 'u' :: (h ++ ascii '\\' :: ascii 'u' :: (l ++ raw)))
        (utf8 ((high - 0xd800) * 0x400 + (low - 0xdc00) + 0x10000) ++ key)

/-- What stands in front of a value inside a bracket. -/
inductive Bracket.Head : Bracket → Bytes → Prop
  | blank {t : Bytes} : Blanks t → Bracket.Head .square t
  | key {before raw gap lead : Bytes} : Blanks before → Quoted raw → Blanks gap → Blanks lead →
      Bracket.Head .curly (before ++ ascii '"' :: (raw ++ ascii '"' :: (gap ++ ascii ':' :: lead)))

def Bracket.opening : Bracket → UInt8
  | .square => ascii '['
  | .curly => ascii '{'

/-- A value inside a bracket, with what stands around it up to the commas. -/
structure Part where
  head : Bytes
  value : Bytes
  after : Bytes

def Part.text (p : Part) : Bytes := p.head ++ (p.value ++ p.after)

/-- Texts with a comma between any two. -/
def joined : List Bytes → Bytes
  | [] => []
  | t :: ts => t ++ ts.flatMap (ascii ',' :: ·)

/-- The values there are. Blanks in front of a closing bracket count twice behind a value; that does
no harm, and an empty pair of brackets needs them. -/
inductive Value : Bytes → Prop
  | word {w : String} : w ∈ ["null", "true", "false"] → Value (Bytes.ofText w)
  | number {t : Bytes} : Numeral t → Value t
  | negative {t : Bytes} : Numeral t → Value (ascii '-' :: t)
  | text {t : Bytes} : Quoted t → Value (ascii '"' :: (t ++ [ascii '"']))
  | bracket {k : Bracket} {ps : List Part} {tail : Bytes} :
      (∀ p ∈ ps, k.Head p.head ∧ Blanks p.after) → (∀ p ∈ ps, Value p.value) → Blanks tail →
      Value (k.opening :: (joined (ps.map Part.text) ++ (tail ++ [k.closing])))

def stoppers : Bytes := [0x20, 0x0a, 0x09, 0x0d, ascii ',', ascii ']', ascii '}']

/-- What may follow a value: nothing, a blank, a comma or a closing bracket. -/
def Stops (r : Bytes) : Prop := ∀ b ∈ r.head?, b ∈ stoppers

end QueuedFiles.Json
