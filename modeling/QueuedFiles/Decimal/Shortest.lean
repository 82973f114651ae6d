import QueuedFiles.Decimal.Binary64

/-!
The shortest decimal that reads back as a given double. Of the decimals with the fewest digits that
round to the double, the one nearest to it is taken; of two equally near, the one with an even last
digit.
-/

namespace QueuedFiles.Decimal

/-- The decimal `digits * 10^exponent`. -/
structure Scientific where
  digits : Nat
  exponent : Int
deriving DecidableEq, Repr

namespace Scientific

/-- The same decimal without trailing zeros among its digits. -/
def trimmed (s : Scientific) : Scientific :=
  if s.digits % 10 = 0 ∧ 0 < s.digits then trimmed ⟨s.digits / 10, s.exponent + 1⟩ else s
termination_by s.digits
decreasing_by omega

end Scientific

namespace Binary64

/-- The reals that round to a positive double, in quarters of its last place. The double itself is
`4 * significand`; the ends belong to the interval when the significand is even. -/
def lowerQuarters (x : Binary64) : Nat :=
  4 * x.significand -
    (if x.significand = leadingBit ∧ leastExponent < x.exponent then 1 else 2)

def upperQuarters (x : Binary64) : Nat := 4 * x.significand + 2

/-- Whether the decimal `n * 10^g` rounds to `x`. -/
def covers (x : Binary64) (n : Nat) (g : Int) : Bool :=
  let num := (n * Nat.pow 10 g.toNat) <<< (2 - x.exponent).toNat
  let den := Nat.pow 10 (-g).toNat <<< (x.exponent - 2).toNat
  let low := x.lowerQuarters * den
  let high := x.upperQuarters * den
  if x.significand % 2 = 0 then low ≤ num && num ≤ high else low < num && num < high

/-- The exponent of the first decimal digit of a positive double. -/
def firstDigitExponent (x : Binary64) : Int :=
  let (num, den) := x.quotient
  ((Nat.toDigits 10 (num * Nat.pow 10 340 / den)).length : Int) - 341

/-- The multiple of `10^g` that rounds to `x` and is nearest to it, if there is one. -/
def onGrid (x : Binary64) (g : Int) : Option Scientific :=
  let (n, d) := x.quotient
  let num := n * Nat.pow 10 (-g).toNat
  let den := d * Nat.pow 10 g.toNat
  let below := num / den
  let twice := 2 * (num % den)
  match x.covers below g, x.covers (below + 1) g with
  | true, true =>
    if twice < den ∨ (twice = den ∧ below % 2 = 0) then some ⟨below, g⟩ else some ⟨below + 1, g⟩
  | true, false => some ⟨below, g⟩
  | false, true => some ⟨below + 1, g⟩
  | false, false => none

/-- The shortest decimal for a positive double: seventeen digits always suffice. -/
def shortest (x : Binary64) : Scientific :=
  let e := x.firstDigitExponent
  let found := (List.range 17).findSome? fun (k : Nat) ↦ x.onGrid (e - (k : Int))
  (found.getD ⟨0, 0⟩).trimmed

end Binary64

end QueuedFiles.Decimal
