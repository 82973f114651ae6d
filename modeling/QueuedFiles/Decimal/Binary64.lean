/-!
Finite doubles as exact numbers, with every operation rounded once to the nearest double, a tie
going to the even one. `none` stands for a result beyond the largest finite double.
-/

namespace QueuedFiles.Decimal

/-- The finite double `(-1)^negative * significand * 2^exponent`. Values made by `ofQuotient` have
`significand < 2^53`, and `2^52 ≤ significand` unless the exponent is the least one. -/
structure Binary64 where
  negative : Bool
  significand : Nat
  exponent : Int
deriving DecidableEq, Repr

namespace Binary64

/-- The exponent of the subnormal numbers. -/
def leastExponent : Int := -1074

/-- The exponent of the largest numbers. -/
def greatestExponent : Int := 971

/-- The first bit of a full significand, `2^52`. -/
def leadingBit : Nat := 1 <<< 52

def zero (negative : Bool) : Binary64 := ⟨negative, 0, leastExponent⟩

instance : Inhabited Binary64 := ⟨zero false⟩

/-- `x * 2^e` as a fraction with natural parts. -/
def scale (num den : Nat) (e : Int) : Nat × Nat :=
  (num <<< e.toNat, den <<< (-e).toNat)

/-- A fraction rounded to the nearest integer, a tie to the even one. -/
def roundEven (num den : Nat) : Nat :=
  let q := num / den
  let r := num % den
  if den < 2 * r ∨ (2 * r = den ∧ q % 2 = 1) then q + 1 else q

/-- The exponent that leaves 53 digits before the binary point of `num / den`, or the least one. -/
def exponentFor (num den : Nat) : Int :=
  let guess := max leastExponent ((num.log2 : Int) - den.log2 - 53)
  let (n, d) := scale num den (-guess)
  if n / d < 2 * leadingBit then guess else guess + 1

/-- The double nearest to `num / den`. -/
def ofQuotient (negative : Bool) (num den : Nat) : Option Binary64 :=
  if num = 0 then some (zero negative)
  else
    let e := exponentFor num den
    let (n, d) := scale num den (-e)
    let m := roundEven n d
    let x : Binary64 :=
      if m = 2 * leadingBit then ⟨negative, leadingBit, e + 1⟩ else ⟨negative, m, e⟩
    if x.exponent ≤ greatestExponent then some x else none

/-- The size of a double as a fraction with natural parts. -/
def quotient (x : Binary64) : Nat × Nat := scale x.significand 1 x.exponent

def ofNat (n : Nat) : Option Binary64 := ofQuotient false n 1

def isZero (x : Binary64) : Bool := x.significand = 0

def neg (x : Binary64) : Binary64 := { x with negative := !x.negative }

def mul (x y : Binary64) : Option Binary64 :=
  ofQuotient (x.negative != y.negative) (x.quotient.1 * y.quotient.1) (x.quotient.2 * y.quotient.2)

/-- The rounded quotient, for a divisor other than zero. -/
def div (x y : Binary64) : Option Binary64 :=
  ofQuotient (x.negative != y.negative) (x.quotient.1 * y.quotient.2) (x.quotient.2 * y.quotient.1)

/-- The interchange form: sign bit, eleven bits of exponent, 52 bits of fraction. -/
def toBits (x : Binary64) : UInt64 :=
  let magnitude :=
    if x.significand < leadingBit then x.significand
    else (x.exponent - leastExponent).toNat * leadingBit + x.significand
  ((if x.negative then 1 <<< 63 else 0) + magnitude).toUInt64

def powerOfTen (n : Nat) : Option Binary64 := ofQuotient false (Nat.pow 10 n) 1

/-- Division by `10^n`, with at most 308 powers taken in one rounded step. -/
def divPowerOfTen (x : Binary64) (n : Nat) : Option Binary64 :=
  if n ≤ 308 then (powerOfTen n).bind x.div
  else if x.isZero then some x
  else do
    let y ← (powerOfTen 308).bind x.div
    y.divPowerOfTen (n - 308)
termination_by n

/-- `x * 10^e`: one rounded product for `e ≥ 0`, rounded quotients below. Too large a product, and
any exponent over 308 for a number other than zero, has no result. -/
def mulPowerOfTen (x : Binary64) (e : Int) : Option Binary64 :=
  if e < 0 then x.divPowerOfTen (-e).toNat
  else if e ≤ 308 then (powerOfTen e.toNat).bind x.mul
  else if x.isZero then some x
  else none

end Binary64

end QueuedFiles.Decimal
