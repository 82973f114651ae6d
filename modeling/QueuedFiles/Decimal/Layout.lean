import QueuedFiles.Decimal.Shortest

/-!
How decimals are laid out as text.
-/

namespace QueuedFiles.Decimal

/-- Which numbers are written without an exponent: those whose first digit stands for a power of ten
from `plainFrom` on and below `plainBelow`. -/
structure Layout where
  plainFrom : Int
  plainBelow : Int

/-- Documents and messages write `0.00001` and `1000.0`, but `1e-6` and `1e+16`. -/
def Layout.document : Layout := ⟨-5, 16⟩

namespace Scientific

/-- The point goes after `before` digits; zeros fill up, and a digit follows the point always. -/
def plain (ds : List Char) (before : Int) : List Char :=
  if before ≤ 0 then '0' :: '.' :: List.replicate (-before).toNat '0' ++ ds
  else
    let n := before.toNat
    let fraction := ds.drop n
    ds.take n ++ List.replicate (n - ds.length) '0' ++ '.' ::
      (if fraction.isEmpty then ['0'] else fraction)

/-- One digit before the point, the rest after it, then the exponent with its sign. -/
def withExponent (ds : List Char) (e : Int) : List Char :=
  let fraction := ds.drop 1
  ds.take 1 ++ (if fraction.isEmpty then [] else '.' :: fraction) ++
    ['e', if e < 0 then '-' else '+'] ++ Nat.toDigits 10 e.natAbs

def render (layout : Layout) (s : Scientific) : List Char :=
  let ds := Nat.toDigits 10 s.digits
  let first : Int := s.exponent + ds.length - 1
  if layout.plainFrom ≤ first ∧ first < layout.plainBelow then plain ds (first + 1)
  else withExponent ds first

end Scientific

/-- A finite double as text: its shortest digits with a sign in front if it is negative. -/
def Binary64.render (layout : Layout) (x : Binary64) : List Char :=
  (if x.negative then ['-'] else []) ++
    (if x.isZero then ['0', '.', '0'] else x.shortest.render layout)

end QueuedFiles.Decimal
