import ImageGateway.Decimal.Binary64
import ImageGateway.Decimal.Digits

/-!
# Shortest decimals

`shortest` finds the decimal with the fewest digits that reads back as a given floating point
number, and the nearest one of those; `render` writes it. All comparisons are exact.
-/

namespace ImageGateway.Decimal

/-- The decimal `coefficient * 10 ^ exponent`. -/
structure Scaled where
  coefficient : Nat
  exponent : Int
  deriving DecidableEq, Repr

/-- A non-negative quotient, compared by cross multiplication. -/
structure Ratio where
  num : Nat
  den : Nat

namespace Ratio

/-- Whether the first quotient is below the second. -/
def lt (x y : Ratio) : Bool := x.num * y.den < y.num * x.den

/-- Whether the first quotient is at most the second. -/
def le (x y : Ratio) : Bool := x.num * y.den ≤ y.num * x.den

/-- A natural number times a power of two. -/
def timesTwo (n : Nat) (exponent : Int) : Ratio :=
  if exponent < 0 then ⟨n, Nat.pow 2 (-exponent).toNat⟩ else ⟨n * Nat.pow 2 exponent.toNat, 1⟩

/-- A natural number times a power of ten. -/
def timesTen (n : Nat) (exponent : Int) : Ratio :=
  if exponent < 0 then ⟨n, Nat.pow 10 (-exponent).toNat⟩ else ⟨n * Nat.pow 10 exponent.toNat, 1⟩

/-- How often a power of ten goes into the quotient. -/
def floorTen (x : Ratio) (exponent : Int) : Nat :=
  if exponent < 0 then x.num * Nat.pow 10 (-exponent).toNat / x.den
  else x.num / (x.den * Nat.pow 10 exponent.toNat)

end Ratio

/-- The reals that round to a number: between `low` and `high`, the ends included when the
significand is even. -/
structure Interval where
  low : Ratio
  high : Ratio
  closed : Bool

/-- Whether the interval holds the quotient. -/
def Interval.holds (i : Interval) (x : Ratio) : Bool :=
  if i.closed then i.low.le x && x.le i.high else i.low.lt x && x.lt i.high

/-- The reals that round to the number. Below a power of two the gap is half as wide. -/
def Binary64.interval (x : Binary64) : Interval :=
  let narrow := x.significand = leastFull ∧ -1074 < x.exponent
  { low := if narrow then Ratio.timesTwo (4 * x.significand - 1) (x.exponent - 2)
           else Ratio.timesTwo (2 * x.significand - 1) (x.exponent - 1)
    high := Ratio.timesTwo (2 * x.significand + 1) (x.exponent - 1)
    closed := x.significand % 2 = 0 }

/-- Of the two neighbours of the value on the grid of a power of ten, the one that rounds to the
number: the nearer one if both do, and the even one if they are equally near. -/
def Binary64.onGrid? (x : Binary64) (exponent : Int) : Option Nat :=
  let value := Ratio.timesTwo x.significand x.exponent
  let below := value.floorTen exponent
  let fits := fun n => x.interval.holds (Ratio.timesTen n exponent)
  let middle := Ratio.timesTen (10 * below + 5) (exponent - 1)
  match fits below, fits (below + 1) with
  | true, true =>
    if value.lt middle then some below
    else if middle.lt value then some (below + 1)
    else some (below + below % 2)
  | true, false => some below
  | false, true => some (below + 1)
  | false, false => none

/-- Tries the grids of the given power of ten and finer ones, at most `fuel` of them. -/
def Binary64.search (x : Binary64) (exponent : Int) : Nat → Scaled
  | 0 => ⟨0, 0⟩
  | fuel + 1 =>
    match x.onGrid? exponent with
    | some coefficient => ⟨coefficient, exponent⟩
    | none => x.search (exponent - 1) fuel

/-- Moves the zeros at the end of the coefficient into the exponent. -/
def Scaled.strip (d : Scaled) : Scaled :=
  if d.coefficient = 0 then d
  else if d.coefficient % 10 = 0 then strip ⟨d.coefficient / 10, d.exponent + 1⟩
  else d
termination_by d.coefficient
decreasing_by omega

/-- The shortest decimal that reads back as the magnitude of the number, which is not zero. The
search starts at a power of ten above the value, and seventeen digits always suffice. -/
def Binary64.shortest (x : Binary64) : Scaled :=
  let binary : Int := (x.significand.log2 : Int) + x.exponent
  (x.search (binary * 30103 / 100000 + 2) 24).strip

/-- How a decimal is laid out: the position of the point (counted from the front of the digits) up
to which numbers are written without an exponent, and the position above which they are. -/
structure Layout where
  pointAbove : Int
  pointUpTo : Int

/-- Digits with the point at the given position, or in scientific notation where that lies outside
the layout's limits. There is always a digit on both sides of the point of a positional number, and
the exponent of a scientific one has a sign. -/
def Scaled.layOut (layout : Layout) (d : Scaled) : List Char :=
  let ds := digits d.coefficient
  let point : Int := ds.length + d.exponent
  if 0 ≤ d.exponent ∧ point ≤ layout.pointUpTo then
    ds ++ List.replicate d.exponent.toNat '0' ++ ['.', '0']
  else if 0 < point ∧ point ≤ layout.pointUpTo then
    ds.take point.toNat ++ '.' :: ds.drop point.toNat
  else if layout.pointAbove < point ∧ point ≤ 0 then
    ['0', '.'] ++ List.replicate (-point).toNat '0' ++ ds
  else
    let fraction := if ds.length = 1 then [] else '.' :: ds.drop 1
    let scale := point - 1
    ds.take 1 ++ fraction ++ ['e', if scale < 0 then '-' else '+'] ++ digits scale.natAbs

/-- The shortest text of a number that reads back as it. -/
def Binary64.render (layout : Layout) (x : Binary64) : List Char :=
  let magnitude := if x.isZero then ['0', '.', '0'] else x.shortest.layOut layout
  if x.negative then '-' :: magnitude else magnitude

end ImageGateway.Decimal
