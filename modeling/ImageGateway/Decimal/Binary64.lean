/-!
# Binary floating point numbers of 64 bits

A finite number is a sign, a significand below `2 ^ 53` and a power of two. Everything here is exact
arithmetic on natural numbers: `nearest?` rounds a quotient to the nearest number, a tie to the even
significand, and `scaleTen?` multiplies by a power of ten that has itself been rounded first.
-/

namespace ImageGateway.Decimal

/-- The number `± significand * 2 ^ exponent`. Either the significand has 53 bits or the exponent
is the least one, -1074. -/
structure Binary64 where
  negative : Bool
  significand : Nat
  exponent : Int
  deriving DecidableEq, Repr

namespace Binary64

/-- The least significand of 53 bits, `2 ^ 52`. -/
def leastFull : Nat := 4503599627370496

/-- Zero with a sign. -/
def zero (negative : Bool) : Binary64 := ⟨negative, 0, -1074⟩

/-- Whether the number is zero of either sign. -/
def isZero (x : Binary64) : Bool := x.significand == 0

/-- The quotient rounded to a natural number, a tie to the even one. -/
def roundDiv (num den : Nat) : Nat :=
  let floor := num / den
  let rest := 2 * (num % den)
  if rest < den then floor
  else if den < rest then floor + 1
  else floor + floor % 2

/-- `num / den` in units of `2 ^ exponent`, as a pair of natural numbers. -/
def inUnits (num den : Nat) (exponent : Int) : Nat × Nat :=
  if exponent < 0 then (num * Nat.pow 2 (-exponent).toNat, den)
  else (num, den * Nat.pow 2 exponent.toNat)

/-- The exponent for which `num / den` has a significand of 53 bits, or the least exponent. -/
def exponentFor (num den : Nat) : Int :=
  let guess : Int := (num.log2 : Int) - (den.log2 : Int) - 52
  let (n, d) := inUnits num den guess
  let exponent := if n / d < leastFull then guess - 1 else guess
  if exponent < -1074 then -1074 else exponent

/-- The finite number nearest to `num / den`, or nothing when that is beyond the largest one. -/
def nearest? (negative : Bool) (num den : Nat) : Option Binary64 :=
  if num = 0 then some (zero negative)
  else
    let exponent := exponentFor num den
    let (n, d) := inUnits num den exponent
    let rounded := roundDiv n d
    let (significand, exponent) :=
      if rounded = 2 * leastFull then (leastFull, exponent + 1) else (rounded, exponent)
    if 971 < exponent then none else some ⟨negative, significand, exponent⟩

/-- The magnitude as a quotient of natural numbers. -/
def ratio (x : Binary64) : Nat × Nat :=
  if x.exponent < 0 then (x.significand, Nat.pow 2 (-x.exponent).toNat)
  else (x.significand * Nat.pow 2 x.exponent.toNat, 1)

/-- The magnitude of the number nearest to a power of ten, as a quotient. -/
def powerTen (exponent : Nat) : Nat × Nat :=
  match nearest? false (Nat.pow 10 exponent) 1 with
  | some x => x.ratio
  | none => (Nat.pow 10 exponent, 1)

/-- The number times a power of ten, or nothing when that is too large. -/
def timesTen? (x : Binary64) (exponent : Nat) : Option Binary64 :=
  nearest? x.negative (x.ratio.1 * (powerTen exponent).1) (x.ratio.2 * (powerTen exponent).2)

/-- The number divided by a power of ten. -/
def overTen (x : Binary64) (exponent : Nat) : Binary64 :=
  let num := x.ratio.1 * (powerTen exponent).2
  let den := x.ratio.2 * (powerTen exponent).1
  (nearest? x.negative num den).getD (zero x.negative)

/-- The number divided by a power of ten of any size, in steps of at most 308 places. -/
def shiftDown (x : Binary64) (exponent : Nat) : Binary64 :=
  if exponent ≤ 308 then x.overTen exponent
  else if x.isZero then x
  else shiftDown (x.overTen 308) (exponent - 308)
termination_by exponent
decreasing_by omega

/-- The number times a power of ten of either sign, or nothing when that is too large. -/
def scaleTen? (x : Binary64) (exponent : Int) : Option Binary64 :=
  if exponent < 0 then some (x.shiftDown (-exponent).toNat)
  else if exponent ≤ 308 then x.timesTen? exponent.toNat
  else if x.isZero then some x
  else none

end Binary64

end ImageGateway.Decimal
