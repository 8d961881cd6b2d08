import ImageGateway.Toml.Lexeme

/-!
# Numbers of a TOML document

Integers of 64 bits in four bases, and floating point numbers. Digits may be grouped by single
underscores.
-/

namespace ImageGateway.Toml

/-- The end of a run of digits, which may be grouped by underscores: the digits that follow the
first one, and the characters after them. -/
def moreDigits (isDigit : Char → Bool) : Reader (List Char)
  | '_' :: d :: cs =>
    if isDigit d then do
      let (ds, rest) ← moreDigits isDigit cs
      .ok (d :: ds, rest)
    else .error (cs.length + 1)
  | ['_'] => .error 0
  | d :: cs =>
    if isDigit d then do
      let (ds, rest) ← moreDigits isDigit cs
      .ok (d :: ds, rest)
    else .ok ([], d :: cs)
  | [] => .ok ([], [])

/-- A run of one or more digits. -/
def digitRun (isDigit : Char → Bool) : Reader (List Char)
  | d :: cs =>
    if isDigit d then do
      let (ds, rest) ← moreDigits isDigit cs
      .ok (d :: ds, rest)
    else .error (cs.length + 1)
  | [] => .error 0

/-- A sign, and whether it is that of negative numbers. -/
def sign : List Char → Bool × List Char
  | '+' :: cs => (false, cs)
  | '-' :: cs => (true, cs)
  | cs => (false, cs)

/-- The digits before a point. A zero in front stands alone. -/
def wholePart : Reader (List Char)
  | '0' :: cs => .ok (['0'], cs)
  | cs => digitRun Char.isDigit cs

/-! ## Integers -/

/-- The number of negative integers of 64 bits. -/
def integerBound : Nat := Nat.pow 2 63

/-- An integer, if it has at most 64 bits; `place` is where it begins. -/
def checkedInteger (place : Place) (n : Int) (rest : List Char) :
    Except Place (Value × List Char) :=
  if -(integerBound : Int) ≤ n ∧ n < integerBound then .ok (.integer n, rest) else .error place

/-- Whether a character is a digit of a base up to sixteen. -/
def isDigitOf (base : Nat) (c : Char) : Bool :=
  match hexDigit? c with
  | some d => d < base
  | none => false

/-- The base that the letter after a zero stands for. -/
def baseOf? (c : Char) : Option Nat :=
  if c = 'x' then some 16 else if c = 'o' then some 8 else if c = 'b' then some 2 else none

/-- An integer whose base and digits come after its first two characters. -/
def basedInteger (base : Nat) (place : Place) : Reader Value := fun cs => do
  let (ds, rest) ← digitRun (isDigitOf base) cs
  checkedInteger place (ofDigits base ds) rest

/-! ## Floating point numbers -/

/-- An exponent with its letter, if there is one. -/
def exponent? : Reader (Option Int)
  | c :: cs =>
    if c = 'e' || c = 'E' then do
      let (negative, cs) := sign cs
      let (ds, rest) ← digitRun Char.isDigit cs
      let n : Int := ofDigits 10 ds
      .ok (some (if negative then -n else n), rest)
    else .ok (none, c :: cs)
  | [] => .ok (none, [])

/-- The digits after a point, if there is one. -/
def fraction? : Reader (Option (List Char))
  | '.' :: cs => do
    let (ds, rest) ← digitRun Char.isDigit cs
    .ok (some ds, rest)
  | cs => .ok (none, cs)

/-- Powers of ten beyond which a number is too large, and below the negative of which it is zero. -/
def largestPower : Int := 400

/-- The number nearest to `coefficient * 10 ^ power`, where the coefficient has `size` digits;
nothing if that is too large. -/
def scaled? (negative : Bool) (coefficient size : Nat) (power : Int) : Option Decimal.Binary64 :=
  if coefficient = 0 ∨ size + power < -largestPower then some (.zero negative)
  else if largestPower < size + power then none
  else if power < 0 then Decimal.Binary64.nearest? negative coefficient (Nat.pow 10 (-power).toNat)
  else Decimal.Binary64.nearest? negative (coefficient * Nat.pow 10 power.toNat) 1

/-- A floating point number. One that is too large is refused, but one that is too far below zero is
infinite; `place` is where it begins. -/
def checkedFloat (place : Place) (negative : Bool) (whole fraction : List Char) (power : Int)
    (rest : List Char) : Except Place (Value × List Char) :=
  let ds := (whole ++ fraction).dropWhile (· = '0')
  match scaled? negative (ofDigits 10 ds) ds.length (power - fraction.length) with
  | some x => .ok (.float (.finite x), rest)
  | none => if negative then .ok (.float (.infinite true), rest) else .error place

/-- The words for numbers that are not finite, after a sign. -/
def specialFloat? (negative : Bool) : List Char → Option (Value × List Char)
  | 'i' :: 'n' :: 'f' :: cs => some (.float (.infinite negative), cs)
  | 'n' :: 'a' :: 'n' :: cs => some (.float .notANumber, cs)
  | _ => none

/-- A number that begins with a decimal digit or a sign. -/
def decimalNumber (place : Place) : Reader Value := fun cs => do
  let (negative, unsigned) := sign cs
  match specialFloat? negative unsigned with
  | some result => .ok result
  | none =>
    let (whole, rest) ← wholePart unsigned
    let (fraction, rest) ← fraction? rest
    let (power, rest) ← exponent? rest
    if fraction.isSome || power.isSome then
      checkedFloat place negative whole (fraction.getD []) (power.getD 0) rest
    else
      let n : Int := ofDigits 10 whole
      checkedInteger place (if negative then -n else n) rest

/-- A number of any kind. -/
def number : Reader Value := fun cs =>
  match cs with
  | '0' :: c :: rest =>
    match baseOf? c with
    | some base => basedInteger base cs.length rest
    | none => decimalNumber cs.length cs
  | _ => decimalNumber cs.length cs

end ImageGateway.Toml
