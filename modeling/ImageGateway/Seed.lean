import ImageGateway.Decimal.Digits
import ImageGateway.Text.DecimalDigit
import ImageGateway.Text.Utf8

/-!
# Seeds inside images

An image carries the parameters that produced it somewhere in its bytes, among them the seed as
`"seed":` with the number right after it. `Seed.find?` gives the number after the first such marker
that has one, whatever the bytes around it are.
-/

namespace ImageGateway.Seed

/-- The bytes of `"seed":`. -/
def marker : Bytes := [34, 115, 101, 101, 100, 34, 58]

/-- The bytes after a marker at the front. -/
def afterMarker? (bs : Bytes) : Option Bytes :=
  if marker.isPrefixOf bs then some (bs.drop marker.length) else none

/-- The decimal digits, of any script, at the front of the bytes; at most `fuel` of them. -/
def digitsUpTo : Nat → Bytes → List Char
  | 0, _ => []
  | fuel + 1, bs =>
    match Text.Utf8.scalar? bs with
    | some (c, rest) => if Text.isDecimalDigit c then c :: digitsUpTo fuel rest else []
    | none => []

/-- All decimal digits at the front of the bytes. -/
def digitRun (bs : Bytes) : List Char := digitsUpTo bs.length bs

/-- The digits after the first marker that is followed by a digit. -/
def firstDigits? : Bytes → Option (List Char)
  | [] => none
  | b :: rest =>
    match afterMarker? (b :: rest) with
    | some tail => if (digitRun tail).isEmpty then firstDigits? rest else some (digitRun tail)
    | none => firstDigits? rest

/-- The first seed in the bytes. There is none when the digits found first are not all ASCII or do
not fit in 64 bits. -/
def find? (payload : Bytes) : Option UInt64 := (firstDigits? payload).bind Decimal.word?

end ImageGateway.Seed
