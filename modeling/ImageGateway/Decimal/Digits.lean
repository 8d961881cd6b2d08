import ImageGateway.Bytes

/-!
# Natural numbers in decimal

`digits` writes a number, `padded` fills it up with zeros to a width, and `unsigned?` reads the
decimal text of a number below a bound, with an optional plus sign.
-/

namespace ImageGateway.Decimal

/-- The decimal digits of a number, the most significant first. -/
def digits (n : Nat) : List Char := Nat.toDigits 10 n

/-- The decimal digits of a number, with zeros in front up to `width` digits. -/
def padded (width n : Nat) : List Char := List.replicate (width - (digits n).length) '0' ++ digits n

/-- The number with the given digits, of which there is at least one and all are ASCII. -/
def natural? (cs : List Char) : Option Nat :=
  if cs.isEmpty || !cs.all Char.isDigit then none else some (Nat.ofDigitChars 10 cs 0)

/-- The digits of a number without the plus sign that may stand before them. -/
def unsignedDigits : List Char → List Char
  | '+' :: cs => cs
  | cs => cs

/-- The number below `bound` that the text gives: an optional plus sign and one or more digits. -/
def unsigned? (bound : Nat) (cs : List Char) : Option Nat :=
  (natural? (unsignedDigits cs)).filter (· < bound)

/-- The number of 64 bits that the text gives. -/
def word? (cs : List Char) : Option UInt64 := (unsigned? UInt64.size cs).map UInt64.ofNat

/-- The decimal text of a number as bytes. -/
def bytes (n : Nat) : Bytes := Bytes.ofChars (digits n)

theorem all_isDigit_digits (n : Nat) : (digits n).all Char.isDigit = true :=
  List.all_eq_true.mpr fun _ h => Nat.isDigit_of_mem_toDigits (by decide) (by decide) h

theorem all_isDigit_padded (width n : Nat) : (padded width n).all Char.isDigit = true := by
  rw [padded, List.all_append, all_isDigit_digits, Bool.and_true]
  exact List.all_eq_true.mpr fun c hc => by
    rw [List.eq_of_mem_replicate hc]
    rfl

/-- A number with no more digits than the width is filled up to exactly the width. -/
theorem length_padded {width n : Nat} (h : (digits n).length ≤ width) :
    (padded width n).length = width := by
  rw [padded, List.length_append, List.length_replicate, Nat.sub_add_cancel h]

end ImageGateway.Decimal
