import ImageGateway.Json.Value

/-!
# The smallest parts of a JSON document

Blanks, fixed words, strings and numbers, each read from the front of a byte string together with
the bytes after it. A `Reader` is such a function.
-/

namespace ImageGateway.Json

/-- Reads a part of a document from the front of the bytes. -/
abbrev Reader (α : Type) := Bytes → Option (α × Bytes)

/-- Space, tab, line feed and carriage return. -/
def isBlank (b : UInt8) : Bool := b == 32 || b == 9 || b == 10 || b == 13

/-- The bytes from the first one that is not blank. -/
def skipBlanks (bs : Bytes) : Bytes := bs.dropWhile isBlank

/-- The bytes after a fixed word at the front. -/
def afterWord? : Bytes → Bytes → Option Bytes
  | [], bs => some bs
  | w :: word, b :: bs => if w = b then afterWord? word bs else none
  | _ :: _, [] => none

/-- Whether nothing but blanks is left. -/
def atEnd (bs : Bytes) : Bool := (skipBlanks bs).isEmpty

/-- What a reader makes of a whole document, blanks around the value allowed. -/
def Reader.whole? (reader : Reader α) (bs : Bytes) : Option α :=
  match reader (skipBlanks bs) with
  | some (x, rest) => if atEnd rest then some x else none
  | none => none

/-! ## Strings -/

/-- The value of a hexadecimal digit. -/
def hexValue? (b : UInt8) : Option Nat :=
  if 48 ≤ b && b ≤ 57 then some (b.toNat - 48)
  else if 97 ≤ b && b ≤ 102 then some (b.toNat - 87)
  else if 65 ≤ b && b ≤ 70 then some (b.toNat - 55)
  else none

/-- The code unit given by four hexadecimal digits. -/
def codeUnit? : Reader Nat
  | a :: b :: c :: d :: rest => do
    let unit := (((← hexValue? a) * 16 + (← hexValue? b)) * 16 + (← hexValue? c)) * 16
      + (← hexValue? d)
    some (unit, rest)
  | _ => none

/-- The character that the digits after `\u` give. A leading surrogate must be followed by the
escape of a trailing one; no surrogate stands alone. -/
def unicodeEscape? : Reader Char := fun bs => do
  let (unit, rest) ← codeUnit? bs
  if 0xDC00 ≤ unit && unit ≤ 0xDFFF then none
  else if 0xD800 ≤ unit && unit ≤ 0xDBFF then
    match rest with
    | 92 :: 117 :: rest =>
      let (trail, rest) ← codeUnit? rest
      if 0xDC00 ≤ trail && trail ≤ 0xDFFF then
        some (Char.ofNat (0x10000 + (unit - 0xD800) * 1024 + (trail - 0xDC00)), rest)
      else none
    | _ => none
  else some (Char.ofNat unit, rest)

/-- The byte that an escape of one letter stands for. -/
def letterEscape? (b : UInt8) : Option UInt8 :=
  if b = 34 then some 34
  else if b = 92 then some 92
  else if b = 47 then some 47
  else if b = 98 then some 8
  else if b = 102 then some 12
  else if b = 110 then some 10
  else if b = 114 then some 13
  else if b = 116 then some 9
  else none

/-- The bytes of a string after its opening quote, escapes resolved. `done` holds those read so far
in reverse, and `clock` bounds the number of steps. -/
def stringBytes? : (clock done : Bytes) → Reader Bytes
  | [], _, _ => none
  | _, _, [] => none
  | _ :: clock, done, b :: rest =>
    if b = 34 then some (done.reverse, rest)
    else if b = 92 then
      match rest with
      | [] => none
      | e :: rest =>
        if e = 117 then
          match unicodeEscape? rest with
          | some (c, rest) => stringBytes? clock ((String.utf8EncodeChar c).reverse ++ done) rest
          | none => none
        else match letterEscape? e with
          | some byte => stringBytes? clock (byte :: done) rest
          | none => none
    else if b < 32 then none
    else stringBytes? clock (b :: done) rest

/-- A string with its quotes; its bytes must be well formed UTF-8. -/
def string? : Reader String
  | 34 :: bs =>
    match stringBytes? bs [] bs with
    | some (bytes, rest) => (Bytes.toString? bytes).map fun text => (text, rest)
    | none => none
  | _ => none

/-! ## Numbers -/

/-- A number as it is written: its sign, the digits before the point, those after it, and the
exponent with its sign. -/
structure NumberText where
  negative : Bool
  whole : Bytes
  fraction : Option Bytes
  exponent : Option (Bool × Bytes)
  deriving DecidableEq, Repr

/-- The digits at the front. -/
def digitRun (bs : Bytes) : Bytes × Bytes :=
  (bs.takeWhile Bytes.isDigit, bs.dropWhile Bytes.isDigit)

/-- One or more digits at the front. -/
def digitRun? : Reader Bytes := fun bs =>
  let (run, rest) := digitRun bs
  if run.isEmpty then none else some (run, rest)

/-- The digits before the point: a zero alone, or no zero in front. -/
def wholePart? : Reader Bytes := fun bs => do
  let (run, rest) ← digitRun? bs
  if run.head? = some 48 && 1 < run.length then none else some (run, rest)

/-- The point and the digits after it, if there is a point. -/
def fractionPart? : Reader (Option Bytes)
  | 46 :: bs => do
    let (run, rest) ← digitRun? bs
    some (some run, rest)
  | bs => some (none, bs)

/-- The sign of an exponent, and what follows it. -/
def exponentSign : Bytes → Bool × Bytes
  | 43 :: bs => (false, bs)
  | 45 :: bs => (true, bs)
  | bs => (false, bs)

/-- The exponent, if there is one. -/
def exponentPart? : Reader (Option (Bool × Bytes))
  | 101 :: bs | 69 :: bs => do
    let (negative, bs) := exponentSign bs
    let (run, rest) ← digitRun? bs
    some (some (negative, run), rest)
  | bs => some (none, bs)

/-- A number as it is written. -/
def numberText? : Reader NumberText := fun bs => do
  let negative := bs.head? = some 45
  let (whole, bs) ← wholePart? (if negative then bs.drop 1 else bs)
  let (fraction, bs) ← fractionPart? bs
  let (exponent, bs) ← exponentPart? bs
  some (⟨negative, whole, fraction, exponent⟩, bs)

/-- The value of a digit. -/
def digitValue (b : UInt8) : Nat := b.toNat - 48

/-- The number with the given digits. -/
def natOfDigits (ds : Bytes) : Nat := ds.foldl (fun n b => n * 10 + digitValue b) 0

/-- Digits gathered into a coefficient of at most 64 bits, with the power of ten it is to be
multiplied by. -/
structure Coefficient where
  value : Nat
  exponent : Int

/-- Takes in the digits before the point. From the first digit on that does not fit any more, each
digit only counts as a factor of ten. -/
def Coefficient.whole (value : Nat) : Bytes → Coefficient
  | [] => ⟨value, 0⟩
  | b :: rest =>
    let next := value * 10 + digitValue b
    if next < UInt64.size then whole next rest else ⟨value, rest.length + 1⟩

/-- Takes in the digits after the point, up to the first one that does not fit any more. -/
def Coefficient.fraction (c : Coefficient) : Bytes → Coefficient
  | [] => c
  | b :: rest =>
    let next := c.value * 10 + digitValue b
    if next < UInt64.size then fraction ⟨next, c.exponent - 1⟩ rest else c

/-- The largest exponent that is computed with; beyond it a number is zero or too large. -/
def exponentLimit : Nat := 2147483648

/-- The floating point number that a written number is read as: its coefficient as such a number,
times the power of ten. Nothing if it is too large. -/
def NumberText.float? (text : NumberText) : Option Decimal.Binary64 := do
  let whole := Coefficient.whole 0 text.whole
  let c := whole.fraction (text.fraction.getD [])
  let start ← Decimal.Binary64.nearest? text.negative c.value 1
  let (negative, size) := match text.exponent with
    | some (negative, run) => (negative, natOfDigits run)
    | none => (false, 0)
  if exponentLimit ≤ size then
    if c.value ≠ 0 && !negative then none else some (Decimal.Binary64.zero text.negative)
  else start.scaleTen? (if negative then c.exponent - size else c.exponent + size)

/-- The value of a written number: an integer where it is one without fraction and exponent that
fits in 64 bits and is not a negative zero, otherwise a floating point number. -/
def NumberText.value? (text : NumberText) : Option Number :=
  let n := natOfDigits text.whole
  let isInteger := text.fraction.isNone && text.exponent.isNone
  if isInteger && !text.negative && n < UInt64.size then some (.integer n)
  else if isInteger && text.negative && 0 < n && n ≤ UInt64.size / 2 then
    some (.integer (-(n : Int)))
  else text.float?.map .float

/-- A number. -/
def number? : Reader Number := fun bs => do
  let (text, rest) ← numberText? bs
  let value ← text.value?
  some (value, rest)

end ImageGateway.Json
