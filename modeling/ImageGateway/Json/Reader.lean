import ImageGateway.Json.Lexeme

/-!
# Reading JSON

`value` reads a value that is nested at most to a given depth, `skip` steps over a value of any
depth and checks only that it is written correctly. Both are built on `listing`, which reads the
items between two brackets.
-/

namespace ImageGateway.Json

/-- Items with commas between them and a closing bracket after the last; `clock` bounds their
number. -/
def itemsUntil (close : UInt8) (item : Reader α) : (clock : Bytes) → Reader (List α)
  | [], _ => none
  | _ :: clock, bs => do
    let (x, rest) ← item (skipBlanks bs)
    match skipBlanks rest with
    | b :: rest =>
      if b = 44 then
        let (xs, rest) ← itemsUntil close item clock rest
        some (x :: xs, rest)
      else if b = close then some ([x], rest)
      else none
    | [] => none

/-- What stands between an opening bracket, which has been read, and its closing bracket. No item is
empty, so there are at most as many as bytes. -/
def listing (close : UInt8) (item : Reader α) : Reader (List α) := fun bs =>
  match skipBlanks bs with
  | b :: rest => if b = close then some ([], rest) else itemsUntil close item bs bs
  | [] => none

/-- A key, a colon and what the reader chosen by the key makes of the rest. -/
def member (value : String → Reader α) : Reader α := fun bs => do
  let (key, rest) ← string? bs
  match skipBlanks rest with
  | 58 :: rest => value key (skipBlanks rest)
  | _ => none

/-- Whether a number begins with the byte. -/
def startsNumber (b : UInt8) : Bool := b == 45 || Bytes.isDigit b

/-- A fixed word for a value. -/
def word (text : Bytes) (x : α) : Reader α := fun bs =>
  (afterWord? text bs).map fun rest => (x, rest)

/-- A value whose arrays and objects are nested at most `depth` deep. -/
def value : Nat → Reader Value
  | depth, bs =>
    match bs with
    | [] => none
    | b :: rest =>
      if b = 110 then word [117, 108, 108] .null rest
      else if b = 116 then word [114, 117, 101] (.bool true) rest
      else if b = 102 then word [97, 108, 115, 101] (.bool false) rest
      else if b = 34 then (string? bs).map fun (s, rest) => (.string s, rest)
      else if startsNumber b then (number? bs).map fun (n, rest) => (.number n, rest)
      else match depth with
        | 0 => none
        | depth + 1 =>
          if b = 91 then (listing 93 (value depth) rest).map fun (xs, rest) => (.array xs, rest)
          else if b = 123 then
            let item := fun key bs => (value depth bs).map fun (v, rest) => ((key, v), rest)
            (listing 125 (member item) rest).map fun (members, rest) =>
              (.object (Members.ofList members), rest)
          else none

/-- How deep a document may be nested. -/
def maxDepth : Nat := 127

/-- The value that a document holds. -/
def parse? (bs : Bytes) : Option Value := Reader.whole? (value maxDepth) bs

/-! ## Stepping over values -/

/-- The bytes after a string whose opening quote has been read. Escapes are checked for their form
only, and the bytes need not be UTF-8. -/
def skipString : Bytes → Option Bytes
  | [] => none
  | b :: rest =>
    if b = 34 then some rest
    else if b = 92 then
      match rest with
      | [] => none
      | e :: rest =>
        if e = 117 then
          match rest with
          | h₁ :: h₂ :: h₃ :: h₄ :: rest =>
            if [h₁, h₂, h₃, h₄].all fun h => (hexValue? h).isSome then skipString rest else none
          | _ => none
        else if (letterEscape? e).isSome then skipString rest
        else none
    else if b < 32 then none
    else skipString rest

/-- A key that is stepped over, a colon and a value that is stepped over. -/
def skipMember (skipValue : Reader Unit) : Reader Unit := fun bs => do
  match bs with
  | 34 :: rest =>
    let rest ← skipString rest
    match skipBlanks rest with
    | 58 :: rest => skipValue (skipBlanks rest)
    | _ => none
  | _ => none

/-- Steps over a value nested at most `depth` deep. -/
def skipUpTo : Nat → Reader Unit
  | depth, bs =>
    match bs with
    | [] => none
    | b :: rest =>
      if b = 110 then word [117, 108, 108] () rest
      else if b = 116 then word [114, 117, 101] () rest
      else if b = 102 then word [97, 108, 115, 101] () rest
      else if b = 34 then (skipString rest).map fun rest => ((), rest)
      else if startsNumber b then (numberText? bs).map fun (_, rest) => ((), rest)
      else match depth with
        | 0 => none
        | depth + 1 =>
          if b = 91 then (listing 93 (skipUpTo depth) rest).map fun (_, rest) => ((), rest)
          else if b = 123 then
            (listing 125 (skipMember (skipUpTo depth)) rest).map fun (_, rest) => ((), rest)
          else none

/-- Steps over a value. There are no more levels of nesting than bytes, so every depth is
allowed. -/
def skip : Reader Unit := fun bs => skipUpTo bs.length bs

/-! ## Records with named fields -/

/-- Reads one value after the other from an array, each with its own reader; the last ones may be
missing. -/
def rowUntil : List (Reader α) → Reader (List α)
  | [], _ => none
  | reader :: readers, bs => do
    let (x, rest) ← reader (skipBlanks bs)
    match skipBlanks rest with
    | 93 :: rest => some ([x], rest)
    | 44 :: rest =>
      let (xs, rest) ← rowUntil readers rest
      some (x :: xs, rest)
    | _ => none

/-- The values in an array whose opening bracket has been read. -/
def row (readers : List (Reader α)) : Reader (List α) := fun bs =>
  match skipBlanks bs with
  | 93 :: rest => some ([], rest)
  | _ => rowUntil readers bs

/-- The fields of a record, given by name in an object or by position in an array. -/
def fields (named : String → Reader α) (positional : List (Reader α)) : Reader (List α)
  | 123 :: rest => listing 125 (member named) rest
  | 91 :: rest => row positional rest
  | _ => none

end ImageGateway.Json
