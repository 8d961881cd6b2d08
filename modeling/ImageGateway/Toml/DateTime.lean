import ImageGateway.Toml.Lexeme

/-!
# Dates and times of a TOML document

A date, a time, or a date with a time and possibly an offset from universal time. Only their form
and the ranges of their numbers matter here.
-/

namespace ImageGateway.Toml

/-- The number given by exactly `count` digits at the front, if it lies between two bounds. -/
def numberBetween? (count low high : Nat) (cs : List Char) : Option (Nat × List Char) :=
  let run := (cs.take count).takeWhile Char.isDigit
  let n := ofDigits 10 run
  if run.length = count ∧ low ≤ n ∧ n ≤ high then some (n, cs.drop count) else none

/-- A number that must be there. -/
def numberBetween (count low high : Nat) : Reader Nat := fun cs =>
  match numberBetween? count low high cs with
  | some result => .ok result
  | none => .error cs.length

/-- How many days a month has. -/
def daysIn (year month : Nat) : Nat :=
  if month = 2 then
    if year % 4 = 0 ∧ (year % 100 ≠ 0 ∨ year % 400 = 0) then 29 else 28
  else if month = 4 ∨ month = 6 ∨ month = 9 ∨ month = 11 then 30
  else 31

/-- The characters after a date; nothing if what is at the front is no date, which shows at the
first hyphen. -/
def afterDate? (cs : List Char) : Option (Except Place (List Char)) :=
  match numberBetween? 4 0 9999 cs with
  | some (year, '-' :: rest) => some do
    let (month, rest) ← numberBetween 2 1 12 rest
    let rest ← after '-' rest
    let (_, rest) ← numberBetween 2 1 (daysIn year month) rest
    .ok rest
  | _ => none

/-- The characters after the fraction of a second, if there is one. -/
def afterFraction : List Char → List Char
  | '.' :: d :: cs => if d.isDigit then cs.dropWhile Char.isDigit else '.' :: d :: cs
  | cs => cs

/-- The characters after a time of day; nothing if what is at the front is none, which shows at the
first colon. -/
def afterTime? (cs : List Char) : Option (Except Place (List Char)) :=
  match numberBetween? 2 0 23 cs with
  | some (_, ':' :: rest) => some do
    let (_, rest) ← numberBetween 2 0 59 rest
    let rest ← after ':' rest
    let (_, rest) ← numberBetween 2 0 60 rest
    .ok (afterFraction rest)
  | _ => none

/-- The characters after an offset, if there is one. -/
def afterOffset : List Char → Except Place (List Char)
  | c :: cs =>
    if c = 'Z' || c = 'z' then .ok cs
    else if c = '+' || c = '-' then do
      let (_, rest) ← numberBetween 2 0 23 cs
      let rest ← after ':' rest
      let (_, rest) ← numberBetween 2 0 59 rest
      .ok rest
    else .ok (c :: cs)
  | [] => .ok []

/-- Whether a character separates a date from the time after it. -/
def separatesTime (c : Char) : Bool := c == 'T' || c == 't' || c == ' '

/-- The characters after the time that may follow a date. -/
def afterTimeOfDate : List Char → Except Place (List Char)
  | c :: cs =>
    if separatesTime c then
      match afterTime? cs with
      | some time => do afterOffset (← time)
      | none => .ok (c :: cs)
    else .ok (c :: cs)
  | [] => .ok []

/-- The characters after a date, a time or both; nothing if there is none at the front. -/
def afterDateTime? (cs : List Char) : Option (Except Place (List Char)) :=
  match afterDate? cs with
  | some date => some (do afterTimeOfDate (← date))
  | none => afterTime? cs

/-- A date or time as it is written, if there is one at the front. -/
def dateTime? (cs : List Char) : Option (Except Place (Value × List Char)) :=
  (afterDateTime? cs).map fun result => do
    let rest ← result
    .ok (.dateTime (String.ofList (cs.take (cs.length - rest.length))), rest)

end ImageGateway.Toml
