import ImageGateway.Decimal.Digits

/-!
# Internet addresses

Addresses of version 4 and 6: reading their text, and writing the one canonical text of each.
-/

namespace ImageGateway.Net

/-- An internet address. An address of version 6 is its eight groups. -/
inductive IpAddress where
  | v4 (octets : List UInt8)
  | v6 (groups : List UInt16)
  deriving DecidableEq, Repr

/-- Reads a part of an address from the front of the characters. -/
abbrev Reader (α : Type) := List Char → Option (α × List Char)

/-- The value of a hexadecimal digit. -/
def hexDigit? (c : Char) : Option Nat :=
  if c.isDigit then some (c.toNat - 48)
  else if 'a' ≤ c ∧ c ≤ 'f' then some (c.toNat - 87)
  else if 'A' ≤ c ∧ c ≤ 'F' then some (c.toNat - 55)
  else none

/-- One to three decimal digits without a zero in front, below 256. -/
def octet? : Reader UInt8 := fun cs =>
  let run := cs.takeWhile Char.isDigit
  let n := Nat.ofDigitChars 10 run 0
  if run.isEmpty || 3 < run.length || (run.head? = some '0' && 1 < run.length) || 255 < n then none
  else some (UInt8.ofNat n, cs.drop run.length)

/-- The given number of octets, with points between them. -/
def octets? : Nat → Reader (List UInt8)
  | 0, cs => some ([], cs)
  | 1, cs => do
    let (o, cs) ← octet? cs
    some ([o], cs)
  | n + 2, cs => do
    let (o, cs) ← octet? cs
    match cs with
    | '.' :: cs =>
      let (os, cs) ← octets? (n + 1) cs
      some (o :: os, cs)
    | _ => none

/-- The digits at the front of a group. -/
def hexRun (cs : List Char) : List Char := cs.takeWhile fun c => (hexDigit? c).isSome

/-- One to four hexadecimal digits. -/
def group? : Reader UInt16 := fun cs =>
  let run := hexRun cs
  if run.isEmpty || 4 < run.length then none
  else
    let n := run.foldl (fun n c => n * 16 + (hexDigit? c).getD 0) 0
    some (UInt16.ofNat n, cs.drop run.length)

/-- What follows the colon, which only the first group does without. -/
def afterColon? (first : Bool) : List Char → Option (List Char)
  | ':' :: cs => if first then some (':' :: cs) else some cs
  | cs => if first then some cs else none

/-- The two groups that an address of version 4 stands for. -/
def embedded (octets : List UInt8) : List UInt16 :=
  match octets with
  | [a, b, c, d] => [a.toUInt16 * 256 + b.toUInt16, c.toUInt16 * 256 + d.toUInt16]
  | _ => []

/-- At most `room` groups with colons between them, and whether the last two were given as an
address of version 4. -/
def groups (first : Bool) : Nat → List Char → List UInt16 × Bool × List Char
  | 0, cs => ([], false, cs)
  | room + 1, cs =>
    match afterColon? first cs with
    | none => ([], false, cs)
    | some rest =>
      match if 1 ≤ room then octets? 4 rest else none with
      | some (os, rest) => (embedded os, true, rest)
      | none =>
        match group? rest with
        | none => ([], false, cs)
        | some (g, rest) =>
          let (gs, isV4, rest) := groups false room rest
          (g :: gs, isV4, rest)

/-- Eight groups, of which a run of zeros may be left out at one place. -/
def v6? : Reader (List UInt16) := fun cs =>
  let (head, isV4, rest) := groups true 8 cs
  if head.length = 8 then some (head, rest)
  else if isV4 then none
  else match rest with
    | ':' :: ':' :: rest =>
      let (tail, _, rest) := groups true (7 - head.length) rest
      some (head ++ List.replicate (8 - head.length - tail.length) 0 ++ tail, rest)
    | _ => none

/-! ## Writing -/

/-- A group in hexadecimal digits. -/
def groupText (g : UInt16) : List Char := Nat.toDigits 16 g.toNat

/-- Items with a separator between them. -/
def separated (separator : Char) : List (List Char) → List Char
  | [] => []
  | [item] => item
  | item :: rest => item ++ separator :: separated separator rest

/-- How many zeros are at the front. -/
def zerosAhead (gs : List UInt16) : Nat := (gs.takeWhile (· = 0)).length

/-- The start and the length of the first of the longest runs of zeros, `start` being the place of
the first group. -/
def longestZeros (start : Nat) : List UInt16 → Nat × Nat
  | [] => (start, 0)
  | g :: gs =>
    let here := zerosAhead (g :: gs)
    let later := longestZeros (start + 1) gs
    if later.2 ≤ here then (start, here) else later

/-- The decimal text of octets. -/
def octetsText (os : List UInt8) : List Char :=
  separated '.' (os.map fun o => Decimal.digits o.toNat)

/-- The octets of a group. -/
def groupOctets (g : UInt16) : List UInt8 := [(g / 256).toUInt8, g.toUInt8]

/-- The canonical text of eight groups. The first of the longest runs of two or more zeros is left
out, and an address that stands for one of version 4 shows that one. -/
def v6Text (gs : List UInt16) : List Char :=
  match gs with
  | [0, 0, 0, 0, 0, 0xFFFF, g, h] =>
    "::ffff:".toList ++ octetsText (groupOctets g ++ groupOctets h)
  | _ =>
    let (start, count) := longestZeros 0 gs
    if count < 2 then separated ':' (gs.map groupText)
    else separated ':' ((gs.take start).map groupText) ++ [':', ':']
      ++ separated ':' ((gs.drop (start + count)).map groupText)

/-- The canonical text of an address. -/
def IpAddress.text : IpAddress → List Char
  | .v4 os => octetsText os
  | .v6 gs => v6Text gs

end ImageGateway.Net
