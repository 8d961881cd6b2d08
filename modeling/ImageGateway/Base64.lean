import ImageGateway.Bytes

/-!
# Base64

Four characters of the standard alphabet stand for three bytes. The last group is padded to four
characters with `=`, and the bits of its last character that belong to no byte are zero; `decode?`
refuses every other text, so that a byte string has one encoding only.
-/

namespace ImageGateway.Base64

/-- The six bits that a character stands for. -/
def bits? (c : Char) : Option Nat :=
  let n := c.toNat
  if 65 ≤ n ∧ n ≤ 90 then some (n - 65)
  else if 97 ≤ n ∧ n ≤ 122 then some (n - 71)
  else if 48 ≤ n ∧ n ≤ 57 then some (n + 4)
  else if n = 43 then some 62
  else if n = 47 then some 63
  else none

/-- The byte with a value. -/
def byte (n : Nat) : UInt8 := UInt8.ofNat n

/-- The bytes of the last group, with the padding it needs. -/
def lastGroup? (a b c d : Char) : Option Bytes := do
  let x ← bits? a
  let y ← bits? b
  if c = '=' ∧ d = '=' then
    if y % 16 = 0 then some [byte (x * 4 + y / 16)] else none
  else
    let z ← bits? c
    if d = '=' then
      if z % 4 = 0 then some [byte (x * 4 + y / 16), byte (y % 16 * 16 + z / 4)] else none
    else
      let w ← bits? d
      some [byte (x * 4 + y / 16), byte (y % 16 * 16 + z / 4), byte (z % 4 * 64 + w)]

/-- The bytes of a group that others follow. -/
def group? (a b c d : Char) : Option Bytes := do
  let x ← bits? a
  let y ← bits? b
  let z ← bits? c
  let w ← bits? d
  some [byte (x * 4 + y / 16), byte (y % 16 * 16 + z / 4), byte (z % 4 * 64 + w)]

/-- The bytes that the groups stand for, behind those in `done`, which are in reverse. -/
def decodeOnto? (done : Bytes) : List Char → Option Bytes
  | [] => some done.reverse
  | [a, b, c, d] => (lastGroup? a b c d).map fun bytes => (bytes.reverse ++ done).reverse
  | a :: b :: c :: d :: rest =>
    match group? a b c d with
    | some bytes => decodeOnto? (bytes.reverse ++ done) rest
    | none => none
  | _ => none

/-- The bytes that a text encodes. -/
def decode? (cs : List Char) : Option Bytes := decodeOnto? [] cs

end ImageGateway.Base64
