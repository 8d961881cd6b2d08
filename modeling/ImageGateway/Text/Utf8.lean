import ImageGateway.Bytes

/-!
# Reading UTF-8 one scalar at a time

`scalar?` reads the well formed scalar at the front of a byte string, `lossy` reads the whole of it
and puts U+FFFD in place of every maximal ill formed part.
-/

namespace ImageGateway.Text.Utf8

/-- The bytes `low` to `high` that may follow the lead byte `lead` of a sequence of several bytes,
with the number of continuation bytes in all. -/
def second? (lead : UInt8) : Option (UInt8 × UInt8 × Nat) :=
  if lead < 0xC2 then none
  else if lead < 0xE0 then some (0x80, 0xBF, 1)
  else if lead = 0xE0 then some (0xA0, 0xBF, 2)
  else if lead = 0xED then some (0x80, 0x9F, 2)
  else if lead < 0xF0 then some (0x80, 0xBF, 2)
  else if lead = 0xF0 then some (0x90, 0xBF, 3)
  else if lead < 0xF4 then some (0x80, 0xBF, 3)
  else if lead = 0xF4 then some (0x80, 0x8F, 3)
  else none

/-- Whether `b` lies between `low` and `high`. -/
def within (low high b : UInt8) : Bool := low ≤ b && b ≤ high

/-- How many bytes at the front belong together: a whole scalar, or as much of one as is there. -/
def span : Bytes → Nat
  | [] => 0
  | lead :: rest =>
    if lead < 0x80 then 1
    else match second? lead, rest with
      | some (low, high, more), b :: rest =>
        if within low high b then
          2 + ((rest.take (more - 1)).takeWhile (within 0x80 0xBF)).length
        else 1
      | _, _ => 1

/-- The payload bits of a continuation byte. -/
def tail (b : UInt8) : Nat := b.toNat % 64

/-- The character with the bytes of one scalar, whose ranges have been checked. -/
def assemble? : Bytes → Option Char
  | [a] => if a < 0x80 then some (Char.ofNat a.toNat) else none
  | [a, b] =>
    if 0xC2 ≤ a && a < 0xE0 then some (Char.ofNat ((a.toNat % 32) * 64 + tail b)) else none
  | [a, b, c] =>
    if 0xE0 ≤ a && a < 0xF0 then
      some (Char.ofNat ((a.toNat % 16) * 4096 + tail b * 64 + tail c))
    else none
  | [a, b, c, d] =>
    some (Char.ofNat ((a.toNat % 8) * 262144 + tail b * 4096 + tail c * 64 + tail d))
  | _ => none

/-- The scalar at the front, with the bytes after it. -/
def scalar? (bs : Bytes) : Option (Char × Bytes) :=
  (assemble? (bs.take (span bs))).map fun c => (c, bs.drop (span bs))

/-- Reads at most `fuel` scalars, or ill formed parts in their place. -/
def lossyUpTo : Nat → Bytes → List Char
  | 0, _ => []
  | _, [] => []
  | fuel + 1, bs =>
    match scalar? bs with
    | some (c, rest) => c :: lossyUpTo fuel rest
    | none => '\uFFFD' :: lossyUpTo fuel (bs.drop (span bs))

/-- The text of a byte string, where U+FFFD stands for every maximal ill formed part. -/
def lossy (bs : Bytes) : String := String.ofList (lossyUpTo bs.length bs)

end ImageGateway.Text.Utf8
