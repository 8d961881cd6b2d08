import ImageGateway.Net.IpAddress

/-!
# Addresses to listen at

An internet address with a port; one of version 6 stands in brackets and may have a zone number.
-/

namespace ImageGateway.Net

/-- An address to listen at. -/
structure SocketAddress where
  ip : IpAddress
  zone : Nat
  port : UInt16
  deriving DecidableEq, Repr

/-- Decimal digits that give a number below a bound. -/
def boundedNumber? (bound : Nat) : Reader Nat := fun cs =>
  let run := cs.takeWhile Char.isDigit
  let n := Nat.ofDigitChars 10 run 0
  if run.isEmpty || bound ≤ n then none else some (n, cs.drop run.length)

/-- The zone after a percent sign, if there is one. -/
def zone? : Reader Nat
  | '%' :: cs => boundedNumber? UInt32.size cs
  | cs => some (0, cs)

/-- The port at the end of an address. -/
def port? : List Char → Option UInt16
  | ':' :: cs => do
    let (n, rest) ← boundedNumber? UInt16.size cs
    if rest.isEmpty then some (UInt16.ofNat n) else none
  | _ => none

namespace SocketAddress

/-- The address that a text gives. -/
def ofChars? : List Char → Option SocketAddress
  | '[' :: cs => do
    let (gs, cs) ← v6? cs
    let (zone, cs) ← zone? cs
    match cs with
    | ']' :: cs => some ⟨.v6 gs, zone, ← port? cs⟩
    | _ => none
  | cs => do
    let (os, cs) ← octets? 4 cs
    some ⟨.v4 os, 0, ← port? cs⟩

/-- The canonical text of an address. -/
def text (a : SocketAddress) : String :=
  let host := match a.ip with
    | .v4 _ => a.ip.text
    | .v6 _ =>
      '[' :: (a.ip.text ++ (if a.zone = 0 then [] else '%' :: Decimal.digits a.zone)) ++ [']']
  String.ofList (host ++ ':' :: Decimal.digits a.port.toNat)

end SocketAddress

end ImageGateway.Net
