import ImageGateway.Http.Percent
import ImageGateway.Net.IpAddress
import ImageGateway.Text.Printable
import ImageGateway.Text.Utf8

/-!
# Web addresses

An address names a host, a port, a path and a query. `Url.parse?` reads an address as it is written,
`Url.join?` reads one that may leave out what it shares with another. Both write the path in one
normal form: without dot segments, and with everything encoded that may not stand in a request.
-/

namespace ImageGateway.Net

/-- A web address. Without a port, the usual one is meant. -/
structure Url where
  secure : Bool
  host : String
  port : Option Nat
  path : String
  query : Option String
  deriving DecidableEq, Repr

namespace Url

/-! ## Hosts -/

/-- The parts of a text between points. -/
def labels : List Char → List (List Char)
  | [] => [[]]
  | c :: cs =>
    if c = '.' then [] :: labels cs
    else match labels cs with
      | l :: rest => (c :: l) :: rest
      | [] => [[c]]

/-- The labels of a host, without the empty one after a point at its end. -/
def hostLabels (host : List Char) : List (List Char) :=
  let ls := labels host
  if 1 < ls.length ∧ ls.getLast? = some [] then ls.dropLast else ls

/-- The number with the digits of a base, if they are digits of it. -/
def natOfBase? (base : Nat) (ds : List Char) : Option Nat :=
  ds.foldlM (fun n d => do
    let v ← hexDigit? d
    if v < base then some (n * base + v) else none) 0

/-- The number that a label of an address of version 4 gives: decimal, octal after a zero, or
hexadecimal after `0x`. -/
def labelNumber? : List Char → Option Nat
  | [] => none
  | '0' :: 'x' :: ds => natOfBase? 16 ds
  | '0' :: 'X' :: ds => natOfBase? 16 ds
  | '0' :: ds => natOfBase? 8 ds
  | ds => natOfBase? 10 ds

/-- Whether the last label of a host is a number, so that the host must be an address. -/
def endsInNumber (host : List Char) : Bool :=
  match (hostLabels host).getLast? with
  | some l => (!l.isEmpty && l.all Char.isDigit) || (labelNumber? l).isSome
  | none => false

/-- The address of version 4 that numbers give. The last one fills up what the others leave. -/
def addressOfNumbers? (ns : List Nat) : Option IpAddress :=
  match ns.getLast? with
  | none => none
  | some last =>
    let heads := ns.dropLast
    if heads.any (255 < ·) || 3 < heads.length || Nat.pow 256 (4 - heads.length) ≤ last then none
    else
      let total := (heads ++ (List.range (4 - heads.length)).map fun i =>
        last / Nat.pow 256 (3 - heads.length - i) % 256)
      some (.v4 (total.map UInt8.ofNat))

/-- The characters that no host name may hold. -/
def isForbidden (c : Char) : Bool :=
  c.toNat ≤ 32 || c.toNat = 127 || "#%/:<>?@[\\]^|".toList.contains c

/-- The host that a text names: an address of version 6 in brackets, one of version 4, or a name. -/
def host? (written : List Char) : Option (List Char) :=
  match written with
  | '[' :: inner =>
    match v6? inner with
    | some (gs, [']']) => some ('[' :: (v6Text gs ++ [']']))
    | _ => none
  | _ =>
    let name := (Text.Utf8.lossy (Http.Percent.decode (Bytes.ofChars written))).toList.map
      Char.toLower
    if name.isEmpty || name.any isForbidden || name.any fun c => !Text.isPrintable c then none
    else if endsInNumber name then do
      let address ← addressOfNumbers? (← (hostLabels name).mapM labelNumber?)
      some address.text
    else some name

/-! ## Authorities -/

/-- Whether a character ends the part of an address that names the host. -/
def endsAuthority (c : Char) : Bool := c == '/' || c == '\\' || c == '?' || c == '#'

/-- The characters after the last at sign, before which a user is named. -/
def withoutUser (authority : List Char) : List Char :=
  (authority.reverse.takeWhile (· ≠ '@')).reverse

/-- The host at the front of an authority, and what follows it. A colon in brackets belongs to the
host. -/
def splitHost : (inBrackets : Bool) → List Char → List Char × List Char
  | _, [] => ([], [])
  | inBrackets, c :: cs =>
    if c = ':' && !inBrackets then ([], c :: cs)
    else
      let stillInside := if c = '[' then true else if c = ']' then false else inBrackets
      let (host, rest) := splitHost stillInside cs
      (c :: host, rest)

/-- The port that is left out because it is the usual one. -/
def usualPort (secure : Bool) : Nat := if secure then 443 else 80

/-- The port after a host. -/
def port? (secure : Bool) : List Char → Option (Option Nat)
  | [] => some none
  | _ :: ds =>
    if ds.isEmpty then some none
    else match natOfBase? 10 ds with
      | some n =>
        if 65535 < n then none else some (if n = usualPort secure then none else some n)
      | none => none

/-! ## Paths and queries -/

/-- Whether a byte stands for itself in a path. -/
def isPlainInPath (b : UInt8) : Bool :=
  32 < b && b < 127 && !([34, 35, 60, 62, 63, 96, 123, 125] : List UInt8).contains b

/-- Whether a byte stands for itself in a query. -/
def isPlainInQuery (b : UInt8) : Bool :=
  32 < b && b < 127 && !([34, 35, 39, 60, 62] : List UInt8).contains b

/-- The characters with those encoded that are not plain. -/
def encoded (isPlain : UInt8 → Bool) (cs : List Char) : List Char :=
  (Http.Percent.encode isPlain (Bytes.ofChars cs)).map fun b => Char.ofNat b.toNat

/-- The parts of a path between slashes of either kind. -/
def segments : List Char → List (List Char)
  | [] => [[]]
  | c :: cs =>
    if c = '/' || c = '\\' then [] :: segments cs
    else match segments cs with
      | s :: rest => (c :: s) :: rest
      | [] => [[c]]

/-- The segment with its encoded points decoded, to compare it. -/
def withPlainDots : List Char → List Char
  | '%' :: '2' :: 'e' :: cs => '.' :: withPlainDots cs
  | '%' :: '2' :: 'E' :: cs => '.' :: withPlainDots cs
  | c :: cs => c :: withPlainDots cs
  | [] => []

/-- Puts the segments of a path behind those before it. One point stays where it is, two points
climb; at the end of a path both leave an empty segment. -/
def place (done : List (List Char)) : List (List Char) → List (List Char)
  | [] => done
  | s :: rest =>
    let dots := withPlainDots s
    if dots = ['.'] then place (if rest.isEmpty then done ++ [[]] else done) rest
    else if dots = ['.', '.'] then
      place (if rest.isEmpty then done.dropLast ++ [[]] else done.dropLast) rest
    else place (done ++ [encoded isPlainInPath s]) rest

/-- A path of segments, with a slash before each. -/
def pathText (segments : List (List Char)) : String :=
  String.ofList (segments.flatMap fun s => '/' :: s)

/-- The query that follows a path, if there is one. -/
def query? (cs : List Char) : Option String :=
  match (cs.takeWhile (· ≠ '#')) with
  | '?' :: query => some (String.ofList (encoded isPlainInQuery query))
  | _ => none

/-- Whether a character ends a path. -/
def endsPath (c : Char) : Bool := c == '?' || c == '#'

/-- What the characters after an authority or a shared path give: the path, behind the segments
`before`, and the query. -/
def withPath (u : Url) (before : List (List Char)) (cs : List Char) : Url :=
  let path := cs.takeWhile fun c => !endsPath c
  { u with
    path := pathText (place before (segments path))
    query := query? (cs.drop path.length) }

/-- The address whose authority and path follow the slashes at its beginning. -/
def afterSlashes? (secure : Bool) (cs : List Char) : Option Url := do
  let authority := cs.takeWhile fun c => !endsAuthority c
  let (hostText, portText) := splitHost false (withoutUser authority)
  let host ← host? hostText
  let port ← port? secure portText
  let rest := cs.drop authority.length
  let u : Url := ⟨secure, String.ofList host, port, "", none⟩
  match rest with
  | '/' :: rest => some (u.withPath [] rest)
  | '\\' :: rest => some (u.withPath [] rest)
  | rest => some (u.withPath [] rest)

/-! ## Whole addresses -/

/-- The characters without the controls and spaces around them and the line breaks and tabs among
them. -/
def cleaned (cs : List Char) : List Char :=
  let isBlank := fun (c : Char) => c.toNat ≤ 32
  let inner := ((cs.dropWhile isBlank).reverse.dropWhile isBlank).reverse
  inner.filter fun c => c ≠ '\t' ∧ c ≠ '\n' ∧ c ≠ '\r'

/-- The scheme at the front in lower case, and what follows its colon. -/
def scheme? (cs : List Char) : Option (List Char × List Char) :=
  let isPart := fun (c : Char) => c.isAlphanum || c == '+' || c == '-' || c == '.'
  let name := cs.takeWhile isPart
  match name, cs.drop name.length with
  | first :: _, ':' :: rest =>
    if first.isAlpha then some (name.map Char.toLower, rest) else none
  | _, _ => none

/-- Whether a scheme is that of secure connections; nothing if it is not for the web. -/
def isSecure? (scheme : List Char) : Option Bool :=
  if scheme = "http".toList then some false
  else if scheme = "https".toList then some true
  else none

/-- The characters after slashes of either kind. -/
def skipSlashes (cs : List Char) : List Char := cs.dropWhile fun c => c == '/' || c == '\\'

/-- The address that a text gives. -/
def parse? (text : String) : Option Url := do
  let (scheme, rest) ← scheme? (cleaned text.toList)
  afterSlashes? (← isSecure? scheme) (skipSlashes rest)

/-- The segments of the path of an address. -/
def pathSegments (u : Url) : List (List Char) := (segments u.path.toList).drop 1

/-- The address that a text without a scheme gives, seen from another one. -/
def relative? (u : Url) (cs : List Char) : Option Url :=
  match cs with
  | [] => some u
  | c :: rest =>
    if c = '#' then some u
    else if c = '?' then some { u with query := query? cs }
    else if c = '/' || c = '\\' then
      match rest with
      | d :: more =>
        if d = '/' || d = '\\' then afterSlashes? u.secure (skipSlashes more)
        else some (u.withPath [] rest)
      | [] => some (u.withPath [] rest)
    else some (u.withPath u.pathSegments.dropLast cs)

/-- Whether two slashes are at the front. -/
def startsAuthority : List Char → Bool
  | c :: d :: _ => (c == '/' || c == '\\') && (d == '/' || d == '\\')
  | _ => false

/-- The address that a text gives, seen from another one. -/
def join? (u : Url) (text : String) : Option Url :=
  let cs := cleaned text.toList
  match scheme? cs with
  | none => u.relative? cs
  | some (scheme, rest) => do
    let secure ← isSecure? scheme
    if secure = u.secure ∧ !startsAuthority rest then u.relative? rest
    else afterSlashes? secure (skipSlashes rest)

/-- Whether a request can be sent to the address: some characters that a host may have cannot be
written there. -/
def isSendable (u : Url) : Bool := u.host.toList.all fun c => !"\"`\x7b\x7d".toList.contains c

/-- What a request for the address asks its host for. -/
def target (u : Url) : String :=
  u.path ++ match u.query with
    | some q => "?" ++ q
    | none => ""

end Url

end ImageGateway.Net
