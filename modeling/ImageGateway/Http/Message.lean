import ImageGateway.Json.Printer

/-!
# Requests and responses
-/

namespace ImageGateway.Http

/-- The headers of a request, whose values may be any bytes. -/
abbrev Headers := List (String × Bytes)

/-- A request. -/
structure Request where
  method : String
  path : String
  query : Option String
  headers : Headers
  body : Bytes
  deriving DecidableEq, Repr

/-- A response. -/
structure Response where
  status : Nat
  headers : List (String × String)
  body : Bytes
  deriving DecidableEq, Repr

/-- Whether two header names are the same, which does not depend on the case of their letters. -/
def isSameName (a b : String) : Bool := a.toLower == b.toLower

/-- The first value of a header. -/
def Headers.first? (headers : Headers) (name : String) : Option Bytes :=
  (headers.find? fun h => isSameName h.1 name).map (·.2)

/-- Whether a byte may stand in the text of a header. -/
def isVisible (b : UInt8) : Bool := b == 9 || (32 ≤ b && b ≤ 126)

/-- The text of a header value, if it is one of visible ASCII characters. -/
def visibleText? (value : Bytes) : Option String :=
  if value.all isVisible then Bytes.toString? value else none

/-- The type of the body, if the headers give it as visible ASCII text. -/
def Headers.visibleType? (headers : Headers) : Option String :=
  (headers.first? "content-type").bind visibleText?

/-- Whether a header can carry the text as its value: control characters cannot stand there, except
for the tab. -/
def isHeaderText (text : String) : Bool :=
  (Bytes.ofString text).all fun b => b == 9 || (32 ≤ b && b != 127)

/-- The path and the query that the target of a request names. -/
def splitTarget (target : String) : String × Option String :=
  let cs := target.toList.takeWhile (· ≠ '#')
  let path := cs.takeWhile (· ≠ '?')
  (String.ofList path, match cs.drop path.length with
    | _ :: query => some (String.ofList query)
    | [] => none)

namespace Response

/-- A response without headers and body. -/
def empty (status : Nat) : Response := ⟨status, [], []⟩

/-- A response with a body of the given type. -/
def typed (status : Nat) (contentType : String) (body : Bytes) : Response :=
  ⟨status, [("content-type", contentType)], body⟩

/-- A response with a JSON document. -/
def json (status : Nat) (document : Bytes) : Response := typed status "application/json" document

/-- The response to a method that is not allowed. -/
def notAllowed (allowed : String) : Response := ⟨405, [("allow", allowed)], []⟩

/-- The response without its body. -/
def withoutBody (r : Response) : Response := { r with body := [] }

/-- The response with one more header. -/
def withHeader (r : Response) (name value : String) : Response :=
  { r with headers := r.headers ++ [(name, value)] }

end Response

end ImageGateway.Http
