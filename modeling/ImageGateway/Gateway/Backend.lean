import ImageGateway.Http.Message
import ImageGateway.Net.Url

/-!
# Asking the backend

A request is handed to a `Client`, which makes the calls and comes back with a complete answer or
with the reason why there is none. Whatever it does in between, following redirects for one, is its
own affair.
-/

namespace ImageGateway.Backend

open Http (Headers)
open Net (Url)

/-- A request sent to a backend. -/
structure Call where
  method : String
  url : Url
  contentType : Option String
  body : Bytes
  deriving DecidableEq, Repr

/-- A complete answer. -/
structure Answer where
  status : Nat
  headers : Headers
  body : Bytes
  deriving DecidableEq, Repr

/-- The type of the body, if it is given as visible ASCII text. -/
def Answer.contentType (answer : Answer) : Option String := answer.headers.visibleType?

/-- Why there is no complete answer. -/
inductive Failure where
  /-- The time is over before an answer begins. -/
  | timedOut
  /-- A call cannot be built: no request can be sent to an address that an answer led to. -/
  | notBuilt
  /-- No answer begins for any other reason. -/
  | unreachable
  /-- The time is over before the body of an answer ends. -/
  | stalled
  /-- The body of an answer cannot be read for any other reason. -/
  | brokenOff
  deriving DecidableEq, Repr

/-- The calls made for a request, and what came of them. -/
structure Exchange where
  calls : List Call
  result : Except Failure Answer

/-- What makes the calls for a request, given the first of them. -/
structure Client where
  exchange : Call → Exchange

end ImageGateway.Backend
