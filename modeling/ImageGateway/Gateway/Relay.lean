import ImageGateway.Archive.Batch
import ImageGateway.Gateway.Backend
import ImageGateway.Gateway.Handler

/-!
# Relaying requests to the backend

A relay sends the body of a request, converted, to the backend and converts the answer. Only the
answer to a request that succeeded is converted; any other is passed on as it is.
-/

namespace ImageGateway

open Http (Request Response)
open Backend (Call Answer Failure Client)

/-- The body of an answer after its conversion, with a type in place of that of the backend if one
is given. -/
structure Converted where
  body : Bytes
  contentType : Option String
  deriving DecidableEq, Repr

/-- Converts an answer, given the project, the body of the request before its own conversion, that
of the answer, and the milliseconds that have passed. -/
abbrev AnswerConverter :=
  Project → (request answer : Bytes) → (elapsed : UInt64) → Handler Converted

/-- Leaves an answer as it is. -/
def passThrough : AnswerConverter := fun _ _ answer _ => pure ⟨answer, none⟩

/-- Records the images in an answer, which becomes the list of the records made. -/
def recordGeneration (a : Archive) (tokens : Nat → Record.CacheToken) : AnswerConverter :=
  fun p request answer elapsed => do
    let records ← Handler.ofDisk (a.recordBatch p tokens request answer elapsed)
    pure ⟨Record.compactList records, some "application/json"⟩

/-- A way to the backend. -/
structure Relay where
  target : String
  convertRequest : Project → Bytes → Bytes
  convertAnswer : AnswerConverter

namespace Relay

/-- A relay that converts nothing. -/
def plain (target : String) : Relay := ⟨target, fun _ body => body, passThrough⟩

/-- What is read of a request before it is relayed. -/
structure Inbound where
  project : Project
  body : Bytes
  deriving DecidableEq, Repr

/-- Reads a request: first its body, then its project. -/
def inbound (limit : UInt64) (r : Request) : Except GatewayError Inbound := do
  let body ← bodyWithin limit r.body
  let project ← projectOf r.headers
  .ok ⟨project, body⟩

/-- The call that a request becomes. -/
def call (relay : Relay) (r : Request) (inbound : Inbound) : Except GatewayError Call :=
  match (Net.Url.parse? relay.target).filter Net.Url.isSendable with
  | none => .error .badTarget
  | some url =>
    .ok ⟨r.method, url, r.headers.visibleType?,
      relay.convertRequest inbound.project inbound.body⟩

/-- The error that the failure of an exchange is. -/
def errorOf (relay : Relay) : Failure → GatewayError
  | .timedOut => .timedOut relay.target
  | .notBuilt => .badTarget
  | .unreachable => .unreachable relay.target
  | .stalled => .stalled
  | .brokenOff => .brokenOff

/-- The type of an answer for which none is given that a header can carry. -/
def untyped : String := "application/octet-stream"

/-- A response with the status of an answer. -/
def response (status : Nat) (contentType : Option String) (body : Bytes) : Response :=
  .typed status ((contentType.filter Http.isHeaderText).getD untyped) body

/-- Whether a status is that of a request that succeeded. -/
def isSuccess (status : Nat) : Bool := 200 ≤ status && status ≤ 299

/-- The response that the answer of the backend becomes. -/
def complete (relay : Relay) (inbound : Inbound) (elapsed : UInt64) (answer : Answer) :
    Handler Response :=
  if isSuccess answer.status then do
    let converted ← relay.convertAnswer inbound.project inbound.body answer.body elapsed
    pure (response answer.status (converted.contentType <|> answer.contentType) converted.body)
  else pure (response answer.status answer.contentType answer.body)

/-- The calls that a request leads to, and what is done when they have been answered. -/
structure Forwarding where
  calls : List Call
  finish : Handler Response

/-- Relays a request. -/
def forward (relay : Relay) (limit : UInt64) (client : Client) (elapsed : UInt64) (r : Request) :
    Forwarding :=
  match inbound limit r with
  | .error e => ⟨[], throw e⟩
  | .ok inbound =>
    match relay.call r inbound with
    | .error e => ⟨[], throw e⟩
    | .ok call =>
      let exchange := client.exchange call
      ⟨exchange.calls, match exchange.result with
        | .error failure => throw (relay.errorOf failure)
        | .ok answer => relay.complete inbound elapsed answer⟩

end Relay

end ImageGateway
