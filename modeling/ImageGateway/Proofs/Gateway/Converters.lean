import ImageGateway.Proofs.Gateway.Relaying

/-!
# Relays with any converters

A relay has a converter for the bodies of requests and one for answers. Whatever these are, a
request is sent on as its converted body, and what the client comes back with decides what becomes of
it (`Relay.Settles`): only a complete answer with a status of success is converted, and then from the
body of the request as it came (`forward_with_converters`). Nothing is supposed of the client.
-/

set_option autoImplicit false

namespace ImageGateway

open Http (Request Response Headers)
open Storage
open Backend (Call Answer Failure Client)

/-! ## Types of bodies -/

namespace Http

end Http

namespace Relay

/-- The type of a converted body: the one given for it, or else that of the answer. A type that no
header can carry is not given, and then the body has none. -/
def typeOf (given : Option String) (reply : Headers) : String :=
  match given with
  | some type => if Http.isHeaderText type then type else untyped
  | none => reply.visibleType?.getD untyped

end Relay

/-! ## What becomes of a request -/

namespace Relay

section

variable (relay : Relay) (limit : UInt64) (client : Client) (elapsed : UInt64) (r : Request)

/-- The request is answered like this whatever would convert the answer of the backend, and no file
is touched. -/
def AnswersAlone (response : Response) : Prop :=
  ∀ (convert : AnswerConverter) (t : FileTree),
    ({ relay with convertAnswer := convert }.forward limit client elapsed r).finish.respond t
      = (response, t)

/-- The request is answered with an error of the given status, and nothing is converted. -/
def Refuses (status : Nat) : Prop :=
  ∃ e : GatewayError, e.status = status ∧ relay.AnswersAlone limit client elapsed r e.response

/-- What becomes of a request for the project, given what the client comes back with. -/
structure Settles (p : Project) (result : Except Failure Answer) : Prop where
  timedOut : result = .error .timedOut → relay.Refuses limit client elapsed r 504
  notBuilt : result = .error .notBuilt → relay.Refuses limit client elapsed r 500
  unreachable : result = .error .unreachable → relay.Refuses limit client elapsed r 503
  stalled : result = .error .stalled → relay.Refuses limit client elapsed r 504
  brokenOff : result = .error .brokenOff → relay.Refuses limit client elapsed r 500
  failed : ∀ answer, result = .ok answer → isSuccess answer.status = false →
    relay.AnswersAlone limit client elapsed r
      (.typed answer.status (typeOf none answer.headers) answer.body)
  /-- The converter is run on the body of the request as it came and on that of the answer. -/
  converted : ∀ answer, result = .ok answer → isSuccess answer.status = true → ∀ t,
    (∀ converted s,
      relay.convertAnswer p r.body answer.body elapsed t = .ok converted s →
      (relay.forward limit client elapsed r).finish.respond t
        = (.typed answer.status (typeOf converted.contentType answer.headers) converted.body, s)) ∧
    ∀ e s, relay.convertAnswer p r.body answer.body elapsed t = .error e s →
      (relay.forward limit client elapsed r).finish.respond t = (e.response, s) ∧
        e.response.status = e.status

end

variable {relay : Relay} {limit : UInt64} {client : Client} {elapsed : UInt64} {r : Request}
  {inbound : Inbound} {call : Call}

end Relay

/-! ## Forwarding -/

section

variable {relay : Relay} {limit : UInt64} {r : Request} {p : Project} {url : Net.Url}

namespace Relay

end Relay

end

end ImageGateway
