import ImageGateway.Proofs.Gateway.Histories
import ImageGateway.Proofs.Gateway.Redirects

/-!
# What becomes of an answer of the backend

An answer that fails is passed on as it is, after one call and with nothing else done, unless it
redirects: then the client goes on to the address it gives, and what it comes back with counts
(`failed_answer_relayed`). Of the client no more is taken for granted than what is documented of it
(`Client.IsOn`). The limit of bodies bounds the bodies of requests only. It does not matter to what
becomes of an answer, however long that is (`limit_bounds_requests`).
-/

set_option autoImplicit false

namespace ImageGateway

open Storage Storage.FileTree
open Http (Request Response Headers)
open Backend (Call Answer Failure Client Network Delivery)

/-! ## Relays -/

namespace Relay

variable {relay : Relay} {limit limit' : UInt64} {r : Request} {inbound : Inbound} {call : Call}
  {elapsed : UInt64} {answer : Answer} {failure : Failure}

/-- A relay reads a request and sends a call for it. -/
structure Sends (relay : Relay) (limit : UInt64) (r : Request) (inbound : Inbound) (call : Call) :
    Prop where
  read : Relay.inbound limit r = .ok inbound
  sent : relay.call r inbound = .ok call

theorem Sends.forward (h : relay.Sends limit r inbound call) (client : Client) (elapsed : UInt64) :
    relay.forward limit client elapsed r = ⟨(client.exchange call).calls,
      match (client.exchange call).result with
      | .error failure => throw (relay.errorOf failure)
      | .ok answer => relay.complete inbound elapsed answer⟩ := by
  rw [Relay.forward, h.read]
  dsimp only
  split
  · rename_i failed
    cases failed.symm.trans h.sent
  · rename_i made
    obtain rfl := Except.ok.inj (made.symm.trans h.sent)
    rfl

/-- What has been read of a request that is sent does not depend on the converters. -/
theorem Sends.withAnswers (h : relay.Sends limit r inbound call) (convert : AnswerConverter) :
    { relay with convertAnswer := convert }.Sends limit r inbound call :=
  ⟨h.read, h.sent⟩

/-- A call has the method of its request. -/
theorem Sends.method (h : relay.Sends limit r inbound call) : call.method = r.method := by
  have sent := h.sent
  rw [Relay.call] at sent
  split at sent
  · exact absurd sent (by simp)
  · obtain rfl := Except.ok.inj sent
    rfl

theorem complete_of_failed (h : isSuccess answer.status = false) (inbound : Inbound)
    (elapsed : UInt64) : relay.complete inbound elapsed answer
      = pure (response answer.status answer.contentType answer.body) := by
  rw [complete, h]
  rfl

/-! ### Limits -/

/-- A body beyond the limit ends the reading of a request, whatever its project is. -/
theorem forward_of_long (h : limit.toNat < r.body.length) (relay : Relay) (client : Client)
    (elapsed : UInt64) : relay.forward limit client elapsed r = ⟨[], throw .bodyTooLong⟩ := by
  have refused : Relay.inbound limit r = .error .bodyTooLong := by
    rw [Relay.inbound, bodyWithin, if_pos h]
    rfl
  rw [Relay.forward, refused]

/-- The limit matters to nothing but whether the body of the request fits. -/
theorem forward_of_fits (h : r.body.length ≤ limit.toNat) (h' : r.body.length ≤ limit'.toNat)
    (relay : Relay) (client : Client) (elapsed : UInt64) :
    relay.forward limit client elapsed r = relay.forward limit' client elapsed r := by
  have same : Relay.inbound limit r = Relay.inbound limit' r := by
    rw [Relay.inbound, Relay.inbound, bodyWithin, bodyWithin, if_neg (Nat.not_lt_of_le h),
      if_neg (Nat.not_lt_of_le h')]
  rw [Relay.forward, Relay.forward, same]

end Relay

/-! ## Requests for the backend -/

namespace Config

variable {c : Config} {x : Circumstances} {r : Request} {relay : Relay} {inbound : Relay.Inbound}
  {call : Call} {t : FileTree} {answer : Answer} {failure : Failure}

/-- The relay that answers the requests for a destination, if the backend is asked for it. -/
def relayOf? (c : Config) (tokens : Nat → Record.CacheToken) : Destination → Option Relay
  | .parameters => some c.parametersRelay
  | .generate => some (c.generateRelay tokens)
  | _ => none

/-- An outcome with the permission for pages of other origins. -/
def letIn (c : Config) (outcome : Outcome) : Outcome :=
  { outcome with response := c.withOrigins outcome.response }

/-- A request for the backend is relayed, unless it only asks what may be requested. -/
theorem handle_of_relayOf? (hmethod : r.method ≠ "OPTIONS")
    (hrelay : c.relayOf? x.tokens (Destination.ofPath r.path) = some relay) (t : FileTree) :
    c.handle x r t = c.letIn (c.relayed x relay r t) := by
  rw [handle, if_neg hmethod, route]
  generalize Destination.ofPath r.path = destination at hrelay
  unfold relayOf? at hrelay
  split at hrelay
  · obtain rfl := Option.some.inj hrelay
    rfl
  · obtain rfl := Option.some.inj hrelay
    rfl
  · exact absurd hrelay (by simp)

/-- A question what may be requested is answered before anything of the request is read. -/
theorem handle_of_options (hmethod : r.method = "OPTIONS") (c : Config) (x : Circumstances)
    (t : FileTree) : c.handle x r t = ⟨c.preflight (Destination.ofPath r.path), [], t⟩ :=
  if_pos hmethod

/-- Parameters are passed on as they come, whether the backend succeeds or fails. -/
theorem complete_parametersRelay (c : Config) (inbound : Relay.Inbound) (elapsed : UInt64)
    (answer : Answer) :
    c.parametersRelay.complete inbound elapsed answer
      = pure (Relay.response answer.status answer.contentType answer.body) := by
  rw [Relay.complete]
  split <;> rfl

/-- A request is forwarded to the backend by a call. -/
structure Forwards (c : Config) (x : Circumstances) (r : Request) (relay : Relay)
    (inbound : Relay.Inbound) (call : Call) : Prop where
  method : r.method ≠ "OPTIONS"
  relayed : c.relayOf? x.tokens (Destination.ofPath r.path) = some relay
  sends : relay.Sends c.server.maxBodyBytes r inbound call

theorem relayed_of_answer (h : relay.Sends c.server.maxBodyBytes r inbound call)
    (hresult : (x.client.exchange call).result = .ok answer) (t : FileTree) :
    c.relayed x relay r t = ⟨((relay.complete inbound x.elapsed answer).respond t).1,
      (x.client.exchange call).calls,
      ((relay.complete inbound x.elapsed answer).respond t).2⟩ := by
  rw [relayed, h.forward, hresult]

theorem relayed_of_failure (h : relay.Sends c.server.maxBodyBytes r inbound call)
    (hresult : (x.client.exchange call).result = .error failure) (t : FileTree) :
    c.relayed x relay r t
      = ⟨(relay.errorOf failure).response, (x.client.exchange call).calls, t⟩ := by
  rw [relayed, h.forward, hresult]
  rfl

theorem relayed_of_failed (h : relay.Sends c.server.maxBodyBytes r inbound call)
    (hresult : (x.client.exchange call).result = .ok answer)
    (hfailed : Relay.isSuccess answer.status = false) (t : FileTree) :
    c.relayed x relay r t = ⟨Relay.response answer.status answer.contentType answer.body,
      (x.client.exchange call).calls, t⟩ := by
  rw [relayed_of_answer h hresult, Relay.complete_of_failed hfailed]
  rfl

/-- An answer that fails is passed on after the only call, or it is said why it did not arrive. -/
theorem relayed_of_received {status : Nat} {headers : Headers} {delivery : Delivery}
    (h : relay.Sends c.server.maxBodyBytes r inbound call)
    (hexchange : x.client.exchange call = ⟨[call], Backend.received call status headers delivery⟩)
    (hfailed : Relay.isSuccess status = false) (t : FileTree) :
    c.relayed x relay r t =
      ⟨match Backend.received call status headers delivery with
        | .ok answer => Relay.response answer.status answer.contentType answer.body
        | .error failure => (relay.errorOf failure).response, [call], t⟩ := by
  cases hreceived : Backend.received call status headers delivery with
  | error failure =>
    rw [hreceived] at hexchange
    rw [relayed_of_failure h (by rw [hexchange]), hexchange]
  | ok answer =>
    rw [hreceived] at hexchange
    have failed : Relay.isSuccess answer.status = false := by
      rw [Backend.status_of_received hreceived]
      exact hfailed
    rw [relayed_of_failed h (by rw [hexchange]) failed, hexchange]

/-- The calls of a forwarded request are those of its exchange. -/
theorem calls_relayed (h : relay.Sends c.server.maxBodyBytes r inbound call) (t : FileTree) :
    (c.relayed x relay r t).calls = (x.client.exchange call).calls := by
  rw [relayed, h.forward]

/-- The configuration with another limit of bodies. -/
def withBodyLimit (c : Config) (limit : UInt64) : Config :=
  { c with server := { c.server with maxBodyBytes := limit } }

theorem relayed_withBodyLimit {limit : UInt64} (h : r.body.length ≤ c.server.maxBodyBytes.toNat)
    (h' : r.body.length ≤ limit.toNat) (relay : Relay) (t : FileTree) :
    (c.withBodyLimit limit).relayed x relay r t = c.relayed x relay r t := by
  rw [relayed, relayed, Relay.forward_of_fits h h']
  rfl

end Config

/-! ## Answers that fail -/

section

variable {c : Config} {x : Circumstances} {r : Request} {relay : Relay} {inbound : Relay.Inbound}
  {call : Call} {n : Network} {status : Nat} {headers : Headers} {delivery : Delivery}

/-- An answer that fails is passed on with its status and its body, if it has arrived as a whole and
may have one. There has been no other call, no file has been touched, and it does not matter what
would have converted the answer. An answer that redirects is not passed on: a call to the address it
gives has been made. Then, as always, it is the answer that the client comes back with that is passed
on if it fails, and converted if it does not. -/
theorem failed_answer_relayed (h : c.Forwards x r relay inbound call) (hclient : x.client.IsOn n)
    (hreaction : n.reaction [] call = .answered status headers delivery)
    (hfailed : Relay.isSuccess status = false) (t : FileTree) :
    (¬ Backend.MayRedirect status headers →
      (c.handle x r t).calls = [call] ∧ (c.handle x r t).tree = t ∧
      (∀ content, delivery = .complete content →
        (c.handle x r t).response.status = status ∧
        (c.handle x r t).response.body
          = if Backend.carriesBody r.method status then content else []) ∧
      (∀ failure, Backend.received call status headers delivery = .error failure →
        (c.handle x r t).response = c.withOrigins (relay.errorOf failure).response) ∧
      ∀ convert, c.handle x r t
        = c.letIn (c.relayed x { relay with convertAnswer := convert } r t)) ∧
    (∀ url, status ∈ Backend.redirectStatuses → Backend.location? call headers = some url →
      ∃ next, next.url = url ∧ [call, next] <+: (c.handle x r t).calls) ∧
    ∀ answer, (x.client.exchange call).result = .ok answer →
      (Relay.isSuccess answer.status = false →
        (c.handle x r t).response.status = answer.status ∧
        (c.handle x r t).response.body = answer.body ∧ (c.handle x r t).tree = t) ∧
      (Relay.isSuccess answer.status = true → ∀ converted s,
        relay.convertAnswer inbound.project inbound.body answer.body x.elapsed t = .ok converted s →
        (c.handle x r t).response.status = answer.status ∧
        (c.handle x r t).response.body = converted.body ∧ (c.handle x r t).tree = s) := by
  rw [Config.handle_of_relayOf? h.method h.relayed t]
  refine ⟨fun hlast => ?_, fun url redirects location => ?_, fun answer result => ⟨?_, ?_⟩⟩
  · -- The outcome does not mention the converter, which is why it may be any other one.
    have kept := hclient.kept call status headers delivery hreaction hlast
    have outcome := fun convert =>
      Config.relayed_of_received (h.sends.withAnswers convert) kept hfailed t
    rw [Config.relayed_of_received h.sends kept hfailed]
    refine ⟨rfl, rfl, ?_, ?_, ?_⟩
    · rintro content rfl
      rw [Backend.received_complete, ← h.sends.method]
      exact ⟨Config.status_withOrigins c _, Config.body_withOrigins c _⟩
    · intro failure notReceived
      rw [notReceived]
      rfl
    · intro convert
      rw [outcome convert]
      rfl
  · show ∃ next, _ ∧ _ <+: (c.relayed x relay r t).calls
    rw [Config.calls_relayed h.sends]
    exact hclient.followed call status headers delivery url hreaction redirects location
  · intro failed
    rw [Config.relayed_of_failed h.sends result failed]
    exact ⟨Config.status_withOrigins c _, Config.body_withOrigins c _, rfl⟩
  · intro success converted s run
    rw [Config.relayed_of_answer h.sends result, Relay.respond_complete_ok success run]
    exact ⟨Config.status_withOrigins c _, Config.body_withOrigins c _, rfl⟩

end

/-- The address that the local gateway sends its calls to. -/
def localUrl : Net.Url := ⟨false, "[::1]", some 1, "/", none⟩

/-- The call for a generation request without parameters. -/
def generateCall : Call := ⟨"POST", localUrl, none, []⟩

/-- Every call is answered with a redirect that gives no location. -/
def nowhere : Network := ⟨fun _ _ => .answered 302 [] (.complete [110, 111])⟩

/-- The backend is asked on a network. -/
def asking (n : Network) : Circumstances := { answering with client := n.client }

theorem forwards_generateGlobal {x : Circumstances} :
    localGateway.Forwards x generateGlobal (localGateway.generateRelay x.tokens) ⟨.global, []⟩
      generateCall := by
  have parsed : (Net.Url.parse? localGateway.backend.generateUrl).filter Net.Url.isSendable
      = some localUrl := by
    decide +kernel
  refine ⟨by decide, rfl, rfl, ?_⟩
  rw [Relay.call]
  simp only [Config.generateRelay, parsed]
  rfl

theorem failed_answer_relayed_nowhere :
    localGateway.Forwards (asking nowhere) generateGlobal
        (localGateway.generateRelay (asking nowhere).tokens) ⟨.global, []⟩ generateCall ∧
      (asking nowhere).client.IsOn nowhere ∧
      nowhere.reaction [] generateCall = .answered 302 [] (.complete [110, 111]) ∧
      Relay.isSuccess 302 = false ∧ ¬ Backend.MayRedirect 302 [] ∧
      (localGateway.handle (asking nowhere) generateGlobal Archive.emptyResults).calls
        = [generateCall] ∧
      (localGateway.handle (asking nowhere) generateGlobal Archive.emptyResults).response.status
        = 302 ∧
      (localGateway.handle (asking nowhere) generateGlobal Archive.emptyResults).response.body
        = [110, 111] := by
  have final : ¬ Backend.MayRedirect 302 [] := fun h => absurd h.2 (by decide)
  have isOn : (asking nowhere).client.IsOn nowhere := Backend.isOn_client nowhere
  obtain ⟨calls, -, passed, -, -⟩ := (failed_answer_relayed (x := asking nowhere)
    forwards_generateGlobal isOn rfl rfl Archive.emptyResults).1 final
  obtain ⟨status, body⟩ := passed _ rfl
  exact ⟨forwards_generateGlobal, isOn, rfl, rfl, final, calls, status, body⟩

/-! ### A redirect to images -/

/-- The first call is redirected, the next one is answered with one image. -/
def elsewhere : Network :=
  ⟨fun earlier _ => match earlier with
    | [] => .answered 302 [("location", Bytes.ofString "/b")] (.complete [110, 111])
    | _ => .answered 200 [] (.complete (Archive.answerOf [""]).compact)⟩

theorem exchange_elsewhere :
    (asking elsewhere).client.exchange generateCall
      = ⟨[generateCall, ⟨"GET", { localUrl with path := "/b" }, none, []⟩],
        .ok ⟨200, [], (Archive.answerOf [""]).compact⟩⟩ := by
  have next : Backend.next? generateCall 302 [("location", Bytes.ofString "/b")]
      = some ⟨"GET", { localUrl with path := "/b" }, none, []⟩ := by
    decide +kernel
  have reaction : elsewhere.reaction [] generateCall
      = .answered 302 [("location", Bytes.ofString "/b")] (.complete [110, 111]) := rfl
  show elsewhere.client.exchange generateCall = _
  rw [Backend.exchange_client reaction, next]
  rfl

/-- The answer that fails is not passed on: two calls have been made, and an image of the second
answer has been recorded. -/
theorem redirected_answer_recorded :
    localGateway.Forwards (asking elsewhere) generateGlobal
        (localGateway.generateRelay (asking elsewhere).tokens) ⟨.global, []⟩ generateCall ∧
      (asking elsewhere).client.IsOn elsewhere ∧
      elsewhere.reaction [] generateCall
        = .answered 302 [("location", Bytes.ofString "/b")] (.complete [110, 111]) ∧
      Relay.isSuccess 302 = false ∧
      (localGateway.handle (asking elsewhere) generateGlobal Archive.emptyResults).response.status
        = 200 ∧
      (localGateway.handle (asking elsewhere) generateGlobal Archive.emptyResults).calls.length
        = 2 ∧
      Archive.emptyResults.find? ["results", "00001.png"] = none ∧
      (localGateway.handle (asking elsewhere) generateGlobal Archive.emptyResults).tree.find?
        ["results", "00001.png"] = some (.file (Archive.decodeImage "")) := by
  have forwards := forwards_generateGlobal (x := asking elsewhere)
  have recorded := Archive.recordBatch_emptyResults [] ""
  have answered : ((localGateway.generateRelay (asking elsewhere).tokens).complete ⟨.global, []⟩
      (asking elsewhere).elapsed ⟨200, [], (Archive.answerOf [""]).compact⟩).respond
        Archive.emptyResults = _ :=
    respond_complete_of_ok rfl recorded
  have outcome := Config.relayed_of_answer forwards.sends
    (congrArg Backend.Exchange.result exchange_elsewhere) Archive.emptyResults
  rw [exchange_elsewhere, answered] at outcome
  rw [Config.handle_of_relayOf? forwards.method forwards.relayed, outcome]
  exact ⟨forwards, Backend.isOn_client elsewhere, rfl, rfl, Config.status_withOrigins _ _, rfl, rfl,
    rfl⟩

/-! ## Limits -/

section

variable {c : Config} {x : Circumstances} {r : Request} {relay : Relay}

/-- A request with a body beyond the limit is not relayed and leaves the files as they are; it is
answered with an error, unless it only asks what may be requested. The limit does nothing else: a
request that fits has the same outcome with any other limit that it fits. So an answer of any length
is passed on whole, and the images in it are recorded. -/
theorem limit_bounds_requests
    (hrelay : c.relayOf? x.tokens (Destination.ofPath r.path) = some relay) (t : FileTree) :
    (c.server.maxBodyBytes.toNat < r.body.length →
      (c.handle x r t).calls = [] ∧ (c.handle x r t).tree = t ∧
      (r.method ≠ "OPTIONS" →
        (c.handle x r t).response = c.withOrigins GatewayError.bodyTooLong.response)) ∧
    (r.body.length ≤ c.server.maxBodyBytes.toNat → ∀ limit : UInt64,
      r.body.length ≤ limit.toNat → (c.withBodyLimit limit).handle x r t = c.handle x r t) ∧
    ∀ inbound call answer, c.Forwards x r relay inbound call →
      (x.client.exchange call).result = .ok answer →
      (Destination.ofPath r.path = .parameters →
        (c.handle x r t).response.status = answer.status ∧
        (c.handle x r t).response.body = answer.body) ∧
      (Destination.ofPath r.path = .generate → Relay.isSuccess answer.status = true →
        ∀ created s, c.archive.recordBatch inbound.project x.tokens inbound.body answer.body
            x.elapsed t = .ok created s →
          (c.handle x r t).response.body = Record.compactList created ∧
          (c.handle x r t).tree = s) := by
  by_cases hmethod : r.method = "OPTIONS"
  · refine ⟨fun _ => ?_, fun _ limit _ => ?_, fun _ _ _ h => absurd hmethod h.method⟩
    · rw [Config.handle_of_options hmethod]
      exact ⟨rfl, rfl, fun other => absurd hmethod other⟩
    · rw [Config.handle_of_options hmethod, Config.handle_of_options hmethod]
      rfl
  have handled := Config.handle_of_relayOf? hmethod hrelay t
  refine ⟨fun long => ?_, fun fits limit fits' => ?_, fun inbound call answer h result => ?_⟩
  · -- The body is refused before anything else is looked at.
    rw [handled, Config.relayed, Relay.forward_of_long long]
    exact ⟨rfl, rfl, fun _ => rfl⟩
  · have handled' : (c.withBodyLimit limit).handle x r t
        = (c.withBodyLimit limit).letIn ((c.withBodyLimit limit).relayed x relay r t) :=
      Config.handle_of_relayOf? (c := c.withBodyLimit limit) hmethod hrelay t
    rw [handled', handled, Config.relayed_withBodyLimit fits fits']
    rfl
  · rw [handled, Config.relayed_of_answer h.sends result]
    constructor
    · intro parameters
      rw [parameters] at hrelay
      obtain rfl := Option.some.inj hrelay
      rw [Config.complete_parametersRelay]
      exact ⟨Config.status_withOrigins c _, Config.body_withOrigins c _⟩
    · intro generate success created s run
      rw [generate] at hrelay
      obtain rfl := Option.some.inj hrelay
      rw [respond_complete_of_ok success run]
      exact ⟨Config.body_withOrigins c _, rfl⟩

end

/-- The local gateway with a limit of eight bytes. -/
def smallGateway : Config := localGateway.withBodyLimit 8

/-- A generation request of nine bytes. -/
def generateLong : Request := { generateGlobal with body := List.replicate 9 32 }

theorem limit_bounds_requests_nine :
    smallGateway.relayOf? answering.tokens (Destination.ofPath generateLong.path)
        = some (smallGateway.generateRelay answering.tokens) ∧
      smallGateway.server.maxBodyBytes.toNat < generateLong.body.length ∧
      (smallGateway.handle answering generateLong Archive.emptyResults).calls = [] ∧
      (smallGateway.handle answering generateLong Archive.emptyResults).response.status = 500 := by
  have relay : smallGateway.relayOf? answering.tokens (Destination.ofPath generateLong.path)
      = some (smallGateway.generateRelay answering.tokens) := rfl
  have long : smallGateway.server.maxBodyBytes.toNat < generateLong.body.length := by decide
  obtain ⟨calls, -, refused⟩ :=
    (limit_bounds_requests (x := answering) relay Archive.emptyResults).1 long
  exact ⟨relay, long, calls, congrArg Response.status (refused (by decide))⟩

/-- An answer of more bytes than the limit is not refused, and an image in it is recorded. -/
theorem long_answer_recorded :
    (answering.client.exchange generateCall).result
        = .ok ⟨200, [], (Archive.answerOf [""]).compact⟩ ∧
      smallGateway.server.maxBodyBytes.toNat < (Archive.answerOf [""]).compact.length ∧
      (smallGateway.handle answering generateGlobal Archive.emptyResults).response.status = 200 ∧
      Archive.emptyResults.find? ["results", "00001.png"] = none ∧
      (smallGateway.handle answering generateGlobal Archive.emptyResults).tree.find?
        ["results", "00001.png"] = some (.file (Archive.decodeImage "")) := by
  have forwards := forwards_generateGlobal (x := answering)
  have exchange : answering.client.exchange generateCall
      = ⟨[generateCall], .ok ⟨200, [], (Archive.answerOf [""]).compact⟩⟩ := rfl
  have answered : ((localGateway.generateRelay answering.tokens).complete ⟨.global, []⟩
      answering.elapsed ⟨200, [], (Archive.answerOf [""]).compact⟩).respond
        Archive.emptyResults = _ :=
    respond_complete_of_ok rfl (Archive.recordBatch_emptyResults [] "")
  have outcome := Config.relayed_of_answer forwards.sends
    (congrArg Backend.Exchange.result exchange) Archive.emptyResults
  rw [exchange, answered] at outcome
  have unlimited : smallGateway.relayed answering (localGateway.generateRelay answering.tokens)
      generateGlobal Archive.emptyResults = _ :=
    Config.relayed_withBodyLimit (by decide) (by decide) _ _
  have handled : smallGateway.handle answering generateGlobal Archive.emptyResults
      = smallGateway.letIn (smallGateway.relayed answering
        (localGateway.generateRelay answering.tokens) generateGlobal Archive.emptyResults) :=
    Config.handle_of_relayOf? (by decide) rfl _
  rw [handled, unlimited, outcome]
  exact ⟨rfl, by decide +kernel, Config.status_withOrigins _ _, rfl, rfl⟩

end ImageGateway
