import ImageGateway.Gateway.Endpoints
import ImageGateway.Gateway.Relay
import ImageGateway.Http.StaticFiles

/-!
# Routing requests

The path of a request decides what answers it, its method whether it may. Paths that nothing else
answers lead to files: those below `/results` to the results, all others to the web pages.
-/

namespace ImageGateway

open Http (Request Response)
open Backend (Call Client)
open Storage (FileTree)

/-- What answers a request. -/
inductive Destination where
  | parameters
  | generate
  | getHistory
  | clearHistory
  | moveForward
  | moveBack
  | remove
  | settings
  | health
  /-- A file of the results, by its path there. -/
  | result (path : String)
  /-- A file of the web pages. -/
  | page (path : String)
  deriving DecidableEq, Repr

namespace Destination

/-- Where the results are served. -/
def resultsPath : List Char := "/results".toList

/-- The path below the results, if a path leads there. -/
def belowResults? (path : String) : Option String :=
  let cs := path.toList
  if resultsPath.isPrefixOf cs then
    match cs.drop resultsPath.length with
    | [] => some "/"
    | '/' :: rest => some (String.ofList ('/' :: rest))
    | _ => none
  else none

/-- What answers requests for a path. -/
def ofPath (path : String) : Destination :=
  match path with
  | "/parameters" => .parameters
  | "/generate" => .generate
  | "/get-history" => .getHistory
  | "/clear-history" => .clearHistory
  | "/move-gen-prev" => .moveForward
  | "/move-gen-next" => .moveBack
  | "/remove-gen" => .remove
  | "/remove-generation" => .remove
  | "/settings" => .settings
  | "/health" => .health
  | _ =>
    match belowResults? path with
    | some path => .result path
    | none => .page path

/-- The methods that are answered, if not all are. Files see to that themselves. -/
def methods : Destination → Option (List String)
  | .getHistory => some ["GET", "HEAD", "POST"]
  | .clearHistory => some ["GET", "HEAD", "POST"]
  | .settings => some ["GET", "HEAD", "POST"]
  | .health => some ["GET", "HEAD"]
  | .moveForward => some ["POST"]
  | .moveBack => some ["POST"]
  | .remove => some ["POST"]
  | _ => none

end Destination

/-- What a request meets besides the file tree: the client that asks the backend, the milliseconds
that this takes, and the tokens that are drawn for new images. -/
structure Circumstances where
  client : Client
  elapsed : UInt64
  tokens : Nat → Record.CacheToken

/-- What came of a request. -/
structure Outcome where
  response : Response
  calls : List Call
  tree : FileTree

namespace Config

/-- The relay for generation requests. -/
def generateRelay (c : Config) (tokens : Nat → Record.CacheToken) : Relay where
  target := c.backend.generateUrl
  convertRequest := fun _ body => body
  convertAnswer := recordGeneration c.archive tokens

/-- The relay for requests for parameters. -/
def parametersRelay (c : Config) : Relay := .plain c.backend.baseUrl

/-- The outcome of a relayed request. -/
def relayed (c : Config) (x : Circumstances) (relay : Relay) (r : Request) (t : FileTree) :
    Outcome :=
  let forwarding := relay.forward c.server.maxBodyBytes x.client x.elapsed r
  let (response, t) := forwarding.finish.respond t
  ⟨response, forwarding.calls, t⟩

/-- The outcome of a request that is answered without the backend. A request for the head of a
response gets no body. -/
def answered (r : Request) (h : Handler Response) (t : FileTree) : Outcome :=
  let (response, t) := h.respond t
  ⟨if r.method = "HEAD" then response.withoutBody else response, [], t⟩

/-- The outcome of a request whose method is answered. -/
def dispatch (c : Config) (x : Circumstances) (r : Request) (t : FileTree) : Destination → Outcome
  | .parameters => c.relayed x c.parametersRelay r t
  | .generate => c.relayed x (c.generateRelay x.tokens) r t
  | .getHistory => answered r (Endpoint.getHistory c.archive r) t
  | .clearHistory => answered r (Endpoint.clearHistory c.archive r) t
  | .moveForward =>
    answered r (Endpoint.changeRecord c.archive.moveForward c.server.maxBodyBytes r) t
  | .moveBack => answered r (Endpoint.changeRecord c.archive.moveBack c.server.maxBodyBytes r) t
  | .remove => answered r (Endpoint.changeRecord c.archive.remove c.server.maxBodyBytes r) t
  | .settings => answered r (Endpoint.getSettings c.archive) t
  | .health => answered r (Endpoint.getHealth c) t
  | .result path => ⟨Http.StaticFiles.serve t c.storage.resultsDir r.method path r.query, [], t⟩
  | .page path => ⟨Http.StaticFiles.serve t c.storage.webDir r.method path r.query, [], t⟩

/-! ## Methods and other origins -/

/-- The outcome of a request, before pages of other origins are let in. -/
def route (c : Config) (x : Circumstances) (r : Request) (t : FileTree) : Outcome :=
  let destination := Destination.ofPath r.path
  match destination.methods with
  | some methods =>
    if methods.contains r.method then c.dispatch x r t destination
    else ⟨.notAllowed (",".intercalate methods), [], t⟩
  | none => c.dispatch x r t destination

/-- The response to a question about what may be requested. -/
def preflight (c : Config) (destination : Destination) : Response :=
  let allow := match destination.methods with
    | some methods => [("allow", ",".intercalate methods)]
    | none => []
  let origins := if c.server.enableCors then
      [("access-control-allow-origin", "*"), ("access-control-allow-methods", "*"),
        ("access-control-allow-headers", "*")]
    else []
  ⟨200, allow ++ origins, []⟩

/-- The response with the permission for pages of other origins, if they have it. -/
def withOrigins (c : Config) (response : Response) : Response :=
  if c.server.enableCors then response.withHeader "access-control-allow-origin" "*" else response

/-- The outcome of a request. -/
def handle (c : Config) (x : Circumstances) (r : Request) (t : FileTree) : Outcome :=
  if r.method = "OPTIONS" then ⟨c.preflight (Destination.ofPath r.path), [], t⟩
  else
    let outcome := c.route x r t
    { outcome with response := c.withOrigins outcome.response }

end Config

end ImageGateway
