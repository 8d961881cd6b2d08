import ImageGateway.Http.Message
import ImageGateway.Project
import ImageGateway.Record.Basic
import ImageGateway.Storage.Disk
import ImageGateway.Text.Blank
import ImageGateway.Text.Utf8

/-!
# Handling requests

A `Handler` answers a request and may change the file tree. What can go wrong on the way is a
`GatewayError`, which decides the status and the text of the response. What most requests are read
for is read here: the project, the body and a record number.
-/

namespace ImageGateway

open Http (Request Response Headers)
open Storage (FileTree)

/-- Why a request was not answered as it was meant to be. -/
inductive GatewayError where
  /-- The project is not given as visible ASCII text. -/
  | projectNotText
  | project (e : NameError)
  | notARecordId (body : Bytes)
  | bodyTooLong
  /-- No request can be sent to the address of the backend. -/
  | badTarget
  | unreachable (target : String)
  | timedOut (target : String)
  /-- The backend began to answer, but did not finish in time. -/
  | stalled
  /-- The connection was lost before the backend had finished its answer. -/
  | brokenOff
  | storage (e : Storage.Error)
  deriving DecidableEq, Repr

namespace GatewayError

/-- The status of the response. -/
def status : GatewayError → Nat
  | .projectNotText => 400
  | .project _ => 400
  | .notARecordId _ => 400
  | .bodyTooLong => 500
  | .badTarget => 500
  | .unreachable _ => 503
  | .timedOut _ => 504
  | .stalled => 504
  | .brokenOff => 500
  | .storage _ => 500

/-- The text of the response. -/
def message : GatewayError → String
  | .projectNotText => "project header is not valid text"
  | .project e => e.message
  | .notARecordId body => "expected a record ID, got " ++ Text.quoted (Text.Utf8.lossy body)
  | .bodyTooLong => "Error reading request body: length limit exceeded"
  | .badTarget => "Error creating target request: the address is not valid"
  | .unreachable target => "Target server can not be reached: " ++ target
  | .timedOut target => "Target server timed out: " ++ target
  | .stalled => "Target server did not finish responding: the time is over"
  | .brokenOff => "Error reading response body: the connection was closed"
  | .storage e => e.message

/-- The response. -/
def response (e : GatewayError) : Response :=
  .json e.status (Json.Value.object [("error", .string e.message)]).compact

end GatewayError

/-- Answers something and may change the file tree. -/
abbrev Handler := EStateM GatewayError FileTree

namespace Handler

/-- A program for the file tree as part of a handler. -/
def ofDisk (program : Storage.Disk α) : Handler α := fun t =>
  match program t with
  | .ok x t => .ok x t
  | .error e t => .error (.storage e) t

/-- A result that needs no files. -/
def ofExcept (result : Except GatewayError α) : Handler α :=
  match result with
  | .ok x => pure x
  | .error e => throw e

/-- The response, which tells of an error if there was one, and the file tree after it. -/
def respond (h : Handler Response) (t : FileTree) : Response × FileTree :=
  match h t with
  | .ok r t => (r, t)
  | .error e t => (e.response, t)

end Handler

/-! ## Reading requests -/

/-- The header that names the project. -/
def projectHeader : String := "project"

/-- The project that a request is for. -/
def projectOf (headers : Headers) : Except GatewayError Project :=
  match headers.first? projectHeader with
  | none => .ok .global
  | some value =>
    match Http.visibleText? value with
    | none => .error .projectNotText
    | some name =>
      match Project.ofHeader (some name) with
      | .ok p => .ok p
      | .error e => .error (.project e)

/-- The body of a request, which must not be longer than `limit`. -/
def bodyWithin (limit : UInt64) (body : Bytes) : Except GatewayError Bytes :=
  if limit.toNat < body.length then .error .bodyTooLong else .ok body

/-- The number that a body gives: its decimal text, white space around it allowed. -/
def recordIdOf? (body : Bytes) : Option RecordId :=
  (Bytes.toString? body).bind fun text => Decimal.word? (Text.trim text.toList)

/-- The number that the body of a request gives. -/
def recordIdOf (body : Bytes) : Except GatewayError RecordId :=
  match recordIdOf? body with
  | some id => .ok id
  | none => .error (.notARecordId body)

end ImageGateway
