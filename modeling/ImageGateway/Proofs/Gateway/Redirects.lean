import ImageGateway.Gateway.Backend

/-!
# What is documented of the client

A client meets a network of backends. `Client.IsOn` says what it is documented to do there: it hands on
an answer as it is, whatever its status, but goes on to the address that a redirect gives. The client
that follows the first redirect and no other does so on every network (`isOn_client`).
-/

set_option autoImplicit false

namespace ImageGateway.Backend

open Http (Headers)
open Net (Url)

/-! ## Networks -/

/-- How the body of an answer arrives. -/
inductive Delivery where
  | complete (body : Bytes)
  /-- It does not end before the time is over. -/
  | stalled
  /-- The connection is lost before it ends. -/
  | brokenOff

/-- What a backend does about a call. -/
inductive Reaction where
  /-- There is no connection, or it is lost before an answer begins. -/
  | refused
  /-- No answer begins before the time is over. -/
  | silent
  /-- There is an answer, interim ones not counted. -/
  | answered (status : Nat) (headers : Headers) (body : Delivery)

/-- What the backends do about each call, given the calls before it. -/
structure Network where
  reaction : (earlier : List Call) → Call → Reaction

/-- Whether the answer to a call has a body at all. -/
def carriesBody (method : String) (status : Nat) : Bool :=
  method ≠ "HEAD" && status ≠ 204 && status ≠ 304 && 200 ≤ status
    && !(method = "CONNECT" && status ≤ 299)

/-- The answer with the body that arrives. -/
def received (call : Call) (status : Nat) (headers : Headers) (body : Delivery) :
    Except Failure Answer :=
  if carriesBody call.method status then
    match body with
    | .complete content => .ok ⟨status, headers, content⟩
    | .stalled => .error .stalled
    | .brokenOff => .error .brokenOff
  else .ok ⟨status, headers, []⟩

/-! ## Redirects -/

/-- The statuses of answers that may redirect. -/
def redirectStatuses : List Nat := [301, 302, 303, 307, 308]

/-- Whether an answer has such a status and gives a location. -/
def MayRedirect (status : Nat) (headers : Headers) : Prop :=
  status ∈ redirectStatuses ∧ (headers.first? "location").isSome = true

/-- The address that an answer to a call gives, if it is one that a request can be sent to. -/
def location? (call : Call) (headers : Headers) : Option Url := do
  let value ← headers.first? "location"
  let url ← call.url.join? (← Bytes.toString? value)
  if url.isSendable then some url else none

/-- The client behaves on a network as it is documented: it comes back with the answer to the first
call whatever the status is, but follows a redirect. Nothing is said about locations that are no
such addresses, and about what happens after the second call. -/
structure Client.IsOn (client : Client) (n : Network) : Prop where
  kept : ∀ call status headers delivery, n.reaction [] call = .answered status headers delivery →
    ¬ MayRedirect status headers →
    client.exchange call = ⟨[call], received call status headers delivery⟩
  followed : ∀ call status headers delivery url,
    n.reaction [] call = .answered status headers delivery → status ∈ redirectStatuses →
    location? call headers = some url →
    ∃ next, next.url = url ∧ [call, next] <+: (client.exchange call).calls

/-! ## A client that goes one step -/

/-- What a client comes back with that goes no further. -/
def Reaction.result (call : Call) : Reaction → Except Failure Answer
  | .refused => .error .unreachable
  | .silent => .error .timedOut
  | .answered status headers delivery => received call status headers delivery

/-- The call that a client goes on with after an answer. -/
def next? (call : Call) (status : Nat) (headers : Headers) : Option Call :=
  if status ∈ redirectStatuses then
    (location? call headers).map fun url =>
      if status = 307 ∨ status = 308 then { call with url }
      else ⟨if call.method = "HEAD" then "HEAD" else "GET", url, none, []⟩
  else none

/-- A client that follows the first redirect. -/
def Network.client (n : Network) : Client where
  exchange call := match n.reaction [] call with
    | .answered status headers delivery => match next? call status headers with
      | some next => ⟨[call, next], (n.reaction [call] next).result next⟩
      | none => ⟨[call], received call status headers delivery⟩
    | reaction => ⟨[call], reaction.result call⟩

variable {n : Network} {call : Call} {status : Nat} {headers : Headers} {delivery : Delivery}
  {answer : Answer}

theorem exchange_client (h : n.reaction [] call = .answered status headers delivery) :
    n.client.exchange call = match next? call status headers with
      | some next => ⟨[call, next], (n.reaction [call] next).result next⟩
      | none => ⟨[call], received call status headers delivery⟩ := by
  simp only [Network.client, h]

theorem isOn_client (n : Network) : n.client.IsOn n where
  kept call status headers delivery reaction final := by
    have last : next? call status headers = none := by
      rw [next?]
      split
      · rename_i redirects
        -- without a location there is no address
        have missing : headers.first? "location" = none :=
          Option.not_isSome_iff_eq_none.mp fun given => final ⟨redirects, given⟩
        rw [location?, missing]
        rfl
      · rfl
    rw [exchange_client reaction, last]
  followed call status headers delivery url reaction redirects location := by
    rw [exchange_client reaction, next?, if_pos redirects, location]
    refine ⟨_, ?_, List.prefix_rfl⟩
    split <;> rfl

/-! ## Answers that arrive -/

/-- An answer that arrives as a whole keeps its status, and its body if it may have one. -/
theorem received_complete (call : Call) (status : Nat) (headers : Headers) (content : Bytes) :
    received call status headers (.complete content)
      = .ok ⟨status, headers, if carriesBody call.method status then content else []⟩ := by
  rw [received]
  split <;> rfl

theorem status_of_received (h : received call status headers delivery = .ok answer) :
    answer.status = status := by
  simp only [received] at h
  split at h
  · cases delivery with
    | complete content =>
      obtain rfl := Except.ok.inj h
      rfl
    | stalled => exact absurd h (by simp)
    | brokenOff => exact absurd h (by simp)
  · obtain rfl := Except.ok.inj h
    rfl

end ImageGateway.Backend
