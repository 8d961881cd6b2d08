import ImageGateway.Proofs.Archive.Shelves
import ImageGateway.Proofs.Gateway.Isolation

/-!
# Histories over whole runs

Clients send requests; a generation request is forwarded at one time and completed at another, and
whatever is answered in between goes first. The answers of such a run are those of plain lists of
records: what each request did is known from the request and its answer (`Shelves.after`), and every
history that is asked for is the list that the answers before it make (`agrees_run`).
-/

set_option autoImplicit false

namespace ImageGateway

open Storage Storage.FileTree
open Http (Request Response)
open Archive (Shelves)

/-! ## Runs -/

/-- What happens at a gateway. -/
inductive Event where
  /-- A request is answered at once. -/
  | request (x : Circumstances) (r : Request)
  /-- A generation request is forwarded to the backend. -/
  | forward (x : Circumstances) (r : Request)
  /-- One of the forwarded requests is completed. -/
  | complete (index : Nat)

/-- A request that has been forwarded, and what is left to be done about it. -/
structure Pending where
  request : Request
  finish : Handler Response

/-- The files of a running gateway, and the requests that have been forwarded. -/
structure Running where
  tree : FileTree
  pending : List Pending

/-- Whether a request asks for images. -/
def asksToGenerate (r : Request) : Bool :=
  r.method ≠ "OPTIONS" && Destination.ofPath r.path == .generate

namespace Config

/-- What is left to be done about a generation request after it has been forwarded. -/
def finishOf (c : Config) (x : Circumstances) (r : Request) : Handler Response :=
  ((c.generateRelay x.tokens).forward c.server.maxBodyBytes x.client x.elapsed r).finish

/-- One event, and the request that it answers, with the response. -/
def step (c : Config) (s : Running) : Event → Running × Option (Request × Response)
  | .request x r =>
    let outcome := c.handle x r s.tree
    ({ s with tree := outcome.tree }, some (r, outcome.response))
  | .forward x r =>
    if asksToGenerate r then ({ s with pending := s.pending ++ [⟨r, c.finishOf x r⟩] }, none)
    else (s, none)
  | .complete index =>
    match s.pending[index]? with
    | none => (s, none)
    | some waiting =>
      let (response, t) := waiting.finish.respond s.tree
      (⟨t, s.pending.eraseIdx index⟩, some (waiting.request, c.withOrigins response))

/-- Events one after the other, and the requests that they answer, with the responses. -/
def run (c : Config) : List Event → Running → Running × List (Request × Response)
  | [], s => (s, [])
  | e :: events, s =>
    let (s, answered) := c.step s e
    let (last, more) := c.run events s
    (last, answered.toList ++ more)

end Config

/-! ## What answers tell -/

/-- What a request that succeeded has done to the records of its project. -/
def effect (r : Request) (answer : Response) (records : List Record) : List Record :=
  match Destination.ofPath r.path, recordIdOf? r.body with
  | .generate, _ => records ++ (Record.listOfJson? answer.body).getD []
  | .clearHistory, _ => []
  | .moveForward, some id => Record.broughtForward id records
  | .moveBack, some id => Record.broughtBack id records
  | .remove, some id => Record.erased id records
  | _, _ => records

namespace Archive.Shelves

/-- The records of all projects after a request has been answered. A request that failed, and one
that only asks what may be requested, has changed nothing. -/
def after (shelves : Shelves) (answered : Request × Response) : Shelves :=
  if answered.1.method = "OPTIONS" ∨ Relay.isSuccess answered.2.status = false then shelves
  else match projectOf answered.1.headers with
    | .ok p => Function.update shelves p (effect answered.1 answered.2 (shelves p))
    | .error _ => shelves

/-- The records of all projects after requests have been answered, where there were none before. -/
def afterAll (answered : List (Request × Response)) : Shelves :=
  answered.foldl after fun _ => []

/-- An answer is what the records of the projects make it: a history lists the records of its
project, and new records have the next numbers. -/
structure Agrees (shelves : Shelves) (r : Request) (answer : Response) : Prop where
  history : Destination.ofPath r.path = .getHistory → r.method = "GET" ∨ r.method = "POST" →
    ∀ p, projectOf r.headers = .ok p → answer.status = 200 ∧
      answer.body = Record.compactList (shelves p) ∧
      Record.listOfJson? answer.body = some (shelves p)
  generated : asksToGenerate r = true → Relay.isSuccess answer.status = true →
    ∃ p created, projectOf r.headers = .ok p ∧ answer.body = Record.compactList created ∧
      Record.listOfJson? answer.body = some created ∧
      Archive.IsNumberedAfter (shelves p) created

end Archive.Shelves

/-- The parameters of a request have been stored: it has been answered with new records. -/
structure Stores (r : Request) (answer : Response) : Prop where
  asks : asksToGenerate r = true
  succeeded : Relay.isSuccess answer.status = true
  notEmpty : answer.body ≠ Record.compactList []

variable {c : Config} {x : Circumstances} {r : Request} {answer : Response} {a : Archive}
  {p : Project} {t s : FileTree} {root : Location} {shelves : Shelves} {α : Type}

/-! ## Responses -/

theorem isSuccess_response (e : GatewayError) : Relay.isSuccess e.response.status = false := by
  cases e <;> rfl

theorem isSuccess_empty : Relay.isSuccess (Response.empty 200).status = true := rfl

namespace Archive.Shelves

theorem after_of_failed (h : Relay.isSuccess answer.status = false) :
    shelves.after (r, answer) = shelves := by
  rw [after, if_pos (.inr h)]

theorem after_of_ok (hmethod : r.method ≠ "OPTIONS")
    (hsuccess : Relay.isSuccess answer.status = true) (hproject : projectOf r.headers = .ok p) :
    shelves.after (r, answer)
      = Function.update shelves p (effect r answer (shelves p)) := by
  rw [after, if_neg (by simp [hmethod, hsuccess])]
  simp only [hproject]

/-- A request that asks for something that has no effect changes nothing, whatever is answered. -/
theorem after_of_effect (h : ∀ records, effect r answer records = records) :
    shelves.after (r, answer) = shelves := by
  rw [after]
  split
  · rfl
  · split
    · rw [h, Function.update_eq_self]
    · rfl

/-- Only histories and new records have to agree with anything. -/
theorem agrees_of_other (hhistory : Destination.ofPath r.path ≠ .getHistory)
    (hgenerate : Destination.ofPath r.path ≠ .generate) : shelves.Agrees r answer := by
  refine ⟨fun same => absurd same hhistory, fun asks => ?_⟩
  simp [asksToGenerate, hgenerate] at asks

end Archive.Shelves

/-! ## One request -/

/-- A response agrees with the records of the projects, and the file tree after it holds what they
are then, if the parameters that have been stored fit. -/
def Settles (c : Config) (root : Location) (shelves : Shelves) (r : Request) (answer : Response)
    (t : FileTree) : Prop :=
  (Stores r answer → Archive.Fits (Archive.requestParameters r.body)) →
    shelves.Agrees r answer ∧ c.archive.Holds root (shelves.after (r, answer)) t

/-- A request that has no effect leaves everything as it is. -/
theorem settles_of_effect (h : c.archive.Holds root shelves t)
    (hhistory : Destination.ofPath r.path ≠ .getHistory)
    (hgenerate : Destination.ofPath r.path ≠ .generate)
    (heffect : ∀ records, effect r answer records = records) :
    Settles c root shelves r answer t := by
  intro _
  rw [Shelves.after_of_effect heffect]
  exact ⟨Shelves.agrees_of_other hhistory hgenerate, h⟩

theorem settles_of_failed (h : c.archive.Holds root shelves t)
    (hhistory : Destination.ofPath r.path = .getHistory → r.method = "GET" ∨ r.method = "POST" →
      ∃ e, projectOf r.headers = .error e)
    (hfailed : Relay.isSuccess answer.status = false) : Settles c root shelves r answer t := by
  intro _
  rw [Shelves.after_of_failed hfailed]
  refine ⟨⟨fun asks method p named => ?_, fun _ succeeded => ?_⟩, h⟩
  · obtain ⟨e, refused⟩ := hhistory asks method
    exact absurd (refused.symm.trans named) (by simp)
  · exact absurd (hfailed.symm.trans succeeded) (by simp)

/-- A request that has carried out a change of its project has had its effect. -/
theorem settles_of_carried {f : List Record → List Record}
    (h : c.archive.Holds root (Function.update shelves p (f (shelves p))) t)
    (hmethod : r.method ≠ "OPTIONS") (hproject : projectOf r.headers = .ok p)
    (hhistory : Destination.ofPath r.path ≠ .getHistory)
    (hgenerate : Destination.ofPath r.path ≠ .generate)
    (hsuccess : Relay.isSuccess answer.status = true)
    (heffect : ∀ records, effect r answer records = f records) :
    Settles c root shelves r answer t := by
  intro _
  rw [Shelves.after_of_ok hmethod hsuccess hproject, heffect]
  exact ⟨Shelves.agrees_of_other hhistory hgenerate, h⟩

/-! ## Changing records -/

theorem eq_of_bodyWithin {limit : UInt64} {body body' : Bytes}
    (h : bodyWithin limit body = .ok body') : body = body' := by
  rw [bodyWithin] at h
  split at h
  · exact absurd h (by simp)
  · exact Except.ok.inj h

/-- Answers with one response whenever a program could be run. -/
def acknowledging (program : Disk α) : Handler Response := do
  let _ ← Handler.ofDisk program
  pure (.empty 200)

theorem respond_acknowledging_of_ok {program : Disk α} {y : α} (h : program t = .ok y s) :
    (acknowledging program).respond t = (.empty 200, s) := by
  rw [Handler.respond, acknowledging, run_bind, Handler.ofDisk, h]
  rfl

theorem respond_acknowledging_of_error {program : Disk α} {e : Storage.Error}
    (h : program t = .error e s) :
    (acknowledging program).respond t = ((GatewayError.storage e).response, s) := by
  rw [Handler.respond, acknowledging, run_bind, Handler.ofDisk, h]

/-- Once the project and the body have been read, the number decides what is done. -/
theorem respond_changeRecord_of_ok (change : Project → RecordId → Disk Bool) {limit : UInt64}
    (hproject : projectOf r.headers = .ok p) (hbody : bodyWithin limit r.body = .ok r.body)
    (t : FileTree) :
    (Endpoint.changeRecord change limit r).respond t = match recordIdOf? r.body with
      | some id => (acknowledging (change p id)).respond t
      | none => ((GatewayError.notARecordId r.body).response, t) := by
  rw [Endpoint.changeRecord, hproject, hbody]
  cases hid : recordIdOf? r.body <;>
  · simp only [Handler.ofExcept, pure_bind, recordIdOf, hid]
    rfl

/-- A change either is refused before it is begun, or is carried out for the project and the record
that the request names. -/
theorem respond_changeRecord (change : Project → RecordId → Disk Bool) (limit : UInt64)
    (r : Request) (t : FileTree) :
    (∃ e, (Endpoint.changeRecord change limit r).respond t = (GatewayError.response e, t)) ∨
      ∃ p id, projectOf r.headers = .ok p ∧ recordIdOf? r.body = some id ∧
        (Endpoint.changeRecord change limit r).respond t
          = (acknowledging (change p id)).respond t := by
  cases hproject : projectOf r.headers with
  | error e => exact .inl ⟨e, by rw [Endpoint.changeRecord, hproject]; rfl⟩
  | ok p =>
    cases hbody : bodyWithin limit r.body with
    | error e => exact .inl ⟨e, by rw [Endpoint.changeRecord, hproject, hbody]; rfl⟩
    | ok body =>
      obtain rfl := eq_of_bodyWithin hbody
      rw [respond_changeRecord_of_ok change hproject hbody]
      cases recordIdOf? r.body with
      | none => exact .inl ⟨.notARecordId r.body, rfl⟩
      | some id => exact .inr ⟨p, id, rfl, rfl, rfl⟩

theorem status_answered (h : Handler Response) :
    (Config.answered r h t).response.status = (h.respond t).1.status := by
  rw [Config.answered]
  cases h.respond t
  simp only
  split <;> rfl

/-- A handler that has refused a request has not had any effect. -/
theorem settles_of_refused {handler : Handler Response} {e : GatewayError}
    (h : c.archive.Holds root shelves t) (hhistory : Destination.ofPath r.path ≠ .getHistory)
    (run : handler.respond t = (e.response, t)) :
    Settles c root shelves r (Config.answered r handler t).response
      (Config.answered r handler t).tree := by
  have status := status_answered (r := r) (t := t) handler
  have tree : (Config.answered r handler t).tree = (handler.respond t).2 := rfl
  rw [run] at status tree
  rw [tree]
  exact settles_of_failed h (fun asks => absurd asks hhistory)
    (by rw [status]; exact isSuccess_response e)

/-- A handler that acknowledges a change of the project has had the effect of that change, or none if
it failed. -/
theorem settles_of_acknowledging {handler : Handler Response} {program : Disk α}
    {f : List Record → List Record} (h : c.archive.Holds root shelves t)
    (hcarries : c.archive.Carries p f program) (hmethod : r.method ≠ "OPTIONS")
    (hproject : projectOf r.headers = .ok p) (hhistory : Destination.ofPath r.path ≠ .getHistory)
    (hgenerate : Destination.ofPath r.path ≠ .generate)
    (heffect : ∀ answer records, effect r answer records = f records)
    (run : handler.respond t = (acknowledging program).respond t) :
    Settles c root shelves r (Config.answered r handler t).response
      (Config.answered r handler t).tree := by
  have status := status_answered (r := r) (t := t) handler
  have tree : (Config.answered r handler t).tree = (handler.respond t).2 := rfl
  rcases hcarries root shelves t h with ⟨result, s, done, holds⟩ | ⟨e, s, failed, holds⟩
  · rw [run, respond_acknowledging_of_ok done] at status tree
    rw [tree]
    exact settles_of_carried holds hmethod hproject hhistory hgenerate
      (by rw [status]; exact isSuccess_empty) (heffect _)
  · rw [run, respond_acknowledging_of_error failed] at status tree
    rw [tree]
    exact settles_of_failed holds (fun asks => absurd asks hhistory)
      (by rw [status]; exact isSuccess_response _)

/-- A request to change one record does to the list what the change does. -/
theorem settles_changeRecord {change : Project → RecordId → Disk Bool}
    {f : RecordId → List Record → List Record} (h : c.archive.Holds root shelves t)
    (hcarries : ∀ p id, c.archive.Carries p (f id) (change p id))
    (hmethod : r.method ≠ "OPTIONS") (hhistory : Destination.ofPath r.path ≠ .getHistory)
    (hgenerate : Destination.ofPath r.path ≠ .generate)
    (heffect : ∀ id answer records, recordIdOf? r.body = some id →
      effect r answer records = f id records) (limit : UInt64) :
    Settles c root shelves r
      (Config.answered r (Endpoint.changeRecord change limit r) t).response
      (Config.answered r (Endpoint.changeRecord change limit r) t).tree := by
  rcases respond_changeRecord change limit r t with ⟨e, run⟩ | ⟨p, id, hproject, hid, run⟩
  · exact settles_of_refused h hhistory run
  · exact settles_of_acknowledging h (hcarries p id) hmethod hproject hhistory hgenerate
      (fun answer records => heffect id answer records hid) run

/-! ## Clearing and listing -/

theorem settles_clearHistory (h : c.archive.Holds root shelves t) (hmethod : r.method ≠ "OPTIONS")
    (hpath : Destination.ofPath r.path = .clearHistory) :
    Settles c root shelves r
      (Config.answered r (Endpoint.clearHistory c.archive r) t).response
      (Config.answered r (Endpoint.clearHistory c.archive r) t).tree := by
  have hhistory : Destination.ofPath r.path ≠ .getHistory := by simp [hpath]
  have hgenerate : Destination.ofPath r.path ≠ .generate := by simp [hpath]
  cases hproject : projectOf r.headers with
  | error e =>
    refine settles_of_refused h hhistory (e := e) ?_
    rw [Endpoint.clearHistory, hproject]
    rfl
  | ok p =>
    refine settles_of_acknowledging h (Archive.carries_clear c.archive p) hmethod hproject hhistory
      hgenerate (fun answer records => ?_) ?_
    · rw [effect, hpath]
    · rw [Endpoint.clearHistory, hproject]
      rfl

theorem respond_getHistory (a : Archive) (t : FileTree) (hproject : projectOf r.headers = .ok p) :
    (Endpoint.getHistory a r).respond t = (.json 200 (Record.compactList (a.history p t)), t) := by
  rw [Endpoint.getHistory, hproject]
  rfl

/-- A history is the list of the project. -/
theorem settles_getHistory (h : c.archive.Holds root shelves t)
    (hpath : Destination.ofPath r.path = .getHistory) :
    Settles c root shelves r
      (Config.answered r (Endpoint.getHistory c.archive r) t).response
      (Config.answered r (Endpoint.getHistory c.archive r) t).tree := by
  intro _
  -- asking for the history changes no tree
  have tree : (Config.answered r (Endpoint.getHistory c.archive r) t).tree = t := by
    show ((Endpoint.getHistory c.archive r).respond t).2 = t
    rw [Endpoint.getHistory]
    cases projectOf r.headers <;> rfl
  rw [tree, Shelves.after_of_effect fun records => by rw [effect, hpath]]
  refine ⟨⟨fun _ hmethod p hproject => ?_, fun asks => ?_⟩, h⟩
  · have notHead : r.method ≠ "HEAD" := by
      rcases hmethod with same | same <;> simp [same]
    have answered : (Config.answered r (Endpoint.getHistory c.archive r) t).response
        = .json 200 (Record.compactList (shelves p)) := by
      rw [Config.answered, respond_getHistory c.archive t hproject, ← h.records p]
      exact if_neg notHead
    rw [answered]
    refine ⟨rfl, rfl, ?_⟩
    show Record.listOfJson? (Record.compactList (shelves p)) = some (shelves p)
    rw [Record.listOfJson?_compactList, Json.mapM_eq_some_self (h.lasting p)]
  · simp [asksToGenerate, hpath] at asks

/-! ## Generating -/

section Complete

variable {relay : Relay} {tokens : Nat → Record.CacheToken} {inbound : Relay.Inbound}
  {elapsed : UInt64} {reply : Backend.Answer}

theorem Relay.respond_complete_ok {converted : Converted}
    (success : Relay.isSuccess reply.status = true)
    (run : relay.convertAnswer inbound.project inbound.body reply.body elapsed t
      = .ok converted s) :
    (relay.complete inbound elapsed reply).respond t
      = (Relay.response reply.status (converted.contentType <|> reply.contentType)
        converted.body, s) := by
  rw [Relay.complete, if_pos success, Handler.respond, run_bind_of_ok run]
  rfl

theorem Relay.respond_complete_error {e : GatewayError}
    (success : Relay.isSuccess reply.status = true)
    (run : relay.convertAnswer inbound.project inbound.body reply.body elapsed t = .error e s) :
    (relay.complete inbound elapsed reply).respond t = (e.response, s) := by
  rw [Relay.complete, if_pos success, Handler.respond, run_bind_of_error run]

theorem respond_complete_of_ok {created : List Record}
    (hsuccess : Relay.isSuccess reply.status = true)
    (hrun : c.archive.recordBatch inbound.project tokens inbound.body reply.body elapsed t
      = .ok created s) :
    ((c.generateRelay tokens).complete inbound elapsed reply).respond t
      = (Relay.response reply.status (some "application/json") (Record.compactList created),
        s) := by
  have run : (c.generateRelay tokens).convertAnswer inbound.project inbound.body reply.body
      elapsed t = .ok ⟨Record.compactList created, some "application/json"⟩ s := by
    simp only [Config.generateRelay, recordGeneration, run_bind, Handler.ofDisk, hrun]
    rfl
  exact Relay.respond_complete_ok hsuccess run

theorem respond_complete_of_error {e : Storage.Error}
    (hsuccess : Relay.isSuccess reply.status = true)
    (hrun : c.archive.recordBatch inbound.project tokens inbound.body reply.body elapsed t
      = .error e s) :
    ((c.generateRelay tokens).complete inbound elapsed reply).respond t
      = ((GatewayError.storage e).response, s) := by
  have run : (c.generateRelay tokens).convertAnswer inbound.project inbound.body reply.body
      elapsed t = .error (.storage e) s := by
    simp only [Config.generateRelay, recordGeneration, run_bind, Handler.ofDisk, hrun]
  exact Relay.respond_complete_error hsuccess run

end Complete

/-- A forwarded request either comes to nothing, or what it was answered with is recorded. -/
theorem respond_finishOf (c : Config) (x : Circumstances) (r : Request) (t : FileTree) :
    (∃ response, (c.finishOf x r).respond t = (response, t) ∧
      Relay.isSuccess response.status = false) ∨
    ∃ p answer status, projectOf r.headers = .ok p ∧ Relay.isSuccess status = true ∧
      (∀ created s, c.archive.recordBatch p x.tokens r.body answer x.elapsed t = .ok created s →
        ∃ response, (c.finishOf x r).respond t = (response, s) ∧ response.status = status ∧
          response.body = Record.compactList created) ∧
      ∀ e s, c.archive.recordBatch p x.tokens r.body answer x.elapsed t = .error e s →
        (c.finishOf x r).respond t = ((GatewayError.storage e).response, s) := by
  have refused : ∀ e : GatewayError, ∃ response,
      (throw e : Handler Response).respond t = (response, t) ∧
        Relay.isSuccess response.status = false :=
    fun e => ⟨e.response, rfl, isSuccess_response e⟩
  -- every step of forwarding can fail, and only the last one changes the tree
  rw [Config.finishOf, Relay.forward]
  cases hin : Relay.inbound c.server.maxBodyBytes r with
  | error e => exact .inl (refused e)
  | ok inbound =>
    simp only
    cases (c.generateRelay x.tokens).call r inbound with
    | error e => exact .inl (refused e)
    | ok call =>
      simp only
      cases (x.client.exchange call).result with
      | error failure => exact .inl (refused _)
      | ok answer =>
        simp only
        obtain ⟨hbody, hproject⟩ := Relay.inbound_eq_ok hin
        rw [eq_of_bodyWithin hbody]
        cases hsuccess : Relay.isSuccess answer.status with
        | false =>
          refine .inl ⟨Relay.response answer.status answer.contentType answer.body, ?_, hsuccess⟩
          rw [Relay.complete, hsuccess]
          rfl
        | true =>
          refine .inr ⟨inbound.project, answer.body, answer.status, hproject, hsuccess, ?_, ?_⟩
          · intro created s run
            exact ⟨_, respond_complete_of_ok hsuccess run, rfl, rfl⟩
          · intro e s run
            exact respond_complete_of_error hsuccess run

theorem compactList_ne {created : List Record} (hlasting : created ≠ []) :
    Record.compactList created ≠ Record.compactList [] := by
  intro same
  have read := Record.listOfJson?_compactList created
  rw [same, Record.listOfJson?_compactList] at read
  have ids := Record.map_id_of_mapM_reread read.symm
  exact hlasting (List.map_eq_nil_iff.mp ids.symm)

/-- Completing a request puts the new records at the end of the list. -/
theorem settles_finishOf (h : c.archive.Holds root shelves t) (hasks : asksToGenerate r = true)
    (x : Circumstances) :
    Settles c root shelves r ((c.finishOf x r).respond t).1 ((c.finishOf x r).respond t).2 := by
  obtain ⟨hmethod, hpath⟩ : r.method ≠ "OPTIONS" ∧ Destination.ofPath r.path = .generate := by
    simpa [asksToGenerate] using hasks
  have hhistory : Destination.ofPath r.path ≠ .getHistory := by simp [hpath]
  rcases respond_finishOf c x r t with ⟨response, run, failed⟩ |
    ⟨p, answer, status, hproject, hsuccess, recorded, refused⟩
  · rw [run]
    exact settles_of_failed h (fun asks => absurd asks hhistory) failed
  rcases h.recordBatch p x.tokens r.body answer x.elapsed with
    ⟨created, s, run, numbered, holds⟩ | ⟨e, s, run, holds⟩
  · obtain ⟨response, run', hstatus, hbody⟩ := recorded created s run
    rw [run']
    intro hfits
    have succeeded : Relay.isSuccess response.status = true := hstatus ▸ hsuccess
    obtain ⟨lasting, holds⟩ := holds fun notEmpty =>
      hfits ⟨hasks, succeeded, hbody ▸ compactList_ne notEmpty⟩
    have listed : Record.listOfJson? response.body = some created := by
      rw [hbody, Record.listOfJson?_compactList, Json.mapM_eq_some_self lasting]
    refine ⟨⟨fun asks => absurd asks hhistory, fun _ _ =>
      ⟨p, created, hproject, hbody, listed, numbered⟩⟩, ?_⟩
    have value : effect r response (shelves p) = shelves p ++ created := by
      rw [effect, hpath]
      simp only [listed, Option.getD_some]
    rw [Shelves.after_of_ok hmethod succeeded hproject, value]
    exact holds
  · rw [refused e s run]
    exact settles_of_failed holds (fun asks => absurd asks hhistory) (isSuccess_response _)

/-! ## Every request -/

namespace Config

@[simp] theorem status_withOrigins (c : Config) (response : Response) :
    (c.withOrigins response).status = response.status := by
  rw [withOrigins]
  split <;> rfl

@[simp] theorem body_withOrigins (c : Config) (response : Response) :
    (c.withOrigins response).body = response.body := by
  rw [withOrigins]
  split <;> rfl

end Config

/-- What is added for other origins makes no difference. -/
theorem Settles.withOrigins (h : Settles c root shelves r answer t) :
    Settles c root shelves r (c.withOrigins answer) t := by
  have status := Config.status_withOrigins c answer
  have body := Config.body_withOrigins c answer
  intro hfits
  obtain ⟨⟨history, generated⟩, holds⟩ := h fun ⟨asks, succeeded, notEmpty⟩ =>
    hfits ⟨asks, status ▸ succeeded, body ▸ notEmpty⟩
  refine ⟨⟨?_, ?_⟩, ?_⟩
  · rw [status, body]
    exact history
  · rw [status, body]
    exact generated
  · have same : shelves.after (r, c.withOrigins answer) = shelves.after (r, answer) := by
      simp only [Shelves.after, effect, status, body]
    rwa [same]

theorem settles_dispatch (h : c.archive.Holds root shelves t) (hmethod : r.method ≠ "OPTIONS")
    (x : Circumstances) :
    Settles c root shelves r (c.dispatch x r t (Destination.ofPath r.path)).response
      (c.dispatch x r t (Destination.ofPath r.path)).tree := by
  cases hpath : Destination.ofPath r.path with
  | parameters =>
    have same : (c.dispatch x r t .parameters).tree = t := by
      rw [Config.dispatch, Config.tree_relayed]
      exact Relay.respects_finish (R := fun t s => s = t) ⟨fun _ => rfl, fun _ _ _ h h' => h'.trans h⟩
        (fun _ _ _ _ _ _ => rfl) _ _ _ t
    rw [same]
    exact settles_of_effect h (by simp [hpath]) (by simp [hpath]) fun _ => by rw [effect, hpath]
  | generate =>
    exact settles_finishOf h (by simp [asksToGenerate, hmethod, hpath]) x
  | getHistory => exact settles_getHistory h hpath
  | clearHistory => exact settles_clearHistory h hmethod hpath
  | moveForward =>
    refine settles_changeRecord h (Archive.carries_moveForward c.archive) hmethod (by simp [hpath])
      (by simp [hpath]) (fun id answer records hid => ?_) _
    simp only [effect, hpath, hid]
  | moveBack =>
    refine settles_changeRecord h (Archive.carries_moveBack c.archive) hmethod (by simp [hpath])
      (by simp [hpath]) (fun id answer records hid => ?_) _
    simp only [effect, hpath, hid]
  | remove =>
    refine settles_changeRecord h (Archive.carries_remove c.archive) hmethod (by simp [hpath])
      (by simp [hpath]) (fun id answer records hid => ?_) _
    simp only [effect, hpath, hid]
  | settings | health | result path | page path =>
    -- nothing is recorded or changed
    exact settles_of_effect h (by simp [hpath]) (by simp [hpath]) fun _ => by rw [effect, hpath]

theorem settles_handle (h : c.archive.Holds root shelves t) (x : Circumstances) (r : Request) :
    Settles c root shelves r (c.handle x r t).response (c.handle x r t).tree := by
  rw [Config.handle]
  by_cases hmethod : r.method = "OPTIONS"
  · rw [if_pos hmethod]
    intro _
    rw [Shelves.after, if_pos (.inl hmethod)]
    refine ⟨⟨fun _ asks => ?_, fun asks => ?_⟩, h⟩
    · rcases asks with same | same <;> simp [same] at hmethod
    · simp [asksToGenerate, hmethod] at asks
  rw [if_neg hmethod]
  refine Settles.withOrigins ?_
  simp only [Config.route]
  cases hmethods : (Destination.ofPath r.path).methods with
  | none => exact settles_dispatch h hmethod x
  | some methods =>
    simp only
    split
    · exact settles_dispatch h hmethod x
    · rename_i refused
      -- the methods of a history are among those that are answered
      refine settles_of_failed h (fun asks method => absurd ?_ refused) rfl
      rw [asks] at hmethods
      obtain rfl := Option.some.inj hmethods
      rcases method with same | same <;> rw [same] <;> decide

/-! ## Every run -/

/-- The archive of a running gateway holds given records, and every request that has been forwarded
has all that is needed to complete it. -/
structure IsShelved (c : Config) (root : Location) (shelves : Shelves) (s : Running) : Prop where
  holds : c.archive.Holds root shelves s.tree
  pending : ∀ w ∈ s.pending, asksToGenerate w.request = true ∧ ∃ x, w.finish = c.finishOf x w.request

/-- One event changes what is held by what its answer tells, and by nothing if nothing is answered. -/
theorem isShelved_step {running : Running} (h : IsShelved c root shelves running) (e : Event) :
    ((c.step running e).2 = none ∧ IsShelved c root shelves (c.step running e).1) ∨
      ∃ r answer, (c.step running e).2 = some (r, answer) ∧
        ((Stores r answer → Archive.Fits (Archive.requestParameters r.body)) →
          shelves.Agrees r answer ∧
            IsShelved c root (shelves.after (r, answer)) (c.step running e).1) := by
  cases e with
  | request x r =>
    refine .inr ⟨r, (c.handle x r running.tree).response, rfl, fun hfits => ?_⟩
    obtain ⟨agrees, holds⟩ := settles_handle h.holds x r hfits
    exact ⟨agrees, holds, h.pending⟩
  | forward x r =>
    rw [Config.step]
    -- an exchange that asks to generate waits for its completion, any other has no effect
    split
    · rename_i asks
      refine .inl ⟨rfl, h.holds, fun w hw => ?_⟩
      rcases List.mem_append.mp hw with old | new
      · exact h.pending w old
      · obtain rfl := List.mem_singleton.mp new
        exact ⟨asks, x, rfl⟩
    · exact .inl ⟨rfl, h⟩
  | complete index =>
    cases hfound : running.pending[index]? with
    | none =>
      have same : c.step running (.complete index) = (running, none) := by
        rw [Config.step, hfound]
      rw [same]
      exact .inl ⟨rfl, h⟩
    | some w =>
      obtain ⟨asks, x, hfinish⟩ := h.pending w (List.mem_of_getElem? hfound)
      have done : c.step running (.complete index)
          = (⟨(w.finish.respond running.tree).2, running.pending.eraseIdx index⟩,
            some (w.request, c.withOrigins (w.finish.respond running.tree).1)) := by
        rw [Config.step, hfound]
      rw [done, hfinish]
      refine .inr ⟨w.request, _, rfl, fun hfits => ?_⟩
      obtain ⟨agrees, holds⟩ := (settles_finishOf h.holds asks x).withOrigins hfits
      exact ⟨agrees, holds, fun w' hw' => h.pending w' (List.mem_of_mem_eraseIdx hw')⟩

/-- What one event preserves, a run does; and every answer agrees with what those before it tell. -/
theorem isShelved_run (events : List Event) {running : Running}
    (h : IsShelved c root shelves running)
    (hfits : ∀ e ∈ (c.run events running).2,
      Stores e.1 e.2 → Archive.Fits (Archive.requestParameters e.1.body)) :
    IsShelved c root ((c.run events running).2.foldl Shelves.after shelves)
        (c.run events running).1 ∧
      ∀ before r answer after, (c.run events running).2 = before ++ (r, answer) :: after →
        (before.foldl Shelves.after shelves).Agrees r answer := by
  -- every answer brings the shelves up to date before the events that follow
  induction events generalizing running shelves with
  | nil => exact ⟨h, fun before r answer after same => absurd same.symm (by simp [Config.run])⟩
  | cons e events ih =>
    have unfolded : c.run (e :: events) running
        = ((c.run events (c.step running e).1).1,
          (c.step running e).2.toList ++ (c.run events (c.step running e).1).2) := rfl
    rw [unfolded] at hfits ⊢
    rcases isShelved_step h e with ⟨silent, next⟩ | ⟨r, answer, answered, next⟩
    · rw [silent] at hfits ⊢
      exact ih next hfits
    · rw [answered] at hfits ⊢
      obtain ⟨agrees, next⟩ := next (hfits _ List.mem_cons_self)
      obtain ⟨last, others⟩ := ih next fun e he => hfits e (List.mem_cons_of_mem _ he)
      refine ⟨last, fun before r' answer' after same => ?_⟩
      cases before with
      | nil =>
        obtain ⟨first, -⟩ := List.cons.inj same
        obtain ⟨rfl, rfl⟩ := Prod.mk.inj first
        exact agrees
      | cons first before =>
        obtain ⟨rfl, rest⟩ := List.cons.inj same
        exact others before r' answer' after rest

/-- From an empty results directory, with any requests in any order and generation requests completed
at any time after they were forwarded, every answer agrees with the lists that the answers before it
make, as long as the parameters that are stored fit; and so do the ledgers at the end. -/
theorem agrees_run (c : Config) (hs : t.IsSound) (hroot : t.LeadsTo c.archive.root root)
    (hempty : ∀ loc, root <+: loc → loc ≠ root → t.find? loc = none) (events : List Event)
    (hfits : ∀ e ∈ (c.run events ⟨t, []⟩).2,
      Stores e.1 e.2 → Archive.Fits (Archive.requestParameters e.1.body)) :
    (∀ before r answer after,
      (c.run events ⟨t, []⟩).2 = before ++ (r, answer) :: after →
        (Shelves.afterAll before).Agrees r answer) ∧
      ∀ p, c.archive.history p (c.run events ⟨t, []⟩).1.tree
        = Shelves.afterAll (c.run events ⟨t, []⟩).2 p := by
  have start : IsShelved c root (fun _ => []) ⟨t, []⟩ :=
    ⟨Archive.holds_of_empty hs hroot hempty, fun w hw => absurd hw List.not_mem_nil⟩
  obtain ⟨last, agrees⟩ := isShelved_run events start hfits
  exact ⟨agrees, last.holds.records⟩

/-! ## A request that is completed after another -/

/-- Every call is answered with one image. -/
def answering : Circumstances where
  client := ⟨fun call => ⟨[call], .ok ⟨200, [], (Archive.answerOf [""]).compact⟩⟩⟩
  elapsed := 0
  tokens := fun _ => Archive.zeroToken

/-- A generation request without parameters. -/
def generateGlobal : Request := ⟨"POST", "/generate", none, [], []⟩

/-- A request for the history of the global namespace. -/
def listGlobal : Request := ⟨"GET", "/get-history", none, [], []⟩

theorem respond_finishOf_answering :
    ∃ response s, (localGateway.finishOf answering generateGlobal).respond Archive.emptyResults
        = (response, s) ∧ response.status = 200 ∧
      response.body = Record.compactList [Archive.firstRecord [] 0 Archive.zeroToken ""] := by
  have sendable : ((Net.Url.parse? localGateway.backend.generateUrl).filter
      Net.Url.isSendable).isSome = true := by decide +kernel
  obtain ⟨url, hurl⟩ := Option.isSome_iff_exists.mp sendable
  have inbound : Relay.inbound localGateway.server.maxBodyBytes generateGlobal
      = .ok ⟨.global, []⟩ := rfl
  have call : (localGateway.generateRelay answering.tokens).call generateGlobal ⟨.global, []⟩
      = .ok ⟨"POST", url, none, []⟩ := by
    rw [Relay.call]
    simp only [Config.generateRelay, hurl]
    rfl
  have exchange : (answering.client.exchange ⟨"POST", url, none, []⟩).result
      = .ok ⟨200, [], (Archive.answerOf [""]).compact⟩ := rfl
  have recorded := Archive.recordBatch_emptyResults [] ""
  have finish : localGateway.finishOf answering generateGlobal
      = (localGateway.generateRelay answering.tokens).complete ⟨.global, []⟩ 0
        ⟨200, [], (Archive.answerOf [""]).compact⟩ := by
    rw [Config.finishOf, Relay.forward, inbound]
    simp only [call, exchange]
    rfl
  have success : Relay.isSuccess 200 = true := rfl
  rw [finish]
  exact ⟨_, _, respond_complete_of_ok success recorded, rfl, rfl⟩

theorem fits_nil : Archive.Fits [] := ⟨by decide, fun n hn => absurd hn List.not_mem_nil⟩

/-- Forwarding, clearing what is there, completing and listing: the new record is listed. -/
theorem agrees_run_answering :
    Archive.emptyResults.IsSound ∧
      Archive.emptyResults.LeadsTo localGateway.archive.root ["results"] ∧
      (∀ loc, ["results"] <+: loc → loc ≠ ["results"] → Archive.emptyResults.find? loc = none) ∧
      ∃ cleared generated listed,
        (localGateway.run [.forward answering generateGlobal, .request offline clearGlobal,
          .complete 0, .request offline listGlobal] ⟨Archive.emptyResults, []⟩).2
          = [(clearGlobal, cleared), (generateGlobal, generated), (listGlobal, listed)] ∧
        listed.body = Record.compactList [Archive.firstRecord [] 0 Archive.zeroToken ""] := by
  have isAt := Archive.isAt_emptyResults
  refine ⟨isAt.sound, isAt.leads, Archive.find?_emptyResults, ?_⟩
  obtain ⟨response, s, finished, status, body⟩ := respond_finishOf_answering
  have cleared : localGateway.handle offline clearGlobal Archive.emptyResults
      = ⟨.empty 200, [], Archive.emptyResults⟩ := rfl
  have steps : (localGateway.run [.forward answering generateGlobal, .request offline clearGlobal,
      .complete 0, .request offline listGlobal] ⟨Archive.emptyResults, []⟩).2
        = [(clearGlobal, .empty 200), (generateGlobal, response),
          (listGlobal, (localGateway.handle offline listGlobal s).response)] := by
    have asks : asksToGenerate generateGlobal = true := rfl
    have origins : localGateway.withOrigins response = response := rfl
    simp only [Config.run, Config.step, asks, ↓reduceIte, List.nil_append, cleared,
      List.getElem?_cons_zero, finished, origins]
    rfl
  have fits : ∀ e ∈ (localGateway.run [.forward answering generateGlobal,
      .request offline clearGlobal, .complete 0, .request offline listGlobal]
      ⟨Archive.emptyResults, []⟩).2,
      Stores e.1 e.2 → Archive.Fits (Archive.requestParameters e.1.body) := by
    rw [steps]
    intro e he _
    simp only [List.mem_cons, List.not_mem_nil, or_false] at he
    rcases he with rfl | rfl | rfl <;> exact fits_nil
  obtain ⟨agrees, -⟩ := agrees_run localGateway isAt.sound isAt.leads
    Archive.find?_emptyResults _ fits
  have listed := (agrees [(clearGlobal, .empty 200), (generateGlobal, response)] listGlobal _ []
    steps).history rfl (.inl rfl) .global rfl
  refine ⟨_, _, _, steps, listed.2.1.trans ?_⟩
  have read : Record.listOfJson? response.body
      = some [Archive.firstRecord [] 0 Archive.zeroToken ""] := by
    rw [body, Record.listOfJson?_compactList]
    refine Json.mapM_eq_some_self fun r hr => ?_
    obtain rfl := List.mem_singleton.mp hr
    have parameters : (Archive.firstRecord [] 0 Archive.zeroToken "").taskData = [] :=
      Archive.taskData_firstRecord []
    refine (Record.reread_eq_some_iff ?_ ?_).mpr ?_
    · rw [parameters]
      exact ⟨List.Pairwise.nil, trivial⟩
    · rw [parameters]
      exact fun n hn => absurd hn List.not_mem_nil
    · rw [parameters]
      decide
  have before : Shelves.after (fun _ => []) (clearGlobal, .empty 200) .global = [] := by
    rw [Shelves.after_of_ok (p := .global) (by decide) rfl rfl, Function.update_self]
    rfl
  have value : Shelves.afterAll [(clearGlobal, .empty 200), (generateGlobal, response)] .global
      = [Archive.firstRecord [] 0 Archive.zeroToken ""] := by
    show Shelves.after _ (generateGlobal, response) .global = _
    rw [Shelves.after_of_ok (p := .global) (by decide) (by rw [status]; rfl) rfl,
      Function.update_self, before]
    show [] ++ (Record.listOfJson? response.body).getD [] = _
    rw [read]
    rfl
  rw [value]

end ImageGateway
