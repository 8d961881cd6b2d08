import ImageGateway.Gateway.Router
import ImageGateway.Proofs.Archive.Ledgers

/-!
# Requests are isolated

Whatever a request asks for, with any path, method, headers and body and whatever the backend does,
it is answered by a program for the one project that its header names, or by none if the header names
no project (`respects_dispatch`). So a request touches its project and nothing else
(`isolated_handle`).
-/

set_option autoImplicit false

namespace ImageGateway

open Storage Storage.FileTree
open Http (Request Response)
open Backend (Client)

variable {c : Config} {x : Circumstances} {r : Request} {a : Archive} {p : Project}
  {t s : FileTree} {α : Type} {R : FileTree → FileTree → Prop}

/-! ## Handlers -/

namespace Handler

theorem snd_respond (h : Handler Response) (t : FileTree) :
    (h.respond t).2 = treeAfter h t := by
  rw [respond, treeAfter]
  cases h t <;> rfl

theorem treeAfter_ofDisk (program : Disk α) (t : FileTree) :
    treeAfter (Handler.ofDisk program) t = treeAfter program t := by
  rw [treeAfter, treeAfter, Handler.ofDisk]
  cases program t <;> rfl

theorem respects_ofDisk {program : Disk α} (h : Respects R program) :
    Respects R (Handler.ofDisk program) := by
  intro t
  rw [treeAfter_ofDisk]
  exact h t

end Handler

/-! ## What a request may do -/

/-- What the handling of a request for a project, if it names one, does to the file tree. -/
def Archive.Serves (a : Archive) (named : Except GatewayError Project) (t s : FileTree) : Prop :=
  match named with
  | .ok p => a.Confines p IsOwnName t s
  | .error _ => s = t

theorem isFrame_serves (a : Archive) (named : Except GatewayError Project) :
    IsFrame (a.Serves named) := by
  cases named with
  | ok p => exact Archive.isFrame_confines a p IsOwnName
  | error e => exact ⟨fun _ => rfl, fun _ _ _ h h' => h'.trans h⟩

/-- A handler that is confined to the project, if there is one, and otherwise not even begun. -/
theorem respects_serves {named : Except GatewayError Project} {next : Project → Handler α}
    (h : ∀ p, named = .ok p → a.Confined p IsOwnName (next p)) :
    Respects (a.Serves named) (Handler.ofExcept named >>= next) := by
  cases named with
  | error e => exact fun t => rfl
  | ok p => exact h p rfl

/-! ## Endpoints -/

namespace Endpoint

theorem respects_getHistory (a : Archive) (r : Request) :
    Respects (a.Serves (projectOf r.headers)) (getHistory a r) :=
  respects_serves fun _ _ => Archive.confined_bind Archive.confined_get fun _ =>
    Archive.confined_pure _

theorem respects_clearHistory (a : Archive) (r : Request) :
    Respects (a.Serves (projectOf r.headers)) (clearHistory a r) :=
  respects_serves fun _ _ => Archive.confined_bind
    (Handler.respects_ofDisk Archive.confined_clear) fun _ => Archive.confined_pure _

theorem confined_ofExcept (result : Except GatewayError α) :
    a.Confined p IsOwnName (Handler.ofExcept result) := by
  cases result with
  | error e => exact Archive.confined_throw e
  | ok x => exact Archive.confined_pure x

theorem respects_changeRecord {change : Project → RecordId → Disk Bool}
    (h : ∀ p id, a.Confined p IsOwnName (change p id)) (limit : UInt64) (r : Request) :
    Respects (a.Serves (projectOf r.headers)) (changeRecord change limit r) := by
  refine respects_serves fun p _ => ?_
  refine Archive.confined_bind (confined_ofExcept _) fun body => ?_
  refine Archive.confined_bind (confined_ofExcept _) fun id => ?_
  exact Archive.confined_bind (Handler.respects_ofDisk (h p id)) fun _ => Archive.confined_pure _

end Endpoint

/-! ## Relays -/

namespace Relay

/-- A request that is relayed is for the project that its header names. -/
theorem inbound_eq_ok {limit : UInt64} {inbound : Inbound}
    (h : Relay.inbound limit r = .ok inbound) :
    bodyWithin limit r.body = .ok inbound.body ∧ projectOf r.headers = .ok inbound.project := by
  rw [Relay.inbound] at h
  obtain ⟨body, hbody, h⟩ := ok_of_bind h
  obtain ⟨project, hproject, h⟩ := ok_of_bind h
  obtain rfl := Except.ok.inj h
  exact ⟨hbody, hproject⟩

/-- What the conversion of every answer does, for the project of the request, the whole relay does. -/
theorem respects_finish {relay : Relay} (hR : IsFrame R)
    (h : ∀ p, projectOf r.headers = .ok p → ∀ request answer elapsed,
      Respects R (relay.convertAnswer p request answer elapsed))
    (limit : UInt64) (client : Client) (elapsed : UInt64) :
    Respects R (relay.forward limit client elapsed r).finish := by
  -- only an answer that is converted can touch a file
  have refused : ∀ e : GatewayError, Respects R (throw e : Handler Response) :=
    fun e => hR.of_unchanged fun _ => rfl
  have passed : ∀ response : Response, Respects R (pure response : Handler Response) :=
    fun response => hR.of_unchanged fun _ => rfl
  rw [forward]
  cases hin : Relay.inbound limit r with
  | error e => exact refused e
  | ok inbound =>
    simp only
    cases relay.call r inbound with
    | error e => exact refused e
    | ok call =>
      simp only
      cases (client.exchange call).result with
      | error failure => exact refused _
      | ok answer =>
        simp only
        rw [complete]
        split
        · exact hR.bind (h _ (inbound_eq_ok hin).2 _ _ _) fun _ => passed _
        · exact passed _

end Relay

/-! ## Requests -/

namespace Config

theorem tree_relayed (relay : Relay) :
    (c.relayed x relay r t).tree
      = treeAfter (relay.forward c.server.maxBodyBytes x.client x.elapsed r).finish t :=
  Handler.snd_respond _ t

theorem tree_answered (h : Handler Response) : (answered r h t).tree = treeAfter h t :=
  Handler.snd_respond h t

/-- Wherever a request is sent to, it does nothing but what its project is for. -/
theorem serves_dispatch (c : Config) (x : Circumstances) (r : Request) (t : FileTree)
    (destination : Destination) :
    c.archive.Serves (projectOf r.headers) t (c.dispatch x r t destination).tree := by
  have unchanged : c.archive.Serves (projectOf r.headers) t t := (isFrame_serves _ _).refl t
  cases destination with
  | parameters =>
    rw [dispatch, tree_relayed]
    exact Relay.respects_finish (isFrame_serves _ _)
      (fun _ _ _ _ _ => (isFrame_serves _ _).of_unchanged fun _ => rfl) _ _ _ t
  | generate =>
    rw [dispatch, tree_relayed]
    refine Relay.respects_finish (isFrame_serves _ _) (fun p named request answer elapsed => ?_)
      _ _ _ t
    rw [named]
    exact Archive.confined_bind
      (Handler.respects_ofDisk (Archive.confined_recordBatch _ _ _ _)) fun _ =>
        Archive.confined_pure _
  | getHistory =>
    rw [dispatch, tree_answered]
    exact Endpoint.respects_getHistory c.archive r t
  | clearHistory =>
    rw [dispatch, tree_answered]
    exact Endpoint.respects_clearHistory c.archive r t
  | moveForward =>
    rw [dispatch, tree_answered]
    exact Endpoint.respects_changeRecord (fun _ id => Archive.confined_moveForward id) _ r t
  | moveBack =>
    rw [dispatch, tree_answered]
    exact Endpoint.respects_changeRecord (fun _ id => Archive.confined_moveBack id) _ r t
  | remove =>
    rw [dispatch, tree_answered]
    exact Endpoint.respects_changeRecord (fun _ id => Archive.confined_remove id) _ r t
  | settings | health =>
    rw [dispatch, tree_answered]
    exact unchanged
  | result path | page path => exact unchanged

theorem serves_handle (c : Config) (x : Circumstances) (r : Request) (t : FileTree) :
    c.archive.Serves (projectOf r.headers) t (c.handle x r t).tree := by
  have unchanged : c.archive.Serves (projectOf r.headers) t t := (isFrame_serves _ _).refl t
  rw [handle]
  split
  · exact unchanged
  · simp only [route]
    split
    · split
      · exact serves_dispatch c x r t _
      · exact unchanged
    · exact serves_dispatch c x r t _

end Config

/-! ## What is left alone -/

namespace Project

variable {root loc : Location}

/-- The location of the settings, of a file of another project, or of anything outside the results
directory. -/
def IsForeign (p : Project) (root loc : Location) : Prop :=
  loc = root ++ [settingsName] ∨
    (∃ q name, q ≠ p ∧ IsOwnName name ∧ loc = q.place root ++ [name]) ∨ ¬ root <+: loc

theorem not_isForeign_file {name : String} (h : IsOwnName name) (p : Project) (root : Location) :
    ¬ p.IsForeign root (p.place root ++ [name]) := by
  rintro (settings | ⟨q, name', differs, -, same⟩ | outside)
  · exact place_append_ne_settings h p root settings
  · exact place_append_ne (Ne.symm differs) root name name' same
  · exact outside (p.isPrefix_place_append root name)

theorem not_isForeign_place (p : Project) (root : Location) :
    ¬ p.IsForeign root (p.place root) := by
  rintro (settings | ⟨q, name, -, own, same⟩ | outside)
  · -- no project has the name of the settings
    cases hp : p.isGlobal with
    | true =>
      rw [place_of_isGlobal hp] at settings
      simp at settings
    | false =>
      rw [place_of_not_isGlobal hp] at settings
      obtain ⟨-, names⟩ := List.append_inj' settings rfl
      exact p.name_ne_settingsName (List.singleton_inj.mp names)
  · exact place_append_ne_place own q p root same.symm
  · refine outside ?_
    rw [place]
    split
    · exact List.prefix_rfl
    · exact List.prefix_append root _

end Project

namespace Archive

/-- Between two trees only one project has been touched: the settings, the files of all other
projects and everything outside the results directory are the same. Where the path of the results
directory did not lead anywhere yet, directories may have been made where nothing was. -/
structure Isolated (a : Archive) (p : Project) (t s : FileTree) : Prop where
  touches : a.Touches p IsOwnName t s
  foreign : ∀ root loc, t.LeadsTo a.root root → p.IsForeign root loc → s.find? loc = t.find? loc
  existing : ∀ root loc entry, t.WouldLeadTo a.root root → p.IsForeign root loc →
    t.find? loc = some entry → s.find? loc = some entry
  ledger : ∀ root q, t.LeadsTo a.root root → q ≠ p → a.load q s = a.load q t

theorem isolated_of_touches (hs : t.IsSound) (hlinks : a.HasNoLinks t) (hsound : s.IsSound)
    (h : a.Touches p IsOwnName t s) : a.Isolated p t s where
  touches := h
  foreign := by
    intro root loc hroot foreign
    have at_root : a.IsAt root t := ⟨hs, hroot, (hasNoLinks_iff hroot).mp hlinks⟩
    rcases at_root.entry hsound h loc with same | ⟨-, -, rfl⟩ | ⟨name, own, rfl, -⟩
    · exact same
    · exact absurd foreign (p.not_isForeign_place root)
    · exact absurd foreign (Project.not_isForeign_file own p root)
  existing := by
    intro root loc entry hroot foreign found
    rcases h.entry loc with same | ⟨gone, -, -⟩ | ⟨⟨dir, name, led, own, rfl⟩, -⟩
    · exact same.trans found
    · exact absurd (gone.symm.trans found) (by simp)
    · have links := hlinks.of_sameLinks h.keeps.toSameLinks
      obtain ⟨root', led', rfl⟩ := leadsTo_projectDir links led
      obtain rfl := led'.eq_of_would (hroot.of_sameLinks h.keeps.toSameLinks.symm)
      exact absurd foreign (Project.not_isForeign_file own p root)
  ledger := by
    intro root q hroot differs
    have at_root : a.IsAt root t := ⟨hs, hroot, (hasNoLinks_iff hroot).mp hlinks⟩
    exact load_of_touches at_root hsound h (fun _ own => own) (.inl differs)

end Archive

/-- A request whose header names no project changes nothing; any other touches its project only. -/
theorem isolated_handle (c : Config) (x : Circumstances) (r : Request) (hs : t.IsSound)
    (hlinks : c.archive.HasNoLinks t) :
    (∀ e, projectOf r.headers = .error e → (c.handle x r t).tree = t) ∧
      ∀ p, projectOf r.headers = .ok p → (c.handle x r t).tree.IsSound ∧
        c.archive.HasNoLinks (c.handle x r t).tree ∧
        c.archive.Isolated p t (c.handle x r t).tree := by
  have serves := Config.serves_handle c x r t
  constructor
  · intro e refused
    rw [refused] at serves
    exact serves
  · intro p named
    rw [named] at serves
    obtain ⟨sound, touches⟩ := serves hs hlinks
    exact ⟨sound, hlinks.of_sameLinks touches.keeps.toSameLinks,
      Archive.isolated_of_touches hs hlinks sound touches⟩

/-! ## Clearing the global namespace -/

/-- A gateway that keeps its results in `results` and asks a backend on the same machine. -/
def localGateway : Config where
  server := .default
  backend := ⟨"[::1]", 1, "/", 1⟩
  storage := ⟨⟨"results"⟩, ⟨"web"⟩, none⟩

/-- Settings, and a project with a ledger. -/
def settingsAndDogs : FileTree where
  entries := [(["results"], .directory), (["results", "settings.json"], .file [123, 125]),
    (["results", "dogs"], .directory), (["results", "dogs", "history.json"], .file [91, 93])]
  workingDirectory := []

theorem isAt_settingsAndDogs : localGateway.archive.IsAt ["results"] settingsAndDogs := by
  refine ⟨isSound_of_entries (by decide) rfl, ⟨mostLinks, ?_⟩, ?_⟩
  · exact .down (by decide) rfl (.here _ _)
  · exact fun loc target _ _ => find?_ne_link (by simp [settingsAndDogs]) loc target

/-- A request to clear the global namespace. -/
def clearGlobal : Request := ⟨"POST", "/clear-history", none, [], []⟩

/-- The same request with a header that is no text. -/
def clearUnnamed : Request := { clearGlobal with headers := [("project", [255])] }

/-- No backend can be reached, and none has to be. -/
def offline : Circumstances := ⟨⟨fun _ => ⟨[], .error .unreachable⟩⟩, 0, fun _ => Archive.zeroToken⟩

theorem isolated_handle_clear :
    settingsAndDogs.IsSound ∧ localGateway.archive.HasNoLinks settingsAndDogs ∧
      projectOf clearGlobal.headers = .ok .global ∧
      projectOf clearUnnamed.headers = .error .projectNotText ∧
      (localGateway.handle offline clearUnnamed settingsAndDogs).tree = settingsAndDogs ∧
      (localGateway.handle offline clearGlobal settingsAndDogs).tree.find? ["results", "settings.json"]
        = some (.file [123, 125]) ∧
      (localGateway.handle offline clearGlobal settingsAndDogs).tree.find?
        ["results", "dogs", "history.json"] = some (.file [91, 93]) := by
  have sound := isAt_settingsAndDogs.sound
  have links := isAt_settingsAndDogs.hasNoLinks
  have unnamed : projectOf clearUnnamed.headers = .error .projectNotText := by decide +kernel
  obtain ⟨-, -, isolated⟩ := (isolated_handle localGateway offline clearGlobal sound links).2 .global rfl
  have settings := isolated.foreign _ (["results"] ++ [settingsName]) isAt_settingsAndDogs.leads
    (.inl rfl)
  have ledger := isolated.foreign _ (Project.dogs.place ["results"] ++ [ledgerName])
    isAt_settingsAndDogs.leads (.inr (.inl ⟨Project.dogs, ledgerName, by decide, .inl rfl, rfl⟩))
  refine ⟨sound, links, rfl, unnamed, ?_, settings, ledger⟩
  exact (isolated_handle localGateway offline clearUnnamed sound links).1 _ unnamed

end ImageGateway
