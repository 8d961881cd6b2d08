import ImageGateway.Config.Document
import ImageGateway.Proofs.Toml.DistinctKeys

/-!
# What a document says about a field

A field is given by its name in the table of its section, or by its position if the section is an
array (`Field.given?`). A document that is taken over sets every field to the value that it gives
for that field, and leaves a field alone that it does not give (`effect_of_ofDocument`).
-/

set_option autoImplicit false

namespace ImageGateway.Config

open Toml (Place Value Members)
open Storage (FilePath)

/-! ## Fields -/

/-- The sections of a configuration. -/
inductive Section where
  | server
  | backend
  | storage
  deriving DecidableEq, Repr

namespace Section

/-- The part of a configuration that a section describes. -/
abbrev Part : Section → Type
  | .server => ServerConfig
  | .backend => BackendConfig
  | .storage => StorageConfig

/-- The part that a section describes. -/
def part : (s : Section) → Config → s.Part
  | .server => Config.server
  | .backend => Config.backend
  | .storage => Config.storage

/-- The name of a section in a document. -/
def name : Section → String
  | .server => "server"
  | .backend => "backend"
  | .storage => "storage"

/-- The fields of a section, as a document sets them. -/
def fields : (s : Section) → List (String × Setter s.Part)
  | .server => serverFields
  | .backend => backendFields
  | .storage => storageFields

/-- The names of the fields of a section, in the order in which an array gives them. -/
def fieldNames : Section → List String
  | .server => ["bind_host", "port", "max_body_bytes", "enable_cors"]
  | .backend => ["host", "port", "generate_path", "request_timeout_secs"]
  | .storage => ["results_dir", "web_dir", "defaults_file"]

theorem names_fields (s : Section) : s.fields.map Prod.fst = s.fieldNames := by
  cases s <;> rfl

theorem nodup_names (s : Section) : (s.fields.map Prod.fst).Nodup := by
  rw [names_fields]
  cases s <;> decide

end Section

/-- The fields of a configuration. -/
inductive Field where
  | bindHost
  | serverPort
  | maxBodyBytes
  | enableCors
  | backendHost
  | backendPort
  | generatePath
  | requestTimeout
  | resultsDir
  | webDir
  | defaultsFile
  deriving DecidableEq, Repr

namespace Field

/-- What a field holds. -/
abbrev Content : Field → Type
  | .bindHost | .backendHost | .generatePath => String
  | .serverPort | .backendPort => UInt16
  | .maxBodyBytes | .requestTimeout => UInt64
  | .enableCors => Bool
  | .resultsDir | .webDir => FilePath
  | .defaultsFile => Option FilePath

/-- The section that a field belongs to. -/
def home : Field → Section
  | .bindHost | .serverPort | .maxBodyBytes | .enableCors => .server
  | .backendHost | .backendPort | .generatePath | .requestTimeout => .backend
  | .resultsDir | .webDir | .defaultsFile => .storage

/-- The name of a field in its section. -/
def name : Field → String
  | .bindHost => "bind_host"
  | .serverPort | .backendPort => "port"
  | .maxBodyBytes => "max_body_bytes"
  | .enableCors => "enable_cors"
  | .backendHost => "host"
  | .generatePath => "generate_path"
  | .requestTimeout => "request_timeout_secs"
  | .resultsDir => "results_dir"
  | .webDir => "web_dir"
  | .defaultsFile => "defaults_file"

/-- What a field holds in the part of its section. -/
def inPart : (f : Field) → f.home.Part → f.Content
  | .bindHost => ServerConfig.bindHost
  | .serverPort => ServerConfig.port
  | .maxBodyBytes => ServerConfig.maxBodyBytes
  | .enableCors => ServerConfig.enableCors
  | .backendHost => BackendConfig.host
  | .backendPort => BackendConfig.port
  | .generatePath => BackendConfig.generatePath
  | .requestTimeout => BackendConfig.requestTimeoutSecs
  | .resultsDir => StorageConfig.resultsDir
  | .webDir => StorageConfig.webDir
  | .defaultsFile => StorageConfig.defaultsFile

/-- What a field holds in a configuration. -/
def get (f : Field) (c : Config) : f.Content := f.inPart (f.home.part c)

/-- What a value of a document means as the content of a field. -/
def read : (f : Field) → Place → Value → Except Place f.Content
  | .bindHost | .backendHost | .generatePath => text
  | .serverPort | .backendPort => word16
  | .maxBodyBytes | .requestTimeout => word64
  | .enableCors => truth
  | .resultsDir | .webDir => path
  | .defaultsFile => fun place v => (path place v).map some

end Field

/-- The fields that a section gives, by name. An array gives the first ones. -/
def sectionMembers (names : List String) : Value → Members
  | .table _ members => members
  | .array items => names.zip items
  | .tables items =>
    names.zip (items.map fun (place, members) => (place, .table .header members))
  | _ => []

/-- The value that a document gives for a field, with its place. -/
def Field.given? (f : Field) (members : Members) : Option (Place × Value) :=
  (members.lookup f.home.name).bind fun (_, v) =>
    (sectionMembers f.home.fieldNames v).lookup f.name

/-! ## Effects -/

section

variable {α β : Type} {fields : List (String × Setter α)} {name : String} {get : α → β}
  {members : Members} {x y : α}

/-- What a value at a place makes of an observation: which results are possible after it, given the
observation before. -/
abbrev Effect (β : Type) := Place → Value → β → β → Prop

/-- What becomes of an observation: the effect of the value that is given for it, or nothing if none
is given. -/
def Effect.Of (effect : Effect β) (given : Option (Place × Value)) (before after : β) : Prop :=
  match given with
  | some (place, v) => effect place v before after
  | none => after = before

/-- Among some fields there is one that acts on an observation, and no other one does. -/
structure ActsAlone (fields : List (String × Setter α)) (name : String) (get : α → β)
    (effect : Effect β) : Prop where
  known : name ∈ fields.map Prod.fst
  step : ∀ n set, (n, set) ∈ fields → ∀ place v x y, set place v x = .ok y →
    (n = name → effect place v (get x) (get y)) ∧ (n ≠ name → get y = get x)

/-- What members without a key twice make of an observation depends on one of them only. -/
theorem ActsAlone.effect_of_setMembers {effect : Effect β} (h : ActsAlone fields name get effect)
    (names : (members.map Prod.fst).Nodup) (run : setMembers fields members x = .ok y) :
    effect.Of (members.lookup name) (get x) (get y) := by
  induction members generalizing x with
  | nil =>
    cases run
    rfl
  | cons m rest ih =>
    obtain ⟨n, place, v⟩ := m
    obtain ⟨next, step, run⟩ := bind_eq_ok.mp run
    obtain ⟨new, names⟩ := List.nodup_cons.mp names
    have later := ih names run
    by_cases same : n = name
    · subst same
      obtain ⟨set, found⟩ : ∃ set, fields.lookup n = some set :=
        Option.ne_none_iff_exists'.mp fun none => lookup_eq_none_iff_not_mem.mp none h.known
      simp only [found] at step
      -- The key does not come again, so the rest leaves the observation as it is.
      rw [lookup_eq_none_iff_not_mem.mpr new] at later
      have kept : get y = get next := later
      rw [List.lookup_cons_self, kept]
      exact (h.step n set (mem_of_lookup found) place v x next step).1 rfl
    · -- Another field is set, or the key is unknown and nothing happens.
      have differs : (name == n) = false := by simpa using Ne.symm same
      have kept : get next = get x := by
        dsimp only at step
        split at step
        · rename_i set found
          exact (h.step n set (mem_of_lookup found) place v x next step).2 same
        · cases step
          rfl
      rw [List.lookup_cons, differs, ← kept]
      exact later

/-- Values that are given by position are members with the names of the fields. -/
theorem setItems_eq_setMembers (names : (fields.map Prod.fst).Nodup)
    (items : List (Place × Value)) (x : α) :
    setItems fields items x = setMembers fields ((fields.map Prod.fst).zip items) x := by
  -- Items are read off a shrinking list of fields, but members look their name up among all fields.
  suffices steps : ∀ part : List (String × Setter α),
      (∀ entry ∈ part, fields.lookup entry.1 = some entry.2) → ∀ items x,
      setItems part items x = setMembers fields ((part.map Prod.fst).zip items) x by
    exact steps fields (fun entry hentry => lookup_of_mem names hentry) items x
  intro part
  induction part with
  | nil => exact fun _ _ _ => rfl
  | cons entry part ih =>
    intro known items x
    obtain ⟨first, others⟩ := List.forall_mem_cons.mp known
    cases items with
    | nil => rfl
    | cons item items =>
      rw [setItems, setMembers, List.map_cons, List.zip_cons_cons, List.zip_cons_cons,
        List.foldlM_cons, List.foldlM_cons]
      simp only [first]
      exact congrArg (entry.2 item.1 item.2 x >>= ·) (funext fun x => ih others items x)

theorem nodup_names_zip (names : (fields.map Prod.fst).Nodup) (items : List (Place × Value)) :
    (((fields.map Prod.fst).zip items).map Prod.fst).Nodup := by
  rw [List.zip_eq_zip_take_min, List.map_fst_zip (by simp)]
  exact names.sublist (List.take_sublist _ _)

/-- A section sets its fields like the members that it amounts to, of which none comes twice. -/
theorem setMembers_of_setSection (names : (fields.map Prod.fst).Nodup) {place : Place} {v : Value}
    (distinct : v.HasDistinctKeys) (run : setSection fields place v x = .ok y) :
    setMembers fields (sectionMembers (fields.map Prod.fst) v) x = .ok y ∧
      ((sectionMembers (fields.map Prod.fst) v).map Prod.fst).Nodup := by
  cases v with
  | table origin members =>
    exact ⟨run, (Toml.Value.hasDistinctKeys_table.mp distinct).names⟩
  | array items =>
    exact ⟨(setItems_eq_setMembers names items x).symm.trans run, nodup_names_zip names items⟩
  | tables items =>
    exact ⟨(setItems_eq_setMembers names _ x).symm.trans run, nodup_names_zip names _⟩
  | dateTime text => exact ⟨run, List.nodup_nil⟩
  | _ => exact absurd run nofun

end

/-! ## Documents -/

/-- The effect of a section on its part. -/
def Section.effect (s : Section) : Effect s.Part :=
  fun place v before after => setSection s.fields place v before = .ok after

/-- The effect of a value on a field: it is what the field holds from then on. -/
def Field.effect (f : Field) : Effect f.Content :=
  fun place v _ after => f.read place v = .ok after

section

variable {n : String} {place : Place} {v : Value}

theorem of_mem_sections {set : Setter Config} (h : (n, set) ∈ sections) {c d : Config}
    (run : set place v c = .ok d) :
    (∃ part, n = "server" ∧ setSection serverFields place v c.server = .ok part ∧
      d = { c with server := part }) ∨
    (∃ part, n = "backend" ∧ setSection backendFields place v c.backend = .ok part ∧
      d = { c with backend := part }) ∨
    ∃ part, n = "storage" ∧ setSection storageFields place v c.storage = .ok part ∧
      d = { c with storage := part } := by
  simp only [sections, List.mem_cons, Prod.mk.injEq, List.not_mem_nil, or_false] at h
  rcases h with ⟨rfl, rfl⟩ | ⟨rfl, rfl⟩ | ⟨rfl, rfl⟩ <;>
    obtain ⟨part, ran, same⟩ := bind_eq_ok.mp run <;> cases same
  · exact .inl ⟨part, rfl, ran, rfl⟩
  · exact .inr (.inl ⟨part, rfl, ran, rfl⟩)
  · exact .inr (.inr ⟨part, rfl, ran, rfl⟩)

theorem of_mem_serverFields {set : Setter ServerConfig} (h : (n, set) ∈ serverFields)
    {c d : ServerConfig} (run : set place v c = .ok d) :
    (∃ b, n = "bind_host" ∧ text place v = .ok b ∧ d = { c with bindHost := b }) ∨
    (∃ b, n = "port" ∧ word16 place v = .ok b ∧ d = { c with port := b }) ∨
    (∃ b, n = "max_body_bytes" ∧ word64 place v = .ok b ∧ d = { c with maxBodyBytes := b }) ∨
    ∃ b, n = "enable_cors" ∧ truth place v = .ok b ∧ d = { c with enableCors := b } := by
  simp only [serverFields, List.mem_cons, Prod.mk.injEq, List.not_mem_nil, or_false] at h
  rcases h with ⟨rfl, rfl⟩ | ⟨rfl, rfl⟩ | ⟨rfl, rfl⟩ | ⟨rfl, rfl⟩ <;>
    obtain ⟨b, ran, same⟩ := bind_eq_ok.mp run <;> cases same
  · exact .inl ⟨b, rfl, ran, rfl⟩
  · exact .inr (.inl ⟨b, rfl, ran, rfl⟩)
  · exact .inr (.inr (.inl ⟨b, rfl, ran, rfl⟩))
  · exact .inr (.inr (.inr ⟨b, rfl, ran, rfl⟩))

theorem of_mem_backendFields {set : Setter BackendConfig} (h : (n, set) ∈ backendFields)
    {c d : BackendConfig} (run : set place v c = .ok d) :
    (∃ b, n = "host" ∧ text place v = .ok b ∧ d = { c with host := b }) ∨
    (∃ b, n = "port" ∧ word16 place v = .ok b ∧ d = { c with port := b }) ∨
    (∃ b, n = "generate_path" ∧ text place v = .ok b ∧ d = { c with generatePath := b }) ∨
    ∃ b, n = "request_timeout_secs" ∧ word64 place v = .ok b ∧
      d = { c with requestTimeoutSecs := b } := by
  simp only [backendFields, List.mem_cons, Prod.mk.injEq, List.not_mem_nil, or_false] at h
  rcases h with ⟨rfl, rfl⟩ | ⟨rfl, rfl⟩ | ⟨rfl, rfl⟩ | ⟨rfl, rfl⟩ <;>
    obtain ⟨b, ran, same⟩ := bind_eq_ok.mp run <;> cases same
  · exact .inl ⟨b, rfl, ran, rfl⟩
  · exact .inr (.inl ⟨b, rfl, ran, rfl⟩)
  · exact .inr (.inr (.inl ⟨b, rfl, ran, rfl⟩))
  · exact .inr (.inr (.inr ⟨b, rfl, ran, rfl⟩))

theorem of_mem_storageFields {set : Setter StorageConfig} (h : (n, set) ∈ storageFields)
    {c d : StorageConfig} (run : set place v c = .ok d) :
    (∃ b, n = "results_dir" ∧ path place v = .ok b ∧ d = { c with resultsDir := b }) ∨
    (∃ b, n = "web_dir" ∧ path place v = .ok b ∧ d = { c with webDir := b }) ∨
    ∃ b, n = "defaults_file" ∧ path place v = .ok b ∧ d = { c with defaultsFile := some b } := by
  simp only [storageFields, List.mem_cons, Prod.mk.injEq, List.not_mem_nil, or_false] at h
  rcases h with ⟨rfl, rfl⟩ | ⟨rfl, rfl⟩ | ⟨rfl, rfl⟩ <;>
    obtain ⟨b, ran, same⟩ := bind_eq_ok.mp run <;> cases same
  · exact .inl ⟨b, rfl, ran, rfl⟩
  · exact .inr (.inl ⟨b, rfl, ran, rfl⟩)
  · exact .inr (.inr ⟨b, rfl, ran, rfl⟩)

end

theorem actsAlone_section (s : Section) : ActsAlone sections s.name s.part s.effect := by
  refine ⟨by cases s <;> decide, fun n set found place v x y run => ?_⟩
  rcases of_mem_sections found run with ⟨part, rfl, ran, rfl⟩ | ⟨part, rfl, ran, rfl⟩ |
    ⟨part, rfl, ran, rfl⟩
  all_goals cases s
  all_goals first
  | exact ⟨fun _ => ran, fun differs => absurd rfl differs⟩
  | exact ⟨fun same => absurd same (by decide), fun _ => rfl⟩

theorem actsAlone_field (f : Field) : ActsAlone f.home.fields f.name f.inPart f.effect := by
  refine ⟨by cases f <;> decide, fun n set found place v x y run => ?_⟩
  cases f
  case bindHost | serverPort | maxBodyBytes | enableCors =>
    rcases of_mem_serverFields found run with ⟨b, rfl, read, rfl⟩ | ⟨b, rfl, read, rfl⟩ |
      ⟨b, rfl, read, rfl⟩ | ⟨b, rfl, read, rfl⟩
    all_goals first
    | exact ⟨fun _ => read, fun differs => absurd rfl differs⟩
    | exact ⟨fun same => absurd same (by decide), fun _ => rfl⟩
  case backendHost | backendPort | generatePath | requestTimeout =>
    rcases of_mem_backendFields found run with ⟨b, rfl, read, rfl⟩ | ⟨b, rfl, read, rfl⟩ |
      ⟨b, rfl, read, rfl⟩ | ⟨b, rfl, read, rfl⟩
    all_goals first
    | exact ⟨fun _ => read, fun differs => absurd rfl differs⟩
    | exact ⟨fun same => absurd same (by decide), fun _ => rfl⟩
  case resultsDir | webDir | defaultsFile =>
    rcases of_mem_storageFields found run with ⟨b, rfl, read, rfl⟩ | ⟨b, rfl, read, rfl⟩ |
      ⟨b, rfl, read, rfl⟩
    all_goals first
    | exact ⟨fun _ => read, fun differs => absurd rfl differs⟩
    | exact ⟨fun _ => map_eq_ok.mpr ⟨b, read, rfl⟩, fun differs => absurd rfl differs⟩
    | exact ⟨fun same => absurd same (by decide), fun _ => rfl⟩

/-- A document that is taken over sets the fields that it gives, and no others. -/
theorem effect_of_ofDocument {c c' : Config} {cs : List Char} (h : c.ofDocument cs = .ok c') :
    ∃ members, Toml.parse cs = .ok members ∧
      ∀ f : Field, f.effect.Of (f.given? members) (f.get c) (f.get c') := by
  obtain ⟨members, parsed, run⟩ := bind_eq_ok.mp h
  have distinct := Toml.hasDistinctKeys_of_parse parsed
  refine ⟨members, parsed, fun f => ?_⟩
  -- The same lemma is used twice: for the section among the members of the document, and for the
  -- field among those of the section.
  have part := (actsAlone_section f.home).effect_of_setMembers distinct.names run
  cases found : members.lookup f.home.name with
  | none =>
    rw [found] at part
    have nothing : f.given? members = none := by rw [Field.given?, found]; rfl
    rw [nothing]
    exact congrArg f.inPart part
  | some given =>
    obtain ⟨place, v⟩ := given
    rw [found] at part
    obtain ⟨run, names⟩ :=
      setMembers_of_setSection f.home.nodup_names (distinct.of_lookup found) part
    have inside := (actsAlone_field f).effect_of_setMembers names run
    have given : f.given? members
        = (sectionMembers (f.home.fields.map Prod.fst) v).lookup f.name := by
      rw [Field.given?, found, f.home.names_fields]
      rfl
    rw [given]
    exact inside

end ImageGateway.Config
