import ImageGateway.Proofs.CommandLine.Gathering
import ImageGateway.Proofs.Config.Documents
import ImageGateway.Startup

/-!
# Where the configuration comes from

The content of a field is decided by the strongest of its own sources that gives it one: its flag,
its variable, the configuration document, and at last the default (`Sources.Decide`). The gateway
is started with the configuration in which every field is decided so (`config_of_sources`).

Ports are read from variables twice. The options accept a minus sign before zeros, and loading the
configuration does not; so such a variable counts as zero (`portOfVariable?`).
-/

set_option autoImplicit false

namespace ImageGateway.Config

open CommandLine (Setting Options Tells Gathers)
open Storage (FilePath FileTree)
open Toml (Place Value Members)

/-! ## Ports from variables -/

/-- Whether a text is a minus sign with one or more zeros. -/
def isNegativeZero : List Char → Bool
  | '-' :: cs => !cs.isEmpty && cs.all (· = '0')
  | _ => false

/-- The port that a variable gives: a number of 16 bits with an optional plus sign, or zero with a
minus sign. -/
def portOfVariable? (value : String) : Option UInt16 :=
  if isNegativeZero value.toList then some 0
  else (Decimal.unsigned? UInt16.size value.toList).map UInt16.ofNat

theorem toNat_sub_eq_zero_iff {c : Char} (h : c.isDigit = true) :
    c.toNat - '0'.toNat = 0 ↔ c = '0' := by
  have least : '0'.toNat ≤ c.toNat :=
    UInt32.le_iff_toNat_le.mp (of_decide_eq_true (Bool.and_eq_true_iff.mp h).1)
  rw [Nat.sub_eq_zero_iff_le, ← Char.toNat_inj]
  exact ⟨fun most => Nat.le_antisymm most least, Nat.le_of_eq⟩

/-- Only zeros are the digits of zero. -/
theorem ofDigitChars_eq_zero_iff {cs : List Char} (h : cs.all Char.isDigit = true) :
    Nat.ofDigitChars 10 cs 0 = 0 ↔ cs.all (· = '0') = true := by
  induction cs with
  | nil => simp
  | cons c cs ih =>
    obtain ⟨digit, digits⟩ := Bool.and_eq_true_iff.mp (List.all_cons ▸ h)
    have positive : 0 < 10 ^ cs.length := Nat.pow_pos (by decide)
    rw [Nat.ofDigitChars_cons, Nat.ofDigitChars_eq_ofDigitChars_zero, Nat.mul_zero, Nat.zero_add,
      Nat.add_eq_zero_iff, Nat.mul_eq_zero, ih digits, toNat_sub_eq_zero_iff digit, List.all_cons,
      Bool.and_eq_true, decide_eq_true_iff]
    exact and_congr_left' (or_iff_right (Nat.ne_of_gt positive))

/-- A minus sign makes a port only of zeros. -/
theorem natural?_of_isNegativeZero (cs : List Char) :
    isNegativeZero ('-' :: cs) = true ↔ Decimal.natural? cs = some 0 := by
  rw [isNegativeZero, Decimal.natural?]
  cases empty : cs.isEmpty with
  | true => simp
  | false =>
    cases digits : cs.all Char.isDigit with
    | true => simp [ofDigitChars_eq_zero_iff digits]
    | false =>
      have zeros : ¬ cs.all (· = '0') = true := fun zeros => by
        have all : cs.all Char.isDigit = true := List.all_eq_true.mpr fun c hc => by
          rw [of_decide_eq_true (List.all_eq_true.mp zeros c hc)]
          decide
        exact Bool.false_ne_true (digits.symm.trans all)
      simpa using zeros

/-- Checking the bounds of an integer is checking the bound of the number that it is. -/
theorem bind_below {α : Type} (bound : Nat) (n? : Option Nat) (f : Nat → α) :
    ((n?.map Int.ofNat).bind fun i => if 0 ≤ i ∧ i < bound then some (f i.toNat) else none)
      = (n?.filter (· < bound)).map f := by
  cases n? with
  | none => rfl
  | some n =>
    by_cases fits : n < bound
    · simp [Option.filter, fits]
    · simp [Option.filter, fits]

/-- The options read a port in the same way. -/
theorem port?_eq (value : String) : Options.port? value = portOfVariable? value := by
  rw [Options.port?, portOfVariable?, Decimal.unsigned?]
  unfold Options.portNumber?
  split
  · -- With a minus sign the loader reads no number, and the options read one that is not positive.
    rename_i cs chars
    have notDigits : Decimal.natural? (Decimal.unsignedDigits ('-' :: cs)) = none := by
      simp [Decimal.unsignedDigits, Decimal.natural?]
    rw [chars, notDigits]
    by_cases zero : isNegativeZero ('-' :: cs) = true
    · rw [if_pos zero, (natural?_of_isNegativeZero cs).mp zero]
      rfl
    · rw [if_neg zero]
      cases found : Decimal.natural? cs with
      | none => rfl
      | some n =>
        have positive : n ≠ 0 := fun same =>
          zero ((natural?_of_isNegativeZero cs).mpr (found.trans (congrArg some same)))
        exact if_neg fun (between : 0 ≤ -(n : Int) ∧ -(n : Int) < UInt16.size) => by omega
  · rename_i notMinus
    have notNegative : isNegativeZero value.toList = false := by
      unfold isNegativeZero
      split
      · rename_i cs chars
        exact absurd chars (notMinus cs)
      · rfl
    rw [notNegative]
    exact bind_below UInt16.size _ UInt16.ofNat

/-! ## Sources -/

/-- Where the content of a field may come from. -/
structure Sources (α : Type) where
  /-- The values that its flag is given on the command line. -/
  told : String → Prop
  /-- What such a value means. -/
  ofText? : String → Option α
  /-- What its variable gives, if it is set and accepted. -/
  said : Option α
  /-- The value in the configuration document, with its place. -/
  given : Option (Place × Value)
  /-- What such a value means. -/
  ofValue : Place → Value → Except Place α
  default : α

/-- The strongest source that gives a content decides it: the flag, the variable, the document, the
default. -/
structure Sources.Decide {α : Type} (sources : Sources α) (x : α) : Prop where
  told : ∀ value, sources.told value → sources.ofText? value = some x
  said : (∀ value, ¬ sources.told value) → ∀ y, sources.said = some y → x = y
  given : (∀ value, ¬ sources.told value) → sources.said = none →
    ∀ place v, sources.given = some (place, v) → sources.ofValue place v = .ok x
  nothing : (∀ value, ¬ sources.told value) → sources.said = none → sources.given = none →
    x = sources.default

/-- Sources decide one content only. -/
theorem Sources.Decide.unique {α : Type} {sources : Sources α} {x y : α} (hx : sources.Decide x)
    (hy : sources.Decide y) : x = y := by
  by_cases flag : ∃ value, sources.told value
  · obtain ⟨value, told⟩ := flag
    exact Option.some.inj ((hx.told value told).symm.trans (hy.told value told))
  have untold := not_exists.mp flag
  cases said : sources.said with
  | some z => exact (hx.said untold z said).trans (hy.said untold z said).symm
  | none =>
    cases given : sources.given with
    | some value =>
      obtain ⟨place, v⟩ := value
      exact Except.ok.inj
        ((hx.given untold said place v given).symm.trans (hy.given untold said place v given))
    | none => exact (hx.nothing untold said given).trans (hy.nothing untold said given).symm

namespace Field

/-- The option for a field, if there is one. -/
def setting? : Field → Option Setting
  | .serverPort => some .serverPort
  | .backendPort => some .targetPort
  | .resultsDir => some .resultsDir
  | .webDir => some .webDir
  | _ => none

/-- The arguments tell a field a value. -/
def Told (f : Field) (args : List String) (value : String) : Prop :=
  ∃ s, f.setting? = some s ∧ Tells args s value

/-- What the value of a flag means as the content of a field. -/
def ofText? : (f : Field) → String → Option f.Content
  | .serverPort | .backendPort => Options.port?
  | .resultsDir | .webDir => Options.path?
  | .bindHost | .maxBodyBytes | .enableCors | .backendHost | .generatePath | .requestTimeout
  | .defaultsFile => fun _ => none

/-- What the environment says about a field. -/
def said? (env : Environment) : (f : Field) → Option f.Content
  | .bindHost => env "DTC_BIND_HOST"
  | .serverPort => (env "DTC_SERVER_PORT").bind portOfVariable?
  | .backendHost => env "DTC_TARGET_HOST"
  | .backendPort => (env "DTC_TARGET_PORT").bind portOfVariable?
  | .requestTimeout => env.word64? "DTC_BACKEND_TIMEOUT"
  | .resultsDir => (env "DTC_RESULTS_DIR").map FilePath.mk
  | .webDir => (env "DTC_WEB_DIR").map FilePath.mk
  | .maxBodyBytes | .enableCors | .generatePath | .defaultsFile => none

/-- The sources of a field. -/
def sources (f : Field) (s : Surroundings) (env : Environment) (args : List String)
    (members : Members) : Sources f.Content where
  told := f.Told args
  ofText? := f.ofText?
  said := f.said? env
  given := f.given? members
  ofValue := f.read
  default := f.get (.default s)

end Field

/-! ## Loading -/

/-- What the environment says about a field when the configuration is loaded. -/
def Field.loaded? (env : Environment) : (f : Field) → Option f.Content
  | .serverPort => env.word16? "DTC_SERVER_PORT"
  | .backendPort => env.word16? "DTC_TARGET_PORT"
  | f => f.said? env

theorem get_withEnvironment (c : Config) (env : Environment) (f : Field) :
    f.get (c.withEnvironment env) = (f.loaded? env).getD (f.get c) := by
  cases f <;> rfl

/-- The members of a configuration document. A file that is not there has none. -/
def membersOf? (t : FileTree) : Option FilePath → Option Members
  | none => some []
  | some file =>
    if t.leadsSomewhere file then
      (t.readFile file).toOption.bind fun content =>
        (Bytes.toString? content).bind fun text => (Toml.parse text.toList).toOption
    else some []

section

variable {s : Surroundings} {env : Environment} {t : FileTree} {file : Option FilePath}

/-- A configuration that the content of a file gives follows the document there. -/
theorem of_ofContent {c base : Config} {content : Bytes} (h : c.ofContent content = .ok base) :
    ∃ text members, Bytes.toString? content = some text ∧ Toml.parse text.toList = .ok members ∧
      ∀ f : Field, f.effect.Of (f.given? members) (f.get c) (f.get base) := by
  rw [ofContent] at h
  split at h
  · exact absurd h nofun
  · rename_i text decoded
    split at h
    · rename_i document
      cases h
      obtain ⟨members, parsed, effects⟩ := effect_of_ofDocument document
      exact ⟨text, members, decoded, parsed, effects⟩
    · exact absurd h nofun

/-- A configuration that a file gives follows the document there, if the file is there at all. -/
theorem of_ofFile {c base : Config} {path : FilePath} (h : c.ofFile t path = .ok base) :
    ∃ members, membersOf? t (some path) = some members ∧
      ∀ f : Field, f.effect.Of (f.given? members) (f.get c) (f.get base) := by
  rw [ofFile] at h
  split at h
  · rename_i there
    split at h
    · rename_i content read
      obtain ⟨text, members, decoded, parsed, effects⟩ := of_ofContent h
      refine ⟨members, ?_, effects⟩
      simp [membersOf?, there, read, decoded, parsed, Except.toOption]
    · exact absurd h nofun
  · rename_i notThere
    cases h
    exact ⟨[], if_neg notThere, fun _ => rfl⟩

/-- A configuration that has been loaded follows the document, and then the environment. -/
theorem of_load {loaded : Config} (h : load s env t file = .ok loaded) :
    ∃ members, membersOf? t file = some members ∧ ∃ base : Config,
      loaded = base.withEnvironment env ∧
      ∀ f : Field, f.effect.Of (f.given? members) (f.get (.default s)) (f.get base) := by
  cases file with
  | none =>
    cases h
    exact ⟨[], rfl, _, rfl, fun _ => rfl⟩
  | some path =>
    obtain ⟨base, based, same⟩ := bind_eq_ok.mp h
    cases same
    obtain ⟨members, read, effects⟩ := of_ofFile based
    exact ⟨members, read, base, rfl, effects⟩

end

/-! ## Starting -/

/-- What options hold for a field. -/
def Field.held? (o : Options) : (f : Field) → Option f.Content
  | .serverPort => o.serverPort
  | .backendPort => o.targetPort
  | .resultsDir => o.resultsDir
  | .webDir => o.webDir
  | .bindHost | .maxBodyBytes | .enableCors | .backendHost | .generatePath | .requestTimeout
  | .defaultsFile => none

theorem get_apply (o : Options) (c : Config) (f : Field) :
    f.get (o.apply c) = (f.held? o).getD (f.get c) := by
  cases f <;> rfl

section

variable {s : Surroundings} {env : Environment} {args : List String} {o : Options}

/-- A flag decides, whatever its variable says. -/
theorem held_of_told (gathered : ∀ s, Gathers args env s (o.get? s)) {f : Field} {value : String}
    (told : f.Told args value) : ∃ x, f.ofText? value = some x ∧ f.held? o = some x := by
  obtain ⟨s, setting, told⟩ := told
  cases f <;> cases setting <;> exact (gathered _).told value told

/-- Without a flag, an option holds what its variable gives, so that it makes no difference that the
variable has been looked at before. -/
theorem getD_of_untold {s : Setting} {held said loaded : Option s.Content}
    (gathered : Gathers args env s held) (untold : ∀ value, ¬ Tells args s value)
    (hread : ∀ value, s.variable? env = some value → ∀ x, s.read? value = some x → said = some x)
    (hunset : s.variable? env = none → said = none ∧ loaded = none) (base : s.Content) :
    held.getD (loaded.getD base) = said.getD base := by
  cases set : s.variable? env with
  | some value =>
    obtain ⟨x, read, rfl⟩ := gathered.said untold value set
    rw [hread value set x read]
    rfl
  | none =>
    obtain ⟨rfl, rfl⟩ := hunset set
    rw [gathered.nothing untold set]
    rfl

theorem path?_eq_some {value : String} {x : FilePath} (h : Options.path? value = some x) :
    x = ⟨value⟩ := by
  rw [Options.path?] at h
  split at h
  · exact absurd h nofun
  · exact (Option.some.inj h).symm

theorem port_of_variable {name value : String} {x : UInt16} (set : env name = some value)
    (read : Options.port? value = some x) : (env name).bind portOfVariable? = some x := by
  rw [set, ← read, port?_eq]
  rfl

theorem path_of_variable {name value : String} {x : FilePath} (set : env name = some value)
    (read : Options.path? value = some x) : (env name).map FilePath.mk = some x := by
  rw [set, path?_eq_some read]
  rfl

theorem port_of_unset {name : String} (unset : env name = none) :
    (env name).bind portOfVariable? = none ∧ env.word16? name = none := by
  rw [Environment.word16?, Environment.number?, unset]
  exact ⟨rfl, rfl⟩

theorem path_of_unset {name : String} (unset : env name = none) :
    (env name).map FilePath.mk = none := by
  rw [unset]
  rfl

/-- Without a flag, a field has what its variable gives, else what it had before. -/
theorem get_of_untold (gathered : ∀ s, Gathers args env s (o.get? s)) {f : Field}
    (untold : ∀ value, ¬ f.Told args value) (base : Config) :
    f.get (o.apply (base.withEnvironment env)) = (f.said? env).getD (f.get base) := by
  rw [get_apply, get_withEnvironment]
  have untells : ∀ s, f.setting? = some s → ∀ value, ¬ Tells args s value :=
    fun s setting value told => untold value ⟨s, setting, told⟩
  -- four fields have a flag and a variable, the others have neither
  cases f
  case serverPort =>
    exact getD_of_untold (gathered .serverPort) (untells _ rfl)
      (fun _ set _ read => port_of_variable set read) (fun unset => port_of_unset unset) _
  case backendPort =>
    exact getD_of_untold (gathered .targetPort) (untells _ rfl)
      (fun _ set _ read => port_of_variable set read) (fun unset => port_of_unset unset) _
  case resultsDir =>
    exact getD_of_untold (gathered .resultsDir) (untells _ rfl)
      (fun _ set _ read => path_of_variable set read)
      (fun unset => ⟨path_of_unset unset, path_of_unset unset⟩) _
  case webDir =>
    exact getD_of_untold (gathered .webDir) (untells _ rfl)
      (fun _ set _ read => path_of_variable set read)
      (fun unset => ⟨path_of_unset unset, path_of_unset unset⟩) _
  all_goals rfl

theorem config?_withConfig (c : Config) (t : FileTree) :
    (Start.withConfig c t).1.config? = some c := by
  unfold Start.withConfig
  split
  · rfl
  · rfl
  · split <;> rfl

/-- What a run that has a configuration has read. -/
theorem of_config? {commandLine : List String} {t : FileTree} {c : Config}
    (h : (Start.run s env commandLine t).1.config? = some c) :
    ∃ o loaded, Options.ofArguments env commandLine = .ok o ∧
      load s env t o.configFile = .ok loaded ∧ c = o.apply loaded := by
  unfold Start.run at h
  split at h
  · exact absurd h nofun
  · rename_i o understood
    split at h
    · exact absurd h nofun
    · rename_i loaded read
      rw [config?_withConfig] at h
      exact ⟨o, loaded, understood, read, (Option.some.inj h).symm⟩

/-- Options over a configuration that follows a document have what the sources decide. -/
theorem decide_get (gathered : ∀ s, Gathers args env s (o.get? s)) {members : Members}
    {base : Config} {f : Field}
    (effect : f.effect.Of (f.given? members) (f.get (.default s)) (f.get base)) :
    (f.sources s env args members).Decide (f.get (o.apply (base.withEnvironment env))) := by
  -- flag, variable, document and default, in the order of their precedence
  refine ⟨fun value told => ?_, fun untold y said => ?_, fun untold unsaid place v given => ?_,
    fun untold unsaid absent => ?_⟩
  · obtain ⟨x, read, held⟩ := held_of_told gathered told
    rw [get_apply, held]
    exact read
  · have said : f.said? env = some y := said
    rw [get_of_untold gathered untold, said]
    rfl
  · have unsaid : f.said? env = none := unsaid
    have given : f.given? members = some (place, v) := given
    rw [get_of_untold gathered untold, unsaid]
    rw [given] at effect
    exact effect
  · have unsaid : f.said? env = none := unsaid
    have absent : f.given? members = none := absent
    rw [get_of_untold gathered untold, unsaid]
    rw [absent] at effect
    exact effect

end

/-- The gateway is started with the configuration that its sources decide, field by field, and the
document among them is the one that is told on the command line. A field that no option is for is as
it has been loaded. -/
theorem config_of_sources {s : Surroundings} {env : Environment} {commandLine : List String}
    {t : FileTree} {c : Config} (h : (Start.run s env commandLine t).1.config? = some c) :
    ∃ file members loaded,
      (∀ value, Tells (commandLine.drop 1) .configFile value → file = some ⟨value⟩) ∧
      ((∀ value, ¬ Tells (commandLine.drop 1) .configFile value) → file = none) ∧
      membersOf? t file = some members ∧
      load s env t file = .ok loaded ∧
      (∀ f : Field, f.setting? = none → f.get c = f.get loaded) ∧
      ∀ (f : Field) (x : f.Content),
        (f.sources s env (commandLine.drop 1) members).Decide x ↔ x = f.get c := by
  obtain ⟨o, loaded, understood, read, rfl⟩ := of_config? h
  have gathered := CommandLine.gathers_of_ofArguments understood
  obtain ⟨members, document, base, rfl, effects⟩ := of_load read
  -- The file with the configuration has a flag but no variable, so without the flag there is none.
  refine ⟨o.configFile, members, _, fun value told => ?_, fun untold => ?_, document, read,
    fun f noOption => ?_, fun f x => ?_⟩
  · obtain ⟨x, parsed, held⟩ := (gathered .configFile).told value told
    rw [← path?_eq_some parsed]
    exact held
  · exact (gathered .configFile).nothing untold rfl
  · rw [get_apply]
    cases f <;> first | rfl | exact absurd noOption nofun
  · have decided := decide_get gathered (effects f)
    exact ⟨fun other => other.unique decided, fun same => same ▸ decided⟩

/-- A home directory, and a program in another one. -/
def homeAndProgram : Surroundings := ⟨⟨"home"⟩, ⟨"bin"⟩⟩

/-- An environment with a port for the gateway and a host for the backend. -/
def hostEnvironment : Environment := fun name =>
  [("DTC_SERVER_PORT", "83"), ("DTC_TARGET_HOST", "a")].lookup name

/-- A configuration document with a host for the backend. -/
def hostDocument : FileTree where
  entries := [(["c.toml"], .file (Bytes.ofString "[backend]\nhost = 'b'\n"))]
  workingDirectory := []

/-- A command line with a flag behind one dash and a flag behind two. -/
def flagsCommandLine : List String := ["image-gateway", "-serverPort=81", "--config", "c.toml"]

/-- The flag goes before its variable, and the variable before the document. -/
theorem config_of_sources_flag_variable : ∃ c,
    (Start.run homeAndProgram hostEnvironment flagsCommandLine hostDocument).1.config? = some c ∧
      c.server.port = 81 ∧ c.backend.host = "a" := by
  have evaluated : (Start.run homeAndProgram hostEnvironment flagsCommandLine
      hostDocument).1.config?.isSome = true := by
    decide +kernel
  obtain ⟨c, run⟩ := Option.isSome_iff_exists.mp evaluated
  obtain ⟨-, members, -, -, -, -, -, -, decided⟩ := config_of_sources run
  have tells : Tells ["-serverPort=81", "--config", "c.toml"] .serverPort "81" :=
    ⟨"-serverPort", by decide, .inl (by decide)⟩
  have read : Options.port? "81" = some 81 := by decide
  have port := ((decided .serverPort _).mpr rfl).told "81" ⟨.serverPort, rfl, tells⟩
  simp only [Field.sources, Field.ofText?, read] at port
  have host : Field.backendHost.get c = "a" :=
    ((decided .backendHost _).mpr rfl).said (fun _ told => nomatch told.choose_spec.1) "a" rfl
  exact ⟨c, run, (Option.some.inj port).symm, host⟩

/-- An environment with a port that is a negative zero. -/
def negativeZero : Environment := fun name =>
  [("DTC_TARGET_PORT", "-0"), ("DTC_BACKEND_TIMEOUT", "0")].lookup name

/-- A negative zero is no number of 16 bits, but without any flag or document it takes the place of
the default. -/
theorem negativeZero_counts :
    (∀ s value, ¬ Tells [] s value) ∧ negativeZero "DTC_TARGET_PORT" = some "-0" ∧
      Decimal.unsigned? UInt16.size "-0".toList = none ∧
      ((Start.run homeAndProgram negativeZero ["image-gateway"] FileTree.empty).1.config?.map
        fun c => c.backend.port) = some 0 ∧
      (Config.default homeAndProgram).backend.port = 7860 := by
  exact ⟨fun _ _ => CommandLine.not_tells_nil, by decide, by decide, by decide +kernel, rfl⟩

end ImageGateway.Config
