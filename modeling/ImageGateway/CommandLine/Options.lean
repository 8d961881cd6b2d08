import ImageGateway.CommandLine.Flags
import ImageGateway.Config.Load

/-!
# The options of the gateway

An option names a port or a path; the environment gives some of those that the command line leaves
out. Options are read in their order, and the first one that asks for help, asks for the version or
is wrong decides.
-/

namespace ImageGateway.CommandLine

open Storage (FilePath)

/-- What is told on the command line. -/
structure Options where
  serverPort : Option UInt16
  targetPort : Option UInt16
  configFile : Option FilePath
  resultsDir : Option FilePath
  webDir : Option FilePath
  deriving DecidableEq, Repr

/-- Why the gateway is not to be started. -/
inductive Stop where
  | help
  | version
  | misuse
  deriving DecidableEq, Repr

/-- The exit code of a gateway that is not started. -/
def Stop.exitCode : Stop → Nat
  | .help => 0
  | .version => 0
  | .misuse => 2

/-- The options that take a value. -/
inductive Setting where
  | serverPort
  | targetPort
  | configFile
  | resultsDir
  | webDir
  deriving DecidableEq, Repr

/-- What a flag is for. -/
inductive Flag where
  | setting (s : Setting)
  | help
  | version
  deriving DecidableEq, Repr

namespace Flag

/-- The flag with a long name. -/
def ofName? (name : String) : Option Flag :=
  match name with
  | "serverPort" => some (.setting .serverPort)
  | "targetPort" => some (.setting .targetPort)
  | "config" => some (.setting .configFile)
  | "results-dir" => some (.setting .resultsDir)
  | "web-dir" => some (.setting .webDir)
  | "help" => some .help
  | "version" => some .version
  | _ => none

/-- The flag with a name of one letter. -/
def ofLetter? (c : Char) : Option Flag :=
  if c = 'c' then some (.setting .configFile)
  else if c = 'h' then some .help
  else if c = 'V' then some .version
  else none

end Flag

namespace Options

/-- Options of which none is given. -/
def none : Options := ⟨.none, .none, .none, .none, .none⟩

/-- The number that a port is given by: digits, with a sign if wanted. -/
def portNumber? : List Char → Option Int
  | '-' :: cs => (Decimal.natural? cs).map fun n => -(n : Int)
  | cs => (Decimal.natural? (Decimal.unsignedDigits cs)).map Int.ofNat

/-- The port that a value gives. -/
def port? (value : String) : Option UInt16 :=
  (portNumber? value.toList).bind fun n =>
    if 0 ≤ n ∧ n < UInt16.size then some (UInt16.ofNat n.toNat) else Option.none

/-- The path that a value gives; it is not empty. -/
def path? (value : String) : Option FilePath := if value.isEmpty then Option.none else some ⟨value⟩

/-- Whether an option has been given. -/
def has (o : Options) : Setting → Bool
  | .serverPort => o.serverPort.isSome
  | .targetPort => o.targetPort.isSome
  | .configFile => o.configFile.isSome
  | .resultsDir => o.resultsDir.isSome
  | .webDir => o.webDir.isSome

/-- The options with one more, if its value is good. -/
def set? (o : Options) (s : Setting) (value : String) : Option Options :=
  match s with
  | .serverPort => (port? value).map fun n => { o with serverPort := some n }
  | .targetPort => (port? value).map fun n => { o with targetPort := some n }
  | .configFile => (path? value).map fun p => { o with configFile := some p }
  | .resultsDir => (path? value).map fun p => { o with resultsDir := some p }
  | .webDir => (path? value).map fun p => { o with webDir := some p }

/-- The options with one more, which must not have been given before. -/
def add (o : Options) (s : Setting) (value : String) : Except Stop Options :=
  if o.has s then .error .misuse
  else match o.set? s value with
    | some o => .ok o
    | .none => .error .misuse

end Options

/-! ## Reading the arguments -/

/-- An argument as it is written. -/
inductive Argument where
  /-- A flag, with the value that is attached to it. -/
  | flag (f : Flag) (value : Option String)
  | terminator
  | other
  deriving DecidableEq, Repr

namespace Argument

/-- The value behind an equals sign. -/
def attached? : List Char → Option String
  | '=' :: cs => some (String.ofList cs)
  | _ => none

/-- What an argument is. -/
def ofString (arg : String) : Argument :=
  match arg.toList with
  | ['-', '-'] => .terminator
  | '-' :: '-' :: rest =>
    let name := rest.takeWhile (· ≠ '=')
    match Flag.ofName? (String.ofList name) with
    | some f => .flag f (attached? (rest.drop name.length))
    | none => .other
  | '-' :: c :: rest =>
    match Flag.ofLetter? c with
    | some (.setting s) =>
      if rest.isEmpty then .flag (.setting s) none
      else .flag (.setting s) (some ((attached? rest).getD (String.ofList rest)))
    | some f => .flag f none
    | none => .other
  | _ => .other

/-- Whether an argument can be the value of the option before it. -/
def canBeValue (arg : String) : Bool := arg = "-" || arg.toList.head? != some '-'

end Argument

/-- Adds the options that the arguments give. -/
def readArguments (o : Options) : List String → Except Stop Options
  | [] => .ok o
  | arg :: rest =>
    match Argument.ofString arg with
    | .terminator => if rest.isEmpty then .ok o else .error .misuse
    | .other => .error .misuse
    | .flag .help value => .error (if value.isSome then .misuse else .help)
    | .flag .version value => .error (if value.isSome then .misuse else .version)
    | .flag (.setting s) (some value) => do readArguments (← o.add s value) rest
    | .flag (.setting s) none =>
      match rest with
      | [] => .error .misuse
      | value :: rest =>
        if Argument.canBeValue value then do readArguments (← o.add s value) rest
        else .error .misuse

/-- The variables that stand in for options that are not given. -/
def optionVariables : List (Setting × String) :=
  [(.serverPort, "DTC_SERVER_PORT"), (.targetPort, "DTC_TARGET_PORT"),
    (.resultsDir, "DTC_RESULTS_DIR"), (.webDir, "DTC_WEB_DIR")]

/-- Adds the option that a variable gives, unless it has been given before. -/
def addVariable (env : Environment) (o : Options) (s : Setting) (name : String) :
    Except Stop Options :=
  match env name with
  | some value => if o.has s then .ok o else o.add s value
  | none => .ok o

/-- The options that a command line and the environment give. -/
def Options.ofArguments (env : Environment) (commandLine : List String) : Except Stop Options := do
  let o ← readArguments .none ((withDoubleDashes commandLine).drop 1)
  optionVariables.foldlM (fun o (s, name) => addVariable env o s name) o

/-- The configuration with the changes of the options. -/
def Options.apply (o : Options) (c : Config) : Config where
  server := { c.server with port := o.serverPort.getD c.server.port }
  backend := { c.backend with port := o.targetPort.getD c.backend.port }
  storage := { c.storage with
    resultsDir := o.resultsDir.getD c.storage.resultsDir
    webDir := o.webDir.getD c.storage.webDir }

end ImageGateway.CommandLine
