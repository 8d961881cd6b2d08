import ImageGateway.Config.Document
import ImageGateway.Storage.FileTree

/-!
# Loading the configuration

The value of a field comes from the environment, else from the configuration document, else it is
the default. A variable for a number counts only if it is one.
-/

namespace ImageGateway

open Storage (FilePath FileTree)

/-- The values of environment variables. -/
abbrev Environment := String → Option String

namespace Environment

/-- The natural number below a bound that a variable gives. -/
def number? (env : Environment) (bound : Nat) (name : String) : Option Nat :=
  (env name).bind fun value => Decimal.unsigned? bound value.toList

/-- The number of 16 bits that a variable gives. -/
def word16? (env : Environment) (name : String) : Option UInt16 :=
  (env.number? UInt16.size name).map UInt16.ofNat

/-- The number of 64 bits that a variable gives. -/
def word64? (env : Environment) (name : String) : Option UInt64 :=
  (env.number? UInt64.size name).map UInt64.ofNat

/-- The path that a variable gives. -/
def path? (env : Environment) (name : String) : Option FilePath := (env name).map FilePath.mk

end Environment

namespace Config

/-- The configuration with the changes of the environment. -/
def withEnvironment (c : Config) (env : Environment) : Config where
  server := { c.server with
    port := (env.word16? "DTC_SERVER_PORT").getD c.server.port
    bindHost := (env "DTC_BIND_HOST").getD c.server.bindHost }
  backend := { c.backend with
    port := (env.word16? "DTC_TARGET_PORT").getD c.backend.port
    host := (env "DTC_TARGET_HOST").getD c.backend.host
    requestTimeoutSecs :=
      (env.word64? "DTC_BACKEND_TIMEOUT").getD c.backend.requestTimeoutSecs }
  storage := { c.storage with
    resultsDir := (env.path? "DTC_RESULTS_DIR").getD c.storage.resultsDir
    webDir := (env.path? "DTC_WEB_DIR").getD c.storage.webDir }

/-- Why no configuration could be loaded. -/
inductive LoadError where
  | unreadable (fault : Storage.Fault)
  | notUtf8
  | document (position : Toml.Position)
  deriving DecidableEq, Repr

/-- The first line of the message for a configuration that could not be loaded. -/
def LoadError.message : LoadError → String
  | .unreadable fault => fault.message
  | .notUtf8 => "stream did not contain valid UTF-8"
  | .document position =>
    let number := fun (n : Nat) => String.ofList (Decimal.digits n)
    "TOML parse error at line " ++ number position.line ++ ", column " ++ number position.column

/-- The configuration that the content of a file gives. -/
def ofContent (c : Config) (content : Bytes) : Except LoadError Config :=
  match Bytes.toString? content with
  | none => .error .notUtf8
  | some text =>
    match c.ofDocument text.toList with
    | .ok c => .ok c
    | .error place => .error (.document (Toml.positionOf text.toList place))

/-- The configuration that a file gives. A file that is not there changes nothing. -/
def ofFile (c : Config) (t : FileTree) (file : FilePath) : Except LoadError Config :=
  if t.leadsSomewhere file then
    match t.readFile file with
    | .ok content => c.ofContent content
    | .error fault => .error (.unreadable fault)
  else .ok c

/-- Loads the configuration from a file, if one is given, and the environment. -/
def load (s : Surroundings) (env : Environment) (t : FileTree) (file : Option FilePath) :
    Except LoadError Config := do
  let c ← match file with
    | some file => (default s).ofFile t file
    | none => .ok (default s)
  .ok (c.withEnvironment env)

end Config

end ImageGateway
