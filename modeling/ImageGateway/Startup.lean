import ImageGateway.Archive.Settings
import ImageGateway.CommandLine.Options

/-!
# Starting the gateway

Reading the options and the configuration, checking them, and preparing the results directory. An
existing settings document is never written to.
-/

namespace ImageGateway

open Storage (FilePath FileTree)

/-! ## Preparing the results directory -/

/-- Why the results directory could not be prepared. -/
inductive PrepareError where
  | resultsDir (dir : FilePath) (fault : Storage.Fault)
  | settings (e : Storage.Error)
  deriving DecidableEq, Repr

/-- The message for a results directory that could not be prepared, followed by its causes. -/
def PrepareError.chain : PrepareError → List String
  | .resultsDir dir fault =>
    ["Failed to create results directory " ++ Text.quoted dir.text, fault.message]
  | .settings e => e.chain

/-- Makes the results directory and puts the defaults in place of settings that are missing. -/
def StorageConfig.prepare (c : StorageConfig) : EStateM PrepareError FileTree Unit := fun t =>
  match t.makeDirs c.resultsDir with
  | (.error fault, t) => .error (.resultsDir c.resultsDir fault) t
  | (.ok (), t) =>
    match (Archive.mk c.resultsDir).seedSettings c.defaultsPath t with
    | .ok _ t => .ok () t
    | .error e t => .error (.settings e) t

/-! ## Starting -/

/-- Why the gateway could not be started. -/
inductive StartError where
  | config (fault : Config.Fault)
  | prepare (e : PrepareError)
  deriving DecidableEq, Repr

/-- The message for a gateway that could not be started. -/
def StartError.message : StartError → String
  | .config fault => fault.message
  | .prepare e => e.chain.headD ""

/-- What came of starting the gateway. -/
inductive Start where
  /-- The command line did not ask for it. -/
  | stopped (reason : CommandLine.Stop)
  /-- There is no configuration. -/
  | unconfigured (e : Config.LoadError)
  /-- The configuration was loaded, but is of no use. -/
  | failed (c : Config) (e : StartError)
  /-- The gateway is ready to listen. -/
  | ready (c : Config) (address : Net.SocketAddress)

namespace Start

/-- Checks the configuration and prepares the results directory. -/
def withConfig (c : Config) (t : FileTree) : Start × FileTree :=
  match c.fault?, c.server.socketAddress? with
  | some fault, _ => (.failed c (.config fault), t)
  | none, none => (.failed c (.config .socketAddress), t)
  | none, some address =>
    match c.storage.prepare t with
    | .ok () t => (.ready c address, t)
    | .error e t => (.failed c (.prepare e), t)

/-- Starts the gateway, up to the point where it listens. -/
def run (s : Surroundings) (env : Environment) (commandLine : List String) (t : FileTree) :
    Start × FileTree :=
  match CommandLine.Options.ofArguments env commandLine with
  | .error reason => (.stopped reason, t)
  | .ok options =>
    match Config.load s env t options.configFile with
    | .error e => (.unconfigured e, t)
    | .ok c => withConfig (options.apply c) t

/-- The configuration with which the gateway was started. -/
def config? : Start → Option Config
  | .failed c _ => some c
  | .ready c _ => some c
  | _ => none

/-- The exit code of a gateway that is not started, with the message for it. -/
def exit? : Start → Option (Nat × Option String)
  | .stopped reason => some (reason.exitCode, none)
  | .unconfigured e => some (1, some e.message)
  | .failed _ e => some (1, some e.message)
  | .ready _ _ => none

end Start

end ImageGateway
