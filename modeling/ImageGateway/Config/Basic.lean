import ImageGateway.Decimal.Digits
import ImageGateway.Net.SocketAddress
import ImageGateway.Storage.FilePath
import ImageGateway.Text.Quoted

/-!
# The configuration of the gateway

Where the gateway listens, which backend it forwards to, and where it keeps its files. A
configuration is valid when its address can be listened at and its limits leave something to do
(`Config.fault?`).
-/

namespace ImageGateway

open Storage (FilePath)

/-- Where and how the gateway listens. -/
structure ServerConfig where
  bindHost : String
  port : UInt16
  /-- The most bytes that the body of a request may have. -/
  maxBodyBytes : UInt64
  /-- Whether pages of other origins may use the gateway. -/
  enableCors : Bool
  deriving DecidableEq, Repr

/-- The backend that generates images. -/
structure BackendConfig where
  host : String
  port : UInt16
  /-- The path of the generation endpoint. -/
  generatePath : String
  requestTimeoutSecs : UInt64
  deriving DecidableEq, Repr

/-- Where files are kept. -/
structure StorageConfig where
  resultsDir : FilePath
  /-- The directory with the web pages. -/
  webDir : FilePath
  /-- The document that the settings start from. -/
  defaultsFile : Option FilePath
  deriving DecidableEq, Repr

/-- The configuration of the gateway. -/
structure Config where
  server : ServerConfig
  backend : BackendConfig
  storage : StorageConfig
  deriving DecidableEq, Repr

/-- Where the program finds itself. -/
structure Surroundings where
  homeDir : FilePath
  /-- The directory that holds the program. -/
  programDir : FilePath
  deriving DecidableEq, Repr

namespace ServerConfig

/-- The server configuration of a gateway that nothing else was said to. -/
def default : ServerConfig := ⟨"0.0.0.0", 8080, 64 * 1024 * 1024, false⟩

/-- The address to listen at, if host and port give one. -/
def socketAddress? (c : ServerConfig) : Option Net.SocketAddress :=
  Net.SocketAddress.ofChars? (c.bindHost.toList ++ ':' :: Decimal.digits c.port.toNat)

end ServerConfig

namespace BackendConfig

/-- The backend of a gateway that nothing else was said to. -/
def default : BackendConfig := ⟨"127.0.0.1", 7860, "/sdapi/v1/txt2img", 600⟩

/-- The address of the backend. -/
def baseUrl (c : BackendConfig) : String :=
  "http://" ++ c.host ++ ":" ++ String.ofList (Decimal.digits c.port.toNat)

/-- The address that generation requests go to. -/
def generateUrl (c : BackendConfig) : String := c.baseUrl ++ c.generatePath

end BackendConfig

namespace StorageConfig

/-- The directories of a gateway that nothing else was said to: the results are kept in the home
directory, and the web pages come with the program. -/
def default (s : Surroundings) : StorageConfig where
  resultsDir := s.homeDir.join "DTC"
  webDir := (s.programDir.join "..").join "Resources"
  defaultsFile := none

/-- The document that the settings start from. -/
def defaultsPath (c : StorageConfig) : FilePath :=
  c.defaultsFile.getD (c.webDir.join "defaults.json")

end StorageConfig

namespace Config

/-- The configuration of a gateway that nothing else was said to. -/
def default (s : Surroundings) : Config := ⟨.default, .default, .default s⟩

/-- What makes a configuration unusable. -/
inductive Fault where
  | socketAddress
  | noTimeout
  | generatePath (path : String)
  | noBody
  deriving DecidableEq, Repr

/-- The message for an unusable configuration. -/
def Fault.message : Fault → String
  | .socketAddress => "invalid socket address syntax"
  | .noTimeout => "backend.request_timeout_secs must be greater than zero"
  | .generatePath path => "backend.generate_path must start with '/': " ++ Text.quoted path
  | .noBody => "server.max_body_bytes must be greater than zero"

/-- The first fault of a configuration, if it has one. -/
def fault? (c : Config) : Option Fault :=
  if c.server.socketAddress?.isNone then some .socketAddress
  else if c.backend.requestTimeoutSecs = 0 then some .noTimeout
  else if c.backend.generatePath.toList.head? ≠ some '/' then
    some (.generatePath c.backend.generatePath)
  else if c.server.maxBodyBytes = 0 then some .noBody
  else none

/-- The fields of a configuration by name, with their values as they are reported. -/
def report (c : Config) : List (String × String) :=
  let number := fun (n : Nat) => String.ofList (Decimal.digits n)
  [("server.bind_host", Text.quoted c.server.bindHost),
    ("server.port", number c.server.port.toNat),
    ("server.max_body_bytes", number c.server.maxBodyBytes.toNat),
    ("server.enable_cors", if c.server.enableCors then "true" else "false"),
    ("backend.host", Text.quoted c.backend.host),
    ("backend.port", number c.backend.port.toNat),
    ("backend.generate_path", Text.quoted c.backend.generatePath),
    ("backend.request_timeout_secs", number c.backend.requestTimeoutSecs.toNat),
    ("storage.results_dir", Text.quoted c.storage.resultsDir.text),
    ("storage.web_dir", Text.quoted c.storage.webDir.text),
    ("storage.defaults_file", match c.storage.defaultsFile with
      | some p => Text.quoted p.text
      | none => "None")]

end Config

end ImageGateway
