import ImageGateway.CommandLine.Usage
import ImageGateway.Startup

/-!
# The command line program

The program reads the disk into a file tree, starts the gateway on it, writes what has changed back
to the disk and reports the address to listen at. All decisions are made by `Start.run`.
-/

namespace ImageGateway.Program

open Storage (FilePath FileTree Location Entry)

/-- The variables that the gateway looks at. -/
def variableNames : List String :=
  ["DTC_SERVER_PORT", "DTC_BIND_HOST", "DTC_TARGET_PORT", "DTC_TARGET_HOST",
    "DTC_BACKEND_TIMEOUT", "DTC_RESULTS_DIR", "DTC_WEB_DIR"]

/-- The environment of the program. -/
def environment : IO Environment := do
  let values ← variableNames.mapM fun name => do
    return (name, ← IO.getEnv name)
  return fun name => (values.lookup name).join

/-- The directory at which relative paths start. -/
def workingDirectory : IO FilePath := return ⟨(← IO.currentDir).toString⟩

/-- The location that the names of a path lead to, where two points climb. -/
def locationOf (names : List String) : Location :=
  names.foldl (fun loc name => if name = ".." then loc.dropLast else loc ++ [name]) []

/-- The text of a location as an absolute path. -/
def textOf (loc : Location) : String := "/" ++ "/".intercalate loc

/-- The tree with what the disk has at a location. -/
def observeAt (t : FileTree) (loc : Location) : IO FileTree := do
  let file := (← IO.currentDir) / textOf loc
  if ← file.isDir then return t.insert loc .directory
  else if ← file.pathExists then
    return t.insert loc (.file (← IO.FS.readBinFile file).toList)
  else return t

/-- The tree with what the disk has at a path and above it. -/
def observe (t : FileTree) (p : FilePath) : IO FileTree := do
  let cwd ← workingDirectory
  let whole := if p.isAbsolute then p else cwd.join p.text
  let loc := locationOf whole.names
  (List.range (loc.length + 1)).foldlM (fun t count =>
    if count = 0 then return t else observeAt t (loc.take count)) t

/-- Gives the disk what a tree has and an earlier one had not. -/
def writeBack (before after : FileTree) : IO Unit :=
  after.entries.reverse.forM fun (loc, entry) => do
    if before.find? loc ≠ some entry then
      match entry with
      | .directory => IO.FS.createDirAll (textOf loc)
      | .file content => IO.FS.writeBinFile (textOf loc) content.toByteArray
      | .link _ => pure ()

/-- The paths that starting with a configuration looks at. -/
def pathsOf (c : Config) : List FilePath :=
  [c.storage.resultsDir, (Archive.mk c.storage.resultsDir).settingsPath, c.storage.defaultsPath]

/-- Reports what came of the start. -/
def report (start : Start) : IO UInt32 := do
  if let some c := start.config? then
    for (name, value) in c.report do
      IO.println (name ++ ": " ++ value)
  match start with
  | .ready _ address =>
    IO.println ("HTTP server listening on http://" ++ address.text)
    return 0
  | .stopped reason =>
    let out ← if reason = .misuse then IO.getStderr else IO.getStdout
    out.putStrLn reason.text
    return UInt32.ofNat reason.exitCode
  | _ =>
    match start.exit? with
    | some (code, message) =>
      IO.eprintln ("Error: " ++ message.getD "")
      return UInt32.ofNat code
    | none => return 0

/-- Starts the gateway. A first run on the working directory and the configuration document alone
shows which further paths of the disk matter. -/
def start (arguments : List String) : IO UInt32 := do
  let env ← environment
  let home := (← IO.getEnv "HOME").getD "."
  let programDir := ((← IO.appPath).parent.map (·.toString)).getD "."
  let surroundings : Surroundings := ⟨⟨home⟩, ⟨programDir⟩⟩
  let commandLine := "image-gateway" :: arguments
  let cwd ← workingDirectory
  let bare ← observe { FileTree.empty with workingDirectory := locationOf cwd.names } cwd
  let withDocument ← match CommandLine.Options.ofArguments env commandLine with
    | .ok options => options.configFile.toList.foldlM observe bare
    | .error _ => pure bare
  let (first, _) := Start.run surroundings env commandLine withDocument
  let paths := (first.config?.map pathsOf).getD []
  let before ← paths.foldlM observe withDocument
  let (result, after) := Start.run surroundings env commandLine before
  writeBack before after
  report result

end ImageGateway.Program

/-- The program. -/
def main (arguments : List String) : IO UInt32 := ImageGateway.Program.start arguments
