import ImageGateway.Archive.Layout
import ImageGateway.Json.Reader
import ImageGateway.Storage.Disk

/-!
# Settings

The settings of the web pages are one JSON document of any shape beside the projects. It is served
as it is, and put in place from a file of defaults when there is none.
-/

namespace ImageGateway.Archive

open Storage

/-- What is found where the settings belong. -/
inductive SettingsState where
  | absent
  | unreadable
  | present (document : Json.Value)

/-- Reads the settings. -/
def loadSettings (a : Archive) (t : FileTree) : SettingsState :=
  match t.readFile a.settingsPath with
  | .ok content =>
    match Json.parse? content with
    | some document => .present document
    | none => .unreadable
  | .error .notFound => .absent
  | .error _ => .unreadable

/-- The settings, or an empty object if there are none to read. -/
def settings (a : Archive) (t : FileTree) : Json.Value :=
  match a.loadSettings t with
  | .present document => document
  | .absent => .object []
  | .unreadable => .object []

/-- What came of putting the defaults in place. -/
inductive SeedOutcome where
  | seeded
  | alreadyPresent
  | defaultsMissing
  deriving DecidableEq, Repr

/-- Copies the defaults to where the settings belong, unless something is there. -/
def seedSettings (a : Archive) (defaults : FilePath) : Disk SeedOutcome := do
  let t ← get
  if t.leadsSomewhere a.settingsPath then pure .alreadyPresent
  else if !t.leadsSomewhere defaults then pure .defaultsMissing
  else
    Disk.makeDirs a.settingsPath.parent
    Disk.change a.settingsPath (·.copyFile defaults a.settingsPath)
    pure .seeded

end ImageGateway.Archive
