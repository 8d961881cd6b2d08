import ImageGateway.Project
import ImageGateway.Record.Basic
import ImageGateway.Storage.FilePath

/-!
# Where things are kept

An archive is a results directory. The global namespace keeps its ledger and images directly in it,
every other project in a directory of its own; the settings of all lie beside them.
-/

namespace ImageGateway

open Storage (FilePath)

/-- A results directory. -/
structure Archive where
  root : FilePath
  deriving DecidableEq, Repr

namespace Archive

/-- The directory with the ledger and the images of a project. -/
def projectDir (a : Archive) (p : Project) : FilePath :=
  if p.isGlobal then a.root else a.root.join p.name

/-- The document with the records of a project. -/
def ledgerPath (a : Archive) (p : Project) : FilePath := (a.projectDir p).join "history.json"

/-- The file that a new ledger is written to before it takes the place of the old one. -/
def temporaryPath (a : Archive) (p : Project) : FilePath := (a.ledgerPath p).withSuffix ".tmp"

/-- The file that an unreadable ledger is moved to. -/
def asidePath (a : Archive) (p : Project) : FilePath := (a.ledgerPath p).withSuffix ".corrupt"

/-- The image of a record. -/
def imagePath (a : Archive) (p : Project) (id : RecordId) : FilePath :=
  (a.projectDir p).join (Record.imageFileName id)

/-- The settings document. -/
def settingsPath (a : Archive) : FilePath := a.root.join "settings.json"

end Archive

end ImageGateway
