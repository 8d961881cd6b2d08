import ImageGateway.Archive.Ledger
import ImageGateway.Archive.Settings
import ImageGateway.Config.Basic
import ImageGateway.Gateway.Handler
import ImageGateway.Version

/-!
# Answers from the archive

The requests that the gateway answers by itself. Reading always succeeds. A change answers nothing
but that it was carried out, whether or not there was something to change.
-/

namespace ImageGateway

open Http (Request Response)

namespace Config

/-- The archive of the gateway. -/
def archive (c : Config) : Archive := ⟨c.storage.resultsDir⟩

end Config

namespace Endpoint

/-- The records of the project. -/
def getHistory (a : Archive) (r : Request) : Handler Response := do
  let p ← Handler.ofExcept (projectOf r.headers)
  let t ← get
  pure (.json 200 (Record.compactList (a.history p t)))

/-- Removes the records and images of the project. -/
def clearHistory (a : Archive) (r : Request) : Handler Response := do
  let p ← Handler.ofExcept (projectOf r.headers)
  let _ ← Handler.ofDisk (a.clear p)
  pure (.empty 200)

/-- Changes the record whose number is the body of the request. -/
def changeRecord (change : Project → RecordId → Storage.Disk Bool) (limit : UInt64) (r : Request) :
    Handler Response := do
  let p ← Handler.ofExcept (projectOf r.headers)
  let body ← Handler.ofExcept (bodyWithin limit r.body)
  let id ← Handler.ofExcept (recordIdOf body)
  let _ ← Handler.ofDisk (change p id)
  pure (.empty 200)

/-- The settings of the web pages. -/
def getSettings (a : Archive) : Handler Response := do
  let t ← get
  pure (.json 200 (a.settings t).compact)

/-- What the gateway says about itself, as the members of a document. -/
def health (c : Config) (t : Storage.FileTree) : Json.Members :=
  let present := t.isDirectory c.storage.resultsDir
  [("status", .string (if present then "healthy" else "degraded")),
    ("version", .string version),
    ("results_dir_present", .bool present),
    ("backend", .string c.backend.baseUrl)]

/-- Whether the results directory is there, and which backend is asked. -/
def getHealth (c : Config) : Handler Response := do
  let t ← get
  pure (.json 200 (Json.Value.object (health c t)).compact)

end Endpoint

end ImageGateway
