import ImageGateway.Storage.FileTree

/-!
# Programs that use the file tree

A `Disk` program changes the file tree and may fail; a failure keeps what has been changed so far.
-/

namespace ImageGateway.Storage

/-- A program that uses the file tree. -/
abbrev Disk := EStateM Error FileTree

namespace Disk

/-- Changes the tree by one operation; its fault is reported for the given path. -/
def change (p : FilePath) (op : FileTree → Except Fault FileTree) : Disk Unit := fun t =>
  match op t with
  | .ok t => .ok () t
  | .error fault => .error (.io p fault) t

/-- Makes a directory and those above it. -/
def makeDirs (p : FilePath) : Disk Unit := fun t =>
  match t.makeDirs p with
  | (.ok (), t) => .ok () t
  | (.error fault, t) => .error (.io p fault) t

/-- Writes a file. -/
def writeFile (p : FilePath) (content : Bytes) : Disk Unit := change p (·.writeFile p content)

/-- Removes a file if that is possible, and says whether it was. -/
def tryRemove (p : FilePath) : Disk Bool := fun t =>
  match t.removeFile p with
  | .ok t => .ok true t
  | .error _ => .ok false t

/-- Removes a file; one that is not there is no fault. -/
def removeIfPresent (p : FilePath) : Disk Unit := fun t =>
  match t.removeFile p with
  | .ok t => .ok () t
  | .error .notFound => .ok () t
  | .error fault => .error (.io p fault) t

end Disk

end ImageGateway.Storage
