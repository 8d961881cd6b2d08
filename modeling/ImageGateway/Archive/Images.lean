import ImageGateway.Archive.Layout
import ImageGateway.Storage.Disk

/-!
# Image files

Images are written, removed by number, or removed all together. Removing is done as far as possible
and never fails; it tells how many files went.
-/

namespace ImageGateway.Archive

open Storage

/-- Writes the image with a number, in place of the one there. -/
def writeImage (a : Archive) (p : Project) (id : RecordId) (content : Bytes) : Disk Unit := do
  Disk.makeDirs (a.projectDir p)
  Disk.writeFile (a.imagePath p id) content

/-- Removes the image with a number, and says whether there was one to remove. -/
def removeImage (a : Archive) (p : Project) (id : RecordId) : Disk Bool :=
  Disk.tryRemove (a.imagePath p id)

/-- Whether a file name is that of an image: five or more ASCII digits and `.png`. -/
def isImageFileName (name : String) : Bool :=
  match Project.imageStem? name.toList with
  | some stem => 5 ≤ stem.length && stem.all Char.isDigit
  | none => false

/-- Removes the files one after the other and counts those that went. -/
def removeCounting : List FilePath → Disk Nat
  | [] => pure 0
  | p :: rest => do
    let removed ← Disk.tryRemove p
    let more ← removeCounting rest
    pure (if removed then more + 1 else more)

/-- Removes every image of a project and tells how many there were. -/
def removeAllImages (a : Archive) (p : Project) : Disk Nat := fun t =>
  match t.list (a.projectDir p) with
  | .ok names => removeCounting ((names.filter isImageFileName).map (a.projectDir p).join) t
  | .error _ => .ok 0 t

end ImageGateway.Archive
