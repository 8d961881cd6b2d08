import ImageGateway.Archive.Images
import ImageGateway.Record.Json

/-!
# The ledger of a project

The ledger is one document with the records of a project in the order in which they are shown. Every
change reads it, works on the records and writes the whole document to a file beside it, which then
takes its place. A ledger that cannot be read counts as empty; before it is replaced it is moved
aside.
-/

namespace ImageGateway.Archive

open Storage

/-- What is found where the ledger belongs. -/
inductive LedgerState where
  | absent
  | unreadable
  | present (records : List Record)

namespace LedgerState

/-- The records to work with. -/
def records : LedgerState → List Record
  | .present records => records
  | .absent => []
  | .unreadable => []

/-- Whether a document is there that cannot be read. -/
def isUnreadable : LedgerState → Bool
  | .unreadable => true
  | _ => false

end LedgerState

/-- Reads the ledger of a project. -/
def load (a : Archive) (p : Project) (t : FileTree) : LedgerState :=
  match t.readFile (a.ledgerPath p) with
  | .ok content =>
    match Record.ofDocument? content with
    | some records => .present records
    | none => .unreadable
  | .error .notFound => .absent
  | .error _ => .unreadable

/-- The records of a project in the order in which they are shown. -/
def history (a : Archive) (p : Project) (t : FileTree) : List Record := (a.load p t).records

/-- What a change makes of the records, with an answer. -/
inductive Commit (α : Type) where
  /-- The records to be written. -/
  | write (records : List Record) (answer : α)
  /-- The ledger stays as it is. -/
  | keep (answer : α)

/-- Whether a regular file is where the ledger belongs. Anything else there is a fault, so that it
is never moved or replaced. -/
def ledgerIsThere (a : Archive) (p : Project) : Disk Bool := fun t =>
  match t.statLink (a.ledgerPath p) with
  | .ok (.file _) => .ok true t
  | .ok _ => .error (.io (a.ledgerPath p) .ledgerNotAFile) t
  | .error .notFound => .ok false t
  | .error fault => .error (.io (a.ledgerPath p) fault) t

/-- Moves an unreadable ledger out of the way, if it can be moved. -/
def setAside (a : Archive) (p : Project) : Disk Unit := do
  if ← a.ledgerIsThere p then
    modify fun t => ((t.rename (a.ledgerPath p) (a.asidePath p)).toOption).getD t

/-- Writes the ledger. -/
def persist (a : Archive) (p : Project) (records : List Record) : Disk Unit := do
  Disk.makeDirs (a.projectDir p)
  Disk.writeFile (a.temporaryPath p) (Record.document records)
  Disk.change (a.ledgerPath p) (·.rename (a.temporaryPath p) (a.ledgerPath p))

/-- Changes the ledger of a project. -/
def update (a : Archive) (p : Project) (change : List Record → Disk (Commit α)) : Disk α := do
  let state := a.load p (← get)
  match ← change state.records with
  | .keep answer => pure answer
  | .write records answer =>
    if state.isUnreadable then a.setAside p
    a.persist p records
    pure answer

/-! ## Moving and removing -/

/-- The records with the first one that has the number, not counting the very first record, moved
one place to the front. -/
def movedForward? (id : RecordId) : List Record → Option (List Record)
  | r :: s :: rest =>
    if s.id = id then some (s :: r :: rest)
    else (movedForward? id (s :: rest)).map (r :: ·)
  | _ => none

/-- The records with the first one that has the number, not counting the very last record, moved
one place to the back. -/
def movedBack? (id : RecordId) : List Record → Option (List Record)
  | r :: s :: rest =>
    if r.id = id then some (s :: r :: rest)
    else (movedBack? id (s :: rest)).map (r :: ·)
  | _ => none

/-- The records without the first one that has the number. -/
def without? (id : RecordId) : List Record → Option (List Record)
  | [] => none
  | r :: rest => if r.id = id then some rest else (without? id rest).map (r :: ·)

/-- Writes the changed records, if there was something to change, and says whether there was. -/
def commitIf : Option (List Record) → Commit Bool
  | some records => .write records true
  | none => .keep false

/-- Moves a record one place to the front. -/
def moveForward (a : Archive) (p : Project) (id : RecordId) : Disk Bool :=
  a.update p fun records => pure (commitIf (movedForward? id records))

/-- Moves a record one place to the back. -/
def moveBack (a : Archive) (p : Project) (id : RecordId) : Disk Bool :=
  a.update p fun records => pure (commitIf (movedBack? id records))

/-- Removes the image with a number, then the record. -/
def remove (a : Archive) (p : Project) (id : RecordId) : Disk Bool :=
  a.update p fun records => do
    let _ ← a.removeImage p id
    pure (commitIf (without? id records))

/-- Removes the images of the records that the ledger lists, or all if it cannot be read. -/
def removeListedImages (a : Archive) (p : Project) : LedgerState → Disk Nat
  | .absent => pure 0
  | .present records => removeCounting (records.map fun r => a.imagePath p r.id)
  | .unreadable => a.removeAllImages p

/-- Removes the images and the ledger of a project and tells how many images there were. -/
def clear (a : Archive) (p : Project) : Disk Nat := do
  let _ ← a.ledgerIsThere p
  let removed ← a.removeListedImages p (a.load p (← get))
  Disk.removeIfPresent (a.temporaryPath p)
  Disk.removeIfPresent (a.asidePath p)
  Disk.removeIfPresent (a.ledgerPath p)
  pure removed

end ImageGateway.Archive
