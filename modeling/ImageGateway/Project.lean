import ImageGateway.Json.Reader
import ImageGateway.Json.Printer
import ImageGateway.Text.Quoted

/-!
# Projects

A project is a namespace for generated images, given by name. The empty name is the global
namespace, whose files lie directly in the results directory; every other project has a directory of
its name there. A name is valid when it is one path component and no file of the global namespace
can have it (`nameFault?`), and a `Project` carries the evidence.
-/

namespace ImageGateway

/-- What makes a name unfit for a project. -/
inductive NameFault where
  /-- It holds a path separator or a NUL character. -/
  | separator
  /-- It is the name of the directory itself or of its parent. -/
  | reserved
  /-- The global namespace may have a file of that name. -/
  | rootCollision
  deriving DecidableEq, Repr

/-- A name that was refused, and why. -/
structure NameError where
  fault : NameFault
  name : String
  deriving DecidableEq, Repr

namespace Project

/-- The characters that no name may hold. -/
def isSeparator (c : Char) : Bool := c == '/' || c == '\\' || c == '\x00'

/-- The characters before `.png`, if the name ends so. -/
def imageStem? (name : List Char) : Option (List Char) :=
  if name.drop (name.length - 4) = ".png".toList then some (name.take (name.length - 4)) else none

/-- Whether a file of the global namespace may have the name: the settings, the ledger and the files
beside it, and the images, which are numbered. -/
def collides (name : List Char) : Bool :=
  name == "settings.json".toList
    || "history.json".toList.isPrefixOf name
    || match imageStem? name with
      | some stem => !stem.isEmpty && stem.all Char.isDigit
      | none => false

/-- The first fault of a name, if it has one. -/
def nameFault? (name : String) : Option NameFault :=
  let cs := name.toList
  if cs.any isSeparator then some .separator
  else if cs == ['.'] || cs == ['.', '.'] then some .reserved
  else if collides cs then some .rootCollision
  else none

end Project

/-- A namespace for generated images. -/
structure Project where
  name : String
  valid : Project.nameFault? name = none
  deriving DecidableEq, Repr

namespace Project

/-- The namespace that a request without a project belongs to. -/
def global : Project := ⟨"", by decide⟩

/-- The project with the given name. -/
def ofName (name : String) : Except NameError Project :=
  match fault : nameFault? name with
  | none => .ok ⟨name, fault⟩
  | some f => .error ⟨f, name⟩

/-- The project that a request names, the global one if it names none. -/
def ofHeader : Option String → Except NameError Project
  | some name => ofName name
  | none => .ok global

/-- The project that a text stands for, wherever one is read from text. -/
def ofText (text : String) : Except NameError Project := ofName text

/-- Whether this is the global namespace. -/
def isGlobal (p : Project) : Bool := p.name.isEmpty

/-- The project as a JSON document: its name as a string. -/
def toJson (p : Project) : Bytes := (Json.Value.string p.name).compact

/-- The project that a JSON document names. -/
def ofJson? (doc : Bytes) : Option Project :=
  match Json.Reader.whole? Json.string? doc with
  | some text => (ofText text).toOption
  | none => none

end Project

/-- What is wrong with the name. -/
def NameFault.reason : NameFault → String
  | .separator => "must not contain path separators or NUL"
  | .reserved => "reserved path component"
  | .rootCollision => "collides with a file of the global namespace"

/-- The message for a refused name. -/
def NameError.message (e : NameError) : String :=
  "invalid project name " ++ Text.quoted e.name ++ ": " ++ e.fault.reason

end ImageGateway
