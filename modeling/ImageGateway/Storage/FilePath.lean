/-!
# Paths

A path is a text whose components are separated by slashes. `FilePath.join` puts a name behind a
directory, `FilePath.parent` takes the last name away; `FilePath.names` gives the components that a
walk along the path takes.
-/

namespace ImageGateway.Storage

/-- The text of a path. -/
structure FilePath where
  text : String
  deriving DecidableEq, Repr, Inhabited

namespace FilePath

/-- Whether the path starts at the top of the tree and not at the working directory. -/
def isAbsolute (p : FilePath) : Bool := p.text.toList.head? == some '/'

/-- The path of an entry of a directory. An absolute path stands for itself. -/
def join (p : FilePath) (name : String) : FilePath :=
  if name.toList.head? = some '/' then ⟨name⟩
  else if p.text.toList = [] ∨ p.text.toList.getLast? = some '/' then ⟨p.text ++ name⟩
  else ⟨p.text ++ "/" ++ name⟩

/-- The path with more text at the end of its last name. -/
def withSuffix (p : FilePath) (suffix : String) : FilePath := ⟨p.text ++ suffix⟩

/-- The parts of a text between slashes. -/
def segments : List Char → List (List Char)
  | [] => [[]]
  | c :: cs =>
    if c = '/' then [] :: segments cs
    else match segments cs with
      | s :: rest => (c :: s) :: rest
      | [] => [[c]]

/-- The components of the path, without those that stay where they are. -/
def names (p : FilePath) : List String :=
  ((segments p.text.toList).filter fun s => s ≠ [] ∧ s ≠ ['.']).map String.ofList

/-- Whether the last component of the path is a name, slashes behind it not counted. -/
def endsInName (p : FilePath) : Bool :=
  match ((segments p.text.toList).filter fun s => s ≠ []).getLast? with
  | some s => s ≠ ['.']
  | none => false

/-- Whether the path can only lead to a directory: behind its last slash is nothing, or a point. -/
def asksForDirectory (p : FilePath) : Bool :=
  match (segments p.text.toList).getLast? with
  | some s => s = [] ∨ s = ['.']
  | none => false

/-- The components that a walk over a link takes along the path of its target. Behind a path that can
only lead to a directory a point keeps the walk from ending at a file. -/
def route (p : FilePath) : List String :=
  if p.asksForDirectory then p.names ++ ["."] else p.names

/-- Text without the slashes at its end, and without points that stand alone behind one; given and
returned from its end to its front. -/
def trimmedBack : List Char → List Char
  | '/' :: cs => trimmedBack cs
  | '.' :: '/' :: cs => trimmedBack cs
  | cs => cs

/-- The path of the directory with the entry of a path that ends in a name. -/
def parent (p : FilePath) : FilePath :=
  match trimmedBack (p.text.toList.reverse.dropWhile (· ≠ '/')) with
  | [] => if p.isAbsolute then ⟨"/"⟩ else ⟨""⟩
  | cs => ⟨String.ofList cs.reverse⟩

end FilePath

end ImageGateway.Storage
