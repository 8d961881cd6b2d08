import ImageGateway.Bytes
import ImageGateway.Storage.Fault

/-!
# The file tree

The tree is a value: regular files with their bytes, directories and symbolic links, each at its
location. An operation on a path first walks to a location, following links, and then reads or
changes the one entry there; a failed operation changes nothing, except that `makeDirs` keeps the
directories it has made.
-/

namespace ImageGateway.Storage

/-- The names on the way from the top of the tree to an entry. -/
abbrev Location := List String

/-- What is found at a location. -/
inductive Entry where
  | file (content : Bytes)
  | directory
  | link (target : FilePath)
  deriving DecidableEq, Repr

/-- All entries below the top directory, and the directory at which relative paths start. -/
structure FileTree where
  entries : List (Location × Entry)
  workingDirectory : Location
  deriving Repr

namespace FileTree

/-- The tree that has nothing but its top directory. -/
def empty : FileTree := ⟨[], []⟩

/-- The entry at a location. -/
def find? (t : FileTree) : Location → Option Entry
  | [] => some .directory
  | loc => t.entries.lookup loc

/-- The tree without the entry at a location. -/
def erase (t : FileTree) (loc : Location) : FileTree :=
  { t with entries := t.entries.filter fun entry => entry.1 ≠ loc }

/-- The tree with an entry at a location, in place of the one there. -/
def insert (t : FileTree) (loc : Location) (entry : Entry) : FileTree :=
  { t with entries := (loc, entry) :: (t.erase loc).entries }

theorem lookup_filter_ne {loc other : Location} (h : other ≠ loc)
    (entries : List (Location × Entry)) :
    (entries.filter fun entry => entry.1 ≠ loc).lookup other = entries.lookup other := by
  induction entries with
  | nil => rfl
  | cons entry rest ih =>
    obtain ⟨place, e⟩ := entry
    by_cases same : other = place
    · subst same
      simp [h]
    · have differs : (other == place) = false := by simpa using same
      by_cases gone : place = loc
      · have elsewhere : (other == loc) = false := by simpa using h
        simpa [gone, List.lookup_cons, elsewhere] using ih
      · simpa [gone, List.lookup_cons, differs] using ih

theorem lookup_filter_self (loc : Location) (entries : List (Location × Entry)) :
    (entries.filter fun entry => entry.1 ≠ loc).lookup loc = none := by
  induction entries with
  | nil => rfl
  | cons entry rest ih =>
    obtain ⟨place, e⟩ := entry
    by_cases gone : place = loc
    · simpa [gone] using ih
    · have differs : (loc == place) = false := by simpa using Ne.symm gone
      simpa [gone, List.lookup_cons, differs] using ih

/-- What is put at a location is found there. -/
theorem find?_insert_self {loc : Location} (h : loc ≠ []) (t : FileTree) (entry : Entry) :
    (t.insert loc entry).find? loc = some entry := by
  cases loc with
  | nil => exact absurd rfl h
  | cons name rest => simp [insert, find?]

/-- What is put at a location changes nothing elsewhere. -/
theorem find?_insert_of_ne {loc other : Location} (h : other ≠ loc) (t : FileTree)
    (entry : Entry) : (t.insert loc entry).find? other = t.find? other := by
  cases other with
  | nil => rfl
  | cons name rest =>
    have differs : (name :: rest == loc) = false := by simpa using h
    simp only [insert, find?, List.lookup_cons, differs]
    exact lookup_filter_ne h t.entries

/-- Nothing is left at a location that has been emptied. -/
theorem find?_erase_self {loc : Location} (h : loc ≠ []) (t : FileTree) :
    (t.erase loc).find? loc = none := by
  cases loc with
  | nil => exact absurd rfl h
  | cons name rest => exact lookup_filter_self (name :: rest) t.entries

/-- Emptying a location changes nothing elsewhere. -/
theorem find?_erase_of_ne {loc other : Location} (h : other ≠ loc) (t : FileTree) :
    (t.erase loc).find? other = t.find? other := by
  cases other with
  | nil => rfl
  | cons name rest => exact lookup_filter_ne h t.entries

/-- The name of an entry of the directory at `dir`. -/
def nameIn? (dir loc : Location) : Option String :=
  if loc.dropLast = dir then loc.getLast? else none

/-- The names of the entries of a directory. -/
def namesIn (t : FileTree) (dir : Location) : List String :=
  t.entries.filterMap fun entry => nameIn? dir entry.1

/-! ## Walking -/

/-- The most bytes a name may have. -/
def longestName : Nat := 255

/-- The bytes that no path reaches. -/
def pathLimit : Nat := 4096

/-- How many links are followed on one walk. -/
def mostLinks : Nat := 40

/-- Where a component leads from a directory if it is no name: two points lead up, one stays. -/
def points? (dir : Location) (name : String) : Option Location :=
  if name = ".." then some dir.dropLast
  else if name = "." then some dir
  else none

/-- Walks from a directory along names. The location reached has an entry, or could be given one:
only the last name may be missing from its directory. A link is followed by `jump`, which is given
the directory of the link, its target and the names after it, unless the link is the last step and
`follow` is false. -/
def steps (t : FileTree) (follow : Bool)
    (jump : Location → FilePath → List String → Except Fault Location) :
    Location → List String → Except Fault Location
  | dir, [] => .ok dir
  | dir, name :: rest =>
    match points? dir name with
    | some there => steps t follow jump there rest
    | none =>
      if longestName < name.utf8ByteSize then .error .nameTooLong
      else match t.find? (dir ++ [name]) with
        | some (.link target) =>
          if rest.isEmpty && !follow then .ok (dir ++ [name]) else jump dir target rest
        | some .directory => steps t follow jump (dir ++ [name]) rest
        | some (.file _) => if rest.isEmpty then .ok (dir ++ [name]) else .error .notADirectory
        | none => if rest.isEmpty then .ok (dir ++ [name]) else .error .notFound

/-- Walks from a directory along names, over at most `links` links. -/
def walk (t : FileTree) (follow : Bool) : (links : Nat) → Location → List String →
    Except Fault Location
  | 0 => t.steps follow fun _ _ _ => .error .tooManyLinks
  | links + 1 => t.steps follow fun dir target rest =>
    t.walk follow links (if target.isAbsolute then [] else dir) (target.route ++ rest)

/-- The directory at which a path starts. -/
def start (t : FileTree) (p : FilePath) : Location :=
  if p.isAbsolute then [] else t.workingDirectory

/-- The location of a path whose components are `names`. -/
def locateNames (t : FileTree) (follow : Bool) (p : FilePath) (names : List String) :
    Except Fault Location :=
  if p.text.toList.contains '\x00' then .error .nulInPath
  else if p.text.isEmpty then .error .notFound
  else if pathLimit ≤ p.text.utf8ByteSize then .error .nameTooLong
  else t.walk follow mostLinks (t.start p) names

/-- The location of a path. -/
def locate (t : FileTree) (follow : Bool) (p : FilePath) : Except Fault Location :=
  t.locateNames follow p p.names

/-- The entry at a path, with its location. -/
def lookUp (t : FileTree) (follow : Bool) (p : FilePath) : Except Fault (Location × Entry) := do
  let loc ← t.locate follow p
  match t.find? loc with
  | some entry => .ok (loc, entry)
  | none => .error .notFound

/-- The entry that a path leads to. -/
def stat (t : FileTree) (p : FilePath) : Except Fault Entry := (·.2) <$> t.lookUp true p

/-- The entry at a path itself, which may be a link. -/
def statLink (t : FileTree) (p : FilePath) : Except Fault Entry := (·.2) <$> t.lookUp false p

/-- Whether a path leads to something, and to a directory if it asks for one. -/
def leadsSomewhere (t : FileTree) (p : FilePath) : Bool :=
  match t.stat p with
  | .ok entry => !p.asksForDirectory || entry = .directory
  | .error _ => false

/-- Whether a path leads to a directory. -/
def isDirectory (t : FileTree) (p : FilePath) : Bool := (t.stat p).toOption == some .directory

/-! ## Reading and changing -/

/-- The content of a file. -/
def readFile (t : FileTree) (p : FilePath) : Except Fault Bytes := do
  match ← t.stat p with
  | .file content => .ok content
  | _ => .error .isADirectory

/-- Gives a file new content, or makes it. -/
def writeFile (t : FileTree) (p : FilePath) (content : Bytes) : Except Fault FileTree := do
  let loc ← t.locate true p
  match t.find? loc with
  | some .directory => .error .isADirectory
  | _ => .ok (t.insert loc (.file content))

/-- Removes a file or a link. -/
def removeFile (t : FileTree) (p : FilePath) : Except Fault FileTree := do
  match ← t.lookUp false p with
  | (_, .directory) => .error .isADirectory
  | (loc, _) => .ok (t.erase loc)

/-- Moves a file or a link to another path, in place of the file or link there. -/
def rename (t : FileTree) (p q : FilePath) : Except Fault FileTree := do
  let (source, entry) ← t.lookUp false p
  let target ← t.locate false q
  match entry, t.find? target with
  | .directory, _ => .error .isADirectory
  | _, some .directory => .error .isADirectory
  | entry, _ => if source = target then .ok t else .ok ((t.erase source).insert target entry)

/-- Copies a file to another path. -/
def copyFile (t : FileTree) (p q : FilePath) : Except Fault FileTree := do
  match ← t.stat p with
  | .file content => t.writeFile q content
  | _ => .error .copiedFromNonFile

/-- Makes a link. -/
def makeLink (t : FileTree) (p target : FilePath) : Except Fault FileTree := do
  let loc ← t.locate false p
  match t.find? loc with
  | some _ => .error .exists
  | none => .ok (t.insert loc (.link target))

/-- The names of the entries of the directory that a path leads to. -/
def list (t : FileTree) (p : FilePath) : Except Fault (List String) := do
  match ← t.lookUp true p with
  | (loc, .directory) => .ok (t.namesIn loc)
  | _ => .error .notADirectory

/-! ## Making directories -/

/-- Makes the directory at the end of `names`. -/
def makeDir (t : FileTree) (p : FilePath) (names : List String) : Except Fault FileTree := do
  let loc ← t.locateNames false p names
  match t.find? loc with
  | some _ => .error .exists
  | none => .ok (t.insert loc .directory)

/-- Whether `names` lead to a directory. -/
def namesLeadToDirectory (t : FileTree) (p : FilePath) (names : List String) : Bool :=
  match t.locateNames true p names with
  | .ok loc => t.find? loc == some .directory
  | .error _ => false

/-- Makes a directory unless there is one. -/
def ensureDir (t : FileTree) (p : FilePath) (names : List String) : Except Fault FileTree :=
  match t.makeDir p names with
  | .ok t => .ok t
  | .error fault => if t.namesLeadToDirectory p names then .ok t else .error fault

/-- Makes the directory at the end of the first `count` names. If that fails for want of the
directory above, that one is made first. -/
def makeDirsUpTo (t : FileTree) (p : FilePath) (names : List String) :
    Nat → Except Fault Unit × FileTree
  | 0 => (.ok (), t)
  | count + 1 =>
    let here := names.take (count + 1)
    match t.makeDir p here with
    | .ok t => (.ok (), t)
    | .error .notFound =>
      match t.makeDirsUpTo p names count with
      | (.ok (), t) =>
        match t.ensureDir p here with
        | .ok t => (.ok (), t)
        | .error fault => (.error fault, t)
      | failed => failed
    | .error fault => if t.namesLeadToDirectory p here then (.ok (), t) else (.error fault, t)

/-- Checks that a path leads to a directory. -/
def requireDirectory (t : FileTree) (p : FilePath) : Except Fault Unit := do
  let loc ← t.locate true p
  match t.find? loc with
  | some .directory => .ok ()
  | some _ => .error .notADirectory
  | none => .error .notFound

/-- Makes a directory and all those above it that are missing. No directory is made of a path that
does not end in a name: once those above are there, it has to lead to one. -/
def makeDirs (t : FileTree) (p : FilePath) : Except Fault Unit × FileTree :=
  if p.text.isEmpty then (.ok (), t)
  else if p.endsInName then t.makeDirsUpTo p p.names p.names.length
  else match t.requireDirectory p with
    | .error .notFound =>
      match t.makeDirsUpTo p p.names (p.names.length - 1) with
      | (.ok (), t) => (t.requireDirectory p, t)
      | failed => failed
    | result => (result, t)

/-- Removes whatever is at a location and all below it. -/
def removeAll (t : FileTree) (loc : Location) : FileTree :=
  { t with entries := t.entries.filter fun entry => !loc.isPrefixOf entry.1 }

end FileTree

end ImageGateway.Storage
