import ImageGateway.Decimal.Binary64

/-!
# TOML values

The values of a configuration document. Every value is kept with the place where it was given, so
that a reader of the document can say where something is wrong.
-/

namespace ImageGateway.Toml

/-- A place in a document: how many characters there are from it to the end. -/
abbrev Place := Nat

/-- A floating point number of a document. -/
inductive Real where
  | finite (x : Decimal.Binary64)
  | infinite (negative : Bool)
  | notANumber
  deriving DecidableEq, Repr

/-- How a table came about, which decides what may be added to it later on. -/
inductive Origin where
  /-- It is the document itself or has a header of its own. -/
  | header
  /-- It was named on the way to the table of another header. -/
  | passedByHeader
  /-- It was named on the way to the last part of a dotted key. -/
  | dottedKey
  /-- It was given between braces. -/
  | braces
  deriving DecidableEq, Repr

/-- A value of a document. A member of a table has its key, the place of the value and the value. -/
inductive Value where
  | string (text : String)
  | integer (n : Int)
  | float (x : Real)
  | boolean (b : Bool)
  | dateTime (text : String)
  /-- Values given between brackets. -/
  | array (items : List (Place × Value))
  /-- Tables that each have a header in double brackets, the latest one last. -/
  | tables (items : List (Place × List (String × Place × Value)))
  | table (origin : Origin) (members : List (String × Place × Value))
  deriving Inhabited

/-- The members of a table in the order in which they were given. -/
abbrev Members := List (String × Place × Value)

/-- A part of a key, with its place. -/
structure Key where
  name : String
  place : Place
  deriving DecidableEq, Repr

namespace Members

/-- Puts another value in the place of the one that a key has. -/
def replace (name : String) (value : Value) : Members → Members
  | [] => []
  | (n, place, v) :: rest =>
    if n = name then (n, place, value) :: rest else (n, place, v) :: replace name value rest

/-- The members without the one that has the key. -/
def erase (name : String) (members : Members) : Members := members.filter fun m => m.1 ≠ name

/-- Whether a table named on the way may be walked into. A dotted key must not reach into a table
that has been completed. -/
def isOpen (walker origin : Origin) : Bool :=
  match walker, origin with
  | _, .braces => false
  | .dottedKey, .header => false
  | _, _ => true

/-- Changes the table at the end of a path of keys, given the table `origin` with its members. The
tables on the way that are missing are made by the `walker`. Nothing if something else than an open
table is on the way, or if the change itself fails. -/
def alter (walker : Origin) (change : Origin → Members → Option Members) :
    Origin → List Key → Members → Option Members
  | origin, [], members => change origin members
  | _, key :: path, members =>
    match members.lookup key.name with
    | none => do
      let inner ← alter walker change walker path []
      some (members ++ [(key.name, key.place, .table walker inner)])
    | some (_, .table origin inner) =>
      if isOpen walker origin then do
        let inner ← alter walker change origin path inner
        some (members.replace key.name (.table origin inner))
      else none
    | some (_, .tables items) =>
      match items.getLast? with
      | some (place, inner) => do
        let inner ← alter walker change .header path inner
        some (members.replace key.name (.tables (items.dropLast ++ [(place, inner)])))
      | none => none
    | some _ => none

/-- Gives a key its value, if it has none yet. -/
def add (key : Key) (place : Place) (value : Value) (members : Members) : Option Members :=
  if (members.lookup key.name).isSome then none else some (members ++ [(key.name, place, value)])

/-- Gives a dotted key its value. The table that gets it must have been made by a dotted key too,
unless the key has one part only. -/
def put (origin : Origin) (path : List Key) (key : Key) (place : Place) (value : Value)
    (members : Members) : Option Members :=
  alter .dottedKey
    (fun here inner =>
      if path ≠ [] ∧ here ≠ .dottedKey then none else add key place value inner)
    origin path members

/-- Opens a table by its header. It may have been passed by other headers, and then goes behind
what was opened before. -/
def openTable (path : List Key) (key : Key) (place : Place) (members : Members) :
    Option Members :=
  alter .passedByHeader
    (fun _ inner =>
      match inner.lookup key.name with
      | none => some (inner ++ [(key.name, place, .table .header [])])
      | some (_, .table .passedByHeader kept) =>
        some (erase key.name inner ++ [(key.name, place, .table .header kept)])
      | some _ => none)
    .header path members

/-- Opens one more table of a list of tables. -/
def openNext (path : List Key) (key : Key) (place : Place) (members : Members) :
    Option Members :=
  alter .passedByHeader
    (fun _ inner =>
      match inner.lookup key.name with
      | none => some (inner ++ [(key.name, place, .tables [(place, [])])])
      | some (_, .tables items) =>
        some (inner.replace key.name (.tables (items ++ [(place, [])])))
      | some _ => none)
    .header path members

end Members

end ImageGateway.Toml
