import ImageGateway.Bytes
import ImageGateway.Toml.Reader

/-!
# TOML documents

A document is a sequence of lines: headers that open tables, and assignments to keys of the table
opened last. `parse` gives the members of the whole document or the place of the first fault, and
`positionOf` turns a place into the line and the column to report.
-/

namespace ImageGateway.Toml

/-- What has been read of a document: its members, and the path of the table opened last. -/
structure Draft where
  members : Members
  path : List Key

namespace Draft

/-- The draft of an empty document. -/
def empty : Draft := ⟨[], []⟩

/-- Gives a key of the table opened last its value. -/
def assign (d : Draft) (a : Assignment) : Option Draft := do
  let members ← Members.alter .passedByHeader
    (fun here inner => Members.put here a.path a.key a.place a.value inner)
    .header d.path d.members
  some { d with members }

/-- Opens a table. -/
def openTable (d : Draft) (path : List Key) (key : Key) (place : Place) : Option Draft := do
  let members ← d.members.openTable path key place
  some ⟨members, path ++ [key]⟩

/-- Opens one more table of a list of tables. -/
def openNext (d : Draft) (path : List Key) (key : Key) (place : Place) : Option Draft := do
  let members ← d.members.openNext path key place
  some ⟨members, path ++ [key]⟩

end Draft

/-- The draft after a step, or a fault at `place` if the step contradicts what was read before. -/
def orFault (place : Place) (d : Option Draft) (rest : List Char) :
    Except Place (Draft × List Char) :=
  match d with
  | some d => .ok (d, rest)
  | none => .error place

/-- How deep the values of a document may be nested. -/
def valueDepth : Nat := nestingLimit - 1

/-- An assignment on a line of its own. -/
def assignmentLine (d : Draft) : Reader Draft := fun cs => do
  let (a, rest) ← assignment (value valueDepth) cs
  let rest ← afterLine rest
  orFault cs.length (d.assign a) rest

/-- A header between single or double brackets, on a line of its own. -/
def headerLine (d : Draft) : Reader Draft := fun cs =>
  match cs with
  | '[' :: '[' :: inner => do
    let ((path, last), rest) ← key inner
    match rest with
    | ']' :: ']' :: rest =>
      let rest ← afterLine rest
      orFault cs.length (d.openNext path last cs.length) rest
    | _ => .error rest.length
  | '[' :: inner => do
    if inner.isEmpty then .error cs.length
    else
      let ((path, last), rest) ← key inner
      let rest ← after ']' rest
      let rest ← afterLine rest
      orFault cs.length (d.openTable path last cs.length) rest
  | _ => .error cs.length

/-- One line, whose first character is not a space. -/
def line (d : Draft) : Reader Draft := fun cs =>
  match cs with
  | [] => .ok (d, [])
  | c :: _ =>
    if c = '#' then (afterLineEnd (skipComment cs)).map fun rest => (d, rest)
    else if c = '[' then headerLine d cs
    else if c = '\n' || c = '\r' then (afterLineEnd cs).map fun rest => (d, rest)
    else assignmentLine d cs

/-- The rest of a document, of at most `fuel` lines. -/
def linesFrom : (fuel : Nat) → Draft → List Char → Except Place Draft
  | 0, _, cs => .error cs.length
  | fuel + 1, d, cs =>
    let cs := skipSpaces cs
    if cs.isEmpty then .ok d
    else do
      let (d, rest) ← line d cs
      linesFrom fuel d rest

/-- The characters without the byte order mark that may be at the front. -/
def withoutMark : List Char → List Char
  | '\uFEFF' :: cs => cs
  | cs => cs

/-- The members of a document, or the place of its first fault. -/
def parse (cs : List Char) : Except Place Members :=
  (linesFrom (cs.length + 1) .empty (withoutMark cs)).map (·.members)

/-! ## Positions -/

/-- A line and a column, both counted from one. -/
structure Position where
  line : Nat
  column : Nat
  deriving DecidableEq, Repr

/-- The characters after the last line break. -/
def lastLine (cs : List Char) : List Char := (cs.reverse.takeWhile (· ≠ '\n')).reverse

/-- The position of the character `c` after `before`. The column counts characters, but in front of
a character that is not ASCII it counts the bytes of their UTF-8 form. -/
def positionAt (before : List Char) (c : Char) : Position where
  line := before.count '\n' + 1
  column := (if c.toNat < 128 then (lastLine before).length
    else (Bytes.ofChars (lastLine before)).length) + 1

/-- The position of a place. The end of a document is one column behind its last character, also
where that is a line break. -/
def positionOf (cs : List Char) (place : Place) : Position :=
  match cs.drop (cs.length - place) with
  | c :: _ => positionAt (cs.take (cs.length - place)) c
  | [] =>
    match cs.getLast? with
    | none => ⟨1, 1⟩
    | some c => ⟨cs.dropLast.count '\n' + 1, (lastLine cs.dropLast ++ [c]).length + 1⟩

end ImageGateway.Toml
