import ImageGateway.Toml.Value

/-!
# The smallest parts of a TOML document

Spaces, comments, line ends, strings and keys, each read from the front of the characters. A reader
that fails gives the place where the document goes wrong.
-/

namespace ImageGateway.Toml

/-- Reads a part of a document from the front of the characters. -/
abbrev Reader (α : Type) := List Char → Except Place (α × List Char)

/-- The characters after one that must be there. -/
def after (c : Char) : List Char → Except Place (List Char)
  | d :: cs => if d = c then .ok cs else .error (cs.length + 1)
  | [] => .error 0

/-! ## Spaces and lines -/

/-- Space and tab. -/
def isSpace (c : Char) : Bool := c == ' ' || c == '\t'

/-- The characters from the first one that is not a space. -/
def skipSpaces (cs : List Char) : List Char := cs.dropWhile isSpace

/-- The characters that may stand in the text of a line: no control character but the tab. -/
def isText (c : Char) : Bool := c == '\t' || (32 ≤ c.toNat && c.toNat ≠ 127)

/-- The characters after a comment, if there is one. -/
def skipComment : List Char → List Char
  | '#' :: cs => cs.dropWhile isText
  | cs => cs

/-- The characters after a line break. -/
def afterBreak? : List Char → Option (List Char)
  | '\n' :: cs => some cs
  | '\r' :: '\n' :: cs => some cs
  | _ => none

/-- The characters after the end of a line, which is a line break or the end of the document. -/
def afterLineEnd (cs : List Char) : Except Place (List Char) :=
  if cs.isEmpty then .ok []
  else match afterBreak? cs with
    | some cs => .ok cs
    | none => .error cs.length

/-- The characters after a line of which only spaces and a comment are left. -/
def afterLine (cs : List Char) : Except Place (List Char) :=
  afterLineEnd (skipComment (skipSpaces cs))

/-- Skips at most `fuel` lines without content, and the spaces in front of what follows. -/
def skipLines : (fuel : Nat) → List Char → List Char
  | 0, cs => cs
  | fuel + 1, cs =>
    let cs := skipSpaces cs
    match afterBreak? (skipComment cs) with
    | some rest => skipLines fuel rest
    | none => cs

/-- The characters from the first one with content, over spaces, comments and line breaks. -/
def skipGap (cs : List Char) : List Char := skipLines (cs.length + 1) cs

/-! ## Strings -/

/-- The value of a hexadecimal digit. -/
def hexDigit? (c : Char) : Option Nat :=
  if c.isDigit then some (c.toNat - 48)
  else if 'a' ≤ c ∧ c ≤ 'f' then some (c.toNat - 87)
  else if 'A' ≤ c ∧ c ≤ 'F' then some (c.toNat - 55)
  else none

/-- The number that digits of a base give. -/
def ofDigits (base : Nat) (ds : List Char) : Nat :=
  ds.foldl (fun n d => n * base + (hexDigit? d).getD 0) 0

/-- The character with the code point given by `count` hexadecimal digits. -/
def codePoint (count : Nat) : Reader Char := fun cs =>
  let run := (cs.take count).takeWhile fun c => (hexDigit? c).isSome
  let n := ofDigits 16 run
  if run.length = count ∧ n.isValidChar then .ok (Char.ofNat n, cs.drop count)
  else .error cs.length

/-- The character that an escape of one letter stands for. -/
def letterEscape? (c : Char) : Option Char :=
  if c = 'b' then some '\x08'
  else if c = 't' then some '\t'
  else if c = 'n' then some '\n'
  else if c = 'f' then some '\x0c'
  else if c = 'r' then some '\r'
  else if c = '"' then some '"'
  else if c = '\\' then some '\\'
  else none

/-- The character that an escape stands for, after its backslash. An unknown letter is noticed
behind it if it is an ASCII character, and otherwise at it. -/
def escape : Reader Char
  | [] => .error 1
  | c :: cs =>
    match letterEscape? c with
    | some e => .ok (e, cs)
    | none =>
      if c = 'u' then codePoint 4 cs
      else if c = 'U' then codePoint 8 cs
      else .error (if c.toNat < 128 then cs.length else cs.length + 1)

/-- The text of a string of one line with escapes, after its opening quote. -/
def basicText : (fuel : Nat) → Reader (List Char)
  | 0, cs => .error cs.length
  | _, [] => .error 0
  | fuel + 1, c :: cs =>
    if c = '"' then .ok ([], cs)
    else if c = '\\' then do
      let (e, cs) ← escape cs
      let (text, cs) ← basicText fuel cs
      .ok (e :: text, cs)
    else if isText c then do
      let (text, cs) ← basicText fuel cs
      .ok (c :: text, cs)
    else .error (cs.length + 1)

/-- The text of a string of one line without escapes, after its opening quote. -/
def literalText : Reader (List Char) := fun cs =>
  let isInside := fun c => isText c && c != '\''
  match after '\'' (cs.dropWhile isInside) with
  | .ok rest => .ok (cs.takeWhile isInside, rest)
  | .error place => .error place

/-- The characters from the first one that is neither a space nor part of a line break. -/
def skipBreaks : List Char → List Char
  | '\r' :: '\n' :: cs => skipBreaks cs
  | c :: cs => if isSpace c || c = '\n' then skipBreaks cs else c :: cs
  | [] => []

/-- One piece of the text of a string of several lines, if there is one. A backslash at the end of a
line stands for nothing, together with the line break and the spaces and breaks after it. -/
def piece? (quote : Char) (escapes : Bool) :
    List Char → Option (Except Place (List Char × List Char))
  | [] => none
  | c :: cs =>
    if escapes && c = '\\' then
      if cs.isEmpty then none
      else match afterBreak? (skipSpaces cs) with
        | some rest => some (.ok ([], skipBreaks rest))
        | none => some ((escape cs).map fun (e, rest) => ([e], rest))
    else match afterBreak? (c :: cs) with
      | some rest => some (.ok (['\n'], rest))
      | none => if isText c && c ≠ quote then some (.ok ([c], cs)) else none

/-- The text of a string of several lines. It ends with three quotes; one or two may stand inside
it, also directly before those at its end. -/
def linesText (quote : Char) (escapes : Bool) : (fuel : Nat) → Reader (List Char)
  | 0, cs => .error cs.length
  | fuel + 1, cs =>
    let quotes := cs.takeWhile (· = quote)
    if 3 ≤ quotes.length then
      let inside := min 2 (quotes.length - 3)
      .ok (List.replicate inside quote, cs.drop (inside + 3))
    else match piece? quote escapes (cs.drop quotes.length) with
      | none => .error cs.length
      | some (.error place) => .error place
      | some (.ok (piece, rest)) => do
        let (text, rest) ← linesText quote escapes fuel rest
        .ok (quotes ++ piece ++ text, rest)

/-- A string of several lines after its opening quotes; a line break there does not count. -/
def lines (quote : Char) (escapes : Bool) : Reader (List Char) := fun cs =>
  let cs := (afterBreak? cs).getD cs
  linesText quote escapes (cs.length + 1) cs

/-- A string of any of the four kinds. -/
def string : Reader String := fun cs =>
  let text := match cs with
    | '"' :: '"' :: '"' :: rest => lines '"' true rest
    | '\'' :: '\'' :: '\'' :: rest => lines '\'' false rest
    | '"' :: rest => basicText (rest.length + 1) rest
    | '\'' :: rest => literalText rest
    | _ => .error cs.length
  text.map fun (text, rest) => (String.ofList text, rest)

/-! ## Keys -/

/-- The characters of a key without quotes. -/
def isBare (c : Char) : Bool := c.isAlphanum || c == '_' || c == '-'

/-- Whether a key begins at the front. -/
def startsKey : List Char → Bool
  | c :: _ => isBare c || c == '"' || c == '\''
  | [] => false

/-- One part of a key. -/
def keyPart : Reader Key := fun cs =>
  let text := match cs with
    | '"' :: rest => basicText (rest.length + 1) rest
    | '\'' :: rest => literalText rest
    | _ =>
      if startsKey cs then .ok (cs.takeWhile isBare, cs.dropWhile isBare) else .error cs.length
  text.map fun (name, rest) => (⟨String.ofList name, cs.length⟩, rest)

/-- The parts of a key, with points between them. A point that no part follows is left over. -/
def keyParts : (fuel : Nat) → Reader (List Key)
  | 0, cs => .error cs.length
  | fuel + 1, cs => do
    let (part, rest) ← keyPart (skipSpaces cs)
    let rest := skipSpaces rest
    match rest with
    | '.' :: more =>
      if startsKey (skipSpaces more) then
        let (parts, rest) ← keyParts fuel more
        .ok (part :: parts, rest)
      else .ok ([part], rest)
    | _ => .ok ([part], rest)

/-- How deep values may be nested, and how many parts a key may have. -/
def nestingLimit : Nat := 80

/-- A key as the parts before the last one, and the last one. The spaces around it are skipped. -/
def key : Reader (List Key × Key) := fun cs => do
  let (parts, rest) ← keyParts (cs.length + 1) cs
  match parts.getLast? with
  | some last =>
    if nestingLimit ≤ parts.length then .error cs.length else .ok ((parts.dropLast, last), rest)
  | none => .error cs.length

end ImageGateway.Toml
