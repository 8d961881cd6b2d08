import ImageGateway.Toml.DateTime
import ImageGateway.Toml.Number

/-!
# Reading TOML values

`value` reads a value of any kind whose arrays and tables are nested at most to a given depth.
-/

namespace ImageGateway.Toml

/-! ## Values without parts -/

/-- The characters after a word, if it is at the front. -/
def afterWord? : List Char → List Char → Option (List Char)
  | [], cs => some cs
  | w :: word, c :: cs => if w = c then afterWord? word cs else none
  | _ :: _, [] => none

/-- A word that stands for a value. -/
def word (text : String) (v : Value) : Reader Value := fun cs =>
  match afterWord? text.toList cs with
  | some rest => .ok (v, rest)
  | none => .error cs.length

/-- A date, a time or a number. -/
def numeric : Reader Value := fun cs =>
  match dateTime? cs with
  | some result => result
  | none => number cs

/-- Whether what follows a sign can be a number. -/
def followsSign (cs : List Char) : Bool :=
  match cs with
  | c :: _ => c.isDigit || (specialFloat? false cs).isSome
  | [] => false

/-- Whether a value begins at the front. -/
def startsValue : List Char → Bool
  | c :: cs =>
    if c = '+' || c = '-' then followsSign cs
    else if c = 'i' || c = 'n' then (specialFloat? false (c :: cs)).isSome
    else c.isDigit || ['"', '\'', '[', '\x7b', 't', 'f'].contains c
  | [] => false

/-! ## Arrays and tables in braces -/

/-- The items of an array after its opening bracket, or after a comma. A comma may stand after the
last one. -/
def arrayItems (item : Reader Value) : (fuel : Nat) → Reader (List (Place × Value))
  | 0, cs => .error cs.length
  | fuel + 1, cs =>
    let cs := skipGap cs
    if startsValue cs then do
      let (v, rest) ← item cs
      match skipGap rest with
      | ',' :: rest => do
        let (items, rest) ← arrayItems item fuel rest
        .ok ((cs.length, v) :: items, rest)
      | rest => do
        let rest ← after ']' rest
        .ok ([(cs.length, v)], rest)
    else do
      let rest ← after ']' cs
      .ok ([], rest)

/-- A key with its value. -/
structure Assignment where
  path : List Key
  key : Key
  place : Place
  value : Value

/-- A key, an equals sign and a value. -/
def assignment (item : Reader Value) : Reader Assignment := fun cs => do
  let ((path, last), rest) ← key cs
  let rest ← after '=' rest
  let rest := skipSpaces rest
  let (v, after) ← item rest
  .ok (⟨path, last, rest.length, v⟩, after)

/-- The members of a table in braces, after its opening brace or after a comma at `comma`. No comma
may stand after the last one. -/
def braceItems (item : Reader Value) :
    (fuel : Nat) → (comma : Option Place) → Reader (List Assignment)
  | 0, _, cs => .error cs.length
  | fuel + 1, comma, cs =>
    let cs := skipSpaces cs
    if startsKey cs then do
      let (a, rest) ← assignment item cs
      match skipSpaces rest with
      | ',' :: rest => do
        let (items, rest) ← braceItems item fuel (some (rest.length + 1)) rest
        .ok (a :: items, rest)
      | rest => do
        let rest ← after '\x7d' rest
        .ok ([a], rest)
    else match comma with
      | some place => .error place
      | none => do
        let rest ← after '\x7d' cs
        .ok ([], rest)

/-- The table that assignments give, if they do not contradict each other. -/
def tableOf? (origin : Origin) (items : List Assignment) : Option Members :=
  items.foldlM (fun members a => Members.put origin a.path a.key a.place a.value members) []

/-- A value whose arrays and tables are nested less than `depth` deep. -/
def value : (depth : Nat) → Reader Value
  | depth, cs =>
    match cs with
    | [] => .error 0
    | c :: rest =>
      if c = '"' || c = '\'' then (string cs).map fun (s, rest) => (.string s, rest)
      else if c = 't' then word "true" (.boolean true) cs
      else if c = 'f' then word "false" (.boolean false) cs
      else if c = 'i' || c = 'n' then
        match specialFloat? false cs with
        | some result => .ok result
        | none => .error cs.length
      else if c.isDigit || c = '+' || c = '-' then numeric cs
      else match depth with
        | 0 => .error cs.length
        | depth + 1 =>
          if c = '[' then
            (arrayItems (value depth) cs.length rest).map fun (items, rest) =>
              (.array items, rest)
          else if c = '\x7b' then do
            let (items, after) ← braceItems (value depth) cs.length none rest
            match tableOf? .braces items with
            | some members => .ok (.table .braces members, after)
            | none => .error rest.length
          else .error cs.length

end ImageGateway.Toml
