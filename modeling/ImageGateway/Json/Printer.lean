import ImageGateway.Json.Value

/-!
# Writing JSON

`Value.compact` writes a value without blanks, `Value.indented` on lines of their own with one tab
for each level. Members are written in the order in which they are listed.
-/

namespace ImageGateway.Json

/-- A hexadecimal digit in lower case. -/
def hexDigit (n : Nat) : Char := Nat.digitChar n

/-- One character inside a string. The quote, the backslash and the control characters below the
space are escaped, the latter by letter where there is one; everything else stands for itself. -/
def escapedChar (c : Char) : List Char :=
  if c = '"' then ['\\', '"']
  else if c = '\\' then ['\\', '\\']
  else if c = '\x08' then ['\\', 'b']
  else if c = '\x0c' then ['\\', 'f']
  else if c = '\n' then ['\\', 'n']
  else if c = '\r' then ['\\', 'r']
  else if c = '\t' then ['\\', 't']
  else if c.toNat < 32 then
    ['\\', 'u', '0', '0', hexDigit (c.toNat / 16), hexDigit (c.toNat % 16)]
  else [c]

/-- A string with its quotes. -/
def stringText (s : String) : Bytes :=
  34 :: (Bytes.ofChars (s.toList.flatMap escapedChar) ++ [34])

/-- Positional up to sixteen digits before the point and four zeros after it. -/
def floatLayout : Decimal.Layout := ⟨-5, 16⟩

/-- The characters of an integer with its sign. -/
def integerChars (n : Int) : List Char :=
  if n < 0 then '-' :: Decimal.digits n.natAbs else Decimal.digits n.natAbs

/-- A number. -/
def numberText : Number → Bytes
  | .integer n => Bytes.ofChars (integerChars n)
  | .float x => Bytes.ofChars (x.render floatLayout)

/-- The words of the language. -/
def wordNull : Bytes := [110, 117, 108, 108]
def wordTrue : Bytes := [116, 114, 117, 101]
def wordFalse : Bytes := [102, 97, 108, 115, 101]

mutual

/-- The text of a value without blanks. -/
def Value.compact : Value → Bytes
  | .null => wordNull
  | .bool b => if b then wordTrue else wordFalse
  | .number n => numberText n
  | .string s => stringText s
  | .array items => 91 :: (Value.compactItems items ++ [93])
  | .object members => 123 :: (Value.compactMembers members ++ [125])

/-- The items of an array with commas between them. -/
def Value.compactItems : List Value → Bytes
  | [] => []
  | [item] => item.compact
  | item :: rest => item.compact ++ 44 :: Value.compactItems rest

/-- The members of an object with commas between them. -/
def Value.compactMembers : List (String × Value) → Bytes
  | [] => []
  | [(key, value)] => stringText key ++ 58 :: value.compact
  | (key, value) :: rest =>
    stringText key ++ 58 :: (value.compact ++ 44 :: Value.compactMembers rest)

end

/-- A new line with the given number of tabs. -/
def newLine (level : Nat) : Bytes := 10 :: List.replicate level 9

mutual

/-- The text of a value at a level of indentation. -/
def Value.indentedAt (level : Nat) : Value → Bytes
  | .null => wordNull
  | .bool b => if b then wordTrue else wordFalse
  | .number n => numberText n
  | .string s => stringText s
  | .array [] => [91, 93]
  | .array (item :: items) =>
    91 :: (Value.indentedItems (level + 1) (item :: items) ++ newLine level ++ [93])
  | .object [] => [123, 125]
  | .object (member :: members) =>
    123 :: (Value.indentedMembers (level + 1) (member :: members) ++ newLine level ++ [125])

/-- The items of an array, each on its line. -/
def Value.indentedItems (level : Nat) : List Value → Bytes
  | [] => []
  | [item] => newLine level ++ item.indentedAt level
  | item :: rest =>
    newLine level ++ item.indentedAt level ++ 44 :: Value.indentedItems level rest

/-- The members of an object, each on its line, with a blank after the colon. -/
def Value.indentedMembers (level : Nat) : List (String × Value) → Bytes
  | [] => []
  | [(key, value)] => newLine level ++ stringText key ++ 58 :: 32 :: value.indentedAt level
  | (key, value) :: rest =>
    newLine level ++ stringText key ++ 58 :: 32 :: (value.indentedAt level ++
      44 :: Value.indentedMembers level rest)

end

/-- The text of a value, indented with tabs. -/
def Value.indented (v : Value) : Bytes := v.indentedAt 0

end ImageGateway.Json
