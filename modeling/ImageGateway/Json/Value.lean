import ImageGateway.Decimal.Shortest

/-!
# JSON values

An object is the list of its members in the order of their keys, each key once (`Members.insert`
keeps it so). A number that is an integer of 64 bits, with or without a sign, is kept as that
integer; any other number is a floating point number.
-/

namespace ImageGateway.Json

/-- A number of a document. -/
inductive Number where
  | integer (value : Int)
  | float (value : Decimal.Binary64)
  deriving DecidableEq, Repr

/-- A value of a document. -/
inductive Value where
  | null
  | bool (value : Bool)
  | number (value : Number)
  | string (value : String)
  | array (items : List Value)
  | object (members : List (String × Value))
  deriving Repr, Inhabited

/-- The members of an object. -/
abbrev Members := List (String × Value)

/-- Puts a member in its place in the order of the keys; the last value for a key wins. -/
def Members.insert (key : String) (value : Value) : Members → Members
  | [] => [(key, value)]
  | (k, v) :: rest =>
    if key < k then (key, value) :: (k, v) :: rest
    else if key = k then (key, value) :: rest
    else (k, v) :: insert key value rest

/-- The members in the order of their keys, of those with one key the last. -/
def Members.ofList (members : List (String × Value)) : Members :=
  members.foldl (fun sorted member => Members.insert member.1 member.2 sorted) []

/-- The unsigned integer of 64 bits that a value is. -/
def Value.word? : Value → Option UInt64
  | .number (.integer n) => if 0 ≤ n ∧ n < UInt64.size then some (UInt64.ofNat n.toNat) else none
  | _ => none

/-- The text that a value is. -/
def Value.string? : Value → Option String
  | .string s => some s
  | _ => none

/-- The members of the object that a value is. -/
def Value.object? : Value → Option Members
  | .object members => some members
  | _ => none

/-- An unsigned integer of 64 bits as a value. -/
def Value.ofWord (n : UInt64) : Value := .number (.integer n.toNat)

end ImageGateway.Json
