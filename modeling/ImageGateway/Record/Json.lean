import ImageGateway.Json.Printer
import ImageGateway.Json.Reader
import ImageGateway.Record.Basic

/-!
# Records as JSON

A record is written as an object with its fields in a fixed order, the seed only if there is one. It
is read from such an object with the fields in any order, where some may be missing and unknown ones
are stepped over, or from an array of the fields in their order. A list of records is an array;
`null` stands for the empty list.
-/

namespace ImageGateway.Record

/-! ## Writing -/

/-- The record as a JSON value. -/
def toValue (r : Record) : Json.Value :=
  .object <|
    [ ("imageName", .string r.imageName),
      ("taskData", .object r.taskData),
      ("genTime", .ofWord r.genTime),
      ("ID", .ofWord r.id) ]
    ++ match r.seed with
      | some seed => [("seed", .ofWord seed)]
      | none => []

/-- The text of a record without blanks. -/
def compact (r : Record) : Bytes := r.toValue.compact

/-- Records as a JSON value. -/
def listValue (records : List Record) : Json.Value := .array (records.map toValue)

/-- The text of a list of records without blanks. -/
def compactList (records : List Record) : Bytes := (listValue records).compact

/-- The document that a list of records is stored as, indented with tabs. -/
def document (records : List Record) : Bytes := (listValue records).indented

/-! ## Reading -/

/-- One field as it was read. -/
inductive Field where
  | imageName (value : String)
  | taskData (value : Json.Members)
  | genTime (value : UInt64)
  | id (value : UInt64)
  | seed (value : Option UInt64)
  | unknown

/-- Reads a value and makes a field of it. -/
def fieldOf (depth : Nat) (f : Json.Value → Option Field) : Json.Reader Field := fun bs => do
  let (v, rest) ← Json.value depth bs
  let field ← f v
  some (field, rest)

/-- The fields that a value can be. -/
def imageNameOf? (v : Json.Value) : Option Field := v.string?.map .imageName
def taskDataOf? (v : Json.Value) : Option Field := v.object?.map .taskData
def genTimeOf? (v : Json.Value) : Option Field := v.word?.map .genTime
def idOf? (v : Json.Value) : Option Field := v.word?.map .id

/-- A seed may also be given as missing. -/
def seedOf? : Json.Value → Option Field
  | .null => some (.seed none)
  | v => v.word?.map fun n => .seed (some n)

/-- Reads the field with a given key. The image has two names, and unknown fields are stepped
over. -/
def named (depth : Nat) (key : String) : Json.Reader Field :=
  if key = "imageName" ∨ key = "imageURL" then fieldOf depth imageNameOf?
  else if key = "taskData" then fieldOf depth taskDataOf?
  else if key = "genTime" then fieldOf depth genTimeOf?
  else if key = "ID" then fieldOf depth idOf?
  else if key = "seed" then fieldOf depth seedOf?
  else fun bs => (Json.skip bs).map fun (_, rest) => (.unknown, rest)

/-- The readers of the fields in their order. -/
def inOrder (depth : Nat) : List (Json.Reader Field) :=
  [imageNameOf?, taskDataOf?, genTimeOf?, idOf?, seedOf?].map (fieldOf depth)

/-- The one value in a list, where there may be none. More than one is refused. -/
def atMostOne? : List α → Option (Option α)
  | [] => some none
  | [x] => some (some x)
  | _ => none

/-- What each kind of field picks out of a field. -/
def Field.imageName? : Field → Option String
  | .imageName v => some v
  | _ => none
def Field.taskData? : Field → Option Json.Members
  | .taskData v => some v
  | _ => none
def Field.genTime? : Field → Option UInt64
  | .genTime v => some v
  | _ => none
def Field.id? : Field → Option UInt64
  | .id v => some v
  | _ => none
def Field.seed? : Field → Option (Option UInt64)
  | .seed v => some v
  | _ => none

/-- The record with the given fields. No field may be given twice; the name of the image and the
number of the record must be given. -/
def ofFields? (fields : List Field) : Option Record := do
  let imageName ← (← atMostOne? (fields.filterMap Field.imageName?))
  let taskData ← atMostOne? (fields.filterMap Field.taskData?)
  let genTime ← atMostOne? (fields.filterMap Field.genTime?)
  let id ← (← atMostOne? (fields.filterMap Field.id?))
  let seed ← atMostOne? (fields.filterMap Field.seed?)
  some {
    imageName
    taskData := taskData.getD []
    genTime := genTime.getD 0
    id
    seed := seed.getD none }

/-- Reads a record whose fields are nested at most `depth` deep. -/
def read (depth : Nat) : Json.Reader Record := fun bs => do
  let (fields, rest) ← Json.fields (named depth) (inOrder depth) bs
  let r ← ofFields? fields
  some (r, rest)

/-- The record that a document holds. -/
def ofJson? (doc : Bytes) : Option Record := (read (Json.maxDepth - 1)).whole? doc

/-- Reads a list of records. -/
def readList : Json.Reader (List Record)
  | 91 :: rest => Json.listing 93 (read (Json.maxDepth - 2)) rest
  | _ => none

/-- The records that a document lists. -/
def listOfJson? (doc : Bytes) : Option (List Record) := readList.whole? doc

/-- Reads a list of records, or nothing. -/
def readListOrNull : Json.Reader (List Record) := fun bs =>
  match Json.afterWord? Json.wordNull bs with
  | some rest => some ([], rest)
  | none => readList bs

/-- The records that a stored document lists. -/
def ofDocument? (doc : Bytes) : Option (List Record) := readListOrNull.whole? doc

end ImageGateway.Record
