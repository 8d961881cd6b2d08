import ImageGateway.Config.Basic
import ImageGateway.Toml.Document

/-!
# Configuration documents

A document changes the fields that it names; all others keep their defaults. Fields that are not
known are passed over, but a known field must have a value of its type.
-/

namespace ImageGateway.Config

open Toml (Place Value)
open Storage (FilePath)

/-- Changes a part of the configuration as a value of the document says; the result is an error at
the place of the value if that is of another type. -/
abbrev Setter (α : Type) := Place → Value → α → Except Place α

/-! ## Single values -/

/-- The text that a value is. -/
def text : Place → Value → Except Place String
  | _, .string s => .ok s
  | place, _ => .error place

/-- The path that a value is. -/
def path (place : Place) (v : Value) : Except Place FilePath := (text place v).map FilePath.mk

/-- The natural number below a bound that a value is. -/
def numberBelow (bound : Nat) : Place → Value → Except Place Nat
  | place, .integer n => if 0 ≤ n ∧ n < bound then .ok n.toNat else .error place
  | place, _ => .error place

/-- The number of 16 bits that a value is. -/
def word16 (place : Place) (v : Value) : Except Place UInt16 :=
  (numberBelow UInt16.size place v).map UInt16.ofNat

/-- The number of 64 bits that a value is. -/
def word64 (place : Place) (v : Value) : Except Place UInt64 :=
  (numberBelow UInt64.size place v).map UInt64.ofNat

/-- The truth value that a value is. -/
def truth : Place → Value → Except Place Bool
  | _, .boolean b => .ok b
  | place, _ => .error place

/-! ## Sections -/

/-- Sets the fields that members name, in the order of the members. -/
def setMembers (fields : List (String × Setter α)) (members : Toml.Members) (x : α) :
    Except Place α :=
  members.foldlM (fun x (name, place, v) =>
    match fields.lookup name with
    | some set => set place v x
    | none => .ok x) x

/-- Sets the first fields to the given values. -/
def setItems (fields : List (String × Setter α)) (items : List (Place × Value)) (x : α) :
    Except Place α :=
  (fields.zip items).foldlM (fun x ((_, set), (place, v)) => set place v x) x

/-- Sets the fields of a section. It is a table of them, or an array with the values of the first of
them; a date names no field. -/
def setSection (fields : List (String × Setter α)) : Setter α
  | _, .table _ members, x => setMembers fields members x
  | _, .array items, x => setItems fields items x
  | _, .tables items, x =>
    setItems fields (items.map fun (place, members) => (place, .table .header members)) x
  | _, .dateTime _, x => .ok x
  | place, _, _ => .error place

/-- The fields of the server section. -/
def serverFields : List (String × Setter ServerConfig) :=
  [("bind_host", fun place v c => do .ok { c with bindHost := ← text place v }),
    ("port", fun place v c => do .ok { c with port := ← word16 place v }),
    ("max_body_bytes", fun place v c => do .ok { c with maxBodyBytes := ← word64 place v }),
    ("enable_cors", fun place v c => do .ok { c with enableCors := ← truth place v })]

/-- The fields of the backend section. -/
def backendFields : List (String × Setter BackendConfig) :=
  [("host", fun place v c => do .ok { c with host := ← text place v }),
    ("port", fun place v c => do .ok { c with port := ← word16 place v }),
    ("generate_path", fun place v c => do .ok { c with generatePath := ← text place v }),
    ("request_timeout_secs", fun place v c => do
      .ok { c with requestTimeoutSecs := ← word64 place v })]

/-- The fields of the storage section. -/
def storageFields : List (String × Setter StorageConfig) :=
  [("results_dir", fun place v c => do .ok { c with resultsDir := ← path place v }),
    ("web_dir", fun place v c => do .ok { c with webDir := ← path place v }),
    ("defaults_file", fun place v c => do .ok { c with defaultsFile := some (← path place v) })]

/-- The sections of a document. -/
def sections : List (String × Setter Config) :=
  [("server", fun place v c => do
      .ok { c with server := ← setSection serverFields place v c.server }),
    ("backend", fun place v c => do
      .ok { c with backend := ← setSection backendFields place v c.backend }),
    ("storage", fun place v c => do
      .ok { c with storage := ← setSection storageFields place v c.storage })]

/-- The configuration with the changes of a document, or the place of the first fault. -/
def ofDocument (c : Config) (cs : List Char) : Except Place Config := do
  setMembers sections (← Toml.parse cs) c

end ImageGateway.Config
