import ImageGateway.Record.Basic
import ImageGateway.Storage.Fault

/-!
# Numbering records

New records are numbered from the largest number in use upwards. When the largest number of 64 bits
is taken there is no further one.
-/

namespace ImageGateway

/-- The last number given out. -/
structure Numbering where
  last : RecordId
  deriving DecidableEq, Repr

namespace Numbering

/-- Numbering that starts above all given numbers. -/
def above (ids : List RecordId) : Numbering := ⟨ids.foldl max 0⟩

/-- Numbering that starts above the numbers of all records. -/
def aboveRecords (records : List Record) : Numbering := above (records.map Record.id)

/-- The next number. -/
def next (n : Numbering) : Except Storage.Error (RecordId × Numbering) :=
  if n.last.toNat + 1 < UInt64.size then .ok (n.last + 1, ⟨n.last + 1⟩)
  else .error (.idsExhausted n.last)

/-- Asks for the next number. If there is none, the numbering stays as it is. -/
def ask (n : Numbering) : Except Storage.Error RecordId × Numbering :=
  match n.next with
  | .ok (id, rest) => (.ok id, rest)
  | .error e => (.error e, n)

/-- Asks for several numbers, one after the other. -/
def asks (n : Numbering) : Nat → List (Except Storage.Error RecordId) × Numbering
  | 0 => ([], n)
  | count + 1 =>
    let (answer, n) := n.ask
    let (more, n) := n.asks count
    (answer :: more, n)

end Numbering

end ImageGateway
