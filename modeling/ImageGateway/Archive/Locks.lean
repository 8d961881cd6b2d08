import ImageGateway.Project

/-!
# Locks of projects

Each project has one lock, made when it is first asked for and kept ever after. A lock is named by
its place in the table.
-/

namespace ImageGateway

/-- The projects that have a lock, in the order in which they got it, and the locks that are
held. -/
structure LockTable where
  owners : List Project
  held : List Nat
  deriving Repr

namespace LockTable

/-- The table without any lock. -/
def empty : LockTable := ⟨[], []⟩

/-- The lock of a project, which is made if there is none yet. -/
def handle (locks : LockTable) (p : Project) : Nat × LockTable :=
  match locks.owners.findIdx? (· == p) with
  | some lock => (lock, locks)
  | none => (locks.owners.length, { locks with owners := locks.owners ++ [p] })

/-- The locks of several projects, asked for one after the other. -/
def handles (locks : LockTable) : List Project → List Nat × LockTable
  | [] => ([], locks)
  | p :: rest =>
    let (lock, locks) := locks.handle p
    let (more, locks) := locks.handles rest
    (lock :: more, locks)

/-- Whether a lock could be taken now. -/
def isFree (locks : LockTable) (lock : Nat) : Bool := !locks.held.contains lock

/-- Takes a lock if it is free, and says whether it was. -/
def tryLock (locks : LockTable) (lock : Nat) : Bool × LockTable :=
  if locks.isFree lock then (true, { locks with held := lock :: locks.held }) else (false, locks)

/-- Tries to take locks one after the other; those taken stay held. -/
def tryLocks (locks : LockTable) : List Nat → List Bool × LockTable
  | [] => ([], locks)
  | lock :: rest =>
    let (taken, locks) := locks.tryLock lock
    let (more, locks) := locks.tryLocks rest
    (taken :: more, locks)

end LockTable

end ImageGateway
