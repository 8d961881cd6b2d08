import ImageGateway.Proofs.Archive.Changes

/-!
# Runs of the archive

An `Operation` is one of the five programs with its arguments. Where no links are below the results
directory, it stays so whatever is done and whether or not it fails (`isAt_after`), and nothing but the
project is touched (`touches_after`): the ledgers of all other projects stay as they are
(`load_after_of_ne`).
-/

set_option autoImplicit false

namespace ImageGateway

open Storage Storage.FileTree

/-- A program that works on a project, with its arguments. -/
inductive Operation where
  | recordBatch (tokens : Nat → Record.CacheToken) (request answer : Bytes) (elapsed : UInt64)
  | moveForward (id : RecordId)
  | moveBack (id : RecordId)
  | remove (id : RecordId)
  | clear

namespace Operation

variable {a : Archive} {p q : Project} {t : FileTree} {root : Location}

/-- The file tree after an operation, whether or not it failed. -/
def after (a : Archive) (p : Project) : Operation → FileTree → FileTree
  | .recordBatch tokens request answer elapsed =>
    treeAfter (a.recordBatch p tokens request answer elapsed)
  | .moveForward id => treeAfter (a.moveForward p id)
  | .moveBack id => treeAfter (a.moveBack p id)
  | .remove id => treeAfter (a.remove p id)
  | .clear => treeAfter (a.clear p)

/-- The file tree after operations on projects, one after the other. -/
def afterAll (a : Archive) (ops : List (Project × Operation)) (t : FileTree) : FileTree :=
  ops.foldl (fun t op => op.2.after a op.1 t) t

/-- No operation touches anything but its project. -/
theorem touches_after (h : a.IsAt root t) (op : Operation) :
    (op.after a p t).IsSound ∧ a.Touches p IsOwnName t (op.after a p t) := by
  cases op with
  | recordBatch tokens request answer elapsed =>
    rw [after]
    exact Archive.confined_recordBatch tokens request answer elapsed t h.sound h.hasNoLinks
  | moveForward id =>
    rw [after]
    exact Archive.confined_moveForward id t h.sound h.hasNoLinks
  | moveBack id =>
    rw [after]
    exact Archive.confined_moveBack id t h.sound h.hasNoLinks
  | remove id =>
    rw [after]
    exact Archive.confined_remove id t h.sound h.hasNoLinks
  | clear =>
    rw [after]
    exact Archive.confined_clear t h.sound h.hasNoLinks

theorem isAt_after (h : a.IsAt root t) (op : Operation) : a.IsAt root (op.after a p t) :=
  h.of_touches (touches_after h op)

/-- The ledgers of other projects stay as they are. -/
theorem load_after_of_ne (h : a.IsAt root t) (op : Operation) (hne : q ≠ p) :
    a.load q (op.after a p t) = a.load q t := by
  obtain ⟨sound, touches⟩ := touches_after h (p := p) op
  exact Archive.load_of_touches h sound touches (fun _ own => own) (.inl hne)

end Operation

end ImageGateway
