import ImageGateway.Proofs.Archive.FailedDeletions
import ImageGateway.Proofs.Archive.Operations

/-!
# Calls for different projects commute

A `Call` is an operation with its arguments, or the question for the records of a project. What is
done for one project leaves a tree that looks the same to any other (`looksAlike_after`). So of two
calls for different projects neither can tell whether it comes first, and the tree is in the end the
same in either order (`calls_commute`): where one call changes something, the other never does.
-/

set_option autoImplicit false

namespace ImageGateway

open Storage Storage.FileTree

/-- What a call answers. -/
inductive Archive.Reply where
  /-- The records that were made, or that are listed. -/
  | records (records : List Record)
  /-- Whether there was a record to be moved or removed. -/
  | done (there : Bool)
  /-- How many images were removed. -/
  | cleared (images : Nat)

/-- An operation on a project, or the question for its records. -/
inductive Archive.Call where
  | operation (op : Operation)
  | history

variable {a : Archive} {p q : Project} {t s : FileTree} {root loc : Location}

/-- The program of an operation. -/
def Operation.run (a : Archive) (p : Project) : Operation → Disk Archive.Reply
  | .recordBatch tokens request answer elapsed => do
    let created ← a.recordBatch p tokens request answer elapsed
    pure (.records created)
  | .moveForward id => do
    let there ← a.moveForward p id
    pure (.done there)
  | .moveBack id => do
    let there ← a.moveBack p id
    pure (.done there)
  | .remove id => do
    let there ← a.remove p id
    pure (.done there)
  | .clear => do
    let images ← a.clear p
    pure (.cleared images)

namespace Archive.Call

/-- The program of a call. -/
def run (a : Archive) (p : Project) : Call → Disk Reply
  | .operation op => op.run a p
  | .history => do
    let t ← get
    pure (.records (a.history p t))

/-- What a call answers on a file tree. -/
def answer (a : Archive) (p : Project) (call : Call) : FileTree → Except Storage.Error Reply :=
  outcome (call.run a p)

/-- The file tree after a call, whether or not it failed. -/
def after (a : Archive) (p : Project) (call : Call) : FileTree → FileTree :=
  treeAfter (call.run a p)

theorem confined_run (call : Call) : a.Confined p IsOwnName (call.run a p) := by
  cases call with
  | history => exact confined_bind confined_get fun _ => confined_pure _
  | operation op =>
    cases op with
    | recordBatch tokens request answer elapsed =>
      exact confined_bind (confined_recordBatch tokens request answer elapsed)
        fun _ => confined_pure _
    | moveForward id =>
      exact confined_bind (confined_moveForward id) fun _ => confined_pure _
    | moveBack id =>
      exact confined_bind (confined_moveBack id) fun _ => confined_pure _
    | remove id =>
      exact confined_bind (confined_remove id) fun _ => confined_pure _
    | clear => exact confined_bind confined_clear fun _ => confined_pure _

theorem local_run (call : Call) : a.Local p root (call.run a p) := by
  cases call with
  | history =>
    exact local_get_load (fun state => pure (Reply.records state.records)) fun _ =>
      local_pure _
  | operation op =>
    cases op with
    | recordBatch tokens request answer elapsed =>
      exact local_bind (local_recordBatch tokens request answer elapsed)
        fun _ => local_pure _
    | moveForward id =>
      exact local_bind (local_moveForward id) fun _ => local_pure _
    | moveBack id =>
      exact local_bind (local_moveBack id) fun _ => local_pure _
    | remove id =>
      exact local_bind (local_remove id) fun _ => local_pure _
    | clear => exact local_bind local_clear fun _ => local_pure _

/-! ## One call -/

/-- What a call for a project changes is in the place of the project. -/
theorem entry_after (h : a.IsAt root t) (call : Call) (loc : Location) :
    (call.after a p t).find? loc = t.find? loc ∨ loc = p.place root ∧ t.find? loc = none ∨
      ∃ name, IsOwnName name ∧ loc = p.place root ++ [name] := by
  obtain ⟨sound, touches⟩ := confined_run (a := a) (p := p) call t h.sound h.hasNoLinks
  rcases h.entry sound touches loc with same | ⟨gone, -, here⟩ | ⟨name, own, here, -⟩
  · exact .inl same
  · exact .inr (.inl ⟨here, gone⟩)
  · exact .inr (.inr ⟨name, own, here⟩)

theorem isAt_after (h : a.IsAt root t) (call : Call) : a.IsAt root (call.after a p t) :=
  h.treeAfter (confined_run call)

/-- What is done for one project looks the same to any other. -/
theorem looksAlike_after (h : a.IsAt root t) (hne : p ≠ q) (call : Call) :
    a.LooksAlike p root t (call.after a q t) := by
  obtain ⟨sound, touches⟩ := confined_run (a := a) (p := q) call t h.sound h.hasNoLinks
  -- the places and the files of two projects are apart
  refine ⟨⟨touches.keeps.toSameLinks, ?_, fun name own =>
    h.find?_file_of_touches sound touches own (.inl hne)⟩, h, isAt_after h call⟩
  rcases entry_after h (p := q) call (p.place root) with same | ⟨here, -⟩ | ⟨name, own, here⟩
  · exact same
  · exact absurd here (Project.place_ne hne root)
  · exact absurd here.symm (Project.place_append_ne_place own q p root)

/-- On trees that look alike to its project a call answers the same and leaves trees that look
alike. -/
theorem after_of_looksAlike (h : a.LooksAlike p root t s) (call : Call) :
    call.answer a p s = call.answer a p t ∧
      a.LooksAlike p root (call.after a p t) (call.after a p s) := by
  have same := local_run (a := a) (p := p) call t s h
  rw [answer, after, outcome, outcome, treeAfter, treeAfter]
  generalize call.run a p t = left at same ⊢
  generalize call.run a p s = right at same ⊢
  cases same with
  | ok x alike => exact ⟨rfl, alike⟩
  | error e alike => exact ⟨rfl, alike⟩

/-! ## Two calls -/

/-- Where a call for a project may change something. -/
def IsTouched (p : Project) (root loc : Location) : Prop :=
  loc = p.place root ∨ ∃ name, IsOwnName name ∧ loc = p.place root ++ [name]

theorem find?_after (h : a.IsAt root t) (hloc : ¬ IsTouched p root loc) (call : Call) :
    (call.after a p t).find? loc = t.find? loc := by
  rcases entry_after h (p := p) call loc with same | ⟨here, -⟩ | own
  · exact same
  · exact absurd (.inl here) hloc
  · exact absurd (.inr own) hloc

/-- A call does the same to its project before and after one for another project. -/
theorem find?_after_after (h : a.IsAt root t) (hne : p ≠ q) (c d : Call)
    (hloc : ¬ IsTouched q root loc) :
    (c.after a p (d.after a q t)).find? loc = (d.after a q (c.after a p t)).find? loc := by
  have alike := (after_of_looksAlike (looksAlike_after h hne d) c).2
  -- the call for the other project leaves this location as it is, in either order
  rw [find?_after (isAt_after h c) hloc d]
  by_cases own : IsTouched p root loc
  · rcases own with rfl | ⟨name, own, rfl⟩
    · exact alike.place
    · exact alike.files name own
  · rw [find?_after (isAt_after h d) own c, find?_after h hloc d, find?_after h own c]

/-- No location is touched for two projects. -/
theorem not_isTouched_of_ne (hne : p ≠ q) (hloc : IsTouched p root loc) :
    ¬ IsTouched q root loc := by
  rcases hloc with rfl | ⟨name, own, rfl⟩
  · rintro (here | ⟨name', own', here⟩)
    · exact Project.place_ne hne root here
    · exact Project.place_append_ne_place own' q p root here.symm
  · rintro (here | ⟨name', -, here⟩)
    · exact Project.place_append_ne_place own p q root here
    · exact Project.place_append_ne hne root name name' here

/-- Of two calls for different projects each answers the same whether it comes first or second, and
the order makes no difference to the file tree. -/
theorem calls_commute (h : a.IsAt root t) (hne : p ≠ q) (c d : Call) :
    c.answer a p (d.after a q t) = c.answer a p t ∧
      d.answer a q (c.after a p t) = d.answer a q t ∧
      SameTree (d.after a q (c.after a p t)) (c.after a p (d.after a q t)) := by
  have first := looksAlike_after h hne d
  have second := looksAlike_after h (Ne.symm hne) c
  refine ⟨(after_of_looksAlike first c).1, (after_of_looksAlike second d).1, ?_, fun loc => ?_⟩
  · have after := after_of_looksAlike first c
    have kept := looksAlike_after (isAt_after h c (p := p)) hne d
    exact after.2.links.working.trans kept.links.working.symm
  · -- where nothing is touched for one of the projects the call for the other decides
    by_cases touched : IsTouched q root loc
    · exact (find?_after_after h (Ne.symm hne) d c
        (not_isTouched_of_ne (Ne.symm hne) touched)).symm
    · exact find?_after_after h hne c d touched

/-- Records an image. -/
def recordOne : Call :=
  .operation (.recordBatch (fun _ => zeroToken) [] (answerOf ["AQ=="]).compact 0)

def clearing : Call := .operation .clear

theorem isAt_blockedProject (name : String) : results.IsAt ["results"] (blockedProject name) := by
  refine ⟨isSound_blockedImages _ _, ⟨mostLinks, leads_results rfl rfl⟩, fun loc target _ _ => ?_⟩
  exact find?_ne_link (by simp [blockedProject, blockedImages]) loc target

/-- Both images and the ledger are removed. -/
theorem answer_clearing : clearing.answer results .global (blockedProject "cats")
    = .ok (.cleared 2) := by
  have cleared : results.clear .global (blockedProject "cats")
      = .ok 2 ((removedBoth "cats").erase ["results", "history.json"]) := by
    refine clear_of_steps (u := removedBoth "cats") rfl ?_ rfl rfl rfl
    rw [load_blockedProject]
    exact removeListedImages_blockedProject "cats"
  rw [answer, outcome, clearing, run, Operation.run, run_bind_of_ok cleared]
  rfl

/-- The image gets the first number. -/
theorem answer_recordOne : recordOne.answer results .cats (blockedProject "cats")
    = .ok (.records [firstRecord [] 0 zeroToken "AQ=="]) := by
  have usable : IsUsable .cats ["results"] (blockedProject "cats") := by
    refine isUsable_of_entries (by decide) rfl ?_
    have deep : (Project.cats.place ["results"]).length = 2 := rfl
    simp [blockedProject, blockedImages, deep]
  obtain ⟨s, recorded⟩ : ∃ s, results.recordBatch .cats (fun _ => zeroToken) []
      (answerOf ["AQ=="]).compact 0 (blockedProject "cats")
        = .ok [firstRecord [] 0 zeroToken "AQ=="] s :=
    recordBatch_first_ok usable (isAt_blockedProject "cats") (batchImages_compact ["AQ=="])
      (load_eq_absent rfl) (imagePath_one results .cats ▸ (by decide))
      (by decide)
  rw [answer, outcome, recordOne, run, Operation.run, run_bind_of_ok recorded]
  rfl

/-- The first image of one project is recorded in the directory from which two images of the other and
their ledger are removed. -/
theorem calls_commute_global :
    Project.cats ≠ Project.global ∧
      recordOne.answer results .cats (blockedProject "cats")
        = .ok (.records [firstRecord [] 0 zeroToken "AQ=="]) ∧
      clearing.answer results .global (blockedProject "cats") = .ok (.cleared 2) ∧
      (recordOne.answer results .cats (clearing.after results .global (blockedProject "cats"))
        = recordOne.answer results .cats (blockedProject "cats") ∧
      clearing.answer results .global (recordOne.after results .cats (blockedProject "cats"))
        = clearing.answer results .global (blockedProject "cats") ∧
      SameTree
        (clearing.after results .global (recordOne.after results .cats (blockedProject "cats")))
        (recordOne.after results .cats (clearing.after results .global (blockedProject "cats")))) :=
  ⟨by decide, answer_recordOne, answer_clearing,
    calls_commute (isAt_blockedProject "cats") (by decide) recordOne clearing⟩

end Archive.Call

end ImageGateway
