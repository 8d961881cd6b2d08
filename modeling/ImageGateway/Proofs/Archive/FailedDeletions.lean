import ImageGateway.Proofs.Archive.Unfailing
import ImageGateway.Proofs.Storage.Removing

/-!
# Deletions that fail

Image files are deleted before the ledger is written anew or removed, so that a deletion that fails
may have deleted some whose records are still listed. These are the image that was to be removed, and
all images of a project that was to be cleared when a file beside the ledger is in the way; every
other image of a record that is still listed is kept (`images_of_deletion_error`).
-/

set_option autoImplicit false

namespace ImageGateway.Archive

open Storage Storage.FileTree

variable {a : Archive} {p : Project} {t s u : FileTree} {dir loc : Location} {id : RecordId}
  {records : List Record} {e : Error} {gone : Location → Prop}

/-! ## What is still listed -/

/-- Different images of a project are at different locations. -/
theorem eq_of_locate_imagePath {i j : RecordId} (hi : t.locate false (a.imagePath p i) = .ok loc)
    (hj : t.locate false (a.imagePath p j) = .ok loc) : i = j := by
  have component : ∀ id, FilePath.IsComponent (Record.imageFileName id) :=
    fun id => isComponent_of_isImageFileName (isImage_imageFileName id)
  obtain ⟨dir₁, left₁, -, last₁⟩ := locate_join (component i) hi
  obtain ⟨dir₂, left₂, -, last₂⟩ := locate_join (component j) hj
  have same := eq_of_walk_one_false (component i).isName last₁
  rw [eq_of_walk_one_false (component j).isName last₂] at same
  have names := (List.append_inj' same rfl).2
  exact (imageFileName_injective (List.cons.inj names).1).symm

/-- Records that are listed after files have been removed were listed before. -/
theorem load_of_erases (h : t.Erases gone s) (hlisted : a.history p s ≠ []) :
    a.load p t = .present (a.history p s) := by
  obtain ⟨content, read⟩ := readFile_of_load (load_eq_present hlisted)
  rw [← load_eq_present hlisted]
  exact load_congr ((h.readFile read).trans read.symm)

/-- If the records could not be written, only directories have been made, or nothing is listed. -/
theorem grown_of_persist_error (hs : t.IsSound) (h : a.persist p records t = .error e s)
    (hlisted : a.history p s ≠ []) : Grown (a.projectDir p) t s := by
  rcases persist_error_cases hs h with rfl | ⟨dir, blocked⟩
  · exact grown_makeDirs hs (a.projectDir p)
  -- the directory that is in the way is not read as a ledger
  obtain ⟨-, keeps⟩ := builds_of_writeFile blocked.written (isSound_makeDirs hs (a.projectDir p))
  have loaded := load_of_directory (blocked.leads.keep keeps) blocked.walkable
    (keeps.directory _ blocked.directory)
  rw [history, loaded] at hlisted
  exact absurd rfl hlisted

/-! ## Removing an image -/

/-- Removing a record removes its image and then writes the other records, if there was one. -/
theorem remove_eq_settle (a : Archive) (p : Project) (id : RecordId) (t : FileTree) :
    ∃ u, t.Erases (t.IsThere (a.imagePath p id)) u ∧
      a.remove p id t = a.settle p (a.load p t).isUnreadable
        (commitIf (without? id (a.load p t).records)) u := by
  obtain ⟨removed, u, run⟩ := tryRemove_ok (a.imagePath p id) t
  have erases := erases_tryRemove (a.imagePath p id) t
  rw [treeAfter, run] at erases
  have changed : (a.removeImage p id >>= fun _ =>
      pure (commitIf (without? id (a.load p t).records)) : Disk (Commit Bool)) t
      = .ok (commitIf (without? id (a.load p t).records)) u := run_bind_of_ok run
  refine ⟨u, erases, ?_⟩
  rw [remove, update_eq, run_bind, changed]

/-- After the image has been removed nothing more has been done, or the other records of a ledger that
could be read were to be written. -/
theorem remove_cases_of_image (a : Archive) (p : Project) (id : RecordId) (t : FileTree) :
    ∃ u, t.Erases (t.IsThere (a.imagePath p id)) u ∧
      (a.remove p id t = .ok false u ∨
        (a.load p t).isUnreadable = false ∧ ∃ records,
          without? id (a.load p t).records = some records ∧
          ((∃ s, a.persist p records u = .ok () s ∧ a.remove p id t = .ok true s) ∨
            ∃ e s, a.persist p records u = .error e s ∧ a.remove p id t = .error e s)) := by
  obtain ⟨u, erases, run⟩ := remove_eq_settle a p id t
  refine ⟨u, erases, ?_⟩
  rw [run]
  cases listed : without? id (a.load p t).records with
  | none => exact .inl rfl
  | some records =>
    -- what cannot be read lists nothing to be removed
    have readable : (a.load p t).isUnreadable = false := by
      cases loaded : a.load p t with
      | unreadable =>
        rw [loaded] at listed
        exact absurd listed (by simp [LedgerState.records, without?])
      | _ => rfl
    rw [readable]
    refine .inr ⟨rfl, records, rfl, ?_⟩
    cases persisted : a.persist p records u with
    | ok x s => exact .inl ⟨s, rfl, run_bind_of_ok persisted⟩
    | error e s => exact .inr ⟨e, s, rfl, run_bind_of_error persisted⟩

/-- A file other than the image that was to be removed is kept, if anything is listed. -/
theorem find?_of_remove_error {content : Bytes} (hs : t.IsSound)
    (h : a.remove p id t = .error e s) (hlisted : a.history p s ≠ [])
    (hloc : t.locate false (a.imagePath p id) ≠ .ok loc)
    (hfile : t.find? loc = some (.file content)) : s.find? loc = some (.file content) := by
  obtain ⟨u, erases, run⟩ := remove_cases_of_image a p id t
  have kept : u.find? loc = some (.file content) := by
    rcases erases.entry loc with same | ⟨⟨located, -⟩, -⟩
    · exact same.trans hfile
    · exact absurd located hloc
  rcases run with run | ⟨-, records, -, ⟨u', -, run⟩ | ⟨e', u', failed, run⟩⟩
  · exact absurd (run.symm.trans h) (by simp)
  · exact absurd (run.symm.trans h) (by simp)
  -- the records could not be written, which has at most made directories where nothing was
  obtain ⟨rfl, rfl⟩ := EStateM.Result.error.inj (run.symm.trans h)
  rcases (grown_of_persist_error (erases.isSound hs) failed hlisted).entry loc with
    same | ⟨missing, -⟩
  · exact same.trans kept
  · exact absurd (missing.symm.trans kept) (by simp)

/-! ## Clearing a project -/

theorem erases_removeCounting (paths : List FilePath) (t : FileTree) :
    t.Erases (fun loc => ∃ path ∈ paths, t.IsThere path loc)
      (treeAfter (removeCounting paths) t) := by
  induction paths generalizing t with
  | nil => exact .refl _ t
  | cons path rest ih =>
    obtain ⟨removed, u, first⟩ := tryRemove_ok path t
    obtain ⟨n, s, more⟩ := removeCounting_ok rest u
    have erases := erases_tryRemove path t
    have others := ih u
    rw [treeAfter, first] at erases
    rw [treeAfter, more] at others
    rw [treeAfter, removeCounting, run_bind_of_ok first, run_bind_of_ok more]
    -- what the other paths lead to after the first file has gone they led to before
    refine (erases.mono ?_).trans (others.mono ?_)
    · exact fun loc there => ⟨path, List.mem_cons_self, there⟩
    · rintro loc ⟨other, listed, there⟩
      exact ⟨other, List.mem_cons_of_mem path listed, there.of_erases erases⟩

/-- The paths of the images that clearing a project removes. -/
def IsCleared (a : Archive) (p : Project) : LedgerState → FilePath → Prop
  | .absent, _ => False
  | .present records, path => ∃ r ∈ records, path = a.imagePath p r.id
  | .unreadable, path => a.IsImagePath p path

theorem removeListedImages_eq_ok (state : LedgerState) (t : FileTree) :
    ∃ n u, a.removeListedImages p state t = .ok n u ∧
      t.Erases (fun loc => ∃ path, a.IsCleared p state path ∧ t.IsThere path loc) u := by
  -- images that cannot be removed are passed over, whatever the state lists
  have counted : ∀ paths : List FilePath, (∀ path ∈ paths, a.IsCleared p state path) →
      ∃ n u, removeCounting paths t = .ok n u ∧
        t.Erases (fun loc => ∃ path, a.IsCleared p state path ∧ t.IsThere path loc) u := by
    intro paths cleared
    obtain ⟨n, u, run⟩ := removeCounting_ok paths t
    have erases := erases_removeCounting paths t
    rw [treeAfter, run] at erases
    refine ⟨n, u, run, erases.mono ?_⟩
    rintro loc ⟨path, listed, there⟩
    exact ⟨path, cleared path listed, there⟩
  cases state with
  | absent => exact ⟨0, t, rfl, .refl _ t⟩
  | present records =>
    refine counted _ fun path listed => ?_
    obtain ⟨r, hr, rfl⟩ := List.mem_map.mp listed
    exact ⟨r, hr, rfl⟩
  | unreadable =>
    rw [removeListedImages, removeAllImages]
    cases t.list (a.projectDir p) with
    | error fault => exact ⟨0, t, rfl, .refl _ t⟩
    | ok names =>
      refine counted _ fun path listed => ?_
      obtain ⟨name, hname, rfl⟩ := List.mem_map.mp listed
      exact ⟨name, (List.mem_filter.mp hname).2, rfl⟩

/-- What clearing a project has removed when it fails at one of the files beside the ledger. -/
def IsClearedFrom (a : Archive) (p : Project) (t : FileTree) (loc : Location) : Prop :=
  (∃ path, a.IsCleared p (a.load p t) path ∧ t.IsThere path loc) ∨ t.IsThere (a.temporaryPath p) loc

/-- If something is left beside the ledger, it is because of one of these files. -/
theorem removeBeside_eq_error (h : a.removeBeside p (a.load p t) t = .error e s) :
    ∃ fault, (e = .io (a.temporaryPath p) fault ∨ e = .io (a.asidePath p) fault) ∧
      t.Erases (a.IsClearedFrom p t) s := by
  obtain ⟨n, u, images, erases⟩ := removeListedImages_eq_ok (a := a) (p := p) (a.load p t) t
  have cleared : t.Erases (a.IsClearedFrom p t) u := erases.mono fun loc => .inl
  rw [removeBeside, run_bind_of_ok images] at h
  -- the temporary file is removed before what has been moved aside
  rcases error_of_run_bind h with failed | ⟨_, v, removed, h⟩
  · obtain ⟨rfl, fault, rfl, -⟩ := removeIfPresent_eq_error failed
    exact ⟨fault, .inl rfl, cleared⟩
  have temporary := erases_removeIfPresent (a.temporaryPath p) u
  rw [treeAfter, removed] at temporary
  rcases error_of_run_bind h with failed | ⟨_, w, -, returned⟩
  · obtain ⟨rfl, fault, rfl, -⟩ := removeIfPresent_eq_error failed
    refine ⟨fault, .inr rfl, cleared.trans (temporary.mono fun loc there => ?_)⟩
    exact .inr (there.of_erases cleared)
  · cases returned

theorem erases_of_removeBeside {state : LedgerState} {n : Nat}
    (h : a.removeBeside p state t = .ok n s) : t.Erases (fun _ => True) s := by
  obtain ⟨m, u, images, erases⟩ := removeListedImages_eq_ok (a := a) (p := p) state t
  rw [removeBeside, run_bind_of_ok images] at h
  obtain ⟨_, v, removed, h⟩ := ok_of_run_bind h
  obtain ⟨_, w, removed', returned⟩ := ok_of_run_bind h
  obtain ⟨-, rfl⟩ := EStateM.Result.ok.inj returned
  have temporary := erases_removeIfPresent (a.temporaryPath p) u
  have aside := erases_removeIfPresent (a.asidePath p) v
  rw [treeAfter, removed] at temporary
  rw [treeAfter, removed'] at aside
  exact (erases.mono fun _ _ => trivial).trans
    ((temporary.mono fun _ _ => trivial).trans (aside.mono fun _ _ => trivial))

/-- Clearing a project fails before it does anything, or because of one of the files beside the
ledger. -/
theorem clear_eq_error (h : a.clear p t = .error e s) :
    s = t ∨ ∃ fault, (e = .io (a.temporaryPath p) fault ∨ e = .io (a.asidePath p) fault) ∧
      t.Erases (a.IsClearedFrom p t) s := by
  have cleared : ∀ {there}, a.ledgerIsThere p t = .ok there t →
      ((∃ content, t.statLink (a.ledgerPath p) = .ok (.file content)) ∨
        t.statLink (a.ledgerPath p) = .error .notFound) →
      a.removeBeside p (a.load p t) t = .error e s := by
    intro there looked hthere
    rw [clear_of_ledgerIsThere looked] at h
    rcases error_of_run_bind h with beside | ⟨removed, u, beside, h⟩
    · exact beside
    · -- the ledger was a file or missing, so that removing it at last does not fail
      rcases error_of_run_bind h with failed | ⟨_, _, -, returned⟩
      · obtain ⟨-, fault, -, failed, notMissing⟩ := removeIfPresent_eq_error failed
        exact absurd ((erases_of_removeBeside beside).removeFile_error hthere failed) notMissing
      · cases returned
  rcases a.ledgerIsThere_cases p t with ⟨content, found, run⟩ | ⟨missing, run⟩ | ⟨e', run⟩
  · exact .inr (removeBeside_eq_error (cleared run (.inl ⟨content, found⟩)))
  · exact .inr (removeBeside_eq_error (cleared run (.inr missing)))
  · rw [clear_eq, run_bind_of_error run] at h
    exact .inl (EStateM.Result.error.inj h).2.symm

/-- Clearing a project only removes files and links, whether or not it fails. -/
theorem erases_clear (a : Archive) (p : Project) (t : FileTree) :
    t.Erases (fun _ => True) (treeAfter (a.clear p) t) := by
  rw [treeAfter]
  cases run : a.clear p t with
  | error e s =>
    rcases clear_eq_error run with rfl | ⟨-, -, erases⟩
    · exact .refl _ s
    · exact erases.mono fun _ _ => trivial
  | ok n s =>
    have cleared : ∀ {there}, a.ledgerIsThere p t = .ok there t → t.Erases (fun _ => True) s := by
      intro there looked
      rw [clear_of_ledgerIsThere looked] at run
      obtain ⟨_, u, beside, run⟩ := ok_of_run_bind run
      obtain ⟨_, v, removed, returned⟩ := ok_of_run_bind run
      obtain ⟨-, rfl⟩ := EStateM.Result.ok.inj returned
      have ledger := erases_removeIfPresent (a.ledgerPath p) u
      rw [treeAfter, removed] at ledger
      exact (erases_of_removeBeside beside).trans (ledger.mono fun _ _ => trivial)
    rcases a.ledgerIsThere_cases p t with ⟨-, -, looked⟩ | ⟨-, looked⟩ | ⟨e, failed⟩
    · exact cleared looked
    · exact cleared looked
    · rw [clear_eq, run_bind_of_error failed] at run
      cases run

/-! ## The images that are kept -/

/-- A deletion that fails keeps the images of the records that are listed afterwards. The exceptions
are the image that was to be removed, and the images of a project that was to be cleared, if the fault
is that of a file beside the ledger; in that case only images of listed records and the temporary file
have been removed. -/
theorem images_of_deletion_error (hs : t.IsSound) :
    (∀ id e s, a.remove p id t = .error e s →
      ∀ r ∈ a.history p s, r.id ≠ id → ∀ loc content,
        t.locate false (a.imagePath p r.id) = .ok loc → t.find? loc = some (.file content) →
        s.find? loc = some (.file content)) ∧
    ∀ e s, a.clear p t = .error e s →
      s = t ∨ a.history p s = [] ∨
        ∃ records fault, a.load p t = .present records ∧
          (e = .io (a.temporaryPath p) fault ∨ e = .io (a.asidePath p) fault) ∧
          t.Erases (fun loc => (∃ r ∈ records, t.IsThere (a.imagePath p r.id) loc) ∨
            t.IsThere (a.temporaryPath p) loc) s := by
  constructor
  · intro id e s h r hr differs loc content located file
    refine find?_of_remove_error hs h (List.ne_nil_of_mem hr) (fun here => ?_) file
    exact differs (eq_of_locate_imagePath located here)
  · intro e s h
    rcases clear_eq_error h with same | ⟨fault, blamed, erases⟩
    · exact .inl same
    by_cases hlisted : a.history p s = []
    · exact .inr (.inl hlisted)
    have loaded := load_of_erases erases hlisted
    refine .inr (.inr ⟨_, fault, loaded, blamed, erases.mono ?_⟩)
    rintro loc (⟨path, cleared, there⟩ | there)
    · rw [loaded] at cleared
      obtain ⟨r, hr, rfl⟩ := cleared
      exact .inl ⟨r, hr, there⟩
    · exact .inr there

/-! ## With a directory in the way -/

/-- A project with two images, with a directory of a given name beside them. -/
def blockedImages (name : String) (ledger : Bytes) : FileTree where
  entries := [(["results"], .directory), (["results", "history.json"], .file ledger),
    (["results", "00001.png"], .file [1]), (["results", "00002.png"], .file [2]),
    (["results", name], .directory)]
  workingDirectory := []

theorem isSound_blockedImages (name : String) (ledger : Bytes) :
    (blockedImages name ledger).IsSound := by
  refine isSound_of_entries (fun e listed => ?_) rfl
  simp only [blockedImages, List.mem_cons, List.not_mem_nil, or_false] at listed
  rcases listed with rfl | rfl | rfl | rfl | rfl <;> rfl

/-- The two records of the project. -/
def blockedRecords : List Record := [⟨"", [], 0, 1, none⟩, ⟨"", [], 0, 2, none⟩]

theorem load_of_readFile_blockedRecords
    (h : t.readFile (a.ledgerPath p) = .ok (Record.document blockedRecords)) :
    a.load p t = .present blockedRecords := by
  rw [load_of_readFile h]
  rfl

/-- The project with its ledger. -/
def blockedProject (name : String) : FileTree :=
  blockedImages name (Record.document blockedRecords)

theorem load_blockedProject (name : String) :
    results.load .global (blockedProject name) = .present blockedRecords :=
  load_of_readFile_blockedRecords rfl

theorem imagePath_two (a : Archive) (p : Project) :
    a.imagePath p 2 = (a.projectDir p).join "00002.png" := by
  have two : Decimal.padded 5 (2 : RecordId).toNat = "00002".toList := by decide +kernel
  rw [imagePath, Record.imageFileName, two]
  rfl

/-- The project after the first image has been removed. -/
def removedFirst (name : String) : FileTree := (blockedProject name).erase ["results", "00001.png"]

/-- The project after both images have been removed. -/
def removedBoth (name : String) : FileTree := (removedFirst name).erase ["results", "00002.png"]

theorem tryRemove_blockedProject (name : String) :
    Disk.tryRemove (results.imagePath .global 1) (blockedProject name)
      = .ok true (removedFirst name) := by
  rw [imagePath_one]
  rfl

theorem tryRemove_removedFirst (name : String) :
    Disk.tryRemove (results.imagePath .global 2) (removedFirst name)
      = .ok true (removedBoth name) := by
  rw [imagePath_two]
  rfl

theorem remove_blockedProject :
    results.remove .global 1 (blockedProject temporaryName)
      = .error (.io (results.temporaryPath .global) .isADirectory) (removedFirst temporaryName) := by
  have change : (results.removeImage .global 1 >>= fun _ =>
      pure (commitIf (without? 1 blockedRecords)) : Disk (Commit Bool)) (blockedProject temporaryName)
      = .ok (commitIf (without? 1 blockedRecords)) (removedFirst temporaryName) :=
    run_bind_of_ok (tryRemove_blockedProject temporaryName)
  rw [remove, update_eq, load_blockedProject]
  exact (run_bind_of_ok change).trans rfl

theorem images_of_deletion_error_blockedProject :
    (blockedProject temporaryName).IsSound ∧ ∃ e s,
      results.remove .global 1 (blockedProject temporaryName) = .error e s ∧
        ∃ r ∈ results.history .global s, r.id ≠ 1 ∧
          s.find? ["results", "00002.png"] = some (.file [2]) := by
  have sound : (blockedProject temporaryName).IsSound := isSound_blockedImages _ _
  have second : (⟨"", [], 0, 2, none⟩ : Record)
      ∈ results.history .global (removedFirst temporaryName) := by
    rw [history, load_of_readFile_blockedRecords rfl]
    exact List.mem_cons_of_mem _ List.mem_cons_self
  have located : (blockedProject temporaryName).locate false (results.imagePath .global 2)
      = .ok ["results", "00002.png"] := by
    rw [imagePath_two]
    rfl
  refine ⟨sound, _, _, remove_blockedProject, _, second, by decide, ?_⟩
  exact (images_of_deletion_error sound).1 1 _ _ remove_blockedProject _ second (by decide) _ [2]
    located rfl

theorem removeListedImages_blockedProject (name : String) :
    results.removeListedImages .global (.present blockedRecords) (blockedProject name)
      = .ok 2 (removedBoth name) := by
  have paths : blockedRecords.map (fun r => results.imagePath .global r.id)
      = [results.imagePath .global 1, results.imagePath .global 2] := rfl
  have rest : removeCounting [] (removedBoth name) = .ok 0 (removedBoth name) := rfl
  rw [removeListedImages, paths, removeCounting, run_bind_of_ok (tryRemove_blockedProject name),
    run_bind, removeCounting, run_bind_of_ok (tryRemove_removedFirst name), run_bind_of_ok rest]
  rfl

theorem clear_blockedProject {name : String} (h : name = temporaryName ∨ name = asideName) :
    results.clear .global (blockedProject name)
      = .error (.io ((results.projectDir .global).join name) .isADirectory) (removedBoth name) := by
  have there : results.ledgerIsThere .global (blockedProject name) = .ok true (blockedProject name) :=
    rfl
  rw [clear_of_ledgerIsThere there, load_blockedProject]
  refine run_bind_of_error ?_
  rw [removeBeside, run_bind_of_ok (removeListedImages_blockedProject name)]
  rcases h with rfl | rfl
  · exact run_bind_of_error rfl
  · have absent : Disk.removeIfPresent (results.temporaryPath .global) (removedBoth asideName)
        = .ok () (removedBoth asideName) := rfl
    rw [run_bind_of_ok absent]
    exact run_bind_of_error rfl

/-- The first image of the project has gone while its record is still listed. -/
def LosesFirst (t s : FileTree) : Prop :=
  ∃ r ∈ results.history .global s, r.id = 1 ∧
    t.statLink (results.imagePath .global r.id) = .ok (.file [1]) ∧
    s.statLink (results.imagePath .global r.id) = .error .notFound

/-- With a directory in the place of the temporary file the image that was to be removed has gone
while its record is still listed. With a directory there, or where a ledger is moved aside to, it is
the same for all images of a project that was to be cleared. -/
theorem images_lost_blockedProject :
    (∃ e s, results.remove .global 1 (blockedProject temporaryName) = .error e s ∧
      LosesFirst (blockedProject temporaryName) s) ∧
    (∃ e s, results.clear .global (blockedProject temporaryName) = .error e s ∧
      LosesFirst (blockedProject temporaryName) s) ∧
    ∃ e s, results.clear .global (blockedProject asideName) = .error e s ∧
      LosesFirst (blockedProject asideName) s := by
  have first : ∀ {t s : FileTree},
      s.readFile (results.ledgerPath .global) = .ok (Record.document blockedRecords) →
      t.statLink ((results.projectDir .global).join "00001.png") = .ok (.file [1]) →
      s.statLink ((results.projectDir .global).join "00001.png") = .error .notFound →
      LosesFirst t s := by
    intro t s read before after
    rw [← imagePath_one] at before after
    refine ⟨⟨"", [], 0, 1, none⟩, ?_, rfl, before, after⟩
    rw [history, load_of_readFile_blockedRecords read]
    exact List.mem_cons_self
  exact ⟨⟨_, _, remove_blockedProject, first rfl rfl rfl⟩,
    ⟨_, _, clear_blockedProject (.inl rfl), first rfl rfl rfl⟩,
    ⟨_, _, clear_blockedProject (.inr rfl), first rfl rfl rfl⟩⟩

end ImageGateway.Archive
