import ImageGateway.Proofs.Archive.FailedUpdates
import ImageGateway.Proofs.Archive.Readback
import ImageGateway.Proofs.Storage.Overwriting

/-!
# Batches that fail

The images of a batch are written before the ledger, and nothing of what has been done is undone when
a later step fails. So a batch that fails leaves the images it has written, over files that were in
their place, and a ledger that could not be read where it has been moved aside
(`leftByBatch_of_recordBatch_error`). Only where the directory of the project had to be made first
can the temporary file have been left too.
-/

set_option autoImplicit false

namespace ImageGateway.Archive

open Storage Storage.FileTree

variable {a : Archive} {p : Project} {t s u : FileTree} {dir loc : Location} {last : RecordId}
  {count : Nat} {records : List Record} {content : Bytes} {e : Error}

/-! ## Writing the images -/

/-- The tree once the directory of a project has been made, as far as it can be. -/
def prepared (a : Archive) (p : Project) (t : FileTree) : FileTree :=
  (t.makeDirs (a.projectDir p)).2

theorem prepared_of_leadsTo (hs : t.IsSound) (hled : t.LeadsTo (a.projectDir p) dir) :
    a.prepared p t = t :=
  makeDirs_of_blocks hs hled rfl (.refl t)

/-- The path of an image with one of the next numbers leads to a location. -/
def IsNextImage (a : Archive) (p : Project) (t : FileTree) (last : RecordId) (count : Nat)
    (loc : Location) : Prop :=
  ∃ id : RecordId, last.toNat < id.toNat ∧ id.toNat ≤ last.toNat + count ∧
    t.locate true (a.imagePath p id) = .ok loc

/-- In the directory of a project an image is written, and nothing else is done. -/
theorem overwrites_writeImage (hs : t.IsSound) (hled : t.LeadsTo (a.projectDir p) dir)
    (id : RecordId) (content : Bytes) :
    t.Overwrites (fun loc => t.locate true (a.imagePath p id) = .ok loc)
      (treeAfter (a.writeImage p id content) t) := by
  -- the directory is there, so that making it changes nothing
  have unmade : (t.makeDirs (a.projectDir p)).2 = t := prepared_of_leadsTo hs hled
  have made : treeAfter (Disk.makeDirs (a.projectDir p)) t = t :=
    (treeAfter_makeDirs _ t).trans unmade
  rw [treeAfter] at made
  rw [treeAfter, writeImage]
  cases hmade : Disk.makeDirs (a.projectDir p) t with
  | error e s =>
    rw [hmade] at made
    obtain rfl : s = t := made
    rw [run_bind_of_error hmade]
    exact .refl _ s
  | ok x s =>
    rw [hmade] at made
    obtain rfl : s = t := made
    rw [run_bind_of_ok hmade]
    cases hwritten : Disk.writeFile (a.imagePath p id) content s with
    | error e u =>
      obtain rfl := change_eq_error hwritten
      exact .refl _ u
    | ok y u => exact overwrites_of_writeFile hs (ok_of_run_writeFile hwritten)

/-- In the directory of a project the images of the next numbers are written, and nothing else is
done. -/
theorem overwrites_recordImages (hs : t.IsSound) (hled : t.LeadsTo (a.projectDir p) dir)
    (parameters : Json.Members) (genTime : UInt64) (numbering : Numbering)
    (images : List (String × Record.CacheToken)) :
    t.Overwrites (a.IsNextImage p t numbering.last images.length)
      (treeAfter (a.recordImages p parameters genTime numbering images) t) := by
  -- the other images are written where they would have been written before the first one
  induction images generalizing numbering t with
  | nil => exact .refl _ t
  | cons image rest ih =>
    obtain ⟨encoded, token⟩ := image
    cases hnext : numbering.next with
    | error e =>
      rw [recordImages, hnext]
      exact .refl _ t
    | ok next =>
      obtain ⟨id, more⟩ := next
      obtain ⟨number, same⟩ := Numbering.next_eq_ok hnext
      rw [recordImages_cons hnext, List.length_cons]
      have first : t.Overwrites (a.IsNextImage p t numbering.last (rest.length + 1))
          (treeAfter (a.writeImage p id (decodeImage encoded)) t) :=
        (overwrites_writeImage hs hled id _).mono fun loc located => ⟨id, by omega, by omega, located⟩
      cases written : a.writeImage p id (decodeImage encoded) t with
      | error e u =>
        rw [treeAfter, written] at first
        rw [treeAfter, run_bind_of_error written]
        exact first
      | ok x u =>
        rw [treeAfter, written] at first
        have sound := ((respects_writeImage id _).of_ok written hs).1
        rw [treeAfter, run_bind_of_ok written, ← treeAfter, treeAfter_bind_pure]
        refine first.trans ((ih sound (hled.keep first.keeps) more).mono ?_)
        rintro loc ⟨other, above, below, located⟩
        rw [same] at above below
        exact ⟨other, by omega, by omega, first.locate_iff.mp located⟩

/-- Images are recorded as in the tree once the directory of the project has been made, unless no
number is left or the directory cannot be made. -/
theorem recordImages_cases (hs : t.IsSound) {parameters : Json.Members} {genTime : UInt64}
    {numbering : Numbering} {images : List (String × Record.CacheToken)} (hsome : images ≠ []) :
    (∃ e, a.recordImages p parameters genTime numbering images t = .error e t) ∨
    (∃ e, a.recordImages p parameters genTime numbering images t = .error e (a.prepared p t)) ∨
    (∃ dir, (a.prepared p t).LeadsTo (a.projectDir p) dir) ∧
      a.recordImages p parameters genTime numbering images t
        = a.recordImages p parameters genTime numbering images (a.prepared p t) := by
  obtain ⟨⟨encoded, token⟩, rest, rfl⟩ := List.exists_cons_of_ne_nil hsome
  cases hnext : numbering.next with
  | error e =>
    rw [recordImages, hnext]
    exact .inl ⟨e, rfl⟩
  | ok next =>
    obtain ⟨id, more⟩ := next
    rw [recordImages_cons hnext]
    right
    rcases hmade : t.makeDirs (a.projectDir p) with ⟨fault | _, m⟩
    · have failed : Disk.makeDirs (a.projectDir p) t = .error (.io (a.projectDir p) fault) m := by
        rw [Disk.makeDirs, hmade]
      refine .inl ⟨.io (a.projectDir p) fault, ?_⟩
      rw [prepared, hmade]
      exact run_bind_of_error (run_bind_of_error failed)
    · obtain ⟨dir, led⟩ := leadsTo_of_makeDirs hs (congrArg Prod.fst hmade)
      refine .inr ⟨⟨dir, led⟩, ?_⟩
      -- the directory is made once; after that it is there
      have sound : m.IsSound := by
        have made := isSound_makeDirs hs (a.projectDir p)
        rwa [hmade] at made
      have again := makeDirs_again hs hmade sound (.refl m)
      have here : Disk.makeDirs (a.projectDir p) t = .ok () m := by rw [Disk.makeDirs, hmade]
      have there : Disk.makeDirs (a.projectDir p) m = .ok () m := by rw [Disk.makeDirs, again]
      have same : a.writeImage p id (decodeImage encoded) t
          = a.writeImage p id (decodeImage encoded) m := by
        rw [writeImage, run_bind_of_ok here, run_bind_of_ok there]
      rw [prepared, hmade, run_bind, run_bind, same]

/-- Recording images that fails does nothing, or nothing but write some of them. -/
theorem recordImages_eq_error (hs : t.IsSound) {parameters : Json.Members} {genTime : UInt64}
    {numbering : Numbering} {images : List (String × Record.CacheToken)} (hsome : images ≠ [])
    (h : a.recordImages p parameters genTime numbering images t = .error e u) :
    u = t ∨ (a.prepared p t).Overwrites
      (a.IsNextImage p (a.prepared p t) numbering.last images.length) u := by
  rcases recordImages_cases hs hsome with ⟨e', run⟩ | ⟨e', run⟩ | ⟨⟨dir, led⟩, run⟩
  · obtain ⟨-, rfl⟩ := EStateM.Result.error.inj (run.symm.trans h)
    exact .inl rfl
  · obtain ⟨-, rfl⟩ := EStateM.Result.error.inj (run.symm.trans h)
    exact .inr (.refl _ _)
  · have written := overwrites_recordImages (isSound_makeDirs hs (a.projectDir p)) led parameters
      genTime numbering images
    rw [treeAfter, ← prepared, ← run, h] at written
    exact .inr written

/-- Recording images that succeeds writes them in the directory of the project, and does nothing else. -/
theorem recordImages_eq_ok (hs : t.IsSound) {parameters : Json.Members} {genTime : UInt64}
    {numbering : Numbering} {images : List (String × Record.CacheToken)} (hsome : images ≠ [])
    {created : List Record} (h : a.recordImages p parameters genTime numbering images t = .ok created u) :
    (∃ dir, (a.prepared p t).LeadsTo (a.projectDir p) dir) ∧
      (a.prepared p t).Overwrites
        (a.IsNextImage p (a.prepared p t) numbering.last images.length) u := by
  rcases recordImages_cases hs hsome with ⟨e', run⟩ | ⟨e', run⟩ | ⟨⟨dir, led⟩, run⟩
  · exact absurd (run.symm.trans h) (by simp)
  · exact absurd (run.symm.trans h) (by simp)
  · have written := overwrites_recordImages (isSound_makeDirs hs (a.projectDir p)) led parameters
      genTime numbering images
    rw [treeAfter, ← prepared, ← run, h] at written
    exact ⟨⟨dir, led⟩, written⟩

/-! ## What is left -/

/-- What can have become of a location when recording a batch of `count` images has failed. -/
inductive LeftByBatch (a : Archive) (p : Project) (t s : FileTree) (last : RecordId) (count : Nat)
    (loc : Location) : Prop where
  /-- It is as it was. -/
  | kept (same : s.find? loc = t.find? loc)
  /-- A directory has been made on the way to that of the project. -/
  | made (missing : t.find? loc = none) (directory : s.find? loc = some .directory)
      (way : (a.prepared p t).OnTheWay (a.projectDir p) loc)
  /-- One of the images has been written. -/
  | image (content : Bytes) (file : s.find? loc = some (.file content))
      (next : a.IsNextImage p (a.prepared p t) last count loc)
  /-- A ledger that could not be read has been moved from here, or to here. It is the one that was
  there, unless the path of an image led to it. -/
  | movedAside (dir : Location) (content : Bytes)
      (here : loc = dir ++ [ledgerName] ∨ loc = dir ++ [asideName])
      (unreadable : a.load p t = .unreadable)
      (leads : (a.prepared p t).LeadsTo (a.projectDir p) dir)
      (before : t.find? (dir ++ [ledgerName]) = some (.file content) ∨
        a.IsNextImage p (a.prepared p t) last count (dir ++ [ledgerName]))
      (gone : s.find? (dir ++ [ledgerName]) = none)
      (aside : s.find? (dir ++ [asideName]) = some (.file content))
  /-- The directory of the project had to be made, and has a directory in the place of the ledger; the
  temporary file has been written. -/
  | temporary (dir : Location) (content : Bytes) (file : s.find? loc = some (.file content))
      (here : (a.prepared p t).locate true (a.temporaryPath p) = .ok loc)
      (missing : ∀ other, ¬ t.LeadsTo (a.projectDir p) other)
      (leads : (a.prepared p t).LeadsTo (a.projectDir p) dir)
      (blocked : (a.prepared p t).find? (dir ++ [ledgerName]) = some .directory)

/-- What is left once the directory of the project has been made and images have been written. -/
theorem leftByBatch_of_overwrites (hs : t.IsSound)
    (h : (a.prepared p t).Overwrites (a.IsNextImage p (a.prepared p t) last count) u)
    (hsame : s.find? loc = u.find? loc) : a.LeftByBatch p t s last count loc := by
  rcases h.entry loc with same | ⟨next, -, content, file⟩
  · rcases (grown_makeDirs hs (a.projectDir p)).entry loc with same' | ⟨missing, made, way⟩
    · exact .kept (hsame.trans (same.trans same'))
    · exact .made missing (hsame.trans (same.trans made)) way
  · exact .image content (hsame.trans file) next

/-- What is left if the records have been written beside a directory in the place of the ledger. -/
theorem leftByBatch_of_isBlocked (hs : t.IsSound) (hu : u.IsSound)
    (h : (a.prepared p t).Overwrites (a.IsNextImage p (a.prepared p t) last count) u)
    (hreadable : (a.load p t).isUnreadable = false)
    (hled : (a.prepared p t).LeadsTo (a.projectDir p) dir)
    (hblocked : a.IsBlocked p records u s dir) (loc : Location) :
    a.LeftByBatch p t s last count loc := by
  rcases (overwrites_of_writeFile hu hblocked.written).entry loc with same | ⟨here, -, content, file⟩
  · exact leftByBatch_of_overwrites hs h same
  have blocked : (a.prepared p t).find? (dir ++ [ledgerName]) = some .directory :=
    (h.find?_iff (fun plain => plain.1 rfl) _).mp hblocked.directory
  refine .temporary dir content file (h.locate_iff.mp here) (fun other led => ?_) hled blocked
  -- a directory that had been in the place of the ledger would not have been read
  rw [prepared_of_leadsTo hs led] at hled blocked
  rw [load_of_directory hled hblocked.walkable blocked] at hreadable
  exact absurd hreadable (by simp [LedgerState.isUnreadable])

/-- What is left if a ledger has been moved aside after the images had been written. -/
theorem leftByBatch_of_movesAside (hs : t.IsSound)
    (h : (a.prepared p t).Overwrites (a.IsNextImage p (a.prepared p t) last count) u)
    (hunreadable : a.load p t = .unreadable)
    (hled : (a.prepared p t).LeadsTo (a.projectDir p) dir)
    (hmoved : a.MovesAside p content u s dir) (loc : Location) :
    a.LeftByBatch p t s last count loc := by
  have before : t.find? (dir ++ [ledgerName]) = some (.file content) ∨
      a.IsNextImage p (a.prepared p t) last count (dir ++ [ledgerName]) := by
    rcases h.entry (dir ++ [ledgerName]) with same | ⟨next, -⟩
    · have there := same.symm.trans hmoved.before
      rcases (grown_makeDirs hs (a.projectDir p)).entry (dir ++ [ledgerName]) with
        same' | ⟨-, made, -⟩
      · exact .inl (same'.symm.trans there)
      · exact absurd (made.symm.trans there) (by simp)
    · exact .inr next
  by_cases here : loc = dir ++ [ledgerName] ∨ loc = dir ++ [asideName]
  · exact .movedAside dir content here hunreadable hled before hmoved.gone hmoved.aside
  · rw [not_or] at here
    exact leftByBatch_of_overwrites hs h (hmoved.elsewhere loc here.1 here.2)

/-- What is left if the records could not be written after the images. -/
theorem leftByBatch_of_persist_error (hs : t.IsSound) (hu : u.IsSound)
    (h : (a.prepared p t).Overwrites (a.IsNextImage p (a.prepared p t) last count) u)
    (hled : (a.prepared p t).LeadsTo (a.projectDir p) dir) {v : FileTree}
    (hway : a.MakesWay p (a.load p t).isUnreadable u v) (hfailed : a.persist p records v = .error e s)
    (loc : Location) : a.LeftByBatch p t s last count loc := by
  have led := hled.keep h.keeps
  -- where the ledger has not been moved, the records were to be written beside the images
  have unmoved : v = u → s = u ∨ a.IsBlocked p records u s dir := by
    rintro rfl
    have unmade : (v.makeDirs (a.projectDir p)).2 = v := prepared_of_leadsTo hu led
    rcases persist_error_cases hu hfailed with same | ⟨dir', blocked⟩
    · exact .inl (same.trans unmade)
    · rw [unmade] at blocked
      obtain rfl : dir = dir' := blocked.leads.unique led (.refl v)
      exact .inr blocked
  rcases hway with ⟨readable, same⟩ | ⟨unreadable, moved⟩
  · rcases unmoved same with rfl | blocked
    · exact leftByBatch_of_overwrites hs h rfl
    · exact leftByBatch_of_isBlocked hs hu h readable hled blocked loc
  · have unblocked : v = u → a.LeftByBatch p t s last count loc := by
      intro same
      rcases unmoved same with rfl | blocked
      · exact leftByBatch_of_overwrites hs h rfl
      · exact absurd blocked.directory (ledger_ne_directory_of_setAside led blocked.walkable moved)
    rcases setAside_eq_ok moved with ⟨content, found, same | renamed⟩ | ⟨-, same⟩
    · exact unblocked same
    · obtain ⟨rfl, -⟩ := tree_of_persist_error_aside hu found renamed hfailed
      obtain ⟨dir', moves⟩ := movesAside_of_rename found renamed
      obtain rfl : dir = dir' := moves.leads.unique led (.refl u)
      have unread : a.load p t = .unreadable := by
        cases loaded : a.load p t with
        | unreadable => rfl
        | _ => simp [loaded, LedgerState.isUnreadable] at unreadable
      exact leftByBatch_of_movesAside hs h unread hled moves loc
    · exact unblocked same

/-- When recording a batch has failed, everything is as it was, but for the directory of the project
where it was missing, the images that have been written with the next numbers, in place of what was
there, and a ledger that could not be read and has been moved aside. Only where the directory had to be
made can the temporary file have been written too. -/
theorem leftByBatch_of_recordBatch_error {tokens : Nat → Record.CacheToken} {request answer : Bytes}
    {elapsed : UInt64} (hs : t.IsSound)
    (h : a.recordBatch p tokens request answer elapsed t = .error e s) (loc : Location) :
    a.LeftByBatch p t s (Numbering.aboveRecords (a.load p t).records).last
      (batchImages answer).length loc := by
  rcases recordBatch_eq_or a p tokens request answer elapsed with ⟨-, run⟩ | ⟨-, drawn, run⟩
  · rw [run] at h
    cases h
  rw [run] at h
  rw [← length_drawnImages tokens answer]
  -- it failed at an image, or after all of them had been written
  rcases update_eq_error h with failed | ⟨records, x, u, changed, failed⟩
  · rcases error_of_run_bind failed with failed | ⟨_, _, -, returned⟩
    · rcases recordImages_eq_error hs drawn failed with rfl | written
      · exact .kept rfl
      · exact leftByBatch_of_overwrites hs written rfl
    · cases returned
  · obtain ⟨created, recorded, -⟩ := addImages_eq_ok changed
    have sound := ((respects_recordImages _ _ _ _).of_ok recorded hs).1
    obtain ⟨⟨dir, led⟩, written⟩ := recordImages_eq_ok hs drawn recorded
    rcases failed with ⟨-, failed⟩ | ⟨v, way, failed⟩
    · obtain rfl := setAside_eq_error failed
      exact leftByBatch_of_overwrites hs written rfl
    · exact leftByBatch_of_persist_error hs sound written led way failed loc

/-! ## With a directory in the way -/

/-- A results directory with a ledger that cannot be read, another one that has been moved aside
before, and an image; a directory is in the place of the temporary file. -/
def failingResults : FileTree where
  entries := [(["results"], .directory), (["results", "history.json"], .file []),
    (["results", "history.json.corrupt"], .file [1]), (["results", "00001.png"], .file [2]),
    (["results", "history.json.tmp"], .directory)]
  workingDirectory := []

/-- The tree after an image has been written, and the ledger has been moved aside. -/
def failedResults : FileTree :=
  ((failingResults.insert ["results", "00001.png"] (.file [])).erase
    ["results", "history.json"]).insert ["results", "history.json.corrupt"] (.file [])

theorem recordBatch_failingResults :
    results.recordBatch .global (fun _ => zeroToken) [] (answerOf [""]).compact 0 failingResults
      = .error (.io (results.temporaryPath .global) .isADirectory) failedResults := by
  have loaded : results.load .global failingResults = .unreadable := rfl
  have first : (Numbering.aboveRecords (results.load .global failingResults).records).next
      = .ok (1, ⟨1⟩) := by
    rw [loaded]
    rfl
  have made : failingResults.makeDirs (results.projectDir .global) = (.ok (), failingResults) := rfl
  have image : failingResults.writeFile (results.imagePath .global 1) (decodeImage "")
      = .ok (failingResults.insert ["results", "00001.png"] (.file [])) := by
    rw [imagePath_one]
    rfl
  rw [recordBatch_of_image (batchImages_compact [""]) first rfl made image, loaded]
  rfl

theorem leftByBatch_of_recordBatch_error_failingResults :
    failingResults.IsSound ∧ ∃ e s,
      results.recordBatch .global (fun _ => zeroToken) [] (answerOf [""]).compact 0 failingResults
          = .error e s ∧
        ∀ loc, results.LeftByBatch .global failingResults s
          (Numbering.aboveRecords (results.load .global failingResults).records).last
          (batchImages (answerOf [""]).compact).length loc := by
  have sound : failingResults.IsSound := isSound_of_entries (by decide) rfl
  exact ⟨sound, _, _, recordBatch_failingResults,
    leftByBatch_of_recordBatch_error sound recordBatch_failingResults⟩

/-- A results directory with a directory in the place of the ledger, and a temporary file. -/
def failingDetour : FileTree where
  entries := [(["results"], .directory), (["results", "history.json"], .directory),
    (["results", "history.json.tmp"], .file [1])]
  workingDirectory := []

/-- The tree after the directory on the way has been made, and an image written. -/
def preparedDetour : FileTree :=
  (failingDetour.insert ["new"] .directory).insert ["results", "00001.png"] (.file [])

/-- The tree after the ledger has been written beside the directory. -/
def failedDetour (ledger : Bytes) : FileTree :=
  preparedDetour.insert ["results", "history.json.tmp"] (.file ledger)

theorem recordBatch_failingDetour :
    detour.recordBatch .global (fun _ => zeroToken) [] (answerOf [""]).compact 0 failingDetour
      = .error (.io (detour.ledgerPath .global) .isADirectory)
        (failedDetour (Record.document [firstRecord [] 0 zeroToken ""])) := by
  have loaded : detour.load .global failingDetour = .absent := load_eq_absent rfl
  have first : (Numbering.aboveRecords (detour.load .global failingDetour).records).next
      = .ok (1, ⟨1⟩) := by
    rw [loaded]
    rfl
  have made : failingDetour.makeDirs (detour.projectDir .global)
      = (.ok (), failingDetour.insert ["new"] .directory) := rfl
  have image : (failingDetour.insert ["new"] .directory).writeFile (detour.imagePath .global 1)
      (decodeImage "") = .ok preparedDetour := by
    rw [imagePath_one]
    rfl
  have steps : ∀ ledger, preparedDetour.makeDirs (detour.projectDir .global)
        = (.ok (), preparedDetour) ∧
      preparedDetour.writeFile (detour.temporaryPath .global) ledger = .ok (failedDetour ledger) ∧
      (failedDetour ledger).rename (detour.temporaryPath .global) (detour.ledgerPath .global)
        = .error .isADirectory :=
    fun ledger => ⟨rfl, rfl, rfl⟩
  obtain ⟨there, written, failed⟩ := steps (Record.document [firstRecord [] 0 zeroToken ""])
  have persisted : detour.persist .global [firstRecord [] 0 zeroToken ""] preparedDetour
      = .error (.io (detour.ledgerPath .global) .isADirectory)
        (failedDetour (Record.document [firstRecord [] 0 zeroToken ""])) := by
    rw [persist]
    simp only [run_bind, Disk.makeDirs, there, Disk.writeFile, Disk.change, written, failed]
  rw [recordBatch_of_image (batchImages_compact [""]) first rfl made image, loaded]
  exact run_bind_of_error persisted

/-- The image that is written, what a ledger is moved aside to, and the temporary file where the
directory of the project has to be made are files that are not kept; an unreadable ledger is not where
it was. -/
theorem files_lost_failingResults :
    (∃ e s, results.recordBatch .global (fun _ => zeroToken) [] (answerOf [""]).compact 0
        failingResults = .error e s ∧
      failingResults.find? ["results", "00001.png"] = some (.file [2]) ∧
      s.find? ["results", "00001.png"] = some (.file []) ∧
      failingResults.find? ["results", "history.json"] = some (.file []) ∧
      s.find? ["results", "history.json"] = none ∧
      failingResults.find? ["results", "history.json.corrupt"] = some (.file [1]) ∧
      s.find? ["results", "history.json.corrupt"] = some (.file [])) ∧
    ∃ e s, detour.recordBatch .global (fun _ => zeroToken) [] (answerOf [""]).compact 0
        failingDetour = .error e s ∧
      failingDetour.find? ["results", "history.json.tmp"] = some (.file [1]) ∧
      s.find? ["results", "history.json.tmp"] ≠ some (.file [1]) := by
  refine ⟨⟨_, _, recordBatch_failingResults, rfl, rfl, rfl, rfl, rfl, rfl⟩,
    ⟨_, _, recordBatch_failingDetour, rfl, fun same => ?_⟩⟩
  have document : Record.document [firstRecord [] 0 zeroToken ""] = [1] :=
    Entry.file.inj (Option.some.inj same)
  exact absurd document (by decide +kernel)

end ImageGateway.Archive
