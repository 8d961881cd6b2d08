import ImageGateway.Proofs.Archive.FailedUpdates
import ImageGateway.Proofs.Archive.Locality

/-!
# Where nothing fails

As long as the directory of a project is there, no directory is in the place of one of its files and
paths are short enough, its files can be written and removed (`IsUsable`). So it is wherever a ledger
lists records (`isUsable_of_listed`): these records can be written again (`persist_ok`), and the
project can be cleared if the path of the file that a ledger is moved aside to is not too long
(`clear_ok`).
-/

set_option autoImplicit false

namespace ImageGateway.Archive

open Storage Storage.FileTree

variable {a : Archive} {p q : Project} {t s : FileTree} {root loc : Location} {name : String}
  {own : String → Prop} {content : Bytes} {records : List Record} {id : RecordId}

/-! ## Files of a project -/

/-- A file of a project that is not touched is read as before. -/
theorem readFile_of_touches (h : a.IsAt root t) (after : s.IsSound ∧ a.Touches p own t s)
    (hname : IsOwnName name) (hother : q ≠ p ∨ ¬ own name)
    (hread : t.readFile ((a.projectDir q).join name) = .ok content) :
    s.readFile ((a.projectDir q).join name) = .ok content := by
  obtain ⟨loc, located, found⟩ := readFile_eq_ok_iff.mp hread
  obtain ⟨rfl, there⟩ := locate_of_locate h (h.of_touches after) after.2.keeps
    (isComponent_of_isOwnName hname) located true
  -- the path leads to the same location, which is not among those that were touched
  refine readFile_eq_ok_iff.mpr ⟨_, there, ?_⟩
  rwa [h.find?_file_of_touches after.1 after.2 hname hother]

theorem not_isDocument_of_isImage (h : IsImage name) : ¬ IsDocument name := by
  rw [IsImage] at h
  rintro (rfl | rfl | rfl) <;> simp [isImageFileName_eq_false] at h

theorem not_isDocument_imageFileName (id : RecordId) :
    ¬ IsDocument (Record.imageFileName id) :=
  not_isDocument_of_isImage (isImage_imageFileName id)

/-- The directory of a project is there, and no directories are in it in the places of files. -/
structure IsUsable (p : Project) (root : Location) (t : FileTree) : Prop where
  short : p.name.utf8ByteSize ≤ longestName
  place : t.find? (p.place root) = some .directory
  files : ∀ name, IsOwnName name → t.find? (p.place root ++ [name]) ≠ some .directory

/-- Where no directory is deeper in the tree than that of a project, none is in the place of a file. -/
theorem isUsable_of_entries (hshort : p.name.utf8ByteSize ≤ longestName)
    (hplace : t.find? (p.place root) = some .directory)
    (hfiles : ∀ e ∈ t.entries, e.2 = .directory → e.1.length ≤ (p.place root).length) :
    IsUsable p root t where
  short := hshort
  place := hplace
  files := by
    intro name _ isDir
    rcases mem_entries_of_find? isDir with empty | listed
    · exact absurd empty (by simp)
    · have deep := hfiles _ listed rfl
      rw [List.length_append, List.length_singleton] at deep
      exact absurd deep (Nat.not_succ_le_self _)

/-- No directory is ever made in the place of a file of a project. -/
theorem file_ne_directory_of_touches (h : a.IsAt root t)
    (after : s.IsSound ∧ a.Touches p own t s) {q : Project} (hname : IsOwnName name)
    (hfile : t.find? (q.place root ++ [name]) ≠ some .directory) :
    s.find? (q.place root ++ [name]) ≠ some .directory := by
  rcases h.entry after.1 after.2 (q.place root ++ [name]) with
    same | ⟨-, -, here⟩ | ⟨other, -, -, -, plain⟩
  · rwa [same]
  · exact absurd here (Project.place_append_ne_place hname q p root)
  · exact plain.1

theorem IsUsable.of_touches (hu : IsUsable p root t) (h : a.IsAt root t)
    (after : s.IsSound ∧ a.Touches p own t s) : IsUsable p root s where
  short := hu.short
  place := after.2.keeps.directory _ hu.place
  files := fun name hname => file_ne_directory_of_touches h after hname (hu.files name hname)

/-! ## Paths -/

/-- The path of a file of the project leads to its location. -/
theorem IsUsable.locate (hu : IsUsable p root t) (h : a.IsAt root t) (hname : IsOwnName name)
    (short : name.utf8ByteSize ≤ longestName)
    (hwalk : Walkable ((a.projectDir p).join name)) (follow : Bool) :
    t.locate follow ((a.projectDir p).join name) = .ok (p.place root ++ [name]) := by
  rw [h.locate_file (isComponent_of_isOwnName hname) hwalk, fileAt,
    if_neg (Nat.not_lt_of_le hu.short), hu.place, if_neg (by simp), if_neg (by simp),
    if_neg (Nat.not_lt_of_le short)]

theorem short_of_isDocument (h : IsDocument name) : name.utf8ByteSize ≤ longestName := by
  rcases h with rfl | rfl | rfl <;> decide

theorem utf8ByteSize_digits {cs : List Char} (h : ∀ c ∈ cs, c.isDigit = true) :
    (String.ofList cs).utf8ByteSize = cs.length := by
  induction cs with
  | nil => rfl
  | cons c cs ih =>
    have one : c.utf8Size = 1 := by
      have digit := Char.isDigit_iff_toNat.mp (h c List.mem_cons_self)
      rw [Char.utf8Size_eq_one_iff, UInt32.le_iff_toNat_le]
      exact Nat.le_trans digit.2 (by decide)
    rw [String.ofList_cons, String.utf8ByteSize_append, String.utf8ByteSize_singleton, one,
      ih fun d hd => h d (List.mem_cons_of_mem c hd), List.length_cons, Nat.add_comm]

/-- A number of 64 bits has at most 20 digits. -/
theorem short_imageFileName (id : RecordId) :
    (Record.imageFileName id).utf8ByteSize ≤ longestName := by
  have digits := List.all_eq_true.mp (Decimal.all_isDigit_padded 5 id.toNat)
  have few : (Decimal.digits id.toNat).length ≤ 20 :=
    (Nat.length_toDigits_le_iff (by decide) (by decide)).mpr
      (Nat.lt_trans id.toNat_lt (by decide))
  have size : (Decimal.padded 5 id.toNat).length ≤ 20 := by
    rw [Decimal.padded, List.length_append, List.length_replicate]
    omega
  have ending : (String.ofList ".png".toList).utf8ByteSize = 4 := by decide
  have most : longestName = 255 := rfl
  rw [Record.imageFileName, String.ofList_append, String.utf8ByteSize_append,
    utf8ByteSize_digits digits, ending]
  omega

theorem IsUsable.leadsTo (hu : IsUsable p root t) (h : a.IsAt root t) :
    t.LeadsTo (a.projectDir p) (p.place root) := by
  have there := hu.place
  cases hp : p.isGlobal with
  | true =>
    rw [projectDir_of_isGlobal a hp, Project.place_of_isGlobal hp]
    exact h.leads
  | false =>
    rw [Project.place_of_not_isGlobal hp] at there ⊢
    exact leadsTo_projectDir_of_directory h.leads hp hu.short there

/-- The path of a directory can be walked along if that of a file in it can, or it is empty. -/
theorem walkable_of_join {path : FilePath} (hname : FilePath.IsComponent name)
    (h : Walkable (path.join name)) : Walkable path ∨ path.text = "" := by
  obtain ⟨rest, text⟩ : ∃ rest, (path.join name).text = path.text ++ rest := by
    rw [FilePath.join, if_neg (FilePath.head?_ne_slash hname)]
    split
    · exact ⟨name, rfl⟩
    · exact ⟨"/" ++ name, String.append_assoc⟩
  have noNul := h.noNul
  have short := h.short
  rw [text, String.toList_append] at noNul
  simp only [List.contains_append, Bool.or_eq_false_iff] at noNul
  rw [text, String.utf8ByteSize_append] at short
  cases empty : path.text.isEmpty with
  | false => exact .inl ⟨noNul.1, empty, Nat.lt_of_le_of_lt (Nat.le_add_right _ _) short⟩
  | true => exact .inr (String.isEmpty_iff.mp empty)

/-- A directory that is there is not made anew where there is room in a path for a file in it. -/
theorem makeDirs_of_walkable_join {path : FilePath} (hs : t.IsSound) (hled : t.LeadsTo path loc)
    (hname : FilePath.IsComponent name) (hwalk : Walkable (path.join name)) :
    t.makeDirs path = (.ok (), t) := by
  rcases walkable_of_join hname hwalk with walkable | empty
  · exact makeDirs_of_leadsTo hs hled walkable
  · exact makeDirs_of_isEmpty (String.isEmpty_iff.mpr empty)

/-- A path with more text at its end can be walked along if it is short enough. -/
theorem walkable_withSuffix {path : FilePath} {suffix : String} (h : Walkable path)
    (hnul : suffix.toList.contains '\x00' = false)
    (hshort : (path.withSuffix suffix).text.utf8ByteSize < pathLimit) :
    Walkable (path.withSuffix suffix) := by
  refine ⟨?_, ?_, hshort⟩
  · rw [FilePath.withSuffix, String.toList_append, List.contains_append, h.noNul, hnul]
    rfl
  · have filled := h.notEmpty
    rw [Bool.eq_false_iff] at filled ⊢
    intro empty
    refine filled (String.isEmpty_iff.mpr ?_)
    exact (String.append_eq_empty_iff.mp (String.isEmpty_iff.mp empty)).1

/-- A path that is short enough for the temporary file and the file that a ledger is moved aside
to. -/
theorem walkable_asidePath (h : Walkable (a.temporaryPath p))
    (hshort : (a.asidePath p).text.utf8ByteSize < pathLimit) : Walkable (a.asidePath p) :=
  walkable_withSuffix (walkable_ledgerPath h) (by decide) hshort

/-! ## Writing and removing -/

/-- The directory of the project is there already. -/
theorem IsUsable.makeDirs (hu : IsUsable p root t) (h : a.IsAt root t)
    (hname : FilePath.IsComponent name) (hwalk : Walkable ((a.projectDir p).join name)) :
    t.makeDirs (a.projectDir p) = (.ok (), t) :=
  makeDirs_of_walkable_join h.sound (hu.leadsTo h) hname hwalk

/-- The records of a project whose files can be written are written. -/
theorem persist_ok (hu : IsUsable p root t) (h : a.IsAt root t)
    (hwalk : Walkable (a.temporaryPath p)) (records : List Record) :
    ∃ s, a.persist p records t = .ok () s := by
  have led := hu.leadsTo h
  have made := hu.makeDirs h isComponent_temporaryName (temporaryPath_eq_join a p ▸ hwalk)
  have located : t.locate true (a.temporaryPath p) = .ok (p.place root ++ [temporaryName]) := by
    rw [temporaryPath_eq_join] at hwalk ⊢
    exact hu.locate h isOwnName_temporaryName short_temporaryName hwalk true
  -- no directory is where the temporary file is written, nor where it is moved to
  have written := writeFile_of_locate located (hu.files _ isOwnName_temporaryName)
    (Record.document records)
  obtain ⟨s, renamed⟩ := rename_temporary h.sound led (hu.files _ isOwnName_ledgerName) written
  exact ⟨s, persist_of_steps made written renamed⟩

/-- An image is written where there is room in a path for it. -/
theorem writeImage_ok (hu : IsUsable p root t) (h : a.IsAt root t)
    (hwalk : Walkable (a.imagePath p id)) (content : Bytes) :
    ∃ s, a.writeImage p id content t = .ok () s := by
  have image := isImage_imageFileName id
  have own := isOwnName_of_isImage image
  have component := isComponent_of_isImageFileName image
  have located := hu.locate h own (short_imageFileName id) hwalk true
  have written := writeFile_of_locate located (hu.files _ own) content
  have made : Disk.makeDirs (a.projectDir p) t = .ok () t := by
    rw [Disk.makeDirs, hu.makeDirs h component hwalk]
  refine ⟨t.insert (p.place root ++ [Record.imageFileName id]) (.file content), ?_⟩
  rw [writeImage, run_bind_of_ok made, Disk.writeFile, Disk.change, imagePath, written]

/-- Images are recorded as long as there are numbers for them, and room in a path for each. -/
theorem recordImages_ok {parameters : Json.Members} {genTime : UInt64}
    {images : List (String × Record.CacheToken)} {numbering : Numbering}
    (hu : IsUsable p root t) (h : a.IsAt root t)
    (hroom : numbering.last.toNat + images.length < UInt64.size)
    (hwalk : ∀ id : RecordId, numbering.last < id →
      id.toNat ≤ numbering.last.toNat + images.length → Walkable (a.imagePath p id)) :
    ∃ created s, a.recordImages p parameters genTime numbering images t = .ok created s := by
  induction images generalizing numbering t with
  | nil => exact ⟨[], t, rfl⟩
  | cons image rest ih =>
    obtain ⟨encoded, token⟩ := image
    rw [List.length_cons] at hroom hwalk
    have next : numbering.next = .ok (numbering.last + 1, ⟨numbering.last + 1⟩) :=
      if_pos (by omega)
    obtain ⟨number, -⟩ := Numbering.next_eq_ok next
    obtain ⟨above, -⟩ := Numbering.lt_of_next next
    obtain ⟨u, written⟩ := writeImage_ok hu h (hwalk _ above (by omega)) (decodeImage encoded)
    have after := (confined_writeImage (isImage_imageFileName _) (decodeImage encoded)).of_ok h written
    -- the others are numbered from there on
    obtain ⟨created, s, recorded⟩ : ∃ created s,
        a.recordImages p parameters genTime ⟨numbering.last + 1⟩ rest u = .ok created s :=
      ih (hu.of_touches h after) (h.of_touches after) (by rw [number]; omega) fun id later most =>
        hwalk id (UInt64.lt_trans above later) (by rw [number] at most; omega)
    refine ⟨recordOf parameters genTime (numbering.last + 1) token (decodeImage encoded) :: created,
      s, ?_⟩
    rw [recordImages_cons next, run_bind_of_ok written, run_bind_of_ok recorded]
    rfl

/-- Where a ledger could be read, an update fails only if its change does. -/
theorem update_ok {α : Type} {change : List Record → Disk (Commit α)} {commit : Commit α}
    (hu : IsUsable p root t) (h : a.IsAt root t) (hwalk : Walkable (a.temporaryPath p))
    (hread : (a.load p t).isUnreadable = false)
    (hchange : change (a.load p t).records t = .ok commit s)
    (after : s.IsSound ∧ a.Touches p own t s) : ∃ x u, a.update p change t = .ok x u := by
  rw [update_eq, run_bind_of_ok hchange, hread]
  cases commit with
  | keep x => exact ⟨x, s, rfl⟩
  | write records x =>
    obtain ⟨u, run⟩ := persist_ok (hu.of_touches h after) (h.of_touches after) hwalk records
    exact ⟨x, u, run_bind_of_ok run⟩

/-- A batch is recorded behind a ledger that could be read, as long as there are numbers for its images
and room in a path for each. -/
theorem recordBatch_ok {tokens : Nat → Record.CacheToken} {request answer : Bytes}
    {elapsed : UInt64} (hu : IsUsable p root t) (h : a.IsAt root t)
    (hread : (a.load p t).isUnreadable = false)
    (hroom : (Numbering.aboveRecords (a.load p t).records).last.toNat + (batchImages answer).length
      < UInt64.size)
    (himages : ∀ id : RecordId, (Numbering.aboveRecords (a.load p t).records).last < id →
      id.toNat ≤ (Numbering.aboveRecords (a.load p t).records).last.toNat
        + (batchImages answer).length → Walkable (a.imagePath p id))
    (hwalk : Walkable (a.temporaryPath p)) :
    ∃ created s, a.recordBatch p tokens request answer elapsed t = .ok created s := by
  rcases recordBatch_eq_or a p tokens request answer elapsed with ⟨-, run⟩ | ⟨-, -, run⟩
  · exact ⟨[], t, congrFun run t⟩
  · rw [run]
    rw [← length_drawnImages tokens] at hroom himages
    obtain ⟨created, u, recorded⟩ := recordImages_ok hu h hroom himages
    have added : a.addImages p (requestParameters request)
        (elapsed / UInt64.ofNat (batchImages answer).length) (drawnImages tokens answer)
        (a.load p t).records t = .ok (.write ((a.load p t).records ++ created) created) u :=
      run_bind_of_ok recorded
    exact update_ok hu h hwalk hread added
      ((confined_addImages (fun id _ => isImage_imageFileName id) _ _ _).of_ok h added)

/-- A first image is recorded. -/
theorem recordBatch_first_ok {tokens : Nat → Record.CacheToken} {request answer : Bytes}
    {elapsed : UInt64} {encoded : String} (hu : IsUsable p root t) (h : a.IsAt root t)
    (himages : batchImages answer = [encoded]) (hload : a.load p t = .absent)
    (himage : Walkable (a.imagePath p 1)) (hwalk : Walkable (a.temporaryPath p)) :
    ∃ s, a.recordBatch p tokens request answer elapsed t
      = .ok [firstRecord request elapsed (tokens 0) encoded] s := by
  have none : (Numbering.aboveRecords (a.load p t).records).last = 0 := by
    rw [hload]
    rfl
  obtain ⟨created, s, recorded⟩ : ∃ created s,
      a.recordBatch p tokens request answer elapsed t = .ok created s := by
    refine recordBatch_ok hu h (by rw [hload]; rfl) ?_ (fun id above below => ?_) hwalk
    · rw [none, himages]
      show 0 + 1 < UInt64.size
      decide
    · -- the only number is the first one
      rw [none, himages] at below
      rw [none, UInt64.lt_iff_toNat_lt] at above
      obtain rfl : id = 1 := UInt64.toNat_inj.mp (Nat.le_antisymm below above)
      exact himage
  refine ⟨s, ?_⟩
  rcases recordBatch_eq_or a p tokens request answer elapsed with ⟨imageless, -⟩ | ⟨-, -, run⟩
  · exact absurd (himages.symm.trans imageless) (by simp)
  · rw [recorded]
    rw [run] at recorded
    obtain ⟨u, -, images, -, -⟩ := update_addImages_eq_ok recorded
    have drawn : drawnImages tokens answer = [(encoded, tokens 0)] := by
      rw [drawnImages, himages]
      rfl
    rw [drawn, himages] at images
    obtain ⟨id, more, v, others, next, -, rest, rfl⟩ := recordImages_cons_eq_ok images
    obtain ⟨rfl, -⟩ := EStateM.Result.ok.inj rest
    obtain ⟨number, -⟩ := Numbering.next_eq_ok next
    rw [none] at number
    obtain rfl : id = 1 := UInt64.toNat_inj.mp number
    rfl

/-- A file of the project is removed if it is there. -/
theorem removeIfPresent_ok (hu : IsUsable p root t) (h : a.IsAt root t) (hname : IsDocument name)
    (hwalk : Walkable ((a.projectDir p).join name)) :
    ∃ s, Disk.removeIfPresent ((a.projectDir p).join name) t = .ok () s := by
  have located := hu.locate h (isOwnName_of_isDocument hname) (short_of_isDocument hname) hwalk false
  rw [Disk.removeIfPresent, removeFile, lookUp, located]
  simp only [bind, Except.bind]
  cases found : t.find? (p.place root ++ [name]) with
  | none => exact ⟨t, rfl⟩
  | some entry =>
    cases entry with
    | directory => exact absurd found (hu.files name (isOwnName_of_isDocument hname))
    | file content => exact ⟨_, rfl⟩
    | link target => exact ⟨_, rfl⟩

theorem tryRemove_ok (path : FilePath) (t : FileTree) :
    ∃ removed s, Disk.tryRemove path t = .ok removed s := by
  rw [Disk.tryRemove]
  cases t.removeFile path with
  | ok s => exact ⟨true, s, rfl⟩
  | error fault => exact ⟨false, t, rfl⟩

/-- A path that cannot be walked along is a fault even where nothing is to be removed. -/
theorem removeIfPresent_of_not_walkable (hname : FilePath.IsComponent name)
    (h : ¬ Walkable ((a.projectDir p).join name)) :
    ∃ e, ∀ t, Disk.removeIfPresent ((a.projectDir p).join name) t = .error e t := by
  obtain ⟨fault, lost⟩ := locateNames_error h
  -- only a file that is missing is passed over
  have notMissing : fault ≠ .notFound := by
    refine fault_ne_notFound h (FilePath.isEmpty_of_names_ne_nil ?_) (lost empty false [])
    rw [FilePath.names_join _ hname]
    simp
  refine ⟨.io ((a.projectDir p).join name) fault, fun t => ?_⟩
  have failed : t.removeFile ((a.projectDir p).join name) = .error fault := by
    rw [removeFile, lookUp, FileTree.locate, lost]
    rfl
  rw [Disk.removeIfPresent, failed]
  cases fault with
  | notFound => exact absurd rfl notMissing
  | _ => rfl

/-- Counting what can be removed never fails. -/
theorem removeCounting_ok (paths : List FilePath) (t : FileTree) :
    ∃ n s, removeCounting paths t = .ok n s := by
  induction paths generalizing t with
  | nil => exact ⟨0, t, rfl⟩
  | cons path rest ih =>
    obtain ⟨removed, u, first⟩ := tryRemove_ok path t
    obtain ⟨n, s, more⟩ := ih u
    rw [removeCounting, run_bind_of_ok first, run_bind_of_ok more]
    exact ⟨_, s, rfl⟩

theorem removeListedImages_ok (state : LedgerState) (t : FileTree) :
    ∃ n s, a.removeListedImages p state t = .ok n s := by
  cases state with
  | absent => exact ⟨0, t, rfl⟩
  | present records => exact removeCounting_ok _ t
  | unreadable =>
    rw [removeListedImages, removeAllImages]
    cases t.list (a.projectDir p) with
    | ok names => exact removeCounting_ok _ t
    | error fault => exact ⟨0, t, rfl⟩

/-! ## Where records are listed -/

/-- A ledger that lists records could be read. -/
theorem load_eq_present (h : a.history p t ≠ []) : a.load p t = .present (a.history p t) := by
  rw [history] at h ⊢
  cases hload : a.load p t with
  | present records => rfl
  | absent =>
    rw [hload] at h
    exact absurd rfl h
  | unreadable =>
    rw [hload] at h
    exact absurd rfl h

/-- A ledger that lists records is a file in the directory of its project. -/
theorem isUsable_of_listed (h : a.IsAt root t)
    (hfiles : ∀ name, IsOwnName name → t.find? (p.place root ++ [name]) ≠ some .directory)
    (hlisted : a.history p t ≠ []) :
    IsUsable p root t ∧ ∃ content, t.find? (p.place root ++ [ledgerName]) = some (.file content) := by
  obtain ⟨content, read⟩ := readFile_of_load (load_eq_present hlisted)
  obtain ⟨loc, located, found⟩ := readFile_eq_ok_iff.mp read
  obtain ⟨hwalk, -⟩ := walk_of_locateNames located
  -- for the ledger to be read its path must have led into the place of the project
  rw [ledgerPath_eq_join] at located hwalk
  rw [h.locate_file isComponent_ledgerName hwalk, fileAt] at located
  split at located
  · exact absurd located (by simp)
  rename_i short
  split at located
  · exact absurd located (by simp)
  split at located
  · exact absurd located (by simp)
  rename_i there
  split at located
  · exact absurd located (by simp)
  obtain rfl := Except.ok.inj located
  exact ⟨⟨Nat.le_of_not_lt short, Decidable.not_not.mp there, hfiles⟩, content, found⟩

/-- A ledger that is a file is found. -/
theorem IsUsable.ledgerIsThere (hu : IsUsable p root t) (h : a.IsAt root t)
    (hledger : ∃ content, t.find? (p.place root ++ [ledgerName]) = some (.file content))
    (hwalk : Walkable (a.ledgerPath p)) : a.ledgerIsThere p t = .ok true t := by
  obtain ⟨content, found⟩ := hledger
  delta Archive.ledgerIsThere
  rw [statLink_ledger (hu.leadsTo h) hwalk found]

/-- After the images the temporary file is removed, so that what a ledger was moved aside to is
next. -/
theorem removeBeside_of_images {state : LedgerState} {n : Nat} (hu : IsUsable p root t)
    (h : a.IsAt root t) (hwalk : Walkable (a.temporaryPath p))
    (hrun : a.removeListedImages p state t = .ok n s) :
    ∃ u, (u.IsSound ∧ a.Touches p IsTemporary s u) ∧
      a.removeBeside p state t
        = (Disk.removeIfPresent (a.asidePath p) >>= fun _ => pure n) u := by
  have after := (confined_removeListedImages state).of_ok h hrun
  have hs := h.of_touches after
  rw [temporaryPath_eq_join] at hwalk
  obtain ⟨u, run⟩ := removeIfPresent_ok (hu.of_touches h after) hs (.inr (.inl rfl)) hwalk
  have confined : a.Confined p IsTemporary
      (Disk.removeIfPresent ((a.projectDir p).join temporaryName)) :=
    confined_removeIfPresent isComponent_temporaryName isTemporary_temporaryName
  refine ⟨u, confined.of_ok hs run, ?_⟩
  rw [removeBeside, run_bind_of_ok hrun, temporaryPath_eq_join, run_bind_of_ok run]

/-- A project with a ledger is cleared if no path is too long. -/
theorem clear_ok (hu : IsUsable p root t) (h : a.IsAt root t)
    (hledger : ∃ content, t.find? (p.place root ++ [ledgerName]) = some (.file content))
    (hwalk : Walkable (a.temporaryPath p))
    (hshort : (a.asidePath p).text.utf8ByteSize < pathLimit) :
    ∃ n s, a.clear p t = .ok n s := by
  have ledger := walkable_ledgerPath hwalk
  have aside := walkable_asidePath hwalk hshort
  -- the parts of clearing follow each other, each in a tree that is still usable
  have there := hu.ledgerIsThere h hledger ledger
  obtain ⟨n, t₁, images⟩ := removeListedImages_ok (a := a) (p := p) (a.load p t) t
  have after₁ := (confined_removeListedImages _).of_ok h images
  have h₁ := h.of_touches after₁
  have hu₁ := hu.of_touches h after₁
  obtain ⟨t₂, after₂, beside⟩ := removeBeside_of_images hu h hwalk images
  have h₂ := h₁.of_touches after₂
  have hu₂ := hu₁.of_touches h₁ after₂
  rw [asidePath_eq_join] at aside
  obtain ⟨t₃, run₃⟩ := removeIfPresent_ok hu₂ h₂ (.inr (.inr rfl)) aside
  have after₃ := (confined_removeIfPresent isComponent_asideName
    isOwnName_asideName).of_ok h₂ run₃
  rw [ledgerPath_eq_join] at ledger
  obtain ⟨t₄, run₄⟩ := removeIfPresent_ok (hu₂.of_touches h₂ after₃) (h₂.of_touches after₃)
    (.inl rfl) ledger
  refine ⟨n, t₄, ?_⟩
  have removed : a.removeBeside p (a.load p t) t = .ok n t₃ := by
    rw [beside, asidePath_eq_join, run_bind_of_ok run₃]
    rfl
  rw [clear_of_ledgerIsThere there, run_bind_of_ok removed, ledgerPath_eq_join,
    run_bind_of_ok run₄]
  rfl

/-- A file that can be read can be removed. -/
theorem isRemovable_of_readFile (h : a.IsAt root t) (hname : IsOwnName name)
    (hread : t.readFile ((a.projectDir p).join name) = .ok content) :
    a.IsRemovable p t name := by
  obtain ⟨loc, located, found⟩ := readFile_eq_ok_iff.mp hread
  obtain ⟨rfl, there⟩ := locate_of_locate h h (.refl t) (isComponent_of_isOwnName hname) located
    false
  exact isRemovable_iff.mpr ⟨_, there, by simp [found], by simp [found]⟩

/-- What has been removed cannot be read any more, nor after other files have been touched. -/
theorem readFile_of_gone {u : FileTree} (h : a.IsAt root t) (hs : a.IsAt root s)
    (hkeep : t.Keeps s) (after : u.IsSound ∧ a.Touches p own s u) (hname : IsOwnName name)
    (hfree : ¬ own name) (hread : t.readFile ((a.projectDir p).join name) = .ok content)
    (hgone : s.find? (p.place root ++ [name]) = none) :
    u.readFile ((a.projectDir p).join name) = .error .notFound := by
  obtain ⟨loc, located, -⟩ := readFile_eq_ok_iff.mp hread
  obtain ⟨-, there⟩ := locate_of_locate h (hs.of_touches after) (hkeep.trans after.2.keeps)
    (isComponent_of_isOwnName hname) located true
  have gone := (hs.find?_file_of_touches after.1 after.2 hname (.inr hfree)).trans hgone
  refine (readFile_of_locate there).trans ?_
  rw [readAt, gone]

/-- Where the path of the file that a ledger is moved aside to is too long, clearing a project removes
the images of all records that are listed and fails, so that the records stay listed. -/
theorem clear_of_long (hu : IsUsable p root t) (h : a.IsAt root t)
    (hledger : ∃ content, t.find? (p.place root ++ [ledgerName]) = some (.file content))
    (hload : a.load p t = .present records) (hwalk : Walkable (a.temporaryPath p))
    (hlong : ¬ Walkable (a.asidePath p)) :
    ∃ e s, a.clear p t = .error e s ∧ a.load p s = a.load p t ∧
      ∀ r ∈ records, ∀ content, t.readFile (a.imagePath p r.id) = .ok content →
        s.readFile (a.imagePath p r.id) = .error .notFound := by
  have there := hu.ledgerIsThere h hledger (walkable_ledgerPath hwalk)
  have images : ∀ name ∈ records.map (fun r => Record.imageFileName r.id), IsImage name :=
    fun name listed => isImage_of_mem_map listed
  -- the images and the temporary file go before the path that is too long is tried
  obtain ⟨t₁, removed, h₁, without⟩ := removeCounting_eq (p := p) h images
  rw [← imagePaths_eq] at removed
  obtain ⟨n, run₁⟩ : ∃ n, a.removeListedImages p (a.load p t) t = .ok n t₁ := by
    rw [hload]
    exact ⟨_, removed⟩
  have after₁ := (confined_removeListedImages _).of_ok h run₁
  obtain ⟨t₂, after₂, beside⟩ := removeBeside_of_images hu h hwalk run₁
  rw [asidePath_eq_join] at hlong
  obtain ⟨e, run₃⟩ := removeIfPresent_of_not_walkable isComponent_asideName hlong
  have cleared : a.clear p t = .error e t₂ := by
    have failed : a.removeBeside p (a.load p t) t = .error e t₂ := by
      rw [beside, asidePath_eq_join, run_bind_of_error (run₃ t₂)]
    rw [clear_of_ledgerIsThere there, run_bind_of_error failed]
  refine ⟨e, t₂, cleared, ?_, fun r hr content read => ?_⟩
  · rcases clear_cases (p := p) h with ⟨n, s, run, -⟩ | ⟨e', s, run, same⟩
    · exact absurd (cleared.symm.trans run) (by simp)
    · obtain ⟨-, rfl⟩ := EStateM.Result.error.inj (cleared.symm.trans run)
      exact same
  · have own := isOwnName_of_isImage (isImage_imageFileName r.id)
    rw [imagePath] at read ⊢
    exact readFile_of_gone h h₁ after₁.2.keeps after₂ own
      (fun same => not_isDocument_imageFileName r.id (.inr (.inl same))) read
      (without.gone _ (mem_removableNames.mpr ⟨List.mem_map_of_mem hr,
        isRemovable_of_readFile h own read⟩))

end ImageGateway.Archive
