import ImageGateway.Proofs.Archive.Clearing
import ImageGateway.Proofs.Archive.Moves

/-!
# Removing a record

Removing a record takes the first one with its number out of the ledger and leaves the others as they
are, in their order (`remove_splices_record`). The image goes first, whether there is a record of it or
not; where there is none, that is all that happens, and the ledger is not even written anew. Files are
reached by their paths, so that a link in the place of the temporary file is written over, and the way
to the ledger is lost if the image that is removed is a link on it (`remove_goes_astray`).
-/

set_option autoImplicit false

namespace ImageGateway.Archive

open Storage Storage.FileTree

variable {a : Archive} {p : Project} {t s u : FileTree} {dir loc : Location} {id : RecordId}
  {records written : List Record} {x : Bool}

/-! ## The record that is taken out -/

/-- Some records without the first one that has a number. -/
def IsSpliced (id : RecordId) (records written : List Record) : Prop :=
  ∃ front r back, records = front ++ r :: back ∧ r.id = id ∧ (∀ q ∈ front, q.id ≠ id) ∧
    written = front ++ back

theorem IsSpliced.mem (h : IsSpliced id records written) : id ∈ records.map Record.id := by
  obtain ⟨front, r, back, rfl, rfl, -, -⟩ := h
  exact List.mem_map_of_mem (List.mem_append_right front List.mem_cons_self)

theorem isSpliced_of_without? (h : without? id records = some written) :
    IsSpliced id records written :=
  without?_eq_some h

/-! ## The image that is removed -/

/-- There is a file or a link at the path of an image, and at which location. -/
def HoldsImage (a : Archive) (p : Project) (id : RecordId) (t : FileTree) (loc : Location) : Prop :=
  t.locate false (a.imagePath p id) = .ok loc ∧ t.HasFile (a.imagePath p id)

/-- The way to the directory of the project does not go over the image. -/
def IsOffTheWay (a : Archive) (p : Project) (id : RecordId) (t : FileTree) : Prop :=
  ∀ loc dir, a.HoldsImage p id t loc → t.LeadsTo (a.projectDir p) dir →
    (t.erase loc).LeadsTo (a.projectDir p) dir

namespace HoldsImage

theorem eq (h : a.HoldsImage p id t loc) (hled : t.LeadsTo (a.projectDir p) dir) :
    loc = dir ++ [Record.imageFileName id] := by
  obtain ⟨dir', left, led, last⟩ := locate_join (isComponent_imageFileName id) h.1
  obtain rfl := eq_of_walk_one_false (isComponent_imageFileName id).isName last
  rw [led.unique hled (.refl t)]

theorem notDir (h : a.HoldsImage p id t loc) : t.find? loc ≠ some .directory := by
  obtain ⟨located, entry, there, notDir⟩ := h
  obtain ⟨loc', located', found⟩ := statLink_eq_ok there
  obtain rfl := Except.ok.inj (located.symm.trans located')
  rw [found]
  exact fun isDir => notDir (Option.some.inj isDir)

/-- No image is in the place of a document. -/
theorem ne_document {name : String} (h : a.HoldsImage p id t loc)
    (hled : t.LeadsTo (a.projectDir p) dir) (hname : IsDocument name) : loc ≠ dir ++ [name] := by
  rw [h.eq hled]
  intro same
  have name_eq := List.singleton_inj.mp (List.append_cancel_left same)
  exact not_isDocument_imageFileName id (name_eq ▸ hname)

end HoldsImage

/-- Removing the image removes what is at its path, if that is no directory. -/
theorem loses_of_removeImage {removed : Bool} (h : a.removeImage p id t = .ok removed u) :
    Loses (a.HoldsImage p id t) t u ∧ ¬ u.HasFile (a.imagePath p id) := by
  rcases tryRemove_eq_ok h with ⟨-, rfl, missing⟩ | ⟨-, tried⟩
  · refine ⟨(Loses.refl u).congr fun loc => ?_, missing⟩
    exact iff_of_false not_false fun held => missing held.2
  · have there := hasFile_iff.mpr ⟨u, tried⟩
    obtain ⟨loc, located, -, -, put⟩ := removeFile_eq_ok tried
    refine ⟨(Loses.of_setAt put).congr fun other => ?_, ?_⟩
    · constructor
      · rintro rfl
        exact ⟨located, there⟩
      · rintro ⟨located', -⟩
        exact Except.ok.inj (located'.symm.trans located)
    · rintro ⟨entry, found, -⟩
      exact absurd ((statLink_of_removeFile tried).symm.trans found) (by simp)

/-- Removing a record removes its image, and then writes the other records if there was one. -/
theorem remove_eq_ok (hrun : a.remove p id t = .ok x s) :
    ∃ removed u, a.removeImage p id t = .ok removed u ∧
      (x = false ∧ s = u ∧ without? id (a.load p t).records = none ∨
        x = true ∧ ∃ records written, a.load p t = .present records ∧
          without? id records = some written ∧ a.persist p written u = .ok () s) := by
  rw [remove, update_eq] at hrun
  obtain ⟨commit, u, changed, settled⟩ := ok_of_run_bind hrun
  obtain ⟨removed, u', run, returned⟩ := ok_of_run_bind changed
  obtain ⟨rfl, rfl⟩ := EStateM.Result.ok.inj returned
  refine ⟨removed, u', run, ?_⟩
  cases made : without? id (a.load p t).records with
  | none =>
    rw [made] at settled
    obtain ⟨rfl, rfl⟩ := EStateM.Result.ok.inj settled
    exact .inl ⟨rfl, rfl, rfl⟩
  | some written =>
    -- only a ledger that could be read lists anything
    rw [made] at settled
    cases loaded : a.load p t with
    | present records =>
      rw [loaded] at made settled
      obtain ⟨rfl, v, ⟨-, rfl⟩ | ⟨unreadable, -⟩, persisted⟩ := settle_write_eq_ok settled
      · exact .inr ⟨rfl, records, written, rfl, made, persisted⟩
      · exact absurd unreadable (by simp [LedgerState.isUnreadable])
    | absent | unreadable =>
      rw [loaded] at made
      exact absurd made (by simp [LedgerState.records, without?])

/-! ## The ledger that is written -/

/-- After the image has been removed the directory of the project is where it was. -/
theorem leadsTo_of_losesImage (h : Loses (a.HoldsImage p id t) t u) (hoff : a.IsOffTheWay p id t)
    (hled : t.LeadsTo (a.projectDir p) dir) : u.LeadsTo (a.projectDir p) dir := by
  -- this is the tree without the image, if there was one
  have same : ∀ {v : FileTree}, v.workingDirectory = u.workingDirectory →
      (∀ other, v.find? other = u.find? other) → v.LeadsTo (a.projectDir p) dir →
      u.LeadsTo (a.projectDir p) dir := by
    intro v working found led
    have erases : u.Erases (fun _ => True) v := ⟨working, fun other => .inl (found other)⟩
    exact erases.leadsTo led
  by_cases there : ∃ loc, a.HoldsImage p id t loc
  · obtain ⟨loc, held⟩ := there
    have notRoot : loc ≠ [] := by
      rw [held.eq hled]
      simp
    have gone := setAt_erase notRoot t
    refine same (gone.working.trans h.working.symm) (fun other => ?_) (hoff loc dir held hled)
    by_cases here : other = loc
    · rw [here, gone.here, h.lost loc held]
    · have free : ¬ a.HoldsImage p id t other := fun held' =>
        here ((held'.eq hled).trans (held.eq hled).symm)
      rw [gone.elsewhere other here, h.elsewhere other free]
  · have kept : ∀ other, u.find? other = t.find? other := fun other =>
      h.elsewhere other fun held => there ⟨other, held⟩
    exact same h.working.symm (fun other => (kept other).symm) hled

theorem erases_of_losesImage (h : Loses (a.HoldsImage p id t) t u) :
    t.Erases (a.HoldsImage p id t) u := by
  refine ⟨h.working, fun loc => ?_⟩
  by_cases held : a.HoldsImage p id t loc
  · exact .inr ⟨held, held.notDir, h.lost loc held⟩
  · exact .inl (h.elsewhere loc held)

/-- A ledger that could be read is no less in its directory after files have been removed. -/
theorem IsReadIn.of_erases {gone : Location → Prop} (h : a.IsReadIn p t dir) (he : t.Erases gone u)
    (hled : u.LeadsTo (a.projectDir p) dir) : a.IsReadIn p u dir := by
  have walkable := (walk_of_locateNames h.located).1
  refine ⟨hled, ?_, fun isDir => h.notDir (he.find?_eq_some isDir), ?_⟩
  · rw [ledgerPath_eq_join] at walkable ⊢
    exact hled.locate_join isComponent_ledgerName walkable short_ledgerName
  · intro dir' name target links left mid same isLink way
    exact h.noWay dir' name target links left mid same (he.find?_eq_some isLink) (he.leads way)

theorem HasNoTemporaryLink.of_erases {gone : Location → Prop} (h : a.HasNoTemporaryLink p t)
    (he : t.Erases gone u) : a.HasNoTemporaryLink p u := by
  intro target isLink
  obtain ⟨loc, located, found⟩ := statLink_eq_ok isLink
  refine h target ?_
  rw [statLink_of_locate (he.locate_eq_ok located (by simp [found])), he.find?_eq_some found]

/-- A record has been spliced out of a ledger: its directory has a new one without the record, the
temporary file and the image are gone, and nothing else is different. -/
structure Splices (a : Archive) (p : Project) (id : RecordId) (records : List Record)
    (t s : FileTree) (dir : Location) : Prop where
  leads : s.LeadsTo (a.projectDir p) dir
  ledger : ∃ written, IsSpliced id records written ∧
    s.statLink (a.ledgerPath p) = .ok (.file (Record.document written))
  temporary : s.statLink (a.temporaryPath p) = .error .notFound
  image : ¬ s.HasFile (a.imagePath p id)
  elsewhere : ∀ loc, loc ≠ dir ++ [ledgerName] → loc ≠ dir ++ [temporaryName] →
    ¬ a.HoldsImage p id t loc → s.find? loc = t.find? loc
  working : s.workingDirectory = t.workingDirectory

theorem splices_of_persist {y : Unit} (hs : t.IsSound) (h : a.IsReadIn p t dir)
    (himage : Loses (a.HoldsImage p id t) t u) (hmissing : ¬ u.HasFile (a.imagePath p id))
    (hlink : a.HasNoTemporaryLink p t) (hoff : a.IsOffTheWay p id t)
    (hmade : IsSpliced id records written) (hrun : a.persist p written u = .ok y s) :
    a.Splices p id records t s dir := by
  have erases := erases_of_losesImage himage
  have read := h.of_erases erases (leadsTo_of_losesImage himage hoff h.leads)
  have noLink := hlink.of_erases erases
  obtain ⟨led, loc, entry, replaces, -⟩ :=
    read.replaces (erases.isSound hs) (isBypassed_of_noLink noLink) hrun
  have walkable := walkable_of_persist hrun
  have gone := setAt_erase_ledger dir u
  obtain ⟨rfl, rfl⟩ := replaces.eq_of_noLink read.leadsTo_erase fun target => by
    rw [gone.elsewhere _ (Ne.symm (ledger_ne_temporary dir))]
    exact noLink.find?_ne_link read.leads walkable target
  -- what is neither the ledger nor the temporary file is as it was when the image had been removed
  have kept : ∀ other, other ≠ dir ++ [ledgerName] → other ≠ dir ++ [temporaryName] →
      s.find? other = u.find? other := fun other notLedger notTemporary => by
    rw [replaces.elsewhere notTemporary notTemporary notLedger, gone.elsewhere other notLedger]
  refine ⟨led, ⟨written, hmade, statLink_ledger led (walkable_ledgerPath walkable) replaces.ledger⟩,
    ?_, fun there => hmissing ?_, fun other notLedger notTemporary free => ?_, ?_⟩
  · rw [temporaryPath_eq_join] at walkable ⊢
    rw [statLink_join led isComponent_temporaryName walkable short_temporaryName,
      replaces.temporary]
  · have component := isComponent_imageFileName id
    obtain ⟨walk, short, entry, found, notDir⟩ := (hasFile_join_iff led component).mp there
    have notDocument : ∀ name, IsDocument name →
        dir ++ [Record.imageFileName id] ≠ dir ++ [name] := fun name hname same =>
      not_isDocument_imageFileName id (List.singleton_inj.mp (List.append_cancel_left same) ▸ hname)
    rw [kept _ (notDocument _ (.inl rfl)) (notDocument _ (.inr (.inl rfl)))] at found
    exact (hasFile_join_iff read.leads component).mpr ⟨walk, short, entry, found, notDir⟩
  · rw [kept other notLedger notTemporary, himage.elsewhere other free]
  · rw [replaces.working, gone.working, himage.working]

/-- Removing a record says whether the ledger lists one with the number. If it does not, only the image
with the number is gone, and the ledger is as it was. If it does, the first such record is spliced out,
unless the temporary file is a link or the image is one on the way to the project. -/
theorem remove_splices_record (hs : t.IsSound) (hrun : a.remove p id t = .ok x s) :
    (x = true ↔ ∃ records, a.load p t = .present records ∧ id ∈ records.map Record.id) ∧
    (x = false → Loses (a.HoldsImage p id t) t s ∧ ¬ s.HasFile (a.imagePath p id) ∧
      ∀ loc, t.locate false (a.ledgerPath p) = .ok loc → s.find? loc = t.find? loc) ∧
    (x = true → a.HasNoTemporaryLink p t → a.IsOffTheWay p id t →
      ∃ records dir, a.load p t = .present records ∧ t.LeadsTo (a.projectDir p) dir ∧
        a.Splices p id records t s dir) := by
  obtain ⟨removed, u, image, ⟨rfl, rfl, none⟩ | ⟨rfl, records, written, loaded, made, persisted⟩⟩ :=
    remove_eq_ok hrun
  · obtain ⟨loses, missing⟩ := loses_of_removeImage image
    refine ⟨iff_of_false (by simp) ?_, fun _ => ⟨loses, missing, fun loc located => ?_⟩,
      fun no => absurd no (by simp)⟩
    · rintro ⟨records, loaded, listed⟩
      rw [loaded] at none
      obtain ⟨r, hr, same⟩ := List.mem_map.mp listed
      exact ne_of_without?_eq_none none r hr same
    · -- the image is removed from the directory that the ledger is looked for in
      rw [ledgerPath_eq_join] at located
      obtain ⟨dir, left, led, last⟩ := locate_join isComponent_ledgerName located
      obtain rfl := eq_of_walk_one_false isComponent_ledgerName.isName last
      exact loses.elsewhere _ fun held => held.ne_document led (.inl rfl) rfl
  · have spliced := isSpliced_of_without? made
    refine ⟨iff_of_true rfl ⟨records, loaded, spliced.mem⟩, fun no => absurd no (by simp),
      fun _ noLink off => ?_⟩
    obtain ⟨loses, missing⟩ := loses_of_removeImage image
    obtain ⟨dir, read⟩ := isReadIn_of_load hs loaded
    exact ⟨records, dir, loaded, read.leads,
      splices_of_persist hs read loses missing noLink off spliced persisted⟩

/-- The first record is removed from a ledger of two. -/
theorem remove_splices_record_blockedProject :
    (blockedProject "notes").IsSound ∧
      results.HasNoTemporaryLink .global (blockedProject "notes") ∧
      results.IsOffTheWay .global 1 (blockedProject "notes") ∧
      ∃ s, results.remove .global 1 (blockedProject "notes") = .ok true s ∧
        ∃ records dir, results.load .global (blockedProject "notes") = .present records ∧
          (blockedProject "notes").LeadsTo (results.projectDir .global) dir ∧
          results.Splices .global 1 records (blockedProject "notes") s dir := by
  have sound : (blockedProject "notes").IsSound := isSound_blockedImages _ _
  have removed := loses_of_removeImage (tryRemove_blockedProject "notes")
  have sound' := (erases_of_losesImage removed.1).isSound sound
  have missing : (blockedProject "notes").statLink (results.temporaryPath .global)
      = .error .notFound := rfl
  have noLink : results.HasNoTemporaryLink .global (blockedProject "notes") :=
    fun target isLink => absurd (missing.symm.trans isLink) (by simp)
  have led : (blockedProject "notes").LeadsTo (results.projectDir .global) ["results"] :=
    ⟨mostLinks, leads_results rfl rfl⟩
  have off : results.IsOffTheWay .global 1 (blockedProject "notes") := by
    intro loc dir held way
    obtain rfl : dir = ["results"] := led.unique way (.refl _)
    rw [held.eq led]
    exact ⟨mostLinks, leads_results rfl rfl⟩
  have changed : (results.removeImage .global 1 >>= fun _ =>
      pure (commitIf (without? 1 blockedRecords)) : Disk (Commit Bool)) (blockedProject "notes")
      = .ok (commitIf (without? 1 blockedRecords)) (removedFirst "notes") :=
    run_bind_of_ok (tryRemove_blockedProject "notes")
  have run : results.remove .global 1 (blockedProject "notes")
      = .ok true (replacedResults (removedFirst "notes")
        (Record.document [⟨"", [], 0, 2, none⟩])) := by
    refine update_of_persist ?_ ?_ (persist_results sound' rfl rfl isPlain_none (by decide) _)
    · rw [load_blockedProject]
      rfl
    · rw [load_blockedProject]
      exact changed
  exact ⟨sound, noLink, off, _, run, (remove_splices_record sound run).2.2 rfl noLink off⟩

/-! ## Gone astray -/

/-- A results directory with a ledger of two records, and a link to another file in the place of the
temporary file. -/
def linkedNotes : FileTree where
  entries := [(["results"], .directory),
    (["results", "history.json"], .file (Record.document blockedRecords)),
    (["results", "history.json.tmp"], .link ⟨"notes"⟩), (["results", "notes"], .file [1])]
  workingDirectory := []

/-- A record is removed once its image is gone and the others have been written. -/
theorem remove_of_steps {removed : Bool} (hload : a.load p t = .present records)
    (himage : a.removeImage p id t = .ok removed u) (hmade : without? id records = some written)
    (hrun : a.persist p written u = .ok () s) : a.remove p id t = .ok true s := by
  refine update_of_persist ?_ ?_ hrun
  · rw [hload]
    rfl
  · rw [hload, run_bind_of_ok himage, LedgerState.records, hmade]
    rfl

/-- The other file is written over. -/
theorem remove_linkedNotes :
    results.load .global linkedNotes = .present blockedRecords ∧
      ∃ s, results.remove .global 1 linkedNotes = .ok true s ∧
        s.find? ["results", "history.json"] = some (.link ⟨"notes"⟩) ∧
        s.find? ["results", "notes"] = some (.file (Record.document [⟨"", [], 0, 2, none⟩])) := by
  have loaded : results.load .global linkedNotes = .present blockedRecords :=
    load_of_readFile_blockedRecords rfl
  have image : results.removeImage .global 1 linkedNotes = .ok false linkedNotes := by
    rw [removeImage, imagePath_one]
    rfl
  have file : linkedNotes.find? ["results", "notes"] = some (.file [1]) := rfl
  have located : linkedNotes.locate true (results.temporaryPath .global)
      = .ok ["results", "notes"] := by
    rw [temporaryPath_eq_join]
    exact locate_link_results rfl rfl isComponent_temporaryName (by decide)
      short_temporaryName rfl (by decide) (by decide)
      (by simp [file])
  -- the link is written through, and then takes the place of the ledger
  obtain ⟨s, persisted, h⟩ := persist_over_link (isSound_of_entries (by decide) rfl) rfl rfl rfl
    (by decide) located (by simp [file]) [⟨"", [], 0, 2, none⟩]
  exact ⟨loaded, s, remove_of_steps loaded image rfl persisted, h.ledger,
    h.written (by decide) (by decide)⟩

/-- The directory after another has been made in the place of its link. -/
def linkedWayMade : FileTree := linkedWayRemoved.insert ["results", "00001.png"] .directory

/-- The directory after a ledger has been written to the other one. -/
def linkedWayReplaced (ledger : Bytes) : FileTree :=
  ((linkedWayMade.insert ["results", "00001.png", "history.json.tmp"] (.file ledger)).erase
    ["results", "00001.png", "history.json.tmp"]).insert ["results", "00001.png", "history.json"]
      (.file ledger)

/-- The ledger is left, and a directory has been made for another one in the place of the image. -/
theorem remove_linkedWay :
    linkedWay.load .global linkedWayResults = .present blockedRecords ∧
      ∃ s, linkedWay.remove .global 1 linkedWayResults = .ok true s ∧
        s.find? ["results", "history.json"] = some (.file (Record.document blockedRecords)) ∧
        s.find? ["results", "00001.png"] = some .directory := by
  have made : linkedWayRemoved.makeDirs (linkedWay.projectDir .global) = (.ok (), linkedWayMade) :=
    rfl
  have written : ∀ document, linkedWayMade.writeFile (linkedWay.temporaryPath .global) document
      = .ok (linkedWayMade.insert ["results", "00001.png", "history.json.tmp"] (.file document)) :=
    fun _ => rfl
  have renamed : ∀ document,
      (linkedWayMade.insert ["results", "00001.png", "history.json.tmp"] (.file document)).rename
        (linkedWay.temporaryPath .global) (linkedWay.ledgerPath .global)
        = .ok (linkedWayReplaced document) := fun _ => rfl
  refine ⟨load_linkedWay, linkedWayReplaced (Record.document [⟨"", [], 0, 2, none⟩]), ?_, rfl, rfl⟩
  exact remove_of_steps load_linkedWay tryRemove_linkedWay rfl
    (persist_of_steps made (written _) (renamed _))

/-- The image is left, since its path is too long. -/
theorem remove_longImage :
    (slashedResults 4065).remove .global 10000000000000000000 longImage = .ok false longImage ∧
      longImage.find? ["results", "10000000000000000000.png"] = some (.file [2]) := by
  have digits : Decimal.padded 5 (10000000000000000000 : RecordId).toNat
      = "10000000000000000000".toList := by decide +kernel
  have name : Record.imageFileName 10000000000000000000 = "10000000000000000000.png" := by
    rw [Record.imageFileName, digits]
    rfl
  have component := isComponent_imageFileName 10000000000000000000
  have long : ¬ Walkable ((slashedResults 4065).imagePath .global 10000000000000000000) := by
    intro walkable
    have short := walkable.short
    rw [imagePath, text_slashedResults 4064 component, String.utf8ByteSize_append,
      size_slashedResults, name] at short
    exact absurd short (by decide)
  obtain ⟨fault, failed⟩ := locateNames_error long
  have kept : (slashedResults 4065).removeImage .global 10000000000000000000 longImage
      = .ok false longImage := by
    rw [removeImage, Disk.tryRemove, removeFile, lookUp, locate, failed]
    rfl
  have unreadable : (slashedResults 4065).load .global longImage = .unreadable :=
    image_left_longImage.1
  refine ⟨?_, rfl⟩
  rw [remove, update_eq, unreadable, LedgerState.records, run_bind, run_bind_of_ok kept]
  rfl

/-- Removing a record writes over another file and makes the ledger a link if the temporary file is a
link. If the image is a link on the way to the project, the ledger is left as it was. The image is left
if its path is too long. -/
theorem remove_goes_astray :
    (results.load .global linkedNotes = .present blockedRecords ∧
      ∃ s, results.remove .global 1 linkedNotes = .ok true s ∧
        s.find? ["results", "history.json"] = some (.link ⟨"notes"⟩) ∧
        s.find? ["results", "notes"] = some (.file (Record.document [⟨"", [], 0, 2, none⟩]))) ∧
    (linkedWay.load .global linkedWayResults = .present blockedRecords ∧
      ∃ s, linkedWay.remove .global 1 linkedWayResults = .ok true s ∧
        s.find? ["results", "history.json"] = some (.file (Record.document blockedRecords)) ∧
        s.find? ["results", "00001.png"] = some .directory) ∧
    (slashedResults 4065).remove .global 10000000000000000000 longImage = .ok false longImage ∧
      longImage.find? ["results", "10000000000000000000.png"] = some (.file [2]) :=
  ⟨remove_linkedNotes, remove_linkedWay, remove_longImage⟩

end ImageGateway.Archive
