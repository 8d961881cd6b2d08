import ImageGateway.Proofs.Archive.FailedDeletions
import ImageGateway.Proofs.Archive.Operations
import ImageGateway.Proofs.Archive.SeenLedgers

/-!
# Record numbers stay unique

If no ledger lists a number twice, none ever does, whatever is done with the archive
(`hasDistinctIds_afterAll`), as long as each operation keeps apart from the ledgers
(`Operation.KeepsApart`): no image is written where the path of a ledger leads, and making the directory
of a project does not bring into sight a ledger that lists a number twice. Both are so where the results
directory is there and has no links below it (`keepsApart_of_isAt`). New records get numbers above all
that are in the ledger.
-/

set_option autoImplicit false

namespace ImageGateway

open Storage Storage.FileTree

variable {a : Archive} {p : Project} {t s : FileTree} {root dir : Location} {records : List Record}
  {α : Type}

namespace Archive

/-- No ledger lists a number twice. -/
def HasDistinctIds (a : Archive) (t : FileTree) : Prop :=
  ∀ p records, a.load p t = .present records → (records.map Record.id).Nodup

/-- A ledger that comes into sight when the directory of a project is made does not list a number
twice. -/
def UnveilsNoTwins (a : Archive) (p : Project) (t : FileTree) : Prop :=
  ∀ q records, a.load q (a.prepared p t) = .present records → a.load q t ≠ .present records →
    (records.map Record.id).Nodup

/-- No image of a batch is written where the path of a ledger leads. -/
def WritesNoLedger (a : Archive) (p : Project) (count : Nat) (t : FileTree) : Prop :=
  ∀ loc q, a.IsNextImage p (a.prepared p t) (Numbering.aboveRecords (a.load p t).records).last
      count loc → (a.prepared p t).locate true (a.ledgerPath q) ≠ .ok loc

end Archive

/-- An operation writes no image over a ledger, and brings none into sight that lists a number twice.
Images are only written for a batch; the directory of a project is made for a batch, or when a record is
removed whose image was a link on the way there. -/
def Operation.KeepsApart (a : Archive) (p : Project) (t : FileTree) : Operation → Prop
  | .recordBatch _ _ answer _ => Archive.batchImages answer ≠ [] →
    a.UnveilsNoTwins p t ∧ a.WritesNoLedger p (Archive.batchImages answer).length t
  | .remove id => (Archive.without? id (a.load p t).records).isSome →
    a.UnveilsNoTwins p (treeAfter (a.removeImage p id) t)
  | _ => True

/-- Each operation of a run keeps apart from the ledgers when its turn comes. -/
def Operation.AllKeepApart (a : Archive) : List (Project × Operation) → FileTree → Prop
  | [], _ => True
  | (p, op) :: ops, t => op.KeepsApart a p t ∧ AllKeepApart a ops (op.after a p t)

namespace Archive

/-! ## What is read -/

/-- The document of a ledger does not list a number twice. -/
def ListsOnce (content : Bytes) : Prop :=
  ∀ records, Record.ofDocument? content = some records → (records.map Record.id).Nodup

theorem hasDistinctIds_iff :
    a.HasDistinctIds t ↔
      ∀ p content, t.readFile (a.ledgerPath p) = .ok content → ListsOnce content := by
  constructor
  · intro h p content hread records parsed
    refine h p records ?_
    delta load
    rw [hread]
    simp only [parsed]
  · intro h p records hload
    obtain ⟨content, hread⟩ := readFile_of_load hload
    refine h p content hread records ?_
    delta load at hload
    rw [hread] at hload
    cases parsed : Record.ofDocument? content with
    | none => simp [parsed] at hload
    | some read =>
      simp only [parsed] at hload
      rw [LedgerState.present.inj hload]

/-- Records with different numbers are read back with different numbers. -/
theorem listsOnce_document (h : (records.map Record.id).Nodup) :
    ListsOnce (Record.document records) := by
  intro read parsed
  rw [Record.ofDocument?_document] at parsed
  rw [Record.map_id_of_mapM_reread parsed]
  exact h

/-- Where every document that is read as a ledger lists its numbers once or was read as one before. -/
theorem HasDistinctIds.of_read (h : a.HasDistinctIds t)
    (hread : ∀ q content, s.readFile (a.ledgerPath q) = .ok content →
      ListsOnce content ∨ t.readFile (a.ledgerPath q) = .ok content) : a.HasDistinctIds s := by
  rw [hasDistinctIds_iff] at h ⊢
  intro q content read
  rcases hread q content read with once | before
  · exact once
  · exact h q content before

theorem nodup_records (h : a.HasDistinctIds t) (p : Project) :
    ((a.load p t).records.map Record.id).Nodup := by
  cases hload : a.load p t with
  | absent => exact List.nodup_nil
  | unreadable => exact List.nodup_nil
  | present records => exact h p records hload

/-! ## Steps -/

/-- A sound tree in which no ledger lists a number twice. -/
structure IsGood (a : Archive) (t : FileTree) : Prop where
  sound : t.IsSound
  distinct : a.HasDistinctIds t

theorem IsGood.erase {gone : Location → Prop} (h : a.IsGood t) (herases : t.Erases gone s) :
    a.IsGood s :=
  ⟨herases.isSound h.sound, h.distinct.of_read fun _ _ read => .inr (herases.readFile read)⟩

theorem HasDistinctIds.prepare (h : a.HasDistinctIds t) (hunveils : a.UnveilsNoTwins p t) :
    a.HasDistinctIds (a.prepared p t) := by
  intro q records hload
  by_cases before : a.load q t = .present records
  · exact h q records before
  · exact hunveils q records hload before

/-- Images are written that are no ledgers. -/
theorem HasDistinctIds.overwrite {written : Location → Prop} (h : a.HasDistinctIds t)
    (hoverwrites : t.Overwrites written s)
    (hapart : ∀ loc q, written loc → t.locate true (a.ledgerPath q) ≠ .ok loc) :
    a.HasDistinctIds s := by
  refine h.of_read fun q content read => .inr ?_
  obtain ⟨loc, located, found⟩ := readFile_eq_ok_iff.mp read
  have before := hoverwrites.locate_iff.mp located
  rcases hoverwrites.entry loc with same | ⟨here, -⟩
  · exact readFile_eq_ok_iff.mpr ⟨loc, before, same.symm.trans found⟩
  · exact absurd before (hapart loc q here)

/-- The ledger that is moved aside has listed its numbers once. -/
theorem IsGood.makeWay {unreadable : Bool} (h : a.IsGood t) (hway : a.MakesWay p unreadable t s) :
    a.IsGood s := by
  rcases makesWay_cases hway with rfl | ⟨-, document, dir, file, moves⟩
  · exact h
  refine ⟨isSound_of_rename h.sound moves.renamed, h.distinct.of_read fun q content read => ?_⟩
  refine (moves.readFile_cases read).imp_left ?_
  rintro rfl records parsed
  exact h.distinct p records (load_of_statLink file parsed)

/-- Records with different numbers are written where no ledger has come into sight that lists a number
twice. -/
theorem isGood_persist (hs : t.IsSound) (hprepared : a.HasDistinctIds (a.prepared p t))
    (hrecords : (records.map Record.id).Nodup) : a.IsGood (treeAfter (a.persist p records) t) := by
  refine ⟨isSound_after_persist hs records, hprepared.of_read fun q content read => ?_⟩
  refine (readFile_after_persist hs read).imp_left ?_
  rintro rfl
  exact listsOnce_document hrecords

/-- An update keeps the numbers different if its change does, and has records written that have different
numbers. -/
theorem isGood_update {change : List Record → Disk (Commit α)}
    (hchange : a.IsGood (treeAfter (change (a.load p t).records) t))
    (hwrite : ∀ records x u, change (a.load p t).records t = .ok (.write records x) u →
      (records.map Record.id).Nodup ∧ ∀ v, a.MakesWay p (a.load p t).isUnreadable u v →
        a.HasDistinctIds v → a.HasDistinctIds (a.prepared p v)) :
    a.IsGood (treeAfter (a.update p change) t) := by
  rw [treeAfter] at hchange
  have settled : ∀ {records x u v}, change (a.load p t).records t = .ok (.write records x) u →
      a.MakesWay p (a.load p t).isUnreadable u v → a.IsGood (treeAfter (a.persist p records) v) := by
    intro records x u v changed way
    rw [changed] at hchange
    obtain ⟨nodup, prepared⟩ := hwrite records x u changed
    have good := hchange.makeWay way
    exact isGood_persist good.sound (prepared v way good.distinct) nodup
  rw [treeAfter]
  cases run : a.update p change t with
  | ok x s =>
    rcases update_eq_ok run with kept | ⟨records, u, v, changed, way, persisted⟩
    · rw [kept] at hchange
      exact hchange
    · have after := settled changed way
      rwa [treeAfter, persisted] at after
  | error e s =>
    rcases update_eq_error run with failed | ⟨records, x, u, changed, ⟨-, failed⟩ | ⟨v, way, failed⟩⟩
    · rw [failed] at hchange
      exact hchange
    · rw [changed] at hchange
      rw [setAside_eq_error failed]
      exact hchange
    · have after := settled changed way
      rwa [treeAfter, failed] at after

/-! ## Operations -/

/-- Way for a ledger is made without a change to the directory of the project. -/
theorem prepared_of_makesWay {unreadable : Bool} (hs : t.IsSound)
    (hled : t.LeadsTo (a.projectDir p) dir) (hway : a.MakesWay p unreadable t s) :
    a.prepared p s = s := by
  rcases makesWay_cases hway with rfl | ⟨-, document, dir', file, moves⟩
  · exact prepared_of_leadsTo hs hled
  · exact makeDirs_of_blocks (isSound_of_rename hs moves.renamed) moves.leads moves.working moves.blocks

/-- A ledger that could be read is in the directory of its project. -/
theorem leadsTo_of_present (h : a.load p t = .present records) :
    ∃ dir, t.LeadsTo (a.projectDir p) dir := by
  obtain ⟨content, read⟩ := readFile_of_load h
  obtain ⟨loc, located, -⟩ := readFile_eq_ok_iff.mp read
  rw [ledgerPath_eq_join] at located
  obtain ⟨dir, left, led, -⟩ := locate_join isComponent_ledgerName located
  exact ⟨dir, led⟩

/-- Images of a batch are written once the directory of the project has been made, or nothing is
done. -/
theorem overwrites_after_recordImages (hs : t.IsSound) {parameters : Json.Members} {genTime : UInt64}
    {numbering : Numbering} {images : List (String × Record.CacheToken)} (hsome : images ≠ []) :
    treeAfter (a.recordImages p parameters genTime numbering images) t = t ∨
      (a.prepared p t).Overwrites
        (a.IsNextImage p (a.prepared p t) numbering.last images.length)
        (treeAfter (a.recordImages p parameters genTime numbering images) t) := by
  rw [treeAfter]
  cases run : a.recordImages p parameters genTime numbering images t with
  | error e s => exact recordImages_eq_error hs hsome run
  | ok created s => exact .inr (recordImages_eq_ok hs hsome run).2

theorem IsGood.recordBatch (h : a.IsGood t) (tokens : Nat → Record.CacheToken)
    (request answer : Bytes) (elapsed : UInt64)
    (hapart : batchImages answer ≠ [] →
      a.UnveilsNoTwins p t ∧ a.WritesNoLedger p (batchImages answer).length t) :
    a.IsGood (treeAfter (a.recordBatch p tokens request answer elapsed) t) := by
  rcases recordBatch_eq_or a p tokens request answer elapsed with ⟨-, run⟩ | ⟨some, drawn, run⟩
  · rw [run]
    exact h
  obtain ⟨unveils, writes⟩ := hapart some
  rw [← length_drawnImages tokens] at writes
  rw [run]
  refine isGood_update ?_ fun records x u changed => ?_
  · rw [addImages, treeAfter_bind_pure]
    refine ⟨(respects_recordImages _ _ _ _ t h.sound).1, ?_⟩
    rcases overwrites_after_recordImages h.sound drawn with same | written
    · rw [same]
      exact h.distinct
    · exact (h.distinct.prepare unveils).overwrite written writes
  · obtain ⟨created, recorded, commit, batch, -⟩ := addImages_eq_ok changed
    obtain ⟨rfl, -⟩ := Commit.write.inj commit
    refine ⟨batch.nodup_append (nodup_records h.distinct p), fun v way distinct => ?_⟩
    -- the images have been written in the directory of the project
    obtain ⟨⟨dir, led⟩, written⟩ := recordImages_eq_ok h.sound drawn recorded
    have sound := ((respects_recordImages _ _ _ _).of_ok recorded h.sound).1
    rwa [prepared_of_makesWay sound (led.keep written.keeps) way]

theorem IsGood.move (h : a.IsGood t) {f : List Record → Option (List Record)}
    (hf : ExchangesNeighbours f) :
    a.IsGood (treeAfter (a.update p fun records => pure (commitIf (f records))) t) := by
  refine isGood_update h fun records x u changed => ?_
  obtain ⟨commit, rfl⟩ := EStateM.Result.ok.inj changed
  cases made : f (a.load p t).records with
  | none => simp [made, commitIf] at commit
  | some written =>
    rw [made] at commit
    obtain ⟨rfl, -⟩ := Commit.write.inj commit
    have same := ((hf.perm made).map Record.id).nodup_iff
    refine ⟨same.mpr (nodup_records h.distinct p), fun v way distinct => ?_⟩
    -- only a ledger that could be read lists something to be moved
    cases loaded : a.load p t with
    | present records =>
      obtain ⟨dir, led⟩ := leadsTo_of_present loaded
      rwa [prepared_of_makesWay h.sound led way]
    | _ =>
      rw [loaded] at made
      exact absurd (hf.nil.symm.trans made) (by simp)

theorem IsGood.remove (h : a.IsGood t) (id : RecordId)
    (hunveils : (without? id (a.load p t).records).isSome →
      a.UnveilsNoTwins p (treeAfter (a.removeImage p id) t)) :
    a.IsGood (treeAfter (a.remove p id) t) := by
  have erases : t.Erases (t.IsThere (a.imagePath p id)) (treeAfter (a.removeImage p id) t) :=
    erases_tryRemove (a.imagePath p id) t
  refine isGood_update ?_ fun records x u changed => ?_
  · rw [treeAfter_bind_pure]
    exact h.erase erases
  obtain ⟨removed, w, run, returned⟩ := ok_of_run_bind changed
  obtain ⟨commit, rfl⟩ := EStateM.Result.ok.inj returned
  have image : treeAfter (a.removeImage p id) t = w := by rw [treeAfter, run]
  rw [image] at hunveils
  cases made : without? id (a.load p t).records with
  | none => simp [made, commitIf] at commit
  | some written =>
    rw [made] at commit hunveils
    obtain ⟨rfl, -⟩ := Commit.write.inj commit
    refine ⟨(nodup_records h.distinct p).sublist ((sublist_of_without? made).map Record.id),
      fun v way distinct => ?_⟩
    rcases way with ⟨-, rfl⟩ | ⟨unreadable, -⟩
    · exact distinct.prepare (hunveils rfl)
    · -- what cannot be read lists nothing to be removed
      cases loaded : a.load p t with
      | unreadable =>
        rw [loaded] at made
        exact absurd made (by simp [LedgerState.records, without?])
      | _ =>
        rw [loaded] at unreadable
        exact absurd unreadable (by simp [LedgerState.isUnreadable])

/-- An operation that keeps apart from the ledgers keeps the numbers different. -/
theorem IsGood.after (h : a.IsGood t) (op : Operation) (hapart : op.KeepsApart a p t) :
    a.IsGood (op.after a p t) := by
  cases op with
  | recordBatch tokens request answer elapsed =>
    rw [Operation.after]
    exact h.recordBatch tokens request answer elapsed hapart
  | moveForward id =>
    rw [Operation.after, moveForward]
    exact h.move (exchangesNeighbours_movedForward? id)
  | moveBack id =>
    rw [Operation.after, moveBack]
    exact h.move (exchangesNeighbours_movedBack? id)
  | remove id =>
    rw [Operation.after]
    exact h.remove id hapart
  | clear =>
    rw [Operation.after]
    exact h.erase (erases_clear a p t)

/-! ## In a results directory without links -/

/-- Making the directory of a project brings no ledger into sight. -/
theorem unveilsNoTwins_of_isAt (h : a.IsAt root t) : a.UnveilsNoTwins p t := by
  have confined : a.Confined p (fun _ => False) (Disk.makeDirs (a.projectDir p)) := confined_makeDirs
  obtain ⟨sound, touches⟩ := confined t h.sound h.hasNoLinks
  rw [treeAfter_makeDirs] at sound touches
  intro q records hload hother
  have same := load_of_touches (q := q) h sound touches (fun _ own => own.elim) (.inr id)
  exact absurd (same.symm.trans hload) hother

/-- The path of an image leads to a file of that name, which is no ledger. -/
theorem writesNoLedger_of_isAt (h : a.IsAt root t) (count : Nat) : a.WritesNoLedger p count t := by
  have confined : a.Confined p IsImage (Disk.makeDirs (a.projectDir p)) := confined_makeDirs
  have there := h.treeAfter confined
  rw [treeAfter_makeDirs] at there
  rintro loc q ⟨id, -, -, image⟩ ledger
  have name := isComponent_of_isImageFileName (isImage_imageFileName id)
  rw [ledgerPath_eq_join] at ledger
  have atImage := there.locate_file name (walk_of_locateNames image).1 true
  have atLedger := there.locate_file isComponent_ledgerName (walk_of_locateNames ledger).1 true
  have same := (eq_of_fileAt (atImage.symm.trans image)).symm.trans
    (eq_of_fileAt (atLedger.symm.trans ledger))
  obtain ⟨-, names⟩ := List.append_inj' same rfl
  have isImage := isImageFileName_imageFileName id
  rw [List.singleton_inj.mp names, isImageFileName_eq_false.1] at isImage
  exact absurd isImage (by simp)

/-- Where the results directory is there and has no links below it, every operation keeps apart from the
ledgers. -/
theorem keepsApart_of_isAt (h : a.IsAt root t) (op : Operation) : op.KeepsApart a p t := by
  cases op with
  | recordBatch tokens request answer elapsed =>
    exact fun _ => ⟨unveilsNoTwins_of_isAt h, writesNoLedger_of_isAt h _⟩
  | remove id =>
    exact fun _ => unveilsNoTwins_of_isAt
      (h.treeAfter (confined_removeImage (isImage_imageFileName id)))
  | _ => trivial

theorem allKeepApart_of_isAt (h : a.IsAt root t) (ops : List (Project × Operation)) :
    Operation.AllKeepApart a ops t := by
  induction ops generalizing t with
  | nil => trivial
  | cons op ops ih => exact ⟨keepsApart_of_isAt h op.2, ih (Operation.isAt_after h op.2)⟩

/-! ## Runs -/

/-- If no ledger lists a number twice, none does after any part of a run whose operations keep apart
from the ledgers, which all do where the results directory is there and has no links below it. The
numbers of new records are above all that a ledger lists, whatever has been done. -/
theorem hasDistinctIds_afterAll (hs : t.IsSound) (hdistinct : a.HasDistinctIds t)
    (ops : List (Project × Operation)) :
    (Operation.AllKeepApart a ops t →
      ∀ earlier, earlier <+: ops → a.HasDistinctIds (Operation.afterAll a earlier t)) ∧
    (∀ root, a.IsAt root t → Operation.AllKeepApart a ops t) ∧
    ∀ p tokens request answer elapsed records created s,
      a.load p (Operation.afterAll a ops t) = .present records →
      a.recordBatch p tokens request answer elapsed (Operation.afterAll a ops t) = .ok created s →
      ∀ c ∈ created, ∀ r ∈ records, r.id < c.id := by
  refine ⟨fun hapart earlier part => ?_, fun root there => allKeepApart_of_isAt there ops,
    fun p tokens request answer elapsed records created s hload hrun c hc r hr => ?_⟩
  · -- each operation keeps the numbers different where the one before has left off
    have good : a.IsGood t := ⟨hs, hdistinct⟩
    clear hs hdistinct
    induction earlier generalizing t ops with
    | nil => exact good.distinct
    | cons op earlier ih =>
      obtain ⟨later, rfl⟩ := part
      obtain ⟨first, others⟩ := hapart
      exact ih (earlier ++ later) others (List.prefix_append earlier later) (good.after op.2 first)
  · rcases recordBatch_eq_or a p tokens request answer elapsed with ⟨-, run⟩ | ⟨-, -, run⟩
    · rw [run] at hrun
      obtain ⟨rfl, -⟩ := EStateM.Result.ok.inj hrun
      exact absurd hc List.not_mem_nil
    · rw [run] at hrun
      obtain ⟨u, -, recorded, -, -⟩ := update_addImages_eq_ok hrun
      obtain ⟨batch, -⟩ := isBatch_of_recordImages recorded
      rw [hload] at batch
      exact batch.lt hr hc

/-! ## A results directory without a ledger -/

/-- Where no ledger can be read, none lists a number twice. -/
theorem hasDistinctIds_of_unread
    (h : ∀ p content, t.readFile (a.ledgerPath p) ≠ .ok content) : a.HasDistinctIds t :=
  hasDistinctIds_iff.mpr fun p content read => absurd read (h p content)

theorem hasDistinctIds_of_noFiles (h : ∀ e ∈ t.entries, ∀ content, e.2 ≠ .file content) :
    a.HasDistinctIds t := by
  refine hasDistinctIds_of_unread fun p content read => ?_
  obtain ⟨loc, -, found⟩ := readFile_eq_ok_iff.mp read
  rcases mem_entries_of_find? found with rfl | listed
  · exact absurd (Option.some.inj found) (by simp)
  · exact h _ listed content rfl

theorem hasDistinctIds_run_emptyResults :
    emptyResults.IsSound ∧ results.HasDistinctIds emptyResults ∧
      results.HasDistinctIds (Operation.afterAll results
        [(.global, .recordBatch (fun _ => zeroToken) [] (answerOf ["", ""]).compact 5),
          (.global, .moveBack 1), (.global, .remove 2), (.global, .clear)] emptyResults) := by
  have distinct : results.HasDistinctIds emptyResults :=
    hasDistinctIds_of_noFiles (by simp [emptyResults])
  obtain ⟨run, apart, -⟩ := hasDistinctIds_afterAll isAt_emptyResults.sound distinct
    [(.global, .recordBatch (fun _ => zeroToken) [] (answerOf ["", ""]).compact 5),
      (.global, .moveBack 1), (.global, .remove 2), (.global, .clear)]
  exact ⟨isAt_emptyResults.sound, distinct,
    run (apart ["results"] isAt_emptyResults) _ List.prefix_rfl⟩

/-! ## Over a link -/

/-- Two projects of which the first has a link in place of an image, to the ledger of the second. -/
def linkedResults : FileTree where
  entries := [(["results"], .directory), (["results", "cats"], .directory),
    (["results", "dogs"], .directory),
    (["results", "cats", "00001.png"], .link ⟨"../dogs/history.json"⟩)]
  workingDirectory := []

/-- A record of which there are two. -/
def twin : Record := ⟨"", [], 0, 1, none⟩

/-- An image whose bytes are the document of a ledger that lists a number twice. -/
def encodedTwins : String :=
  String.ofList ("WwoJewoJCSJpbWFnZU5hbWUiOiAiIiwKCQkidGFza0RhdGEi".toList
    ++ "OiB7fSwKCQkiZ2VuVGltZSI6IDAsCgkJIklEIjogMQoJfSwK".toList
    ++ "CXsKCQkiaW1hZ2VOYW1lIjogIiIsCgkJInRhc2tEYXRhIjog".toList
    ++ "e30sCgkJImdlblRpbWUiOiAwLAoJCSJJRCI6IDEKCX0KXQ==".toList)

theorem decodeImage_ofList (cs : List Char) :
    decodeImage (String.ofList cs) = (Base64.decode? (Text.trim cs)).getD [] := by
  rw [decodeImage, String.toList_ofList]

theorem decodeImage_encodedTwins :
    decodeImage encodedTwins = Record.document [twin, twin] :=
  (decodeImage_ofList _).trans (by decide +kernel)

/-- The tree after the image has been written over the link. -/
def linkedWritten (image : Bytes) : FileTree :=
  linkedResults.insert ["results", "dogs", "history.json"] (.file image)

/-- The tree after the ledger of the first project has been written beside it. -/
def linkedTemporary (image ledger : Bytes) : FileTree :=
  (linkedWritten image).insert ["results", "cats", "history.json.tmp"] (.file ledger)

/-- The tree after the ledger has been put in its place. -/
def linkedRecorded (image ledger : Bytes) : FileTree :=
  ((linkedTemporary image ledger).erase ["results", "cats", "history.json.tmp"]).insert
    ["results", "cats", "history.json"] (.file ledger)

/-- The path of the image leads over the link. -/
theorem locate_image_linkedResults :
    linkedResults.locate true (results.imagePath .cats 1)
      = .ok ["results", "dogs", "history.json"] := by
  have names : ((results.projectDir .cats).join "00001.png").names
      = ["results", "cats", "00001.png"] := rfl
  have up : linkedResults.find? ["results"] = some .directory := rfl
  have cats : linkedResults.find? ["results", "cats"] = some .directory := rfl
  have link : linkedResults.find? ["results", "cats", "00001.png"]
      = some (.link ⟨"../dogs/history.json"⟩) := rfl
  have target : (FilePath.mk "../dogs/history.json").route = ["..", "dogs", "history.json"] := rfl
  have room : mostLinks = 39 + 1 := rfl
  rw [imagePath_one, locate, locateNames_eq_walk (by decide), names]
  show linkedResults.walk true mostLinks [] ["results", "cats", "00001.png"] = _
  rw [walk_directory (by decide) up, walk_directory (by decide) cats,
    walk_link (by decide) link (.inr rfl), room, jump, target]
  rfl

theorem recordBatch_linkedResults (encoded : String) :
    results.recordBatch .cats (fun _ => zeroToken) [] (answerOf [encoded]).compact 0
        linkedResults
      = .ok [firstRecord [] 0 zeroToken encoded]
        (linkedRecorded (decodeImage encoded)
          (Record.document [firstRecord [] 0 zeroToken encoded])) := by
  have image := writeFile_of_locate locate_image_linkedResults (by decide) (decodeImage encoded)
  have steps : ∀ image ledger, (linkedWritten image).makeDirs (results.projectDir .cats)
        = (.ok (), linkedWritten image) ∧
      (linkedWritten image).writeFile (results.temporaryPath .cats) ledger
        = .ok (linkedTemporary image ledger) ∧
      (linkedTemporary image ledger).rename (results.temporaryPath .cats) (results.ledgerPath .cats)
        = .ok (linkedRecorded image ledger) :=
    fun image ledger => ⟨rfl, rfl, rfl⟩
  obtain ⟨made, written, renamed⟩ := steps (decodeImage encoded)
    (Record.document [firstRecord [] 0 zeroToken encoded])
  exact recordBatch_of_absent (batchImages_compact [encoded]) (load_eq_absent rfl) rfl image
    made written renamed

theorem readFile_linkedRecorded (image ledger : Bytes) :
    (linkedRecorded image ledger).readFile (results.ledgerPath .dogs) = .ok image :=
  rfl

/-- Over a link between two projects, recording an image makes a ledger list a number twice. -/
theorem not_hasDistinctIds_over_link :
    linkedResults.IsSound ∧ results.HasDistinctIds linkedResults ∧
      ¬ results.HasDistinctIds ((Operation.recordBatch (fun _ => zeroToken) []
        (answerOf [encodedTwins]).compact 0).after results .cats linkedResults) := by
  refine ⟨isSound_of_entries (by decide) rfl, hasDistinctIds_of_noFiles (by simp [linkedResults]),
    fun distinct => ?_⟩
  rw [Operation.after, treeAfter, recordBatch_linkedResults] at distinct
  have read := readFile_linkedRecorded (decodeImage encodedTwins)
    (Record.document [firstRecord [] 0 zeroToken encodedTwins])
  rw [decodeImage_encodedTwins] at read distinct
  have twice := distinct .dogs [twin, twin] (load_of_readFile read)
  exact absurd twice (by decide)

/-! ## Without the results directory -/

/-- A tree with a ledger that the path does not lead to. -/
def unreached (ledger : Bytes) : FileTree where
  entries := [(["results"], .directory), (["results", "dogs"], .directory),
    (["results", "dogs", "history.json"], .file ledger)]
  workingDirectory := []

theorem hasDistinctIds_unreached (ledger : Bytes) :
    detour.HasDistinctIds (unreached ledger) := by
  refine hasDistinctIds_of_unread fun p content read => ?_
  obtain ⟨loc, located, -⟩ := readFile_eq_ok_iff.mp read
  obtain ⟨-, walked⟩ := walk_of_locateNames located
  rw [start_ledgerPath, names_ledgerPath] at walked
  -- the first directory on the way is missing
  have missing : (unreached ledger).walk true mostLinks []
      ("new" :: ".." :: "results" :: ledgerNames p) = .error .notFound :=
    walk_missing (by decide) rfl (List.cons_ne_nil _ _)
  exact absurd (missing.symm.trans walked) (by simp)

/-- The tree after the directories have been made. -/
def reached (ledger : Bytes) : FileTree where
  entries := (["results", "cats"], .directory) :: (["new"], .directory) ::
    (unreached ledger).entries
  workingDirectory := []

/-- The tree after the image has been written. -/
def reachedWritten (ledger image : Bytes) : FileTree :=
  (reached ledger).insert ["results", "cats", "00001.png"] (.file image)

/-- The tree after the ledger of the first project has been written beside it. -/
def reachedTemporary (ledger image written : Bytes) : FileTree :=
  (reachedWritten ledger image).insert ["results", "cats", "history.json.tmp"] (.file written)

/-- The tree after the ledger has been put in its place. -/
def reachedRecorded (ledger image written : Bytes) : FileTree :=
  ((reachedTemporary ledger image written).erase ["results", "cats", "history.json.tmp"]).insert
    ["results", "cats", "history.json"] (.file written)

theorem recordBatch_unreached (ledger : Bytes) (encoded : String) :
    detour.recordBatch .cats (fun _ => zeroToken) [] (answerOf [encoded]).compact 0
        (unreached ledger)
      = .ok [firstRecord [] 0 zeroToken encoded]
        (reachedRecorded ledger (decodeImage encoded)
          (Record.document [firstRecord [] 0 zeroToken encoded])) := by
  have made : (unreached ledger).makeDirs (detour.projectDir .cats) = (.ok (), reached ledger) := rfl
  have located : (reached ledger).locate true (detour.imagePath .cats 1)
      = .ok ["results", "cats", "00001.png"] := by
    rw [imagePath_one, locate, locateNames_eq_walk (by decide)]
    rfl
  have free : (reached ledger).find? ["results", "cats", "00001.png"] = none := rfl
  have image := writeFile_of_locate located (by simp [free]) (decodeImage encoded)
  have steps : ∀ image written,
      (reachedWritten ledger image).makeDirs (detour.projectDir .cats)
        = (.ok (), reachedWritten ledger image) ∧
      (reachedWritten ledger image).writeFile (detour.temporaryPath .cats) written
        = .ok (reachedTemporary ledger image written) ∧
      (reachedTemporary ledger image written).rename (detour.temporaryPath .cats)
          (detour.ledgerPath .cats)
        = .ok (reachedRecorded ledger image written) :=
    fun image written => ⟨rfl, rfl, rfl⟩
  obtain ⟨made', written, renamed⟩ := steps (decodeImage encoded)
    (Record.document [firstRecord [] 0 zeroToken encoded])
  exact recordBatch_of_absent (batchImages_compact [encoded]) (load_eq_absent rfl) made image
    made' written renamed

theorem readFile_reachedRecorded (ledger image written : Bytes) :
    (reachedRecorded ledger image written).readFile (detour.ledgerPath .dogs) = .ok ledger :=
  rfl

/-- Where the path does not lead to the results directory before directories are made, a ledger
that lists a number twice is only seen after recording an image. -/
theorem not_hasDistinctIds_unreached :
    detour.HasNoLinks (unreached (Record.document [twin, twin])) ∧
      detour.HasDistinctIds (unreached (Record.document [twin, twin])) ∧
      ¬ detour.HasDistinctIds ((Operation.recordBatch (fun _ => zeroToken) []
        (answerOf [""]).compact 0).after detour .cats
          (unreached (Record.document [twin, twin]))) := by
  refine ⟨fun root _ loc target _ _ => ?_, hasDistinctIds_unreached _, fun distinct => ?_⟩
  · exact find?_ne_link (by simp [unreached]) loc target
  · rw [Operation.after, treeAfter, recordBatch_unreached] at distinct
    have read := readFile_reachedRecorded (Record.document [twin, twin]) (decodeImage "")
      (Record.document [firstRecord [] 0 zeroToken ""])
    have twice := distinct .dogs [twin, twin] (load_of_readFile read)
    exact absurd twice (by decide)

end Archive

end ImageGateway
