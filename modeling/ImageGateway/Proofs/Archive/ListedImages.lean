import ImageGateway.Proofs.Archive.Shelves
import ImageGateway.Proofs.Archive.UniqueIds

/-!
# Every listed record has its image

Operations that are run one after the other create records with images (`Operation.creationsAfter`). A
listed record has its image if the file under its number has the bytes that the latest creation under
this number had, which made this record (`HasImage`). From an empty results directory on, this is so
for all records of a project (`hasImage_afterAll`), as long as the images are not removed by clearing
a project whose ledger then cannot be removed: clearing removes the images first, and fails if the
path of the file that a ledger is moved aside to is too long.
-/

set_option autoImplicit false

namespace ImageGateway

open Storage Storage.FileTree

/-- A record that was made for a project, and the bytes of its image. -/
structure Creation where
  project : Project
  record : Record
  image : Bytes

variable {a : Archive} {p q : Project} {t s u : FileTree} {root : Location} {own : String → Prop}
  {name : String} {content : Bytes} {creations : List Creation} {records written : List Record}
  {r : Record} {id : RecordId} {α : Type}

/-! ## Creations -/

namespace Operation

/-- What an operation on a project creates in a file tree. -/
def created (a : Archive) (p : Project) : Operation → FileTree → List Creation
  | .recordBatch tokens request answer elapsed, t =>
    match a.recordBatch p tokens request answer elapsed t with
    | .ok records _ =>
      (records.zip ((Archive.batchImages answer).map Archive.decodeImage)).map fun made =>
        ⟨p, made.1, made.2⟩
    | .error _ _ => []
  | _, _ => []

/-- What operations on projects create one after the other, the latest first, before what has been
created earlier. -/
def creationsAfter (a : Archive) :
    List (Project × Operation) → FileTree → List Creation → List Creation
  | [], _, earlier => earlier
  | (p, op) :: ops, t, earlier =>
    creationsAfter a ops (op.after a p t) (op.created a p t ++ earlier)

end Operation

/-- The latest creation of a record with a number in a project. -/
def latest? (p : Project) (id : RecordId) (creations : List Creation) : Option Creation :=
  creations.find? fun c => c.project = p ∧ c.record.id = id

theorem latest?_append_of_not_mem {created : List Creation}
    (h : ∀ c ∈ created, c.project = p → c.record.id ≠ id) :
    latest? p id (created ++ creations) = latest? p id creations := by
  rw [latest?, List.find?_append, List.find?_eq_none.mpr, Option.none_or]
  · rfl
  · intro c hc
    simpa using h c hc

theorem project_of_mem_created {op : Operation} {c : Creation} (h : c ∈ op.created a p t) :
    c.project = p := by
  cases op with
  | recordBatch tokens request answer elapsed =>
    rw [Operation.created] at h
    split at h
    · obtain ⟨made, -, rfl⟩ := List.mem_map.mp h
      rfl
    · exact absurd h List.not_mem_nil
  | moveForward id => exact absurd h List.not_mem_nil
  | moveBack id => exact absurd h List.not_mem_nil
  | remove id => exact absurd h List.not_mem_nil
  | clear => exact absurd h List.not_mem_nil

namespace Archive

/-- The latest creation under the number of a record made this record, apart from parameters that are
read back differently, and the image file of the record has the bytes of that creation. -/
def HasImage (a : Archive) (p : Project) (creations : List Creation) (t : FileTree) (r : Record) :
    Prop :=
  ∃ c, latest? p r.id creations = some c ∧ r.withoutParameters = c.record.withoutParameters ∧
    t.readFile (a.imagePath p r.id) = .ok c.image

/-! ## The invariant -/

/-- All records that a project lists have their images and could be written again, and no directory
is in the place of a file. -/
structure ListsImages (a : Archive) (p : Project) (root : Location) (creations : List Creation)
    (t : FileTree) : Prop where
  images : ∀ r ∈ a.history p t, a.HasImage p creations t r
  writable : a.history p t ≠ [] → Walkable (a.temporaryPath p)
  files : ∀ name, IsOwnName name → t.find? (p.place root ++ [name]) ≠ some .directory

/-- What lists records of which the images have not been touched still lists images. -/
theorem ListsImages.of_listed (inv : a.ListsImages p root creations t) (h : a.IsAt root t)
    (after : s.IsSound ∧ a.Touches q own t s)
    (hrecords : ∀ r ∈ a.history p s, ∃ r' ∈ a.history p t,
      r.withoutParameters = r'.withoutParameters ∧ (p ≠ q ∨ ¬ own (Record.imageFileName r'.id)))
    (hwalk : a.history p s ≠ [] → Walkable (a.temporaryPath p)) :
    a.ListsImages p root creations s where
  images := by
    intro r hr
    obtain ⟨r', hr', same, free⟩ := hrecords r hr
    obtain ⟨c, latest, made, read⟩ := inv.images r' hr'
    have number := Record.id_eq_of_withoutParameters same
    rw [HasImage, number]
    exact ⟨c, latest, same.trans made, readFile_of_touches h after
      (isOwnName_of_isImage (isImage_imageFileName r'.id)) free read⟩
  writable := hwalk
  files := fun name hname => file_ne_directory_of_touches h after hname (inv.files name hname)

theorem ListsImages.of_same (inv : a.ListsImages p root creations t) (h : a.IsAt root t)
    (after : s.IsSound ∧ a.Touches q own t s) (hload : a.load p s = a.load p t)
    (hfree : ∀ r ∈ a.history p t, p ≠ q ∨ ¬ own (Record.imageFileName r.id)) :
    a.ListsImages p root creations s := by
  have same : a.history p s = a.history p t := by rw [history, history, hload]
  refine inv.of_listed h after (fun r hr => ?_) fun listed => inv.writable (same ▸ listed)
  rw [same] at hr
  exact ⟨r, hr, rfl, hfree r hr⟩

theorem ListsImages.of_nil (inv : a.ListsImages p root creations t) (h : a.IsAt root t)
    (after : s.IsSound ∧ a.Touches q own t s) (hnone : a.history p s = []) :
    a.ListsImages p root creations s := by
  refine inv.of_listed h after (fun r hr => ?_) fun listed => absurd hnone listed
  rw [hnone] at hr
  exact absurd hr List.not_mem_nil

/-- The records that are listed are those that were written, apart from their parameters. -/
theorem mem_history_of_afterWriting (hload : a.load p s = afterWriting written)
    (hr : r ∈ a.history p s) : ∃ w ∈ written, r.withoutParameters = w.withoutParameters := by
  rw [history, hload, afterWriting] at hr
  cases read : written.mapM Record.reread with
  | none =>
    rw [read] at hr
    exact absurd hr List.not_mem_nil
  | some rs =>
    rw [read] at hr
    obtain ⟨w, hw, same⟩ := Record.mem_of_mapM_reread read r hr
    exact ⟨w, hw, Record.withoutParameters_of_reread same⟩

/-! ## Updates -/

section Update

variable {change : List Record → Disk (Commit α)}

/-- An update touches what its change does, and documents. -/
theorem touches_update (h : a.IsAt root t) (hchange : a.Confined p own (change (a.load p t).records)) :
    (treeAfter (a.update p change) t).IsSound ∧
      a.Touches p (fun name => own name ∨ IsDocument name) t (treeAfter (a.update p change) t) := by
  have confined : a.Confined p (fun name => own name ∨ IsDocument name)
      (change (a.load p t).records >>= a.settle p (a.load p t).isUnreadable) :=
    confined_bind (hchange.mono fun _ => .inl) fun commit =>
      (confined_settle _ commit).mono fun _ => .inr
  rw [treeAfter_update]
  exact confined t h.sound h.hasNoLinks

theorem ListsImages.walkable_of_update (inv : a.ListsImages p root creations t)
    (h : a.IsAt root t) (hchange : ∀ records, a.Confined p IsImage (change records)) {x : α}
    (hrun : a.update p change t = .ok x s) (hlisted : a.history p s ≠ []) :
    Walkable (a.temporaryPath p) := by
  rcases update_eq_ok hrun with kept | ⟨records, u, v, -, -, persisted⟩
  · have same := load_of_images h ((hchange _).of_ok h kept)
    rw [history, same] at hlisted
    exact inv.writable hlisted
  · exact walkable_of_persist persisted

end Update

/-- A change of one record leaves a ledger that lists images, if the records that it keeps are not
those whose images it touches. -/
theorem ListsImages.of_changesBy {f : List Record → Option (List Record)}
    {change : List Record → Disk (Commit Bool)} (inv : a.ListsImages p root creations t)
    (touched : String → Prop) (h : a.IsAt root t)
    (hchanges : a.ChangesBy p f (a.update p change) t)
    (hchange : ∀ records, a.Confined p touched (change records))
    (himages : ∀ name, touched name → IsImage name)
    (hruns : ∃ commit u, change (a.history p t) t = .ok commit u)
    (hkept : ∀ written, f (a.history p t) = some written →
      ∀ w ∈ written, w ∈ a.history p t ∧ ¬ touched (Record.imageFileName w.id))
    (hnone : f (a.history p t) = none →
      ∀ w ∈ a.history p t, ¬ touched (Record.imageFileName w.id)) :
    a.ListsImages p root creations (treeAfter (a.update p change) t) := by
  have after := touches_update h (hchange (a.load p t).records)
  have free : ∀ {w : Record}, ¬ touched (Record.imageFileName w.id) →
      p ≠ p ∨ ¬ (touched (Record.imageFileName w.id) ∨ IsDocument (Record.imageFileName w.id)) :=
    fun kept => .inr fun both => both.elim kept (not_isDocument_imageFileName _)
  -- records have been written, or were not to be written, or could not be
  rcases hchanges with ⟨s, written, run, made, loaded⟩ | ⟨s, run, made, same⟩ | ⟨e, s, run, left⟩
  · rw [treeAfter, run] at after ⊢
    refine inv.of_listed h after (fun r hr => ?_)
      (inv.walkable_of_update h (fun records => (hchange records).mono himages) run)
    obtain ⟨w, hw, same⟩ := mem_history_of_afterWriting loaded hr
    obtain ⟨listed, kept⟩ := hkept written made w hw
    exact ⟨w, listed, same, free kept⟩
  · rw [treeAfter, run] at after ⊢
    exact inv.of_same h after same fun w hw => free (hnone made w hw)
  · by_cases listed : a.history p t = []
    · rw [treeAfter, run] at after ⊢
      refine inv.of_nil h after ?_
      rcases left with same | ⟨-, gone⟩
      · rw [history, same]
        exact listed
      · rw [history, gone]
        rfl
    · -- where records are listed nothing stands in the way of writing them
      have present := load_eq_present listed
      obtain ⟨commit, u, changed⟩ := hruns
      have readable : (a.load p t).isUnreadable = false := by rw [present]; rfl
      obtain ⟨x, v, succeeded⟩ := update_ok (isUsable_of_listed h inv.files listed).1 h
        (inv.writable listed) readable changed ((hchange _).of_ok h changed)
      exact absurd (run.symm.trans succeeded) (by simp)

/-! ## One operation -/

/-- No change of its neighbours touches the image of a record. -/
theorem ListsImages.of_moved {f : List Record → Option (List Record)}
    (inv : a.ListsImages p root creations t) (h : a.IsAt root t) (hf : ExchangesNeighbours f)
    (hchanges : a.ChangesBy p f (a.update p fun records => pure (commitIf (f records))) t) :
    a.ListsImages p root creations
      (treeAfter (a.update p fun records => pure (commitIf (f records))) t) := by
  refine inv.of_changesBy (fun _ => False) h hchanges (fun _ => confined_pure _)
    (fun _ => False.elim) ⟨_, t, rfl⟩ (fun written made w hw => ?_) fun _ _ _ => id
  exact ⟨(hf.perm made).mem_iff.mp hw, id⟩

theorem mem_of_without? (h : without? id records = some written)
    (hdistinct : (records.map Record.id).Nodup) :
    ∀ w ∈ written, w ∈ records ∧ w.id ≠ id := by
  have part := sublist_of_without? h
  obtain ⟨front, r, back, rfl, rfl, -, rfl⟩ := without?_eq_some h
  rw [List.map_append, List.map_cons, List.nodup_middle, ← List.map_append] at hdistinct
  have alone := (List.nodup_cons.mp hdistinct).1
  exact fun w hw => ⟨part.subset hw, fun same => alone (same ▸ List.mem_map_of_mem hw)⟩

theorem ne_of_without?_eq_none (h : without? id records = none) : ∀ w ∈ records, w.id ≠ id := by
  induction records with
  | nil => exact fun w hw => absurd hw List.not_mem_nil
  | cons r rest ih =>
    rw [without?] at h
    split at h
    · exact absurd h (by simp)
    · rename_i differs
      exact List.forall_mem_cons.mpr ⟨differs, ih (Option.map_eq_none_iff.mp h)⟩

/-- A record is removed together with its image only. -/
theorem ListsImages.remove (inv : a.ListsImages p root creations t) (h : a.IsAt root t)
    (hdistinct : ((a.history p t).map Record.id).Nodup) (id : RecordId) :
    a.ListsImages p root creations (treeAfter (a.remove p id) t) := by
  have other : ∀ {w : Record}, w.id ≠ id →
      Record.imageFileName w.id ≠ Record.imageFileName id :=
    fun differs same => differs (imageFileName_injective same)
  -- of the images only that of the removed record is touched
  refine inv.of_changesBy (fun name => name = Record.imageFileName id) h (remove_cases h id)
    (fun _ => confined_bind (confined_removeImage rfl) fun _ => confined_pure _)
    (fun name same => same ▸ isImage_imageFileName id) ?_ (fun written made w hw => ?_)
    fun made w hw => other (ne_of_without?_eq_none made w hw)
  · obtain ⟨removed, u, run⟩ := tryRemove_ok (a.imagePath p id) t
    exact ⟨_, u, run_bind_of_ok run⟩
  · obtain ⟨listed, differs⟩ := mem_of_without? made hdistinct w hw
    exact ⟨listed, other differs⟩

/-- Clearing leaves nothing listed, unless it fails after the images have been removed. -/
theorem ListsImages.clear (inv : a.ListsImages p root creations t) (h : a.IsAt root t)
    (hshort : (a.asidePath p).text.utf8ByteSize < pathLimit ∨ a.history p t = []) :
    a.ListsImages p root creations (treeAfter (a.clear p) t) := by
  have after := confined_clear t h.sound h.hasNoLinks (a := a) (p := p)
  refine inv.of_nil h after ?_
  rcases clear_cases (p := p) h with ⟨n, s, run, gone⟩ | ⟨e, s, run, same⟩
  · rw [treeAfter, run, history, gone]
    rfl
  · rw [treeAfter, run, history, same]
    by_cases listed : a.history p t = []
    · exact listed
    · obtain ⟨usable, ledger⟩ := isUsable_of_listed h inv.files listed
      obtain ⟨n, u, cleared⟩ := clear_ok usable h ledger (inv.writable listed)
        (hshort.resolve_right listed)
      exact absurd (run.symm.trans cleared) (by simp)

/-! ## Recording -/

/-- The names of images with numbers above the last one. -/
def IsImageAbove (last : RecordId) (name : String) : Prop :=
  ∃ id, last < id ∧ name = Record.imageFileName id

theorem not_isImageAbove {last : RecordId} (h : id ≤ last) :
    ¬ IsImageAbove last (Record.imageFileName id) := by
  rintro ⟨other, above, same⟩
  obtain rfl := imageFileName_injective same
  exact absurd (UInt64.lt_of_le_of_lt h above) (UInt64.lt_irrefl _)

theorem isImage_of_isImageAbove {last : RecordId} (h : IsImageAbove last name) : IsImage name := by
  obtain ⟨id, -, rfl⟩ := h
  exact isImage_imageFileName id

/-- An image that has been written can be read. -/
theorem readFile_of_writeImage (h : a.IsAt root t)
    (hrun : a.writeImage p id content t = .ok () s) :
    s.readFile (a.imagePath p id) = .ok content := by
  have image := isImage_imageFileName id
  have component := isComponent_of_isImageFileName image
  obtain ⟨_, u, made, written⟩ := ok_of_run_bind hrun
  have confined : a.Confined p IsImage (Disk.makeDirs (a.projectDir p)) := confined_makeDirs
  have hu := h.of_touches (confined.of_ok h made)
  have after := (confined_writeFile component image content).of_ok hu written
  -- no link is in the place of the image, so that it is found where it was written
  obtain ⟨loc, located, -, put⟩ := writeFile_eq_ok (change_eq_ok written)
  obtain ⟨rfl, there⟩ := locate_of_locate hu (hu.of_touches after) after.2.keeps component located
    true
  exact readFile_eq_ok_iff.mpr ⟨_, there, put.here⟩

/-- After a batch each record has the image that was decoded for it. -/
theorem readFile_of_recordImages {parameters : Json.Members} {genTime : UInt64}
    {images : List (String × Record.CacheToken)} {numbering : Numbering} {created : List Record}
    (h : a.IsAt root t)
    (hrun : a.recordImages p parameters genTime numbering images t = .ok created s) :
    ∀ made ∈ created.zip (images.map fun image => decodeImage image.1),
      s.readFile (a.imagePath p made.1.id) = .ok made.2 := by
  induction images generalizing numbering created t with
  | nil => simp
  | cons image rest ih =>
    obtain ⟨encoded, token⟩ := image
    obtain ⟨id, more, u, others, hnext, first, hothers, rfl⟩ := recordImages_cons_eq_ok hrun
    obtain ⟨-, last⟩ := Numbering.lt_of_next hnext
    have hu := h.of_touches ((confined_writeImage (isImage_imageFileName id)
      (decodeImage encoded)).of_ok h first)
    intro made listed
    rw [List.map_cons, List.zip_cons_cons] at listed
    rcases List.mem_cons.mp listed with rfl | listed
    · -- the images that follow have other numbers
      have above : ∀ other, more.last < other → IsImageAbove id (Record.imageFileName other) :=
        fun other later => ⟨other, last ▸ later, rfl⟩
      have after := (confined_recordImages above _ _ _).of_ok hu hothers
      rw [id_recordOf]
      exact readFile_of_touches hu after (isOwnName_of_isImage (isImage_imageFileName id))
        (.inr (not_isImageAbove (UInt64.le_refl id))) (readFile_of_writeImage h first)
    · exact ih hu hothers made listed

/-- The latest creations are those of the batch. -/
theorem latest?_of_mem_zip {created : List Record} {images : List Bytes} {image : Bytes}
    (hdistinct : (created.map Record.id).Nodup) (hmem : (r, image) ∈ created.zip images) :
    latest? p r.id ((created.zip images).map (fun made => ⟨p, made.1, made.2⟩) ++ creations)
      = some ⟨p, r, image⟩ := by
  -- creations before the one that is looked for have other numbers
  induction created generalizing images with
  | nil => exact absurd hmem (by simp)
  | cons first rest ih =>
    cases images with
    | nil => exact absurd hmem (by simp)
    | cons content others =>
      rw [List.map_cons, List.nodup_cons] at hdistinct
      rw [List.zip_cons_cons] at hmem
      rw [List.zip_cons_cons, List.map_cons, List.cons_append, latest?]
      rcases List.mem_cons.mp hmem with same | later
      · obtain ⟨rfl, rfl⟩ := Prod.mk.inj same
        exact List.find?_cons_of_pos (by simp)
      · have differs : first.id ≠ r.id := by
          intro same
          have listed := List.mem_map_of_mem (f := Record.id) (List.of_mem_zip later).1
          exact hdistinct.1 (same ▸ listed)
        rw [List.find?_cons_of_neg (by simp [differs])]
        exact ih hdistinct.2 later

/-- The images of records that are listed are not touched when a batch is recorded. -/
theorem not_touched_of_listed (hr : r ∈ records) :
    ¬ (IsImageAbove (Numbering.aboveRecords records).last (Record.imageFileName r.id) ∨
      IsDocument (Record.imageFileName r.id)) := by
  rintro (above | document)
  · exact not_isImageAbove (Numbering.le_last_aboveRecords hr) above
  · exact not_isDocument_imageFileName r.id document

theorem confined_addImages_above (parameters : Json.Members) (genTime : UInt64)
    (images : List (String × Record.CacheToken)) (records : List Record) :
    a.Confined p (IsImageAbove (Numbering.aboveRecords records).last)
      (a.addImages p parameters genTime images records) :=
  confined_addImages (fun id above => ⟨id, above, rfl⟩) parameters genTime images

/-- The images are there before the documents are written. -/
theorem touches_of_update_addImages {parameters : Json.Members} {genTime : UInt64}
    {images : List (String × Record.CacheToken)} {created : List Record} (h : a.IsAt root t)
    (hrun : a.update p (a.addImages p parameters genTime images) t = .ok created s) :
    ∃ u, a.recordImages p parameters genTime (Numbering.aboveRecords (a.history p t)) images t
        = .ok created u ∧ a.IsAt root u ∧ s.IsSound ∧ a.Touches p IsDocument u s := by
  obtain ⟨u, v, recorded, way, persisted⟩ := update_addImages_eq_ok hrun
  have hu := h.of_touches ((confined_recordImages (fun id _ => isImage_imageFileName id) parameters
    genTime images).of_ok h recorded)
  obtain ⟨sound, moved⟩ := touches_of_makesWay hu way
  obtain ⟨sound', replaced⟩ := (confined_persist _).of_ok (hu.of_touches ⟨sound, moved⟩) persisted
  exact ⟨u, recorded, hu, sound', moved.trans replaced sound⟩

/-- The records of a batch come with the images that were decoded for them. -/
theorem ListsImages.recorded {parameters : Json.Members} {genTime : UInt64}
    {images : List (String × Record.CacheToken)} {created : List Record}
    (inv : a.ListsImages p root creations t) (h : a.IsAt root t)
    (hrun : a.update p (a.addImages p parameters genTime images) t = .ok created s)
    (hload : a.load p s = afterWriting (a.history p t ++ created)) :
    a.ListsImages p root
      ((created.zip (images.map fun image => decodeImage image.1)).map
        (fun made => ⟨p, made.1, made.2⟩) ++ creations) s := by
  have after := touches_update h (confined_addImages_above parameters genTime images (a.history p t))
  rw [treeAfter, hrun] at after
  obtain ⟨u, recorded, hu, documents⟩ := touches_of_update_addImages h hrun
  obtain ⟨batch, size⟩ := isBatch_of_recordImages recorded
  have images' := readFile_of_recordImages h recorded
  refine ⟨fun r hr => ?_, inv.walkable_of_update h (fun records =>
    (confined_addImages_above parameters genTime images records).mono fun _ => isImage_of_isImageAbove)
      hrun, fun name own => file_ne_directory_of_touches h after own (inv.files name own)⟩
  obtain ⟨w, hw, same⟩ := mem_history_of_afterWriting hload hr
  rw [HasImage, Record.id_eq_of_withoutParameters same, same]
  have own := isOwnName_of_isImage (isImage_imageFileName w.id)
  rcases List.mem_append.mp hw with old | new
  · -- an older record has a smaller number than all that have been made
    obtain ⟨c, latest, was, read⟩ := inv.images w old
    refine ⟨c, ?_, was, readFile_of_touches h after own (.inr (not_touched_of_listed old)) read⟩
    rw [← latest]
    refine latest?_append_of_not_mem fun other hother _ equal => ?_
    obtain ⟨made, listed, rfl⟩ := List.mem_map.mp hother
    have above := batch.lt old (List.of_mem_zip listed).1
    rw [equal] at above
    exact absurd above (UInt64.lt_irrefl _)
  · -- a new record is the only one of its batch with this number
    have firsts : (created.zip (images.map fun image => decodeImage image.1)).map Prod.fst
        = created := List.map_fst_zip (Nat.le_of_eq (by rw [List.length_map, size]))
    rw [← firsts] at new
    obtain ⟨⟨w, image⟩, listed, rfl⟩ := List.mem_map.mp new
    have read : u.readFile (a.imagePath p w.id) = .ok image := images' (w, image) listed
    exact ⟨_, latest?_of_mem_zip batch.nodup listed, rfl, readFile_of_touches hu documents own
      (.inr (not_isDocument_imageFileName w.id)) read⟩

theorem map_decodeImage_drawnImages (tokens : Nat → Record.CacheToken) (answer : Bytes) :
    (drawnImages tokens answer).map (fun image => decodeImage image.1)
      = (batchImages answer).map decodeImage := by
  have firsts : (drawnImages tokens answer).map Prod.fst = batchImages answer :=
    List.map_fst_zip (by simp)
  rw [← firsts, List.map_map]
  rfl

theorem ListsImages.recordBatch (inv : a.ListsImages p root creations t) (h : a.IsAt root t)
    (tokens : Nat → Record.CacheToken) (request answer : Bytes) (elapsed : UInt64) :
    a.ListsImages p root
      ((Operation.recordBatch tokens request answer elapsed).created a p t ++ creations)
      (treeAfter (a.recordBatch p tokens request answer elapsed) t) := by
  have outcomes := recordBatch_cases (p := p) h tokens request answer elapsed
  rw [Operation.created, treeAfter]
  rcases recordBatch_eq_or a p tokens request answer elapsed with ⟨-, run⟩ | ⟨nonempty, -, program⟩
  · rw [run]
    exact inv
  -- the batch has been recorded, or it failed and left at most images that no record lists
  rcases outcomes with ⟨empty, -⟩ | ⟨created, s, -, run, -, -, loaded⟩ | ⟨e, s, run, left⟩
  · exact absurd empty nonempty
  · rw [run, ← map_decodeImage_drawnImages tokens]
    exact inv.recorded h (program ▸ run) loaded
  · have after := touches_update h (confined_addImages_above (requestParameters request)
      (elapsed / UInt64.ofNat (batchImages answer).length) (drawnImages tokens answer)
      (a.history p t))
    rw [← program, treeAfter, run] at after
    rw [run]
    rcases left with same | ⟨-, gone⟩
    · exact inv.of_same h after same fun r hr => .inr (not_touched_of_listed hr)
    · refine inv.of_nil h after ?_
      rw [history, gone]
      rfl

/-! ## Runs -/

/-- What is done for another project has nothing to do with what this one lists. -/
theorem ListsImages.after_of_ne (inv : a.ListsImages p root creations t) (h : a.IsAt root t)
    (hne : p ≠ q) (op : Operation) :
    a.ListsImages p root (op.created a q t ++ creations) (op.after a q t) := by
  have kept := inv.of_same h (Operation.touches_after h op)
    (Operation.load_after_of_ne h op hne) fun _ _ => .inl hne
  refine ⟨fun r hr => ?_, kept.writable, kept.files⟩
  -- what has been created belongs to the other project
  have others : latest? p r.id (op.created a q t ++ creations) = latest? p r.id creations :=
    latest?_append_of_not_mem fun c hc same =>
      absurd (same.symm.trans (project_of_mem_created hc)) hne
  rw [HasImage, others]
  exact kept.images r hr

theorem ListsImages.after (inv : a.ListsImages p root creations t) (h : a.IsAt root t)
    (hdistinct : a.HasDistinctIds t) (op : Operation)
    (hclear : op = .clear → (a.asidePath p).text.utf8ByteSize < pathLimit ∨ a.history p t = []) :
    a.ListsImages p root (op.created a p t ++ creations) (op.after a p t) := by
  cases op with
  | recordBatch tokens request answer elapsed =>
    exact inv.recordBatch h tokens request answer elapsed
  | moveForward id =>
    exact inv.of_moved h (exchangesNeighbours_movedForward? id) (moveForward_cases h id)
  | moveBack id => exact inv.of_moved h (exchangesNeighbours_movedBack? id) (moveBack_cases h id)
  | remove id => exact inv.remove h (nodup_records hdistinct p) id
  | clear => exact inv.clear h (hclear rfl)

theorem listsImages_run (ops : List (Project × Operation)) (h : a.IsAt root t)
    (hdistinct : a.HasDistinctIds t) (inv : a.ListsImages p root creations t)
    (hclear : ∀ front back, ops = front ++ (p, Operation.clear) :: back →
      (a.asidePath p).text.utf8ByteSize < pathLimit ∨
        a.history p (Operation.afterAll a front t) = []) :
    a.ListsImages p root (Operation.creationsAfter a ops t creations)
      (Operation.afterAll a ops t) := by
  -- each step keeps the invariant and puts what it creates before what has been created earlier
  induction ops generalizing t creations with
  | nil => exact inv
  | cons op ops ih =>
    obtain ⟨q, op⟩ := op
    have good := IsGood.after ⟨h.sound, hdistinct⟩ op (keepsApart_of_isAt (p := q) h op)
    refine ih (Operation.isAt_after h op) good.distinct ?_ fun front back same => ?_
    · by_cases other : p = q
      · subst other
        refine inv.after h hdistinct op fun clearing => ?_
        subst clearing
        exact hclear [] ops rfl
      · exact inv.after_of_ne h other op
    · exact hclear ((q, op) :: front) back (by rw [same]; rfl)

/-- Where nothing is in the results directory, no records are listed. -/
theorem listsImages_of_empty (hs : t.IsSound) (hroot : t.LeadsTo a.root root)
    (hempty : ∀ loc, root <+: loc → loc ≠ root → t.find? loc = none) :
    a.IsAt root t ∧ a.HasDistinctIds t ∧ a.ListsImages p root [] t := by
  have holds := holds_of_empty hs hroot hempty
  have none : ∀ q, a.history q t = [] := holds.records
  refine ⟨holds.isAt, fun q records hload => ?_, fun r hr => ?_, fun listed => absurd (none p) listed,
    fun name own => ?_⟩
  · have listed := none q
    rw [history, hload] at listed
    obtain rfl : records = [] := listed
    exact List.nodup_nil
  · rw [none p] at hr
    exact absurd hr List.not_mem_nil
  · rw [hempty _ (p.isPrefix_place_append root name) (p.place_append_ne_root root name)]
    simp

/-- From an empty results directory on, whatever is done with the archive and whether or not it
fails, every listed record of a project has its image, unless the project is cleared while it lists
records and the path of the file that its ledger is moved aside to is too long. -/
theorem hasImage_afterAll (hs : t.IsSound) (hroot : t.LeadsTo a.root root)
    (hempty : ∀ loc, root <+: loc → loc ≠ root → t.find? loc = none)
    (ops : List (Project × Operation)) (p : Project)
    (hclear : (a.asidePath p).text.utf8ByteSize < pathLimit ∨
      ∀ front back, ops = front ++ (p, Operation.clear) :: back →
        a.history p (Operation.afterAll a front t) = []) :
    ∀ r ∈ a.history p (Operation.afterAll a ops t),
      a.HasImage p (Operation.creationsAfter a ops t []) (Operation.afterAll a ops t) r := by
  obtain ⟨isAt, distinct, start⟩ := listsImages_of_empty (p := p) hs hroot hempty
  refine (listsImages_run ops isAt distinct start fun front back same => ?_).images
  rcases hclear with short | unlisted
  · exact .inl short
  · exact .inr (unlisted front back same)

theorem hasImage_run_emptyResults :
    emptyResults.IsSound ∧ emptyResults.LeadsTo results.root ["results"] ∧
      (∀ loc, ["results"] <+: loc → loc ≠ ["results"] → emptyResults.find? loc = none) ∧
      (results.asidePath .global).text.utf8ByteSize < pathLimit ∧
      ∀ r ∈ results.history .global (Operation.afterAll results
          [(.global, .recordBatch (fun _ => zeroToken) [] (answerOf ["AQ==", "Ag=="]).compact 5),
            (.global, .moveBack 1), (.global, .remove 2)] emptyResults),
        results.HasImage .global (Operation.creationsAfter results
          [(.global, .recordBatch (fun _ => zeroToken) [] (answerOf ["AQ==", "Ag=="]).compact 5),
            (.global, .moveBack 1), (.global, .remove 2)] emptyResults [])
          (Operation.afterAll results
            [(.global, .recordBatch (fun _ => zeroToken) [] (answerOf ["AQ==", "Ag=="]).compact 5),
              (.global, .moveBack 1), (.global, .remove 2)] emptyResults) r := by
  have short : (results.asidePath .global).text.utf8ByteSize < pathLimit := by decide
  exact ⟨isAt_emptyResults.sound, isAt_emptyResults.leads, find?_emptyResults, short,
    hasImage_afterAll isAt_emptyResults.sound isAt_emptyResults.leads find?_emptyResults _ .global
      (.inl short)⟩

/-! ## A long path -/

/-- The archive in the directory `results`, given with slashes behind it. -/
def slashedResults (count : Nat) : Archive :=
  ⟨⟨results.root.text ++ String.ofList (List.replicate count '/')⟩⟩

theorem names_slashedResults (count : Nat) : (slashedResults count).root.names = ["results"] := by
  -- slashes at the end make empty segments only
  have blank : ∀ count : Nat,
      FilePath.segments (List.replicate count '/') = List.replicate (count + 1) [] := by
    intro count
    induction count with
    | zero => rfl
    | succ count ih =>
      rw [List.replicate_succ, FilePath.segments, if_pos rfl, ih]
      rfl
  have whole : results.root.names = ["results"] := rfl
  cases count with
  | zero => rfl
  | succ count =>
    rw [← whole, slashedResults, FilePath.names, FilePath.names, String.toList_append,
      String.toList_ofList, List.replicate_succ, FilePath.segments_append_slash, blank,
      List.filter_append]
    simp

theorem size_slashedResults (count : Nat) :
    (slashedResults count).root.text.utf8ByteSize = 7 + count := by
  have slashes : (String.ofList (List.replicate count '/')).utf8ByteSize = count := by
    induction count with
    | zero => rfl
    | succ count ih =>
      rw [List.replicate_succ', String.ofList_append, String.utf8ByteSize_append, ih]
      rfl
  rw [slashedResults, String.utf8ByteSize_append, slashes]
  rfl

/-- Behind a slash a name is put as it is. -/
theorem text_slashedResults (count : Nat) (hname : FilePath.IsComponent name) :
    (((slashedResults (count + 1)).projectDir .global).join name).text
      = (slashedResults (count + 1)).root.text ++ name := by
  have path : (slashedResults (count + 1)).projectDir .global
      = (slashedResults (count + 1)).root := rfl
  have last : (slashedResults (count + 1)).root.text.toList.getLast? = some '/' := by
    rw [slashedResults, String.toList_append, String.toList_ofList, List.replicate_succ',
      ← List.append_assoc, List.getLast?_concat]
  rw [path, FilePath.join, if_neg (FilePath.head?_ne_slash hname), if_pos (.inr last)]

/-- The path of a file can be walked along as long as it is short enough. -/
theorem walkable_slashedResults (count : Nat) (hname : FilePath.IsComponent name)
    (hnul : name.toList.contains '\x00' = false)
    (hshort : 8 + count + name.utf8ByteSize < pathLimit) :
    Walkable (((slashedResults (count + 1)).projectDir .global).join name) := by
  have text := text_slashedResults count hname
  have size := size_slashedResults (count + 1)
  refine ⟨?_, ?_, ?_⟩
  · have root : results.root.text.toList.contains '\x00' = false := by decide
    rw [text, slashedResults, String.toList_append, String.toList_append, String.toList_ofList,
      List.contains_append, List.contains_append, root, hnul]
    simp
  · rw [text, Bool.eq_false_iff]
    intro empty
    have none := (String.append_eq_empty_iff.mp (String.isEmpty_iff.mp empty)).1
    rw [none] at size
    exact absurd size.symm (Nat.succ_ne_zero _)
  · rw [text, String.utf8ByteSize_append, size]
    omega

/-- The results directory is reached over slashes. -/
theorem leadsTo_slashedResults (count : Nat) (hworking : t.workingDirectory = [])
    (hup : t.find? ["results"] = some .directory) :
    t.LeadsTo (slashedResults count).root ["results"] := by
  have absolute : (slashedResults count).root.isAbsolute = false := by
    have first : results.root.text.toList.head? = some 'r' := by decide
    rw [FilePath.isAbsolute, slashedResults, String.toList_append, List.head?_append, first]
    rfl
  refine ⟨mostLinks, ?_⟩
  rw [names_slashedResults, start, absolute, hworking]
  exact .down (by decide) hup (.here _ _)

theorem isAt_slashedResults (count : Nat) :
    (slashedResults count).IsAt ["results"] emptyResults :=
  ⟨isAt_emptyResults.sound, leadsTo_slashedResults count rfl rfl, isAt_emptyResults.noLinks⟩

theorem walkable_temporaryPath_slashedResults (count : Nat)
    (hshort : 8 + count + temporaryName.utf8ByteSize < pathLimit) :
    Walkable ((slashedResults (count + 1)).temporaryPath .global) := by
  rw [temporaryPath_eq_join]
  exact walkable_slashedResults count isComponent_temporaryName (by decide) hshort

theorem walkable_imagePath_slashedResults (count : Nat)
    (hshort : 8 + count + "00001.png".utf8ByteSize < pathLimit) :
    Walkable ((slashedResults (count + 1)).imagePath .global 1) := by
  have component := isComponent_of_isImageFileName (isImage_imageFileName 1)
  rw [imageFileName_one] at component
  rw [imagePath_one]
  exact walkable_slashedResults count component (by decide) hshort

theorem not_walkable_asidePath_slashedResults (count : Nat)
    (hlong : pathLimit ≤ 8 + count + asideName.utf8ByteSize) :
    ¬ Walkable ((slashedResults (count + 1)).asidePath .global) := by
  intro walkable
  have short := walkable.short
  rw [asidePath_eq_join, text_slashedResults count isComponent_asideName,
    String.utf8ByteSize_append, size_slashedResults] at short
  omega

theorem isUsable_emptyResults : IsUsable .global ["results"] emptyResults :=
  isUsable_of_entries (by decide) rfl (by decide)

/-- Nothing is listed where the ledger can be looked for and is not there. -/
theorem load_slashedResults (count : Nat)
    (hwalk : Walkable ((slashedResults count).temporaryPath .global)) :
    (slashedResults count).load .global emptyResults = .absent := by
  have ledger := walkable_ledgerPath hwalk
  have located := isUsable_emptyResults.locate (isAt_slashedResults count) isOwnName_ledgerName
    short_ledgerName ledger true
  exact load_eq_absent ((readFile_of_locate located).trans rfl)

/-- Records an image, and clears the project. -/
def recordAndClear : List (Project × Operation) :=
  [(.global, .recordBatch (fun _ => zeroToken) [] (answerOf [""]).compact 0), (.global, .clear)]

theorem afterAll_recordAndClear {e : Error} (hrecorded :
      a.recordBatch .global (fun _ => zeroToken) [] (answerOf [""]).compact 0 t = .ok records s)
    (hcleared : a.clear .global s = .error e u) :
    Operation.afterAll a recordAndClear t = u := by
  have first : treeAfter
      (a.recordBatch .global (fun _ => zeroToken) [] (answerOf [""]).compact 0) t = s := by
    rw [treeAfter, hrecorded]
  have second : treeAfter (a.clear .global) s = u := by
    rw [treeAfter, hcleared]
  rw [← second, ← first]
  rfl

/-- A first record that has been made is what is listed. -/
theorem load_of_firstRecord (h : a.IsAt root t) (habsent : a.load .global t = .absent)
    (hrecorded : a.recordBatch .global (fun _ => zeroToken) [] (answerOf [""]).compact 0 t
      = .ok [firstRecord [] 0 zeroToken ""] s) :
    a.load .global s = .present [firstRecord [] 0 zeroToken ""] := by
  rcases recordBatch_cases h (fun _ => zeroToken) [] (answerOf [""]).compact 0 with
    ⟨none, -⟩ | ⟨created, s', genTime, run, -, -, loaded⟩ | ⟨e, s', run, -⟩
  · exact absurd ((batchImages_compact [""]).symm.trans none) (by simp)
  · obtain ⟨rfl, rfl⟩ := EStateM.Result.ok.inj (hrecorded.symm.trans run)
    rw [loaded, habsent]
    rfl
  · exact absurd (hrecorded.symm.trans run) (by simp)

/-- Where there is room in a path for the name of the temporary file, but not for that of the file a
ledger is moved aside to, a record that is listed loses its image. -/
theorem image_missing_slashedResults :
    emptyResults.IsSound ∧ emptyResults.LeadsTo (slashedResults 4070).root ["results"] ∧
      (∀ loc, ["results"] <+: loc → loc ≠ ["results"] → emptyResults.find? loc = none) ∧
      ∃ r ∈ (slashedResults 4070).history .global
          (Operation.afterAll (slashedResults 4070) recordAndClear emptyResults),
        (Operation.afterAll (slashedResults 4070) recordAndClear emptyResults).readFile
          ((slashedResults 4070).imagePath .global r.id) = .error .notFound := by
  have there := isAt_slashedResults 4070
  have temporary := walkable_temporaryPath_slashedResults 4069 (by decide)
  have absent := load_slashedResults 4070 temporary
  obtain ⟨-, -, start⟩ := listsImages_of_empty (p := .global) there.sound there.leads
    find?_emptyResults
  -- the image is recorded, so that the ledger lists one record
  obtain ⟨s, recorded⟩ : ∃ s, (slashedResults 4070).recordBatch .global (fun _ => zeroToken) []
      (answerOf [""]).compact 0 emptyResults = .ok [firstRecord [] 0 zeroToken ""] s :=
    recordBatch_first_ok isUsable_emptyResults there (batchImages_compact [""]) absent
      (walkable_imagePath_slashedResults 4069 (by decide)) temporary
  have inv := start.recordBatch there (fun _ => zeroToken) [] (answerOf [""]).compact 0
  rw [treeAfter, recorded] at inv
  have hs := there.of_touches
    ((confined_recordBatch (fun _ => zeroToken) [] (answerOf [""]).compact 0).of_ok there recorded)
  have loaded := load_of_firstRecord there absent recorded
  have history : (slashedResults 4070).history .global s = [firstRecord [] 0 zeroToken ""] := by
    rw [Archive.history, loaded]
    rfl
  have listed : (slashedResults 4070).history .global s ≠ [] := by
    rw [history]
    exact List.cons_ne_nil _ _
  -- clearing then fails over the path that is too long, when the image has gone
  obtain ⟨usable, ledger⟩ := isUsable_of_listed hs inv.files listed
  obtain ⟨e, u, cleared, kept, gone⟩ := clear_of_long usable hs ledger loaded temporary
    (not_walkable_asidePath_slashedResults 4069 (by decide))
  obtain ⟨c, -, -, read⟩ := inv.images _ (history ▸ List.mem_singleton_self _)
  have after := afterAll_recordAndClear recorded cleared
  refine ⟨there.sound, there.leads, find?_emptyResults, firstRecord [] 0 zeroToken "", ?_, ?_⟩
  · rw [after, Archive.history, kept, loaded]
    exact List.mem_singleton_self _
  · rw [after]
    exact gone _ (List.mem_singleton_self _) c.image read

end Archive

end ImageGateway
