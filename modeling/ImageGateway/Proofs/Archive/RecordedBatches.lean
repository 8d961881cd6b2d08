import ImageGateway.Proofs.Archive.EncodedImages
import ImageGateway.Proofs.Archive.FailedBatches
import ImageGateway.Proofs.Archive.ListedImages
import ImageGateway.Proofs.Archive.SetAside

/-!
# What a recorded batch leaves

A batch that has been recorded has one record for each image of the answer, numbered from the highest
number in the ledger upwards. Each record belongs to its image (`IsRecordOf`), which is in the file
under its number; the ledger is the document of the records that were there and those of the batch, and
no other image of the project is different (`RecordsBatch`, `batch_recorded_whole`).
-/

set_option autoImplicit false

namespace ImageGateway

open Storage Storage.FileTree

/-! ## Seeds among parameters -/

namespace Json

theorem lookup_cons_eq (key : String) (value : Value) (members : Members) (other : String) :
    List.lookup other ((key, value) :: members)
      = if other = key then some value else members.lookup other := by
  by_cases same : other = key
  · subst same
    rw [if_pos rfl, List.lookup_cons_self]
  · rw [if_neg same, List.lookup_cons, beq_false_of_ne same]

/-- What is put under a key is found there, and under all others what was found before. -/
theorem lookup_insert (key : String) (value : Value) (members : Members) (other : String) :
    (Members.insert key value members).lookup other
      = if other = key then some value else members.lookup other := by
  induction members with
  | nil => exact lookup_cons_eq key value [] other
  | cons m rest ih =>
    obtain ⟨k, v⟩ := m
    rw [Members.insert]
    split
    · exact lookup_cons_eq key value _ other
    split
    · -- the value under the same key is replaced
      rename_i here
      subst here
      rw [lookup_cons_eq, lookup_cons_eq]
      split <;> rfl
    · -- the value goes in further back
      rename_i differs
      rw [lookup_cons_eq, lookup_cons_eq, ih]
      by_cases first : other = k
      · subst first
        rw [if_pos rfl, if_pos rfl, if_neg (Ne.symm differs)]
      · rw [if_neg first, if_neg first]

end Json

namespace Archive

variable {a : Archive} {p : Project} {t s u v : FileTree} {root dir : Location} {name : String}
  {parameters : Json.Members} {genTime : UInt64} {numbering : Numbering} {last : RecordId}
  {images : List (String × Record.CacheToken)} {records created : List Record} {r : Record}
  {request answer image : Bytes}

/-- The parameters of a request are the object that is its body, or there are none. -/
def IsParametersOf (request : Bytes) (parameters : Json.Members) : Prop :=
  Json.parse? request = some (.object parameters) ∨
    (∀ members, Json.parse? request ≠ some (.object members)) ∧ parameters = []

theorem isParametersOf_iff :
    IsParametersOf request parameters ↔ parameters = requestParameters request := by
  rw [IsParametersOf, requestParameters]
  cases Json.parse? request with
  | none => simp
  | some value =>
    cases value with
    | object members => simp [Json.Value.object?, eq_comm]
    | _ => simp [Json.Value.object?]

/-- The parameters that are kept for an image are those of the request, but for the seed where one has
been found. -/
structure SetsSeed (parameters : Json.Members) (seed : Option UInt64) (taskData : Json.Members) :
    Prop where
  inOrder : Json.InOrder taskData
  unchanged : seed = none → taskData = parameters
  lookup : ∀ n, seed = some n → ∀ key,
    taskData.lookup key = if key = "seed" then some (.ofWord n) else parameters.lookup key

/-- A record is that of an image, with a number, a share of the time and the parameters of the
request. -/
structure IsRecordOf (image : Bytes) (parameters : Json.Members) (number share : Nat) (r : Record) :
    Prop where
  number : r.id.toNat = number
  share : r.genTime.toNat = share
  reference : ∃ digits : List Char, digits.length = 5 ∧ digits.all Char.isDigit = true ∧
    r.imageName = Record.imageFileName r.id ++ "?" ++ String.ofList digits
  seed : r.seed = Seed.find? image
  taskData : SetsSeed parameters (Seed.find? image) r.taskData

theorem setsSeed_recordOf (id : RecordId) (token : Record.CacheToken)
    (hparameters : Json.InOrder parameters) :
    SetsSeed parameters (Seed.find? image)
      (recordOf parameters genTime id token image).taskData := by
  rw [recordOf]
  cases Seed.find? image with
  | none => exact ⟨hparameters, fun _ => rfl, fun n found => absurd found (by simp)⟩
  | some seed =>
    refine ⟨Json.inOrder_insert "seed" _ hparameters, fun none => absurd none (by simp), ?_⟩
    rintro n same key
    obtain rfl := Option.some.inj same
    exact Json.lookup_insert "seed" (.ofWord seed) parameters key

theorem isRecordOf_recordOf (id : RecordId) (token : Record.CacheToken)
    (hparameters : Json.InOrder parameters) :
    IsRecordOf image parameters id.toNat genTime.toNat
      (recordOf parameters genTime id token image) := by
  have digits : (Decimal.padded 5 token.val).length = 5 :=
    Decimal.length_padded ((Nat.length_toDigits_le_iff (by decide) (by decide)).mpr token.isLt)
  have reference : (recordOf parameters genTime id token image).imageName
      = Record.imageFileName id ++ "?" ++ String.ofList (Decimal.padded 5 token.val) := by
    rw [recordOf]
    cases Seed.find? image <;> rfl
  refine ⟨congrArg _ (id_recordOf ..), ?_, ⟨_, digits, Decimal.all_isDigit_padded 5 token.val, ?_⟩,
    ?_, setsSeed_recordOf id token hparameters⟩
  · rw [recordOf]
    cases Seed.find? image <;> rfl
  · rw [id_recordOf, reference]
  · rw [recordOf]
    cases Seed.find? image <;> rfl

/-! ## Batches -/

/-- Each record is made from the image in its place. -/
theorem getElem?_of_recordImages
    (h : a.recordImages p parameters genTime numbering images t = .ok created s) {i : Nat}
    (hr : created[i]? = some r) :
    ∃ id encoded token, images[i]? = some (encoded, token) ∧
      r = recordOf parameters genTime id token (decodeImage encoded) := by
  induction images generalizing numbering created t i with
  | nil =>
    rw [recordImages] at h
    obtain ⟨rfl, -⟩ := EStateM.Result.ok.inj h
    exact absurd hr (by simp)
  | cons image rest ih =>
    obtain ⟨encoded, token⟩ := image
    obtain ⟨id, more, u, others, -, -, hothers, rfl⟩ := recordImages_cons_eq_ok h
    cases i with
    | zero =>
      obtain rfl := Option.some.inj hr
      exact ⟨id, encoded, token, rfl, rfl⟩
    | succ i => exact ih hothers hr

/-- The numbers of a batch follow one another. -/
theorem IsBatch.toNat_id (h : IsBatch parameters genTime last created) {i : Nat}
    (hr : created[i]? = some r) : r.id.toNat = last.toNat + i + 1 := by
  obtain ⟨inside, -⟩ := List.getElem?_eq_some_iff.mp hr
  have number := congrArg (·[i]?) h.numbered
  simp only [List.getElem?_map, hr, Option.map_some, List.getElem?_range' inside,
    Option.some.injEq] at number
  omega

theorem IsBatch.mem_of_number (h : IsBatch parameters genTime last created) {id : RecordId}
    (above : last.toNat < id.toNat) (below : id.toNat ≤ last.toNat + created.length) :
    id ∈ created.map Record.id := by
  have listed : id.toNat ∈ created.map fun r => r.id.toNat := by
    rw [h.numbered, List.mem_range'_1]
    omega
  obtain ⟨r, hr, same⟩ := List.mem_map.mp listed
  exact List.mem_map.mpr ⟨r, hr, UInt64.toNat_inj.mp same⟩

/-- There are not more records in a batch than numbers. -/
theorem IsBatch.length_lt (h : IsBatch parameters genTime last created) :
    created.length < UInt64.size := by
  have size : UInt64.size = 2 ^ 64 := rfl
  cases created using List.reverseRecOn with
  | nil => decide
  | append_singleton front r =>
    have number := h.toNat_id (r := r) (i := front.length) (by simp)
    have bound := r.id.toNat_lt
    rw [List.length_append, List.length_singleton]
    omega

/-- The time is shared out in whole milliseconds. -/
theorem toNat_share (elapsed : UInt64) {count : Nat} (h : count < UInt64.size) :
    (elapsed / UInt64.ofNat count).toNat = elapsed.toNat / count := by
  rw [UInt64.toNat_div, UInt64.toNat_ofNat_of_lt' h]

/-! ## The directory of the project

The results directory may have to be made first, so that there is no place yet to speak of. The images
are written as they would have been in the tree in which it has been made. -/

/-- Images that have been recorded are recorded as in the tree with the directory of the project. -/
theorem recordImages_prepared (hs : t.IsSound) (hlinks : a.HasNoLinks t) (hsome : images ≠ [])
    (h : a.recordImages p parameters genTime numbering images t = .ok created u) :
    ∃ root, a.IsAt root (a.prepared p t) ∧
      (a.prepared p t).LeadsTo (a.projectDir p) (p.place root) ∧
      a.recordImages p parameters genTime numbering images (a.prepared p t) = .ok created u := by
  rcases recordImages_cases hs hsome with ⟨e, failed⟩ | ⟨e, failed⟩ | ⟨⟨dir, led⟩, same⟩
  · exact absurd (failed.symm.trans h) (by simp)
  · exact absurd (failed.symm.trans h) (by simp)
  · have sound : (a.prepared p t).IsSound := isSound_makeDirs hs (a.projectDir p)
    have grown : a.Touches p IsOwnName t (a.prepared p t) :=
      touches_of_grown (grown_makeDirs hs (a.projectDir p))
    have noLinks := hlinks.of_sameLinks grown.keeps.toSameLinks
    obtain ⟨root, leads, rfl⟩ := leadsTo_projectDir noLinks led
    exact ⟨root, ⟨sound, leads, (hasNoLinks_iff leads).mp noLinks⟩, led, same.symm.trans h⟩

/-- No other image is different once images have been recorded. -/
theorem find?_of_recordImages (h : a.IsAt root t)
    (hled : t.LeadsTo (a.projectDir p) (p.place root))
    (hrun : a.recordImages p parameters genTime numbering images t = .ok created s)
    (hother : name ∉ created.map fun r => Record.imageFileName r.id) :
    s.find? (p.place root ++ [name]) = t.find? (p.place root ++ [name]) := by
  obtain ⟨batch, size⟩ := isBatch_of_recordImages hrun
  have written := overwrites_recordImages h.sound hled parameters genTime numbering images
  rw [treeAfter, hrun] at written
  rcases written.entry (p.place root ++ [name]) with same | ⟨⟨id, above, below, located⟩, -⟩
  · exact same
  -- what has been written there is an image of the batch
  · have component := isComponent_of_isImageFileName (isImage_imageFileName id)
    obtain ⟨here, -⟩ := locate_of_locate h h (Touches.refl a p IsImage t).keeps component located true
    obtain rfl := List.singleton_inj.mp (List.append_cancel_left here)
    rw [← size] at below
    obtain ⟨r, hr, rfl⟩ := List.mem_map.mp (batch.mem_of_number above below)
    exact absurd (List.mem_map.mpr ⟨r, hr, rfl⟩) hother

/-! ## The steps -/

/-- A batch that has been recorded has written its images where the directory of the project is, and
then documents only. -/
theorem steps_of_update_addImages (hs : t.IsSound) (hlinks : a.HasNoLinks t) (hsome : images ≠ [])
    (hrun : a.update p (a.addImages p parameters genTime images) t = .ok created s) :
    ∃ root u, a.IsAt root (a.prepared p t) ∧
      (a.prepared p t).LeadsTo (a.projectDir p) (p.place root) ∧
      a.recordImages p parameters genTime (Numbering.aboveRecords (a.history p t)) images
        (a.prepared p t) = .ok created u ∧
      a.IsAt root u ∧ (s.IsSound ∧ a.Touches p IsDocument u s) ∧
      s.statLink (a.ledgerPath p)
        = .ok (.file (Record.document (a.history p t ++ created))) := by
  obtain ⟨u, v, recorded, way, persisted⟩ := update_addImages_eq_ok hrun
  obtain ⟨root, there, led, again⟩ := recordImages_prepared hs hlinks hsome recorded
  have imaged := (confined_recordImages (fun id _ => isImage_imageFileName id) parameters genTime
    images).of_ok there again
  have hu := there.of_touches imaged
  have moved := touches_of_makesWay hu way
  have hv := hu.of_touches moved
  have replaced := (confined_persist _).of_ok hv persisted
  refine ⟨root, u, there, led, again, hu, ⟨replaced.1, moved.2.trans replaced.2 moved.1⟩, ?_⟩
  exact statLink_ledgerPath_of_persist hv.sound ((led.keep imaged.2.keeps).keep moved.2.keeps)
    replaced.2.keeps (hv.file_ne_link temporaryName) persisted

/-! ## What is left -/

/-- A batch has been recorded as a whole: every image with its record behind those that were there, and
no other image of the project. -/
structure RecordsBatch (a : Archive) (p : Project) (request answer : Bytes) (elapsed : UInt64)
    (t s : FileTree) (created : List Record) : Prop where
  size : created.length = (batchImages answer).length
  records : ∀ i r, created[i]? = some r → ∃ encoded image parameters,
    (batchImages answer)[i]? = some encoded ∧ IsImageOf encoded image ∧
    IsParametersOf request parameters ∧
    IsRecordOf image parameters (Record.highest (a.history p t) + i + 1)
      (elapsed.toNat / (batchImages answer).length) r ∧
    s.readFile (a.imagePath p r.id) = .ok image
  ledger : s.statLink (a.ledgerPath p)
    = .ok (.file (Record.document (a.history p t ++ created)))
  others : ∀ dir, s.LeadsTo (a.projectDir p) dir → ∀ name, IsImage name →
    (name ∉ created.map fun r => Record.imageFileName r.id) → ∀ content,
      s.find? (dir ++ [name]) = some (.file content) ↔
        t.find? (dir ++ [name]) = some (.file content)

/-- Making the directory of a project neither makes nor removes a file. -/
theorem find?_prepared_file_iff (hs : t.IsSound) (loc : Location) (content : Bytes) :
    (a.prepared p t).find? loc = some (.file content) ↔ t.find? loc = some (.file content) := by
  rcases (grown_makeDirs hs (a.projectDir p)).entry loc with same | ⟨missing, made, -⟩
  · rw [prepared, same]
  · rw [prepared, made, missing]
    simp

/-- The records of a batch belong to the images of the answer. -/
theorem isRecordOf_of_recordImages {tokens : Nat → Record.CacheToken} {elapsed : UInt64}
    (h : a.IsAt root t)
    (hrun : a.recordImages p (requestParameters request)
      (elapsed / UInt64.ofNat (batchImages answer).length) (Numbering.aboveRecords records)
      (drawnImages tokens answer) t = .ok created s) {i : Nat} (hr : created[i]? = some r) :
    ∃ encoded, (batchImages answer)[i]? = some encoded ∧
      IsRecordOf (decodeImage encoded) (requestParameters request) (Record.highest records + i + 1)
        (elapsed.toNat / (batchImages answer).length) r ∧
      s.readFile (a.imagePath p r.id) = .ok (decodeImage encoded) := by
  obtain ⟨batch, size⟩ := isBatch_of_recordImages hrun
  rw [length_drawnImages] at size
  obtain ⟨id, encoded, token, drawn, made⟩ := getElem?_of_recordImages hrun hr
  have listed : (batchImages answer)[i]? = some encoded :=
    (List.getElem?_zip_eq_some.mp drawn).1
  refine ⟨encoded, listed, ?_, ?_⟩
  · -- the number, the share of the time and the parameters are those of this place in the batch
    have ordered := (requestParameters_sorted_and_nesting request).1.1
    have number := batch.toNat_id hr
    rw [toNat_last_aboveRecords] at number
    rw [← number, ← toNat_share elapsed (size ▸ batch.length_lt), made, id_recordOf]
    exact isRecordOf_recordOf id token ordered
  · have decoded : ((drawnImages tokens answer).map fun image => decodeImage image.1)[i]?
        = some (decodeImage encoded) := by
      rw [List.getElem?_map, drawn]
      rfl
    have pair : (r, decodeImage encoded)
        ∈ created.zip ((drawnImages tokens answer).map fun image => decodeImage image.1) :=
      List.mem_of_getElem? (List.getElem?_zip_eq_some.mpr ⟨hr, decoded⟩)
    exact readFile_of_recordImages h hrun (r, decodeImage encoded) pair

theorem recordsBatch_of_update {tokens : Nat → Record.CacheToken} {elapsed : UInt64}
    (hs : t.IsSound) (hlinks : a.HasNoLinks t) (hsome : drawnImages tokens answer ≠ [])
    (hrun : a.update p (a.addImages p (requestParameters request)
      (elapsed / UInt64.ofNat (batchImages answer).length) (drawnImages tokens answer)) t
        = .ok created s) : a.RecordsBatch p request answer elapsed t s created := by
  obtain ⟨root, u, there, led, recorded, hu, documents, ledger⟩ :=
    steps_of_update_addImages hs hlinks hsome hrun
  refine ⟨?_, fun i r hr => ?_, ledger, fun dir led' name image hother content => ?_⟩
  · rw [(isBatch_of_recordImages recorded).2, length_drawnImages]
  · obtain ⟨encoded, listed, record, read⟩ := isRecordOf_of_recordImages there recorded hr
    refine ⟨encoded, _, _, listed, isImageOf_iff.mpr rfl, isParametersOf_iff.mpr rfl, record, ?_⟩
    exact readFile_of_touches hu documents (isOwnName_of_isImage (isImage_imageFileName r.id))
      (.inr (not_isDocument_imageFileName r.id)) read
  · obtain rfl := (hu.of_touches documents).eq_place led'
    rw [hu.find?_file_of_touches documents.1 documents.2 (isOwnName_of_isImage image)
      (.inr (not_isDocument_of_isImage image)), find?_of_recordImages there led recorded hother,
      find?_prepared_file_iff hs]

/-- A batch without images makes no records and changes nothing. Any other one, if it is recorded, has
one record for each image, each with the next number, its share of the time, the seed of its image and
the parameters of the request; the images are in their files, the ledger lists the records behind
those that were there, and no other image of the project is different. -/
theorem batch_recorded_whole (hs : t.IsSound) (hlinks : a.HasNoLinks t) (p : Project)
    (tokens : Nat → Record.CacheToken) (request answer : Bytes) (elapsed : UInt64) :
    (batchImages answer = [] → a.recordBatch p tokens request answer elapsed t = .ok [] t) ∧
    ∀ created s, batchImages answer ≠ [] →
      a.recordBatch p tokens request answer elapsed t = .ok created s →
      a.RecordsBatch p request answer elapsed t s created := by
  rcases recordBatch_eq_or a p tokens request answer elapsed with
    ⟨imageless, run⟩ | ⟨imaged, drawn, run⟩
  · exact ⟨fun _ => congrFun run t, fun created s imaged => absurd imageless imaged⟩
  · refine ⟨fun imageless => absurd imageless imaged, fun created s _ recorded => ?_⟩
    rw [run] at recorded
    exact recordsBatch_of_update hs hlinks drawn recorded

/-- The records of a ledger from which others have been removed. -/
def gappedRecords : List Record := [⟨"", [], 0, 2, none⟩, ⟨"", [], 0, 5, none⟩]

/-- A results directory with such a ledger, an image of it, and one that no record has. -/
def gappedResults : FileTree where
  entries := [(["results"], .directory),
    (["results", "history.json"], .file (Record.document gappedRecords)),
    (["results", "00005.png"], .file [5]), (["results", "00006.png"], .file [6])]
  workingDirectory := []

theorem isAt_gappedResults : results.IsAt ["results"] gappedResults := by
  refine ⟨isSound_of_entries (fun e listed => ?_) rfl, ⟨mostLinks, leads_results rfl rfl⟩, ?_⟩
  · simp only [gappedResults, List.mem_cons, List.not_mem_nil, or_false] at listed
    rcases listed with rfl | rfl | rfl | rfl <;> rfl
  · exact fun loc target _ _ => find?_ne_link (by simp [gappedResults]) loc target

theorem load_gappedResults : results.load .global gappedResults = .present gappedRecords := by
  rw [load_of_readFile rfl]
  rfl

/-- A batch of two images behind a ledger with gaps. Both have a share of the time, of which a
millisecond is left over; the first has a seed, and there is another one among the parameters of the
request; the second is encoded incorrectly. -/
theorem batch_recorded_whole_gappedResults :
    gappedResults.IsSound ∧ results.HasNoLinks gappedResults ∧
      results.load .global gappedResults = .present gappedRecords ∧ ∃ created s,
        results.recordBatch .global (fun _ => zeroToken)
            (Json.Value.object [("seed", .ofWord 1)]).compact
            (answerOf ["InNlZWQiOjU=", "*"]).compact 5 gappedResults = .ok created s ∧
          results.RecordsBatch .global (Json.Value.object [("seed", .ofWord 1)]).compact
            (answerOf ["InNlZWQiOjU=", "*"]).compact 5 gappedResults s created := by
  have there := isAt_gappedResults
  have usable : IsUsable .global ["results"] gappedResults := by
    refine isUsable_of_entries (by decide) rfl ?_
    have deep : (Project.global.place ["results"]).length = 1 := rfl
    simp [gappedResults, deep]
  have images := batchImages_compact ["InNlZWQiOjU=", "*"]
  have last : (Numbering.aboveRecords (results.load .global gappedResults).records).last = 5 := by
    rw [load_gappedResults]
    decide
  -- the numbers of the batch are 6 and 7
  have paths : ∀ id : RecordId, 5 < id → id.toNat ≤ 7 → Walkable (results.imagePath .global id) := by
    intro id above below
    rw [UInt64.lt_iff_toNat_lt] at above
    have five : (5 : RecordId).toNat = 5 := rfl
    obtain number | number : id.toNat = 6 ∨ id.toNat = 7 := by omega
    · obtain rfl : id = 6 := UInt64.toNat_inj.mp number
      decide +kernel
    · obtain rfl : id = 7 := UInt64.toNat_inj.mp number
      decide +kernel
  obtain ⟨created, s, run⟩ : ∃ created s, results.recordBatch .global (fun _ => zeroToken)
      (Json.Value.object [("seed", .ofWord 1)]).compact
      (answerOf ["InNlZWQiOjU=", "*"]).compact 5 gappedResults = .ok created s := by
    refine recordBatch_ok usable there ?_ ?_ ?_ (by decide)
    · rw [load_gappedResults]
      rfl
    · rw [last, images]
      decide
    · rw [last, images]
      exact paths
  have imaged : batchImages (answerOf ["InNlZWQiOjU=", "*"]).compact ≠ [] := by
    rw [images]
    exact List.cons_ne_nil _ _
  exact ⟨there.sound, there.hasNoLinks, load_gappedResults, created, s, run,
    (batch_recorded_whole there.sound there.hasNoLinks .global _ _ _ 5).2 created s imaged run⟩

end Archive

end ImageGateway
