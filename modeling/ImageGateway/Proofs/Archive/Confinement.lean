import ImageGateway.Proofs.Archive.Footprints
import ImageGateway.Proofs.Archive.Numbers

/-!
# Every program of the archive is confined

Image files are written and removed under names of images only; the ledger is changed by way of the
files beside it. So whatever is done for a project, with any number and any content, is confined to
the project (`confined_recordBatch`, `confined_moveForward`, `confined_moveBack`, `confined_remove`,
`confined_clear`).
-/

set_option autoImplicit false

namespace ImageGateway.Archive

open Storage Storage.FileTree

variable {a : Archive} {p : Project} {own : String → Prop} {α : Type}

/-! ## Images -/

/-- The names of images. -/
def IsImage (name : String) : Prop := isImageFileName name = true

theorem isOwnName_of_isImage {name : String} (h : IsImage name) : IsOwnName name :=
  .inr (.inr (.inr h))

theorem isImage_imageFileName (id : RecordId) : IsImage (Record.imageFileName id) :=
  isImageFileName_imageFileName id

theorem confined_writeImage {id : RecordId} (hown : own (Record.imageFileName id))
    (content : Bytes) : a.Confined p own (a.writeImage p id content) :=
  confined_bind confined_makeDirs fun _ =>
    confined_writeFile (isComponent_of_isImageFileName (isImage_imageFileName id)) hown content

theorem confined_removeImage {id : RecordId} (hown : own (Record.imageFileName id)) :
    a.Confined p own (a.removeImage p id) :=
  confined_tryRemove (isComponent_of_isImageFileName (isImage_imageFileName id)) hown

/-- The path of an image of a project. -/
def IsImagePath (a : Archive) (p : Project) (path : FilePath) : Prop :=
  ∃ name, IsImage name ∧ path = (a.projectDir p).join name

theorem confined_removeCounting {paths : List FilePath} (h : ∀ q ∈ paths, a.IsImagePath p q) :
    a.Confined p IsImage (removeCounting paths) := by
  induction paths with
  | nil => exact confined_pure 0
  | cons q rest ih =>
    obtain ⟨name, image, rfl⟩ := h q List.mem_cons_self
    refine confined_bind (confined_tryRemove (isComponent_of_isImageFileName image) image) ?_
    intro removed
    refine confined_bind (ih fun r hr => h r (List.mem_cons_of_mem _ hr)) ?_
    intro more
    exact confined_pure _

theorem confined_removeAllImages : a.Confined p IsImage (a.removeAllImages p) := by
  intro t hs hlinks
  rw [treeAfter, removeAllImages]
  cases hlist : t.list (a.projectDir p) with
  | error fault => exact ⟨hs, .refl a p IsImage t⟩
  | ok names =>
    refine confined_removeCounting (fun q hq => ?_) t hs hlinks
    obtain ⟨name, hname, rfl⟩ := List.mem_map.mp hq
    exact ⟨name, (List.mem_filter.mp hname).2, rfl⟩

theorem confined_removeListedImages (state : LedgerState) :
    a.Confined p IsImage (a.removeListedImages p state) := by
  cases state with
  | absent => exact confined_pure 0
  | unreadable => exact confined_removeAllImages
  | present records =>
    refine confined_removeCounting fun q hq => ?_
    obtain ⟨r, -, rfl⟩ := List.mem_map.mp hq
    exact ⟨Record.imageFileName r.id, isImage_imageFileName r.id, rfl⟩

/-- Only images with numbers above the last one are written. -/
theorem confined_recordImages {numbering : Numbering}
    (hown : ∀ id, numbering.last < id → own (Record.imageFileName id))
    (parameters : Json.Members) (genTime : UInt64) (images : List (String × Record.CacheToken)) :
    a.Confined p own (a.recordImages p parameters genTime numbering images) := by
  induction images generalizing numbering with
  | nil => exact confined_pure []
  | cons image rest ih =>
    obtain ⟨encoded, token⟩ := image
    rw [recordImages]
    cases hnext : numbering.next with
    | error e => exact confined_throw e
    | ok next =>
      obtain ⟨id, more⟩ := next
      obtain ⟨above, last⟩ := Numbering.lt_of_next hnext
      refine confined_bind (confined_writeImage (hown id above) (decodeImage encoded)) ?_
      intro _
      refine confined_bind (ih fun other later => hown other ?_) ?_
      · rw [last] at later
        exact UInt64.lt_trans above later
      · intro created
        exact confined_pure _

/-! ## The ledger -/

theorem isOwnName_ledgerName : IsOwnName ledgerName := .inl rfl

theorem isOwnName_temporaryName : IsOwnName temporaryName := .inr (.inl rfl)

theorem isOwnName_asideName : IsOwnName asideName := .inr (.inr (.inl rfl))

/-- The names of the ledger and the files beside it that are no images. -/
def IsDocument (name : String) : Prop :=
  name = ledgerName ∨ name = temporaryName ∨ name = asideName

theorem isOwnName_of_isDocument {name : String} (h : IsDocument name) : IsOwnName name := by
  rcases h with rfl | rfl | rfl
  · exact isOwnName_ledgerName
  · exact isOwnName_temporaryName
  · exact isOwnName_asideName

/-- Looking for the ledger finds a file or nothing, or fails; the tree stays as it is. -/
theorem ledgerIsThere_cases (a : Archive) (p : Project) (t : FileTree) :
    (∃ content, t.statLink (a.ledgerPath p) = .ok (.file content) ∧
      a.ledgerIsThere p t = .ok true t) ∨
    (t.statLink (a.ledgerPath p) = .error .notFound ∧ a.ledgerIsThere p t = .ok false t) ∨
    ∃ e, a.ledgerIsThere p t = .error e t := by
  delta ledgerIsThere
  cases t.statLink (a.ledgerPath p) with
  | ok entry =>
    cases entry with
    | file content => exact .inl ⟨content, rfl, rfl⟩
    | directory => exact .inr (.inr ⟨_, rfl⟩)
    | link target => exact .inr (.inr ⟨_, rfl⟩)
  | error fault =>
    cases fault with
    | notFound => exact .inr (.inl ⟨rfl, rfl⟩)
    | _ => exact .inr (.inr ⟨_, rfl⟩)

theorem confined_ledgerIsThere : a.Confined p own (a.ledgerIsThere p) := by
  refine confined_of_unchanged fun t => ?_
  rw [treeAfter]
  rcases a.ledgerIsThere_cases p t with ⟨content, -, run⟩ | ⟨-, run⟩ | ⟨e, run⟩ <;> rw [run]

theorem confined_moveAside :
    a.Confined p IsDocument (modify fun t =>
      ((t.rename (a.ledgerPath p) (a.asidePath p)).toOption).getD t : Disk PUnit) := by
  intro t hs hlinks
  have after : treeAfter (modify fun t =>
      ((t.rename (a.ledgerPath p) (a.asidePath p)).toOption).getD t : Disk PUnit) t
        = ((t.rename (a.ledgerPath p) (a.asidePath p)).toOption).getD t := rfl
  rw [after]
  cases hop : t.rename (a.ledgerPath p) (a.asidePath p) with
  | error fault => exact ⟨hs, .refl a p IsDocument t⟩
  | ok s =>
    rw [ledgerPath_eq_join, asidePath_eq_join] at hop
    exact rename_own hs hlinks isComponent_ledgerName (.inl rfl) isComponent_asideName
      (.inr (.inr rfl)) hop

theorem confined_setAside : a.Confined p IsDocument (a.setAside p) := by
  refine confined_bind confined_ledgerIsThere fun there => ?_
  cases there with
  | true => exact confined_moveAside
  | false => exact confined_pure PUnit.unit

theorem confined_persist (records : List Record) :
    a.Confined p IsDocument (a.persist p records) := by
  refine confined_bind confined_makeDirs fun _ => confined_bind ?_ fun _ => ?_
  · rw [temporaryPath_eq_join]
    exact confined_writeFile isComponent_temporaryName (.inr (.inl rfl)) _
  · refine confined_change fun t s h hs hlinks => ?_
    rw [temporaryPath_eq_join, ledgerPath_eq_join] at h
    exact rename_own hs hlinks isComponent_temporaryName (.inr (.inl rfl))
      isComponent_ledgerName (.inl rfl) h

theorem confined_update {change : List Record → Disk (Commit α)}
    (h : ∀ records, a.Confined p IsOwnName (change records)) :
    a.Confined p IsOwnName (a.update p change) := by
  have documents : ∀ name, IsDocument name → IsOwnName name := fun _ => isOwnName_of_isDocument
  refine confined_bind confined_get fun t => confined_bind (h _) fun commit => ?_
  cases commit with
  | keep answer => exact confined_pure answer
  | write records answer =>
    have written : a.Confined p IsOwnName (a.persist p records >>= fun _ => pure answer) :=
      confined_bind ((confined_persist records).mono documents) fun _ => confined_pure answer
    cases (a.load p t).isUnreadable with
    | true => exact confined_bind (confined_setAside.mono documents) fun _ => written
    | false => exact written

/-! ## The programs -/

theorem confined_recordBatch (tokens : Nat → Record.CacheToken) (request answer : Bytes)
    (elapsed : UInt64) :
    a.Confined p IsOwnName (a.recordBatch p tokens request answer elapsed) := by
  rw [recordBatch]
  split
  · exact confined_pure []
  · refine confined_update fun records => ?_
    refine confined_bind (confined_recordImages (fun id _ => ?_) _ _ _) ?_
    · exact isOwnName_of_isImage (isImage_imageFileName id)
    intro created
    exact confined_pure _

theorem confined_moveForward (id : RecordId) : a.Confined p IsOwnName (a.moveForward p id) :=
  confined_update fun _ => confined_pure _

theorem confined_moveBack (id : RecordId) : a.Confined p IsOwnName (a.moveBack p id) :=
  confined_update fun _ => confined_pure _

theorem confined_remove (id : RecordId) : a.Confined p IsOwnName (a.remove p id) := by
  refine confined_update fun records => ?_
  refine confined_bind (confined_removeImage ?_) ?_
  · exact isOwnName_of_isImage (isImage_imageFileName id)
  intro removed
  exact confined_pure _

theorem confined_clear : a.Confined p IsOwnName (a.clear p) := by
  refine confined_bind confined_ledgerIsThere fun _ => confined_bind confined_get fun t => ?_
  refine confined_bind
    ((confined_removeListedImages _).mono fun _ => isOwnName_of_isImage) fun removed => ?_
  refine confined_bind ?_ fun _ => confined_bind ?_ fun _ => confined_bind ?_ fun _ =>
    confined_pure removed
  · rw [temporaryPath_eq_join]
    exact confined_removeIfPresent isComponent_temporaryName isOwnName_temporaryName
  · rw [asidePath_eq_join]
    exact confined_removeIfPresent isComponent_asideName isOwnName_asideName
  · rw [ledgerPath_eq_join]
    exact confined_removeIfPresent isComponent_ledgerName isOwnName_ledgerName

end ImageGateway.Archive
