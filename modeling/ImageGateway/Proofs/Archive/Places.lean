import ImageGateway.Archive.Ledger
import ImageGateway.Proofs.Decimal.Words
import ImageGateway.Proofs.Storage.Directories

/-!
# The places of projects

The files of a project have names that no project has (`not_isOwnName_name`), and so has the file of
the settings. The global namespace keeps them in the results directory, any other project in the
directory of its name there (`Project.place`): the places of two projects have nothing in common
(`place_append_ne`).
-/

set_option autoImplicit false

namespace ImageGateway

open Storage Storage.FileTree
open Storage.FilePath (IsComponent)

/-! ## The names of files -/

/-- The name of the ledger. -/
def ledgerName : String := "history.json"

/-- The name of the file that a new ledger is written to first. -/
def temporaryName : String := "history.json.tmp"

/-- The name of the file that an unreadable ledger is moved to. -/
def asideName : String := "history.json.corrupt"

/-- The name of the settings document. -/
def settingsName : String := "settings.json"

/-- The names of the files that belong to one project. -/
def IsOwnName (name : String) : Prop :=
  name = ledgerName ∨ name = temporaryName ∨ name = asideName ∨
    Archive.isImageFileName name = true

/-- The name of an image is a number of five or more digits before its ending. -/
theorem isImageFileName_iff {name : String} :
    Archive.isImageFileName name = true ↔
      ∃ stem : List Char, name.toList = stem ++ ".png".toList ∧ 5 ≤ stem.length ∧
        stem.all Char.isDigit = true := by
  rw [Archive.isImageFileName, Project.imageStem?]
  constructor
  · intro h
    split at h
    · rename_i stem found
      split at found
      · rename_i ending
        obtain rfl := Option.some.inj found
        refine ⟨name.toList.take (name.toList.length - 4), ?_, by simpa using h⟩
        rw [← ending, List.take_append_drop]
      · exact absurd found (by simp)
    · exact absurd h (by simp)
  · rintro ⟨stem, same, long, digits⟩
    have ending : (".png".toList).length = 4 := rfl
    have front : name.toList.length - 4 = stem.length := by
      rw [same, List.length_append, ending, Nat.add_sub_cancel]
    rw [front, same, List.drop_left, List.take_left, if_pos rfl]
    simp [long, digits]

/-- The files of records have the names of images. -/
theorem isImageFileName_imageFileName (id : RecordId) :
    Archive.isImageFileName (Record.imageFileName id) = true := by
  refine isImageFileName_iff.mpr
    ⟨Decimal.padded 5 id.toNat, ?_, ?_, Decimal.all_isDigit_padded 5 id.toNat⟩
  · rw [Record.imageFileName, String.toList_ofList]
  · rw [Decimal.padded, List.length_append, List.length_replicate]
    omega

/-- Different records have different image files. -/
theorem imageFileName_injective {i j : RecordId}
    (h : Record.imageFileName i = Record.imageFileName j) : i = j := by
  rw [Record.imageFileName, Record.imageFileName] at h
  have same : Decimal.padded 5 i.toNat = Decimal.padded 5 j.toNat :=
    List.append_cancel_right (String.ofList_injective h)
  have numbers := congrArg Decimal.value same
  rw [Decimal.value_padded, Decimal.value_padded] at numbers
  exact UInt64.toNat_inj.mp numbers

theorem isComponent_of_isImageFileName {name : String}
    (h : Archive.isImageFileName name = true) : IsComponent name := by
  obtain ⟨stem, same, long, digits⟩ := isImageFileName_iff.mp h
  have size : 9 ≤ name.toList.length := by
    rw [same, List.length_append]
    exact Nat.add_le_add_right long 4
  refine ⟨fun slash => ?_, ?_, ?_, ?_⟩
  · rw [same, List.mem_append] at slash
    rcases slash with slash | slash
    · exact absurd (List.all_eq_true.mp digits _ slash) (by decide)
    · exact absurd slash (by decide)
  · intro empty
    rw [empty] at size
    exact absurd size (by decide)
  · rintro rfl
    exact absurd size (by decide)
  · rintro rfl
    exact absurd size (by decide)

theorem isComponent_ledgerName : IsComponent ledgerName := by decide

theorem isComponent_temporaryName : IsComponent temporaryName := by decide

theorem isComponent_asideName : IsComponent asideName := by decide

theorem isComponent_settingsName : IsComponent settingsName := by decide

theorem isComponent_of_isOwnName {name : String} (h : IsOwnName name) : IsComponent name := by
  rcases h with rfl | rfl | rfl | image
  · exact isComponent_ledgerName
  · exact isComponent_temporaryName
  · exact isComponent_asideName
  · exact isComponent_of_isImageFileName image

/-- The files beside the images are none of them. -/
theorem isImageFileName_eq_false :
    Archive.isImageFileName ledgerName = false ∧ Archive.isImageFileName temporaryName = false ∧
      Archive.isImageFileName asideName = false ∧
      Archive.isImageFileName settingsName = false := by
  decide

theorem not_isOwnName_settingsName : ¬ IsOwnName settingsName := by
  rintro (same | same | same | image)
  · exact absurd same (by decide)
  · exact absurd same (by decide)
  · exact absurd same (by decide)
  · exact absurd image (by simp [isImageFileName_eq_false])

/-! ## The names of projects -/

namespace Project

variable {p q : Project}

theorem nameFault?_cases (p : Project) :
    p.name.toList.any isSeparator = false ∧ p.name.toList ≠ ['.'] ∧
      p.name.toList ≠ ['.', '.'] ∧ collides p.name.toList = false := by
  have valid := p.valid
  rw [nameFault?] at valid
  split at valid
  · exact absurd valid (by simp)
  split at valid
  · exact absurd valid (by simp)
  split at valid
  · exact absurd valid (by simp)
  · simp_all

/-- The name of a project is one component of a path. -/
theorem isComponent_name (h : p.isGlobal = false) : IsComponent p.name := by
  obtain ⟨separators, notDot, notUp, -⟩ := p.nameFault?_cases
  refine ⟨fun slash => ?_, ?_, ?_, ?_⟩
  · have found : p.name.toList.any isSeparator = true :=
      List.any_eq_true.mpr ⟨'/', slash, by decide⟩
    simp [separators] at found
  · intro empty
    have none : p.name = "" := String.toList_inj.mp empty
    simp [isGlobal, none] at h
  · intro same
    exact notDot (by rw [same]; rfl)
  · intro same
    exact notUp (by rw [same]; rfl)

/-- No file of the global namespace has the name of a project. -/
theorem not_isOwnName_name (p : Project) : ¬ IsOwnName p.name := by
  obtain ⟨-, -, -, free⟩ := p.nameFault?_cases
  rw [collides, Bool.or_eq_false_iff, Bool.or_eq_false_iff] at free
  obtain ⟨⟨-, notLedger⟩, notImage⟩ := free
  have ledger : ∀ name : String, p.name = name →
      "history.json".toList.isPrefixOf name.toList = false := by
    rintro name rfl
    exact notLedger
  rintro (same | same | same | image)
  · exact absurd (ledger _ same) (by decide)
  · exact absurd (ledger _ same) (by decide)
  · exact absurd (ledger _ same) (by decide)
  · rw [Archive.isImageFileName] at image
    split at image
    · rename_i stem found
      simp only [found] at notImage
      obtain ⟨long, digits⟩ : 5 ≤ stem.length ∧ stem.all Char.isDigit = true := by
        simpa using image
      rw [digits, Bool.and_true, Bool.not_eq_false', List.isEmpty_iff] at notImage
      rw [notImage] at long
      exact absurd long (by decide)
    · exact absurd image (by simp)

theorem name_ne_settingsName (p : Project) : p.name ≠ settingsName := by
  obtain ⟨-, -, -, free⟩ := p.nameFault?_cases
  intro same
  rw [same] at free
  exact absurd free (by decide)

/-- Two projects to show things with. -/
def cats : Project := ⟨"cats", by decide⟩
def dogs : Project := ⟨"dogs", by decide⟩

/-! ## Places -/

/-- Where a project keeps its files, given where the results directory is. -/
def place (p : Project) (root : Location) : Location :=
  if p.isGlobal then root else root ++ [p.name]

theorem place_of_isGlobal {root : Location} (h : p.isGlobal = true) : p.place root = root := by
  rw [place, if_pos h]

theorem place_of_not_isGlobal {root : Location} (h : p.isGlobal = false) :
    p.place root = root ++ [p.name] := by
  rw [place, h]
  rfl

theorem eq_of_isGlobal (hp : p.isGlobal = true) (hq : q.isGlobal = true) : p = q := by
  obtain ⟨name, valid⟩ := p
  obtain ⟨name', valid'⟩ := q
  obtain rfl : name = "" := by simpa [isGlobal] using hp
  obtain rfl : name' = "" := by simpa [isGlobal] using hq
  rfl

theorem eq_of_name_eq (h : p.name = q.name) : p = q := by
  obtain ⟨name, valid⟩ := p
  obtain ⟨name', valid'⟩ := q
  obtain rfl : name = name' := h
  rfl

/-- The files of two projects are never at the same location. -/
theorem place_append_ne (hne : p ≠ q) (root : Location) (f g : String) :
    p.place root ++ [f] ≠ q.place root ++ [g] := by
  intro same
  obtain ⟨places, -⟩ := List.append_inj' same rfl
  cases hp : p.isGlobal with
  | true =>
    cases hq : q.isGlobal with
    | true => exact hne (eq_of_isGlobal hp hq)
    | false => simp [place, hp, hq] at places
  | false =>
    cases hq : q.isGlobal with
    | true => simp [place, hp, hq] at places
    | false =>
      rw [place_of_not_isGlobal hp, place_of_not_isGlobal hq] at places
      obtain ⟨-, names⟩ := List.append_inj' places rfl
      exact hne (eq_of_name_eq (List.singleton_inj.mp names))

/-- Two projects are in different places. -/
theorem place_ne (hne : p ≠ q) (root : Location) : p.place root ≠ q.place root :=
  fun same => place_append_ne hne root ledgerName ledgerName (by rw [same])

/-- No file of a project is where the directory of a project is. -/
theorem place_append_ne_place {f : String} (hf : IsOwnName f) (p q : Project) (root : Location) :
    p.place root ++ [f] ≠ q.place root := by
  intro same
  cases hq : q.isGlobal with
  | true =>
    have size := congrArg List.length same
    rw [place_of_isGlobal hq] at size
    cases hp : p.isGlobal <;> simp [place, hp] at size
  | false =>
    rw [place_of_not_isGlobal hq] at same
    obtain ⟨-, names⟩ := List.append_inj' same rfl
    exact q.not_isOwnName_name (List.singleton_inj.mp names ▸ hf)

/-- No file of a project is where the results directory is. -/
theorem place_append_ne_root (p : Project) (root : Location) (f : String) :
    p.place root ++ [f] ≠ root := by
  intro same
  have size := congrArg List.length same
  rw [place] at size
  split at size <;> simp at size

/-- No file of a project is where the settings are. -/
theorem place_append_ne_settings {f : String} (hf : IsOwnName f) (p : Project) (root : Location) :
    p.place root ++ [f] ≠ root ++ [settingsName] := by
  intro same
  obtain ⟨-, names⟩ := List.append_inj' same rfl
  exact not_isOwnName_settingsName (List.singleton_inj.mp names ▸ hf)

/-- The files of a project are in the results directory or below it. -/
theorem isPrefix_place_append (p : Project) (root : Location) (f : String) :
    root <+: p.place root ++ [f] := by
  rw [place]
  split
  · exact List.prefix_append root [f]
  · rw [List.append_assoc]
    exact List.prefix_append root _

end Project

/-! ## Paths -/

namespace Archive

variable {a : Archive} {p : Project} {t s : FileTree}

theorem ledgerPath_eq_join (a : Archive) (p : Project) :
    a.ledgerPath p = (a.projectDir p).join ledgerName := rfl

theorem temporaryPath_eq_join (a : Archive) (p : Project) :
    a.temporaryPath p = (a.projectDir p).join temporaryName :=
  FilePath.withSuffix_join (a.projectDir p) ledgerName ".tmp" (by decide)

theorem asidePath_eq_join (a : Archive) (p : Project) :
    a.asidePath p = (a.projectDir p).join asideName :=
  FilePath.withSuffix_join (a.projectDir p) ledgerName ".corrupt" (by decide)

theorem settingsPath_eq_join (a : Archive) : a.settingsPath = a.root.join settingsName := rfl

theorem projectDir_of_isGlobal (a : Archive) (hp : p.isGlobal = true) : a.projectDir p = a.root := by
  rw [projectDir, if_pos hp]

theorem projectDir_of_not_isGlobal (a : Archive) (hp : p.isGlobal = false) :
    a.projectDir p = a.root.join p.name := by
  rw [projectDir, hp]
  rfl

/-- The path of the directory of a project takes the steps of the results directory, and one further for
a project that is not the global namespace. -/
theorem names_projectDir (a : Archive) (p : Project) :
    (a.projectDir p).names = p.place a.root.names := by
  cases hp : p.isGlobal with
  | true => rw [projectDir_of_isGlobal a hp, Project.place_of_isGlobal hp]
  | false =>
    rw [projectDir_of_not_isGlobal a hp, Project.place_of_not_isGlobal hp,
      FilePath.names_join _ (Project.isComponent_name hp)]

theorem start_projectDir (t : FileTree) (a : Archive) (p : Project) :
    t.start (a.projectDir p) = t.start a.root := by
  cases hp : p.isGlobal with
  | true => rw [projectDir_of_isGlobal a hp]
  | false =>
    rw [projectDir_of_not_isGlobal a hp, start_join t a.root (Project.isComponent_name hp)]

/-- The path of a project leads to its directory in the results directory. -/
theorem leadsTo_projectDir_of_directory {root : Location} (hroot : t.LeadsTo a.root root)
    (hp : p.isGlobal = false) (hshort : p.name.utf8ByteSize ≤ longestName)
    (hdir : t.find? (root ++ [p.name]) = some .directory) :
    t.LeadsTo (a.projectDir p) (root ++ [p.name]) := by
  obtain ⟨left, led⟩ := hroot
  have step : IsStep p.name := ⟨(Project.isComponent_name hp).isName, hshort⟩
  refine ⟨left, ?_⟩
  rw [start_projectDir, names_projectDir, Project.place_of_not_isGlobal hp]
  exact led.append (.down step hdir (.here left _))

/-- There are no links below a location. -/
def HasNoLinksBelow (t : FileTree) (root : Location) : Prop :=
  ∀ loc target, root <+: loc → loc ≠ root → t.find? loc ≠ some (.link target)

/-- Wherever the path of the results directory leads, or would lead if directories were made, there
are no links below. -/
def HasNoLinks (a : Archive) (t : FileTree) : Prop :=
  ∀ root, t.WouldLeadTo a.root root → HasNoLinksBelow t root

theorem HasNoLinks.of_sameLinks (h : a.HasNoLinks t) (hlinks : t.SameLinks s) :
    a.HasNoLinks s := by
  intro root hroot loc target below differs found
  exact h root (hroot.of_sameLinks hlinks) loc target below differs
    ((hlinks.link loc target).mp found)

/-- If the results directory is there, it is the only place to look for links. -/
theorem hasNoLinks_iff {root : Location} (hroot : t.LeadsTo a.root root) :
    a.HasNoLinks t ↔ HasNoLinksBelow t root := by
  constructor
  · intro h
    exact h root hroot.would
  · intro h root' hroot'
    obtain rfl := hroot.eq_of_would hroot'
    exact h

/-- The directory of a project is in the results directory. -/
theorem leadsTo_projectDir {dir : Location} (hlinks : a.HasNoLinks t)
    (h : t.LeadsTo (a.projectDir p) dir) :
    ∃ root, t.LeadsTo a.root root ∧ dir = p.place root := by
  cases hp : p.isGlobal with
  | true =>
    rw [projectDir_of_isGlobal a hp] at h
    exact ⟨dir, h, (Project.place_of_isGlobal hp).symm⟩
  | false =>
    have hname := Project.isComponent_name hp
    obtain ⟨left, led⟩ := h
    rw [start_projectDir, names_projectDir, Project.place_of_not_isGlobal hp] at led
    -- the last step is by the name of the project, and there is no link to be followed at it
    obtain ⟨via, root, front, last⟩ := led.split
    have hroot : t.LeadsTo a.root root := ⟨via, front⟩
    refine ⟨root, hroot, ?_⟩
    rw [Project.place_of_not_isGlobal hp]
    generalize hnames : [p.name] = names at last
    cases last with
    | here => exact absurd hnames (by simp)
    | points goes _ =>
      obtain ⟨rfl, -⟩ := List.cons.inj hnames
      exact absurd ((hname.isName.points? _).symm.trans goes) (by simp)
    | down _ _ last =>
      obtain ⟨rfl, rfl⟩ := List.cons.inj hnames
      cases last
      rfl
    | jump _ hlink _ =>
      obtain ⟨rfl, rfl⟩ := List.cons.inj hnames
      exact absurd hlink
        (hlinks root hroot.would _ _ (List.prefix_append root _) (by simp))

end Archive

end ImageGateway
