import ImageGateway.Proofs.Archive.Places

/-!
# The paths of files

The paths of all files of an archive are made from its results directory, the names of projects and the
numbers of images. No two files have the same path, whatever the results directory is, and no file has
that of the directory of a project (`paths_distinct`). The reason is in the names: a file of a project
has a name that no project has (`isOwnName_name`), and the names of the files of one project tell what
they are for (`name_injective`).
-/

set_option autoImplicit false

namespace ImageGateway

open Storage Storage.FileTree

/-! ## Other endings of names -/

namespace Storage.FilePath

variable {p : FilePath}

/-- The characters of a name before its last point, or all of them if there is none but at the beginning;
given and returned from the end to the front. -/
def stemBack (name : List Char) : List Char :=
  match name.dropWhile (· ≠ '.') with
  | _ :: c :: stem => c :: stem
  | _ => name

/-- The path with something else behind the last point of its last name. A path that does not end in a
name stays as it is. -/
def withExtension (p : FilePath) (extension : String) : FilePath :=
  let back := trimmedBack p.text.toList.reverse
  let name := back.takeWhile (· ≠ '/')
  if name = [] ∨ name = ['.'] ∨ name = ['.', '.'] then p
  else
    let stem := (stemBack name ++ back.dropWhile (· ≠ '/')).reverse
    ⟨String.ofList (if extension = "" then stem else stem ++ '.' :: extension.toList)⟩

/-- A name without slashes is all there is up to the next slash. -/
theorem span_name {name rest : List Char} (noSlash : '/' ∉ name)
    (ends : rest = [] ∨ rest.head? = some '/') :
    (name ++ rest).takeWhile (· ≠ '/') = name ∧ (name ++ rest).dropWhile (· ≠ '/') = rest := by
  have inName : ∀ c ∈ name, decide (c ≠ '/') = true := by
    intro c hc
    exact decide_eq_true fun slash => noSlash (slash ▸ hc)
  rw [List.takeWhile_append_of_pos inName, List.dropWhile_append_of_pos inName]
  rcases ends with rfl | slash
  · exact ⟨List.append_nil name, rfl⟩
  · obtain ⟨rest, rfl⟩ := List.head?_eq_some_iff.mp slash
    exact ⟨List.append_nil name, rfl⟩

/-- What is behind the last point does not belong to the stem. -/
theorem stemBack_append {ending stem : List Char} (noPoint : '.' ∉ ending) (filled : stem ≠ []) :
    stemBack (ending ++ '.' :: stem) = stem := by
  have inEnding : ∀ c ∈ ending, decide (c ≠ '.') = true := by
    intro c hc
    exact decide_eq_true fun point => noPoint (point ▸ hc)
  obtain ⟨c, stem, rfl⟩ := List.exists_cons_of_ne_nil filled
  rw [stemBack, List.dropWhile_append_of_pos inEnding]
  rfl

/-- Nothing is trimmed off a path that ends in characters of a name other than points. -/
theorem trimmedBack_append {ending : List Char} (rest : List Char) (filled : ending ≠ [])
    (noSlash : '/' ∉ ending) (noPoint : '.' ∉ ending) :
    trimmedBack (ending ++ rest) = ending ++ rest := by
  obtain ⟨c, cs, rfl⟩ := List.exists_cons_of_ne_nil filled
  apply trimmedBack.eq_3
  · intro more same
    obtain ⟨rfl, -⟩ := List.cons.inj same
    exact noSlash List.mem_cons_self
  · intro more same
    obtain ⟨rfl, -⟩ := List.cons.inj same
    exact noPoint List.mem_cons_self

/-- In front of the last point of the last name, the path stays as it is. -/
theorem withExtension_of_back {name rest : List Char} {extension : String}
    (back : trimmedBack p.text.toList.reverse = name ++ rest) (noSlash : '/' ∉ name)
    (ends : rest = [] ∨ rest.head? = some '/') (long : 2 < name.length) (filled : extension ≠ "") :
    p.withExtension extension
      = ⟨String.ofList ((stemBack name ++ rest).reverse ++ '.' :: extension.toList)⟩ := by
  obtain ⟨taken, left⟩ := span_name noSlash ends
  have named : ¬ (name = [] ∨ name = ['.'] ∨ name = ['.', '.']) := by
    rintro (rfl | rfl | rfl) <;> exact absurd long (by decide)
  simp only [withExtension]
  rw [back, taken, left, if_neg named, if_neg filled]

/-- An ending without a further point in it is replaced as a whole. -/
theorem withExtension_withSuffix {stem ending other : String} (hstem : IsComponent stem)
    (filled : ending.toList ≠ []) (noSlash : '/' ∉ ending.toList) (noPoint : '.' ∉ ending.toList)
    (hother : other ≠ "") :
    ((p.join stem).withSuffix ("." ++ ending)).withExtension other
      = (p.join stem).withSuffix ("." ++ other) := by
  obtain ⟨front, text, ends, -⟩ := text_join p hstem
  -- seen from its end, the path is the ending, a point, the stem, and what is in front of the name
  have spelled : ((p.join stem).withSuffix ("." ++ ending)).text.toList.reverse
      = ending.toList.reverse ++ ('.' :: stem.toList.reverse ++ front.reverse) := by
    rw [withSuffix, String.toList_append, String.toList_append, text]
    simp
  have back : trimmedBack ((p.join stem).withSuffix ("." ++ ending)).text.toList.reverse
      = (ending.toList.reverse ++ '.' :: stem.toList.reverse) ++ front.reverse := by
    rw [spelled, trimmedBack_append _ (mt List.reverse_eq_nil_iff.mp filled)
      (by simpa using noSlash) (by simpa using noPoint), List.append_assoc]
  have name : '/' ∉ ending.toList.reverse ++ '.' :: stem.toList.reverse := by
    simp [noSlash, hstem.noSlash]
  have behind : front.reverse = [] ∨ front.reverse.head? = some '/' := by
    rw [List.head?_reverse, List.reverse_eq_nil_iff]
    exact ends
  have long : 2 < (ending.toList.reverse ++ '.' :: stem.toList.reverse).length := by
    have some := List.length_pos_iff.mpr filled
    have others := List.length_pos_iff.mpr hstem.notEmpty
    rw [List.length_append, List.length_cons, List.length_reverse, List.length_reverse]
    omega
  rw [withExtension_of_back back name behind long hother,
    stemBack_append (by simpa using noPoint) (mt List.reverse_eq_nil_iff.mp hstem.notEmpty)]
  refine congrArg FilePath.mk (String.toList_inj.mp ?_)
  rw [String.toList_ofList, String.toList_append, String.toList_append, text, List.reverse_append,
    List.reverse_reverse, List.reverse_reverse]
  rfl

end Storage.FilePath

/-! ## The kinds of files -/

/-- What a file of a project is for. -/
inductive FileKind where
  | ledger
  | temporary
  | aside
  | image (id : RecordId)
  deriving DecidableEq

namespace FileKind

/-- The name of a file of this kind. -/
def name : FileKind → String
  | ledger => ledgerName
  | temporary => temporaryName
  | aside => asideName
  | image id => Record.imageFileName id

theorem isOwnName_name (kind : FileKind) : IsOwnName kind.name := by
  cases kind with
  | ledger => exact .inl rfl
  | temporary => exact .inr (.inl rfl)
  | aside => exact .inr (.inr (.inl rfl))
  | image id => exact .inr (.inr (.inr (isImageFileName_imageFileName id)))

/-- Only images have the names of images. -/
theorem isImageFileName_name_iff (kind : FileKind) :
    Archive.isImageFileName kind.name = true ↔ ∃ id, kind = image id := by
  obtain ⟨ledger, temporary, aside, -⟩ := isImageFileName_eq_false
  cases kind with
  | ledger => simp [name, ledger]
  | temporary => simp [name, temporary]
  | aside => simp [name, aside]
  | image id => simp [name, isImageFileName_imageFileName]

/-- The name of a file tells what it is for. -/
theorem name_injective {kind other : FileKind} (same : kind.name = other.name) : kind = other := by
  have images := isImageFileName_name_iff kind
  rw [same, isImageFileName_name_iff other] at images
  -- a number tells an image, and no two of the other names are the same
  cases kind with
  | image i =>
    obtain ⟨j, rfl⟩ := images.mpr ⟨i, rfl⟩
    rw [imageFileName_injective same]
  | ledger =>
    cases other with
    | ledger => rfl
    | image j => exact absurd (images.mp ⟨j, rfl⟩) (by simp)
    | temporary => exact absurd same (by decide)
    | aside => exact absurd same (by decide)
  | temporary =>
    cases other with
    | temporary => rfl
    | image j => exact absurd (images.mp ⟨j, rfl⟩) (by simp)
    | ledger => exact absurd same (by decide)
    | aside => exact absurd same (by decide)
  | aside =>
    cases other with
    | aside => rfl
    | image j => exact absurd (images.mp ⟨j, rfl⟩) (by simp)
    | ledger => exact absurd same (by decide)
    | temporary => exact absurd same (by decide)

end FileKind

/-! ## Files and their paths -/

namespace Archive

variable (a : Archive) (p : Project)

/-- The path of a file of a project. -/
def filePath : FileKind → FilePath
  | .ledger => a.ledgerPath p
  | .temporary => a.temporaryPath p
  | .aside => a.asidePath p
  | .image id => a.imagePath p id

/-- The files beside the ledger have its path with other endings. -/
theorem withExtension_ledgerPath (suffix : String) :
    (a.ledgerPath p).withExtension ("json" ++ suffix) = (a.ledgerPath p).withSuffix suffix := by
  have stem : FilePath.IsComponent "history" := by decide
  have ledger : a.ledgerPath p = ((a.projectDir p).join "history").withSuffix ("." ++ "json") :=
    (FilePath.withSuffix_join (a.projectDir p) "history" ".json" (by decide)).symm
  have filled : "json" ++ suffix ≠ "" := by
    intro none
    exact absurd (congrArg String.toList none) (by simp)
  rw [ledger, FilePath.withExtension_withSuffix stem (by decide) (by decide) (by decide) filled]
  simp only [FilePath.withSuffix, String.append_assoc]

theorem filePath_eq_join (kind : FileKind) : a.filePath p kind = (a.projectDir p).join kind.name := by
  cases kind with
  | ledger => rfl
  | temporary => exact temporaryPath_eq_join a p
  | aside => exact asidePath_eq_join a p
  | image id => rfl

theorem names_filePath (kind : FileKind) :
    (a.filePath p kind).names = p.place a.root.names ++ [kind.name] := by
  have component := isComponent_of_isOwnName kind.isOwnName_name
  rw [filePath_eq_join, FilePath.names_join _ component, names_projectDir]

theorem names_settingsPath : a.settingsPath.names = a.root.names ++ [settingsName] := by
  rw [settingsPath_eq_join, FilePath.names_join _ isComponent_settingsName]

end Archive

/-- The files of an archive: those of the projects, and the settings. -/
inductive StoredFile where
  | ofProject (p : Project) (kind : FileKind)
  | settings
  deriving DecidableEq

namespace StoredFile

/-- The path of a file. -/
def path (a : Archive) : StoredFile → FilePath
  | ofProject p kind => a.filePath p kind
  | settings => a.settingsPath

/-- The paths of two files take the same steps only if they are the same file. -/
theorem names_path_injective (a : Archive) {f g : StoredFile}
    (same : (f.path a).names = (g.path a).names) : f = g := by
  cases f with
  | ofProject p kind =>
    have names := a.names_filePath p kind
    cases g with
    | ofProject q other =>
      have names' := a.names_filePath q other
      have steps := (names.symm.trans same).trans names'
      -- the step before the last tells the project, and the last one the kind
      by_cases project : p = q
      · obtain ⟨-, last⟩ := List.append_inj' steps rfl
        rw [project, FileKind.name_injective (List.singleton_inj.mp last)]
      · exact absurd steps (Project.place_append_ne project a.root.names _ _)
    | settings =>
      have steps := (names.symm.trans same).trans a.names_settingsPath
      exact absurd steps (Project.place_append_ne_settings kind.isOwnName_name p a.root.names)
  | settings =>
    cases g with
    | ofProject q other =>
      have steps := ((a.names_filePath q other).symm.trans same.symm).trans a.names_settingsPath
      exact absurd steps (Project.place_append_ne_settings other.isOwnName_name q a.root.names)
    | settings => rfl

/-- The directory of a project is not where a file should be. -/
theorem names_projectDir_ne (a : Archive) {q : Project} (hq : q.isGlobal = false) (f : StoredFile) :
    (a.projectDir q).names ≠ (f.path a).names := by
  rw [Archive.names_projectDir]
  cases f with
  | ofProject p kind =>
    intro same
    have steps := (a.names_filePath p kind).symm.trans same.symm
    exact Project.place_append_ne_place kind.isOwnName_name p q a.root.names steps
  | settings =>
    intro same
    rw [Project.place_of_not_isGlobal hq] at same
    obtain ⟨-, last⟩ := List.append_inj' (same.trans a.names_settingsPath) rfl
    exact q.name_ne_settingsName (List.singleton_inj.mp last)

end StoredFile

/-- **No two files of an archive have the same path.** Whatever the results directory is, the paths of
two files are the same only if they are files of the same kind of the same project, with the same number
if they are images: they do not even take the same steps, so that more slashes or lone points in them
make no difference. The directory of a project that is not the global namespace has none of these paths.
The files beside a ledger are named after it, with other endings. -/
theorem paths_distinct (a : Archive) :
    (∀ f g : StoredFile, (f.path a).names = (g.path a).names ↔ f = g) ∧
    (∀ (q : Project) (f : StoredFile), q.isGlobal = false →
      (a.projectDir q).names ≠ (f.path a).names) ∧
    ∀ p : Project, a.temporaryPath p = (a.ledgerPath p).withExtension "json.tmp" ∧
      a.asidePath p = (a.ledgerPath p).withExtension "json.corrupt" := by
  refine ⟨?_, ?_, ?_⟩
  · intro f g
    constructor
    · exact StoredFile.names_path_injective a
    · rintro rfl
      rfl
  · intro q f hq
    exact StoredFile.names_projectDir_ne a hq f
  · intro p
    constructor
    · exact (a.withExtension_ledgerPath p ".tmp").symm
    · exact (a.withExtension_ledgerPath p ".corrupt").symm

/-- A results directory whose path has more slashes than it needs, and a project whose directory is nearly
named like an image of the global namespace. -/
def slashedData : Archive := ⟨⟨"data/.//"⟩⟩
def sevenInCapitals : Project := ⟨"00007.PNG", by decide⟩

theorem paths_distinct_slashedData :
    ((StoredFile.ofProject sevenInCapitals (.image 7)).path slashedData).names
      ≠ ((StoredFile.ofProject .global (.image 7)).path slashedData).names ∧
    (sevenInCapitals.isGlobal = false ∧
      (slashedData.projectDir sevenInCapitals).names
        ≠ ((StoredFile.ofProject .global (.image 7)).path slashedData).names) ∧
    slashedData.temporaryPath sevenInCapitals
      = (slashedData.ledgerPath sevenInCapitals).withExtension "json.tmp" := by
  obtain ⟨files, directories, beside⟩ := paths_distinct slashedData
  refine ⟨?_, ⟨rfl, directories _ _ rfl⟩, (beside sevenInCapitals).1⟩
  intro same
  exact absurd ((files _ _).mp same) (by decide)

end ImageGateway
