import ImageGateway.Proofs.Archive.FailedDeletions
import ImageGateway.Proofs.Archive.ListedImages
import ImageGateway.Proofs.Archive.SetAside

/-!
# What clearing a project removes

Clearing a project removes its three documents and as many images as it says: those of the records
that the ledger lists, all of them if it cannot be read, and none if there is no ledger. Nothing else
is different afterwards (`clear_wipes_own_history`). Removing goes by paths, so that all of this is
said of the directory that the path of the project leads to before and after it.
-/

set_option autoImplicit false

namespace ImageGateway.Archive

open Storage Storage.FileTree

variable {a : Archive} {p : Project} {t s u : FileTree} {dir loc : Location} {name : String}
  {records : List Record} {gone gone' : Location → Prop} {n : Nat}

/-! ## Counting and losing -/

/-- So many things have a property: they can be listed, each once. -/
def Counts {α : Type} (P : α → Prop) (n : Nat) : Prop :=
  ∃ xs : List α, xs.Nodup ∧ (∀ x, x ∈ xs ↔ P x) ∧ n = xs.length

theorem Counts.congr {α : Type} {P Q : α → Prop} (h : Counts P n) (hsame : ∀ x, P x ↔ Q x) :
    Counts Q n := by
  obtain ⟨xs, distinct, mem, size⟩ := h
  exact ⟨xs, distinct, fun x => (mem x).trans (hsame x), size⟩

theorem Counts.eq_zero {α : Type} {P : α → Prop} (h : Counts P n) (hnone : ∀ x, ¬ P x) : n = 0 := by
  obtain ⟨xs, -, mem, rfl⟩ := h
  exact List.length_eq_zero_iff.mpr
    (List.eq_nil_iff_forall_not_mem.mpr fun x listed => hnone x ((mem x).mp listed))

theorem counts_zero {α : Type} {P : α → Prop} (h : ∀ x, ¬ P x) : Counts P 0 :=
  ⟨[], List.nodup_nil, fun x => iff_of_false List.not_mem_nil (h x), rfl⟩

/-- One more thing is counted with the others. -/
theorem Counts.cons {α : Type} {P Q : α → Prop} {x : α} (h : Counts P n) (hx : ¬ P x)
    (hsame : ∀ y, Q y ↔ y = x ∨ P y) : Counts Q (n + 1) := by
  obtain ⟨xs, distinct, mem, rfl⟩ := h
  refine ⟨x :: xs, List.nodup_cons.mpr ⟨fun listed => hx ((mem x).mp listed), distinct⟩,
    fun y => ?_, rfl⟩
  rw [List.mem_cons, mem, hsame]

/-- Nothing is at some locations any more, and everything else is as it was. -/
structure Loses (gone : Location → Prop) (t s : FileTree) : Prop where
  working : s.workingDirectory = t.workingDirectory
  lost : ∀ loc, gone loc → s.find? loc = none
  elsewhere : ∀ loc, ¬ gone loc → s.find? loc = t.find? loc

namespace Loses

theorem refl (t : FileTree) : Loses (fun _ => False) t t :=
  ⟨rfl, fun _ never => never.elim, fun _ _ => rfl⟩

theorem congr (h : Loses gone t s) (hsame : ∀ loc, gone loc ↔ gone' loc) : Loses gone' t s :=
  ⟨h.working, fun loc here => h.lost loc ((hsame loc).mpr here),
    fun loc free => h.elsewhere loc (mt (hsame loc).mp free)⟩

theorem trans (h : Loses gone t s) (h' : Loses gone' s u) :
    Loses (fun loc => gone loc ∨ gone' loc) t u := by
  refine ⟨h'.working.trans h.working, fun loc here => ?_, fun loc free => ?_⟩
  · by_cases later : gone' loc
    · exact h'.lost loc later
    · rw [h'.elsewhere loc later]
      exact h.lost loc (here.resolve_right later)
  · obtain ⟨first, later⟩ := not_or.mp free
    rw [h'.elsewhere loc later, h.elsewhere loc first]

theorem of_setAt (h : t.SetAt loc none s) : Loses (· = loc) t s :=
  ⟨h.working, fun _ here => here ▸ h.here, h.elsewhere⟩

end Loses

/-! ## Removing files of a directory -/

/-- There is a file or a link of a name in a directory, and a path that can be walked along to it. -/
theorem hasFile_join_iff (hled : t.LeadsTo (a.projectDir p) dir)
    (hname : FilePath.IsComponent name) :
    t.HasFile ((a.projectDir p).join name) ↔
      Walkable ((a.projectDir p).join name) ∧ name.utf8ByteSize ≤ longestName ∧
        ∃ entry, t.find? (dir ++ [name]) = some entry ∧ entry ≠ .directory := by
  constructor
  · rintro ⟨entry, there, notDir⟩
    obtain ⟨loc, located, found⟩ := statLink_eq_ok there
    obtain ⟨walkable, -⟩ := walk_of_locateNames located
    obtain ⟨left, walked⟩ := hled.walk_join hname walkable
    rw [walked] at located
    have short := short_of_walk hname.isName located
    obtain rfl := eq_of_walk_one_false hname.isName located
    exact ⟨walkable, short, entry, found, notDir⟩
  · rintro ⟨walkable, short, entry, found, notDir⟩
    exact ⟨entry, by rw [statLink_join hled hname walkable short, found], notDir⟩

/-- What is removed by its path is what is in the directory. -/
theorem setAt_of_removeFile (hled : t.LeadsTo (a.projectDir p) dir)
    (hname : FilePath.IsComponent name)
    (h : t.removeFile ((a.projectDir p).join name) = .ok s) : t.SetAt (dir ++ [name]) none s := by
  obtain ⟨loc, located, -, -, removed⟩ := removeFile_eq_ok h
  obtain ⟨dir', left, led, last⟩ := locate_join hname located
  obtain rfl := eq_of_walk_one_false hname.isName last
  obtain rfl : dir = dir' := led.unique hled (.refl t)
  exact removed

/-- After a file has been removed the others are left. -/
theorem hasFile_of_setAt {other : String} (hled : t.LeadsTo (a.projectDir p) dir)
    (hled' : s.LeadsTo (a.projectDir p) dir) (hother : FilePath.IsComponent other)
    (h : t.SetAt (dir ++ [name]) none s) :
    s.HasFile ((a.projectDir p).join other) ↔
      other ≠ name ∧ t.HasFile ((a.projectDir p).join other) := by
  rw [hasFile_join_iff hled' hother, hasFile_join_iff hled hother]
  by_cases same : other = name
  · subst same
    rw [h.here]
    simp
  · have elsewhere : dir ++ [other] ≠ dir ++ [name] :=
      fun here => same (List.singleton_inj.mp (List.append_cancel_left here))
    rw [h.elsewhere _ elsewhere]
    simp [same]

/-- A file that is tried to be removed was not there, or has been removed. -/
theorem tryRemove_eq_ok {path : FilePath} {removed : Bool}
    (h : Disk.tryRemove path t = .ok removed s) :
    removed = false ∧ s = t ∧ ¬ t.HasFile path ∨ removed = true ∧ t.removeFile path = .ok s := by
  rw [Disk.tryRemove] at h
  cases tried : t.removeFile path with
  | error fault =>
    rw [tried] at h
    obtain ⟨rfl, rfl⟩ := EStateM.Result.ok.inj h
    refine .inl ⟨rfl, rfl, fun there => ?_⟩
    obtain ⟨u, ok⟩ := hasFile_iff.mp there
    exact absurd (tried.symm.trans ok) (by simp)
  | ok u =>
    rw [tried] at h
    obtain ⟨rfl, rfl⟩ := EStateM.Result.ok.inj h
    exact .inr ⟨rfl, rfl⟩

/-- Of some files of a directory those go that are there, and each is counted once. The directory must
still be where the path leads to afterwards. -/
theorem loses_of_removeCounting {α : Type} {f : α → String} {xs : List α}
    (hf : Function.Injective f) (hnames : ∀ x ∈ xs, FilePath.IsComponent (f x))
    (hrun : removeCounting (xs.map fun x => (a.projectDir p).join (f x)) t = .ok n s)
    (hled : t.LeadsTo (a.projectDir p) dir) (hled' : s.LeadsTo (a.projectDir p) dir) :
    Loses (fun loc => ∃ x, (x ∈ xs ∧ t.HasFile ((a.projectDir p).join (f x))) ∧
        loc = dir ++ [f x]) t s ∧
      Counts (fun x => x ∈ xs ∧ t.HasFile ((a.projectDir p).join (f x))) n := by
  -- what is there is said of the tree that the loop has come to, and so of every one on the way
  induction xs generalizing t n with
  | nil =>
    obtain ⟨rfl, rfl⟩ := EStateM.Result.ok.inj hrun
    exact ⟨(Loses.refl t).congr (by simp), counts_zero (by simp)⟩
  | cons x xs ih =>
    obtain ⟨hname, hrest⟩ := List.forall_mem_cons.mp hnames
    rw [List.map_cons, removeCounting] at hrun
    obtain ⟨removed, w, first, rest⟩ := ok_of_run_bind hrun
    obtain ⟨more, v, others, returned⟩ := ok_of_run_bind rest
    obtain ⟨rfl, rfl⟩ := EStateM.Result.ok.inj returned
    rcases tryRemove_eq_ok first with ⟨rfl, rfl, missing⟩ | ⟨rfl, tried⟩
    · -- nothing was removed, and what is there is among the others
      have same : ∀ y, (y ∈ xs ∧ w.HasFile ((a.projectDir p).join (f y))) ↔
          y ∈ x :: xs ∧ w.HasFile ((a.projectDir p).join (f y)) := fun y => by
        refine and_congr_left fun there => ?_
        rw [List.mem_cons, or_iff_right]
        rintro rfl
        exact missing there
      obtain ⟨loses, counts⟩ := ih hrest others hled
      exact ⟨loses.congr fun loc => exists_congr fun y => and_congr_left fun _ => same y,
        counts.congr same⟩
    · have there := hasFile_iff.mpr ⟨w, tried⟩
      have put := setAt_of_removeFile hled hname tried
      have erases := erases_removeCounting (xs.map fun x => (a.projectDir p).join (f x)) w
      rw [treeAfter, others] at erases
      have ledThen := erases.leadsTo hled'
      -- the others are still there, and this one is not counted again where it is listed again
      have still : ∀ y, (y ∈ xs ∧ w.HasFile ((a.projectDir p).join (f y))) ↔
          y ≠ x ∧ y ∈ xs ∧ t.HasFile ((a.projectDir p).join (f y)) := fun y => by
        rw [and_left_comm]
        refine and_congr_right fun listed => ?_
        rw [hasFile_of_setAt hled ledThen (hrest y listed) put, hf.ne_iff]
      have all : ∀ y, (y ∈ x :: xs ∧ t.HasFile ((a.projectDir p).join (f y))) ↔
          y = x ∨ y ∈ xs ∧ w.HasFile ((a.projectDir p).join (f y)) := fun y => by
        rw [still, List.mem_cons]
        by_cases same : y = x
        · simp [same, there]
        · simp [same]
      obtain ⟨loses, counts⟩ := ih hrest others ledThen
      refine ⟨((Loses.of_setAt put).trans loses).congr fun loc => ?_,
        counts.cons (x := x) (fun again => ((still x).mp again).1 rfl) all⟩
      simp only [all, or_and_right, exists_or, exists_eq_left]

/-- Where a file was removed or missing, there is a path to walk along. -/
theorem walkable_of_removeIfPresent {x : Unit} (hname : FilePath.IsComponent name)
    (hrun : Disk.removeIfPresent ((a.projectDir p).join name) t = .ok x s) :
    Walkable ((a.projectDir p).join name) := by
  by_contra long
  obtain ⟨e, failed⟩ := removeIfPresent_of_not_walkable (a := a) (p := p) hname long
  exact absurd (hrun.symm.trans (failed t)) (by simp)

/-- A document of the project is removed, or was missing. -/
theorem loses_of_removeIfPresent (hname : FilePath.IsComponent name)
    (hshort : name.utf8ByteSize ≤ longestName) (hled : t.LeadsTo (a.projectDir p) dir)
    (hrun : Disk.removeIfPresent ((a.projectDir p).join name) t = .ok () s) :
    Loses (· = dir ++ [name]) t s := by
  rcases removeIfPresent_eq_ok hrun with removed | ⟨missing, rfl⟩
  · exact .of_setAt (setAt_of_removeFile hled hname removed)
  · have nothing := statLink_of_removeFile_notFound missing
    rw [statLink_join hled hname (walkable_of_removeIfPresent hname hrun) hshort] at nothing
    cases found : s.find? (dir ++ [name]) with
    | some entry => simp [found] at nothing
    | none => exact ⟨rfl, fun loc here => here ▸ found, fun _ _ => rfl⟩

/-! ## Clearing a project -/

/-- Five or more digits with the ending of images. -/
def IsNumbered (name : String) : Prop :=
  ∃ digits : List Char, name.toList = digits ++ ".png".toList ∧ 5 ≤ digits.length ∧
    digits.all Char.isDigit = true

/-- The images that clearing a project removes, by their names. All images are found by listing the
directory, which cannot be done by an empty path. -/
def IsWiped (a : Archive) (p : Project) (t : FileTree) : LedgerState → String → Prop
  | .absent, _ => False
  | .present records, name =>
    name ∈ records.map (fun r => Record.imageFileName r.id) ∧ t.HasFile ((a.projectDir p).join name)
  | .unreadable, name =>
    (a.projectDir p).text ≠ "" ∧ IsNumbered name ∧ t.HasFile ((a.projectDir p).join name)

/-- How many images clearing a project tells that it has removed: for a ledger that can be read, the
numbers listed there that have an image. -/
def CountsWiped (a : Archive) (p : Project) (t : FileTree) (n : Nat) : LedgerState → Prop
  | .absent => n = 0
  | .present records =>
    Counts (fun id => id ∈ records.map Record.id ∧ t.HasFile (a.imagePath p id)) n
  | .unreadable => Counts (a.IsWiped p t .unreadable) n

theorem isComponent_imageFileName (id : RecordId) :
    FilePath.IsComponent (Record.imageFileName id) :=
  isComponent_of_isImageFileName (isImage_imageFileName id)

/-- What is there to be removed in a directory is listed there. -/
theorem mem_namesIn_of_hasFile (hled : t.LeadsTo (a.projectDir p) dir)
    (hname : FilePath.IsComponent name) (h : t.HasFile ((a.projectDir p).join name)) :
    name ∈ t.namesIn dir := by
  obtain ⟨-, -, entry, found, -⟩ := (hasFile_join_iff hled hname).mp h
  exact mem_namesIn.mpr (by simp [found])

/-- Without a ledger that can be read, the images to be removed are those that are listed. -/
theorem isWiped_unreadable_iff (hled : t.LeadsTo (a.projectDir p) dir)
    (hwalk : Walkable (a.projectDir p)) :
    a.IsWiped p t .unreadable name ↔
      name ∈ (t.namesIn dir).filter isImageFileName ∧ t.HasFile ((a.projectDir p).join name) := by
  constructor
  · rintro ⟨-, numbered, there⟩
    have image : IsImage name := isImageFileName_iff.mpr numbered
    have listed := mem_namesIn_of_hasFile hled (isComponent_of_isImageFileName image) there
    exact ⟨List.mem_filter.mpr ⟨listed, image⟩, there⟩
  · rintro ⟨listed, there⟩
    have notEmpty : (a.projectDir p).text ≠ "" := fun empty => by
      simpa [empty] using hwalk.notEmpty
    exact ⟨notEmpty, isImageFileName_iff.mp (List.mem_filter.mp listed).2, there⟩

/-- Removing all images removes those that are there, unless the directory cannot be listed. -/
theorem loses_of_removeAllImages (hs : t.IsSound) (hled : t.LeadsTo (a.projectDir p) dir)
    (hled' : s.LeadsTo (a.projectDir p) dir) (hroom : Walkable (a.temporaryPath p))
    (hrun : a.removeAllImages p t = .ok n s) :
    Loses (fun loc => ∃ name, a.IsWiped p t .unreadable name ∧ loc = dir ++ [name]) t s ∧
      Counts (a.IsWiped p t .unreadable) n := by
  rw [temporaryPath_eq_join] at hroom
  rw [removeAllImages] at hrun
  rcases walkable_of_join isComponent_temporaryName hroom with walkable | empty
  · have listed : t.list (a.projectDir p) = .ok (t.namesIn dir) := by
      rw [list_of_locate (hled.locate walkable), hled.isDirectory hs]
    have images : ∀ name ∈ (t.namesIn dir).filter isImageFileName, FilePath.IsComponent name :=
      fun name listed => isComponent_of_isImageFileName (List.mem_filter.mp listed).2
    have wiped (name : String) : name ∈ (t.namesIn dir).filter isImageFileName ∧
        t.HasFile ((a.projectDir p).join name) ↔ a.IsWiped p t .unreadable name :=
      (isWiped_unreadable_iff hled walkable).symm
    rw [listed] at hrun
    obtain ⟨loses, counts⟩ :=
      loses_of_removeCounting (f := id) Function.injective_id images hrun hled hled'
    exact ⟨loses.congr fun loc => exists_congr fun name => and_congr_left fun _ => wiped name,
      counts.congr wiped⟩
  · -- an empty path leads to no directory that could be listed
    have notWalkable : ¬ Walkable (a.projectDir p) := fun walkable => by
      simpa [empty] using walkable.notEmpty
    obtain ⟨fault, failed⟩ := locateNames_error notWalkable
    rw [list_of_locate_error (failed t true _)] at hrun
    obtain ⟨rfl, rfl⟩ := EStateM.Result.ok.inj hrun
    have none : ∀ name, ¬ a.IsWiped p t .unreadable name := fun name wiped => wiped.1 empty
    exact ⟨(Loses.refl t).congr (by simp [none]), counts_zero none⟩

/-- The images go that the state of the ledger says, and no others. -/
theorem loses_of_removeListedImages {state : LedgerState} (hs : t.IsSound)
    (hled : t.LeadsTo (a.projectDir p) dir) (hled' : s.LeadsTo (a.projectDir p) dir)
    (hroom : Walkable (a.temporaryPath p)) (hrun : a.removeListedImages p state t = .ok n s) :
    Loses (fun loc => ∃ name, a.IsWiped p t state name ∧ loc = dir ++ [name]) t s ∧
      a.CountsWiped p t n state := by
  cases state with
  | absent =>
    obtain ⟨rfl, rfl⟩ := EStateM.Result.ok.inj hrun
    exact ⟨(Loses.refl t).congr (by simp [IsWiped]), rfl⟩
  | unreadable => exact loses_of_removeAllImages hs hled hled' hroom hrun
  | present records =>
    have paths : records.map (fun r => a.imagePath p r.id)
        = (records.map Record.id).map fun id => (a.projectDir p).join (Record.imageFileName id) := by
      simp only [List.map_map, Function.comp_def, imagePath]
    rw [removeListedImages, paths] at hrun
    obtain ⟨loses, counts⟩ := loses_of_removeCounting (fun _ _ => imageFileName_injective)
      (fun id _ => isComponent_imageFileName id) hrun hled hled'
    refine ⟨loses.congr fun loc => ?_, counts⟩
    constructor
    · rintro ⟨id, ⟨listed, there⟩, rfl⟩
      obtain ⟨r, hr, rfl⟩ := List.mem_map.mp listed
      exact ⟨_, ⟨List.mem_map.mpr ⟨r, hr, rfl⟩, there⟩, rfl⟩
    · rintro ⟨name, ⟨listed, there⟩, rfl⟩
      obtain ⟨r, hr, rfl⟩ := List.mem_map.mp listed
      exact ⟨r.id, ⟨List.mem_map.mpr ⟨r, hr, rfl⟩, there⟩, rfl⟩

/-- Clearing a project comes by these trees: the images are removed first, then the files beside the
ledger and at last the ledger, which was a file or missing. -/
theorem clear_eq_ok (hrun : a.clear p t = .ok n s) :
    ((∃ content, t.statLink (a.ledgerPath p) = .ok (.file content)) ∨
      t.statLink (a.ledgerPath p) = .error .notFound) ∧
    ∃ u v w, a.removeListedImages p (a.load p t) t = .ok n u ∧
      Disk.removeIfPresent (a.temporaryPath p) u = .ok () v ∧
      Disk.removeIfPresent (a.asidePath p) v = .ok () w ∧
      Disk.removeIfPresent (a.ledgerPath p) w = .ok () s := by
  -- nothing is removed unless the ledger is a file or missing
  obtain ⟨there, looked, found⟩ : ∃ there, a.ledgerIsThere p t = .ok there t ∧
      ((∃ content, t.statLink (a.ledgerPath p) = .ok (.file content)) ∨
        t.statLink (a.ledgerPath p) = .error .notFound) := by
    rcases a.ledgerIsThere_cases p t with ⟨content, found, run⟩ | ⟨missing, run⟩ | ⟨e, run⟩
    · exact ⟨_, run, .inl ⟨content, found⟩⟩
    · exact ⟨_, run, .inr missing⟩
    · rw [clear_eq, run_bind_of_error run] at hrun
      exact absurd hrun (by simp)
  rw [clear_of_ledgerIsThere looked] at hrun
  obtain ⟨removed, w, beside, hrun⟩ := ok_of_run_bind hrun
  obtain ⟨_, s', ledger, returned⟩ := ok_of_run_bind hrun
  obtain ⟨rfl, rfl⟩ := EStateM.Result.ok.inj returned
  obtain ⟨counted, u, images, beside⟩ := ok_of_run_bind beside
  obtain ⟨_, v, temporary, beside⟩ := ok_of_run_bind beside
  obtain ⟨_, w', aside, returned⟩ := ok_of_run_bind beside
  obtain ⟨rfl, rfl⟩ := EStateM.Result.ok.inj returned
  exact ⟨found, u, v, w', images, temporary, aside, ledger⟩

/-- Where nothing is at the path of the ledger, there is no ledger. -/
theorem load_of_statLink_notFound (h : t.statLink (a.ledgerPath p) = .error .notFound) :
    a.load p t = .absent :=
  load_eq_absent (readFile_of_statLink_notFound h)

theorem erases_of_removeIfPresent {path : FilePath} {x : Unit}
    (h : Disk.removeIfPresent path t = .ok x s) : t.Erases (t.IsThere path) s := by
  have erases := erases_removeIfPresent path t
  rwa [treeAfter, h] at erases

/-- After a project has been cleared nothing is at the paths of its documents. -/
theorem statLink_of_clear (hrun : a.clear p t = .ok n s) (hname : IsDocument name) :
    s.statLink ((a.projectDir p).join name) = .error .notFound := by
  obtain ⟨-, u, v, w, -, temporary, aside, ledger⟩ := clear_eq_ok hrun
  -- what has been removed stays missing when more is removed
  rcases hname with rfl | rfl | rfl
  · rw [← ledgerPath_eq_join]
    exact statLink_of_removeIfPresent ledger
  · rw [← temporaryPath_eq_join]
    exact (erases_of_removeIfPresent ledger).statLink_notFound
      ((erases_of_removeIfPresent aside).statLink_notFound (statLink_of_removeIfPresent temporary))
  · rw [← asidePath_eq_join]
    exact (erases_of_removeIfPresent ledger).statLink_notFound (statLink_of_removeIfPresent aside)

/-- Nothing is removed from a directory that is not there. -/
theorem eq_of_removeIfPresent_nowhere {x : Unit} (hname : FilePath.IsComponent name)
    (hmissing : ∀ dir, ¬ t.LeadsTo (a.projectDir p) dir)
    (hrun : Disk.removeIfPresent ((a.projectDir p).join name) t = .ok x s) : s = t := by
  rcases removeIfPresent_eq_ok hrun with removed | ⟨-, same⟩
  · obtain ⟨loc, located, -⟩ := removeFile_eq_ok removed
    obtain ⟨dir, -, led, -⟩ := locate_join hname located
    exact absurd led (hmissing dir)
  · exact same

/-- A project without a directory has nothing to be cleared. -/
theorem clear_nowhere (hmissing : ∀ dir, ¬ t.LeadsTo (a.projectDir p) dir)
    (hrun : a.clear p t = .ok n s) : n = 0 ∧ s = t := by
  obtain ⟨ledgerThere, u, v, w, images, temporary, aside, ledger⟩ := clear_eq_ok hrun
  -- a ledger would be in the directory of the project
  have absent : a.load p t = .absent := by
    rcases ledgerThere with ⟨content, file⟩ | missing
    · rw [ledgerPath_eq_join] at file
      obtain ⟨dir, led, -⟩ := leadsTo_of_statLink isComponent_ledgerName file
      exact absurd led (hmissing dir)
    · exact load_of_statLink_notFound missing
  rw [absent] at images
  obtain ⟨rfl, rfl⟩ := EStateM.Result.ok.inj images
  rw [temporaryPath_eq_join] at temporary
  obtain rfl := eq_of_removeIfPresent_nowhere isComponent_temporaryName hmissing temporary
  rw [asidePath_eq_join] at aside
  obtain rfl := eq_of_removeIfPresent_nowhere isComponent_asideName hmissing aside
  rw [ledgerPath_eq_join] at ledger
  exact ⟨rfl, eq_of_removeIfPresent_nowhere isComponent_ledgerName hmissing ledger⟩

theorem erases_of_clear (hrun : a.clear p t = .ok n s) : t.Erases (fun _ => True) s := by
  have erases := erases_clear a p t
  rwa [treeAfter, hrun] at erases

/-- The history of a project has been wiped from its directory: the documents are lost, and the images
that the ledger lists, and nothing else; and the images have been counted. -/
structure Wipes (a : Archive) (p : Project) (t s : FileTree) (dir : Location) (n : Nat) :
    Prop where
  loses : Loses (fun loc => ∃ name, (IsDocument name ∨ a.IsWiped p t (a.load p t) name) ∧
    loc = dir ++ [name]) t s
  counts : a.CountsWiped p t n (a.load p t)
  /-- If the ledger could not be read, only directories have names of images. -/
  images : a.load p t = .unreadable → (a.projectDir p).text ≠ "" → ∀ name, IsNumbered name →
    Walkable ((a.projectDir p).join name) → name.utf8ByteSize ≤ longestName →
    s.find? (dir ++ [name]) = none ∨ s.find? (dir ++ [name]) = some .directory
  /-- Nor is there an image of any record that there could be. -/
  numbers : a.load p t = .unreadable → (a.projectDir p).text ≠ "" → ∀ id,
    ¬ s.HasFile (a.imagePath p id)

/-- What clearing removes from the directory are the documents and the images that the ledger says. -/
theorem loses_of_clear (hs : t.IsSound) (hled : t.LeadsTo (a.projectDir p) dir)
    (hled' : s.LeadsTo (a.projectDir p) dir) (hrun : a.clear p t = .ok n s) :
    Loses (fun loc => ∃ name, (IsDocument name ∨ a.IsWiped p t (a.load p t) name) ∧
        loc = dir ++ [name]) t s ∧ a.CountsWiped p t n (a.load p t) := by
  obtain ⟨-, u, v, w, images, temporary, aside, ledger⟩ := clear_eq_ok hrun
  -- the path leads to the directory all the time, since files are only removed
  have ledW := (erases_of_removeIfPresent ledger).leadsTo hled'
  have ledV := (erases_of_removeIfPresent aside).leadsTo ledW
  have ledU := (erases_of_removeIfPresent temporary).leadsTo ledV
  rw [temporaryPath_eq_join] at temporary
  rw [asidePath_eq_join] at aside
  rw [ledgerPath_eq_join] at ledger
  have room := walkable_of_removeIfPresent isComponent_temporaryName temporary
  rw [← temporaryPath_eq_join] at room
  obtain ⟨losesImages, counts⟩ := loses_of_removeListedImages hs hled ledU room images
  have losesTemporary := loses_of_removeIfPresent isComponent_temporaryName short_temporaryName ledU
    temporary
  have losesAside := loses_of_removeIfPresent isComponent_asideName short_asideName ledV aside
  have losesLedger := loses_of_removeIfPresent isComponent_ledgerName short_ledgerName ledW ledger
  refine ⟨(((losesImages.trans losesTemporary).trans losesAside).trans losesLedger).congr
    fun loc => ?_, counts⟩
  constructor
  · rintro (((⟨name, wiped, rfl⟩ | rfl) | rfl) | rfl)
    · exact ⟨name, .inr wiped, rfl⟩
    · exact ⟨temporaryName, .inl (.inr (.inl rfl)), rfl⟩
    · exact ⟨asideName, .inl (.inr (.inr rfl)), rfl⟩
    · exact ⟨ledgerName, .inl (.inl rfl), rfl⟩
  · rintro ⟨name, (rfl | rfl | rfl) | wiped, rfl⟩
    · exact .inr rfl
    · exact .inl (.inl (.inr rfl))
    · exact .inl (.inr rfl)
    · exact .inl (.inl (.inl ⟨name, wiped, rfl⟩))

/-- No image is left where the ledger could not be read: it was there before, and has been removed. -/
theorem not_hasFile_of_clear (hs : t.IsSound) (hled : t.LeadsTo (a.projectDir p) dir)
    (hled' : s.LeadsTo (a.projectDir p) dir) (hrun : a.clear p t = .ok n s)
    (hunreadable : a.load p t = .unreadable) (hpath : (a.projectDir p).text ≠ "")
    (hname : IsImage name) : ¬ s.HasFile ((a.projectDir p).join name) := by
  intro there
  have component := isComponent_of_isImageFileName hname
  obtain ⟨walkable, short, entry, found, notDir⟩ := (hasFile_join_iff hled' component).mp there
  have before := (erases_of_clear hrun).find?_eq_some found
  have wiped : a.IsWiped p t (a.load p t) name := by
    rw [hunreadable]
    exact ⟨hpath, isImageFileName_iff.mp hname,
      (hasFile_join_iff hled component).mpr ⟨walkable, short, entry, before, notDir⟩⟩
  have lost := (loses_of_clear hs hled hled' hrun).1.lost _ ⟨name, .inr wiped, rfl⟩
  exact absurd (lost.symm.trans found) (by simp)

theorem wipes_of_clear (hs : t.IsSound) (hled : t.LeadsTo (a.projectDir p) dir)
    (hled' : s.LeadsTo (a.projectDir p) dir) (hrun : a.clear p t = .ok n s) :
    a.Wipes p t s dir n := by
  obtain ⟨loses, counts⟩ := loses_of_clear hs hled hled' hrun
  have left : a.load p t = .unreadable → (a.projectDir p).text ≠ "" → ∀ name, IsImage name →
      ¬ s.HasFile ((a.projectDir p).join name) :=
    fun unreadable path name image => not_hasFile_of_clear hs hled hled' hrun unreadable path image
  refine ⟨loses, counts, fun unreadable path name numbered walkable short => ?_,
    fun unreadable path id => left unreadable path _ (isImage_imageFileName id)⟩
  have image : IsImage name := isImageFileName_iff.mpr numbered
  refine or_iff_not_imp_left.mpr fun found => ?_
  obtain ⟨entry, found⟩ := Option.ne_none_iff_exists'.mp found
  by_contra notDir
  refine left unreadable path name image ((hasFile_join_iff hled'
    (isComponent_of_isImageFileName image)).mpr ⟨walkable, short, entry, found, ?_⟩)
  rintro rfl
  exact notDir found

/-- Clearing a project leaves it without a ledger and without anything beside it. It wipes the history
from the directory that the path leads to, unless the path goes over a link that is removed. -/
theorem clear_wipes_own_history (hs : t.IsSound) (hrun : a.clear p t = .ok n s) :
    a.load p s = .absent ∧
      (∀ name, IsDocument name → s.statLink ((a.projectDir p).join name) = .error .notFound) ∧
      ((∀ dir, ¬ t.LeadsTo (a.projectDir p) dir) → n = 0 ∧ s = t) ∧
      ∀ dir, t.LeadsTo (a.projectDir p) dir → a.Wipes p t s dir n ∨
        ¬ s.LeadsTo (a.projectDir p) dir ∧
          ∃ loc target, t.find? loc = some (.link target) ∧ s.find? loc = none := by
  have documents := fun name (hname : IsDocument name) => statLink_of_clear hrun hname
  refine ⟨?_, documents, fun missing => clear_nowhere missing hrun, fun dir hled => ?_⟩
  · refine load_of_statLink_notFound ?_
    rw [ledgerPath_eq_join]
    exact documents ledgerName (.inl rfl)
  · by_cases hled' : s.LeadsTo (a.projectDir p) dir
    · exact .inl (wipes_of_clear hs hled hled' hrun)
    · exact .inr ⟨hled', ((erases_of_clear hrun).leadsTo_or_link hled).resolve_left hled'⟩

/-- A directory with a ledger that cannot be read, and with an image and another file. -/
def numberedResults : FileTree :=
  unreadableResults [(["results", "00001.png"], .file [2]), (["results", "1.png"], .file [3])]

theorem removeAllImages_numberedResults :
    results.removeAllImages .global numberedResults
      = .ok 1 (numberedResults.erase ["results", "00001.png"]) := by
  have listed : numberedResults.list (results.projectDir .global)
      = .ok ["00001.png", "1.png", "history.json"] := rfl
  have images : ["00001.png", "1.png", "history.json"].filter isImageFileName = ["00001.png"] := by
    decide
  have first : Disk.tryRemove ((results.projectDir .global).join "00001.png") numberedResults
      = .ok true (numberedResults.erase ["results", "00001.png"]) := rfl
  rw [removeAllImages, listed]
  simp only [images, List.map_cons, List.map_nil]
  rw [removeCounting, run_bind_of_ok first]
  rfl

/-- All images of listed records are wiped, and all images where the ledger cannot be read. -/
theorem clear_wipes_own_history_blockedProject :
    (blockedProject "notes").IsSound ∧
      (∃ s, results.clear .global (blockedProject "notes") = .ok 2 s ∧
        results.load .global s = .absent ∧
        results.Wipes .global (blockedProject "notes") s ["results"] 2) ∧
      numberedResults.IsSound ∧
      ∃ s, results.clear .global numberedResults = .ok 1 s ∧
        results.load .global s = .absent ∧ results.Wipes .global numberedResults s ["results"] 1 := by
  have sound : (blockedProject "notes").IsSound := isSound_blockedImages _ _
  have sound' : numberedResults.IsSound := isSound_of_entries (by decide) rfl
  have unreadable : results.load .global numberedResults = .unreadable := rfl
  have cleared : results.clear .global (blockedProject "notes")
      = .ok 2 ((removedBoth "notes").erase ["results", "history.json"]) := by
    refine clear_of_steps (u := removedBoth "notes") rfl ?_ rfl rfl rfl
    rw [load_blockedProject]
    exact removeListedImages_blockedProject "notes"
  have cleared' : results.clear .global numberedResults
      = .ok 1 ((numberedResults.erase ["results", "00001.png"]).erase
        ["results", "history.json"]) := by
    refine clear_of_steps (u := numberedResults.erase ["results", "00001.png"]) rfl ?_ rfl rfl rfl
    rw [unreadable]
    exact removeAllImages_numberedResults
  have led : ∀ {t : FileTree}, t.workingDirectory = [] → t.find? ["results"] = some .directory →
      t.LeadsTo (results.projectDir .global) ["results"] :=
    fun hworking hup => ⟨mostLinks, leads_results hworking hup⟩
  obtain ⟨absent, -, -, wiped⟩ := clear_wipes_own_history sound cleared
  obtain ⟨absent', -, -, wiped'⟩ := clear_wipes_own_history sound' cleared'
  exact ⟨sound, ⟨_, cleared, absent, (wiped _ (led rfl rfl)).resolve_right
      fun lost => lost.1 (led rfl rfl)⟩,
    sound', _, cleared', absent', (wiped' _ (led rfl rfl)).resolve_right
      fun lost => lost.1 (led rfl rfl)⟩

/-! ## Images that are left -/

/-- Where the ledger cannot be read and no image is found, none is removed. -/
theorem clear_of_nothing_wiped {root : Location} (hu : IsUsable p root t) (h : a.IsAt root t)
    (hledger : ∃ content, t.find? (p.place root ++ [ledgerName]) = some (.file content))
    (hload : a.load p t = .unreadable) (hwalk : Walkable (a.temporaryPath p))
    (hshort : (a.asidePath p).text.utf8ByteSize < pathLimit)
    (hnone : ∀ name, ¬ a.IsWiped p t .unreadable name) :
    ∃ s, a.clear p t = .ok 0 s ∧ ∀ name, IsImage name →
      s.find? (p.place root ++ [name]) = t.find? (p.place root ++ [name]) := by
  obtain ⟨n, s, cleared⟩ := clear_ok hu h hledger hwalk hshort
  have after := confined_clear.of_ok h cleared
  have wipes := wipes_of_clear h.sound (hu.leadsTo h)
    ((hu.of_touches h after).leadsTo (h.of_touches after)) cleared
  have counts := wipes.counts
  have loses := wipes.loses
  rw [hload] at counts loses
  obtain rfl := counts.eq_zero hnone
  refine ⟨s, cleared, fun name image => loses.elsewhere _ ?_⟩
  rintro ⟨name', hname | wiped, same⟩
  · obtain rfl := List.singleton_inj.mp (List.append_cancel_left same)
    exact not_isDocument_of_isImage image hname
  · exact hnone name' wiped

/-- What is read of a ledger may be no document of records. -/
theorem load_of_notDocument {content : Bytes} (hread : t.readFile (a.ledgerPath p) = .ok content)
    (hnone : Record.ofDocument? content = none) : a.load p t = .unreadable := by
  delta load
  rw [hread]
  simp only [hnone]

/-- The archive of an empty path, which is that of the working directory. -/
def unnamed : Archive := ⟨⟨""⟩⟩

/-- A working directory with a ledger that cannot be read and an image. -/
def unnamedResults : FileTree :=
  ⟨[(["history.json"], .file [1]), (["00001.png"], .file [2])], []⟩

/-- A results directory with a ledger that cannot be read and an image with a long number. -/
def longImage : FileTree :=
  unreadableResults [(["results", "10000000000000000000.png"], .file [2])]

theorem image_left_unnamedResults :
    unnamed.load .global unnamedResults = .unreadable ∧
      ∃ s, unnamed.clear .global unnamedResults = .ok 0 s ∧
        s.find? ["00001.png"] = some (.file [2]) := by
  have there : unnamed.IsAt [] unnamedResults := by
    refine ⟨isSound_of_entries (by decide) rfl, ⟨mostLinks, .here _ _⟩, ?_⟩
    exact fun loc target _ _ => find?_ne_link (by simp [unnamedResults]) loc target
  have usable : IsUsable .global [] unnamedResults := 
    isUsable_of_entries (by decide) rfl (by decide)
  obtain ⟨s, cleared, kept⟩ := clear_of_nothing_wiped usable there ⟨[1], rfl⟩ rfl
    (by decide) (by decide) fun name wiped => wiped.1 rfl
  have image : isImageFileName "00001.png" = true := by decide
  exact ⟨rfl, s, cleared, kept "00001.png" image⟩

theorem image_left_longImage :
    (slashedResults 4065).load .global longImage = .unreadable ∧
      ∃ s, (slashedResults 4065).clear .global longImage = .ok 0 s ∧
        s.find? ["results", "10000000000000000000.png"] = some (.file [2]) := by
  have led : longImage.LeadsTo ((slashedResults 4065).projectDir .global) ["results"] :=
    leadsTo_slashedResults 4065 rfl rfl
  have there : (slashedResults 4065).IsAt ["results"] longImage := by
    refine ⟨isSound_of_entries (by decide) rfl, led, fun loc target _ _ => find?_ne_link ?_ loc target⟩
    simp [longImage, unreadableResults]
  have usable : IsUsable .global ["results"] longImage :=
    isUsable_of_entries (by decide) rfl (by decide)
  have temporary := walkable_temporaryPath_slashedResults 4064 (by decide)
  have ledger := usable.locate there isOwnName_ledgerName short_ledgerName
    (walkable_ledgerPath temporary) true
  have unreadable : (slashedResults 4065).load .global longImage = .unreadable :=
    load_of_notDocument (ledgerPath_eq_join _ _ ▸ readFile_of_locate ledger) rfl
  have aside : ((slashedResults 4065).asidePath .global).text.utf8ByteSize < pathLimit := by
    rw [asidePath_eq_join, text_slashedResults 4064 isComponent_asideName,
      String.utf8ByteSize_append, size_slashedResults]
    decide
  -- there is only one image, whose path is too long
  have none : ∀ name, ¬ (slashedResults 4065).IsWiped .global longImage .unreadable name := by
    rintro name ⟨-, numbered, file⟩
    have image : IsImage name := isImageFileName_iff.mpr numbered
    have component := isComponent_of_isImageFileName image
    obtain ⟨walkable, -, entry, found, -⟩ := (hasFile_join_iff led component).mp file
    have short := walkable.short
    rw [text_slashedResults 4064 component, String.utf8ByteSize_append, size_slashedResults] at short
    rcases mem_entries_of_find? found with empty | listed
    · exact absurd empty (by simp)
    simp only [longImage, unreadableResults, List.cons_append, List.nil_append, List.mem_cons,
      Prod.mk.injEq, List.cons.injEq, true_and, and_true, List.not_mem_nil, or_false] at listed
    rcases listed with ⟨rfl, -⟩ | ⟨nowhere, -⟩ | ⟨rfl, -⟩
    · exact absurd short (by decide)
    · exact absurd nowhere (by simp)
    · exact absurd (isImageFileName_eq_false.1.symm.trans image) (by decide)
  have image : isImageFileName "10000000000000000000.png" = true := by decide
  obtain ⟨s, cleared, kept⟩ := clear_of_nothing_wiped usable there ⟨[1], rfl⟩ unreadable temporary
    aside none
  exact ⟨unreadable, s, cleared, kept "10000000000000000000.png" image⟩

/-- The archive in the directory that the link `results/00001.png` leads to. -/
def linkedWay : Archive := ⟨⟨"results/00001.png"⟩⟩

/-- A results directory with a ledger of two records. The image of the first one is a link to the
directory itself. -/
def linkedWayResults : FileTree where
  entries := [(["results"], .directory), (["results", "00001.png"], .link ⟨"."⟩),
    (["results", "00002.png"], .file [2]),
    (["results", "history.json"], .file (Record.document blockedRecords))]
  workingDirectory := []

/-- The directory after its link has been removed. -/
def linkedWayRemoved : FileTree := linkedWayResults.erase ["results", "00001.png"]

/-- The way to the results directory goes over the link. -/
theorem leads_linkedWay :
    linkedWayResults.Leads mostLinks (linkedWayResults.start (linkedWay.projectDir .global))
      (linkedWay.projectDir .global).names 39 ["results"] :=
  .down (by decide) rfl (.jump (by decide) rfl (.points rfl (.here _ _)))

theorem leadsTo_linkedWay :
    linkedWayResults.LeadsTo (linkedWay.projectDir .global) ["results"] := ⟨_, leads_linkedWay⟩

theorem tryRemove_linkedWay :
    Disk.tryRemove (linkedWay.imagePath .global 1) linkedWayResults = .ok true linkedWayRemoved := by
  have located : linkedWayResults.locate false (linkedWay.imagePath .global 1)
      = .ok ["results", "00001.png"] := by
    rw [imagePath_one]
    exact leadsTo_linkedWay.locate_join (by decide)
      (by decide) (by decide)
  rw [Disk.tryRemove, removeFile, lookUp, located]
  rfl

theorem removeListedImages_linkedWay :
    linkedWay.removeListedImages .global (.present blockedRecords) linkedWayResults
      = .ok 1 linkedWayRemoved := by
  have second : Disk.tryRemove (linkedWay.imagePath .global 2) linkedWayRemoved
      = .ok false linkedWayRemoved := by
    rw [imagePath_two]
    rfl
  have rest : removeCounting [] linkedWayRemoved = .ok 0 linkedWayRemoved := rfl
  have paths : blockedRecords.map (fun r => linkedWay.imagePath .global r.id)
      = [linkedWay.imagePath .global 1, linkedWay.imagePath .global 2] := rfl
  rw [removeListedImages, paths, removeCounting, run_bind_of_ok tryRemove_linkedWay, run_bind,
    removeCounting, run_bind_of_ok second, run_bind_of_ok rest]
  rfl

/-- Both images are there before. -/
theorem hasFile_linkedWay :
    ∀ r ∈ blockedRecords, linkedWayResults.HasFile (linkedWay.imagePath .global r.id) := by
  intro r listed
  rw [blockedRecords, List.mem_pair] at listed
  rcases listed with rfl | rfl
  · rw [imagePath_one]
    exact (hasFile_join_iff leadsTo_linkedWay (by decide)).mpr
      ⟨by decide, by decide, .link ⟨"."⟩, rfl, by decide⟩
  · rw [imagePath_two]
    exact (hasFile_join_iff leadsTo_linkedWay (by decide)).mpr
      ⟨by decide, by decide, .file [2], rfl, by decide⟩

theorem load_linkedWay : linkedWay.load .global linkedWayResults = .present blockedRecords := by
  have walkable : Walkable (linkedWay.ledgerPath .global) := by decide
  refine load_of_readFile_blockedRecords (readFile_eq_ok_iff.mpr ⟨["results", ledgerName], ?_, rfl⟩)
  rw [ledgerPath_eq_join] at walkable ⊢
  rw [leads_linkedWay.locate_join isComponent_ledgerName walkable]
  exact walk_plain isStep_ledgerName (isPlain_file (Record.document blockedRecords))

/-- The link is removed first, and then nothing else is found. -/
theorem clear_linkedWay :
    linkedWay.clear .global linkedWayResults = .ok 1 linkedWayRemoved := by
  have file : linkedWayResults.statLink (linkedWay.ledgerPath .global)
      = .ok (.file (Record.document blockedRecords)) :=
    statLink_ledger leadsTo_linkedWay (by decide) rfl
  have there : linkedWay.ledgerIsThere .global linkedWayResults = .ok true linkedWayResults := by
    delta ledgerIsThere
    rw [file]
  refine clear_of_steps (u := linkedWayRemoved) there ?_ rfl rfl rfl
  rw [load_linkedWay]
  exact removeListedImages_linkedWay

/-- Images are left and not counted: where the ledger cannot be read, those of a results directory
that is given by an empty path and those whose path is too long; and those of listed records where the
way to the results directory goes over an image that is a link. There the ledger is left too. -/
theorem images_left_by_clear :
    (unnamed.load .global unnamedResults = .unreadable ∧
      ∃ s, unnamed.clear .global unnamedResults = .ok 0 s ∧
        s.find? ["00001.png"] = some (.file [2])) ∧
    ((slashedResults 4065).load .global longImage = .unreadable ∧
      ∃ s, (slashedResults 4065).clear .global longImage = .ok 0 s ∧
        s.find? ["results", "10000000000000000000.png"] = some (.file [2])) ∧
    linkedWay.load .global linkedWayResults = .present blockedRecords ∧
      (∀ r ∈ blockedRecords, linkedWayResults.HasFile (linkedWay.imagePath .global r.id)) ∧
      ∃ s, linkedWay.clear .global linkedWayResults = .ok 1 s ∧
        s.find? ["results", "00002.png"] = some (.file [2]) ∧
        s.find? ["results", "history.json"] = some (.file (Record.document blockedRecords)) :=
  ⟨image_left_unnamedResults, image_left_longImage, load_linkedWay, hasFile_linkedWay, _,
    clear_linkedWay, rfl, rfl⟩

end ImageGateway.Archive
