import ImageGateway.Archive.Batch
import ImageGateway.Proofs.Archive.Places
import ImageGateway.Proofs.Storage.Programs

/-!
# What programs of the archive touch

A program that works for a project makes the directory of the project and those above it, and changes
files of the project in that directory; it leaves everything else alone (`Confined`). Each program
has the names of the files it may change; that of the images alone is `Archive.isImageFileName`.
-/

set_option autoImplicit false

namespace ImageGateway

open Storage Storage.FileTree

namespace Archive

variable {a : Archive} {p : Project} {own own' : String → Prop} {t s u : FileTree}
  {dir loc : Location} {name : String} {ε α β : Type}

/-! ## Changes of the tree -/

/-- A location is that of one of the project's files with the given names. -/
def IsOwn (a : Archive) (p : Project) (own : String → Prop) (t : FileTree) (loc : Location) :
    Prop :=
  ∃ dir name, t.LeadsTo (a.projectDir p) dir ∧ own name ∧ loc = dir ++ [name]

/-- Between two trees nothing is different but directories that have been made on the way to the
directory of a project, and files of the project with the given names. -/
structure Touches (a : Archive) (p : Project) (own : String → Prop) (t s : FileTree) : Prop where
  working : s.workingDirectory = t.workingDirectory
  entry : ∀ loc, s.find? loc = t.find? loc ∨
    (t.find? loc = none ∧ s.find? loc = some .directory ∧ s.OnTheWay (a.projectDir p) loc) ∨
    (a.IsOwn p own s loc ∧ IsPlain (t.find? loc) ∧ IsPlain (s.find? loc))

theorem Touches.refl (a : Archive) (p : Project) (own : String → Prop) (t : FileTree) :
    a.Touches p own t t :=
  ⟨rfl, fun _ => .inl rfl⟩

theorem Touches.mono (h : a.Touches p own t s) (hown : ∀ name, own name → own' name) :
    a.Touches p own' t s := by
  refine ⟨h.working, fun loc => ?_⟩
  rcases h.entry loc with same | made | ⟨⟨dir, name, led, is, here⟩, plain⟩
  · exact .inl same
  · exact .inr (.inl made)
  · exact .inr (.inr ⟨⟨dir, name, led, hown name is, here⟩, plain⟩)

/-- What is touched is neither a directory that was there nor a link. -/
theorem Touches.keeps (h : a.Touches p own t s) : t.Keeps s := by
  refine ⟨⟨h.working, fun loc target => ?_⟩, fun loc hdir => ?_⟩
  · rcases h.entry loc with same | ⟨gone, made, -⟩ | ⟨-, before, after⟩
    · rw [same]
    · simp [gone, made]
    · exact ⟨fun found => absurd found (after.2 target), fun found => absurd found (before.2 target)⟩
  · rcases h.entry loc with same | ⟨gone, -, -⟩ | ⟨-, before, -⟩
    · rw [same, hdir]
    · simp [gone] at hdir
    · exact absurd hdir before.1

/-- What is on the way to a directory that is there is there. -/
theorem isDirectory_of_onTheWay (hs : t.IsSound) {path : FilePath} (h : t.LeadsTo path dir)
    (hkeep : t.Keeps s) (hway : s.OnTheWay path loc) : t.find? loc = some .directory := by
  obtain ⟨left, led⟩ := h
  obtain ⟨count, left', led'⟩ := hway
  rw [← List.take_append_drop count path.names] at led
  obtain ⟨via, mid, front, -⟩ := led.split
  rw [start, hkeep.working] at led'
  obtain ⟨-, rfl⟩ := front.unique led' hkeep.toSameLinks
  exact front.isDirectory hs (hs.start path)

theorem IsOwn.keep (h : a.IsOwn p own t loc) (hkeep : t.Keeps s) : a.IsOwn p own s loc := by
  obtain ⟨dir, name, led, is, here⟩ := h
  exact ⟨dir, name, led.keep hkeep, is, here⟩

theorem Touches.trans (h : a.Touches p own t s) (h' : a.Touches p own s u) (hs : s.IsSound) :
    a.Touches p own t u := by
  refine ⟨h'.working.trans h.working, fun loc => ?_⟩
  rcases h.entry loc with same | ⟨gone, made, way⟩ | ⟨is, before, between⟩
  · rcases h'.entry loc with same' | ⟨gone', made', way'⟩ | ⟨is', before', after'⟩
    · exact .inl (same'.trans same)
    · exact .inr (.inl ⟨same ▸ gone', made', way'⟩)
    · exact .inr (.inr ⟨is', same ▸ before', after'⟩)
  · rcases h'.entry loc with same' | ⟨gone', -, -⟩ | ⟨-, before', -⟩
    · exact .inr (.inl ⟨gone, same'.trans made, way.keep h'.keeps⟩)
    · simp [made] at gone'
    · exact absurd made before'.1
  · rcases h'.entry loc with same' | ⟨-, -, way'⟩ | ⟨is', -, after'⟩
    · exact .inr (.inr ⟨is.keep h'.keeps, before, same' ▸ between⟩)
    · -- the directory of a file of the project is there, and so is all on the way to it
      obtain ⟨dir, name, led, -, rfl⟩ := is
      exact absurd (isDirectory_of_onTheWay hs led h'.keeps way') between.1
    · exact .inr (.inr ⟨is', before, after'⟩)

/-- Making the directory of a project touches nothing else. -/
theorem touches_of_grown (h : Grown (a.projectDir p) t s) : a.Touches p own t s := by
  refine ⟨h.working, fun loc => ?_⟩
  rcases h.entry loc with same | made
  · exact .inl same
  · exact .inr (.inl made)

/-- Changing one file of a project touches nothing else. -/
theorem touches_of_setAt {entry : Option Entry} (hled : t.LeadsTo (a.projectDir p) dir)
    (hname : own name) (h : t.SetAt (dir ++ [name]) entry s)
    (hloc : IsPlain (t.find? (dir ++ [name]))) (hentry : IsPlain entry) :
    a.Touches p own t s := by
  have hkeep := keeps_of_setAt h hloc hentry.2
  refine ⟨h.working, fun loc => ?_⟩
  by_cases here : loc = dir ++ [name]
  · subst here
    exact .inr (.inr ⟨⟨dir, name, hled.keep hkeep, hname, rfl⟩, hloc, h.here.symm ▸ hentry⟩)
  · exact .inl (h.elsewhere loc here)

/-! ## Confined programs -/

/-- From a sound tree without links below the results one comes to a sound tree, and only the project
has been touched. -/
def Confines (a : Archive) (p : Project) (own : String → Prop) (t s : FileTree) : Prop :=
  t.IsSound → a.HasNoLinks t → s.IsSound ∧ a.Touches p own t s

theorem isFrame_confines (a : Archive) (p : Project) (own : String → Prop) :
    IsFrame (a.Confines p own) := by
  refine ⟨fun t hs _ => ⟨hs, .refl a p own t⟩, fun t s u h h' hs hlinks => ?_⟩
  obtain ⟨sound, touches⟩ := h hs hlinks
  obtain ⟨sound', touches'⟩ := h' sound (hlinks.of_sameLinks touches.keeps.toSameLinks)
  exact ⟨sound', touches.trans touches' sound⟩

/-- A program touches nothing but the project. -/
def Confined (a : Archive) (p : Project) (own : String → Prop)
    (program : EStateM ε FileTree α) : Prop :=
  Respects (a.Confines p own) program

theorem confined_of_unchanged {program : EStateM ε FileTree α}
    (h : ∀ t, treeAfter program t = t) : a.Confined p own program :=
  (isFrame_confines a p own).of_unchanged h

theorem confined_pure (x : α) : a.Confined p own (pure x : EStateM ε FileTree α) :=
  confined_of_unchanged fun _ => rfl

theorem confined_throw (e : ε) : a.Confined p own (throw e : EStateM ε FileTree α) :=
  confined_of_unchanged fun _ => rfl

theorem confined_get : a.Confined p own (get : EStateM ε FileTree FileTree) :=
  confined_of_unchanged fun _ => rfl

theorem confined_bind {program : EStateM ε FileTree α} {next : α → EStateM ε FileTree β}
    (h : a.Confined p own program) (hnext : ∀ x, a.Confined p own (next x)) :
    a.Confined p own (program >>= next) :=
  (isFrame_confines a p own).bind h hnext

theorem Confined.mono {program : EStateM ε FileTree α} (h : a.Confined p own program)
    (hown : ∀ name, own name → own' name) : a.Confined p own' program := by
  intro t hs hlinks
  obtain ⟨sound, touches⟩ := h t hs hlinks
  exact ⟨sound, touches.mono hown⟩

/-! ## Operations on the files of a project -/

/-- A file of a project is in the directory of the project. -/
theorem locate_own {follow : Bool} (hlinks : a.HasNoLinks t) (hname : FilePath.IsComponent name)
    (h : t.locate follow ((a.projectDir p).join name) = .ok loc) :
    ∃ dir, t.LeadsTo (a.projectDir p) dir ∧ loc = dir ++ [name] ∧
      ∀ target, t.find? loc ≠ some (.link target) := by
  obtain ⟨dir, left, led, last⟩ := locate_join hname h
  obtain ⟨root, hroot, rfl⟩ := leadsTo_projectDir hlinks led
  have noLink : ∀ target, t.find? (p.place root ++ [name]) ≠ some (.link target) :=
    fun target => hlinks root hroot.would _ target (p.isPrefix_place_append root name)
      (p.place_append_ne_root root name)
  obtain rfl := eq_of_walk_one hname.isName noLink last
  exact ⟨p.place root, led, rfl, noLink⟩

theorem confined_makeDirs : a.Confined p own (Disk.makeDirs (a.projectDir p)) := by
  intro t hs _
  rw [treeAfter_makeDirs]
  exact ⟨isSound_makeDirs hs _, touches_of_grown (grown_makeDirs hs _)⟩

theorem writeFile_own (hs : t.IsSound) (hlinks : a.HasNoLinks t)
    (hname : FilePath.IsComponent name) (hown : own name) {content : Bytes}
    (h : t.writeFile ((a.projectDir p).join name) content = .ok s) :
    s.IsSound ∧ a.Touches p own t s := by
  obtain ⟨loc, hloc, notDir, hset⟩ := writeFile_eq_ok h
  obtain ⟨dir, led, rfl, noLink⟩ := locate_own hlinks hname hloc
  exact ⟨hs.setAt hset notDir fun _ => ⟨dir, name, rfl, led.isDirectory hs⟩,
    touches_of_setAt led hown hset ⟨notDir, noLink⟩ (isPlain_file content)⟩

theorem removeFile_own (hs : t.IsSound) (hlinks : a.HasNoLinks t)
    (hname : FilePath.IsComponent name) (hown : own name)
    (h : t.removeFile ((a.projectDir p).join name) = .ok s) :
    s.IsSound ∧ a.Touches p own t s := by
  obtain ⟨loc, hloc, notDir, -, hset⟩ := removeFile_eq_ok h
  obtain ⟨dir, led, rfl, noLink⟩ := locate_own hlinks hname hloc
  exact ⟨hs.setAt hset notDir fun present => absurd rfl present,
    touches_of_setAt led hown hset ⟨notDir, noLink⟩ isPlain_none⟩

theorem rename_own {name' : String} (hs : t.IsSound) (hlinks : a.HasNoLinks t)
    (hname : FilePath.IsComponent name) (hown : own name)
    (hname' : FilePath.IsComponent name') (hown' : own name')
    (h : t.rename ((a.projectDir p).join name) ((a.projectDir p).join name') = .ok s) :
    s.IsSound ∧ a.Touches p own t s := by
  obtain ⟨source, target, entry, hsource, found, notDir, htarget, targetNotDir, moved⟩ :=
    rename_eq_ok h
  obtain ⟨dir, led, rfl, noLink⟩ := locate_own hlinks hname hsource
  obtain ⟨dir', led', rfl, noLink'⟩ := locate_own hlinks hname' htarget
  have plain : IsPlain (t.find? (dir ++ [name])) :=
    ⟨fun isDir => notDir (Option.some.inj (found.symm.trans isDir)), noLink⟩
  -- the source is taken away first, and then put in the place of the target
  rcases moved with ⟨-, rfl⟩ | ⟨differs, mid, gone, put⟩
  · exact ⟨hs, .refl a p own s⟩
  · have sound := hs.setAt gone plain.1 fun present => absurd rfl present
    have touches := touches_of_setAt led hown gone plain isPlain_none
    have there : mid.find? (dir' ++ [name']) = t.find? (dir' ++ [name']) :=
      gone.elsewhere _ (Ne.symm differs)
    have led'' := led'.keep touches.keeps
    refine ⟨sound.setAt put (there ▸ targetNotDir) fun _ => ⟨dir', name', rfl,
      led''.isDirectory sound⟩, touches.trans ?_ sound⟩
    refine touches_of_setAt led'' hown' put (there ▸ ⟨targetNotDir, noLink'⟩) ?_
    rw [← found]
    exact plain

theorem confined_change {path : FilePath} {op : FileTree → Except Fault FileTree}
    (h : ∀ t s, op t = .ok s → a.Confines p own t s) :
    a.Confined p own (Disk.change path op) :=
  respects_change (isFrame_confines a p own) h

theorem confined_writeFile (hname : FilePath.IsComponent name) (hown : own name)
    (content : Bytes) :
    a.Confined p own (Disk.writeFile ((a.projectDir p).join name) content) :=
  confined_change fun _ _ h hs hlinks => writeFile_own hs hlinks hname hown h

theorem confined_tryRemove (hname : FilePath.IsComponent name) (hown : own name) :
    a.Confined p own (Disk.tryRemove ((a.projectDir p).join name)) := by
  intro t hs hlinks
  rw [treeAfter, Disk.tryRemove]
  cases hop : t.removeFile ((a.projectDir p).join name) with
  | error fault => exact ⟨hs, .refl a p own t⟩
  | ok s => exact removeFile_own hs hlinks hname hown hop

theorem confined_removeIfPresent (hname : FilePath.IsComponent name) (hown : own name) :
    a.Confined p own (Disk.removeIfPresent ((a.projectDir p).join name)) := by
  intro t hs hlinks
  rw [treeAfter, Disk.removeIfPresent]
  cases hop : t.removeFile ((a.projectDir p).join name) with
  | error fault => cases fault <;> exact ⟨hs, .refl a p own t⟩
  | ok s => exact removeFile_own hs hlinks hname hown hop

end Archive

end ImageGateway
