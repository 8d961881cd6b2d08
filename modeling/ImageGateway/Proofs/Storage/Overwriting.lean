import ImageGateway.Proofs.Storage.Programs
import ImageGateway.Proofs.Storage.Rerouting

/-!
# Writing files over others

Where a walk ends in one tree it also ends in a tree with the same links and at least the same
directories (`walk_of_keeps`). A tree in which files have been written, at places where neither a
directory nor a link was (`Overwrites`), has the same directories and links as before, so that all
paths lead where they led (`Overwrites.locate_iff`): it makes no difference to where the next file is
written.
-/

set_option autoImplicit false

namespace ImageGateway.Storage.FileTree

variable {t s u : FileTree} {follow : Bool} {links : Nat} {dir loc : Location}
  {names : List String} {p : FilePath} {content : Bytes} {written written' : Location → Prop}

/-- More directories do not change where a walk ends. -/
theorem walk_of_keeps (h : t.walk follow links dir names = .ok loc) (hkeep : t.Keeps s) :
    s.walk follow links dir names = .ok loc := by
  rw [walk_eq_ok_iff] at h
  -- the second walk passes the same directories and links; at its last name it ends in any case
  induction h with
  | here links dir => exact walk_nil s follow links dir
  | points goes _ ih => rw [walk_points goes, ih]
  | down hname hfound _ ih => rw [walk_directory hname (hkeep.directory _ hfound), ih]
  | jump hname hlink hgo _ ih =>
    rw [walk_link hname ((hkeep.link _ _).mpr hlink) hgo, FileTree.jump, ih]
  | atLink nofollow hname _ =>
    subst nofollow
    exact walk_one_false hname
  | atPlain hname hplain =>
    exact walk_one hname fun target isLink => hplain.2 target ((hkeep.link _ _).mp isLink)

theorem locate_of_keeps (h : t.locate follow p = .ok loc) (hkeep : t.Keeps s) :
    s.locate follow p = .ok loc := by
  obtain ⟨hwalk, walked⟩ := walk_of_locateNames h
  rw [locate, locateNames_eq_walk hwalk, start, hkeep.working]
  exact walk_of_keeps walked hkeep

/-! ## Files that have been written -/

/-- Nothing is different but files that have been written at some locations, where neither a directory
nor a link was. -/
structure Overwrites (written : Location → Prop) (t s : FileTree) : Prop where
  working : s.workingDirectory = t.workingDirectory
  entry : ∀ loc, s.find? loc = t.find? loc ∨
    written loc ∧ IsPlain (t.find? loc) ∧ ∃ content, s.find? loc = some (.file content)

namespace Overwrites

theorem refl (written : Location → Prop) (t : FileTree) : t.Overwrites written t :=
  ⟨rfl, fun _ => .inl rfl⟩

theorem mono (h : Overwrites written t s) (hmono : ∀ loc, written loc → written' loc) :
    Overwrites written' t s := by
  refine ⟨h.working, fun loc => ?_⟩
  rcases h.entry loc with same | ⟨here, files⟩
  · exact .inl same
  · exact .inr ⟨hmono loc here, files⟩

theorem trans (h : Overwrites written t s) (h' : Overwrites written s u) :
    Overwrites written t u := by
  refine ⟨h'.working.trans h.working, fun loc => ?_⟩
  rcases h'.entry loc with same' | ⟨here, plain, file⟩
  · rw [same']
    exact h.entry loc
  · rcases h.entry loc with same | ⟨-, plain', -⟩
    · exact .inr ⟨here, same ▸ plain, file⟩
    · exact .inr ⟨here, plain', file⟩

/-- A directory or a link is found in one of the trees if it is found in the other. -/
theorem find?_iff {entry : Entry} (h : Overwrites written t s) (hentry : ¬ IsPlain (some entry))
    (loc : Location) : s.find? loc = some entry ↔ t.find? loc = some entry := by
  rcases h.entry loc with same | ⟨-, plain, content, file⟩
  · rw [same]
  constructor
  · intro found
    exact absurd (found ▸ file ▸ isPlain_file content) hentry
  · intro found
    exact absurd (found ▸ plain) hentry

theorem sameLinks (h : Overwrites written t s) : t.SameLinks s :=
  ⟨h.working, fun loc target => h.find?_iff (fun plain => plain.2 target rfl) loc⟩

/-- All directories and links are still there. -/
theorem keeps (h : Overwrites written t s) : t.Keeps s :=
  ⟨h.sameLinks, fun loc isDir => (h.find?_iff (fun plain => plain.1 rfl) loc).mpr isDir⟩

/-- All directories and links were there before. -/
theorem keeps_back (h : Overwrites written t s) : s.Keeps t :=
  ⟨h.sameLinks.symm, fun loc isDir => (h.find?_iff (fun plain => plain.1 rfl) loc).mp isDir⟩

/-- A path leads where it led. -/
theorem locate_iff (h : Overwrites written t s) :
    s.locate follow p = .ok loc ↔ t.locate follow p = .ok loc :=
  ⟨fun located => locate_of_keeps located h.keeps_back,
    fun located => locate_of_keeps located h.keeps⟩

/-- At a path there is a directory or a link if it was there. -/
theorem statLink_iff {entry : Entry} (h : Overwrites written t s)
    (hentry : ¬ IsPlain (some entry)) :
    s.statLink p = .ok entry ↔ t.statLink p = .ok entry := by
  constructor
  · intro there
    obtain ⟨loc, located, found⟩ := statLink_eq_ok there
    rw [statLink_of_locate (h.locate_iff.mp located), (h.find?_iff hentry loc).mp found]
  · intro there
    obtain ⟨loc, located, found⟩ := statLink_eq_ok there
    rw [statLink_of_locate (h.locate_iff.mpr located), (h.find?_iff hentry loc).mpr found]

/-- What has not been written is still at its path. -/
theorem statLink_of_not_written {entry : Entry} (h : Overwrites written t s)
    (hfree : ∀ loc, t.locate false p = .ok loc → ¬ written loc)
    (hthere : t.statLink p = .ok entry) : s.statLink p = .ok entry := by
  obtain ⟨loc, located, found⟩ := statLink_eq_ok hthere
  rcases h.entry loc with same | ⟨here, -⟩
  · rw [statLink_of_locate (h.locate_iff.mpr located), same, found]
  · exact absurd here (hfree loc located)

end Overwrites

/-- A file is written where its path leads. -/
theorem overwrites_of_writeFile (hs : t.IsSound) (h : t.writeFile p content = .ok s) :
    t.Overwrites (fun loc => t.locate true p = .ok loc) s := by
  obtain ⟨loc, located, notDir, put⟩ := writeFile_eq_ok h
  refine ⟨put.working, fun other => ?_⟩
  by_cases here : other = loc
  · subst here
    refine .inr ⟨located, ?_, content, put.here⟩
    rcases locateNames_cases hs located with isDir | ⟨mid, name, -, -, plain | nofollow⟩
    · exact absurd isDir notDir
    · exact plain
    · exact absurd nofollow (by simp)
  · exact .inl (put.elsewhere other here)

end ImageGateway.Storage.FileTree
