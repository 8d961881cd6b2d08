import ImageGateway.Proofs.Storage.Paths
import Mathlib.Data.List.Induction

/-!
# Sound trees and what operations do to them

In a sound tree every entry is in a directory, and so is whoever works in it. Every operation changes
the entries at one or two locations that are not directories (`SetAt`), which keeps the tree sound
(`IsSound.setAt`) and leaves its directories and links where they are (`keeps_of_setAt`).
-/

set_option autoImplicit false

namespace ImageGateway.Storage.FileTree

variable {t s u : FileTree} {follow : Bool} {links left : Nat} {dir loc other : Location}
  {names : List String} {p q : FilePath} {content : Bytes}

/-- The same is found everywhere in two trees, whatever the order in which they list it. -/
structure SameTree (t s : FileTree) : Prop where
  working : s.workingDirectory = t.workingDirectory
  entry : ∀ loc, s.find? loc = t.find? loc

/-- Every entry is in a directory, and the working directory is one. -/
structure IsSound (t : FileTree) : Prop where
  parent : ∀ dir name, t.find? (dir ++ [name]) ≠ none → t.find? dir = some .directory
  working : t.find? t.workingDirectory = some .directory

theorem mem_entries_of_find? {entry : Entry} (h : t.find? loc = some entry) :
    loc = [] ∨ (loc, entry) ∈ t.entries := by
  cases loc with
  | nil => exact .inl rfl
  | cons name rest =>
    right
    rw [find?] at h
    · obtain ⟨front, back, same, -⟩ := List.lookup_eq_some_iff.mp h
      rw [same]
      simp
    · simp

/-- A tree that lists no link has none anywhere. -/
theorem find?_ne_link (h : ∀ e ∈ t.entries, ∀ target, e.2 ≠ .link target) (loc : Location)
    (target : FilePath) : t.find? loc ≠ some (.link target) := by
  intro found
  rcases mem_entries_of_find? found with rfl | listed
  · exact absurd (Option.some.inj found) (by simp)
  · exact h _ listed target rfl

/-- A tree is sound if every entry that it lists is in a directory. -/
theorem isSound_of_entries
    (h : ∀ e ∈ t.entries, t.find? e.1.dropLast = some .directory)
    (hworking : t.find? t.workingDirectory = some .directory) : t.IsSound := by
  refine ⟨fun dir name hfound => ?_, hworking⟩
  obtain ⟨entry, hentry⟩ := Option.ne_none_iff_exists'.mp hfound
  rcases mem_entries_of_find? hentry with empty | listed
  · exact absurd empty (by simp)
  · have parent := h _ listed
    rwa [List.dropLast_concat] at parent

theorem IsSound.dropLast (hs : t.IsSound) (h : t.find? dir = some .directory) :
    t.find? dir.dropLast = some .directory := by
  cases dir using List.reverseRecOn with
  | nil => exact h
  | append_singleton dir name =>
    rw [List.dropLast_concat]
    exact hs.parent dir name (by simp [h])

/-- From a directory points lead to a directory. -/
theorem IsSound.points? {there : Location} {name : String} (hs : t.IsSound) 
    (hgoes : points? dir name = some there) (h : t.find? dir = some .directory) :
    t.find? there = some .directory := by
  rw [FileTree.points?] at hgoes
  split at hgoes
  · obtain rfl := Option.some.inj hgoes
    exact hs.dropLast h
  split at hgoes
  · obtain rfl := Option.some.inj hgoes
    exact h
  · exact absurd hgoes (by simp)

/-- In a directory that is missing there is nothing. -/
theorem IsSound.find?_eq_none (hs : t.IsSound) (h : t.find? dir = none) (name : String) :
    t.find? (dir ++ [name]) = none := by
  refine Decidable.not_not.mp fun present => ?_
  exact absurd ((hs.parent dir name present).symm.trans h) (by simp)

theorem IsSound.start (hs : t.IsSound) (p : FilePath) :
    t.find? (t.start p) = some .directory := by
  rw [FileTree.start]
  split
  · rfl
  · exact hs.working

/-- The directory at which the target of a link is looked up. -/
theorem find?_linkStart (h : t.find? dir = some .directory) (target : FilePath) :
    t.find? (if target.isAbsolute then [] else dir) = some .directory := by
  split
  · rfl
  · exact h

/-- A directory is only ever led to directories. -/
theorem Leads.isDirectory (h : t.Leads links dir names left loc) (hs : t.IsSound)
    (hdir : t.find? dir = some .directory) : t.find? loc = some .directory := by
  induction h with
  | here links dir => exact hdir
  | points goes _ ih => exact ih (hs.points? goes hdir)
  | down _ hfound _ ih => exact ih hfound
  | jump _ _ _ ih => exact ih (find?_linkStart hdir _)

theorem LeadsTo.isDirectory (h : t.LeadsTo p loc) (hs : t.IsSound) :
    t.find? loc = some .directory := by
  obtain ⟨left, led⟩ := h
  exact led.isDirectory hs (hs.start p)

/-- A walk ends at a directory or at an entry of one; at a link only if it does not follow it. -/
theorem walk_cases (hs : t.IsSound) (hdir : t.find? dir = some .directory)
    (h : t.walk follow links dir names = .ok loc) :
    t.find? loc = some .directory ∨
      ∃ mid name, loc = mid ++ [name] ∧ t.find? mid = some .directory ∧
        (IsPlain (t.find? loc) ∨ follow = false) := by
  rw [walk_eq_ok_iff] at h
  -- a walk ends where it starts, or at its last name
  induction h with
  | here links dir => exact .inl hdir
  | points goes _ ih => exact ih (hs.points? goes hdir)
  | down _ hfound _ ih => exact ih hfound
  | jump _ _ _ _ ih => exact ih (find?_linkStart hdir _)
  | @atLink links dir name target nofollow _ _ =>
    exact .inr ⟨dir, name, rfl, hdir, .inr nofollow⟩
  | @atPlain links dir name _ hplain => exact .inr ⟨dir, name, rfl, hdir, .inl hplain⟩

theorem locateNames_cases (hs : t.IsSound) (h : t.locateNames follow p names = .ok loc) :
    t.find? loc = some .directory ∨
      ∃ mid name, loc = mid ++ [name] ∧ t.find? mid = some .directory ∧
        (IsPlain (t.find? loc) ∨ follow = false) :=
  walk_cases hs (hs.start p) (walk_of_locateNames h).2

/-! ## Changing one entry -/

/-- A tree is another one but for the entry at one location. -/
structure SetAt (t : FileTree) (loc : Location) (entry : Option Entry) (s : FileTree) : Prop where
  working : s.workingDirectory = t.workingDirectory
  here : s.find? loc = entry
  elsewhere : ∀ other, other ≠ loc → s.find? other = t.find? other

theorem setAt_insert (h : loc ≠ []) (t : FileTree) (entry : Entry) :
    t.SetAt loc (some entry) (t.insert loc entry) :=
  ⟨rfl, find?_insert_self h t entry, fun _ hother => find?_insert_of_ne hother t entry⟩

theorem setAt_erase (h : loc ≠ []) (t : FileTree) : t.SetAt loc none (t.erase loc) :=
  ⟨rfl, find?_erase_self h t, fun _ hother => find?_erase_of_ne hother t⟩

/-- What is changed at one location is changed alike where something else is missing. -/
theorem SetAt.erase {entry : Option Entry} (h : t.SetAt loc entry s) (hne : loc ≠ other)
    (hother : other ≠ []) : (t.erase other).SetAt loc entry (s.erase other) := by
  have before := setAt_erase hother t
  have after := setAt_erase hother s
  refine ⟨?_, (after.elsewhere loc hne).trans h.here, fun place elsewhere => ?_⟩
  · rw [after.working, h.working, before.working]
  · by_cases here : place = other
    · rw [here, after.here, before.here]
    · rw [after.elsewhere place here, h.elsewhere place elsewhere, before.elsewhere place here]

/-- It makes no difference what was at the location that is changed. -/
theorem SetAt.of_erase {entry : Option Entry} (h : t.SetAt loc entry s) (hloc : loc ≠ []) :
    (t.erase loc).SetAt loc entry s := by
  have gone := setAt_erase hloc t
  refine ⟨h.working.trans gone.working.symm, h.here, fun place elsewhere => ?_⟩
  rw [h.elsewhere place elsewhere, gone.elsewhere place elsewhere]

theorem ne_nil_of_find? (h : t.find? loc ≠ some .directory) : loc ≠ [] := by
  rintro rfl
  exact h rfl

/-- Something other than a directory may be changed or taken away, and something may be put into a
directory. -/
theorem IsSound.setAt {entry : Option Entry} (hs : t.IsSound) (h : t.SetAt loc entry s)
    (hloc : t.find? loc ≠ some .directory)
    (hparent : entry ≠ none → ∃ mid name, loc = mid ++ [name] ∧ t.find? mid = some .directory) :
    s.IsSound := by
  refine ⟨fun dir name hfound => ?_, ?_⟩
  · have differs : dir ++ [name] ≠ dir := by simp
    have elsewhere : dir ≠ loc := by
      rintro rfl
      rw [h.elsewhere _ differs] at hfound
      exact hloc (hs.parent dir name hfound)
    rw [h.elsewhere dir elsewhere]
    -- what is put in has its directory by assumption, everything else had it before
    by_cases here : dir ++ [name] = loc
    · obtain ⟨mid, last, same, hmid⟩ := hparent (by rwa [here, h.here] at hfound)
      obtain ⟨rfl, -⟩ := List.append_inj' (here.trans same) rfl
      exact hmid
    · rw [h.elsewhere _ here] at hfound
      exact hs.parent dir name hfound
  · have elsewhere : t.workingDirectory ≠ loc := by
      rintro same
      exact hloc (same ▸ hs.working)
    rw [h.working, h.elsewhere _ elsewhere]
    exact hs.working

/-- Putting something other than a link where neither a directory nor a link is moves nothing that a
walk passes. -/
theorem keeps_of_setAt {entry : Option Entry} (h : t.SetAt loc entry s)
    (hloc : IsPlain (t.find? loc)) (hentry : ∀ target, entry ≠ some (.link target)) :
    t.Keeps s := by
  refine ⟨⟨h.working, fun other target => ?_⟩, fun other hdir => ?_⟩
  · by_cases here : other = loc
    · subst here
      rw [h.here]
      exact ⟨fun found => absurd found (hentry target), fun found => absurd found (hloc.2 target)⟩
    · rw [h.elsewhere other here]
  · have elsewhere : other ≠ loc := by
      rintro rfl
      exact hloc.1 hdir
    rw [h.elsewhere other elsewhere, hdir]

/-! ## Operations -/

/-- A computation that gives a result has given one at each step. -/
theorem ok_of_bind {ε α β : Type} {first : Except ε α} {next : α → Except ε β} {y : β}
    (h : first >>= next = .ok y) : ∃ x, first = .ok x ∧ next x = .ok y := by
  cases first with
  | error e => cases h
  | ok x => exact ⟨x, rfl, h⟩

theorem lookUp_eq_ok {entry : Entry} (h : t.lookUp follow p = .ok (loc, entry)) :
    t.locate follow p = .ok loc ∧ t.find? loc = some entry := by
  rw [lookUp] at h
  obtain ⟨place, hloc, h⟩ := ok_of_bind h
  cases found : t.find? place with
  | none => simp [found] at h
  | some e =>
    simp only [found, Except.ok.injEq, Prod.mk.injEq] at h
    obtain ⟨rfl, rfl⟩ := h
    exact ⟨hloc, found⟩

/-- A file is written where its path leads, over links, and only where no directory is. -/
theorem writeFile_eq_ok (h : t.writeFile p content = .ok s) :
    ∃ loc, t.locate true p = .ok loc ∧ t.find? loc ≠ some .directory ∧
      t.SetAt loc (some (.file content)) s := by
  rw [writeFile] at h
  obtain ⟨loc, hloc, h⟩ := ok_of_bind h
  by_cases hdir : t.find? loc = some .directory
  · simp [hdir] at h
  · have same : t.insert loc (.file content) = s := by
      cases found : t.find? loc with
      | none => simpa [found] using h
      | some e =>
        cases e with
        | directory => exact absurd found hdir
        | file _ => simpa [found] using h
        | link _ => simpa [found] using h
    exact ⟨loc, hloc, hdir, same ▸ setAt_insert (ne_nil_of_find? hdir) t (.file content)⟩

theorem writeFile_of_locate (h : t.locate true p = .ok loc) (hdir : t.find? loc ≠ some .directory)
    (content : Bytes) : t.writeFile p content = .ok (t.insert loc (.file content)) := by
  rw [writeFile, h]
  simp only [bind, Except.bind]

/-- What is removed is no directory, and its path is not followed over a link at its end. -/
theorem removeFile_eq_ok (h : t.removeFile p = .ok s) :
    ∃ loc, t.locate false p = .ok loc ∧ t.find? loc ≠ some .directory ∧ t.find? loc ≠ none ∧
      t.SetAt loc none s := by
  rw [removeFile] at h
  obtain ⟨⟨loc, entry⟩, hfound, h⟩ := ok_of_bind h
  obtain ⟨hloc, hentry⟩ := lookUp_eq_ok hfound
  have hdir : t.find? loc ≠ some .directory := by
    intro hdir
    rw [hentry] at hdir
    obtain rfl := Option.some.inj hdir
    simp at h
  have same : t.erase loc = s := by
    cases entry with
    | directory => exact absurd hentry hdir
    | file _ => simpa using h
    | link _ => simpa using h
  exact ⟨loc, hloc, hdir, by simp [hentry], same ▸ setAt_erase (ne_nil_of_find? hdir) t⟩

/-- Anything but a directory is moved to where no directory is. -/
theorem rename_eq_of_locate {source target : Location} {entry : Entry}
    (hsource : t.locate false p = .ok source) (hentry : t.find? source = some entry)
    (hdir : entry ≠ .directory) (htarget : t.locate false q = .ok target)
    (hthere : t.find? target ≠ some .directory) :
    t.rename p q
      = if source = target then .ok t else .ok ((t.erase source).insert target entry) := by
  rw [rename, lookUp, hsource]
  simp only [bind, Except.bind, hentry, htarget]

/-- What is moved is no directory, nor is what it takes the place of. -/
theorem rename_eq_ok (h : t.rename p q = .ok s) :
    ∃ source target entry, t.locate false p = .ok source ∧ t.find? source = some entry ∧
      entry ≠ .directory ∧ t.locate false q = .ok target ∧ t.find? target ≠ some .directory ∧
      (source = target ∧ s = t ∨
        source ≠ target ∧ ∃ mid, t.SetAt source none mid ∧ mid.SetAt target (some entry) s) := by
  have moved := h
  rw [rename] at h
  obtain ⟨⟨source, entry⟩, hfound, h⟩ := ok_of_bind h
  obtain ⟨hsource, hentry⟩ := lookUp_eq_ok hfound
  obtain ⟨target, htarget, h⟩ := ok_of_bind h
  -- directories are refused, the one to be moved first
  have notDir : entry ≠ .directory := by
    rintro rfl
    simp at h
  have targetNotDir : t.find? target ≠ some .directory := by
    intro hdir
    cases entry <;> simp [hdir] at h
  have sourceNotDir : t.find? source ≠ some .directory := by
    rw [hentry]
    exact fun same => notDir (Option.some.inj same)
  rw [rename_eq_of_locate hsource hentry notDir htarget targetNotDir] at moved
  refine ⟨source, target, entry, hsource, hentry, notDir, htarget, targetNotDir, ?_⟩
  by_cases same : source = target
  · rw [if_pos same] at moved
    exact .inl ⟨same, (Except.ok.inj moved).symm⟩
  · rw [if_neg same] at moved
    obtain rfl := Except.ok.inj moved
    exact .inr ⟨same, t.erase source, setAt_erase (ne_nil_of_find? sourceNotDir) t,
      setAt_insert (ne_nil_of_find? targetNotDir) _ entry⟩

/-- A tree stays sound when something is moved: it is put into a directory, which was not what has been
moved away. -/
theorem isSound_of_rename (hs : t.IsSound) (h : t.rename p q = .ok s) : s.IsSound := by
  obtain ⟨source, target, entry, -, hentry, notDir, htarget, targetNotDir, moved⟩ := rename_eq_ok h
  rcases moved with ⟨-, rfl⟩ | ⟨differs, mid, gone, put⟩
  · exact hs
  have sourceNotDir : t.find? source ≠ some .directory := by
    rw [hentry]
    exact fun same => notDir (Option.some.inj same)
  have sound := hs.setAt gone sourceNotDir fun present => absurd rfl present
  refine sound.setAt put ?_ fun _ => ?_
  · rwa [gone.elsewhere _ (Ne.symm differs)]
  rcases locateNames_cases hs htarget with isDir | ⟨dir, name, rfl, there, -⟩
  · exact absurd isDir targetNotDir
  · have elsewhere : dir ≠ source := by
      rintro rfl
      exact sourceNotDir there
    exact ⟨dir, name, rfl, (gone.elsewhere dir elsewhere).trans there⟩

theorem rename_of_locate {source target : Location} {entry : Entry}
    (hsource : t.locate false p = .ok source) (hentry : t.find? source = some entry)
    (hdir : entry ≠ .directory) (htarget : t.locate false q = .ok target)
    (hthere : t.find? target ≠ some .directory) : ∃ s, t.rename p q = .ok s := by
  rw [rename_eq_of_locate hsource hentry hdir htarget hthere]
  split <;> exact ⟨_, rfl⟩

theorem statLink_of_locate (h : t.locate false p = .ok loc) :
    t.statLink p = match t.find? loc with
      | some entry => .ok entry
      | none => .error .notFound := by
  rw [statLink, lookUp, h]
  simp only [bind, Except.bind, Functor.map, Except.map]
  cases t.find? loc <;> rfl

theorem statLink_of_error {fault : Fault} (h : t.locate false p = .error fault) :
    t.statLink p = .error fault := by
  rw [statLink, lookUp, h]
  rfl

theorem statLink_eq_ok {entry : Entry} (h : t.statLink p = .ok entry) :
    ∃ loc, t.locate false p = .ok loc ∧ t.find? loc = some entry := by
  cases located : t.locate false p with
  | error fault => exact absurd ((statLink_of_error located).symm.trans h) (by simp)
  | ok loc =>
    rw [statLink_of_locate located] at h
    cases found : t.find? loc with
    | none => simp [found] at h
    | some e =>
      rw [found] at h
      exact ⟨loc, rfl, found.trans (congrArg some (Except.ok.inj h))⟩

/-- What is read at a location. -/
def readAt (t : FileTree) (loc : Location) : Except Fault Bytes :=
  match t.find? loc with
  | some (.file content) => .ok content
  | some _ => .error .isADirectory
  | none => .error .notFound

theorem readFile_of_locate (h : t.locate true p = .ok loc) : t.readFile p = t.readAt loc := by
  rw [readFile, stat, lookUp, h, readAt]
  simp only [bind, Except.bind, Functor.map, Except.map]
  cases t.find? loc with
  | none => rfl
  | some entry => cases entry <;> rfl

theorem list_of_locate (h : t.locate true p = .ok loc) :
    t.list p = match t.find? loc with
      | some .directory => .ok (t.namesIn loc)
      | some _ => .error .notADirectory
      | none => .error .notFound := by
  rw [list, lookUp, h]
  simp only [bind, Except.bind]
  cases t.find? loc with
  | none => rfl
  | some entry => cases entry <;> rfl

theorem list_of_locate_error {fault : Fault} (h : t.locate true p = .error fault) :
    t.list p = .error fault := by
  rw [list, lookUp, h]
  rfl

theorem readFile_of_error {fault : Fault} (h : t.locate true p = .error fault) :
    t.readFile p = .error fault := by
  rw [readFile, stat, lookUp, h]
  rfl

theorem readFile_eq_ok_iff :
    t.readFile p = .ok content ↔
      ∃ loc, t.locate true p = .ok loc ∧ t.find? loc = some (.file content) := by
  cases hloc : t.locate true p with
  | error fault =>
    rw [readFile_of_error hloc]
    constructor
    · intro h
      exact absurd h (by simp)
    · rintro ⟨loc, found, -⟩
      exact absurd found (by simp)
  | ok place =>
    rw [readFile_of_locate hloc, readAt]
    constructor
    · intro h
      refine ⟨place, rfl, ?_⟩
      cases found : t.find? place with
      | none => simp [found] at h
      | some entry => cases entry <;> simp_all
    · rintro ⟨loc, same, found⟩
      obtain rfl := Except.ok.inj same
      rw [found]

/-! ## Missing files -/

theorem locate_follow (hlink : ∀ loc target, t.locate false p = .ok loc →
    t.find? loc ≠ some (.link target)) : t.locate true p = t.locate false p := by
  by_cases hwalk : Walkable p
  · rw [locate, locate, locateNames_eq_walk hwalk, locateNames_eq_walk hwalk]
    rcases walk_follow t mostLinks (t.start p) p.names with same | ⟨loc, target, walked, found⟩
    · exact same
    · exact absurd found (hlink loc target (by rw [locate, locateNames_eq_walk hwalk, walked]))
  · obtain ⟨fault, failed⟩ := locateNames_error hwalk
    rw [locate, locate, failed, failed]

/-- What cannot be removed because it is missing is missing. -/
theorem statLink_of_removeFile_notFound (h : t.removeFile p = .error .notFound) :
    t.statLink p = .error .notFound := by
  rw [removeFile, lookUp] at h
  cases located : t.locate false p with
  | error fault =>
    rw [located] at h
    obtain rfl : fault = .notFound := Except.error.inj h
    exact statLink_of_error located
  | ok loc =>
    rw [located] at h
    rw [statLink_of_locate located]
    simp only [bind, Except.bind] at h
    cases found : t.find? loc with
    | none => rfl
    | some entry => cases entry <;> simp [found] at h

/-- What is missing cannot be read, and that is what is told. -/
theorem readFile_of_statLink_notFound (h : t.statLink p = .error .notFound) :
    t.readFile p = .error .notFound := by
  have follow : t.locate true p = t.locate false p := by
    refine locate_follow fun loc target located isLink => ?_
    rw [statLink_of_locate located, isLink] at h
    exact absurd h (by simp)
  cases located : t.locate false p with
  | error fault =>
    rw [statLink_of_error located] at h
    obtain rfl := Except.error.inj h
    exact readFile_of_error (follow.trans located)
  | ok loc =>
    rw [statLink_of_locate located] at h
    rw [readFile_of_locate (follow.trans located), readAt]
    cases found : t.find? loc with
    | none => rfl
    | some entry => simp [found] at h

end ImageGateway.Storage.FileTree
