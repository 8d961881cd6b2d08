import ImageGateway.Proofs.Storage.Programs

/-!
# Removing files

After files and links have been removed (`Erases`) every path leads where it led, or to nothing
(`IsThere.of_erases`, `Erases.locate_error`). So what can be read afterwards could be read before
(`Erases.readFile`), and removing a file that could have been removed does not fail
(`Erases.removeFile_error`).
-/

set_option autoImplicit false

namespace ImageGateway.Storage

namespace FileTree

variable {t s u : FileTree} {follow : Bool} {links : Nat} {dir loc : Location}
  {names : List String} {p : FilePath} {content : Bytes} {fault : Fault}
  {gone gone' : Location → Prop}

/-- Nothing is different but files and links that have been removed from some locations. -/
structure Erases (gone : Location → Prop) (t s : FileTree) : Prop where
  working : s.workingDirectory = t.workingDirectory
  entry : ∀ loc, s.find? loc = t.find? loc ∨
    gone loc ∧ t.find? loc ≠ some .directory ∧ s.find? loc = none

/-- A walk that fails where nothing is does so because of that. -/
theorem eq_notFound_of_walk {name : String} {rest : List String} (hname : IsStep name)
    (hempty : t.find? (dir ++ [name]) = none)
    (hwalk : t.walk follow links dir (name :: rest) = .error fault) : fault = .notFound := by
  cases rest with
  | nil =>
    rw [walk_plain hname (hempty ▸ isPlain_none)] at hwalk
    exact absurd hwalk (by simp)
  | cons next rest =>
    rw [walk_missing hname hempty (List.cons_ne_nil next rest)] at hwalk
    exact (Except.error.inj hwalk).symm

namespace Erases

theorem refl (gone : Location → Prop) (t : FileTree) : t.Erases gone t :=
  ⟨rfl, fun _ => .inl rfl⟩

theorem mono (h : t.Erases gone s) (hmono : ∀ loc, gone loc → gone' loc) : t.Erases gone' s := by
  refine ⟨h.working, fun loc => ?_⟩
  rcases h.entry loc with same | ⟨removed, entries⟩
  · exact .inl same
  · exact .inr ⟨hmono loc removed, entries⟩

theorem trans (h : t.Erases gone s) (h' : s.Erases gone u) : t.Erases gone u := by
  refine ⟨h'.working.trans h.working, fun loc => ?_⟩
  rcases h.entry loc with same | ⟨removed, notDir, empty⟩
  · rw [← same]
    exact h'.entry loc
  · rcases h'.entry loc with same' | ⟨-, -, empty'⟩
    · exact .inr ⟨removed, notDir, same'.trans empty⟩
    · exact .inr ⟨removed, notDir, empty'⟩

/-- What is there was there. -/
theorem find?_eq_some {entry : Entry} (h : t.Erases gone s) (hfound : s.find? loc = some entry) :
    t.find? loc = some entry := by
  rcases h.entry loc with same | ⟨-, -, empty⟩
  · exact same.symm.trans hfound
  · exact absurd (empty.symm.trans hfound) (by simp)

/-- No directory has been removed. -/
theorem find?_directory (h : t.Erases gone s) (hdir : t.find? loc = some .directory) :
    s.find? loc = some .directory := by
  rcases h.entry loc with same | ⟨-, notDir, -⟩
  · exact same.trans hdir
  · exact absurd hdir notDir

theorem isSound (h : t.Erases gone s) (hs : t.IsSound) : s.IsSound := by
  refine ⟨fun dir name there => ?_, ?_⟩
  · obtain ⟨entry, found⟩ := Option.ne_none_iff_exists'.mp there
    have before := h.find?_eq_some found
    exact h.find?_directory (hs.parent dir name (by simp [before]))
  · rw [h.working]
    exact h.find?_directory hs.working

/-- A walk that finds something found it before. -/
theorem walk_eq_ok (h : t.Erases gone s) (hwalk : s.walk follow links dir names = .ok loc)
    (hfound : s.find? loc ≠ none) : t.walk follow links dir names = .ok loc := by
  rw [walk_eq_ok_iff] at hwalk ⊢
  -- the walk passes directories and links, which were there
  induction hwalk with
  | here links dir => exact .here links dir
  | points goes _ ih => exact .points goes (ih hfound)
  | down hname hdir _ ih => exact .down hname (h.find?_eq_some hdir) (ih hfound)
  | jump hname hlink hgo _ ih => exact .jump hname (h.find?_eq_some hlink) hgo (ih hfound)
  | atLink nofollow hname hlink => exact .atLink nofollow hname (h.find?_eq_some hlink)
  | @atPlain links dir name hname hplain =>
    -- at its end the walk has found a file, and no link that it might have followed before
    rcases h.entry (dir ++ [name]) with same | ⟨-, -, empty⟩
    · exact .atPlain hname (same ▸ hplain)
    · exact absurd empty hfound

/-- A walk fails as it did, or because something is missing. -/
theorem walk_error (h : t.Erases gone s)
    (hwalk : s.walk follow links dir names = .error fault) :
    fault = .notFound ∨ t.walk follow links dir names = .error fault := by
  -- where something has been removed the walk comes to its end or finds nothing to go on with
  induction links, dir, names using walk_induct t with
  | nil links dir =>
    rw [walk_nil] at hwalk
    exact absurd hwalk (by simp)
  | points links dir name rest there goes ih =>
    rw [walk_points goes] at hwalk ⊢
    exact ih hwalk
  | tooLong links dir name rest isName long =>
    rw [walk_tooLong isName long] at hwalk ⊢
    exact .inr hwalk
  | directory links dir name rest hname hdir ih =>
    rw [walk_directory hname (h.find?_directory hdir)] at hwalk
    rw [walk_directory hname hdir]
    exact ih hwalk
  | lastLink dir name target rest hname hlink =>
    rcases h.entry (dir ++ [name]) with same | ⟨-, -, empty⟩
    · rcases goes_or_ends rest follow with hgo | ⟨rfl, rfl⟩
      · rw [walk_link hname (same.trans hlink) hgo] at hwalk
        rw [walk_link hname hlink hgo]
        exact .inr hwalk
      · rw [walk_last_link hname (same.trans hlink)] at hwalk
        exact absurd hwalk (by simp)
    · exact .inl (eq_notFound_of_walk hname empty hwalk)
  | link links dir name target rest hname hlink ih =>
    rcases h.entry (dir ++ [name]) with same | ⟨-, -, empty⟩
    · rcases goes_or_ends rest follow with hgo | ⟨rfl, rfl⟩
      · rw [walk_link hname (same.trans hlink) hgo, FileTree.jump] at hwalk
        rw [walk_link hname hlink hgo, FileTree.jump]
        exact ih hwalk
      · rw [walk_last_link hname (same.trans hlink)] at hwalk
        exact absurd hwalk (by simp)
    · exact .inl (eq_notFound_of_walk hname empty hwalk)
  | plain links dir name rest hname hplain =>
    rcases h.entry (dir ++ [name]) with same | ⟨-, -, empty⟩
    · exact .inr ((walk_plain_congr hname hplain same).symm.trans hwalk)
    · exact .inl (eq_notFound_of_walk hname empty hwalk)

/-- Names that lead to a directory led there before. -/
theorem leads (h : t.Erases gone s) {left : Nat} (hled : s.Leads links dir names left loc) :
    t.Leads links dir names left loc := by
  induction hled with
  | here links dir => exact .here links dir
  | points goes _ ih => exact .points goes ih
  | down hname hdir _ ih => exact .down hname (h.find?_eq_some hdir) ih
  | jump hname hlink _ ih => exact .jump hname (h.find?_eq_some hlink) ih

/-- Names still lead where they led, unless a link has been removed. -/
theorem leads_or_link (h : t.Erases gone s) {left : Nat} (hled : t.Leads links dir names left loc) :
    s.Leads links dir names left loc ∨
      ∃ spot target, t.find? spot = some (.link target) ∧ s.find? spot = none := by
  induction hled with
  | here links dir => exact .inl (.here links dir)
  | points goes _ ih => exact ih.imp_left (.points goes)
  | down hname hdir _ ih => exact ih.imp_left (.down hname (h.find?_directory hdir))
  | jump hname hlink _ ih =>
    rcases h.entry _ with same | ⟨-, -, empty⟩
    · exact ih.imp_left (.jump hname (same.trans hlink))
    · exact .inr ⟨_, _, hlink, empty⟩

/-! ## Paths -/

theorem leadsTo (h : t.Erases gone s) (hled : s.LeadsTo p loc) : t.LeadsTo p loc := by
  obtain ⟨left, led⟩ := hled
  rw [start, h.working] at led
  exact ⟨left, h.leads led⟩

theorem leadsTo_or_link (h : t.Erases gone s) (hled : t.LeadsTo p loc) :
    s.LeadsTo p loc ∨ ∃ spot target, t.find? spot = some (.link target) ∧ s.find? spot = none := by
  obtain ⟨left, led⟩ := hled
  rw [LeadsTo, start, h.working]
  exact (h.leads_or_link led).imp_left fun led => ⟨left, led⟩

theorem locate_eq_ok (h : t.Erases gone s) (hlocated : s.locate follow p = .ok loc)
    (hfound : s.find? loc ≠ none) : t.locate follow p = .ok loc := by
  obtain ⟨hwalk, walked⟩ := walk_of_locateNames hlocated
  rw [start, h.working] at walked
  rw [locate, locateNames_eq_walk hwalk]
  exact h.walk_eq_ok walked hfound

theorem locate_error (h : t.Erases gone s) (hlocated : s.locate follow p = .error fault) :
    fault = .notFound ∨ t.locate follow p = .error fault := by
  by_cases hwalk : Walkable p
  · rw [locate, locateNames_eq_walk hwalk, start, h.working] at hlocated
    rw [locate, locateNames_eq_walk hwalk]
    exact h.walk_error hlocated
  · obtain ⟨fault', failed⟩ := locateNames_error hwalk
    rw [locate, failed] at hlocated ⊢
    exact .inr hlocated

/-- What is read could be read before. -/
theorem readFile (h : t.Erases gone s) (hread : s.readFile p = .ok content) :
    t.readFile p = .ok content := by
  obtain ⟨loc, located, found⟩ := readFile_eq_ok_iff.mp hread
  exact readFile_eq_ok_iff.mpr
    ⟨loc, h.locate_eq_ok located (by simp [found]), h.find?_eq_some found⟩

/-- What is missing stays missing. -/
theorem statLink_notFound (h : t.Erases gone s) (hmissing : t.statLink p = .error .notFound) :
    s.statLink p = .error .notFound := by
  cases located : s.locate false p with
  | error fault =>
    rw [statLink_of_error located]
    rcases h.locate_error located with rfl | before
    · rfl
    · rw [← hmissing, statLink_of_error before]
  | ok loc =>
    rw [statLink_of_locate located]
    cases found : s.find? loc with
    | none => rfl
    | some entry =>
      have there := statLink_of_locate (h.locate_eq_ok located (by simp [found]))
      rw [h.find?_eq_some found, hmissing] at there
      exact absurd there (by simp)

/-- Where a file was or nothing, removing it fails only if it is missing. -/
theorem removeFile_error (h : t.Erases gone s)
    (hthere : (∃ content, t.statLink p = .ok (.file content)) ∨
      t.statLink p = .error .notFound)
    (hremove : s.removeFile p = .error fault) : fault = .notFound := by
  rw [removeFile, lookUp] at hremove
  cases located : s.locate false p with
  | error fault' =>
    rw [located] at hremove
    obtain rfl : fault' = fault := Except.error.inj hremove
    rcases h.locate_error located with missing | before
    · exact missing
    · have failed := statLink_of_error before
      rcases hthere with ⟨content, there⟩ | missing
      · exact absurd (failed.symm.trans there) (by simp)
      · exact Except.error.inj (failed.symm.trans missing)
  | ok loc =>
    rw [located] at hremove
    simp only [bind, Except.bind] at hremove
    cases found : s.find? loc with
    | none =>
      simp only [found] at hremove
      exact (Except.error.inj hremove).symm
    | some entry =>
      cases entry with
      | directory =>
        -- a directory would have been there before
        have before := h.locate_eq_ok located (by simp [found])
        have there := statLink_of_locate before
        rw [h.find?_eq_some found] at there
        rcases hthere with ⟨content, file⟩ | missing
        · exact absurd (there.symm.trans file) (by simp)
        · exact absurd (there.symm.trans missing) (by simp)
      | file content => simp [found] at hremove
      | link target => simp [found] at hremove

end Erases

/-- Something is at a path, and at which location. -/
def IsThere (t : FileTree) (p : FilePath) (loc : Location) : Prop :=
  t.locate false p = .ok loc ∧ t.find? loc ≠ none

theorem IsThere.of_erases (h : s.IsThere p loc) (herases : t.Erases gone s) : t.IsThere p loc := by
  obtain ⟨located, there⟩ := h
  obtain ⟨entry, found⟩ := Option.ne_none_iff_exists'.mp there
  exact ⟨herases.locate_eq_ok located there, by simp [herases.find?_eq_some found]⟩

/-- What is at the path is removed. -/
theorem erases_of_removeFile (h : t.removeFile p = .ok s) : t.Erases (t.IsThere p) s := by
  obtain ⟨loc, located, notDir, there, removed⟩ := removeFile_eq_ok h
  refine ⟨removed.working, fun other => ?_⟩
  by_cases here : other = loc
  · subst here
    exact .inr ⟨⟨located, there⟩, notDir, removed.here⟩
  · exact .inl (removed.elsewhere other here)

/-- There is a file or a link at a path. -/
def HasFile (t : FileTree) (p : FilePath) : Prop :=
  ∃ entry, t.statLink p = .ok entry ∧ entry ≠ .directory

theorem hasFile_iff : t.HasFile p ↔ ∃ s, t.removeFile p = .ok s := by
  constructor
  · rintro ⟨entry, there, notDir⟩
    obtain ⟨loc, located, found⟩ := statLink_eq_ok there
    rw [removeFile, lookUp, located]
    simp only [bind, Except.bind, found]
    cases entry with
    | directory => exact absurd rfl notDir
    | file content => exact ⟨_, rfl⟩
    | link target => exact ⟨_, rfl⟩
  · rintro ⟨s, removed⟩
    obtain ⟨loc, located, notDir, there, -⟩ := removeFile_eq_ok removed
    obtain ⟨entry, found⟩ := Option.ne_none_iff_exists'.mp there
    refine ⟨entry, by rw [statLink_of_locate located, found], ?_⟩
    rintro rfl
    exact notDir found

/-- Nothing is at the path of what has been removed. -/
theorem statLink_of_removeFile (h : t.removeFile p = .ok s) : s.statLink p = .error .notFound := by
  have erases := erases_of_removeFile h
  obtain ⟨loc, located, -, -, removed⟩ := removeFile_eq_ok h
  cases located' : s.locate false p with
  | error fault =>
    rw [statLink_of_error located']
    rcases erases.locate_error located' with rfl | before
    · rfl
    · exact absurd (located.symm.trans before) (by simp)
  | ok place =>
    rw [statLink_of_locate located']
    cases found : s.find? place with
    | none => rfl
    | some entry =>
      have before := erases.locate_eq_ok located' (by simp [found])
      obtain rfl := Except.ok.inj (located.symm.trans before)
      exact absurd (removed.here.symm.trans found) (by simp)

end FileTree

/-! ## Programs that remove files -/

open FileTree

variable {t s : FileTree} {path : FilePath}

theorem erases_tryRemove (path : FilePath) (t : FileTree) :
    t.Erases (t.IsThere path) (treeAfter (Disk.tryRemove path) t) := by
  rw [treeAfter, Disk.tryRemove]
  cases removed : t.removeFile path with
  | ok s => exact erases_of_removeFile removed
  | error fault => exact .refl _ t

theorem erases_removeIfPresent (path : FilePath) (t : FileTree) :
    t.Erases (t.IsThere path) (treeAfter (Disk.removeIfPresent path) t) := by
  rw [treeAfter, Disk.removeIfPresent]
  cases removed : t.removeFile path with
  | ok s => exact erases_of_removeFile removed
  | error fault => cases fault <;> exact .refl _ t

/-- A file has been removed, or nothing was there. -/
theorem removeIfPresent_eq_ok {x : Unit} (h : Disk.removeIfPresent path t = .ok x s) :
    t.removeFile path = .ok s ∨ t.removeFile path = .error .notFound ∧ s = t := by
  rw [Disk.removeIfPresent] at h
  cases removed : t.removeFile path with
  | ok u =>
    rw [removed] at h
    obtain ⟨-, rfl⟩ := EStateM.Result.ok.inj h
    exact .inl rfl
  | error fault =>
    rw [removed] at h
    cases fault with
    | notFound =>
      obtain ⟨-, rfl⟩ := EStateM.Result.ok.inj h
      exact .inr ⟨rfl, rfl⟩
    | _ => cases h

/-- Afterwards nothing is there. -/
theorem statLink_of_removeIfPresent {x : Unit} (h : Disk.removeIfPresent path t = .ok x s) :
    s.statLink path = .error .notFound := by
  rcases removeIfPresent_eq_ok h with removed | ⟨missing, rfl⟩
  · exact statLink_of_removeFile removed
  · exact statLink_of_removeFile_notFound missing

/-- Only something that is in the way is a fault, which is that of the path. -/
theorem removeIfPresent_eq_error {e : Error} (h : Disk.removeIfPresent path t = .error e s) :
    s = t ∧ ∃ fault, e = .io path fault ∧ t.removeFile path = .error fault ∧ fault ≠ .notFound := by
  rw [Disk.removeIfPresent] at h
  cases removed : t.removeFile path with
  | ok u =>
    rw [removed] at h
    cases h
  | error fault =>
    rw [removed] at h
    cases fault with
    | notFound => cases h
    | _ =>
      obtain ⟨rfl, rfl⟩ := EStateM.Result.error.inj h
      exact ⟨rfl, _, rfl, rfl, by simp⟩

end ImageGateway.Storage
