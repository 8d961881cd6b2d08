import ImageGateway.Proofs.Storage.Overwriting

/-!
# Trees that only grow

A tree extends another one if nothing has been changed or taken away and no link has been added
(`Extends`): whatever could be read before is read again (`Extends.readFile`). Making directories only
extends a tree (`Grown.extend`), and so does writing a file where a path leads to nothing
(`writeFile_of_missing`). A path that never goes up leads to the directory that was there or, once
directories have been made, to a new one with nothing in it (`makeDirs_eq_or_empty`).
-/

set_option autoImplicit false

namespace ImageGateway.Storage.FileTree

variable {t s u : FileTree} {links left : Nat} {dir loc : Location} {name f : String}
  {names rest : List String} {p : FilePath} {content : Bytes}

/-- Nothing has been changed or taken away, and no link has been added. -/
structure Extends (t s : FileTree) : Prop where
  working : s.workingDirectory = t.workingDirectory
  entry : ∀ loc, s.find? loc = t.find? loc ∨
    t.find? loc = none ∧ ∀ target, s.find? loc ≠ some (.link target)

namespace Extends

theorem refl (t : FileTree) : t.Extends t := ⟨rfl, fun _ => .inl rfl⟩

theorem trans (h : t.Extends s) (h' : s.Extends u) : t.Extends u := by
  refine ⟨h'.working.trans h.working, fun loc => ?_⟩
  rcases h.entry loc with same | ⟨gone, noLink⟩
  · rw [← same]
    exact h'.entry loc
  · refine .inr ⟨gone, fun target isLink => ?_⟩
    rcases h'.entry loc with same' | ⟨-, noLink'⟩
    · exact noLink target (same' ▸ isLink)
    · exact noLink' target isLink

/-- What was there is there. -/
theorem find? {entry : Entry} (h : t.Extends s) (found : t.find? loc = some entry) :
    s.find? loc = some entry := by
  rcases h.entry loc with same | ⟨gone, -⟩
  · exact same.trans found
  · exact absurd (gone.symm.trans found) (by simp)

theorem keeps (h : t.Extends s) : t.Keeps s := by
  refine ⟨⟨h.working, fun loc target => ⟨fun isLink => ?_, h.find?⟩⟩, fun loc => h.find?⟩
  rcases h.entry loc with same | ⟨-, noLink⟩
  · exact same.symm.trans isLink
  · exact absurd isLink (noLink target)

/-- What could be read at a path is read there. -/
theorem readFile (h : t.Extends s) (read : t.readFile p = .ok content) :
    s.readFile p = .ok content := by
  obtain ⟨loc, located, found⟩ := readFile_eq_ok_iff.mp read
  exact readFile_eq_ok_iff.mpr ⟨loc, locate_of_keeps located h.keeps, h.find? found⟩

end Extends

theorem Grown.extend (h : Grown p t s) : t.Extends s := by
  refine ⟨h.working, fun loc => ?_⟩
  rcases h.entry loc with same | ⟨gone, made, -⟩
  · exact .inl same
  · exact .inr ⟨gone, by simp [made]⟩

/-! ## Where nothing is -/

theorem stat_of_locate (h : t.locate true p = .ok loc) :
    t.stat p = match t.find? loc with
      | some entry => .ok entry
      | none => .error .notFound := by
  rw [stat, lookUp, h]
  simp only [bind, Except.bind, Functor.map, Except.map]
  cases t.find? loc <;> rfl

theorem stat_of_error {fault : Fault} (h : t.locate true p = .error fault) :
    t.stat p = .error fault := by
  rw [stat, lookUp, h]
  rfl

/-- A path that may be that of a file leads nowhere exactly if nothing is found where it leads. -/
theorem leadsSomewhere_eq_false_iff (hp : p.asksForDirectory = false) :
    t.leadsSomewhere p = false ↔ ∀ loc, t.locate true p = .ok loc → t.find? loc = none := by
  rw [leadsSomewhere]
  cases located : t.locate true p with
  | error fault =>
    rw [stat_of_error located]
    refine ⟨fun _ loc located => ?_, fun _ => rfl⟩
    exact absurd located (by simp)
  | ok loc =>
    rw [stat_of_locate located]
    cases found : t.find? loc with
    | none => exact ⟨fun _ _ same => Except.ok.inj same ▸ found, fun _ => rfl⟩
    | some entry =>
      constructor
      · intro h
        simp [hp] at h
      · intro h
        exact absurd (found.symm.trans (h loc rfl)) (by simp)

/-- A file that can be read is something. -/
theorem leadsSomewhere_of_readFile (hp : p.asksForDirectory = false)
    (read : t.readFile p = .ok content) : t.leadsSomewhere p = true := by
  obtain ⟨loc, located, found⟩ := readFile_eq_ok_iff.mp read
  rw [← Bool.not_eq_false, leadsSomewhere_eq_false_iff hp]
  intro h
  exact absurd (found.symm.trans (h loc located)) (by simp)

/-- A path that leads to a file does not ask for a directory. -/
theorem asksForDirectory_of_readFile (there : t.leadsSomewhere p = true)
    (read : t.readFile p = .ok content) : p.asksForDirectory = false := by
  obtain ⟨loc, located, found⟩ := readFile_eq_ok_iff.mp read
  rw [leadsSomewhere, stat_of_locate located, found] at there
  simpa using there

/-- A file that is written where nothing was is all that is new, and is read with its content. -/
theorem writeFile_of_missing (hp : p.asksForDirectory = false) (missing : t.leadsSomewhere p = false)
    (h : t.writeFile p content = .ok s) : t.Extends s ∧ s.readFile p = .ok content := by
  obtain ⟨loc, located, -, hset⟩ := writeFile_eq_ok h
  have gone := (leadsSomewhere_eq_false_iff hp).mp missing loc located
  have extends' : t.Extends s := by
    refine ⟨hset.working, fun other => ?_⟩
    by_cases here : other = loc
    · subst here
      exact .inr ⟨gone, by simp [hset.here]⟩
    · exact .inl (hset.elsewhere other here)
  exact ⟨extends', readFile_eq_ok_iff.mpr
    ⟨loc, locate_of_keeps located extends'.keeps, hset.here⟩⟩

/-- A copy is written with the content of a file. -/
theorem copyFile_eq_ok {p q : FilePath} (h : t.copyFile p q = .ok s) :
    ∃ content, t.readFile p = .ok content ∧ t.writeFile q content = .ok s := by
  rw [copyFile] at h
  obtain ⟨entry, there, written⟩ := ok_of_bind h
  cases entry with
  | file content =>
    refine ⟨content, ?_, written⟩
    rw [readFile, there]
    rfl
  | directory => exact absurd written (by simp)
  | link target => exact absurd written (by simp)

theorem isDirectory_iff (hs : t.IsSound) :
    t.isDirectory p = true ↔ Walkable p ∧ ∃ loc, t.LeadsTo p loc := by
  rw [isDirectory]
  constructor
  · intro h
    cases located : t.locate true p with
    | error fault => simp [stat_of_error located, Except.toOption] at h
    | ok loc =>
      have isDir : t.find? loc = some .directory := by
        rw [stat_of_locate located] at h
        cases found : t.find? loc with
        | none => simp [found, Except.toOption] at h
        | some entry => simpa [found, Except.toOption] using h
      -- a look-up that ends at a directory has gone through every name
      obtain ⟨walkable, walked⟩ := walk_of_locateNames located
      obtain ⟨left, led⟩ := leads_of_walk_directory walked isDir
      exact ⟨walkable, loc, left, led⟩
  · rintro ⟨walkable, loc, led⟩
    rw [stat_of_locate (led.locate walkable), led.isDirectory hs]
    rfl

/-! ## New directories -/

/-- Names lead to a directory in which nothing is. -/
def LeadsToEmpty (t : FileTree) (p : FilePath) (names : List String) : Prop :=
  ∃ left dir, t.Leads mostLinks (t.start p) names left dir ∧ ∀ name, t.find? (dir ++ [name]) = none

/-- From a directory in which nothing is no name leads on. -/
theorem LeadsToEmpty.eq_nil (h : t.LeadsToEmpty p names) (hnames : ∀ name ∈ rest, IsName name)
    (led : t.Leads mostLinks (t.start p) (names ++ rest) left loc) : rest = [] := by
  obtain ⟨left', dir, led', none⟩ := h
  obtain ⟨via, mid, front, back⟩ := led.split
  obtain ⟨rfl, rfl⟩ := led'.unique front (.refl t)
  cases back with
  | here _ _ => rfl
  | points goes _ =>
    have isName := hnames _ (List.mem_cons_self ..)
    exact absurd ((isName.points? _).symm.trans goes) (by simp)
  | down _ found _ => exact absurd ((none _).symm.trans found) (by simp)
  | jump _ found _ => exact absurd ((none _).symm.trans found) (by simp)

theorem leadsToEmpty_of_makeDir (hs : t.IsSound) (h : t.makeDir p names = .ok s) :
    s.LeadsToEmpty p names := by
  obtain ⟨mid, name, left, gone, -, hset, led⟩ := makeDir_eq_ok hs h
  refine ⟨left, mid ++ [name], led, fun below => ?_⟩
  rw [hset.elsewhere _ (by simp)]
  -- what was below would have been in a directory
  refine Decidable.not_not.mp fun found => ?_
  exact absurd (gone.symm.trans (hs.parent _ below found)) (by simp)

theorem ensureDir_eq_or_empty (hs : t.IsSound) (h : t.ensureDir p names = .ok s) :
    s = t ∨ s.LeadsToEmpty p names := by
  rw [ensureDir] at h
  split at h
  · rename_i u made
    obtain rfl := Except.ok.inj h
    exact .inr (leadsToEmpty_of_makeDir hs made)
  · split at h
    · exact .inl (Except.ok.inj h).symm
    · exact absurd h (by simp)

/-- However far the making of directories gets, the last one made is empty. -/
theorem makeDirsUpTo_eq_or_empty (hs : t.IsSound) (count : Nat) :
    (t.makeDirsUpTo p p.names count).2 = t ∨
      ∃ k, (t.makeDirsUpTo p p.names count).2.LeadsToEmpty p (p.names.take k) := by
  induction count with
  | zero => exact .inl rfl
  | succ count ih =>
    have sound := (grown_makeDirsUpTo (p := p) hs count).1
    rcases makeDirsUpTo_succ t p p.names count with
      ⟨s, made, done⟩ | ⟨s, ensured, done⟩ | ⟨-, done⟩ | ⟨fault, s, from', done⟩
    · rw [done]
      exact .inr ⟨count + 1, leadsToEmpty_of_makeDir hs made⟩
    · rw [done]
      rcases ensureDir_eq_or_empty sound ensured with rfl | empty
      · exact ih
      · exact .inr ⟨count + 1, empty⟩
    · rw [done]
      exact .inl rfl
    · rw [done]
      rcases from' with rfl | rfl
      · exact .inl rfl
      · exact ih

/-- The directory that a path which never goes up leads to is the one that was there, or a new one in
which nothing is, whether or not all directories could be made. -/
theorem makeDirs_eq_or_empty_of_leads (hs : t.IsSound) (hup : ".." ∉ p.names)
    (led : (t.makeDirs p).2.Leads mostLinks ((t.makeDirs p).2.start p) p.names left dir) :
    (t.makeDirs p).2 = t ∨ (t.makeDirs p).2.LeadsToEmpty p p.names := by
  obtain ⟨count, made, -⟩ := makeDirs_cases t p
  have new := makeDirsUpTo_eq_or_empty (p := p) hs count
  rw [← made] at new
  refine new.imp_right ?_
  rintro ⟨k, empty⟩
  -- behind the last directory that was made there are no names left
  have behind : ∀ name ∈ p.names.drop k, IsName name := fun name listed =>
    FilePath.isName_of_mem_names hup (List.mem_of_mem_drop listed)
  rw [← List.take_append_drop k p.names] at led
  have none := empty.eq_nil behind led
  rw [← List.take_append_drop k p.names, none, List.append_nil]
  exact empty

/-- A path that never goes up leads to the directory that was there, or to a new one in which nothing
is. -/
theorem makeDirs_eq_or_empty (hs : t.IsSound) (hup : ".." ∉ p.names)
    (h : t.makeDirs p = (.ok (), s)) : s = t ∨ s.LeadsToEmpty p p.names := by
  obtain ⟨dir, left, led⟩ := leadsTo_of_makeDirs hs (congrArg Prod.fst h)
  obtain rfl : (t.makeDirs p).2 = s := congrArg Prod.snd h
  exact makeDirs_eq_or_empty_of_leads hs hup led

/-- Where nothing was behind the path of a directory that is made, nothing is afterwards, unless the
path leads up from one of the directories made. -/
theorem missing_of_makeDirs (hs : t.IsSound) (hf : FilePath.IsComponent f)
    (hup : ".." ∉ p.names ∨ t.isDirectory p = true) (h : t.makeDirs p = (.ok (), s))
    (missing : t.leadsSomewhere (p.join f) = false) : s.leadsSomewhere (p.join f) = false := by
  have hp := FilePath.asksForDirectory_join p hf
  -- a directory that was there is left as it was, and a new one has nothing in it
  have new : s = t ∨ s.LeadsToEmpty p p.names := by
    rcases hup with hup | isDir
    · exact makeDirs_eq_or_empty hs hup h
    · obtain ⟨walkable, loc, led⟩ := (isDirectory_iff hs).mp isDir
      exact .inl (congrArg Prod.snd (h.symm.trans (makeDirs_of_leadsTo hs led walkable)))
  rcases new with rfl | ⟨left, dir, led, none⟩
  · exact missing
  · refine (leadsSomewhere_eq_false_iff hp).mpr fun loc located => ?_
    obtain ⟨dir', left', led', last⟩ := locate_join hf located
    obtain rfl := LeadsTo.unique ⟨left, led⟩ led' (.refl s)
    rw [eq_of_walk_one hf.isName (by simp [none]) last]
    exact none f

end ImageGateway.Storage.FileTree
