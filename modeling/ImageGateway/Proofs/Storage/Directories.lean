import ImageGateway.Proofs.Storage.Trees

/-!
# Making directories

Making a directory and those above it changes nothing that is there: all it does is to put
directories where nothing was, on the way along the path (`grown_makeDirs`). If it succeeds, the path
leads to a directory afterwards (`leadsTo_of_makeDirs`).
-/

set_option autoImplicit false

namespace ImageGateway.Storage.FileTree

variable {t s u : FileTree} {links : Nat} {dir loc : Location} {names : List String} {p : FilePath}

/-- The first names of a path lead to a location. -/
def OnTheWay (t : FileTree) (p : FilePath) (loc : Location) : Prop :=
  ∃ count left, t.Leads mostLinks (t.start p) (p.names.take count) left loc

/-- Only directories have been added, on the way along a path. -/
structure Grown (p : FilePath) (t s : FileTree) : Prop where
  working : s.workingDirectory = t.workingDirectory
  entry : ∀ loc, s.find? loc = t.find? loc ∨
    t.find? loc = none ∧ s.find? loc = some .directory ∧ s.OnTheWay p loc

theorem OnTheWay.keep (h : t.OnTheWay p loc) (hkeep : t.Keeps s) : s.OnTheWay p loc := by
  obtain ⟨count, left, led⟩ := h
  refine ⟨count, left, ?_⟩
  rw [start, hkeep.working]
  exact led.keep hkeep

theorem Grown.refl (p : FilePath) (t : FileTree) : t.Grown p t := ⟨rfl, fun _ => .inl rfl⟩

theorem Grown.keeps (h : Grown p t s) : t.Keeps s := by
  refine ⟨⟨h.working, fun loc target => ?_⟩, fun loc hdir => ?_⟩
  · rcases h.entry loc with same | ⟨gone, made, -⟩
    · rw [same]
    · simp [gone, made]
  · rcases h.entry loc with same | ⟨gone, -, -⟩
    · rw [same, hdir]
    · simp [gone] at hdir

theorem Grown.trans (h : Grown p t s) (h' : Grown p s u) : Grown p t u := by
  refine ⟨h'.working.trans h.working, fun loc => ?_⟩
  rcases h'.entry loc with same' | ⟨gone', made', way'⟩
  · rcases h.entry loc with same | ⟨gone, made, way⟩
    · exact .inl (same'.trans same)
    · exact .inr ⟨gone, same'.trans made, way.keep h'.keeps⟩
  · rcases h.entry loc with same | ⟨-, made, -⟩
    · exact .inr ⟨same.symm.trans gone', made', way'⟩
    · simp [made] at gone'

/-! ## One directory -/

/-- A walk that ends where nothing is has come to a directory, in which its last name is missing. -/
theorem leads_of_walk_missing (hs : t.IsSound) (hdir : t.find? dir = some .directory)
    (h : t.walk false links dir names = .ok loc) (hgone : t.find? loc = none) :
    ∃ front name left mid, names = front ++ [name] ∧ IsStep name ∧ loc = mid ++ [name] ∧
      t.Leads links dir front left mid ∧ t.find? mid = some .directory := by
  cases names using List.reverseRecOn with
  | nil =>
    obtain rfl : dir = loc := by simpa using h
    exact absurd hdir (by simp [hgone])
  | append_singleton front last =>
    obtain ⟨left, mid, led, step⟩ := leads_of_walk (List.cons_ne_nil last []) h
    have hmid := led.isDirectory hs hdir
    rcases points?_cases mid last with ⟨there, goes⟩ | isName
    · rw [walk_points goes, walk_nil] at step
      obtain rfl := Except.ok.inj step
      exact absurd (hs.points? goes hmid) (by simp [hgone])
    · exact ⟨front, last, left, mid, rfl, ⟨isName, short_of_walk isName step⟩,
        eq_of_walk_one_false isName step, led, hmid⟩

/-- A directory is made in a directory, where nothing was. -/
theorem makeDir_eq_ok (hs : t.IsSound) (h : t.makeDir p names = .ok s) :
    ∃ mid name left, t.find? (mid ++ [name]) = none ∧ t.find? mid = some .directory ∧
      t.SetAt (mid ++ [name]) (some .directory) s ∧
      s.Leads mostLinks (s.start p) names left (mid ++ [name]) := by
  rw [makeDir] at h
  cases hloc : t.locateNames false p names with
  | error fault =>
    rw [hloc] at h
    exact absurd h (by simp [bind, Except.bind])
  | ok loc =>
    rw [hloc] at h
    simp only [bind, Except.bind] at h
    cases gone : t.find? loc with
    | some entry => simp [gone] at h
    | none =>
      rw [gone] at h
      obtain rfl : t.insert loc .directory = s := Except.ok.inj h
      obtain ⟨-, walked⟩ := walk_of_locateNames hloc
      -- all names but the last lead to a directory, in which the last one is made
      obtain ⟨front, last, left, mid, rfl, step, rfl, led, hmid⟩ :=
        leads_of_walk_missing hs (hs.start p) walked gone
      have hset : t.SetAt (mid ++ [last]) (some .directory) (t.insert (mid ++ [last]) .directory) :=
        setAt_insert (by simp) t .directory
      have hkeep : t.Keeps (t.insert (mid ++ [last]) .directory) :=
        keeps_of_setAt hset (gone ▸ isPlain_none) (by simp)
      refine ⟨mid, last, left, gone, hmid, hset, ?_⟩
      exact (led.keep hkeep).append (.down step hset.here (.here left _))

/-- Making a directory on the way along a path is all right. -/
theorem grown_of_makeDir {count : Nat} (hs : t.IsSound)
    (h : t.makeDir p (p.names.take count) = .ok s) :
    s.IsSound ∧ Grown p t s ∧
      ∃ left loc, s.Leads mostLinks (s.start p) (p.names.take count) left loc := by
  obtain ⟨mid, name, left, gone, hmid, hset, led⟩ := makeDir_eq_ok hs h
  refine ⟨hs.setAt hset (by simp [gone]) fun _ => ⟨mid, name, rfl, hmid⟩, ?_, left, _, led⟩
  refine ⟨hset.working, fun loc => ?_⟩
  by_cases here : loc = mid ++ [name]
  · subst here
    exact .inr ⟨gone, hset.here, count, left, led⟩
  · exact .inl (hset.elsewhere loc here)

theorem leads_of_namesLeadToDirectory (h : t.namesLeadToDirectory p names = true) :
    ∃ left loc, t.Leads mostLinks (t.start p) names left loc := by
  rw [namesLeadToDirectory] at h
  cases hloc : t.locateNames true p names with
  | error fault => simp [hloc] at h
  | ok loc =>
    rw [hloc] at h
    obtain ⟨left, led⟩ := leads_of_walk_directory (walk_of_locateNames hloc).2
      (by simpa using h)
    exact ⟨left, loc, led⟩

theorem grown_of_ensureDir {count : Nat} (hs : t.IsSound)
    (h : t.ensureDir p (p.names.take count) = .ok s) :
    s.IsSound ∧ Grown p t s ∧
      ∃ left loc, s.Leads mostLinks (s.start p) (p.names.take count) left loc := by
  rw [ensureDir] at h
  cases made : t.makeDir p (p.names.take count) with
  | ok u =>
    rw [made] at h
    obtain rfl : u = s := Except.ok.inj h
    exact grown_of_makeDir hs made
  | error fault =>
    rw [made] at h
    simp only at h
    split at h
    · rename_i there
      obtain rfl : t = s := Except.ok.inj h
      exact ⟨hs, .refl p t, leads_of_namesLeadToDirectory there⟩
    · exact absurd h (by simp)

/-! ## All directories above -/

/-- Where a directory cannot be made, though the one above is there, it may be there already. -/
theorem makeDirsUpTo_of_error {fault : Fault} {count : Nat}
    (made : t.makeDir p (names.take (count + 1)) = .error fault) (hfault : fault ≠ .notFound) :
    t.makeDirsUpTo p names (count + 1)
      = if t.namesLeadToDirectory p (names.take (count + 1)) then (.ok (), t)
        else (.error fault, t) := by
  rw [makeDirsUpTo, made]
  cases fault with
  | notFound => exact absurd rfl hfault
  | _ => rfl

/-- Making directories up to one name more makes that one at once, or after those above it, or finds it
there, or fails. -/
theorem makeDirsUpTo_succ (t : FileTree) (p : FilePath) (names : List String) (count : Nat) :
    (∃ s, t.makeDir p (names.take (count + 1)) = .ok s ∧
      t.makeDirsUpTo p names (count + 1) = (.ok (), s)) ∨
    (∃ s, (t.makeDirsUpTo p names count).2.ensureDir p (names.take (count + 1)) = .ok s ∧
      t.makeDirsUpTo p names (count + 1) = (.ok (), s)) ∨
    (t.namesLeadToDirectory p (names.take (count + 1)) = true ∧
      t.makeDirsUpTo p names (count + 1) = (.ok (), t)) ∨
    ∃ fault s, (s = t ∨ s = (t.makeDirsUpTo p names count).2) ∧
      t.makeDirsUpTo p names (count + 1) = (.error fault, s) := by
  cases made : t.makeDir p (names.take (count + 1)) with
  | ok s => exact .inl ⟨s, rfl, by rw [makeDirsUpTo, made]⟩
  | error fault =>
    by_cases missing : fault = .notFound
    · -- the directories above are made first, and this one is tried once more
      subst missing
      rw [makeDirsUpTo, made]
      rcases t.makeDirsUpTo p names count with ⟨below | _, s⟩
      · exact .inr (.inr (.inr ⟨below, s, .inr rfl, rfl⟩))
      · cases ensured : s.ensureDir p (names.take (count + 1)) with
        | error fault => exact .inr (.inr (.inr ⟨fault, s, .inr rfl, by simp only [ensured]⟩))
        | ok u => exact .inr (.inl ⟨u, rfl, by simp only [ensured]⟩)
    · rw [makeDirsUpTo_of_error made missing]
      split
      · rename_i there
        exact .inr (.inr (.inl ⟨there, rfl⟩))
      · exact .inr (.inr (.inr ⟨fault, t, .inl rfl, rfl⟩))

/-- What making directories does, up to any number of names. -/
theorem grown_makeDirsUpTo (hs : t.IsSound) (count : Nat) :
    (t.makeDirsUpTo p p.names count).2.IsSound ∧
      Grown p t (t.makeDirsUpTo p p.names count).2 ∧
      ((t.makeDirsUpTo p p.names count).1 = .ok () →
        ∃ left loc, (t.makeDirsUpTo p p.names count).2.Leads mostLinks
          ((t.makeDirsUpTo p p.names count).2.start p) (p.names.take count) left loc) := by
  induction count with
  | zero => exact ⟨hs, .refl p t, fun _ => ⟨_, _, .here _ _⟩⟩
  | succ count ih =>
    obtain ⟨sound, grown, -⟩ := ih
    rcases makeDirsUpTo_succ t p p.names count with
      ⟨s, made, done⟩ | ⟨s, ensured, done⟩ | ⟨there, done⟩ | ⟨fault, s, from', done⟩
    · rw [done]
      obtain ⟨sound', grown', led⟩ := grown_of_makeDir hs made
      exact ⟨sound', grown', fun _ => led⟩
    · rw [done]
      obtain ⟨sound', grown', led⟩ := grown_of_ensureDir sound ensured
      exact ⟨sound', grown.trans grown', fun _ => led⟩
    · rw [done]
      exact ⟨hs, .refl p t, fun _ => leads_of_namesLeadToDirectory there⟩
    · rw [done]
      rcases from' with rfl | rfl
      · exact ⟨hs, .refl p _, nofun⟩
      · exact ⟨sound, grown, nofun⟩

theorem leads_of_requireDirectory (h : t.requireDirectory p = .ok ()) :
    ∃ loc, t.LeadsTo p loc ∧ t.find? loc = some .directory := by
  rw [requireDirectory] at h
  obtain ⟨loc, located, found⟩ := ok_of_bind h
  have isDir : t.find? loc = some .directory := by
    cases entry : t.find? loc with
    | none => simp [entry] at found
    | some e => cases e <;> simp [entry] at found ⊢
  obtain ⟨left, led⟩ := leads_of_walk_directory (walk_of_locateNames located).2 isDir
  exact ⟨loc, ⟨left, led⟩, isDir⟩

/-- The names of a path without text lead to where it starts. -/
theorem leadsTo_of_isEmpty (h : p.text.isEmpty = true) : t.LeadsTo p (t.start p) := by
  have none : p.names = [] := by
    rw [FilePath.names, String.isEmpty_iff.mp h]
    rfl
  rw [LeadsTo, none]
  exact ⟨_, .here _ _⟩

theorem makeDirs_of_isEmpty (h : p.text.isEmpty = true) : t.makeDirs p = (.ok (), t) := by
  rw [makeDirs, if_pos h]

theorem makeDirs_of_endsInName (hempty : p.text.isEmpty = false) (hname : p.endsInName = true) :
    t.makeDirs p = t.makeDirsUpTo p p.names p.names.length := by
  rw [makeDirs, hempty, hname]
  rfl

/-- Where the last directory does not fail to be made for want of those above, no other is made. -/
theorem makeDirs_of_makeDir (hempty : p.text.isEmpty = false) (hname : p.endsInName = true)
    (h : t.makeDir p p.names ≠ .error .notFound) :
    t.makeDirs p
      = match t.makeDir p p.names with
        | .ok s => (.ok (), s)
        | .error fault =>
          if t.namesLeadToDirectory p p.names then (.ok (), t) else (.error fault, t) := by
  obtain ⟨count, length⟩ := Nat.exists_eq_succ_of_ne_zero
    (mt List.length_eq_zero_iff.mp (FilePath.names_ne_nil_of_endsInName hname))
  have whole : p.names.take (count + 1) = p.names := by
    rw [← Nat.succ_eq_add_one, ← length, List.take_length]
  rw [makeDirs_of_endsInName hempty hname, length]
  cases made : t.makeDir p p.names with
  | ok s => rw [makeDirsUpTo, whole, made]
  | error fault =>
    have notMissing : fault ≠ .notFound := fun missing => h (missing ▸ made)
    rw [makeDirsUpTo_of_error (whole.symm ▸ made) notMissing, whole]

/-- Where it is not for want of something that a path without a name at its end leads to no directory,
nothing is made. -/
theorem makeDirs_of_requireDirectory (hempty : p.text.isEmpty = false)
    (hname : p.endsInName = false) (h : t.requireDirectory p ≠ .error .notFound) :
    t.makeDirs p = (t.requireDirectory p, t) := by
  rw [makeDirs, hempty, hname, if_neg (by simp), if_neg (by simp)]
  split
  · rename_i missing
    exact absurd missing h
  · rfl

/-- Making directories makes those on the way up to some name. If it succeeds, the path is empty, or
all of them have been made, or it leads to a directory. -/
theorem makeDirs_cases (t : FileTree) (p : FilePath) :
    ∃ count, (t.makeDirs p).2 = (t.makeDirsUpTo p p.names count).2 ∧
      ((t.makeDirs p).1 = .ok () → p.text.isEmpty = true ∨
        (count = p.names.length ∧ (t.makeDirsUpTo p p.names count).1 = .ok ()) ∨
        (t.makeDirs p).2.requireDirectory p = .ok ()) := by
  cases empty : p.text.isEmpty with
  | true =>
    rw [makeDirs_of_isEmpty empty]
    exact ⟨0, rfl, fun _ => .inl rfl⟩
  | false =>
    by_cases named : p.endsInName = true
    · rw [makeDirs_of_endsInName empty named]
      exact ⟨p.names.length, rfl, fun made => .inr (.inl ⟨rfl, made⟩)⟩
    · rw [makeDirs, empty, if_neg (by simp), if_neg named]
      split
      · -- the directories above are made first
        refine ⟨p.names.length - 1, ?_⟩
        rcases t.makeDirsUpTo p p.names (p.names.length - 1) with ⟨fault | _, s⟩
        · exact ⟨rfl, fun made => absurd made nofun⟩
        · exact ⟨rfl, fun there => .inr (.inr there)⟩
      · exact ⟨0, rfl, fun there => .inr (.inr there)⟩

/-- Making directories leaves a sound tree. -/
theorem isSound_makeDirs (hs : t.IsSound) (p : FilePath) : (t.makeDirs p).2.IsSound := by
  obtain ⟨count, made, -⟩ := makeDirs_cases t p
  exact made ▸ (grown_makeDirsUpTo hs count).1

/-- Making directories adds directories on the way along the path and does nothing else. -/
theorem grown_makeDirs (hs : t.IsSound) (p : FilePath) : Grown p t (t.makeDirs p).2 := by
  obtain ⟨count, made, -⟩ := makeDirs_cases t p
  exact made ▸ (grown_makeDirsUpTo hs count).2.1

/-- Once the directories have been made, the path leads to one. -/
theorem leadsTo_of_makeDirs (hs : t.IsSound) (h : (t.makeDirs p).1 = .ok ()) :
    ∃ loc, (t.makeDirs p).2.LeadsTo p loc := by
  obtain ⟨count, made, result⟩ := makeDirs_cases t p
  rcases result h with empty | ⟨rfl, ok⟩ | there
  · exact ⟨_, leadsTo_of_isEmpty empty⟩
  · obtain ⟨left, loc, led⟩ := (grown_makeDirsUpTo hs p.names.length).2.2 ok
    rw [List.take_length] at led
    exact ⟨loc, left, made ▸ led⟩
  · obtain ⟨loc, led, -⟩ := leads_of_requireDirectory there
    exact ⟨loc, led⟩

end ImageGateway.Storage.FileTree
