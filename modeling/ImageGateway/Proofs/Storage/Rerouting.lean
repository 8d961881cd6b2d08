import ImageGateway.Proofs.Storage.Directories

/-!
# Walking again after a change

A directory that is there is not made anew (`makeDirs_of_leadsTo`), and nothing is made on the way to
one that was there before files took the place of links (`makeDirs_of_blocks`). A walk over a link
that ends at a file still ends there after that link has been taken away from where it was
(`walk_target_of_keepsBut`), since it has not come by the link a second time.
-/

set_option autoImplicit false

namespace ImageGateway.Storage.FileTree

variable {t s u : FileTree} {follow : Bool} {links left : Nat} {dir loc spot : Location}
  {name : String} {names : List String} {p : FilePath}

/-! ## Directories that are there -/

/-- The directories of a tree are there in another one, and where a link was there is the link or a
file. -/
def Blocks (t s : FileTree) : Prop :=
  ∀ loc, (t.find? loc = some .directory → s.find? loc = some .directory) ∧
    ∀ target, t.find? loc = some (.link target) →
      s.find? loc = some (.link target) ∨ ∃ content, s.find? loc = some (.file content)

theorem Blocks.refl (t : FileTree) : t.Blocks t := fun _ => ⟨id, fun _ found => .inl found⟩

/-- Where names led to a directory, a walk finds something or comes up against a file. -/
theorem Leads.walk_of_blocks (h : t.Leads links dir names left loc) (hs : s.IsSound)
    (hdir : s.find? dir = some .directory) (hblocks : t.Blocks s) (follow : Bool) :
    (∃ loc', s.walk follow links dir names = .ok loc' ∧ s.find? loc' ≠ none) ∨
      s.walk follow links dir names = .error .notADirectory := by
  -- along the way that the names took, a directory is still there, and a link is there or a file is
  induction h with
  | here links dir => exact .inl ⟨dir, walk_nil s follow links dir, by simp [hdir]⟩
  | points goes _ ih =>
    rw [walk_points goes]
    exact ih (hs.points? goes hdir)
  | down hname hfound _ ih =>
    have there := (hblocks _).1 hfound
    rw [walk_directory hname there]
    exact ih there
  | @jump links dir name target rest left loc hname hlink _ ih =>
    rcases (hblocks _).2 target hlink with there | ⟨content, there⟩
    · rcases goes_or_ends rest follow with goes | ⟨rfl, rfl⟩
      · rw [walk_link hname there goes, FileTree.jump]
        exact ih (find?_linkStart hdir target)
      · exact .inl ⟨_, walk_last_link hname there, by simp [there]⟩
    · cases rest with
      | nil =>
        have plain : IsPlain (s.find? (dir ++ [name])) := there ▸ isPlain_file content
        exact .inl ⟨_, walk_plain hname plain, by simp [there]⟩
      | cons next rest => exact .inr (walk_file hname there (List.cons_ne_nil next rest))

/-- A path with text that cannot be walked along is at fault itself. -/
theorem fault_ne_notFound {fault : Fault} (hwalk : ¬ Walkable p) (hempty : p.text.isEmpty = false)
    (h : t.locateNames follow p names = .error fault) : fault ≠ .notFound := by
  rw [locateNames] at h
  split at h
  · obtain rfl := Except.error.inj h
    simp
  · rename_i noNul
    rw [if_neg (by simp [hempty])] at h
    split at h
    · obtain rfl := Except.error.inj h
      simp
    · rename_i short
      exact absurd ⟨by simpa using noNul, hempty, Nat.lt_of_not_le short⟩ hwalk

/-- A path that led to a directory leads to something, or it is not for want of anything that it leads
nowhere. -/
theorem locate_of_blocks (hs : s.IsSound) (hled : t.LeadsTo p loc)
    (hworking : s.workingDirectory = t.workingDirectory) (hblocks : t.Blocks s)
    (hempty : p.text.isEmpty = false) (follow : Bool) :
    (∃ loc' entry, s.locate follow p = .ok loc' ∧ s.find? loc' = some entry) ∨
      ∃ fault, fault ≠ .notFound ∧ s.locate follow p = .error fault := by
  by_cases hwalk : Walkable p
  · obtain ⟨left, led⟩ := hled
    rw [locate, locateNames_eq_walk hwalk]
    rw [start, ← hworking, ← start] at led
    rcases led.walk_of_blocks hs (hs.start p) hblocks follow with ⟨loc', walked, found⟩ | failed
    · obtain ⟨entry, there⟩ := Option.ne_none_iff_exists'.mp found
      exact .inl ⟨loc', entry, walked, there⟩
    · exact .inr ⟨_, by simp, failed⟩
  · obtain ⟨fault, failed⟩ := locateNames_error hwalk
    have lost := failed s follow p.names
    exact .inr ⟨fault, fault_ne_notFound hwalk hempty lost, lost⟩

/-- Where a path led to a directory, none can be made, and not for want of the one above. -/
theorem makeDir_of_blocks (hs : s.IsSound) (hled : t.LeadsTo p loc)
    (hworking : s.workingDirectory = t.workingDirectory) (hblocks : t.Blocks s)
    (hempty : p.text.isEmpty = false) :
    ∃ fault, fault ≠ .notFound ∧ s.makeDir p p.names = .error fault := by
  rcases locate_of_blocks hs hled hworking hblocks hempty false with
    ⟨loc', entry, located, found⟩ | ⟨fault, differs, failed⟩
  · refine ⟨.exists, by simp, ?_⟩
    rw [makeDir, ← locate, located]
    simp only [bind, Except.bind, found]
  · refine ⟨fault, differs, ?_⟩
    rw [makeDir, ← locate, failed]
    rfl

theorem requireDirectory_of_blocks (hs : s.IsSound) (hled : t.LeadsTo p loc)
    (hworking : s.workingDirectory = t.workingDirectory) (hblocks : t.Blocks s)
    (hempty : p.text.isEmpty = false) : s.requireDirectory p ≠ .error .notFound := by
  rw [requireDirectory]
  rcases locate_of_blocks hs hled hworking hblocks hempty true with
    ⟨loc', entry, located, found⟩ | ⟨fault, differs, failed⟩
  · rw [located]
    cases entry <;> simp [bind, Except.bind, found]
  · rw [failed]
    exact fun same => differs (Except.error.inj same)

/-- Nothing is made on the way to a directory that was there before links became files. -/
theorem makeDirs_of_blocks (hs : s.IsSound) (hled : t.LeadsTo p loc)
    (hworking : s.workingDirectory = t.workingDirectory) (hblocks : t.Blocks s) :
    (s.makeDirs p).2 = s := by
  cases hempty : p.text.isEmpty with
  | true => rw [makeDirs_of_isEmpty hempty]
  | false =>
    cases named : p.endsInName with
    | false =>
      rw [makeDirs_of_requireDirectory hempty named
        (requireDirectory_of_blocks hs hled hworking hblocks hempty)]
    | true =>
      obtain ⟨fault, notMissing, made⟩ := makeDir_of_blocks hs hled hworking hblocks hempty
      rw [makeDirs_of_makeDir hempty named (by simpa [made] using notMissing), made]
      dsimp only
      split <;> rfl

/-- A path that leads to a directory is walked along to its end. -/
theorem LeadsTo.locate (h : t.LeadsTo p loc) (hwalk : Walkable p) : t.locate true p = .ok loc := by
  obtain ⟨left, led⟩ := h
  have walked : t.walk true mostLinks (t.start p) (p.names ++ []) = t.walk true left loc [] :=
    led.walk_append (.inr rfl)
  rw [List.append_nil, walk_nil] at walked
  rw [FileTree.locate, locateNames_eq_walk hwalk, walked]

/-- A directory that is there is not made anew. -/
theorem makeDirs_of_leadsTo (hs : t.IsSound) (hled : t.LeadsTo p loc) (hwalk : Walkable p) :
    t.makeDirs p = (.ok (), t) := by
  have located := hled.locate hwalk
  have isDir := hled.isDirectory hs
  cases named : p.endsInName with
  | false =>
    -- a path that does not end in a name is looked up, not made
    have there : t.requireDirectory p = .ok () := by
      rw [requireDirectory, located]
      simp only [bind, Except.bind, isDir]
    rw [makeDirs_of_requireDirectory hwalk.notEmpty named (by simp [there]), there]
  | true =>
    obtain ⟨fault, notMissing, made⟩ := makeDir_of_blocks hs hled rfl (.refl t) hwalk.notEmpty
    have there : t.namesLeadToDirectory p p.names = true := by
      rw [namesLeadToDirectory, ← locate, located]
      simp [isDir]
    rw [makeDirs_of_makeDir hwalk.notEmpty named (by simpa [made] using notMissing), made]
    exact if_pos there

/-- No directory is made of a path with text that cannot be walked along, in no tree. -/
theorem makeDirs_error (hwalk : ¬ Walkable p) (hempty : p.text.isEmpty = false) :
    ∃ fault, ∀ t : FileTree, t.makeDirs p = (.error fault, t) := by
  -- the path is given up before any tree is looked at
  obtain ⟨fault, failed⟩ := locateNames_error hwalk
  refine ⟨fault, fun t => ?_⟩
  have notMissing := fault_ne_notFound hwalk hempty (failed t false p.names)
  cases named : p.endsInName with
  | false =>
    have nowhere : t.requireDirectory p = .error fault := by
      rw [requireDirectory, locate, failed]
      rfl
    rw [makeDirs_of_requireDirectory hempty named (by simpa [nowhere] using notMissing), nowhere]
  | true =>
    have made : t.makeDir p p.names = .error fault := by
      rw [makeDir, failed]
      rfl
    have nowhere : t.namesLeadToDirectory p p.names = false := by
      rw [namesLeadToDirectory, failed]
    rw [makeDirs_of_makeDir hempty named (by simpa [made] using notMissing), made, nowhere]
    rfl

/-- What becomes of a path that cannot be walked along has nothing to do with the tree. -/
theorem makeDirs_of_not_walkable (hwalk : ¬ Walkable p) :
    ∃ result, ∀ t : FileTree, t.makeDirs p = (result, t) := by
  cases hempty : p.text.isEmpty with
  | true => exact ⟨.ok (), fun t => makeDirs_of_isEmpty hempty⟩
  | false =>
    obtain ⟨fault, failed⟩ := makeDirs_error hwalk hempty
    exact ⟨.error fault, failed⟩

/-- Directories that have been made are not made again. -/
theorem makeDirs_again (hs : t.IsSound) (h : t.makeDirs p = (.ok (), s)) (hu : u.IsSound)
    (hkeep : s.Keeps u) : u.makeDirs p = (.ok (), u) := by
  by_cases hwalk : Walkable p
  · obtain ⟨loc, led⟩ := leadsTo_of_makeDirs hs (congrArg Prod.fst h)
    rw [congrArg Prod.snd h] at led
    exact makeDirs_of_leadsTo hu (led.keep hkeep) hwalk
  · obtain ⟨result, all⟩ := makeDirs_of_not_walkable hwalk
    have done : result = .ok () := congrArg Prod.fst ((all t).symm.trans h)
    rw [all u, done]

/-- No entry of a directory that is there fails to be made for want of that directory. -/
theorem makeDir_join_ne_notFound (hname : FilePath.IsComponent name) (hled : t.LeadsTo p loc)
    (hempty : (p.join name).text.isEmpty = false) :
    t.makeDir (p.join name) (p.join name).names ≠ .error .notFound := by
  intro made
  rw [makeDir, ← locate] at made
  cases located : t.locate false (p.join name) with
  | error fault =>
    rw [located] at made
    obtain rfl : fault = .notFound := Except.error.inj made
    -- the look-up comes to the directory and goes one name further
    by_cases hwalk : Walkable (p.join name)
    · obtain ⟨left, walked⟩ := hled.walk_join hname hwalk
      rw [walked] at located
      by_cases short : name.utf8ByteSize ≤ longestName
      · rw [walk_one_false ⟨hname.isName, short⟩] at located
        exact absurd located (by simp)
      · rw [walk_tooLong hname.isName short] at located
        exact absurd located (by simp)
    · exact fault_ne_notFound hwalk hempty located rfl
  | ok loc' =>
    rw [located] at made
    simp only [bind, Except.bind] at made
    cases found : t.find? loc' <;> simp [found] at made

/-- In a directory that is there only the one entry is made. -/
theorem makeDirs_join (hname : FilePath.IsComponent name) (hled : t.LeadsTo p loc) :
    t.makeDirs (p.join name)
      = match t.makeDir (p.join name) (p.join name).names with
        | .ok s => (.ok (), s)
        | .error fault =>
          if t.namesLeadToDirectory (p.join name) (p.join name).names then (.ok (), t)
          else (.error fault, t) := by
  have hempty : (p.join name).text.isEmpty = false :=
    FilePath.isEmpty_of_names_ne_nil (by simp [FilePath.names_join p hname])
  exact makeDirs_of_makeDir hempty (FilePath.endsInName_join p hname)
    (makeDir_join_ne_notFound hname hled hempty)

/-- What is made in a directory that is there was not there before. -/
theorem makeDir_join_eq_ok (hname : FilePath.IsComponent name) (hled : t.LeadsTo p loc)
    (h : t.makeDir (p.join name) (p.join name).names = .ok s) :
    name.utf8ByteSize ≤ longestName ∧ t.find? (loc ++ [name]) = none ∧
      s = t.insert (loc ++ [name]) .directory := by
  rw [makeDir] at h
  obtain ⟨place, located, inserted⟩ := ok_of_bind h
  obtain ⟨walkable, -⟩ := walk_of_locateNames located
  obtain ⟨left, walked⟩ := hled.walk_join hname walkable
  rw [← locate, walked] at located
  have short := short_of_walk hname.isName located
  obtain rfl := eq_of_walk_one_false hname.isName located
  cases found : t.find? (loc ++ [name]) with
  | some entry => simp [found] at inserted
  | none =>
    rw [found] at inserted
    exact ⟨short, rfl, (Except.ok.inj inserted).symm⟩

/-! ## Links that are taken away -/

/-- More links than are needed make no difference. -/
theorem walk_mono {more : Nat} (h : t.walk follow links dir names = .ok loc) (hle : links ≤ more) :
    t.walk follow more dir names = .ok loc := by
  rw [walk_eq_ok_iff] at h ⊢
  -- both walks come by the same links, and each takes one of those that are left
  induction h generalizing more with
  | here links dir => exact .here more dir
  | points goes _ ih => exact .points goes (ih hle)
  | down hname hfound _ ih => exact .down hname hfound (ih hle)
  | jump hname hlink hgo _ ih =>
    obtain ⟨more, rfl⟩ := Nat.exists_eq_add_of_lt hle
    exact .jump hname hlink hgo (ih (Nat.le_add_right _ more))
  | atLink nofollow hname hlink => exact .atLink nofollow hname hlink
  | atPlain hname hplain => exact .atPlain hname hplain

/-- A walk goes where it went, unless it came by the one entry that is different. If that was a link,
its target led with fewer links to where the walk ended, or to a directory. -/
theorem walk_of_keepsBut (h : t.walk true links dir names = .ok loc) (hkeep : KeepsBut spot t s)
    (hspot : t.find? spot ≠ some .directory) (hloc : IsPlain (s.find? loc)) :
    s.walk true links dir names = .ok loc ∨
      ∃ dir name target fewer, spot = dir ++ [name] ∧ t.find? spot = some (.link target) ∧
        fewer < links ∧
        (t.walk true fewer (if target.isAbsolute then [] else dir) target.route = .ok loc ∨
          ∃ left mid, t.Leads fewer (if target.isAbsolute then [] else dir) target.route
            left mid) := by
  rw [walk_eq_ok_iff] at h ⊢
  -- the induction follows the first walk, which goes by the one entry only if that is a link
  induction h with
  | here links dir => exact .inl (.here links dir)
  | points goes _ ih => exact (ih hloc).imp_left (.points goes)
  | @down links dir name rest loc hname hfound _ ih =>
    have elsewhere : dir ++ [name] ≠ spot := fun here => hspot (here ▸ hfound)
    exact (ih hloc).imp_left (.down hname ((hkeep _ elsewhere).1 hfound))
  | @jump links dir name target rest loc hname hlink hgo further ih =>
    by_cases here : dir ++ [name] = spot
    · refine .inr ⟨dir, name, target, links, here.symm, here ▸ hlink, Nat.lt_succ_self links, ?_⟩
      -- from the link on the walk went along the target, to its own end or to a directory on the
      -- way
      cases rest with
      | nil =>
        rw [List.append_nil] at further
        exact .inl further.walk_eq
      | cons next rest =>
        obtain ⟨left, mid, led, -⟩ := leads_of_walk (List.cons_ne_nil next rest) further.walk_eq
        exact .inr ⟨left, mid, led⟩
    · rcases ih hloc with ends | ⟨dir', name', target', fewer, same, found, less, back⟩
      · exact .inl (.jump hname ((hkeep _ here).2 target hlink) hgo ends)
      · exact .inr ⟨dir', name', target', fewer, same, found, Nat.lt_succ_of_lt less, back⟩
  | atLink nofollow _ _ => exact absurd nofollow (by simp)
  | atPlain hname _ => exact .inl (.atPlain hname hloc)

/-- After something has been taken away, a walk goes where it went, or it ends where that was. What has
been taken away was no directory, nor a link to one. -/
theorem walk_of_gone (h : t.walk true links dir names = .ok loc) (hgone : t.SetAt spot none s)
    (hspot : t.find? spot ≠ some .directory)
    (hend : ∀ dir name target links left mid, spot = dir ++ [name] →
      t.find? spot = some (.link target) →
      ¬ t.Leads links (if target.isAbsolute then [] else dir) target.route left mid) :
    s.walk true links dir names = .ok loc ∨ s.walk true links dir names = .ok spot := by
  have nothing : IsPlain (s.find? spot) := hgone.here.symm ▸ isPlain_none
  rw [walk_eq_ok_iff] at h
  rw [walk_eq_ok_iff, walk_eq_ok_iff]
  -- the walk comes to the spot only at its end, where nothing is to be followed any more
  induction h with
  | here links dir => exact .inl (.here links dir)
  | points goes _ ih => exact ih.imp (.points goes) (.points goes)
  | @down links dir name rest loc hname hfound _ ih =>
    have elsewhere : dir ++ [name] ≠ spot := fun here => hspot (here ▸ hfound)
    have there := (hgone.elsewhere _ elsewhere).trans hfound
    exact ih.imp (.down hname there) (.down hname there)
  | @jump links dir name target rest loc hname hlink hgo further ih =>
    by_cases here : dir ++ [name] = spot
    · cases rest with
      | nil =>
        subst here
        exact .inr (.atPlain hname nothing)
      | cons next rest =>
        obtain ⟨left, mid, led, -⟩ := leads_of_walk (List.cons_ne_nil next rest) further.walk_eq
        exact absurd led (hend dir name target links left mid here.symm (here ▸ hlink))
    · have there := (hgone.elsewhere _ here).trans hlink
      exact ih.imp (.jump hname there hgo) (.jump hname there hgo)
  | atLink nofollow _ _ => exact absurd nofollow (by simp)
  | @atPlain links dir name hname hplain =>
    by_cases here : dir ++ [name] = spot
    · subst here
      exact .inr (.atPlain hname nothing)
    · exact .inl (.atPlain hname (hgone.elsewhere _ here ▸ hplain))

/-- Where a link led to, its target still leads to after the link has been taken away. -/
theorem walk_target_of_keepsBut {target : FilePath} (hs : t.IsSound)
    (hdir : t.find? dir = some .directory) (hlink : t.find? (dir ++ [name]) = some (.link target))
    (hkeep : KeepsBut (dir ++ [name]) t s) (hbefore : t.find? loc ≠ some .directory)
    (hafter : IsPlain (s.find? loc))
    (h : t.walk true links (if target.isAbsolute then [] else dir) target.route = .ok loc) :
    s.walk true links (if target.isAbsolute then [] else dir) target.route = .ok loc := by
  -- if the target comes by the link itself, fewer links are left there, and the same holds again
  induction links using Nat.strongRecOn with
  | ind links ih =>
    rcases walk_of_keepsBut h hkeep (by simp [hlink]) hafter with
      walked | ⟨dir', name', target', fewer, same, hlink', less, back⟩
    · exact walked
    obtain ⟨rfl, -⟩ := List.append_inj' same rfl
    obtain rfl := Entry.link.inj (Option.some.inj (hlink.symm.trans hlink'))
    rcases back with back | ⟨left, mid, led⟩
    · exact walk_mono (ih fewer less back) (Nat.le_of_lt less)
    · -- a target that leads to a directory leads to nothing else
      have there := led.isDirectory hs (find?_linkStart hdir target)
      rcases led.walk_other links with reached | many
      · obtain rfl := Except.ok.inj (h.symm.trans reached)
        exact absurd there hbefore
      · exact absurd (h.symm.trans many) (by simp)

end ImageGateway.Storage.FileTree
