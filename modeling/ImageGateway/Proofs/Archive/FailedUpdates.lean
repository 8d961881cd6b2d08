import ImageGateway.Proofs.Archive.Changes
import ImageGateway.Proofs.Storage.Extending

/-!
# Updates that fail

An update whose change only works on the records leaves the tree as it was if it fails. There are two
exceptions (`tree_of_update_error`): a ledger that could not be read has been moved aside before the
records were to be written, and the directory of the project has been made where it was missing
(`LeavesMade`). A path that goes up from a directory that has been made leads to one that was there, and
to the ledger in it.
-/

set_option autoImplicit false

namespace ImageGateway.Archive

open Storage Storage.FileTree

variable {a : Archive} {p : Project} {t s u : FileTree} {dir root : Location} {name : String}
  {records : List Record} {content : Bytes} {α : Type}

/-! ## Paths of files of a project -/

/-- A path that is short enough for the temporary file is short enough for the ledger. -/
theorem walkable_ledgerPath (h : Walkable (a.temporaryPath p)) : Walkable (a.ledgerPath p) := by
  have text : (a.temporaryPath p).text = (a.ledgerPath p).text ++ ".tmp" := rfl
  refine ⟨?_, ?_, ?_⟩
  · have noNul := h.noNul
    rw [text, String.toList_append] at noNul
    simp only [List.contains_append, Bool.or_eq_false_iff] at noNul
    exact noNul.1
  · rw [Bool.eq_false_iff]
    intro empty
    have none : (a.ledgerPath p).text = "" := String.isEmpty_iff.mp empty
    -- a path without text has no names, but this one has the name of the ledger
    have names := FilePath.names_join (a.projectDir p) isComponent_ledgerName
    rw [← ledgerPath_eq_join, FilePath.names, none] at names
    exact absurd names.symm (by simp [FilePath.segments])
  · have short := h.short
    rw [text, String.utf8ByteSize_append] at short
    exact Nat.lt_of_le_of_lt (Nat.le_add_right _ _) short

theorem short_ledgerName : ledgerName.utf8ByteSize ≤ longestName := by decide

theorem short_temporaryName : temporaryName.utf8ByteSize ≤ longestName := by decide

/-- Where the directory of a project is not, none of its files is. -/
theorem leadsTo_of_statLink {entry : Entry} (hname : FilePath.IsComponent name)
    (h : t.statLink ((a.projectDir p).join name) = .ok entry) :
    ∃ dir, t.LeadsTo (a.projectDir p) dir ∧ t.find? (dir ++ [name]) = some entry := by
  obtain ⟨loc, located, found⟩ := statLink_eq_ok h
  -- all names but the last have led to a directory
  obtain ⟨dir, left, led, last⟩ := locate_join hname located
  obtain rfl := eq_of_walk_one_false hname.isName last
  exact ⟨dir, led, found⟩

/-- What is in the place of the ledger is found there. -/
theorem statLink_ledger {entry : Entry} (hled : t.LeadsTo (a.projectDir p) dir)
    (hwalk : Walkable (a.ledgerPath p)) (hfound : t.find? (dir ++ [ledgerName]) = some entry) :
    t.statLink (a.ledgerPath p) = .ok entry := by
  rw [ledgerPath_eq_join] at hwalk ⊢
  rw [statLink_of_locate (hled.locate_join isComponent_ledgerName hwalk short_ledgerName), hfound]

/-! ## Writing the ledger -/

/-- Once the records have been written beside the ledger they take its place, unless a directory is
there. -/
theorem rename_temporary (hs : t.IsSound) (hled : t.LeadsTo (a.projectDir p) dir)
    (hledger : t.find? (dir ++ [ledgerName]) ≠ some .directory)
    (hwritten : t.writeFile (a.temporaryPath p) content = .ok s) :
    ∃ u, s.rename (a.temporaryPath p) (a.ledgerPath p) = .ok u := by
  obtain ⟨sound, keeps⟩ := builds_of_writeFile hwritten hs
  obtain ⟨loc, located, notDir, put⟩ := writeFile_eq_ok hwritten
  obtain ⟨walkable, -⟩ := walk_of_locateNames located
  have target := walkable_ledgerPath walkable
  rw [temporaryPath_eq_join] at located walkable
  obtain ⟨left, walked⟩ := hled.walk_join isComponent_temporaryName walkable
  rw [walked] at located
  have step : IsStep temporaryName := ⟨isComponent_temporaryName.isName, short_temporaryName⟩
  -- what is at the path of the temporary file is the new file or a link to it
  obtain ⟨entry, found, plain⟩ :
      ∃ entry, s.find? (dir ++ [temporaryName]) = some entry ∧ entry ≠ .directory := by
    rcases t.find?_cases (dir ++ [temporaryName]) with hdir | ⟨link, hlink⟩ | hplain
    · rw [walk_directory step hdir, walk_nil] at located
      obtain rfl := Except.ok.inj located
      exact absurd hdir notDir
    · exact ⟨.link link, (keeps.link _ _).mpr hlink, by simp⟩
    · rw [walk_plain step hplain] at located
      obtain rfl := Except.ok.inj located
      exact ⟨.file content, put.here, by simp⟩
  have there : s.find? (dir ++ [ledgerName]) ≠ some .directory := by
    by_cases here : dir ++ [ledgerName] = loc
    · rw [here, put.here]
      simp
    · rwa [put.elsewhere _ here]
  have led := hled.keep keeps
  rw [temporaryPath_eq_join, ledgerPath_eq_join]
  rw [ledgerPath_eq_join] at target
  exact rename_of_locate (led.locate_join isComponent_temporaryName walkable short_temporaryName)
    found plain (led.locate_join isComponent_ledgerName target short_ledgerName) there

/-- What is left of a ledger that could not be written: the directory of the project, and the
temporary file if it could not take the place of the ledger. -/
theorem persist_eq_error {e : Error} (h : a.persist p records t = .error e s) :
    s = (t.makeDirs (a.projectDir p)).2 ∨
      ∃ u fault, t.makeDirs (a.projectDir p) = (.ok (), u) ∧
        u.writeFile (a.temporaryPath p) (Record.document records) = .ok s ∧
        s.rename (a.temporaryPath p) (a.ledgerPath p) = .error fault := by
  rw [persist] at h
  rcases error_of_run_bind h with failed | ⟨_, u, made, h⟩
  · obtain ⟨fault, failed⟩ := makeDirs_eq_error failed
    exact .inl (congrArg Prod.snd failed).symm
  have made := makeDirs_eq_ok made
  rcases error_of_run_bind h with failed | ⟨_, v, written, h⟩
  · obtain rfl := change_eq_error failed
    exact .inl (congrArg Prod.snd made).symm
  · obtain rfl := change_eq_error h
    rw [Disk.change] at h
    cases hrenamed : s.rename (a.temporaryPath p) (a.ledgerPath p) with
    | error fault => exact .inr ⟨u, fault, made, change_eq_ok written, rfl⟩
    | ok w =>
      rw [hrenamed] at h
      exact absurd h (by simp)

/-- The records have been written beside the ledger, but cannot take its place because a directory is
there. -/
structure IsBlocked (a : Archive) (p : Project) (records : List Record) (t s : FileTree)
    (dir : Location) : Prop where
  leads : t.LeadsTo (a.projectDir p) dir
  walkable : Walkable (a.ledgerPath p)
  directory : t.find? (dir ++ [ledgerName]) = some .directory
  written : t.writeFile (a.temporaryPath p) (Record.document records) = .ok s

/-- A ledger that could not be written has left the directory of the project and nothing else, unless
a directory is where the ledger belongs. -/
theorem persist_error_cases {e : Error} (hs : t.IsSound) (h : a.persist p records t = .error e s) :
    s = (t.makeDirs (a.projectDir p)).2 ∨
      ∃ dir, a.IsBlocked p records (t.makeDirs (a.projectDir p)).2 s dir := by
  rcases persist_eq_error h with same | ⟨u, fault, made, written, failed⟩
  · exact .inl same
  have sound := isSound_makeDirs hs (a.projectDir p)
  obtain ⟨dir, led⟩ := leadsTo_of_makeDirs hs (congrArg Prod.fst made)
  rw [made] at sound led ⊢
  obtain ⟨loc, located, -⟩ := writeFile_eq_ok written
  have walkable := walkable_ledgerPath (walk_of_locateNames located).1
  refine .inr ⟨dir, led, walkable, Decidable.not_not.mp fun notDir => ?_, written⟩
  -- once the file has been written, nothing else is in the way of moving it to the ledger
  obtain ⟨w, renamed⟩ := rename_temporary sound led notDir written
  exact absurd (failed.symm.trans renamed) (by simp)

theorem tree_of_persist_error {e : Error} (hs : t.IsSound)
    (hledger : ∀ dir, (t.makeDirs (a.projectDir p)).2.LeadsTo (a.projectDir p) dir →
      Walkable (a.ledgerPath p) →
      (t.makeDirs (a.projectDir p)).2.find? (dir ++ [ledgerName]) ≠ some .directory)
    (h : a.persist p records t = .error e s) : s = (t.makeDirs (a.projectDir p)).2 := by
  rcases persist_error_cases hs h with same | ⟨dir, blocked⟩
  · exact same
  · exact absurd blocked.directory (hledger dir blocked.leads blocked.walkable)

/-! ## Making way -/

theorem setAside_eq_error {e : Error} (h : a.setAside p t = .error e s) : s = t := by
  rw [setAside, run_bind] at h
  rcases a.ledgerIsThere_cases p t with ⟨content, -, run⟩ | ⟨-, run⟩ | ⟨e', run⟩
  · rw [run] at h
    cases h
  · rw [run] at h
    cases h
  · rw [run] at h
    exact (EStateM.Result.error.inj h).2.symm

/-- What is moved aside is a file; where nothing is, nothing happens. -/
theorem setAside_eq_ok (h : a.setAside p t = .ok () s) :
    (∃ content, t.statLink (a.ledgerPath p) = .ok (.file content) ∧
      (s = t ∨ t.rename (a.ledgerPath p) (a.asidePath p) = .ok s)) ∨
      t.statLink (a.ledgerPath p) = .error .notFound ∧ s = t := by
  rw [setAside, run_bind] at h
  rcases a.ledgerIsThere_cases p t with ⟨content, found, run⟩ | ⟨found, run⟩ | ⟨e, run⟩
  · rw [run] at h
    refine .inl ⟨content, found, ?_⟩
    have moved : ((t.rename (a.ledgerPath p) (a.asidePath p)).toOption).getD t = s :=
      (EStateM.Result.ok.inj h).2
    cases hrenamed : t.rename (a.ledgerPath p) (a.asidePath p) with
    | error fault =>
      rw [hrenamed] at moved
      exact .inl moved.symm
    | ok u =>
      rw [hrenamed] at moved
      obtain rfl : u = s := moved
      exact .inr rfl
  · rw [run] at h
    exact .inr ⟨found, (EStateM.Result.ok.inj h).2.symm⟩
  · rw [run] at h
    cases h

/-- A directory is not read as a ledger. -/
theorem load_of_directory (hled : t.LeadsTo (a.projectDir p) dir)
    (hwalk : Walkable (a.ledgerPath p)) (hdir : t.find? (dir ++ [ledgerName]) = some .directory) :
    a.load p t = .unreadable := by
  rw [ledgerPath_eq_join] at hwalk
  obtain ⟨left, walked⟩ := hled.walk_join isComponent_ledgerName hwalk
  have located := walked true
  rw [walk_directory isStep_ledgerName hdir, walk_nil, ← ledgerPath_eq_join] at located
  have read := readFile_of_locate located
  rw [readAt, hdir] at read
  delta load
  rw [read]

/-- A directory is not moved aside as a ledger. -/
theorem ledger_ne_directory_of_setAside (hled : t.LeadsTo (a.projectDir p) dir)
    (hwalk : Walkable (a.ledgerPath p)) (hmoved : a.setAside p t = .ok () s) :
    t.find? (dir ++ [ledgerName]) ≠ some .directory := by
  intro hdir
  have found := statLink_ledger hled hwalk hdir
  rcases setAside_eq_ok hmoved with ⟨content, file, -⟩ | ⟨missing, -⟩
  · exact absurd (file.symm.trans found) (by simp)
  · exact absurd (missing.symm.trans found) (by simp)

/-- No way is made where a directory is in the place of the ledger. -/
theorem ledger_ne_directory (hled : t.LeadsTo (a.projectDir p) dir)
    (hwalk : Walkable (a.ledgerPath p))
    (hway : a.MakesWay p (a.load p t).isUnreadable t s) :
    t.find? (dir ++ [ledgerName]) ≠ some .directory := by
  rcases hway with ⟨readable, -⟩ | ⟨-, moved⟩
  · intro hdir
    rw [load_of_directory hled hwalk hdir] at readable
    exact absurd readable (by simp [LedgerState.isUnreadable])
  · exact ledger_ne_directory_of_setAside hled hwalk moved

/-- A file that has been moved aside is there with its content, and nothing is where it was. -/
structure IsMovedAside (a : Archive) (p : Project) (content : Bytes) (t s : FileTree)
    (dir : Location) : Prop where
  leads : t.LeadsTo (a.projectDir p) dir
  before : t.find? (dir ++ [ledgerName]) = some (.file content)
  renamed : t.rename (a.ledgerPath p) (a.asidePath p) = .ok s
  gone : s.find? (dir ++ [ledgerName]) = none
  aside : s.find? (dir ++ [asideName]) = some (.file content)

theorem ledger_ne_aside (dir : Location) : dir ++ [ledgerName] ≠ dir ++ [asideName] :=
  fun same => absurd (List.append_cancel_left same) (by decide)

/-- Moving a ledger aside changes nothing but that ledger and what it takes the place of. -/
structure MovesAside (a : Archive) (p : Project) (content : Bytes) (t s : FileTree)
    (dir : Location) : Prop extends IsMovedAside a p content t s dir where
  working : s.workingDirectory = t.workingDirectory
  free : t.find? (dir ++ [asideName]) ≠ some .directory
  elsewhere : ∀ loc, loc ≠ dir ++ [ledgerName] → loc ≠ dir ++ [asideName] →
    s.find? loc = t.find? loc

theorem movesAside_of_rename (hfile : t.statLink (a.ledgerPath p) = .ok (.file content))
    (h : t.rename (a.ledgerPath p) (a.asidePath p) = .ok s) :
    ∃ dir, a.MovesAside p content t s dir := by
  rw [ledgerPath_eq_join] at hfile
  obtain ⟨dir, led, found⟩ := leadsTo_of_statLink isComponent_ledgerName hfile
  obtain ⟨source, target, entry, hsource, hentry, -, htarget, notDir, moved⟩ := rename_eq_ok h
  rw [ledgerPath_eq_join] at hsource
  rw [asidePath_eq_join] at htarget
  -- both paths go through the directory of the project, and end in it
  obtain ⟨dir₁, left₁, led₁, last₁⟩ := locate_join isComponent_ledgerName hsource
  obtain ⟨dir₂, left₂, led₂, last₂⟩ := locate_join isComponent_asideName htarget
  obtain rfl : dir = dir₁ := led₁.unique led (.refl t)
  obtain rfl : dir = dir₂ := led₂.unique led (.refl t)
  obtain rfl := eq_of_walk_one_false isComponent_ledgerName.isName last₁
  obtain rfl := eq_of_walk_one_false isComponent_asideName.isName last₂
  obtain rfl := Option.some.inj (found.symm.trans hentry)
  rcases moved with ⟨same, -⟩ | ⟨differs, mid, gone, put⟩
  · exact absurd same (ledger_ne_aside dir)
  refine ⟨dir, ⟨led, found, h, ?_, put.here⟩, put.working.trans gone.working, notDir, ?_⟩
  · rw [put.elsewhere _ differs, gone.here]
  · intro loc notLedger notAside
    rw [put.elsewhere loc notAside, gone.elsewhere loc notLedger]

/-- Directories stay, and a link can only have been replaced by the file. -/
theorem MovesAside.blocks (h : a.MovesAside p content t s dir) : t.Blocks s := by
  intro loc
  by_cases atLedger : loc = dir ++ [ledgerName]
  · subst atLedger
    simp [h.before]
  by_cases atAside : loc = dir ++ [asideName]
  · subst atAside
    exact ⟨fun isDir => absurd isDir h.free, fun _ _ => .inr ⟨content, h.aside⟩⟩
  · rw [h.elsewhere loc atLedger atAside]
    exact ⟨id, fun _ => .inl⟩

/-- When way has been made for a ledger, an unreadable one has been moved aside or nothing has been
done. -/
theorem makesWay_cases {unreadable : Bool} (h : a.MakesWay p unreadable t s) :
    s = t ∨ unreadable = true ∧ ∃ content dir, t.statLink (a.ledgerPath p) = .ok (.file content) ∧
      a.MovesAside p content t s dir := by
  rcases h with ⟨-, same⟩ | ⟨unread, moved⟩
  · exact .inl same
  rcases setAside_eq_ok moved with ⟨content, file, same | renamed⟩ | ⟨-, same⟩
  · exact .inl same
  · obtain ⟨dir, moves⟩ := movesAside_of_rename file renamed
    exact .inr ⟨unread, content, dir, file, moves⟩
  · exact .inl same

/-- No directory and no link has come into being. -/
theorem MovesAside.keepsBut (h : a.MovesAside p content t s dir) :
    KeepsBut (dir ++ [asideName]) s t := by
  intro loc notAside
  by_cases atLedger : loc = dir ++ [ledgerName]
  · subst atLedger
    simp [h.gone]
  · rw [h.elsewhere loc atLedger notAside]
    exact ⟨id, fun _ => id⟩

/-- The path of the directory leads where it led. -/
theorem MovesAside.eq_of_leadsTo {dir' : Location} (h : a.MovesAside p content t s dir)
    (hled : s.LeadsTo (a.projectDir p) dir') : dir' = dir := by
  obtain ⟨left, led⟩ := hled
  rcases led.keepBut h.keepsBut (by simp [h.aside]) with led' | ⟨_, _, target, _, _, _, -, isLink, -⟩
  · rw [start, h.working, ← start] at led'
    exact h.leads.unique ⟨left, led'⟩ (.refl t)
  · simp [h.aside] at isLink

/-- If the records cannot be written after the ledger has been moved aside, nothing more happens. -/
theorem tree_of_persist_error_aside {e : Error} (hs : t.IsSound)
    (hfile : t.statLink (a.ledgerPath p) = .ok (.file content))
    (hrenamed : t.rename (a.ledgerPath p) (a.asidePath p) = .ok s)
    (h : a.persist p records s = .error e u) :
    u = s ∧ ∃ dir, a.IsMovedAside p content t s dir := by
  obtain ⟨dir, moved⟩ := movesAside_of_rename hfile hrenamed
  have sound := isSound_of_rename hs hrenamed
  have unmade := makeDirs_of_blocks sound moved.leads moved.working moved.blocks
  refine ⟨(tree_of_persist_error sound ?_ h).trans unmade, dir, moved.toIsMovedAside⟩
  rw [unmade]
  intro dir' led _
  obtain rfl := moved.eq_of_leadsTo led
  simp [moved.gone]

/-! ## The directory of the project -/

/-- Nothing is found in a directory that is missing. -/
theorem statLink_of_missing (hs : t.IsSound) (hroot : t.LeadsTo a.root root)
    (hp : p.isGlobal = false) (hshort : p.name.utf8ByteSize ≤ longestName)
    (hgone : t.find? (root ++ [p.name]) = none) (hname : FilePath.IsComponent name)
    (hstep : name.utf8ByteSize ≤ longestName)
    (hwalk : Walkable ((a.projectDir p).join name)) :
    t.statLink ((a.projectDir p).join name) = .error .notFound ∧
      (t.insert (root ++ [p.name]) .directory).statLink ((a.projectDir p).join name)
        = .error .notFound := by
  have component := Project.isComponent_name hp
  have step : IsStep p.name := ⟨component.isName, hshort⟩
  have below : root ++ [p.name] ≠ [] := by simp
  have put := setAt_insert below t .directory
  have keeps := keeps_of_setAt put (hgone ▸ isPlain_none) (by simp)
  -- before, the walk ends at the missing name; after that it ends in an empty directory
  constructor
  · obtain ⟨left, led⟩ := hroot
    have located : t.locate false ((a.projectDir p).join name) = .error .notFound := by
      rw [locate, locateNames_eq_walk hwalk, start_join t _ hname, FilePath.names_join _ hname,
        start_projectDir, names_projectDir, Project.place_of_not_isGlobal hp, List.append_assoc,
        led.walk_append (.inl (by simp)), List.singleton_append]
      exact walk_missing step hgone (List.cons_ne_nil name [])
    exact statLink_of_error located
  · have led := leadsTo_projectDir_of_directory (hroot.keep keeps) hp hshort put.here
    have differs : (root ++ [p.name]) ++ [name] ≠ root ++ [p.name] := by simp
    have missing := hs.find?_eq_none hgone name
    rw [statLink_of_locate (led.locate_join hname hwalk hstep), put.elsewhere _ differs, missing]

/-- Making the directory of a project in the results directory shows no file there. -/
theorem statLink_makeDirs (hs : t.IsSound) (hroot : t.LeadsTo a.root root)
    (hmissing : ∀ dir, ¬ t.LeadsTo (a.projectDir p) dir) (hname : FilePath.IsComponent name)
    (hstep : name.utf8ByteSize ≤ longestName) :
    (t.makeDirs (a.projectDir p)).2.statLink ((a.projectDir p).join name)
      = t.statLink ((a.projectDir p).join name) := by
  cases hp : p.isGlobal with
  | true =>
    rw [projectDir_of_isGlobal a hp] at hmissing
    exact absurd hroot (hmissing root)
  | false =>
    have path := projectDir_of_not_isGlobal a hp
    have component := Project.isComponent_name hp
    -- the results directory is there, so that at most one directory is made
    by_cases hwalk : Walkable ((a.projectDir p).join name)
    · have made := makeDirs_join component hroot
      rw [← path] at made
      cases hmade : t.makeDir (a.projectDir p) (a.projectDir p).names with
      | error fault =>
        rw [hmade] at made
        rw [made]
        simp only
        split <;> rfl
      | ok u =>
        rw [hmade] at made
        rw [made]
        rw [path] at hmade
        obtain ⟨short, gone, rfl⟩ := makeDir_join_eq_ok component hroot hmade
        obtain ⟨before, after⟩ := statLink_of_missing hs hroot hp short gone hname hstep hwalk
        exact after.trans before.symm
    · obtain ⟨fault, failed⟩ := locateNames_error hwalk
      rw [statLink_of_error (failed _ false _), statLink_of_error (failed _ false _)]

/-- In a directory that is missing there is neither a ledger nor one that has been moved aside. -/
theorem statLink_ne_ok_of_missing (hmissing : ∀ dir, ¬ t.LeadsTo (a.projectDir p) dir)
    (entry : Entry) :
    t.statLink (a.ledgerPath p) ≠ .ok entry ∧ t.statLink (a.asidePath p) ≠ .ok entry := by
  rw [ledgerPath_eq_join, asidePath_eq_join]
  constructor
  · intro found
    obtain ⟨dir, led, -⟩ := leadsTo_of_statLink isComponent_ledgerName found
    exact hmissing dir led
  · intro found
    obtain ⟨dir, led, -⟩ := leadsTo_of_statLink isComponent_asideName found
    exact hmissing dir led

/-- If the records cannot be written where the directory of the project was missing, there is still
nothing there. -/
theorem statLink_of_persist_error_missing {e : Error} (hs : t.IsSound)
    (hroot : t.LeadsTo a.root root) (hmissing : ∀ dir, ¬ t.LeadsTo (a.projectDir p) dir)
    (h : a.persist p records t = .error e s) :
    s.statLink (a.ledgerPath p) = t.statLink (a.ledgerPath p) ∧
      s.statLink (a.asidePath p) = t.statLink (a.asidePath p) := by
  have ledger := statLink_makeDirs hs hroot hmissing isComponent_ledgerName short_ledgerName
  have aside := statLink_makeDirs hs hroot hmissing isComponent_asideName (by decide)
  rw [← ledgerPath_eq_join] at ledger
  rw [← asidePath_eq_join] at aside
  have made : s = (t.makeDirs (a.projectDir p)).2 := by
    refine tree_of_persist_error hs (fun dir led walkable found => ?_) h
    have shown := statLink_ledger led walkable found
    rw [ledger] at shown
    exact (statLink_ne_ok_of_missing hmissing _).1 shown
  rw [made]
  exact ⟨ledger, aside⟩

/-- What is left where the directory of a project was missing and the records could not be written.
Only directories have been made, and a temporary file has been written if a directory is in the place
of the ledger. -/
structure LeavesMade (a : Archive) (p : Project) (t s : FileTree) : Prop where
  missing : ∀ dir, ¬ t.LeadsTo (a.projectDir p) dir
  before : ∀ entry, t.statLink (a.ledgerPath p) ≠ .ok entry ∧ t.statLink (a.asidePath p) ≠ .ok entry
  after : ∀ root, t.LeadsTo a.root root →
    s.statLink (a.ledgerPath p) = t.statLink (a.ledgerPath p) ∧
      s.statLink (a.asidePath p) = t.statLink (a.asidePath p)
  -- only a path that goes up can lead to what was there already
  afterDown : ".." ∉ a.root.names → ∀ entry,
    s.statLink (a.ledgerPath p) ≠ .ok entry ∧ s.statLink (a.asidePath p) ≠ .ok entry
  entry : ∀ loc, s.find? loc = t.find? loc ∨
    (t.find? loc = none ∧ s.find? loc = some .directory) ∨
    (s.locate true (a.temporaryPath p) = .ok loc ∧ s.statLink (a.ledgerPath p) = .ok .directory)

/-- Below a results directory whose path never goes up no file is shown by making directories. -/
theorem statLink_ne_ok_of_makeDirs (hs : t.IsSound) (hup : ".." ∉ a.root.names)
    (hmissing : ∀ dir, ¬ t.LeadsTo (a.projectDir p) dir) (hname : FilePath.IsComponent name)
    (entry : Entry) :
    (t.makeDirs (a.projectDir p)).2.statLink ((a.projectDir p).join name) ≠ .ok entry := by
  intro found
  obtain ⟨dir, ⟨left, led⟩, there⟩ := leadsTo_of_statLink hname found
  have down : ".." ∉ (a.projectDir p).names := by
    rw [names_projectDir]
    cases hp : p.isGlobal with
    | true => rwa [Project.place_of_isGlobal hp]
    | false =>
      rw [Project.place_of_not_isGlobal hp, List.mem_append, List.mem_singleton, not_or]
      exact ⟨hup, (Project.isComponent_name hp).notUp.symm⟩
  rcases makeDirs_eq_or_empty_of_leads hs down led with same | ⟨left', dir', led', none⟩
  · rw [same] at led
    exact hmissing dir ⟨left, led⟩
  · obtain ⟨-, rfl⟩ := led'.unique led (.refl _)
    exact absurd ((none name).symm.trans there) (by simp)

theorem leavesMade_of_persist_error {e : Error} (hs : t.IsSound)
    (hmissing : ∀ dir, ¬ t.LeadsTo (a.projectDir p) dir)
    (h : a.persist p records t = .error e s) : a.LeavesMade p t s where
  missing := hmissing
  before := statLink_ne_ok_of_missing hmissing
  after := fun root hroot => statLink_of_persist_error_missing hs hroot hmissing h
  afterDown := by
    intro hup entry
    have nothing : ∀ {name}, FilePath.IsComponent name → ∀ entry,
        (t.makeDirs (a.projectDir p)).2.statLink ((a.projectDir p).join name) ≠ .ok entry :=
      fun hname => statLink_ne_ok_of_makeDirs hs hup hmissing hname
    -- so there is no directory in the place of the ledger either
    rcases persist_error_cases hs h with rfl | ⟨dir, blocked⟩
    · rw [ledgerPath_eq_join, asidePath_eq_join]
      exact ⟨nothing isComponent_ledgerName entry, nothing isComponent_asideName entry⟩
    · have shown := statLink_ledger blocked.leads blocked.walkable blocked.directory
      rw [ledgerPath_eq_join] at shown
      exact absurd shown (nothing isComponent_ledgerName _)
  entry := by
    intro loc
    have grown : (t.makeDirs (a.projectDir p)).2.find? loc = t.find? loc ∨
        t.find? loc = none ∧ (t.makeDirs (a.projectDir p)).2.find? loc = some .directory :=
      ((grown_makeDirs hs (a.projectDir p)).entry loc).imp_right fun new => ⟨new.1, new.2.1⟩
    rcases persist_error_cases hs h with rfl | ⟨dir, blocked⟩
    · exact grown.imp_right .inl
    · obtain ⟨spot, located, -, put⟩ := writeFile_eq_ok blocked.written
      have keeps := (builds_of_writeFile blocked.written (isSound_makeDirs hs _)).2
      by_cases here : loc = spot
      · subst here
        exact .inr (.inr ⟨locate_of_keeps located keeps, statLink_ledger (blocked.leads.keep keeps)
          blocked.walkable (keeps.directory _ blocked.directory)⟩)
      · rw [put.elsewhere loc here]
        exact grown.imp_right .inl

/-! ## Updates -/

/-- An update that fails leaves the tree as it was, if its change only works on the records. Only an
unreadable ledger has been moved aside when the records were to be written; and where the directory
of the project was missing there was nothing, and something is found there then only if the path goes
up to a directory that it did not lead to before. -/
theorem tree_of_update_error {change : List Record → Disk (Commit α)} {e : Error}
    (hs : t.IsSound) (hchange : ∀ records t, treeAfter (change records) t = t)
    (h : a.update p change t = .error e s) :
    s = t ∨
      (∃ dir content records x, a.IsMovedAside p content t s dir ∧
        (a.load p t).isUnreadable = true ∧
        change (a.load p t).records t = .ok (.write records x) t) ∨
      a.LeavesMade p t s := by
  have unchanged := hchange (a.load p t).records t
  rw [treeAfter] at unchanged
  rcases update_eq_error h with failed | ⟨records, x, u, changed, failed⟩
  · rw [failed] at unchanged
    exact .inl unchanged
  rw [changed] at unchanged
  obtain rfl : u = t := unchanged
  rcases failed with ⟨-, failed⟩ | ⟨v, way, failed⟩
  · exact .inl (setAside_eq_error failed)
  by_cases there : ∃ dir, u.LeadsTo (a.projectDir p) dir
  · obtain ⟨dir, led⟩ := there
    -- unless the ledger has been moved, the records were to be written into the tree as it was
    have kept : v = u → s = u := by
      rintro rfl
      have unmade := makeDirs_of_blocks hs led rfl (.refl v)
      refine (tree_of_persist_error hs ?_ failed).trans unmade
      rw [unmade]
      exact fun dir' led' walkable => ledger_ne_directory led' walkable way
    rcases makesWay_cases way with same | ⟨unreadable, content, _, found, moves⟩
    · exact .inl (kept same)
    · obtain ⟨rfl, dir', aside⟩ := tree_of_persist_error_aside hs found moves.renamed failed
      exact .inr (.inl ⟨dir', content, records, x, aside, unreadable, changed⟩)
  · have missing : ∀ dir, ¬ u.LeadsTo (a.projectDir p) dir := fun dir led => there ⟨dir, led⟩
    have nothing := statLink_ne_ok_of_missing missing
    -- with no ledger to be moved aside the records were to be written into the tree as it was
    obtain rfl : v = u := by
      rcases makesWay_cases way with same | ⟨-, content, -, found, -⟩
      · exact same
      · exact absurd found (nothing _).1
    exact .inr (.inr (leavesMade_of_persist_error hs missing failed))

/-- An update that writes the records as they are. -/
def writeBack (a : Archive) (p : Project) : Disk Unit :=
  a.update p fun records => pure (.write records ())

/-- A results directory in which a directory is in the place of the temporary file. -/
def blockedResults (ledger : Bytes) : FileTree where
  entries := [(["results"], .directory), (["results", "history.json"], .file ledger),
    (["results", "history.json.tmp"], .directory)]
  workingDirectory := []

theorem isSound_blockedResults (ledger : Bytes) : (blockedResults ledger).IsSound := by
  refine isSound_of_entries (fun e listed => ?_) rfl
  simp only [blockedResults, List.mem_cons, List.not_mem_nil, or_false] at listed
  rcases listed with rfl | rfl | rfl <;> rfl

theorem tree_of_update_error_blockedResults :
    (blockedResults [91, 93]).IsSound ∧
      (results.load .global (blockedResults [91, 93])).isUnreadable = false ∧
      ∃ e s, results.writeBack .global (blockedResults [91, 93]) = .error e s ∧
        s = blockedResults [91, 93] := by
  have readable : (results.load .global (blockedResults [91, 93])).isUnreadable = false := rfl
  have led : (blockedResults [91, 93]).LeadsTo (results.projectDir .global) ["results"] :=
    ⟨mostLinks, .down (by decide) rfl (.here _ _)⟩
  obtain ⟨e, s, run⟩ : ∃ e s, results.writeBack .global (blockedResults [91, 93]) = .error e s :=
    ⟨_, _, rfl⟩
  refine ⟨isSound_blockedResults _, readable, e, s, run, ?_⟩
  rcases tree_of_update_error (isSound_blockedResults _) (fun _ _ => rfl) run with
    same | ⟨_, _, _, _, -, unreadable, -⟩ | made
  · exact same
  · exact absurd (readable.symm.trans unreadable) (by simp)
  · exact absurd led (made.missing _)

/-- An unreadable ledger has been moved aside when writing fails, and a ledger that the path did not
lead to is there once directories have been made. -/
theorem not_unchanged_blockedResults :
    (∃ e s, results.writeBack .global (blockedResults []) = .error e s ∧
      (blockedResults []).statLink (results.ledgerPath .global) = .ok (.file []) ∧
      s.statLink (results.ledgerPath .global) = .error .notFound ∧
      (blockedResults []).statLink (results.asidePath .global) = .error .notFound ∧
      s.statLink (results.asidePath .global) = .ok (.file [])) ∧
    ∃ e s, detour.writeBack .global (blockedResults []) = .error e s ∧
      (blockedResults []).statLink (detour.ledgerPath .global) = .error .notFound ∧
      s.statLink (detour.ledgerPath .global) = .ok (.file []) :=
  ⟨⟨_, _, rfl, rfl, rfl, rfl, rfl⟩, ⟨_, _, rfl, rfl, rfl⟩⟩

end ImageGateway.Archive
