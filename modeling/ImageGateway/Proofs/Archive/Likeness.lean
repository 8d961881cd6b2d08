import ImageGateway.Proofs.Archive.Ledgers
import ImageGateway.Proofs.Storage.Rerouting

/-!
# Trees that look alike to a project

What is done for a project depends on the links of the tree, on what is in the place of the project
and on its files; nothing else is looked at. Two trees in which these are the same look alike to the
project (`LooksAlike`). A program that gives the same answer on trees that look alike, and leaves trees
that look alike, is local (`Local`), and so is what is put together from local programs
(`local_bind`). Operations on the files of the project are local, and so is making its directory
(`local_makeDirs`).
-/

set_option autoImplicit false

namespace ImageGateway.Archive

open Storage Storage.FileTree

variable {a : Archive} {p : Project} {t s u t' s' : FileTree} {root loc : Location}
  {name name' : String} {ε α β : Type}

/-! ## Looking alike -/

/-- Two trees have the same links, the same in the place of a project and the same files of it. -/
structure SeesSame (p : Project) (root : Location) (t s : FileTree) : Prop where
  links : t.SameLinks s
  place : s.find? (p.place root) = t.find? (p.place root)
  files : ∀ name, IsOwnName name →
    s.find? (p.place root ++ [name]) = t.find? (p.place root ++ [name])

/-- Two trees with the results directory at the same location look alike to a project. -/
structure LooksAlike (a : Archive) (p : Project) (root : Location) (t s : FileTree) : Prop
    extends SeesSame p root t s where
  left : a.IsAt root t
  right : a.IsAt root s

/-- The same change leaves the same to be seen. -/
theorem SeesSame.setAt {entry : Option Entry} (h : SeesSame p root t s) (ht : t.SetAt loc entry t')
    (hs : s.SetAt loc entry s') : SeesSame p root t' s' := by
  have same : ∀ other, s.find? other = t.find? other → s'.find? other = t'.find? other := by
    intro other before
    by_cases here : other = loc
    · rw [here, hs.here, ht.here]
    · rw [hs.elsewhere other here, ht.elsewhere other here, before]
  refine ⟨⟨?_, fun other target => ?_⟩, same _ h.place, fun name hname => same _ (h.files name hname)⟩
  · rw [hs.working, ht.working, h.links.working]
  · by_cases here : other = loc
    · rw [here, hs.here, ht.here]
    · rw [hs.elsewhere other here, ht.elsewhere other here]
      exact h.links.link other target

/-- Where the same is in the place of a project, the paths of its files lead to the same locations. -/
theorem IsAt.locate_cases (h : a.IsAt root t) (h' : a.IsAt root s)
    (hplace : s.find? (p.place root) = t.find? (p.place root)) (hname : FilePath.IsComponent name)
    (follow : Bool) :
    (∃ fault, t.locate follow ((a.projectDir p).join name) = .error fault ∧
      s.locate follow ((a.projectDir p).join name) = .error fault) ∨
    (t.locate follow ((a.projectDir p).join name) = .ok (p.place root ++ [name]) ∧
      s.locate follow ((a.projectDir p).join name) = .ok (p.place root ++ [name])) := by
  by_cases hwalk : Walkable ((a.projectDir p).join name)
  · -- where the path leads depends on what is in the place of the project, and on nothing else
    rw [h.locate_file hname hwalk, h'.locate_file hname hwalk, hplace]
    cases located : fileAt p root (t.find? (p.place root)) name with
    | error fault => exact .inl ⟨fault, rfl, rfl⟩
    | ok loc =>
      obtain rfl := eq_of_fileAt located
      exact .inr ⟨rfl, rfl⟩
  · obtain ⟨fault, failed⟩ := locateNames_error hwalk
    exact .inl ⟨fault, failed t follow _, failed s follow _⟩

theorem LooksAlike.locate_cases (h : a.LooksAlike p root t s) (hname : FilePath.IsComponent name)
    (follow : Bool) :
    (∃ fault, t.locate follow ((a.projectDir p).join name) = .error fault ∧
      s.locate follow ((a.projectDir p).join name) = .error fault) ∨
    (t.locate follow ((a.projectDir p).join name) = .ok (p.place root ++ [name]) ∧
      s.locate follow ((a.projectDir p).join name) = .ok (p.place root ++ [name])) :=
  h.left.locate_cases h.right h.place hname follow

theorem LooksAlike.load (h : a.LooksAlike p root t s) : a.load p s = a.load p t :=
  load_congr (readFile_ledger_congr h.left h.right (h.files ledgerName isOwnName_ledgerName)
    (.inl h.place))

theorem LooksAlike.statLink (h : a.LooksAlike p root t s) (hname : IsOwnName name) :
    s.statLink ((a.projectDir p).join name) = t.statLink ((a.projectDir p).join name) := by
  rcases h.locate_cases (isComponent_of_isOwnName hname) false with ⟨fault, ht, hs⟩ | ⟨ht, hs⟩
  · rw [statLink_of_error ht, statLink_of_error hs]
  · rw [statLink_of_locate ht, statLink_of_locate hs, h.files name hname]

/-! ## Local programs -/

/-- Two runs ended alike, and the trees they ended with are in a relation. -/
inductive SameOutcome (R : FileTree → FileTree → Prop) :
    EStateM.Result ε FileTree α → EStateM.Result ε FileTree α → Prop where
  | ok {t s : FileTree} (x : α) (h : R t s) : SameOutcome R (.ok x t) (.ok x s)
  | error {t s : FileTree} (e : ε) (h : R t s) : SameOutcome R (.error e t) (.error e s)

/-- On trees that look alike to the project the program does the same. -/
def Local (a : Archive) (p : Project) (root : Location) (program : EStateM ε FileTree α) : Prop :=
  ∀ t s, a.LooksAlike p root t s → SameOutcome (a.LooksAlike p root) (program t) (program s)

theorem local_pure (x : α) : a.Local p root (pure x : EStateM ε FileTree α) :=
  fun _ _ h => .ok x h

theorem local_throw (e : ε) : a.Local p root (throw e : EStateM ε FileTree α) :=
  fun _ _ h => .error e h

theorem local_bind {program : EStateM ε FileTree α} {next : α → EStateM ε FileTree β}
    (h : a.Local p root program) (hnext : ∀ x, a.Local p root (next x)) :
    a.Local p root (program >>= next) := by
  intro t s alike
  have first := h t s alike
  rw [run_bind, run_bind]
  -- the two runs of the first program end alike, both well or both with the same error
  generalize program t = left at first ⊢
  generalize program s = right at first ⊢
  cases first with
  | ok x alike' => exact hnext x _ _ alike'
  | error e alike' => exact .error e alike'

/-- What depends on the tree by way of the ledger only is local. -/
theorem local_get_load (next : LedgerState → EStateM ε FileTree α)
    (h : ∀ state, a.Local p root (next state)) :
    a.Local p root (get >>= fun t => next (a.load p t)) := by
  intro t s alike
  have same := h (a.load p t) t s alike
  rw [run_bind, run_bind]
  show SameOutcome _ (next (a.load p t) t) (next (a.load p s) s)
  rwa [alike.load]

/-! ## Operations on files -/

/-- On trees that look alike to the project the operation does the same. -/
def LocalOp (a : Archive) (p : Project) (root : Location)
    (op : FileTree → Except Fault FileTree) : Prop :=
  ∀ t s, a.LooksAlike p root t s →
    (∃ fault, op t = .error fault ∧ op s = .error fault) ∨
      ∃ t' s', op t = .ok t' ∧ op s = .ok s' ∧ a.LooksAlike p root t' s'

/-- What an operation does to the one entry that it changes, given what is there. -/
structure ActsOn (path : FilePath) (follow : Bool) (act : Option Entry → Except Fault (Option Entry))
    (op : FileTree → Except Fault FileTree) : Prop where
  lost : ∀ t fault, t.locate follow path = .error fault → op t = .error fault
  refused : ∀ t loc fault, t.locate follow path = .ok loc → act (t.find? loc) = .error fault →
    op t = .error fault
  done : ∀ t loc entry, t.locate follow path = .ok loc → act (t.find? loc) = .ok entry →
    ∃ s, op t = .ok s ∧ t.SetAt loc entry s

/-- An operation on one file of the project is local. -/
theorem localOp_of_actsOn {follow : Bool} {act : Option Entry → Except Fault (Option Entry)}
    {op : FileTree → Except Fault FileTree} (hname : IsOwnName name)
    (hop : ActsOn ((a.projectDir p).join name) follow act op)
    (hconfines : ∀ t s, op t = .ok s → a.Confines p IsOwnName t s) : a.LocalOp p root op := by
  intro t s h
  rcases h.locate_cases (isComponent_of_isOwnName hname) follow with ⟨fault, ht, hs⟩ | ⟨ht, hs⟩
  · exact .inl ⟨fault, hop.lost t fault ht, hop.lost s fault hs⟩
  have same := h.files name hname
  -- the entry that decides what is done is the same in both trees
  cases acted : act (t.find? (p.place root ++ [name])) with
  | error fault =>
    exact .inl ⟨fault, hop.refused t _ fault ht acted, hop.refused s _ fault hs (same ▸ acted)⟩
  | ok entry =>
    obtain ⟨t', run, put⟩ := hop.done t _ entry ht acted
    obtain ⟨s', run', put'⟩ := hop.done s _ entry hs (same ▸ acted)
    have after := hconfines t t' run h.left.sound h.left.hasNoLinks
    have after' := hconfines s s' run' h.right.sound h.right.hasNoLinks
    exact .inr ⟨t', s', run, run', h.toSeesSame.setAt put put', h.left.of_touches after,
      h.right.of_touches after'⟩

/-- Anything but a directory is overwritten. -/
def overwrite (content : Bytes) (there : Option Entry) : Except Fault (Option Entry) :=
  if there = some .directory then .error .isADirectory else .ok (some (.file content))

theorem actsOn_writeFile (path : FilePath) (content : Bytes) :
    ActsOn path true (overwrite content) (·.writeFile path content) where
  lost := by
    intro t fault located
    show t.writeFile path content = _
    rw [writeFile, located]
    rfl
  refused := by
    intro t loc fault located refused
    show t.writeFile path content = _
    rw [overwrite] at refused
    split at refused
    · rename_i isDir
      obtain rfl := Except.error.inj refused
      rw [writeFile, located]
      simp only [bind, Except.bind, isDir]
    · exact absurd refused (by simp)
  done := by
    intro t loc entry located done
    rw [overwrite] at done
    split at done
    · exact absurd done (by simp)
    · rename_i notDir
      obtain rfl := Except.ok.inj done
      exact ⟨_, writeFile_of_locate located notDir content,
        setAt_insert (ne_nil_of_find? notDir) t _⟩

theorem localOp_writeFile (hname : IsOwnName name) (content : Bytes) :
    a.LocalOp p root (·.writeFile ((a.projectDir p).join name) content) :=
  localOp_of_actsOn hname (actsOn_writeFile _ content) fun _ _ run hs hlinks =>
    writeFile_own hs hlinks (isComponent_of_isOwnName hname) hname run

/-- Anything but a directory is taken away. -/
def takeAway (there : Option Entry) : Except Fault (Option Entry) :=
  if there = none then .error .notFound
  else if there = some .directory then .error .isADirectory
  else .ok none

theorem actsOn_removeFile (path : FilePath) : ActsOn path false takeAway (·.removeFile path) where
  lost := by
    intro t fault located
    show t.removeFile path = _
    rw [removeFile, lookUp, located]
    rfl
  refused := by
    intro t loc fault located refused
    show t.removeFile path = _
    rw [removeFile, lookUp, located]
    rw [takeAway] at refused
    split at refused
    · rename_i gone
      obtain rfl := Except.error.inj refused
      simp only [bind, Except.bind, gone]
    split at refused
    · rename_i isDir
      obtain rfl := Except.error.inj refused
      simp only [bind, Except.bind, isDir]
    · exact absurd refused (by simp)
  done := by
    intro t loc entry located done
    rw [takeAway] at done
    split at done
    · exact absurd done (by simp)
    split at done
    · exact absurd done (by simp)
    · rename_i there notDir
      obtain rfl := Except.ok.inj done
      obtain ⟨entry, found⟩ := Option.ne_none_iff_exists'.mp there
      have plain : entry ≠ .directory := fun same => notDir (found.trans (congrArg some same))
      have run : t.removeFile path = .ok (t.erase loc) := by
        rw [removeFile, lookUp, located]
        simp only [bind, Except.bind, found]
      exact ⟨_, run, setAt_erase (ne_nil_of_find? notDir) t⟩

theorem localOp_removeFile (hname : IsOwnName name) :
    a.LocalOp p root (·.removeFile ((a.projectDir p).join name)) :=
  localOp_of_actsOn hname (actsOn_removeFile _) fun _ _ run hs hlinks =>
    removeFile_own hs hlinks (isComponent_of_isOwnName hname) hname run

theorem LooksAlike.lookUp (h : a.LooksAlike p root t s) (hname : IsOwnName name) :
    s.lookUp false ((a.projectDir p).join name) = t.lookUp false ((a.projectDir p).join name) := by
  rw [FileTree.lookUp, FileTree.lookUp]
  rcases h.locate_cases (isComponent_of_isOwnName hname) false with ⟨fault, ht, hs⟩ | ⟨ht, hs⟩
  · rw [ht, hs]
    rfl
  · rw [ht, hs]
    simp only [bind, Except.bind, h.files name hname]

/-- Whether something can be moved is seen from what is found at the two paths. -/
theorem map_rename_congr {path path' : FilePath}
    (hsource : s.lookUp false path = t.lookUp false path)
    (htarget : s.locate false path' = t.locate false path')
    (hthere : ∀ loc, t.locate false path' = .ok loc → s.find? loc = t.find? loc) :
    (s.rename path path').map (fun _ => ()) = (t.rename path path').map (fun _ => ()) := by
  rw [rename, rename, hsource]
  cases t.lookUp false path with
  | error fault => rfl
  | ok found =>
    obtain ⟨source, entry⟩ := found
    simp only [bind, Except.bind]
    rw [htarget]
    cases located : t.locate false path' with
    | error fault => rfl
    | ok target =>
      simp only
      rw [hthere target located]
      -- which branch is taken is decided by the two entries, which are the same
      by_cases same : source = target
      · simp only [if_pos same]
        split <;> rfl
      · simp only [if_neg same]
        split <;> rfl

/-- Where one file of the project has been moved to another place among them in both trees, the same is
left to be seen. -/
theorem LooksAlike.seesSame_of_rename (h : a.LooksAlike p root t s) (hname : IsOwnName name)
    (hname' : IsOwnName name')
    (ht : t.rename ((a.projectDir p).join name) ((a.projectDir p).join name') = .ok t')
    (hs : s.rename ((a.projectDir p).join name) ((a.projectDir p).join name') = .ok s') :
    SeesSame p root t' s' := by
  obtain ⟨source, target, entry, hsource, found, -, htarget, -, changed⟩ := rename_eq_ok ht
  obtain ⟨source', target', entry', hsource', found', -, htarget', -, changed'⟩ := rename_eq_ok hs
  -- both trees have the two files at the same locations, with the same entry to be moved
  rcases h.locate_cases (isComponent_of_isOwnName hname) false with
    ⟨fault, lost, -⟩ | ⟨there, there'⟩
  · exact absurd (lost.symm.trans hsource) (by simp)
  obtain rfl := Except.ok.inj (there.symm.trans hsource)
  obtain rfl := Except.ok.inj (there'.symm.trans hsource')
  rcases h.locate_cases (isComponent_of_isOwnName hname') false with
    ⟨fault, lost, -⟩ | ⟨there, there'⟩
  · exact absurd (lost.symm.trans htarget) (by simp)
  obtain rfl := Except.ok.inj (there.symm.trans htarget)
  obtain rfl := Except.ok.inj (there'.symm.trans htarget')
  obtain rfl := Option.some.inj ((found'.symm.trans (h.files name hname)).trans found)
  rcases changed with ⟨here, rfl⟩ | ⟨differs, mid, gone, put⟩
  · rcases changed' with ⟨-, rfl⟩ | ⟨differs, -⟩
    · exact h.toSeesSame
    · exact absurd here differs
  · rcases changed' with ⟨here, -⟩ | ⟨-, mid', gone', put'⟩
    · exact absurd here differs
    · exact (h.toSeesSame.setAt gone gone').setAt put put'

/-- Moving one file of the project to another place among them is local. -/
theorem localOp_rename (hname : IsOwnName name) (hname' : IsOwnName name') :
    a.LocalOp p root
      (·.rename ((a.projectDir p).join name) ((a.projectDir p).join name')) := by
  intro t s h
  have component := isComponent_of_isOwnName hname
  have component' := isComponent_of_isOwnName hname'
  have targets : s.locate false ((a.projectDir p).join name')
        = t.locate false ((a.projectDir p).join name') ∧
      ∀ loc, t.locate false ((a.projectDir p).join name') = .ok loc →
        s.find? loc = t.find? loc := by
    rcases h.locate_cases component' false with ⟨fault, ht, hs⟩ | ⟨ht, hs⟩
    · exact ⟨hs.trans ht.symm, fun loc located => absurd (ht.symm.trans located) (by simp)⟩
    · refine ⟨hs.trans ht.symm, fun loc located => ?_⟩
      obtain rfl := Except.ok.inj (ht.symm.trans located)
      exact h.files name' hname'
  -- either both can be moved or neither, with the same fault
  have same := map_rename_congr (h.lookUp hname) targets.1 targets.2
  cases ht : t.rename ((a.projectDir p).join name) ((a.projectDir p).join name') with
  | error fault =>
    rw [ht] at same
    cases hs : s.rename ((a.projectDir p).join name) ((a.projectDir p).join name') with
    | error fault' =>
      rw [hs] at same
      obtain rfl : fault' = fault := Except.error.inj same
      exact .inl ⟨fault', ht, hs⟩
    | ok s' =>
      rw [hs] at same
      exact absurd same (by simp [Except.map])
  | ok t' =>
    rw [ht] at same
    cases hs : s.rename ((a.projectDir p).join name) ((a.projectDir p).join name') with
    | error fault =>
      rw [hs] at same
      exact absurd same (by simp [Except.map])
    | ok s' =>
      have left := rename_own h.left.sound h.left.hasNoLinks component hname component' hname' ht
      have right := rename_own h.right.sound h.right.hasNoLinks component hname component' hname' hs
      exact .inr ⟨t', s', ht, hs, h.seesSame_of_rename hname hname' ht hs, h.left.of_touches left,
        h.right.of_touches right⟩

/-! ## Programs on files -/

theorem local_change {path : FilePath} {op : FileTree → Except Fault FileTree}
    (h : a.LocalOp p root op) : a.Local p root (Disk.change path op) := by
  intro t s alike
  rw [Disk.change, Disk.change]
  rcases h t s alike with ⟨fault, ht, hs⟩ | ⟨t', s', ht, hs, alike'⟩
  · rw [ht, hs]
    exact .error _ alike
  · rw [ht, hs]
    exact .ok () alike'

theorem local_writeFile (hname : IsOwnName name) (content : Bytes) :
    a.Local p root (Disk.writeFile ((a.projectDir p).join name) content) :=
  local_change (localOp_writeFile hname content)

theorem local_tryRemove (hname : IsOwnName name) :
    a.Local p root (Disk.tryRemove ((a.projectDir p).join name)) := by
  intro t s alike
  rw [Disk.tryRemove, Disk.tryRemove]
  rcases localOp_removeFile hname t s alike with ⟨fault, ht, hs⟩ | ⟨t', s', ht, hs, alike'⟩
  · simp only at ht hs
    rw [ht, hs]
    exact .ok false alike
  · simp only at ht hs
    rw [ht, hs]
    exact .ok true alike'

theorem local_removeIfPresent (hname : IsOwnName name) :
    a.Local p root (Disk.removeIfPresent ((a.projectDir p).join name)) := by
  intro t s alike
  rw [Disk.removeIfPresent, Disk.removeIfPresent]
  rcases localOp_removeFile hname t s alike with ⟨fault, ht, hs⟩ | ⟨t', s', ht, hs, alike'⟩
  · simp only at ht hs
    rw [ht, hs]
    cases fault with
    | notFound => exact .ok () alike
    | _ => exact .error _ alike
  · simp only at ht hs
    rw [ht, hs]
    exact .ok () alike'

/-! ## Making the directory of the project -/

/-- In the results directory the directory of a project is made if nothing is in its place. -/
theorem IsAt.makeDirs (h : a.IsAt root t) (hwalk : Walkable (a.projectDir p)) :
    t.makeDirs (a.projectDir p)
      = if longestName < p.name.utf8ByteSize then (.error .nameTooLong, t)
        else if t.find? (p.place root) = none then (.ok (), t.insert (p.place root) .directory)
        else if t.find? (p.place root) = some .directory then (.ok (), t)
        else (.error .exists, t) := by
  cases hp : p.isGlobal with
  | true =>
    rw [projectDir_of_isGlobal a hp] at hwalk ⊢
    rw [makeDirs_of_leadsTo h.sound h.leads hwalk, if_neg (not_long_of_isGlobal hp),
      Project.place_of_isGlobal hp, h.leads.isDirectory h.sound, if_neg (by simp), if_pos rfl]
  | false =>
    have component := Project.isComponent_name hp
    have noLink := h.place_ne_link (p := p)
    rw [Project.place_of_not_isGlobal hp] at noLink ⊢
    rw [projectDir_of_not_isGlobal a hp] at hwalk ⊢
    obtain ⟨left, walked⟩ := h.leads.walk_join component hwalk
    -- only the last name of the path can be missing
    rw [makeDirs_join component h.leads, makeDir, namesLeadToDirectory, ← locate, ← locate, walked,
      walked]
    by_cases long : longestName < p.name.utf8ByteSize
    · rw [if_pos long, walk_tooLong component.isName (Nat.not_le_of_lt long),
        walk_tooLong component.isName (Nat.not_le_of_lt long)]
      rfl
    · have step : IsStep p.name := ⟨component.isName, Nat.le_of_not_lt long⟩
      rw [if_neg long, walk_one_false step, walk_one step noLink]
      simp only [bind, Except.bind]
      by_cases gone : t.find? (root ++ [p.name]) = none
      · simp only [gone, if_true]
      rw [if_neg gone]
      by_cases isDir : t.find? (root ++ [p.name]) = some .directory
      · simp only [isDir, if_true, beq_self_eq_true]
      rw [if_neg isDir]
      obtain ⟨entry, found⟩ := Option.ne_none_iff_exists'.mp gone
      cases entry with
      | directory => exact absurd found isDir
      | link target => exact absurd found (noLink target)
      | file content => simp only [found]; rfl

theorem IsAt.of_makeDirs (h : a.IsAt root t) (path : FilePath) :
    a.IsAt root (t.makeDirs path).2 :=
  h.keep (isSound_makeDirs h.sound path) (grown_makeDirs h.sound path).keeps

theorem local_makeDirs : a.Local p root (Disk.makeDirs (a.projectDir p)) := by
  intro t s alike
  rw [Disk.makeDirs, Disk.makeDirs]
  by_cases hwalk : Walkable (a.projectDir p)
  · -- what is made depends on what is in the place of the project
    rw [alike.left.makeDirs hwalk, alike.right.makeDirs hwalk, alike.place]
    by_cases long : longestName < p.name.utf8ByteSize
    · rw [if_pos long, if_pos long]
      exact .error _ alike
    rw [if_neg long, if_neg long]
    by_cases gone : t.find? (p.place root) = none
    · rw [if_pos gone, if_pos gone]
      have notTop : p.place root ≠ [] := ne_nil_of_find? (t := t) (by simp [gone])
      have put := setAt_insert notTop t .directory
      have put' := setAt_insert notTop s .directory
      have left := alike.left.of_makeDirs (a.projectDir p)
      have right := alike.right.of_makeDirs (a.projectDir p)
      rw [alike.left.makeDirs hwalk, if_neg long, if_pos gone] at left
      rw [alike.right.makeDirs hwalk, if_neg long, if_pos (alike.place.trans gone)] at right
      exact .ok () ⟨alike.toSeesSame.setAt put put', left, right⟩
    rw [if_neg gone, if_neg gone]
    by_cases isDir : t.find? (p.place root) = some .directory
    · rw [if_pos isDir, if_pos isDir]
      exact .ok () alike
    · rw [if_neg isDir, if_neg isDir]
      exact .error _ alike
  · obtain ⟨result, made⟩ := makeDirs_of_not_walkable hwalk
    rw [made, made]
    cases result with
    | ok _ => exact .ok () alike
    | error fault => exact .error _ alike

end ImageGateway.Archive
