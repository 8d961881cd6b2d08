import ImageGateway.Proofs.Archive.FailedBatches
import ImageGateway.Proofs.Archive.Rewriting
import ImageGateway.Proofs.Archive.Unfailing

/-!
# Setting an unreadable ledger aside

A ledger that cannot be read is moved aside before it is replaced. Moving it is only tried: if it
fails, the ledger is replaced all the same. So its bytes are kept exactly if the place for it can be
reached and no directory is there (`statLink_asidePath_of_unreadable`), as long as neither the
temporary file is a link nor the path of an image leads to the ledger.
-/

set_option autoImplicit false

namespace ImageGateway.Archive

open Storage Storage.FileTree

variable {a : Archive} {p : Project} {t s u : FileTree} {dir loc : Location} {name : String}
  {records : List Record} {content : Bytes}

/-! ## Putting a ledger where none is in the way -/

theorem short_asideName : asideName.utf8ByteSize ≤ longestName := by decide

/-- What is at the path of a file of a project is what is in its directory. -/
theorem statLink_join (hled : t.LeadsTo (a.projectDir p) dir) (hname : FilePath.IsComponent name)
    (hwalk : Walkable ((a.projectDir p).join name)) (hshort : name.utf8ByteSize ≤ longestName) :
    t.statLink ((a.projectDir p).join name)
      = match t.find? (dir ++ [name]) with
        | some entry => .ok entry
        | none => .error .notFound :=
  statLink_of_locate (hled.locate_join hname hwalk hshort)

/-- The path of the temporary file is not that of a link. -/
def HasNoTemporaryLink (a : Archive) (p : Project) (t : FileTree) : Prop :=
  ∀ target, t.statLink (a.temporaryPath p) ≠ .ok (.link target)

theorem HasNoTemporaryLink.find?_ne_link (h : a.HasNoTemporaryLink p t)
    (hled : t.LeadsTo (a.projectDir p) dir) (hwalk : Walkable (a.temporaryPath p))
    (target : FilePath) : t.find? (dir ++ [temporaryName]) ≠ some (.link target) := by
  intro isLink
  refine h target ?_
  rw [temporaryPath_eq_join] at hwalk ⊢
  rw [statLink_join hled isComponent_temporaryName hwalk short_temporaryName, isLink]

/-- Putting the new ledger in place writes it where the temporary file is, if that is not a link. -/
theorem Replaces.eq_of_noLink {entry : Entry} (h : a.Replaces p records t s dir loc entry)
    (hled : t.LeadsTo (a.projectDir p) dir)
    (hlink : ∀ target, t.find? (dir ++ [temporaryName]) ≠ some (.link target)) :
    loc = dir ++ [temporaryName] ∧ entry = .file (Record.document records) := by
  rcases h.eq_or_link hled with here | ⟨target, -, found, -⟩
  · exact here
  · exact absurd found (hlink target)

/-- Putting the new ledger in place keeps all directories and links if neither it nor the temporary
file was one. -/
theorem Replaces.keeps {entry : Entry}
    (h : a.Replaces p records t s dir (dir ++ [temporaryName]) entry)
    (hentry : ∀ target, entry ≠ .link target) (hledger : IsPlain (t.find? (dir ++ [ledgerName]))) :
    t.Keeps s := by
  -- only these two places are different
  have plain : ∀ other, other = dir ++ [temporaryName] ∨ other = dir ++ [ledgerName] →
      IsPlain (t.find? other) ∧ ∀ target, s.find? other ≠ some (.link target) := by
    rintro other (rfl | rfl)
    · exact ⟨h.plain, by simp [h.temporary]⟩
    · exact ⟨hledger, fun target found => hentry target
        (Option.some.inj (h.ledger.symm.trans found))⟩
  refine ⟨⟨h.working, fun other target => ?_⟩, fun other isDir => ?_⟩
  · by_cases here : other = dir ++ [temporaryName] ∨ other = dir ++ [ledgerName]
    · obtain ⟨before, after⟩ := plain other here
      exact ⟨fun found => absurd found (after target), fun found => absurd found (before.2 target)⟩
    · rw [not_or] at here
      rw [h.elsewhere here.1 here.1 here.2]
  · by_cases here : other = dir ++ [temporaryName] ∨ other = dir ++ [ledgerName]
    · exact absurd isDir (plain other here).1.1
    · rw [not_or] at here
      rw [h.elsewhere here.1 here.1 here.2, isDir]

/-- Records that have been written over no link are at the path of the ledger. -/
theorem statLink_ledgerPath_of_persist {x : Unit} (hs : t.IsSound)
    (hled : t.LeadsTo (a.projectDir p) dir) (hkeep : t.Keeps s)
    (hlink : ∀ target, t.find? (dir ++ [temporaryName]) ≠ some (.link target))
    (h : a.persist p records t = .ok x s) :
    s.statLink (a.ledgerPath p) = .ok (.file (Record.document records)) := by
  obtain ⟨loc, entry, replaces⟩ := replaces_of_persist hs hled h
  obtain ⟨-, rfl⟩ := replaces.eq_of_noLink hled hlink
  exact statLink_ledger (hled.keep hkeep) (walkable_ledgerPath (walkable_of_persist h))
    replaces.ledger

/-- Records that have been written are at the path of the ledger, and what is kept aside is as it
was. -/
theorem statLink_of_persist {x : Unit} (hs : t.IsSound) (hled : t.LeadsTo (a.projectDir p) dir)
    (hledger : IsPlain (t.find? (dir ++ [ledgerName])))
    (hlink : ∀ target, t.find? (dir ++ [temporaryName]) ≠ some (.link target))
    (h : a.persist p records t = .ok x s) :
    s.statLink (a.ledgerPath p) = .ok (.file (Record.document records)) ∧
      s.statLink (a.asidePath p) = t.statLink (a.asidePath p) := by
  obtain ⟨loc, entry, replaces⟩ := replaces_of_persist hs hled h
  obtain ⟨rfl, rfl⟩ := replaces.eq_of_noLink hled hlink
  have keeps := replaces.keeps (by simp) hledger
  have led := hled.keep keeps
  refine ⟨statLink_ledgerPath_of_persist hs hled keeps hlink h, ?_⟩
  rw [asidePath_eq_join]
  by_cases hwalk : Walkable ((a.projectDir p).join asideName)
  · have notTemporary : dir ++ [asideName] ≠ dir ++ [temporaryName] :=
      fun same => absurd (List.append_cancel_left same) (by decide)
    have notLedger := Ne.symm (ledger_ne_aside dir)
    rw [statLink_join led isComponent_asideName hwalk short_asideName,
      statLink_join hled isComponent_asideName hwalk short_asideName,
      replaces.elsewhere notTemporary notTemporary notLedger]
  -- a path that is too long leads nowhere in any tree
  · obtain ⟨fault, failed⟩ := locateNames_error hwalk
    rw [statLink_of_error (failed s false _), statLink_of_error (failed t false _)]

/-! ## Making way -/

/-- A file in the place of the ledger is moved aside if it can be. -/
theorem setAside_of_file (hfile : t.statLink (a.ledgerPath p) = .ok (.file content)) :
    a.setAside p t
      = .ok () ((t.rename (a.ledgerPath p) (a.asidePath p)).toOption.getD t) := by
  have there : a.ledgerIsThere p t = .ok true t := by
    delta ledgerIsThere
    rw [hfile]
  rw [setAside, run_bind_of_ok there]
  rfl

/-- There is room for a ledger to be moved aside to: the path is not too long, and no directory is
there. -/
def HasRoomAside (a : Archive) (p : Project) (t : FileTree) : Prop :=
  (a.asidePath p).text.utf8ByteSize < pathLimit ∧ t.statLink (a.asidePath p) ≠ .ok .directory

/-- A file in the place of the ledger can be moved aside exactly if there is room. -/
theorem rename_aside_iff (hfile : t.statLink (a.ledgerPath p) = .ok (.file content))
    (hwalk : Walkable (a.temporaryPath p)) :
    (∃ s, t.rename (a.ledgerPath p) (a.asidePath p) = .ok s) ↔ a.HasRoomAside p t := by
  constructor
  · rintro ⟨s, renamed⟩
    obtain ⟨source, target, entry, -, -, -, htarget, notDir, -⟩ := rename_eq_ok renamed
    refine ⟨(walk_of_locateNames htarget).1.short, fun isDir => notDir ?_⟩
    obtain ⟨place, located, found⟩ := statLink_eq_ok isDir
    obtain rfl := Except.ok.inj (htarget.symm.trans located)
    exact found
  · rintro ⟨short, notDir⟩
    -- both names are looked up in the directory that the ledger is in
    have walkable := walkable_asidePath hwalk short
    obtain ⟨source, located, found⟩ := statLink_eq_ok hfile
    rw [ledgerPath_eq_join] at hfile
    obtain ⟨dir, led, -⟩ := leadsTo_of_statLink isComponent_ledgerName hfile
    rw [asidePath_eq_join] at walkable notDir ⊢
    have aside := led.locate_join isComponent_asideName walkable short_asideName
    refine rename_of_locate located found (by simp) aside fun isDir => notDir ?_
    rw [statLink_of_locate aside, isDir]

/-- A ledger that has been moved aside is there after the new one has been written. -/
theorem statLink_of_replaced_aside {x : Unit} {v : FileTree} (hs : t.IsSound)
    (hfile : t.statLink (a.ledgerPath p) = .ok (.file content)) (hlink : a.HasNoTemporaryLink p t)
    (hrenamed : t.rename (a.ledgerPath p) (a.asidePath p) = .ok v)
    (h : a.persist p records v = .ok x s) :
    s.statLink (a.ledgerPath p) = .ok (.file (Record.document records)) ∧
      s.statLink (a.asidePath p) = .ok (.file content) := by
  obtain ⟨w, y, made, -⟩ := persist_eq_ok h
  have walkable := walkable_of_persist h
  obtain ⟨dir, moved⟩ := movesAside_of_rename hfile hrenamed
  have noLink := hlink.find?_ne_link moved.leads walkable
  -- the directory of the project is the one that the ledger has been moved in
  have sound := isSound_of_rename hs hrenamed
  have unmade := makeDirs_of_blocks sound moved.leads moved.working moved.blocks
  obtain ⟨dir', led⟩ := leadsTo_of_makeDirs sound (congrArg Prod.fst made)
  rw [unmade] at led
  obtain rfl := moved.eq_of_leadsTo led
  have temporaryKept : v.find? (dir' ++ [temporaryName]) = t.find? (dir' ++ [temporaryName]) :=
    moved.elsewhere _ (Ne.symm (ledger_ne_temporary dir'))
      fun same => absurd (List.append_cancel_left same) (by decide)
  obtain ⟨ledger, aside⟩ := statLink_of_persist sound led (by simp [moved.gone, isPlain_none])
    (by rwa [temporaryKept]) h
  have room := (rename_aside_iff hfile walkable).mp ⟨v, hrenamed⟩
  have asideWalkable := walkable_asidePath walkable room.1
  refine ⟨ledger, aside.trans ?_⟩
  rw [asidePath_eq_join] at asideWalkable ⊢
  rw [statLink_join led isComponent_asideName asideWalkable short_asideName, moved.aside]

/-- After a ledger that could not be read has been replaced its bytes are beside it exactly if there
was room for them. -/
theorem statLink_of_replaced {x : Unit} {v : FileTree} (hs : t.IsSound)
    (hfile : t.statLink (a.ledgerPath p) = .ok (.file content)) (hlink : a.HasNoTemporaryLink p t)
    (hway : a.setAside p t = .ok () v) (h : a.persist p records v = .ok x s) :
    s.statLink (a.ledgerPath p) = .ok (.file (Record.document records)) ∧
      (s.statLink (a.asidePath p) = .ok (.file content) ↔ a.HasRoomAside p t) := by
  have walkable := walkable_of_persist h
  have room := rename_aside_iff hfile walkable
  rw [setAside_of_file hfile] at hway
  cases renamed : t.rename (a.ledgerPath p) (a.asidePath p) with
  | ok v' =>
    rw [renamed] at hway
    obtain rfl : v' = v := (EStateM.Result.ok.inj hway).2
    obtain ⟨ledger, aside⟩ := statLink_of_replaced_aside hs hfile hlink renamed h
    exact ⟨ledger, fun _ => room.mp ⟨v', renamed⟩, fun _ => aside⟩
  | error fault =>
    rw [renamed] at hway
    obtain rfl : t = v := (EStateM.Result.ok.inj hway).2
    have noRoom : ¬ a.HasRoomAside p t := fun there => by
      obtain ⟨v, ok⟩ := room.mpr there
      exact absurd (renamed.symm.trans ok) (by simp)
    have found := hfile
    rw [ledgerPath_eq_join] at found
    obtain ⟨dir, led, found⟩ := leadsTo_of_statLink isComponent_ledgerName found
    obtain ⟨ledger, aside⟩ := statLink_of_persist hs led (found ▸ isPlain_file content)
      (hlink.find?_ne_link led walkable) h
    refine ⟨ledger, fun kept => absurd ⟨?_, ?_⟩ noRoom, fun there => absurd there noRoom⟩
    -- a file that is there now has been there before, and there was room for another
    · rw [aside] at kept
      obtain ⟨place', located', -⟩ := statLink_eq_ok kept
      exact (walk_of_locateNames located').1.short
    · rw [← aside, kept]
      simp

/-! ## Updates and batches -/

/-- A ledger that could not be read is replaced once way has been made for the new one. -/
theorem update_of_setAside {α : Type} {change : List Record → Disk (Commit α)} {x : α}
    {v : FileTree} (hunreadable : a.load p t = .unreadable)
    (hchange : change [] t = .ok (.write records x) u) (hmoved : a.setAside p u = .ok () v)
    (hpersist : a.persist p records v = .ok () s) : a.update p change t = .ok x s := by
  rw [update_eq, hunreadable]
  refine (run_bind_of_ok hchange).trans ((run_bind_of_ok hmoved).trans ?_)
  exact run_bind_of_ok hpersist

theorem statLink_of_update_unreadable {α : Type} {change : List Record → Disk (Commit α)} {x y : α}
    (hunreadable : a.load p t = .unreadable) (hchange : change [] t = .ok (.write records x) u)
    (hrun : a.update p change t = .ok y s) (hu : u.IsSound)
    (hfile : u.statLink (a.ledgerPath p) = .ok (.file content)) (hlink : a.HasNoTemporaryLink p u) :
    s.statLink (a.ledgerPath p) = .ok (.file (Record.document records)) ∧
      (s.statLink (a.asidePath p) = .ok (.file content) ↔ a.HasRoomAside p u) := by
  rcases update_eq_ok hrun with kept | ⟨written, u', v, changed, way, persisted⟩
  · rw [hunreadable] at kept
    exact absurd (hchange.symm.trans kept) (by simp)
  · rw [hunreadable] at changed way
    obtain ⟨same, rfl⟩ := EStateM.Result.ok.inj (hchange.symm.trans changed)
    obtain ⟨rfl, -⟩ := Commit.write.inj same
    rcases way with ⟨readable, -⟩ | ⟨-, moved⟩
    · exact absurd readable (by simp [LedgerState.isUnreadable])
    · exact statLink_of_replaced hu hfile hlink moved persisted

/-- The images of a batch are written where no image leads to the ledger. -/
theorem statLink_of_recordBatch_unreadable {tokens : Nat → Record.CacheToken}
    {request answer : Bytes} {elapsed : UInt64} {created : List Record} (hs : t.IsSound)
    (hfile : t.statLink (a.ledgerPath p) = .ok (.file content))
    (hunreadable : a.load p t = .unreadable)
    (hrun : a.recordBatch p tokens request answer elapsed t = .ok created s) (hsome : created ≠ [])
    (hlink : a.HasNoTemporaryLink p t)
    (hapart : ∀ id, t.locate true (a.imagePath p id) ≠ t.locate false (a.ledgerPath p)) :
    s.statLink (a.ledgerPath p) = .ok (.file (Record.document created)) ∧
      (s.statLink (a.asidePath p) = .ok (.file content) ↔ a.HasRoomAside p t) := by
  have found := hfile
  rw [ledgerPath_eq_join] at found
  obtain ⟨dir, led, -⟩ := leadsTo_of_statLink isComponent_ledgerName found
  rcases recordBatch_eq_or a p tokens request answer elapsed with ⟨-, run⟩ | ⟨-, -, run⟩
  · rw [run] at hrun
    exact absurd (EStateM.Result.ok.inj hrun).1.symm hsome
  rw [run] at hrun
  obtain ⟨u, v, recorded, way, persisted⟩ := update_addImages_eq_ok hrun
  rw [hunreadable] at recorded way persisted
  -- only images have been written so far, none of them over the ledger
  have sound := ((respects_recordImages _ _ _ _).of_ok recorded hs).1
  have images := overwrites_recordImages hs led (requestParameters request)
    (elapsed / UInt64.ofNat (batchImages answer).length)
    (Numbering.aboveRecords LedgerState.unreadable.records) (drawnImages tokens answer)
  rw [treeAfter, recorded] at images
  have file : u.statLink (a.ledgerPath p) = .ok (.file content) := by
    refine images.statLink_of_not_written ?_ hfile
    rintro loc located ⟨id, -, -, here⟩
    exact hapart id (here.trans located.symm)
  have noLink : a.HasNoTemporaryLink p u := fun target isLink =>
    hlink target ((images.statLink_iff fun plain => plain.2 target rfl).mp isLink)
  have room : a.HasRoomAside p u ↔ a.HasRoomAside p t :=
    and_congr_right' (not_congr (images.statLink_iff fun plain => plain.1 rfl))
  rw [← room]
  have moved := (way.resolve_left (by simp [LedgerState.isUnreadable])).2
  exact statLink_of_replaced sound file noLink moved persisted

/-- A ledger that cannot be read and is replaced, by an update or a batch, is kept aside with its bytes
exactly if there is room for it, unless the temporary file is a link. What the change has done before
must have left the ledger as it was; for a batch this means that no image leads to it. -/
theorem statLink_asidePath_of_unreadable (hs : t.IsSound)
    (hfile : t.statLink (a.ledgerPath p) = .ok (.file content))
    (hunreadable : a.load p t = .unreadable) :
    (∀ (α : Type) (change : List Record → Disk (Commit α)) records x y u s,
      change [] t = .ok (.write records x) u → a.update p change t = .ok y s → u.IsSound →
      u.statLink (a.ledgerPath p) = .ok (.file content) → a.HasNoTemporaryLink p u →
      s.statLink (a.ledgerPath p) = .ok (.file (Record.document records)) ∧
        (s.statLink (a.asidePath p) = .ok (.file content) ↔ a.HasRoomAside p u)) ∧
    ∀ tokens request answer elapsed created s,
      a.recordBatch p tokens request answer elapsed t = .ok created s → created ≠ [] →
      a.HasNoTemporaryLink p t →
      (∀ id, t.locate true (a.imagePath p id) ≠ t.locate false (a.ledgerPath p)) →
      s.statLink (a.ledgerPath p) = .ok (.file (Record.document created)) ∧
        (s.statLink (a.asidePath p) = .ok (.file content) ↔ a.HasRoomAside p t) :=
  ⟨fun _ _ _ _ _ _ _ changed hrun hu file noLink =>
    statLink_of_update_unreadable hunreadable changed hrun hu file noLink,
    fun _ _ _ _ _ _ hrun hsome noLink hapart =>
      statLink_of_recordBatch_unreadable hs hfile hunreadable hrun hsome noLink hapart⟩

/-- A tree in which the ledger of the results directory has been written. -/
def replacedResults (t : FileTree) (ledger : Bytes) : FileTree :=
  ((t.insert ["results", "history.json.tmp"] (.file ledger)).erase
    ["results", "history.json.tmp"]).insert ["results", "history.json"] (.file ledger)

/-- A ledger is written in the results directory if nothing is in the way. -/
theorem persist_results (hs : t.IsSound) (hworking : t.workingDirectory = [])
    (hup : t.find? ["results"] = some .directory)
    (htemporary : IsPlain (t.find? ["results", "history.json.tmp"]))
    (hledger : t.find? ["results", "history.json"] ≠ some .directory) (records : List Record) :
    results.persist .global records t
      = .ok () (replacedResults t (Record.document records)) := by
  have led : t.LeadsTo (results.projectDir .global) ["results"] :=
    ⟨mostLinks, leads_results hworking hup⟩
  have step : IsStep temporaryName := ⟨isComponent_temporaryName.isName, short_temporaryName⟩
  have made := makeDirs_of_leadsTo hs led (by decide)
  -- the document is written beside the ledger
  have located : t.locate true (results.temporaryPath .global)
      = .ok ["results", "history.json.tmp"] := by
    obtain ⟨left, walked⟩ := led.walk_join isComponent_temporaryName (by decide)
    rw [temporaryPath_eq_join, walked]
    exact walk_plain step htemporary
  have written := writeFile_of_locate located htemporary.1 (Record.document records)
  have put := setAt_insert (List.cons_ne_nil "results" ["history.json.tmp"]) t
    (.file (Record.document records))
  -- and takes its place
  have led' := led.keep (keeps_of_setAt put htemporary (by simp))
  have source := led'.locate_join isComponent_temporaryName (by decide)
    short_temporaryName
  have target := led'.locate_join isComponent_ledgerName (by decide)
    short_ledgerName
  rw [← temporaryPath_eq_join] at source
  rw [← ledgerPath_eq_join] at target
  have there : (t.insert ["results", "history.json.tmp"] (.file (Record.document records))).find?
      ["results", "history.json"] ≠ some .directory := by
    rw [put.elsewhere _ (by decide)]
    exact hledger
  refine persist_of_steps made written ?_
  rw [rename_eq_of_locate source put.here (by simp) target there, if_neg (by decide)]
  rfl

/-- A results directory with a ledger that cannot be read, and something beside it. -/
def unreadableResults (beside : List (Location × Entry)) : FileTree where
  entries := beside ++ [(["results"], .directory), (["results", "history.json"], .file [1])]
  workingDirectory := []

/-- The tree after the ledger has been moved aside. -/
def setAsideResults (beside : List (Location × Entry)) : FileTree :=
  ((unreadableResults beside).erase ["results", "history.json"]).insert
    ["results", "history.json.corrupt"] (.file [1])

theorem writeBack_unreadableResults :
    results.writeBack .global (unreadableResults [])
      = .ok () (replacedResults (setAsideResults []) (Record.document [])) := by
  have moved : results.setAside .global (unreadableResults []) = .ok () (setAsideResults []) := rfl
  have sound : (setAsideResults []).IsSound := isSound_of_entries (by decide) rfl
  exact update_of_setAside rfl rfl moved
    (persist_results sound rfl rfl isPlain_none (by decide) [])

theorem statLink_asidePath_of_unreadable_unreadableResults :
    (unreadableResults []).IsSound ∧
      (unreadableResults []).statLink (results.ledgerPath .global) = .ok (.file [1]) ∧
      results.load .global (unreadableResults []) = .unreadable ∧
      ∃ s, results.writeBack .global (unreadableResults []) = .ok () s ∧
        s.statLink (results.asidePath .global) = .ok (.file [1]) := by
  have sound : (unreadableResults []).IsSound := isSound_of_entries (by decide) rfl
  have file : (unreadableResults []).statLink (results.ledgerPath .global) = .ok (.file [1]) := rfl
  have unreadable : results.load .global (unreadableResults []) = .unreadable := rfl
  have missing : (unreadableResults []).statLink (results.temporaryPath .global)
      = .error .notFound := rfl
  have room : results.HasRoomAside .global (unreadableResults []) := by
    have free : (unreadableResults []).statLink (results.asidePath .global) = .error .notFound := rfl
    exact ⟨by decide, by simp [free]⟩
  refine ⟨sound, file, unreadable, _, writeBack_unreadableResults, ?_⟩
  exact ((statLink_asidePath_of_unreadable sound file unreadable).1 Unit _ [] () () _ _ rfl
    writeBack_unreadableResults sound file (fun target isLink => by simp [missing] at isLink)).2.mpr
    room

/-! ## Where the bytes are lost -/

/-- A directory where the ledger should be moved to. -/
def fullAside : FileTree := unreadableResults [(["results", "history.json.corrupt"], .directory)]

theorem writeBack_fullAside :
    results.writeBack .global fullAside
      = .ok () (replacedResults fullAside (Record.document [])) := by
  have kept : results.setAside .global fullAside = .ok () fullAside := rfl
  have sound : fullAside.IsSound := isSound_of_entries (by decide) rfl
  exact update_of_setAside rfl rfl kept (persist_results sound rfl rfl isPlain_none (by decide) [])

/-- A link from the temporary file to where the ledger is moved to. -/
def linkedAside : FileTree :=
  unreadableResults [(["results", "history.json.tmp"], .link ⟨"history.json.corrupt"⟩)]

/-- The tree after the ledger has been moved aside. -/
def linkedSetAside : FileTree :=
  setAsideResults [(["results", "history.json.tmp"], .link ⟨"history.json.corrupt"⟩)]

/-- The tree after a new ledger has been written over the link, which then took its place. -/
def linkedReplaced (ledger : Bytes) : FileTree :=
  ((linkedSetAside.insert ["results", "history.json.corrupt"] (.file ledger)).erase
    ["results", "history.json.tmp"]).insert ["results", "history.json"]
      (.link ⟨"history.json.corrupt"⟩)

theorem locate_temporary_linkedSetAside :
    linkedSetAside.locate true (results.temporaryPath .global)
      = .ok ["results", "history.json.corrupt"] := by
  have aside : linkedSetAside.find? ["results", "history.json.corrupt"] = some (.file [1]) := rfl
  rw [temporaryPath_eq_join]
  exact locate_link_results rfl rfl isComponent_temporaryName
    (by decide) short_temporaryName rfl isComponent_asideName
    short_asideName (by simp [aside])

theorem writeBack_linkedAside :
    results.writeBack .global linkedAside = .ok () (linkedReplaced (Record.document [])) := by
  have made : linkedSetAside.makeDirs (results.projectDir .global) = (.ok (), linkedSetAside) := rfl
  have written := writeFile_of_locate locate_temporary_linkedSetAside (by decide)
    (Record.document [])
  have renamed : ∀ ledger,
      (linkedSetAside.insert ["results", "history.json.corrupt"] (.file ledger)).rename
        (results.temporaryPath .global) (results.ledgerPath .global) = .ok (linkedReplaced ledger) :=
    fun ledger => rfl
  have moved : results.setAside .global linkedAside = .ok () linkedSetAside := rfl
  exact update_of_setAside rfl rfl moved (persist_of_steps made written (renamed _))

/-- A link from an image to the ledger. -/
def linkedImage : FileTree :=
  unreadableResults [(["results", "00001.png"], .link ⟨"history.json"⟩)]

/-- The tree after an image has been written over the link. -/
def linkedImageWritten : FileTree := linkedImage.insert ["results", "history.json"] (.file [])

/-- The tree after what is in the place of the ledger has been moved aside. -/
def linkedImageSetAside : FileTree :=
  (linkedImageWritten.erase ["results", "history.json"]).insert
    ["results", "history.json.corrupt"] (.file [])

theorem locate_image_linkedImage :
    linkedImage.locate true (results.imagePath .global 1) = .ok ["results", "history.json"] := by
  have ledger : linkedImage.find? ["results", "history.json"] = some (.file [1]) := rfl
  rw [imagePath_one]
  exact locate_link_results rfl rfl (by decide)
    (by decide) (by decide) rfl isComponent_ledgerName short_ledgerName
    (by simp [ledger])

theorem recordBatch_linkedImage :
    results.recordBatch .global (fun _ => zeroToken) [] (answerOf [""]).compact 0 linkedImage
      = .ok [firstRecord [] 0 zeroToken ""]
        (replacedResults linkedImageSetAside
          (Record.document [firstRecord [] 0 zeroToken ""])) := by
  have loaded : results.load .global linkedImage = .unreadable := rfl
  have first : (Numbering.aboveRecords (results.load .global linkedImage).records).next
      = .ok (1, ⟨1⟩) := by
    rw [loaded]
    rfl
  have made : linkedImage.makeDirs (results.projectDir .global) = (.ok (), linkedImage) := rfl
  have image : linkedImage.writeFile (results.imagePath .global 1) (decodeImage "")
      = .ok linkedImageWritten :=
    writeFile_of_locate locate_image_linkedImage (by decide) (decodeImage "")
  have moved : results.setAside .global linkedImageWritten = .ok () linkedImageSetAside := rfl
  have sound : linkedImageSetAside.IsSound := isSound_of_entries (by decide) rfl
  have persisted := persist_results sound rfl rfl isPlain_none (by decide)
    [firstRecord [] 0 zeroToken ""]
  rw [recordBatch_of_image (batchImages_compact [""]) first rfl made image, loaded]
  exact (run_bind_of_ok moved).trans (run_bind_of_ok persisted)

/-- A ledger that cannot be read is replaced and its bytes are lost: with a directory where it should
be moved to, with a link to that place in the place of the temporary file, and with a link to the
ledger in the place of an image. -/
theorem ledger_lost_unreadableResults :
    (fullAside.statLink (results.ledgerPath .global) = .ok (.file [1]) ∧
      results.load .global fullAside = .unreadable ∧
      ∃ s, results.writeBack .global fullAside = .ok () s ∧
        s.statLink (results.asidePath .global) = .ok .directory) ∧
    (linkedAside.statLink (results.ledgerPath .global) = .ok (.file [1]) ∧
      results.load .global linkedAside = .unreadable ∧
      ∃ s, results.writeBack .global linkedAside = .ok () s ∧
        s.statLink (results.asidePath .global) = .ok (.file [91, 93])) ∧
    linkedImage.statLink (results.ledgerPath .global) = .ok (.file [1]) ∧
      results.load .global linkedImage = .unreadable ∧
      ∃ created s, results.recordBatch .global (fun _ => zeroToken) [] (answerOf [""]).compact 0
          linkedImage = .ok created s ∧
        s.statLink (results.asidePath .global) = .ok (.file []) := by
  have nothing : Record.document [] = [91, 93] := by decide +kernel
  refine ⟨⟨rfl, rfl, _, writeBack_fullAside, rfl⟩, ⟨rfl, rfl, _, writeBack_linkedAside, ?_⟩,
    rfl, rfl, _, _, recordBatch_linkedImage, rfl⟩
  rw [nothing]
  rfl

end ImageGateway.Archive
