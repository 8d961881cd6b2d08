import ImageGateway.Proofs.Archive.Confinement
import ImageGateway.Proofs.Record.Documents

/-!
# What becomes of a ledger

As long as there are no links below the results directory, a ledger is the file of that name in the
place of its project, and only what changes that file changes what is read (`load_of_touches`).
Writing records makes the ledger what these records are read back as (`persist_cases`), and moving
an unreadable ledger aside makes it absent (`setAside_cases`).
-/

set_option autoImplicit false

namespace ImageGateway.Archive

open Storage Storage.FileTree

variable {a : Archive} {p q : Project} {own : String → Prop} {t s u : FileTree}
  {root dir loc : Location} {ε α : Type}

/-! ## The results directory -/

/-- The results directory of a sound tree is at a location, and no links are below it. -/
structure IsAt (a : Archive) (root : Location) (t : FileTree) : Prop where
  sound : t.IsSound
  leads : t.LeadsTo a.root root
  noLinks : HasNoLinksBelow t root

theorem IsAt.hasNoLinks (h : a.IsAt root t) : a.HasNoLinks t :=
  (hasNoLinks_iff h.leads).mpr h.noLinks

theorem IsAt.keep (h : a.IsAt root t) (hs : s.IsSound) (hkeep : t.Keeps s) : a.IsAt root s := by
  have leads := h.leads.keep hkeep
  exact ⟨hs, leads, (hasNoLinks_iff leads).mp (h.hasNoLinks.of_sameLinks hkeep.toSameLinks)⟩

theorem IsAt.treeAfter {program : EStateM ε FileTree α} (h : a.IsAt root t)
    (hprogram : a.Confined p own program) : a.IsAt root (treeAfter program t) := by
  obtain ⟨sound, touches⟩ := hprogram t h.sound h.hasNoLinks
  exact h.keep sound touches.keeps

/-- The archive in the directory `results`. -/
def results : Archive := ⟨⟨"results"⟩⟩

/-- The archive in that directory, by a path that goes through another one, which may be missing. -/
def detour : Archive := ⟨⟨"new/../results"⟩⟩

/-- The results directory is reached without a link. -/
theorem leads_results (hworking : t.workingDirectory = [])
    (hup : t.find? ["results"] = some .directory) :
    t.Leads mostLinks (t.start (results.projectDir .global)) (results.projectDir .global).names
      mostLinks ["results"] := by
  have start : t.start (results.projectDir .global) = [] := hworking
  rw [start]
  exact .down (by decide) hup (.here _ _)

/-- The path of a link to another entry of the results directory leads to that entry. -/
theorem locate_link_results {name other : String} (hworking : t.workingDirectory = [])
    (hup : t.find? ["results"] = some .directory)
    (hname : FilePath.IsComponent name) (hwalk : Walkable ((results.projectDir .global).join name))
    (hshort : name.utf8ByteSize ≤ longestName)
    (hlink : t.find? ["results", name] = some (.link ⟨other⟩))
    (hother : FilePath.IsComponent other) (hshort' : other.utf8ByteSize ≤ longestName)
    (hend : ∀ target, t.find? ["results", other] ≠ some (.link target)) :
    t.locate true ((results.projectDir .global).join name) = .ok ["results", other] :=
  (leads_results hworking hup).locate_link hname hwalk hshort hlink hother hshort' hend

/-- A tree with nothing but an empty results directory. -/
def emptyResults : FileTree := ⟨[(["results"], .directory)], []⟩

/-- The token that is written with zeros only. -/
def zeroToken : Record.CacheToken := ⟨0, by decide⟩

theorem isAt_emptyResults : results.IsAt ["results"] emptyResults := by
  refine ⟨isSound_of_entries (by decide) rfl, ⟨mostLinks, ?_⟩, ?_⟩
  · exact .down (by decide) rfl (.here _ _)
  · exact fun loc target _ _ => find?_ne_link (by simp [emptyResults]) loc target

/-- Nothing is in the results directory. -/
theorem find?_emptyResults (loc : Location) (hbelow : ["results"] <+: loc)
    (hne : loc ≠ ["results"]) : emptyResults.find? loc = none := by
  cases found : emptyResults.find? loc with
  | none => rfl
  | some entry =>
    rcases mem_entries_of_find? found with rfl | listed
    · simp at hbelow
    · simp [emptyResults] at listed
      exact absurd listed.1 hne

/-- Where the directory of a project is, if it is there. -/
theorem IsAt.eq_place (h : a.IsAt root t) (hled : t.LeadsTo (a.projectDir p) dir) :
    dir = p.place root := by
  obtain ⟨root', leads, rfl⟩ := leadsTo_projectDir h.hasNoLinks hled
  rw [h.leads.unique leads (.refl t)]

theorem IsAt.place_ne_link (h : a.IsAt root t) (target : FilePath) :
    t.find? (p.place root) ≠ some (.link target) := by
  cases hp : p.isGlobal with
  | true =>
    rw [Project.place_of_isGlobal hp, h.leads.isDirectory h.sound]
    simp
  | false =>
    rw [Project.place_of_not_isGlobal hp]
    exact h.noLinks _ target (List.prefix_append root _) (by simp)

theorem IsAt.file_ne_link (h : a.IsAt root t) (f : String) (target : FilePath) :
    t.find? (p.place root ++ [f]) ≠ some (.link target) :=
  h.noLinks _ target (p.isPrefix_place_append root f) (p.place_append_ne_root root f)

/-- On the way to the directory of a project there is nothing else to be made but this directory. -/
theorem IsAt.eq_place_of_onTheWay (h : a.IsAt root t) (hkeep : t.Keeps s)
    (hs : s.IsSound) (hway : s.OnTheWay (a.projectDir p) loc) (hgone : t.find? loc = none) :
    loc = p.place root := by
  -- everything on the way to the results directory is there
  have missing : ¬ s.OnTheWay a.root loc := fun hroot => by
    have there := isDirectory_of_onTheWay h.sound h.leads hkeep hroot
    simp [hgone] at there
  cases hp : p.isGlobal with
  | true =>
    rw [projectDir_of_isGlobal a hp] at hway
    exact absurd hway missing
  | false =>
    obtain ⟨count, left, led⟩ := hway
    rw [start_projectDir, names_projectDir, Project.place_of_not_isGlobal hp] at led
    -- the way to the project has one name more than the way to the results directory
    by_cases short : count ≤ a.root.names.length
    · rw [List.take_append_of_le_length short] at led
      exact absurd ⟨count, left, led⟩ missing
    · have whole : (a.root.names ++ [p.name]).take count = a.root.names ++ [p.name] :=
        List.take_of_length_le (by rw [List.length_append, List.length_singleton]; omega)
      rw [whole] at led
      refine (h.keep hs hkeep).eq_place ⟨left, ?_⟩
      rw [start_projectDir, names_projectDir, Project.place_of_not_isGlobal hp]
      exact led

/-- What has been touched for a project is in its place. -/
theorem IsAt.entry (h : a.IsAt root t) (hs : s.IsSound) (htouches : a.Touches p own t s)
    (loc : Location) :
    s.find? loc = t.find? loc ∨
      (t.find? loc = none ∧ s.find? loc = some .directory ∧ loc = p.place root) ∨
      ∃ name, own name ∧ loc = p.place root ++ [name] ∧ IsPlain (t.find? loc) ∧
        IsPlain (s.find? loc) := by
  rcases htouches.entry loc with same | ⟨gone, made, way⟩ | ⟨⟨dir, name, led, is, rfl⟩, plain⟩
  · exact .inl same
  · exact .inr (.inl ⟨gone, made, h.eq_place_of_onTheWay htouches.keeps hs way gone⟩)
  · obtain rfl := (h.keep hs htouches.keeps).eq_place led
    exact .inr (.inr ⟨name, is, rfl, plain⟩)

/-- A file of a project is as it was, unless it is among those that were touched. -/
theorem IsAt.find?_file_of_touches {name : String} (h : a.IsAt root t) (hs : s.IsSound)
    (htouches : a.Touches p own t s) (hname : IsOwnName name) (hother : q ≠ p ∨ ¬ own name) :
    s.find? (q.place root ++ [name]) = t.find? (q.place root ++ [name]) := by
  rcases h.entry hs htouches (q.place root ++ [name]) with
    same | ⟨-, -, here⟩ | ⟨other, is, here, -⟩
  · exact same
  · exact absurd here (Project.place_append_ne_place hname q p root)
  · rcases hother with differs | free
    · exact absurd here (Project.place_append_ne differs root name other)
    · obtain ⟨-, same⟩ := List.append_inj' here rfl
      exact absurd (List.singleton_inj.mp same ▸ is) free

/-! ## Where the files of a project are -/

/-- Where a file of a project is, given what is in the place of the project. -/
def fileAt (p : Project) (root : Location) (there : Option Entry) (name : String) :
    Except Fault Location :=
  if longestName < p.name.utf8ByteSize then .error .nameTooLong
  else if there = none then .error .notFound
  else if there ≠ some .directory then .error .notADirectory
  else if longestName < name.utf8ByteSize then .error .nameTooLong
  else .ok (p.place root ++ [name])

theorem not_long_of_isGlobal (hp : p.isGlobal = true) :
    ¬ longestName < p.name.utf8ByteSize := by
  have empty : p.name = "" := String.isEmpty_iff.mp hp
  rw [empty]
  decide

/-- The walk to a file of a project depends only on what is in the place of the project. -/
theorem IsAt.locate_file {name : String} (h : a.IsAt root t) (hname : FilePath.IsComponent name)
    (hwalk : Walkable ((a.projectDir p).join name)) (follow : Bool) :
    t.locate follow ((a.projectDir p).join name) = fileAt p root (t.find? (p.place root)) name := by
  obtain ⟨left, led⟩ := h.leads
  -- no file of a project is a link, so that following makes no difference
  have last : t.walk follow left (p.place root) [name]
      = if longestName < name.utf8ByteSize then .error .nameTooLong
        else .ok (p.place root ++ [name]) := by
    split
    · rename_i long
      exact walk_tooLong hname.isName (Nat.not_le_of_lt long)
    · rename_i short
      exact walk_one ⟨hname.isName, Nat.le_of_not_lt short⟩ (h.file_ne_link name)
  -- the global project is the results directory itself, any other one a name in it
  cases hp : p.isGlobal with
  | true =>
    rw [projectDir_of_isGlobal a hp] at hwalk ⊢
    rw [led.locate_join hname hwalk, fileAt, if_neg (not_long_of_isGlobal hp)]
    rw [Project.place_of_isGlobal hp] at last ⊢
    rw [h.leads.isDirectory h.sound, if_neg (by simp), if_neg (by simp)]
    exact last
  | false =>
    have component := Project.isComponent_name hp
    have more : [name] ≠ [] := List.cons_ne_nil name []
    have names : (a.projectDir p).names = a.root.names ++ [p.name] := by
      rw [names_projectDir, Project.place_of_not_isGlobal hp]
    rw [locate, locateNames_eq_walk hwalk, start_join t _ hname, FilePath.names_join _ hname,
      start_projectDir, names, List.append_assoc, List.singleton_append,
      led.walk_append (.inl (List.cons_ne_nil p.name [name])), fileAt]
    split
    · rename_i long
      exact walk_tooLong component.isName (Nat.not_le_of_lt long)
    · rename_i short
      have step : IsStep p.name := ⟨component.isName, Nat.le_of_not_lt short⟩
      have noLink := h.place_ne_link (p := p)
      rw [Project.place_of_not_isGlobal hp] at last noLink ⊢
      cases found : t.find? (root ++ [p.name]) with
      | none => exact walk_missing step found more
      | some entry =>
        cases entry with
        | directory =>
          rw [walk_directory step found, if_neg (by simp), if_neg (by simp)]
          exact last
        | file content =>
          rw [if_neg (by simp), if_pos (by simp)]
          exact walk_file step found more
        | link target => exact absurd found (noLink target)

/-- What is found at a file of a project is at its location. -/
theorem eq_of_fileAt {there : Option Entry} {name : String}
    (h : fileAt p root there name = .ok loc) : loc = p.place root ++ [name] := by
  rw [fileAt] at h
  iterate 4
    split at h
    · exact absurd h (by simp)
  exact (Except.ok.inj h).symm

/-! ## Reading a ledger -/

/-- Where the ledger of a project is. -/
def ledgerAt (p : Project) (root : Location) : Location := p.place root ++ [ledgerName]

/-- The names on the way from the results directory to a ledger. -/
def ledgerNames (p : Project) : List String :=
  if p.isGlobal then [ledgerName] else [p.name, ledgerName]

theorem start_ledgerPath (t : FileTree) (a : Archive) (p : Project) :
    t.start (a.ledgerPath p) = t.start a.root := by
  rw [ledgerPath_eq_join, start_join t _ isComponent_ledgerName, start_projectDir]

theorem names_ledgerPath (a : Archive) (p : Project) :
    (a.ledgerPath p).names = a.root.names ++ ledgerNames p := by
  rw [ledgerPath_eq_join, FilePath.names_join _ isComponent_ledgerName, names_projectDir,
    ledgerNames]
  cases hp : p.isGlobal with
  | true => rw [Project.place_of_isGlobal hp, if_pos rfl]
  | false =>
    rw [Project.place_of_not_isGlobal hp, if_neg Bool.false_ne_true, List.append_assoc,
      List.singleton_append]

theorem load_congr (h : s.readFile (a.ledgerPath p) = t.readFile (a.ledgerPath p)) :
    a.load p s = a.load p t := by
  delta load
  rw [h]

theorem load_eq_absent (h : t.readFile (a.ledgerPath p) = .error .notFound) :
    a.load p t = .absent := by
  delta load
  rw [h]

/-- A ledger that lists records has been read. -/
theorem readFile_of_load {records : List Record} (h : a.load p t = .present records) :
    ∃ content, t.readFile (a.ledgerPath p) = .ok content := by
  cases hread : t.readFile (a.ledgerPath p) with
  | ok content => exact ⟨content, rfl⟩
  | error fault =>
    delta load at h
    rw [hread] at h
    cases fault <;> exact absurd h (by simp)

theorem isStep_ledgerName : IsStep ledgerName := by decide

/-- Where there is no ledger in the directory of a project, or no directory, that is what is told when
it is read, unless the project has too long a name. -/
theorem readFile_ledger_of_missing (h : a.IsAt root t) (hwalk : Walkable (a.ledgerPath p))
    (hplace : t.find? (p.place root) = none ∨ t.find? (p.place root) = some .directory)
    (hledger : t.find? (ledgerAt p root) = none) :
    t.readFile (a.ledgerPath p)
      = .error (if longestName < p.name.utf8ByteSize then .nameTooLong else .notFound) := by
  have way := h.locate_file isComponent_ledgerName hwalk true
  rw [← ledgerPath_eq_join] at way
  by_cases long : longestName < p.name.utf8ByteSize
  · rw [fileAt, if_pos long] at way
    rw [readFile_of_error way, if_pos long]
  rw [if_neg long]
  rcases hplace with gone | there
  · rw [gone, fileAt, if_neg long, if_pos rfl] at way
    exact readFile_of_error way
  · have short : ¬ longestName < ledgerName.utf8ByteSize := by decide
    rw [there, fileAt, if_neg long, if_neg (by simp), if_neg (by simp), if_neg short] at way
    rw [readFile_of_locate way, ← ledgerAt, readAt, hledger]

/-- A ledger is read the same in two trees where nothing on the way to it is different, or where its
directory has been made meanwhile. -/
theorem readFile_ledger_congr (h : a.IsAt root t) (h' : a.IsAt root s)
    (hledger : s.find? (ledgerAt p root) = t.find? (ledgerAt p root))
    (hplace : s.find? (p.place root) = t.find? (p.place root) ∨
      t.find? (p.place root) = none ∧ s.find? (p.place root) = some .directory) :
    s.readFile (a.ledgerPath p) = t.readFile (a.ledgerPath p) := by
  by_cases hwalk : Walkable (a.ledgerPath p)
  · rcases hplace with unchanged | ⟨gone, made⟩
    · have way := h.locate_file isComponent_ledgerName hwalk true
      have way' := h'.locate_file isComponent_ledgerName hwalk true
      rw [← ledgerPath_eq_join] at way way'
      rw [unchanged] at way'
      cases located : fileAt p root (t.find? (p.place root)) ledgerName with
      | error fault =>
        rw [readFile_of_error (way.trans located), readFile_of_error (way'.trans located)]
      | ok loc =>
        obtain rfl := eq_of_fileAt located
        rw [readFile_of_locate (way.trans located), readFile_of_locate (way'.trans located),
          ← ledgerAt, readAt, readAt, hledger]
    · -- the directory has been made, but there is no ledger in it
      have empty : t.find? (ledgerAt p root) = none := h.sound.find?_eq_none gone ledgerName
      rw [readFile_ledger_of_missing h hwalk (.inl gone) empty,
        readFile_ledger_of_missing h' hwalk (.inr made) (hledger.trans empty)]
  · obtain ⟨fault, failed⟩ := locateNames_error hwalk
    rw [readFile_of_error (failed s true _), readFile_of_error (failed t true _)]

/-- What is touched for one project leaves the ledgers of all others as they are, and its own if
the ledger is not among the files that are touched. -/
theorem load_of_touches (h : a.IsAt root t) (hs : s.IsSound) (htouches : a.Touches p own t s)
    (hown : ∀ name, own name → IsOwnName name) (hother : q ≠ p ∨ ¬ own ledgerName) :
    a.load q s = a.load q t := by
  have hledger : s.find? (ledgerAt q root) = t.find? (ledgerAt q root) :=
    h.find?_file_of_touches hs htouches isOwnName_ledgerName hother
  have hplace : s.find? (q.place root) = t.find? (q.place root) ∨
      t.find? (q.place root) = none ∧ s.find? (q.place root) = some .directory := by
    rcases h.entry hs htouches (q.place root) with same | ⟨gone, made, -⟩ | ⟨name, is, here, -⟩
    · exact .inl same
    · exact .inr ⟨gone, made⟩
    · exact absurd here.symm (Project.place_append_ne_place (hown name is) p q root)
  exact load_congr
    (readFile_ledger_congr h (h.keep hs htouches.keeps) hledger hplace)

/-! ## Running confined programs -/

theorem Confined.of_ok {program : EStateM ε FileTree α} {x : α} (hprogram : a.Confined p own program)
    (h : a.IsAt root t) (hrun : program t = .ok x s) : s.IsSound ∧ a.Touches p own t s :=
  Respects.of_ok hprogram hrun h.sound h.hasNoLinks

theorem Confined.of_error {program : EStateM ε FileTree α} {e : ε}
    (hprogram : a.Confined p own program) (h : a.IsAt root t) (hrun : program t = .error e s) :
    s.IsSound ∧ a.Touches p own t s :=
  Respects.of_error hprogram hrun h.sound h.hasNoLinks

theorem IsAt.of_touches (h : a.IsAt root t) (after : s.IsSound ∧ a.Touches p own t s) :
    a.IsAt root s :=
  h.keep after.1 after.2.keeps

/-- What has been located stays where it is. -/
theorem locate_of_locate {follow : Bool} {name : String} (h : a.IsAt root t) (h' : a.IsAt root s)
    (hkeep : t.Keeps s) (hname : FilePath.IsComponent name)
    (hloc : t.locate follow ((a.projectDir p).join name) = .ok loc) (follow' : Bool) :
    loc = p.place root ++ [name] ∧
      s.locate follow' ((a.projectDir p).join name) = .ok (p.place root ++ [name]) := by
  obtain ⟨hwalk, -⟩ := walk_of_locateNames hloc
  obtain ⟨dir, left, led, last⟩ := locate_join hname hloc
  obtain rfl := h.eq_place led
  refine ⟨eq_of_walk_one hname.isName (h.file_ne_link name) last, ?_⟩
  obtain ⟨left', walked⟩ := (led.keep hkeep).walk_join hname hwalk
  rw [walked]
  exact walk_one ⟨hname.isName, short_of_walk hname.isName last⟩ (h'.file_ne_link name)

/-! ## Writing a ledger -/

/-- What is found after records have been written. -/
def afterWriting (records : List Record) : LedgerState :=
  match records.mapM Record.reread with
  | some read => .present read
  | none => .unreadable

theorem load_of_readFile {records : List Record}
    (h : t.readFile (a.ledgerPath p) = .ok (Record.document records)) :
    a.load p t = afterWriting records := by
  delta load
  rw [h]
  simp only [Record.ofDocument?_document]
  delta afterWriting
  cases records.mapM Record.reread with
  | some read => rfl
  | none => rfl

/-- The name of the file that is written first. -/
def IsTemporary (name : String) : Prop := name = temporaryName

theorem isOwnName_of_isTemporary {name : String} (h : IsTemporary name) : IsOwnName name :=
  .inr (.inl h)

theorem isTemporary_temporaryName : IsTemporary temporaryName := rfl

theorem not_isTemporary_ledgerName : ¬ IsTemporary ledgerName := by
  rw [IsTemporary]
  decide

/-- The new ledger takes the place of the old one. -/
theorem load_of_rename {records : List Record} (h : a.IsAt root t) (h' : a.IsAt root s)
    (hwritten : t.writeFile (a.temporaryPath p) (Record.document records) = .ok s)
    (hrenamed : s.rename (a.temporaryPath p) (a.ledgerPath p) = .ok u) :
    a.load p u = afterWriting records := by
  rw [temporaryPath_eq_join] at hwritten hrenamed
  rw [ledgerPath_eq_join] at hrenamed
  obtain ⟨sound, touches⟩ := rename_own h'.sound h'.hasNoLinks isComponent_temporaryName
    isOwnName_temporaryName isComponent_ledgerName isOwnName_ledgerName hrenamed
  have hu := h'.of_touches ⟨sound, touches⟩
  obtain ⟨loc, hloc, -, hset⟩ := writeFile_eq_ok hwritten
  obtain ⟨source, target, entry, hsource, found, -, htarget, -, moved⟩ := rename_eq_ok hrenamed
  -- all three paths are looked up in the directory of the project
  obtain ⟨rfl, -⟩ := locate_of_locate h h (.refl t) isComponent_temporaryName hloc true
  obtain ⟨rfl, -⟩ := locate_of_locate h' h' (.refl s) isComponent_temporaryName hsource true
  obtain ⟨rfl, there⟩ := locate_of_locate h' hu touches.keeps isComponent_ledgerName htarget true
  rw [hset.here] at found
  obtain rfl := Option.some.inj found
  rcases moved with ⟨same, -⟩ | ⟨-, mid, -, put⟩
  · exact absurd (List.append_cancel_left same) (by decide)
  · exact load_of_readFile (readFile_eq_ok_iff.mpr ⟨_, there, put.here⟩)

/-- Writing the records either fails and leaves the ledger as it is, or makes the ledger what these
records are read back as. -/
theorem persist_cases (h : a.IsAt root t) (records : List Record) :
    (∃ e s, a.persist p records t = .error e s ∧ s.IsSound ∧ a.Touches p IsTemporary t s) ∨
      ∃ s, a.persist p records t = .ok () s ∧ a.load p s = afterWriting records := by
  have hmake : a.Confined p IsTemporary (Disk.makeDirs (a.projectDir p)) := confined_makeDirs
  have hwrite : a.Confined p IsTemporary
      (Disk.writeFile (a.temporaryPath p) (Record.document records)) := by
    rw [temporaryPath_eq_join]
    exact confined_writeFile isComponent_temporaryName isTemporary_temporaryName _
  -- up to the renaming only the temporary file has been touched, and no ledger is read from it
  rw [persist, run_bind]
  cases hmade : Disk.makeDirs (a.projectDir p) t with
  | error e s => exact .inl ⟨e, s, rfl, hmake.of_error h hmade⟩
  | ok x s =>
    obtain ⟨sound, touches⟩ := hmake.of_ok h hmade
    have hs := h.of_touches ⟨sound, touches⟩
    simp only [run_bind]
    cases hwritten : Disk.writeFile (a.temporaryPath p) (Record.document records) s with
    | error e u =>
      obtain ⟨sound', touches'⟩ := hwrite.of_error hs hwritten
      exact .inl ⟨e, u, rfl, sound', touches.trans touches' sound⟩
    | ok x u =>
      obtain ⟨sound', touches'⟩ := hwrite.of_ok hs hwritten
      have hu := hs.of_touches ⟨sound', touches'⟩
      simp only
      cases hrenamed : Disk.change (a.ledgerPath p)
          (·.rename (a.temporaryPath p) (a.ledgerPath p)) u with
      | error e v =>
        obtain rfl := change_eq_error hrenamed
        exact .inl ⟨e, v, rfl, sound', touches.trans touches' sound⟩
      | ok x v =>
        exact .inr ⟨v, rfl, load_of_rename hs hu (change_eq_ok hwritten) (change_eq_ok hrenamed)⟩

/-! ## Moving a ledger aside -/

/-- Moving the ledger aside makes it absent. -/
theorem load_of_renameAside (h : a.IsAt root t)
    (hrenamed : t.rename (a.ledgerPath p) (a.asidePath p) = .ok s) : a.load p s = .absent := by
  rw [asidePath_eq_join, ledgerPath_eq_join] at hrenamed
  obtain ⟨sound, touches⟩ := rename_own h.sound h.hasNoLinks isComponent_ledgerName
    isOwnName_ledgerName isComponent_asideName isOwnName_asideName hrenamed
  have hs := h.of_touches ⟨sound, touches⟩
  obtain ⟨source, target, entry, hsource, -, -, htarget, -, moved⟩ := rename_eq_ok hrenamed
  obtain ⟨rfl, there⟩ := locate_of_locate h hs touches.keeps isComponent_ledgerName hsource true
  obtain ⟨rfl, -⟩ := locate_of_locate h h (.refl t) isComponent_asideName htarget true
  have differs : p.place root ++ [ledgerName] ≠ p.place root ++ [asideName] :=
    fun same => absurd (List.append_cancel_left same) (by decide)
  rcases moved with ⟨same, -⟩ | ⟨-, mid, gone, put⟩
  · exact absurd same differs
  · refine load_eq_absent ((readFile_of_locate there).trans ?_)
    rw [readAt, put.elsewhere _ differs, gone.here]

/-- Moving an unreadable ledger aside leaves it where it is or makes it absent. -/
theorem setAside_cases (h : a.IsAt root t) :
    (∃ e, a.setAside p t = .error e t) ∨
      ∃ s, a.setAside p t = .ok () s ∧ (s = t ∨ a.load p s = .absent) := by
  rw [setAside, run_bind]
  rcases a.ledgerIsThere_cases p t with ⟨content, -, run⟩ | ⟨-, run⟩ | ⟨e, run⟩
  · rw [run]
    refine .inr ⟨((t.rename (a.ledgerPath p) (a.asidePath p)).toOption).getD t, rfl, ?_⟩
    cases hrenamed : t.rename (a.ledgerPath p) (a.asidePath p) with
    | error fault => exact .inl rfl
    | ok s => exact .inr (load_of_renameAside h hrenamed)
  · rw [run]
    exact .inr ⟨t, rfl, .inl rfl⟩
  · rw [run]
    exact .inl ⟨e, rfl⟩

end ImageGateway.Archive
