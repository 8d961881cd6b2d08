import ImageGateway.Proofs.Archive.FailedUpdates
import ImageGateway.Proofs.Archive.Readback

/-!
# Writing a ledger as it is

An update that leaves the records as they are writes them anew, in the one form that records are
written in. The ledger says the same afterwards (`readFile_of_rewritten`), and writing it once more
does not change a byte (`readFile_of_rewritten_again`). The one exception is a temporary file that is
a link to the ledger itself.
-/

set_option autoImplicit false

namespace ImageGateway.Archive

open Storage Storage.FileTree

variable {a : Archive} {p : Project} {t s u : FileTree} {dir : Location} {records : List Record}
  {content : Bytes} {α β : Type}

/-! ## Putting a new ledger in place -/

/-- What happens when records are written: a file is written where the path of the temporary file
leads, and what is at that path takes the place of the ledger. -/
structure Replaces (a : Archive) (p : Project) (records : List Record) (t s : FileTree)
    (dir loc : Location) (entry : Entry) : Prop where
  located : t.locate true (a.temporaryPath p) = .ok loc
  plain : IsPlain (t.find? loc)
  steps : ∃ v mid, t.SetAt loc (some (.file (Record.document records))) v ∧
    v.find? (dir ++ [temporaryName]) = some entry ∧ entry ≠ .directory ∧
    v.SetAt (dir ++ [temporaryName]) none mid ∧ mid.SetAt (dir ++ [ledgerName]) (some entry) s

theorem ledger_ne_temporary (dir : Location) : dir ++ [ledgerName] ≠ dir ++ [temporaryName] :=
  fun same => absurd (List.append_cancel_left same) (by decide)

theorem replaces_of_persist {x : Unit} (hs : t.IsSound) (hled : t.LeadsTo (a.projectDir p) dir)
    (hrun : a.persist p records t = .ok x s) :
    ∃ loc entry, a.Replaces p records t s dir loc entry := by
  obtain ⟨w, v, made, written, renamed⟩ := persist_eq_ok hrun
  obtain rfl : w = t := by
    have unmade := makeDirs_of_blocks hs hled rfl (.refl t)
    rw [made] at unmade
    exact unmade
  -- the document has been written somewhere and all directories are still there, so that both names
  -- are looked up in the same one
  have led := hled.keep (builds_of_writeFile written hs).2
  obtain ⟨loc, located, notDir, put⟩ := writeFile_eq_ok written
  obtain ⟨source, target, entry, hsource, found, entryNotDir, htarget, -, moved⟩ :=
    rename_eq_ok renamed
  rw [temporaryPath_eq_join] at hsource
  rw [ledgerPath_eq_join] at htarget
  obtain ⟨dir₁, left₁, led₁, last₁⟩ := locate_join isComponent_temporaryName hsource
  obtain ⟨dir₂, left₂, led₂, last₂⟩ := locate_join isComponent_ledgerName htarget
  obtain rfl : dir = dir₁ := led₁.unique led (.refl v)
  obtain rfl : dir = dir₂ := led₂.unique led (.refl v)
  obtain rfl := eq_of_walk_one_false isComponent_temporaryName.isName last₁
  obtain rfl := eq_of_walk_one_false isComponent_ledgerName.isName last₂
  rcases moved with ⟨same, -⟩ | ⟨-, mid, gone, final⟩
  · exact absurd same.symm (ledger_ne_temporary dir)
  refine ⟨loc, entry, located, ?_, v, mid, put, found, entryNotDir, gone, final⟩
  rcases locateNames_cases hs located with isDir | ⟨mid', name, rfl, hmid, plain | nofollow⟩
  · exact absurd isDir notDir
  · exact plain
  · exact absurd nofollow (by simp)

theorem isSound_of_persist {x : Unit} (hs : t.IsSound) (hrun : a.persist p records t = .ok x s) :
    s.IsSound := by
  obtain ⟨u, v, made, written, renamed⟩ := persist_eq_ok hrun
  have sound := isSound_makeDirs hs (a.projectDir p)
  rw [made] at sound
  exact isSound_of_rename (builds_of_writeFile written sound).1 renamed

namespace Replaces

variable {loc : Location} {entry : Entry}

/-- The file itself is written, or a link is followed to it. -/
theorem eq_or_link (h : a.Replaces p records t s dir loc entry)
    (hled : t.LeadsTo (a.projectDir p) dir) :
    (loc = dir ++ [temporaryName] ∧ entry = .file (Record.document records)) ∨
      ∃ target links,
        t.find? (dir ++ [temporaryName]) = some (.link target) ∧ entry = .link target ∧
        t.Leads mostLinks (t.start (a.projectDir p)) (a.projectDir p).names (links + 1) dir ∧
        t.walk true links (if target.isAbsolute then [] else dir) target.route = .ok loc := by
  obtain ⟨v, mid, put, found, -, -, -⟩ := h.steps
  have located := h.located
  obtain ⟨walkable, -⟩ := walk_of_locateNames located
  rw [temporaryPath_eq_join] at located walkable
  obtain ⟨left, led⟩ := hled
  rw [led.locate_join isComponent_temporaryName walkable] at located
  have step : IsStep temporaryName := ⟨isComponent_temporaryName.isName, short_temporaryName⟩
  -- where a link is in the place of the temporary file, the document is written where it leads
  rcases t.find?_cases (dir ++ [temporaryName]) with hdir | ⟨target, hlink⟩ | hplain
  · rw [walk_directory step hdir, walk_nil] at located
    obtain rfl := Except.ok.inj located
    exact absurd hdir h.plain.1
  · right
    rw [walk_link step hlink (.inr rfl)] at located
    cases left with
    | zero => exact absurd located (by simp [jump])
    | succ links =>
      rw [jump, List.append_nil] at located
      have elsewhere : dir ++ [temporaryName] ≠ loc := by
        rintro rfl
        exact h.plain.2 target hlink
      rw [put.elsewhere _ elsewhere, hlink] at found
      exact ⟨target, links, hlink, (Option.some.inj found).symm, led, located⟩
  · rw [walk_plain step hplain] at located
    obtain rfl := Except.ok.inj located
    rw [put.here] at found
    exact .inl ⟨rfl, (Option.some.inj found).symm⟩

/-- Only the file that is written, the temporary file and the ledger are different. -/
theorem elsewhere (h : a.Replaces p records t s dir loc entry) {other : Location}
    (hloc : other ≠ loc) (htemporary : other ≠ dir ++ [temporaryName])
    (hledger : other ≠ dir ++ [ledgerName]) : s.find? other = t.find? other := by
  obtain ⟨v, mid, put, -, -, gone, final⟩ := h.steps
  rw [final.elsewhere _ hledger, gone.elsewhere _ htemporary, put.elsewhere _ hloc]

theorem working (h : a.Replaces p records t s dir loc entry) :
    s.workingDirectory = t.workingDirectory := by
  obtain ⟨v, mid, put, -, -, gone, final⟩ := h.steps
  rw [final.working, gone.working, put.working]

theorem ledger (h : a.Replaces p records t s dir loc entry) :
    s.find? (dir ++ [ledgerName]) = some entry := by
  obtain ⟨v, mid, -, -, -, -, final⟩ := h.steps
  exact final.here

theorem temporary (h : a.Replaces p records t s dir loc entry) :
    s.find? (dir ++ [temporaryName]) = none := by
  obtain ⟨v, mid, -, -, -, gone, final⟩ := h.steps
  rw [final.elsewhere _ (Ne.symm (ledger_ne_temporary dir)), gone.here]

/-- The file that has been written is there, unless it was the ledger or the temporary file. -/
theorem written (h : a.Replaces p records t s dir loc entry)
    (htemporary : loc ≠ dir ++ [temporaryName]) (hledger : loc ≠ dir ++ [ledgerName]) :
    s.find? loc = some (.file (Record.document records)) := by
  obtain ⟨v, mid, put, -, -, gone, final⟩ := h.steps
  rw [final.elsewhere _ hledger, gone.elsewhere _ htemporary, put.here]

/-- All directories are still there, and all links but the temporary file, if the ledger was a file
or missing. -/
theorem keepsBut (h : a.Replaces p records t s dir loc entry)
    (hledger : IsPlain (t.find? (dir ++ [ledgerName]))) :
    KeepsBut (dir ++ [temporaryName]) t s := by
  intro other notTemporary
  by_cases atLedger : other = dir ++ [ledgerName]
  · subst atLedger
    exact ⟨fun isDir => absurd isDir hledger.1, fun target isLink => absurd isLink (hledger.2 target)⟩
  by_cases here : other = loc
  · subst here
    exact ⟨fun isDir => absurd isDir h.plain.1, fun target isLink => absurd isLink (h.plain.2 target)⟩
  · rw [h.elsewhere here notTemporary atLedger]
    exact ⟨id, fun _ => id⟩

/-- The directory of the project is still there, if the ledger was a file or missing: a temporary file
that is a link leads to a file, so that the path does not go over it. -/
theorem leads (h : a.Replaces p records t s dir loc entry) (hs : t.IsSound)
    (hled : t.LeadsTo (a.projectDir p) dir)
    (hledger : IsPlain (t.find? (dir ++ [ledgerName]))) {left : Nat}
    (hway : t.Leads mostLinks (t.start (a.projectDir p)) (a.projectDir p).names left dir) :
    s.Leads mostLinks (s.start (a.projectDir p)) (a.projectDir p).names left dir := by
  have there := hled.isDirectory hs
  have notDir : t.find? (dir ++ [temporaryName]) ≠ some .directory := by
    intro isDir
    rcases h.eq_or_link hled with ⟨rfl, -⟩ | ⟨target, links, hlink, -⟩
    · exact h.plain.1 isDir
    · simp [hlink] at isDir
  rw [start, h.working, ← start]
  -- only a way over the temporary file could be lost, and that link leads to a file
  rcases hway.keepBut (h.keepsBut hledger) notDir with
    led | ⟨dir', name, target, fewer, left', mid, same, hlink, led⟩
  · exact led
  obtain ⟨rfl, -⟩ := List.append_inj' same rfl
  rcases h.eq_or_link hled with ⟨rfl, -⟩ | ⟨target', links, hlink', -, -, walked⟩
  · exact absurd hlink (h.plain.2 target)
  · obtain rfl := Entry.link.inj (Option.some.inj (hlink.symm.trans hlink'))
    have isDir := led.isDirectory hs (find?_linkStart there target)
    rcases led.walk_other links with reached | many
    · obtain rfl := Except.ok.inj (walked.symm.trans reached)
      exact absurd isDir h.plain.1
    · exact absurd (walked.symm.trans many) (by simp)

/-- The new ledger is read, whether the temporary file was a file or a link to one, if it was not a
link to the ledger. -/
theorem readFile (h : a.Replaces p records t s dir loc entry) (hs : t.IsSound)
    (hled : t.LeadsTo (a.projectDir p) dir)
    (hledger : IsPlain (t.find? (dir ++ [ledgerName])))
    (hapart : loc ≠ dir ++ [ledgerName]) :
    s.readFile (a.ledgerPath p) = .ok (Record.document records) := by
  have walkable := walkable_ledgerPath (walk_of_locateNames h.located).1
  rw [ledgerPath_eq_join] at walkable ⊢
  -- the ledger is the new file, or the link that was written over
  rcases h.eq_or_link hled with ⟨-, rfl⟩ | ⟨target, links, hlink, rfl, way, walked⟩
  · obtain ⟨left, way⟩ := hled
    have located := (h.leads hs ⟨left, way⟩ hledger way).locate_join isComponent_ledgerName
      walkable true
    rw [walk_one isStep_ledgerName (by simp [h.ledger])] at located
    exact readFile_eq_ok_iff.mpr ⟨_, located, h.ledger⟩
  · have notTemporary : loc ≠ dir ++ [temporaryName] := by
      rintro rfl
      exact h.plain.2 target hlink
    have written := h.written notTemporary hapart
    have located := (h.leads hs hled hledger way).locate_join isComponent_ledgerName walkable true
    have further := walk_target_of_keepsBut hs (hled.isDirectory hs) hlink (h.keepsBut hledger)
      h.plain.1 (by rw [written]; exact isPlain_file _) walked
    rw [walk_link isStep_ledgerName h.ledger (.inr rfl), jump, List.append_nil, further] at located
    exact readFile_eq_ok_iff.mpr ⟨loc, located, written⟩

end Replaces

/-! ## Writing the records as they are -/

/-- A change that leaves the records as they are and has them written. -/
def LeavesAsIs (change : List Record → Disk (Commit α)) (records : List Record) : Prop :=
  ∀ t, ∃ x, change records t = .ok (.write records x) t

/-- The path of the temporary file does not lead to the ledger. -/
def IsApart (a : Archive) (p : Project) (t : FileTree) : Prop :=
  t.locate true (a.temporaryPath p) ≠ t.locate false (a.ledgerPath p)

/-- An update that leaves the records of a readable ledger as they are has written them. -/
theorem persist_of_leavesAsIs {change : List Record → Disk (Commit α)} {x : α}
    (hload : a.load p t = .present records) (hchange : LeavesAsIs change records)
    (hrun : a.update p change t = .ok x s) : a.persist p records t = .ok () s := by
  obtain ⟨y, changed⟩ := hchange t
  rcases update_eq_ok hrun with kept | ⟨written, u, v, changed', way, persisted⟩
  · rw [hload] at kept
    exact absurd (changed.symm.trans kept) (by simp)
  · rw [hload] at changed' way
    obtain ⟨same, rfl⟩ := EStateM.Result.ok.inj (changed.symm.trans changed')
    obtain ⟨rfl, -⟩ := Commit.write.inj same
    rcases way with ⟨-, rfl⟩ | ⟨unreadable, -⟩
    · exact persisted
    · exact absurd unreadable (by simp [LedgerState.isUnreadable])

/-- A file that is the ledger is what is read. -/
theorem load_of_statLink (hfile : t.statLink (a.ledgerPath p) = .ok (.file content))
    (hread : Record.ofDocument? content = some records) : a.load p t = .present records := by
  obtain ⟨loc, located, found⟩ := statLink_eq_ok hfile
  have follow : t.locate true (a.ledgerPath p) = t.locate false (a.ledgerPath p) := by
    refine locate_follow fun loc' target located' isLink => ?_
    obtain rfl := Except.ok.inj (located.symm.trans located')
    simp [found] at isLink
  have read : t.readFile (a.ledgerPath p) = .ok content :=
    readFile_eq_ok_iff.mpr ⟨loc, follow.trans located, found⟩
  delta load
  rw [read]
  simp only [hread]

/-- After an update that leaves the records as they are, the ledger is their document; it can be
written again. -/
theorem readFile_of_rewritten {change : List Record → Disk (Commit α)} {x : α} (hs : t.IsSound)
    (hfile : t.statLink (a.ledgerPath p) = .ok (.file content))
    (hread : Record.ofDocument? content = some records) (hapart : a.IsApart p t)
    (hchange : LeavesAsIs change records) (hrun : a.update p change t = .ok x s) :
    s.readFile (a.ledgerPath p) = .ok (Record.document records) ∧ s.IsSound ∧
      a.HasPlainFiles p s := by
  have persisted := persist_of_leavesAsIs (load_of_statLink hfile hread) hchange hrun
  obtain ⟨loc, located, -⟩ := statLink_eq_ok hfile
  rw [IsApart, located] at hapart
  rw [ledgerPath_eq_join] at hfile located
  -- the ledger is a file in the directory of the project
  obtain ⟨dir, hled, found⟩ := leadsTo_of_statLink isComponent_ledgerName hfile
  have hledger : IsPlain (t.find? (dir ++ [ledgerName])) := found ▸ isPlain_file content
  obtain ⟨dir', left, led, last⟩ := locate_join isComponent_ledgerName located
  obtain rfl : dir = dir' := led.unique hled (.refl t)
  obtain rfl := eq_of_walk_one_false isComponent_ledgerName.isName last
  obtain ⟨place, entry, h⟩ := replaces_of_persist hs hled persisted
  have apart : place ≠ dir ++ [ledgerName] := by
    rintro rfl
    exact hapart h.located
  refine ⟨h.readFile hs hled hledger apart, isSound_of_persist hs persisted, ?_⟩
  obtain ⟨left, way⟩ := hled
  have led' : s.LeadsTo (a.projectDir p) dir := ⟨left, h.leads hs ⟨left, way⟩ hledger way⟩
  intro other would target
  obtain rfl := led'.eq_of_would would
  exact ⟨by simp [h.temporary], fun _ => led'⟩

/-- Records whose numbers are integers of 64 bits are read of their document as they are. -/
theorem load_of_rewritten (hfile : t.statLink (a.ledgerPath p) = .ok (.file content))
    (hread : Record.ofDocument? content = some records)
    (hnumbers : ∀ r ∈ records, ∀ n ∈ (Json.Value.object r.taskData).numbers, n.isWord = true)
    (hwritten : s.readFile (a.ledgerPath p) = .ok (Record.document records)) :
    (∀ r ∈ records, r.reread = some r) ∧ a.load p s = .present records := by
  have lasting := reread_of_load (load_of_statLink hfile hread) hnumbers
  refine ⟨lasting, ?_⟩
  rw [load_of_readFile hwritten]
  exact afterWriting_eq_present_iff.mpr lasting

/-- A ledger that is written as it is a second time has the same bytes. -/
theorem readFile_of_rewritten_again {change : List Record → Disk (Commit α)} {x : α}
    (hs : s.IsSound) (hplain : a.HasPlainFiles p s) (hload : a.load p s = .present records)
    (hchange : LeavesAsIs change records) (hrun : a.update p change s = .ok x u) :
    u.readFile (a.ledgerPath p) = .ok (Record.document records) := by
  have persisted := persist_of_leavesAsIs hload hchange hrun
  have readable : (a.load p s).isUnreadable = false := by
    rw [hload]
    rfl
  exact readFile_of_persist hs readable hplain ⟨hs, .refl s⟩ persisted

/-! ## Over a link to the ledger -/

/-- A link to itself leads nowhere. -/
theorem walk_link_to_itself {name : String} {target : FilePath} (hname : IsStep name)
    (hlink : t.find? (dir ++ [name]) = some (.link target)) (hrelative : target.isAbsolute = false)
    (hnames : target.route = [name]) (links : Nat) :
    t.walk true links dir [name] = .error .tooManyLinks := by
  -- each time round takes one of the links that are left
  induction links with
  | zero =>
    rw [walk_link hname hlink (.inr rfl)]
    rfl
  | succ links ih =>
    rw [walk_link hname hlink (.inr rfl), jump, hrelative, hnames]
    exact ih

/-- A results directory in which the temporary file is a link to the ledger, which lists nothing. -/
def linkedLedger : FileTree where
  entries := [(["results"], .directory), (["results", "history.json"], .file [91, 93]),
    (["results", "history.json.tmp"], .link ⟨"history.json"⟩)]
  workingDirectory := []

/-- The tree after a document has been written over the link. -/
def linkedLedgerWritten (document : Bytes) : FileTree :=
  linkedLedger.insert ["results", "history.json"] (.file document)

/-- The tree after the link has taken the place of the ledger. -/
def linkedLedgerReplaced (document : Bytes) : FileTree :=
  ((linkedLedgerWritten document).erase ["results", "history.json.tmp"]).insert
    ["results", "history.json"] (.link ⟨"history.json"⟩)

theorem locate_temporary_linkedLedger :
    linkedLedger.locate true (results.temporaryPath .global) = .ok ["results", "history.json"] := by
  have ledger : linkedLedger.find? ["results", "history.json"] = some (.file [91, 93]) := rfl
  rw [temporaryPath_eq_join]
  exact locate_link_results rfl rfl isComponent_temporaryName
    (by decide) short_temporaryName rfl isComponent_ledgerName
    short_ledgerName (by simp [ledger])

/-- If the temporary file is a link to the ledger, writing the ledger as it is makes it
unreadable. -/
theorem unreadable_of_rewritten_linkedLedger :
    linkedLedger.IsSound ∧
      linkedLedger.statLink (results.ledgerPath .global) = .ok (.file [91, 93]) ∧
      results.load .global linkedLedger = .present [] ∧
      ∃ s, results.writeBack .global linkedLedger = .ok () s ∧
        results.load .global s = .unreadable := by
  have found : linkedLedger.statLink (results.ledgerPath .global) = .ok (.file [91, 93]) := rfl
  have loaded : results.load .global linkedLedger = .present [] := load_of_statLink found rfl
  have made : linkedLedger.makeDirs (results.projectDir .global) = (.ok (), linkedLedger) := rfl
  have written : linkedLedger.writeFile (results.temporaryPath .global) (Record.document [])
      = .ok (linkedLedgerWritten (Record.document [])) :=
    writeFile_of_locate locate_temporary_linkedLedger (by decide) _
  have renamed : ∀ document, (linkedLedgerWritten document).rename (results.temporaryPath .global)
      (results.ledgerPath .global) = .ok (linkedLedgerReplaced document) := by
    intro document
    have led : (linkedLedgerWritten document).LeadsTo (results.projectDir .global) ["results"] :=
      ⟨mostLinks, .down (by decide) rfl (.here _ _)⟩
    have source := led.locate_join isComponent_temporaryName (by decide)
      short_temporaryName
    have target := led.locate_join isComponent_ledgerName (by decide)
      short_ledgerName
    rw [← temporaryPath_eq_join] at source
    rw [← ledgerPath_eq_join] at target
    rw [rename, lookUp, source, target]
    rfl
  refine ⟨isSound_of_entries (by decide) rfl, found, loaded,
    linkedLedgerReplaced (Record.document []), ?_, ?_⟩
  · refine update_of_persist ?_ ?_ (persist_of_steps made written (renamed _))
    · rw [loaded]
      rfl
    · rw [loaded]
      rfl
  · have names : (results.ledgerPath .global).names = ["results", "history.json"] := rfl
    have up : (linkedLedgerReplaced (Record.document [])).find? ["results"] = some .directory := rfl
    have located : (linkedLedgerReplaced (Record.document [])).locate true
        (results.ledgerPath .global) = .error .tooManyLinks := by
      rw [locate, locateNames_eq_walk (by decide), names]
      show (linkedLedgerReplaced (Record.document [])).walk true mostLinks []
        ["results", "history.json"] = _
      rw [walk_directory (by decide) up]
      exact walk_link_to_itself isStep_ledgerName rfl rfl rfl mostLinks
    exact load_eq_unreadable (readFile_of_error located) (by simp)

end ImageGateway.Archive
