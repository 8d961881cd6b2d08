import ImageGateway.Proofs.Archive.FailedBatches
import ImageGateway.Proofs.Archive.Rewriting

/-!
# Which documents are seen afterwards

A document that is read along some path after a ledger has been moved aside is the one that has been
moved, or was read along that path before (`MovesAside.readFile_cases`). After records have been written,
or could not be written, it is theirs, or was read once the directory of the project had been made
(`readFile_after_persist`). No links are ruled out here: the path may be that of any project.
-/

set_option autoImplicit false

namespace ImageGateway.Archive

open Storage Storage.FileTree

variable {a : Archive} {p : Project} {t s u v : FileTree} {dir loc place here : Location}
  {links : Nat} {names : List String} {records : List Record} {content document : Bytes}
  {path : FilePath} {entry : Entry}

/-! ## Moving a ledger aside -/

/-- What is read afterwards is what has been moved, or was read before. -/
theorem MovesAside.readFile_cases (h : a.MovesAside p document t s dir)
    (hread : s.readFile path = .ok content) : content = document ∨ t.readFile path = .ok content := by
  obtain ⟨loc, located, found⟩ := readFile_eq_ok_iff.mp hread
  by_cases atAside : loc = dir ++ [asideName]
  · subst atAside
    exact .inl (Entry.file.inj (Option.some.inj (found.symm.trans h.aside)))
  by_cases atLedger : loc = dir ++ [ledgerName]
  · subst atLedger
    exact absurd (h.gone.symm.trans found) (by simp)
  have before := (h.elsewhere loc atLedger atAside).symm.trans found
  obtain ⟨walkable, walked⟩ := walk_of_locateNames located
  -- a file is where the ledger has been moved to, so that there is no new way
  rcases walk_of_keepsBut walked h.keepsBut (by simp [h.aside]) (before ▸ isPlain_file content) with
    reached | ⟨_, _, target, _, -, isLink, -⟩
  · refine .inr (readFile_eq_ok_iff.mpr ⟨loc, ?_, before⟩)
    rwa [locate, locateNames_eq_walk walkable, start, ← h.working, ← start]
  · exact absurd (h.aside.symm.trans isLink) (by simp)

/-! ## Writing records -/

namespace Replaces

/-- A file that is found afterwards is the new ledger, or another one than has been written, which was
there before. -/
theorem find?_file (h : a.Replaces p records t s dir loc entry) (hled : t.LeadsTo (a.projectDir p) dir)
    (hfound : s.find? place = some (.file content)) :
    content = Record.document records ∨ place ≠ loc ∧ t.find? place = some (.file content) := by
  by_cases atTemporary : place = dir ++ [temporaryName]
  · subst atTemporary
    exact absurd (h.temporary.symm.trans hfound) (by simp)
  by_cases atLedger : place = dir ++ [ledgerName]
  · subst atLedger
    obtain rfl := Option.some.inj (h.ledger.symm.trans hfound)
    rcases h.eq_or_link hled with ⟨-, same⟩ | ⟨target, links, -, isLink, -⟩
    · exact .inl (Entry.file.inj same)
    · exact absurd isLink (by simp)
  by_cases atWritten : place = loc
  · subst atWritten
    exact .inl (Entry.file.inj (Option.some.inj (hfound.symm.trans (h.written atTemporary atLedger))))
  · exact .inr ⟨atWritten, (h.elsewhere atWritten atTemporary atLedger).symm.trans hfound⟩

/-- A directory, or a link elsewhere than in the place of the ledger, was there before. -/
theorem find?_way (h : a.Replaces p records t s dir loc entry) {passed : Entry}
    (hplain : ¬ IsPlain (some passed)) (hledger : place ≠ dir ++ [ledgerName])
    (hfound : s.find? place = some passed) : t.find? place = some passed := by
  have notTemporary : place ≠ dir ++ [temporaryName] := by
    rintro rfl
    exact absurd (h.temporary.symm.trans hfound) (by simp)
  have notWritten : place ≠ loc := by
    rintro rfl
    obtain rfl := Option.some.inj ((h.written notTemporary hledger).symm.trans hfound)
    exact hplain (isPlain_file _)
  rw [← h.elsewhere notWritten notTemporary hledger, hfound]

/-- From the link that has taken the place of the ledger, no way leads on to anything but the file that
has been written. -/
theorem walk_target (h : a.Replaces p records t s dir loc entry) (hs : t.IsSound)
    (hled : t.LeadsTo (a.projectDir p) dir) {target : FilePath} {rest : List String}
    (hentry : entry = .link target)
    (hwalk : t.walk true links (if target.isAbsolute then [] else dir) (target.route ++ rest)
      = .ok place) : place = loc := by
  rcases h.eq_or_link hled with ⟨-, same⟩ | ⟨target', others, -, same, -, walked⟩
  · exact absurd (hentry.symm.trans same) (by simp)
  obtain rfl := Entry.link.inj (hentry.symm.trans same)
  cases rest with
  | nil =>
    rw [List.append_nil] at hwalk
    have first := walk_mono hwalk (Nat.le_max_left links others)
    have second := walk_mono walked (Nat.le_max_right links others)
    exact Except.ok.inj (first.symm.trans second)
  | cons next rest =>
    -- a file is not passed
    obtain ⟨left, mid, led, -⟩ := leads_of_walk (List.cons_ne_nil next rest) hwalk
    have isDir := led.isDirectory hs (find?_linkStart (hled.isDirectory hs) target)
    rcases led.walk_other others with reached | many
    · obtain rfl := Except.ok.inj (walked.symm.trans reached)
      exact absurd isDir h.plain.1
    · exact absurd (walked.symm.trans many) (by simp)

/-- A walk that ends at a file that was there before, and not at the one that has been written, ended
there before. -/
theorem walk_eq_ok (h : a.Replaces p records t s dir loc entry) (hs : t.IsSound)
    (hled : t.LeadsTo (a.projectDir p) dir) (hwalk : s.walk true links here names = .ok place)
    (hother : place ≠ loc) (hfile : t.find? place = some (.file content)) :
    t.walk true links here names = .ok place := by
  rw [walk_eq_ok_iff] at hwalk ⊢
  -- the walk does not come by the new ledger, even if that is a link
  induction hwalk with
  | here links here => exact .here links here
  | points goes _ ih => exact .points goes (ih hother hfile)
  | @down links here name rest place hname hfound _ ih =>
    have elsewhere : here ++ [name] ≠ dir ++ [ledgerName] := by
      intro atLedger
      rw [atLedger] at hfound
      obtain rfl := Option.some.inj (h.ledger.symm.trans hfound)
      rcases h.eq_or_link hled with ⟨-, same⟩ | ⟨_, _, -, same, -⟩ <;> exact absurd same (by simp)
    exact .down hname (h.find?_way (fun plain => plain.1 rfl) elsewhere hfound) (ih hother hfile)
  | @jump links here name target rest place hname hlink hgo _ ih =>
    have further := ih hother hfile
    by_cases atLedger : here ++ [name] = dir ++ [ledgerName]
    · obtain ⟨rfl, -⟩ := List.append_inj' atLedger rfl
      rw [atLedger] at hlink
      exact absurd (h.walk_target hs hled (Option.some.inj (h.ledger.symm.trans hlink))
        further.walk_eq) hother
    · exact .jump hname (h.find?_way (fun plain => plain.2 target rfl) atLedger hlink) hgo further
  | atLink nofollow => exact absurd nofollow (by simp)
  | atPlain hname => exact .atPlain hname (hfile ▸ isPlain_file content)

/-- What is read afterwards is the new ledger, or was read before. -/
theorem readFile_cases (h : a.Replaces p records t s dir loc entry) (hs : t.IsSound)
    (hled : t.LeadsTo (a.projectDir p) dir) (hread : s.readFile path = .ok content) :
    content = Record.document records ∨ t.readFile path = .ok content := by
  obtain ⟨place, located, found⟩ := readFile_eq_ok_iff.mp hread
  refine (h.find?_file hled found).imp_right fun ⟨other, before⟩ => ?_
  obtain ⟨walkable, walked⟩ := walk_of_locateNames located
  refine readFile_eq_ok_iff.mpr ⟨place, ?_, before⟩
  rw [start, h.working, ← start] at walked
  rw [locate, locateNames_eq_walk walkable]
  exact h.walk_eq_ok hs hled walked other before

end Replaces

/-- What is read after a file has been written is that file, or was read before. -/
theorem readFile_of_writeFile {other : FilePath} (hs : t.IsSound)
    (h : t.writeFile other document = .ok s) (hread : s.readFile path = .ok content) :
    content = document ∨ t.readFile path = .ok content := by
  have overwrites := overwrites_of_writeFile hs h
  obtain ⟨loc, -, -, put⟩ := writeFile_eq_ok h
  obtain ⟨place, located, found⟩ := readFile_eq_ok_iff.mp hread
  by_cases written : place = loc
  · subst written
    exact .inl (Entry.file.inj (Option.some.inj (found.symm.trans put.here)))
  · exact .inr (readFile_eq_ok_iff.mpr
      ⟨place, overwrites.locate_iff.mp located, (put.elsewhere place written).symm.trans found⟩)

/-- Records are written in the directory of the project once that has been made. -/
theorem persist_prepared {x : Unit} (hs : t.IsSound) (h : a.persist p records t = .ok x s) :
    (∃ dir, (a.prepared p t).LeadsTo (a.projectDir p) dir) ∧
      a.persist p records (a.prepared p t) = .ok x s := by
  obtain ⟨u, v, made, written, renamed⟩ := persist_eq_ok h
  have sound := isSound_makeDirs hs (a.projectDir p)
  have led := leadsTo_of_makeDirs hs (congrArg Prod.fst made)
  rw [made] at sound led
  rw [prepared, made]
  exact ⟨led, persist_of_steps (makeDirs_again hs made sound (.refl u)) written renamed⟩

/-- What is read after records have been written, or could not be written, is their document, or was
read once the directory of the project had been made. -/
theorem readFile_after_persist (hs : t.IsSound)
    (hread : (treeAfter (a.persist p records) t).readFile path = .ok content) :
    content = Record.document records ∨ (a.prepared p t).readFile path = .ok content := by
  have sound : (a.prepared p t).IsSound := isSound_makeDirs hs (a.projectDir p)
  rw [treeAfter] at hread
  cases run : a.persist p records t with
  | ok x s =>
    rw [run] at hread
    obtain ⟨⟨dir, led⟩, run⟩ := persist_prepared hs run
    obtain ⟨loc, entry, replaces⟩ := replaces_of_persist sound led run
    exact replaces.readFile_cases sound led hread
  | error e s =>
    rw [run] at hread
    rcases persist_error_cases hs run with rfl | ⟨dir, blocked⟩
    · exact .inr hread
    · exact readFile_of_writeFile sound blocked.written hread

theorem isSound_after_persist (hs : t.IsSound) (records : List Record) :
    (treeAfter (a.persist p records) t).IsSound := by
  rw [treeAfter]
  cases run : a.persist p records t with
  | ok x s => exact isSound_of_persist hs run
  | error e s =>
    have sound := isSound_makeDirs hs (a.projectDir p)
    rcases persist_error_cases hs run with rfl | ⟨dir, blocked⟩
    · exact sound
    · exact (builds_of_writeFile blocked.written sound).1

end ImageGateway.Archive
