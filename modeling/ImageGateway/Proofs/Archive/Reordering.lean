import ImageGateway.Proofs.Archive.ListedImages
import ImageGateway.Proofs.Archive.Moves

/-!
# Putting records in any order

Records with different numbers can be put in any order by moving them one place at a time
(`reordering_complete`), since every order is made by exchanging neighbours and any two neighbours can
be exchanged, the first two and the last two as well. Each of these moves succeeds, as long as nothing
is in the place of the temporary file and its path is not too long.
-/

set_option autoImplicit false

namespace ImageGateway

open Storage Storage.FileTree

/-- A move of a record by one place. -/
inductive Move where
  | forward (id : RecordId)
  | back (id : RecordId)

namespace Move

/-- The number of the record that is moved. -/
def id : Move → RecordId
  | .forward id => id
  | .back id => id

/-- The records after a move, if it moves any. -/
def change? : Move → List Record → Option (List Record)
  | .forward id => Archive.movedForward? id
  | .back id => Archive.movedBack? id

/-- The program that makes a move. -/
def run (a : Archive) (p : Project) : Move → Disk Bool
  | .forward id => a.moveForward p id
  | .back id => a.moveBack p id

theorem run_eq (a : Archive) (p : Project) (m : Move) :
    m.run a p = a.update p fun records => pure (Archive.commitIf (m.change? records)) := by
  cases m <;> rfl

/-- The records after moves one after the other, if each of them moves any. -/
def changeAll? (moves : List Move) (records : List Record) : Option (List Record) :=
  moves.foldlM (fun listed m => m.change? listed) records

/-- Moves are made one after the other, and each of them answers true. -/
inductive AllMoved (a : Archive) (p : Project) : List Move → FileTree → FileTree → Prop where
  | nil (t : FileTree) : AllMoved a p [] t t
  | cons {m : Move} {moves : List Move} {t u s : FileTree} :
      m.run a p t = .ok true u → AllMoved a p moves u s → AllMoved a p (m :: moves) t s

end Move

namespace Archive

variable {a : Archive} {p : Project} {t s : FileTree} {moves : List Move} {m : Move}
  {r : Record} {records written ordered : List Record} {ids : List RecordId} {content : Bytes}

theorem changeAll?_append (front back : List Move) (records : List Record) :
    Move.changeAll? (front ++ back) records
      = (Move.changeAll? front records).bind (Move.changeAll? back) := by
  rw [Move.changeAll?, List.foldlM_append]
  rfl

/-- What is moved behind another record is moved just as well if that one is in front of all. -/
theorem changeAll?_map_back_cons (hother : r.id ∉ ids)
    (h : Move.changeAll? (ids.map .back) records = some written) :
    Move.changeAll? (ids.map .back) (r :: records) = some (r :: written) := by
  induction ids generalizing records with
  | nil =>
    obtain rfl : records = written := Option.some.inj h
    rfl
  | cons id ids ih =>
    obtain ⟨differs, others⟩ := not_or.mp (mt List.mem_cons.mpr hother)
    rw [List.map_cons, Move.changeAll?, List.foldlM_cons] at h ⊢
    obtain ⟨next, made, rest⟩ := Option.bind_eq_some_iff.mp h
    have lifted : movedBack? id (r :: records) = some (r :: next) := by
      cases records with
      | nil => exact absurd made (by simp [Move.change?, movedBack?])
      | cons s records =>
        rw [movedBack?, if_neg differs, show movedBack? id (s :: records) = some next from made]
        rfl
    exact Option.bind_eq_some_iff.mpr ⟨r :: next, lifted, ih others rest⟩

/-- Every order of records with different numbers is made by moving some of them back one after the
other. -/
theorem exists_moves_of_perm (h : records.Perm ordered) (hdistinct : (records.map Record.id).Nodup) :
    ∃ ids : List RecordId, (∀ id ∈ ids, id ∈ records.map Record.id) ∧
      Move.changeAll? (ids.map .back) records = some ordered := by
  induction h with
  | nil => exact ⟨[], by simp, rfl⟩
  | @cons r records ordered _ ih =>
    -- the first record stays, and none of the others has its number
    obtain ⟨alone, distinct⟩ := List.nodup_cons.mp hdistinct
    obtain ⟨ids, listed, moved⟩ := ih distinct
    exact ⟨ids, fun id hid => List.mem_cons_of_mem _ (listed id hid),
      changeAll?_map_back_cons (fun hid => alone (listed _ hid)) moved⟩
  | swap s r records =>
    refine ⟨[r.id], by simp, ?_⟩
    rw [List.map_singleton, Move.changeAll?, List.foldlM_cons]
    simp [Move.change?, movedBack?]
  | trans first second ihFirst ihSecond =>
    have same := first.map Record.id
    obtain ⟨ids, listed, moved⟩ := ihFirst hdistinct
    obtain ⟨more, listed', moved'⟩ := ihSecond (same.nodup_iff.mp hdistinct)
    refine ⟨ids ++ more, fun id hid => ?_, ?_⟩
    · rcases List.mem_append.mp hid with hid | hid
      · exact listed id hid
      · exact same.mem_iff.mpr (listed' id hid)
    · rw [List.map_append, changeAll?_append, moved]
      exact moved'

/-! ## Moves that succeed -/

/-- A ledger that can be written anew at any time: it is a file, nothing is in the place of the
temporary file, whose path is not too long, and the records will be read back. -/
structure IsMovable (a : Archive) (p : Project) (records : List Record) (t : FileTree) : Prop where
  sound : t.IsSound
  walkable : Walkable (a.temporaryPath p)
  ledger : ∃ content, t.statLink (a.ledgerPath p) = .ok (.file content)
  free : ∀ entry, t.statLink (a.temporaryPath p) ≠ .ok entry
  loaded : a.load p t = .present records
  lasting : ∀ r ∈ records, r.reread = some r

/-- Records that are read back are the ledger once their document is. -/
theorem load_of_document (hlasting : ∀ r ∈ records, r.reread = some r)
    (hfile : t.statLink (a.ledgerPath p) = .ok (.file (Record.document records))) :
    a.load p t = .present records := by
  refine load_of_statLink hfile ?_
  rw [Record.ofDocument?_document, Json.mapM_eq_some_self hlasting]

namespace IsMovable

/-- Such a ledger can be written, and then again. -/
theorem persist (h : a.IsMovable p records t) (hlasting : ∀ r ∈ written, r.reread = some r) :
    ∃ s, a.persist p written t = .ok () s ∧ a.IsMovable p written s := by
  have walkable := h.walkable
  obtain ⟨content, file⟩ := h.ledger
  rw [ledgerPath_eq_join] at file
  obtain ⟨dir, led, found⟩ := leadsTo_of_statLink isComponent_ledgerName file
  have ledger : IsPlain (t.find? (dir ++ [ledgerName])) := found ▸ isPlain_file content
  rw [temporaryPath_eq_join] at walkable
  have missing : t.find? (dir ++ [temporaryName]) = none := by
    have free := h.free
    rw [temporaryPath_eq_join, statLink_join led isComponent_temporaryName walkable
      short_temporaryName] at free
    cases there : t.find? (dir ++ [temporaryName]) with
    | none => rfl
    | some entry => exact absurd (by rw [there]) (free entry)
  -- the directory is there, and nothing is in the way of the new document
  have made := makeDirs_of_walkable_join h.sound led isComponent_temporaryName walkable
  have located : t.locate true (a.temporaryPath p) = .ok (dir ++ [temporaryName]) := by
    obtain ⟨left, walked⟩ := led.walk_join isComponent_temporaryName walkable
    rw [temporaryPath_eq_join, walked]
    exact walk_plain ⟨isComponent_temporaryName.isName, short_temporaryName⟩
      (missing ▸ isPlain_none)
  have document := writeFile_of_locate located (by simp [missing]) (Record.document written)
  obtain ⟨s, renamed⟩ := rename_temporary h.sound led ledger.1 document
  have persisted := persist_of_steps made document renamed
  refine ⟨s, persisted, isSound_of_persist h.sound persisted, h.walkable, ?_, ?_, ?_, hlasting⟩
  · exact ⟨_, (statLink_of_persist h.sound led ledger (by simp [missing]) persisted).1⟩
  · obtain ⟨loc, entry, replaces⟩ := replaces_of_persist h.sound led persisted
    obtain ⟨rfl, rfl⟩ := replaces.eq_of_noLink led (by simp [missing])
    have led' := led.keep (replaces.keeps (by simp) ledger)
    rw [temporaryPath_eq_join, statLink_join led' isComponent_temporaryName walkable
      short_temporaryName, replaces.temporary]
    simp
  · exact load_of_document hlasting
      (statLink_of_persist h.sound led ledger (by simp [missing]) persisted).1

/-- A move of records that are there succeeds. -/
theorem move (h : a.IsMovable p records t) (hmade : m.change? records = some written) :
    ∃ s, m.run a p t = .ok true s ∧ a.IsMovable p written s := by
  have perm : written.Perm records := by
    cases m with
    | forward id => exact (exchangesNeighbours_movedForward? id).perm hmade
    | back id => exact (exchangesNeighbours_movedBack? id).perm hmade
  obtain ⟨s, persisted, movable⟩ := h.persist fun r hr => h.lasting r (perm.mem_iff.mp hr)
  have readable : (a.load p t).isUnreadable = false := by
    rw [h.loaded]
    rfl
  refine ⟨s, ?_, movable⟩
  rw [Move.run_eq]
  refine update_of_persist readable ?_ persisted
  rw [h.loaded, LedgerState.records, hmade]
  rfl

/-- So do moves one after the other. -/
theorem allMoved (h : a.IsMovable p records t) (hmade : Move.changeAll? moves records = some written) :
    ∃ s, Move.AllMoved a p moves t s ∧ a.IsMovable p written s := by
  induction moves generalizing records t with
  | nil =>
    obtain rfl : records = written := Option.some.inj hmade
    exact ⟨t, .nil t, h⟩
  | cons m moves ih =>
    rw [Move.changeAll?, List.foldlM_cons] at hmade
    obtain ⟨next, first, rest⟩ := Option.bind_eq_some_iff.mp hmade
    obtain ⟨u, run, movable⟩ := h.move first
    obtain ⟨s, allMoved, after⟩ := ih movable rest
    exact ⟨s, .cons run allMoved, after⟩

end IsMovable

/-- Records with different numbers are put in any order by moving them, if nothing is in the place of
the temporary file and its path is not too long. -/
theorem reordering_complete (hs : t.IsSound)
    (hfile : t.statLink (a.ledgerPath p) = .ok (.file content))
    (hload : a.load p t = .present records) (hdistinct : (records.map Record.id).Nodup)
    (hnumbers : ∀ r ∈ records, ∀ n ∈ (Json.Value.object r.taskData).numbers, n.isWord = true)
    (hfree : ∀ entry, t.statLink (a.temporaryPath p) ≠ .ok entry)
    (hshort : (a.temporaryPath p).text.utf8ByteSize < pathLimit) (hperm : ordered.Perm records) :
    ∃ moves : List Move, (∀ m ∈ moves, m.id ∈ records.map Record.id) ∧
      ∃ s, Move.AllMoved a p moves t s ∧ a.load p s = .present ordered := by
  obtain ⟨ids, listed, moved⟩ := exists_moves_of_perm hperm.symm hdistinct
  obtain ⟨loc, located, -⟩ := statLink_eq_ok hfile
  have walkable : Walkable (a.temporaryPath p) :=
    walkable_withSuffix (walk_of_locateNames located).1 (by decide) hshort
  have movable : a.IsMovable p records t :=
    ⟨hs, walkable, ⟨content, hfile⟩, hfree, hload, reread_of_load hload hnumbers⟩
  obtain ⟨s, allMoved, after⟩ := movable.allMoved moved
  refine ⟨ids.map .back, fun m hm => ?_, s, allMoved, after.loaded⟩
  obtain ⟨id, hid, rfl⟩ := List.mem_map.mp hm
  exact listed id hid

theorem reordering_complete_listedResults :
    listedResults.statLink (results.ledgerPath .global)
        = .ok (.file (Record.document blockedRecords)) ∧
      results.load .global listedResults = .present blockedRecords ∧
      ∃ moves : List Move, (∀ m ∈ moves, m.id ∈ blockedRecords.map Record.id) ∧
        ∃ s, Move.AllMoved results .global moves listedResults s ∧
          results.load .global s = .present blockedRecords.reverse := by
  have file : listedResults.statLink (results.ledgerPath .global)
      = .ok (.file (Record.document blockedRecords)) := rfl
  have missing : listedResults.statLink (results.temporaryPath .global) = .error .notFound := rfl
  exact ⟨file, load_listedResults,
    reordering_complete isSound_listedResults file load_listedResults (by decide)
      words_blockedRecords (by simp [missing]) (by decide) (List.reverse_perm blockedRecords)⟩

/-! ## Where the path of the temporary file is too long -/

theorem not_walkable_temporaryPath_slashedResults (count : Nat)
    (hlong : pathLimit ≤ 8 + count + temporaryName.utf8ByteSize) :
    ¬ Walkable ((slashedResults (count + 1)).temporaryPath .global) := by
  intro walkable
  have short := walkable.short
  rw [temporaryPath_eq_join, text_slashedResults count isComponent_temporaryName,
    String.utf8ByteSize_append, size_slashedResults] at short
  omega

/-- No move answers true where the path of the temporary file is too long. -/
theorem run_ne_true (hload : a.load p t = .present records) (hlong : ¬ Walkable (a.temporaryPath p)) :
    m.run a p t ≠ .ok true s := by
  intro run
  rw [Move.run_eq] at run
  rcases move_eq_ok hload run with ⟨-, kept, -⟩ | ⟨written, -, -, persisted⟩
  · exact absurd kept (by simp)
  · exact hlong (walkable_of_persist persisted)

/-- Two records cannot be put in the other order where there is room in a path for the name of the
ledger but not for that of the temporary file. -/
theorem not_reordered_slashedResults :
    listedResults.IsSound ∧
      listedResults.statLink ((slashedResults 4073).ledgerPath .global)
        = .ok (.file (Record.document blockedRecords)) ∧
      (slashedResults 4073).load .global listedResults = .present blockedRecords ∧
      (blockedRecords.map Record.id).Nodup ∧
      (∀ entry, listedResults.statLink ((slashedResults 4073).temporaryPath .global) ≠ .ok entry) ∧
      blockedRecords.reverse.Perm blockedRecords ∧
      ¬ ∃ moves s, Move.AllMoved (slashedResults 4073) .global moves listedResults s ∧
        (slashedResults 4073).load .global s = .present blockedRecords.reverse := by
  have led : listedResults.LeadsTo ((slashedResults 4073).projectDir .global) ["results"] :=
    leadsTo_slashedResults 4073 rfl rfl
  have walkable : Walkable ((slashedResults 4073).ledgerPath .global) :=
    walkable_slashedResults 4072 isComponent_ledgerName (by decide) (by decide)
  have long := not_walkable_temporaryPath_slashedResults 4072 (by decide)
  have file := statLink_ledger led walkable rfl
  have lasting : ∀ r ∈ blockedRecords, r.reread = some r := afterWriting_eq_present_iff.mp rfl
  have loaded := load_of_document lasting file
  obtain ⟨fault, failed⟩ := locateNames_error long
  refine ⟨isSound_listedResults, file, loaded, by decide, ?_, List.reverse_perm _, ?_⟩
  · rw [statLink_of_error (failed listedResults false _)]
    simp
  · rintro ⟨moves, s, allMoved, reordered⟩
    cases allMoved with
    | nil =>
      rw [loaded] at reordered
      have same := congrArg (List.map Record.id) (LedgerState.present.inj reordered)
      exact absurd same (by decide)
    | cons run _ => exact run_ne_true loaded long run

end Archive

end ImageGateway
