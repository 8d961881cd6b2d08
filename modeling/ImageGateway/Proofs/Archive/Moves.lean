import ImageGateway.Proofs.Archive.FailedDeletions
import ImageGateway.Proofs.Archive.SetAside
import ImageGateway.Proofs.Archive.Shelves

/-!
# Moving records

Moving a record exchanges it with the one before it or after it (`moves_exchange_neighbours`). The
first record of all is not looked at when one is to be moved to the front, nor the last when one is
to be moved to the back; of several with the same number the first that is left is moved. A move the
other way puts everything back.
-/

set_option autoImplicit false

namespace ImageGateway

open Storage Storage.FileTree

/-! ## The record that is moved -/

namespace Record

variable {id : RecordId} {records : List Record} {index : Nat} {positions : Nat → Prop}

/-- There is a record with a number at a position. -/
def IsAtPosition (id : RecordId) (records : List Record) (index : Nat) : Prop :=
  ∃ r, records[index]? = some r ∧ r.id = id

/-- The first of some positions at which there is a record with a number. -/
structure IsFirstOf (positions : Nat → Prop) (id : RecordId) (records : List Record)
    (index : Nat) : Prop where
  allowed : positions index
  there : IsAtPosition id records index
  first : ∀ other, other < index → positions other → ¬ IsAtPosition id records other

/-- Where there is a record at one of the positions, there is a first one. -/
theorem exists_isFirstOf_iff :
    (∃ index, IsFirstOf positions id records index) ↔
      ∃ index, positions index ∧ IsAtPosition id records index := by
  constructor
  · rintro ⟨index, h⟩
    exact ⟨index, h.allowed, h.there⟩
  · rintro ⟨index, allowed, there⟩
    induction index using Nat.strongRecOn with
    | ind index ih =>
      by_cases earlier : ∃ other, other < index ∧ positions other ∧ IsAtPosition id records other
      · obtain ⟨other, less, allowed', there'⟩ := earlier
        exact ih other less allowed' there'
      · exact ⟨index, allowed, there, fun other less allowed' there' =>
          earlier ⟨other, less, allowed', there'⟩⟩

theorem position?_eq_some_iff :
    position? id records = some index ↔
      IsAtPosition id records index ∧ ∀ other, other < index → ¬ IsAtPosition id records other := by
  rw [position?, List.findIdx?_eq_some_iff_getElem]
  constructor
  · rintro ⟨short, here, before⟩
    refine ⟨⟨records[index], List.getElem?_eq_getElem short, by simpa using here⟩, ?_⟩
    rintro other less ⟨r, there, same⟩
    obtain ⟨_, rfl⟩ := List.getElem?_eq_some_iff.mp there
    exact before other less (by simpa using same)
  · rintro ⟨⟨r, there, same⟩, before⟩
    obtain ⟨short, rfl⟩ := List.getElem?_eq_some_iff.mp there
    refine ⟨short, by simpa using same, fun other less here => before other less ?_⟩
    exact ⟨records[other], List.getElem?_eq_getElem _, by simpa using here⟩

/-- The first record with a number behind the very first record. -/
theorem position?_tail_eq_some_iff :
    position? id records.tail = some index ↔ IsFirstOf (1 ≤ ·) id records (index + 1) := by
  have shifted : ∀ other,
      IsAtPosition id records.tail other ↔ IsAtPosition id records (other + 1) := by
    intro other
    rw [IsAtPosition, IsAtPosition, List.getElem?_tail]
  rw [position?_eq_some_iff, shifted]
  constructor
  · rintro ⟨there, before⟩
    refine ⟨Nat.le_add_left 1 index, there, fun other less allowed => ?_⟩
    obtain ⟨other, rfl⟩ := Nat.exists_eq_add_of_le' allowed
    exact mt (shifted other).mpr (before other (Nat.lt_of_succ_lt_succ less))
  · rintro ⟨-, there, before⟩
    exact ⟨there, fun other less => mt (shifted other).mp
      (before _ (Nat.succ_lt_succ less) (Nat.le_add_left 1 other))⟩

/-- The first record with a number before the very last record. -/
theorem position?_dropLast_eq_some_iff :
    position? id records.dropLast = some index ↔
      IsFirstOf (· + 1 < records.length) id records index := by
  -- without the last record there are the same positions but for the last one
  have cut : ∀ other, IsAtPosition id records.dropLast other ↔
      other + 1 < records.length ∧ IsAtPosition id records other := by
    intro other
    rw [IsAtPosition, IsAtPosition, List.getElem?_dropLast]
    by_cases inside : other < records.length - 1
    · rw [if_pos inside]
      exact ⟨fun there => ⟨by omega, there⟩, And.right⟩
    · rw [if_neg inside]
      exact ⟨fun ⟨_, missing, _⟩ => absurd missing (by simp), fun there => absurd there.1 (by omega)⟩
  rw [position?_eq_some_iff, cut]
  constructor
  · rintro ⟨⟨allowed, there⟩, before⟩
    exact ⟨allowed, there, fun other less allowed' there' =>
      before other less ((cut other).mpr ⟨allowed', there'⟩)⟩
  · rintro ⟨allowed, there, before⟩
    exact ⟨⟨allowed, there⟩, fun other less here =>
      before other less ((cut other).mp here).1 ((cut other).mp here).2⟩

end Record

namespace Archive

variable {a : Archive} {p : Project} {t s u : FileTree} {dir loc : Location} {id : RecordId}
  {records written : List Record} {content : Bytes} {f g : List Record → Option (List Record)}
  {x : Bool}

theorem movedForward?_eq (id : RecordId) (records : List Record) :
    movedForward? id records
      = (Record.position? id records.tail).map fun index => Record.exchanged index records := by
  induction records with
  | nil => rfl
  | cons r rest ih =>
    cases rest with
    | nil => rfl
    | cons s rest =>
      rw [movedForward?, List.tail_cons]
      by_cases here : s.id = id
      · rw [if_pos here, Record.position?_cons_self here]
        rfl
      · rw [if_neg here, ih, Record.position?_cons_of_ne here, List.tail_cons, Option.map_map,
          Option.map_map]
        simp only [Function.comp_def, Record.exchanged_cons]

theorem movedBack?_eq (id : RecordId) (records : List Record) :
    movedBack? id records
      = (Record.position? id records.dropLast).map fun index => Record.exchanged index records := by
  induction records with
  | nil => rfl
  | cons r rest ih =>
    cases rest with
    | nil => rfl
    | cons s rest =>
      rw [movedBack?, List.dropLast_cons_cons]
      by_cases here : r.id = id
      · rw [if_pos here, Record.position?_cons_self here]
        rfl
      · rw [if_neg here, ih, Record.position?_cons_of_ne here, Option.map_map, Option.map_map]
        simp only [Function.comp_def, Record.exchanged_cons]

/-- A change exchanges two neighbours: the pair that belongs to the first of some positions at which
there is a record with the number. -/
structure ExchangesAt (positions : Nat → Prop) (pair : Nat → Nat) (id : RecordId)
    (f : List Record → Option (List Record)) (records : List Record) : Prop where
  perm : ∀ written, f records = some written → written.Perm records
  iff : ∀ written, f records = some written ↔
    ∃ index, Record.IsFirstOf positions id records index ∧
      written = Record.exchanged (pair index) records

theorem exchangesAt_movedForward? (id : RecordId) (records : List Record) :
    ExchangesAt (1 ≤ ·) (· - 1) id (movedForward? id) records := by
  refine ⟨fun _ made => (exchangesNeighbours_movedForward? id).perm made, fun written => ?_⟩
  rw [movedForward?_eq, Option.map_eq_some_iff]
  constructor
  · rintro ⟨index, found, rfl⟩
    exact ⟨index + 1, Record.position?_tail_eq_some_iff.mp found, rfl⟩
  · rintro ⟨index, first, rfl⟩
    obtain ⟨index, rfl⟩ := Nat.exists_eq_add_of_le' first.allowed
    exact ⟨index, Record.position?_tail_eq_some_iff.mpr first, rfl⟩

theorem exchangesAt_movedBack? (id : RecordId) (records : List Record) :
    ExchangesAt (· + 1 < records.length) (fun index => index) id (movedBack? id) records := by
  refine ⟨fun _ made => (exchangesNeighbours_movedBack? id).perm made, fun written => ?_⟩
  rw [movedBack?_eq, Option.map_eq_some_iff]
  constructor
  · rintro ⟨index, found, rfl⟩
    exact ⟨index, Record.position?_dropLast_eq_some_iff.mp found, rfl⟩
  · rintro ⟨index, first, rfl⟩
    exact ⟨index, Record.position?_dropLast_eq_some_iff.mpr first, rfl⟩

/-! ## There and back -/

theorem mem_tail_of_movedForward? {r : Record} (h : movedForward? id (r :: records) = some written) :
    id ∈ records.map Record.id := by
  refine Decidable.not_not.mp fun missing => ?_
  have none : Record.position? id records = none := by
    rw [Record.position?, List.findIdx?_eq_none_iff]
    intro s listed
    simpa using fun same => missing (List.mem_map.mpr ⟨s, listed, same⟩)
  rw [movedForward?_eq, List.tail_cons, none] at h
  exact absurd h (by simp)

/-- A record that has been moved back is moved forward to where it was. -/
theorem movedForward?_of_movedBack? (hdistinct : (records.map Record.id).Nodup)
    (h : movedBack? id records = some written) : movedForward? id written = some records := by
  induction records generalizing written with
  | nil => exact absurd h (by simp [movedBack?])
  | cons r rest ih =>
    cases rest with
    | nil => exact absurd h (by simp [movedBack?])
    | cons s rest =>
      have perm := (exchangesNeighbours_movedBack? id).perm h
      rw [movedBack?] at h
      by_cases here : r.id = id
      · rw [if_pos here] at h
        obtain rfl := Option.some.inj h
        rw [movedForward?, if_pos here]
      · rw [if_neg here] at h
        obtain ⟨others, made, rfl⟩ := Option.map_eq_some_iff.mp h
        have distinct : ((r :: others).map Record.id).Nodup := (perm.map _).nodup_iff.mpr hdistinct
        have back := ih (List.nodup_cons.mp hdistinct).2 made
        cases others with
        | nil => exact absurd back (by simp [movedForward?])
        | cons next others =>
          -- the record is behind the next one, whose number is another
          have behind := mem_tail_of_movedForward? back
          have differs : next.id ≠ id := by
            rintro rfl
            exact (List.nodup_cons.mp (List.nodup_cons.mp distinct).2).1 behind
          rw [movedForward?, if_neg differs, back]
          rfl

/-- A record that has been moved forward is moved back to where it was. -/
theorem movedBack?_of_movedForward? (hdistinct : (records.map Record.id).Nodup)
    (h : movedForward? id records = some written) : movedBack? id written = some records := by
  induction records generalizing written with
  | nil => exact absurd h (by simp [movedForward?])
  | cons r rest ih =>
    cases rest with
    | nil => exact absurd h (by simp [movedForward?])
    | cons s rest =>
      have behind := mem_tail_of_movedForward? h
      rw [movedForward?] at h
      by_cases next : s.id = id
      · rw [if_pos next] at h
        obtain rfl := Option.some.inj h
        rw [movedBack?, if_pos next]
      · rw [if_neg next] at h
        obtain ⟨others, made, rfl⟩ := Option.map_eq_some_iff.mp h
        obtain ⟨alone, distinct⟩ := List.nodup_cons.mp hdistinct
        have back := ih distinct made
        -- the moved record is behind the first one, which has another number
        have differs : r.id ≠ id := by
          rintro rfl
          exact alone behind
        cases others with
        | nil => exact absurd back (by simp [movedBack?])
        | cons first others =>
          rw [movedBack?, if_neg differs, back]
          rfl

/-! ## Over and past links -/

/-- The path of the temporary file leads neither to the ledger nor over it: if nothing were there, it
would still not lead to that place. -/
def IsBypassed (a : Archive) (p : Project) (t : FileTree) : Prop :=
  ∀ loc, t.locate false (a.ledgerPath p) = .ok loc →
    (t.erase loc).locate true (a.temporaryPath p) ≠ .ok loc

/-- Putting a new ledger in place does not depend on what was there, if the file is written
elsewhere. -/
theorem Replaces.erase {entry : Entry} (h : a.Replaces p records t s dir loc entry)
    (hlocated : (t.erase (dir ++ [ledgerName])).locate true (a.temporaryPath p) = .ok loc)
    (hloc : loc ≠ dir ++ [ledgerName]) :
    a.Replaces p records (t.erase (dir ++ [ledgerName])) s dir loc entry := by
  have notRoot : dir ++ [ledgerName] ≠ [] := by simp
  have apart := Ne.symm (ledger_ne_temporary dir)
  obtain ⟨v, mid, put, found, notDir, gone, final⟩ := h.steps
  refine ⟨hlocated, ?_, v.erase (dir ++ [ledgerName]), mid.erase (dir ++ [ledgerName]),
    put.erase hloc notRoot, ?_, notDir, gone.erase apart notRoot, final.of_erase notRoot⟩
  · rw [find?_erase_of_ne hloc]
    exact h.plain
  · rw [find?_erase_of_ne apart]
    exact found

/-- A ledger that can be read is a file in the directory of its project, or a link to one, so that no
path goes on behind it. -/
structure IsReadIn (a : Archive) (p : Project) (t : FileTree) (dir : Location) : Prop where
  leads : t.LeadsTo (a.projectDir p) dir
  located : t.locate false (a.ledgerPath p) = .ok (dir ++ [ledgerName])
  notDir : t.find? (dir ++ [ledgerName]) ≠ some .directory
  noWay : ∀ dir' name target links left mid, dir ++ [ledgerName] = dir' ++ [name] →
    t.find? (dir ++ [ledgerName]) = some (.link target) →
    ¬ t.Leads links (if target.isAbsolute then [] else dir') target.route left mid

theorem isReadIn_of_load (hs : t.IsSound) (hload : a.load p t = .present records) :
    ∃ dir, a.IsReadIn p t dir := by
  obtain ⟨content, read⟩ := readFile_of_load hload
  obtain ⟨place, located, found⟩ := readFile_eq_ok_iff.mp read
  have walkable := (walk_of_locateNames located).1
  rw [ledgerPath_eq_join] at located
  obtain ⟨dir, left, led, last⟩ := locate_join isComponent_ledgerName located
  -- a link that leads to a directory could not have been read as a ledger
  refine ⟨dir, led, ?_, fun isDir => ?_, fun dir' name target links left mid same isLink way => ?_⟩
  · rw [ledgerPath_eq_join] at walkable ⊢
    exact led.locate_join isComponent_ledgerName walkable short_ledgerName
  · rw [walk_directory isStep_ledgerName isDir, walk_nil] at last
    obtain rfl := Except.ok.inj last
    exact absurd (found.symm.trans isDir) (by simp)
  · obtain ⟨rfl, -⟩ := List.append_inj' same rfl
    have unreadable := isUnreadable_of_link hs walkable led isLink way
    rw [hload] at unreadable
    exact absurd unreadable (by simp [LedgerState.isUnreadable])

/-- The tree without its ledger. -/
theorem setAt_erase_ledger (dir : Location) (t : FileTree) :
    t.SetAt (dir ++ [ledgerName]) none (t.erase (dir ++ [ledgerName])) :=
  setAt_erase (by simp) t

theorem isPlain_erase_ledger (dir : Location) (t : FileTree) :
    IsPlain ((t.erase (dir ++ [ledgerName])).find? (dir ++ [ledgerName])) := by
  rw [(setAt_erase_ledger dir t).here]
  exact isPlain_none

namespace IsReadIn

theorem isSound_erase (h : a.IsReadIn p t dir) (hs : t.IsSound) :
    (t.erase (dir ++ [ledgerName])).IsSound :=
  hs.setAt (setAt_erase_ledger dir t) h.notDir fun present => absurd rfl present

theorem keepsBut (dir : Location) (t : FileTree) :
    KeepsBut (dir ++ [ledgerName]) t (t.erase (dir ++ [ledgerName])) := by
  intro other elsewhere
  rw [(setAt_erase_ledger dir t).elsewhere other elsewhere]
  exact ⟨id, fun _ => id⟩

/-- The directory of the project does not depend on the ledger. -/
theorem leadsTo_erase (h : a.IsReadIn p t dir) :
    (t.erase (dir ++ [ledgerName])).LeadsTo (a.projectDir p) dir := by
  obtain ⟨left, way⟩ := h.leads
  rcases way.keepBut (keepsBut dir t) h.notDir with led | ⟨dir', name, target, _, _, _, same, isLink,
    passed⟩
  · exact ⟨left, led⟩
  · exact absurd passed (h.noWay dir' name target _ _ _ same isLink)

/-- Past the ledger the path of the temporary file leads where it would lead without it. -/
theorem locate_temporary (h : a.IsReadIn p t dir) (hbypassed : a.IsBypassed p t)
    (hlocated : t.locate true (a.temporaryPath p) = .ok loc) :
    (t.erase (dir ++ [ledgerName])).locate true (a.temporaryPath p) = .ok loc ∧
      loc ≠ dir ++ [ledgerName] := by
  have past := hbypassed _ h.located
  have same : (t.erase (dir ++ [ledgerName])).locate true (a.temporaryPath p) = .ok loc := by
    obtain ⟨walkable, walked⟩ := walk_of_locateNames hlocated
    rw [locate, locateNames_eq_walk walkable] at past ⊢
    rcases walk_of_gone walked (setAt_erase_ledger dir t) h.notDir h.noWay with walked' | passed
    · exact walked'
    · exact absurd passed past
  refine ⟨same, ?_⟩
  rintro rfl
  exact past same

/-- If the path of the temporary file leads past the ledger, the same is written as if nothing had been
in its place, and the directory of the project is where it was. -/
theorem replaces {y : Unit} (h : a.IsReadIn p t dir) (hs : t.IsSound)
    (hbypassed : a.IsBypassed p t) (hrun : a.persist p written t = .ok y s) :
    s.LeadsTo (a.projectDir p) dir ∧
      ∃ loc entry, a.Replaces p written (t.erase (dir ++ [ledgerName])) s dir loc entry ∧
        loc ≠ dir ++ [ledgerName] := by
  obtain ⟨loc, entry, replaces⟩ := replaces_of_persist hs h.leads hrun
  obtain ⟨located, apart⟩ := h.locate_temporary hbypassed replaces.located
  have replaces' := replaces.erase located apart
  obtain ⟨left, way⟩ := h.leadsTo_erase
  exact ⟨⟨left, replaces'.leads (h.isSound_erase hs) ⟨left, way⟩ (isPlain_erase_ledger dir t) way⟩,
    loc, entry, replaces', apart⟩

end IsReadIn

/-- Records that are written to a ledger that could be read, which may be a link, are what is read
afterwards, if the path of the temporary file leads past it. -/
theorem readFile_of_bypassed {y : Unit} (hs : t.IsSound) (hload : a.load p t = .present records)
    (hbypassed : a.IsBypassed p t) (hrun : a.persist p written t = .ok y s) :
    s.readFile (a.ledgerPath p) = .ok (Record.document written) ∧ s.IsSound ∧
      a.HasPlainFiles p s := by
  obtain ⟨dir, h⟩ := isReadIn_of_load hs hload
  obtain ⟨led, loc, entry, replaces, apart⟩ := h.replaces hs hbypassed hrun
  refine ⟨replaces.readFile (h.isSound_erase hs) h.leadsTo_erase (isPlain_erase_ledger dir t) apart,
    isSound_of_persist hs hrun, ?_⟩
  intro other would target
  obtain rfl := led.eq_of_would would
  exact ⟨by simp [replaces.temporary], fun _ => led⟩

/-- The path of a temporary file that is no link leads past the ledger. -/
theorem isBypassed_of_noLink (h : a.HasNoTemporaryLink p t) : a.IsBypassed p t := by
  intro loc located passing
  have walkable := (walk_of_locateNames passing).1
  rw [ledgerPath_eq_join] at located
  obtain ⟨dir, left, led, last⟩ := locate_join isComponent_ledgerName located
  obtain rfl := eq_of_walk_one_false isComponent_ledgerName.isName last
  have gone := setAt_erase_ledger dir t
  -- without the ledger there are no more ways than with it
  have back : KeepsBut (dir ++ [ledgerName]) (t.erase (dir ++ [ledgerName])) t := by
    intro other elsewhere
    rw [gone.elsewhere other elsewhere]
    exact ⟨id, fun _ => id⟩
  rw [temporaryPath_eq_join] at passing
  obtain ⟨dir', left', ⟨left'', way⟩, last'⟩ := locate_join isComponent_temporaryName passing
  rcases way.keepBut back (by simp [gone.here]) with led' | ⟨_, _, _, _, _, _, -, isLink, -⟩
  · obtain rfl : dir' = dir := led.unique ⟨left'', led'⟩ (.refl t)
    have noLink := h.find?_ne_link led walkable
    rw [← gone.elsewhere _ (Ne.symm (ledger_ne_temporary dir'))] at noLink
    exact ledger_ne_temporary dir' (eq_of_walk_one isComponent_temporaryName.isName noLink last')
  · exact absurd (gone.here.symm.trans isLink) (by simp)

/-! ## Moves -/

/-- An update that may change the records writes what it made of them, or it makes nothing of them and
leaves the tree as it is. -/
theorem move_eq_ok (hload : a.load p t = .present records)
    (hrun : a.update p (fun listed => pure (commitIf (f listed))) t = .ok x s) :
    (f records = none ∧ x = false ∧ s = t) ∨
      ∃ written, f records = some written ∧ x = true ∧ a.persist p written t = .ok () s := by
  rw [update_eq, hload] at hrun
  obtain ⟨commit, u, changed, settled⟩ := ok_of_run_bind hrun
  obtain ⟨rfl, rfl⟩ := EStateM.Result.ok.inj changed
  cases made : f records with
  | none =>
    rw [LedgerState.records, made] at settled
    obtain ⟨rfl, rfl⟩ := EStateM.Result.ok.inj settled
    exact .inl ⟨rfl, rfl, rfl⟩
  | some written =>
    rw [LedgerState.records, made] at settled
    obtain ⟨rfl, v, ⟨-, rfl⟩ | ⟨unreadable, -⟩, persisted⟩ := settle_write_eq_ok settled
    · exact .inr ⟨written, rfl, rfl, persisted⟩
    · exact absurd unreadable (by simp [LedgerState.isUnreadable])

/-- Where no records are listed none is moved. -/
theorem move_of_not_present (hload : (a.load p t).records = []) (hf : f [] = none) :
    a.update p (fun listed => pure (commitIf (f listed))) t = .ok false t := by
  rw [update_eq, hload, hf]
  rfl

/-- What a move answers and leaves: it is made if there is a record with the number at one of the
positions, and then the first such record and its neighbour have changed places. -/
structure Exchanges (a : Archive) (p : Project) (positions : Nat → Prop) (pair : Nat → Nat)
    (id : RecordId) (records : List Record) (t : FileTree) (x : Bool) (s : FileTree) : Prop where
  moved : x = true ↔ ∃ index, positions index ∧ Record.IsAtPosition id records index
  exchanged : a.IsBypassed p t → ∀ index, Record.IsFirstOf positions id records index →
    a.load p s = .present (Record.exchanged (pair index) records)
  unchanged : x = false → s = t

/-- Records that have been written are read back if those that were there will be. -/
theorem load_of_moved {y : Unit} (hs : t.IsSound) (hload : a.load p t = .present records)
    (hlasting : ∀ r ∈ records, r.reread = some r) (hbypassed : a.IsBypassed p t)
    (hperm : written.Perm records) (hrun : a.persist p written t = .ok y s) :
    a.load p s = .present written ∧ s.IsSound ∧ a.HasPlainFiles p s := by
  obtain ⟨read, sound, plain⟩ := readFile_of_bypassed hs hload hbypassed hrun
  refine ⟨?_, sound, plain⟩
  rw [load_of_readFile read, afterWriting_eq_present_iff]
  exact fun r hr => hlasting r (hperm.mem_iff.mp hr)

theorem exchanges_of_update {positions : Nat → Prop} {pair : Nat → Nat} (hs : t.IsSound)
    (hload : a.load p t = .present records) (hlasting : ∀ r ∈ records, r.reread = some r)
    (hf : ExchangesAt positions pair id f records)
    (hrun : a.update p (fun listed => pure (commitIf (f listed))) t = .ok x s) :
    a.Exchanges p positions pair id records t x s := by
  rcases move_eq_ok hload hrun with ⟨none, rfl, rfl⟩ | ⟨written, made, rfl, persisted⟩
  · have nowhere : ∀ index, ¬ Record.IsFirstOf positions id records index := fun index first =>
      absurd (none.symm.trans ((hf.iff _).mpr ⟨index, first, rfl⟩)) (by simp)
    refine ⟨⟨fun moved => absurd moved (by simp), fun there => ?_⟩,
      fun _ index first => absurd first (nowhere index), fun _ => rfl⟩
    obtain ⟨index, first⟩ := Record.exists_isFirstOf_iff.mpr there
    exact absurd first (nowhere index)
  · obtain ⟨index, first, -⟩ := (hf.iff _).mp made
    refine ⟨⟨fun _ => ⟨index, first.allowed, first.there⟩, fun _ => rfl⟩,
      fun bypassed index first => ?_, fun kept => absurd kept (by simp)⟩
    obtain rfl := Option.some.inj (made.symm.trans ((hf.iff _).mpr ⟨index, first, rfl⟩))
    exact (load_of_moved hs hload hlasting bypassed (hf.perm _ made) persisted).1

/-- A move that is made and then undone leaves the records that were there. -/
theorem load_of_undone {y : Bool} (hs : t.IsSound) (hload : a.load p t = .present records)
    (hlasting : ∀ r ∈ records, r.reread = some r) (hbypassed : a.IsBypassed p t)
    (hundo : ∀ written, f records = some written →
      written.Perm records ∧ g written = some records)
    (hrun : a.update p (fun listed => pure (commitIf (f listed))) t = .ok true s)
    (hback : a.update p (fun listed => pure (commitIf (g listed))) s = .ok y u) :
    y = true ∧ a.load p u = .present records := by
  rcases move_eq_ok hload hrun with ⟨-, kept, -⟩ | ⟨written, made, -, persisted⟩
  · exact absurd kept (by simp)
  obtain ⟨perm, undone⟩ := hundo written made
  obtain ⟨loaded, sound, plain⟩ := load_of_moved hs hload hlasting hbypassed perm persisted
  rcases move_eq_ok loaded hback with ⟨none, -⟩ | ⟨again, made', rfl, persisted'⟩
  · exact absurd (undone.symm.trans none) (by simp)
  obtain rfl := Option.some.inj (undone.symm.trans made')
  -- nothing is left of the temporary file, so that the second time no link is in the way
  have readable : (a.load p s).isUnreadable = false := by
    rw [loaded]
    rfl
  refine ⟨rfl, ?_⟩
  rw [load_of_persist sound readable plain ⟨sound, .refl s⟩ persisted',
    afterWriting_eq_present_iff]
  exact hlasting

/-- A move says whether there is a record with the number that has a neighbour to change places with,
and then has made it change places with the first such record, unless the path of the temporary file
leads over the ledger; otherwise it changes nothing. Among records with different numbers a move the
other way puts everything back. -/
theorem moves_exchange_neighbours (hs : t.IsSound) :
    (∀ records, a.load p t = .present records →
      (∀ r ∈ records, ∀ n ∈ (Json.Value.object r.taskData).numbers, n.isWord = true) →
      (∀ id x s, a.moveForward p id t = .ok x s →
        a.Exchanges p (1 ≤ ·) (· - 1) id records t x s) ∧
      (∀ id x s, a.moveBack p id t = .ok x s →
        a.Exchanges p (· + 1 < records.length) (fun index => index) id records t x s) ∧
      ((records.map Record.id).Nodup → a.IsBypassed p t →
        (∀ id s, a.moveBack p id t = .ok true s → ∀ x u, a.moveForward p id s = .ok x u →
          x = true ∧ a.load p u = .present records) ∧
        ∀ id s, a.moveForward p id t = .ok true s → ∀ x u, a.moveBack p id s = .ok x u →
          x = true ∧ a.load p u = .present records)) ∧
    ((∀ records, a.load p t ≠ .present records) → ∀ id,
      a.moveForward p id t = .ok false t ∧ a.moveBack p id t = .ok false t) := by
  refine ⟨fun records hload hnumbers => ?_, fun hnone id => ?_⟩
  · have lasting := reread_of_load hload hnumbers
    refine ⟨fun id x s hrun => ?_, fun id x s hrun => ?_, fun distinct bypassed =>
      ⟨fun id s hrun x u hback => ?_, fun id s hrun x u hback => ?_⟩⟩
    · exact exchanges_of_update hs hload lasting (exchangesAt_movedForward? id records) hrun
    · exact exchanges_of_update hs hload lasting (exchangesAt_movedBack? id records) hrun
    · refine load_of_undone hs hload lasting bypassed (fun written made => ?_) hrun hback
      exact ⟨(exchangesNeighbours_movedBack? id).perm made, movedForward?_of_movedBack? distinct made⟩
    · refine load_of_undone hs hload lasting bypassed (fun written made => ?_) hrun hback
      exact ⟨(exchangesNeighbours_movedForward? id).perm made,
        movedBack?_of_movedForward? distinct made⟩
  · have nothing : (a.load p t).records = [] := by
      cases hload : a.load p t with
      | present records => exact absurd hload (hnone records)
      | _ => rfl
    exact ⟨move_of_not_present nothing rfl, move_of_not_present nothing rfl⟩

/-- A results directory with a ledger of two records. -/
def listedResults : FileTree where
  entries := [(["results"], .directory),
    (["results", "history.json"], .file (Record.document blockedRecords))]
  workingDirectory := []

theorem isSound_listedResults : listedResults.IsSound := isSound_of_entries (by decide) rfl

theorem load_listedResults : results.load .global listedResults = .present blockedRecords :=
  load_of_readFile_blockedRecords rfl

theorem words_blockedRecords :
    ∀ r ∈ blockedRecords, ∀ n ∈ (Json.Value.object r.taskData).numbers, n.isWord = true := by
  decide

/-- A change of the records is written in the results directory if nothing is in the way. -/
theorem move_results (hs : t.IsSound) (hworking : t.workingDirectory = [])
    (hup : t.find? ["results"] = some .directory)
    (htemporary : IsPlain (t.find? ["results", "history.json.tmp"]))
    (hledger : t.find? ["results", "history.json"] ≠ some .directory)
    (hload : results.load .global t = .present records) (hmade : f records = some written) :
    results.update .global (fun listed => pure (commitIf (f listed))) t
      = .ok true (replacedResults t (Record.document written)) := by
  have readable : (results.load .global t).isUnreadable = false := by
    rw [hload]
    rfl
  refine update_of_persist readable ?_ (persist_results hs hworking hup htemporary hledger written)
  rw [hload, LedgerState.records, hmade]
  rfl

theorem moves_exchange_neighbours_listedResults :
    listedResults.IsSound ∧ results.load .global listedResults = .present blockedRecords ∧
      results.IsBypassed .global listedResults ∧
      ∃ s u, results.moveBack .global 1 listedResults = .ok true s ∧
        results.load .global s = .present blockedRecords.reverse ∧
        results.moveForward .global 1 s = .ok true u ∧
        results.load .global u = .present blockedRecords ∧
        results.moveForward .global 1 emptyResults = .ok false emptyResults := by
  have missing : listedResults.statLink (results.temporaryPath .global) = .error .notFound := rfl
  have bypassed : results.IsBypassed .global listedResults :=
    isBypassed_of_noLink fun target isLink => absurd (missing.symm.trans isLink) (by simp)
  have moved : movedBack? 1 blockedRecords = some blockedRecords.reverse := rfl
  have run := move_results isSound_listedResults rfl rfl isPlain_none (by decide)
    load_listedResults moved
  obtain ⟨-, back, round⟩ := (moves_exchange_neighbours isSound_listedResults).1 blockedRecords
    load_listedResults words_blockedRecords
  have first : Record.IsFirstOf (· + 1 < blockedRecords.length) 1 blockedRecords 0 :=
    ⟨by decide, ⟨_, rfl, rfl⟩, fun other less => absurd less (by simp)⟩
  have loaded := (back 1 true _ run).exchanged bypassed 0 first
  have sound : (replacedResults listedResults (Record.document blockedRecords.reverse)).IsSound :=
    isSound_of_entries (by decide) rfl
  have again := move_results (f := movedForward? 1) sound rfl rfl isPlain_none (by decide) loaded rfl
  have absent : ∀ listed, results.load .global emptyResults ≠ .present listed := by
    rw [load_eq_absent rfl]
    simp
  exact ⟨isSound_listedResults, load_listedResults, bypassed, _, _, run, loaded, again,
    ((round (by decide) bypassed).1 1 _ run true _ again).2,
    ((moves_exchange_neighbours isAt_emptyResults.sound).2 absent 1).1⟩

/-! ## Over the ledger -/

/-- Where the temporary file is a link, records are written to the file that it leads to, and the link
takes the place of the ledger. -/
theorem persist_over_link {target : FilePath} (hs : t.IsSound) (hworking : t.workingDirectory = [])
    (hup : t.find? ["results"] = some .directory)
    (hlink : t.find? ["results", "history.json.tmp"] = some (.link target))
    (hledger : t.find? ["results", "history.json"] ≠ some .directory)
    (hlocated : t.locate true (results.temporaryPath .global) = .ok loc)
    (hloc : t.find? loc ≠ some .directory) (records : List Record) :
    ∃ s, results.persist .global records t = .ok () s ∧
      results.Replaces .global records t s ["results"] loc (.link target) := by
  have led : t.LeadsTo (results.projectDir .global) ["results"] :=
    ⟨mostLinks, leads_results hworking hup⟩
  have made := makeDirs_of_leadsTo hs led (by decide)
  have written := writeFile_of_locate hlocated hloc (Record.document records)
  obtain ⟨s, renamed⟩ := rename_temporary hs led hledger written
  have persisted := persist_of_steps made written renamed
  refine ⟨s, persisted, ?_⟩
  obtain ⟨place, entry, h⟩ := replaces_of_persist hs led persisted
  obtain rfl := Except.ok.inj (hlocated.symm.trans h.located)
  rcases h.eq_or_link led with ⟨rfl, -⟩ | ⟨target', -, found, rfl, -⟩
  · exact absurd hlink (h.plain.2 _)
  · obtain rfl := Entry.link.inj (Option.some.inj (found.symm.trans hlink))
    exact h

/-- Where the temporary file is a link to the ledger, writing records makes the ledger a link to
itself. -/
theorem unreadable_of_persist_over_link (hs : t.IsSound) (hworking : t.workingDirectory = [])
    (hup : t.find? ["results"] = some .directory)
    (hlink : t.find? ["results", "history.json.tmp"] = some (.link ⟨"history.json"⟩))
    (hledger : t.find? ["results", "history.json"] ≠ some .directory)
    (hlocated : t.locate true (results.temporaryPath .global) = .ok loc)
    (hloc : t.find? loc ≠ some .directory) (records : List Record) :
    ∃ s, results.persist .global records t = .ok () s ∧ results.load .global s = .unreadable := by
  obtain ⟨s, persisted, h⟩ :=
    persist_over_link hs hworking hup hlink hledger hlocated hloc records
  refine ⟨s, persisted, ?_⟩
  -- the link takes the place of the ledger, and it leads there
  have isLink : s.find? ["results", "history.json"] = some (.link ⟨"history.json"⟩) := h.ledger
  have up : s.find? ["results"] = some .directory := by
    rw [h.elsewhere ?_ (by decide) (by decide), hup]
    rintro rfl
    exact h.plain.1 hup
  have names : (results.ledgerPath .global).names = ["results", "history.json"] := rfl
  have start : s.start (results.ledgerPath .global) = [] := h.working.trans hworking
  have located : s.locate true (results.ledgerPath .global) = .error .tooManyLinks := by
    rw [locate, locateNames_eq_walk (by decide), names, start,
      walk_directory (by decide) up]
    exact walk_link_to_itself isStep_ledgerName isLink rfl rfl mostLinks
  exact load_eq_unreadable (readFile_of_error located) (by simp)

/-- A link to another entry of the same directory is followed to that entry. -/
theorem walk_link_beside {name other : String} {links : Nat} (hname : IsStep name)
    (hlink : t.find? (dir ++ [name]) = some (.link ⟨other⟩)) (hother : FilePath.IsComponent other) :
    t.walk true (links + 1) dir [name] = t.walk true links dir [other] := by
  have relative : FilePath.isAbsolute ⟨other⟩ = false := by
    simpa [FilePath.isAbsolute] using FilePath.head?_ne_slash hother
  rw [walk_link hname hlink (.inr rfl), jump, relative, FilePath.route_component hother]
  rfl

/-- A results directory with a ledger of two records, and a link to it in the place of the temporary
file. -/
def linkedRecords : FileTree where
  entries := [(["results"], .directory),
    (["results", "history.json"], .file (Record.document blockedRecords)),
    (["results", "history.json.tmp"], .link ⟨"history.json"⟩)]
  workingDirectory := []

/-- A results directory with a ledger that is itself a link, and a link to that one in the place of
the temporary file. -/
def chainedRecords : FileTree where
  entries := [(["results"], .directory),
    (["results", "records.json"], .file (Record.document blockedRecords)),
    (["results", "history.json"], .link ⟨"records.json"⟩),
    (["results", "history.json.tmp"], .link ⟨"history.json"⟩)]
  workingDirectory := []

theorem isComponent_recordsName : FilePath.IsComponent "records.json" := by decide

/-- The path of the ledger leads over it to the records. -/
theorem locate_ledger_chainedRecords :
    chainedRecords.locate true (results.ledgerPath .global) = .ok ["results", "records.json"] := by
  have file : chainedRecords.find? ["results", "records.json"]
      = some (.file (Record.document blockedRecords)) := rfl
  rw [ledgerPath_eq_join]
  exact locate_link_results rfl rfl isComponent_ledgerName (by decide)
    short_ledgerName rfl isComponent_recordsName (by decide) (by simp [file])

/-- The path of the temporary file leads over the ledger to the records. -/
theorem locate_temporary_chainedRecords :
    chainedRecords.locate true (results.temporaryPath .global)
      = .ok ["results", "records.json"] := by
  have plain : IsPlain (chainedRecords.find? (["results"] ++ ["records.json"])) :=
    isPlain_file (Record.document blockedRecords)
  have way : chainedRecords.Leads mostLinks _ _ mostLinks ["results"] := leads_results rfl rfl
  rw [temporaryPath_eq_join, way.locate_join isComponent_temporaryName
    (by decide), show mostLinks = 38 + 1 + 1 from rfl,
    walk_link_beside (by decide) rfl isComponent_ledgerName,
    walk_link_beside (by decide) rfl isComponent_recordsName]
  exact walk_plain (by decide) plain

/-- A move that answers true makes the ledger unreadable if the path of the temporary file leads to
it or over it. -/
theorem unreadable_of_moveBack_over_link :
    (results.load .global linkedRecords = .present blockedRecords ∧
      ∃ s, results.moveBack .global 1 linkedRecords = .ok true s ∧
        results.load .global s = .unreadable) ∧
    results.load .global chainedRecords = .present blockedRecords ∧
      ∃ s, results.moveBack .global 1 chainedRecords = .ok true s ∧
        results.load .global s = .unreadable := by
  have move : ∀ {t} loc, t.IsSound → t.workingDirectory = [] →
      t.find? ["results"] = some .directory →
      t.find? ["results", "history.json.tmp"] = some (.link ⟨"history.json"⟩) →
      t.find? ["results", "history.json"] ≠ some .directory →
      t.locate true (results.temporaryPath .global) = .ok loc → t.find? loc ≠ some .directory →
      results.load .global t = .present blockedRecords →
      ∃ s, results.moveBack .global 1 t = .ok true s ∧ results.load .global s = .unreadable := by
    intro t loc hs hworking hup hlink hledger hlocated hloc hload
    obtain ⟨s, persisted, lost⟩ := unreadable_of_persist_over_link hs hworking hup hlink hledger
      hlocated hloc blockedRecords.reverse
    have readable : (results.load .global t).isUnreadable = false := by
      rw [hload]
      rfl
    refine ⟨s, update_of_persist readable ?_ persisted, lost⟩
    rw [hload]
    rfl
  have linked : results.load .global linkedRecords = .present blockedRecords :=
    load_of_readFile_blockedRecords rfl
  have chained : results.load .global chainedRecords = .present blockedRecords :=
    load_of_readFile_blockedRecords
      (readFile_eq_ok_iff.mpr ⟨_, locate_ledger_chainedRecords, rfl⟩)
  refine ⟨⟨linked, move ["results", "history.json"] ?_ rfl rfl rfl (by decide) ?_ (by decide)
    linked⟩, chained, move _ ?_ rfl rfl rfl (by decide) locate_temporary_chainedRecords (by decide)
    chained⟩
  · exact isSound_of_entries (by decide) rfl
  · have file : linkedRecords.find? ["results", "history.json"]
        = some (.file (Record.document blockedRecords)) := rfl
    rw [temporaryPath_eq_join]
    exact locate_link_results rfl rfl isComponent_temporaryName (by decide)
      short_temporaryName rfl isComponent_ledgerName short_ledgerName (by simp [file])
  · exact isSound_of_entries (by decide) rfl

end Archive

end ImageGateway
