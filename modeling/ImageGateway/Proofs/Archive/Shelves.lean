import ImageGateway.Proofs.Archive.Changes
import Mathlib.Logic.Function.Basic

/-!
# Ledgers as lists of records

What the programs of the archive do to the records of a project is what one would do to a plain list:
exchange a record with its neighbour, take it out, empty the list, or put new records at the end
(`carries_moveForward`, `carries_moveBack`, `carries_remove`, `carries_clear`, `Holds.recordBatch`).
A program that fails does nothing to any list.
-/

set_option autoImplicit false

namespace ImageGateway

open Storage Storage.FileTree

/-! ## Lists of records -/

namespace Record

variable {id : RecordId} {r s : Record} {records written : List Record} {index : Nat}

/-- The records with one of them and the next one in each other's place. -/
def exchanged (index : Nat) (records : List Record) : List Record :=
  match records[index]?, records[index + 1]? with
  | some r, some s => (records.set index s).set (index + 1) r
  | _, _ => records

/-- Where the record with a number is. -/
def position? (id : RecordId) (records : List Record) : Option Nat :=
  records.findIdx? fun r => r.id == id

/-- The records with one of them exchanged with the one before it, if there is one. -/
def broughtForward (id : RecordId) (records : List Record) : List Record :=
  match position? id records with
  | some (index + 1) => exchanged index records
  | _ => records

/-- The records with one of them exchanged with the one after it, if there is one. -/
def broughtBack (id : RecordId) (records : List Record) : List Record :=
  match position? id records with
  | some index => exchanged index records
  | none => records

/-- The records without the one that has a number. -/
def erased (id : RecordId) (records : List Record) : List Record :=
  records.eraseP fun r => r.id == id

/-- The highest number among records, or zero. -/
def highest (records : List Record) : Nat := (records.map fun r => r.id.toNat).foldl max 0

theorem exchanged_cons : exchanged (index + 1) (r :: records) = r :: exchanged index records := by
  simp only [exchanged, List.getElem?_cons_succ]
  cases records[index]? <;> cases records[index + 1]? <;> rfl

theorem position?_cons_self (h : r.id = id) : position? id (r :: records) = some 0 := by
  simp [position?, List.findIdx?_cons, h]

theorem position?_cons_of_ne (h : r.id ≠ id) :
    position? id (r :: records) = (position? id records).map (· + 1) := by
  simp [position?, List.findIdx?_cons, h]

theorem broughtForward_cons_of_ne (h : r.id ≠ id) (hs : s.id ≠ id) :
    broughtForward id (r :: s :: records) = r :: broughtForward id (s :: records) := by
  rw [broughtForward, position?_cons_of_ne h, broughtForward, position?_cons_of_ne hs]
  cases position? id records with
  | none => rfl
  | some index => exact exchanged_cons

theorem broughtBack_cons_of_ne (h : r.id ≠ id) :
    broughtBack id (r :: records) = r :: broughtBack id records := by
  rw [broughtBack, position?_cons_of_ne h, broughtBack]
  cases position? id records with
  | none => rfl
  | some index => exact exchanged_cons

end Record

namespace Archive

variable {a : Archive} {p q : Project} {t s : FileTree} {root : Location} {id : RecordId}
  {records written : List Record} {α : Type}

theorem movedForward?_eq_none (h : id ∉ records.map Record.id) :
    movedForward? id records = none := by
  induction records with
  | nil => rfl
  | cons r rest ih =>
    cases rest with
    | nil => rfl
    | cons s rest =>
      rw [List.map_cons, List.mem_cons, not_or] at h
      have other : s.id ≠ id := fun same => h.2 (same ▸ List.mem_cons_self)
      rw [movedForward?, if_neg other, ih h.2]
      rfl

/-- A record whose number no other has is moved to the front as one would do it by hand. -/
theorem movedForward?_getD (hdistinct : (records.map Record.id).Nodup) :
    (movedForward? id records).getD records = Record.broughtForward id records := by
  induction records with
  | nil => rfl
  | cons r rest ih =>
    rw [List.map_cons, List.nodup_cons] at hdistinct
    obtain ⟨alone, distinct⟩ := hdistinct
    cases rest with
    | nil =>
      by_cases here : r.id = id
      · rw [Record.broughtForward, Record.position?_cons_self here]
        rfl
      · rw [Record.broughtForward, Record.position?_cons_of_ne here]
        rfl
    | cons s rest =>
      rw [movedForward?]
      by_cases here : r.id = id
      · -- the first record stays where it is, and no other has its number
        have gone : id ∉ (s :: rest).map Record.id := here ▸ alone
        have missing := movedForward?_eq_none gone
        have other : s.id ≠ id := fun same => gone (same ▸ List.mem_cons_self)
        rw [if_neg other, missing, Record.broughtForward, Record.position?_cons_self here]
        rfl
      · by_cases next : s.id = id
        · rw [if_pos next, Record.broughtForward, Record.position?_cons_of_ne here,
            Record.position?_cons_self next]
          rfl
        · rw [if_neg next, Record.broughtForward_cons_of_ne here next, ← ih distinct]
          cases movedForward? id (s :: rest) <;> rfl

theorem movedBack?_getD : (movedBack? id records).getD records = Record.broughtBack id records := by
  induction records with
  | nil => rfl
  | cons r rest ih =>
    cases rest with
    | nil =>
      by_cases here : r.id = id
      · rw [Record.broughtBack, Record.position?_cons_self here]
        rfl
      · rw [Record.broughtBack, Record.position?_cons_of_ne here]
        rfl
    | cons s rest =>
      rw [movedBack?]
      by_cases here : r.id = id
      · rw [if_pos here, Record.broughtBack, Record.position?_cons_self here]
        rfl
      · rw [if_neg here, Record.broughtBack_cons_of_ne here, ← ih]
        cases movedBack? id (s :: rest) <;> rfl

theorem without?_getD : (without? id records).getD records = Record.erased id records := by
  induction records with
  | nil => rfl
  | cons r rest ih =>
    rw [without?]
    by_cases here : r.id = id
    · rw [if_pos here, Record.erased, List.eraseP_cons_of_pos (by simpa using here)]
      rfl
    · rw [if_neg here, Record.erased, List.eraseP_cons_of_neg (by simpa using here),
        ← Record.erased, ← ih]
      cases without? id rest <;> rfl

/-! ## Ledgers that hold given records -/

/-- The records of each project. -/
abbrev Shelves := Project → List Record

/-- The ledgers of the projects hold given records, none of them twice, and will do so when they are
read again. -/
structure Holds (a : Archive) (root : Location) (shelves : Shelves) (t : FileTree) : Prop where
  isAt : a.IsAt root t
  records : ∀ p, (a.load p t).records = shelves p
  lasting : ∀ p, ∀ r ∈ shelves p, r.reread = some r
  distinct : ∀ p, ((shelves p).map Record.id).Nodup

variable {shelves : Shelves}

/-- What is done for one project is different for this project only. -/
theorem Holds.change (h : a.Holds root shelves t)
    (after : s.IsSound ∧ a.Touches p IsOwnName t s) (hrecords : (a.load p s).records = records)
    (hlasting : ∀ r ∈ records, r.reread = some r) (hdistinct : (records.map Record.id).Nodup) :
    a.Holds root (Function.update shelves p records) s := by
  refine ⟨h.isAt.of_touches after, fun q => ?_, fun q => ?_, fun q => ?_⟩
  all_goals by_cases here : q = p
  · subst here
    rw [hrecords, Function.update_self]
  · rw [load_of_touches h.isAt after.1 after.2 (fun _ own => own) (.inl here),
      Function.update_of_ne here]
    exact h.records q
  · subst here
    rwa [Function.update_self]
  · rw [Function.update_of_ne here]
    exact h.lasting q
  · subst here
    rwa [Function.update_self]
  · rw [Function.update_of_ne here]
    exact h.distinct q

/-- A ledger with the same records as before holds what it held. -/
theorem Holds.keep (h : a.Holds root shelves t) (after : s.IsSound ∧ a.Touches p IsOwnName t s)
    (hrecords : (a.load p s).records = (a.load p t).records) : a.Holds root shelves s := by
  have kept := h.change after (hrecords.trans (h.records p)) (h.lasting p) (h.distinct p)
  rwa [Function.update_eq_self] at kept

/-- A program that failed has left the ledger as it was, or has moved an unreadable one aside, which
counted as empty. -/
theorem Holds.fail (h : a.Holds root shelves t) (after : s.IsSound ∧ a.Touches p IsOwnName t s)
    (hleft : a.IsLeft p t s) : a.Holds root shelves s := by
  refine h.keep after ?_
  rcases hleft with same | ⟨unreadable, gone⟩
  · rw [same]
  · rw [gone]
    cases hload : a.load p t with
    | present records =>
      rw [hload] at unreadable
      exact absurd unreadable (by simp [LedgerState.isUnreadable])
    | _ => rfl

theorem Holds.write (h : a.Holds root shelves t)
    (after : s.IsSound ∧ a.Touches p IsOwnName t s) (hload : a.load p s = afterWriting written)
    (hlasting : ∀ r ∈ written, r.reread = some r) (hdistinct : (written.map Record.id).Nodup) :
    a.Holds root (Function.update shelves p written) s := by
  refine h.change after ?_ hlasting hdistinct
  rw [hload, afterWriting, Json.mapM_eq_some_self hlasting]
  rfl

/-- Where nothing is in the results directory, there are no records. -/
theorem holds_of_empty (hs : t.IsSound) (hroot : t.LeadsTo a.root root)
    (hempty : ∀ loc, root <+: loc → loc ≠ root → t.find? loc = none) :
    a.Holds root (fun _ => []) t := by
  have isAt : a.IsAt root t :=
    ⟨hs, hroot, fun loc target below differs => by simp [hempty loc below differs]⟩
  refine ⟨isAt, fun p => ?_, fun p r hr => absurd hr List.not_mem_nil, fun p => List.nodup_nil⟩
  delta load
  cases hread : t.readFile (a.ledgerPath p) with
  | error fault => cases fault <;> rfl
  | ok content =>
    obtain ⟨loc, located, found⟩ := readFile_eq_ok_iff.mp hread
    rw [ledgerPath_eq_join] at located
    obtain ⟨dir, led, rfl, -⟩ := locate_own isAt.hasNoLinks isComponent_ledgerName located
    obtain rfl := isAt.eq_place led
    have missing := hempty _ (p.isPrefix_place_append root ledgerName) fun same =>
      Project.place_append_ne_place isOwnName_ledgerName p .global root same
    exact absurd (found.symm.trans missing) (by simp)

/-! ## Programs that change one list -/

/-- A program changes the list of one project, or fails and changes none. -/
def Carries (a : Archive) (p : Project) (f : List Record → List Record) (program : Disk α) : Prop :=
  ∀ root shelves t, a.Holds root shelves t →
    (∃ x s, program t = .ok x s ∧
      a.Holds root (Function.update shelves p (f (shelves p))) s) ∨
    ∃ e s, program t = .error e s ∧ a.Holds root shelves s

theorem carries_of_changesBy {f : List Record → Option (List Record)}
    {g : List Record → List Record} {program : Disk Bool}
    (hconfined : a.Confined p IsOwnName program)
    (hprogram : ∀ root t, a.IsAt root t → a.ChangesBy p f program t)
    (hg : ∀ records, (records.map Record.id).Nodup → (f records).getD records = g records)
    (hf : ∀ records written, f records = some written →
      (∀ r ∈ written, r ∈ records) ∧
        ((records.map Record.id).Nodup → (written.map Record.id).Nodup)) :
    a.Carries p g program := by
  intro root shelves t h
  rcases hprogram root t h.isAt with ⟨s, written, run, made, loaded⟩ | ⟨s, run, made, same⟩ |
    ⟨e, s, run, left⟩
  · have after := hconfined.of_ok h.isAt run
    rw [h.records p] at made
    have value : g (shelves p) = written := by
      rw [← hg _ (h.distinct p), made]
      rfl
    obtain ⟨part, distinct⟩ := hf _ _ made
    rw [value]
    exact .inl ⟨true, s, run,
      h.write after loaded (fun r hr => h.lasting p r (part r hr)) (distinct (h.distinct p))⟩
  · have after := hconfined.of_ok h.isAt run
    rw [h.records p] at made
    have value : g (shelves p) = shelves p := by
      rw [← hg _ (h.distinct p), made]
      rfl
    rw [value, Function.update_eq_self]
    exact .inl ⟨false, s, run, h.keep after (congrArg LedgerState.records same)⟩
  · exact .inr ⟨e, s, run, h.fail (hconfined.of_error h.isAt run) left⟩

theorem mem_and_nodup_of_perm (h : written.Perm records) :
    (∀ r ∈ written, r ∈ records) ∧
      ((records.map Record.id).Nodup → (written.map Record.id).Nodup) :=
  ⟨fun _ hr => h.mem_iff.mp hr, fun distinct => (h.map Record.id).nodup_iff.mpr distinct⟩

theorem carries_moveForward (a : Archive) (p : Project) (id : RecordId) :
    a.Carries p (Record.broughtForward id) (a.moveForward p id) :=
  carries_of_changesBy (confined_moveForward id) (fun _ _ h => moveForward_cases h id)
    (fun _ => movedForward?_getD) fun _ _ made =>
      mem_and_nodup_of_perm ((exchangesNeighbours_movedForward? id).perm made)

theorem carries_moveBack (a : Archive) (p : Project) (id : RecordId) :
    a.Carries p (Record.broughtBack id) (a.moveBack p id) :=
  carries_of_changesBy (confined_moveBack id) (fun _ _ h => moveBack_cases h id)
    (fun _ _ => movedBack?_getD) fun _ _ made =>
      mem_and_nodup_of_perm ((exchangesNeighbours_movedBack? id).perm made)

theorem carries_remove (a : Archive) (p : Project) (id : RecordId) :
    a.Carries p (Record.erased id) (a.remove p id) :=
  carries_of_changesBy (confined_remove id) (fun _ _ h => remove_cases h id)
    (fun _ _ => without?_getD) fun _ _ made =>
      ⟨fun _ hr => (sublist_of_without? made).subset hr,
        fun distinct => distinct.sublist ((sublist_of_without? made).map Record.id)⟩

theorem carries_clear (a : Archive) (p : Project) : a.Carries p (fun _ => []) (a.clear p) := by
  intro root shelves t h
  rcases clear_cases (p := p) h.isAt with ⟨n, s, run, gone⟩ | ⟨e, s, run, same⟩
  · refine .inl ⟨n, s, run, h.change (confined_clear.of_ok h.isAt run) ?_ ?_ List.nodup_nil⟩
    · rw [gone]
      rfl
    · exact fun r hr => absurd hr List.not_mem_nil
  · exact .inr ⟨e, s, run, h.fail (confined_clear.of_error h.isAt run) (.inl same)⟩

/-! ## Recording a batch -/

/-- Parameters that a ledger keeps as they are: nested at most 125 levels deep, with integers of 64
bits only. -/
structure Fits (parameters : Json.Members) : Prop where
  nesting : (Json.Value.object parameters).nesting ≤ 125
  words : ∀ n ∈ (Json.Value.object parameters).numbers, n.isWord = true

/-- Records whose numbers follow one another from the highest one among others. -/
def IsNumberedAfter (records created : List Record) : Prop :=
  created.map (fun r => r.id.toNat) = List.range' (Record.highest records + 1) created.length

theorem toNat_last_aboveRecords (records : List Record) :
    (Numbering.aboveRecords records).last.toNat = Record.highest records := by
  have step : ∀ (ids : List RecordId) (start : RecordId),
      (ids.foldl max start).toNat = (ids.map UInt64.toNat).foldl max start.toNat := by
    intro ids
    induction ids with
    | nil => exact fun start => rfl
    | cons id ids ih =>
      intro start
      rw [List.foldl_cons, ih, List.map_cons, List.foldl_cons, Numbering.toNat_max]
  rw [Numbering.aboveRecords, Numbering.above, step, Record.highest, List.map_map]
  rfl

/-- The records of a batch are read back as themselves if the parameters fit. -/
theorem IsBatch.lasting {parameters : Json.Members} {genTime : UInt64} {last : RecordId}
    {created : List Record} (h : IsBatch parameters genTime last created)
    (hsorted : (Json.Value.object parameters).IsSorted) (hfits : Fits parameters) :
    ∀ r ∈ created, r.reread = some r := by
  intro r hr
  obtain ⟨id, token, image, rfl⟩ := h.recorded r hr
  have stable := isStable_of_isWord hfits.words
  obtain ⟨-, -, flat⟩ := taskData_recordOf_facts genTime id token image hsorted stable
  exact (reread_recordOf_iff genTime id token image hsorted stable).mpr
    (Nat.le_trans flat hfits.nesting)

/-- Recording a batch puts its records at the end of the list, or fails and changes none. -/
theorem Holds.recordBatch (h : a.Holds root shelves t) (p : Project)
    (tokens : Nat → Record.CacheToken) (request answer : Bytes) (elapsed : UInt64) :
    (∃ created s, a.recordBatch p tokens request answer elapsed t = .ok created s ∧
      IsNumberedAfter (shelves p) created ∧
      ((created ≠ [] → Fits (requestParameters request)) →
        (∀ r ∈ created, r.reread = some r) ∧
          a.Holds root (Function.update shelves p (shelves p ++ created)) s)) ∨
    ∃ e s, a.recordBatch p tokens request answer elapsed t = .error e s ∧
      a.Holds root shelves s := by
  have confined := confined_recordBatch (a := a) (p := p) tokens request answer elapsed
  -- the batch has no images, or it has been recorded, or it has failed
  rcases recordBatch_cases (p := p) h.isAt tokens request answer elapsed with ⟨-, run⟩ |
    ⟨created, s, genTime, run, batch, -, loaded⟩ | ⟨e, s, run, left⟩
  · refine .inl ⟨[], t, run, rfl, fun _ => ⟨fun r hr => absurd hr List.not_mem_nil, ?_⟩⟩
    rwa [List.append_nil, Function.update_eq_self]
  · rw [h.records p] at batch loaded
    refine .inl ⟨created, s, run, ?_, fun hfits => ?_⟩
    · rw [IsNumberedAfter, batch.numbered, toNat_last_aboveRecords]
    have lasting : ∀ r ∈ created, r.reread = some r := by
      cases created with
      | nil => exact fun r hr => absurd hr List.not_mem_nil
      | cons r more =>
        exact batch.lasting (requestParameters_sorted_and_nesting request).1
          (hfits (List.cons_ne_nil r more))
    refine ⟨lasting, h.write (confined.of_ok h.isAt run) loaded (fun r hr => ?_)
      (batch.nodup_append (h.distinct p))⟩
    rcases List.mem_append.mp hr with old | new
    · exact h.lasting p r old
    · exact lasting r new
  · exact .inr ⟨e, s, run, h.fail (confined.of_error h.isAt run) left⟩

end Archive

end ImageGateway
