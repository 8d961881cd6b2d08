import ImageGateway.Proofs.Archive.Batches
import ImageGateway.Proofs.Archive.Ledgers
import Mathlib.Data.List.Nodup

/-!
# What each program does to the ledger of its project

A change of a ledger ends in one of three ways: it keeps the ledger, it writes the records that it
makes of those it was given, or it fails (`update_cases`). From this follows what recording a batch,
moving and removing a record and clearing a project make of the ledger (`recordBatch_cases`,
`moveForward_cases`, `moveBack_cases`, `remove_cases`, `clear_cases`).
-/

set_option autoImplicit false

namespace ImageGateway

open Storage Storage.FileTree

namespace Archive

variable {a : Archive} {p : Project} {t s : FileTree} {root : Location} {id : RecordId}
  {records written : List Record} {α : Type}

theorem id_recordOf (parameters : Json.Members) (genTime : UInt64) (id : RecordId)
    (token : Record.CacheToken) (image : Bytes) :
    (recordOf parameters genTime id token image).id = id := by
  rw [recordOf]
  cases Seed.find? image <;> rfl

/-- Records made from the same parameters, numbered one after the other. -/
structure IsBatch (parameters : Json.Members) (genTime : UInt64) (last : RecordId)
    (created : List Record) : Prop where
  numbered : created.map (fun r => r.id.toNat) = List.range' (last.toNat + 1) created.length
  recorded : ∀ r ∈ created, ∃ id token image,
    r = recordOf parameters genTime id token image

/-- The first image is written with the next number, and then the others. -/
theorem recordImages_cons {parameters : Json.Members} {genTime : UInt64} {encoded : String}
    {token : Record.CacheToken} {rest : List (String × Record.CacheToken)}
    {numbering more : Numbering} (h : numbering.next = .ok (id, more)) :
    a.recordImages p parameters genTime numbering ((encoded, token) :: rest)
      = (a.writeImage p id (decodeImage encoded) >>= fun _ =>
          a.recordImages p parameters genTime more rest >>= fun created =>
            pure (recordOf parameters genTime id token (decodeImage encoded) :: created)) := by
  rw [recordImages, h]

/-- After images have been recorded, the first one has been written with the next number, and the
others behind it. -/
theorem recordImages_cons_eq_ok {parameters : Json.Members} {genTime : UInt64} {encoded : String}
    {token : Record.CacheToken} {rest : List (String × Record.CacheToken)} {numbering : Numbering}
    {created : List Record}
    (h : a.recordImages p parameters genTime numbering ((encoded, token) :: rest) t
      = .ok created s) :
    ∃ id more u others, numbering.next = .ok (id, more) ∧
      a.writeImage p id (decodeImage encoded) t = .ok () u ∧
      a.recordImages p parameters genTime more rest u = .ok others s ∧
      created = recordOf parameters genTime id token (decodeImage encoded) :: others := by
  cases hnext : numbering.next with
  | error e =>
    rw [recordImages, hnext] at h
    cases h
  | ok next =>
    obtain ⟨id, more⟩ := next
    rw [recordImages_cons hnext] at h
    obtain ⟨_, u, written, h⟩ := ok_of_run_bind h
    obtain ⟨others, v, recorded, returned⟩ := ok_of_run_bind h
    obtain ⟨rfl, rfl⟩ := EStateM.Result.ok.inj returned
    exact ⟨id, more, u, others, rfl, written, recorded, rfl⟩

/-- The records of the images that are written are numbered one after the other. -/
theorem isBatch_of_recordImages {parameters : Json.Members} {genTime : UInt64}
    {images : List (String × Record.CacheToken)} {numbering : Numbering} {created : List Record}
    (h : a.recordImages p parameters genTime numbering images t = .ok created s) :
    IsBatch parameters genTime numbering.last created ∧ created.length = images.length := by
  -- the first image takes the next number, and the others are numbered from there on
  induction images generalizing numbering created t s with
  | nil =>
    rw [recordImages] at h
    obtain ⟨rfl, -⟩ := EStateM.Result.ok.inj h
    exact ⟨⟨rfl, fun r hr => absurd hr List.not_mem_nil⟩, rfl⟩
  | cons image rest ih =>
    obtain ⟨encoded, token⟩ := image
    obtain ⟨id, more, u, others, hnext, -, hothers, rfl⟩ := recordImages_cons_eq_ok h
    obtain ⟨hid, hlast⟩ := Numbering.next_eq_ok hnext
    obtain ⟨⟨numbered, recorded⟩, size⟩ := ih hothers
    refine ⟨⟨?_, ?_⟩, by rw [List.length_cons, List.length_cons, size]⟩
    · rw [List.map_cons, numbered, hlast, id_recordOf, List.length_cons, List.range'_succ, hid]
    · intro r hr
      rcases List.mem_cons.mp hr with rfl | hr
      · exact ⟨id, token, decodeImage encoded, rfl⟩
      · exact recorded r hr

/-- The records of a batch have numbers above the last one. -/
theorem IsBatch.last_lt {parameters : Json.Members} {genTime : UInt64} {last : RecordId}
    {created : List Record} (h : IsBatch parameters genTime last created) {r : Record}
    (hr : r ∈ created) : last < r.id := by
  have listed : r.id.toNat ∈ created.map fun r => r.id.toNat := List.mem_map_of_mem hr
  rw [h.numbered, List.mem_range'_1] at listed
  rw [UInt64.lt_iff_toNat_lt]
  omega

/-- The records of a batch have different numbers. -/
theorem IsBatch.nodup {parameters : Json.Members} {genTime : UInt64} {last : RecordId}
    {created : List Record} (h : IsBatch parameters genTime last created) :
    (created.map Record.id).Nodup := by
  have distinct : (created.map fun r => r.id.toNat).Nodup := by
    rw [h.numbered]
    exact List.nodup_range'
  refine List.Nodup.of_map UInt64.toNat ?_
  rw [List.map_map]
  exact distinct

/-- A batch keeps clear of the numbers that are there. -/
theorem IsBatch.lt {parameters : Json.Members} {genTime : UInt64} {created : List Record}
    (h : IsBatch parameters genTime (Numbering.aboveRecords records).last created)
    {r c : Record} (hr : r ∈ records) (hc : c ∈ created) : r.id < c.id := by
  have below := Numbering.le_last_aboveRecords hr
  have above := h.last_lt hc
  rw [UInt64.le_iff_toNat_le] at below
  rw [UInt64.lt_iff_toNat_lt] at above ⊢
  omega

theorem IsBatch.nodup_append {parameters : Json.Members} {genTime : UInt64}
    {created : List Record}
    (h : IsBatch parameters genTime (Numbering.aboveRecords records).last created)
    (hrecords : (records.map Record.id).Nodup) : ((records ++ created).map Record.id).Nodup := by
  rw [List.map_append, List.nodup_append]
  refine ⟨hrecords, h.nodup, fun x hx y hy same => ?_⟩
  obtain ⟨r, hr, rfl⟩ := List.mem_map.mp hx
  obtain ⟨c, hc, rfl⟩ := List.mem_map.mp hy
  have less := h.lt hr hc
  rw [same, UInt64.lt_iff_toNat_lt] at less
  omega

/-! ## Moving and removing -/

/-- A change that exchanges two neighbours somewhere in the list, or does nothing. -/
structure ExchangesNeighbours (f : List Record → Option (List Record)) : Prop where
  nil : f [] = none
  single : ∀ r, f [r] = none
  step : ∀ r s rest, f (r :: s :: rest) = some (s :: r :: rest) ∨
    f (r :: s :: rest) = (f (s :: rest)).map (r :: ·)

theorem ExchangesNeighbours.perm {f : List Record → Option (List Record)}
    (h : ExchangesNeighbours f) (hmade : f records = some written) : written.Perm records := by
  induction records generalizing written with
  | nil => exact absurd (h.nil.symm.trans hmade) (by simp)
  | cons r rest ih =>
    cases rest with
    | nil => exact absurd ((h.single r).symm.trans hmade) (by simp)
    | cons s rest =>
      rcases h.step r s rest with here | later
      · obtain rfl := Option.some.inj (here.symm.trans hmade)
        exact List.Perm.swap r s rest
      · obtain ⟨others, hothers, rfl⟩ := Option.map_eq_some_iff.mp (later.symm.trans hmade)
        exact (ih hothers).cons r

theorem exchangesNeighbours_movedForward? (id : RecordId) :
    ExchangesNeighbours (movedForward? id) where
  nil := rfl
  single := fun _ => rfl
  step := by
    intro r s rest
    rw [movedForward?]
    split
    · exact .inl rfl
    · exact .inr rfl

theorem exchangesNeighbours_movedBack? (id : RecordId) : ExchangesNeighbours (movedBack? id) where
  nil := rfl
  single := fun _ => rfl
  step := by
    intro r s rest
    rw [movedBack?]
    split
    · exact .inl rfl
    · exact .inr rfl

/-- What is taken out is the first record with the number, and the others are kept. -/
theorem without?_eq_some (h : without? id records = some written) :
    ∃ front r back, records = front ++ r :: back ∧ r.id = id ∧ (∀ q ∈ front, q.id ≠ id) ∧
      written = front ++ back := by
  induction records generalizing written with
  | nil => exact absurd h (by simp [without?])
  | cons r rest ih =>
    rw [without?] at h
    split at h
    · rename_i here
      obtain rfl := Option.some.inj h
      exact ⟨[], r, rest, rfl, here, by simp, rfl⟩
    · -- the record is further behind, and this one stands before it
      rename_i differs
      obtain ⟨others, made, rfl⟩ := Option.map_eq_some_iff.mp h
      obtain ⟨front, q, back, rfl, here, before, rfl⟩ := ih made
      exact ⟨r :: front, q, back, rfl, here, List.forall_mem_cons.mpr ⟨differs, before⟩, rfl⟩

theorem sublist_of_without? (h : without? id records = some written) :
    written.Sublist records := by
  obtain ⟨front, r, back, rfl, -, -, rfl⟩ := without?_eq_some h
  exact (List.sublist_cons_self r back).append_left front

/-! ## Updates -/

section Update

variable {change : List Record → Disk (Commit α)}

/-- A ledger has been left as it was, or it could not be read and has been moved aside. -/
def IsLeft (a : Archive) (p : Project) (t s : FileTree) : Prop :=
  a.load p s = a.load p t ∨ (a.load p t).isUnreadable = true ∧ a.load p s = .absent

/-- What touches images only leaves the ledger as it is. -/
theorem load_of_images (h : a.IsAt root t) (after : s.IsSound ∧ a.Touches p IsImage t s) :
    a.load p s = a.load p t :=
  load_of_touches h after.1 after.2 (fun _ => isOwnName_of_isImage)
    (.inr (by simp [IsImage, isImageFileName_eq_false]))

/-- What is done about the ledger once a change has been made of its records. -/
def settle (a : Archive) (p : Project) (unreadable : Bool) : Commit α → Disk α
  | .keep answer => pure answer
  | .write records answer => do
    if unreadable then a.setAside p
    a.persist p records
    pure answer

theorem update_eq (change : List Record → Disk (Commit α)) (t : FileTree) :
    a.update p change t
      = (change (a.load p t).records >>= a.settle p (a.load p t).isUnreadable) t := by
  have same : (fun commit : Commit α => match commit with
      | .keep answer => pure answer
      | .write records answer => do
        if (a.load p t).isUnreadable then a.setAside p
        a.persist p records
        pure answer) = a.settle p (a.load p t).isUnreadable := by
    funext commit
    cases commit <;> rfl
  rw [← same]
  rfl

theorem treeAfter_update (change : List Record → Disk (Commit α)) (t : FileTree) :
    treeAfter (a.update p change) t
      = treeAfter (change (a.load p t).records >>= a.settle p (a.load p t).isUnreadable) t := by
  rw [treeAfter, treeAfter, update_eq]

theorem confined_settle (unreadable : Bool) (commit : Commit α) :
    a.Confined p IsDocument (a.settle p unreadable commit) := by
  cases commit with
  | keep x => exact confined_pure x
  | write records x =>
    have written : a.Confined p IsDocument (a.persist p records >>= fun _ => pure x) :=
      confined_bind (confined_persist records) fun _ => confined_pure x
    cases unreadable with
    | false => exact written
    | true => exact confined_bind confined_setAside fun _ => written

/-- Way has been made for a new ledger: one that could not be read has been moved aside. -/
def MakesWay (a : Archive) (p : Project) (unreadable : Bool) (t s : FileTree) : Prop :=
  unreadable = false ∧ s = t ∨ unreadable = true ∧ a.setAside p t = .ok () s

/-- Making way for a ledger touches documents only. -/
theorem touches_of_makesWay {unreadable : Bool} (h : a.IsAt root t)
    (hway : a.MakesWay p unreadable t s) : s.IsSound ∧ a.Touches p IsDocument t s := by
  rcases hway with ⟨-, rfl⟩ | ⟨-, moved⟩
  · exact ⟨h.sound, .refl a p IsDocument s⟩
  · exact confined_setAside.of_ok h moved

/-- Records that have been written were written after way had been made for them. -/
theorem settle_write_eq_ok {unreadable : Bool} {x y : α}
    (h : a.settle p unreadable (.write records y) t = .ok x s) :
    x = y ∧ ∃ v, a.MakesWay p unreadable t v ∧ a.persist p records v = .ok () s := by
  cases unreadable with
  | false =>
    obtain ⟨_, v, persisted, returned⟩ := ok_of_run_bind h
    obtain ⟨rfl, rfl⟩ := EStateM.Result.ok.inj returned
    exact ⟨rfl, t, .inl ⟨rfl, rfl⟩, persisted⟩
  | true =>
    obtain ⟨_, v, moved, written⟩ := ok_of_run_bind h
    obtain ⟨_, w, persisted, returned⟩ := ok_of_run_bind written
    obtain ⟨rfl, rfl⟩ := EStateM.Result.ok.inj returned
    exact ⟨rfl, v, .inr ⟨rfl, moved⟩, persisted⟩

/-- Records that could not be written failed to be when way was to be made for them, or after it. -/
theorem settle_write_eq_error {unreadable : Bool} {y : α} {e : Error}
    (h : a.settle p unreadable (.write records y) t = .error e s) :
    unreadable = true ∧ a.setAside p t = .error e s ∨
      ∃ v, a.MakesWay p unreadable t v ∧ a.persist p records v = .error e s := by
  have persisted : ∀ {v : FileTree}, (a.persist p records >>= fun _ => pure y) v = .error e s →
      a.persist p records v = .error e s := by
    intro v hrun
    rcases error_of_run_bind hrun with failed | ⟨_, _, -, returned⟩
    · exact failed
    · cases returned
  cases unreadable with
  | false => exact .inr ⟨t, .inl ⟨rfl, rfl⟩, persisted h⟩
  | true =>
    rcases error_of_run_bind h with failed | ⟨_, v, moved, written⟩
    · exact .inl ⟨rfl, failed⟩
    · exact .inr ⟨v, .inr ⟨rfl, moved⟩, persisted written⟩

/-- An update that succeeds has kept the ledger, or has made way for the records and written them. -/
theorem update_eq_ok {x : α} (h : a.update p change t = .ok x s) :
    change (a.load p t).records t = .ok (.keep x) s ∨
      ∃ records u v, change (a.load p t).records t = .ok (.write records x) u ∧
        a.MakesWay p (a.load p t).isUnreadable u v ∧ a.persist p records v = .ok () s := by
  rw [update_eq] at h
  obtain ⟨commit, u, changed, settled⟩ := ok_of_run_bind h
  rw [changed]
  cases commit with
  | keep y =>
    obtain ⟨rfl, rfl⟩ := EStateM.Result.ok.inj settled
    exact .inl rfl
  | write records y =>
    obtain ⟨rfl, v, way, persisted⟩ := settle_write_eq_ok settled
    exact .inr ⟨records, u, v, rfl, way, persisted⟩

/-- Records are written step by step. -/
theorem persist_of_steps {t₁ t₂ : FileTree} (hdir : t.makeDirs (a.projectDir p) = (.ok (), t₁))
    (htemporary : t₁.writeFile (a.temporaryPath p) (Record.document records) = .ok t₂)
    (hledger : t₂.rename (a.temporaryPath p) (a.ledgerPath p) = .ok s) :
    a.persist p records t = .ok () s := by
  rw [persist]
  simp only [run_bind, Disk.makeDirs, hdir, Disk.writeFile, Disk.change, htemporary, hledger]

theorem persist_eq_ok {x : Unit} (h : a.persist p records t = .ok x s) :
    ∃ u v, t.makeDirs (a.projectDir p) = (.ok (), u) ∧
      u.writeFile (a.temporaryPath p) (Record.document records) = .ok v ∧
      v.rename (a.temporaryPath p) (a.ledgerPath p) = .ok s := by
  rw [persist] at h
  obtain ⟨_, u, made, h⟩ := ok_of_run_bind h
  obtain ⟨_, v, written, renamed⟩ := ok_of_run_bind h
  exact ⟨u, v, makeDirs_eq_ok made, change_eq_ok written, change_eq_ok renamed⟩

/-- Where records have been written the path of the temporary file is not too long. -/
theorem walkable_of_persist {x : Unit} (h : a.persist p records t = .ok x s) :
    Walkable (a.temporaryPath p) := by
  obtain ⟨u, v, -, written, -⟩ := persist_eq_ok h
  obtain ⟨loc, located, -⟩ := writeFile_eq_ok written
  exact (walk_of_locateNames located).1

/-- A ledger that could be read is replaced by the records that are written. -/
theorem update_of_persist {x : α} {u : FileTree} (hread : (a.load p t).isUnreadable = false)
    (hchange : change (a.load p t).records t = .ok (.write records x) u)
    (hpersist : a.persist p records u = .ok () s) : a.update p change t = .ok x s := by
  rw [update_eq, run_bind, hchange, hread]
  show (a.persist p records >>= fun _ => pure x) u = _
  rw [run_bind, hpersist]
  rfl

/-- An update that fails has done so in the change, in making way for the records, or in writing
them. -/
theorem update_eq_error {e : Error} (h : a.update p change t = .error e s) :
    change (a.load p t).records t = .error e s ∨
      ∃ records x u, change (a.load p t).records t = .ok (.write records x) u ∧
        ((a.load p t).isUnreadable = true ∧ a.setAside p u = .error e s ∨
          ∃ v, a.MakesWay p (a.load p t).isUnreadable u v ∧
            a.persist p records v = .error e s) := by
  rw [update_eq] at h
  rcases error_of_run_bind h with failed | ⟨commit, u, changed, settled⟩
  · exact .inl failed
  rw [changed]
  cases commit with
  | keep y => cases settled
  | write records y => exact .inr ⟨records, y, u, rfl, settle_write_eq_error settled⟩

/-- Records are written in a ledger, or it stays as it is. -/
theorem persist_pure_cases (h : a.IsAt root t) (records : List Record) (x : α) :
    (∃ s, (a.persist p records >>= fun _ => pure x) t = .ok x s ∧
      a.load p s = afterWriting records) ∨
      ∃ e s, (a.persist p records >>= fun _ => pure x) t = .error e s ∧
        a.load p s = a.load p t := by
  rw [run_bind]
  rcases persist_cases h records with ⟨e, s, run, sound, touches⟩ | ⟨s, run, loaded⟩
  · rw [run]
    exact .inr ⟨e, s, rfl, load_of_touches h sound touches
      (fun _ => isOwnName_of_isTemporary) (.inr not_isTemporary_ledgerName)⟩
  · rw [run]
    exact .inl ⟨s, rfl, loaded⟩

/-- The records that a change has made are written, after the ledger has been moved aside if it could
not be read. -/
theorem settle_write_cases (h : a.IsAt root t) (records : List Record) (x : α)
    (unreadable : Bool) :
    (∃ s, a.settle p unreadable (.write records x) t = .ok x s ∧
      a.load p s = afterWriting records) ∨
      ∃ e s, a.settle p unreadable (.write records x) t = .error e s ∧
        (a.load p s = a.load p t ∨ unreadable = true ∧ a.load p s = .absent) := by
  -- only an unreadable ledger is moved aside before the records are written
  cases unreadable with
  | false =>
    rcases persist_pure_cases h records x with ⟨s, run, loaded⟩ | ⟨e, s, run, loaded⟩
    · exact .inl ⟨s, run, loaded⟩
    · exact .inr ⟨e, s, run, .inl loaded⟩
  | true =>
    have split : a.settle p true (.write records x) t
        = (a.setAside p >>= fun _ => a.persist p records >>= fun _ => pure x) t := rfl
    rw [split, run_bind]
    rcases setAside_cases h with ⟨e, run⟩ | ⟨u, run, moved⟩
    · rw [run]
      exact .inr ⟨e, t, rfl, .inl rfl⟩
    · have hu := h.of_touches (confined_setAside.of_ok h run)
      rw [run]
      rcases persist_pure_cases hu records x with ⟨s, run', loaded⟩ | ⟨e, s, run', loaded⟩
      · exact .inl ⟨s, run', loaded⟩
      · refine .inr ⟨e, s, run', ?_⟩
        rcases moved with rfl | absent
        · exact .inl loaded
        · exact .inr ⟨rfl, loaded.trans absent⟩

/-- An update keeps the ledger, writes the records that the change makes of those it is given, or
fails; a failure leaves the ledger as it is, unless it could not be read and has been moved aside. -/
theorem update_cases (h : a.IsAt root t)
    (hchange : ∀ records, a.Confined p IsImage (change records)) :
    (∃ x s u, a.update p change t = .ok x s ∧
      change (a.load p t).records t = .ok (.keep x) u ∧ a.load p s = a.load p t) ∨
    (∃ x s u records, a.update p change t = .ok x s ∧
      change (a.load p t).records t = .ok (.write records x) u ∧
      a.load p s = afterWriting records) ∨
    ∃ e s, a.update p change t = .error e s ∧ a.IsLeft p t s := by
  rw [update_eq, run_bind]
  cases hrun : change (a.load p t).records t with
  | error e u =>
    exact .inr (.inr ⟨e, u, rfl, .inl (load_of_images h ((hchange _).of_error h hrun))⟩)
  | ok commit u =>
    have after := (hchange _).of_ok h hrun
    have same := load_of_images h after
    cases commit with
    | keep x => exact .inl ⟨x, u, u, rfl, rfl, same⟩
    | write records x =>
      rcases settle_write_cases (h.of_touches after) records x (a.load p t).isUnreadable with
        ⟨s, run, loaded⟩ | ⟨e, s, run, loaded⟩
      · exact .inr (.inl ⟨x, s, u, records, run, rfl, loaded⟩)
      · refine .inr (.inr ⟨e, s, run, ?_⟩)
        rcases loaded with kept | moved
        · exact .inl (kept.trans same)
        · exact .inr moved

/-- What a change of one record does to the ledger: it says whether there was something to change,
and writes it, or it fails. -/
def ChangesBy (a : Archive) (p : Project) (f : List Record → Option (List Record))
    (program : Disk Bool) (t : FileTree) : Prop :=
  (∃ s records, program t = .ok true s ∧ f (a.load p t).records = some records ∧
    a.load p s = afterWriting records) ∨
  (∃ s, program t = .ok false s ∧ f (a.load p t).records = none ∧ a.load p s = a.load p t) ∨
  ∃ e s, program t = .error e s ∧ a.IsLeft p t s

/-- An update that writes what it makes of the records, if it makes anything of them. -/
theorem commitIf_cases {change : List Record → Disk (Commit Bool)}
    {f : List Record → Option (List Record)} (h : a.IsAt root t)
    (hchange : ∀ records, a.Confined p IsImage (change records))
    (hcommit : ∀ records t c s, change records t = .ok c s → c = commitIf (f records)) :
    a.ChangesBy p f (a.update p change) t := by
  rcases update_cases h hchange with ⟨x, s, u, run, kept, same⟩ |
    ⟨x, s, u, records, run, written, loaded⟩ | failed
  · -- what was kept or written tells whether the change made anything
    have commit := hcommit _ _ _ _ kept
    cases made : f (a.load p t).records with
    | none =>
      rw [made, commitIf] at commit
      obtain rfl := Commit.keep.inj commit
      exact .inr (.inl ⟨s, run, made, same⟩)
    | some records =>
      rw [made, commitIf] at commit
      exact absurd commit (by simp)
  · have commit := hcommit _ _ _ _ written
    cases made : f (a.load p t).records with
    | none =>
      rw [made, commitIf] at commit
      exact absurd commit (by simp)
    | some records' =>
      rw [made, commitIf] at commit
      obtain ⟨rfl, rfl⟩ := Commit.write.inj commit
      exact .inl ⟨s, records, run, made, loaded⟩
  · exact .inr (.inr failed)

end Update

/-! ## The programs -/

/-- Writes images and puts their records behind those that are there. -/
def addImages (a : Archive) (p : Project) (parameters : Json.Members) (genTime : UInt64)
    (images : List (String × Record.CacheToken)) (records : List Record) :
    Disk (Commit (List Record)) := do
  let created ← a.recordImages p parameters genTime (Numbering.aboveRecords records) images
  pure (.write (records ++ created) created)

theorem confined_addImages {own : String → Prop} {records : List Record}
    (hown : ∀ id, (Numbering.aboveRecords records).last < id → own (Record.imageFileName id))
    (parameters : Json.Members) (genTime : UInt64) (images : List (String × Record.CacheToken)) :
    a.Confined p own (a.addImages p parameters genTime images records) :=
  confined_bind (confined_recordImages hown parameters genTime images) fun _ => confined_pure _

/-- What is to be written are the records that were there and a batch behind them. -/
theorem addImages_eq_ok {parameters : Json.Members} {genTime : UInt64}
    {images : List (String × Record.CacheToken)} {records : List Record}
    {commit : Commit (List Record)}
    (h : a.addImages p parameters genTime images records t = .ok commit s) :
    ∃ created, a.recordImages p parameters genTime (Numbering.aboveRecords records) images t
        = .ok created s ∧ commit = .write (records ++ created) created ∧
      IsBatch parameters genTime (Numbering.aboveRecords records).last created ∧
      created.length = images.length := by
  obtain ⟨created, u, recorded, returned⟩ := ok_of_run_bind h
  obtain ⟨rfl, rfl⟩ := EStateM.Result.ok.inj returned
  obtain ⟨batch, size⟩ := isBatch_of_recordImages recorded
  exact ⟨created, recorded, rfl, batch, size⟩

/-- Where images have been added, way was made for the ledger once they had been written, and then their
records were written behind those that were there. -/
theorem update_addImages_eq_ok {parameters : Json.Members} {genTime : UInt64}
    {images : List (String × Record.CacheToken)} {created : List Record}
    (h : a.update p (a.addImages p parameters genTime images) t = .ok created s) :
    ∃ u v, a.recordImages p parameters genTime (Numbering.aboveRecords (a.load p t).records) images t
        = .ok created u ∧ a.MakesWay p (a.load p t).isUnreadable u v ∧
      a.persist p ((a.load p t).records ++ created) v = .ok () s := by
  -- the change always has records to be written
  rcases update_eq_ok h with kept | ⟨records, u, v, written, way, persisted⟩
  · obtain ⟨_, -, commit, -⟩ := addImages_eq_ok kept
    exact absurd commit (by simp)
  · obtain ⟨made, recorded, commit, -⟩ := addImages_eq_ok written
    obtain ⟨rfl, rfl⟩ := Commit.write.inj commit
    exact ⟨u, v, recorded, way, persisted⟩

/-- The images of an answer with the tokens that are drawn for them. -/
def drawnImages (tokens : Nat → Record.CacheToken) (answer : Bytes) :
    List (String × Record.CacheToken) :=
  (batchImages answer).zip ((List.range (batchImages answer).length).map tokens)

theorem length_drawnImages (tokens : Nat → Record.CacheToken) (answer : Bytes) :
    (drawnImages tokens answer).length = (batchImages answer).length := by
  simp [drawnImages]

/-- A batch without images is not recorded; any other one is recorded by an update. -/
theorem recordBatch_eq_or (a : Archive) (p : Project) (tokens : Nat → Record.CacheToken)
    (request answer : Bytes) (elapsed : UInt64) :
    (batchImages answer = [] ∧ a.recordBatch p tokens request answer elapsed = pure []) ∨
    (batchImages answer ≠ [] ∧ drawnImages tokens answer ≠ [] ∧
      a.recordBatch p tokens request answer elapsed
        = a.update p (a.addImages p (requestParameters request)
          (elapsed / UInt64.ofNat (batchImages answer).length) (drawnImages tokens answer))) := by
  have run : a.recordBatch p tokens request answer elapsed
      = if (batchImages answer).isEmpty then pure []
        else a.update p (a.addImages p (requestParameters request)
          (elapsed / UInt64.ofNat (batchImages answer).length) (drawnImages tokens answer)) := rfl
  rw [run]
  by_cases imageless : batchImages answer = []
  · exact .inl ⟨imageless, if_pos (List.isEmpty_iff.mpr imageless)⟩
  · refine .inr ⟨imageless, fun empty => imageless ?_, if_neg (imageless ∘ List.isEmpty_iff.mp)⟩
    have size := length_drawnImages tokens answer
    rw [empty, List.length_nil] at size
    exact List.length_eq_zero_iff.mp size.symm

/-- Recording a batch puts its records behind those that are there, or fails; a batch without images
does nothing. -/
theorem recordBatch_cases (h : a.IsAt root t) (tokens : Nat → Record.CacheToken)
    (request answer : Bytes) (elapsed : UInt64) :
    (batchImages answer = [] ∧ a.recordBatch p tokens request answer elapsed t = .ok [] t) ∨
    (∃ created s genTime, a.recordBatch p tokens request answer elapsed t = .ok created s ∧
      IsBatch (requestParameters request) genTime
        (Numbering.aboveRecords (a.load p t).records).last created ∧
      created.length = (batchImages answer).length ∧
      a.load p s = afterWriting ((a.load p t).records ++ created)) ∨
    ∃ e s, a.recordBatch p tokens request answer elapsed t = .error e s ∧ a.IsLeft p t s := by
  rcases recordBatch_eq_or a p tokens request answer elapsed with ⟨imageless, run⟩ | ⟨-, -, run⟩
  · exact .inl ⟨imageless, congrFun run t⟩
  right
  rw [run]
  have confined : ∀ records, a.Confined p IsImage (a.addImages p (requestParameters request)
      (elapsed / UInt64.ofNat (batchImages answer).length) (drawnImages tokens answer) records) :=
    fun _ => confined_addImages (fun id _ => isImage_imageFileName id) _ _ _
  -- the change always has records to be written
  rcases update_cases h confined with ⟨x, s, u, run, kept, -⟩ |
    ⟨x, s, u, records, run, written, loaded⟩ | failed
  · obtain ⟨created, -, commit, -⟩ := addImages_eq_ok kept
    exact absurd commit (by simp)
  · obtain ⟨created, -, commit, batch, size⟩ := addImages_eq_ok written
    obtain ⟨rfl, rfl⟩ := Commit.write.inj commit
    exact .inl ⟨x, s, _, run, batch, size.trans (length_drawnImages tokens answer), loaded⟩
  · exact .inr failed

theorem moveForward_cases (h : a.IsAt root t) (id : RecordId) :
    a.ChangesBy p (movedForward? id) (a.moveForward p id) t := by
  refine commitIf_cases h (fun _ => confined_pure _) fun records t c s hrun => ?_
  exact (EStateM.Result.ok.inj hrun).1.symm

theorem moveBack_cases (h : a.IsAt root t) (id : RecordId) :
    a.ChangesBy p (movedBack? id) (a.moveBack p id) t := by
  refine commitIf_cases h (fun _ => confined_pure _) fun records t c s hrun => ?_
  exact (EStateM.Result.ok.inj hrun).1.symm

theorem remove_cases (h : a.IsAt root t) (id : RecordId) :
    a.ChangesBy p (without? id) (a.remove p id) t := by
  refine commitIf_cases h (fun _ => confined_bind (confined_removeImage (isImage_imageFileName id)) fun _ =>
    confined_pure _) fun records t c s hrun => ?_
  obtain ⟨_, u, -, returned⟩ := ok_of_run_bind hrun
  exact (EStateM.Result.ok.inj returned).1.symm

/-- After the one image of a batch has been written, the ledger is to be written with its record. -/
theorem recordBatch_of_image {tokens : Nat → Record.CacheToken} {request answer : Bytes}
    {elapsed : UInt64} {encoded : String} {id : RecordId} {more : Numbering} {r : Record}
    {t₁ t₂ : FileTree} (himages : batchImages answer = [encoded])
    (hnext : (Numbering.aboveRecords (a.load p t).records).next = .ok (id, more))
    (hr : r = recordOf (requestParameters request) (elapsed / 1) id (tokens 0)
      (decodeImage encoded))
    (hdir : t.makeDirs (a.projectDir p) = (.ok (), t₁))
    (himage : t₁.writeFile (a.imagePath p id) (decodeImage encoded) = .ok t₂) :
    a.recordBatch p tokens request answer elapsed t
      = a.settle p (a.load p t).isUnreadable (.write ((a.load p t).records ++ [r]) [r]) t₂ := by
  have images : a.recordImages p (requestParameters request) (elapsed / 1)
      (Numbering.aboveRecords (a.load p t).records) [(encoded, tokens 0)] t = .ok [r] t₂ := by
    rw [recordImages, hnext]
    simp only [run_bind, writeImage, Disk.makeDirs, hdir, Disk.writeFile, Disk.change, himage,
      recordImages, hr]
    rfl
  have drawn : [encoded].zip ((List.range [encoded].length).map tokens) = [(encoded, tokens 0)] :=
    rfl
  have share : elapsed / UInt64.ofNat [encoded].length = elapsed / 1 := rfl
  rw [recordBatch, himages]
  rw [if_neg (by simp), drawn, share]
  rw [update_eq, run_bind, run_bind, images]
  rfl

/-- One image is recorded step by step: it is written, and then the ledger with its record. -/
theorem recordBatch_of_steps {tokens : Nat → Record.CacheToken} {request answer : Bytes}
    {elapsed : UInt64} {encoded : String} {id : RecordId} {more : Numbering} {r : Record}
    {t₁ t₂ t₃ t₄ : FileTree} (himages : batchImages answer = [encoded])
    (hstate : (a.load p t).isUnreadable = false)
    (hnext : (Numbering.aboveRecords (a.load p t).records).next = .ok (id, more))
    (hr : r = recordOf (requestParameters request) (elapsed / 1) id (tokens 0)
      (decodeImage encoded))
    (hdir : t.makeDirs (a.projectDir p) = (.ok (), t₁))
    (himage : t₁.writeFile (a.imagePath p id) (decodeImage encoded) = .ok t₂)
    (hdir' : t₂.makeDirs (a.projectDir p) = (.ok (), t₃))
    (htemporary : t₃.writeFile (a.temporaryPath p)
      (Record.document ((a.load p t).records ++ [r])) = .ok t₄)
    (hledger : t₄.rename (a.temporaryPath p) (a.ledgerPath p) = .ok s) :
    a.recordBatch p tokens request answer elapsed t = .ok [r] s := by
  rw [recordBatch_of_image himages hnext hr hdir himage, hstate]
  exact run_bind_of_ok (persist_of_steps hdir' htemporary hledger)

/-! ## Recording a first image -/

/-- The record of the first image of a project. -/
def firstRecord (request : Bytes) (elapsed : UInt64) (token : Record.CacheToken)
    (encoded : String) : Record :=
  recordOf (requestParameters request) (elapsed / 1) 1 token (decodeImage encoded)

/-- Recording one image where there is no ledger yet gives it the first number. -/
theorem recordBatch_of_absent {tokens : Nat → Record.CacheToken} {request answer : Bytes}
    {elapsed : UInt64} {encoded : String} {t₁ t₂ t₃ t₄ : FileTree}
    (himages : batchImages answer = [encoded]) (hload : a.load p t = .absent)
    (hdir : t.makeDirs (a.projectDir p) = (.ok (), t₁))
    (himage : t₁.writeFile (a.imagePath p 1) (decodeImage encoded) = .ok t₂)
    (hdir' : t₂.makeDirs (a.projectDir p) = (.ok (), t₃))
    (htemporary : t₃.writeFile (a.temporaryPath p)
      (Record.document [firstRecord request elapsed (tokens 0) encoded]) = .ok t₄)
    (hledger : t₄.rename (a.temporaryPath p) (a.ledgerPath p) = .ok s) :
    a.recordBatch p tokens request answer elapsed t
      = .ok [firstRecord request elapsed (tokens 0) encoded] s := by
  have first : (Numbering.aboveRecords (a.load p t).records).next = .ok (1, ⟨1⟩) := by
    rw [hload]
    rfl
  refine recordBatch_of_steps himages ?_ first rfl hdir himage hdir' ?_ hledger
  · rw [hload]
    rfl
  · rw [hload]
    exact htemporary

theorem imageFileName_one : Record.imageFileName 1 = "00001.png" := by
  have one : Decimal.padded 5 (1 : RecordId).toNat = "00001".toList := by decide +kernel
  rw [Record.imageFileName, one]
  rfl

theorem imagePath_one (a : Archive) (p : Project) :
    a.imagePath p 1 = (a.projectDir p).join "00001.png" := by
  rw [imagePath, imageFileName_one]

/-- The tree after an image has been written into an empty results directory. -/
def writtenResults (image : Bytes) : FileTree :=
  emptyResults.insert ["results", "00001.png"] (.file image)

/-- The tree after the ledger has been written beside the image. -/
def recordedResults (image ledger : Bytes) : FileTree :=
  (((writtenResults image).insert ["results", "history.json.tmp"] (.file ledger)).erase
    ["results", "history.json.tmp"]).insert ["results", "history.json"] (.file ledger)

theorem recordBatch_emptyResults (request : Bytes) (encoded : String) :
    results.recordBatch .global (fun _ => zeroToken) request (answerOf [encoded]).compact 0
        emptyResults
      = .ok [firstRecord request 0 zeroToken encoded]
        (recordedResults (decodeImage encoded)
          (Record.document [firstRecord request 0 zeroToken encoded])) := by
  have located : emptyResults.locate true (results.imagePath .global 1)
      = .ok ["results", "00001.png"] := by
    rw [imagePath_one, locate, locateNames_eq_walk (by decide)]
    rfl
  have image := writeFile_of_locate located (by decide) (decodeImage encoded)
  have steps : ∀ image ledger,
      (writtenResults image).makeDirs (results.projectDir .global)
        = (.ok (), writtenResults image) ∧
      (writtenResults image).writeFile (results.temporaryPath .global) ledger
        = .ok ((writtenResults image).insert ["results", "history.json.tmp"] (.file ledger)) ∧
      ((writtenResults image).insert ["results", "history.json.tmp"] (.file ledger)).rename
          (results.temporaryPath .global) (results.ledgerPath .global)
        = .ok (recordedResults image ledger) :=
    fun image ledger => ⟨rfl, rfl, rfl⟩
  obtain ⟨made, written, renamed⟩ := steps (decodeImage encoded)
    (Record.document [firstRecord request 0 zeroToken encoded])
  exact recordBatch_of_absent (batchImages_compact [encoded]) (load_eq_absent rfl) rfl image made
    written renamed

theorem taskData_firstRecord (request : Bytes) :
    (firstRecord request 0 zeroToken "").taskData = requestParameters request := by
  have noImage : decodeImage "" = [] := rfl
  rw [firstRecord, noImage]
  rfl

/-! ## Clearing -/

/-- The names of all files of a project but the ledger. -/
def IsBeside (name : String) : Prop :=
  name = temporaryName ∨ name = asideName ∨ IsImage name

theorem isOwnName_of_isBeside {name : String} (h : IsBeside name) : IsOwnName name := by
  rcases h with rfl | rfl | image
  · exact isOwnName_temporaryName
  · exact isOwnName_asideName
  · exact isOwnName_of_isImage image

theorem not_isBeside_ledgerName : ¬ IsBeside ledgerName := by
  rintro (same | same | image)
  · exact absurd same (by decide)
  · exact absurd same (by decide)
  · simp [IsImage, isImageFileName_eq_false] at image

/-- The ledger is removed at last, or is not there. -/
theorem removeLedger_cases (h : a.IsAt root t) :
    (∃ s, Disk.removeIfPresent (a.ledgerPath p) t = .ok () s ∧ a.load p s = .absent) ∨
      ∃ e, Disk.removeIfPresent (a.ledgerPath p) t = .error e t := by
  rw [Disk.removeIfPresent]
  cases hremoved : t.removeFile (a.ledgerPath p) with
  | ok s =>
    refine .inl ⟨s, rfl, ?_⟩
    rw [ledgerPath_eq_join] at hremoved
    obtain ⟨sound, touches⟩ := removeFile_own h.sound h.hasNoLinks isComponent_ledgerName
      isOwnName_ledgerName hremoved
    obtain ⟨loc, hloc, -, -, hset⟩ := removeFile_eq_ok hremoved
    obtain ⟨rfl, there⟩ := locate_of_locate h (h.of_touches ⟨sound, touches⟩) touches.keeps
      isComponent_ledgerName hloc true
    refine load_eq_absent ((readFile_of_locate there).trans ?_)
    rw [readAt, hset.here]
  | error fault =>
    cases fault with
    | notFound =>
      have missing := readFile_of_statLink_notFound (statLink_of_removeFile_notFound hremoved)
      exact .inl ⟨t, rfl, load_eq_absent missing⟩
    | _ => exact .inr ⟨_, rfl⟩

/-- Removes everything of a project but the ledger. -/
def removeBeside (a : Archive) (p : Project) (state : LedgerState) : Disk Nat := do
  let removed ← a.removeListedImages p state
  Disk.removeIfPresent (a.temporaryPath p)
  Disk.removeIfPresent (a.asidePath p)
  pure removed

theorem confined_removeBeside (state : LedgerState) :
    a.Confined p IsBeside (a.removeBeside p state) := by
  refine confined_bind ((confined_removeListedImages state).mono fun _ image => .inr (.inr image))
    fun removed => confined_bind ?_ fun _ => confined_bind ?_ fun _ => confined_pure removed
  · rw [temporaryPath_eq_join]
    exact confined_removeIfPresent isComponent_temporaryName (.inl rfl)
  · rw [asidePath_eq_join]
    exact confined_removeIfPresent isComponent_asideName (.inr (.inl rfl))

/-- Clearing removes the ledger after everything else. -/
theorem clear_eq (a : Archive) (p : Project) :
    a.clear p = (do
      let _ ← a.ledgerIsThere p
      let t ← get
      let removed ← a.removeBeside p (a.load p t)
      Disk.removeIfPresent (a.ledgerPath p)
      pure removed) := by
  simp only [clear, removeBeside, bind_assoc, pure_bind]

/-- Once it is known whether there is a ledger, everything else is removed first. -/
theorem clear_of_ledgerIsThere {there : Bool} (h : a.ledgerIsThere p t = .ok there t) :
    a.clear p t = (a.removeBeside p (a.load p t) >>= fun removed =>
      Disk.removeIfPresent (a.ledgerPath p) >>= fun _ => pure removed) t := by
  have now : (get : Disk FileTree) t = .ok t t := rfl
  rw [clear_eq, run_bind_of_ok h, run_bind_of_ok now]

/-- A project is cleared if each file is removed in its turn. -/
theorem clear_of_steps {u v w : FileTree} {there : Bool} {n : Nat}
    (hthere : a.ledgerIsThere p t = .ok there t)
    (himages : a.removeListedImages p (a.load p t) t = .ok n u)
    (htemporary : Disk.removeIfPresent (a.temporaryPath p) u = .ok () v)
    (haside : Disk.removeIfPresent (a.asidePath p) v = .ok () w)
    (hledger : Disk.removeIfPresent (a.ledgerPath p) w = .ok () s) : a.clear p t = .ok n s := by
  have beside : a.removeBeside p (a.load p t) t = .ok n w := by
    rw [removeBeside, run_bind_of_ok himages, run_bind_of_ok htemporary, run_bind_of_ok haside]
    rfl
  rw [clear_of_ledgerIsThere hthere, run_bind_of_ok beside, run_bind_of_ok hledger]
  rfl

/-- Clearing a project leaves it without a ledger, or fails and leaves the ledger as it is. -/
theorem clear_cases (h : a.IsAt root t) :
    (∃ n s, a.clear p t = .ok n s ∧ a.load p s = .absent) ∨
      ∃ e s, a.clear p t = .error e s ∧ a.load p s = a.load p t := by
  have kept : ∀ {s : FileTree}, s.IsSound ∧ a.Touches p IsBeside t s → a.load p s = a.load p t :=
    fun after => load_of_touches h after.1 after.2 (fun _ => isOwnName_of_isBeside)
      (.inr not_isBeside_ledgerName)
  have cleared : (∃ n s, (a.removeBeside p (a.load p t) >>= fun removed =>
        Disk.removeIfPresent (a.ledgerPath p) >>= fun _ => pure removed) t = .ok n s ∧
        a.load p s = .absent) ∨
      ∃ e s, (a.removeBeside p (a.load p t) >>= fun removed =>
        Disk.removeIfPresent (a.ledgerPath p) >>= fun _ => pure removed) t = .error e s ∧
        a.load p s = a.load p t := by
    cases hbeside : a.removeBeside p (a.load p t) t with
    | error e s =>
      exact .inr ⟨e, s, run_bind_of_error hbeside,
        kept ((confined_removeBeside _).of_error h hbeside)⟩
    | ok removed u =>
      have after := (confined_removeBeside _).of_ok h hbeside
      rw [run_bind_of_ok hbeside]
      -- the ledger goes last: only if this succeeds there is none any more
      rcases removeLedger_cases (h.of_touches after) with ⟨s, run, absent⟩ | ⟨e, run⟩
      · exact .inl ⟨removed, s, run_bind_of_ok run, absent⟩
      · exact .inr ⟨e, u, run_bind_of_error run, kept after⟩
  rcases a.ledgerIsThere_cases p t with ⟨content, -, run⟩ | ⟨-, run⟩ | ⟨e, run⟩
  · rw [clear_of_ledgerIsThere run]
    exact cleared
  · rw [clear_of_ledgerIsThere run]
    exact cleared
  · exact .inr ⟨e, t, by rw [clear_eq, run_bind_of_error run], rfl⟩

end Archive

end ImageGateway
