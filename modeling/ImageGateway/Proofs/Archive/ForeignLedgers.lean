import ImageGateway.Proofs.Archive.FailedDeletions
import ImageGateway.Proofs.Archive.SetAside

/-!
# Where the ledger is no file

Where a directory or a link is in the place of the ledger, no program of the archive touches it
(`foreign_ledger_kept`), with one exception: the ledger is read over a link, and if it can be read, or
nothing is there to be read, the new one takes the place of the link.
-/

set_option autoImplicit false

namespace ImageGateway.Archive

open Storage Storage.FileTree

variable {a : Archive} {p : Project} {t s u : FileTree} {dir loc : Location} {entry : Entry}
  {records : List Record} {content : Bytes} {id : RecordId}

/-- Nothing is different at a location and below it. -/
def KeepsAt (loc : Location) (t s : FileTree) : Prop :=
  ∀ below, s.find? (loc ++ below) = t.find? (loc ++ below)

/-- Nothing is below a link. -/
theorem find?_below_link {target : FilePath} (hs : t.IsSound)
    (hlink : t.find? loc = some (.link target)) {below : Location} (hbelow : below ≠ []) :
    t.find? (loc ++ below) = none := by
  -- all that is above an entry are directories
  induction below using List.reverseRecOn with
  | nil => exact absurd rfl hbelow
  | append_singleton front last ih =>
    refine Decidable.not_not.mp fun there => ?_
    rw [← List.append_assoc] at there
    have parent := hs.parent _ _ there
    by_cases empty : front = []
    · rw [empty, List.append_nil, hlink] at parent
      exact absurd parent (by simp)
    · exact absurd ((ih empty).symm.trans parent) (by simp)

/-- Whatever is built, a link stays. -/
theorem keepsAt_of_link {target : FilePath} (hs : t.IsSound)
    (hlink : t.find? loc = some (.link target)) (hbuilt : Builds t s) : KeepsAt loc t s := by
  obtain ⟨sound, keeps⟩ := hbuilt hs
  have there := (keeps.link loc target).mpr hlink
  intro below
  by_cases empty : below = []
  · rw [empty, List.append_nil, there, hlink]
  · rw [find?_below_link hs hlink empty, find?_below_link sound there empty]

theorem builds_of_persist_error {e : Error} (h : a.persist p records t = .error e s) :
    Builds t s := by
  have made := respects_makeDirs (a.projectDir p) t
  rw [treeAfter_makeDirs] at made
  rcases persist_eq_error h with rfl | ⟨u, fault, run, written, -⟩
  · exact made
  · rw [run] at made
    exact isFrame_builds.trans t u s made (builds_of_writeFile written)

/-! ## In the place of the ledger -/

/-- Something other than a file is in the place of the ledger. -/
structure IsForeign (a : Archive) (p : Project) (t : FileTree) (loc : Location) (entry : Entry) :
    Prop where
  located : t.locate false (a.ledgerPath p) = .ok loc
  found : t.find? loc = some entry
  notFile : ∀ content, entry ≠ .file content

namespace IsForeign

theorem statLink (h : a.IsForeign p t loc entry) : t.statLink (a.ledgerPath p) = .ok entry := by
  rw [statLink_of_locate h.located, h.found]

/-- It is in the directory of the project. -/
theorem leads (h : a.IsForeign p t loc entry) :
    ∃ dir, t.LeadsTo (a.projectDir p) dir ∧ loc = dir ++ [ledgerName] := by
  have located := h.located
  rw [ledgerPath_eq_join] at located
  obtain ⟨dir, left, led, last⟩ := locate_join isComponent_ledgerName located
  exact ⟨dir, led, eq_of_walk_one_false isComponent_ledgerName.isName last⟩

/-- It is not taken for a ledger that could be moved aside or removed. -/
theorem ledgerIsThere_eq_error (h : a.IsForeign p t loc entry) :
    ∃ e, a.ledgerIsThere p t = .error e t := by
  rcases a.ledgerIsThere_cases p t with ⟨content, file, -⟩ | ⟨missing, -⟩ | failed
  · exact absurd (Except.ok.inj (h.statLink.symm.trans file)) (h.notFile content)
  · exact absurd (h.statLink.symm.trans missing) (by simp)
  · exact failed

theorem setAside_eq_error (h : a.IsForeign p t loc entry) : ∃ e, a.setAside p t = .error e t := by
  obtain ⟨e, failed⟩ := h.ledgerIsThere_eq_error
  exact ⟨e, run_bind_of_error failed⟩

/-- It is a link if it is read, or if nothing is there to be read. -/
theorem isLink (h : a.IsForeign p t loc entry) (hreadable : (a.load p t).isUnreadable = false) :
    ∃ target, entry = .link target := by
  obtain ⟨dir, led, rfl⟩ := h.leads
  have walkable := (walk_of_locateNames h.located).1
  have found := h.found
  cases entry with
  | file content => exact absurd rfl (h.notFile content)
  | link target => exact ⟨target, rfl⟩
  | directory =>
    rw [load_of_directory led walkable found] at hreadable
    exact absurd hreadable (by simp [LedgerState.isUnreadable])

/-- Records that could not be written in place of it have left the tree as it was. -/
theorem tree_of_persist_error {e : Error} (h : a.IsForeign p t loc entry) (hs : t.IsSound)
    (hreadable : (a.load p t).isUnreadable = false) (hfailed : a.persist p records t = .error e s) :
    s = t := by
  obtain ⟨target, rfl⟩ := h.isLink hreadable
  obtain ⟨dir, led, rfl⟩ := h.leads
  have unmade : (t.makeDirs (a.projectDir p)).2 = t := prepared_of_leadsTo hs led
  refine (Archive.tree_of_persist_error hs (fun dir' led' _ => ?_) hfailed).trans unmade
  rw [unmade] at led' ⊢
  obtain rfl : dir = dir' := led'.unique led (.refl t)
  simp [h.found]

end IsForeign

/-! ## The programs -/

/-- It is a link, and the ledger has not been found to be unreadable: then the link is replaced. -/
def IsFollowed (a : Archive) (p : Project) (t : FileTree) (entry : Entry) : Prop :=
  (∃ target, entry = .link target) ∧ (a.load p t).isUnreadable = false

/-- An update whose change only works on the records leaves everything as it is, or it succeeds in
replacing a link. -/
theorem update_of_isForeign {α : Type} {change : List Record → Disk (Commit α)} (hs : t.IsSound)
    (h : a.IsForeign p t loc entry) (hchange : ∀ records u, treeAfter (change records) u = u) :
    treeAfter (a.update p change) t = t ∨
      a.IsFollowed p t entry ∧ ∃ records x s,
        change (a.load p t).records t = .ok (.write records x) t ∧
        a.update p change t = .ok x s ∧
        (a.HasNoTemporaryLink p t → s.find? loc = some (.file (Record.document records))) := by
  have unchanged := hchange (a.load p t).records t
  rw [treeAfter] at unchanged ⊢
  cases hrun : a.update p change t with
  | error e s =>
    left
    rcases update_eq_error hrun with failed | ⟨records, x, u, changed, failed⟩
    · rw [failed] at unchanged
      exact unchanged
    rw [changed] at unchanged
    obtain rfl : u = t := unchanged
    -- way is made only for an unreadable ledger, and is refused here
    rcases failed with ⟨-, failed⟩ | ⟨v, ⟨readable, rfl⟩ | ⟨-, moved⟩, failed⟩
    · exact Archive.setAside_eq_error failed
    · exact h.tree_of_persist_error hs readable failed
    · obtain ⟨e', refused⟩ := h.setAside_eq_error
      exact absurd (refused.symm.trans moved) (by simp)
  | ok x s =>
    rcases update_eq_ok hrun with kept | ⟨records, u, v, changed, way, persisted⟩
    · rw [kept] at unchanged
      exact .inl unchanged
    rw [changed] at unchanged
    obtain rfl : u = t := unchanged
    rcases way with ⟨readable, rfl⟩ | ⟨-, moved⟩
    · obtain ⟨dir, led, rfl⟩ := h.leads
      refine .inr ⟨⟨h.isLink readable, readable⟩, records, x, s, changed, rfl, fun noLink => ?_⟩
      -- the temporary file takes the place of the link, with the new ledger in it if it is no link
      obtain ⟨place, written, replaces⟩ := replaces_of_persist hs led persisted
      obtain ⟨-, rfl⟩ := replaces.eq_of_noLink led
        (noLink.find?_ne_link led (walk_of_locateNames replaces.located).1)
      exact replaces.ledger
    · obtain ⟨e', refused⟩ := h.setAside_eq_error
      exact absurd (refused.symm.trans moved) (by simp)

/-- Removing an image does not touch the ledger. -/
theorem keepsAt_of_erases_image (h : a.IsForeign p t loc entry)
    (herases : t.Erases (t.IsThere (a.imagePath p id)) u) : KeepsAt loc t u := by
  intro below
  rcases herases.entry (loc ++ below) with same | ⟨⟨located, -⟩, -⟩
  · exact same
  -- an image is in the directory of the project under another name
  obtain ⟨dir, led, rfl⟩ := h.leads
  have component := isComponent_of_isImageFileName (isImage_imageFileName id)
  obtain ⟨dir', left, led', last⟩ := locate_join component located
  obtain rfl : dir = dir' := led'.unique led (.refl t)
  have same := eq_of_walk_one_false component.isName last
  rw [List.append_assoc, List.singleton_append] at same
  have name : ledgerName = Record.imageFileName id := (List.cons.inj (List.append_cancel_left same)).1
  have image := isImageFileName_imageFileName id
  rw [← name, isImageFileName_eq_false.1] at image
  exact absurd image (by simp)

/-- Removing a record leaves everything in the place of the ledger as it is, or it succeeds in replacing
a link. -/
theorem remove_of_isForeign (hs : t.IsSound) (h : a.IsForeign p t loc entry) (id : RecordId) :
    KeepsAt loc t (treeAfter (a.remove p id) t) ∨
      a.IsFollowed p t entry ∧ ∃ s, a.remove p id t = .ok true s := by
  obtain ⟨u, erases, run⟩ := remove_cases_of_image a p id t
  have kept := keepsAt_of_erases_image h erases
  rw [treeAfter]
  rcases run with run | ⟨readable, records, -, ⟨s, -, run⟩ | ⟨e, s, failed, run⟩⟩
  · rw [run]
    exact .inl kept
  · exact .inr ⟨⟨h.isLink readable, readable⟩, s, run⟩
  · rw [run]
    obtain ⟨target, rfl⟩ := h.isLink readable
    -- the link is not the image, so that it is there when the records are to be written
    have link : u.find? loc = some (.link target) := by
      have same := kept []
      rw [List.append_nil] at same
      exact same.trans h.found
    have later := keepsAt_of_link (erases.isSound hs) link (builds_of_persist_error failed)
    exact .inl fun below => (later below).trans (kept below)

/-- Moving a record leaves everything as it is, or it succeeds in replacing a link. -/
theorem move_of_isForeign {f : List Record → Option (List Record)} (hs : t.IsSound)
    (h : a.IsForeign p t loc entry) :
    treeAfter (a.update p fun records => pure (commitIf (f records))) t = t ∨
      a.IsFollowed p t entry ∧
        ∃ s, a.update p (fun records => pure (commitIf (f records))) t = .ok true s := by
  have updated := @update_of_isForeign a p t loc entry Bool (fun records => pure (commitIf (f records)))
    hs h fun _ _ => rfl
  rcases updated with same | ⟨followed, records, x, s, changed, run, -⟩
  · exact .inl same
  · have commit : commitIf (f (a.load p t).records) = .write records x :=
      (EStateM.Result.ok.inj changed).1
    cases made : f (a.load p t).records with
    | none => simp [made, commitIf] at commit
    | some written =>
      rw [made] at commit
      obtain ⟨-, rfl⟩ := Commit.write.inj commit
      exact .inr ⟨followed, s, run⟩

/-- Clearing a project is refused. -/
theorem clear_of_isForeign (h : a.IsForeign p t loc entry) : treeAfter (a.clear p) t = t := by
  obtain ⟨e, refused⟩ := h.ledgerIsThere_eq_error
  rw [treeAfter, clear_eq, run_bind_of_error refused]

/-- What is in the place of the ledger and is no file stays there, with everything below it, whether
records are written, moved or removed or the project is cleared. The exception is a link over which the
ledger has not been found to be unreadable, when records are written in its place. -/
theorem foreign_ledger_kept (hs : t.IsSound) (h : a.IsForeign p t loc entry) :
    (∀ (α : Type) (change : List Record → Disk (Commit α)),
      (∀ records u, treeAfter (change records) u = u) →
      KeepsAt loc t (treeAfter (a.update p change) t) ∨
        a.IsFollowed p t entry ∧ ∃ records x s,
          change (a.load p t).records t = .ok (.write records x) t ∧
          a.update p change t = .ok x s ∧
          (a.HasNoTemporaryLink p t → s.find? loc = some (.file (Record.document records)))) ∧
    (∀ id, ∀ program ∈ [a.moveForward p id, a.moveBack p id, a.remove p id],
      KeepsAt loc t (treeAfter program t) ∨
        a.IsFollowed p t entry ∧ ∃ s, program t = .ok true s) ∧
    KeepsAt loc t (treeAfter (a.clear p) t) := by
  have kept : ∀ {s : FileTree}, s = t → KeepsAt loc t s := by
    rintro s rfl below
    rfl
  refine ⟨fun α change hchange => ?_, fun id program listed => ?_, kept (clear_of_isForeign h)⟩
  · exact (update_of_isForeign hs h hchange).imp_left kept
  · simp only [List.mem_cons, List.not_mem_nil, or_false] at listed
    rcases listed with rfl | rfl | rfl
    · exact (move_of_isForeign hs h).imp_left kept
    · exact (move_of_isForeign hs h).imp_left kept
    · exact remove_of_isForeign hs h id

/-- A results directory with a directory in the place of the ledger, in which there is a file. -/
def foreignDirectory : FileTree where
  entries := [(["results"], .directory), (["results", "history.json"], .directory),
    (["results", "history.json", "notes"], .file [1])]
  workingDirectory := []

theorem foreign_ledger_kept_foreignDirectory :
    foreignDirectory.IsSound ∧
      results.IsForeign .global foreignDirectory ["results", "history.json"] .directory ∧
      (treeAfter (results.writeBack .global) foreignDirectory).find?
        ["results", "history.json", "notes"] = some (.file [1]) := by
  have sound : foreignDirectory.IsSound := isSound_of_entries (by decide) rfl
  have foreign : results.IsForeign .global foreignDirectory ["results", "history.json"] .directory :=
    ⟨rfl, rfl, by simp⟩
  refine ⟨sound, foreign, ?_⟩
  rcases (foreign_ledger_kept sound foreign).1 Unit (fun records => pure (.write records ()))
    (fun _ _ => rfl) with kept | ⟨⟨⟨target, isLink⟩, -⟩, -⟩
  · exact kept ["notes"]
  · exact absurd isLink (by simp)

/-! ## Over a link -/

/-- A results directory with a link in the place of the ledger that leads to nothing. -/
def danglingLedger : FileTree where
  entries := [(["results"], .directory), (["results", "history.json"], .link ⟨"other.json"⟩)]
  workingDirectory := []

/-- The same where there is a ledger at the end of the link. -/
def linkedElsewhere : FileTree where
  entries := [(["results"], .directory), (["results", "history.json"], .link ⟨"other.json"⟩),
    (["results", "other.json"], .file (Record.document blockedRecords))]
  workingDirectory := []

theorem isSound_linkedElsewhere : linkedElsewhere.IsSound := by
  refine isSound_of_entries (fun e listed => ?_) rfl
  simp only [linkedElsewhere, List.mem_cons, List.not_mem_nil, or_false] at listed
  rcases listed with rfl | rfl | rfl <;> rfl

theorem load_danglingLedger : results.load .global danglingLedger = .absent := by
  have missing : danglingLedger.find? ["results", "other.json"] = none := rfl
  have located : danglingLedger.locate true (results.ledgerPath .global)
      = .ok ["results", "other.json"] := by
    rw [ledgerPath_eq_join]
    exact locate_link_results rfl rfl isComponent_ledgerName (by decide)
      short_ledgerName rfl (by decide) (by decide)
      (by simp [missing])
  exact load_eq_absent ((readFile_of_locate located).trans (by rw [readAt, missing]))

theorem load_linkedElsewhere : results.load .global linkedElsewhere = .present blockedRecords := by
  have there : linkedElsewhere.find? ["results", "other.json"]
      = some (.file (Record.document blockedRecords)) := rfl
  have located : linkedElsewhere.locate true (results.ledgerPath .global)
      = .ok ["results", "other.json"] := by
    rw [ledgerPath_eq_join]
    exact locate_link_results rfl rfl isComponent_ledgerName (by decide)
      short_ledgerName rfl (by decide) (by decide)
      (by simp [there])
  exact load_of_readFile_blockedRecords (readFile_eq_ok_iff.mpr ⟨_, located, there⟩)

/-- A link in the place of the ledger is replaced by a file when records are written, moved or removed,
whether it leads to a ledger or to nothing. -/
theorem link_replaced_linkedElsewhere :
    (danglingLedger.statLink (results.ledgerPath .global) = .ok (.link ⟨"other.json"⟩) ∧
      ∃ s, results.writeBack .global danglingLedger = .ok () s ∧
        s.statLink (results.ledgerPath .global) = .ok (.file (Record.document []))) ∧
    linkedElsewhere.statLink (results.ledgerPath .global) = .ok (.link ⟨"other.json"⟩) ∧
      (∃ content s, results.moveBack .global 1 linkedElsewhere = .ok true s ∧
        s.statLink (results.ledgerPath .global) = .ok (.file content)) ∧
      ∃ content s, results.remove .global 1 linkedElsewhere = .ok true s ∧
        s.statLink (results.ledgerPath .global) = .ok (.file content) := by
  have persisted : ∀ records, results.persist .global records linkedElsewhere
      = .ok () (replacedResults linkedElsewhere (Record.document records)) := by
    have link : linkedElsewhere.find? ["results", "history.json"]
        = some (.link ⟨"other.json"⟩) := rfl
    exact persist_results isSound_linkedElsewhere rfl rfl isPlain_none (by simp [link])
  have readable : (results.load .global linkedElsewhere).isUnreadable = false := by
    rw [load_linkedElsewhere]
    rfl
  have replaced : ∀ content,
      (replacedResults linkedElsewhere content).statLink (results.ledgerPath .global)
        = .ok (.file content) := fun _ => rfl
  have written : results.writeBack .global danglingLedger
      = .ok () (replacedResults danglingLedger (Record.document [])) := by
    have sound : danglingLedger.IsSound := isSound_of_entries (by decide) rfl
    refine update_of_persist ?_ ?_ (persist_results sound rfl rfl isPlain_none (by decide) [])
    · rw [load_danglingLedger]
      rfl
    · rw [load_danglingLedger]
      rfl
  have moved : results.moveBack .global 1 linkedElsewhere
      = .ok true (replacedResults linkedElsewhere
        (Record.document [⟨"", [], 0, 2, none⟩, ⟨"", [], 0, 1, none⟩])) := by
    refine update_of_persist readable ?_ (persisted _)
    rw [load_linkedElsewhere]
    rfl
  have removed : results.remove .global 1 linkedElsewhere
      = .ok true (replacedResults linkedElsewhere (Record.document [⟨"", [], 0, 2, none⟩])) := by
    have absent : results.removeImage .global 1 linkedElsewhere = .ok false linkedElsewhere := by
      rw [removeImage, imagePath_one]
      rfl
    refine update_of_persist readable ?_ (persisted _)
    rw [load_linkedElsewhere, run_bind_of_ok absent]
    rfl
  exact ⟨⟨rfl, _, written, rfl⟩, rfl, ⟨_, _, moved, replaced _⟩, _, _, removed, replaced _⟩

end ImageGateway.Archive
