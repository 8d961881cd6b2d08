import ImageGateway.Proofs.Archive.Changes
import ImageGateway.Proofs.Archive.Likeness
import Mathlib.Data.Finset.Card

/-!
# The programs of the archive are local

Every program gives the same answer on trees that look alike to its project, and leaves trees that
look alike (`local_recordBatch`, `local_moveForward`, `local_moveBack`, `local_remove`,
`local_clear`). Removing all images is the one that lists a directory: the images of the two trees may
come in different orders there, but the same ones go and as many are counted (`removeCounting_eq`).
-/

set_option autoImplicit false

namespace ImageGateway.Archive

open Storage Storage.FileTree

variable {a : Archive} {p : Project} {t s u t' s' : FileTree} {root : Location}
  {name name' : String} {α : Type}

/-! ## Removing all images -/

theorem mem_namesIn {dir : Location} : name ∈ t.namesIn dir ↔ t.find? (dir ++ [name]) ≠ none := by
  have unfolded : t.find? (dir ++ [name]) = t.entries.lookup (dir ++ [name]) := by
    rw [find?]
    simp
  rw [unfolded, namesIn, List.mem_filterMap, Ne, List.lookup_eq_none_iff]
  constructor
  · -- a listed name is the last part of a location in the directory
    rintro ⟨⟨place, entry⟩, listed, isName⟩ missing
    rw [nameIn?] at isName
    split at isName
    · rename_i inDir
      obtain ⟨front, rfl⟩ := List.getLast?_eq_some_iff.mp isName
      rw [List.dropLast_concat] at inDir
      exact absurd (missing _ listed) (by simp [inDir])
    · exact absurd isName (by simp)
  · intro found
    refine Decidable.not_not.mp fun unnamed => found fun entry listed => ?_
    refine bne_iff_ne.mpr fun same => unnamed ⟨entry, listed, ?_⟩
    rw [nameIn?, ← same, List.dropLast_concat, if_pos rfl, List.getLast?_concat]

/-- There is something of the name to be removed. -/
def IsRemovable (a : Archive) (p : Project) (t : FileTree) (name : String) : Prop :=
  ∃ s, t.removeFile ((a.projectDir p).join name) = .ok s

theorem isRemovable_iff :
    a.IsRemovable p t name ↔ ∃ loc, t.locate false ((a.projectDir p).join name) = .ok loc ∧
      t.find? loc ≠ some .directory ∧ t.find? loc ≠ none := by
  constructor
  · rintro ⟨s, removed⟩
    obtain ⟨loc, located, notDir, there, -⟩ := removeFile_eq_ok removed
    exact ⟨loc, located, notDir, there⟩
  · rintro ⟨loc, located, notDir, there⟩
    have acted : takeAway (t.find? loc) = .ok none := by
      rw [takeAway, if_neg there, if_neg notDir]
    obtain ⟨s, removed, -⟩ := (actsOn_removeFile _).done t loc none located acted
    exact ⟨s, removed⟩

/-- What can be removed is seen from the place of the project and the file itself. -/
theorem isRemovable_congr (h : a.IsAt root t) (h' : a.IsAt root s) (hname : IsOwnName name)
    (hplace : s.find? (p.place root) = t.find? (p.place root))
    (hfile : s.find? (p.place root ++ [name]) = t.find? (p.place root ++ [name])) :
    a.IsRemovable p s name ↔ a.IsRemovable p t name := by
  rw [isRemovable_iff, isRemovable_iff]
  rcases h.locate_cases h' hplace (isComponent_of_isOwnName hname) false with
    ⟨fault, ht, hs⟩ | ⟨ht, hs⟩
  · rw [ht, hs]
    simp
  · rw [ht, hs]
    simp [hfile]

/-- After one file has been removed the others can still be removed, and it cannot. -/
theorem isRemovable_of_setAt (h : a.IsAt root t) (h' : a.IsAt root s) (hname : IsOwnName name)
    (hname' : IsOwnName name') (put : t.SetAt (p.place root ++ [name]) none s) :
    a.IsRemovable p s name' ↔ name' ≠ name ∧ a.IsRemovable p t name' := by
  have hplace : s.find? (p.place root) = t.find? (p.place root) :=
    put.elsewhere _ (Ne.symm (Project.place_append_ne_place hname p p root))
  by_cases same : name' = name
  · subst same
    refine iff_of_false (fun removable => ?_) (fun both => both.1 rfl)
    obtain ⟨loc, located, -, there⟩ := isRemovable_iff.mp removable
    obtain ⟨rfl, -⟩ := locate_of_locate h' h' (.refl s) (isComponent_of_isOwnName hname) located true
    exact there put.here
  · -- another file of the project is seen as before
    have elsewhere := put.elsewhere (p.place root ++ [name'])
      fun here => same (List.singleton_inj.mp (List.append_cancel_left here))
    rw [isRemovable_congr h h' hname' hplace elsewhere]
    simp [same]

/-- What is left of a tree after some files of a project have been removed. -/
structure IsWithout (p : Project) (root : Location) (removed : String → Prop) (t s : FileTree) :
    Prop where
  working : s.workingDirectory = t.workingDirectory
  gone : ∀ name, removed name → s.find? (p.place root ++ [name]) = none
  elsewhere : ∀ loc, (∀ name, removed name → loc ≠ p.place root ++ [name]) →
    s.find? loc = t.find? loc

theorem IsWithout.congr {removed removed' : String → Prop} (h : IsWithout p root removed t s)
    (hsame : ∀ name, removed name ↔ removed' name) : IsWithout p root removed' t s := by
  obtain rfl : removed = removed' := funext fun name => propext (hsame name)
  exact h

theorem IsWithout.of_setAt {removed : String → Prop}
    (put : t.SetAt (p.place root ++ [name]) none s) (h : IsWithout p root removed s u) :
    IsWithout p root (fun other => other = name ∨ removed other) t u where
  working := h.working.trans put.working
  gone := by
    intro other gone
    -- a name that is removed twice is gone after the second time, any other after the first
    by_cases later : removed other
    · exact h.gone other later
    have first := gone.resolve_right later
    rw [h.elsewhere _ fun name' later' here => later ?_, first, put.here]
    rwa [List.singleton_inj.mp (List.append_cancel_left here)]
  elsewhere := by
    intro loc clear
    rw [h.elsewhere loc fun other later => clear other (.inr later),
      put.elsewhere loc (clear name (.inl rfl))]

open Classical in
/-- The names of which there is something to be removed. -/
noncomputable def removableNames (a : Archive) (p : Project) (t : FileTree) (names : List String) :
    Finset String :=
  names.toFinset.filter (a.IsRemovable p t)

theorem mem_removableNames {names : List String} :
    name ∈ a.removableNames p t names ↔ name ∈ names ∧ a.IsRemovable p t name := by
  simp only [removableNames, Finset.mem_filter, List.mem_toFinset]

theorem removableNames_cons_of_not {rest : List String} (h : ¬ a.IsRemovable p t name) :
    a.removableNames p t (name :: rest) = a.removableNames p t rest := by
  ext other
  rw [mem_removableNames, mem_removableNames, List.mem_cons]
  constructor
  · rintro ⟨rfl | listed, removable⟩
    · exact absurd removable h
    · exact ⟨listed, removable⟩
  · rintro ⟨listed, removable⟩
    exact ⟨.inr listed, removable⟩

/-- After a name has been removed the others are left to be removed. -/
theorem removableNames_cons {rest : List String} (h : a.IsRemovable p t name)
    (hstill : ∀ other ∈ rest, a.IsRemovable p s other ↔ other ≠ name ∧ a.IsRemovable p t other) :
    name ∉ a.removableNames p s rest ∧
      a.removableNames p t (name :: rest) = insert name (a.removableNames p s rest) := by
  constructor
  · intro again
    obtain ⟨listed, removable⟩ := mem_removableNames.mp again
    exact ((hstill name listed).mp removable).1 rfl
  · ext other
    rw [Finset.mem_insert, mem_removableNames, mem_removableNames, List.mem_cons]
    constructor
    · rintro ⟨listed, removable⟩
      by_cases same : other = name
      · exact .inl same
      · have listed := listed.resolve_left same
        exact .inr ⟨listed, (hstill other listed).mpr ⟨same, removable⟩⟩
    · rintro (rfl | ⟨listed, removable⟩)
      · exact ⟨.inl rfl, h⟩
      · exact ⟨.inr listed, ((hstill other listed).mp removable).2⟩

/-- Of some images those are counted that can be removed, each once, and only these go. -/
theorem removeCounting_eq {names : List String} (h : a.IsAt root t)
    (hnames : ∀ name ∈ names, IsImage name) :
    ∃ s, removeCounting (names.map (a.projectDir p).join) t
        = .ok (a.removableNames p t names).card s ∧ a.IsAt root s ∧
      IsWithout p root (· ∈ a.removableNames p t names) t s := by
  -- a name that is listed again is not removed again, since its file has gone
  induction names generalizing t with
  | nil =>
    have none : ∀ name, name ∉ a.removableNames p t [] :=
      fun name both => absurd (mem_removableNames.mp both).1 List.not_mem_nil
    exact ⟨t, rfl, h, rfl, fun name gone => absurd gone (none name), fun _ _ => rfl⟩
  | cons name rest ih =>
    have own := isOwnName_of_isImage (hnames name List.mem_cons_self)
    have images : ∀ other ∈ rest, IsImage other :=
      fun other listed => hnames other (List.mem_cons_of_mem _ listed)
    rw [List.map_cons, removeCounting]
    cases removed : t.removeFile ((a.projectDir p).join name) with
    | error fault =>
      have stays : ¬ a.IsRemovable p t name := by
        rintro ⟨s, run⟩
        exact absurd (removed.symm.trans run) (by simp)
      have first : Disk.tryRemove ((a.projectDir p).join name) t = .ok false t := by
        rw [Disk.tryRemove, removed]
      obtain ⟨s, run, hs, left⟩ := ih h images
      rw [removableNames_cons_of_not stays, run_bind_of_ok first, run_bind_of_ok run]
      exact ⟨s, rfl, hs, left⟩
    | ok u =>
      have first : Disk.tryRemove ((a.projectDir p).join name) t = .ok true u := by
        rw [Disk.tryRemove, removed]
      obtain ⟨loc, located, -, -, put⟩ := removeFile_eq_ok removed
      obtain ⟨rfl, -⟩ := locate_of_locate h h (.refl t) (isComponent_of_isOwnName own) located true
      have hu := h.of_touches
        (removeFile_own h.sound h.hasNoLinks (isComponent_of_isOwnName own) own removed)
      obtain ⟨once, names⟩ := removableNames_cons ⟨u, removed⟩ fun other listed =>
        isRemovable_of_setAt h hu own (isOwnName_of_isImage (images other listed)) put
      obtain ⟨s, run, hs, left⟩ := ih hu images
      refine ⟨s, ?_, hs, ?_⟩
      · rw [run_bind_of_ok first, run_bind_of_ok run, names, Finset.card_insert_of_notMem once]
        rfl
      · exact (left.of_setAt put).congr fun other => by rw [names, Finset.mem_insert]

/-- The path of the directory of a project leads to its place. -/
theorem IsAt.locate_projectDir (h : a.IsAt root t) (hwalk : Walkable (a.projectDir p)) :
    t.locate true (a.projectDir p)
      = if longestName < p.name.utf8ByteSize then .error .nameTooLong
        else .ok (p.place root) := by
  cases hp : p.isGlobal with
  | true =>
    rw [projectDir_of_isGlobal a hp] at hwalk ⊢
    rw [h.leads.locate hwalk, if_neg (not_long_of_isGlobal hp), Project.place_of_isGlobal hp]
  | false =>
    have component := Project.isComponent_name hp
    have noLink := h.place_ne_link (p := p)
    rw [Project.place_of_not_isGlobal hp] at noLink ⊢
    rw [projectDir_of_not_isGlobal a hp] at hwalk ⊢
    obtain ⟨left, walked⟩ := h.leads.walk_join component hwalk
    rw [walked]
    split
    · rename_i long
      exact walk_tooLong component.isName (Nat.not_le_of_lt long)
    · rename_i short
      exact walk_one ⟨component.isName, Nat.le_of_not_lt short⟩ noLink

/-- What is listed is the directory in the place of the project, or nothing can be listed. -/
theorem LooksAlike.list (h : a.LooksAlike p root t s) :
    (∃ fault, t.list (a.projectDir p) = .error fault ∧ s.list (a.projectDir p) = .error fault) ∨
      t.list (a.projectDir p) = .ok (t.namesIn (p.place root)) ∧
        s.list (a.projectDir p) = .ok (s.namesIn (p.place root)) := by
  by_cases hwalk : Walkable (a.projectDir p)
  · have ht := h.left.locate_projectDir hwalk
    have hs := h.right.locate_projectDir hwalk
    split at ht
    · rename_i long
      rw [if_pos long] at hs
      exact .inl ⟨_, list_of_locate_error ht, list_of_locate_error hs⟩
    · rename_i short
      rw [if_neg short] at hs
      rw [list_of_locate ht, list_of_locate hs, h.place]
      cases t.find? (p.place root) with
      | none => exact .inl ⟨_, rfl, rfl⟩
      | some entry =>
        cases entry with
        | directory => exact .inr ⟨rfl, rfl⟩
        | file content => exact .inl ⟨_, rfl, rfl⟩
        | link target => exact .inl ⟨_, rfl, rfl⟩
  · obtain ⟨fault, failed⟩ := locateNames_error hwalk
    exact .inl ⟨fault, list_of_locate_error (failed t true _), list_of_locate_error (failed s true _)⟩

/-- Trees that look alike still do so without the same files. -/
theorem SeesSame.of_isWithout {removed : String → Prop} (h : SeesSame p root t s)
    (ht : IsWithout p root removed t t') (hs : IsWithout p root removed s s') :
    SeesSame p root t' s' := by
  have same : ∀ loc, s.find? loc = t.find? loc → s'.find? loc = t'.find? loc := by
    intro loc before
    -- a location is either the same as before in both trees, or free in both
    by_cases clear : ∀ name, removed name → loc ≠ p.place root ++ [name]
    · rw [hs.elsewhere loc clear, ht.elsewhere loc clear, before]
    · push Not at clear
      obtain ⟨name, gone, rfl⟩ := clear
      rw [hs.gone name gone, ht.gone name gone]
  refine ⟨⟨?_, fun loc target => ?_⟩, same _ h.place, fun name own => same _ (h.files name own)⟩
  · rw [hs.working, ht.working, h.links.working]
  · by_cases clear : ∀ name, removed name → loc ≠ p.place root ++ [name]
    · rw [hs.elsewhere loc clear, ht.elsewhere loc clear]
      exact h.links.link loc target
    · push Not at clear
      obtain ⟨name, gone, rfl⟩ := clear
      rw [hs.gone name gone, ht.gone name gone]

theorem local_removeAllImages : a.Local p root (a.removeAllImages p) := by
  intro t s alike
  rw [removeAllImages, removeAllImages]
  rcases alike.list with ⟨fault, ht, hs⟩ | ⟨ht, hs⟩
  · rw [ht, hs]
    exact .ok 0 alike
  rw [ht, hs]
  have images : ∀ (u : FileTree), ∀ name ∈ (u.namesIn (p.place root)).filter isImageFileName,
      IsImage name := fun u name listed => (List.mem_filter.mp listed).2
  obtain ⟨t', run, ht', left⟩ := removeCounting_eq (p := p) alike.left (images t)
  obtain ⟨s', run', hs', left'⟩ := removeCounting_eq (p := p) alike.right (images s)
  -- the images of both trees have the same names, though not in the same order
  have same : a.removableNames p s ((s.namesIn (p.place root)).filter isImageFileName)
      = a.removableNames p t ((t.namesIn (p.place root)).filter isImageFileName) := by
    ext name
    rw [mem_removableNames, mem_removableNames, List.mem_filter, List.mem_filter, and_assoc,
      and_assoc, mem_namesIn, mem_namesIn]
    by_cases image : IsImage name
    · have own := isOwnName_of_isImage image
      rw [alike.files name own,
        isRemovable_congr alike.left alike.right own alike.place (alike.files name own)]
    · have other : isImageFileName name = false := Bool.eq_false_iff.mpr image
      simp [other]
  rw [same] at run' left'
  simp only [run, run']
  exact .ok _ ⟨alike.toSeesSame.of_isWithout left left', ht', hs'⟩

/-! ## The programs of the archive -/

theorem local_removeCounting {names : List String} (h : ∀ name ∈ names, IsOwnName name) :
    a.Local p root (removeCounting (names.map (a.projectDir p).join)) := by
  induction names with
  | nil => exact local_pure 0
  | cons name rest ih =>
    refine local_bind (local_tryRemove (h name List.mem_cons_self)) fun removed => ?_
    refine local_bind (ih fun other listed => h other (List.mem_cons_of_mem _ listed)) fun more => ?_
    exact local_pure _

theorem imagePaths_eq (a : Archive) (p : Project) (records : List Record) :
    records.map (fun r => a.imagePath p r.id)
      = (records.map fun r => Record.imageFileName r.id).map (a.projectDir p).join := by
  simp only [List.map_map, Function.comp_def, imagePath]

theorem isImage_of_mem_map {records : List Record}
    (h : name ∈ records.map fun r => Record.imageFileName r.id) : IsImage name := by
  obtain ⟨r, -, rfl⟩ := List.mem_map.mp h
  exact isImage_imageFileName r.id

theorem local_removeListedImages (state : LedgerState) :
    a.Local p root (a.removeListedImages p state) := by
  cases state with
  | absent => exact local_pure 0
  | unreadable => exact local_removeAllImages
  | present records =>
    rw [removeListedImages, imagePaths_eq]
    exact local_removeCounting fun name listed => isOwnName_of_isImage (isImage_of_mem_map listed)

theorem local_writeImage (id : RecordId) (content : Bytes) :
    a.Local p root (a.writeImage p id content) :=
  local_bind local_makeDirs fun _ =>
    local_writeFile (isOwnName_of_isImage (isImage_imageFileName id)) content

theorem local_removeImage (id : RecordId) : a.Local p root (a.removeImage p id) :=
  local_tryRemove (isOwnName_of_isImage (isImage_imageFileName id))

theorem local_recordImages (parameters : Json.Members) (genTime : UInt64)
    (images : List (String × Record.CacheToken)) (numbering : Numbering) :
    a.Local p root (a.recordImages p parameters genTime numbering images) := by
  induction images generalizing numbering with
  | nil => exact local_pure []
  | cons image rest ih =>
    obtain ⟨encoded, token⟩ := image
    rw [recordImages]
    cases numbering.next with
    | error e => exact local_throw e
    | ok next =>
      obtain ⟨id, numbering⟩ := next
      refine local_bind (local_writeImage id (decodeImage encoded)) fun _ => ?_
      refine local_bind (ih numbering) fun more => ?_
      exact local_pure _

theorem local_ledgerIsThere : a.Local p root (a.ledgerIsThere p) := by
  intro t s alike
  have same := alike.statLink isOwnName_ledgerName
  rw [← ledgerPath_eq_join] at same
  delta ledgerIsThere
  rw [same]
  cases t.statLink (a.ledgerPath p) with
  | ok entry =>
    cases entry with
    | file content => exact .ok true alike
    | directory => exact .error _ alike
    | link target => exact .error _ alike
  | error fault =>
    cases fault with
    | notFound => exact .ok false alike
    | _ => exact .error _ alike

theorem local_setAside : a.Local p root (a.setAside p) := by
  refine local_bind local_ledgerIsThere fun there => ?_
  cases there with
  | false => exact local_pure PUnit.unit
  | true =>
    intro t s alike
    have moved := localOp_rename isOwnName_ledgerName isOwnName_asideName t s alike
    rw [← ledgerPath_eq_join, ← asidePath_eq_join] at moved
    show SameOutcome _ (.ok () (((t.rename (a.ledgerPath p) (a.asidePath p)).toOption).getD t))
      (.ok () (((s.rename (a.ledgerPath p) (a.asidePath p)).toOption).getD s))
    rcases moved with ⟨fault, ht, hs⟩ | ⟨t', s', ht, hs, alike'⟩
    · simp only at ht hs
      rw [ht, hs]
      exact .ok () alike
    · simp only at ht hs
      rw [ht, hs]
      exact .ok () alike'

theorem local_persist (records : List Record) : a.Local p root (a.persist p records) := by
  refine local_bind local_makeDirs fun _ => local_bind ?_ fun _ => ?_
  · rw [temporaryPath_eq_join]
    exact local_writeFile isOwnName_temporaryName _
  · refine local_change ?_
    rw [temporaryPath_eq_join, ledgerPath_eq_join]
    exact localOp_rename isOwnName_temporaryName isOwnName_ledgerName

theorem local_settle (unreadable : Bool) (commit : Commit α) :
    a.Local p root (a.settle p unreadable commit) := by
  cases commit with
  | keep x => exact local_pure x
  | write records x =>
    have written : a.Local p root (a.persist p records >>= fun _ => pure x) :=
      local_bind (local_persist records) fun _ => local_pure x
    cases unreadable with
    | false => exact written
    | true => exact local_bind local_setAside fun _ => written

/-- A change that is local is a local update. -/
theorem local_update {change : List Record → Disk (Commit α)}
    (h : ∀ records, a.Local p root (change records)) : a.Local p root (a.update p change) := by
  have same : a.update p change = (get >>= fun t =>
      change (a.load p t).records >>= a.settle p (a.load p t).isUnreadable) :=
    funext (update_eq change)
  rw [same]
  exact local_get_load (fun state => change state.records >>= a.settle p state.isUnreadable)
    fun state => local_bind (h _) fun commit => local_settle _ commit

theorem local_recordBatch (tokens : Nat → Record.CacheToken) (request answer : Bytes)
    (elapsed : UInt64) :
    a.Local p root (a.recordBatch p tokens request answer elapsed) := by
  rw [recordBatch]
  split
  · exact local_pure []
  · exact local_update fun records => local_bind (local_recordImages _ _ _ _) fun created =>
      local_pure _

theorem local_moveForward (id : RecordId) : a.Local p root (a.moveForward p id) :=
  local_update fun _ => local_pure _

theorem local_moveBack (id : RecordId) : a.Local p root (a.moveBack p id) :=
  local_update fun _ => local_pure _

theorem local_remove (id : RecordId) : a.Local p root (a.remove p id) :=
  local_update fun _ => local_bind (local_removeImage id) fun _ => local_pure _

theorem local_removeBeside (state : LedgerState) : a.Local p root (a.removeBeside p state) := by
  refine local_bind (local_removeListedImages state) fun removed => ?_
  refine local_bind ?_ fun _ => local_bind ?_ fun _ => local_pure removed
  · rw [temporaryPath_eq_join]
    exact local_removeIfPresent isOwnName_temporaryName
  · rw [asidePath_eq_join]
    exact local_removeIfPresent isOwnName_asideName

theorem local_clear : a.Local p root (a.clear p) := by
  rw [clear_eq]
  refine local_bind local_ledgerIsThere fun _ => ?_
  refine local_get_load (fun state => do
    let removed ← a.removeBeside p state
    Disk.removeIfPresent (a.ledgerPath p)
    pure removed) fun state => ?_
  refine local_bind (local_removeBeside state) fun removed => local_bind ?_ fun _ =>
    local_pure removed
  rw [ledgerPath_eq_join]
  exact local_removeIfPresent isOwnName_ledgerName

end ImageGateway.Archive
