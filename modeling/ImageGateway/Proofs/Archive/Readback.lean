import ImageGateway.Proofs.Archive.Changes

/-!
# Reading back what has been recorded

A batch that has been recorded is in the ledger, and the ledger can be read, exactly if no record is
nested deeper than a ledger allows (`load_of_recordBatch`). A request may be nested two levels deeper
than that.
-/

set_option autoImplicit false

namespace ImageGateway

open Storage Storage.FileTree

namespace Archive

variable {a : Archive} {p : Project} {t s u : FileTree} {dir : Location} {records : List Record}

/-- Wherever the directory of a project is, or would be if directories were made, the temporary file
is no link; and the ledger is one only if the directory is there. -/
def HasPlainFiles (a : Archive) (p : Project) (t : FileTree) : Prop :=
  ∀ dir, t.WouldLeadTo (a.projectDir p) dir → ∀ target,
    t.find? (dir ++ [temporaryName]) ≠ some (.link target) ∧
      (t.find? (dir ++ [ledgerName]) = some (.link target) → t.LeadsTo (a.projectDir p) dir)

theorem load_eq_unreadable {fault : Fault} (h : t.readFile (a.ledgerPath p) = .error fault)
    (hfault : fault ≠ .notFound) : a.load p t = .unreadable := by
  delta load
  rw [h]
  cases fault with
  | notFound => exact absurd rfl hfault
  | _ => rfl

/-! ## Writing the ledger -/

/-- What is different after a ledger has been written. -/
structure IsWritten (a : Archive) (p : Project) (records : List Record) (t s : FileTree)
    (dir : Location) : Prop where
  walkable : Walkable (a.ledgerPath p)
  notDir : t.find? (dir ++ [ledgerName]) ≠ some .directory
  keepsBut : KeepsBut (dir ++ [ledgerName]) t s
  working : s.workingDirectory = t.workingDirectory
  ledger : s.find? (dir ++ [ledgerName]) = some (.file (Record.document records))

/-- A ledger that has been written is a file in the directory of the project. -/
theorem isWritten_of_rename (hs : t.IsSound) (hled : t.LeadsTo (a.projectDir p) dir)
    (hplain : ∀ target, t.find? (dir ++ [temporaryName]) ≠ some (.link target))
    (hwritten : t.writeFile (a.temporaryPath p) (Record.document records) = .ok s)
    (hrenamed : s.rename (a.temporaryPath p) (a.ledgerPath p) = .ok u) :
    a.IsWritten p records t u dir := by
  have builds := builds_of_writeFile hwritten hs
  have led := hled.keep builds.2
  rw [temporaryPath_eq_join] at hwritten hrenamed
  obtain ⟨loc, located, notDir, put⟩ := writeFile_eq_ok hwritten
  obtain ⟨source, target, entry, hsource, found, -, htarget, targetNotDir, moved⟩ :=
    rename_eq_ok hrenamed
  obtain ⟨walkable, -⟩ := walk_of_locateNames htarget
  rw [ledgerPath_eq_join] at htarget
  -- all three walks end in the directory of the project
  obtain ⟨dir₁, left₁, led₁, last₁⟩ := locate_join isComponent_temporaryName located
  obtain ⟨dir₂, left₂, led₂, last₂⟩ := locate_join isComponent_temporaryName hsource
  obtain ⟨dir₃, left₃, led₃, last₃⟩ := locate_join isComponent_ledgerName htarget
  obtain rfl : dir = dir₁ := led₁.unique hled (.refl t)
  obtain rfl : dir = dir₂ := led₂.unique led (.refl s)
  obtain rfl : dir = dir₃ := led₃.unique led (.refl s)
  obtain rfl := eq_of_walk_one isComponent_temporaryName.isName hplain last₁
  obtain rfl := eq_of_walk_one_false isComponent_temporaryName.isName last₂
  obtain rfl := eq_of_walk_one_false isComponent_ledgerName.isName last₃
  have differs : dir ++ [ledgerName] ≠ dir ++ [temporaryName] :=
    fun same => absurd (List.append_cancel_left same) (by decide)
  rw [put.here] at found
  obtain rfl := Option.some.inj found
  rcases moved with ⟨same, -⟩ | ⟨-, mid, gone, final⟩
  · exact absurd same.symm differs
  refine ⟨walkable, ?_, fun loc elsewhere => ?_, ?_, final.here⟩
  · rwa [put.elsewhere _ differs] at targetNotDir
  · by_cases here : loc = dir ++ [temporaryName]
    · subst here
      exact ⟨fun isDir => absurd isDir notDir, fun target isLink => absurd isLink (hplain target)⟩
    · rw [final.elsewhere loc elsewhere, gone.elsewhere loc here, put.elsewhere loc here]
      exact ⟨id, fun _ => id⟩
  · rw [final.working, gone.working, put.working]

/-- The ledger is read where it has been written, if its directory is still there. -/
theorem IsWritten.readFile (h : a.IsWritten p records t s dir)
    (hled : s.LeadsTo (a.projectDir p) dir) :
    s.readFile (a.ledgerPath p) = .ok (Record.document records) := by
  have walkable := h.walkable
  rw [ledgerPath_eq_join] at walkable
  obtain ⟨left, walked⟩ := hled.walk_join isComponent_ledgerName walkable
  have located : s.locate true (a.ledgerPath p) = .ok (dir ++ [ledgerName]) := by
    rw [ledgerPath_eq_join, walked]
    exact walk_one isStep_ledgerName (by simp [h.ledger])
  exact readFile_eq_ok_iff.mpr ⟨_, located, h.ledger⟩

/-- The directory of a project is still there after its ledger has been written, unless the ledger was
a link over which the path of that directory goes. -/
theorem IsWritten.leadsTo_or (h : a.IsWritten p records t s dir)
    (hled : t.LeadsTo (a.projectDir p) dir) :
    s.LeadsTo (a.projectDir p) dir ∨
      ∃ target links left mid, t.find? (dir ++ [ledgerName]) = some (.link target) ∧
        t.Leads links (if target.isAbsolute then [] else dir) target.route left mid := by
  obtain ⟨left, led⟩ := hled
  rcases led.keepBut h.keepsBut h.notDir with
    led' | ⟨dir', name, target, links, left', mid, here, hlink, led'⟩
  · refine .inl ⟨left, ?_⟩
    rw [start, h.working]
    exact led'
  · obtain ⟨rfl, -⟩ := List.append_inj' here rfl
    exact .inr ⟨target, links, left', mid, hlink, led'⟩

/-- A ledger cannot be read if it is a link to a directory. -/
theorem isUnreadable_of_link {target : FilePath} {links left : Nat} {mid : Location}
    (hs : t.IsSound) (hwalk : Walkable (a.ledgerPath p)) (hled : t.LeadsTo (a.projectDir p) dir)
    (hlink : t.find? (dir ++ [ledgerName]) = some (.link target))
    (hmid : t.Leads links (if target.isAbsolute then [] else dir) target.route left mid) :
    (a.load p t).isUnreadable = true := by
  obtain ⟨room, led⟩ := hled
  have there : t.find? mid = some .directory :=
    hmid.isDirectory hs (find?_linkStart (led.isDirectory hs (hs.start _)) target)
  -- the look-up comes to the link and jumps from there with the links that are left
  have located : t.locate true (a.ledgerPath p) = t.jump true room dir target [] := by
    rw [locate, locateNames_eq_walk hwalk, ledgerPath_eq_join,
      start_join t _ isComponent_ledgerName, FilePath.names_join _ isComponent_ledgerName,
      led.walk_append (.inr rfl), walk_link isStep_ledgerName hlink (.inr rfl)]
  have unreadable : a.load p t = .unreadable := by
    cases room with
    | zero => exact load_eq_unreadable (readFile_of_error located) (by simp)
    | succ room =>
      rw [jump, List.append_nil] at located
      -- with fewer links it comes to the same directory, or has followed too many
      rcases hmid.walk_other room with reached | many
      · have read := readFile_of_locate (located.trans reached)
        rw [readAt, there] at read
        exact load_eq_unreadable read (by simp)
      · exact load_eq_unreadable (readFile_of_error (located.trans many)) (by simp)
  rw [unreadable]
  rfl

theorem IsWritten.of_keeps (h : a.IsWritten p records s u dir) (hkeep : t.Keeps s) :
    a.IsWritten p records t u dir where
  walkable := h.walkable
  notDir := fun isDir => h.notDir (hkeep.directory _ isDir)
  keepsBut := fun loc elsewhere =>
    ⟨fun isDir => (h.keepsBut loc elsewhere).1 (hkeep.directory loc isDir),
      fun target isLink => (h.keepsBut loc elsewhere).2 target ((hkeep.link loc target).mpr isLink)⟩
  working := h.working.trans hkeep.working
  ledger := h.ledger

/-- In the place of a ledger that could be read is what has been written, whatever has been built
meanwhile. -/
theorem readFile_of_persist {x : Unit} (hs : t.IsSound) (hread : (a.load p t).isUnreadable = false)
    (hplain : a.HasPlainFiles p t) (hbuilt : s.IsSound ∧ t.Keeps s)
    (hrun : a.persist p records s = .ok x u) :
    u.readFile (a.ledgerPath p) = .ok (Record.document records) := by
  obtain ⟨v, w, made, written, renamed⟩ := persist_eq_ok hrun
  obtain ⟨dir, led⟩ : ∃ dir, v.LeadsTo (a.projectDir p) dir := by
    have there := leadsTo_of_makeDirs hbuilt.1 (congrArg Prod.fst made)
    rwa [made] at there
  have sound : v.IsSound := by
    have sound := isSound_makeDirs hbuilt.1 (a.projectDir p)
    rwa [made] at sound
  have grown : Grown (a.projectDir p) s v := by
    have grown := grown_makeDirs hbuilt.1 (a.projectDir p)
    rwa [made] at grown
  have keeps : t.Keeps v := hbuilt.2.trans grown.keeps
  have would : t.WouldLeadTo (a.projectDir p) dir := ⟨v, keeps.toSameLinks, led⟩
  have isWritten := isWritten_of_rename sound led
    (fun target isLink => (hplain dir would target).1 ((keeps.link _ _).mp isLink)) written renamed
  -- a link over which the path goes was there at the start, and so was the directory behind it
  rcases isWritten.leadsTo_or led with led' | ⟨target, -, -, -, hlink, -⟩
  · exact isWritten.readFile led'
  have before := isWritten.of_keeps keeps
  have hlink' := (keeps.link _ _).mp hlink
  have led₀ := (hplain dir would target).2 hlink'
  rcases before.leadsTo_or led₀ with led' | ⟨target', links, left, mid, hlink', hmid⟩
  · exact isWritten.readFile led'
  · have unreadable := isUnreadable_of_link hs isWritten.walkable led₀ hlink' hmid
    rw [hread] at unreadable
    exact absurd unreadable (by simp)

theorem load_of_persist {x : Unit} (hs : t.IsSound) (hread : (a.load p t).isUnreadable = false)
    (hplain : a.HasPlainFiles p t) (hbuilt : s.IsSound ∧ t.Keeps s)
    (hrun : a.persist p records s = .ok x u) : a.load p u = afterWriting records :=
  load_of_readFile (readFile_of_persist hs hread hplain hbuilt hrun)

/-! ## Recording a batch -/

theorem respects_writeImage (id : RecordId) (content : Bytes) :
    Respects Builds (a.writeImage p id content) :=
  isFrame_builds.bind (respects_makeDirs _) fun _ => respects_writeFile _ _

/-- Recording the images of a batch keeps all directories and links. -/
theorem respects_recordImages (parameters : Json.Members) (genTime : UInt64)
    (images : List (String × Record.CacheToken)) (numbering : Numbering) :
    Respects Builds (a.recordImages p parameters genTime numbering images) := by
  induction images generalizing numbering with
  | nil => exact isFrame_builds.of_unchanged fun _ => rfl
  | cons image rest ih =>
    obtain ⟨encoded, token⟩ := image
    rw [recordImages]
    cases numbering.next with
    | error e => exact isFrame_builds.of_unchanged fun _ => rfl
    | ok next =>
      obtain ⟨id, more⟩ := next
      exact isFrame_builds.bind (respects_writeImage id _) fun _ =>
        isFrame_builds.bind (ih more) fun _ => isFrame_builds.of_unchanged fun _ => rfl

/-- A batch whose images could be recorded is put behind the records that are there. -/
theorem persist_of_recordBatch {tokens : Nat → Record.CacheToken} {request answer : Bytes}
    {elapsed : UInt64} {created : List Record} (hread : (a.load p t).isUnreadable = false)
    (hrun : a.recordBatch p tokens request answer elapsed t = .ok created s) :
    (created = [] ∧ s = t) ∨
      created ≠ [] ∧ ∃ genTime u, Builds t u ∧
        IsBatch (requestParameters request) genTime
          (Numbering.aboveRecords (a.load p t).records).last created ∧
        a.persist p ((a.load p t).records ++ created) u = .ok () s := by
  rcases recordBatch_eq_or a p tokens request answer elapsed with ⟨-, run⟩ | ⟨-, drawn, run⟩
  · rw [run] at hrun
    obtain ⟨rfl, rfl⟩ := EStateM.Result.ok.inj hrun
    exact .inl ⟨rfl, rfl⟩
  rw [run] at hrun
  obtain ⟨u, v, recorded, way, persisted⟩ := update_addImages_eq_ok hrun
  obtain ⟨batch, size⟩ := isBatch_of_recordImages recorded
  -- the ledger could be read, so that nothing is moved aside before it is written
  obtain ⟨-, rfl⟩ := way.resolve_right (by simp [hread])
  refine .inr ⟨fun empty => drawn ?_, _, v, (respects_recordImages _ _ _ _).of_ok recorded, batch,
    persisted⟩
  rw [empty, List.length_nil] at size
  exact List.length_eq_zero_iff.mp size.symm

theorem afterWriting_eq_present_iff :
    afterWriting records = .present records ↔ ∀ r ∈ records, r.reread = some r := by
  rw [afterWriting]
  constructor
  · intro h
    cases hread : records.mapM Record.reread with
    | none =>
      rw [hread] at h
      exact absurd h (by simp)
    | some read =>
      rw [hread] at h
      rw [LedgerState.present.inj h] at hread
      exact Json.eq_some_self_of_mapM hread
  · intro h
    rw [Json.mapM_eq_some_self h]

/-- The records of a ledger are read back as themselves once more if their numbers are integers of 64
bits. -/
theorem reread_of_load (hload : a.load p t = .present records)
    (hnumbers : ∀ r ∈ records, ∀ n ∈ (Json.Value.object r.taskData).numbers, n.isWord = true) :
    ∀ r ∈ records, r.reread = some r := by
  delta load at hload
  cases hread : t.readFile (a.ledgerPath p) with
  | error fault =>
    rw [hread] at hload
    cases fault <;> exact absurd hload (by simp)
  | ok content =>
    rw [hread] at hload
    simp only at hload
    cases hlisted : Record.ofDocument? content with
    | none =>
      rw [hlisted] at hload
      exact absurd hload (by simp)
    | some listed =>
      rw [hlisted] at hload
      obtain rfl := LedgerState.present.inj hload
      intro r hr
      -- what was read has passed the limit of nesting once, and its keys are sorted
      obtain ⟨sorted, shallow⟩ := Record.isSorted_and_nesting_le_of_ofDocument? hlisted r hr
      refine (Record.reread_eq_some_iff sorted fun n hn => ?_).mpr shallow
      exact Json.reread_of_isWord (hnumbers r hr n hn)

theorem afterWriting_eq_unreadable {r : Record} (hr : r ∈ records) (hread : r.reread = none) :
    afterWriting records = .unreadable := by
  rw [afterWriting]
  cases hall : records.mapM Record.reread with
  | none => rfl
  | some read =>
    obtain ⟨s, hs⟩ := Json.exists_of_mapM_eq_some hall r hr
    exact absurd (hread.symm.trans hs) (by simp)

/-- A batch that has been recorded is read behind the records that were there exactly if these are
read back as themselves and the parameters of the new ones are nested no deeper than a ledger allows;
if some are, the ledger cannot be read any more. -/
theorem load_of_recordBatch {tokens : Nat → Record.CacheToken} {request answer : Bytes}
    {elapsed : UInt64} {created : List Record} (hs : t.IsSound)
    (hread : (a.load p t).isUnreadable = false) (hplain : a.HasPlainFiles p t)
    (hnumbers : ∀ n ∈ (Json.Value.object (requestParameters request)).numbers, n.isWord = true)
    (hrun : a.recordBatch p tokens request answer elapsed t = .ok created s) :
    (created = [] → s = t) ∧
      (created ≠ [] →
        (a.load p s = .present ((a.load p t).records ++ created) ↔
          (∀ r ∈ (a.load p t).records, r.reread = some r) ∧
            ∀ r ∈ created, (Json.Value.object r.taskData).nesting ≤ Record.listedDepth)) ∧
      ((∃ r ∈ created, Record.listedDepth < (Json.Value.object r.taskData).nesting) →
        a.load p s = .unreadable) ∧
      ((∀ r ∈ (a.load p t).records, ∀ n ∈ (Json.Value.object r.taskData).numbers,
          n.isWord = true) → ∀ r ∈ (a.load p t).records, r.reread = some r) ∧
      ((Json.Value.object (requestParameters request)).nesting ≤ Record.listedDepth →
        ∀ r ∈ created, (Json.Value.object r.taskData).nesting ≤ Record.listedDepth) := by
  have stable := isStable_of_isWord hnumbers
  obtain ⟨sorted, -⟩ := requestParameters_sorted_and_nesting request
  have old : (∀ r ∈ (a.load p t).records, ∀ n ∈ (Json.Value.object r.taskData).numbers,
      n.isWord = true) → ∀ r ∈ (a.load p t).records, r.reread = some r := by
    intro hold
    cases hload : a.load p t with
    | present records =>
      rw [hload] at hold
      exact reread_of_load hload hold
    | _ => exact fun r hr => absurd hr List.not_mem_nil
  rcases persist_of_recordBatch hread hrun with ⟨rfl, rfl⟩ |
    ⟨notEmpty, genTime, u, built, batch, persisted⟩
  · refine ⟨fun _ => rfl, fun notEmpty => absurd rfl notEmpty, ?_, old, ?_⟩
    · exact fun ⟨r, hr, _⟩ => absurd hr List.not_mem_nil
    · exact fun _ r hr => absurd hr List.not_mem_nil
  have loaded := load_of_persist hs hread hplain (built hs) persisted
  -- what is read back can only differ in the parameters, and only if they are nested too deep
  have new : ∀ r ∈ created, (r.reread = some r ↔
      (Json.Value.object r.taskData).nesting ≤ Record.listedDepth) ∧
      (Json.Value.object r.taskData).nesting
        ≤ (Json.Value.object (requestParameters request)).nesting := by
    intro r hr
    obtain ⟨id, token, image, rfl⟩ := batch.recorded r hr
    obtain ⟨-, -, flat⟩ := taskData_recordOf_facts genTime id token image sorted stable
    exact ⟨reread_recordOf_iff genTime id token image sorted stable, flat⟩
  refine ⟨fun empty => absurd empty notEmpty, fun _ => ?_, fun ⟨r, hr, deep⟩ => ?_, old,
    fun flat r hr => Nat.le_trans (new r hr).2 flat⟩
  · rw [loaded, afterWriting_eq_present_iff, List.forall_mem_append]
    exact and_congr_right fun _ => forall₂_congr fun r hr => (new r hr).1
  · rw [loaded]
    exact afterWriting_eq_unreadable (List.mem_append_right _ hr) (Record.reread_eq_none deep)

/-! ## The deepest requests -/

/-- The parameters with a member that is an object with such a member, and so on. -/
def nestedParameters : Nat → Json.Members
  | 0 => []
  | count + 1 => [("a", .object (nestedParameters count))]

theorem nestedParameters_facts (count : Nat) :
    (Json.Value.object (nestedParameters count)).IsSorted ∧
      (Json.Value.object (nestedParameters count)).numbers = [] ∧
      (Json.Value.object (nestedParameters count)).nesting = count + 1 := by
  induction count with
  | zero => exact ⟨⟨List.Pairwise.nil, trivial⟩, rfl, rfl⟩
  | succ count ih =>
    obtain ⟨sorted, numbers, deep⟩ := ih
    refine ⟨⟨List.pairwise_singleton _ _, sorted, trivial⟩, ?_, ?_⟩
    · simp [nestedParameters, Json.Value.numbers, Json.Value.membersNumbers] at numbers ⊢
      exact numbers
    · simp [nestedParameters, Json.Value.nesting, Json.Value.membersNesting] at deep ⊢
      exact deep

/-- The body of a request with these parameters. -/
def nestedRequest (count : Nat) : Bytes := (Json.Value.object (nestedParameters count)).compact

theorem requestParameters_nestedRequest {count : Nat} (h : count < Json.maxDepth) :
    requestParameters (nestedRequest count) = nestedParameters count := by
  obtain ⟨sorted, numbers, deep⟩ := nestedParameters_facts count
  have read : (Json.Value.object (nestedParameters count)).reread Json.maxDepth
      = some (.object (nestedParameters count)) := by
    refine Json.reread_eq_some sorted ?_ ?_
    · rw [deep]
      exact h
    · rw [numbers]
      exact fun n hn => absurd hn List.not_mem_nil
  rw [requestParameters, nestedRequest, parse?_compact, read]
  rfl

theorem hasPlainFiles_emptyResults (p : Project) : results.HasPlainFiles p emptyResults := by
  have noLink : ∀ loc target, emptyResults.find? loc ≠ some (.link target) :=
    find?_ne_link (by simp [emptyResults])
  exact fun dir _ target => ⟨noLink _ target, fun found => absurd found (noLink _ target)⟩

/-- The deepest request that is accepted makes the ledger unreadable. -/
theorem load_of_recordBatch_nestedRequest :
    emptyResults.IsSound ∧ (results.load .global emptyResults).isUnreadable = false ∧
      results.HasPlainFiles .global emptyResults ∧
      results.recordBatch .global (fun _ => zeroToken) (nestedRequest 126)
          (answerOf [""]).compact 0 emptyResults
        = .ok [firstRecord (nestedRequest 126) 0 zeroToken ""]
          (recordedResults (decodeImage "")
            (Record.document [firstRecord (nestedRequest 126) 0 zeroToken ""])) ∧
      results.load .global (recordedResults (decodeImage "")
        (Record.document [firstRecord (nestedRequest 126) 0 zeroToken ""])) = .unreadable := by
  have parameters : requestParameters (nestedRequest 126) = nestedParameters 126 :=
    requestParameters_nestedRequest (by decide)
  obtain ⟨-, numbers, deep⟩ := nestedParameters_facts 126
  have absent : results.load .global emptyResults = .absent := load_eq_absent rfl
  have readable : (results.load .global emptyResults).isUnreadable = false := by
    rw [absent]
    rfl
  have run := recordBatch_emptyResults (nestedRequest 126) ""
  have outcome := load_of_recordBatch isAt_emptyResults.sound readable
    (hasPlainFiles_emptyResults .global) (by simp [parameters, numbers]) run
  refine ⟨isAt_emptyResults.sound, readable, hasPlainFiles_emptyResults .global, run,
    outcome.2.2.1 ⟨_, List.mem_singleton_self _, ?_⟩⟩
  rw [taskData_firstRecord, parameters, deep]
  decide

end Archive

end ImageGateway
