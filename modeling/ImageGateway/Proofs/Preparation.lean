import ImageGateway.Startup
import ImageGateway.Proofs.Archive.Places
import ImageGateway.Proofs.Storage.Extending

/-!
# Preparing the results directory

Preparing the results directory never takes anything away (`extends_prepare`), whatever is in its way
and however far it gets, and once it is prepared it is not prepared anew (`prepare_again`). Settings
that were missing are then the defaults (`settings_of_prepare`), since nothing else can have come to be
where they belong, unless the path of the results directory goes up from one that had to be made.
-/

set_option autoImplicit false

namespace ImageGateway

open Storage FileTree

variable {a : Archive} {c : StorageConfig} {t s u : FileTree} {defaults : FilePath} {loc : Location}
  {content : Bytes}

/-! ## The place of the settings -/

namespace Archive

theorem asksForDirectory_settingsPath (a : Archive) : a.settingsPath.asksForDirectory = false :=
  FilePath.asksForDirectory_join a.root isComponent_settingsName

/-- Where the results directory is, no directory has to be made for the settings. -/
theorem makeDirs_parent_settingsPath (hs : t.IsSound) (led : t.LeadsTo a.root loc) :
    (t.makeDirs a.settingsPath.parent).2 = t := by
  have led' : t.LeadsTo a.settingsPath.parent loc := by
    rw [LeadsTo, start, FilePath.isAbsolute_parent, settingsPath_eq_join,
      FilePath.names_parent_join a.root isComponent_settingsName, ← start,
      start_join t a.root isComponent_settingsName]
    exact led
  exact makeDirs_of_blocks hs led' rfl (.refl t)

/-! ## Putting the defaults in place -/

theorem seedSettings_eq (a : Archive) (defaults : FilePath) (t : FileTree) :
    a.seedSettings defaults t
      = (if t.leadsSomewhere a.settingsPath then pure .alreadyPresent
        else if !t.leadsSomewhere defaults then pure .defaultsMissing
        else do
          Disk.makeDirs a.settingsPath.parent
          Disk.change a.settingsPath (·.copyFile defaults a.settingsPath)
          pure .seeded : Disk SeedOutcome) t := by
  rw [seedSettings]
  exact run_bind_of_ok rfl

/-- Nothing is done where the settings are there or there are no defaults. -/
theorem seedSettings_of_settled
    (h : t.leadsSomewhere a.settingsPath = true ∨ t.leadsSomewhere defaults = false) :
    ∃ x, a.seedSettings defaults t = .ok x t := by
  rw [seedSettings_eq]
  cases present : t.leadsSomewhere a.settingsPath with
  | true => exact ⟨.alreadyPresent, rfl⟩
  | false =>
    have none : t.leadsSomewhere defaults = false := h.resolve_left (by simp [present])
    rw [none]
    exact ⟨.defaultsMissing, rfl⟩

/-- Settings that are missing get the content of the defaults, or nothing has changed. -/
theorem seedSettings_of_missing (hs : t.IsSound) (led : t.LeadsTo a.root loc)
    (missing : t.leadsSomewhere a.settingsPath = false)
    (there : t.leadsSomewhere defaults = true) :
    (∃ e, a.seedSettings defaults t = .error e t) ∨
      ∃ content s, t.readFile defaults = .ok content ∧
        t.writeFile a.settingsPath content = .ok s ∧
        a.seedSettings defaults t = .ok .seeded s := by
  rw [seedSettings_eq, missing, there]
  -- the directory of the settings is the results directory, so that none has to be made
  have made := treeAfter_makeDirs a.settingsPath.parent t
  rw [makeDirs_parent_settingsPath hs led, treeAfter] at made
  cases hmade : Disk.makeDirs a.settingsPath.parent t with
  | error e u =>
    rw [hmade] at made
    obtain rfl : u = t := made
    exact .inl ⟨e, run_bind_of_error hmade⟩
  | ok _ u =>
    rw [hmade] at made
    obtain rfl : u = t := made
    cases copied : Disk.change a.settingsPath (·.copyFile defaults a.settingsPath) u with
    | error e s =>
      obtain rfl := change_eq_error copied
      exact .inl ⟨e, (run_bind_of_ok hmade).trans (run_bind_of_error copied)⟩
    | ok _ s =>
      obtain ⟨content, read, written⟩ := copyFile_eq_ok (change_eq_ok copied)
      exact .inr ⟨content, s, read, written,
        (run_bind_of_ok hmade).trans (run_bind_of_ok copied)⟩

end Archive

/-! ## The whole preparation -/

namespace StorageConfig

/-- The place of the settings. -/
def settingsPath (c : StorageConfig) : FilePath := (Archive.mk c.resultsDir).settingsPath

/-- There is nothing to be done for the settings: they are there, or there are no defaults. -/
def IsSettled (c : StorageConfig) (t : FileTree) : Prop :=
  t.leadsSomewhere c.settingsPath = true ∨ t.leadsSomewhere c.defaultsPath = false

theorem not_isSettled_iff : ¬ c.IsSettled t ↔
    t.leadsSomewhere c.settingsPath = false ∧ t.leadsSomewhere c.defaultsPath = true := by
  rw [IsSettled, not_or, Bool.not_eq_true, Bool.not_eq_false]

/-- The tree in which the results directory has been made. -/
structure HasResults (c : StorageConfig) (t u : FileTree) : Prop where
  made : t.makeDirs c.resultsDir = (.ok (), u)
  sound : u.IsSound
  extend : t.Extends u
  leads : ∃ loc, u.LeadsTo c.resultsDir loc

theorem hasResults_of_makeDirs (hs : t.IsSound) (h : t.makeDirs c.resultsDir = (.ok (), u)) :
    c.HasResults t u := by
  have sound := isSound_makeDirs hs c.resultsDir
  have grown := grown_makeDirs hs c.resultsDir
  have leads := leadsTo_of_makeDirs hs (congrArg Prod.fst h)
  rw [congrArg Prod.snd h] at sound grown leads
  exact ⟨h, sound, grown.extend, leads⟩

/-- Preparing is making the results directory and then putting the defaults in place. -/
theorem prepare_of_seeded {x : Archive.SeedOutcome} (h : t.makeDirs c.resultsDir = (.ok (), u))
    (seeded : (Archive.mk c.resultsDir).seedSettings c.defaultsPath u = .ok x s) :
    c.prepare t = .ok () s := by
  simp only [prepare, h, seeded]

theorem prepare_of_not_seeded {e : Storage.Error} (h : t.makeDirs c.resultsDir = (.ok (), u))
    (failed : (Archive.mk c.resultsDir).seedSettings c.defaultsPath u = .error e s) :
    c.prepare t = .error (.settings e) s := by
  simp only [prepare, h, failed]

theorem prepare_of_settled (h : t.makeDirs c.resultsDir = (.ok (), u)) (settled : c.IsSettled u) :
    c.prepare t = .ok () u := by
  obtain ⟨x, done⟩ := Archive.seedSettings_of_settled settled
  exact prepare_of_seeded h done

/-- Preparing fails with no more than directories made, or it makes the results directory, and the
defaults are copied if they have to be. -/
theorem prepare_cases (hs : t.IsSound) (c : StorageConfig) :
    (∃ e s, c.prepare t = .error e s ∧ t.Extends s) ∨
    ∃ u, c.HasResults t u ∧
      ((c.IsSettled u ∧ c.prepare t = .ok () u) ∨
        ∃ content s, u.leadsSomewhere c.settingsPath = false ∧
          u.readFile c.defaultsPath = .ok content ∧
          u.writeFile c.settingsPath content = .ok s ∧ c.prepare t = .ok () s) := by
  rcases made : t.makeDirs c.resultsDir with ⟨fault | _, u⟩
  · have grown := grown_makeDirs hs c.resultsDir
    rw [congrArg Prod.snd made] at grown
    exact .inl ⟨.resultsDir c.resultsDir fault, u, by rw [prepare, made], grown.extend⟩
  · have results := hasResults_of_makeDirs hs made
    by_cases settled : c.IsSettled u
    · exact .inr ⟨u, results, .inl ⟨settled, prepare_of_settled made settled⟩⟩
    · obtain ⟨missing, there⟩ := not_isSettled_iff.mp settled
      obtain ⟨loc, led⟩ := results.leads
      have seeded := Archive.seedSettings_of_missing (a := ⟨c.resultsDir⟩) results.sound led missing
        there
      rcases seeded with ⟨e, failed⟩ | ⟨content, s, read, written, done⟩
      · exact .inl ⟨.settings e, u, prepare_of_not_seeded made failed, results.extend⟩
      · exact .inr ⟨u, results,
          .inr ⟨content, s, missing, read, written, prepare_of_seeded made done⟩⟩

/-- A preparation that succeeds ends with the results directory and nothing to be done for the
settings: there was nothing, or they have been given the content of the defaults. -/
theorem prepare_eq_ok (hs : t.IsSound) (h : c.prepare t = .ok () s) :
    ∃ u, c.HasResults t u ∧ u.Extends s ∧ s.IsSound ∧ c.IsSettled s ∧
      (c.IsSettled u ∧ s = u ∨ ∃ content, u.readFile c.defaultsPath = .ok content ∧
        s.readFile c.settingsPath = .ok content) := by
  rcases prepare_cases hs c with ⟨e, s', failed, -⟩ | ⟨u, results, ⟨settled, done⟩ |
    ⟨content, s', missing, read, written, done⟩⟩
  · exact absurd (failed.symm.trans h) (by simp)
  · obtain rfl := (EStateM.Result.ok.inj (done.symm.trans h)).2
    exact ⟨u, results, .refl u, results.sound, settled, .inl ⟨settled, rfl⟩⟩
  · obtain rfl := (EStateM.Result.ok.inj (done.symm.trans h)).2
    have file := Archive.asksForDirectory_settingsPath ⟨c.resultsDir⟩
    obtain ⟨extend, read'⟩ := writeFile_of_missing file missing written
    have settled : c.IsSettled s' := .inl (leadsSomewhere_of_readFile file read')
    exact ⟨u, results, extend, (builds_of_writeFile written results.sound).1, settled,
      .inr ⟨content, read, read'⟩⟩

/-- Preparing only extends the tree, whether or not it fails. -/
theorem extends_prepare (hs : t.IsSound) (c : StorageConfig) :
    t.Extends (treeAfter c.prepare t) := by
  rw [treeAfter]
  cases run : c.prepare t with
  | ok _ s =>
    obtain ⟨u, results, extend, -⟩ := prepare_eq_ok hs run
    exact results.extend.trans extend
  | error e s =>
    rcases prepare_cases hs c with ⟨e', s', failed, extend⟩ | ⟨u, -, ⟨-, done⟩ |
      ⟨content, s', -, -, -, done⟩⟩
    · obtain ⟨-, rfl⟩ := EStateM.Result.error.inj (failed.symm.trans run)
      exact extend
    · exact absurd (done.symm.trans run) (by simp)
    · exact absurd (done.symm.trans run) (by simp)

/-- Once the results directory is prepared it is not prepared anew. -/
theorem prepare_again (hs : t.IsSound) (h : c.prepare t = .ok () s) : c.prepare s = .ok () s := by
  obtain ⟨u, results, extend, sound, settled, -⟩ := prepare_eq_ok hs h
  exact prepare_of_settled (makeDirs_again hs results.made sound extend.keeps) settled

/-- The results directory is there, if its path has any text. -/
theorem isDirectory_of_prepare (hs : t.IsSound) (h : c.prepare t = .ok () s)
    (hempty : c.resultsDir.text ≠ "") : s.isDirectory c.resultsDir = true := by
  obtain ⟨u, results, extend, sound, -⟩ := prepare_eq_ok hs h
  obtain ⟨loc, led⟩ := results.leads
  refine (isDirectory_iff sound).mpr ⟨?_, loc, led.keep extend.keeps⟩
  by_contra hwalk
  -- a path that is never walked could not have been made
  obtain ⟨fault, failed⟩ := makeDirs_error hwalk (by simpa using hempty)
  exact absurd ((failed t).symm.trans results.made) (by simp)

/-- Settings that were missing are the defaults, unless making the results directory has made their path
lead to something. -/
theorem settings_of_prepare (hs : t.IsSound) (h : c.prepare t = .ok () s)
    (missing : t.leadsSomewhere c.settingsPath = false)
    (there : t.leadsSomewhere c.defaultsPath = true)
    (read : t.readFile c.defaultsPath = .ok content) :
    s.readFile c.settingsPath = .ok content ∨
      ".." ∈ c.resultsDir.names ∧ t.isDirectory c.resultsDir = false ∧
        t.makeDirs c.resultsDir = (.ok (), s) ∧ s.leadsSomewhere c.settingsPath = true := by
  obtain ⟨u, results, -, -, -, seeded⟩ := prepare_eq_ok hs h
  have read' := results.extend.readFile read
  rcases seeded with ⟨present | none, rfl⟩ | ⟨content', read'', given⟩
  · -- the settings have come to be there with the directories
    have keepsMissing := fun hup =>
      missing_of_makeDirs hs isComponent_settingsName hup results.made missing
    have comesUp : ¬ (".." ∉ c.resultsDir.names ∨ t.isDirectory c.resultsDir = true) :=
      fun hup => absurd ((keepsMissing hup).symm.trans present) (by simp)
    rw [not_or, not_not, Bool.not_eq_true] at comesUp
    exact .inr ⟨comesUp.1, comesUp.2, results.made, present⟩
  · -- the defaults cannot have gone
    have file := asksForDirectory_of_readFile there read
    exact absurd ((leadsSomewhere_of_readFile file read').symm.trans none) (by simp)
  · rw [read''] at read'
    exact .inl (Except.ok.inj read' ▸ given)

/-- **Preparing is done once and overwrites nothing.** Whether or not it fails, every entry is where it
was, and every file that could be read at a path is read there with its content. If it succeeds, the
results directory is there, unless its path is empty, and preparing again succeeds and changes nothing.
If the settings were missing and the defaults were a file, the settings now have its content; only where
the path of the results directory led nowhere and goes up can it be that the path of the settings leads
to something once the directories have been made, and then nothing else has been done. -/
theorem prepared_once (hs : t.IsSound) (c : StorageConfig) :
    ((∀ loc entry, t.find? loc = some entry → (treeAfter c.prepare t).find? loc = some entry) ∧
      ∀ p content, t.readFile p = .ok content →
        (treeAfter c.prepare t).readFile p = .ok content) ∧
    ∀ s, c.prepare t = .ok () s →
      (c.resultsDir.text ≠ "" → s.isDirectory c.resultsDir = true) ∧
      c.prepare s = .ok () s ∧
      (t.leadsSomewhere c.settingsPath = false → t.leadsSomewhere c.defaultsPath = true →
        ∀ content, t.readFile c.defaultsPath = .ok content →
          s.readFile c.settingsPath = .ok content ∨
            ".." ∈ c.resultsDir.names ∧ t.isDirectory c.resultsDir = false ∧
              t.makeDirs c.resultsDir = (.ok (), s) ∧
              s.leadsSomewhere c.settingsPath = true) := by
  have extend := extends_prepare hs c
  refine ⟨⟨fun loc entry => extend.find?, fun p content => extend.readFile⟩, fun s h => ?_⟩
  exact ⟨isDirectory_of_prepare hs h, prepare_again hs h,
    fun missing there content read => settings_of_prepare hs h missing there read⟩

/-- A tree with nothing but defaults. -/
def onlyDefaults : FileTree := ⟨[(["d.json"], .file [123, 125])], []⟩

/-- Results in a directory, and defaults of their own. -/
def inDirectory (dir : String) : StorageConfig := ⟨⟨dir⟩, ⟨"web"⟩, some ⟨"d.json"⟩⟩

theorem prepared_once_onlyDefaults : onlyDefaults.IsSound ∧
    ∃ s, (inDirectory "r").prepare onlyDefaults = .ok () s ∧
      onlyDefaults.leadsSomewhere (inDirectory "r").settingsPath = false ∧
      onlyDefaults.leadsSomewhere (inDirectory "r").defaultsPath = true ∧
      s.isDirectory ⟨"r"⟩ = true ∧ (inDirectory "r").prepare s = .ok () s ∧
      s.readFile (inDirectory "r").settingsPath = .ok [123, 125] := by
  have sound : onlyDefaults.IsSound := isSound_of_entries (by decide) rfl
  obtain ⟨s, prepared⟩ : ∃ s, (inDirectory "r").prepare onlyDefaults = .ok () s := ⟨_, rfl⟩
  have missing : onlyDefaults.leadsSomewhere (inDirectory "r").settingsPath = false := rfl
  have there : onlyDefaults.leadsSomewhere (inDirectory "r").defaultsPath = true := rfl
  obtain ⟨isDir, again, settings⟩ := (prepared_once sound (inDirectory "r")).2 s prepared
  refine ⟨sound, s, prepared, missing, there, isDir (by decide), again, ?_⟩
  rcases settings missing there [123, 125] rfl with read | ⟨up, -⟩
  · exact read
  · exact absurd up (by decide)

/-- Results in a directory whose path goes up from one that is named like the settings. -/
def goingUp : StorageConfig := inDirectory "r/settings.json/.."

/-- Where the path of the results directory goes up from a directory named like the settings, this
directory is there afterwards, and no defaults. An empty path is prepared, though it leads nowhere. -/
theorem not_seeded_behind_settings :
    (∃ s, goingUp.prepare onlyDefaults = .ok () s ∧
      onlyDefaults.leadsSomewhere goingUp.settingsPath = false ∧
      onlyDefaults.leadsSomewhere goingUp.defaultsPath = true ∧
      onlyDefaults.readFile goingUp.defaultsPath = .ok [123, 125] ∧
      s.readFile goingUp.settingsPath = .error .isADirectory) ∧
    ∃ s, (inDirectory "").prepare onlyDefaults = .ok () s ∧ s.isDirectory ⟨""⟩ = false := by
  refine ⟨?_, _, rfl, rfl⟩
  have made : (onlyDefaults.makeDirs goingUp.resultsDir).1 = .ok () := by decide +kernel
  have read : (onlyDefaults.makeDirs goingUp.resultsDir).2.readFile
      goingUp.settingsPath = .error .isADirectory := by decide +kernel
  have present : (onlyDefaults.makeDirs goingUp.resultsDir).2.leadsSomewhere
      goingUp.settingsPath = true := by decide +kernel
  generalize hmade : onlyDefaults.makeDirs goingUp.resultsDir = result at made read present
  obtain ⟨_, s⟩ := result
  obtain rfl := made
  exact ⟨s, prepare_of_settled hmade (.inl present), rfl, rfl, rfl, read⟩

end StorageConfig

end ImageGateway
