import ImageGateway.Proofs.Storage.Directories
import ImageGateway.Storage.Disk

/-!
# Programs that change the tree

What a program does to the file tree is a relation between the tree before and the tree after it,
whether or not it failed (`Respects`). Relations that hold of programs one after the other if they
hold of each are frames (`IsFrame`). One of them is to keep all directories and links, which is what
making directories and writing files does (`respects_makeDirs`, `respects_writeFile`).
-/

set_option autoImplicit false

namespace ImageGateway.Storage

open FileTree

variable {ε α β : Type} {R : FileTree → FileTree → Prop} {t s : FileTree}

/-- The file tree after a program, whether or not it failed. -/
def treeAfter (program : EStateM ε FileTree α) (t : FileTree) : FileTree :=
  match program t with
  | .ok _ s => s
  | .error _ s => s

/-- What a program answers, or how it fails. -/
def outcome (program : EStateM ε FileTree α) (t : FileTree) : Except ε α :=
  match program t with
  | .ok x _ => .ok x
  | .error e _ => .error e

theorem run_bind (program : EStateM ε FileTree α) (next : α → EStateM ε FileTree β)
    (t : FileTree) :
    (program >>= next) t
      = match program t with
        | .ok x s => next x s
        | .error e s => .error e s := by
  simp only [bind, EStateM.bind]
  cases program t <;> rfl

theorem run_bind_of_ok {program : EStateM ε FileTree α} {next : α → EStateM ε FileTree β} {x : α}
    (h : program t = .ok x s) : (program >>= next) t = next x s := by
  rw [run_bind, h]

theorem run_bind_of_error {program : EStateM ε FileTree α} {next : α → EStateM ε FileTree β} {e : ε}
    (h : program t = .error e s) : (program >>= next) t = .error e s := by
  rw [run_bind, h]

/-- A program that succeeds has run its parts one after the other. -/
theorem ok_of_run_bind {program : EStateM ε FileTree α} {next : α → EStateM ε FileTree β} {y : β}
    (h : (program >>= next) t = .ok y s) :
    ∃ x u, program t = .ok x u ∧ next x u = .ok y s := by
  rw [run_bind] at h
  cases hrun : program t with
  | error e u =>
    rw [hrun] at h
    cases h
  | ok x u =>
    rw [hrun] at h
    exact ⟨x, u, rfl, h⟩

/-- A program that fails has failed in its first part or after it. -/
theorem error_of_run_bind {program : EStateM ε FileTree α} {next : α → EStateM ε FileTree β}
    {e : ε} (h : (program >>= next) t = .error e s) :
    program t = .error e s ∨ ∃ x u, program t = .ok x u ∧ next x u = .error e s := by
  rw [run_bind] at h
  cases hrun : program t with
  | error e' u =>
    rw [hrun] at h
    obtain ⟨rfl, rfl⟩ := EStateM.Result.error.inj h
    exact .inl rfl
  | ok x u =>
    rw [hrun] at h
    exact .inr ⟨x, u, rfl, h⟩

/-- Working on the result of a program changes nothing more. -/
theorem treeAfter_bind_pure (program : EStateM ε FileTree α) (f : α → β) (t : FileTree) :
    treeAfter (program >>= fun x => pure (f x)) t = treeAfter program t := by
  rw [treeAfter, treeAfter, run_bind]
  cases program t <;> rfl

/-- What a program does to any tree is in a relation. -/
def Respects (R : FileTree → FileTree → Prop) (program : EStateM ε FileTree α) : Prop :=
  ∀ t, R t (treeAfter program t)

/-- A relation that doing nothing and doing one thing after the other respects. -/
structure IsFrame (R : FileTree → FileTree → Prop) : Prop where
  refl : ∀ t, R t t
  trans : ∀ t s u, R t s → R s u → R t u

theorem IsFrame.of_unchanged (hR : IsFrame R) {program : EStateM ε FileTree α}
    (h : ∀ t, treeAfter program t = t) : Respects R program := by
  intro t
  rw [h t]
  exact hR.refl t

theorem IsFrame.bind (hR : IsFrame R) {program : EStateM ε FileTree α}
    {next : α → EStateM ε FileTree β} (h : Respects R program)
    (hnext : ∀ x, Respects R (next x)) : Respects R (program >>= next) := by
  intro t
  have first := h t
  rw [treeAfter] at first
  rw [treeAfter, run_bind]
  cases hrun : program t with
  | error e s =>
    rw [hrun] at first
    exact first
  | ok x s =>
    rw [hrun] at first
    exact hR.trans t s _ first (hnext x s)

theorem Respects.of_ok {program : EStateM ε FileTree α} {x : α} (h : Respects R program)
    (hrun : program t = .ok x s) : R t s := by
  have after := h t
  rwa [treeAfter, hrun] at after

theorem Respects.of_error {program : EStateM ε FileTree α} {e : ε} (h : Respects R program)
    (hrun : program t = .error e s) : R t s := by
  have after := h t
  rwa [treeAfter, hrun] at after

/-! ## One operation -/

theorem treeAfter_makeDirs (p : FilePath) (t : FileTree) :
    treeAfter (Disk.makeDirs p) t = (t.makeDirs p).2 := by
  rw [treeAfter, Disk.makeDirs]
  rcases t.makeDirs p with ⟨_ | _, s⟩ <;> rfl

theorem makeDirs_eq_ok {p : FilePath} {x : Unit} (h : Disk.makeDirs p t = .ok x s) :
    t.makeDirs p = (.ok (), s) := by
  rw [Disk.makeDirs] at h
  rcases hmade : t.makeDirs p with ⟨result | _, u⟩
  · rw [hmade] at h
    exact absurd h (by simp)
  · rw [hmade] at h
    obtain ⟨-, rfl⟩ := EStateM.Result.ok.inj h
    rfl

theorem makeDirs_eq_error {p : FilePath} {e : Error} (h : Disk.makeDirs p t = .error e s) :
    ∃ fault, t.makeDirs p = (.error fault, s) := by
  rw [Disk.makeDirs] at h
  rcases hmade : t.makeDirs p with ⟨fault | _, u⟩
  · rw [hmade] at h
    obtain ⟨-, rfl⟩ := EStateM.Result.error.inj h
    exact ⟨fault, rfl⟩
  · rw [hmade] at h
    exact absurd h (by simp)

theorem change_eq_ok {p : FilePath} {op : FileTree → Except Fault FileTree} {x : Unit}
    (h : Disk.change p op t = .ok x s) : op t = .ok s := by
  rw [Disk.change] at h
  cases hop : op t with
  | ok u =>
    rw [hop] at h
    obtain ⟨-, rfl⟩ := EStateM.Result.ok.inj h
    rfl
  | error fault =>
    rw [hop] at h
    exact absurd h (by simp)

theorem change_eq_error {p : FilePath} {op : FileTree → Except Fault FileTree} {e : Error}
    (h : Disk.change p op t = .error e s) : s = t := by
  rw [Disk.change] at h
  cases hop : op t with
  | ok u =>
    rw [hop] at h
    exact absurd h (by simp)
  | error fault =>
    rw [hop] at h
    exact (EStateM.Result.error.inj h).2.symm

theorem ok_of_run_writeFile {p : FilePath} {content : Bytes} {x : Unit}
    (h : Disk.writeFile p content t = .ok x s) : t.writeFile p content = .ok s :=
  change_eq_ok h

theorem respects_change (hR : IsFrame R) {p : FilePath} {op : FileTree → Except Fault FileTree}
    (h : ∀ t s, op t = .ok s → R t s) : Respects R (Disk.change p op) := by
  intro t
  rw [treeAfter, Disk.change]
  cases hop : op t with
  | error fault => exact hR.refl t
  | ok s => exact h t s hop

/-! ## Keeping directories and links -/

/-- From a sound tree one comes to a sound tree with the same links and at least the same
directories. -/
def Builds (t s : FileTree) : Prop := t.IsSound → s.IsSound ∧ t.Keeps s

theorem isFrame_builds : IsFrame Builds := by
  refine ⟨fun t hs => ⟨hs, .refl t⟩, fun t s u h h' hs => ?_⟩
  obtain ⟨sound, keeps⟩ := h hs
  obtain ⟨sound', keeps'⟩ := h' sound
  exact ⟨sound', keeps.trans keeps'⟩

theorem respects_makeDirs (p : FilePath) : Respects Builds (Disk.makeDirs p) := by
  intro t hs
  rw [treeAfter_makeDirs]
  exact ⟨isSound_makeDirs hs p, (grown_makeDirs hs p).keeps⟩

theorem builds_of_writeFile {p : FilePath} {content : Bytes}
    (h : t.writeFile p content = .ok s) : Builds t s := by
  intro hs
  obtain ⟨loc, hloc, notDir, hset⟩ := writeFile_eq_ok h
  -- a path that is followed to its end leads to no link, so that nothing on any way is replaced
  rcases locateNames_cases hs hloc with hdir | ⟨mid, name, rfl, hmid, plain | nofollow⟩
  · exact absurd hdir notDir
  · exact ⟨hs.setAt hset notDir fun _ => ⟨mid, name, rfl, hmid⟩,
      keeps_of_setAt hset plain (isPlain_file content).2⟩
  · exact absurd nofollow (by simp)

theorem respects_writeFile (p : FilePath) (content : Bytes) :
    Respects Builds (Disk.writeFile p content) :=
  respects_change isFrame_builds fun _ _ => builds_of_writeFile

end ImageGateway.Storage
