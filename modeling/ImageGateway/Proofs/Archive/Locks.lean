import ImageGateway.Archive.Locks
import ImageGateway.Proofs.Archive.Places
import Mathlib.Data.List.Nodup

/-!
# One lock for each project

Locks are handed out and tried in any order. What has been done so far says all about the table that
matters (`Follows`): which lock a project has, and which locks are held. A call keeps it so
(`Follows.answer`), and then does every run; hence a project has the same lock for ever, no other project
has it, and it can be taken just once (`one_lock_per_project`).
-/

set_option autoImplicit false

namespace ImageGateway

namespace LockTable

/-! ## Runs -/

/-- What can be done with the locks: to ask for that of a project, and to try to take one. -/
inductive Call where
  | handle (p : Project)
  | tryLock (lock : Nat)
  deriving DecidableEq, Repr

/-- A call with its answer. A lock that was taken stays held. -/
inductive Event where
  | gave (p : Project) (lock : Nat)
  | tried (lock : Nat) (taken : Bool)
  deriving DecidableEq, Repr

/-- The call that an event answers. -/
def Event.call : Event → Call
  | gave p _ => .handle p
  | tried lock _ => .tryLock lock

/-- Answers a call. -/
def answer (t : LockTable) : Call → Event × LockTable
  | .handle p => (.gave p (t.handle p).1, (t.handle p).2)
  | .tryLock lock => (.tried lock (t.tryLock lock).1, (t.tryLock lock).2)

/-- Answers calls one after the other. -/
def run (t : LockTable) : List Call → List Event × LockTable
  | [] => ([], t)
  | call :: rest =>
    let (event, t) := t.answer call
    let (more, t) := t.run rest
    (event :: more, t)

variable {t : LockTable} {events before : List Event} {p q : Project} {lock : Nat}

theorem run_cons (t : LockTable) (call : Call) (rest : List Call) :
    t.run (call :: rest)
      = ((t.answer call).1 :: ((t.answer call).2.run rest).1, ((t.answer call).2.run rest).2) := rfl

theorem map_call_run (t : LockTable) (calls : List Call) :
    (t.run calls).1.map Event.call = calls := by
  induction calls generalizing t with
  | nil => rfl
  | cons call rest ih =>
    rw [run_cons, List.map_cons, ih]
    cases call <;> rfl

/-- Asking for several locks is a run. -/
theorem run_map_handle (t : LockTable) (projects : List Project) :
    t.run (projects.map .handle)
      = (List.zipWith .gave projects (t.handles projects).1, (t.handles projects).2) := by
  induction projects generalizing t with
  | nil => rfl
  | cons p rest ih =>
    rw [List.map_cons, run_cons, answer, ih]
    rfl

/-- So is trying to take several locks. -/
theorem run_map_tryLock (t : LockTable) (locks : List Nat) :
    t.run (locks.map .tryLock)
      = (List.zipWith .tried locks (t.tryLocks locks).1, (t.tryLocks locks).2) := by
  induction locks generalizing t with
  | nil => rfl
  | cons lock rest ih =>
    rw [List.map_cons, run_cons, answer, ih]
    rfl

/-! ## What a call does -/

/-- A project gets the lock that is at its place in the table. Projects that are in the table stay where
they are, and no lock is taken. -/
theorem handle_spec (t : LockTable) (p : Project) :
    (t.handle p).2.owners[(t.handle p).1]? = some p ∧ t.owners <+: (t.handle p).2.owners ∧
      (t.owners.Nodup → (t.handle p).2.owners.Nodup) ∧ (t.handle p).2.held = t.held := by
  rw [handle]
  cases found : t.owners.findIdx? (· == p) with
  | some lock =>
    obtain ⟨bound, same, -⟩ := List.findIdx?_eq_some_iff_getElem.mp found
    refine ⟨?_, List.prefix_rfl, id, rfl⟩
    rw [List.getElem?_eq_getElem bound, eq_of_beq same]
  | none =>
    -- the project is put at the end, so that its place is the number of the others
    have absent : p ∉ t.owners := by
      intro listed
      exact absurd (List.findIdx?_eq_none_iff.mp found p listed) (by simp)
    refine ⟨List.getElem?_concat_length, List.prefix_append t.owners [p], ?_, rfl⟩
    intro distinct
    rw [← List.concat_eq_append]
    exact List.Nodup.concat absent distinct

theorem isFree_iff : t.isFree lock = true ↔ lock ∉ t.held := by
  simp [isFree]

/-- A lock that is tried is held afterwards, and was taken if it was not held before. -/
theorem tryLock_spec (t : LockTable) (lock : Nat) :
    ((t.tryLock lock).1 = true ↔ lock ∉ t.held) ∧ (t.tryLock lock).2.owners = t.owners ∧
      ∀ other, other ∈ (t.tryLock lock).2.held ↔ other ∈ t.held ∨ other = lock := by
  rw [tryLock]
  by_cases free : t.isFree lock = true
  · rw [if_pos free]
    refine ⟨⟨fun _ => isFree_iff.mp free, fun _ => rfl⟩, rfl, fun other => ?_⟩
    rw [List.mem_cons, or_comm]
  · -- a lock that is not free is held already
    rw [if_neg free]
    have held : lock ∈ t.held := not_not.mp (mt isFree_iff.mpr free)
    refine ⟨⟨nofun, fun absent => absurd held absent⟩, rfl, fun other => ?_⟩
    constructor
    · exact .inl
    · rintro (listed | rfl)
      · exact listed
      · exact held

/-! ## What a run does -/

/-- A table follows from what has been done: it has each project once, at the place of the lock that was
given for it, and the locks that are held are those that were tried. -/
structure Follows (t : LockTable) (events : List Event) : Prop where
  distinct : t.owners.Nodup
  given : ∀ p lock, .gave p lock ∈ events → t.owners[lock]? = some p
  held : ∀ lock, lock ∈ t.held ↔ ∃ taken, .tried lock taken ∈ events

theorem follows_empty : empty.Follows [] :=
  ⟨List.nodup_nil, fun _ _ listed => absurd listed List.not_mem_nil, fun lock => by simp [empty]⟩

/-- Giving a lock changes no lock that was given before. -/
theorem Follows.handle (h : t.Follows events) (p : Project) :
    (t.handle p).2.Follows (events ++ [.gave p (t.handle p).1]) := by
  obtain ⟨owned, ⟨more, stays⟩, distinct, held⟩ := t.handle_spec p
  refine ⟨distinct h.distinct, ?_, ?_⟩
  · intro q lock listed
    rcases List.mem_append.mp listed with before | now
    · have place := h.given q lock before
      have bound := (List.getElem?_eq_some_iff.mp place).1
      rw [← stays, List.getElem?_append_left bound]
      exact place
    · obtain ⟨rfl, rfl⟩ := Event.gave.inj (List.mem_singleton.mp now)
      exact owned
  · intro lock
    rw [held, h.held lock]
    simp

theorem Follows.tryLock (h : t.Follows events) (lock : Nat) :
    (t.tryLock lock).2.Follows (events ++ [.tried lock (t.tryLock lock).1]) := by
  obtain ⟨-, owners, held⟩ := t.tryLock_spec lock
  refine ⟨by rw [owners]; exact h.distinct, ?_, ?_⟩
  · intro q other listed
    rw [owners]
    exact h.given q other (by simpa using listed)
  · intro other
    rw [held other, h.held other]
    simp [exists_or, eq_comm]

/-- A call keeps the table following from the events. -/
theorem Follows.answer (h : t.Follows events) (call : Call) :
    (t.answer call).2.Follows (events ++ [(t.answer call).1]) := by
  cases call with
  | handle p => exact h.handle p
  | tryLock lock => exact h.tryLock lock

/-- And so does every run. -/
theorem Follows.run (h : t.Follows events) (calls : List Call) :
    (t.run calls).2.Follows (events ++ (t.run calls).1) := by
  induction calls generalizing t events with
  | nil =>
    rw [LockTable.run, List.append_nil]
    exact h
  | cons call rest ih =>
    have later := ih (h.answer call)
    rw [List.append_assoc] at later
    exact later

/-- Two locks that were given are the same if and only if the projects are. -/
theorem Follows.eq_iff (h : t.Follows events) {other : Nat} (given : .gave p lock ∈ events)
    (given' : .gave q other ∈ events) : lock = other ↔ p.name = q.name := by
  have owner := h.given p lock given
  have owner' := h.given q other given'
  constructor
  · rintro rfl
    exact congrArg Project.name (Option.some.inj (owner.symm.trans owner'))
  · intro same
    rw [Project.eq_of_name_eq same] at owner
    have bound := (List.getElem?_eq_some_iff.mp owner).1
    exact (List.getElem?_inj bound h.distinct).mp (owner.trans owner'.symm)

/-- A lock is taken if it has not been tried before. -/
theorem Follows.taken_iff (h : t.Follows events) {calls : List Call} {after : List Event}
    {taken : Bool} (split : (t.run calls).1 = before ++ .tried lock taken :: after) :
    taken = true ↔ ¬ ∃ earlier, .tried lock earlier ∈ events ++ before := by
  -- the events before the try are taken off one by one
  induction before generalizing t events calls with
  | nil =>
    cases calls with
    | nil => exact absurd split (by simp [LockTable.run])
    | cons call rest =>
      rw [run_cons, List.nil_append] at split
      obtain ⟨first, -⟩ := List.cons.inj split
      cases call with
      | handle p => exact absurd first nofun
      | tryLock other =>
        obtain ⟨rfl, rfl⟩ := Event.tried.inj first
        rw [(t.tryLock_spec other).1, h.held other, List.append_nil]
  | cons event before ih =>
    cases calls with
    | nil => exact absurd split (by simp [LockTable.run])
    | cons call rest =>
      rw [run_cons, List.cons_append] at split
      obtain ⟨rfl, later⟩ := List.cons.inj split
      have taken := ih (h.answer call) later
      rw [List.append_assoc] at taken
      exact taken

/-! ## Locks of projects -/

/-- Among some tries is one of a lock that was given for a project of this name. -/
def HasTried (events tries : List Event) (p : Project) : Prop :=
  ∃ q lock taken, .gave q lock ∈ events ∧ .tried lock taken ∈ tries ∧ q.name = p.name

theorem Follows.hasTried_iff (h : t.Follows events) (given : .gave p lock ∈ events)
    (tries : List Event) : HasTried events tries p ↔ ∃ taken, .tried lock taken ∈ tries := by
  constructor
  · rintro ⟨q, other, taken, given', listed, same⟩
    obtain rfl := (h.eq_iff given' given).mpr same
    exact ⟨taken, listed⟩
  · rintro ⟨taken, listed⟩
    exact ⟨p, lock, taken, given, listed, rfl⟩

/-- **One lock for each project, for ever.** Every call is answered, whatever was called before. Two
calls for the lock of a project give the same lock if and only if the names of the projects are the same.
A lock is taken if and only if no lock of the project was tried before, and can be taken in the end if
and only if none was tried at all. -/
theorem one_lock_per_project (calls : List Call) :
    (empty.run calls).1.map Event.call = calls ∧
    (∀ p q lock other, .gave p lock ∈ (empty.run calls).1 → .gave q other ∈ (empty.run calls).1 →
      (lock = other ↔ p.name = q.name)) ∧
    (∀ before p lock taken after, (empty.run calls).1 = before ++ .tried lock taken :: after →
      .gave p lock ∈ (empty.run calls).1 →
      (taken = true ↔ ¬ HasTried (empty.run calls).1 before p)) ∧
    ∀ p lock, .gave p lock ∈ (empty.run calls).1 →
      ((empty.run calls).2.isFree lock = true ↔
        ¬ HasTried (empty.run calls).1 (empty.run calls).1 p) := by
  have follows := follows_empty.run calls
  rw [List.nil_append] at follows
  refine ⟨empty.map_call_run calls, ?_, ?_, ?_⟩
  · intro p q lock other given given'
    exact follows.eq_iff given given'
  · intro before p lock taken after split given
    rw [follows_empty.taken_iff split, follows.hasTried_iff given, List.nil_append]
  · intro p lock given
    rw [isFree_iff, follows.held, follows.hasTried_iff given]

/-- Locks of two projects are asked for, and one of them is tried before the other is given and again
after its project has asked anew. -/
def catsAndDogs : List Call :=
  [.handle .cats, .tryLock 0, .handle .dogs, .handle .cats, .tryLock 0]

theorem one_lock_per_project_catsAndDogs :
    (.gave .cats 0 ∈ (empty.run catsAndDogs).1 ∧ .gave .dogs 1 ∈ (empty.run catsAndDogs).1 ∧
      (0 = 1 ↔ Project.cats.name = Project.dogs.name)) ∧
    ((empty.run catsAndDogs).1
      = [.gave .cats 0, .tried 0 true, .gave .dogs 1, .gave .cats 0] ++ .tried 0 false :: [] ∧
      (false = true ↔ ¬ HasTried (empty.run catsAndDogs).1
        [.gave .cats 0, .tried 0 true, .gave .dogs 1, .gave .cats 0] .cats)) ∧
    ((empty.run catsAndDogs).2.isFree 1 = true ↔
      ¬ HasTried (empty.run catsAndDogs).1 (empty.run catsAndDogs).1 .dogs) := by
  have split : (empty.run catsAndDogs).1
      = [.gave .cats 0, .tried 0 true, .gave .dogs 1, .gave .cats 0] ++ .tried 0 false :: [] := by
    decide
  have cats : .gave .cats 0 ∈ (empty.run catsAndDogs).1 := by decide
  have dogs : .gave .dogs 1 ∈ (empty.run catsAndDogs).1 := by decide
  obtain ⟨-, same, taken, free⟩ := one_lock_per_project catsAndDogs
  exact ⟨⟨cats, dogs, same _ _ _ _ cats dogs⟩, ⟨split, taken _ _ _ _ _ split cats⟩, free _ _ dogs⟩

end LockTable

end ImageGateway
