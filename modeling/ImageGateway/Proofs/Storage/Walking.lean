import ImageGateway.Storage.FileTree

/-!
# Where walks lead

A walk goes from directory to directory and over links. `Ends` says where it ends, by the steps that
take it there (`walk_eq_ok_iff`). `Leads` says which directory it reaches on the way, and with how many
links left; a longer walk goes on from there (`Leads.walk_append`), and a walk that reaches anything
behind a list of names has been led through them (`leads_of_walk`). Where a path leads is decided by
the links of the tree alone (`Leads.unique`), and it leads there in every tree that has the same links
and at least the same directories (`Leads.keep`).
-/

set_option autoImplicit false

namespace ImageGateway.Storage.FileTree

variable {t s u : FileTree} {follow : Bool} {links left : Nat} {dir loc there : Location}
  {name : String} {names rest more : List String}

/-! ## One step of a walk -/

/-- How a walk goes on at a link. -/
def jump (t : FileTree) (follow : Bool) :
    Nat → Location → FilePath → List String → Except Fault Location
  | 0, _, _, _ => .error .tooManyLinks
  | links + 1, dir, target, rest =>
    t.walk follow links (if target.isAbsolute then [] else dir) (target.route ++ rest)

theorem walk_eq_steps (t : FileTree) (follow : Bool) (links : Nat) :
    t.walk follow links = t.steps follow (t.jump follow links) := by
  cases links with
  | zero => rw [walk]; rfl
  | succ links => rw [walk]; rfl

@[simp] theorem walk_nil (t : FileTree) (follow : Bool) (links : Nat) (dir : Location) :
    t.walk follow links dir [] = .ok dir := by
  rw [walk_eq_steps, steps]

theorem walk_points (hpoints : points? dir name = some there) :
    t.walk follow links dir (name :: rest) = t.walk follow links there rest := by
  rw [walk_eq_steps, steps, hpoints]

/-- A component that is the name of an entry of the directory. -/
structure IsName (name : String) : Prop where
  notUp : name ≠ ".."
  notHere : name ≠ "."

/-- A name that takes a step to an entry of the directory. -/
structure IsStep (name : String) : Prop extends IsName name where
  short : name.utf8ByteSize ≤ longestName

instance (name : String) : Decidable (IsName name) :=
  decidable_of_iff (name ≠ ".." ∧ name ≠ ".")
    ⟨fun h => ⟨h.1, h.2⟩, fun h => ⟨h.notUp, h.notHere⟩⟩

instance (name : String) : Decidable (IsStep name) :=
  decidable_of_iff (IsName name ∧ name.utf8ByteSize ≤ longestName)
    ⟨fun h => ⟨h.1, h.2⟩, fun h => ⟨h.toIsName, h.short⟩⟩

theorem IsName.points? (h : IsName name) (dir : Location) : points? dir name = none := by
  rw [FileTree.points?, if_neg h.notUp, if_neg h.notHere]

theorem points?_cases (dir : Location) (name : String) :
    (∃ there, points? dir name = some there) ∨ IsName name := by
  rw [points?]
  split
  · exact .inl ⟨_, rfl⟩
  · rename_i notUp
    split
    · exact .inl ⟨_, rfl⟩
    · rename_i notHere
      exact .inr ⟨notUp, notHere⟩

theorem walk_tooLong (hname : IsName name) (hlong : ¬ name.utf8ByteSize ≤ longestName) :
    t.walk follow links dir (name :: rest) = .error .nameTooLong := by
  rw [walk_eq_steps, steps, hname.points?]
  exact if_pos (Nat.lt_of_not_le hlong)

theorem short_of_walk (hname : IsName name) (h : t.walk follow links dir (name :: rest) = .ok loc) :
    name.utf8ByteSize ≤ longestName := by
  refine Decidable.not_not.mp fun long => ?_
  rw [walk_tooLong hname long] at h
  exact absurd h (by simp)

/-- A name of an entry goes where the entry leads. -/
theorem walk_step (hname : IsStep name) (t : FileTree) (follow : Bool) (links : Nat)
    (dir : Location) (rest : List String) :
    t.walk follow links dir (name :: rest) = match t.find? (dir ++ [name]) with
      | some (.link target) =>
        if rest.isEmpty && !follow then .ok (dir ++ [name]) else t.jump follow links dir target rest
      | some .directory => t.walk follow links (dir ++ [name]) rest
      | some (.file _) => if rest.isEmpty then .ok (dir ++ [name]) else .error .notADirectory
      | none => if rest.isEmpty then .ok (dir ++ [name]) else .error .notFound := by
  rw [walk_eq_steps, steps, hname.points?]
  exact if_neg (Nat.not_lt_of_le hname.short)

theorem walk_directory (hname : IsStep name) (h : t.find? (dir ++ [name]) = some .directory) :
    t.walk follow links dir (name :: rest) = t.walk follow links (dir ++ [name]) rest := by
  rw [walk_step hname, h]

theorem walk_link {target : FilePath} (hname : IsStep name)
    (h : t.find? (dir ++ [name]) = some (.link target)) (hgo : rest ≠ [] ∨ follow = true) :
    t.walk follow links dir (name :: rest) = t.jump follow links dir target rest := by
  have goes : (rest.isEmpty && !follow) = false := by
    rcases hgo with hrest | rfl
    · simp [hrest]
    · simp
  rw [walk_step hname, h]
  simp [goes]

/-- A link at the end of a walk that does not follow it is where the walk ends. -/
theorem walk_last_link {target : FilePath} (hname : IsStep name)
    (h : t.find? (dir ++ [name]) = some (.link target)) :
    t.walk false links dir [name] = .ok (dir ++ [name]) := by
  rw [walk_step hname, h]
  rfl

/-- Whether an entry, or its lack, is neither a directory nor a link. -/
def IsPlain (entry : Option Entry) : Prop :=
  entry ≠ some .directory ∧ ∀ target, entry ≠ some (.link target)

theorem isPlain_none : IsPlain none := ⟨by simp, by simp⟩

theorem isPlain_file (content : Bytes) : IsPlain (some (.file content)) := ⟨by simp, by simp⟩

/-- There is no going on where nothing is. -/
theorem walk_missing (hname : IsStep name) (h : t.find? (dir ++ [name]) = none)
    (hrest : rest ≠ []) : t.walk follow links dir (name :: rest) = .error .notFound := by
  rw [walk_step hname, h]
  simp [hrest]

/-- There is no going on behind a file. -/
theorem walk_file {content : Bytes} (hname : IsStep name)
    (h : t.find? (dir ++ [name]) = some (.file content)) (hrest : rest ≠ []) :
    t.walk follow links dir (name :: rest) = .error .notADirectory := by
  rw [walk_step hname, h]
  simp [hrest]

theorem walk_plain_error (hname : IsStep name) (h : IsPlain (t.find? (dir ++ [name])))
    (hrest : rest ≠ []) :
    ∃ fault, ∀ follow links, t.walk follow links dir (name :: rest) = .error fault := by
  cases found : t.find? (dir ++ [name]) with
  | none => exact ⟨.notFound, fun _ _ => walk_missing hname found hrest⟩
  | some entry =>
    cases entry with
    | file content => exact ⟨.notADirectory, fun _ _ => walk_file hname found hrest⟩
    | directory => exact absurd found h.1
    | link target => exact absurd found (h.2 target)

theorem walk_plain (hname : IsStep name) (h : IsPlain (t.find? (dir ++ [name]))) :
    t.walk follow links dir [name] = .ok (dir ++ [name]) := by
  rw [walk_step hname]
  cases found : t.find? (dir ++ [name]) with
  | none => rfl
  | some entry =>
    cases entry with
    | file content => rfl
    | directory => exact absurd found h.1
    | link target => exact absurd found (h.2 target)

/-- Where there is a file or nothing, a walk does the same in every tree with the same there. -/
theorem walk_plain_congr (hname : IsStep name) (h : IsPlain (t.find? (dir ++ [name])))
    (hsame : s.find? (dir ++ [name]) = t.find? (dir ++ [name])) :
    s.walk follow links dir (name :: rest) = t.walk follow links dir (name :: rest) := by
  rw [walk_step hname, walk_step hname, hsame]
  cases found : t.find? (dir ++ [name]) with
  | none => rfl
  | some entry =>
    cases entry with
    | file content => rfl
    | directory => exact absurd found h.1
    | link target => exact absurd found (h.2 target)

/-- What can be at a location. -/
theorem find?_cases (t : FileTree) (loc : Location) :
    t.find? loc = some .directory ∨ (∃ target, t.find? loc = some (.link target)) ∨
      IsPlain (t.find? loc) := by
  cases found : t.find? loc with
  | none => exact .inr (.inr isPlain_none)
  | some entry =>
    cases entry with
    | file content => exact .inr (.inr (isPlain_file content))
    | directory => exact .inl rfl
    | link target => exact .inr (.inl ⟨target, rfl⟩)

/-- Induction along a walk: over the steps it takes, and over the links it may follow. -/
theorem walk_induct (t : FileTree) {P : Nat → Location → List String → Prop}
    (nil : ∀ links dir, P links dir [])
    (points : ∀ links dir name rest there, points? dir name = some there → P links there rest →
      P links dir (name :: rest))
    (tooLong : ∀ links dir name rest, IsName name → ¬ name.utf8ByteSize ≤ longestName →
      P links dir (name :: rest))
    (directory : ∀ links dir name rest, IsStep name → t.find? (dir ++ [name]) = some .directory →
      P links (dir ++ [name]) rest → P links dir (name :: rest))
    (lastLink : ∀ dir name target rest, IsStep name → t.find? (dir ++ [name]) = some (.link target) →
      P 0 dir (name :: rest))
    (link : ∀ links dir name target rest, IsStep name →
      t.find? (dir ++ [name]) = some (.link target) →
      P links (if target.isAbsolute then [] else dir) (target.route ++ rest) →
      P (links + 1) dir (name :: rest))
    (plain : ∀ links dir name rest, IsStep name → IsPlain (t.find? (dir ++ [name])) →
      P links dir (name :: rest))
    (links : Nat) (dir : Location) (names : List String) : P links dir names := by
  -- a name is used up by every step but the jump through a link, which uses up a link
  induction links using Nat.strongRecOn generalizing dir names with
  | ind links fewer =>
    induction names generalizing dir with
    | nil => exact nil links dir
    | cons name rest ih =>
      rcases points?_cases dir name with ⟨there, goes⟩ | isName
      · exact points links dir name rest there goes (ih there)
      by_cases short : name.utf8ByteSize ≤ longestName
      · rcases t.find?_cases (dir ++ [name]) with hdir | ⟨target, hlink⟩ | hplain
        · exact directory links dir name rest ⟨isName, short⟩ hdir (ih (dir ++ [name]))
        · cases links with
          | zero => exact lastLink dir name target rest ⟨isName, short⟩ hlink
          | succ left =>
            exact link left dir name target rest ⟨isName, short⟩ hlink
              (fewer left (Nat.lt_succ_self left) _ _)
        · exact plain links dir name rest ⟨isName, short⟩ hplain
      · exact tooLong links dir name rest isName short

/-- At a link a walk goes on, unless it ends there and does not follow it. -/
theorem goes_or_ends (rest : List String) (follow : Bool) :
    (rest ≠ [] ∨ follow = true) ∨ rest = [] ∧ follow = false := by
  cases rest <;> cases follow <;> simp

/-! ## Where a walk ends -/

/-- A walk along names from a directory, over at most `links` links, ends at a location. There may be
nothing, or a link that is not followed. -/
inductive Ends (t : FileTree) (follow : Bool) :
    Nat → Location → List String → Location → Prop where
  | here (links : Nat) (dir : Location) : Ends t follow links dir [] dir
  | points {links : Nat} {dir there : Location} {name : String} {rest : List String}
      {loc : Location} :
      points? dir name = some there → Ends t follow links there rest loc →
      Ends t follow links dir (name :: rest) loc
  | down {links : Nat} {dir : Location} {name : String} {rest : List String} {loc : Location} :
      IsStep name → t.find? (dir ++ [name]) = some .directory →
      Ends t follow links (dir ++ [name]) rest loc → Ends t follow links dir (name :: rest) loc
  | jump {links : Nat} {dir : Location} {name : String} {target : FilePath} {rest : List String}
      {loc : Location} :
      IsStep name → t.find? (dir ++ [name]) = some (.link target) → rest ≠ [] ∨ follow = true →
      Ends t follow links (if target.isAbsolute then [] else dir) (target.route ++ rest) loc →
      Ends t follow (links + 1) dir (name :: rest) loc
  | atLink {links : Nat} {dir : Location} {name : String} {target : FilePath} :
      follow = false → IsStep name → t.find? (dir ++ [name]) = some (.link target) →
      Ends t follow links dir [name] (dir ++ [name])
  | atPlain {links : Nat} {dir : Location} {name : String} :
      IsStep name → IsPlain (t.find? (dir ++ [name])) →
      Ends t follow links dir [name] (dir ++ [name])

theorem Ends.walk_eq (h : t.Ends follow links dir names loc) :
    t.walk follow links dir names = .ok loc := by
  induction h with
  | here links dir => exact walk_nil t follow links dir
  | points goes _ ih => rw [walk_points goes, ih]
  | down hname hdir _ ih => rw [walk_directory hname hdir, ih]
  | jump hname hlink hgo _ ih => rw [walk_link hname hlink hgo, FileTree.jump, ih]
  | atLink nofollow hname hlink =>
    subst nofollow
    exact walk_last_link hname hlink
  | atPlain hname hplain => exact walk_plain hname hplain

/-- A walk fails at a name that is too long, when it has run out of links and behind a file or
nothing; everything else it can do takes it to its end. -/
theorem ends_of_walk (h : t.walk follow links dir names = .ok loc) :
    t.Ends follow links dir names loc := by
  induction links, dir, names using walk_induct t with
  | nil links dir =>
    rw [walk_nil] at h
    exact Except.ok.inj h ▸ .here links dir
  | points links dir name rest there goes ih =>
    rw [walk_points goes] at h
    exact .points goes (ih h)
  | tooLong links dir name rest isName long =>
    rw [walk_tooLong isName long] at h
    exact absurd h (by simp)
  | directory links dir name rest hname hdir ih =>
    rw [walk_directory hname hdir] at h
    exact .down hname hdir (ih h)
  | lastLink dir name target rest hname hlink =>
    rcases goes_or_ends rest follow with hgo | ⟨rfl, rfl⟩
    · rw [walk_link hname hlink hgo] at h
      exact absurd h (by simp [FileTree.jump])
    · rw [walk_last_link hname hlink] at h
      exact Except.ok.inj h ▸ .atLink rfl hname hlink
  | link links dir name target rest hname hlink ih =>
    rcases goes_or_ends rest follow with hgo | ⟨rfl, rfl⟩
    · rw [walk_link hname hlink hgo] at h
      exact .jump hname hlink hgo (ih h)
    · rw [walk_last_link hname hlink] at h
      exact Except.ok.inj h ▸ .atLink rfl hname hlink
  | plain links dir name rest hname hplain =>
    cases rest with
    | nil =>
      rw [walk_plain hname hplain] at h
      exact Except.ok.inj h ▸ .atPlain hname hplain
    | cons next rest =>
      obtain ⟨fault, failed⟩ := walk_plain_error hname hplain (List.cons_ne_nil next rest)
      exact absurd ((failed follow links).symm.trans h) (by simp)

theorem walk_eq_ok_iff :
    t.walk follow links dir names = .ok loc ↔ t.Ends follow links dir names loc :=
  ⟨ends_of_walk, Ends.walk_eq⟩

/-- The last step of a walk ends at the entry of that name, unless this is a link. -/
theorem walk_one (hname : IsStep name)
    (hlink : ∀ target, t.find? (dir ++ [name]) ≠ some (.link target)) :
    t.walk follow links dir [name] = .ok (dir ++ [name]) := by
  rcases t.find?_cases (dir ++ [name]) with hdir | ⟨target, found⟩ | hplain
  · rw [walk_directory hname hdir, walk_nil]
  · exact absurd found (hlink target)
  · exact walk_plain hname hplain

/-- The last step of a walk that does not follow links ends at the entry of that name. -/
theorem walk_one_false (hname : IsStep name) :
    t.walk false links dir [name] = .ok (dir ++ [name]) := by
  rcases t.find?_cases (dir ++ [name]) with hdir | ⟨target, found⟩ | hplain
  · rw [walk_directory hname hdir, walk_nil]
  · exact walk_last_link hname found
  · exact walk_plain hname hplain

/-! ## Being led -/

/-- A walk along names from a directory, over at most `links` links, comes to a directory, with
`left` links left. -/
inductive Leads (t : FileTree) : Nat → Location → List String → Nat → Location → Prop where
  | here (links : Nat) (dir : Location) : Leads t links dir [] links dir
  | points {links : Nat} {dir there : Location} {name : String} {rest : List String} {left : Nat}
      {loc : Location} :
      points? dir name = some there → Leads t links there rest left loc →
      Leads t links dir (name :: rest) left loc
  | down {links : Nat} {dir : Location} {name : String} {rest : List String} {left : Nat}
      {loc : Location} :
      IsStep name → t.find? (dir ++ [name]) = some .directory →
      Leads t links (dir ++ [name]) rest left loc → Leads t links dir (name :: rest) left loc
  | jump {links : Nat} {dir : Location} {name : String} {target : FilePath} {rest : List String}
      {left : Nat} {loc : Location} :
      IsStep name → t.find? (dir ++ [name]) = some (.link target) →
      Leads t links (if target.isAbsolute then [] else dir) (target.route ++ rest) left loc →
      Leads t (links + 1) dir (name :: rest) left loc

/-- A walk goes on from where it has been led to. -/
theorem Leads.walk_append (h : t.Leads links dir names left loc)
    (hgo : more ≠ [] ∨ follow = true) :
    t.walk follow links dir (names ++ more) = t.walk follow left loc more := by
  have goes : ∀ rest : List String, rest ++ more ≠ [] ∨ follow = true := fun rest => by
    rcases hgo with hmore | hfollow
    · exact .inl (by simp [hmore])
    · exact .inr hfollow
  induction h with
  | here links dir => rfl
  | points goes _ ih => rw [List.cons_append, walk_points goes, ih]
  | down hname hdir _ ih => rw [List.cons_append, walk_directory hname hdir, ih]
  | jump hname hlink _ ih =>
    rw [List.cons_append, walk_link hname hlink (goes _), FileTree.jump, ← List.append_assoc, ih]

theorem Leads.append {via : Nat} {mid : Location} (h : t.Leads links dir names via mid)
    (hmore : t.Leads via mid more left loc) : t.Leads links dir (names ++ more) left loc := by
  induction h with
  | here links dir => exact hmore
  | points goes _ ih => exact .points goes (ih hmore)
  | down hname hdir _ ih => exact .down hname hdir (ih hmore)
  | jump hname hlink _ ih =>
    have further := ih hmore
    rw [List.append_assoc] at further
    exact .jump hname hlink further

/-- Whoever is led along names is led along the first of them. -/
theorem Leads.split (h : t.Leads links dir (names ++ more) left loc) :
    ∃ via mid, t.Leads links dir names via mid ∧ t.Leads via mid more left loc := by
  generalize hall : names ++ more = all at h
  -- the induction follows the way; the target of a link comes before the names that are left
  induction h generalizing names with
  | here links dir =>
    obtain ⟨rfl, rfl⟩ := List.append_eq_nil_iff.mp hall
    exact ⟨links, dir, .here links dir, .here links dir⟩
  | points goes h ih =>
    cases names with
    | nil =>
      obtain rfl : more = _ := hall
      exact ⟨_, _, .here _ _, .points goes h⟩
    | cons name names =>
      obtain ⟨rfl, same⟩ := List.cons.inj hall
      obtain ⟨via, mid, front, back⟩ := ih same
      exact ⟨via, mid, .points goes front, back⟩
  | down hname hdir h ih =>
    cases names with
    | nil =>
      obtain rfl : more = _ := hall
      exact ⟨_, _, .here _ _, .down hname hdir h⟩
    | cons name names =>
      obtain ⟨rfl, same⟩ := List.cons.inj hall
      obtain ⟨via, mid, front, back⟩ := ih same
      exact ⟨via, mid, .down hname hdir front, back⟩
  | jump hname hlink h ih =>
    cases names with
    | nil =>
      obtain rfl : more = _ := hall
      exact ⟨_, _, .here _ _, .jump hname hlink h⟩
    | cons name names =>
      obtain ⟨rfl, same⟩ := List.cons.inj hall
      obtain ⟨via, mid, front, back⟩ := @ih (_ ++ names)
        ((List.append_assoc _ _ _).trans (congrArg _ same))
      exact ⟨via, mid, .jump hname hlink front, back⟩

/-- Every walk that reaches anything has been led through all names but the last ones. -/
theorem leads_of_walk (hmore : more ≠ []) (h : t.walk follow links dir (names ++ more) = .ok loc) :
    ∃ left mid, t.Leads links dir names left mid ∧ t.walk follow left mid more = .ok loc := by
  -- with names behind, a link is never the last and nothing but a directory may be met
  have nonempty : ∀ rest : List String, rest ++ more ≠ [] := fun rest => by simp [hmore]
  induction links, dir, names using walk_induct t with
  | nil links dir => exact ⟨links, dir, .here links dir, h⟩
  | points links dir name rest there goes ih =>
    rw [List.cons_append, walk_points goes] at h
    obtain ⟨left, mid, front, back⟩ := ih h
    exact ⟨left, mid, .points goes front, back⟩
  | tooLong links dir name rest isName long =>
    rw [List.cons_append, walk_tooLong isName long] at h
    exact absurd h (by simp)
  | directory links dir name rest hname hdir ih =>
    rw [List.cons_append, walk_directory hname hdir] at h
    obtain ⟨left, mid, front, back⟩ := ih h
    exact ⟨left, mid, .down hname hdir front, back⟩
  | lastLink dir name target rest hname hlink =>
    rw [List.cons_append, walk_link hname hlink (.inl (nonempty rest))] at h
    exact absurd h (by simp [FileTree.jump])
  | link links dir name target rest hname hlink ih =>
    rw [List.cons_append, walk_link hname hlink (.inl (nonempty rest)), FileTree.jump,
      ← List.append_assoc] at h
    obtain ⟨left, mid, front, back⟩ := ih h
    exact ⟨left, mid, .jump hname hlink front, back⟩
  | plain links dir name rest hname hplain =>
    rw [List.cons_append] at h
    obtain ⟨fault, failed⟩ := walk_plain_error hname hplain (nonempty rest)
    exact absurd ((failed follow links).symm.trans h) (by simp)

/-- A walk that follows every link and reaches a directory has been led there. -/
theorem leads_of_walk_directory (h : t.walk true links dir names = .ok loc)
    (hdir : t.find? loc = some .directory) : ∃ left, t.Leads links dir names left loc := by
  rw [walk_eq_ok_iff] at h
  -- a walk that ends at a directory has come by directories and links only
  induction h with
  | here links dir => exact ⟨links, .here links dir⟩
  | points goes _ ih =>
    obtain ⟨left, led⟩ := ih hdir
    exact ⟨left, .points goes led⟩
  | down hname hfound _ ih =>
    obtain ⟨left, led⟩ := ih hdir
    exact ⟨left, .down hname hfound led⟩
  | jump hname hlink _ _ ih =>
    obtain ⟨left, led⟩ := ih hdir
    exact ⟨left, .jump hname hlink led⟩
  | atLink nofollow _ _ => exact absurd nofollow (by simp)
  | atPlain _ hplain => exact absurd hdir hplain.1

/-- Following links makes a difference only for walks that end at one. -/
theorem walk_follow (t : FileTree) (links : Nat) (dir : Location) (names : List String) :
    t.walk true links dir names = t.walk false links dir names ∨
      ∃ loc target, t.walk false links dir names = .ok loc ∧
        t.find? loc = some (.link target) := by
  -- following makes a difference at the last name only
  induction links, dir, names using walk_induct t with
  | nil links dir =>
    rw [walk_nil, walk_nil]
    exact .inl rfl
  | points links dir name rest there goes ih =>
    rw [walk_points goes, walk_points goes]
    exact ih
  | tooLong links dir name rest isName long =>
    rw [walk_tooLong isName long, walk_tooLong isName long]
    exact .inl rfl
  | directory links dir name rest hname hdir ih =>
    rw [walk_directory hname hdir, walk_directory hname hdir]
    exact ih
  | lastLink dir name target rest hname hlink =>
    cases rest with
    | nil => exact .inr ⟨_, target, walk_last_link hname hlink, hlink⟩
    | cons next rest =>
      have goes : next :: rest ≠ [] := List.cons_ne_nil next rest
      rw [walk_link hname hlink (.inl goes), walk_link hname hlink (.inl goes)]
      exact .inl rfl
  | link links dir name target rest hname hlink ih =>
    cases rest with
    | nil => exact .inr ⟨_, target, walk_last_link hname hlink, hlink⟩
    | cons next rest =>
      have goes : next :: rest ≠ [] := List.cons_ne_nil next rest
      rw [walk_link hname hlink (.inl goes), walk_link hname hlink (.inl goes)]
      exact ih
  | plain links dir name rest hname hplain =>
    cases rest with
    | nil =>
      rw [walk_plain hname hplain, walk_plain hname hplain]
      exact .inl rfl
    | cons next rest =>
      have goes : next :: rest ≠ [] := List.cons_ne_nil next rest
      obtain ⟨fault, failed⟩ := walk_plain_error hname hplain goes
      rw [failed, failed]
      exact .inl rfl

/-! ## Trees with the same links -/

/-- Two trees have the same links and the same working directory. -/
structure SameLinks (t s : FileTree) : Prop where
  working : s.workingDirectory = t.workingDirectory
  link : ∀ loc target, s.find? loc = some (.link target) ↔ t.find? loc = some (.link target)

theorem SameLinks.refl (t : FileTree) : t.SameLinks t := ⟨rfl, fun _ _ => Iff.rfl⟩

theorem SameLinks.symm (h : t.SameLinks s) : s.SameLinks t :=
  ⟨h.working.symm, fun loc target => (h.link loc target).symm⟩

theorem SameLinks.trans (h : t.SameLinks s) (h' : s.SameLinks u) : t.SameLinks u :=
  ⟨h'.working.trans h.working, fun loc target => (h'.link loc target).trans (h.link loc target)⟩

/-- A tree has the same links as another and at least its directories. -/
structure Keeps (t s : FileTree) : Prop extends SameLinks t s where
  directory : ∀ loc, t.find? loc = some .directory → s.find? loc = some .directory

theorem Keeps.refl (t : FileTree) : t.Keeps t := ⟨.refl t, fun _ h => h⟩

theorem Keeps.trans (h : t.Keeps s) (h' : s.Keeps u) : t.Keeps u :=
  ⟨h.toSameLinks.trans h'.toSameLinks, fun loc hdir => h'.directory loc (h.directory loc hdir)⟩

/-- What leads somewhere still does when directories are added. -/
theorem Leads.keep (h : t.Leads links dir names left loc) (hkeep : t.Keeps s) :
    s.Leads links dir names left loc := by
  induction h with
  | here links dir => exact .here links dir
  | points goes _ ih => exact .points goes ih
  | down hname hdir _ ih => exact .down hname (hkeep.directory _ hdir) ih
  | jump hname hlink _ ih => exact .jump hname ((hkeep.link _ _).mpr hlink) ih

/-- The links alone decide where names lead. -/
theorem Leads.unique {left' : Nat} {loc' : Location} (h : t.Leads links dir names left loc)
    (h' : s.Leads links dir names left' loc') (hlinks : t.SameLinks s) :
    left' = left ∧ loc' = loc := by
  induction h with
  | here links dir =>
    cases h'
    exact ⟨rfl, rfl⟩
  | points goes _ ih =>
    cases h' with
    | points goes' h' =>
      obtain rfl := Option.some.inj (goes.symm.trans goes')
      exact ih h'
    | down hname _ _ => exact absurd goes (by simp [hname.points?])
    | jump hname _ _ => exact absurd goes (by simp [hname.points?])
  | down hname hdir _ ih =>
    cases h' with
    | points goes _ => exact absurd goes (by simp [hname.points?])
    | down _ _ h' => exact ih h'
    | jump _ hlink _ => simp [(hlinks.link _ _).mp hlink] at hdir
  | jump hname hlink _ ih =>
    have there := (hlinks.link _ _).mpr hlink
    cases h' with
    | points goes _ => exact absurd goes (by simp [hname.points?])
    | down _ hdir _ => simp [there] at hdir
    | jump _ hlink' h' =>
      rw [there] at hlink'
      obtain rfl := Entry.link.inj (Option.some.inj hlink')
      exact ih h'

/-! ## Trees that differ at one location -/

/-- A tree has the directories and links of another, but perhaps for those at one location. -/
def KeepsBut (spot : Location) (t s : FileTree) : Prop :=
  ∀ loc, loc ≠ spot → (t.find? loc = some .directory → s.find? loc = some .directory) ∧
    ∀ target, t.find? loc = some (.link target) → s.find? loc = some (.link target)

/-- What leads somewhere still does when a single entry is changed, unless it leads over that entry;
if that is a link, its target then leads to a directory. -/
theorem Leads.keepBut {spot : Location} (h : t.Leads links dir names left loc)
    (hkeep : KeepsBut spot t s) (hspot : t.find? spot ≠ some .directory) :
    s.Leads links dir names left loc ∨
      ∃ dir name target links left mid, spot = dir ++ [name] ∧
        t.find? spot = some (.link target) ∧
        t.Leads links (if target.isAbsolute then [] else dir) target.route left mid := by
  induction h with
  | here links dir => exact .inl (.here links dir)
  | points goes _ ih =>
    rcases ih with led | led
    · exact .inl (.points goes led)
    · exact .inr led
  | @down links dir name rest left loc hname hdir _ ih =>
    rcases ih with led | led
    · have elsewhere : dir ++ [name] ≠ spot := fun here => hspot (here ▸ hdir)
      exact .inl (.down hname ((hkeep _ elsewhere).1 hdir) led)
    · exact .inr led
  | @jump links dir name target rest left loc hname hlink led ih =>
    by_cases here : dir ++ [name] = spot
    · obtain ⟨via, mid, front, -⟩ := led.split
      exact .inr ⟨dir, name, target, links, via, mid, here.symm, here ▸ hlink, front⟩
    · rcases ih with led | led
      · exact .inl (.jump hname ((hkeep _ here).2 target hlink) led)
      · exact .inr led

/-- Where names lead with some number of links, a walk gets with any other number, or it gives up on
the links. -/
theorem Leads.walk_other (h : t.Leads links dir names left loc) (other : Nat) :
    t.walk true other dir names = .ok loc ∨ t.walk true other dir names = .error .tooManyLinks := by
  induction h generalizing other with
  | here links dir => exact .inl (walk_nil t true other dir)
  | points goes _ ih =>
    rw [walk_points goes]
    exact ih other
  | down hname hdir _ ih =>
    rw [walk_directory hname hdir]
    exact ih other
  | jump hname hlink _ ih =>
    rw [walk_link hname hlink (.inr rfl)]
    cases other with
    | zero => exact .inr rfl
    | succ other => exact ih other

end ImageGateway.Storage.FileTree
