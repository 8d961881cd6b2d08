import ImageGateway.Proofs.CommandLine.Spellings

/-!
# What options hold

An option holds what its flag tells it; otherwise, if there is a variable for it, what that says;
and otherwise nothing (`gathers_of_ofArguments`). Neither the other flags nor the other variables
have a part in that.
-/

set_option autoImplicit false

namespace ImageGateway.CommandLine

open Storage (FilePath)

/-- What an option holds. -/
abbrev Setting.Content : Setting → Type
  | .serverPort | .targetPort => UInt16
  | .configFile | .resultsDir | .webDir => FilePath

/-- What a text means as the value of an option. -/
def Setting.read? : (s : Setting) → String → Option s.Content
  | .serverPort | .targetPort => Options.port?
  | .configFile | .resultsDir | .webDir => Options.path?

/-- What the variable for an option says, if there is one and it is set. -/
def Setting.variable? (s : Setting) (env : Environment) : Option String :=
  (optionVariables.lookup s).bind env

namespace Options

/-- What options hold for a setting. -/
def get? (o : Options) : (s : Setting) → Option s.Content
  | .serverPort => o.serverPort
  | .targetPort => o.targetPort
  | .configFile => o.configFile
  | .resultsDir => o.resultsDir
  | .webDir => o.webDir

variable {o o' : Options} {s : Setting} {value : String}

theorem get?_none (s : Setting) : Options.none.get? s = Option.none := by cases s <;> rfl

theorem has_eq (o : Options) (s : Setting) : o.has s = (o.get? s).isSome := by cases s <;> rfl

/-- Setting an option changes no other one. -/
theorem of_set? (h : o.set? s value = some o') :
    (∃ x, s.read? value = some x ∧ o'.get? s = some x) ∧
      ∀ s', s' ≠ s → o'.get? s' = o.get? s' := by
  cases s
  all_goals
    obtain ⟨x, read, rfl⟩ := Option.map_eq_some_iff.mp h
    refine ⟨⟨x, read, rfl⟩, fun s' differs => ?_⟩
    cases s' <;> first | rfl | exact absurd rfl differs

theorem of_add (h : o.add s value = .ok o') : o.get? s = Option.none ∧
    (∃ x, s.read? value = some x ∧ o'.get? s = some x) ∧
      ∀ s', s' ≠ s → o'.get? s' = o.get? s' := by
  rw [add, has_eq] at h
  split at h
  · exact absurd h nofun
  · rename_i absent
    split at h
    · rename_i set
      cases h
      exact ⟨by simpa using absent, of_set? set⟩
    · exact absurd h nofun

/-- What an option holds is not taken from it by further ones. -/
theorem get?_addAll_of_some {given : List (Setting × String)} (h : o.addAll given = .ok o')
    {x : s.Content} (held : o.get? s = some x) : o'.get? s = some x := by
  induction given generalizing o with
  | nil =>
    cases h
    exact held
  | cons pair given ih =>
    obtain ⟨next, added, h⟩ := bind_eq_ok.mp h
    obtain ⟨absent, -, others⟩ := of_add added
    by_cases same : s = pair.1
    · -- An option cannot be given twice.
      subst same
      exact absurd (held.symm.trans absent) nofun
    · exact ih h ((others s same).trans held)

/-- Every option that is added is held from then on, and no other one is changed. -/
theorem of_addAll {given : List (Setting × String)} (h : o.addAll given = .ok o') :
    (∀ s value, (s, value) ∈ given → ∃ x, s.read? value = some x ∧ o'.get? s = some x) ∧
      ∀ s, (∀ value, (s, value) ∉ given) → o'.get? s = o.get? s := by
  induction given generalizing o with
  | nil =>
    cases h
    exact ⟨fun _ _ found => absurd found List.not_mem_nil, fun _ _ => rfl⟩
  | cons pair given ih =>
    obtain ⟨next, added, h⟩ := bind_eq_ok.mp h
    obtain ⟨-, ⟨x, read, held⟩, others⟩ := of_add added
    have all : next.addAll given = .ok o' := h
    obtain ⟨later, kept⟩ := ih all
    -- what is added later does not change an option that is held
    refine ⟨fun s value found => ?_, fun s absent => ?_⟩
    · rcases List.mem_cons.mp found with same | found
      · subst same
        exact ⟨x, read, get?_addAll_of_some all held⟩
      · exact later s value found
    · have differs : s ≠ pair.1 := fun same =>
        absent pair.2 (List.mem_cons.mpr (.inl (Prod.ext same rfl)))
      rw [kept s fun value found => absent value (List.mem_cons_of_mem _ found), others s differs]

end Options

/-! ## Variables -/

section

variable {env : Environment} {o o' : Options} {s : Setting} {text : Option String}

/-- A text is taken for an option that holds nothing. -/
structure Fills (s : Setting) (text : Option String) (o o' : Options) : Prop where
  kept : ∀ x, o.get? s = some x → o'.get? s = some x
  read : o.get? s = none → ∀ value, text = some value →
    ∃ x, s.read? value = some x ∧ o'.get? s = some x
  nothing : o.get? s = none → text = none → o'.get? s = none

theorem fills_none_iff : Fills s none o o' ↔ o'.get? s = o.get? s := by
  constructor
  · intro h
    cases held : o.get? s with
    | none => exact h.nothing held rfl
    | some x => exact h.kept x held
  · exact fun same => ⟨fun _ held => same.trans held, nofun, fun held _ => same.trans held⟩

theorem fills_of_addVariable {name : String} (h : addVariable env o s name = .ok o') :
    Fills s (env name) o o' ∧ ∀ s', s' ≠ s → o'.get? s' = o.get? s' := by
  unfold addVariable at h
  split at h
  · rename_i value said
    rw [Options.has_eq] at h
    split at h
    · -- a flag has given the option already, and the variable is passed over
      rename_i held
      cases h
      refine ⟨⟨fun _ held => held, fun absent => ?_, fun absent => ?_⟩, fun _ _ => rfl⟩
      all_goals
        rw [absent] at held
        exact absurd held nofun
    · obtain ⟨absent, read, others⟩ := Options.of_add h
      refine ⟨⟨fun x held => absurd (held.symm.trans absent) nofun, fun _ other same => ?_,
        fun _ none => absurd (said.symm.trans none) nofun⟩, others⟩
      rw [said] at same
      exact Option.some.inj same ▸ read
  · rename_i unset
    cases h
    exact ⟨by rw [unset]; exact fills_none_iff.mpr rfl, fun _ _ => rfl⟩

/-- Variables are taken one after the other, each for its own option. -/
theorem fills_of_addVariables {vars : List (Setting × String)}
    (names : (vars.map Prod.fst).Nodup)
    (h : vars.foldlM (fun o (s, name) => addVariable env o s name) o = .ok o')
    (s : Setting) : Fills s ((vars.lookup s).bind env) o o' := by
  induction vars generalizing o with
  | nil =>
    cases h
    exact fills_none_iff.mpr rfl
  | cons pair vars ih =>
    obtain ⟨first, name⟩ := pair
    obtain ⟨next, added, h⟩ := bind_eq_ok.mp h
    obtain ⟨new, names⟩ := List.nodup_cons.mp names
    obtain ⟨filled, others⟩ := fills_of_addVariable added
    have later := ih names h
    by_cases same : s = first
    · -- No later variable is for this option, so what the first one did stays.
      subst same
      rw [lookup_eq_none_iff_not_mem.mpr new] at later
      have kept := fills_none_iff.mp later
      rw [List.lookup_cons_self]
      exact ⟨fun x held => kept.trans (filled.kept x held),
        fun absent value said => by rw [kept]; exact filled.read absent value said,
        fun absent unset => kept.trans (filled.nothing absent unset)⟩
    · have differs : (s == first) = false := by simpa using same
      rw [List.lookup_cons, differs]
      have kept := others s same
      exact ⟨fun x held => later.kept x (kept.trans held),
        fun absent => later.read (kept.trans absent),
        fun absent => later.nothing (kept.trans absent)⟩

end

/-! ## Options -/

/-- What is gathered for a setting comes from its flag, else from its variable. -/
structure Gathers (args : List String) (env : Environment) (s : Setting)
    (content : Option s.Content) : Prop where
  told : ∀ value, Tells args s value → ∃ x, s.read? value = some x ∧ content = some x
  said : (∀ value, ¬ Tells args s value) → ∀ value, s.variable? env = some value →
    ∃ x, s.read? value = some x ∧ content = some x
  nothing : (∀ value, ¬ Tells args s value) → s.variable? env = none → content = none

/-- Options that are understood are gathered for each setting from its own flag and variable. -/
theorem gathers_of_ofArguments {env : Environment} {commandLine : List String} {o : Options}
    (h : Options.ofArguments env commandLine = .ok o) (s : Setting) :
    Gathers (commandLine.drop 1) env s (o.get? s) := by
  obtain ⟨first, understood, h⟩ := bind_eq_ok.mp h
  have dashes : (withDoubleDashes commandLine).drop 1
      = flagsWithDoubleDashes (commandLine.drop 1) := by
    cases commandLine <;> rfl
  rw [dashes] at understood
  obtain ⟨given, spelled, all⟩ := spells_of_readArguments understood
  obtain ⟨held, others⟩ := Options.of_addAll all
  have filled := fills_of_addVariables (by decide) h s
  have untold : (∀ value, ¬ Tells (commandLine.drop 1) s value) → first.get? s = none := by
    intro none
    rw [others s fun value found => none value (spelled.mem_iff_tells.mp found),
      Options.get?_none]
  refine ⟨fun value told => ?_, fun none => filled.read (untold none),
    fun none => filled.nothing (untold none)⟩
  obtain ⟨x, read, holds⟩ := held s value (spelled.mem_iff_tells.mpr told)
  exact ⟨x, read, filled.kept x holds⟩

end ImageGateway.CommandLine
