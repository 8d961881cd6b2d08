import ImageGateway.CommandLine.Options
import ImageGateway.Proofs.Preliminaries

/-!
# Spellings of options

An option is written with one dash or with two, and its value behind an equals sign or as the next
argument. Arguments that are understood are a row of options that are written so
(`spells_of_readArguments`), and what a setting is told is then found by looking for its flag
anywhere among them (`Spells.mem_iff_tells`): no value can be taken for a flag.
-/

set_option autoImplicit false

namespace ImageGateway.CommandLine

/-- The long name of the flag for a setting. -/
def Setting.longName : Setting → String
  | .serverPort => "serverPort"
  | .targetPort => "targetPort"
  | .configFile => "config"
  | .resultsDir => "results-dir"
  | .webDir => "web-dir"

/-- The ways to write the flag for a setting: its name behind one dash or two. The file with the
configuration has a letter, too. -/
def Setting.spellings (s : Setting) : List String :=
  ["-" ++ s.longName, "--" ++ s.longName] ++ if s = .configFile then ["-c"] else []

/-- Arguments tell a setting a value, which is attached to a flag for the setting by an equals sign
or comes after it. -/
def Tells (args : List String) (s : Setting) (value : String) : Prop :=
  ∃ flag ∈ s.spellings, flag ++ "=" ++ value ∈ args ∨ [flag, value] <:+: args

/-- Arguments that give some settings a value each. At the end the terminator may stand. -/
inductive Spells : List String → List (Setting × String) → Prop where
  | nil : Spells [] []
  | terminator : Spells [terminator] []
  | attached {s : Setting} {flag : String} {args : List String} {given : List (Setting × String)}
      (hflag : flag ∈ s.spellings) (value : String) (rest : Spells args given) :
      Spells ((flag ++ "=" ++ value) :: args) ((s, value) :: given)
  | separate {s : Setting} {flag : String} {args : List String} {given : List (Setting × String)}
      (hflag : flag ∈ s.spellings) {value : String} (hvalue : Argument.canBeValue value = true)
      (rest : Spells args given) : Spells (flag :: value :: args) ((s, value) :: given)

/-! ## Flags and values -/

theorem canBeValue_eq_false_iff {arg : String} :
    Argument.canBeValue arg = false ↔ ∃ c cs, arg.toList = '-' :: c :: cs := by
  have dash : arg = "-" ↔ arg.toList = ['-'] := String.toList_inj.symm
  rw [Argument.canBeValue, Bool.or_eq_false_iff, decide_eq_false_iff_not, dash]
  cases arg.toList with
  | nil => simp
  | cons c cs => cases cs <;> simp

/-- What begins like a flag cannot be a value. -/
theorem canBeValue_append {arg : String} (h : Argument.canBeValue arg = false) (more : String) :
    Argument.canBeValue (arg ++ more) = false := by
  obtain ⟨c, cs, same⟩ := canBeValue_eq_false_iff.mp h
  exact canBeValue_eq_false_iff.mpr ⟨c, cs ++ more.toList, by rw [String.toList_append, same]; rfl⟩

/-- What stands before the first equals sign. -/
theorem takeWhile_attached {cs : List Char} (h : '=' ∉ cs) (more : List Char) :
    (cs ++ '=' :: more).takeWhile (· ≠ '=') = cs := by
  have before : ∀ c ∈ cs, decide (c ≠ '=') = true := fun c hc =>
    decide_eq_true fun same => h (same ▸ hc)
  rw [List.takeWhile_append_of_pos before, List.takeWhile_cons_of_neg (by decide), List.append_nil]

theorem toList_attached (flag value : String) :
    (flag ++ "=" ++ value).toList = flag.toList ++ '=' :: value.toList := by
  simp

theorem attached_inj {flag flag' value value' : String} (h : '=' ∉ flag.toList)
    (h' : '=' ∉ flag'.toList) (same : flag ++ "=" ++ value = flag' ++ "=" ++ value') :
    flag = flag' ∧ value = value' := by
  have chars := congrArg String.toList same
  rw [toList_attached, toList_attached] at chars
  have flags : flag.toList = flag'.toList := by
    rw [← takeWhile_attached h value.toList, chars, takeWhile_attached h' value'.toList]
  rw [flags] at chars
  exact ⟨String.toList_inj.mp flags,
    String.toList_inj.mp (List.cons.inj (List.append_cancel_left chars)).2⟩

/-! ## One dash or two -/

section

variable {arg : String}

theorem hasSingleDash_iff : hasSingleDash arg = true ↔ ∃ rest, arg.toList = '-' :: rest ∧
    rest.head? ≠ some '-' ∧ 1 < (rest.takeWhile (· ≠ '=')).length := by
  rw [hasSingleDash]
  split
  · rename_i rest chars
    rw [Bool.and_eq_true, bne_iff_ne, decide_eq_true_iff]
    constructor
    · rintro ⟨plain, long⟩
      exact ⟨rest, chars, plain, long⟩
    · rintro ⟨rest', chars', plain, long⟩
      obtain ⟨-, rfl⟩ := List.cons.inj (chars.symm.trans chars')
      exact ⟨plain, long⟩
  · rename_i noDash
    refine ⟨by simp, ?_⟩
    rintro ⟨rest, chars, -⟩
    exact absurd chars (noDash rest)

theorem hasSingleDash_terminator : hasSingleDash terminator = false := by decide

/-- Behind two dashes is no flag with a single one. -/
theorem hasSingleDash_of_doubleDash (h : ∃ rest, arg.toList = '-' :: '-' :: rest) :
    hasSingleDash arg = false := by
  obtain ⟨rest, h⟩ := h
  rw [← Bool.not_eq_true, hasSingleDash_iff]
  rintro ⟨rest', chars, plain, -⟩
  obtain ⟨-, rfl⟩ := List.cons.inj (h.symm.trans chars)
  exact plain rfl

theorem withDoubleDash_cases (arg : String) :
    hasSingleDash arg = false ∧ withDoubleDash arg = arg ∨
      hasSingleDash arg = true ∧ withDoubleDash arg = "-" ++ arg := by
  rw [withDoubleDash]
  split
  · rename_i single
    exact .inr ⟨single, rfl⟩
  · rename_i none
    exact .inl ⟨Bool.not_eq_true _ ▸ none, rfl⟩

/-- An argument with two dashes is not given more. -/
theorem withDoubleDash_idem (arg : String) :
    withDoubleDash (withDoubleDash arg) = withDoubleDash arg := by
  rcases withDoubleDash_cases arg with ⟨-, same⟩ | ⟨single, longer⟩
  · rw [same, same]
  · obtain ⟨rest, chars, -⟩ := hasSingleDash_iff.mp single
    have double : hasSingleDash ("-" ++ arg) = false :=
      hasSingleDash_of_doubleDash ⟨rest, by rw [String.toList_append, chars]; rfl⟩
    rw [longer, withDoubleDash, double]
    rfl

/-- No flag becomes the terminator. -/
theorem withDoubleDash_ne_terminator (h : arg ≠ terminator) : withDoubleDash arg ≠ terminator := by
  rcases withDoubleDash_cases arg with ⟨-, same⟩ | ⟨single, longer⟩
  · rwa [same]
  · obtain ⟨rest, chars, -, long⟩ := hasSingleDash_iff.mp single
    intro same
    have all := congrArg String.toList (longer.symm.trans same)
    rw [String.toList_append, chars] at all
    -- only a dash alone would become the terminator, and it has no name
    have none : rest = [] := (List.cons.inj (List.cons.inj all).2).2
    rw [none] at long
    exact absurd long (by decide)

/-- A value stays as it is written: what would be rewritten is no value. -/
theorem withDoubleDash_of_canBeValue (h : Argument.canBeValue (withDoubleDash arg) = true) :
    withDoubleDash arg = arg := by
  rcases withDoubleDash_cases arg with ⟨-, same⟩ | ⟨single, longer⟩
  · exact same
  · obtain ⟨rest, chars, -⟩ := hasSingleDash_iff.mp single
    have notValue : Argument.canBeValue ("-" ++ arg) = false :=
      canBeValue_eq_false_iff.mpr ⟨'-', rest, by rw [String.toList_append, chars]; rfl⟩
    rw [longer, notValue] at h
    exact absurd h nofun

end

section

variable {s s₀ : Setting} {flag flag₀ value value₀ : String} {args : List String}

/-- A flag begins with a dash, and has neither an equals sign nor nothing but dashes. -/
theorem of_mem_spellings (h : flag ∈ s.spellings) :
    Argument.canBeValue flag = false ∧ '=' ∉ flag.toList ∧ flag ≠ terminator := by
  have all : ∀ flag ∈ s.spellings,
      Argument.canBeValue flag = false ∧ '=' ∉ flag.toList ∧ flag ≠ terminator := by
    cases s <;> decide
  exact all flag h

theorem eq_of_mem_spellings (h : flag ∈ s.spellings) (h₀ : flag ∈ s₀.spellings) : s = s₀ := by
  have all : ∀ flag ∈ s.spellings, flag ∈ s₀.spellings → s = s₀ := by
    cases s <;> cases s₀ <;> decide
  exact all flag h h₀

theorem ne_attached (h : flag ∈ s.spellings) (other value : String) :
    flag ≠ other ++ "=" ++ value := by
  rintro rfl
  exact (of_mem_spellings h).2.1 (by simp)

/-! ## What settings are told -/

theorem not_tells_nil : ¬ Tells [] s value := by
  rintro ⟨flag, -, found | found⟩
  · exact absurd found List.not_mem_nil
  · exact absurd (List.infix_nil.mp found) nofun

theorem not_tells_terminator : ¬ Tells [terminator] s value := by
  rintro ⟨flag, hflag, found | found⟩
  · have equals : '=' ∈ terminator.toList := by
      rw [← List.mem_singleton.mp found]
      simp
    exact absurd equals (by decide)
  · exact absurd found.length_le (by simp)

/-- A flag with a value that is attached to it tells its own setting, and only that. -/
theorem tells_attached (h₀ : flag₀ ∈ s₀.spellings) :
    Tells ((flag₀ ++ "=" ++ value₀) :: args) s value ↔
      (s = s₀ ∧ value = value₀) ∨ Tells args s value := by
  constructor
  · rintro ⟨flag, hflag, found | found⟩
    · rcases List.mem_cons.mp found with same | later
      · obtain ⟨rfl, rfl⟩ :=
          attached_inj (of_mem_spellings hflag).2.1 (of_mem_spellings h₀).2.1 same
        exact .inl ⟨eq_of_mem_spellings hflag h₀, rfl⟩
      · exact .inr ⟨flag, hflag, .inl later⟩
    · rcases List.infix_cons_iff.mp found with here | later
      · exact absurd (List.cons_prefix_cons.mp here).1 (ne_attached hflag flag₀ value₀)
      · exact .inr ⟨flag, hflag, .inr later⟩
  · rintro (⟨rfl, rfl⟩ | ⟨flag, hflag, found | found⟩)
    · exact ⟨flag₀, h₀, .inl List.mem_cons_self⟩
    · exact ⟨flag, hflag, .inl (List.mem_cons_of_mem _ found)⟩
    · exact ⟨flag, hflag, .inr (List.infix_cons found)⟩

/-- So does a flag with the value after it. -/
theorem tells_separate (h₀ : flag₀ ∈ s₀.spellings) (hvalue : Argument.canBeValue value₀ = true) :
    Tells (flag₀ :: value₀ :: args) s value ↔
      (s = s₀ ∧ value = value₀) ∨ Tells args s value := by
  constructor
  · rintro ⟨flag, hflag, found | found⟩
    · rcases List.mem_cons.mp found with same | found
      · exact absurd same.symm (ne_attached h₀ flag value)
      rcases List.mem_cons.mp found with same | later
      · -- The value would begin with a flag.
        rw [← same, String.append_assoc, canBeValue_append (of_mem_spellings hflag).1] at hvalue
        exact absurd hvalue (by decide)
      · exact .inr ⟨flag, hflag, .inl later⟩
    · rcases List.infix_cons_iff.mp found with here | found
      · obtain ⟨rfl, next⟩ := List.cons_prefix_cons.mp here
        exact .inl ⟨eq_of_mem_spellings hflag h₀, (List.cons_prefix_cons.mp next).1⟩
      rcases List.infix_cons_iff.mp found with here | later
      · -- The value would be a flag.
        rw [← (List.cons_prefix_cons.mp here).1, (of_mem_spellings hflag).1] at hvalue
        exact absurd hvalue (by decide)
      · exact .inr ⟨flag, hflag, .inr later⟩
  · rintro (⟨rfl, rfl⟩ | ⟨flag, hflag, found | found⟩)
    · exact ⟨flag₀, h₀, .inr ⟨[], args, rfl⟩⟩
    · exact ⟨flag, hflag, .inl (List.mem_cons_of_mem _ (List.mem_cons_of_mem _ found))⟩
    · exact ⟨flag, hflag, .inr (List.infix_cons (List.infix_cons found))⟩

/-- In arguments that spell options, the values that a setting is given are those that are found
with its flag. -/
theorem Spells.mem_iff_tells {given : List (Setting × String)} (h : Spells args given) :
    (s, value) ∈ given ↔ Tells args s value := by
  induction h with
  | nil => simp [not_tells_nil]
  | terminator => simp [not_tells_terminator]
  | attached hflag value rest ih => rw [tells_attached hflag, List.mem_cons, Prod.mk.injEq, ih]
  | separate hflag hvalue rest ih =>
    rw [tells_separate hflag hvalue, List.mem_cons, Prod.mk.injEq, ih]

end

/-! ## Reading arguments -/

section

variable {s : Setting} {arg value : String} {v : Option String}

/-- A flag with a value attached to it, if there is one. -/
def attach (flag : String) : Option String → String
  | some value => flag ++ "=" ++ value
  | none => flag

theorem toList_attach (flag : String) (v : Option String) : (attach flag v).toList
    = flag.toList ++ match v with
      | some value => '=' :: value.toList
      | none => [] := by
  cases v <;> simp [attach]

/-- What follows a name is nothing, or an equals sign and the value. -/
theorem name_append_attached (cs : List Char) :
    cs = cs.takeWhile (· ≠ '=')
      ++ match Argument.attached? (cs.drop (cs.takeWhile (· ≠ '=')).length) with
        | some value => '=' :: value.toList
        | none => [] := by
  induction cs with
  | nil => rfl
  | cons c cs ih =>
    by_cases same : c = '='
    · subst same
      rw [List.takeWhile_cons_of_neg (by decide)]
      simp [Argument.attached?]
    · rw [List.takeWhile_cons_of_pos (p := (· ≠ '=')) (decide_eq_true same)]
      exact congrArg (c :: ·) ih

theorem ofName?_eq_setting {name : String} (h : Flag.ofName? name = some (.setting s)) :
    name = s.longName := by
  unfold Flag.ofName? at h
  split at h <;> cases h <;> rfl

theorem ofLetter?_eq_setting {c : Char} (h : Flag.ofLetter? c = some (.setting s)) :
    c = 'c' ∧ s = .configFile := by
  unfold Flag.ofLetter? at h
  split at h
  · rename_i same
    cases h
    exact ⟨same, rfl⟩
  · split at h
    · cases h
    · split at h <;> cases h

/-- A flag for a setting has a long name behind two dashes, or the letter behind one. -/
theorem eq_of_ofString (h : Argument.ofString arg = .flag (.setting s) v) :
    arg = attach ("--" ++ s.longName) v ∨
      s = .configFile ∧ ∃ rest, arg.toList = '-' :: 'c' :: rest ∧
        v = if rest.isEmpty then none
          else some ((Argument.attached? rest).getD (String.ofList rest)) := by
  unfold Argument.ofString at h
  split at h
  · cases h
  · -- two dashes: what stands in front of an equals sign is the name
    rename_i rest notEnd chars
    dsimp only at h
    split at h
    · rename_i f named
      cases h
      have name := congrArg String.toList (ofName?_eq_setting named)
      rw [String.toList_ofList] at name
      refine .inl (String.toList_inj.mp ?_)
      rw [toList_attach, String.toList_append, ← name, chars, List.append_assoc,
        ← name_append_attached rest]
      rfl
    · cases h
  · -- one dash: a letter, and what is attached to it
    rename_i c rest notEnd notLong chars
    split at h
    · rename_i s' named
      obtain ⟨rfl, rfl⟩ := ofLetter?_eq_setting named
      split at h
      · rename_i empty
        cases h
        exact .inr ⟨rfl, rest, chars, by rw [if_pos empty]⟩
      · rename_i more
        cases h
        exact .inr ⟨rfl, rest, chars, by rw [if_neg more]⟩
    · rename_i f notSetting named
      cases h
      exact absurd rfl (notSetting s)
    · cases h
  · cases h

/-- An argument that is read as a flag for a setting is one in one of its spellings. -/
theorem of_ofString (h : Argument.ofString (withDoubleDash arg) = .flag (.setting s) v) :
    ∃ flag ∈ s.spellings, arg = attach flag v := by
  rcases eq_of_ofString h with long | ⟨rfl, rest, chars, rfl⟩
  · rcases withDoubleDash_cases arg with ⟨-, same⟩ | ⟨-, longer⟩
    · exact ⟨"--" ++ s.longName, by simp [Setting.spellings], same.symm.trans long⟩
    · -- One of the two dashes has been added.
      refine ⟨"-" ++ s.longName, by simp [Setting.spellings], String.toList_inj.mp ?_⟩
      have chars := congrArg String.toList (longer.symm.trans long)
      rw [toList_attach, String.toList_append, String.toList_append, List.append_assoc] at chars
      rw [toList_attach, String.toList_append, List.append_assoc]
      exact (List.cons.inj chars).2
  · refine ⟨"-c", by simp [Setting.spellings], String.toList_inj.mp ?_⟩
    rcases withDoubleDash_cases arg with ⟨plain, same⟩ | ⟨single, longer⟩
    · rw [same] at chars
      cases rest with
      | nil => exact chars
      | cons d ds =>
        by_cases equals : d = '='
        · subst equals
          rw [chars, toList_attach]
          simp [Argument.attached?]
        · -- A longer name behind one dash would have been given two.
          refine absurd plain ?_
          simp [hasSingleDash, chars, equals]
    · obtain ⟨more, dashed, -⟩ := hasSingleDash_iff.mp single
      rw [longer, String.toList_append, dashed] at chars
      exact absurd (List.cons.inj (List.cons.inj chars).2).1 (by decide)

theorem eq_terminator_of_ofString (h : Argument.ofString arg = .terminator) : arg = terminator := by
  refine String.toList_inj.mp ?_
  unfold Argument.ofString at h
  split at h
  · assumption
  · dsimp only at h
    split at h <;> cases h
  · split at h
    · split at h <;> cases h
    all_goals cases h
  · cases h

theorem terminator_of_ofString (h : Argument.ofString (withDoubleDash arg) = .terminator) :
    arg = terminator := by
  by_contra other
  exact withDoubleDash_ne_terminator other (eq_terminator_of_ofString h)

/-- Adds options one after the other. -/
def Options.addAll (o : Options) (given : List (Setting × String)) : Except Stop Options :=
  given.foldlM (fun o (s, value) => o.add s value) o

/-- What the first of some arguments is that are understood: the terminator with nothing behind it, or
a flag for a setting that gets the value attached to it or the next argument. -/
theorem readArguments_cons_eq_ok {o o' : Options} {rest : List String}
    (h : readArguments o (arg :: rest) = .ok o') :
    (Argument.ofString arg = .terminator ∧ rest = [] ∧ o' = o) ∨
      ∃ s value next more, o.add s value = .ok next ∧ readArguments next more = .ok o' ∧
        (Argument.ofString arg = .flag (.setting s) (some value) ∧ rest = more ∨
          Argument.ofString arg = .flag (.setting s) none ∧ rest = value :: more ∧
            Argument.canBeValue value = true) := by
  rw [readArguments.eq_def] at h
  dsimp only at h
  split at h
  · rename_i read
    split at h
    · rename_i empty
      exact .inl ⟨read, List.isEmpty_iff.mp empty, (Except.ok.inj h).symm⟩
    · exact absurd h nofun
  · exact absurd h nofun
  · exact absurd h nofun
  · exact absurd h nofun
  · rename_i s value read
    obtain ⟨next, added, h⟩ := bind_eq_ok.mp h
    exact .inr ⟨s, value, next, rest, added, h, .inl ⟨read, rfl⟩⟩
  · rename_i s read
    cases rest with
    | nil => exact absurd h nofun
    | cons value more =>
      dsimp only at h
      split at h
      · rename_i isValue
        obtain ⟨next, added, h⟩ := bind_eq_ok.mp h
        exact .inr ⟨s, value, next, more, added, h, .inr ⟨read, rfl, isValue⟩⟩
      · exact absurd h nofun

/-- A value that is read behind a flag is the argument there, which has not been given dashes. Behind
the terminator nothing has, but this is no value. -/
theorem value_of_flagsWithDoubleDashes {rest more : List String}
    (h : flagsWithDoubleDashes rest = value :: more) (hvalue : Argument.canBeValue value = true) :
    ∃ others, rest = value :: others ∧ flagsWithDoubleDashes others = more := by
  cases rest with
  | nil => exact absurd h nofun
  | cons arg others =>
    rw [flagsWithDoubleDashes] at h
    split at h
    · rename_i last
      obtain ⟨rfl, -⟩ := List.cons.inj h
      rw [last] at hvalue
      exact absurd hvalue (by decide)
    · obtain ⟨rfl, rest⟩ := List.cons.inj h
      rw [withDoubleDash_of_canBeValue hvalue]
      exact ⟨others, rfl, rest⟩

/-- Arguments that are understood spell options, and these are added in turn. -/
theorem spells_of_readArguments : ∀ {args : List String} {o o' : Options},
    readArguments o (flagsWithDoubleDashes args) = .ok o' →
      ∃ given, Spells args given ∧ o.addAll given = .ok o'
  | [], o, o', h => ⟨[], .nil, h⟩
  | arg :: rest, o, o', h => by
    by_cases last : arg = terminator
    · subst last
      have ended : Argument.ofString terminator = .terminator := by decide
      rw [flagsWithDoubleDashes, if_pos rfl] at h
      rcases readArguments_cons_eq_ok h with ⟨-, rfl, rfl⟩ | ⟨_, _, _, _, -, -, read⟩
      · exact ⟨[], .terminator, rfl⟩
      · rcases read with ⟨read, -⟩ | ⟨read, -⟩ <;> exact absurd (ended.symm.trans read) nofun
    · rw [flagsWithDoubleDashes, if_neg last] at h
      rcases readArguments_cons_eq_ok h with ⟨read, -⟩ |
        ⟨s, value, next, more, added, further, ⟨read, same⟩ | ⟨read, same, isValue⟩⟩
      · exact absurd (terminator_of_ofString read) last
      · -- The value is attached.
        obtain ⟨flag, hflag, rfl⟩ := of_ofString read
        rw [← same] at further
        obtain ⟨given, spelled, all⟩ := spells_of_readArguments further
        exact ⟨(s, value) :: given, .attached hflag value spelled,
          bind_eq_ok.mpr ⟨next, added, all⟩⟩
      · -- The next argument is the value.
        obtain ⟨flag, hflag, rfl⟩ := of_ofString read
        obtain ⟨others, rfl, rfl⟩ := value_of_flagsWithDoubleDashes same isValue
        obtain ⟨given, spelled, all⟩ := spells_of_readArguments further
        exact ⟨(s, value) :: given, .separate hflag isValue spelled,
          bind_eq_ok.mpr ⟨next, added, all⟩⟩

end

end ImageGateway.CommandLine
