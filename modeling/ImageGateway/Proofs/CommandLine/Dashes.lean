import ImageGateway.Proofs.CommandLine.Spellings

/-!
# One dash or two

Writing flags with two dashes keeps the name of the program and everything from the terminator on
(`getElem?_withDoubleDashes`), and does nothing more when it is done again (`withDoubleDashes_idem`).
It makes no difference which flags with a longer name are written with one dash
(`withDoubleDashes_of_shortens`): such a flag is never the terminator in either spelling, so that both
command lines have it at the same place.
-/

set_option autoImplicit false

namespace ImageGateway.CommandLine

variable {arg arg' flag flag' : String} {args args' words words' : List String}

/-- A flag with two dashes and a name of two or more characters, alone or with a value attached to it,
and the same with one dash. -/
def IsShortened (flag flag' : String) : Prop :=
  ∃ name ending : String, 2 ≤ name.length ∧ name.toList.head? ≠ some '-' ∧ '=' ∉ name.toList ∧
    (ending = "" ∨ ∃ value, ending = "=" ++ value) ∧
    flag = "--" ++ name ++ ending ∧ flag' = "-" ++ name ++ ending

/-- The terminator is among the arguments from `first` on, up to a place. -/
def IsTerminated (first : Nat) (words : List String) (i : Nat) : Prop :=
  ∃ j, first ≤ j ∧ j ≤ i ∧ words[j]? = some terminator

/-- Some flags from `first` on and before the terminator are written with one dash instead of two. -/
def Shortens (first : Nat) (words words' : List String) : Prop :=
  ∀ i, words'[i]? = words[i]? ∨ first ≤ i ∧ ¬ IsTerminated first words i ∧
    ∃ flag flag', words[i]? = some flag ∧ words'[i]? = some flag' ∧ IsShortened flag flag'

/-! ## One argument -/

/-- A flag that may be written with one dash or with two is none with a single dash in the longer
spelling, and one in the shorter, which is the longer one but for a dash. -/
theorem IsShortened.spellings (h : IsShortened flag flag') :
    hasSingleDash flag = false ∧ hasSingleDash flag' = true ∧ "-" ++ flag' = flag := by
  obtain ⟨name, ending, long, plain, noEquals, hending, rfl, rfl⟩ := h
  have before : ∀ c ∈ name.toList, decide (c ≠ '=') = true := fun c hc =>
    decide_eq_true fun same => noEquals (same ▸ hc)
  -- the name goes up to the value attached to it, or to the end
  have whole : (name.toList ++ ending.toList).takeWhile (· ≠ '=') = name.toList := by
    rcases hending with rfl | ⟨value, rfl⟩
    · rw [List.takeWhile_append_of_pos before, String.toList_empty, List.takeWhile_nil,
        List.append_nil]
    · rw [String.toList_append]
      exact takeWhile_attached noEquals value.toList
  have dashes : "--" = "-" ++ "-" := rfl
  refine ⟨hasSingleDash_of_doubleDash ⟨name.toList ++ ending.toList, by simp⟩, ?_, ?_⟩
  · refine hasSingleDash_iff.mpr ⟨name.toList ++ ending.toList, by simp, ?_, ?_⟩
    · obtain ⟨c, cs, chars⟩ : ∃ c cs, name.toList = c :: cs :=
        List.exists_cons_of_length_pos (by rw [String.length_toList]; omega)
      rw [chars] at plain ⊢
      exact plain
    · rw [whole, String.length_toList]
      exact long
  · rw [dashes, String.append_assoc, String.append_assoc, String.append_assoc]

theorem IsShortened.withDoubleDash (h : IsShortened flag flag') :
    withDoubleDash flag' = withDoubleDash flag := by
  obtain ⟨double, single, longer⟩ := h.spellings
  rw [CommandLine.withDoubleDash, CommandLine.withDoubleDash, double, single, if_pos rfl, longer]
  rfl

/-- A flag that is written with one dash is not the terminator. -/
theorem IsShortened.ne_terminator (h : IsShortened flag flag') : flag' ≠ terminator := by
  rintro rfl
  exact absurd (h.spellings.2.1.symm.trans hasSingleDash_terminator) (by simp)

/-! ## All arguments -/

theorem length_flagsWithDoubleDashes (args : List String) :
    (flagsWithDoubleDashes args).length = args.length := by
  induction args with
  | nil => rfl
  | cons arg rest ih =>
    rw [flagsWithDoubleDashes]
    split
    · rfl
    · rw [List.length_cons, ih, List.length_cons]

/-- Behind the terminator nothing is changed. -/
theorem getElem?_flagsWithDoubleDashes {i : Nat} (h : IsTerminated 0 args i) :
    (flagsWithDoubleDashes args)[i]? = args[i]? := by
  induction args generalizing i with
  | nil => rfl
  | cons arg rest ih =>
    rw [flagsWithDoubleDashes]
    split
    · rfl
    · rename_i notHere
      obtain ⟨j, -, upTo, here⟩ := h
      cases j with
      | zero => exact absurd (Option.some.inj here) notHere
      | succ j =>
        obtain ⟨i, rfl⟩ := Nat.exists_eq_add_of_le' (Nat.le_of_add_left_le upTo)
        exact ih ⟨j, Nat.zero_le j, by omega, here⟩

theorem flagsWithDoubleDashes_idem (args : List String) :
    flagsWithDoubleDashes (flagsWithDoubleDashes args) = flagsWithDoubleDashes args := by
  induction args with
  | nil => rfl
  | cons arg rest ih =>
    by_cases here : arg = terminator
    · rw [flagsWithDoubleDashes, if_pos here, flagsWithDoubleDashes, if_pos here]
    · rw [flagsWithDoubleDashes, if_neg here, flagsWithDoubleDashes,
        if_neg (withDoubleDash_ne_terminator here), withDoubleDash_idem, ih]

theorem Shortens.eq_nil {first : Nat} (h : Shortens first [] words') : words' = [] := by
  refine List.ext_getElem? fun i => (h i).resolve_right ?_
  rintro ⟨-, -, flag, -, found, -⟩
  exact absurd found (by simp)

/-- The first argument is shortened only if it may be a flag. -/
theorem Shortens.cons {first : Nat} (h : Shortens first (arg :: args) words') :
    ∃ arg' args', words' = arg' :: args' ∧ (arg' = arg ∨ first = 0 ∧ IsShortened arg arg') := by
  rcases h 0 with same | ⟨from', -, flag, flag', here, here', short⟩
  · obtain ⟨args', rfl⟩ := List.head?_eq_some_iff.mp (List.head?_eq_getElem? .. ▸ same)
    exact ⟨arg, args', rfl, .inl rfl⟩
  · obtain ⟨args', rfl⟩ := List.head?_eq_some_iff.mp (List.head?_eq_getElem? .. ▸ here')
    obtain rfl : arg = flag := Option.some.inj here
    exact ⟨flag', args', rfl, .inr ⟨Nat.le_zero.mp from', short⟩⟩

/-- The other arguments are shortened as they are behind it. -/
theorem Shortens.tail {first : Nat} (h : Shortens first (arg :: args) (arg' :: args')) :
    Shortens (first - 1) args args' := by
  intro i
  refine (h (i + 1)).imp_right ?_
  rintro ⟨from', before, flags⟩
  refine ⟨by omega, ?_, flags⟩
  rintro ⟨j, fromJ, upTo, here⟩
  exact before ⟨j + 1, by omega, by omega, here⟩

/-- From the terminator on nothing is shortened. -/
theorem Shortens.eq_of_terminator (h : Shortens 0 (terminator :: args) words') :
    words' = terminator :: args := by
  refine List.ext_getElem? fun i => (h i).resolve_right ?_
  rintro ⟨-, before, -⟩
  exact before ⟨0, Nat.le_refl 0, Nat.zero_le i, rfl⟩

/-- Flags that are shortened before the terminator come out alike. -/
theorem flagsWithDoubleDashes_of_shortens (h : Shortens 0 args args') :
    flagsWithDoubleDashes args' = flagsWithDoubleDashes args := by
  induction args generalizing args' with
  | nil => rw [h.eq_nil]
  | cons arg rest ih =>
    by_cases here : arg = terminator
    · subst here
      rw [h.eq_of_terminator]
    · obtain ⟨arg', rest', rfl, spelling⟩ := h.cons
      -- neither spelling ends the flags, so both command lines go on behind it
      have alike : arg' ≠ terminator ∧ withDoubleDash arg' = withDoubleDash arg := by
        rcases spelling with rfl | ⟨-, short⟩
        · exact ⟨here, rfl⟩
        · exact ⟨short.ne_terminator, short.withDoubleDash⟩
      rw [flagsWithDoubleDashes, if_neg alike.1, flagsWithDoubleDashes, if_neg here, alike.2,
        ih h.tail]

/-! ## Whole command lines -/

theorem length_withDoubleDashes (words : List String) :
    (withDoubleDashes words).length = words.length := by
  cases words with
  | nil => rfl
  | cons program args => exact congrArg Nat.succ (length_flagsWithDoubleDashes args)

/-- The name of the program and everything from the terminator on are kept. -/
theorem getElem?_withDoubleDashes {i : Nat} (h : i = 0 ∨ IsTerminated 1 words i) :
    (withDoubleDashes words)[i]? = words[i]? := by
  cases words with
  | nil => rfl
  | cons program args =>
    cases i with
    | zero => rfl
    | succ i =>
      obtain ⟨j, from', upTo, here⟩ := h.resolve_left (Nat.succ_ne_zero i)
      obtain ⟨j, rfl⟩ := Nat.exists_eq_add_of_le' from'
      exact getElem?_flagsWithDoubleDashes ⟨j, Nat.zero_le j, by omega, here⟩

theorem withDoubleDashes_idem (words : List String) :
    withDoubleDashes (withDoubleDashes words) = withDoubleDashes words := by
  cases words with
  | nil => rfl
  | cons program args => exact congrArg (program :: ·) (flagsWithDoubleDashes_idem args)

/-- It makes no difference which flags are shortened. -/
theorem withDoubleDashes_of_shortens (h : Shortens 1 words words') :
    withDoubleDashes words' = withDoubleDashes words := by
  cases words with
  | nil => rw [h.eq_nil]
  | cons program args =>
    obtain ⟨program', args', rfl, same | ⟨isFirst, -⟩⟩ := h.cons
    · rw [same]
      exact congrArg (program :: ·) (flagsWithDoubleDashes_of_shortens h.tail)
    · exact absurd isFirst (by decide)

/-- **Flags come out the same however they are spelled.** There are as many arguments as before, the
first one and all from the terminator on are kept, doing it again changes nothing, and a command line in
which any flags before the terminator are written with one dash instead of two comes out the same. -/
theorem flags_spelled_alike (words : List String) :
    (withDoubleDashes words).length = words.length ∧
    (withDoubleDashes words).head? = words.head? ∧
    (∀ i, IsTerminated 1 words i → (withDoubleDashes words)[i]? = words[i]?) ∧
    withDoubleDashes (withDoubleDashes words) = withDoubleDashes words ∧
    ∀ words', Shortens 1 words words' → withDoubleDashes words' = withDoubleDashes words := by
  refine ⟨length_withDoubleDashes words, ?_, fun i h => getElem?_withDoubleDashes (.inr h),
    withDoubleDashes_idem words, fun words' => withDoubleDashes_of_shortens⟩
  rw [List.head?_eq_getElem?, List.head?_eq_getElem?]
  exact getElem?_withDoubleDashes (.inl rfl)

/-- One of two flags is shortened; the one behind the terminator is not. -/
theorem flags_spelled_alike_serverPort :
    withDoubleDashes ["dtc", "-serverPort=80", "--config", "x", "--", "--weird"]
        = withDoubleDashes ["dtc", "--serverPort=80", "--config", "x", "--", "--weird"] ∧
      (withDoubleDashes ["dtc", "--serverPort=80", "--config", "x", "--", "--weird"])[5]?
        = some "--weird" := by
  have alike := flags_spelled_alike ["dtc", "--serverPort=80", "--config", "x", "--", "--weird"]
  refine ⟨alike.2.2.2.2 _ fun i => ?_, alike.2.2.1 5 ⟨4, by decide, by decide, rfl⟩⟩
  by_cases flag : i = 1
  · subst flag
    refine .inr ⟨Nat.le_refl 1, ?_, "--serverPort=80", "-serverPort=80", rfl, rfl, ?_⟩
    · rintro ⟨j, from', upTo, here⟩
      obtain rfl : j = 1 := Nat.le_antisymm upTo from'
      exact absurd here (by decide)
    · exact ⟨"serverPort", "=80", by decide, by decide, by decide, .inr ⟨"80", rfl⟩, rfl, rfl⟩
  · left
    match i with
    | 0 => rfl
    | 1 => exact absurd rfl flag
    | i + 2 => rfl

end ImageGateway.CommandLine
