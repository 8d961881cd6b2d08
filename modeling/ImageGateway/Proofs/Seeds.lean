import ImageGateway.Proofs.Decimal.Words
import ImageGateway.Proofs.Text.Scalars
import ImageGateway.Seed
import Mathlib.Data.List.Infix

/-!
# The first seed of a payload

`find?` looks for the first marker that a decimal digit follows, at every position of the payload
and whatever the bytes around it are. No such place reaches across the end of bytes that have none
when a marker follows them (`hasSeed_of_append_marker`), so the digits after that marker are the
first ones (`firstDigits?_append_marker`). `find?_first_seed` says what they give.
-/

set_option autoImplicit false

namespace ImageGateway.Seed

open Text Text.Utf8

/-- The bytes begin with a decimal digit of some script. -/
def StartsWithDigit (bs : Bytes) : Prop :=
  ∃ c rest, isDecimalDigit c = true ∧ bs = String.utf8EncodeChar c ++ rest

/-- The bytes begin with a marker that a decimal digit follows. -/
def StartsWithSeed (bs : Bytes) : Prop := ∃ after, StartsWithDigit after ∧ bs = marker ++ after

/-- Somewhere in the bytes stands a marker that a decimal digit follows. -/
def HasSeed (bs : Bytes) : Prop := ∃ before after, StartsWithSeed after ∧ bs = before ++ after

/-! ## The digits at the front -/

section

variable {bs : Bytes} {c : Char}

theorem digitsUpTo_encode (h : isDecimalDigit c = true) (fuel : Nat) (rest : Bytes) :
    digitsUpTo (fuel + 1) (String.utf8EncodeChar c ++ rest) = c :: digitsUpTo fuel rest := by
  simp only [digitsUpTo, scalar?_encode, h, ↓reduceIte]

theorem digitsUpTo_of_not_startsWithDigit (h : ¬ StartsWithDigit bs) (fuel : Nat) :
    digitsUpTo fuel bs = [] := by
  cases fuel with
  | zero => rfl
  | succ fuel =>
    simp only [digitsUpTo]
    cases front : scalar? bs with
    | none => rfl
    | some read =>
      obtain ⟨c, rest⟩ := read
      have other : ¬ isDecimalDigit c = true := fun digit =>
        h ⟨c, rest, digit, scalar?_eq_some_iff.mp front⟩
      simp only [other, ↓reduceIte, Bool.false_eq_true]

/-- A run of digits is read off the front, and what is left of the fuel goes to the rest. -/
theorem digitsUpTo_ofChars (rest : Bytes) : ∀ (digits : List Char) (fuel : Nat),
    (∀ c ∈ digits, isDecimalDigit c = true) → digits.length ≤ fuel →
    digitsUpTo fuel (Bytes.ofChars digits ++ rest)
      = digits ++ digitsUpTo (fuel - digits.length) rest := by
  intro digits
  induction digits with
  | nil =>
    intro fuel _ _
    rfl
  | cons c digits ih =>
    intro fuel all enough
    obtain ⟨fuel, rfl⟩ : ∃ n, fuel = n + 1 := ⟨fuel - 1, by simp at enough; omega⟩
    rw [List.length_cons, Nat.add_le_add_iff_right] at enough
    rw [Bytes.ofChars_cons, List.append_assoc, digitsUpTo_encode (all c List.mem_cons_self),
      ih fuel (fun d hd => all d (List.mem_cons_of_mem c hd)) enough]
    simp

theorem length_le_length_ofChars (digits : List Char) :
    digits.length ≤ (Bytes.ofChars digits).length := by
  induction digits with
  | nil => exact Nat.le_refl 0
  | cons c digits ih =>
    have one : 0 < (String.utf8EncodeChar c).length :=
      List.length_pos_iff.mpr String.utf8EncodeChar_ne_nil
    rw [Bytes.ofChars_cons, List.length_append, List.length_cons]
    omega

theorem digitRun_eq_nil_iff : digitRun bs = [] ↔ ¬ StartsWithDigit bs := by
  constructor
  · rintro empty ⟨c, rest, digit, rfl⟩
    have nonempty : String.utf8EncodeChar c ++ rest ≠ [] :=
      List.append_ne_nil_of_left_ne_nil String.utf8EncodeChar_ne_nil rest
    obtain ⟨n, length⟩ : ∃ n, (String.utf8EncodeChar c ++ rest).length = n + 1 :=
      Nat.exists_eq_succ_of_ne_zero (mt List.length_eq_zero_iff.mp nonempty)
    rw [digitRun, length, digitsUpTo_encode digit] at empty
    exact List.cons_ne_nil _ _ empty
  · intro h
    exact digitsUpTo_of_not_startsWithDigit h _

end

/-! ## The first marker with digits -/

section

variable {bs : Bytes}

theorem afterMarker?_eq_some_iff {after : Bytes} :
    afterMarker? bs = some after ↔ bs = marker ++ after := by
  rw [afterMarker?, Option.ite_none_right_eq_some, List.isPrefixOf_iff_prefix, Option.some.injEq]
  constructor
  · rintro ⟨⟨rest, rfl⟩, dropped⟩
    rw [List.drop_left] at dropped
    rw [dropped]
  · rintro rfl
    exact ⟨List.prefix_append _ _, List.drop_left⟩

theorem firstDigits?_of_startsWithDigit (h : StartsWithDigit bs) :
    firstDigits? (marker ++ bs) = some (digitRun bs) := by
  have nonempty : ¬ (digitRun bs).isEmpty = true := fun empty =>
    digitRun_eq_nil_iff.mp (List.isEmpty_iff.mp empty) h
  have front : afterMarker? (marker ++ bs) = some bs := afterMarker?_eq_some_iff.mpr rfl
  obtain ⟨b, rest, spread⟩ : ∃ b rest, marker ++ bs = b :: rest := ⟨_, _, rfl⟩
  rw [spread] at front ⊢
  simp only [firstDigits?, front, nonempty, ↓reduceIte, Bool.false_eq_true]

theorem firstDigits?_cons {b : UInt8} (h : ¬ StartsWithSeed (b :: bs)) :
    firstDigits? (b :: bs) = firstDigits? bs := by
  rw [firstDigits?]
  cases front : afterMarker? (b :: bs) with
  | none => rfl
  | some after =>
    have empty : digitRun after = [] := digitRun_eq_nil_iff.mpr fun digit =>
      h ⟨after, digit, afterMarker?_eq_some_iff.mp front⟩
    simp only [empty, List.isEmpty_nil, ↓reduceIte]

theorem HasSeed.cons {b : UInt8} (h : HasSeed bs) : HasSeed (b :: bs) := by
  obtain ⟨before, after, seed, rfl⟩ := h
  exact ⟨b :: before, after, seed, rfl⟩

theorem StartsWithSeed.hasSeed (h : StartsWithSeed bs) : HasSeed bs := ⟨[], bs, h, rfl⟩

/-- There are digits to find exactly where a marker has them. -/
theorem firstDigits?_eq_none_iff : firstDigits? bs = none ↔ ¬ HasSeed bs := by
  constructor
  · rintro absent ⟨before, after, seed, rfl⟩
    induction before with
    | nil =>
      obtain ⟨digits, digit, rfl⟩ := seed
      rw [List.nil_append, firstDigits?_of_startsWithDigit digit] at absent
      exact Option.some_ne_none _ absent
    | cons b before ih =>
      by_cases here : StartsWithSeed (b :: (before ++ after))
      · obtain ⟨digits, digit, same⟩ := here
        rw [List.cons_append, same, firstDigits?_of_startsWithDigit digit] at absent
        exact Option.some_ne_none _ absent
      · rw [List.cons_append, firstDigits?_cons here] at absent
        exact ih absent
  · intro h
    induction bs with
    | nil => rfl
    | cons b bs ih =>
      rw [firstDigits?_cons fun seed => h seed.hasSeed]
      exact ih fun later => h later.cons

instance : Decidable (StartsWithDigit bs) :=
  decidable_of_iff (digitRun bs ≠ []) (not_iff_comm.mp digitRun_eq_nil_iff.symm)

instance : Decidable (HasSeed bs) :=
  decidable_of_iff (firstDigits? bs ≠ none) (not_iff_comm.mp firstDigits?_eq_none_iff.symm)

end

/-! ## No seed reaches into a marker -/

section

variable {c : Char}

/-- No byte of a digit is a double quote: those of an ASCII digit are digits, and all others are not
ASCII. -/
theorem quote_notMem_utf8EncodeChar (h : isDecimalDigit c = true) :
    34 ∉ String.utf8EncodeChar c := by
  intro quote
  obtain ⟨same, -⟩ | ⟨high, -⟩ := toNat_of_mem_utf8EncodeChar quote
  · obtain rfl : '"' = c := Char.toNat_inj.mp same
    exact absurd h (by decide)
  · exact absurd high (by decide)

/-- The parts at the end of a marker do not begin like a marker. -/
theorem markerEnd_cases {before ending : Bytes} (nonempty : before ≠ [])
    (h : marker = before ++ ending) :
    ending = [] ∨ ending = [34, 58] ∨ ∃ b rest, ending = b :: rest ∧ b ≠ 34 := by
  obtain ⟨b, before, rfl⟩ := List.exists_cons_of_ne_nil nonempty
  have suffix : ending ∈ marker.tail.tails := (List.mem_tails ending _).mpr ⟨before, by rw [h]; rfl⟩
  have each : ∀ ending ∈ marker.tail.tails,
      ending = [] ∨ ending = [34, 58] ∨ ending.head? ≠ some 34 := by decide
  obtain empty | quote | other := each ending suffix
  · exact .inl empty
  · exact .inr (.inl quote)
  · cases ending with
    | nil => exact .inl rfl
    | cons b rest => exact .inr (.inr ⟨b, rest, rfl, fun same => other (congrArg some same)⟩)

/-- A marker with a digit does not begin inside the bytes before a marker and end beyond them: its
own second quote has a colon after it, and a digit has no quote. -/
theorem StartsWithSeed.of_append_marker {bs more : Bytes}
    (h : StartsWithSeed (bs ++ (marker ++ more))) (nonempty : bs ≠ []) : StartsWithSeed bs := by
  obtain ⟨_, ⟨c, rest, digit, rfl⟩, same⟩ := h
  rw [← List.append_assoc marker] at same
  obtain ⟨beyond, rfl, -⟩ | ⟨beyond, inside, next⟩ := List.append_eq_append_iff.mp same.symm
  · exact ⟨_, ⟨c, beyond, digit, rfl⟩, List.append_assoc _ _ _⟩
  -- what of the marker and its digit lies beyond the bytes begins like the other marker
  have head : ∀ b after, beyond = b :: after → b = 34 := by
    rintro b after rfl
    exact (List.cons.inj next).1.symm
  have noQuote := quote_notMem_utf8EncodeChar digit
  obtain ⟨front, rfl, parts⟩ | ⟨ending, parts, rfl⟩ := List.append_eq_append_iff.mp inside
  · cases beyond with
    | nil => exact ⟨_, ⟨c, [], digit, rfl⟩, by rw [parts, List.append_nil, List.append_nil]⟩
    | cons b after =>
      obtain rfl := head b after rfl
      exact absurd (parts ▸ List.mem_append_right front List.mem_cons_self) noQuote
  · obtain rfl | rfl | ⟨b, after, rfl, other⟩ := markerEnd_cases nonempty parts
    · obtain ⟨b, after, bytes⟩ := List.exists_cons_of_ne_nil (String.utf8EncodeChar_ne_nil (c := c))
      obtain rfl := head b after bytes
      exact absurd (bytes ▸ List.mem_cons_self) noQuote
    · exact absurd (List.cons.inj (List.cons.inj next).2).1 (by decide)
    · exact absurd (head b _ rfl) other

/-- The first seed after bytes without one is that of the marker that comes next. -/
theorem firstDigits?_append_marker {before more : Bytes} (h : ¬ HasSeed before)
    (digit : StartsWithDigit more) :
    firstDigits? (before ++ (marker ++ more)) = some (digitRun more) := by
  induction before with
  | nil => exact firstDigits?_of_startsWithDigit digit
  | cons b before ih =>
    have here : ¬ StartsWithSeed (b :: (before ++ (marker ++ more))) := by
      rw [← List.cons_append]
      exact fun seed => h (seed.of_append_marker (List.cons_ne_nil b before)).hasSeed
    rw [List.cons_append, firstDigits?_cons here]
    exact ih fun later => h later.cons

end

/-! ## The number of the digits -/

section

variable {digits : List Char}

theorem startsWithDigit_ofChars (nonempty : digits ≠ []) (h : ∀ c ∈ digits, c.isDigit = true)
    (after : Bytes) : StartsWithDigit (Bytes.ofChars digits ++ after) := by
  obtain ⟨c, digits, rfl⟩ := List.exists_cons_of_ne_nil nonempty
  refine ⟨c, Bytes.ofChars digits ++ after, isDecimalDigit_of_isDigit (h c List.mem_cons_self), ?_⟩
  rw [Bytes.ofChars_cons, List.append_assoc]

/-- The run of digits after a marker: the ASCII digits there, and those of other scripts that follow
them. -/
theorem digitRun_ofChars (h : ∀ c ∈ digits, c.isDigit = true) (after : Bytes) :
    ∃ fuel, after.length ≤ fuel ∧
      digitRun (Bytes.ofChars digits ++ after) = digits ++ digitsUpTo fuel after := by
  have enough := length_le_length_ofChars digits
  refine ⟨(Bytes.ofChars digits ++ after).length - digits.length, ?_, ?_⟩
  · rw [List.length_append]
    omega
  · refine digitsUpTo_ofChars after digits _ (fun c hc => isDecimalDigit_of_isDigit (h c hc)) ?_
    rw [List.length_append]
    omega

end

/-- **The seed of a payload is the number after the first marker with a digit, and only that.** The
bytes before the marker have no such place, and the ASCII digits after it end where no other digit
follows. The number is lost if it does not fit or if the digits go on in another script; later
seeds play no part. A payload with no digit after any marker has no seed. -/
theorem find?_first_seed :
    (∀ (before : Bytes) (digits : List Char) (after : Bytes), ¬ HasSeed before → digits ≠ [] →
      (∀ c ∈ digits, c.isDigit = true) →
      (¬ StartsWithDigit after →
        find? (before ++ marker ++ Bytes.ofChars digits ++ after)
          = if Nat.ofDigitChars 10 digits 0 < UInt64.size
            then some (UInt64.ofNat (Nat.ofDigitChars 10 digits 0)) else none) ∧
      (∀ c rest, isDecimalDigit c = true → ¬ c.isDigit = true →
        after = String.utf8EncodeChar c ++ rest →
        find? (before ++ marker ++ Bytes.ofChars digits ++ after) = none)) ∧
    (∀ payload : Bytes, ¬ HasSeed payload → find? payload = none) := by
  constructor
  · intro before digits after noSeed nonempty ascii
    have first : firstDigits? (before ++ marker ++ Bytes.ofChars digits ++ after)
        = some (digitRun (Bytes.ofChars digits ++ after)) := by
      rw [List.append_assoc, List.append_assoc]
      exact firstDigits?_append_marker noSeed (startsWithDigit_ofChars nonempty ascii after)
    obtain ⟨fuel, enough, run⟩ := digitRun_ofChars ascii after
    rw [find?, first, run, Option.bind_some]
    constructor
    · intro ended
      rw [digitsUpTo_of_not_startsWithDigit ended, List.append_nil]
      exact Decimal.word?_of_isDigit nonempty ascii
    · rintro c rest digit other rfl
      -- the other digit has at least one byte, so fuel is left for it
      obtain ⟨fuel, rfl⟩ : ∃ n, fuel = n + 1 := by
        have one : 0 < (String.utf8EncodeChar c).length :=
          List.length_pos_iff.mpr String.utf8EncodeChar_ne_nil
        rw [List.length_append] at enough
        exact ⟨fuel - 1, by omega⟩
      rw [digitsUpTo_encode digit]
      exact Decimal.word?_of_not_isDigit nonempty ascii other
  · intro payload noSeed
    rw [find?, firstDigits?_eq_none_iff.mpr noSeed]
    rfl

/-- In `\x89"seed":-1 "seed":42,"seed":7` the first marker has a sign after it, the second the seed,
and the third is too late. -/
theorem find?_first_seed_among_three :
    find? ([137, 34, 115, 101, 101, 100, 34, 58, 45, 49, 32] ++ marker ++ Bytes.ofChars ['4', '2']
      ++ [44, 34, 115, 101, 101, 100, 34, 58, 55]) = some 42 := by
  have seed := find?_first_seed.1 [137, 34, 115, 101, 101, 100, 34, 58, 45, 49, 32] ['4', '2']
    [44, 34, 115, 101, 101, 100, 34, 58, 55] (by decide) (by decide)
    (List.all_eq_true.mp (by decide))
  exact seed.1 (by decide)

end ImageGateway.Seed
