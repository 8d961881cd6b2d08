import ImageGateway.Decimal.Digits
import Mathlib.Data.List.Induction
import Mathlib.Data.Nat.Digits.Defs

/-!
# Numbers of 64 bits in decimal

A text is read as a number of 64 bits exactly if it is an optional plus sign and one or more ASCII
digits, however many, whose value is that number (`word?_eq_some_iff`). The digits of a number have it
as their value, with any zeros in front (`value_zeros_digits`).
-/

set_option autoImplicit false

namespace ImageGateway.Decimal

variable {cs digits : List Char} {n : UInt64} {m : Nat}

/-- One or more ASCII digits. -/
structure IsNumeral (digits : List Char) : Prop where
  nonempty : digits ≠ []
  ascii : ∀ c ∈ digits, '0' ≤ c ∧ c ≤ '9'

/-- The value of digits, the most significant first. -/
def value (digits : List Char) : Nat := Nat.ofDigits 10 (digits.reverse.map fun c => c.toNat - 48)

theorem isDigit_iff {c : Char} : c.isDigit = true ↔ '0' ≤ c ∧ c ≤ '9' := by
  rw [Char.isDigit, Bool.and_eq_true, decide_eq_true_iff, decide_eq_true_iff]
  rfl

theorem IsNumeral.isDigit (h : IsNumeral digits) : ∀ c ∈ digits, c.isDigit = true :=
  fun c hc => isDigit_iff.mpr (h.ascii c hc)

/-- Reading digits from the front makes up the sum of their values at their places. -/
theorem ofDigitChars_eq_value (digits : List Char) :
    Nat.ofDigitChars 10 digits 0 = value digits := by
  -- the last digit is the first one of the sum
  induction digits using List.reverseRecOn with
  | nil => rfl
  | append_singleton digits c ih =>
    have last : value (digits ++ [c]) = (c.toNat - 48) + 10 * value digits := by
      rw [value, List.reverse_append, List.reverse_singleton, List.singleton_append, List.map_cons,
        Nat.ofDigits_cons]
      rfl
    rw [Nat.ofDigitChars_append, ih, last, Nat.add_comm]
    rfl

theorem natural?_eq_some_iff : natural? cs = some m ↔ IsNumeral cs ∧ value cs = m := by
  rw [natural?, ofDigitChars_eq_value, Option.ite_none_left_eq_some, Option.some.injEq]
  refine and_congr_left fun _ => ?_
  rw [Bool.or_eq_true, not_or, List.isEmpty_iff, Bool.not_eq_true', Bool.not_eq_false,
    List.all_eq_true]
  exact ⟨fun h => ⟨h.1, fun c hc => isDigit_iff.mp (h.2 c hc)⟩, fun h => ⟨h.nonempty, h.isDigit⟩⟩

/-! ## Signs -/

theorem unsignedDigits_cases (cs : List Char) :
    ∃ sign, (sign = [] ∨ sign = ['+']) ∧ cs = sign ++ unsignedDigits cs := by
  rw [unsignedDigits.eq_def]
  split
  · exact ⟨['+'], .inr rfl, rfl⟩
  · exact ⟨[], .inl rfl, rfl⟩

/-- A digit in front is not a sign. -/
theorem unsignedDigits_of_isDigit (nonempty : digits ≠ []) (h : ∀ c ∈ digits, c.isDigit = true)
    (later : List Char) : unsignedDigits (digits ++ later) = digits ++ later := by
  obtain ⟨c, digits, rfl⟩ := List.exists_cons_of_ne_nil nonempty
  have noSign : c ≠ '+' := by
    rintro rfl
    exact absurd (h '+' List.mem_cons_self) (by decide)
  rw [List.cons_append, unsignedDigits]
  rintro _ sign
  exact noSign (List.cons.inj sign).1

theorem unsignedDigits_sign {sign : List Char} (hsign : sign = [] ∨ sign = ['+'])
    (h : IsNumeral digits) : unsignedDigits (sign ++ digits) = digits := by
  rcases hsign with rfl | rfl
  · have plain := unsignedDigits_of_isDigit h.nonempty h.isDigit []
    rwa [List.append_nil] at plain
  · rfl

/-- A number of 64 bits is read from an optional plus sign and digits with its value, and from nothing
else. -/
theorem word?_eq_some_iff : word? cs = some n ↔
    ∃ sign digits, cs = sign ++ digits ∧ (sign = [] ∨ sign = ['+']) ∧ IsNumeral digits ∧
      value digits = n.toNat := by
  rw [word?, unsigned?]
  constructor
  · intro h
    obtain ⟨m, read, rfl⟩ := Option.map_eq_some_iff.mp h
    obtain ⟨found, small⟩ := Option.filter_eq_some_iff.mp read
    obtain ⟨numeral, rfl⟩ := natural?_eq_some_iff.mp found
    obtain ⟨sign, hsign, whole⟩ := unsignedDigits_cases cs
    exact ⟨sign, unsignedDigits cs, whole, hsign, numeral,
      (UInt64.toNat_ofNat_of_lt' (of_decide_eq_true small)).symm⟩
  · rintro ⟨sign, digits, rfl, hsign, numeral, same⟩
    have small : decide (n.toNat < UInt64.size) = true := decide_eq_true n.toNat_lt
    rw [unsignedDigits_sign hsign numeral, natural?_eq_some_iff.mpr ⟨numeral, same⟩,
      Option.filter_some, if_pos small, Option.map_some, UInt64.ofNat_toNat]

/-- Digits are read as the number that is their value, if it is not too large. -/
theorem word?_of_isDigit (nonempty : digits ≠ []) (h : ∀ c ∈ digits, c.isDigit = true) :
    word? digits = if Nat.ofDigitChars 10 digits 0 < UInt64.size
      then some (UInt64.ofNat (Nat.ofDigitChars 10 digits 0)) else none := by
  have numeral : IsNumeral digits := ⟨nonempty, fun c hc => isDigit_iff.mp (h c hc)⟩
  have plain : unsignedDigits digits = digits := unsignedDigits_sign (.inl rfl) numeral
  rw [word?, unsigned?, plain, ofDigitChars_eq_value, natural?_eq_some_iff.mpr ⟨numeral, rfl⟩,
    Option.filter_some]
  by_cases fits : value digits < UInt64.size
  · rw [if_pos fits, if_pos (decide_eq_true fits)]
    rfl
  · rw [if_neg fits, if_neg fun small => fits (of_decide_eq_true small)]
    rfl

/-- No number is read from digits with anything else behind them. -/
theorem word?_of_not_isDigit {c : Char} {later : List Char} (nonempty : digits ≠ [])
    (h : ∀ c ∈ digits, c.isDigit = true) (other : ¬ c.isDigit = true) :
    word? (digits ++ c :: later) = none := by
  have mixed : (digits ++ c :: later).all Char.isDigit = false := by
    simp [other]
  rw [word?, unsigned?, unsignedDigits_of_isDigit nonempty h, natural?, mixed]
  simp

/-! ## Digits that have been written -/

theorem isNumeral_zeros_digits (zeros m : Nat) :
    IsNumeral (List.replicate zeros '0' ++ Decimal.digits m) := by
  refine ⟨fun none => ?_, fun c hc => ?_⟩
  · exact Nat.toDigits_ne_nil (List.append_eq_nil_iff.mp none).2
  · rcases List.mem_append.mp hc with zero | digit
    · rw [List.eq_of_mem_replicate zero]
      decide
    · exact isDigit_iff.mp (List.all_eq_true.mp (all_isDigit_digits m) c digit)

theorem value_zeros_digits (zeros m : Nat) :
    value (List.replicate zeros '0' ++ Decimal.digits m) = m := by
  rw [← ofDigitChars_eq_value, Nat.ofDigitChars_append, Nat.ofDigitChars_replicate_zero,
    Nat.mul_zero, Decimal.digits, Nat.ofDigitChars_ten_toDigits]

theorem value_padded (width m : Nat) : value (padded width m) = m := value_zeros_digits _ m

end ImageGateway.Decimal
