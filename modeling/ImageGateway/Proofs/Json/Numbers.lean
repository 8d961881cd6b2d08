import ImageGateway.Json.Printer
import ImageGateway.Json.Reader

/-!
# Numbers read back

A written number is a sign, digits, and perhaps a fraction and an exponent (`NumberText.Spells`). The
reader takes exactly those bytes when nothing follows that could belong to the number
(`numberText?_of_spells`), and every number is written so, floating point numbers included
(`numberText_eq_bytes`). What a number is read back as is therefore a property of the number alone,
`Number.reread`; an integer of 64 bits is read back as itself (`reread_of_isWord`).
-/

set_option autoImplicit false

namespace ImageGateway.Json

/-! ## Runs of digits -/

/-- One or more digits. -/
def IsDigits (run : Bytes) : Prop := run ≠ [] ∧ ∀ b ∈ run, Bytes.isDigit b = true

/-- Nothing that could belong to a number is at the front. -/
def EndsNumber (rest : Bytes) : Prop :=
  ∀ b ∈ rest.head?, Bytes.isDigit b = false ∧ b ≠ 46 ∧ b ≠ 101 ∧ b ≠ 69

theorem endsNumber_nil : EndsNumber [] := by
  intro b hb
  simp at hb

theorem endsNumber_cons {b : UInt8} (hdigit : Bytes.isDigit b = false) (hpoint : b ≠ 46)
    (hsmall : b ≠ 101) (hlarge : b ≠ 69) (rest : Bytes) : EndsNumber (b :: rest) := by
  intro c hc
  simp only [List.head?_cons, Option.mem_def, Option.some.injEq] at hc
  subst hc
  exact ⟨hdigit, hpoint, hsmall, hlarge⟩

theorem ofChars_of_isDigit {cs : List Char} (h : ∀ c ∈ cs, c.isDigit = true) :
    Bytes.ofChars cs = cs.map fun c => UInt8.ofNat c.toNat := by
  induction cs with
  | nil => rfl
  | cons c cs ih =>
    have digit := h c List.mem_cons_self
    simp only [Char.isDigit, Bool.and_eq_true, decide_eq_true_eq] at digit
    have small : c.val.toNat ≤ 57 := UInt32.le_iff_toNat_le.1 digit.2
    have low : c.val.toNat ≤ 127 := by omega
    rw [Bytes.ofChars_cons, ih fun d hd => h d (List.mem_cons_of_mem c hd)]
    simp only [String.utf8EncodeChar, low, ↓reduceIte]
    rfl

/-- The byte of a digit is a digit, and keeps its value. -/
theorem isDigit_ofNat {c : Char} (h : c.isDigit = true) :
    Bytes.isDigit (UInt8.ofNat c.toNat) = true ∧ (UInt8.ofNat c.toNat).toNat = c.toNat := by
  simp only [Char.isDigit, Bool.and_eq_true, decide_eq_true_eq] at h
  have low : 48 ≤ c.toNat := UInt32.le_iff_toNat_le.1 h.1
  have high : c.toNat ≤ 57 := UInt32.le_iff_toNat_le.1 h.2
  have value : (UInt8.ofNat c.toNat).toNat = c.toNat := by
    rw [UInt8.toNat_ofNat']
    omega
  refine ⟨?_, value⟩
  simp [Bytes.isDigit, UInt8.le_iff_toNat_le, value, low, high]

theorem isDigits_ofChars {cs : List Char} (hne : cs ≠ []) (h : ∀ c ∈ cs, c.isDigit = true) :
    IsDigits (Bytes.ofChars cs) := by
  rw [ofChars_of_isDigit h]
  refine ⟨by simpa using hne, fun b hb => ?_⟩
  obtain ⟨c, hc, rfl⟩ := List.mem_map.mp hb
  exact (isDigit_ofNat (h c hc)).1

theorem isDigits_digits (n : Nat) : IsDigits (Bytes.ofChars (Decimal.digits n)) :=
  isDigits_ofChars Nat.toDigits_ne_nil
    (List.all_eq_true.mp (Decimal.all_isDigit_digits n))

theorem isDigits_zero : IsDigits [48] := by
  refine ⟨List.cons_ne_nil 48 [], fun b hb => ?_⟩
  obtain rfl := List.mem_singleton.mp hb
  rfl

/-- A run of digits is read as a whole. -/
theorem digitRun?_append {run rest : Bytes} (h : IsDigits run)
    (hrest : ∀ b ∈ rest.head?, Bytes.isDigit b = false) :
    digitRun? (run ++ rest) = some (run, rest) := by
  have ends : rest.takeWhile Bytes.isDigit = [] ∧ rest.dropWhile Bytes.isDigit = rest := by
    cases rest with
    | nil => simp
    | cons b rest => simp [hrest b rfl]
  simp [digitRun?, digitRun, List.takeWhile_append_of_pos h.2, List.dropWhile_append_of_pos h.2,
    ends.1, ends.2, h.1]

/-! ## Written numbers -/

/-- The bytes of the point and the digits after it. -/
def fractionBytes : Option Bytes → Bytes
  | some run => 46 :: run
  | none => []

/-- The bytes of an exponent. -/
def exponentBytes : Option (Bool × Bytes) → Bytes
  | some (negative, run) => 101 :: (if negative then 45 else 43) :: run
  | none => []

/-- The bytes of a number as it is written. -/
def NumberText.bytes (text : NumberText) : Bytes :=
  (if text.negative then [45] else [])
    ++ (text.whole ++ (fractionBytes text.fraction ++ exponentBytes text.exponent))

/-- Each part of the number has digits. -/
structure NumberText.IsWritten (text : NumberText) : Prop where
  whole : IsDigits text.whole
  fraction : ∀ run ∈ text.fraction, IsDigits run
  exponent : ∀ e ∈ text.exponent, IsDigits e.2

theorem fractionPart?_append {fraction : Option Bytes} (h : ∀ run ∈ fraction, IsDigits run)
    {rest : Bytes} (hrest : ∀ b ∈ rest.head?, Bytes.isDigit b = false ∧ b ≠ 46) :
    fractionPart? (fractionBytes fraction ++ rest) = some (fraction, rest) := by
  cases fraction with
  | some run =>
    have read := digitRun?_append (h run rfl) fun b hb => (hrest b hb).1
    simp [fractionBytes, fractionPart?, read]
  | none =>
    cases rest with
    | nil => rfl
    | cons b rest =>
      rw [fractionBytes, List.nil_append, fractionPart?]
      intro more same
      exact (hrest b rfl).2 (List.cons.inj same).1

/-- The ways to write an exponent: with a small letter or a large one, and a positive one with or
without its sign. -/
inductive SpellsExponent : Option (Bool × Bytes) → Bytes → Prop where
  | none : SpellsExponent none []
  | unsigned {letter : UInt8} {run : Bytes} (hletter : letter = 101 ∨ letter = 69) :
      SpellsExponent (some (false, run)) (letter :: run)
  | signed {letter : UInt8} {negative : Bool} {run : Bytes} (hletter : letter = 101 ∨ letter = 69) :
      SpellsExponent (some (negative, run)) (letter :: (if negative then 45 else 43) :: run)

theorem spellsExponent_exponentBytes (exponent : Option (Bool × Bytes)) :
    SpellsExponent exponent (exponentBytes exponent) := by
  cases exponent with
  | none => exact .none
  | some e => exact .signed (.inl rfl)

/-- A run of digits has no sign in front. -/
theorem exponentSign_digits {run : Bytes} (h : IsDigits run) (rest : Bytes) :
    exponentSign (run ++ rest) = (false, run ++ rest) := by
  obtain ⟨nonempty, digits⟩ := h
  obtain ⟨b, run, rfl⟩ := List.exists_cons_of_ne_nil nonempty
  have digit := digits b List.mem_cons_self
  rw [List.cons_append, exponentSign]
  · rintro more same
    obtain rfl := (List.cons.inj same).1
    exact absurd digit (by decide)
  · rintro more same
    obtain rfl := (List.cons.inj same).1
    exact absurd digit (by decide)

theorem exponentPart?_append {exponent : Option (Bool × Bytes)} {bs : Bytes}
    (h : ∀ e ∈ exponent, IsDigits e.2) (hspells : SpellsExponent exponent bs) {rest : Bytes}
    (hrest : EndsNumber rest) : exponentPart? (bs ++ rest) = some (exponent, rest) := by
  cases hspells with
  | none =>
    cases rest with
    | nil => rfl
    | cons b rest =>
      obtain ⟨-, -, notSmall, notLarge⟩ := hrest b rfl
      -- what follows a number is no letter of an exponent
      rw [List.nil_append, exponentPart?]
      · intro more same
        exact notSmall (List.cons.inj same).1
      · intro more same
        exact notLarge (List.cons.inj same).1
  | @unsigned letter run hletter =>
    have digits : IsDigits run := h (false, run) rfl
    have read := digitRun?_append digits fun b hb => (hrest b hb).1
    have sign := exponentSign_digits digits rest
    rcases hletter with rfl | rfl <;> simp [exponentPart?, sign, read]
  | @signed letter negative run hletter =>
    have read := digitRun?_append (h (negative, run) rfl) fun b hb => (hrest b hb).1
    rcases hletter with rfl | rfl <;> cases negative <;> simp [exponentPart?, exponentSign, read]

/-- What follows the digits before the point ends them. -/
theorem SpellsExponent.head? {exponent : Option (Bool × Bytes)} {bs : Bytes}
    (h : SpellsExponent exponent bs) {rest : Bytes} (hrest : EndsNumber rest) :
    ∀ b ∈ (bs ++ rest).head?, Bytes.isDigit b = false ∧ b ≠ 46 := by
  have letters : ∀ {letter : UInt8}, letter = 101 ∨ letter = 69 → ∀ more : Bytes,
      ∀ b ∈ (letter :: more).head?, Bytes.isDigit b = false ∧ b ≠ 46 := by
    intro letter hletter more b hb
    obtain rfl := Option.some.inj hb
    rcases hletter with rfl | rfl <;> decide
  cases h with
  | none => exact fun b hb => ⟨(hrest b hb).1, (hrest b hb).2.1⟩
  | unsigned hletter => exact letters hletter _
  | signed hletter => exact letters hletter _

theorem head?_fractionBytes (fraction : Option Bytes) {rest : Bytes}
    (hrest : ∀ b ∈ rest.head?, Bytes.isDigit b = false) :
    ∀ b ∈ (fractionBytes fraction ++ rest).head?, Bytes.isDigit b = false := by
  intro b hb
  cases fraction with
  | some run =>
    simp only [fractionBytes, List.cons_append, List.head?_cons, Option.mem_def,
      Option.some.injEq] at hb
    subst hb
    decide
  | none => exact hrest b hb

/-- Whether there is a zero in front of other digits, which no number may have. -/
def hasLeadingZero (run : Bytes) : Bool := run.head? = some 48 && 1 < run.length

theorem wholePart?_append {run rest : Bytes} (h : IsDigits run)
    (hrest : ∀ b ∈ rest.head?, Bytes.isDigit b = false) :
    wholePart? (run ++ rest)
      = if hasLeadingZero run then none else some (run, rest) := by
  rw [wholePart?, digitRun?_append h hrest]
  rfl

/-- A sign is read off before the digits. -/
theorem numberText?_sign (negative : Bool) {bs : Bytes} (h : bs.head? ≠ some 45) :
    numberText? ((if negative then [45] else []) ++ bs) = (do
      let (whole, bs) ← wholePart? bs
      let (fraction, bs) ← fractionPart? bs
      let (exponent, bs) ← exponentPart? bs
      some (⟨negative, whole, fraction, exponent⟩, bs)) := by
  cases negative with
  | true => rfl
  | false =>
    simp only [numberText?, Bool.false_eq_true, ↓reduceIte, List.nil_append, h, decide_false]

/-- The ways to write a number. -/
def NumberText.Spells (text : NumberText) (bs : Bytes) : Prop :=
  text.IsWritten ∧ ∃ exponent, SpellsExponent text.exponent exponent ∧
    bs = (if text.negative then [45] else [])
      ++ (text.whole ++ (fractionBytes text.fraction ++ exponent))

theorem spells_bytes {text : NumberText} (h : text.IsWritten) : text.Spells text.bytes :=
  ⟨h, _, spellsExponent_exponentBytes text.exponent, rfl⟩

/-- A written number is taken as a whole, unless it has a zero in front of other digits. -/
theorem numberText?_of_spells {text : NumberText} {bs : Bytes} (h : text.Spells bs) {rest : Bytes}
    (hrest : EndsNumber rest) :
    numberText? (bs ++ rest) = if hasLeadingZero text.whole then none else some (text, rest) := by
  obtain ⟨written, exponentText, spells, rfl⟩ := h
  obtain ⟨negative, whole, fraction, exponent⟩ := text
  have afterFraction := spells.head? hrest
  have afterWhole := head?_fractionBytes fraction fun b hb => (afterFraction b hb).1
  have unsigned : (whole ++ (fractionBytes fraction ++ (exponentText ++ rest))).head?
      ≠ some 45 := by
    cases whole with
    | nil => exact absurd rfl written.whole.1
    | cons b run =>
      intro same
      simp only [List.cons_append, List.head?_cons, Option.some.injEq] at same
      subst same
      exact absurd (written.whole.2 45 List.mem_cons_self) (by decide)
  simp only [List.append_assoc]
  have digits : IsDigits whole := written.whole
  rw [numberText?_sign negative unsigned, wholePart?_append digits afterWhole]
  cases hasLeadingZero whole with
  | true => rfl
  | false =>
    simp [fractionPart?_append written.fraction afterFraction,
      exponentPart?_append written.exponent spells hrest]

theorem numberText?_bytes {text : NumberText} (h : text.IsWritten) {rest : Bytes}
    (hrest : EndsNumber rest) :
    numberText? (text.bytes ++ rest)
      = if hasLeadingZero text.whole then none else some (text, rest) :=
  numberText?_of_spells (spells_bytes h) hrest

/-! ## Every number is written so -/

theorem isDigit_replicate_zero (n : Nat) : ∀ c ∈ List.replicate n '0', c.isDigit = true := by
  intro c hc
  rw [(List.mem_replicate.mp hc).2]
  rfl

section

variable {ds : List Char} (digit : ∀ c ∈ ds, c.isDigit = true)

include digit

theorem isDigits_take {count : Nat} (hcount : 0 < count) (nonempty : 0 < ds.length) :
    IsDigits (Bytes.ofChars (ds.take count)) := by
  refine isDigits_ofChars ?_ fun c hc => digit c (List.mem_of_mem_take hc)
  apply List.ne_nil_of_length_pos
  rw [List.length_take]
  exact Nat.lt_min.mpr ⟨hcount, nonempty⟩

theorem isDigits_drop {count : Nat} (hcount : count < ds.length) :
    IsDigits (Bytes.ofChars (ds.drop count)) := by
  refine isDigits_ofChars ?_ fun c hc => digit c (List.mem_of_mem_drop hc)
  apply List.ne_nil_of_length_pos
  rw [List.length_drop]
  exact Nat.sub_pos_of_lt hcount

/-- Digits are written with as many zeros behind them as there are to be. -/
theorem isDigits_append_zeros (nonempty : 0 < ds.length) (zeros : Nat) :
    IsDigits (Bytes.ofChars (ds ++ List.replicate zeros '0')) := by
  refine isDigits_ofChars ?_ fun c hc => ?_
  · exact List.append_ne_nil_of_left_ne_nil (List.ne_nil_of_length_pos nonempty) _
  · rcases List.mem_append.mp hc with hc | hc
    · exact digit c hc
    · exact isDigit_replicate_zero zeros c hc

/-- And with as many zeros in front of them. -/
theorem isDigits_zeros_append (nonempty : 0 < ds.length) (zeros : Nat) :
    IsDigits (Bytes.ofChars (List.replicate zeros '0' ++ ds)) := by
  refine isDigits_ofChars ?_ fun c hc => ?_
  · exact List.append_ne_nil_of_right_ne_nil _ (List.ne_nil_of_length_pos nonempty)
  · rcases List.mem_append.mp hc with hc | hc
    · exact isDigit_replicate_zero zeros c hc
    · exact digit c hc

/-- In scientific notation there is a point only if there are several digits. -/
theorem scientific_eq_bytes (nonempty : 0 < ds.length) (scale : Int) :
    ∃ text : NumberText, text.IsWritten ∧ text.negative = false ∧
      Bytes.ofChars (ds.take 1 ++ (if ds.length = 1 then [] else '.' :: ds.drop 1)
        ++ ['e', if scale < 0 then '-' else '+'] ++ Decimal.digits scale.natAbs) = text.bytes := by
  have letter : String.utf8EncodeChar 'e' = [101] := rfl
  have point : String.utf8EncodeChar '.' = [46] := rfl
  have minus : String.utf8EncodeChar '-' = [45] := rfl
  have plus : String.utf8EncodeChar '+' = [43] := rfl
  have size := isDigits_digits scale.natAbs
  by_cases single : ds.length = 1
  · refine ⟨⟨false, Bytes.ofChars (ds.take 1), none,
      some (decide (scale < 0), Bytes.ofChars (Decimal.digits scale.natAbs))⟩,
      ⟨isDigits_take digit Nat.one_pos nonempty, by simp, ?_⟩, rfl, ?_⟩
    · rintro e ⟨⟩
      exact size
    · by_cases below : scale < 0 <;>
        simp [NumberText.bytes, fractionBytes, exponentBytes, single, below, letter, minus, plus]
  · refine ⟨⟨false, Bytes.ofChars (ds.take 1), some (Bytes.ofChars (ds.drop 1)),
      some (decide (scale < 0), Bytes.ofChars (Decimal.digits scale.natAbs))⟩,
      ⟨isDigits_take digit Nat.one_pos nonempty, ?_, ?_⟩, rfl, ?_⟩
    · rintro run ⟨⟩
      exact isDigits_drop digit (Nat.lt_of_le_of_ne nonempty (Ne.symm single))
    · rintro e ⟨⟩
      exact size
    · by_cases below : scale < 0 <;>
        simp [NumberText.bytes, fractionBytes, exponentBytes, single, below, letter, minus, plus,
          point]

end

/-- The layout of a decimal is a written number without sign. -/
theorem layOut_eq_bytes (layout : Decimal.Layout) (d : Decimal.Scaled) :
    ∃ text : NumberText, text.IsWritten ∧ text.negative = false ∧
      Bytes.ofChars (d.layOut layout) = text.bytes := by
  have digit := List.all_eq_true.mp (Decimal.all_isDigit_digits d.coefficient)
  have nonempty : 0 < (Decimal.digits d.coefficient).length := Nat.length_toDigits_pos
  have point : String.utf8EncodeChar '.' = [46] := rfl
  simp only [Decimal.Scaled.layOut]
  generalize Decimal.digits d.coefficient = ds at digit nonempty
  split
  · -- no digit of the coefficient is behind the point
    refine ⟨⟨false, Bytes.ofChars (ds ++ List.replicate d.exponent.toNat '0'),
      some (Bytes.ofChars ['0']), none⟩, ⟨isDigits_append_zeros digit nonempty _, ?_, by simp⟩,
      rfl, ?_⟩
    · rintro run ⟨⟩
      exact isDigits_zero
    · simp [NumberText.bytes, fractionBytes, exponentBytes, point]
  split
  · -- the point is among the digits, as the exponent is negative here
    rename_i notWhole inside
    refine ⟨⟨false, Bytes.ofChars (ds.take (ds.length + d.exponent).toNat),
      some (Bytes.ofChars (ds.drop (ds.length + d.exponent).toNat)), none⟩,
      ⟨isDigits_take digit (by omega) nonempty, ?_, by simp⟩, rfl, ?_⟩
    · rintro run ⟨⟩
      exact isDigits_drop digit (by omega)
    · simp [NumberText.bytes, fractionBytes, exponentBytes, point]
  split
  · -- all digits are behind the point
    refine ⟨⟨false, Bytes.ofChars ['0'],
      some (Bytes.ofChars (List.replicate (-(ds.length + d.exponent)).toNat '0' ++ ds)), none⟩,
      ⟨isDigits_zero, ?_, by simp⟩, rfl, ?_⟩
    · rintro run ⟨⟩
      exact isDigits_zeros_append digit nonempty _
    · simp [NumberText.bytes, fractionBytes, exponentBytes, point]
  · exact scientific_eq_bytes digit nonempty (ds.length + d.exponent - 1)

/-- How an integer is written. -/
def integerText (i : Int) : NumberText :=
  ⟨decide (i < 0), Bytes.ofChars (Decimal.digits i.natAbs), none, none⟩

theorem isWritten_integerText (i : Int) : (integerText i).IsWritten :=
  ⟨isDigits_digits _, by simp [integerText], by simp [integerText]⟩

theorem numberText_integer (i : Int) : numberText (.integer i) = (integerText i).bytes := by
  have minus : String.utf8EncodeChar '-' = [45] := rfl
  by_cases negative : i < 0 <;>
    simp [numberText, integerChars, integerText, negative, NumberText.bytes, fractionBytes,
      exponentBytes, minus]

/-- Every number is written as one. -/
theorem numberText_eq_bytes (n : Number) :
    ∃ text : NumberText, text.IsWritten ∧ numberText n = text.bytes := by
  cases n with
  | integer i => exact ⟨integerText i, isWritten_integerText i, numberText_integer i⟩
  | float x =>
    have minus : String.utf8EncodeChar '-' = [45] := rfl
    -- the sign stands in front of the text of the magnitude
    have magnitude : ∃ text : NumberText, text.IsWritten ∧ text.negative = false ∧
        Bytes.ofChars (if x.isZero then ['0', '.', '0'] else x.shortest.layOut floatLayout)
          = text.bytes := by
      split
      · refine ⟨⟨false, [48], some [48], none⟩, ⟨isDigits_zero, ?_, by simp⟩, rfl, rfl⟩
        rintro run ⟨⟩
        exact isDigits_zero
      · exact layOut_eq_bytes floatLayout x.shortest
    obtain ⟨text, written, unsigned, same⟩ := magnitude
    refine ⟨{ text with negative := x.negative }, ⟨written.whole, written.fraction,
      written.exponent⟩, ?_⟩
    simp only [NumberText.bytes, unsigned, Bool.false_eq_true, ↓reduceIte, List.nil_append] at same
    cases sign : x.negative <;>
      simp [numberText, Decimal.Binary64.render, sign, same, NumberText.bytes, minus]

/-! ## Reading back -/

/-- What a number is read back as, if it is. -/
def Number.reread (n : Number) : Option Number := (number? (numberText n)).map Prod.fst

/-- A number is read back alike whatever follows it, if that cannot belong to it. -/
theorem number?_numberText (n : Number) {rest : Bytes} (hrest : EndsNumber rest) :
    number? (numberText n ++ rest) = n.reread.map fun m => (m, rest) := by
  obtain ⟨text, written, same⟩ := numberText_eq_bytes n
  have alone := numberText?_bytes written endsNumber_nil
  rw [List.append_nil] at alone
  simp only [Number.reread, number?, same, alone, numberText?_bytes written hrest]
  cases hasLeadingZero text.whole with
  | true => rfl
  | false => cases h : text.value? <;> simp [h]

/-- Whether a number is an integer of 64 bits, with or without a sign. -/
def Number.isWord : Number → Bool
  | .integer i => -(UInt64.size / 2 : Int) ≤ i && i < UInt64.size
  | .float _ => false

theorem natOfDigits_ofChars {cs : List Char} (h : ∀ c ∈ cs, c.isDigit = true) :
    natOfDigits (Bytes.ofChars cs) = Nat.ofDigitChars 10 cs 0 := by
  rw [natOfDigits, ofChars_of_isDigit h, List.foldl_map, Nat.ofDigitChars_eq_foldl]
  generalize 0 = init
  induction cs generalizing init with
  | nil => rfl
  | cons c cs ih =>
    have step : init * 10 + digitValue (UInt8.ofNat c.toNat) = 10 * init + (c.toNat - '0'.toNat) := by
      rw [digitValue, (isDigit_ofNat (h c List.mem_cons_self)).2, Nat.mul_comm]
      rfl
    rw [List.foldl_cons, List.foldl_cons, step]
    exact ih (fun d hd => h d (List.mem_cons_of_mem c hd)) _

theorem natOfDigits_digits (n : Nat) : natOfDigits (Bytes.ofChars (Decimal.digits n)) = n := by
  rw [natOfDigits_ofChars (List.all_eq_true.mp (Decimal.all_isDigit_digits n))]
  exact Nat.ofDigitChars_ten_toDigits

/-- Only zero begins with a zero. -/
theorem eq_zero_of_head?_digits {n : Nat} (h : (Decimal.digits n).head? = some '0') : n = 0 := by
  induction n using Nat.strongRecOn with
  | ind n ih =>
    by_cases small : n < 10
    · rw [Decimal.digits, Nat.toDigits_of_lt_base small] at h
      have zero : ∀ m : Fin 10, Nat.digitChar m.val = '0' → m.val = 0 := by decide
      exact zero ⟨n, small⟩ (Option.some.inj h)
    · rw [Decimal.digits, Nat.toDigits_of_base_le (by omega) (by omega), List.head?_append] at h
      cases front : (Nat.toDigits 10 (n / 10)).head? with
      | none => exact absurd (List.head?_eq_none_iff.mp front) Nat.toDigits_ne_nil
      | some c =>
        rw [front] at h
        have := ih (n / 10) (by omega) (front.trans h)
        omega

theorem hasLeadingZero_integerText (i : Int) : hasLeadingZero (integerText i).whole = false := by
  have digit := List.all_eq_true.mp (Decimal.all_isDigit_digits i.natAbs)
  by_cases zero : (Decimal.digits i.natAbs).head? = some '0'
  · have : i.natAbs = 0 := eq_zero_of_head?_digits zero
    rw [hasLeadingZero, integerText, this]
    rfl
  · rw [hasLeadingZero, integerText, ofChars_of_isDigit digit, Bool.and_eq_false_iff]
    left
    rw [decide_eq_false_iff_not, List.head?_map, Option.map_eq_some_iff]
    rintro ⟨c, hc, same⟩
    have value := (isDigit_ofNat (digit c (List.mem_of_mem_head? hc))).2
    rw [same] at value
    exact zero (hc.trans (congrArg some (Char.toNat_inj.mp value.symm)))

/-- An integer of 64 bits is read back as itself. -/
theorem reread_of_isWord {n : Number} (h : n.isWord = true) : n.reread = some n := by
  cases n with
  | float x => simp [Number.isWord] at h
  | integer i =>
    simp only [Number.isWord, Bool.and_eq_true, decide_eq_true_eq] at h
    have value : (integerText i).value? = some (.integer i) := by
      have size : (UInt64.size : Int) = 18446744073709551616 := rfl
      simp only [NumberText.value?, integerText, natOfDigits_digits]
      -- a negative integer is at most half as large as one without sign
      by_cases negative : i < 0
      · have range : 0 < i.natAbs ∧ i.natAbs ≤ UInt64.size / 2 := by omega
        have same : -(i.natAbs : Int) = i := by omega
        rw [if_neg (by simp [negative]), if_pos (by simp [negative, range]), same]
      · have range : i.natAbs < UInt64.size := by omega
        have same : (i.natAbs : Int) = i := by omega
        rw [if_pos (by simp [negative, range]), same]
    have read := numberText?_bytes (isWritten_integerText i) endsNumber_nil
    rw [List.append_nil, hasLeadingZero_integerText] at read
    simp [Number.reread, number?, numberText_integer, read, value]

end ImageGateway.Json
