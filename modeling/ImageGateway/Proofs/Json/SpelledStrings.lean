import ImageGateway.Proofs.Json.Strings
import ImageGateway.Proofs.Json.Listings

/-!
# Documents that are strings

Nothing is read as a string but what spells it (`string?_eq_some_iff`), and so a document is read as a
string exactly if it is one, in any spelling and with blanks around it (`whole?_string?_eq_some_iff`).
The reader resolves escapes into bytes and checks in the end that all bytes are well formed. That bytes
of a character are never made up of several pieces of the text follows from their ranges: what resumes
a character is no piece's first byte but that of a plain one (`Resolves.splitContinuing`).
-/

set_option autoImplicit false

namespace ImageGateway.Json

open Text.Utf8 (Continues Follows continues_iff)

/-! ## Escapes that are read -/

theorem hexValue?_lt {b : UInt8} {n : Nat} (h : hexValue? b = some n) : n < 16 := by
  rw [hexValue?] at h
  simp only [UInt8.le_iff_toNat_le, Bool.and_eq_true, decide_eq_true_eq] at h
  split at h
  · rename_i digit
    obtain ⟨low, high⟩ := digit
    have value : b.toNat - 48 = n := Option.some.inj h
    have bound : b.toNat ≤ 57 := high
    omega
  · split at h
    · rename_i lower
      obtain ⟨low, high⟩ := lower
      have value : b.toNat - 87 = n := Option.some.inj h
      have bound : b.toNat ≤ 102 := high
      omega
    · split at h
      · rename_i upper
        obtain ⟨low, high⟩ := upper
        have value : b.toNat - 55 = n := Option.some.inj h
        have bound : b.toNat ≤ 70 := high
        omega
      · exact absurd h (by simp)

theorem isCodeUnit_of_codeUnit? {bs rest : Bytes} {unit : Nat}
    (h : codeUnit? bs = some (unit, rest)) :
    unit < 65536 ∧ ∃ ds, IsCodeUnit ds unit ∧ bs = ds ++ rest := by
  rw [codeUnit?.eq_def] at h
  split at h
  · rename_i a b c d more
    simp only [Option.bind_eq_bind, Option.bind_eq_some_iff, Option.some.injEq, Prod.mk.injEq] at h
    obtain ⟨w, hw, x, hx, y, hy, z, hz, value, rfl⟩ := h
    refine ⟨?_, [a, b, c, d], ⟨a, b, c, d, w, x, y, z, rfl, hw, hx, hy, hz, value.symm⟩, rfl⟩
    have := hexValue?_lt hw
    have := hexValue?_lt hx
    have := hexValue?_lt hy
    have := hexValue?_lt hz
    omega
  · exact absurd h (by simp)

/-- What is read as an escape with digits spells the character that it gives. -/
theorem spelling_of_unicodeEscape? {bs rest : Bytes} {c : Char}
    (h : unicodeEscape? bs = some (c, rest)) :
    ∃ ds, Spelling c (92 :: 117 :: ds) ∧ bs = ds ++ rest := by
  rw [unicodeEscape?] at h
  obtain ⟨⟨unit, more⟩, first, next⟩ := Option.bind_eq_some_iff.mp h
  obtain ⟨small, ds, hunit, rfl⟩ := isCodeUnit_of_codeUnit? first
  simp only [Bool.and_eq_true, decide_eq_true_eq] at next
  split at next
  · exact absurd next (by simp)
  rename_i noTrail
  split at next
  · rename_i lead
    -- a leading half is followed by the escape of a trailing one
    split at next
    · rename_i more
      obtain ⟨⟨trail, behind⟩, second, last⟩ := Option.bind_eq_some_iff.mp next
      obtain ⟨-, ds', hunit', rfl⟩ := isCodeUnit_of_codeUnit? second
      obtain ⟨isTrail, same⟩ := Option.ite_none_right_eq_some.mp last
      simp only [Option.some.injEq, Prod.mk.injEq] at same
      obtain ⟨rfl, rfl⟩ := same
      refine ⟨ds ++ 92 :: 117 :: ds', .pair hunit hunit' lead isTrail ?_, by simp⟩
      refine Text.Utf8.toNat_ofNat (.inr ⟨?_, ?_⟩) <;> omega
    · exact absurd next (by simp)
  · rename_i noLead
    simp only [Option.some.injEq, Prod.mk.injEq] at next
    obtain ⟨rfl, rfl⟩ := next
    have value : (Char.ofNat unit).toNat = unit := by
      refine Text.Utf8.toNat_ofNat ?_
      rw [Nat.isValidChar]
      omega
    exact ⟨ds, .unit (value.symm ▸ hunit), rfl⟩

theorem spelling_of_letterEscape? {e b : UInt8} (h : letterEscape? e = some b) :
    ∃ c : Char, String.utf8EncodeChar c = [b] ∧ Spelling c [92, e] := by
  have ascii : b.toNat < 128 := by
    simp only [letterEscape?] at h
    split_ifs at h <;> cases h <;> decide
  have text := Text.Utf8.utf8EncodeChar_one ascii
  exact ⟨_, text, .letter h text⟩

/-! ## Texts and the bytes that they resolve to -/

/-- What stands between the quotes of a string, and the bytes that it resolves to: a byte stands for
itself, and an escape for a character. -/
inductive Resolves : Bytes → Bytes → Prop where
  | nil : Resolves [] []
  | byte {b : UInt8} {text bs : Bytes} (h : IsPlain b) (more : Resolves text bs) :
      Resolves (b :: text) (b :: bs)
  | escape {c : Char} {ds text bs : Bytes} (h : Spelling c (92 :: ds)) (more : Resolves text bs) :
      Resolves (92 :: ds ++ text) (String.utf8EncodeChar c ++ bs)

/-- What is read behind an opening quote resolves to the bytes that are given, and ends with a quote. -/
theorem resolves_of_stringBytes? {rest out : Bytes} : ∀ {clock done bs : Bytes},
    stringBytes? clock done bs = some (out, rest) →
      ∃ text raw, Resolves text raw ∧ bs = text ++ 34 :: rest ∧ out = done.reverse ++ raw
  | [], done, bs, h => by simp [stringBytes?] at h
  | k :: clock, done, [], h => by simp [stringBytes?] at h
  | k :: clock, done, b :: bs, h => by
    -- a quote ends the text; else an escape or a plain byte is resolved, and the rest follows
    rw [stringBytes?.eq_def] at h
    dsimp only at h
    split at h
    · rename_i quote
      subst quote
      simp only [Option.some.injEq, Prod.mk.injEq] at h
      obtain ⟨rfl, rfl⟩ := h
      exact ⟨[], [], .nil, rfl, by simp⟩
    split at h
    · rename_i backslash
      subst backslash
      split at h
      · exact absurd h (by simp)
      rename_i e bs
      split at h
      · rename_i digits
        subst digits
        split at h
        · rename_i c behind found
          obtain ⟨ds, spells, rfl⟩ := spelling_of_unicodeEscape? found
          obtain ⟨text, raw, resolves, rfl, rfl⟩ := resolves_of_stringBytes? h
          exact ⟨_, _, .escape spells resolves, by simp, by simp⟩
        · exact absurd h (by simp)
      · split at h
        · rename_i byte found
          obtain ⟨c, form, spells⟩ := spelling_of_letterEscape? found
          obtain ⟨text, raw, resolves, rfl, rfl⟩ := resolves_of_stringBytes? h
          exact ⟨_, _, .escape spells resolves, by simp, by simp [form]⟩
        · exact absurd h (by simp)
    · rename_i notQuote notBackslash
      split at h
      · exact absurd h (by simp)
      · rename_i notControl
        obtain ⟨text, raw, resolves, rfl, rfl⟩ := resolves_of_stringBytes? h
        exact ⟨_, _, .byte ⟨notQuote, notBackslash, notControl⟩ resolves, rfl, by simp⟩

/-! ## Characters of the bytes -/

/-- The first byte of a character resumes none, and all others do. -/
theorem utf8EncodeChar_eq_cons (c : Char) :
    ∃ b ks, String.utf8EncodeChar c = b :: ks ∧ ¬ Continues b ∧ (∀ k ∈ ks, Continues k) ∧
      (b.toNat = c.toNat ∨ 128 ≤ c.toNat) := by
  obtain ⟨a, text, ascii, number⟩ | ⟨a, b, text, follows, number⟩ |
    ⟨a, b, d, text, follows, third, number⟩ |
    ⟨a, b, d, e, text, follows, third, fourth, number⟩ := Text.Utf8.utf8EncodeChar_cases c
  · refine ⟨a, [], text, ?_, by simp, .inl number.symm⟩
    rw [continues_iff]
    omega
  all_goals
    rw [Follows] at follows
    simp only [Text.Utf8.tail_eq] at number
    refine ⟨a, _, text, ?_, ?_, .inr ?_⟩
  · rw [continues_iff]
    omega
  · simp only [List.mem_singleton, forall_eq, continues_iff]
    omega
  · omega
  · rw [continues_iff]
    omega
  · simp only [List.mem_cons, List.not_mem_nil, or_false, forall_eq_or_imp, forall_eq]
    refine ⟨continues_iff.mpr (by omega), third⟩
  · omega
  · rw [continues_iff]
    omega
  · simp only [List.mem_cons, List.not_mem_nil, or_false, forall_eq_or_imp, forall_eq]
    refine ⟨continues_iff.mpr (by omega), third, fourth⟩
  · omega

/-- Bytes that resume a character stand for themselves in the text. -/
theorem Resolves.splitContinuing {ks bs text : Bytes} (hks : ∀ k ∈ ks, Continues k)
    (h : Resolves text (ks ++ bs)) :
    ∃ more, text = ks ++ more ∧ Resolves more bs := by
  induction ks generalizing text with
  | nil => exact ⟨text, rfl, h⟩
  | cons k ks ih =>
    obtain ⟨first, others⟩ := List.forall_mem_cons.mp hks
    generalize hall : k :: ks ++ bs = all at h
    cases h with
    | nil => exact absurd hall (by simp)
    | byte _ more =>
      obtain ⟨rfl, rfl⟩ := List.cons.inj hall
      obtain ⟨behind, rfl, resolves⟩ := ih others more
      exact ⟨behind, rfl, resolves⟩
    | @escape c ds text out spells more =>
      -- the first byte of the character of an escape resumes none
      obtain ⟨b, ks', form, starts, -⟩ := utf8EncodeChar_eq_cons c
      rw [form] at hall
      obtain ⟨rfl, -⟩ := List.cons.inj hall
      exact absurd first starts

/-- A character whose first byte stands for itself does so as a whole. -/
theorem spelling_of_isPlain {c : Char} {b : UInt8} {ks : Bytes}
    (hfirst : String.utf8EncodeChar c = b :: ks) (hplain : IsPlain b) :
    Spelling c (String.utf8EncodeChar c) := by
  obtain ⟨b', ks', form, -, -, number⟩ := utf8EncodeChar_eq_cons c
  obtain ⟨rfl, -⟩ := List.cons.inj (hfirst.symm.trans form)
  obtain ⟨notQuote, notBackslash, notControl⟩ := hplain
  rw [UInt8.lt_iff_toNat_lt] at notControl
  -- what has to be escaped is a single byte
  refine .plain ?_ ?_ ?_
  · rintro rfl
    rcases number with same | large
    · exact notQuote (UInt8.toNat_inj.mp same)
    · exact absurd large (by decide)
  · rintro rfl
    rcases number with same | large
    · exact notBackslash (UInt8.toNat_inj.mp same)
    · exact absurd large (by decide)
  · rcases number with same | large
    · rwa [← same]
    · omega

/-- Bytes that spell characters come from a text that spells them. -/
theorem Resolves.spellsChars {cs : List Char} {text : Bytes}
    (h : Resolves text (Bytes.ofChars cs)) : SpellsChars cs text := by
  induction cs generalizing text with
  | nil =>
    generalize hall : Bytes.ofChars [] = all at h
    cases h with
    | nil => exact .nil
    | byte _ _ => exact absurd hall (by simp)
    | @escape c _ _ _ _ _ =>
      exact absurd (List.append_eq_nil_iff.mp hall.symm).1 String.utf8EncodeChar_ne_nil
  | cons c cs ih =>
    rw [Bytes.ofChars_cons] at h
    generalize hall : String.utf8EncodeChar c ++ Bytes.ofChars cs = all at h
    cases h with
    | nil => exact absurd (List.append_eq_nil_iff.mp hall).1 String.utf8EncodeChar_ne_nil
    | @escape c' ds text bs spells more =>
      have front := Text.Utf8.scalar?_encode c (Bytes.ofChars cs)
      rw [hall, Text.Utf8.scalar?_encode] at front
      obtain ⟨rfl, rfl⟩ := Prod.mk.inj (Option.some.inj front)
      exact .cons spells (ih more)
    | @byte b text bs plain more =>
      -- the character begins with this byte, and the bytes that resume it stand for themselves, too
      obtain ⟨b', ks, form, -, continues, -⟩ := utf8EncodeChar_eq_cons c
      rw [form, List.cons_append] at hall
      obtain ⟨rfl, rfl⟩ := List.cons.inj hall
      obtain ⟨more', rfl, resolves⟩ := more.splitContinuing continues
      have text : b' :: (ks ++ more') = String.utf8EncodeChar c ++ more' := by rw [form]; rfl
      rw [text]
      exact .cons (spelling_of_isPlain form plain) (ih resolves)

/-! ## Strings -/

/-- **A string is read exactly where a text stands that spells it.** -/
theorem string?_eq_some_iff {s : String} {bs rest : Bytes} :
    string? bs = some (s, rest) ↔ ∃ text, SpellsString s text ∧ bs = text ++ rest := by
  constructor
  · intro h
    rw [string?.eq_def] at h
    split at h
    · rename_i bs
      split at h
      · rename_i out behind found
        obtain ⟨s', read, same⟩ := Option.map_eq_some_iff.mp h
        obtain ⟨rfl, rfl⟩ := Prod.mk.inj same
        obtain ⟨text, raw, resolves, rfl, rfl⟩ := resolves_of_stringBytes? found
        -- the resolved bytes are characters, so that the text in quotes spells them
        rw [Bytes.toString?_eq_some_iff] at read
        rw [read] at resolves
        exact ⟨34 :: (text ++ [34]), ⟨text, resolves.spellsChars, rfl⟩, by simp⟩
      · exact absurd h (by simp)
    · exact absurd h (by simp)
  · rintro ⟨text, spells, rfl⟩
    exact string?_of_spells spells rest

theorem startsItem_spellsString {s : String} {text : Bytes} (h : SpellsString s text) :
    StartsItem text := by
  obtain ⟨body, -, rfl⟩ := h
  exact startsItem_cons _ rfl (by decide) (by decide)

/-- Text that is skipped is nothing but blanks. -/
theorem exists_blanks (bs : Bytes) : ∃ blanks, IsBlanks blanks ∧ bs = blanks ++ skipBlanks bs :=
  ⟨bs.takeWhile isBlank, List.all_eq_true.mp List.all_takeWhile,
    (List.takeWhile_append_dropWhile).symm⟩

theorem isBlanks_of_atEnd {bs : Bytes} (h : atEnd bs = true) : IsBlanks bs := by
  obtain ⟨blanks, hblanks, same⟩ := exists_blanks bs
  rw [List.isEmpty_iff.mp h, List.append_nil] at same
  exact same ▸ hblanks

/-- **A document is read as a string exactly if it is a text that spells the string, with blanks
around it.** -/
theorem whole?_string?_eq_some_iff {s : String} {doc : Bytes} :
    Reader.whole? string? doc = some s ↔ ∃ text, SpellsString s text ∧ Padded text doc := by
  constructor
  · intro h
    rw [Reader.whole?] at h
    split at h
    · rename_i s' rest found
      obtain ⟨ends, same⟩ := Option.ite_none_right_eq_some.mp h
      obtain rfl := Option.some.inj same
      obtain ⟨text, spells, split⟩ := string?_eq_some_iff.mp found
      -- in front of the text there are blanks, and behind it nothing else
      obtain ⟨before, blanks, front⟩ := exists_blanks doc
      exact ⟨text, spells, before, rest, blanks, isBlanks_of_atEnd ends, by rw [front, split]⟩
    · exact absurd h (by simp)
  · rintro ⟨text, spells, padded⟩
    have read : ∀ rest, EndsNumber rest →
        string? (text ++ rest) = (some s).map fun x => (x, rest) :=
      fun rest _ => string?_of_spells spells rest
    obtain ⟨takes, alone⟩ := takesWhole_of_eq (startsItem_spellsString spells) read
    rw [takes.whole?_eq padded, alone]

end ImageGateway.Json
