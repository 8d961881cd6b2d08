import ImageGateway.Json.Printer
import ImageGateway.Json.Reader
import ImageGateway.Proofs.Text.Scalars

/-!
# Strings and their texts

A string of a document may be written in many ways (`SpellsString`). It is read alike in all of them
(`string?_of_spells`), whatever follows it, and so it is read back as the text it was written for
(`string?_stringText`). The reader works on bytes and the ways are about characters, so the proof goes
character by character.
-/

set_option autoImplicit false

namespace ImageGateway.Json

/-- Whether a byte stands for itself inside a string. -/
def IsPlain (b : UInt8) : Prop := b ≠ 34 ∧ b ≠ 92 ∧ ¬ b < 32

/-- A character that needs no escape is written as bytes that stand for themselves. -/
theorem isPlain_of_mem {c : Char} (hquote : c ≠ '"') (hbackslash : c ≠ '\\')
    (hlow : ¬ c.toNat < 32) : ∀ b ∈ String.utf8EncodeChar c, IsPlain b := by
  intro b hb
  obtain ⟨value, -⟩ | ⟨high, -⟩ := Text.Utf8.toNat_of_mem_utf8EncodeChar hb
  · refine ⟨?_, ?_, ?_⟩
    · rintro rfl
      exact hquote (Char.toNat_inj.mp value.symm)
    · rintro rfl
      exact hbackslash (Char.toNat_inj.mp value.symm)
    · rw [UInt8.lt_iff_toNat_lt, value]
      exact hlow
  · refine ⟨?_, ?_, ?_⟩
    · rintro rfl
      exact absurd high (by decide)
    · rintro rfl
      exact absurd high (by decide)
    · rw [UInt8.lt_iff_toNat_lt]
      exact Nat.not_lt.mpr (Nat.le_trans (by decide) high)

/-! ## One step of the reader -/

theorem stringBytes?_quote (k : UInt8) (clock done rest : Bytes) :
    stringBytes? (k :: clock) done (34 :: rest) = some (done.reverse, rest) := by
  simp [stringBytes?]

theorem stringBytes?_plain {b : UInt8} (h : IsPlain b) (k : UInt8) (clock done rest : Bytes) :
    stringBytes? (k :: clock) done (b :: rest) = stringBytes? clock (b :: done) rest := by
  simp [stringBytes?, h.1, h.2.1, h.2.2]

theorem stringBytes?_letter {e b : UInt8} (he : e ≠ 117) (hb : letterEscape? e = some b) (k : UInt8)
    (clock done rest : Bytes) :
    stringBytes? (k :: clock) done (92 :: e :: rest) = stringBytes? clock (b :: done) rest := by
  simp [stringBytes?, he, hb]

theorem stringBytes?_unicode {digits rest : Bytes} {c : Char}
    (h : unicodeEscape? (digits ++ rest) = some (c, rest)) (k : UInt8) (clock done : Bytes) :
    stringBytes? (k :: clock) done (92 :: 117 :: (digits ++ rest))
      = stringBytes? clock ((String.utf8EncodeChar c).reverse ++ done) rest := by
  simp [stringBytes?, h]

/-- Bytes that stand for themselves are read one by one. -/
theorem stringBytes?_append {bs : Bytes} (h : ∀ b ∈ bs, IsPlain b) (rest : Bytes) :
    ∀ clock done : Bytes, bs.length ≤ clock.length →
      stringBytes? clock done (bs ++ rest)
        = stringBytes? (clock.drop bs.length) (bs.reverse ++ done) rest := by
  induction bs with
  | nil => simp
  | cons b bs ih =>
    intro clock done hlen
    cases clock with
    | nil => simp at hlen
    | cons k clock =>
      simp only [List.length_cons, Nat.add_le_add_iff_right] at hlen
      rw [List.cons_append, stringBytes?_plain (h b List.mem_cons_self),
        ih (fun x hx => h x (List.mem_cons_of_mem b hx)) clock (b :: done) hlen]
      simp

/-! ## Escapes -/

/-- Four hexadecimal digits, and the code unit that they give. -/
def IsCodeUnit (ds : Bytes) (unit : Nat) : Prop :=
  ∃ a b c d w x y z, ds = [a, b, c, d] ∧ hexValue? a = some w ∧ hexValue? b = some x ∧
    hexValue? c = some y ∧ hexValue? d = some z ∧ unit = ((w * 16 + x) * 16 + y) * 16 + z

theorem codeUnit?_of_isCodeUnit {ds : Bytes} {unit : Nat} (h : IsCodeUnit ds unit) (rest : Bytes) :
    codeUnit? (ds ++ rest) = some (unit, rest) := by
  obtain ⟨a, b, c, d, w, x, y, z, rfl, ha, hb, hc, hd, rfl⟩ := h
  simp [codeUnit?, ha, hb, hc, hd]

/-- Whether a code unit is the first or the second half of a pair. -/
def IsLead (unit : Nat) : Prop := 0xD800 ≤ unit ∧ unit ≤ 0xDBFF
def IsTrail (unit : Nat) : Prop := 0xDC00 ≤ unit ∧ unit ≤ 0xDFFF

/-- A code unit that is no half of a pair stands for a character. -/
theorem unicodeEscape?_unit {ds : Bytes} {unit : Nat} (h : IsCodeUnit ds unit)
    (hlead : ¬ IsLead unit) (htrail : ¬ IsTrail unit) (rest : Bytes) :
    unicodeEscape? (ds ++ rest) = some (Char.ofNat unit, rest) := by
  rw [IsLead] at hlead
  rw [IsTrail] at htrail
  rw [unicodeEscape?, codeUnit?_of_isCodeUnit h]
  simp [hlead, htrail]

/-- Two halves of a pair stand for one character. -/
theorem unicodeEscape?_pair {ds ds' : Bytes} {lead trail : Nat} (h : IsCodeUnit ds lead)
    (h' : IsCodeUnit ds' trail) (hlead : IsLead lead) (htrail : IsTrail trail) (rest : Bytes) :
    unicodeEscape? (ds ++ (92 :: 117 :: (ds' ++ rest)))
      = some (Char.ofNat (0x10000 + (lead - 0xD800) * 1024 + (trail - 0xDC00)), rest) := by
  have noTrail : ¬ 0xDC00 ≤ lead := Nat.not_le.mpr (Nat.lt_of_le_of_lt hlead.2 (by decide))
  rw [unicodeEscape?, codeUnit?_of_isCodeUnit h]
  simp [noTrail, hlead.1, hlead.2, codeUnit?_of_isCodeUnit h', htrail.1, htrail.2]

/-- A hexadecimal digit is one byte, and its value is read back. -/
theorem hexDigit_facts : ∀ n : Fin 16,
    String.utf8EncodeChar (hexDigit n.val) = [UInt8.ofNat (hexDigit n.val).toNat] ∧
      hexValue? (UInt8.ofNat (hexDigit n.val).toNat) = some n.val := by
  decide

/-- The digits that a control character is written with. -/
theorem isCodeUnit_control {n : Nat} (h : n < 32) :
    IsCodeUnit (Bytes.ofChars ['0', '0', hexDigit (n / 16), hexDigit (n % 16)]) n := by
  obtain ⟨high, highValue⟩ := hexDigit_facts ⟨n / 16, by omega⟩
  obtain ⟨low, lowValue⟩ := hexDigit_facts ⟨n % 16, by omega⟩
  have zero : String.utf8EncodeChar '0' = [48] := rfl
  refine ⟨48, 48, _, _, 0, 0, n / 16, n % 16, ?_, rfl, rfl, highValue, lowValue, by omega⟩
  simp [Bytes.ofChars, zero, high, low]

/-! ## The texts of strings -/

/-- The ways to write a character: as it is, by an escape of one letter, or by the digits of its code
unit or of the two halves of a pair. -/
inductive Spelling (c : Char) : Bytes → Prop where
  | plain (hquote : c ≠ '"') (hbackslash : c ≠ '\\') (hcontrol : ¬ c.toNat < 32) :
      Spelling c (String.utf8EncodeChar c)
  | letter {e b : UInt8} (hb : letterEscape? e = some b) (same : String.utf8EncodeChar c = [b]) :
      Spelling c [92, e]
  | unit {ds : Bytes} (h : IsCodeUnit ds c.toNat) : Spelling c (92 :: 117 :: ds)
  | pair {ds ds' : Bytes} {lead trail : Nat} (h : IsCodeUnit ds lead) (h' : IsCodeUnit ds' trail)
      (hlead : IsLead lead) (htrail : IsTrail trail)
      (same : c.toNat = 0x10000 + (lead - 0xD800) * 1024 + (trail - 0xDC00)) :
      Spelling c (92 :: 117 :: (ds ++ 92 :: 117 :: ds'))

/-- The ways to write several characters. -/
inductive SpellsChars : List Char → Bytes → Prop where
  | nil : SpellsChars [] []
  | cons {c : Char} {cs : List Char} {bs more : Bytes} (h : Spelling c bs)
      (hmore : SpellsChars cs more) : SpellsChars (c :: cs) (bs ++ more)

/-- The ways to write a string. -/
def SpellsString (s : String) (text : Bytes) : Prop :=
  ∃ body, SpellsChars s.toList body ∧ text = 34 :: (body ++ [34])

theorem spelling_escapedChar (c : Char) : Spelling c (Bytes.ofChars (escapedChar c)) := by
  -- seven characters have a short escape, other control characters their digits, and the rest none
  by_cases hquote : c = '"'
  · subst hquote
    exact .letter (e := 34) (b := 34) rfl rfl
  by_cases hbackslash : c = '\\'
  · subst hbackslash
    exact .letter (e := 92) (b := 92) rfl rfl
  by_cases hback : c = '\x08'
  · subst hback
    exact .letter (e := 98) (b := 8) rfl rfl
  by_cases hfeed : c = '\x0c'
  · subst hfeed
    exact .letter (e := 102) (b := 12) rfl rfl
  by_cases hline : c = '\n'
  · subst hline
    exact .letter (e := 110) (b := 10) rfl rfl
  by_cases hreturn : c = '\r'
  · subst hreturn
    exact .letter (e := 114) (b := 13) rfl rfl
  by_cases htab : c = '\t'
  · subst htab
    exact .letter (e := 116) (b := 9) rfl rfl
  by_cases hlow : c.toNat < 32
  · have text : Bytes.ofChars (escapedChar c) = 92 :: 117 ::
        Bytes.ofChars ['0', '0', hexDigit (c.toNat / 16), hexDigit (c.toNat % 16)] := by
      simp only [escapedChar, hquote, hbackslash, hback, hfeed, hline, hreturn, htab, hlow,
        ↓reduceIte]
      rfl
    rw [text]
    exact .unit (isCodeUnit_control hlow)
  · have text : Bytes.ofChars (escapedChar c) = String.utf8EncodeChar c := by
      simp [escapedChar, hquote, hbackslash, hback, hfeed, hline, hreturn, htab, hlow]
    rw [text]
    exact .plain hquote hbackslash hlow

theorem spellsChars_escaped (cs : List Char) :
    SpellsChars cs (Bytes.ofChars (cs.flatMap escapedChar)) := by
  induction cs with
  | nil => exact .nil
  | cons c cs ih =>
    rw [List.flatMap_cons, Bytes.ofChars_append]
    exact .cons (spelling_escapedChar c) ih

theorem spellsString_stringText (s : String) : SpellsString s (stringText s) :=
  ⟨_, spellsChars_escaped s.toList, rfl⟩

/-! ## Reading them -/

/-- The escape of one letter is not that of digits. -/
theorem ne_of_letterEscape? {e b : UInt8} (h : letterEscape? e = some b) : e ≠ 117 := by
  rintro rfl
  have none : letterEscape? 117 = none := rfl
  exact absurd (none.symm.trans h) (by simp)

/-- A written character is read back. The number of steps is between one and that of its bytes. -/
theorem stringBytes?_spelling {c : Char} {bs : Bytes} (h : Spelling c bs) (rest : Bytes) :
    ∃ steps ≤ bs.length, ∀ clock done : Bytes, bs.length ≤ clock.length →
      stringBytes? clock done (bs ++ rest)
        = stringBytes? (clock.drop steps) ((String.utf8EncodeChar c).reverse ++ done) rest := by
  have escape : ∀ {ds : Bytes}, unicodeEscape? (ds ++ rest) = some (c, rest) →
      ∃ steps ≤ (92 :: 117 :: ds).length, ∀ clock done : Bytes,
        (92 :: 117 :: ds).length ≤ clock.length →
        stringBytes? clock done (92 :: 117 :: ds ++ rest)
          = stringBytes? (clock.drop steps) ((String.utf8EncodeChar c).reverse ++ done) rest := by
    intro ds read
    refine ⟨1, by simp, fun clock done hlen => ?_⟩
    cases clock with
    | nil => simp at hlen
    | cons k clock => simpa using stringBytes?_unicode read k clock done
  cases h with
  | plain hquote hbackslash hcontrol =>
    exact ⟨_, Nat.le_refl _, stringBytes?_append (isPlain_of_mem hquote hbackslash hcontrol) rest⟩
  | letter hb same =>
    refine ⟨1, by simp, fun clock done hlen => ?_⟩
    cases clock with
    | nil => simp at hlen
    | cons k clock =>
      simpa [same] using stringBytes?_letter (ne_of_letterEscape? hb) hb k clock done rest
  | unit h =>
    -- no character is half of a pair
    have valid : c.toNat.isValidChar := c.valid
    refine escape ?_
    rw [unicodeEscape?_unit h (fun lead => ?_) (fun trail => ?_), Char.ofNat_toNat]
    · obtain ⟨low, high⟩ := lead
      rcases valid with small | ⟨large, -⟩ <;> omega
    · obtain ⟨low, high⟩ := trail
      rcases valid with small | ⟨large, -⟩ <;> omega
  | pair h h' hlead htrail same =>
    refine escape ?_
    rw [List.append_assoc, List.cons_append, List.cons_append,
      unicodeEscape?_pair h h' hlead htrail, ← same, Char.ofNat_toNat]

/-- The characters of a string and its closing quote are read back. -/
theorem stringBytes?_spellsChars {cs : List Char} {bs : Bytes} (h : SpellsChars cs bs)
    (rest : Bytes) : ∀ clock done : Bytes, bs.length < clock.length →
      stringBytes? clock done (bs ++ 34 :: rest) = some (done.reverse ++ Bytes.ofChars cs, rest) := by
  induction h with
  | nil =>
    intro clock done hlen
    cases clock with
    | nil => simp at hlen
    | cons k clock => simpa using stringBytes?_quote k clock done rest
  | @cons c cs bs more h _ ih =>
    intro clock done hlen
    obtain ⟨steps, hsteps, step⟩ := stringBytes?_spelling h (more ++ 34 :: rest)
    rw [List.length_append] at hlen
    -- a character takes as much fuel as it has bytes, at most
    have enough : more.length < (clock.drop steps).length := by
      rw [List.length_drop]
      omega
    rw [List.append_assoc, step clock done (by omega), ih _ _ enough]
    simp

/-- A string is read, however it is written and whatever follows it. -/
theorem string?_of_spells {s : String} {text : Bytes} (h : SpellsString s text) (rest : Bytes) :
    string? (text ++ rest) = some (s, rest) := by
  obtain ⟨body, spells, rfl⟩ := h
  have read := stringBytes?_spellsChars spells rest (body ++ 34 :: rest) [] (by simp)
  have same : Bytes.toString? (Bytes.ofChars s.toList) = some s := Bytes.toString?_ofString s
  have text : 34 :: (body ++ [34]) ++ rest = 34 :: (body ++ 34 :: rest) := by simp
  simp [text, string?, read, same]

/-- A string is read back. -/
theorem string?_stringText (s : String) (rest : Bytes) :
    string? (stringText s ++ rest) = some (s, rest) :=
  string?_of_spells (spellsString_stringText s) rest

end ImageGateway.Json
