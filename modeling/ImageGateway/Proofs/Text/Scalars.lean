import ImageGateway.Bytes
import ImageGateway.Text.Utf8
import Mathlib.Tactic.SplitIfs

/-!
# Scalars and their bytes

`scalar?` takes a character off the front of a byte string exactly where its UTF-8 form stands there
(`scalar?_eq_some_iff`), whatever bytes follow. Both directions go by the number of bytes: `Follows`
says which second byte a lead admits, and the rest is arithmetic on digits to the base 64.
-/

set_option autoImplicit false

namespace ImageGateway.Text.Utf8

variable {a b c d low high : UInt8} {more : Nat} {rest : Bytes}

/-! ## Leads and continuations -/

/-- The second byte may follow the lead, in a sequence with the given number of continuations: no form
is longer than it has to be, no surrogate has one, and none goes beyond the last character. -/
def Follows (more : Nat) (a b : UInt8) : Prop :=
  (more = 1 ∧ 194 ≤ a.toNat ∧ a.toNat ≤ 223 ∧ 128 ≤ b.toNat ∧ b.toNat ≤ 191) ∨
  (more = 2 ∧ 224 ≤ a.toNat ∧ a.toNat ≤ 239 ∧ 128 ≤ b.toNat ∧ b.toNat ≤ 191
    ∧ (a.toNat = 224 → 160 ≤ b.toNat) ∧ (a.toNat = 237 → b.toNat ≤ 159)) ∨
  (more = 3 ∧ 240 ≤ a.toNat ∧ a.toNat ≤ 244 ∧ 128 ≤ b.toNat ∧ b.toNat ≤ 191
    ∧ (a.toNat = 240 → 144 ≤ b.toNat) ∧ (a.toNat = 244 → b.toNat ≤ 143))

/-- The byte is a continuation. -/
def Continues (b : UInt8) : Prop := within 0x80 0xBF b = true

theorem within_iff : within low high b = true ↔ low.toNat ≤ b.toNat ∧ b.toNat ≤ high.toNat := by
  simp only [within, Bool.and_eq_true, decide_eq_true_eq, UInt8.le_iff_toNat_le]

theorem continues_iff : Continues b ↔ 128 ≤ b.toNat ∧ b.toNat ≤ 191 := within_iff

/-- The second byte lies between the bytes that go with a lead, if it is one. -/
def Admits (more : Nat) (b : UInt8) : Option (UInt8 × UInt8 × Nat) → Prop
  | some (low, high, continuations) =>
    more = continuations ∧ low.toNat ≤ b.toNat ∧ b.toNat ≤ high.toNat
  | none => False

theorem admits_iff {found : Option (UInt8 × UInt8 × Nat)} : Admits more b found ↔
    ∃ low high, found = some (low, high, more) ∧ within low high b = true := by
  cases found with
  | none => exact iff_of_false id (fun ⟨_, _, found, _⟩ => nomatch found)
  | some found =>
    obtain ⟨low, high, continuations⟩ := found
    constructor
    · rintro ⟨rfl, between⟩
      exact ⟨low, high, rfl, within_iff.mpr between⟩
    · rintro ⟨_, _, ⟨⟩, between⟩
      exact ⟨rfl, within_iff.mp between⟩

theorem not_admits_none : ¬ Admits more b none := id

theorem admits_some {n : Nat} : Admits more b (some (low, high, n))
    ↔ more = n ∧ low.toNat ≤ b.toNat ∧ b.toNat ≤ high.toNat := Iff.rfl

theorem admits_ite {p : Prop} [Decidable p] {s t : Option (UInt8 × UInt8 × Nat)} :
    Admits more b (if p then s else t) ↔ p ∧ Admits more b s ∨ ¬ p ∧ Admits more b t := by
  by_cases h : p <;> simp [h]

/-- The lead tells what may follow it. -/
theorem follows_iff : Follows more a b ↔
    ∃ low high, second? a = some (low, high, more) ∧ within low high b = true := by
  rw [← admits_iff, iff_comm]
  simp only [second?, admits_ite, admits_some, not_admits_none, UInt8.lt_iff_toNat_lt,
    ← UInt8.toNat_inj, UInt8.reduceToNat, and_false, false_or, or_false]
  -- the bytes are numbers now, and the cases of one side are those of the other
  rw [Follows]
  generalize a.toNat = lead
  generalize b.toNat = second
  grind

/-! ## The parts of the reader -/

theorem tail_eq (b : UInt8) : tail b = b.toNat % 64 := rfl

theorem assemble?_one (a : UInt8) :
    assemble? [a] = if a < 0x80 then some (Char.ofNat a.toNat) else none := rfl

theorem assemble?_two (a b : UInt8) :
    assemble? [a, b] = if 0xC2 ≤ a && a < 0xE0 then
      some (Char.ofNat (a.toNat % 32 * 64 + tail b)) else none := rfl

theorem assemble?_three (a b c : UInt8) :
    assemble? [a, b, c] = if 0xE0 ≤ a && a < 0xF0 then
      some (Char.ofNat (a.toNat % 16 * 4096 + tail b * 64 + tail c)) else none := rfl

theorem assemble?_four (a b c d : UInt8) :
    assemble? [a, b, c, d] = some (Char.ofNat
      (a.toNat % 8 * 262144 + tail b * 4096 + tail c * 64 + tail d)) := rfl

theorem scalar?_of_span {bs : Bytes} {n : Nat} (h : span bs = n) :
    scalar? bs = (assemble? (bs.take n)).map fun c => (c, bs.drop n) := by
  subst h
  rfl

/-! ## The bytes that belong together -/

theorem span_of_ascii (h : a < 0x80) : span (a :: rest) = 1 := if_pos h

theorem span_single (a : UInt8) : span [a] = 1 := by
  show (if a < 0x80 then 1 else _) = 1
  cases second? a <;> exact ite_self 1

theorem span_cons (a b : UInt8) (rest : Bytes) :
    span (a :: b :: rest) = if a < 0x80 then 1 else match second? a with
      | some (low, high, more) =>
        if within low high b then
          2 + ((rest.take (more - 1)).takeWhile (within 0x80 0xBF)).length
        else 1
      | none => 1 := by
  show (if a < 0x80 then 1 else _) = _
  cases second? a <;> rfl

theorem span_of_follows (h : Follows more a b) :
    span (a :: b :: rest)
      = 2 + ((rest.take (more - 1)).takeWhile (within 0x80 0xBF)).length := by
  obtain ⟨low, high, second, between⟩ := follows_iff.mp h
  have notAscii : ¬ a < 0x80 := by
    rw [Follows] at h
    rw [UInt8.lt_iff_toNat_lt]
    simp only [UInt8.reduceToNat]
    omega
  rw [span_cons, if_neg notAscii, second]
  exact if_pos between

/-! ## The character of each form -/

theorem toNat_ofNat {n : Nat} (h : n.isValidChar) : (Char.ofNat n).toNat = n := by
  rw [Char.ofNat, dif_pos h]
  rfl

theorem scalar?_one (h : a.toNat < 128) :
    scalar? (a :: rest) = some (Char.ofNat a.toNat, rest) := by
  have ascii : a < 0x80 := UInt8.lt_iff_toNat_lt.mpr h
  rw [scalar?_of_span (span_of_ascii ascii)]
  simp [assemble?_one, ascii]

theorem scalar?_two (h : Follows 1 a b) :
    scalar? (a :: b :: rest) = some (Char.ofNat (a.toNat % 32 * 64 + tail b), rest) := by
  have lead : 0xC2 ≤ a ∧ a < 0xE0 := by
    rw [Follows] at h
    simp only [UInt8.le_iff_toNat_le, UInt8.lt_iff_toNat_lt, UInt8.reduceToNat]
    omega
  rw [scalar?_of_span (span_of_follows h)]
  simp [assemble?_two, lead]

theorem scalar?_three (h : Follows 2 a b) (hc : Continues c) :
    scalar? (a :: b :: c :: rest)
      = some (Char.ofNat (a.toNat % 16 * 4096 + tail b * 64 + tail c), rest) := by
  have lead : 0xE0 ≤ a ∧ a < 0xF0 := by
    rw [Follows] at h
    simp only [UInt8.le_iff_toNat_le, UInt8.lt_iff_toNat_lt, UInt8.reduceToNat]
    omega
  have third : within 0x80 0xBF c = true := hc
  rw [scalar?_of_span (span_of_follows h)]
  simp [third, assemble?_three, lead]

theorem scalar?_four (h : Follows 3 a b) (hc : Continues c) (hd : Continues d) :
    scalar? (a :: b :: c :: d :: rest)
      = some (Char.ofNat (a.toNat % 8 * 262144 + tail b * 4096 + tail c * 64 + tail d), rest) := by
  have third : within 0x80 0xBF c = true := hc
  have fourth : within 0x80 0xBF d = true := hd
  rw [scalar?_of_span (span_of_follows h)]
  simp [third, fourth, assemble?_four]

/-! ## The bytes of each character -/

theorem toNat_byte {n : Nat} (h : n < 256) : (UInt8.ofNat n).toNat = n := by
  rw [UInt8.toNat_ofNat']
  omega

/-- The bytes of a character have one of the four forms, and its number is made of their digits. -/
theorem utf8EncodeChar_cases (x : Char) :
    (∃ a, String.utf8EncodeChar x = [a] ∧ a.toNat < 128 ∧ x.toNat = a.toNat) ∨
    (∃ a b, String.utf8EncodeChar x = [a, b] ∧ Follows 1 a b
      ∧ x.toNat = a.toNat % 32 * 64 + tail b) ∨
    (∃ a b c, String.utf8EncodeChar x = [a, b, c] ∧ Follows 2 a b ∧ Continues c
      ∧ x.toNat = a.toNat % 16 * 4096 + tail b * 64 + tail c) ∨
    (∃ a b c d, String.utf8EncodeChar x = [a, b, c, d] ∧ Follows 3 a b ∧ Continues c ∧ Continues d
      ∧ x.toNat = a.toNat % 8 * 262144 + tail b * 4096 + tail c * 64 + tail d) := by
  have valid : x.toNat.isValidChar := x.valid
  simp only [String.utf8EncodeChar, Char.toNat_val]
  -- one case for each length; no byte overflows, as characters have numbers below 0x110000
  split_ifs with one two three
  · refine .inl ⟨_, rfl, ?_⟩
    rw [toNat_byte (by omega)]
    omega
  · refine .inr (.inl ⟨_, _, rfl, ?_⟩)
    rw [Follows, tail_eq, toNat_byte (by omega), toNat_byte (by omega)]
    omega
  · refine .inr (.inr (.inl ⟨_, _, _, rfl, ?_⟩))
    rw [Follows, continues_iff, tail_eq, tail_eq, toNat_byte (by omega), toNat_byte (by omega),
      toNat_byte (by omega)]
    omega
  · refine .inr (.inr (.inr ⟨_, _, _, _, rfl, ?_⟩))
    rw [Follows, continues_iff, continues_iff, tail_eq, tail_eq, tail_eq, toNat_byte (by omega),
      toNat_byte (by omega), toNat_byte (by omega), toNat_byte (by omega)]
    omega

/-- A byte of a character is the character itself, or neither of them is ASCII. -/
theorem toNat_of_mem_utf8EncodeChar {x : Char} (h : b ∈ String.utf8EncodeChar x) :
    (b.toNat = x.toNat ∧ x.toNat < 128) ∨ (128 ≤ b.toNat ∧ 128 ≤ x.toNat) := by
  obtain ⟨a, text, ascii, number⟩ | ⟨a, c, text, follows, number⟩ |
    ⟨a, c, d, text, follows, third, number⟩ |
    ⟨a, c, d, e, text, follows, third, fourth, number⟩ := utf8EncodeChar_cases x
  all_goals simp only [text, List.mem_cons, List.not_mem_nil, or_false] at h
  · exact .inl ⟨by rw [h, number], by omega⟩
  all_goals
    rw [Follows] at follows
    simp only [tail_eq] at number
  · rcases h with rfl | rfl <;> omega
  · have third := continues_iff.mp third
    rcases h with rfl | rfl | rfl <;> omega
  · have third := continues_iff.mp third
    have fourth := continues_iff.mp fourth
    rcases h with rfl | rfl | rfl | rfl <;> omega

/-- An ASCII character is one byte. -/
theorem utf8EncodeChar_of_lt {x : Char} (h : x.toNat < 128) :
    String.utf8EncodeChar x = [UInt8.ofNat x.toNat] := by
  simp only [String.utf8EncodeChar, Char.toNat_val]
  rw [if_pos (by omega)]

/-- The character at the front of its own bytes is read back, whatever follows. -/
theorem scalar?_encode (x : Char) (rest : Bytes) :
    scalar? (String.utf8EncodeChar x ++ rest) = some (x, rest) := by
  have back : ∀ n, x.toNat = n → Char.ofNat n = x := by
    rintro _ rfl
    exact Char.ofNat_toNat x
  obtain ⟨a, text, h, number⟩ | ⟨a, b, text, h, number⟩ | ⟨a, b, c, text, h, hc, number⟩ |
    ⟨a, b, c, d, text, h, hc, hd, number⟩ := utf8EncodeChar_cases x
  · simp [text, scalar?_one h, back _ number]
  · simp [text, scalar?_two h, back _ number]
  · simp [text, scalar?_three h hc, back _ number]
  · simp [text, scalar?_four h hc hd, back _ number]

theorem ofNat_eq_byte {n : Nat} {b : UInt8} (h : n = b.toNat) : UInt8.ofNat n = b := by
  rw [h, UInt8.ofNat_toNat]

theorem utf8EncodeChar_one (h : a.toNat < 128) :
    String.utf8EncodeChar (Char.ofNat a.toNat) = [a] := by
  have number : (Char.ofNat a.toNat).toNat = a.toNat := toNat_ofNat (.inl (by omega))
  rw [utf8EncodeChar_of_lt (by omega), ofNat_eq_byte number]

theorem utf8EncodeChar_two (h : Follows 1 a b) :
    String.utf8EncodeChar (Char.ofNat (a.toNat % 32 * 64 + tail b)) = [a, b] := by
  have range := h
  rw [Follows] at range
  rw [tail_eq]
  have valid : (a.toNat % 32 * 64 + b.toNat % 64).isValidChar := .inl (by omega)
  simp only [String.utf8EncodeChar, Char.toNat_val, toNat_ofNat valid]
  rw [if_neg (by omega), if_pos (by omega), ofNat_eq_byte (b := a) (by omega),
    ofNat_eq_byte (b := b) (by omega)]

theorem utf8EncodeChar_three (h : Follows 2 a b) (hc : Continues c) :
    String.utf8EncodeChar (Char.ofNat (a.toNat % 16 * 4096 + tail b * 64 + tail c))
      = [a, b, c] := by
  have range := h
  rw [Follows] at range
  have third := continues_iff.mp hc
  rw [tail_eq, tail_eq]
  have valid : (a.toNat % 16 * 4096 + b.toNat % 64 * 64 + c.toNat % 64).isValidChar := by
    rw [Nat.isValidChar]
    omega
  simp only [String.utf8EncodeChar, Char.toNat_val, toNat_ofNat valid]
  rw [if_neg (by omega), if_neg (by omega), if_pos (by omega), ofNat_eq_byte (b := a) (by omega),
    ofNat_eq_byte (b := b) (by omega), ofNat_eq_byte (b := c) (by omega)]

theorem utf8EncodeChar_four (h : Follows 3 a b) (hc : Continues c) (hd : Continues d) :
    String.utf8EncodeChar
        (Char.ofNat (a.toNat % 8 * 262144 + tail b * 4096 + tail c * 64 + tail d))
      = [a, b, c, d] := by
  have range := h
  rw [Follows] at range
  have third := continues_iff.mp hc
  have fourth := continues_iff.mp hd
  rw [tail_eq, tail_eq, tail_eq]
  have valid : (a.toNat % 8 * 262144 + b.toNat % 64 * 4096 + c.toNat % 64 * 64
      + d.toNat % 64).isValidChar := by
    rw [Nat.isValidChar]
    omega
  simp only [String.utf8EncodeChar, Char.toNat_val, toNat_ofNat valid]
  rw [if_neg (by omega), if_neg (by omega), if_neg (by omega), ofNat_eq_byte (b := a) (by omega),
    ofNat_eq_byte (b := b) (by omega), ofNat_eq_byte (b := c) (by omega),
    ofNat_eq_byte (b := d) (by omega)]

/-! ## What the reader takes -/

/-- A unit that is put together to a character is the form of that character: with fewer
continuations than its lead announces, it would not be put together. -/
theorem utf8EncodeChar_of_assemble? {cs : Bytes} {x : Char} (h : Follows more a b)
    (short : cs.length < more) (continues : ∀ c ∈ cs, Continues c)
    (assembled : assemble? (a :: b :: cs) = some x) : String.utf8EncodeChar x = a :: b :: cs := by
  have range := h
  rw [Follows] at range
  match cs with
  | [] =>
    simp only [assemble?_two, Option.ite_none_right_eq_some, Bool.and_eq_true, decide_eq_true_eq,
      UInt8.le_iff_toNat_le, UInt8.lt_iff_toNat_lt, UInt8.reduceToNat, Option.some.injEq]
      at assembled
    obtain rfl : more = 1 := by omega
    rw [← assembled.2, utf8EncodeChar_two h]
  | [c] =>
    simp only [assemble?_three, Option.ite_none_right_eq_some, Bool.and_eq_true, decide_eq_true_eq,
      UInt8.le_iff_toNat_le, UInt8.lt_iff_toNat_lt, UInt8.reduceToNat, Option.some.injEq]
      at assembled
    obtain rfl : more = 2 := by omega
    rw [← assembled.2, utf8EncodeChar_three h (continues c (by simp))]
  | [c, d] =>
    simp only [List.length_cons, List.length_nil] at short
    obtain rfl : more = 3 := by omega
    rw [← Option.some.inj assembled,
      utf8EncodeChar_four h (continues c (by simp)) (continues d (by simp))]
  | _ :: _ :: _ :: _ =>
    simp only [List.length_cons] at short
    omega

/-- The bytes that belong together after a lead and its second byte: continuations, and no more of
them than the lead announces. -/
theorem take_span_of_follows (h : Follows more a b) (rest : Bytes) :
    ∃ cs : Bytes, cs.length < more ∧ (∀ c ∈ cs, Continues c) ∧
      (a :: b :: rest).take (span (a :: b :: rest)) = a :: b :: cs := by
  have range := h
  rw [Follows] at range
  have front : (rest.take (more - 1)).takeWhile (within 0x80 0xBF) <+: rest :=
    (List.takeWhile_prefix _).trans (List.take_prefix _ _)
  refine ⟨(rest.take (more - 1)).takeWhile (within 0x80 0xBF), ?_,
    List.all_eq_true.mp List.all_takeWhile, ?_⟩
  · have atMost := (List.takeWhile_prefix (within 0x80 0xBF)
      (l := rest.take (more - 1))).length_le
    rw [List.length_take] at atMost
    omega
  · rw [span_of_follows h, Nat.add_comm 2, List.take_succ_cons, List.take_succ_cons,
      ← List.prefix_iff_eq_take.mp front]

theorem span_of_not_follows (h : ∀ more, ¬ Follows more a b) : span (a :: b :: rest) = 1 := by
  rw [span_cons]
  split
  · rfl
  · cases second : second? a with
    | none => rfl
    | some found => exact if_neg fun between => h _ (follows_iff.mpr ⟨_, _, second, between⟩)

/-- A character is read only where its UTF-8 form stands at the front. -/
theorem eq_of_scalar? {bs : Bytes} {x : Char} (h : scalar? bs = some (x, rest)) :
    bs = String.utf8EncodeChar x ++ rest := by
  obtain ⟨y, assembled, same⟩ := Option.map_eq_some_iff.mp h
  obtain ⟨rfl, rfl⟩ := Prod.mk.inj same
  suffices form : String.utf8EncodeChar y = bs.take (span bs) by
    rw [form, List.take_append_drop]
  -- a byte that stands alone is put together only if it is ASCII
  have alone : ∀ a, assemble? [a] = some y → String.utf8EncodeChar y = [a] := by
    intro a one
    simp only [assemble?_one, Option.ite_none_right_eq_some, UInt8.lt_iff_toNat_lt,
      Option.some.injEq] at one
    rw [← one.2, utf8EncodeChar_one one.1]
  match bs with
  | [] => cases assembled
  | [a] =>
    rw [span_single] at assembled ⊢
    exact alone a assembled
  | a :: b :: rest =>
    by_cases leads : ∃ more, Follows more a b
    · obtain ⟨more, follows⟩ := leads
      obtain ⟨cs, short, continues, unit⟩ := take_span_of_follows follows rest
      rw [unit] at assembled ⊢
      exact utf8EncodeChar_of_assemble? follows short continues assembled
    · rw [span_of_not_follows (not_exists.mp leads)] at assembled ⊢
      exact alone a assembled

/-- **A character is read off the front exactly where its UTF-8 form stands there.** -/
theorem scalar?_eq_some_iff {bs : Bytes} {x : Char} :
    scalar? bs = some (x, rest) ↔ bs = String.utf8EncodeChar x ++ rest :=
  ⟨eq_of_scalar?, fun form => form ▸ scalar?_encode x rest⟩

end ImageGateway.Text.Utf8
