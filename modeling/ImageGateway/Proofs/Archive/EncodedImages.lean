import ImageGateway.Archive.Batch
import ImageGateway.Proofs.Text.Blanks
import Mathlib.Data.List.TakeWhile

/-!
# Encoded images

A text is read as base64 if and only if it is the one text that encodes some bytes
(`Base64.decode?_eq_some_iff`). White space around it is passed over (`Text.isTrimmed_iff`), and any
other text stands for an image without bytes (`Archive.isImageOf_iff`).
-/

set_option autoImplicit false

namespace ImageGateway

/-! ## Base64 -/

namespace Base64

variable {a b c d : Char} {n : Nat} {bs done : Bytes} {cs : List Char}

/-- The standard alphabet, in the order of the bits that its characters stand for. -/
def alphabet : List Char :=
  "ABCDEFGHIJKLMNOPQRSTUVWXYZabcdefghijklmnopqrstuvwxyz0123456789+/".toList

/-- The character that stands for six bits. -/
def digit (n : Nat) : Char := alphabet.getD n '='

/-- The text that encodes bytes: four characters for three bytes, with padding after the last one or
two bytes. -/
def encode : Bytes → List Char
  | [] => []
  | [x] => [digit (x.toNat / 4), digit (x.toNat % 4 * 16), '=', '=']
  | [x, y] =>
    [digit (x.toNat / 4), digit (x.toNat % 4 * 16 + y.toNat / 16), digit (y.toNat % 16 * 4), '=']
  | x :: y :: z :: rest =>
    digit (x.toNat / 4) :: digit (x.toNat % 4 * 16 + y.toNat / 16) ::
      digit (y.toNat % 16 * 4 + z.toNat / 64) :: digit (z.toNat % 64) :: encode rest

theorem bits?_digit : ∀ n < 64, bits? (digit n) = some n := by decide +kernel

theorem lt_of_bits? (h : bits? c = some n) : n < 64 := by
  rw [bits?] at h
  grind

/-- Different characters stand for different bits. -/
theorem eq_of_bits? (h : bits? c = some n) (h' : bits? d = some n) : c = d := by
  rw [bits?] at h h'
  have same : c.toNat = d.toNat := by grind
  exact Char.toNat_inj.mp same

theorem bits?_eq_some_iff : bits? c = some n ↔ n < 64 ∧ c = digit n := by
  constructor
  · intro h
    have small := lt_of_bits? h
    exact ⟨small, eq_of_bits? h (bits?_digit n small)⟩
  · rintro ⟨small, rfl⟩
    exact bits?_digit n small

theorem digit_ne_padding : ∀ n < 64, digit n ≠ '=' := by decide +kernel

/-! ### Groups -/

theorem toNat_byte (h : n < 256) : (byte n).toNat = n :=
  UInt8.toNat_ofNat'.trans (Nat.mod_eq_of_lt h)

theorem byte_eq {x : UInt8} (h : n = x.toNat) : byte n = x := by
  rw [h, byte]
  exact UInt8.ofNat_toNat

/-- Four characters that others follow are read as the three bytes that they encode. -/
theorem group?_eq_some_iff :
    group? a b c d = some bs ↔ ∃ x y z : UInt8, bs = [x, y, z] ∧ [a, b, c, d] = encode [x, y, z] := by
  simp only [group?, Option.bind_eq_bind, Option.bind_eq_some_iff, bits?_eq_some_iff,
    Option.some.injEq, encode, List.cons.injEq, and_true]
  constructor
  · -- four numbers below 64 make three below 256, which are bytes
    rintro ⟨p, ⟨hp, rfl⟩, q, ⟨hq, rfl⟩, r, ⟨hr, rfl⟩, w, ⟨hw, rfl⟩, rfl⟩
    refine ⟨_, _, _, rfl, ?_⟩
    rw [toNat_byte (by omega), toNat_byte (by omega), toNat_byte (by omega)]
    refine ⟨?_, ?_, ?_, ?_⟩ <;> congr 1 <;> omega
  · rintro ⟨x, y, z, rfl, rfl, rfl, rfl, rfl⟩
    have hx := x.toNat_lt
    have hy := y.toNat_lt
    have hz := z.toNat_lt
    refine ⟨_, ⟨?_, rfl⟩, _, ⟨?_, rfl⟩, _, ⟨?_, rfl⟩, _, ⟨?_, rfl⟩, ?_⟩
    · omega
    · omega
    · omega
    · omega
    · rw [byte_eq (x := x) (by omega), byte_eq (x := y) (by omega), byte_eq (x := z) (by omega)]

/-- A last group is a full one, or one with padding. -/
theorem lastGroup?_of_full (hd : d ≠ '=') : lastGroup? a b c d = group? a b c d := by
  simp only [lastGroup?, group?, hd, and_false, if_false]

/-- A last group with one padding character stands for two bytes. -/
theorem lastGroup?_one_padding (hc : c ≠ '=') :
    lastGroup? a b c '=' = some bs ↔ ∃ x y : UInt8, bs = [x, y] ∧ [a, b, c, '='] = encode [x, y] := by
  simp only [lastGroup?, hc, if_false, if_true, Option.bind_eq_bind,
    Option.bind_eq_some_iff, bits?_eq_some_iff, Option.ite_none_right_eq_some,
    Option.some.injEq, encode, List.cons.injEq, and_true]
  constructor
  · rintro ⟨p, ⟨hp, rfl⟩, q, ⟨hq, rfl⟩, r, ⟨hr, rfl⟩, rest, rfl⟩
    refine ⟨_, _, rfl, ?_⟩
    rw [toNat_byte (by omega), toNat_byte (by omega)]
    refine ⟨?_, ?_, ?_⟩ <;> congr 1 <;> omega
  · rintro ⟨x, y, rfl, rfl, rfl, rfl⟩
    have hx := x.toNat_lt
    have hy := y.toNat_lt
    refine ⟨_, ⟨?_, rfl⟩, _, ⟨?_, rfl⟩, _, ⟨?_, rfl⟩, ?_, ?_⟩
    · omega
    · omega
    · omega
    · omega
    · rw [byte_eq (x := x) (by omega), byte_eq (x := y) (by omega)]

/-- A last group with two padding characters stands for one byte. -/
theorem lastGroup?_two_paddings :
    lastGroup? a b '=' '=' = some bs ↔ ∃ x : UInt8, bs = [x] ∧ [a, b, '=', '='] = encode [x] := by
  simp only [lastGroup?, and_self, if_true, Option.bind_eq_bind, Option.bind_eq_some_iff,
    bits?_eq_some_iff, Option.ite_none_right_eq_some, Option.some.injEq, encode, List.cons.injEq,
    and_true]
  constructor
  · rintro ⟨p, ⟨hp, rfl⟩, q, ⟨hq, rfl⟩, rest, rfl⟩
    refine ⟨_, rfl, ?_⟩
    rw [toNat_byte (by omega)]
    refine ⟨?_, ?_⟩ <;> congr 1 <;> omega
  · rintro ⟨x, rfl, rfl, rfl⟩
    have hx := x.toNat_lt
    refine ⟨_, ⟨?_, rfl⟩, _, ⟨?_, rfl⟩, ?_, ?_⟩
    · omega
    · omega
    · omega
    · rw [byte_eq (x := x) (by omega)]

theorem encode_eq_nil_iff : encode bs = [] ↔ bs = [] := by
  constructor
  · intro h
    match bs with
    | [] => rfl
    | [x] => simp [encode] at h
    | [x, y] => simp [encode] at h
    | x :: y :: z :: rest => simp [encode] at h
  · rintro rfl
    rfl

/-- The last four characters are read as the bytes that they encode. -/
theorem lastGroup?_eq_some_iff :
    lastGroup? a b c d = some bs ↔ bs ≠ [] ∧ [a, b, c, d] = encode bs := by
  -- the padding tells how many bytes there are
  constructor
  · intro h
    by_cases hd : d = '='
    · subst hd
      by_cases hc : c = '='
      · subst hc
        obtain ⟨x, rfl, same⟩ := lastGroup?_two_paddings.mp h
        exact ⟨List.cons_ne_nil _ _, same⟩
      · obtain ⟨x, y, rfl, same⟩ := (lastGroup?_one_padding hc).mp h
        exact ⟨List.cons_ne_nil _ _, same⟩
    · rw [lastGroup?_of_full hd] at h
      obtain ⟨x, y, z, rfl, same⟩ := group?_eq_some_iff.mp h
      exact ⟨List.cons_ne_nil _ _, same⟩
  · rintro ⟨notEmpty, same⟩
    match bs with
    | [] => exact absurd rfl notEmpty
    | [x] =>
      simp only [encode, List.cons.injEq, and_true] at same
      obtain ⟨rfl, rfl, rfl, rfl⟩ := same
      exact lastGroup?_two_paddings.mpr ⟨x, rfl, rfl⟩
    | [x, y] =>
      have hy := y.toNat_lt
      simp only [encode, List.cons.injEq, and_true] at same
      obtain ⟨rfl, rfl, rfl, rfl⟩ := same
      exact (lastGroup?_one_padding (digit_ne_padding _ (by omega))).mpr ⟨x, y, rfl, rfl⟩
    | x :: y :: z :: rest =>
      simp only [encode, List.cons.injEq] at same
      obtain ⟨rfl, rfl, rfl, rfl, last⟩ := same
      obtain rfl := encode_eq_nil_iff.mp last.symm
      rw [lastGroup?_of_full (digit_ne_padding _ (by omega))]
      exact group?_eq_some_iff.mpr ⟨x, y, z, rfl, rfl⟩

/-- Where more than four characters encode bytes, the first four encode three of them. -/
theorem eq_encode_iff {rest : List Char} (h : rest ≠ []) :
    a :: b :: c :: d :: rest = encode bs ↔
      ∃ x y z more, bs = x :: y :: z :: more ∧ [a, b, c, d] = encode [x, y, z] ∧
        rest = encode more := by
  constructor
  · intro same
    match bs with
    | [] => exact absurd same (by simp [encode])
    | [x] => exact absurd same (by simp [encode, h])
    | [x, y] => exact absurd same (by simp [encode, h])
    | x :: y :: z :: more =>
      simp only [encode, List.cons.injEq] at same
      obtain ⟨rfl, rfl, rfl, rfl, others⟩ := same
      exact ⟨x, y, z, more, rfl, rfl, others⟩
  · rintro ⟨x, y, z, more, rfl, first, rfl⟩
    simp only [encode, List.cons.injEq, and_true] at first
    obtain ⟨rfl, rfl, rfl, rfl⟩ := first
    rfl

/-- A text is decoded behind other bytes if and only if it encodes what is put there. -/
theorem decodeOnto?_eq_some_iff :
    decodeOnto? done cs = some bs ↔ ∃ more, bs = done.reverse ++ more ∧ cs = encode more := by
  induction done, cs using decodeOnto?.induct with
  | case1 done =>
    rw [decodeOnto?]
    constructor
    · intro h
      exact ⟨[], by simpa using h.symm, rfl⟩
    · rintro ⟨more, rfl, empty⟩
      obtain rfl := encode_eq_nil_iff.mp empty.symm
      simp
  | case2 done a b c d =>
    rw [decodeOnto?, Option.map_eq_some_iff]
    constructor
    · rintro ⟨more, last, rfl⟩
      exact ⟨more, by simp, (lastGroup?_eq_some_iff.mp last).2⟩
    · rintro ⟨more, rfl, same⟩
      refine ⟨more, lastGroup?_eq_some_iff.mpr ⟨?_, same⟩, by simp⟩
      rintro rfl
      exact absurd same (by simp [encode])
  | case3 done a b c d rest last bytes read ih =>
    -- the first group is read as three bytes, and the others are put behind them
    obtain ⟨x, y, z, rfl, first⟩ := group?_eq_some_iff.mp read
    rw [decodeOnto?.eq_3 _ _ _ _ _ _ last, read]
    simp only [ih, eq_encode_iff last]
    constructor
    · rintro ⟨more, rfl, others⟩
      exact ⟨x :: y :: z :: more, by simp, x, y, z, more, rfl, first, others⟩
    · rintro ⟨_, rfl, x', y', z', more, rfl, first', others⟩
      have bytes := (group?_eq_some_iff.mpr ⟨x', y', z', rfl, first'⟩).symm.trans read
      obtain ⟨rfl, rfl, rfl⟩ : x' = x ∧ y' = y ∧ z' = z := by simpa using bytes
      exact ⟨more, by simp, others⟩
  | case4 done a b c d rest last refused =>
    rw [decodeOnto?.eq_3 _ _ _ _ _ _ last, refused]
    simp only [eq_encode_iff last, reduceCtorEq, false_iff]
    rintro ⟨_, -, x, y, z, -, -, first, -⟩
    exact absurd (refused.symm.trans (group?_eq_some_iff.mpr ⟨x, y, z, rfl, first⟩)) (by simp)
  | case5 text done notEmpty notFour notMore =>
    -- what encodes bytes is empty, one group, or a group with more behind it
    rw [decodeOnto?.eq_4 _ _ notEmpty notFour notMore]
    simp only [reduceCtorEq, false_iff]
    rintro ⟨more, -, same⟩
    match more with
    | [] => exact notEmpty same
    | [x] => exact notFour _ _ _ _ same
    | [x, y] => exact notFour _ _ _ _ same
    | x :: y :: z :: rest => exact notMore _ _ _ _ _ same

/-- A text is read as the bytes that it encodes, and no other text is read. -/
theorem decode?_eq_some_iff : decode? cs = some bs ↔ cs = encode bs := by
  rw [decode?, decodeOnto?_eq_some_iff]
  simp

example : encode [1, 2, 3, 255] = "AQID/w==".toList := by decide +kernel

end Base64

/-! ## Images -/

namespace Archive

open Text

variable {encoded : String} {image : Bytes}

/-- A text encodes an image, or it encodes none and stands for the image without bytes. -/
def IsImageOf (encoded : String) (image : Bytes) : Prop :=
  IsTrimmed encoded.toList (Base64.encode image) ∨
    (∀ bytes, ¬ IsTrimmed encoded.toList (Base64.encode bytes)) ∧ image = []

theorem isImageOf_iff : IsImageOf encoded image ↔ image = decodeImage encoded := by
  have reads : ∀ bytes, IsTrimmed encoded.toList (Base64.encode bytes) ↔
      Base64.decode? (trim encoded.toList) = some bytes := fun bytes => by
    rw [isTrimmed_iff, Base64.decode?_eq_some_iff, eq_comm]
  simp only [IsImageOf, reads]
  rw [decodeImage]
  cases Base64.decode? (trim encoded.toList) with
  | some bytes => simp [eq_comm]
  | none => simp

end Archive

end ImageGateway
