import ImageGateway.Bytes

/-!
# Percent encoding

A percent sign and two hexadecimal digits stand for a byte. A percent sign without them stands for
itself.
-/

namespace ImageGateway.Http.Percent

/-- The value of a hexadecimal digit. -/
def hexValue? (b : UInt8) : Option UInt8 :=
  if 48 ≤ b && b ≤ 57 then some (b - 48)
  else if 97 ≤ b && b ≤ 102 then some (b - 87)
  else if 65 ≤ b && b ≤ 70 then some (b - 55)
  else none

/-- The byte that two hexadecimal digits give. -/
def byte? (high low : UInt8) : Option UInt8 := do some ((← hexValue? high) * 16 + (← hexValue? low))

/-- The bytes that an encoded text stands for. -/
def decode : Bytes → Bytes
  | 37 :: high :: low :: rest =>
    match byte? high low with
    | some b => b :: decode rest
    | none => 37 :: decode (high :: low :: rest)
  | b :: rest => b :: decode rest
  | [] => []

/-- The digit of a value below sixteen, upper-case. -/
def hexDigit (n : UInt8) : UInt8 := if n < 10 then 48 + n else 55 + n

/-- A byte as a percent sign and two digits. -/
def escape (b : UInt8) : Bytes := [37, hexDigit (b / 16), hexDigit (b % 16)]

/-- The bytes with those that `isPlain` excludes encoded. -/
def encode (isPlain : UInt8 → Bool) (bs : Bytes) : Bytes :=
  bs.flatMap fun b => if isPlain b then [b] else escape b

/-! ## Reading back -/

theorem byte?_hexDigit (b : UInt8) : byte? (hexDigit (b / 16)) (hexDigit (b % 16)) = some b := by
  have all : ∀ n : Fin 256, byte? (hexDigit (UInt8.ofNat n / 16)) (hexDigit (UInt8.ofNat n % 16))
      = some (UInt8.ofNat n) := by
    decide +kernel
  simpa using all ⟨b.toNat, b.toNat_lt⟩

theorem decode_cons {b : UInt8} (h : b ≠ 37) (rest : Bytes) :
    decode (b :: rest) = b :: decode rest := by
  rw [decode]
  intro high low more same
  exact absurd same h

/-- An encoded byte is read back, whatever follows it. -/
theorem decode_escape (b : UInt8) (rest : Bytes) :
    decode (escape b ++ rest) = b :: decode rest := by
  simp [escape, decode, byte?_hexDigit]

/-- What has been encoded is read back, if percent signs are encoded too. -/
theorem decode_encode {isPlain : UInt8 → Bool} (h : isPlain 37 = false) (bs : Bytes) :
    decode (encode isPlain bs) = bs := by
  induction bs with
  | nil => rfl
  | cons b rest ih =>
    have step : encode isPlain (b :: rest)
        = (if isPlain b then [b] else escape b) ++ encode isPlain rest := by
      simp [encode]
    rw [step]
    cases plain : isPlain b with
    | true =>
      have differs : b ≠ 37 := by
        intro same
        simp [same, h] at plain
      simpa [ih] using decode_cons differs (encode isPlain rest)
    | false => simpa [ih] using decode_escape b (encode isPlain rest)

end ImageGateway.Http.Percent
