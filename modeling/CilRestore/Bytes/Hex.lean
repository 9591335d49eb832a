import CilRestore.Bytes.Basic

/-!
# Bytes as text

Two hexadecimal digits for each byte, the high one first. `ofHex_toHex` says that the text of bytes
reads back.
-/

namespace CilRestore.Bytes

/-- A number below 16 as a digit. -/
def hexDigit (n : Nat) : Char := Char.ofNat (if n < 10 then 48 + n else 87 + n)

/-- The value of a digit in either case. -/
def hexDigitValue (c : Char) : Nat :=
  let n := c.toNat
  if n < 58 then n - 48 else if n < 71 then n - 55 else n - 87

/-- The digits of bytes. -/
def toHex (bs : Bytes) : List Char :=
  bs.flatMap fun b => [hexDigit (b.toNat / 16), hexDigit (b.toNat % 16)]

/-- Read bytes from digits, two for each; `done` holds the ones before, last first. -/
def ofHexFrom : List Char → Bytes → Bytes
  | high :: low :: rest, done =>
    ofHexFrom rest (UInt8.ofNat (hexDigitValue high * 16 + hexDigitValue low) :: done)
  | _, done => done.reverse

/-- Read bytes from digits. -/
def ofHex (digits : List Char) : Bytes := ofHexFrom digits []

/-- A digit is the digit of its value. -/
theorem hexDigitValue_hexDigit {n : Nat} (h : n < 16) : hexDigitValue (hexDigit n) = n := by
  have : ∀ m : Fin 16, hexDigitValue (hexDigit m) = m := by decide
  exact this ⟨n, h⟩

/-- Digits are read back as the bytes that they were written for. -/
theorem ofHexFrom_toHex (bs done : Bytes) : ofHexFrom (toHex bs) done = done.reverse ++ bs := by
  induction bs generalizing done with
  | nil => simp [toHex, ofHexFrom]
  | cons b rest ih =>
    have hb : b.toNat < 256 := b.toNat_lt
    have hd : UInt8.ofNat (b.toNat / 16 * 16 + b.toNat % 16) = b := by
      rw [Nat.div_add_mod']
      exact UInt8.ofNat_toNat
    have hc : toHex (b :: rest) =
        hexDigit (b.toNat / 16) :: hexDigit (b.toNat % 16) :: toHex rest := by
      simp [toHex]
    rw [hc, ofHexFrom, hexDigitValue_hexDigit (by omega), hexDigitValue_hexDigit (by omega), hd, ih]
    simp

/-- The text of bytes reads back. -/
theorem ofHex_toHex (bs : Bytes) : ofHex (toHex bs) = bs := by
  simp [ofHex, ofHexFrom_toHex]

end CilRestore.Bytes
