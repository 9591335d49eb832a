/-!
# Binary interchange formats

Numbers with a binary exponent, as bits: a sign, an exponent and a significand. A number moves
between formats by its exact value, rounded to the nearest with ties to even; a value beyond the
largest finite number fits no format. `roundScaled_exact` says that nothing is rounded where the
exponent does not shrink.
-/

namespace CilRestore.Binary

-- Powers of numbers are those of the core library, whatever else is imported.
attribute [local instance (high)] instPowNat

/-- A binary interchange format. -/
structure Format where
  /-- The bytes a number takes. -/
  width : Nat
  /-- The bits of a significand, its leading one included. -/
  precision : Nat
  /-- The exponent of the least positive number. -/
  minExponent : Int
  deriving DecidableEq, Repr

/-- The format of four bytes. -/
def single : Format := ⟨4, 24, -149⟩

/-- The format of eight bytes. -/
def double : Format := ⟨8, 53, -1074⟩

/-- What bits stand for. -/
inductive Datum where
  /-- A significand times a power of two. -/
  | finite (negative : Bool) (significand : Nat) (exponent : Int)
  /-- Beyond all numbers. -/
  | infinite (negative : Bool)
  /-- No number. -/
  | nan (negative : Bool) (payload : Nat)
  deriving DecidableEq, Repr

namespace Format

/-- The weight of the sign bit. -/
def signWeight (f : Format) : Nat := 2 ^ (8 * f.width - 1)

/-- The weight of the exponent field. -/
def exponentWeight (f : Format) : Nat := 2 ^ (f.precision - 1)

/-- The bits of infinity. -/
def infinity (f : Format) : Nat := (2 ^ (8 * f.width - f.precision) - 1) * f.exponentWeight

/-- The bit that marks a quiet not-a-number. -/
def quietWeight (f : Format) : Nat := 2 ^ (f.precision - 2)

/-- What bits stand for. -/
def decode (f : Format) (bits : Nat) : Datum :=
  let negative := f.signWeight ≤ bits
  let rest := bits % f.signWeight
  let exponent := rest / f.exponentWeight
  let fraction := rest % f.exponentWeight
  if f.infinity ≤ rest then
    if fraction = 0 then .infinite negative else .nan negative fraction
  else if exponent = 0 then .finite negative fraction f.minExponent
  else .finite negative (f.exponentWeight + fraction) (f.minExponent + exponent - 1)

end Format

/-- A number times a power of two, rounded to the nearest integer, ties to even. -/
def roundScaled (n : Nat) : Int → Nat
  | .ofNat k => n * 2 ^ k
  | .negSucc k =>
    let unit := 2 ^ (k + 1)
    let whole := n / unit
    let excess := n % unit
    if 2 * excess < unit then whole
    else if unit < 2 * excess then whole + 1
    else whole + whole % 2

/-- Scaling up is exact. -/
theorem roundScaled_exact (n k : Nat) : roundScaled n k = n * 2 ^ k := rfl

namespace Format

/-- The bits of a significand times a power of two, when the value is not too large. -/
def ofMagnitude? (f : Format) (significand : Nat) (exponent : Int) : Option Nat :=
  if significand = 0 then some 0
  else
    let least := max (significand.log2 + exponent - (f.precision - 1 : Nat)) f.minExponent
    let bits := (least - f.minExponent).toNat * f.exponentWeight +
      roundScaled significand (exponent - least)
    if bits < f.infinity then some bits else none

/-- The sign bit. -/
def signBit (f : Format) (negative : Bool) : Nat := if negative then f.signWeight else 0

/-- The bits of an integer, when it is not too large. -/
def ofInteger? (f : Format) (n : Int) : Option Nat :=
  (f.ofMagnitude? n.natAbs 0).map (f.signBit (n < 0) + ·)

/-- The fraction field of a not-a-number in another format, the quiet bit set. -/
def payloadFrom (target source : Format) (payload : Nat) : Nat :=
  let scaled := payload * 2 ^ (target.precision - source.precision) /
    2 ^ (source.precision - target.precision)
  if scaled < target.quietWeight then scaled + target.quietWeight else scaled

/-- The bits of the same number in another format, when it is not too large there. -/
def convert? (source target : Format) (bits : Nat) : Option Nat :=
  match source.decode bits with
  | .finite negative significand exponent =>
    (target.ofMagnitude? significand exponent).map (target.signBit negative + ·)
  | .infinite negative => some (target.signBit negative + target.infinity)
  | .nan negative payload =>
    some (target.signBit negative + target.infinity + target.payloadFrom source payload)

end Format

end CilRestore.Binary
