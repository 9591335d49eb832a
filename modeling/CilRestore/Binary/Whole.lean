import CilRestore.Binary.Format

/-!
# Whole numbers and differences

A finite binary number is an integer times a power of two. Two of them are subtracted over the
smaller of their powers, where both are integers, so nothing is rounded before the end.
`difference?_self` says that a finite number differs from itself by zero.
-/

namespace CilRestore.Binary

-- Powers of numbers are those of the core library, whatever else is imported.
attribute [local instance (high)] instPowNat

/-- A finite number as an integer times a power of two. -/
def Datum.scaled? : Datum → Option (Int × Int)
  | .finite negative significand exponent =>
    some (if negative then -significand else significand, exponent)
  | _ => none

namespace Format

/-- The whole number that bits stand for, if they stand for one. -/
def toInteger? (f : Format) (bits : Nat) : Option Int := do
  let (n, exponent) ← (f.decode bits).scaled?
  let unit : Int := 2 ^ (-exponent).toNat
  if n % unit = 0 then some (n / unit * 2 ^ exponent.toNat) else none

/-- The bits of a difference, rounded, when both numbers are finite and it is not too large. -/
def difference? (f : Format) (a b : Nat) : Option Nat := do
  let (m, p) ← (f.decode a).scaled?
  let (n, q) ← (f.decode b).scaled?
  let least := min p q
  let difference := m * 2 ^ (p - least).toNat - n * 2 ^ (q - least).toNat
  (f.ofMagnitude? difference.natAbs least).map (f.signBit (difference < 0) + ·)

/-- A finite number differs from itself by zero. -/
theorem difference?_self (f : Format) {a : Nat} (h : (f.decode a).scaled?.isSome) :
    f.difference? a a = some 0 := by
  obtain ⟨⟨n, exponent⟩, h⟩ := Option.isSome_iff_exists.1 h
  simp [difference?, h, ofMagnitude?, signBit]

end Format

end CilRestore.Binary
