import CilRestore.Bytes.Basic
import CilRestore.Fault

/-!
# Compressed integers

Signatures and heaps hold unsigned integers of one, two or four bytes, told apart by the first bits
and written from the most significant byte on. A number may stand in any form that holds it;
it is written in the shortest.
-/

namespace CilRestore.Compressed

-- Powers of numbers are those of the core library, whatever else is imported.
attribute [local instance (high)] instPowNat

/-- The fault of a number that cannot be read. -/
def malformed : Fault := .invalidSignature "compressed integer"

/-- Read the number at the start of bytes: its value and how many bytes it takes. -/
def read : Bytes → Except Fault (Nat × Nat)
  | [] => .error malformed
  | b :: rest =>
    if b.toNat < 0x80 then .ok (b.toNat, 1)
    else if b.toNat < 0xC0 then
      match rest with
      | c :: _ => .ok (b.toNat % 0x40 * 256 + c.toNat, 2)
      | [] => .error malformed
    else if b.toNat < 0xE0 then
      match rest with
      | c :: d :: e :: _ =>
        .ok (((b.toNat % 0x20 * 256 + c.toNat) * 256 + d.toNat) * 256 + e.toNat, 4)
      | _ => .error malformed
    else .error malformed

/-- The bytes from an offset on. An offset below zero counts from the end, and what lies behind the
end is then the start again. -/
def window (data : Bytes) (offset : Int) : Except Fault Bytes :=
  if (data.length : Int) ≤ offset then .error malformed
  else if 0 ≤ offset then .ok (data.drop offset.toNat)
  else if -offset ≤ data.length then .ok (data.drop (data.length + offset).toNat ++ data)
  else .error .badIndex

/-- Read the number at an offset: its value and the offset behind it. -/
def readAt (data : Bytes) (offset : Int) : Except Fault (Nat × Int) := do
  let (value, size) ← read (← window data offset)
  return (value, offset + size)

/-- The shortest form of a number below 2^29. -/
def encode (n : Nat) : Bytes :=
  if n < 0x80 then [UInt8.ofNat n]
  else if n < 0x4000 then [UInt8.ofNat (0x80 + n / 256), UInt8.ofNat n]
  else
    [UInt8.ofNat (0xC0 + n / 256 ^ (3 : Nat)), UInt8.ofNat (n / 256 ^ (2 : Nat)), UInt8.ofNat (n / 256),
      UInt8.ofNat n]

end CilRestore.Compressed
