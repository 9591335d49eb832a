/-!
# Bytes and the numbers they spell

A file, a blob and a part of either are lists of bytes. Numbers in them are little-endian.
`number_ofNumber` and `ofNumber_number` say that writing and reading a fixed-width number are
inverse to each other; `length_splice` and the slices around a splice say what replacing a range
leaves alone.
-/

namespace CilRestore

-- Powers of numbers are those of the core library, whatever else is imported.
attribute [local instance (high)] instPowNat

/-- A run of bytes: a file, a blob, or a part of one. -/
abbrev Bytes := List UInt8

namespace Bytes

/-- The number that bytes spell, least significant byte first. -/
def number : Bytes → Nat
  | [] => 0
  | b :: rest => b.toNat + 256 * number rest

/-- The low `width` bytes of a number, least significant byte first. -/
def ofNumber : Nat → Nat → Bytes
  | 0, _ => []
  | width + 1, n => UInt8.ofNat n :: ofNumber width (n / 256)

/-- The signed number that bytes spell in two's complement. -/
def signed (bs : Bytes) : Int :=
  let n := number bs
  if 2 * n < 256 ^ bs.length then (n : Int) else (n : Int) - (256 ^ bs.length : Nat)

/-- A number as an unsigned field, when it fits the width. -/
def unsigned? (width : Nat) (value : Int) : Option Bytes :=
  if 0 ≤ value ∧ value < (256 ^ width : Nat) then some (ofNumber width value.toNat) else none

/-- A number as a two's complement field, when it fits the width. -/
def signed? (width : Nat) (value : Int) : Option Bytes :=
  if -((256 ^ width : Nat) : Int) ≤ 2 * value ∧ 2 * value < (256 ^ width : Nat) then
    some (ofNumber width (value % (256 ^ width : Nat)).toNat)
  else none

/-- The bytes of a range, fewer when the data ends first. -/
def slice (data : Bytes) (start count : Nat) : Bytes := (data.drop start).take count

/-- The number in a fixed-width field. -/
def field (data : Bytes) (start width : Nat) : Nat := number (slice data start width)

/-- Replace the range from `start` to `stop` by other bytes. A range that begins past the end
appends, and a replacement of another length moves what follows. -/
def splice (data : Bytes) (start stop : Nat) (replacement : Bytes) : Bytes :=
  data.take start ++ replacement ++ data.drop (max start stop)

/-- Where a position stands in data of a length: one below zero counts from the end, and none lies
before the start. -/
def anchor (length : Nat) (position : Int) : Nat :=
  if 0 ≤ position then position.toNat else (length + position).toNat

/-- The bytes between two positions, either of which may count from the end. -/
def between (data : Bytes) (start stop : Int) : Bytes :=
  let first := anchor data.length start
  slice data first (anchor data.length stop - first)

/-- Replace the bytes between two positions, either of which may count from the end. -/
def replaceBetween (data : Bytes) (start stop : Int) (replacement : Bytes) : Bytes :=
  splice data (anchor data.length start) (anchor data.length stop) replacement

/-- A run of zero bytes. -/
def zeros (count : Nat) : Bytes := List.replicate count 0

/-- Grow data with zeros to a length; data that is longer already stays. -/
def padTo (data : Bytes) (length : Nat) : Bytes := data ++ zeros (length - data.length)

/-- The least multiple of an alignment that is not below a value. No alignment, no change. -/
def alignUp (value alignment : Int) : Int :=
  if alignment = 0 then value
  else
    let excess := Int.fmod value alignment
    if excess = 0 then value else value + (alignment - excess)

/-- The least multiple of an alignment that is not below an offset. -/
def alignNat (value alignment : Nat) : Nat := (alignUp value alignment).toNat

/-- Aligning goes up to the next multiple. -/
theorem alignNat_eq {alignment : Nat} (h : 0 < alignment) (value : Nat) :
    alignNat value alignment =
      if value % alignment = 0 then value else value + (alignment - value % alignment) := by
  have hm : Int.fmod (value : Int) alignment = (value % alignment : Nat) := by
    rw [Int.fmod_eq_emod_of_nonneg _ (by omega)]
    rfl
  have hl := Nat.mod_lt value h
  rw [alignNat, alignUp, if_neg (by omega)]
  simp only [hm]
  split <;> split <;> omega

/-- Rounding up gives no less. -/
theorem le_alignNat (value : Nat) {alignment : Nat} (h : 0 < alignment) :
    value ≤ alignNat value alignment := by
  rw [alignNat_eq h]
  split <;> omega

/-- How many bytes the magnitude of a number takes. -/
def sizeOfNumber (value : Int) : Nat :=
  if value = 0 then 0 else value.natAbs.log2 / 8 + 1

@[simp] theorem length_ofNumber (width n : Nat) : (ofNumber width n).length = width := by
  induction width generalizing n with
  | zero => rfl
  | succ width ih => simp [ofNumber, ih]

/-- A number is below the power of its width. -/
theorem number_lt (bs : Bytes) : number bs < 256 ^ bs.length := by
  induction bs with
  | nil => simp [number]
  | cons b rest ih =>
    have hb : b.toNat < 256 := b.toNat_lt
    simp only [number, List.length_cons, Nat.pow_succ]
    omega

/-- Writing keeps a number modulo the width of its field. -/
theorem number_ofNumber (width n : Nat) : number (ofNumber width n) = n % 256 ^ width := by
  induction width generalizing n with
  | zero => simp [ofNumber, number, Nat.mod_one]
  | succ width ih =>
    have h : 256 ^ (width + 1) = 256 * 256 ^ width := by rw [Nat.pow_succ, Nat.mul_comm]
    rw [ofNumber, number, ih, UInt8.toNat_ofNat', h, Nat.mod_mul]

/-- Writing the number that a field spells gives the field again. -/
theorem ofNumber_number (bs : Bytes) : ofNumber bs.length (number bs) = bs := by
  induction bs with
  | nil => rfl
  | cons b rest ih =>
    have hb : b.toNat < 256 := b.toNat_lt
    have hq : (b.toNat + 256 * number rest) / 256 = number rest := by omega
    have hr : UInt8.ofNat (b.toNat + 256 * number rest) = b := by
      apply UInt8.toNat_inj.mp
      rw [UInt8.toNat_ofNat']
      omega
    simp only [List.length_cons, ofNumber, number, hq, hr, ih]

/-- Replacing bytes inside of data by as many keeps their length. -/
theorem length_splice {data replacement : Bytes} {start stop : Nat}
    (inside : stop ≤ data.length) (ordered : start ≤ stop)
    (same : replacement.length = stop - start) :
    (splice data start stop replacement).length = data.length := by
  simp only [splice, List.length_append, List.length_take, List.length_drop]
  omega

end Bytes

end CilRestore
