import CilRestore.Bytes.Basic

/-!
# Fields of a block

A header is kept as the bytes it is, and a field is a place and a width in it. Reading a field gives
a number, and setting it keeps the number modulo its width; nothing else in the block changes, so a
header is written back by pasting its bytes. `get_set` and `length_set` state the two facts.
-/

namespace CilRestore

-- Powers of numbers are those of the core library, whatever else is imported.
attribute [local instance (high)] instPowNat

/-- A number of fixed width in a block of bytes. -/
structure Field where
  /-- What the field is called. -/
  name : String
  /-- Where it starts in its block. -/
  offset : Nat
  /-- The bytes it takes. -/
  width : Nat
  deriving DecidableEq, Repr

namespace Field

/-- The number in a field. -/
def get (f : Field) (block : Bytes) : Nat := Bytes.field block f.offset f.width

/-- The block with another number in a field, modulo its width. -/
def set (f : Field) (value : Int) (block : Bytes) : Bytes :=
  Bytes.splice block f.offset (f.offset + f.width)
    (Bytes.ofNumber f.width (value % (256 ^ f.width : Nat)).toNat)

/-- Fields that follow each other without gaps. -/
def sequence : Nat → List (String × Nat) → List Field
  | _, [] => []
  | offset, (name, width) :: rest => ⟨name, offset, width⟩ :: sequence (offset + width) rest

/-- Setting a field inside a block keeps the length of the block. -/
theorem length_set {f : Field} {block : Bytes} (h : f.offset + f.width ≤ block.length)
    (value : Int) : (f.set value block).length = block.length :=
  Bytes.length_splice h (Nat.le_add_right _ _) (by simp)

/-- A field that was set holds the number, as far as its width goes. -/
theorem get_set {f : Field} {block : Bytes} (h : f.offset + f.width ≤ block.length)
    (value : Int) : f.get (f.set value block) = (value % (256 ^ f.width : Nat)).toNat := by
  have ht : (block.take f.offset).length = f.offset := by
    rw [List.length_take]
    omega
  have hp : (0 : Int) < (256 ^ f.width : Nat) := by
    exact_mod_cast Nat.pow_pos (by decide : 0 < 256)
  have hm := Int.emod_lt_of_pos value hp
  have hn := Int.emod_nonneg value (Int.ne_of_gt hp)
  simp only [get, set, Bytes.field, Bytes.slice, Bytes.splice, List.append_assoc]
  rw [List.drop_append_of_le_length (by omega), List.drop_eq_nil_of_le (by omega),
    List.nil_append, List.take_append_of_le_length (by simp),
    List.take_of_length_le (by simp), Bytes.number_ofNumber, Nat.mod_eq_of_lt (by omega)]

end Field

end CilRestore
