import CilRestore.Item

/-!
# The bias of keys

What separates a key from base plus RVA is handed on as an item, and any number will do. One with a
binary exponent is subtracted as such; when the RVA that is left is a whole number, then a whole
bias leaves the same.
-/

namespace CilRestore.Item

/-- Whether a number has a binary exponent. -/
def isReal : Item → Bool
  | real _ => true
  | _ => false

/-- The whole bias that leaves the same RVA as an item does, for a key this far from the base, if
that RVA is a whole number. -/
def biasAt (distance : Int) : Item → Except Fault (Option Int)
  | real bits =>
    match Binary.double.ofInteger? distance with
    | none => .error .overflow
    | some key =>
      .ok (((Binary.double.difference? key bits.toNat).bind Binary.double.toInteger?).map
        (distance - ·))
  | item => some <$> item.asNumber

end CilRestore.Item
