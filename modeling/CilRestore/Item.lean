import CilRestore.Binary.Shortest
import CilRestore.Binary.Whole
import CilRestore.Fault
import CilRestore.Restorer.Result

/-!
# Items

What a caller hands on under a name: nothing, a number, a text, a collection of such, or one of the
two things that only this library makes, a host and the results of restoring. An item is checked
where it is used and not before, so any item may stand anywhere: a name that is no text names
nothing, and a bias that is no number matters only when there is a key to subtract it from.
`same_comm` says that it does not matter which of two items is compared with the other.
-/

namespace CilRestore

/-- An item for deobfuscators. -/
inductive Item where
  /-- The name is known, and nothing is said under it. -/
  | nothing
  /-- A yes or no. -/
  | flag (value : Bool)
  /-- A number. -/
  | integer (value : Int)
  /-- A number with a binary exponent, as its bits. -/
  | real (bits : UInt64)
  /-- A text. -/
  | text (value : String)
  /-- Items in an order. -/
  | list (items : List Item)
  /-- Items by name, in an order. -/
  | record (entries : List (String × Item))
  /-- The host that has the module loaded. -/
  | host
  /-- What became of the entries of a cache. -/
  | results (value : List RestoreResult)
  deriving Inhabited, Repr

namespace Item

/-- Texts between brackets, with commas between them. -/
def enclosed (first last : String) (parts : List String) : String :=
  first ++ ", ".intercalate parts ++ last

mutual

/-- An item inside of another one, as messages show it. -/
def described : Item → String
  | nothing => "None"
  | flag value => if value then "True" else "False"
  | integer value => toString value
  | real bits => Binary.text Binary.operandText Binary.double bits.toNat
  | text value => Text.quoted value
  | list items => enclosed "[" "]" (describedAll items)
  | record entries => enclosed "\x7b" "\x7d" (describedEntries entries)
  | host => "<host>"
  | results value => enclosed "[" "]" (value.map RestoreResult.describe)

/-- Items as messages show them. -/
def describedAll : List Item → List String
  | [] => []
  | item :: rest => item.described :: describedAll rest

/-- Items with their names as messages show them. -/
def describedEntries : List (String × Item) → List String
  | [] => []
  | (name, item) :: rest =>
    (Text.quoted name ++ ": " ++ item.described) :: describedEntries rest

end

/-- An item as messages show it: a text as it is. -/
def shown : Item → String
  | text value => value
  | item => item.described

/-- What an item says, if it says anything. -/
def said? : Item → Option String
  | nothing => none
  | item => some item.shown

/-- The number that an item counts as: a yes is 1, a no is 0. -/
def number? : Item → Option Int
  | integer value => some value
  | flag value => some (if value then 1 else 0)
  | _ => none

/-- The number that an item has to give. -/
def asNumber (item : Item) : Except Fault Int :=
  match item.number? with
  | some value => .ok value
  | none => .error .wrongKind

/-- What an item shows of its parts: the items of a list, the names of a record, the characters of a
text. Other items have no parts. -/
def lines : Item → Except Fault (List String)
  | list items => .ok (items.map shown)
  | record entries => .ok (entries.map (·.1))
  | text value => .ok (value.toList.map String.singleton)
  | results value => .ok (value.map RestoreResult.line)
  | _ => .error .wrongKind

/-- The whole number that an item is, however it is written. -/
def whole? : Item → Option Int
  | real bits => Binary.double.toInteger? bits.toNat
  | item => item.number?

/-- The bits of a number with a binary exponent; what is no number has none. -/
def bits? : Item → Option UInt64
  | real bits =>
    match Binary.double.decode bits.toNat with
    | .nan _ _ => none
    | _ => some bits
  | _ => none

/-- Whether an item counts as a yes: a number other than zero, and whatever has parts. -/
def holds : Item → Bool
  | nothing => false
  | flag value => value
  | integer value => value ≠ 0
  | real bits => (real bits).whole? ≠ some 0
  | text value => value ≠ ""
  | list items => !items.isEmpty
  | record entries => !entries.isEmpty
  | host => true
  | results value => !value.isEmpty

/-- Whether both options hold the same. -/
def agree {α : Type} [DecidableEq α] (a b : Option α) : Bool := a.isSome && a = b

/-- It does not matter which of two values is given first. -/
theorem agree_comm {α : Type} [DecidableEq α] (a b : Option α) : agree a b = agree b a := by
  cases a <;> cases b <;> simp [agree, eq_comm]

/-- Whether two names are the same: texts by their characters, numbers by their value, whatever kind
of number they are, and nothing only as nothing. Collections name nothing. -/
def same : Item → Item → Bool
  | nothing, nothing => true
  | text a, text b => a = b
  | a, b => agree a.whole? b.whole? || agree a.bits? b.bits?

/-- Comparing does not depend on which item comes first. -/
theorem same_comm (a b : Item) : a.same b = b.same a := by
  cases a <;> cases b <;> simp [same, eq_comm] <;> rw [agree_comm, agree_comm (bits? _)]

end Item

end CilRestore
