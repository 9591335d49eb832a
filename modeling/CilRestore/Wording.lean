import CilRestore.Item

/-!
# The wording of faults

What a fault of a kind says about items that are given for its parts. An item stands for the part
it is given for: one that is no number cannot be shown as one, and a kind takes as many parts as it
has. `text_eq_message` says that a fault about its own parts says what its message says.
-/

namespace CilRestore

namespace Item

/-- A number in hexadecimal digits. -/
def hex (item : Item) : Except Fault String := Text.hex <$> item.asNumber

/-- The texts of items that may say nothing. -/
def stated (expected actual : Item) : String :=
  (Fault.invalidArguments expected.said? actual.said?).message

end Item

/-- What a fault of a kind says about items. -/
def FaultKind.text : FaultKind → List Item → Except Fault String
  | general, [] => .ok Fault.general.message
  | notDotNet, [] => .ok Fault.notDotNet.message
  | notImplemented, [] => .ok Fault.notImplemented.message
  | unsupported, [] => .ok Fault.unsupported.message
  | invalidArguments, [] => .ok (Item.stated .nothing .nothing)
  | invalidArguments, [expected] => .ok (Item.stated expected .nothing)
  | invalidArguments, [expected, actual] => .ok (Item.stated expected actual)
  | invalidMetadata, [] => .ok (Fault.invalidMetadata "unknown").message
  | invalidMetadata, [reason] => .ok (Fault.invalidMetadata reason.shown).message
  | invalidHeader, [] => .ok (Fault.invalidHeader 0).message
  | invalidHeader, [token] => (fun n => (Fault.invalidHeader n).message) <$> token.asNumber
  | invalidToken, [kind, value] =>
    (fun n => (Fault.invalidToken kind.shown n).message) <$> value.asNumber
  | invalidSignature, [kind] => .ok (Fault.invalidSignature kind.shown).message
  | unknownOpcode, [value] => (fun n => (Fault.unknownOpcode n).message) <$> value.asNumber
  | undecodable, [offset, reason] =>
    (fun n => (Fault.undecodable n reason.shown).message) <$> offset.asNumber
  | methodTooLarge, [] => .ok Fault.methodTooLarge.message
  | ambiguousMethod, [rva, rows] => (Fault.ambiguousText · rows.shown) <$> rva.hex
  | cacheTypeMissing, [typeName] => .ok (Fault.cacheTypeMissing typeName.shown).message
  | cacheFieldMissing, [typeName, fieldName] =>
    .ok (Fault.cacheFieldMissing typeName.shown fieldName.shown).message
  | hostLoad, [path, reason] => .ok (Fault.hostLoad path.shown reason.shown).message
  | reconstruction, [] => .ok (Fault.reconstruction "unknown").message
  | reconstruction, [reason] => .ok (Fault.reconstruction reason.shown).message
  | fileAccess, [path, cause] => .ok (Fault.accessText path.shown cause.shown)
  | _, _ => .error .wrongKind

namespace Fault

/-- What a fault is about, as items. -/
def parts : Fault → List Item
  | invalidArguments expected actual =>
    [(expected.map Item.text).getD .nothing, (actual.map Item.text).getD .nothing]
  | invalidMetadata reason => [.text reason]
  | invalidHeader token => [.integer token]
  | invalidToken kind value => [.text kind, .integer value]
  | invalidSignature kind => [.text kind]
  | unknownOpcode value => [.integer value]
  | undecodable offset reason => [.integer offset, .text reason]
  | ambiguousMethod rva rows => [.integer rva, .integer rows]
  | cacheTypeMissing typeName => [.text typeName]
  | cacheFieldMissing typeName fieldName => [.text typeName, .text fieldName]
  | hostLoad path reason => [.text path, .text reason]
  | reconstruction reason => [.text reason]
  | fileAccess path cause => [.text path.shown, .text cause.message]
  | _ => []

/-- A reported fault says about its parts what its message says. -/
theorem text_eq_message {e : Fault} (h : e.isReported = true) :
    e.kind.text e.parts = .ok e.message := by
  cases e with
  | invalidArguments expected actual => cases expected <;> cases actual <;> rfl
  | overflow | missingKey | badIndex | missingMember | badValue | wrongKind | unencodable
  | endless | unknownTable => exact absurd h (by decide)
  | _ => rfl

end Fault

end CilRestore
