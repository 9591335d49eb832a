import CilRestore.Compressed

/-!
# Method signatures

Of a method signature only the head is read: calling convention, number of generic parameters,
number of parameters and whether anything is returned. That is what a call does to the stack.
-/

namespace CilRestore

/-- The head of a method signature. -/
structure MethodSignature where
  /-- The first byte: kind, and the flags for generic, instance and explicit instance methods. -/
  convention : UInt8
  /-- The number of generic parameters. -/
  genericCount : Nat
  /-- The number of parameters. -/
  paramCount : Nat
  /-- Whether the method returns nothing. -/
  returnsVoid : Bool
  deriving DecidableEq, Repr

namespace MethodSignature

/-- The fault of bytes that are no method signature. -/
def malformed : Fault := .invalidSignature "method"

/-- Whether an instance comes with the call. -/
def hasThis (s : MethodSignature) : Bool := s.convention &&& 0x20 != 0

/-- Whether the instance is among the parameters. -/
def hasExplicitThis (s : MethodSignature) : Bool := s.convention &&& 0x40 != 0

/-- Whether the method is generic. -/
def isGeneric (s : MethodSignature) : Bool := s.convention &&& 0x10 != 0

/-- The stack slots that a call takes: the parameters and an instance that is not among them. -/
def pops (s : MethodSignature) : Nat :=
  if s.hasThis && !s.hasExplicitThis then s.paramCount + 1 else s.paramCount

/-- The stack slots that a call leaves. -/
def pushes (s : MethodSignature) : Nat := if s.returnsVoid then 0 else 1

/-- A signature as messages show it. -/
def describe (s : MethodSignature) : String :=
  "MethodSignature(conv=" ++ Text.hex s.convention.toNat ++ ", params=" ++ toString s.paramCount ++
    ", void=" ++ (if s.returnsVoid then "True" else "False") ++ ")"

/-- Whether a first byte belongs to a field, a list of local variables or a property. -/
def isOtherKind (convention : UInt8) : Bool :=
  let kind := convention &&& 0x0F
  kind == 0x06 || kind == 0x07 || kind == 0x08

/-- Whether a byte begins a custom modifier. -/
def isModifier (b : UInt8) : Bool := b == 0x1F || b == 0x20

/-- Skip custom modifiers, each a byte and a compressed token. -/
def skipModifiers : Bytes → Except Fault Bytes
  | [] => .ok []
  | b :: rest =>
    if isModifier b then
      match Compressed.read rest with
      | .error e => .error e
      | .ok (_, size) => skipModifiers (rest.drop size)
    else .ok (b :: rest)
termination_by bs => bs.length
decreasing_by simp only [List.length_drop, List.length_cons]; omega

/-- Read the head of a method signature. -/
def parse : Bytes → Except Fault MethodSignature
  | [] => .error malformed
  | convention :: rest => do
    if isOtherKind convention then throw malformed
    let (genericCount, genericSize) ←
      if convention &&& 0x10 != 0 then Compressed.read rest else pure (0, 0)
    let rest := rest.drop genericSize
    let (paramCount, paramSize) ← Compressed.read rest
    match ← skipModifiers (rest.drop paramSize) with
    | [] => throw malformed
    | returned :: _ => return ⟨convention, genericCount, paramCount, returned == 0x01⟩

end MethodSignature

end CilRestore
