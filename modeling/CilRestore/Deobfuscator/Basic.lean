import CilRestore.Action

/-!
# Deobfuscators

A deobfuscator knows one kind of protection: it says whether it can unpack a module or undo its
obfuscation, and does either. `Deobfuscator.runAll` offers a module to several of them in turn.
-/

namespace CilRestore

/-- What a deobfuscator can do, by actions on the state that it works on. -/
structure Deobfuscator (σ : Type) where
  /-- The name of the protection. -/
  name : String
  /-- Whether the module is packed. -/
  identifyUnpack : Action σ Bool
  /-- Whether the module is obfuscated. -/
  identifyDeobfuscate : Action σ Bool
  /-- Unpack the module. -/
  unpack : Action σ Unit
  /-- Undo the obfuscation, and say whether that came to anything. -/
  deobfuscate : Action σ Bool

namespace Deobfuscator

variable {σ : Type}

/-- The deobfuscator that only declares what deobfuscators do. -/
def declared (name : String) : Deobfuscator σ where
  name := name
  identifyUnpack := .fail .notImplemented
  identifyDeobfuscate := .fail .notImplemented
  unpack := .fail .notImplemented
  deobfuscate := .fail .notImplemented

/-- The deobfuscator whose answers are known in advance, and that says when it is used. -/
def recorded (name : String) (packed obfuscated undoes : Bool) : Deobfuscator σ where
  name := name
  identifyUnpack := pure packed
  identifyDeobfuscate := pure obfuscated
  unpack := Action.say ("unpack " ++ name)
  deobfuscate := do
    Action.say ("deobfuscate " ++ name)
    return undoes

/-- Offer the module to a deobfuscator. A packed module is only unpacked. The answer is whether an
obfuscation was undone. -/
def run (d : Deobfuscator σ) : Action σ Bool := do
  if ← d.identifyUnpack then
    Action.say ("Executable recognized as " ++ d.name ++ " packed executable.")
    d.unpack
    return false
  if ← d.identifyDeobfuscate then
    Action.say ("Executable recognized as " ++ d.name ++ " obfuscated executable.")
    if ← d.deobfuscate then
      Action.say ("Deobfuscation completed for " ++ d.name)
      return true
    Action.say ("Deobfuscation failed for " ++ d.name)
  return false

/-- Offer the module to deobfuscators in turn. The answer is whether any of them undid an
obfuscation. -/
def runAll : List (Deobfuscator σ) → Action σ Bool
  | [] => pure false
  | d :: rest => do
    let first ← d.run
    let others ← runAll rest
    return first || others

end Deobfuscator

end CilRestore
