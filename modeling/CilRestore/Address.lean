import CilRestore.Text.Hex

/-!
# Runtime addresses

The cache of a protected module is keyed by addresses inside the loaded image: module base plus RVA
plus a bias that belongs to the version of the protection. `rva_ofRva` says that the two conversions
are inverse.
-/

namespace CilRestore

/-- The bias observed in the protection this library knows. -/
def defaultBias : Int := 1

/-- A cache key seen against the base of the module it belongs to. -/
structure RuntimeAddress where
  /-- The key. -/
  key : Int
  /-- Where the module is loaded. -/
  base : Int
  /-- What separates a key from base plus RVA. -/
  bias : Int

namespace RuntimeAddress

/-- The address of the body at an RVA. -/
def ofRva (rva base bias : Int) : RuntimeAddress := ⟨base + rva + bias, base, bias⟩

/-- The RVA that a key stands for. -/
def rva (a : RuntimeAddress) : Int := a.key - a.base - a.bias

/-- Whether the RVA can name a body: no body lies below the module. -/
def isValid (a : RuntimeAddress) : Bool := 0 ≤ a.rva

/-- An address as messages show it. -/
def describe (a : RuntimeAddress) : String :=
  "RuntimeAddress(key=" ++ Text.hex a.key ++ ", base=" ++ Text.hex a.base ++ ", rva=" ++
    Text.hex a.rva ++ ")"

/-- The address of a body leads back to its RVA. -/
@[simp] theorem rva_ofRva (rva base bias : Int) : (ofRva rva base bias).rva = rva := by
  simp only [ofRva, RuntimeAddress.rva]
  omega

end RuntimeAddress

end CilRestore
