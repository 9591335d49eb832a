import CilRestore.Fault

/-!
# Metadata tokens

A token names a row of a table: the table in the high byte and the row, counted from 1, in the low
three bytes. The row always fits; the table of a token built by hand may be any number.
-/

namespace CilRestore

-- Powers of numbers are those of the core library, whatever else is imported.
attribute [local instance (high)] instPowNat

/-- The names of the tables that messages know. -/
def tableNames : List (Nat × String) :=
  [(0x00, "Module"), (0x01, "TypeRef"), (0x02, "TypeDef"), (0x03, "FieldPtr"), (0x04, "Field"),
    (0x05, "MethodPtr"), (0x06, "MethodDef"), (0x08, "Param"), (0x0A, "MemberRef"),
    (0x11, "StandAloneSig"), (0x1A, "ModuleRef"), (0x1B, "TypeSpec"), (0x23, "AssemblyRef"),
    (0x2B, "MethodSpec"), (0x70, "UserString")]

/-- The table number under which user strings appear in tokens. -/
def userStringTable : Nat := 0x70

/-- The name of a table, its number where it has none. -/
def tableName (table : Int) : String :=
  match tableNames.find? fun entry => (entry.1 : Int) = table with
  | some entry => entry.2
  | none => Text.hex table

/-- A metadata token. -/
structure Token where
  /-- The table. -/
  table : Int
  /-- The row, counted from 1; 0 names no row. -/
  row : Nat
  /-- The row fits three bytes. -/
  row_lt : row < 2 ^ (24 : Nat)
  deriving DecidableEq

namespace Token

/-- The token of a table and a row, refused when the row does not fit. -/
def make (table row : Int) : Except Fault Token :=
  if h : 0 ≤ row ∧ row < 2 ^ (24 : Nat) then
    .ok ⟨table, row.toNat, by omega⟩
  else .error (.invalidToken (tableName table) row)

/-- The token that a number spells; bits above the fourth byte are ignored. -/
def ofValue (value : Int) : Token :=
  ⟨value / 2 ^ (24 : Nat) % 256, (value % 2 ^ (24 : Nat)).toNat, by omega⟩

/-- The token of a position counted from 0. -/
def ofPosition (table position : Int) : Except Fault Token := make table (position + 1)

/-- The number that spells a token. -/
def value (t : Token) : Int := t.table * 2 ^ (24 : Nat) + t.row

/-- A token as messages show it. -/
def describe (t : Token) : String :=
  "MetadataToken(" ++ tableName t.table ++ ", " ++ toString t.row ++ ")"

end Token

/-- The kinds of rows that a module gives access to. -/
inductive RowKind where
  /-- A type of another module. -/
  | typeRef
  /-- A type of this module. -/
  | typeDef
  /-- A field of this module. -/
  | field
  /-- A method of this module. -/
  | methodDef
  /-- A member of another module or of a constructed type. -/
  | memberRef
  /-- A signature on its own. -/
  | standAloneSig
  /-- A constructed type. -/
  | typeSpec
  /-- An instance of a generic method. -/
  | methodSpec
  deriving DecidableEq, Repr

namespace RowKind

/-- Every kind, by table number. -/
def all : List RowKind :=
  [.typeRef, .typeDef, .field, .methodDef, .memberRef, .standAloneSig, .typeSpec, .methodSpec]

/-- The number of the table that holds rows of a kind. -/
def table : RowKind → Nat
  | .typeRef => 0x01
  | .typeDef => 0x02
  | .field => 0x04
  | .methodDef => 0x06
  | .memberRef => 0x0A
  | .standAloneSig => 0x11
  | .typeSpec => 0x1B
  | .methodSpec => 0x2B

/-- The name of the table that holds rows of a kind. -/
def tableName : RowKind → String
  | .typeRef => "TypeRef"
  | .typeDef => "TypeDef"
  | .field => "Field"
  | .methodDef => "MethodDef"
  | .memberRef => "MemberRef"
  | .standAloneSig => "StandAloneSig"
  | .typeSpec => "TypeSpec"
  | .methodSpec => "MethodSpec"

/-- What a row of a kind calls itself. -/
def label : RowKind → String
  | .field => "FieldDef"
  | kind => kind.tableName

/-- The kind of rows that a table holds. -/
def ofTable? (table : Int) : Option RowKind := all.find? fun kind => (kind.table : Int) = table

/-- The kind of rows that the table of this name holds. -/
def ofName? (name : String) : Option RowKind := all.find? fun kind => kind.tableName = name

end RowKind

end CilRestore
