import CilRestore.Module.Rows

/-!
# Methods by RVA

The methods of a module by the RVA of their body. Methods without a body share the RVA 0 and are not
found by it. An RVA that several rows have names none of them.
-/

namespace CilRestore

/-- A row of the table of methods as it stands in the file. -/
structure MethodTableRow where
  /-- The RVA of the body. -/
  rva : Int
  /-- The position of the row, counted from 0. -/
  position : Int
  /-- The table that the row belongs to. -/
  table : Int := RowKind.methodDef.table
  deriving DecidableEq, Repr

namespace MethodTableRow

/-- The token that names a row. -/
def token (r : MethodTableRow) : Except Fault Token := Token.ofPosition r.table r.position

/-- A row as messages show it. -/
def describe (r : MethodTableRow) : String :=
  "MethodTableRow(rva=" ++ Text.hex r.rva ++ ", position=" ++ toString r.position ++ ")"

end MethodTableRow

/-- The rows of the table of methods. -/
def ModuleRows.methodTable (m : ModuleRows) : List MethodTableRow :=
  (List.range m.methods.size).map fun position => { rva := m.rva (position + 1), position }

/-- Rows by the RVA of their body: of each RVA the rows in table order. -/
structure MethodIndex where
  /-- The RVAs in the order of their first rows. -/
  entries : List (Int × List MethodTableRow)
  deriving DecidableEq, Repr

namespace MethodIndex

/-- Put a row behind those of the same RVA. -/
def insert (row : MethodTableRow) :
    List (Int × List MethodTableRow) → List (Int × List MethodTableRow)
  | [] => [(row.rva, [row])]
  | (rva, rows) :: rest =>
    if rva = row.rva then (rva, rows ++ [row]) :: rest else (rva, rows) :: insert row rest

/-- Put a row into the entries, unless it has no body. -/
def add (entries : List (Int × List MethodTableRow)) (row : MethodTableRow) :
    List (Int × List MethodTableRow) :=
  if row.rva = 0 then entries else insert row entries

/-- The index of rows; those without a body are left out. -/
def ofRows (rows : List MethodTableRow) : MethodIndex := ⟨rows.foldl add []⟩

/-- The rows of an RVA, in table order. -/
def find (index : MethodIndex) (rva : Int) : List MethodTableRow :=
  match index.entries.find? fun entry => entry.1 = rva with
  | some entry => entry.2
  | none => []

/-- The method whose body lies at an RVA; `lookUp` is what tokens name. -/
def resolve (index : MethodIndex) (lookUp : Token → Option RowId) (rva : Int) :
    Except Fault (Option RowId) :=
  if rva < 0 then .ok none
  else
    match index.find rva with
    | [] => .ok none
    | [row] => do
      let token ← row.token
      match lookUp token with
      | some found => return if found.kind = .methodDef then some found else none
      | none => return none
    | rows => .error (.ambiguousMethod rva rows.length)

end MethodIndex

end CilRestore
