import CilRestore.Instruction.Decode
import CilRestore.Metadata.Schema
import CilRestore.Text.Unicode

/-!
# The rows of a module

The rows that operands can name, and what follows from the rows alone: names, parents and
signatures. A coded index names a row of another table, so a name can go through several rows; the
chain is as long as there are rows at most, and a longer one would go in circles.
-/

namespace CilRestore

-- Powers and sums of numbers are those of the core library, whatever else is imported.
attribute [local instance (high)] instPowNat Zero.ofOfNat0

/-- A name as a row holds it. -/
inductive NameCell where
  /-- No name. -/
  | absent
  /-- A text. -/
  | text (value : String)
  /-- The bytes of a text. -/
  | encoded (bytes : Bytes)
  deriving DecidableEq, Repr

/-- The text of a name; ill-formed bytes are replaced. -/
def NameCell.value : NameCell → String
  | .absent => ""
  | .text value => value
  | .encoded bytes => Text.Utf8.decodeLossy bytes

/-- A signature as a row holds it. -/
abbrev BlobCell := Option Bytes

/-- The bytes of a signature, none where the row holds none. -/
def BlobCell.value (cell : BlobCell) : Bytes := cell.getD []

/-- A row of one of several tables; without a table it names nothing. -/
structure CodedRow where
  /-- The table. -/
  table : Option Int
  /-- The row, counted from 1. -/
  row : Int
  deriving DecidableEq, Repr

/-- A type of another module. -/
structure TypeRefRow where
  /-- The namespace. -/
  space : NameCell
  /-- The name in the namespace. -/
  name : NameCell
  deriving DecidableEq, Repr

/-- A type. -/
structure TypeDefRow where
  /-- The namespace. -/
  space : NameCell
  /-- The name in the namespace. -/
  name : NameCell
  /-- The rows of its methods. -/
  methods : Option (List Int)
  /-- The rows of its fields. -/
  fields : Option (List Int)
  deriving DecidableEq, Repr

/-- A method. -/
structure MethodRow where
  /-- The name. -/
  name : NameCell
  /-- The RVA of its body. -/
  rva : Option Int
  /-- The signature. -/
  signature : BlobCell
  deriving DecidableEq, Repr

/-- A member of another module or of a constructed type. -/
structure MemberRefRow where
  /-- What it is a member of. -/
  parent : Option CodedRow
  /-- The name. -/
  name : NameCell
  /-- The signature. -/
  signature : BlobCell
  deriving DecidableEq, Repr

/-- The rows of a module. -/
structure ModuleRows where
  /-- The types of other modules. -/
  typeRefs : Array TypeRefRow := #[]
  /-- The types. -/
  typeDefs : Array TypeDefRow := #[]
  /-- The names of the fields. -/
  fields : Array NameCell := #[]
  /-- The methods. -/
  methods : Array MethodRow := #[]
  /-- The members of other modules and constructed types. -/
  memberRefs : Array MemberRefRow := #[]
  /-- The signatures on their own. -/
  signatures : Array BlobCell := #[]
  /-- The signatures of constructed types. -/
  typeSpecs : Array BlobCell := #[]
  /-- What the instances of generic methods are instances of. -/
  methodSpecs : Array (Option CodedRow) := #[]
  deriving DecidableEq, Repr

/-- A row by its kind and number, counted from 1. -/
structure RowId where
  /-- The kind of row. -/
  kind : RowKind
  /-- The row, counted from 1. -/
  rid : Nat
  deriving DecidableEq, Repr

namespace RowId

/-- The number of the token that names a row. -/
def tokenValue (r : RowId) : Int := r.kind.table * 2 ^ (24 : Nat) + r.rid

/-- The token that names a row, which the row has to fit. -/
def token (r : RowId) : Except Fault Token := Token.make r.kind.table r.rid

end RowId

namespace ModuleRows

/-- The number of rows of a kind. -/
def count (m : ModuleRows) : RowKind → Nat
  | .typeRef => m.typeRefs.size
  | .typeDef => m.typeDefs.size
  | .field => m.fields.size
  | .methodDef => m.methods.size
  | .memberRef => m.memberRefs.size
  | .standAloneSig => m.signatures.size
  | .typeSpec => m.typeSpecs.size
  | .methodSpec => m.methodSpecs.size

/-- A row, when there is one of this number. -/
def row? (m : ModuleRows) (kind : RowKind) (rid : Int) : Option RowId :=
  if 0 < rid ∧ rid ≤ m.count kind then some ⟨kind, rid.toNat⟩ else none

/-- The rows of a kind, in table order. -/
def rowsOf (m : ModuleRows) (kind : RowKind) : List RowId :=
  (List.range (m.count kind)).map fun position => ⟨kind, position + 1⟩

/-- The row of a table, when the table is one of those that give access to rows. -/
def rowOfTable? (m : ModuleRows) (table rid : Int) : Option RowId :=
  (RowKind.ofTable? table).bind fun kind => m.row? kind rid

/-- The row that a token names. -/
def resolve? (m : ModuleRows) (t : Token) : Option RowId := m.rowOfTable? t.table t.row

/-- The row that a coded index names. -/
def resolveCoded? (m : ModuleRows) (coded : Option CodedRow) : Option RowId :=
  coded.bind fun c => c.table.bind fun table => m.rowOfTable? table c.row

/-- The type that owns a row, by what types own; of several owners the last one counts. -/
def owner? (m : ModuleRows) (owned : TypeDefRow → Option (List Int)) (rid : Nat) :
    Option RowId :=
  ((m.typeDefs.toList.zipIdx.reverse.find? fun entry =>
    ((owned entry.1).getD []).contains (rid : Int))).map fun entry =>
      ⟨.typeDef, entry.2 + 1⟩

/-- The rows that a row owns; only types own any. -/
def owned (m : ModuleRows) (column : TypeDefRow → Option (List Int)) (r : RowId) : List Int :=
  match r.kind with
  | .typeDef => (m.typeDefs[r.rid - 1]?.bind column).getD []
  | _ => []

/-- What a row belongs to: the type of a field or a method, or what a member reference names. -/
def parent? (m : ModuleRows) (r : RowId) : Option RowId :=
  match r.kind with
  | .field => m.owner? TypeDefRow.fields r.rid
  | .methodDef => m.owner? TypeDefRow.methods r.rid
  | .memberRef => m.memberRefs[r.rid - 1]?.bind fun row => m.resolveCoded? row.parent
  | _ => none

/-- The method that an instance of a generic method is an instance of. -/
def generic? (m : ModuleRows) (r : RowId) : Option RowId :=
  match r.kind with
  | .methodSpec => m.methodSpecs[r.rid - 1]?.bind m.resolveCoded?
  | _ => none

/-- The number of all rows. -/
def total (m : ModuleRows) : Nat := (RowKind.all.map m.count).sum

/-- The namespace of a type. -/
def space (m : ModuleRows) (r : RowId) : String :=
  match r.kind with
  | .typeRef => (m.typeRefs[r.rid - 1]?.map fun row => row.space.value).getD ""
  | .typeDef => (m.typeDefs[r.rid - 1]?.map fun row => row.space.value).getD ""
  | _ => ""

/-- A row without a name of its own is called after its kind and number. -/
def numbered (r : RowId) : String := r.kind.label ++ "_" ++ toString r.rid

/-- The name of a row, through at most `fuel` other rows. -/
def nameWithin (m : ModuleRows) : Nat → RowId → Except Fault String
  | fuel, r =>
    match r.kind with
    | .typeRef => .ok ((m.typeRefs[r.rid - 1]?.map fun row => row.name.value).getD "")
    | .typeDef => .ok ((m.typeDefs[r.rid - 1]?.map fun row => row.name.value).getD "")
    | .field => .ok ((m.fields[r.rid - 1]?.map NameCell.value).getD "")
    | .methodDef => .ok ((m.methods[r.rid - 1]?.map fun row => row.name.value).getD "")
    | .memberRef => .ok ((m.memberRefs[r.rid - 1]?.map fun row => row.name.value).getD "")
    | .standAloneSig | .typeSpec => .ok (numbered r)
    | .methodSpec =>
      match m.generic? r, fuel with
      | none, _ => .ok (numbered r)
      | some _, 0 => .error .endless
      | some method, fuel + 1 => nameWithin m fuel method

/-- The name of a row. -/
def name (m : ModuleRows) (r : RowId) : Except Fault String := m.nameWithin m.total r

/-- The name of a row that is not named through another one. -/
def ownName (m : ModuleRows) (r : RowId) : String := (m.nameWithin 0 r).toOption.getD ""

/-- The full name of a type. -/
def typeName (m : ModuleRows) (r : RowId) : String :=
  let space := m.space r
  if space = "" then m.ownName r else space ++ "." ++ m.ownName r

/-- The full name of a field or a method, which goes through the type that owns it. -/
def memberName (m : ModuleRows) (r : RowId) : String :=
  match m.parent? r with
  | none => m.ownName r
  | some parent => m.typeName parent ++ "." ++ m.ownName r

/-- The full name of a method. -/
def methodName (m : ModuleRows) (rid : Nat) : String := m.memberName ⟨.methodDef, rid⟩

/-- The full name of a row, through at most `fuel` other rows. -/
def fullNameWithin (m : ModuleRows) : Nat → RowId → Except Fault String
  | 0, _ => .error .endless
  | fuel + 1, r =>
    match r.kind with
    | .typeRef | .typeDef => .ok (m.typeName r)
    | .field | .methodDef => .ok (m.memberName r)
    | .memberRef =>
      match m.parent? r with
      | none => .ok (m.ownName r)
      | some parent => (· ++ "::" ++ m.ownName r) <$> fullNameWithin m fuel parent
    | .standAloneSig | .typeSpec => .ok (m.ownName r)
    | .methodSpec =>
      match m.generic? r with
      | none => m.name r
      | some method => fullNameWithin m fuel method

/-- The full name of a row. A row that is named through itself has none. -/
def fullName (m : ModuleRows) (r : RowId) : Except Fault String :=
  m.fullNameWithin (m.total + 1) r

/-- The bytes of the signature of a row, for the kinds of rows that have one. -/
def signatureBytes? (m : ModuleRows) (r : RowId) : Option Bytes :=
  match r.kind with
  | .methodDef => m.methods[r.rid - 1]?.map fun row => BlobCell.value row.signature
  | .memberRef => m.memberRefs[r.rid - 1]?.map fun row => BlobCell.value row.signature
  | .standAloneSig => m.signatures[r.rid - 1]?.map BlobCell.value
  | .typeSpec => m.typeSpecs[r.rid - 1]?.map BlobCell.value
  | _ => none

/-- The method signature of a row, through at most `fuel` other rows. Types and fields have none. -/
def methodSignatureWithin (m : ModuleRows) : Nat → RowId → Except Fault MethodSignature
  | fuel, r =>
    match r.kind with
    | .methodDef | .memberRef | .standAloneSig =>
      MethodSignature.parse ((m.signatureBytes? r).getD [])
    | .methodSpec =>
      match m.generic? r, fuel with
      | none, _ => .error MethodSignature.malformed
      | some _, 0 => .error .endless
      | some method, fuel + 1 => methodSignatureWithin m fuel method
    | _ => .error .missingMember

/-- The method signature of a row. -/
def methodSignature (m : ModuleRows) (r : RowId) : Except Fault MethodSignature :=
  m.methodSignatureWithin m.total r

/-- The RVA of the body of a method, 0 where it has none. -/
def rva (m : ModuleRows) (rid : Nat) : Int := (m.methods[rid - 1]?.bind MethodRow.rva).getD 0

/-- The method behind a row. -/
def callee (m : ModuleRows) (r : RowId) : Callee :=
  match m.methodSignature r with
  | .ok signature => .known signature
  | .error .endless => .circular
  | .error _ => .unknown

/-- A row as an operand names it. -/
def named (m : ModuleRows) (r : RowId) : NamedRow where
  kind := r.kind
  rid := r.rid
  fullName := (m.fullName r).toOption
  callee := m.callee r

/-- A row as messages show it. -/
def describe (m : ModuleRows) (r : RowId) : Except Fault String :=
  (fun name => "<" ++ r.kind.label ++ " " ++ Text.hex r.tokenValue ++ " " ++ name ++ ">") <$>
    m.fullName r

/-- Whether a column of a row is filled. Types are named by their own columns. -/
def hasCell (m : ModuleRows) (r : RowId) (column : String) : Except Fault Bool :=
  let filled (cell : NameCell) : Bool := cell ≠ .absent
  let position := r.rid - 1
  let known : Option (Option Bool) :=
    match r.kind, column with
    | .typeRef, "TypeName" => some (m.typeRefs[position]?.map fun row => filled row.name)
    | .typeRef, "TypeNamespace" => some (m.typeRefs[position]?.map fun row => filled row.space)
    | .typeDef, "TypeName" => some (m.typeDefs[position]?.map fun row => filled row.name)
    | .typeDef, "TypeNamespace" => some (m.typeDefs[position]?.map fun row => filled row.space)
    | .typeDef, "MethodList" => some (m.typeDefs[position]?.map fun row => row.methods.isSome)
    | .typeDef, "FieldList" => some (m.typeDefs[position]?.map fun row => row.fields.isSome)
    | .field, "Name" => some (m.fields[position]?.map filled)
    | .methodDef, "Name" => some (m.methods[position]?.map fun row => filled row.name)
    | .methodDef, "Rva" => some (m.methods[position]?.map fun row => row.rva.isSome)
    | .methodDef, "Signature" => some (m.methods[position]?.map fun row => row.signature.isSome)
    | .memberRef, "Class" => some (m.memberRefs[position]?.map fun row => row.parent.isSome)
    | .memberRef, "Name" => some (m.memberRefs[position]?.map fun row => filled row.name)
    | .memberRef, "Signature" =>
      some (m.memberRefs[position]?.map fun row => row.signature.isSome)
    | .standAloneSig, "Signature" => some (m.signatures[position]?.map Option.isSome)
    | .typeSpec, "Signature" => some (m.typeSpecs[position]?.map Option.isSome)
    | .methodSpec, "Method" => some (m.methodSpecs[position]?.map Option.isSome)
    | _, _ => none
  match known with
  | some cell => .ok (cell.getD false)
  | none => .error .missingMember

end ModuleRows

end CilRestore
