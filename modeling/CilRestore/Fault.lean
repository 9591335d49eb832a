import CilRestore.Path
import CilRestore.Text.Hex

/-!
# Faults

Everything that can go wrong, by cause. The first group are the faults that this library reports
on its own terms, each with one wording in `Fault.message`; the second group are misuses of plain
data (a number too large for its field, a key that is not there), which carry no text.
-/

namespace CilRestore

/-- Why a file could not be read or written. -/
inductive FileFault where
  /-- Nothing has this path. -/
  | notFound (path : GivenPath)
  /-- The path names a directory. -/
  | isDirectory (path : GivenPath)
  /-- A part of the path that has to be a directory is a file. -/
  | notDirectory (path : GivenPath)
  /-- Something has this path already. -/
  | alreadyThere (path : GivenPath)
  /-- The path, or a part of it, is longer than names can be. -/
  | nameTooLong (path : GivenPath)
  /-- The path names a folder by its place and not by its name. -/
  | busy (path : GivenPath)
  /-- Any other cause, in words. -/
  | other (text : String)
  deriving DecidableEq, Repr

/-- The wording of a file fault. -/
def FileFault.message : FileFault → String
  | .notFound path => "[Errno 2] No such file or directory: " ++ path.quoted
  | .isDirectory path => "[Errno 21] Is a directory: " ++ path.quoted
  | .notDirectory path => "[Errno 20] Not a directory: " ++ path.quoted
  | .alreadyThere path => "[Errno 17] File exists: " ++ path.quoted
  | .nameTooLong path => "[Errno 36] File name too long: " ++ path.quoted
  | .busy path => "[Errno 16] Device or resource busy: " ++ path.quoted
  | .other text => text

/-- What went wrong. -/
inductive Fault where
  /-- A failure without a cause of its own. -/
  | general
  /-- The file is no .NET file. -/
  | notDotNet
  /-- The operation is only declared. -/
  | notImplemented
  /-- The operation is not allowed here. -/
  | unsupported
  /-- An argument is not what was expected. -/
  | invalidArguments (expected actual : Option String)
  /-- The metadata cannot be processed. -/
  | invalidMetadata (reason : String)
  /-- The body header of the method with this token cannot be processed. -/
  | invalidHeader (token : Int)
  /-- A row number that no token can hold. -/
  | invalidToken (kind : String) (value : Int)
  /-- A signature of this kind cannot be read. -/
  | invalidSignature (kind : String)
  /-- No opcode has this value. -/
  | unknownOpcode (value : Int)
  /-- The instruction at this offset cannot be decoded. -/
  | undecodable (offset : Int) (reason : String)
  /-- The method needs a deeper stack than a header can hold. -/
  | methodTooLarge
  /-- Several methods have this RVA. -/
  | ambiguousMethod (rva rows : Int)
  /-- The loaded assembly has no such type. -/
  | cacheTypeMissing (typeName : String)
  /-- The type has no such field. -/
  | cacheFieldMissing (typeName fieldName : String)
  /-- The host could not load the file. -/
  | hostLoad (path reason : String)
  /-- The file could not be rebuilt. -/
  | reconstruction (reason : String)
  /-- A file could not be read or written. -/
  | fileAccess (path : GivenPath) (cause : FileFault)
  /-- A number does not fit the bytes it is written to. -/
  | overflow
  /-- A key is not in its table. -/
  | missingKey
  /-- A position is outside its list. -/
  | badIndex
  /-- The value has no such column or operation. -/
  | missingMember
  /-- A text or a range has no meaning here. -/
  | badValue
  /-- A value is of the wrong kind. -/
  | wrongKind
  /-- A value has no form in the fields it is written to or read from. -/
  | unencodable
  /-- A chain of references leads back into itself. -/
  | endless
  /-- A file has a table that no reader knows. -/
  | unknownTable
  deriving DecidableEq, Repr

/-- The kinds of faults, without what they are about. -/
inductive FaultKind where
  | general | notDotNet | notImplemented | unsupported | invalidArguments | invalidMetadata
  | invalidHeader | invalidToken | invalidSignature | unknownOpcode | undecodable | methodTooLarge
  | ambiguousMethod | cacheTypeMissing | cacheFieldMissing | hostLoad | reconstruction | fileAccess
  | overflow | missingKey | badIndex | missingMember | badValue | wrongKind | unencodable | endless
  | unknownTable
  deriving DecidableEq, Repr

namespace Fault

/-- The kind of a fault. -/
def kind : Fault → FaultKind
  | general => .general
  | notDotNet => .notDotNet
  | notImplemented => .notImplemented
  | unsupported => .unsupported
  | invalidArguments _ _ => .invalidArguments
  | invalidMetadata _ => .invalidMetadata
  | invalidHeader _ => .invalidHeader
  | invalidToken _ _ => .invalidToken
  | invalidSignature _ => .invalidSignature
  | unknownOpcode _ => .unknownOpcode
  | undecodable _ _ => .undecodable
  | methodTooLarge => .methodTooLarge
  | ambiguousMethod _ _ => .ambiguousMethod
  | cacheTypeMissing _ => .cacheTypeMissing
  | cacheFieldMissing _ _ => .cacheFieldMissing
  | hostLoad _ _ => .hostLoad
  | reconstruction _ => .reconstruction
  | fileAccess _ _ => .fileAccess
  | overflow => .overflow
  | missingKey => .missingKey
  | badIndex => .badIndex
  | missingMember => .missingMember
  | badValue => .badValue
  | wrongKind => .wrongKind
  | unencodable => .unencodable
  | endless => .endless
  | unknownTable => .unknownTable

/-- The wording for an RVA that several rows share. -/
def ambiguousText (rva rows : String) : String :=
  "The RVA " ++ rva ++ " matches " ++ rows ++ " MethodDef rows."

/-- The wording for a file that could not be read or written. -/
def accessText (path cause : String) : String :=
  "Error during IO operation on " ++ path ++ ": " ++ cause

/-- The text for a value that may be missing. -/
def orNone (value : Option String) : String := value.getD "None"

/-- The wording of a fault. -/
def message : Fault → String
  | general => "Generic Dotnetrestore Exception"
  | notDotNet => "The provided file is either corrupted or not a dotnet file."
  | notImplemented => "Attempted to use a functionality that is not yet implemented."
  | unsupported => "The operation attempted is not currently supported."
  | invalidArguments none none => "invalid arguments"
  | invalidArguments expected actual =>
    "Invalid arguments: expected=" ++ orNone expected ++ ", actual=" ++ orNone actual
  | invalidMetadata reason => "Failed to process metadata: " ++ reason
  | invalidHeader token => "Failed to process header. Method Token " ++ Text.hex token
  | invalidToken kind value =>
    "A token with value " ++ Text.hex value ++ " is invalid for type " ++ kind
  | invalidSignature kind => "Attempted to parse an invalid signature of type " ++ kind
  | unknownOpcode value => "Could not find usable opcode " ++ Text.hex value ++ " in NET_OPCODE_DB."
  | undecodable offset reason =>
    "Failed to decode instruction at offset " ++ Text.hex offset ++ ": " ++ reason
  | methodTooLarge => "Method too large to process."
  | ambiguousMethod rva rows => ambiguousText (Text.hex rva) (toString rows)
  | cacheTypeMissing typeName =>
    "The cache type " ++ typeName ++ " does not exist in the loaded assembly."
  | cacheFieldMissing typeName fieldName =>
    "The cache field " ++ fieldName ++ " does not exist on type " ++ typeName ++ "."
  | hostLoad path reason => "Failed to load " ++ path ++ " into the host runtime: " ++ reason
  | reconstruction reason => "Failed to reconstruct executable: " ++ reason
  | fileAccess path cause => accessText path.shown cause.message
  | overflow => "number does not fit its field"
  | missingKey => "no such key"
  | badIndex => "no such position"
  | missingMember => "no such member"
  | badValue => "no such value"
  | wrongKind => "wrong kind of value"
  | unencodable => "value has no such form"
  | endless => "endless chain of references"
  | unknownTable => "unknown table"

end Fault

namespace FaultKind

/-- The kinds of faults that this library reports on its own terms. -/
def reported : List FaultKind :=
  [general, notDotNet, notImplemented, unsupported, invalidArguments, invalidMetadata,
    invalidHeader, invalidToken, invalidSignature, unknownOpcode, undecodable, methodTooLarge,
    ambiguousMethod, cacheTypeMissing, cacheFieldMissing, hostLoad, reconstruction, fileAccess]

end FaultKind

/-- Whether a fault is one this library reports on its own terms, as against a misuse of data. -/
def Fault.isReported (e : Fault) : Bool := FaultKind.reported.contains e.kind

end CilRestore
