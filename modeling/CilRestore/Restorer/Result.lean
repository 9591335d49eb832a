import CilRestore.Text.Blank
import CilRestore.Text.Hex

/-!
# Results of restoring

What became of an entry of the cache: which method it belongs to, if any, and whether its code was
put back.
-/

namespace CilRestore

/-- What became of an entry. -/
inductive RestoreStatus where
  /-- The code was put back. -/
  | restored
  /-- No method has the RVA. -/
  | notFound
  /-- Several methods have the RVA. -/
  | ambiguous
  /-- The code is no code, or no body can be made of it. -/
  | decodeError
  /-- Something else, by name. -/
  | other (name : String)
  deriving DecidableEq, Repr

namespace RestoreStatus

/-- The name of a status. -/
def name : RestoreStatus → String
  | restored => "restored"
  | notFound => "not_found"
  | ambiguous => "ambiguous"
  | decodeError => "decode_error"
  | other name => name

/-- The status of a name. -/
def ofName (name : String) : RestoreStatus :=
  match [restored, notFound, ambiguous, decodeError].find? fun s => s.name = name with
  | some status => status
  | none => other name

end RestoreStatus

/-- What became of an entry of the cache. -/
structure RestoreResult where
  /-- The key of the entry. -/
  key : Int
  /-- The RVA that the key stands for. -/
  rva : Int
  /-- What became of it. -/
  status : RestoreStatus
  /-- The full name of the method. -/
  method : Option String := none
  /-- What is to be said about it. -/
  message : String := ""
  deriving DecidableEq, Repr

namespace RestoreResult

/-- Whether the code was put back. -/
def isRestored (r : RestoreResult) : Bool := r.status = .restored

/-- The line printed for a result. -/
def line (r : RestoreResult) : String :=
  let name := r.method.getD "not found"
  if r.isRestored then "[+] " ++ name ++ " (rva " ++ Text.hex r.rva ++ "): restored"
  else
    Text.trimRight ("[-] " ++ name ++ " (key " ++ Text.hex r.key ++ ", rva " ++ Text.hex r.rva ++
      "): " ++ r.status.name ++ " " ++ r.message)

/-- A result as messages show it. -/
def describe (r : RestoreResult) : String := "<RestoreResult " ++ r.line ++ ">"

end RestoreResult

end CilRestore
