import CilRestore.Body.Basic
import CilRestore.Image.Patch
import CilRestore.Metadata.Tables
import CilRestore.Module.Resolver

/-!
# Modules

A module is the rows of a file together with its bytes, and the bodies of its methods as far as they
were looked at. A body is read from the file when it is first asked for, and stays with its method
from then on: what is installed in it is what the file is rebuilt with.
-/

namespace CilRestore

/-- Where the bytes of a module belong. -/
inductive ModuleSource where
  /-- The rows were given, with the RVA of the first byte and the user strings by index. -/
  | rows (imageRva : Int) (strings : List (Int × String))
  /-- The rows were read from the tables of an executable. Whatever loaded it is asked where an RVA
  leads in the file, and its answer depends on nothing but the RVA. -/
  | image (layout : MetadataLayout) (leads : Int → Option Int) (tables : MetadataTables)

/-- A module. -/
structure Module where
  /-- The rows. -/
  rows : ModuleRows
  /-- The bytes of the file. -/
  image : Bytes
  /-- Where the bytes belong. -/
  source : ModuleSource
  /-- The path that the file was read from. -/
  path : Option String := none
  /-- The bodies of methods, as far as they were looked at, by position. -/
  bodies : Array (Option MethodBody)

namespace Module

/-- A module of which no body was looked at. -/
def ofRows (rows : ModuleRows) (image : Bytes) (source : ModuleSource) (path : Option String) :
    Module :=
  { rows, image, source, path, bodies := Array.replicate rows.methods.size none }

/-- No body of the module was looked at. -/
def IsFresh (m : Module) : Prop := m.bodies = Array.replicate m.rows.methods.size none

/-- There is room for the body of each method. -/
theorem IsFresh.size {m : Module} (h : m.IsFresh) : m.bodies.size = m.rows.methods.size :=
  (congrArg Array.size h).trans Array.size_replicate

/-- The user string at an index. -/
def userString? (m : Module) (index : Int) : Option String :=
  match m.source with
  | .rows _ strings => (strings.find? fun entry => entry.1 = index).map (·.2)
  | .image layout _ _ => layout.userString? m.image index

/-- What tokens stand for in a module. -/
def scope (m : Module) : Scope where
  row t := (m.rows.resolve? t).map m.rows.named
  userString index := m.userString? index

/-- The file offset of an RVA. -/
def offsetOf? (m : Module) (rva : Int) : Option Int :=
  match m.source with
  | .rows imageRva _ =>
    let offset := rva - imageRva
    if 0 ≤ offset ∧ offset < m.image.length then some offset else none
  | .image _ leads _ => leads rva

/-- Whether a column of a row is filled. Rows of a file have all columns of their table. -/
def hasCell (m : Module) (r : RowId) (column : String) : Except Fault Bool :=
  match m.source with
  | .rows _ _ => m.rows.hasCell r column
  | .image _ _ tables => tables.hasCell r.kind.table r.rid column

/-- The body of a method, if it was looked at. -/
def knownBody? (m : Module) (rid : Nat) : Option MethodBody :=
  if rid = 0 then none else (m.bodies[rid - 1]?).join

/-- Keep a body with its method. -/
def keepBody (m : Module) (rid : Nat) (b : MethodBody) : Module :=
  { m with bodies := m.bodies.setIfInBounds (rid - 1) (some b) }

/-- Read the body of a method from the file. -/
def readStub (m : Module) (rid : Nat) : Except Fault Stub :=
  Stub.parse m.image (m.offsetOf? (m.rows.rva rid)) (RowId.tokenValue ⟨.methodDef, rid⟩)

/-- The line printed for a body with an unreadable header. -/
def unreadableLine (m : Module) (rid : Nat) (e : Fault) : String :=
  "warning: " ++ m.rows.methodName rid ++ " has an unreadable stub header (" ++
    e.message ++ "), using a default header"

/-- The body of a method. A method without a body, or with an unreadable one, gets an empty body
that will be written with a header of its own. -/
def body (rid : Nat) : Action Module MethodBody := do
  let m ← Action.read
  match m.knownBody? rid with
  | some b => return b
  | none =>
    let b ←
      if m.rows.rva rid = 0 then pure {}
      else
        match m.readStub rid with
        | .ok stub => pure { stub := stub }
        | .error e => do
          Action.say (m.unreadableLine rid e)
          pure {}
    Action.update (·.keepBody rid b)
    return b

/-- Run an action on the body of a method. -/
def onBody {α : Type} (rid : Nat) (action : Action MethodBody α) : Action Module α := do
  let b ← body rid
  Action.within (fun _ => b) (fun b m => m.keepBody rid b) action

/-- Whether the instructions of a method were replaced. -/
def isPatched (m : Module) (rid : Nat) : Bool :=
  match m.knownBody? rid with
  | some b => b.isModified
  | none => false

/-- The methods whose instructions were replaced, in table order. -/
def patchedMethods (m : Module) : List Nat :=
  ((List.range m.rows.methods.size).map (· + 1)).filter m.isPatched

/-- Decode code in the scope of the module, on behalf of a method or of none. -/
def decodeFor (m : Module) (rid : Option Nat) (code : Bytes) : Except Fault Pool :=
  let owner :=
    match rid with
    | some rid => m.rows.methodName rid
    | none => "unknown method"
  decode m.scope owner code

/-- Decode the code that a method has in the file. -/
def disassemble (rid : Nat) : Action Module Pool := do
  let b ← body rid
  let m ← Action.read
  Action.ofExcept (m.decodeFor (some rid) b.stub.code)

/-- Replace the instructions of a method. -/
def installCode (rid : Nat) (pool : Pool) (compiled : Option Bytes) : Action Module Unit :=
  onBody rid (Action.update (·.replace pool compiled))

/-- Decode code and replace the instructions of a method by it; `compiled` are the bytes of its
body, where they are known. -/
def installBlob (rid : Nat) (blob : Bytes) (compiled : Option Bytes) :
    Action Module MethodBody := do
  let _ ← body rid
  let pool ← Action.ofExcept ((← Action.read).decodeFor (some rid) blob)
  installCode rid pool compiled
  body rid

/-- The file offset of the RVA of a method, by the position of its row. -/
def rvaCell (m : Module) (position : Int) : Except Fault Int :=
  match m.source with
  | .rows _ _ => .error .notDotNet
  | .image layout _ _ => layout.rvaCell position

/-- Compile the bodies of methods. -/
def compileAll : List Nat → List BodyPatch → Action Module (List BodyPatch)
  | [], done => pure done.reverse
  | rid :: rest, done => do
    let compiled ← onBody rid MethodBody.compile
    let m ← Action.read
    let stubSize := ((m.knownBody? rid).map fun b => b.stub.totalSize).getD 0
    compileAll rest (⟨rid, m.rows.rva rid, stubSize, compiled⟩ :: done)

/-- The compiled bodies of the methods whose instructions were replaced. -/
def patches : Action Module (List BodyPatch) := do
  let m ← Action.read
  compileAll m.patchedMethods []

/-- The file with the bodies of all methods whose instructions were replaced. -/
def rebuild : Action Module Bytes := do
  let bodies ← patches
  let m ← Action.read
  if bodies.isEmpty then return m.image
  BodyPatch.apply m.rvaCell m.image bodies

end Module

end CilRestore
