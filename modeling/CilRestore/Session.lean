import CilRestore.Deobfuscator.Reactor

/-!
# Sessions

Working on a module step by step: looking at it, replacing bodies, restoring, writing, and reading
the rebuilt file again. A restorer stays with the module that it was made for, also when the session
has gone on to the module that was read again.
-/

namespace CilRestore

/-- A module that is worked on step by step. -/
structure Session where
  /-- The file that the session started with. -/
  opened : Bytes
  /-- The module, its surroundings and what deobfuscators are told. -/
  case : Case
  /-- The restorer. -/
  restorer : Option Restorer := none
  /-- The module of the restorer, where that is no longer the module of the session. -/
  former : Option Module := none

namespace Session

variable {α : Type}

/-- Open a module that was given as rows. -/
def ofModule (m : Module) (directory : Directory) (host : Option RecordedHost) : Session :=
  { opened := m.image, case := { workspace := { module_ := m, directory, host } } }

/-- Open a module that is a file. A file with a name is put into the directory first and read from
there. -/
def openFile (directory : Directory) (name : Option String) (data : Bytes)
    (host : Option RecordedHost) : Except Fault Session :=
  match name with
  | some name =>
    let directory := directory.place name data
    (ofModule · directory host) <$> Workspace.openModule directory (some name)
  | none => (ofModule · directory host) <$> Module.ofBytes data none

/-- An action on the case. -/
def onCase (x : Action Case α) : Action Session α :=
  Action.within Session.case (fun case s => { s with case }) x

/-- An action on the module. -/
def onModule (x : Action Module α) : Action Session α :=
  onCase (Case.onWorkspace (Workspace.onModule x))

/-- The module. -/
def current (s : Session) : Module := s.case.workspace.module_

/-- The method of a row, which has to be there. -/
def method (rid : Int) : Action Session Nat := do
  match (← Action.read).current.rows.row? .methodDef rid with
  | some row => return row.rid
  | none => Action.fail .missingMember

/-- The workspace of the restorer. -/
def restorerWorkspace (s : Session) : Workspace :=
  { s.case.workspace with module_ := s.former.getD s.current }

/-- Take over what a restorer has done. -/
def afterRestorer (both : Restorer × Workspace) (s : Session) : Session :=
  let done := both.2.module_
  let stays := if s.former.isSome then s.current else done
  { s with
    restorer := some both.1
    former := s.former.map fun _ => done
    case := { s.case with workspace := { both.2 with module_ := stays } } }

/-- A step of the restorer, which has to be there. -/
def onRestorer (step : Bench Workspace → Action (Restorer × Workspace) α) : Action Session α := do
  match (← Action.read).restorer with
  | none => Action.fail .missingMember
  | some r =>
    Action.within (fun s => (r, s.restorerWorkspace)) afterRestorer (Workspace.withRestorer step)

/-- Make a restorer for the module. -/
def begin (r : Restorer) : Action Session Unit :=
  Action.update fun s => { s with restorer := some r, former := none }

/-- Go on with the module that the rebuilt file reads as. -/
def reload : Action Session Unit := do
  let data ← onModule Module.rebuild
  let before := (← Action.read).current
  let m ← Action.ofExcept (Module.ofBytes data none)
  onModule (Action.update fun _ => m)
  Action.update fun s =>
    { s with former := s.former <|> (if s.restorer.isSome then some before else none) }

/-- Make a folder. -/
def makeFolder (path : String) : Action Session Unit := do
  let before := (← Action.read).case.workspace.directory
  let directory ← Action.ofExcept (before.makeFolder (.ofString path))
  onCase (Case.onWorkspace (Action.update fun w => { w with directory }))

end Session

end CilRestore
