import CilRestore.Bytes.Basic
import CilRestore.Fault
import CilRestore.Path

/-!
# Files and folders

A tree of files and folders as a value, each by the bytes of its path from the root, and the folder
in it that relative paths start from. A path is followed part by part, so a part that is not there
stops it even where a later one would lead back.

A file is replaced by writing a new one beside it and renaming that over it. The system can fail at
each step of that: it may not tell the folder that relative paths start from, and it may refuse to
create, to write and to rename the new file. Whatever fails once there is a new file, that one is
taken away again, which the system can refuse as well. Nothing takes it away where the path to
rename it to is none that the system can be told of.
-/

namespace CilRestore

/-- Files and folders. -/
structure Directory where
  /-- The files, by their path from the root. -/
  files : List (Bytes × Bytes) := []
  /-- The folders below the root, by their path from it. -/
  folders : List Bytes := []
  /-- The parts of the path of the folder that relative paths start from. -/
  home : List Bytes := []
  deriving DecidableEq, Repr

/-- What a path leads to. -/
inductive Location where
  /-- A file. -/
  | file (name : Bytes)
  /-- A folder. -/
  | folder
  /-- Nothing, in a folder that is there. -/
  | vacant (name : Bytes)
  /-- Nothing, and no folder to put it into. -/
  | nowhere
  /-- Something behind a file. -/
  | behindFile
  /-- A name that is too long for any file. -/
  | tooLong
  deriving DecidableEq, Repr

/-- Where the system fails while a file is replaced. -/
inductive Strike where
  /-- It does not tell the folder that relative paths start from, which may be gone. -/
  | locating
  /-- The new file cannot be created. -/
  | creating
  /-- After this many bytes no more can be written. -/
  | writing (written : Nat)
  /-- The new file cannot be renamed. -/
  | moving
  deriving DecidableEq, Repr

/-- How taking the new file away goes. -/
inductive Cleanup where
  /-- The file goes away. -/
  | works
  /-- The system does not say that the file is there, so nothing is tried. -/
  | unseen
  /-- The system refuses. -/
  | refused
  deriving DecidableEq, Repr

/-- What goes wrong while a file is replaced. -/
structure Mishap where
  /-- Where the system fails, if it does. -/
  strike : Option Strike := none
  /-- How taking the new file away goes, where it comes to that. -/
  cleanup : Cleanup := .works
  deriving DecidableEq, Repr

/-- How replacing a file ends. -/
inductive Ending where
  /-- The file is replaced. -/
  | done
  /-- With a fault. -/
  | failed (e : Fault)
  /-- With what the system says, which nothing makes a fault of. -/
  | escaped (cause : FileFault)
  deriving DecidableEq, Repr

namespace Directory

/-! ### Names -/

/-- The byte between the parts of a path. -/
def slash : UInt8 := 0x2F

/-- The part for a folder itself. -/
def here : Bytes := [0x2E]

/-- The part for the folder above. -/
def up : Bytes := [0x2E, 0x2E]

/-- The names of the folders from the outermost on, as a path. -/
def joined (segments : List Bytes) : Bytes := List.intercalate [slash] segments

/-- A path as its parts. -/
def partsOf (path : Bytes) : List Bytes := path.splitOn slash

/-- The bytes of a name that is a text. -/
def nameOf (s : String) : Bytes := s.toList.flatMap String.utf8EncodeChar

/-- The most bytes that a name takes. -/
def nameLimit : Nat := 255

/-- The least number of bytes that are too many for a path. -/
def pathLimit : Nat := 4096

/-! ### Files -/

/-- The bytes of a file. -/
def contents? (d : Directory) (name : Bytes) : Option Bytes :=
  (d.files.find? fun file => file.1 = name).map (·.2)

/-- The directory without a file. -/
def erase (d : Directory) (name : Bytes) : Directory :=
  { d with files := d.files.filter fun file => file.1 ≠ name }

/-- The directory with a file, new or replaced. -/
def put (d : Directory) (name data : Bytes) : Directory :=
  if (d.contents? name).isSome then
    { d with files := d.files.map fun file => if file.1 = name then (name, data) else file }
  else { d with files := d.files ++ [(name, data)] }

/-- Follow the parts of a path from a folder, given by its parts. Above the root is the root. -/
def follow (d : Directory) : List Bytes → List Bytes → Location
  | _, [] => .folder
  | base, part :: rest =>
    if part = [] || part = here then follow d base rest
    else if part = up then follow d base.dropLast rest
    else if nameLimit < part.length then .tooLong
    else
      let there := base ++ [part]
      let name := joined there
      if d.folders.contains name then follow d there rest
      else if (d.contents? name).isSome then
        if rest.isEmpty then .file name else .behindFile
      else if rest.all (· = []) then .vacant name
      else .nowhere

/-- What a path leads to. -/
def locate (d : Directory) (path : Bytes) : Location :=
  if path = [] then .nowhere
  else if pathLimit ≤ path.length then .tooLong
  else follow d (if path.head? = some slash then [] else d.home) (partsOf path)

/-- Why nothing can be reached by a path that leads to a location where a file is wanted. -/
def unreachable (path : GivenPath) : Location → FileFault
  | .folder => .isDirectory path
  | .behindFile => .notDirectory path
  | .tooLong => .nameTooLong path
  | .file _ | .vacant _ | .nowhere => .notFound path

/-- Read a file. -/
def read (d : Directory) (path : GivenPath) : Except Fault Bytes :=
  match path.bytes? with
  | none => .error .badValue
  | some target =>
    match d.locate target with
    | .file name =>
      match d.contents? name with
      | some data => .ok data
      | none => .error (.fileAccess path (.notFound path))
    | elsewhere => .error (.fileAccess path (unreachable path elsewhere))

/-- The directory with a file at what a path leads to, if a file can be there. -/
def place (d : Directory) (path : String) (data : Bytes) : Directory :=
  match d.locate (nameOf path) with
  | .file name | .vacant name => d.put name data
  | _ => d

/-- Make a folder. -/
def makeFolder (d : Directory) (path : GivenPath) : Except Fault Directory :=
  match path.bytes? with
  | none => .error .badValue
  | some target =>
    match d.locate target with
    | .vacant name => .ok { d with folders := d.folders ++ [name] }
    | .file _ | .folder => .error (.fileAccess path (.alreadyThere path))
    | elsewhere => .error (.fileAccess path (unreachable path elsewhere))

/-- The directory whose relative paths start from a folder that is otherwise empty. -/
def inFolder (home : String) : Directory := { folders := [nameOf home], home := [nameOf home] }

/-- The files that stand in the folder that relative paths start from, by name. -/
def homeFiles (d : Directory) : List (String × Bytes) :=
  d.files.filterMap fun (name, data) =>
    let parts := partsOf name
    match parts.getLast? with
    | some last => if parts.dropLast = d.home then some (Text.Utf8.decodeLossy last, data) else none
    | none => none

/-! ### Replacing files -/

/-- The parts of a path from the root on. -/
def absoluteParts (d : Directory) (path : GivenPath) : List (Option Bytes) :=
  if path.isAbsolute then path.parts else d.home.map some ++ path.parts

/-- The parts of the folder that a path names its file in, by the wording of the path alone. -/
def parentOf (d : Directory) (path : GivenPath) : List (Option Bytes) :=
  (Path.plainParts (some []) (some here) (some up) (d.absoluteParts path) []).dropLast

/-- Whether there is a file or a folder with a name. -/
def taken (d : Directory) (name : Bytes) : Bool :=
  (d.contents? name).isSome || d.folders.contains name

/-- The names in a folder for the file that is written first, by number. -/
def candidate (folder : List Bytes) (n : Nat) : Bytes :=
  joined (folder ++ [nameOf (".restoring-" ++ toString n)])

/-- The name of the file that is written first: the first one that is free in a folder. -/
def temporaryName (d : Directory) (folder : List Bytes) : Nat → Nat → Bytes
  | 0, n => candidate folder n
  | fuel + 1, n =>
    if d.taken (candidate folder n) then temporaryName d folder fuel (n + 1)
    else candidate folder n

/-- The name of the file that is written first, free in its folder: that many names cannot all be
taken. -/
def freshName (d : Directory) (folder : List Bytes) : Bytes :=
  d.temporaryName folder (d.files.length + d.folders.length) 0

/-- The most bytes of the path of a folder in which a file can be made: the name of the new file has
twenty-three bytes, with a slash in front, and there is one in front of the folder. -/
def folderLimit : Nat := pathLimit - 25

/-- What the system says where a device fails. -/
def deviceFault : FileFault := .other "[Errno 5] Input/output error"

/-- Whether a path ends in a place and not in a name: in a folder itself or in what lies above. -/
def endsInPlace (path : Bytes) : Bool :=
  match (partsOf path).reverse.dropWhile (· = []) with
  | [] => true
  | last :: _ => last = here || last = up

/-- Rename a file over what a path leads to. A slash at the end asks for a folder, which a file is
not. -/
def rename (d : Directory) (source : Bytes) (path : GivenPath) (target : Bytes) :
    Except FileFault Directory :=
  let moved (name : Bytes) : Except FileFault Directory :=
    match d.contents? source with
    | some data => .ok ((d.erase source).put name data)
    | none => .error (.notFound path)
  let endsInSlash : Bool := target.getLast? = some slash
  match d.locate target with
  | .file name => moved name
  | .vacant name => if endsInSlash then .error (.notDirectory path) else moved name
  | .folder =>
    if endsInPlace target then .error (.busy path)
    else if endsInSlash then .error (.notDirectory path)
    else .error (.isDirectory path)
  | elsewhere => .error (unreachable path elsewhere)

/-- Why no file can be made in a folder, given by its parts. -/
def obstacle? (d : Directory) (folder : List Bytes) (path : GivenPath) : Option FileFault :=
  if folderLimit ≤ (joined folder).length then some (.nameTooLong path)
  else
    match d.follow [] folder with
    | .folder => none
    | .file _ => some (.notDirectory path)
    | elsewhere => some (unreachable path elsewhere)

/-- Take the new file away after a failure. -/
def discard (d : Directory) (temporary : Bytes) (path : GivenPath) (cause : FileFault) :
    Cleanup → Ending × Directory
  | .works => (.failed (.fileAccess path cause), d.erase temporary)
  | .unseen => (.failed (.fileAccess path cause), d)
  | .refused => (.escaped deviceFault, d)

/-- Replace a file, or make it, by a new file in a folder that is renamed over it. -/
def replaceBeside (d : Directory) (folder : List Bytes) (path : GivenPath) (data : Bytes)
    (mishap : Mishap) : Ending × Directory :=
  let temporary := d.freshName folder
  let written := d.put temporary data
  match mishap.strike with
  | some .creating => (.failed (.fileAccess path deviceFault), d)
  | some (.writing count) =>
    discard (d.put temporary (data.take count)) temporary path deviceFault mishap.cleanup
  | strike =>
    match path.bytes? with
    | none => (.failed .badValue, written)
    | some target =>
      if strike = some .moving then discard written temporary path deviceFault mishap.cleanup
      else
        match written.rename temporary path target with
        | .ok after => (.done, after)
        | .error cause => discard written temporary path cause mishap.cleanup

/-- Replace a file, or make it, by a new file in the same folder; `mishap` is what goes wrong. The
answer is how it ended and the directory after it. Only a relative path needs the folder that it
starts from. -/
def replaceFile (d : Directory) (path : GivenPath) (data : Bytes) (mishap : Mishap) :
    Ending × Directory :=
  if !path.isAbsolute && mishap.strike = some .locating then (.escaped deviceFault, d)
  else
    match (d.parentOf path).mapM id with
    | none => (.failed .badValue, d)
    | some folder =>
      match d.obstacle? folder path with
      | some cause => (.failed (.fileAccess path cause), d)
      | none => d.replaceBeside folder path data mishap

end Directory

end CilRestore
