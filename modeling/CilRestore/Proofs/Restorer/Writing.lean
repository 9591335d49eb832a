import CilRestore.Proofs.Actions
import CilRestore.Proofs.Directory.Replacement
import CilRestore.Restorer.Workspace

/-!
# Writing modules

A module is written by building the file first and then replacing the target by it. So a module
that cannot be built touches no file, and one that can replaces the target altogether or leaves the
directory as it was, wherever the system fails, as long as the new file can be taken away again
(`Workspace.writeStruck_replacing`). A path with a zero character is the exception: it is no name,
which is noticed only when the new file is there, and nothing takes that away
(`Workspace.writeStruck_leaves_file`).
-/

namespace CilRestore.Workspace

variable {w : Workspace} {mishap : Mishap} {path : GivenPath} {data : Bytes}

/-- Building a module works on nothing else of its workspace. -/
theorem onModule_rebuild (w : Workspace) : onModule Module.rebuild w =
    ⟨(Module.rebuild w.module_).result, { w with module_ := (Module.rebuild w.module_).state },
      (Module.rebuild w.module_).lines⟩ := rfl

/-- A module that was built replaces the file. -/
theorem writeStruck_apply (h : (Module.rebuild w.module_).result = .ok data) :
    writeStruck mishap path w =
      ⟨.ok (w.directory.replaceFile path data mishap).1,
        { w with
          module_ := (Module.rebuild w.module_).state
          directory := (w.directory.replaceFile path data mishap).2 },
        (Module.rebuild w.module_).lines⟩ := by
  have hbuilt := onModule_rebuild w
  rw [h] at hbuilt
  rw [writeStruck, Action.bind_apply hbuilt]
  simp only [Action.read_bind_apply]
  generalize w.directory.replaceFile path data mishap = done
  exact congrArg (Outcome.mk _ _) (List.append_nil _)

/-- Writing a module fails as building it does and then touches no file, or it replaces the target
by what was built. -/
theorem writeStruck_replacing (mishap : Mishap) (path : GivenPath) (w : Workspace) :
    (writeStruck mishap path w).state =
        { w with
          module_ := (Module.rebuild w.module_).state
          directory := (writeStruck mishap path w).state.directory } ∧
      match (Module.rebuild w.module_).result with
      | .error e =>
        (writeStruck mishap path w).result = .error e ∧
          (writeStruck mishap path w).state.directory = w.directory
      | .ok data =>
        ∃ ending, (writeStruck mishap path w).result = .ok ending ∧
          w.directory.Replacing path data mishap ending
            (writeStruck mishap path w).state.directory := by
  cases hresult : (Module.rebuild w.module_).result with
  | error e =>
    have hbuilt := onModule_rebuild w
    rw [hresult] at hbuilt
    rw [writeStruck, Action.bind_apply_error hbuilt]
    exact ⟨rfl, rfl, rfl⟩
  | ok data =>
    have hreplacing := w.directory.replacing_replaceFile path data mishap
    rw [writeStruck_apply hresult]
    generalize w.directory.replaceFile path data mishap = done at hreplacing
    exact ⟨rfl, done.1, rfl, hreplacing⟩

/-! A path with a zero character, in a folder that is empty. -/

namespace ZeroPath

/-- The directory before. -/
def before : Directory := .inFolder "home"

/-- A module without methods. -/
def workspace : Workspace where
  module_ := .ofRows {} [0x4D, 0x5A] (.rows 0 []) none
  directory := before

end ZeroPath

open ZeroPath in
/-- A path with a zero character cannot be renamed over. That is no fault of a device, so it is
reported as what it is, and the new file stays. -/
theorem writeStruck_leaves_file :
    (writeStruck {} (.ofString "a\x00b") workspace).result = .ok (.failed .badValue) ∧
      before.files = [] ∧
      (writeStruck {} (.ofString "a\x00b") workspace).state.directory.files =
        [(Directory.nameOf "home/.restoring-0", [0x4D, 0x5A])] := by
  have hreplace : before.replaceFile (.ofString "a\x00b") [0x4D, 0x5A] {} =
      (.failed .badValue, { before with
        files := [(Directory.nameOf "home/.restoring-0", [0x4D, 0x5A])] }) := by
    decide +kernel
  have hbuilt : (Module.rebuild workspace.module_).result = .ok [0x4D, 0x5A] := rfl
  rw [writeStruck_apply hbuilt, show workspace.directory = before from rfl, hreplace]
  exact ⟨rfl, rfl, rfl⟩

end CilRestore.Workspace
