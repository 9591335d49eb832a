import CilRestore.Module.Basic
import CilRestore.Proofs.Actions
import CilRestore.Proofs.Body.Restored
import CilRestore.Proofs.Restorer.Resolution

/-!
# The bodies of a module

Whether a body was looked at does not matter: a method that was not looked at has the body that
looking at it would give. So what a module does with bodies is said of `Module.bodyOf`, and actions
on one body leave those of the other methods.
-/

namespace CilRestore.Module

variable {m m' : Module} {rid : Nat}

/-- The stub of a method: what its RVA leads to, or an empty body where that is nothing. -/
def stubOf (m : Module) (rid : Nat) : Stub :=
  if m.rows.rva rid = 0 then {}
  else
    match m.readStub rid with
    | .ok stub => stub
    | .error _ => {}

/-- The body of a method, looked at or not. -/
def bodyOf (m : Module) (rid : Nat) : MethodBody :=
  (m.knownBody? rid).getD { stub := m.stubOf rid }

/-- Two states of a module of one file. -/
structure SameFile (m m' : Module) : Prop where
  /-- They have the same rows. -/
  rows : m'.rows = m.rows
  /-- They have the same bytes. -/
  image : m'.image = m.image
  /-- The bytes belong to the same place. -/
  source : m'.source = m.source
  /-- They have room for as many bodies. -/
  size : m'.bodies.size = m.bodies.size

namespace SameFile

theorem refl (m : Module) : SameFile m m := ⟨rfl, rfl, rfl, rfl⟩

theorem trans {m'' : Module} (h : SameFile m m') (h' : SameFile m' m'') : SameFile m m'' :=
  ⟨h'.rows.trans h.rows, h'.image.trans h.image, h'.source.trans h.source, h'.size.trans h.size⟩

theorem keepBody (m : Module) (rid : Nat) (b : MethodBody) : SameFile m (m.keepBody rid b) :=
  ⟨rfl, rfl, rfl, Array.size_setIfInBounds⟩

/-- What tokens stand for depends on the file only. -/
theorem scope_eq (h : SameFile m m') : m'.scope = m.scope := by
  simp only [scope, userString?, h.rows, h.image, h.source]

/-- States of one file have the same stubs. -/
theorem stubOf_eq (h : SameFile m m') (rid : Nat) : m'.stubOf rid = m.stubOf rid := by
  simp only [stubOf, readStub, offsetOf?, h.rows, h.image, h.source]

/-- They have the same cells. -/
theorem rvaCell_eq (h : SameFile m m') : m'.rvaCell = m.rvaCell := by
  funext position
  simp only [rvaCell, h.source]

end SameFile

/-- Two states of a module have the same bodies. -/
def SameBodies (m m' : Module) : Prop := ∀ rid ∈ m.rows.methodRids, m'.bodyOf rid = m.bodyOf rid

/-- The stub of a method is made of words. -/
theorem stubOf_isOfWords (m : Module) (rid : Nat) : (m.stubOf rid).IsOfWords := by
  unfold stubOf
  split
  · exact Stub.isOfWords_empty
  · split
    · rename_i stub hread
      exact Stub.parse_isOfWords hread
    · exact Stub.isOfWords_empty

/-! ### Keeping bodies -/

theorem bodyOf_of_known {b : MethodBody} (h : m.knownBody? rid = some b) : m.bodyOf rid = b := by
  rw [bodyOf, h, Option.getD_some]

/-- A body that is kept is known as that of its method. -/
theorem knownBody?_keepBody (hsize : m.bodies.size = m.rows.methods.size)
    (hrid : rid ∈ m.rows.methodRids) (b : MethodBody) :
    (m.keepBody rid b).knownBody? rid = some b := by
  obtain ⟨hpos, hle⟩ := ModuleRows.mem_methodRids.mp hrid
  rw [knownBody?, if_neg (by omega), keepBody, Array.getElem?_setIfInBounds_self_of_lt (by omega),
    Option.join_some]

/-- The bodies of the other methods stay. -/
theorem bodyOf_keepBody_of_ne {other : Nat} (hrid : rid ∈ m.rows.methodRids)
    (hother : other ∈ m.rows.methodRids) (hne : other ≠ rid) (b : MethodBody) :
    (m.keepBody rid b).bodyOf other = m.bodyOf other := by
  obtain ⟨hpos, -⟩ := ModuleRows.mem_methodRids.mp hrid
  obtain ⟨hpos', -⟩ := ModuleRows.mem_methodRids.mp hother
  have hstub := (SameFile.keepBody m rid b).stubOf_eq other
  rw [bodyOf, hstub, bodyOf, knownBody?, knownBody?, keepBody,
    Array.getElem?_setIfInBounds_ne (by omega)]

/-- Looking at a body answers it and changes none. -/
theorem ends_body {b : MethodBody} (hsize : m.bodies.size = m.rows.methods.size)
    (hrid : rid ∈ m.rows.methodRids) (h : (body rid).Ends m b m') :
    b = m.bodyOf rid ∧ SameFile m m' ∧ SameBodies m m' := by
  unfold body at h
  obtain ⟨_, _, hread, h⟩ := Action.ends_bind.mp h
  obtain ⟨rfl, rfl⟩ := Action.ends_read.mp hread
  cases hknown : m.knownBody? rid with
  | some known =>
    simp only [hknown] at h
    obtain ⟨rfl, rfl⟩ := Action.ends_pure.mp h
    exact ⟨by rw [bodyOf, hknown, Option.getD_some], .refl m, fun _ _ => rfl⟩
  | none =>
    have hself : m.bodyOf rid = { stub := m.stubOf rid } := by rw [bodyOf, hknown, Option.getD_none]
    have hkept : b = { stub := m.stubOf rid } ∧ m.keepBody rid b = m' := by
      simp only [hknown] at h
      unfold stubOf
      split at h
      · rename_i hz
        rw [if_pos hz]
        simp only [Action.ends_bind, Action.ends_pure, Action.ends_update] at h
        obtain ⟨_, _, ⟨rfl, rfl⟩, _, _, hm, rfl, rfl⟩ := h
        exact ⟨rfl, hm⟩
      · rename_i hz
        rw [if_neg hz]
        cases hread : m.readStub rid with
        | ok stub =>
          simp only [hread, Action.ends_bind, Action.ends_pure, Action.ends_update] at h
          obtain ⟨_, _, ⟨rfl, rfl⟩, _, _, hm, rfl, rfl⟩ := h
          exact ⟨rfl, hm⟩
        | error e =>
          simp only [hread, Action.ends_bind, Action.ends_say, Action.ends_pure,
            Action.ends_update] at h
          obtain ⟨_, _, rfl, _, _, ⟨rfl, rfl⟩, _, _, hm, rfl, rfl⟩ := h
          exact ⟨rfl, hm⟩
    obtain ⟨rfl, rfl⟩ := hkept
    refine ⟨hself.symm, .keepBody m rid _, ?_⟩
    intro other hother
    by_cases hne : other = rid
    · rw [hne, bodyOf_of_known (knownBody?_keepBody hsize hrid _), hself]
    · exact bodyOf_keepBody_of_ne hrid hother hne _

/-- An action on the body of a method is an action on that body, and the other bodies stay. -/
theorem ends_onBody {α : Type} {x : Action MethodBody α} {a : α}
    (hsize : m.bodies.size = m.rows.methods.size) (hrid : rid ∈ m.rows.methodRids)
    (h : (onBody rid x).Ends m a m') :
    ∃ b, x.Ends (m.bodyOf rid) a b ∧ SameFile m m' ∧ m'.knownBody? rid = some b ∧
      ∀ other ∈ m.rows.methodRids, other ≠ rid → m'.bodyOf other = m.bodyOf other := by
  unfold onBody at h
  obtain ⟨b, looked, hbody, h⟩ := Action.ends_bind.mp h
  obtain ⟨rfl, hfile, hsame⟩ := ends_body hsize hrid hbody
  obtain ⟨b, hx, rfl⟩ := Action.ends_within.mp h
  have hrows : rid ∈ looked.rows.methodRids := by rwa [hfile.rows]
  refine ⟨b, hx, hfile.trans (.keepBody looked rid b), ?_, ?_⟩
  · exact knownBody?_keepBody (by rw [hfile.size, hfile.rows, hsize]) hrows b
  · intro other hother hne
    rw [bodyOf_keepBody_of_ne hrows (by rwa [hfile.rows]) hne, hsame other hother]

/-- Whether a method was given other instructions is said by its body. -/
theorem isPatched_eq (m : Module) (rid : Nat) : m.isPatched rid = (m.bodyOf rid).isModified := by
  rw [isPatched, bodyOf]
  cases m.knownBody? rid <;> rfl

/-- The methods that were given other instructions, by their bodies. -/
theorem patchedMethods_eq (m : Module) :
    m.patchedMethods = m.rows.methodRids.filter fun rid => (m.bodyOf rid).isModified := by
  rw [patchedMethods, ModuleRows.methodRids]
  exact List.filter_congr fun rid _ => m.isPatched_eq rid

/-! ### The bodies to be written -/

/-- Bytes that are known are not made anew. -/
theorem ends_compile_of_known {b b' : MethodBody} {bytes compiled : Bytes}
    (h : b.compiled = some bytes) :
    MethodBody.compile.Ends b compiled b' ↔ bytes = compiled ∧ b = b' := by
  unfold MethodBody.compile
  simp only [Action.ends_bind, Action.ends_read]
  constructor
  · rintro ⟨_, _, ⟨rfl, rfl⟩, hends⟩
    simp only [h] at hends
    exact Action.ends_pure.mp hends
  · rintro ⟨rfl, rfl⟩
    exact ⟨b, b, ⟨rfl, rfl⟩, by simp only [h]; exact Action.ends_pure.mpr ⟨rfl, rfl⟩⟩

/-- Compiling bodies that are known answers them, with their rows and the sizes of their stubs. -/
theorem ends_compileAll {rids : List Nat} {done bodies : List BodyPatch}
    (hsize : m.bodies.size = m.rows.methods.size) (hrids : ∀ rid ∈ rids, rid ∈ m.rows.methodRids)
    (hknown : ∀ rid ∈ rids, ∃ bytes, (m.bodyOf rid).compiled = some bytes)
    (h : (compileAll rids done).Ends m bodies m') :
    SameFile m m' ∧ SameBodies m m' ∧
      bodies = done.reverse ++ rids.map fun rid => ⟨rid, m.rows.rva rid,
        (m.bodyOf rid).stub.totalSize, (m.bodyOf rid).compiled.getD []⟩ := by
  induction rids generalizing m done with
  | nil =>
    obtain ⟨rfl, rfl⟩ := Action.ends_pure.mp h
    exact ⟨.refl m, fun _ _ => rfl, by simp⟩
  | cons rid rids ih =>
    unfold compileAll at h
    obtain ⟨compiled, next, honbody, h⟩ := Action.ends_bind.mp h
    obtain ⟨_, _, hread, h⟩ := Action.ends_bind.mp h
    obtain ⟨rfl, rfl⟩ := Action.ends_read.mp hread
    have hrid := hrids rid (by simp)
    obtain ⟨bytes, hbytes⟩ := hknown rid (by simp)
    obtain ⟨b, hcompile, hfile, hself, hothers⟩ := ends_onBody hsize hrid honbody
    obtain ⟨rfl, rfl⟩ := (ends_compile_of_known hbytes).mp hcompile
    have hsame : SameBodies m next := by
      intro other hother
      by_cases hne : other = rid
      · rw [hne, bodyOf_of_known hself]
      · exact hothers other hother hne
    have hin : ∀ other ∈ rids, other ∈ m.rows.methodRids :=
      fun other ho => hrids other (by simp [ho])
    obtain ⟨hfile', hsame', hbodies⟩ := ih (by rw [hfile.size, hfile.rows, hsize])
      (fun other ho => by rw [hfile.rows]; exact hin other ho)
      (fun other ho => by rw [hsame other (hin other ho)]; exact hknown other (by simp [ho])) h
    refine ⟨hfile.trans hfile', ?_, ?_⟩
    · intro other hother
      rw [hsame' other (by rwa [hfile.rows]), hsame other hother]
    · rw [hbodies, hself, hfile.rows]
      simp only [List.reverse_cons, List.append_assoc, List.singleton_append, List.map_cons, hbytes,
        Option.map_some, Option.getD_some]
      congr 2
      apply List.map_congr_left
      intro other ho
      rw [hsame other (hin other ho)]

/-- The bodies to be written, when all that were changed are known. -/
theorem ends_patches {bodies : List BodyPatch} (hsize : m.bodies.size = m.rows.methods.size)
    (hknown : ∀ rid ∈ m.rows.methodRids, (m.bodyOf rid).isModified = true →
      ∃ bytes, (m.bodyOf rid).compiled = some bytes)
    (h : patches.Ends m bodies m') :
    SameFile m m' ∧ bodies = (m.rows.methodRids.filter fun rid => (m.bodyOf rid).isModified).map
      fun rid => ⟨rid, m.rows.rva rid, (m.bodyOf rid).stub.totalSize,
        (m.bodyOf rid).compiled.getD []⟩ := by
  unfold patches at h
  obtain ⟨_, _, hread, h⟩ := Action.ends_bind.mp h
  obtain ⟨rfl, rfl⟩ := Action.ends_read.mp hread
  rw [patchedMethods_eq] at h
  obtain ⟨hfile, -, hbodies⟩ := ends_compileAll hsize
    (fun rid hm => (List.mem_filter.mp hm).1)
    (fun rid hm =>
      hknown rid (List.mem_filter.mp hm).1 (by simpa using (List.mem_filter.mp hm).2)) h
  exact ⟨hfile, by simpa using hbodies⟩

end CilRestore.Module
