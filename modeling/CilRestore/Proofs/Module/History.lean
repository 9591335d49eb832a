import CilRestore.Proofs.Module.RowObjects

/-!
# What becomes of a module that is worked on

Rows are looked up in any order and by any way, and instructions are installed in the bodies of the
objects that were found. One request keeps the objects sound and does to the module what the same
request by rows does (`RowObjects.perform_spec`). So it is for any history of requests, and no body
is lost: the methods that are listed as patched are exactly those that instructions were installed
in (`RowObjects.after_opened`).
-/

namespace CilRestore

-- Powers and sums of numbers are those of the core library, whatever else is imported.
attribute [local instance (high)] instPowNat Zero.ofOfNat0

namespace Module

variable {m m' : Module} {rid : Nat} {b : MethodBody}

/-- What is printed when a body is read. -/
def bodyLines (m : Module) (rid : Nat) : List String :=
  if m.rows.rva rid = 0 then []
  else
    match m.readStub rid with
    | .ok _ => []
    | .error e => [m.unreadableLine rid e]

theorem SameFile.bodyLines_eq (h : SameFile m m') (rid : Nat) :
    m'.bodyLines rid = m.bodyLines rid := by
  simp only [bodyLines, unreadableLine, readStub, offsetOf?, h.rows, h.image, h.source]

/-- A body that was looked at is not read again. -/
theorem body_of_known (h : m.knownBody? rid = some b) : body rid m = ⟨.ok b, m, []⟩ := by
  rw [body, Action.read_bind_apply, h]
  rfl

/-- A body that was not looked at is read, and kept. -/
theorem body_of_unknown (h : m.knownBody? rid = none) :
    body rid m = ⟨.ok { stub := m.stubOf rid }, m.keepBody rid { stub := m.stubOf rid },
      m.bodyLines rid⟩ := by
  rw [body, Action.read_bind_apply, h, stubOf, bodyLines]
  by_cases hrva : m.rows.rva rid = 0
  · simp only [if_pos hrva, pure_bind, Action.update_bind_apply, Action.pure_apply]
  · simp only [if_neg hrva]
    cases m.readStub rid <;> rfl

/-- Installing instructions replaces those of the body, which is looked at first. -/
theorem installCode_apply {lines : List String} (h : body rid m = ⟨.ok b, m', lines⟩) (pool : Pool)
    (compiled : Option Bytes) : installCode rid pool compiled m =
      ⟨.ok (), m'.keepBody rid (b.replace pool compiled), lines⟩ := by
  rw [installCode, onBody, Action.bind_apply h]
  simp only [Action.within, Action.update, List.append_nil]

/-- The patched methods are the rows whose bodies were replaced. -/
theorem mem_patchedMethods :
    rid ∈ m.patchedMethods ↔ rid ∈ m.rows.methodRids ∧ m.isPatched rid = true :=
  List.mem_filter

/-- The methods are listed in table order, each once. -/
theorem pairwise_patchedMethods (m : Module) : m.patchedMethods.Pairwise (· < ·) := by
  rw [patchedMethods]
  refine List.Pairwise.filter _ (List.pairwise_map.mpr ?_)
  exact List.pairwise_lt_range.imp fun h => Nat.succ_lt_succ h

/-- Without bodies to be written, a file is rebuilt as it is. -/
theorem rebuild_of_unpatched (h : m.patchedMethods = []) : rebuild m = ⟨.ok m.image, m, []⟩ := by
  have hpatches : patches m = ⟨.ok [], m, []⟩ := by
    rw [patches, Action.read_bind_apply, h]
    rfl
  rw [rebuild, Action.bind_apply hpatches]
  rfl

end Module

namespace RowObjects

variable {s s' : RowObjects} {key : RowKey} {place rid : Nat} {b : MethodBody}

/-! ### Finding objects -/

/-- Objects were made for rows that had none. -/
structure Grows (s s' : RowObjects) : Prop where
  /-- The objects are sound. -/
  sound : s'.IsSound
  /-- Those before are still there. -/
  ext : Extends s s'
  /-- No body changed. -/
  module_eq : s'.module = s.module

theorem Grows.trans {s'' : RowObjects} (h : Grows s s') (h' : Grows s' s'') : Grows s s'' :=
  ⟨h'.sound, h.ext.trans h'.ext, h'.module_eq.trans h.module_eq⟩

/-- Looking up a key answers what is found under it from then on. -/
theorem find_spec (h : s.IsSound) (key : RowKey) :
    ∃ s', find key s = ⟨.ok (s'.place? key), s', []⟩ ∧ Grows s s' ∧ s'.Settled key := by
  cases hplace : s.place? key with
  | some place =>
    refine ⟨s, ?_, ⟨h, .refl s, rfl⟩, fun hnone => ?_⟩
    · simp only [find, Action.read_bind_apply, hplace, Action.pure_apply]
    · rw [hplace] at hnone
      cases hnone
  | none =>
    cases hrow : s.file.rows.rowOf? key with
    | none =>
      refine ⟨s, ?_, ⟨h, .refl s, rfl⟩, fun _ => hrow⟩
      simp only [find, Action.read_bind_apply, hplace, hrow, Action.pure_apply]
    | some row =>
      obtain ⟨hsound, hext, hmodule⟩ := h.make hplace hrow
      have hfound : (s.make key row).place? key = some s.made.size := by
        rw [place?_make, if_pos rfl]
      refine ⟨s.make key row, ?_, ⟨hsound, hext, hmodule⟩, fun hnone => ?_⟩
      · simp only [find, Action.read_bind_apply, hplace, hrow, Action.update_bind_apply,
          Action.pure_apply, hfound]
      · rw [hfound] at hnone
        cases hnone

/-- Looking up keys answers what is found under them from then on. -/
theorem findAll_spec (h : s.IsSound) (keys : List (Option RowKey)) :
    ∃ s', findAll keys s = ⟨.ok (keys.map (·.bind s'.place?)), s', []⟩ ∧ Grows s s' ∧
      ∀ key, some key ∈ keys → s'.Settled key := by
  induction keys generalizing s with
  | nil => exact ⟨s, rfl, ⟨h, .refl s, rfl⟩, by simp⟩
  | cons key keys ih =>
    obtain ⟨t, ht, hgrows, hsettled⟩ : ∃ t, findNamed key s = ⟨.ok (key.bind t.place?), t, []⟩ ∧
        Grows s t ∧ ∀ k, key = some k → t.Settled k := by
      cases key with
      | none => exact ⟨s, rfl, ⟨h, .refl s, rfl⟩, by simp⟩
      | some key =>
        obtain ⟨t, ht, hgrows, hsettled⟩ := find_spec h key
        exact ⟨t, ht, hgrows, by rintro k ⟨⟩; exact hsettled⟩
    obtain ⟨s', hs', hgrows', hsettled'⟩ := ih hgrows.sound
    -- what the first lookup answered is not changed by the others
    have hstays : key.bind s'.place? = key.bind t.place? :=
      Option.bind_congr fun k hk => (hsettled k hk).place?_eq hgrows'.ext hgrows'.sound
    refine ⟨s', ?_, hgrows.trans hgrows', fun k hk => ?_⟩
    · rw [findAll, List.mapM_cons, Action.bind_apply ht, ← findAll, Action.bind_apply hs']
      simp only [Action.pure_apply, List.map_cons, hstays, List.append_nil]
    · rcases List.mem_cons.mp hk with hhead | htail
      · exact (hsettled k hhead.symm).mono hgrows'.ext
      · exact hsettled' k htail

/-! ### The bodies of objects -/

/-- A module has the bodies that the objects hold. -/
theorem knownBody?_module (hrid : rid ∈ s.file.rows.methodRids) :
    s.module.knownBody? rid = s.body? rid := by
  obtain ⟨hpos, hle⟩ := ModuleRows.mem_methodRids.mp hrid
  rw [Module.knownBody?, if_neg (by omega), module, Array.getElem?_ofFn, dif_pos (by omega),
    Option.join_some, Nat.sub_add_cancel hpos]

/-- The module is one of the file. -/
theorem IsSound.sameFile (h : s.IsSound) : Module.SameFile s.file s.module :=
  ⟨rfl, rfl, rfl, by rw [h.opened, module, Array.size_ofFn, Array.size_replicate]⟩

/-- No body of the file as it was opened was looked at. -/
theorem IsSound.knownBody?_file (h : s.IsSound) (rid : Nat) : s.file.knownBody? rid = none := by
  rw [Module.knownBody?, h.opened, Array.getElem?_replicate]
  split
  · rfl
  · split <;> rfl

/-- The body of an object is that of its method: it is looked at in the same way, and kept. -/
theorem body_spec (h : s.IsSound) (hrow : s.row? place = some ⟨.methodDef, rid⟩) :
    ∃ b s' lines, body place s = ⟨.ok b, s', lines⟩ ∧
      Module.body rid s.module = ⟨.ok b, s'.module, lines⟩ ∧ s'.IsSound ∧ Extends s s' := by
  have hknown : s.module.knownBody? rid = s.bodyAt? place := by
    rw [knownBody?_module (h.mem_methodRids hrow), h.body?_eq hrow]
  cases hbody : s.bodyAt? place with
  | some b =>
    rw [hbody] at hknown
    refine ⟨b, s, [], ?_, Module.body_of_known hknown, h, .refl s⟩
    simp only [body, Action.read_bind_apply, onMethod, hrow, hbody, Action.pure_apply]
  | none =>
    rw [hbody] at hknown
    let b : MethodBody := { stub := s.file.stubOf rid }
    obtain ⟨hsound, hext, hmodule⟩ := h.keep hrow b
    have hread := Module.body_of_unknown (h.knownBody?_file rid)
    have hlooked := Module.body_of_unknown hknown
    rw [h.sameFile.stubOf_eq, h.sameFile.bodyLines_eq, ← hmodule] at hlooked
    refine ⟨b, s.keep place b, s.file.bodyLines rid, ?_, hlooked, hsound, hext⟩
    have hwithin : Action.within file (fun _ s => s) (Module.body rid) s =
        ⟨.ok b, s, s.file.bodyLines rid⟩ := by rw [Action.within, hread]
    simp only [body, Action.read_bind_apply, onMethod, hrow, hbody, Action.bind_apply hwithin,
      Action.update_bind_apply, Action.pure_apply, List.append_nil]

/-- Installing instructions in an object is installing them in its method. -/
theorem install_spec (h : s.IsSound) (hrow : s.row? place = some ⟨.methodDef, rid⟩) (pool : Pool)
    (compiled : Option Bytes) :
    ∃ s' lines, install place pool compiled s = ⟨.ok (), s', lines⟩ ∧
      Module.installCode rid pool compiled s.module = ⟨.ok (), s'.module, lines⟩ ∧ s'.IsSound ∧
      Extends s s' := by
  obtain ⟨b, t, lines, hbody, hlooked, hsound, hext⟩ := body_spec h hrow
  obtain ⟨hsound', hext', hmodule⟩ :=
    hsound.keep (hext.row place _ hrow) (b.replace pool compiled)
  refine ⟨t.keep place (b.replace pool compiled), lines, ?_, ?_, hsound', hext.trans hext'⟩
  · rw [install, Action.bind_apply hbody]
    simp only [Action.update, List.append_nil]
  · rw [Module.installCode_apply hlooked, hmodule]

end RowObjects

/-! ### Requests -/

/-- What is asked of the objects of a module. Objects are named by where they were made. -/
inductive Request where
  /-- Look rows up. -/
  | find (l : Lookup)
  /-- Look at the body of an object. -/
  | look (place : Nat)
  /-- Install instructions in the body of an object. -/
  | install (place : Nat) (pool : Pool) (compiled : Option Bytes)

/-- What a request answers. -/
inductive Answer (ι : Type) where
  /-- What was found. -/
  | found (objects : List (Option ι))
  /-- A body. -/
  | body (b : MethodBody)
  /-- Nothing. -/
  | done

/-- The answer with objects of another kind. -/
def Answer.map {ι κ : Type} (f : ι → Option κ) : Answer ι → Answer κ
  | .found objects => .found (objects.map (·.bind f))
  | .body b => .body b
  | .done => .done

namespace Request

open RowObjects (onMethod)

/-- Do what is asked with objects. -/
def perform : Request → Action RowObjects (Answer Nat)
  | .find l => do
    let s ← Action.read
    let keys ← Action.ofExcept (l.keys s.file.rows)
    .found <$> RowObjects.findAll keys
  | .look place => .body <$> RowObjects.body place
  | .install place pool compiled => do
    RowObjects.install place pool compiled
    return .done

/-- Do what is asked with rows: those of the objects that are named. -/
def performOnRows (s : RowObjects) : Request → Action Module (Answer RowId)
  | .find l => do
    let m ← Action.read
    .found <$> Action.ofExcept (l.rows m.rows)
  | .look place => .body <$> onMethod (s.row? place) Module.body
  | .install place pool compiled => do
    onMethod (s.row? place) fun rid => Module.installCode rid pool compiled
    return .done

end Request

namespace RowObjects

variable {s s' : RowObjects} {place rid : Nat}

/-- Only methods have bodies. -/
theorem onMethod_of_not {σ α : Type} {row : Option RowId}
    (h : ¬ ∃ rid, row = some ⟨.methodDef, rid⟩) (x : Nat → Action σ α) :
    onMethod row x = Action.fail .missingMember := by
  rcases row with - | ⟨kind, rid⟩
  · rfl
  · cases kind
    case methodDef => exact absurd ⟨rid, rfl⟩ h
    all_goals rfl

/-- Only an object of a method has a body. -/
theorem body_of_not (h : ¬ ∃ rid, s.row? place = some ⟨.methodDef, rid⟩) :
    body place s = ⟨.error .missingMember, s, []⟩ := by
  rw [body, Action.read_bind_apply, onMethod_of_not h, Action.fail]

/-- Nothing is installed in an object of another table. -/
theorem install_of_not (h : ¬ ∃ rid, s.row? place = some ⟨.methodDef, rid⟩) (pool : Pool)
    (compiled : Option Bytes) :
    (Request.install place pool compiled).perform s = ⟨.error .missingMember, s, []⟩ := by
  rw [Request.perform, install, bind_assoc, Action.bind_apply_error (body_of_not h)]

/-- What is found under a key that was looked up is the object of the row that it names. -/
theorem Settled.bind_row? {key : RowKey} (h : s.Settled key) (hs : s.IsSound) :
    (s.place? key).bind s.row? = s.file.rows.rowOf? key := by
  cases hplace : s.place? key with
  | none => rw [h hplace, Option.bind_none]
  | some place =>
    obtain ⟨row, hrow, hof⟩ := hs.found key place hplace
    rw [Option.bind_some, hrow, hof]

/-- A lookup answers what is found under its keys from then on. -/
theorem perform_find (h : s.IsSound) (l : Lookup) :
    ∃ s', (Request.find l).perform s =
        ⟨(l.keys s.file.rows).map fun keys => .found (keys.map (·.bind s'.place?)), s', []⟩ ∧
      Grows s s' ∧
      ∀ keys key, l.keys s.file.rows = .ok keys → some key ∈ keys → s'.Settled key := by
  cases hkeys : l.keys s.file.rows with
  | error e =>
    refine ⟨s, ?_, ⟨h, .refl s, rfl⟩, by simp⟩
    rw [Request.perform, Action.read_bind_apply, hkeys]
    rfl
  | ok keys =>
    obtain ⟨s', hs', hgrows, hsettled⟩ := findAll_spec h keys
    refine ⟨s', ?_, hgrows, by rintro _ key ⟨⟩; exact hsettled key⟩
    rw [Request.perform, Action.read_bind_apply, hkeys, Action.ofExcept_ok_bind, Action.map_apply,
      hs']
    rfl

/-- A request keeps the objects sound, and the module with the bodies that they hold becomes what it
becomes when the same is asked of rows. -/
theorem perform_spec (h : s.IsSound) (r : Request) :
    (r.perform s).state.IsSound ∧ Extends s (r.perform s).state ∧
      r.performOnRows s s.module =
        ⟨(r.perform s).result.map (Answer.map (r.perform s).state.row?),
          (r.perform s).state.module, (r.perform s).lines⟩ := by
  cases r with
  | find l =>
    obtain ⟨s', hs', hgrows, hsettled⟩ := perform_find h l
    rw [hs']
    refine ⟨hgrows.sound, hgrows.ext, ?_⟩
    have hrows : l.rows s.file.rows = (l.keys s.file.rows).map fun keys =>
        (keys.map (·.bind s'.place?)).map (·.bind s'.row?) := by
      rw [l.rows_eq]
      cases hkeys : l.keys s.file.rows with
      | error e => rfl
      | ok keys =>
        simp only [Except.map, List.map_map, Function.comp_def, Option.bind_assoc]
        refine congrArg Except.ok (List.map_congr_left fun key hkey => ?_)
        refine Option.bind_congr fun k hk => ?_
        subst hk
        rw [(hsettled keys k hkeys hkey).bind_row? hgrows.sound, hgrows.ext.file]
    have hmodule : s.module.rows = s.file.rows := rfl
    simp only [Request.performOnRows, Action.read_bind_apply, Action.map_apply, Action.ofExcept,
      hmodule, hrows, hgrows.module_eq]
    cases l.keys s.file.rows <;> rfl
  | look place =>
    by_cases hmethod : ∃ rid, s.row? place = some ⟨.methodDef, rid⟩
    · obtain ⟨rid, hrow⟩ := hmethod
      obtain ⟨b, s', lines, hbody, hlooked, hsound, hext⟩ := body_spec h hrow
      simp only [Request.perform, Request.performOnRows, Action.map_apply, hbody, hrow, onMethod,
        hlooked]
      exact ⟨hsound, hext, rfl⟩
    · have hbody := body_of_not hmethod
      simp only [Request.perform, Request.performOnRows, Action.map_apply, hbody,
        onMethod_of_not hmethod]
      exact ⟨h, .refl s, rfl⟩
  | install place pool compiled =>
    by_cases hmethod : ∃ rid, s.row? place = some ⟨.methodDef, rid⟩
    · obtain ⟨rid, hrow⟩ := hmethod
      obtain ⟨s', lines, hinstall, hinstalled, hsound, hext⟩ := install_spec h hrow pool compiled
      have hperform : (Request.install place pool compiled).perform s = ⟨.ok .done, s', lines⟩ := by
        rw [Request.perform, Action.bind_apply hinstall]
        simp only [Action.pure_apply, List.append_nil]
      have hrows : (Request.install place pool compiled).performOnRows s s.module =
          ⟨.ok .done, s'.module, lines⟩ := by
        rw [Request.performOnRows, hrow, onMethod, Action.bind_apply hinstalled]
        simp only [Action.pure_apply, List.append_nil]
      rw [hperform, hrows]
      exact ⟨hsound, hext, rfl⟩
    · have hperform := install_of_not hmethod pool compiled
      have hrows : (Request.install place pool compiled).performOnRows s s.module =
          ⟨.error .missingMember, s.module, []⟩ := by
        rw [Request.performOnRows, onMethod_of_not hmethod]
        rfl
      rw [hperform, hrows]
      exact ⟨h, .refl s, rfl⟩

/-! ### Bodies that were installed -/

/-- Installing replaces instructions in the body of an object, the object of a method. -/
def Installs (s : RowObjects) (r : Request) (rid : Nat) : Prop :=
  ∃ place pool compiled, r = .install place pool compiled ∧
    s.row? place = some ⟨.methodDef, rid⟩

/-- There is a body for each method, those of objects included. -/
theorem size_bodies (s : RowObjects) : s.module.bodies.size = s.module.rows.methods.size := by
  simp [module]

/-- Looking at a body replaces no instructions. -/
theorem isPatched_look (h : s.IsSound) (place : Nat) (hrid : rid ∈ s.file.rows.methodRids) :
    ((Request.look place).perform s).state.module.isPatched rid = s.module.isPatched rid := by
  by_cases hmethod : ∃ other, s.row? place = some ⟨.methodDef, other⟩
  · obtain ⟨other, hrow⟩ := hmethod
    obtain ⟨b, s', lines, hbody, hlooked, -, -⟩ := body_spec h hrow
    have hends : (Module.body other).Ends s.module b s'.module := by
      rw [Action.Ends, hlooked]
      exact ⟨rfl, rfl⟩
    obtain ⟨-, -, hsame⟩ := Module.ends_body s.size_bodies (h.mem_methodRids hrow) hends
    simp only [Request.perform, Action.map_apply, hbody]
    rw [Module.isPatched_eq, Module.isPatched_eq, hsame rid hrid]
  · simp only [Request.perform, Action.map_apply, body_of_not hmethod]

/-- Installing in the body of an object replaces the instructions of its method only. -/
theorem isPatched_install (h : s.IsSound) {other : Nat}
    (hrow : s.row? place = some ⟨.methodDef, other⟩) (pool : Pool) (compiled : Option Bytes)
    (hrid : rid ∈ s.file.rows.methodRids) :
    ((Request.install place pool compiled).perform s).state.module.isPatched rid = true ↔
      s.module.isPatched rid = true ∨ rid = other := by
  obtain ⟨s', lines, hinstall, hinstalled, -, -⟩ := install_spec h hrow pool compiled
  have hends : (Module.installCode other pool compiled).Ends s.module () s'.module := by
    rw [Action.Ends, hinstalled]
    exact ⟨rfl, rfl⟩
  obtain ⟨b, hb, -, hknown, hothers⟩ :=
    Module.ends_onBody s.size_bodies (h.mem_methodRids hrow) hends
  have hmodified : b.isModified = true := by
    rw [← Action.ends_update.mp hb]
    rfl
  have hstate : ((Request.install place pool compiled).perform s).state = s' := by
    rw [Request.perform, Action.bind_apply hinstall]
    rfl
  rw [hstate, Module.isPatched_eq, Module.isPatched_eq]
  by_cases he : rid = other
  · subst he
    rw [Module.bodyOf_of_known hknown]
    exact iff_of_true hmodified (Or.inr rfl)
  · rw [hothers rid hrid he]
    simp only [he, or_false]

/-- A request replaces the instructions of the method that it installs in, and of no other one. -/
theorem isPatched_perform (h : s.IsSound) (r : Request) (hrid : rid ∈ s.file.rows.methodRids) :
    (r.perform s).state.module.isPatched rid = true ↔
      s.module.isPatched rid = true ∨ s.Installs r rid := by
  cases r with
  | find l =>
    obtain ⟨s', hs', hgrows, -⟩ := perform_find h l
    simp [hs', hgrows.module_eq, Installs]
  | look place =>
    rw [isPatched_look h place hrid]
    simp [Installs]
  | install place pool compiled =>
    by_cases hmethod : ∃ other, s.row? place = some ⟨.methodDef, other⟩
    · obtain ⟨other, hrow⟩ := hmethod
      rw [isPatched_install h hrow pool compiled hrid]
      refine or_congr_right ⟨?_, ?_⟩
      · rintro rfl
        exact ⟨place, pool, compiled, rfl, hrow⟩
      · rintro ⟨_, _, _, ⟨⟩, hrow'⟩
        rw [hrow] at hrow'
        cases hrow'
        rfl
    · have hnot : ¬ s.Installs (.install place pool compiled) rid := by
        rintro ⟨_, _, _, ⟨⟩, hrow⟩
        exact hmethod ⟨rid, hrow⟩
      rw [install_of_not hmethod]
      simp only [hnot, or_false]

/-! ### Histories -/

/-- The objects after requests. -/
def after (s : RowObjects) (history : List Request) : RowObjects :=
  history.foldl (fun s r => (r.perform s).state) s

theorem after_append (s : RowObjects) (past more : List Request) :
    s.after (past ++ more) = (s.after past).after more := List.foldl_append

/-- Requests keep the objects sound, and those that were found. -/
theorem after_sound (h : s.IsSound) (history : List Request) :
    (s.after history).IsSound ∧ Extends s (s.after history) := by
  induction history generalizing s with
  | nil => exact ⟨h, .refl s⟩
  | cons r history ih =>
    obtain ⟨hsound, hext, -⟩ := perform_spec h r
    obtain ⟨hsound', hext'⟩ := ih hsound
    exact ⟨hsound', hext.trans hext'⟩

/-- The methods whose instructions were replaced are those that were installed in. -/
theorem isPatched_after (h : s.IsSound) (history : List Request)
    (hrid : rid ∈ s.file.rows.methodRids) :
    (s.after history).module.isPatched rid = true ↔ s.module.isPatched rid = true ∨
      ∃ past r more, history = past ++ r :: more ∧ (s.after past).Installs r rid := by
  induction history generalizing s with
  | nil => simp [after]
  | cons r history ih =>
    obtain ⟨hsound, hext, -⟩ := perform_spec h r
    have hrest := ih hsound (by rwa [hext.file])
    rw [isPatched_perform h r hrid] at hrest
    have hcons : s.after (r :: history) = (r.perform s).state.after history := rfl
    rw [hcons, hrest, or_assoc]
    refine or_congr_right ⟨?_, ?_⟩
    · rintro (hinstalls | ⟨past, r', more, rfl, hinstalls⟩)
      · exact ⟨[], r, history, rfl, hinstalls⟩
      · exact ⟨r :: past, r', more, rfl, hinstalls⟩
    · rintro ⟨past, r', more, hsplit, hinstalls⟩
      cases past with
      | nil =>
        cases hsplit
        exact Or.inl hinstalls
      | cons first past =>
        cases hsplit
        exact Or.inr ⟨past, r', more, rfl, hinstalls⟩

/-- The keys of the table of methods are those of its rows, in table order. -/
theorem keys_methodDef (m : ModuleRows) : (Lookup.table "MethodDef").keys m =
    .ok (m.methodRids.map fun rid => some (RowId.key ⟨.methodDef, rid⟩)) := by
  have hname : RowKind.ofName? "MethodDef" = some .methodDef := by decide
  rw [Lookup.keys, hname, ModuleRows.methodRids, List.map_map]
  rfl

/-- The methods that are listed as those whose instructions were replaced are those of the
module. -/
theorem patched_spec (h : s.IsSound) :
    ∃ places s', patched s = ⟨.ok places, s', []⟩ ∧ Grows s s' ∧
      places.map s'.row? = s.module.patchedMethods.map fun rid => some ⟨.methodDef, rid⟩ := by
  obtain ⟨s', hs', hgrows, hsettled⟩ := findAll_spec h
    (s.file.rows.methodRids.map fun rid => some (RowId.key ⟨.methodDef, rid⟩))
  -- each method has an object now, which holds its body
  have hmethod : ∀ rid ∈ s.file.rows.methodRids, ∃ place,
      s'.place? (RowId.key ⟨.methodDef, rid⟩) = some place ∧
      s'.row? place = some ⟨.methodDef, rid⟩ ∧
      (s'.bodyAt? place).any (·.isModified) = s.module.isPatched rid := by
    intro rid hrid
    obtain ⟨hpos, hle⟩ := ModuleRows.mem_methodRids.mp hrid
    have hof : s'.file.rows.rowOf? (RowId.key ⟨.methodDef, rid⟩) = some ⟨.methodDef, rid⟩ := by
      rw [hgrows.ext.file]
      exact ModuleRows.rowOf?_eq_some.mpr ⟨rfl, hpos, hle⟩
    have hrow := (hsettled _ (List.mem_map.mpr ⟨rid, hrid, rfl⟩)).bind_row? hgrows.sound
    rw [hof] at hrow
    obtain ⟨place, hplace, hrow⟩ := Option.bind_eq_some_iff.mp hrow
    refine ⟨place, hplace, hrow, ?_⟩
    rw [← hgrows.sound.body?_eq hrow, ← hgrows.module_eq, Module.isPatched,
      knownBody?_module (hgrows.sound.mem_methodRids hrow)]
    cases s'.body? rid <;> rfl
  choose! place hplace hrow hbody using hmethod
  have hfound : (s.file.rows.methodRids.map fun rid =>
      some (RowId.key ⟨.methodDef, rid⟩)).map (·.bind s'.place?) =
        s.file.rows.methodRids.map fun rid => some (place rid) := by
    rw [List.map_map]
    exact List.map_congr_left hplace
  rw [hfound] at hs'
  have hplaces : ((s.file.rows.methodRids.map fun rid => some (place rid)).filterMap id).filter
      (fun place => (s'.bodyAt? place).any (·.isModified)) =
        s.module.patchedMethods.map place := by
    rw [List.filterMap_map, Function.id_comp, List.filterMap_eq_map', List.filter_map]
    exact congrArg (List.map place) (List.filter_congr hbody)
  refine ⟨s.module.patchedMethods.map place, s', ?_, hgrows, ?_⟩
  · rw [patched, Action.read_bind_apply, keys_methodDef, Action.ofExcept_ok_bind,
      Action.bind_apply hs', Action.read_bind_apply, Action.pure_apply, hplaces]
    rfl
  · rw [List.map_map]
    exact List.map_congr_left fun rid hrid => hrow rid (List.mem_filter.mp hrid).1

/-! ### A module that was opened -/

/-- The objects of a module, of which none was made yet. -/
def opened (m : Module) : RowObjects := { file := m }

variable {m : Module}

/-- The objects of a module that was just opened are sound: there are none. -/
theorem isSound_opened (h : m.IsFresh) :
    (opened m).IsSound := by
  refine ⟨h, fun key place hplace => ?_, fun place row hrow => ?_⟩
  · simp [opened, place?] at hplace
  · simp [opened, row?] at hrow

/-- With no objects the module is as it was opened. -/
theorem module_opened (h : m.IsFresh) :
    (opened m).module = m := by
  have hbodies : (opened m).module.bodies = m.bodies := by
    rw [h]
    apply Array.ext_getElem?
    intro position
    simp only [module, opened, Array.getElem?_ofFn, Array.getElem?_replicate]
    split <;> rfl
  cases m
  simp only [module, opened] at hbodies ⊢
  rw [hbodies]

/-- What a lookup answers is what is found under its keys at the end of the history. -/
theorem perform_find_after (h : s.IsSound) (l : Lookup) (more : List Request) :
    ((Request.find l).perform s).result =
        (l.keys s.file.rows).map (fun keys =>
          Answer.found (keys.map (·.bind (s.after (.find l :: more)).place?))) ∧
      ∀ keys key, l.keys s.file.rows = .ok keys → some key ∈ keys →
        (s.after (.find l :: more)).Settled key := by
  obtain ⟨s', hs', hgrows, hsettled⟩ := perform_find h l
  have hafter : s.after (.find l :: more) = s'.after more := by
    rw [after, List.foldl_cons, hs', ← after]
  obtain ⟨hsound, hext⟩ := after_sound hgrows.sound more
  rw [hs', hafter]
  refine ⟨?_, fun keys key hkeys hkey => (hsettled keys key hkeys hkey).mono hext⟩
  cases hkeys : l.keys s.file.rows with
  | error e => rfl
  | ok keys =>
    refine congrArg (fun found => Except.ok (Answer.found found)) ?_
    refine List.map_congr_left fun key hkey => Option.bind_congr fun k hk => ?_
    subst hk
    exact ((hsettled keys k hkeys hkey).place?_eq hext hsound).symm

/-- A token that is looked up is that of the object that is found. -/
theorem token_of_find (h : s.IsSound) {l : Lookup} {t : Token} {more : List Request}
    (hkeys : l.keys s.file.rows = .ok [some ⟨t.table, t.row⟩])
    (hfound : ((Request.find l).perform s).result = .ok (.found [some place])) :
    ∃ r, (s.after (.find l :: more)).row? place = some r ∧ r.token = .ok t := by
  obtain ⟨hanswer, -⟩ := perform_find_after h l more
  rw [hkeys, hfound] at hanswer
  simp only [Except.map, List.map_cons, List.map_nil, Option.bind_some, Except.ok.injEq,
    Answer.found.injEq, List.cons.injEq, and_true] at hanswer
  obtain ⟨r, hrow, hkey, -⟩ := (after_sound h _).1.row?_eq_some hanswer.symm
  refine ⟨r, hrow, ?_⟩
  obtain ⟨htable, hrid⟩ := RowKey.mk.injEq _ _ _ _ ▸ hkey
  have hfits : 0 ≤ (t.row : Int) ∧ (t.row : Int) < 2 ^ (24 : Nat) :=
    ⟨Int.natCast_nonneg _, by exact_mod_cast t.row_lt⟩
  rw [RowId.token, htable, hrid, Token.make, dif_pos hfits]
  rfl

/-- A module that was opened, with its rows looked up in any order and by any way, and instructions
installed in the bodies of the objects that were found.

Each lookup answers the objects found under its keys when all is done, so a row has one object
always. There is none just where the table is unknown or has no such row, and a table that is asked
for by an unknown name is refused. An object is of the table of its key, has the token that was
looked up, and is the object of no other row. The module with the bodies of the objects becomes what
it becomes by the same requests for rows. The methods that are listed as patched are those in whose
objects instructions were installed, in table order, each once; if there are none the file that is
rebuilt is the file that was opened. -/
theorem after_opened (h : m.IsFresh)
    (history : List Request) :
    (∀ past l more, history = past ++ .find l :: more →
      ((Request.find l).perform ((opened m).after past)).result =
        (l.keys m.rows).map (fun keys =>
          Answer.found (keys.map (·.bind ((opened m).after history).place?))) ∧
      ∀ keys key, l.keys m.rows = .ok keys → some key ∈ keys →
        (((opened m).after history).place? key = none ↔
          ¬ ∃ r : RowId, r.key = key ∧ 0 < r.rid ∧ r.rid ≤ m.rows.count r.kind)) ∧
    (∀ key place, ((opened m).after history).place? key = some place →
      (∃ r, ((opened m).after history).row? place = some r ∧ r.key = key ∧
        r.token = Token.make key.table key.rid) ∧
      ∀ other, ((opened m).after history).place? other = some place → other = key) ∧
    (∀ past (n : Nat) more place, history = past ++ .find (.value n) :: more → n < 2 ^ (32 : Nat) →
      ((Request.find (.value n)).perform ((opened m).after past)).result =
        .ok (.found [some place]) →
      ∃ r, ((opened m).after history).row? place = some r ∧ r.token = .ok (Token.ofValue n) ∧
        (Token.ofValue n).value = n) ∧
    (∀ past t more place, history = past ++ .find (.token t) :: more →
      ((Request.find (.token t)).perform ((opened m).after past)).result =
        .ok (.found [some place]) →
      ∃ r, ((opened m).after history).row? place = some r ∧ r.token = .ok t) ∧
    ((opened m).module = m ∧ ∀ past r more, history = past ++ r :: more →
      r.performOnRows ((opened m).after past) ((opened m).after past).module =
        ⟨(r.perform ((opened m).after past)).result.map
            (Answer.map ((opened m).after (past ++ [r])).row?),
          ((opened m).after (past ++ [r])).module, (r.perform ((opened m).after past)).lines⟩) ∧
    (∃ places s, patched ((opened m).after history) = ⟨.ok places, s, []⟩ ∧
      Grows ((opened m).after history) s ∧
      places.map s.row? = ((opened m).after history).module.patchedMethods.map
        fun rid => some ⟨.methodDef, rid⟩) ∧
    ((opened m).after history).module.patchedMethods.Pairwise (· < ·) ∧
    (∀ rid, rid ∈ ((opened m).after history).module.patchedMethods ↔
      ∃ past r more, history = past ++ r :: more ∧ ((opened m).after past).Installs r rid) ∧
    (((opened m).after history).module.patchedMethods = [] →
      (Module.rebuild ((opened m).after history).module).result = .ok m.image) := by
  have hopened := isSound_opened h
  obtain ⟨hsound, hext⟩ := after_sound hopened history
  have hfile : ∀ past, ((opened m).after past).file.rows = m.rows := fun past => by
    rw [(after_sound hopened past).2.file]
    rfl
  refine ⟨?_, ?_, ?_, ?_, ⟨module_opened h, ?_⟩, patched_spec hsound,
    Module.pairwise_patchedMethods _, ?_, ?_⟩
  · rintro past l more rfl
    have hfind := perform_find_after (after_sound hopened past).1 l more
    rw [← after_append, hfile] at hfind
    refine ⟨hfind.1, fun keys key hkeys hkey => ?_⟩
    rw [(hfind.2 keys key hkeys hkey).place?_eq_none hsound, hfile]
  · intro key place hplace
    obtain ⟨r, hrow, hkey, -⟩ := hsound.row?_eq_some hplace
    refine ⟨⟨r, hrow, hkey, ?_⟩, fun other hother => hsound.key_inj hother hplace⟩
    rw [← hkey]
    rfl
  · rintro past n more place rfl hn hfound
    obtain ⟨r, hrow, htoken⟩ := token_of_find (after_sound hopened past).1 rfl hfound
    rw [← after_append] at hrow
    exact ⟨r, hrow, htoken, Token.value_ofValue hn⟩
  · rintro past t more place rfl hfound
    obtain ⟨r, hrow, htoken⟩ := token_of_find (after_sound hopened past).1 rfl hfound
    rw [← after_append] at hrow
    exact ⟨r, hrow, htoken⟩
  · rintro past r more -
    rw [after_append]
    exact (perform_spec (after_sound hopened past).1 r).2.2
  · intro rid
    have hnew : (opened m).module.isPatched rid = false := by
      have hunknown : m.knownBody? rid = none := hopened.knownBody?_file rid
      rw [module_opened h, Module.isPatched, hunknown]
    have hrows : ((opened m).after history).module.rows = (opened m).file.rows := hfile history
    rw [Module.mem_patchedMethods, hrows]
    constructor
    · rintro ⟨hrid, hpatched⟩
      simpa [hnew] using (isPatched_after hopened history hrid).mp hpatched
    · rintro ⟨past, r, more, hsplit, hinstalls⟩
      obtain ⟨place, pool, compiled, -, hrow⟩ := id hinstalls
      have hrid : rid ∈ (opened m).file.rows.methodRids := by
        have hmem := (after_sound hopened past).1.mem_methodRids hrow
        rwa [hfile past] at hmem
      exact ⟨hrid, (isPatched_after hopened history hrid).mpr
        (Or.inr ⟨past, r, more, hsplit, hinstalls⟩)⟩
  · intro hnone
    have himage : ((opened m).after history).module.image = m.image := by
      rw [module, hext.file]
      rfl
    rw [Module.rebuild_of_unpatched hnone, himage]

/-! Two methods, the second one looked up by every way and given other instructions. -/

namespace TwoMethods

/-- The module. -/
def twoMethods : Module :=
  .ofRows { methods := #[⟨.absent, none, none⟩, ⟨.absent, none, none⟩] } [0x4D, 0x5A] (.rows 0 [])
    none

/-- The method is found and given instructions, and found again. -/
def history : List Request :=
  [.find (.method 2), .install 0 #[] none, .find (.value 0x06000002),
    .find (.coded (some ⟨some 6, 2⟩)), .find (.table "MethodDef")]

end TwoMethods

open TwoMethods in
/-- The method has one object, which is listed with the instructions. When methods are only looked
up the file is rebuilt as it was. -/
theorem after_opened_of_twoMethods :
    ((Request.find (.coded (some ⟨some 6, 2⟩))).perform
      ((opened twoMethods).after (history.take 3))).result = .ok (.found [some 0]) ∧
    (∃ r, ((opened twoMethods).after history).row? 0 = some r ∧
      r.token = .ok (Token.ofValue 0x06000002)) ∧
    (∃ places s, patched ((opened twoMethods).after history) = ⟨.ok places, s, []⟩ ∧
      places.map s.row? = [some ⟨.methodDef, 2⟩]) ∧
    (Module.rebuild ((opened twoMethods).after [.find (.table "MethodDef")]).module).result =
      .ok [0x4D, 0x5A] := by
  obtain ⟨hfind, hobjects, hvalue, -, -, ⟨places, s, hpatched, -, hrows⟩, -⟩ :=
    after_opened (m := twoMethods) rfl history
  obtain ⟨-, -, -, -, -, -, -, -, hrebuild⟩ :=
    after_opened (m := twoMethods) rfl [.find (.table "MethodDef")]
  have hplace : ((opened twoMethods).after history).place? ⟨6, 2⟩ = some 0 := by decide +kernel
  have hlisted : ((opened twoMethods).after history).module.patchedMethods = [2] := by
    decide +kernel
  rw [hlisted] at hrows
  refine ⟨?_, ?_, ⟨places, s, hpatched, hrows⟩, hrebuild (by decide +kernel)⟩
  · rw [(hfind (history.take 3) _ _ rfl).1]
    exact congrArg (fun found => Except.ok (Answer.found [found])) hplace
  · have hanswer : ((Request.find (.value 0x06000002)).perform
        ((opened twoMethods).after (history.take 2))).result = .ok (.found [some 0]) := by
      rw [(hfind (history.take 2) _ _ rfl).1]
      exact congrArg (fun found => Except.ok (Answer.found [found])) hplace
    obtain ⟨r, hrow, htoken, -⟩ :=
      hvalue (history.take 2) 0x06000002 _ 0 rfl (by decide) hanswer
    exact ⟨r, hrow, htoken⟩

/-- A table of an unknown name is not one without rows. -/
theorem find_refuses_table :
    ¬ ∀ (m : Module) (name : String), RowKind.ofName? name = none →
      ∃ found, ((Request.find (.table name)).perform (opened m)).result = .ok (.found found) ∧
        ∀ object ∈ found, object = none := by
  intro h
  obtain ⟨found, hfound, -⟩ := h TwoMethods.twoMethods "Param" (by decide)
  have hrefused : ((Request.find (.table "Param")).perform (opened TwoMethods.twoMethods)).result =
      .error .unsupported := rfl
  rw [hrefused] at hfound
  cases hfound

end RowObjects

end CilRestore
