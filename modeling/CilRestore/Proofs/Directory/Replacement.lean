import CilRestore.Directory

/-!
# Replacing files

A file is replaced by a new one that is written beside it and renamed over it. The name of the new
file is free, so that taking the file away again gives the directory as it was
(`Directory.erase_put`), and whether a file can be where a path leads does not depend on the files
that there are (`Directory.receives_congr`). So a replacement either puts the data where the path
leads and changes nothing else, or leaves the directory as it was
(`Directory.replacing_replaceFile`). There are two ways in which the new file stays: it cannot be
taken away, or the path is none that the system can be told of.
-/

namespace CilRestore

/-- The system does not tell where a path starts from. -/
def Mishap.Loses (m : Mishap) (path : GivenPath) : Prop :=
  path.isAbsolute = false ∧ m.strike = some .locating

/-- The system fails at the new file. -/
def Mishap.Strikes (m : Mishap) : Prop := m.strike ≠ none ∧ m.strike ≠ some .locating

namespace Directory

variable {d e : Directory} {name other target data : Bytes} {path : GivenPath}
  {folder : List Bytes}

/-! ### Files -/

/-- Nothing is read where no file has the name. -/
theorem contents?_eq_none : d.contents? name = none ↔ ∀ file ∈ d.files, file.1 ≠ name := by
  simp only [contents?, Option.map_eq_none_iff, List.find?_eq_none, decide_eq_true_eq, ne_eq]

/-- A file that is put somewhere is read there, and every other one is as it was. -/
theorem contents?_put :
    (d.put name data).contents? other = if other = name then some data else d.contents? other := by
  unfold put
  split
  case isTrue hthere =>
    have hkey : ((fun file : Bytes × Bytes => decide (file.1 = other)) ∘
        fun file => if file.1 = name then (name, data) else file) =
          fun file => decide (file.1 = other) := by
      funext file
      simp only [Function.comp]
      split <;> simp_all
    simp only [contents?, List.find?_map, hkey, Option.map_map]
    cases hfind : d.files.find? fun file => decide (file.1 = other) with
    | none =>
      have hne : other ≠ name := by
        rintro rfl
        simp [contents?, hfind] at hthere
      simp [hne]
    | some file =>
      have hfile : file.1 = other := by simpa using List.find?_some hfind
      by_cases hother : other = name <;> simp [hfile, hother]
  case isFalse hthere =>
    have hnone : d.contents? name = none := by simpa using hthere
    simp only [contents?, List.find?_append, List.find?_singleton, decide_eq_true_eq]
    by_cases hother : other = name
    · subst hother
      have hfind : (d.files.find? fun file => decide (file.1 = other)) = none := by
        simpa [contents?] using hnone
      simp [hfind]
    · simp [hother, Ne.symm hother]

@[simp] theorem folders_put : (d.put name data).folders = d.folders := by
  unfold put
  split <;> rfl

@[simp] theorem home_put : (d.put name data).home = d.home := by
  unfold put
  split <;> rfl

/-- A file that is new and is taken away again was never there. -/
theorem erase_put (h : d.contents? name = none) : (d.put name data).erase name = d := by
  have hkeep : d.files.filter (fun file => file.1 ≠ name) = d.files :=
    List.filter_eq_self.mpr fun file hfile => by simpa using contents?_eq_none.mp h file hfile
  simp only [put, h, Option.isSome_none, Bool.false_eq_true, if_false, erase, List.filter_append,
    hkeep]
  simp

/-! ### Free names -/

/-- Names that are texts differ where the texts do. -/
theorem nameOf_injective : Function.Injective nameOf := by
  intro s t h
  have hbytes (u : String) : (nameOf u).toByteArray = u.toByteArray := String.utf8Encode_toList
  rw [← String.toByteArray_inj, ← hbytes, h, hbytes]

/-- Texts one behind the other have their bytes one behind the other. -/
theorem nameOf_append (s t : String) : nameOf (s ++ t) = nameOf s ++ nameOf t := by
  simp [nameOf]

/-- The last part of a path stands behind a slash, unless it is the only one. -/
theorem joined_concat (hne : folder ≠ []) (last : Bytes) :
    joined (folder ++ [last]) = joined folder ++ slash :: last := by
  induction folder with
  | nil => exact absurd rfl hne
  | cons part rest ih =>
    by_cases hrest : rest = []
    · subst hrest
      simp [joined]
    · have hmore : rest ++ [last] ≠ [] := by simp
      rw [joined] at ih
      rw [List.cons_append, joined, List.intercalate_cons_of_ne_nil hmore, ih hrest, joined, joined,
        List.intercalate_cons_of_ne_nil hrest, ← List.append_assoc]

/-- Different numbers make different names. -/
theorem candidate_injective (folder : List Bytes) : Function.Injective (candidate folder) := by
  have hname {m n : Nat} (h : nameOf (".restoring-" ++ toString m) =
      nameOf (".restoring-" ++ toString n)) : m = n := by
    rw [nameOf_append, nameOf_append, List.append_cancel_left_eq] at h
    have hdigits := congrArg String.toList (nameOf_injective h)
    simpa [Nat.toString_eq_ofList_toDigits] using congrArg (Nat.ofDigitChars 10 · 0) hdigits
  intro m n h
  unfold candidate at h
  by_cases hfolder : folder = []
  · subst hfolder
    exact hname (by simpa [joined] using h)
  · rw [joined_concat hfolder, joined_concat hfolder, List.append_cancel_left_eq,
      List.cons.injEq] at h
    exact hname h.2

/-- A search that ends in a name that is taken has seen no other. -/
theorem taken_candidate {fuel n : Nat} (h : d.taken (d.temporaryName folder fuel n) = true) :
    ∀ i ≤ fuel, d.taken (candidate folder (n + i)) = true := by
  induction fuel generalizing n with
  | zero =>
    intro i hi
    obtain rfl : i = 0 := Nat.le_zero.mp hi
    exact h
  | succ fuel ih =>
    rw [temporaryName] at h
    by_cases hfirst : d.taken (candidate folder n) = true
    · rw [if_pos hfirst] at h
      intro i hi
      cases i with
      | zero => exact hfirst
      | succ i =>
        have hi' := ih h i (Nat.le_of_succ_le_succ hi)
        rwa [Nat.add_right_comm] at hi'
    · rw [if_neg hfirst] at h
      exact absurd h hfirst

/-- A name that is taken is that of a file or of a folder. -/
theorem mem_of_taken (h : d.taken name = true) : name ∈ d.files.map (·.1) ++ d.folders := by
  unfold taken at h
  rw [List.mem_append, List.mem_map]
  rcases Bool.or_eq_true_iff.mp h with hfile | hfolder
  · left
    obtain ⟨data, hdata⟩ := Option.isSome_iff_exists.mp hfile
    obtain ⟨file, hfind, -⟩ := Option.map_eq_some_iff.mp hdata
    exact ⟨file, List.mem_of_find?_eq_some hfind, by simpa using List.find?_some hfind⟩
  · exact .inr (by simpa using hfolder)

/-- The name of the file that is written first is free: there are more names than files and
folders. -/
theorem taken_freshName : d.taken (d.freshName folder) = false := by
  rw [Bool.eq_false_iff]
  intro htaken
  have hall := taken_candidate htaken
  let names := (List.range (d.files.length + d.folders.length + 1)).map (candidate folder)
  have hnodup : names.Nodup :=
    List.Pairwise.map _ (fun _ _ hne heq => hne (candidate_injective folder heq))
      List.nodup_range
  have hsubset : names ⊆ d.files.map (·.1) ++ d.folders := by
    intro name hname
    obtain ⟨i, hi, rfl⟩ := List.mem_map.mp hname
    have hi' := hall i (Nat.le_of_lt_succ (List.mem_range.mp hi))
    rw [Nat.zero_add] at hi'
    exact mem_of_taken hi'
  have hlength := hnodup.length_le_of_subset hsubset
  simp only [names, List.length_map, List.length_range, List.length_append] at hlength
  omega

/-- Nothing is read under the name of the new file before it is written. -/
theorem contents?_freshName : d.contents? (d.freshName folder) = none := by
  have hfree : d.taken (d.freshName folder) = false := taken_freshName
  simpa using (Bool.or_eq_false_iff.mp hfree).1

/-! ### Where paths lead -/

/-- A path leads to a file, or to where one can be made. -/
def Receives (d : Directory) (target name : Bytes) : Prop :=
  d.locate target = .file name ∨ d.locate target = .vacant name ∧ target.getLast? ≠ some slash

/-- A path that is followed to its end leads to a file, or to where one can be made. -/
def Ends (d : Directory) (base parts : List Bytes) (name : Bytes) : Prop :=
  d.follow base parts = .file name ∨
    d.follow base parts = .vacant name ∧ parts.getLast? ≠ some []

section follow

variable {base there rest : List Bytes} {part : Bytes}

/-- A part that leads to a folder leaves the rest to be followed from there. -/
theorem ends_cons (h : d.follow base (part :: rest) = d.follow there rest) :
    d.Ends base (part :: rest) name ↔ d.Ends there rest name := by
  unfold Ends
  rw [h]
  cases rest with
  | nil => simp [follow]
  | cons next rest => rw [List.getLast?_cons_cons]

/-- Where the first part that is no folder is the last one, the path ends there, whether or not
there is a file. -/
theorem ends_of_not_folder (hpart : part ≠ []) (hdot : part ≠ here) (hup : part ≠ up)
    (hshort : ¬ nameLimit < part.length)
    (hfolder : ¬ d.folders.contains (joined (base ++ [part])) = true) :
    d.Ends base (part :: rest) name ↔ rest = [] ∧ joined (base ++ [part]) = name := by
  simp only [Ends, follow, hpart, hdot, hup, hshort, hfolder, decide_false, Bool.or_self, if_false,
    Bool.false_eq_true]
  by_cases hrest : rest = []
  · subst hrest
    by_cases hfile : (d.contents? (joined (base ++ [part]))).isSome = true <;>
      simp [hfile, hpart]
  · by_cases hfile : (d.contents? (joined (base ++ [part]))).isSome = true
    · simp [hfile, hrest]
    · have hlast : rest.all (· = []) = true → (part :: rest).getLast? = some [] := by
        intro hall
        rw [List.getLast?_eq_some_getLast (List.cons_ne_nil _ _), List.getLast_cons hrest]
        have hmem := List.all_eq_true.mp hall _ (List.getLast_mem hrest)
        simpa using hmem
      simp only [hfile, Bool.false_eq_true, if_false, hrest, false_and, iff_false]
      split
      case isTrue hall => simp [hlast hall]
      case isFalse => simp

/-- Where a path ends depends on the folders alone. -/
theorem ends_congr (hfolders : e.folders = d.folders) (base parts : List Bytes) :
    e.Ends base parts name ↔ d.Ends base parts name := by
  induction parts generalizing base with
  | nil => simp [Ends, follow]
  | cons part rest ih =>
    by_cases hstays : part = [] ∨ part = here
    · have hskip (f : Directory) : f.follow base (part :: rest) = f.follow base rest := by
        rw [follow, if_pos (by simpa using hstays)]
      rw [ends_cons (hskip e), ends_cons (hskip d), ih]
    obtain ⟨hpart, hdot⟩ := not_or.mp hstays
    by_cases hup : part = up
    · have hskip (f : Directory) : f.follow base (part :: rest) = f.follow base.dropLast rest := by
        rw [follow, if_neg (by simpa using hstays), if_pos hup]
      rw [ends_cons (hskip e), ends_cons (hskip d), ih]
    by_cases hlong : nameLimit < part.length
    · simp [Ends, follow, hpart, hdot, hup, hlong]
    by_cases hfolder : d.folders.contains (joined (base ++ [part])) = true
    · have hskip (f : Directory) (hf : f.folders = d.folders) :
          f.follow base (part :: rest) = f.follow (base ++ [part]) rest := by
        rw [follow, if_neg (by simpa using hstays), if_neg hup, if_neg hlong]
        simp only [hf, hfolder, if_true]
      rw [ends_cons (hskip e hfolders), ends_cons (hskip d rfl), ih]
    · rw [ends_of_not_folder hpart hdot hup hlong hfolder,
        ends_of_not_folder hpart hdot hup hlong (hfolders ▸ hfolder)]

/-- What a path leads to is a file where there is one, and is vacant where there is none. -/
theorem contents?_of_follow {parts : List Bytes} :
    (d.follow base parts = .file name → (d.contents? name).isSome = true) ∧
      (d.follow base parts = .vacant name → d.contents? name = none) := by
  fun_induction d.follow base parts <;> simp_all
  case case6 hfile _ => exact fun h => h ▸ hfile
  case case8 hnone _ => exact fun h => h ▸ hnone

end follow

/-- The parts of a path end in an empty one where the path ends in a slash. -/
theorem getLast?_partsOf (h : target ≠ []) :
    (partsOf target).getLast? = some [] ↔ target.getLast? = some slash := by
  constructor
  · intro hlast
    obtain ⟨init, hinit⟩ := List.getLast?_eq_some_iff.mp hlast
    have hwhole : joined (partsOf target) = target := List.intercalate_splitOn slash
    rw [hinit] at hwhole
    by_cases hnil : init = []
    · rw [hnil] at hwhole
      exact absurd hwhole.symm h
    · rw [← hwhole, joined_concat hnil, List.getLast?_concat]
  · intro hlast
    obtain ⟨init, rfl⟩ := List.getLast?_eq_some_iff.mp hlast
    rw [partsOf, List.splitOn_append_cons_self]
    exact List.getLast?_concat

/-- Whether a path leads to where a file is or can be made is seen by following its parts. -/
theorem receives_iff (hne : target ≠ []) (hshort : ¬ pathLimit ≤ target.length) :
    d.Receives target name ↔
      d.Ends (if target.head? = some slash then [] else d.home) (partsOf target) name := by
  rw [Receives, Ends, locate, if_neg hne, if_neg hshort, Ne, Ne, getLast?_partsOf hne]

/-- Whether a path leads to where a file is or can be made depends on the folders alone. -/
theorem receives_congr (hfolders : e.folders = d.folders) (hhome : e.home = d.home) :
    e.Receives target name ↔ d.Receives target name := by
  by_cases hne : target = []
  · simp [Receives, locate, hne]
  by_cases hshort : pathLimit ≤ target.length
  · simp [Receives, locate, hne, hshort]
  · rw [receives_iff hne hshort, receives_iff hne hshort, hhome, ends_congr hfolders]

/-- What a path leads to is a file where there is one, and is vacant where there is none. -/
theorem contents?_of_locate :
    (d.locate target = .file name → (d.contents? name).isSome = true) ∧
      (d.locate target = .vacant name → d.contents? name = none) := by
  unfold locate
  split
  · simp
  split
  · simp
  · exact contents?_of_follow

/-- Where a file was put, it is read. -/
theorem read_put (hpath : path.bytes? = some target) (h : d.Receives target name) :
    (d.put name data).read path = .ok data := by
  have hthere : (d.put name data).contents? name = some data := by rw [contents?_put, if_pos rfl]
  rcases (receives_congr (e := d.put name data) folders_put home_put).mpr h with
    hfile | ⟨hvacant, -⟩
  · simp only [read, hpath, hfile, hthere]
  · rw [contents?_of_locate.2 hvacant] at hthere
    cases hthere

/-- A file is renamed over a path exactly if that leads to where a file is or can be made. -/
theorem rename_eq_ok {source : Bytes} {after : Directory} (hs : d.contents? source = some data) :
    d.rename source path target = .ok after ↔
      ∃ name, d.Receives target name ∧ (d.erase source).put name data = after := by
  unfold rename Receives
  simp only [hs]
  cases hlocate : d.locate target with
  | file name => simp
  | vacant name => by_cases hslash : target.getLast? = some slash <;> simp [hslash]
  | folder =>
    by_cases hplace : endsInPlace target = true <;>
      by_cases hslash : target.getLast? = some slash <;> simp [hplace, hslash]
  | nowhere | behindFile | tooLong => simp

/-! ### Paths that the system can be told of -/

/-- The plain form of a path has no new parts. -/
theorem mem_plainParts {β : Type} [DecidableEq β] {empty here up part : β} {parts done : List β}
    (h : part ∈ Path.plainParts empty here up parts done) : part ∈ parts ∨ part ∈ done := by
  fun_induction Path.plainParts empty here up parts done with
  | case1 done => exact .inr (List.mem_reverse.mp h)
  | case2 done part' rest hskip ih => exact (ih h).imp_left (List.mem_cons_of_mem _)
  | case3 done rest hskip ih =>
    exact (ih h).imp (List.mem_cons_of_mem _) List.mem_of_mem_tail
  | case4 done part' rest hskip hup ih =>
    rcases ih h with hrest | hdone
    · exact .inl (List.mem_cons_of_mem _ hrest)
    · rcases List.mem_cons.mp hdone with rfl | hdone
      · exact .inl List.mem_cons_self
      · exact .inr hdone

/-- Optional values that are all there are so one by one. -/
theorem mapM_id_eq_some {α : Type} {l : List (Option α)} {r : List α} :
    l.mapM id = some r ↔ l = r.map some := by
  induction l generalizing r with
  | nil => cases r <;> simp
  | cons x l ih =>
    cases x with
    | none => cases r <;> simp
    | some a =>
      rw [List.mapM_cons]
      cases r with
      | nil => cases l.mapM id <;> simp
      | cons b r =>
        rw [List.map_cons, List.cons.injEq, Option.some.injEq, ← ih]
        cases l.mapM id <;> simp

/-- Otherwise one of them is missing. -/
theorem mapM_id_eq_none {α : Type} {l : List (Option α)} : l.mapM id = none ↔ none ∈ l := by
  induction l with
  | nil => simp
  | cons x l ih =>
    cases x with
    | none => simp
    | some a =>
      have hmem : none ∈ some a :: l ↔ none ∈ l := by simp
      rw [hmem, ← ih, List.mapM_cons]
      cases l.mapM id <;> simp

/-- What is in a part of a list is in the list. -/
theorem mem_of_mem_intercalate {α : Type} {c : α} {part sep : List α} {parts : List (List α)}
    (hc : c ∈ part) (hpart : part ∈ parts) : c ∈ List.intercalate sep parts := by
  induction parts with
  | nil => cases hpart
  | cons first rest ih =>
    by_cases hrest : rest = []
    · subst hrest
      rw [List.intercalate_singleton, ← List.mem_singleton.mp hpart]
      exact hc
    · rw [List.intercalate_cons_of_ne_nil hrest]
      rcases List.mem_cons.mp hpart with rfl | hpart
      · exact List.mem_append_left _ (List.mem_append_left _ hc)
      · exact List.mem_append_right _ (ih hpart)

/-- The system cannot be told of a path that has a unit without bytes. -/
theorem bytes?_eq_none : path.bytes? = none ↔ ∃ unit ∈ path, unit.bytes? = none := by
  rw [GivenPath.bytes?, Option.map_eq_none_iff, mapM_id_eq_none, List.mem_map]

/-- Nor of one that has a part without bytes. -/
theorem bytes?_of_mem_parts (h : none ∈ path.parts) : path.bytes? = none := by
  obtain ⟨part, hpart, hnone⟩ := List.mem_map.mp h
  obtain ⟨unit, hunit, hbytes⟩ := bytes?_eq_none.mp hnone
  have hwhole : List.intercalate [.char '/'] (path.splitOn (.char '/')) = path :=
    List.intercalate_splitOn _
  refine bytes?_eq_none.mpr ⟨unit, ?_, hbytes⟩
  rw [← hwhole]
  exact mem_of_mem_intercalate hunit hpart

/-- The folder of a path has no other parts than the path and the folder that it starts from. -/
theorem bytes?_of_parentOf (h : none ∈ d.parentOf path) : path.bytes? = none := by
  rcases mem_plainParts (List.dropLast_subset _ h) with hpart | hnil
  · unfold absoluteParts at hpart
    split at hpart
    · exact bytes?_of_mem_parts hpart
    · rcases List.mem_append.mp hpart with hhome | hpart
      · obtain ⟨_, _, hsome⟩ := List.mem_map.mp hhome
        cases hsome
      · exact bytes?_of_mem_parts hpart
  · cases hnil

/-! ### Replacing a file -/

/-- A path where a file can be replaced or made: one can be made in its folder, and it leads to
where a file is or can be made. -/
structure Admits (d : Directory) (path : GivenPath) : Prop where
  /-- Its folder is there, and its path is not too long. -/
  beside : ∃ folder, d.parentOf path = folder.map some ∧ (joined folder).length < folderLimit ∧
    d.follow [] folder = .folder
  /-- The path leads to a file, or to where one can be made. -/
  receives : ∃ target name, path.bytes? = some target ∧ d.Receives target name

/-- A path leads to the data, and everything else is as it was. -/
structure Replaced (d : Directory) (path : GivenPath) (data : Bytes) (after : Directory) :
    Prop where
  /-- The path leads to the data. -/
  read : after.read path = .ok data
  /-- No other file is there that was not, is gone or has changed. -/
  others : ∃ target name, path.bytes? = some target ∧ d.Receives target name ∧
    ∀ other, other ≠ name → after.contents? other = d.contents? other
  /-- The folders are the same. -/
  folders : after.folders = d.folders
  /-- Relative paths start from the same folder. -/
  home : after.home = d.home

/-- How replacing a file ends, and with what directory. -/
inductive Replacing (d : Directory) (path : GivenPath) (data : Bytes) (mishap : Mishap) :
    Ending → Directory → Prop where
  /-- Nothing stands in the way, and the file is replaced. -/
  | replaced {after : Directory} (told : ¬ mishap.Loses path) (quiet : ¬ mishap.Strikes)
      (admits : d.Admits path) (done : d.Replaced path data after) :
      Replacing d path data mishap .done after
  /-- The system fails at the new file, or the path is not one for a file: the directory is as it
  was, or the new file has been taken away again. -/
  | kept {cause : FileFault} (why : mishap.Strikes ∨ ¬ d.Admits path) :
      Replacing d path data mishap (.failed (.fileAccess path cause)) d
  /-- The new file, or what was written of it, cannot be taken away. -/
  | left {ending : Ending} {cause : FileFault} {temporary part : Bytes}
      (why : mishap.Strikes ∨ ¬ d.Admits path)
      (cleanup : mishap.cleanup = .unseen ∧ ending = .failed (.fileAccess path cause) ∨
        mishap.cleanup = .refused ∧ ending = .escaped cause)
      (free : d.taken temporary = false) (of_data : part <+: data) :
      Replacing d path data mishap ending (d.put temporary part)
  /-- The system does not tell where the path starts from, which nothing makes a fault of. -/
  | lost {cause : FileFault} (why : mishap.Loses path) :
      Replacing d path data mishap (.escaped cause) d
  /-- The system cannot be told of the path. If it can of the folder, the new file is written before
  that shows, and nothing takes it away. -/
  | unnamed {after : Directory} (why : path.bytes? = none)
      (stays : none ∈ d.parentOf path ∧ after = d ∨ none ∉ d.parentOf path ∧
        ∃ temporary, d.taken temporary = false ∧ after = d.put temporary data) :
      Replacing d path data mishap (.failed .badValue) after

/-- Data that is put where a path leads replaces what was there and nothing else. -/
theorem replaced_put (hpath : path.bytes? = some target) (h : d.Receives target name) :
    d.Replaced path data (d.put name data) where
  read := read_put hpath h
  others := ⟨target, name, hpath, h, fun other hother => by rw [contents?_put, if_neg hother]⟩
  folders := folders_put
  home := home_put

/-- Nothing stands in the way of a file in a folder that is there and whose path is not too long. -/
theorem obstacle?_eq_none : d.obstacle? folder path = none ↔
    (joined folder).length < folderLimit ∧ d.follow [] folder = .folder := by
  unfold obstacle?
  split
  · rename_i hlong
    simp [Nat.not_lt_of_le hlong]
  · rename_i hshort
    rw [and_iff_right (Nat.lt_of_not_le hshort)]
    split <;> simp_all

/-- Renaming the new file puts its data where the path leads and leaves no other trace of it. -/
theorem rename_put {temporary : Bytes} {after : Directory} (h : d.contents? temporary = none) :
    (d.put temporary data).rename temporary path target = .ok after ↔
      ∃ name, d.Receives target name ∧ d.put name data = after := by
  have hthere : (d.put temporary data).contents? temporary = some data := by
    rw [contents?_put, if_pos rfl]
  rw [rename_eq_ok hthere, erase_put h]
  simp only [receives_congr (e := d.put temporary data) folders_put home_put]

variable {mishap : Mishap} {cause : FileFault} {part : Bytes}

/-- A new file, or what was written of it, goes away if it can be taken away. -/
theorem replacing_discard (why : mishap.Strikes ∨ ¬ d.Admits path) (of_data : part <+: data) :
    let discarded := discard (d.put (d.freshName folder) part) (d.freshName folder) path cause
      mishap.cleanup
    Replacing d path data mishap discarded.1 discarded.2 := by
  have hfree : d.contents? (d.freshName folder) = none := contents?_freshName
  cases hcleanup : mishap.cleanup with
  | works =>
    rw [discard, erase_put hfree]
    exact .kept why
  | unseen => exact .left why (.inl ⟨hcleanup, rfl⟩) taken_freshName of_data
  | refused => exact .left why (.inr ⟨hcleanup, rfl⟩) taken_freshName of_data

/-- Beside what it replaces a new file is written and renamed, or taken away if it can be. -/
theorem replacing_replaceBeside (hparent : d.parentOf path = folder.map some)
    (hroom : d.obstacle? folder path = none) (told : ¬ mishap.Loses path) :
    Replacing d path data mishap (d.replaceBeside folder path data mishap).1
      (d.replaceBeside folder path data mishap).2 := by
  have hfree : d.contents? (d.freshName folder) = none := contents?_freshName
  unfold replaceBeside
  split
  · rename_i hstrike
    exact .kept (.inl (by simp [Mishap.Strikes, hstrike]))
  · rename_i count hstrike
    exact replacing_discard (.inl (by simp [Mishap.Strikes, hstrike])) (List.take_prefix _ _)
  · rename_i hcreating hwriting
    split
    · rename_i hnone
      exact .unnamed hnone (.inr ⟨by simp [hparent], _, taken_freshName, rfl⟩)
    · rename_i target htarget
      split
      · rename_i hmoving
        exact replacing_discard (.inl (by simp [Mishap.Strikes, hmoving])) (List.prefix_refl _)
      · rename_i hmoving
        have hquiet : ¬ mishap.Strikes := by
          rintro ⟨hsome, hlocating⟩
          obtain ⟨strike, hstrike⟩ := Option.ne_none_iff_exists'.mp hsome
          cases strike with
          | locating => exact hlocating hstrike
          | creating => exact hcreating hstrike
          | writing count => exact hwriting count hstrike
          | moving => exact hmoving hstrike
        dsimp only
        split
        · rename_i after hrename
          obtain ⟨name, hname, rfl⟩ := (rename_put hfree).mp hrename
          exact .replaced told hquiet ⟨⟨folder, hparent, obstacle?_eq_none.mp hroom⟩,
            target, name, htarget, hname⟩ (replaced_put htarget hname)
        · rename_i cause hrename
          refine replacing_discard (.inr fun hadmits => ?_) (List.prefix_refl _)
          obtain ⟨other, name, hother, hname⟩ := hadmits.receives
          rw [htarget, Option.some.injEq] at hother
          subst hother
          rw [(rename_put hfree).mpr ⟨name, hname, rfl⟩] at hrename
          cases hrename

/-- Whatever goes wrong, a file is replaced altogether or not at all. -/
theorem replacing_replaceFile (d : Directory) (path : GivenPath) (data : Bytes)
    (mishap : Mishap) :
    Replacing d path data mishap (d.replaceFile path data mishap).1
      (d.replaceFile path data mishap).2 := by
  unfold replaceFile
  split
  · rename_i hlost
    exact .lost (by simpa [Mishap.Loses] using hlost)
  · rename_i htold
    have told : ¬ mishap.Loses path := by simpa [Mishap.Loses] using htold
    split
    · rename_i hnone
      have hfolder : none ∈ d.parentOf path := mapM_id_eq_none.mp hnone
      exact .unnamed (bytes?_of_parentOf hfolder) (.inl ⟨hfolder, rfl⟩)
    · rename_i folder hfolder
      have hparent := mapM_id_eq_some.mp hfolder
      split
      · rename_i cause hobstacle
        refine .kept (.inr fun hadmits => ?_)
        obtain ⟨other, hother, hroom⟩ := hadmits.beside
        rw [hparent, List.map_inj_right fun _ _ => Option.some.inj] at hother
        rw [← hother] at hroom
        rw [obstacle?_eq_none.mpr hroom] at hobstacle
        cases hobstacle
      · rename_i hroom
        exact replacing_replaceBeside hparent hroom told

/-- No system error escapes where the system does not fail. -/
theorem replaceFile_quiet (d : Directory) (path : GivenPath) (data : Bytes) (cause : FileFault) :
    (d.replaceFile path data {}).1 ≠ .escaped cause := by
  have hends := d.replacing_replaceFile path data {}
  generalize d.replaceFile path data {} = done at hends
  obtain ⟨ending, after⟩ := done
  rintro rfl
  cases hends with
  | left _ cleanup =>
    rcases cleanup with ⟨-, hending⟩ | ⟨hrefused, -⟩
    · cases hending
    · cases hrefused
  | lost why => cases why.2

end Directory

end CilRestore
