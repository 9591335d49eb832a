import CilRestore.Text.Unicode
import Mathlib.Logic.Basic

/-!
# Code units

The code units of a text: a character has one unit, or a pair of surrogates where one does not
reach. Units are the units of a text when surrogates stand in pairs (`Utf16.IsPaired`), and the
reader of UTF-16 answers just then, with that text (`Utf16.decode?_eq_some`,
`Utf16.isSome_decode?`).
-/

namespace CilRestore.Text.Utf16

/-- A unit that begins a pair of surrogates. -/
def IsHigh (u : Nat) : Prop := 0xD800 ≤ u ∧ u < 0xDC00

/-- A unit that ends a pair of surrogates. -/
def IsLow (u : Nat) : Prop := 0xDC00 ≤ u ∧ u < 0xE000

instance (u : Nat) : Decidable (IsHigh u) := inferInstanceAs (Decidable (_ ∧ _))

instance (u : Nat) : Decidable (IsLow u) := inferInstanceAs (Decidable (_ ∧ _))

/-- Surrogates stand in pairs: what follows a unit ends a pair just where the unit begins one, and
the first unit ends none. -/
def IsPaired (us : List Nat) : Prop :=
  (∀ i, IsHigh (us.getD i 0) ↔ IsLow (us.getD (i + 1) 0)) ∧ ¬ IsLow (us.getD 0 0)

/-- The units of a character. -/
def unitsOf (c : Char) : List Nat :=
  if c.toNat < 0x10000 then [c.toNat]
  else [0xD800 + (c.toNat - 0x10000) / 0x400, 0xDC00 + (c.toNat - 0x10000) % 0x400]

/-- The units of a text. -/
def units (text : String) : List Nat := text.toList.flatMap unitsOf

/-! ### Units one by one -/

variable {u v : Nat} {us : List Nat}

theorem not_isLow_zero : ¬ IsLow 0 := by decide

/-- A unit that is no surrogate is a character by itself. -/
theorem characters?_cons_plain (hh : ¬ IsHigh u) (hl : ¬ IsLow u) (us : List Nat) :
    characters? (u :: us) = (characters? us).map (Char.ofNat u :: ·) := by
  unfold IsHigh at hh
  unfold IsLow at hl
  cases us with
  | nil =>
    rw [characters?.eq_2, if_neg (by omega), characters?, Option.map_some]
  | cons v us => rw [characters?, if_neg hh, if_neg hl]

/-- A high surrogate and a low one behind it are one character. -/
theorem characters?_cons_pair (hh : IsHigh u) (hl : IsLow v) (us : List Nat) :
    characters? (u :: v :: us) = (characters? us).map
      (Char.ofNat (0x10000 + (u - 0xD800) * 1024 + (v - 0xDC00)) :: ·) := by
  unfold IsHigh at hh
  unfold IsLow at hl
  rw [characters?, if_pos hh, if_pos hl]

/-- A unit that ends a pair is refused where none began. -/
theorem characters?_cons_low (hl : IsLow u) (us : List Nat) : characters? (u :: us) = none := by
  unfold IsLow at hl
  cases us with
  | nil =>
    unfold characters?
    rw [if_pos (by omega)]
  | cons v us => rw [characters?, if_neg (by omega), if_pos hl]

/-- A unit that begins a pair is refused where the pair does not end. -/
theorem characters?_cons_high (hh : IsHigh u) (hl : ¬ IsLow (us.getD 0 0)) :
    characters? (u :: us) = none := by
  unfold IsHigh at hh
  cases us with
  | nil =>
    unfold characters?
    rw [if_pos (by omega)]
  | cons v us =>
    rw [List.getD_cons_zero, IsLow] at hl
    rw [characters?, if_pos hh, if_neg hl]

/-- A unit that is no surrogate does not matter for pairs. -/
theorem isPaired_cons_plain (hh : ¬ IsHigh u) (hl : ¬ IsLow u) :
    IsPaired (u :: us) ↔ IsPaired us := by
  unfold IsPaired
  rw [← Nat.and_forall_add_one (p := fun i => IsHigh ((u :: us).getD i 0) ↔ _)]
  simp only [List.getD_cons_zero, List.getD_cons_succ, hh, hl, false_iff, not_false_eq_true,
    and_true]
  exact and_comm

/-- Nor does a pair. -/
theorem isPaired_cons_pair (hh : IsHigh u) (hl : IsLow v) :
    IsPaired (u :: v :: us) ↔ IsPaired us := by
  have hu : ¬ IsLow u := fun h => by
    unfold IsHigh at hh
    unfold IsLow at h
    omega
  have hv : ¬ IsHigh v := fun h => by
    unfold IsHigh at h
    unfold IsLow at hl
    omega
  unfold IsPaired
  rw [← Nat.and_forall_add_one (p := fun i => IsHigh ((u :: v :: us).getD i 0) ↔ _),
    ← Nat.and_forall_add_one (p := fun i => IsHigh ((u :: v :: us).getD (i + 1) 0) ↔ _)]
  simp only [List.getD_cons_zero, List.getD_cons_succ, hh, hl, hu, hv, false_iff, true_and,
    not_false_eq_true, and_true]
  exact and_comm

/-- A low surrogate in front has no partner. -/
theorem not_isPaired_cons_low (hl : IsLow u) : ¬ IsPaired (u :: us) := fun h => h.2 hl

/-- Nor has a high one with no low one behind it. -/
theorem not_isPaired_cons_high (hh : IsHigh u) (hl : ¬ IsLow (us.getD 0 0)) :
    ¬ IsPaired (u :: us) := fun h => hl ((h.1 0).mp hh)

theorem isPaired_nil : IsPaired [] := by
  refine ⟨fun i => ?_, not_isLow_zero⟩
  simp only [List.getD_nil]
  decide

/-- Units begin with one that stands for itself, with a pair, or with a surrogate without its
partner. -/
theorem unitsInduction {motive : List Nat → Prop} (nil : motive [])
    (plain : ∀ u us, ¬ IsHigh u → ¬ IsLow u → motive us → motive (u :: us))
    (pair : ∀ u v us, IsHigh u → IsLow v → motive us → motive (u :: v :: us))
    (low : ∀ u us, IsLow u → motive (u :: us))
    (high : ∀ u us, IsHigh u → ¬ IsLow (us.getD 0 0) → motive (u :: us)) :
    ∀ us, motive us
  | [] => nil
  | [u] => by
    by_cases hlow : IsLow u
    · exact low u [] hlow
    by_cases hhigh : IsHigh u
    · exact high u [] hhigh not_isLow_zero
    · exact plain u [] hhigh hlow nil
  | u :: v :: us => by
    by_cases hlow : IsLow u
    · exact low u (v :: us) hlow
    by_cases hhigh : IsHigh u
    · by_cases hnext : IsLow v
      · exact pair u v us hhigh hnext (unitsInduction nil plain pair low high us)
      · exact high u (v :: us) hhigh hnext
    · exact plain u (v :: us) hhigh hlow (unitsInduction nil plain pair low high (v :: us))

/-! ### Characters -/

theorem toNat_ofNat {n : Nat} (h : n.isValidChar) : (Char.ofNat n).toNat = n := by
  rw [Char.ofNat, dif_pos h]
  rfl

/-- A character outside of the pairs has one unit. -/
theorem unitsOf_plain (hh : ¬ IsHigh u) (hl : ¬ IsLow u) (hu : u < 0x10000) :
    unitsOf (Char.ofNat u) = [u] := by
  unfold IsHigh at hh
  unfold IsLow at hl
  have hvalid : u.isValidChar := by unfold Nat.isValidChar; omega
  rw [unitsOf, toNat_ofNat hvalid, if_pos hu]

/-- The character of a pair has the two units of the pair. -/
theorem unitsOf_pair (hh : IsHigh u) (hl : IsLow v) :
    unitsOf (Char.ofNat (0x10000 + (u - 0xD800) * 1024 + (v - 0xDC00))) = [u, v] := by
  unfold IsHigh at hh
  unfold IsLow at hl
  have hvalid : (0x10000 + (u - 0xD800) * 1024 + (v - 0xDC00)).isValidChar := by
    unfold Nat.isValidChar
    omega
  rw [unitsOf, toNat_ofNat hvalid, if_neg (by omega)]
  simp only [List.cons.injEq, and_true]
  omega

/-- A character has one unit that is no surrogate, or a pair of surrogates. -/
theorem unitsOf_cases (c : Char) :
    (∃ u, unitsOf c = [u] ∧ ¬ IsHigh u ∧ ¬ IsLow u ∧ Char.ofNat u = c) ∨
    ∃ u v, unitsOf c = [u, v] ∧ IsHigh u ∧ IsLow v ∧
      Char.ofNat (0x10000 + (u - 0xD800) * 1024 + (v - 0xDC00)) = c := by
  have hvalid : c.toNat < 0xD800 ∨ 0xDFFF < c.toNat ∧ c.toNat < 0x110000 := c.valid
  unfold IsHigh IsLow
  by_cases h : c.toNat < 0x10000
  · exact Or.inl ⟨c.toNat, if_pos h, by omega, by omega, c.ofNat_toNat⟩
  · refine Or.inr ⟨_, _, if_neg h, by omega, by omega, ?_⟩
    have hsum : 0x10000 + (0xD800 + (c.toNat - 0x10000) / 0x400 - 0xD800) * 1024 +
        (0xDC00 + (c.toNat - 0x10000) % 0x400 - 0xDC00) = c.toNat := by omega
    rw [hsum, c.ofNat_toNat]

/-! ### Reading units -/

/-- Units are read as characters when surrogates stand in pairs. -/
theorem isSome_characters? (us : List Nat) : (characters? us).isSome ↔ IsPaired us := by
  induction us using unitsInduction with
  | nil => simp [characters?, isPaired_nil]
  | plain u us hh hl ih =>
    rw [characters?_cons_plain hh hl, isPaired_cons_plain hh hl, Option.isSome_map, ih]
  | pair u v us hh hl ih =>
    rw [characters?_cons_pair hh hl, isPaired_cons_pair hh hl, Option.isSome_map, ih]
  | low u us hl => simp [characters?_cons_low hl, not_isPaired_cons_low hl]
  | high u us hh hl => simp [characters?_cons_high hh hl, not_isPaired_cons_high hh hl]

/-- Characters that are read from units have those units. -/
theorem flatMap_of_characters? {us : List Nat} {cs : List Char} (hus : ∀ u ∈ us, u < 0x10000)
    (h : characters? us = some cs) : cs.flatMap unitsOf = us := by
  induction us using unitsInduction generalizing cs with
  | nil =>
    rw [characters?, Option.some.injEq] at h
    rw [← h, List.flatMap_nil]
  | plain u us hh hl ih =>
    rw [characters?_cons_plain hh hl] at h
    obtain ⟨rest, hrest, rfl⟩ := Option.map_eq_some_iff.mp h
    rw [List.flatMap_cons, unitsOf_plain hh hl (hus u List.mem_cons_self),
      ih (fun w hw => hus w (List.mem_cons_of_mem u hw)) hrest, List.singleton_append]
  | pair u v us hh hl ih =>
    rw [characters?_cons_pair hh hl] at h
    obtain ⟨rest, hrest, rfl⟩ := Option.map_eq_some_iff.mp h
    rw [List.flatMap_cons, unitsOf_pair hh hl,
      ih (fun w hw => hus w (List.mem_cons_of_mem u (List.mem_cons_of_mem v hw))) hrest]
    rfl
  | low u us hl =>
    rw [characters?_cons_low hl] at h
    cases h
  | high u us hh hl =>
    rw [characters?_cons_high hh hl] at h
    cases h

/-- The units of characters are read as those. -/
theorem characters?_flatMap (cs : List Char) : characters? (cs.flatMap unitsOf) = some cs := by
  induction cs with
  | nil => rfl
  | cons c cs ih =>
    rw [List.flatMap_cons]
    obtain ⟨u, hu, hh, hl, hc⟩ | ⟨u, v, huv, hh, hl, hc⟩ := unitsOf_cases c
    · rw [hu, List.singleton_append, characters?_cons_plain hh hl, ih, Option.map_some, hc]
    · rw [huv, List.cons_append, List.singleton_append, characters?_cons_pair hh hl, ih,
        Option.map_some, hc]

/-! ### Reading bytes -/

/-- Units are read back from their bytes. -/
theorem units?_flatMap {us : List Nat} (hus : ∀ u ∈ us, u < 0x10000) :
    units? (us.flatMap (Bytes.ofNumber 2)) = some us := by
  induction us with
  | nil => rfl
  | cons u us ih =>
    have hu := hus u List.mem_cons_self
    have hnumber : (UInt8.ofNat u).toNat + 256 * (UInt8.ofNat (u / 256)).toNat = u := by
      rw [UInt8.toNat_ofNat', UInt8.toNat_ofNat']
      omega
    have hbytes : Bytes.ofNumber 2 u = [UInt8.ofNat u, UInt8.ofNat (u / 256)] := rfl
    rw [List.flatMap_cons, hbytes, List.cons_append, List.cons_append, List.nil_append, units?,
      ih fun w hw => hus w (List.mem_cons_of_mem u hw), Option.map_some, hnumber]

/-- Bytes of units are read as the text that has these units. -/
theorem decode?_eq_some {us : List Nat} (hus : ∀ u ∈ us, u < 0x10000) {text : String} :
    decode? (us.flatMap (Bytes.ofNumber 2)) = some text ↔ units text = us := by
  rw [decode?, units?_flatMap hus, Option.bind_some, units]
  constructor
  · intro h
    obtain ⟨cs, hcs, rfl⟩ := Option.map_eq_some_iff.mp h
    rw [String.toList_ofList]
    exact flatMap_of_characters? hus hcs
  · rintro rfl
    rw [characters?_flatMap, Option.map_some, String.ofList_toList]

/-- Bytes of units are read when surrogates stand in pairs. -/
theorem isSome_decode? {us : List Nat} (hus : ∀ u ∈ us, u < 0x10000) :
    (decode? (us.flatMap (Bytes.ofNumber 2))).isSome ↔ IsPaired us := by
  rw [decode?, units?_flatMap hus, Option.bind_some, Option.isSome_map, isSome_characters?]

end CilRestore.Text.Utf16
