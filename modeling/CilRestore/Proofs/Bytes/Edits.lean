import CilRestore.Bytes.Basic
import Mathlib.Algebra.Group.Nat.Defs

/-!
# Edits of bytes

What an edit does is said byte by byte: which byte stands at each place of the result. Two files
that hold the same bytes in a range (`Bytes.SameOn`) have the same slices and fields there.
-/

namespace CilRestore.Bytes

/-- Two files hold the same bytes in a range. -/
def SameOn (data other : Bytes) (start count : Nat) : Prop :=
  ∀ i, start ≤ i → i < start + count → other[i]? = data[i]?

/-- Two ranges have no byte in common. -/
def Apart (start count other count' : Nat) : Prop :=
  start + count ≤ other ∨ other + count' ≤ start

instance (start count other count' : Nat) : Decidable (Apart start count other count') :=
  inferInstanceAs (Decidable (_ ∨ _))

variable {data other : Bytes} {start count : Nat}

namespace SameOn

theorem refl (data : Bytes) (start count : Nat) : SameOn data data start count := fun _ _ _ => rfl

theorem trans {third : Bytes} (h : SameOn data other start count)
    (h' : SameOn other third start count) : SameOn data third start count :=
  fun i hl hu => (h' i hl hu).trans (h i hl hu)

/-- What holds of a range holds of a part of it. -/
theorem mono (h : SameOn data other start count) {start' count' : Nat} (hl : start ≤ start')
    (hu : start' + count' ≤ start + count) : SameOn data other start' count' :=
  fun i h0 h1 => h i (by omega) (by omega)

theorem byte_eq {i : Nat} (h : SameOn data other i 1) : other[i]? = data[i]? :=
  h i (Nat.le_refl _) (Nat.lt_succ_self _)

end SameOn

/-- The bytes of a slice are those from its start on. -/
theorem getElem?_slice (data : Bytes) (start count i : Nat) :
    (slice data start count)[i]? = if i < count then data[start + i]? else none := by
  rw [slice, List.getElem?_take, List.getElem?_drop]

/-- Where data are the same they have the same slices. -/
theorem SameOn.slice_eq (h : SameOn data other start count) :
    slice other start count = slice data start count := by
  apply List.ext_getElem?
  intro i
  rw [getElem?_slice, getElem?_slice]
  split
  · exact h _ (Nat.le_add_right _ _) (by omega)
  · rfl

/-- Where data are the same they have the same numbers. -/
theorem SameOn.field_eq (h : SameOn data other start count) :
    field other start count = field data start count := by
  rw [field, field, h.slice_eq]

/-- The bytes of a range, one by one. -/
theorem slice_eq_iff {bs : Bytes} : slice data start bs.length = bs ↔
    ∀ i < bs.length, data[start + i]? = bs[i]? := by
  constructor
  · intro h i hi
    rw [← h, getElem?_slice, if_pos hi]
  · intro h
    apply List.ext_getElem?
    intro i
    rw [getElem?_slice]
    split
    · exact h i (by assumption)
    · rw [List.getElem?_eq_none (by omega)]

/-- What is put behind data leaves them. -/
theorem sameOn_append {start count : Nat} (h : start + count ≤ data.length) (more : Bytes) :
    SameOn data (data ++ more) start count := by
  intro i hl hu
  rw [List.getElem?_append_left (by omega)]

theorem length_slice (h : start + count ≤ data.length) :
    (slice data start count).length = count := by
  rw [slice, List.length_take, List.length_drop]
  omega

/-- A file around a range. -/
theorem eq_append_slice (data : Bytes) (start count : Nat) :
    data = data.take start ++ slice data start count ++ data.drop (start + count) := by
  rw [slice, List.append_assoc, ← List.drop_drop, List.take_append_drop, List.take_append_drop]

/-- Bytes that stand in data end inside of them. -/
theorem le_length_of_slice {start : Nat} {bs : Bytes} (h : slice data start bs.length = bs)
    (hne : bs ≠ []) : start + bs.length ≤ data.length := by
  have hlen := congrArg List.length h
  have hpos := List.length_pos_iff.mpr hne
  rw [slice, List.length_take, List.length_drop] at hlen
  omega

/-- A part of bytes that stand in data stands there too. -/
theorem slice_of_slice {start place count : Nat} {bs : Bytes}
    (h : slice data start bs.length = bs) (hin : place + count ≤ bs.length) :
    slice data (start + place) count = slice bs place count := by
  apply List.ext_getElem?
  intro i
  rw [getElem?_slice, getElem?_slice]
  split
  · have hi := slice_eq_iff.mp h (place + i) (by omega)
    rw [← hi]
    congr 1
    omega
  · rfl

theorem slice_append_right (data more : Bytes) :
    slice (data ++ more) data.length more.length = more := by
  rw [slice, List.drop_left, List.take_length]

/-- What stands in a file stands between what is in front of it and what is behind it. -/
theorem exists_append_of_slice {bs : Bytes} (h : slice data start bs.length = bs)
    (hin : start + bs.length ≤ data.length) :
    ∃ before after, data = before ++ (bs ++ after) ∧ before.length = start := by
  have hdata := eq_append_slice data start bs.length
  rw [h, List.append_assoc] at hdata
  exact ⟨_, _, hdata, by rw [List.length_take]; omega⟩

/-- What stands between two others is a slice. -/
theorem slice_append (a b c : Bytes) : slice (a ++ (b ++ c)) a.length b.length = b := by
  rw [slice, List.drop_left, List.take_left]

/-- It is the number there. -/
theorem field_append (a b c : Bytes) : field (a ++ (b ++ c)) a.length b.length = number b := by
  rw [field, slice_append]

/-- A number that was written into a field is the number of the field. -/
theorem field_ofNumber (a c : Bytes) {start width n : Nat} (ha : a.length = start)
    (hn : n < 256 ^ width) : field (a ++ (ofNumber width n ++ c)) start width = n := by
  have h := field_append a (ofNumber width n) c
  rwa [length_ofNumber, ha, number_ofNumber, Nat.mod_eq_of_lt hn] at h

/-! ### Splicing -/

/-- Replacing a range by as many bytes changes the bytes of the range only. -/
theorem getElem?_splice {stop : Nat} {replacement : Bytes} (hstart : start ≤ data.length)
    (hstop : start ≤ stop) (hlen : replacement.length = stop - start) (i : Nat) :
    (splice data start stop replacement)[i]? =
      if start ≤ i ∧ i < stop then replacement[i - start]? else data[i]? := by
  have htake : (data.take start).length = start := by
    rw [List.length_take]
    omega
  rw [splice, List.append_assoc]
  by_cases hlow : i < start
  · rw [List.getElem?_append_left (by omega), List.getElem?_take, if_pos hlow, if_neg (by omega)]
  · rw [List.getElem?_append_right (by omega), htake]
    by_cases hhigh : i < stop
    · rw [List.getElem?_append_left (by omega), if_pos ⟨by omega, hhigh⟩]
    · rw [List.getElem?_append_right (by omega), List.getElem?_drop, if_neg (by omega)]
      congr 1
      omega

/-- A replacement of the same length keeps the bytes beside the range, even where the range begins
past the end. -/
theorem getElem?_splice_of_outside {stop : Nat} {replacement : Bytes} (hstop : start ≤ stop)
    (hlen : replacement.length = stop - start) {i : Nat} (hi : i < data.length)
    (h : i < start ∨ stop ≤ i) : (splice data start stop replacement)[i]? = data[i]? := by
  by_cases hstart : start ≤ data.length
  · rw [getElem?_splice hstart hstop hlen, if_neg (by omega)]
  · rw [splice, List.append_assoc, List.getElem?_append_left (by rw [List.length_take]; omega),
      List.getElem?_take, if_pos (by omega)]

/-- A replacement of the same length does not make data shorter. -/
theorem le_length_splice {stop : Nat} {replacement : Bytes} (hstop : start ≤ stop)
    (hlen : replacement.length = stop - start) :
    data.length ≤ (splice data start stop replacement).length := by
  simp only [splice, List.length_append, List.length_take, List.length_drop]
  omega

/-- The bytes that are put into some data stand there. -/
theorem slice_splice {stop : Nat} {replacement : Bytes} (hstart : start ≤ data.length)
    (hstop : start ≤ stop) (hlen : replacement.length = stop - start) :
    slice (splice data start stop replacement) start replacement.length = replacement := by
  rw [slice_eq_iff]
  intro i hi
  rw [getElem?_splice hstart hstop hlen, if_pos (by omega), Nat.add_sub_cancel_left]

/-- Beside them nothing changes. -/
theorem sameOn_splice {stop : Nat} {replacement : Bytes} (hstart : start ≤ data.length)
    (hstop : start ≤ stop) (hlen : replacement.length = stop - start) {from' count : Nat}
    (h : Apart start (stop - start) from' count) :
    SameOn data (splice data start stop replacement) from' count := by
  intro i hl hu
  rw [getElem?_splice hstart hstop hlen, if_neg]
  rcases h with h | h <;> omega

/-- A replacement of the same length that may reach the end of the file. -/
theorem length_splice_of_le {stop : Nat} {replacement : Bytes} (hstart : start ≤ data.length)
    (hstop : start ≤ stop) (hlen : replacement.length = stop - start) :
    (splice data start stop replacement).length = max data.length stop := by
  simp only [splice, List.length_append, List.length_take, List.length_drop]
  omega

/-! ### Padding -/

theorem length_padTo (data : Bytes) (length : Nat) :
    (padTo data length).length = max data.length length := by
  simp only [padTo, zeros, List.length_append, List.length_replicate]
  omega

theorem getElem?_padTo {i : Nat} (h : i < data.length) (length : Nat) :
    (padTo data length)[i]? = data[i]? := by
  rw [padTo, List.getElem?_append_left h]

/-- What is padded are zeros. -/
theorem getElem?_padTo_behind {i length : Nat} (hl : data.length ≤ i) (hu : i < length) :
    (padTo data length)[i]? = some 0 := by
  rw [padTo, List.getElem?_append_right hl, zeros, List.getElem?_replicate, if_pos (by omega)]

/-- A replacement between positions inside the file is a splice. -/
theorem replaceBetween_natCast (data : Bytes) (start stop : Nat) (replacement : Bytes) :
    replaceBetween data start stop replacement = splice data start stop replacement := by
  simp [replaceBetween, anchor]

/-! ### Unsigned fields -/

/-- A number is written into an unsigned field when it fits. -/
theorem unsigned?_eq_some {width : Nat} {value : Int} {bs : Bytes} :
    unsigned? width value = some bs ↔
      0 ≤ value ∧ value < (256 ^ width : Nat) ∧ bs = ofNumber width value.toNat := by
  rw [unsigned?]
  split
  · rename_i h
    simp only [Option.some.injEq, h.1, h.2, true_and]
    exact eq_comm
  · rename_i h
    simp only [reduceCtorEq, false_iff, not_and]
    exact fun h0 h1 => absurd ⟨h0, h1⟩ h

/-! ### Alignment -/

theorem alignUp_natCast (value alignment : Nat) :
    alignUp value alignment = (alignNat value alignment : Int) := by
  rw [alignNat, Int.toNat_of_nonneg]
  rw [alignUp]
  split
  · omega
  · have hm := Int.fmod_nonneg_of_pos (a := (value : Int)) (b := (alignment : Int)) (by omega)
    have hl := Int.fmod_lt_of_pos (a := (value : Int)) (b := (alignment : Int)) (by omega)
    simp only
    split <;> omega

/-- Rounding up gives a multiple. -/
theorem dvd_alignNat (value : Nat) {alignment : Nat} (h : 0 < alignment) :
    alignment ∣ alignNat value alignment := by
  have hl := Nat.mod_lt value h
  rw [alignNat_eq h]
  split
  · exact Nat.dvd_of_mod_eq_zero (by assumption)
  · have hd := Nat.div_add_mod value alignment
    refine ⟨value / alignment + 1, ?_⟩
    rw [Nat.mul_add, Nat.mul_one]
    omega

/-- Aligning behind a multiple is aligning. -/
theorem alignNat_add {base alignment : Nat} (h : 0 < alignment) (hd : alignment ∣ base)
    (value : Nat) : alignNat (base + value) alignment = base + alignNat value alignment := by
  have hm : (base + value) % alignment = value % alignment := by
    obtain ⟨k, rfl⟩ := hd
    rw [Nat.mul_add_mod]
  rw [alignNat_eq h, alignNat_eq h, hm]
  split <;> omega

/-- Rounding up keeps the order. -/
theorem alignNat_mono {a b : Nat} (h : a ≤ b) {alignment : Nat} (hp : 0 < alignment) :
    alignNat a alignment ≤ alignNat b alignment := by
  obtain ⟨k, hk⟩ := dvd_alignNat b hp
  have hb := le_alignNat b hp
  have hla := Nat.mod_lt a hp
  have hda := Nat.div_add_mod a alignment
  rw [alignNat_eq hp a]
  split
  · omega
  · have hlt : alignment * (a / alignment) < alignment * k := by omega
    have hle : a / alignment + 1 ≤ k := Nat.lt_of_mul_lt_mul_left hlt
    have := Nat.mul_le_mul_left alignment hle
    rw [Nat.mul_add, Nat.mul_one] at this
    omega

end CilRestore.Bytes
