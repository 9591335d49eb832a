import CilRestore.Binary.Format
import Mathlib.Tactic.Ring
import Mathlib.Tactic.NormNum

/-!
# Widening binary32

Every binary32 number is a binary64 number, so widening one and taking it back gives the same bits,
of subnormal numbers and infinities too. Of what is no number only the quiet kind comes back: the
quiet bit is set on the way, so the signalling kind does not.
-/

namespace CilRestore.Binary

/-- Scaling down by as much as a number was scaled up. -/
theorem roundScaled_cancel (n k : Nat) : roundScaled (n * 2 ^ k) (-(k : Int)) = n := by
  cases k with
  | zero => simp [roundScaled]
  | succ k =>
    have hp : 0 < 2 ^ (k + 1) := Nat.two_pow_pos _
    change (if 2 * (n * 2 ^ (k + 1) % 2 ^ (k + 1)) < 2 ^ (k + 1) then
      n * 2 ^ (k + 1) / 2 ^ (k + 1) else _) = n
    rw [Nat.mul_mod_left, if_pos (by omega), Nat.mul_div_cancel _ hp]

theorem log2_of_bounds {n k : Nat} (hl : 2 ^ k ≤ n) (hh : n < 2 ^ (k + 1)) : n.log2 = k := by
  have hn : n ≠ 0 := by
    have := Nat.two_pow_pos k
    omega
  exact (Nat.log2_eq_iff hn).mpr ⟨hl, hh⟩

namespace Format

/-- The bits of a significand of full precision, however many zeros follow it. -/
theorem ofMagnitude?_scaled_down {f : Format} {k m j : Nat} {e : Int} (hp : f.precision = k + 1)
    (hl : 2 ^ k ≤ m) (hh : m < 2 ^ (k + 1)) (he : f.minExponent ≤ e)
    (hfit : (e - f.minExponent).toNat * f.exponentWeight + m < f.infinity) :
    f.ofMagnitude? (m * 2 ^ j) (e - j) =
      some ((e - f.minExponent).toNat * f.exponentWeight + m) := by
  have hlog : (m * 2 ^ j).log2 = k + j := by
    apply log2_of_bounds
    · rw [Nat.pow_add]
      exact Nat.mul_le_mul_right _ hl
    · rw [show k + j + 1 = k + 1 + j by omega, Nat.pow_add]
      exact Nat.mul_lt_mul_of_pos_right hh (Nat.two_pow_pos j)
  have hne : m * 2 ^ j ≠ 0 := by
    have hm : 0 < m := Nat.lt_of_lt_of_le (Nat.two_pow_pos k) hl
    exact Nat.ne_of_gt (Nat.mul_pos hm (Nat.two_pow_pos j))
  have hleast : max (((k + j : Nat) : Int) + (e - j) - (k : Nat)) f.minExponent = e := by omega
  rw [ofMagnitude?, if_neg hne, hlog, hp, Nat.add_sub_cancel]
  simp only [hleast]
  rw [show e - (j : Int) - e = -(j : Int) by omega, roundScaled_cancel, if_pos hfit]

/-- The bits of a significand of less than full precision, scaled up to it. -/
theorem ofMagnitude?_scaled_up {f : Format} {k s i : Nat} {e : Int} (hp : f.precision = k + 1)
    (hl : 2 ^ k ≤ s * 2 ^ i) (hh : s * 2 ^ i < 2 ^ (k + 1)) (he : f.minExponent ≤ e)
    (hfit : (e - f.minExponent).toNat * f.exponentWeight + s * 2 ^ i < f.infinity) :
    f.ofMagnitude? s (e + i) =
      some ((e - f.minExponent).toNat * f.exponentWeight + s * 2 ^ i) := by
  have hs : s ≠ 0 := by
    rintro rfl
    have := Nat.two_pow_pos k
    omega
  have hi : i ≤ k := by
    by_contra hc
    have h1 : 2 ^ (k + 1) ≤ 2 ^ i := Nat.pow_le_pow_right (by decide) (by omega)
    have h2 : 2 ^ i ≤ s * 2 ^ i := Nat.le_mul_of_pos_left _ (Nat.pos_of_ne_zero hs)
    omega
  have hlog : s.log2 = k - i := by
    apply log2_of_bounds
    · apply Nat.le_of_mul_le_mul_right _ (Nat.two_pow_pos i)
      rwa [← Nat.pow_add, Nat.sub_add_cancel hi]
    · apply Nat.lt_of_mul_lt_mul_right (a := 2 ^ i)
      rwa [← Nat.pow_add, show k - i + 1 + i = k + 1 by omega]
  have hleast : max (((k - i : Nat) : Int) + (e + i) - (k : Nat)) f.minExponent = e := by omega
  rw [ofMagnitude?, if_neg hs, hlog, hp, Nat.add_sub_cancel]
  simp only [hleast]
  rw [show e + (i : Int) - e = (i : Int) by omega]
  exact if_pos hfit

/-- The bits of a subnormal significand, however many zeros follow it. -/
theorem ofMagnitude?_subnormal {f : Format} {k m j : Nat} (hp : f.precision = k + 1) (hm : m ≠ 0)
    (hh : m < 2 ^ k) (hfit : m < f.infinity) :
    f.ofMagnitude? (m * 2 ^ j) (f.minExponent - j) = some m := by
  have hne : m * 2 ^ j ≠ 0 := Nat.ne_of_gt (Nat.mul_pos (by omega) (Nat.two_pow_pos j))
  have hlog : (m * 2 ^ j).log2 < k + j := by
    rw [Nat.log2_lt hne, Nat.pow_add]
    exact Nat.mul_lt_mul_of_pos_right hh (Nat.two_pow_pos j)
  have hleast : max (((m * 2 ^ j).log2 : Int) + (f.minExponent - j) - (k : Nat)) f.minExponent =
      f.minExponent := by omega
  rw [ofMagnitude?, if_neg hne, hp, Nat.add_sub_cancel]
  simp only [hleast]
  rw [show f.minExponent - (j : Int) - f.minExponent = -(j : Int) by omega, roundScaled_cancel,
    Int.sub_self, Int.toNat_zero, Nat.zero_mul, Nat.zero_add, if_pos hfit]

/-- A finite number is converted by its magnitude, and the sign stays. -/
theorem convert?_finite {source target : Format} {bits s m : Nat} {e : Int} {negative : Bool}
    (hd : source.decode bits = .finite negative s e) (hm : target.ofMagnitude? s e = some m) :
    source.convert? target bits = some (target.signBit negative + m) := by
  rw [convert?, hd]
  simp only [hm, Option.map_some]

end Format

/-! ### The two formats -/

theorem single_decode (bits : Nat) : single.decode bits =
    let negative := decide (2147483648 ≤ bits)
    let rest := bits % 2147483648
    if 2139095040 ≤ rest then
      if rest % 8388608 = 0 then .infinite negative else .nan negative (rest % 8388608)
    else if rest / 8388608 = 0 then .finite negative (rest % 8388608) (-149)
    else .finite negative (8388608 + rest % 8388608) (-149 + (rest / 8388608 : Nat) - 1) := rfl

theorem double_decode (bits : Nat) : double.decode bits =
    let negative := decide (9223372036854775808 ≤ bits)
    let rest := bits % 9223372036854775808
    if 9218868437227405312 ≤ rest then
      if rest % 4503599627370496 = 0 then .infinite negative
      else .nan negative (rest % 4503599627370496)
    else if rest / 4503599627370496 = 0 then .finite negative (rest % 4503599627370496) (-1074)
    else .finite negative (4503599627370496 + rest % 4503599627370496)
      (-1074 + (rest / 4503599627370496 : Nat) - 1) := rfl

theorem double_signBit (negative : Bool) :
    double.signBit negative = if negative then 9223372036854775808 else 0 := rfl

theorem single_signBit (negative : Bool) :
    single.signBit negative = if negative then 2147483648 else 0 := rfl

/-- Binary64 bits from their parts. -/
theorem double_decode_finite (negative : Bool) {x m : Nat} (hl : 4503599627370496 ≤ m)
    (hh : m < 9007199254740992) (he : x < 2046) :
    double.decode (double.signBit negative + (x * 4503599627370496 + m)) =
      .finite negative m (-1074 + x) := by
  have hrest : (double.signBit negative + (x * 4503599627370496 + m)) %
      9223372036854775808 = x * 4503599627370496 + m := by
    rw [double_signBit]
    cases negative <;> simp only [Bool.false_eq_true, if_false, if_true] <;> omega
  have hneg : decide (9223372036854775808 ≤
      double.signBit negative + (x * 4503599627370496 + m)) = negative := by
    rw [double_signBit]
    cases negative <;> simp only [Bool.false_eq_true, if_false, if_true, decide_eq_true_eq,
      decide_eq_false_iff_not] <;> omega
  have hq : (x * 4503599627370496 + m) / 4503599627370496 = x + 1 := by omega
  have hr : (x * 4503599627370496 + m) % 4503599627370496 = m - 4503599627370496 := by
    omega
  rw [double_decode]
  simp only [hrest, hneg, hq, hr]
  rw [if_neg (by omega), if_neg (by omega), Nat.add_sub_cancel' hl]
  congr 1
  omega

/-- The sign and the rest of binary32 bits. -/
theorem single_parts {bits : Nat} (hb : bits < 4294967296) :
    single.signBit (decide (2147483648 ≤ bits)) + bits % 2147483648 = bits := by
  rw [single_signBit]
  by_cases h : 2147483648 ≤ bits <;> simp only [h, decide_true, decide_false, if_true,
    Bool.false_eq_true, if_false] <;> omega

/-- A finite number of full precision comes back. -/
theorem narrow_widen_normal {bits : Nat} (hb : bits < 4294967296)
    (hn : bits % 2147483648 < 2139095040) (he : bits % 2147483648 / 8388608 ≠ 0) :
    ∃ wide, single.convert? double bits = some wide ∧ wide < 18446744073709551616 ∧
      double.convert? single wide = some bits := by
  have hparts := single_parts hb
  obtain ⟨rest, hrest⟩ : ∃ rest, rest = bits % 2147483648 := ⟨_, rfl⟩
  rw [← hrest] at hn he hparts
  obtain ⟨e, hediv⟩ : ∃ e, rest / 8388608 = e + 1 := ⟨rest / 8388608 - 1, by omega⟩
  have hdecode : single.decode bits = .finite (decide (2147483648 ≤ bits))
      (8388608 + rest % 8388608) (-149 + (e : Int)) := by
    rw [single_decode]
    simp only [← hrest]
    rw [if_neg (by omega), if_neg he, hediv]
    congr 1
    omega
  have hup := Format.ofMagnitude?_scaled_up (f := double) (k := 52) (s := 8388608 + rest % 8388608)
    (i := 29) (e := -178 + (e : Int)) rfl (by omega) (by omega)
    (by simp only [double]; omega) (by
      simp only [double, Format.exponentWeight, Format.infinity]
      norm_num
      omega)
  have hexp : (-178 + (e : Int) - double.minExponent).toNat * double.exponentWeight +
      (8388608 + rest % 8388608) * 2 ^ 29 =
      (e + 896) * 4503599627370496 + (8388608 + rest % 8388608) * 536870912 := by
    have h1 : (-178 + (e : Int) - double.minExponent).toNat = e + 896 := by
      simp only [double]
      omega
    rw [h1]
    rfl
  rw [hexp, show -178 + (e : Int) + (29 : Nat) = -149 + (e : Int) by omega] at hup
  have hwide := double_decode_finite (decide (2147483648 ≤ bits)) (x := e + 896)
    (m := (8388608 + rest % 8388608) * 536870912) (by omega) (by omega) (by omega)
  have hdown := Format.ofMagnitude?_scaled_down (f := single) (k := 23)
    (m := 8388608 + rest % 8388608) (j := 29) (e := -149 + (e : Int)) rfl (by omega) (by omega)
    (by simp only [single]; omega) (by
      simp only [single, Format.exponentWeight, Format.infinity]
      norm_num
      omega)
  have hback : (-149 + (e : Int) - single.minExponent).toNat * single.exponentWeight +
      (8388608 + rest % 8388608) = rest := by
    have h1 : (-149 + (e : Int) - single.minExponent).toNat = e := by
      simp only [single]
      omega
    have h2 : single.exponentWeight = 8388608 := rfl
    rw [h1, h2]
    omega
  rw [hback, show -149 + (e : Int) - (29 : Nat) = -1074 + ((e + 896 : Nat) : Int) by omega] at hdown
  refine ⟨_, Format.convert?_finite hdecode hup, ?_, ?_⟩
  · rw [double_signBit]
    split <;> omega
  · rw [Format.convert?_finite hwide hdown, hparts]

/-- A subnormal number comes back. -/
theorem narrow_widen_subnormal {bits : Nat} (hb : bits < 4294967296)
    (he : bits % 2147483648 / 8388608 = 0) (hz : bits % 2147483648 ≠ 0) :
    ∃ wide, single.convert? double bits = some wide ∧ wide < 18446744073709551616 ∧
      double.convert? single wide = some bits := by
  have hparts := single_parts hb
  obtain ⟨s, hs⟩ : ∃ s, s = bits % 2147483648 := ⟨_, rfl⟩
  rw [← hs] at he hz hparts
  have hdecode : single.decode bits = .finite (decide (2147483648 ≤ bits)) s (-149) := by
    rw [single_decode]
    simp only [← hs]
    rw [if_neg (by omega), if_pos he, Nat.mod_eq_of_lt (by omega)]
  -- the leading bit of the significand says how far it is scaled up
  have hlog : s.log2 < 23 := (Nat.log2_lt hz).mpr (by omega)
  have hlow : 2 ^ s.log2 ≤ s := Nat.log2_self_le hz
  have hhigh : s < 2 ^ (s.log2 + 1) := Nat.lt_log2_self
  obtain ⟨i, hi⟩ : ∃ i, s.log2 + i = 52 := ⟨52 - s.log2, by omega⟩
  have hl : 4503599627370496 ≤ s * 2 ^ i := by
    calc 4503599627370496 = 2 ^ s.log2 * 2 ^ i := by rw [← Nat.pow_add, hi]
      _ ≤ s * 2 ^ i := Nat.mul_le_mul_right _ hlow
  have hh : s * 2 ^ i < 9007199254740992 := by
    calc s * 2 ^ i < 2 ^ (s.log2 + 1) * 2 ^ i :=
          Nat.mul_lt_mul_of_pos_right hhigh (Nat.two_pow_pos i)
      _ = 9007199254740992 := by
          rw [← Nat.pow_add, show s.log2 + 1 + i = 53 by omega]
  have hup := Format.ofMagnitude?_scaled_up (f := double) (k := 52) (s := s) (i := i)
    (e := -149 - (i : Int)) rfl hl hh (by simp only [double]; omega) (by
      simp only [double, Format.exponentWeight, Format.infinity]
      norm_num
      omega)
  have hexp : (-149 - (i : Int) - double.minExponent).toNat * double.exponentWeight + s * 2 ^ i =
      (925 - i) * 4503599627370496 + s * 2 ^ i := by
    have h1 : (-149 - (i : Int) - double.minExponent).toNat = 925 - i := by
      simp only [double]
      omega
    rw [h1]
    rfl
  rw [hexp, show -149 - (i : Int) + i = -149 by omega] at hup
  have hwide := double_decode_finite (decide (2147483648 ≤ bits)) (x := 925 - i)
    (m := s * 2 ^ i) hl hh (by omega)
  have hdown := Format.ofMagnitude?_subnormal (f := single) (k := 23) (m := s) (j := i) rfl hz
    (by omega) (by
      simp only [single, Format.exponentWeight, Format.infinity]
      norm_num
      omega)
  rw [show single.minExponent - (i : Int) = -1074 + ((925 - i : Nat) : Int) by
    simp only [single]
    omega] at hdown
  refine ⟨_, Format.convert?_finite hdecode hup, ?_, ?_⟩
  · rw [double_signBit]
    split <;> omega
  · rw [Format.convert?_finite hwide hdown, hparts]

/-- Zero and infinity come back. -/
theorem narrow_widen_bare {bits : Nat} (hb : bits < 4294967296)
    (hr : bits % 2147483648 = 0 ∨ bits % 2147483648 = 2139095040) :
    ∃ wide, single.convert? double bits = some wide ∧ wide < 18446744073709551616 ∧
      double.convert? single wide = some bits := by
  have hbits : bits = 0 ∨ bits = 2147483648 ∨ bits = 2139095040 ∨ bits = 4286578688 := by omega
  rcases hbits with rfl | rfl | rfl | rfl
  · exact ⟨0, rfl, by decide, rfl⟩
  · exact ⟨9223372036854775808, rfl, by decide, rfl⟩
  · exact ⟨9218868437227405312, rfl, by decide, rfl⟩
  · exact ⟨18442240474082181120, rfl, by decide, rfl⟩

/-! ### Numbers that are none -/

/-- Binary32 bits are signalling when they are no number and the quiet bit is not set. -/
def IsSignalling (bits : Nat) : Prop :=
  2139095040 < bits % 2147483648 ∧ bits % 2147483648 < 2143289344

instance (bits : Nat) : Decidable (IsSignalling bits) :=
  inferInstanceAs (Decidable (_ ∧ _))

/-- Binary32 bits with the quiet bit set where they are no number. -/
def quieted (bits : Nat) : Nat := if IsSignalling bits then bits + 4194304 else bits

/-- Only a signalling number is changed by quieting. -/
theorem quieted_eq_self_iff {bits : Nat} : quieted bits = bits ↔ ¬ IsSignalling bits := by
  unfold quieted
  split
  · simp_all
  · simp_all

theorem quieted_of_signalling {bits : Nat} (h : IsSignalling bits) :
    quieted bits = bits + 4194304 := if_pos h

/-- A quieted number has the width that it had. -/
theorem quieted_lt {bits : Nat} (hb : bits < 4294967296) : quieted bits < 4294967296 := by
  by_cases h : IsSignalling bits
  · have hs := h
    unfold IsSignalling at hs
    rw [quieted_of_signalling h]
    omega
  · rwa [quieted_eq_self_iff.mpr h]

theorem double_payload (payload : Nat) : double.payloadFrom single payload =
    if payload * 536870912 / 1 < 2251799813685248 then payload * 536870912 / 1 + 2251799813685248
    else payload * 536870912 / 1 := rfl

theorem single_payload (payload : Nat) : single.payloadFrom double payload =
    if payload * 1 / 536870912 < 4194304 then payload * 1 / 536870912 + 4194304
    else payload * 1 / 536870912 := rfl

/-- What is no number comes back quiet. -/
theorem narrow_widen_nan {bits : Nat} (hb : bits < 4294967296)
    (hn : 2139095040 < bits % 2147483648) :
    ∃ wide, single.convert? double bits = some wide ∧ wide < 18446744073709551616 ∧
      double.convert? single wide = some (quieted bits) := by
  have hparts := single_parts hb
  obtain ⟨payload, hpayload⟩ : ∃ payload, bits % 2147483648 = 2139095040 + payload :=
    ⟨bits % 2147483648 - 2139095040, by omega⟩
  obtain ⟨quiet, hquiet⟩ : ∃ quiet, quiet = if payload < 4194304 then payload + 4194304
    else payload := ⟨_, rfl⟩
  have hrange : 4194304 ≤ quiet ∧ quiet < 8388608 := by split at hquiet <;> omega
  have hdecode : single.decode bits = .nan (decide (2147483648 ≤ bits)) payload := by
    rw [single_decode]
    simp only [hpayload]
    rw [if_pos (by omega), if_neg (by omega)]
    congr 1
    omega
  have hup : double.payloadFrom single payload = quiet * 536870912 := by
    rw [double_payload, hquiet]
    split <;> split <;> omega
  have hdown : single.payloadFrom double (quiet * 536870912) = quiet := by
    rw [single_payload]
    split <;> omega
  have hinf : double.infinity = 9218868437227405312 := rfl
  have hsinf : single.infinity = 2139095040 := rfl
  have hwide : double.decode (double.signBit (decide (2147483648 ≤ bits)) + 9218868437227405312 +
      quiet * 536870912) = .nan (decide (2147483648 ≤ bits)) (quiet * 536870912) := by
    have hrest : (double.signBit (decide (2147483648 ≤ bits)) + 9218868437227405312 +
        quiet * 536870912) % 9223372036854775808 = 9218868437227405312 + quiet * 536870912 := by
      rw [double_signBit]
      split <;> omega
    have hneg : decide (9223372036854775808 ≤ double.signBit (decide (2147483648 ≤ bits)) +
        9218868437227405312 + quiet * 536870912) = decide (2147483648 ≤ bits) := by
      rw [double_signBit]
      by_cases h : 2147483648 ≤ bits <;> simp only [h, decide_true, decide_false, if_true,
        Bool.false_eq_true, if_false, decide_eq_true_eq, decide_eq_false_iff_not] <;> omega
    rw [double_decode]
    simp only [hrest, hneg]
    rw [if_pos (by omega), if_neg (by omega)]
    congr 1
    omega
  refine ⟨_, by rw [Format.convert?, hdecode], ?_, ?_⟩
  · rw [hup, hinf, double_signBit]
    split <;> omega
  · rw [hup, hinf, Format.convert?, hwide]
    simp only [hdown, hsinf, Option.some.injEq]
    by_cases h : IsSignalling bits
    · have hs := h
      unfold IsSignalling at hs
      rw [quieted_of_signalling h, hquiet, if_pos (by omega)]
      omega
    · have hs := h
      unfold IsSignalling at hs
      rw [quieted_eq_self_iff.mpr h, hquiet, if_neg (by omega)]
      omega

/-- A binary32 number comes back from binary64 with its quiet bit set where it is none. -/
theorem narrow_widen {bits : Nat} (hb : bits < 4294967296) :
    ∃ wide, single.convert? double bits = some wide ∧ wide < 18446744073709551616 ∧
      double.convert? single wide = some (quieted bits) := by
  by_cases hn : 2139095040 < bits % 2147483648
  · exact narrow_widen_nan hb hn
  · have hq : quieted bits = bits := quieted_eq_self_iff.mpr fun h => hn h.1
    rw [hq]
    by_cases hbare : bits % 2147483648 = 0 ∨ bits % 2147483648 = 2139095040
    · exact narrow_widen_bare hb hbare
    · by_cases he : bits % 2147483648 / 8388608 = 0
      · exact narrow_widen_subnormal hb he (by omega)
      · exact narrow_widen_normal hb (by omega) he

end CilRestore.Binary
