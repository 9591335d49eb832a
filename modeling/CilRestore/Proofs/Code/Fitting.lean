import CilRestore.Proofs.Code.Writing

/-!
# Operands that fit

An operand fits an opcode when it is of its kind, lies in the range of its bytes, and is what the
scope has for its token. Such an operand is written without fault, and what is written is read as
the operand again (`Operand.Fits.written_read`).
-/

namespace CilRestore

namespace Bytes

/-- A number from zero on that is below the power of a width fits it. -/
theorem unsigned?_of_range (width : Nat) {n : Int} (h : 0 ≤ n) (hn : n < (256 ^ width : Nat)) :
    ∃ bs, unsigned? width n = some bs ∧ bs.length = width ∧ (number bs : Int) = n := by
  refine ⟨ofNumber width n.toNat, by rw [unsigned?, if_pos ⟨h, hn⟩], length_ofNumber _ _, ?_⟩
  rw [number_ofNumber, Nat.mod_eq_of_lt (by omega), Int.toNat_of_nonneg h]

/-- A remainder of a number that has a two's complement form is its form. -/
theorem signed_ofNumber (width : Nat) {n : Int} (h : -((256 ^ width : Nat) : Int) ≤ 2 * n)
    (hn : 2 * n < (256 ^ width : Nat)) :
    signed (ofNumber width (n % (256 ^ width : Nat)).toNat) = n := by
  have hpos : 0 < 256 ^ width := Nat.pow_pos (by omega)
  rw [signed, length_ofNumber, number_ofNumber]
  generalize 256 ^ width = unit at h hn hpos
  have hmod := Int.emod_nonneg n (b := (unit : Int)) (by omega)
  have hlt := Int.emod_lt_of_pos n (b := (unit : Int)) (by omega)
  rw [Nat.mod_eq_of_lt (by omega)]
  by_cases hneg : n < 0
  · have he : n % (unit : Int) = n + unit := by
      rw [← Int.add_emod_right, Int.emod_eq_of_lt (by omega) (by omega)]
    rw [if_neg (by omega)]
    omega
  · have he : n % (unit : Int) = n := Int.emod_eq_of_lt (by omega) (by omega)
    rw [if_pos (by omega)]
    omega

/-- A number of either sign fits a width when it is in the halves of the power. -/
theorem signed?_of_range (width : Nat) {n : Int} (h : -((256 ^ width : Nat) : Int) ≤ 2 * n)
    (hn : 2 * n < (256 ^ width : Nat)) :
    ∃ bs, signed? width n = some bs ∧ bs.length = width ∧ signed bs = n :=
  ⟨_, by rw [signed?, if_pos ⟨h, hn⟩], length_ofNumber _ _, signed_ofNumber width h hn⟩

end Bytes

/-- An operand is what the scope has for a token of an allowed table. -/
def Operand.IsToken (scope : Scope) (kind : OperandKind) (operand : Operand) : Prop :=
  ∃ value : Nat, value < 2 ^ 32 ∧
    (∃ table ∈ kind.tables, (table : Int) = (Token.ofValue value).table) ∧
    if (Token.ofValue value).table = userStringTable then
      ∃ text, scope.userString (Token.ofValue value).row = some text ∧
        operand = .text value text
    else
      ∃ row, scope.row (Token.ofValue value) = some row ∧ row.tokenValue = value ∧
        operand = .row row

/-- An operand is of the kind of an opcode and in the range of its bytes. -/
def Operand.Fits (scope : Scope) (op : Opcode) (operand : Operand) : Prop :=
  match op.operand with
  | .nothing => operand = .nothing
  | .shortVariable => ∃ n : Int, 0 ≤ n ∧ n < 2 ^ 8 ∧ operand = .integer n
  | .longVariable => ∃ n : Int, 0 ≤ n ∧ n < 2 ^ 16 ∧ operand = .integer n
  | .shortInteger => ∃ n : Int, operand = .integer n ∧
      if op.value = Opcode.loadSignedByte then -2 ^ 7 ≤ n ∧ n < 2 ^ 7 else 0 ≤ n ∧ n < 2 ^ 8
  | .integer => ∃ n : Int, -2 ^ 31 ≤ n ∧ n < 2 ^ 31 ∧ operand = .integer n
  | .longInteger => ∃ n : Int, -2 ^ 63 ≤ n ∧ n < 2 ^ 63 ∧ operand = .integer n
  | .shortReal => ∃ bits < 2 ^ 32, ¬ Binary.IsSignalling bits ∧
      operand = .real (Decode.widenedReal bits)
  | .real => ∃ bits, operand = .real bits
  | .shortBranch | .branch => ∃ id, operand = .target id
  | .switch => ∃ ids, operand = .targets ids
  | kind => operand.IsToken scope kind

namespace Operand

variable {scope : Scope} {op : Opcode} {operand : Operand}

/-- A token operand is found under the number that it is written as. -/
theorem IsToken.written_read {kind : OperandKind} (h : operand.IsToken scope kind) :
    ∃ bytes, operand.tokenValue >>= (fun token => fitting (Bytes.unsigned? 4 token)) = .ok bytes ∧
      bytes.length = 4 ∧ ∀ owner start,
        Decode.token scope owner start kind (Bytes.number bytes) = .ok operand := by
  obtain ⟨value, hlt, ⟨table, htable, heq⟩, hfound⟩ := h
  obtain ⟨bytes, hb, hl, hn⟩ := Bytes.unsigned?_of_range 4 (n := value) (by omega)
    (by exact_mod_cast hlt)
  have hn : Bytes.number bytes = value := by exact_mod_cast hn
  have hany : kind.tables.any (fun table => (table : Int) = (Token.ofValue value).table) = true :=
    List.any_eq_true.mpr ⟨table, htable, by simpa using heq⟩
  have hvalue : operand.tokenValue = .ok (value : Int) := by
    split at hfound
    · obtain ⟨text, _, rfl⟩ := hfound
      rfl
    · obtain ⟨row, _, hrow, rfl⟩ := hfound
      rw [tokenValue, tokenValue?, hrow]
  refine ⟨bytes, by rw [hvalue, Sequence.ok_bind, hb, fitting_some], hl, ?_⟩
  intro owner start
  rw [hn, Decode.token]
  simp only [hany, not_true_eq_false, if_false]
  split at hfound
  · rename_i ht
    obtain ⟨text, htext, rfl⟩ := hfound
    rw [if_pos ht, htext]
  · rename_i ht
    obtain ⟨row, hrow, _, rfl⟩ := hfound
    rw [if_neg ht, hrow]

/-- An operand without targets that fits is written in the bytes of its opcode, and these are read
as the operand. -/
theorem Fits.written_read (h : operand.Fits scope op) (hs : ¬ op.isSwitch) (hb : ¬ op.isBranch) :
    ∃ bytes, bytes.length = op.operand.size ∧
      (∀ (p : Pool) (offset index : Int),
        p.encodeOperand ⟨op, operand, offset, index⟩ = .ok bytes) ∧
      ∀ owner start stop,
        Decode.operand scope owner start stop op bytes = .ok (.ready operand) := by
  have htoken : ∀ kind, operand.IsToken scope kind →
      ∃ bytes, bytes.length = 4 ∧
        operand.tokenValue >>= (fun token => fitting (Bytes.unsigned? 4 token)) = .ok bytes ∧
        ∀ owner start, RawOperand.ready <$> Decode.token scope owner start kind
          (Bytes.number bytes) = .ok (.ready operand) := by
    intro kind hm
    obtain ⟨bytes, hw, hl, hr⟩ := hm.written_read
    exact ⟨bytes, hl, hw, fun owner start => Sequence.map_eq_ok.mpr ⟨_, hr owner start, rfl⟩⟩
  simp only [Opcode.isSwitch, Opcode.isBranch, Bool.or_eq_true, beq_iff_eq, not_or] at hs hb
  unfold Fits at h
  unfold Pool.encodeOperand Decode.operand
  cases hk : op.operand with
  | nothing =>
    simp only [hk] at h ⊢
    subst h
    exact ⟨[], rfl, fun _ _ _ => rfl, fun _ _ _ => rfl⟩
  | shortVariable | longVariable =>
    simp only [hk] at h ⊢
    obtain ⟨n, h0, hn, rfl⟩ := h
    obtain ⟨bytes, hw, hl, hr⟩ := Bytes.unsigned?_of_range op.operand.size h0
      (by simpa [hk, OperandKind.size] using hn)
    rw [hk] at hw hl
    exact ⟨bytes, hl, fun _ _ _ => Sequence.bind_eq_ok.mpr ⟨n, rfl, congrArg fitting hw⟩,
      fun _ _ _ => by simp only [hr]⟩
  | shortInteger =>
    simp only [hk] at h ⊢
    obtain ⟨n, rfl, hn⟩ := h
    refine ⟨Bytes.ofNumber 1 (n % 256).toNat, Bytes.length_ofNumber _ _,
      fun _ _ _ => Sequence.map_eq_ok.mpr ⟨n, rfl, rfl⟩, fun _ _ _ => ?_⟩
    split
    · rename_i hv
      rw [if_pos hv] at hn
      have hr := Bytes.signed_ofNumber 1 (n := n) (by norm_num; omega)
        (by norm_num; omega)
      simp only [Nat.pow_one, Nat.cast_ofNat] at hr
      rw [hr]
    · rename_i hv
      rw [if_neg hv] at hn
      rw [Bytes.number_ofNumber, Int.emod_eq_of_lt hn.1 (by omega), Nat.mod_eq_of_lt (by omega),
        Int.toNat_of_nonneg hn.1]
  | integer | longInteger =>
    simp only [hk] at h ⊢
    obtain ⟨n, h0, hn, rfl⟩ := h
    obtain ⟨bytes, hw, hl, hr⟩ := Bytes.signed?_of_range op.operand.size (n := n)
      (by rw [hk, OperandKind.size]; omega) (by rw [hk, OperandKind.size]; omega)
    rw [hk] at hw hl
    exact ⟨bytes, hl, fun _ _ _ => Sequence.bind_eq_ok.mpr ⟨n, rfl, congrArg fitting hw⟩,
      fun _ _ _ => by simp only [hr]⟩
  | shortReal =>
    simp only [hk] at h ⊢
    obtain ⟨bits, hlt, hq, rfl⟩ := h
    refine ⟨Bytes.ofNumber 4 bits, Bytes.length_ofNumber _ _, fun _ _ _ => ?_, fun _ _ _ => ?_⟩
    · refine Sequence.map_eq_ok.mpr ⟨_, singleBits_widened hlt, ?_⟩
      rw [Binary.quieted_eq_self_iff.mpr hq]
    · rw [Bytes.number_ofNumber, Nat.mod_eq_of_lt (hlt.trans_eq (by norm_num))]
  | real =>
    simp only [hk] at h ⊢
    obtain ⟨bits, rfl⟩ := h
    refine ⟨Bytes.ofNumber 8 bits.toNat, Bytes.length_ofNumber _ _,
      fun _ _ _ => Sequence.map_eq_ok.mpr ⟨_, rfl, rfl⟩, fun _ _ _ => ?_⟩
    rw [Bytes.number_ofNumber, Nat.mod_eq_of_lt (bits.toNat_lt.trans_eq (by norm_num)),
      UInt64.ofNat_toNat]
  | shortBranch => exact absurd hk hb.1
  | branch => exact absurd hk hb.2
  | switch => exact absurd hk hs
  | method | field | type | member | signature | text =>
    simp only [hk] at h ⊢
    obtain ⟨bytes, hl, hw, hr⟩ := htoken _ h
    exact ⟨bytes, hl, fun _ _ _ => hw, fun owner start _ => hr owner start⟩

end Operand

end CilRestore
