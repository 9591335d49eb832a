import CilRestore.Proofs.Body.Parsed
import CilRestore.Proofs.Layout.Carrying

/-!
# Compiled bodies

An instruction that can be written takes as many bytes as its size says, so the code of an order is
as long as laying it out counted. A body that was laid out and serialized is then read back as what
it was made of, wherever it stands in a file (`parse_serialize`): the reader finds the code behind
the header that the writer chose, and the clauses behind the code.
-/

namespace CilRestore

/-! ### The bytes of an instruction -/

namespace Bytes

theorem length_of_unsigned? {width : Nat} {value : Int} {bs : Bytes}
    (h : unsigned? width value = some bs) : bs.length = width := by
  rw [(unsigned?_eq_some.mp h).2.2, length_ofNumber]

theorem length_of_signed? {width : Nat} {value : Int} {bs : Bytes}
    (h : signed? width value = some bs) : bs.length = width := by
  unfold signed? at h
  split at h
  · rw [← Option.some.inj h, length_ofNumber]
  · cases h

end Bytes

namespace Pool

variable {p : Pool} {i : Instruction} {bs : Bytes}

/-- A branch has an operand of its width. -/
theorem length_of_encodeBranch {width : Nat} (h : p.encodeBranch i width = .ok bs) :
    bs.length = width := by
  unfold encodeBranch at h
  split at h
  · cases h
  · exact Bytes.length_of_signed? (fitting_eq_ok.mp h)

/-- A switch that can be written has a table, four bytes for the count and for each entry. -/
theorem length_of_encodeTable (h : p.encodeTable i = .ok bs) :
    ∃ ids, i.operand.targets? = some ids ∧ bs.length = 4 + 4 * ids.length := by
  unfold encodeTable at h
  split at h
  · obtain ⟨_, _, h⟩ := Sequence.bind_eq_ok.mp h
    cases h
  · rename_i ids hids
    obtain ⟨count, hcount, h⟩ := Sequence.bind_eq_ok.mp h
    obtain ⟨entries, hentries, h⟩ := Sequence.bind_eq_ok.mp h
    simp only [pure, Except.pure, Except.ok.injEq] at h
    have hlen := Sequence.length_flatten_of_forall₂ (f := fun _ => 4)
      ((Sequence.mapM_eq_ok.mp hentries).imp fun _ _ h =>
        Bytes.length_of_signed? (fitting_eq_ok.mp h))
    rw [List.map_const', List.sum_replicate_nat, Nat.mul_comm] at hlen
    refine ⟨ids, hids, ?_⟩
    rw [← h, List.length_append, hlen, Bytes.length_of_unsigned? (fitting_eq_ok.mp hcount)]

/-- An operand of a kind that is no table takes what the kind says. -/
theorem length_of_encodeOperand (hk : i.opcode.operand ≠ .switch)
    (h : p.encodeOperand i = .ok bs) : bs.length = i.opcode.operand.size := by
  unfold encodeOperand at h
  split at h <;> rename_i hkind
  case h_1 =>
    rw [← Except.ok.inj h, hkind]
    rfl
  case h_4 | h_7 | h_8 =>
    obtain ⟨_, _, h⟩ := Sequence.map_eq_ok.mp h
    rw [← h, hkind, Bytes.length_ofNumber]
    rfl
  case h_9 | h_10 =>
    rw [length_of_encodeBranch h, hkind]
    rfl
  case h_11 => exact absurd hkind hk
  case h_2 | h_3 =>
    obtain ⟨_, _, h⟩ := Sequence.bind_eq_ok.mp h
    rw [Bytes.length_of_unsigned? (fitting_eq_ok.mp h), hkind]
    rfl
  case h_5 | h_6 =>
    obtain ⟨_, _, h⟩ := Sequence.bind_eq_ok.mp h
    rw [Bytes.length_of_signed? (fitting_eq_ok.mp h), hkind]
    rfl
  case h_12 =>
    obtain ⟨_, _, h⟩ := Sequence.bind_eq_ok.mp h
    rw [Bytes.length_of_unsigned? (fitting_eq_ok.mp h)]
    cases hop : i.opcode.operand <;> simp_all [OperandKind.size]

/-- An instruction that can be written takes as many bytes as its size says. -/
theorem length_of_encode (h : p.encode i = .ok bs) : bs.length = p.sizeOf i := by
  obtain ⟨operand, hoperand, rfl⟩ := Sequence.map_eq_ok.mp h
  rw [List.length_append, Opcode.length_bytes]
  by_cases hk : i.opcode.operand = .switch
  · have hswitch : i.opcode.isSwitch = true := by rw [Opcode.isSwitch, hk]; rfl
    rw [encodeOperand, hk] at hoperand
    obtain ⟨ids, hids, hlen⟩ := length_of_encodeTable hoperand
    rw [sizeOf_of_table (by rw [Instruction.lacksTable, hids]; simp), Instruction.size,
      if_pos hswitch, hids, hlen, Option.getD_some, Nat.add_assoc]
  · have hswitch : i.opcode.isSwitch = false := by
      rw [Opcode.isSwitch]
      exact beq_eq_false_iff_ne.mpr hk
    rw [sizeOf_of_table (by rw [Instruction.lacksTable, hswitch, Bool.false_and]),
      Instruction.size, hswitch, length_of_encodeOperand hk hoperand]
    rfl

/-- The code of an order takes the bytes of its instructions. -/
theorem length_of_encodeAll {order : List Nat} (h : p.encodeAll order = .ok bs) :
    bs.length = (order.map fun id => p.sizeOf (p.fetch id)).sum := by
  obtain ⟨parts, hparts, rfl⟩ := Sequence.map_eq_ok.mp h
  exact Sequence.length_flatten_of_forall₂
    ((Sequence.mapM_eq_ok.mp hparts).imp fun _ _ h => length_of_encode h)

end Pool

/-! ### Reading compiled bodies -/

/-- Whether bytes begin like a body with a tiny header. -/
def Bytes.startsTiny (bs : Bytes) : Bool :=
  bs.head?.any fun first => first.toNat % 4 == BodyFormat.tiny

/-- The first byte of a serialized body tells which header was chosen. -/
theorem Serialized.startsTiny {header : BodyHeader} {layout : Layout} {code body : Bytes}
    (s : Serialized header layout code body) :
    body.startsTiny = isTinyBody header layout s.depth := by
  cases ht : isTinyBody header layout s.depth with
  | true =>
    rw [s.body_of_tiny ht, Bytes.startsTiny, List.head?_cons, Option.any_some, UInt8.toNat_ofNat',
      BodyFormat.tiny, beq_iff_eq]
    omega
  | false =>
    obtain ⟨first, rest, hbody, hfirst⟩ := s.exists_fat ht
    rw [hbody, Bytes.startsTiny, List.head?_cons, Option.any_some, hfirst]
    rfl

/-- A body that is laid out and serialized is read back wherever it stands, one with a fat header at
a multiple of four: its code is that of the instructions and as long as was laid out, and it has the
clauses that were carried over. The header is tiny exactly when the code is short and there is
nothing else to say; it then promises a stack that is deep enough. -/
theorem parse_serialize {p q : Pool} {order : List Nat} {clauses : List Clause}
    {header : BodyHeader} {layout : Layout} {body : Bytes}
    (hlayout : (layOut order clauses).Ends p layout q)
    (hbody : serialize q order header layout = .ok body) :
    ∃ code depth, q.encodeAll order = .ok code ∧ code.length = layout.codeSize ∧
      StackDepth.deepest q order layout.clauses = .ok depth ∧
      (body.startsTiny = true ↔ layout.codeSize ≤ 63 ∧ header.locals = 0 ∧
        header.initLocals = false ∧ layout.clauses = [] ∧ depth ≤ 8) ∧
      ∀ before : Bytes, (body.startsTiny = true ∨ 4 ∣ before.length) → ∀ after token,
        Stub.parse (before ++ (body ++ after)) (some (before.length : Int)) token = .ok
          { maxStack := if body.startsTiny then 8 else depth
            code
            locals := header.locals
            initLocals := header.initLocals
            clauses := layout.clauses
            headerSize := if body.startsTiny then 1 else 12
            totalSize := body.length
            isTiny := body.startsTiny } := by
  obtain ⟨code, hcode, written, hdepth⟩ := serialized_of_ok hbody
  obtain ⟨-, hclauses⟩ := layout_of_ends hlayout
  have hlen : code.length = layout.codeSize := by
    rw [Pool.length_of_encodeAll hcode, hclauses]
    rfl
  refine ⟨code, written.depth, hcode, hlen, hdepth, ?_, ?_⟩
  · rw [written.startsTiny, Serialized.isTinyBody_iff]
  · intro before hbefore after token
    rw [written.startsTiny] at hbefore ⊢
    refine written.parse_append hlen (fun hfat => ?_) after token
    rcases hbefore with htiny | halign
    · rw [hfat] at htiny
      cases htiny
    · exact halign

/-- A protected block and its handler that have moved by one byte, in a body that stands behind four
bytes and before another one. -/
theorem parse_serialize_of_handler :
    let ldnull : Opcode := ⟨0x14, "ldnull", .nothing, some 0, some 1, .next⟩
    let pop : Opcode := ⟨0x26, "pop", .nothing, some 1, some 0, .next⟩
    let leave : Opcode := ⟨0xDE, "leave.s", .shortBranch, some 0, some 0, .branch⟩
    let ret : Opcode := ⟨0x2A, "ret", .nothing, some 0, some 0, .returns⟩
    let p : Pool := #[⟨ldnull, .nothing, 1, 1⟩, ⟨pop, .nothing, 2, 2⟩, ⟨leave, .target 5, 3, 3⟩,
      ⟨pop, .nothing, 5, 4⟩, ⟨leave, .target 5, 6, 5⟩, ⟨ret, .nothing, 8, 6⟩]
    let order := List.range 6
    let clauses : List Clause := [⟨0, 1, 4, 5, 3, 0x01000001⟩]
    let layout : Layout := ⟨8, [⟨0, 0, 4, 4, 3, 0x01000001⟩], []⟩
    let code : Bytes := [0x14, 0x26, 0xDE, 3, 0x26, 0xDE, 0, 0x2A]
    let body : Bytes := [0x1B, 0x30, 1, 0, 8, 0, 0, 0, 0, 0, 0, 0] ++ code ++
      [1, 16, 0, 0, 0, 0, 0, 0, 4, 4, 0, 3, 1, 0, 0, 1]
    (layOut order clauses).Ends p layout (layOut order clauses p).state ∧
      serialize (layOut order clauses p).state order ⟨0, true⟩ layout = .ok body ∧
      Stub.parse ([1, 2, 3, 4] ++ (body ++ [5])) (some 4) 0 =
        .ok ⟨1, code, 0, true, layout.clauses, 12, 36, false⟩ := by
  intro ldnull pop leave ret p order clauses layout code body
  have hlayout : (layOut order clauses).Ends p layout (layOut order clauses p).state :=
    ⟨Sequence.toOption_eq_some.mp (by decide +kernel), rfl⟩
  have hbody : serialize (layOut order clauses p).state order ⟨0, true⟩ layout = .ok body :=
    Sequence.toOption_eq_some.mp (by decide +kernel)
  refine ⟨hlayout, hbody, ?_⟩
  obtain ⟨found, depth, hfound, -, hdepth, -, hparse⟩ := parse_serialize hlayout hbody
  have hcode : (layOut order clauses p).state.encodeAll order = .ok code :=
    Sequence.toOption_eq_some.mp (by decide +kernel)
  have hdeepest : StackDepth.deepest (layOut order clauses p).state order layout.clauses = .ok 1 :=
    Sequence.toOption_eq_some.mp (by decide +kernel)
  rw [hcode, Except.ok.injEq] at hfound
  rw [hdeepest, Except.ok.injEq] at hdepth
  subst hfound hdepth
  exact hparse [1, 2, 3, 4] (Or.inr (by decide)) [5] 0

end CilRestore
