import CilRestore.Proofs.Body.Reinstalled
import CilRestore.Proofs.Layout.Decoded
import Mathlib.Data.List.Induction

/-!
# The bytes that a body keeps

A body keeps the bytes that it compiled to until its list of instructions changes. Whatever is done
to it, the bytes it keeps were made of the list that it has (`MethodBody.KeepsFrom`). They are those
that its instructions would be serialized to now as long as none was changed in place and the
compilation itself left the clauses where they were (`MethodBody.compile_edited`); that an operand
or an opcode is another one goes unnoticed.
-/

namespace CilRestore.MethodBody

/-- Something that is done to a body. -/
inductive Edit where
  /-- Its instructions are taken away. -/
  | clear
  /-- An instruction is put last. -/
  | append (id : Nat)
  /-- Its instructions are replaced, and the bytes of the new ones are not known. -/
  | install (ids : List Nat)
  /-- It is compiled. -/
  | compile
  /-- An instruction gets another operand. -/
  | setOperand (id : Nat) (operand : Operand)
  /-- An instruction gets another opcode. -/
  | setOpcode (id : Nat) (opcode : Opcode)
  deriving DecidableEq, Repr

/-- Whether the list of instructions is made anew. -/
def Edit.changesList : Edit → Bool
  | clear | append _ | install _ => true
  | compile | setOperand _ _ | setOpcode _ _ => false

/-- A body after something was done to it; a compilation that fails leaves what it reached. -/
def edit (b : MethodBody) : Edit → MethodBody
  | .clear => b.clear
  | .append id => b.append id
  | .install ids => b.install ids none
  | .compile => (MethodBody.compile b).state
  | .setOperand id operand => b.modify id fun i => { i with operand }
  | .setOpcode id opcode => b.modify id fun i => { i with opcode }

/-- A body after several things were done to it. -/
def edited (b : MethodBody) (edits : List Edit) : MethodBody := edits.foldl edit b

@[simp] theorem edited_nil (b : MethodBody) : b.edited [] = b := rfl

/-- Edits one after the other are made one after the other. -/
@[simp] theorem edited_append (b : MethodBody) (edits more : List Edit) :
    b.edited (edits ++ more) = (b.edited edits).edited more := List.foldl_append

theorem edited_cons (b : MethodBody) (e : Edit) (edits : List Edit) :
    b.edited (e :: edits) = (b.edit e).edited edits := rfl

/-! ### What is kept -/

/-- A body keeps the bytes that an earlier one compiled to, and has the list of that one. -/
structure KeepsFrom (earlier b : MethodBody) (bytes : Bytes) : Prop where
  /-- The earlier one did not know its bytes. -/
  unknown : earlier.compiled = none
  /-- They were made of its instructions as these were then. -/
  made : (serializeNow earlier).result = .ok bytes
  /-- They are kept. -/
  kept : b.compiled = some bytes
  /-- The list is the same. -/
  order_eq : b.order = earlier.order
  /-- The stub is the same. -/
  stub_eq : b.stub = earlier.stub

variable {earlier b : MethodBody} {bytes : Bytes} {e : Edit}

/-- A list that changed is not the one that bytes were kept of. -/
theorem compiled_edit_of_changesList (b : MethodBody) (he : e.changesList) :
    (b.edit e).compiled = none := by
  cases e with
  | clear => rfl
  | append id => rfl
  | install ids => exact (b.install_none ids).2.2.1
  | compile => cases he
  | setOperand id operand => cases he
  | setOpcode id opcode => cases he

/-- A body that compiles keeps the bytes. -/
theorem KeepsFrom.of_compile (hb : b.compiled = none) (hs : (serializeNow b).result = .ok bytes) :
    KeepsFrom b (b.edit .compile) bytes := by
  have hstate := (compile_of_unknown hb).2
  rw [serializeNow_state, hs] at hstate
  refine ⟨hb, hs, ?_, ?_, ?_⟩ <;> rw [edit, hstate]
  rfl

/-- It keeps them until the list changes. -/
theorem KeepsFrom.edit (h : KeepsFrom earlier b bytes) (he : e.changesList = false) :
    KeepsFrom earlier (b.edit e) bytes := by
  cases e with
  | clear => cases he
  | append id => cases he
  | install ids => cases he
  | compile =>
    rw [MethodBody.edit, (compile_of_known h.kept).2]
    exact h
  | setOperand id operand => exact ⟨h.unknown, h.made, h.kept, h.order_eq, h.stub_eq⟩
  | setOpcode id opcode => exact ⟨h.unknown, h.made, h.kept, h.order_eq, h.stub_eq⟩

/-- A body that keeps nothing does so until it compiles. -/
theorem compiled_edit_of_unknown (hb : b.compiled = none) (e : Edit) :
    (b.edit e).compiled = none ∨ e = .compile ∧ ∃ bytes, (serializeNow b).result = .ok bytes := by
  cases e with
  | clear => exact Or.inl rfl
  | append id => exact Or.inl rfl
  | install ids => exact Or.inl (b.install_none ids).2.2.1
  | setOperand id operand => exact Or.inl hb
  | setOpcode id opcode => exact Or.inl hb
  | compile =>
    cases hs : (serializeNow b).result with
    | error fault =>
      refine Or.inl ?_
      rw [edit, (compile_of_unknown hb).2, hs]
      rfl
    | ok bytes => exact Or.inr ⟨rfl, bytes, rfl⟩

/-- After any edits a body keeps nothing, or it keeps what the list that it has compiled to at one
of them, behind which the list did not change. -/
theorem edited_keeps (hb : b.compiled = none) (edits : List Edit) :
    (b.edited edits).compiled = none ∨
      ∃ before since bytes, edits = before ++ .compile :: since ∧
        (∀ e ∈ since, e.changesList = false) ∧
        KeepsFrom (b.edited before) (b.edited edits) bytes := by
  induction edits using List.reverseRecOn with
  | nil => exact Or.inl hb
  | append_singleton edits e ih =>
    rw [edited_append, edited_cons, edited_nil]
    cases he : e.changesList with
    | true => exact Or.inl (compiled_edit_of_changesList _ he)
    | false =>
      rcases ih with hnone | ⟨before, since, bytes, rfl, hsince, hkeeps⟩
      · rcases compiled_edit_of_unknown hnone e with hstill | ⟨rfl, bytes, hs⟩
        · exact Or.inl hstill
        · exact Or.inr ⟨edits, [], bytes, rfl, by simp, .of_compile hnone hs⟩
      · refine Or.inr ⟨before, since ++ [e], bytes, by simp, ?_, hkeeps.edit he⟩
        exact List.forall_mem_append.mpr ⟨hsince, by simpa using he⟩

/-! ### What would be made now -/

/-- A body that keeps its bytes is not changed by compiling it again. -/
theorem edited_of_compiles (hb : b.compiled = some bytes) {edits : List Edit}
    (h : ∀ e ∈ edits, e = .compile) : b.edited edits = b := by
  induction edits with
  | nil => rfl
  | cons e edits ih =>
    rw [h e List.mem_cons_self, edited_cons, edit, (compile_of_known hb).2]
    exact ih fun other hother => h other (List.mem_cons_of_mem e hother)

/-- A body that has just compiled would be serialized to the same bytes again exactly when the
clauses were left where they are, as they are when the list was settled before. -/
theorem serializeNow_of_compile (hb : b.compiled = none)
    (hs : (serializeNow b).result = .ok bytes) (hclosed : b.pool.IsClosed b.order)
    (hn : b.order.Nodup) :
    ∃ layout again, (layOut b.order b.stub.clauses).Ends b.pool layout (b.edit .compile).pool ∧
      (layOut b.order b.stub.clauses).Ends (b.edit .compile).pool again (b.edit .compile).pool ∧
      ((serializeNow (b.edit .compile)).result = .ok bytes ↔ again.clauses = layout.clauses) ∧
      (b.pool.IsSettled b.order → again = layout) := by
  obtain ⟨layout, q, lines, hout, -, hsettled, hclosedq, hsize, -⟩ :=
    hclosed.layOut_settles hn b.stub.clauses
  obtain ⟨again, lines', hout', hsize', -⟩ := hsettled.layOut hclosedq hn b.stub.clauses
  have hkeeps := KeepsFrom.of_compile hb hs
  have hpool : (b.edit .compile).pool = q := (compile_of_layOut hb hout).2.1
  have hnow : (serializeNow (b.edit .compile)).result = serialize q b.order b.header again := by
    rw [serializeNow_of_layOut (by rw [hkeeps.order_eq, hkeeps.stub_eq, hpool, hout']),
      hkeeps.order_eq, header, hkeeps.stub_eq, ← header]
  rw [serializeNow_of_layOut hout] at hs
  have hsame : again.codeSize = layout.codeSize := hsize'.trans hsize.symm
  refine ⟨layout, again, ⟨by rw [hout], by rw [hout, hpool]⟩,
    ⟨by rw [hpool, hout'], by rw [hpool, hout']⟩, ⟨fun h => ?_, fun h => ?_⟩, fun hbefore => ?_⟩
  · exact clauses_of_serialize hsize hsame hs (hnow.symm.trans h)
  · rw [hnow, serialize_congr hsame h, hs]
  · obtain ⟨fixed, _, hfixed, -⟩ := hbefore.layOut hclosed hn b.stub.clauses
    rw [hfixed] at hout
    cases hout
    rw [hfixed] at hout'
    cases hout'
    rfl

/-- A body whose bytes are not known at first is edited in any way. When it keeps no bytes, because
its list changed or it never compiled, it compiles to what its instructions are serialized to now.
Otherwise it compiles to what its list, with the instructions as they were then, was serialized to
at the last compilation that made bytes. Where nothing was changed in place since and the list is
closed and of distinct instructions, these are the bytes that it would be serialized to now exactly
when laying it out again keeps the same clauses, as it does for a list that was settled then. -/
theorem compile_edited (hb : b.compiled = none) (edits : List Edit) :
    let s := b.edited edits
    s.compiled = none ∧ (compile s).result = (serializeNow s).result ∨
      ∃ before since bytes, edits = before ++ .compile :: since ∧
        (∀ e ∈ since, e.changesList = false) ∧ KeepsFrom (b.edited before) s bytes ∧
        (compile s).result = .ok bytes ∧
        ((∀ e ∈ since, e = .compile) → (b.edited before).pool.IsClosed s.order → s.order.Nodup →
          ∃ layout again,
            (layOut s.order s.stub.clauses).Ends (b.edited before).pool layout s.pool ∧
            (layOut s.order s.stub.clauses).Ends s.pool again s.pool ∧
            ((serializeNow s).result = .ok bytes ↔ again.clauses = layout.clauses) ∧
            ((b.edited before).pool.IsSettled s.order → again = layout)) := by
  intro s
  rcases edited_keeps hb edits with hnone | ⟨before, since, bytes, hedits, hsince, hkeeps⟩
  · exact Or.inl ⟨hnone, (compile_of_unknown hnone).1⟩
  · refine Or.inr ⟨before, since, bytes, hedits, hsince, hkeeps, (compile_of_known hkeeps.kept).1,
      fun hcompiles hclosed hn => ?_⟩
    have hfirst := KeepsFrom.of_compile hkeeps.unknown hkeeps.made
    have hs : s = (b.edited before).edit .compile := by
      change b.edited edits = _
      rw [hedits, edited_append, edited_cons, edited_of_compiles hfirst.kept hcompiles]
    rw [hkeeps.order_eq] at hclosed hn ⊢
    rw [hkeeps.stub_eq, hs]
    exact serializeNow_of_compile hkeeps.unknown hkeeps.made hclosed hn

/-- A body over code that pushes a number and drops it. -/
def numberBody : MethodBody where
  pool := #[⟨⟨0x1F, "ldc.i4.s", .shortInteger, some 0, some 1, .next⟩, .integer 1, 0, 0⟩,
    ⟨⟨0x26, "pop", .nothing, some 1, some 0, .next⟩, .nothing, 2, 1⟩,
    ⟨⟨0x2A, "ret", .nothing, some 0, some 0, .returns⟩, .nothing, 3, 2⟩]

/-- Decoded instructions that are installed and compiled twice give the bytes that they would be
serialized to the second time. -/
theorem compile_edited_of_number :
    numberBody.compiled = none ∧ ∃ bytes,
      (compile (numberBody.edited [.install [0, 1, 2], .compile])).result = .ok bytes ∧
        (serializeNow (numberBody.edited [.install [0, 1, 2], .compile])).result = .ok bytes := by
  refine ⟨rfl, ?_⟩
  have hkept : (numberBody.edited [.install [0, 1, 2], .compile]).compiled.isSome := by
    decide +kernel
  rcases compile_edited (b := numberBody) rfl [.install [0, 1, 2], .compile] with
    ⟨hnone, -⟩ | ⟨before, since, bytes, hedits, -, hkeeps, hcompiled, hnow⟩
  · rw [hnone] at hkept
    cases hkept
  · obtain ⟨rfl, rfl⟩ : before = [.install [0, 1, 2]] ∧ since = [] := by
      match before with
      | [] => cases hedits
      | [first] =>
        cases hedits
        exact ⟨rfl, rfl⟩
      | first :: second :: rest =>
        have hlen := congrArg List.length hedits
        simp only [List.length_cons, List.length_append, List.length_nil] at hlen
        omega
    have hdecode : decode .empty "" [0x1F, 0x01, 0x26, 0x2A] =
        .ok (numberBody.edited [.install [0, 1, 2]]).pool :=
      Sequence.toOption_eq_some.mp (by decide +kernel)
    obtain ⟨chunks, hparses, hp⟩ := decode_eq_ok.mp hdecode
    rw [hkeeps.order_eq] at hnow
    obtain ⟨layout, again, -, -, hsame, hsettled⟩ :=
      hnow (by simp) (hp.isClosed hparses.complete) (by decide)
    exact ⟨bytes, hcompiled, hsame.mpr (by rw [hsettled (hp.isSettled hparses.complete)])⟩

/-- A body whose instruction got another operand compiles to the old one, though it would be
serialized to the new one. -/
theorem compile_keeps_old_operand :
    let b := numberBody.edited [.install [0, 1, 2], .compile, .setOperand 0 (.integer 2)]
    numberBody.compiled = none ∧ 0 ∈ b.order ∧
      (compile b).result = .ok [0x12, 0x1F, 0x01, 0x26, 0x2A] ∧
      (serializeNow b).result = .ok [0x12, 0x1F, 0x02, 0x26, 0x2A] :=
  ⟨rfl, by decide +kernel, Sequence.toOption_eq_some.mp (by decide +kernel),
    Sequence.toOption_eq_some.mp (by decide +kernel)⟩

end CilRestore.MethodBody
