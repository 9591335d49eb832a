import CilRestore.Proofs.Body.Restored
import CilRestore.Proofs.StackDepth.Bound

/-!
# What compiles

Decoded code compiles behind the header and the clauses of a stub from a file, unless its stack is
deeper than a header can say: nothing else stops it, and compiling it leaves its instructions as
they were. Three things have to hold for that. No row is named through itself, or the walk over the
code could not tell what a call does to the stack; the clauses fit their section, and the code its
field.
-/

namespace CilRestore

-- Powers and sums of numbers are those of the core library, whatever else is imported.
attribute [local instance (high)] instPowNat Zero.ofOfNat0

/-! ### Walking over decoded code -/

/-- No row is a method that is named through itself. -/
def Scope.IsAcyclic (scope : Scope) : Prop :=
  ∀ t row, scope.row t = some row → row.callee ≠ .circular

section walk

variable {scope : Scope} {owner : String} {chunks : List Chunk} {p : Pool}

/-- A token becomes an operand whose callee is not named through itself. -/
theorem Decode.token_callee (hscope : scope.IsAcyclic) {start value : Nat} {kind : OperandKind}
    {operand : Operand} (h : token scope owner start kind value = .ok operand) :
    operand.callee ≠ .circular := by
  unfold token undecodable at h
  simp only at h
  split at h
  · cases h
  · split at h <;> split at h
    · cases h
      simp [Operand.callee]
    · cases h
    · rename_i row hrow
      cases h
      exact hscope _ row hrow
    · cases h

/-- So does every operand. -/
theorem Decode.operand_callee (hscope : scope.IsAcyclic) {start stop : Nat} {op : Opcode}
    {raw : Bytes} {found : Operand}
    (h : operand scope owner start stop op raw = .ok (.ready found)) :
    found.callee ≠ .circular := by
  unfold operand at h
  simp only at h
  split at h
  -- Only tokens become operands that can have a callee.
  all_goals first
    | (cases h; done)
    | (cases h; simp [Operand.callee])
    | skip
  obtain ⟨named, htoken, he⟩ := Sequence.map_eq_ok.mp h
  cases he
  exact token_callee hscope htoken

/-- So does the operand of every chunk. -/
theorem Becomes.callee (hscope : scope.IsAcyclic) {place : Nat} {c : Chunk} {operand : Operand}
    (h : Becomes scope owner chunks place c operand) : operand.callee ≠ .circular := by
  cases h with
  | switch places hs hl => simp [Operand.callee]
  | branch other hb ho hl => simp [Operand.callee]
  | plain operand hs hb hr => exact Decode.operand_callee hscope hr

/-- Decoded code can be walked over. -/
theorem DecodesTo.isWalkable (h : DecodesTo scope owner chunks p) (hscope : scope.IsAcyclic)
    (hc : ∀ c ∈ chunks, c.IsComplete) : StackDepth.IsWalkable p (List.range p.size) := by
  have hclosed := h.isClosed hc
  refine ⟨hclosed.inside, hclosed.aims, hclosed.tabled, hclosed.targets, fun id hid => ?_⟩
  rw [List.mem_range, h.size_eq] at hid
  obtain ⟨operand, hb, hfetch⟩ := h.becomes (List.getElem?_eq_getElem hid)
  rw [hfetch]
  exact fun hcircular => hb.callee hscope hcircular.2

end walk

/-- The walk over an order that can be walked over always answers. -/
theorem StackDepth.exists_deepest {p : Pool} {order : List Nat} (hw : IsWalkable p order)
    (clauses : List Clause) : ∃ depth, deepest p order clauses = .ok depth := by
  by_cases hne : order = []
  · exact ⟨0, by rw [deepest, hne]; rfl⟩
  · obtain ⟨_, w, hwalked⟩ := exists_walked hw hne clauses
    exact ⟨w.deepest, hwalked.deepest_eq hne⟩

/-! ### Writing headers and clauses -/

/-- A number that takes so many bytes fits as many. -/
theorem Bytes.lt_of_sizeOfNumber_le {value : Int} {width : Nat} (hpos : 0 ≤ value)
    (h : sizeOfNumber value ≤ width) : value < (256 ^ width : Nat) := by
  by_cases hz : value = 0
  · rw [hz]
    exact_mod_cast Nat.pow_pos (by decide)
  · rw [sizeOfNumber, if_neg hz] at h
    have hlog : value.natAbs < 2 ^ (value.natAbs.log2 + 1) := Nat.lt_log2_self
    have hle : 2 ^ (value.natAbs.log2 + 1) ≤ 2 ^ (8 * width) :=
      Nat.pow_le_pow_right (by decide) (by omega)
    rw [Nat.pow_mul] at hle
    have habs : (value.natAbs : Int) = value := Int.natAbs_of_nonneg hpos
    rw [← habs]
    exact_mod_cast Nat.lt_of_lt_of_le hlog hle

/-- The most clauses of a section: its size, a head of four bytes and each clause in its fat form,
fits three bytes. -/
def BodyFormat.clauseLimit : Nat := 699050

namespace Clause

variable {clauses : List Clause}

/-- Numbers of these widths fit them. -/
def FitIn (fields : List (Nat × Int)) : Prop :=
  ∀ field ∈ fields, 0 ≤ field.2 ∧ field.2 < (256 ^ field.1 : Nat)

/-- The words of a clause fit the small form if the clause is small, and the fat form anyway. -/
theorem fitIn_of_words {c : Clause} (hc : ∀ field ∈ c.fields, 0 ≤ field ∧ field ≤ 0xFFFFFFFF) :
    (c.isSmall = true → FitIn (smallWidths.zip c.fields)) ∧ FitIn (fatWidths.zip c.fields) := by
  obtain ⟨h1, h2, h3, h4, h5, h6⟩ : (0 ≤ c.flags ∧ c.flags ≤ 0xFFFFFFFF) ∧
      (0 ≤ c.tryOffset ∧ c.tryOffset ≤ 0xFFFFFFFF) ∧
      (0 ≤ c.tryLength ∧ c.tryLength ≤ 0xFFFFFFFF) ∧
      (0 ≤ c.handlerOffset ∧ c.handlerOffset ≤ 0xFFFFFFFF) ∧
      (0 ≤ c.handlerLength ∧ c.handlerLength ≤ 0xFFFFFFFF) ∧
      (0 ≤ c.token ∧ c.token ≤ 0xFFFFFFFF) := by
    simpa [fields] using hc
  constructor
  · intro hs
    simp only [isSmall, Bool.and_eq_true, decide_eq_true_eq] at hs
    obtain ⟨⟨⟨⟨s1, s2⟩, s3⟩, s4⟩, s5⟩ := hs
    simp only [FitIn, smallWidths, fields, List.zip_cons_cons, List.zip_nil_right,
      List.forall_mem_cons]
    exact ⟨⟨h1.1, Bytes.lt_of_sizeOfNumber_le h1.1 s1⟩,
      ⟨h2.1, Bytes.lt_of_sizeOfNumber_le h2.1 s2⟩, ⟨h3.1, Bytes.lt_of_sizeOfNumber_le h3.1 s3⟩,
      ⟨h4.1, Bytes.lt_of_sizeOfNumber_le h4.1 s4⟩, ⟨h5.1, Bytes.lt_of_sizeOfNumber_le h5.1 s5⟩,
      ⟨h6.1, by omega⟩, by simp⟩
  · simp only [FitIn, fatWidths, fields, List.zip_cons_cons, List.zip_nil_right,
      List.forall_mem_cons]
    exact ⟨⟨h1.1, by omega⟩, ⟨h2.1, by omega⟩, ⟨h3.1, by omega⟩, ⟨h4.1, by omega⟩,
      ⟨h5.1, by omega⟩, ⟨h6.1, by omega⟩, by simp⟩

/-- A head and clauses are written when all fields fit. -/
theorem exists_encodeAll {head : List (Nat × Int)} {widths : List Nat} (hhead : FitIn head)
    (hclauses : ∀ c ∈ clauses, FitIn (widths.zip c.fields)) :
    ∃ bytes, (do
      let head ← encodeFields head
      return head ++ (← clauses.mapM (encode widths)).flatten : Except Fault Bytes) = .ok bytes := by
  obtain ⟨parts, hparts⟩ := Sequence.exists_forall₂ fun c hc =>
    (⟨_, encodeFields_eq_ok.mpr ⟨hclauses c hc, rfl⟩⟩ : ∃ bytes, encode widths c = .ok bytes)
  exact ⟨_, Sequence.bind_eq_ok.mpr ⟨_, encodeFields_eq_ok.mpr ⟨hhead, rfl⟩,
    Sequence.bind_eq_ok.mpr ⟨parts, Sequence.mapM_eq_ok.mpr hparts, rfl⟩⟩⟩

/-- Clauses of words are written when there are not too many. -/
theorem exists_encodeSection (hc : Stub.WordClauses clauses)
    (hcount : clauses.length ≤ BodyFormat.clauseLimit) :
    ∃ bytes, encodeSection clauses = .ok bytes := by
  rw [BodyFormat.clauseLimit] at hcount
  unfold encodeSection
  split
  · rename_i hsmall
    simp only [Bool.and_eq_true, List.all_eq_true] at hsmall
    obtain ⟨hfew, hsmall⟩ := hsmall
    have hfew : clauses.length ≤ 20 := of_decide_eq_true hfew
    refine exists_encodeAll ?_ fun c hm => (fitIn_of_words (hc c hm)).1 (hsmall c hm)
    simp only [FitIn, List.forall_mem_cons, BodyFormat.clauseSection]
    exact ⟨by decide, ⟨by omega, by omega⟩, by decide, by simp⟩
  · refine exists_encodeAll ?_ fun c hm => (fitIn_of_words (hc c hm)).2
    simp only [FitIn, List.forall_mem_cons, BodyFormat.fatSection, BodyFormat.clauseSection]
    exact ⟨by decide, ⟨by omega, by omega⟩, by simp⟩

end Clause

/-- A fat header whose numbers fit their fields is encoded. -/
theorem exists_encodeFatHeader {header : BodyHeader} {layout : Layout} {depth : Nat}
    (hdepth : depth ≤ 0xFFFF) (hsize : layout.codeSize ≤ 0xFFFFFFFF)
    (hlocals : 0 ≤ header.locals ∧ header.locals ≤ 0xFFFFFFFF) :
    ∃ head, encodeFatHeader header layout depth = .ok head := by
  refine ⟨_, encodeFields_eq_ok.mpr ⟨?_, rfl⟩⟩
  simp only [List.forall_mem_cons, BodyFormat.fat, BodyFormat.moreSections, BodyFormat.initLocals]
  refine ⟨?_, ⟨by omega, by omega⟩, ⟨by omega, by omega⟩, ⟨hlocals.1, by omega⟩, by simp⟩
  split <;> split <;> decide

/-- What is laid out is written when all of it fits. -/
theorem exists_serialize {p : Pool} {order : List Nat} {header : BodyHeader} {layout : Layout}
    {depth : Nat} {code : Bytes}
    (hdeepest : StackDepth.deepest p order layout.clauses = .ok depth) (hdepth : depth ≤ 0xFFFF)
    (hcode : p.encodeAll order = .ok code) (hsize : layout.codeSize ≤ 0xFFFFFFFF)
    (hlocals : 0 ≤ header.locals ∧ header.locals ≤ 0xFFFFFFFF)
    (hclauses : Stub.WordClauses layout.clauses)
    (hcount : layout.clauses.length ≤ BodyFormat.clauseLimit) :
    ∃ body, serialize p order header layout = .ok body := by
  unfold serialize
  rw [hdeepest, Sequence.ok_bind, if_neg (by omega)]
  simp only
  split
  · rename_i htiny
    have hshort : layout.codeSize ≤ 63 := by
      simp only [isTinyBody, Bool.and_eq_true] at htiny
      exact of_decide_eq_true htiny.1.1.1.1
    have hhead : encodeFields [(1, (layout.codeSize : Int) * 4 + BodyFormat.tiny)] = .ok _ :=
      encodeFields_eq_ok.mpr ⟨by simp [BodyFormat.tiny]; omega, rfl⟩
    exact ⟨_, Sequence.bind_eq_ok.mpr ⟨_, hhead, Sequence.bind_eq_ok.mpr ⟨code, hcode, rfl⟩⟩⟩
  · obtain ⟨head, hhead⟩ := exists_encodeFatHeader hdepth hsize hlocals
    rw [hhead, Sequence.ok_bind, hcode, Sequence.ok_bind]
    split
    · exact ⟨_, rfl⟩
    · obtain ⟨clauses, hclauses⟩ := Clause.exists_encodeSection hclauses hcount
      rw [hclauses]
      exact ⟨_, rfl⟩

/-- What needs a deeper stack than a header can say is too large. -/
theorem serialize_of_deep {p : Pool} {order : List Nat} {header : BodyHeader} {layout : Layout}
    {depth : Nat} (hdeepest : StackDepth.deepest p order layout.clauses = .ok depth)
    (hdepth : 0xFFFF < depth) : serialize p order header layout = .error .methodTooLarge := by
  unfold serialize
  rw [hdeepest, Sequence.ok_bind, if_pos hdepth]
  rfl

/-! ### Compiling decoded code -/

/-- The stack depth of code behind the clauses of a stub, of those that the code bounds. -/
def Stub.NeedsDepth (stub : Stub) (p : Pool) (depth : Nat) : Prop :=
  ∃ layout, (layOut (List.range p.size) stub.clauses p).result = .ok layout ∧
    StackDepth.deepest p (List.range p.size) layout.clauses = .ok depth

/-- Code needs one depth only. -/
theorem Stub.NeedsDepth.unique {stub : Stub} {p : Pool} {depth other : Nat}
    (h : stub.NeedsDepth p depth) (h' : stub.NeedsDepth p other) : depth = other := by
  obtain ⟨layout, hlayout, hdepth⟩ := h
  obtain ⟨layout', hlayout', hdepth'⟩ := h'
  rw [hlayout, Except.ok.injEq] at hlayout'
  subst hlayout'
  rwa [hdepth, Except.ok.injEq] at hdepth'

/-- Decoded code needs some stack depth. It compiles exactly when a header can say that depth, and
otherwise it is too large; its instructions stay as they were. -/
theorem recompile_decoded {scope : Scope} {owner : String} {blob : Bytes} {p : Pool} {stub : Stub}
    (hfaithful : scope.IsFaithful) (hacyclic : scope.IsAcyclic)
    (hdecode : decode scope owner blob = .ok p) (hstub : stub.IsOfWords)
    (hcount : stub.clauses.length ≤ BodyFormat.clauseLimit) (hblob : blob.length ≤ 0xFFFFFFFF) :
    (recompile stub p).state = p ∧ ∃ depth, stub.NeedsDepth p depth ∧
      (depth ≤ 0xFFFF ∧ (∃ bytes, (recompile stub p).result = .ok bytes) ∨
        0xFFFF < depth ∧ (recompile stub p).result = .error .methodTooLarge) := by
  obtain ⟨chunks, hparses, hp⟩ := decode_eq_ok.mp hdecode
  obtain ⟨layout, lines, hout, hsize, hkept⟩ := hp.layOut hparses hstub.nonneg
  obtain ⟨depth, hdeepest⟩ :=
    StackDepth.exists_deepest (hp.isWalkable hacyclic hparses.complete) layout.clauses
  have hcode := hp.encodeAll hfaithful hparses.complete
  have hrecompile : recompile stub p =
      ⟨serialize p (List.range p.size) ⟨stub.locals, stub.initLocals⟩ layout, p, lines⟩ := by
    simp only [recompile, bind, Action.bind, Action.read, hout, Action.ofExcept, List.nil_append,
      List.append_nil]
  have hsub : layout.clauses ⊆ stub.clauses := by
    rw [hkept]
    exact List.filter_subset_self _
  have hlength : layout.clauses.length ≤ stub.clauses.length := by
    rw [hkept]
    exact List.length_filter_le _ _
  rw [hrecompile]
  refine ⟨rfl, depth, ⟨layout, by rw [hout], hdeepest⟩, ?_⟩
  rcases Nat.lt_or_ge 0xFFFF depth with hdeep | hflat
  · exact Or.inr ⟨hdeep, serialize_of_deep hdeepest hdeep⟩
  · exact Or.inl ⟨hflat, exists_serialize hdeepest hflat hcode (by omega) hstub.locals
      (fun c hc => hstub.clauses c (hsub hc)) (by omega)⟩

end CilRestore
