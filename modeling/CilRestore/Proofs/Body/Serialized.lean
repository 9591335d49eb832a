import CilRestore.Body.Serialize
import CilRestore.Proofs.Bytes.Edits
import CilRestore.Proofs.Code.Writing

/-!
# Serialized bodies

What the bytes of a body consist of: a tiny header and the code, or a fat header, the code and,
where there are clauses, a section with them at the next multiple of four.
-/

namespace CilRestore

theorem fitting_eq_ok {bytes : Option Bytes} {bs : Bytes} :
    fitting bytes = .ok bs ↔ bytes = some bs := by
  cases bytes <;> simp [fitting]

/-- Fields are written one behind the other when each fits its width. -/
theorem encodeFields_eq_ok {fields : List (Nat × Int)} {bs : Bytes} :
    encodeFields fields = .ok bs ↔
      (∀ field ∈ fields, 0 ≤ field.2 ∧ field.2 < (256 ^ field.1 : Nat)) ∧
        bs = fields.flatMap fun field => Bytes.ofNumber field.1 field.2.toNat := by
  rw [encodeFields, Sequence.map_eq_ok]
  simp only [Sequence.mapM_eq_ok, fitting_eq_ok, Bytes.unsigned?_eq_some]
  constructor
  · rintro ⟨parts, hparts, rfl⟩
    induction hparts with
    | nil => simp
    | cons hfirst _ ih =>
      rw [List.flatten_cons, List.flatMap_cons, ih.2, hfirst.2.2]
      refine ⟨?_, rfl⟩
      rw [List.forall_mem_cons]
      exact ⟨⟨hfirst.1, hfirst.2.1⟩, ih.1⟩
  · rintro ⟨hfit, rfl⟩
    refine ⟨fields.map fun field => Bytes.ofNumber field.1 field.2.toNat, ?_, rfl⟩
    rw [List.forall₂_map_right_iff, List.forall₂_same]
    exact fun field hm => ⟨(hfit field hm).1, (hfit field hm).2, rfl⟩

/-- Encoded fields take the sum of their widths. -/
theorem length_of_encodeFields {fields : List (Nat × Int)} {bs : Bytes}
    (h : encodeFields fields = .ok bs) : bs.length = (fields.map (·.1)).sum := by
  rw [(encodeFields_eq_ok.mp h).2, List.length_flatMap]
  simp

/-- The parts of a serialized body. -/
structure Serialized (header : BodyHeader) (layout : Layout) (code body : Bytes) where
  /-- The stack depth that the header promises. -/
  depth : Nat
  /-- The header. -/
  head : Bytes
  /-- What follows the code. -/
  tail : Bytes
  /-- The body is made of them. -/
  body_eq : body = head ++ code ++ tail
  /-- The depth fits its field. -/
  depth_le : depth ≤ 0xFFFF
  /-- Nothing follows the code behind a tiny header. A fat one is followed by the clauses, if there
  are any, from the next multiple of four on. -/
  parts : isTinyBody header layout depth = true ∧ tail = [] ∧
      encodeFields [(1, layout.codeSize * 4 + BodyFormat.tiny)] = .ok head ∨
    isTinyBody header layout depth = false ∧ encodeFatHeader header layout depth = .ok head ∧
      (layout.clauses = [] ∧ tail = [] ∨ layout.clauses ≠ [] ∧ ∃ clauses,
        Clause.encodeSection layout.clauses = .ok clauses ∧
          tail = Bytes.zeros (Bytes.alignNat (head ++ code).length 4 - (head ++ code).length) ++
            clauses)

/-- A body that is serialized is made of a header, the code and what follows it; the stack depth in
the header is the deepest one of the walk. -/
theorem serialized_of_ok {p : Pool} {order : List Nat} {header : BodyHeader} {layout : Layout}
    {body : Bytes} (h : serialize p order header layout = .ok body) :
    ∃ code, p.encodeAll order = .ok code ∧ ∃ s : Serialized header layout code body,
      StackDepth.deepest p order layout.clauses = .ok s.depth := by
  obtain ⟨depth, hdepth, h⟩ := Sequence.bind_eq_ok.mp h
  have hle : depth ≤ 0xFFFF := by
    by_contra hc
    rw [if_pos (by omega)] at h
    obtain ⟨_, hthrow, _⟩ := Sequence.bind_eq_ok.mp h
    cases hthrow
  rw [if_neg (by omega)] at h
  simp only at h
  cases ht : isTinyBody header layout depth with
  | true =>
    rw [if_pos ht] at h
    obtain ⟨head, hhead, h⟩ := Sequence.bind_eq_ok.mp h
    obtain ⟨code, hcode, h⟩ := Sequence.bind_eq_ok.mp h
    simp only [pure, Except.pure, Except.ok.injEq] at h
    exact ⟨code, hcode, ⟨depth, head, [], by rw [← h, List.append_nil], hle,
      Or.inl ⟨ht, rfl, hhead⟩⟩, hdepth⟩
  | false =>
    rw [ht, if_neg Bool.false_ne_true] at h
    obtain ⟨head, hhead, h⟩ := Sequence.bind_eq_ok.mp h
    obtain ⟨code, hcode, h⟩ := Sequence.bind_eq_ok.mp h
    refine ⟨code, hcode, ?_⟩
    by_cases hempty : layout.clauses = []
    · rw [if_pos (by rw [hempty]; rfl)] at h
      simp only [pure, Except.pure, Except.ok.injEq] at h
      exact ⟨⟨depth, head, [], by rw [← h, List.append_nil], hle,
        Or.inr ⟨ht, hhead, Or.inl ⟨hempty, rfl⟩⟩⟩, hdepth⟩
    · rw [if_neg (by simpa using hempty)] at h
      obtain ⟨clauses, hclauses, h⟩ := Sequence.bind_eq_ok.mp h
      simp only [pure, Except.pure, Except.ok.injEq] at h
      exact ⟨⟨depth, head, _, by rw [← h, Bytes.padTo, List.append_assoc], hle,
        Or.inr ⟨ht, hhead, Or.inr ⟨hempty, clauses, hclauses, rfl⟩⟩⟩, hdepth⟩

/-- Of a layout the size of the code and the clauses are serialized. -/
theorem serialize_congr {layout other : Layout} (hsize : other.codeSize = layout.codeSize)
    (hclauses : other.clauses = layout.clauses) (p : Pool) (order : List Nat)
    (header : BodyHeader) : serialize p order header other = serialize p order header layout := by
  have htiny : isTinyBody header other = isTinyBody header layout := by
    funext depth
    rw [isTinyBody, hsize, hclauses, ← isTinyBody]
  have hfat : encodeFatHeader header other = encodeFatHeader header layout := by
    funext depth
    rw [encodeFatHeader, hsize, hclauses, ← encodeFatHeader]
  rw [serialize, htiny, hfat, hsize, hclauses, ← serialize]

namespace Serialized

variable {header : BodyHeader} {layout : Layout} {code body : Bytes}

/-- The code stands behind a header of one byte, which nothing follows, or of twelve. -/
theorem length_head (s : Serialized header layout code body) :
    s.head.length = 1 ∧ s.tail = [] ∨ s.head.length = 12 := by
  rcases s.parts with ⟨_, ht, hh⟩ | ⟨_, hh, _⟩
  · exact Or.inl ⟨by simpa using length_of_encodeFields hh, ht⟩
  · exact Or.inr (by simpa using length_of_encodeFields hh)

end Serialized

end CilRestore
