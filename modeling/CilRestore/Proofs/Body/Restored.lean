import CilRestore.Proofs.Actions
import CilRestore.Proofs.Body.Located
import CilRestore.Proofs.Body.Parsed
import CilRestore.Proofs.Layout.Decoded

/-!
# Restored bodies

A body that decoded code is compiled to behind the header and clauses of a stub. Wherever it stands
in a file, it is read as that code, with the locals and the initialization of the stub and with the
clauses of the stub that the code bounds. Only the quiet bit of binary32 numbers may differ.
-/

namespace CilRestore

/-! ### Stubs from files -/

/-- A field of at most four bytes holds a word. -/
theorem Bytes.field_le_word (data : Bytes) (start : Nat) {width : Nat} (h : width ≤ 4) :
    field data start width ≤ 0xFFFFFFFF := by
  have hlt := number_lt (slice data start width)
  have hlen : (slice data start width).length ≤ 4 := by
    rw [slice, List.length_take]
    omega
  have hle : 256 ^ (slice data start width).length ≤ 256 ^ 4 :=
    Nat.pow_le_pow_right (by decide) hlen
  rw [field]
  omega

namespace Stub

/-- Clauses all of whose fields are words. -/
def WordClauses (clauses : List Clause) : Prop :=
  ∀ c ∈ clauses, ∀ field ∈ c.fields, 0 ≤ field ∧ field ≤ 0xFFFFFFFF

theorem WordClauses.nil : WordClauses [] := fun c hm => by cases hm

/-- Clauses of two lists of words are clauses of words. -/
theorem WordClauses.append {clauses more : List Clause} (h : WordClauses clauses)
    (h' : WordClauses more) : WordClauses (clauses ++ more) :=
  List.forall_mem_append.mpr ⟨h, h'⟩

/-- The fields of an entry are words. -/
theorem fields_clauseAt (data : Bytes) (isFat : Bool) (start : Nat) :
    ∀ field ∈ (clauseAt data isFat start).fields, 0 ≤ field ∧ field ≤ 0xFFFFFFFF := by
  cases isFat <;> simp [clauseAt, Clause.fields, Bytes.field_le_word]

/-- The fields of the clauses in a section are words. -/
theorem wordClauses_section (data : Bytes) (start : Nat) :
    WordClauses (sectionClauses data start) := by
  unfold sectionClauses
  split
  · intro c hm
    obtain ⟨place, -, rfl⟩ := List.mem_map.mp hm
    exact fields_clauseAt data _ _
  · exact .nil

/-- So are those of all sections behind a body. -/
theorem SectionChain.wordClauses {data : Bytes} {offset stop : Nat} {clauses : List Clause}
    (h : SectionChain data offset clauses stop) : WordClauses clauses := by
  induction h with
  | last _ _ _ => exact wordClauses_section data _
  | more _ _ _ _ ih => exact (wordClauses_section data _).append ih

/-- The token of the locals and the fields of the clauses are words. -/
structure IsOfWords (s : Stub) : Prop where
  /-- The token of the locals is one. -/
  locals : 0 ≤ s.locals ∧ s.locals ≤ 0xFFFFFFFF
  /-- So are the fields of the clauses. -/
  clauses : WordClauses s.clauses

theorem IsOfWords.nonneg {s : Stub} (h : s.IsOfWords) :
    ∀ c ∈ s.clauses, ∀ field ∈ c.fields, 0 ≤ field :=
  fun c hc field hf => (h.clauses c hc field hf).1

/-- An empty body is made of words. -/
theorem isOfWords_empty : IsOfWords {} := ⟨by decide, .nil⟩

/-- A body that was read is made of words. -/
theorem parse_isOfWords {data : Bytes} {offset : Option Int} {token : Int} {s : Stub}
    (h : parse data offset token = .ok s) : s.IsOfWords := by
  obtain ⟨start, -, hstands⟩ := standsAt_of_parse h
  cases hstands with
  | tiny _ _ => exact ⟨by simp [tinyAt], .nil⟩
  | @fat clauses stop _ _ _ sections =>
    refine ⟨?_, ?_⟩
    · have hle := Bytes.field_le_word data (start + 8) (show 4 ≤ 4 by decide)
      simp only [fatAt]
      omega
    · change WordClauses clauses
      unfold EndsAt at sections
      split at sections
      · exact sections.wordClauses
      · rw [sections.1]
        exact .nil

end Stub

/-! ### Quiet code -/

namespace Chunk

/-- The code of chunks as it is written: with all binary32 numbers quiet. -/
def quietJoin (chunks : List Chunk) : Bytes := join (chunks.map quieted)

/-- Quieting numbers keeps the length of the code. -/
theorem length_quietJoin {chunks : List Chunk} (hc : ∀ c ∈ chunks, c.IsComplete) :
    (quietJoin chunks).length = (join chunks).length := by
  induction chunks with
  | nil => rfl
  | cons c chunks ih =>
    have hsize := size_quieted (hc c (by simp))
    rw [quietJoin, List.map_cons, join_cons, join_cons, List.length_append, List.length_append,
      length_bytes, length_bytes, hsize]
    rw [← ih fun x hx => hc x (by simp [hx]), quietJoin]

/-- The code is written as it was exactly when it loads no signalling number. -/
theorem quietJoin_eq_join_iff {chunks : List Chunk} (hc : ∀ c ∈ chunks, c.IsComplete) :
    quietJoin chunks = join chunks ↔ ∀ c ∈ chunks, ¬ c.IsSignalling := by
  induction chunks with
  | nil => simp [quietJoin]
  | cons c chunks ih =>
    have hcc := hc c (by simp)
    rw [List.forall_mem_cons, ← ih fun x hx => hc x (by simp [hx]), ← quieted_eq_self_iff hcc]
    rw [quietJoin, List.map_cons, join_cons, join_cons, ← quietJoin]
    constructor
    · intro h
      have hlen : c.quieted.bytes.length = c.bytes.length := by
        rw [length_bytes, length_bytes, size_quieted hcc]
      obtain ⟨hfirst, hrest⟩ := List.append_inj h hlen
      rw [bytes, bytes, quieted_opcode, List.append_cancel_left_eq] at hfirst
      refine ⟨?_, hrest⟩
      show Chunk.mk c.quieted.opcode c.quieted.operand = Chunk.mk c.opcode c.operand
      rw [quieted_opcode, hfirst]
    · rintro ⟨hfirst, hrest⟩
      rw [hfirst, hrest]

end Chunk

/-! ### Reading a restored body -/

/-- What a stub becomes when code is restored into it: it keeps the locals and the initialization,
and of the clauses those that the code bounds. -/
structure Stub.IsRestored (restored stub : Stub) (blob : Bytes) (chunks : List Chunk) : Prop where
  /-- The code consists of these chunks. -/
  parses : Parses blob chunks
  /-- The code is that of the chunks with all binary32 numbers quiet. -/
  code_eq : restored.code = Chunk.quietJoin chunks
  /-- That is the code itself if it loads no signalling number. -/
  code_eq_iff : restored.code = blob ↔ ¬ LoadsSignalling blob
  /-- The token of the local variables is that of the stub. -/
  locals_eq : restored.locals = stub.locals
  /-- The local variables start as those of the stub do. -/
  initLocals_eq : restored.initLocals = stub.initLocals
  /-- The clauses are those of the stub whose boundaries are starts of chunks or the end. -/
  clauses_eq : restored.clauses = stub.clauses.filter fun c => c.boundaries.all
    (· ∈ ((Chunk.starts chunks).map fun start : Nat => (start : Int)) ++ [(blob.length : Int)])

/-- A body has a header at least. -/
theorem Serialized.body_ne_nil {header : BodyHeader} {layout : Layout} {code body : Bytes}
    (s : Serialized header layout code body) : body ≠ [] := by
  rintro rfl
  have hlen := congrArg List.length s.body_eq
  simp only [List.length_nil, List.length_append] at hlen
  rcases s.length_head with ⟨h, -⟩ | h <;> omega

/-- A body that decoded code is compiled to is read, wherever it stands, as the stub with the code
restored into it; one with a fat header has to stand at a multiple of four. -/
theorem parse_recompile {scope : Scope} {owner : String} {blob bytes : Bytes} {p : Pool}
    {stub : Stub} (hscope : scope.IsFaithful) (hdecode : decode scope owner blob = .ok p)
    (hne : blob ≠ []) (hstub : stub.IsOfWords)
    (hr : (recompile stub p).result = .ok bytes) :
    bytes ≠ [] ∧ ∃ chunks, ∀ before : Bytes,
      (∀ first rest, bytes = first :: rest → first.toNat % 4 = BodyFormat.fat →
        4 ∣ before.length) →
      ∀ after token, ∃ restored,
        Stub.parse (before ++ (bytes ++ after)) (some (before.length : Int)) token = .ok restored ∧
          restored.IsRestored stub blob chunks := by
  obtain ⟨chunks, hparses, hp⟩ := decode_eq_ok.mp hdecode
  obtain ⟨layout, lines, hout, hsize, hkept⟩ := hp.layOut hparses hstub.nonneg
  have hcompile : (recompile stub).Ends p bytes (recompile stub p).state := ⟨hr, rfl⟩
  obtain ⟨_, _, hread, hcompile⟩ := Action.ends_bind.mp hcompile
  obtain ⟨rfl, rfl⟩ := Action.ends_read.mp hread
  obtain ⟨found, _, ⟨hfound, rfl⟩, hcompile⟩ := Action.ends_bind.mp hcompile
  rw [hout, Except.ok.injEq] at hfound
  subst hfound
  obtain ⟨_, _, hread, hcompile⟩ := Action.ends_bind.mp hcompile
  obtain ⟨rfl, rfl⟩ := Action.ends_read.mp hread
  rw [hout] at hcompile
  obtain ⟨code, hcode, written, -⟩ := serialized_of_ok (Action.ends_ofExcept.mp hcompile).1
  rw [hp.encodeAll hscope hparses.complete, Except.ok.injEq] at hcode
  subst hcode
  have hlen := Chunk.length_quietJoin hparses.complete
  rw [hparses.covers] at hlen
  have hsome : p.size ≠ 0 := by
    intro hz
    rw [(hp.lists hparses.complete).size_eq, List.length_eq_zero_iff] at hz
    exact hne (by rw [← hparses.covers, hz, Chunk.join_nil])
  refine ⟨written.body_ne_nil, chunks, ?_⟩
  intro before halign after token
  refine ⟨written.stub, written.parse_append (hlen.trans hsize.symm) ?_ after token, ?_⟩
  · intro hfat
    obtain ⟨first, rest, hbody, hfirst⟩ := written.exists_fat hfat
    exact halign first rest hbody hfirst
  · refine ⟨hparses, rfl, ?_, rfl, rfl, ?_⟩
    · have hiff := Chunk.quietJoin_eq_join_iff hparses.complete
      rw [hparses.covers] at hiff
      refine hiff.trans ?_
      constructor
      · rintro hall ⟨others, hothers, c, hc, hs⟩
        rw [hothers.unique hparses] at hc
        exact hall c hc hs
      · exact fun hno c hc hs => hno ⟨chunks, hparses, c, hc, hs⟩
    · rw [← (hp.lists hparses.complete).boundaries hsome]
      exact hkept

end CilRestore
