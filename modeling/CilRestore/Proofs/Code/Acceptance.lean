import CilRestore.Proofs.Code.Reading
import CilRestore.Proofs.Sequence

/-!
# What decoding accepts

Decoding is said of chunks: it gives a pool exactly when the code is cut into chunks whose tokens
and targets are good, and the pool then lists the chunks in their order. A fault names the first
chunk that cannot be read, or when all can, the first with a target between chunks.
-/

namespace CilRestore

namespace Chunk

/-- Where the chunks of a row start. -/
def starts (chunks : List Chunk) : List Nat := (List.range chunks.length).map (startOf chunks)

/-- A chunk is found by the offset that it starts at. -/
theorem idxOf?_starts {chunks : List Chunk} {offset place : Nat} :
    (starts chunks).idxOf? offset = some place ↔
      place < chunks.length ∧ startOf chunks place = offset := by
  rw [List.idxOf?_eq_some_iff]
  simp only [starts, List.length_map, List.length_range, List.getElem_map, List.getElem_range]
  constructor
  · rintro ⟨hl, he, _⟩
    exact ⟨hl, he⟩
  · rintro ⟨hl, he⟩
    refine ⟨hl, he, ?_⟩
    intro other ho hc
    have := startOf_inj (by omega) hl (hc.trans he.symm)
    omega

end Chunk

namespace Decode

variable {scope : Scope} {owner : String} {chunks : List Chunk}

/-- So is one that a branch aims at, whose offset may be anything. -/
theorem placeOf?_starts {target : Int} {place : Nat} :
    placeOf? (Chunk.starts chunks) target = some place ↔
      place < chunks.length ∧ target = (Chunk.startOf chunks place : Int) := by
  unfold placeOf?
  split
  · simp only [reduceCtorEq, false_iff, not_and]
    omega
  · rw [Chunk.idxOf?_starts]
    constructor
    · rintro ⟨hl, he⟩
      exact ⟨hl, by omega⟩
    · rintro ⟨hl, he⟩
      exact ⟨hl, by omega⟩

/-- A target is accepted when a chunk starts there. -/
theorem place_eq_ok {start place : Nat} {what : String} {target : Int} :
    Decode.place (Chunk.starts chunks) start what target = .ok place ↔
      place < chunks.length ∧ target = (Chunk.startOf chunks place : Int) := by
  rw [← placeOf?_starts]
  unfold Decode.place undecodable
  cases placeOf? (Chunk.starts chunks) target <;> simp

/-- Another one is the fault of the instruction that has it. -/
theorem place_fault {starts : List Nat} {start : Nat} {what : String} {target : Int} {e : Fault}
    (h : Decode.place starts start what target = .error e) :
    ∃ reason, e = .undecodable start reason := by
  unfold Decode.place undecodable at h
  split at h
  · simp at h
  · simp only [Except.error.injEq] at h
    exact ⟨_, h.symm⟩

/-! ### Linking -/

/-- An offset is linked to the chunk that starts there. -/
theorem link_offset {start : Nat} {target : Int} {operand : Operand} :
    link (Chunk.starts chunks) start (.offset target) = .ok operand ↔
      ∃ place, operand = .target place ∧ place < chunks.length ∧
        target = (Chunk.startOf chunks place : Int) := by
  rw [link, Sequence.map_eq_ok]
  constructor
  · rintro ⟨place, hp, rfl⟩
    exact ⟨place, rfl, place_eq_ok.mp hp⟩
  · rintro ⟨place, rfl, hp⟩
    exact ⟨place, place_eq_ok.mpr hp, rfl⟩

/-- So is each offset of a table. -/
theorem link_offsets {start : Nat} {targets : List Int} {operand : Operand} :
    link (Chunk.starts chunks) start (.offsets targets) = .ok operand ↔
      ∃ places, operand = .targets places ∧
        List.Forall₂ (fun (target : Int) (place : Nat) => place < chunks.length ∧
          target = (Chunk.startOf chunks place : Int)) targets places := by
  have hr : (fun (target : Int) (place : Nat) => Decode.place (Chunk.starts chunks) start "switch"
      target = .ok place) = fun target place => place < chunks.length ∧
        target = (Chunk.startOf chunks place : Int) := by
    funext target place
    exact propext place_eq_ok
  rw [link, Sequence.map_eq_ok]
  constructor
  · rintro ⟨places, hp, rfl⟩
    exact ⟨places, rfl, hr ▸ Sequence.mapM_eq_ok.mp hp⟩
  · rintro ⟨places, rfl, hp⟩
    exact ⟨places, Sequence.mapM_eq_ok.mpr (hr ▸ hp), rfl⟩

/-- What cannot be linked is the fault of its instruction. -/
theorem link_fault {starts : List Nat} {start : Nat} {raw : RawOperand} {e : Fault}
    (h : link starts start raw = .error e) : ∃ reason, e = .undecodable start reason := by
  cases raw with
  | ready operand => simp [link] at h
  | offset target => exact place_fault (Sequence.map_eq_error.mp h)
  | offsets targets =>
    obtain ⟨_, _, _, _, ht, _⟩ := Sequence.mapM_eq_error (Sequence.map_eq_error.mp h)
    exact place_fault ht

/-- An operand is linked when each of its targets is where a chunk starts. -/
theorem link_ok_iff (start : Nat) {raw : RawOperand} :
    (∃ operand, link (Chunk.starts chunks) start raw = .ok operand) ↔
      ∀ target ∈ raw.targets, ∃ other < chunks.length,
        target = (Chunk.startOf chunks other : Int) := by
  cases raw with
  | ready operand => simp [link, RawOperand.targets]
  | offset target =>
    simp only [link_offset, RawOperand.targets, List.mem_singleton, forall_eq]
    constructor
    · rintro ⟨_, place, _, hp⟩
      exact ⟨place, hp⟩
    · rintro ⟨place, hp⟩
      exact ⟨_, place, rfl, hp⟩
  | offsets targets =>
    simp only [link_offsets, RawOperand.targets]
    constructor
    · rintro ⟨_, places, _, hp⟩ target ht
      obtain ⟨place, _, hplace⟩ := Sequence.exists_mem_of_forall₂ hp ht
      exact ⟨place, hplace⟩
    · intro h
      obtain ⟨places, hp⟩ := Sequence.exists_forall₂ h
      exact ⟨_, places, rfl, hp⟩

end Decode

/-! ### The pool of decoded chunks -/

/-- A pool holds the instructions that the decoder makes of chunks, in their order. -/
structure DecodesTo (scope : Scope) (owner : String) (chunks : List Chunk) (p : Pool) :
    Prop where
  /-- There is an instruction for each chunk. -/
  size_eq : p.size = chunks.length
  /-- It has the opcode of the chunk and stands where the chunk does, and its operand is that of
  the chunk with places for targets. -/
  fetch : ∀ (place : Nat) (c : Chunk), chunks[place]? = some c → ∃ raw operand,
    c.Reads scope owner (Chunk.startOf chunks place) raw ∧
      Decode.link (Chunk.starts chunks) (Chunk.startOf chunks place) raw = .ok operand ∧
      p.fetch place = ⟨c.opcode, operand, (Chunk.startOf chunks place : Nat), place⟩

theorem Pool.fetch_of_getElem? {p : Pool} {id : Nat} {i : Instruction} (h : p[id]? = some i) :
    p.fetch id = i := by
  simp [Pool.fetch, Array.getD_eq_getD_getElem?, h]

theorem Pool.getElem?_of_lt {p : Pool} {id : Nat} (h : id < p.size) :
    p[id]? = some (p.fetch id) := by
  simp [Pool.fetch, Array.getD_eq_getD_getElem?, h]

section decode

variable {scope : Scope} {owner : String} {code : Bytes}

/-- Instructions that are read start where their chunks do. -/
theorem ReadsFrom.starts {chunks : List Chunk} {raws : List RawInstruction}
    (h : ReadsFrom scope owner 0 chunks raws) : raws.map (·.start) = Chunk.starts chunks := by
  apply List.ext_getElem
  · simp [Chunk.starts, h.length_eq]
  · intro place hl hr
    rw [List.length_map, h.length_eq] at hl
    obtain ⟨operand, ho, _⟩ := h.getElem? (List.getElem?_eq_getElem hl)
    obtain ⟨hp, ho⟩ := List.getElem?_eq_some_iff.mp ho
    simp [Chunk.starts, ho]

/-- The instructions of a pool from chunks and their linked operands. -/
theorem DecodesTo.of_linked {chunks : List Chunk} {raws : List RawInstruction}
    {linked : List (RawInstruction × Operand)} (hr : ReadsFrom scope owner 0 chunks raws)
    (hl : List.Forall₂ (fun raw pair => (do
      return (raw, ← Decode.link (Chunk.starts chunks) raw.start raw.operand) :
        Except Fault (RawInstruction × Operand)) = .ok pair) raws linked) :
    DecodesTo scope owner chunks (linked.mapIdx fun place (raw, operand) =>
      Instruction.mk raw.opcode operand raw.start place).toArray := by
  refine ⟨by simp [← hl.length_eq, hr.length_eq], ?_⟩
  intro place c hc
  obtain ⟨raw, hraw, hreads⟩ := hr.getElem? hc
  obtain ⟨pair, hpair, hlink⟩ := Sequence.getElem?_of_forall₂ hl hraw
  obtain ⟨operand, hoperand, hret⟩ := Sequence.bind_eq_ok.mp hlink
  simp only [pure, Except.pure, Except.ok.injEq] at hret
  simp only [Nat.zero_add] at hraw hreads hoperand hret
  refine ⟨raw, operand, hreads, hoperand, Pool.fetch_of_getElem? ?_⟩
  simp [hpair, ← hret]

/-- The operands of chunks that decode can be linked. -/
theorem DecodesTo.exists_linked {chunks : List Chunk} {raws : List RawInstruction} {p : Pool}
    (hp : DecodesTo scope owner chunks p) (hr : ReadsFrom scope owner 0 chunks raws) :
    ∃ linked, List.Forall₂ (fun raw pair => (do
      return (raw, ← Decode.link (Chunk.starts chunks) raw.start raw.operand) :
        Except Fault (RawInstruction × Operand)) = .ok pair) raws linked := by
  apply Sequence.exists_forall₂
  intro raw hm
  obtain ⟨place, hplace⟩ := List.mem_iff_getElem?.mp hm
  have hlt : place < chunks.length := by
    rw [← hr.length_eq]
    exact (List.getElem?_eq_some_iff.mp hplace).1
  have hc := List.getElem?_eq_getElem hlt
  obtain ⟨found, hfound, hreads⟩ := hr.getElem? hc
  obtain ⟨raw', operand, hreads', hlink, _⟩ := hp.fetch place _ hc
  rw [hplace, Option.some.injEq] at hfound
  rw [Nat.zero_add] at hreads hfound
  rw [hreads'.unique hreads] at hlink
  exact ⟨(raw, operand), by simp [hfound, hlink, bind, Except.bind, pure, Except.pure]⟩

/-- Two pools that the same chunks decode to are one. -/
theorem DecodesTo.unique {chunks : List Chunk} {p q : Pool} (hp : DecodesTo scope owner chunks p)
    (hq : DecodesTo scope owner chunks q) : p = q := by
  apply Array.ext_getElem?
  intro place
  by_cases hl : place < chunks.length
  · obtain ⟨raw, operand, hr, ho, hf⟩ := hp.fetch place _ (List.getElem?_eq_getElem hl)
    obtain ⟨raw', operand', hr', ho', hf'⟩ := hq.fetch place _ (List.getElem?_eq_getElem hl)
    rw [hr.unique hr', ho', Except.ok.injEq] at ho
    rw [Pool.getElem?_of_lt (by rw [hp.size_eq]; exact hl),
      Pool.getElem?_of_lt (by rw [hq.size_eq]; exact hl), hf, hf', ho]
  · rw [Array.getElem?_eq_none (by rw [hp.size_eq]; omega),
      Array.getElem?_eq_none (by rw [hq.size_eq]; omega)]

/-- Decoding succeeds with a pool exactly when the code is cut into chunks that decode to it. -/
theorem decode_eq_ok {p : Pool} : decode scope owner code = .ok p ↔
    ∃ chunks, Parses code chunks ∧ DecodesTo scope owner chunks p := by
  constructor
  · intro h
    obtain ⟨raws, hs, h⟩ := Sequence.bind_eq_ok.mp h
    obtain ⟨linked, hl, h⟩ := Sequence.bind_eq_ok.mp h
    simp only [pure, Except.pure, Except.ok.injEq] at h
    obtain ⟨chunks, found, hc, hj, hr, hd⟩ := Decode.split_sound hs
    rw [List.reverse_nil, List.nil_append] at hd
    subst hd
    rw [hr.starts] at hl
    exact ⟨chunks, ⟨hc, hj⟩, h ▸ DecodesTo.of_linked hr (Sequence.mapM_eq_ok.mp hl)⟩
  · rintro ⟨chunks, ⟨hc, rfl⟩, hp⟩
    have hn : ∀ c ∈ chunks, c.Resolves scope := by
      intro c hm
      obtain ⟨place, hplace⟩ := List.mem_iff_getElem?.mp hm
      obtain ⟨raw, _, hr, _⟩ := hp.fetch place c hplace
      exact Chunk.reads_iff.mp ⟨raw, hr⟩
    obtain ⟨raws, hr⟩ := ReadsFrom.of_resolves hn owner 0
    have hs := Decode.split_complete hc hr []
    rw [List.reverse_nil, List.nil_append] at hs
    obtain ⟨linked, hl⟩ := hp.exists_linked hr
    have hm := Sequence.mapM_eq_ok.mpr hl
    rw [← hr.starts] at hm
    rw [hp.unique (DecodesTo.of_linked hr hl), decode, hs]
    simp only [bind, Except.bind] at hm ⊢
    rw [hm]
    rfl

/-- Chunks that decode to a pool have good tokens and targets. -/
theorem DecodesTo.accepts {chunks : List Chunk} {p : Pool} (hp : DecodesTo scope owner chunks p)
    (hc : Parses code chunks) : Accepts scope code chunks := by
  refine ⟨hc, ?_, ?_⟩
  · intro c hm
    obtain ⟨place, hplace⟩ := List.mem_iff_getElem?.mp hm
    obtain ⟨raw, _, hr, _⟩ := hp.fetch place c hplace
    exact Chunk.reads_iff.mp ⟨raw, hr⟩
  · intro place c hplace
    obtain ⟨raw, operand, hr, ho, _⟩ := hp.fetch place c hplace
    have hl := (Decode.link_ok_iff _).mp ⟨operand, ho⟩
    rwa [hr.targets] at hl

/-- Linking can only fail at a target between chunks. -/
theorem ReadsFrom.link_ok_iff {chunks : List Chunk} {raws : List RawInstruction}
    (hr : ReadsFrom scope owner 0 chunks raws) {place : Nat} {raw : RawInstruction} {c : Chunk}
    (hraw : raws[place]? = some raw) (hc : chunks[place]? = some c) :
    raw.start = Chunk.startOf chunks place ∧
      ((∃ pair, (do
        return (raw, ← Decode.link (Chunk.starts chunks) raw.start raw.operand) :
          Except Fault (RawInstruction × Operand)) = .ok pair) ↔ c.Lands chunks place) := by
  obtain ⟨operand, hfound, hreads⟩ := hr.getElem? hc
  rw [hraw, Option.some.injEq, Nat.zero_add] at hfound
  rw [Nat.zero_add] at hreads
  subst hfound
  refine ⟨rfl, ?_⟩
  rw [Chunk.Lands, ← hreads.targets, ← Decode.link_ok_iff (Chunk.startOf chunks place)]
  constructor
  · rintro ⟨pair, hpair⟩
    obtain ⟨linked, hl, _⟩ := Sequence.bind_eq_ok.mp hpair
    exact ⟨linked, hl⟩
  · rintro ⟨linked, hl⟩
    exact ⟨_, Sequence.bind_eq_ok.mpr ⟨linked, hl, rfl⟩⟩

/-- Chunks with good tokens and targets decode to a pool. -/
theorem Accepts.decodes {chunks : List Chunk} (h : Accepts scope code chunks) (owner : String) :
    ∃ p, DecodesTo scope owner chunks p := by
  obtain ⟨raws, hr⟩ := ReadsFrom.of_resolves h.resolves owner 0
  have hlinked : ∃ linked, List.Forall₂ (fun raw pair => (do
      return (raw, ← Decode.link (Chunk.starts chunks) raw.start raw.operand) :
        Except Fault (RawInstruction × Operand)) = .ok pair) raws linked := by
    apply Sequence.exists_forall₂
    intro raw hm
    obtain ⟨place, hplace⟩ := List.mem_iff_getElem?.mp hm
    have hlt : place < chunks.length := by
      rw [← hr.length_eq]
      exact (List.getElem?_eq_some_iff.mp hplace).1
    have hc := List.getElem?_eq_getElem hlt
    exact (hr.link_ok_iff hplace hc).2.mpr (h.lands place _ hc)
  obtain ⟨linked, hl⟩ := hlinked
  exact ⟨_, DecodesTo.of_linked hr hl⟩

/-- Code decodes exactly if it is accepted as some chunks. -/
theorem decode_ok_iff : (∃ p, decode scope owner code = .ok p) ↔
    ∃ chunks, Accepts scope code chunks := by
  constructor
  · rintro ⟨p, h⟩
    obtain ⟨chunks, hc, hp⟩ := decode_eq_ok.mp h
    exact ⟨chunks, hp.accepts hc⟩
  · rintro ⟨chunks, h⟩
    obtain ⟨p, hp⟩ := h.decodes owner
    exact ⟨p, decode_eq_ok.mpr ⟨chunks, h.toParses, hp⟩⟩

end decode

/-! ### Faults -/

/-- No chunk that can be read begins at this offset, though the code goes on there, and all before
it is cut into chunks that can. -/
def Unreadable (scope : Scope) (code : Bytes) (offset : Nat) : Prop :=
  ∃ chunks rest, (∀ c ∈ chunks, c.IsComplete ∧ c.Resolves scope) ∧
    code = Chunk.join chunks ++ rest ∧ rest ≠ [] ∧ offset = (Chunk.join chunks).length ∧
    ∀ c : Chunk, c.IsComplete → c.Resolves scope → ¬ c.bytes <+: rest

/-- All of the code is cut into chunks that can be read, and at this offset the first one starts
that has a target between chunks. -/
def Astray (scope : Scope) (code : Bytes) (offset : Nat) : Prop :=
  ∃ chunks, Parses code chunks ∧ (∀ c ∈ chunks, c.Resolves scope) ∧
    ∃ (place : Nat) (c : Chunk), chunks[place]? = some c ∧ offset = Chunk.startOf chunks place ∧
      ¬ c.Lands chunks place ∧
      ∀ earlier < place, ∀ d : Chunk, chunks[earlier]? = some d → d.Lands chunks earlier

section faults

variable {scope : Scope} {owner : String} {code : Bytes}

/-- Code that does not decode is reported at an instruction that cannot be read or that leads
nowhere. -/
theorem decode_fault {e : Fault} (h : decode scope owner code = .error e) :
    ∃ (offset : Nat) (reason : String), e = .undecodable offset reason ∧
      (Unreadable scope code offset ∨ Astray scope code offset) := by
  rcases Sequence.bind_eq_error.mp h with hs | ⟨raws, hs, h⟩
  · obtain ⟨chunks, rest, raws, reason, hc, hcode, hr, hne, hno, rfl⟩ := Decode.split_fault hs
    refine ⟨_, reason, rfl, Or.inl ⟨chunks, rest, ?_, hcode, hne, Nat.zero_add _, hno⟩⟩
    exact fun c hm => ⟨hc c hm, hr.resolves c hm⟩
  · obtain ⟨chunks, found, hc, hj, hr, hd⟩ := Decode.split_sound hs
    rw [List.reverse_nil, List.nil_append] at hd
    subst hd
    rcases Sequence.bind_eq_error.mp h with hl | ⟨_, _, h⟩
    · rw [hr.starts] at hl
      obtain ⟨before, raw, after, hraws, hraw, hbefore⟩ := Sequence.mapM_eq_error hl
      have hplace : raws[before.length]? = some raw := by simp [hraws]
      have hlt : before.length < chunks.length := by
        rw [← hr.length_eq]
        exact (List.getElem?_eq_some_iff.mp hplace).1
      have hchunk := List.getElem?_eq_getElem hlt
      obtain ⟨hstart, hlands⟩ := hr.link_ok_iff hplace hchunk
      rcases Sequence.bind_eq_error.mp hraw with hlink | ⟨_, _, hraw⟩
      · obtain ⟨reason, rfl⟩ := Decode.link_fault hlink
        refine ⟨raw.start, reason, rfl, Or.inr ⟨chunks, ⟨hc, hj⟩, hr.resolves, before.length, _,
          hchunk, hstart, ?_, ?_⟩⟩
        · intro hcon
          obtain ⟨pair, hpair⟩ := hlands.mpr hcon
          rw [hraw] at hpair
          cases hpair
        · intro earlier he d hd
          have hm : raws[earlier]? = some before[earlier] := by
            rw [hraws, List.getElem?_append_left he, List.getElem?_eq_getElem he]
          exact (hr.link_ok_iff hm hd).2.mp (hbefore _ (List.getElem_mem he))
      · simp [pure, Except.pure] at hraw
    · simp [pure, Except.pure] at h

end faults

/-! ### What a pool lists -/

/-- The instructions of a pool, in its order, are the chunks of a row. -/
structure Lists (chunks : List Chunk) (p : Pool) : Prop where
  /-- There are as many. -/
  size_eq : p.size = chunks.length
  /-- Each has the opcode of its chunk. -/
  opcode : ∀ (place : Nat) (c : Chunk), chunks[place]? = some c → (p.fetch place).opcode = c.opcode
  /-- It stands where the chunk starts. -/
  offset : ∀ (place : Nat) (c : Chunk), chunks[place]? = some c →
    (p.fetch place).offset = Chunk.startOf chunks place
  /-- It knows its place. -/
  index : ∀ (place : Nat) (c : Chunk), chunks[place]? = some c → (p.fetch place).index = place
  /-- It takes as many bytes as the chunk. -/
  sizeOf : ∀ (place : Nat) (c : Chunk), chunks[place]? = some c →
    p.sizeOf (p.fetch place) = c.size
  /-- It goes to instructions of the pool. -/
  targets_lt : ∀ (place : Nat) (c : Chunk), chunks[place]? = some c →
    ∀ id ∈ (p.fetch place).targets, id < p.size
  /-- They are the ones at the offsets that the chunk names. -/
  targets : ∀ (place : Nat) (c : Chunk), chunks[place]? = some c →
    (p.fetch place).targets.map (fun id => (p.fetch id).offset) =
      c.targets (Chunk.startOf chunks place)

/-- What the chunk at a place becomes: a switch and a branch go to the places of the chunks at their
targets, and any other operand is kept. -/
inductive Becomes (scope : Scope) (owner : String) (chunks : List Chunk) (place : Nat) (c : Chunk) :
    Operand → Prop where
  /-- A switch goes to the places of its targets. -/
  | switch (places : List Nat) (kind : c.opcode.isSwitch)
      (lands : List.Forall₂ (fun (target : Int) (other : Nat) => other < chunks.length ∧
        target = (Chunk.startOf chunks other : Int)) (c.targets (Chunk.startOf chunks place))
        places) : Becomes scope owner chunks place c (.targets places)
  /-- A branch goes to the place of its target. -/
  | branch (other : Nat) (kind : c.opcode.isBranch) (inside : other < chunks.length)
      (lands : (Chunk.startOf chunks place + c.size : Nat) + Bytes.signed c.operand =
        (Chunk.startOf chunks other : Int)) : Becomes scope owner chunks place c (.target other)
  /-- Any other operand is what the decoder reads. -/
  | plain (operand : Operand) (notSwitch : ¬ c.opcode.isSwitch) (notBranch : ¬ c.opcode.isBranch)
      (reads : Decode.operand scope owner (Chunk.startOf chunks place)
        (Chunk.startOf chunks place + c.size) c.opcode c.operand = .ok (.ready operand)) :
      Becomes scope owner chunks place c operand

section lists

variable {scope : Scope} {owner : String} {chunks : List Chunk} {p : Pool}

theorem Opcode.not_isBranch_of_isSwitch {op : Opcode} (h : op.isSwitch) : ¬ op.isBranch := by
  have hk : op.operand = .switch := by simpa [isSwitch] using h
  simp [isBranch, hk]

theorem Opcode.not_isSwitch_of_isBranch {op : Opcode} (h : op.isBranch) : ¬ op.isSwitch :=
  fun hs => not_isBranch_of_isSwitch hs h

/-- Each instruction of a pool that chunks decode to is what its chunk becomes. -/
theorem DecodesTo.becomes (h : DecodesTo scope owner chunks p) {place : Nat} {c : Chunk}
    (hc : chunks[place]? = some c) : ∃ operand, Becomes scope owner chunks place c operand ∧
      p.fetch place = ⟨c.opcode, operand, (Chunk.startOf chunks place : Nat), place⟩ := by
  obtain ⟨raw, operand, hr, hl, hf⟩ := h.fetch place c hc
  refine ⟨operand, ?_, hf⟩
  by_cases hs : c.opcode.isSwitch
  · rw [hr.of_isSwitch hs] at hl
    obtain ⟨places, rfl, hplaces⟩ := Decode.link_offsets.mp hl
    exact .switch places hs hplaces
  · by_cases hb : c.opcode.isBranch
    · rw [hr.of_isBranch hb] at hl
      obtain ⟨other, rfl, ho, ht⟩ := Decode.link_offset.mp hl
      exact .branch other hb ho ht
    · obtain ⟨ready, rfl⟩ := hr.of_plain hs hb
      simp only [Decode.link, Except.ok.injEq] at hl
      subst hl
      rw [Chunk.Reads, if_neg hs] at hr
      exact .plain ready hs hb hr

/-- A pool of what chunks become is what they decode to. -/
theorem DecodesTo.of_becomes (hsize : p.size = chunks.length)
    (h : ∀ (place : Nat) (c : Chunk), chunks[place]? = some c →
      ∃ operand, Becomes scope owner chunks place c operand ∧
        p.fetch place = ⟨c.opcode, operand, (Chunk.startOf chunks place : Nat), place⟩) :
    DecodesTo scope owner chunks p := by
  refine ⟨hsize, ?_⟩
  intro place c hc
  obtain ⟨operand, hb, hf⟩ := h place c hc
  suffices hread : ∃ raw, c.Reads scope owner (Chunk.startOf chunks place) raw ∧
      Decode.link (Chunk.starts chunks) (Chunk.startOf chunks place) raw = .ok operand by
    obtain ⟨raw, hr, hl⟩ := hread
    exact ⟨raw, operand, hr, hl, hf⟩
  clear hf
  cases hb with
  | switch places hs hl =>
    exact ⟨_, by rw [Chunk.Reads, if_pos hs], Decode.link_offsets.mpr ⟨places, rfl, hl⟩⟩
  | branch other hb ho hl =>
    have hs : ¬ c.opcode.isSwitch := Opcode.not_isSwitch_of_isBranch hb
    have hk : c.opcode.operand = .shortBranch ∨ c.opcode.operand = .branch := by
      simpa [Opcode.isBranch] using hb
    refine ⟨.offset _, ?_, Decode.link_offset.mpr ⟨other, rfl, ho, hl⟩⟩
    rw [Chunk.Reads, if_neg hs, Decode.operand]
    rcases hk with hk | hk <;> simp only [hk]
  | plain operand hs hb hr => exact ⟨_, by rwa [Chunk.Reads, if_neg hs], rfl⟩

/-- The instruction of a chunk takes as many bytes as the chunk. -/
theorem Becomes.size_eq {place : Nat} {c : Chunk} {operand : Operand}
    (h : Becomes scope owner chunks place c operand) (hc : c.IsComplete) (offset index : Int) :
    (Instruction.mk c.opcode operand offset index).lacksTable = false ∧
      (Instruction.mk c.opcode operand offset index).size = c.size := by
  have hl := hc.operand_length
  cases h with
  | switch places hs hplaces =>
    have hn : places.length = c.entryCount := by
      rw [← hplaces.length_eq, Chunk.targets, if_pos hs, List.length_map,
        Decode.length_displacements]
    rw [if_pos hs] at hl
    simp only [Instruction.lacksTable, Instruction.size, hs, Operand.targets?, Option.isNone_some,
      Bool.and_false, if_true, Option.getD_some, hn, Chunk.size, hl, true_and]
    omega
  | branch other hb ho hland =>
    have hs : ¬ c.opcode.isSwitch := Opcode.not_isSwitch_of_isBranch hb
    rw [if_neg hs] at hl
    simp [Instruction.lacksTable, Instruction.size, hs, Chunk.size, hl]
  | plain operand hs hb hr =>
    rw [if_neg hs] at hl
    simp [Instruction.lacksTable, Instruction.size, hs, Chunk.size, hl]

/-- The instruction of a chunk goes to the places of the chunks at the targets that the chunk names,
in their order. -/
theorem Becomes.lands {place : Nat} {c : Chunk} {operand : Operand}
    (h : Becomes scope owner chunks place c operand) (offset index : Int) :
    List.Forall₂ (fun (target : Int) (other : Nat) => other < chunks.length ∧
      target = (Chunk.startOf chunks other : Int)) (c.targets (Chunk.startOf chunks place))
      (Instruction.mk c.opcode operand offset index).targets := by
  cases h with
  | switch places hs hlands =>
    have hb := Opcode.not_isBranch_of_isSwitch hs
    simpa only [Instruction.targets, if_neg hb, if_pos hs, Operand.targets?, Option.getD_some]
      using hlands
  | branch other hb ho hland =>
    have hs : ¬ c.opcode.isSwitch := Opcode.not_isSwitch_of_isBranch hb
    rw [Chunk.targets, if_neg hs, if_pos hb, Instruction.targets, if_pos hb]
    exact .cons ⟨ho, hland⟩ .nil
  | plain operand hs hb hr =>
    rw [Chunk.targets, if_neg hs, if_neg hb, Instruction.targets, if_neg hb, if_neg hs]
    exact .nil

/-- The pool that complete chunks decode to lists them. -/
theorem DecodesTo.lists (h : DecodesTo scope owner chunks p) (hc : ∀ c ∈ chunks, c.IsComplete) :
    Lists chunks p where
  size_eq := h.size_eq
  opcode place c hplace := by
    obtain ⟨operand, _, hf⟩ := h.becomes hplace
    rw [hf]
  offset place c hplace := by
    obtain ⟨operand, _, hf⟩ := h.becomes hplace
    rw [hf]
  index place c hplace := by
    obtain ⟨operand, _, hf⟩ := h.becomes hplace
    rw [hf]
  sizeOf place c hplace := by
    obtain ⟨operand, hb, hf⟩ := h.becomes hplace
    obtain ⟨hl, hs⟩ := hb.size_eq (hc c (List.mem_of_getElem? hplace))
      (Chunk.startOf chunks place : Nat) place
    rw [hf, Pool.sizeOf_of_table hl, hs]
  targets_lt place c hplace := by
    obtain ⟨operand, hb, hf⟩ := h.becomes hplace
    intro id hid
    rw [hf] at hid
    obtain ⟨_, _, ho, _⟩ := Sequence.exists_mem_of_forall₂ (hb.lands _ _).flip hid
    rwa [h.size_eq]
  targets place c hplace := by
    have hoffset : ∀ other < chunks.length,
        (p.fetch other).offset = (Chunk.startOf chunks other : Int) := by
      intro other ho
      obtain ⟨operand, _, hf⟩ := h.becomes (List.getElem?_eq_getElem ho)
      rw [hf]
    obtain ⟨operand, hb, hf⟩ := h.becomes hplace
    have hlands := hb.lands (Chunk.startOf chunks place : Nat) place
    rw [← hf] at hlands
    rw [← List.map_id (c.targets (Chunk.startOf chunks place))]
    exact Sequence.map_eq_map_of_forall₂ (hlands.flip.imp fun other target ht =>
      (hoffset other ht.1).trans ht.2.symm)

end lists

/-- The instructions of a pool, in its order, fill code without gaps. -/
structure Fills (code : Bytes) (p : Pool) : Prop where
  /-- The first one stands at the start. -/
  first : 0 < p.size → (p.fetch 0).offset = 0
  /-- Each next one stands behind the one before. -/
  next : ∀ place, place + 1 < p.size →
    (p.fetch (place + 1)).offset = (p.fetch place).offset + p.sizeOf (p.fetch place)
  /-- The last one ends with the code, and without instructions there is no code. -/
  last : p.size = 0 ∧ code = [] ∨ ∃ place, p.size = place + 1 ∧
    (p.fetch place).offset + p.sizeOf (p.fetch place) = code.length

/-- A pool that lists the chunks of code fills it. -/
theorem Lists.fills {chunks : List Chunk} {p : Pool} {code : Bytes} (h : Lists chunks p)
    (hc : Parses code chunks) : Fills code p where
  first hp := by
    have hlt : 0 < chunks.length := by rwa [← h.size_eq]
    rw [h.offset 0 _ (List.getElem?_eq_getElem hlt), Chunk.startOf_zero]
    rfl
  next place hp := by
    have hlt : place + 1 < chunks.length := by rwa [← h.size_eq]
    have hplace := List.getElem?_eq_getElem (Nat.lt_of_succ_lt hlt)
    rw [h.offset _ _ (List.getElem?_eq_getElem hlt), h.offset _ _ hplace, h.sizeOf _ _ hplace,
      Chunk.startOf_succ hplace]
    exact Int.natCast_add _ _
  last := by
    cases hn : chunks.length with
    | zero =>
      rw [List.eq_nil_of_length_eq_zero hn] at hc
      exact Or.inl ⟨by rw [h.size_eq, hn], hc.covers.symm⟩
    | succ place =>
      have hlt : place < chunks.length := by omega
      have hplace := List.getElem?_eq_getElem hlt
      refine Or.inr ⟨place, by rw [h.size_eq, hn], ?_⟩
      rw [h.offset _ _ hplace, h.sizeOf _ _ hplace, ← hc.covers, ← Chunk.startOf_length, hn,
        Chunk.startOf_succ hplace]
      exact (Int.natCast_add _ _).symm

/-! ### The grammar decides -/

/-- Decoding accepts exactly the code that is cut into chunks with good tokens and targets. The pool
then lists the chunks and fills the code. All other code is refused as undecodable and nothing else,
at the first chunk that cannot be read, or when all can, at the first with a target between
chunks. -/
theorem decode_follows_grammar (scope : Scope) (owner : String) (code : Bytes) :
    ((∃ p, decode scope owner code = .ok p) ↔ ∃ chunks, Accepts scope code chunks) ∧
      match decode scope owner code with
      | .ok p => (∃ chunks, Accepts scope code chunks ∧ Lists chunks p) ∧ Fills code p
      | .error e => ∃ (offset : Nat) (reason : String), e = .undecodable offset reason ∧
          (Unreadable scope code offset ∨ Astray scope code offset) := by
  refine ⟨decode_ok_iff, ?_⟩
  cases h : decode scope owner code with
  | ok p =>
    obtain ⟨chunks, hc, hp⟩ := decode_eq_ok.mp h
    have hl := hp.lists hc.complete
    exact ⟨⟨chunks, hp.accepts hc, hl⟩, hl.fills hc⟩
  | error e => exact decode_fault h

end CilRestore
