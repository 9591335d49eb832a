import CilRestore.Body.Stub
import CilRestore.Proofs.Bytes.Edits
import CilRestore.Proofs.Sequence

/-!
# Bodies in a file

What it means that a body stands in a file is said here by offsets, without the parser: a tiny or a
fat header, the code behind it, and behind the code of a fat one a chain of aligned sections, each
with its own size (`Stub.StandsAt`). The parser finds a body just where one stands, and refuses
every other offset as an invalid header (`Stub.parse_located`). Each section takes four bytes at
least, so a chain ends within the file, however its sections are made.
-/

namespace CilRestore

-- Powers and sums of numbers are those of the core library, whatever else is imported.
attribute [local instance (high)] instPowNat Zero.ofOfNat0

/-- A field of the rest of some data is a field of the data. -/
theorem Bytes.field_drop (data : Bytes) (base start width : Nat) :
    field (data.drop base) start width = field data (base + start) width := by
  rw [field, slice, List.drop_drop, ← slice, ← field]

namespace Stub

/-! ### Sections -/

/-- The kind of the section at an offset. -/
def sectionKind (data : Bytes) (start : Nat) : Nat := Bytes.field data start 1

/-- Whether the section at an offset has fat entries. -/
def hasFatEntries (data : Bytes) (start : Nat) : Bool :=
  sectionKind data start &&& BodyFormat.fatSection ≠ 0

/-- The bytes of the section at an offset, as it says itself: behind its kind, in three bytes where
its entries are fat and in one where they are not. -/
def sectionSize (data : Bytes) (start : Nat) : Nat :=
  Bytes.field data (start + 1) (if hasFatEntries data start then 3 else 1)

/-- The bytes of an entry. -/
def entrySize (isFat : Bool) : Nat := if isFat then 24 else 12

/-- The clause of the entry at an offset. -/
def clauseAt (data : Bytes) (isFat : Bool) (start : Nat) : Clause :=
  let field (place width : Nat) : Int := Bytes.field data (start + place) width
  if isFat then ⟨field 0 4, field 4 4, field 8 4, field 12 4, field 16 4, field 20 4⟩
  else ⟨field 0 2, field 2 2, field 4 1, field 5 2, field 7 1, field 8 4⟩

/-- The clauses of the section at an offset: one for each whole entry, and none in a section of
another kind. -/
def sectionClauses (data : Bytes) (start : Nat) : List Clause :=
  if sectionKind data start &&& BodyFormat.clauseSection ≠ 0 then
    let size := entrySize (hasFatEntries data start)
    (List.range ((sectionSize data start - 4) / size)).map fun place =>
      clauseAt data (hasFatEntries data start) (start + 4 + place * size)
  else []

/-- A section stands at an offset, all of it within the file. -/
def HoldsSection (data : Bytes) (start : Nat) : Prop :=
  4 ≤ sectionSize data start ∧ start + sectionSize data start ≤ data.length

instance (data : Bytes) (start : Nat) : Decidable (HoldsSection data start) :=
  inferInstanceAs (Decidable (_ ∧ _))

/-- Sections stand one behind the other from an offset on, each at the next multiple of four: the
clauses in them, in file order, and the offset behind the last one. -/
inductive SectionChain (data : Bytes) : Nat → List Clause → Nat → Prop where
  /-- The last section. -/
  | last {offset start : Nat} (hstart : start = Bytes.alignNat offset 4)
      (inside : HoldsSection data start)
      (isLast : sectionKind data start &&& BodyFormat.anotherSection = 0) :
      SectionChain data offset (sectionClauses data start) (start + sectionSize data start)
  /-- A section that another one follows. -/
  | more {offset start stop : Nat} {clauses : List Clause} (hstart : start = Bytes.alignNat offset 4)
      (inside : HoldsSection data start)
      (hasNext : sectionKind data start &&& BodyFormat.anotherSection ≠ 0)
      (rest : SectionChain data (start + sectionSize data start) clauses stop) :
      SectionChain data offset (sectionClauses data start ++ clauses) stop

/-- A chain of sections ends behind its start and within the file. -/
theorem SectionChain.bounds {data : Bytes} {offset stop : Nat} {clauses : List Clause}
    (h : SectionChain data offset clauses stop) : offset + 4 ≤ stop ∧ stop ≤ data.length := by
  induction h with
  | @last offset start hstart inside isLast =>
    have hle := Bytes.le_alignNat offset (show 0 < 4 by decide)
    obtain ⟨hsize, hstop⟩ := inside
    omega
  | @more offset start stop clauses hstart inside hasNext rest ih =>
    have hle := Bytes.le_alignNat offset (show 0 < 4 by decide)
    obtain ⟨hsize, hstop⟩ := inside
    omega

/-! ### Reading sections -/

/-- The fields of an entry are read where they stand. -/
theorem ofFields?_readFields (data : Bytes) (isFat : Bool) (start : Nat) :
    Clause.ofFields? (readFields (if isFat then Clause.fatWidths else Clause.smallWidths)
      (data.drop start)) = some (clauseAt data isFat start) := by
  cases isFat <;>
    simp [readFields, Clause.fatWidths, Clause.smallWidths, Clause.ofFields?, clauseAt, Bytes.field,
      Bytes.slice, List.drop_drop, Nat.add_assoc]

/-- The fields of a clause take the bytes of an entry. -/
theorem sum_widths (isFat : Bool) :
    (if isFat then Clause.fatWidths else Clause.smallWidths).sum = entrySize isFat := by
  cases isFat <;> rfl

/-- The entries of a section are read one behind the other. -/
theorem readClauses_drop (data : Bytes) (isFat : Bool) (count start : Nat) :
    readClauses (if isFat then Clause.fatWidths else Clause.smallWidths) count (data.drop start) =
      (List.range count).map fun place =>
        clauseAt data isFat (start + place * entrySize isFat) := by
  induction count generalizing start with
  | zero => rfl
  | succ count ih =>
    rw [readClauses, ofFields?_readFields, sum_widths, List.drop_drop, ih, List.range_succ_eq_map,
      List.map_cons, List.map_map, Option.toList_some, List.singleton_append]
    congr 1
    · rw [Nat.zero_mul, Nat.add_zero]
    · apply List.map_congr_left
      intro place _
      rw [Function.comp_apply, Nat.succ_mul, Nat.add_assoc, Nat.add_comm (entrySize isFat)]

/-- What a section says of itself stands in its first four bytes. -/
theorem section_of_drop {data rest : Bytes} {start : Nat} {kind a b c : UInt8}
    (h : data.drop start = kind :: a :: b :: c :: rest) :
    sectionKind data start = kind.toNat ∧
      sectionSize data start = (if kind.toNat &&& BodyFormat.fatSection ≠ 0 then
        Bytes.number [a, b, c] else a.toNat) ∧
      data.drop (start + 4) = rest ∧ data.length = start + 4 + rest.length := by
  have hkind : sectionKind data start = kind.toNat := by
    simp [sectionKind, Bytes.field, Bytes.slice, h, Bytes.number]
  have hnext : data.drop (start + 1) = a :: b :: c :: rest := by
    rw [← List.drop_drop, h, List.drop_succ_cons, List.drop_zero]
  refine ⟨hkind, ?_, by rw [← List.drop_drop, h]; rfl, ?_⟩
  · rw [sectionSize, hasFatEntries, hkind]
    by_cases hfat : kind.toNat &&& BodyFormat.fatSection = 0 <;>
      simp [hfat, Bytes.field, Bytes.slice, hnext, Bytes.number]
  · have hlen := congrArg List.length h
    rw [List.length_drop] at hlen
    simp only [List.length_cons] at hlen
    omega

/-- The clauses of a section are read from what follows these bytes. -/
theorem sectionClauses_of_drop {data rest : Bytes} {start : Nat} {kind a b c : UInt8}
    (h : data.drop start = kind :: a :: b :: c :: rest) :
    sectionClauses data start = if kind.toNat &&& BodyFormat.clauseSection ≠ 0 then
      let widths := if kind.toNat &&& BodyFormat.fatSection ≠ 0 then Clause.fatWidths
        else Clause.smallWidths
      readClauses widths ((sectionSize data start - 4) / widths.sum) rest else [] := by
  obtain ⟨hkind, -, hrest, -⟩ := section_of_drop h
  have hwidths : (if kind.toNat &&& BodyFormat.fatSection ≠ 0 then Clause.fatWidths
      else Clause.smallWidths) =
      if hasFatEntries data start then Clause.fatWidths else Clause.smallWidths := by
    simp only [hasFatEntries, hkind, decide_eq_true_eq]
  simp only [hwidths]
  rw [sum_widths, ← hrest, readClauses_drop, sectionClauses, hkind]

/-- Four bytes at least have four in front. -/
theorem exists_four_of_length {bs : Bytes} (h : 4 ≤ bs.length) :
    ∃ a b c d rest, bs = a :: b :: c :: d :: rest := by
  match bs, h with
  | a :: b :: c :: d :: rest, _ => exact ⟨a, b, c, d, rest, rfl⟩

/-- Reading sections takes the one at the next multiple of four and goes on behind it, or refuses
the header when none stands there. -/
theorem readSections_eq {data : Bytes} {token : Int} {offset start : Nat} {done : List Clause}
    (hstart : start = Bytes.alignNat offset 4) :
    readSections data token offset done =
      if HoldsSection data start then
        if sectionKind data start &&& BodyFormat.anotherSection = 0 then
          .ok (done ++ sectionClauses data start, start + sectionSize data start)
        else readSections data token (start + sectionSize data start)
          (done ++ sectionClauses data start)
      else .error (.invalidHeader token) := by
  rw [readSections, ← hstart]
  simp only
  split
  · rename_i kind a b c rest hdrop
    obtain ⟨hkind, hsize, -, hlen⟩ := section_of_drop hdrop
    rw [← hsize, ← sectionClauses_of_drop hdrop, ← hkind]
    by_cases hinside : HoldsSection data start
    · rw [if_pos hinside, if_neg]
      obtain ⟨hfour, hstop⟩ := hinside
      simp only [Bool.or_eq_true, decide_eq_true_eq, List.length_take, not_or]
      omega
    · rw [if_neg hinside, if_pos]
      simp only [HoldsSection] at hinside
      simp only [Bool.or_eq_true, decide_eq_true_eq, List.length_take]
      omega
  · rename_i hshort
    rw [if_neg]
    rintro ⟨hfour, hstop⟩
    have hlen : 4 ≤ (data.drop start).length := by
      rw [List.length_drop]
      omega
    obtain ⟨kind, a, b, c, rest, hdrop⟩ := exists_four_of_length hlen
    exact hshort kind a b c rest hdrop

/-- Behind a section that stands in the file, fewer bytes of it are left. -/
theorem HoldsSection.lt {data : Bytes} {offset start : Nat} (inside : HoldsSection data start)
    (hstart : start = Bytes.alignNat offset 4) :
    data.length - (start + sectionSize data start) < data.length - offset := by
  have hle := Bytes.le_alignNat offset (show 0 < 4 by decide)
  obtain ⟨hfour, hstop⟩ := inside
  omega

/-- Sections are read just where they stand one behind the other: by induction on the bytes of the
file that are left. -/
theorem readSections_eq_ok {data : Bytes} {token : Int} {offset stop : Nat}
    {done clauses : List Clause} :
    readSections data token offset done = .ok (clauses, stop) ↔
      ∃ here, clauses = done ++ here ∧ SectionChain data offset here stop := by
  induction hleft : data.length - offset using Nat.strongRecOn
    generalizing offset done with
  | ind left ih =>
    rw [readSections_eq rfl]
    split
    · rename_i hinside
      split
      · rename_i hlast
        constructor
        · intro h
          simp only [Except.ok.injEq, Prod.mk.injEq] at h
          obtain ⟨rfl, rfl⟩ := h
          exact ⟨_, rfl, .last rfl hinside hlast⟩
        · rintro ⟨here, rfl, hchain⟩
          cases hchain with
          | last hstart _ _ => rw [hstart]
          | more hstart _ hnext _ => exact absurd (hstart ▸ hlast) hnext
      · rename_i hnext
        rw [ih _ (hleft ▸ hinside.lt rfl) rfl]
        constructor
        · rintro ⟨here, rfl, hchain⟩
          exact ⟨_, by rw [List.append_assoc], .more rfl hinside hnext hchain⟩
        · rintro ⟨here, rfl, hchain⟩
          cases hchain with
          | last hstart _ hlast => exact absurd (hstart ▸ hlast) hnext
          | more hstart _ _ rest =>
            subst hstart
            exact ⟨_, by rw [List.append_assoc], rest⟩
    · rename_i hinside
      constructor
      · intro h
        cases h
      · rintro ⟨here, -, hchain⟩
        cases hchain with
        | last hstart hthere _ => exact absurd (hstart ▸ hthere) hinside
        | more hstart hthere _ _ => exact absurd (hstart ▸ hthere) hinside

/-- Sections that are not there are an invalid header. -/
theorem readSections_fault {data : Bytes} {token : Int} {offset : Nat} {done : List Clause}
    {e : Fault} (h : readSections data token offset done = .error e) :
    e = .invalidHeader token := by
  induction hleft : data.length - offset using Nat.strongRecOn
    generalizing offset done with
  | ind left ih =>
    rw [readSections_eq rfl] at h
    split at h
    · rename_i hinside
      split at h
      · cases h
      · exact ih _ (hleft ▸ hinside.lt rfl) h rfl
    · cases h
      rfl

/-! ### Bodies -/

/-- The bytes of the fat header at an offset, in words in its upper four bits. -/
def headerSizeAt (data : Bytes) (start : Nat) : Nat := Bytes.field data start 2 / 2 ^ 12 * 4

/-- Where the code behind the fat header at an offset ends. -/
def codeEndAt (data : Bytes) (start : Nat) : Nat :=
  start + headerSizeAt data start + Bytes.field data (start + 4) 4

/-- The body with a fat header at an offset that has these clauses and ends there. -/
def fatAt (data : Bytes) (start : Nat) (clauses : List Clause) (stop : Nat) : Stub where
  maxStack := Bytes.field data (start + 2) 2
  code := Bytes.slice data (start + headerSizeAt data start) (Bytes.field data (start + 4) 4)
  locals := Bytes.field data (start + 8) 4
  initLocals := Bytes.field data start 2 &&& BodyFormat.initLocals ≠ 0
  clauses := clauses
  headerSize := headerSizeAt data start
  totalSize := stop - start

/-- The body with a tiny header at an offset: a byte with the size of the code in its upper six
bits, and the code. -/
def tinyAt (data : Bytes) (start : Nat) : Stub where
  code := Bytes.slice data (start + 1) (Bytes.field data start 1 / 4)
  headerSize := 1
  totalSize := 1 + Bytes.field data start 1 / 4
  isTiny := true

/-- What follows the code of the fat header at an offset: a chain of sections when the header says
so, and nothing otherwise. -/
def EndsAt (data : Bytes) (start : Nat) (clauses : List Clause) (stop : Nat) : Prop :=
  if Bytes.field data start 2 &&& BodyFormat.moreSections ≠ 0 then
    SectionChain data (codeEndAt data start) clauses stop
  else clauses = [] ∧ stop = codeEndAt data start

/-- A body stands at an offset of a file. -/
inductive StandsAt (data : Bytes) (start : Nat) : Stub → Prop where
  /-- One with a tiny header. -/
  | tiny (format : Bytes.field data start 1 % 4 = BodyFormat.tiny)
      (inside : start + 1 + Bytes.field data start 1 / 4 ≤ data.length) :
      StandsAt data start (tinyAt data start)
  /-- One with a fat header. -/
  | fat {clauses : List Clause} {stop : Nat}
      (format : Bytes.field data start 1 % 4 = BodyFormat.fat)
      (header : 12 ≤ headerSizeAt data start) (inside : codeEndAt data start ≤ data.length)
      (sections : EndsAt data start clauses stop) :
      StandsAt data start (fatAt data start clauses stop)

variable {data : Bytes} {start : Nat} {s : Stub}

/-- What follows the code ends behind it and within the file. -/
theorem EndsAt.bounds {clauses : List Clause} {stop : Nat} (h : EndsAt data start clauses stop)
    (inside : codeEndAt data start ≤ data.length) :
    codeEndAt data start ≤ stop ∧ stop ≤ data.length := by
  unfold EndsAt at h
  split at h
  · have := h.bounds
    omega
  · omega

/-- A body that stands in a file lies in it: the code comes right behind the header, and both are
part of what the body takes. -/
theorem StandsAt.inside (h : StandsAt data start s) :
    start + s.totalSize ≤ data.length ∧ s.headerSize + s.code.length ≤ s.totalSize ∧
      Bytes.slice data (start + s.headerSize) s.code.length = s.code ∧
      (s.isTiny → s.totalSize = 1 + s.code.length) := by
  cases h with
  | tiny format inside =>
    have hlen : (tinyAt data start).code.length = Bytes.field data start 1 / 4 :=
      Bytes.length_slice inside
    rw [hlen]
    exact ⟨by simp only [tinyAt]; omega, Nat.le_refl _, rfl, fun _ => rfl⟩
  | @fat clauses stop format header inside sections =>
    have hbounds := sections.bounds inside
    have hlen : (fatAt data start clauses stop).code.length = Bytes.field data (start + 4) 4 :=
      Bytes.length_slice inside
    rw [hlen]
    unfold codeEndAt at hbounds
    refine ⟨?_, ?_, rfl, fun h => ?_⟩
    · simp only [fatAt]
      omega
    · simp only [fatAt]
      omega
    · cases h

/-! ### Reading bodies -/

/-- The first byte of a body and what follows it. -/
theorem first_of_drop {first : UInt8} {rest : Bytes} (h : data.drop start = first :: rest) :
    Bytes.field data start 1 = first.toNat ∧ data.drop (start + 1) = rest ∧
      data.length = start + 1 + rest.length := by
  refine ⟨by simp [Bytes.field, Bytes.slice, h, Bytes.number],
    by rw [← List.drop_drop, h, List.drop_succ_cons, List.drop_zero], ?_⟩
  have hlen := congrArg List.length h
  rw [List.length_drop, List.length_cons] at hlen
  omega

/-- Reading a tiny header only fails when the code does not fit in the file. -/
theorem parseTiny_eq {first : UInt8} {rest : Bytes} (h : data.drop start = first :: rest)
    (token : Int) : parseTiny token first.toNat rest =
      if start + 1 + Bytes.field data start 1 / 4 ≤ data.length then .ok (tinyAt data start)
      else .error (.invalidHeader token) := by
  obtain ⟨hfirst, hrest, hlen⟩ := first_of_drop h
  simp only [parseTiny, tinyAt, hfirst, Bytes.slice, hrest, List.length_take]
  split <;> split
  · omega
  · rfl
  · rfl
  · omega

/-- Reading a fat header fails when the header or the code does not fit in the file, and otherwise
when a section does not. -/
theorem parseFat_eq (data : Bytes) (token : Int) (start : Nat) : parseFat data token start =
    if 12 ≤ headerSizeAt data start ∧ codeEndAt data start ≤ data.length then
      (fun read => fatAt data start read.1 read.2) <$>
        (if Bytes.field data start 2 &&& BodyFormat.moreSections ≠ 0 then
          readSections data token (codeEndAt data start) []
        else .ok ([], codeEndAt data start))
    else .error (.invalidHeader token) := by
  have hfield : ∀ place width, Bytes.field (data.drop start) place width =
      Bytes.field data (start + place) width := Bytes.field_drop data start
  have hslice : ∀ place count, Bytes.slice (data.drop start) place count =
      Bytes.slice data (start + place) count := by
    intro place count
    rw [Bytes.slice, List.drop_drop, ← Bytes.slice]
  have hheader : Bytes.field data start 2 / 2 ^ 12 * 4 = headerSizeAt data start := rfl
  unfold parseFat
  simp only [hfield, hslice, Nat.add_zero, hheader]
  by_cases hshort : data.length < start + 12
  · have hnot : ¬ (12 ≤ headerSizeAt data start ∧ codeEndAt data start ≤ data.length) := by
      unfold codeEndAt
      omega
    rw [if_neg hnot, if_pos (by rw [List.length_take, List.length_drop]; omega)]
    rfl
  rw [if_neg (by rw [List.length_take, List.length_drop]; omega)]
  by_cases hsmall : headerSizeAt data start < 12
  · have hnot : ¬ (12 ≤ headerSizeAt data start ∧ codeEndAt data start ≤ data.length) := by omega
    rw [if_neg hnot, if_pos hsmall]
    rfl
  rw [if_neg hsmall]
  have hcode : (decide ((Bytes.slice data (start + headerSizeAt data start)
      (Bytes.field data (start + 4) 4)).length < Bytes.field data (start + 4) 4) ||
      decide (((data.drop start).take (headerSizeAt data start)).length <
        headerSizeAt data start)) = true ↔ data.length < codeEndAt data start := by
    simp only [Bool.or_eq_true, decide_eq_true_eq, Bytes.slice, List.length_take, List.length_drop,
      codeEndAt]
    omega
  by_cases hcut : data.length < codeEndAt data start
  · have hnot : ¬ (12 ≤ headerSizeAt data start ∧ codeEndAt data start ≤ data.length) := by omega
    rw [if_neg hnot, if_pos (hcode.mpr hcut)]
    rfl
  have hfits : 12 ≤ headerSizeAt data start ∧ codeEndAt data start ≤ data.length := by omega
  rw [if_pos hfits, if_neg (mt hcode.mp hcut)]
  by_cases hmore : Bytes.field data start 2 &&& BodyFormat.moreSections ≠ 0
  · rw [if_pos hmore, if_pos hmore]
    rfl
  · rw [if_neg hmore, if_neg hmore]
    rfl

/-- A fat header is read just where its code and its sections stand in the file. -/
theorem parseFat_eq_ok {token : Int} : parseFat data token start = .ok s ↔
    12 ≤ headerSizeAt data start ∧ codeEndAt data start ≤ data.length ∧
      ∃ clauses stop, EndsAt data start clauses stop ∧ s = fatAt data start clauses stop := by
  have hends : ∀ clauses stop,
      (if Bytes.field data start 2 &&& BodyFormat.moreSections ≠ 0 then
        readSections data token (codeEndAt data start) []
      else .ok ([], codeEndAt data start)) = .ok (clauses, stop) ↔
        EndsAt data start clauses stop := by
    intro clauses stop
    unfold EndsAt
    split
    · rw [readSections_eq_ok]
      simp
    · simp only [Except.ok.injEq, Prod.mk.injEq]
      exact and_congr eq_comm eq_comm
  rw [parseFat_eq]
  split
  · rename_i hfits
    rw [Sequence.map_eq_ok]
    constructor
    · rintro ⟨⟨clauses, stop⟩, hread, rfl⟩
      exact ⟨hfits.1, hfits.2, clauses, stop, (hends clauses stop).mp hread, rfl⟩
    · rintro ⟨-, -, clauses, stop, hchain, rfl⟩
      exact ⟨(clauses, stop), (hends clauses stop).mpr hchain, rfl⟩
  · rename_i hfits
    constructor
    · intro h
      cases h
    · rintro ⟨hheader, hinside, -⟩
      exact absurd ⟨hheader, hinside⟩ hfits

/-- All that can go wrong with a fat body is its header. -/
theorem parseFat_fault {token : Int} {e : Fault} (h : parseFat data token start = .error e) :
    e = .invalidHeader token := by
  rw [parseFat_eq] at h
  split at h
  · have hread := Sequence.map_eq_error.mp h
    split at hread
    · exact readSections_fault hread
    · cases hread
  · cases h
    rfl

/-- The low bits of the first byte decide how a body is read. Behind the end of the file there is no
byte, which says neither. -/
theorem parse_natCast (data : Bytes) (start : Nat) (token : Int) :
    parse data (some (start : Int)) token =
      if Bytes.field data start 1 % 4 = BodyFormat.tiny then
        if start + 1 + Bytes.field data start 1 / 4 ≤ data.length then .ok (tinyAt data start)
        else .error (.invalidHeader token)
      else if Bytes.field data start 1 % 4 = BodyFormat.fat then parseFat data token start
      else .error (.invalidHeader token) := by
  rw [parse, if_neg (by omega)]
  simp only [Int.toNat_natCast]
  cases hdrop : data.drop start with
  | nil =>
    have hzero : Bytes.field data start 1 = 0 := by
      simp [Bytes.field, Bytes.slice, hdrop, Bytes.number]
    simp [hzero, BodyFormat.tiny, BodyFormat.fat]
  | cons first rest =>
    rw [← parseTiny_eq hdrop token, (first_of_drop hdrop).1]

/-- A body is read at an offset just when it stands there. -/
theorem parse_eq_ok {token : Int} :
    parse data (some (start : Int)) token = .ok s ↔ StandsAt data start s := by
  rw [parse_natCast]
  constructor
  · intro h
    split at h
    · rename_i htiny
      split at h
      · rename_i hinside
        cases h
        exact .tiny htiny hinside
      · cases h
    · split at h
      · rename_i hfat
        obtain ⟨hheader, hinside, clauses, stop, hends, rfl⟩ := parseFat_eq_ok.mp h
        exact .fat hfat hheader hinside hends
      · cases h
  · rintro (⟨htiny, hinside⟩ | ⟨hfat, hheader, hinside, hends⟩)
    · rw [if_pos htiny, if_pos hinside]
    · rw [if_neg (by rw [hfat]; decide), if_pos hfat]
      exact parseFat_eq_ok.mpr ⟨hheader, hinside, _, _, hends, rfl⟩

/-- What is no body is an invalid header, and nothing else. -/
theorem parse_fault {data : Bytes} {offset : Option Int} {token : Int} {e : Fault}
    (h : parse data offset token = .error e) : e = .invalidHeader token := by
  rcases offset with _ | offset
  · cases h
    rfl
  · rcases Int.lt_or_le offset 0 with hneg | hpos
    · rw [parse, if_pos hneg] at h
      cases h
      rfl
    · obtain ⟨start, rfl⟩ := Int.eq_ofNat_of_zero_le hpos
      rw [parse_natCast] at h
      split at h
      · split at h
        · cases h
        · cases h
          rfl
      · split at h
        · exact parseFat_fault h
        · cases h
          rfl

/-- What is read is a body that stands at the offset. -/
theorem standsAt_of_parse {data : Bytes} {offset : Option Int} {token : Int} {s : Stub}
    (h : parse data offset token = .ok s) :
    ∃ start : Nat, offset = some (start : Int) ∧ StandsAt data start s := by
  rcases offset with _ | offset
  · cases h
  · rcases Int.lt_or_le offset 0 with hneg | hpos
    · rw [parse, if_pos hneg] at h
      cases h
    · obtain ⟨start, rfl⟩ := Int.eq_ofNat_of_zero_le hpos
      exact ⟨start, rfl, parse_eq_ok.mp h⟩

/-- Reading a body always ends, whatever the file, the offset and the sections are. Either the
offset is that of a body that stands there: then this is what is read, with the clauses of its
sections in file order; it lies in the file, the code comes right behind the header, and a tiny
header is followed by nothing but the code. Or no body stands there, and the header is invalid. -/
theorem parse_located (data : Bytes) (offset : Option Int) (token : Int) :
    (∃ (start : Nat) (s : Stub), offset = some (start : Int) ∧ parse data offset token = .ok s ∧
      StandsAt data start s ∧ start + s.totalSize ≤ data.length ∧
      s.headerSize + s.code.length ≤ s.totalSize ∧
      Bytes.slice data (start + s.headerSize) s.code.length = s.code ∧
      (s.isTiny → s.totalSize = 1 + s.code.length)) ∨
    parse data offset token = .error (.invalidHeader token) ∧
      ∀ (start : Nat) (s : Stub), offset = some (start : Int) → ¬ StandsAt data start s := by
  cases hparse : parse data offset token with
  | error e =>
    refine Or.inr ⟨by rw [parse_fault hparse], ?_⟩
    rintro start s rfl hstands
    rw [parse_eq_ok.mpr hstands] at hparse
    cases hparse
  | ok s =>
    obtain ⟨start, hoffset, hstands⟩ := standsAt_of_parse hparse
    exact Or.inl ⟨start, s, hoffset, rfl, hstands, hstands.inside⟩

/-- A section of another kind stands between the code and the section with the clause. -/
example : parse [0x0B, 0x30, 1, 0, 1, 0, 0, 0, 0, 0, 0, 0, 0x2A, 0, 0, 0, 0x80, 4, 0, 0,
    0x01, 16, 0, 0, 2, 0, 0, 0, 1, 0, 0, 1, 0, 0, 0, 0] (some 0) 0 =
      .ok ⟨1, [0x2A], 0, false, [⟨2, 0, 1, 0, 1, 0⟩], 12, 36, false⟩ := by
  decide +kernel

end Stub

end CilRestore
