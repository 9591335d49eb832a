import CilRestore.Metadata.Layout
import CilRestore.Proofs.Bytes.Edits
import CilRestore.Proofs.Sequence
import Mathlib.Algebra.BigOperators.Group.List.Basic
import Mathlib.Data.Nat.Bitwise
import Mathlib.Tactic.IntervalCases

/-!
# The tables stream

The tables stream as ECMA-335 lays it out: a head, which flags the wide heaps, lists the tables that
are there and counts their rows, and then the rows, table by table, each column as wide as the heap
or the tables need that it refers to. This is said here without the schema and the sizes that the
reader computes with. The reader finds such a head for what it is (`TablesHead.readTables_append`)
and gives every row of a table up to the methods the bytes that it takes
(`TablesHead.rowSize_sizes`), so the cells that it answers are those of the RVAs
(`MetadataLayout.rvaCell_of_stream`).
-/

namespace CilRestore

-- Powers and sums of numbers are those of the core library, whatever else is imported.
attribute [local instance (high)] instPowNat Zero.ofOfNat0

/-! ### The stream -/

/-- The head of a tables stream. -/
structure TablesHead where
  /-- Four bytes without meaning. -/
  reserved : UInt32
  /-- The version of the schema. -/
  majorVersion : UInt8
  /-- The version of the schema, behind the point. -/
  minorVersion : UInt8
  /-- A bit for each wide heap, and one for the extra data. -/
  heapSizes : UInt8
  /-- One more byte without meaning. -/
  padding : UInt8
  /-- A bit for each table that is there. -/
  valid : UInt64
  /-- A bit for each table that is sorted. -/
  sorted : UInt64
  /-- The number of rows of each table that is there. -/
  counts : Nat → UInt32
  /-- The extra data. -/
  extra : UInt32

namespace TablesHead

/-- The tables that are there, in their order. -/
def present (h : TablesHead) : List Nat := (List.range 64).filter h.valid.toNat.testBit

/-- The number of rows of a table. -/
def rowCount (h : TablesHead) (table : Nat) : Nat :=
  if h.valid.toNat.testBit table then (h.counts table).toNat else 0

/-- The bytes in front of the flags of the heaps. -/
def lead (h : TablesHead) : Bytes :=
  Bytes.ofNumber 4 h.reserved.toNat ++ Bytes.ofNumber 1 h.majorVersion.toNat ++
    Bytes.ofNumber 1 h.minorVersion.toNat

/-- The numbers of rows of the tables that are there. -/
def countBytes (h : TablesHead) : Bytes :=
  h.present.flatMap fun table => Bytes.ofNumber 4 (h.rowCount table)

/-- The extra data, if a flag announces them. -/
def extraBytes (h : TablesHead) : Bytes :=
  if h.heapSizes.toNat.testBit 6 then Bytes.ofNumber 4 h.extra.toNat else []

/-- The bytes of the head. -/
def bytes (h : TablesHead) : Bytes :=
  h.lead ++ Bytes.ofNumber 1 h.heapSizes.toNat ++ Bytes.ofNumber 1 h.padding.toNat ++
    Bytes.ofNumber 8 h.valid.toNat ++ Bytes.ofNumber 8 h.sorted.toNat ++ h.countBytes ++
    h.extraBytes

/-- The width of an index into the heap of a bit. -/
def heapIndex (h : TablesHead) (bit : Nat) : Nat := if h.heapSizes.toNat.testBit bit then 4 else 2

/-- The width of an index into a table. -/
def rowIndex (h : TablesHead) (table : Nat) : Nat := if h.rowCount table < 2 ^ 16 then 2 else 4

/-- The width of an index into one of several tables, which the low bits tell apart. -/
def codedIndex (h : TablesHead) (tagBits : Nat) (tables : List Nat) : Nat :=
  if ∀ table ∈ tables, h.rowCount table < 2 ^ (16 - tagBits) then 2 else 4

/-- The widths of the columns of a table, up to the methods. -/
def widths (h : TablesHead) : Nat → List Nat
  -- the module: generation, name and three GUIDs
  | 0x00 => [2, h.heapIndex 0, h.heapIndex 1, h.heapIndex 1, h.heapIndex 1]
  -- a type of another module: where it is (a module, a module or assembly referred to, or a type
  -- that encloses it), name and namespace
  | 0x01 => [h.codedIndex 2 [0x00, 0x1A, 0x23, 0x01], h.heapIndex 0, h.heapIndex 0]
  -- a type: flags, name, namespace, what it extends (a type in any form), fields and methods
  | 0x02 => [4, h.heapIndex 0, h.heapIndex 0, h.codedIndex 2 [0x02, 0x01, 0x1B], h.rowIndex 0x04,
      h.rowIndex 0x06]
  -- a place of a field
  | 0x03 => [h.rowIndex 0x04]
  -- a field: flags, name and signature
  | 0x04 => [2, h.heapIndex 0, h.heapIndex 2]
  -- a place of a method
  | 0x05 => [h.rowIndex 0x06]
  -- a method: RVA, two sets of flags, name, signature and parameters
  | 0x06 => [4, 2, 2, h.heapIndex 0, h.heapIndex 2, h.rowIndex 0x08]
  | _ => []

end TablesHead

/-- A tables stream: the head, the rows of the tables up to the methods, each the numbers in its
columns, and the bytes of all other tables. -/
structure TablesStream where
  /-- The head. -/
  head : TablesHead
  /-- The rows of each table up to the methods. -/
  rows : Nat → List (List Nat)
  /-- What follows them. -/
  rest : Bytes
  /-- They are as many as the head counts. -/
  length_rows : ∀ table ≤ 6, (rows table).length = head.rowCount table
  /-- The numbers in them fit their columns. -/
  fits : ∀ table ≤ 6, ∀ row ∈ rows table,
    List.Forall₂ (fun width value => value < 256 ^ width) (head.widths table) row

namespace TablesStream

/-- The bytes of a row. -/
def encodeRow (widths row : List Nat) : Bytes := (List.zipWith Bytes.ofNumber widths row).flatten

/-- The bytes of rows of a table. -/
def encodeRows (s : TablesStream) (table : Nat) (rows : List (List Nat)) : Bytes :=
  rows.flatMap (encodeRow (s.head.widths table))

/-- The bytes in front of the methods. -/
def front (s : TablesStream) : Bytes :=
  s.head.bytes ++ (List.range 6).flatMap fun table => s.encodeRows table (s.rows table)

/-- The bytes of the stream. -/
def bytes (s : TablesStream) : Bytes := s.front ++ s.encodeRows 6 (s.rows 6) ++ s.rest

/-- Where the row of a method starts, and so its RVA: behind all that comes in front of the row. -/
def rvaPlace (s : TablesStream) (position : Nat) : Nat :=
  (s.front ++ s.encodeRows 6 ((s.rows 6).take position)).length

/-! ### The bytes of rows -/

variable {s : TablesStream}

/-- A stream has a head at least. -/
theorem bytes_ne_nil (s : TablesStream) : s.bytes ≠ [] := by
  have hpos : 0 < (Bytes.ofNumber 8 s.head.valid.toNat).length := by simp
  intro hnil
  have hlength := congrArg List.length hnil
  simp only [bytes, front, TablesHead.bytes, List.length_append, List.length_nil] at hlength
  omega

/-- A row takes the bytes of its columns. -/
theorem length_encodeRow {widths row : List Nat}
    (h : List.Forall₂ (fun width value => value < 256 ^ width) widths row) :
    (encodeRow widths row).length = widths.sum := by
  induction h with
  | nil => rfl
  | cons _ _ ih =>
    rw [encodeRow] at ih
    rw [encodeRow, List.zipWith_cons_cons, List.flatten_cons, List.length_append,
      Bytes.length_ofNumber, ih, List.sum_cons]

/-- Rows of a table take the bytes of their columns. -/
theorem length_encodeRows {table : Nat} (ht : table ≤ 6) {rows : List (List Nat)}
    (hrows : rows ⊆ s.rows table) :
    (s.encodeRows table rows).length = rows.length * (s.head.widths table).sum := by
  have hrow : ∀ row ∈ rows, (encodeRow (s.head.widths table) row).length =
      (s.head.widths table).sum := fun row hrow =>
    length_encodeRow (s.fits table ht row (hrows hrow))
  rw [encodeRows, List.length_flatMap, List.map_congr_left hrow, List.map_const',
    List.sum_replicate_nat]

/-- The RVA of a method stands behind the head, the tables in front of the methods and the rows in
front of its own. -/
theorem rvaPlace_eq {position : Nat} (hp : position ≤ s.head.rowCount 6) :
    s.rvaPlace position = s.head.bytes.length +
      ((List.range 6).map fun table => s.head.rowCount table * (s.head.widths table).sum).sum +
      position * (s.head.widths 6).sum := by
  have htable : ∀ table ∈ List.range 6, (s.encodeRows table (s.rows table)).length =
      s.head.rowCount table * (s.head.widths table).sum := by
    intro table ht
    have ht : table ≤ 6 := Nat.le_of_lt (List.mem_range.mp ht)
    rw [length_encodeRows ht (List.Subset.refl _), s.length_rows table ht]
  have hrows : (s.encodeRows 6 ((s.rows 6).take position)).length =
      position * (s.head.widths 6).sum := by
    rw [length_encodeRows (Nat.le_refl _) (List.take_subset _ _), List.length_take,
      s.length_rows 6 (Nat.le_refl _), Nat.min_eq_left hp]
  rw [rvaPlace, front, List.length_append, List.length_append, List.length_flatMap,
    List.map_congr_left htable, hrows]

/-- A row of a method takes four bytes at least. -/
theorem le_sum_widths (h : TablesHead) : 4 ≤ (h.widths 6).sum := by
  rw [TablesHead.widths, List.sum_cons]
  omega

/-- RVAs of different methods do not overlap. -/
theorem rvaPlace_apart {position other : Nat} (hp : position < s.head.rowCount 6)
    (ho : other < s.head.rowCount 6) (hne : position ≠ other) :
    Bytes.Apart (s.rvaPlace position) 4 (s.rvaPlace other) 4 := by
  -- the earlier row takes four bytes at least
  have hlt : ∀ {a b : Nat}, a < b → a * (s.head.widths 6).sum + 4 ≤ b * (s.head.widths 6).sum := by
    intro a b hab
    have hmul := Nat.mul_le_mul_right (s.head.widths 6).sum hab
    have hfour := le_sum_widths s.head
    rw [Nat.succ_mul] at hmul
    omega
  rw [rvaPlace_eq (Nat.le_of_lt hp), rvaPlace_eq (Nat.le_of_lt ho)]
  rcases Nat.lt_or_gt_of_ne hne with h | h
  · exact Or.inl (by have := hlt h; omega)
  · exact Or.inr (by have := hlt h; omega)

/-- At its place the RVA of a method stands in the stream. -/
theorem exists_rva {position : Nat} (hp : position < s.head.rowCount 6) :
    ∃ rva others, (s.rows 6)[position]? = some (rva :: others) ∧ rva < 256 ^ 4 ∧
      ∃ before after, s.bytes = before ++ (Bytes.ofNumber 4 rva ++ after) ∧
        before.length = s.rvaPlace position := by
  have hlength := s.length_rows 6 (Nat.le_refl _)
  have hget : (s.rows 6)[position]? = some (s.rows 6)[position] := List.getElem?_eq_getElem _
  have hfits := s.fits 6 (Nat.le_refl _) _ (List.getElem_mem (by omega : position < _))
  have hsplit : s.rows 6 = (s.rows 6).take position ++ (s.rows 6)[position] ::
      (s.rows 6).drop (position + 1) := by
    rw [List.cons_getElem_drop_succ, List.take_append_drop]
  generalize (s.rows 6)[position] = row at hget hfits hsplit
  obtain ⟨rva, others, hrva, hothers, rfl⟩ := List.forall₂_cons_left_iff.mp hfits
  have hrow : encodeRow (s.head.widths 6) (rva :: others) =
      Bytes.ofNumber 4 rva ++ encodeRow (s.head.widths 6).tail others := rfl
  have hrows : s.encodeRows 6 (s.rows 6) = s.encodeRows 6 ((s.rows 6).take position) ++
      (Bytes.ofNumber 4 rva ++ (encodeRow (s.head.widths 6).tail others ++
        s.encodeRows 6 ((s.rows 6).drop (position + 1)))) := by
    rw [← List.append_assoc (Bytes.ofNumber 4 rva), ← hrow]
    simp only [encodeRows]
    rw [← List.flatMap_cons, ← List.flatMap_append, ← hsplit]
  refine ⟨rva, others, hget, hrva, s.front ++ s.encodeRows 6 ((s.rows 6).take position),
    encodeRow (s.head.widths 6).tail others ++ s.encodeRows 6 ((s.rows 6).drop (position + 1)) ++
      s.rest, ?_, rfl⟩
  rw [bytes, hrows]
  simp only [List.append_assoc]

end TablesStream

/-! ### Reading the head -/

namespace Bytes

theorem between_natCast (data : Bytes) (start stop : Nat) :
    between data start stop = slice data start (stop - start) := rfl

end Bytes

namespace MetadataLayout

/-- A number that stands in a file is read. -/
theorem readNumber_of_eq {data before after : Bytes} {offset : Int} {width n : Nat}
    (hdata : data = before ++ (Bytes.ofNumber width n ++ after))
    (hoffset : offset = before.length) (hn : n < 256 ^ width) :
    readNumber data offset width = .ok n := by
  subst hdata hoffset
  have hfield := Bytes.field_ofNumber before after rfl hn
  rw [Bytes.field] at hfield
  unfold readNumber
  rw [if_neg (by simp only [List.length_append, Bytes.length_ofNumber]; omega),
    ← Int.natCast_add, Bytes.between_natCast, Nat.add_sub_cancel_left, hfield]

/-- Numbers of rows that stand one behind the other are read. -/
theorem readRowCounts_append {count : Nat → Nat} (hcount : ∀ table, count table < 256 ^ 4)
    (tables : List Nat) (before after : Bytes) (done : List (Nat × Nat)) :
    readRowCounts (before ++ (tables.flatMap (fun table => Bytes.ofNumber 4 (count table)) ++ after))
        tables before.length done =
      .ok (done.reverse ++ tables.map fun table => (table, count table),
        (before.length + 4 * tables.length : Nat)) := by
  induction tables generalizing before done with
  | nil => simp [readRowCounts]
  | cons table tables ih =>
    have hdata : before ++ ((table :: tables).flatMap
        (fun table => Bytes.ofNumber 4 (count table)) ++ after) =
        (before ++ Bytes.ofNumber 4 (count table)) ++
          (tables.flatMap (fun table => Bytes.ofNumber 4 (count table)) ++ after) := by
      simp only [List.flatMap_cons, List.append_assoc]
    have hlength : ((before ++ Bytes.ofNumber 4 (count table)).length : Int) =
        (before.length : Int) + 4 := by
      rw [List.length_append, Bytes.length_ofNumber, Int.natCast_add]
      rfl
    rw [readRowCounts, readNumber_of_eq (hdata.trans (List.append_assoc _ _ _)) rfl (hcount table)]
    simp only
    rw [hdata, ← hlength, ih, List.reverse_cons, List.append_assoc, List.singleton_append,
      List.map_cons, List.length_cons, List.length_append, Bytes.length_ofNumber]
    congr 3
    omega

end MetadataLayout

namespace TablesHead

variable (h : TablesHead)

/-- What the head says of the sizes of the tables. -/
def sizes : TableSizes where
  heapFlags := h.heapSizes.toNat
  rowCounts := h.present.map fun table => (table, h.rowCount table)

theorem rowCount_lt (table : Nat) : h.rowCount table < 256 ^ 4 := by
  rw [rowCount]
  split
  · exact (h.counts table).toNat_lt
  · decide

theorem length_lead : h.lead.length = 6 := by simp [lead]

theorem length_countBytes : h.countBytes.length = 4 * h.present.length := by
  simp [countBytes, List.length_flatMap, Nat.mul_comm]

/-- A head takes four bytes for each table that is there, and four more with extra data. -/
theorem length_bytes : h.bytes.length =
    24 + 4 * h.present.length + if h.heapSizes.toNat.testBit 6 then 4 else 0 := by
  have hextra : h.extraBytes.length = if h.heapSizes.toNat.testBit 6 then 4 else 0 := by
    rw [extraBytes]
    split <;> simp
  simp only [bytes, List.length_append, Bytes.length_ofNumber, length_lead, length_countBytes,
    hextra]

/-- A flag of the heaps is a bit of them. -/
theorem and_two_pow_ne_zero (flags bit : Nat) : flags &&& 2 ^ bit ≠ 0 ↔ flags.testBit bit = true := by
  rw [Nat.and_two_pow]
  cases flags.testBit bit <;> simp

/-- A head is read as what it says of the tables, and they start behind it. -/
theorem readTables_append (before after : Bytes) :
    MetadataLayout.readTables (before ++ (h.bytes ++ after)) before.length =
      .ok (h.sizes, (before.length + h.bytes.length : Nat)) := by
  let data := before ++ (h.bytes ++ after)
  have hheap : MetadataLayout.readNumber data (before.length + 6) 1 = .ok h.heapSizes.toNat := by
    have hdata : data = before ++ h.lead ++ (Bytes.ofNumber 1 h.heapSizes.toNat ++
        (Bytes.ofNumber 1 h.padding.toNat ++ (Bytes.ofNumber 8 h.valid.toNat ++
          (Bytes.ofNumber 8 h.sorted.toNat ++ (h.countBytes ++ (h.extraBytes ++ after)))))) := by
      simp only [data, bytes, List.append_assoc]
    exact MetadataLayout.readNumber_of_eq hdata (by simp [length_lead]) h.heapSizes.toNat_lt
  have hvalid : MetadataLayout.readNumber data (before.length + 8) 8 = .ok h.valid.toNat := by
    have hdata : data = before ++ h.lead ++ Bytes.ofNumber 1 h.heapSizes.toNat ++
        Bytes.ofNumber 1 h.padding.toNat ++ (Bytes.ofNumber 8 h.valid.toNat ++
          (Bytes.ofNumber 8 h.sorted.toNat ++ (h.countBytes ++ (h.extraBytes ++ after)))) := by
      simp only [data, bytes, List.append_assoc]
    exact MetadataLayout.readNumber_of_eq hdata (by simp [length_lead]) h.valid.toNat_lt
  have hcounts : MetadataLayout.readRowCounts data h.present
      (before.length + MetadataLayout.tablesHeadSize) [] = .ok (h.sizes.rowCounts,
        (before.length + 24 + 4 * h.present.length : Nat)) := by
    let front := before ++ h.lead ++ Bytes.ofNumber 1 h.heapSizes.toNat ++
      Bytes.ofNumber 1 h.padding.toNat ++ Bytes.ofNumber 8 h.valid.toNat ++
      Bytes.ofNumber 8 h.sorted.toNat
    have hdata : data = front ++ (h.countBytes ++ (h.extraBytes ++ after)) := by
      simp only [data, front, bytes, List.append_assoc]
    have hlength : front.length = before.length + 24 := by simp [front, length_lead]
    have hread := MetadataLayout.readRowCounts_append h.rowCount_lt h.present front
      (h.extraBytes ++ after) []
    rw [hlength] at hread
    rw [hdata]
    exact hread
  have hextra : (h.heapSizes.toNat &&& TableSizes.extraData ≠ 0) =
      (h.heapSizes.toNat.testBit 6 = true) := propext (and_two_pow_ne_zero _ 6)
  unfold MetadataLayout.readTables
  rw [show before ++ (h.bytes ++ after) = data from rfl, hheap, Sequence.ok_bind, hvalid,
    Sequence.ok_bind]
  simp only
  rw [show (List.range 64).filter h.valid.toNat.testBit = h.present from rfl, hcounts,
    Sequence.ok_bind]
  simp only [hextra]
  rw [h.length_bytes]
  simp only [pure, Except.pure, Except.ok.injEq, Prod.mk.injEq]
  refine ⟨rfl, ?_⟩
  split <;> omega

/-! ### The sizes that the head says -/

/-- A table is there if its bit is set. -/
theorem mem_present {table : Nat} : table ∈ h.present ↔ h.valid.toNat.testBit table = true := by
  rw [present, List.mem_filter, List.mem_range]
  refine ⟨And.right, fun hbit => ⟨?_, hbit⟩⟩
  by_contra hlarge
  have hlt : h.valid.toNat < 2 ^ table :=
    Nat.lt_of_lt_of_le h.valid.toNat_lt (Nat.pow_le_pow_right (by decide) (by omega))
  rw [Nat.testBit_lt_two_pow hlt] at hbit
  cases hbit

/-- The reader knows the number of rows of each table. -/
@[simp] theorem rowCount_sizes (table : Nat) : h.sizes.rowCount table = h.rowCount table := by
  have hmem : ∀ {entry : Nat × Nat}, entry ∈ h.sizes.rowCounts ↔
      h.valid.toNat.testBit entry.1 = true ∧ entry.2 = h.rowCount entry.1 := by
    rintro ⟨other, count⟩
    simp only [sizes, List.mem_map, mem_present, Prod.mk.injEq]
    constructor
    · rintro ⟨_, hbit, rfl, rfl⟩
      exact ⟨hbit, rfl⟩
    · rintro ⟨hbit, rfl⟩
      exact ⟨other, hbit, rfl, rfl⟩
  rw [TableSizes.rowCount]
  cases hfind : h.sizes.rowCounts.find? fun entry => entry.1 = table with
  | some entry =>
    obtain ⟨-, hcount⟩ := hmem.mp (List.mem_of_find?_eq_some hfind)
    have htable : entry.1 = table := by simpa using List.find?_some hfind
    rw [← htable]
    exact hcount
  | none =>
    rw [rowCount, if_neg]
    intro hbit
    have hnone := List.find?_eq_none.mp hfind (table, h.rowCount table) (hmem.mpr ⟨hbit, rfl⟩)
    simp at hnone

/-- It knows how wide the heaps are. -/
@[simp] theorem heapWidth_sizes (bit : Nat) : h.sizes.heapWidth (2 ^ bit) = h.heapIndex bit := by
  rw [TableSizes.heapWidth, heapIndex]
  simp only [and_two_pow_ne_zero, sizes]

@[simp] theorem rowWidth_sizes (table : Nat) : h.sizes.rowWidth table = h.rowIndex table := by
  rw [TableSizes.rowWidth, rowCount_sizes]
  rfl

/-- Numbers are below a limit when their greatest is. -/
theorem foldl_max_lt {f : Nat → Nat} {tables : List Nat} {most limit : Nat} :
    tables.foldl (fun most table => max most (f table)) most < limit ↔
      most < limit ∧ ∀ table ∈ tables, f table < limit := by
  induction tables generalizing most with
  | nil => simp
  | cons table tables ih =>
    rw [List.foldl_cons, ih, List.forall_mem_cons, Nat.max_lt, and_assoc]

/-- It gives an index into one of several tables the width that the largest of them needs. -/
@[simp] theorem codedWidth_sizes (tagBits : Nat) (tables : List Nat) :
    h.sizes.codedWidth (.ofTables tagBits tables) = h.codedIndex tagBits tables := by
  have hpos : 0 < 2 ^ (16 - tagBits) := Nat.two_pow_pos _
  have htables : (IndexCode.ofTables tagBits tables).tables.filterMap id = tables := by
    rw [IndexCode.ofTables, List.filterMap_map]
    exact List.filterMap_some
  rw [TableSizes.codedWidth, htables]
  simp only [TableSizes.indexWidth, rowCount_sizes, codedIndex]
  rw [show (2 ^ (16 - (IndexCode.ofTables tagBits tables).tagBits) + h.sizes.beyond) =
    2 ^ (16 - tagBits) from rfl]
  simp only [foldl_max_lt, hpos, true_and]

/-- The columns of a table up to the methods are as wide as the head says. -/
theorem columnWidth_sizes {table : Nat} (ht : table ≤ 6) :
    (Schema.columns table).map (fun column => h.sizes.columnWidth column.2) = h.widths table := by
  have hnames : h.sizes.heapWidth TableSizes.wideNames = h.heapIndex 0 := h.heapWidth_sizes 0
  have hguids : h.sizes.heapWidth TableSizes.wideGuids = h.heapIndex 1 := h.heapWidth_sizes 1
  have hblobs : h.sizes.heapWidth TableSizes.wideBlobs = h.heapIndex 2 := h.heapWidth_sizes 2
  interval_cases table <;>
    simp only [Schema.columns, List.map_cons, List.map_nil, TableSizes.columnWidth, hnames, hguids,
      hblobs, rowWidth_sizes, IndexCode.resolutionScope, IndexCode.typeDefOrRef, codedWidth_sizes,
      widths]

/-- A row of a table up to the methods takes the bytes of its columns. -/
theorem rowSize_sizes {table : Nat} (ht : table ≤ 6) :
    h.sizes.rowSize table = (h.widths table).sum := by
  rw [TableSizes.rowSize, h.columnWidth_sizes ht]

/-- The tables in front of the methods take the bytes of their rows. -/
theorem bytesBefore_sizes : h.sizes.bytesBefore 6 =
    ((List.range 6).map fun table => h.rowCount table * (h.widths table).sum).sum := by
  have htable : ∀ table ∈ List.range 6, h.sizes.rowCount table * h.sizes.rowSize table =
      h.rowCount table * (h.widths table).sum := fun table ht => by
    rw [rowCount_sizes, h.rowSize_sizes (Nat.le_of_lt (List.mem_range.mp ht))]
  rw [TableSizes.bytesBefore, List.map_congr_left htable]

end TablesHead

/-! ### The cells of the methods -/

namespace MetadataLayout

/-- The directories of a file lead to the header of the runtime and from there to an offset. -/
structure Locates (data : Bytes) (offsetOf : Int → Option Int) (directories : List Int)
    (header root : Int) : Prop where
  /-- The directory of the runtime has an RVA that leads to the header. -/
  directory : ∃ rva, directories[runtimeDirectory]? = some rva ∧ rva ≠ 0 ∧
    offsetOf rva = some header
  /-- The header is inside the file. -/
  inside : 0 ≤ header ∧ header + runtimeHeaderSize ≤ data.length
  /-- The RVA of the metadata in it leads to the offset. -/
  metadata : offsetOf (Bytes.field data (header.toNat + 8) 4) = some root

/-- The directories of a file lead to the header of the runtime and from there to a metadata root
all of whose streams can be read. -/
structure Reaches (data : Bytes) (offsetOf : Int → Option Int) (directories : List Int)
    (header root : Int) (streams : List MetadataStream) : Prop
    extends Locates data offsetOf directories header root where
  /-- The streams that the root lists are these. -/
  read : readRoot alignedNext data root = .ok (streams, none)

variable {data : Bytes} {offsetOf : Int → Option Int} {directories : List Int}
  {header root : Int} {streams : List MetadataStream} {stream : MetadataStream}

/-- The layout is that of the root there. -/
theorem Locates.ofDirectories_eq (locates : Locates data offsetOf directories header root) :
    ofDirectories data offsetOf directories = ofRoot data header root := by
  obtain ⟨⟨rva, hdirectory, hrva, hheader⟩, ⟨hpos, hinside⟩, hroot⟩ := locates
  unfold ofDirectories
  rw [hdirectory]
  simp only
  rw [if_neg hrva, locate, hheader]
  simp only
  rw [if_neg (by omega), if_neg (by omega), hroot]

/-- Where all streams of a root can be read, the layout is that of the tables stream. -/
theorem ofRoot_eq (hread : readRoot alignedNext data root = .ok (streams, none))
    (hstream : tablesStream streams = .ok stream) :
    ofRoot data header root = do
      let (sizes, tables) ← readTables data (root + stream.start)
      return ⟨header, root, streams, sizes, tables⟩ := by
  rw [ofRoot, hread, Sequence.ok_bind]
  simp only [hstream, Sequence.ok_bind]

/-- The layout is that of the tables stream that the root lists. -/
theorem Reaches.ofDirectories_eq (reaches : Reaches data offsetOf directories header root streams)
    (hstream : tablesStream streams = .ok stream) {sizes : TableSizes} {tables : Int}
    (htables : readTables data (root + stream.start) = .ok (sizes, tables)) :
    ofDirectories data offsetOf directories = .ok ⟨header, root, streams, sizes, tables⟩ := by
  rw [reaches.toLocates.ofDirectories_eq, ofRoot_eq reaches.read hstream, htables]
  rfl

/-- The RVA of a method is where the tables stream has it, whatever the sizes of the heaps and of
the tables are, and the cells of different methods do not overlap. There are no other cells. -/
theorem rvaCell_of_stream {s : TablesStream} {start : Nat}
    (reaches : Reaches data offsetOf directories header root streams)
    (hstream : tablesStream streams = .ok stream) (hstart : root + stream.start = start)
    (hslice : Bytes.slice data start s.bytes.length = s.bytes) :
    ∃ layout, ofDirectories data offsetOf directories = .ok layout ∧
      (∀ position < s.head.rowCount 6, ∃ rva others,
        (s.rows 6)[position]? = some (rva :: others) ∧
        layout.rvaCell position = .ok ((start + s.rvaPlace position : Nat) : Int) ∧
        start + s.rvaPlace position + 4 ≤ data.length ∧
        Bytes.field data (start + s.rvaPlace position) 4 = rva) ∧
      (∀ position < s.head.rowCount 6, ∀ other < s.head.rowCount 6, position ≠ other →
        Bytes.Apart (start + s.rvaPlace position) 4 (start + s.rvaPlace other) 4) ∧
      ∀ position : Int, position < 0 ∨ (s.head.rowCount 6 : Int) ≤ position →
        layout.rvaCell position =
          .error (.invalidArguments (some "MethodDef position") (some (toString position))) := by
  have hinside := Bytes.le_length_of_slice hslice s.bytes_ne_nil
  obtain ⟨before, after, rfl, rfl⟩ := Bytes.exists_append_of_slice hslice hinside
  have hread : readTables (before ++ (s.bytes ++ after)) (root + stream.start) =
      .ok (s.head.sizes, (before.length + s.head.bytes.length : Nat)) := by
    have hread := s.head.readTables_append before (((List.range 6).flatMap fun table =>
      s.encodeRows table (s.rows table)) ++ s.encodeRows 6 (s.rows 6) ++ s.rest ++ after)
    simpa only [hstart, TablesStream.bytes, TablesStream.front, List.append_assoc] using hread
  refine ⟨_, reaches.ofDirectories_eq hstream hread, fun position hp => ?_,
    fun position hp other ho hne => ?_, fun position hp => ?_⟩
  · obtain ⟨rva, others, hrow, hlt, front, behind, hbytes, hplace⟩ := TablesStream.exists_rva hp
    have hdata : before ++ (s.bytes ++ after) =
        before ++ front ++ (Bytes.ofNumber 4 rva ++ (behind ++ after)) := by
      rw [hbytes]
      simp only [List.append_assoc]
    have hlength : (before ++ front).length = before.length + s.rvaPlace position := by
      rw [List.length_append, hplace]
    refine ⟨rva, others, hrow, ?_, ?_, ?_⟩
    · have hcount : s.head.sizes.rowCount lastTable = s.head.rowCount 6 := s.head.rowCount_sizes 6
      have hbefore : s.head.sizes.bytesBefore lastTable = _ := s.head.bytesBefore_sizes
      have hsize : s.head.sizes.rowSize lastTable = _ := s.head.rowSize_sizes (Nat.le_refl 6)
      unfold rvaCell
      rw [if_neg (by rw [hcount]; omega), hbefore, hsize,
        TablesStream.rvaPlace_eq (Nat.le_of_lt hp)]
      simp only [Int.natCast_add, Int.natCast_mul, Int.add_assoc]
      rfl
    · rw [hdata, List.length_append, hlength, List.length_append, Bytes.length_ofNumber]
      omega
    · rw [hdata]
      exact Bytes.field_ofNumber _ _ hlength hlt
  · rcases TablesStream.rvaPlace_apart hp ho hne with h | h
    · exact Or.inl (by omega)
    · exact Or.inr (by omega)
  · unfold rvaCell
    rw [if_pos (by rw [TablesHead.rowCount_sizes]; exact hp)]

end MetadataLayout

/-! ### A small file -/

namespace WideTables

/-- A head that says that all heaps are wide, that extra data follow, and that there are a module, a
type with two methods, and more parameters than two bytes count. -/
def head : TablesHead where
  reserved := 0
  majorVersion := 2
  minorVersion := 0
  heapSizes := 0x47
  padding := 1
  valid := 0x145
  sorted := 0
  counts table := if table = 0x06 then 2 else if table = 0x08 then 0x10000 else 1
  extra := 0xFFFFFFFF

/-- The rows of the module, the type and the methods. -/
def rows : Nat → List (List Nat)
  | 0x00 => [[0, 1, 1, 0, 0]]
  | 0x02 => [[0, 10, 0, 0, 1, 1]]
  | 0x06 => [[0x2050, 0, 6, 20, 1, 1], [0x2060, 0, 6, 30, 1, 0x10000]]
  | _ => []

/-- The stream. -/
def stream : TablesStream where
  head := head
  rows := rows
  rest := []
  length_rows := by decide +kernel
  fits := by decide +kernel

/-- A file of the header of the runtime, the metadata root and the stream. -/
def file : Bytes :=
  -- the header, with the RVA of the root
  Bytes.zeros 8 ++ [0x48, 0x20, 0, 0] ++ Bytes.zeros 60 ++
  -- the root, with the place of the stream
  [0x42, 0x53, 0x4A, 0x42] ++ Bytes.zeros 8 ++ [4, 0, 0, 0] ++ Bytes.zeros 4 ++ [0, 0, 1, 0] ++
  [36, 0, 0, 0, 0x78, 0, 0, 0, 0x23, 0x7E, 0, 0] ++ stream.bytes

/-- The file is loaded at RVA `0x2000`. -/
def loaded? (rva : Int) : Option Int := some (rva - 0x2000)

/-- The directories: that of the runtime, and none in front of it. -/
def directories : List Int := List.replicate 14 0 ++ [0x2000]

/-- The directories lead to the root of the file, which lists one stream. -/
theorem reaches : MetadataLayout.Reaches file loaded? directories 0 72 [⟨"#~", 36, 0x78⟩] where
  directory := ⟨0x2000, rfl, by decide, rfl⟩
  inside := by decide +kernel
  metadata := by decide +kernel
  read := Sequence.toOption_eq_some.mp (by decide +kernel)

end WideTables

namespace MetadataLayout

open WideTables

/-- The RVAs of the two methods of the file are found, and no third one. -/
theorem rvaCell_of_wide_stream :
    ∃ layout, ofDirectories file loaded? directories = .ok layout ∧
      layout.rvaCell 0 = .ok 188 ∧ Bytes.field file 188 4 = 0x2050 ∧
      layout.rvaCell 1 = .ok 208 ∧ Bytes.field file 208 4 = 0x2060 ∧
      layout.rvaCell 2 = .error (.invalidArguments (some "MethodDef position") (some "2")) := by
  have hstream : tablesStream [⟨"#~", 36, 0x78⟩] = .ok ⟨"#~", 36, 0x78⟩ :=
    Sequence.toOption_eq_some.mp (by decide +kernel)
  have hslice : Bytes.slice file 108 WideTables.stream.bytes.length = WideTables.stream.bytes := by
    decide +kernel
  obtain ⟨layout, hlayout, hcells, -, hother⟩ := rvaCell_of_stream reaches hstream rfl hslice
  obtain ⟨_, _, hfirst, hcell, -, hrva⟩ := hcells 0 (by decide +kernel)
  obtain ⟨_, _, hsecond, hcell', -, hrva'⟩ := hcells 1 (by decide +kernel)
  cases hfirst
  cases hsecond
  have hplaces : WideTables.stream.rvaPlace 0 = 80 ∧ WideTables.stream.rvaPlace 1 = 100 := by
    decide +kernel
  rw [hplaces.1] at hcell hrva
  rw [hplaces.2] at hcell' hrva'
  exact ⟨layout, hlayout, hcell, hrva, hcell', hrva', hother 2 (by decide +kernel)⟩

end MetadataLayout

end CilRestore
