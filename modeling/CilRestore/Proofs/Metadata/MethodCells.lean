import CilRestore.Proofs.Image.Patching
import CilRestore.Proofs.Metadata.TablesStream

/-!
# The cells of the methods and their stream

The cell of the RVA of a method is found by adding up what the head of the tables stream says of the
tables. So it always lies behind that head; but nothing compares the numbers of rows with the size
of the stream, and a stream that states more rows than it holds has cells behind its end
(`MetadataLayout.rvaCell_leaves_stream`). `MetadataLayout.rvaCell_within` says exactly which cells
lie inside the stream. Where the stream has room for its rows all of them do, and pointing methods
elsewhere then changes no byte outside of it.
-/

namespace CilRestore

namespace TableSizes

/-- The bytes of the head of a tables stream: those in front of the numbers of rows, the numbers,
and the extra data if a flag announces them. -/
def headSize (t : TableSizes) : Nat :=
  MetadataLayout.tablesHeadSize + 4 * t.rowCounts.length +
    if t.heapFlags.testBit 6 then 4 else 0

/-- The bytes of a tables stream in front of the row of a method. -/
def bytesToRow (t : TableSizes) (position : Nat) : Nat :=
  t.headSize + t.bytesBefore 6 + position * t.rowSize 6

/-- The bytes of a tables stream up to the last method. -/
def bytesOfRows (t : TableSizes) : Nat := t.bytesToRow (t.rowCount 6)

/-- A row of a method begins with the four bytes of its RVA. -/
theorem four_le_rowSize (t : TableSizes) : 4 ≤ t.rowSize 6 := by
  simp only [rowSize, Schema.columns, List.map_cons, columnWidth, List.sum_cons]
  omega

/-- The RVA of a method ends in front of what follows the methods. -/
theorem bytesToRow_add_le {t : TableSizes} {position : Nat} (h : position < t.rowCount 6) :
    t.bytesToRow position + 4 ≤ t.bytesOfRows := by
  have hmul := Nat.mul_le_mul_right (t.rowSize 6) (Nat.succ_le_of_lt h)
  have hfour := t.four_le_rowSize
  rw [Nat.succ_mul] at hmul
  unfold bytesOfRows bytesToRow
  omega

end TableSizes

namespace MetadataLayout

variable {data file : Bytes} {offsetOf : Int → Option Int} {directories : List Int}
  {m : MetadataLayout} {s : MetadataStream}

/-! ### Where the cells are -/

/-- Numbers of rows that were read stand one behind the other, four bytes each. -/
theorem stop_of_readRowCounts {tables : List Nat} {offset stop : Int}
    {done counts : List (Nat × Nat)}
    (h : readRowCounts data tables offset done = .ok (counts, stop)) :
    counts.length = done.length + tables.length ∧ stop = offset + 4 * tables.length := by
  induction tables generalizing offset done with
  | nil =>
    simp only [readRowCounts, Except.ok.injEq, Prod.mk.injEq] at h
    obtain ⟨rfl, rfl⟩ := h
    simp
  | cons table tables ih =>
    rw [readRowCounts] at h
    split at h
    · cases h
    · obtain ⟨hlength, hstop⟩ := ih h
      rw [List.length_cons] at hlength ⊢
      exact ⟨by omega, by omega⟩

/-- The first table stands behind the head of the stream. -/
theorem tables_of_readTables {offset tables : Int} {sizes : TableSizes}
    (h : readTables data offset = .ok (sizes, tables)) : tables = offset + sizes.headSize := by
  obtain ⟨heapFlags, -, h⟩ := Sequence.bind_eq_ok.mp h
  obtain ⟨valid, -, h⟩ := Sequence.bind_eq_ok.mp h
  obtain ⟨⟨rowCounts, stop⟩, hcounts, h⟩ := Sequence.bind_eq_ok.mp h
  obtain ⟨hlength, hstop⟩ := stop_of_readRowCounts hcounts
  have hextra : (heapFlags &&& TableSizes.extraData ≠ 0) = (heapFlags.testBit 6 = true) :=
    propext (TablesHead.and_two_pow_ne_zero _ 6)
  simp only [hextra, pure, Except.pure, Except.ok.injEq, Prod.mk.injEq] at h
  obtain ⟨rfl, rfl⟩ := h
  rw [List.length_nil, Nat.zero_add] at hlength
  simp only [TableSizes.headSize, hlength, hstop]
  split <;> omega

/-- A layout is that of a metadata root. -/
theorem exists_ofRoot (h : ofDirectories data offsetOf directories = .ok m) :
    ∃ header root, ofRoot data header root = .ok m := by
  unfold ofDirectories at h
  split at h
  · cases h
  split at h
  · cases h
  rename_i rva _ _
  unfold locate at h
  cases hheader : offsetOf rva with
  | none =>
    simp only [hheader] at h
    cases h
  | some header =>
    simp only [hheader] at h
    by_cases hout : (data.length : Int) < header + runtimeHeaderSize
    · rw [if_pos hout] at h
      cases h
    by_cases hlow : header < 0
    · rw [if_neg hout, if_pos hlow] at h
      cases h
    rw [if_neg hout, if_neg hlow] at h
    cases hroot : offsetOf (Bytes.field data (header.toNat + 8) 4) with
    | none =>
      simp only [hroot] at h
      cases h
    | some root =>
      simp only [hroot] at h
      exact ⟨header, root, h⟩

/-- It has the sizes and the first table of a tables stream that the root lists. -/
theorem exists_readTables (h : ofDirectories data offsetOf directories = .ok m) :
    ∃ s, tablesStream m.streams = .ok s ∧
      readTables data (m.offsetOf s) = .ok (m.sizes, m.tables) := by
  obtain ⟨header, root, h⟩ := exists_ofRoot h
  obtain ⟨⟨streams, fault⟩, -, h⟩ := Sequence.bind_eq_ok.mp h
  cases fault with
  | some e => cases h
  | none =>
    obtain ⟨s, hstream, h⟩ := Sequence.bind_eq_ok.mp h
    obtain ⟨⟨sizes, tables⟩, htables, h⟩ := Sequence.bind_eq_ok.mp h
    cases h
    exact ⟨s, hstream, htables⟩

/-- The cell of a method that the tables have, counted from the start of the stream. -/
theorem cell_of_rvaCell {position cell : Int} (htables : m.tables = m.offsetOf s + m.sizes.headSize)
    (h : m.rvaCell position = .ok cell) :
    ∃ row < m.sizes.rowCount 6, position = (row : Nat) ∧
      cell = m.offsetOf s + m.sizes.bytesToRow row := by
  unfold rvaCell at h
  split at h
  · cases h
  · rename_i hposition
    rw [lastTable] at hposition h
    obtain ⟨row, rfl⟩ := Int.eq_ofNat_of_zero_le (by omega : 0 ≤ position)
    cases h
    refine ⟨row, by omega, rfl, ?_⟩
    rw [htables, TableSizes.bytesToRow]
    simp only [Int.natCast_add, Int.natCast_mul]
    omega

/-! ### Writing them -/

/-- A tables stream is inside a file and has room for all rows up to the last method. -/
structure HasRoom (m : MetadataLayout) (s : MetadataStream) (data : Bytes) : Prop where
  /-- The rows that its head states fit into its size. -/
  room : m.sizes.bytesOfRows ≤ s.size
  /-- It starts inside the file. -/
  start : 0 ≤ m.offsetOf s
  /-- It ends inside the file. -/
  inside : m.offsetOf s + s.size ≤ data.length

/-- A change of a file that keeps its length and all bytes outside of a stream. -/
def ChangesOnly (m : MetadataLayout) (s : MetadataStream) (file new : Bytes) : Prop :=
  new.length = file.length ∧
    ∀ i : Nat, (i : Int) < m.offsetOf s ∨ m.offsetOf s + s.size ≤ i → new[i]? = file[i]?

/-- All cells are inside the stream, and so inside the file. -/
theorem HasRoom.cell_within (room : m.HasRoom s data)
    (htables : m.tables = m.offsetOf s + m.sizes.headSize) {position cell : Int}
    (h : m.rvaCell position = .ok cell) :
    m.offsetOf s ≤ cell ∧ cell + 4 ≤ m.offsetOf s + s.size ∧ 0 ≤ cell ∧
      cell + 4 ≤ data.length := by
  obtain ⟨row, hrow, -, rfl⟩ := cell_of_rvaCell htables h
  have hend := TableSizes.bytesToRow_add_le hrow
  obtain ⟨hroom, hstart, hinside⟩ := room
  exact ⟨by omega, by omega, by omega, by omega⟩

/-- Pointing methods elsewhere, also in a file that has grown, writes into the stream only. -/
theorem HasRoom.changesOnly_repoint (room : m.HasRoom s data)
    (htables : m.tables = m.offsetOf s + m.sizes.headSize) {base : Nat}
    {places : List (BodyPatch × Nat)} {new : Bytes} (hlength : data.length ≤ file.length)
    (h : BodyPatch.repoint m.rvaCell base places file = .ok new) : m.ChangesOnly s file new := by
  obtain ⟨hsame, hframe⟩ := BodyPatch.repoint_frame h fun entry _ cell hcell => by
    obtain ⟨-, -, hlow, hhigh⟩ := room.cell_within htables hcell
    exact ⟨hlow, by omega⟩
  refine ⟨hsame, fun i hi => (hframe i 1 fun entry _ cell hcell => ?_).byte_eq⟩
  obtain ⟨hlow, hhigh, -, -⟩ := room.cell_within htables hcell
  exact hi.elim (fun hi => Or.inr (by omega)) fun hi => Or.inl (by omega)

/-- The cell of a method is where the head of the tables stream puts its row, always behind that
head, and lies inside the stream exactly when the stream has room up to there. Where it has room for
all its rows and is inside the file, all cells are inside both, and pointing methods elsewhere
neither makes a file longer nor changes bytes outside of the stream. -/
theorem rvaCell_within (h : ofDirectories data offsetOf directories = .ok m) :
    ∃ s, tablesStream m.streams = .ok s ∧
      (∀ position cell, m.rvaCell position = .ok cell →
        cell = m.offsetOf s + m.sizes.bytesToRow position.toNat ∧
        m.offsetOf s + m.sizes.headSize ≤ cell ∧
        (cell + 4 ≤ m.offsetOf s + s.size ↔ m.sizes.bytesToRow position.toNat + 4 ≤ s.size)) ∧
      (m.HasRoom s data →
        (∀ position cell, m.rvaCell position = .ok cell → m.offsetOf s ≤ cell ∧
          cell + 4 ≤ m.offsetOf s + s.size ∧ 0 ≤ cell ∧ cell + 4 ≤ data.length) ∧
        ∀ base places file new, data.length ≤ file.length →
          BodyPatch.repoint m.rvaCell base places file = .ok new → m.ChangesOnly s file new) := by
  obtain ⟨s, hstream, hread⟩ := exists_readTables h
  have htables := tables_of_readTables hread
  refine ⟨s, hstream, fun position cell hcell => ?_, fun room =>
    ⟨fun position cell hcell => room.cell_within htables hcell,
      fun base places file new hlength hrun => room.changesOnly_repoint htables hlength hrun⟩⟩
  obtain ⟨row, -, rfl, rfl⟩ := cell_of_rvaCell htables hcell
  have hhead : m.sizes.headSize ≤ m.sizes.bytesToRow row := by
    unfold TableSizes.bytesToRow
    omega
  rw [Int.toNat_natCast]
  exact ⟨rfl, by omega, by omega⟩

end MetadataLayout

/-! ### A stream with room and one without -/

namespace WideTables

/-- The layout of the file. -/
def layout : MetadataLayout where
  runtimeHeader := 0
  root := 72
  streams := [⟨"#~", 36, 0x78⟩]
  sizes := { heapFlags := 0x47, rowCounts := [(0x00, 1), (0x02, 1), (0x06, 2), (0x08, 0x10000)] }
  tables := 152

end WideTables

namespace ShortTables

/-- A file like the one with wide tables, but its stream of 28 bytes ends behind the head, which
says that there is a method. -/
def file : Bytes :=
  -- the header, with the RVA of the root
  Bytes.zeros 8 ++ [0x48, 0x20, 0, 0] ++ Bytes.zeros 60 ++
  -- the root, with the place of the stream
  [0x42, 0x53, 0x4A, 0x42] ++ Bytes.zeros 8 ++ [4, 0, 0, 0] ++ Bytes.zeros 4 ++ [0, 0, 1, 0] ++
  [36, 0, 0, 0, 28, 0, 0, 0, 0x23, 0x7E, 0, 0] ++
  -- the head: versions and heaps, the table of the methods, and one row of it
  [0, 0, 0, 0, 2, 0, 0, 1, 0x40, 0, 0, 0, 0, 0, 0, 0] ++ Bytes.zeros 8 ++ [1, 0, 0, 0]

/-- The layout of the file. -/
def layout : MetadataLayout where
  runtimeHeader := 0
  root := 72
  streams := [⟨"#~", 36, 28⟩]
  sizes := { heapFlags := 0, rowCounts := [(0x06, 1)] }
  tables := 136

end ShortTables

namespace MetadataLayout

open WideTables

/-- The stream of the file with wide tables has room: the cell of the second method is inside of it,
and a body that moves changes nothing else. -/
theorem rvaCell_within_of_wide_stream :
    ofDirectories WideTables.file loaded? directories = .ok WideTables.layout ∧
      WideTables.layout.HasRoom ⟨"#~", 36, 0x78⟩ WideTables.file ∧
      WideTables.layout.rvaCell 1 = .ok 208 ∧
      WideTables.layout.offsetOf ⟨"#~", 36, 0x78⟩ ≤ 208 ∧
      208 + 4 ≤ WideTables.layout.offsetOf ⟨"#~", 36, 0x78⟩ + (0x78 : Nat) ∧
      ∃ new, BodyPatch.repoint WideTables.layout.rvaCell 0x3000
          [(⟨2, 0x2060, 1, [0x0A, 0x00, 0x2A]⟩, 8)] WideTables.file = .ok new ∧
        WideTables.layout.ChangesOnly ⟨"#~", 36, 0x78⟩ WideTables.file new := by
  have hlayout : ofDirectories WideTables.file loaded? directories = .ok WideTables.layout :=
    Sequence.toOption_eq_some.mp (by decide +kernel)
  have hcell : WideTables.layout.rvaCell 1 = .ok 208 :=
    Sequence.toOption_eq_some.mp (by decide +kernel)
  have room : WideTables.layout.HasRoom ⟨"#~", 36, 0x78⟩ WideTables.file := by
    constructor <;> decide +kernel
  have hnew : ∃ new, BodyPatch.repoint WideTables.layout.rvaCell 0x3000
      [(⟨2, 0x2060, 1, [0x0A, 0x00, 0x2A]⟩, 8)] WideTables.file = .ok new :=
    ⟨_, Sequence.toOption_eq_some.mp (Option.eq_some_of_isSome (by decide +kernel))⟩
  obtain ⟨s, hstream, -, hroom⟩ := rvaCell_within hlayout
  cases hstream
  obtain ⟨hcells, hwritten⟩ := hroom room
  obtain ⟨hlow, hhigh, -, -⟩ := hcells 1 208 hcell
  obtain ⟨new, hnew⟩ := hnew
  exact ⟨hlayout, room, hcell, hlow, hhigh, new, hnew, hwritten _ _ _ _ (Nat.le_refl _) hnew⟩

/-- The cell of the only method of the short stream lies behind the stream, and behind the file, so
an address that is written there makes the file longer. -/
theorem rvaCell_leaves_stream :
    ofDirectories ShortTables.file loaded? directories = .ok ShortTables.layout ∧
      tablesStream ShortTables.layout.streams = .ok ⟨"#~", 36, 28⟩ ∧
      ShortTables.layout.rvaCell 0 = .ok 136 ∧
      ¬ 136 + 4 ≤ ShortTables.layout.offsetOf ⟨"#~", 36, 28⟩ + 28 ∧
      ¬ 136 + 4 ≤ ShortTables.file.length ∧
      (Bytes.replaceBetween ShortTables.file 136 (136 + 4) (Bytes.ofNumber 4 0x3000)).length =
        ShortTables.file.length + 4 := by
  refine ⟨Sequence.toOption_eq_some.mp (by decide +kernel),
    Sequence.toOption_eq_some.mp (by decide +kernel),
    Sequence.toOption_eq_some.mp (by decide +kernel), ?_, ?_, ?_⟩ <;> decide +kernel

end MetadataLayout

end CilRestore
