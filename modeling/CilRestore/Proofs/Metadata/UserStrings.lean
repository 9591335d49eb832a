import CilRestore.Proofs.Code.Immediates
import CilRestore.Proofs.Metadata.CompressedNumbers
import CilRestore.Proofs.Metadata.TablesStream
import CilRestore.Proofs.Text.Utf16
import CilRestore.Module.Basic

/-!
# The heap of user strings

The heap as ECMA-335 lays it out: a zero byte, and then the entries, each its length in bytes, the
code units of its text and a byte of flags. The units of an entry may be any; they are a text when
surrogates stand in pairs. Such an entry is read as its text, and code that loads it decodes; an
entry with a surrogate on its own is refused (`MetadataLayout.userString?_of_heap`).
-/

namespace CilRestore

-- Powers and sums of numbers are those of the core library, whatever else is imported.
attribute [local instance (high)] instPowNat Zero.ofOfNat0

/-! ### The heap -/

/-- An entry of the heap. -/
structure HeapString where
  /-- The code units. -/
  units : List UInt16
  /-- The byte behind them, which says whether some of them need more care. -/
  flags : UInt8

namespace HeapString

/-- The code units as numbers. -/
def codeUnits (e : HeapString) : List Nat := e.units.map UInt16.toNat

/-- The bytes of the code units. -/
def body (e : HeapString) : Bytes := e.codeUnits.flatMap (Bytes.ofNumber 2)

/-- The length that an entry states: its units and the flags, in bytes. -/
def stated (e : HeapString) : Nat := 2 * e.units.length + 1

/-- The bytes of an entry. -/
def bytes (e : HeapString) : Bytes := Compressed.encode e.stated ++ (e.body ++ [e.flags])

/-- The bytes of a heap. -/
def heap (entries : List HeapString) : Bytes := 0 :: entries.flatMap bytes

/-- The index of an entry: where it stands in the heap. -/
def indexOf (entries : List HeapString) (place : Nat) : Nat := (heap (entries.take place)).length

/-- The length of an entry can be stated. -/
def IsShort (e : HeapString) : Prop := e.units.length < 2 ^ (28 : Nat) - 1

instance (e : HeapString) : Decidable e.IsShort := inferInstanceAs (Decidable (_ < _))

variable {e : HeapString}

/-- Units have two bytes. -/
theorem codeUnits_lt (e : HeapString) : ∀ u ∈ e.codeUnits, u < 0x10000 := by
  intro u hu
  obtain ⟨w, -, rfl⟩ := List.mem_map.mp hu
  exact w.toNat_lt

theorem length_body (e : HeapString) : e.body.length = 2 * e.units.length := by
  have htwo : ∀ u ∈ e.codeUnits, (Bytes.ofNumber 2 u).length = 2 := fun u _ =>
    Bytes.length_ofNumber 2 u
  rw [body, List.length_flatMap, List.map_congr_left htwo, List.map_const', List.sum_replicate_nat,
    codeUnits, List.length_map, Nat.mul_comm]

/-- A heap around one of its entries. -/
theorem heap_eq {entries : List HeapString} {place : Nat} (h : entries[place]? = some e) :
    heap entries = heap (entries.take place) ++
      (e.bytes ++ (entries.drop (place + 1)).flatMap bytes) := by
  obtain ⟨hlt, rfl⟩ := List.getElem?_eq_some_iff.mp h
  have hsplit : entries = entries.take place ++ entries[place] :: entries.drop (place + 1) := by
    rw [List.cons_getElem_drop_succ, List.take_append_drop]
  rw [heap, heap, List.cons_append, ← List.flatMap_cons, ← List.flatMap_append, ← hsplit]

/-- No entry has the index 0, where the empty one stands that every heap begins with. -/
theorem indexOf_pos (entries : List HeapString) (place : Nat) : 0 < indexOf entries place := by
  simp [indexOf, heap]

/-- An entry ends inside the heap. -/
theorem indexOf_add_le {entries : List HeapString} {place : Nat} (h : entries[place]? = some e) :
    indexOf entries place + e.bytes.length ≤ (heap entries).length := by
  rw [heap_eq h, List.length_append, List.length_append, indexOf]
  omega

/-- The opcode that loads a user string. -/
def load : Opcode := ⟨0x72, "ldstr", .text, some 0, some 1, .next⟩

theorem load_mem : load ∈ Opcode.all := by decide +kernel

/-- The instruction that loads the user string at an index. -/
def loadChunk (index : Nat) : Chunk :=
  ⟨load, Bytes.ofNumber 4 (userStringTable * 2 ^ (24 : Nat) + index)⟩

theorem isComplete_loadChunk (index : Nat) : (loadChunk index).IsComplete := ⟨load_mem, rfl⟩

variable {index : Nat}

/-- Loading a text names the heap and the index. -/
theorem number_loadChunk (h : index < 2 ^ (24 : Nat)) :
    Bytes.number (loadChunk index).operand = userStringTable * 2 ^ (24 : Nat) + index := by
  rw [loadChunk, Bytes.number_ofNumber, Nat.mod_eq_of_lt]
  unfold userStringTable
  omega

/-- The token of the user string at an index. -/
theorem ofValue_eq (h : index < 2 ^ (24 : Nat)) :
    Token.ofValue (userStringTable * 2 ^ (24 : Nat) + index : Nat) =
      ⟨userStringTable, index, h⟩ := by
  unfold Token.ofValue userStringTable
  congr 1 <;> omega

/-- Code that loads a user string decodes to it. -/
theorem decode_loadChunk {scope : Scope} {text : String} (h : index < 2 ^ (24 : Nat))
    (htext : scope.userString index = some text) (owner : String) :
    decode scope owner (loadChunk index).bytes =
      .ok #[⟨load, .text (userStringTable * 2 ^ (24 : Nat) + index) text, 0, 0⟩] := by
  refine decode_chunk (isComplete_loadChunk index) Bool.false_ne_true Bool.false_ne_true ?_
  have htoken : Decode.token scope owner 0 .text (userStringTable * 2 ^ (24 : Nat) + index) =
      .ok (.text (userStringTable * 2 ^ (24 : Nat) + index : Nat) text) := by
    unfold Decode.token
    rw [ofValue_eq h]
    simp only [htext]
    rfl
  have hread : Decode.operand scope owner 0 (loadChunk index).size (loadChunk index).opcode
      (loadChunk index).operand = .ready <$> Decode.token scope owner 0 .text
        (Bytes.number (loadChunk index).operand) := rfl
  rw [hread, number_loadChunk h, htoken]
  rfl

/-- Code with an instruction that loads a user string decodes only if there is such a string. -/
theorem isSome_of_decode {scope : Scope} {owner : String} {code : Bytes} {chunks : List Chunk}
    {p : Pool} (h : index < 2 ^ (24 : Nat)) (hparses : Parses code chunks)
    (hmem : loadChunk index ∈ chunks) (hdecode : decode scope owner code = .ok p) :
    (scope.userString index).isSome := by
  obtain ⟨others, haccepts⟩ := decode_ok_iff.mp ⟨p, hdecode⟩
  obtain rfl := hparses.unique haccepts.toParses
  have hnames := (haccepts.resolves _ hmem rfl).2
  rwa [number_loadChunk h, ofValue_eq h, if_pos rfl] at hnames

end HeapString

namespace MetadataLayout

/-- A layout lists a heap of user strings, which stands in the file at an offset. The heap may be
followed by bytes that fill it up. -/
structure HoldsHeap (layout : MetadataLayout) (data : Bytes) (entries : List HeapString)
    (heap : MetadataStream) (start : Nat) : Prop where
  /-- The heap is the first stream of its name. -/
  first : MetadataStream.first? layout.streams "#US" = some heap
  /-- It starts at the offset. -/
  offset : layout.offsetOf heap = start
  /-- The entries stand there. -/
  stands : Bytes.slice data start (HeapString.heap entries).length = HeapString.heap entries
  /-- They are inside the heap. -/
  size : (HeapString.heap entries).length ≤ heap.size

section Reading

variable {layout : MetadataLayout} {data : Bytes} {entries : List HeapString}
  {heap : MetadataStream} {start : Nat}

/-- An entry is read as the units it holds. -/
theorem HoldsHeap.userString?_eq (h : layout.HoldsHeap data entries heap start)
    {place : Nat} {e : HeapString} (he : entries[place]? = some e) (hshort : e.IsShort) :
    layout.userString? data (HeapString.indexOf entries place) =
      Text.Utf16.decode? e.body := by
  have hpos := HeapString.indexOf_pos entries place
  have hend := HeapString.indexOf_add_le he
  have hsize := h.size
  have hlength : e.bytes.length = (Compressed.encode e.stated).length + e.stated := by
    simp only [HeapString.bytes, List.length_append, e.length_body, HeapString.stated,
      List.length_singleton]
  obtain ⟨before, after, hdata, hstart⟩ := Bytes.exists_append_of_slice h.stands
    (Bytes.le_length_of_slice h.stands (by simp [HeapString.heap]))
  -- the entry stands behind the heap up to it, and its units stand behind its length
  let front := before ++ HeapString.heap (entries.take place)
  let rest := (entries.drop (place + 1)).flatMap HeapString.bytes ++ after
  have hfront : front.length = start + HeapString.indexOf entries place := by
    rw [List.length_append, hstart, HeapString.indexOf]
  have hentry : data = front ++ (Compressed.encode e.stated ++ (e.body ++ (e.flags :: rest))) := by
    rw [hdata, HeapString.heap_eq he]
    simp only [front, rest, HeapString.bytes, List.append_assoc, List.cons_append,
      List.nil_append]
  have hread : Compressed.readAt data (start + HeapString.indexOf entries place : Nat) = _ :=
    Compressed.readAt_of_eq hentry (by rw [hfront])
      (by unfold HeapString.IsShort at hshort; unfold HeapString.stated; omega)
  have hstated : 0 < e.stated := Nat.succ_pos _
  have hunits : e.stated / 2 * 2 = e.body.length := by
    rw [e.length_body, HeapString.stated]
    omega
  have hbody : Bytes.slice data (front ++ Compressed.encode e.stated).length e.body.length =
      e.body := by
    rw [hentry, ← List.append_assoc front]
    exact Bytes.slice_append _ _ _
  rw [List.length_append] at hbody
  unfold userString?
  rw [h.first]
  simp only
  rw [if_neg (by omega), h.offset, ← Int.natCast_add, hread]
  simp only
  rw [if_neg (by omega), hunits, ← Int.natCast_add, Bytes.between_natCast,
    Nat.add_sub_cancel_left, hbody]

/-- An index that is not inside the heap names nothing. -/
theorem HoldsHeap.userString?_outside (h : layout.HoldsHeap data entries heap start) {index : Int}
    (hindex : index ≤ 0 ∨ heap.size ≤ index) : layout.userString? data index = none := by
  unfold userString?
  rw [h.first]
  simp only
  rw [if_pos hindex]

/-- An entry is read as the text that has its units. -/
theorem HoldsHeap.userString?_eq_some (h : layout.HoldsHeap data entries heap start) {place : Nat}
    {e : HeapString} (he : entries[place]? = some e) (hshort : e.IsShort) {text : String} :
    layout.userString? data (HeapString.indexOf entries place) = some text ↔
      Text.Utf16.units text = e.codeUnits := by
  rw [h.userString?_eq he hshort, HeapString.body]
  exact Text.Utf16.decode?_eq_some e.codeUnits_lt

/-- An entry is read when its surrogates stand in pairs, and refused otherwise. -/
theorem HoldsHeap.isSome_userString? (h : layout.HoldsHeap data entries heap start) {place : Nat}
    {e : HeapString} (he : entries[place]? = some e) (hshort : e.IsShort) :
    (layout.userString? data (HeapString.indexOf entries place)).isSome ↔
      Text.Utf16.IsPaired e.codeUnits := by
  rw [h.userString?_eq he hshort, HeapString.body]
  exact Text.Utf16.isSome_decode? e.codeUnits_lt

/-- The user strings of a file whose heap holds some entries. The index of each entry reads as the
text with exactly its units; there is one just when surrogates stand in pairs. An index that is not
positive or not below the size of the heap reads as nothing. In a module of the file, code that
loads a text decodes to it, and no code decodes that loads an entry without one. -/
theorem userString?_of_heap (h : layout.HoldsHeap data entries heap start)
    (hshort : ∀ e ∈ entries, e.IsShort) :
    (∀ place e, entries[place]? = some e →
      (∀ text, layout.userString? data (HeapString.indexOf entries place) = some text ↔
        Text.Utf16.units text = e.codeUnits) ∧
      ((layout.userString? data (HeapString.indexOf entries place)).isSome ↔
        Text.Utf16.IsPaired e.codeUnits)) ∧
    (∀ index : Int, index ≤ 0 ∨ heap.size ≤ index → layout.userString? data index = none) ∧
    ∀ (m : Module) (leads : Int → Option Int) (tables : MetadataTables),
      m.source = .image layout leads tables → m.image = data →
      ∀ place e, entries[place]? = some e →
      HeapString.indexOf entries place < 2 ^ (24 : Nat) → ∀ rid,
        (∀ text, Text.Utf16.units text = e.codeUnits →
          m.decodeFor rid (HeapString.loadChunk (HeapString.indexOf entries place)).bytes =
            .ok #[⟨HeapString.load, .text (userStringTable * 2 ^ (24 : Nat) +
              HeapString.indexOf entries place) text, 0, 0⟩]) ∧
        (¬ Text.Utf16.IsPaired e.codeUnits → ∀ code chunks, Parses code chunks →
          HeapString.loadChunk (HeapString.indexOf entries place) ∈ chunks →
          ∀ p, m.decodeFor rid code ≠ .ok p) := by
  have hread : ∀ (place : Nat) (e : HeapString), entries[place]? = some e → e.IsShort :=
    fun place e he => hshort e (List.mem_of_getElem? he)
  refine ⟨fun place e he => ⟨fun text => ?_, ?_⟩, fun index => h.userString?_outside, ?_⟩
  · exact h.userString?_eq_some he (hread place e he)
  · exact h.isSome_userString? he (hread place e he)
  · intro m leads tables hsource himage place e he hindex rid
    have hscope : m.scope.userString (HeapString.indexOf entries place) =
        layout.userString? data (HeapString.indexOf entries place) := by
      unfold Module.scope Module.userString?
      simp only [hsource, himage]
    refine ⟨fun text htext => ?_, fun hpaired code chunks hparses hmem p hdecode => ?_⟩
    · have hfound := (h.userString?_eq_some he (hread place e he)).mpr htext
      exact HeapString.decode_loadChunk hindex (hscope.trans hfound) _
    · have hfound := HeapString.isSome_of_decode hindex hparses hmem hdecode
      rw [hscope, h.isSome_userString? he (hread place e he)] at hfound
      exact hpaired hfound

end Reading

/-! A heap of three entries: a pair of surrogates, no unit at all, and a surrogate on its own. -/

namespace ThreeEntries

/-- The entries. -/
def entries : List HeapString := [⟨[0xD83D, 0xDE00], 1⟩, ⟨[], 0⟩, ⟨[0xD800], 1⟩]

/-- The heap, filled up to a multiple of four bytes. -/
def heap : MetadataStream := ⟨"#US", 2, 16⟩

/-- A layout that lists nothing else. -/
def layout : MetadataLayout := ⟨0, 4, [heap], { heapFlags := 0, rowCounts := [] }, 0⟩

/-- The file. -/
def file : Bytes := Bytes.zeros 6 ++ (HeapString.heap entries ++ Bytes.zeros 3)

/-- The module of the file. -/
def module : Module :=
  .ofRows {} file (.image layout some ⟨layout.sizes, [], none, none⟩) none

/-- The file holds the three entries. -/
theorem holdsHeap : layout.HoldsHeap file entries heap 6 :=
  ⟨by decide, by decide, by decide, by decide⟩

theorem isShort : ∀ e ∈ entries, e.IsShort := by decide

end ThreeEntries

open ThreeEntries in
/-- The pair is one character and loading it decodes, the entry without units is the empty text, and
the surrogate is refused. -/
theorem userString?_of_threeEntries :
    layout.userString? file 1 = some (String.singleton (Char.ofNat 0x1F600)) ∧
    layout.userString? file 7 = some "" ∧ layout.userString? file 9 = none ∧
    layout.userString? file 16 = none ∧
    module.decodeFor none (HeapString.loadChunk 1).bytes = .ok #[⟨HeapString.load,
      .text 0x70000001 (String.singleton (Char.ofNat 0x1F600)), 0, 0⟩] ∧
    ∀ p, module.decodeFor none (HeapString.loadChunk 9).bytes ≠ .ok p := by
  obtain ⟨hread, houtside, hload⟩ := userString?_of_heap holdsHeap isShort
  have halone : ¬ Text.Utf16.IsPaired [0xD800] :=
    Text.Utf16.not_isPaired_cons_high (by decide) (by decide)
  refine ⟨?_, ?_, ?_, houtside 16 (by decide), ?_, ?_⟩
  · exact ((hread 0 _ rfl).1 _).mpr (by decide)
  · exact ((hread 1 _ rfl).1 _).mpr (by decide)
  · exact Option.not_isSome_iff_eq_none.mp fun h => halone ((hread 2 _ rfl).2.mp h)
  · exact (hload module _ _ rfl rfl 0 _ rfl (by decide) none).1 _ (by decide)
  · have hparses : Parses (HeapString.loadChunk 9).bytes [HeapString.loadChunk 9] :=
      ⟨by simp [HeapString.isComplete_loadChunk], by simp⟩
    exact (hload module _ _ rfl rfl 2 _ rfl (by decide) none).2 halone _ _ hparses
      (List.mem_singleton.mpr rfl)

open ThreeEntries in
/-- Not every entry of a heap is read. -/
theorem userString?_refuses_entry :
    ¬ ∀ (layout : MetadataLayout) (data : Bytes) (entries : List HeapString)
      (heap : MetadataStream) (start : Nat), layout.HoldsHeap data entries heap start →
      (∀ e ∈ entries, e.IsShort) → ∀ (place : Nat) (e : HeapString), entries[place]? = some e →
      (layout.userString? data (HeapString.indexOf entries place)).isSome := by
  intro h
  have hread := h layout file entries heap 6 holdsHeap isShort 2 ⟨[0xD800], 1⟩ rfl
  have hnone : layout.userString? file (HeapString.indexOf entries 2) = none := by decide
  rw [hnone] at hread
  cases hread

end MetadataLayout

end CilRestore
