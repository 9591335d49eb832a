import CilRestore.Body.Stub
import CilRestore.Proofs.Body.Serialized
import CilRestore.Proofs.Bytes.Edits

/-!
# Reading serialized bodies

A serialized body that stands anywhere in a file is read as what it was made of. A fat header has to
stand at a multiple of four for that, since the sections with the clauses are aligned in the file
and not in the body.
-/

namespace CilRestore

namespace Stub

/-- Encoded fields are read back, whatever follows them. -/
theorem readFields_append {fields : List (Nat × Int)} {bs : Bytes}
    (h : encodeFields fields = .ok bs) (rest : Bytes) :
    readFields (fields.map (·.1)) (bs ++ rest) = fields.map (·.2) := by
  obtain ⟨hfit, rfl⟩ := encodeFields_eq_ok.mp h
  clear h
  induction fields with
  | nil => rfl
  | cons field fields ih =>
    obtain ⟨h0, hlt⟩ := hfit field (by simp)
    have hn : field.2.toNat < 256 ^ field.1 := by omega
    rw [List.map_cons, List.map_cons, readFields, List.flatMap_cons, List.append_assoc,
      List.take_left' (Bytes.length_ofNumber _ _), List.drop_left' (Bytes.length_ofNumber _ _),
      ih fun x hx => hfit x (by simp [hx]), Bytes.number_ofNumber, Nat.mod_eq_of_lt hn,
      Int.toNat_of_nonneg h0]

/-- Encoded clauses are read back, whatever follows them. -/
theorem readClauses_append {widths : List Nat} (hw : widths.length = 6) {clauses : List Clause}
    {parts : List Bytes} (h : List.Forall₂ (fun c part => Clause.encode widths c = .ok part)
      clauses parts) (rest : Bytes) :
    readClauses widths clauses.length (parts.flatten ++ rest) = clauses := by
  induction h with
  | nil => rfl
  | cons hfirst _ ih =>
    rename_i c part clauses parts _
    have hfst : (widths.zip c.fields).map (·.1) = widths :=
      List.map_fst_zip (by simp [hw, Clause.fields])
    have hsnd : (widths.zip c.fields).map (·.2) = c.fields :=
      List.map_snd_zip (by simp [hw, Clause.fields])
    have hread := readFields_append hfirst (parts.flatten ++ rest)
    rw [hfst, hsnd] at hread
    have hlen : part.length = widths.sum := by
      rw [length_of_encodeFields hfirst, hfst]
    rw [List.length_cons, readClauses, List.flatten_cons, List.append_assoc, hread,
      List.drop_left' hlen, ih]
    rfl

/-- Encoded clauses take the bytes of their fields. -/
theorem length_flatten_clauses {widths : List Nat} (hw : widths.length = 6) {clauses : List Clause}
    {parts : List Bytes} (h : List.Forall₂ (fun c part => Clause.encode widths c = .ok part)
      clauses parts) : parts.flatten.length = clauses.length * widths.sum := by
  have hlen : List.Forall₂ (fun (_ : Clause) part => part.length = widths.sum) clauses parts := by
    refine h.imp fun c part hc => ?_
    rw [length_of_encodeFields hc, List.map_fst_zip (by simp [hw, Clause.fields])]
  rw [Sequence.length_flatten_of_forall₂ hlen, List.map_const', List.sum_replicate_nat]

/-- A section of clauses that no other one follows is read back, and nothing behind it. -/
theorem readSections_clauses {clauses : List Clause} {parts : List Bytes} {widths : List Nat}
    {kind a b c : UInt8} (hw : widths.length = 6) (hpos : 0 < widths.sum)
    (hall : List.Forall₂ (fun c part => Clause.encode widths c = .ok part) clauses parts)
    (hclauses : kind.toNat &&& BodyFormat.clauseSection ≠ 0)
    (hlast : kind.toNat &&& BodyFormat.anotherSection = 0)
    (hsize : (if kind.toNat &&& BodyFormat.fatSection ≠ 0 then Bytes.number [a, b, c]
      else a.toNat) = clauses.length * widths.sum + 4)
    (hwidths : (if kind.toNat &&& BodyFormat.fatSection ≠ 0 then Clause.fatWidths
      else Clause.smallWidths) = widths)
    {before : Bytes} {stop : Nat} (after : Bytes) (token : Int)
    (hstop : Bytes.alignNat stop 4 = before.length) :
    readSections (before ++ (kind :: a :: b :: c :: parts.flatten ++ after)) token stop [] =
      .ok (clauses, before.length + (kind :: a :: b :: c :: parts.flatten).length) := by
  have hlen := length_flatten_clauses hw hall
  have hdrop : (before ++ (kind :: a :: b :: c :: parts.flatten ++ after)).drop
      (Bytes.alignNat stop 4) = kind :: a :: b :: c :: (parts.flatten ++ after) := by
    rw [hstop, List.drop_left]
    rfl
  have hthere : ¬ ((parts.flatten ++ after).take (clauses.length * widths.sum)).length <
      clauses.length * widths.sum := by
    rw [List.length_take, List.length_append]
    omega
  rw [readSections]
  split
  · rename_i hthis
    rw [hdrop] at hthis
    cases hthis
    simp only [hsize, hwidths, hlast, if_true, List.nil_append, Nat.add_sub_cancel]
    rw [if_neg (by simpa using hthere), if_pos hclauses, Nat.mul_div_cancel _ hpos,
      readClauses_append hw hall after, hstop]
    simp only [List.length_cons, hlen]
  · rename_i hnone
    exact absurd hdrop (hnone kind a b c _)

/-- The section of clauses at the end of a body is read back, and nothing behind it. -/
theorem readSections_append {clauses : List Clause} {bs : Bytes}
    (h : Clause.encodeSection clauses = .ok bs) {before : Bytes} {stop : Nat} (after : Bytes)
    (token : Int) (hstop : Bytes.alignNat stop 4 = before.length) :
    readSections (before ++ (bs ++ after)) token stop [] =
      .ok (clauses, before.length + bs.length) := by
  unfold Clause.encodeSection at h
  split at h
  · -- a small section: its size is one byte, and two zeros follow
    rename_i hsmall
    obtain ⟨head, hhead, h⟩ := Sequence.bind_eq_ok.mp h
    obtain ⟨parts, hparts, h⟩ := Sequence.bind_eq_ok.mp h
    simp only [pure, Except.pure, Except.ok.injEq] at h
    simp only [Bool.and_eq_true, decide_eq_true_eq] at hsmall
    have hcount : clauses.length ≤ 20 := hsmall.1
    have hn : ((clauses.length : Int) * 12 + 4).toNat = clauses.length * 12 + 4 := by omega
    have hbs : bs = 1 :: UInt8.ofNat (clauses.length * 12 + 4) :: 0 :: 0 :: parts.flatten := by
      rw [← h, (encodeFields_eq_ok.mp hhead).2]
      simp only [List.flatMap_cons, List.flatMap_nil, Bytes.ofNumber, hn]
      rfl
    have hsize : (UInt8.ofNat (clauses.length * 12 + 4)).toNat = clauses.length * 12 + 4 := by
      rw [UInt8.toNat_ofNat']
      omega
    rw [hbs]
    exact readSections_clauses (by rfl) (by decide) (Sequence.mapM_eq_ok.mp hparts) (by decide)
      (by decide) ((if_neg (by decide)).trans hsize) (if_neg (by decide)) after token hstop
  · -- a fat section: its size is three bytes
    obtain ⟨head, hhead, h⟩ := Sequence.bind_eq_ok.mp h
    obtain ⟨parts, hparts, h⟩ := Sequence.bind_eq_ok.mp h
    simp only [pure, Except.pure, Except.ok.injEq] at h
    have hn : ((clauses.length : Int) * 24 + 4).toNat = clauses.length * 24 + 4 := by omega
    have hfit : (clauses.length : Int) * 24 + 4 < (256 ^ 3 : Nat) :=
      ((encodeFields_eq_ok.mp hhead).1 (3, (clauses.length : Int) * 24 + 4) (by simp)).2
    have hbs : bs = 0x41 :: (Bytes.ofNumber 3 (clauses.length * 24 + 4) ++ parts.flatten) := by
      rw [← h, (encodeFields_eq_ok.mp hhead).2]
      simp only [List.flatMap_cons, List.flatMap_nil, hn, List.append_nil]
      rfl
    have hsize : Bytes.number (Bytes.ofNumber 3 (clauses.length * 24 + 4)) =
        clauses.length * 24 + 4 := by
      rw [Bytes.number_ofNumber, Nat.mod_eq_of_lt (by exact_mod_cast hfit)]
    rw [hbs]
    exact readSections_clauses (by rfl) (by decide) (Sequence.mapM_eq_ok.mp hparts) (by decide)
      (by decide) ((if_pos (by decide)).trans hsize) (if_pos (by decide)) after token hstop

/-- Code behind a tiny header is read back. -/
theorem parseTiny_append {n : Nat} (hn : n ≤ 63) {code : Bytes} (hcode : code.length = n)
    (before after : Bytes) (token : Int) :
    parse (before ++ (UInt8.ofNat (n * 4 + 2) :: (code ++ after))) (some (before.length : Int))
      token = .ok { code, headerSize := 1, totalSize := 1 + n, isTiny := true } := by
  have hfirst : (UInt8.ofNat (n * 4 + 2)).toNat = n * 4 + 2 := by
    rw [UInt8.toNat_ofNat']
    omega
  have hformat : (n * 4 + 2) % 4 = BodyFormat.tiny := by
    rw [BodyFormat.tiny]
    omega
  have hsize : (n * 4 + 2) / 4 = n := by omega
  have htake : (code ++ after).take n = code := List.take_left' hcode
  rw [parse]
  simp only [Int.toNat_natCast, List.drop_left, hfirst, if_pos hformat, parseTiny, hsize, htake]
  rw [if_neg (by omega), if_neg (by omega)]

/-- A body whose first byte says so has a fat header. -/
theorem parse_of_fat {first : UInt8} {bs rest : Bytes} (hbs : bs = first :: rest)
    (hfat : first.toNat % 4 = BodyFormat.fat) (before : Bytes) (token : Int) :
    parse (before ++ bs) (some (before.length : Int)) token =
      parseFat (before ++ bs) token before.length := by
  rw [parse, if_neg (by omega)]
  simp only [Int.toNat_natCast, List.drop_left]
  rw [hbs]
  simp only [hfat]
  rw [if_neg (by decide), if_pos trivial]

/-! ### The flags of a fat header -/

/-- The flags of a fat header, with its length in words in the upper four bits. -/
def fatFlags (hasSections hasInit : Bool) : Nat :=
  3 + (if hasSections then 8 else 0) + (if hasInit then 16 else 0) + 3 * 2 ^ 12

section fatFlags

variable (hasSections hasInit : Bool)

theorem fatFlags_lt : fatFlags hasSections hasInit < 256 ^ 2 := by
  cases hasSections <;> cases hasInit <;> decide

/-- The low bits of the flags say that the header is fat. -/
theorem fatFlags_format : fatFlags hasSections hasInit % 256 % 4 = BodyFormat.fat := by
  cases hasSections <;> cases hasInit <;> decide

/-- The high bits say that it has twelve bytes. -/
theorem fatFlags_headerSize : fatFlags hasSections hasInit / 2 ^ 12 * 4 = 12 := by
  cases hasSections <;> cases hasInit <;> decide

/-- One bit says whether sections follow the code. -/
theorem fatFlags_moreSections :
    fatFlags hasSections hasInit &&& BodyFormat.moreSections ≠ 0 ↔ hasSections = true := by
  cases hasSections <;> cases hasInit <;> decide

/-- Another one says whether the local variables start as zero. -/
theorem fatFlags_initLocals :
    fatFlags hasSections hasInit &&& BodyFormat.initLocals ≠ 0 ↔ hasInit = true := by
  cases hasSections <;> cases hasInit <;> decide

end fatFlags

end Stub

namespace Serialized

variable {header : BodyHeader} {layout : Layout} {code body : Bytes}

/-- What a serialized body is read as. -/
def stub (s : Serialized header layout code body) : Stub where
  maxStack := if isTinyBody header layout s.depth then BodyFormat.tinyStackLimit else s.depth
  code := code
  locals := header.locals
  initLocals := header.initLocals
  clauses := layout.clauses
  headerSize := if isTinyBody header layout s.depth then 1 else 12
  totalSize := body.length
  isTiny := isTinyBody header layout s.depth

/-- The bytes of a fat header. -/
theorem head_of_fat {depth : Nat} {head : Bytes}
    (h : encodeFatHeader header layout depth = .ok head) :
    layout.codeSize < 256 ^ 4 ∧ depth < 256 ^ 2 ∧ 0 ≤ header.locals ∧
    header.locals.toNat < 256 ^ 4 ∧
      head = Bytes.ofNumber 2 (Stub.fatFlags (!layout.clauses.isEmpty) header.initLocals) ++
        (Bytes.ofNumber 2 depth ++ (Bytes.ofNumber 4 layout.codeSize ++
          Bytes.ofNumber 4 header.locals.toNat)) := by
  obtain ⟨hfit, hhead⟩ := encodeFields_eq_ok.mp h
  simp only [List.forall_mem_cons] at hfit
  obtain ⟨_, ⟨_, hdepth⟩, ⟨_, hsize⟩, ⟨hl0, hl1⟩, _⟩ := hfit
  refine ⟨by exact_mod_cast hsize, by exact_mod_cast hdepth, hl0, by omega, ?_⟩
  rw [hhead]
  cases layout.clauses.isEmpty <;> cases header.initLocals <;> rfl

/-- The fields of a fat header are read back from the bytes that begin with it. -/
theorem fields_of_fat {depth : Nat} {head : Bytes}
    (h : encodeFatHeader header layout depth = .ok head) (rest : Bytes) :
    Bytes.field (head ++ rest) 0 2 =
        Stub.fatFlags (!layout.clauses.isEmpty) header.initLocals ∧
      Bytes.field (head ++ rest) 2 2 = depth ∧
      Bytes.field (head ++ rest) 4 4 = layout.codeSize ∧
      (Bytes.field (head ++ rest) 8 4 : Int) = header.locals := by
  obtain ⟨hsize, hdepth, hl0, hl1, hbytes⟩ := head_of_fat h
  have hflags := Stub.fatFlags_lt (!layout.clauses.isEmpty) header.initLocals
  generalize Stub.fatFlags (!layout.clauses.isEmpty) header.initLocals = flags at *
  have hlocals : Bytes.field (head ++ rest) 8 4 = header.locals.toNat := by
    rw [hbytes, List.append_assoc, List.append_assoc, List.append_assoc, ← List.append_assoc,
      ← List.append_assoc]
    exact Bytes.field_ofNumber _ _ (by simp) hl1
  refine ⟨?_, ?_, ?_, by rw [hlocals, Int.toNat_of_nonneg hl0]⟩
  · rw [hbytes, List.append_assoc]
    exact Bytes.field_ofNumber [] _ rfl hflags
  · rw [hbytes, List.append_assoc, List.append_assoc]
    exact Bytes.field_ofNumber _ _ (Bytes.length_ofNumber _ _) hdepth
  · rw [hbytes, List.append_assoc, List.append_assoc, List.append_assoc, ← List.append_assoc]
    exact Bytes.field_ofNumber _ _ (by simp) hsize

/-- The first byte of a body with a fat header tells that it is one. -/
theorem exists_fat (s : Serialized header layout code body)
    (hfat : isTinyBody header layout s.depth = false) :
    ∃ first rest, body = first :: rest ∧ first.toNat % 4 = BodyFormat.fat := by
  rcases s.parts with ⟨ht, -, -⟩ | ⟨-, hhead, -⟩
  · rw [ht] at hfat
    cases hfat
  · obtain ⟨-, -, -, -, hbytes⟩ := head_of_fat hhead
    rw [s.body_eq, hbytes]
    refine ⟨_, _, rfl, ?_⟩
    rw [UInt8.toNat_ofNat']
    exact Stub.fatFlags_format _ _

/-- A body can have a tiny header when the code is short and there is nothing else to say. -/
theorem isTinyBody_iff {depth : Nat} : isTinyBody header layout depth = true ↔
    layout.codeSize ≤ 63 ∧ header.locals = 0 ∧ header.initLocals = false ∧ layout.clauses = [] ∧
      depth ≤ 8 := by
  simp only [isTinyBody, Bool.and_eq_true, decide_eq_true_eq, beq_iff_eq, Bool.not_eq_true',
    List.isEmpty_iff]
  simp only [BodyFormat.tinyCodeLimit, BodyFormat.tinyStackLimit]
  tauto

/-- A body with a tiny header is one byte, which counts the code, and the code. -/
theorem body_of_tiny (s : Serialized header layout code body)
    (ht : isTinyBody header layout s.depth = true) :
    body = UInt8.ofNat (layout.codeSize * 4 + 2) :: code := by
  rcases s.parts with ⟨-, htail, hhead⟩ | ⟨hf, -, -⟩
  · have hn : ((layout.codeSize : Int) * 4 + (BodyFormat.tiny : Nat)).toNat =
        layout.codeSize * 4 + 2 := by
      rw [BodyFormat.tiny]
      omega
    rw [s.body_eq, htail, (encodeFields_eq_ok.mp hhead).2, List.append_nil]
    simp only [List.flatMap_cons, List.flatMap_nil, Bytes.ofNumber, hn, List.append_nil,
      List.cons_append, List.nil_append]
  · rw [ht] at hf
    cases hf

/-- No body starts with a zero: its first byte says which header it has. -/
theorem head?_ne_zero (s : Serialized header layout code body) : body.head? ≠ some 0 := by
  cases ht : isTinyBody header layout s.depth with
  | true =>
    have hsize := (isTinyBody_iff.mp ht).1
    rw [s.body_of_tiny ht, List.head?_cons, ne_eq, Option.some.injEq]
    intro hzero
    have hnat := congrArg UInt8.toNat hzero
    rw [UInt8.toNat_ofNat', UInt8.toNat_zero] at hnat
    omega
  | false =>
    obtain ⟨first, rest, hcons, hfat⟩ := s.exists_fat ht
    rw [hcons, List.head?_cons, ne_eq, Option.some.injEq]
    rintro rfl
    cases hfat

/-- A body with a tiny header is read back wherever it stands. -/
theorem parse_append_of_tiny (s : Serialized header layout code body)
    (ht : isTinyBody header layout s.depth = true) (hcode : code.length = layout.codeSize)
    (before after : Bytes) (token : Int) :
    Stub.parse (before ++ (body ++ after)) (some (before.length : Int)) token = .ok s.stub := by
  obtain ⟨hsize, hlocals, hinit, hclauses, -⟩ := isTinyBody_iff.mp ht
  have hbody := s.body_of_tiny ht
  have hleft : body ++ after = UInt8.ofNat (layout.codeSize * 4 + 2) :: (code ++ after) := by
    rw [hbody, List.cons_append]
  have hlength : body.length = 1 + layout.codeSize := by
    rw [hbody, List.length_cons, hcode, Nat.add_comm]
  rw [hleft, Stub.parseTiny_append hsize hcode before after token, stub, ht, hlocals, hinit,
    hclauses, hlength]
  rfl

/-- The clauses are read back from behind the code of a body that stands at a multiple of four:
the sections are aligned in the file, so the zeros in front of them are skipped. -/
theorem readSections_append (s : Serialized header layout code body) {head : Nat}
    (hhead : s.head.length = head) (hcode : code.length = layout.codeSize) {clauses : Bytes}
    (hclauses : Clause.encodeSection layout.clauses = .ok clauses)
    (htail : s.tail = Bytes.zeros (Bytes.alignNat (s.head ++ code).length 4 -
      (s.head ++ code).length) ++ clauses)
    {before : Bytes} (halign : 4 ∣ before.length) (after : Bytes) (token : Int) :
    Stub.readSections (before ++ (body ++ after)) token
        (before.length + head + layout.codeSize) [] =
      .ok (layout.clauses, before.length + body.length) := by
  have hend : (s.head ++ code).length = head + layout.codeSize := by
    rw [List.length_append, hhead, hcode]
  have hle := Bytes.le_alignNat (head + layout.codeSize) (show 0 < 4 by omega)
  have hstop : Bytes.alignNat (before.length + head + layout.codeSize) 4 =
      (before ++ (s.head ++ code ++ Bytes.zeros (Bytes.alignNat (s.head ++ code).length 4 -
        (s.head ++ code).length))).length := by
    rw [Nat.add_assoc, Bytes.alignNat_add (by omega) halign, List.length_append,
      List.length_append, hend, Bytes.zeros, List.length_replicate]
    omega
  have hread := Stub.readSections_append hclauses after token hstop
  have hbody := s.body_eq
  rw [htail] at hbody
  have hlength := congrArg List.length hbody
  simp only [List.append_assoc, List.length_append] at hbody hlength hread
  rw [hbody]
  simp only [List.append_assoc, List.length_append]
  rw [hread, Except.ok.injEq, Prod.mk.injEq]
  exact ⟨rfl, by omega⟩

/-- A body with a fat header is read back at a multiple of four. -/
theorem parse_append_of_fat (s : Serialized header layout code body)
    (ht : isTinyBody header layout s.depth = false) (hcode : code.length = layout.codeSize)
    {before : Bytes} (halign : 4 ∣ before.length) (after : Bytes) (token : Int) :
    Stub.parse (before ++ (body ++ after)) (some (before.length : Int)) token = .ok s.stub := by
  rcases s.parts with ⟨htiny, -, -⟩ | ⟨-, hhead, htail⟩
  · rw [htiny] at ht
    cases ht
  obtain ⟨first, rest, hcons, hformat⟩ := s.exists_fat ht
  obtain ⟨-, -, -, -, hbytes⟩ := head_of_fat hhead
  have hheadlen : s.head.length = 12 := by
    rw [hbytes]
    simp
  have hall : body ++ after = s.head ++ (code ++ (s.tail ++ after)) := by
    have h := congrArg (· ++ after) s.body_eq
    simpa only [List.append_assoc] using h
  obtain ⟨hflags, hmax, hcount, hlocals⟩ := fields_of_fat hhead (code ++ (s.tail ++ after))
  rw [← hall] at hflags hmax hcount hlocals
  have hslice : Bytes.slice (body ++ after) 12 layout.codeSize = code := by
    rw [hall, ← hheadlen, ← hcode, Bytes.slice_append]
  have htake : ((body ++ after).take 12).length = 12 := by
    rw [hall, List.length_take, List.length_append, hheadlen]
    omega
  have hmore := Stub.fatFlags_moreSections (!layout.clauses.isEmpty) header.initLocals
  have hinit := Stub.fatFlags_initLocals (!layout.clauses.isEmpty) header.initLocals
  rw [Stub.parse_of_fat (congrArg (· ++ after) hcons) hformat, Stub.parseFat]
  simp only [List.drop_left, hflags, Stub.fatFlags_headerSize, hcount, hslice, hcode]
  rw [htake, if_neg (by omega), if_neg (by omega), if_neg (by simp), hmax, hlocals]
  simp only [hinit, Bool.decide_eq_true]
  rcases htail with ⟨hempty, htail⟩ | ⟨hne, clauses, hclauses, htail⟩
  · have hlength : body.length = 12 + layout.codeSize := by
      rw [s.body_eq, htail, List.append_nil, List.length_append, hheadlen, hcode]
    rw [if_neg (by rw [hmore, hempty]; decide)]
    simp only [pure, Except.pure, bind, Except.bind, stub, ht, hempty, hlength,
      Bool.false_eq_true, if_false, Nat.add_assoc, Nat.add_sub_cancel_left]
  · rw [if_pos (by rw [hmore]; simpa using hne),
      s.readSections_append hheadlen hcode hclauses htail halign]
    simp only [pure, Except.pure, bind, Except.bind, stub, ht, Bool.false_eq_true, if_false,
      Nat.add_sub_cancel_left]

/-- A serialized body is read back wherever it stands, a fat one at a multiple of four. -/
theorem parse_append (s : Serialized header layout code body)
    (hcode : code.length = layout.codeSize)
    {before : Bytes} (halign : isTinyBody header layout s.depth = false → 4 ∣ before.length)
    (after : Bytes) (token : Int) :
    Stub.parse (before ++ (body ++ after)) (some (before.length : Int)) token = .ok s.stub := by
  cases ht : isTinyBody header layout s.depth with
  | true => exact s.parse_append_of_tiny ht hcode before after token
  | false => exact s.parse_append_of_fat ht hcode (halign ht) after token

/-- The clauses of a body can be told from its bytes. -/
theorem clauses_unique {other : Layout} {code' : Bytes} (s : Serialized header layout code body)
    (s' : Serialized header other code' body) (hcode : code.length = layout.codeSize)
    (hcode' : code'.length = other.codeSize) : other.clauses = layout.clauses := by
  have halign : 4 ∣ ([] : Bytes).length := Nat.dvd_zero 4
  have hparse := s.parse_append hcode (fun _ => halign) [] 0
  have hparse' := s'.parse_append hcode' (fun _ => halign) [] 0
  exact congrArg Stub.clauses (Except.ok.inj (hparse'.symm.trans hparse))

end Serialized

end CilRestore
