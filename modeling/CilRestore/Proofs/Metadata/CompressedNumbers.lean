import CilRestore.Compressed
import CilRestore.Proofs.Sequence

/-!
# Numbers in compressed form

The forms that ECMA-335 gives a compressed number: one, two or four bytes, the most significant
first, of which the first bits tell the form. The encoding of a number is its narrowest form
(`Compressed.encode_eq_bytes`). Reading takes any form that holds the number, whatever follows it,
and nothing else (`Compressed.read_eq_ok`), so that no bytes are read which end inside of a number
(`Compressed.read_of_cut`). Reading at an offset goes forward and stays inside the data;
`Compressed.readAt_encoded` puts this together.
-/

namespace CilRestore.Compressed

-- Powers and sums of numbers are those of the core library, whatever else is imported.
attribute [local instance (high)] instPowNat Zero.ofOfNat0

/-! ### Forms -/

/-- A form of a compressed number, by the bytes that it takes. -/
inductive Form where
  | one | two | four
  deriving DecidableEq, Repr

namespace Form

/-- How many bytes it takes. -/
def width : Form → Nat
  | one => 1
  | two => 2
  | four => 4

/-- The first bits, as a number: 0, 10 or 110. -/
def lead : Form → Nat
  | one => 0
  | two => 2
  | four => 6

/-- The number of bits that are left for the number. -/
def bits : Form → Nat
  | one => 7
  | two => 14
  | four => 29

/-- A number fits the bits that are left for it. -/
def Holds (form : Form) (n : Nat) : Prop := n < 2 ^ form.bits

/-- The bytes of a number: the first bits and the number behind them, the most significant byte
first. -/
def bytes (form : Form) (n : Nat) : Bytes :=
  (Bytes.ofNumber form.width (form.lead * 2 ^ form.bits + n)).reverse

/-- No narrower form holds the number. -/
structure IsNarrowest (form : Form) (n : Nat) : Prop where
  /-- It holds the number. -/
  holds : form.Holds n
  /-- Any form that does is at least as wide. -/
  least : ∀ other : Form, other.Holds n → form.width ≤ other.width

variable {form : Form} {n : Nat}

theorem width_pos (form : Form) : 0 < form.width := by cases form <;> decide

/-- No form holds a number of thirty bits. -/
theorem Holds.lt (h : form.Holds n) : n < 2 ^ (29 : Nat) := by
  cases form <;> simp only [Holds, bits] at h <;> omega

@[simp] theorem length_bytes (form : Form) (n : Nat) : (form.bytes n).length = form.width := by
  rw [bytes, List.length_reverse, Bytes.length_ofNumber]

/-- Bytes are those of a number when there are as many and they spell it behind the first bits. -/
theorem bytes_eq {bs : Bytes} (hlength : bs.length = form.width)
    (hnumber : Bytes.number bs.reverse = form.lead * 2 ^ form.bits + n) : form.bytes n = bs := by
  rw [bytes, ← hnumber, ← hlength, ← List.length_reverse, Bytes.ofNumber_number,
    List.reverse_reverse]

/-- One byte is the number itself. -/
theorem bytes_one (h : one.Holds n) : one.bytes n = [UInt8.ofNat n] := by
  refine bytes_eq rfl ?_
  simp only [Holds, bits] at h
  simp only [List.reverse_singleton, Bytes.number, UInt8.toNat_ofNat', lead, bits]
  omega

/-- Of two bytes the first one has the mark and the high bits. -/
theorem bytes_two (h : two.Holds n) :
    two.bytes n = [UInt8.ofNat (0x80 + n / 256), UInt8.ofNat n] := by
  refine bytes_eq rfl ?_
  simp only [Holds, bits] at h
  simp only [List.reverse_cons, List.reverse_nil, List.nil_append, List.cons_append, Bytes.number,
    UInt8.toNat_ofNat', lead, bits]
  omega

/-- So has the first one of four bytes. -/
theorem bytes_four (h : four.Holds n) :
    four.bytes n = [UInt8.ofNat (0xC0 + n / 256 ^ (3 : Nat)), UInt8.ofNat (n / 256 ^ (2 : Nat)),
      UInt8.ofNat (n / 256), UInt8.ofNat n] := by
  refine bytes_eq rfl ?_
  simp only [Holds, bits] at h
  simp only [List.reverse_cons, List.reverse_nil, List.nil_append, List.cons_append, Bytes.number,
    UInt8.toNat_ofNat', lead, bits]
  omega

/-- A byte whose first bit is 0. -/
theorem spelled_one {b : UInt8} (h : b.toNat < 0x80) :
    one.Holds b.toNat ∧ one.bytes b.toNat = [b] := by
  refine ⟨h, bytes_eq rfl ?_⟩
  simp only [List.reverse_singleton, Bytes.number, lead, bits]
  omega

/-- Two bytes, of which the first begins with 10. -/
theorem spelled_two {b : UInt8} (hlow : 0x80 ≤ b.toNat) (hhigh : b.toNat < 0xC0) (c : UInt8) :
    two.Holds (b.toNat % 0x40 * 256 + c.toNat) ∧
      two.bytes (b.toNat % 0x40 * 256 + c.toNat) = [b, c] := by
  have hc := c.toNat_lt
  refine ⟨?_, bytes_eq rfl ?_⟩
  · simp only [Holds, bits]
    omega
  · simp only [List.reverse_cons, List.reverse_nil, List.nil_append, List.cons_append,
      Bytes.number, lead, bits]
    omega

/-- Four bytes, of which the first begins with 110. -/
theorem spelled_four {b : UInt8} (hlow : 0xC0 ≤ b.toNat) (hhigh : b.toNat < 0xE0)
    (c d e : UInt8) :
    four.Holds (((b.toNat % 0x20 * 256 + c.toNat) * 256 + d.toNat) * 256 + e.toNat) ∧
      four.bytes (((b.toNat % 0x20 * 256 + c.toNat) * 256 + d.toNat) * 256 + e.toNat) =
        [b, c, d, e] := by
  have hc := c.toNat_lt
  have hd := d.toNat_lt
  have he := e.toNat_lt
  refine ⟨?_, bytes_eq rfl ?_⟩
  · simp only [Holds, bits]
    omega
  · simp only [List.reverse_cons, List.reverse_nil, List.nil_append, List.cons_append,
      Bytes.number, lead, bits]
    omega

end Form

variable {n : Nat}

/-- The encoding of a number is its narrowest form. -/
theorem encode_eq_bytes (h : n < 2 ^ (29 : Nat)) :
    ∃ form : Form, form.IsNarrowest n ∧ encode n = form.bytes n := by
  unfold encode
  split
  case isTrue hone =>
    have hholds : Form.one.Holds n := hone
    exact ⟨.one, ⟨hholds, fun other _ => other.width_pos⟩, (Form.bytes_one hholds).symm⟩
  case isFalse hone =>
    split
    case isTrue htwo =>
      have hholds : Form.two.Holds n := htwo
      refine ⟨.two, ⟨hholds, fun other hother => ?_⟩, (Form.bytes_two hholds).symm⟩
      cases other with
      | one => exact absurd hother hone
      | two => exact Nat.le_refl _
      | four => decide
    case isFalse htwo =>
      have hholds : Form.four.Holds n := h
      refine ⟨.four, ⟨hholds, fun other hother => ?_⟩, (Form.bytes_four hholds).symm⟩
      cases other with
      | one => exact absurd hother hone
      | two => exact absurd hother htwo
      | four => exact Nat.le_refl _

/-! ### Reading from the start of bytes -/

section Read

variable {form : Form} {bs : Bytes} {size : Nat}

/-- A number is read in any form that holds it, whatever follows. -/
theorem read_bytes_append (h : form.Holds n) (rest : Bytes) :
    read (form.bytes n ++ rest) = .ok (n, form.width) := by
  cases form with
  | one =>
    rw [Form.bytes_one h]
    simp only [Form.Holds, Form.bits] at h
    simp only [List.cons_append, List.nil_append, read, UInt8.toNat_ofNat']
    rw [if_pos (by omega), Nat.mod_eq_of_lt (by omega)]
    rfl
  | two =>
    rw [Form.bytes_two h]
    simp only [Form.Holds, Form.bits] at h
    simp only [List.cons_append, List.nil_append, read, UInt8.toNat_ofNat']
    rw [if_neg (by omega), if_pos (by omega)]
    simp only [Form.width, Except.ok.injEq, Prod.mk.injEq, and_true]
    omega
  | four =>
    rw [Form.bytes_four h]
    simp only [Form.Holds, Form.bits] at h
    simp only [List.cons_append, List.nil_append, read, UInt8.toNat_ofNat']
    rw [if_neg (by omega), if_neg (by omega), if_pos (by omega)]
    simp only [Form.width, Except.ok.injEq, Prod.mk.injEq, and_true]
    omega

/-- What is read stands there in one of the forms. -/
theorem exists_form_of_read (h : read bs = .ok (n, size)) : ∃ (form : Form) (rest : Bytes),
    form.Holds n ∧ bs = form.bytes n ++ rest ∧ size = form.width := by
  unfold read at h
  split at h
  · cases h
  · rename_i b rest
    split at h
    · rename_i hone
      cases h
      obtain ⟨hholds, hbytes⟩ := Form.spelled_one hone
      exact ⟨.one, rest, hholds, by rw [hbytes]; rfl, rfl⟩
    split at h
    · rename_i hone htwo
      split at h <;> cases h
      obtain ⟨hholds, hbytes⟩ := Form.spelled_two (Nat.le_of_not_lt hone) htwo _
      exact ⟨.two, _, hholds, by rw [hbytes]; rfl, rfl⟩
    split at h
    · rename_i hone htwo hfour
      split at h <;> cases h
      obtain ⟨hholds, hbytes⟩ := Form.spelled_four (Nat.le_of_not_lt htwo) hfour _ _ _
      exact ⟨.four, _, hholds, by rw [hbytes]; rfl, rfl⟩
    · cases h

/-- Reading takes a number in any form that holds it, and nothing else. -/
theorem read_eq_ok : read bs = .ok (n, size) ↔ ∃ (form : Form) (rest : Bytes),
    form.Holds n ∧ bs = form.bytes n ++ rest ∧ size = form.width := by
  refine ⟨exists_form_of_read, ?_⟩
  rintro ⟨form, rest, hholds, rfl, rfl⟩
  exact read_bytes_append hholds rest

/-- There is one fault. -/
theorem error_of_read {e : Fault} (h : read bs = .error e) : e = malformed := by
  unfold read at h
  split at h
  · cases h; rfl
  · split at h
    · cases h
    split at h
    · split at h <;> cases h
      rfl
    split at h
    · split at h <;> cases h
      rfl
    · cases h; rfl

/-- Bytes that end inside of a number are not read. -/
theorem read_of_cut {cut : Bytes} (h : form.Holds n) (hcut : cut <+: form.bytes n)
    (hne : cut ≠ form.bytes n) : read cut = .error malformed := by
  cases hread : read cut with
  | error e => rw [error_of_read hread]
  | ok answer =>
    obtain ⟨other, rest, hother, hstart, -⟩ := read_eq_ok.mp hread
    obtain ⟨tail, htail⟩ := hcut
    have hwhole : read (form.bytes n) = .ok (n, form.width) := by
      simpa using read_bytes_append h []
    have hsame : read (form.bytes n) = .ok (answer.1, other.width) := by
      rw [← htail, hstart, List.append_assoc]
      exact read_bytes_append hother _
    -- a form that begins like the number is as wide, so that nothing is cut off
    have hwidth : form.width = other.width := by
      rw [hwhole, Except.ok.injEq, Prod.mk.injEq] at hsame
      exact hsame.2
    have hlength := congrArg List.length htail
    have hstarts := congrArg List.length hstart
    simp only [List.length_append, Form.length_bytes] at hlength hstarts
    have htail_nil : tail = [] := List.eq_nil_of_length_eq_zero (by omega)
    rw [htail_nil, List.append_nil] at htail
    exact absurd htail hne

/-- The encoding of a number reads back, whatever follows. -/
theorem read_encode (h : n < 2 ^ (29 : Nat)) (rest : Bytes) :
    read (encode n ++ rest) = .ok (n, (encode n).length) := by
  obtain ⟨form, hform, hencode⟩ := encode_eq_bytes h
  rw [hencode, read_bytes_append hform.holds, Form.length_bytes]

end Read

/-! ### Reading at an offset -/

section ReadAt

variable {data : Bytes} {offset : Nat}

/-- Reading at an offset is reading from there on. -/
theorem readAt_natCast (data : Bytes) (offset : Nat) : readAt data offset =
    (fun answer => (answer.1, (offset : Int) + answer.2)) <$> read (data.drop offset) := by
  by_cases hinside : data.length ≤ offset
  · have hwindow : window data offset = .error malformed := if_pos (Int.ofNat_le.mpr hinside)
    rw [readAt, hwindow, List.drop_eq_nil_of_le hinside]
    rfl
  · have hwindow : window data offset = .ok (data.drop offset) := by
      rw [window, if_neg (by omega), if_pos (Int.natCast_nonneg _), Int.toNat_natCast]
    rw [readAt, hwindow, Sequence.ok_bind]
    cases read (data.drop offset) <;> rfl

/-- A number that stands in data is read there. -/
theorem readAt_of_eq {before after : Bytes} {offset : Int}
    (hdata : data = before ++ (encode n ++ after)) (hoffset : offset = before.length)
    (hn : n < 2 ^ (29 : Nat)) :
    readAt data offset = .ok (n, (before.length + (encode n).length : Nat)) := by
  rw [hdata, hoffset, readAt_natCast, List.drop_left, read_encode hn]
  rfl

/-- Reading at an offset goes forward and stays inside the data. -/
theorem bounds_of_readAt {next : Int} (h : readAt data offset = .ok (n, next)) :
    n < 2 ^ (29 : Nat) ∧ (offset : Int) < next ∧ next ≤ data.length := by
  rw [readAt_natCast] at h
  obtain ⟨⟨value, size⟩, hread, hanswer⟩ := Sequence.map_eq_ok.mp h
  obtain ⟨form, rest, hholds, hdrop, rfl⟩ := read_eq_ok.mp hread
  obtain ⟨rfl, rfl⟩ := Prod.mk.inj hanswer
  have hpos := form.width_pos
  have hlength := congrArg List.length hdrop
  rw [List.length_drop, List.length_append, Form.length_bytes] at hlength
  exact ⟨hholds.lt, by omega, by omega⟩

/-- Reading at an offset: the encoding of a number, which is its narrowest form, reads as the number
and ends at the offset behind it, whatever follows. Data that ends inside of an encoding is refused,
and what is answered otherwise is a number of at most 29 bits and an offset further on, which is not
behind the data. -/
theorem readAt_encoded (data : Bytes) (offset : Nat) :
    (∀ n < 2 ^ (29 : Nat),
      (∃ form : Form, form.IsNarrowest n ∧ encode n = form.bytes n) ∧
      (encode n <+: data.drop offset →
        readAt data offset = .ok (n, (offset + (encode n).length : Nat))) ∧
      (data.drop offset <+: encode n → data.drop offset ≠ encode n →
        readAt data offset = .error malformed)) ∧
    (readAt data offset = .error malformed ∨
      ∃ value next, readAt data offset = .ok (value, next) ∧
        value < 2 ^ (29 : Nat) ∧ (offset : Int) < next ∧ next ≤ data.length) := by
  refine ⟨fun n hn => ⟨encode_eq_bytes hn, ?_, ?_⟩, ?_⟩
  · rintro ⟨after, hafter⟩
    rw [readAt_natCast, ← hafter, read_encode hn]
    rfl
  · obtain ⟨form, hform, hencode⟩ := encode_eq_bytes hn
    intro hcut hne
    rw [hencode] at hcut hne
    rw [readAt_natCast, read_of_cut hform.holds hcut hne]
    rfl
  · cases hread : readAt data offset with
    | error e =>
      rw [readAt_natCast] at hread
      exact Or.inl (congrArg _ (error_of_read (Sequence.map_eq_error.mp hread)))
    | ok answer =>
      exact Or.inr ⟨answer.1, answer.2, rfl, bounds_of_readAt hread⟩

/-- Numbers in all three forms, one behind the other, and most of a fourth. -/
def threeNumbers : Bytes := encode 3 ++ encode 0x80 ++ encode 0x4000 ++ [0xC0, 0, 0x40]

/-- The second number and the third are read where they stand. What is left behind them begins like
an encoding and is refused. -/
theorem readAt_encoded_of_threeNumbers :
    (encode 0x80 <+: threeNumbers.drop 1 ∧ readAt threeNumbers 1 = .ok (0x80, 3)) ∧
    (encode 0x4000 <+: threeNumbers.drop 3 ∧ readAt threeNumbers 3 = .ok (0x4000, 7)) ∧
    (threeNumbers.drop 7 <+: encode 0x4001 ∧ threeNumbers.drop 7 ≠ encode 0x4001 ∧
      readAt threeNumbers 7 = .error malformed) := by
  have hsecond : encode 0x80 <+: threeNumbers.drop 1 := by decide
  have hthird : encode 0x4000 <+: threeNumbers.drop 3 := by decide
  have hcut : threeNumbers.drop 7 <+: encode 0x4001 := by decide
  have hne : threeNumbers.drop 7 ≠ encode 0x4001 := by decide
  obtain ⟨-, hreadSecond, -⟩ := (readAt_encoded threeNumbers 1).1 0x80 (by decide)
  obtain ⟨-, hreadThird, -⟩ := (readAt_encoded threeNumbers 3).1 0x4000 (by decide)
  obtain ⟨-, -, hreadCut⟩ := (readAt_encoded threeNumbers 7).1 0x4001 (by decide)
  exact ⟨⟨hsecond, hreadSecond hsecond⟩, ⟨hthird, hreadThird hthird⟩, hcut, hne, hreadCut hcut hne⟩

end ReadAt

end CilRestore.Compressed
