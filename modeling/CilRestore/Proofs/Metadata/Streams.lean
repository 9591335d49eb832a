import CilRestore.Proofs.Metadata.TablesStream

/-!
# The streams of a metadata root

The root as ECMA-335 lays it out: a version, and then a header for each stream, the name of which
ends with a zero byte and is filled up to a multiple of four bytes. Headers have no length of their
own, so each is found from the name of the one before. The reader fills names up to a multiple of
four bytes of the file. From a root that stands at such a multiple it keeps in step with the
headers, whatever the names are; from any other root it misses the second header
(`MetadataLayout.ofDirectories_of_root`).
-/

namespace CilRestore

-- Powers and sums of numbers are those of the core library, whatever else is imported.
attribute [local instance (high)] instPowNat Zero.ofOfNat0

/-! ### Headers -/

namespace MetadataStream

/-- The numbers of a stream fit its header, and its name is a text of ASCII characters other than
the one that ends it. -/
structure IsStated (s : MetadataStream) : Prop where
  /-- The start has four bytes. -/
  start_lt : s.start < 256 ^ (4 : Nat)
  /-- The size has four bytes. -/
  size_lt : s.size < 256 ^ (4 : Nat)
  /-- The characters of the name have one byte each. -/
  ascii : ∀ c ∈ s.name.toList, 0 < c.toNat ∧ c.toNat < 0x80

/-- Whether a stream can be stated is checked character by character. -/
theorem isStated_iff (s : MetadataStream) :
    s.IsStated ↔ s.start < 256 ^ (4 : Nat) ∧ s.size < 256 ^ (4 : Nat) ∧
      s.name.toList.all (fun c => decide (0 < c.toNat ∧ c.toNat < 0x80)) = true := by
  simp only [List.all_eq_true, decide_eq_true_eq]
  exact ⟨fun h => ⟨h.start_lt, h.size_lt, h.ascii⟩, fun h => ⟨h.1, h.2.1, h.2.2⟩⟩

instance (s : MetadataStream) : Decidable s.IsStated := decidable_of_iff' _ s.isStated_iff

/-- The bytes of the name. -/
def nameBytes (s : MetadataStream) : Bytes := s.name.toList.map fun c => UInt8.ofNat c.toNat

/-- How many bytes the name takes with the zero that ends it and the fill. -/
def nameSize (s : MetadataStream) : Nat := Bytes.alignNat (s.nameBytes.length + 1) 4

/-- The header of a stream. -/
def header (s : MetadataStream) : Bytes :=
  Bytes.ofNumber 4 s.start ++ (Bytes.ofNumber 4 s.size ++ Bytes.padTo s.nameBytes s.nameSize)

variable {s : MetadataStream}

theorem lt_nameSize (s : MetadataStream) : s.nameBytes.length < s.nameSize :=
  Bytes.le_alignNat _ (by decide)

theorem length_header (s : MetadataStream) : s.header.length = 8 + s.nameSize := by
  have hlt := s.lt_nameSize
  simp only [header, List.length_append, Bytes.length_ofNumber, Bytes.length_padTo]
  omega

/-- A header keeps the next one at a multiple of four bytes. -/
theorem four_dvd_length_header (s : MetadataStream) : 4 ∣ s.header.length := by
  rw [length_header]
  exact Nat.dvd_add (by decide) (Bytes.dvd_alignNat _ (by decide))

/-- A zero follows the name. -/
theorem exists_padTo (s : MetadataStream) :
    ∃ fill, Bytes.padTo s.nameBytes s.nameSize = s.nameBytes ++ 0 :: fill := by
  obtain ⟨k, hk⟩ := Nat.exists_eq_add_of_lt s.lt_nameSize
  refine ⟨Bytes.zeros k, ?_⟩
  rw [Bytes.padTo, show s.nameSize - s.nameBytes.length = k + 1 by omega, Bytes.zeros,
    List.replicate_succ, Bytes.zeros]

theorem IsStated.toNat_ofNat (h : s.IsStated) {c : Char} (hc : c ∈ s.name.toList) :
    (UInt8.ofNat c.toNat).toNat = c.toNat := by
  have := (h.ascii c hc).2
  rw [UInt8.toNat_ofNat']
  omega

/-- No byte of the name ends it early. -/
theorem IsStated.ne_zero (h : s.IsStated) : ∀ b ∈ s.nameBytes, b ≠ 0 := by
  intro b hb hzero
  obtain ⟨c, hc, rfl⟩ := List.mem_map.mp hb
  have hpos := (h.ascii c hc).1
  rw [← h.toNat_ofNat hc, hzero] at hpos
  exact absurd hpos (by decide)

/-- The bytes of the name are read as the name. -/
theorem IsStated.decodeAscii_nameBytes (h : s.IsStated) :
    Text.decodeAscii s.nameBytes = s.name := by
  have hchar : ∀ c ∈ s.name.toList, (if UInt8.ofNat c.toNat < 0x80
      then Char.ofNat (UInt8.ofNat c.toNat).toNat else Text.replacement) = c := by
    intro c hc
    have hlt : UInt8.ofNat c.toNat < 0x80 := by
      rw [UInt8.lt_iff_toNat_lt, h.toNat_ofNat hc]
      exact (h.ascii c hc).2
    rw [if_pos hlt, h.toNat_ofNat hc, Char.ofNat_toNat]
  rw [Text.decodeAscii, nameBytes, List.map_map]
  have hmap := List.map_congr_left hchar
  rw [List.map_id'] at hmap
  exact (congrArg String.ofList hmap).trans String.ofList_toList

end MetadataStream

/-! ### Reading headers -/

namespace MetadataLayout

/-- The zero behind a run of other bytes is found. -/
theorem zeroAfter?_append {name : Bytes} (h : ∀ b ∈ name, b ≠ 0) (before after : Bytes) :
    zeroAfter? (before ++ (name ++ 0 :: after)) before.length =
      some (before.length + name.length) := by
  have hrun : (name ++ 0 :: after).takeWhile (· ≠ 0) = name := by
    rw [List.takeWhile_append_of_pos (by simpa using h)]
    simp
  have hanchor : ∀ length, Bytes.anchor length before.length = before.length := fun length => by
    simp [Bytes.anchor]
  unfold zeroAfter?
  simp only [hanchor, List.drop_left, hrun]
  rw [if_pos (by simp only [List.length_append, List.length_cons]; omega)]

/-- A header that stands in a file is read, and its name ends where it does. -/
theorem readStream_append {s : MetadataStream} (h : s.IsStated) (before after : Bytes) :
    readStream (before ++ (s.header ++ after)) before.length =
      .ok (s, before.length + 8 + s.nameBytes.length) := by
  obtain ⟨fill, hfill⟩ := s.exists_padTo
  let data := before ++ (s.header ++ after)
  have hstart : readNumber data before.length 4 = .ok s.start := by
    have hdata : data = before ++ (Bytes.ofNumber 4 s.start ++
        (Bytes.ofNumber 4 s.size ++ Bytes.padTo s.nameBytes s.nameSize ++ after)) := by
      simp only [data, MetadataStream.header, List.append_assoc]
    exact readNumber_of_eq hdata rfl h.start_lt
  have hsize : readNumber data (before.length + 4) 4 = .ok s.size := by
    have hdata : data = before ++ Bytes.ofNumber 4 s.start ++
        (Bytes.ofNumber 4 s.size ++ (Bytes.padTo s.nameBytes s.nameSize ++ after)) := by
      simp only [data, MetadataStream.header, List.append_assoc]
    exact readNumber_of_eq hdata (by simp) h.size_lt
  let front := before ++ Bytes.ofNumber 4 s.start ++ Bytes.ofNumber 4 s.size
  have hfront : front.length = before.length + 8 := by simp [front]
  have hdata : data = front ++ (s.nameBytes ++ 0 :: (fill ++ after)) := by
    simp only [data, front, MetadataStream.header, hfill, List.append_assoc, List.cons_append]
  have hzero : zeroAfter? data (before.length + 8 : Nat) =
      some (before.length + 8 + s.nameBytes.length) := by
    rw [hdata, ← hfront]
    exact zeroAfter?_append h.ne_zero _ _
  have hname : Bytes.between data (before.length + 8 : Nat)
      (before.length + 8 + s.nameBytes.length : Nat) = s.nameBytes := by
    rw [Bytes.between_natCast, Nat.add_sub_cancel_left, ← hfront, hdata]
    exact Bytes.slice_append _ _ _
  unfold readStream
  rw [show before ++ (s.header ++ after) = data from rfl, hstart, Sequence.ok_bind, hsize,
    Sequence.ok_bind, show (before.length : Int) + 8 = (before.length + 8 : Nat) from rfl, hzero]
  simp only [hname, h.decodeAscii_nameBytes]
  rfl

/-- Filling names up to a multiple of four bytes of the file is right at such multiples. -/
theorem alignedNext_eq {offset : Nat} (h : 4 ∣ offset) (s : MetadataStream) :
    alignedNext offset (offset + 8 + s.nameBytes.length) = (offset + s.header.length : Nat) := by
  have hfour : 4 ∣ offset + 8 := Nat.dvd_add h (by decide)
  rw [alignedNext, Nat.add_assoc (offset + 8), Bytes.alignNat_add (by decide) hfour,
    s.length_header, MetadataStream.nameSize, Nat.add_assoc]

/-- Elsewhere, filling names up to a multiple of four bytes of the file misses the next header. -/
theorem alignedNext_ne {offset : Nat} (h : ¬ 4 ∣ offset) (s : MetadataStream) (stop : Nat) :
    alignedNext offset stop ≠ (offset + s.header.length : Nat) := by
  intro heq
  have hfour : 4 ∣ offset + s.header.length := by
    rw [← Int.natCast_inj.mp heq]
    exact Bytes.dvd_alignNat _ (by decide)
  exact h ((Nat.dvd_add_left s.four_dvd_length_header).mp hfour)

variable {next : Int → Nat → Int} {streams : List MetadataStream}

/-- The first header is read, and reading goes on where the rule leads. -/
theorem readStreams_cons {s : MetadataStream} (h : s.IsStated) (count : Nat)
    (before after : Bytes) :
    readStreams next (before ++ (s.header ++ after)) (count + 1) before.length =
      (s :: (readStreams next (before ++ (s.header ++ after)) count
          (next before.length (before.length + 8 + s.nameBytes.length))).1,
        (readStreams next (before ++ (s.header ++ after)) count
          (next before.length (before.length + 8 + s.nameBytes.length))).2) := by
  rw [readStreams, readStream_append h]

/-- Headers that stand one behind the other are read, from a multiple of four bytes of the file on.
-/
theorem readStreams_append (hstated : ∀ s ∈ streams, s.IsStated) (before after : Bytes)
    (hfour : 4 ∣ before.length) :
    readStreams alignedNext (before ++ (streams.flatMap MetadataStream.header ++ after))
      streams.length before.length = (streams, none) := by
  induction streams generalizing before with
  | nil => rfl
  | cons s streams ih =>
    have hdata : before ++ ((s :: streams).flatMap MetadataStream.header ++ after) =
        before ++ (s.header ++ (streams.flatMap MetadataStream.header ++ after)) := by
      simp only [List.flatMap_cons, List.append_assoc]
    have hrest := ih (fun t ht => hstated t (List.mem_cons_of_mem _ ht)) (before ++ s.header)
      (by rw [List.length_append]; exact Nat.dvd_add hfour s.four_dvd_length_header)
    rw [List.append_assoc, List.length_append] at hrest
    rw [hdata, List.length_cons, readStreams_cons (hstated s List.mem_cons_self),
      alignedNext_eq hfour s, hrest]

end MetadataLayout

/-! ### The root -/

/-- A metadata root. -/
structure MetadataRoot where
  /-- The major version of the format. -/
  majorVersion : UInt16
  /-- The minor version of the format. -/
  minorVersion : UInt16
  /-- A reserved number. -/
  reserved : UInt32
  /-- The version that the metadata was made for. -/
  version : Bytes
  /-- The flags, all reserved. -/
  flags : UInt16
  /-- The streams, in the order of their headers. -/
  streams : List MetadataStream
  /-- The version is filled up to a multiple of four bytes. -/
  version_aligned : 4 ∣ version.length
  /-- Its length has four bytes. -/
  version_fits : version.length < 256 ^ (4 : Nat)
  /-- The number of streams has two bytes. -/
  streams_fit : streams.length < 256 ^ (2 : Nat)
  /-- Each stream has a header. -/
  stated : ∀ s ∈ streams, s.IsStated

namespace MetadataRoot

/-- The bytes between the signature and the length of the version. -/
def versions (r : MetadataRoot) : Bytes :=
  Bytes.ofNumber 2 r.majorVersion.toNat ++ Bytes.ofNumber 2 r.minorVersion.toNat ++
    Bytes.ofNumber 4 r.reserved.toNat

/-- The bytes in front of the headers. -/
def head (r : MetadataRoot) : Bytes :=
  Bytes.ofNumber 4 MetadataLayout.signature ++ r.versions ++ Bytes.ofNumber 4 r.version.length ++
    r.version ++ Bytes.ofNumber 2 r.flags.toNat ++ Bytes.ofNumber 2 r.streams.length

/-- The bytes of a root. -/
def bytes (r : MetadataRoot) : Bytes := r.head ++ r.streams.flatMap MetadataStream.header

variable (r : MetadataRoot)

theorem length_versions : r.versions.length = 8 := by simp [versions]

theorem length_head : r.head.length = 20 + r.version.length := by
  simp only [head, List.length_append, Bytes.length_ofNumber, length_versions]
  omega

/-- So does what is in front of the headers. -/
theorem four_dvd_length_head : 4 ∣ r.head.length := by
  rw [length_head]
  exact Nat.dvd_add (by decide) r.version_aligned

/-- Behind the head of a root, its headers are read. -/
theorem readRoot_append (next : Int → Nat → Int) (before after : Bytes) :
    MetadataLayout.readRoot next (before ++ (r.bytes ++ after)) before.length =
      .ok (MetadataLayout.readStreams next
        (before ++ r.head ++ (r.streams.flatMap MetadataStream.header ++ after))
        r.streams.length (before ++ r.head).length) := by
  let data := before ++ (r.bytes ++ after)
  let headers := r.streams.flatMap MetadataStream.header ++ after
  have hsignature : MetadataLayout.readNumber data before.length 4 =
      .ok MetadataLayout.signature := by
    have hdata : data = before ++ (Bytes.ofNumber 4 MetadataLayout.signature ++ (r.versions ++
        (Bytes.ofNumber 4 r.version.length ++ (r.version ++ (Bytes.ofNumber 2 r.flags.toNat ++
          (Bytes.ofNumber 2 r.streams.length ++ headers)))))) := by
      simp only [data, headers, bytes, head, List.append_assoc]
    exact MetadataLayout.readNumber_of_eq hdata rfl (by decide)
  have hversion : MetadataLayout.readNumber data (before.length + 12) 4 =
      .ok r.version.length := by
    have hdata : data = before ++ Bytes.ofNumber 4 MetadataLayout.signature ++ r.versions ++
        (Bytes.ofNumber 4 r.version.length ++ (r.version ++ (Bytes.ofNumber 2 r.flags.toNat ++
          (Bytes.ofNumber 2 r.streams.length ++ headers)))) := by
      simp only [data, headers, bytes, head, List.append_assoc]
    exact MetadataLayout.readNumber_of_eq hdata (by simp [length_versions]) r.version_fits
  have hcount : MetadataLayout.readNumber data (before.length + 16 + r.version.length + 2) 2 =
      .ok r.streams.length := by
    have hdata : data = before ++ Bytes.ofNumber 4 MetadataLayout.signature ++ r.versions ++
        Bytes.ofNumber 4 r.version.length ++ r.version ++ Bytes.ofNumber 2 r.flags.toNat ++
        (Bytes.ofNumber 2 r.streams.length ++ headers) := by
      simp only [data, headers, bytes, head, List.append_assoc]
    refine MetadataLayout.readNumber_of_eq hdata ?_ r.streams_fit
    simp only [List.length_append, Bytes.length_ofNumber, length_versions]
    omega
  have hhead : (before.length : Int) + 16 + r.version.length + 4 = (before ++ r.head).length := by
    rw [List.length_append, length_head]
    omega
  have hdata : data = before ++ r.head ++ headers := by
    simp only [data, headers, bytes, List.append_assoc]
  unfold MetadataLayout.readRoot
  rw [show before ++ (r.bytes ++ after) = data from rfl, hsignature, Sequence.ok_bind,
    if_neg (by simp)]
  simp only [hversion, Sequence.ok_bind, hcount, hhead]
  rw [hdata]
  rfl

variable {r}

/-- Filling names up to a multiple of four bytes of the file, the streams of a root are read when it
stands at such a multiple, and when it has no second stream. -/
theorem readRoot_alignedNext {before : Bytes}
    (h : 4 ∣ before.length ∨ r.streams.length ≤ 1) (after : Bytes) :
    MetadataLayout.readRoot MetadataLayout.alignedNext (before ++ (r.bytes ++ after))
      before.length = .ok (r.streams, none) := by
  rw [r.readRoot_append]
  congr 1
  rcases h with haligned | hshort
  · refine MetadataLayout.readStreams_append r.stated _ _ ?_
    rw [List.length_append]
    exact Nat.dvd_add haligned r.four_dvd_length_head
  · have hstated := r.stated
    match hstreams : r.streams, hshort with
    | [], _ => rfl
    | [s], _ =>
      rw [hstreams] at hstated
      simp only [List.flatMap_cons, List.flatMap_nil, List.append_nil, List.length_singleton]
      rw [MetadataLayout.readStreams_cons (hstated s List.mem_cons_self)]
      rfl

/-- From a root at another offset the first header is read, and the second one is looked for where
it does not stand. -/
theorem readRoot_unaligned {before : Bytes} (h : ¬ 4 ∣ before.length) {s t : MetadataStream}
    {rest : List MetadataStream} (hstreams : r.streams = s :: t :: rest) (after : Bytes) :
    ∃ wrong : Int, wrong ≠ (before.length + r.head.length + s.header.length : Nat) ∧
      MetadataLayout.readRoot MetadataLayout.alignedNext (before ++ (r.bytes ++ after))
        before.length = .ok
          (s :: (MetadataLayout.readStreams MetadataLayout.alignedNext
              (before ++ (r.bytes ++ after)) (rest.length + 1) wrong).1,
            (MetadataLayout.readStreams MetadataLayout.alignedNext
              (before ++ (r.bytes ++ after)) (rest.length + 1) wrong).2) := by
  let front := before ++ r.head
  let more := (t :: rest).flatMap MetadataStream.header ++ after
  have hdata : before ++ (r.bytes ++ after) = front ++ (s.header ++ more) := by
    simp only [front, more, bytes, hstreams, List.flatMap_cons, List.append_assoc]
  have hunaligned : ¬ 4 ∣ front.length := by
    rw [List.length_append]
    exact fun hfour => h ((Nat.dvd_add_left r.four_dvd_length_head).mp hfour)
  refine ⟨MetadataLayout.alignedNext front.length (front.length + 8 + s.nameBytes.length), ?_, ?_⟩
  · rw [← List.length_append]
    exact MetadataLayout.alignedNext_ne hunaligned s _
  · have hread := r.readRoot_append MetadataLayout.alignedNext before after
    have hheaders : before ++ r.head ++ (r.streams.flatMap MetadataStream.header ++ after) =
        front ++ (s.header ++ more) := by
      simp only [front, more, hstreams, List.flatMap_cons, List.append_assoc]
    rw [hheaders, hstreams, List.length_cons, MetadataLayout.readStreams_cons
      (r.stated s (hstreams ▸ List.mem_cons_self))] at hread
    rw [hread, hdata]
    rfl

/-- A root that stands in a file stands between what is in front of it and what is behind it. -/
theorem exists_append {data : Bytes} {start : Nat}
    (h : Bytes.slice data start r.bytes.length = r.bytes) :
    ∃ before after, data = before ++ (r.bytes ++ after) ∧ before.length = start := by
  have hne : r.bytes ≠ [] := by
    rw [← List.length_pos_iff, bytes, List.length_append, r.length_head]
    omega
  exact Bytes.exists_append_of_slice h (Bytes.le_length_of_slice h hne)

end MetadataRoot

/-! ### The streams by name -/

namespace MetadataStream

variable {streams : List MetadataStream}

/-- What is left is of each name the first stream. -/
theorem mem_distinct {s : MetadataStream} :
    s ∈ distinct streams ↔ first? streams s.name = some s := by
  induction streams with
  | nil => simp [distinct, first?]
  | cons t rest ih =>
    rw [first?] at ih ⊢
    by_cases hname : t.name = s.name
    · rw [List.find?_cons_of_pos (by simpa using hname)]
      simp [distinct, hname, eq_comm]
    · have hne : s ≠ t := fun h => hname (h ▸ rfl)
      rw [List.find?_cons_of_neg (by simpa using hname), ← ih]
      simp [distinct, hne, Ne.symm hname]

/-- No name is left twice. -/
theorem nodup_distinct (streams : List MetadataStream) :
    ((distinct streams).map (·.name)).Nodup := by
  induction streams with
  | nil => simp [distinct]
  | cons t rest ih =>
    rw [distinct, List.map_cons, List.nodup_cons]
    refine ⟨?_, ih.sublist (List.filter_sublist.map _)⟩
    intro h
    obtain ⟨s, hs, hname⟩ := List.mem_map.mp h
    exact absurd hname (by simpa using (List.mem_filter.mp hs).2)

/-- There is a first stream of each name that occurs. -/
theorem exists_first? {name : String} (h : ∃ s ∈ streams, s.name = name) :
    ∃ s, first? streams name = some s ∧ s ∈ streams ∧ s.name = name := by
  obtain ⟨t, ht, hname⟩ := h
  have hsome : (first? streams name).isSome := by
    rw [first?, List.find?_isSome]
    exact ⟨t, ht, by simpa using hname⟩
  obtain ⟨s, hs⟩ := Option.isSome_iff_exists.mp hsome
  exact ⟨s, hs, List.mem_of_find?_eq_some hs, by simpa using List.find?_some hs⟩

end MetadataStream

namespace MetadataLayout

/-- A layout lists of each name the first stream. -/
theorem mem_listed {m : MetadataLayout} {s : MetadataStream} :
    s ∈ m.listed ↔ MetadataStream.first? m.streams s.name = some s := by
  rw [listed, List.mem_mergeSort, MetadataStream.mem_distinct]

/-- It lists no name twice. -/
theorem nodup_listed (m : MetadataLayout) : (m.listed.map (·.name)).Nodup :=
  ((List.mergeSort_perm _ _).map _).nodup_iff.mpr (MetadataStream.nodup_distinct m.streams)

/-- The names by which streams are listed are those of all streams. -/
theorem exists_mem_listed {m : MetadataLayout} {name : String} :
    (∃ s ∈ m.listed, s.name = name) ↔ ∃ s ∈ m.streams, s.name = name := by
  constructor
  · rintro ⟨s, hs, rfl⟩
    exact ⟨s, List.mem_of_find?_eq_some (mem_listed.mp hs), rfl⟩
  · intro h
    obtain ⟨s, hs, -, rfl⟩ := MetadataStream.exists_first? h
    exact ⟨s, mem_listed.mpr hs, rfl⟩

/-- A root with a stream of tables has one that is read. -/
theorem exists_tablesStream {streams : List MetadataStream}
    (h : ∃ s ∈ streams, s.name = "#~" ∨ s.name = "#-") :
    ∃ stream, tablesStream streams = .ok stream := by
  obtain ⟨s, hs, hname⟩ := h
  unfold tablesStream
  cases hpacked : MetadataStream.first? streams "#~" with
  | some stream => exact ⟨stream, rfl⟩
  | none =>
    cases hloose : MetadataStream.first? streams "#-" with
    | some stream => exact ⟨stream, rfl⟩
    | none =>
      have hmissing : ∀ name, s.name = name → MetadataStream.first? streams name ≠ none := by
        intro name hn hnone
        obtain ⟨t, ht, -⟩ := MetadataStream.exists_first? ⟨s, hs, hn⟩
        rw [hnone] at ht
        cases ht
      exact hname.elim (fun hn => absurd hpacked (hmissing _ hn))
        fun hn => absurd hloose (hmissing _ hn)

variable {data : Bytes} {offsetOf : Int → Option Int} {directories : List Int} {header : Int}

/-- The streams of a root that stands in a file. When it stands at a multiple of four bytes, or has
no second stream, there is a layout unless the head of the tables cannot be read. The layout lists
the streams by name: exactly the names of the root, each once, with the first stream of the name,
which starts where it does in the root, counted from the root. When the root stands elsewhere, the
second header is looked for where it does not stand. -/
theorem ofDirectories_of_root {r : MetadataRoot} {start : Nat}
    (locates : Locates data offsetOf directories header start)
    (hstands : Bytes.slice data start r.bytes.length = r.bytes)
    (htables : ∃ s ∈ r.streams, s.name = "#~" ∨ s.name = "#-") :
    (4 ∣ start ∨ r.streams.length ≤ 1 → ∃ stream, tablesStream r.streams = .ok stream ∧
      (∀ e, readTables data (start + stream.start) = .error e →
        ofDirectories data offsetOf directories = .error e) ∧
      ∀ sizes tables, readTables data (start + stream.start) = .ok (sizes, tables) →
        ∃ layout, ofDirectories data offsetOf directories = .ok layout ∧
          (∀ name, (∃ s ∈ layout.listed, s.name = name) ↔ ∃ s ∈ r.streams, s.name = name) ∧
          (layout.listed.map (·.name)).Nodup ∧
          ∀ s ∈ layout.listed, MetadataStream.first? r.streams s.name = some s ∧
            layout.offsetOf s = start + s.start) ∧
    (¬ 4 ∣ start → ∀ s t rest, r.streams = s :: t :: rest →
      ∃ wrong : Int, wrong ≠ (start + r.head.length + s.header.length : Nat) ∧
        readRoot alignedNext data start = .ok
          (s :: (readStreams alignedNext data (rest.length + 1) wrong).1,
            (readStreams alignedNext data (rest.length + 1) wrong).2)) := by
  obtain ⟨before, after, rfl, rfl⟩ := MetadataRoot.exists_append hstands
  refine ⟨fun hplace => ?_, fun hplace s t rest hstreams =>
    MetadataRoot.readRoot_unaligned hplace hstreams after⟩
  have hread := MetadataRoot.readRoot_alignedNext hplace after
  obtain ⟨stream, hstream⟩ := exists_tablesStream htables
  have hlayout := locates.ofDirectories_eq.trans (ofRoot_eq hread hstream)
  refine ⟨stream, hstream, fun e he => ?_, fun sizes tables hsizes => ?_⟩
  · rw [hlayout, he]
    rfl
  · rw [hsizes] at hlayout
    exact ⟨_, hlayout, fun name => exists_mem_listed, nodup_listed _,
      fun s hs => ⟨mem_listed.mp hs, rfl⟩⟩

end MetadataLayout

/-! A root with three streams, two of which have the same name. -/

namespace ThreeStreams

/-- The root. -/
def root : MetadataRoot where
  majorVersion := 1
  minorVersion := 1
  reserved := 0
  version := [0x76, 0x34, 0, 0]
  flags := 0
  streams := [⟨"#~", 60, 24⟩, ⟨"#US", 84, 16⟩, ⟨"#US", 100, 4⟩]
  version_aligned := by decide
  version_fits := by decide
  streams_fit := by decide
  stated := by decide

/-- A file with the header of the runtime, the root at an offset and an empty table stream. -/
def fileAt (start : Nat) : Bytes :=
  Bytes.zeros 8 ++ Bytes.ofNumber 4 (0x2000 + start) ++ Bytes.zeros (start - 12) ++
    (root.bytes ++ Bytes.zeros 24)

/-- The directories lead to the root, at a multiple of four bytes or not. -/
theorem locates (start : Nat) (h : start = 72 ∨ start = 74) :
    MetadataLayout.Locates (fileAt start) WideTables.loaded? WideTables.directories 0 start where
  directory := ⟨0x2000, rfl, by decide, rfl⟩
  inside := by rcases h with rfl | rfl <;> decide +kernel
  metadata := by rcases h with rfl | rfl <;> decide +kernel

/-- The root stands there. -/
theorem stands (start : Nat) (h : start = 72 ∨ start = 74) :
    Bytes.slice (fileAt start) start root.bytes.length = root.bytes := by
  rcases h with rfl | rfl <;> decide +kernel

/-- The tables stand behind it. -/
theorem readTables_eq (start : Nat) (h : start = 72 ∨ start = 74) :
    MetadataLayout.readTables (fileAt start) (start + 60) =
      .ok ({ heapFlags := 0, rowCounts := [] }, start + 84) := by
  rcases h with rfl | rfl <;> exact Sequence.toOption_eq_some.mp (by decide +kernel)

theorem exists_tables : ∃ s ∈ root.streams, s.name = "#~" ∨ s.name = "#-" :=
  ⟨⟨"#~", 60, 24⟩, List.mem_cons_self, Or.inl rfl⟩

theorem tablesStream_eq : MetadataLayout.tablesStream root.streams = .ok ⟨"#~", 60, 24⟩ :=
  Sequence.toOption_eq_some.mp (by decide +kernel)

end ThreeStreams

namespace MetadataLayout

open ThreeStreams

/-- At offset 72 both names are listed, the second one with the first stream of the name; at offset
74 the second header is missed. -/
theorem ofDirectories_of_threeStreams :
    (∃ layout, ofDirectories (fileAt 72) WideTables.loaded? WideTables.directories = .ok layout ∧
      (∃ s ∈ layout.listed, s.name = "#~" ∧ layout.offsetOf s = 132) ∧
      (∃ s ∈ layout.listed, s.name = "#US" ∧ layout.offsetOf s = 156 ∧ s.size = 16) ∧
      ¬ ∃ s ∈ layout.listed, s.name = "#Blob") ∧
    ∃ wrong : Int, wrong ≠ 110 ∧ readRoot alignedNext (fileAt 74) 74 = .ok
      (⟨"#~", 60, 24⟩ :: (readStreams alignedNext (fileAt 74) 2 wrong).1,
        (readStreams alignedNext (fileAt 74) 2 wrong).2) := by
  constructor
  · obtain ⟨stream, hstream, -, hread⟩ := (ofDirectories_of_root (locates 72 (by decide))
      (stands 72 (by decide)) exists_tables).1 (by decide)
    rw [tablesStream_eq] at hstream
    cases hstream
    obtain ⟨layout, hlayout, hnames, -, hfirst⟩ := hread _ _ (readTables_eq 72 (by decide))
    refine ⟨layout, hlayout, ?_, ?_, fun h => ?_⟩
    · obtain ⟨s, hs, hname⟩ := (hnames "#~").mpr (by decide)
      obtain ⟨hstream, hoffset⟩ := hfirst s hs
      rw [hname, show MetadataStream.first? ThreeStreams.root.streams "#~" =
        some ⟨"#~", 60, 24⟩ by decide] at hstream
      cases hstream
      exact ⟨_, hs, rfl, hoffset⟩
    · obtain ⟨s, hs, hname⟩ := (hnames "#US").mpr (by decide)
      obtain ⟨hstream, hoffset⟩ := hfirst s hs
      rw [hname, show MetadataStream.first? ThreeStreams.root.streams "#US" =
        some ⟨"#US", 84, 16⟩ by decide] at hstream
      cases hstream
      exact ⟨_, hs, rfl, hoffset, rfl⟩
    · exact absurd ((hnames "#Blob").mp h) (by decide)
  · exact (ofDirectories_of_root (locates 74 (by decide)) (stands 74 (by decide))
      exists_tables).2 (by decide) _ _ _ rfl

/-- The names that are listed need not be those of the root. -/
theorem ofDirectories_misses_stream :
    ¬ ∀ (data : Bytes) (offsetOf : Int → Option Int) (directories : List Int) (header : Int)
      (start : Nat) (r : MetadataRoot), Locates data offsetOf directories header start →
      Bytes.slice data start r.bytes.length = r.bytes →
      ∀ stream sizes tables, tablesStream r.streams = .ok stream →
      readTables data (start + stream.start) = .ok (sizes, tables) →
      ∃ layout, ofDirectories data offsetOf directories = .ok layout ∧
        ∀ name, (∃ s ∈ layout.listed, s.name = name) ↔ ∃ s ∈ r.streams, s.name = name := by
  intro h
  obtain ⟨layout, hlayout, hnames⟩ := h _ _ _ _ 74 ThreeStreams.root (locates 74 (by decide))
    (stands 74 (by decide)) _ _ _ tablesStream_eq (readTables_eq 74 (by decide))
  have hread : ofDirectories (fileAt 74) WideTables.loaded? WideTables.directories =
      .ok ⟨0, 74, [⟨"#~", 60, 24⟩, ⟨"S", 0x100000, 0x55230000⟩, ⟨"S", 0x40000, 0x55230000⟩],
        { heapFlags := 0, rowCounts := [] }, 158⟩ :=
    Sequence.toOption_eq_some.mp (by decide +kernel)
  cases hread.symm.trans hlayout
  have hlisted := exists_mem_listed.mp ((hnames "#US").mpr (by decide))
  exact absurd hlisted (by decide)

end MetadataLayout

end CilRestore
