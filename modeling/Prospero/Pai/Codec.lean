import Prospero.Pai.Container

/-!
# Containers are read back

`pai_pai_open` inverts `pai_pai_build` (`paiPaiOpen_build`): the section table lists the payloads one
after the other, so that no pair of entries conflicts and each entry is found under its type.

For any byte string, `pai_pai_open` reads only inside it, and the sections it accepts have distinct
types and payloads inside the file, behind the table and apart from each other
(`post_paiPaiOpen`).  Their ends are compared in 32-bit arithmetic, which is exact because an accepted
payload ends inside the file.
-/

namespace Prospero

open Buffer ByteString Reader

/-! ## What is accepted -/

/-- The payload is behind the table and inside the file. -/
structure PaiSection.Inside (s : PaiSection) (tableEnd size : ℕ) : Prop where
  /-- Behind the table. -/
  table_le : tableEnd ≤ s.offset.toNat
  /-- Inside the file. -/
  le_size : s.offset.toNat + s.size.toNat ≤ size

/-- Two sections of different types with disjoint payloads. -/
structure PaiSection.Apart (s t : PaiSection) : Prop where
  /-- The types differ. -/
  type_ne : s.type ≠ t.type
  /-- One payload ends before the other starts. -/
  disjoint : s.offset.toNat + s.size.toNat ≤ t.offset.toNat ∨
    t.offset.toNat + t.size.toNat ≤ s.offset.toNat

/-- The end of a payload inside a file of less than four gigabytes does not wrap. -/
lemma PaiSection.toNat_end {s : PaiSection} {tableEnd size : ℕ} (h : s.Inside tableEnd size)
    (hsize : size < 2 ^ 32) : (s.offset + s.size).toNat = s.offset.toNat + s.size.toNat := by
  have hle := h.le_size
  rw [UInt32.toNat_add, Nat.mod_eq_of_lt (by omega)]

/-- Without a conflict two sections inside the file are apart, and conversely. -/
lemma PaiSection.conflicts_eq_false_iff {s prev : PaiSection} {tableEnd size : ℕ}
    (hs : s.Inside tableEnd size) (hprev : prev.Inside tableEnd size) (hsize : size < 2 ^ 32) :
    s.conflicts prev = false ↔ prev.Apart s := by
  have hsend := s.toNat_end hs hsize
  have hpend := prev.toNat_end hprev hsize
  unfold PaiSection.conflicts
  rw [Bool.or_eq_false_iff, beq_eq_false_iff_ne, Bool.and_eq_false_iff, decide_eq_false_iff_not,
    decide_eq_false_iff_not, UInt32.not_lt, UInt32.not_lt, UInt32.le_iff_toNat_le,
    UInt32.le_iff_toNat_le, hsend, hpend]
  constructor
  · rintro ⟨htype, hdisj⟩
    exact ⟨htype, hdisj⟩
  · rintro ⟨htype, hdisj⟩
    exact ⟨htype, hdisj⟩

lemma post_sectionAt {data : List UInt8} {i : ℕ} (h : paiPaiHeaderSize + i * 16 + 16 ≤ data.length) :
    Post (sectionAt data i) fun _ => True := by
  unfold sectionAt
  refine Post.bind (post_u32At (by omega)) fun type _ _ => ?_
  refine Post.bind (post_u32At (by omega)) fun flags _ _ => ?_
  refine Post.bind (post_u32At (by omega)) fun offset _ _ => ?_
  refine Post.bind (post_u32At (by omega)) fun size _ _ => ?_
  exact post_ok trivial

/-- The table loop keeps the sections inside and apart. -/
lemma post_openSections {data : List UInt8} {tableBytes n : ℕ} {prev : List PaiSection}
    (hsize : data.length < 2 ^ 32) (htable : paiPaiHeaderSize + tableBytes ≤ data.length)
    (hn : (prev.length + n) * 16 ≤ tableBytes)
    (hinside : ∀ s ∈ prev, s.Inside (paiPaiHeaderSize + tableBytes) data.length)
    (hapart : prev.Pairwise PaiSection.Apart) :
    Post (openSections data tableBytes n prev) fun sections =>
      sections.length = prev.length + n ∧
      (∀ s ∈ sections, s.Inside (paiPaiHeaderSize + tableBytes) data.length) ∧
        sections.Pairwise PaiSection.Apart := by
  induction n generalizing prev with
  | zero => exact ⟨rfl, hinside, hapart⟩
  | succ n ih =>
    rw [openSections]
    refine Post.bind (post_sectionAt (by omega)) fun s _ _ => ?_
    refine post_refuse_bind fun _ => ?_
    refine post_refuse_bind fun _ => ?_
    refine post_refuse_bind fun hbehind => ?_
    refine post_refuse_bind fun hend => ?_
    refine post_refuse_bind fun hconflict => ?_
    have hs : s.Inside (paiPaiHeaderSize + tableBytes) data.length := ⟨by omega, by omega⟩
    have hlen : (prev ++ [s]).length = prev.length + 1 := by
      rw [List.length_append, List.length_singleton]
    refine (@ih (prev ++ [s]) ?_ ?_ ?_).mono fun sections hsections => ?_
    · omega
    · intro t ht
      rcases List.mem_append.mp ht with ht | ht
      · exact hinside t ht
      · rw [List.mem_singleton.mp ht]
        exact hs
    · rw [List.pairwise_append]
      refine ⟨hapart, List.pairwise_singleton _ _, fun t ht u hu => ?_⟩
      rw [List.mem_singleton.mp hu]
      rw [Bool.not_eq_true, List.any_eq_false] at hconflict
      have hfree : s.conflicts t = false := by simpa using hconflict t ht
      exact (PaiSection.conflicts_eq_false_iff hs (hinside t ht) hsize).mp hfree
    · exact ⟨by omega, hsections.2⟩

/-- `pai_pai_open` reads inside its input, and what it accepts is well formed. -/
lemma post_paiPaiOpen {data : List UInt8} (hsize : data.length < 2 ^ 32) :
    Post (paiPaiOpen data) fun container =>
      (∀ s ∈ container.sections,
        s.Inside (paiPaiHeaderSize + container.sections.length * 16) data.length) ∧
      container.sections.Pairwise PaiSection.Apart := by
  unfold paiPaiOpen
  refine post_refuse_bind fun hlen => ?_
  have hheader : 16 ≤ data.length := not_lt.mp hlen
  refine Post.bind (post_u32At (by omega)) fun magic _ _ => ?_
  refine Post.bind (post_u16At (by omega)) fun version _ _ => ?_
  refine post_refuse_bind fun _ => ?_
  refine Post.bind (post_u16At (by omega)) fun flags _ _ => ?_
  refine post_refuse_bind fun _ => ?_
  refine Post.bind (post_u32At (by omega)) fun numSections _ _ => ?_
  refine post_refuse_bind fun _ => ?_
  refine Post.bind (post_u32At (by omega)) fun expectedCrc _ _ => ?_
  refine post_refuse_bind fun htable => ?_
  refine Post.bind (@post_openSections data _ numSections.toNat [] hsize
    (not_lt.mp htable) (by simp) (by simp) List.Pairwise.nil) fun sections _ hsections => ?_
  obtain ⟨hcount, hinside, hapart⟩ := hsections
  refine Post.bind (post_bytesAt (by omega)) fun header _ _ => ?_
  refine Post.bind (post_bytesAt (by omega)) fun rest _ _ => ?_
  refine post_refuse_bind fun _ => ?_
  rw [List.length_nil, Nat.zero_add] at hcount
  rw [← hcount] at hinside
  exact post_ok ⟨hinside, hapart⟩

/-! ## What is written -/

/-- A builder whose container is read back. -/
structure Buildable (builder : List BuilderSection) : Prop where
  /-- There is a section. -/
  pos : 0 < builder.length
  /-- The table has room. -/
  length_le : builder.length ≤ paiPaiMaxSections
  /-- The types are valid. -/
  type_valid : ∀ s ∈ builder, s.type ≠ 0 ∧ s.type ≤ paiPaiSecProfile
  /-- Only the weights carry a flag. -/
  flags_valid : ∀ s ∈ builder,
    s.flags = 0 ∨ (s.type = paiPaiSecWeights ∧ s.flags = paiPaiSecFlagCompressed)
  /-- No type is used twice. -/
  types_distinct : builder.Pairwise fun s t => s.type ≠ t.type
  /-- The payloads are given in full. -/
  size_eq : ∀ s ∈ builder, s.data.length = s.size.toNat
  /-- The container is smaller than four gigabytes. -/
  total_lt : paiPaiHeaderSize + builder.length * 16 +
    (builder.map fun s => s.size.toNat).sum < 2 ^ 32

/-- The table entries of sections whose payloads start at `cursor`. -/
def tableEntries : ℕ → List BuilderSection → List PaiSection
  | _, [] => []
  | cursor, s :: ss =>
    ⟨s.type, s.flags, UInt32.ofNat cursor, s.size⟩ :: tableEntries (cursor + s.size.toNat) ss

lemma length_sectionTable (cursor : ℕ) (builder : List BuilderSection) :
    (sectionTable cursor builder).length = builder.length * 16 := by
  induction builder generalizing cursor with
  | nil => rfl
  | cons s ss ih =>
    simp only [sectionTable, List.length_append, length_leBytes, ih, List.length_cons]
    omega

lemma length_payloads {builder : List BuilderSection}
    (h : ∀ s ∈ builder, s.data.length = s.size.toNat) :
    (builder.flatMap fun s => s.data.take s.size.toNat).length =
      (builder.map fun s => s.size.toNat).sum := by
  induction builder with
  | nil => rfl
  | cons s ss ih =>
    have hs := h s List.mem_cons_self
    rw [List.flatMap_cons, List.length_append, ih fun t ht => h t (List.mem_cons_of_mem s ht),
      List.map_cons, List.sum_cons, List.length_take, hs, min_self]

/-- A table entry that the writer stored is read back. -/
lemma sectionAt_of_holds {data rest : List UInt8} {i : ℕ} {type flags offset size : UInt32}
    (h : Holds data (paiPaiHeaderSize + i * 16)
      (u32le type ++ (u32le flags ++ (u32le offset ++ (u32le size ++ rest))))) :
    sectionAt data i = .ok ⟨type, flags, offset, size⟩ ∧
      Holds data (paiPaiHeaderSize + (i + 1) * 16) rest := by
  obtain ⟨htype, h⟩ := h.u32 (ε := PaiStatus)
  obtain ⟨hflags, h⟩ := h.u32 (ε := PaiStatus)
  obtain ⟨hoffset, h⟩ := h.u32 (ε := PaiStatus)
  obtain ⟨hsize, h⟩ := h.u32 (ε := PaiStatus)
  constructor
  · rw [sectionAt, htype, ok_bind, hflags, ok_bind, hoffset, ok_bind, hsize, ok_bind]
  · have hoff : paiPaiHeaderSize + (i + 1) * 16 = paiPaiHeaderSize + i * 16 + 4 + 4 + 4 + 4 := by
      omega
    rw [hoff]
    exact h

/-- The flags the writer is given pass the reader's check. -/
lemma flags_pass {type flags : UInt32}
    (h : flags = 0 ∨ (type = paiPaiSecWeights ∧ flags = paiPaiSecFlagCompressed)) :
    ¬ (flags ≠ 0 ∧ (type ≠ paiPaiSecWeights ∨ flags &&& ~~~paiPaiSecFlagCompressed ≠ 0)) := by
  rcases h with hzero | ⟨htype, hflags⟩
  · exact fun hc => hc.1 hzero
  · rintro ⟨-, hne | hmask⟩
    · exact hne htype
    · rw [hflags] at hmask
      exact hmask (by decide)

/-- The table loop accepts the table that the writer stored: the payloads follow each other, so that
every entry starts where the entries before it have ended. -/
lemma openSections_of_holds {data : List UInt8} {tableBytes cursor : ℕ} {prev : List PaiSection}
    {builder : List BuilderSection} (hsize : data.length < 2 ^ 32)
    (hholds : Holds data (paiPaiHeaderSize + prev.length * 16) (sectionTable cursor builder))
    (htable : paiPaiHeaderSize + tableBytes ≤ cursor)
    (hend : cursor + (builder.map fun s => s.size.toNat).sum ≤ data.length)
    (htype : ∀ s ∈ builder, s.type ≠ 0 ∧ s.type ≤ paiPaiSecProfile)
    (hflags : ∀ s ∈ builder,
      s.flags = 0 ∨ (s.type = paiPaiSecWeights ∧ s.flags = paiPaiSecFlagCompressed))
    (hdistinct : builder.Pairwise fun s t => s.type ≠ t.type)
    (hprev : ∀ p ∈ prev, p.Inside (paiPaiHeaderSize + tableBytes) cursor ∧
      ∀ s ∈ builder, p.type ≠ s.type) :
    openSections data tableBytes builder.length prev = .ok (prev ++ tableEntries cursor builder) := by
  induction builder generalizing cursor prev with
  | nil => rw [tableEntries, List.append_nil]; rfl
  | cons s ss ih =>
    obtain ⟨hentry, hrest⟩ := sectionAt_of_holds hholds
    obtain ⟨htypes, htypess⟩ := List.forall_mem_cons.mp htype
    obtain ⟨hflagss, hflagsss⟩ := List.forall_mem_cons.mp hflags
    obtain ⟨hfirst, hdistinct⟩ := List.pairwise_cons.mp hdistinct
    rw [List.map_cons, List.sum_cons] at hend
    have hoffset : (UInt32.ofNat cursor).toNat = cursor := by
      rw [UInt32.toNat_ofNat', Nat.mod_eq_of_lt (by omega)]
    have hinside : PaiSection.Inside ⟨s.type, s.flags, UInt32.ofNat cursor, s.size⟩
        (paiPaiHeaderSize + tableBytes) (cursor + s.size.toNat) :=
      ⟨by rw [hoffset]; exact htable, by rw [hoffset]⟩
    have hfree : ¬ (prev.any (PaiSection.conflicts ⟨s.type, s.flags, UInt32.ofNat cursor, s.size⟩)
        = true) := by
      rw [Bool.not_eq_true, List.any_eq_false]
      intro p hp
      obtain ⟨hpin, hptype⟩ := hprev p hp
      have hpin' : p.Inside (paiPaiHeaderSize + tableBytes) (cursor + s.size.toNat) :=
        ⟨hpin.table_le, by have := hpin.le_size; omega⟩
      rw [Bool.not_eq_true, PaiSection.conflicts_eq_false_iff hinside hpin' (by omega)]
      refine ⟨hptype s List.mem_cons_self, Or.inl ?_⟩
      change _ ≤ (UInt32.ofNat cursor).toNat
      rw [hoffset]
      exact hpin.le_size
    rw [List.length_cons, openSections, hentry, ok_bind, refuse_bind, refuse_bind, refuse_bind,
      refuse_bind, refuse_bind]
    · rw [@ih (cursor + s.size.toNat)]
      · rw [tableEntries, List.append_assoc, List.singleton_append]
      · rw [List.length_append, List.length_singleton]
        exact hrest
      · omega
      · omega
      · exact htypess
      · exact hflagsss
      · exact hdistinct
      · intro p hp
        rcases List.mem_append.mp hp with hp | hp
        · obtain ⟨hpin, hptype⟩ := hprev p hp
          refine ⟨⟨hpin.table_le, ?_⟩, fun t ht => hptype t (List.mem_cons_of_mem s ht)⟩
          have := hpin.le_size
          omega
        · rw [List.mem_singleton.mp hp]
          exact ⟨hinside, hfirst⟩
    · exact hfree
    · change ¬ data.length < (UInt32.ofNat cursor).toNat + s.size.toNat
      rw [hoffset]
      omega
    · change ¬ (UInt32.ofNat cursor).toNat < _
      rw [hoffset]
      exact not_lt.mpr htable
    · exact flags_pass hflagss
    · rintro (hzero | hlt)
      · exact htypes.1 hzero
      · exact absurd htypes.2 (UInt32.not_le.mpr hlt)

/-- The payload of a section is found under its type. -/
lemma find_tableEntries {data : List UInt8} {cursor : ℕ} {builder : List BuilderSection}
    (hlt : cursor + (builder.map fun s => s.size.toNat).sum < 2 ^ 32)
    (hholds : Holds data cursor (builder.flatMap fun s => s.data.take s.size.toNat))
    (hsize : ∀ s ∈ builder, s.data.length = s.size.toNat)
    (hdistinct : builder.Pairwise fun s t => s.type ≠ t.type) {s : BuilderSection}
    (hs : s ∈ builder) :
    ∃ e, (tableEntries cursor builder).find? (fun e => e.type == s.type) = some e ∧
      e.flags = s.flags ∧ slice data e.offset.toNat e.size.toNat = s.data := by
  induction builder generalizing cursor with
  | nil => exact absurd hs List.not_mem_nil
  | cons t ts ih =>
    obtain ⟨hfirst, hdistinct⟩ := List.pairwise_cons.mp hdistinct
    obtain ⟨hsizet, hsizets⟩ := List.forall_mem_cons.mp hsize
    rw [List.flatMap_cons] at hholds
    obtain ⟨hpayload, hrest⟩ := hholds.split
    rw [List.map_cons, List.sum_cons] at hlt
    have htake : t.data.take t.size.toNat = t.data := by
      rw [← hsizet, List.take_length]
    rw [htake] at hpayload hrest
    rw [hsizet] at hrest
    rw [tableEntries, List.find?_cons]
    rcases List.mem_cons.mp hs with rfl | hs
    · refine ⟨_, by rw [beq_self_eq_true], rfl, ?_⟩
      change slice data (UInt32.ofNat cursor).toNat s.size.toNat = s.data
      rw [UInt32.toNat_ofNat', Nat.mod_eq_of_lt (by omega), ← hsizet]
      exact hpayload.2
    · have hne : (t.type == s.type) = false := beq_eq_false_iff_ne.mpr (hfirst s hs)
      rw [hne]
      exact ih (by omega) hrest hsizets hdistinct hs

namespace Buildable

variable {builder : List BuilderSection} (h : Buildable builder)

include h

lemma encodedSize_eq : paiPaiEncodedSize builder =
    paiPaiHeaderSize + builder.length * 16 + (builder.map fun s => s.size.toNat).sum := by
  have hlt := h.total_lt
  have hle : ¬ 0xFFFFFFFF < paiPaiHeaderSize + builder.length * 16 +
      (builder.map fun s => s.size.toNat).sum := by omega
  exact if_neg hle

/-- The container that `pai_pai_build` writes into a buffer with room. -/
lemma build_of_le {cap : ℕ} (hcap : paiPaiEncodedSize builder ≤ cap) : paiPaiBuild builder cap =
    .ok (containerHeader builder.length ++
      (u32le (containerCrc (containerHeader builder.length) (containerRest builder)) ++
        containerRest builder)) := by
  have hpos := h.pos
  have hsize := h.encodedSize_eq
  have hroom : ¬ (paiPaiEncodedSize builder = 0 ∨ cap < paiPaiEncodedSize builder) := by
    rw [hsize] at hcap ⊢
    omega
  rw [paiPaiBuild, if_neg (by omega)]
  exact if_neg hroom

lemma length_rest : (containerRest builder).length =
    builder.length * 16 + (builder.map fun s => s.size.toNat).sum := by
  rw [containerRest, List.length_append, length_sectionTable, length_payloads h.size_eq]

/-- The written container is opened, with the written table. -/
lemma open_eq {blob : List UInt8} (hblob : blob = containerHeader builder.length ++
      (u32le (containerCrc (containerHeader builder.length) (containerRest builder)) ++
        containerRest builder)) :
    paiPaiOpen blob = .ok ⟨tableEntries (paiPaiHeaderSize + builder.length * 16) builder, blob⟩ ∧
      Holds blob (paiPaiHeaderSize + builder.length * 16)
        (builder.flatMap fun s => s.data.take s.size.toNat) := by
  have hlt := h.total_lt
  have hpos := h.pos
  have hmax : builder.length ≤ 8 := h.length_le
  have hheader : (containerHeader builder.length).length = 12 := by
    simp [containerHeader]
  have hlen : blob.length = paiPaiHeaderSize + builder.length * 16 +
      (builder.map fun s => s.size.toNat).sum := by
    rw [hblob, List.length_append, List.length_append, hheader, length_leBytes, h.length_rest]
    change 12 + (4 + _) = 16 + _ + _
    omega
  have hlen16 : 16 ≤ blob.length := by
    change _ = 16 + _ + _ at hlen
    omega
  have hself : Holds blob 0 (containerHeader builder.length ++
      (u32le (containerCrc (containerHeader builder.length) (containerRest builder)) ++
        containerRest builder)) := by
    rw [← hblob]
    exact holds_self blob
  clear hblob
  obtain ⟨hhead, hcrc⟩ := hself.split
  rw [hheader] at hcrc
  have hheadBytes := bytesAt_of_holds (ε := PaiStatus) hhead hheader
  obtain ⟨hmagic, hhead⟩ := hhead.u32 (ε := PaiStatus)
  obtain ⟨hversion, hhead⟩ := hhead.u16 (ε := PaiStatus)
  obtain ⟨hflags, hhead⟩ := hhead.u16 (ε := PaiStatus)
  rw [← List.append_nil (u32le (UInt32.ofNat builder.length))] at hhead
  obtain ⟨hcount, -⟩ := hhead.u32 (ε := PaiStatus)
  obtain ⟨hexpected, hrest⟩ := hcrc.u32 (ε := PaiStatus)
  have hrestBytes := bytesAt_of_holds (ε := PaiStatus) hrest rfl
  have hrestLen : (containerRest builder).length = blob.length - paiPaiHeaderSize := by
    rw [h.length_rest, hlen]
    omega
  rw [hrestLen] at hrestBytes
  have hnum : (UInt32.ofNat builder.length).toNat = builder.length := by
    rw [UInt32.toNat_ofNat', Nat.mod_eq_of_lt (by omega)]
  rw [containerRest] at hrest
  obtain ⟨htable, hpayloads⟩ := hrest.split
  rw [length_sectionTable] at hpayloads
  have hopen := @openSections_of_holds blob (builder.length * 16) _ [] _
    (by omega) htable le_rfl hlen.ge h.type_valid h.flags_valid h.types_distinct (by simp)
  refine ⟨?_, hpayloads⟩
  rw [paiPaiOpen, refuse_bind _ (not_lt.mpr hlen16), hmagic, ok_bind, hversion, ok_bind,
    refuse_bind _ (not_not.mpr rfl), hflags, ok_bind, refuse_bind _ (by decide), hcount, ok_bind,
    hnum, refuse_bind, hexpected, ok_bind]
  · dsimp only
    rw [refuse_bind, hopen, ok_bind, hheadBytes, ok_bind, hrestBytes, ok_bind,
      refuse_bind _ (not_not.mpr rfl), List.nil_append]
    · omega
  · rintro (hzero | hover)
    · rw [hzero] at hnum
      exact absurd hnum hpos.ne
    · exact absurd hover (not_lt.mpr h.length_le)

end Buildable

/-- A container is written and read back: `pai_pai_build` fills a buffer of `pai_pai_encoded_size`
bytes, and `pai_pai_open` finds every section in it with its bytes and flags.  Any byte string is read
inside its bounds, and one that is accepted has sections of distinct types whose payloads lie behind
the table, inside the file and apart from each other. -/
theorem paiPaiOpen_build :
    (∀ builder : List BuilderSection, Buildable builder →
      ∃ blob container, paiPaiBuild builder (paiPaiEncodedSize builder) = .ok blob ∧
        blob.length = paiPaiEncodedSize builder ∧ paiPaiOpen blob = .ok container ∧
        ∀ s ∈ builder, paiPaiSection container s.type = some s.data ∧
          paiPaiSectionFlags container s.type = s.flags) ∧
    ∀ data : List UInt8, data.length < 2 ^ 32 →
      paiPaiOpen data ≠ .error .outOfRange ∧
      ∀ container, paiPaiOpen data = .ok container →
        (∀ s ∈ container.sections,
          s.Inside (paiPaiHeaderSize + container.sections.length * 16) data.length) ∧
        container.sections.Pairwise PaiSection.Apart := by
  constructor
  · intro builder h
    obtain ⟨hopen, hpayloads⟩ := h.open_eq rfl
    refine ⟨_, _, h.build_of_le le_rfl, ?_, hopen, ?_⟩
    · rw [h.encodedSize_eq, List.length_append, List.length_append, h.length_rest, length_leBytes]
      simp only [containerHeader, List.length_append, length_leBytes, paiPaiHeaderSize]
      omega
    · intro s hs
      obtain ⟨e, hfind, hflags, hslice⟩ :=
        find_tableEntries h.total_lt hpayloads h.size_eq h.types_distinct hs
      rw [paiPaiSection, paiPaiSectionFlags, PaiContainer.find, hfind, Option.map_some, hslice]
      exact ⟨rfl, hflags⟩
  · intro data hsize
    have hpost := post_paiPaiOpen hsize
    exact ⟨hpost.ne_outOfRange, fun container hopen => hpost.of_ok hopen⟩

/-- One compressed section and an empty one. -/
theorem paiPaiOpen_build_two :
    (∃ blob container,
      paiPaiBuild [⟨3, 1, [7, 8, 9], 3⟩, ⟨5, 0, [], 0⟩] 51 = .ok blob ∧
      paiPaiOpen blob = .ok container ∧ paiPaiSection container 3 = some [7, 8, 9] ∧
      paiPaiSectionFlags container 3 = 1 ∧ paiPaiSection container 5 = some []) ∧
    paiPaiOpen [] ≠ .error .outOfRange := by
  have hbuildable : Buildable [⟨3, 1, [7, 8, 9], 3⟩, ⟨5, 0, [], 0⟩] :=
    ⟨by decide, by decide, by decide, by decide, by decide, by decide, by decide⟩
  obtain ⟨blob, container, hbuild, -, hopen, hsections⟩ := paiPaiOpen_build.1 _ hbuildable
  have hweights := hsections _ List.mem_cons_self
  have htok := hsections _ (List.mem_cons_of_mem _ List.mem_cons_self)
  refine ⟨⟨blob, container, hbuild, hopen, hweights.1, hweights.2, htok.1⟩, ?_⟩
  exact (paiPaiOpen_build.2 [] (by decide)).1

end Prospero
