import TrainsOs.Loader.Segments

/-!
# Relocations

`DT_RELA` is a virtual address, and the reader takes it for an offset in the file. So the
loader applies the relocations of the table that lies at that offset, which is the table
of the file when its segment has the same offset and address.
-/

namespace TrainsOs.Loader

/-! ### What a table stores -/

/-- The entry stores at the address `a`. -/
def Elf64Rela.Covers (e : Elf64Rela) (diff a : Addr) : Prop :=
  e.rType = rAarch64Relativ ∧ Within (e.rOffset + diff) 8 a

instance (e : Elf64Rela) (diff a : Addr) : Decidable (e.Covers diff a) :=
  inferInstanceAs (Decidable (_ ∧ _))

/-- The byte that the entry stores there: one of the addend and the difference of the
bases. -/
def Elf64Rela.byte (e : Elf64Rela) (diff a : Addr) : UInt8 :=
  UInt8.ofNat ((e.rAddend + diff).toNat / 256 ^ (a - (e.rOffset + diff)).toNat)

/-- The byte that the last entry stores that covers the address. -/
def finalByte (table : List Elf64Rela) (diff a : Addr) : Option UInt8 :=
  ((table.filter fun e => e.Covers diff a).getLast?).map fun e => e.byte diff a

/-- No two entries store at the same address. -/
def Separate (table : List Elf64Rela) (diff : Addr) : Prop :=
  table.Pairwise fun e e' => ∀ a, e.Covers diff a → ¬ e'.Covers diff a

section Tables

variable {table table' : List Elf64Rela} {diff a : Addr} {e : Elf64Rela}

theorem finalByte_cons :
  finalByte (e :: table) diff a
    = (finalByte table diff a).or (if e.Covers diff a then some (e.byte diff a) else none)
  := by
  rw [finalByte, finalByte, List.filter_cons]
  by_cases hcov : e.Covers diff a
  · rw [if_pos (decide_eq_true hcov), if_pos hcov, List.getLast?_cons]
    cases (table.filter fun e => e.Covers diff a).getLast? <;> rfl
  · rw [if_neg (by rwa [decide_eq_true_iff]), if_neg hcov, Option.or_none]

/-- An entry that shares no address stores its bytes. -/
theorem Separate.finalByte_eq (h : Separate table diff) (he : e ∈ table) (hcov : e.Covers diff a) :
  finalByte table diff a = some (e.byte diff a)
  := by
  induction table with
  | nil => cases he
  | cons e' table ih =>
    obtain ⟨hfirst, h⟩ := List.pairwise_cons.mp h
    rw [finalByte_cons]
    rcases List.mem_cons.mp he with rfl | he
    · have hnone : finalByte table diff a = none := by
        rw [finalByte, Option.map_eq_none_iff, List.getLast?_eq_none_iff, List.filter_eq_nil_iff]
        intro e' he' hcov'
        exact hfirst e' he' a hcov (of_decide_eq_true hcov')
      rw [hnone, Option.none_or, if_pos hcov]
    · rw [ih h he, Option.some_or]

theorem finalByte_eq_none_iff :
  finalByte table diff a = none ↔ ∀ e ∈ table, ¬ e.Covers diff a
  := by
  rw [finalByte, Option.map_eq_none_iff, List.getLast?_eq_none_iff, List.filter_eq_nil_iff]
  simp

theorem Separate.perm (h : Separate table diff) (hperm : table'.Perm table) :
  Separate table' diff
  := hperm.symm.pairwise h fun {_ _} hapart a ha ha' => hapart a ha' ha

/-- The order of the entries does not matter when they share no address. -/
theorem Separate.finalByte_perm (h : Separate table diff) (hperm : table'.Perm table) :
  finalByte table' diff a = finalByte table diff a
  := by
  by_cases hcov : ∃ e ∈ table, e.Covers diff a
  · obtain ⟨e, he, hcov⟩ := hcov
    rw [h.finalByte_eq he hcov, (h.perm hperm).finalByte_eq (hperm.mem_iff.mpr he) hcov]
  · rw [finalByte_eq_none_iff.mpr fun e he hc => hcov ⟨e, he, hc⟩,
      finalByte_eq_none_iff.mpr fun e he hc => hcov ⟨e, hperm.mem_iff.mp he, hc⟩]

end Tables

/-! ### Applying relocations -/

section Apply

variable {m m' : Memory} {diff a : Addr} {e : Elf64Rela} {table : List Elf64Rela}

theorem applyRelocation_byte :
  (applyRelocation diff m e).byte a = if e.Covers diff a then e.byte diff a else m.byte a
  := by
  rw [applyRelocation]
  by_cases htype : e.rType = rAarch64Relativ
  · rw [if_pos htype, applyRelocationRelativ, Memory.store_eq _ (by decide)]
    by_cases hin : Within (e.rOffset + diff) 8 a
    · rw [Memory.overlay_within hin, if_pos ⟨htype, hin⟩, Elf64Rela.byte]
    · rw [Memory.overlay_outside hin, if_neg fun h => hin h.2]
  · rw [if_neg htype, if_neg fun h => htype h.1]

theorem applyRelocation_written :
  (applyRelocation diff m e).written a = true ↔ e.Covers diff a ∨ m.written a = true
  := by
  rw [applyRelocation]
  by_cases htype : e.rType = rAarch64Relativ
  · rw [if_pos htype, applyRelocationRelativ, Memory.store_eq _ (by decide), Memory.written_overlay]
    apply or_congr_left
    exact (and_iff_right htype).symm
  · rw [if_neg htype]
    exact (or_iff_right fun h => htype h.1).symm

theorem foldl_applyRelocation_byte :
  (table.foldl (applyRelocation diff) m).byte a = (finalByte table diff a).getD (m.byte a)
  := by
  induction table generalizing m with
  | nil => rfl
  | cons e table ih =>
    rw [List.foldl_cons, ih, finalByte_cons, applyRelocation_byte]
    cases finalByte table diff a with
    | some c => rfl
    | none =>
      rw [Option.none_or]
      split <;> rfl

theorem foldl_applyRelocation_written :
  (table.foldl (applyRelocation diff) m).written a = true
    ↔ (∃ e ∈ table, e.Covers diff a) ∨ m.written a = true
  := by
  induction table generalizing m with
  | nil => simp
  | cons e table ih =>
    rw [List.foldl_cons, ih, applyRelocation_written, List.exists_mem_cons_iff, or_left_comm,
      or_assoc]

/-- The loop of `apply_relocations`, over the indices `is`. -/
def relocationLoop (relaArr diff : Addr) (m : Memory) (is : List ℕ) : Memory :=
  is.foldl (fun m i => applyRelocation diff m (getRela m (elem relaArr sizeofRela i))) m

/-- The entries in memory from `relaArr` on. -/
def relaTable (m : Memory) (relaArr : Addr) (is : List ℕ) : List Elf64Rela :=
  is.map fun i => getRela m (elem relaArr sizeofRela i)

theorem getRela_congr {p : Addr} (h : ∀ a, Within p sizeofRela a → m'.byte a = m.byte a) :
  getRela m' p = getRela m p
  := by
  have hfield := fun d n hn => Memory.load_field h d (k := n) hn
  have hfirst : m'.load p 8 = m.load p 8 := Memory.load_first h (by decide)
  simp only [getRela, getU64, hfirst, hfield 8 8 (by decide), hfield 16 8 (by decide)]

theorem writes_applyRelocation (e : Memory → Elf64Rela) :
  Memory.Writes fun m => applyRelocation diff m (e m)
  := by
  constructor
  · exact fun m a h => applyRelocation_written.mpr (Or.inr h)
  · intro m a h
    rw [applyRelocation_byte, if_neg]
    intro hcov
    rw [applyRelocation_written.mpr (Or.inl hcov)] at h
    cases h

/-- When the loop writes nothing of its own table, it applies the entries that are there
before it begins. -/
theorem relocationLoop_eq {relaArr : Addr} {is : List ℕ} {P : Addr → Prop}
    (htable : ∀ i ∈ is, ∀ a, Within (elem relaArr sizeofRela i) sizeofRela a → P a)
    (hm' : ∀ a, P a → m'.byte a = m.byte a)
    (hwritten : ∀ a, P a → (relocationLoop relaArr diff m' is).written a = false) :
  relocationLoop relaArr diff m' is = (relaTable m relaArr is).foldl (applyRelocation diff) m'
  := by
  apply Memory.foldl_read_of_unwritten (P := P) _ _ hm' hwritten
  · exact fun i => writes_applyRelocation _
  · intro i hi m' hm'
    exact getRela_congr fun a ha => hm' a (htable i hi a ha)

end Apply

/-! ### The table of a file -/

/-- The number of entries of the table of relocations. -/
def relaCount (m : Memory) (start : Addr) : ℕ :=
  (relaSz m start / relaEnt m start).toNat

/-- Where the loader looks for the table. -/
def relaArr (m : Memory) (start : Addr) : Addr :=
  start + (relaPtr m start).getD 0

/-- The relocations are applied, unless the table is dereferenced and `DT_RELA` is
missing. -/
theorem applyRelocations_eq_some_iff {m m' m'' : Memory} {start diff : Addr} :
  applyRelocations (reader m start) diff m' = some m'' ↔
    (relaCount m start = 0 ∨ (relaPtr m start).isSome = true) ∧
      m'' = relocationLoop (relaArr m start) diff m' (List.range (relaCount m start))
  := by
  rw [applyRelocations,
    show (reader m start).relaArrlen = relaSz m start / relaEnt m start from rfl,
    show (reader m start).relaArr = (relaPtr m start).map (start + ·) from rfl, relaArr, relaCount]
  by_cases hzero : relaSz m start / relaEnt m start = 0
  · rw [if_pos hzero, hzero, Option.some_inj]
    constructor
    · rintro rfl
      exact ⟨Or.inl rfl, rfl⟩
    · rintro ⟨-, rfl⟩
      rfl
  · rw [if_neg hzero]
    cases relaPtr m start with
    | none =>
      constructor
      · nofun
      · rintro ⟨hcount | hsome, -⟩
        · exact absurd (BitVec.eq_of_toNat_eq hcount) hzero
        · cases hsome
    | some ptr =>
      constructor
      · intro h
        exact ⟨Or.inr rfl, (Option.some.inj h).symm⟩
      · rintro ⟨-, rfl⟩
        rfl

/-- The table at the virtual address `ptr` that `DT_RELA` gives is in the segment `p`. -/
structure HasTable (m : Memory) (start : Addr) (p : Elf64Phdr) (ptr : Addr) : Prop where
  rela : relaPtr m start = some ptr
  ent : relaEnt m start ≠ 0
  segment : p ∈ segments m start
  low : p.pVaddr.toNat ≤ ptr.toNat
  high : ptr.toNat + (relaSz m start).toNat ≤ p.pVaddr.toNat + p.pFilesz.toNat

/-- The entries of that table: in the file it is as far from the beginning of the segment
as in memory. -/
def tableEntries (m : Memory) (start : Addr) (p : Elf64Phdr) (ptr : Addr) : List Elf64Rela :=
  (List.range (relaCount m start)).map fun i =>
    getRela m (elem (start + p.pOffset + (ptr - p.pVaddr)) (relaEnt m start).toNat i)

/-- The words to relocate are in the segments. -/
def InImage (m : Memory) (start : Addr) (table : List Elf64Rela) : Prop :=
  ∀ e ∈ table, e.rType = rAarch64Relativ → ∃ q ∈ segments m start,
    q.pVaddr.toNat ≤ e.rOffset.toNat ∧ e.rOffset.toNat + 8 ≤ q.pVaddr.toNat + q.pMemsz.toNat

/-- The relocations of the table have been applied: every byte is what the last entry
stores there, no other byte is written, and when no two entries share an address each has
stored its word, in whatever order. -/
structure Relocated (table : List Elf64Rela) (diff : Addr) (m m' : Memory) : Prop where
  byte : ∀ a, m'.byte a = (finalByte table diff a).getD (m.byte a)
  only : ∀ a, m'.written a = true → ∃ e ∈ table, e.Covers diff a
  word : Separate table diff → ∀ e ∈ table, e.rType = rAarch64Relativ →
    getU64 m' (e.rOffset + diff) = e.rAddend + diff
  order : Separate table diff → ∀ table', table'.Perm table →
    ∀ a, m'.byte a = (finalByte table' diff a).getD (m.byte a)

/-- The loader, with the file at `start`, applies the relocations of the table to the memory
`bytes`. -/
def Relocates (m : Memory) (start diff : Addr) (bytes : Addr → UInt8) (table : List Elf64Rela) :
    Prop :=
  ∃ r m', elfReaderCtr m (some start) = some r ∧
    applyRelocations r diff (Memory.fresh bytes) = some m' ∧
    Relocated table diff (Memory.fresh bytes) m'

/-- Two tables store the same bytes at the same addresses; where only the second one stores,
the memory has that byte already. -/
structure SameStores (table' table : List Elf64Rela) (diff : Addr) (bytes : Addr → UInt8) :
    Prop where
  covers : ∀ a, (∃ e ∈ table', e.Covers diff a) → ∃ e ∈ table, e.Covers diff a
  byte : ∀ a, (finalByte table' diff a).getD (bytes a) = (finalByte table diff a).getD (bytes a)

section File

variable {m : Memory} {start target diff a ptr : Addr} {len : ℕ} {p : Elf64Phdr}
  {bytes : Addr → UInt8} {table table' : List Elf64Rela}

/-- What the last two of the four conditions follow from. -/
theorem Relocated.of_byte {m' : Memory}
    (hbyte : ∀ a, m'.byte a = (finalByte table diff a).getD (m.byte a))
    (honly : ∀ a, m'.written a = true → ∃ e ∈ table, e.Covers diff a) :
  Relocated table diff m m'
  := by
  refine ⟨hbyte, honly, ?_, ?_⟩
  · intro hsep e he htype
    have hload : m'.load (e.rOffset + diff) 8 = (e.rAddend + diff).toNat % 256 ^ 8 := by
      apply Memory.load_of_bytes
      intro i hi
      rw [hbyte, hsep.finalByte_eq he ⟨htype, within_add hi⟩, Option.getD_some, Elf64Rela.byte,
        BitVec.add_comm _ (BitVec.ofNat 64 i), BitVec.add_sub_cancel, BitVec.toNat_ofNat,
        Nat.mod_eq_of_lt (hi.trans (by decide))]
    have hlt : (e.rAddend + diff).toNat < 256 ^ 8 := (e.rAddend + diff).isLt
    rw [getU64, hload, Nat.mod_eq_of_lt hlt, BitVec.ofNat_toNat, BitVec.setWidth_eq]
  · intro hsep table' hperm a
    rw [hsep.finalByte_perm hperm, hbyte]

/-- A file with a table can be read. -/
theorem HasTable.readable (h : HasTable m start p ptr) :
  Readable m start
  := by
  refine ⟨?_, h.ent⟩
  have hptr := h.rela
  rw [relaPtr, dynamics] at hptr
  cases hsection : dynamicSection m start with
  | none =>
    rw [hsection] at hptr
    cases hptr
  | some sHdr =>
    refine ⟨sHdr, rfl, ?_⟩
    intro hentsize
    have hzero : intBound (0#64) = 0 := by decide
    rw [hsection] at hptr
    simp only [dynamicEntries, hentsize, show (getShdr m sHdr).shSize / 0 = 0#64 from
      BitVec.udiv_zero, hzero] at hptr
    cases hptr

theorem HasTable.relaArr_eq (h : HasTable m start p ptr) :
  relaArr m start = start + ptr
  := by
  rw [relaArr, h.rela]
  rfl

theorem HasTable.applyRelocations_eq (h : HasTable m start p ptr) (m' : Memory) :
  applyRelocations (reader m start) diff m'
    = some (relocationLoop (start + ptr) diff m' (List.range (relaCount m start)))
  := by
  rw [← h.relaArr_eq]
  apply applyRelocations_eq_some_iff.mpr
  refine ⟨Or.inr ?_, rfl⟩
  rw [h.rela]
  rfl

/-- The loader applies the entries that lie at the offset `ptr` of the file, when these
stay as they are. -/
theorem HasTable.relocates_iff (h : HasTable m start p ptr)
    (hident : elfReaderCheckEIdent m start = true)
    (hapart : ∀ i < relaCount m start, ∀ a, Within (elem (start + ptr) sizeofRela i) sizeofRela a →
      ∀ e ∈ table, ¬ e.Covers diff a) :
  Relocates m start diff bytes table ↔
    SameStores (relaTable (Memory.fresh bytes) (start + ptr) (List.range (relaCount m start)))
      table diff bytes
  := by
  constructor
  · rintro ⟨r, m', hr, happly, hreloc⟩
    obtain ⟨-, rfl⟩ := (elfReaderCtr_eq_some_iff hident).mp hr
    rw [h.applyRelocations_eq, Option.some_inj] at happly
    have hloop : relocationLoop (start + ptr) diff (Memory.fresh bytes)
        (List.range (relaCount m start)) =
        (relaTable (Memory.fresh bytes) (start + ptr) (List.range (relaCount m start))).foldl
          (applyRelocation diff) (Memory.fresh bytes) := by
      apply relocationLoop_eq (P := fun a => ∀ e ∈ table, ¬ e.Covers diff a)
      · exact fun i hi => hapart i (List.mem_range.mp hi)
      · exact fun _ _ => rfl
      · intro a ha
        rw [happly, ← Bool.not_eq_true]
        intro hwritten
        obtain ⟨e, he, hcov⟩ := hreloc.only a hwritten
        exact ha e he hcov
    rw [happly] at hloop
    constructor
    · intro a ha
      apply hreloc.only
      rw [hloop]
      exact foldl_applyRelocation_written.mpr (Or.inl ha)
    · intro a
      have hbyte := hreloc.byte a
      rw [hloop, foldl_applyRelocation_byte] at hbyte
      exact hbyte
  · intro hsame
    refine ⟨reader m start, _, (elfReaderCtr_eq_some_iff hident).mpr ⟨h.readable, rfl⟩,
      h.applyRelocations_eq _, ?_⟩
    have hloop : relocationLoop (start + ptr) diff (Memory.fresh bytes)
        (List.range (relaCount m start)) =
        (relaTable (Memory.fresh bytes) (start + ptr) (List.range (relaCount m start))).foldl
          (applyRelocation diff) (Memory.fresh bytes) := by
      apply Memory.foldl_read
        (P := fun m' => ∀ a, (∀ e ∈ table, ¬ e.Covers diff a) → m'.byte a = bytes a)
        (fun _ _ => rfl)
      · intro i hi m' hm'
        apply getRela_congr
        intro a ha
        exact hm' a (hapart i (List.mem_range.mp hi) a ha)
      · intro i hi m' hm' a ha
        rw [applyRelocation_byte, if_neg, hm' a ha]
        intro hcov
        obtain ⟨e, he, hcov⟩ := hsame.covers a ⟨_, List.mem_map_of_mem hi, hcov⟩
        exact ha e he hcov
    rw [hloop]
    apply Relocated.of_byte
    · intro a
      rw [foldl_applyRelocation_byte]
      exact hsame.byte a
    · intro a ha
      apply hsame.covers a
      exact (foldl_applyRelocation_written.mp ha).resolve_right Bool.false_ne_true

/-- The entries that the loader reads are in the file when the segment of the table has the
same offset and address. -/
theorem HasTable.entry_within (h : HasTable m start p ptr) (hwf : WellFormed m start len)
    (hoffset : p.pOffset = p.pVaddr) (hent : relaEnt m start = 24) {i : ℕ}
    (hi : i < relaCount m start) (ha : Within (elem (start + ptr) sizeofRela i) sizeofRela a) :
  Within start len a
  := by
  apply elem_within hi _ ha
  have hfile := hwf.file p h.segment
  have hhigh := h.high
  have hmul : 24 * ((relaSz m start).toNat / 24) ≤ (relaSz m start).toNat := Nat.mul_div_le _ _
  rw [hoffset] at hfile
  rw [relaCount, hent, BitVec.toNat_udiv]
  exact (Nat.add_le_add_left hmul _).trans (hhigh.trans hfile)

/-- The table that lies at the offset `ptr` of the file is the table of the file when its
segment has the same offset and address. -/
theorem HasTable.relaTable_eq (h : HasTable m start p ptr) (hwf : WellFormed m start len)
    (hbytes : Intact m start len (Memory.fresh bytes)) (hoffset : p.pOffset = p.pVaddr)
    (hent : relaEnt m start = 24) :
  relaTable (Memory.fresh bytes) (start + ptr) (List.range (relaCount m start))
    = tableEntries m start p ptr
  := by
  have harr : start + p.pOffset + (ptr - p.pVaddr) = start + ptr := by
    rw [hoffset, BitVec.add_assoc, BitVec.add_comm p.pVaddr, BitVec.sub_add_cancel]
  rw [relaTable, tableEntries, harr, hent]
  apply List.map_congr_left
  intro i hi
  apply getRela_congr
  intro a ha
  exact hbytes a (h.entry_within hwf hoffset hent (List.mem_range.mp hi) ha)

/-- The entries lie in the file, where the loader reads them. -/
theorem HasTable.sameStores (h : HasTable m start p ptr) (hwf : WellFormed m start len)
    (hbytes : Intact m start len (Memory.fresh bytes)) (hoffset : p.pOffset = p.pVaddr)
    (hent : relaEnt m start = 24) :
  SameStores (relaTable (Memory.fresh bytes) (start + ptr) (List.range (relaCount m start)))
    (tableEntries m start p ptr) diff bytes
  := by
  rw [h.relaTable_eq hwf hbytes hoffset hent]
  exact ⟨fun _ h => h, fun _ => rfl⟩

/-- No word to relocate is in the file. -/
theorem not_covers_file (hwf : WellFormed m start len) (hplaced : Placed m start len target)
    (himage : InImage m start table) {e : Elf64Rela} (he : e ∈ table) (ha : Within start len a) :
  ¬ e.Covers (vaddrDiff m start target) a
  := by
  rintro ⟨htype, hin⟩
  obtain ⟨q, hq, hlow, hhigh⟩ := himage e he htype
  apply hplaced a _ ha
  exact hwf.segment_within hq le_rfl (within_segment hlow hhigh hin)

/-- The relocations are applied as the table describes them when its segment has the same
offset and address and its entries are 24 bytes apart. In general they are exactly when the
entries at the offset `DT_RELA` of the file store the same bytes, provided that these
entries are not themselves among the words that are relocated. -/
theorem applyRelocations_relocated (hwf : WellFormed m start len) (htable : HasTable m start p ptr)
    (himage : InImage m start (tableEntries m start p ptr)) (hplaced : Placed m start len target)
    (hbytes : Intact m start len (Memory.fresh bytes)) :
  (p.pOffset = p.pVaddr → relaEnt m start = 24 →
    Relocates m start (vaddrDiff m start target) bytes (tableEntries m start p ptr)) ∧
  ((∀ i < relaCount m start, ∀ a, Within (elem (start + ptr) sizeofRela i) sizeofRela a →
      ∀ e ∈ tableEntries m start p ptr, ¬ e.Covers (vaddrDiff m start target) a) →
    (Relocates m start (vaddrDiff m start target) bytes (tableEntries m start p ptr) ↔
      SameStores (relaTable (Memory.fresh bytes) (start + ptr) (List.range (relaCount m start)))
        (tableEntries m start p ptr) (vaddrDiff m start target) bytes))
  := by
  constructor
  · intro hoffset hent
    apply (htable.relocates_iff hwf.ident _).mpr (htable.sameStores hwf hbytes hoffset hent)
    intro i hi a ha e he
    exact not_covers_file hwf hplaced himage he (htable.entry_within hwf hoffset hent hi ha)
  · exact fun hapart => htable.relocates_iff hwf.ident hapart

end File

/-! ### Two files -/

section Table

variable {m : Memory} {vaddr : Addr} {len : ℕ}

/-- The relocation of a file with one segment. -/
def relaAt (vaddr : Addr) : List Elf64Rela :=
  [{ rOffset := vaddr + 208, rInfo := 1027, rAddend := 0x1234 }]

theorem relaSz_eq (h : dynamics m 0x4000000 = dynamicsAt vaddr) :
  relaSz m 0x4000000 = 24
  := by
  rw [relaSz, h]
  rfl

theorem relaCount_eq (h : dynamics m 0x4000000 = dynamicsAt vaddr) :
  relaCount m 0x4000000 = 1
  := by
  rw [relaCount, relaSz_eq h, relaEnt_eq h]
  rfl

theorem OneSegment.hasTable (h : OneSegment m vaddr len) (hvaddr : vaddr.toNat ≤ 2 ^ 32)
    (hdyns : dynamics m 0x4000000 = dynamicsAt vaddr) :
  HasTable m 0x4000000 (segmentAt vaddr) (vaddr + 184)
  := by
  have hadd : (vaddr + 184).toNat = vaddr.toNat + 184 :=
    (BitVec.toNat_add _ _).trans (Nat.mod_eq_of_lt (by simp; omega))
  have hbase : (segmentAt vaddr).pVaddr = vaddr := rfl
  have hfile : (segmentAt vaddr).pFilesz.toNat = 216 := rfl
  have hrela : relaPtr m 0x4000000 = some (vaddr + 184) := by
    rw [relaPtr, hdyns]
    rfl
  refine ⟨hrela, ?_, ?_, ?_, ?_⟩
  · rw [relaEnt_eq hdyns]
    decide
  · rw [h.segments]
    exact List.mem_singleton_self _
  · rw [hbase, hadd]
    exact Nat.le_add_right _ _
  · rw [hbase, hfile, hadd, relaSz_eq hdyns, show (24 : Addr).toNat = 24 from rfl]
    omega

theorem OneSegment.inImage (h : OneSegment m vaddr len) (hvaddr : vaddr.toNat ≤ 2 ^ 32) :
  InImage m 0x4000000 (relaAt vaddr)
  := by
  intro e he _
  rw [relaAt, List.mem_singleton] at he
  have hadd : (vaddr + 208).toNat = vaddr.toNat + 208 :=
    (BitVec.toNat_add _ _).trans (Nat.mod_eq_of_lt (by simp; omega))
  have hsize : (segmentAt vaddr).pMemsz.toNat = 232 := rfl
  have hbase : (segmentAt vaddr).pVaddr = vaddr := rfl
  use segmentAt vaddr
  rw [h.segments, he, hsize, hbase, hadd]
  refine ⟨List.mem_singleton_self _, ?_, ?_⟩
  all_goals omega

end Table

theorem tableEntries_withBss :
  tableEntries withBss 0x4000000 (segmentAt 0) (0 + 184) = relaAt 0
  := by
  rw [tableEntries, relaCount_eq dynamics_withBss, relaEnt_eq dynamics_withBss]
  decide +kernel

/-- A file that is linked to begin at `0`: its table is applied. -/
theorem applyRelocations_relocated_withBss :
  Relocates withBss 0x4000000 (vaddrDiff withBss 0x4000000 0x10000000) withBss.byte
    (tableEntries withBss 0x4000000 (segmentAt 0) (0 + 184))
  := by
  apply (applyRelocations_relocated (withBss_oneSegment.wellFormed (by decide) (by decide))
    (withBss_oneSegment.hasTable (by decide) dynamics_withBss) _
    (withBss_oneSegment.placed (by decide) (by decide +kernel)) fun _ _ => rfl).1 rfl
    (relaEnt_eq dynamics_withBss)
  rw [tableEntries_withBss]
  exact withBss_oneSegment.inImage (by decide)

/-- The memory with a file that is linked to begin at `0x10000`. -/
def linkedHigh : Memory := inMemory (oneSegment 0x10000 232 [(0x10000 + 216, 16)]) 0xAA

theorem linkedHigh_oneSegment :
  OneSegment linkedHigh 0x10000 472
  := by
  constructor
  all_goals decide +kernel

theorem dynamics_linkedHigh :
  dynamics linkedHigh 0x4000000 = dynamicsAt 0x10000
  := by decide +kernel

theorem tableEntries_linkedHigh :
  tableEntries linkedHigh 0x4000000 (segmentAt 0x10000) (0x10000 + 184) = relaAt 0x10000
  := by
  rw [tableEntries, relaCount_eq dynamics_linkedHigh, relaEnt_eq dynamics_linkedHigh]
  decide +kernel

/-- The loader looks for the table of this file behind the file, and applies no relocation. -/
theorem applyRelocations_not_relocated :
  WellFormed linkedHigh 0x4000000 472 ∧
    HasTable linkedHigh 0x4000000 (segmentAt 0x10000) (0x10000 + 184) ∧
    InImage linkedHigh 0x4000000
      (tableEntries linkedHigh 0x4000000 (segmentAt 0x10000) (0x10000 + 184)) ∧
    Placed linkedHigh 0x4000000 472 0x10000000 ∧
    ¬ Relocates linkedHigh 0x4000000 (vaddrDiff linkedHigh 0x4000000 0x10000000) linkedHigh.byte
      (tableEntries linkedHigh 0x4000000 (segmentAt 0x10000) (0x10000 + 184))
  := by
  have hwf := linkedHigh_oneSegment.wellFormed (by decide) (by decide)
  have htable := linkedHigh_oneSegment.hasTable (by decide) dynamics_linkedHigh
  rw [tableEntries_linkedHigh]
  refine ⟨hwf, htable, linkedHigh_oneSegment.inImage (by decide),
    linkedHigh_oneSegment.placed (by decide) (by decide +kernel), ?_⟩
  rintro ⟨r, m', hr, happly, hreloc⟩
  obtain ⟨-, rfl⟩ := (elfReaderCtr_eq_some_iff hwf.ident).mp hr
  rw [htable.applyRelocations_eq, Option.some_inj, relaCount_eq dynamics_linkedHigh] at happly
  have hbyte := hreloc.byte (0x10000000 + 208)
  rw [← happly, vaddrDiff, vaddrBase, linkedHigh_oneSegment.phdrs] at hbyte
  revert hbyte
  decide +kernel

end TrainsOs.Loader
