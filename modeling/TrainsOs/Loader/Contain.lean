import TrainsOs.Loader.Relocate
import TrainsOs.PgMgr.Basic

/-!
# Where the loader writes

The loader writes what three tables say: the program headers, the header of one section,
and the relocations. In a well-formed file all of it is in the block that the kernel hands
out. The loader does not look whether there is such a block.
-/

namespace TrainsOs.Loader

/-- How large the block is with which the kernel answers `ke_mmap`: `k_mmap_handler` and
`pg_alloc_page` round up to a power of two, and at least to a page. -/
def mmapSize (memsz : Addr) : ℕ :=
  2 ^ max pgSft (msbPos64 (nextPow2 memsz.toNat))

/-- A block is as large as what is asked for, unless `NEXT_POW2` wraps around. -/
theorem le_mmapSize {memsz : Addr} (h : memsz.toNat ≤ 2 ^ 63) :
  memsz.toNat ≤ mmapSize memsz
  := by
  obtain ⟨k, hk, hpow, hleast⟩ := nextPow2_spec h
  have hle := (hleast k).mpr le_rfl
  rw [mmapSize, hpow, msbPos64, msbPosFrom_two_pow hk]
  exact hle.trans (Nat.pow_le_pow_right Nat.two_pos (le_max_right _ _))

/-- Every byte that the loader writes is in the block of `size` bytes at `target`, and when
there is none it does not call the program. -/
structure Contained (o : Loaded) (target : Addr) (size : ℕ) : Prop where
  inside : ∀ a, o.mem.written a = true → target ≠ 0 ∧ Within target size a
  refused : target = 0 → o.entry = none

/-- The loader loads the file at `start`, and what it writes is contained. -/
def LoadContained (m : Memory) (start : Addr) (mmap : Addr → Addr) : Prop :=
  ∃ o, loadElf m (some start) mmap = some o ∧
    Contained o (mmap (memsz m start)) (mmapSize (memsz m start))

/-! ### The three tables -/

section Tables

variable {m m' m'' : Memory} {start diff a : Addr} {len : ℕ} {B : Addr → Prop}

/-- The section that is cleared covers the address `a`, when it is moved by `diff`. -/
def BssAt (m : Memory) (start diff a : Addr) : Prop :=
  ∃ hdr ∈ bssSection m start, Within (hdr.shAddr + diff) hdr.shSize.toNat a

/-- The table of relocations at the offset `DT_RELA` of the file. -/
def fileTable (m : Memory) (start : Addr) : List Elf64Rela :=
  relaTable m (relaArr m start) (List.range (relaCount m start))

theorem foldl_memcpySegment_written {ps : List Elf64Phdr} :
  (ps.foldl (memcpySegment start diff) m).written a = true ↔
    (∃ p ∈ ps, p.Copies diff a) ∨ m.written a = true
  := by
  induction ps generalizing m with
  | nil => simp
  | cons p ps ih =>
    rw [List.foldl_cons, ih, memcpySegment_written, List.exists_mem_cons_iff, or_left_comm,
      or_assoc]

theorem writes_memcpySegment (p : Memory → Elf64Phdr) :
  Memory.Writes fun m => memcpySegment start diff m (p m)
  := by
  constructor
  · exact fun m a h => memcpySegment_written.mpr (Or.inr h)
  · intro m a h
    apply memcpySegment_outside
    intro hcopy
    rw [memcpySegment_written.mpr (Or.inl hcopy)] at h
    cases h

theorem writes_memcpyProgHdr (m₀ : Memory) (start diff : Addr) :
  Memory.Writes fun m => memcpyProgHdr (reader m₀ start) diff m
  := Memory.Writes.foldl (fun _ => writes_memcpySegment _) _

/-- What `clear_bss` writes, with the header of its section as it is in the file. -/
theorem clearBss_written (hwf : WellFormed m start len) (h : Intact m start len m') :
  (clearBss (reader m start) diff m').written a = true ↔
    BssAt m start diff a ∨ m'.written a = true
  := by
  rw [clearBss, BssAt]
  cases hbss : ((sections m start).filter (isNobits m)).getLast? with
  | none =>
    rw [show (reader m start).sHdrBss = none from hbss, bssSection, hbss]
    simp
  | some sHdr =>
    have hmem : sHdr ∈ sections m start := List.mem_of_mem_filter (List.mem_of_getLast? hbss)
    rw [show (reader m start).sHdrBss = some sHdr from hbss, bssSection, hbss]
    dsimp only
    rw [hwf.getShdr_eq h hmem, Memory.fill_eq 0 (getShdr m sHdr).shSize.isLt.le,
      Memory.written_overlay]
    simp

theorem writes_clearBss (r : ElfReader) (diff : Addr) :
  Memory.Writes fun m => clearBss r diff m
  := by
  cases hbss : r.sHdrBss with
  | none =>
    simp only [clearBss, hbss]
    exact Memory.Writes.id
  | some sHdr =>
    simp only [clearBss, hbss, Memory.fill_eq 0 (BitVec.isLt _).le]
    constructor
    · exact fun m a h => Memory.written_overlay.mpr (Or.inr h)
    · intro m a h
      apply Memory.overlay_outside
      intro hin
      rw [Memory.written_overlay.mpr (Or.inl hin)] at h
      cases h

theorem writes_relocationLoop (relaArr diff : Addr) (is : List ℕ) :
  Memory.Writes fun m => relocationLoop relaArr diff m is
  := Memory.Writes.foldl (fun _ => writes_applyRelocation _) _

end Tables

/-! ### The whole loader -/

/-- What the loader has written in the end, and what it calls. -/
theorem loadElf_eq_some_iff {m : Memory} {start : Addr} {mmap : Addr → Addr} {o : Loaded}
    (hident : elfReaderCheckEIdent m start = true) :
  loadElf m (some start) mmap = some o ↔
    Readable m start ∧ (relaCount m start = 0 ∨ (relaPtr m start).isSome = true) ∧
      let diff := vaddrDiff m start (mmap (memsz m start))
      let m' := relocationLoop (relaArr m start) diff (loadSegments (reader m start) diff m)
        (List.range (relaCount m start))
      o = { mem := m', entry := some ((getEhdr m' start).eEntry + diff) }
  := by
  rw [loadElf, Option.bind_eq_bind, Option.bind_eq_some_iff]
  constructor
  · rintro ⟨r, hr, ho⟩
    obtain ⟨hreadable, rfl⟩ := (elfReaderCtr_eq_some_iff hident).mp hr
    obtain ⟨m', happly, ho⟩ := Option.bind_eq_some_iff.mp ho
    obtain ⟨hrela, rfl⟩ := applyRelocations_eq_some_iff.mp happly
    exact ⟨hreadable, hrela, (Option.some.inj ho).symm⟩
  · rintro ⟨hreadable, hrela, rfl⟩
    refine ⟨reader m start, (elfReaderCtr_eq_some_iff hident).mpr ⟨hreadable, rfl⟩, ?_⟩
    apply Option.bind_eq_some_iff.mpr
    exact ⟨_, applyRelocations_eq_some_iff.mpr ⟨hrela, rfl⟩, rfl⟩

/-- What the loader writes is in `B`. -/
structure WritesIn (m : Memory) (start diff : Addr) (B : Addr → Prop) : Prop where
  segments : ∀ p ∈ phdrs m start, ∀ a, p.Copies diff a → B a
  bss : ∀ a, BssAt m start diff a → B a
  relocations : ∀ e ∈ fileTable m start, ∀ a, e.Covers diff a → B a

/-- The loader writes in `B` exactly when all three tables say so, if `B` has neither the
file nor the table of relocations in it. -/
theorem written_iff {bytes : Addr → UInt8} {start diff : Addr} {len : ℕ} {B : Addr → Prop}
    (hwf : WellFormed (Memory.fresh bytes) start len) (hfile : ∀ a, B a → ¬ Within start len a)
    (htable : ∀ i < relaCount (Memory.fresh bytes) start, ∀ a,
      Within (elem (relaArr (Memory.fresh bytes) start) sizeofRela i) sizeofRela a → ¬ B a) :
  (∀ a, (relocationLoop (relaArr (Memory.fresh bytes) start) diff
      (loadSegments (reader (Memory.fresh bytes) start) diff (Memory.fresh bytes))
      (List.range (relaCount (Memory.fresh bytes) start))).written a = true → B a) ↔
    WritesIn (Memory.fresh bytes) start diff B
  := by
  rw [loadSegments]
  generalize hm₀ : Memory.fresh bytes = m₀ at hwf htable ⊢
  have hfresh : ∀ a, m₀.written a = false := by
    rw [← hm₀]
    exact fun _ => rfl
  generalize hm₁ : memcpyProgHdr (reader m₀ start) diff m₀ = m₁
  generalize hm₂ : clearBss (reader m₀ start) diff m₁ = m₂
  have hcopy : Memory.Writes fun m => memcpyProgHdr (reader m₀ start) diff m :=
    writes_memcpyProgHdr m₀ start diff
  have hclear := writes_clearBss (reader m₀ start) diff
  -- what has not been written after the first two steps is as it was
  have hkept : ∀ a, m₂.written a = false → m₁.written a = false ∧ m₁.byte a = m₀.byte a ∧
      m₂.byte a = m₀.byte a := by
    intro a ha
    have h₁ : m₁.written a = false := by
      rw [← Bool.not_eq_true] at ha ⊢
      intro hset
      apply ha
      rw [← hm₂]
      exact hclear.mono m₁ a hset
    have hbyte₁ : m₁.byte a = m₀.byte a := by
      rw [← hm₁] at h₁ ⊢
      exact hcopy.frame m₀ a h₁
    refine ⟨h₁, hbyte₁, ?_⟩
    rw [← hbyte₁, ← hm₂]
    rw [← hm₂] at ha
    exact hclear.frame m₁ a ha
  constructor
  · intro hwritten
    have hunwritten : ∀ a, ¬ B a → m₂.written a = false := by
      intro a ha
      rw [← Bool.not_eq_true]
      exact fun hset => ha (hwritten a ((writes_relocationLoop _ diff _).mono m₂ a hset))
    have hintact : Intact m₀ start len m₁ := fun a ha =>
      (hkept a (hunwritten a fun hB => hfile a hB ha)).2.1
    have hsegments : m₁ = (phdrs m₀ start).foldl (memcpySegment start diff) m₀ := by
      rw [← hm₁]
      apply Memory.foldl_read_of_unwritten (P := fun a => ¬ B a) (fun _ => writes_memcpySegment _) _
        (fun _ _ => rfl)
      · intro a ha
        have hnot := (hkept a (hunwritten a ha)).1
        rwa [← hm₁] at hnot
      · intro i hi m' hm'
        exact hwf.getPhdr_eq (fun a ha => hm' a fun hB => hfile a hB ha) (List.mem_range.mp hi)
    constructor
    · intro p hp a hcopies
      by_contra hB
      have hnot := (hkept a (hunwritten a hB)).1
      rw [hsegments, foldl_memcpySegment_written.mpr (Or.inl ⟨p, hp, hcopies⟩)] at hnot
      cases hnot
    · intro a hbss
      apply hwritten
      apply (writes_relocationLoop _ diff _).mono m₂
      rw [← hm₂]
      exact (clearBss_written hwf hintact).mpr (Or.inl hbss)
    · intro e he a hcov
      apply hwritten
      have hloop : relocationLoop (relaArr m₀ start) diff m₂ (List.range (relaCount m₀ start))
          = (fileTable m₀ start).foldl (applyRelocation diff) m₂ := by
        apply relocationLoop_eq (P := fun a => ¬ B a)
        · exact fun i hi => htable i (List.mem_range.mp hi)
        · exact fun a ha => (hkept a (hunwritten a ha)).2.2
        · intro a ha
          rw [← Bool.not_eq_true]
          exact fun hset => ha (hwritten a hset)
      rw [hloop]
      exact foldl_applyRelocation_written.mpr (Or.inl ⟨e, he, hcov⟩)
  · intro hin
    have hnot : Clear m₀ start len diff :=
      fun p hp a hcopies => hfile a (hin.segments p hp a hcopies)
    have hintact : Intact m₀ start len m₁ := hm₁ ▸ hnot.memcpyProgHdr_intact hwf
    have hwritten₂ : ∀ a, m₂.written a = true → B a := by
      intro a ha
      rw [← hm₂, clearBss_written hwf hintact, ← hm₁, hnot.memcpyProgHdr_eq hwf,
        foldl_memcpySegment_written, hfresh] at ha
      rcases ha with hbss | ⟨p, hp, hcopies⟩ | hset
      · exact hin.bss a hbss
      · exact hin.segments p hp a hcopies
      · cases hset
    have hloop : (∀ a, ¬ B a → (relocationLoop (relaArr m₀ start) diff m₂
          (List.range (relaCount m₀ start))).byte a = m₀.byte a) ∧
        ∀ a, (relocationLoop (relaArr m₀ start) diff m₂
          (List.range (relaCount m₀ start))).written a = true → B a := by
      apply List.foldlRecOn (motive := fun m' : Memory =>
        (∀ a, ¬ B a → m'.byte a = m₀.byte a) ∧ ∀ a, m'.written a = true → B a)
      · refine ⟨fun a ha => (hkept a ?_).2.2, hwritten₂⟩
        rw [← Bool.not_eq_true]
        exact fun hset => ha (hwritten₂ a hset)
      · rintro m' ⟨hbyte, hset⟩ i hi
        have hread : getRela m' (elem (relaArr m₀ start) sizeofRela i)
            = getRela m₀ (elem (relaArr m₀ start) sizeofRela i) :=
          getRela_congr fun a ha => hbyte a (htable i (List.mem_range.mp hi) a ha)
        have hcov := hin.relocations _ (List.mem_map_of_mem hi)
        rw [hread]
        constructor
        · intro a ha
          rw [applyRelocation_byte, if_neg fun h => ha (hcov a h), hbyte a ha]
        · intro a ha
          rcases applyRelocation_written.mp ha with h | h
          · exact hcov a h
          · exact hset a h
    exact hloop.2

/-! ### Containment -/

/-- What the loader takes from the file stays in the block. The program headers say so
themselves, unless the image is so large that `NEXT_POW2` wraps around. -/
structure Fits (m : Memory) (start target : Addr) : Prop where
  readable : Readable m start
  rela : relaCount m start = 0 ∨ (relaPtr m start).isSome = true
  segments : (memsz m start).toNat ≤ 2 ^ 63 ∨
    ∀ p ∈ phdrs m start, ∀ a, p.Copies (vaddrDiff m start target) a →
      Within target (mmapSize (memsz m start)) a
  bss : ∀ a, BssAt m start (vaddrDiff m start target) a →
    Within target (mmapSize (memsz m start)) a
  relocations : ∀ e ∈ fileTable m start, ∀ a, e.Covers (vaddrDiff m start target) a →
    Within target (mmapSize (memsz m start)) a

section Contain

variable {m : Memory} {bytes : Addr → UInt8} {start target a ptr : Addr} {len : ℕ}
  {p : Elf64Phdr} {mmap : Addr → Addr}

/-- The segments are in the block. -/
theorem copies_within (hwf : WellFormed m start len)
    (hsize : (memsz m start).toNat ≤ 2 ^ 63) (hp : p ∈ phdrs m start)
    (h : p.Copies (vaddrDiff m start target) a) :
  Within target (mmapSize (memsz m start)) a
  := by
  have hseg := mem_segments.mpr ⟨hp, h.1⟩
  exact (hwf.segment_within hseg (hwf.size p hseg) h.2).trans_le (le_mmapSize hsize)

/-- Without a block the loader calls the program anyway. -/
theorem not_loadContained_null (hwf : WellFormed m start len) (hnull : mmap (memsz m start) = 0) :
  ¬ LoadContained m start mmap
  := by
  rintro ⟨o, ho, hcon⟩
  obtain ⟨-, -, rfl⟩ := (loadElf_eq_some_iff hwf.ident).mp ho
  cases hcon.refused hnull

/-- With a block, what the loader writes is contained exactly when it fits. -/
theorem loadContained_iff (hwf : WellFormed (Memory.fresh bytes) start len)
    (htarget : mmap (memsz (Memory.fresh bytes) start) = target) (hne : target ≠ 0)
    (hfile : Apart target (mmapSize (memsz (Memory.fresh bytes) start)) start len)
    (htable : ∀ i < relaCount (Memory.fresh bytes) start,
      Apart target (mmapSize (memsz (Memory.fresh bytes) start))
        (elem (relaArr (Memory.fresh bytes) start) sizeofRela i) sizeofRela) :
  LoadContained (Memory.fresh bytes) start mmap ↔ Fits (Memory.fresh bytes) start target
  := by
  have hwritten := @written_iff bytes start (vaddrDiff (Memory.fresh bytes) start target) len
    (Within target (mmapSize (memsz (Memory.fresh bytes) start))) hwf hfile
    (fun i hi a ha hB => htable i hi a hB ha)
  constructor
  · rintro ⟨o, ho, hcon⟩
    obtain ⟨hreadable, hrela, rfl⟩ := (loadElf_eq_some_iff hwf.ident).mp ho
    rw [htarget] at hcon
    obtain ⟨hsegments, hbss, hrelocs⟩ := hwritten.mp fun a ha => (hcon.inside a ha).2
    exact ⟨hreadable, hrela, Or.inr hsegments, hbss, hrelocs⟩
  · intro hfits
    refine ⟨_, (loadElf_eq_some_iff hwf.ident).mpr ⟨hfits.readable, hfits.rela, rfl⟩, ?_⟩
    rw [htarget]
    constructor
    · intro a ha
      refine ⟨hne, hwritten.mpr ⟨?_, hfits.bss, hfits.relocations⟩ a ha⟩
      rcases hfits.segments with hsize | hsegments
      · exact fun p hp a hcopies => copies_within hwf hsize hp hcopies
      · exact hsegments
    · exact fun hnull => absurd hnull hne

/-- The section that is cleared is in a segment. -/
def BssInImage (m : Memory) (start : Addr) : Prop :=
  ∀ hdr ∈ bssSection m start, ∃ q ∈ segments m start, q.pVaddr.toNat ≤ hdr.shAddr.toNat ∧
    hdr.shAddr.toNat + hdr.shSize.toNat ≤ q.pVaddr.toNat + q.pMemsz.toNat

/-- What is in a segment is in the block. -/
theorem within_block (hwf : WellFormed m start len) (hsize : (memsz m start).toNat ≤ 2 ^ 63)
    (hp : p ∈ segments m start) {base : Addr} {n : ℕ} (hlow : p.pVaddr.toNat ≤ base.toNat)
    (hhigh : base.toNat + n ≤ p.pVaddr.toNat + p.pMemsz.toNat)
    (h : Within (base + vaddrDiff m start target) n a) :
  Within target (mmapSize (memsz m start)) a
  := (hwf.segment_within hp le_rfl (within_segment hlow hhigh h)).trans_le (le_mmapSize hsize)

/-- A file fits when its section and its relocations are in its segments, and the table of
relocations lies where the loader looks for it. -/
theorem HasTable.fits (h : HasTable (Memory.fresh bytes) start p ptr)
    (hwf : WellFormed (Memory.fresh bytes) start len)
    (hoffset : p.pOffset = p.pVaddr) (hent : relaEnt (Memory.fresh bytes) start = 24)
    (himage : InImage (Memory.fresh bytes) start (tableEntries (Memory.fresh bytes) start p ptr))
    (hbss : BssInImage (Memory.fresh bytes) start)
    (hsize : (memsz (Memory.fresh bytes) start).toNat ≤ 2 ^ 63) :
  Fits (Memory.fresh bytes) start target
  := by
  refine ⟨h.readable, ?_, Or.inl hsize, ?_, ?_⟩
  · rw [h.rela]
    exact Or.inr rfl
  · rintro a ⟨hdr, hsome, hin⟩
    obtain ⟨q, hq, hlow, hhigh⟩ := hbss hdr hsome
    exact within_block hwf hsize hq hlow hhigh hin
  · intro e he a hcov
    rw [fileTable, h.relaArr_eq, h.relaTable_eq hwf (fun _ _ => rfl) hoffset hent] at he
    obtain ⟨q, hq, hlow, hhigh⟩ := himage e he hcov.1
    exact within_block hwf hsize hq hlow hhigh hcov.2

/-- What the loader writes is contained exactly when the kernel hands out a block, for files
whose section and relocations are in their segments and whose table of relocations lies
where the loader looks for it. In general it has to fit as well, provided that the bytes
that the loader takes for that table are not in the block. -/
theorem loadElf_contained (hwf : WellFormed (Memory.fresh bytes) start len)
    (hfile : mmap (memsz (Memory.fresh bytes) start) ≠ 0 →
      Apart (mmap (memsz (Memory.fresh bytes) start))
        (mmapSize (memsz (Memory.fresh bytes) start)) start len) :
  (HasTable (Memory.fresh bytes) start p ptr → p.pOffset = p.pVaddr →
    relaEnt (Memory.fresh bytes) start = 24 →
    InImage (Memory.fresh bytes) start (tableEntries (Memory.fresh bytes) start p ptr) →
    BssInImage (Memory.fresh bytes) start → (memsz (Memory.fresh bytes) start).toNat ≤ 2 ^ 63 →
    (LoadContained (Memory.fresh bytes) start mmap ↔ mmap (memsz (Memory.fresh bytes) start) ≠ 0)) ∧
  ((mmap (memsz (Memory.fresh bytes) start) ≠ 0 →
      ∀ i < relaCount (Memory.fresh bytes) start,
        Apart (mmap (memsz (Memory.fresh bytes) start))
          (mmapSize (memsz (Memory.fresh bytes) start))
          (elem (relaArr (Memory.fresh bytes) start) sizeofRela i) sizeofRela) →
    (LoadContained (Memory.fresh bytes) start mmap ↔
      mmap (memsz (Memory.fresh bytes) start) ≠ 0 ∧
        Fits (Memory.fresh bytes) start (mmap (memsz (Memory.fresh bytes) start))))
  := by
  have hgeneral : (mmap (memsz (Memory.fresh bytes) start) ≠ 0 →
      ∀ i < relaCount (Memory.fresh bytes) start,
        Apart (mmap (memsz (Memory.fresh bytes) start))
          (mmapSize (memsz (Memory.fresh bytes) start))
          (elem (relaArr (Memory.fresh bytes) start) sizeofRela i) sizeofRela) →
    (LoadContained (Memory.fresh bytes) start mmap ↔
      mmap (memsz (Memory.fresh bytes) start) ≠ 0 ∧
        Fits (Memory.fresh bytes) start (mmap (memsz (Memory.fresh bytes) start))) := by
    intro htable
    by_cases hnull : mmap (memsz (Memory.fresh bytes) start) = 0
    · constructor
      · exact fun h => absurd h (not_loadContained_null hwf hnull)
      · exact fun h => absurd hnull h.1
    · rw [loadContained_iff hwf rfl hnull (hfile hnull) (htable hnull)]
      exact (and_iff_right hnull).symm
  refine ⟨?_, hgeneral⟩
  intro h hoffset hent himage hbss hsize
  rw [hgeneral]
  · exact and_iff_left (h.fits hwf hoffset hent himage hbss hsize)
  · intro hnull i hi a hblock hentry
    apply hfile hnull a hblock
    rw [h.relaArr_eq] at hentry
    exact h.entry_within hwf hoffset hent hi hentry

end Contain

/-! ### Two runs -/

theorem memsz_withBss :
  memsz withBss 0x4000000 = 232
  := by
  rw [memsz, withBss_oneSegment.phdrs]
  decide

theorem inImage_withBss :
  InImage withBss 0x4000000 (tableEntries withBss 0x4000000 (segmentAt 0) (0 + 184))
  := by
  rw [tableEntries_withBss]
  exact withBss_oneSegment.inImage (by decide)

theorem bssInImage_withBss :
  BssInImage withBss 0x4000000
  := by
  intro hdr hsome
  have hpair := bssSection_withBss
  rw [Option.mem_def.mp hsome, Option.map_some, Option.some_inj, Prod.mk.injEq] at hpair
  use segmentAt 0
  rw [withBss_oneSegment.segments, hpair.1, hpair.2]
  refine ⟨List.mem_singleton_self _, ?_, ?_⟩
  all_goals decide

/-- The file is loaded into a block. -/
theorem loadElf_contained_withBss :
  LoadContained withBss 0x4000000 fun _ => 0x10000000
  := by
  have hfile : Apart 0x10000000 (mmapSize (memsz withBss 0x4000000)) 0x4000000 472 := by
    have hsize : mmapSize 232 = 2 ^ 20 := by decide +kernel
    rw [memsz_withBss, hsize]
    apply Apart.symm
    apply apart_of_le
    all_goals decide
  have hsize : (memsz withBss 0x4000000).toNat ≤ 2 ^ 63 := by
    rw [memsz_withBss]
    decide
  have hwf := withBss_oneSegment.wellFormed (by decide) (by decide)
  have htable := withBss_oneSegment.hasTable (by decide) dynamics_withBss
  have hent := relaEnt_eq dynamics_withBss
  have himage := inImage_withBss
  have hbss := bssInImage_withBss
  have hblock : (0x10000000 : Addr) ≠ 0 := by decide
  obtain ⟨bytes, hbytes⟩ : ∃ bytes, withBss = Memory.fresh bytes := ⟨_, rfl⟩
  rw [hbytes] at hfile hsize hwf htable hent himage hbss ⊢
  generalize hmmap : (fun _ : Addr => (0x10000000 : Addr)) = mmap
  have hblock_eq : mmap (memsz (Memory.fresh bytes) 0x4000000) = 0x10000000 := by rw [← hmmap]
  rw [← hblock_eq] at hfile hblock
  apply ((loadElf_contained hwf fun _ => hfile).1 htable rfl hent himage hbss hsize).mpr
  exact hblock

/-- The kernel has no block for the file, and the loader writes and calls all the same. -/
theorem loadElf_not_contained :
  WellFormed withBss 0x4000000 472 ∧
    InImage withBss 0x4000000 (tableEntries withBss 0x4000000 (segmentAt 0) (0 + 184)) ∧
    BssInImage withBss 0x4000000 ∧ ¬ LoadContained withBss 0x4000000 fun _ => 0
  := by
  have hwf := withBss_oneSegment.wellFormed (by decide) (by decide)
  exact ⟨hwf, inImage_withBss, bssInImage_withBss, not_loadContained_null hwf rfl⟩

end TrainsOs.Loader
