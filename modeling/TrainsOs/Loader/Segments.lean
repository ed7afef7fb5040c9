import TrainsOs.Loader.Reader

/-!
# The segments in memory

The block that the loader asks for has room for every segment. The bytes of the file are
copied there, and one section of type `SHT_NOBITS` is cleared: the last one. So the rest
of a segment is zero where that section covers it, and where the block was zero before.
-/

namespace TrainsOs.Loader

/-! ### Well-formed files -/

/-- The program headers of the file at `start`. -/
def phdrs (m : Memory) (start : Addr) : List Elf64Phdr :=
  (List.range (getEhdr m start).ePhnum).map fun i =>
    getPhdr m (elem (start + (getEhdr m start).ePhoff) sizeofPhdr i)

/-- Those of type `PT_LOAD`. -/
def segments (m : Memory) (start : Addr) : List Elf64Phdr :=
  (phdrs m start).filter fun p => p.pType == ptLoad

/-- A file of `len` bytes at `start`: its tables and the bytes of its segments are in it,
no segment has more bytes in the file than in memory, and none wraps around. -/
structure WellFormed (m : Memory) (start : Addr) (len : ℕ) : Prop where
  ident : elfReaderCheckEIdent m start = true
  phdrs : (getEhdr m start).ePhoff.toNat + sizeofPhdr * (getEhdr m start).ePhnum ≤ len
  shdrs : (getEhdr m start).eShoff.toNat + sizeofShdr * (getEhdr m start).eShnum ≤ len
  file : ∀ p ∈ segments m start, p.pOffset.toNat + p.pFilesz.toNat ≤ len
  size : ∀ p ∈ segments m start, p.pFilesz.toNat ≤ p.pMemsz.toNat
  nowrap : ∀ p ∈ segments m start, p.pVaddr.toNat + p.pMemsz.toNat < 2 ^ 64

/-- Two segments do not overlap. -/
def Elf64Phdr.Beside (p q : Elf64Phdr) : Prop :=
  p.pVaddr.toNat + p.pMemsz.toNat ≤ q.pVaddr.toNat ∨
    q.pVaddr.toNat + q.pMemsz.toNat ≤ p.pVaddr.toNat

instance (p q : Elf64Phdr) : Decidable (p.Beside q) :=
  inferInstanceAs (Decidable (_ ∨ _))

/-- The segments do not overlap. -/
def Disjoint (m : Memory) (start : Addr) : Prop :=
  (segments m start).Pairwise Elf64Phdr.Beside

/-- The link base, and how much memory the loader asks for. -/
def vaddrBase (m : Memory) (start : Addr) : Addr := (calcMemSize (phdrs m start)).1
def memsz (m : Memory) (start : Addr) : Addr := (calcMemSize (phdrs m start)).2

/-- The memory from `target` on into which the file is loaded does not overlap the file. -/
def Placed (m : Memory) (start : Addr) (len : ℕ) (target : Addr) : Prop :=
  Apart target (memsz m start).toNat start len

/-! ### The size of the image -/

section Size

theorem update_bounds (v : MemSize) (hdr : Elf64Phdr) :
  (v.update hdr).minAddr.toNat ≤ v.minAddr.toNat ∧ v.maxAddr.toNat ≤ (v.update hdr).maxAddr.toNat
  := by
  rw [MemSize.update]
  by_cases htype : hdr.pType = ptLoad ∨ hdr.pType = ptGnuRelro
  · rw [if_pos htype]
    dsimp only
    constructor
    · split_ifs with hlt
      · exact (BitVec.lt_def.mp hlt).le
      · exact le_rfl
    · split_ifs with hlt
      · exact (BitVec.lt_def.mp hlt).le
      · exact le_rfl
  · rw [if_neg htype]
    exact ⟨le_rfl, le_rfl⟩

theorem update_self {v : MemSize} {hdr : Elf64Phdr} (hload : hdr.pType = ptLoad) :
  (v.update hdr).minAddr.toNat ≤ hdr.pVaddr.toNat ∧
    (hdr.pVaddr + hdr.pMemsz).toNat ≤ (v.update hdr).maxAddr.toNat
  := by
  rw [MemSize.update, if_pos (Or.inl hload)]
  dsimp only
  constructor
  · split_ifs with hlt
    · exact le_rfl
    · exact Nat.not_lt.mp (mt BitVec.lt_def.mpr hlt)
  · split_ifs with hlt
    · exact le_rfl
    · exact Nat.not_lt.mp (mt BitVec.lt_def.mpr hlt)

theorem foldl_update_bounds (ps : List Elf64Phdr) (v : MemSize) :
  (ps.foldl MemSize.update v).minAddr.toNat ≤ v.minAddr.toNat ∧
    v.maxAddr.toNat ≤ (ps.foldl MemSize.update v).maxAddr.toNat
  := by
  induction ps generalizing v with
  | nil => exact ⟨le_rfl, le_rfl⟩
  | cons p ps ih =>
    rw [List.foldl_cons]
    have hfirst := update_bounds v p
    have hrest := ih (v.update p)
    exact ⟨hrest.1.trans hfirst.1, hfirst.2.trans hrest.2⟩

theorem foldl_update_self {ps : List Elf64Phdr} {p : Elf64Phdr} (hp : p ∈ ps)
    (hload : p.pType = ptLoad) (v : MemSize) :
  (ps.foldl MemSize.update v).minAddr.toNat ≤ p.pVaddr.toNat ∧
    (p.pVaddr + p.pMemsz).toNat ≤ (ps.foldl MemSize.update v).maxAddr.toNat
  := by
  induction ps generalizing v with
  | nil => cases hp
  | cons q ps ih =>
    rw [List.foldl_cons]
    rcases List.mem_cons.mp hp with rfl | hp
    · have hself := update_self (v := v) hload
      have hrest := foldl_update_bounds ps (v.update p)
      exact ⟨hrest.1.trans hself.1, hself.2.trans hrest.2⟩
    · exact ih hp _

/-- A segment is between the link base and the end of the image. -/
theorem calcMemSize_spec {ps : List Elf64Phdr} {p : Elf64Phdr} (hp : p ∈ ps)
    (hload : p.pType = ptLoad) (hnowrap : p.pVaddr.toNat + p.pMemsz.toNat < 2 ^ 64) :
  (calcMemSize ps).1.toNat ≤ p.pVaddr.toNat ∧
    p.pVaddr.toNat + p.pMemsz.toNat ≤ (calcMemSize ps).1.toNat + (calcMemSize ps).2.toNat
  := by
  rw [calcMemSize]
  dsimp only
  generalize hv : ps.foldl MemSize.update
    { minAddr := BitVec.allOnes 64, maxAddr := 0, maxAlign := 1 } = v
  have hself := foldl_update_self hp hload
    { minAddr := BitVec.allOnes 64, maxAddr := 0, maxAlign := 1 }
  rw [hv, BitVec.toNat_add, Nat.mod_eq_of_lt hnowrap] at hself
  have hmask : (v.minAddr &&& ~~~(v.maxAlign - 1)).toNat ≤ v.minAddr.toNat := by
    rw [BitVec.toNat_and]
    exact Nat.and_le_left
  have hmax := v.maxAddr.isLt
  rw [BitVec.toNat_sub]
  omega

end Size

/-! ### Reading the tables of the file -/

section Tables

variable {m m' : Memory} {start : Addr} {len : ℕ}

/-- The file has not been changed. -/
def Intact (m : Memory) (start : Addr) (len : ℕ) (m' : Memory) : Prop :=
  ∀ a, Within start len a → m'.byte a = m.byte a

/-- An entry of a table of the file is in the file. -/
theorem elem_within {off a : Addr} {size n i : ℕ} (hi : i < n) (hlen : off.toNat + size * n ≤ len)
    (h : Within (elem (start + off) size i) size a) :
  Within start len a
  := by
  rw [elem, BitVec.add_assoc] at h
  apply h.mono
  rw [BitVec.toNat_add, BitVec.toNat_ofNat]
  have hmod := Nat.mod_le (off.toNat + size * i % 2 ^ 64) (2 ^ 64)
  have hmod' := Nat.mod_le (size * i) (2 ^ 64)
  have hmul : size * (i + 1) ≤ size * n := Nat.mul_le_mul_left size hi
  rw [Nat.mul_succ] at hmul
  omega

theorem getPhdr_congr {p : Addr} (h : ∀ a, Within p sizeofPhdr a → m'.byte a = m.byte a) :
  getPhdr m' p = getPhdr m p
  := by
  have hfield := fun d n hn => Memory.load_field h d (k := n) hn
  have hfirst : m'.load p 4 = m.load p 4 := Memory.load_first h (by decide)
  simp only [getPhdr, getU32, getU64, hfirst, hfield 8 8 (by decide), hfield 16 8 (by decide),
    hfield 32 8 (by decide), hfield 40 8 (by decide), hfield 48 8 (by decide)]

theorem getShdr_congr {p : Addr} (h : ∀ a, Within p sizeofShdr a → m'.byte a = m.byte a) :
  getShdr m' p = getShdr m p
  := by
  have hfield := fun d n hn => Memory.load_field h d (k := n) hn
  have hfirst : m'.load p 4 = m.load p 4 := Memory.load_first h (by decide)
  simp only [getShdr, getU32, getU64, hfirst, hfield 4 4 (by decide), hfield 16 8 (by decide),
    hfield 24 8 (by decide), hfield 32 8 (by decide), hfield 56 8 (by decide)]

/-- The program headers are read from the file. -/
theorem WellFormed.getPhdr_eq (hwf : WellFormed m start len) (h : Intact m start len m') {i : ℕ}
    (hi : i < (getEhdr m start).ePhnum) :
  getPhdr m' (elem (start + (getEhdr m start).ePhoff) sizeofPhdr i)
    = getPhdr m (elem (start + (getEhdr m start).ePhoff) sizeofPhdr i)
  := getPhdr_congr fun a ha => h a (elem_within hi hwf.phdrs ha)

/-- The section headers are read from the file. -/
theorem WellFormed.getShdr_eq (hwf : WellFormed m start len) (h : Intact m start len m')
    {sHdr : Addr} (hs : sHdr ∈ sections m start) :
  getShdr m' sHdr = getShdr m sHdr
  := by
  obtain ⟨i, hi, rfl⟩ := List.mem_map.mp hs
  exact getShdr_congr fun a ha => h a (elem_within (List.mem_range.mp hi) hwf.shdrs ha)

end Tables

/-! ### Copying -/

section Copy

variable {m m' : Memory} {start target a : Addr} {len : ℕ} {p : Elf64Phdr}

/-- The difference between where the image is loaded and where it is linked. -/
def vaddrDiff (m : Memory) (start target : Addr) : Addr := target - vaddrBase m start

theorem mem_segments :
  p ∈ segments m start ↔ p ∈ phdrs m start ∧ p.pType = ptLoad
  := by rw [segments, List.mem_filter, beq_iff_eq]

/-- A segment lies in the block. -/
theorem WellFormed.segment_within (hwf : WellFormed m start len) (hp : p ∈ segments m start)
    {n : ℕ} (hn : n ≤ p.pMemsz.toNat) (h : Within (p.pVaddr + vaddrDiff m start target) n a) :
  Within target (memsz m start).toNat a
  := by
  obtain ⟨hmem, hload⟩ := mem_segments.mp hp
  obtain ⟨hbase, hend⟩ := calcMemSize_spec hmem hload (hwf.nowrap p hp)
  have heq : p.pVaddr + vaddrDiff m start target = target + (p.pVaddr - vaddrBase m start) := by
    rw [vaddrDiff, BitVec.sub_eq_add_neg, BitVec.sub_eq_add_neg, ← BitVec.add_assoc,
      BitVec.add_comm p.pVaddr, BitVec.add_assoc]
  rw [heq] at h
  apply h.mono
  have hvaddr := p.pVaddr.isLt
  rw [BitVec.toNat_sub]
  rw [vaddrBase, memsz]
  omega

/-- What is in a segment when the image is linked is there when it is loaded. -/
theorem within_segment {base diff : Addr} {n : ℕ} (hlow : p.pVaddr.toNat ≤ base.toNat)
    (hhigh : base.toNat + n ≤ p.pVaddr.toNat + p.pMemsz.toNat) (h : Within (base + diff) n a) :
  Within (p.pVaddr + diff) p.pMemsz.toNat a
  := by
  have heq : base + diff = p.pVaddr + diff + (base - p.pVaddr) := by
    rw [BitVec.add_assoc, BitVec.add_comm diff, ← BitVec.add_assoc, BitVec.add_comm p.pVaddr,
      BitVec.sub_add_cancel]
  rw [heq] at h
  apply h.mono
  rw [BitVec.toNat_sub_of_le (BitVec.le_def.mpr hlow)]
  omega

/-- The bytes of a segment are in the file. -/
theorem WellFormed.file_within (hwf : WellFormed m start len) (hp : p ∈ segments m start)
    (h : Within (start + p.pOffset) p.pFilesz.toNat a) :
  Within start len a
  := h.mono (hwf.file p hp)

/-- Copying a segment whose bytes are unchanged. -/
theorem memcpySegment_eq (hwf : WellFormed m start len) (hplaced : Placed m start len target)
    (hp : p ∈ segments m start) (h : Intact m start len m') :
  memcpySegment start (vaddrDiff m start target) m' p
    = m'.overlay (p.pVaddr + vaddrDiff m start target) p.pFilesz.toNat
        fun i => m.byte (start + p.pOffset + BitVec.ofNat 64 i)
  := by
  have happart : Apart (p.pVaddr + vaddrDiff m start target) p.pFilesz.toNat
      (start + p.pOffset) p.pFilesz.toNat := fun a ha ha' =>
    hplaced a (hwf.segment_within hp (hwf.size p hp) ha) (hwf.file_within hp ha')
  rw [memcpySegment, if_pos (mem_segments.mp hp).2, Memory.copy_eq happart p.pFilesz.isLt.le]
  apply Memory.overlay_congr
  intro i hi
  exact h _ (hwf.file_within hp (within_add hi))

/-- Copying the segment writes at the address `a`. -/
def Elf64Phdr.Copies (p : Elf64Phdr) (diff a : Addr) : Prop :=
  p.pType = ptLoad ∧ Within (p.pVaddr + diff) p.pFilesz.toNat a

theorem memcpySegment_written {diff : Addr} :
  (memcpySegment start diff m p).written a = true ↔ p.Copies diff a ∨ m.written a = true
  := by
  rw [memcpySegment]
  by_cases hload : p.pType = ptLoad
  · rw [if_pos hload, Memory.copy_written p.pFilesz.isLt.le]
    apply or_congr_left
    exact (and_iff_right hload).symm
  · rw [if_neg hload]
    exact (or_iff_right fun h => hload h.1).symm

theorem memcpySegment_outside {diff : Addr} (h : ¬ p.Copies diff a) :
  (memcpySegment start diff m p).byte a = m.byte a
  := by
  rw [memcpySegment]
  by_cases hload : p.pType = ptLoad
  · rw [if_pos hload, Memory.copy_outside p.pFilesz.isLt.le fun hin => h ⟨hload, hin⟩]
  · rw [if_neg hload]

/-- No segment is copied over the file. -/
def Clear (m : Memory) (start : Addr) (len : ℕ) (diff : Addr) : Prop :=
  ∀ p ∈ phdrs m start, ∀ a, p.Copies diff a → ¬ Within start len a

theorem Placed.clear (hplaced : Placed m start len target) (hwf : WellFormed m start len) :
  Clear m start len (vaddrDiff m start target)
  := by
  rintro p hp a ⟨hload, hin⟩
  have hseg := mem_segments.mpr ⟨hp, hload⟩
  exact hplaced a (hwf.segment_within hseg (hwf.size p hseg) hin)

theorem Clear.memcpySegment_intact {diff : Addr} (hclear : Clear m start len diff)
    (hp : p ∈ phdrs m start) (h : Intact m start len m') :
  Intact m start len (memcpySegment start diff m' p)
  := by
  intro a ha
  rw [memcpySegment_outside fun hcopy => hclear p hp a hcopy ha, h a ha]

/-- The loop of `memcpy_prog_hdr` copies the segments of the file. -/
theorem Clear.memcpyProgHdr_eq {diff : Addr} (hclear : Clear m start len diff)
    (hwf : WellFormed m start len) :
  memcpyProgHdr (reader m start) diff m
    = (phdrs m start).foldl (memcpySegment start diff) m
  := by
  apply Memory.foldl_read (P := Intact m start len) (fun _ _ => rfl)
  · intro i hi m' hm'
    exact hwf.getPhdr_eq hm' (List.mem_range.mp hi)
  · intro i hi m' hm'
    exact hclear.memcpySegment_intact (List.mem_map_of_mem hi) hm'

/-- Copying leaves the file alone. -/
theorem Clear.memcpyProgHdr_intact {diff : Addr} (hclear : Clear m start len diff)
    (hwf : WellFormed m start len) :
  Intact m start len (memcpyProgHdr (reader m start) diff m)
  := by
  rw [hclear.memcpyProgHdr_eq hwf]
  apply List.foldlRecOn (motive := Intact m start len)
  · exact fun _ _ => rfl
  · exact fun m' h p hp => hclear.memcpySegment_intact hp h

/-- Headers that are not of type `PT_LOAD` are skipped. -/
theorem foldl_segments (diff : Addr) :
  (phdrs m start).foldl (memcpySegment start diff) m'
    = (segments m start).foldl (memcpySegment start diff) m'
  := by
  rw [segments, List.foldl_filter]
  congr
  funext m' p
  by_cases hload : p.pType = ptLoad
  · rw [if_pos (beq_iff_eq.mpr hload)]
  · rw [if_neg (mt beq_iff_eq.mp hload), memcpySegment, if_neg hload]

/-- The address at which byte `i` of a segment is loaded. -/
def segmentByte (p : Elf64Phdr) (i : ℕ) (diff : Addr) : Addr :=
  p.pVaddr + BitVec.ofNat 64 i + diff

theorem segmentByte_eq (p : Elf64Phdr) (i : ℕ) (diff : Addr) :
  segmentByte p i diff = p.pVaddr + diff + BitVec.ofNat 64 i
  := by
  rw [segmentByte, BitVec.add_assoc, BitVec.add_assoc, BitVec.add_comm diff]

/-- The bytes of two segments are at different addresses. -/
theorem Elf64Phdr.Beside.apart {q : Elf64Phdr} (h : p.Beside q)
    (hp : p.pVaddr.toNat + p.pMemsz.toNat < 2 ^ 64) (hq : q.pVaddr.toNat + q.pMemsz.toNat < 2 ^ 64)
    (diff : Addr) :
  Apart (p.pVaddr + diff) p.pMemsz.toNat (q.pVaddr + diff) q.pMemsz.toNat
  := by
  apply Apart.move
  rcases h with hle | hle
  · exact apart_of_le hle hq.le
  · exact (apart_of_le hle hp.le).symm

/-- Copying segments one after the other. -/
theorem foldl_memcpySegment (hwf : WellFormed m start len) (hplaced : Placed m start len target)
    {ps : List Elf64Phdr} (hps : ∀ p ∈ ps, p ∈ segments m start)
    (hdisj : ps.Pairwise Elf64Phdr.Beside) (h : Intact m start len m') :
  (∀ p ∈ ps, ∀ i < p.pFilesz.toNat,
      (ps.foldl (memcpySegment start (vaddrDiff m start target)) m').byte
        (segmentByte p i (vaddrDiff m start target))
        = m.byte (start + p.pOffset + BitVec.ofNat 64 i)) ∧
    ∀ a, (∀ p ∈ ps, ¬ Within (p.pVaddr + vaddrDiff m start target) p.pFilesz.toNat a) →
      (ps.foldl (memcpySegment start (vaddrDiff m start target)) m').byte a = m'.byte a
  := by
  induction ps generalizing m' with
  | nil => exact ⟨nofun, fun _ _ => rfl⟩
  | cons p ps ih =>
    have hp := hps p List.mem_cons_self
    have hcopy := memcpySegment_eq hwf hplaced hp h
    have hintact := (hplaced.clear hwf).memcpySegment_intact (mem_segments.mp hp).1 h
    obtain ⟨hbeside, hdisj⟩ := List.pairwise_cons.mp hdisj
    obtain ⟨hbytes, hother⟩ := ih (fun q hq => hps q (List.mem_cons_of_mem p hq)) hdisj hintact
    rw [List.foldl_cons]
    constructor
    · intro q hq i hi
      rcases List.mem_cons.mp hq with rfl | hq
      · rw [segmentByte_eq, hother, hcopy, Memory.overlay_add hi q.pFilesz.isLt.le]
        intro q' hq' hin
        have hseg := hps q' (List.mem_cons_of_mem q hq')
        apply (hbeside q' hq').apart (hwf.nowrap q hp) (hwf.nowrap q' hseg) _ _
          (within_add (hi.trans_le (hwf.size q hp)))
        exact hin.trans_le (hwf.size q' hseg)
      · exact hbytes q hq i hi
    · intro a ha
      rw [hother a fun q hq => ha q (List.mem_cons_of_mem p hq), hcopy,
        Memory.overlay_outside (ha p List.mem_cons_self)]

/-- The bytes of the segments after `memcpy_prog_hdr`. -/
theorem memcpyProgHdr_byte (hwf : WellFormed m start len) (hplaced : Placed m start len target)
    (hdisj : Disjoint m start) (hp : p ∈ segments m start) {i : ℕ} (hi : i < p.pMemsz.toNat) :
  (memcpyProgHdr (reader m start) (vaddrDiff m start target) m).byte
      (segmentByte p i (vaddrDiff m start target))
    = if i < p.pFilesz.toNat then m.byte (start + p.pOffset + BitVec.ofNat 64 i)
      else m.byte (segmentByte p i (vaddrDiff m start target))
  := by
  obtain ⟨hbytes, hother⟩ :=
    foldl_memcpySegment hwf hplaced (fun _ h => h) hdisj (fun a _ => Eq.refl (m.byte a))
  rw [(hplaced.clear hwf).memcpyProgHdr_eq hwf, foldl_segments]
  split_ifs with hfile
  · exact hbytes p hp i hfile
  · apply hother
    intro q hq hin
    rw [segmentByte_eq] at hin
    by_cases heq : p = q
    · rw [← heq, Within, BitVec.add_comm, BitVec.add_sub_cancel, BitVec.toNat_ofNat,
        Nat.mod_eq_of_lt (hi.trans p.pMemsz.isLt)] at hin
      exact hfile hin
    · have hsymm : Std.Symm Elf64Phdr.Beside := ⟨fun _ _ => Or.symm⟩
      have hbeside : p.Beside q := List.Pairwise.forall hdisj hp hq heq
      apply hbeside.apart (hwf.nowrap p hp) (hwf.nowrap q hq) _ _ (within_add hi)
      exact hin.trans_le (hwf.size q hq)

end Copy

/-! ### Clearing -/

section Clear

variable {m m' : Memory} {start target a : Addr} {len : ℕ} {p : Elf64Phdr}

/-- The section that is cleared covers the link address `v`. -/
def InBss (m : Memory) (start v : Addr) : Prop :=
  ∃ hdr ∈ bssSection m start, Within hdr.shAddr hdr.shSize.toNat v

instance (m : Memory) (start v : Addr) : Decidable (InBss m start v) :=
  inferInstanceAs (Decidable (∃ hdr ∈ bssSection m start, _))

/-- What `clear_bss` does. -/
theorem clearBss_byte (hwf : WellFormed m start len) (h : Intact m start len m') (v diff : Addr) :
  (InBss m start v → (clearBss (reader m start) diff m').byte (v + diff) = 0) ∧
    (¬ InBss m start v →
      (clearBss (reader m start) diff m').byte (v + diff) = m'.byte (v + diff))
  := by
  rw [clearBss]
  cases hbss : ((sections m start).filter (isNobits m)).getLast? with
  | none =>
    rw [show (reader m start).sHdrBss = none from hbss]
    constructor
    · rintro ⟨hdr, hsome, -⟩
      rw [bssSection, hbss] at hsome
      cases hsome
    · exact fun _ => rfl
  | some sHdr =>
    have hmem : sHdr ∈ sections m start :=
      List.mem_of_mem_filter (List.mem_of_getLast? hbss)
    have hsection : getShdr m sHdr ∈ bssSection m start := by
      rw [bssSection, hbss]
      rfl
    rw [show (reader m start).sHdrBss = some sHdr from hbss]
    dsimp only
    rw [hwf.getShdr_eq h hmem, Memory.fill_eq 0 (getShdr m sHdr).shSize.isLt.le]
    have hin : Within ((getShdr m sHdr).shAddr + diff) (getShdr m sHdr).shSize.toNat (v + diff) ↔
        Within (getShdr m sHdr).shAddr (getShdr m sHdr).shSize.toNat v := by
      rw [within_add_iff, BitVec.add_sub_cancel]
    constructor
    · rintro ⟨hdr, hsome, hv⟩
      obtain rfl := Option.some.inj (hsection.symm.trans hsome)
      exact Memory.overlay_within (hin.mpr hv)
    · intro hv
      apply Memory.overlay_outside
      intro hwithin
      exact hv ⟨_, hsection, hin.mp hwithin⟩

end Clear

/-! ### Zero fill -/

/-- Every segment is in memory: the bytes of the file, and then zeros. -/
def Filled (m m' : Memory) (start diff : Addr) : Prop :=
  ∀ p ∈ segments m start, ∀ i < p.pMemsz.toNat,
    m'.byte (segmentByte p i diff)
      = if i < p.pFilesz.toNat then m.byte (start + p.pOffset + BitVec.ofNat 64 i) else 0

/-- The last section of type `SHT_NOBITS` covers no byte of the file that is not zero, and
every byte after those of the file that is not zero already. -/
structure Covered (m : Memory) (start diff : Addr) : Prop where
  file : ∀ p ∈ segments m start, ∀ i < p.pFilesz.toNat,
    InBss m start (p.pVaddr + BitVec.ofNat 64 i) →
      m.byte (start + p.pOffset + BitVec.ofNat 64 i) = 0
  rest : ∀ p ∈ segments m start, ∀ i < p.pMemsz.toNat, p.pFilesz.toNat ≤ i →
    InBss m start (p.pVaddr + BitVec.ofNat 64 i) ∨ m.byte (segmentByte p i diff) = 0

theorem filled_iff {m : Memory} {start target : Addr} {len : ℕ} (hwf : WellFormed m start len)
    (hdisj : Disjoint m start) (hplaced : Placed m start len target) :
  Filled m (loadSegments (reader m start) (vaddrDiff m start target) m) start
      (vaddrDiff m start target) ↔
    Covered m start (vaddrDiff m start target)
  := by
  have hintact := (hplaced.clear hwf).memcpyProgHdr_intact hwf
  have hbyte : ∀ p ∈ segments m start, ∀ i < p.pMemsz.toNat,
      (InBss m start (p.pVaddr + BitVec.ofNat 64 i) →
        (loadSegments (reader m start) (vaddrDiff m start target) m).byte
          (segmentByte p i (vaddrDiff m start target)) = 0) ∧
      (¬ InBss m start (p.pVaddr + BitVec.ofNat 64 i) →
        (loadSegments (reader m start) (vaddrDiff m start target) m).byte
          (segmentByte p i (vaddrDiff m start target)) =
        if i < p.pFilesz.toNat then m.byte (start + p.pOffset + BitVec.ofNat 64 i)
        else m.byte (segmentByte p i (vaddrDiff m start target))) := by
    intro p hp i hi
    obtain ⟨hin, hout⟩ := clearBss_byte hwf hintact (p.pVaddr + BitVec.ofNat 64 i)
      (vaddrDiff m start target)
    refine ⟨hin, fun h => (hout h).trans ?_⟩
    exact memcpyProgHdr_byte hwf hplaced hdisj hp hi
  constructor
  · intro hfilled
    constructor
    · intro p hp i hi hbss
      have hmem := hi.trans_le (hwf.size p hp)
      rw [← (hbyte p hp i hmem).1 hbss, hfilled p hp i hmem, if_pos hi]
    · intro p hp i hi hrest
      by_contra hnot
      obtain ⟨hbss, hne⟩ := not_or.mp hnot
      apply hne
      have hkept := (hbyte p hp i hi).2 hbss
      rw [hfilled p hp i hi, if_neg (Nat.not_lt.mpr hrest), if_neg (Nat.not_lt.mpr hrest)] at hkept
      exact hkept.symm
  · intro hcov p hp i hi
    by_cases hbss : InBss m start (p.pVaddr + BitVec.ofNat 64 i)
    · rw [(hbyte p hp i hi).1 hbss]
      split_ifs with hfile
      · exact (hcov.file p hp i hfile hbss).symm
      · rfl
    · rw [(hbyte p hp i hi).2 hbss]
      split_ifs with hfile
      · rfl
      · exact (hcov.rest p hp i hi (Nat.not_lt.mp hfile)).resolve_left hbss

/-- Loading fills every segment exactly when the file can be read and the section that is
cleared covers what has to be zero. -/
theorem loadSegments_filled {m : Memory} {start target : Addr} {len : ℕ}
    (hwf : WellFormed m start len) (hdisj : Disjoint m start)
    (hplaced : Placed m start len target) :
  (∃ r, elfReaderCtr m (some start) = some r ∧
      Filled m (loadSegments r (target - (calcMemSize (r.phdrs m)).1) m) start
        (target - (calcMemSize (r.phdrs m)).1)) ↔
    Readable m start ∧ Covered m start (target - (calcMemSize (phdrs m start)).1)
  := by
  constructor
  · rintro ⟨r, hr, hfilled⟩
    obtain ⟨hreadable, rfl⟩ := (elfReaderCtr_eq_some_iff hwf.ident).mp hr
    exact ⟨hreadable, (filled_iff hwf hdisj hplaced).mp hfilled⟩
  · rintro ⟨hreadable, hcov⟩
    use reader m start
    refine ⟨(elfReaderCtr_eq_some_iff hwf.ident).mpr ⟨hreadable, rfl⟩, ?_⟩
    exact (filled_iff hwf hdisj hplaced).mpr hcov

/-! ### Two files -/

/-- A number of `n` bytes. -/
def numBytes (n v : ℕ) : List UInt8 :=
  (List.range n).map fun i => UInt8.ofNat (v / 256 ^ i)

/-- The header of a file of type `ET_DYN`, whose names are in its second section. -/
def ehdrBytes (phnum shoff shnum : ℕ) : List UInt8 :=
  List.flatten [[0x7f, 69, 76, 70, 2, 1, 1], numBytes 9 0, numBytes 2 3, numBytes 2 183,
    numBytes 4 1, numBytes 8 0, numBytes 8 64, numBytes 8 shoff, numBytes 4 0, numBytes 2 64,
    numBytes 2 56, numBytes 2 phnum, numBytes 2 64, numBytes 2 shnum, numBytes 2 1]

def phdrBytes (offset vaddr filesz memsz : ℕ) : List UInt8 :=
  List.flatten [numBytes 4 1, numBytes 4 7, numBytes 8 offset, numBytes 8 vaddr,
    numBytes 8 vaddr, numBytes 8 filesz, numBytes 8 memsz, numBytes 8 8]

def shdrBytes (name type addr offset size entsize : ℕ) : List UInt8 :=
  List.flatten [numBytes 4 name, numBytes 4 type, numBytes 8 0, numBytes 8 addr,
    numBytes 8 offset, numBytes 8 size, numBytes 8 0, numBytes 8 8, numBytes 8 entsize]

/-- A file of 216 bytes before its section headers, all of which are loaded at `vaddr`. At
184 is a table with one relocation, of the word at 208. The rest of the segment is
described by the sections `bss`. -/
def oneSegment (vaddr memsz : ℕ) (bss : List (ℕ × ℕ)) : List UInt8 :=
  List.flatten [ehdrBytes 1 216 (3 + bss.length), phdrBytes 0 vaddr 216 memsz,
    dotDynamic, numBytes 8 0,
    numBytes 8 7, numBytes 8 (vaddr + 184), numBytes 8 8, numBytes 8 24, numBytes 8 9,
    numBytes 8 24,
    numBytes 8 (vaddr + 208), numBytes 8 1027, numBytes 8 0x1234,
    numBytes 8 0,
    shdrBytes 8 0 0 0 0 0, shdrBytes 8 3 (vaddr + 120) 120 9 0,
    shdrBytes 0 6 (vaddr + 136) 136 48 16,
    bss.flatMap fun section_ => shdrBytes 8 8 section_.1 216 section_.2 0]

/-- The file at an address of the memory, which has the byte `rest` everywhere else. -/
def inMemory (file : List UInt8) (rest : UInt8) : Memory :=
  Memory.fresh fun a => file.getD (a - 0x4000000).toNat rest

/-- The memory with the file whose rest is one section of 16 bytes. -/
def withBss : Memory := inMemory (oneSegment 0 232 [(216, 16)]) 0xAA

/-- The memory with the file whose rest is two sections of 8 bytes. -/
def withTwoBss : Memory := inMemory (oneSegment 0 232 [(216, 8), (224, 8)]) 0xAA

/-- The program header of these files. -/
def segmentAt (vaddr : Addr) : Elf64Phdr where
  pType := ptLoad
  pOffset := 0
  pVaddr := vaddr
  pFilesz := 216
  pMemsz := 232
  pAlign := 8

/-- The memory has such a file of `len` bytes. -/
structure OneSegment (m : Memory) (vaddr : Addr) (len : ℕ) : Prop where
  ident : elfReaderCheckEIdent m 0x4000000 = true
  tables : (getEhdr m 0x4000000).ePhoff.toNat + sizeofPhdr * (getEhdr m 0x4000000).ePhnum ≤ 216 ∧
    (getEhdr m 0x4000000).eShoff.toNat + sizeofShdr * (getEhdr m 0x4000000).eShnum ≤ len
  phdrs : phdrs m 0x4000000 = [segmentAt vaddr]

section OneSegment

variable {m : Memory} {vaddr : Addr} {len : ℕ}

theorem OneSegment.segments (h : OneSegment m vaddr len) :
  segments m 0x4000000 = [segmentAt vaddr]
  := by
  rw [Loader.segments, h.phdrs]
  rfl

theorem OneSegment.wellFormed (h : OneSegment m vaddr len) (hvaddr : vaddr.toNat ≤ 2 ^ 32)
    (hlen : 216 ≤ len) :
  WellFormed m 0x4000000 len
  := by
  refine ⟨h.ident, h.tables.1.trans hlen, h.tables.2, ?_, ?_, ?_⟩
  all_goals
    intro p hp
    rw [h.segments, List.mem_singleton] at hp
    rw [hp]
  · exact hlen
  · have hle : (216 : Addr).toNat ≤ (232 : Addr).toNat := by decide
    exact hle
  · have hsize : (segmentAt vaddr).pMemsz.toNat = 232 := rfl
    have hbase : (segmentAt vaddr).pVaddr.toNat = vaddr.toNat := rfl
    omega

theorem OneSegment.disjoint (h : OneSegment m vaddr len) :
  Disjoint m 0x4000000
  := by
  rw [Disjoint, h.segments]
  exact List.pairwise_singleton _ _

/-- The block at `0x10000000` is apart from the file. -/
theorem OneSegment.placed (h : OneSegment m vaddr len) (hlen : len ≤ 2 ^ 24)
    (hsize : (calcMemSize [segmentAt vaddr]).2.toNat ≤ 2 ^ 32) :
  Placed m 0x4000000 len 0x10000000
  := by
  rw [Placed, memsz, h.phdrs]
  apply Apart.symm
  have hstart : (0x4000000 : Addr).toNat = 2 ^ 26 := rfl
  have htarget : (0x10000000 : Addr).toNat = 2 ^ 28 := rfl
  apply apart_of_le
  · omega
  · omega

end OneSegment

theorem withBss_oneSegment :
  OneSegment withBss 0 472
  := by
  constructor
  all_goals decide +kernel

theorem withTwoBss_oneSegment :
  OneSegment withTwoBss 0 536
  := by
  constructor
  all_goals decide +kernel

/-- The dynamic section of these files. -/
def dynamicsAt (vaddr : Addr) : List Elf64Dyn :=
  [{ dTag := dtRela, dUn := vaddr + 184 }, { dTag := dtRelasz, dUn := 24 },
    { dTag := dtRelaent, dUn := 24 }]

theorem dynamics_withBss :
  dynamics withBss 0x4000000 = dynamicsAt 0
  := by decide +kernel

theorem relaEnt_eq {m : Memory} {vaddr : Addr} (h : dynamics m 0x4000000 = dynamicsAt vaddr) :
  relaEnt m 0x4000000 = 24
  := by
  rw [relaEnt, h]
  rfl

theorem readable_withBss :
  Readable withBss 0x4000000
  := by
  refine ⟨⟨0x4000000 + 344, ?_, ?_⟩, ?_⟩
  · decide +kernel
  · decide +kernel
  · rw [relaEnt_eq dynamics_withBss]
    decide

/-- Where the section that is cleared is. -/
theorem bssSection_withBss :
  (bssSection withBss 0x4000000).map (fun hdr => (hdr.shAddr, hdr.shSize)) = some (216, 16)
  := by decide +kernel

theorem bssSection_withTwoBss :
  (bssSection withTwoBss 0x4000000).map (fun hdr => (hdr.shAddr, hdr.shSize)) = some (224, 8)
  := by decide +kernel

theorem inBss_iff {m : Memory} {start addr size v : Addr}
    (h : (bssSection m start).map (fun hdr => (hdr.shAddr, hdr.shSize)) = some (addr, size)) :
  InBss m start v ↔ Within addr size.toNat v
  := by
  obtain ⟨hdr, hbss, hpair⟩ := Option.map_eq_some_iff.mp h
  rw [Prod.mk.injEq] at hpair
  rw [InBss, hbss, ← hpair.1, ← hpair.2]
  simp

/-- A file whose rest is one section. -/
theorem loadSegments_filled_withBss :
  ∃ r, elfReaderCtr withBss (some 0x4000000) = some r ∧
    Filled withBss (loadSegments r (0x10000000 - (calcMemSize (r.phdrs withBss)).1) withBss)
      0x4000000 (0x10000000 - (calcMemSize (r.phdrs withBss)).1)
  := by
  apply (loadSegments_filled (withBss_oneSegment.wellFormed (by decide) (by decide))
    withBss_oneSegment.disjoint (withBss_oneSegment.placed (by decide) (by decide +kernel))).mpr
  refine ⟨readable_withBss, ?_, ?_⟩
  · rw [withBss_oneSegment.segments]
    simp only [inBss_iff bssSection_withBss]
    decide +kernel
  · rw [withBss_oneSegment.segments]
    simp only [inBss_iff bssSection_withBss]
    decide +kernel

/-- A file whose rest is two sections: the first of them is not cleared. -/
theorem loadSegments_not_filled :
  WellFormed withTwoBss 0x4000000 536 ∧ Disjoint withTwoBss 0x4000000 ∧
    Placed withTwoBss 0x4000000 536 0x10000000 ∧
    ¬ ∃ r, elfReaderCtr withTwoBss (some 0x4000000) = some r ∧
      Filled withTwoBss
        (loadSegments r (0x10000000 - (calcMemSize (r.phdrs withTwoBss)).1) withTwoBss) 0x4000000
        (0x10000000 - (calcMemSize (r.phdrs withTwoBss)).1)
  := by
  have hwf := withTwoBss_oneSegment.wellFormed (by decide) (by decide)
  have hdisj := withTwoBss_oneSegment.disjoint
  have hplaced := withTwoBss_oneSegment.placed (by decide) (by decide +kernel)
  refine ⟨hwf, hdisj, hplaced, ?_⟩
  rintro ⟨r, hr, hfilled⟩
  obtain ⟨-, rfl⟩ := (elfReaderCtr_eq_some_iff hwf.ident).mp hr
  have hcov := (filled_iff hwf hdisj hplaced).mp hfilled
  have hp : segmentAt 0 ∈ segments withTwoBss 0x4000000 := by
    rw [withTwoBss_oneSegment.segments]
    exact List.mem_singleton_self _
  have hbyte := hcov.rest _ hp 216 (by decide) (by decide)
  rw [inBss_iff bssSection_withTwoBss, vaddrDiff, vaddrBase, withTwoBss_oneSegment.phdrs] at hbyte
  revert hbyte
  decide +kernel

end TrainsOs.Loader
