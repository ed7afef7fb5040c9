import TrainsOs.Lib.WordMemory
import Mathlib.Data.Int.Notation
import Mathlib.Data.Nat.Notation
import Mathlib.Tactic.IntervalCases

/-!
# The identity map

`create_page_tables` of `mmu.c` writes six tables of 512 entries, one after the other: the
PGD, the PUD, and the four PMDs, whose entries are blocks of two megabytes. A walk through
them finds every address below four gigabytes where it is, with the attributes of code, data
or devices, and nothing else.
-/

namespace Mmu

open WordMemory

/-! ### The constants of `mmu.h` -/

def dataBase : UInt64 := 0x00200000
def deviceBase : UInt64 := 0xFC000000

def pageShift : UInt64 := 12
def tableShift : UInt64 := 9
def sectionShift : UInt64 := pageShift + tableShift

def pageSize : UInt64 := 1 <<< pageShift
def sectionSize : UInt64 := 1 <<< sectionShift

def pgdShift : UInt64 := pageShift + 3 * tableShift
def pudShift : UInt64 := pageShift + 2 * tableShift

def entriesPerTable : UInt64 := 1 <<< tableShift

def pudSliceSz : UInt64 := 1 <<< pudShift

def idMapTblSz : UInt64 := 6 * pageSize

def mattrDeviceIndex : UInt64 := 0
def mattrAllCacheIndex : UInt64 := 3

def tdValid : UInt64 := (1 : UInt64) <<< 0
def tdBlock : UInt64 := (0 : UInt64) <<< 1
def tdTable : UInt64 := (1 : UInt64) <<< 1
def tdAccess : UInt64 := (1 : UInt64) <<< 10
def tdDataPerms : UInt64 := (1 : UInt64) <<< 6
def tdCodePerms : UInt64 := (0 : UInt64) <<< 6
def tdInnerSharable : UInt64 := (3 : UInt64) <<< 8

def tdTableFlags : UInt64 := tdTable ||| tdValid

def tdDataBlockFlags : UInt64 :=
  tdAccess ||| tdInnerSharable ||| tdDataPerms ||| mattrAllCacheIndex <<< 2 ||| tdBlock ||| tdValid

def tdDeviceBlockFlags : UInt64 :=
  tdAccess ||| tdInnerSharable ||| tdDataPerms ||| mattrDeviceIndex <<< 2 ||| tdBlock ||| tdValid

def tdCodeBlockFlags : UInt64 :=
  tdAccess ||| tdInnerSharable ||| tdCodePerms ||| mattrAllCacheIndex <<< 2 ||| tdBlock ||| tdValid

/-! ### The functions of `mmu.c` -/

/-- `memzero` of `boot.S`, which stores a zero before it looks at the size that is left. The
size is compared as a signed number. -/
def memzero (m : WordMemory) (addr : UInt64) (sz : ℤ) : WordMemory :=
  let m := m.store addr 0
  if 0 < sz - 8 then memzero m (addr + 8) (sz - 8) else m
termination_by sz.toNat
decreasing_by omega

/-- `create_table_entry`. -/
def createTableEntry (m : WordMemory) (tbl tblNext va shift flags : UInt64) : WordMemory :=
  let tblIdx := va >>> shift
  let tblIdx := tblIdx &&& (entriesPerTable - 1)
  let descriptor := tblNext ||| flags
  m.store (tbl + tblIdx <<< 3) descriptor

/-- What the loop of `create_block_entry` makes of an address. -/
def blockDescriptor (pa : UInt64) : UInt64 :=
  if pa ≥ deviceBase then
    pa ||| tdDeviceBlockFlags
  else if pa < dataBase then
    pa ||| tdCodeBlockFlags
  else
    pa ||| tdDataBlockFlags

/-- The loop of `create_block_entry`, which tests its condition at the end. The indices have
been masked, so that they do not wrap around. -/
def blockLoop (pmd : UInt64) (vend : ℕ) (m : WordMemory) (vstart : ℕ) (pa : UInt64) :
    WordMemory :=
  let m := m.store (pmd + UInt64.ofNat vstart <<< 3) (blockDescriptor pa)
  let pa := pa + sectionSize
  let vstart := vstart + 1
  if vstart ≤ vend then blockLoop pmd vend m vstart pa else m
termination_by vend - vstart

/-- `create_block_entry`. -/
def createBlockEntry (m : WordMemory) (pmd vstart vend pa : UInt64) : WordMemory :=
  let vstart := vstart >>> sectionShift
  let vstart := vstart &&& (entriesPerTable - 1)
  let vend := vend >>> sectionShift
  let vend := vend - 1
  let vend := vend &&& (entriesPerTable - 1)
  let pa := pa >>> sectionShift
  let pa := pa <<< sectionShift
  blockLoop pmd vend.toNat m vstart.toNat pa

/-- The loop of `create_page_tables`, from the slice `i` on. -/
def pudLoop (tbl : UInt64) (m : WordMemory) (tblNext : UInt64) (i : ℕ) : WordMemory :=
  if i < 4 then
    let offset := pudSliceSz * UInt64.ofNat i
    let m := createTableEntry m tbl tblNext offset pudShift tdTableFlags
    let m := createBlockEntry m tblNext offset (offset + pudSliceSz) offset
    pudLoop tbl m (tblNext + pageSize) (i + 1)
  else
    m
termination_by 4 - i

/-- `create_page_tables`, with the address `id_pgd_addr()` of the tables. -/
def createPageTables (idPgd : UInt64) (m : WordMemory) : WordMemory :=
  let m := memzero m idPgd idMapTblSz.toNat
  let tbl := idPgd
  let tblNext := tbl + pageSize
  let m := createTableEntry m tbl tblNext 0x0 pgdShift tdTableFlags
  let tbl := tbl + pageSize
  let tblNext := tblNext + pageSize
  pudLoop tbl m tblNext 0

/-! ### Walking through the tables -/

/-- The bits of a descriptor that are the address of the next table. -/
def tableAddrMask : UInt64 := 0x0000FFFFFFFFF000

/-- The bits of a descriptor of the last level that are the address of a block. -/
def blockAddrMask : UInt64 := 0x0000FFFFFFE00000

/-- The descriptor of a table that is used for an address. -/
def entryOf (m : WordMemory) (tbl va shift : UInt64) : UInt64 :=
  m.word (tbl + ((va >>> shift) &&& 511) <<< 3)

/-- A descriptor that points to a table. -/
def IsTable (d : UInt64) : Prop :=
  d &&& 3 = 3

/-- A descriptor of a block. -/
def IsBlock (d : UInt64) : Prop :=
  d &&& 3 = 1

instance (d : UInt64) : Decidable (IsTable d) :=
  inferInstanceAs (Decidable (_ = _))

instance (d : UInt64) : Decidable (IsBlock d) :=
  inferInstanceAs (Decidable (_ = _))

/-- The physical address for a virtual address, with the flags of the block, or `none` for a
fault. -/
def walk (m : WordMemory) (pgd va : UInt64) : Option (UInt64 × UInt64) :=
  let d := entryOf m pgd va 39
  if IsTable d then
    let d := entryOf m (d &&& tableAddrMask) va 30
    if IsTable d then
      let d := entryOf m (d &&& tableAddrMask) va 21
      if IsBlock d then
        some ((d &&& blockAddrMask) ||| (va &&& 0x1FFFFF), d &&& ~~~ blockAddrMask)
      else
        none
    else
      none
  else
    none

/-- The flags that an address is to have. -/
def flagsOf (va : UInt64) : UInt64 :=
  if va < dataBase then
    tdCodeBlockFlags
  else if deviceBase ≤ va then
    tdDeviceBlockFlags
  else
    tdDataBlockFlags

/-! ### Bits of descriptors -/

section Bits

variable {x flags mask bits : UInt64} {k j q : ℕ}

theorem or_and_right (x flags mask : UInt64) :
  (x ||| flags) &&& mask = (x &&& mask) ||| (flags &&& mask)
  := by
  rw [← UInt64.toBitVec_inj]
  exact BitVec.and_or_distrib_right

/-- The address in a descriptor. -/
theorem or_and_addr (hx : x &&& mask = x) (hflags : flags &&& mask = 0) :
  (x ||| flags) &&& mask = x
  := by
  rw [or_and_right, hx, hflags, UInt64.or_zero]

/-- The flags in a descriptor, read off with a mask that does not meet the address. -/
theorem or_and_flags (hx : x &&& mask = x) (hbits : mask &&& bits = 0) :
  (x ||| flags) &&& bits = flags &&& bits
  := by
  have hzero : x &&& bits = 0 := by
    rw [← hx, UInt64.and_assoc, hbits, UInt64.and_zero]
  rw [or_and_right, hzero, UInt64.zero_or]

/-- A multiple of a power of two is not changed by a mask that begins at this power. -/
theorem and_mask_of_dvd (hmask : mask.toNat = (2 ^ j - 1) <<< k) (hdvd : 2 ^ k ∣ x.toNat)
    (hlt : x.toNat < 2 ^ (k + j)) :
  x &&& mask = x
  := by
  obtain ⟨q, hq⟩ := hdvd
  have hqlt : q < 2 ^ j := by
    rw [hq, pow_add] at hlt
    exact Nat.lt_of_mul_lt_mul_left hlt
  rw [← UInt64.toNat_inj, UInt64.toNat_and, hmask, hq, mul_comm, ← Nat.shiftLeft_eq,
    ← Nat.shiftLeft_and_distrib, Nat.and_two_pow_sub_one_of_lt_two_pow hqlt]

theorem and_tableAddrMask (hdvd : 2 ^ 12 ∣ x.toNat) (hlt : x.toNat < 2 ^ 48) :
  x &&& tableAddrMask = x
  := and_mask_of_dvd (j := 36) rfl hdvd hlt

theorem and_blockAddrMask (hdvd : 2 ^ 21 ∣ x.toNat) (hlt : x.toNat < 2 ^ 48) :
  x &&& blockAddrMask = x
  := and_mask_of_dvd (j := 27) rfl hdvd hlt

/-- The index that is cut out of an address. -/
theorem index_eq {va shift : UInt64} (hk : shift.toNat = k) (hlt : k < 64) :
  (va >>> shift) &&& 511 = UInt64.ofNat (va.toNat / 2 ^ k % 512)
  := by
  have hmask : (511 : UInt64).toNat = 2 ^ 9 - 1 := rfl
  rw [← UInt64.toNat_inj, UInt64.toNat_and, UInt64.toNat_shiftRight, hk, Nat.mod_eq_of_lt hlt,
    hmask, Nat.and_two_pow_sub_one_eq_mod, Nat.shiftRight_eq_div_pow, UInt64.toNat_ofNat']
  omega

/-- The address of a block and the offset in it make up the address. -/
theorem block_or_offset (va : UInt64) :
  UInt64.ofNat (va.toNat / 2 ^ 21 * 2 ^ 21) ||| (va &&& 0x1FFFFF) = va
  := by
  have hmask : (0x1FFFFF : UInt64).toNat = 2 ^ 21 - 1 := rfl
  have hlt := va.toNat_lt
  have hoffset : va.toNat % 2 ^ 21 < 2 ^ 21 := Nat.mod_lt _ (Nat.two_pow_pos 21)
  rw [← UInt64.toNat_inj, UInt64.toNat_or, UInt64.toNat_and, hmask, Nat.and_two_pow_sub_one_eq_mod,
    UInt64.toNat_ofNat', Nat.mod_eq_of_lt (by omega), ← Nat.shiftLeft_eq,
    ← Nat.shiftLeft_add_eq_or_of_lt hoffset, Nat.shiftLeft_eq]
  omega

end Bits

/-! ### What is written -/

section Written

variable {base : UInt64} {n : ℕ} {m m' : WordMemory} {f : ℕ → UInt64}

/-- `memzero` clears the words of a range. -/
theorem memzero_filled (h : Filled base n m m' f) (hn : n ≤ 2 ^ 61) {k j : ℕ} (hk : k + j < n) :
  Filled base n m (memzero m' (wordAddr base k) (8 * (j + 1)))
    fun i => if k ≤ i ∧ i ≤ k + j then 0 else f i
  := by
  induction j generalizing m' f k with
  | zero =>
    rw [memzero, if_neg (by omega)]
    apply (h.store hn hk 0).congr
    intro i _
    rw [Function.update_apply]
    congr 1
    simp only [eq_iff_iff]
    omega
  | succ j ih =>
    have hsize : 8 * ((j + 1 : ℕ) + 1 : ℤ) - 8 = 8 * ((j : ℤ) + 1) := by omega
    rw [memzero, if_pos (by omega), wordAddr_succ, hsize]
    apply (ih (h.store hn (show k < n by omega) 0) (k := k + 1) (by omega)).congr
    intro i _
    rw [Function.update_apply]
    split_ifs <;> first | rfl | omega

/-- `create_table_entry` writes the entry for the address. -/
theorem createTableEntry_filled (h : Filled base n m m' f) (hn : n ≤ 2 ^ 61) {k i : ℕ}
    {va shift : UInt64} (hi : (va >>> shift) &&& (entriesPerTable - 1) = UInt64.ofNat i)
    (hk : k + i < n)
    (tblNext flags : UInt64) :
  Filled base n m (createTableEntry m' (wordAddr base k) tblNext va shift flags)
    (Function.update f (k + i) (tblNext ||| flags))
  := by
  rw [createTableEntry, hi, wordAddr_add]
  exact h.store hn hk _

/-- The loop writes the entries from `vstart` to `vend`. -/
theorem blockLoop_filled {m' : WordMemory} {f : ℕ → UInt64} (h : Filled base n m m' f)
    (hn : n ≤ 2 ^ 61) {k vstart vend : ℕ} (hle : vstart ≤ vend) (hk : k + vend < n) (pa : UInt64) :
  Filled base n m (blockLoop (wordAddr base k) vend m' vstart pa) fun i =>
    if k + vstart ≤ i ∧ i ≤ k + vend then
      blockDescriptor (pa + UInt64.ofNat ((i - (k + vstart)) * 2 ^ 21))
    else
      f i
  := by
  have hstore := h.store hn (show k + vstart < n by omega) (blockDescriptor pa)
  rw [blockLoop, wordAddr_add]
  by_cases hlast : vstart + 1 ≤ vend
  · rw [if_pos hlast]
    apply (blockLoop_filled hstore hn hlast hk (pa + sectionSize)).congr
    intro i _
    rw [Function.update_apply]
    by_cases hi : k + (vstart + 1) ≤ i ∧ i ≤ k + vend
    · have hnext : i - (k + vstart) = i - (k + (vstart + 1)) + 1 := by omega
      have hsection : sectionSize = UInt64.ofNat (2 ^ 21) := rfl
      rw [if_pos hi, if_pos (by omega), hnext, Nat.succ_mul, UInt64.ofNat_add, hsection,
        UInt64.add_assoc, UInt64.add_comm (UInt64.ofNat (2 ^ 21))]
    · rw [if_neg hi]
      by_cases heq : i = k + vstart
      · rw [if_pos heq, if_pos (by omega), heq, Nat.sub_self]
        simp
      · rw [if_neg heq, if_neg (by omega)]
  · rw [if_neg hlast]
    apply hstore.congr
    intro i _
    rw [Function.update_apply]
    by_cases heq : i = k + vstart
    · rw [if_pos heq, if_pos (by omega), heq, Nat.sub_self]
      simp
    · rw [if_neg heq, if_neg (by omega)]
termination_by vend - vstart

/-- The tables, with the first `i` slices of the address space mapped. -/
def tables (base : UInt64) (i k : ℕ) : UInt64 :=
  if k = 0 then
    wordAddr base 512 ||| tdTableFlags
  else if 512 ≤ k ∧ k < 512 + i then
    wordAddr base (1024 + 512 * (k - 512)) ||| tdTableFlags
  else if 1024 ≤ k ∧ k < 1024 + 512 * i then
    blockDescriptor (UInt64.ofNat ((k - 1024) * 2 ^ 21))
  else
    0

/-- A slice fills its PMD. -/
theorem createBlockEntry_slice (m : WordMemory) (pmd : UInt64) {i : ℕ} (hi : i < 4) :
  createBlockEntry m pmd (pudSliceSz * UInt64.ofNat i)
      (pudSliceSz * UInt64.ofNat i + pudSliceSz) (pudSliceSz * UInt64.ofNat i)
    = blockLoop pmd 511 m 0 (UInt64.ofNat (512 * i * 2 ^ 21))
  := by
  interval_cases i <;> rfl

/-- The index of a slice in the PUD. -/
theorem pudIndex {i : ℕ} (hi : i < 4) :
  ((pudSliceSz * UInt64.ofNat i) >>> pudShift) &&& (entriesPerTable - 1) = UInt64.ofNat i
  := by
  interval_cases i <;> rfl

/-- A page has 512 words. -/
theorem pageSize_eq :
  pageSize = UInt64.ofNat 512 <<< 3
  := rfl

/-- The loop maps the slices that are left. -/
theorem pudLoop_filled {m' : WordMemory} {i : ℕ} (hi : i ≤ 4)
    (h : Filled base 3072 m m' (tables base i)) :
  Filled base 3072 m (pudLoop (wordAddr base 512) m' (wordAddr base (1024 + 512 * i)) i)
    (tables base 4)
  := by
  rw [pudLoop]
  split
  · next hlt =>
    have hnext : wordAddr base (1024 + 512 * i) + pageSize
        = wordAddr base (1024 + 512 * (i + 1)) := by
      rw [pageSize_eq, wordAddr_add, Nat.mul_succ, Nat.add_assoc]
    have hentry := createTableEntry_filled h (by decide) (pudIndex hlt)
      (show 512 + i < 3072 by omega) (wordAddr base (1024 + 512 * i)) tdTableFlags
    have hblocks := blockLoop_filled hentry (by decide) (k := 1024 + 512 * i) (Nat.zero_le 511)
      (by omega) (UInt64.ofNat (512 * i * 2 ^ 21))
    dsimp only
    rw [createBlockEntry_slice _ _ hlt, hnext]
    apply pudLoop_filled hlt
    apply hblocks.congr
    intro k _
    rw [Function.update_apply, tables, tables]
    by_cases hblock : 1024 + 512 * i + 0 ≤ k ∧ k ≤ 1024 + 512 * i + 511
    · have hindex : 512 * i + (k - (1024 + 512 * i + 0)) = k - 1024 := by omega
      rw [if_pos hblock, if_neg (by omega), if_neg (by omega), if_pos (by omega),
        ← UInt64.ofNat_add, ← Nat.add_mul, hindex]
    · rw [if_neg hblock]
      by_cases hk : k = 512 + i
      · rw [if_pos hk, if_neg (by omega), if_pos (by omega), hk, Nat.add_sub_cancel_left]
      · rw [if_neg hk]
        have hpud : (512 ≤ k ∧ k < 512 + i) = (512 ≤ k ∧ k < 512 + (i + 1)) := by
          simp only [eq_iff_iff]
          omega
        have hpmd : (1024 ≤ k ∧ k < 1024 + 512 * i) = (1024 ≤ k ∧ k < 1024 + 512 * (i + 1)) := by
          simp only [eq_iff_iff]
          omega
        simp only [hpud, hpmd]
  · have hfour : i = 4 := by omega
    rw [← hfour]
    exact h
termination_by 4 - i

/-- `create_page_tables` writes the tables for all four slices. -/
theorem createPageTables_filled (base : UInt64) (m : WordMemory) :
  Filled base 3072 m (createPageTables base m) (tables base 4)
  := by
  have hzero := memzero_filled (filled_refl base 3072 m) (by decide) (k := 0) (j := 3071)
    (by decide)
  have hindex : ((0 : UInt64) >>> pgdShift) &&& (entriesPerTable - 1) = UInt64.ofNat 0 := rfl
  have hentry := createTableEntry_filled hzero (by decide) hindex (show 0 + 0 < 3072 by decide)
    (base + pageSize) tdTableFlags
  have hpud : base + pageSize = wordAddr base 512 := rfl
  have hpmd : base + pageSize + pageSize = wordAddr base (1024 + 512 * 0) := by
    rw [hpud, pageSize_eq, wordAddr_add]
  rw [createPageTables, hpmd, hpud]
  rw [wordAddr_zero, hpud] at hentry
  apply pudLoop_filled (Nat.zero_le 4)
  apply hentry.congr
  intro k hk
  rw [Function.update_apply, tables]
  by_cases hk0 : k = 0
  · rw [if_pos hk0, if_pos hk0]
  · rw [if_neg hk0, if_neg hk0, if_pos (by omega), if_neg (by omega), if_neg (by omega)]

end Written

/-! ### What a walk finds -/

section Walk

variable {base : UInt64} {m m' : WordMemory}

/-- What one looks up in a table. -/
theorem entryOf_eq {n k q : ℕ} {f : ℕ → UInt64} (h : Filled base n m m' f) {va shift : UInt64}
    (hq : shift.toNat = q) (hlt : q < 64) (hk : k + va.toNat / 2 ^ q % 512 < n) :
  entryOf m' (wordAddr base k) va shift = f (k + va.toNat / 2 ^ q % 512)
  := by
  rw [entryOf, index_eq hq hlt, wordAddr_add]
  exact h.table _ hk

/-- The address of a table is a multiple of its size. -/
theorem toNat_wordAddr (halign : base.toNat % 4096 = 0) (hfits : base.toNat + 24576 ≤ 2 ^ 32)
    {p : ℕ} (hp : p < 6) :
  2 ^ 12 ∣ (wordAddr base (512 * p)).toNat ∧ (wordAddr base (512 * p)).toNat < 2 ^ 48
  := by
  have hnat : (wordAddr base (512 * p)).toNat = base.toNat + 4096 * p := by
    rw [wordAddr, UInt64.toNat_add, UInt64.toNat_ofNat']
    omega
  rw [hnat]
  constructor
  · omega
  · omega

/-- An entry that points to a table. -/
theorem table_entry (halign : base.toNat % 4096 = 0) (hfits : base.toNat + 24576 ≤ 2 ^ 32)
    {p : ℕ} (hp : p < 6) :
  IsTable (wordAddr base (512 * p) ||| tdTableFlags)
    ∧ (wordAddr base (512 * p) ||| tdTableFlags) &&& tableAddrMask = wordAddr base (512 * p)
  := by
  obtain ⟨hdvd, hlt⟩ := toNat_wordAddr halign hfits hp
  have haddr := and_tableAddrMask hdvd hlt
  constructor
  · rw [IsTable, or_and_flags haddr rfl]
    rfl
  · exact or_and_addr haddr rfl

/-- An entry that is a block. -/
theorem block_entry {pa : UInt64} (hdvd : 2 ^ 21 ∣ pa.toNat) (hlt : pa.toNat < 2 ^ 32) :
  IsBlock (blockDescriptor pa) ∧ blockDescriptor pa &&& blockAddrMask = pa
    ∧ blockDescriptor pa &&& ~~~ blockAddrMask = flagsOf pa
  := by
  have haddr := and_blockAddrMask hdvd (by omega)
  have hdesc : blockDescriptor pa = pa ||| flagsOf pa := by
    rw [blockDescriptor, flagsOf]
    by_cases hdev : pa ≥ deviceBase
    · have hdata : ¬ pa < dataBase := by
        rw [UInt64.not_lt]
        exact UInt64.le_trans (by decide) hdev
      rw [if_pos hdev, if_neg hdata, if_pos hdev]
    · rw [if_neg hdev, if_neg hdev]
      split <;> rfl
  have hflags : flagsOf pa &&& 3 = 1 ∧ flagsOf pa &&& blockAddrMask = 0
      ∧ flagsOf pa &&& ~~~ blockAddrMask = flagsOf pa := by
    rw [flagsOf]
    split
    · exact ⟨rfl, rfl, rfl⟩
    · split
      · exact ⟨rfl, rfl, rfl⟩
      · exact ⟨rfl, rfl, rfl⟩
  rw [hdesc]
  refine ⟨?_, or_and_addr haddr hflags.2.1, ?_⟩
  · rw [IsBlock, or_and_flags haddr rfl]
    exact hflags.1
  · rw [or_and_flags haddr rfl]
    exact hflags.2.2

/-- All addresses of a block have the same flags. -/
theorem flagsOf_block {va : UInt64} (hva : va.toNat < 2 ^ 32) :
  flagsOf (UInt64.ofNat (va.toNat / 2 ^ 21 * 2 ^ 21)) = flagsOf va
  := by
  have hblock : (UInt64.ofNat (va.toNat / 2 ^ 21 * 2 ^ 21)).toNat
      = va.toNat / 2 ^ 21 * 2 ^ 21 := by
    rw [UInt64.toNat_ofNat']
    omega
  have hdata : dataBase.toNat = 2 ^ 21 := rfl
  have hdevice : deviceBase.toNat = 2016 * 2 ^ 21 := rfl
  rw [flagsOf, flagsOf]
  congr 1
  · rw [UInt64.lt_iff_toNat_lt, UInt64.lt_iff_toNat_lt, hblock, hdata, eq_iff_iff]
    omega
  · congr 1
    rw [UInt64.le_iff_toNat_le, UInt64.le_iff_toNat_le, hblock, hdevice, eq_iff_iff]
    omega

/-- A walk finds every address below four gigabytes where it is. -/
theorem walk_eq (h : Filled base 3072 m m' (tables base 4)) (halign : base.toNat % 4096 = 0)
    (hfits : base.toNat + 24576 ≤ 2 ^ 32) {va : UInt64} (hva : va.toNat < 2 ^ 32) :
  walk m' base va = some (va, flagsOf va)
  := by
  have hpgd : entryOf m' base va 39 = wordAddr base (512 * 1) ||| tdTableFlags := by
    have hindex : 0 + va.toNat / 2 ^ 39 % 512 = 0 := by omega
    have heq : entryOf m' (wordAddr base 0) va 39 = tables base 4 (0 + va.toNat / 2 ^ 39 % 512) :=
      entryOf_eq h rfl (by decide) (by omega)
    rwa [wordAddr_zero, hindex] at heq
  have hpud : entryOf m' (wordAddr base (512 * 1)) va 30
      = wordAddr base (512 * (2 + va.toNat / 2 ^ 30)) ||| tdTableFlags := by
    have hindex : 1024 + 512 * (512 * 1 + va.toNat / 2 ^ 30 % 512 - 512)
        = 512 * (2 + va.toNat / 2 ^ 30) := by omega
    rw [entryOf_eq (q := 30) h rfl (by decide) (by omega), tables, if_neg (by omega),
      if_pos (by omega), hindex]
  have hpmd : entryOf m' (wordAddr base (512 * (2 + va.toNat / 2 ^ 30))) va 21
      = blockDescriptor (UInt64.ofNat (va.toNat / 2 ^ 21 * 2 ^ 21)) := by
    have hindex : 512 * (2 + va.toNat / 2 ^ 30) + va.toNat / 2 ^ 21 % 512 - 1024
        = va.toNat / 2 ^ 21 := by omega
    rw [entryOf_eq (q := 21) h rfl (by decide) (by omega), tables, if_neg (by omega),
      if_neg (by omega), if_pos (by omega), hindex]
  have hblock : (UInt64.ofNat (va.toNat / 2 ^ 21 * 2 ^ 21)).toNat
      = va.toNat / 2 ^ 21 * 2 ^ 21 := by
    rw [UInt64.toNat_ofNat']
    omega
  obtain ⟨htable, haddr⟩ := table_entry halign hfits (p := 1) (by decide)
  obtain ⟨htable', haddr'⟩ :=
    table_entry halign hfits (show 2 + va.toNat / 2 ^ 30 < 6 by omega)
  obtain ⟨hisBlock, hpa, hflags⟩ := block_entry
    (show 2 ^ 21 ∣ (UInt64.ofNat (va.toNat / 2 ^ 21 * 2 ^ 21)).toNat by
      rw [hblock]
      exact Nat.dvd_mul_left _ _)
    (by rw [hblock]; omega)
  rw [walk]
  dsimp only
  rw [hpgd, if_pos htable, haddr, hpud, if_pos htable', haddr', hpmd, if_pos hisBlock, hpa, hflags,
    block_or_offset, flagsOf_block hva]

end Walk

/-- `create_page_tables` maps every address below four gigabytes to itself, as code below
`DATA_BASE`, as devices from `DEVICE_BASE` on and as data in between. No other entry of the
PGD and of the PUD is valid, and nothing is written outside of the six tables. -/
theorem createPageTables_identity (base : UInt64) (m : WordMemory)
    (halign : base.toNat % 4096 = 0) (hfits : base.toNat + idMapTblSz.toNat ≤ 2 ^ 32) :
  (∀ va : UInt64, va.toNat < 2 ^ 32 →
      walk (createPageTables base m) base va = some (va, flagsOf va))
    ∧ (∀ k < 512, k ≠ 0 →
      (createPageTables base m).word (wordAddr base k) &&& tdValid = 0)
    ∧ (∀ k < 512, 4 ≤ k →
      (createPageTables base m).word (wordAddr (base + pageSize) k) &&& tdValid = 0)
    ∧ (∀ a, ¬ InTable base (idMapTblSz.toNat / 8) a →
      (createPageTables base m).word a = m.word a)
    ∧ ∀ a ∈ (createPageTables base m).stores,
      a ∈ m.stores ∨ InTable base (idMapTblSz.toNat / 8) a
  := by
  have h := createPageTables_filled base m
  have hsize : idMapTblSz.toNat = 24576 := rfl
  have hwords : idMapTblSz.toNat / 8 = 3072 := rfl
  rw [hsize] at hfits
  rw [hwords]
  refine ⟨?_, ?_, ?_, h.outside, h.stores⟩
  · intro va hva
    exact walk_eq h halign hfits hva
  · intro k hk hne
    rw [h.table k (by omega), tables, if_neg hne, if_neg (by omega), if_neg (by omega)]
    rfl
  · intro k hk hle
    have haddr : wordAddr (base + pageSize) k = wordAddr base (512 + k) := by
      have hpage : base + pageSize = wordAddr base 512 := rfl
      rw [hpage, wordAddr, wordAddr, wordAddr, UInt64.add_assoc, ← UInt64.ofNat_add, ← Nat.mul_add]
    rw [haddr, h.table _ (by omega), tables, if_neg (by omega), if_neg (by omega),
      if_neg (by omega)]
    rfl

/-- The tables where the linker places them, in a memory full of ones. -/
theorem createPageTables_identity_linked :
  walk (createPageTables 0x40000 ⟨fun _ => -1, []⟩) 0x40000 0xFE003004
    = some (0xFE003004, tdDeviceBlockFlags)
  := (createPageTables_identity 0x40000 ⟨fun _ => -1, []⟩ (by decide) (by decide)).1 0xFE003004
    (by decide)

end Mmu
