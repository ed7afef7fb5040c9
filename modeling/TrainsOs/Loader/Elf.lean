import TrainsOs.Lib.Memory
import TrainsOs.Macro

/-!
# The loader

`elf_reader.c` and `loader.c`. The file is in memory, and the tables that describe it are
read from there while the segments are copied and relocated. `none` is undefined behaviour:
the dereference of a pointer that is `NULL`, or a division by zero.
-/

namespace TrainsOs.Loader

/-! ### The tables of `elf.h` -/

def getU16 (m : Memory) (p : Addr) : ℕ := m.load p 2
def getU32 (m : Memory) (p : Addr) : ℕ := m.load p 4
def getU64 (m : Memory) (p : Addr) : Addr := BitVec.ofNat 64 (m.load p 8)

/-- `Elf64_Ehdr`. -/
structure Elf64Ehdr where
  eEntry : Addr
  ePhoff : Addr
  eShoff : Addr
  ePhnum : ℕ
  eShnum : ℕ
  eShstrndx : ℕ

def getEhdr (m : Memory) (p : Addr) : Elf64Ehdr where
  eEntry := getU64 m (p + 24)
  ePhoff := getU64 m (p + 32)
  eShoff := getU64 m (p + 40)
  ePhnum := getU16 m (p + 56)
  eShnum := getU16 m (p + 60)
  eShstrndx := getU16 m (p + 62)

/-- `Elf64_Shdr`. -/
structure Elf64Shdr where
  shName : ℕ
  shType : ℕ
  shAddr : Addr
  shOffset : Addr
  shSize : Addr
  shEntsize : Addr

def getShdr (m : Memory) (p : Addr) : Elf64Shdr where
  shName := getU32 m p
  shType := getU32 m (p + 4)
  shAddr := getU64 m (p + 16)
  shOffset := getU64 m (p + 24)
  shSize := getU64 m (p + 32)
  shEntsize := getU64 m (p + 56)

def shtDynamic : ℕ := 6
def shtNobits : ℕ := 8

/-- `Elf64_Phdr`. -/
structure Elf64Phdr where
  pType : ℕ
  pOffset : Addr
  pVaddr : Addr
  pFilesz : Addr
  pMemsz : Addr
  pAlign : Addr
deriving DecidableEq

def getPhdr (m : Memory) (p : Addr) : Elf64Phdr where
  pType := getU32 m p
  pOffset := getU64 m (p + 8)
  pVaddr := getU64 m (p + 16)
  pFilesz := getU64 m (p + 32)
  pMemsz := getU64 m (p + 40)
  pAlign := getU64 m (p + 48)

def ptLoad : ℕ := 1
def ptGnuRelro : ℕ := 0x6474E552

/-- `Elf64_Dyn`, with `d_un` as a number. -/
structure Elf64Dyn where
  dTag : Addr
  dUn : Addr
deriving DecidableEq

def getDyn (m : Memory) (p : Addr) : Elf64Dyn where
  dTag := getU64 m p
  dUn := getU64 m (p + 8)

def dtRela : Addr := 7
def dtRelasz : Addr := 8
def dtRelaent : Addr := 9

/-- `Elf64_Rela`. -/
structure Elf64Rela where
  rOffset : Addr
  rInfo : Addr
  rAddend : Addr
deriving DecidableEq

def getRela (m : Memory) (p : Addr) : Elf64Rela where
  rOffset := getU64 m p
  rInfo := getU64 m (p + 8)
  rAddend := getU64 m (p + 16)

/-- `ELF64_R_TYPE(rela->r_info)`. -/
def Elf64Rela.rType (rela : Elf64Rela) : ℕ := rela.rInfo.toNat % 2 ^ 32

def rAarch64Relativ : ℕ := 1027

/-- `&arr[i]` for elements of `size` bytes. -/
def elem (arr : Addr) (size i : ℕ) : Addr := arr + BitVec.ofNat 64 (size * i)

def sizeofEhdr : ℕ := 64
def sizeofShdr : ℕ := 64
def sizeofPhdr : ℕ := 56
def sizeofDyn : ℕ := 16
def sizeofRela : ℕ := 24

/-! ### Strings -/

/-- The comparison of the loop of `util_strcmp` with a constant, which ends with a NUL
byte. -/
def strcmpLoop (m : Memory) (s1 : Addr) : List UInt8 → Bool
  | [] => m.byte s1 == 0
  | c :: s2 => m.byte s1 == c && strcmpLoop m (s1 + 1) s2

/-- `util_strcmp` with a constant that is not `NULL`. -/
def utilStrcmp (m : Memory) (s1 : Addr) (s2 : List UInt8) : Bool :=
  s1 != 0 && strcmpLoop m s1 s2

/-- The characters of `".dynamic"`. -/
def dotDynamic : List UInt8 := [46, 100, 121, 110, 97, 109, 105, 99]

/-! ### The reader -/

/-- `struct ElfReader`, with the sections that are used; `none` is `NULL`. -/
structure ElfReader where
  eHdr : Option Addr
  sHdrArr : Addr
  sHdrArrlen : ℕ
  sHdrDynamic : Option Addr
  sHdrShstrtab : Addr
  sHdrBss : Option Addr
  pHdrArr : Addr
  pHdrArrlen : ℕ
  dynArr : Addr
  dynArrlen : Addr
  relaArr : Option Addr
  relaArrlen : Addr

/-- The reader after its `util_memset`. -/
def ElfReader.zero : ElfReader where
  eHdr := none
  sHdrArr := 0
  sHdrArrlen := 0
  sHdrDynamic := none
  sHdrShstrtab := 0
  sHdrBss := none
  pHdrArr := 0
  pHdrArrlen := 0
  dynArr := 0
  dynArrlen := 0
  relaArr := none
  relaArrlen := 0

/-- `ELF_BASE_CHAR_PTR`. -/
def ElfReader.base (r : ElfReader) : Addr := r.eHdr.getD 0

/-- `elf_reader_check_e_ident`. -/
def elfReaderCheckEIdent (m : Memory) (eHdr : Addr) : Bool :=
  m.byte eHdr == 0x7f && m.byte (eHdr + 1) == 69 && m.byte (eHdr + 2) == 76
    && m.byte (eHdr + 3) == 70 && m.byte (eHdr + 4) == 2 && m.byte (eHdr + 5) == 1
    && m.byte (eHdr + 6) == 1

/-- `ELF_SHSTRTAB_GET`. -/
def ElfReader.shstrtabGet (m : Memory) (r : ElfReader) (idx : ℕ) : Addr :=
  r.base + ((getShdr m r.sHdrShstrtab).shOffset + BitVec.ofNat 64 idx)

/-- `elf_reader_ctr_section`. The case of `SHT_NOBITS` falls through to one that prints. -/
def elfReaderCtrSection (m : Memory) (r : ElfReader) (sHdr : Addr) : ElfReader :=
  let hdr := getShdr m sHdr
  let shName := r.shstrtabGet m hdr.shName
  if hdr.shType = shtDynamic then
    if utilStrcmp m shName dotDynamic then
      { r with sHdrDynamic := some sHdr }
    else
      r
  else if hdr.shType = shtNobits then
    { r with sHdrBss := some sHdr }
  else
    r

/-- `elf_reader_ctr_sections`. -/
def elfReaderCtrSections (m : Memory) (r : ElfReader) (eHdr : Addr) : ElfReader :=
  let r := { r with sHdrShstrtab := elem r.sHdrArr sizeofShdr (getEhdr m eHdr).eShstrndx }
  (List.range r.sHdrArrlen).foldl
    (fun r i => elfReaderCtrSection m r (elem r.sHdrArr sizeofShdr i)) r

/-- The variables of the loop of `elf_reader_parse_dynamic`. -/
structure DynamicVars where
  relaArr : Option Addr
  relaEnt : Addr
  relaSz : Addr

/-- A round of the loop. -/
def DynamicVars.entry (base : Addr) (v : DynamicVars) (dyn : Elf64Dyn) : DynamicVars :=
  if dyn.dTag = dtRela then
    { v with relaArr := some (base + dyn.dUn) }
  else if dyn.dTag = dtRelaent then
    { v with relaEnt := dyn.dUn }
  else if dyn.dTag = dtRelasz then
    { v with relaSz := dyn.dUn }
  else
    v

/-- `(int) len` as a bound of a loop. -/
def intBound (len : Addr) : ℕ :=
  if len.toNat % 2 ^ 32 < 2 ^ 31 then
    len.toNat % 2 ^ 32
  else
    0

/-- The loop of `elf_reader_parse_dynamic` over `len` entries. -/
def dynamicLoop (m : Memory) (r : ElfReader) (dynArr : Addr) (len : ℕ) : DynamicVars :=
  (List.range len).foldl (fun v i => v.entry r.base (getDyn m (elem dynArr sizeofDyn i)))
    { relaArr := r.relaArr, relaEnt := 0, relaSz := 0 }

/-- `elf_reader_parse_dynamic`. -/
def elfReaderParseDynamic (m : Memory) (r : ElfReader) : Option ElfReader := do
  let sHdrDynamic ← r.sHdrDynamic
  let hdr := getShdr m sHdrDynamic
  if hdr.shEntsize = 0 then none
  else
    let dynArrlen := hdr.shSize / hdr.shEntsize
    let dynArr := r.base + hdr.shOffset
    let v := dynamicLoop m r dynArr (intBound dynArrlen)
    if v.relaEnt = 0 then none
    else
      some { r with
             dynArr := dynArr
             dynArrlen := dynArrlen
             relaArr := v.relaArr
             relaArrlen := v.relaSz / v.relaEnt }

/-- `elf_reader_ctr`, on the `elf_start` of the arguments. -/
def elfReaderCtr (m : Memory) (elfStart : Option Addr) : Option ElfReader := do
  let eHdr ← elfStart
  if elfReaderCheckEIdent m eHdr then
    let hdr := getEhdr m eHdr
    let r := { ElfReader.zero with
               eHdr := some eHdr
               sHdrArr := eHdr + hdr.eShoff
               sHdrArrlen := hdr.eShnum
               pHdrArr := eHdr + hdr.ePhoff
               pHdrArrlen := hdr.ePhnum }
    elfReaderParseDynamic m (elfReaderCtrSections m r eHdr)
  else
    some ElfReader.zero

/-! ### The loader -/

/-- The program headers. -/
def ElfReader.phdrs (m : Memory) (r : ElfReader) : List Elf64Phdr :=
  (List.range r.pHdrArrlen).map fun i => getPhdr m (elem r.pHdrArr sizeofPhdr i)

/-- The variables of `calc_mem_size`. -/
structure MemSize where
  minAddr : Addr
  maxAddr : Addr
  maxAlign : Addr

/-- A round of the loop of `calc_mem_size`. -/
def MemSize.update (v : MemSize) (hdr : Elf64Phdr) : MemSize :=
  if hdr.pType = ptLoad ∨ hdr.pType = ptGnuRelro then
    { minAddr := if hdr.pVaddr < v.minAddr then hdr.pVaddr else v.minAddr
      maxAddr := if hdr.pVaddr + hdr.pMemsz > v.maxAddr then hdr.pVaddr + hdr.pMemsz else v.maxAddr
      maxAlign := if hdr.pAlign > v.maxAlign then hdr.pAlign else v.maxAlign }
  else
    v

/-- `calc_mem_size`, over the program headers: `vaddr_base` and `memsz`. -/
def calcMemSize (phdrs : List Elf64Phdr) : Addr × Addr :=
  let v := phdrs.foldl MemSize.update
    { minAddr := BitVec.allOnes 64, maxAddr := 0, maxAlign := 1 }
  let vaddrBase := v.minAddr &&& ~~~(v.maxAlign - 1)
  (vaddrBase, v.maxAddr - vaddrBase)

/-- A round of the loop of `memcpy_prog_hdr`. -/
def memcpySegment (base vaddrDiff : Addr) (m : Memory) (pHdr : Elf64Phdr) : Memory :=
  if pHdr.pType = ptLoad then
    m.copy (pHdr.pVaddr + vaddrDiff) (base + pHdr.pOffset) pHdr.pFilesz.toNat
  else
    m

/-- `memcpy_prog_hdr`. -/
def memcpyProgHdr (r : ElfReader) (vaddrDiff : Addr) (m : Memory) : Memory :=
  (List.range r.pHdrArrlen).foldl
    (fun m i => memcpySegment r.base vaddrDiff m (getPhdr m (elem r.pHdrArr sizeofPhdr i))) m

/-- `clear_bss`. -/
def clearBss (r : ElfReader) (vaddrDiff : Addr) (m : Memory) : Memory :=
  match r.sHdrBss with
  | some sHdrBss =>
      let hdr := getShdr m sHdrBss
      m.fill (hdr.shAddr + vaddrDiff) 0 hdr.shSize.toNat
  | none => m

/-- `apply_relocation_relativ`. -/
def applyRelocationRelativ (vaddrDiff : Addr) (m : Memory) (rela : Elf64Rela) : Memory :=
  m.store (rela.rOffset + vaddrDiff) (rela.rAddend + vaddrDiff).toNat 8

/-- A round of the loop of `apply_relocations`. -/
def applyRelocation (vaddrDiff : Addr) (m : Memory) (rela : Elf64Rela) : Memory :=
  if rela.rType = rAarch64Relativ then
    applyRelocationRelativ vaddrDiff m rela
  else
    m

/-- `apply_relocations`; `rela_arr` is dereferenced when it is not empty. -/
def applyRelocations (r : ElfReader) (vaddrDiff : Addr) (m : Memory) : Option Memory :=
  if r.relaArrlen = 0 then some m
  else do
    let relaArr ← r.relaArr
    some <| (List.range r.relaArrlen.toNat).foldl
      (fun m i => applyRelocation vaddrDiff m (getRela m (elem relaArr sizeofRela i))) m

/-- Steps 3 and 3.1 of `load_elf`. -/
def loadSegments (r : ElfReader) (vaddrDiff : Addr) (m : Memory) : Memory :=
  clearBss r vaddrDiff (memcpyProgHdr r vaddrDiff m)

/-- What `load_elf` does: the memory, and the address of the function it calls, if it does
not return before. -/
structure Loaded where
  mem : Memory
  entry : Option Addr

/-- `load_elf`, on the `elf_start` of its arguments. The kernel answers `ke_mmap` with
`mmap memsz`; `0` is `NULL`. -/
def loadElf (m : Memory) (elfStart : Option Addr) (mmap : Addr → Addr) : Option Loaded := do
  let r ← elfReaderCtr m elfStart
  match r.eHdr with
  | none => some { mem := m, entry := none }
  | some eHdr =>
      let (vaddrBase, memsz) := calcMemSize (r.phdrs m)
      let vaddrTarget := mmap memsz
      let vaddrDiff := vaddrTarget - vaddrBase
      let m ← applyRelocations r vaddrDiff (loadSegments r vaddrDiff m)
      some { mem := m, entry := some ((getEhdr m eHdr).eEntry + vaddrDiff) }

end TrainsOs.Loader
