import TrainsOs.Loader.Elf

/-!
# What the reader finds

The reader keeps the last section of each kind and the last entry for each tag of the
dynamic section. It has a result when there is a dynamic section, and when the sizes by
which it divides are not zero.
-/

namespace TrainsOs.Loader

/-! ### The last one -/

/-- A loop that remembers the last element of a kind. -/
theorem foldl_last {α : Type} (p : α → Bool) (xs : List α) (last : Option α) :
  xs.foldl (fun last x => if p x then some x else last) last = (xs.filter p).getLast?.or last
  := by
  induction xs generalizing last with
  | nil => rfl
  | cons x xs ih =>
    rw [List.foldl_cons, ih, List.filter_cons]
    by_cases hx : p x = true
    · rw [if_pos hx, if_pos hx, List.getLast?_cons]
      cases (xs.filter p).getLast? <;> rfl
    · rw [if_neg hx, if_neg hx]

/-! ### The tables of a file -/

/-- The section headers of the file at `start`. -/
def sections (m : Memory) (start : Addr) : List Addr :=
  (List.range (getEhdr m start).eShnum).map
    (elem (start + (getEhdr m start).eShoff) sizeofShdr)

/-- The table of the names of the sections. -/
def shstrtab (m : Memory) (start : Addr) : Elf64Shdr :=
  getShdr m (elem (start + (getEhdr m start).eShoff) sizeofShdr (getEhdr m start).eShstrndx)

/-- A section of type `SHT_DYNAMIC` with the name `".dynamic"`. -/
def isDynamic (m : Memory) (start sHdr : Addr) : Bool :=
  (getShdr m sHdr).shType == shtDynamic && utilStrcmp m
    (start + ((shstrtab m start).shOffset + BitVec.ofNat 64 (getShdr m sHdr).shName)) dotDynamic

def isNobits (m : Memory) (sHdr : Addr) : Bool :=
  (getShdr m sHdr).shType == shtNobits

/-- The last dynamic section. -/
def dynamicSection (m : Memory) (start : Addr) : Option Addr :=
  ((sections m start).filter (isDynamic m start)).getLast?

/-- The last section of type `SHT_NOBITS`, whatever its name. -/
def bssSection (m : Memory) (start : Addr) : Option Elf64Shdr :=
  (((sections m start).filter (isNobits m)).getLast?).map (getShdr m)

/-- The entries of a dynamic section. -/
def dynamicEntries (m : Memory) (start sHdr : Addr) : List Elf64Dyn :=
  let hdr := getShdr m sHdr
  (List.range (intBound (hdr.shSize / hdr.shEntsize))).map fun i =>
    getDyn m (elem (start + hdr.shOffset) sizeofDyn i)

/-- The entries of the last dynamic section. -/
def dynamics (m : Memory) (start : Addr) : List Elf64Dyn :=
  match dynamicSection m start with
  | some sHdr => dynamicEntries m start sHdr
  | none => []

/-- The value of the last entry with the tag. -/
def dynValue (dyns : List Elf64Dyn) (tag : Addr) : Option Addr :=
  ((dyns.filter fun dyn => dyn.dTag == tag).getLast?).map Elf64Dyn.dUn

/-- `DT_RELA`, `DT_RELASZ` and `DT_RELAENT`. -/
def relaPtr (m : Memory) (start : Addr) : Option Addr := dynValue (dynamics m start) dtRela
def relaSz (m : Memory) (start : Addr) : Addr := (dynValue (dynamics m start) dtRelasz).getD 0
def relaEnt (m : Memory) (start : Addr) : Addr := (dynValue (dynamics m start) dtRelaent).getD 0

/-- There is a dynamic section, and the sizes of its entries and of those of the table of
relocations are given. -/
structure Readable (m : Memory) (start : Addr) : Prop where
  section_ : ∃ sHdr, dynamicSection m start = some sHdr ∧ (getShdr m sHdr).shEntsize ≠ 0
  relaEnt : relaEnt m start ≠ 0

/-! ### The loops of the reader -/

section Loops

variable {m : Memory} {r : ElfReader} {start : Addr}

/-- What a round of `elf_reader_ctr_sections` does to the two fields. -/
theorem elfReaderCtrSection_eq (sHdr : Addr)
    (hname : ∀ idx, r.shstrtabGet m idx
      = start + ((shstrtab m start).shOffset + BitVec.ofNat 64 idx)) :
  elfReaderCtrSection m r sHdr =
    { r with
      sHdrDynamic := if isDynamic m start sHdr then some sHdr else r.sHdrDynamic
      sHdrBss := if isNobits m sHdr then some sHdr else r.sHdrBss }
  := by
  rw [elfReaderCtrSection, isDynamic, isNobits, hname]
  by_cases hdyn : (getShdr m sHdr).shType = shtDynamic
  · have hno : ((getShdr m sHdr).shType == shtNobits) = false := by
      rw [hdyn]
      rfl
    rw [if_pos hdyn, hno, beq_iff_eq.mpr hdyn, Bool.true_and]
    split <;> rfl
  · rw [if_neg hdyn, beq_false_of_ne hdyn]
    by_cases hno : (getShdr m sHdr).shType = shtNobits
    · rw [if_pos hno, beq_iff_eq.mpr hno]
      rfl
    · rw [if_neg hno, beq_false_of_ne hno]
      rfl

/-- The loop of `elf_reader_ctr_sections`. -/
theorem sectionLoop_eq (xs : List ℕ)
    (hname : ∀ idx, r.shstrtabGet m idx
      = start + ((shstrtab m start).shOffset + BitVec.ofNat 64 idx)) :
  xs.foldl (fun r i => elfReaderCtrSection m r (elem r.sHdrArr sizeofShdr i)) r =
    let sHdrs := xs.map (elem r.sHdrArr sizeofShdr)
    { r with
      sHdrDynamic := (sHdrs.filter (isDynamic m start)).getLast?.or r.sHdrDynamic
      sHdrBss := (sHdrs.filter (isNobits m)).getLast?.or r.sHdrBss }
  := by
  dsimp only
  rw [← foldl_last, ← foldl_last]
  induction xs generalizing r with
  | nil => rfl
  | cons x xs ih =>
    rw [List.foldl_cons, elfReaderCtrSection_eq _ hname, ih]
    · rfl
    · exact hname

theorem dynValue_cons (dyn : Elf64Dyn) (dyns : List Elf64Dyn) (tag : Addr) :
  dynValue (dyn :: dyns) tag
    = (dynValue dyns tag).or (if dyn.dTag = tag then some dyn.dUn else none)
  := by
  rw [dynValue, dynValue, List.filter_cons]
  by_cases htag : dyn.dTag = tag
  · rw [if_pos (beq_iff_eq.mpr htag), if_pos htag, List.getLast?_cons]
    cases (dyns.filter fun dyn => dyn.dTag == tag).getLast? <;> rfl
  · rw [if_neg (mt beq_iff_eq.mp htag), if_neg htag, Option.or_none]

theorem foldl_entry (base : Addr) (dyns : List Elf64Dyn) (v : DynamicVars) :
  dyns.foldl (DynamicVars.entry base) v =
    { relaArr := ((dynValue dyns dtRela).map (base + ·)).or v.relaArr
      relaEnt := (dynValue dyns dtRelaent).getD v.relaEnt
      relaSz := (dynValue dyns dtRelasz).getD v.relaSz }
  := by
  induction dyns generalizing v with
  | nil => rfl
  | cons dyn dyns ih =>
    rw [List.foldl_cons, ih, dynValue_cons, dynValue_cons, dynValue_cons, DynamicVars.entry]
    by_cases hrela : dyn.dTag = dtRela
    · have hent : dtRela ≠ dtRelaent := by decide
      have hsz : dtRela ≠ dtRelasz := by decide
      rw [hrela, if_pos rfl, if_pos rfl, if_neg hent, if_neg hsz, Option.or_none, Option.or_none]
      cases dynValue dyns dtRela <;> rfl
    · rw [if_neg hrela, if_neg hrela, Option.or_none]
      by_cases hent : dyn.dTag = dtRelaent
      · have hsz : dtRelaent ≠ dtRelasz := by decide
        rw [hent, if_pos rfl, if_pos rfl, if_neg hsz, Option.or_none]
        cases dynValue dyns dtRelaent <;> rfl
      · rw [if_neg hent, if_neg hent, Option.or_none]
        by_cases hsz : dyn.dTag = dtRelasz
        · rw [if_pos hsz, if_pos hsz]
          cases dynValue dyns dtRelasz <;> rfl
        · rw [if_neg hsz, if_neg hsz, Option.or_none]

/-- The loop of `elf_reader_parse_dynamic`. -/
theorem dynamicLoop_eq (dynArr : Addr) (len : ℕ) (hrela : r.relaArr = none) :
  dynamicLoop m r dynArr len =
    let dyns := (List.range len).map fun i => getDyn m (elem dynArr sizeofDyn i)
    { relaArr := (dynValue dyns dtRela).map (r.base + ·)
      relaEnt := (dynValue dyns dtRelaent).getD 0
      relaSz := (dynValue dyns dtRelasz).getD 0 }
  := by
  rw [dynamicLoop, hrela, ← List.foldl_map, foldl_entry, Option.or_none]

end Loops

/-! ### The result -/

/-- The reader of a file that can be read. -/
def reader (m : Memory) (start : Addr) : ElfReader :=
  let hdr := getEhdr m start
  let sHdrDynamic := dynamicSection m start
  let dynHdr := getShdr m (sHdrDynamic.getD 0)
  { eHdr := some start
    sHdrArr := start + hdr.eShoff
    sHdrArrlen := hdr.eShnum
    sHdrDynamic := sHdrDynamic
    sHdrShstrtab := elem (start + hdr.eShoff) sizeofShdr hdr.eShstrndx
    sHdrBss := ((sections m start).filter (isNobits m)).getLast?
    pHdrArr := start + hdr.ePhoff
    pHdrArrlen := hdr.ePhnum
    dynArr := start + dynHdr.shOffset
    dynArrlen := dynHdr.shSize / dynHdr.shEntsize
    relaArr := (relaPtr m start).map (start + ·)
    relaArrlen := relaSz m start / relaEnt m start }

/-- The reader before the dynamic section is parsed. -/
def sectionsReader (m : Memory) (start : Addr) : ElfReader :=
  let hdr := getEhdr m start
  { ElfReader.zero with
    eHdr := some start
    sHdrArr := start + hdr.eShoff
    sHdrArrlen := hdr.eShnum
    sHdrDynamic := dynamicSection m start
    sHdrShstrtab := elem (start + hdr.eShoff) sizeofShdr hdr.eShstrndx
    sHdrBss := ((sections m start).filter (isNobits m)).getLast?
    pHdrArr := start + hdr.ePhoff
    pHdrArrlen := hdr.ePhnum }

theorem elfReaderCtr_eq {m : Memory} {start : Addr}
    (hident : elfReaderCheckEIdent m start = true) :
  elfReaderCtr m (some start) = elfReaderParseDynamic m (sectionsReader m start)
  := by
  have hloop : elfReaderCtrSections m
      { ElfReader.zero with
        eHdr := some start
        sHdrArr := start + (getEhdr m start).eShoff
        sHdrArrlen := (getEhdr m start).eShnum
        pHdrArr := start + (getEhdr m start).ePhoff
        pHdrArrlen := (getEhdr m start).ePhnum } start = sectionsReader m start := by
    apply (@sectionLoop_eq m _ start _ fun _ => rfl).trans
    simp only [ElfReader.zero, Option.or_none]
    rfl
  rw [elfReaderCtr, Option.bind_eq_bind, Option.bind_some, if_pos hident]
  exact congrArg (elfReaderParseDynamic m) hloop

/-- The reader reads exactly the files that can be read. -/
theorem elfReaderCtr_eq_some_iff {m : Memory} {start : Addr} {r : ElfReader}
    (hident : elfReaderCheckEIdent m start = true) :
  elfReaderCtr m (some start) = some r ↔ Readable m start ∧ r = reader m start
  := by
  rw [elfReaderCtr_eq hident, elfReaderParseDynamic]
  cases hsection : dynamicSection m start with
  | none =>
    constructor
    · intro h
      rw [show (sectionsReader m start).sHdrDynamic = none from hsection] at h
      cases h
    · rintro ⟨⟨⟨sHdr, hsome, -⟩, -⟩, -⟩
      rw [hsection] at hsome
      cases hsome
  | some sHdr =>
    have hdyns : dynamics m start = dynamicEntries m start sHdr := by
      rw [dynamics, hsection]
    have hloop := dynamicLoop_eq (m := m) (r := sectionsReader m start)
      (start + (getShdr m sHdr).shOffset)
      (intBound ((getShdr m sHdr).shSize / (getShdr m sHdr).shEntsize)) rfl
    have hvars : dynamicLoop m (sectionsReader m start) (start + (getShdr m sHdr).shOffset)
        (intBound ((getShdr m sHdr).shSize / (getShdr m sHdr).shEntsize)) =
        { relaArr := (relaPtr m start).map (start + ·)
          relaEnt := relaEnt m start
          relaSz := relaSz m start } := by
      rw [relaPtr, relaEnt, relaSz, hdyns]
      exact hloop
    rw [show (sectionsReader m start).sHdrDynamic = some sHdr from hsection,
      Option.bind_eq_bind, Option.bind_some]
    dsimp only
    by_cases hentsize : (getShdr m sHdr).shEntsize = 0
    · rw [if_pos hentsize]
      constructor
      · nofun
      · rintro ⟨⟨⟨sHdr', hsome, hne⟩, -⟩, -⟩
        rw [hsection] at hsome
        rw [← Option.some.inj hsome] at hne
        exact absurd hentsize hne
    · rw [if_neg hentsize]
      have hbase : (sectionsReader m start).base = start := rfl
      rw [hbase, hvars]
      dsimp only
      by_cases hent : relaEnt m start = 0
      · rw [if_pos hent]
        constructor
        · nofun
        · rintro ⟨⟨-, hne⟩, -⟩
          exact absurd hent hne
      · rw [if_neg hent, Option.some_inj]
        have hreader : reader m start =
            { sectionsReader m start with
              sHdrDynamic := some sHdr
              dynArr := start + (getShdr m sHdr).shOffset
              dynArrlen := (getShdr m sHdr).shSize / (getShdr m sHdr).shEntsize
              relaArr := (relaPtr m start).map (start + ·)
              relaArrlen := relaSz m start / relaEnt m start } := by
          rw [reader, hsection]
          rw [sectionsReader, hsection]
          rfl
        constructor
        · rintro rfl
          exact ⟨⟨⟨sHdr, hsection, hentsize⟩, hent⟩, hreader.symm⟩
        · rintro ⟨-, rfl⟩
          exact hreader.symm

/-! ### Reading any file -/

/-- The reader reports a failure, or it reads the image and finds the number of relocations:
`DT_RELASZ` divided by `DT_RELAENT`, and none when there is no dynamic section or there are no
entries for relocations. It does not dereference `NULL` and does not divide by zero. -/
def ReadsAny (m : Memory) (elfStart : Option Addr) : Prop :=
  ∃ r, elfReaderCtr m elfStart = some r ∧ (r.eHdr = none ∨ ∃ start,
    elfStart = some start ∧ r.eHdr = some start
      ∧ ((dynamicSection m start = none ∨ dynValue (dynamics m start) dtRelasz = none) →
        r.relaArrlen = 0)
      ∧ (relaEnt m start ≠ 0 → r.relaArrlen = relaSz m start / relaEnt m start))

/-- There is an image, and when it has the `e_ident` of an ELF file then its dynamic section
can be read. -/
def Loadable (m : Memory) (elfStart : Option Addr) : Prop :=
  ∃ start, elfStart = some start ∧ (elfReaderCheckEIdent m start = true → Readable m start)

theorem ReadsAny.loadable {m : Memory} {elfStart : Option Addr} (h : ReadsAny m elfStart) :
  Loadable m elfStart
  := by
  obtain ⟨r, hctr, -⟩ := h
  cases elfStart with
  | none => cases hctr
  | some start =>
    use start, rfl
    intro hident
    exact ((elfReaderCtr_eq_some_iff hident).mp hctr).1

/-- The reader reads any file exactly when there is one and, if it has the `e_ident` of an ELF
file, it has a dynamic section, in whose header the size of an entry is not zero, with a last
`DT_RELAENT` that is not zero. -/
theorem elfReaderCtr_readsAny_iff (m : Memory) (elfStart : Option Addr) :
  ReadsAny m elfStart ↔ Loadable m elfStart
  := by
  constructor
  · apply ReadsAny.loadable
  · rintro ⟨start, rfl, hreadable⟩
    by_cases hident : elfReaderCheckEIdent m start = true
    · have hr := hreadable hident
      refine ⟨reader m start, (elfReaderCtr_eq_some_iff hident).mpr ⟨hr, rfl⟩, Or.inr ?_⟩
      refine ⟨start, rfl, rfl, ?_, fun _ => rfl⟩
      rintro (hnone | hnone)
      · obtain ⟨⟨sHdr, hsome, -⟩, -⟩ := hr
        rw [hnone] at hsome
        cases hsome
      · have hzero : relaSz m start = 0 := by
          rw [relaSz, hnone]
          rfl
        change relaSz m start / relaEnt m start = 0
        rw [hzero]
        exact BitVec.zero_udiv
    · refine ⟨ElfReader.zero, ?_, Or.inl rfl⟩
      rw [elfReaderCtr, Option.bind_eq_bind, Option.bind_some, if_neg hident]

/-- The header of an ELF file without sections and without program headers. -/
def withoutSections : Memory :=
  Memory.fresh fun a =>
    if a = 0x1000 then 0x7f
    else if a = 0x1001 then 69
    else if a = 0x1002 then 76
    else if a = 0x1003 then 70
    else if a = 0x1004 then 2
    else if a = 0x1005 then 1
    else if a = 0x1006 then 1
    else 0

/-- The reader dereferences `NULL` when no program is found, and when the image has no dynamic
section. -/
theorem not_readsAny :
  ¬ ReadsAny withoutSections none ∧ dynamicSection withoutSections 0x1000 = none
    ∧ ¬ ReadsAny withoutSections (some 0x1000)
  := by
  have hsection : dynamicSection withoutSections 0x1000 = none := by rfl
  refine ⟨?_, hsection, ?_⟩
  · intro h
    obtain ⟨start, hnone, -⟩ := h.loadable
    cases hnone
  · intro h
    obtain ⟨start, hsome, hreadable⟩ := h.loadable
    obtain rfl := Option.some.inj hsome
    have hident : elfReaderCheckEIdent withoutSections 0x1000 = true := by rfl
    obtain ⟨⟨sHdr, hdyn, -⟩, -⟩ := hreadable hident
    rw [hsection] at hdyn
    cases hdyn

end TrainsOs.Loader
