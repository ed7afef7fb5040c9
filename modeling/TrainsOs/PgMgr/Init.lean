import TrainsOs.PgMgr.Basic

/-!
# Initialization of the page manager

The function `pg_init` of `pgmgr.c` and its passes: the segments are trimmed to whole
pages, each segment that is left becomes a root, the manager and the descriptor arrays
are placed inside the segments, and what remains is put on the free lists.

The passes mutate one array of segments. Addresses do not wrap around; a pass whose
result is `none` corresponds to `pg_init` returning `NULL`.
-/

namespace TrainsOs

/-- `struct PgInitSeg`. -/
structure PgInitSeg where
  startAddr : ℕ
  endAddr : ℕ
  flag : ℕ
deriving DecidableEq

/-- `seg->flag & PGINIT_SEG_DSP_READ_ONLY`. -/
def PgInitSeg.dspReadOnly (seg : PgInitSeg) : Bool :=
  seg.flag &&& (1 <<< 0) ≠ 0

/-- The length of a segment in bytes. -/
def PgInitSeg.len (seg : PgInitSeg) : ℕ :=
  seg.endAddr - seg.startAddr

/-- `UINTPTR_MAX`. -/
def uintptrMax : ℕ := 2 ^ 64 - 1

/-- `CACHE_LINE_SFT`. -/
def cacheLineSft : ℕ := 6

/-- `PGINIT_TRIMS_N`. -/
def pginitTrimsN : ℕ := 8

/-- `sizeof(struct PgDsp)`. -/
def sizeofPgDsp : ℕ := 32

/-- `sizeof(struct PgRoot)`. -/
def sizeofPgRoot : ℕ := 24

/-- `sizeof(struct PgMgr)`, without the flexible array of roots. -/
def sizeofPgMgr : ℕ := 88

/-! ### Trimming -/

/-- The loop of `pg_init_trimx_maybe_add` that moves the candidate from position `i` to its
place. -/
def trimxBubble (trims : List PgInitSeg) : ℕ → List PgInitSeg
  | 0 => trims
  | i + 1 =>
      match trims[i]?, trims[i + 1]? with
      | some a, some b =>
          if b.len ≤ a.len then trims else trimxBubble ((trims.set i b).set (i + 1) a) i
      | _, _ => trims

/-- `pg_init_trimx_maybe_add`. -/
def pgInitTrimxMaybeAdd (trims : List PgInitSeg) (cand : PgInitSeg) : List PgInitSeg :=
  match trims.getLast? with
  | none => trims
  | some last =>
      if cand.len ≤ last.len then
        trims
      else
        trimxBubble (trims.set (trims.length - 1) cand) (trims.length - 1)

/-- `pg_init_trimx_nonempty_cnt`. -/
def pgInitTrimxNonemptyCnt (trims : List PgInitSeg) : ℕ :=
  (trims.findIdx? fun trim => trim.startAddr ≠ trim.endAddr).getD trims.length

/-- The loop of `pg_init_trimx`: the trimmed segments and the remainders. -/
def trimxLoop : List PgInitSeg → List PgInitSeg → List PgInitSeg × List PgInitSeg
  | [], trims => ([], trims)
  | seg :: segs, trims =>
      if seg.endAddr ≤ seg.startAddr then
        let (segs, trims) := trimxLoop segs trims
        (seg :: segs, trims)
      else
        let startAddrTrim := alignUp seg.startAddr pgSft
        let endAddrTrim := alignDown seg.endAddr pgSft
        let trims :=
          if startAddrTrim < endAddrTrim then
            let trims :=
              if seg.startAddr ≠ startAddrTrim then
                pgInitTrimxMaybeAdd trims ⟨seg.startAddr, startAddrTrim, seg.flag⟩
              else
                trims
            if seg.endAddr ≠ endAddrTrim then
              pgInitTrimxMaybeAdd trims ⟨endAddrTrim, seg.endAddr, seg.flag⟩
            else
              trims
          else
            pgInitTrimxMaybeAdd trims seg
        let (segs, trims) := trimxLoop segs trims
        (⟨startAddrTrim, endAddrTrim, seg.flag⟩ :: segs, trims)

/-- `pg_init_trimx`: the trimmed segments, the array of remainders and the value stored in
`trimx->n`. -/
def pgInitTrimx (segs : List PgInitSeg) : List PgInitSeg × List PgInitSeg × ℕ :=
  let (segs, trims) := trimxLoop segs (List.replicate pginitTrimsN ⟨0, 0, 0⟩)
  (segs, trims, pgInitTrimxNonemptyCnt trims)

/-! ### Placing the manager -/

/-- `pg_init_rootx`. -/
def pgInitRootx : List PgInitSeg → List PgRoot
  | [] => []
  | seg :: segs =>
      if seg.endAddr ≤ seg.startAddr then
        pgInitRootx segs
      else
        ⟨0, seg.startAddr, seg.endAddr⟩ :: pgInitRootx segs

/-- The loop of `pg_init_pgmgr_addr`. -/
def pgmgrAddrLoop (pgmgrSz : ℕ) : List PgInitSeg → ℕ → ℕ → ℕ
  | [], pgmgrAddr, _ => pgmgrAddr
  | seg :: segs, pgmgrAddr, rating =>
      if seg.dspReadOnly then
        pgmgrAddrLoop pgmgrSz segs pgmgrAddr rating
      else
        let alignedStart := alignUp seg.startAddr cacheLineSft
        if seg.endAddr < alignedStart + pgmgrSz then
          pgmgrAddrLoop pgmgrSz segs pgmgrAddr rating
        else
          let newRating := seg.endAddr - alignedStart
          if pgmgrAddr = 0 ∨ newRating < rating then
            pgmgrAddrLoop pgmgrSz segs alignedStart newRating
          else
            pgmgrAddrLoop pgmgrSz segs pgmgrAddr rating

/-- `pg_init_pgmgr_addr`. -/
def pgInitPgmgrAddr (segs : List PgInitSeg) (pgmgrSz : ℕ) : ℕ :=
  pgmgrAddrLoop pgmgrSz segs uintptrMax uintptrMax

/-- `pg_init_blankspace`: the segments from the root that is looked at on. The segment
found for the root is swapped to the front, and the rest is searched for the rest of the
roots. -/
def pgInitBlankspace (self pgmgrSz : ℕ) : List PgRoot → List PgInitSeg → Option (List PgInitSeg)
  | [], _ => some []
  | _ :: _, [] => none
  | root :: roots, seg :: segs => do
      let j ← (seg :: segs).findIdx? fun seg' =>
        seg'.startAddr ≤ root.startAddr && root.endAddr ≤ seg'.endAddr
      let found ← (seg :: segs)[j]?
      let startAddr :=
        if root.startAddr ≤ self ∧ self < root.endAddr then self + pgmgrSz else root.startAddr
      let rest ← pgInitBlankspace self pgmgrSz roots ((seg :: segs).set j seg).tail
      some (⟨startAddr, root.endAddr, found.flag⟩ :: rest)

/-! ### Placing the descriptors -/

/-- The loop of `pg_init_pgdsps_next_root` from index `i` on. -/
def nextRootLoop : List PgRoot → List PgInitSeg → ℕ → Option ℕ → ℕ → Option ℕ
  | root :: roots, seg :: segs, i, idx, smallestScore =>
      if root.root ≠ 0 then
        nextRootLoop roots segs (i + 1) idx smallestScore
      else if seg.dspReadOnly then
        nextRootLoop roots segs (i + 1) (if idx = none then some i else idx) smallestScore
      else if root.numPages < smallestScore then
        nextRootLoop roots segs (i + 1) (some i) root.numPages
      else
        nextRootLoop roots segs (i + 1) idx smallestScore
  | _, _, _, idx, _ => idx

/-- `pg_init_pgdsps_next_root`. -/
def pgInitPgdspsNextRoot (roots : List PgRoot) (segs : List PgInitSeg) : Option ℕ :=
  nextRootLoop roots segs 0 none uintptrMax

/-- `pg_init_pgdsps_calc_space_for_root`. -/
def pgInitPgdspsCalcSpaceForRoot (root : PgRoot) : ℕ :=
  root.numPages * sizeofPgDsp

/-- The loop of `pg_init_pgdsps_alloc_root` from index `i` on. -/
def allocRootLoop (pgidx requireSpace : ℕ) :
    List PgRoot → List PgInitSeg → ℕ → Option ℕ → ℕ → Option ℕ
  | root :: roots, seg :: segs, i, bestIdx, bestSpace =>
      if seg.dspReadOnly then
        allocRootLoop pgidx requireSpace roots segs (i + 1) bestIdx bestSpace
      else if i ≠ pgidx ∧ root.root = 0 then
        allocRootLoop pgidx requireSpace roots segs (i + 1) bestIdx bestSpace
      else if seg.len < requireSpace then
        allocRootLoop pgidx requireSpace roots segs (i + 1) bestIdx bestSpace
      else if seg.len < bestSpace then
        allocRootLoop pgidx requireSpace roots segs (i + 1) (some i) seg.len
      else
        allocRootLoop pgidx requireSpace roots segs (i + 1) bestIdx bestSpace
  | _, _, _, bestIdx, _ => bestIdx

/-- The segment whose blank space `pg_init_pgdsps_alloc_root` chooses. -/
def allocRootBest (roots : List PgRoot) (segs : List PgInitSeg) (pgidx requireSpace : ℕ) :
    Option ℕ :=
  allocRootLoop pgidx requireSpace roots segs 0 none uintptrMax

/-- `pg_init_pgdsps_alloc_root`. -/
def pgInitPgdspsAllocRoot (roots : List PgRoot) (segs : List PgInitSeg) (pgidx : ℕ) :
    Option (List PgRoot × List PgInitSeg) := do
  let root ← roots[pgidx]?
  let requireSpace := pgInitPgdspsCalcSpaceForRoot root
  let best ← allocRootBest roots segs pgidx requireSpace
  let seg ← segs[best]?
  some (roots.set pgidx { root with root := seg.startAddr },
    segs.set best { seg with startAddr := seg.startAddr + requireSpace })

namespace PgMgr

/-- `pg_init_pgdsps_write_root`. -/
def writeRoot (mgr : PgMgr) (idx : ℕ) (root : PgRoot) : PgMgr :=
  let inRoot (d : DspPtr) : Bool := d.root == idx && d.idx < root.numPages
  { mgr with
    addr := fun d => if inRoot d then root.startAddr + (d.idx <<< pgSft) else mgr.addr d
    links := {
      prev := fun d => if inRoot d then none else mgr.links.prev d
      next := fun d => if inRoot d then none else mgr.links.next d }
    used := fun d => if inRoot d then false else mgr.used d
    lvl := fun d => if inRoot d then 0 else mgr.lvl d }

/-- `pg_init_pgdsps`. The first argument bounds the number of rounds. -/
def pgInitPgdsps : ℕ → PgMgr → List PgInitSeg → Option (PgMgr × List PgInitSeg)
  | 0, _, _ => none
  | fuel + 1, mgr, segs =>
      match pgInitPgdspsNextRoot mgr.roots segs with
      | none => some (mgr, segs)
      | some idx => do
          let (roots, segs) ← pgInitPgdspsAllocRoot mgr.roots segs idx
          let root ← roots[idx]?
          pgInitPgdsps fuel ({ mgr with roots := roots }.writeRoot idx root) segs

end PgMgr

/-- The size of the manager with `rootsN` roots, a `uint32_t`. -/
def pgmgrSz (rootsN : ℕ) : ℕ :=
  (sizeofPgMgr + sizeofPgRoot * rootsN) % 2 ^ 32

/-- `pg_init` up to the free lists: the manager and the blank spaces left in the segments.
The first argument is what the memory of the descriptors holds before. -/
def pgInitPlace (addr₀ : DspPtr → ℕ) (segs : List PgInitSeg) :
    Option (PgMgr × List PgInitSeg) := do
  let (segs, _) := pgInitTrimx segs
  let roots := pgInitRootx segs
  let pgmgrAddr := pgInitPgmgrAddr segs (pgmgrSz roots.length)
  if pgmgrAddr = uintptrMax then
    none
  else
    let segs ← pgInitBlankspace pgmgrAddr (pgmgrSz roots.length) roots segs
    let mgr : PgMgr := {
      self := pgmgrAddr
      freeLists := fun _ => none
      roots := roots
      addr := addr₀
      links := ⟨fun _ => none, fun _ => none⟩
      used := fun _ => false
      lvl := fun _ => 0 }
    mgr.pgInitPgdsps (2 * roots.length + 1) segs

/-! ### Seeding the free lists -/

/-- The loop of `pg_addr_maxlvl` from level `l` down. -/
def addrMaxlvlLoop (addr : ℕ) : ℕ → ℕ
  | 0 => 0
  | l + 1 => if addr &&& ((1 <<< (l + 1 + pgSft)) - 1) = 0 then l + 1 else addrMaxlvlLoop addr l

/-- `pg_addr_maxlvl`. -/
def pgAddrMaxlvl (addr : ℕ) : ℕ :=
  addrMaxlvlLoop addr pgmgrMaxlvl

/-- The loop of `pg_pagecnt_maxlvl` from level `l` down. -/
def pagecntMaxlvlLoop (numPages : ℕ) : ℕ → ℕ
  | 0 => 0
  | l + 1 => if numPages &&& (1 <<< (l + 1)) ≠ 0 then l + 1 else pagecntMaxlvlLoop numPages l

/-- `pg_pagecnt_maxlvl`. -/
def pgPagecntMaxlvl (numPages : ℕ) : ℕ :=
  pagecntMaxlvlLoop numPages pgmgrMaxlvl

namespace PgMgr

/-- The first loop of `pg_init_free_lists_add_range`: the manager and `start_idx` when it is
left. The first argument bounds the number of rounds. -/
def addRangeUp (root endIdx : ℕ) : ℕ → PgMgr → ℕ → Option (PgMgr × ℕ)
  | 0, _, _ => none
  | fuel + 1, mgr, startIdx =>
      let lvl := pgAddrMaxlvl (mgr.addr ⟨root, startIdx⟩)
      if endIdx < startIdx + (1 <<< lvl) then
        some (mgr, startIdx)
      else do
        let mgr ← mgr.dlAppend lvl ⟨root, startIdx⟩
        addRangeUp root endIdx fuel mgr (startIdx + (1 <<< lvl))

/-- The second loop of `pg_init_free_lists_add_range`. -/
def addRangeDown (root endIdx : ℕ) : ℕ → PgMgr → ℕ → Option PgMgr
  | 0, _, _ => none
  | fuel + 1, mgr, startIdx =>
      if startIdx = endIdx then
        some mgr
      else do
        let lvlByAddr := pgAddrMaxlvl (mgr.addr ⟨root, startIdx⟩)
        let lvlByPagecnt := pgPagecntMaxlvl (endIdx - startIdx)
        let lvl := min lvlByAddr lvlByPagecnt
        let mgr ← mgr.dlAppend lvl ⟨root, startIdx⟩
        addRangeDown root endIdx fuel mgr (startIdx + (1 <<< lvl))

/-- `pg_init_free_lists_add_range` for the root with index `root`. -/
def pgInitFreeListsAddRange (mgr : PgMgr) (root startIdx endIdx : ℕ) : Option PgMgr := do
  let (mgr, startIdx) ← addRangeUp root endIdx (endIdx - startIdx + 1) mgr startIdx
  addRangeDown root endIdx (endIdx - startIdx + 1) mgr startIdx

/-- The last page `i < n` of the root `root` with the address `addr`, and `default` when
there is none: the scan of `pg_init_free_lists_per_root` for one of the two bounds. -/
def scanIdx (mgr : PgMgr) (root addr default : ℕ) : ℕ → ℕ
  | 0 => default
  | n + 1 => if mgr.addr ⟨root, n⟩ = addr then n else mgr.scanIdx root addr default n

/-- The flags that `pg_init_free_lists_per_root` sets: the pages of the root with index `i`
that start outside of `[startAddr, endAddr)` are used. -/
def markUsed (mgr : PgMgr) (i numPages startAddr endAddr : ℕ) : PgMgr :=
  { mgr with used := fun d =>
      mgr.used d || (d.root == i && d.idx < numPages
        && (mgr.addr d < startAddr || endAddr ≤ mgr.addr d)) }

/-- `pg_init_free_lists_per_root` for the root with index `i`. -/
def pgInitFreeListsPerRoot (mgr : PgMgr) (i : ℕ) (root : PgRoot) (seg : PgInitSeg) :
    Option PgMgr :=
  let startAddr := alignUp seg.startAddr pgSft
  let endAddr := alignDown seg.endAddr pgSft
  let numPages := root.numPages
  let startIdx := mgr.scanIdx i startAddr 0 numPages
  let endIdx := mgr.scanIdx i endAddr numPages numPages
  (mgr.markUsed i numPages startAddr endAddr).pgInitFreeListsAddRange i startIdx endIdx

/-- The loop of `pg_init_free_lists` from index `i` on. -/
def freeListsLoop : List PgRoot → List PgInitSeg → ℕ → PgMgr → Option PgMgr
  | root :: roots, seg :: segs, i, mgr => do
      let mgr ← mgr.pgInitFreeListsPerRoot i root seg
      freeListsLoop roots segs (i + 1) mgr
  | _, _, _, mgr => some mgr

/-- `pg_init_free_lists`. -/
def pgInitFreeLists (mgr : PgMgr) (segs : List PgInitSeg) : Option PgMgr :=
  mgr.freeListsLoop mgr.roots segs 0

end PgMgr

/-- `pg_init`. -/
def pgInit (addr₀ : DspPtr → ℕ) (segs : List PgInitSeg) : Option PgMgr := do
  let (mgr, segs) ← pgInitPlace addr₀ segs
  let mgr ← mgr.pgInitFreeLists segs
  if mgr.self = 0 then none else some mgr

end TrainsOs
