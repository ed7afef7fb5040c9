import TrainsOs.Lib.DList
import TrainsOs.Macro

/-!
# The page manager

The state of the buddy allocator of `pgmgr.c` and its two operations. The page
descriptors live in one array for each root segment, and a pointer to a descriptor is
the root it belongs to together with its index in that array. Each field of
`struct PgDsp` is a map on descriptor pointers; the two link fields are the `Links` of
the free lists.

An operation returns `none` when an assertion of a list macro fails or a `NULL` pointer
is dereferenced.
-/

namespace TrainsOs

/-- `PG_SFT`: pages have 1 MB. -/
def pgSft : ℕ := 20

/-- `PG_SZ`. -/
def pgSz : ℕ := 1 <<< pgSft

/-- `PGMGR_MAXLVL`. -/
def pgmgrMaxlvl : ℕ := 9

/-- A pointer to a page descriptor. -/
structure DspPtr where
  root : ℕ
  idx : ℕ
deriving DecidableEq

def DspPtr.add (d : DspPtr) (n : ℕ) : DspPtr := ⟨d.root, d.idx + n⟩

def DspPtr.sub (d : DspPtr) (n : ℕ) : DspPtr := ⟨d.root, d.idx - n⟩

/-- `struct PgRoot`: the address of the descriptor array (`0` for `NULL`) and the
segment. -/
structure PgRoot where
  root : ℕ
  startAddr : ℕ
  endAddr : ℕ

/-- The number of pages of a root segment. -/
def PgRoot.numPages (r : PgRoot) : ℕ :=
  (r.endAddr - r.startAddr) >>> pgSft

/-- `struct PgMgr` together with the fields of the page descriptors. `used` is the flag
`PGDSP_USED`, the only one there is. -/
structure PgMgr where
  self : ℕ
  freeLists : ℕ → Option DspPtr
  roots : List PgRoot
  addr : DspPtr → ℕ
  links : DList.Links DspPtr
  used : DspPtr → Bool
  lvl : DspPtr → ℕ

namespace PgMgr

/-- `DL_APPEND2(mgr->free_lists[lvl].head, dsp, free_list_prev, free_list_next)`. -/
def dlAppend (mgr : PgMgr) (lvl : ℕ) (dsp : DspPtr) : Option PgMgr := do
  let (links, head) ← DList.append mgr.links (mgr.freeLists lvl) dsp
  some { mgr with links := links, freeLists := Function.update mgr.freeLists lvl head }

/-- `DL_DELETE2(mgr->free_lists[lvl].head, dsp, free_list_prev, free_list_next)`. -/
def dlDelete (mgr : PgMgr) (lvl : ℕ) (dsp : DspPtr) : Option PgMgr := do
  let (links, head) ← DList.delete mgr.links (mgr.freeLists lvl) dsp
  some { mgr with links := links, freeLists := Function.update mgr.freeLists lvl head }

def setUsed (mgr : PgMgr) (dsp : DspPtr) (b : Bool) : PgMgr :=
  { mgr with used := Function.update mgr.used dsp b }

def setLvl (mgr : PgMgr) (dsp : DspPtr) (lvl : ℕ) : PgMgr :=
  { mgr with lvl := Function.update mgr.lvl dsp lvl }

/-- The loop of `pg_alloc_page` that breaks up a block of level `p + n` until level `p`,
appending the unused upper half of each split to its free list. -/
def breakUp (mgr : PgMgr) (dsp : DspPtr) (p : ℕ) : ℕ → Option PgMgr
  | 0 => some mgr
  | n + 1 => do
      let unusedHalf := dsp.add (1 <<< (p + n))
      let mgr := mgr.setUsed unusedHalf false
      let mgr ← mgr.dlAppend (p + n) unusedHalf
      mgr.breakUp dsp p n

/-- The level of pages for `2 ^ p` bytes. -/
def pageLvl (p : ℕ) : ℕ :=
  if p < pgSft then 0 else p - pgSft

/-- The first level from `p` on with a non-empty free list. -/
def firstLvl (mgr : PgMgr) (p : ℕ) : Option ℕ :=
  (List.range' p (pgmgrMaxlvl + 1 - p)).find? fun q => (mgr.freeLists q).isSome

/-- `pg_alloc_page`: the manager afterwards and the address returned, `none` being
`NULL`. The argument `flags` is not used. -/
def pgAllocPage (mgr : PgMgr) (p : ℕ) : Option (PgMgr × Option ℕ) :=
  let p := pageLvl p
  match mgr.firstLvl p with
  | none => some (mgr, none)
  | some q => do
      let dsp ← mgr.freeLists q
      let mgr ← mgr.dlDelete q dsp
      let mgr ← mgr.breakUp dsp p (q - p)
      let mgr := (mgr.setUsed dsp true).setLvl dsp p
      some (mgr, some (mgr.addr dsp))

/-- `addr_in_segment`. -/
def addrInSegment (seg : PgRoot) (addr : ℕ) : Bool :=
  seg.startAddr ≤ addr && addr < seg.endAddr

/-- The binary search of `pg_free_page` over `[l, r]`: the value of `l` when the loop is
left. It is `none` when the array is read out of bounds. The first argument bounds the
number of rounds. -/
def searchRoot (roots : List PgRoot) (ptr : ℕ) : ℕ → ℕ → ℕ → Option ℕ
  | 0, _, _ => none
  | fuel + 1, l, r =>
      if l < r then
        let m := (l + r) / 2
        match roots[m]? with
        | none => none
        | some seg =>
            if ptr < seg.startAddr then
              -- `r = m - 1` on `unsigned` operands
              searchRoot roots ptr fuel l (if m = 0 then 2 ^ 32 - 1 else m - 1)
            else if seg.endAddr ≤ ptr then
              searchRoot roots ptr fuel (m + 1) r
            else
              some l
      else
        some l

/-- The buddy of a block of level `lvl`. -/
def buddy (mgr : PgMgr) (dsp : DspPtr) (lvl : ℕ) : DspPtr :=
  if mgr.addr dsp &&& (1 <<< (pgSft + lvl)) ≠ 0 then dsp.sub (1 <<< lvl) else dsp.add (1 <<< lvl)

/-- The tests of the loop of `pg_free_page` at level `lvl`: `true` when the loop goes on
to take the buddy off its free list. -/
def tryMerge (mgr : PgMgr) (seg : PgRoot) (dsp : DspPtr) (lvl : ℕ) : Bool :=
  (mgr.addr dsp &&& (1 <<< (pgSft + lvl - 1)) == 0)
    && addrInSegment seg (mgr.addr dsp ^^^ (1 <<< (pgSft + lvl)))
    && !mgr.used (mgr.buddy dsp lvl)

/-- The lower of two buddies: `if (buddy < dsp) dsp = buddy`. -/
def lower (buddy dsp : DspPtr) : DspPtr :=
  if buddy.idx < dsp.idx then buddy else dsp

/-- The loop of `pg_free_page` that combines a block of level `lvl` with its buddies. The
first argument is the number of levels left below `PGMGR_MAXLVL`. -/
def combine (seg : PgRoot) : ℕ → PgMgr → DspPtr → ℕ → Option (PgMgr × DspPtr × ℕ)
  | 0, mgr, dsp, lvl => some (mgr, dsp, lvl)
  | n + 1, mgr, dsp, lvl =>
      if mgr.tryMerge seg dsp lvl then do
        let buddy := mgr.buddy dsp lvl
        let mgr ← mgr.dlDelete lvl buddy
        combine seg n mgr (lower buddy dsp) (lvl + 1)
      else
        some (mgr, dsp, lvl)

/-- `pg_free_page`. -/
def pgFreePage (mgr : PgMgr) (ptr : ℕ) : Option PgMgr := do
  let l ← searchRoot mgr.roots ptr (mgr.roots.length + 1) 0 mgr.roots.length
  let seg ← mgr.roots[l]?
  if addrInSegment seg ptr then
    let dsp : DspPtr := ⟨l, (ptr - seg.startAddr) >>> pgSft⟩
    let (mgr, dsp, lvl) ← combine seg (pgmgrMaxlvl - mgr.lvl dsp) mgr dsp (mgr.lvl dsp)
    mgr.dlAppend lvl dsp
  else
    some mgr

end PgMgr

end TrainsOs
