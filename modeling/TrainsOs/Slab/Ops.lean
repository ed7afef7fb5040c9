import TrainsOs.Slab.Layout
import TrainsOs.Lib.Run

/-!
# Allocating and freeing objects

`slab_alloc` and `slab_free`. The free objects of a slab are chained by their indices
through the bytes of `free_list`: the last one links to itself, and `first_free` is `-1`
when there is none. A slab with objects in use is on the list `slabs` of its allocator,
and a slab without any on the list `empty_slabs`.
-/

namespace TrainsOs

/-- The lists of slabs of an allocator. -/
inductive SlabList where
  | slabs
  | emptySlabs
  deriving DecidableEq

namespace SlabAlloc

def head (a : SlabAlloc) : SlabList → Option ℕ
  | .slabs => a.slabs
  | .emptySlabs => a.emptySlabs

def setHead (a : SlabAlloc) (head : Option ℕ) : SlabList → SlabAlloc
  | .slabs => { a with slabs := head }
  | .emptySlabs => { a with emptySlabs := head }

@[simp]
theorem head_setHead (a : SlabAlloc) (head : Option ℕ) (b : SlabList) :
  (a.setHead head b).head = Function.update a.head b head
  := by
  funext c
  cases b <;> cases c <;> rfl

end SlabAlloc

namespace SlabMgr

/-- New links, and a new head of a list of the allocator. -/
def setList (mgr : SlabMgr) (alloc : ℕ) (b : SlabList) (l : DList.Links ℕ × Option ℕ) :
    SlabMgr :=
  { mgr with
    slabAlloc := Function.update mgr.slabAlloc alloc ((mgr.slabAlloc alloc).setHead l.2 b)
    links := l.1 }

/-- `DL_DELETE2` on a list of the allocator. -/
def dlDelete (mgr : SlabMgr) (alloc : ℕ) (b : SlabList) (slab : ℕ) : Option SlabMgr :=
  (DList.delete mgr.links ((mgr.slabAlloc alloc).head b) slab).map (mgr.setList alloc b)

/-- `DL_APPEND2` on a list of the allocator. -/
def dlAppend (mgr : SlabMgr) (alloc : ℕ) (b : SlabList) (slab : ℕ) : Option SlabMgr :=
  (DList.append mgr.links ((mgr.slabAlloc alloc).head b) slab).map (mgr.setList alloc b)

/-- `DL_PREPEND2` on a list of the allocator. -/
def dlPrepend (mgr : SlabMgr) (alloc : ℕ) (b : SlabList) (slab : ℕ) : SlabMgr :=
  mgr.setList alloc b (DList.prepend mgr.links ((mgr.slabAlloc alloc).head b) slab)

def setHeader (mgr : SlabMgr) (slab : ℕ) (hdr : Slab) : SlabMgr :=
  { mgr with slab := Function.update mgr.slab slab hdr }

/-- `slab_slab_alloc`: the manager and the address, `none` being `NULL`. -/
def slabSlabAlloc (mgr : SlabMgr) (slab : ℕ) : SlabMgr × Option ℕ :=
  let hdr := mgr.slab slab
  let a := mgr.slabAlloc hdr.alloc
  if a.objN ≤ hdr.usedCnt then
    (mgr, none)
  else if hdr.firstFree = -1 then
    (mgr, none)
  else
    let ptr := hdr.data + a.objSz * (hdr.firstFree % 2 ^ 32).toNat % 2 ^ 32
    let firstFree := (hdr.firstFree % 2 ^ 8).toNat
    (mgr.setHeader slab
      { hdr with
        firstFree := if hdr.freeList firstFree = firstFree then -1 else hdr.freeList firstFree
        usedCnt := (hdr.usedCnt + 1) % 2 ^ 16 }, some ptr)

/-- `slab_slab_free`. -/
def slabSlabFree (mgr : SlabMgr) (slab ptr : ℕ) : SlabMgr :=
  let hdr := mgr.slab slab
  let idx : ℕ := (ptr - hdr.data) / (mgr.slabAlloc hdr.alloc).objSz % 2 ^ 8
  let link := if hdr.firstFree = -1 then idx else (hdr.firstFree % 2 ^ 8).toNat
  mgr.setHeader slab
    { hdr with
      freeList := Function.update hdr.freeList idx link
      firstFree := idx
      usedCnt := (hdr.usedCnt + 2 ^ 16 - 1) % 2 ^ 16 }

/-- The slab from which `slab_alloc` takes an object, `none` when the page that it requests
is not given. The last component tells whether it requests one. -/
def findSlab (mgr : SlabMgr) (alloc : ℕ) (page : Option ℕ) (rand : ℕ) :
    Option (SlabMgr × Option ℕ × Bool) :=
  let a := mgr.slabAlloc alloc
  match a.slabs.filter fun slab => (mgr.slab slab).usedCnt ≠ a.objN with
  | some slab => some (mgr, some slab, false)
  | none =>
      match a.emptySlabs with
      | some slab => do
          let mgr ← mgr.dlDelete alloc .emptySlabs slab
          some (mgr.dlPrepend alloc .slabs slab, some slab, false)
      | none =>
          match page with
          | none => some (mgr, none, true)
          | some slab => do
              let mgr ← mgr.slabSlabInit slab alloc rand
              some (mgr.dlPrepend alloc .slabs slab, some slab, true)

end SlabMgr

/-- What `slab_alloc` leaves and returns, and whether it has requested a page. -/
structure Alloced where
  mgr : SlabMgr
  addr : Option ℕ
  requested : Bool

/-- `slab_alloc`, where `page` is what `func_alloc_page` returns when it is called, and
`rand` is what `math_rand_u32` returns then. It is `none` when the arithmetic is not
defined or an assertion of a list fails. -/
def slabAlloc (mgr : SlabMgr) (alloc : ℕ) (page : Option ℕ) (rand : ℕ) : Option Alloced := do
  let (mgr, slab, requested) ← mgr.findSlab alloc page rand
  match slab with
  | none => some ⟨mgr, none, requested⟩
  | some slab =>
      let (mgr, addr) := mgr.slabSlabAlloc slab
      if (mgr.slab slab).usedCnt = (mgr.slabAlloc alloc).objN then do
        let mgr ← mgr.dlDelete alloc .slabs slab
        let mgr ← mgr.dlAppend alloc .slabs slab
        some ⟨mgr, addr, requested⟩
      else
        some ⟨mgr, addr, requested⟩

/-- `slab_free`. -/
def slabFree (mgr : SlabMgr) (alloc ptr : ℕ) : Option SlabMgr :=
  let slab := alignDown ptr (mgr.slabAlloc alloc).pgSft
  if (mgr.slab slab).magic ≠ ['s', 'l', 'a', 'b'] then
    some mgr
  else
    let mgr := mgr.slabSlabFree slab ptr
    if (mgr.slab slab).usedCnt = 0 then do
      let mgr ← mgr.dlDelete alloc .slabs slab
      some (mgr.dlPrepend alloc .emptySlabs slab)
    else if (mgr.slabAlloc alloc).slabs ≠ some slab then do
      let mgr ← mgr.dlDelete alloc .slabs slab
      some (mgr.dlPrepend alloc .slabs slab)
    else
      some mgr

end TrainsOs
