import TrainsOs.Kernel.Boot

/-!
# An allocator for runs on fixed inputs

Every allocation takes the next address, which has not been in use before. The invariant
of the arena is a field. The allocators of the source are in `Kernel.Allocators`; the arena
stands for them where a run on a fixed input is computed.
-/

namespace TrainsOs

/-- The descriptors and the blocks of pages in use, and the next address. -/
structure Arena where
  next : ℕ
  tds : List ℕ
  blocks : List ℕ
  tds_lt : ∀ p ∈ tds, p < next
  blocks_lt : ∀ x ∈ blocks, x < next

namespace Kernel

/-- The registers of a task that is trapped, in runs on fixed inputs. -/
def ctx₀ : Ctx where
  pc := 0
  sp := 0
  pstate := 0

end Kernel

namespace Arena

def empty : Arena where
  next := 1
  tds := []
  blocks := []
  tds_lt := by simp
  blocks_lt := by simp

def takeTd (a : Arena) : Arena where
  next := a.next + 1
  tds := a.next :: a.tds
  blocks := a.blocks
  tds_lt := by
    intro p hp
    obtain rfl | hp := List.mem_cons.mp hp
    · exact Nat.lt_succ_self _
    · exact (a.tds_lt p hp).trans (Nat.lt_succ_self _)
  blocks_lt := fun x hx => (a.blocks_lt x hx).trans (Nat.lt_succ_self _)

def takeBlock (a : Arena) : Arena where
  next := a.next + 1
  tds := a.tds
  blocks := a.next :: a.blocks
  tds_lt := fun p hp => (a.tds_lt p hp).trans (Nat.lt_succ_self _)
  blocks_lt := by
    intro x hx
    obtain rfl | hx := List.mem_cons.mp hx
    · exact Nat.lt_succ_self _
    · exact (a.blocks_lt x hx).trans (Nat.lt_succ_self _)

def dropTd (a : Arena) (p : ℕ) : Arena where
  next := a.next
  tds := a.tds.filter fun x => x ≠ p
  blocks := a.blocks
  tds_lt := fun x hx => a.tds_lt x (List.mem_of_mem_filter hx)
  blocks_lt := a.blocks_lt

def dropBlock (a : Arena) (x : ℕ) : Arena where
  next := a.next
  tds := a.tds
  blocks := a.blocks.filter fun y => y ≠ x
  tds_lt := a.tds_lt
  blocks_lt := fun y hy => a.blocks_lt y (List.mem_of_mem_filter hy)

theorem tds_dropTd (a : Arena) (p : ℕ) :
  (a.dropTd p).tds.toFinset = a.tds.toFinset.erase p
  := by
  ext x
  simp [dropTd, and_comm]

instance : TaskAlloc Arena where
  slabAlloc a := (a.takeTd, some a.next)
  slabFree := dropTd
  pgAllocPage a _ := (a.takeBlock, some a.next)
  pgFreePage := dropBlock
  tds a := a.tds.toFinset
  blocks a := { x | x ∈ a.blocks }
  Intact _ := True
  FreeSafe _ _ := True
  slabAlloc_none _ h := nomatch h
  slabAlloc_fresh := by
    rintro a p - ⟨⟩ hp
    exact (a.tds_lt _ (List.mem_toFinset.mp hp)).false
  slabAlloc_some := by
    rintro a p - - ⟨⟩
    exact ⟨List.toFinset_cons, rfl, trivial⟩
  slabFree_spec := by
    rintro a p - -
    exact ⟨tds_dropTd a p, rfl, trivial⟩
  slabFree_slabAlloc _ _ h := nomatch h
  pgAllocPage_none _ h := nomatch h
  pgAllocPage_some := by
    rintro a n x - ⟨⟩
    refine ⟨fun hx => (a.blocks_lt _ hx).false, rfl, ?_, trivial⟩
    ext y
    exact List.mem_cons
  pgFreePage_spec := by
    rintro a x - - -
    refine ⟨rfl, ?_, trivial⟩
    ext y
    simp [dropBlock]

/-- The kernel before `k_main`. -/
def blankKernel : Kernel Arena where
  code := { loadElf := 0, idleTask := 0, keExit := 0 }
  alloc := empty
  td _ :=
    { pc := 0, sp := 0, pstate := 0, esrEl1 := 0, syscallRetval := 0, stackAddr := 0
      stackSz := 0, tid := 0, priority := 0, insertVal := 0, state := 0, parentTid := 0
      mailbox := Kernel.kMboxInit }
  mem _ := { bytes := fun _ => 0, ints := fun _ => 0, ptrs := fun _ => 0 }
  heap := BinHeap.init 0 kSchedHeapCapacity
  insertions := 0
  links := { prev := fun _ => none, next := fun _ => none }
  blocked _ := none
  mapTid := []
  nextTid := 0
  idleTask := 0
  current := none
  point := .top
  atNull := none
  nullTid := 0
  log := []

/-- The kernel when it enters the loop. -/
def bootKernel : Kernel Arena :=
  (Kernel.kMain blankKernel (fun _ => 0) 0 0).getD blankKernel

theorem booted :
  Kernel.Booted bootKernel
  := ⟨blankKernel, fun _ => 0, 0, 0, trivial, rfl, rfl⟩

end Arena

/-- The number of descriptors in use. -/
def Kernel.tdsCount (k : Kernel Arena) : ℕ :=
  (TaskAlloc.tds k.alloc).card

end TrainsOs
