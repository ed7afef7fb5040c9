import TrainsOs.Kernel.Arena
import TrainsOs.Kernel.Frame
import TrainsOs.Slab.Overlaid

/-!
# The allocators of the kernel

The slab allocator of the task descriptors and the page manager, as `k_main` sets them up and
`k_tmgr_get_free_task` and `k_tmgr_destroy_task` call them. They are the allocators that the
kernel is verified with: `TaskAlloc` holds of them. The slab gets its page from the page
manager, and a part of its free list lies in the first descriptor, so that a call finds there
what the kernel has last written into the descriptor.
-/

namespace TrainsOs

open PgMgr

/-- `sizeof(struct kTaskDsp)`. -/
def sizeofKTaskDsp : ℕ := 712

/-- `_Alignof(struct kTaskDsp)`. -/
def alignofKTaskDsp : ℕ := 8

/-- The variables of `math_rand_u32`. -/
structure RandState where
  z1 : BitVec 32
  z2 : BitVec 32
  z3 : BitVec 32
  z4 : BitVec 32
deriving DecidableEq

def RandState.start : RandState where
  z1 := 12345
  z2 := 12345
  z3 := 12345
  z4 := 12345

/-- `math_rand_u32`. -/
def mathRandU32 (s : RandState) : RandState × BitVec 32 :=
  let b := ((s.z1 <<< 6) ^^^ s.z1) >>> 13
  let z1 := ((s.z1 &&& 4294967294) <<< 18) ^^^ b
  let b := ((s.z2 <<< 2) ^^^ s.z2) >>> 27
  let z2 := ((s.z2 &&& 4294967288) <<< 2) ^^^ b
  let b := ((s.z3 <<< 13) ^^^ s.z3) >>> 21
  let z3 := ((s.z3 &&& 4294967280) <<< 7) ^^^ b
  let b := ((s.z4 <<< 3) ^^^ s.z4) >>> 12
  let z4 := ((s.z4 &&& 4294967168) <<< 13) ^^^ b
  (⟨z1, z2, z3, z4⟩, z1 ^^^ z2 ^^^ z3 ^^^ z4)

/-- The value with which the first slab is set up. -/
theorem mathRandU32_start :
  (mathRandU32 RandState.start).2 = 3338197162
  := by decide

/-! ### Pages -/

namespace PgSt

variable {s s' : PgSt} {x n : ℕ}

/-- `pg_alloc_page`, and the block that it hands out. -/
def allocPage (s : PgSt) (n : ℕ) : Option (PgSt × Option ℕ) := do
  let (mgr, res) ← s.mgr.pgAllocPage n
  some (⟨mgr, (res.map fun x => (x, pageLvl n)).toList ++ s.handed⟩, res)

/-- A block has at least one page. -/
theorem inBlock_of_lt {b : ℕ × ℕ} (hle : b.1 ≤ x) (hlt : x < b.1 + pgSz) :
  InBlock x b
  := ⟨hle, hlt.trans_le (Nat.add_le_add_left (Nat.le_mul_of_pos_left _ (Nat.two_pow_pos _)) _)⟩

/-- The blocks handed out start at different addresses. -/
theorem Inv.nodup (h : s.Inv) :
  (s.handed.map Prod.fst).Nodup
  := by
  rw [List.Nodup, List.pairwise_map, List.pairwise_iff_getElem]
  intro i j hi hj hij heq
  have hne : Owner.handed i ≠ .handed j := by
    intro hown
    cases hown
    exact hij.false
  apply h.exclusive.disjoint (.handed i) (.handed j) _ _ (List.getElem?_eq_getElem hi)
    (List.getElem?_eq_getElem hj) hne s.handed[i].1
  constructor
  · exact inBlock_of_lt le_rfl (Nat.lt_add_of_pos_right pgSz_pos)
  · exact inBlock_of_lt heq.ge (heq ▸ Nat.lt_add_of_pos_right pgSz_pos)

/-- An address is in one block that is handed out. -/
theorem Inv.eq_of_inBlock (h : s.Inv) {b c : ℕ × ℕ} (hb : b ∈ s.handed) (hc : c ∈ s.handed)
    (hxb : InBlock x b) (hxc : InBlock x c) :
  b = c
  := by
  obtain ⟨i, hi⟩ := List.mem_iff_getElem?.mp hb
  obtain ⟨j, hj⟩ := List.mem_iff_getElem?.mp hc
  by_contra hne
  apply h.exclusive.disjoint (.handed i) (.handed j) b c hi hj _ x ⟨hxb, hxc⟩
  intro hown
  cases hown
  exact hne (Option.some.inj (hi.symm.trans hj))

theorem Inv.dvd (h : s.Inv) {l : ℕ} (hx : (x, l) ∈ s.handed) :
  pgSz ∣ x
  := by
  obtain ⟨i, hi⟩ := List.mem_iff_getElem?.mp hx
  exact dvd_of_mul_left_dvd (h.exclusive.aligned (.handed i) _ hi)

/-- A block that is allocated was not handed out. -/
theorem allocPage_spec (h : s.Inv) (n : ℕ) :
  s.allocPage n = some (s, none)
    ∨ ∃ s' x, s.allocPage n = some (s', some x) ∧ s'.Inv
      ∧ s'.handed = (x, pageLvl n) :: s.handed ∧ (∀ l, (x, l) ∉ s.handed) ∧ pgSz ∣ x
  := by
  obtain ⟨fl, held, hinv, hhanded⟩ := id h
  obtain ⟨hnone, -⟩ | ⟨d, _, mgr', fl', -, -, hsome, hinv', -, -, haddr, -⟩ :=
    pgAllocPage_spec hinv n
  · left
    rw [allocPage, hnone]
    rfl
  · right
    have hs' : PgSt.Inv ⟨mgr', (s.mgr.addr d, pageLvl n) :: s.handed⟩ := by
      use fl', (d, pageLvl n) :: held, hinv'
      rw [hhanded, haddr, List.map_cons]
    refine ⟨⟨mgr', (s.mgr.addr d, pageLvl n) :: s.handed⟩, s.mgr.addr d, ?_, hs', rfl, ?_,
      hs'.dvd List.mem_cons_self⟩
    · rw [allocPage, hsome]
      rfl
    · intro l hl
      exact (List.nodup_cons.mp hs'.nodup).1 (List.mem_map.mpr ⟨_, hl, rfl⟩)

/-- A block that is freed is not handed out any more. -/
theorem freePage_spec (h : s.Inv) {l : ℕ} (hx : (x, l) ∈ s.handed) (hsafe : s.mgr.FreeSafe x) :
  ∃ s', pgStep s (.free x) = some s' ∧ s'.Inv
    ∧ ∀ y l, (y, l) ∈ s'.handed ↔ y ≠ x ∧ (y, l) ∈ s.handed
  := by
  obtain ⟨s', hstep, hinv⟩ := pgStep_inv s (.free x) h ⟨⟨l, hx⟩, hsafe⟩
  refine ⟨s', hstep, hinv, ?_⟩
  obtain ⟨mgr, -, hs'⟩ := Option.bind_eq_some_iff.mp hstep
  have hs' := Option.some.inj hs'
  have hsame : ∀ b ∈ s.handed, b.1 = x → b = (x, l) := by
    intro b hb heq
    exact List.inj_on_of_nodup_map h.nodup hb hx heq
  have herase : s.handed.eraseP (fun b => b.1 = x) = s.handed.erase (x, l) := by
    apply eraseP_eq_erase hx
    intro b hb
    rw [decide_eq_true_eq]
    exact ⟨hsame b hb, fun heq => by rw [heq]⟩
  intro y l'
  rw [← hs', herase, h.nodup.of_map.mem_erase_iff]
  apply and_congr_left
  intro hy
  rw [not_iff_not]
  exact ⟨fun heq => (Prod.mk.inj heq).1, hsame (y, l') hy⟩

end PgSt

/-! ### The calls -/

/-- The allocators. When the call `n` of the slab allocator is made, `written n` are the bytes in
the memory of the descriptors in use. The histories are the descriptors in use and the pages of
the slab allocator, and `pg` has that of the page manager. -/
structure Allocators where
  slabmgr : SlabMgr
  taskAlloc : ℕ
  pg : PgSt
  rand : RandState
  written : ℕ → ℕ → UInt8
  calls : ℕ
  tds : Finset TdPtr
  pages : List ℕ

namespace Allocators

variable {a a' : Allocators} {p : TdPtr} {x i n : ℕ} {l : List ℕ}

/-- The slabs as the next call finds them. -/
def found (a : Allocators) : SlabMgr :=
  a.slabmgr.overwrite a.tds sizeofKTaskDsp (a.written a.calls)

/-- `slab_alloc(mgr->task_alloc, 0)`, which calls `slab_kernel_func_alloc_page` for a page. -/
def slabAlloc (a : Allocators) : Option (Allocators × Option TdPtr) := do
  let request := a.pg.allocPage (a.found.slabAlloc a.taskAlloc).pgSft
  let page := request.bind Prod.snd
  let (rand, draw) := mathRandU32 a.rand
  let r ← TrainsOs.slabAlloc a.found a.taskAlloc page draw.toNat
  let tds := r.addr.elim a.tds fun p => insert p a.tds
  if r.requested then do
    let (pg, page) ← request
    let rand := if page = none then a.rand else rand
    some ({ a with
        slabmgr := r.mgr
        pg := pg
        rand := rand
        calls := a.calls + 1
        tds := tds
        pages := page.toList ++ a.pages }, r.addr)
  else
    some ({ a with slabmgr := r.mgr, calls := a.calls + 1, tds := tds }, r.addr)

/-- `slab_free(mgr->task_alloc, td)`. -/
def slabFree (a : Allocators) (p : TdPtr) : Option Allocators := do
  let mgr ← TrainsOs.slabFree a.found a.taskAlloc p
  some { a with slabmgr := mgr, calls := a.calls + 1, tds := a.tds.erase p }

/-- `pg_alloc_page`. -/
def pgAllocPage (a : Allocators) (n : ℕ) : Option (Allocators × Option ℕ) := do
  let (pg, res) ← a.pg.allocPage n
  some ({ a with pg := pg }, res)

/-- `pg_free_page`. -/
def pgFreePage (a : Allocators) (x : ℕ) : Option Allocators := do
  let pg ← pgStep a.pg (.free x)
  some { a with pg := pg }

/-- The blocks that are handed out for anything but a slab. -/
def blocks (a : Allocators) : Set ℕ :=
  { x | x ∉ a.pages ∧ ∃ l, (x, l) ∈ a.pg.handed }

theorem mem_blocks :
  x ∈ a.blocks ↔ x ∉ a.pages ∧ ∃ l, (x, l) ∈ a.pg.handed
  := Iff.rfl

theorem blocks_congr (hpages : a'.pages = a.pages) (hpg : a'.pg = a.pg) :
  a'.blocks = a.blocks
  := by rw [blocks, blocks, hpages, hpg]

/-! ### The invariant -/

/-- The address of the descriptor `i` of the slab `p`. -/
def tdAddr (p i : ℕ) : TdPtr :=
  p + offsetofFreeList + tdsMax + i * sizeofKTaskDsp

/-- What `slab_create` leaves in `task_alloc`. -/
def newTaskAlloc : SlabAlloc where
  objSz := sizeofKTaskDsp
  pgSft := pgSft
  objN := slabObjNMax
  paddingBase := 0
  paddingAlign := alignofKTaskDsp
  slabs := none
  emptySlabs := none

/-- No slab has been set up. -/
structure Fresh (a : Allocators) : Prop where
  taskAlloc : a.slabmgr.slabAlloc a.taskAlloc = newTaskAlloc
  rand : a.rand = RandState.start
  tds : a.tds = ∅
  pages : a.pages = []

/-- All descriptors in use are in the slab `p`. Of the first `tdsMax + 1` of them those in `l`
are free. -/
structure HasSlab (a : Allocators) (p : ℕ) (l : List ℕ) : Prop where
  slab : a.slabmgr.Overlaid a.taskAlloc p tdsMax sizeofKTaskDsp l
  pages : a.pages = [p]
  handed : ∃ lvl, (p, lvl) ∈ a.pg.handed
  mem_tds : ∀ x, x ∈ a.tds ↔ ∃ i ≤ tdsMax, i ∉ l ∧ x = tdAddr p i

/-- The invariant: the descriptor `tdsMax`, if no other one, is free. -/
structure Intact (a : Allocators) : Prop where
  pg : a.pg.Inv
  slab : a.Fresh ∨ ∃ p l, l ≠ [] ∧ a.HasSlab p l

theorem tdAddr_inj {i j : ℕ} (h : tdAddr p i = tdAddr p j) :
  i = j
  := by
  have hmul := Nat.add_left_cancel h
  exact Nat.eq_of_mul_eq_mul_right (by decide) hmul

theorem sized_newTaskAlloc :
  newTaskAlloc.Sized
  := by
  constructor
  all_goals decide

theorem HasSlab.found (h : a.HasSlab p l) :
  a.found.Overlaid a.taskAlloc p tdsMax sizeofKTaskDsp l
  := by
  apply h.slab.overwrite
  intro x hx
  obtain ⟨i, -, -, rfl⟩ := (h.mem_tds x).mp hx
  exact Nat.le_add_right _ _

/-- With `tdsMax` or more descriptors in use, none below `tdsMax` is free. -/
theorem HasSlab.tdsMax_le (h : a.HasSlab p [i]) :
  tdsMax ≤ a.tds.card
  := by
  have hi : i = tdsMax := h.slab.slab.last i rfl
  have hsub : (Finset.range tdsMax).image (tdAddr p) ⊆ a.tds := by
    intro x hx
    obtain ⟨j, hj, rfl⟩ := Finset.mem_image.mp hx
    have hlt := Finset.mem_range.mp hj
    apply (h.mem_tds _).mpr
    refine ⟨j, hlt.le, ?_, rfl⟩
    rw [List.mem_singleton, hi]
    exact hlt.ne
  have hcard := Finset.card_le_card hsub
  rwa [Finset.card_image_of_injective _ fun j k => tdAddr_inj, Finset.card_range] at hcard

/-- `slab_alloc` without a page. -/
theorem Fresh.slabAlloc_none (h : a.Fresh) (hrequest : a.pg.allocPage pgSft = some (a.pg, none)) :
  ∃ a', a.slabAlloc = some (a', none) ∧ a'.Fresh ∧ a'.pg = a.pg
  := by
  have htask : a.found.slabAlloc a.taskAlloc = newTaskAlloc := h.taskAlloc
  have hfind : ∀ draw, TrainsOs.slabAlloc a.found a.taskAlloc none draw
      = some ⟨a.found, none, true⟩ := by
    intro draw
    simp only [TrainsOs.slabAlloc, SlabMgr.findSlab, htask]
    rfl
  refine ⟨{ a with slabmgr := a.found, calls := a.calls + 1 }, ?_, ?_, rfl⟩
  · rw [slabAlloc, htask]
    have hsft : newTaskAlloc.pgSft = pgSft := rfl
    simp only [hsft, hrequest, Option.bind_some, hfind]
    rfl
  · exact ⟨htask, h.rand, h.tds, h.pages⟩

/-- `slab_alloc` with the first page. -/
theorem Fresh.slabAlloc_some (h : a.Fresh) {pg : PgSt}
    (hrequest : a.pg.allocPage pgSft = some (pg, some p)) (hp : pgSz ∣ p)
    (hhanded : ∃ lvl, (p, lvl) ∈ pg.handed) :
  ∃ a', a.slabAlloc = some (a', some (tdAddr p 0)) ∧ a'.HasSlab p (List.range' 1 tdsMax)
    ∧ a'.pg = pg ∧ a'.tds = {tdAddr p 0}
  := by
  have htask : a.found.slabAlloc a.taskAlloc = newTaskAlloc := h.taskAlloc
  have hdraw : (mathRandU32 a.rand).2.toNat = 3338197162 := by
    rw [h.rand, mathRandU32_start]
    rfl
  have hdata : newTaskAlloc.objN + (newTaskAlloc.paddingBase
      + 3338197162 % (slabEndPaddingMin / newTaskAlloc.paddingAlign) * newTaskAlloc.paddingAlign)
        = offsetofFreeList + tdsMax := by decide
  have hroom : tdsMax + 1 < newTaskAlloc.objN := by decide
  rw [← htask] at hdata hroom
  have hsized := sized_newTaskAlloc
  rw [← htask] at hsized
  have hsz := congrArg SlabAlloc.objSz htask
  obtain ⟨mgr', halloc, hslab⟩ := SlabMgr.slabAlloc_first hsized hsz hroom
    (fun b => by
      rw [htask]
      cases b <;> rfl) hp hdata
  have htds : insert (tdAddr p 0) a.tds = {tdAddr p 0} := by
    rw [h.tds]
    rfl
  refine ⟨{ a with
      slabmgr := mgr'
      pg := pg
      rand := (mathRandU32 a.rand).1
      calls := a.calls + 1
      tds := insert (tdAddr p 0) a.tds
      pages := p :: a.pages }, ?_, ?_, rfl, htds⟩
  · have hsft : newTaskAlloc.pgSft = pgSft := rfl
    have haddr : p + offsetofFreeList + tdsMax = tdAddr p 0 := by
      rw [tdAddr, Nat.zero_mul, Nat.add_zero]
    rw [haddr] at halloc
    rw [slabAlloc, htask, hsft, hrequest]
    simp only [Option.bind_some, hdraw, halloc]
    rfl
  · constructor
    · exact hslab
    · exact congrArg (List.cons p) h.pages
    · exact hhanded
    · intro x
      dsimp only
      rw [htds, Finset.mem_singleton]
      constructor
      · rintro rfl
        exact ⟨0, Nat.zero_le _, by simp, rfl⟩
      · rintro ⟨i, hi, hnot, rfl⟩
        rw [List.mem_range'_1] at hnot
        obtain rfl : i = 0 := by omega
        rfl

/-- The call leaves the descriptors in use as it finds them. -/
def Untouched (a a' : Allocators) : Prop :=
  ∀ x ∈ a.tds, ∀ q j, x ≤ q + offsetofFreeList + j →
    q + offsetofFreeList + j < x + sizeofKTaskDsp →
      (a'.slabmgr.slab q).freeList j = (a.found.slab q).freeList j

/-- `slab_alloc` of a slab that is set up. -/
theorem HasSlab.slabAlloc (h : a.HasSlab p (i :: l)) :
  ∃ a', a.slabAlloc = some (a', some (tdAddr p i)) ∧ a'.HasSlab p l ∧ a'.pg = a.pg
    ∧ a'.tds = insert (tdAddr p i) a.tds ∧ a.Untouched a'
  := by
  have hslab := h.slab.slab
  obtain ⟨mgr', halloc, hslab', hsame⟩ := h.found.take
    ((a.pg.allocPage (a.found.slabAlloc a.taskAlloc).pgSft).bind Prod.snd)
    (mathRandU32 a.rand).2.toNat
  refine ⟨{ a with
      slabmgr := mgr'
      calls := a.calls + 1
      tds := insert (tdAddr p i) a.tds }, ?_, ?_, rfl, rfl,
    fun x hx q j hle hlt => congrFun (hsame q) j⟩
  · rw [Allocators.slabAlloc]
    dsimp only
    rw [halloc]
    rfl
  · constructor
    · exact hslab'
    · exact h.pages
    · exact h.handed
    · intro x
      dsimp only
      rw [Finset.mem_insert, h.mem_tds]
      constructor
      · rintro (rfl | ⟨j, hj, hnot, rfl⟩)
        · exact ⟨i, hslab.le_of_mem List.mem_cons_self, (List.nodup_cons.mp hslab.nodup).1, rfl⟩
        · exact ⟨j, hj, List.not_mem_of_not_mem_cons hnot, rfl⟩
      · rintro ⟨j, hj, hnot, rfl⟩
        by_cases hji : j = i
        · left
          rw [hji]
        · right
          exact ⟨j, hj, List.not_mem_cons_of_ne_of_not_mem hji hnot, rfl⟩

/-- `slab_free` of a descriptor in use. It may be `tdsMax` when it has been the last free one. -/
theorem HasSlab.slabFree (h : a.HasSlab p l) (hi : i ≤ tdsMax) (hnot : i ∉ l)
    (hlast : l = [] → i = tdsMax) :
  ∃ a', a.slabFree (tdAddr p i) = some a' ∧ a'.HasSlab p (i :: l) ∧ a'.pg = a.pg
    ∧ a'.tds = a.tds.erase (tdAddr p i) ∧ (l ≠ [] → a.Untouched a')
  := by
  obtain ⟨mgr', hfree, hslab', hsame⟩ := h.found.give hi hnot hlast
  have hfree : TrainsOs.slabFree a.found a.taskAlloc (tdAddr p i) = some mgr' := hfree
  refine ⟨{ a with
      slabmgr := mgr'
      calls := a.calls + 1
      tds := a.tds.erase (tdAddr p i) }, ?_, ?_, rfl, rfl, ?_⟩
  · rw [Allocators.slabFree, hfree]
    rfl
  · constructor
    · exact hslab'
    · exact h.pages
    · exact h.handed
    · intro x
      dsimp only
      rw [Finset.mem_erase, h.mem_tds]
      constructor
      · rintro ⟨hne, j, hj, hnot, rfl⟩
        refine ⟨j, hj, List.not_mem_cons_of_ne_of_not_mem ?_ hnot, rfl⟩
        rintro rfl
        exact hne rfl
      · rintro ⟨j, hj, hnot, rfl⟩
        refine ⟨?_, j, hj, List.not_mem_of_not_mem_cons hnot, rfl⟩
        intro heq
        exact hnot (tdAddr_inj heq ▸ List.mem_cons_self)
  · -- the entry of a descriptor below `tdsMax` lies in front of all descriptors
    intro hne x hx q j hle _
    apply hsame q j
    rintro rfl rfl
    obtain ⟨k, -, -, rfl⟩ := (h.mem_tds x).mp hx
    have hlt := h.slab.slab.lt_of_not_mem hi hnot hne
    have hle' := (Nat.le_add_right (q + offsetofFreeList + tdsMax) _).trans hle
    exact absurd (Nat.le_of_add_le_add_left hle') (Nat.not_le_of_lt hlt)

/-! ### The laws -/

/-- What `slab_alloc` does: it fails when it does not get the first page, and otherwise gives a
descriptor that is not in use, which `slab_free` can take back. -/
theorem Intact.slabAlloc (h : a.Intact) :
  (∃ a', a.slabAlloc = some (a', none) ∧ a'.Intact ∧ a'.tds = a.tds ∧ a'.blocks = a.blocks)
    ∨ ∃ a' p i l, a.slabAlloc = some (a', some (tdAddr p i)) ∧ a'.pg.Inv ∧ a'.HasSlab p l
      ∧ i ≤ tdsMax ∧ i ∉ l ∧ (l = [] → i = tdsMax) ∧ (a.tds.card < tdsMax → l ≠ [])
      ∧ tdAddr p i ∉ a.tds ∧ a'.tds = insert (tdAddr p i) a.tds ∧ a'.blocks = a.blocks
  := by
  obtain hfresh | ⟨p, l, hne, hslab⟩ := h.slab
  · obtain hnone | ⟨pg, p, hsome, hinv, hhanded, hnew, hdvd⟩ := PgSt.allocPage_spec h.pg pgSft
    · left
      obtain ⟨a', halloc, hfresh', hpg⟩ := hfresh.slabAlloc_none hnone
      refine ⟨a', halloc, ⟨?_, Or.inl hfresh'⟩, ?_, ?_⟩
      · rw [hpg]
        exact h.pg
      · rw [hfresh'.tds, hfresh.tds]
      · exact blocks_congr (hfresh'.pages.trans hfresh.pages.symm) hpg
    · right
      have hmem : (p, pageLvl pgSft) ∈ pg.handed := by
        rw [hhanded]
        exact List.mem_cons_self
      obtain ⟨a', halloc, hslab', rfl, htds⟩ := hfresh.slabAlloc_some hsome hdvd ⟨_, hmem⟩
      refine ⟨a', p, 0, _, halloc, hinv, hslab', Nat.zero_le _, by simp, ?_, ?_, ?_, ?_, ?_⟩
      · intro hnil
        rw [List.range'_eq_nil_iff] at hnil
        cases hnil
      · intro _ hnil
        rw [List.range'_eq_nil_iff] at hnil
        cases hnil
      · rw [hfresh.tds]
        exact Finset.notMem_empty _
      · rw [htds, hfresh.tds]
        rfl
      · ext x
        rw [mem_blocks, mem_blocks, hslab'.pages, hfresh.pages, hhanded, List.mem_singleton]
        constructor
        · rintro ⟨hxp, l, hx⟩
          refine ⟨List.not_mem_nil, l, List.mem_of_ne_of_mem ?_ hx⟩
          exact fun heq => hxp (Prod.mk.inj heq).1
        · rintro ⟨-, l, hx⟩
          refine ⟨?_, l, List.mem_cons_of_mem _ hx⟩
          rintro rfl
          exact hnew l hx
  · right
    obtain ⟨i, l, rfl⟩ := List.exists_cons_of_ne_nil hne
    obtain ⟨a', halloc, hslab', hpg, htds, -⟩ := hslab.slabAlloc
    have hnot := (List.nodup_cons.mp hslab.slab.slab.nodup).1
    refine ⟨a', p, i, l, halloc, ?_, hslab', hslab.slab.slab.le_of_mem List.mem_cons_self, hnot,
      ?_, ?_, ?_, htds, ?_⟩
    · rw [hpg]
      exact h.pg
    · rintro rfl
      exact hslab.slab.slab.last i rfl
    · rintro hlt rfl
      exact absurd hslab.tdsMax_le (Nat.not_le_of_lt hlt)
    · rw [hslab.mem_tds]
      rintro ⟨j, -, hnot', heq⟩
      rw [tdAddr_inj heq] at hnot'
      exact hnot' List.mem_cons_self
    · exact blocks_congr (hslab'.pages.trans hslab.pages.symm) hpg

/-- No call of the slab allocator writes into a descriptor in use. -/
theorem Intact.slabAlloc_untouched (h : a.Intact) {res : Option TdPtr}
    (halloc : a.slabAlloc = some (a', res)) :
  a.Untouched a'
  := by
  obtain hfresh | ⟨p, l, hne, hslab⟩ := h.slab
  · intro x hx
    rw [hfresh.tds] at hx
    exact absurd hx (Finset.notMem_empty x)
  · obtain ⟨i, l, rfl⟩ := List.exists_cons_of_ne_nil hne
    obtain ⟨b, halloc', -, -, -, huntouched⟩ := hslab.slabAlloc
    rw [halloc, Option.some.injEq, Prod.mk.injEq] at halloc'
    rw [halloc'.1]
    exact huntouched

theorem Intact.slabFree_untouched (h : a.Intact) (hx : x ∈ a.tds)
    (hfree : a.slabFree x = some a') :
  a.Untouched a'
  := by
  obtain hfresh | ⟨p, l, hne, hslab⟩ := h.slab
  · rw [hfresh.tds] at hx
    exact absurd hx (Finset.notMem_empty x)
  · obtain ⟨i, hi, hnot, rfl⟩ := (hslab.mem_tds x).mp hx
    obtain ⟨b, hfree', -, -, -, huntouched⟩ := hslab.slabFree hi hnot (absurd · hne)
    rw [Option.some.inj (hfree.symm.trans hfree')]
    exact huntouched hne

/-- `pg_alloc_page` leaves everything as it is when it fails. -/
theorem pgAllocPage_eq_none (h : a.pg.Inv) (hnone : (a.pgAllocPage n).bind Prod.snd = none) :
  a.pgAllocPage n = some (a, none)
  := by
  obtain hpage | ⟨pg, x, hpage, -⟩ := PgSt.allocPage_spec h n
  · rw [Allocators.pgAllocPage, hpage]
    rfl
  · rw [Allocators.pgAllocPage, hpage] at hnone
    cases hnone

/-- `pg_alloc_page` for anything but a slab. -/
theorem Intact.pgAllocPage (h : a.Intact) (n : ℕ) :
  a.pgAllocPage n = some (a, none)
    ∨ ∃ a' x, a.pgAllocPage n = some (a', some x) ∧ a'.Intact ∧ x ∉ a.blocks ∧ a'.tds = a.tds
      ∧ a'.blocks = insert x a.blocks
  := by
  obtain hnone | ⟨pg, x, hsome, hinv, hhanded, hnew, -⟩ := PgSt.allocPage_spec h.pg n
  · left
    rw [Allocators.pgAllocPage, hnone]
    rfl
  · right
    refine ⟨{ a with pg := pg }, x, ?_, ⟨hinv, ?_⟩, ?_, rfl, ?_⟩
    · rw [Allocators.pgAllocPage, hsome]
      rfl
    · obtain hfresh | ⟨p, l, hne, hslab⟩ := h.slab
      · left
        exact ⟨hfresh.taskAlloc, hfresh.rand, hfresh.tds, hfresh.pages⟩
      · right
        obtain ⟨lvl, hp⟩ := hslab.handed
        refine ⟨p, l, hne, hslab.slab, hslab.pages, ⟨lvl, ?_⟩, hslab.mem_tds⟩
        dsimp only
        rw [hhanded]
        exact List.mem_cons_of_mem _ hp
    · rintro ⟨-, l, hx⟩
      exact hnew l hx
    · have hpages : x ∉ a.pages := by
        obtain hfresh | ⟨p, l, -, hslab⟩ := h.slab
        · rw [hfresh.pages]
          exact List.not_mem_nil
        · rw [hslab.pages, List.mem_singleton]
          rintro rfl
          obtain ⟨lvl, hp⟩ := hslab.handed
          exact hnew lvl hp
      ext y
      rw [Set.mem_insert_iff, mem_blocks, mem_blocks]
      dsimp only
      rw [hhanded]
      constructor
      · rintro ⟨hy, l, hl⟩
        obtain heq | hl := List.mem_cons.mp hl
        · exact Or.inl (Prod.mk.inj heq).1
        · exact Or.inr ⟨hy, l, hl⟩
      · rintro (rfl | ⟨hy, l, hl⟩)
        · exact ⟨hpages, _, List.mem_cons_self⟩
        · exact ⟨hy, l, List.mem_cons_of_mem _ hl⟩

/-- `pg_free_page` of such a block. -/
theorem Intact.pgFreePage (h : a.Intact) (hx : x ∈ a.blocks) (hsafe : a.pg.mgr.FreeSafe x) :
  ∃ a', a.pgFreePage x = some a' ∧ a'.Intact ∧ a'.tds = a.tds ∧ a'.blocks = a.blocks \ {x}
  := by
  obtain ⟨hpages, l, hl⟩ := hx
  obtain ⟨pg, hfree, hinv, hhanded⟩ := PgSt.freePage_spec h.pg hl hsafe
  refine ⟨{ a with pg := pg }, ?_, ⟨hinv, ?_⟩, rfl, ?_⟩
  · rw [Allocators.pgFreePage, hfree]
    rfl
  · obtain hfresh | ⟨p, l, hne, hslab⟩ := h.slab
    · left
      exact ⟨hfresh.taskAlloc, hfresh.rand, hfresh.tds, hfresh.pages⟩
    · right
      obtain ⟨lvl, hp⟩ := hslab.handed
      refine ⟨p, l, hne, hslab.slab, hslab.pages, ⟨lvl, ?_⟩, hslab.mem_tds⟩
      apply (hhanded p lvl).mpr
      refine ⟨?_, hp⟩
      rintro rfl
      rw [hslab.pages] at hpages
      exact hpages List.mem_cons_self
  · ext y
    rw [Set.mem_sdiff, Set.mem_singleton_iff, mem_blocks, mem_blocks]
    dsimp only
    constructor
    · rintro ⟨hy, l, hl⟩
      obtain ⟨hne, hl⟩ := (hhanded y l).mp hl
      exact ⟨⟨hy, l, hl⟩, hne⟩
    · rintro ⟨⟨hy, l, hl⟩, hne⟩
      exact ⟨hy, l, (hhanded y l).mpr ⟨hne, hl⟩⟩

/-- The descriptors of a slab that is set up are those that `slab_free` is called with. -/
theorem Intact.slabFree (h : a.Intact) (hx : x ∈ a.tds) :
  ∃ a', a.slabFree x = some a' ∧ a'.Intact ∧ a'.tds = a.tds.erase x ∧ a'.blocks = a.blocks
  := by
  obtain hfresh | ⟨p, l, hne, hslab⟩ := h.slab
  · rw [hfresh.tds] at hx
    exact absurd hx (Finset.notMem_empty x)
  · obtain ⟨i, hi, hnot, rfl⟩ := (hslab.mem_tds x).mp hx
    obtain ⟨a', hfree, hslab', hpg, htds, -⟩ := hslab.slabFree hi hnot (absurd · hne)
    refine ⟨a', hfree, ⟨?_, Or.inr ⟨p, _, List.cons_ne_nil _ _, hslab'⟩⟩, htds, ?_⟩
    · rw [hpg]
      exact h.pg
    · exact blocks_congr (hslab'.pages.trans hslab.pages.symm) hpg

/-! ### The memory of a stack -/

/-- What lies in a stack lies in no other one, and in no descriptor. -/
theorem Intact.apart (h : a.Intact) (hx : x ∈ a.blocks) {z : ℕ} (hle : x ≤ z) (hlt : z < x + pgSz) :
  (∀ y ∈ a.blocks, y ≤ z → z < y + pgSz → y = x)
    ∧ ∀ p ∈ a.tds, p ≤ z → ¬ z < p + sizeofKTaskDsp
  := by
  obtain ⟨hpages, l, hl⟩ := hx
  constructor
  · rintro y ⟨-, l', hl'⟩ hle' hlt'
    have heq := h.pg.eq_of_inBlock hl' hl (PgSt.inBlock_of_lt hle' hlt')
      (PgSt.inBlock_of_lt hle hlt)
    exact (Prod.mk.inj heq).1
  · intro p hp hle' hlt'
    obtain hfresh | ⟨q, free, -, hslab⟩ := h.slab
    · rw [hfresh.tds] at hp
      cases hp
    · obtain ⟨i, hi, -, rfl⟩ := (hslab.mem_tds p).mp hp
      obtain ⟨lvl, hq⟩ := hslab.handed
      rw [hslab.pages, List.mem_singleton] at hpages
      have hmul := Nat.mul_le_mul_right sizeofKTaskDsp hi
      have hend : offsetofFreeList + tdsMax + tdsMax * sizeofKTaskDsp + sizeofKTaskDsp ≤ pgSz := by
        decide
      have hqz : q ≤ z := by
        rw [tdAddr, Nat.add_assoc, Nat.add_assoc] at hle'
        exact (Nat.le_add_right q _).trans hle'
      have hzq : z < q + pgSz := by
        rw [tdAddr] at hlt'
        omega
      have heq := h.pg.eq_of_inBlock hl hq (PgSt.inBlock_of_lt hle hlt)
        (PgSt.inBlock_of_lt hqz hzq)
      exact hpages (Prod.mk.inj heq).1

/-- The frame of a proper creation is the private memory of the new task. -/
theorem Intact.frame_private {k : Kernel (Option Allocators)} (h : a.Intact) {td : TdPtr}
    (hstack : (k.td td).stackAddr ∈ a.blocks) (hsz : (k.td td).stackSz = pgSz)
    (hend : (k.td td).stackAddr + pgSz ≤ 2 ^ 64) {argsLen : ℕ}
    (hlen : argsLen ≤ pgSz - Kernel.sizeofRegStore) {parentTd : Option TdPtr}
    {priority userFuncAddr args z : ℕ} {src : ℕ → UInt8}
    (hz : Writes (k.frameBytes td parentTd priority userFuncAddr src args argsLen) z) :
  (∀ y ∈ a.blocks, y ≤ z → z < y + pgSz → y = (k.td td).stackAddr)
    ∧ ∀ p ∈ a.tds, p ≤ z → ¬ z < p + sizeofKTaskDsp
  := by
  obtain ⟨-, l, hl⟩ := id hstack
  have hlt : argsLen < 2 ^ 64 := hlen.trans_lt (by decide)
  have hframe : k.InitialFrame td parentTd priority userFuncAddr src args argsLen :=
    (Kernel.initialFrame_iff (h.pg.dvd hl) hend hsz hlt).mpr hlen
  obtain ⟨hle, hin⟩ := hframe.inside z hz
  rw [hsz] at hin
  exact h.apart hstack hle hin

end Allocators

open Allocators

/-- The allocators, `none` when a call is not defined or an assertion of one fails. -/
instance : TaskAlloc (Option Allocators) where
  slabAlloc a := ((a.bind Allocators.slabAlloc).map Prod.fst,
    (a.bind Allocators.slabAlloc).bind Prod.snd)
  slabFree a p := a.bind fun a => a.slabFree p
  pgAllocPage a n := ((a.bind fun a => a.pgAllocPage n).map Prod.fst,
    (a.bind fun a => a.pgAllocPage n).bind Prod.snd)
  pgFreePage a x := a.bind fun a => a.pgFreePage x
  tds a := a.elim ∅ Allocators.tds
  blocks a := a.elim ∅ Allocators.blocks
  Intact a := ∃ b, a = some b ∧ b.Intact
  FreeSafe a x := ∀ b ∈ a, b.pg.mgr.FreeSafe x
  slabAlloc_none := by
    rintro _ ⟨a, rfl, h⟩ hnone
    obtain ⟨a', halloc, h', htds, hblocks⟩ | ⟨a', p, i, l, halloc, -⟩ := h.slabAlloc
    · rw [Option.bind_some, halloc]
      exact ⟨htds, hblocks, a', rfl, h'⟩
    · rw [Option.bind_some, halloc] at hnone
      cases hnone
  slabAlloc_fresh := by
    rintro _ p ⟨a, rfl, h⟩ hsome
    obtain ⟨a', halloc, -⟩ | ⟨a', q, i, l, halloc, -, -, -, -, -, -, hfresh, -⟩ := h.slabAlloc
    · rw [Option.bind_some, halloc] at hsome
      cases hsome
    · rw [Option.bind_some, halloc] at hsome
      obtain rfl := Option.some.inj hsome
      exact hfresh
  slabAlloc_some := by
    rintro _ p ⟨a, rfl, h⟩ hcard hsome
    obtain ⟨a', halloc, -⟩ | ⟨a', q, i, l, halloc, hpg, hslab, -, -, -, hne, -, htds, hblocks⟩ :=
      h.slabAlloc
    · rw [Option.bind_some, halloc] at hsome
      cases hsome
    · rw [Option.bind_some, halloc] at hsome ⊢
      obtain rfl := Option.some.inj hsome
      exact ⟨htds, hblocks, a', rfl, hpg, Or.inr ⟨q, l, hne hcard, hslab⟩⟩
  slabFree_spec := by
    rintro _ p ⟨a, rfl, h⟩ hp
    obtain ⟨a', hfree, h', htds, hblocks⟩ := h.slabFree hp
    rw [Option.bind_some, hfree]
    exact ⟨htds, hblocks, a', rfl, h'⟩
  slabFree_slabAlloc := by
    rintro _ p n ⟨a, rfl, h⟩ hsome hnone
    obtain ⟨a', halloc, -⟩ |
      ⟨a', q, i, l, halloc, hpg, hslab, hi, hnot, hlast, -, hfresh, htds, hblocks⟩ := h.slabAlloc
    · rw [Option.bind_some, halloc] at hsome
      cases hsome
    · rw [Option.bind_some, halloc] at hsome hnone ⊢
      obtain rfl := Option.some.inj hsome
      dsimp only [Option.map_some, Option.bind_some] at hnone ⊢
      obtain ⟨b, hfree, hslab', hpg', htds', -⟩ := hslab.slabFree hi hnot hlast
      rw [pgAllocPage_eq_none hpg hnone, Option.map_some, Option.bind_some, hfree]
      refine ⟨?_, ?_, b, rfl, ?_, Or.inr ⟨q, i :: l, List.cons_ne_nil i l, hslab'⟩⟩
      · exact htds'.trans (htds ▸ Finset.erase_insert hfresh)
      · exact (blocks_congr (hslab'.pages.trans hslab.pages.symm) hpg').trans hblocks
      · rw [hpg']
        exact hpg
  pgAllocPage_none := by
    rintro _ n ⟨a, rfl, h⟩ hnone
    obtain halloc | ⟨a', x, halloc, -⟩ := h.pgAllocPage n
    · rw [Option.bind_some, halloc]
      exact ⟨rfl, rfl, a, rfl, h⟩
    · rw [Option.bind_some, halloc] at hnone
      cases hnone
  pgAllocPage_some := by
    rintro _ n x ⟨a, rfl, h⟩ hsome
    obtain halloc | ⟨a', y, halloc, h', hx, htds, hblocks⟩ := h.pgAllocPage n
    · rw [Option.bind_some, halloc] at hsome
      cases hsome
    · rw [Option.bind_some, halloc] at hsome ⊢
      obtain rfl := Option.some.inj hsome
      exact ⟨hx, htds, hblocks, a', rfl, h'⟩
  pgFreePage_spec := by
    rintro _ x ⟨a, rfl, h⟩ hx hsafe
    obtain ⟨a', hfree, h', htds, hblocks⟩ := h.pgFreePage hx (hsafe a rfl)
    rw [Option.bind_some, hfree]
    exact ⟨htds, hblocks, a', rfl, h'⟩

/-! ### The start -/

namespace Allocators

variable {addr₀ : DspPtr → ℕ} {segs : List PgInitSeg} {pgmgr : PgMgr} {mem : SlabMgr}
  {written : ℕ → ℕ → UInt8} {a : Allocators}

/-- `k_bootstrap_slab`, and `slab_create` in `k_tmgr_init`. The manager of the slabs gets a page, in
which `mem` is found. -/
def setUp (pgmgr : PgMgr) (mem : SlabMgr) (written : ℕ → ℕ → UInt8) : Option Allocators := do
  let (pg, page) ← PgSt.allocPage ⟨pgmgr, []⟩ 12
  let _ ← page
  let (slabmgr, idx) :=
    { mem with slabAllocN := 0 }.slabCreate sizeofKTaskDsp alignofKTaskDsp
  let taskAlloc ← idx
  some
    { slabmgr := slabmgr
      taskAlloc := taskAlloc
      pg := pg
      rand := RandState.start
      written := written
      calls := 0
      tds := ∅
      pages := [] }

/-- What `slab_create` makes of the size and the alignment of a descriptor. -/
theorem slabCreate_taskDsp {mgr mgr' : SlabMgr} {idx : ℕ}
    (h : mgr.slabCreate sizeofKTaskDsp alignofKTaskDsp = (mgr', some idx)) :
  mgr'.slabAlloc idx = newTaskAlloc
  := by
  obtain ⟨-, -, heq⟩ := SlabMgr.slabCreate_spec h
  have hsft : msbPos alignofKTaskDsp = 3 := by decide
  have hcap : SlabMgr.capacity sizeofKTaskDsp 3 = slabObjNMax := by
    rw [SlabMgr.capacity_of_dvd (by decide) (by decide)]
    decide
  have hbase : SlabMgr.basePadding 3 slabObjNMax = 0 := by decide
  rw [heq, hsft, hcap, hbase]
  rfl

/-- The allocators are as they should be when the kernel creates its first task. -/
theorem setUp_intact (hsegs : SegsWf segs) (hinit : pgInit addr₀ segs = some pgmgr)
    (h : setUp pgmgr mem written = some a) :
  a.Intact ∧ a.tds = ∅
  := by
  obtain ⟨-, -, fl, -, hinv, -⟩ := pgInit_spec hsegs hinit
  have hpg : PgSt.Inv ⟨pgmgr, []⟩ := ⟨fl, [], hinv, rfl⟩
  rw [setUp] at h
  generalize hcreate : SlabMgr.slabCreate _ _ _ = r at h
  obtain ⟨slabmgr, idx⟩ := r
  obtain ⟨⟨pg, page⟩, hpage, hslabmgr⟩ := Option.bind_eq_some_iff.mp h
  obtain ⟨x, -, hcreated⟩ := Option.bind_eq_some_iff.mp hslabmgr
  obtain ⟨taskAlloc, rfl, ha⟩ := Option.bind_eq_some_iff.mp hcreated
  obtain rfl := Option.some.inj ha
  refine ⟨⟨?_, Or.inl ⟨slabCreate_taskDsp hcreate, rfl, rfl, rfl⟩⟩, rfl⟩
  obtain hnone | ⟨pg', x', hsome, hpg', -⟩ := PgSt.allocPage_spec hpg 12
  · rw [hnone] at hpage
    cases hpage
    exact hpg
  · rw [hsome] at hpage
    cases hpage
    exact hpg'

/-- The kernel with these allocators, when `k_main` enters the loop. -/
theorem booted (hsegs : SegsWf segs) (hinit : pgInit addr₀ segs = some pgmgr)
    {k k₀ : Kernel (Option Allocators)} (halloc : k.alloc = setUp pgmgr mem written)
    (hsetUp : k.alloc ≠ none) {src : ℕ → UInt8} {entryArgs serverArgs : ℕ}
    (hmain : k.kMain src entryArgs serverArgs = some k₀) :
  Kernel.Booted k₀
  := by
  obtain ⟨a, ha⟩ := Option.ne_none_iff_exists'.mp hsetUp
  obtain ⟨hintact, htds⟩ := setUp_intact hsegs hinit (halloc.symm.trans ha)
  refine ⟨k, src, entryArgs, serverArgs, ?_, ?_, hmain⟩
  · exact ⟨a, ha, hintact⟩
  · rw [ha]
    exact htds

/-- The memory of `tailSegs`, from which the allocators and three stacks take one page each. -/
def tailAllocators : Option Allocators := do
  let pgmgr ← pgInit (fun _ => 0) tailSegs
  setUp pgmgr SlabMgr.emptySlabMgr fun _ _ => 0x5A

def tailKernel : Kernel (Option Allocators) :=
  { Arena.blankKernel with alloc := tailAllocators }

theorem booted_tailSegs :
  ∃ k₀, tailKernel.kMain (fun _ => 0) 0 0 = some k₀ ∧ Kernel.Booted k₀
  := by
  have hmain : (tailKernel.kMain (fun _ => 0) 0 0).isSome := by decide +kernel
  have hsetUp : tailAllocators.isSome := by decide +kernel
  obtain ⟨k₀, hk₀⟩ := Option.isSome_iff_exists.mp hmain
  obtain ⟨a, ha⟩ := Option.isSome_iff_exists.mp hsetUp
  have hset := ha
  rw [tailAllocators] at hset
  obtain ⟨pgmgr, hinit, hset⟩ := Option.bind_eq_some_iff.mp hset
  have halloc : tailKernel.alloc = some a := ha
  use k₀, hk₀
  exact booted tailSegs_wf hinit (halloc.trans hset.symm)
    (Option.ne_none_iff_exists'.mpr ⟨a, halloc⟩) hk₀

end Allocators

end TrainsOs
