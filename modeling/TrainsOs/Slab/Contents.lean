import TrainsOs.Slab.Ops
import TrainsOs.Lib.IndexChain
import Mathlib.Data.List.Perm.Subperm

/-!
# The objects of a slab allocator

`Header` says that the free list of a slab is a chain through its free objects, and
`Contents` that the objects in use of all slabs are the live ones. Taking an object off
the chain of a slab makes it live, and putting it back frees it.
-/

namespace TrainsOs

/-- The geometry of the slabs: the header and the objects fit into a page, and no divisor of
the random padding is zero. -/
structure SlabAlloc.Sized (a : SlabAlloc) : Prop where
  objN_pos : 0 < a.objN
  objN_le : a.objN ≤ slabObjNMax
  objSz_pos : 0 < a.objSz
  pgSft_eq : a.pgSft = TrainsOs.pgSft
  fits : a.objN + a.paddingBase + slabEndPaddingMin + a.objN * a.objSz ≤ pgSz
  padding_pos : 0 < a.paddingAlign
  padding_le : a.paddingAlign ≤ slabEndPaddingMin

/-- The value of `first_free`: the first entry of the chain, or `-1`. -/
def firstFreeOf : List ℕ → ℤ
  | [] => -1
  | i :: _ => i

/-- The page of an address. -/
theorem alignDown_of_mem_page {p x : ℕ} (hp : pgSz ∣ p) (hle : p ≤ x) (hlt : x < p + pgSz) :
  alignDown x pgSft = p
  := by
  obtain ⟨q, rfl⟩ := hp
  have hpg : 2 ^ pgSft = pgSz := rfl
  have hdiv : x / pgSz = q := by
    apply Nat.div_eq_of_lt_le
    · rw [Nat.mul_comm]
      exact hle
    · rw [Nat.add_mul, one_mul, Nat.mul_comm]
      exact hlt
  rw [alignDown_eq, hpg, hdiv, Nat.mul_comm]

/-- The objects lie in the page if the room for them does. -/
theorem Slab.objAddr_mem_page {hdr : Slab} {a : SlabAlloc} (ha : a.Sized) {p i : ℕ}
    (hle : p ≤ hdr.data) (hdata : hdr.data + a.objN * a.objSz ≤ p + pgSz) (hi : i < a.objN) :
  p ≤ hdr.objAddr a.objSz i ∧ hdr.objAddr a.objSz i < p + pgSz
  := by
  have hpos := ha.objSz_pos
  have hmul := Nat.mul_le_mul_right a.objSz (show i + 1 ≤ a.objN from hi)
  rw [Nat.add_mul, one_mul] at hmul
  rw [Slab.objAddr]
  constructor <;> omega

/-- The slab `p` of the allocator has the free objects `l`, in the order of its chain. -/
structure Slab.Header (hdr : Slab) (a : SlabAlloc) (alloc p : ℕ) (l : List ℕ) : Prop where
  aligned : pgSz ∣ p
  magic : hdr.magic = ['s', 'l', 'a', 'b']
  alloc_eq : hdr.alloc = alloc
  le_data : p ≤ hdr.data
  data_le : hdr.data + a.objN * a.objSz ≤ p + pgSz
  firstFree : hdr.firstFree = firstFreeOf l
  chain : IndexChain.IsChain hdr.freeList l
  nodup : l.Nodup
  lt : ∀ i ∈ l, i < a.objN
  count : l.length + hdr.usedCnt = a.objN

namespace Slab.Header

variable {hdr hdr' : Slab} {a a' : SlabAlloc} {alloc p p' : ℕ} {l l' : List ℕ}

theorem congr (h : hdr.Header a alloc p l) (hn : a'.objN = a.objN) (hsz : a'.objSz = a.objSz) :
  hdr.Header a' alloc p l
  := by
  constructor
  · exact h.aligned
  · exact h.magic
  · exact h.alloc_eq
  · exact h.le_data
  · rw [hn, hsz]
    exact h.data_le
  · exact h.firstFree
  · exact h.chain
  · exact h.nodup
  · rw [hn]
    exact h.lt
  · rw [hn]
    exact h.count

/-- An object lies in the page of its slab. -/
theorem mem_page (h : hdr.Header a alloc p l) (ha : a.Sized) {i : ℕ} (hi : i < a.objN) :
  p ≤ hdr.objAddr a.objSz i ∧ hdr.objAddr a.objSz i < p + pgSz
  := objAddr_mem_page ha h.le_data h.data_le hi

/-- The page of an object. -/
theorem alignDown_objAddr (h : hdr.Header a alloc p l) (ha : a.Sized) {i : ℕ}
    (hi : i < a.objN) :
  alignDown (hdr.objAddr a.objSz i) a.pgSft = p
  := by
  obtain ⟨hle, hlt⟩ := h.mem_page ha hi
  rw [ha.pgSft_eq]
  exact alignDown_of_mem_page h.aligned hle hlt

/-- The address of an object tells its slab and its index. -/
theorem objAddr_inj (h : hdr.Header a alloc p l) (h' : hdr'.Header a alloc p' l') (ha : a.Sized)
    (hsame : p = p' → hdr = hdr') {i j : ℕ} (hi : i < a.objN) (hj : j < a.objN)
    (heq : hdr.objAddr a.objSz i = hdr'.objAddr a.objSz j) :
  p = p' ∧ i = j
  := by
  have hp : p = p' := by
    rw [← h.alignDown_objAddr ha hi, ← h'.alignDown_objAddr ha hj, heq]
  use hp
  obtain rfl := hsame hp
  apply Nat.eq_of_mul_eq_mul_right ha.objSz_pos
  exact Nat.add_left_cancel heq

theorem length_le (h : hdr.Header a alloc p l) :
  l.length ≤ a.objN
  := by
  rw [← h.count]
  apply Nat.le_add_right

/-- A slab with a free object is not full. -/
theorem usedCnt_ne_iff (h : hdr.Header a alloc p l) :
  hdr.usedCnt ≠ a.objN ↔ l ≠ []
  := by
  rw [← h.count, ← List.length_pos_iff]
  omega

/-- The index that `slab_slab_free` computes. -/
theorem index_eq (hdr : Slab) (ha : a.Sized) {i : ℕ} (hi : i < a.objN) :
  (hdr.objAddr a.objSz i - hdr.data) / a.objSz % 2 ^ 8 = i
  := by
  have hle := ha.objN_le
  rw [slabObjNMax] at hle
  rw [Slab.objAddr, Nat.add_sub_cancel_left, Nat.mul_div_cancel _ ha.objSz_pos,
    Nat.mod_eq_of_lt (by omega)]

end Slab.Header

namespace SlabMgr

variable {mgr mgr' : SlabMgr} {alloc p i : ℕ} {l live pages : List ℕ} {free : ℕ → List ℕ}

/-- The address of the `i`-th object of the slab `p`. -/
def objAt (mgr : SlabMgr) (alloc p i : ℕ) : ℕ :=
  (mgr.slab p).objAddr (mgr.slabAlloc alloc).objSz i

/-- `slab_slab_alloc` takes the first free object off the chain. -/
theorem slabSlabAlloc_spec (ha : (mgr.slabAlloc alloc).Sized)
    (h : (mgr.slab p).Header (mgr.slabAlloc alloc) alloc p (i :: l)) :
  ∃ hdr, mgr.slabSlabAlloc p = (mgr.setHeader p hdr, some (mgr.objAt alloc p i))
    ∧ hdr.Header (mgr.slabAlloc alloc) alloc p l
    ∧ hdr.data = (mgr.slab p).data ∧ hdr.usedCnt = (mgr.slab p).usedCnt + 1
  := by
  have hi := h.lt i List.mem_cons_self
  have hcount := h.count
  rw [List.length_cons] at hcount
  have hn := ha.objN_le
  rw [slabObjNMax] at hn
  have hmul : (mgr.slabAlloc alloc).objSz * i < 2 ^ 32 := by
    have hmem := h.mem_page ha hi
    have hle := h.le_data
    rw [Slab.objAddr, Nat.mul_comm] at hmem
    have hpg : pgSz < 2 ^ 32 := by decide
    omega
  have hfirst : (mgr.slab p).firstFree = (i : ℤ) := h.firstFree
  have h8 : ((i : ℤ) % 2 ^ 8).toNat = i := by omega
  have h32 : ((i : ℤ) % 2 ^ 32).toNat = i := by omega
  have hlink : (if (mgr.slab p).freeList i = i then (-1 : ℤ) else (mgr.slab p).freeList i)
      = firstFreeOf l := by
    by_cases hl : l = []
    · rw [if_pos ((h.chain.self_link h.nodup).mpr hl), hl]
      rfl
    · rw [if_neg (mt (h.chain.self_link h.nodup).mp hl), h.chain.1]
      obtain ⟨j, l, rfl⟩ := List.exists_cons_of_ne_nil hl
      rfl
  have hused : ((mgr.slab p).usedCnt + 1) % 2 ^ 16 = (mgr.slab p).usedCnt + 1 :=
    Nat.mod_eq_of_lt (by omega)
  refine ⟨{ mgr.slab p with
      firstFree := firstFreeOf l
      usedCnt := (mgr.slab p).usedCnt + 1 }, ?_, ?_, rfl, rfl⟩
  · rw [slabSlabAlloc]
    dsimp only
    rw [h.alloc_eq, if_neg (by omega), hfirst, if_neg (by omega), h8, h32, hlink, hused,
      Nat.mod_eq_of_lt hmul, objAt, Slab.objAddr, Nat.mul_comm]
  · constructor
    · exact h.aligned
    · exact h.magic
    · exact h.alloc_eq
    · exact h.le_data
    · exact h.data_le
    · rfl
    · exact h.chain.2
    · exact (List.nodup_cons.mp h.nodup).2
    · exact fun j hj => h.lt j (List.mem_cons_of_mem i hj)
    · dsimp only
      omega

/-- `slab_slab_free` puts an object in use in front of the chain. -/
theorem slabSlabFree_spec (ha : (mgr.slabAlloc alloc).Sized)
    (h : (mgr.slab p).Header (mgr.slabAlloc alloc) alloc p l)
    (hi : i < (mgr.slabAlloc alloc).objN) (hnot : i ∉ l) :
  ∃ hdr, mgr.slabSlabFree p (mgr.objAt alloc p i) = mgr.setHeader p hdr
    ∧ hdr.Header (mgr.slabAlloc alloc) alloc p (i :: l)
    ∧ hdr.data = (mgr.slab p).data ∧ hdr.usedCnt + 1 = (mgr.slab p).usedCnt
  := by
  have hn := ha.objN_le
  rw [slabObjNMax] at hn
  have hcount := h.count
  have hnodup : (i :: l).Nodup := List.nodup_cons.mpr ⟨hnot, h.nodup⟩
  have hlt : ∀ j ∈ i :: l, j < (mgr.slabAlloc alloc).objN := by
    intro j hj
    obtain rfl | hj := List.mem_cons.mp hj
    · exact hi
    · exact h.lt j hj
  have hlen : (i :: l).length ≤ (mgr.slabAlloc alloc).objN := by
    have hsub : i :: l ⊆ List.range (mgr.slabAlloc alloc).objN :=
      fun j hj => List.mem_range.mpr (hlt j hj)
    have hle := (hnodup.subperm hsub).length_le
    rwa [List.length_range] at hle
  rw [List.length_cons] at hlen
  have hlink : (if (mgr.slab p).firstFree = -1 then i
      else ((mgr.slab p).firstFree % 2 ^ 8).toNat) = l.headD i := by
    rw [h.firstFree]
    cases l with
    | nil => rfl
    | cons j l =>
      have hj := h.lt j List.mem_cons_self
      rw [firstFreeOf, if_neg (by omega), List.headD_cons]
      omega
  have hused : ((mgr.slab p).usedCnt + 2 ^ 16 - 1) % 2 ^ 16 = (mgr.slab p).usedCnt - 1 := by
    have heq : (mgr.slab p).usedCnt + 2 ^ 16 - 1 = (mgr.slab p).usedCnt - 1 + 2 ^ 16 := by omega
    rw [heq, Nat.add_mod_right, Nat.mod_eq_of_lt (by omega)]
  refine ⟨{ mgr.slab p with
      freeList := Function.update (mgr.slab p).freeList i (l.headD i)
      firstFree := i
      usedCnt := (mgr.slab p).usedCnt - 1 }, ?_, ?_, rfl, ?_⟩
  · rw [slabSlabFree]
    dsimp only
    rw [h.alloc_eq, objAt, Slab.Header.index_eq _ ha hi, hlink, hused]
  · constructor
    · exact h.aligned
    · exact h.magic
    · exact h.alloc_eq
    · exact h.le_data
    · exact h.data_le
    · rfl
    · exact h.chain.push hnot
    · exact hnodup
    · exact hlt
    · dsimp only
      rw [List.length_cons]
      omega
  · dsimp only
    omega

/-- The free list of a new slab. -/
theorem initFreeList_eq (freeList : ℕ → ℕ) {n : ℕ} (hn : n ≤ slabObjNMax) (i : ℕ) :
  initFreeList freeList n i
    = if i = n - 1 then n - 1 else if i < n - 1 then i + 1 else freeList i
  := by
  rw [slabObjNMax] at hn
  have hfold : ∀ m ≤ 255, ((List.range m).foldl
      (fun freeList i => Function.update freeList i ((i + 1) % 2 ^ 8)) freeList) i
      = if i < m then i + 1 else freeList i := by
    intro m hm
    induction m with
    | zero => rfl
    | succ m ih =>
      rw [List.range_succ, List.foldl_append, List.foldl_cons, List.foldl_nil]
      by_cases him : i = m
      · rw [him, Function.update_self, if_pos (Nat.lt_succ_self m), Nat.mod_eq_of_lt (by omega)]
      · rw [Function.update_of_ne him, ih (by omega)]
        congr 1
        rw [eq_iff_iff]
        omega
  rw [initFreeList]
  by_cases hlast : i = n - 1
  · rw [if_pos hlast, hlast, Function.update_self, Nat.mod_eq_of_lt (by omega)]
  · rw [if_neg hlast, Function.update_of_ne hlast, hfold _ (by omega)]

def setLinks (mgr : SlabMgr) (links : DList.Links ℕ) : SlabMgr :=
  { mgr with links := links }

/-- `slab_slab_init` chains all objects. -/
theorem slabSlabInit_header (rand : ℕ) (ha : (mgr.slabAlloc alloc).Sized)
    (hp : pgSz ∣ p) :
  ∃ hdr, mgr.slabSlabInit p alloc rand =
      some ((mgr.setHeader p hdr).setLinks ((mgr.links.setPrev p none).setNext p none))
    ∧ hdr.Header (mgr.slabAlloc alloc) alloc p (List.range (mgr.slabAlloc alloc).objN)
    ∧ hdr.usedCnt = 0
  := by
  have hpos := ha.padding_pos
  have hle := ha.padding_le
  have hquot : 0 < slabEndPaddingMin / (mgr.slabAlloc alloc).paddingAlign := Nat.div_pos hle hpos
  have hpad : rand % (slabEndPaddingMin / (mgr.slabAlloc alloc).paddingAlign)
      * (mgr.slabAlloc alloc).paddingAlign ≤ slabEndPaddingMin :=
    (Nat.mul_le_mul_right _ (Nat.mod_lt rand hquot).le).trans (Nat.div_mul_le_self _ _)
  have hfits := ha.fits
  have hn := ha.objN_pos
  rw [slabSlabInit, if_neg hpos.ne', if_neg hquot.ne']
  refine ⟨_, rfl, ?_, rfl⟩
  obtain ⟨n, hn⟩ := Nat.exists_eq_succ_of_ne_zero hn.ne'
  have hnmax := ha.objN_le
  rw [hn] at hnmax
  constructor
  · exact hp
  · rfl
  · rfl
  · dsimp only
    omega
  · dsimp only
    omega
  · dsimp only
    rw [hn, List.range_succ_eq_map]
    rfl
  · dsimp only
    rw [hn, List.range_eq_range']
    apply IndexChain.isChain_range'
    · intro i hi hlt
      rw [initFreeList_eq _ hnmax, if_neg (by omega), if_pos (by omega)]
    · rw [initFreeList_eq _ hnmax, if_pos (by omega)]
      omega
  · exact List.nodup_range
  · exact fun i hi => List.mem_range.mp hi
  · rw [List.length_range]
    rfl

/-! ### The live objects -/

/-- The objects in use of the slabs `pages` are the live ones, and `free p` is the chain of
the slab `p`. -/
structure Contents (mgr : SlabMgr) (alloc : ℕ) (live pages : List ℕ) (free : ℕ → List ℕ) :
    Prop where
  sized : (mgr.slabAlloc alloc).Sized
  header : ∀ p ∈ pages, (mgr.slab p).Header (mgr.slabAlloc alloc) alloc p (free p)
  nodup : live.Nodup
  mem_live : ∀ x, x ∈ live ↔ ∃ p ∈ pages, ∃ i < (mgr.slabAlloc alloc).objN,
    i ∉ free p ∧ x = mgr.objAt alloc p i

/-- At most the lists of the allocator differ. -/
structure Relinked (alloc : ℕ) (mgr mgr' : SlabMgr) : Prop where
  slab : mgr'.slab = mgr.slab
  objN : (mgr'.slabAlloc alloc).objN = (mgr.slabAlloc alloc).objN
  objSz : (mgr'.slabAlloc alloc).objSz = (mgr.slabAlloc alloc).objSz
  pgSft : (mgr'.slabAlloc alloc).pgSft = (mgr.slabAlloc alloc).pgSft
  paddingBase : (mgr'.slabAlloc alloc).paddingBase = (mgr.slabAlloc alloc).paddingBase
  paddingAlign : (mgr'.slabAlloc alloc).paddingAlign = (mgr.slabAlloc alloc).paddingAlign

theorem Relinked.trans {mgr'' : SlabMgr} (h : Relinked alloc mgr mgr')
    (h' : Relinked alloc mgr' mgr'') :
  Relinked alloc mgr mgr''
  := ⟨h'.slab.trans h.slab, h'.objN.trans h.objN, h'.objSz.trans h.objSz, h'.pgSft.trans h.pgSft,
    h'.paddingBase.trans h.paddingBase, h'.paddingAlign.trans h.paddingAlign⟩

theorem relinked_setLinks (mgr : SlabMgr) (alloc : ℕ) (links : DList.Links ℕ) :
  Relinked alloc mgr (mgr.setLinks links)
  := ⟨rfl, rfl, rfl, rfl, rfl, rfl⟩

theorem relinked_setList (mgr : SlabMgr) (alloc : ℕ) (b : SlabList)
    (l : DList.Links ℕ × Option ℕ) :
  Relinked alloc mgr (mgr.setList alloc b l)
  := by
  constructor
  · rfl
  all_goals
    rw [setList]
    dsimp only
    rw [Function.update_self]
    cases b <;> rfl

theorem Relinked.sized (h : Relinked alloc mgr mgr') (ha : (mgr.slabAlloc alloc).Sized) :
  (mgr'.slabAlloc alloc).Sized
  := by
  constructor
  · rw [h.objN]
    exact ha.objN_pos
  · rw [h.objN]
    exact ha.objN_le
  · rw [h.objSz]
    exact ha.objSz_pos
  · rw [h.pgSft]
    exact ha.pgSft_eq
  · rw [h.objN, h.objSz, h.paddingBase]
    exact ha.fits
  · rw [h.paddingAlign]
    exact ha.padding_pos
  · rw [h.paddingAlign]
    exact ha.padding_le

/-- The contents do not depend on the lists. -/
theorem Contents.relinked (hc : Contents mgr alloc live pages free)
    (h : Relinked alloc mgr mgr') :
  Contents mgr' alloc live pages free
  := by
  constructor
  · exact h.sized hc.sized
  · intro p hp
    rw [h.slab]
    exact (hc.header p hp).congr h.objN h.objSz
  · exact hc.nodup
  · intro x
    rw [hc.mem_live, h.objN]
    simp only [objAt, h.slab, h.objSz]

/-- The address of an object tells its slab and its index. -/
theorem Contents.objAt_inj (hc : Contents mgr alloc live pages free) {q j : ℕ} (hp : p ∈ pages)
    (hq : q ∈ pages) (hi : i < (mgr.slabAlloc alloc).objN)
    (hj : j < (mgr.slabAlloc alloc).objN) (heq : mgr.objAt alloc p i = mgr.objAt alloc q j) :
  p = q ∧ i = j
  := (hc.header p hp).objAddr_inj (hc.header q hq) hc.sized (fun h => by rw [h]) hi hj heq

/-- A new header with the same place for the objects, and the objects that are live then. -/
theorem Contents.setHeader (hc : Contents mgr alloc live pages free) {hdr : Slab}
    (hhdr : hdr.Header (mgr.slabAlloc alloc) alloc p l) (hdata : hdr.data = (mgr.slab p).data)
    {live' : List ℕ} (hnodup : live'.Nodup)
    (hlive : ∀ x, x ∈ live' ↔ ∃ q ∈ pages, ∃ j < (mgr.slabAlloc alloc).objN,
      j ∉ Function.update free p l q ∧ x = mgr.objAt alloc q j) :
  Contents (mgr.setHeader p hdr) alloc live' pages (Function.update free p l)
  := by
  have hdata' : ∀ q, ((mgr.setHeader p hdr).slab q).data = (mgr.slab q).data := by
    intro q
    rw [SlabMgr.setHeader]
    dsimp only
    by_cases hq : q = p
    · rw [hq, Function.update_self, hdata]
    · rw [Function.update_of_ne hq]
  constructor
  · exact hc.sized
  · intro q hq
    by_cases hqp : q = p
    · rw [hqp, SlabMgr.setHeader]
      dsimp only
      rw [Function.update_self, Function.update_self]
      exact hhdr
    · rw [SlabMgr.setHeader]
      dsimp only
      rw [Function.update_of_ne hqp, Function.update_of_ne hqp]
      exact hc.header q hq
  · exact hnodup
  · intro x
    rw [hlive]
    simp only [objAt, Slab.objAddr, hdata']
    rfl

/-- A slab that is not full gives away an object that is not live. -/
theorem Contents.take (hc : Contents mgr alloc live pages free) (hp : p ∈ pages)
    (hroom : (mgr.slab p).usedCnt ≠ (mgr.slabAlloc alloc).objN) :
  ∃ hdr x l, mgr.slabSlabAlloc p = (mgr.setHeader p hdr, some x) ∧ x ∉ live
    ∧ Contents (mgr.setHeader p hdr) alloc (x :: live) pages (Function.update free p l)
    ∧ hdr.usedCnt = (mgr.slab p).usedCnt + 1
  := by
  have hhdr := hc.header p hp
  obtain ⟨i, l, hl⟩ := List.exists_cons_of_ne_nil (hhdr.usedCnt_ne_iff.mp hroom)
  rw [hl] at hhdr
  have hi := hhdr.lt i List.mem_cons_self
  obtain ⟨hdr, halloc, hhdr', hdata, hused⟩ := slabSlabAlloc_spec hc.sized hhdr
  have hnot : mgr.objAt alloc p i ∉ live := by
    intro hmem
    obtain ⟨q, hq, j, hj, hfree, heq⟩ := (hc.mem_live _).mp hmem
    obtain ⟨rfl, rfl⟩ := hc.objAt_inj hp hq hi hj heq
    rw [hl] at hfree
    exact hfree List.mem_cons_self
  refine ⟨hdr, mgr.objAt alloc p i, l, halloc, hnot, ?_, hused⟩
  apply hc.setHeader hhdr' hdata (List.nodup_cons.mpr ⟨hnot, hc.nodup⟩)
  intro x
  rw [List.mem_cons, hc.mem_live]
  constructor
  · rintro (rfl | ⟨q, hq, j, hj, hfree, rfl⟩)
    · refine ⟨p, hp, i, hi, ?_, rfl⟩
      rw [Function.update_self]
      exact (List.nodup_cons.mp hhdr.nodup).1
    · refine ⟨q, hq, j, hj, ?_, rfl⟩
      by_cases hqp : q = p
      · rw [hqp, hl] at hfree
        rw [hqp, Function.update_self]
        exact List.not_mem_of_not_mem_cons hfree
      · rw [Function.update_of_ne hqp]
        exact hfree
  · rintro ⟨q, hq, j, hj, hfree, rfl⟩
    by_cases hqp : q = p
    · rw [hqp, Function.update_self] at hfree
      by_cases hji : j = i
      · left
        rw [hqp, hji]
      · right
        refine ⟨q, hq, j, hj, ?_, rfl⟩
        rw [hqp, hl]
        exact List.not_mem_cons_of_ne_of_not_mem hji hfree
    · right
      rw [Function.update_of_ne hqp] at hfree
      exact ⟨q, hq, j, hj, hfree, rfl⟩

/-- A live object goes back to its slab. -/
theorem Contents.give (hc : Contents mgr alloc live pages free) {x : ℕ} (hx : x ∈ live) :
  ∃ p ∈ pages, ∃ hdr l, alignDown x (mgr.slabAlloc alloc).pgSft = p
    ∧ mgr.slabSlabFree p x = mgr.setHeader p hdr
    ∧ Contents (mgr.setHeader p hdr) alloc (live.erase x) pages (Function.update free p l)
    ∧ hdr.usedCnt + 1 = (mgr.slab p).usedCnt
  := by
  obtain ⟨p, hp, i, hi, hnot, rfl⟩ := (hc.mem_live x).mp hx
  have hhdr := hc.header p hp
  obtain ⟨hdr, hfree, hhdr', hdata, hused⟩ := slabSlabFree_spec hc.sized hhdr hi hnot
  refine ⟨p, hp, hdr, i :: free p, hhdr.alignDown_objAddr hc.sized hi, hfree, ?_, hused⟩
  apply hc.setHeader hhdr' hdata (hc.nodup.erase _)
  intro x
  rw [hc.nodup.mem_erase_iff, hc.mem_live]
  constructor
  · rintro ⟨hne, q, hq, j, hj, hfree, rfl⟩
    refine ⟨q, hq, j, hj, ?_, rfl⟩
    by_cases hqp : q = p
    · rw [hqp] at hne hfree
      rw [hqp, Function.update_self]
      apply List.not_mem_cons_of_ne_of_not_mem _ hfree
      rintro rfl
      exact hne rfl
    · rw [Function.update_of_ne hqp]
      exact hfree
  · rintro ⟨q, hq, j, hj, hfree, rfl⟩
    constructor
    · intro heq
      obtain ⟨rfl, rfl⟩ := hc.objAt_inj hq hp hj hi heq
      rw [Function.update_self] at hfree
      exact hfree List.mem_cons_self
    · refine ⟨q, hq, j, hj, ?_, rfl⟩
      by_cases hqp : q = p
      · rw [hqp, Function.update_self] at hfree
        rw [hqp]
        exact List.not_mem_of_not_mem_cons hfree
      · rw [Function.update_of_ne hqp] at hfree
        exact hfree

/-- A new page brings no live object. -/
theorem Contents.newPage (hc : Contents mgr alloc live pages free) (hp : p ∉ pages) {hdr : Slab}
    (hhdr : hdr.Header (mgr.slabAlloc alloc) alloc p (List.range (mgr.slabAlloc alloc).objN)) :
  Contents (mgr.setHeader p hdr) alloc live (p :: pages)
    (Function.update free p (List.range (mgr.slabAlloc alloc).objN))
  := by
  have hne : ∀ q ∈ pages, q ≠ p := by
    rintro q hq rfl
    exact hp hq
  constructor
  · exact hc.sized
  · intro q hq
    rw [SlabMgr.setHeader]
    dsimp only
    obtain rfl | hq := List.mem_cons.mp hq
    · rw [Function.update_self, Function.update_self]
      exact hhdr
    · rw [Function.update_of_ne (hne q hq), Function.update_of_ne (hne q hq)]
      exact hc.header q hq
  · exact hc.nodup
  · intro x
    rw [hc.mem_live]
    constructor
    · rintro ⟨q, hq, j, hj, hfree, rfl⟩
      refine ⟨q, List.mem_cons_of_mem p hq, j, hj, ?_, ?_⟩
      · rw [Function.update_of_ne (hne q hq)]
        exact hfree
      · simp only [objAt, SlabMgr.setHeader, Function.update_of_ne (hne q hq)]
    · rintro ⟨q, hq, j, hj, hfree, rfl⟩
      obtain rfl | hq := List.mem_cons.mp hq
      · rw [Function.update_self, List.mem_range] at hfree
        exact absurd hj hfree
      · rw [Function.update_of_ne (hne q hq)] at hfree
        refine ⟨q, hq, j, hj, hfree, ?_⟩
        simp only [objAt, SlabMgr.setHeader, Function.update_of_ne (hne q hq)]

end SlabMgr

end TrainsOs
