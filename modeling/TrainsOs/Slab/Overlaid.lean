import TrainsOs.Slab.Live
import Mathlib.Data.Finset.Basic
import Mathlib.Data.List.Chain

/-!
# A slab whose first object lies over its free list

`slab_slab_init` does not reckon with the size of the header, so that with a small draw the
first object lies over the end of `free_list`. What is in the entries from some `m` on is
then up to the owner of this object. The allocator reads the entry of an object when it gives
the object away, and an entry below `m` links to the next object: as long as no more than `m`
objects are in use, it only follows links that are still there.
-/

namespace TrainsOs

/-- The first object of the slab `p` lies over `free_list[m]` and what follows it. Of the objects
`0` to `m` those in `l` are free, in the order of their chain, and the others are in use. -/
structure Slab.Overlaid (hdr : Slab) (a : SlabAlloc) (alloc p m : ℕ) (l : List ℕ) : Prop where
  aligned : pgSz ∣ p
  magic : hdr.magic = ['s', 'l', 'a', 'b']
  alloc_eq : hdr.alloc = alloc
  data : hdr.data = p + offsetofFreeList + m
  data_le : hdr.data + a.objN * a.objSz ≤ p + pgSz
  firstFree : ∀ i ∈ l.head?, hdr.firstFree = (i : ℤ)
  chain : l.IsChain fun i j => i < m ∧ hdr.freeList i = j
  last : ∀ i ∈ l.getLast?, i = m
  nodup : l.Nodup
  count : l.length + hdr.usedCnt = m + 1

namespace Slab.Overlaid

variable {hdr hdr' : Slab} {a a' : SlabAlloc} {alloc p m i : ℕ} {l : List ℕ}

theorem congr (h : hdr.Overlaid a alloc p m l) (hn : a'.objN = a.objN)
    (hsz : a'.objSz = a.objSz) :
  hdr.Overlaid a' alloc p m l
  := by
  constructor
  · exact h.aligned
  · exact h.magic
  · exact h.alloc_eq
  · exact h.data
  · rw [hn, hsz]
    exact h.data_le
  · exact h.firstFree
  · exact h.chain
  · exact h.last
  · exact h.nodup
  · exact h.count

/-- The entries from `m` on are not a part of the chain. -/
theorem setFreeList (h : hdr.Overlaid a alloc p m l) {freeList : ℕ → ℕ}
    (heq : ∀ i < m, freeList i = hdr.freeList i) :
  Slab.Overlaid { hdr with freeList := freeList } a alloc p m l
  := by
  constructor
  · exact h.aligned
  · exact h.magic
  · exact h.alloc_eq
  · exact h.data
  · exact h.data_le
  · exact h.firstFree
  · apply h.chain.imp
    rintro i j ⟨hi, hlink⟩
    exact ⟨hi, (heq i hi).trans hlink⟩
  · exact h.last
  · exact h.nodup
  · exact h.count

theorem le_of_mem (h : hdr.Overlaid a alloc p m l) (hi : i ∈ l) :
  i ≤ m
  := by
  have hchain := h.chain
  have hlast := h.last
  clear h
  induction l with
  | nil => cases hi
  | cons k l ih =>
    cases l with
    | nil =>
      obtain rfl := List.mem_singleton.mp hi
      exact (hlast i rfl).le
    | cons j l =>
      obtain ⟨⟨hk, -⟩, hchain⟩ := List.isChain_cons_cons.mp hchain
      obtain rfl | hi := List.mem_cons.mp hi
      · exact hk.le
      · exact ih hi hchain hlast

/-- The free objects are not all of them when one is in use. -/
theorem length_le (h : hdr.Overlaid a alloc p m l) (hi : i ≤ m) (hnot : i ∉ l) :
  l.length ≤ m
  := by
  have hnodup : (i :: l).Nodup := List.nodup_cons.mpr ⟨hnot, h.nodup⟩
  have hsub : i :: l ⊆ List.range (m + 1) := by
    intro j hj
    rw [List.mem_range]
    obtain rfl | hj := List.mem_cons.mp hj
    · omega
    · exact Nat.lt_succ_of_le (h.le_of_mem hj)
  have hle := (hnodup.subperm hsub).length_le
  rw [List.length_range, List.length_cons] at hle
  exact Nat.le_of_succ_le_succ hle

/-- The last object of the chain is `m`. -/
theorem lt_of_not_mem (h : hdr.Overlaid a alloc p m l) (hi : i ≤ m) (hnot : i ∉ l)
    (hne : l ≠ []) :
  i < m
  := by
  apply lt_of_le_of_ne hi
  rintro rfl
  have hlast := h.last _ (List.getLast?_eq_some_getLast hne)
  apply hnot
  rw [← hlast]
  exact List.getLast_mem hne

end Slab.Overlaid

namespace SlabMgr

variable {mgr mgr₁ : SlabMgr} {alloc p m sz i : ℕ} {l : List ℕ}

/-! ### The objects of the slab -/

theorem objAt_overlaid (h : (mgr.slab p).Overlaid (mgr.slabAlloc alloc) alloc p m l) (i : ℕ) :
  mgr.objAt alloc p i = p + offsetofFreeList + m + i * (mgr.slabAlloc alloc).objSz
  := by rw [objAt, Slab.objAddr, h.data]

/-- `slab_slab_alloc` takes the first object off the chain. When it was the last one, what becomes
of `first_free` depends on what lies over the free list. -/
theorem slabSlabAlloc_overlaid (ha : (mgr.slabAlloc alloc).Sized)
    (hm : m + 1 < (mgr.slabAlloc alloc).objN)
    (h : (mgr.slab p).Overlaid (mgr.slabAlloc alloc) alloc p m (i :: l)) :
  ∃ hdr, mgr.slabSlabAlloc p = (mgr.setHeader p hdr, some (mgr.objAt alloc p i))
    ∧ hdr.Overlaid (mgr.slabAlloc alloc) alloc p m l ∧ hdr.freeList = (mgr.slab p).freeList
  := by
  have hi : i ≤ m := h.le_of_mem List.mem_cons_self
  have hcount := h.count
  rw [List.length_cons] at hcount
  have hn := ha.objN_le
  rw [slabObjNMax] at hn
  have hmul : (mgr.slabAlloc alloc).objSz * i < 2 ^ 32 := by
    have hdata : p ≤ (mgr.slab p).data := by
      rw [h.data, Nat.add_assoc]
      exact Nat.le_add_right p _
    have hmem := Slab.objAddr_mem_page ha hdata h.data_le (show i < _ by omega)
    rw [Slab.objAddr, Nat.mul_comm] at hmem
    have hpg : pgSz < 2 ^ 32 := by decide
    omega
  have hfirst : (mgr.slab p).firstFree = (i : ℤ) := h.firstFree i rfl
  have h8 : ((i : ℤ) % 2 ^ 8).toNat = i := by omega
  have h32 : ((i : ℤ) % 2 ^ 32).toNat = i := by omega
  have hused : ((mgr.slab p).usedCnt + 1) % 2 ^ 16 = (mgr.slab p).usedCnt + 1 :=
    Nat.mod_eq_of_lt (by omega)
  refine ⟨{ mgr.slab p with
      firstFree :=
        if (mgr.slab p).freeList i = i then (-1 : ℤ) else (mgr.slab p).freeList i
      usedCnt := (mgr.slab p).usedCnt + 1 }, ?_, ?_, rfl⟩
  · rw [slabSlabAlloc]
    dsimp only
    rw [h.alloc_eq, if_neg (by omega), hfirst, if_neg (by omega), h8, h32, hused,
      Nat.mod_eq_of_lt hmul, objAt, Slab.objAddr, Nat.mul_comm]
  · constructor
    · exact h.aligned
    · exact h.magic
    · exact h.alloc_eq
    · exact h.data
    · exact h.data_le
    · intro j hj
      obtain ⟨l, rfl⟩ := List.head?_eq_some_iff.mp hj
      obtain ⟨⟨-, hlink⟩, -⟩ := List.isChain_cons_cons.mp h.chain
      have hne : j ≠ i := by
        rintro rfl
        exact (List.nodup_cons.mp h.nodup).1 List.mem_cons_self
      dsimp only
      rw [hlink, if_neg hne]
    · exact h.chain.tail
    · intro j hj
      apply h.last
      rw [List.getLast?_cons, hj]
      rfl
    · exact (List.nodup_cons.mp h.nodup).2
    · dsimp only
      omega

/-- `slab_slab_free` puts an object in front of the chain. -/
theorem slabSlabFree_overlaid (ha : (mgr.slabAlloc alloc).Sized)
    (hm : m + 1 < (mgr.slabAlloc alloc).objN)
    (h : (mgr.slab p).Overlaid (mgr.slabAlloc alloc) alloc p m l) (hi : i ≤ m) (hnot : i ∉ l)
    (hlast : l = [] → i = m) :
  ∃ hdr, mgr.slabSlabFree p (mgr.objAt alloc p i) = mgr.setHeader p hdr
    ∧ hdr.Overlaid (mgr.slabAlloc alloc) alloc p m (i :: l)
    ∧ ∀ j, j ≠ i → hdr.freeList j = (mgr.slab p).freeList j
  := by
  have hn := ha.objN_le
  rw [slabObjNMax] at hn
  have hcount := h.count
  have hlen := h.length_le hi hnot
  have hlink : ∀ j ∈ l.head?, (if (mgr.slab p).firstFree = -1 then i
      else ((mgr.slab p).firstFree % 2 ^ 8).toNat) = j := by
    intro j hj
    have hj' := h.le_of_mem (List.mem_of_mem_head? hj)
    rw [h.firstFree j hj, if_neg (by omega)]
    omega
  have hused : ((mgr.slab p).usedCnt + 2 ^ 16 - 1) % 2 ^ 16 = (mgr.slab p).usedCnt - 1 := by
    have heq : (mgr.slab p).usedCnt + 2 ^ 16 - 1 = (mgr.slab p).usedCnt - 1 + 2 ^ 16 := by omega
    rw [heq, Nat.add_mod_right, Nat.mod_eq_of_lt (by omega)]
  refine ⟨{ mgr.slab p with
      freeList := Function.update (mgr.slab p).freeList i
        (if (mgr.slab p).firstFree = -1 then i else ((mgr.slab p).firstFree % 2 ^ 8).toNat)
      firstFree := i
      usedCnt := (mgr.slab p).usedCnt - 1 }, ?_, ?_, fun j hj => Function.update_of_ne hj _ _⟩
  · rw [slabSlabFree]
    dsimp only
    rw [h.alloc_eq, objAt, Slab.Header.index_eq _ ha (show i < _ by omega), hused]
  · constructor
    · exact h.aligned
    · exact h.magic
    · exact h.alloc_eq
    · exact h.data
    · exact h.data_le
    · rintro j ⟨⟩
      rfl
    · apply List.IsChain.cons
      · apply h.chain.imp_of_mem_imp
        rintro j k hj - ⟨hjm, hjk⟩
        have hji : j ≠ i := by
          rintro rfl
          exact hnot hj
        dsimp only
        rw [Function.update_of_ne hji]
        exact ⟨hjm, hjk⟩
      · intro j hj
        have hne : l ≠ [] := by
          rintro rfl
          cases hj
        dsimp only
        rw [Function.update_self, hlink j hj]
        exact ⟨h.lt_of_not_mem hi hnot hne, rfl⟩
    · intro j hj
      by_cases hl : l = []
      · rw [hl] at hj
        obtain rfl := Option.some.inj hj
        exact hlast hl
      · rw [List.getLast?_cons_of_ne_nil hl] at hj
        exact h.last j hj
    · exact List.nodup_cons.mpr ⟨hnot, h.nodup⟩
    · dsimp only
      rw [List.length_cons]
      omega

/-- `slab_slab_init` chains all objects. -/
theorem slabSlabInit_overlaid (rand : ℕ) (ha : (mgr.slabAlloc alloc).Sized) (hp : pgSz ∣ p)
    (hm : m + 1 < (mgr.slabAlloc alloc).objN)
    (hdata : (mgr.slabAlloc alloc).objN + ((mgr.slabAlloc alloc).paddingBase
      + rand % (slabEndPaddingMin / (mgr.slabAlloc alloc).paddingAlign)
        * (mgr.slabAlloc alloc).paddingAlign) = offsetofFreeList + m) :
  ∃ hdr, mgr.slabSlabInit p alloc rand =
      some ((mgr.setHeader p hdr).setLinks ((mgr.links.setPrev p none).setNext p none))
    ∧ hdr.Overlaid (mgr.slabAlloc alloc) alloc p m (List.range (m + 1))
  := by
  have hpos := ha.padding_pos
  have hle := ha.padding_le
  have hquot : 0 < slabEndPaddingMin / (mgr.slabAlloc alloc).paddingAlign := Nat.div_pos hle hpos
  have hpad : rand % (slabEndPaddingMin / (mgr.slabAlloc alloc).paddingAlign)
      * (mgr.slabAlloc alloc).paddingAlign ≤ slabEndPaddingMin :=
    (Nat.mul_le_mul_right _ (Nat.mod_lt rand hquot).le).trans (Nat.div_mul_le_self _ _)
  have hfits := ha.fits
  have hn := ha.objN_le
  rw [slabSlabInit, if_neg hpos.ne', if_neg hquot.ne']
  refine ⟨_, rfl, ?_⟩
  constructor
  · exact hp
  · rfl
  · rfl
  · dsimp only
    omega
  · dsimp only
    omega
  · intro i hi
    rw [List.range_succ_eq_map] at hi
    obtain rfl := Option.some.inj hi
    rfl
  · apply List.isChain_iff_getElem.mpr
    intro i hi
    rw [List.length_range] at hi
    dsimp only
    rw [List.getElem_range, List.getElem_range, initFreeList_eq _ hn, if_neg (by omega),
      if_pos (by omega)]
    exact ⟨by omega, rfl⟩
  · intro i hi
    rw [List.range_succ, List.getLast?_append] at hi
    exact (Option.some.inj hi).symm
  · exact List.nodup_range
  · rw [List.length_range]
    rfl

/-! ### The allocator -/

/-- The lists of an allocator with the slab `p` alone, on the list `b`. -/
def oneSlab (p : ℕ) (b : SlabList) : SlabList → List ℕ :=
  Function.update (fun _ => []) b [p]

/-- An allocator of objects of `sz` bytes with the slab `p` alone, which is on `empty_slabs` when
no object is in use. -/
structure Overlaid (mgr : SlabMgr) (alloc p m sz : ℕ) (l : List ℕ) : Prop where
  sized : (mgr.slabAlloc alloc).Sized
  objSz : (mgr.slabAlloc alloc).objSz = sz
  room : m + 1 < (mgr.slabAlloc alloc).objN
  slab : (mgr.slab p).Overlaid (mgr.slabAlloc alloc) alloc p m l
  forest : DList.Forest mgr.links (mgr.slabAlloc alloc).head
    (oneSlab p (if l.length = m + 1 then .emptySlabs else .slabs))

theorem without_oneSlab (p : ℕ) (b : SlabList) :
  without (oneSlab p b) b p = fun _ => []
  := by
  rw [without, oneSlab, Function.update_self, Function.update_idem, List.erase_cons_head]
  exact Function.update_eq_self b _

theorem mem_oneSlab (p : ℕ) (b : SlabList) :
  p ∈ oneSlab p b b
  := by
  rw [oneSlab, Function.update_self]
  exact List.mem_singleton.mpr rfl

/-- The slab goes from one list to the other one. -/
theorem moveSlab_spec {b : SlabList} (c : SlabList)
    (h : DList.Forest mgr.links (mgr.slabAlloc alloc).head (oneSlab p b)) :
  ∃ mgr', mgr.dlDelete alloc b p = some mgr' ∧ Relinked alloc mgr (mgr'.dlPrepend alloc c p)
    ∧ DList.Forest (mgr'.dlPrepend alloc c p).links
        ((mgr'.dlPrepend alloc c p).slabAlloc alloc).head (oneSlab p c)
  := by
  obtain ⟨mgr', hdelete, hforest, hrel⟩ := dlDelete_spec h (mem_oneSlab p b)
  rw [without_oneSlab] at hforest
  obtain ⟨hforest', hrel'⟩ := dlPrepend_spec (b := c) hforest fun _ => List.not_mem_nil
  exact ⟨mgr', hdelete, hrel.trans hrel', hforest'⟩

theorem freeList_setHeader {hdr : Slab} (h : hdr.freeList = (mgr.slab p).freeList) (q : ℕ) :
  ((mgr.setHeader p hdr).slab q).freeList = (mgr.slab q).freeList
  := by
  by_cases hq : q = p
  · rw [hq, slab_setHeader, h]
  · rw [slab_setHeader_of_ne _ _ hq]

/-- What is taken from the slab once it has been found. -/
theorem slabAlloc_of_findSlab {page : Option ℕ} {rand : ℕ} {requested : Bool}
    (hfind : mgr.findSlab alloc page rand = some (mgr₁, some p, requested))
    (ha : (mgr₁.slabAlloc alloc).Sized) (hsz : (mgr₁.slabAlloc alloc).objSz = sz)
    (hm : m + 1 < (mgr₁.slabAlloc alloc).objN)
    (hslab : (mgr₁.slab p).Overlaid (mgr₁.slabAlloc alloc) alloc p m (i :: l))
    (hforest : DList.Forest mgr₁.links (mgr₁.slabAlloc alloc).head (oneSlab p .slabs)) :
  ∃ mgr', TrainsOs.slabAlloc mgr alloc page rand
      = some ⟨mgr', some (p + offsetofFreeList + m + i * sz), requested⟩
    ∧ Overlaid mgr' alloc p m sz l ∧ ∀ q, (mgr'.slab q).freeList = (mgr₁.slab q).freeList
  := by
  obtain ⟨hdr, halloc, hhdr, hsame⟩ := slabSlabAlloc_overlaid ha hm hslab
  have hcount := hhdr.count
  have hcount' := hslab.count
  rw [List.length_cons] at hcount'
  rw [objAt_overlaid hslab, hsz] at halloc
  refine ⟨mgr₁.setHeader p hdr, ?_, ?_, freeList_setHeader hsame⟩
  · rw [TrainsOs.slabAlloc, hfind]
    dsimp only [Option.bind_eq_bind, Option.bind_some]
    rw [halloc]
    dsimp only
    rw [slab_setHeader, if_neg]
    dsimp only [setHeader]
    omega
  · constructor
    · exact ha
    · exact hsz
    · exact hm
    · rw [slab_setHeader]
      exact hhdr
    · rw [if_neg (by omega)]
      exact hforest

/-- The first allocation requests a page. -/
theorem slabAlloc_first (ha : (mgr.slabAlloc alloc).Sized) (hsz : (mgr.slabAlloc alloc).objSz = sz)
    (hm : m + 1 < (mgr.slabAlloc alloc).objN) (hnone : ∀ b, (mgr.slabAlloc alloc).head b = none)
    (hp : pgSz ∣ p) {rand : ℕ}
    (hdata : (mgr.slabAlloc alloc).objN + ((mgr.slabAlloc alloc).paddingBase
      + rand % (slabEndPaddingMin / (mgr.slabAlloc alloc).paddingAlign)
        * (mgr.slabAlloc alloc).paddingAlign) = offsetofFreeList + m) :
  ∃ mgr', TrainsOs.slabAlloc mgr alloc (some p) rand
      = some ⟨mgr', some (p + offsetofFreeList + m), true⟩
    ∧ Overlaid mgr' alloc p m sz (List.range' 1 m)
  := by
  obtain ⟨hdr, hinit, hhdr⟩ := slabSlabInit_overlaid rand ha hp hm hdata
  have hslabs : (mgr.slabAlloc alloc).slabs = none := hnone .slabs
  have hempty : (mgr.slabAlloc alloc).emptySlabs = none := hnone .emptySlabs
  have hforest : DList.Forest
      ((mgr.setHeader p hdr).setLinks ((mgr.links.setPrev p none).setNext p none)).links
      (((mgr.setHeader p hdr).setLinks
        ((mgr.links.setPrev p none).setNext p none)).slabAlloc alloc).head (fun _ => []) := by
    have hhead : (mgr.slabAlloc alloc).head = fun _ => none := funext hnone
    rw [setLinks, setHeader]
    dsimp only
    rw [hhead]
    apply DList.Forest.empty
  obtain ⟨hforest', hrel⟩ := dlPrepend_spec (b := .slabs) hforest fun _ => List.not_mem_nil
  have hrel := (relinked_setLinks (mgr.setHeader p hdr) alloc _).trans hrel
  rw [List.range_eq_range', List.range'_succ] at hhdr
  have hfind : mgr.findSlab alloc (some p) rand = some (dlPrepend
      ((mgr.setHeader p hdr).setLinks ((mgr.links.setPrev p none).setNext p none)) alloc .slabs p,
        some p, true) := by
    simp only [findSlab, hslabs, hempty, Option.filter_none, hinit]
    rfl
  obtain ⟨mgr', halloc, hkept, -⟩ := slabAlloc_of_findSlab hfind (hrel.sized ha)
    (hrel.objSz.trans hsz) (by rw [hrel.objN]; exact hm)
    (by
      rw [hrel.slab, slab_setHeader]
      exact hhdr.congr hrel.objN hrel.objSz) hforest'
  rw [Nat.zero_mul, Nat.add_zero] at halloc
  exact ⟨mgr', halloc, hkept⟩

namespace Overlaid

/-- `slab_alloc` gives away the first free object. It does not write to the free lists. -/
theorem take (h : Overlaid mgr alloc p m sz (i :: l)) (page : Option ℕ) (rand : ℕ) :
  ∃ mgr', TrainsOs.slabAlloc mgr alloc page rand
      = some ⟨mgr', some (p + offsetofFreeList + m + i * sz), false⟩
    ∧ Overlaid mgr' alloc p m sz l ∧ ∀ q, (mgr'.slab q).freeList = (mgr.slab q).freeList
  := by
  have hcount := h.slab.count
  have hroom := h.room
  have hhead : (mgr.slabAlloc alloc).slabs
      = (oneSlab p (if (i :: l).length = m + 1 then .emptySlabs else .slabs) .slabs).head? :=
    (h.forest.list .slabs).head_eq
  have hforest := h.forest
  split_ifs at hhead hforest with hall
  · -- no object is in use
    obtain ⟨mgr', hdelete, hrel, hforest'⟩ := moveSlab_spec .slabs hforest
    have hempty : (mgr.slabAlloc alloc).emptySlabs = some p :=
      (hforest.list .emptySlabs).head_eq
    have hslabs : (mgr.slabAlloc alloc).slabs = none := hhead
    have hfind : mgr.findSlab alloc page rand
        = some (mgr'.dlPrepend alloc .slabs p, some p, false) := by
      simp only [findSlab, hslabs, hempty, Option.filter_none, hdelete]
      rfl
    rw [← hrel.objN] at hroom
    rw [← hrel.slab]
    have hsz := hrel.objSz.trans h.objSz
    apply slabAlloc_of_findSlab hfind (hrel.sized h.sized) hsz hroom _ hforest'
    rw [hrel.slab]
    exact h.slab.congr hrel.objN hrel.objSz
  · have hslabs : (mgr.slabAlloc alloc).slabs = some p := hhead
    have hnot : (mgr.slab p).usedCnt ≠ (mgr.slabAlloc alloc).objN := by omega
    have hfind : mgr.findSlab alloc page rand = some (mgr, some p, false) := by
      simp only [findSlab, hslabs]
      rw [Option.filter_some, if_pos (by simpa using hnot)]
    exact slabAlloc_of_findSlab hfind h.sized h.objSz h.room h.slab hforest

/-- `slab_free` puts an object back, the object `m` also when it is in use with all others. It
writes the entry of the object. -/
theorem give (h : Overlaid mgr alloc p m sz l) (hi : i ≤ m) (hnot : i ∉ l)
    (hlast : l = [] → i = m) :
  ∃ mgr', TrainsOs.slabFree mgr alloc (p + offsetofFreeList + m + i * sz) = some mgr'
    ∧ Overlaid mgr' alloc p m sz (i :: l)
    ∧ ∀ q j, (q = p → j ≠ i) → (mgr'.slab q).freeList j = (mgr.slab q).freeList j
  := by
  have hlen := h.slab.length_le hi hnot
  have hroom := h.room
  obtain ⟨hdr, hfree, hhdr, hother⟩ := slabSlabFree_overlaid h.sized hroom h.slab hi hnot hlast
  have hsame : ∀ q j, (q = p → j ≠ i) →
      ((mgr.setHeader p hdr).slab q).freeList j = (mgr.slab q).freeList j := by
    intro q j hne
    by_cases hq : q = p
    · rw [hq, slab_setHeader, hother j (hne hq)]
    · rw [slab_setHeader_of_ne _ _ hq]
  have hcount := hhdr.count
  have hdata : p ≤ (mgr.slab p).data := by
    rw [h.slab.data, Nat.add_assoc]
    exact Nat.le_add_right p _
  obtain ⟨hle, hlt⟩ := Slab.objAddr_mem_page h.sized hdata h.slab.data_le
    (show i < (mgr.slabAlloc alloc).objN by omega)
  have hpage : alignDown (mgr.objAt alloc p i) (mgr.slabAlloc alloc).pgSft = p := by
    rw [h.sized.pgSft_eq]
    exact alignDown_of_mem_page h.slab.aligned hle hlt
  have hforest := h.forest
  rw [if_neg (by omega)] at hforest
  have haddr : mgr.objAt alloc p i = p + offsetofFreeList + m + i * sz := by
    rw [objAt_overlaid h.slab, h.objSz]
  rw [← haddr, TrainsOs.slabFree]
  dsimp only
  rw [hpage, h.slab.magic, if_neg (by decide), hfree, slab_setHeader]
  by_cases hall : (i :: l).length = m + 1
  · have hforest : DList.Forest (mgr.setHeader p hdr).links
        ((mgr.setHeader p hdr).slabAlloc alloc).head (oneSlab p .slabs) := hforest
    obtain ⟨mgr', hdelete, hrel, hforest'⟩ := moveSlab_spec .emptySlabs hforest
    rw [← hrel.slab] at hsame
    refine ⟨mgr'.dlPrepend alloc .emptySlabs p, ?_, ?_, hsame⟩
    · rw [if_pos (by omega), hdelete]
      rfl
    · constructor
      · exact hrel.sized h.sized
      · exact hrel.objSz.trans h.objSz
      · rw [hrel.objN]
        exact hroom
      · rw [hrel.slab, slab_setHeader]
        exact hhdr.congr hrel.objN hrel.objSz
      · rw [if_pos hall]
        exact hforest'
  · have hslabs : ((mgr.setHeader p hdr).slabAlloc alloc).slabs = some p :=
      (hforest.list .slabs).head_eq
    refine ⟨mgr.setHeader p hdr, ?_, ?_, hsame⟩
    · rw [if_neg (by omega), hslabs, if_neg (not_not.mpr rfl)]
    · constructor
      · exact h.sized
      · exact h.objSz
      · exact hroom
      · rw [slab_setHeader]
        exact hhdr
      · rw [if_neg hall]
        exact hforest

end Overlaid

/-! ### What lies over the free list -/

/-- The free lists when `bytes` are in the memory of the objects `live`, which have `sz` bytes. -/
def overwrite (mgr : SlabMgr) (live : Finset ℕ) (sz : ℕ) (bytes : ℕ → UInt8) : SlabMgr :=
  { mgr with
    slab := fun p =>
      { mgr.slab p with
        freeList := fun i =>
          if ∃ x ∈ live, x ≤ p + offsetofFreeList + i ∧ p + offsetofFreeList + i < x + sz then
            (bytes (p + offsetofFreeList + i)).toNat
          else
            (mgr.slab p).freeList i } }

theorem Overlaid.overwrite (h : Overlaid mgr alloc p m sz l) {live : Finset ℕ}
    (hlive : ∀ x ∈ live, p + offsetofFreeList + m ≤ x) (bytes : ℕ → UInt8) :
  Overlaid (mgr.overwrite live sz bytes) alloc p m sz l
  := by
  constructor
  · exact h.sized
  · exact h.objSz
  · exact h.room
  · apply h.slab.setFreeList
    intro i hi
    rw [if_neg]
    rintro ⟨x, hx, hle, -⟩
    have hx' := hlive x hx
    omega
  · exact h.forest

end SlabMgr

end TrainsOs
