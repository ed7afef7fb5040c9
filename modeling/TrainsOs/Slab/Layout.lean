import Mathlib.Data.Nat.Find
import TrainsOs.PgMgr.Basic

/-!
# The layout of a slab

The part of `slab.c` that sets up allocators and slabs. A slab is one page: the header
`struct Slab` with the array `free_list` at its end, then some padding, then the objects.
`slab_alloc_init` chooses how many objects there are and a base padding, and
`slab_slab_init` draws a random padding and computes the address of the first object. The
two do not agree on where the padding begins, and `slab_sound_iff` says for which sizes,
alignments and draws the layout is sound nevertheless.
-/

namespace TrainsOs

/-- `sizeof(struct Slab)`. -/
def sizeofSlab : ℕ := 48

/-- `offsetof(struct Slab, free_list)`: the array lies in the tail padding of the header. -/
def offsetofFreeList : ℕ := 44

/-- `SLAB_OBJ_N_MAX`. -/
def slabObjNMax : ℕ := 256

/-- `SLAB_END_PADDING_MIN`. -/
def slabEndPaddingMin : ℕ := 64

/-- `SLABMGR_CAP`. -/
def slabmgrCap : ℕ := 64

/-- `struct Slab` but for its links. The field `alloc` is the index of the allocator, and
`freeList i` is the byte `free_list[i]`. -/
structure Slab where
  magic : List Char
  data : ℕ
  alloc : ℕ
  usedCnt : ℕ
  firstFree : ℤ
  freeList : ℕ → ℕ

/-- `struct SlabAlloc` but for the function that requests a page. -/
structure SlabAlloc where
  objSz : ℕ
  pgSft : ℕ
  objN : ℕ
  paddingBase : ℕ
  paddingAlign : ℕ
  slabs : Option ℕ
  emptySlabs : Option ℕ

/-- `struct SlabMgr` together with the headers of the slabs. A pointer to a slab is the
address of its page. -/
structure SlabMgr where
  slabAlloc : ℕ → SlabAlloc
  slabAllocN : ℕ
  slab : ℕ → Slab
  links : DList.Links ℕ

/-- The address of the `i`-th object of a slab. -/
def Slab.objAddr (slab : Slab) (objSz i : ℕ) : ℕ :=
  slab.data + i * objSz

namespace SlabMgr

/-- `slab_create_allow`. -/
def slabCreateAllow (objSz : ℕ) : Bool :=
  16 ≤ objSz && objSz < pgSz / 2

/-- The padding after the header and `objN` bytes of `free_list`. -/
def basePadding (objAlignSft objN : ℕ) : ℕ :=
  alignUp (sizeofSlab + objN) objAlignSft - (sizeofSlab + objN)

/-- The loop of `slab_alloc_init` from `objN` down: the allocator and the last value of
`obj_n`. The two paddings are stored in fields of 8 bits. -/
def chooseObjN (alloc : SlabAlloc) (objSz objAlign objAlignSft : ℕ) : ℕ → SlabAlloc × ℕ
  | 0 => (alloc, 0)
  | n + 1 =>
      let objN := n + 1
      let padding := basePadding objAlignSft objN
      let totalPadding := pgSz - sizeofSlab - (1 + objSz) * objN
      if padding + slabEndPaddingMin ≤ totalPadding then
        ({ alloc with
            objN := objN
            paddingAlign := objAlign % 2 ^ 8
            paddingBase := padding % 2 ^ 8 }, objN)
      else
        chooseObjN alloc objSz objAlign objAlignSft n

/-- `slab_alloc_init`: the allocator and the value returned. -/
def slabAllocInit (alloc : SlabAlloc) (objSz objAlign : ℕ) : SlabAlloc × Bool :=
  let alloc :=
    { alloc with objSz := objSz, pgSft := pgSft, emptySlabs := none, slabs := none }
  let maxObjN := min ((pgSz - sizeofSlab) / (1 + objSz)) slabObjNMax
  let (alloc, objN) := chooseObjN alloc objSz objAlign (msbPos objAlign) maxObjN
  (alloc, objN ≠ 0)

/-- `slab_create`: the manager afterwards and the index of the new allocator, `none` being
`NULL`. The allocator stays taken when `slab_alloc_init` fails. -/
def slabCreate (mgr : SlabMgr) (objSz objAlign : ℕ) : SlabMgr × Option ℕ :=
  if slabmgrCap ≤ mgr.slabAllocN then
    (mgr, none)
  else if !slabCreateAllow objSz then
    (mgr, none)
  else
    let idx := mgr.slabAllocN
    let (alloc, ok) := slabAllocInit (mgr.slabAlloc idx) objSz objAlign
    ({ mgr with
        slabAlloc := Function.update mgr.slabAlloc idx alloc
        slabAllocN := idx + 1 }, if ok then some idx else none)

/-- The free list of `slab_slab_init`: every entry links to the next one and the last one
to itself. -/
def initFreeList (freeList : ℕ → ℕ) (objN : ℕ) : ℕ → ℕ :=
  let freeList := (List.range (objN - 1)).foldl
    (fun freeList i => Function.update freeList i ((i + 1) % 2 ^ 8)) freeList
  Function.update freeList (objN - 1) ((objN - 1) % 2 ^ 8)

/-- `slab_slab_init`, with the value drawn by `math_rand_u32`. It is `none` when a
division or a remainder by zero is computed. -/
def slabSlabInit (mgr : SlabMgr) (slab : ℕ) (alloc rand : ℕ) : Option SlabMgr :=
  let a := mgr.slabAlloc alloc
  if a.paddingAlign = 0 then
    none
  else if slabEndPaddingMin / a.paddingAlign = 0 then
    none
  else
    let rand := rand % (slabEndPaddingMin / a.paddingAlign)
    let padding := a.paddingBase + rand * a.paddingAlign
    let hdr : Slab :=
      { magic := ['s', 'l', 'a', 'b']
        data := slab + a.objN + padding
        alloc := alloc
        usedCnt := 0
        firstFree := 0
        freeList := initFreeList (mgr.slab slab).freeList a.objN }
    some { mgr with
      slab := Function.update mgr.slab slab hdr
      links := (mgr.links.setPrev slab none).setNext slab none }

/-! ### The number of objects -/

/-- The header, `n` bytes of `free_list`, the padding, `n` objects and the end padding fit
into a page. -/
def Fits (objSz objAlignSft n : ℕ) : Prop :=
  alignUp (sizeofSlab + n) objAlignSft + n * objSz + slabEndPaddingMin ≤ pgSz

instance (objSz objAlignSft : ℕ) : DecidablePred (Fits objSz objAlignSft) :=
  fun _ => inferInstanceAs (Decidable (_ ≤ _))

/-- The greatest number of objects that fit. -/
def capacity (objSz objAlignSft : ℕ) : ℕ :=
  Nat.findGreatest (Fits objSz objAlignSft) slabObjNMax

theorem Fits.anti {objSz sft m n : ℕ} (h : Fits objSz sft n) (hm : m ≤ n) :
  Fits objSz sft m
  := by
  have halign := alignUp_mono (Nat.add_le_add_left hm sizeofSlab) sft
  have hmul := Nat.mul_le_mul_right objSz hm
  rw [Fits] at *
  omega

/-- What fits is found below the bound at which the loop starts. -/
theorem Fits.le_max {objSz sft n : ℕ} (h : Fits objSz sft n) :
  n ≤ (pgSz - sizeofSlab) / (1 + objSz)
  := by
  have hle := le_alignUp (sizeofSlab + n) sft
  rw [Fits] at h
  rw [Nat.le_div_iff_mul_le (by omega), mul_add, mul_one]
  omega

/-- The test of the loop. -/
theorem padding_le_iff (sft : ℕ) {objSz n : ℕ} (h : n ≤ (pgSz - sizeofSlab) / (1 + objSz)) :
  basePadding sft n + slabEndPaddingMin ≤ pgSz - sizeofSlab - (1 + objSz) * n
    ↔ Fits objSz sft n
  := by
  have hle := le_alignUp (sizeofSlab + n) sft
  have hpg : sizeofSlab + slabEndPaddingMin ≤ pgSz := by decide
  rw [Nat.le_div_iff_mul_le (by omega), mul_add, mul_one] at h
  rw [Fits, basePadding, Nat.add_mul, one_mul, Nat.mul_comm objSz n]
  omega

/-- The loop finds the greatest number of objects that fit. -/
theorem chooseObjN_spec (alloc : SlabAlloc) (objAlign sft : ℕ) {objSz n : ℕ}
    (hn : n ≤ (pgSz - sizeofSlab) / (1 + objSz)) :
  (chooseObjN alloc objSz objAlign sft n).2 = Nat.findGreatest (Fits objSz sft) n
    ∧ (0 < Nat.findGreatest (Fits objSz sft) n →
        (chooseObjN alloc objSz objAlign sft n).1 =
          { alloc with
            objN := Nat.findGreatest (Fits objSz sft) n
            paddingAlign := objAlign % 2 ^ 8
            paddingBase := basePadding sft (Nat.findGreatest (Fits objSz sft) n) % 2 ^ 8 })
  := by
  induction n with
  | zero => simp [chooseObjN]
  | succ n ih =>
    have hiff := padding_le_iff sft hn
    by_cases hfit : Fits objSz sft (n + 1)
    · rw [chooseObjN, if_pos (hiff.mpr hfit), Nat.findGreatest_eq hfit]
      simp
    · rw [chooseObjN, if_neg (mt hiff.mp hfit), Nat.findGreatest_of_not hfit]
      apply ih (by omega)

theorem findGreatest_eq_capacity (objSz sft : ℕ) :
  Nat.findGreatest (Fits objSz sft) (min ((pgSz - sizeofSlab) / (1 + objSz)) slabObjNMax)
    = capacity objSz sft
  := by
  rw [capacity, Nat.findGreatest_eq_iff]
  refine ⟨?_, fun hne => Nat.findGreatest_of_ne_zero rfl hne, fun n hn hle hfit => ?_⟩
  · by_cases hzero : Nat.findGreatest (Fits objSz sft) slabObjNMax = 0
    · simp [hzero]
    · apply le_min _ (Nat.findGreatest_le _)
      exact (Nat.findGreatest_of_ne_zero rfl hzero).le_max
  · exact Nat.findGreatest_is_greatest hn (hle.trans (min_le_right _ _)) hfit

/-- When `slab_alloc_init` succeeds, the capacity is positive and stored together with
the two paddings. -/
theorem slabAllocInit_spec {alloc : SlabAlloc} {objSz objAlign : ℕ}
    (h : (slabAllocInit alloc objSz objAlign).2 = true) :
  0 < capacity objSz (msbPos objAlign)
    ∧ (slabAllocInit alloc objSz objAlign).1 =
      { objSz := objSz
        pgSft := pgSft
        objN := capacity objSz (msbPos objAlign)
        paddingBase := basePadding (msbPos objAlign) (capacity objSz (msbPos objAlign)) % 2 ^ 8
        paddingAlign := objAlign % 2 ^ 8
        slabs := none
        emptySlabs := none }
  := by
  have hspec := fun alloc => chooseObjN_spec alloc objAlign (msbPos objAlign)
    (min_le_left ((pgSz - sizeofSlab) / (1 + objSz)) slabObjNMax)
  simp only [findGreatest_eq_capacity] at hspec
  rw [slabAllocInit] at *
  have hpos : 0 < capacity objSz (msbPos objAlign) := by
    rw [← (hspec _).1]
    simpa [Nat.pos_iff_ne_zero] using h
  use hpos
  rw [(hspec _).2 hpos]

/-- What `slab_create` leaves in a new allocator. -/
theorem slabCreate_spec {mgr mgr' : SlabMgr} {objSz objAlign alloc : ℕ}
    (h : mgr.slabCreate objSz objAlign = (mgr', some alloc)) :
  16 ≤ objSz ∧ 0 < capacity objSz (msbPos objAlign)
    ∧ mgr'.slabAlloc alloc =
      { objSz := objSz
        pgSft := pgSft
        objN := capacity objSz (msbPos objAlign)
        paddingBase := basePadding (msbPos objAlign) (capacity objSz (msbPos objAlign)) % 2 ^ 8
        paddingAlign := objAlign % 2 ^ 8
        slabs := none
        emptySlabs := none }
  := by
  rw [slabCreate] at h
  split at h
  · simp at h
  split at h
  · simp at h
  rename_i hallow
  rw [Prod.mk.injEq, Option.ite_none_right_eq_some, Option.some.injEq] at h
  obtain ⟨rfl, hok, rfl⟩ := h
  constructor
  · simp only [slabCreateAllow, Bool.not_eq_true', Bool.not_eq_false, Bool.and_eq_true,
      decide_eq_true_eq] at hallow
    exact hallow.1
  · simpa only [Function.update_self] using slabAllocInit_spec hok

/-! ### Soundness of the layout -/

/-- The objects of a slab lie in its page, after the header and its free list, at
multiples of the alignment. -/
structure LayoutSound (mgr : SlabMgr) (slab : ℕ) (alloc objAlign : ℕ) : Prop where
  afterHeader : ∀ i < (mgr.slabAlloc alloc).objN,
    slab + sizeofSlab ≤ (mgr.slab slab).objAddr (mgr.slabAlloc alloc).objSz i
  afterFreeList : ∀ i < (mgr.slabAlloc alloc).objN,
    slab + offsetofFreeList + (mgr.slabAlloc alloc).objN
      ≤ (mgr.slab slab).objAddr (mgr.slabAlloc alloc).objSz i
  inPage : ∀ i < (mgr.slabAlloc alloc).objN,
    (mgr.slab slab).objAddr (mgr.slabAlloc alloc).objSz (i + 1) ≤ slab + pgSz
  aligned : ∀ i < (mgr.slabAlloc alloc).objN,
    objAlign ∣ (mgr.slab slab).objAddr (mgr.slabAlloc alloc).objSz i

/-- The two 8-bit fields of an allocator hold the values stored into them. -/
def NoTruncation (alloc : SlabAlloc) (objAlign objAlignSft : ℕ) : Prop :=
  alloc.paddingAlign = objAlign ∧ alloc.paddingBase = basePadding objAlignSft alloc.objN

/-- The condition on the size, the alignment `2 ^ a` and the value drawn under which the
layout is sound. The alignment divides `sizeof(struct Slab)`, which `slab_slab_init` does
not add. When it divides the size, there are `min 256 ((2 ^ 20 - 112) / (objSz + 1))`
objects, otherwise there must be only one. The padding has to make up for the header. -/
def SoundDraw (objSz a rand : ℕ) : Prop :=
  a ≤ 4 ∧
    ((2 ^ a ∣ objSz ∧
        max sizeofSlab
            (offsetofFreeList + min slabObjNMax ((pgSz - 112) / (objSz + 1)))
          ≤ alignUp (min slabObjNMax ((pgSz - 112) / (objSz + 1))) a
            + rand % (slabEndPaddingMin / 2 ^ a) * 2 ^ a)
      ∨ (¬ 2 ^ a ∣ objSz ∧ pgSz < alignUp 50 a + 2 * objSz + slabEndPaddingMin
        ∧ sizeofSlab ≤ 2 ^ a + rand % (slabEndPaddingMin / 2 ^ a) * 2 ^ a))

/-- The header is a multiple of the small alignments only. -/
theorem two_pow_dvd_sizeofSlab {a : ℕ} :
  2 ^ a ∣ sizeofSlab ↔ a ≤ 4
  := by
  constructor
  · intro h
    apply (Nat.pow_dvd_pow_iff_le_right (x := 2) (by omega)).mp
    have hodd : Nat.Coprime (2 ^ a) 3 := Nat.Coprime.pow_left a (by decide)
    apply hodd.dvd_of_dvd_mul_right (n := 3)
    exact h
  · intro h
    exact (pow_dvd_pow 2 h).trans (by decide)

/-- After the small alignments `ALIGN_UP` pads the free list alone. -/
theorem add_basePadding {a : ℕ} (ha : a ≤ 4) (n : ℕ) :
  n + basePadding a n = alignUp n a
  := by
  have hle := le_alignUp n a
  rw [basePadding, alignUp_add (two_pow_dvd_sizeofSlab.mpr ha)]
  omega

/-- The random padding stays within the end padding. -/
theorem rand_padding_le {a : ℕ} (ha : a ≤ 6) (rand : ℕ) :
  rand % (slabEndPaddingMin / 2 ^ a) * 2 ^ a + 2 ^ a ≤ slabEndPaddingMin
  := by
  have hdvd : 2 ^ a ∣ slabEndPaddingMin := pow_dvd_pow 2 ha
  have hpos : 0 < slabEndPaddingMin / 2 ^ a :=
    Nat.div_pos (Nat.le_of_dvd (by decide) hdvd) (Nat.two_pow_pos a)
  calc rand % (slabEndPaddingMin / 2 ^ a) * 2 ^ a + 2 ^ a
      = (rand % (slabEndPaddingMin / 2 ^ a) + 1) * 2 ^ a := by ring
    _ ≤ slabEndPaddingMin / 2 ^ a * 2 ^ a :=
      Nat.mul_le_mul_right _ (Nat.mod_lt rand hpos)
    _ = slabEndPaddingMin := Nat.div_mul_cancel hdvd

/-- With a sound divisor `slab_slab_init` puts the first object after the free list, the
base padding and the random padding, counted from the start of the page. -/
theorem slabSlabInit_spec {mgr : SlabMgr} {alloc a : ℕ} (slab rand : ℕ) (ha : a ≤ 6)
    (halign : (mgr.slabAlloc alloc).paddingAlign = 2 ^ a) :
  ∃ mgr', mgr.slabSlabInit slab alloc rand = some mgr' ∧ mgr'.slabAlloc = mgr.slabAlloc
    ∧ (mgr'.slab slab).data = slab + (mgr.slabAlloc alloc).objN
      + ((mgr.slabAlloc alloc).paddingBase
        + rand % (slabEndPaddingMin / 2 ^ a) * 2 ^ a)
  := by
  have hpos := Nat.two_pow_pos a
  have hdiv : 0 < slabEndPaddingMin / 2 ^ a :=
    Nat.div_pos (Nat.le_of_dvd (by decide) (pow_dvd_pow 2 ha)) hpos
  rw [slabSlabInit, halign, if_neg hpos.ne', if_neg hdiv.ne']
  exact ⟨_, rfl, rfl, by dsimp only; rw [Function.update_self]⟩

theorem slabSlabInit_align_le {mgr mgr' : SlabMgr} {slab alloc a rand : ℕ}
    (halign : (mgr.slabAlloc alloc).paddingAlign = 2 ^ a)
    (h : mgr.slabSlabInit slab alloc rand = some mgr') :
  a ≤ 6
  := by
  rw [slabSlabInit, halign, if_neg (Nat.two_pow_pos a).ne'] at h
  split at h
  · simp at h
  rename_i hdiv
  rw [Nat.div_eq_zero_iff_lt (Nat.two_pow_pos a), not_lt] at hdiv
  exact (Nat.pow_le_pow_iff_right (a := 2) (by omega)).mp hdiv

/-- Soundness of a layout in terms of the number of objects and the padding drawn. -/
theorem layoutSound_iff {mgr : SlabMgr} {slab alloc objSz a k : ℕ} (hslab : pgSz ∣ slab)
    (ha : a ≤ 6) (hk : k * 2 ^ a + 2 ^ a ≤ slabEndPaddingMin)
    (hsz : (mgr.slabAlloc alloc).objSz = objSz)
    (hn : (mgr.slabAlloc alloc).objN = capacity objSz a) (hpos : 0 < capacity objSz a)
    (hdata : (mgr.slab slab).data = slab + capacity objSz a
      + (basePadding a (capacity objSz a) + k * 2 ^ a)) :
  LayoutSound mgr slab alloc (2 ^ a) ↔
    a ≤ 4 ∧ (2 ^ a ∣ objSz ∨ capacity objSz a = 1)
      ∧ max sizeofSlab (offsetofFreeList + capacity objSz a)
        ≤ alignUp (capacity objSz a) a + k * 2 ^ a
  := by
  have hdvd : 2 ^ a ∣ slab := dvd_trans (pow_dvd_pow 2 (show a ≤ 20 by omega)) hslab
  have hfits : Fits objSz a (capacity objSz a) := Nat.findGreatest_of_ne_zero rfl hpos.ne'
  generalize capacity objSz a = n at *
  have haddr : ∀ i, (mgr.slab slab).objAddr (mgr.slabAlloc alloc).objSz i =
      slab + (n + basePadding a n + k * 2 ^ a) + i * objSz := by
    intro i
    rw [Slab.objAddr, hsz, hdata]
    ring
  constructor
  · intro h
    have hfirst : 2 ^ a ∣ n + basePadding a n := by
      have := h.aligned 0 (by omega)
      rw [haddr, zero_mul, add_zero, Nat.dvd_add_right hdvd] at this
      exact (Nat.dvd_add_left (dvd_mul_left _ _)).mp this
    have ha : a ≤ 4 := by
      apply two_pow_dvd_sizeofSlab.mp
      apply (Nat.dvd_add_left hfirst).mp
      rw [basePadding, ← add_assoc, Nat.add_sub_cancel' (le_alignUp _ _)]
      apply dvd_alignUp
    use ha
    constructor
    · obtain hone | htwo := Nat.eq_or_lt_of_le hpos
      · right
        omega
      · left
        have := h.aligned 1 (by omega)
        rw [haddr, one_mul] at this
        apply (Nat.dvd_add_right _).mp this
        apply Nat.dvd_add hdvd (Nat.dvd_add hfirst (dvd_mul_left _ _))
    · have hheader := h.afterHeader 0 (by omega)
      have hfree := h.afterFreeList 0 (by omega)
      rw [haddr, add_basePadding ha] at hheader hfree
      rw [hn] at hfree
      apply max_le <;> omega
  · rintro ⟨ha, heven, hle⟩
    rw [add_basePadding ha] at haddr
    rw [max_le_iff] at hle
    have hspace : sizeofSlab + alignUp n a + n * objSz + slabEndPaddingMin ≤ pgSz := by
      rw [Fits, alignUp_add (two_pow_dvd_sizeofSlab.mpr ha)] at hfits
      exact hfits
    constructor
    · intro i _
      rw [haddr]
      omega
    · intro i _
      rw [haddr, hn]
      omega
    · intro i hi
      rw [haddr]
      have := Nat.mul_le_mul_right objSz (show i + 1 ≤ n by omega)
      omega
    · intro i hi
      rw [haddr]
      apply Nat.dvd_add (Nat.dvd_add hdvd (Nat.dvd_add (dvd_alignUp n a) (dvd_mul_left _ _)))
      obtain heven | rfl := heven
      · exact dvd_mul_of_dvd_right heven i
      · obtain rfl : i = 0 := by omega
        rw [zero_mul]
        apply dvd_zero

/-- With a size that is a multiple of the alignment the free list alone is padded, and the
capacity is a quotient. -/
theorem capacity_of_dvd {objSz a : ℕ} (ha : a ≤ 4) (hdvd : 2 ^ a ∣ objSz) :
  capacity objSz a = min slabObjNMax ((pgSz - 112) / (objSz + 1))
  := by
  have hiff : ∀ n, Fits objSz a n ↔ n ≤ (pgSz - 112) / (objSz + 1) := by
    intro n
    rw [Nat.le_div_iff_mul_le (by omega), mul_add, mul_one, Fits,
      alignUp_add (two_pow_dvd_sizeofSlab.mpr ha)]
    have hrest : 2 ^ a ∣ pgSz - 112 - n * objSz := by
      apply Nat.dvd_sub _ (dvd_mul_of_dvd_right hdvd n)
      exact (pow_dvd_pow 2 ha).trans (by decide)
    have := alignUp_le_iff hrest n
    have := le_alignUp n a
    have hpg : sizeofSlab + slabEndPaddingMin = 112 ∧ 112 ≤ pgSz := by decide
    omega
  rw [capacity, Nat.findGreatest_eq_iff]
  refine ⟨min_le_left _ _, fun _ => ?_, fun n hn hle => ?_⟩
  · rw [hiff]
    apply min_le_right
  · rw [hiff]
    omega

/-- A single object fits and a second one does not. -/
theorem capacity_eq_one_iff {objSz a : ℕ} (hpos : 0 < capacity objSz a) :
  capacity objSz a = 1 ↔ pgSz < alignUp 50 a + 2 * objSz + slabEndPaddingMin
  := by
  have htwo : Fits objSz a 2 ↔ 2 ≤ capacity objSz a := by
    constructor
    · apply Nat.le_findGreatest
      decide
    · intro h
      apply Fits.anti _ h
      exact Nat.findGreatest_of_ne_zero rfl (by omega)
  rw [Fits] at htwo
  have hfifty : sizeofSlab + 2 = 50 := rfl
  rw [hfifty] at htwo
  omega

/-- The condition on the inputs, in terms of the capacity. -/
theorem soundDraw_iff {objSz a rand : ℕ} (hpos : 0 < capacity objSz a) :
  SoundDraw objSz a rand ↔
    a ≤ 4 ∧ (2 ^ a ∣ objSz ∨ capacity objSz a = 1)
      ∧ max sizeofSlab (offsetofFreeList + capacity objSz a)
        ≤ alignUp (capacity objSz a) a + rand % (slabEndPaddingMin / 2 ^ a) * 2 ^ a
  := by
  rw [SoundDraw]
  apply and_congr_right
  intro ha
  by_cases hdvd : 2 ^ a ∣ objSz
  · rw [capacity_of_dvd ha hdvd]
    simp [hdvd]
  · rw [← capacity_eq_one_iff hpos]
    simp only [hdvd, not_false_eq_true, true_and, false_and, false_or]
    apply and_congr_right
    intro hone
    have halign : alignUp 1 a = 2 ^ a := by
      apply le_antisymm
      · exact alignUp_le dvd_rfl Nat.one_le_two_pow
      · exact Nat.le_of_dvd (le_alignUp 1 a) (dvd_alignUp 1 a)
    rw [hone, halign, max_eq_left (by decide)]

/-- The 8-bit fields hold the two paddings of a small alignment. -/
theorem noTruncation_of_le {alloc : SlabAlloc} {a : ℕ} (ha : a ≤ 4)
    (halign : alloc.paddingAlign = 2 ^ a % 2 ^ 8)
    (hbase : alloc.paddingBase = basePadding a alloc.objN % 2 ^ 8) :
  NoTruncation alloc (2 ^ a) a
  := by
  have hpow : 2 ^ a ≤ 2 ^ 4 := Nat.pow_le_pow_right (by decide) ha
  have hlt := alignUp_lt (sizeofSlab + alloc.objN) a
  constructor
  · rw [halign, Nat.mod_eq_of_lt]
    omega
  · rw [hbase, Nat.mod_eq_of_lt]
    rw [basePadding]
    omega

/-- For every size and power-of-two alignment that `slab_create` accepts and every value
drawn: the arithmetic is defined and exact and the layout is sound if and only if
`SoundDraw` holds. -/
theorem slab_sound_iff {mgr mgr' : SlabMgr} {objSz a alloc slab : ℕ} (rand : ℕ) (ha : a < 32)
    (hcreate : mgr.slabCreate objSz (2 ^ a) = (mgr', some alloc)) (hslab : pgSz ∣ slab) :
  (NoTruncation (mgr'.slabAlloc alloc) (2 ^ a) a
      ∧ ∃ mgr'', mgr'.slabSlabInit slab alloc rand = some mgr''
        ∧ LayoutSound mgr'' slab alloc (2 ^ a))
    ↔ SoundDraw objSz a rand
  := by
  obtain ⟨-, hpos, halloc⟩ := slabCreate_spec hcreate
  rw [msbPos_two_pow ha] at hpos halloc
  rw [soundDraw_iff hpos]
  have hlayout : ∀ mgr'', a ≤ 6 → NoTruncation (mgr'.slabAlloc alloc) (2 ^ a) a →
      mgr'.slabSlabInit slab alloc rand = some mgr'' →
      (LayoutSound mgr'' slab alloc (2 ^ a) ↔
        a ≤ 4 ∧ (2 ^ a ∣ objSz ∨ capacity objSz a = 1)
          ∧ max sizeofSlab (offsetofFreeList + capacity objSz a)
            ≤ alignUp (capacity objSz a) a
              + rand % (slabEndPaddingMin / 2 ^ a) * 2 ^ a) := by
    intro mgr'' ha6 htrunc hinit
    obtain ⟨_, hinit', hsame, hdata⟩ :=
      slabSlabInit_spec slab rand ha6 htrunc.1
    obtain rfl := Option.some.inj (hinit.symm.trans hinit')
    have hn : (mgr'.slabAlloc alloc).objN = capacity objSz a := by rw [halloc]
    rw [htrunc.2, hn] at hdata
    apply layoutSound_iff hslab ha6 (rand_padding_le ha6 rand) _ _ hpos hdata
    · rw [hsame, halloc]
    · rw [hsame, hn]
  constructor
  · rintro ⟨htrunc, mgr'', hinit, hsound⟩
    have ha6 := slabSlabInit_align_le htrunc.1 hinit
    exact (hlayout mgr'' ha6 htrunc hinit).mp hsound
  · intro hcond
    have htrunc : NoTruncation (mgr'.slabAlloc alloc) (2 ^ a) a := by
      apply noTruncation_of_le hcond.1 <;> rw [halloc]
    have ha6 : a ≤ 6 := hcond.1.trans (by decide)
    obtain ⟨mgr'', hinit, _⟩ := slabSlabInit_spec slab rand ha6 htrunc.1
    exact ⟨htrunc, mgr'', hinit, (hlayout mgr'' ha6 htrunc hinit).mpr hcond⟩

/-- A manager without allocators. -/
def emptySlabMgr : SlabMgr where
  slabAlloc _ := ⟨0, 0, 0, 0, 0, none, none⟩
  slabAllocN := 0
  slab _ := ⟨[], 0, 0, 0, 0, fun _ => 0⟩
  links := ⟨fun _ => none, fun _ => none⟩

theorem slabCreate_emptySlabMgr :
  emptySlabMgr.slabCreate 48 (2 ^ 3) = ((emptySlabMgr.slabCreate 48 (2 ^ 3)).1, some 0)
  := by
  apply Prod.ext
  · rfl
  · decide +kernel

/-- With objects of 48 bytes at multiples of 8, the draw `6` gives a sound slab. -/
theorem slab_sound_iff_draw6 :
  SoundDraw 48 3 6
    ∧ ∃ mgr'', (emptySlabMgr.slabCreate 48 (2 ^ 3)).1.slabSlabInit pgSz 0 6 = some mgr''
      ∧ LayoutSound mgr'' pgSz 0 (2 ^ 3)
  := by
  have hsound : SoundDraw 48 3 6 := by
    rw [SoundDraw]
    decide +kernel
  use hsound
  exact ((slab_sound_iff 6 (by decide) slabCreate_emptySlabMgr dvd_rfl).mpr hsound).2

/-- The first value that `math_rand_u32` returns is `3338197162`. With objects of 48 bytes
at multiples of 8 it puts the first object over the last entries of the free list. -/
theorem slab_not_sound_draw0 :
  ∃ mgr mgr', emptySlabMgr.slabCreate 48 (2 ^ 3) = (mgr, some 0)
    ∧ mgr.slabSlabInit pgSz 0 3338197162 = some mgr' ∧ ¬ LayoutSound mgr' pgSz 0 (2 ^ 3)
  := by
  have heval : ((emptySlabMgr.slabCreate 48 (2 ^ 3)).1.slabSlabInit pgSz 0 3338197162).map
      (fun mgr => ((mgr.slab pgSz).data, (mgr.slabAlloc 0).objN)) = some (pgSz + 272, 256) := by
    decide +kernel
  obtain ⟨mgr', hinit, hmgr'⟩ := Option.map_eq_some_iff.mp heval
  refine ⟨_, mgr', slabCreate_emptySlabMgr, hinit, ?_⟩
  intro hsound
  rw [Prod.mk.injEq] at hmgr'
  have hfree := hsound.afterFreeList 0 (by omega)
  rw [Slab.objAddr, hmgr'.1, hmgr'.2, offsetofFreeList] at hfree
  omega

end SlabMgr

end TrainsOs
