import TrainsOs.PgMgr.Place
import Mathlib.Data.List.Pairwise
import Mathlib.Order.Interval.Set.Disjoint
import Mathlib.Order.CompletePartialOrder

/-!
# The memory of the descriptors

The rounds of `pg_init_pgdsps` cut one descriptor array after the other off the blank
spaces that are not read-only. A blank space only shrinks from below, so that an array is
apart from all that was placed before it, in whatever order the roots and the blank spaces
are chosen.
-/

namespace TrainsOs

/-- The memory of a segment. -/
def PgInitSeg.mem (seg : PgInitSeg) : Set ℕ :=
  Set.Ico seg.startAddr seg.endAddr

/-- The memory of the descriptor array of a root. -/
def PgRoot.array (root : PgRoot) : Set ℕ :=
  Set.Ico root.root (root.root + root.numPages * sizeofPgDsp)

/-- The memory of the manager with its array of roots. -/
def PgMgr.header (mgr : PgMgr) : Set ℕ :=
  Set.Ico mgr.self mgr.headerEnd

/-- The memory that `pg_init_pgdsps` writes, an entry for each round. The first argument
bounds the number of rounds. -/
def PgMgr.pgdspsWrites : ℕ → PgMgr → List PgInitSeg → List (Set ℕ)
  | 0, _, _ => []
  | fuel + 1, mgr, segs =>
      match pgInitPgdspsNextRoot mgr.roots segs with
      | none => []
      | some idx =>
          match pgInitPgdspsAllocRoot mgr.roots segs idx with
          | none => []
          | some (roots, segs) =>
              match roots[idx]? with
              | none => []
              | some root =>
                  root.array
                    :: pgdspsWrites fuel ({ mgr with roots := roots }.writeRoot idx root) segs

/-- The descriptors of a manager whose roots come from the segments. -/
structure PgMgr.Described (mgr : PgMgr) (segs : List PgInitSeg) : Prop where
  roots : mgr.roots.map PgRoot.bounds = (pgInitRootx (pgInitTrimx segs).1).map PgRoot.bounds
  placed : ∀ root ∈ mgr.roots, root.root ≠ 0
  apart : ∀ (i j : ℕ) (root root' : PgRoot), mgr.roots[i]? = some root →
    mgr.roots[j]? = some root' → i ≠ j → Disjoint root.array root'.array
  clear : ∀ root ∈ mgr.roots, Disjoint root.array mgr.header
  inside : ∀ root ∈ mgr.roots, ∃ seg ∈ segs, seg.dspReadOnly = false ∧ root.array ⊆ seg.mem
  pages : ∀ (i : ℕ) (root : PgRoot), mgr.roots[i]? = some root →
    ∀ n < root.numPages, mgr.addr ⟨i, n⟩ = root.startAddr + n * pgSz

/-- What `pg_init_pgdsps` makes of a manager and its blank spaces: it stops, writes no
read-only segment, and describes every root when it succeeds. -/
structure DspsPlaced (segs : List PgInitSeg) (mgr : PgMgr) (blanks : List PgInitSeg) : Prop where
  terminates : ∀ fuel, (mgr.pgdspsWrites fuel blanks).length ≤ 2 * mgr.roots.length
  readOnly : ∀ fuel, ∀ w ∈ mgr.header :: mgr.pgdspsWrites fuel blanks, ∀ seg ∈ segs,
    seg.dspReadOnly = true → Disjoint w seg.mem
  described : ∀ (fuel : ℕ) (mgr' : PgMgr) (blanks' : List PgInitSeg),
    mgr.pgInitPgdsps fuel blanks = some (mgr', blanks') → mgr'.Described segs

/-! ### The memory that may be written -/

/-- The memory lies in a root whose blank space is not read-only. -/
def InWritable (roots : List PgRoot) (blanks : List PgInitSeg) (w : Set ℕ) : Prop :=
  ∃ (i : ℕ) (root : PgRoot) (blank : PgInitSeg), roots[i]? = some root ∧ blanks[i]? = some blank
    ∧ blank.dspReadOnly = false ∧ w ⊆ Set.Ico root.startAddr root.endAddr

/-- Which memory may be written depends on the bounds of the roots and on the flags. -/
theorem InWritable.congr {roots roots' : List PgRoot} {blanks blanks' : List PgInitSeg} {w : Set ℕ}
    (h : InWritable roots' blanks' w)
    (hb : roots'.map PgRoot.bounds = roots.map PgRoot.bounds)
    (hf : blanks'.map PgInitSeg.flag = blanks.map PgInitSeg.flag) :
  InWritable roots blanks w
  := by
  obtain ⟨i, root', blank', hroot', hblank', hro, hw⟩ := h
  obtain ⟨root, hroot, hbounds⟩ := getElem?_of_map_eq hb hroot'
  obtain ⟨blank, hblank, hflag⟩ := getElem?_of_map_eq hf hblank'
  rw [PgRoot.bounds, PgRoot.bounds, Prod.mk.injEq] at hbounds
  use i, root, blank, hroot, hblank
  constructor
  · rw [PgInitSeg.dspReadOnly, hflag]
    exact hro
  · rw [hbounds.1, hbounds.2]
    exact hw

/-- Placing the descriptors of a root writes an array in a blank space that is not
read-only, apart from everything that was taken before. -/
theorem Placing.array_spec {mgr : PgMgr} {blanks blanks' : List PgInitSeg} {roots' : List PgRoot}
    {idx : ℕ} {root' : PgRoot} (h : Placing mgr blanks) (hwf : RootsWf mgr.roots)
    (halloc : pgInitPgdspsAllocRoot mgr.roots blanks idx = some (roots', blanks'))
    (hroot' : roots'[idx]? = some root') :
  InWritable mgr.roots blanks root'.array
    ∧ blanks'.map PgInitSeg.flag = blanks.map PgInitSeg.flag
    ∧ ∀ a b, Taken mgr.roots blanks a b → Disjoint root'.array (Set.Ico a b)
  := by
  obtain ⟨root, best, blank, hroot, hblank, hro, -, hle, rfl, rfl⟩ :=
    pgInitPgdspsAllocRoot_spec halloc
  rw [List.getElem?_set_self (List.getElem?_eq_some_iff.mp hroot).1, Option.some.injEq] at hroot'
  subst hroot'
  obtain ⟨r, hr⟩ : ∃ r, mgr.roots[best]? = some r :=
    ⟨_, List.getElem?_eq_getElem (h.len ▸ (List.getElem?_eq_some_iff.mp hblank).1)⟩
  obtain ⟨hend, hlo, hhi⟩ := h.blank best r blank hr hblank
  rw [PgInitSeg.len] at hle
  refine ⟨⟨best, r, blank, hr, hblank, hro, ?_⟩, ?_, ?_⟩
  · apply Set.Ico_subset_Ico hlo
    show blank.startAddr + root.numPages * sizeofPgDsp ≤ r.endAddr
    omega
  · obtain ⟨hlt, rfl⟩ := List.getElem?_eq_some_iff.mp hblank
    rw [List.map_set, ← List.getElem_map PgInitSeg.flag (h := by simpa using hlt)]
    apply List.set_getElem_self
  · rintro a b ⟨i, r₁, old, hr₁, hold, ha, hb⟩
    apply Set.Ico_disjoint_Ico.mpr
    show min (blank.startAddr + root.numPages * sizeofPgDsp) b ≤ max blank.startAddr a
    rcases Nat.lt_trichotomy i best with hi | rfl | hi
    · have := hwf.disjoint hr₁ hr hi
      have := (h.blank i r₁ old hr₁ hold).end_eq
      have := (h.blank i r₁ old hr₁ hold).le
      omega
    · obtain rfl := Option.some.inj (hblank.symm.trans hold)
      omega
    · have := hwf.disjoint hr hr₁ hi
      omega

/-! ### The rounds -/

/-- The descriptor arrays that are placed already lie apart from each other and from the
manager. -/
structure Carved (mgr : PgMgr) (blanks : List PgInitSeg) : Prop where
  placing : Placing mgr blanks
  rootsWf : RootsWf mgr.roots
  header : Taken mgr.roots blanks mgr.self mgr.headerEnd
  apart : ∀ (i j : ℕ) (root root' : PgRoot), mgr.roots[i]? = some root →
    mgr.roots[j]? = some root' → i ≠ j → root.root ≠ 0 → root'.root ≠ 0 →
    Disjoint root.array root'.array
  clear : ∀ root ∈ mgr.roots, root.root ≠ 0 → Disjoint root.array mgr.header
  writable : ∀ root ∈ mgr.roots, root.root ≠ 0 → InWritable mgr.roots blanks root.array

/-- Placing the descriptors of a root keeps the arrays apart. -/
theorem Carved.allocRoot {mgr : PgMgr} {blanks blanks' : List PgInitSeg} {roots' : List PgRoot}
    {idx : ℕ} {root' : PgRoot} (h : Carved mgr blanks)
    (halloc : pgInitPgdspsAllocRoot mgr.roots blanks idx = some (roots', blanks'))
    (hroot' : roots'[idx]? = some root') :
  Carved ({ mgr with roots := roots' }.writeRoot idx root') blanks'
  := by
  obtain ⟨hplacing, hbounds, htaken⟩ := h.placing.allocRoot halloc hroot'
  obtain ⟨hwritable, hflags, hapart⟩ := h.placing.array_spec h.rootsWf halloc hroot'
  have hother : ∀ i, i ≠ idx → roots'[i]? = mgr.roots[i]? := by
    obtain ⟨-, -, -, -, -, -, -, -, rfl, -⟩ := pgInitPgdspsAllocRoot_spec halloc
    intro i hi
    rw [List.getElem?_set_ne (Ne.symm hi)]
  have hend : ({ mgr with roots := roots' }.writeRoot idx root').headerEnd = mgr.headerEnd := by
    have hlen := congrArg List.length hbounds
    rw [List.length_map, List.length_map] at hlen
    rw [PgMgr.headerEnd, PgMgr.headerEnd, ← hlen]
    rfl
  -- every other root that has its array had it before
  have hmem : ∀ (i : ℕ) (root : PgRoot), roots'[i]? = some root →
      root = root' ∨ root ∈ mgr.roots := by
    intro i root hroot
    by_cases hi : i = idx
    · subst hi
      left
      exact Option.some.inj (hroot.symm.trans hroot')
    · right
      rw [hother i hi] at hroot
      exact List.mem_of_getElem? hroot
  have hnew : ∀ (i : ℕ) (root : PgRoot), i ≠ idx → roots'[i]? = some root → root.root ≠ 0 →
      Disjoint root'.array root.array := by
    intro i root hi hroot hne
    rw [hother i hi] at hroot
    apply hapart
    apply h.placing.dsps i root hroot hne
  constructor
  · exact hplacing
  · exact RootsWf.congr hbounds h.rootsWf
  · rw [hend]
    apply htaken _ _ h.header
  · intro i j root₁ root₂ hi hj hij hne₁ hne₂
    by_cases hi' : i = idx
    · subst hi'
      obtain rfl := Option.some.inj (hi.symm.trans hroot')
      apply hnew j root₂ (Ne.symm hij) hj hne₂
    · by_cases hj' : j = idx
      · subst hj'
        obtain rfl := Option.some.inj (hj.symm.trans hroot')
        apply (hnew i root₁ hij hi hne₁).symm
      · apply h.apart i j root₁ root₂ _ _ hij hne₁ hne₂
        · rw [← hother i hi']
          exact hi
        · rw [← hother j hj']
          exact hj
  · intro root hroot hne
    obtain ⟨i, hi⟩ := List.mem_iff_getElem?.mp hroot
    rw [PgMgr.header, hend]
    obtain rfl | hold := hmem i root hi
    · apply hapart _ _ h.header
    · apply h.clear root hold hne
  · intro root hroot hne
    obtain ⟨i, hi⟩ := List.mem_iff_getElem?.mp hroot
    have hold : InWritable mgr.roots blanks root.array := by
      obtain rfl | hold := hmem i root hi
      · exact hwritable
      · apply h.writable root hold hne
    apply hold.congr hbounds.symm hflags.symm

/-- When every root has its descriptors, the arrays lie apart. -/
theorem Carved.pgInitPgdsps (fuel : ℕ) {mgr mgr' : PgMgr} {blanks blanks' : List PgInitSeg}
    (h : Carved mgr blanks) (hrun : mgr.pgInitPgdsps fuel blanks = some (mgr', blanks')) :
  Carved mgr' blanks' ∧ blanks'.map PgInitSeg.flag = blanks.map PgInitSeg.flag
  := by
  induction fuel generalizing mgr blanks with
  | zero => cases hrun
  | succ fuel ih =>
    rw [PgMgr.pgInitPgdsps] at hrun
    cases hnext : pgInitPgdspsNextRoot mgr.roots blanks with
    | none =>
      rw [hnext] at hrun
      simp only [Option.some.injEq, Prod.mk.injEq] at hrun
      obtain ⟨rfl, rfl⟩ := hrun
      use h
    | some idx =>
      simp only [hnext, Option.bind_eq_bind, Option.bind_eq_some_iff, Prod.exists] at hrun
      obtain ⟨roots₁, blanks₁, halloc, root, hroot, hrun⟩ := hrun
      obtain ⟨h', hflags⟩ := ih (h.allocRoot halloc hroot) hrun
      use h'
      rw [hflags]
      apply (h.placing.array_spec h.rootsWf halloc hroot).2.1

/-- Everything that the rounds write may be written. -/
theorem pgdspsWrites_writable (fuel : ℕ) {mgr : PgMgr} {blanks : List PgInitSeg}
    (h : Placing mgr blanks) (hwf : RootsWf mgr.roots) :
  ∀ w ∈ mgr.pgdspsWrites fuel blanks, InWritable mgr.roots blanks w
  := by
  induction fuel generalizing mgr blanks with
  | zero =>
    intro w hw
    cases hw
  | succ fuel ih =>
    intro w hw
    rw [PgMgr.pgdspsWrites] at hw
    split at hw
    · cases hw
    · split at hw
      · cases hw
      · split at hw
        · cases hw
        · rename_i halloc _ _ hroot
          obtain ⟨hplacing, hbounds, -⟩ := h.allocRoot halloc hroot
          obtain ⟨hwritable, hflags, -⟩ := h.array_spec hwf halloc hroot
          obtain rfl | hw := List.mem_cons.mp hw
          · exact hwritable
          · apply (ih hplacing (RootsWf.congr hbounds hwf) w hw).congr hbounds hflags

theorem pgdspsRounds_le {roots : List PgRoot} {blanks : List PgInitSeg}
    (hlen : blanks.length = roots.length) :
  pgdspsRounds roots blanks ≤ 2 * roots.length
  := by
  have hnull : (roots.countP fun root => root.root = 0) ≤ roots.length := List.countP_le_length
  have hzero : (blanks.countP fun blank => blank.startAddr = 0) ≤ blanks.length :=
    List.countP_le_length
  rw [pgdspsRounds]
  omega

/-- The rounds come to an end. -/
theorem length_pgdspsWrites_le (fuel : ℕ) {mgr : PgMgr} {blanks : List PgInitSeg}
    (hpages : ∀ root ∈ mgr.roots, 0 < root.numPages) :
  (mgr.pgdspsWrites fuel blanks).length ≤ pgdspsRounds mgr.roots blanks
  := by
  induction fuel generalizing mgr blanks with
  | zero => apply Nat.zero_le
  | succ fuel ih =>
    rw [PgMgr.pgdspsWrites]
    split
    · apply Nat.zero_le
    · split
      · apply Nat.zero_le
      · split
        · apply Nat.zero_le
        · rename_i hnext _ _ _ halloc _ _ hroot
          have hlt := pgdspsRounds_lt hpages hnext halloc
          rw [List.length_cons]
          apply lt_of_le_of_lt _ hlt
          apply ih
          apply pgInitPgdspsAllocRoot_numPages (0 < ·) halloc hpages

/-! ### Room for every array -/

theorem allocRootLoop_ne_none (pgidx requireSpace : ℕ) (roots : List PgRoot)
    (segs : List PgInitSeg) (i b bestSpace : ℕ) :
  allocRootLoop pgidx requireSpace roots segs i (some b) bestSpace ≠ none
  := by
  induction roots generalizing segs i b bestSpace with
  | nil => exact Option.some_ne_none b
  | cons root roots ih =>
    cases segs with
    | nil => exact Option.some_ne_none b
    | cons seg segs =>
      rw [allocRootLoop]
      split_ifs <;> apply ih

/-- A blank space is found for a root that fits its own one. -/
theorem allocRootLoop_ne_none_of_room {pgidx requireSpace k i : ℕ} {roots : List PgRoot}
    {segs : List PgInitSeg} {root : PgRoot} {seg : PgInitSeg} (hroot : roots[k]? = some root)
    (hseg : segs[k]? = some seg) (hk : i + k = pgidx) (hro : seg.dspReadOnly = false)
    (hle : requireSpace ≤ seg.len) (hlt : seg.len < uintptrMax) :
  allocRootLoop pgidx requireSpace roots segs i none uintptrMax ≠ none
  := by
  induction roots generalizing segs i k with
  | nil => cases hroot
  | cons root' roots ih =>
    cases segs with
    | nil => cases hseg
    | cons seg' segs =>
      rw [allocRootLoop]
      cases k with
      | zero =>
        obtain rfl : seg' = seg := by simpa using hseg
        rw [if_neg (by simpa using hro), if_neg (by omega), if_neg (by omega), if_pos hlt]
        apply allocRootLoop_ne_none
      | succ k =>
        have hskip := ih hroot hseg (show i + 1 + k = pgidx by omega)
        split_ifs
        · exact hskip
        · exact hskip
        · exact hskip
        · apply allocRootLoop_ne_none
        · exact hskip

/-- Every root without descriptors has room for them in its own blank space. -/
structure Roomy (roots : List PgRoot) (blanks : List PgInitSeg) : Prop where
  len : blanks.length = roots.length
  pages : ∀ root ∈ roots, 0 < root.numPages
  start : ∀ blank ∈ blanks, blank.startAddr ≠ 0
  room : ∀ (i : ℕ) (root : PgRoot) (blank : PgInitSeg), roots[i]? = some root →
    blanks[i]? = some blank → root.root = 0 →
    blank.dspReadOnly = false ∧ root.numPages * sizeofPgDsp ≤ blank.len ∧ blank.len < uintptrMax

/-- The root that is next gets its descriptors, and the other roots keep their room. -/
theorem Roomy.allocRoot {roots : List PgRoot} {blanks : List PgInitSeg} {idx : ℕ}
    (h : Roomy roots blanks) (hnext : pgInitPgdspsNextRoot roots blanks = some idx) :
  ∃ roots' blanks', pgInitPgdspsAllocRoot roots blanks idx = some (roots', blanks')
    ∧ idx < roots'.length ∧ Roomy roots' blanks'
  := by
  obtain hn | ⟨k, root, hroot, rfl, hnull⟩ := nextRootLoop_some hnext
  · cases hn
  rw [Nat.zero_add]
  have hk : k < roots.length := (List.getElem?_eq_some_iff.mp hroot).1
  obtain ⟨blank, hblank⟩ : ∃ blank, blanks[k]? = some blank :=
    ⟨_, List.getElem?_eq_getElem (h.len.symm ▸ hk)⟩
  obtain ⟨hro, hle, hlt⟩ := h.room k root blank hroot hblank hnull
  obtain ⟨best, hbest⟩ := Option.ne_none_iff_exists'.mp
    (allocRootLoop_ne_none_of_room hroot hblank (Nat.zero_add k) hro hle hlt)
  obtain ⟨⟨roots', blanks'⟩, halloc⟩ : ∃ p, pgInitPgdspsAllocRoot roots blanks k = some p := by
    obtain hb | ⟨j, -, seg, -, hseg, rfl, -⟩ := allocRootLoop_spec _ _ hbest
    · cases hb
    · rw [Nat.zero_add] at hbest
      simp only [pgInitPgdspsAllocRoot, allocRootBest, pgInitPgdspsCalcSpaceForRoot, hroot, hbest,
        hseg, Option.bind_eq_bind, Option.bind_some, Option.some.injEq, exists_eq']
  use roots', blanks', halloc
  have hpages := pgInitPgdspsAllocRoot_numPages (0 < ·) halloc h.pages
  obtain ⟨r, best', seg, hr, hseg, -, hopen, -, rfl, rfl⟩ := pgInitPgdspsAllocRoot_spec halloc
  have hstart := h.start seg (List.mem_of_getElem? hseg)
  constructor
  · rw [List.length_set]
    exact hk
  constructor
  · rw [List.length_set, List.length_set, h.len]
  · exact hpages
  · intro b hb
    obtain hb | rfl := List.mem_or_eq_of_mem_set hb
    · apply h.start b hb
    · dsimp only
      omega
  · intro i root' b hroot' hb hnull'
    by_cases hik : i = k
    · subst hik
      rw [List.getElem?_set_self hk, Option.some.injEq] at hroot'
      subst hroot'
      cases hstart hnull'
    · rw [List.getElem?_set_ne (Ne.symm hik)] at hroot'
      -- the blank space is that of the root itself, or of one that has its descriptors
      have hib : best' ≠ i := by
        rintro rfl
        obtain hbk | ⟨r', hr', hne⟩ := hopen
        · exact hik hbk
        · obtain rfl := Option.some.inj (hr'.symm.trans hroot')
          exact hne hnull'
      rw [List.getElem?_set_ne hib] at hb
      apply h.room i root' b hroot' hb hnull'

/-- The descriptors of every root are placed, and the arrays of before stay. -/
theorem Roomy.pgInitPgdsps (fuel : ℕ) (mgr : PgMgr) {blanks : List PgInitSeg}
    (h : Roomy mgr.roots blanks) (hfuel : pgdspsRounds mgr.roots blanks < fuel) :
  ∃ mgr' blanks', mgr.pgInitPgdsps fuel blanks = some (mgr', blanks')
    ∧ ∀ (i : ℕ) (root : PgRoot), mgr.roots[i]? = some root → root.root ≠ 0 →
      mgr'.roots[i]? = some root
  := by
  induction fuel generalizing mgr blanks with
  | zero => omega
  | succ fuel ih =>
    rw [PgMgr.pgInitPgdsps]
    cases hnext : pgInitPgdspsNextRoot mgr.roots blanks with
    | none =>
      use mgr, blanks, rfl
      intro i root hroot _
      exact hroot
    | some idx =>
      obtain ⟨roots', blanks', halloc, hidx, h'⟩ := h.allocRoot hnext
      have hlt := pgdspsRounds_lt h.pages hnext halloc
      obtain ⟨root, hroot⟩ : ∃ root, roots'[idx]? = some root := ⟨_, List.getElem?_eq_getElem hidx⟩
      obtain ⟨mgr', blanks'', hrun, hkeep⟩ :=
        ih ({ mgr with roots := roots' }.writeRoot idx root) h' (by
          show pgdspsRounds roots' blanks' < fuel
          omega)
      use mgr', blanks''
      simp only [halloc, hroot, Option.bind_eq_bind, Option.bind_some]
      use hrun
      intro i r hr hne
      apply hkeep i r _ hne
      obtain hn | ⟨k, root', hroot', rfl, hnull⟩ := nextRootLoop_some hnext
      · cases hn
      obtain ⟨-, -, -, -, -, -, -, -, rfl, -⟩ := pgInitPgdspsAllocRoot_spec halloc
      show (mgr.roots.set (0 + k) _)[i]? = some r
      rw [List.getElem?_set_ne, hr]
      rintro rfl
      rw [Nat.zero_add] at hr
      obtain rfl := Option.some.inj (hr.symm.trans hroot')
      exact hne hnull

/-! ### The segments -/

@[simp]
theorem PgInitSeg.trim_flag (seg : PgInitSeg) :
  seg.trim.flag = seg.flag
  := by
  rw [PgInitSeg.trim]
  split_ifs <;> rfl

/-- The blank space of a root keeps the flag of a segment that contains the root. -/
theorem pgInitBlankspace_flag {self pgmgrSz : ℕ} {roots : List PgRoot}
    {segs blanks : List PgInitSeg} (h : pgInitBlankspace self pgmgrSz roots segs = some blanks) :
  ∀ (i : ℕ) (root : PgRoot) (blank : PgInitSeg), roots[i]? = some root → blanks[i]? = some blank →
    ∃ seg ∈ segs, seg.flag = blank.flag ∧ seg.startAddr ≤ root.startAddr
      ∧ root.endAddr ≤ seg.endAddr
  := by
  induction roots generalizing segs blanks with
  | nil =>
    intro i root blank hroot
    cases hroot
  | cons root roots ih =>
    cases segs with
    | nil => cases h
    | cons seg segs =>
      simp only [pgInitBlankspace, Option.bind_eq_bind, Option.bind_eq_some_iff,
        Option.some.injEq] at h
      obtain ⟨j, hj, found, hfound, rest, hrest, rfl⟩ := h
      intro i root' blank hroot hblank
      cases i with
      | zero =>
        obtain rfl : root = root' := by simpa using hroot
        rw [List.getElem?_cons_zero, Option.some.injEq] at hblank
        subst hblank
        obtain ⟨hlt, hp, -⟩ := List.findIdx?_eq_some_iff_getElem.mp hj
        obtain rfl : (seg :: segs)[j] = found := (List.getElem?_eq_some_iff.mp hfound).2
        rw [Bool.and_eq_true, decide_eq_true_eq, decide_eq_true_eq] at hp
        use (seg :: segs)[j], List.getElem_mem hlt, rfl
      | succ i =>
        obtain ⟨seg', hmem, hflag⟩ := ih hrest i root' blank hroot hblank
        refine ⟨seg', ?_, hflag⟩
        -- the segment that is swapped back is one of the list
        obtain hmem | rfl := List.mem_or_eq_of_mem_set (List.mem_of_mem_tail hmem)
        · exact hmem
        · apply List.mem_cons_self

section Segments

variable {addr₀ : DspPtr → ℕ} {segs blanks : List PgInitSeg} {mgr : PgMgr}

/-- What lies in a segment is apart from a read-only segment, unless the segment itself is
read-only. -/
theorem SegsWf.disjoint_readOnly (h : SegsWf segs) {seg seg' : PgInitSeg} (hseg : seg ∈ segs)
    (hseg' : seg' ∈ segs) (hro : seg.dspReadOnly = false) (hro' : seg'.dspReadOnly = true)
    {w : Set ℕ} (hw : w ⊆ seg.mem) :
  Disjoint w seg'.mem
  := by
  have hpair : segs.Pairwise fun a b => Disjoint a.mem b.mem := by
    apply h.ascending.imp
    intro a b hab
    apply Set.Ico_disjoint_Ico.mpr
    omega
  have hne : seg ≠ seg' := by
    rintro rfl
    rw [hro] at hro'
    cases hro'
  apply Disjoint.mono_left hw
  have : Std.Symm fun a b : PgInitSeg => Disjoint a.mem b.mem := ⟨fun _ _ hd => hd.symm⟩
  apply hpair.forall hseg hseg' hne

/-- A part of a segment after trimming lies in the segment. -/
theorem exists_seg_of_trim {seg : PgInitSeg} (hseg : seg ∈ segs.map PgInitSeg.trim) {a b : ℕ}
    (hlt : seg.startAddr < seg.endAddr) (ha : seg.startAddr ≤ a) (hb : b ≤ seg.endAddr) :
  ∃ seg' ∈ segs, seg'.dspReadOnly = seg.dspReadOnly ∧ Set.Ico a b ⊆ seg'.mem
  := by
  obtain ⟨seg', hmem, rfl⟩ := List.mem_map.mp hseg
  obtain ⟨hstart, hend, -, -⟩ := PgInitSeg.trim_of_lt hlt
  use seg', hmem
  constructor
  · rw [PgInitSeg.dspReadOnly, PgInitSeg.dspReadOnly, PgInitSeg.trim_flag]
  · apply Set.Ico_subset_Ico <;> omega

variable (hheader : pgInitHeader addr₀ segs = some (mgr, blanks))

include hheader

/-- What may be written lies in a segment that is not read-only. -/
theorem InWritable.exists_seg (h : SegsWf segs) {w : Set ℕ}
    (hw : InWritable mgr.roots blanks w) :
  ∃ seg ∈ segs, seg.dspReadOnly = false ∧ w ⊆ seg.mem
  := by
  obtain ⟨hroots, -, -, hblank, -⟩ := pgInitHeader_eq hheader
  obtain ⟨i, root, blank, hi, hblanki, hro, hw⟩ := hw
  obtain ⟨seg, hseg, hflag, hstart, hend⟩ := pgInitBlankspace_flag hblank i root blank hi hblanki
  have hlt := (hroots ▸ h.rootsWf : RootsWf mgr.roots).lt root (List.mem_of_getElem? hi)
  obtain ⟨seg', hseg', hro', hsub⟩ := exists_seg_of_trim hseg (by omega) hstart hend
  use seg', hseg'
  constructor
  · rw [hro', PgInitSeg.dspReadOnly, hflag]
    exact hro
  · apply hw.trans hsub

/-- The manager lies in a segment that is not read-only when its size fits its type. -/
theorem header_exists_seg (hsz : sizeofPgMgr + sizeofPgRoot * mgr.roots.length < 2 ^ 32) :
  ∃ seg ∈ segs, seg.dspReadOnly = false ∧ mgr.header ⊆ seg.mem
  := by
  obtain ⟨-, hself, hmax, -⟩ := pgInitHeader_eq hheader
  have hsz' : pgmgrSz mgr.roots.length = sizeofPgMgr + sizeofPgRoot * mgr.roots.length :=
    Nat.mod_eq_of_lt hsz
  rw [pgInitPgmgrAddr, hsz'] at hself
  obtain heq | ⟨seg, hseg, hro, heq, hle⟩ := pgmgrAddrLoop_spec
    (sizeofPgMgr + sizeofPgRoot * mgr.roots.length) (segs.map PgInitSeg.trim) uintptrMax uintptrMax
  · cases hmax (hself.symm.trans heq)
  · have hstart := le_alignUp seg.startAddr cacheLineSft
    rw [heq] at hself
    rw [hself] at hstart hle
    obtain ⟨seg', hseg', hro', hsub⟩ := exists_seg_of_trim hseg (by
      rw [sizeofPgMgr] at hle
      omega) hstart hle
    use seg', hseg', hro'.trans hro, hsub

/-- Before the first round no array is placed, and the manager lies below the blank space
of its root. -/
theorem pgInitHeader_carved (h : SegsWf segs)
    (hsz : sizeofPgMgr + sizeofPgRoot * mgr.roots.length < 2 ^ 32) :
  Carved mgr blanks
  := by
  have hnull := pgInitHeader_root_eq_zero hheader
  constructor
  · exact pgInitHeader_placing hheader h
  · rw [(pgInitHeader_eq hheader).1]
    exact h.rootsWf
  · apply (pgInitHeader_taken_iff hheader).mpr hsz
  · intro i j root root' hi hj hij hne
    cases hne (hnull root (List.mem_of_getElem? hi))
  · intro root hroot hne
    cases hne (hnull root hroot)
  · intro root hroot hne
    cases hne (hnull root hroot)

/-- When the size of the manager fits its type, the descriptors are placed. -/
theorem pgInitHeader_dspsPlaced (h : SegsWf segs)
    (hsz : sizeofPgMgr + sizeofPgRoot * mgr.roots.length < 2 ^ 32) :
  DspsPlaced segs mgr blanks
  := by
  have hroots := (pgInitHeader_eq hheader).1
  have hwf : RootsWf mgr.roots := hroots ▸ h.rootsWf
  have hplacing := pgInitHeader_placing hheader h
  constructor
  · intro fuel
    apply (length_pgdspsWrites_le fuel fun root hroot => hwf.numPages_pos hroot).trans
    apply pgdspsRounds_le hplacing.len
  · intro fuel w hw seg' hseg' hro'
    obtain ⟨seg, hseg, hro, hsub⟩ : ∃ seg ∈ segs, seg.dspReadOnly = false ∧ w ⊆ seg.mem := by
      obtain rfl | hw := List.mem_cons.mp hw
      · apply header_exists_seg hheader hsz
      · apply InWritable.exists_seg hheader h
        apply pgdspsWrites_writable fuel hplacing hwf w hw
    apply h.disjoint_readOnly hseg hseg' hro hro' hsub
  · intro fuel mgr' blanks' hrun
    obtain ⟨hcarved, hflags⟩ := (pgInitHeader_carved hheader h hsz).pgInitPgdsps fuel hrun
    obtain ⟨-, hnull, hbounds, -, -⟩ := pgInitPgdsps_spec fuel hplacing (by
      intro root hroot
      apply h.numPages_lt
      rw [← hroots]
      exact hroot) hrun
    constructor
    · rw [pgInitTrimx_fst, ← hroots]
      exact hbounds
    · exact hnull
    · intro i j root root' hi hj hij
      apply hcarved.apart i j root root' hi hj hij
      · apply hnull root (List.mem_of_getElem? hi)
      · apply hnull root' (List.mem_of_getElem? hj)
    · intro root hroot
      apply hcarved.clear root hroot (hnull root hroot)
    · intro root hroot
      apply InWritable.exists_seg hheader h
      apply (hcarved.writable root hroot (hnull root hroot)).congr hbounds hflags
    · intro i root hi
      apply hcarved.placing.addr i root hi (hnull root (List.mem_of_getElem? hi))

end Segments

/-- For every list of segments for which `pg_init` reaches the descriptors, these are placed
as they should and the manager with its roots lies below the blank spaces exactly when the
size of the manager fits its type. -/
theorem pgInit_dspsPlaced_iff {addr₀ : DspPtr → ℕ} {segs blanks : List PgInitSeg} {mgr : PgMgr}
    (h : SegsWf segs) (hheader : pgInitHeader addr₀ segs = some (mgr, blanks)) :
  DspsPlaced segs mgr blanks ∧ Taken mgr.roots blanks mgr.self mgr.headerEnd
    ↔ sizeofPgMgr + sizeofPgRoot * mgr.roots.length < 2 ^ 32
  := by
  constructor
  · rintro ⟨-, htaken⟩
    apply (pgInitHeader_taken_iff hheader).mp htaken
  · intro hsz
    use pgInitHeader_dspsPlaced hheader h hsz
    apply (pgInitHeader_taken_iff hheader).mpr hsz

/-- Six pages that may be written, and two that may not. -/
def sharedSegs : List PgInitSeg :=
  [⟨0x100000, 0x700000, 0⟩, ⟨0x700000, 0x900000, 1⟩]

theorem sharedSegs_wf :
  SegsWf sharedSegs
  := by
  constructor
  · rw [sharedSegs, List.pairwise_pair]
  · intro seg hseg
    revert seg
    decide

/-- The descriptors of the pages that may not be written are placed in the other segment. -/
theorem pgInit_dspsPlaced_iff_sharedSegs :
  ∃ mgr blanks, pgInitHeader (fun _ => 0) sharedSegs = some (mgr, blanks)
    ∧ mgr.roots.length = 2 ∧ DspsPlaced sharedSegs mgr blanks
    ∧ Taken mgr.roots blanks mgr.self mgr.headerEnd
  := by
  have h : ((pgInitHeader (fun _ => 0) sharedSegs).any fun p => p.1.roots.length = 2) = true := by
    decide
  obtain ⟨⟨mgr, blanks⟩, hheader, hlen⟩ := (Option.any_eq_true _ _).mp h
  rw [decide_eq_true_eq] at hlen
  use mgr, blanks, hheader, hlen
  apply (pgInit_dspsPlaced_iff sharedSegs_wf hheader).mpr
  dsimp only at hlen
  rw [hlen]
  decide

/-! ### The size of the manager is cut off -/

/-- The keeping of the address of the manager: no later segment is rated lower. -/
theorem pgmgrAddrLoop_keep {pgmgrSz pgmgrAddr rating : ℕ} {segs : List PgInitSeg}
    (hne : pgmgrAddr ≠ 0)
    (h : ∀ seg ∈ segs, rating ≤ seg.endAddr - alignUp seg.startAddr cacheLineSft) :
  pgmgrAddrLoop pgmgrSz segs pgmgrAddr rating = pgmgrAddr
  := by
  induction segs with
  | nil => rfl
  | cons seg segs ih =>
    have hle := h seg List.mem_cons_self
    have ih := ih fun seg' hseg' => h seg' (List.mem_cons_of_mem _ hseg')
    rw [pgmgrAddrLoop]
    dsimp only
    split_ifs
    · exact ih
    · exact ih
    · omega
    · exact ih

/-- The choice of the next root is kept: no later root is smaller. -/
theorem nextRootLoop_keep {roots : List PgRoot} {n score : ℕ}
    (h : ∀ root ∈ roots, score ≤ root.numPages) (segs : List PgInitSeg) (i : ℕ) :
  nextRootLoop roots segs i (some n) score = some n
  := by
  induction roots generalizing segs i with
  | nil => rfl
  | cons root roots ih =>
    have hle := h root List.mem_cons_self
    have ih := ih fun root' hroot' => h root' (List.mem_cons_of_mem _ hroot')
    cases segs with
    | nil => rfl
    | cons seg segs =>
      rw [nextRootLoop, if_neg (Option.some_ne_none n),
        if_neg (show ¬ root.numPages < score by omega)]
      split_ifs <;> apply ih

/-- The root of a segment before its descriptors are placed. -/
def PgInitSeg.root₀ (seg : PgInitSeg) : PgRoot :=
  ⟨0, seg.startAddr, seg.endAddr⟩

/-- The blank spaces are the segments when the manager takes no memory. -/
theorem pgInitBlankspace_root₀ {self pgmgrSz : ℕ} {segs : List PgInitSeg}
    (h : ∀ seg ∈ segs, seg.startAddr ≤ self → self < seg.endAddr →
      self + pgmgrSz = seg.startAddr) :
  pgInitBlankspace self pgmgrSz (segs.map PgInitSeg.root₀) segs = some segs
  := by
  induction segs with
  | nil => rfl
  | cons seg segs ih =>
    have ih := ih fun seg' hseg' => h seg' (List.mem_cons_of_mem _ hseg')
    have hstart : (if seg.startAddr ≤ self ∧ self < seg.endAddr then self + pgmgrSz
        else seg.startAddr) = seg.startAddr := by
      split_ifs with hin
      · apply h seg List.mem_cons_self hin.1 hin.2
      · rfl
    have hidx : ((seg :: segs).findIdx? fun seg' =>
        seg'.startAddr ≤ seg.startAddr && seg.endAddr ≤ seg'.endAddr) = some 0 := by
      rw [List.findIdx?_cons, if_pos (by simp)]
    simp only [List.map_cons, pgInitBlankspace, PgInitSeg.root₀, hidx, hstart,
      List.getElem?_cons_zero, Option.bind_eq_bind, Option.bind_some, List.set_cons_zero,
      List.tail_cons, ih]

/-- A segment of whole pages is not trimmed. -/
theorem PgInitSeg.trim_of_dvd {seg : PgInitSeg} (hlt : seg.startAddr < seg.endAddr)
    (hstart : pgSz ∣ seg.startAddr) (hend : pgSz ∣ seg.endAddr) :
  seg.trim = seg
  := by
  have hup : alignUp seg.startAddr pgSft = seg.startAddr :=
    le_antisymm (alignUp_pgSft_le hstart le_rfl) (le_alignUp _ _)
  rw [PgInitSeg.trim, if_neg (by omega), hup, alignDown_pgSft_of_dvd hend]

/-- Segments of one page each, one after the other from `1 MB` on. -/
def pageSegs (n : ℕ) : List PgInitSeg :=
  (List.range n).map fun i => ⟨(i + 1) * pgSz, (i + 2) * pgSz, 0⟩

section PageSegs

variable {n : ℕ}

theorem mem_pageSegs {seg : PgInitSeg} :
  seg ∈ pageSegs n ↔ ∃ i < n, seg = ⟨(i + 1) * pgSz, (i + 2) * pgSz, 0⟩
  := by
  simp only [pageSegs, List.mem_map, List.mem_range, eq_comm]

theorem pageSegs_succ :
  pageSegs (n + 1) = ⟨pgSz, 2 * pgSz, 0⟩
    :: (List.range n).map fun i => ⟨(i + 2) * pgSz, (i + 3) * pgSz, 0⟩
  := by
  rw [pageSegs, List.range_succ_eq_map, List.map_cons, List.map_map]
  rfl

theorem pageSegs_lt {seg : PgInitSeg} (hseg : seg ∈ pageSegs n) :
  seg.startAddr < seg.endAddr
  := by
  obtain ⟨i, -, rfl⟩ := mem_pageSegs.mp hseg
  apply Nat.mul_lt_mul_of_pos_right (by omega) pgSz_pos

theorem pageSegs_wf (hn : n < 2 ^ 40) :
  SegsWf (pageSegs n)
  := by
  constructor
  · rw [pageSegs, List.pairwise_map]
    apply List.pairwise_lt_range.imp
    intro i j hij
    apply Nat.mul_le_mul_right
    omega
  · intro seg hseg
    obtain ⟨i, hi, rfl⟩ := mem_pageSegs.mp hseg
    rw [uintptrMax, pgSz_eq, pgSft]
    dsimp only
    omega

theorem pageSegs_trim :
  (pageSegs n).map PgInitSeg.trim = pageSegs n
  := by
  rw [List.map_congr_left (g := id), List.map_id]
  intro seg hseg
  have hlt := pageSegs_lt hseg
  obtain ⟨i, -, rfl⟩ := mem_pageSegs.mp hseg
  apply PgInitSeg.trim_of_dvd hlt <;> apply Nat.dvd_mul_left

theorem pgInitRootx_pageSegs :
  pgInitRootx (pageSegs n) = (pageSegs n).map PgInitSeg.root₀
  := by
  rw [pgInitRootx_eq, List.filter_eq_self.mpr]
  · rfl
  · intro seg hseg
    rw [decide_eq_true_eq]
    apply pageSegs_lt hseg

theorem numPages_root₀ {seg : PgInitSeg} (hseg : seg ∈ pageSegs n) :
  seg.root₀.numPages = 1
  := by
  obtain ⟨i, -, rfl⟩ := mem_pageSegs.mp hseg
  rw [PgInitSeg.root₀, PgRoot.numPages]
  dsimp only
  rw [← Nat.sub_mul, Nat.add_sub_add_left, Nat.one_mul]
  rfl

/-- The manager is placed at the start of the first segment. -/
theorem pgInitPgmgrAddr_pageSegs (sz : ℕ) (hsz : sz ≤ pgSz) :
  pgInitPgmgrAddr (pageSegs (n + 1)) sz = pgSz
  := by
  have halign : alignUp pgSz cacheLineSft = pgSz := by decide
  rw [pgInitPgmgrAddr, pageSegs_succ, pgmgrAddrLoop, if_neg (by decide)]
  dsimp only
  rw [halign, if_neg (by omega), if_pos (by
    right
    decide)]
  apply pgmgrAddrLoop_keep (by decide)
  intro seg hseg
  obtain ⟨i, -, rfl⟩ := List.mem_map.mp hseg
  have hdvd : 2 ^ cacheLineSft ∣ (i + 2) * pgSz := Dvd.dvd.mul_left (by decide) _
  have hle := alignUp_le hdvd le_rfl
  have hmul : (i + 3) * pgSz = (i + 2) * pgSz + pgSz := Nat.succ_mul _ _
  dsimp only
  omega

/-- The passes in front of the descriptors, when the size of the manager is cut off to `0`. -/
theorem pgInitHeader_pageSegs (addr₀ : DspPtr → ℕ) (hn : pgmgrSz (n + 1) = 0) :
  ∃ mgr, pgInitHeader addr₀ (pageSegs (n + 1)) = some (mgr, pageSegs (n + 1))
    ∧ mgr.self = pgSz ∧ mgr.roots = (pageSegs (n + 1)).map PgInitSeg.root₀
  := by
  have hlen : ((pageSegs (n + 1)).map PgInitSeg.root₀).length = n + 1 := by
    rw [List.length_map, pageSegs, List.length_map, List.length_range]
  have hblank : pgInitBlankspace pgSz 0 ((pageSegs (n + 1)).map PgInitSeg.root₀)
      (pageSegs (n + 1)) = some (pageSegs (n + 1)) := by
    apply pgInitBlankspace_root₀
    intro seg hseg hle _
    obtain ⟨i, -, rfl⟩ := mem_pageSegs.mp hseg
    dsimp only at hle ⊢
    have := Nat.le_mul_of_pos_left pgSz (show 0 < i + 1 by omega)
    omega
  simp only [pgInitHeader, pgInitTrimx_fst, pageSegs_trim, pgInitRootx_pageSegs, hlen, hn,
    pgInitPgmgrAddr_pageSegs 0 (Nat.zero_le _), hblank, Option.bind_eq_bind, Option.bind_some]
  rw [if_neg (by decide)]
  refine ⟨_, rfl, rfl, rfl⟩

/-- Each page has room for its descriptor. -/
theorem pageSegs_roomy :
  Roomy ((pageSegs n).map PgInitSeg.root₀) (pageSegs n)
  := by
  constructor
  · rw [List.length_map]
  · intro root hroot
    obtain ⟨seg, hseg, rfl⟩ := List.mem_map.mp hroot
    rw [numPages_root₀ hseg]
    decide
  · intro blank hblank
    obtain ⟨i, -, rfl⟩ := mem_pageSegs.mp hblank
    apply Nat.ne_of_gt (Nat.mul_pos (by omega) pgSz_pos)
  · intro i root blank hroot hblank _
    rw [List.getElem?_map, hblank] at hroot
    obtain rfl := Option.some.inj hroot
    have hseg := List.mem_of_getElem? hblank
    rw [numPages_root₀ hseg]
    obtain ⟨k, -, rfl⟩ := mem_pageSegs.mp hseg
    have hmul : (k + 2) * pgSz = (k + 1) * pgSz + pgSz := Nat.succ_mul _ _
    have hlen : (⟨(k + 1) * pgSz, (k + 2) * pgSz, 0⟩ : PgInitSeg).len = pgSz := by
      rw [PgInitSeg.len]
      dsimp only
      omega
    rw [hlen]
    have hro : (⟨(k + 1) * pgSz, (k + 2) * pgSz, 0⟩ : PgInitSeg).dspReadOnly = false := by
      simp [PgInitSeg.dspReadOnly]
    refine ⟨hro, by decide, by decide⟩

/-- The first round chooses the first page. -/
theorem pgInitPgdspsNextRoot_pageSegs :
  pgInitPgdspsNextRoot ((pageSegs (n + 1)).map PgInitSeg.root₀) (pageSegs (n + 1)) = some 0
  := by
  have hpages : ∀ root ∈ (pageSegs (n + 1)).map PgInitSeg.root₀, root.numPages = 1 := by
    intro root hroot
    obtain ⟨seg, hseg, rfl⟩ := List.mem_map.mp hroot
    apply numPages_root₀ hseg
  rw [pageSegs_succ, List.map_cons] at *
  rw [pgInitPgdspsNextRoot, nextRootLoop, if_neg (by decide), if_neg (by decide),
    hpages _ List.mem_cons_self, if_pos (by decide)]
  apply nextRootLoop_keep
  intro root hroot
  rw [hpages root (List.mem_cons_of_mem _ hroot)]

/-- The placement succeeds, and the descriptors of the first page are placed at the start of
the manager. -/
theorem pgInitPgdsps_pageSegs (hn : n < 2 ^ 39) {addr₀ : DspPtr → ℕ} {mgr : PgMgr}
    (hheader : pgInitHeader addr₀ (pageSegs (n + 1)) = some (mgr, pageSegs (n + 1)))
    (hroots : mgr.roots = (pageSegs (n + 1)).map PgInitSeg.root₀) :
  ∃ mgr' blanks',
    mgr.pgInitPgdsps (2 * mgr.roots.length + 1) (pageSegs (n + 1)) = some (mgr', blanks')
    ∧ mgr'.roots[0]? = some ⟨pgSz, pgSz, 2 * pgSz⟩ ∧ mgr'.self = mgr.self
  := by
  have hroomy : Roomy mgr.roots (pageSegs (n + 1)) := hroots ▸ pageSegs_roomy
  have hnext : pgInitPgdspsNextRoot mgr.roots (pageSegs (n + 1)) = some 0 :=
    hroots ▸ pgInitPgdspsNextRoot_pageSegs
  obtain ⟨roots', blanks', halloc, hidx, hroomy'⟩ := hroomy.allocRoot hnext
  have hlt := pgdspsRounds_lt hroomy.pages hnext halloc
  have hle := pgdspsRounds_le hroomy.len
  have hfirst : roots'[0]? = some ⟨pgSz, pgSz, 2 * pgSz⟩ := by
    obtain ⟨root, best, seg, hroot, hseg, -, hopen, -, rfl, -⟩ := pgInitPgdspsAllocRoot_spec halloc
    obtain rfl : best = 0 := by
      obtain hbest | ⟨root', hroot', hne⟩ := hopen
      · exact hbest
      · cases hne (pgInitHeader_root_eq_zero hheader root' (List.mem_of_getElem? hroot'))
    rw [hroots, pageSegs_succ] at hroot
    rw [pageSegs_succ] at hseg
    obtain rfl := Option.some.inj hroot
    obtain rfl := Option.some.inj hseg
    rw [List.length_set] at hidx
    apply List.getElem?_set_self hidx
  obtain ⟨mgr', blanks'', hrun, hkeep⟩ := Roomy.pgInitPgdsps (2 * mgr.roots.length)
    ({ mgr with roots := roots' }.writeRoot 0 ⟨pgSz, pgSz, 2 * pgSz⟩) hroomy' (by
      show pgdspsRounds roots' blanks' < _
      omega)
  have hrun' : mgr.pgInitPgdsps (2 * mgr.roots.length + 1) (pageSegs (n + 1))
      = some (mgr', blanks'') := by
    simp only [PgMgr.pgInitPgdsps, hnext, halloc, hfirst, Option.bind_eq_bind, Option.bind_some]
    exact hrun
  have hwf := pageSegs_wf (n := n + 1) (by omega)
  use mgr', blanks'', hrun', hkeep 0 _ hfirst (by decide)
  apply (pgInitPgdsps_spec _ (pgInitHeader_placing hheader hwf) _ hrun').2.2.2.1
  intro root hroot
  apply hwf.numPages_lt
  rw [← (pgInitHeader_eq hheader).1]
  exact hroot

end PageSegs

/-- With `178956967` segments of one page each, the size of the manager is cut off to `0`.
The descriptors of the first page are placed at the start of the manager. -/
theorem pgInit_not_dspsPlaced_pageSegs :
  SegsWf (pageSegs 178956967)
    ∧ ∃ mgr, pgInitHeader (fun _ => 0) (pageSegs 178956967) = some (mgr, pageSegs 178956967)
      ∧ (∃ mgr' blanks', mgr.pgInitPgdsps (2 * mgr.roots.length + 1) (pageSegs 178956967)
        = some (mgr', blanks') ∧ ∃ root ∈ mgr'.roots, ¬ Disjoint root.array mgr'.header)
      ∧ ¬ DspsPlaced (pageSegs 178956967) mgr (pageSegs 178956967)
  := by
  use pageSegs_wf (by decide)
  obtain ⟨mgr, hheader, hself, hroots⟩ := pgInitHeader_pageSegs (n := 178956966) (fun _ => 0)
    (by decide)
  obtain ⟨mgr', blanks', hrun, hfirst, hself'⟩ := pgInitPgdsps_pageSegs (by decide) hheader hroots
  use mgr, hheader
  have hmem := List.mem_of_getElem? hfirst
  have hinter : ¬ Disjoint (⟨pgSz, pgSz, 2 * pgSz⟩ : PgRoot).array mgr'.header := by
    intro hd
    have hnot := Set.disjoint_left.mp hd
    apply @hnot pgSz
    · rw [PgRoot.array, Set.mem_Ico]
      decide
    · rw [PgMgr.header, PgMgr.headerEnd, hself', hself, sizeofPgMgr, Set.mem_Ico]
      omega
  constructor
  · use mgr', blanks', hrun, ⟨pgSz, pgSz, 2 * pgSz⟩
  · intro h
    apply hinter
    apply (h.described _ _ _ hrun).clear _ hmem

end TrainsOs
