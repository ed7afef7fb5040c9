import TrainsOs.PgMgr.Init
import TrainsOs.PgMgr.Ops

/-!
# Where `pg_init` places the manager and the descriptors

After trimming, the roots are made of whole pages, ascending and disjoint. The manager
and the descriptor arrays are placed in the roots, each below the blank space that is
left in its root, and every root gets its descriptors.
-/

namespace TrainsOs

/-- The input of `pg_init`: segments in ascending order that do not overlap, with
addresses that do not wrap around when they are aligned and the manager is added. -/
structure SegsWf (segs : List PgInitSeg) : Prop where
  ascending : segs.Pairwise fun a b => a.endAddr ≤ b.startAddr
  noWrap : ∀ seg ∈ segs, seg.startAddr + pgSz + 2 ^ 32 ≤ uintptrMax ∧ seg.endAddr ≤ uintptrMax

theorem pgSz_dvd_alignUp (val : ℕ) :
  pgSz ∣ alignUp val pgSft
  := by
  rw [pgSz_eq]
  apply dvd_alignUp

theorem pgSz_dvd_alignDown (val : ℕ) :
  pgSz ∣ alignDown val pgSft
  := by
  rw [pgSz_eq]
  apply dvd_alignDown

theorem alignUp_pgSft_le {a val : ℕ} (ha : pgSz ∣ a) (h : val ≤ a) :
  alignUp val pgSft ≤ a
  := by
  rw [pgSz_eq] at ha
  apply alignUp_le ha h

theorem alignDown_pgSft_of_dvd {a : ℕ} (ha : pgSz ∣ a) :
  alignDown a pgSft = a
  := by
  rw [pgSz_eq] at ha
  apply alignDown_of_dvd ha

/-! ### Trimming -/

/-- The whole pages of a segment. -/
def PgInitSeg.trim (seg : PgInitSeg) : PgInitSeg :=
  if seg.endAddr ≤ seg.startAddr then
    seg
  else
    ⟨alignUp seg.startAddr pgSft, alignDown seg.endAddr pgSft, seg.flag⟩

theorem trimxLoop_fst (segs trims : List PgInitSeg) :
  (trimxLoop segs trims).1 = segs.map PgInitSeg.trim
  := by
  induction segs generalizing trims with
  | nil => rfl
  | cons seg segs ih =>
    rw [trimxLoop, List.map_cons, PgInitSeg.trim]
    split_ifs
    · rw [← ih trims]
    all_goals
      dsimp only
      rw [ih]

theorem pgInitTrimx_fst (segs : List PgInitSeg) :
  (pgInitTrimx segs).1 = segs.map PgInitSeg.trim
  := trimxLoop_fst segs _

/-- A segment that has pages after trimming is made of them. -/
theorem PgInitSeg.trim_of_lt {seg : PgInitSeg} (h : seg.trim.startAddr < seg.trim.endAddr) :
  seg.startAddr ≤ seg.trim.startAddr ∧ seg.trim.endAddr ≤ seg.endAddr
    ∧ pgSz ∣ seg.trim.startAddr ∧ pgSz ∣ seg.trim.endAddr
  := by
  by_cases hle : seg.endAddr ≤ seg.startAddr
  · rw [PgInitSeg.trim, if_pos hle] at h
    omega
  · rw [PgInitSeg.trim, if_neg hle]
    refine ⟨le_alignUp _ _, alignDown_le _ _, pgSz_dvd_alignUp _, pgSz_dvd_alignDown _⟩

theorem pgInitRootx_eq (segs : List PgInitSeg) :
  pgInitRootx segs
    = (segs.filter fun seg => seg.startAddr < seg.endAddr).map
        fun seg => ⟨0, seg.startAddr, seg.endAddr⟩
  := by
  induction segs with
  | nil => rfl
  | cons seg segs ih =>
    rw [pgInitRootx, List.filter_cons]
    by_cases h : seg.endAddr ≤ seg.startAddr
    · rw [if_pos h, if_neg (by simpa using h), ih]
    · rw [if_neg h, if_pos (by simpa using h), ih, List.map_cons]

theorem mem_pgInitRootx {segs : List PgInitSeg} {root : PgRoot} :
  root ∈ pgInitRootx segs
    ↔ ∃ seg ∈ segs, seg.startAddr < seg.endAddr ∧ root = ⟨0, seg.startAddr, seg.endAddr⟩
  := by
  rw [pgInitRootx_eq, List.mem_map]
  constructor
  · rintro ⟨seg, hseg, rfl⟩
    rw [List.mem_filter, decide_eq_true_eq] at hseg
    use seg, hseg.1, hseg.2
  · rintro ⟨seg, hseg, hlt, rfl⟩
    use seg
    rw [List.mem_filter, decide_eq_true_eq]
    use ⟨hseg, hlt⟩

theorem mem_pgInitRootx_root {segs : List PgInitSeg} {root : PgRoot}
    (h : root ∈ pgInitRootx segs) :
  root.root = 0
  := by
  obtain ⟨seg, -, -, rfl⟩ := mem_pgInitRootx.mp h
  rfl

/-- The roots of the trimmed segments are well formed. -/
theorem SegsWf.rootsWf {segs : List PgInitSeg} (h : SegsWf segs) :
  RootsWf (pgInitRootx (segs.map PgInitSeg.trim))
  := by
  have hmem : ∀ root ∈ pgInitRootx (segs.map PgInitSeg.trim),
      root.startAddr < root.endAddr ∧ pgSz ∣ root.startAddr ∧ pgSz ∣ root.endAddr := by
    intro root hroot
    obtain ⟨_, hseg, hlt, rfl⟩ := mem_pgInitRootx.mp hroot
    obtain ⟨seg, -, rfl⟩ := List.mem_map.mp hseg
    obtain ⟨-, -, hs, he⟩ := PgInitSeg.trim_of_lt hlt
    refine ⟨hlt, hs, he⟩
  constructor
  · intro root hroot
    apply (hmem root hroot).1
  · intro root hroot
    apply (hmem root hroot).2.1
  · intro root hroot
    apply (hmem root hroot).2.2
  · rw [pgInitRootx_eq, List.pairwise_map, List.pairwise_filter, List.pairwise_map]
    apply h.ascending.imp
    intro a b hab ha hb
    rw [decide_eq_true_eq] at ha hb
    have := PgInitSeg.trim_of_lt ha
    have := PgInitSeg.trim_of_lt hb
    show a.trim.endAddr ≤ b.trim.startAddr
    omega

/-- The page count of a root is an address. -/
theorem SegsWf.numPages_lt {segs : List PgInitSeg} (h : SegsWf segs) {root : PgRoot}
    (hroot : root ∈ pgInitRootx (segs.map PgInitSeg.trim)) :
  root.numPages < uintptrMax
  := by
  obtain ⟨_, hseg, hlt, rfl⟩ := mem_pgInitRootx.mp hroot
  obtain ⟨seg, hmem, rfl⟩ := List.mem_map.mp hseg
  have hend := (PgInitSeg.trim_of_lt hlt).2.1
  have hmax := (h.noWrap seg hmem).2
  have hdiv : (seg.trim.endAddr - seg.trim.startAddr) / 2 ^ pgSft
      < seg.trim.endAddr - seg.trim.startAddr := by
    apply Nat.div_lt_self (by omega)
    decide
  show (seg.trim.endAddr - seg.trim.startAddr) >>> pgSft < uintptrMax
  rw [Nat.shiftRight_eq_div_pow]
  omega

/-! ### The manager -/

theorem pgmgrAddrLoop_spec (pgmgrSz : ℕ) (segs : List PgInitSeg) (pgmgrAddr rating : ℕ) :
  pgmgrAddrLoop pgmgrSz segs pgmgrAddr rating = pgmgrAddr
    ∨ ∃ seg ∈ segs, seg.dspReadOnly = false
      ∧ pgmgrAddrLoop pgmgrSz segs pgmgrAddr rating = alignUp seg.startAddr cacheLineSft
      ∧ alignUp seg.startAddr cacheLineSft + pgmgrSz ≤ seg.endAddr
  := by
  induction segs generalizing pgmgrAddr rating with
  | nil =>
    left
    rfl
  | cons seg segs ih =>
    have hskip : ∀ a r, pgmgrAddrLoop pgmgrSz (seg :: segs) pgmgrAddr rating
          = pgmgrAddrLoop pgmgrSz segs a r →
        a = pgmgrAddr ∨ (seg.dspReadOnly = false ∧ a = alignUp seg.startAddr cacheLineSft
          ∧ alignUp seg.startAddr cacheLineSft + pgmgrSz ≤ seg.endAddr) →
        pgmgrAddrLoop pgmgrSz (seg :: segs) pgmgrAddr rating = pgmgrAddr
          ∨ ∃ seg' ∈ seg :: segs, seg'.dspReadOnly = false
            ∧ pgmgrAddrLoop pgmgrSz (seg :: segs) pgmgrAddr rating
              = alignUp seg'.startAddr cacheLineSft
            ∧ alignUp seg'.startAddr cacheLineSft + pgmgrSz ≤ seg'.endAddr := by
      intro a r heq ha
      rw [heq]
      obtain h | ⟨seg', hseg', hro, h, hle⟩ := ih a r
      · obtain rfl | ⟨hro, rfl, hle⟩ := ha
        · left
          exact h
        · right
          use seg, List.mem_cons_self, hro, h, hle
      · right
        use seg', List.mem_cons_of_mem _ hseg', hro, h, hle
    by_cases hro : seg.dspReadOnly = true
    · apply hskip pgmgrAddr rating
      · rw [pgmgrAddrLoop, if_pos hro]
      · left
        rfl
    · by_cases hlt : seg.endAddr < alignUp seg.startAddr cacheLineSft + pgmgrSz
      · apply hskip pgmgrAddr rating
        · rw [pgmgrAddrLoop, if_neg hro, if_pos hlt]
        · left
          rfl
      · by_cases hr : pgmgrAddr = 0 ∨ seg.endAddr - alignUp seg.startAddr cacheLineSft < rating
        · apply hskip _ _
          · rw [pgmgrAddrLoop, if_neg hro, if_neg hlt, if_pos hr]
          · right
            refine ⟨by simpa using hro, rfl, by omega⟩
        · apply hskip pgmgrAddr rating
          · rw [pgmgrAddrLoop, if_neg hro, if_neg hlt, if_neg hr]
          · left
            rfl

/-- The blank space of each root after the manager is placed. -/
theorem pgInitBlankspace_spec {self pgmgrSz : ℕ} {roots : List PgRoot}
    {segs blanks : List PgInitSeg}
    (h : pgInitBlankspace self pgmgrSz roots segs = some blanks) :
  blanks.length = roots.length
    ∧ ∀ (i : ℕ) (root : PgRoot) (blank : PgInitSeg),
      roots[i]? = some root → blanks[i]? = some blank →
      blank.endAddr = root.endAddr
      ∧ blank.startAddr = if root.startAddr ≤ self ∧ self < root.endAddr then self + pgmgrSz
          else root.startAddr
  := by
  induction roots generalizing segs blanks with
  | nil =>
    rw [pgInitBlankspace, Option.some.injEq] at h
    subst h
    simp
  | cons root roots ih =>
    cases segs with
    | nil => cases h
    | cons seg segs =>
      simp only [pgInitBlankspace, Option.bind_eq_bind, Option.bind_eq_some_iff,
        Option.some.injEq] at h
      obtain ⟨j, -, found, -, rest, hrest, rfl⟩ := h
      obtain ⟨hlen, hspec⟩ := ih hrest
      constructor
      · rw [List.length_cons, List.length_cons, hlen]
      · intro i root' blank hroot hblank
        cases i with
        | zero =>
          obtain rfl : root = root' := by simpa using hroot
          rw [List.getElem?_cons_zero, Option.some.injEq] at hblank
          subst hblank
          constructor <;> rfl
        | succ i => exact hspec i root' blank hroot hblank

/-! ### The descriptors -/

theorem allocRootLoop_spec (pgidx requireSpace : ℕ) {roots : List PgRoot} {segs : List PgInitSeg}
    {i : ℕ} {best : Option ℕ} {bestSpace b : ℕ}
    (h : allocRootLoop pgidx requireSpace roots segs i best bestSpace = some b) :
  best = some b ∨ ∃ (k : ℕ) (root : PgRoot) (seg : PgInitSeg), roots[k]? = some root
    ∧ segs[k]? = some seg ∧ b = i + k ∧ seg.dspReadOnly = false
    ∧ (b = pgidx ∨ root.root ≠ 0) ∧ requireSpace ≤ seg.len
  := by
  induction roots generalizing segs i best bestSpace with
  | nil =>
    left
    exact h
  | cons root roots ih =>
    cases segs with
    | nil =>
      left
      exact h
    | cons seg segs =>
      have hstep : ∀ best' space', allocRootLoop pgidx requireSpace roots segs (i + 1) best' space'
            = some b →
          best' = best ∨ (best' = some i ∧ seg.dspReadOnly = false
            ∧ (i = pgidx ∨ root.root ≠ 0) ∧ requireSpace ≤ seg.len) →
          best = some b ∨ ∃ (k : ℕ) (root' : PgRoot) (seg' : PgInitSeg),
            (root :: roots)[k]? = some root' ∧ (seg :: segs)[k]? = some seg' ∧ b = i + k
            ∧ seg'.dspReadOnly = false ∧ (b = pgidx ∨ root'.root ≠ 0)
            ∧ requireSpace ≤ seg'.len := by
        intro best' space' hloop hbest
        obtain hb | ⟨k, root', seg', hr, hk, rfl, hro, hle⟩ := ih hloop
        · obtain rfl | ⟨rfl, hro, hle⟩ := hbest
          · left
            exact hb
          · right
            use 0, root, seg
            rw [Option.some.injEq] at hb
            subst hb
            refine ⟨rfl, rfl, rfl, hro, hle⟩
        · right
          use k + 1, root', seg'
          refine ⟨hr, hk, by omega, hro, hle⟩
      rw [allocRootLoop] at h
      split_ifs at h with hro hnull hsmall hspace
      · apply hstep _ _ h
        left
        rfl
      · apply hstep _ _ h
        left
        rfl
      · apply hstep _ _ h
        left
        rfl
      · apply hstep _ _ h
        right
        refine ⟨rfl, by simpa using hro, by omega, by omega⟩
      · apply hstep _ _ h
        left
        rfl

/-- `pg_init_pgdsps_alloc_root` takes the descriptors of a root from the start of a blank
space that is large enough and not read-only. -/
theorem pgInitPgdspsAllocRoot_spec {roots roots' : List PgRoot} {segs segs' : List PgInitSeg}
    {pgidx : ℕ} (h : pgInitPgdspsAllocRoot roots segs pgidx = some (roots', segs')) :
  ∃ (root : PgRoot) (best : ℕ) (seg : PgInitSeg),
    roots[pgidx]? = some root ∧ segs[best]? = some seg ∧ seg.dspReadOnly = false
    ∧ (best = pgidx ∨ ∃ root' : PgRoot, roots[best]? = some root' ∧ root'.root ≠ 0)
    ∧ root.numPages * sizeofPgDsp ≤ seg.len
    ∧ roots' = roots.set pgidx { root with root := seg.startAddr }
    ∧ segs' = segs.set best { seg with startAddr := seg.startAddr + root.numPages * sizeofPgDsp }
  := by
  simp only [pgInitPgdspsAllocRoot, allocRootBest, Option.bind_eq_bind, Option.bind_eq_some_iff,
    Option.some.injEq, Prod.mk.injEq] at h
  obtain ⟨root, hroot, best, hbest, seg, hseg, rfl, rfl⟩ := h
  obtain h | ⟨k, root', seg', hroot', hk, rfl, hro, hopen, hle⟩ := allocRootLoop_spec _ _ hbest
  · cases h
  · rw [Nat.zero_add] at hseg hopen
    obtain rfl := Option.some.inj (hseg.symm.trans hk)
    use root, k, seg, hroot, hseg, hro, hopen.imp_right fun h => ⟨root', hroot', h⟩, hle, rfl
    rw [Nat.zero_add]
    rfl

theorem nextRootLoop_some {roots : List PgRoot} {segs : List PgInitSeg} {i : ℕ} {idx : Option ℕ}
    {score n : ℕ} (h : nextRootLoop roots segs i idx score = some n) :
  idx = some n ∨ ∃ (k : ℕ) (root : PgRoot), roots[k]? = some root ∧ n = i + k ∧ root.root = 0
  := by
  induction roots generalizing segs i idx score with
  | nil =>
    left
    exact h
  | cons root roots ih =>
    cases segs with
    | nil =>
      left
      exact h
    | cons seg segs =>
      have hstep : ∀ idx' score', nextRootLoop roots segs (i + 1) idx' score' = some n →
          idx' = idx ∨ (idx' = some i ∧ root.root = 0) →
          idx = some n ∨ ∃ (k : ℕ) (root' : PgRoot), (root :: roots)[k]? = some root' ∧ n = i + k
            ∧ root'.root = 0 := by
        intro idx' score' hloop hidx
        obtain hn | ⟨k, root', hk, rfl, hnull⟩ := ih hloop
        · obtain rfl | ⟨rfl, hnull⟩ := hidx
          · left
            exact hn
          · right
            use 0, root
            rw [Option.some.injEq] at hn
            refine ⟨rfl, by omega, hnull⟩
        · right
          use k + 1, root'
          refine ⟨hk, by omega, hnull⟩
      rw [nextRootLoop] at h
      split_ifs at h with hnull hro hidx hlt
      · apply hstep _ _ h
        left
        rfl
      · apply hstep _ _ h
        right
        refine ⟨rfl, by omega⟩
      · apply hstep _ _ h
        left
        rfl
      · apply hstep _ _ h
        right
        refine ⟨rfl, by omega⟩
      · apply hstep _ _ h
        left
        rfl

theorem nextRootLoop_ne_none (roots : List PgRoot) (segs : List PgInitSeg) (i n score : ℕ) :
  nextRootLoop roots segs i (some n) score ≠ none
  := by
  induction roots generalizing segs i n score with
  | nil =>
    exact Option.some_ne_none n
  | cons root roots ih =>
    cases segs with
    | nil =>
      exact Option.some_ne_none n
    | cons seg segs =>
      rw [nextRootLoop, if_neg (Option.some_ne_none n)]
      split_ifs <;> apply ih

/-- When no root is chosen, every root has its descriptors. -/
theorem nextRootLoop_none {roots : List PgRoot} {segs : List PgInitSeg} {i : ℕ}
    (hlen : segs.length = roots.length) (hpages : ∀ root ∈ roots, root.numPages < uintptrMax)
    (h : nextRootLoop roots segs i none uintptrMax = none) :
  ∀ root ∈ roots, root.root ≠ 0
  := by
  induction roots generalizing segs i with
  | nil =>
    intro root hroot
    cases hroot
  | cons root roots ih =>
    cases segs with
    | nil => cases hlen
    | cons seg segs =>
      rw [nextRootLoop] at h
      split_ifs at h with hnull hro hidx hlt
      · intro root' hroot'
        obtain rfl | hmem := List.mem_cons.mp hroot'
        · exact hnull
        · apply ih _ _ h _ hmem
          · simpa using hlen
          · intro r hr
            apply hpages r (List.mem_cons_of_mem _ hr)
      · exact absurd h (nextRootLoop_ne_none _ _ _ _ _)
      · cases hidx rfl
      · exact absurd h (nextRootLoop_ne_none _ _ _ _ _)
      · exact absurd (hpages root List.mem_cons_self) hlt

/-- The bounds of a root, which stay when its descriptors are placed. -/
def PgRoot.bounds (root : PgRoot) : ℕ × ℕ :=
  (root.startAddr, root.endAddr)

theorem getElem?_of_map_eq {α β : Type} {f : α → β} {xs ys : List α} (h : xs.map f = ys.map f)
    {i : ℕ} {x : α} (hx : xs[i]? = some x) :
  ∃ y, ys[i]? = some y ∧ f y = f x
  := by
  have hi := congrArg (·[i]?) h
  simp only [List.getElem?_map, hx, Option.map_some] at hi
  apply Option.map_eq_some_iff.mp hi.symm

section Bounds

variable {roots roots' : List PgRoot} (hb : roots'.map PgRoot.bounds = roots.map PgRoot.bounds)

include hb

theorem mem_of_bounds_eq {root' : PgRoot} (h : root' ∈ roots') :
  ∃ root ∈ roots, root.bounds = root'.bounds
  := by
  rw [← List.mem_map, ← hb]
  apply List.mem_map_of_mem h

theorem RootsWf.congr (h : RootsWf roots) :
  RootsWf roots'
  := by
  constructor
  · intro root' hroot'
    obtain ⟨root, hroot, hbounds⟩ := mem_of_bounds_eq hb hroot'
    rw [PgRoot.bounds, PgRoot.bounds, Prod.mk.injEq] at hbounds
    rw [← hbounds.1, ← hbounds.2]
    apply h.lt root hroot
  · intro root' hroot'
    obtain ⟨root, hroot, hbounds⟩ := mem_of_bounds_eq hb hroot'
    rw [PgRoot.bounds, PgRoot.bounds, Prod.mk.injEq] at hbounds
    rw [← hbounds.1]
    apply h.start_dvd root hroot
  · intro root' hroot'
    obtain ⟨root, hroot, hbounds⟩ := mem_of_bounds_eq hb hroot'
    rw [PgRoot.bounds, PgRoot.bounds, Prod.mk.injEq] at hbounds
    rw [← hbounds.2]
    apply h.end_dvd root hroot
  · have hpair : (roots.map PgRoot.bounds).Pairwise fun a b => a.2 ≤ b.1 := by
      rw [List.pairwise_map]
      apply h.ascending
    rw [← hb, List.pairwise_map] at hpair
    exact hpair

end Bounds

/-- The memory `[a, b)` lies in a root, below the blank space that is left in it. -/
def Taken (roots : List PgRoot) (blanks : List PgInitSeg) (a b : ℕ) : Prop :=
  ∃ (i : ℕ) (root : PgRoot) (blank : PgInitSeg), roots[i]? = some root ∧ blanks[i]? = some blank
    ∧ root.startAddr ≤ a ∧ b ≤ blank.startAddr

/-- The blank space is the upper end of the root. -/
structure PgInitSeg.BlankOf (blank : PgInitSeg) (root : PgRoot) : Prop where
  end_eq : blank.endAddr = root.endAddr
  start_le : root.startAddr ≤ blank.startAddr
  le : blank.startAddr ≤ blank.endAddr

/-- The roots and the blank spaces left in them while the descriptors are placed. -/
structure Placing (mgr : PgMgr) (blanks : List PgInitSeg) : Prop where
  len : blanks.length = mgr.roots.length
  blank : ∀ (i : ℕ) (root : PgRoot) (blank : PgInitSeg),
    mgr.roots[i]? = some root → blanks[i]? = some blank → blank.BlankOf root
  addr : ∀ (i : ℕ) (root : PgRoot), mgr.roots[i]? = some root → root.root ≠ 0 →
    ∀ n < root.numPages, mgr.addr ⟨i, n⟩ = root.startAddr + n * pgSz
  dsps : ∀ (i : ℕ) (root : PgRoot), mgr.roots[i]? = some root → root.root ≠ 0 →
    Taken mgr.roots blanks root.root (root.root + root.numPages * sizeofPgDsp)
  heads : ∀ l, mgr.freeLists l = none
  used : ∀ d, mgr.used d = false

/-- Placing the descriptors of a root. -/
theorem Placing.allocRoot {mgr : PgMgr} {blanks blanks' : List PgInitSeg} {roots' : List PgRoot}
    {idx : ℕ} {root' : PgRoot} (h : Placing mgr blanks)
    (halloc : pgInitPgdspsAllocRoot mgr.roots blanks idx = some (roots', blanks'))
    (hroot' : roots'[idx]? = some root') :
  Placing ({ mgr with roots := roots' }.writeRoot idx root') blanks'
    ∧ roots'.map PgRoot.bounds = mgr.roots.map PgRoot.bounds
    ∧ ∀ a b, Taken mgr.roots blanks a b → Taken roots' blanks' a b
  := by
  obtain ⟨root, best, blank, hroot, hblank, -, -, hle, rfl, rfl⟩ :=
    pgInitPgdspsAllocRoot_spec halloc
  generalize hroots' : mgr.roots.set idx { root with root := blank.startAddr } = roots' at *
  generalize hblanks' : blanks.set best { blank with
    startAddr := blank.startAddr + root.numPages * sizeofPgDsp } = blanks' at *
  have hidx : idx < mgr.roots.length := (List.getElem?_eq_some_iff.mp hroot).1
  have hbest : best < blanks.length := (List.getElem?_eq_some_iff.mp hblank).1
  obtain rfl : root' = { root with root := blank.startAddr } := by
    rw [← hroots', List.getElem?_set_self hidx, Option.some.injEq] at hroot'
    exact hroot'.symm
  have hbounds : roots'.map PgRoot.bounds = mgr.roots.map PgRoot.bounds := by
    apply List.ext_getElem?
    intro i
    rw [← hroots', List.getElem?_map, List.getElem?_map, List.getElem?_set]
    by_cases hi : idx = i
    · subst hi
      rw [if_pos rfl, if_pos hidx, hroot]
      rfl
    · rw [if_neg hi]
  -- every blank space starts where it did, or later
  have hgrow : ∀ (i : ℕ) (old : PgInitSeg), blanks[i]? = some old →
      ∃ new, blanks'[i]? = some new ∧ new.endAddr = old.endAddr ∧
        old.startAddr ≤ new.startAddr := by
    intro i old hold
    rw [← hblanks', List.getElem?_set]
    by_cases hi : best = i
    · subst hi
      obtain rfl := Option.some.inj (hblank.symm.trans hold)
      use { blank with startAddr := blank.startAddr + root.numPages * sizeofPgDsp }
      rw [if_pos rfl, if_pos hbest]
      refine ⟨rfl, rfl, Nat.le_add_right _ _⟩
    · use old
      rw [if_neg hi]
      refine ⟨hold, rfl, le_rfl⟩
  have htaken : ∀ a b, Taken mgr.roots blanks a b → Taken roots' blanks' a b := by
    rintro a b ⟨i, r, old, hr, hold, ha, hb⟩
    obtain ⟨r', hr', hbr⟩ := getElem?_of_map_eq hbounds.symm hr
    obtain ⟨new, hnew, -, hstart⟩ := hgrow i old hold
    rw [PgRoot.bounds, PgRoot.bounds, Prod.mk.injEq] at hbr
    refine ⟨i, r', new, hr', hnew, ?_, ?_⟩ <;> omega
  refine ⟨?_, hbounds, htaken⟩
  have hother : ∀ i, i ≠ idx → roots'[i]? = mgr.roots[i]? := by
    intro i hi
    rw [← hroots', List.getElem?_set_ne (Ne.symm hi)]
  constructor
  · rw [← hblanks', List.length_set, h.len]
    show mgr.roots.length = roots'.length
    rw [← hroots', List.length_set]
  · intro i r' new hr' hnew
    obtain ⟨r, hr, hbr⟩ := getElem?_of_map_eq hbounds hr'
    rw [PgRoot.bounds, PgRoot.bounds, Prod.mk.injEq] at hbr
    by_cases hi : best = i
    · subst hi
      obtain ⟨hend, hlo, hhi⟩ := h.blank best r blank hr hblank
      rw [← hblanks', List.getElem?_set_self hbest, Option.some.injEq] at hnew
      rw [PgInitSeg.len] at hle
      subst hnew
      constructor <;> dsimp only <;> omega
    · rw [← hblanks', List.getElem?_set_ne hi] at hnew
      obtain ⟨hend, hlo, hhi⟩ := h.blank i r new hr hnew
      constructor <;> omega
  · intro i r' hr' hnull n hn
    by_cases hi : i = idx
    · subst hi
      obtain rfl := Option.some.inj (hroot'.symm.trans hr')
      have hin : ((⟨i, n⟩ : DspPtr).root == i
          && decide ((⟨i, n⟩ : DspPtr).idx < PgRoot.numPages ⟨blank.startAddr, root.startAddr,
            root.endAddr⟩)) = true := by
        rw [Bool.and_eq_true, beq_iff_eq, decide_eq_true_eq]
        use rfl, hn
      simp only [PgMgr.writeRoot, hin, if_true]
      rw [Nat.shiftLeft_eq, ← pgSz_eq]
    · have hin : ((⟨i, n⟩ : DspPtr).root == idx) = false := by simpa using hi
      simp only [PgMgr.writeRoot, hin, Bool.false_and]
      apply h.addr i r' _ hnull n hn
      rw [← hother i hi]
      exact hr'
  · intro i r' hr' hnull
    by_cases hi : i = idx
    · subst hi
      obtain rfl := Option.some.inj (hroot'.symm.trans hr')
      obtain ⟨r, hr⟩ : ∃ r, mgr.roots[best]? = some r :=
        ⟨_, List.getElem?_eq_getElem (h.len ▸ hbest)⟩
      obtain ⟨r', hr', hbr⟩ := getElem?_of_map_eq hbounds.symm hr
      rw [PgRoot.bounds, PgRoot.bounds, Prod.mk.injEq] at hbr
      have := (h.blank best r blank hr hblank).start_le
      refine ⟨best, r', _, hr', by rw [← hblanks', List.getElem?_set_self hbest], ?_, le_rfl⟩
      dsimp only
      omega
    · apply htaken
      apply h.dsps i r' _ hnull
      rw [← hother i hi]
      exact hr'
  · exact h.heads
  · intro d
    simp only [PgMgr.writeRoot, h.used, ite_self]

/-- Placing the descriptors of a root leaves the number of pages of every root. -/
theorem pgInitPgdspsAllocRoot_numPages {roots roots' : List PgRoot}
    {blanks blanks' : List PgInitSeg} {idx : ℕ} (p : ℕ → Prop)
    (halloc : pgInitPgdspsAllocRoot roots blanks idx = some (roots', blanks'))
    (h : ∀ root ∈ roots, p root.numPages) :
  ∀ root ∈ roots', p root.numPages
  := by
  obtain ⟨r, best, blank, hr, -, -, -, -, rfl, -⟩ := pgInitPgdspsAllocRoot_spec halloc
  intro root hroot
  obtain hroot | rfl := List.mem_or_eq_of_mem_set hroot
  · apply h root hroot
  · apply h r (List.mem_of_getElem? hr)

/-- When the descriptors of every root are placed, every root has been given some. -/
theorem pgInitPgdsps_spec (fuel : ℕ) {mgr mgr' : PgMgr} {blanks blanks' : List PgInitSeg}
    (h : Placing mgr blanks) (hpages : ∀ root ∈ mgr.roots, root.numPages < uintptrMax)
    (hrun : mgr.pgInitPgdsps fuel blanks = some (mgr', blanks')) :
  Placing mgr' blanks' ∧ (∀ root ∈ mgr'.roots, root.root ≠ 0)
    ∧ mgr'.roots.map PgRoot.bounds = mgr.roots.map PgRoot.bounds ∧ mgr'.self = mgr.self
    ∧ ∀ a b, Taken mgr.roots blanks a b → Taken mgr'.roots blanks' a b
  := by
  induction fuel generalizing mgr blanks with
  | zero => cases hrun
  | succ fuel ih =>
    rw [PgMgr.pgInitPgdsps] at hrun
    cases hnext : pgInitPgdspsNextRoot mgr.roots blanks with
    | none =>
      rw [hnext] at hrun
      simp only [Option.some.injEq, Prod.mk.injEq] at hrun
      obtain ⟨rfl, rfl⟩ := hrun
      refine ⟨h, nextRootLoop_none h.len hpages hnext, rfl, rfl, fun _ _ ht => ht⟩
    | some idx =>
      simp only [hnext, Option.bind_eq_bind, Option.bind_eq_some_iff, Prod.exists] at hrun
      obtain ⟨roots₁, blanks₁, halloc, root, hroot, hrun⟩ := hrun
      obtain ⟨h₁, hbounds₁, htaken₁⟩ := h.allocRoot halloc hroot
      obtain ⟨h', hnull, hbounds, hself, htaken⟩ :=
        ih h₁ (pgInitPgdspsAllocRoot_numPages (· < uintptrMax) halloc hpages) hrun
      refine ⟨h', hnull, hbounds.trans hbounds₁, hself, ?_⟩
      intro a b ht
      apply htaken
      apply htaken₁ a b ht

/-- The rounds that `pg_init_pgdsps` still makes: each round gives a root its descriptors,
unless they are placed at address `0`, which can happen once for each blank space. -/
def pgdspsRounds (roots : List PgRoot) (blanks : List PgInitSeg) : ℕ :=
  (roots.countP fun root => root.root = 0) + blanks.countP fun blank => blank.startAddr = 0

theorem countP_set_add {α : Type} (p : α → Bool) {xs : List α} {i : ℕ} {x : α} (y : α)
    (h : xs[i]? = some x) :
  (xs.set i y).countP p + (if p x then 1 else 0) = xs.countP p + if p y then 1 else 0
  := by
  induction xs generalizing i with
  | nil => cases h
  | cons z xs ih =>
    cases i with
    | zero =>
      obtain rfl : z = x := by simpa using h
      rw [List.set_cons_zero, List.countP_cons, List.countP_cons]
      omega
    | succ i =>
      have := ih (by simpa using h)
      rw [List.set_cons_succ, List.countP_cons, List.countP_cons]
      omega

theorem pgdspsRounds_lt {roots roots' : List PgRoot} {blanks blanks' : List PgInitSeg} {idx : ℕ}
    (hpages : ∀ root ∈ roots, 0 < root.numPages)
    (hnext : pgInitPgdspsNextRoot roots blanks = some idx)
    (halloc : pgInitPgdspsAllocRoot roots blanks idx = some (roots', blanks')) :
  pgdspsRounds roots' blanks' < pgdspsRounds roots blanks
  := by
  obtain ⟨root, best, blank, hroot, hblank, -, -, -, rfl, rfl⟩ := pgInitPgdspsAllocRoot_spec halloc
  obtain hn | ⟨k, r, hr, rfl, hnull⟩ := nextRootLoop_some hnext
  · cases hn
  rw [Nat.zero_add] at hroot
  obtain rfl := Option.some.inj (hroot.symm.trans hr)
  have hpos := hpages root (List.mem_of_getElem? hroot)
  have hspace : 0 < root.numPages * sizeofPgDsp := Nat.mul_pos hpos (by decide)
  have h1 := countP_set_add (fun root : PgRoot => decide (root.root = 0))
    { root with root := blank.startAddr } hroot
  have h2 := countP_set_add (fun blank : PgInitSeg => decide (blank.startAddr = 0))
    { blank with startAddr := blank.startAddr + root.numPages * sizeofPgDsp } hblank
  simp only [hnull, decide_true, if_true, decide_eq_true_eq] at h1 h2
  rw [if_neg (show ¬ blank.startAddr + root.numPages * sizeofPgDsp = 0 by omega)] at h2
  rw [pgdspsRounds, pgdspsRounds, Nat.zero_add]
  split_ifs at h1 h2 <;> omega

/-- The bound on the rounds of `pg_init_pgdsps` is not reached. -/
theorem pgInitPgdsps_fuel (fuel k : ℕ) (mgr : PgMgr) (blanks : List PgInitSeg)
    (hpages : ∀ root ∈ mgr.roots, 0 < root.numPages)
    (hfuel : pgdspsRounds mgr.roots blanks < fuel) :
  mgr.pgInitPgdsps (fuel + k) blanks = mgr.pgInitPgdsps fuel blanks
  := by
  induction fuel generalizing mgr blanks with
  | zero => omega
  | succ fuel ih =>
    rw [Nat.add_right_comm, PgMgr.pgInitPgdsps, PgMgr.pgInitPgdsps]
    cases hnext : pgInitPgdspsNextRoot mgr.roots blanks with
    | none => rfl
    | some idx =>
      apply Option.bind_congr
      rintro ⟨roots', blanks'⟩ halloc
      apply Option.bind_congr
      intro root hroot
      have hlt := pgdspsRounds_lt hpages hnext halloc
      apply ih
      · apply pgInitPgdspsAllocRoot_numPages (0 < ·) halloc hpages
      · show pgdspsRounds roots' blanks' < fuel
        omega

/-! ### The placement -/

section Addr

variable {segs : List PgInitSeg} {sz self : ℕ}

/-- The manager does not reach over the end of a root that it starts in. -/
theorem SegsWf.pgmgrAddr_le (h : SegsWf segs)
    (haddr : pgInitPgmgrAddr (segs.map PgInitSeg.trim) sz = self) (hne : self ≠ uintptrMax)
    {root : PgRoot} (hroot : root ∈ pgInitRootx (segs.map PgInitSeg.trim))
    (hin : root.startAddr ≤ self ∧ self < root.endAddr) :
  self + sz ≤ root.endAddr
  := by
  obtain heq | ⟨seg, hseg, -, heq, hle⟩ :=
    pgmgrAddrLoop_spec sz (segs.map PgInitSeg.trim) uintptrMax uintptrMax
  · cases hne (haddr.symm.trans heq)
  rw [← heq.symm.trans haddr] at hin ⊢
  have hstart := le_alignUp seg.startAddr cacheLineSft
  by_cases hsz : sz = 0
  · omega
  · have hmem : ⟨0, seg.startAddr, seg.endAddr⟩ ∈ pgInitRootx (segs.map PgInitSeg.trim) := by
      apply mem_pgInitRootx.mpr
      refine ⟨seg, hseg, by omega, rfl⟩
    obtain ⟨i, hi⟩ := List.mem_iff_getElem?.mp hroot
    obtain ⟨j, hj⟩ := List.mem_iff_getElem?.mp hmem
    obtain rfl := h.rootsWf.unique hi hj hin ⟨hstart, by dsimp only; omega⟩
    obtain rfl := Option.some.inj (hi.symm.trans hj)
    exact hle

/-- The manager starts in a root when it has a size. -/
theorem SegsWf.pgmgrAddr_mem (haddr : pgInitPgmgrAddr (segs.map PgInitSeg.trim) sz = self)
    (hne : self ≠ uintptrMax) (hsz : 0 < sz) :
  ∃ root ∈ pgInitRootx (segs.map PgInitSeg.trim), root.startAddr ≤ self ∧ self < root.endAddr
  := by
  obtain heq | ⟨seg, hseg, -, heq, hle⟩ :=
    pgmgrAddrLoop_spec sz (segs.map PgInitSeg.trim) uintptrMax uintptrMax
  · cases hne (haddr.symm.trans heq)
  have hstart := le_alignUp seg.startAddr cacheLineSft
  rw [← heq.symm.trans haddr]
  refine ⟨⟨0, seg.startAddr, seg.endAddr⟩, ?_, hstart, by dsimp only; omega⟩
  apply mem_pgInitRootx.mpr
  refine ⟨seg, hseg, by omega, rfl⟩

end Addr

/-- `pg_init` up to the descriptors: the manager and the blank spaces of its roots. -/
def pgInitHeader (addr₀ : DspPtr → ℕ) (segs : List PgInitSeg) :
    Option (PgMgr × List PgInitSeg) := do
  let (segs, _) := pgInitTrimx segs
  let roots := pgInitRootx segs
  let pgmgrAddr := pgInitPgmgrAddr segs (pgmgrSz roots.length)
  if pgmgrAddr = uintptrMax then
    none
  else
    let segs ← pgInitBlankspace pgmgrAddr (pgmgrSz roots.length) roots segs
    let mgr : PgMgr := {
      self := pgmgrAddr
      freeLists := fun _ => none
      roots := roots
      addr := addr₀
      links := ⟨fun _ => none, fun _ => none⟩
      used := fun _ => false
      lvl := fun _ => 0 }
    some (mgr, segs)

theorem pgInitPlace_eq (addr₀ : DspPtr → ℕ) (segs : List PgInitSeg) :
  pgInitPlace addr₀ segs
    = (pgInitHeader addr₀ segs).bind fun p => p.1.pgInitPgdsps (2 * p.1.roots.length + 1) p.2
  := by
  simp only [pgInitPlace, pgInitHeader, Option.bind_eq_bind]
  split_ifs
  · rfl
  · rw [Option.bind_assoc]
    rfl

/-- The end of the manager with its array of roots. -/
def PgMgr.headerEnd (mgr : PgMgr) : ℕ :=
  mgr.self + (sizeofPgMgr + sizeofPgRoot * mgr.roots.length)

section Header

variable {addr₀ : DspPtr → ℕ} {segs blanks : List PgInitSeg} {mgr : PgMgr}
  (hheader : pgInitHeader addr₀ segs = some (mgr, blanks))

include hheader

/-- Where the passes in front of the descriptors have put the manager and the blank spaces. -/
theorem pgInitHeader_eq :
  mgr.roots = pgInitRootx (segs.map PgInitSeg.trim)
    ∧ pgInitPgmgrAddr (segs.map PgInitSeg.trim) (pgmgrSz mgr.roots.length) = mgr.self
    ∧ mgr.self ≠ uintptrMax
    ∧ pgInitBlankspace mgr.self (pgmgrSz mgr.roots.length) mgr.roots (segs.map PgInitSeg.trim)
      = some blanks
    ∧ (∀ l, mgr.freeLists l = none) ∧ ∀ d, mgr.used d = false
  := by
  simp only [pgInitHeader, pgInitTrimx_fst] at hheader
  split_ifs at hheader with hmax
  simp only [Option.bind_eq_bind, Option.bind_eq_some_iff, Option.some.injEq,
    Prod.mk.injEq] at hheader
  obtain ⟨_, hblank, rfl, rfl⟩ := hheader
  use rfl, rfl, hmax, hblank, fun _ => rfl, fun _ => rfl

theorem pgInitHeader_root_eq_zero :
  ∀ root ∈ mgr.roots, root.root = 0
  := by
  intro root hroot
  apply mem_pgInitRootx_root
  rw [← (pgInitHeader_eq hheader).1]
  exact hroot

/-- No root has descriptors, and the blank space of each root is its upper end. -/
theorem pgInitHeader_placing (h : SegsWf segs) :
  Placing mgr blanks
  := by
  obtain ⟨hroots, hself, hmax, hblank, hheads, hused⟩ := pgInitHeader_eq hheader
  obtain ⟨hlen, hspec⟩ := pgInitBlankspace_spec hblank
  have hnull := pgInitHeader_root_eq_zero hheader
  constructor
  · exact hlen
  · intro i root blank hroot hblank
    have hmem := List.mem_of_getElem? hroot
    rw [hroots] at hmem
    obtain ⟨hend, hstart⟩ := hspec i root blank hroot hblank
    have hlt := h.rootsWf.lt root hmem
    split_ifs at hstart with hin
    · have := h.pgmgrAddr_le hself hmax hmem hin
      constructor <;> omega
    · constructor <;> omega
  · intro i root hroot hne
    cases hne (hnull root (List.mem_of_getElem? hroot))
  · intro i root hroot hne
    cases hne (hnull root (List.mem_of_getElem? hroot))
  · exact hheads
  · exact hused

/-- The manager with its roots lies below the blank space exactly when its size fits its
type. -/
theorem pgInitHeader_taken_iff :
  Taken mgr.roots blanks mgr.self mgr.headerEnd
    ↔ sizeofPgMgr + sizeofPgRoot * mgr.roots.length < 2 ^ 32
  := by
  obtain ⟨hroots, hself, hmax, hblank, -, -⟩ := pgInitHeader_eq hheader
  obtain ⟨hlen, hspec⟩ := pgInitBlankspace_spec hblank
  constructor
  · rintro ⟨i, root, blank, hi, hblanki, hlo, hhi⟩
    have hreal : 0 < sizeofPgMgr + sizeofPgRoot * mgr.roots.length := by
      rw [sizeofPgMgr]
      omega
    obtain ⟨-, hstart⟩ := hspec i root blank hi hblanki
    rw [hstart, PgMgr.headerEnd] at hhi
    split_ifs at hhi with hin
    · apply lt_of_le_of_lt (Nat.le_of_add_le_add_left hhi)
      apply Nat.mod_lt _ (by decide)
    · omega
  · intro hsz
    have hsz' : pgmgrSz mgr.roots.length = sizeofPgMgr + sizeofPgRoot * mgr.roots.length :=
      Nat.mod_eq_of_lt hsz
    obtain ⟨root, hmem, hin⟩ := SegsWf.pgmgrAddr_mem hself hmax (by
      rw [hsz', sizeofPgMgr]
      omega)
    rw [← hroots] at hmem
    obtain ⟨i, hi⟩ := List.mem_iff_getElem?.mp hmem
    obtain ⟨hilt, -⟩ := List.getElem?_eq_some_iff.mp hi
    obtain ⟨blank, hblanki⟩ : ∃ blank, blanks[i]? = some blank :=
      ⟨_, List.getElem?_eq_getElem (hlen ▸ hilt)⟩
    obtain ⟨-, hstart⟩ := hspec i root blank hi hblanki
    rw [if_pos hin, hsz'] at hstart
    use i, root, blank, hi, hblanki, hin.1
    rw [hstart]
    rfl

end Header

/-- What `pg_init` has done before it seeds the free lists: every root has its
descriptors, and the descriptor arrays and the manager, when its size fits its type, lie
below the blank spaces. -/
theorem pgInitPlace_spec {addr₀ : DspPtr → ℕ} {segs blanks : List PgInitSeg} {mgr : PgMgr}
    (h : SegsWf segs) (hplace : pgInitPlace addr₀ segs = some (mgr, blanks)) :
  Placing mgr blanks ∧ RootsWf mgr.roots ∧ (∀ root ∈ mgr.roots, root.root ≠ 0)
    ∧ (sizeofPgMgr + sizeofPgRoot * mgr.roots.length < 2 ^ 32 → Taken mgr.roots blanks mgr.self
        (mgr.self + (sizeofPgMgr + sizeofPgRoot * mgr.roots.length)))
  := by
  rw [pgInitPlace_eq] at hplace
  obtain ⟨⟨mgr₀, blanks₀⟩, hheader, hrun⟩ := Option.bind_eq_some_iff.mp hplace
  have hroots := (pgInitHeader_eq hheader).1
  obtain ⟨hplacing, hnull, hbounds, hself, htaken⟩ :=
    pgInitPgdsps_spec _ (pgInitHeader_placing hheader h) (by
      intro root hroot
      apply h.numPages_lt
      rw [← hroots]
      exact hroot) hrun
  have hlength : mgr.roots.length = mgr₀.roots.length := by
    have := congrArg List.length hbounds
    simpa using this
  refine ⟨hplacing, RootsWf.congr hbounds (hroots ▸ h.rootsWf), hnull, ?_⟩
  intro hsz
  rw [hlength] at hsz ⊢
  rw [hself]
  apply htaken
  apply (pgInitHeader_taken_iff hheader).mpr hsz

end TrainsOs
