import TrainsOs.PgMgr.Place

/-!
# Seeding the free lists

`pg_init_free_lists_add_range` cuts a range of pages of a root into blocks that are
aligned to their own size and appends them to the free lists. `pg_init_free_lists` does
this for the blank space of every root, except that it takes the whole root when no page
starts at the aligned start of the blank space.
-/

namespace TrainsOs

/-! ### Levels -/

theorem addrMaxlvlLoop_le (addr n : ℕ) :
  addrMaxlvlLoop addr n ≤ n
  := by
  induction n with
  | zero => exact le_rfl
  | succ n ih =>
    rw [addrMaxlvlLoop]
    split_ifs
    · exact le_rfl
    · exact ih.trans (Nat.le_succ n)

theorem addrMaxlvlLoop_dvd {addr : ℕ} (h : 2 ^ pgSft ∣ addr) (n : ℕ) :
  2 ^ (pgSft + addrMaxlvlLoop addr n) ∣ addr
  := by
  induction n with
  | zero => exact h
  | succ n ih =>
    rw [addrMaxlvlLoop]
    split_ifs with hand
    · rw [Nat.one_shiftLeft, Nat.and_two_pow_sub_one_eq_mod] at hand
      rw [Nat.add_comm]
      apply Nat.dvd_of_mod_eq_zero hand
    · exact ih

theorem pagecntMaxlvlLoop_le {numPages : ℕ} (h : 0 < numPages) (n : ℕ) :
  2 ^ pagecntMaxlvlLoop numPages n ≤ numPages
  := by
  induction n with
  | zero => exact h
  | succ n ih =>
    rw [pagecntMaxlvlLoop]
    split_ifs with hand
    · rw [Nat.one_shiftLeft, Nat.and_two_pow] at hand
      apply Nat.ge_two_pow_of_testBit
      by_contra hbit
      rw [Bool.not_eq_true] at hbit
      rw [hbit] at hand
      simp at hand
    · exact ih

namespace PgMgr

/-! ### A range of pages -/

/-- The pages `[s, e)` of a root. -/
def inRange (root s e : ℕ) (d : DspPtr) : Prop :=
  d.root = root ∧ s ≤ d.idx ∧ d.idx < e

/-- Counting the pages of a range once. -/
def rangeCover (root s e : ℕ) (d : DspPtr) : ℕ :=
  if d.root = root ∧ s ≤ d.idx ∧ d.idx < e then 1 else 0

theorem rangeCover_append {root s m e : ℕ} (hs : s ≤ m) (he : m ≤ e) (d : DspPtr) :
  rangeCover root s m d + rangeCover root m e d = rangeCover root s e d
  := by
  simp only [rangeCover]
  split_ifs <;> omega

theorem cover_eq_rangeCover (root s l : ℕ) (d : DspPtr) :
  cover [(⟨root, s⟩, l)] d = rangeCover root s (s + 2 ^ l) d
  := by
  rw [cover_singleton, rangeCover]
  simp only [eq_comm]

/-- Appending a placed block whose pages are on no free list. -/
theorem Inv.append {mgr : PgMgr} {fl : ℕ → List DspPtr} (h : mgr.Inv fl []) {d : DspPtr} {l : ℕ}
    (hd : Placed mgr.roots (d, l))
    (hfree : ∀ e, covers e (d, l) = true → cover (freeBlocks fl) e = 0) :
  ∃ links heads fl', mgr.dlAppend l d = some { mgr with links := links, freeLists := heads }
    ∧ Inv { mgr with links := links, freeLists := heads } fl' []
    ∧ ∀ e, cover (freeBlocks fl') e = cover (freeBlocks fl) e + cover [(d, l)] e
  := by
  have hl : l ≤ pgmgrMaxlvl := by
    obtain ⟨-, -, -, -, hl⟩ := hd
    exact hl
  have hapart : Apart ((d, l) :: freeBlocks fl) := by
    intro e
    have h1 := h.apart e
    rw [List.nil_append] at h1
    rw [cover_cons]
    by_cases he : covers e (d, l) = true
    · rw [hfree e he, cover_singleton]
      split_ifs <;> omega
    · rw [cover_singleton, if_neg (by rwa [covers_iff] at he)]
      omega
  obtain ⟨links, heads, happ, hf⟩ :=
    dlAppend_spec mgr h.forest l (not_mem_fl h.high hapart (covers_self (d, l)))
  have hperm := freeBlocks_append fl hl d
  have hcover : ∀ e, cover (freeBlocks (Function.update fl l (fl l ++ [d]))) e
      = cover (freeBlocks fl) e + cover [(d, l)] e := by
    intro e
    rw [cover_perm hperm, cover_cons, Nat.add_comm]
  use links, heads, Function.update fl l (fl l ++ [d]), happ
  refine ⟨⟨h.roots, h.addr, hf, ?_, ?_, ?_, ?_⟩, hcover⟩
  · intro k hk
    rw [Function.update_of_ne (by omega)]
    apply h.high k hk
  · intro b hb
    rcases List.mem_cons.mp (hperm.mem_iff.mp hb) with rfl | hb
    · exact hd
    · apply h.placed b hb
  · apply hapart.perm hperm.symm
  · intro b hb
    cases hb

section Range

variable {seg : PgRoot} {root : ℕ} {links : DList.Links DspPtr} {heads : ℕ → Option DspPtr}

/-- The block that starts at a page and has at most the level of its address is placed
when it ends inside the root. -/
theorem Inv.placed_of_le {mgr : PgMgr} {fl : ℕ → List DspPtr} (h : mgr.Inv fl [])
    (hseg : mgr.roots[root]? = some seg) {s l : ℕ} (hs : s + 2 ^ l ≤ seg.numPages)
    (hl : l ≤ pgAddrMaxlvl (mgr.addr ⟨root, s⟩)) :
  Placed mgr.roots (⟨root, s⟩, l)
  := by
  have hpos := Nat.two_pow_pos l
  have hle : l ≤ pgmgrMaxlvl := hl.trans (addrMaxlvlLoop_le _ _)
  have haddr := h.addr ⟨root, s⟩ seg hseg (show s < seg.numPages by omega)
  have hdvd : 2 ^ pgSft ∣ mgr.addr ⟨root, s⟩ := by
    rw [haddr, ← pgSz_eq]
    apply Nat.dvd_add (h.roots.start_dvd seg (List.mem_of_getElem? hseg)) (dvd_mul_left _ _)
  use seg, hseg, hs
  refine ⟨?_, hle⟩
  show 2 ^ (pgSft + l) ∣ seg.startAddr + s * pgSz
  rw [← haddr]
  apply dvd_trans _ (addrMaxlvlLoop_dvd hdvd pgmgrMaxlvl)
  apply pow_dvd_pow
  apply Nat.add_le_add_left hl

/-- Appending the block of level `l` at page `s` of a range whose pages are on no free
list. -/
theorem Inv.appendRange {mgr : PgMgr} {fl : ℕ → List DspPtr} (h : mgr.Inv fl [])
    (hseg : mgr.roots[root]? = some seg) {s e l : ℕ} (hs : s + 2 ^ l ≤ e) (he : e ≤ seg.numPages)
    (hl : l ≤ pgAddrMaxlvl (mgr.addr ⟨root, s⟩))
    (hfree : ∀ d, inRange root s e d → cover (freeBlocks fl) d = 0) :
  ∃ links heads fl', mgr.dlAppend l ⟨root, s⟩ = some { mgr with links := links, freeLists := heads }
    ∧ Inv { mgr with links := links, freeLists := heads } fl' []
    ∧ (∀ d, cover (freeBlocks fl') d = cover (freeBlocks fl) d + rangeCover root s (s + 2 ^ l) d)
    ∧ ∀ d, inRange root (s + 2 ^ l) e d → cover (freeBlocks fl') d = 0
  := by
  have hplaced := h.placed_of_le hseg (hs.trans he) hl
  obtain ⟨links, heads, fl', happ, hinv, hcover⟩ := h.append hplaced (by
    intro d hd
    rw [covers_iff] at hd
    apply hfree
    obtain ⟨hr, hlo, hhi⟩ := hd
    refine ⟨hr.symm, hlo, hhi.trans_le hs⟩)
  have hcover' : ∀ d, cover (freeBlocks fl') d
      = cover (freeBlocks fl) d + rangeCover root s (s + 2 ^ l) d := by
    intro d
    rw [hcover, cover_eq_rangeCover]
  use links, heads, fl', happ, hinv, hcover'
  have hpos := Nat.two_pow_pos l
  rintro d ⟨hr, hlo, hhi⟩
  rw [hcover', hfree d ⟨hr, by omega, hhi⟩, rangeCover, if_neg]
  rintro ⟨-, -, hlt⟩
  omega

/-- The first loop seeds the pages up to some page of the range. -/
theorem addRangeUp_spec {e : ℕ} (fuel : ℕ) {mgr : PgMgr} {fl : ℕ → List DspPtr} {s : ℕ}
    (h : mgr.Inv fl []) (hseg : mgr.roots[root]? = some seg) (hs : s ≤ e) (he : e ≤ seg.numPages)
    (hfree : ∀ d, inRange root s e d → cover (freeBlocks fl) d = 0) (hfuel : e - s < fuel) :
  ∃ links heads fl' s',
    addRangeUp root e fuel mgr s = some ({ mgr with links := links, freeLists := heads }, s')
    ∧ Inv { mgr with links := links, freeLists := heads } fl' [] ∧ s ≤ s' ∧ s' ≤ e
    ∧ (∀ d, cover (freeBlocks fl') d = cover (freeBlocks fl) d + rangeCover root s s' d)
    ∧ ∀ d, inRange root s' e d → cover (freeBlocks fl') d = 0
  := by
  induction fuel generalizing mgr fl s with
  | zero => omega
  | succ fuel ih =>
    rw [addRangeUp]
    generalize hlvl : pgAddrMaxlvl (mgr.addr ⟨root, s⟩) = lvl
    rw [Nat.one_shiftLeft]
    have hpos := Nat.two_pow_pos lvl
    by_cases hend : e < s + 2 ^ lvl
    · rw [if_pos hend]
      use mgr.links, mgr.freeLists, fl, s
      refine ⟨rfl, h, le_rfl, hs, ?_, hfree⟩
      intro d
      rw [rangeCover, if_neg]
      · rfl
      · rintro ⟨-, hlo, hhi⟩
        omega
    · rw [if_neg hend]
      obtain ⟨links, heads, fl₁, happ, hinv, hcover, hfree₁⟩ :=
        h.appendRange hseg (show s + 2 ^ lvl ≤ e by omega) he hlvl.ge hfree
      obtain ⟨links', heads', fl', s', hup, hinv', hlo, hhi, hcover', hfree'⟩ :=
        ih hinv hseg (show s + 2 ^ lvl ≤ e by omega) hfree₁ (by omega)
      use links', heads', fl', s'
      refine ⟨?_, hinv', by omega, hhi, ?_, hfree'⟩
      · simp only [happ, Option.bind_eq_bind, Option.bind_some]
        exact hup
      · intro d
        rw [hcover', hcover, Nat.add_assoc, rangeCover_append (by omega) hlo]

/-- The second loop seeds the rest of the range. -/
theorem addRangeDown_spec {e : ℕ} (fuel : ℕ) {mgr : PgMgr} {fl : ℕ → List DspPtr} {s : ℕ}
    (h : mgr.Inv fl []) (hseg : mgr.roots[root]? = some seg) (hs : s ≤ e) (he : e ≤ seg.numPages)
    (hfree : ∀ d, inRange root s e d → cover (freeBlocks fl) d = 0) (hfuel : e - s < fuel) :
  ∃ links heads fl',
    addRangeDown root e fuel mgr s = some { mgr with links := links, freeLists := heads }
    ∧ Inv { mgr with links := links, freeLists := heads } fl' []
    ∧ ∀ d, cover (freeBlocks fl') d = cover (freeBlocks fl) d + rangeCover root s e d
  := by
  induction fuel generalizing mgr fl s with
  | zero => omega
  | succ fuel ih =>
    rw [addRangeDown]
    by_cases hend : s = e
    · subst hend
      rw [if_pos rfl]
      use mgr.links, mgr.freeLists, fl, rfl, h
      intro d
      rw [rangeCover, if_neg]
      · rfl
      · rintro ⟨-, hlo, hhi⟩
        omega
    · rw [if_neg hend]
      generalize hlvl : min (pgAddrMaxlvl (mgr.addr ⟨root, s⟩)) (pgPagecntMaxlvl (e - s)) = lvl
      have hpos := Nat.two_pow_pos lvl
      have hcnt : 2 ^ lvl ≤ e - s := by
        apply le_trans _ (pagecntMaxlvlLoop_le (show 0 < e - s by omega) pgmgrMaxlvl)
        apply Nat.pow_le_pow_right (by omega)
        rw [← hlvl]
        apply Nat.min_le_right
      obtain ⟨links, heads, fl₁, happ, hinv, hcover, hfree₁⟩ :=
        h.appendRange hseg (show s + 2 ^ lvl ≤ e by omega) he
          (hlvl.ge.trans (Nat.min_le_left _ _)) hfree
      obtain ⟨links', heads', fl', hdown, hinv', hcover'⟩ :=
        ih hinv hseg (show s + 2 ^ lvl ≤ e by omega) hfree₁ (by omega)
      use links', heads', fl'
      refine ⟨?_, hinv', ?_⟩
      · simp only [hlvl, happ, Option.bind_eq_bind, Option.bind_some, Nat.one_shiftLeft]
        exact hdown
      · intro d
        rw [hcover', hcover, Nat.add_assoc, rangeCover_append (by omega) (by omega)]

/-- `pg_init_free_lists_add_range` puts every page of the range on the free lists once. -/
theorem pgInitFreeListsAddRange_spec {mgr : PgMgr} {fl : ℕ → List DspPtr} {s e : ℕ}
    (h : mgr.Inv fl []) (hseg : mgr.roots[root]? = some seg) (hs : s ≤ e) (he : e ≤ seg.numPages)
    (hfree : ∀ d, inRange root s e d → cover (freeBlocks fl) d = 0) :
  ∃ links heads fl',
    mgr.pgInitFreeListsAddRange root s e = some { mgr with links := links, freeLists := heads }
    ∧ Inv { mgr with links := links, freeLists := heads } fl' []
    ∧ ∀ d, cover (freeBlocks fl') d = cover (freeBlocks fl) d + rangeCover root s e d
  := by
  obtain ⟨links₁, heads₁, fl₁, s', hup, hinv₁, hlo, hhi, hcover₁, hfree₁⟩ :=
    addRangeUp_spec _ h hseg hs he hfree (Nat.lt_succ_self (e - s))
  obtain ⟨links', heads', fl', hdown, hinv', hcover'⟩ :=
    addRangeDown_spec _ hinv₁ hseg hhi he hfree₁ (Nat.lt_succ_self (e - s'))
  use links', heads', fl'
  refine ⟨?_, hinv', ?_⟩
  · simp only [pgInitFreeListsAddRange, hup, Option.bind_eq_bind, Option.bind_some]
    exact hdown
  · intro d
    rw [hcover', hcover₁, Nat.add_assoc, rangeCover_append hlo hhi]

end Range

/-! ### The blank spaces -/

theorem scanIdx_of_ne {mgr : PgMgr} {root addr default n : ℕ}
    (h : ∀ k < n, mgr.addr ⟨root, k⟩ ≠ addr) :
  mgr.scanIdx root addr default n = default
  := by
  induction n with
  | zero => rfl
  | succ n ih =>
    rw [scanIdx, if_neg (h n (Nat.lt_succ_self n))]
    apply ih
    intro k hk
    apply h k (by omega)

theorem scanIdx_of_eq {mgr : PgMgr} {root addr default k n : ℕ} (hk : k < n)
    (h : mgr.addr ⟨root, k⟩ = addr) (hinj : ∀ j < n, mgr.addr ⟨root, j⟩ = addr → j = k) :
  mgr.scanIdx root addr default n = k
  := by
  induction n with
  | zero => omega
  | succ n ih =>
    rw [scanIdx]
    by_cases hn : mgr.addr ⟨root, n⟩ = addr
    · rw [if_pos hn]
      apply hinj n (Nat.lt_succ_self n) hn
    · rw [if_neg hn]
      have hkn : k ≠ n := by
        rintro rfl
        exact hn h
      apply ih (by omega)
      intro j hj
      apply hinj j (by omega)

/-- The first page that `pg_init_free_lists_per_root` seeds: the page that starts at the
aligned start of the blank space, or the first page of the root when there is none. -/
def blankIdx (root : PgRoot) (blank : PgInitSeg) : ℕ :=
  if alignUp blank.startAddr pgSft < root.endAddr then
    (alignUp blank.startAddr pgSft - root.startAddr) / pgSz
  else
    0

section Blank

variable {mgr : PgMgr} {root : PgRoot} {blank : PgInitSeg} {i : ℕ} (hroots : RootsWf mgr.roots)
  (haddr : mgr.AddrEq) (hseg : mgr.roots[i]? = some root) (hblank : blank.BlankOf root)

include hroots hseg hblank

/-- The aligned start of the blank space is the start of a page of the root, or its end. -/
theorem exists_blankPage :
  ∃ k ≤ root.numPages, alignUp blank.startAddr pgSft = root.startAddr + k * pgSz
  := by
  have hmem := List.mem_of_getElem? hseg
  have hmul := hroots.numPages_mul hmem
  have hstart := hroots.start_dvd root hmem
  have hend := hroots.end_dvd root hmem
  obtain ⟨heq, hlo, hhi⟩ := hblank
  have hle := le_alignUp blank.startAddr pgSft
  have hle' := alignUp_pgSft_le hend (heq ▸ hhi)
  obtain ⟨k, hk⟩ := Nat.dvd_sub (pgSz_dvd_alignUp blank.startAddr) hstart
  use k
  rw [Nat.mul_comm] at hk
  constructor
  · apply Nat.le_of_mul_le_mul_right _ pgSz_pos
    omega
  · omega

include haddr

theorem scanIdx_start :
  mgr.scanIdx i (alignUp blank.startAddr pgSft) 0 root.numPages = blankIdx root blank
    ∧ blankIdx root blank ≤ root.numPages
  := by
  obtain ⟨k, hk, hup⟩ := exists_blankPage hroots hseg hblank
  have hmul := hroots.numPages_mul (List.mem_of_getElem? hseg)
  have hpage : ∀ j < root.numPages, mgr.addr ⟨i, j⟩ = root.startAddr + j * pgSz := by
    intro j hj
    apply haddr ⟨i, j⟩ root hseg hj
  have hinj : ∀ j, root.startAddr + j * pgSz = root.startAddr + k * pgSz → j = k := by
    intro j hj
    apply Nat.eq_of_mul_eq_mul_right pgSz_pos
    omega
  rw [blankIdx, hup]
  by_cases hlt : k < root.numPages
  · have : k * pgSz < root.numPages * pgSz := Nat.mul_lt_mul_of_pos_right hlt pgSz_pos
    rw [if_pos (by omega), Nat.add_sub_cancel_left, Nat.mul_div_cancel _ pgSz_pos]
    refine ⟨?_, hk⟩
    apply scanIdx_of_eq hlt (hpage k hlt)
    intro j hj h
    apply hinj j
    rw [← hpage j hj, h]
  · obtain rfl : k = root.numPages := by omega
    rw [if_neg (by omega)]
    refine ⟨?_, Nat.zero_le _⟩
    apply scanIdx_of_ne
    intro j hj h
    rw [hpage j hj] at h
    have := hinj j h
    omega

theorem scanIdx_end :
  mgr.scanIdx i (alignDown blank.endAddr pgSft) root.numPages root.numPages = root.numPages
  := by
  have hmem := List.mem_of_getElem? hseg
  have hmul := hroots.numPages_mul hmem
  have hend : alignDown blank.endAddr pgSft = root.endAddr := by
    rw [hblank.end_eq]
    apply alignDown_pgSft_of_dvd (hroots.end_dvd root hmem)
  apply scanIdx_of_ne
  intro j hj
  rw [haddr ⟨i, j⟩ root hseg hj, hend]
  have : j * pgSz < root.numPages * pgSz := Nat.mul_lt_mul_of_pos_right hj pgSz_pos
  show root.startAddr + j * pgSz ≠ root.endAddr
  omega

end Blank

/-- Setting flags keeps the invariant when nothing is handed out. -/
theorem Inv.markUsed {mgr : PgMgr} {fl : ℕ → List DspPtr} (h : mgr.Inv fl [])
    (i numPages startAddr endAddr : ℕ) :
  (mgr.markUsed i numPages startAddr endAddr).Inv fl []
  := by
  refine ⟨h.roots, h.addr, h.forest, h.high, h.placed, h.apart, ?_⟩
  intro b hb
  cases hb

theorem pgInitFreeListsPerRoot_spec {mgr : PgMgr} {fl : ℕ → List DspPtr} {i : ℕ} {root : PgRoot}
    {blank : PgInitSeg} (h : mgr.Inv fl []) (hseg : mgr.roots[i]? = some root)
    (hblank : blank.BlankOf root) (hfree : ∀ d, d.root = i → cover (freeBlocks fl) d = 0) :
  ∃ mgr' fl', mgr.pgInitFreeListsPerRoot i root blank = some mgr' ∧ mgr'.Inv fl' []
    ∧ mgr'.self = mgr.self ∧ mgr'.roots = mgr.roots ∧ mgr'.addr = mgr.addr
    ∧ mgr'.used = (mgr.markUsed i root.numPages (alignUp blank.startAddr pgSft)
        (alignDown blank.endAddr pgSft)).used
    ∧ ∀ d, cover (freeBlocks fl') d
        = cover (freeBlocks fl) d + rangeCover i (blankIdx root blank) root.numPages d
  := by
  obtain ⟨hstart, hle⟩ := scanIdx_start h.roots h.addr hseg hblank
  obtain ⟨links, heads, fl', hadd, hinv, hcover⟩ :=
    pgInitFreeListsAddRange_spec (h.markUsed i root.numPages (alignUp blank.startAddr pgSft)
      (alignDown blank.endAddr pgSft)) hseg hle le_rfl (fun d hd => hfree d hd.1)
  refine ⟨_, fl', ?_, hinv, rfl, rfl, rfl, rfl, hcover⟩
  rw [pgInitFreeListsPerRoot]
  simp only [hstart, scanIdx_end h.roots h.addr hseg hblank]
  exact hadd

/-- `pg_init_free_lists` seeds the roots one after another. -/
theorem freeListsLoop_spec {roots : List PgRoot} {blanks : List PgInitSeg} {i : ℕ} {mgr : PgMgr}
    {fl : ℕ → List DspPtr} (h : mgr.Inv fl []) (hlen : blanks.length = roots.length)
    (hroots : ∀ (k : ℕ) (root : PgRoot), roots[k]? = some root → mgr.roots[i + k]? = some root)
    (hblank : ∀ (k : ℕ) (root : PgRoot) (blank : PgInitSeg),
      roots[k]? = some root → blanks[k]? = some blank → blank.BlankOf root)
    (hfree : ∀ d, i ≤ d.root → cover (freeBlocks fl) d = 0) :
  ∃ mgr' fl', mgr.freeListsLoop roots blanks i = some mgr' ∧ mgr'.Inv fl' []
    ∧ mgr'.self = mgr.self ∧ mgr'.roots = mgr.roots ∧ mgr'.addr = mgr.addr
    ∧ (∀ d, d.root < i →
      cover (freeBlocks fl') d = cover (freeBlocks fl) d ∧ mgr'.used d = mgr.used d)
    ∧ ∀ (k : ℕ) (root : PgRoot) (blank : PgInitSeg),
      roots[k]? = some root → blanks[k]? = some blank → ∀ d, d.root = i + k →
        cover (freeBlocks fl') d = rangeCover (i + k) (blankIdx root blank) root.numPages d
        ∧ mgr'.used d = (mgr.markUsed (i + k) root.numPages (alignUp blank.startAddr pgSft)
            (alignDown blank.endAddr pgSft)).used d
  := by
  induction roots generalizing blanks i mgr fl with
  | nil =>
    refine ⟨mgr, fl, rfl, h, rfl, rfl, rfl, fun _ _ => ⟨rfl, rfl⟩, ?_⟩
    intro k root blank hroot
    cases hroot
  | cons root roots ih =>
    cases blanks with
    | nil => cases hlen
    | cons blank blanks =>
      obtain ⟨mgr₁, fl₁, hroot, hinv, hself₁, hroots₁, haddr₁, hused₁, hcover⟩ :=
        pgInitFreeListsPerRoot_spec h (hroots 0 root rfl) (hblank 0 root blank rfl rfl)
          (fun d hd => hfree d hd.ge)
      rw [Nat.add_zero] at hroot
      obtain ⟨mgr', fl', hloop, hinv', hself, hroots', haddr, hlow, hhigh⟩ :=
        ih (i := i + 1) hinv (by simpa using hlen)
          (by
            intro k r hr
            have := hroots (k + 1) r hr
            rwa [hroots₁, Nat.add_right_comm, Nat.add_assoc])
          (by
            intro k r b hr hb
            apply hblank (k + 1) r b hr hb)
          (by
            intro d hd
            rw [hcover, hfree d (by omega), rangeCover, if_neg]
            rintro ⟨hr, -, -⟩
            omega)
      refine ⟨mgr', fl', ?_, hinv', hself.trans hself₁, hroots'.trans hroots₁,
        haddr.trans haddr₁, ?_, ?_⟩
      · simp only [freeListsLoop, hroot, Option.bind_eq_bind, Option.bind_some]
        exact hloop
      · intro d hd
        obtain ⟨hc, hu⟩ := hlow d (by omega)
        have hr : (d.root == i) = false := by
          rw [beq_eq_false_iff_ne]
          omega
        constructor
        · rw [hc, hcover, rangeCover, if_neg]
          · rfl
          · rintro ⟨h', -, -⟩
            omega
        · rw [hu, hused₁]
          simp only [PgMgr.markUsed, hr, Nat.add_zero, Bool.false_and, Bool.or_false]
      · intro k r b hr hb d hd
        cases k with
        | zero =>
          obtain rfl : root = r := by simpa using hr
          obtain rfl : blank = b := by simpa using hb
          obtain ⟨hc, hu⟩ := hlow d (by omega)
          constructor
          · rw [hc, hcover, hfree d (by omega), Nat.zero_add]
          · rw [hu, hused₁]
        | succ k =>
          obtain ⟨hc, hu⟩ := hhigh k r b hr hb d (by omega)
          have hne : (d.root == i) = false := by
            rw [beq_eq_false_iff_ne]
            omega
          have heq : i + 1 + k = i + (k + 1) := by omega
          rw [heq] at hc hu
          use hc
          rw [hu]
          simp only [PgMgr.markUsed, hused₁, haddr₁, hne, Nat.add_zero, Bool.false_and,
            Bool.or_false]

end PgMgr

/-- The manager that `pg_init` returns: nothing is handed out, the free lists hold every page
of each root from `blankIdx` on once, and the pages outside of the aligned blank spaces
are used. -/
theorem pgInit_spec {addr₀ : DspPtr → ℕ} {segs : List PgInitSeg} {mgr : PgMgr} (h : SegsWf segs)
    (hinit : pgInit addr₀ segs = some mgr) :
  ∃ mgr₀ blanks fl, pgInitPlace addr₀ segs = some (mgr₀, blanks) ∧ mgr.Inv fl []
    ∧ mgr.self = mgr₀.self ∧ mgr.roots = mgr₀.roots
    ∧ ∀ (i : ℕ) (root : PgRoot) (blank : PgInitSeg),
      mgr.roots[i]? = some root → blanks[i]? = some blank → ∀ d, d.root = i →
        cover (freeBlocks fl) d = PgMgr.rangeCover i (PgMgr.blankIdx root blank) root.numPages d
        ∧ (mgr.used d = true ↔ d.idx < root.numPages
          ∧ (mgr.addr d < alignUp blank.startAddr pgSft
            ∨ alignDown blank.endAddr pgSft ≤ mgr.addr d))
  := by
  simp only [pgInit, Option.bind_eq_bind, Option.bind_eq_some_iff, Prod.exists] at hinit
  obtain ⟨mgr₀, blanks, hplace, mgr₁, hseed, hself⟩ := hinit
  split_ifs at hself
  obtain rfl := Option.some.inj hself
  obtain ⟨hplacing, hwf, hnull, -⟩ := pgInitPlace_spec h hplace
  have hinv : mgr₀.Inv (fun _ => []) [] := by
    constructor
    · exact hwf
    · intro d root hroot hd
      exact hplacing.addr d.root root hroot (hnull root (List.mem_of_getElem? hroot)) d.idx hd
    · have hheads : mgr₀.freeLists = fun _ => none := by
        funext l
        apply hplacing.heads
      rw [hheads]
      apply DList.Forest.empty
    · intro l hl
      rfl
    · intro b hb
      cases hb
    · intro e
      exact Nat.zero_le 1
    · intro b hb
      cases hb
  obtain ⟨mgr', fl, hloop, hinv', hself, hroots, haddr, -, hspec⟩ :=
    PgMgr.freeListsLoop_spec (i := 0) hinv hplacing.len
      (fun k root hroot => by rwa [Nat.zero_add]) hplacing.blank (fun d _ => rfl)
  obtain rfl := Option.some.inj (hseed.symm.trans hloop)
  refine ⟨mgr₀, blanks, fl, hplace, hinv', hself, hroots, ?_⟩
  intro i root blank hroot hblank d hd
  rw [hroots] at hroot
  obtain ⟨hc, hu⟩ := hspec i root blank hroot hblank d (by omega)
  rw [Nat.zero_add] at hc hu
  use hc
  rw [hu, haddr, PgMgr.markUsed]
  simp only [hplacing.used, Bool.false_or, Bool.and_eq_true, Bool.or_eq_true, beq_iff_eq,
    decide_eq_true_eq, hd, true_and]

end TrainsOs
