import TrainsOs.PgMgr.Exclusive

/-!
# What is free after `pg_init`

`pg_init` is meant to put exactly the whole pages of the blank spaces on the free lists and
to flag the other pages as used. It does so if and only if every root keeps a whole page
in its blank space: in a root without one no page starts at the aligned start of the
blank space, and all pages of the root are seeded, those of the manager and of the
descriptors included.
-/

namespace TrainsOs

open PgMgr

/-- The block at position `n` of the free list of level `lvl` contains the page `e`. -/
def PgMgr.FreeAt (mgr : PgMgr) (p : ℕ × ℕ) (e : DspPtr) : Prop :=
  p.1 ≤ pgmgrMaxlvl
    ∧ ∃ d, DList.nth mgr.links (mgr.freeLists p.1) p.2 = some d ∧ covers e (d, p.1) = true

/-- The page lies in a free block. -/
def PgMgr.PageFree (mgr : PgMgr) (e : DspPtr) : Prop :=
  ∃ p, mgr.FreeAt p e

/-- The memory `[a, b)` does not meet a free block. -/
def PgMgr.Untouched (mgr : PgMgr) (a b : ℕ) : Prop :=
  ∀ l n d, l ≤ pgmgrMaxlvl → DList.nth mgr.links (mgr.freeLists l) n = some d →
    ∀ x, a ≤ x → x < b → ¬ InBlock x (mgr.addr d, l)

/-- The free lists hold exactly the whole pages of the blank spaces, the other pages are
flagged as used, and no free block meets the manager or a descriptor array. -/
structure PgMgr.SeedsBlank (mgr : PgMgr) (blanks : List PgInitSeg) : Prop where
  free_iff : ∀ e, mgr.PageFree e ↔ ∃ root blank, mgr.roots[e.root]? = some root
    ∧ blanks[e.root]? = some blank ∧ e.idx < root.numPages
    ∧ alignUp blank.startAddr pgSft ≤ mgr.addr e ∧ mgr.addr e < alignDown blank.endAddr pgSft
  used_or_free : ∀ e root, mgr.roots[e.root]? = some root → e.idx < root.numPages →
    (mgr.used e = true ∧ ¬ mgr.PageFree e) ∨ (mgr.used e = false ∧ ∃! p, mgr.FreeAt p e)
  reserved : pgmgrSz mgr.roots.length = sizeofPgMgr + sizeofPgRoot * mgr.roots.length
  manager : mgr.Untouched mgr.self (mgr.self + (sizeofPgMgr + sizeofPgRoot * mgr.roots.length))
  dsps : ∀ root ∈ mgr.roots, mgr.Untouched root.root (root.root + root.numPages * sizeofPgDsp)

/-- Every root keeps a whole page in its blank space. -/
def KeepsPage (roots : List PgRoot) (blanks : List PgInitSeg) : Prop :=
  ∀ (i : ℕ) (root : PgRoot) (blank : PgInitSeg),
    roots[i]? = some root → blanks[i]? = some blank → alignUp blank.startAddr pgSft < root.endAddr

section FreeAt

variable {mgr : PgMgr} {fl : ℕ → List DspPtr} {held : List Block} (h : mgr.Inv fl held)

include h

theorem PgMgr.Inv.freeAt_iff {p : ℕ × ℕ} {e : DspPtr} :
  mgr.FreeAt p e ↔
    ∃ d, (fl p.1)[p.2]? = some d ∧ (d, p.1) ∈ freeBlocks fl ∧ covers e (d, p.1) = true
  := by
  simp only [FreeAt, (h.forest.list p.1).nth_eq]
  constructor
  · rintro ⟨hl, d, hd, he⟩
    use d, hd, mem_freeBlocks.mpr ⟨hl, List.mem_of_getElem? hd⟩, he
  · rintro ⟨d, hd, hmem, he⟩
    use (mem_freeBlocks.mp hmem).1, d, hd, he

theorem PgMgr.Inv.pageFree_iff {e : DspPtr} :
  mgr.PageFree e ↔ 0 < cover (freeBlocks fl) e
  := by
  constructor
  · rintro ⟨p, hp⟩
    obtain ⟨d, -, hmem, he⟩ := h.freeAt_iff.mp hp
    apply cover_pos hmem he
  · intro hpos
    obtain ⟨⟨d, l⟩, hb, he⟩ := exists_of_cover_pos hpos
    obtain ⟨n, hn⟩ := List.mem_iff_getElem?.mp (mem_freeBlocks.mp hb).2
    use (l, n)
    apply h.freeAt_iff.mpr
    use d, hn, hb, he

/-- A page lies in one free block at most. -/
theorem PgMgr.Inv.freeAt_unique {p q : ℕ × ℕ} {e : DspPtr} (hp : mgr.FreeAt p e)
    (hq : mgr.FreeAt q e) :
  p = q
  := by
  obtain ⟨d, hd, hmem, he⟩ := h.freeAt_iff.mp hp
  obtain ⟨d', hd', hmem', he'⟩ := h.freeAt_iff.mp hq
  have hb := h.apart.eq_of_mem (List.mem_append_right _ hmem) (List.mem_append_right _ hmem') he he'
  rw [Prod.mk.injEq] at hb
  obtain ⟨rfl, hl⟩ := hb
  rw [← hl] at hd'
  have hlt := (List.getElem?_eq_some_iff.mp hd).1
  have hn := (List.getElem?_inj hlt (h.forest.list p.1).nodup).mp (hd.trans hd'.symm)
  apply Prod.ext hl hn

end FreeAt

section Pages

variable {mgr : PgMgr} {root : PgRoot} {blank : PgInitSeg} {i : ℕ} (hroots : RootsWf mgr.roots)
  (haddr : mgr.AddrEq) (hseg : mgr.roots[i]? = some root) (hblank : blank.BlankOf root)

include hroots hseg hblank

theorem alignDown_blank :
  alignDown blank.endAddr pgSft = root.endAddr
  := by
  rw [hblank.end_eq]
  apply alignDown_pgSft_of_dvd (hroots.end_dvd root (List.mem_of_getElem? hseg))

include haddr

/-- A page of a root starts at or after the aligned start of the blank space when its index
is large enough. -/
theorem blankIdx_le_iff (hkeep : alignUp blank.startAddr pgSft < root.endAddr) {n : ℕ}
    (hn : n < root.numPages) :
  blankIdx root blank ≤ n ↔ alignUp blank.startAddr pgSft ≤ mgr.addr ⟨i, n⟩
  := by
  obtain ⟨k, -, hk⟩ := exists_blankPage hroots hseg hblank
  rw [blankIdx, if_pos hkeep, haddr ⟨i, n⟩ root hseg hn, hk, Nat.add_sub_cancel_left,
    Nat.mul_div_cancel _ pgSz_pos, Nat.add_le_add_iff_left]
  symm
  apply Nat.mul_le_mul_right_iff pgSz_pos

omit hblank in
theorem addr_lt_end {n : ℕ} (hn : n < root.numPages) :
  root.startAddr ≤ mgr.addr ⟨i, n⟩ ∧ mgr.addr ⟨i, n⟩ + pgSz ≤ root.endAddr
  := by
  have hmul := hroots.numPages_mul (List.mem_of_getElem? hseg)
  rw [haddr ⟨i, n⟩ root hseg hn]
  have : (n + 1) * pgSz ≤ root.numPages * pgSz := Nat.mul_le_mul_right _ hn
  rw [Nat.add_mul, Nat.one_mul] at this
  show root.startAddr ≤ root.startAddr + n * pgSz
    ∧ root.startAddr + n * pgSz + pgSz ≤ root.endAddr
  omega

end Pages

/-- The manager that `pg_init` returns, with the blank spaces that were left for the free
lists. -/
structure Seeded (mgr : PgMgr) (blanks : List PgInitSeg) (fl : ℕ → List DspPtr) : Prop where
  inv : mgr.Inv fl []
  len : blanks.length = mgr.roots.length
  blank : ∀ (i : ℕ) (root : PgRoot) (blank : PgInitSeg),
    mgr.roots[i]? = some root → blanks[i]? = some blank → blank.BlankOf root
  dsps : ∀ root ∈ mgr.roots,
    Taken mgr.roots blanks root.root (root.root + root.numPages * sizeofPgDsp)
  manager : sizeofPgMgr + sizeofPgRoot * mgr.roots.length < 2 ^ 32 → Taken mgr.roots blanks mgr.self
    (mgr.self + (sizeofPgMgr + sizeofPgRoot * mgr.roots.length))
  cover : ∀ (i : ℕ) (root : PgRoot) (blank : PgInitSeg),
    mgr.roots[i]? = some root → blanks[i]? = some blank → ∀ d, d.root = i →
      cover (freeBlocks fl) d = rangeCover i (blankIdx root blank) root.numPages d
  used : ∀ (i : ℕ) (root : PgRoot) (blank : PgInitSeg),
    mgr.roots[i]? = some root → blanks[i]? = some blank → ∀ d, d.root = i →
      (mgr.used d = true ↔ d.idx < root.numPages
        ∧ (mgr.addr d < alignUp blank.startAddr pgSft
          ∨ alignDown blank.endAddr pgSft ≤ mgr.addr d))

theorem pgInit_seeded {addr₀ : DspPtr → ℕ} {segs blanks : List PgInitSeg} {mgr mgr₀ : PgMgr}
    (hsegs : SegsWf segs) (hinit : pgInit addr₀ segs = some mgr)
    (hplace : pgInitPlace addr₀ segs = some (mgr₀, blanks)) :
  ∃ fl, Seeded mgr blanks fl
  := by
  obtain ⟨mgr₁, blanks₁, fl, hplace₁, hinv, hself, hroots, hspec⟩ := pgInit_spec hsegs hinit
  obtain ⟨rfl, rfl⟩ : mgr₁ = mgr₀ ∧ blanks₁ = blanks := by
    rw [hplace, Option.some.injEq, Prod.mk.injEq] at hplace₁
    use hplace₁.1.symm, hplace₁.2.symm
  obtain ⟨hplacing, -, hnull, hheader⟩ := pgInitPlace_spec hsegs hplace
  use fl, hinv
  · rw [hroots]
    apply hplacing.len
  · rw [hroots]
    apply hplacing.blank
  · rw [hroots]
    intro root hroot
    obtain ⟨i, hi⟩ := List.mem_iff_getElem?.mp hroot
    apply hplacing.dsps i root hi (hnull root hroot)
  · rw [hroots, hself]
    apply hheader
  · intro i root blank hroot hblank d hd
    apply (hspec i root blank hroot hblank d hd).1
  · intro i root blank hroot hblank d hd
    apply (hspec i root blank hroot hblank d hd).2

namespace Seeded

variable {mgr : PgMgr} {blanks : List PgInitSeg} {fl : ℕ → List DspPtr} (h : Seeded mgr blanks fl)

include h

theorem exists_blank {i : ℕ} {root : PgRoot} (hroot : mgr.roots[i]? = some root) :
  ∃ blank, blanks[i]? = some blank ∧ blank.BlankOf root
  := by
  obtain ⟨hlt, -⟩ := List.getElem?_eq_some_iff.mp hroot
  obtain ⟨blank, hblank⟩ : ∃ blank, blanks[i]? = some blank :=
    ⟨_, List.getElem?_eq_getElem (h.len ▸ hlt)⟩
  use blank, hblank
  apply h.blank i root blank hroot hblank

/-- A page in a free block is a page of a root. -/
theorem exists_root {e : DspPtr} (he : mgr.PageFree e) :
  ∃ root, mgr.roots[e.root]? = some root ∧ e.idx < root.numPages
  := by
  obtain ⟨⟨d, l⟩, hb, hcov⟩ := exists_of_cover_pos (h.inv.pageFree_iff.mp he)
  obtain ⟨seg, hseg, hin, -⟩ := h.inv.placed _ (List.mem_append_right _ hb)
  obtain ⟨hr, -, hlt⟩ := (covers_iff e (d, l)).mp hcov
  use seg
  rw [← hr]
  use hseg, hlt.trans_le hin

/-- The pages of a root that are free. -/
theorem pageFree_iff {e : DspPtr} {root : PgRoot} {blank : PgInitSeg}
    (hroot : mgr.roots[e.root]? = some root) (hblank : blanks[e.root]? = some blank) :
  mgr.PageFree e ↔ blankIdx root blank ≤ e.idx ∧ e.idx < root.numPages
  := by
  rw [h.inv.pageFree_iff, h.cover e.root root blank hroot hblank e rfl, rangeCover]
  constructor
  · intro hpos
    split_ifs at hpos with hin
    · exact hin.2
    · cases hpos
  · intro hin
    rw [if_pos ⟨rfl, hin⟩]
    exact Nat.one_pos

/-- The memory of a free block lies in the blank space of a root. -/
theorem mem_blank (hkeep : KeepsPage mgr.roots blanks) {l n x : ℕ} {d : DspPtr}
    (hl : l ≤ pgmgrMaxlvl) (hd : DList.nth mgr.links (mgr.freeLists l) n = some d)
    (hx : InBlock x (mgr.addr d, l)) :
  ∃ (i : ℕ) (root : PgRoot) (blank : PgInitSeg), mgr.roots[i]? = some root
    ∧ blanks[i]? = some blank ∧ blank.startAddr ≤ x ∧ x < root.endAddr
  := by
  rw [(h.inv.forest.list l).nth_eq] at hd
  have hb : (d, l) ∈ freeBlocks fl := mem_freeBlocks.mpr ⟨hl, List.mem_of_getElem? hd⟩
  obtain ⟨root, hroot, ha, hlo, hhi⟩ :=
    (h.inv.placed _ (List.mem_append_right _ hb)).mem_seg h.inv.roots h.inv.addr
  obtain ⟨blank, hblank, hof⟩ := h.exists_blank hroot
  have hfree : mgr.PageFree d := by
    use (l, n)
    apply h.inv.freeAt_iff.mpr
    use d, hd, hb
    apply covers_self
  obtain ⟨hidx, hlt⟩ := (h.pageFree_iff hroot hblank).mp hfree
  have hle :=
    (blankIdx_le_iff h.inv.roots h.inv.addr hroot hof (hkeep _ _ _ hroot hblank) hlt).mp hidx
  have hup := le_alignUp blank.startAddr pgSft
  obtain ⟨hx1, hx2⟩ := hx
  dsimp only at ha hlo hhi hx1 hx2
  refine ⟨_, root, blank, hroot, hblank, hup.trans (hle.trans hx1), by omega⟩

/-- No free block meets memory that was taken before the free lists were seeded. -/
theorem untouched (hkeep : KeepsPage mgr.roots blanks) {a b : ℕ} (ht : Taken mgr.roots blanks a b) :
  mgr.Untouched a b
  := by
  intro l n d hl hd x hax hxb hx
  obtain ⟨i, root, blank, hroot, hblank, hlo, hhi⟩ := h.mem_blank hkeep hl hd hx
  obtain ⟨j, root', blank', hroot', hblank', ha, hb⟩ := ht
  have hof := h.blank i root blank hroot hblank
  have hof' := h.blank j root' blank' hroot' hblank'
  have hend := hof'.end_eq
  have hle := hof'.le
  have hstart := hof.start_le
  obtain rfl := h.inv.roots.unique hroot hroot' ⟨by omega, hhi⟩ ⟨ha.trans hax, by omega⟩
  obtain rfl := Option.some.inj (hblank.symm.trans hblank')
  omega

theorem seedsBlank (hsz : sizeofPgMgr + sizeofPgRoot * mgr.roots.length < 2 ^ 32)
    (hkeep : KeepsPage mgr.roots blanks) :
  mgr.SeedsBlank blanks
  := by
  constructor
  · intro e
    constructor
    · intro he
      obtain ⟨root, hroot, hlt⟩ := h.exists_root he
      obtain ⟨blank, hblank, hof⟩ := h.exists_blank hroot
      have hidx := ((h.pageFree_iff hroot hblank).mp he).1
      use root, blank, hroot, hblank, hlt
      rw [alignDown_blank h.inv.roots hroot hof]
      have := addr_lt_end h.inv.roots h.inv.addr hroot hlt
      have := pgSz_pos
      use (blankIdx_le_iff h.inv.roots h.inv.addr hroot hof (hkeep _ _ _ hroot hblank) hlt).mp hidx
      show mgr.addr ⟨e.root, e.idx⟩ < root.endAddr
      omega
    · rintro ⟨root, blank, hroot, hblank, hlt, hle, -⟩
      apply (h.pageFree_iff hroot hblank).mpr
      use (blankIdx_le_iff h.inv.roots h.inv.addr hroot (h.blank _ _ _ hroot hblank)
        (hkeep _ _ _ hroot hblank) hlt).mpr hle
  · intro e root hroot hlt
    obtain ⟨blank, hblank, hof⟩ := h.exists_blank hroot
    have hiff := blankIdx_le_iff h.inv.roots h.inv.addr hroot hof (hkeep _ _ _ hroot hblank) hlt
    have hend := addr_lt_end h.inv.roots h.inv.addr hroot hlt
    have hpos := pgSz_pos
    have hused := h.used e.root root blank hroot hblank e rfl
    rw [alignDown_blank h.inv.roots hroot hof] at hused
    rw [h.pageFree_iff hroot hblank]
    by_cases hidx : blankIdx root blank ≤ e.idx
    · right
      have hle := hiff.mp hidx
      constructor
      · rw [← Bool.not_eq_true, hused]
        show ¬ (_ ∧ (mgr.addr ⟨e.root, e.idx⟩ < _ ∨ _ ≤ mgr.addr ⟨e.root, e.idx⟩))
        omega
      · obtain ⟨p, hp⟩ := (h.pageFree_iff hroot hblank).mpr ⟨hidx, hlt⟩
        use p, hp
        intro q hq
        apply h.inv.freeAt_unique hq hp
    · left
      constructor
      · apply hused.mpr
        use hlt
        left
        have := mt hiff.mpr hidx
        show mgr.addr ⟨e.root, e.idx⟩ < _
        omega
      · omega
  · exact Nat.mod_eq_of_lt hsz
  · apply h.untouched hkeep (h.manager hsz)
  · intro root hroot
    apply h.untouched hkeep (h.dsps root hroot)

/-- A root without a whole page in its blank space is seeded from its first page on. -/
theorem keepsPage (hs : mgr.SeedsBlank blanks) :
  KeepsPage mgr.roots blanks
  := by
  intro i root blank hroot hblank
  by_contra hnot
  have hof := h.blank i root blank hroot hblank
  have hmem := List.mem_of_getElem? hroot
  have hpos : 0 < root.numPages := by
    have hmul := h.inv.roots.numPages_mul hmem
    have hlt := h.inv.roots.lt root hmem
    by_contra hz
    obtain hz : root.numPages = 0 := by omega
    rw [hz, Nat.zero_mul] at hmul
    omega
  have hfree : mgr.PageFree ⟨i, 0⟩ := by
    apply (h.pageFree_iff hroot hblank).mpr
    rw [blankIdx, if_neg hnot]
    use le_rfl, hpos
  obtain ⟨root', blank', hroot', hblank', -, hle, hlt⟩ := (hs.free_iff _).mp hfree
  obtain rfl := Option.some.inj (hroot.symm.trans hroot')
  obtain rfl := Option.some.inj (hblank.symm.trans hblank')
  rw [alignDown_blank h.inv.roots hroot hof] at hlt
  omega

end Seeded

/-- After `pg_init` the free lists are as they should be if and only if the size of the
manager fits its type and every root keeps a whole page in its blank space. -/
theorem pgInit_seedsBlank_iff {addr₀ : DspPtr → ℕ} {segs blanks : List PgInitSeg} {mgr mgr₀ : PgMgr}
    (hsegs : SegsWf segs) (hinit : pgInit addr₀ segs = some mgr)
    (hplace : pgInitPlace addr₀ segs = some (mgr₀, blanks)) :
  mgr.SeedsBlank blanks
    ↔ sizeofPgMgr + sizeofPgRoot * mgr.roots.length < 2 ^ 32 ∧ KeepsPage mgr.roots blanks
  := by
  obtain ⟨fl, h⟩ := pgInit_seeded hsegs hinit hplace
  constructor
  · intro hs
    constructor
    · rw [← hs.reserved]
      apply Nat.mod_lt
      decide
    · apply h.keepsPage hs
  · rintro ⟨hsz, hkeep⟩
    apply h.seedsBlank hsz hkeep

theorem pgInit_seedsBlank_iff_tailSegs :
  ∃ mgr mgr₀ blanks, pgInit (fun _ => 0) tailSegs = some mgr
    ∧ pgInitPlace (fun _ => 0) tailSegs = some (mgr₀, blanks)
    ∧ (mgr.SeedsBlank blanks
      ↔ sizeofPgMgr + sizeofPgRoot * mgr.roots.length < 2 ^ 32 ∧ KeepsPage mgr.roots blanks)
  := by
  have hinit : (pgInit (fun _ => 0) tailSegs).isSome = true := by decide
  have hplace : (pgInitPlace (fun _ => 0) tailSegs).isSome = true := by decide
  obtain ⟨mgr, hmgr⟩ := Option.isSome_iff_exists.mp hinit
  obtain ⟨⟨mgr₀, blanks⟩, hblanks⟩ := Option.isSome_iff_exists.mp hplace
  use mgr, mgr₀, blanks, hmgr, hblanks
  apply pgInit_seedsBlank_iff tailSegs_wf hmgr hblanks

/-- One page, which holds the manager and its own descriptor. -/
def fullSegs : List PgInitSeg :=
  [⟨0x100000, 0x200000, 0⟩]

theorem fullSegs_wf :
  SegsWf fullSegs
  := by
  constructor
  · apply List.pairwise_singleton
  · intro seg hseg
    obtain rfl := List.mem_singleton.mp hseg
    decide

/-- The only page of the segment holds the manager and is free. -/
theorem pgInit_not_seedsBlank_fullSegs :
  ∃ mgr mgr₀ blanks, pgInit (fun _ => 0) fullSegs = some mgr
    ∧ pgInitPlace (fun _ => 0) fullSegs = some (mgr₀, blanks) ∧ ¬ mgr.SeedsBlank blanks
  := by
  have hinit : ((pgInit (fun _ => 0) fullSegs).any fun mgr =>
      (mgr.roots[0]?).any fun root => root.endAddr = 0x200000) = true := by
    decide
  have hplace : ((pgInitPlace (fun _ => 0) fullSegs).any fun res =>
      (res.2[0]?).any fun blank => alignUp blank.startAddr pgSft = 0x200000) = true := by
    decide
  obtain ⟨mgr, hmgr, hroots⟩ := (Option.any_eq_true _ _).mp hinit
  obtain ⟨root, hroot, hend⟩ := (Option.any_eq_true _ _).mp hroots
  obtain ⟨⟨mgr₀, blanks⟩, hblanks, hany⟩ := (Option.any_eq_true _ _).mp hplace
  obtain ⟨blank, hblank, hup⟩ := (Option.any_eq_true _ _).mp hany
  rw [decide_eq_true_eq] at hend hup
  use mgr, mgr₀, blanks, hmgr, hblanks
  intro hs
  obtain ⟨fl, h⟩ := pgInit_seeded fullSegs_wf hmgr hblanks
  have hlt := h.keepsPage hs 0 root blank hroot hblank
  rw [hend, hup] at hlt
  exact lt_irrefl _ hlt

end TrainsOs
