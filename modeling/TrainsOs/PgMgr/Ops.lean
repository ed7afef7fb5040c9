import TrainsOs.PgMgr.Blocks

/-!
# What the operations of the page manager do

`PgMgr.Inv mgr fl held` relates a manager to the blocks it deals with: the free lists
visit the descriptors `fl`, the blocks `held` are handed out, every block lies inside a
root segment and is aligned to its own size, and no page is in two blocks. Allocation
keeps the invariant. Freeing a held block keeps it when every buddy that the merge loop
takes is on the free list of the level at which it is taken (`PgMgr.FreeSafe`).
-/

namespace TrainsOs

/-- The root segments are made of whole pages, ascending and pairwise disjoint. -/
structure RootsWf (roots : List PgRoot) : Prop where
  lt : ∀ seg ∈ roots, seg.startAddr < seg.endAddr
  start_dvd : ∀ seg ∈ roots, pgSz ∣ seg.startAddr
  end_dvd : ∀ seg ∈ roots, pgSz ∣ seg.endAddr
  ascending : roots.Pairwise fun a b => a.endAddr ≤ b.startAddr

/-- The block lies inside its root segment and is aligned to its own size. -/
def Placed (roots : List PgRoot) (b : Block) : Prop :=
  ∃ seg, roots[b.1.root]? = some seg ∧ b.1.idx + 2 ^ b.2 ≤ seg.numPages
    ∧ 2 ^ (pgSft + b.2) ∣ seg.startAddr + b.1.idx * pgSz ∧ b.2 ≤ pgmgrMaxlvl

theorem pgSz_eq : pgSz = 2 ^ pgSft := by
  rw [pgSz, Nat.shiftLeft_eq, one_mul]

theorem pgSz_pos : 0 < pgSz := by
  rw [pgSz_eq]
  apply Nat.two_pow_pos

theorem pow_pgSft_add (l : ℕ) :
  2 ^ (pgSft + l) = 2 ^ l * pgSz
  := by
  rw [pow_add, pgSz_eq, mul_comm]

/-- The pages of a root segment fill it. -/
theorem RootsWf.numPages_mul {roots : List PgRoot} (h : RootsWf roots) {seg : PgRoot}
    (hseg : seg ∈ roots) :
  seg.startAddr + seg.numPages * pgSz = seg.endAddr
  := by
  have hlt := h.lt seg hseg
  have hd := Nat.dvd_sub (h.end_dvd seg hseg) (h.start_dvd seg hseg)
  rw [PgRoot.numPages, Nat.shiftRight_eq_div_pow, ← pgSz_eq, Nat.div_mul_cancel hd]
  omega

/-- A root segment has a page. -/
theorem RootsWf.numPages_pos {roots : List PgRoot} (h : RootsWf roots) {seg : PgRoot}
    (hseg : seg ∈ roots) :
  0 < seg.numPages
  := by
  have hlt := h.lt seg hseg
  have hmul := h.numPages_mul hseg
  apply Nat.pos_of_ne_zero
  intro hzero
  rw [hzero] at hmul
  omega

theorem RootsWf.disjoint {roots : List PgRoot} (h : RootsWf roots) {i j : ℕ} {a b : PgRoot}
    (hi : roots[i]? = some a) (hj : roots[j]? = some b) (hij : i < j) :
  a.endAddr ≤ b.startAddr
  := by
  obtain ⟨hi', rfl⟩ := List.getElem?_eq_some_iff.mp hi
  obtain ⟨hj', rfl⟩ := List.getElem?_eq_some_iff.mp hj
  exact List.pairwise_iff_getElem.mp h.ascending i j hi' hj' hij

/-- An address lies in one root only. -/
theorem RootsWf.unique {roots : List PgRoot} (h : RootsWf roots) {i j ptr : ℕ} {a b : PgRoot}
    (hi : roots[i]? = some a) (hj : roots[j]? = some b)
    (ha : a.startAddr ≤ ptr ∧ ptr < a.endAddr) (hb : b.startAddr ≤ ptr ∧ ptr < b.endAddr) :
  i = j
  := by
  rcases Nat.lt_trichotomy i j with hij | hij | hij
  · have := h.disjoint hi hj hij
    omega
  · exact hij
  · have := h.disjoint hj hi hij
    omega

/-- A root that starts after an address comes after the root of the address. -/
theorem RootsWf.lt_of_lt_start {roots : List PgRoot} (h : RootsWf roots) {i j ptr : ℕ}
    {a b : PgRoot} (hi : roots[i]? = some a) (hj : roots[j]? = some b)
    (ha : a.startAddr ≤ ptr ∧ ptr < a.endAddr) (hb : ptr < b.startAddr) :
  i < j
  := by
  have hlt := h.lt b (List.mem_of_getElem? hj)
  rcases Nat.lt_trichotomy i j with hij | rfl | hij
  · exact hij
  · obtain rfl := Option.some.inj (hi.symm.trans hj)
    omega
  · have := h.disjoint hj hi hij
    omega

/-- A root that ends before an address comes before the root of the address. -/
theorem RootsWf.lt_of_end_le {roots : List PgRoot} (h : RootsWf roots) {i j ptr : ℕ}
    {a b : PgRoot} (hi : roots[i]? = some a) (hj : roots[j]? = some b)
    (ha : a.startAddr ≤ ptr ∧ ptr < a.endAddr) (hb : b.endAddr ≤ ptr) :
  j < i
  := by
  have hlt := h.lt b (List.mem_of_getElem? hj)
  rcases Nat.lt_trichotomy i j with hij | rfl | hij
  · have := h.disjoint hi hj hij
    omega
  · obtain rfl := Option.some.inj (hi.symm.trans hj)
    omega
  · exact hij

namespace Placed

variable {roots : List PgRoot}

theorem pow_le {d : DspPtr} {l m : ℕ} (h : Placed roots (d, m)) (hl : l ≤ m) :
  Placed roots (d, l)
  := by
  obtain ⟨seg, hseg, hin, hdvd, hm⟩ := h
  have := Nat.pow_le_pow_right (show 0 < 2 by omega) hl
  use seg, hseg
  refine ⟨?_, ?_, ?_⟩
  · show d.idx + 2 ^ l ≤ _
    have : d.idx + 2 ^ m ≤ seg.numPages := hin
    omega
  · exact dvd_trans (pow_dvd_pow 2 (Nat.add_le_add_left hl _)) hdvd
  · exact hl.trans hm

/-- The upper half of a placed block is placed. -/
theorem upper {d : DspPtr} {l : ℕ} (h : Placed roots (d, l + 1)) :
  Placed roots (d.add (2 ^ l), l)
  := by
  obtain ⟨seg, hseg, hin, hdvd, hm⟩ := h
  use seg, hseg
  refine ⟨?_, ?_, by simp only at hm ⊢; omega⟩
  · simp only [DspPtr.add, pow_succ] at hin ⊢
    omega
  · have hl := dvd_trans (pow_dvd_pow 2 (Nat.le_succ (pgSft + l))) hdvd
    simp only [DspPtr.add, add_mul, ← pow_pgSft_add, ← add_assoc] at hl ⊢
    apply Nat.dvd_add hl (Nat.dvd_refl _)

theorem halves {d : DspPtr} {p n : ℕ} (h : Placed roots (d, p + n)) :
  ∀ b ∈ halves d p n, Placed roots b
  := by
  intro b hb
  obtain ⟨j, hj, rfl⟩ := mem_halves.mp hb
  apply upper
  apply h.pow_le
  omega

end Placed

namespace PgMgr

/-- The descriptors hold the addresses of their pages. -/
def AddrEq (mgr : PgMgr) : Prop :=
  ∀ d seg, mgr.roots[d.root]? = some seg → d.idx < seg.numPages →
    mgr.addr d = seg.startAddr + d.idx * pgSz

/-- Appending a block leaves the descriptors that are not on its list alone. -/
theorem dlAppend_frame (mgr : PgMgr) {fl : ℕ → List DspPtr}
    (h : DList.Forest mgr.links mgr.freeLists fl) (l : ℕ) {d : DspPtr} (hd : ∀ k, d ∉ fl k) :
  ∃ links heads, mgr.dlAppend l d = some { mgr with links := links, freeLists := heads }
    ∧ DList.Forest links heads (Function.update fl l (fl l ++ [d]))
    ∧ ∀ e, e ∉ fl l ++ [d] → links.prev e = mgr.links.prev e ∧ links.next e = mgr.links.next e
  := by
  obtain ⟨links, happ, hf, hframe⟩ := h.append l hd
  refine ⟨links, Function.update mgr.freeLists l (fl l ++ [d]).head?, ?_, hf, hframe⟩
  rw [dlAppend, happ]
  rfl

/-- Taking a block away leaves the descriptors that are not on its list alone. -/
theorem dlDelete_frame (mgr : PgMgr) {fl : ℕ → List DspPtr}
    (h : DList.Forest mgr.links mgr.freeLists fl) {l : ℕ} {d : DspPtr} (hd : d ∈ fl l) :
  ∃ links heads, mgr.dlDelete l d = some { mgr with links := links, freeLists := heads }
    ∧ DList.Forest links heads (Function.update fl l ((fl l).erase d))
    ∧ ∀ e, e ∉ fl l → links.prev e = mgr.links.prev e ∧ links.next e = mgr.links.next e
  := by
  obtain ⟨links, hdel, hf, hframe⟩ := h.delete hd
  refine ⟨links, Function.update mgr.freeLists l ((fl l).erase d).head?, ?_, hf, hframe⟩
  rw [dlDelete, hdel]
  rfl

theorem dlAppend_spec (mgr : PgMgr) {fl : ℕ → List DspPtr}
    (h : DList.Forest mgr.links mgr.freeLists fl) (l : ℕ) {d : DspPtr} (hd : ∀ k, d ∉ fl k) :
  ∃ links heads, mgr.dlAppend l d = some { mgr with links := links, freeLists := heads }
    ∧ DList.Forest links heads (Function.update fl l (fl l ++ [d]))
  := by
  obtain ⟨links, heads, happ, hf, -⟩ := mgr.dlAppend_frame h l hd
  exact ⟨links, heads, happ, hf⟩

theorem dlDelete_spec (mgr : PgMgr) {fl : ℕ → List DspPtr}
    (h : DList.Forest mgr.links mgr.freeLists fl) {l : ℕ} {d : DspPtr} (hd : d ∈ fl l) :
  ∃ links heads, mgr.dlDelete l d = some { mgr with links := links, freeLists := heads }
    ∧ DList.Forest links heads (Function.update fl l ((fl l).erase d))
  := by
  obtain ⟨links, heads, hdel, hf, -⟩ := mgr.dlDelete_frame h hd
  exact ⟨links, heads, hdel, hf⟩

/-- The manager deals with the free blocks `fl` and the handed out blocks `held`. -/
structure Inv (mgr : PgMgr) (fl : ℕ → List DspPtr) (held : List Block) : Prop where
  roots : RootsWf mgr.roots
  addr : mgr.AddrEq
  forest : DList.Forest mgr.links mgr.freeLists fl
  high : ∀ l, pgmgrMaxlvl < l → fl l = []
  placed : ∀ b ∈ held ++ freeBlocks fl, Placed mgr.roots b
  apart : Apart (held ++ freeBlocks fl)
  used : ∀ b ∈ held, mgr.used b.1 = true ∧ mgr.lvl b.1 = b.2

/-- A page of a block in hand heads no free block. -/
theorem not_mem_fl {fl : ℕ → List DspPtr} (high : ∀ l, pgmgrMaxlvl < l → fl l = []) {b : Block}
    (hb : Apart (b :: freeBlocks fl)) {d : DspPtr} (hd : covers d b = true) (k : ℕ) :
  d ∉ fl k
  := by
  intro hmem
  by_cases hk : k ≤ pgmgrMaxlvl
  · have hc : covers ((d, k) : Block).1 b = true := hd
    apply hb.not_mem hc
    apply mem_freeBlocks.mpr ⟨hk, hmem⟩
  · rw [high k (by omega)] at hmem
    cases hmem

/-- The flags after the descriptors of the blocks `bs` are cleared. -/
def clearUsed (bs : List Block) (used : DspPtr → Bool) (e : DspPtr) : Bool :=
  used e && !(bs.any fun b => b.1 == e)

/-- Breaking up a block in hand puts its upper halves on the free lists. -/
theorem breakUp_spec {d : DspPtr} {p : ℕ} (n : ℕ) (mgr : PgMgr) {fl : ℕ → List DspPtr}
    (hf : DList.Forest mgr.links mgr.freeLists fl) (high : ∀ l, pgmgrMaxlvl < l → fl l = [])
    (hn : p + n ≤ pgmgrMaxlvl) (hb : Apart ((d, p + n) :: freeBlocks fl)) :
  ∃ links heads fl', mgr.breakUp d p n
      = some { mgr with
          links := links
          freeLists := heads
          used := clearUsed (halves d p n) mgr.used }
    ∧ DList.Forest links heads fl'
    ∧ (∀ l, pgmgrMaxlvl < l → fl' l = [])
    ∧ (freeBlocks fl').Perm (halves d p n ++ freeBlocks fl)
  := by
  induction n generalizing mgr fl with
  | zero =>
    use mgr.links, mgr.freeLists, fl
    refine ⟨?_, hf, high, List.Perm.refl _⟩
    have : clearUsed (halves d p 0) mgr.used = mgr.used := by
      funext e
      simp [clearUsed, halves]
    rw [this]
    rfl
  | succ n ih =>
    have hd : ∀ k, d.add (2 ^ (p + n)) ∉ fl k := not_mem_fl high hb (covers_upper d (p + n))
    generalize hfl₁ : Function.update fl (p + n) (fl (p + n) ++ [d.add (2 ^ (p + n))]) = fl₁
    obtain ⟨links, heads, happ, hf₁⟩ :=
      dlAppend_spec (mgr.setUsed (d.add (2 ^ (p + n))) false) hf (p + n) hd
    have hperm := freeBlocks_append fl (show p + n ≤ pgmgrMaxlvl by omega)
      (d.add (2 ^ (p + n)))
    rw [hfl₁] at hf₁ hperm
    have high₁ : ∀ l, pgmgrMaxlvl < l → fl₁ l = [] := by
      intro l hl
      rw [← hfl₁, Function.update_of_ne (by omega)]
      apply high l hl
    have hb₁ : Apart ((d, p + n) :: freeBlocks fl₁) := by
      intro e
      have h1 := hb e
      have h2 := cover_split d (p + n) e
      rw [cover_cons, ← Nat.add_assoc] at h1
      rw [cover_cons, cover_perm hperm, cover_cons _ (freeBlocks fl)]
      omega
    obtain ⟨links', heads', fl', hbreak, hf', high', hperm'⟩ :=
      ih ⟨mgr.self, heads, mgr.roots, mgr.addr, links,
        Function.update mgr.used (d.add (2 ^ (p + n))) false, mgr.lvl⟩ hf₁ high₁ (by omega) hb₁
    have hused : clearUsed (halves d p n) (Function.update mgr.used (d.add (2 ^ (p + n))) false)
        = clearUsed (halves d p (n + 1)) mgr.used := by
      funext e
      simp only [clearUsed, halves, List.any_cons]
      by_cases he : e = d.add (2 ^ (p + n))
      · simp [he]
      · have he' : (d.add (2 ^ (p + n)) == e) = false := by simpa using Ne.symm he
        rw [Function.update_of_ne he, he', Bool.false_or]
    use links', heads', fl'
    refine ⟨?_, hf', high', ?_⟩
    · simp only [breakUp, Nat.one_shiftLeft, happ, Option.bind_eq_bind, Option.bind_some]
      rw [← hused]
      apply hbreak
    · apply hperm'.trans
      apply (hperm.append_left _).trans
      apply List.perm_middle

theorem firstLvl_none {mgr : PgMgr} {p : ℕ} (h : mgr.firstLvl p = none) {q : ℕ} (hp : p ≤ q)
    (hq : q ≤ pgmgrMaxlvl) :
  mgr.freeLists q = none
  := by
  rw [firstLvl, List.find?_eq_none] at h
  have := h q (by rw [List.mem_range'_1]; omega)
  simpa using this

theorem firstLvl_some {mgr : PgMgr} {p q : ℕ} (h : mgr.firstLvl p = some q) :
  p ≤ q ∧ q ≤ pgmgrMaxlvl ∧ (mgr.freeLists q).isSome
  := by
  have hq := List.find?_some h
  have hmem := List.mem_of_find?_eq_some h
  rw [List.mem_range'_1] at hmem
  refine ⟨by omega, by omega, hq⟩

/-- What `pg_alloc_page` does: it fails when the levels from the wanted one on are empty,
and otherwise hands out the lower end of a free block `(d, q)` and frees the halves left
over. -/
theorem pgAllocPage_spec {mgr : PgMgr} {fl : ℕ → List DspPtr} {held : List Block}
    (h : mgr.Inv fl held) (p : ℕ) :
  (mgr.pgAllocPage p = some (mgr, none) ∧ ∀ q, pageLvl p ≤ q → q ≤ pgmgrMaxlvl → fl q = [])
    ∨ ∃ d n mgr' fl', pageLvl p + n ≤ pgmgrMaxlvl ∧ d ∈ fl (pageLvl p + n)
      ∧ mgr.pgAllocPage p = some (mgr', some (mgr.addr d))
      ∧ mgr'.Inv fl' ((d, pageLvl p) :: held)
      ∧ (freeBlocks fl').Perm (halves d (pageLvl p) n
          ++ freeBlocks (Function.update fl (pageLvl p + n) ((fl (pageLvl p + n)).erase d)))
      ∧ mgr'.roots = mgr.roots ∧ mgr'.addr = mgr.addr
      ∧ mgr'.used = Function.update (clearUsed (halves d (pageLvl p) n) mgr.used) d true
  := by
  generalize hl : pageLvl p = l
  cases hfirst : mgr.firstLvl l with
  | none =>
    left
    constructor
    · simp only [pgAllocPage, hl, hfirst]
    · intro q hlq hq
      have hhead := (h.forest.list q).head_eq
      rw [firstLvl_none hfirst hlq hq] at hhead
      simpa using hhead.symm
  | some q =>
    right
    obtain ⟨hlq, hq, hsome⟩ := firstLvl_some hfirst
    obtain ⟨d, hd⟩ := Option.isSome_iff_exists.mp hsome
    obtain ⟨n, rfl⟩ := Nat.exists_eq_add_of_le hlq
    have hmem : d ∈ fl (l + n) := by
      apply List.mem_of_head?
      rw [← (h.forest.list _).head_eq, hd]
    obtain ⟨links, heads, hdel, hf⟩ := dlDelete_spec mgr h.forest hmem
    have herase := freeBlocks_erase hq hmem
    have hapart : Apart ((d, l + n)
        :: (held ++ freeBlocks (Function.update fl (l + n) ((fl (l + n)).erase d)))) := by
      apply h.apart.perm
      apply (herase.append_left held).trans
      apply List.perm_middle
    have hapart' : Apart ((d, l + n)
        :: freeBlocks (Function.update fl (l + n) ((fl (l + n)).erase d))) := by
      intro e
      have := hapart e
      rw [cover_cons, cover_append] at this
      rw [cover_cons]
      omega
    have high : ∀ k, pgmgrMaxlvl < k →
        Function.update fl (l + n) ((fl (l + n)).erase d) k = [] := by
      intro k hk
      rw [Function.update_of_ne (by omega)]
      apply h.high k hk
    obtain ⟨links', heads', fl', hbreak, hf', high', hperm⟩ :=
      breakUp_spec n { mgr with links := links, freeLists := heads } hf high hq hapart'
    have hd_placed : Placed mgr.roots (d, l + n) := by
      apply h.placed
      apply List.mem_append_right
      apply mem_freeBlocks.mpr ⟨hq, hmem⟩
    have hheld : ∀ b ∈ held, covers b.1 (d, l + n) = false := by
      intro b hb
      by_contra hc
      rw [Bool.not_eq_false] at hc
      apply hapart.not_mem hc
      apply List.mem_append_left _ hb
    refine ⟨d, n, ⟨mgr.self, heads', mgr.roots, mgr.addr, links',
      Function.update (clearUsed (halves d l n) mgr.used) d true, Function.update mgr.lvl d l⟩,
      fl', hq, hmem, ?_, ?_, hperm, rfl, rfl, rfl⟩
    · simp only [pgAllocPage, hl, hfirst, hd, Option.bind_eq_bind, Option.bind_some, hdel,
        Nat.add_sub_cancel_left, hbreak]
      rfl
    · constructor
      · exact h.roots
      · exact h.addr
      · exact hf'
      · exact high'
      · intro b hb
        rcases List.mem_append.mp hb with hb | hb
        · rcases List.mem_cons.mp hb with rfl | hb
          · apply hd_placed.pow_le hlq
          · apply h.placed b (List.mem_append_left _ hb)
        · rcases List.mem_append.mp (hperm.mem_iff.mp hb) with hb | hb
          · apply hd_placed.halves b hb
          · apply h.placed b (List.mem_append_right _ (herase.mem_iff.mpr _))
            apply List.mem_cons_of_mem _ hb
      · intro e
        have h1 := hapart e
        have h2 := cover_halves d l n e
        rw [cover_cons, cover_append] at h1
        rw [List.cons_append, cover_cons, cover_append, cover_perm hperm, cover_append]
        omega
      · intro b hb
        rcases List.mem_cons.mp hb with rfl | hb
        · simp
        · have hbd : b.1 ≠ d := by
            intro hbd
            have := hheld b hb
            rw [hbd, covers_self (d, l + n)] at this
            cases this
          have hclear : clearUsed (halves d l n) mgr.used b.1 = mgr.used b.1 := by
            have hany : (halves d l n).any (fun c => c.1 == b.1) = false := by
              rw [List.any_eq_false]
              intro c hc hcb
              have := covers_of_mem_halves hc
              rw [beq_iff_eq.mp hcb, hheld b hb] at this
              cases this
            rw [clearUsed, hany, Bool.not_false, Bool.and_true]
          dsimp only
          rw [Function.update_of_ne hbd, Function.update_of_ne hbd, hclear]
          apply h.used b hb

/-! ### Merging -/

/-- The descriptor heads a block on the free list of level `l`. -/
def OnFreeList (mgr : PgMgr) (l : ℕ) (d : DspPtr) : Prop :=
  ∃ n, DList.nth mgr.links (mgr.freeLists l) n = some d

theorem onFreeList_iff {mgr : PgMgr} {fl : ℕ → List DspPtr}
    (h : DList.Forest mgr.links mgr.freeLists fl) {l : ℕ} {d : DspPtr} :
  mgr.OnFreeList l d ↔ d ∈ fl l
  := by
  simp only [OnFreeList, (h.list l).nth_eq, List.mem_iff_getElem?]

section Merge

variable {mgr : PgMgr} {seg : PgRoot} {d : DspPtr} {l : ℕ}

/-- The address of a placed block is a multiple of its size. -/
theorem addr_of_placed (haddr : mgr.AddrEq) (hseg : mgr.roots[d.root]? = some seg)
    (hd : Placed mgr.roots (d, l)) :
  mgr.addr d = seg.startAddr + d.idx * pgSz ∧ d.idx + 2 ^ l ≤ seg.numPages
    ∧ 2 ^ (pgSft + l) ∣ mgr.addr d
  := by
  obtain ⟨seg', hseg', hin, hdvd, -⟩ := hd
  obtain rfl : seg = seg' := Option.some.inj (hseg.symm.trans hseg')
  have hpos := Nat.two_pow_pos l
  have hin' : d.idx + 2 ^ l ≤ seg.numPages := hin
  have ha := haddr d seg hseg (by omega)
  refine ⟨ha, hin, ?_⟩
  rw [ha]
  exact hdvd

/-- The merge test of a left half looks at the block after it. -/
theorem tryMerge_left (hroots : RootsWf mgr.roots) (haddr : mgr.AddrEq)
    (hseg : mgr.roots[d.root]? = some seg) (hd : Placed mgr.roots (d, l))
    (hdvd : 2 ^ (pgSft + l + 1) ∣ mgr.addr d) :
  mgr.buddy d l = d.add (2 ^ l)
    ∧ mgr.tryMerge seg d l
      = (decide (d.idx + 2 ^ l < seg.numPages) && !mgr.used (d.add (2 ^ l)))
  := by
  obtain ⟨ha, hin, hal⟩ := addr_of_placed haddr hseg hd
  have hbuddy : mgr.buddy d l = d.add (2 ^ l) := by
    rw [buddy, (Bits.and_one_shiftLeft_eq_zero hal).mpr hdvd, if_neg (by simp), Nat.one_shiftLeft]
  have hlow : mgr.addr d &&& (1 <<< (pgSft + l - 1)) = 0 := by
    apply Bits.and_one_shiftLeft_of_lt hal
    have : pgSft = 20 := rfl
    omega
  have hseg' : addrInSegment seg (mgr.addr d ^^^ (1 <<< (pgSft + l)))
      = decide (d.idx + 2 ^ l < seg.numPages) := by
    rw [Bits.xor_one_shiftLeft_of_dvd hdvd, addrInSegment, ha, pow_pgSft_add,
      ← hroots.numPages_mul (List.mem_of_getElem? hseg), Nat.add_assoc, ← Nat.add_mul]
    have hlt : seg.startAddr + (d.idx + 2 ^ l) * pgSz < seg.startAddr + seg.numPages * pgSz
        ↔ d.idx + 2 ^ l < seg.numPages := by
      rw [Nat.add_lt_add_iff_left, Nat.mul_lt_mul_right pgSz_pos]
    simp only [hlt, Nat.le_add_right, decide_true, Bool.true_and]
  refine ⟨hbuddy, ?_⟩
  rw [tryMerge, hlow, hseg', hbuddy]
  rfl

/-- The merge test of a right half looks at the block before it. -/
theorem tryMerge_right (hroots : RootsWf mgr.roots) (haddr : mgr.AddrEq)
    (hseg : mgr.roots[d.root]? = some seg) (hd : Placed mgr.roots (d, l))
    (hdvd : ¬ 2 ^ (pgSft + l + 1) ∣ mgr.addr d) :
  mgr.buddy d l = d.sub (2 ^ l)
    ∧ mgr.tryMerge seg d l = (decide (2 ^ l ≤ d.idx) && !mgr.used (d.sub (2 ^ l)))
  := by
  obtain ⟨ha, hin, hal⟩ := addr_of_placed haddr hseg hd
  have hbuddy : mgr.buddy d l = d.sub (2 ^ l) := by
    rw [buddy, if_pos, Nat.one_shiftLeft]
    intro hzero
    exact hdvd ((Bits.and_one_shiftLeft_eq_zero hal).mp hzero)
  have hlow : mgr.addr d &&& (1 <<< (pgSft + l - 1)) = 0 := by
    apply Bits.and_one_shiftLeft_of_lt hal
    have : pgSft = 20 := rfl
    omega
  have hseg' : addrInSegment seg (mgr.addr d ^^^ (1 <<< (pgSft + l)))
      = decide (2 ^ l ≤ d.idx) := by
    have hx := Bits.xor_one_shiftLeft_of_not_dvd hal hdvd
    have hend := hroots.numPages_mul (List.mem_of_getElem? hseg)
    have hpos := Nat.two_pow_pos l
    have hmul : d.idx * pgSz < seg.numPages * pgSz :=
      Nat.mul_lt_mul_of_pos_right (by omega) pgSz_pos
    generalize mgr.addr d ^^^ (1 <<< (pgSft + l)) = x at hx ⊢
    rw [pow_pgSft_add, ha] at hx
    rw [addrInSegment]
    have hle : seg.startAddr ≤ x ↔ 2 ^ l ≤ d.idx := by
      have hm : 2 ^ l * pgSz ≤ d.idx * pgSz ↔ 2 ^ l ≤ d.idx := Nat.mul_le_mul_right_iff pgSz_pos
      rw [← hm]
      omega
    have hlt : x < seg.endAddr := by omega
    simp only [hle, hlt, decide_true, Bool.and_true]
  refine ⟨hbuddy, ?_⟩
  rw [tryMerge, hlow, hseg', hbuddy]
  rfl

/-- A placed block that merges with a placed buddy makes a placed block, and the pages of
the two are the pages of the merged block. -/
theorem merge_spec (hroots : RootsWf mgr.roots) (haddr : mgr.AddrEq)
    (hseg : mgr.roots[d.root]? = some seg) (hd : Placed mgr.roots (d, l))
    (hl : l < pgmgrMaxlvl) (hmerge : mgr.tryMerge seg d l = true)
    (hb : Placed mgr.roots (mgr.buddy d l, l)) :
  Placed mgr.roots (lower (mgr.buddy d l) d, l + 1)
    ∧ (lower (mgr.buddy d l) d).root = d.root
    ∧ ∀ e, cover [(lower (mgr.buddy d l) d, l + 1)] e
        = cover [(d, l)] e + cover [(mgr.buddy d l, l)] e
  := by
  have hpos := Nat.two_pow_pos l
  obtain ⟨ha, hin, hal⟩ := addr_of_placed haddr hseg hd
  by_cases hdvd : 2 ^ (pgSft + l + 1) ∣ mgr.addr d
  · obtain ⟨hbuddy, -⟩ := tryMerge_left hroots haddr hseg hd hdvd
    have hlow : lower (mgr.buddy d l) d = d := by
      rw [hbuddy, lower, if_neg]
      simp [DspPtr.add]
    rw [hlow, hbuddy]
    refine ⟨?_, rfl, ?_⟩
    · obtain ⟨seg', hseg', hin', -, -⟩ := hbuddy ▸ hb
      obtain rfl : seg = seg' := Option.some.inj (hseg.symm.trans hseg')
      refine ⟨seg, hseg, ?_, ?_, hl⟩
      · show d.idx + 2 ^ (l + 1) ≤ seg.numPages
        have : d.idx + 2 ^ l + 2 ^ l ≤ seg.numPages := hin'
        rw [pow_succ]
        omega
      · rw [← ha]
        exact hdvd
    · intro e
      exact (cover_split d l e).symm
  · obtain ⟨hbuddy, htry⟩ := tryMerge_right hroots haddr hseg hd hdvd
    rw [htry, Bool.and_eq_true, decide_eq_true_eq] at hmerge
    have hle := hmerge.1
    have hlow : lower (mgr.buddy d l) d = d.sub (2 ^ l) := by
      rw [hbuddy, lower, if_pos]
      show d.idx - 2 ^ l < d.idx
      omega
    have hadd : (d.sub (2 ^ l)).add (2 ^ l) = d := by
      show (⟨d.root, d.idx - 2 ^ l + 2 ^ l⟩ : DspPtr) = d
      rw [Nat.sub_add_cancel hle]
    rw [hlow, hbuddy]
    refine ⟨?_, rfl, ?_⟩
    · refine ⟨seg, hseg, ?_, ?_, hl⟩
      · show d.idx - 2 ^ l + 2 ^ (l + 1) ≤ seg.numPages
        rw [pow_succ]
        omega
      · -- the multiple of `2 ^ (20 + l)` before an odd one is even
        show 2 ^ (pgSft + (l + 1)) ∣ seg.startAddr + (d.idx - 2 ^ l) * pgSz
        have hx : seg.startAddr + (d.idx - 2 ^ l) * pgSz + 2 ^ (pgSft + l) = mgr.addr d := by
          rw [ha, pow_pgSft_add, Nat.add_assoc, ← Nat.add_mul, Nat.sub_add_cancel hle]
        generalize seg.startAddr + (d.idx - 2 ^ l) * pgSz = x at hx
        rw [← hx] at hdvd hal
        obtain ⟨c, hc⟩ := (Nat.dvd_add_left (Nat.dvd_refl (2 ^ (pgSft + l)))).mp hal
        rw [← Nat.add_assoc, pow_succ, hc]
        apply Nat.mul_dvd_mul_left
        rw [hc, pow_succ, ← Nat.mul_succ] at hdvd
        have hodd : ¬ 2 ∣ c + 1 := fun h => hdvd (Nat.mul_dvd_mul_left _ h)
        omega
    · intro e
      rw [← cover_split, hadd]
      omega

end Merge

/-- Every buddy that the merge loop of `pg_free_page` takes is on the free list of the
level at which it is taken. -/
def MergeSafe (mgr : PgMgr) (seg : PgRoot) : ℕ → DspPtr → ℕ → Prop
  | 0, _, _ => True
  | n + 1, dsp, lvl =>
      mgr.tryMerge seg dsp lvl = true →
        mgr.OnFreeList lvl (mgr.buddy dsp lvl)
          ∧ MergeSafe mgr seg n (lower (mgr.buddy dsp lvl) dsp) (lvl + 1)

/-- `MergeSafe` for the block that `pg_free_page mgr ptr` looks up. -/
def FreeSafe (mgr : PgMgr) (ptr : ℕ) : Prop :=
  ∀ l seg, searchRoot mgr.roots ptr (mgr.roots.length + 1) 0 mgr.roots.length = some l →
    mgr.roots[l]? = some seg → addrInSegment seg ptr = true →
    mgr.MergeSafe seg (pgmgrMaxlvl - mgr.lvl ⟨l, (ptr - seg.startAddr) >>> pgSft⟩)
      ⟨l, (ptr - seg.startAddr) >>> pgSft⟩ (mgr.lvl ⟨l, (ptr - seg.startAddr) >>> pgSft⟩)

/-- The merge loop keeps the count of every page when the merges are safe. The links and
heads are those of the moment; the flags and addresses, and the free lists from the
current level on, are those of `mgr`. -/
theorem combine_spec {mgr : PgMgr} {fl₀ : ℕ → List DspPtr} {seg : PgRoot}
    (hroots : RootsWf mgr.roots) (haddr : mgr.AddrEq)
    (hf₀ : DList.Forest mgr.links mgr.freeLists fl₀) (n : ℕ) {d : DspPtr} {l : ℕ}
    {links : DList.Links DspPtr} {heads : ℕ → Option DspPtr} {fl : ℕ → List DspPtr}
    (hf : DList.Forest links heads fl) (hfl : ∀ k, l ≤ k → fl k = fl₀ k)
    (hn : l + n = pgmgrMaxlvl) (hseg : mgr.roots[d.root]? = some seg)
    (hd : Placed mgr.roots (d, l)) (hpl : ∀ b ∈ freeBlocks fl, Placed mgr.roots b)
    (hsafe : mgr.MergeSafe seg n d l) :
  ∃ links' heads' fl' d' k,
    combine seg n { mgr with links := links, freeLists := heads } d l
      = some ({ mgr with links := links', freeLists := heads' }, d', k)
    ∧ DList.Forest links' heads' fl'
    ∧ (∀ j, pgmgrMaxlvl < j → fl' j = fl j)
    ∧ Placed mgr.roots (d', k)
    ∧ (∀ b ∈ freeBlocks fl', b ∈ freeBlocks fl)
    ∧ ∀ e, cover ((d', k) :: freeBlocks fl') e = cover ((d, l) :: freeBlocks fl) e
  := by
  induction n generalizing d l links heads fl with
  | zero =>
    use links, heads, fl, d, l, rfl, hf, fun _ _ => rfl, hd, fun _ h => h
    intro e
    rfl
  | succ n ih =>
    by_cases htry : mgr.tryMerge seg d l = true
    · obtain ⟨hon, hsafe'⟩ := hsafe htry
      have hmem : mgr.buddy d l ∈ fl l := by
        rw [hfl l le_rfl]
        exact (onFreeList_iff hf₀).mp hon
      obtain ⟨links₁, heads₁, hdel, hf₁⟩ :=
        dlDelete_spec { mgr with links := links, freeLists := heads } hf hmem
      have herase := freeBlocks_erase (show l ≤ pgmgrMaxlvl by omega) hmem
      have hsub : ∀ b ∈ freeBlocks (Function.update fl l ((fl l).erase (mgr.buddy d l))),
          b ∈ freeBlocks fl := by
        intro b hb
        apply herase.mem_iff.mpr
        apply List.mem_cons_of_mem _ hb
      have hb : Placed mgr.roots (mgr.buddy d l, l) := by
        apply hpl
        apply mem_freeBlocks.mpr ⟨by omega, hmem⟩
      obtain ⟨hplaced, hroot, hcover⟩ :=
        merge_spec hroots haddr hseg hd (by omega) htry hb
      obtain ⟨links', heads', fl', d', k, hcomb, hf', hhigh, hd', hsub', hcover'⟩ :=
        ih hf₁ (by
          intro k hk
          rw [Function.update_of_ne (by omega)]
          apply hfl k (by omega)) (by omega) (hroot ▸ hseg) hplaced
          (fun b hb => hpl b (hsub b hb)) hsafe'
      use links', heads', fl', d', k
      refine ⟨?_, hf', ?_, hd', fun b hb => hsub b (hsub' b hb), ?_⟩
      · have htry' : tryMerge { mgr with links := links, freeLists := heads } seg d l = true := htry
        rw [combine, if_pos htry']
        simp only [Option.bind_eq_bind]
        have hdel' : dlDelete { mgr with links := links, freeLists := heads } l
            (buddy { mgr with links := links, freeLists := heads } d l)
              = some { mgr with links := links₁, freeLists := heads₁ } := hdel
        rw [hdel', Option.bind_some]
        exact hcomb
      · intro j hj
        rw [hhigh j hj, Function.update_of_ne (by omega)]
      · intro e
        have h1 := hcover' e
        have h2 := hcover e
        rw [cover_cons _ (freeBlocks (Function.update _ _ _))] at h1
        rw [h1, cover_cons _ (freeBlocks fl), cover_perm herase,
          cover_cons _ (freeBlocks (Function.update _ _ _))]
        omega
    · use links, heads, fl, d, l
      refine ⟨?_, hf, fun _ _ => rfl, hd, fun _ h => h, fun _ => rfl⟩
      have htry' : ¬ tryMerge { mgr with links := links, freeLists := heads } seg d l = true := htry
      rw [combine, if_neg htry']

/-- The binary search stays inside the array and stops at or before the root of an
address of one of the segments. -/
theorem searchRoot_spec {roots : List PgRoot} (hroots : RootsWf roots) {ptr t : ℕ} {seg : PgRoot}
    (ht : roots[t]? = some seg) (hptr : seg.startAddr ≤ ptr ∧ ptr < seg.endAddr)
    (fuel : ℕ) {l r : ℕ} (hl : l ≤ t) (hr : t ≤ r) (hrn : r ≤ roots.length)
    (hfuel : r - l < fuel) :
  ∃ l', searchRoot roots ptr fuel l r = some l' ∧ l' ≤ t
  := by
  induction fuel generalizing l r with
  | zero => omega
  | succ fuel ih =>
    rw [searchRoot]
    by_cases hlr : l < r
    · obtain ⟨segm, hm⟩ : ∃ segm, roots[(l + r) / 2]? = some segm := by
        refine ⟨_, List.getElem?_eq_getElem (show (l + r) / 2 < roots.length by omega)⟩
      simp only [if_pos hlr, hm]
      by_cases h1 : ptr < segm.startAddr
      · have := hroots.lt_of_lt_start ht hm hptr h1
        rw [if_pos h1, if_neg (by omega)]
        apply ih <;> omega
      · rw [if_neg h1]
        by_cases h2 : segm.endAddr ≤ ptr
        · have := hroots.lt_of_end_le ht hm hptr h2
          rw [if_pos h2]
          apply ih <;> omega
        · rw [if_neg h2]
          use l
    · rw [if_neg hlr]
      use l

/-- What `pg_free_page` does to a held block: it goes back to the free lists, possibly as
a part of a larger block, unless the binary search misses its root. -/
theorem pgFreePage_spec {mgr : PgMgr} {fl : ℕ → List DspPtr} {held : List Block}
    (h : mgr.Inv fl held) {b : Block} (hb : b ∈ held) (hsafe : mgr.FreeSafe (mgr.addr b.1)) :
  ∃ mgr' fl', mgr.pgFreePage (mgr.addr b.1) = some mgr' ∧ mgr'.Inv fl' (held.erase b)
    ∧ mgr'.roots = mgr.roots ∧ mgr'.addr = mgr.addr
  := by
  obtain ⟨d, l⟩ := b
  have hplaced := h.placed _ (List.mem_append_left _ hb)
  obtain ⟨seg, hseg, -, -, hl⟩ : ∃ seg, mgr.roots[d.root]? = some seg
      ∧ d.idx + 2 ^ l ≤ seg.numPages ∧ 2 ^ (pgSft + l) ∣ seg.startAddr + d.idx * pgSz
      ∧ l ≤ pgmgrMaxlvl := id hplaced
  obtain ⟨ha, hin, -⟩ : mgr.addr d = seg.startAddr + d.idx * pgSz
      ∧ d.idx + 2 ^ l ≤ seg.numPages ∧ 2 ^ (pgSft + l) ∣ mgr.addr d :=
    addr_of_placed h.addr hseg hplaced
  have hpos := Nat.two_pow_pos l
  have hend := h.roots.numPages_mul (List.mem_of_getElem? hseg)
  have hmul : d.idx * pgSz < seg.numPages * pgSz :=
    Nat.mul_lt_mul_of_pos_right (by omega) pgSz_pos
  have hptr : seg.startAddr ≤ mgr.addr d ∧ mgr.addr d < seg.endAddr := by omega
  obtain ⟨hdr, -⟩ := List.getElem?_eq_some_iff.mp hseg
  obtain ⟨t, ht, htle⟩ := searchRoot_spec h.roots hseg hptr (mgr.roots.length + 1)
    (Nat.zero_le _) (by omega) le_rfl (by omega)
  obtain ⟨segt, hsegt⟩ : ∃ segt, mgr.roots[t]? = some segt := by
    refine ⟨_, List.getElem?_eq_getElem (show t < mgr.roots.length by omega)⟩
  have hperm := List.perm_cons_erase hb
  by_cases hsegptr : addrInSegment segt (mgr.addr d) = true
  · -- the search found the root
    have htd : t = d.root := by
      rw [addrInSegment, Bool.and_eq_true, decide_eq_true_eq, decide_eq_true_eq] at hsegptr
      by_contra hne
      have := h.roots.disjoint hsegt hseg (by omega)
      omega
    subst htd
    obtain rfl := Option.some.inj (hseg.symm.trans hsegt)
    have hidx : (mgr.addr d - seg.startAddr) >>> pgSft = d.idx := by
      rw [ha, Nat.add_sub_cancel_left, Nat.shiftRight_eq_div_pow, pgSz_eq,
        Nat.mul_div_cancel _ (Nat.two_pow_pos _)]
    have hlvl : mgr.lvl d = l := (h.used _ hb).2
    have hsafe' := hsafe d.root seg ht hseg hsegptr
    simp only [hidx, hlvl] at hsafe'
    obtain ⟨links, heads, fl', d', k, hcomb, hf, hhigh, hd', hsub, hcover⟩ :=
      combine_spec h.roots h.addr h.forest (pgmgrMaxlvl - l) h.forest (fun _ _ => rfl)
        (Nat.add_sub_cancel' hl) hseg hplaced
        (fun b hb => h.placed b (List.mem_append_right _ hb)) hsafe'
    have high : ∀ j, pgmgrMaxlvl < j → fl' j = [] := by
      intro j hj
      rw [hhigh j hj, h.high j hj]
    have hcover' : ∀ e, cover ((d', k) :: (held.erase (d, l) ++ freeBlocks fl')) e
        = cover (held ++ freeBlocks fl) e := by
      intro e
      have h1 := hcover e
      rw [cover_cons _ (freeBlocks fl'), cover_cons _ (freeBlocks fl)] at h1
      rw [cover_cons _ (_ ++ _), cover_append, cover_append, cover_perm hperm,
        cover_cons _ (held.erase _)]
      omega
    have hapart : Apart ((d', k) :: freeBlocks fl') := by
      intro e
      have h1 := hcover' e
      have h2 := h.apart e
      rw [cover_cons, cover_append] at h1
      rw [cover_cons]
      omega
    have hk : k ≤ pgmgrMaxlvl := by
      obtain ⟨-, -, -, -, hk⟩ := hd'
      exact hk
    obtain ⟨links', heads', happ, hf'⟩ :=
      dlAppend_spec { mgr with links := links, freeLists := heads } hf k
        (not_mem_fl high hapart (covers_self (d', k)))
    have happend := freeBlocks_append fl' hk d'
    refine ⟨{ mgr with links := links', freeLists := heads' }, _, ?_,
      ⟨h.roots, h.addr, hf', ?_, ?_, ?_, ?_⟩, rfl, rfl⟩
    · simp only [pgFreePage, ht, Option.bind_eq_bind, Option.bind_some, hseg, hsegptr, if_true,
        hidx, hlvl]
      have hcomb' : combine seg (pgmgrMaxlvl - l) mgr ⟨d.root, d.idx⟩ l
          = some ({ mgr with links := links, freeLists := heads }, d', k) := hcomb
      rw [hcomb', Option.bind_some]
      exact happ
    · intro j hj
      rw [Function.update_of_ne (by omega), high j hj]
    · intro b hb'
      rcases List.mem_append.mp hb' with hb' | hb'
      · apply h.placed b (List.mem_append_left _ (List.mem_of_mem_erase hb'))
      · rcases List.mem_cons.mp (happend.mem_iff.mp hb') with rfl | hb'
        · exact hd'
        · apply h.placed b (List.mem_append_right _ (hsub b hb'))
    · intro e
      have h1 := hcover' e
      have h2 := h.apart e
      rw [cover_cons, cover_append] at h1
      rw [cover_append, cover_perm happend, cover_cons _ (freeBlocks fl')]
      omega
    · intro b hb'
      apply h.used b (List.mem_of_mem_erase hb')
  · -- the search missed the root, and nothing is freed
    refine ⟨mgr, fl, ?_, ⟨h.roots, h.addr, h.forest, h.high, ?_, ?_, ?_⟩, rfl, rfl⟩
    · simp only [pgFreePage, ht, Option.bind_eq_bind, Option.bind_some, hsegt, if_neg hsegptr]
    · intro b hb'
      apply h.placed b
      rcases List.mem_append.mp hb' with hb' | hb'
      · apply List.mem_append_left _ (List.mem_of_mem_erase hb')
      · apply List.mem_append_right _ hb'
    · intro e
      have h2 := h.apart e
      rw [cover_append, cover_perm hperm, cover_cons _ (held.erase _)] at h2
      rw [cover_append]
      omega
    · intro b hb'
      apply h.used b (List.mem_of_mem_erase hb')

end PgMgr

end TrainsOs
