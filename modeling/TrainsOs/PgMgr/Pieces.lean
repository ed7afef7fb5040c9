import TrainsOs.PgMgr.Exclusive

/-!
# Where the blocks handed out were cut from

While a page manager only allocates, every block handed out is the lower end of a block
that was on a free list. That block was free at the beginning or is an upper half left
over from an earlier cut. A half is still free as long as its first page is not used.
-/

namespace TrainsOs

open PgMgr

/-- The block of level `lvl` at `dsp` was cut from the free block of level `src` at `dsp`. -/
structure Piece where
  dsp : DspPtr
  lvl : ℕ
  src : ℕ
deriving DecidableEq

namespace Piece

/-- The block that was handed out. -/
def block (t : Piece) : Block :=
  (t.dsp, t.lvl)

/-- The block that was cut. -/
def source (t : Piece) : Block :=
  (t.dsp, t.src)

/-- The upper halves left over. -/
def halves (t : Piece) : List Block :=
  TrainsOs.halves t.dsp t.lvl (t.src - t.lvl)

theorem mem_halves {t : Piece} (h : t.lvl ≤ t.src) {b : Block} :
  b ∈ t.halves ↔ t.lvl ≤ b.2 ∧ b.2 < t.src ∧ b.1 = t.dsp.add (2 ^ b.2)
  := by
  rw [halves, TrainsOs.mem_halves]
  constructor
  · rintro ⟨j, hj, rfl⟩
    refine ⟨Nat.le_add_right _ _, ?_, rfl⟩
    show t.lvl + j < t.src
    omega
  · rintro ⟨hlo, hhi, hb⟩
    use b.2 - t.lvl, by omega
    rw [Nat.add_sub_cancel' hlo, ← hb]

/-- The piece and its halves are the block that was cut. -/
theorem cover_source {t : Piece} (h : t.lvl ≤ t.src) (e : DspPtr) :
  cover [t.block] e + cover t.halves e = cover [t.source] e
  := by
  have := cover_halves t.dsp t.lvl (t.src - t.lvl) e
  rwa [Nat.add_sub_cancel' h] at this

theorem covers_of_mem_halves {t : Piece} (h : t.lvl ≤ t.src) {b : Block} (hb : b ∈ t.halves)
    {e : DspPtr} (he : covers e b = true) :
  covers e t.source = true
  := by
  have hpos := cover_pos hb he
  have := cover_source h e
  obtain ⟨c, hc, hce⟩ := exists_of_cover_pos (show 0 < cover [t.source] e by omega)
  obtain rfl := List.mem_singleton.mp hc
  exact hce

/-- A half determines the first page of the piece it was left over from. -/
theorem dsp_eq_of_mem_halves {t t' : Piece} (h : t.lvl ≤ t.src) (h' : t'.lvl ≤ t'.src) {b : Block}
    (hb : b ∈ t.halves) (hb' : b ∈ t'.halves) :
  t.dsp = t'.dsp
  := by
  have heq := ((mem_halves h).mp hb).2.2.symm.trans ((mem_halves h').mp hb').2.2
  obtain ⟨d, l, q⟩ := t
  obtain ⟨d', l', q'⟩ := t'
  rw [DspPtr.add, DspPtr.add, DspPtr.mk.injEq] at heq
  obtain ⟨hr, hi⟩ := heq
  cases d
  cases d'
  dsimp only at hr hi ⊢
  rw [DspPtr.mk.injEq]
  omega

end Piece

/-- The pieces `ts` have been handed out by a manager that began with the free blocks `fl₀`
and nothing handed out. -/
structure Pieces (mgr : PgMgr) (fl₀ fl : ℕ → List DspPtr) (ts : List Piece) : Prop where
  inv : mgr.Inv fl (ts.map Piece.block)
  le : ∀ t ∈ ts, t.lvl ≤ t.src
  placed : ∀ t ∈ ts, Placed mgr.roots t.source
  /-- A source was free at the beginning, or it is a half of another piece. -/
  source : ∀ t ∈ ts, t.source ∈ freeBlocks fl₀ ∨ ∃ t' ∈ ts, t.source ∈ t'.halves
  /-- Every source lies in a block that was free at the beginning. -/
  inside : ∀ t ∈ ts, ∃ c ∈ freeBlocks fl₀, t.src ≤ c.2
    ∧ ∀ e, covers e t.source = true → covers e c = true
  /-- A half is free and not used, or it has been cut. -/
  half : ∀ t ∈ ts, ∀ b ∈ t.halves, (b ∈ freeBlocks fl ∧ mgr.used b.1 = false)
    ∨ ∃ t' ∈ ts, t'.source = b
  free : ∀ b ∈ freeBlocks fl, b ∈ freeBlocks fl₀ ∨ ∃ t ∈ ts, b ∈ t.halves
  /-- What was free at the beginning is free or has been cut. -/
  initial : ∀ b ∈ freeBlocks fl₀, b ∈ freeBlocks fl ∨ ∃ t ∈ ts, t.source = b

theorem Pieces.nil {mgr : PgMgr} {fl : ℕ → List DspPtr} (h : mgr.Inv fl []) :
  Pieces mgr fl fl []
  := by
  constructor
  · exact h
  · intro t ht
    cases ht
  · intro t ht
    cases ht
  · intro t ht
    cases ht
  · intro t ht
    cases ht
  · intro t ht
    cases ht
  · intro b hb
    left
    exact hb
  · intro b hb
    left
    exact hb

/-- Allocating makes a new piece. -/
theorem Pieces.alloc {mgr : PgMgr} {fl₀ fl : ℕ → List DspPtr} {ts : List Piece}
    (h : Pieces mgr fl₀ fl ts) {p : ℕ} {mgr' : PgMgr} {ptr : ℕ}
    (halloc : mgr.pgAllocPage p = some (mgr', some ptr)) :
  ∃ fl' t, Pieces mgr' fl₀ fl' (t :: ts) ∧ ptr = mgr.addr t.dsp
    ∧ mgr'.roots = mgr.roots ∧ mgr'.addr = mgr.addr
  := by
  obtain ⟨hnone, -⟩ | ⟨d, n, mgr₁, fl', hn, hd, hsome, hinv, hperm, hroots, haddr, hused⟩ :=
    pgAllocPage_spec h.inv p
  · rw [halloc] at hnone
    simp at hnone
  rw [halloc] at hsome
  simp only [Option.some.injEq, Prod.mk.injEq] at hsome
  obtain ⟨rfl, rfl⟩ := hsome
  generalize pageLvl p = l at *
  -- the free blocks afterwards are the others and the halves of the new piece
  have hsrc : (d, l + n) ∈ freeBlocks fl := mem_freeBlocks.mpr ⟨hn, hd⟩
  have herase := freeBlocks_erase hn hd
  generalize Function.update fl (l + n) ((fl (l + n)).erase d) = fl₁ at *
  have hmem : ∀ b, b ∈ freeBlocks fl ↔ b = (d, l + n) ∨ b ∈ freeBlocks fl₁ := by
    intro b
    rw [herase.mem_iff, List.mem_cons]
  have hmem' : ∀ b, b ∈ freeBlocks fl' ↔ b ∈ halves d l n ∨ b ∈ freeBlocks fl₁ := by
    intro b
    rw [hperm.mem_iff, List.mem_append]
  have hhalves : (⟨d, l, l + n⟩ : Piece).halves = halves d l n := by
    rw [Piece.halves, Nat.add_sub_cancel_left]
  have hne : ∀ b ∈ halves d l n, b.1 ≠ d := by
    intro b hb hbd
    rw [← hhalves, Piece.mem_halves (Nat.le_add_right l n)] at hb
    have hpos := Nat.two_pow_pos b.2
    have hidx := congrArg DspPtr.idx (hb.2.2.symm.trans hbd)
    simp only [DspPtr.add] at hidx
    omega
  -- a block that stays free keeps its flag
  have hkeep : ∀ b ∈ freeBlocks fl₁, mgr.used b.1 = false → mgr'.used b.1 = false := by
    intro b hb hu
    have hbd : b.1 ≠ d := by
      intro hbd
      have happ : Apart ((d, l + n) :: freeBlocks fl₁) := by
        intro e
        have := h.inv.apart e
        rw [cover_append, cover_perm herase] at this
        omega
      apply happ.not_mem _ hb
      rw [hbd]
      apply covers_self (d, l + n)
    rw [hused, Function.update_of_ne hbd, clearUsed, hu, Bool.false_and]
  use fl', ⟨d, l, l + n⟩
  refine ⟨⟨?_, ?_, ?_, ?_, ?_, ?_, ?_, ?_⟩, rfl, hroots, haddr⟩
  · exact hinv
  · intro t ht
    rcases List.mem_cons.mp ht with rfl | ht
    · exact Nat.le_add_right l n
    · apply h.le t ht
  · intro t ht
    rw [hroots]
    rcases List.mem_cons.mp ht with rfl | ht
    · apply h.inv.placed _ (List.mem_append_right _ hsrc)
    · apply h.placed t ht
  · intro t ht
    rcases List.mem_cons.mp ht with rfl | ht
    · obtain hb | ⟨t, ht, hb⟩ := h.free _ hsrc
      · left
        exact hb
      · right
        use t, List.mem_cons_of_mem _ ht, hb
    · obtain hb | ⟨t', ht', hb⟩ := h.source t ht
      · left
        exact hb
      · right
        use t', List.mem_cons_of_mem _ ht', hb
  · intro t ht
    rcases List.mem_cons.mp ht with rfl | ht
    · obtain hb | ⟨t, ht, hb⟩ := h.free _ hsrc
      · use (d, l + n), hb, le_rfl
        intro e he
        exact he
      · obtain ⟨c, hc, hle, hcov⟩ := h.inside t ht
        have hlt := ((Piece.mem_halves (h.le t ht)).mp hb).2.1
        use c, hc
        constructor
        · show l + n ≤ c.2
          have : l + n < t.src := hlt
          omega
        · intro e he
          apply hcov e
          apply Piece.covers_of_mem_halves (h.le t ht) hb he
    · apply h.inside t ht
  · intro t ht b hb
    rcases List.mem_cons.mp ht with rfl | ht
    · left
      rw [hhalves] at hb
      use (hmem' b).mpr (Or.inl hb)
      rw [hused, Function.update_of_ne (hne b hb), clearUsed]
      have : (halves d l n).any (fun c => c.1 == b.1) = true := by
        rw [List.any_eq_true]
        use b, hb
        apply beq_self_eq_true
      rw [this, Bool.not_true, Bool.and_false]
    · obtain ⟨hfree, hu⟩ | ⟨t', ht', hb'⟩ := h.half t ht b hb
      · obtain rfl | hb₁ := (hmem b).mp hfree
        · right
          use ⟨d, l, l + n⟩, List.mem_cons_self
          rfl
        · left
          use (hmem' b).mpr (Or.inr hb₁), hkeep b hb₁ hu
      · right
        use t', List.mem_cons_of_mem _ ht', hb'
  · intro b hb
    obtain hb | hb := (hmem' b).mp hb
    · right
      use ⟨d, l, l + n⟩, List.mem_cons_self
      rw [hhalves]
      exact hb
    · obtain hb | ⟨t, ht, hb⟩ := h.free b ((hmem b).mpr (Or.inr hb))
      · left
        exact hb
      · right
        use t, List.mem_cons_of_mem _ ht, hb
  · intro b hb
    obtain hb | ⟨t, ht, hb⟩ := h.initial b hb
    · obtain rfl | hb := (hmem b).mp hb
      · right
        use ⟨d, l, l + n⟩, List.mem_cons_self
        rfl
      · left
        exact (hmem' b).mpr (Or.inr hb)
    · right
      use t, List.mem_cons_of_mem _ ht, hb

namespace Pieces

variable {mgr : PgMgr} {fl₀ fl : ℕ → List DspPtr} {ts : List Piece} (h : Pieces mgr fl₀ fl ts)

include h

theorem used {t : Piece} (ht : t ∈ ts) :
  mgr.used t.dsp = true ∧ mgr.lvl t.dsp = t.lvl
  := h.inv.used t.block (List.mem_map_of_mem ht)

/-- Pieces at different positions start at different pages. -/
theorem idx_inj {i j : ℕ} {t t' : Piece} (hi : ts[i]? = some t) (hj : ts[j]? = some t')
    (hd : t.dsp = t'.dsp) :
  i = j
  := by
  by_contra hij
  have hi' : (ts.map Piece.block ++ freeBlocks fl)[i]? = some t.block := by
    rw [List.getElem?_append_left, List.getElem?_map, hi]
    · rfl
    · rw [List.length_map]
      exact (List.getElem?_eq_some_iff.mp hi).1
  have hj' : (ts.map Piece.block ++ freeBlocks fl)[j]? = some t'.block := by
    rw [List.getElem?_append_left, List.getElem?_map, hj]
    · rfl
    · rw [List.length_map]
      exact (List.getElem?_eq_some_iff.mp hj).1
  apply h.inv.apart.not_both hij hi' hj' t.dsp
  constructor
  · apply covers_self t.block
  · rw [hd]
    apply covers_self t'.block

theorem dsp_inj {t t' : Piece} (ht : t ∈ ts) (ht' : t' ∈ ts) (hd : t.dsp = t'.dsp) :
  t = t'
  := by
  obtain ⟨i, hi⟩ := List.mem_iff_getElem?.mp ht
  obtain ⟨j, hj⟩ := List.mem_iff_getElem?.mp ht'
  obtain rfl := h.idx_inj hi hj hd
  apply Option.some.inj (hi.symm.trans hj)

theorem nodup :
  ts.Nodup
  := by
  rw [List.nodup_iff_getElem?_ne_getElem?]
  intro i j hij hj heq
  have hi := List.getElem?_eq_getElem (hij.trans hj)
  have := h.idx_inj hi (heq.symm.trans hi) rfl
  omega

/-- A piece is not free. -/
theorem not_free {t : Piece} (ht : t ∈ ts) {b : Block} (hb : b ∈ freeBlocks fl) :
  b.1 ≠ t.dsp
  := by
  intro hd
  have happ := h.inv.apart t.dsp
  rw [cover_append] at happ
  have h1 := cover_pos (List.mem_map_of_mem ht) (covers_self t.block)
  have h2 := cover_pos hb (covers_self b)
  rw [hd] at h2
  have h1' : 0 < cover (ts.map Piece.block) t.dsp := h1
  omega

/-- A half that is not used is free. -/
theorem free_of_half {t : Piece} (ht : t ∈ ts) {b : Block} (hb : b ∈ t.halves)
    (hu : mgr.used b.1 = false) :
  b ∈ freeBlocks fl
  := by
  obtain ⟨hfree, -⟩ | ⟨t', ht', rfl⟩ := h.half t ht b hb
  · exact hfree
  · have := (h.used ht').1
    rw [show mgr.used t'.dsp = false from hu] at this
    cases this

/-- A half that is free is not used. -/
theorem not_used_of_half {t : Piece} (ht : t ∈ ts) {b : Block} (hb : b ∈ t.halves)
    (hfree : b ∈ freeBlocks fl) :
  mgr.used b.1 = false
  := by
  obtain ⟨-, hu⟩ | ⟨t', ht', rfl⟩ := h.half t ht b hb
  · exact hu
  · cases h.not_free ht' hfree rfl

/-- A block that was free at the beginning is not a half. -/
theorem not_mem_halves (h₀ : Apart (freeBlocks fl₀)) {b : Block} (hb : b ∈ freeBlocks fl₀)
    {t : Piece} (ht : t ∈ ts) :
  b ∉ t.halves
  := by
  intro hhalf
  obtain ⟨c, hc, hle, hcov⟩ := h.inside t ht
  have hbc := hcov b.1 (Piece.covers_of_mem_halves (h.le t ht) hhalf (covers_self b))
  obtain rfl := h₀.eq_of_mem hb hc (covers_self b) hbc
  have := ((Piece.mem_halves (h.le t ht)).mp hhalf).2.1
  omega

/-- A source that is a half does not merge with the piece it was left over from. -/
theorem tryMerge_half {t t' : Piece} (ht : t ∈ ts) (ht' : t' ∈ ts) (hhalf : t.source ∈ t'.halves)
    {seg : PgRoot} (hseg : mgr.roots[t.dsp.root]? = some seg) :
  mgr.tryMerge seg t.dsp t.src = false
  := by
  obtain ⟨hlo, hhi, heq⟩ := (Piece.mem_halves (h.le t' ht')).mp hhalf
  have heq' : t.dsp = t'.dsp.add (2 ^ t.src) := heq
  have hhi' : t.src < t'.src := hhi
  have hroot : t.dsp.root = t'.dsp.root := by
    rw [heq', DspPtr.add]
  have hseg' := hseg
  rw [hroot] at hseg'
  obtain ⟨ha, -, -⟩ := addr_of_placed h.inv.addr hseg (h.placed t ht)
  obtain ⟨ha', -, hal'⟩ := addr_of_placed h.inv.addr hseg' (h.placed t' ht')
  have haddr : mgr.addr t.dsp = mgr.addr t'.dsp + 2 ^ (pgSft + t.src) := by
    have hidx : t.dsp.idx = t'.dsp.idx + 2 ^ t.src := by
      rw [heq', DspPtr.add]
    rw [ha, ha', pow_pgSft_add, hidx, Nat.add_mul, Nat.add_assoc]
  have hdvd : 2 ^ (pgSft + t.src + 1) ∣ mgr.addr t'.dsp := by
    apply dvd_trans (pow_dvd_pow 2 (show pgSft + t.src + 1 ≤ pgSft + t'.src by omega)) hal'
  have hodd : ¬ 2 ^ (pgSft + t.src + 1) ∣ mgr.addr t.dsp := by
    intro hd
    rw [haddr] at hd
    have hle := Nat.le_of_dvd (Nat.two_pow_pos _) ((Nat.dvd_add_right hdvd).mp hd)
    have := Nat.pow_lt_pow_right (show 1 < 2 by omega) (Nat.lt_succ_self (pgSft + t.src))
    rw [Nat.succ_eq_add_one] at this
    omega
  obtain ⟨-, htry⟩ := tryMerge_right h.inv.roots h.inv.addr hseg (h.placed t ht) hodd
  have hsub : t.dsp.sub (2 ^ t.src) = t'.dsp := by
    rw [heq', DspPtr.sub, DspPtr.add]
    dsimp only
    rw [Nat.add_sub_cancel]
  rw [htry, hsub, (h.used ht').1, Bool.not_true, Bool.and_false]

end Pieces

/-- A sequence of calls of `pg_alloc_page` that all succeed: the manager afterwards and the
addresses returned. -/
def PgMgr.allocAll : PgMgr → List ℕ → Option (PgMgr × List ℕ)
  | mgr, [] => some (mgr, [])
  | mgr, p :: ps => do
      let (mgr, res) ← mgr.pgAllocPage p
      let ptr ← res
      let (mgr, ptrs) ← mgr.allocAll ps
      some (mgr, ptr :: ptrs)

theorem Pieces.allocAll {ps : List ℕ} {mgr : PgMgr} {fl₀ fl : ℕ → List DspPtr} {ts : List Piece}
    (h : Pieces mgr fl₀ fl ts) {mgr' : PgMgr} {ptrs : List ℕ}
    (halloc : mgr.allocAll ps = some (mgr', ptrs)) :
  ∃ fl' ts', Pieces mgr' fl₀ fl' ts'
    ∧ (ts'.map fun t => mgr'.addr t.dsp).Perm (ptrs ++ ts.map fun t => mgr.addr t.dsp)
    ∧ mgr'.roots = mgr.roots ∧ mgr'.addr = mgr.addr
  := by
  induction ps generalizing mgr fl ts ptrs with
  | nil =>
    simp only [PgMgr.allocAll, Option.some.injEq, Prod.mk.injEq] at halloc
    obtain ⟨rfl, rfl⟩ := halloc
    use fl, ts, h, List.Perm.refl _
  | cons p ps ih =>
    simp only [PgMgr.allocAll, Option.bind_eq_bind, Option.bind_eq_some_iff, Prod.exists,
      Option.some.injEq, Prod.mk.injEq] at halloc
    obtain ⟨mgr₁, _, hp, ptr, rfl, mgr₂, ptrs', hps, rfl, rfl⟩ := halloc
    obtain ⟨fl₁, t, h₁, rfl, hroots₁, haddr₁⟩ := h.alloc hp
    obtain ⟨fl', ts', h', hperm, hroots, haddr⟩ := ih h₁ hps
    use fl', ts', h'
    refine ⟨?_, hroots.trans hroots₁, haddr.trans haddr₁⟩
    apply hperm.trans
    rw [haddr₁, List.map_cons]
    apply List.perm_middle

end TrainsOs
