import TrainsOs.PgMgr.Pieces

/-!
# Freeing everything that was allocated

Freeing the blocks that a fresh page manager has handed out gives back the free lists of
the beginning when each block is found by the binary search, no two of them were cut from
one free block, and no recombined block merges further.

`pg_free_page` never clears the flag `PGDSP_USED`, so two buddies that were both handed out
do not merge again, and what was cut from one free block in two or more pieces stays cut.
-/

namespace TrainsOs

open PgMgr

/-- A sequence of calls of `pg_free_page`. -/
def PgMgr.freeAll : PgMgr → List ℕ → Option PgMgr
  | mgr, [] => some mgr
  | mgr, ptr :: ptrs => do
      let mgr ← mgr.pgFreePage ptr
      mgr.freeAll ptrs

/-! ### Merging a piece with its halves -/

/-- The level that the piece at `d` of level `l` reaches when it merges with its halves of the
levels from `l` on, `n` of them: it stops at the first one that is used. -/
def recombineLvl (used : DspPtr → Bool) (d : DspPtr) : ℕ → ℕ → ℕ
  | 0, l => l
  | n + 1, l => if used (d.add (2 ^ l)) then l else recombineLvl used d n (l + 1)

theorem recombineLvl_spec (used : DspPtr → Bool) (d : DspPtr) (n l : ℕ) :
  l ≤ recombineLvl used d n l ∧ recombineLvl used d n l ≤ l + n
    ∧ (∀ j, l ≤ j → j < recombineLvl used d n l → used (d.add (2 ^ j)) = false)
    ∧ (recombineLvl used d n l < l + n → used (d.add (2 ^ recombineLvl used d n l)) = true)
  := by
  induction n generalizing l with
  | zero =>
    rw [recombineLvl]
    refine ⟨le_rfl, le_rfl, ?_, ?_⟩
    · intro j _ _
      omega
    · intro hlt
      omega
  | succ n ih =>
    rw [recombineLvl]
    obtain ⟨h1, h2, h3, h4⟩ := ih (l + 1)
    split_ifs with hu
    · refine ⟨le_rfl, Nat.le_add_right _ _, ?_, fun _ => hu⟩
      intro j _ _
      omega
    · refine ⟨by omega, by omega, ?_, ?_⟩
      · intro j hlo hhi
        obtain rfl | hlt := Nat.eq_or_lt_of_le hlo
        · simpa using hu
        · apply h3 j hlt hhi
      · intro hlt
        apply h4
        omega

/-- The halves from the lowest one on. -/
theorem halves_perm (d : DspPtr) (l n : ℕ) :
  (halves d l (n + 1)).Perm ((d.add (2 ^ l), l) :: halves d (l + 1) n)
  := by
  induction n with
  | zero => apply List.Perm.refl
  | succ n ih =>
    show List.Perm ((d.add (2 ^ (l + (n + 1))), l + (n + 1)) :: halves d l (n + 1))
      ((d.add (2 ^ l), l) :: (d.add (2 ^ (l + 1 + n)), l + 1 + n) :: halves d (l + 1) n)
    rw [show l + 1 + n = l + (n + 1) by omega]
    apply (ih.cons _).trans
    apply List.Perm.swap

/-- The merge loop started at the lower end `d` of the block `(d, q)` merges with the halves of
that block until it meets one that is used. -/
theorem combine_halves {mgr : PgMgr} {seg : PgRoot} {d : DspPtr} {q : ℕ}
    (hroots : RootsWf mgr.roots) (haddr : mgr.AddrEq) (hseg : mgr.roots[d.root]? = some seg)
    (hd : Placed mgr.roots (d, q)) (hstop : q < pgmgrMaxlvl → mgr.tryMerge seg d q = false)
    (n : ℕ) {l : ℕ} {links : DList.Links DspPtr} {heads : ℕ → Option DspPtr}
    {fl : ℕ → List DspPtr} (hq : l + n = q) (hf : DList.Forest links heads fl)
    (hfree : ∀ j, l ≤ j → j < q → mgr.used (d.add (2 ^ j)) = false → d.add (2 ^ j) ∈ fl j) :
  ∃ links' heads' fl',
    combine seg (pgmgrMaxlvl - l) { mgr with links := links, freeLists := heads } d l
      = some ({ mgr with links := links', freeLists := heads' }, d, recombineLvl mgr.used d n l)
    ∧ DList.Forest links' heads' fl' ∧ (∀ j, pgmgrMaxlvl < j → fl' j = fl j)
    ∧ (freeBlocks fl).Perm (halves d l (recombineLvl mgr.used d n l - l) ++ freeBlocks fl')
  := by
  have hqmax : q ≤ pgmgrMaxlvl := by
    obtain ⟨-, -, -, -, hmax⟩ := hd
    exact hmax
  induction n generalizing l links heads fl with
  | zero =>
    obtain rfl : l = q := hq
    use links, heads, fl
    refine ⟨?_, hf, fun _ _ => rfl, ?_⟩
    · rw [recombineLvl]
      obtain rfl | hlt := Nat.eq_or_lt_of_le hqmax
      · rw [Nat.sub_self]
        rfl
      · obtain ⟨k, hk⟩ : ∃ k, pgmgrMaxlvl - l = k + 1 := ⟨pgmgrMaxlvl - l - 1, by omega⟩
        rw [hk, combine, if_neg]
        rw [Bool.not_eq_true]
        exact hstop hlt
    · rw [recombineLvl, Nat.sub_self]
      apply List.Perm.refl
  | succ n ih =>
    obtain ⟨k, hk⟩ : ∃ k, pgmgrMaxlvl - l = k + 1 := ⟨pgmgrMaxlvl - l - 1, by omega⟩
    have hk' : pgmgrMaxlvl - (l + 1) = k := by omega
    obtain ⟨ha, hin, hal⟩ := addr_of_placed haddr hseg hd
    have hpow : 2 ^ l < 2 ^ q := Nat.pow_lt_pow_right (by omega) (by omega)
    obtain ⟨hbuddy, htry⟩ := tryMerge_left hroots haddr hseg (hd.pow_le (show l ≤ q by omega))
      (dvd_trans (pow_dvd_pow 2 (show pgSft + l + 1 ≤ pgSft + q by omega)) hal)
    rw [show decide (d.idx + 2 ^ l < seg.numPages) = true by
      rw [decide_eq_true_eq]
      omega, Bool.true_and] at htry
    rw [hk, combine, recombineLvl]
    cases hu : mgr.used (d.add (2 ^ l)) with
    | true =>
      rw [hu] at htry
      rw [if_pos rfl, if_neg]
      · use links, heads, fl, rfl, hf, fun _ _ => rfl
        rw [Nat.sub_self]
        apply List.Perm.refl
      · rw [Bool.not_eq_true]
        exact htry
    | false =>
      rw [hu] at htry
      have htry' : tryMerge { mgr with links := links, freeLists := heads } seg d l = true := htry
      have hmem := hfree l le_rfl (by omega) hu
      obtain ⟨links₁, heads₁, hdel, hf₁⟩ :=
        dlDelete_spec { mgr with links := links, freeLists := heads } hf hmem
      obtain ⟨links', heads', fl', hcomb, hf', hhigh, hperm⟩ := ih (l := l + 1) (by omega) hf₁ (by
        intro j hj hjq huj
        rw [Function.update_of_ne (by omega)]
        apply hfree j (by omega) hjq huj)
      have hlow : lower (d.add (2 ^ l)) d = d := by
        rw [lower, if_neg]
        simp [DspPtr.add]
      rw [if_pos htry', if_neg (by simp)]
      use links', heads', fl'
      refine ⟨?_, hf', ?_, ?_⟩
      · have hbuddy' : buddy { mgr with links := links, freeLists := heads } d l = d.add (2 ^ l) :=
          hbuddy
        simp only [hbuddy', hdel, Option.bind_eq_bind, Option.bind_some, hlow]
        rw [← hk']
        exact hcomb
      · intro j hj
        rw [hhigh j hj, Function.update_of_ne (by omega)]
      · obtain ⟨hle, -, -, -⟩ := recombineLvl_spec mgr.used d n (l + 1)
        have hsub : recombineLvl mgr.used d n (l + 1) - l
            = recombineLvl mgr.used d n (l + 1) - (l + 1) + 1 := by
          omega
        rw [hsub]
        apply (freeBlocks_erase (show l ≤ pgmgrMaxlvl by omega) hmem).trans
        apply (hperm.cons _).trans
        apply List.Perm.append_right _ (halves_perm d l _).symm

/-- The level that a piece reaches when it is freed. -/
def Piece.merged (t : Piece) (used : DspPtr → Bool) : ℕ :=
  recombineLvl used t.dsp (t.src - t.lvl) t.lvl

theorem Piece.merged_spec {t : Piece} (h : t.lvl ≤ t.src) (used : DspPtr → Bool) :
  t.lvl ≤ t.merged used ∧ t.merged used ≤ t.src
    ∧ (∀ b ∈ t.halves, b.2 < t.merged used → used b.1 = false)
    ∧ (t.merged used < t.src → ∃ b ∈ t.halves, used b.1 = true)
  := by
  obtain ⟨h1, h2, h3, h4⟩ := recombineLvl_spec used t.dsp (t.src - t.lvl) t.lvl
  rw [Nat.add_sub_cancel' h, ← Piece.merged] at h2 h4
  rw [← Piece.merged] at h1 h3
  refine ⟨h1, h2, ?_, ?_⟩
  · intro b hb hlt
    obtain ⟨hlo, -, heq⟩ := (Piece.mem_halves h).mp hb
    rw [heq]
    apply h3 b.2 hlo hlt
  · intro hlt
    use (t.dsp.add (2 ^ t.merged used), t.merged used)
    use (Piece.mem_halves h).mpr ⟨h1, hlt, rfl⟩
    apply h4 hlt

/-! ### Finding the root -/

/-- The binary search of `pg_free_page` finds the root of the address. -/
def FindsRoot (roots : List PgRoot) (ptr : ℕ) : Prop :=
  ∃ l seg, searchRoot roots ptr (roots.length + 1) 0 roots.length = some l
    ∧ roots[l]? = some seg ∧ addrInSegment seg ptr = true

section FindsRoot

variable {mgr : PgMgr} {d : DspPtr} {l : ℕ} (hroots : RootsWf mgr.roots) (haddr : mgr.AddrEq)
  (hd : Placed mgr.roots (d, l))

include hroots haddr hd

/-- A freed block is looked up at its own descriptor, or nothing is done. -/
theorem findsRoot_or :
  (FindsRoot mgr.roots (mgr.addr d) ∧ ∃ seg, mgr.roots[d.root]? = some seg
      ∧ searchRoot mgr.roots (mgr.addr d) (mgr.roots.length + 1) 0 mgr.roots.length = some d.root
      ∧ addrInSegment seg (mgr.addr d) = true ∧ (mgr.addr d - seg.startAddr) >>> pgSft = d.idx)
    ∨ (¬ FindsRoot mgr.roots (mgr.addr d) ∧ mgr.pgFreePage (mgr.addr d) = some mgr)
  := by
  obtain ⟨seg, hseg, ha, hlo, hhi⟩ := hd.mem_seg hroots haddr
  dsimp only at hseg ha hlo hhi
  have hpos : 0 < 2 ^ l * pgSz := Nat.mul_pos (Nat.two_pow_pos l) pgSz_pos
  have hptr : seg.startAddr ≤ mgr.addr d ∧ mgr.addr d < seg.endAddr := by omega
  obtain ⟨hdr, -⟩ := List.getElem?_eq_some_iff.mp hseg
  obtain ⟨t, ht, htle⟩ := searchRoot_spec hroots hseg hptr (mgr.roots.length + 1)
    (Nat.zero_le _) (by omega) le_rfl (by omega)
  obtain ⟨segt, hsegt⟩ : ∃ segt, mgr.roots[t]? = some segt :=
    ⟨_, List.getElem?_eq_getElem (show t < mgr.roots.length by omega)⟩
  by_cases hin : addrInSegment segt (mgr.addr d) = true
  · left
    have hin' := hin
    rw [addrInSegment, Bool.and_eq_true, decide_eq_true_eq, decide_eq_true_eq] at hin'
    obtain rfl : t = d.root := hroots.unique hsegt hseg hin' hptr
    obtain rfl := Option.some.inj (hseg.symm.trans hsegt)
    use ⟨d.root, seg, ht, hseg, hin⟩, seg, hseg, ht, hin
    rw [ha, Nat.add_sub_cancel_left, Nat.shiftRight_eq_div_pow, pgSz_eq,
      Nat.mul_div_cancel _ (Nat.two_pow_pos _)]
  · right
    constructor
    · rintro ⟨t', seg', ht', hseg', hin'⟩
      obtain rfl := Option.some.inj (ht.symm.trans ht')
      obtain rfl := Option.some.inj (hsegt.symm.trans hseg')
      exact hin hin'
    · simp only [pgFreePage, ht, Option.bind_eq_bind, Option.bind_some, hsegt, if_neg hin]

end FindsRoot

/-! ### Freeing the pieces -/

/-- The state while the pieces `ts` of the manager `mgr` are freed: the pieces `ks` are still
handed out, and the pieces `fs` have been merged with their halves. The flags and levels
are those of `mgr`; the free lists are those of the moment. -/
structure Freeing (mgr : PgMgr) (fl₁ : ℕ → List DspPtr) (ts : List Piece)
    (links : DList.Links DspPtr) (heads : ℕ → Option DspPtr) (fl : ℕ → List DspPtr)
    (ks fs : List Piece) : Prop where
  inv : Inv { mgr with links := links, freeLists := heads } fl (ks.map Piece.block)
  nodup : ks.Nodup
  mem : ∀ t, t ∈ ts ↔ t ∈ ks ∨ t ∈ fs
  disj : ∀ t ∈ ks, t ∉ fs
  free_iff : ∀ b, b ∈ freeBlocks fl ↔ (b ∈ freeBlocks fl₁ ∧ ∀ t ∈ ts, b ∉ t.halves)
    ∨ (∃ t ∈ ks, b ∈ t.halves ∧ mgr.used b.1 = false)
    ∨ ∃ t ∈ fs, b = (t.dsp, t.merged mgr.used)
      ∨ (b ∈ t.halves ∧ t.merged mgr.used ≤ b.2 ∧ mgr.used b.1 = false)

theorem Pieces.freeing {mgr : PgMgr} {fl₀ fl : ℕ → List DspPtr} {ts : List Piece}
    (h : Pieces mgr fl₀ fl ts) :
  Freeing mgr fl ts mgr.links mgr.freeLists fl ts []
  := by
  constructor
  · exact h.inv
  · exact h.nodup
  · simp
  · simp
  · intro b
    constructor
    · intro hb
      by_cases hhalf : ∃ t ∈ ts, b ∈ t.halves
      · obtain ⟨t, ht, hbt⟩ := hhalf
        right
        left
        use t, ht, hbt, h.not_used_of_half ht hbt hb
      · left
        use hb
        intro t ht hbt
        exact hhalf ⟨t, ht, hbt⟩
    · rintro (⟨hb, -⟩ | ⟨t, ht, hbt, hu⟩ | ⟨t, ht, -⟩)
      · exact hb
      · apply h.free_of_half ht hbt hu
      · cases ht

/-- A recombined piece does not merge further. -/
def Stops (mgr : PgMgr) (ts : List Piece) : Prop :=
  ∀ t ∈ ts, t.src < pgmgrMaxlvl → ∀ seg, mgr.roots[t.dsp.root]? = some seg →
    mgr.tryMerge seg t.dsp t.src = false

/-- The free blocks are no two times the same. -/
theorem Apart.nodup {bs : List Block} (h : Apart bs) :
  bs.Nodup
  := by
  rw [List.nodup_iff_getElem?_ne_getElem?]
  intro i j hij hj heq
  have hi := List.getElem?_eq_getElem (hij.trans hj)
  rw [hi] at heq
  apply h.not_both (Nat.ne_of_lt hij) hi heq.symm (bs[i].1)
  exact ⟨covers_self _, covers_self _⟩

/-- Merging the piece `t` with its halves and freeing it keeps track of what is free. -/
theorem Freeing.free_iff_free {mgr : PgMgr} {fl₀ fl₁ : ℕ → List DspPtr} {ts : List Piece}
    (h : Pieces mgr fl₀ fl₁ ts) {links : DList.Links DspPtr} {heads : ℕ → Option DspPtr}
    {fl : ℕ → List DspPtr} {ks fs : List Piece} (hs : Freeing mgr fl₁ ts links heads fl ks fs)
    {t : Piece} (ht : t ∈ ks) {bs : List Block}
    (hfree : ∀ b, b ∈ bs ↔ b = (t.dsp, t.merged mgr.used)
      ∨ (b ∈ freeBlocks fl ∧ ¬ (b ∈ t.halves ∧ b.2 < t.merged mgr.used))) :
  ∀ b, b ∈ bs ↔ (b ∈ freeBlocks fl₁ ∧ ∀ t ∈ ts, b ∉ t.halves)
    ∨ (∃ t' ∈ ks.erase t, b ∈ t'.halves ∧ mgr.used b.1 = false)
    ∨ ∃ t' ∈ t :: fs, b = (t'.dsp, t'.merged mgr.used)
      ∨ (b ∈ t'.halves ∧ t'.merged mgr.used ≤ b.2 ∧ mgr.used b.1 = false)
  := by
  have hts : t ∈ ts := (hs.mem t).mpr (Or.inl ht)
  have hle := h.le t hts
  obtain ⟨-, -, hm3, -⟩ := Piece.merged_spec hle mgr.used
  have hmemErase : ∀ t', t' ∈ ks.erase t ↔ t' ≠ t ∧ t' ∈ ks := by
    intro t'
    apply hs.nodup.mem_erase_iff
  have hother : ∀ t' ∈ ts, t' ≠ t → ∀ b ∈ t'.halves, b ∉ t.halves := by
    intro t' ht' hne b hb hbt
    apply hne
    apply h.dsp_inj ht' hts
    apply Piece.dsp_eq_of_mem_halves (h.le t' ht') hle hb hbt
  intro b
  rw [hfree, hs.free_iff]
  constructor
  · rintro (hb | ⟨hb | ⟨t', ht', hbt, hu⟩ | ⟨t', ht', hb⟩, hnot⟩)
    · right
      right
      use t, List.mem_cons_self
      left
      exact hb
    · left
      exact hb
    · by_cases heq : t' = t
      · -- the half was above the one at which the merge stopped
        subst heq
        right
        right
        use t', List.mem_cons_self
        right
        use hbt, not_lt.mp (fun hlt => hnot ⟨hbt, hlt⟩), hu
      · right
        left
        use t', (hmemErase t').mpr ⟨heq, ht'⟩, hbt, hu
    · right
      right
      use t', List.mem_cons_of_mem _ ht', hb
  · rintro (hb | ⟨t', ht', hbt, hu⟩ | ⟨t', ht', hb⟩)
    · right
      use Or.inl hb
      rintro ⟨hbt, -⟩
      exact hb.2 t hts hbt
    · obtain ⟨hne, hk⟩ := (hmemErase t').mp ht'
      right
      use Or.inr (Or.inl ⟨t', hk, hbt, hu⟩)
      rintro ⟨hbt', -⟩
      exact hother t' ((hs.mem t').mpr (Or.inl hk)) hne b hbt hbt'
    · obtain rfl | hfs := List.mem_cons.mp ht'
      · obtain hb | ⟨hbt, hge, hu⟩ := hb
        · left
          exact hb
        · right
          use Or.inr (Or.inl ⟨t', ht, hbt, hu⟩)
          rintro ⟨-, hlt⟩
          omega
      · have hts' : t' ∈ ts := (hs.mem t').mpr (Or.inr hfs)
        have hne : t' ≠ t := by
          rintro rfl
          exact hs.disj t' ht hfs
        right
        use Or.inr (Or.inr ⟨t', hfs, hb⟩)
        rintro ⟨hbt', hlt⟩
        obtain rfl | ⟨hbt, -, -⟩ := hb
        · -- the first page of a piece is used, and the merged halves are not
          have hu : mgr.used t'.dsp = false := hm3 _ hbt' hlt
          rw [(h.used hts').1] at hu
          cases hu
        · exact hother t' hts' hne b hbt hbt'

/-- Freeing a piece whose root is found merges it with its halves. -/
theorem Freeing.free {mgr : PgMgr} {fl₀ fl₁ : ℕ → List DspPtr} {ts : List Piece}
    (h : Pieces mgr fl₀ fl₁ ts) (hstop : Stops mgr ts) {links : DList.Links DspPtr}
    {heads : ℕ → Option DspPtr} {fl : ℕ → List DspPtr} {ks fs : List Piece}
    (hs : Freeing mgr fl₁ ts links heads fl ks fs) {t : Piece} (ht : t ∈ ks)
    (hfind : FindsRoot mgr.roots (mgr.addr t.dsp)) :
  ∃ links' heads' fl', pgFreePage { mgr with links := links, freeLists := heads } (mgr.addr t.dsp)
      = some { mgr with links := links', freeLists := heads' }
    ∧ Freeing mgr fl₁ ts links' heads' fl' (ks.erase t) (t :: fs)
  := by
  have hts : t ∈ ts := (hs.mem t).mpr (Or.inl ht)
  have hle := h.le t hts
  have hplaced := h.placed t hts
  obtain ⟨hfind', seg, hseg, hsearch, hin, hidx⟩ | ⟨hnot, -⟩ :=
    findsRoot_or h.inv.roots h.inv.addr (hplaced.pow_le hle)
  swap
  · cases hnot hfind
  obtain ⟨hused, hlvl⟩ := h.used hts
  obtain ⟨hm1, hm2, hm3, hm4⟩ := Piece.merged_spec hle mgr.used
  obtain ⟨links₁, heads₁, fl', hcomb, hf, hhigh, hperm⟩ :=
    combine_halves h.inv.roots h.inv.addr hseg hplaced (fun hlt => hstop t hts hlt seg hseg)
      (t.src - t.lvl) (Nat.add_sub_cancel' hle) hs.inv.forest (by
        intro j hlo hhi hu
        apply (mem_freeBlocks.mp _).2
        apply (hs.free_iff _).mpr
        right
        left
        use t, ht, (Piece.mem_halves hle).mpr ⟨hlo, hhi, rfl⟩, hu)
  rw [← Piece.merged] at hcomb hperm
  -- the blocks in hand and on the free lists cover what they covered before
  have hcover : ∀ e, cover [t.block] e + cover (freeBlocks fl) e
      = cover [(t.dsp, t.merged mgr.used)] e + cover (freeBlocks fl') e := by
    intro e
    have := cover_halves t.dsp t.lvl (t.merged mgr.used - t.lvl) e
    rw [Nat.add_sub_cancel' hm1] at this
    rw [cover_perm hperm, cover_append, ← this, Piece.block]
    omega
  have hheld := List.Perm.map Piece.block (List.perm_cons_erase ht)
  have hapart : ∀ e, cover ((ks.erase t).map Piece.block) e + cover [(t.dsp, t.merged mgr.used)] e
      + cover (freeBlocks fl') e ≤ 1 := by
    intro e
    have h1 := hs.inv.apart e
    have h2 := hcover e
    rw [cover_append, cover_perm hheld, List.map_cons, cover_cons] at h1
    omega
  have hmmax : t.merged mgr.used ≤ pgmgrMaxlvl := by
    obtain ⟨-, -, -, -, hmax⟩ := hplaced
    exact hm2.trans hmax
  have high : ∀ j, pgmgrMaxlvl < j → fl' j = [] := by
    intro j hj
    rw [hhigh j hj, hs.inv.high j hj]
  obtain ⟨links', heads', happ, hf'⟩ :=
    dlAppend_spec { mgr with links := links₁, freeLists := heads₁ } hf (t.merged mgr.used)
      (not_mem_fl (b := (t.dsp, t.merged mgr.used)) high (by
        intro e
        have := hapart e
        rw [cover_cons]
        omega) (covers_self _))
  have happend := freeBlocks_append fl' hmmax t.dsp
  have high' : ∀ j, pgmgrMaxlvl < j →
      Function.update fl' (t.merged mgr.used) (fl' (t.merged mgr.used) ++ [t.dsp]) j = [] := by
    intro j hj
    rw [Function.update_of_ne (by omega), high j hj]
  generalize
    Function.update fl' (t.merged mgr.used) (fl' (t.merged mgr.used) ++ [t.dsp]) = fl'' at *
  have hhalves : ∀ b, b ∈ halves t.dsp t.lvl (t.merged mgr.used - t.lvl)
      ↔ b ∈ t.halves ∧ b.2 < t.merged mgr.used := by
    intro b
    rw [Piece.mem_halves hle, mem_halves]
    constructor
    · rintro ⟨j, hj, rfl⟩
      refine ⟨⟨Nat.le_add_right _ _, ?_, rfl⟩, ?_⟩ <;> dsimp only <;> omega
    · rintro ⟨⟨hlo, -, hb⟩, hlt⟩
      use b.2 - t.lvl, by omega
      rw [Nat.add_sub_cancel' hlo, ← hb]
  -- what is free afterwards
  have hnd : (halves t.dsp t.lvl (t.merged mgr.used - t.lvl) ++ freeBlocks fl').Nodup := by
    apply hperm.nodup
    apply Apart.nodup
    intro e
    have := hs.inv.apart e
    rw [cover_append] at this
    omega
  have hfree : ∀ b, b ∈ freeBlocks fl'' ↔ b = (t.dsp, t.merged mgr.used)
      ∨ (b ∈ freeBlocks fl ∧ ¬ (b ∈ t.halves ∧ b.2 < t.merged mgr.used)) := by
    intro b
    rw [happend.mem_iff, List.mem_cons, hperm.mem_iff, List.mem_append, ← hhalves]
    constructor
    · rintro (hb | hb)
      · left
        exact hb
      · right
        use Or.inr hb
        intro hmem
        exact (List.nodup_append.mp hnd).2.2 b hmem b hb rfl
    · rintro (hb | ⟨hb | hb, hnot⟩)
      · left
        exact hb
      · cases hnot hb
      · right
        exact hb
  have hmemErase : ∀ t', t' ∈ ks.erase t ↔ t' ≠ t ∧ t' ∈ ks := by
    intro t'
    apply hs.nodup.mem_erase_iff
  use links', heads', fl''
  constructor
  · simp only [pgFreePage, hsearch, Option.bind_eq_bind, Option.bind_some, hseg, hin, if_true, hidx,
      hlvl]
    have hcomb' : combine seg (pgmgrMaxlvl - t.lvl) { mgr with links := links, freeLists := heads }
        ⟨t.dsp.root, t.dsp.idx⟩ t.lvl
          = some ({ mgr with links := links₁, freeLists := heads₁ }, t.dsp, t.merged mgr.used) :=
      hcomb
    rw [hcomb', Option.bind_some]
    exact happ
  constructor
  · refine ⟨h.inv.roots, h.inv.addr, hf', high', ?_, ?_, ?_⟩
    · intro b hb
      rcases List.mem_append.mp hb with hb | hb
      · apply hs.inv.placed b
        apply List.mem_append_left
        obtain ⟨t', ht', rfl⟩ := List.mem_map.mp hb
        apply List.mem_map_of_mem (List.mem_of_mem_erase ht')
      · obtain rfl | ⟨hb, -⟩ := (hfree b).mp hb
        · apply hplaced.pow_le hm2
        · apply hs.inv.placed b (List.mem_append_right _ hb)
    · intro e
      have h1 := hapart e
      rw [cover_append, cover_perm happend, cover_cons]
      omega
    · intro b hb
      obtain ⟨t', ht', rfl⟩ := List.mem_map.mp hb
      apply h.used ((hs.mem t').mpr (Or.inl (List.mem_of_mem_erase ht')))
  · apply hs.nodup.erase
  · intro t'
    rw [hs.mem, hmemErase, List.mem_cons]
    by_cases heq : t' = t
    · subst heq
      simp [ht]
    · simp [heq]
  · intro t' ht' hmem
    obtain ⟨hne, hk⟩ := (hmemErase t').mp ht'
    apply hs.disj t' hk
    apply (List.mem_cons.mp hmem).resolve_left hne
  · exact hs.free_iff_free h ht hfree

/-- Freeing pieces one after another merges those whose root is found. -/
theorem Freeing.freeAll {mgr : PgMgr} {fl₀ fl₁ : ℕ → List DspPtr} {ts : List Piece}
    (h : Pieces mgr fl₀ fl₁ ts) (hstop : Stops mgr ts) {ls : List Piece}
    {links : DList.Links DspPtr} {heads : ℕ → Option DspPtr} {fl : ℕ → List DspPtr}
    {ks fs : List Piece} (hs : Freeing mgr fl₁ ts links heads fl ks fs) (hls : ls.Nodup)
    (hsub : ∀ t ∈ ls, t ∈ ks) :
  ∃ links' heads' fl' ks' fs', PgMgr.freeAll { mgr with links := links, freeLists := heads }
        (ls.map fun t => mgr.addr t.dsp) = some { mgr with links := links', freeLists := heads' }
    ∧ Freeing mgr fl₁ ts links' heads' fl' ks' fs'
    ∧ ∀ t, t ∈ fs' ↔ t ∈ fs ∨ (t ∈ ls ∧ FindsRoot mgr.roots (mgr.addr t.dsp))
  := by
  induction ls generalizing links heads fl ks fs with
  | nil =>
    use links, heads, fl, ks, fs, rfl, hs
    simp
  | cons t ls ih =>
    rw [List.nodup_cons] at hls
    have ht := hsub t List.mem_cons_self
    have hts : t ∈ ts := (hs.mem t).mpr (Or.inl ht)
    by_cases hfind : FindsRoot mgr.roots (mgr.addr t.dsp)
    · obtain ⟨links₁, heads₁, fl₁', hfree, hs₁⟩ := hs.free h hstop ht hfind
      obtain ⟨links', heads', fl', ks', fs', hall, hs', hmem⟩ := ih hs₁ hls.2 (by
        intro t' ht'
        apply hs.nodup.mem_erase_iff.mpr
        constructor
        · rintro rfl
          exact hls.1 ht'
        · apply hsub t' (List.mem_cons_of_mem _ ht'))
      use links', heads', fl', ks', fs'
      refine ⟨?_, hs', ?_⟩
      · simp only [List.map_cons, PgMgr.freeAll, hfree, Option.bind_eq_bind, Option.bind_some]
        exact hall
      · intro t'
        rw [hmem, List.mem_cons, List.mem_cons]
        constructor
        · rintro ((rfl | hf) | hl)
          · right
            exact ⟨Or.inl rfl, hfind⟩
          · left
            exact hf
          · right
            exact ⟨Or.inr hl.1, hl.2⟩
        · rintro (hf | ⟨rfl | hl, hf⟩)
          · left
            right
            exact hf
          · left
            left
            rfl
          · right
            exact ⟨hl, hf⟩
    · obtain ⟨hyes, -⟩ | ⟨-, hfree⟩ := findsRoot_or hs.inv.roots hs.inv.addr
        ((h.placed t hts).pow_le (h.le t hts))
      · cases hfind hyes
      obtain ⟨links', heads', fl', ks', fs', hall, hs', hmem⟩ := ih hs hls.2 (by
        intro t' ht'
        apply hsub t' (List.mem_cons_of_mem _ ht'))
      use links', heads', fl', ks', fs'
      refine ⟨?_, hs', ?_⟩
      · have hfree' : pgFreePage { mgr with links := links, freeLists := heads } (mgr.addr t.dsp)
            = some { mgr with links := links, freeLists := heads } := hfree
        simp only [List.map_cons, PgMgr.freeAll, hfree', Option.bind_eq_bind, Option.bind_some]
        exact hall
      · intro t'
        rw [hmem, List.mem_cons]
        constructor
        · rintro (hf | hl)
          · left
            exact hf
          · right
            exact ⟨Or.inr hl.1, hl.2⟩
        · rintro (hf | ⟨rfl | hl, hf⟩)
          · left
            exact hf
          · cases hfind hf
          · right
            exact ⟨hl, hf⟩

/-! ### The blocks of the beginning -/

section Final

variable {mgr : PgMgr} {fl₀ fl₁ : ℕ → List DspPtr} {ts : List Piece} (h : Pieces mgr fl₀ fl₁ ts)
  (h₀ : Apart (freeBlocks fl₀)) {links : DList.Links DspPtr} {heads : ℕ → Option DspPtr}
  {fl : ℕ → List DspPtr} {ks fs : List Piece} (hs : Freeing mgr fl₁ ts links heads fl ks fs)

include h h₀ hs

/-- When all pieces were cut from blocks of the beginning and have been freed, the blocks of the
beginning are free again. -/
theorem Freeing.free_of_sources (hsrc : ∀ t ∈ ts, t.source ∈ freeBlocks fl₀)
    (hall : ∀ t ∈ ts, t ∈ fs) (b : Block) :
  b ∈ freeBlocks fl ↔ b ∈ freeBlocks fl₀
  := by
  have hmerged : ∀ t ∈ ts, t.merged mgr.used = t.src := by
    intro t ht
    obtain ⟨-, hle, -, hlt⟩ := Piece.merged_spec (h.le t ht) mgr.used
    apply le_antisymm hle
    by_contra hnot
    obtain ⟨c, hc, hu⟩ := hlt (not_le.mp hnot)
    obtain ⟨-, hu'⟩ | ⟨t', ht', rfl⟩ := h.half t ht c hc
    · rw [hu] at hu'
      cases hu'
    · exact h.not_mem_halves h₀ (hsrc t' ht') ht hc
  rw [hs.free_iff]
  constructor
  · rintro (⟨hb, hnot⟩ | ⟨t, ht, -⟩ | ⟨t, ht, hb⟩)
    · obtain hb | ⟨t, ht, hbt⟩ := h.free b hb
      · exact hb
      · cases hnot t ht hbt
    · have hts : t ∈ ts := (hs.mem t).mpr (Or.inl ht)
      cases hs.disj t ht (hall t hts)
    · have hts : t ∈ ts := (hs.mem t).mpr (Or.inr ht)
      rw [hmerged t hts] at hb
      obtain rfl | ⟨hbt, hge, -⟩ := hb
      · apply hsrc t hts
      · have := ((Piece.mem_halves (h.le t hts)).mp hbt).2.1
        omega
  · intro hb
    obtain hb' | ⟨t, ht, rfl⟩ := h.initial b hb
    · left
      use hb'
      intro t ht
      apply h.not_mem_halves h₀ hb ht
    · right
      right
      use t, hall t ht
      left
      rw [hmerged t ht]
      rfl

omit h₀ in
/-- When the blocks of the beginning are free again, all pieces were cut from blocks of the
beginning and have been freed. -/
theorem Freeing.sources_of_free (hfree : ∀ b, b ∈ freeBlocks fl₀ → b ∈ freeBlocks fl) :
  ∀ t ∈ ts, t.source ∈ freeBlocks fl₀ ∧ t ∈ fs
  := by
  have hused : ∀ t ∈ ts, mgr.used t.source.1 = true := fun t ht => (h.used ht).1
  -- a piece cut from a block of the beginning has merged to that block again
  have hinit : ∀ t ∈ ts, t.source ∈ freeBlocks fl₀ → t ∈ fs ∧ t.merged mgr.used = t.src := by
    intro t ht hsrc
    obtain ⟨hb, -⟩ | ⟨t', -, -, hu⟩ | ⟨t', ht', hb⟩ := (hs.free_iff _).mp (hfree _ hsrc)
    · cases h.not_free ht hb rfl
    · rw [hused t ht] at hu
      cases hu
    · obtain heq | ⟨-, -, hu⟩ := hb
      · obtain ⟨hd, hl⟩ := Prod.mk.inj heq
        obtain rfl := h.dsp_inj ht ((hs.mem t').mpr (Or.inr ht')) hd
        use ht', hl.symm
      · rw [hused t ht] at hu
        cases hu
  -- by induction on the size of the source: the larger pieces have no half that is used
  have hsrc : ∀ n, ∀ t ∈ ts, pgmgrMaxlvl - t.src = n → t.source ∈ freeBlocks fl₀ := by
    intro n
    induction n using Nat.strong_induction_on with
    | _ n ih =>
      intro t ht hn
      obtain hb | ⟨t', ht', hb⟩ := h.source t ht
      · exact hb
      · have hlt : t.src < t'.src := ((Piece.mem_halves (h.le t' ht')).mp hb).2.1
        have hmax : t'.src ≤ pgmgrMaxlvl := by
          obtain ⟨-, -, -, -, hmax⟩ := h.placed t' ht'
          exact hmax
        have hsrc' := ih (pgmgrMaxlvl - t'.src) (by omega) t' ht' rfl
        obtain ⟨-, hmerged⟩ := hinit t' ht' hsrc'
        obtain ⟨-, -, hu, -⟩ := Piece.merged_spec (h.le t' ht') mgr.used
        have hu' := hu t.source hb (by
          rw [hmerged]
          exact hlt)
        rw [hused t ht] at hu'
        cases hu'
  intro t ht
  have ht' := hsrc _ t ht rfl
  use ht', (hinit t ht ht').1

end Final

/-! ### The round trip -/

/-- The free lists hold the same blocks, and what could be allocated can be allocated again. -/
structure PgMgr.Recombined (mgr₀ mgr₂ : PgMgr) : Prop where
  addr : mgr₂.addr = mgr₀.addr
  blocks : ∀ l d, l ≤ pgmgrMaxlvl → (mgr₂.OnFreeList l d ↔ mgr₀.OnFreeList l d)
  alloc : ∀ p m a, mgr₀.pgAllocPage p = some (m, some a) →
    ∃ m' a', mgr₂.pgAllocPage p = some (m', some a')

/-- No two of the addresses lie in one free block of the manager. -/
def OnePerBlock (mgr : PgMgr) (ptrs : List ℕ) : Prop :=
  ∀ l d, l ≤ pgmgrMaxlvl → mgr.OnFreeList l d → ∀ p ∈ ptrs, ∀ p' ∈ ptrs,
    InBlock p (mgr.addr d, l) → InBlock p' (mgr.addr d, l) → p = p'

/-- With the flags of `mgr₁`, a free block of `mgr₀` from which one of the addresses was handed out
does not merge with its buddy. -/
def StopsAtSource (mgr₀ mgr₁ : PgMgr) (ptrs : List ℕ) : Prop :=
  ∀ l d seg, l < pgmgrMaxlvl → mgr₀.OnFreeList l d → mgr₀.roots[d.root]? = some seg →
    (∃ p ∈ ptrs, InBlock p (mgr₀.addr d, l)) → mgr₁.tryMerge seg d l = false

/-- The members of a list that is a rearrangement of the values of `f`. -/
theorem exists_of_perm_map {α β : Type} [DecidableEq α] {f : α → β} {ys : List β} {xs : List α}
    (h : ys.Perm (xs.map f)) :
  ∃ zs : List α, zs.Perm xs ∧ ys = zs.map f
  := by
  induction ys generalizing xs with
  | nil =>
    use []
    have := h.symm.eq_nil
    rw [List.map_eq_nil_iff] at this
    rw [this]
    use List.Perm.refl _
    rfl
  | cons y ys ih =>
    obtain ⟨x, hx, rfl⟩ := List.mem_map.mp (h.mem_iff.mp List.mem_cons_self)
    have hxs := List.perm_cons_erase hx
    obtain ⟨zs, hzs, rfl⟩ := ih ((h.trans (hxs.map f)).cons_inv)
    use x :: zs
    use (hzs.cons x).trans hxs.symm
    rfl

theorem PgMgr.Inv.onFreeList_iff {mgr : PgMgr} {fl : ℕ → List DspPtr} {held : List Block}
    (h : mgr.Inv fl held) {l : ℕ} (hl : l ≤ pgmgrMaxlvl) {d : DspPtr} :
  mgr.OnFreeList l d ↔ (d, l) ∈ freeBlocks fl
  := by
  rw [PgMgr.onFreeList_iff h.forest, mem_freeBlocks]
  constructor
  · intro hd
    use hl, hd
  · intro hd
    exact hd.2

/-- Which sizes can be allocated depends only on the free blocks. -/
theorem PgMgr.Inv.recombined {mgr₀ mgr₂ : PgMgr} {fl₀ fl₂ : ℕ → List DspPtr}
    {held₀ held₂ : List Block}
    (h₀ : mgr₀.Inv fl₀ held₀) (h₂ : mgr₂.Inv fl₂ held₂) (haddr : mgr₂.addr = mgr₀.addr)
    (hfree : ∀ b, b ∈ freeBlocks fl₂ ↔ b ∈ freeBlocks fl₀) :
  mgr₀.Recombined mgr₂
  := by
  constructor
  · exact haddr
  · intro l d hl
    rw [h₀.onFreeList_iff hl, h₂.onFreeList_iff hl, hfree]
  · intro p m a hsome
    obtain ⟨hnone, -⟩ | ⟨d, n, -, -, hn, hd, -⟩ := pgAllocPage_spec h₀ p
    · rw [hnone] at hsome
      simp at hsome
    · obtain ⟨-, hempty⟩ | ⟨d', -, mgr', -, -, -, hsome', -⟩ := pgAllocPage_spec h₂ p
      · have hmem := (hfree _).mpr (mem_freeBlocks.mpr ⟨hn, hd⟩)
        rw [mem_freeBlocks, hempty _ (Nat.le_add_right _ _) hn] at hmem
        cases hmem.2
      · exact ⟨mgr', _, hsome'⟩

section RoundTrip

variable {mgr₀ mgr₁ : PgMgr} {fl₀ fl₁ : ℕ → List DspPtr} {ts : List Piece} {addrs ptrs : List ℕ}
  (h₀ : mgr₀.Inv fl₀ []) (h : Pieces mgr₁ fl₀ fl₁ ts) (hroots : mgr₁.roots = mgr₀.roots)
  (haddr : mgr₁.addr = mgr₀.addr)

include h

theorem Pieces.addr_inj {t t' : Piece} (ht : t ∈ ts) (ht' : t' ∈ ts)
    (heq : mgr₁.addr t.dsp = mgr₁.addr t'.dsp) :
  t = t'
  := by
  have hmem : ∀ s ∈ ts, s.block ∈ ts.map Piece.block ++ freeBlocks fl₁ := by
    intro s hs
    apply List.mem_append_left
    apply List.mem_map_of_mem hs
  have hin : InBlock (mgr₁.addr t'.dsp) (mgr₁.addr t.block.1, t.block.2) := by
    rw [← heq]
    apply inBlock_self
  obtain ⟨e, he, he'⟩ := exists_common_page h.inv.roots h.inv.addr (h.inv.placed _ (hmem t ht))
    (h.inv.placed _ (hmem t' ht')) hin (inBlock_self t'.block)
  have hb := h.inv.apart.eq_of_mem (hmem t ht) (hmem t' ht') he he'
  apply h.dsp_inj ht ht' (Prod.mk.inj hb).1

include h₀ hroots haddr

/-- A piece whose address lies in a block of the beginning was cut from it, unless it was cut
from a half. -/
theorem Pieces.source_eq {t : Piece} (ht : t ∈ ts) (hsrc : t.source ∈ freeBlocks fl₀) {b : Block}
    (hb : b ∈ freeBlocks fl₀) (hin : InBlock (mgr₁.addr t.dsp) (mgr₀.addr b.1, b.2)) :
  t.source = b
  := by
  rw [← haddr] at hin
  obtain ⟨e, he, he'⟩ := exists_common_page h.inv.roots h.inv.addr (h.placed t ht)
    (hroots ▸ h₀.placed b (List.mem_append_right _ hb)) (inBlock_self t.source) hin
  apply h₀.apart.eq_of_mem (List.mem_append_right _ hsrc) (List.mem_append_right _ hb) he he'

omit haddr in
/-- The address of a piece lies in every block of the beginning that contains its source. -/
theorem Pieces.inBlock {t : Piece} {c : Block} (hc : c ∈ freeBlocks fl₀)
    (hcov : covers t.dsp c = true) :
  InBlock (mgr₁.addr t.dsp) (mgr₀.addr c.1, c.2)
  := by
  obtain ⟨hr, hlo, hhi⟩ := (covers_iff _ _).mp hcov
  have hplaced := h₀.placed c (List.mem_append_right _ hc)
  obtain ⟨seg, hseg, hin, -, -⟩ := id hplaced
  obtain ⟨ha, -, -⟩ := addr_of_placed h₀.addr hseg hplaced
  have hseg' := hseg
  rw [hr, ← hroots] at hseg'
  have ha' := h.inv.addr t.dsp seg hseg' (by omega)
  have h1 : c.1.idx * pgSz ≤ t.dsp.idx * pgSz := Nat.mul_le_mul_right _ hlo
  have h2 : t.dsp.idx * pgSz < (c.1.idx + 2 ^ c.2) * pgSz :=
    Nat.mul_lt_mul_of_pos_right hhi pgSz_pos
  rw [Nat.add_mul] at h2
  constructor
  · show mgr₀.addr c.1 ≤ mgr₁.addr t.dsp
    omega
  · show mgr₁.addr t.dsp < mgr₀.addr c.1 + 2 ^ c.2 * pgSz
    omega

variable (hperm : (ts.map fun t => mgr₁.addr t.dsp).Perm addrs)

include hperm

theorem Pieces.stops (hstop : StopsAtSource mgr₀ mgr₁ addrs) :
  Stops mgr₁ ts
  := by
  intro t ht hlt seg hseg
  obtain hb | ⟨t', ht', hb⟩ := h.source t ht
  · apply hstop t.src t.dsp seg hlt ((h₀.onFreeList_iff hlt.le).mpr hb) (hroots ▸ hseg)
    use mgr₁.addr t.dsp
    constructor
    · apply hperm.mem_iff.mp
      apply List.mem_map_of_mem ht
    · rw [← haddr]
      apply inBlock_self t.source
  · apply h.tryMerge_half ht ht' hb hseg

omit haddr in
/-- When no two pieces were cut from one block of the beginning, every source was a block of the
beginning. -/
theorem Pieces.sources_of_onePerBlock (hone : OnePerBlock mgr₀ addrs) :
  ∀ t ∈ ts, t.source ∈ freeBlocks fl₀
  := by
  intro t ht
  obtain hb | ⟨t', ht', hb⟩ := h.source t ht
  · exact hb
  obtain ⟨c, hc, -, hcov⟩ := h.inside t' ht'
  have hcov' : covers t.dsp c = true := by
    apply hcov
    apply Piece.covers_of_mem_halves (h.le t' ht') hb
    apply covers_self t.source
  have hmem : ∀ s ∈ ts, mgr₁.addr s.dsp ∈ addrs := by
    intro s hs
    apply hperm.mem_iff.mp
    apply List.mem_map_of_mem hs
  obtain ⟨hl, -⟩ := mem_freeBlocks.mp hc
  have heq := hone c.2 c.1 hl ((h₀.onFreeList_iff hl).mpr hc) _ (hmem t ht) _ (hmem t' ht')
    (Pieces.inBlock h₀ h hroots hc hcov')
    (Pieces.inBlock h₀ h hroots hc (hcov _ (covers_self t'.source)))
  obtain rfl := h.addr_inj ht ht' heq
  have := ((Piece.mem_halves (h.le t ht)).mp hb).2.1
  cases lt_irrefl _ this

theorem Pieces.onePerBlock_of_sources (hsrc : ∀ t ∈ ts, t.source ∈ freeBlocks fl₀) :
  OnePerBlock mgr₀ addrs
  := by
  intro l d hl hd p hp p' hp' hin hin'
  obtain ⟨t, ht, rfl⟩ := List.mem_map.mp (hperm.mem_iff.mpr hp)
  obtain ⟨t', ht', rfl⟩ := List.mem_map.mp (hperm.mem_iff.mpr hp')
  have hb := (h₀.onFreeList_iff hl).mp hd
  have heq := Pieces.source_eq h₀ h hroots haddr ht (hsrc t ht) hb hin
  have heq' := Pieces.source_eq h₀ h hroots haddr ht' (hsrc t' ht') hb hin'
  rw [show t.dsp = t'.dsp from (Prod.mk.inj (heq.trans heq'.symm)).1]

end RoundTrip

/-- Freeing what a fresh page manager has handed out, in any order, gives back the free lists of the
beginning when every block is found, no two were cut from one free block, and recombined
blocks do not merge further. Under the last of these conditions the others are necessary. -/
theorem pgmgr_recombined {addr₀ : DspPtr → ℕ} {segs : List PgInitSeg} {mgr₀ mgr₁ : PgMgr}
    {ps addrs ptrs : List ℕ} (hsegs : SegsWf segs) (hinit : pgInit addr₀ segs = some mgr₀)
    (halloc : mgr₀.allocAll ps = some (mgr₁, addrs)) (hptrs : ptrs.Perm addrs) :
  ((∀ p ∈ addrs, FindsRoot mgr₁.roots p) ∧ OnePerBlock mgr₀ addrs ∧ StopsAtSource mgr₀ mgr₁ addrs →
      ∃ mgr₂, mgr₁.freeAll ptrs = some mgr₂ ∧ mgr₀.Recombined mgr₂)
    ∧ (StopsAtSource mgr₀ mgr₁ addrs →
      (∃ mgr₂, mgr₁.freeAll ptrs = some mgr₂ ∧ mgr₀.Recombined mgr₂) →
      (∀ p ∈ addrs, FindsRoot mgr₁.roots p) ∧ OnePerBlock mgr₀ addrs)
  := by
  obtain ⟨-, -, fl₀, -, h₀, -⟩ := pgInit_spec hsegs hinit
  obtain ⟨fl₁, ts, h, hperm, hroots, haddr⟩ := (Pieces.nil h₀).allocAll halloc
  rw [List.map_nil, List.append_nil] at hperm
  have happ : Apart (freeBlocks fl₀) := h₀.apart
  obtain ⟨ls, hls, rfl⟩ := exists_of_perm_map (hptrs.trans hperm.symm)
  have hfreed : StopsAtSource mgr₀ mgr₁ addrs → ∃ links heads fl ks fs,
      mgr₁.freeAll (ls.map fun t => mgr₁.addr t.dsp)
        = some { mgr₁ with links := links, freeLists := heads }
      ∧ Freeing mgr₁ fl₁ ts links heads fl ks fs
      ∧ ∀ t, t ∈ fs ↔ t ∈ ts ∧ FindsRoot mgr₁.roots (mgr₁.addr t.dsp) := by
    intro hstop
    obtain ⟨links, heads, fl, ks, fs, hall, hs, hmem⟩ :=
      h.freeing.freeAll h (Pieces.stops h₀ h hroots haddr hperm hstop) (hls.symm.nodup h.nodup)
        (fun t ht => hls.mem_iff.mp ht)
    use links, heads, fl, ks, fs, hall, hs
    intro t
    rw [hmem, hls.mem_iff]
    simp
  constructor
  · rintro ⟨hfind, hone, hstop⟩
    obtain ⟨links, heads, fl, ks, fs, hall, hs, hmem⟩ := hfreed hstop
    use { mgr₁ with links := links, freeLists := heads }, hall
    apply h₀.recombined hs.inv haddr
    apply hs.free_of_sources h happ (Pieces.sources_of_onePerBlock h₀ h hroots hperm hone)
    intro t ht
    apply (hmem t).mpr
    use ht
    apply hfind
    apply hperm.mem_iff.mp
    apply List.mem_map_of_mem ht
  · rintro hstop ⟨mgr₂, hrun, hrec⟩
    obtain ⟨links, heads, fl, ks, fs, hall, hs, hmem⟩ := hfreed hstop
    obtain rfl := Option.some.inj (hrun.symm.trans hall)
    have hsrc := hs.sources_of_free h (by
      rintro ⟨d, l⟩ hb
      have hl := (mem_freeBlocks.mp hb).1
      apply (hs.inv.onFreeList_iff hl).mp
      apply (hrec.blocks l d hl).mpr
      apply (h₀.onFreeList_iff hl).mpr hb)
    constructor
    · intro p hp
      obtain ⟨t, ht, rfl⟩ := List.mem_map.mp (hperm.mem_iff.mpr hp)
      apply ((hmem t).mp (hsrc t ht).2).2
    · apply Pieces.onePerBlock_of_sources h₀ h hroots haddr hperm (fun t ht => (hsrc t ht).1)

/-! ### Two runs -/

/-- A computable test of all blocks on free lists with at most `bound` blocks. -/
def freeBlocksCheck (mgr : PgMgr) (bound : ℕ) (check : ℕ → DspPtr → Bool) : Bool :=
  (List.range (pgmgrMaxlvl + 1)).all fun l =>
    (DList.nth mgr.links (mgr.freeLists l) bound).isNone
      && (List.range bound).all fun n => (DList.nth mgr.links (mgr.freeLists l) n).all (check l)

theorem check_of_onFreeList {mgr : PgMgr} {bound : ℕ} {check : ℕ → DspPtr → Bool}
    (h : freeBlocksCheck mgr bound check = true) {l : ℕ} {d : DspPtr} (hl : l ≤ pgmgrMaxlvl)
    (hd : mgr.OnFreeList l d) :
  check l d = true
  := by
  have hall := List.all_eq_true.mp h l (List.mem_range.mpr (Nat.lt_succ_of_le hl))
  rw [Bool.and_eq_true, Option.isNone_iff_eq_none, List.all_eq_true] at hall
  obtain ⟨n, hn⟩ := hd
  have hlt : n < bound := by
    by_contra hge
    rw [DList.nth_eq_none_of_le (not_lt.mp hge) hall.1] at hn
    cases hn
  have := hall.2 n (List.mem_range.mpr hlt)
  rwa [hn, Option.all_some] at this

/-- The last page of the segment is handed out, and a page is cut from a block of two pages; both
are freed in the order of their allocation. -/
theorem pgmgr_recombined_tailSegs :
  ∃ mgr₀ mgr₁ mgr₂ ptrs, pgInit (fun _ => 0) tailSegs = some mgr₀
    ∧ mgr₀.allocAll [20, 20] = some (mgr₁, ptrs) ∧ mgr₁.freeAll ptrs = some mgr₂
    ∧ mgr₀.Recombined mgr₂
  := by
  have hcheck : ((pgInit (fun _ => 0) tailSegs).any fun mgr₀ =>
      (mgr₀.allocAll [20, 20]).any fun res =>
        (res.2.all fun p => (searchRoot res.1.roots p (res.1.roots.length + 1) 0
          res.1.roots.length).any fun l => (res.1.roots[l]?).any fun seg => addrInSegment seg p)
        && freeBlocksCheck mgr₀ 3 fun l d =>
          (res.2.all fun p => res.2.all fun p' => p = p'
            || !(decide (InBlock p (mgr₀.addr d, l)) && decide (InBlock p' (mgr₀.addr d, l))))
          && ((mgr₀.roots[d.root]?).all fun seg => !res.1.tryMerge seg d l
            || res.2.all fun p => !decide (InBlock p (mgr₀.addr d, l)))) = true := by
    decide
  obtain ⟨mgr₀, hinit, hcheck⟩ := (Option.any_eq_true _ _).mp hcheck
  obtain ⟨⟨mgr₁, ptrs⟩, halloc, hcheck⟩ := (Option.any_eq_true _ _).mp hcheck
  rw [Bool.and_eq_true, List.all_eq_true] at hcheck
  obtain ⟨hroot, hfree⟩ := hcheck
  obtain ⟨mgr₂, hrun, hrec⟩ :=
    (pgmgr_recombined tailSegs_wf hinit halloc (List.Perm.refl ptrs)).1 ⟨by
      intro p hp
      obtain ⟨l, hl, hany⟩ := (Option.any_eq_true _ _).mp (hroot p hp)
      obtain ⟨seg, hseg, hin⟩ := (Option.any_eq_true _ _).mp hany
      exact ⟨l, seg, hl, hseg, hin⟩, by
      intro l d hl hd p hp p' hp' hin hin'
      have := check_of_onFreeList hfree hl hd
      simp only [Bool.and_eq_true, List.all_eq_true] at this
      have := this.1 p hp p' hp'
      simpa [hin, hin'] using this, by
      intro l d seg hl hd hseg hp
      obtain ⟨p, hp, hin⟩ := hp
      have := check_of_onFreeList hfree hl.le hd
      rw [Bool.and_eq_true, hseg, Option.all_some, Bool.or_eq_true] at this
      obtain hmerge | hall := this.2
      · simpa using hmerge
      · have := List.all_eq_true.mp hall p hp
        simp [hin] at this⟩
  exact ⟨mgr₀, mgr₁, mgr₂, ptrs, hinit, halloc, hrun, hrec⟩

/-- Three pages from `1 MB` on: the last two are free as one block. -/
def buddySegs : List PgInitSeg :=
  [⟨0x100000, 0x400000, 0⟩]

/-- Both pages of the only free block are allocated and freed again, and two pages cannot be
allocated any more. -/
theorem pgmgr_not_recombined_buddySegs :
  ∃ mgr₀ mgr₁ mgr₂ ptrs, SegsWf buddySegs ∧ pgInit (fun _ => 0) buddySegs = some mgr₀
    ∧ mgr₀.allocAll [20, 20] = some (mgr₁, ptrs) ∧ mgr₁.freeAll ptrs = some mgr₂
    ∧ ¬ mgr₀.Recombined mgr₂
  := by
  have hwf : SegsWf buddySegs := by
    constructor
    · apply List.pairwise_singleton
    · intro seg hseg
      obtain rfl := List.mem_singleton.mp hseg
      decide
  have hcheck : ((pgInit (fun _ => 0) buddySegs).any fun mgr₀ =>
      ((mgr₀.pgAllocPage 21).any fun res => res.2.isSome)
      && (mgr₀.allocAll [20, 20]).any fun res => (res.1.freeAll res.2).any fun mgr₂ =>
        (mgr₂.pgAllocPage 21).any fun res => res.2.isNone) = true := by
    decide +kernel
  obtain ⟨mgr₀, hinit, hcheck⟩ := (Option.any_eq_true _ _).mp hcheck
  rw [Bool.and_eq_true] at hcheck
  obtain ⟨⟨m, a⟩, hbefore, ha⟩ := (Option.any_eq_true _ _).mp hcheck.1
  obtain ⟨⟨mgr₁, ptrs⟩, halloc, hcheck⟩ := (Option.any_eq_true _ _).mp hcheck.2
  obtain ⟨mgr₂, hfree, hcheck⟩ := (Option.any_eq_true _ _).mp hcheck
  obtain ⟨⟨m', a'⟩, hafter, ha'⟩ := (Option.any_eq_true _ _).mp hcheck
  obtain ⟨a, rfl⟩ := Option.isSome_iff_exists.mp ha
  obtain rfl := Option.isNone_iff_eq_none.mp ha'
  use mgr₀, mgr₁, mgr₂, ptrs, hwf, hinit, halloc, hfree
  intro hrec
  obtain ⟨m'', a'', hsome⟩ := hrec.alloc 21 m a hbefore
  rw [hafter] at hsome
  simp at hsome

end TrainsOs
