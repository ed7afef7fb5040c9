import TrainsOs.PgMgr.Seed
import TrainsOs.Lib.Run
import Mathlib.Order.CompletePartialOrder

/-!
# Exclusive ownership of pages

The page manager together with the blocks it has handed out is a machine whose actions
are the calls of `pg_alloc_page` and `pg_free_page`. A state is exclusive when the memory
of the blocks handed out and of the blocks on the free lists is pairwise disjoint, every
block is aligned to its own size, and every block lies inside one root segment.

Every run from `pg_init` stays exclusive as long as each merge of `pg_free_page` takes a
buddy that is on the free list of the level at which it is taken. The source checks only
that the first descriptor of the buddy is not used, so a buddy that is free at a lower
level is taken as well.
-/

namespace TrainsOs

open PgMgr

/-- The page manager and the address and level of each block that is handed out. -/
structure PgSt where
  mgr : PgMgr
  handed : List (ℕ × ℕ)

/-- The calls of the interface. -/
inductive PgOp where
  | alloc (p : ℕ)
  | free (ptr : ℕ)

def pgStep (s : PgSt) : PgOp → Option PgSt
  | .alloc p => do
      let (mgr, res) ← s.mgr.pgAllocPage p
      match res with
      | none => some { s with mgr := mgr }
      | some addr => some ⟨mgr, (addr, pageLvl p) :: s.handed⟩
  | .free ptr => do
      let mgr ← s.mgr.pgFreePage ptr
      some ⟨mgr, s.handed.eraseP fun b => b.1 = ptr⟩

/-- The calls that a user of the interface makes: what is freed is handed out. -/
def PgCall (s : PgSt) : PgOp → Prop
  | .alloc _ => True
  | .free ptr => ∃ l, (ptr, l) ∈ s.handed

/-- The calls that keep the ownership exclusive: moreover, every merge takes a buddy that
is free at the level of the merge. -/
def PgOk (s : PgSt) : PgOp → Prop
  | .alloc _ => True
  | .free ptr => (∃ l, (ptr, l) ∈ s.handed) ∧ s.mgr.FreeSafe ptr

/-- The owners of blocks: the entries of the list of blocks handed out, and the positions
on the free lists. -/
inductive Owner where
  | handed (i : ℕ)
  | free (lvl n : ℕ)

/-- The address and level of the block of an owner. -/
def PgSt.block (s : PgSt) : Owner → Option (ℕ × ℕ)
  | .handed i => s.handed[i]?
  | .free lvl n =>
      if lvl ≤ pgmgrMaxlvl then
        (DList.nth s.mgr.links (s.mgr.freeLists lvl) n).map fun d => (s.mgr.addr d, lvl)
      else
        none

/-- The address lies in the block. -/
def InBlock (x : ℕ) (b : ℕ × ℕ) : Prop :=
  b.1 ≤ x ∧ x < b.1 + 2 ^ b.2 * pgSz

instance (x : ℕ) (b : ℕ × ℕ) : Decidable (InBlock x b) :=
  inferInstanceAs (Decidable (_ ∧ _))

structure PgSt.Exclusive (s : PgSt) : Prop where
  disjoint : ∀ (o o' : Owner) (b b' : ℕ × ℕ), s.block o = some b → s.block o' = some b' →
    o ≠ o' → ∀ x, ¬ (InBlock x b ∧ InBlock x b')
  aligned : ∀ (o : Owner) (b : ℕ × ℕ), s.block o = some b → 2 ^ b.2 * pgSz ∣ b.1
  inside : ∀ (o : Owner) (b : ℕ × ℕ), s.block o = some b →
    ∃ seg ∈ s.mgr.roots, seg.startAddr ≤ b.1 ∧ b.1 + 2 ^ b.2 * pgSz ≤ seg.endAddr

/-- The blocks handed out are those that the invariant of the manager speaks of. -/
def PgSt.Inv (s : PgSt) : Prop :=
  ∃ fl held, s.mgr.Inv fl held ∧ s.handed = held.map fun b => (s.mgr.addr b.1, b.2)

/-! ### The memory of a block -/

section Memory

variable {mgr : PgMgr} (hroots : RootsWf mgr.roots) (haddr : mgr.AddrEq)

include hroots haddr

/-- A placed block lies inside its root segment. -/
theorem Placed.mem_seg {b : Block} (hb : Placed mgr.roots b) :
  ∃ seg, mgr.roots[b.1.root]? = some seg ∧ mgr.addr b.1 = seg.startAddr + b.1.idx * pgSz
    ∧ seg.startAddr ≤ mgr.addr b.1 ∧ mgr.addr b.1 + 2 ^ b.2 * pgSz ≤ seg.endAddr
  := by
  obtain ⟨seg, hseg, hin, -, -⟩ := id hb
  obtain ⟨ha, -, -⟩ := addr_of_placed haddr hseg hb
  have hend := hroots.numPages_mul (List.mem_of_getElem? hseg)
  have hmul : (b.1.idx + 2 ^ b.2) * pgSz ≤ seg.numPages * pgSz := Nat.mul_le_mul_right _ hin
  rw [Nat.add_mul] at hmul
  use seg, hseg, ha
  omega

omit hroots haddr in
/-- A block begins in its own memory. -/
theorem inBlock_self (b : Block) :
  InBlock (mgr.addr b.1) (mgr.addr b.1, b.2)
  := by
  have : 0 < 2 ^ b.2 * pgSz := Nat.mul_pos (Nat.two_pow_pos _) pgSz_pos
  constructor <;> dsimp only <;> omega

/-- An address in two placed blocks is in a page of both. -/
theorem exists_common_page {b c : Block} (hb : Placed mgr.roots b) (hc : Placed mgr.roots c)
    {x : ℕ} (hxb : InBlock x (mgr.addr b.1, b.2)) (hxc : InBlock x (mgr.addr c.1, c.2)) :
  ∃ e, covers e b = true ∧ covers e c = true
  := by
  obtain ⟨seg, hseg, hab, hlob, hhib⟩ := hb.mem_seg hroots haddr
  obtain ⟨seg', hseg', hac, hloc, hhic⟩ := hc.mem_seg hroots haddr
  obtain ⟨hxb1, hxb2⟩ := hxb
  obtain ⟨hxc1, hxc2⟩ := hxc
  dsimp only at hxb1 hxb2 hxc1 hxc2
  have hroot : b.1.root = c.1.root := hroots.unique hseg hseg' ⟨hlob.trans hxb1, by omega⟩
    ⟨hloc.trans hxc1, by omega⟩
  rw [← hroot] at hseg'
  obtain rfl := Option.some.inj (hseg.symm.trans hseg')
  have hpage : ∀ d : Block, mgr.addr d.1 = seg.startAddr + d.1.idx * pgSz →
      mgr.addr d.1 ≤ x → x < mgr.addr d.1 + 2 ^ d.2 * pgSz →
      d.1.idx ≤ (x - seg.startAddr) / pgSz ∧ (x - seg.startAddr) / pgSz < d.1.idx + 2 ^ d.2 := by
    intro d ha hlo hhi
    rw [Nat.le_div_iff_mul_le pgSz_pos, Nat.div_lt_iff_lt_mul pgSz_pos, Nat.add_mul]
    omega
  use ⟨b.1.root, (x - seg.startAddr) / pgSz⟩
  rw [covers_iff, covers_iff]
  exact ⟨⟨rfl, hpage b hab hxb1 hxb2⟩, ⟨hroot.symm, hpage c hac hxc1 hxc2⟩⟩

end Memory

/-- In a family that is apart, a page determines its block. -/
theorem Apart.eq_of_mem {bs : List Block} (h : Apart bs) {b c : Block} (hb : b ∈ bs) (hc : c ∈ bs)
    {e : DspPtr} (hbe : covers e b = true) (hce : covers e c = true) :
  b = c
  := by
  obtain ⟨i, hi⟩ := List.mem_iff_getElem?.mp hb
  obtain ⟨j, hj⟩ := List.mem_iff_getElem?.mp hc
  by_contra hne
  have hij : i ≠ j := by
    rintro rfl
    exact hne (Option.some.inj (hi.symm.trans hj))
  exact h.not_both hij hi hj e ⟨hbe, hce⟩

/-! ### The invariant gives exclusive ownership -/

section Exclusive

variable {s : PgSt} {fl : ℕ → List DspPtr} {held : List Block}

/-- The block of an owner, with its position in the family of all blocks. -/
theorem PgMgr.Inv.block_eq (h : s.mgr.Inv fl held)
    (hhanded : s.handed = held.map fun b => (s.mgr.addr b.1, b.2)) {o : Owner} {b : ℕ × ℕ}
    (hb : s.block o = some b) :
  ∃ c ∈ held ++ freeBlocks fl, b = (s.mgr.addr c.1, c.2)
    ∧ match o with
      | .handed i => held[i]? = some c
      | .free lvl n => (fl lvl)[n]? = some c.1 ∧ c.2 = lvl ∧ c ∈ freeBlocks fl
  := by
  cases o with
  | handed i =>
    rw [PgSt.block, hhanded, List.getElem?_map, Option.map_eq_some_iff] at hb
    obtain ⟨c, hc, rfl⟩ := hb
    use c, List.mem_append_left _ (List.mem_of_getElem? hc), rfl
  | free lvl n =>
    rw [PgSt.block] at hb
    split_ifs at hb with hl
    rw [(h.forest.list lvl).nth_eq, Option.map_eq_some_iff] at hb
    obtain ⟨d, hd, rfl⟩ := hb
    have hmem : (d, lvl) ∈ freeBlocks fl := mem_freeBlocks.mpr ⟨hl, List.mem_of_getElem? hd⟩
    use (d, lvl), List.mem_append_right _ hmem, rfl

theorem PgSt.Inv.exclusive (hs : s.Inv) :
  s.Exclusive
  := by
  obtain ⟨fl, held, h, hhanded⟩ := hs
  constructor
  · rintro o o' b b' hb hb' hne x ⟨hx, hx'⟩
    obtain ⟨c, hc, rfl, ho⟩ := h.block_eq hhanded hb
    obtain ⟨c', hc', rfl, ho'⟩ := h.block_eq hhanded hb'
    obtain ⟨e, he, he'⟩ :=
      exists_common_page h.roots h.addr (h.placed c hc) (h.placed c' hc') hx hx'
    have happ := h.apart e
    rw [cover_append] at happ
    cases o with
    | handed i =>
      have hi : held[i]? = some c := ho
      have hpos := cover_pos (List.mem_of_getElem? hi) he
      cases o' with
      | handed j =>
        have hj : held[j]? = some c' := ho'
        apply h.apart.not_both (i := i) (j := j) _ _ _ e ⟨he, he'⟩
        · rintro rfl
          exact hne rfl
        · rw [List.getElem?_append_left (List.getElem?_eq_some_iff.mp hi).1, hi]
        · rw [List.getElem?_append_left (List.getElem?_eq_some_iff.mp hj).1, hj]
      | free lvl n =>
        have := cover_pos ho'.2.2 he'
        omega
    | free lvl n =>
      have hpos := cover_pos ho.2.2 he
      cases o' with
      | handed j =>
        have := cover_pos (List.mem_of_getElem? ho') he'
        omega
      | free lvl' n' =>
        -- two positions on the free lists that hold one block are the same position
        obtain rfl := h.apart.eq_of_mem hc hc' he he'
        obtain ⟨hn, rfl, -⟩ := ho
        obtain ⟨hn', rfl, -⟩ := ho'
        have hlt : n < (fl c.2).length := (List.getElem?_eq_some_iff.mp hn).1
        have hnn := (h.forest.list c.2).nodup
        obtain rfl : n = n' := (List.getElem?_inj hlt hnn).mp (hn.trans hn'.symm)
        exact hne rfl
  · intro o b hb
    obtain ⟨c, hc, rfl, -⟩ := h.block_eq hhanded hb
    obtain ⟨seg, hseg, -⟩ := h.placed c hc
    rw [← pow_pgSft_add]
    exact (addr_of_placed h.addr hseg (h.placed c hc)).2.2
  · intro o b hb
    obtain ⟨c, hc, rfl, -⟩ := h.block_eq hhanded hb
    obtain ⟨seg, hseg, -, hlo, hhi⟩ := (h.placed c hc).mem_seg h.roots h.addr
    use seg, List.mem_of_getElem? hseg

end Exclusive

/-! ### Runs -/

theorem eraseP_eq_erase {α : Type} [BEq α] [LawfulBEq α] {p : α → Bool} {xs : List α} {x : α}
    (hx : x ∈ xs) (h : ∀ y ∈ xs, p y = true ↔ y = x) :
  xs.eraseP p = xs.erase x
  := by
  induction xs with
  | nil => cases hx
  | cons y xs ih =>
    by_cases hy : y = x
    · rw [List.eraseP_cons_of_pos ((h y List.mem_cons_self).mpr hy), hy, List.erase_cons_head]
    · have hp : ¬ p y = true := fun hp => hy ((h y List.mem_cons_self).mp hp)
      rw [List.eraseP_cons_of_neg hp, List.erase_cons_tail (by simpa using hy), ih]
      · exact (List.mem_cons.mp hx).resolve_left (Ne.symm hy)
      · intro z hz
        exact h z (List.mem_cons_of_mem _ hz)

/-- A call keeps the invariant. -/
theorem pgStep_inv (s : PgSt) (op : PgOp) (hs : s.Inv) (hop : PgOk s op) :
  ∃ s', pgStep s op = some s' ∧ s'.Inv
  := by
  obtain ⟨fl, held, h, hhanded⟩ := hs
  cases op with
  | alloc p =>
    obtain ⟨hnone, -⟩ | ⟨d, n, mgr', fl', -, -, hsome, hinv, -, -, haddr, -⟩ := pgAllocPage_spec h p
    · use s
      constructor
      · simp only [pgStep, hnone, Option.bind_eq_bind, Option.bind_some]
      · use fl, held
    · use ⟨mgr', (s.mgr.addr d, pageLvl p) :: s.handed⟩
      constructor
      · simp only [pgStep, hsome, Option.bind_eq_bind, Option.bind_some]
      · use fl', (d, pageLvl p) :: held, hinv
        rw [hhanded, haddr, List.map_cons]
  | free ptr =>
    obtain ⟨⟨l, hmem⟩, hsafe⟩ := hop
    rw [hhanded, List.mem_map] at hmem
    obtain ⟨b, hb, heq⟩ := hmem
    rw [Prod.mk.injEq] at heq
    obtain ⟨rfl, -⟩ := heq
    obtain ⟨mgr', fl', hfree, hinv, -, haddr⟩ := pgFreePage_spec h hb hsafe
    use ⟨mgr', s.handed.eraseP fun b' => b'.1 = s.mgr.addr b.1⟩
    constructor
    · simp only [pgStep, hfree, Option.bind_eq_bind, Option.bind_some]
    · use fl', held.erase b, hinv
      rw [hhanded, haddr, List.eraseP_map]
      apply congrArg (List.map _)
      apply eraseP_eq_erase hb
      intro c hc
      rw [Function.comp_apply, decide_eq_true_eq]
      constructor
      · -- blocks with one address share their first page
        intro hcb
        have hb' := List.mem_append_left (freeBlocks fl) hb
        have hc' := List.mem_append_left (freeBlocks fl) hc
        have hcb' : s.mgr.addr b.1 = s.mgr.addr c.1 := hcb.symm
        obtain ⟨e, hce, hbe⟩ := exists_common_page h.roots h.addr (h.placed c hc') (h.placed b hb')
          (by
            rw [hcb']
            apply inBlock_self) (inBlock_self b)
        apply h.apart.eq_of_mem hc' hb' hce hbe
      · rintro rfl
        rfl

/-- Every run from `pg_init` in which each merge takes a buddy that is free at the level of
the merge stays exclusive. -/
theorem pgmgr_exclusive {addr₀ : DspPtr → ℕ} {segs : List PgInitSeg} {mgr : PgMgr} {ops : List PgOp}
    (hsegs : SegsWf segs) (hinit : pgInit addr₀ segs = some mgr)
    (hops : Run.Meets pgStep PgOk ⟨mgr, []⟩ ops) :
  ∃ s, Run.run pgStep ⟨mgr, []⟩ ops = some s ∧ s.Exclusive
  := by
  have h₀ : PgSt.Inv ⟨mgr, []⟩ := by
    obtain ⟨-, -, fl, -, hinv, -⟩ := pgInit_spec hsegs hinit
    use fl, [], hinv
    rfl
  obtain ⟨s, hrun, hs⟩ := Run.run_invariant pgStep_inv h₀ hops
  use s, hrun
  apply hs.exclusive

/-! ### A segment with a tail -/

/-- Six pages from `1 MB` on. The first one holds the manager and the descriptors, and the
others are free as two blocks of two pages and one page. -/
def tailSegs : List PgInitSeg :=
  [⟨0x100000, 0x700000, 0⟩]

theorem tailSegs_wf :
  SegsWf tailSegs
  := by
  constructor
  · apply List.pairwise_singleton
  · intro seg hseg
    obtain rfl := List.mem_singleton.mp hseg
    decide

/-- A computable test that implies `PgMgr.FreeSafe`: the lists are searched up to `bound`. -/
def mergeSafeCheck (mgr : PgMgr) (bound : ℕ) (seg : PgRoot) : ℕ → DspPtr → ℕ → Bool
  | 0, _, _ => true
  | n + 1, dsp, lvl =>
      !mgr.tryMerge seg dsp lvl
        || ((List.range bound).any fun i =>
              DList.nth mgr.links (mgr.freeLists lvl) i = some (mgr.buddy dsp lvl))
          && mergeSafeCheck mgr bound seg n (lower (mgr.buddy dsp lvl) dsp) (lvl + 1)

theorem mergeSafe_of_check {mgr : PgMgr} {bound : ℕ} {seg : PgRoot} {n : ℕ} {d : DspPtr} {l : ℕ}
    (h : mergeSafeCheck mgr bound seg n d l = true) :
  mgr.MergeSafe seg n d l
  := by
  induction n generalizing d l with
  | zero => trivial
  | succ n ih =>
    intro hmerge
    rw [mergeSafeCheck, hmerge, Bool.not_true, Bool.false_or, Bool.and_eq_true,
      List.any_eq_true] at h
    obtain ⟨⟨i, -, hi⟩, hrest⟩ := h
    rw [decide_eq_true_eq] at hi
    refine ⟨⟨i, hi⟩, ?_⟩
    apply ih hrest

def pgOkCheck (bound : ℕ) (s : PgSt) : PgOp → Bool
  | .alloc _ => true
  | .free ptr =>
      (s.handed.any fun b => b.1 = ptr)
        && (searchRoot s.mgr.roots ptr (s.mgr.roots.length + 1) 0 s.mgr.roots.length).all fun l =>
          (s.mgr.roots[l]?).all fun seg =>
            mergeSafeCheck s.mgr bound seg
              (pgmgrMaxlvl - s.mgr.lvl ⟨l, (ptr - seg.startAddr) >>> pgSft⟩)
              ⟨l, (ptr - seg.startAddr) >>> pgSft⟩ (s.mgr.lvl ⟨l, (ptr - seg.startAddr) >>> pgSft⟩)

theorem pgOk_of_check (bound : ℕ) (s : PgSt) (op : PgOp) (h : pgOkCheck bound s op = true) :
  PgOk s op
  := by
  cases op with
  | alloc p => trivial
  | free ptr =>
    rw [pgOkCheck, Bool.and_eq_true, List.any_eq_true] at h
    obtain ⟨⟨b, hb, heq⟩, hsafe⟩ := h
    rw [decide_eq_true_eq] at heq
    constructor
    · use b.2
      rw [← heq]
      exact hb
    · intro l seg hl hseg _
      rw [hl, Option.all_some, hseg, Option.all_some] at hsafe
      apply mergeSafe_of_check hsafe

/-- Two pages are allocated and freed again; the second of them merges with its buddy. -/
theorem pgmgr_exclusive_tailSegs :
  ∃ mgr, pgInit (fun _ => 0) tailSegs = some mgr
    ∧ ∃ s, Run.run pgStep ⟨mgr, []⟩ [.alloc 20, .alloc 20, .free 0x200000] = some s ∧ s.Exclusive
  := by
  have h : ((pgInit (fun _ => 0) tailSegs).any fun mgr =>
      Run.allOk pgStep (pgOkCheck 4) ⟨mgr, []⟩ [.alloc 20, .alloc 20, .free 0x200000]) = true := by
    decide
  obtain ⟨mgr, hinit, hok⟩ := (Option.any_eq_true _ _).mp h
  use mgr, hinit
  apply pgmgr_exclusive tailSegs_wf hinit
  apply Run.meets_of_allOk (pgOk_of_check 4) hok

def pgCallCheck (s : PgSt) : PgOp → Bool
  | .alloc _ => true
  | .free ptr => s.handed.any fun b => b.1 = ptr

theorem pgCall_of_check (s : PgSt) (op : PgOp) (h : pgCallCheck s op = true) :
  PgCall s op
  := by
  cases op with
  | alloc p => trivial
  | free ptr =>
    rw [pgCallCheck, List.any_eq_true] at h
    obtain ⟨b, hb, heq⟩ := h
    rw [decide_eq_true_eq] at heq
    use b.2
    rw [← heq]
    exact hb

/-- Both blocks of two pages are allocated and freed again. Freeing the second one takes the
last page of the segment for a buddy of two pages, and a block of four pages that starts
in the middle of the segment is put on the free lists. -/
theorem pgmgr_not_exclusive_tailSegs :
  ∃ mgr s, pgInit (fun _ => 0) tailSegs = some mgr
    ∧ Run.Meets pgStep PgCall ⟨mgr, []⟩ [.alloc 21, .alloc 21, .free 0x200000, .free 0x400000]
    ∧ Run.run pgStep ⟨mgr, []⟩ [.alloc 21, .alloc 21, .free 0x200000, .free 0x400000] = some s
    ∧ ¬ s.Exclusive
  := by
  have h : ((pgInit (fun _ => 0) tailSegs).any fun mgr =>
      Run.allOk pgStep pgCallCheck ⟨mgr, []⟩ [.alloc 21, .alloc 21, .free 0x200000, .free 0x400000]
      && ((Run.run pgStep ⟨mgr, []⟩ [.alloc 21, .alloc 21, .free 0x200000, .free 0x400000]).any
        fun s => s.block (.free 2 0) = some (0x400000, 2)
          ∧ s.mgr.roots.all fun seg => seg.endAddr = 0x700000)) = true := by
    decide
  obtain ⟨mgr, hinit, hmgr⟩ := (Option.any_eq_true _ _).mp h
  rw [Bool.and_eq_true, Option.any_eq_true] at hmgr
  obtain ⟨hok, s, hrun, hs⟩ := hmgr
  rw [decide_eq_true_eq] at hs
  obtain ⟨hblock, hroots⟩ := hs
  refine ⟨mgr, s, hinit, Run.meets_of_allOk pgCall_of_check hok, hrun, ?_⟩
  intro hex
  obtain ⟨seg, hseg, -, hend⟩ := hex.inside _ _ hblock
  have hend' := List.all_eq_true.mp hroots seg hseg
  rw [decide_eq_true_eq] at hend'
  rw [hend'] at hend
  revert hend
  decide

end TrainsOs
