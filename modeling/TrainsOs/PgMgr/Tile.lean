import TrainsOs.Lib.Tiling
import TrainsOs.PgMgr.Seed

/-!
# The blocks that are seeded

The first loop of `pg_init_free_lists_add_range` appends blocks that are upper halves, or of
the greatest level, and it is left when the block of the next page is too large for the
rest. So the rest is smaller than the alignment of this page, and the second loop appends
lower halves only. The blocks of the first loop are in front of those of the second one,
so no two of them are buddies.
-/

namespace TrainsOs

/-! ### Levels -/

/-- No greater level fits the address. -/
theorem addrMaxlvlLoop_not_dvd {addr n l : ℕ} (hlt : addrMaxlvlLoop addr n < l) (hl : l ≤ n) :
  ¬ 2 ^ (pgSft + l) ∣ addr
  := by
  induction n with
  | zero => omega
  | succ n ih =>
    rw [addrMaxlvlLoop] at hlt
    split_ifs at hlt with hand
    · omega
    · obtain rfl | hle := hl.eq_or_lt
      · rwa [Nat.one_shiftLeft, Nat.and_two_pow_sub_one_eq_mod, Nat.add_comm,
          ← Nat.dvd_iff_mod_eq_zero] at hand
      · exact ih hlt (Nat.le_of_lt_succ hle)

/-- The level of the highest bit. -/
theorem pagecntMaxlvlLoop_lt {numPages n : ℕ} (h : numPages < 2 ^ (n + 1)) :
  numPages < 2 ^ (pagecntMaxlvlLoop numPages n + 1)
  := by
  induction n with
  | zero => exact h
  | succ n ih =>
    rw [pagecntMaxlvlLoop]
    split_ifs with hand
    · exact h
    · apply ih
      rw [Nat.one_shiftLeft, Nat.and_two_pow] at hand
      by_contra hge
      have hbit := Nat.testBit_of_two_pow_le_and_two_pow_add_one_gt (Nat.le_of_not_lt hge) h
      rw [hbit] at hand
      have hpos := Nat.two_pow_pos (n + 1)
      simp at hand

/-- The address has the alignment of its level, and of no greater one. -/
theorem le_pgAddrMaxlvl {addr l : ℕ} (hdvd : 2 ^ (pgSft + l) ∣ addr) (hl : l ≤ pgmgrMaxlvl) :
  l ≤ pgAddrMaxlvl addr
  := by
  by_contra hlt
  exact addrMaxlvlLoop_not_dvd (Nat.lt_of_not_le hlt) hl hdvd

namespace PgMgr

/-! ### The loops -/

/-- The pages `[s, e)` of a root have consecutive addresses. -/
structure Consecutive (addr : DspPtr → ℕ) (root base s e : ℕ) : Prop where
  base_dvd : pgSz ∣ base
  addr_eq : ∀ i, s ≤ i → i < e → addr ⟨root, i⟩ = base + i * pgSz

/-- The blocks of the levels `ls`, one behind the other from the page `s` on. -/
def blocksFrom (root s : ℕ) (ls : List ℕ) : List Block :=
  (Tiling.place (2 ^ ·) s ls).map fun p => (⟨root, p.1⟩, p.2)

/-- The number of pages of blocks of the levels `ls`. -/
def pagesOf (ls : List ℕ) : ℕ :=
  (ls.map (2 ^ ·)).sum

/-- Appending blocks to the free lists of their levels. -/
def appendAll (mgr : PgMgr) (bs : List Block) : Option PgMgr :=
  bs.foldlM (fun mgr b => mgr.dlAppend b.2 b.1) mgr

/-- A block that is aligned to its own size. -/
structure Aligned (addr : DspPtr → ℕ) (b : Block) : Prop where
  level : b.2 ≤ pgmgrMaxlvl
  dvd : 2 ^ (pgSft + b.2) ∣ addr b.1

section Loops

variable {addr : DspPtr → ℕ} {root base e : ℕ}

theorem blocksFrom_cons (s l : ℕ) (ls : List ℕ) :
  blocksFrom root s (l :: ls) = (⟨root, s⟩, l) :: blocksFrom root (s + 2 ^ l) ls
  := rfl

theorem Consecutive.mono {s s' : ℕ} (h : Consecutive addr root base s e) (hs : s ≤ s') :
  Consecutive addr root base s' e
  := ⟨h.base_dvd, fun i hi => h.addr_eq i (hs.trans hi)⟩

/-- A block of at most the level of its address is aligned. -/
theorem Consecutive.aligned {s l : ℕ} (h : Consecutive addr root base s e) (hs : s < e)
    (hl : l ≤ pgAddrMaxlvl (addr ⟨root, s⟩)) :
  Aligned addr (⟨root, s⟩, l)
  := by
  have hdvd : 2 ^ pgSft ∣ addr ⟨root, s⟩ := by
    rw [h.addr_eq s le_rfl hs, ← pgSz_eq]
    exact Nat.dvd_add h.base_dvd (dvd_mul_left _ _)
  constructor
  · exact hl.trans (addrMaxlvlLoop_le _ _)
  · apply dvd_trans _ (addrMaxlvlLoop_dvd hdvd pgmgrMaxlvl)
    apply pow_dvd_pow
    apply Nat.add_le_add_left hl

theorem pagesOf_cons (l : ℕ) (ls : List ℕ) :
  pagesOf (l :: ls) = 2 ^ l + pagesOf ls
  := by rw [pagesOf, List.map_cons, List.sum_cons, pagesOf]

theorem appendAll_cons (mgr : PgMgr) (b : Block) (bs : List Block) :
  mgr.appendAll (b :: bs) = (mgr.dlAppend b.2 b.1).bind fun mgr => mgr.appendAll bs
  := List.foldlM_cons

theorem addr_dlAppend {mgr mgr' : PgMgr} {l : ℕ} {d : DspPtr} (h : mgr.dlAppend l d = some mgr') :
  mgr'.addr = mgr.addr
  := by
  rw [dlAppend, Option.bind_eq_bind, Option.bind_eq_some_iff] at h
  obtain ⟨r, -, h⟩ := h
  rw [← Option.some.inj h]

/-- The first loop appends upper halves and blocks of the greatest level. -/
theorem addRangeUp_eq (fuel : ℕ) {s : ℕ} (h : Consecutive addr root base s e) (hs : s ≤ e)
    (hfuel : e - s < fuel) :
  ∃ ls, (∀ mgr : PgMgr, mgr.addr = addr → addRangeUp root e fuel mgr s
      = (mgr.appendAll (blocksFrom root s ls)).map (·, s + pagesOf ls))
    ∧ s + pagesOf ls ≤ e
    ∧ (s + pagesOf ls < e → e < s + pagesOf ls + 2 ^ pgAddrMaxlvl (addr ⟨root, s + pagesOf ls⟩))
    ∧ ∀ b ∈ blocksFrom root s ls, Aligned addr b
      ∧ (b.2 < pgmgrMaxlvl → ¬ 2 ^ (pgSft + b.2 + 1) ∣ addr b.1)
  := by
  induction fuel generalizing s with
  | zero => exact absurd hfuel (Nat.not_lt_zero _)
  | succ fuel ih =>
    generalize hlvl : pgAddrMaxlvl (addr ⟨root, s⟩) = lvl
    have hpos := Nat.two_pow_pos lvl
    by_cases hend : e < s + 2 ^ lvl
    · refine ⟨[], ?_, hs, ?_, nofun⟩
      · rintro mgr rfl
        rw [addRangeUp]
        simp only [hlvl, Nat.one_shiftLeft, if_pos hend]
        rfl
      · intro _
        show e < s + 0 + 2 ^ pgAddrMaxlvl (addr ⟨root, s + 0⟩)
        rwa [Nat.add_zero, hlvl]
    · obtain ⟨ls, heq, hle, hstop, hblocks⟩ := ih (h.mono (show s ≤ s + 2 ^ lvl by omega))
        (by omega) (by omega)
      have hpages : s + pagesOf (lvl :: ls) = s + 2 ^ lvl + pagesOf ls := by
        rw [pagesOf_cons, Nat.add_assoc]
      rw [← hpages] at heq hle hstop
      refine ⟨lvl :: ls, ?_, hle, hstop, ?_⟩
      · rintro mgr rfl
        rw [addRangeUp, blocksFrom_cons, appendAll_cons]
        simp only [hlvl, Nat.one_shiftLeft, if_neg hend, Option.bind_eq_bind]
        cases happ : mgr.dlAppend lvl ⟨root, s⟩ with
        | none => rfl
        | some mgr' => exact heq mgr' (addr_dlAppend happ)
      · intro b hb
        obtain rfl | hb := List.mem_cons.mp hb
        · use h.aligned (by omega) hlvl.ge
          intro hlt
          exact addrMaxlvlLoop_not_dvd (hlvl.trans_lt (Nat.lt_succ_self lvl)) hlt
        · exact hblocks b hb

/-- The second loop appends lower halves. -/
theorem addRangeDown_eq (fuel : ℕ) {s : ℕ} (h : Consecutive addr root base s e) (hs : s ≤ e)
    (hrest : s < e → e < s + 2 ^ pgAddrMaxlvl (addr ⟨root, s⟩)) (hfuel : e - s < fuel) :
  ∃ ls, (∀ mgr : PgMgr, mgr.addr = addr →
      addRangeDown root e fuel mgr s = mgr.appendAll (blocksFrom root s ls))
    ∧ s + pagesOf ls = e
    ∧ ∀ b ∈ blocksFrom root s ls, Aligned addr b ∧ 2 ^ (pgSft + b.2 + 1) ∣ addr b.1
  := by
  induction fuel generalizing s with
  | zero => exact absurd hfuel (Nat.not_lt_zero _)
  | succ fuel ih =>
    obtain rfl | hlt := hs.eq_or_lt
    · refine ⟨[], ?_, rfl, nofun⟩
      rintro mgr rfl
      rw [addRangeDown, if_pos rfl]
      rfl
    · have hfit := hrest hlt
      generalize hlvl : pgAddrMaxlvl (addr ⟨root, s⟩) = lvl at hfit
      generalize hcnt : pgPagecntMaxlvl (e - s) = cnt
      have hle : lvl ≤ pgmgrMaxlvl := hlvl ▸ addrMaxlvlLoop_le _ _
      have hlow : 2 ^ cnt ≤ e - s :=
        hcnt ▸ pagecntMaxlvlLoop_le (Nat.sub_pos_of_lt hlt) pgmgrMaxlvl
      have hhigh : e - s < 2 ^ (cnt + 1) := by
        rw [← hcnt]
        apply pagecntMaxlvlLoop_lt
        have hmono := Nat.pow_le_pow_right Nat.two_pos (hle.trans (Nat.le_succ _))
        omega
      have hcntlt : cnt < lvl := by
        by_contra hge
        have hmono := Nat.pow_le_pow_right Nat.two_pos (Nat.le_of_not_lt hge)
        omega
      have hdvd : 2 ^ (pgSft + cnt + 1) ∣ addr ⟨root, s⟩ := by
        rw [Nat.add_assoc]
        exact (h.aligned hlt (hlvl ▸ hcntlt)).dvd
      have hnext : s + 2 ^ cnt < e →
          e < s + 2 ^ cnt + 2 ^ pgAddrMaxlvl (addr ⟨root, s + 2 ^ cnt⟩) := by
        intro hlt'
        have haddr : addr ⟨root, s + 2 ^ cnt⟩ = addr ⟨root, s⟩ + 2 ^ (pgSft + cnt) := by
          rw [h.addr_eq _ (Nat.le_add_right ..) hlt', h.addr_eq s le_rfl hlt, pow_pgSft_add,
            Nat.add_mul, Nat.add_assoc]
        have hdvd' : 2 ^ (pgSft + cnt) ∣ addr ⟨root, s + 2 ^ cnt⟩ := by
          rw [haddr]
          exact Nat.dvd_add (dvd_trans (pow_dvd_pow 2 (Nat.le_succ _)) hdvd) dvd_rfl
        have hmono := Nat.pow_le_pow_right Nat.two_pos
          (le_pgAddrMaxlvl hdvd' (hcntlt.le.trans hle))
        rw [pow_succ] at hhigh
        omega
      obtain ⟨ls, heq, hpages, hblocks⟩ := ih (h.mono (show s ≤ s + 2 ^ cnt by omega))
        (by omega) hnext (by omega)
      refine ⟨cnt :: ls, ?_, ?_, ?_⟩
      · rintro mgr rfl
        rw [addRangeDown, if_neg hlt.ne, blocksFrom_cons, appendAll_cons]
        simp only [hlvl, hcnt, Nat.min_eq_right hcntlt.le, Nat.one_shiftLeft, Option.bind_eq_bind]
        cases happ : mgr.dlAppend cnt ⟨root, s⟩ with
        | none => rfl
        | some mgr' => exact heq mgr' (addr_dlAppend happ)
      · rw [pagesOf_cons, ← Nat.add_assoc, hpages]
      · intro b hb
        obtain rfl | hb := List.mem_cons.mp hb
        · exact ⟨h.aligned hlt (hlvl ▸ hcntlt.le), hdvd⟩
        · exact hblocks b hb

/-! ### Appending blocks -/

theorem mem_blocksFrom {s : ℕ} {ls : List ℕ} {b : Block} (hb : b ∈ blocksFrom root s ls) :
  b.1.root = root ∧ s ≤ b.1.idx ∧ b.1.idx + 2 ^ b.2 ≤ s + pagesOf ls
  := by
  obtain ⟨p, hp, rfl⟩ := List.mem_map.mp hb
  exact ⟨rfl, Tiling.mem_place hp⟩

theorem blocksFrom_append (s : ℕ) (ls ls' : List ℕ) :
  blocksFrom root s (ls ++ ls') = blocksFrom root s ls ++ blocksFrom root (s + pagesOf ls) ls'
  := by rw [blocksFrom, Tiling.place_append, List.map_append]; rfl

/-- The pages of the blocks, one behind the other. -/
theorem flatMap_blocksFrom (s : ℕ) (ls : List ℕ) :
  (blocksFrom root s ls).flatMap (fun b => List.range' b.1.idx (2 ^ b.2))
    = List.range' s (pagesOf ls)
  := by
  rw [blocksFrom, List.flatMap_map]
  exact Tiling.flatMap_range'_place _ _ _

theorem nodup_blocksFrom (s : ℕ) (ls : List ℕ) :
  ((blocksFrom root s ls).map Prod.fst).Nodup
  := by
  rw [blocksFrom, List.map_map, List.Nodup, List.pairwise_map]
  apply (Tiling.place_pairwise _ _ _).imp
  intro p q hle heq
  have hidx : p.1 = q.1 := congrArg DspPtr.idx heq
  have hpos := Nat.two_pow_pos p.2
  omega

theorem addr_appendAll {bs : List Block} {mgr mgr' : PgMgr} (h : mgr.appendAll bs = some mgr') :
  mgr'.addr = mgr.addr
  := by
  induction bs generalizing mgr with
  | nil => rw [← Option.some.inj h]
  | cons b bs ih =>
    rw [appendAll_cons, Option.bind_eq_some_iff] at h
    obtain ⟨mgr₁, happ, h⟩ := h
    rw [ih h, addr_dlAppend happ]

/-- Appending blocks that are on no list puts them behind the others on their lists. -/
theorem appendAll_spec (bs : List Block) {mgr : PgMgr} {fl : ℕ → List DspPtr}
    (hf : DList.Forest mgr.links mgr.freeLists fl) (hnodup : (bs.map Prod.fst).Nodup)
    (hfresh : ∀ b ∈ bs, ∀ l, b.1 ∉ fl l) :
  ∃ links heads, mgr.appendAll bs = some { mgr with links := links, freeLists := heads }
    ∧ DList.Forest links heads fun l => fl l ++ (bs.filter fun b => b.2 = l).map Prod.fst
  := by
  induction bs generalizing mgr fl with
  | nil =>
    refine ⟨mgr.links, mgr.freeLists, rfl, ?_⟩
    simpa using hf
  | cons b bs ih =>
    obtain ⟨hnew, hnodup⟩ := List.nodup_cons.mp hnodup
    obtain ⟨hb, hfresh⟩ := List.forall_mem_cons.mp hfresh
    obtain ⟨links, heads, happ, hf₁⟩ := dlAppend_spec mgr hf b.2 hb
    obtain ⟨links', heads', happ', hf'⟩ :=
        @ih { mgr with links := links, freeLists := heads } _ hf₁ hnodup (by
      intro c hc l hmem
      by_cases hl : l = b.2
      · subst hl
        rw [Function.update_self] at hmem
        obtain hmem | hmem := List.mem_append.mp hmem
        · exact hfresh c hc _ hmem
        · rw [List.mem_singleton] at hmem
          exact hnew (hmem ▸ List.mem_map_of_mem hc)
      · rw [Function.update_of_ne hl] at hmem
        exact hfresh c hc l hmem)
    refine ⟨links', heads', ?_, ?_⟩
    · rw [appendAll_cons, happ]
      exact happ'
    · convert hf' using 1
      funext l
      by_cases hl : l = b.2
      · subst hl
        simp
      · rw [Function.update_of_ne hl, List.filter_cons_of_neg (by simpa using Ne.symm hl)]

/-! ### The whole range -/

/-- `c` is the block that `pg_free_page` takes for the buddy of `b`. -/
def IsBuddy (addr : DspPtr → ℕ) (b c : Block) : Prop :=
  c.2 = b.2 ∧ addr c.1 = addr b.1 ^^^ (1 <<< (pgSft + b.2))

/-- Upper halves in front of lower halves are no buddies. -/
theorem not_isBuddy {s m : ℕ} {ls ls' : List ℕ} (h : Consecutive addr root base s e)
    (hm : m = s + pagesOf ls) (hend : m + pagesOf ls' ≤ e)
    (hup : ∀ b ∈ blocksFrom root s ls, Aligned addr b
      ∧ (b.2 < pgmgrMaxlvl → ¬ 2 ^ (pgSft + b.2 + 1) ∣ addr b.1))
    (hdown : ∀ b ∈ blocksFrom root m ls', Aligned addr b ∧ 2 ^ (pgSft + b.2 + 1) ∣ addr b.1)
    {b c : Block} (hb : b ∈ blocksFrom root s ls ++ blocksFrom root m ls')
    (hc : c ∈ blocksFrom root s ls ++ blocksFrom root m ls') (hlt : b.2 < pgmgrMaxlvl) :
  ¬ IsBuddy addr b c
  := by
  rintro ⟨hlvl, haddr⟩
  have hback : addr b.1 = addr c.1 ^^^ (1 <<< (pgSft + b.2)) := by
    rw [haddr, Nat.xor_assoc, Nat.xor_self, Nat.xor_zero]
  have hpos := Nat.two_pow_pos (pgSft + b.2)
  have hlater : ∀ {b c : Block}, b ∈ blocksFrom root s ls → c ∈ blocksFrom root m ls' →
      addr b.1 < addr c.1 := by
    rintro ⟨⟨r, i⟩, l⟩ ⟨⟨r', j⟩, l'⟩ hb hc
    obtain ⟨rfl, hlo, hhi⟩ := mem_blocksFrom hb
    obtain ⟨rfl, hlo', hhi'⟩ := mem_blocksFrom hc
    dsimp only at hlo hhi hlo' hhi' ⊢
    have hpos₁ := Nat.two_pow_pos l
    have hpos₂ := Nat.two_pow_pos l'
    rw [h.addr_eq i hlo (by omega), h.addr_eq j (by omega) (by omega)]
    apply Nat.add_lt_add_left
    exact Nat.mul_lt_mul_of_pos_right (by omega) pgSz_pos
  obtain hb | hb := List.mem_append.mp hb
  · have hplus := Bits.xor_one_shiftLeft_of_not_dvd (hup b hb).1.dvd ((hup b hb).2 hlt)
    rw [← haddr] at hplus
    obtain hc | hc := List.mem_append.mp hc
    · obtain ⟨⟨-, hdvd⟩, hnot⟩ := hup c hc
      rw [hlvl] at hdvd hnot
      have hplus' := Bits.xor_one_shiftLeft_of_not_dvd hdvd (hnot hlt)
      rw [← hback] at hplus'
      omega
    · have hlt := hlater hb hc
      omega
  · have hplus := Bits.xor_one_shiftLeft_of_dvd (hdown b hb).2
    rw [← haddr] at hplus
    obtain hc | hc := List.mem_append.mp hc
    · have hlt := hlater hc hb
      omega
    · have hdvd := (hdown c hc).2
      rw [hlvl] at hdvd
      have hplus' := Bits.xor_one_shiftLeft_of_dvd hdvd
      rw [← hback] at hplus'
      omega

/-- The blocks `bs` tile the pages `[s, e)` of the root, and `pg_init_free_lists_add_range`
appends them. -/
structure Seeds (mgr : PgMgr) (root s e : ℕ) (bs : List Block) : Prop where
  /-- The calls of `DL_APPEND2`, in order. -/
  appends : mgr.pgInitFreeListsAddRange root s e = mgr.appendAll bs
  within : ∀ b ∈ bs, b.1.root = root
  /-- The pages of the blocks, one behind the other, are those of the range. -/
  tiles : bs.flatMap (fun b => List.range' b.1.idx (2 ^ b.2)) = List.range' s (e - s)
  level : ∀ b ∈ bs, b.2 ≤ pgmgrMaxlvl
  aligned : ∀ b ∈ bs, 2 ^ (pgSft + b.2) ∣ mgr.addr b.1
  coalesced : ∀ b ∈ bs, ∀ c ∈ bs, b.2 < pgmgrMaxlvl → ¬ IsBuddy mgr.addr b c
  /-- On free lists without pages of the range, the blocks end up on the lists of their
  levels. -/
  lists : ∀ fl, DList.Forest mgr.links mgr.freeLists fl →
    (∀ i, s ≤ i → i < e → ∀ l, ⟨root, i⟩ ∉ fl l) →
    ∃ links heads, mgr.pgInitFreeListsAddRange root s e
        = some { mgr with links := links, freeLists := heads }
      ∧ DList.Forest links heads fun l => fl l ++ (bs.filter fun b => b.2 = l).map Prod.fst

end Loops

/-- The range is tiled with blocks no two of which are buddies, whatever is behind it. -/
theorem pgInitFreeListsAddRange_tiles (mgr : PgMgr) (root base s e : ℕ) (hse : s ≤ e)
    (haddr : Consecutive mgr.addr root base s e) :
  ∃ bs, Seeds mgr root s e bs
  := by
  obtain ⟨ls, hup, hle, hstop, hright⟩ := addRangeUp_eq (e - s + 1) haddr hse (Nat.lt_succ_self _)
  generalize hm : s + pagesOf ls = m at hup hle hstop
  obtain ⟨ls', hdown, hend, hleft⟩ := addRangeDown_eq (e - m + 1)
    (haddr.mono (show s ≤ m by omega)) hle hstop (Nat.lt_succ_self _)
  have hsplit : blocksFrom root s (ls ++ ls') = blocksFrom root s ls ++ blocksFrom root m ls' := by
    rw [blocksFrom_append, hm]
  have hpages : pagesOf (ls ++ ls') = e - s := by
    have hsum : pagesOf (ls ++ ls') = pagesOf ls + pagesOf ls' := by
      rw [pagesOf, List.map_append, List.sum_append, pagesOf, pagesOf]
    omega
  have happends : mgr.pgInitFreeListsAddRange root s e
      = mgr.appendAll (blocksFrom root s (ls ++ ls')) := by
    have hfold : mgr.appendAll (blocksFrom root s ls ++ blocksFrom root m ls')
        = (mgr.appendAll (blocksFrom root s ls)).bind fun mgr =>
            mgr.appendAll (blocksFrom root m ls') := List.foldlM_append
    rw [pgInitFreeListsAddRange, hup mgr rfl, hsplit, hfold]
    cases happ : mgr.appendAll (blocksFrom root s ls) with
    | none => rfl
    | some mgr' => exact hdown mgr' (addr_appendAll happ)
  have haligned : ∀ b ∈ blocksFrom root s (ls ++ ls'), Aligned mgr.addr b := by
    intro b hb
    rw [hsplit] at hb
    obtain hb | hb := List.mem_append.mp hb
    · exact (hright b hb).1
    · exact (hleft b hb).1
  use blocksFrom root s (ls ++ ls')
  constructor
  · exact happends
  · exact fun b hb => (mem_blocksFrom hb).1
  · rw [flatMap_blocksFrom, hpages]
  · exact fun b hb => (haligned b hb).level
  · exact fun b hb => (haligned b hb).dvd
  · intro b hb c hc hlt
    rw [hsplit] at hb hc
    exact not_isBuddy haddr hm.symm hend.le hright hleft hb hc hlt
  · intro fl hf hfree
    rw [happends]
    apply appendAll_spec _ hf (nodup_blocksFrom s _)
    intro b hb l
    obtain ⟨hroot, hlo, hhi⟩ := mem_blocksFrom hb
    rw [hpages] at hhi
    have hpos := Nat.two_pow_pos b.2
    have hfresh := hfree b.1.idx hlo (by omega) l
    rwa [← hroot] at hfresh

/-- A manager with a root of three pages; behind its last descriptor there is `0`. -/
def threePages : PgMgr where
  self := 0
  freeLists := fun _ => none
  roots := [⟨0, 0x100000, 0x400000⟩]
  addr := fun d => if d.idx < 3 then 0x100000 + d.idx * pgSz else 0
  links := { prev := fun _ => none, next := fun _ => none }
  used := fun _ => false
  lvl := fun _ => 0

/-- All three pages are seeded. -/
theorem pgInitFreeListsAddRange_tiles_three :
  ∃ bs, Seeds threePages 0 0 3 bs
  := pgInitFreeListsAddRange_tiles threePages 0 0x100000 0 3 (by decide)
    ⟨by decide, fun _ _ hi => if_pos hi⟩

end PgMgr

end TrainsOs
