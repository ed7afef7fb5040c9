import TrainsOs.PgMgr.Basic

/-!
# The search for the root

The binary search of `pg_free_page` leaves the root of an address out of the range when it
probes it: the loop ends with a `break`, and then the root at the left end of the range is
taken. So the search finds the root of an address exactly when this root is at the left end
of the range when it is probed, or is never probed. The ranges that occur depend on the
number of roots only. Addresses below the first root may take the right end of the range
below `0`, and for addresses above the last root the left end ends up behind the array.
-/

namespace TrainsOs

/-- The root segments are not empty, ascending and pairwise disjoint. -/
structure RootsSorted (roots : List PgRoot) : Prop where
  lt : ∀ seg ∈ roots, seg.startAddr < seg.endAddr
  ascending : roots.Pairwise fun a b => a.endAddr ≤ b.startAddr

/-- The ranges `[l, r]` that arise from `[0, n]` by leaving out the middle and what is on
one side of it. -/
inductive Halved (n : ℕ) : ℕ → ℕ → Prop
  | whole : Halved n 0 n
  | left {l r : ℕ} : Halved n l r → l < (l + r) / 2 → Halved n l ((l + r) / 2 - 1)
  | right {l r : ℕ} : Halved n l r → l < r → Halved n ((l + r) / 2 + 1) r

/-- The ranges at the left end. -/
theorem halved_zero_iff {n r : ℕ} :
  Halved n 0 r ↔ ∃ j, (n + 2) / 2 ^ j = r + 2
  := by
  constructor
  · intro h
    generalize hl : 0 = l at h
    induction h with
    | whole =>
      use 0
      rw [Nat.pow_zero, Nat.div_one]
    | left _ hlt ih =>
      obtain ⟨j, hj⟩ := ih hl
      use j + 1
      rw [Nat.pow_succ, ← Nat.div_div_eq_div_mul, hj]
      omega
    | right _ _ _ => omega
  · rintro ⟨j, hj⟩
    induction j generalizing r with
    | zero =>
      rw [Nat.pow_zero, Nat.div_one] at hj
      obtain rfl : r = n := by omega
      exact Halved.whole
    | succ j ih =>
      rw [Nat.pow_succ, ← Nat.div_div_eq_div_mul] at hj
      obtain ⟨r', hr'⟩ : ∃ r', (n + 2) / 2 ^ j = r' + 2 := by
        use (n + 2) / 2 ^ j - 2
        omega
      have hleft := (ih hr').left (by omega)
      have heq : (0 + r') / 2 - 1 = r := by omega
      rwa [heq] at hleft

namespace PgMgr

/-- What a call with the pointer `ptr` is meant to do: the search ends at a root, at that of
the address if there is one, and otherwise nothing is changed. -/
def FreesRight (mgr : PgMgr) (ptr : ℕ) : Prop :=
  ∃ l, searchRoot mgr.roots ptr (mgr.roots.length + 1) 0 mgr.roots.length = some l
    ∧ l < mgr.roots.length
    ∧ (∀ t seg, mgr.roots[t]? = some seg → addrInSegment seg ptr = true → l = t)
    ∧ ((∀ seg ∈ mgr.roots, addrInSegment seg ptr = false) → mgr.pgFreePage ptr = some mgr)

/-- The root of the address is not the middle of a range in which it has others in front of
it. An address of no root is not above all of them, and if it is below all of them then the
two leading binary digits of `n + 2` are not `11`. -/
def SearchOk (roots : List PgRoot) (ptr : ℕ) : Prop :=
  (∃ t seg, roots[t]? = some seg ∧ addrInSegment seg ptr = true
      ∧ ∀ l r, Halved roots.length l r → l < (l + r) / 2 → (l + r) / 2 ≠ t)
    ∨ (∀ seg ∈ roots, addrInSegment seg ptr = false) ∧ (∃ seg ∈ roots, ptr < seg.startAddr)
      ∧ ((∃ seg ∈ roots, seg.endAddr ≤ ptr) ∨ ∀ j, (roots.length + 2) / 2 ^ j ≠ 3)

/-- There are `g` roots below the address, and the next one ends above it. -/
structure Cut (roots : List PgRoot) (ptr g : ℕ) : Prop where
  le : g ≤ roots.length
  below : ∀ i seg, roots[i]? = some seg → i < g → seg.startAddr ≤ ptr ∧ seg.endAddr ≤ ptr
  above : ∀ i seg, roots[i]? = some seg → g < i → ptr < seg.startAddr
  next : ∀ seg, roots[g]? = some seg → ptr < seg.endAddr

section Search

variable {roots : List PgRoot} {ptr g : ℕ}

theorem exists_cut (h : RootsSorted roots) (ptr : ℕ) :
  ∃ g, Cut roots ptr g
  := by
  obtain ⟨hlt, hascending⟩ := h
  induction roots with
  | nil => exact ⟨0, le_rfl, nofun, nofun, nofun⟩
  | cons seg roots ih =>
    obtain ⟨hfirst, hascending⟩ := List.pairwise_cons.mp hascending
    obtain ⟨hseg, hlt⟩ := List.forall_mem_cons.mp hlt
    by_cases hend : seg.endAddr ≤ ptr
    · obtain ⟨g, hcut⟩ := ih hlt hascending
      use g + 1
      constructor
      · exact Nat.succ_le_succ hcut.le
      · intro i seg' hi hig
        cases i with
        | zero =>
          obtain rfl := Option.some.inj hi
          exact ⟨hseg.le.trans hend, hend⟩
        | succ i => exact hcut.below i seg' hi (Nat.lt_of_succ_lt_succ hig)
      · intro i seg' hi hig
        cases i with
        | zero => exact absurd hig (Nat.not_lt_zero _)
        | succ i => exact hcut.above i seg' hi (Nat.lt_of_succ_lt_succ hig)
      · exact hcut.next
    · use 0
      constructor
      · exact Nat.zero_le _
      · exact fun i seg' _ hi => absurd hi (Nat.not_lt_zero i)
      · intro i seg' hi hpos
        cases i with
        | zero => exact absurd hpos (Nat.lt_irrefl 0)
        | succ i =>
          have hle := hfirst seg' (List.mem_of_getElem? hi)
          omega
      · rintro seg' ⟨⟩
        exact Nat.lt_of_not_le hend

section Round

variable {l r : ℕ} (fuel : ℕ) (hlr : l < r) {seg : PgRoot} (hseg : roots[(l + r) / 2]? = some seg)

include hlr hseg

/-- A round of the loop that looks at a root below the address. -/
theorem searchRoot_below (h : Cut roots ptr g) (hm : (l + r) / 2 < g) :
  searchRoot roots ptr (fuel + 1) l r = searchRoot roots ptr fuel ((l + r) / 2 + 1) r
  := by
  obtain ⟨hstart, hend⟩ := h.below _ _ hseg hm
  simp only [searchRoot, if_pos hlr, hseg, if_neg hstart.not_gt, if_pos hend]

/-- A round of the loop that looks at a root above the address. -/
theorem searchRoot_above (hstart : ptr < seg.startAddr) :
  searchRoot roots ptr (fuel + 1) l r
    = searchRoot roots ptr fuel l (if (l + r) / 2 = 0 then 2 ^ 32 - 1 else (l + r) / 2 - 1)
  := by
  simp only [searchRoot, if_pos hlr, hseg, if_pos hstart]

/-- A round of the loop that looks at the root of the address. -/
theorem searchRoot_hit (hin : addrInSegment seg ptr = true) :
  searchRoot roots ptr (fuel + 1) l r = some l
  := by
  rw [addrInSegment, Bool.and_eq_true, decide_eq_true_eq, decide_eq_true_eq] at hin
  simp only [searchRoot, if_pos hlr, hseg, if_neg hin.1.not_gt, if_neg hin.2.not_ge]

end Round

/-- The root at which an address is cut is the one that it can lie in. -/
theorem Cut.eq_of_in (h : Cut roots ptr g) {t : ℕ} {seg : PgRoot} (hseg : roots[t]? = some seg)
    (hin : addrInSegment seg ptr = true) :
  t = g
  := by
  rw [addrInSegment, Bool.and_eq_true, decide_eq_true_eq, decide_eq_true_eq] at hin
  obtain hlt | heq | hgt := Nat.lt_trichotomy t g
  · exact absurd (h.below t seg hseg hlt).2 hin.2.not_ge
  · exact heq
  · exact absurd (h.above t seg hseg hgt) hin.1.not_gt

/-- The roots from the cut on are above an address that lies in none of them. -/
theorem Cut.above_of_out (h : Cut roots ptr g)
    (hout : ∀ seg ∈ roots, addrInSegment seg ptr = false) {i : ℕ} {seg : PgRoot}
    (hseg : roots[i]? = some seg) (hi : g ≤ i) :
  ptr < seg.startAddr
  := by
  obtain rfl | hlt := hi.eq_or_lt
  · have hnot := hout seg (List.mem_of_getElem? hseg)
    have hend := h.next seg hseg
    by_contra hstart
    rw [addrInSegment, decide_eq_true (Nat.le_of_not_lt hstart), decide_eq_true hend] at hnot
    cases hnot
  · exact h.above i seg hseg hlt

/-- The loop gets to every range around the cut, unless it is left before. -/
theorem searchRoot_halved (h : Cut roots ptr g) {l r : ℕ} (hhalved : Halved roots.length l r)
    (hl : l ≤ g) (hr : g ≤ r) :
  r ≤ roots.length ∧ ∃ fuel, r - l < fuel ∧
    searchRoot roots ptr (roots.length + 1) 0 roots.length = searchRoot roots ptr fuel l r
  := by
  induction hhalved with
  | whole => exact ⟨le_rfl, _, Nat.lt_succ_self _, rfl⟩
  | @left l r _ hlt ih =>
    obtain ⟨hle, fuel, hfuel, heq⟩ := ih hl (by omega)
    obtain ⟨fuel, rfl⟩ : ∃ n, fuel = n + 1 := ⟨fuel - 1, by omega⟩
    have hm := List.getElem?_eq_getElem (show (l + r) / 2 < roots.length by omega)
    use by omega, fuel, by omega
    rw [heq, searchRoot_above fuel (by omega) hm (h.above _ _ hm (by omega)), if_neg (by omega)]
  | @right l r _ hlt ih =>
    obtain ⟨hle, fuel, hfuel, heq⟩ := ih (by omega) hr
    obtain ⟨fuel, rfl⟩ : ∃ n, fuel = n + 1 := ⟨fuel - 1, by omega⟩
    have hm := List.getElem?_eq_getElem (show (l + r) / 2 < roots.length by omega)
    use hle, fuel, by omega
    rw [heq, searchRoot_below fuel hlt hm h (by omega)]

/-! ### Addresses of a root -/

/-- The search ends at the root of an address that it does not probe too early. -/
theorem searchRoot_finds (h : Cut roots ptr g) {seg : PgRoot} (hseg : roots[g]? = some seg)
    (hin : addrInSegment seg ptr = true)
    (hok : ∀ l r, Halved roots.length l r → l < (l + r) / 2 → (l + r) / 2 ≠ g) (fuel : ℕ)
    {l r : ℕ} (hhalved : Halved roots.length l r) (hl : l ≤ g) (hr : g ≤ r)
    (hfuel : r - l < fuel) :
  searchRoot roots ptr fuel l r = some g
  := by
  induction fuel generalizing l r with
  | zero => exact absurd hfuel (Nat.not_lt_zero _)
  | succ fuel ih =>
    by_cases hlr : l < r
    · have hle := (searchRoot_halved h hhalved hl hr).1
      have hm := List.getElem?_eq_getElem (show (l + r) / 2 < roots.length by omega)
      obtain hlt | heq | hgt := Nat.lt_trichotomy ((l + r) / 2) g
      · rw [searchRoot_below fuel hlr hm h hlt]
        exact ih (hhalved.right hlr) hlt hr (by omega)
      · have hfirst := hok l r hhalved
        rw [← heq] at hseg ⊢
        rw [searchRoot_hit fuel hlr hseg hin]
        congr 1
        omega
      · rw [searchRoot_above fuel hlr hm (h.above _ _ hm hgt), if_neg (by omega)]
        exact ih (hhalved.left (by omega)) hl (by omega) (by omega)
    · rw [searchRoot, if_neg hlr]
      congr 1
      omega

/-- The search for an address in a root ends at this root exactly when it is not probed too
early. -/
theorem searchRoot_finds_iff (h : Cut roots ptr g) {seg : PgRoot} (hseg : roots[g]? = some seg)
    (hin : addrInSegment seg ptr = true) :
  searchRoot roots ptr (roots.length + 1) 0 roots.length = some g
    ↔ ∀ l r, Halved roots.length l r → l < (l + r) / 2 → (l + r) / 2 ≠ g
  := by
  constructor
  · rintro hfound l r hhalved hlt rfl
    obtain ⟨-, fuel, hfuel, heq⟩ := searchRoot_halved h hhalved hlt.le (by omega)
    obtain ⟨fuel, rfl⟩ : ∃ n, fuel = n + 1 := ⟨fuel - 1, by omega⟩
    rw [heq, searchRoot_hit fuel (by omega) hseg hin] at hfound
    exact hlt.ne (Option.some.inj hfound)
  · intro hok
    exact searchRoot_finds h hseg hin hok _ Halved.whole (Nat.zero_le _) h.le (Nat.lt_succ_self _)

/-! ### Addresses of no root -/

section Out

variable (h : Cut roots ptr g) (hout : ∀ seg ∈ roots, addrInSegment seg ptr = false)

include h hout

/-- Between two roots the search ends at one of them. -/
theorem searchRoot_between (hpos : 0 < g) (fuel : ℕ) {l r : ℕ} (hl : l ≤ g)
    (hr : r ≤ roots.length) (hfuel : r - l < fuel) :
  ∃ l' ≤ g, searchRoot roots ptr fuel l r = some l'
  := by
  induction fuel generalizing l r with
  | zero => exact absurd hfuel (Nat.not_lt_zero _)
  | succ fuel ih =>
    by_cases hlr : l < r
    · have hm := List.getElem?_eq_getElem (show (l + r) / 2 < roots.length by omega)
      by_cases hlt : (l + r) / 2 < g
      · rw [searchRoot_below fuel hlr hm h hlt]
        exact ih hlt hr (by omega)
      · rw [searchRoot_above fuel hlr hm (h.above_of_out hout hm (by omega)), if_neg (by omega)]
        exact ih hl (by omega) (by omega)
    · use l, hl
      rw [searchRoot, if_neg hlr]

/-- The condition for an address of no root, in terms of the cut. -/
theorem searchOk_out_iff (hlt : ∀ seg ∈ roots, seg.startAddr < seg.endAddr) :
  SearchOk roots ptr ↔ g < roots.length ∧ (0 < g ∨ ¬ Halved roots.length 0 1)
  := by
  have habove : (∃ seg ∈ roots, ptr < seg.startAddr) ↔ g < roots.length := by
    constructor
    · rintro ⟨seg, hmem, hstart⟩
      obtain ⟨i, hseg⟩ := List.getElem?_of_mem hmem
      have hi := (List.getElem?_eq_some_iff.mp hseg).1
      by_contra hg
      exact absurd (h.below i seg hseg (by omega)).1 hstart.not_ge
    · intro hg
      exact ⟨_, List.getElem_mem hg, h.above_of_out hout (List.getElem?_eq_getElem hg) le_rfl⟩
  have hbelow : (∃ seg ∈ roots, seg.endAddr ≤ ptr) ↔ 0 < g := by
    constructor
    · rintro ⟨seg, hmem, hend⟩
      obtain ⟨i, hseg⟩ := List.getElem?_of_mem hmem
      by_contra hg
      obtain rfl | hi := (show g ≤ i by omega).eq_or_lt
      · exact absurd (h.next seg hseg) hend.not_gt
      · exact absurd (h.above i seg hseg hi) ((hlt seg hmem).le.trans hend).not_gt
    · intro hg
      have hseg := List.getElem?_eq_getElem (hg.trans_le h.le)
      exact ⟨_, List.mem_of_getElem? hseg, (h.below 0 _ hseg hg).2⟩
  have hzero : (∀ j, (roots.length + 2) / 2 ^ j ≠ 3) ↔ ¬ Halved roots.length 0 1 := by
    rw [halved_zero_iff, not_exists]
  rw [SearchOk, habove, hbelow, hzero]
  constructor
  · rintro (⟨t, seg, hseg, hin, -⟩ | ⟨-, hok⟩)
    · rw [hout seg (List.mem_of_getElem? hseg)] at hin
      cases hin
    · exact hok
  · exact fun hok => Or.inr ⟨hout, hok⟩

/-- Below all roots the search ends at the first one, unless the first one is probed. -/
theorem searchRoot_first (hfirst : g = 0) (hnot : ¬ Halved roots.length 0 1) (fuel : ℕ) {r : ℕ}
    (hhalved : Halved roots.length 0 r) (hfuel : r < fuel) :
  searchRoot roots ptr fuel 0 r = some 0
  := by
  induction fuel generalizing r with
  | zero => exact absurd hfuel (Nat.not_lt_zero _)
  | succ fuel ih =>
    have hle := (searchRoot_halved h hhalved (Nat.zero_le _) (by omega)).1
    have hone : r ≠ 1 := fun h => hnot (h ▸ hhalved)
    by_cases hr : 0 < r
    · have hm := List.getElem?_eq_getElem (show (0 + r) / 2 < roots.length by omega)
      rw [searchRoot_above fuel hr hm (h.above_of_out hout hm (by omega)), if_neg (by omega)]
      exact ih (hhalved.left (by omega)) (by omega)
    · rw [searchRoot, if_neg hr]

/-- When the first root is probed for an address below it, the right end gets below `0`. -/
theorem searchRoot_wraps (hfirst : g = 0) (hlen : roots.length < 2 ^ 31)
    (hhalved : Halved roots.length 0 1) :
  searchRoot roots ptr (roots.length + 1) 0 roots.length = none
  := by
  obtain ⟨hle, fuel, hfuel, heq⟩ := searchRoot_halved h hhalved (Nat.zero_le _) (by omega)
  obtain ⟨fuel, rfl⟩ : ∃ n, fuel = n + 2 := ⟨fuel - 2, by omega⟩
  have hm := List.getElem?_eq_getElem (show (0 + 1) / 2 < roots.length by omega)
  have hnone : roots[(0 + (2 ^ 32 - 1)) / 2]? = none := List.getElem?_eq_none (by omega)
  rw [heq, searchRoot_above (fuel + 1) Nat.one_pos hm (h.above_of_out hout hm (by omega)),
    if_pos rfl, searchRoot, if_pos (by decide)]
  dsimp only
  rw [hnone]

end Out

/-- Above all roots the search ends behind the array. -/
theorem searchRoot_last (h : Cut roots ptr g) (hlast : g = roots.length) (fuel : ℕ)
    {l : ℕ} (hl : l ≤ g)
    (hfuel : g - l < fuel) :
  searchRoot roots ptr fuel l g = some g
  := by
  induction fuel generalizing l with
  | zero => exact absurd hfuel (Nat.not_lt_zero _)
  | succ fuel ih =>
    by_cases hlg : l < g
    · have hm := List.getElem?_eq_getElem (show (l + g) / 2 < roots.length by omega)
      rw [searchRoot_below fuel hlg hm h (by omega)]
      exact ih (by omega) (by omega)
    · rw [searchRoot, if_neg hlg]
      congr 1
      omega

end Search

/-- When the search ends at a root in which the address does not lie, nothing is changed. -/
theorem pgFreePage_out {mgr : PgMgr} {ptr l : ℕ}
    (hsearch : searchRoot mgr.roots ptr (mgr.roots.length + 1) 0 mgr.roots.length = some l)
    (hl : l < mgr.roots.length) (hout : ∀ seg ∈ mgr.roots, addrInSegment seg ptr = false) :
  mgr.pgFreePage ptr = some mgr
  := by
  have hseg := List.getElem?_eq_getElem hl
  have hnot := hout _ (List.mem_of_getElem? hseg)
  simp only [pgFreePage, hsearch, Option.bind_eq_bind, Option.bind_some, hseg, hnot,
    Bool.false_eq_true, if_false]

/-- Exactly when a free looks at the right root. The number of roots is such that
`l + r` does not overflow. -/
theorem freesRight_iff (mgr : PgMgr) (ptr : ℕ) (hroots : RootsSorted mgr.roots)
    (hne : mgr.roots ≠ []) (hlen : mgr.roots.length < 2 ^ 31) :
  mgr.FreesRight ptr ↔ SearchOk mgr.roots ptr
  := by
  obtain ⟨g, hcut⟩ := exists_cut hroots ptr
  have hpos := List.length_pos_iff.mpr hne
  by_cases hin : ∃ seg ∈ mgr.roots, addrInSegment seg ptr = true
  · obtain ⟨seg, hmem, hin⟩ := hin
    obtain ⟨t, hseg⟩ := List.getElem?_of_mem hmem
    obtain rfl := hcut.eq_of_in hseg hin
    have hiff := searchRoot_finds_iff hcut hseg hin
    have hout : ¬ ∀ seg ∈ mgr.roots, addrInSegment seg ptr = false := by
      intro hout
      rw [hout seg hmem] at hin
      cases hin
    constructor
    · rintro ⟨l, hsearch, -, hroot, -⟩
      obtain rfl := hroot t seg hseg hin
      exact Or.inl ⟨l, seg, hseg, hin, hiff.mp hsearch⟩
    · rintro (⟨t', seg', hseg', hin', hok⟩ | ⟨hout', -⟩)
      · obtain rfl := hcut.eq_of_in hseg' hin'
        refine ⟨t', hiff.mpr hok, (List.getElem?_eq_some_iff.mp hseg).1, ?_, ?_⟩
        · intro t'' seg'' hseg'' hin''
          exact (hcut.eq_of_in hseg'' hin'').symm
        · exact fun hout' => absurd hout' hout
      · exact absurd hout' hout
  · have hout : ∀ seg ∈ mgr.roots, addrInSegment seg ptr = false := by
      intro seg hmem
      rw [← Bool.not_eq_true]
      exact fun hseg => hin ⟨seg, hmem, hseg⟩
    have hfrees : mgr.FreesRight ptr ↔ ∃ l < mgr.roots.length,
        searchRoot mgr.roots ptr (mgr.roots.length + 1) 0 mgr.roots.length = some l := by
      constructor
      · rintro ⟨l, hsearch, hl, -⟩
        exact ⟨l, hl, hsearch⟩
      · rintro ⟨l, hl, hsearch⟩
        refine ⟨l, hsearch, hl, ?_, fun _ => pgFreePage_out hsearch hl hout⟩
        intro t seg hseg hseg'
        exact absurd ⟨seg, List.mem_of_getElem? hseg, hseg'⟩ hin
    rw [hfrees, searchOk_out_iff hcut hout hroots.lt]
    obtain rfl | hlt := hcut.le.eq_or_lt
    · have hlast := searchRoot_last hcut rfl (mgr.roots.length + 1) (Nat.zero_le _)
        (Nat.lt_succ_self _)
      rw [hlast]
      constructor
      · rintro ⟨l, hl, heq⟩
        exact absurd (Option.some.inj heq) hl.ne'
      · exact fun h => absurd h.1 (Nat.lt_irrefl _)
    · obtain rfl | hzero := g.eq_zero_or_pos
      · by_cases hhalved : Halved mgr.roots.length 0 1
        · rw [searchRoot_wraps hcut hout rfl hlen hhalved]
          exact ⟨nofun, fun h => absurd hhalved (h.2.resolve_left (Nat.lt_irrefl 0))⟩
        · have hfirst := searchRoot_first hcut hout rfl hhalved (mgr.roots.length + 1)
            Halved.whole (Nat.lt_succ_self _)
          exact ⟨fun _ => ⟨hlt, Or.inr hhalved⟩, fun _ => ⟨0, hpos, hfirst⟩⟩
      · obtain ⟨l, hl, hsearch⟩ := searchRoot_between hcut hout hzero (mgr.roots.length + 1)
          (Nat.zero_le g) le_rfl (Nat.lt_succ_self _)
        exact ⟨fun _ => ⟨hlt, Or.inl hzero⟩, fun _ => ⟨l, hl.trans_lt hlt, hsearch⟩⟩

/-- A manager with the given roots and free lists that are empty. -/
def ofRoots (roots : List PgRoot) : PgMgr where
  self := 0
  freeLists := fun _ => none
  roots := roots
  addr := fun _ => 0
  links := { prev := fun _ => none, next := fun _ => none }
  used := fun _ => false
  lvl := fun _ => 0

/-- Two roots with a gap. -/
def gapRoots : List PgRoot :=
  [⟨0, 0x100000, 0x300000⟩, ⟨0, 0x400000, 0x600000⟩]

theorem gapRoots_sorted :
  RootsSorted gapRoots
  := by
  constructor
  · decide
  · decide

/-- An address in the first of two roots. -/
theorem freesRight_iff_first :
  (ofRoots gapRoots).FreesRight 0x200000 ↔ SearchOk gapRoots 0x200000
  := freesRight_iff (ofRoots gapRoots) 0x200000 gapRoots_sorted (by decide) (by decide)

/-- An address in the second of two roots: the search ends at the first one. -/
theorem not_freesRight_second :
  ¬ (ofRoots gapRoots).FreesRight 0x400000
  := by
  rintro ⟨l, hsearch, -, hroot, -⟩
  obtain rfl : l = 1 := hroot 1 ⟨0, 0x400000, 0x600000⟩ rfl (by decide)
  exact absurd hsearch (by decide)

end PgMgr

end TrainsOs
