import TrainsOs.PgMgr.Exclusive

/-!
# Memory for user tasks

The handler of `ke_mmap` rounds the size up to a power of two and asks the page manager
for a block of that size. Above `2 ^ 63` there is no such power of two in 64 bits, and
`NEXT_POW2` wraps around to `1`.
-/

namespace TrainsOs

open PgMgr

/-- What `k_mmap_handler` does: the manager afterwards, what it stores in `*target`, `none`
being `NULL`, and the return value of the call. -/
structure Mmapped where
  mgr : PgMgr
  target : Option ℕ
  retval : ℕ

/-- `k_mmap_handler`. -/
def kMmapHandler (mgr : PgMgr) (memSz : ℕ) : Option Mmapped := do
  let memSz := nextPow2 memSz
  let memSzSft := msbPos64 memSz
  let (mgr, target) ← mgr.pgAllocPage memSzSft
  some ⟨mgr, target, 0⟩

/-- The powers of two that are not below the size asked for, nor below the size of a page. -/
def MmapSizes (memSz : ℕ) : Set ℕ :=
  {n | (∃ k, n = 2 ^ k) ∧ max memSz pgSz ≤ n}

/-- The block `(d, l)` at the address `addr` is a free one of the manager, or the lower end of
a free one, and is handed out besides the others. -/
structure Mmapped.Fresh (out : Mmapped) (fl : ℕ → List DspPtr) (held : List Block) (memSz addr : ℕ)
    (d : DspPtr) (l : ℕ) : Prop where
  least : IsLeast (MmapSizes memSz) (2 ^ l * pgSz)
  addr_eq : out.mgr.addr d = addr
  aligned : 2 ^ l * pgSz ∣ addr
  free : ∃ q, l ≤ q ∧ (d, q) ∈ freeBlocks fl
  handed : ∃ fl', out.mgr.Inv fl' ((d, l) :: held)

/-- What is expected of `ke_mmap` when the manager has the free blocks `fl` and the blocks
`held` are handed out. -/
structure MmapGives (mgr : PgMgr) (fl : ℕ → List DspPtr) (held : List Block) (memSz : ℕ) :
    Prop where
  returns : ∃ out, kMmapHandler mgr memSz = some out
  block : ∀ out addr, kMmapHandler mgr memSz = some out → out.target = some addr →
    ∃ d l, out.Fresh fl held memSz addr d l
  tooLarge : 2 ^ pgmgrMaxlvl * pgSz < memSz →
    ∀ out, kMmapHandler mgr memSz = some out → out.target = none ∧ out.mgr = mgr

/-! ### The size of a block -/

/-- The level of pages for `2 ^ k` bytes. -/
theorem two_pow_pageLvl (k : ℕ) :
  2 ^ pageLvl k * pgSz = 2 ^ max k pgSft
  := by
  rw [pgSz_eq, ← pow_add, pageLvl]
  apply congrArg
  split <;> omega

/-- Rounding up to a level of pages gives the smallest block. -/
theorem isLeast_mmapSizes {memSz k : ℕ} (h : ∀ j, memSz ≤ 2 ^ j ↔ k ≤ j) :
  IsLeast (MmapSizes memSz) (2 ^ pageLvl k * pgSz)
  := by
  rw [two_pow_pageLvl]
  constructor
  · use ⟨max k pgSft, rfl⟩
    apply max_le
    · apply (h _).mpr (le_max_left _ _)
    · rw [pgSz_eq]
      apply Nat.pow_le_pow_right Nat.two_pos (le_max_right _ _)
  · rintro n ⟨⟨j, rfl⟩, hle⟩
    apply Nat.pow_le_pow_right Nat.two_pos
    apply max_le
    · apply (h j).mp ((le_max_left _ _).trans hle)
    · apply (Nat.pow_le_pow_iff_right Nat.one_lt_two).mp
      rw [← pgSz_eq]
      apply (le_max_right _ _).trans hle

/-! ### What the handler does -/

section Handler

variable {mgr : PgMgr} {fl : ℕ → List DspPtr} {held : List Block} {memSz : ℕ}

theorem kMmapHandler_eq {mgr' : PgMgr} {target : Option ℕ}
    (h : mgr.pgAllocPage (msbPos64 (nextPow2 memSz)) = some (mgr', target)) :
  kMmapHandler mgr memSz = some ⟨mgr', target, 0⟩
  := by
  simp only [kMmapHandler, h, Option.bind_eq_bind, Option.bind_some]

/-- Without a free block the answer is `NULL`. -/
theorem kMmapHandler_of_empty (h : mgr.Inv fl held) (hempty : ∀ l ≤ pgmgrMaxlvl, fl l = []) :
  kMmapHandler mgr memSz = some ⟨mgr, none, 0⟩
  := by
  apply kMmapHandler_eq
  obtain ⟨hnone, -⟩ | ⟨d, n, -, -, hle, hmem, -⟩ :=
    pgAllocPage_spec h (msbPos64 (nextPow2 memSz))
  · exact hnone
  · rw [hempty _ hle] at hmem
    cases hmem

/-- The answer `NULL` is always allowed when nothing has changed. -/
theorem mmapGives_of_null (heq : kMmapHandler mgr memSz = some ⟨mgr, none, 0⟩) :
  MmapGives mgr fl held memSz
  := by
  constructor
  · use ⟨mgr, none, 0⟩
  · rintro out addr hout htarget
    rw [heq, Option.some.injEq] at hout
    subst hout
    cases htarget
  · rintro - out hout
    rw [heq, Option.some.injEq] at hout
    subst hout
    use rfl

/-- Up to `2 ^ 63` bytes the answer is a block of the right size, or `NULL`. -/
theorem mmapGives_of_le (h : mgr.Inv fl held) (hle : memSz ≤ 2 ^ 63) :
  MmapGives mgr fl held memSz
  := by
  obtain ⟨k, hk, hpow, hleast⟩ := nextPow2_spec hle
  have hsft : msbPos64 (nextPow2 memSz) = k := by
    rw [hpow]
    apply msbPosFrom_two_pow hk
  obtain ⟨hnone, -⟩ | ⟨d, n, mgr', fl', hn, hmem, hsome, hinv, -, -, haddr, -⟩ :=
    pgAllocPage_spec h (msbPos64 (nextPow2 memSz))
  · apply mmapGives_of_null (kMmapHandler_eq hnone)
  · rw [hsft] at hn hmem hinv
    have heq := kMmapHandler_eq hsome
    constructor
    · use ⟨mgr', some (mgr.addr d), 0⟩
    · rintro out addr hout htarget
      rw [heq, Option.some.injEq] at hout
      subst hout
      obtain rfl : mgr.addr d = addr := Option.some.inj htarget
      use d, pageLvl k
      have hplaced := hinv.placed (d, pageLvl k) List.mem_cons_self
      obtain ⟨seg, hseg, -⟩ := id hplaced
      constructor
      · apply isLeast_mmapSizes hleast
      · dsimp only
        rw [haddr]
      · rw [← pow_pgSft_add, ← haddr]
        apply (addr_of_placed hinv.addr hseg hplaced).2.2
      · use pageLvl k + n, Nat.le_add_right _ _
        apply mem_freeBlocks.mpr ⟨hn, hmem⟩
      · use fl'
    · intro hlarge
      -- there is no level for so large a block
      have hk29 := (hleast 29).not.mp (by
        rw [pgmgrMaxlvl, pgSz_eq, ← pow_add, pgSft] at hlarge
        omega)
      rw [pageLvl, pgSft, pgmgrMaxlvl] at hn
      split at hn <;> omega

/-- Above `2 ^ 63` bytes the handler asks for one page. -/
theorem mmapGives_iff_of_lt (h : mgr.Inv fl held) (hlt : 2 ^ 63 < memSz) (hsz : memSz < 2 ^ 64) :
  MmapGives mgr fl held memSz ↔ ∀ l ≤ pgmgrMaxlvl, fl l = []
  := by
  have hlarge : 2 ^ pgmgrMaxlvl * pgSz < memSz := by
    rw [pgmgrMaxlvl, pgSz_eq, ← pow_add, pgSft]
    omega
  constructor
  · intro hgives l hl
    have hsft : pageLvl (msbPos64 (nextPow2 memSz)) = 0 := by
      rw [nextPow2_of_lt hlt hsz]
      decide
    obtain ⟨-, hempty⟩ | ⟨d, n, mgr', fl', -, -, hsome, -⟩ :=
      pgAllocPage_spec h (msbPos64 (nextPow2 memSz))
    · apply hempty l _ hl
      rw [hsft]
      apply Nat.zero_le
    · have hnull := (hgives.tooLarge hlarge _ (kMmapHandler_eq hsome)).1
      cases hnull
  · intro hempty
    apply mmapGives_of_null (kMmapHandler_of_empty h hempty)

end Handler

/-- The handler gives enough memory exactly when the size is at most `2 ^ 63` or there is no
memory at all. -/
theorem mmapGives_iff {mgr : PgMgr} {fl : ℕ → List DspPtr} {held : List Block}
    (h : mgr.Inv fl held) {memSz : ℕ} (hsz : memSz < 2 ^ 64) :
  MmapGives mgr fl held memSz ↔ memSz ≤ 2 ^ 63 ∨ ∀ l ≤ pgmgrMaxlvl, fl l = []
  := by
  by_cases hle : memSz ≤ 2 ^ 63
  · apply iff_of_true (mmapGives_of_le h hle)
    left
    exact hle
  · rw [mmapGives_iff_of_lt h (by omega) hsz]
    constructor
    · intro hempty
      right
      exact hempty
    · rintro (hle' | hempty)
      · cases hle hle'
      · exact hempty

/-- A little more than one megabyte takes a block of two pages. -/
theorem mmapGives_iff_tailSegs :
  ∃ mgr fl, pgInit (fun _ => 0) tailSegs = some mgr ∧ mgr.Inv fl []
    ∧ MmapGives mgr fl [] 0x100001
  := by
  have h : (pgInit (fun _ => 0) tailSegs).isSome = true := by decide
  obtain ⟨mgr, hinit⟩ := Option.isSome_iff_exists.mp h
  obtain ⟨-, -, fl, -, hinv, -⟩ := pgInit_spec tailSegs_wf hinit
  use mgr, fl, hinit, hinv
  apply (mmapGives_iff hinv (by decide)).mpr
  left
  decide

/-- For one byte more than `2 ^ 63` the handler hands out one page. -/
theorem not_mmapGives_tailSegs :
  ∃ mgr fl, pgInit (fun _ => 0) tailSegs = some mgr ∧ mgr.Inv fl []
    ∧ ((kMmapHandler mgr (2 ^ 63 + 1)).any fun out => out.target = some 0x600000) = true
    ∧ ¬ MmapGives mgr fl [] (2 ^ 63 + 1)
  := by
  have h : ((pgInit (fun _ => 0) tailSegs).any fun mgr =>
      (kMmapHandler mgr (2 ^ 63 + 1)).any fun out => out.target = some 0x600000) = true := by
    decide +kernel
  obtain ⟨mgr, hinit, hmgr⟩ := (Option.any_eq_true _ _).mp h
  obtain ⟨-, -, fl, -, hinv, -⟩ := pgInit_spec tailSegs_wf hinit
  use mgr, fl, hinit, hinv, hmgr
  intro hgives
  obtain ⟨out, hout, htarget⟩ := (Option.any_eq_true _ _).mp hmgr
  rw [decide_eq_true_eq] at htarget
  have hnull := (hgives.tooLarge (by decide) out hout).1
  rw [htarget] at hnull
  cases hnull

end TrainsOs
