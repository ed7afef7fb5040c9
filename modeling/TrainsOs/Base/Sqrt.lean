import TrainsOs.Lib.Newton

/-!
# Square roots

`math_sqrt` of `math.h`. The loop compares the square of its estimate with `a` in words of
64 bits, so that the square of an estimate from `2 ^ 32` on is compared without its upper
bits, and the loop may end above the root.

`Correct` says that the call ends with the root, and `SquaresStayAbove` that this does not
happen to Newton's estimates.
-/

namespace Sqrt

/-- How a call ends. -/
inductive Outcome
  | returned (x : UInt64)
  | dividedByZero

/-- The loop of `math_sqrt`, with a bound on the number of rounds. -/
def mathSqrtLoop (a : UInt64) : ℕ → UInt64 → Option Outcome
  | 0, _ => none
  | fuel + 1, x =>
    if x * x > a then
      if x = 0 then
        some .dividedByZero
      else
        mathSqrtLoop a fuel ((x + a / x) / 2)
    else
      some (.returned x)

/-- `math_sqrt`, as far as it comes in `fuel` rounds. -/
def mathSqrt (a : UInt64) (fuel : ℕ) : Option Outcome :=
  mathSqrtLoop a fuel a

/-- The call ends with the largest number whose square is not greater than `a`, and it does
not divide by zero. -/
def Correct (a : UInt64) : Prop :=
  (∀ fuel, mathSqrt a fuel ≠ some .dividedByZero)
    ∧ ∃ fuel r, mathSqrt a fuel = some (.returned r)
      ∧ IsGreatest {n : ℕ | n * n ≤ a.toNat} r.toNat

/-- The estimates of the root of `a` that begin with `a` itself. -/
def estimate (a n : ℕ) : ℕ :=
  (Newton.next a)^[n] a

/-- As long as the estimates do not fit into 32 bits, the low 64 bits of their squares make a
number greater than `a`. -/
def SquaresStayAbove (a : ℕ) : Prop :=
  ∀ n, (∀ j ≤ n, 2 ^ 32 ≤ estimate a j) → a < estimate a n ^ 2 % 2 ^ 64

variable {a x : UInt64} {fuel fuel' n : ℕ} {o o' : Outcome}

/-! ### One round -/

theorem toNat_sq (x : UInt64) :
  (x * x).toNat = x.toNat ^ 2 % 2 ^ 64
  := by
  rw [UInt64.toNat_mul, sq]

theorem add_le_mul_add_one {m n : ℕ} (hm : 0 < m) (hn : 0 < n) :
  m + n ≤ m * n + 1
  := by
  obtain ⟨m, rfl⟩ := Nat.exists_eq_succ_of_ne_zero hm.ne'
  have hmul := Nat.mul_le_mul_left m hn
  rw [Nat.succ_eq_add_one, Nat.add_mul]
  omega

theorem ne_zero_of_lt (h : a < x * x) :
  x ≠ 0
  := by
  rintro rfl
  rw [UInt64.zero_mul] at h
  exact UInt64.not_lt_zero h

/-- The loop does not divide by zero. -/
theorem mathSqrtLoop_succ (a : UInt64) (fuel : ℕ) (x : UInt64) :
  mathSqrtLoop a (fuel + 1) x
    = if a < x * x then mathSqrtLoop a fuel ((x + a / x) / 2) else some (.returned x)
  := by
  rw [mathSqrtLoop]
  by_cases hlt : a < x * x
  · rw [if_pos hlt, if_pos hlt, if_neg (ne_zero_of_lt hlt)]
  · rw [if_neg hlt, if_neg hlt]

theorem mathSqrtLoop_ne (a : UInt64) (fuel : ℕ) (x : UInt64) :
  mathSqrtLoop a fuel x ≠ some .dividedByZero
  := by
  induction fuel generalizing x with
  | zero => rintro ⟨⟩
  | succ fuel ih =>
    rw [mathSqrtLoop_succ]
    split
    · apply ih
    · rintro ⟨⟩

theorem mathSqrtLoop_mono (h : mathSqrtLoop a fuel x = some o) (hle : fuel ≤ fuel') :
  mathSqrtLoop a fuel' x = some o
  := by
  induction fuel generalizing fuel' x with
  | zero => cases h
  | succ fuel ih =>
    obtain ⟨fuel', rfl⟩ := Nat.exists_eq_succ_of_ne_zero (show fuel' ≠ 0 by omega)
    rw [mathSqrtLoop_succ] at h
    rw [Nat.succ_eq_add_one, mathSqrtLoop_succ]
    split
    · next hlt =>
      rw [if_pos hlt] at h
      exact ih h (Nat.le_of_succ_le_succ hle)
    · next hlt => rwa [if_neg hlt] at h

/-- A call ends in one way only. -/
theorem mathSqrt_unique (h : mathSqrt a fuel = some o) (h' : mathSqrt a fuel' = some o') :
  o = o'
  := by
  have hmax := mathSqrtLoop_mono h (Nat.le_max_left fuel fuel')
  have hmax' := mathSqrtLoop_mono h' (Nat.le_max_right fuel fuel')
  exact Option.some.inj (hmax.symm.trans hmax')

/-- The sum of a round fits into a word, so that the round computes the next estimate. -/
theorem toNat_next (hlt : a < x * x) (hle : x ≤ a) :
  ((x + a / x) / 2).toNat = Newton.next a.toNat x.toNat
  := by
  have hmod := UInt64.lt_iff_toNat_lt.mp hlt
  have hpos : 0 < x.toNat := by
    rw [Nat.pos_iff_ne_zero, ne_eq, ← UInt64.toNat_zero, UInt64.toNat_inj]
    exact ne_zero_of_lt hlt
  have hdiv : 0 < a.toNat / x.toNat := Nat.div_pos (UInt64.le_iff_toNat_le.mp hle) hpos
  have hsum : x.toNat + a.toNat / x.toNat < 2 ^ 64 := by
    calc x.toNat + a.toNat / x.toNat
      _ ≤ x.toNat * (a.toNat / x.toNat) + 1 := add_le_mul_add_one hpos hdiv
      _ ≤ a.toNat + 1 := Nat.add_le_add_right (Nat.mul_div_le _ _) 1
      _ ≤ (x * x).toNat := hmod
      _ < 2 ^ 64 := (x * x).toNat_lt
  rw [UInt64.toNat_div, UInt64.toNat_add, UInt64.toNat_div, Nat.mod_eq_of_lt hsum]
  rfl

/-! ### The loop -/

/-- The loop ends with the first estimate the low bits of whose square do not make a number
greater than `a`. -/
theorem mathSqrtLoop_eq (hle : x ≤ a)
    (h : ∀ j < n, a.toNat < ((Newton.next a.toNat)^[j] x.toNat) ^ 2 % 2 ^ 64)
    (hstop : ((Newton.next a.toNat)^[n] x.toNat) ^ 2 % 2 ^ 64 ≤ a.toNat) :
  ∃ r, mathSqrtLoop a (n + 1) x = some (.returned r)
    ∧ r.toNat = (Newton.next a.toNat)^[n] x.toNat
  := by
  induction n generalizing x with
  | zero =>
    refine ⟨x, ?_, rfl⟩
    rw [mathSqrtLoop_succ, if_neg]
    rw [UInt64.lt_iff_toNat_lt, toNat_sq]
    exact not_lt.mpr hstop
  | succ n ih =>
    have hlt : a < x * x := by
      rw [UInt64.lt_iff_toNat_lt, toNat_sq]
      exact h 0 n.succ_pos
    have hnext := toNat_next hlt hle
    have hsq : a.toNat < x.toNat ^ 2 := (h 0 n.succ_pos).trans_le (Nat.mod_le _ _)
    rw [mathSqrtLoop_succ, if_pos hlt, Function.iterate_succ_apply, ← hnext]
    apply ih
    · rw [UInt64.le_iff_toNat_le, hnext]
      exact (Newton.next_lt hsq).le.trans (UInt64.le_iff_toNat_le.mp hle)
    · intro j hj
      have hj := h (j + 1) (Nat.succ_lt_succ hj)
      rwa [Function.iterate_succ_apply, ← hnext] at hj
    · rwa [Function.iterate_succ_apply, ← hnext] at hstop

/-- Every call returns an estimate, the first one that its comparison does not find above the
root. -/
theorem mathSqrt_returns (a : UInt64) :
  ∃ n r, mathSqrt a (n + 1) = some (.returned r) ∧ r.toNat = estimate a.toNat n
    ∧ (∀ j < n, a.toNat < estimate a.toNat j ^ 2 % 2 ^ 64)
    ∧ estimate a.toNat n ^ 2 % 2 ^ 64 ≤ a.toNat
  := by
  have hex : ∃ n, estimate a.toNat n ^ 2 % 2 ^ 64 ≤ a.toNat := by
    obtain ⟨n, hn⟩ := Newton.exists_sq_le a.toNat a.toNat
    exact ⟨n, (Nat.mod_le _ _).trans hn⟩
  have hfirst : ∀ j < Nat.find hex, a.toNat < estimate a.toNat j ^ 2 % 2 ^ 64 :=
    fun j hj => not_le.mp (Nat.find_min hex hj)
  obtain ⟨r, hr, heq⟩ := mathSqrtLoop_eq (UInt64.le_refl a) hfirst (Nat.find_spec hex)
  exact ⟨Nat.find hex, r, hr, heq, hfirst, Nat.find_spec hex⟩

/-! ### The root -/

theorem correct_of_squaresStayAbove (h : SquaresStayAbove a.toNat) :
  Correct a
  := by
  obtain ⟨n, r, hr, heq, hfirst, hstop⟩ := mathSqrt_returns a
  refine ⟨fun fuel => mathSqrtLoop_ne a fuel a, n + 1, r, hr, ?_⟩
  have hsq : ∀ j < n, a.toNat < estimate a.toNat j ^ 2 :=
    fun j hj => (hfirst j hj).trans_le (Nat.mod_le _ _)
  -- the last estimate fits into 32 bits, or else all of them do not
  have hlt : estimate a.toNat n < 2 ^ 32 := by
    by_contra hle
    apply (h n _).not_ge hstop
    exact fun j hj => (not_lt.mp hle).trans (Newton.iterate_le hsq hj)
  have hmod : estimate a.toNat n ^ 2 % 2 ^ 64 = estimate a.toNat n ^ 2 :=
    Nat.mod_eq_of_lt (Nat.pow_lt_pow_left hlt (by decide))
  rw [heq]
  apply Newton.isGreatest_of_sq_le
  · exact Newton.sqrt_le_iterate (Nat.sqrt_le_self _) n
  · rwa [hmod] at hstop

theorem squaresStayAbove_of_correct (h : Correct a) :
  SquaresStayAbove a.toNat
  := by
  obtain ⟨-, fuel, r, hr, hgreatest⟩ := h
  obtain ⟨m, r', hr', heq, hfirst, -⟩ := mathSqrt_returns a
  obtain rfl := Outcome.returned.inj (mathSqrt_unique hr hr')
  intro n hbig
  by_contra hle
  have hmn : m ≤ n := by
    by_contra hlt
    exact hle (hfirst n (not_le.mp hlt))
  -- the result does not fit into 32 bits
  have hroot : estimate a.toNat m * estimate a.toNat m ≤ a.toNat := heq ▸ hgreatest.1
  have hsq := Nat.mul_le_mul (hbig m hmn) (hbig m hmn)
  have hlt := a.toNat_lt
  omega

/-- The root of a number of 32 bits is returned. -/
theorem correct_of_lt (h : a.toNat < 2 ^ 32) :
  Correct a
  := by
  apply correct_of_squaresStayAbove
  intro n hbig
  exact absurd (hbig 0 n.zero_le) (not_le.mpr h)

/-- A call returns the root exactly as long as the low bits of the squares do not hide that an
estimate is above it. -/
theorem correct_iff_squaresStayAbove (a : UInt64) :
  Correct a ↔ SquaresStayAbove a.toNat
  := ⟨squaresStayAbove_of_correct, correct_of_squaresStayAbove⟩

/-- The square of `2 ^ 32` has no low bits, and the call returns `2 ^ 32` itself. -/
theorem not_correct_two_pow_32 :
  ¬ Correct 0x100000000
  := by
  rintro ⟨-, fuel, r, hr, hgreatest⟩
  have hone : mathSqrt 0x100000000 1 = some (.returned 0x100000000) := rfl
  obtain rfl := Outcome.returned.inj (mathSqrt_unique hr hone)
  have hle := hgreatest.1
  revert hle
  decide

end Sqrt
