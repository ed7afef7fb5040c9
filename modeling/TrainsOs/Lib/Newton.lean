import Mathlib.Algebra.Order.Ring.Unbundled.Basic
import Mathlib.Algebra.Order.Ring.Nat
import Mathlib.Data.Nat.Sqrt
import Mathlib.Logic.Function.Iterate
import Mathlib.Order.Bounds.Basic
import Mathlib.Tactic.Ring

/-!
# Integer square roots by Newton's method

The estimates of the square root of a natural number that Newton's method makes, with
divisions rounded down. From an estimate that is not below the root they descend to the
root, and the first one whose square is not above the number is the root.
-/

namespace Newton

/-- The estimate after `x` of the square root of `a`. -/
def next (a x : ℕ) : ℕ :=
  (x + a / x) / 2

variable {a x n : ℕ}

/-- The estimates do not fall below the root. -/
theorem sqrt_le_next (hx : 0 < x) :
  Nat.sqrt a ≤ next a x
  := by
  have hdiv : Nat.sqrt a + Nat.sqrt a ≤ x + a / x := by
    rcases Nat.le_total (Nat.sqrt a + Nat.sqrt a) x with hle | hle
    · exact hle.trans (Nat.le_add_right _ _)
    · obtain ⟨d, hd⟩ := Nat.exists_eq_add_of_le hle
      rw [hd]
      apply Nat.add_le_add_left
      rw [Nat.le_div_iff_mul_le hx]
      -- the mean of `d` and `x` is the root
      have hmean : 4 * (d * x) ≤ 4 * (Nat.sqrt a * Nat.sqrt a) := by
        calc 4 * (d * x)
          _ = 4 * x * d := by ring
          _ ≤ (x + d) ^ 2 := four_mul_le_sq_add x d
          _ = (Nat.sqrt a + Nat.sqrt a) ^ 2 := by rw [hd]
          _ = 4 * (Nat.sqrt a * Nat.sqrt a) := by ring
      exact (Nat.le_of_mul_le_mul_left hmean (by decide)).trans (Nat.sqrt_le a)
  rw [next, Nat.le_div_iff_mul_le Nat.two_pos, mul_two]
  exact hdiv

/-- The estimates above the root descend. -/
theorem next_lt (h : a < x ^ 2) :
  next a x < x
  := by
  rw [sq] at h
  have hdiv := Nat.div_lt_of_lt_mul h
  rw [next]
  omega

theorem sqrt_le_iterate (hx : Nat.sqrt a ≤ x) (n : ℕ) :
  Nat.sqrt a ≤ (next a)^[n] x
  := by
  rcases Nat.eq_zero_or_pos a with rfl | ha
  · rw [Nat.sqrt_zero]
    apply Nat.zero_le
  · induction n generalizing x with
    | zero => exact hx
    | succ n ih =>
      rw [Function.iterate_succ_apply]
      exact ih (sqrt_le_next ((Nat.sqrt_pos.mpr ha).trans_le hx))

/-- Some estimate is not above the root. -/
theorem exists_sq_le (a x : ℕ) :
  ∃ n, ((next a)^[n] x) ^ 2 ≤ a
  := by
  induction x using Nat.strong_induction_on with
  | h x ih =>
    by_cases hle : x ^ 2 ≤ a
    · exact ⟨0, hle⟩
    · obtain ⟨n, hn⟩ := ih (next a x) (next_lt (not_le.mp hle))
      exact ⟨n + 1, by rwa [Function.iterate_succ_apply]⟩

/-- As long as the estimates are above the root, the last one is the least. -/
theorem iterate_le (h : ∀ j < n, a < ((next a)^[j] x) ^ 2) {j : ℕ} (hj : j ≤ n) :
  (next a)^[n] x ≤ (next a)^[j] x
  := by
  induction n, hj using Nat.le_induction with
  | base => exact le_rfl
  | succ n hj ih =>
    rw [Function.iterate_succ_apply']
    have hlt := next_lt (h n n.lt_succ_self)
    exact hlt.le.trans (ih fun i hi => h i (hi.trans n.lt_succ_self))

/-- An estimate that is neither below nor above the root is the root. -/
theorem isGreatest_of_sq_le (hle : Nat.sqrt a ≤ x) (h : x ^ 2 ≤ a) :
  IsGreatest {r | r * r ≤ a} x
  := by
  constructor
  · rw [sq] at h
    exact h
  · exact fun r hr => (Nat.le_sqrt.mpr hr).trans hle

end Newton
