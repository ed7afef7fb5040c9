import Mathlib.Data.Nat.Bitwise
import Mathlib.Tactic.Ring

/-!
# Single bits of aligned numbers

A multiple `a` of `2 ^ k` has a *buddy* at level `k`: the multiple of `2 ^ k` that shares
with `a` its multiple of `2 ^ (k + 1)`.  It is `a ^^^ 2 ^ k`, which is `a + 2 ^ k` when
`a` is a multiple of `2 ^ (k + 1)` and `a - 2 ^ k` otherwise.
-/

namespace Bits

theorem and_one_shiftLeft_eq_zero {a k : ℕ} (h : 2 ^ k ∣ a) :
  a &&& (1 <<< k) = 0 ↔ 2 ^ (k + 1) ∣ a
  := by
  obtain ⟨c, rfl⟩ := h
  have hbit : 2 ^ k * c &&& (1 <<< k) = (c % 2) <<< k := by
    rw [mul_comm, ← Nat.shiftLeft_eq, ← Nat.shiftLeft_and_distrib, Nat.and_one_is_mod]
  have hdvd : 2 ^ (k + 1) ∣ 2 ^ k * c ↔ 2 ∣ c := by
    rw [pow_succ]
    exact Nat.mul_dvd_mul_iff_left (Nat.two_pow_pos k)
  rw [hbit, hdvd, Nat.shiftLeft_eq, Nat.mul_eq_zero]
  have := Nat.two_pow_pos k
  omega

/-- A lower bit of a multiple of `2 ^ k` is clear. -/
theorem and_one_shiftLeft_of_lt {a j k : ℕ} (h : 2 ^ k ∣ a) (hj : j < k) :
  a &&& (1 <<< j) = 0
  := by
  apply (and_one_shiftLeft_eq_zero (dvd_trans (pow_dvd_pow 2 hj.le) h)).mpr
  apply dvd_trans (pow_dvd_pow 2 hj) h

theorem xor_one_eq (c : ℕ) :
  c ^^^ 1 = if c % 2 = 0 then c + 1 else c - 1
  := by
  have hdiv : (c ^^^ 1) / 2 = c / 2 := by rw [Nat.xor_div_two]; simp
  have hmod : (c ^^^ 1) % 2 = 1 ↔ ¬ (c % 2 = 1 ↔ 1 % 2 = 1) := Nat.xor_mod_two_eq_one
  split <;> omega

/-- The buddy of a left half is the right half. -/
theorem xor_one_shiftLeft_of_dvd {a k : ℕ} (h : 2 ^ (k + 1) ∣ a) :
  a ^^^ (1 <<< k) = a + 2 ^ k
  := by
  obtain ⟨c, rfl⟩ := h
  have ha : 2 ^ (k + 1) * c = (2 * c) <<< k := by rw [Nat.shiftLeft_eq]; ring
  rw [ha, ← Nat.shiftLeft_xor_distrib, xor_one_eq, if_pos (by omega), Nat.shiftLeft_eq,
    Nat.shiftLeft_eq]
  ring

/-- The buddy of a right half is the left half. -/
theorem xor_one_shiftLeft_of_not_dvd {a k : ℕ} (h : 2 ^ k ∣ a) (hk : ¬ 2 ^ (k + 1) ∣ a) :
  (a ^^^ (1 <<< k)) + 2 ^ k = a
  := by
  obtain ⟨c, rfl⟩ := h
  have hc : ¬ 2 ∣ c := by
    intro hc
    apply hk
    rw [pow_succ]
    exact Nat.mul_dvd_mul_left _ hc
  have ha : 2 ^ k * c = c <<< k := by rw [Nat.shiftLeft_eq, mul_comm]
  rw [ha, ← Nat.shiftLeft_xor_distrib, xor_one_eq, if_neg (by omega), Nat.shiftLeft_eq,
    Nat.shiftLeft_eq, ← Nat.succ_mul]
  congr 1
  omega

end Bits
