import Mathlib.Data.List.Basic
import Mathlib.Data.List.Nodup
import Mathlib.Data.List.Range
import Mathlib.Logic.Function.Basic

/-!
# Chains of indices

A chain in an array of indices: every entry on it links to the next one, and the last one
links to itself.
-/

namespace IndexChain

/-- The entries of `l`, in this order, up to the last one, which links to itself. -/
def IsChain (next : ℕ → ℕ) : List ℕ → Prop
  | [] => True
  | i :: l => next i = l.headD i ∧ IsChain next l

variable {next : ℕ → ℕ} {l : List ℕ}

/-- A chain depends on its own entries only. -/
theorem IsChain.congr {next' : ℕ → ℕ} (h : IsChain next l) (heq : ∀ i ∈ l, next' i = next i) :
  IsChain next' l
  := by
  induction l with
  | nil => trivial
  | cons i l ih =>
    constructor
    · rw [heq i List.mem_cons_self]
      exact h.1
    · apply ih h.2
      intro j hj
      exact heq j (List.mem_cons_of_mem i hj)

/-- Writing the link of a new entry puts it in front. -/
theorem IsChain.push (h : IsChain next l) {i : ℕ} (hi : i ∉ l) :
  IsChain (Function.update next i (l.headD i)) (i :: l)
  := by
  constructor
  · apply Function.update_self
  · apply h.congr
    intro j hj
    apply Function.update_of_ne
    rintro rfl
    exact hi hj

/-- The first entry links to itself exactly when it is the only one. -/
theorem IsChain.self_link {i : ℕ} (h : IsChain next (i :: l)) (hnodup : (i :: l).Nodup) :
  next i = i ↔ l = []
  := by
  rw [h.1]
  cases l with
  | nil => simp
  | cons j l =>
    simp only [List.headD_cons, reduceCtorEq, iff_false]
    rintro rfl
    simp at hnodup

/-- Every entry links to the next index. -/
theorem isChain_range' {n m : ℕ} (hstep : ∀ i, n ≤ i → i < n + m → next i = i + 1)
    (hlast : next (n + m) = n + m) :
  IsChain next (List.range' n (m + 1))
  := by
  induction m generalizing n with
  | zero => exact ⟨hlast, trivial⟩
  | succ m ih =>
    constructor
    · exact hstep n (Nat.le_refl n) (by omega)
    · apply ih
      · intro i hi hlt
        exact hstep i (by omega) (by omega)
      · rw [Nat.add_right_comm]
        exact hlast

end IndexChain
