import Mathlib.Data.List.Basic
import Mathlib.Order.Basic
import Mathlib.Data.Nat.Basic

/-!
# Stable priority queues

A stable priority queue is the list of its elements with their priorities, in the order in
which they were inserted. The next element is the earliest among those with the smallest
priority.
-/

namespace StableQueue

variable {α : Type*} {q : List (α × ℕ)} {e : α × ℕ}

def insert (q : List (α × ℕ)) (x : α) (priority : ℕ) : List (α × ℕ) :=
  q ++ [(x, priority)]

/-- The earliest among the entries with the smallest priority. -/
def first : List (α × ℕ) → Option (α × ℕ)
  | [] => none
  | e :: q =>
      match first q with
      | none => some e
      | some f => if f.2 < e.2 then some f else some e

/-- The queue without the element `x`. -/
def remove [DecidableEq α] (q : List (α × ℕ)) (x : α) : List (α × ℕ) :=
  q.filter fun e => e.1 ≠ x

/-- The first entry is in the queue. -/
theorem mem_of_first (h : first q = some e) :
  e ∈ q
  := by
  induction q generalizing e with
  | nil => cases h
  | cons a q ih =>
    rw [first] at h
    split at h
    · obtain rfl := Option.some.inj h
      exact List.mem_cons_self
    · rename_i f hf
      split at h
      · obtain rfl := Option.some.inj h
        exact List.mem_cons_of_mem _ (ih hf)
      · obtain rfl := Option.some.inj h
        exact List.mem_cons_self

/-- An entry such that those in front of it have a greater priority, and those behind it no
smaller one, is the first one. -/
theorem first_append {as bs : List (α × ℕ)} (has : ∀ f ∈ as, e.2 < f.2)
    (hbs : ∀ f ∈ bs, e.2 ≤ f.2) :
  first (as ++ e :: bs) = some e
  := by
  induction as with
  | nil =>
    rw [List.nil_append, first]
    split
    · rfl
    · rename_i f hf
      exact if_neg (Nat.not_lt.mpr (hbs f (mem_of_first hf)))
  | cons a as ih =>
    rw [List.forall_mem_cons] at has
    rw [List.cons_append, first, ih has.2]
    exact if_pos has.1

end StableQueue
