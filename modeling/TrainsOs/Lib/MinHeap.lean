import Mathlib.Data.Multiset.Filter
import Mathlib.Data.List.Sort

/-!
# Bounded min-heaps

A bounded min-heap, given by its operations and what they do to the multiset of its items:
`push` fails at most when the heap is full, and `peek` and `pop` return a least item. A
sorted list is one.
-/

structure MinHeap (α : Type) [LinearOrder α] (capacity : ℕ) where
  Heap : Type
  items : Heap → Multiset α
  new : Heap
  push : Heap → α → Option Heap
  peek : Heap → Option α
  pop : Heap → Option (α × Heap)
  items_new : items new = 0
  card_le : ∀ h, (items h).card ≤ capacity
  push_spec : ∀ h a, (items h).card < capacity →
    ∃ h', push h a = some h' ∧ items h' = a ::ₘ items h
  peek_none : ∀ h, peek h = none → items h = 0
  peek_le : ∀ h a, peek h = some a → ∀ b ∈ items h, a ≤ b
  pop_spec : ∀ h a, peek h = some a → ∃ h', pop h = some (a, h') ∧ items h = a ::ₘ items h'

namespace MinHeap

variable {α : Type} [LinearOrder α] {capacity : ℕ}

/-- When the least item does not satisfy a condition that is true of all smaller ones, no
item does. -/
theorem filter_of_peek (H : MinHeap α capacity) {p : α → Prop} [DecidablePred p]
    (hdown : ∀ a b, a ≤ b → p b → p a) {h : H.Heap} (hpeek : ∀ a ∈ H.peek h, ¬ p a) :
  (H.items h).filter p = 0
  := by
  rw [Multiset.filter_eq_nil]
  intro b hb
  cases hp : H.peek h with
  | none =>
    rw [H.peek_none h hp] at hb
    cases hb
  | some a => exact fun hpb => hpeek a hp (hdown a b (H.peek_le h a hp b hb) hpb)

/-- The sorted lists of at most `capacity` items. -/
def sortedList (α : Type) [LinearOrder α] (capacity : ℕ) : MinHeap α capacity where
  Heap := { l : List α // l.length ≤ capacity ∧ l.Pairwise (· ≤ ·) }
  items l := l.val
  new := ⟨[], Nat.zero_le _, List.Pairwise.nil⟩
  push l a :=
    if h : l.val.length < capacity then
      some ⟨l.val.orderedInsert (· ≤ ·) a,
        by rw [List.orderedInsert_length]; exact h, l.property.2.orderedInsert a l.val⟩
    else
      none
  peek l := l.val.head?
  pop
    | ⟨[], _⟩ => none
    | ⟨a :: l, h⟩ => some (a, ⟨l, Nat.le_of_succ_le h.1, (List.pairwise_cons.mp h.2).2⟩)
  items_new := rfl
  card_le l := l.property.1
  push_spec := by
    intro l a h
    rw [dif_pos (show l.val.length < capacity from h)]
    refine ⟨_, rfl, ?_⟩
    exact Multiset.coe_eq_coe.mpr (List.perm_orderedInsert _ a l.val)
  peek_none := by
    intro l h
    rw [List.head?_eq_none_iff.mp h]
    rfl
  peek_le := by
    rintro ⟨l, hlen, hsorted⟩ a h b hb
    obtain ⟨l, rfl⟩ := List.head?_eq_some_iff.mp h
    rcases List.mem_cons.mp hb with rfl | hb
    · exact le_rfl
    · exact (List.pairwise_cons.mp hsorted).1 b hb
  pop_spec := by
    rintro ⟨l, hlen, hsorted⟩ a h
    obtain ⟨l, rfl⟩ := List.head?_eq_some_iff.mp h
    exact ⟨_, rfl, rfl⟩

end MinHeap
