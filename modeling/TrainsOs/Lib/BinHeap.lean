import Mathlib.Data.List.Basic
import Mathlib.Data.List.Nodup
import Mathlib.Data.List.Perm.Basic
import Mathlib.Logic.Equiv.Basic

/-!
# Array heaps

The binary heaps of `heap.h`: the elements are the first `count` entries of an array, and
the children of the entry `i` are the entries `2 i + 1` and `2 i + 2`. Inserting puts the
element at the end and swaps it with its parents while it is smaller; popping takes the
first entry out, puts the last one in its place and swaps it with its smaller child while
that is smaller. An element that is inserted into a full heap is dropped.

The order `lt` is a parameter of each operation. Whatever it is, the operations swap
entries only, so that inserting adds one occurrence of the element and popping removes
one occurrence of what it returns.
-/

structure BinHeap (α : Type*) where
  array : ℕ → α
  count : ℕ
  capacity : ℕ

namespace BinHeap

variable {α : Type*} (lt : α → α → Bool)

/-- `HEAP_INIT`, over an array filled with `fill`. -/
def init (fill : α) (capacity : ℕ) : BinHeap α where
  array _ := fill
  count := 0
  capacity := capacity

def swap (h : BinHeap α) (i j : ℕ) : BinHeap α :=
  { h with array := Function.update (Function.update h.array j (h.array i)) i (h.array j) }

/-- The parent of a position; the root is its own parent. -/
def parent (index : ℕ) : ℕ :=
  if 1 ≤ index then (index - 1) / 2 else 0

/-- `heapify_bottom_top`. The first argument bounds the number of rounds. -/
def heapifyBottomTop : ℕ → BinHeap α → ℕ → BinHeap α
  | 0, h, _ => h
  | n + 1, h, index =>
      if lt (h.array index) (h.array (parent index)) then
        heapifyBottomTop n (h.swap index (parent index)) (parent index)
      else
        h

/-- The position of the smallest among an entry and its children. -/
def minChild (h : BinHeap α) (p : ℕ) : ℕ :=
  let left := p * 2 + 1
  let right := p * 2 + 2
  let min := if left < h.count && lt (h.array left) (h.array p) then left else p
  if right < h.count && lt (h.array right) (h.array min) then right else min

/-- `heapify_top_bottom`. The first argument bounds the number of rounds. -/
def heapifyTopBottom : ℕ → BinHeap α → ℕ → BinHeap α
  | 0, h, _ => h
  | n + 1, h, p =>
      let min := minChild lt h p
      if min ≠ p then
        heapifyTopBottom n (h.swap min p) min
      else
        h

def setCount (h : BinHeap α) (n : ℕ) : BinHeap α :=
  { h with count := n }

/-- `HEAP_INSERT`, but for the key of the element. -/
def insert (h : BinHeap α) (x : α) : BinHeap α :=
  if h.count < h.capacity then
    let h := { h with array := Function.update h.array h.count x }
    (heapifyBottomTop lt (h.count + 1) h h.count).setCount (h.count + 1)
  else
    h

/-- `HEAP_POP`: the element and the heap afterwards, `none` when the heap is empty. -/
def pop (h : BinHeap α) : Option (α × BinHeap α) :=
  if h.count = 0 then
    none
  else
    let h' : BinHeap α :=
      { h with
        array := Function.update h.array 0 (h.array (h.count - 1))
        count := h.count - 1 }
    some (h.array 0, heapifyTopBottom lt h'.count h' 0)

/-! ### The elements of a heap -/

/-- The first `n` entries of the array. -/
def front (h : BinHeap α) (n : ℕ) : List α :=
  (List.range n).map h.array

/-- The elements of the heap. -/
def toList (h : BinHeap α) : List α :=
  h.front h.count

@[simp]
theorem toList_init (fill : α) (capacity : ℕ) :
  (init fill capacity).toList = []
  := rfl

@[simp]
theorem length_toList (h : BinHeap α) :
  h.toList.length = h.count
  := by simp [toList, front]

/-- Swapping two positions permutes the positions below any bound above both. -/
theorem swap_range_perm {i j n : ℕ} (hi : i < n) (hj : j < n) :
  ((List.range n).map (Equiv.swap i j)).Perm (List.range n)
  := by
  apply (List.perm_ext_iff_of_nodup _ List.nodup_range).mpr
  · intro k
    rw [List.mem_map]
    constructor
    · rintro ⟨m, hm, rfl⟩
      rw [List.mem_range] at *
      rw [Equiv.swap_apply_def]
      split_ifs <;> assumption
    · intro hk
      use Equiv.swap i j k
      constructor
      · rw [List.mem_range] at *
        rw [Equiv.swap_apply_def]
        split_ifs <;> assumption
      · apply Equiv.swap_apply_self
  · exact List.nodup_range.map (Equiv.injective _)

theorem swap_array (h : BinHeap α) (i j : ℕ) :
  (h.swap i j).array = h.array ∘ Equiv.swap i j
  := by
  funext k
  rw [swap, Function.comp_apply, Equiv.swap_apply_def]
  dsimp only
  by_cases hi : k = i
  · rw [if_pos hi, hi, Function.update_self]
  · rw [if_neg hi, Function.update_of_ne hi]
    by_cases hj : k = j
    · rw [if_pos hj, hj, Function.update_self]
    · rw [if_neg hj, Function.update_of_ne hj]

theorem swap_perm (h : BinHeap α) {i j n : ℕ} (hi : i < n) (hj : j < n) :
  ((h.swap i j).front n).Perm (h.front n)
  := by
  rw [front, swap_array, ← List.map_map]
  exact (swap_range_perm hi hj).map _

theorem parent_le (index : ℕ) :
  parent index ≤ index
  := by
  rw [parent]
  split <;> omega

/-- Moving an entry up permutes the entries. -/
theorem heapifyBottomTop_spec (r : ℕ) (h : BinHeap α) {index n : ℕ} (hindex : index < n) :
  ((heapifyBottomTop lt r h index).front n).Perm (h.front n)
    ∧ (heapifyBottomTop lt r h index).count = h.count
    ∧ (heapifyBottomTop lt r h index).capacity = h.capacity
  := by
  induction r generalizing h index with
  | zero => exact ⟨List.Perm.refl _, rfl, rfl⟩
  | succ r ih =>
    rw [heapifyBottomTop]
    split
    · have hparent := Nat.lt_of_le_of_lt (parent_le index) hindex
      obtain ⟨hperm, hcount, hcap⟩ := ih (h.swap index (parent index)) hparent
      exact ⟨hperm.trans (h.swap_perm hindex hparent), hcount, hcap⟩
    · exact ⟨List.Perm.refl _, rfl, rfl⟩

/-- A child that is chosen is in the heap, and so is its parent. -/
theorem minChild_lt {h : BinHeap α} {p : ℕ} (hne : minChild lt h p ≠ p) :
  minChild lt h p < h.count ∧ p < h.count
  := by
  by_cases hright : (decide (p * 2 + 2 < h.count) && lt (h.array (p * 2 + 2))
      (h.array (if decide (p * 2 + 1 < h.count) && lt (h.array (p * 2 + 1)) (h.array p) then
        p * 2 + 1 else p))) = true
  · rw [minChild, if_pos hright]
    rw [Bool.and_eq_true, decide_eq_true_eq] at hright
    omega
  · rw [minChild, if_neg hright] at *
    by_cases hleft : (decide (p * 2 + 1 < h.count) && lt (h.array (p * 2 + 1)) (h.array p)) = true
    · rw [if_pos hleft]
      rw [Bool.and_eq_true, decide_eq_true_eq] at hleft
      omega
    · rw [if_neg hleft] at hne
      exact absurd rfl hne

/-- Moving an entry down permutes the elements. -/
theorem heapifyTopBottom_spec (r : ℕ) (h : BinHeap α) (p : ℕ) :
  ((heapifyTopBottom lt r h p).toList).Perm h.toList
    ∧ (heapifyTopBottom lt r h p).count = h.count
    ∧ (heapifyTopBottom lt r h p).capacity = h.capacity
  := by
  induction r generalizing h p with
  | zero => exact ⟨List.Perm.refl _, rfl, rfl⟩
  | succ r ih =>
    rw [heapifyTopBottom]
    split
    · rename_i hne
      obtain ⟨hmin, hp⟩ := minChild_lt lt hne
      obtain ⟨hperm, hcount, hcap⟩ := ih (h.swap (minChild lt h p) p) (minChild lt h p)
      exact ⟨hperm.trans (h.swap_perm hmin hp), hcount, hcap⟩
    · exact ⟨List.Perm.refl _, rfl, rfl⟩

variable {lt}

/-- A full heap drops the element. -/
theorem insert_of_full {h : BinHeap α} (x : α) (hfull : h.capacity ≤ h.count) :
  insert lt h x = h
  := by rw [insert, if_neg (Nat.not_lt.mpr hfull)]

/-- With room, inserting adds one occurrence of the element. -/
theorem insert_spec {h : BinHeap α} (x : α) (hroom : h.count < h.capacity) :
  (insert lt h x).toList.Perm (x :: h.toList) ∧ (insert lt h x).count = h.count + 1
    ∧ (insert lt h x).capacity = h.capacity
  := by
  obtain ⟨hperm, hcount, hcap⟩ := heapifyBottomTop_spec lt (h.count + 1)
    { h with array := Function.update h.array h.count x } (Nat.lt_succ_self h.count)
  rw [insert, if_pos hroom]
  refine ⟨?_, rfl, hcap⟩
  have hfront : front { h with array := Function.update h.array h.count x } (h.count + 1) =
      h.toList ++ [x] := by
    rw [front, List.range_succ, List.map_append, List.map_singleton]
    dsimp only
    rw [Function.update_self]
    congr 1
    apply List.map_congr_left
    intro i hi
    exact Function.update_of_ne (Nat.ne_of_lt (List.mem_range.mp hi)) _ _
  rw [Nat.succ_eq_add_one, hfront] at hperm
  exact hperm.trans List.perm_append_comm

theorem pop_eq_none_iff {h : BinHeap α} :
  pop lt h = none ↔ h.count = 0
  := by simp [pop]

/-- Popping removes one occurrence of the element returned. -/
theorem pop_spec {h h' : BinHeap α} {x : α} (hpop : pop lt h = some (x, h')) :
  h.toList.Perm (x :: h'.toList) ∧ h.count = h'.count + 1 ∧ h'.capacity = h.capacity
  := by
  have hcount : h.count ≠ 0 := by
    intro hzero
    rw [pop_eq_none_iff.mpr hzero] at hpop
    cases hpop
  rw [pop, if_neg hcount, Option.some.injEq, Prod.mk.injEq] at hpop
  obtain ⟨rfl, rfl⟩ := hpop
  obtain ⟨n, hn⟩ := Nat.exists_eq_succ_of_ne_zero hcount
  have hspec := heapifyTopBottom_spec lt (h.count - 1)
    { h with
      array := Function.update h.array 0 (h.array (h.count - 1))
      count := h.count - 1 } 0
  refine ⟨?_, ?_, hspec.2.2⟩
  · refine List.Perm.trans ?_ (hspec.1.symm.cons _)
    rw [toList, toList, hn, Nat.succ_sub_one]
    cases n with
    | zero => rfl
    | succ n =>
      -- the root is replaced by the last entry, which leaves the list
      rw [front, front, List.range_succ, List.map_append, List.range_succ_eq_map,
        List.map_singleton]
      dsimp only
      rw [List.map_cons, List.map_cons, List.map_map, List.map_map, Function.update_self,
        List.cons_append]
      apply List.Perm.cons
      have hrest : (List.range n).map (Function.update h.array 0 (h.array (n + 1)) ∘ Nat.succ) =
          (List.range n).map (h.array ∘ Nat.succ) := by
        apply List.map_congr_left
        intro i _
        exact Function.update_of_ne (Nat.succ_ne_zero i) _ _
      rw [hrest]
      exact List.perm_append_comm
  · rw [hspec.2.1, hn]
    rfl

end BinHeap
