import Mathlib.Data.List.Basic
import Mathlib.Data.Nat.ModEq
import Mathlib.Logic.Function.Basic

/-!
# Bounded ring buffers

The ring buffers of `ring_buffer.h`: `head` is the slot of the youngest element and `size`
the number of elements, so that the oldest one is `size - 1` slots before `head`, going
around. `RB_PUSH_PRE` reserves a slot that the caller fills.

`toList r` is the queue, oldest element first. Pushing appends to it, a full ring being
left alone, peeking finds its first element and popping removes that element.
-/

structure RingBuffer (α : Type*) where
  head : ℕ
  size : ℕ
  capacity : ℕ
  array : ℕ → α

namespace RingBuffer

variable {α : Type*} {r r' : RingBuffer α} {slot : ℕ}

/-- `RB_INIT`, with the array filled with `fill`. -/
def init (fill : α) (capacity : ℕ) : RingBuffer α where
  head := capacity - 1
  size := 0
  capacity := capacity
  array _ := fill

/-- `RB_PUSH_PRE`: the ring with a slot reserved and that slot, or `none` for `NULL`. -/
def pushPre (r : RingBuffer α) : Option (RingBuffer α × ℕ) :=
  if r.capacity ≤ r.size then
    none
  else
    let head := (r.head + 1) % r.capacity
    some ({ r with head := head, size := r.size + 1 }, head)

/-- Filling a slot. -/
def store (r : RingBuffer α) (slot : ℕ) (x : α) : RingBuffer α :=
  { r with array := Function.update r.array slot x }

/-- `RB_PEEK`: the slot of the oldest element, or `none` for `NULL`. -/
def peek (r : RingBuffer α) : Option ℕ :=
  if r.size = 0 then none else some ((r.head + r.capacity + 1 - r.size) % r.capacity)

/-- `RB_POP`. -/
def pop (r : RingBuffer α) : RingBuffer α :=
  { r with size := r.size - 1 }

/-- What every ring obtained by the operations satisfies. -/
structure Wf (r : RingBuffer α) : Prop where
  head_lt : r.head < r.capacity
  size_le : r.size ≤ r.capacity

/-- The slot of the element pushed `i` elements after the oldest one. -/
def slotOf (r : RingBuffer α) (i : ℕ) : ℕ :=
  (r.head + r.capacity + 1 - r.size + i) % r.capacity

/-- The elements, oldest first. -/
def toList (r : RingBuffer α) : List α :=
  (List.range r.size).map fun i => r.array (r.slotOf i)

theorem init_wf {fill : α} {capacity : ℕ} (h : 0 < capacity) :
  (init fill capacity).Wf
  := by
  constructor
  · exact Nat.sub_lt h Nat.one_pos
  · exact Nat.zero_le capacity

@[simp]
theorem toList_init (fill : α) (capacity : ℕ) :
  (init fill capacity).toList = []
  := rfl

@[simp]
theorem length_toList (r : RingBuffer α) :
  r.toList.length = r.size
  := by simp [toList]

/-- Less than a whole turn apart, two positions have different slots. -/
theorem mod_ne_of_lt {a b n : ℕ} (hab : a < b) (hb : b < a + n) :
  a % n ≠ b % n
  := by
  intro h
  have hdvd : n ∣ b - a := (Nat.modEq_iff_dvd' hab.le).mp h
  have := Nat.le_of_dvd (by omega) hdvd
  omega

/-- The slot at which the next element is stored. -/
theorem slotOf_size (h : r.size ≤ r.capacity) :
  r.slotOf r.size = (r.head + 1) % r.capacity
  := by
  have : r.head + r.capacity + 1 - r.size + r.size = r.head + 1 + r.capacity := by omega
  rw [slotOf, this, Nat.add_mod_right]

theorem slotOf_ne (h : r.size < r.capacity) {i : ℕ} (hi : i < r.size) :
  r.slotOf i ≠ r.slotOf r.size
  := by
  apply mod_ne_of_lt <;> omega

theorem pushPre_eq_none_iff :
  r.pushPre = none ↔ r.capacity ≤ r.size
  := by simp [pushPre]

/-- Advancing the head and the size leaves the elements in their slots. -/
theorem slotOf_advance (hr : r.Wf) (array : ℕ → α) (i : ℕ) :
  slotOf ⟨(r.head + 1) % r.capacity, r.size + 1, r.capacity, array⟩ i = r.slotOf i
  := by
  have hle := hr.size_le
  obtain hlt | heq := Nat.lt_or_eq_of_le (show r.head + 1 ≤ r.capacity from hr.head_lt)
  · rw [slotOf, slotOf, Nat.mod_eq_of_lt hlt]
    congr 1
    dsimp only
    omega
  · have hturn : r.head + r.capacity + 1 - r.size + i
        = (0 + r.capacity + 1 - (r.size + 1) + i) + r.capacity := by omega
    rw [slotOf, slotOf, heq, Nat.mod_self, hturn, Nat.add_mod_right]

/-- Pushing into a ring with room appends to the queue. -/
theorem push_spec (hr : r.Wf) (h : r.size < r.capacity) (x : α) :
  ∃ r' slot, r.pushPre = some (r', slot) ∧ (r'.store slot x).Wf
    ∧ (r'.store slot x).capacity = r.capacity
    ∧ (r'.store slot x).toList = r.toList ++ [x]
  := by
  use { r with head := (r.head + 1) % r.capacity, size := r.size + 1 }, (r.head + 1) % r.capacity
  constructor
  · rw [pushPre, if_neg (not_le.mpr h)]
  constructor
  · constructor
    · exact Nat.mod_lt _ (Nat.zero_lt_of_lt h)
    · exact h
  constructor
  · rfl
  rw [toList, toList, store]
  dsimp only
  rw [List.range_succ, List.map_append]
  congr 1
  · apply List.map_congr_left
    intro i hi
    rw [slotOf_advance hr, Function.update_of_ne]
    rw [← slotOf_size h.le]
    apply slotOf_ne h (List.mem_range.mp hi)
  · rw [List.map_singleton, slotOf_advance hr, slotOf_size h.le, Function.update_self]

theorem peek_eq_none_iff :
  r.peek = none ↔ r.size = 0
  := by simp [peek]

/-- A slot that is peeked holds the first element of the queue, and popping removes it. -/
theorem pop_spec (hr : r.Wf) (h : r.peek = some slot) :
  r.pop.Wf ∧ r.pop.capacity = r.capacity ∧ r.toList = r.array slot :: r.pop.toList
  := by
  have hle := hr.size_le
  have hsize : r.size ≠ 0 := by
    intro hzero
    rw [peek_eq_none_iff.mpr hzero] at h
    cases h
  obtain ⟨n, hn⟩ := Nat.exists_eq_succ_of_ne_zero hsize
  constructor
  · constructor
    · exact hr.head_lt
    · exact (Nat.sub_le _ _).trans hle
  constructor
  · rfl
  have hslot : slot = r.slotOf 0 := by
    rw [peek, if_neg hsize, Option.some.injEq] at h
    exact h.symm
  rw [toList, toList, pop, hn, Nat.succ_sub_one, List.range_succ_eq_map, List.map_cons, ← hslot,
    List.map_map]
  congr 1
  apply List.map_congr_left
  intro i _
  have hidx : r.head + r.capacity + 1 - r.size + (i + 1) = r.head + r.capacity + 1 - n + i := by
    omega
  rw [Function.comp_apply, slotOf, slotOf, hidx]

end RingBuffer
