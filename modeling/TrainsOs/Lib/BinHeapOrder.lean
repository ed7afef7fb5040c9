import TrainsOs.Lib.BinHeap
import Mathlib.Order.Basic
import Mathlib.Data.Nat.Basic

/-!
# The order of array heaps

Whenever no entry is smaller than its parent, the first entry is a smallest one. Inserting
and popping keep this. While an entry is moved up or down, the order may fail between the
entry and its parent, or between the entry and its children, but not across the entry.
-/

namespace BinHeap

variable {α : Type*} {lt : α → α → Bool} {h : BinHeap α}

/-- `lt` is the strict part of a total preorder. -/
structure WeakOrder (lt : α → α → Bool) : Prop where
  asymm : ∀ {a b}, lt a b = true → lt b a = false
  trans : ∀ {a b c}, lt b a = false → lt c b = false → lt c a = false

theorem WeakOrder.irrefl (hlt : WeakOrder lt) (a : α) :
  lt a a = false
  := by
  cases haa : lt a a with
  | false => rfl
  | true =>
    rw [hlt.asymm haa] at haa
    cases haa

/-- No entry below `n` is smaller than its parent. -/
def Ordered (lt : α → α → Bool) (h : BinHeap α) (n : ℕ) : Prop :=
  ∀ i < n, 0 < i → lt (h.array i) (h.array (parent i)) = false

theorem parent_of_pos {i : ℕ} (hi : 0 < i) :
  parent i = (i - 1) / 2
  := if_pos hi

theorem parent_lt {i : ℕ} (hi : 0 < i) :
  parent i < i
  := by
  rw [parent_of_pos hi]
  omega

theorem swap_left (h : BinHeap α) (i j : ℕ) :
  (h.swap i j).array i = h.array j
  := by rw [swap_array, Function.comp_apply, Equiv.swap_apply_left]

theorem swap_right (h : BinHeap α) (i j : ℕ) :
  (h.swap i j).array j = h.array i
  := by rw [swap_array, Function.comp_apply, Equiv.swap_apply_right]

theorem swap_of_ne (h : BinHeap α) {i j m : ℕ} (hi : m ≠ i) (hj : m ≠ j) :
  (h.swap i j).array m = h.array m
  := by rw [swap_array, Function.comp_apply, Equiv.swap_apply_of_ne_of_ne hi hj]

/-- The first entry is a smallest one. -/
theorem Ordered.root_le {n : ℕ} (hlt : WeakOrder lt) (ho : Ordered lt h n) {i : ℕ} (hi : i < n) :
  lt (h.array i) (h.array 0) = false
  := by
  induction i using Nat.strongRecOn with
  | _ i ih =>
    obtain rfl | hpos := Nat.eq_zero_or_pos i
    · exact hlt.irrefl _
    · have hparent := parent_lt hpos
      exact hlt.trans (ih (parent i) hparent (hparent.trans hi)) (ho i hi hpos)

/-- The order depends on the comparisons of entries only. -/
theorem Ordered.congr {lt' : α → α → Bool} {h' : BinHeap α} {n : ℕ} (ho : Ordered lt h n)
    (harray : ∀ i < n, h'.array i = h.array i)
    (hlt : ∀ i < n, ∀ j < n, lt' (h.array i) (h.array j) = lt (h.array i) (h.array j)) :
  Ordered lt' h' n
  := by
  intro i hi hpos
  have hparent := (parent_lt hpos).trans hi
  rw [harray i hi, harray _ hparent, hlt i hi _ hparent]
  exact ho i hi hpos

/-! ### Moving up -/

/-- Only the entry at `index` may be smaller than its parent. -/
structure UpOrdered (lt : α → α → Bool) (h : BinHeap α) (n index : ℕ) : Prop where
  other : ∀ i < n, 0 < i → i ≠ index → lt (h.array i) (h.array (parent i)) = false
  skip : ∀ i < n, 0 < i → parent i = index → 0 < index →
    lt (h.array i) (h.array (parent index)) = false

theorem UpOrdered.swap {n index : ℕ} (hlt : WeakOrder lt) (hu : UpOrdered lt h n index)
    (hindex : index < n) (hpos : 0 < index)
    (hless : lt (h.array index) (h.array (parent index)) = true) :
  UpOrdered lt (h.swap index (parent index)) n (parent index)
  := by
  have hp := parent_lt hpos
  constructor
  · intro i hi hi0 hip
    by_cases hii : i = index
    · rw [hii, swap_left, swap_right]
      exact hlt.asymm hless
    · rw [swap_of_ne h hii hip]
      by_cases hpi : parent i = index
      · rw [hpi, swap_left]
        exact hu.skip i hi hi0 hpi hpos
      · by_cases hpp : parent i = parent index
        · rw [hpp, swap_right]
          have hother := hu.other i hi hi0 hii
          rw [hpp] at hother
          exact hlt.trans (hlt.asymm hless) hother
        · rw [swap_of_ne h hpi hpp]
          exact hu.other i hi hi0 hii
  · intro i hi hi0 hip hp0
    have hpp := parent_lt hp0
    have hup := hu.other (parent index) (hp.trans hindex) hp0 hp.ne
    rw [swap_of_ne h (hpp.trans hp).ne hpp.ne]
    by_cases hii : i = index
    · rw [hii, swap_left]
      exact hup
    · have hip' : i ≠ parent index := by
        have hlt' := parent_lt hi0
        omega
      rw [swap_of_ne h hii hip']
      have hother := hu.other i hi hi0 hii
      rw [hip] at hother
      exact hlt.trans hup hother

/-- Moving an entry up puts the heap in order. -/
theorem heapifyBottomTop_ordered {n : ℕ} (hlt : WeakOrder lt) {r index : ℕ} (hr : index < r)
    (hindex : index < n) (hu : UpOrdered lt h n index) :
  Ordered lt (heapifyBottomTop lt r h index) n
  := by
  induction r generalizing h index with
  | zero => cases hr
  | succ r ih =>
    rw [heapifyBottomTop]
    split
    · rename_i hless
      have hpos : 0 < index := by
        apply Nat.pos_of_ne_zero
        rintro rfl
        have hirrefl := hlt.irrefl (h.array 0)
        exact Bool.false_ne_true (hirrefl.symm.trans hless)
      have hp := parent_lt hpos
      exact ih (by omega) (hp.trans hindex) (hu.swap hlt hindex hpos hless)
    · rename_i hless
      rw [Bool.not_eq_true] at hless
      intro i hi hi0
      by_cases hii : i = index
      · rw [hii]
        exact hless
      · exact hu.other i hi hi0 hii

/-! ### Moving down -/

/-- Only the entry at `p` may be greater than its children. -/
structure DownOrdered (lt : α → α → Bool) (h : BinHeap α) (p : ℕ) : Prop where
  other : ∀ i < h.count, 0 < i → parent i ≠ p → lt (h.array i) (h.array (parent i)) = false
  skip : ∀ i < h.count, 0 < i → parent i = p → 0 < p →
    lt (h.array i) (h.array (parent p)) = false

/-- The positions of the children. -/
theorem eq_of_parent_eq {i p : ℕ} (hi : 0 < i) (hp : parent i = p) :
  i = p * 2 + 1 ∨ i = p * 2 + 2
  := by
  rw [parent_of_pos hi] at hp
  omega

/-- The smaller one of two entries, the second of which need not be there. -/
theorem pick_spec (hlt : WeakOrder lt) (h : BinHeap α) (b c : ℕ) :
  lt (h.array b) (h.array (if c < h.count && lt (h.array c) (h.array b) then c else b)) = false
    ∧ (c < h.count →
      lt (h.array c) (h.array (if c < h.count && lt (h.array c) (h.array b) then c else b)) = false)
  := by
  split
  · rename_i hpick
    rw [Bool.and_eq_true] at hpick
    exact ⟨hlt.asymm hpick.2, fun _ => hlt.irrefl _⟩
  · rename_i hpick
    refine ⟨hlt.irrefl _, ?_⟩
    intro hc
    rw [Bool.and_eq_true, decide_eq_true_eq, not_and, Bool.not_eq_true] at hpick
    exact hpick hc

/-- What is chosen among an entry and its children is a smallest one. -/
theorem minChild_le (hlt : WeakOrder lt) (h : BinHeap α) (p : ℕ) :
  lt (h.array p) (h.array (minChild lt h p)) = false
    ∧ ∀ i < h.count, 0 < i → parent i = p → lt (h.array i) (h.array (minChild lt h p)) = false
  := by
  obtain ⟨hleft, hleft'⟩ := pick_spec hlt h p (p * 2 + 1)
  obtain ⟨hright, hright'⟩ := pick_spec hlt h
    (if p * 2 + 1 < h.count && lt (h.array (p * 2 + 1)) (h.array p) then p * 2 + 1 else p)
    (p * 2 + 2)
  refine ⟨hlt.trans hright hleft, ?_⟩
  intro i hi hi0 hip
  obtain rfl | rfl := eq_of_parent_eq hi0 hip
  · exact hlt.trans hright (hleft' hi)
  · exact hright' hi

/-- What is chosen is the entry or one of its children. -/
theorem minChild_cases (lt : α → α → Bool) (h : BinHeap α) (p : ℕ) :
  minChild lt h p = p ∨ (parent (minChild lt h p) = p ∧ 0 < minChild lt h p)
  := by
  have hl : parent (p * 2 + 1) = p := by
    rw [parent_of_pos (by omega)]
    omega
  have hr : parent (p * 2 + 2) = p := by
    rw [parent_of_pos (by omega)]
    omega
  obtain hm | hm : minChild lt h p = p * 2 + 2 ∨ minChild lt h p
      = if p * 2 + 1 < h.count && lt (h.array (p * 2 + 1)) (h.array p) then p * 2 + 1 else p :=
    ite_eq_or_eq _ _ _
  · rw [hm]
    exact Or.inr ⟨hr, by omega⟩
  · rw [hm]
    split
    · exact Or.inr ⟨hl, by omega⟩
    · exact Or.inl rfl

theorem DownOrdered.swap {p : ℕ} (hlt : WeakOrder lt) (hd : DownOrdered lt h p)
    (hne : minChild lt h p ≠ p) :
  DownOrdered lt (h.swap (minChild lt h p) p) (minChild lt h p)
  := by
  obtain ⟨hmin, hchild⟩ := minChild_le hlt h p
  obtain ⟨hmp, hm0⟩ := (minChild_cases lt h p).resolve_left hne
  obtain ⟨hmcount, -⟩ := minChild_lt lt hne
  generalize minChild lt h p = m at *
  have hpm : p < m := hmp ▸ parent_lt hm0
  constructor
  · intro i hi hi0 him
    have hlt' := parent_lt hi0
    by_cases hip : parent i = p
    · rw [hip, swap_right]
      by_cases hi' : i = m
      · rw [hi', swap_left]
        exact hmin
      · rw [swap_of_ne h hi' (by omega)]
        exact hchild i hi hi0 hip
    · have hne' : i ≠ m := by
        rintro rfl
        exact hip hmp
      rw [swap_of_ne h him hip]
      by_cases hi' : i = p
      · rw [hi', swap_right]
        exact hd.skip m hmcount hm0 hmp (hi' ▸ hi0)
      · rw [swap_of_ne h hne' hi']
        exact hd.other i hi hi0 hip
  · intro i hi hi0 him _
    have hlt' := parent_lt hi0
    rw [hmp, swap_right, swap_of_ne h (by omega) (by omega), ← him]
    exact hd.other i hi hi0 (by omega)

/-- Moving an entry down puts the heap in order. -/
theorem heapifyTopBottom_ordered (hlt : WeakOrder lt) {r p : ℕ} (hr : h.count ≤ r + p)
    (hd : DownOrdered lt h p) :
  Ordered lt (heapifyTopBottom lt r h p) h.count
  := by
  induction r generalizing h p with
  | zero =>
    intro i hi hi0
    have hparent := parent_lt hi0
    exact hd.other i hi hi0 (by omega)
  | succ r ih =>
    rw [heapifyTopBottom]
    split
    · rename_i hne
      obtain ⟨hmp, hm0⟩ := (minChild_cases lt h p).resolve_left hne
      have hpm : p < minChild lt h p := by
        have hparent := parent_lt hm0
        rwa [hmp] at hparent
      exact ih (by rw [swap]; dsimp only; omega) (hd.swap hlt hne)
    · rename_i heq
      rw [not_not] at heq
      obtain ⟨-, hchild⟩ := minChild_le hlt h p
      intro i hi hi0
      by_cases hip : parent i = p
      · have hle := hchild i hi hi0 hip
        rw [heq] at hle
        rw [hip]
        exact hle
      · exact hd.other i hi hi0 hip

/-! ### Operations -/

/-- Inserting keeps the order. -/
theorem insert_ordered (hlt : WeakOrder lt) (ho : Ordered lt h h.count) (x : α) :
  Ordered lt (insert lt h x) (insert lt h x).count
  := by
  by_cases hroom : h.count < h.capacity
  · have hu : UpOrdered lt { h with array := Function.update h.array h.count x } (h.count + 1)
        h.count := by
      constructor
      · intro i hi hi0 hne
        have hparent := parent_lt hi0
        dsimp only
        rw [Function.update_of_ne hne, Function.update_of_ne (by omega)]
        exact ho i (by omega) hi0
      · intro i hi hi0 hip
        have hparent := parent_lt hi0
        omega
    have hup :=
      heapifyBottomTop_ordered hlt (Nat.lt_succ_self h.count) (Nat.lt_succ_self h.count) hu
    rw [insert, if_pos hroom]
    exact hup
  · rw [insert_of_full x (Nat.le_of_not_lt hroom)]
    exact ho

/-- Popping keeps the order, and what is popped is a smallest element. -/
theorem pop_ordered (hlt : WeakOrder lt) (ho : Ordered lt h h.count) {h' : BinHeap α} {x : α}
    (hpop : pop lt h = some (x, h')) :
  Ordered lt h' h'.count ∧ ∀ y ∈ h.toList, lt y x = false
  := by
  have hcount : h.count ≠ 0 := by
    intro hzero
    rw [pop_eq_none_iff.mpr hzero] at hpop
    cases hpop
  rw [pop, if_neg hcount, Option.some.injEq, Prod.mk.injEq] at hpop
  obtain ⟨rfl, rfl⟩ := hpop
  constructor
  · have hd : DownOrdered lt
        { h with
          array := Function.update h.array 0 (h.array (h.count - 1))
          count := h.count - 1 } 0 := by
      constructor
      · intro i hi hi0 hne
        dsimp only at hi ⊢
        rw [Function.update_of_ne hi0.ne', Function.update_of_ne hne]
        exact ho i (by omega) hi0
      · intro i hi hi0 hip hp
        cases hp
    rw [(heapifyTopBottom_spec lt _ _ 0).2.1]
    exact heapifyTopBottom_ordered hlt (Nat.le_refl _) hd
  · intro y hy
    obtain ⟨i, hi, rfl⟩ := List.mem_map.mp hy
    exact ho.root_le hlt (List.mem_range.mp hi)

end BinHeap
