import TrainsOs.PgMgr.Basic
import Mathlib.Data.List.Count
import Mathlib.Data.List.Perm.Basic
import Mathlib.Tactic.Ring

/-!
# Blocks of pages

A block is a descriptor together with a level `l`: the `2 ^ l` pages from the descriptor
on. `cover bs e` counts the blocks of `bs` that contain the page `e`. Splitting a block
and merging two buddies keep the count of every page, which is what makes the operations
of the page manager conserve the ownership of pages.
-/

namespace TrainsOs

/-- A descriptor and a level. -/
abbrev Block : Type := DspPtr × ℕ

/-- The page `e` belongs to the block `b`. -/
def covers (e : DspPtr) (b : Block) : Bool :=
  b.1.root == e.root && (b.1.idx ≤ e.idx && e.idx < b.1.idx + 2 ^ b.2)

theorem covers_iff (e : DspPtr) (b : Block) :
  covers e b = true ↔ b.1.root = e.root ∧ b.1.idx ≤ e.idx ∧ e.idx < b.1.idx + 2 ^ b.2
  := by
  simp [covers]

theorem covers_self (b : Block) :
  covers b.1 b = true
  := by
  have := Nat.two_pow_pos b.2
  rw [covers_iff]
  omega

/-- The number of blocks that contain the page `e`. -/
def cover (bs : List Block) (e : DspPtr) : ℕ :=
  bs.countP (covers e)

@[simp]
theorem cover_nil (e : DspPtr) :
  cover [] e = 0
  := rfl

theorem cover_cons (b : Block) (bs : List Block) (e : DspPtr) :
  cover (b :: bs) e = cover [b] e + cover bs e
  := by
  simp only [cover, List.countP_cons, List.countP_nil]
  omega

@[simp]
theorem cover_append (bs cs : List Block) (e : DspPtr) :
  cover (bs ++ cs) e = cover bs e + cover cs e
  := List.countP_append

theorem cover_perm {bs cs : List Block} (h : bs.Perm cs) (e : DspPtr) :
  cover bs e = cover cs e
  := h.countP_eq _

theorem cover_singleton (b : Block) (e : DspPtr) :
  cover [b] e
    = if b.1.root = e.root ∧ b.1.idx ≤ e.idx ∧ e.idx < b.1.idx + 2 ^ b.2 then 1 else 0
  := by
  simp only [cover, List.countP_cons, List.countP_nil, covers_iff, zero_add]

theorem cover_pos {bs : List Block} {b : Block} {e : DspPtr} (hb : b ∈ bs)
    (he : covers e b = true) :
  0 < cover bs e
  := List.countP_pos_iff.mpr ⟨b, hb, he⟩

theorem exists_of_cover_pos {bs : List Block} {e : DspPtr} (h : 0 < cover bs e) :
  ∃ b ∈ bs, covers e b = true
  := List.countP_pos_iff.mp h

/-- No page of the family is in two blocks. -/
def Apart (bs : List Block) : Prop :=
  ∀ e, cover bs e ≤ 1

theorem Apart.perm {bs cs : List Block} (h : Apart bs) (hp : bs.Perm cs) :
  Apart cs
  := by
  intro e
  rw [← cover_perm hp]
  apply h

/-- Blocks at different positions of a family that is apart share no page. -/
theorem Apart.not_both {bs : List Block} (h : Apart bs) {i j : ℕ} {b c : Block} (hij : i ≠ j)
    (hb : bs[i]? = some b) (hc : bs[j]? = some c) (e : DspPtr) :
  ¬ (covers e b = true ∧ covers e c = true)
  := by
  rintro ⟨hbe, hce⟩
  wlog hlt : i < j generalizing i j b c
  · exact this hij.symm hc hb hce hbe (by omega)
  have hsplit : bs = bs.take j ++ bs.drop j := (List.take_append_drop j bs).symm
  have hb' : b ∈ bs.take j := by
    apply List.mem_of_getElem? (i := i)
    rw [List.getElem?_take, if_pos hlt, hb]
  have hc' : c ∈ bs.drop j := by
    apply List.mem_of_getElem? (i := 0)
    rw [List.getElem?_drop, Nat.add_zero, hc]
  have := h e
  rw [hsplit, cover_append] at this
  have := cover_pos hb' hbe
  have := cover_pos hc' hce
  omega

/-- A block whose first page is in the hand of another block is not in the family. -/
theorem Apart.not_mem {bs : List Block} {b : Block} (h : Apart (b :: bs)) {c : Block}
    (hc : covers c.1 b = true) :
  c ∉ bs
  := by
  intro hmem
  have := h c.1
  rw [cover_cons] at this
  have := cover_pos hmem (covers_self c)
  have := cover_pos (List.mem_singleton_self b) hc
  omega

/-! ### The blocks on the free lists -/

/-- The blocks on the free lists of the levels below `n`. -/
def freeBlocksBelow (fl : ℕ → List DspPtr) : ℕ → List Block
  | 0 => []
  | n + 1 => freeBlocksBelow fl n ++ (fl n).map (·, n)

/-- The blocks on the free lists. -/
def freeBlocks (fl : ℕ → List DspPtr) : List Block :=
  freeBlocksBelow fl (pgmgrMaxlvl + 1)

theorem mem_freeBlocksBelow {fl : ℕ → List DspPtr} {n : ℕ} {b : Block} :
  b ∈ freeBlocksBelow fl n ↔ b.2 < n ∧ b.1 ∈ fl b.2
  := by
  obtain ⟨d, l⟩ := b
  induction n with
  | zero => simp [freeBlocksBelow]
  | succ n ih =>
    simp only [freeBlocksBelow, List.mem_append, ih, List.mem_map, Prod.mk.injEq]
    constructor
    · rintro (⟨hl, hd⟩ | ⟨d', hd, rfl, rfl⟩)
      · exact ⟨by omega, hd⟩
      · exact ⟨by omega, hd⟩
    · rintro ⟨hl, hd⟩
      by_cases hln : l = n
      · subst hln
        right
        exact ⟨d, hd, rfl, rfl⟩
      · left
        exact ⟨by omega, hd⟩

theorem mem_freeBlocks {fl : ℕ → List DspPtr} {d : DspPtr} {l : ℕ} :
  (d, l) ∈ freeBlocks fl ↔ l ≤ pgmgrMaxlvl ∧ d ∈ fl l
  := by
  rw [freeBlocks, mem_freeBlocksBelow, Nat.lt_succ_iff]

theorem freeBlocksBelow_update_of_le {fl : ℕ → List DspPtr} {l n : ℕ} (h : n ≤ l)
    (xs : List DspPtr) :
  freeBlocksBelow (Function.update fl l xs) n = freeBlocksBelow fl n
  := by
  induction n with
  | zero => rfl
  | succ n ih =>
    rw [freeBlocksBelow, freeBlocksBelow, ih (by omega), Function.update_of_ne (by omega)]

/-- Replacing one free list replaces its blocks. -/
theorem freeBlocksBelow_update (fl : ℕ → List DspPtr) {l n : ℕ} (h : l < n) (xs : List DspPtr) :
  (freeBlocksBelow (Function.update fl l xs) n ++ (fl l).map (·, l)).Perm
    (freeBlocksBelow fl n ++ xs.map (·, l))
  := by
  induction n with
  | zero => omega
  | succ n ih =>
    by_cases hln : l = n
    · subst hln
      rw [freeBlocksBelow, freeBlocksBelow, freeBlocksBelow_update_of_le le_rfl,
        Function.update_self, List.append_assoc, List.append_assoc]
      apply List.Perm.append_left
      apply List.perm_append_comm
    · rw [freeBlocksBelow, freeBlocksBelow, Function.update_of_ne (Ne.symm hln)]
      have hcomm : ∀ as bs cs : List Block, ((as ++ bs) ++ cs).Perm ((as ++ cs) ++ bs) := by
        intro as bs cs
        rw [List.append_assoc, List.append_assoc]
        apply List.Perm.append_left
        apply List.perm_append_comm
      apply (hcomm _ _ _).trans
      apply ((ih (by omega)).append_right _).trans
      apply hcomm

/-- Appending a descriptor to a free list adds its block. -/
theorem freeBlocks_append (fl : ℕ → List DspPtr) {l : ℕ} (h : l ≤ pgmgrMaxlvl) (d : DspPtr) :
  (freeBlocks (Function.update fl l (fl l ++ [d]))).Perm ((d, l) :: freeBlocks fl)
  := by
  have hp := freeBlocksBelow_update fl (Nat.lt_add_one_of_le h) (fl l ++ [d])
  rw [List.perm_iff_count] at hp ⊢
  intro b
  have := hp b
  simp only [List.map_append, List.count_append, List.map_cons, List.map_nil, List.count_cons,
    List.count_nil] at this ⊢
  rw [freeBlocks, freeBlocks]
  omega

/-- Erasing a descriptor from a free list takes its block away. -/
theorem freeBlocks_erase {fl : ℕ → List DspPtr} {l : ℕ} (h : l ≤ pgmgrMaxlvl) {d : DspPtr}
    (hd : d ∈ fl l) :
  (freeBlocks fl).Perm ((d, l) :: freeBlocks (Function.update fl l ((fl l).erase d)))
  := by
  have hp := freeBlocksBelow_update fl (Nat.lt_add_one_of_le h) ((fl l).erase d)
  have he := (List.perm_cons_erase hd).map (·, l)
  rw [List.perm_iff_count] at hp he ⊢
  intro b
  have hpb := hp b
  have heb := he b
  simp only [List.count_append, List.map_cons, List.count_cons] at hpb heb ⊢
  rw [freeBlocks, freeBlocks]
  omega

/-! ### Splitting and merging -/

/-- The upper halves left over when the block of level `p + n` at `d` is broken up until
level `p`. -/
def halves (d : DspPtr) (p : ℕ) : ℕ → List Block
  | 0 => []
  | n + 1 => (d.add (2 ^ (p + n)), p + n) :: halves d p n

theorem mem_halves {d : DspPtr} {p n : ℕ} {b : Block} :
  b ∈ halves d p n ↔ ∃ j < n, b = (d.add (2 ^ (p + j)), p + j)
  := by
  induction n with
  | zero => simp [halves]
  | succ n ih =>
    rw [halves, List.mem_cons, ih]
    constructor
    · rintro (rfl | ⟨j, hj, rfl⟩)
      · exact ⟨n, by omega, rfl⟩
      · exact ⟨j, by omega, rfl⟩
    · rintro ⟨j, hj, rfl⟩
      by_cases hjn : j = n
      · left
        rw [hjn]
      · right
        exact ⟨j, by omega, rfl⟩

/-- A block is its lower and its upper half. -/
theorem cover_split (d : DspPtr) (l : ℕ) (e : DspPtr) :
  cover [(d, l)] e + cover [(d.add (2 ^ l), l)] e = cover [(d, l + 1)] e
  := by
  have := Nat.two_pow_pos l
  simp only [cover_singleton, DspPtr.add, pow_succ]
  split_ifs <;> omega

theorem covers_upper (d : DspPtr) (l : ℕ) :
  covers (d.add (2 ^ l)) (d, l + 1) = true
  := by
  have := Nat.two_pow_pos l
  rw [covers_iff]
  show d.root = d.root ∧ d.idx ≤ d.idx + 2 ^ l ∧ d.idx + 2 ^ l < d.idx + 2 ^ (l + 1)
  rw [pow_succ]
  omega

/-- A block is not smaller than its lower half. -/
theorem covers_mono {d e : DspPtr} {l m : ℕ} (hl : l ≤ m) (h : covers e (d, l) = true) :
  covers e (d, m) = true
  := by
  have := Nat.pow_le_pow_right (show 0 < 2 by omega) hl
  rw [covers_iff] at h ⊢
  obtain ⟨hr, hlo, hhi⟩ := h
  refine ⟨hr, hlo, ?_⟩
  show e.idx < d.idx + 2 ^ m
  have : e.idx < d.idx + 2 ^ l := hhi
  omega

theorem covers_of_mem_halves {d : DspPtr} {p n : ℕ} {b : Block} (hb : b ∈ halves d p n) :
  covers b.1 (d, p + n) = true
  := by
  obtain ⟨j, hj, rfl⟩ := mem_halves.mp hb
  apply covers_mono (show p + j + 1 ≤ p + n by omega)
  apply covers_upper

/-- Breaking up a block keeps the count of every page. -/
theorem cover_halves (d : DspPtr) (p n : ℕ) (e : DspPtr) :
  cover [(d, p)] e + cover (halves d p n) e = cover [(d, p + n)] e
  := by
  induction n with
  | zero => simp [halves]
  | succ n ih =>
    rw [halves, cover_cons _ (halves d p n), ← Nat.add_assoc p n 1, ← cover_split]
    omega

end TrainsOs
