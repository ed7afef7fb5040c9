import Mathlib.Data.List.Chain
import Mathlib.Data.List.Range
import Mathlib.Algebra.GroupWithZero.Nat

/-!
# Items one after another

Items that have sizes are placed one after another from some position on. Then their
ranges of positions follow each other, and so do the pieces of a list to which every item
contributes as many elements as its size says.
-/

namespace Tiling

variable {α β : Type*} {size : α → ℕ} {pos : ℕ} {xs : List α} {p : ℕ × α}

/-- The items with their positions. -/
def place (size : α → ℕ) : ℕ → List α → List (ℕ × α)
  | _, [] => []
  | pos, x :: xs => (pos, x) :: place size (pos + size x) xs

/-- Each item is placed once, and in order. -/
theorem map_snd_place (size : α → ℕ) (pos : ℕ) (xs : List α) :
  (place size pos xs).map Prod.snd = xs
  := by
  induction xs generalizing pos with
  | nil => rfl
  | cons x xs ih => rw [place, List.map_cons, ih]

theorem place_append (size : α → ℕ) (pos : ℕ) (xs ys : List α) :
  place size pos (xs ++ ys) = place size pos xs ++ place size (pos + (xs.map size).sum) ys
  := by
  induction xs generalizing pos with
  | nil => rfl
  | cons x xs ih =>
    rw [List.cons_append, place, place, ih, List.map_cons, List.sum_cons, Nat.add_assoc]
    rfl

/-- An item lies within all of them. -/
theorem mem_place (hp : p ∈ place size pos xs) :
  pos ≤ p.1 ∧ p.1 + size p.2 ≤ pos + (xs.map size).sum
  := by
  induction xs generalizing pos with
  | nil => cases hp
  | cons x xs ih =>
    rw [List.map_cons, List.sum_cons]
    obtain rfl | hp := List.mem_cons.mp hp
    · dsimp only
      omega
    · obtain ⟨hle, hend⟩ := ih hp
      constructor <;> omega

/-- An item begins where the one in front ends. -/
theorem place_chain (size : α → ℕ) (pos : ℕ) (xs : List α) :
  (place size pos xs).IsChain fun a b => b.1 = a.1 + size a.2
  := by
  induction xs generalizing pos with
  | nil => exact List.IsChain.nil
  | cons x xs ih =>
    cases xs with
    | nil => exact List.IsChain.singleton _
    | cons y xs =>
      apply List.isChain_cons_cons.mpr
      use rfl
      apply ih

/-- The last item ends where all of them end. -/
theorem end_of_getLast?_place (hp : (place size pos xs).getLast? = some p) :
  p.1 + size p.2 = pos + (xs.map size).sum
  := by
  induction xs generalizing pos with
  | nil => cases hp
  | cons x xs ih =>
    rw [List.map_cons, List.sum_cons, ← Nat.add_assoc]
    cases xs with
    | nil =>
      obtain rfl := Option.some.inj hp
      rfl
    | cons y xs =>
      apply ih
      rwa [place, place, List.getLast?_cons_cons] at hp

/-- An item ends before each later one begins. -/
theorem place_pairwise (size : α → ℕ) (pos : ℕ) (xs : List α) :
  (place size pos xs).Pairwise fun a b => a.1 + size a.2 ≤ b.1
  := by
  induction xs generalizing pos with
  | nil => exact List.Pairwise.nil
  | cons x xs ih =>
    apply List.pairwise_cons.mpr
    use fun b hb => (mem_place hb).1
    apply ih

/-- The positions of all items. -/
theorem flatMap_range'_place (size : α → ℕ) (pos : ℕ) (xs : List α) :
  (place size pos xs).flatMap (fun p => List.range' p.1 (size p.2))
    = List.range' pos (xs.map size).sum
  := by
  induction xs generalizing pos with
  | nil => rfl
  | cons x xs ih =>
    rw [place, List.flatMap_cons, ih, List.map_cons, List.sum_cons]
    exact List.range'_append_1

section Pieces

variable {f : ℕ → α → List β} (hf : ∀ pos x, (f pos x).length = size x)

include hf

theorem length_flatMap_place (pos : ℕ) (xs : List α) :
  ((place size pos xs).flatMap fun p => f p.1 p.2).length = (xs.map size).sum
  := by
  induction xs generalizing pos with
  | nil => rfl
  | cons x xs ih => rw [place, List.flatMap_cons, List.length_append, hf, ih, List.map_cons,
      List.sum_cons]

/-- The elements of an item are at its positions. -/
theorem getElem?_flatMap_place (hp : p ∈ place size pos xs) {i : ℕ} (hi : i < size p.2) :
  ((place size pos xs).flatMap fun p => f p.1 p.2)[p.1 - pos + i]? = (f p.1 p.2)[i]?
  := by
  induction xs generalizing pos with
  | nil => cases hp
  | cons x xs ih =>
    rw [place, List.flatMap_cons]
    obtain rfl | hp := List.mem_cons.mp hp
    · rw [Nat.sub_self, Nat.zero_add]
      apply List.getElem?_append_left
      rwa [hf]
    · have hle := (mem_place hp).1
      have hlen : (f pos x).length ≤ p.1 - pos + i := by
        rw [hf]
        omega
      have hidx : p.1 - pos + i - (f pos x).length = p.1 - (pos + size x) + i := by
        rw [hf]
        omega
      rw [List.getElem?_append_right hlen, ← ih hp]
      exact congrArg _ hidx

end Pieces

end Tiling
