import Mathlib.Data.List.Basic
import Mathlib.Data.List.Range
import Mathlib.Algebra.Group.Nat.Defs

/-!
# Byte memory

A memory is a map from positions to bytes. `getBytes m pos n` reads `n` bytes and
`putBytes m pos bs` writes the bytes `bs`. Words of 32 bits are stored with the low byte
first.
-/

namespace Bytes

variable {m : ℕ → UInt8} {bs : List UInt8} {pos pos' n j : ℕ}

def putBytes (m : ℕ → UInt8) (pos : ℕ) (bs : List UInt8) : ℕ → UInt8 :=
  fun j => if pos ≤ j then (bs[j - pos]?).getD (m j) else m j

def getBytes (m : ℕ → UInt8) (pos n : ℕ) : List UInt8 :=
  (List.range n).map fun i => m (pos + i)

@[simp]
theorem length_getBytes :
  (getBytes m pos n).length = n
  := by simp [getBytes]

/-- The same bytes are the same byte for byte. -/
theorem eq_of_getBytes {m' : ℕ → UInt8} (h : getBytes m' 0 n = getBytes m 0 n) (hj : j < n) :
  m' j = m j
  := by
  have hj' := List.map_inj_left.mp h j (List.mem_range.mpr hj)
  rwa [Nat.zero_add] at hj'

/-- The bytes outside of what is written are unchanged. -/
theorem putBytes_of_disjoint (h : j < pos ∨ pos + bs.length ≤ j) :
  putBytes m pos bs j = m j
  := by
  rw [putBytes]
  split
  · rw [List.getElem?_eq_none (by omega)]
    rfl
  · rfl

theorem putBytes_add {i : ℕ} (hi : i < bs.length) :
  putBytes m pos bs (pos + i) = bs[i]
  := by
  rw [putBytes, if_pos (Nat.le_add_right pos i), Nat.add_sub_cancel_left,
    List.getElem?_eq_getElem hi]
  rfl

theorem getBytes_congr {m' : ℕ → UInt8} (h : ∀ j, pos ≤ j → j < pos + n → m' j = m j) :
  getBytes m' pos n = getBytes m pos n
  := by
  apply List.map_congr_left
  intro i hi
  have hi := List.mem_range.mp hi
  exact h (pos + i) (Nat.le_add_right pos i) (Nat.add_lt_add_left hi pos)

/-- What is read back is what was written. -/
theorem getBytes_putBytes {i : ℕ} (h : i + n ≤ bs.length) :
  getBytes (putBytes m pos bs) (pos + i) n = (bs.drop i).take n
  := by
  apply List.ext_getElem
  · rw [length_getBytes, List.length_take, List.length_drop]
    omega
  · intro j hj hj'
    rw [length_getBytes] at hj
    simp only [getBytes, List.getElem_map, List.getElem_range, List.getElem_take,
      List.getElem_drop, Nat.add_assoc]
    apply putBytes_add

theorem getBytes_putBytes_self :
  getBytes (putBytes m pos bs) pos bs.length = bs
  := by
  have h := @getBytes_putBytes m bs pos bs.length 0 (Nat.zero_add bs.length).le
  rwa [Nat.add_zero, List.drop_zero, List.take_length] at h

/-- Reading elsewhere. -/
theorem getBytes_putBytes_of_disjoint (h : pos' + n ≤ pos ∨ pos + bs.length ≤ pos') :
  getBytes (putBytes m pos bs) pos' n = getBytes m pos' n
  := by
  apply getBytes_congr
  intro j hj hlt
  apply putBytes_of_disjoint
  omega

/-- A part of what is read. -/
theorem getBytes_append (m : ℕ → UInt8) (pos n k : ℕ) :
  getBytes m pos (n + k) = getBytes m pos n ++ getBytes m (pos + n) k
  := by
  rw [getBytes, getBytes, getBytes, List.range_add, List.map_append, List.map_map]
  congr 1
  apply List.map_congr_left
  intro i _
  rw [Function.comp_apply, Nat.add_assoc]

/-! ### Words -/

/-- The bytes of a word of 32 bits, the low one first. -/
def u32Bytes (n : ℕ) : List UInt8 :=
  [UInt8.ofNat n, UInt8.ofNat (n / 2 ^ 8), UInt8.ofNat (n / 2 ^ 16), UInt8.ofNat (n / 2 ^ 24)]

def getU32 (m : ℕ → UInt8) (pos : ℕ) : ℕ :=
  (m pos).toNat + (m (pos + 1)).toNat * 2 ^ 8 + (m (pos + 2)).toNat * 2 ^ 16
    + (m (pos + 3)).toNat * 2 ^ 24

theorem getU32_lt :
  getU32 m pos < 2 ^ 32
  := by
  have h₀ := (m pos).toNat_lt
  have h₁ := (m (pos + 1)).toNat_lt
  have h₂ := (m (pos + 2)).toNat_lt
  have h₃ := (m (pos + 3)).toNat_lt
  rw [getU32]
  omega

theorem getU32_congr {m' : ℕ → UInt8} (h : ∀ j, pos ≤ j → j < pos + 4 → m' j = m j) :
  getU32 m' pos = getU32 m pos
  := by
  rw [getU32, getU32, h pos (by omega) (by omega), h (pos + 1) (by omega) (by omega),
    h (pos + 2) (by omega) (by omega), h (pos + 3) (by omega) (by omega)]

/-- A word that is in memory. -/
theorem getU32_of_getBytes (h : getBytes m pos 4 = u32Bytes n) :
  getU32 m pos = n % 2 ^ 32
  := by
  have heq : getBytes m pos 4 = [m pos, m (pos + 1), m (pos + 2), m (pos + 3)] := rfl
  rw [heq, u32Bytes] at h
  simp only [List.cons.injEq, and_true] at h
  obtain ⟨h₀, h₁, h₂, h₃⟩ := h
  rw [getU32, h₀, h₁, h₂, h₃]
  simp only [UInt8.toNat_ofNat']
  omega

end Bytes
