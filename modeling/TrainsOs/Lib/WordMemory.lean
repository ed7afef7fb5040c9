import Mathlib.Data.List.Basic
import Mathlib.Logic.Function.Basic
import Mathlib.Algebra.Group.Nat.Defs

/-!
# Memory of 64-bit words

Words are stored at addresses that are a multiple of eight apart, and the memory keeps a log
of the addresses at which words have been stored. The words of a table at `base` have the
addresses `wordAddr base 0`, `wordAddr base 1`, ….

`Filled base n m m' f` says that `m'` has come about from `m` by writing into the table of
`n` words at `base` only, and that this table now holds `f 0`, `f 1`, ….
-/

@[ext]
structure WordMemory where
  word : UInt64 → UInt64
  stores : List UInt64

namespace WordMemory

/-- Storing a word. -/
def store (m : WordMemory) (a v : UInt64) : WordMemory where
  word := Function.update m.word a v
  stores := a :: m.stores

/-- The address of the word with the index `k`. -/
def wordAddr (base : UInt64) (k : ℕ) : UInt64 :=
  base + UInt64.ofNat (8 * k)

/-- The address is that of one of the `n` words at `base`. -/
def InTable (base : UInt64) (n : ℕ) (a : UInt64) : Prop :=
  ∃ k < n, a = wordAddr base k

/-- The table of `n` words at `base` holds `f`, and nothing else has been written. -/
structure Filled (base : UInt64) (n : ℕ) (m m' : WordMemory) (f : ℕ → UInt64) : Prop where
  table : ∀ k < n, m'.word (wordAddr base k) = f k
  outside : ∀ a, ¬ InTable base n a → m'.word a = m.word a
  stores : ∀ a ∈ m'.stores, a ∈ m.stores ∨ InTable base n a

variable {base : UInt64} {n : ℕ} {m m' : WordMemory} {f g : ℕ → UInt64} {k k' : ℕ}

theorem store_word (m : WordMemory) (a v : UInt64) :
  (m.store a v).word = Function.update m.word a v
  := rfl

theorem wordAddr_zero (base : UInt64) :
  wordAddr base 0 = base
  := UInt64.add_zero base

/-- The address of an entry, from the address of the table. -/
theorem wordAddr_add (base : UInt64) (k i : ℕ) :
  wordAddr base k + UInt64.ofNat i <<< 3 = wordAddr base (k + i)
  := by
  have hshift : UInt64.ofNat i <<< 3 = UInt64.ofNat (8 * i) := by
    rw [← UInt64.toNat_inj, UInt64.toNat_shiftLeft, UInt64.toNat_ofNat', UInt64.toNat_ofNat',
      Nat.shiftLeft_eq]
    have hthree : (3 : UInt64).toNat % 64 = 3 := rfl
    rw [hthree]
    omega
  rw [wordAddr, wordAddr, hshift, UInt64.add_assoc, ← UInt64.ofNat_add, Nat.mul_add]

theorem wordAddr_succ (base : UInt64) (k : ℕ) :
  wordAddr base k + 8 = wordAddr base (k + 1)
  := wordAddr_add base k 1

/-- Different words of a table have different addresses. -/
theorem wordAddr_inj (hk : k < 2 ^ 61) (hk' : k' < 2 ^ 61)
    (h : wordAddr base k = wordAddr base k') :
  k = k'
  := by
  rw [wordAddr, wordAddr, UInt64.add_right_inj, ← UInt64.toNat_inj, UInt64.toNat_ofNat',
    UInt64.toNat_ofNat'] at h
  omega

/-- Before anything is written. -/
theorem filled_refl (base : UInt64) (n : ℕ) (m : WordMemory) :
  Filled base n m m fun k => m.word (wordAddr base k)
  := by
  constructor
  · exact fun _ _ => rfl
  · exact fun _ _ => rfl
  · exact fun _ => Or.inl

/-- The content of a table, described in another way. -/
theorem Filled.congr (h : Filled base n m m' f) (heq : ∀ k < n, f k = g k) :
  Filled base n m m' g
  := by
  refine ⟨?_, h.outside, h.stores⟩
  intro k hk
  rw [h.table k hk, heq k hk]

/-- Storing a word into the table. -/
theorem Filled.store (h : Filled base n m m' f) (hn : n ≤ 2 ^ 61) (hk : k < n) (v : UInt64) :
  Filled base n m (m'.store (wordAddr base k) v) (Function.update f k v)
  := by
  constructor
  · intro i hi
    by_cases heq : i = k
    · subst heq
      rw [store_word, Function.update_self, Function.update_self]
    · rw [store_word, Function.update_of_ne heq, Function.update_of_ne]
      · exact h.table i hi
      · intro haddr
        exact heq (wordAddr_inj (Nat.lt_of_lt_of_le hi hn) (Nat.lt_of_lt_of_le hk hn) haddr)
  · intro a ha
    rw [store_word, Function.update_of_ne]
    · exact h.outside a ha
    · rintro rfl
      exact ha ⟨k, hk, rfl⟩
  · intro a ha
    rcases List.mem_cons.mp ha with rfl | ha
    · exact Or.inr ⟨k, hk, rfl⟩
    · exact h.stores a ha

end WordMemory
