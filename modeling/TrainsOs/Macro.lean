import TrainsOs.Lib.Bits

/-!
# Alignment macros

The macros of `macro.h`, over addresses that do not wrap around.
-/

namespace TrainsOs

/-- `ALIGN_DOWN(val, sft)`: the low `sft` bits of `val` cleared. -/
def alignDown (val sft : ℕ) : ℕ :=
  (val >>> sft) <<< sft

/-- `ALIGN_UP(val, sft)`. -/
def alignUp (val sft : ℕ) : ℕ :=
  alignDown (val + (1 <<< sft) - 1) sft

theorem alignDown_eq (val sft : ℕ) :
  alignDown val sft = val / 2 ^ sft * 2 ^ sft
  := by
  rw [alignDown, Nat.shiftLeft_eq, Nat.shiftRight_eq_div_pow]

theorem dvd_alignDown (val sft : ℕ) :
  2 ^ sft ∣ alignDown val sft
  := by
  rw [alignDown_eq]
  apply dvd_mul_left

theorem dvd_alignUp (val sft : ℕ) :
  2 ^ sft ∣ alignUp val sft
  := dvd_alignDown _ _

theorem alignDown_le (val sft : ℕ) :
  alignDown val sft ≤ val
  := by
  rw [alignDown_eq]
  apply Nat.div_mul_le_self

theorem le_alignUp (val sft : ℕ) :
  val ≤ alignUp val sft
  := by
  have hpos := Nat.two_pow_pos sft
  rw [alignUp, alignDown_eq, Nat.shiftLeft_eq, one_mul]
  have := Nat.lt_div_mul_add hpos (a := val + 2 ^ sft - 1)
  omega

theorem alignUp_lt (val sft : ℕ) :
  alignUp val sft < val + 2 ^ sft
  := by
  have hpos := Nat.two_pow_pos sft
  have := alignDown_le (val + (1 <<< sft) - 1) sft
  rw [Nat.shiftLeft_eq, one_mul] at this
  rw [alignUp, Nat.shiftLeft_eq, one_mul]
  omega

/-- `ALIGN_DOWN` gives the largest multiple below. -/
theorem le_alignDown {a val sft : ℕ} (ha : 2 ^ sft ∣ a) (h : a ≤ val) :
  a ≤ alignDown val sft
  := by
  obtain ⟨c, rfl⟩ := ha
  rw [alignDown_eq, mul_comm]
  apply Nat.mul_le_mul_right
  rw [Nat.le_div_iff_mul_le (Nat.two_pow_pos sft), mul_comm]
  exact h

/-- `ALIGN_UP` gives the smallest multiple above. -/
theorem alignUp_le {a val sft : ℕ} (ha : 2 ^ sft ∣ a) (h : val ≤ a) :
  alignUp val sft ≤ a
  := by
  by_contra hlt
  obtain ⟨c, rfl⟩ := ha
  obtain ⟨d, hd⟩ := dvd_alignUp val sft
  have hup := alignUp_lt val sft
  rw [hd] at hlt hup
  have hcd : c < d := by
    by_contra hcd
    exact hlt (Nat.mul_le_mul_left _ (by omega))
  have := Nat.mul_le_mul_left (2 ^ sft) (show c + 1 ≤ d by omega)
  rw [mul_add, mul_one] at this
  omega

/-- Being below a multiple is not changed by `ALIGN_UP`. -/
theorem alignUp_le_iff {a sft : ℕ} (ha : 2 ^ sft ∣ a) (val : ℕ) :
  alignUp val sft ≤ a ↔ val ≤ a
  := ⟨le_trans (le_alignUp val sft), alignUp_le ha⟩

theorem alignUp_mono {v w : ℕ} (h : v ≤ w) (sft : ℕ) :
  alignUp v sft ≤ alignUp w sft
  := alignUp_le (dvd_alignUp w sft) (h.trans (le_alignUp w sft))

/-- A multiple can be taken out of `ALIGN_UP`. -/
theorem alignUp_add {a sft : ℕ} (ha : 2 ^ sft ∣ a) (val : ℕ) :
  alignUp (a + val) sft = a + alignUp val sft
  := by
  apply le_antisymm
  · apply alignUp_le (Nat.dvd_add ha (dvd_alignUp val sft))
    exact Nat.add_le_add_left (le_alignUp val sft) a
  · have hle := (Nat.le_add_right a val).trans (le_alignUp (a + val) sft)
    have hdvd := Nat.dvd_sub (dvd_alignUp (a + val) sft) ha
    have := alignUp_le hdvd (Nat.le_sub_of_add_le' (le_alignUp (a + val) sft))
    omega

theorem alignUp_of_dvd {a sft : ℕ} (ha : 2 ^ sft ∣ a) :
  alignUp a sft = a
  := le_antisymm (alignUp_le ha le_rfl) (le_alignUp a sft)

theorem alignDown_of_dvd {a sft : ℕ} (ha : 2 ^ sft ∣ a) :
  alignDown a sft = a
  := le_antisymm (alignDown_le a sft) (le_alignDown ha le_rfl)

/-- The loop of `MSB_POS` from position `pos` down; `255` is `-1` as a `uint8_t`. -/
def msbPosFrom (x : ℕ) : ℕ → ℕ
  | 0 => if x >>> 0 ≠ 0 then 0 else 255
  | pos + 1 => if x >>> (pos + 1) ≠ 0 then pos + 1 else msbPosFrom x pos

/-- `MSB_POS(x)` of a 32-bit value. -/
def msbPos (x : ℕ) : ℕ :=
  msbPosFrom x 31

/-- `MSB_POS(x)` of a 64-bit value. -/
def msbPos64 (x : ℕ) : ℕ :=
  msbPosFrom x 63

/-- `NEXT_POW2` of a 64-bit value. -/
def nextPow2 (val64 : ℕ) : ℕ :=
  let v := (val64 + 2 ^ 64 - 1) % 2 ^ 64
  let v := v ||| v >>> 1
  let v := v ||| v >>> 2
  let v := v ||| v >>> 4
  let v := v ||| v >>> 8
  let v := v ||| v >>> 16
  let v := v ||| v >>> 32
  let v := (v + 1) % 2 ^ 64
  v + if v = 0 then 1 else 0

theorem msbPosFrom_two_pow {a pos : ℕ} (h : a ≤ pos) :
  msbPosFrom (2 ^ a) pos = a
  := by
  induction pos with
  | zero =>
    obtain rfl : a = 0 := by omega
    rfl
  | succ pos ih =>
    rw [msbPosFrom]
    obtain rfl | hlt := Nat.eq_or_lt_of_le h
    · rw [if_pos]
      simp [Nat.shiftRight_eq_div_pow]
    · rw [if_neg, ih (by omega)]
      rw [not_not, Nat.shiftRight_eq_div_pow, Nat.div_eq_zero_iff]
      right
      apply Nat.pow_lt_pow_right Nat.one_lt_two hlt

theorem msbPos_two_pow {a : ℕ} (h : a < 32) :
  msbPos (2 ^ a) = a
  := msbPosFrom_two_pow (by omega)

/-! ### The next power of two -/

/-- Every bit of `w` says whether one of the `n` bits of `v` from there on is set. -/
def Smeared (v n w : ℕ) : Prop :=
  ∀ i, w.testBit i = true ↔ ∃ j < n, v.testBit (i + j) = true

theorem Smeared.one (v : ℕ) :
  Smeared v 1 v
  := by
  intro i
  constructor
  · exact fun h => ⟨0, Nat.one_pos, h⟩
  · rintro ⟨j, hj, h⟩
    rwa [Nat.lt_one_iff.mp hj] at h

theorem Smeared.double {v n w : ℕ} (h : Smeared v n w) :
  Smeared v (n + n) (w ||| w >>> n)
  := by
  intro i
  rw [Nat.testBit_or, Bool.or_eq_true, Nat.testBit_shiftRight, h i, h (n + i)]
  constructor
  · rintro (⟨j, hj, hv⟩ | ⟨j, hj, hv⟩)
    · exact ⟨j, Nat.lt_add_right n hj, hv⟩
    · refine ⟨n + j, Nat.add_lt_add_left hj n, ?_⟩
      rwa [← Nat.add_assoc, Nat.add_comm i n]
  · rintro ⟨j, hj, hv⟩
    by_cases hlt : j < n
    · exact Or.inl ⟨j, hlt, hv⟩
    · right
      refine ⟨j - n, by omega, ?_⟩
      rwa [show n + i + (j - n) = i + j by omega]

/-- A number whose bits below its highest one are all set. -/
theorem Smeared.eq {v w : ℕ} (h : Smeared v 64 w) (hv : v ≠ 0) (hlt : v < 2 ^ 64) :
  w = 2 ^ (v.log2 + 1) - 1
  := by
  have hlog := (Nat.log2_lt hv).mpr hlt
  apply Nat.eq_of_testBit_eq
  intro i
  rw [Nat.testBit_two_pow_sub_one, Bool.eq_iff_iff, decide_eq_true_iff, h i]
  constructor
  · rintro ⟨j, -, hbit⟩
    have hle := Nat.ge_two_pow_of_testBit hbit
    have hself := Nat.lt_log2_self (n := v)
    have hpow := (Nat.pow_lt_pow_iff_right Nat.one_lt_two).mp (hle.trans_lt hself)
    omega
  · intro hi
    refine ⟨v.log2 - i, by omega, ?_⟩
    rw [Nat.add_sub_cancel' (Nat.le_of_lt_succ hi)]
    exact Nat.testBit_log2 hv

/-- The bits that `NEXT_POW2` sets. -/
def smear (v : ℕ) : ℕ :=
  let v := v ||| v >>> 1
  let v := v ||| v >>> 2
  let v := v ||| v >>> 4
  let v := v ||| v >>> 8
  let v := v ||| v >>> 16
  v ||| v >>> 32

theorem smeared_smear (v : ℕ) :
  Smeared v 64 (smear v)
  := (Smeared.one v).double.double.double.double.double.double

theorem nextPow2_eq (val64 : ℕ) :
  nextPow2 val64 =
    let v := (smear ((val64 + 2 ^ 64 - 1) % 2 ^ 64) + 1) % 2 ^ 64
    v + if v = 0 then 1 else 0
  := rfl

/-- `NEXT_POW2` is the least power of two that is not below. -/
theorem nextPow2_spec {val : ℕ} (h : val ≤ 2 ^ 63) :
  ∃ k ≤ 63, nextPow2 val = 2 ^ k ∧ ∀ j, val ≤ 2 ^ j ↔ k ≤ j
  := by
  have hone : ∀ j, val ≤ 1 → (val ≤ 2 ^ j ↔ 0 ≤ j) := by
    intro j hle
    have := Nat.two_pow_pos j
    omega
  rcases Nat.eq_zero_or_pos val with rfl | hpos
  · use 0, Nat.zero_le _, by decide +kernel
    intro j
    apply hone j (Nat.zero_le _)
  · obtain ⟨v, rfl⟩ := Nat.exists_eq_succ_of_ne_zero hpos.ne'
    have hv : (v + 1 + 2 ^ 64 - 1) % 2 ^ 64 = v := by omega
    rcases Nat.eq_zero_or_pos v with rfl | hvpos
    · use 0, Nat.zero_le _, by decide +kernel
      intro j
      apply hone j le_rfl
    · have hlog := (Nat.log2_lt hvpos.ne').mpr (show v < 2 ^ 63 by omega)
      have hpow : 2 ^ (v.log2 + 1) ≤ 2 ^ 63 := Nat.pow_le_pow_right Nat.two_pos hlog
      have hpos := Nat.two_pow_pos (v.log2 + 1)
      have hsmear : smear v + 1 = 2 ^ (v.log2 + 1) := by
        rw [(smeared_smear v).eq hvpos.ne' (by omega)]
        exact Nat.sub_add_cancel hpos
      use v.log2 + 1, hlog
      constructor
      · rw [nextPow2_eq, Nat.succ_eq_add_one, hv, hsmear, Nat.mod_eq_of_lt (by omega)]
        dsimp only
        rw [if_neg hpos.ne', Nat.add_zero]
      · intro j
        rw [Nat.succ_le_iff, Nat.succ_le_iff, Nat.log2_lt hvpos.ne']

/-- Above `2 ^ 63` it wraps around. -/
theorem nextPow2_of_lt {val : ℕ} (h : 2 ^ 63 < val) (hlt : val < 2 ^ 64) :
  nextPow2 val = 1
  := by
  obtain ⟨v, rfl⟩ := Nat.exists_eq_succ_of_ne_zero (show val ≠ 0 by omega)
  have hv : (v + 1 + 2 ^ 64 - 1) % 2 ^ 64 = v := by omega
  have hlog : v.log2 = 63 := (Nat.log2_eq_iff (by omega)).mpr ⟨by omega, by omega⟩
  have hsmear : smear v = 2 ^ 64 - 1 := by
    rw [(smeared_smear v).eq (by omega) (by omega), hlog]
  rw [nextPow2_eq, Nat.succ_eq_add_one, hv, hsmear]
  rfl

end TrainsOs
