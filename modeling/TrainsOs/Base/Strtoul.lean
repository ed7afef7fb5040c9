import Mathlib.Data.Nat.Digits.Defs
import Mathlib.Data.List.Basic

/-!
# Numbers in strings

`util_strtoul` of `util.c`, on the strings of C. Its loop looks at the character under `str`
again and again, because `str` is never advanced, and it takes any character of `digits_map`
for a digit, whatever the base.

`numeral` is the longest prefix of digits below the base and `Correct` says that the call
ends with the value of this prefix, and `endptr` behind it, or reports an overflow.
-/

namespace Strtoul

/-- A string of C: its characters, before the terminating NUL. -/
structure CString where
  chars : List UInt8
  not_mem : 0 ∉ chars

/-- The character at `p`; `none` is a read behind the terminating NUL. -/
def CString.read (s : CString) (p : ℕ) : Option UInt8 :=
  (s.chars ++ [0])[p]?

/-- A base from 2 to 16. -/
structure Base where
  val : ℕ
  two_le : 2 ≤ val
  le_sixteen : val ≤ 16

/-- `ULONG_MAX`. -/
def ulongMax : UInt64 := 0xFFFFFFFFFFFFFFFF

/-- `__LONG_MAX__`, as an unsigned number. -/
def longMax : UInt64 := 0x7FFFFFFFFFFFFFFF

/-- `digits_map`, from `-` to `f`. -/
def digitsMap : List ℤ :=
  [-1, -2, -2, 0, 1, 2, 3, 4, 5, 6, 7, 8, 9,
    -2, -2, -2, -2, -2, -2, -2,
    10, 11, 12, 13, 14, 15,
    -2, -2, -2, -2, -2, -2, -2, -2, -2, -2, -2, -2, -2, -2, -2, -2, -2, -2, -2, -2,
    -2, -2, -2, -2, -2, -2,
    10, 11, 12, 13, 14, 15]

/-- `calc_digit`. -/
def calcDigit (c : UInt8) : ℤ :=
  if h : c.toNat < 45 ∨ 102 < c.toNat then
    -2
  else
    digitsMap.get ⟨c.toNat - 45, by
      have hlen : digitsMap.length = 58 := rfl
      omega⟩

/-- How a call ends: with a result and with `endptr`, `none` being `NULL`, or with a read
behind the terminating NUL. -/
inductive Outcome
  | returned (ans : UInt64) (endptr : Option ℕ)
  | outOfBounds

/-- The loop of `util_strtoul`, with a bound on the number of rounds. -/
def strtoulLoop (s : CString) (base : Base) : ℕ → ℕ → UInt64 → Option Outcome
  | 0, _, _ => none
  | fuel + 1, str, ans =>
    match s.read str with
    | none => some .outOfBounds
    | some c =>
      if c = 0 then
        some (.returned ans (some str))
      else
        let digit := calcDigit c
        if digit < 0 then
          some (.returned ans (some str))
        else
          let digit := UInt64.ofNat digit.toNat
          if (ulongMax - digit) / UInt64.ofNat base.val < ans then
            some (.returned longMax none)
          else
            strtoulLoop s base fuel str (ans * UInt64.ofNat base.val + digit)

/-- `util_strtoul`, as far as it comes in `fuel` rounds. -/
def utilStrtoul (s : CString) (base : Base) (fuel : ℕ) : Option Outcome :=
  strtoulLoop s base fuel 0 0

/-! ### What is to be computed -/

/-- The digit that a character stands for. -/
def digitValue (c : UInt8) : Option ℕ :=
  if 48 ≤ c.toNat ∧ c.toNat ≤ 57 then
    some (c.toNat - 48)
  else if 65 ≤ c.toNat ∧ c.toNat ≤ 70 then
    some (c.toNat - 55)
  else if 97 ≤ c.toNat ∧ c.toNat ≤ 102 then
    some (c.toNat - 87)
  else
    none

/-- The digits of the longest prefix that consists of digits below the base. -/
def numeral (base : ℕ) : List UInt8 → List ℕ
  | [] => []
  | c :: cs =>
    match digitValue c with
    | some d => if d < base then d :: numeral base cs else []
    | none => []

/-- The number that this prefix denotes. -/
def value (base : ℕ) (cs : List UInt8) : ℕ :=
  Nat.ofDigits base (numeral base cs).reverse

/-- The call ends, with the value of the longest prefix of digits and `endptr` just past it,
or, when the value does not fit, with `endptr` set to `NULL`. It never reads behind the
terminating NUL. -/
def Correct (s : CString) (base : Base) : Prop :=
  (∀ fuel, utilStrtoul s base fuel ≠ some .outOfBounds)
    ∧ ∃ fuel ans endptr, utilStrtoul s base fuel = some (.returned ans endptr)
      ∧ (value base.val s.chars < 2 ^ 64 → ans.toNat = value base.val s.chars
          ∧ endptr = some (numeral base.val s.chars).length)
      ∧ (2 ^ 64 ≤ value base.val s.chars → endptr = none)

/-- The string does not begin with a digit, in any base, or it begins with a digit other than
zero and with a number that does not fit. -/
def BeginsWell (s : CString) (base : Base) : Prop :=
  s.chars.head?.bind digitValue = none
    ∨ (s.chars.head?.bind digitValue ≠ some 0 ∧ 2 ^ 64 ≤ value base.val s.chars)

variable {s : CString} {base : Base} {c : UInt8} {d fuel fuel' : ℕ} {ans : UInt64} {o o' : Outcome}

/-! ### Digits -/

theorem calcDigit_ofNat (n : Fin 256) :
  calcDigit (UInt8.ofNat n) = match digitValue (UInt8.ofNat n) with
    | some d => (d : ℤ)
    | none => if n = 45 then -1 else -2
  := by
  revert n
  decide +kernel

/-- The table gives a character the digit that it stands for. -/
theorem calcDigit_eq (h : digitValue c = some d) :
  calcDigit c = d
  := by
  have heq := calcDigit_ofNat ⟨c.toNat, c.toNat_lt⟩
  rw [UInt8.ofNat_toNat, h] at heq
  exact heq

theorem calcDigit_neg (h : digitValue c = none) :
  calcDigit c < 0
  := by
  have heq := calcDigit_ofNat ⟨c.toNat, c.toNat_lt⟩
  rw [UInt8.ofNat_toNat, h] at heq
  rw [heq]
  dsimp only
  split <;> decide

theorem digitValue_lt (h : digitValue c = some d) :
  d < 16
  := by
  rw [digitValue] at h
  split at h
  · cases h
    omega
  · split at h
    · cases h
      omega
    · split at h
      · cases h
        omega
      · cases h

theorem numeral_of_not_digit {cs : List UInt8} (h : cs.head?.bind digitValue = none) (b : ℕ) :
  numeral b cs = []
  := by
  cases cs with
  | nil => rfl
  | cons c cs =>
    have hc : digitValue c = none := h
    rw [numeral, hc]

/-! ### The loop -/

/-- The character under `str`. -/
def CString.first (s : CString) : UInt8 :=
  s.chars.headD 0

theorem read_zero (s : CString) :
  s.read 0 = some s.first
  := by
  rw [CString.read, CString.first]
  cases s.chars with
  | nil => rfl
  | cons c cs => rfl

/-- The NUL at the end is no digit. -/
theorem head?_bind_digitValue (s : CString) :
  s.chars.head?.bind digitValue = digitValue s.first
  := by
  rw [CString.first]
  cases s.chars with
  | nil => rfl
  | cons c cs => rfl

theorem first_ne_zero (h : digitValue s.first = some d) :
  s.first ≠ 0
  := by
  intro hzero
  rw [hzero] at h
  cases h

/-- One round, when the string begins with a digit. -/
theorem strtoulLoop_digit (h : digitValue s.first = some d) (fuel : ℕ) (ans : UInt64) :
  strtoulLoop s base (fuel + 1) 0 ans
    = if (ulongMax - UInt64.ofNat d) / UInt64.ofNat base.val < ans then
        some (.returned longMax none)
      else
        strtoulLoop s base fuel 0 (ans * UInt64.ofNat base.val + UInt64.ofNat d)
  := by
  rw [strtoulLoop, read_zero]
  dsimp only
  rw [if_neg (first_ne_zero h), calcDigit_eq h, if_neg (by omega), Int.toNat_natCast]

/-- One round, when the string does not begin with a digit. -/
theorem strtoulLoop_not_digit (h : digitValue s.first = none) (fuel : ℕ) (ans : UInt64) :
  strtoulLoop s base (fuel + 1) 0 ans = some (.returned ans (some 0))
  := by
  rw [strtoulLoop, read_zero]
  dsimp only
  split
  · rfl
  · rw [if_pos (calcDigit_neg h)]

/-- Only the first character is ever read. -/
theorem strtoulLoop_ne_outOfBounds (s : CString) (base : Base) (fuel : ℕ) (ans : UInt64) :
  strtoulLoop s base fuel 0 ans ≠ some .outOfBounds
  := by
  induction fuel generalizing ans with
  | zero => exact nofun
  | succ fuel ih =>
    cases h : digitValue s.first with
    | none =>
      rw [strtoulLoop_not_digit h]
      exact nofun
    | some d =>
      rw [strtoulLoop_digit h]
      split
      · exact nofun
      · apply ih

/-- More rounds do not change how a call ends. -/
theorem strtoulLoop_mono {str : ℕ} (h : strtoulLoop s base fuel str ans = some o)
    (hle : fuel ≤ fuel') :
  strtoulLoop s base fuel' str ans = some o
  := by
  induction fuel generalizing fuel' str ans with
  | zero => cases h
  | succ fuel ih =>
    obtain ⟨fuel', rfl⟩ := Nat.exists_eq_succ_of_ne_zero (show fuel' ≠ 0 by omega)
    rw [strtoulLoop] at h ⊢
    split
    · next hread =>
      rw [hread] at h
      exact h
    · next c hread =>
      rw [hread] at h
      dsimp only at h ⊢
      split
      · next hc => rwa [if_pos hc] at h
      · next hc =>
        rw [if_neg hc] at h
        split
        · next hd => rwa [if_pos hd] at h
        · next hd =>
          rw [if_neg hd] at h
          split
          · next hlt => rwa [if_pos hlt] at h
          · next hlt =>
            rw [if_neg hlt] at h
            exact ih h (Nat.le_of_succ_le_succ hle)

/-- A call ends in one way only. -/
theorem utilStrtoul_unique (h : utilStrtoul s base fuel = some o)
    (h' : utilStrtoul s base fuel' = some o') :
  o = o'
  := by
  have hmax := strtoulLoop_mono h (Nat.le_max_left fuel fuel')
  have hmax' := strtoulLoop_mono h' (Nat.le_max_right fuel fuel')
  exact Option.some.inj (hmax.symm.trans hmax')

/-- A string that begins with the digit zero keeps the loop going forever. -/
theorem utilStrtoul_zero (h : digitValue s.first = some 0) (fuel : ℕ) :
  utilStrtoul s base fuel = none
  := by
  rw [utilStrtoul]
  induction fuel with
  | zero => rfl
  | succ fuel ih =>
    have hzero : (0 : UInt64) * UInt64.ofNat base.val + UInt64.ofNat 0 = 0 := by simp
    rw [strtoulLoop_digit h, if_neg (UInt64.not_lt.mpr UInt64.zero_le), hzero]
    exact ih

theorem toNat_base (base : Base) :
  (UInt64.ofNat base.val).toNat = base.val
  := by
  have hle := base.le_sixteen
  rw [UInt64.toNat_ofNat']
  omega

/-- The test of the loop, in numbers. -/
theorem overflow_iff (hd : d < 16) :
  (ulongMax - UInt64.ofNat d) / UInt64.ofNat base.val < ans
    ↔ (2 ^ 64 - 1 - d) / base.val < ans.toNat
  := by
  have hdigit : (UInt64.ofNat d).toNat = d := by
    rw [UInt64.toNat_ofNat']
    omega
  have hmax : ulongMax.toNat = 2 ^ 64 - 1 := rfl
  have hle : UInt64.ofNat d ≤ ulongMax := by
    rw [UInt64.le_iff_toNat_le, hdigit, hmax]
    omega
  rw [UInt64.lt_iff_toNat_lt, UInt64.toNat_div, UInt64.toNat_sub_of_le _ _ hle, hdigit, hmax,
    toNat_base]

/-- While there is no overflow, the sum is not wrapped around. -/
theorem toNat_next (hd : d < 16)
    (h : ¬ (ulongMax - UInt64.ofNat d) / UInt64.ofNat base.val < ans) :
  (ans * UInt64.ofNat base.val + UInt64.ofNat d).toNat = ans.toNat * base.val + d
  := by
  have htwo := base.two_le
  have hdigit : (UInt64.ofNat d).toNat = d := by
    rw [UInt64.toNat_ofNat']
    omega
  have hle : ans.toNat * base.val ≤ 2 ^ 64 - 1 - d := by
    apply (Nat.le_div_iff_mul_le (by omega)).mp
    exact not_lt.mp (mt (overflow_iff hd).mpr h)
  rw [UInt64.toNat_add, UInt64.toNat_mul, toNat_base, hdigit,
    Nat.mod_eq_of_lt (show ans.toNat * base.val < 2 ^ 64 by omega), Nat.mod_eq_of_lt (by omega)]

/-- Any other digit makes the loop add it until the sum overflows. -/
theorem strtoulLoop_overflow (base : Base) (h : digitValue s.first = some d) (hd : d ≠ 0)
    (ans : UInt64) :
  ∃ fuel, strtoulLoop s base fuel 0 ans = some (.returned longMax none)
  := by
  have hlt := digitValue_lt h
  by_cases hover : (ulongMax - UInt64.ofNat d) / UInt64.ofNat base.val < ans
  · use 1
    rw [strtoulLoop_digit h, if_pos hover]
  · have hnext := toNat_next hlt hover
    have hmul : ans.toNat ≤ ans.toNat * base.val :=
      Nat.le_mul_of_pos_right _ (Nat.lt_of_lt_of_le Nat.two_pos base.two_le)
    have hbound := (ans * UInt64.ofNat base.val + UInt64.ofNat d).toNat_lt
    obtain ⟨fuel, hfuel⟩ :=
      strtoulLoop_overflow base h hd (ans * UInt64.ofNat base.val + UInt64.ofNat d)
    use fuel + 1
    rw [strtoulLoop_digit h, if_neg hover]
    exact hfuel
termination_by 2 ^ 64 - ans.toNat
decreasing_by omega

/-- `util_strtoul` ends with the right result exactly when the string does not begin with a
digit, in any base, or begins with a digit other than zero and with a number that does not
fit. -/
theorem utilStrtoul_correct_iff (s : CString) (base : Base) :
  Correct s base ↔ BeginsWell s base
  := by
  rw [BeginsWell, head?_bind_digitValue]
  have hbounds : ∀ fuel, utilStrtoul s base fuel ≠ some .outOfBounds :=
    fun fuel => strtoulLoop_ne_outOfBounds s base fuel 0
  cases h : digitValue s.first with
  | none =>
    have hnil := numeral_of_not_digit ((head?_bind_digitValue s).trans h) base.val
    have hzero : value base.val s.chars = 0 := by
      rw [value, hnil]
      rfl
    apply iff_of_true _ (Or.inl rfl)
    refine ⟨hbounds, 1, 0, some 0, strtoulLoop_not_digit h 0 0, ?_, ?_⟩
    · intro _
      rw [hzero, hnil]
      exact ⟨rfl, rfl⟩
    · intro hle
      rw [hzero] at hle
      cases hle
  | some d =>
    constructor
    · rintro ⟨-, fuel, ans, endptr, hret, hfits, -⟩
      right
      constructor
      · intro hd
        rw [Option.some.injEq] at hd
        rw [utilStrtoul_zero (hd ▸ h)] at hret
        cases hret
      · by_contra hlt
        have hd : d ≠ 0 := by
          rintro rfl
          rw [utilStrtoul_zero h] at hret
          cases hret
        obtain ⟨fuel', hover⟩ := strtoulLoop_overflow base h hd 0
        obtain ⟨rfl, rfl⟩ := Outcome.returned.inj (utilStrtoul_unique hret hover)
        cases (hfits (not_le.mp hlt)).2
    · rintro (hnone | ⟨hd, hle⟩)
      · cases hnone
      · use hbounds
        have hne : d ≠ 0 := by
          rintro rfl
          exact hd rfl
        obtain ⟨fuel, hover⟩ := strtoulLoop_overflow base h hne 0
        refine ⟨fuel, longMax, none, hover, ?_, fun _ => rfl⟩
        intro hlt
        exact absurd hle (not_le.mpr hlt)

/-- The string `12`. -/
def twelve : CString where
  chars := [49, 50]
  not_mem := by decide

/-- The base ten. -/
def ten : Base where
  val := 10
  two_le := by decide
  le_sixteen := by decide

/-- The call on `12` does not return twelve: it reports an overflow. -/
theorem twelve_not_correct :
  value ten.val twelve.chars = 12
    ∧ utilStrtoul twelve ten 25 = some (.returned longMax none)
    ∧ ¬ Correct twelve ten
  := by
  have hvalue : value ten.val twelve.chars = 12 := by decide
  have hrun : utilStrtoul twelve ten 25 = some (.returned longMax none) := by rfl
  refine ⟨hvalue, hrun, ?_⟩
  rintro ⟨-, fuel, ans, endptr, hret, hfits, -⟩
  obtain ⟨rfl, rfl⟩ := Outcome.returned.inj (utilStrtoul_unique hret hrun)
  have hlt : value ten.val twelve.chars < 2 ^ 64 := by
    rw [hvalue]
    decide
  cases (hfits hlt).2

end Strtoul
