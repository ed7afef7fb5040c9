import Mathlib.Order.Monotone.Basic
import Mathlib.Data.List.Pairwise
import Mathlib.Algebra.Group.Nat.Defs

/-!
# Reading the system timer

The counter of the system timer has 64 bits and runs freely. Programs see it as two
registers of 32 bits, `clock_lo` and `clock_hi`, that are read one after the other, and the
counter may advance by any amount in between: `get_current_time_u64` of `timer.h` and
`cur_u64` of `rpi.rs` both read the low register first.

A read of the time is *torn* when it is not between the values of the counter at the
beginning and at the end of the call. It is never too early. It is too late when the low
word wraps around between the two reads, unless the call goes on for a whole period of the low
word for each time it does.
-/

namespace Timer

/-- The values of the counter at successive instants. -/
structure Counter where
  value : ℕ → UInt64
  mono : Monotone fun t => (value t).toNat

/-- The register `clock_lo`, or `CLO`. -/
def Counter.clockLo (c : Counter) (t : ℕ) : UInt32 :=
  (c.value t).toUInt32

/-- The register `clock_hi`, or `CHI`. -/
def Counter.clockHi (c : Counter) (t : ℕ) : UInt32 :=
  (c.value t >>> 32).toUInt32

/-- `get_current_time_u64`, with the instants at which it reads the two registers. -/
def getCurrentTimeU64 (c : Counter) (tLo tHi : ℕ) : UInt64 :=
  let curTime := (c.clockLo tLo).toUInt64
  curTime ||| ((c.clockHi tHi).toUInt64 <<< 32)

/-- `RpiClock::cur_u64`, with the instants at which it reads the two registers. -/
def curU64 (c : Counter) (tLo tHi : ℕ) : UInt64 :=
  let clo := c.clockLo tLo
  let chi := c.clockHi tHi
  (chi.toUInt64 <<< 32) ||| clo.toUInt64

/-- The two parties that read the time: the kernel, and the clock server, which also takes
its start time this way. -/
inductive Reader
  | kernel
  | clockServer

/-- The function that the party calls. -/
def Reader.read : Reader → Counter → ℕ → ℕ → UInt64
  | .kernel => getCurrentTimeU64
  | .clockServer => curU64

/-- A call: who makes it, and the instants at which it begins, reads the two registers, and
ends. -/
structure Call where
  reader : Reader
  start : ℕ
  tLo : ℕ
  tHi : ℕ
  stop : ℕ
  start_le : start ≤ tLo
  tLo_le : tLo ≤ tHi
  tHi_le : tHi ≤ stop

/-- What the call returns. -/
def Call.result (k : Call) (c : Counter) : UInt64 :=
  k.reader.read c k.tLo k.tHi

/-- The call returns a time between its beginning and its end. -/
def NotTorn (c : Counter) (k : Call) : Prop :=
  c.value k.start ≤ k.result c ∧ k.result c ≤ c.value k.stop

/-- How far the counter runs from the one instant to the other. -/
def Counter.ticks (c : Counter) (t t' : ℕ) : ℕ :=
  (c.value t').toNat - (c.value t).toNat

/-- How often the low word wraps around from the one instant to the other. -/
def Counter.wraps (c : Counter) (t t' : ℕ) : ℕ :=
  (c.value t').toNat / 2 ^ 32 - (c.value t).toNat / 2 ^ 32

/-- For each time that the low word wraps around between the two reads, the call goes on for a
whole period of the low word. -/
def Outlasts (c : Counter) (k : Call) : Prop :=
  c.wraps k.tLo k.tHi * 2 ^ 32 ≤ c.ticks k.tLo k.stop

/-- The one call ends before the other one begins. -/
def Call.Before (k k' : Call) : Prop :=
  k.stop ≤ k'.start

variable {c : Counter} {k k' : Call} {t t' tLo tHi : ℕ}

/-! ### The two words -/

@[simp]
theorem toNat_clockLo (c : Counter) (t : ℕ) :
  (c.clockLo t).toNat = (c.value t).toNat % 2 ^ 32
  := by
  rw [Counter.clockLo, UInt64.toNat_toUInt32]

@[simp]
theorem toNat_clockHi (c : Counter) (t : ℕ) :
  (c.clockHi t).toNat = (c.value t).toNat / 2 ^ 32
  := by
  have hlt := (c.value t).toNat_lt
  rw [Counter.clockHi, UInt64.toNat_toUInt32, UInt64.toNat_shiftRight]
  have hshift : (32 : UInt64).toNat % 64 = 32 := rfl
  rw [hshift, Nat.shiftRight_eq_div_pow]
  omega

theorem curU64_eq (c : Counter) (tLo tHi : ℕ) :
  curU64 c tLo tHi = getCurrentTimeU64 c tLo tHi
  := by
  rw [curU64, getCurrentTimeU64]
  apply UInt64.or_comm

/-- The high word of the one instant and the low word of the other. -/
theorem toNat_getCurrentTimeU64 (c : Counter) (tLo tHi : ℕ) :
  (getCurrentTimeU64 c tLo tHi).toNat
    = (c.value tHi).toNat / 2 ^ 32 * 2 ^ 32 + (c.value tLo).toNat % 2 ^ 32
  := by
  have hlt := (c.value tHi).toNat_lt
  have hlo : (c.value tLo).toNat % 2 ^ 32 < 2 ^ 32 := Nat.mod_lt _ (Nat.two_pow_pos 32)
  have hshift : (32 : UInt64).toNat % 64 = 32 := rfl
  rw [getCurrentTimeU64, UInt64.toNat_or, UInt64.toNat_shiftLeft, UInt32.toNat_toUInt64,
    UInt32.toNat_toUInt64, toNat_clockLo, toNat_clockHi, hshift, Nat.or_comm, Nat.mod_eq_of_lt,
    ← Nat.shiftLeft_add_eq_or_of_lt hlo, Nat.shiftLeft_eq]
  rw [Nat.shiftLeft_eq]
  omega

theorem toNat_result (c : Counter) (k : Call) :
  (k.result c).toNat
    = (c.value k.tHi).toNat / 2 ^ 32 * 2 ^ 32 + (c.value k.tLo).toNat % 2 ^ 32
  := by
  rw [Call.result]
  cases k.reader with
  | kernel => apply toNat_getCurrentTimeU64
  | clockServer =>
    rw [Reader.read, curU64_eq]
    apply toNat_getCurrentTimeU64

/-! ### Torn reads -/

theorem toNat_mono (c : Counter) (h : t ≤ t') :
  (c.value t).toNat ≤ (c.value t').toNat
  := c.mono h

/-- A read is never too early. -/
theorem start_le_result (c : Counter) (k : Call) :
  c.value k.start ≤ k.result c
  := by
  rw [UInt64.le_iff_toNat_le, toNat_result]
  have hstart := toNat_mono c k.start_le
  have hword := Nat.div_le_div_right (c := 2 ^ 32) (toNat_mono c k.tLo_le)
  omega

/-- The time that is read is ahead of the low register by a period for each wrap. -/
theorem toNat_result_wraps (c : Counter) (k : Call) :
  (k.result c).toNat = (c.value k.tLo).toNat + c.wraps k.tLo k.tHi * 2 ^ 32
  := by
  rw [toNat_result, Counter.wraps]
  have hword := Nat.div_le_div_right (c := 2 ^ 32) (toNat_mono c k.tLo_le)
  omega

theorem notTorn_iff :
  NotTorn c k ↔ Outlasts c k
  := by
  have hstop := toNat_mono c (k.tLo_le.trans k.tHi_le)
  rw [NotTorn, and_iff_right (start_le_result c k), UInt64.le_iff_toNat_le, toNat_result_wraps,
    Outlasts, Counter.ticks]
  omega

/-- A call that is shorter than a period of the low word outlasts no wrap. -/
theorem outlasts_iff_of_short (h : c.ticks k.tLo k.stop < 2 ^ 32) :
  Outlasts c k ↔ c.wraps k.tLo k.tHi = 0
  := by
  rw [Outlasts]
  omega

/-- After a call that is not torn, time does not go back. -/
theorem NotTorn.result_le (h : NotTorn c k) (hk : k.Before k') :
  k.result c ≤ k'.result c
  := by
  apply UInt64.le_trans h.2
  apply UInt64.le_trans _ (start_le_result c k')
  exact UInt64.le_iff_toNat_le.mpr (toNat_mono c hk)

/-- The times are not torn, they ascend, and the time elapsed between two calls is computed
without wrapping around. -/
structure Right (c : Counter) (calls : List Call) : Prop where
  notTorn : ∀ k ∈ calls, NotTorn c k
  ascend : calls.Pairwise fun k k' => k.result c ≤ k'.result c
  elapsed : calls.Pairwise fun k k' =>
    (k'.result c - k.result c).toNat = (k'.result c).toNat - (k.result c).toNat

/-- The times that the calls return, each made by the kernel or by the clock server, are right
exactly when each call outlasts the wraps of the low word between its two reads. For calls that
are shorter than a period of the low word, this is when the low word does not wrap around
between the two reads. -/
theorem reads_not_torn_iff (c : Counter) (calls : List Call)
    (h : calls.Pairwise Call.Before) :
  (Right c calls ↔ ∀ k ∈ calls, Outlasts c k)
    ∧ ((∀ k ∈ calls, c.ticks k.tLo k.stop < 2 ^ 32) →
      (Right c calls ↔ ∀ k ∈ calls, c.wraps k.tLo k.tHi = 0))
  := by
  have hiff : Right c calls ↔ ∀ k ∈ calls, Outlasts c k := by
    constructor
    · exact fun hright k hk => notTorn_iff.mp (hright.notTorn k hk)
    · intro hcalls
      have hle : calls.Pairwise fun k k' => k.result c ≤ k'.result c := by
        apply h.imp_of_mem
        intro k k' hk _ hbefore
        exact (notTorn_iff.mpr (hcalls k hk)).result_le hbefore
      constructor
      · exact fun k hk => notTorn_iff.mpr (hcalls k hk)
      · exact hle
      · exact hle.imp fun hle => UInt64.toNat_sub_of_le _ _ hle
  constructor
  · exact hiff
  · intro hshort
    rw [hiff]
    exact forall₂_congr fun k hk => outlasts_iff_of_short (hshort k hk)

/-- A counter that wraps its low word after the first instant. -/
def carryCounter : Counter where
  value t := if t = 0 then 0xFFFFFFFF else if t = 1 then 0x100000000 else 0x100000001
  mono := by
    apply monotone_nat_of_le_succ
    intro t
    rcases t with _ | _ | t
    · decide
    · decide
    · rfl

/-- A call that reads both registers at one instant. -/
def calmCall (reader : Reader) (t : ℕ) : Call where
  reader := reader
  start := t
  tLo := t
  tHi := t
  stop := t + 1
  start_le := Nat.le_refl t
  tLo_le := Nat.le_refl t
  tHi_le := Nat.le_succ t

/-- A call that reads both registers after the wrap. -/
def laterCall (reader : Reader) : Call where
  reader := reader
  start := 2
  tLo := 2
  tHi := 3
  stop := 3
  start_le := Nat.le_refl 2
  tLo_le := Nat.le_succ 2
  tHi_le := Nat.le_refl 3

/-- The kernel reads the time before the wrap, the clock server behind it, and the kernel once
more. -/
theorem reads_not_torn_calm :
  Right carryCounter [calmCall .kernel 0, calmCall .clockServer 1, laterCall .kernel]
    ∧ [calmCall .kernel 0, calmCall .clockServer 1, laterCall .kernel].map
        (Call.result · carryCounter) = [0xFFFFFFFF, 0x100000000, 0x100000001]
  := by
  have hbefore : [calmCall .kernel 0, calmCall .clockServer 1, laterCall .kernel].Pairwise
      Call.Before := by
    simp [Call.Before, calmCall, laterCall]
  refine ⟨((reads_not_torn_iff carryCounter _ hbefore).2 ?_).mpr ?_, by decide⟩
  · simp only [List.forall_mem_cons]
    decide
  · simp only [List.forall_mem_cons]
    decide

/-- A call that reads the two registers around the wrap of the low word. -/
def carryCall (reader : Reader) : Call where
  reader := reader
  start := 0
  tLo := 0
  tHi := 1
  stop := 1
  start_le := Nat.le_refl 0
  tLo_le := Nat.zero_le 1
  tHi_le := Nat.le_refl 1

/-- Around the wrap both functions return a time more than an hour ahead, and the next call
returns an earlier time. -/
theorem torn_read :
  (¬ NotTorn carryCounter (carryCall .kernel) ∧ ¬ NotTorn carryCounter (carryCall .clockServer))
    ∧ (carryCall .kernel).result carryCounter = 0x1FFFFFFFF
    ∧ (carryCall .clockServer).result carryCounter = 0x1FFFFFFFF
    ∧ (laterCall .kernel).result carryCounter < (carryCall .kernel).result carryCounter
    ∧ (laterCall .clockServer).result carryCounter < (carryCall .clockServer).result carryCounter
  := by
  have hkernel : (carryCall .kernel).result carryCounter = 0x1FFFFFFFF := by decide
  have hserver : (carryCall .clockServer).result carryCounter = 0x1FFFFFFFF := by decide
  refine ⟨⟨?_, ?_⟩, hkernel, hserver, ?_, ?_⟩
  · rintro ⟨-, hle⟩
    rw [hkernel] at hle
    exact absurd hle (by decide)
  · rintro ⟨-, hle⟩
    rw [hserver] at hle
    exact absurd hle (by decide)
  · decide
  · decide

end Timer
