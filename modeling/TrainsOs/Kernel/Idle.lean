import TrainsOs.Lib.Run
import Mathlib.Algebra.Order.Group.Nat
import Mathlib.Algebra.GroupWithZero.Nat

/-!
# The time spent idle

`k_loop` of `loop.c` adds up in `idle_duration` for how long the idle task runs, and
`ke_sys_health` of `syscall_handler.c` reports the sum, relative to the time that has passed
since the previous report, and starts again. `k_gs_init` starts for the first time.

A run is a sequence of rounds of the loop. In each round the scheduler has found a task, or
it has found none and the idle task runs, until there is an exception. The clock is read at
times that ascend. Besides the fields of the kernel a state records the time of the previous
report and the slices of the idle task that have been completed since then. A report is right
when its time is later than that of the previous report and the sum, multiplied by ten
thousand, fits in 64 bits.
-/

namespace Idle

/-- A task: the idle task, or another one with its identifier. -/
inductive Td
  | idle
  | user (tid : ℕ)

/-- What can bring a user task back into the kernel: an interrupt, `ke_exit`, `ke_sys_health`
at the time that it reads off the clock, or another system call. -/
inductive Trap
  | interrupt
  | exit
  | sysHealth (curtime : UInt64)
  | syscall

/-- A round of `k_loop`: the scheduler has no task, and the clock is read at `ts`, before the
idle task runs, and at `stop`, when an interrupt has ended its `wfi`, or the scheduler has a
task, and the task comes back. -/
inductive Round
  | idle (ts stop : UInt64)
  | user (tid : ℕ) (trap : Trap)

/-- The fields of `struct kGlobalState` that keep the time, the local variable `idle_ts` of
`k_loop`, `kg_current_td`, and what the last report has stored in `idle_percent`. Recorded
besides are the latest time that the clock has shown, the time of the previous report, and
the slices of the idle task since then. -/
structure State where
  idleTrackStartTime : UInt64
  idleDuration : UInt64
  idleTs : UInt64
  current : Option Td
  idlePercent : Option ℤ
  now : UInt64
  since : ℕ
  slices : List (ℕ × ℕ)

/-- The start: `k_gs_init` and the beginning of `k_loop`, with the times that they read. -/
def start (tInit tLoop : UInt64) : State where
  idleTrackStartTime := tInit
  idleDuration := 0
  idleTs := tLoop
  current := none
  idlePercent := none
  now := tLoop
  since := tInit.toNat
  slices := []

/-- The conversion to `int`. -/
def toInt (x : UInt64) : ℤ :=
  Int.bmod x.toNat (2 ^ 32)

/-- `k_sys_health`; the result is `none` when it divides by zero. -/
def kSysHealth (s : State) (curtime : UInt64) : Option State :=
  let elapsed := curtime - s.idleTrackStartTime
  if elapsed = 0 then
    none
  else
    some { s with
      idlePercent := some (toInt (s.idleDuration * 100 * 100 / elapsed))
      idleDuration := 0
      idleTrackStartTime := curtime
      now := curtime
      since := curtime.toNat
      slices := [] }

/-- What the handler of an exception does. -/
def handleTrap (s : State) : Trap → Option State
  | .interrupt => some s
  | .exit => some { s with current := none }
  | .sysHealth curtime => kSysHealth s curtime
  | .syscall => some s

/-- The end of a round, where the clock shows `stop` if it is read. -/
def bookkeep (s : State) (stop : UInt64) : State :=
  match s.current with
  | some .idle => { s with
      idleDuration := s.idleDuration + (stop - s.idleTs)
      now := stop
      slices := s.slices ++ [(s.idleTs.toNat, stop.toNat)] }
  | _ => s

/-- A round of `k_loop`. -/
def kLoopRound (s : State) : Round → Option State
  | .idle ts stop => some (bookkeep { s with idleTs := ts, current := some .idle } stop)
  | .user tid trap =>
    (handleTrap { s with current := some (.user tid) } trap).map fun s => bookkeep s s.now

/-- The clock does not go back. -/
def Ascends (s : State) : Round → Prop
  | .idle ts stop => s.now ≤ ts ∧ ts ≤ stop
  | .user _ (.sysHealth curtime) => s.now ≤ curtime
  | .user _ _ => True

instance (s : State) (r : Round) : Decidable (Ascends s r) :=
  match r with
  | .idle _ _ => inferInstanceAs (Decidable (_ ∧ _))
  | .user _ (.sysHealth _) => inferInstanceAs (Decidable (_ ≤ _))
  | .user _ .interrupt => isTrue trivial
  | .user _ .exit => isTrue trivial
  | .user _ .syscall => isTrue trivial

/-- The time in the slices. -/
def total (slices : List (ℕ × ℕ)) : ℕ :=
  (slices.map fun slice => slice.2 - slice.1).sum

/-- A report does not divide by zero, and it reports a number between `0` and `10000`, the
fraction of the time since the previous report that was spent in slices of the idle task,
times ten thousand and rounded down. -/
def Right (s : State) : Round → Prop
  | .user tid (.sysHealth curtime) => ∃ s' p,
      kLoopRound s (.user tid (.sysHealth curtime)) = some s' ∧ s'.idlePercent = some p
        ∧ 0 ≤ p ∧ p ≤ 10000 ∧ s.since < curtime.toNat
        ∧ p = ((10000 * total s.slices / (curtime.toNat - s.since) : ℕ) : ℤ)
  | _ => True

/-- A report is made at a later time than the previous one, and before the idle time gets too
long for the multiplication. -/
def Reportable (s : State) : Round → Prop
  | .user _ (.sysHealth curtime) =>
      s.idleTrackStartTime < curtime ∧ s.idleDuration.toNat * 10000 < 2 ^ 64
  | _ => True

/-- What holds of every state: the fields are what is recorded, and the slices fit into the
time since the previous report. -/
structure Inv (s : State) : Prop where
  since : s.idleTrackStartTime.toNat = s.since
  duration : s.idleDuration.toNat = total s.slices
  within : s.since + total s.slices ≤ s.now.toNat

variable {s s' : State} {r : Round} {ts stop curtime : UInt64} {tid : ℕ}

theorem inv_start {tInit tLoop : UInt64} (h : tInit ≤ tLoop) :
  Inv (start tInit tLoop)
  := by
  constructor
  · rfl
  · rfl
  · exact UInt64.le_iff_toNat_le.mp h

theorem total_append (slices : List (ℕ × ℕ)) (slice : ℕ × ℕ) :
  total (slices ++ [slice]) = total slices + (slice.2 - slice.1)
  := by simp [total]

/-- A slice of the idle task is added up without wrapping around. -/
theorem Inv.idle (h : Inv s) (hts : s.now ≤ ts) (hstop : ts ≤ stop) :
  ∃ s', kLoopRound s (.idle ts stop) = some s' ∧ Inv s'
  := by
  have hwithin := h.within
  have hlt := stop.toNat_lt
  have hdiff := UInt64.toNat_sub_of_le _ _ hstop
  rw [UInt64.le_iff_toNat_le] at hts hstop
  refine ⟨_, rfl, h.since, ?_, ?_⟩
  · change (s.idleDuration + (stop - ts)).toNat = total (s.slices ++ [(ts.toNat, stop.toNat)])
    rw [total_append, UInt64.toNat_add, hdiff, h.duration]
    dsimp only
    omega
  · change s.since + total (s.slices ++ [(ts.toNat, stop.toNat)]) ≤ stop.toNat
    rw [total_append]
    dsimp only
    omega

/-- The state after a report. -/
def reported (s : State) (tid : ℕ) (curtime : UInt64) : State :=
  { s with
    current := some (.user tid)
    idlePercent := some (toInt (s.idleDuration * 100 * 100 / (curtime - s.idleTrackStartTime)))
    idleDuration := 0
    idleTrackStartTime := curtime
    now := curtime
    since := curtime.toNat
    slices := [] }

theorem sysHealth_of_zero (h : curtime - s.idleTrackStartTime = 0) :
  kLoopRound s (.user tid (.sysHealth curtime)) = none
  := by
  rw [kLoopRound, handleTrap, kSysHealth]
  dsimp only
  rw [if_pos h]
  rfl

theorem sysHealth_of_ne (h : curtime - s.idleTrackStartTime ≠ 0) :
  kLoopRound s (.user tid (.sysHealth curtime)) = some (reported s tid curtime)
  := by
  rw [kLoopRound, handleTrap, kSysHealth]
  dsimp only
  rw [if_neg h]
  rfl

theorem inv_reported (s : State) (tid : ℕ) (curtime : UInt64) :
  Inv (reported s tid curtime)
  := by
  constructor
  · rfl
  · rfl
  · exact Nat.le_refl _

/-- A round that does not fail keeps the invariant. -/
theorem Inv.step (h : Inv s) (hr : Ascends s r) (hstep : kLoopRound s r = some s') :
  Inv s'
  := by
  cases r with
  | idle ts stop =>
    obtain ⟨t, ht, hinv⟩ := h.idle hr.1 hr.2
    obtain rfl := Option.some.inj (hstep.symm.trans ht)
    exact hinv
  | user tid trap =>
    cases trap with
    | interrupt =>
      obtain rfl := Option.some.inj hstep
      exact ⟨h.since, h.duration, h.within⟩
    | exit =>
      obtain rfl := Option.some.inj hstep
      exact ⟨h.since, h.duration, h.within⟩
    | sysHealth curtime =>
      by_cases hzero : curtime - s.idleTrackStartTime = 0
      · rw [sysHealth_of_zero hzero] at hstep
        cases hstep
      · rw [sysHealth_of_ne hzero] at hstep
        obtain rfl := Option.some.inj hstep
        apply inv_reported
    | syscall =>
      obtain rfl := Option.some.inj hstep
      exact ⟨h.since, h.duration, h.within⟩

/-! ### Reports -/

/-- A small number is not changed by the conversion to `int`. -/
theorem toInt_of_le {x : UInt64} (h : x.toNat ≤ 10000) :
  toInt x = x.toNat
  := by
  unfold toInt
  apply Int.bmod_eq_of_le <;> omega

theorem toNat_mul_tenThousand (d : UInt64) :
  (d * 100 * 100).toNat = d.toNat * 10000 % 2 ^ 64
  := by
  have hhundred : (100 : UInt64).toNat = 100 := rfl
  rw [UInt64.toNat_mul, UInt64.toNat_mul, hhundred]
  omega

/-- A part of a time, times ten thousand, divided by the time. -/
theorem div_le_tenThousand {part whole : ℕ} (h : part ≤ whole) :
  10000 * part / whole ≤ 10000
  := by
  apply Nat.div_le_of_le_mul
  omega

/-- When the product wraps around, the quotient gets too small. -/
theorem mod_div_lt {x w : ℕ} (hx : 2 ^ 64 ≤ x) (hw : 0 < w) (hlt : w < 2 ^ 64) :
  x % 2 ^ 64 / w < x / w
  := by
  have hsub : x % 2 ^ 64 + w ≤ x := by omega
  calc x % 2 ^ 64 / w < x % 2 ^ 64 / w + 1 := Nat.lt_succ_self _
    _ = (x % 2 ^ 64 + w) / w := (Nat.add_div_right _ hw).symm
    _ ≤ x / w := Nat.div_le_div_right hsub

/-- What is reported, when the time is later than that of the previous report. -/
theorem Inv.idlePercent (h : Inv s) (hlt : s.idleTrackStartTime < curtime)
    (hnow : s.now ≤ curtime) :
  curtime - s.idleTrackStartTime ≠ 0
    ∧ total s.slices ≤ curtime.toNat - s.since
    ∧ (s.idleDuration * 100 * 100 / (curtime - s.idleTrackStartTime)).toNat
      = 10000 * total s.slices % 2 ^ 64 / (curtime.toNat - s.since)
  := by
  have hwithin := h.within
  have hdiff := UInt64.toNat_sub_of_le _ _ (UInt64.le_of_lt hlt)
  rw [UInt64.lt_iff_toNat_lt, h.since] at hlt
  rw [UInt64.le_iff_toNat_le] at hnow
  rw [h.since] at hdiff
  refine ⟨?_, ?_, ?_⟩
  · intro hzero
    rw [hzero] at hdiff
    change 0 = _ at hdiff
    omega
  · omega
  · rw [UInt64.toNat_div, toNat_mul_tenThousand, hdiff, h.duration, Nat.mul_comm]

/-- The report is right when it can be made. -/
theorem Inv.right_of_reportable (h : Inv s) (hr : Ascends s r) (hrep : Reportable s r) :
  Right s r
  := by
  match r, hr, hrep with
  | .idle _ _, _, _ => trivial
  | .user _ .interrupt, _, _ => trivial
  | .user _ .exit, _, _ => trivial
  | .user _ .syscall, _, _ => trivial
  | .user tid (.sysHealth curtime), hr, hrep =>
    obtain ⟨hlt, hfits⟩ := hrep
    obtain ⟨hne, hle, hval⟩ := h.idlePercent hlt hr
    rw [h.duration, Nat.mul_comm] at hfits
    rw [Nat.mod_eq_of_lt hfits] at hval
    have hbound := div_le_tenThousand hle
    have hint := toInt_of_le (hval.trans_le hbound)
    rw [hval] at hint
    refine ⟨_, _, sysHealth_of_ne hne, rfl, ?_, ?_, ?_, hint⟩
    · rw [hint]
      exact Int.natCast_nonneg _
    · rw [hint]
      exact Int.ofNat_le.mpr hbound
    · rwa [UInt64.lt_iff_toNat_lt, h.since] at hlt

/-- A report that is right could be made. -/
theorem Inv.reportable_of_right (h : Inv s) (hr : Ascends s r) (hright : Right s r) :
  Reportable s r
  := by
  match r, hr, hright with
  | .idle _ _, _, _ => trivial
  | .user _ .interrupt, _, _ => trivial
  | .user _ .exit, _, _ => trivial
  | .user _ .syscall, _, _ => trivial
  | .user tid (.sysHealth curtime), hr, hright =>
    obtain ⟨s', p, hstep, hp, -, -, hsince, heq⟩ := hright
    have hlt : s.idleTrackStartTime < curtime := by
      rwa [UInt64.lt_iff_toNat_lt, h.since]
    obtain ⟨hne, hle, hval⟩ := h.idlePercent hlt hr
    use hlt
    by_contra hwrap
    rw [h.duration, Nat.mul_comm, not_lt] at hwrap
    have hless : 10000 * total s.slices % 2 ^ 64 / (curtime.toNat - s.since)
        < 10000 * total s.slices / (curtime.toNat - s.since) := by
      apply mod_div_lt hwrap
      · omega
      · have hbound := curtime.toNat_lt
        omega
    rw [sysHealth_of_ne hne] at hstep
    obtain rfl := Option.some.inj hstep
    have hp := Option.some.inj hp
    have hbound := div_le_tenThousand hle
    rw [heq, toInt_of_le (by omega), hval] at hp
    omega

theorem Inv.right_iff (h : Inv s) (hr : Ascends s r) :
  Right s r ↔ Reportable s r
  := by
  constructor
  · exact h.reportable_of_right hr
  · exact h.right_of_reportable hr

/-- A round whose report can be made does not fail. -/
theorem Inv.exists_step (h : Inv s) (hr : Ascends s r) (hrep : Reportable s r) :
  ∃ s', kLoopRound s r = some s' ∧ Inv s'
  := by
  match r, hr, hrep with
  | .idle _ _, hr, _ => exact h.idle hr.1 hr.2
  | .user _ .interrupt, hr, _ => exact ⟨_, rfl, h.step hr rfl⟩
  | .user _ .exit, hr, _ => exact ⟨_, rfl, h.step hr rfl⟩
  | .user _ .syscall, hr, _ => exact ⟨_, rfl, h.step hr rfl⟩
  | .user tid (.sysHealth curtime), hr, hrep =>
    have hstep : kLoopRound s (.user tid (.sysHealth curtime)) = some (reported s tid curtime) :=
      sysHealth_of_ne (h.idlePercent hrep.1 hr).1
    exact ⟨_, hstep, h.step hr hstep⟩

/-- In every run the reports are right exactly when each is made at a later time than the
previous one, and before the idle time gets too long for the multiplication; and then nothing
in the run divides by zero. -/
theorem idle_percent_right_iff (tInit tLoop : UInt64) (rounds : List Round) (h : tInit ≤ tLoop)
    (hclock : Run.Meets kLoopRound Ascends (start tInit tLoop) rounds) :
  (Run.Meets kLoopRound Right (start tInit tLoop) rounds
      ↔ Run.Meets kLoopRound Reportable (start tInit tLoop) rounds)
    ∧ (Run.Meets kLoopRound Reportable (start tInit tLoop) rounds →
      ∃ s, Run.run kLoopRound (start tInit tLoop) rounds = some s)
  := by
  have hinv := inv_start h
  constructor
  · exact hclock.iff_of_invariant (fun s r hs hr => hs.right_iff hr)
      (fun s r s' hs hr hstep => hs.step hr hstep) hinv
  · intro hrep
    obtain ⟨s, hrun, -⟩ := Run.run_invariant
      (fun s r hs hr => hs.exists_step hr.1 hr.2) hinv (hclock.and hrep)
    exact ⟨s, hrun⟩

/-- Two reports at the same time. -/
def twice : List Round :=
  [.idle 10 30, .user 1 (.sysHealth 40), .user 1 (.sysHealth 40)]

/-- The second one of two reports at the same time divides by zero. -/
theorem same_time_divides_by_zero :
  Run.Meets kLoopRound Ascends (start 0 0) twice
    ∧ Run.run kLoopRound (start 0 0) twice = none
    ∧ ¬ Run.Meets kLoopRound Right (start 0 0) twice
  := by
  have hclock : Run.Meets kLoopRound Ascends (start 0 0) twice :=
    Run.meets_of_allOk (fun s r => of_decide_eq_true) (by decide)
  refine ⟨hclock, rfl, ?_⟩
  rintro ⟨-, hright⟩
  obtain ⟨-, hright⟩ := hright _ rfl
  obtain ⟨⟨s', p, hstep, -⟩, -⟩ := hright _ rfl
  cases hstep

/-- A run with one report. -/
theorem idle_percent_right_once :
  Run.Meets kLoopRound Right (start 0 0) [.idle 10 30, .user 1 (.sysHealth 40)]
    ↔ Run.Meets kLoopRound Reportable (start 0 0) [.idle 10 30, .user 1 (.sysHealth 40)]
  := (idle_percent_right_iff 0 0 _ (by decide)
    (Run.meets_of_allOk (fun s r => of_decide_eq_true) (by decide))).1

end Idle
