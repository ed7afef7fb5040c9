import TrainsOs.Kernel.Freed
import TrainsOs.Kernel.Idle

/-!
# The clock in the loop

The kernel with the clock that `k_loop` and `k_sys_health` read. An iteration of the loop,
from one call of `k_sched_get_next` to the next one, is a round of `Idle`, whichever task it
runs and whatever this one does. So what is proved of the reports there holds of the reports
of the kernel.
-/

namespace Idle

/-- A round does not depend on what the current task was before it. -/
theorem kLoopRound_current (s : State) (current : Option Td) (r : Round) :
  kLoopRound { s with current := current } r = kLoopRound s r
  := by
  cases r with
  | idle ts stop => rfl
  | user tid trap => cases trap <;> rfl

/-- The end of a round adds nothing up when it was not the idle task that ran. -/
theorem bookkeep_of_ne {s : State} (h : s.current ≠ some .idle) (stop : UInt64) :
  bookkeep s stop = s
  := by
  rw [bookkeep]
  cases hcurrent : s.current with
  | none => rfl
  | some td =>
    cases td with
    | idle => exact absurd hcurrent h
    | user tid => rfl

theorem kLoopRound_user (s : State) (tid : ℕ) (trap : Trap) :
  kLoopRound s (.user tid trap) = handleTrap { s with current := some (.user tid) } trap
  := by
  cases trap with
  | sysHealth curtime =>
    rw [kLoopRound, handleTrap, kSysHealth]
    dsimp only
    split
    · rfl
    · rfl
  | _ => rfl

theorem run_setCurrent {s t : State} {current : Option Td} {rounds : List Round}
    (hrun : Run.run kLoopRound { s with current := current } rounds = some t) :
  ∃ t', Run.run kLoopRound s rounds = some t' ∧ t = { t' with current := t.current }
  := by
  cases rounds with
  | nil =>
    obtain rfl := Option.some.inj hrun
    exact ⟨s, rfl, rfl⟩
  | cons r rounds =>
    rw [Run.run, kLoopRound_current] at hrun
    exact ⟨t, hrun, rfl⟩

theorem Inv.setCurrent {s : State} (h : Inv s) (current : Option Td) :
  Inv { s with current := current }
  := ⟨h.since, h.duration, h.within⟩

end Idle

namespace TrainsOs

namespace Kernel

/-- The kernel, and the fields that keep the time. -/
structure Clocked (A : Type) where
  kernel : Kernel A
  time : Idle.State

/-- How the task comes back into the kernel; `ke_sys_health` reads the clock. -/
inductive Trap where
  | syscall (ctx : Ctx) (call : Call)
  | sysHealth (ctx : Ctx) (curtime : UInt64)
  | interrupt (ctx : Ctx) (x0 : BitVec 64) (irqs : List Irq)

/-- The actions of the kernel, with what the clock shows where it is read. -/
inductive Tick where
  | schedule (ts : UInt64)
  | write (mem : UserMem)
  | trap (t : Trap)
  | requeue (stop : UInt64)

def Trap.act : Trap → Act
  | .syscall ctx call => .syscall ctx call
  | .sysHealth ctx _ => .syscall ctx (.other 0)
  | .interrupt ctx x0 irqs => .interrupt ctx x0 irqs

def Tick.act : Tick → Act
  | .schedule _ => .schedule
  | .write mem => .write mem
  | .trap t => t.act
  | .requeue _ => .requeue

def Trap.toIdle : Trap → Idle.Trap
  | .syscall _ .exit => .exit
  | .syscall _ _ => .syscall
  | .sysHealth _ curtime => .sysHealth curtime
  | .interrupt _ _ _ => .interrupt

variable {A : Type}

/-- A task, as the time sees it. -/
def idleTd (k : Kernel A) (p : TdPtr) : Idle.Td :=
  if p = k.idleTask then .idle else .user (k.td p).tid.toNat

/-- What an action does to the time. -/
def tickTime (k : Kernel A) (time : Idle.State) : Tick → Option Idle.State
  | .schedule ts => some (if k.kSchedGetNext.2 = none then { time with idleTs := ts } else time)
  | .trap (.sysHealth _ curtime) => Idle.kSysHealth time curtime
  | .requeue stop => some (Idle.bookkeep time stop)
  | _ => some time

variable [TaskAlloc A]

/-- One action. -/
def Clocked.step (c : Clocked A) (a : Tick) : Option (Clocked A) := do
  let kernel ← c.kernel.step a.act
  let time ← c.kernel.tickTime c.time a
  some { kernel := kernel, time := { time with current := kernel.current.map kernel.idleTd } }

/-- An iteration of `k_loop`: the values of the clock before and after the task runs, what the
task writes, and its trap. -/
structure Iteration where
  ts : UInt64
  mems : List UserMem
  trap : Trap
  stop : UInt64

def Iteration.ticks (i : Iteration) : List Tick :=
  .schedule i.ts :: (i.mems.map .write ++ [.trap i.trap, .requeue i.stop])

def Clocked.iterate (c : Clocked A) (i : Iteration) : Option (Clocked A) :=
  Run.run step c i.ticks

omit [TaskAlloc A] in
/-- The round that the iteration is. -/
def round (k : Kernel A) (i : Iteration) : Idle.Round :=
  match k.kSchedGetNext.2 with
  | none => .idle i.ts i.stop
  | some td => .user (k.td td).tid.toNat i.trap.toIdle

/-- The kernel can perform the actions of the iteration. -/
def Clocked.Admitted (c : Clocked A) (i : Iteration) : Prop :=
  Run.Meets step (fun c a => c.kernel.LinkOk a.act) c i.ticks

/-- Between two iterations. -/
structure Clocked.AtTop (c : Clocked A) : Prop where
  inv : ∃ sent, Inv False False sent c.kernel
  point : c.kernel.point = .top

variable {c c' : Clocked A} {sent : TdPtr → ℤ} {k k' : Kernel A}

theorem Clocked.step_eq_some {a : Tick} (h : c.step a = some c') :
  ∃ time, c.kernel.step a.act = some c'.kernel ∧ c.kernel.tickTime c.time a = some time
    ∧ c'.time = { time with current := c'.kernel.current.map c'.kernel.idleTd }
  := by
  obtain ⟨kernel, hkernel, h⟩ := Option.bind_eq_some_iff.mp h
  obtain ⟨time, htime, h⟩ := Option.bind_eq_some_iff.mp h
  obtain rfl := Option.some.inj h
  exact ⟨time, hkernel, htime, rfl⟩

/-! ### The parts of an iteration -/

/-- The scheduler has a task, which is not the idle task, or the idle task runs. -/
theorem kSchedGetNext_current (h : Inv False False sent k) :
  (k.kSchedGetNext.2 = none ∧ k.schedule.current = some k.schedule.idleTask)
    ∨ ∃ p, k.kSchedGetNext.2 = some p ∧ k.schedule.current = some p ∧ p ≠ k.schedule.idleTask
      ∧ k.schedule.td p = k.td p
  := by
  obtain ⟨heq, -⟩ | ⟨p, heap, heq, hperm, -⟩ := k.kSchedGetNext_eq
  · left
    rw [schedule, heq]
    exact ⟨rfl, rfl⟩
  · right
    obtain ⟨q, hcore⟩ := h.core
    have hmem := hperm.mem_iff.mpr List.mem_cons_self
    rw [schedule, heq]
    refine ⟨p, rfl, rfl, ?_, rfl⟩
    intro heq'
    have hidle : p = k.idleTask := heq'
    rw [hidle] at hmem
    exact hcore.base.heap.idle hmem

/-- The task that runs, as the time sees it. -/
structure Clocked.Runs (c : Clocked A) (td : Idle.Td) : Prop where
  inv : ∃ sent, Inv False False sent c.kernel
  current : c.kernel.current.map c.kernel.idleTd = some td
  time : c.time.current = some td

/-- What a task writes takes no time. -/
theorem Clocked.Runs.write {td : Idle.Td} (h : c.Runs td) {mem : UserMem}
    (hok : c.kernel.LinkOk (.write mem)) (hstep : c.step (.write mem) = some c') :
  c'.Runs td ∧ c'.time = c.time
  := by
  obtain ⟨sent, hinv⟩ := h.inv
  obtain ⟨time, hkernel, htime, hc'⟩ := step_eq_some hstep
  obtain rfl := Option.some.inj htime
  obtain ⟨k, hk, hinv'⟩ := step_inv hinv hok.ok
  obtain rfl := Option.some.inj (hk.symm.trans hkernel)
  obtain ⟨p, -, hmem⟩ := Option.bind_eq_some_iff.mp hkernel
  have hmem := Option.some.inj hmem
  have hcurrent : c'.kernel.current.map c'.kernel.idleTd = some td := by
    rw [← hmem]
    exact h.current
  rw [hcurrent, ← h.time] at hc'
  exact ⟨⟨⟨_, hinv'⟩, hcurrent, hc' ▸ h.time⟩, hc'⟩

theorem Clocked.Runs.writes {td : Idle.Td} (h : c.Runs td) {mems : List UserMem}
    (hok : Run.Meets step (fun c a => c.kernel.LinkOk a.act) c (mems.map .write))
    (hrun : Run.run step c (mems.map .write) = some c') :
  c'.Runs td ∧ c'.time = c.time
  := by
  induction mems generalizing c with
  | nil =>
    obtain rfl := Option.some.inj hrun
    exact ⟨h, rfl⟩
  | cons mem mems ih =>
    obtain ⟨c₁, hstep, hrun⟩ := Option.bind_eq_some_iff.mp hrun
    obtain ⟨h₁, htime⟩ := h.write hok.1 hstep
    obtain ⟨h', htime'⟩ := ih h₁ (hok.2 c₁ hstep) hrun
    exact ⟨h', htime'.trans htime⟩

omit [TaskAlloc A] in
theorem idleTd_eq_idle {p : TdPtr} :
  k.idleTd p = .idle ↔ p = k.idleTask
  := by
  rw [idleTd]
  split_ifs with h
  · exact iff_of_true rfl h
  · exact iff_of_false nofun h

/-- An interrupt does not change the current task. -/
theorem current_interrupt (h : Inv False False sent k) {ctx : Ctx} {x0 : BitVec 64}
    {irqs : List Irq} (hok : k.LinkOk (.interrupt ctx x0 irqs))
    (hk' : k.step (.interrupt ctx x0 irqs) = some k') :
  k'.current = k.current
  := by
  obtain ⟨c, k₁, ts, -, hstep, hwoken, -⟩ := interrupt_spec h hok.enabled ctx x0 irqs False.elim
  rw [← Option.some.inj (hstep.symm.trans hk')]
  exact hwoken.current

/-- After a trap: what the handler has done to the time, and whether it is the idle task that
has come back. -/
theorem Clocked.Runs.trap {td : Idle.Td} (h : c.Runs td) {t : Trap} (hok : c.kernel.LinkOk t.act)
    (hstep : c.step (.trap t) = some c') :
  (∃ sent, Inv False False sent c'.kernel)
    ∧ (∃ s, Idle.handleTrap c.time t.toIdle = some s
      ∧ c'.time = { s with current := c'.time.current })
    ∧ (td = .idle → c'.time = c.time) ∧ (td ≠ .idle → c'.time.current ≠ some .idle)
  := by
  obtain ⟨sent, hinv⟩ := h.inv
  obtain ⟨time, hkernel, htime, hc'⟩ := step_eq_some hstep
  obtain ⟨k, hk, hinv'⟩ := step_inv hinv hok.ok
  obtain rfl := Option.some.inj (hk.symm.trans hkernel)
  obtain ⟨p, hp, htd⟩ := Option.map_eq_some_iff.mp h.current
  have hidleTask := (joins_step hinv hok hkernel).idleTask
  refine ⟨⟨_, hinv'⟩, ?_, ?_, ?_⟩
  · cases t with
    | syscall ctx call =>
      obtain rfl := Option.some.inj htime
      cases call <;> exact ⟨_, rfl, by rw [hc']⟩
    | sysHealth ctx curtime => exact ⟨time, htime, by rw [hc']⟩
    | interrupt ctx x0 irqs =>
      obtain rfl := Option.some.inj htime
      exact ⟨_, rfl, by rw [hc']⟩
  · rintro rfl
    obtain rfl := idleTd_eq_idle.mp htd
    -- the idle task makes no calls
    cases t with
    | syscall ctx call => exact absurd hp hok.enabled.2
    | sysHealth ctx curtime => exact absurd hp hok.enabled.2
    | interrupt ctx x0 irqs =>
      obtain rfl := Option.some.inj htime
      have hcurrent := (current_interrupt hinv hok hkernel).trans hp
      have hsame : c'.kernel.idleTd c.kernel.idleTask = .idle :=
        idleTd_eq_idle.mpr hidleTask.symm
      rw [hcurrent, Option.map_some, hsame, ← h.time] at hc'
      exact hc'
  · intro hne hidle
    rw [hc'] at hidle
    obtain ⟨p', hp', htd'⟩ := Option.map_eq_some_iff.mp hidle
    have hnot : t.act ≠ .schedule := by cases t <;> nofun
    obtain ⟨-, -, hstays⟩ := current_step hinv hok hnot hkernel
    obtain rfl := Option.some.inj ((hstays p' hp').symm.trans hp)
    apply hne
    rw [← htd, idleTd_eq_idle, ← hidleTask]
    exact idleTd_eq_idle.mp htd'

/-- The end of an iteration. -/
theorem Clocked.requeue_spec (h : ∃ sent, Inv False False sent c.kernel) {stop : UInt64}
    (hok : c.kernel.LinkOk .requeue) (hstep : c.step (.requeue stop) = some c') :
  c'.AtTop
    ∧ c'.time = { Idle.bookkeep c.time stop with current := c'.time.current }
  := by
  obtain ⟨sent, hinv⟩ := h
  obtain ⟨time, hkernel, htime, hc'⟩ := step_eq_some hstep
  obtain ⟨k, hk, hinv'⟩ := step_inv hinv hok.ok
  obtain rfl := Option.some.inj (hk.symm.trans hkernel)
  obtain rfl := Option.some.inj htime
  refine ⟨⟨⟨_, hinv'⟩, ?_⟩, by rw [hc']⟩
  rw [← Option.some.inj hkernel]
  exact c.kernel.requeue_point

/-- The beginning of an iteration. -/
theorem Clocked.schedule_spec (h : c.AtTop) {ts : UInt64} (hok : c.kernel.LinkOk .schedule)
    (hstep : c.step (.schedule ts) = some c') :
  (c.kernel.kSchedGetNext.2 = none ∧ c'.Runs .idle
      ∧ c'.time = { c.time with idleTs := ts, current := some .idle })
    ∨ ∃ p, c.kernel.kSchedGetNext.2 = some p ∧ c'.Runs (.user (c.kernel.td p).tid.toNat)
      ∧ c'.time = { c.time with current := some (.user (c.kernel.td p).tid.toNat) }
  := by
  obtain ⟨sent, hinv⟩ := h.inv
  obtain ⟨time, hkernel, htime, hc'⟩ := step_eq_some hstep
  obtain ⟨k, hk, hinv'⟩ := step_inv hinv hok.ok
  obtain rfl := Option.some.inj (hk.symm.trans hkernel)
  have hsched : c.kernel.schedule = c'.kernel := Option.some.inj hkernel
  have htime := Option.some.inj htime
  obtain ⟨hnone, hcurrent⟩ | ⟨p, hsome, hcurrent, hne, htd⟩ := kSchedGetNext_current hinv
  · left
    rw [hsched] at hcurrent
    have htd : c'.kernel.current.map c'.kernel.idleTd = some .idle := by
      rw [hcurrent, Option.map_some, idleTd_eq_idle.mpr rfl]
    rw [if_pos hnone] at htime
    rw [htd, ← htime] at hc'
    exact ⟨hnone, ⟨⟨_, hinv'⟩, htd, by rw [hc']⟩, hc'⟩
  · right
    rw [hsched] at hcurrent hne htd
    have htd : c'.kernel.current.map c'.kernel.idleTd
        = some (.user (c.kernel.td p).tid.toNat) := by
      rw [hcurrent, Option.map_some, idleTd, if_neg hne, htd]
    rw [if_neg (by rw [hsome]; nofun)] at htime
    rw [htd, ← htime] at hc'
    exact ⟨p, hsome, ⟨⟨_, hinv'⟩, htd, by rw [hc']⟩, hc'⟩

/-! ### Iterations -/

/-- An iteration of the loop is a round. -/
theorem Clocked.iterate_round (h : c.AtTop) {i : Iteration} (hok : c.Admitted i)
    (hrun : c.iterate i = some c') :
  c'.AtTop ∧ ∃ s, Idle.kLoopRound c.time (c.kernel.round i) = some s
    ∧ c'.time = { s with current := c'.time.current }
  := by
  rw [iterate, Iteration.ticks, Run.run] at hrun
  rw [Admitted, Iteration.ticks] at hok
  obtain ⟨c₁, hschedule, hrun⟩ := Option.bind_eq_some_iff.mp hrun
  obtain ⟨hok₁, hrest⟩ := hok
  obtain ⟨hwrites, hrest⟩ := (hrest c₁ hschedule).of_append
  rw [Run.run_append] at hrun
  obtain ⟨c₂, hrun₂, hrun⟩ := Option.bind_eq_some_iff.mp hrun
  obtain ⟨hok₂, hrest⟩ := hrest c₂ hrun₂
  obtain ⟨c₃, htrap, hrun⟩ := Option.bind_eq_some_iff.mp hrun
  obtain ⟨hok₃, -⟩ := hrest c₃ htrap
  obtain ⟨c₄, hrequeue, hrun⟩ := Option.bind_eq_some_iff.mp hrun
  obtain rfl := Option.some.inj hrun
  obtain ⟨hnone, hruns, htime₁⟩ | ⟨p, hsome, hruns, htime₁⟩ := schedule_spec h hok₁ hschedule
  · obtain ⟨hruns₂, htime₂⟩ := hruns.writes hwrites hrun₂
    obtain ⟨hinv₃, -, hidle, -⟩ := hruns₂.trap hok₂ htrap
    obtain ⟨htop, htime⟩ := requeue_spec hinv₃ hok₃ hrequeue
    refine ⟨htop, _, ?_, htime⟩
    rw [round, hnone, hidle rfl, htime₂, htime₁]
    rfl
  · obtain ⟨hruns₂, htime₂⟩ := hruns.writes hwrites hrun₂
    obtain ⟨hinv₃, ⟨s, hhandle, htime₃⟩, -, hne⟩ := hruns₂.trap hok₂ htrap
    obtain ⟨htop, htime⟩ := requeue_spec hinv₃ hok₃ hrequeue
    rw [Idle.bookkeep_of_ne (hne Idle.Td.noConfusion), htime₃] at htime
    refine ⟨htop, s, ?_, htime⟩
    rw [round, hsome, Idle.kLoopRound_user, ← htime₁, ← htime₂]
    exact hhandle

/-- The kernel starts the loop. -/
theorem Booted.atTop {k₀ : Kernel A} (h : Booted k₀) (time : Idle.State) :
  Clocked.AtTop { kernel := k₀, time := time }
  := by
  obtain ⟨q, -, hpoint, -⟩ : ∃ q, Core False False (fun _ => 0) k₀ q [] ∧ k₀.point = .top
      ∧ k₀.nextTid = 3 := h.spec _
  exact ⟨⟨fun _ => 0, h.inv _⟩, hpoint⟩

/-- Any number of iterations of the loop are as many rounds. -/
theorem Clocked.run_rounds (h : c.AtTop) {its : List Iteration}
    (hok : Run.Meets iterate Admitted c its) (hrun : Run.run iterate c its = some c') :
  ∃ rounds s, rounds.length = its.length ∧ Run.run Idle.kLoopRound c.time rounds = some s
    ∧ c'.time = { s with current := c'.time.current }
  := by
  induction its generalizing c with
  | nil =>
    obtain rfl := Option.some.inj hrun
    exact ⟨[], c.time, rfl, rfl, rfl⟩
  | cons i its ih =>
    obtain ⟨c₁, hiterate, hrun⟩ := Option.bind_eq_some_iff.mp hrun
    obtain ⟨htop, s₁, hround, htime₁⟩ := iterate_round h hok.1 hiterate
    obtain ⟨rounds, s, hlength, hrounds, htime⟩ := ih htop (hok.2 c₁ hiterate) hrun
    rw [htime₁] at hrounds
    obtain ⟨s', hrounds', hs'⟩ := Idle.run_setCurrent hrounds
    refine ⟨c.kernel.round i :: rounds, s', congrArg Nat.succ hlength, ?_, ?_⟩
    · rw [Run.run_cons hround]
      exact hrounds'
    · rw [htime, hs']

/-- In every run of the kernel in which the clock does not go back, the reports are right exactly
when each is made at a later time than the previous one, and before the idle time gets too long
for the multiplication. -/
theorem Booted.idle_percent {k₀ : Kernel A} (hboot : Booted k₀) {tInit tLoop : UInt64}
    (hstart : tInit ≤ tLoop) {its : List Iteration}
    (hits : Run.Meets Clocked.iterate
      (fun c i => c.Admitted i ∧ Idle.Ascends c.time (c.kernel.round i))
      { kernel := k₀, time := Idle.start tInit tLoop } its) :
  Run.Meets Clocked.iterate (fun c i => Idle.Right c.time (c.kernel.round i))
      { kernel := k₀, time := Idle.start tInit tLoop } its
    ↔ Run.Meets Clocked.iterate (fun c i => Idle.Reportable c.time (c.kernel.round i))
      { kernel := k₀, time := Idle.start tInit tLoop } its
  := by
  apply hits.iff_of_invariant (P := fun c => c.AtTop ∧ Idle.Inv c.time)
  · rintro c i ⟨-, hinv⟩ ⟨-, hascends⟩
    exact hinv.right_iff hascends
  · rintro c i c' ⟨htop, hinv⟩ ⟨hok, hascends⟩ hstep
    obtain ⟨htop', s, hround, htime⟩ := Clocked.iterate_round htop hok hstep
    refine ⟨htop', ?_⟩
    rw [htime]
    exact (hinv.step hascends hround).setCurrent _
  · exact ⟨hboot.atTop _, Idle.inv_start hstart⟩

end Kernel

end TrainsOs
