import TrainsOs.Clock.Rearm

/-!
# The clock ticks

As long as the notifier is not disturbed between the reply of the server and its wait, it
waits for the interrupt of the timer whenever the server has armed it: the notifier runs
before the server, which has the same priority but is behind it in the ready heap. An
interrupt that comes while the notifier runs puts it behind the server. The server arms the
timer, and when the timer interrupts nobody is told.
-/

namespace TrainsOs.Clock

variable {H : MinHeap WaitReq heapCapacity} {A : Type} [TaskAlloc A]

namespace Sys

variable (t : Tasks)

/-- The condition: the notifier is not disturbed, other tasks do not send its message, the
ready heap has room, and its counter does not wrap. -/
def Undisturbed (s : Sys H A) : Action → Prop
  | .kernel a => s.Calm t a ∧ s.kernel.Room a ∧ ∀ k', s.kernel.step a = some k' → k'.readies < 2 ^ 64
  | .receive msg => msg = .clockNotifier → ∀ l tid, s.server = .receives l (some tid) →
      tid = t.notifierTid
  | _ => True

/-- The timer does not interrupt in vain: when it is armed, the notifier waits for its
interrupt and is woken up by it. And when the notifier waits while the server waits for the
next message, the timer is armed. -/
structure Ticking (s : Sys H A) : Prop where
  waits : s.compare ≠ none → s.kernel.state t.notifier = intrIdTimer
  woken : s.compare ≠ none → s.kernel.point = .user → ∀ ctx x0 irqs k',
    intrIdTimer ∈ Kernel.eventIds irqs → s.kernel.step (.interrupt ctx x0 irqs) = some k' →
      k'.state t.notifier = TaskState.ready
  armed : ∀ l, s.server = .receives l none → s.kernel.state t.notifier = intrIdTimer →
    s.compare ≠ none

/-- The invariant. -/
structure Inv (s : Sys H A) : Prop where
  kernel : ∃ sent, Kernel.Inv False True sent s.kernel
  sorted : s.kernel.Sorted
  tied : s.Tied t
  good : s.server = .exited ∨ s.Good t

/-- The server is in front of its loop, from where it goes on when it is scheduled. Its
notifier has not been received from yet. -/
structure Starts (s : Sys H A) : Prop where
  reached : s.kernel.ReachedWithRoom
  server_alive : t.server ∈ s.kernel.mapTid
  notifier_alive : t.notifier ∈ s.kernel.mapTid
  ne : t.server ≠ t.notifier
  idle : t.notifier ≠ s.kernel.idleTask
  server_tid : (s.kernel.td t.server).tid = t.serverTid
  notifier_tid : (s.kernel.td t.notifier).tid = t.notifierTid
  server_priority : (s.kernel.td t.server).priority = 0
  notifier_priority : (s.kernel.td t.notifier).priority = 0
  server_ready : s.kernel.state t.server = TaskState.ready
  server : ∃ now sendBox, s.server = .runs (.pure
    { t := now, sendBox := sendBox, heap := H.new, curtick := 0 })
  notifier : (s.notifier = .send ∧ s.kernel.state t.notifier = TaskState.ready)
    ∨ (s.notifier = .sending ∧ s.kernel.state t.notifier = TaskState.sendBlocked)
  queued : ∀ p ∈ s.kernel.mapTid, t.notifier ∈ s.kernel.queue p → p = t.server
  compare : s.compare = none

variable {t} {s s' : Sys H A}

theorem Inv.ticking (h : s.Inv t) :
  s.Ticking t
  := by
  obtain ⟨sent, hinv⟩ := h.kernel
  constructor
  · exact fun hcompare => (h.tied hcompare).2
  · intro hcompare hpoint ctx x0 irqs k' hid hk'
    obtain ⟨halive, hstate⟩ := h.tied hcompare
    have hfree : s.kernel.Frees t.notifier (.interrupt ctx x0 irqs) := by
      rw [Kernel.Frees, hstate]
      exact hid
    have hok : s.kernel.LinkOk (.interrupt ctx x0 irqs) := ⟨hpoint, trivial, trivial⟩
    exact (Kernel.freed_step hinv.plain hok halive hfree hk').1
  · intro l hserver hwait
    obtain hexit | hgood := h.good
    · rw [hserver] at hexit
      cases hexit
    · obtain ⟨phase, hb, hs, -⟩ := hgood.placed
      obtain ⟨-, -, rfl⟩ := hb.waits (hwait ▸ by decide)
      rw [hserver] at hs
      exact hs.2.compare_ne_none

/-- What an action of the kernel preserves. -/
theorem Inv.kernel_step (h : s.Inv t) {a : Act} (hok : s.kernel.LinkOk a) (hact : s.ActOk t a)
    (hcalm : s.Calm t a) (hroom : s.kernel.Room a)
    (hfew : ∀ k', s.kernel.step a = some k' → k'.readies < 2 ^ 64) :
  ∃ k', s.kernel.step a = some k' ∧ (s.after t k' a).Inv t
  := by
  obtain ⟨sent, hinv⟩ := h.kernel
  have hroomOk : s.kernel.RoomOk a := ⟨hok.enabled, hok.event, hok.alloc, hroom⟩
  obtain ⟨k', hk', hinv'⟩ := Kernel.step_inv hinv hroomOk.ok
  refine ⟨k', hk', ?_⟩
  constructor <;> try rw [kernel_after]
  · exact ⟨_, hinv'⟩
  · exact Kernel.sorted_step hinv.plain h.sorted hok hk'
  · exact h.tied.step hinv.plain hok hk'
  · obtain hexit | hgood := h.good
    · exact Or.inl (exited_after hexit k' a)
    · exact hgood.kernel_step h.tied hinv h.sorted hroomOk hact hcalm hk' (hfew k' hk')

/-- When the kernel and the timer do nothing, only the place of the two tasks matters. -/
theorem Inv.congr (h : s.Inv t) (hkernel : s'.kernel = s.kernel) (hcompare : s'.compare = s.compare)
    (hgood : s'.server = .exited ∨ s'.Good t) :
  s'.Inv t
  := by
  refine ⟨?_, ?_, ?_, hgood⟩
  · rw [hkernel]
    exact h.kernel
  · rw [hkernel]
    exact h.sorted
  · rw [Tied, hkernel, hcompare]
    exact h.tied

/-- What one action preserves. -/
theorem Inv.step (h : s.Inv t) {a : Action} (hok : s.Allowed t a) (hcond : s.Undisturbed t a) :
  ∃ s', s.step t a = some s' ∧ s'.Inv t
  := by
  obtain ⟨sent, hinv⟩ := h.kernel
  cases a with
  | kernel a =>
    obtain ⟨hcalm, hroom, hfew⟩ := hcond
    obtain ⟨k', hk', hinv'⟩ := h.kernel_step hok.1 hok.2 hcalm hroom hfew
    refine ⟨s.after t k' a, ?_, hinv'⟩
    rw [Sys.step, hk']
    rfl
  | arm =>
    obtain ⟨hpoint, hc, hsome⟩ := hok
    obtain ⟨s', hs'⟩ := Option.isSome_iff_exists.mp hsome
    refine ⟨s', hs', ?_⟩
    obtain hexit | hgood := h.good
    · rw [arm, hexit] at hs'
      cases hs'
    · obtain ⟨hgood', hkernel, hwait⟩ := hgood.arm hpoint hc hs'
      refine ⟨?_, ?_, fun _ => ?_, Or.inr hgood'⟩ <;> rw [hkernel]
      · exact h.kernel
      · exact h.sorted
      · exact ⟨hgood.notifier_alive, hwait⟩
  | receive msg =>
    obtain ⟨-, -, hsome, hmsg⟩ := hok
    obtain ⟨s', hs'⟩ := Option.isSome_iff_exists.mp hsome
    refine ⟨s', hs', ?_⟩
    obtain hexit | hgood := h.good
    · rw [receive, hexit] at hs'
      cases hs'
    · obtain ⟨hgood', hkernel, hcompare⟩ := hgood.receive hs' (by
        intro l tid hserver
        constructor
        · rintro rfl
          exact hmsg l hserver
        · exact fun hmsg => hcond hmsg l tid hserver)
      exact h.congr hkernel hcompare (Or.inr hgood')
  | resume =>
    obtain ⟨hpoint, hc, hsome⟩ := hok
    obtain ⟨s', hs'⟩ := Option.isSome_iff_exists.mp hsome
    refine ⟨s', hs', ?_⟩
    obtain hexit | hgood := h.good
    · have htied : s'.kernel = s.kernel ∧ s'.compare = s.compare ∧ s'.server = s.server := by
        rw [resume] at hs'
        cases hn : s.notifier <;> rw [hn] at hs' <;> cases hs' <;> exact ⟨rfl, rfl, rfl⟩
      obtain ⟨hkernel, hcompare, hserver⟩ := htied
      exact h.congr hkernel hcompare (Or.inl (hserver.trans hexit))
    · obtain ⟨hgood', hkernel, hcompare⟩ := hgood.resume hinv hpoint hc hs'
      exact h.congr hkernel hcompare (Or.inr hgood')

/-! ### Runs -/

theorem Starts.inv (h : s.Starts t) :
  s.Inv t
  := by
  obtain ⟨hinv, hsorted⟩ := h.reached.inv
  refine ⟨hinv, hsorted, fun hne => absurd h.compare hne, Or.inr ?_⟩
  constructor
  case placed =>
    use .asking
    refine ⟨?_, ?_, Phase.noConfusion⟩
    · obtain ⟨hpc, hstate⟩ | ⟨hpc, hstate⟩ := h.notifier
      · rw [InPhase, hpc]
        exact NotifierAt.send hstate
      · rw [InPhase, hpc]
        exact NotifierAt.queued hstate
    · obtain ⟨now, sendBox, hserver⟩ := h.server
      rw [hserver, h.compare]
      exact ⟨h.server_ready, fun v hv => Settled.asking.rely hv⟩
  case priority => rw [h.server_priority, h.notifier_priority]
  case server_alive => exact h.server_alive
  case notifier_alive => exact h.notifier_alive
  case server_tid => exact h.server_tid
  case notifier_tid => exact h.notifier_tid
  case ne => exact h.ne
  case idle => exact h.idle
  case queued => exact h.queued

/-- No tick is lost while the notifier is undisturbed: in every such run, whatever the
clients and the interrupts do, it waits for the interrupt of the timer whenever the timer is
armed. -/
theorem clock_ticking (h : s.Starts t) {as : List Action}
    (has : Run.Meets (step t) (fun s a => s.Allowed t a ∧ s.Undisturbed t a) s as) :
  ∃ s', Run.run (step t) s as = some s' ∧ s'.Ticking t
  := by
  obtain ⟨s', hrun, hinv⟩ := Run.run_invariant (P := Inv t)
    (fun _ _ h hok => h.step hok.1 hok.2) h.inv has
  exact ⟨s', hrun, hinv.ticking⟩

end Sys

/-! ### Runs on fixed inputs -/

section Check

variable {H : MinHeap WaitReq heapCapacity}

/-- A computable form of `Makes`, for a server that does not print. -/
def ServerPc.makesCheck : ServerPc H → Call → Bool
  | .runs (.pure _), .recv _ _ _ => true
  | .runs (.op (.reply tid) _), .reply tid' _ rplen => tid' = tid && rplen < 2 ^ 31
  | _, _ => false

theorem ServerPc.makes_of_check {pc : ServerPc H} {call : Call} (h : pc.makesCheck call = true) :
  pc.Makes call
  := by
  cases pc with
  | runs program =>
    cases program with
    | pure l => cases call <;> trivial
    | op e next =>
      cases e <;> cases call <;> try cases h
      rw [makesCheck, Bool.and_eq_true, decide_eq_true_eq, decide_eq_true_eq] at h
      exact h
  | receives l sender => cases call <;> cases h
  | exited => trivial

/-- A computable form of `Makes`, for a notifier that does not panic. -/
def NotifierPc.makesCheck (t : Tasks) : NotifierPc → Call → Bool
  | .send, .send tid _ _ _ _ => tid = t.serverTid
  | .await, .awaitEvent intrId => intrId = intrIdTimer
  | _, _ => false

theorem NotifierPc.makes_of_check {t : Tasks} {pc : NotifierPc} {call : Call}
    (h : pc.makesCheck t call = true) :
  pc.Makes t call
  := by
  cases pc <;> cases call <;> try cases h
  case send.send =>
    have htid := of_decide_eq_true h
    exact htid
  case await.awaitEvent =>
    have hid := of_decide_eq_true h
    exact hid

end Check

namespace Sys

variable {H : MinHeap WaitReq heapCapacity} (t : Tasks) (s : Sys H Arena)

/-- A computable form of `ActOk`. -/
def actCheck : Act → Bool
  | .syscall _ call =>
      if s.kernel.current = some t.server then
        s.server.makesCheck call
      else
        s.kernel.current ≠ some t.notifier || s.notifier.makesCheck t call
  | .interrupt _ x0 _ =>
      s.kernel.current ≠ some t.notifier || x0 = (s.kernel.td t.notifier).syscallRetval
  | _ => true

/-- A computable form of `Calm`, for a server that no other task replies for. -/
def calmCheck : Act → Bool
  | .syscall _ (.reply _ _ _) => s.kernel.current = some t.server
  | .interrupt _ _ _ => s.kernel.current ≠ some t.notifier && s.compare ≠ none
  | _ => true

/-- A computable form of `Allowed`. -/
def allowedCheck : Action → Bool
  | .kernel a => s.kernel.linkCheck a && s.actCheck t a
  | .arm => s.kernel.point = .user && s.kernel.current = some t.server && s.arm.isSome
  | .receive .clockNotifier =>
      s.kernel.point = .user && s.kernel.current = some t.server
        && (s.receive .clockNotifier).isSome
  | .receive _ => false
  | .resume =>
      s.kernel.point = .user && s.kernel.current = some t.notifier && (s.resume t).isSome

variable {t s}

theorem actOk_of_check {a : Act} (h : s.actCheck t a = true) :
  s.ActOk t a
  := by
  cases a with
  | syscall ctx call =>
    intro c hc
    rw [actCheck, hc] at h
    simp only [Option.some.injEq] at h
    split_ifs at h ⊢ with hserver
    · exact ServerPc.makes_of_check h
    · rintro rfl
      rw [Bool.or_eq_true, decide_eq_true_eq] at h
      exact NotifierPc.makes_of_check (h.resolve_left fun hne => hne rfl)
  | interrupt ctx x0 irqs =>
    intro hc _
    rw [actCheck, Bool.or_eq_true, decide_eq_true_eq, decide_eq_true_eq] at h
    exact h.resolve_left fun hne => hne hc
  | _ => trivial

theorem calm_of_check {a : Act} (h : s.calmCheck t a = true) :
  s.Calm t a
  := by
  cases a with
  | syscall ctx call =>
    cases call with
    | reply tid reply rplen =>
      intro hne
      exact absurd (of_decide_eq_true h) hne
    | _ => trivial
  | interrupt ctx x0 irqs =>
    rw [calmCheck, Bool.and_eq_true, decide_eq_true_eq, decide_eq_true_eq] at h
    exact ⟨fun hc => absurd hc h.1, fun _ _ => h.2⟩
  | _ => trivial

variable (t s) in
/-- A computable form of `Undisturbed`, for a server that gets messages from its notifier
only. -/
def undisturbedCheck : Action → Bool
  | .kernel a => s.calmCheck t a && s.kernel.roomCheck a
      && (s.kernel.step a).all fun k' => k'.readies < 2 ^ 64
  | .receive _ =>
      match s.server with
      | .receives _ (some tid) => tid = t.notifierTid
      | _ => false
  | _ => true

theorem allowed_of_check {a : Action} (h : s.allowedCheck t a = true) :
  s.Allowed t a
  := by
  cases a with
  | kernel a =>
    rw [allowedCheck, Bool.and_eq_true] at h
    exact ⟨Kernel.linkOk_of_check h.1, actOk_of_check h.2⟩
  | arm =>
    simp only [allowedCheck, Bool.and_eq_true, decide_eq_true_eq] at h
    exact ⟨h.1.1, h.1.2, h.2⟩
  | receive msg =>
    cases msg with
    | clockNotifier =>
      simp only [allowedCheck, Bool.and_eq_true, decide_eq_true_eq] at h
      exact ⟨h.1.1, h.1.2, h.2, fun _ _ => rfl⟩
    | _ => cases h
  | resume =>
    simp only [allowedCheck, Bool.and_eq_true, decide_eq_true_eq] at h
    exact ⟨h.1.1, h.1.2, h.2⟩

theorem undisturbed_of_check {a : Action} (h : s.undisturbedCheck t a = true) :
  s.Undisturbed t a
  := by
  cases a with
  | kernel a =>
    rw [undisturbedCheck, Bool.and_eq_true, Bool.and_eq_true] at h
    obtain ⟨⟨hcalm, hroom⟩, hfew⟩ := h
    refine ⟨calm_of_check hcalm, (Kernel.roomOk_of_check hroom).room, ?_⟩
    intro k' hk'
    rw [hk', Option.all_some] at hfew
    exact of_decide_eq_true hfew
  | receive msg =>
    intro _ l tid hserver
    rw [undisturbedCheck, hserver] at h
    exact of_decide_eq_true h
  | _ => trivial

/-- The actions up to the creation of the notifier: `user_entry` creates the server, which
runs when the name server waits. -/
def startActs : List Act :=
  Kernel.callTurn (.create 0 0 0) ++ Kernel.callTurn (.recv 0 0 0)
    ++ [.schedule, .syscall Kernel.ctx₀ (.create 0 0 0)]

/-- The server and the notifier of these actions. -/
def startTasks : Tasks where
  server := 7
  notifier := 9
  serverTid := 3
  notifierTid := 4

def startSys : Sys (MinHeap.sortedList WaitReq heapCapacity) Arena where
  kernel := (Run.run Kernel.step Arena.bootKernel startActs).getD Arena.bootKernel
  compare := none
  server := .runs (.pure
    { t := 0, sendBox := { len := 0, sendBuf := fun _ => 0 }
      heap := (MinHeap.sortedList WaitReq heapCapacity).new, curtick := 0 })
  notifier := .send

theorem startSys_starts :
  startSys.Starts startTasks
  := by
  constructor
  case reached =>
    have hcheck : Run.allOk Kernel.step Kernel.roomCheck Arena.bootKernel startActs = true := by
      decide +kernel
    exact ⟨Arena.bootKernel, Arena.booted, startActs,
      Run.meets_of_allOk (fun _ _ => Kernel.roomOk_of_check) hcheck, rfl⟩
  case server => exact ⟨_, _, rfl⟩
  case notifier => exact Or.inl ⟨rfl, by decide +kernel⟩
  all_goals decide +kernel

/-- `user_entry` exits, the notifier asks and is replied to, and it returns from
`ker_send`. -/
def firstReply : List Action :=
  [.kernel .requeue]
    ++ (Kernel.callTurn .exit).map .kernel
    ++ (Kernel.callTurn (.send 3 0 0 0 0)).map .kernel
    ++ (Kernel.callTurn (.recv 0 0 0)).map .kernel
    ++ [.kernel .schedule, .receive .clockNotifier,
      .kernel (.syscall Kernel.ctx₀ (.reply 4 0 0)), .kernel .requeue]
    ++ [.kernel .schedule, .resume]

/-- The notifier waits, and the server arms the timer and waits. -/
def firstArm : List Action :=
  [.kernel (.syscall Kernel.ctx₀ (.awaitEvent intrIdTimer)), .kernel .requeue]
    ++ [.kernel .schedule, .arm, .kernel (.syscall Kernel.ctx₀ (.recv 0 0 0)), .kernel .requeue]

/-- An interrupt comes while the notifier runs, so the server runs before it and arms the
timer. -/
def preempted : List Action :=
  [.kernel (.interrupt Kernel.ctx₀ 0 [.gpio]), .kernel .requeue, .kernel .schedule, .arm]

/-- The timer interrupts; then the notifier waits for its interrupt, and the server for a
message. -/
def stopped : List Action :=
  [.kernel (.interrupt Kernel.ctx₀ 0 [.timer]), .kernel .requeue]
    ++ (Kernel.callTurn (.awaitEvent intrIdTimer)).map .kernel
    ++ (Kernel.callTurn (.recv 0 0 0)).map .kernel

/-- In the end the timer is armed, and the notifier waits. -/
theorem clock_ticking_first :
  ∃ s, Run.run (step startTasks) startSys (firstReply ++ firstArm) = some s ∧ s.Ticking startTasks
    ∧ s.compare = some quantum ∧ s.kernel.state startTasks.notifier = intrIdTimer
  := by
  have hallowed : Run.allOk (step startTasks) (allowedCheck startTasks) startSys
      (firstReply ++ firstArm) = true := by decide +kernel
  have hundisturbed : Run.allOk (step startTasks) (fun s => s.undisturbedCheck startTasks) startSys
      (firstReply ++ firstArm) = true := by decide +kernel
  have hlast : ((Run.run (step startTasks) startSys (firstReply ++ firstArm)).any fun s =>
      s.compare = some quantum && s.kernel.state startTasks.notifier = intrIdTimer)
      = true := by decide +kernel
  obtain ⟨s, hrun, hticking⟩ := clock_ticking startSys_starts
    ((Run.meets_of_allOk (fun _ _ => allowed_of_check) hallowed).and
      (Run.meets_of_allOk (fun _ _ => undisturbed_of_check) hundisturbed))
  rw [hrun, Option.any_some, Bool.and_eq_true, decide_eq_true_eq, decide_eq_true_eq] at hlast
  exact ⟨s, hrun, hticking, hlast.1, hlast.2⟩

/-- The interrupt of the timer that the server has armed wakes nobody: the notifier is still
in the ready heap. In the end it waits for an interrupt that is not armed, and the server
for its message. -/
theorem clock_not_ticking :
  startSys.Starts startTasks
    ∧ Run.Meets (step startTasks) (Allowed startTasks) startSys (firstReply ++ preempted ++ stopped)
    ∧ ∃ s s', Run.run (step startTasks) startSys (firstReply ++ preempted) = some s
      ∧ s.compare = some quantum ∧ s.kernel.state startTasks.notifier = TaskState.ready
      ∧ ¬ s.Ticking startTasks ∧ Run.run (step startTasks) s stopped = some s'
      ∧ s'.compare = none ∧ s'.kernel.state startTasks.notifier = intrIdTimer
      ∧ s'.kernel.state startTasks.server = TaskState.receiveBlocked
  := by
  have hallowed : Run.allOk (step startTasks) (allowedCheck startTasks) startSys
      (firstReply ++ preempted ++ stopped) = true := by decide +kernel
  have hlast : ((Run.run (step startTasks) startSys (firstReply ++ preempted)).any fun s =>
      s.compare = some quantum && s.kernel.state startTasks.notifier = TaskState.ready
        && (Run.run (step startTasks) s stopped).any fun s' =>
          s'.compare = none && s'.kernel.state startTasks.notifier = intrIdTimer
            && s'.kernel.state startTasks.server = TaskState.receiveBlocked)
      = true := by decide +kernel
  obtain ⟨s, hrun, hlast⟩ := (Option.any_eq_true _ _).mp hlast
  simp only [Bool.and_eq_true, decide_eq_true_eq] at hlast
  obtain ⟨⟨hcompare, hready⟩, hlast⟩ := hlast
  obtain ⟨s', hrun', hlast'⟩ := (Option.any_eq_true _ _).mp hlast
  simp only [Bool.and_eq_true, decide_eq_true_eq] at hlast'
  refine ⟨startSys_starts, Run.meets_of_allOk (fun _ _ => allowed_of_check) hallowed, s, s', hrun,
    hcompare, hready, ?_, hrun', hlast'.1.1, hlast'.1.2, hlast'.2⟩
  intro hticking
  have hwaits := hticking.waits (hcompare ▸ Option.some_ne_none quantum)
  rw [hready] at hwaits
  exact absurd hwaits (by decide)

end Sys

end TrainsOs.Clock
