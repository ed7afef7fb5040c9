import TrainsOs.Kernel.Freed
import TrainsOs.Uart.Armed

/-!
# The UART server and its broker

The server of `rpi_uart.rs` and the broker of `rpi_uart_intr_broker.rs` as tasks of the
kernel. The kernel clears the mask of the UART at an interrupt and wakes the broker if it
waits; the broker sends to the server and waits again when it is replied to. The other
tasks do what they like, except that they do not reply to the broker.

The broker has the smaller priority number, so the server does not run while the broker is
ready. That is why nothing is lost between the reply of `State::rearm` and the wait of the
broker.
-/

namespace TrainsOs.Uart

open MsgBox Bytes

/-- `PRIO_UART`. -/
def prioUart : ℕ := 2

/-- Where the broker is in its loop: in front of `ker_send`, in it, in front of
`ker_await_uart`, or in it; or in its panic handler. -/
inductive BrokerPc where
  | send
  | sending
  | await
  | awaiting
  | panicked

/-- The server handles a message, with nothing left to do when it is between two; or it is
in `ker_recv`, with the `tid` of the sender when a message has been taken; or it has
exited. -/
inductive ServerPc where
  | runs (program : Program Locals)
  | receives (s : Locals) (sender : Option ℤ)
  | exited

/-- The two tasks. -/
structure Tasks where
  server : TdPtr
  broker : TdPtr
  serverTid : ℤ
  tidIntr : ℤ
  uartId : ℕ
  build : Build

/-- The kernel, the mask, and the two tasks. -/
structure Sys (A : Type) where
  kernel : Kernel A
  imsc : BitVec 32
  server : ServerPc
  broker : BrokerPc

/-- An action of the kernel, an access of the server to a register, whatever it contains,
the return of the server from `ker_recv` and the return of the broker from a call. -/
inductive Action where
  | kernel (a : Act)
  | access (fr : BitVec 32) (dr : UInt8)
  | receive (msg : Msg)
  | resume

/-- The value that a call returns, an `int`, is not negative. -/
def retOk (v : BitVec 64) : Bool :=
  0 ≤ (v.setWidth 32).toInt

variable {A : Type}

/-! ### System calls -/

/-- The calls that the program of the server makes. Printing is possible anywhere. -/
def ServerPc.Makes : ServerPc → Call → Prop
  | .exited, _ => True
  | _, .other _ => True
  | .runs (.pure _), .recv _ _ _ => True
  | .runs (.op (.reply tid) _), .reply tid' _ _ => tid' = tid
  | .runs (.op .exit _), .exit => True
  | _, _ => False

/-- The calls that the program of the broker makes. -/
def BrokerPc.Makes (t : Tasks) : BrokerPc → Call → Prop
  | _, .other _ => True
  | .send, .send tid _ _ _ _ => tid = t.serverTid
  | .await, .awaitEvent intrId => intrId = intrIdUart t.uartId
  | _, _ => False

instance ServerPc.decidableMakes (pc : ServerPc) (call : Call) : Decidable (pc.Makes call) := by
  cases pc with
  | runs program =>
    cases program with
    | pure l => cases call <;> first | exact isTrue trivial | exact isFalse id
    | op e next =>
      cases e <;> cases call
        <;> first | exact isTrue trivial | exact isFalse id | exact Int.instDecidableEq _ _
  | receives l sender => cases call <;> first | exact isTrue trivial | exact isFalse id
  | exited => exact isTrue trivial

instance BrokerPc.decidableMakes (t : Tasks) (pc : BrokerPc) (call : Call) :
    Decidable (pc.Makes t call) := by
  cases pc <;> cases call
    <;> first
      | exact isTrue trivial
      | exact isFalse id
      | exact Int.instDecidableEq _ _
      | exact Nat.decEq _ _

/-- The server after its call, which has led from `k` to `k'`. -/
def ServerPc.call (p : TdPtr) (k k' : Kernel A) : ServerPc → Call → ServerPc
  | .runs (.pure s), .recv _ _ _ => .receives s ((k.queue p).head?.map fun q => (k.td q).tid)
  | .runs (.op (.reply _) next), .reply _ _ _ => .runs (next (retOk (k'.td p).syscallRetval))
  | .runs (.op .exit _), .exit => .exited
  | pc, _ => pc

/-- The server after a call of the task `c`, which it may have waited for. -/
def ServerPc.hear (p c : TdPtr) (k : Kernel A) : ServerPc → Call → ServerPc
  | .receives s none, .send tid _ _ _ _ =>
      if k.state p = TaskState.receiveBlocked ∧ (k.td p).tid = tid then
        .receives s (some (k.td c).tid)
      else
        .receives s none
  | pc, _ => pc

/-- The broker after its call. -/
def BrokerPc.call : BrokerPc → Call → BrokerPc
  | .send, .send _ _ _ _ _ => .sending
  | .await, .awaitEvent _ => .awaiting
  | pc, _ => pc

/-- The server exits when it calls `ker_exit`. -/
theorem ServerPc.Makes.exit {pc : ServerPc} (h : pc.Makes .exit) {p : TdPtr} {k k' : Kernel A} :
  pc.call p k k' .exit = .exited
  := by
  cases pc with
  | runs program =>
    cases program with
    | pure l => exact h.elim
    | op e next =>
      cases e <;> try exact h.elim
      rfl
  | receives l sender => exact h.elim
  | exited => rfl

namespace Sys

variable (t : Tasks)

/-- After an action of the kernel, which has led to `k'`. -/
def after (s : Sys A) (k' : Kernel A) : Act → Sys A
  | .syscall _ call =>
      match s.kernel.current with
      | none => { s with kernel := k' }
      | some c =>
          { s with
            kernel := k'
            server :=
              if c = t.server then
                s.server.call t.server s.kernel k' call
              else
                s.server.hear t.server c s.kernel call
            broker := if c = t.broker then s.broker.call call else s.broker }
  | .interrupt _ _ irqs =>
      -- `k_intr_uart_unarm` clears the whole mask
      { s with
        kernel := k'
        imsc := if intrIdUart t.uartId ∈ Kernel.eventIds irqs then 0 else s.imsc }
  | _ => { s with kernel := k' }

/-- An access to a register. -/
def access (s : Sys A) (fr : BitVec 32) (dr : UInt8) : Option (Sys A) :=
  match s.server with
  | .runs (.op .readImsc next) => some { s with server := .runs (next s.imsc) }
  | .runs (.op (.writeImsc status) next) =>
      some { s with imsc := status, server := .runs (next ()) }
  | .runs (.op .readFr next) => some { s with server := .runs (next fr) }
  | .runs (.op .readDr next) => some { s with server := .runs (next dr) }
  | .runs (.op (.writeDr _) next) => some { s with server := .runs (next ()) }
  | _ => none

/-- The server returns from `ker_recv`. -/
def receive (s : Sys A) (msg : Msg) : Option (Sys A) :=
  match s.server with
  | .receives l (some tid) => some { s with server := .runs (l.handle t.build tid msg) }
  | _ => none

/-- The broker returns from a call, which it unwraps. -/
def resume (s : Sys A) : Option (Sys A) :=
  let ok := retOk (s.kernel.td t.broker).syscallRetval
  match s.broker with
  | .sending => some { s with broker := if ok then .await else .panicked }
  | .awaiting => some { s with broker := if ok then .send else .panicked }
  | _ => none

variable [TaskAlloc A]

/-- One action. -/
def step (s : Sys A) : Action → Option (Sys A)
  | .kernel a => (s.kernel.step a).map fun k' => s.after t k' a
  | .access fr dr => s.access fr dr
  | .receive msg => s.receive t msg
  | .resume => s.resume t

/-- The calls of the two tasks are those of their programs, and the others do not reply to
the broker. -/
def CallOk (s : Sys A) : Act → Prop
  | .syscall _ call => ∀ c, s.kernel.current = some c →
      if c = t.server then
        s.server.Makes call
      else if c = t.broker then
        s.broker.Makes t call
      else
        ∀ tid reply rplen, call = .reply tid reply rplen → tid ≠ t.tidIntr
  | _ => True

/-- What can happen: the kernel waits for events only by identifiers of events and leaves
no task uninitialised, the two tasks do something only when they are running, and the
message of the broker is an `RpiUartIntr`. -/
def Allowed (s : Sys A) : Action → Prop
  | .kernel a => s.kernel.LinkOk a ∧ s.CallOk t a
  | .access fr dr => s.kernel.point = .user ∧ s.kernel.current = some t.server
      ∧ (s.access fr dr).isSome
  | .receive msg => s.kernel.point = .user ∧ s.kernel.current = some t.server
      ∧ (s.receive t msg).isSome
      ∧ ∀ l, s.server = .receives l (some t.tidIntr) → ∃ uartId mis, msg = .rpiUartIntr uartId mis
  | .resume => s.kernel.point = .user ∧ s.kernel.current = some t.broker ∧ (s.resume t).isSome

end Sys

/-! ### Where the two tasks are -/

/-- The phase of the broker by its place in its loop and its state `n`. -/
inductive BrokerAt (uartId n : ℕ) : BrokerPc → Phase → Prop where
  | send (h : n = TaskState.ready) : BrokerAt uartId n .send .asking
  | queued (h : n = TaskState.sendBlocked) : BrokerAt uartId n .sending .asking
  | received (h : n = TaskState.replyBlocked) : BrokerAt uartId n .sending .received
  | released (h : n = TaskState.ready) : BrokerAt uartId n .sending .released
  | await (h : n = TaskState.ready) : BrokerAt uartId n .await .released
  | waiting (h : n = intrIdUart uartId) : BrokerAt uartId n .awaiting .waiting
  | woken (h : n = TaskState.ready) : BrokerAt uartId n .awaiting .asking
  | panicked (h : n = TaskState.ready) : BrokerAt uartId n .panicked .asking

/-- What the server still does, in the state `n`, leads to a state between two messages in
which what has to be armed is armed. -/
def ServerAt (tidIntr : ℤ) (n : ℕ) (v : View) : ServerPc → Prop
  | .runs program => n = TaskState.ready ∧ Leads tidIntr program (Settled tidIntr) v
  | .receives l none => n = TaskState.receiveBlocked ∧ Settled tidIntr l v
  | .receives l (some tid) => n = TaskState.ready
      ∧ if tid = tidIntr then l.Clients tidIntr else Settled tidIntr l v
  | .exited => False

section At

variable {uartId n : ℕ} {pc : BrokerPc} {phase : Phase}

theorem le_intrIdUart (id : ℕ) :
  keIntrIdRangeMin ≤ intrIdUart id
  := by
  rw [intrIdUart, keIntrIdRangeMin]
  have hbase : 16 ≤ 153 <<< 16 := by decide
  omega

theorem ready_ne_intrIdUart (id : ℕ) :
  TaskState.ready ≠ intrIdUart id
  := (lt_of_lt_of_le (by decide) (le_intrIdUart id)).ne

/-- The broker never waits to receive. -/
theorem BrokerAt.not_receiveBlocked (h : BrokerAt uartId n pc phase) :
  n ≠ TaskState.receiveBlocked
  := by
  have hid := le_intrIdUart uartId
  rintro rfl
  cases h with
  | waiting h =>
    rw [← h] at hid
    exact absurd hid (by decide)
  | _ h => exact absurd h (by decide)

/-- When the broker waits for an event, it is the one of the UART. -/
theorem BrokerAt.waits (h : BrokerAt uartId n pc phase) (hn : keIntrIdRangeMin ≤ n) :
  n = intrIdUart uartId ∧ pc = .awaiting ∧ phase = .waiting
  := by
  cases h with
  | waiting h => exact ⟨h, rfl, rfl⟩
  | _ h =>
    rw [h] at hn
    exact absurd hn (by decide)

theorem BrokerAt.sendBlocked (h : BrokerAt uartId n pc phase) (hn : n = TaskState.sendBlocked) :
  pc = .sending ∧ phase = .asking
  := by
  have hid := le_intrIdUart uartId
  subst hn
  cases h with
  | queued => exact ⟨rfl, rfl⟩
  | waiting h =>
    rw [← h] at hid
    exact absurd hid (by decide)
  | _ h => exact absurd h (by decide)

theorem BrokerAt.replyBlocked (h : BrokerAt uartId n pc phase) (hn : n = TaskState.replyBlocked) :
  pc = .sending ∧ phase = .received
  := by
  have hid := le_intrIdUart uartId
  subst hn
  cases h with
  | received => exact ⟨rfl, rfl⟩
  | waiting h =>
    rw [← h] at hid
    exact absurd hid (by decide)
  | _ h => exact absurd h (by decide)

theorem BrokerAt.of_received (h : BrokerAt uartId n pc .received) :
  n = TaskState.replyBlocked ∧ pc = .sending
  := by
  cases h with
  | received h => exact ⟨h, rfl⟩

theorem BrokerAt.of_waiting (h : BrokerAt uartId n pc .waiting) :
  n = intrIdUart uartId
  := by
  cases h with
  | waiting h => exact h

theorem BrokerAt.of_released (h : BrokerAt uartId n pc .released) :
  n = TaskState.ready
  := by
  cases h with
  | released h => exact h
  | await h => exact h

theorem ServerAt.state {tidIntr : ℤ} {v : View} {server : ServerPc}
    (h : ServerAt tidIntr n v server) :
  n = TaskState.ready ∨ n = TaskState.receiveBlocked
  := by
  cases server with
  | runs program => exact Or.inl h.1
  | receives l sender =>
    cases sender with
    | none => exact Or.inr h.1
    | some tid => exact Or.inl h.1
  | exited => exact h.elim

theorem ServerAt.others {tidIntr : ℤ} {v v' : View} {server : ServerPc}
    (h : ServerAt tidIntr n v server) (hv : Others v v') :
  ServerAt tidIntr n v' server
  := by
  cases server with
  | runs program => exact ⟨h.1, h.2.others hv⟩
  | receives l sender =>
    cases sender with
    | none => exact ⟨h.1, h.2.others hv⟩
    | some tid =>
      obtain ⟨hn, h⟩ := h
      refine ⟨hn, ?_⟩
      split_ifs at h ⊢ with htid
      · exact h
      · exact h.others hv
  | exited => exact h

end At

/-! ### The invariant -/

namespace Sys

variable (t : Tasks) [TaskAlloc A]

omit [TaskAlloc A] in
/-- The broker is ready, but it is not in the ready heap, which was full. -/
structure Lost (s : Sys A) : Prop where
  ready : s.kernel.state t.broker = TaskState.ready
  heap : t.broker ∉ s.kernel.heap.toList
  current : s.kernel.point ≠ .top → s.kernel.current ≠ some t.broker

omit [TaskAlloc A] in
/-- The two tasks are where their programs are. -/
def Placed (s : Sys A) : Prop :=
  ∃ phase, BrokerAt t.uartId (s.kernel.state t.broker) s.broker phase
    ∧ ServerAt t.tidIntr (s.kernel.state t.server) ⟨phase, s.imsc⟩ s.server

omit [TaskAlloc A] in
/-- The server and the broker are alive and where their programs are. -/
structure Good (s : Sys A) : Prop where
  alive : t.server ∈ s.kernel.mapTid
  tid : (s.kernel.td t.server).tid = t.serverTid
  priority : (s.kernel.td t.broker).priority < (s.kernel.td t.server).priority
  queued : ∀ p ∈ s.kernel.mapTid, t.broker ∈ s.kernel.queue p → p = t.server
  turn : s.kernel.point = .user → s.kernel.current = some t.server →
    t.broker ∉ s.kernel.heap.toList
  placed : s.Placed t

/-- The invariant. -/
structure Inv (s : Sys A) : Prop where
  kernel : ∃ sent, Kernel.Inv False False sent s.kernel
  sorted : s.kernel.Sorted
  alive : t.broker ∈ s.kernel.mapTid
  tid : (s.kernel.td t.broker).tid = t.tidIntr
  ne : t.server ≠ t.broker
  idle : t.broker ≠ s.kernel.idleTask
  good : s.server = .exited ∨ s.Lost t ∨ s.Good t

/-- If the broker waits for an interrupt and the server for a message, with nobody in its
wait queue, then the receive interrupts are armed, and the transmit interrupt unless
everything is sent. -/
def Vigilant (s : Sys A) : Prop :=
  ∀ l sender, s.server = .receives l sender → s.kernel.state t.server = TaskState.receiveBlocked →
    s.kernel.queue t.server = [] → s.kernel.state t.broker = intrIdUart t.uartId →
    Enabled s.imsc (uartImscRxim ||| uartImscRtim)
      ∧ (l.txBuf ≠ [] → Enabled s.imsc uartImscTxim)

variable {t} {s s' : Sys A} {k' : Kernel A} {sent : TdPtr → ℤ}

theorem Inv.vigilant (h : s.Inv t) :
  s.Vigilant t
  := by
  intro l sender hserver hblocked _ hwait
  obtain hexit | hlost | hgood := h.good
  · rw [hserver] at hexit
    cases hexit
  · exact absurd (hlost.ready.symm.trans hwait) (ready_ne_intrIdUart t.uartId)
  · obtain ⟨phase, hbroker, hat⟩ := hgood.placed
    obtain ⟨-, -, rfl⟩ := hbroker.waits (hwait ▸ le_intrIdUart t.uartId)
    rw [hserver, hblocked] at hat
    cases sender with
    | some tid => exact absurd hat.1 (by decide)
    | none =>
      obtain ⟨-, hsettled⟩ := hat
      exact ⟨hsettled.rx.enabled rfl, fun hne => (hsettled.tx hne).enabled rfl⟩

/-! ### Actions of the kernel -/

omit [TaskAlloc A] in
theorem kernel_after (k' : Kernel A) (a : Act) :
  (s.after t k' a).kernel = k'
  := by
  cases a with
  | syscall ctx call =>
    rw [after]
    cases s.kernel.current <;> rfl
  | _ => rfl

omit [TaskAlloc A] in
theorem Placed.congr (h : s.Placed t) (himsc : s'.imsc = s.imsc) (hserver : s'.server = s.server)
    (hbroker : s'.broker = s.broker)
    (hstate : ∀ p, p = t.server ∨ p = t.broker → s'.kernel.state p = s.kernel.state p) :
  s'.Placed t
  := by
  rw [Placed, himsc, hserver, hbroker, hstate _ (Or.inl rfl), hstate _ (Or.inr rfl)]
  exact h

/-- A task that is lost stays lost. -/
theorem Lost.step (h : s.Lost t) (hinv : Kernel.Inv False False sent s.kernel)
    (hsorted : s.kernel.Sorted) (halive : t.broker ∈ s.kernel.mapTid)
    (hidle : t.broker ≠ s.kernel.idleTask) {a : Act} (hok : s.kernel.LinkOk a)
    (hk' : s.kernel.step a = some k') :
  (s.after t k' a).Lost t
  := by
  have hspared : Kernel.Spared s.kernel k' t.broker := by
    apply Kernel.spared_step hinv hok halive _ _ hk'
    · exact (Kernel.unblocked_of_ready h.ready).not_frees a
    · intro hpoint
      apply h.current
      rw [hpoint]
      exact Point.noConfusion
  have hready : k'.state t.broker = TaskState.ready := hspared.state.trans h.ready
  constructor
  · rw [kernel_after]
    exact hready
  · rw [kernel_after]
    by_cases ha : a = .schedule
    · subst ha
      obtain ⟨q, hcore⟩ := hinv.core
      obtain ⟨c, hc⟩ := Kernel.schedule_picks hsorted hcore.base.heap.nodup
      rw [← Option.some.inj hk']
      exact fun hmem => h.heap ((hc.heap t.broker).mp hmem).1
    · obtain ⟨htop, -⟩ := Kernel.current_step hinv hok ha hk'
      obtain ⟨ts, hts, hun⟩ := Kernel.inserts_step hinv hsorted hok ha hk'
      intro hmem
      rcases hts.new t.broker hmem with hold | ⟨hin, -⟩
      · exact h.heap hold
      · obtain hdead | hcur | ⟨b, hb⟩ := hun t.broker hin
        · exact hdead halive
        · exact h.current htop hcur
        · rw [h.ready, b.not_test_ready] at hb
          cases hb
  · rw [kernel_after]
    by_cases ha : a = .schedule
    · subst ha
      obtain ⟨q, hcore⟩ := hinv.core
      obtain ⟨c, hc⟩ := Kernel.schedule_picks hsorted hcore.base.heap.nodup
      rw [← Option.some.inj hk', hc.current]
      rintro - ⟨⟩
      obtain ⟨hidle', -⟩ | ⟨hmem, -⟩ := hc.least
      · exact hidle hidle'
      · exact h.heap hmem
    · obtain ⟨htop, -, hcurrent⟩ := Kernel.current_step hinv hok ha hk'
      exact fun _ hcur => h.current htop (hcurrent _ hcur)

/-- When the server runs, the broker is not in the ready heap. -/
theorem Good.turn_step (h : s.Good t) (hinv : Kernel.Inv False False sent s.kernel)
    (hsorted : s.kernel.Sorted) {a : Act} (hk' : s.kernel.step a = some k')
    (hpoint : k'.point = .user) (hcurrent : k'.current = some t.server) :
  t.broker ∉ k'.heap.toList
  := by
  cases a with
  | schedule =>
    obtain ⟨q, hcore⟩ := hinv.core
    obtain ⟨c, hc⟩ := Kernel.schedule_picks hsorted hcore.base.heap.nodup
    rw [← Option.some.inj hk'] at hcurrent ⊢
    obtain rfl := Option.some.inj (hc.current.symm.trans hcurrent)
    intro hmem
    obtain ⟨hmem, -⟩ := (hc.heap t.broker).mp hmem
    obtain ⟨-, hnil⟩ | ⟨-, hleast⟩ := hc.least
    · rw [hnil] at hmem
      cases hmem
    · have hkey := hleast t.broker hmem
      rw [Kernel.keyLt, if_neg h.priority.ne, decide_eq_true h.priority] at hkey
      cases hkey
  | write mem =>
    obtain ⟨c, -, hk'⟩ := Option.bind_eq_some_iff.mp hk'
    rw [← Option.some.inj hk'] at hpoint hcurrent ⊢
    exact h.turn hpoint hcurrent
  | requeue =>
    rw [← Option.some.inj hk', Kernel.requeue_point] at hpoint
    cases hpoint
  | syscall ctx call =>
    obtain ⟨c, -, hk'⟩ := Option.bind_eq_some_iff.mp hk'
    obtain ⟨k₂, -, hk'⟩ := Option.bind_eq_some_iff.mp hk'
    rw [← Option.some.inj hk'] at hpoint
    cases hpoint
  | interrupt ctx x0 irqs =>
    obtain ⟨c, -, hk'⟩ := Option.bind_eq_some_iff.mp hk'
    obtain ⟨k₂, -, hk'⟩ := Option.bind_eq_some_iff.mp hk'
    rw [← Option.some.inj hk'] at hpoint
    cases hpoint

/-- An interrupt clears the mask and wakes the broker, or the broker does not wait. -/
theorem Placed.interrupt (h : s.Placed t) (hinv : Kernel.Inv False False sent s.kernel)
    (halive : t.broker ∈ s.kernel.mapTid) {ctx : Ctx} {x0 : BitVec 64} {irqs : List Irq}
    (hok : s.kernel.LinkOk (.interrupt ctx x0 irqs))
    (hk' : s.kernel.step (.interrupt ctx x0 irqs) = some k') :
  (s.after t k' (.interrupt ctx x0 irqs)).Placed t
  := by
  obtain ⟨c, k₁, ts, hc, hstep, hwoken, hts, -⟩ :=
    Kernel.interrupt_spec hinv hok.enabled ctx x0 irqs False.elim
  have heq : k' = k₁.setPoint .bottom := Option.some.inj (hk'.symm.trans hstep)
  have hagree : Kernel.Agree s.kernel ((s.kernel.storeTd c ctx 0).setRetval c x0) :=
    (s.kernel.agree_storeTd c ctx 0).trans (Kernel.agree_setRetval _ c x0)
  have hstate : ∀ p, k'.state p = if p ∈ ts then TaskState.ready else s.kernel.state p := by
    intro p
    rw [heq]
    apply (hwoken.state p).trans
    rw [hagree.state]
  have hids : ∀ p, p ∈ ts → keIntrIdRangeMin ≤ s.kernel.state p := by
    intro p hp
    exact Kernel.le_of_mem_eventIds (Kernel.mem_waiting.mp ((hts p).mp hp)).2
  obtain ⟨phase, hbroker, hserver⟩ := h
  have hserver' : k'.state t.server = s.kernel.state t.server := by
    rw [hstate]
    apply if_neg
    intro hmem
    have hle := hids t.server hmem
    rcases hserver.state with hn | hn
    · rw [hn] at hle
      exact absurd hle (by decide)
    · rw [hn] at hle
      exact absurd hle (by decide)
  have hgoal : ∀ phase', BrokerAt t.uartId (k'.state t.broker) s.broker phase' →
      Others ⟨phase, s.imsc⟩
        ⟨phase', if intrIdUart t.uartId ∈ Kernel.eventIds irqs then 0 else s.imsc⟩ →
      (s.after t k' (.interrupt ctx x0 irqs)).Placed t := by
    intro phase' hbroker' hothers
    refine ⟨phase', hbroker', ?_⟩
    have hserver := hserver.others hothers
    rw [← hserver'] at hserver
    exact hserver
  by_cases hmem : t.broker ∈ ts
  · obtain ⟨hwait, hpc, rfl⟩ := hbroker.waits (hids t.broker hmem)
    have hid : intrIdUart t.uartId ∈ Kernel.eventIds irqs := by
      rw [← hwait]
      exact (Kernel.mem_waiting.mp ((hts t.broker).mp hmem)).2
    apply hgoal .asking
    · rw [hstate, if_pos hmem, hpc]
      exact BrokerAt.woken rfl
    · exact Others.wake _ _
  · apply hgoal phase
    · rw [hstate, if_neg hmem]
      exact hbroker
    · by_cases hid : intrIdUart t.uartId ∈ Kernel.eventIds irqs
      · rw [if_pos hid]
        apply Others.clear
        rintro rfl
        apply hmem
        apply (hts t.broker).mpr
        exact Kernel.mem_waiting.mpr ⟨halive, hbroker.of_waiting ▸ hid⟩
      · rw [if_neg hid]
        exact Others.same _

omit [TaskAlloc A] in
/-- A call that does not free the server brings it no message. -/
theorem hear_of_not_frees {k : Kernel A} {p : TdPtr} {ctx : Ctx} {call : Call}
    (h : ¬ k.Frees p (.syscall ctx call)) (c : TdPtr) (pc : ServerPc) :
  pc.hear p c k call = pc
  := by
  cases pc with
  | receives l sender =>
    cases sender with
    | none =>
      cases call with
      | send tid msg msglen reply rplen => exact if_neg h
      | _ => rfl
    | some tid => rfl
  | _ => rfl

omit [TaskAlloc A] in
/-- The server is freed only by a message, and only when it is in `ker_recv`. -/
theorem freed_server {k : Kernel A} {p : TdPtr} {tidIntr : ℤ} {v : View} {pc : ServerPc}
    (h : ServerAt tidIntr (k.state p) v pc) {ctx : Ctx} {call : Call}
    (hfree : k.Frees p (.syscall ctx call)) :
  ∃ l tid msg msglen reply rplen, pc = .receives l none ∧ Settled tidIntr l v
    ∧ call = .send tid msg msglen reply rplen
  := by
  cases call <;> try exact hfree.elim
  case send tid msg msglen reply rplen =>
    rw [hfree.1] at h
    cases pc with
    | runs program => exact absurd h.1 (by decide)
    | receives l sender =>
      cases sender with
      | none => exact ⟨l, tid, msg, msglen, reply, rplen, rfl, h.2, rfl⟩
      | some tid => exact absurd h.1 (by decide)
    | exited => exact h.elim
  case recv tid msg msglen =>
    obtain hn | hn := h.state
    · exact absurd (hn.symm.trans hfree.1) (by decide)
    · exact absurd (hn.symm.trans hfree.1) (by decide)
  case reply tid reply rplen =>
    obtain hn | hn := h.state
    · exact absurd (hn.symm.trans hfree.1) (by decide)
    · exact absurd (hn.symm.trans hfree.1) (by decide)

omit [TaskAlloc A] in
theorem after_syscall {c : TdPtr} (hc : s.kernel.current = some c) (k' : Kernel A) (ctx : Ctx)
    (call : Call) :
  s.after t k' (.syscall ctx call)
    = { s with
        kernel := k'
        server :=
          if c = t.server then
            s.server.call t.server s.kernel k' call
          else
            s.server.hear t.server c s.kernel call
        broker := if c = t.broker then s.broker.call call else s.broker }
  := by rw [after, hc]

/-- A call of another task: the broker does not notice it, and the server may get a
message. -/
theorem Good.other (h : s.Good t) (hinv : Kernel.Inv False False sent s.kernel)
    (halive : t.broker ∈ s.kernel.mapTid) (htid : (s.kernel.td t.broker).tid = t.tidIntr)
    {c : TdPtr} (hc : s.kernel.current = some c) (hserver : c ≠ t.server) (hbroker : c ≠ t.broker)
    {ctx : Ctx} {call : Call} (hok : s.kernel.LinkOk (.syscall ctx call))
    (hcall : ∀ tid reply rplen, call = .reply tid reply rplen → tid ≠ t.tidIntr)
    (hk' : s.kernel.step (.syscall ctx call) = some k') :
  (s.after t k' (.syscall ctx call)).Placed t
  := by
  obtain ⟨phase, hb, hs⟩ := h.placed
  have hcmap : c ∈ s.kernel.mapTid := by
    obtain ⟨c', k₁, k₂, q, hc', -, rfl, hcore, -⟩ := hinv.calls hok hk'
    obtain rfl := Option.some.inj (hc.symm.trans hc')
    have hmap := Kernel.mem_mapTid_running hcore
    exact hmap
  have hne : ∀ {p}, c ≠ p → s.kernel.point = .user → s.kernel.current ≠ some p := by
    rintro p hne - hcur
    exact hne (Option.some.inj (hc.symm.trans hcur))
  -- the broker is where it was
  have hkeeps : ¬ s.kernel.Frees t.broker (.syscall ctx call) := by
    intro hfree
    cases call <;> try exact hfree
    case send tid msg msglen reply rplen => exact hb.not_receiveBlocked hfree.1
    case recv tid msg msglen =>
      obtain ⟨-, c', hc', hhead⟩ := hfree
      obtain rfl := Option.some.inj (hc.symm.trans hc')
      exact hserver (h.queued c hcmap (List.mem_of_mem_head? hhead))
    case reply tid reply rplen => exact hcall tid reply rplen rfl (hfree.2.symm.trans htid)
  have hstate := (Kernel.spared_step hinv hok halive hkeeps (hne hbroker) hk').state
  rw [after_syscall hc, if_neg hserver, if_neg hbroker]
  refine ⟨phase, hstate.symm ▸ hb, ?_⟩
  by_cases hfree : s.kernel.Frees t.server (.syscall ctx call)
  · obtain ⟨hready, -⟩ := Kernel.freed_step hinv hok h.alive hfree hk'
    obtain ⟨l, tid, msg, msglen, reply, rplen, hpc, hsettled, rfl⟩ := freed_server hs hfree
    rw [hpc]
    have hhear : (ServerPc.receives l none).hear t.server c s.kernel
        (.send tid msg msglen reply rplen) = .receives l (some (s.kernel.td c).tid) := if_pos hfree
    have hother : (s.kernel.td c).tid ≠ t.tidIntr := by
      obtain ⟨q, hcore⟩ := hinv.core
      intro heq
      exact hbroker (hcore.base.ids.tid_inj c hcmap t.broker halive (heq.trans htid.symm))
    change ServerAt t.tidIntr (k'.state t.server) ⟨phase, s.imsc⟩ _
    rw [hhear, hready]
    refine ⟨rfl, ?_⟩
    rw [if_neg hother]
    exact hsettled
  · have hstate' := (Kernel.spared_step hinv hok h.alive hfree (hne hserver) hk').state
    rw [hear_of_not_frees hfree]
    exact hstate'.symm ▸ hs

/-- A call of the broker. -/
theorem Good.brokerCall (h : s.Good t) (hinv : Kernel.Inv False False sent s.kernel)
    (htid : (s.kernel.td t.broker).tid = t.tidIntr) (hne : t.server ≠ t.broker)
    (hc : s.kernel.current = some t.broker) {ctx : Ctx} {call : Call}
    (hok : s.kernel.LinkOk (.syscall ctx call)) (hmakes : s.broker.Makes t call)
    (hk' : s.kernel.step (.syscall ctx call) = some k') :
  (s.after t k' (.syscall ctx call)).Placed t
  := by
  obtain ⟨phase, hb, hs⟩ := h.placed
  rw [after_syscall hc, if_neg (Ne.symm hne), if_pos rfl]
  suffices hgoal : ∃ phase', BrokerAt t.uartId (k'.state t.broker) (s.broker.call call) phase'
      ∧ ServerAt t.tidIntr (k'.state t.server) ⟨phase', s.imsc⟩
        (s.server.hear t.server t.broker s.kernel call) from hgoal
  obtain ⟨c, k₁, k₂, q, hc', -, rfl, hcore, hc₁, hready, hagree, -, hk₂, heq⟩ := hinv.calls hok hk'
  obtain rfl := Option.some.inj (hc.symm.trans hc')
  have hspared : ¬ s.kernel.Frees t.server (.syscall ctx call) →
      k'.state t.server = s.kernel.state t.server := by
    intro hfree
    apply (Kernel.spared_step hinv hok h.alive hfree _ hk').state
    rintro - hcur
    exact hne (Option.some.inj (hcur.symm.trans hc))
  generalize s.broker = pc at hb hmakes ⊢
  cases call <;> cases pc <;> try exact hmakes.elim
  case send.send tid msg msglen reply rplen =>
    have hlook : s.kernel.kTaskMgrGetTaskDsp tid = some t.server := by
      rw [show tid = t.serverTid from hmakes, ← h.tid]
      obtain ⟨q', hcore'⟩ := hinv.core
      exact hcore'.base.ids.kTaskMgrGetTaskDsp_eq h.alive
    obtain ⟨hnone, -⟩ | ⟨r, hr, hends⟩ := Kernel.send_ends hcore hc₁ hready hk₂
    · rw [hagree.sameQueues.lookup, hlook] at hnone
      cases hnone
    · rw [hagree.sameQueues.lookup, hlook] at hr
      obtain rfl := Option.some.inj hr
      rw [hagree.state] at hends
      obtain ⟨hwait, hends⟩ | ⟨hwait, hends⟩ := hends
      · have hfree : ¬ s.kernel.Frees t.server (.syscall ctx (.send tid msg msglen reply rplen)) :=
          fun hfree => hwait hfree.1
        rw [hear_of_not_frees hfree, hspared hfree, heq]
        have hphase : phase = .asking := by cases hb with | send => rfl
        exact ⟨phase, hphase ▸ BrokerAt.queued hends.state, hs⟩
      · have hfree : s.kernel.Frees t.server (.syscall ctx (.send tid msg msglen reply rplen)) :=
          ⟨hwait, h.tid.trans (show tid = t.serverTid from hmakes).symm⟩
        obtain ⟨hready', -⟩ := Kernel.freed_step hinv hok h.alive hfree hk'
        obtain ⟨l, -, -, -, -, -, hpc, hsettled, -⟩ := freed_server hs hfree
        have hhear : s.server.hear t.server t.broker s.kernel (.send tid msg msglen reply rplen)
            = .receives l (some t.tidIntr) := by
          rw [hpc, ← htid]
          exact if_pos hfree
        rw [hhear, hready', heq]
        refine ⟨.received, BrokerAt.received hends.state, rfl, ?_⟩
        rw [if_pos rfl]
        exact hsettled.clients
  case awaitEvent.await intrId =>
    have hends := Kernel.await_ends hcore hc₁ hok.event hk₂
    have hid : intrId = intrIdUart t.uartId := hmakes
    have hfree : ¬ s.kernel.Frees t.server (.syscall ctx (.awaitEvent intrId)) := id
    rw [hear_of_not_frees hfree, hspared hfree, heq]
    refine ⟨.waiting, BrokerAt.waiting (hends.state.trans hid), ?_⟩
    have hphase : phase = .released := by cases hb with | await => rfl
    subst hphase
    exact hs.others (Others.wait _)
  all_goals
    rename_i v
    have hfree : ¬ s.kernel.Frees t.server (.syscall ctx (.other v)) := id
    rw [hear_of_not_frees hfree, Kernel.state_other hk', Kernel.state_other hk']
    exact ⟨phase, hb, hs⟩

/-- `ker_recv` of the server, between two messages. -/
theorem Good.serverRecv (h : s.Good t) (hinv : Kernel.Inv False False sent s.kernel)
    (halive : t.broker ∈ s.kernel.mapTid) (htid : (s.kernel.td t.broker).tid = t.tidIntr)
    (hne : t.server ≠ t.broker) (hc : s.kernel.current = some t.server)
    {phase : Phase} (hb : BrokerAt t.uartId (s.kernel.state t.broker) s.broker phase)
    {l : Locals} (hs : Settled t.tidIntr l ⟨phase, s.imsc⟩) {ctx : Ctx} {tid msg msglen : ℕ}
    (hok : s.kernel.LinkOk (.syscall ctx (.recv tid msg msglen)))
    (hk' : s.kernel.step (.syscall ctx (.recv tid msg msglen)) = some k') :
  ∃ phase', BrokerAt t.uartId (k'.state t.broker) s.broker phase'
    ∧ ServerAt t.tidIntr (k'.state t.server) ⟨phase', s.imsc⟩
      (.receives l ((s.kernel.queue t.server).head?.map fun q => (s.kernel.td q).tid))
  := by
  obtain ⟨c, k₁, k₂, q, hc', -, rfl, hcore, hc₁, hready, hagree, -, hk₂, heq⟩ := hinv.calls hok hk'
  obtain rfl := Option.some.inj (hc.symm.trans hc')
  have hqueue := hagree.sameQueues.queue t.server
  have hspared : ¬ s.kernel.Frees t.broker (.syscall ctx (.recv tid msg msglen)) →
      k'.state t.broker = s.kernel.state t.broker := by
    intro hfree
    apply (Kernel.spared_step hinv hok halive hfree _ hk').state
    rintro - hcur
    exact hne (Option.some.inj (hc.symm.trans hcur))
  obtain ⟨hnil, hends⟩ | ⟨hcons, hends⟩ := Kernel.recv_ends hcore hc₁ hk₂
  · rw [hqueue] at hnil
    rw [hnil]
    refine ⟨phase, ?_, ?_, hs⟩
    · rw [hspared]
      · exact hb
      · rintro ⟨-, c', hc', hhead⟩
        obtain rfl := Option.some.inj (hc.symm.trans hc')
        rw [hnil] at hhead
        cases hhead
    · rw [heq]
      exact hends.state
  · rw [hqueue] at hcons
    obtain ⟨x, rest, hx⟩ := List.exists_cons_of_ne_nil hcons
    rw [hx]
    have hstate : k'.state t.server = TaskState.ready := by
      rw [heq]
      exact hends.state
    obtain ⟨q', hcore'⟩ := hinv.core
    have hxsend := hcore'.queues.send t.server h.alive x (hx ▸ List.mem_cons_self)
    obtain ⟨hxmap, -, hxtest⟩ := (hcore'.base.lists.mem_iff .send x).mp hxsend
    have hxstate : s.kernel.state x = TaskState.sendBlocked := of_decide_eq_true hxtest
    by_cases hxb : x = t.broker
    · subst hxb
      obtain ⟨hpc, rfl⟩ := hb.sendBlocked hxstate
      have hfree : s.kernel.Frees t.broker (.syscall ctx (.recv tid msg msglen)) :=
        ⟨hxstate, t.server, hc, by rw [hx]; rfl⟩
      obtain ⟨hreply, -⟩ := Kernel.freed_step hinv hok halive hfree hk'
      refine ⟨.received, ?_, hstate, ?_⟩
      · rw [hpc]
        exact BrokerAt.received hreply
      · rw [if_pos htid]
        exact hs.clients
    · refine ⟨phase, ?_, hstate, ?_⟩
      · rw [hspared]
        · exact hb
        · rintro ⟨-, c', hc', hhead⟩
          obtain rfl := Option.some.inj (hc.symm.trans hc')
          rw [hx] at hhead
          exact hxb (Option.some.inj hhead)
      · rw [if_neg]
        · exact hs
        · intro heq
          exact hxb (hcore'.base.ids.tid_inj x hxmap t.broker halive (heq.trans htid.symm))

/-- `ker_reply` of the server. -/
theorem Good.serverReply (hinv : Kernel.Inv False False sent s.kernel)
    (halive : t.broker ∈ s.kernel.mapTid) (htid : (s.kernel.td t.broker).tid = t.tidIntr)
    (hne : t.server ≠ t.broker) (hc : s.kernel.current = some t.server)
    {phase : Phase} (hb : BrokerAt t.uartId (s.kernel.state t.broker) s.broker phase)
    {tid : ℤ} {next : Bool → Program Locals}
    (hs : spec t.tidIntr (.reply tid)
      (fun ok => Leads t.tidIntr (next ok) (Settled t.tidIntr)) ⟨phase, s.imsc⟩)
    {ctx : Ctx} {reply rplen : ℕ} (hok : s.kernel.LinkOk (.syscall ctx (.reply tid reply rplen)))
    (hk' : s.kernel.step (.syscall ctx (.reply tid reply rplen)) = some k') :
  ∃ phase', BrokerAt t.uartId (k'.state t.broker) s.broker phase'
    ∧ ServerAt t.tidIntr (k'.state t.server) ⟨phase', s.imsc⟩
      (.runs (next (retOk (k'.td t.server).syscallRetval)))
  := by
  obtain ⟨c, k₁, k₂, q, hc', -, rfl, hcore, hc₁, hready, hagree, -, hk₂, heq⟩ := hinv.calls hok hk'
  obtain rfl := Option.some.inj (hc.symm.trans hc')
  have hspared : ¬ s.kernel.Frees t.broker (.syscall ctx (.reply tid reply rplen)) →
      k'.state t.broker = s.kernel.state t.broker := by
    intro hfree
    apply (Kernel.spared_step hinv hok halive hfree _ hk').state
    rintro - hcur
    exact hne (Option.some.inj (hc.symm.trans hcur))
  have hstate : k'.state t.server = TaskState.ready := by
    rw [heq]
    exact (Kernel.reply_ends hcore hc₁ hready hk₂).state
  rw [hstate]
  rw [spec] at hs
  split_ifs at hs with htid' hrec
  · -- the reply of `State::rearm`, when the broker is owed one
    obtain rfl : phase = .received := hrec
    obtain ⟨hreply, hpc⟩ := hb.of_received
    have hfree : s.kernel.Frees t.broker (.syscall ctx (.reply tid reply rplen)) :=
      ⟨hreply, htid.trans htid'.symm⟩
    obtain ⟨hready', -⟩ := Kernel.freed_step hinv hok halive hfree hk'
    refine ⟨.released, ?_, rfl, hs _⟩
    rw [hpc]
    exact BrokerAt.released hready'
  · -- it fails when the broker is owed none
    have hnot : s.kernel.state t.broker ≠ TaskState.replyBlocked := by
      intro hn
      exact hrec (hb.replyBlocked hn).2
    have hfalse : retOk (k'.td t.server).syscallRetval = false := by
      obtain hv | hv := Kernel.reply_refused hinv hok hk' hc halive (htid.trans htid'.symm) hnot
      · rw [hv]
        rfl
      · rw [hv]
        rfl
    rw [hfalse]
    refine ⟨phase, ?_, rfl, hs⟩
    rw [hspared]
    · exact hb
    · exact fun hfree => hnot hfree.1
  · refine ⟨phase, ?_, rfl, hs _⟩
    rw [hspared]
    · exact hb
    · exact fun hfree => htid' (hfree.2.symm.trans htid)

omit [TaskAlloc A] in
/-- When the server runs, the broker is not released: it would have run first. -/
theorem Good.not_released (h : s.Good t) (hne : t.server ≠ t.broker) (hlost : ¬ s.Lost t)
    (hpoint : s.kernel.point = .user) (hc : s.kernel.current = some t.server) {phase : Phase}
    (hb : BrokerAt t.uartId (s.kernel.state t.broker) s.broker phase) :
  phase ≠ .released
  := by
  rintro rfl
  apply hlost
  use hb.of_released, h.turn hpoint hc
  rintro - hcur
  exact hne (Option.some.inj (hc.symm.trans hcur))

/-- A call of the server. -/
theorem Good.serverCall (h : s.Good t) (hinv : Kernel.Inv False False sent s.kernel)
    (halive : t.broker ∈ s.kernel.mapTid) (htid : (s.kernel.td t.broker).tid = t.tidIntr)
    (hne : t.server ≠ t.broker) (hlost : ¬ s.Lost t) (hc : s.kernel.current = some t.server)
    {ctx : Ctx} {call : Call} (hok : s.kernel.LinkOk (.syscall ctx call))
    (hmakes : s.server.Makes call) (hk' : s.kernel.step (.syscall ctx call) = some k') :
  (s.after t k' (.syscall ctx call)).server = .exited
    ∨ (s.after t k' (.syscall ctx call)).Placed t
  := by
  obtain ⟨phase, hb, hs⟩ := h.placed
  have hphase := h.not_released hne hlost hok.enabled.1 hc hb
  have hrefl : Rely (⟨phase, s.imsc⟩ : View) ⟨phase, s.imsc⟩ := Rely.refl hphase
  rw [after_syscall hc, if_pos rfl, if_neg hne]
  suffices hgoal : s.server.call t.server s.kernel k' call = .exited
      ∨ ∃ phase', BrokerAt t.uartId (k'.state t.broker) s.broker phase'
        ∧ ServerAt t.tidIntr (k'.state t.server) ⟨phase', s.imsc⟩
          (s.server.call t.server s.kernel k' call) from hgoal
  cases call with
  | other v =>
    have hcall : s.server.call t.server s.kernel k' (.other v) = s.server := by
      cases s.server with
      | runs program =>
        cases program with
        | pure l => rfl
        | op e next => cases e <;> rfl
      | receives l sender => rfl
      | exited => rfl
    right
    rw [hcall, Kernel.state_other hk', Kernel.state_other hk']
    exact ⟨phase, hb, hs⟩
  | recv tid msg msglen =>
    right
    cases hserver : s.server with
    | runs program =>
      rw [hserver] at hs hmakes
      cases program with
      | pure l => exact h.serverRecv hinv halive htid hne hc hb (hs.2 _ hrefl) hok hk'
      | op e next => cases e <;> exact hmakes.elim
    | receives l sender =>
      rw [hserver] at hmakes
      exact hmakes.elim
    | exited =>
      rw [hserver] at hs
      exact hs.elim
  | reply tid reply rplen =>
    right
    cases hserver : s.server with
    | runs program =>
      rw [hserver] at hs hmakes
      cases program with
      | pure l => exact hmakes.elim
      | op e next =>
        cases e <;> try exact hmakes.elim
        case reply tid' =>
        obtain rfl : tid = tid' := hmakes
        exact Good.serverReply hinv halive htid hne hc hb (hs.2 _ hrefl) hok hk'
    | receives l sender =>
      rw [hserver] at hmakes
      exact hmakes.elim
    | exited =>
      rw [hserver] at hs
      exact hs.elim
  | exit => exact Or.inl hmakes.exit
  | _ =>
    exfalso
    cases hserver : s.server with
    | runs program =>
      rw [hserver] at hmakes
      cases program with
      | pure l => exact hmakes.elim
      | op e next => cases e <;> exact hmakes.elim
    | receives l sender =>
      rw [hserver] at hmakes
      exact hmakes.elim
    | exited =>
      rw [hserver] at hs
      exact hs.elim

/-- Every action of the kernel. -/
theorem Good.kernelStep (h : s.Good t) (hinv : Kernel.Inv False False sent s.kernel)
    (halive : t.broker ∈ s.kernel.mapTid) (htid : (s.kernel.td t.broker).tid = t.tidIntr)
    (hne : t.server ≠ t.broker) (hlost : ¬ s.Lost t) {a : Act} (hok : s.kernel.LinkOk a)
    (hcall : s.CallOk t a) (hk' : s.kernel.step a = some k') :
  (s.after t k' a).server = .exited ∨ (s.after t k' a).Placed t
  := by
  cases a with
  | schedule =>
    right
    apply h.placed.congr
    iterate 3 rfl
    intro p _
    rw [kernel_after, ← Option.some.inj hk']
    exact (Kernel.spared_schedule s.kernel p).state
  | write mem =>
    right
    obtain ⟨c, -, heq⟩ := Option.bind_eq_some_iff.mp hk'
    apply h.placed.congr
    iterate 3 rfl
    intro p _
    rw [kernel_after, ← Option.some.inj heq]
    rfl
  | syscall ctx call =>
    obtain ⟨c, -, -, -, hc, -⟩ := hinv.calls hok hk'
    have hcall := hcall c hc
    split_ifs at hcall with hserver hbroker
    · subst hserver
      exact h.serverCall hinv halive htid hne hlost hc hok hcall hk'
    · subst hbroker
      exact Or.inr (h.brokerCall hinv htid hne hc hok hcall hk')
    · exact Or.inr (h.other hinv halive htid hc hserver hbroker hok hcall hk')
  | interrupt ctx x0 irqs => exact Or.inr (h.placed.interrupt hinv halive hok hk')
  | requeue =>
    right
    apply h.placed.congr
    iterate 3 rfl
    intro p _
    rw [kernel_after, ← Option.some.inj hk']
    apply (s.kernel.spared_requeue _).state
    by_cases hp : s.kernel.current = some p
    · left
      apply hinv.ready _ p hp
      rw [show s.kernel.point = .bottom from hok.enabled]
      exact Point.noConfusion
    · exact Or.inr hp

omit [TaskAlloc A] in
/-- The server that has exited does nothing any more. -/
theorem exited_after (h : s.server = .exited) (k' : Kernel A) (a : Act) :
  (s.after t k' a).server = .exited
  := by
  cases a with
  | syscall ctx call =>
    cases hc : s.kernel.current with
    | none =>
      rw [after, hc]
      exact h
    | some c =>
      rw [after_syscall hc]
      dsimp only
      rw [h]
      split_ifs <;> rfl
  | _ => exact h

/-- What an action of the kernel preserves. -/
theorem Inv.kernel_step (h : s.Inv t) {a : Act} (hok : s.kernel.LinkOk a) (hcall : s.CallOk t a) :
  ∃ k', s.kernel.step a = some k' ∧ (s.after t k' a).Inv t
  := by
  obtain ⟨sent, hinv⟩ := h.kernel
  obtain ⟨k', hk', hinv'⟩ := Kernel.step_inv hinv hok.ok
  refine ⟨k', hk', ?_⟩
  have hjoins := Kernel.joins_step hinv hok hk'
  have hfixed := Kernel.fixed_step hinv h.sorted hok hk' h.alive
  have halive : t.broker ∈ k'.mapTid := by
    apply hjoins.alive t.broker h.alive
    rintro ctx rfl hc
    have hmakes := hcall t.broker hc
    rw [if_neg (Ne.symm h.ne), if_pos rfl] at hmakes
    generalize s.broker = pc at hmakes
    cases pc <;> exact hmakes.elim
  constructor <;> try rw [kernel_after]
  · exact ⟨_, hinv'⟩
  · exact Kernel.sorted_step hinv h.sorted hok hk'
  · exact halive
  · exact hfixed.1.trans h.tid
  · exact h.ne
  · rw [hjoins.idleTask]
    exact h.idle
  by_cases hexit' : (s.after t k' a).server = .exited
  · exact Or.inl hexit'
  by_cases hlost' : (s.after t k' a).Lost t
  · exact Or.inr (Or.inl hlost')
  have hlost : ¬ s.Lost t := by
    intro hlost
    exact hlost' (hlost.step hinv h.sorted h.alive h.idle hok hk')
  right
  right
  obtain hexit | hlost₀ | hgood := h.good
  · exact absurd (exited_after hexit k' a) hexit'
  · exact absurd hlost₀ hlost
  have hfixed' := Kernel.fixed_step hinv h.sorted hok hk' hgood.alive
  constructor <;> try rw [kernel_after]
  · apply hjoins.alive t.server hgood.alive
    rintro ctx rfl hc
    apply hexit'
    have hmakes := hcall t.server hc
    rw [if_pos rfl] at hmakes
    rw [after_syscall hc, if_pos rfl]
    exact hmakes.exit
  · exact hfixed'.1.trans hgood.tid
  · rw [hfixed.2, hfixed'.2]
    exact hgood.priority
  · intro p hp hmem
    obtain ⟨hold, hmem⟩ | ⟨ctx, tid, msg, msglen, reply, rplen, rfl, hc, hlook⟩ :=
      hjoins.members p hp t.broker hmem
    · exact hgood.queued p hold hmem
    · have hmakes := hcall t.broker hc
      rw [if_neg (Ne.symm h.ne), if_pos rfl] at hmakes
      generalize s.broker = pc at hmakes
      cases pc <;> try exact hmakes.elim
      obtain ⟨q, hcore⟩ := hinv.core
      rw [show tid = t.serverTid from hmakes, ← hgood.tid,
        hcore.base.ids.kTaskMgrGetTaskDsp_eq hgood.alive] at hlook
      exact (Option.some.inj hlook).symm
  · exact hgood.turn_step hinv h.sorted hk'
  · exact (hgood.kernelStep hinv h.alive h.tid h.ne hlost hok hcall hk').resolve_left hexit'

/-! ### Actions of the two tasks -/

omit [TaskAlloc A] in
/-- When the kernel does nothing, only the place of the two tasks matters. -/
theorem Good.congr (h : s.Good t) (hkernel : s'.kernel = s.kernel) (hplaced : s'.Placed t) :
  s'.Good t
  := by
  constructor <;> try rw [hkernel]
  · exact h.alive
  · exact h.tid
  · exact h.priority
  · exact h.queued
  · exact h.turn
  · exact hplaced

/-- An action of one of the two tasks, which is running. -/
theorem Inv.task_step (h : s.Inv t) (hkernel : s'.kernel = s.kernel)
    (hexit : s.server = .exited → s'.server = .exited)
    (hplaced : s.Good t → ¬ s.Lost t → s'.Placed t) :
  s'.Inv t
  := by
  constructor <;> try rw [hkernel]
  · exact h.kernel
  · exact h.sorted
  · exact h.alive
  · exact h.tid
  · exact h.ne
  · exact h.idle
  by_cases hlost : s.Lost t
  · right
    left
    constructor <;> rw [hkernel]
    · exact hlost.ready
    · exact hlost.heap
    · exact hlost.current
  · obtain hexited | hlost' | hgood := h.good
    · exact Or.inl (hexit hexited)
    · exact absurd hlost' hlost
    · exact Or.inr (Or.inr (hgood.congr hkernel (hplaced hgood hlost)))

/-- An access to a register. -/
theorem Inv.access_step (h : s.Inv t) (hpoint : s.kernel.point = .user)
    (hc : s.kernel.current = some t.server) {fr : BitVec 32} {dr : UInt8}
    (hs' : s.access fr dr = some s') :
  s'.Inv t
  := by
  rw [access] at hs'
  cases hserver : s.server with
  | runs program =>
    rw [hserver] at hs'
    cases program with
    | pure l => cases hs'
    | op e next =>
      have hspec : s.Good t → ¬ s.Lost t → ∃ phase,
          BrokerAt t.uartId (s.kernel.state t.broker) s.broker phase
            ∧ s.kernel.state t.server = TaskState.ready
            ∧ spec t.tidIntr e (fun r => Leads t.tidIntr (next r) (Settled t.tidIntr))
              ⟨phase, s.imsc⟩ := by
        intro hgood hlost
        obtain ⟨phase, hb, hs⟩ := hgood.placed
        rw [hserver] at hs
        obtain ⟨hready, hleads⟩ := hs
        exact ⟨phase, hb, hready,
          hleads _ (Rely.refl (hgood.not_released h.ne hlost hpoint hc hb))⟩
      have hgoal : ∀ (r : e.Response) (imsc : BitVec 32),
          (∀ (post : e.Response → View → Prop) phase, spec t.tidIntr e post ⟨phase, s.imsc⟩ →
            post r ⟨phase, imsc⟩) →
          Inv t { s with imsc := imsc, server := .runs (next r) } := by
        intro r imsc hr
        apply h.task_step
        · rfl
        · intro hexit
          rw [hserver] at hexit
          cases hexit
        · intro hgood hlost
          obtain ⟨phase, hb, hready, hspec⟩ := hspec hgood hlost
          exact ⟨phase, hb, hready, hr _ phase hspec⟩
      cases e <;> cases hs'
      · exact hgoal s.imsc s.imsc fun _ _ hspec => hspec
      · exact hgoal () _ fun _ _ hspec => hspec
      · exact hgoal fr s.imsc fun _ _ hspec => hspec fr
      · exact hgoal dr s.imsc fun _ _ hspec => hspec dr
      · exact hgoal () s.imsc fun _ _ hspec => hspec
  | receives l sender =>
    rw [hserver] at hs'
    cases hs'
  | exited =>
    rw [hserver] at hs'
    cases hs'

/-- The server takes the next message. -/
theorem Inv.receive_step (h : s.Inv t) {msg : Msg} (hs' : s.receive t msg = some s')
    (hmsg : ∀ l, s.server = .receives l (some t.tidIntr) →
      ∃ uartId mis, msg = .rpiUartIntr uartId mis) :
  s'.Inv t
  := by
  rw [receive] at hs'
  cases hserver : s.server with
  | receives l sender =>
    rw [hserver] at hs'
    cases sender with
    | none => cases hs'
    | some tid =>
      cases hs'
      apply h.task_step
      · rfl
      · intro hexit
        rw [hserver] at hexit
        cases hexit
      · intro hgood _
        obtain ⟨phase, hb, hs⟩ := hgood.placed
        rw [hserver] at hs
        obtain ⟨hready, hs⟩ := hs
        refine ⟨phase, hb, hready, ?_⟩
        split_ifs at hs with htid
        · subst htid
          obtain ⟨uartId, mis, rfl⟩ := hmsg l hserver
          exact handleIntr_leads t.build uartId mis t.tidIntr hs
        · exact handle_leads t.build htid msg hs
  | runs program =>
    rw [hserver] at hs'
    cases hs'
  | exited =>
    rw [hserver] at hs'
    cases hs'

/-- The broker goes on after its call. -/
theorem Inv.resume_step (h : s.Inv t) (hpoint : s.kernel.point = .user)
    (hc : s.kernel.current = some t.broker) (hs' : s.resume t = some s') :
  s'.Inv t
  := by
  obtain ⟨sent, hinv⟩ := h.kernel
  have hready : s.kernel.state t.broker = TaskState.ready := by
    apply hinv.ready _ t.broker hc
    rw [hpoint]
    exact Point.noConfusion
  rw [resume] at hs'
  generalize retOk (s.kernel.td t.broker).syscallRetval = ok at hs'
  cases hbroker : s.broker <;> rw [hbroker] at hs' <;> cases hs'
  case sending =>
    apply h.task_step
    · rfl
    · exact id
    intro hgood _
    obtain ⟨phase, hb, hs⟩ := hgood.placed
    rw [hready, hbroker] at hb
    have hphase : phase = .released := by
      cases hb with
      | queued hn => exact absurd hn (by decide)
      | received hn => exact absurd hn (by decide)
      | released => rfl
    subst hphase
    cases ok with
    | true => exact ⟨.released, hready.symm ▸ BrokerAt.await rfl, hs⟩
    | false =>
      exact ⟨.asking, hready.symm ▸ BrokerAt.panicked rfl, hs.others (Others.fail _)⟩
  case awaiting =>
    apply h.task_step
    · rfl
    · exact id
    intro hgood _
    obtain ⟨phase, hb, hs⟩ := hgood.placed
    rw [hready, hbroker] at hb
    have hphase : phase = .asking := by
      cases hb with
      | waiting hn => exact absurd hn (ready_ne_intrIdUart t.uartId)
      | woken => rfl
    subst hphase
    refine ⟨.asking, ?_, hs⟩
    cases ok with
    | true => exact hready.symm ▸ BrokerAt.send rfl
    | false => exact hready.symm ▸ BrokerAt.panicked rfl

/-! ### Runs -/

/-- What one action preserves. -/
theorem Inv.step (h : s.Inv t) {a : Action} (hok : s.Allowed t a) :
  ∃ s', s.step t a = some s' ∧ s'.Inv t
  := by
  cases a with
  | kernel a =>
    obtain ⟨k', hk', hinv'⟩ := h.kernel_step hok.1 hok.2
    refine ⟨s.after t k' a, ?_, hinv'⟩
    rw [Sys.step, hk']
    rfl
  | access fr dr =>
    obtain ⟨hpoint, hc, hsome⟩ := hok
    obtain ⟨s', hs'⟩ := Option.isSome_iff_exists.mp hsome
    exact ⟨s', hs', h.access_step hpoint hc hs'⟩
  | receive msg =>
    obtain ⟨-, -, hsome, hmsg⟩ := hok
    obtain ⟨s', hs'⟩ := Option.isSome_iff_exists.mp hsome
    exact ⟨s', hs', h.receive_step hs' hmsg⟩
  | resume =>
    obtain ⟨hpoint, hc, hsome⟩ := hok
    obtain ⟨s', hs'⟩ := Option.isSome_iff_exists.mp hsome
    exact ⟨s', hs', h.resume_step hpoint hc hs'⟩

variable (t) in
/-- The server is in front of its loop, from where it goes on when it is scheduled. Its
broker has not been received from yet. -/
structure Starts (s : Sys A) : Prop where
  reached : s.kernel.Reached
  server_alive : t.server ∈ s.kernel.mapTid
  broker_alive : t.broker ∈ s.kernel.mapTid
  ne : t.server ≠ t.broker
  idle : t.broker ≠ s.kernel.idleTask
  server_tid : (s.kernel.td t.server).tid = t.serverTid
  broker_tid : (s.kernel.td t.broker).tid = t.tidIntr
  server_priority : (s.kernel.td t.server).priority = prioUart
  broker_priority : (s.kernel.td t.broker).priority = prioUart - 1
  server_ready : s.kernel.state t.server = TaskState.ready
  server_away : s.kernel.point = .user → s.kernel.current ≠ some t.server
  server : ∃ replyBox, s.server = .runs (.pure
    { uartId := t.uartId, replyBox := replyBox, tidIntr := t.tidIntr, rxQueue := [], rxBuf := []
      txBuf := [], txQueue := [], txIdx := 0 })
  broker : (s.broker = .send ∧ s.kernel.state t.broker = TaskState.ready)
    ∨ (s.broker = .sending ∧ s.kernel.state t.broker = TaskState.sendBlocked)
  queued : ∀ p ∈ s.kernel.mapTid, t.broker ∈ s.kernel.queue p → p = t.server

theorem Starts.inv (h : s.Starts t) :
  s.Inv t
  := by
  obtain ⟨hinv, hsorted⟩ := h.reached.inv
  use hinv, hsorted, h.broker_alive, h.broker_tid, h.ne, h.idle
  right
  right
  use h.server_alive, h.server_tid
  · rw [h.server_priority, h.broker_priority]
    decide
  · exact h.queued
  · exact fun hpoint hc => absurd hc (h.server_away hpoint)
  use .asking
  constructor
  · obtain ⟨hpc, hstate⟩ | ⟨hpc, hstate⟩ := h.broker
    · rw [hpc]
      exact BrokerAt.send hstate
    · rw [hpc]
      exact BrokerAt.queued hstate
  · obtain ⟨replyBox, hserver⟩ := h.server
    rw [hserver]
    use h.server_ready
    intro v hv
    have harmed : ∀ bits, Armed bits (⟨.asking, s.imsc⟩ : View) := by
      intro bits
      exact ⟨Phase.noConfusion, Phase.noConfusion, fun hwait => nomatch hwait⟩
    exact ⟨⟨rfl, by simp, by simp⟩, stable_armed _ _ v (harmed _) hv,
      fun _ => stable_armed _ _ v (harmed _) hv⟩

/-- No wake-up of the UART is lost: in every run, whatever the clients and the interrupts
do, the receive interrupts are armed when the broker waits for one and the server for a
message, and the transmit interrupt as well unless everything is sent. -/
theorem uart_vigilant (h : s.Starts t) {as : List Action}
    (has : Run.Meets (step t) (Allowed t) s as) :
  ∃ s', Run.run (step t) s as = some s' ∧ s'.Vigilant t
  := by
  obtain ⟨s', hrun, hinv⟩ := Run.run_invariant (P := Inv t) (fun _ _ h hok => h.step hok) h.inv has
  exact ⟨s', hrun, hinv.vigilant⟩

/-! ### A run on fixed inputs -/

/-- The actions up to the creation of the broker: `user_entry` creates the server, which
runs when the name server waits and `user_entry` has exited. -/
def startActs : List Act :=
  Kernel.callTurn (.create 2 0 0) ++ Kernel.callTurn (.recv 0 0 0) ++ Kernel.callTurn .exit
    ++ [.schedule, .syscall Kernel.ctx₀ (.create 1 0 0)]

/-- The server and the broker of these actions. -/
def startTasks : Tasks where
  server := 7
  broker := 9
  serverTid := 3
  tidIntr := 4
  uartId := 0
  build := { arith := .wrapping, slice := fun _ => [], arrayDefault := [] }

def startSys : Sys Arena where
  kernel := (Run.run Kernel.step Arena.bootKernel startActs).getD Arena.bootKernel
  imsc := 0
  server := .runs (.pure
    { uartId := 0, replyBox := { len := 0, sendBuf := fun _ => 0 }, tidIntr := 4, rxQueue := []
      rxBuf := [], txBuf := [], txQueue := [], txIdx := 0 })
  broker := .send

/-- The broker asks, the server arms the receive interrupts, finds nothing to read and
waits. -/
def firstRearm : List Action :=
  [.kernel .requeue]
    ++ (Kernel.callTurn (.send 3 0 0 0 0)).map .kernel
    ++ (Kernel.callTurn (.recv 0 0 0)).map .kernel
    ++ [.kernel .schedule, .receive (.rpiUartIntr 0 0),
      .kernel (.syscall Kernel.ctx₀ (.reply 4 0 0)), .kernel .requeue]
    ++ [.kernel .schedule, .resume,
      .kernel (.syscall Kernel.ctx₀ (.awaitEvent (intrIdUart 0))), .kernel .requeue]
    ++ [.kernel .schedule, .access 0x10 0, .access 0x10 0, .access 0x10 0,
      .kernel (.syscall Kernel.ctx₀ (.recv 0 0 0)), .kernel .requeue]

variable (t) in
/-- A computable form of `CallOk`, for the calls of the two tasks that do not print. -/
def callCheck (s : Sys A) : Call → Bool
  | .send tid msg msglen reply rplen =>
      s.kernel.current = some t.broker && t.broker ≠ t.server
        && s.broker.Makes t (.send tid msg msglen reply rplen)
  | .recv tid msg msglen =>
      s.kernel.current = some t.server && s.server.Makes (.recv tid msg msglen)
  | .reply tid reply rplen =>
      s.kernel.current = some t.server && s.server.Makes (.reply tid reply rplen)
  | .awaitEvent intrId =>
      s.kernel.current = some t.broker && t.broker ≠ t.server
        && s.broker.Makes t (.awaitEvent intrId) && keIntrIdRangeMin ≤ intrId
  | _ => false

variable (t) in
/-- A computable form of `Allowed`, for these calls. -/
def allowedCheck (s : Sys A) : Action → Bool
  | .kernel .schedule => s.kernel.point = .top
  | .kernel (.syscall _ call) =>
      s.kernel.point = .user && s.kernel.current ≠ some s.kernel.idleTask && s.callCheck t call
  | .kernel .requeue => s.kernel.point = .bottom
  | .kernel _ => false
  | .access fr dr =>
      s.kernel.point = .user && s.kernel.current = some t.server && (s.access fr dr).isSome
  | .receive (.rpiUartIntr uartId mis) =>
      s.kernel.point = .user && s.kernel.current = some t.server
        && (s.receive t (.rpiUartIntr uartId mis)).isSome
  | .receive _ => false
  | .resume =>
      s.kernel.point = .user && s.kernel.current = some t.broker && (s.resume t).isSome

theorem allowed_of_check {a : Action} (h : s.allowedCheck t a = true) :
  s.Allowed t a
  := by
  cases a with
  | kernel a =>
    cases a with
    | schedule =>
      exact ⟨⟨of_decide_eq_true (p := s.kernel.point = .top) h, trivial, trivial⟩, trivial⟩
    | requeue =>
      exact ⟨⟨of_decide_eq_true (p := s.kernel.point = .bottom) h, trivial, trivial⟩, trivial⟩
    | write mem => cases h
    | interrupt ctx x0 irqs => cases h
    | syscall ctx call =>
      have hserver : s.kernel.current = some t.server → s.server.Makes call →
          s.CallOk t (.syscall ctx call) := by
        intro hc hmakes c hc'
        rw [if_pos (Option.some.inj (hc'.symm.trans hc))]
        exact hmakes
      have hbroker : s.kernel.current = some t.broker → t.broker ≠ t.server →
          s.broker.Makes t call → s.CallOk t (.syscall ctx call) := by
        intro hc hne hmakes c hc'
        obtain rfl := Option.some.inj (hc'.symm.trans hc)
        rw [if_neg hne, if_pos rfl]
        exact hmakes
      rw [allowedCheck] at h
      cases call <;> simp only [callCheck, Bool.and_eq_true, decide_eq_true_eq] at h
      case send => exact ⟨⟨h.1, trivial, trivial⟩, hbroker h.2.1.1 h.2.1.2 h.2.2⟩
      case recv => exact ⟨⟨h.1, trivial, trivial⟩, hserver h.2.1 h.2.2⟩
      case reply => exact ⟨⟨h.1, trivial, trivial⟩, hserver h.2.1 h.2.2⟩
      case awaitEvent =>
        exact ⟨⟨h.1, h.2.2, trivial⟩, hbroker h.2.1.1.1 h.2.1.1.2 h.2.1.2⟩
      all_goals cases h.2
  | access fr dr =>
    simp only [allowedCheck, Bool.and_eq_true, decide_eq_true_eq] at h
    exact ⟨h.1.1, h.1.2, h.2⟩
  | receive msg =>
    cases msg with
    | rpiUartIntr uartId mis =>
      simp only [allowedCheck, Bool.and_eq_true, decide_eq_true_eq] at h
      exact ⟨h.1.1, h.1.2, h.2, fun _ _ => ⟨uartId, mis, rfl⟩⟩
    | _ => cases h
  | resume =>
    simp only [allowedCheck, Bool.and_eq_true, decide_eq_true_eq] at h
    exact ⟨h.1.1, h.1.2, h.2⟩

theorem startSys_starts :
  startSys.Starts startTasks
  := by
  constructor
  case reached =>
    have hcheck : Run.allOk Kernel.step Kernel.linkCheck Arena.bootKernel startActs = true := by
      decide +kernel
    exact ⟨Arena.bootKernel, Arena.booted, startActs,
      Run.meets_of_allOk (fun _ _ => Kernel.linkOk_of_check) hcheck, rfl⟩
  case server => exact ⟨_, rfl⟩
  case broker => exact Or.inl ⟨rfl, by decide +kernel⟩
  all_goals decide +kernel

/-- In the end the broker waits, and the receive interrupts are armed. -/
theorem uart_vigilant_rearmed :
  ∃ s, Run.run (step startTasks) startSys firstRearm = some s ∧ s.Vigilant startTasks
    ∧ s.kernel.state startTasks.broker = intrIdUart startTasks.uartId
    ∧ s.kernel.state startTasks.server = TaskState.receiveBlocked
    ∧ s.kernel.queue startTasks.server = [] ∧ s.imsc = 0x50
  := by
  have hcheck :
      Run.allOk (step startTasks) (allowedCheck startTasks) startSys firstRearm = true := by
    decide +kernel
  have hlast : ((Run.run (step startTasks) startSys firstRearm).any fun s =>
      s.kernel.state startTasks.broker = intrIdUart startTasks.uartId
        && s.kernel.state startTasks.server = TaskState.receiveBlocked
        && s.kernel.queue startTasks.server = [] && s.imsc = 0x50) = true := by decide +kernel
  obtain ⟨s, hrun, hvigilant⟩ := uart_vigilant startSys_starts
    (Run.meets_of_allOk (fun _ _ => allowed_of_check) hcheck)
  rw [hrun, Option.any_some] at hlast
  simp only [Bool.and_eq_true, decide_eq_true_eq] at hlast
  exact ⟨s, hrun, hvigilant, hlast.1.1.1, hlast.1.1.2, hlast.1.2, hlast.2⟩

end Sys

end TrainsOs.Uart
