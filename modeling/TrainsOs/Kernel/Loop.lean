import TrainsOs.Kernel.Handlers
import TrainsOs.Lib.Run

/-!
# The kernel as a machine

The interrupt handler of `interrupt.c`, the loop of `loop.c` and the start of `main.c`. An
iteration of `k_loop` takes the next task from the scheduler, runs it until it is trapped
and puts it back when it is still the current one. The actions of the machine are the
parts of an iteration: what a task does is arbitrary, so it may write its own memory in
any way and make any system call with any arguments.
-/

namespace TrainsOs

/-- `INTR_ID_TIMER`. -/
def intrIdTimer : ℕ := 97 <<< 16

/-- `INTR_ID_UART(id)`. -/
def intrIdUart (id : ℕ) : ℕ := (153 <<< 16) + id

/-- What `k_gic_iar` reports: the timer, the UARTs with the interrupt status of each, or
the pins, which concern the encoders only. -/
inductive Irq where
  | timer
  | uart (status : ℕ → ℕ)
  | gpio

/-- The wake-ups of an interrupt, in order: the identifiers and the statuses. -/
def Irq.wakeups : Irq → List (ℕ × ℕ)
  | .timer => [(intrIdTimer, 0)]
  | .uart status => ([0, 2, 3, 4, 5].filter fun id => status id ≠ 0).map fun id =>
      (intrIdUart id, status id)
  | .gpio => []

/-- The registers that are saved in the descriptor of a task that is trapped. -/
structure Ctx where
  pc : ℕ
  sp : ℕ
  pstate : ℕ

/-- The system calls of `uapi.h`. The calls `ke_print_raw`, `ke_sys_health` and those on
the encoders set the return value only: `other`. -/
inductive Call where
  | exit
  | yield
  | create (priority : ℤ) (args argsLen : ℕ)
  | myTid
  | myParentTid
  | send (tid : ℤ) (msg msglen reply rplen : ℕ)
  | recv (tid msg msglen : ℕ)
  | reply (tid : ℤ) (reply rplen : ℕ)
  | awaitEvent (intrId : ℕ)
  | mmap (target memSz : ℕ)
  | other (retval : BitVec 64)

/-- The number of a system call in `handler_func_tabl`. -/
def Call.number : Call → ℕ
  | .exit => 0
  | .yield => 1
  | .create .. => 2
  | .myTid => 3
  | .myParentTid => 4
  | .send .. => 5
  | .recv .. => 6
  | .reply .. => 7
  | .awaitEvent .. => 8
  | .mmap .. => 9
  | .other .. => 10

/-- The actions. -/
inductive Act where
  | schedule
  | write (mem : UserMem)
  | syscall (ctx : Ctx) (call : Call)
  | interrupt (ctx : Ctx) (x0 : BitVec 64) (irqs : List Irq)
  | requeue

namespace Kernel

variable {A : Type}

/-! ### Interrupts -/

/-- The loop of `k_intr_wakeup_tasks` at the node `td`, after `n` tasks were woken. The
first argument bounds the number of rounds. -/
def wakeupLoop (intrId retval : ℕ) :
    ℕ → Kernel A → Option TdPtr → ℕ → Option (Kernel A × ℕ)
  | _, k, none, n => some (k, n)
  | 0, _, some _, _ => none
  | fuel + 1, k, some td, n =>
      let tmp := k.links.next td
      if (k.td td).state = intrId then do
        let k ← k.kSchedRemoveEventWait td
        let k := k.setRetval td (BitVec.ofNat 64 retval)
        let k := k.kSchedAddReady td
        wakeupLoop intrId retval fuel k tmp ((n + 1) % 2 ^ 8)
      else
        wakeupLoop intrId retval fuel k tmp n

/-- `k_intr_wakeup_tasks`: the kernel afterwards and the value returned. -/
def kIntrWakeupTasks (k : Kernel A) (intrId retval : ℕ) : Option (Kernel A × ℕ) :=
  wakeupLoop intrId retval k.mapTid.length k (k.blocked .event) 0

/-- Waking up tasks for a list of identifiers and statuses. -/
def wakeupAll (k : Kernel A) : List (ℕ × ℕ) → Option (Kernel A)
  | [] => some k
  | (intrId, retval) :: rest => do
      let (k, _) ← k.kIntrWakeupTasks intrId retval
      k.wakeupAll rest

/-- `k_intr_handler`. -/
def kIntrHandler (k : Kernel A) (irqs : List Irq) : Option (Kernel A) :=
  k.wakeupAll (irqs.flatMap Irq.wakeups)

/-! ### The loop -/

/-- The part of `k_loop` before the task runs. -/
def schedule (k : Kernel A) : Kernel A :=
  let (k, td) := k.kSchedGetNext
  (k.setCurrent (td.getD k.idleTask)).setPoint .user

/-- The part of `k_loop` after the task was trapped. -/
def requeue (k : Kernel A) : Kernel A :=
  match k.current with
  | none => k.setPoint .top
  | some td => if td = k.idleTask then k.setPoint .top else (k.kSchedAddReady td).setPoint .top

/-- `store_td`, with the value of `esr_el1`. -/
def storeTd (k : Kernel A) (td : TdPtr) (ctx : Ctx) (esrEl1 : ℕ) : Kernel A :=
  k.modify td fun t =>
    { t with pc := ctx.pc, sp := ctx.sp, pstate := ctx.pstate, esrEl1 := esrEl1 }

/-- The exception syndrome of a system call. -/
def esrSvc (number : ℕ) : ℕ := (0x15 <<< 26) + (1 <<< 25) + number

/-- The handler that is called for a system call. -/
def handle [TaskAlloc A] (k : Kernel A) : Call → Option (Kernel A)
  | .exit => k.kExitHandler
  | .yield => some k
  | .create priority args argsLen => k.kCreateHandler priority args argsLen
  | .myTid => k.kMyTidHandler
  | .myParentTid => k.kMyParentTidHandler
  | .send tid msg msglen reply rplen => k.kSendHandler tid msg msglen reply rplen
  | .recv tid msg msglen => k.kRecvHandler tid msg msglen
  | .reply tid reply rplen => k.kReplyHandler tid reply rplen
  | .awaitEvent intrId => k.kAwaitEventHandler intrId
  | .mmap target memSz => k.kMmapHandler target memSz
  | .other retval => do
      let td ← k.current
      some (k.setRetval td retval)

/-- One action. -/
def step [TaskAlloc A] (k : Kernel A) : Act → Option (Kernel A)
  | .schedule => some k.schedule
  | .write mem => do
      let td ← k.current
      some (k.modifyMem td fun _ => mem)
  | .syscall ctx call => do
      let td ← k.current
      let k ← (k.storeTd td ctx (esrSvc call.number)).handle call
      some (k.setPoint .bottom)
  | .interrupt ctx x0 irqs => do
      let td ← k.current
      let k := (k.storeTd td ctx 0).setRetval td x0
      let k ← k.kIntrHandler irqs
      some (k.setPoint .bottom)
  | .requeue => some k.requeue

/-- The actions that can happen next: the parts of an iteration follow each other, and
the idle task, which waits for interrupts only, makes no system calls. -/
def Enabled (k : Kernel A) : Act → Prop
  | .schedule => k.point = .top
  | .write _ => k.point = .user
  | .syscall _ _ => k.point = .user ∧ k.current ≠ some k.idleTask
  | .interrupt _ _ _ => k.point = .user
  | .requeue => k.point = .bottom

/-! ### The start -/

/-- `k_sched_init`. -/
def kSchedInit (k : Kernel A) : Kernel A :=
  { k with
    heap := { k.heap with count := 0, capacity := kSchedHeapCapacity }
    insertions := 0
    blocked := fun _ => none
    log := [] }

/-- `k_tmgr_init`, but for the creation of the slab allocator. -/
def kTmgrInit (k : Kernel A) : Kernel A :=
  { k with mapTid := [], nextTid := 0 }

/-- Creating a task in `k_main`; `args` are read from the memory `src`. -/
def startTask [TaskAlloc A] (k : Kernel A) (priority userFunc : ℕ) (src : ℕ → UInt8)
    (args argsLen : ℕ) : Option (Kernel A × TdPtr) :=
  match k.kTmgrGetFreeTask pgSft with
  | (_, none) => none
  | (k, some td) => some (k.kTdInitUserTask td none priority userFunc src args argsLen, td)

/-- `k_main` until the loop: the idle task, `user_entry` and the name server. The
arguments of the last two are `PROGRAM\0user_entry` and `PROGRAM\0name_server`. It is
`none` when a task cannot be created and the loop is not entered. -/
def kMain [TaskAlloc A] (k : Kernel A) (src : ℕ → UInt8) (entryArgs serverArgs : ℕ) :
    Option (Kernel A) := do
  let k := k.kTmgrInit.kSchedInit
  let (k, idleTd) ← k.startTask kePrioMin.toNat k.code.idleTask src 0 0
  let k := { k with idleTask := idleTd, atNull := none }
  let (k, userEntryTd) ← k.startTask kePrioMax.toNat k.code.loadElf src entryArgs 19
  let k := k.kSchedAddReady userEntryTd
  let (k, nameServerTd) ← k.startTask kePrioMax.toNat k.code.loadElf src serverArgs 20
  let k := k.kSchedAddReady nameServerTd
  some (k.setPoint .top)

end Kernel

end TrainsOs
