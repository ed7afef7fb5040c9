import TrainsOs.Kernel.Interrupts

/-!
# The invariant of a run

Between two actions of the kernel the only task that may float is the running one. The
conditions on an action under which the invariant is kept are separate: the identifier of
an awaited event is one, the priority of a new task is valid, a wait queue has room for
the sender, the ready heap has room for the tasks that are made ready.
-/

namespace TrainsOs

namespace Kernel

variable {A : Type} {cq ch : Prop} {sent : TdPtr → ℤ} {k k' : Kernel A}
  {q : Blocked → List TdPtr} {c : TdPtr}

/-- The running task, unless it is the idle task. -/
def running (k : Kernel A) : List TdPtr :=
  match k.current with
  | none => []
  | some c => if c = k.idleTask then [] else [c]

/-- The tasks that float between two actions. -/
def floating (k : Kernel A) : List TdPtr :=
  if k.point = .top then [] else k.running

theorem running_of_ne (hc : k.current = some c) (hidle : c ≠ k.idleTask) :
  k.running = [c]
  := by rw [running, hc]; exact if_neg hidle

theorem running_none (hc : k.current = none) :
  k.running = []
  := by rw [running, hc]

/-! ### Conditions on an action -/

variable [TaskAlloc A]

/-- An event that is waited for has the identifier of an event. -/
def EventOk : Act → Prop
  | .syscall _ (.awaitEvent intrId) => keIntrIdRangeMin ≤ intrId
  | _ => True

/-- A creation that uses what it allocates as it should: the task is initialised, its frame
stays in its stack, and there is room for its descriptor. -/
structure Proper (k : Kernel A) (priority : ℤ) (argsLen : ℕ) : Prop where
  priority : kSchedPriorityIsValid priority = true
  frame : argsLen ≤ pgSz - sizeofRegStore
  room : k.TdRoom

/-- A creation is proper or cannot allocate, and the stack of a task that exits can be given
back. -/
def AllocOk (k : Kernel A) : Act → Prop
  | .syscall _ (.create priority _ argsLen) => k.Proper priority argsLen ∨ k.AllocFails pgSft
  | .syscall _ .exit => ∀ c, k.current = some c → k.StackSafe c
  | _ => True

/-- A creation fails and changes no task, or a task is born. -/
theorem kCreateHandler_cases {priority : ℤ} (args : ℕ) {argsLen : ℕ} (hids : k.Ids)
    (hc : k.current = some c) (hok : k.Proper priority argsLen ∨ k.AllocFails pgSft) :
  (∃ alloc, k.kCreateHandler priority args argsLen
        = some (({ k with alloc := alloc } : Kernel A).setRetval c (BitVec.ofInt 64 (-2)))
      ∧ Agree k (({ k with alloc := alloc } : Kernel A).setRetval c (BitVec.ofInt 64 (-2))))
    ∨ ∃ alloc p stackAddr, ¬ k.AllocFails pgSft
      ∧ k.kCreateHandler priority args argsLen
        = some (((k.created alloc p stackAddr c priority.toNat args argsLen).kSchedAddReady
            p).setRetval c (BitVec.ofInt 64 k.nextTid))
      ∧ Born k (k.created alloc p stackAddr c priority.toNat args argsLen) p
  := by
  by_cases hfail : k.AllocFails pgSft
  · obtain ⟨alloc, heq, -, hagree⟩ := kCreateHandler_fails priority args argsLen hids hc hfail
    exact Or.inl ⟨alloc, heq, hagree⟩
  · have hproper := hok.resolve_right hfail
    obtain ⟨alloc, p, stackAddr, heq, hborn⟩ :=
      kCreateHandler_created priority args argsLen hids hc hfail hproper.room hproper.priority
    exact Or.inr ⟨alloc, p, stackAddr, hfail, heq, hborn⟩

omit [TaskAlloc A] in
/-- A message is sent to a task that waits to receive or whose wait queue has room. -/
def SendRoom (k : Kernel A) : Act → Prop
  | .syscall _ (.send tid _ _ _ _) => ∀ r, k.kTaskMgrGetTaskDsp tid = some r →
      k.state r = TaskState.receiveBlocked ∨ (k.queue r).length < userStackArrayCnt
  | _ => True

/-- A task that exits has nobody in its wait queue. -/
def ExitQuiet (k : Kernel A) : Act → Prop
  | .syscall _ .exit => ∀ c, k.current = some c → k.queue c = []
  | _ => True

/-- The ready heap has room for every task that the action makes ready. -/
def Room (k : Kernel A) : Act → Prop
  | .syscall _ (.create _ _ _) =>
      k.AllocFails pgSft ∨ k.heap.count < kSchedHeapCapacity
  | .syscall _ (.send tid _ _ _ _) => ∀ r, k.kTaskMgrGetTaskDsp tid = some r →
      k.state r = TaskState.receiveBlocked → k.heap.count < kSchedHeapCapacity
  | .syscall _ (.recv _ _ _) => ∀ c, k.current = some c →
      k.queue c ≠ [] → k.heap.count < kSchedHeapCapacity
  | .syscall _ (.reply tid _ _) => ∀ r, k.kTaskMgrGetTaskDsp tid = some r →
      k.state r = TaskState.replyBlocked → k.heap.count < kSchedHeapCapacity
  | .interrupt _ _ irqs =>
      k.heap.count + (k.waiting (eventIds irqs)).length ≤ kSchedHeapCapacity
  | .requeue => ∀ c, k.current = some c → c ≠ k.idleTask → k.heap.count < kSchedHeapCapacity
  | _ => True

/-- The receivers, after the action, of the tasks that send. -/
def sentAfter (k : Kernel A) (sent : TdPtr → ℤ) : Act → TdPtr → ℤ
  | .syscall _ (.send tid _ _ _ _) =>
      match k.current with
      | some c => Function.update sent c tid
      | none => sent
  | _ => sent

/-- The conditions that the invariant needs. -/
structure Ok (cq ch : Prop) (k : Kernel A) (a : Act) : Prop where
  enabled : k.Enabled a
  event : EventOk a
  alloc : k.AllocOk a
  send : cq → k.SendRoom a
  exit : cq → k.ExitQuiet a
  room : ch → k.Room a

/-! ### The invariant -/

/-- The invariant between two actions. -/
structure Inv (cq ch : Prop) (sent : TdPtr → ℤ) (k : Kernel A) : Prop where
  core : ∃ q, Core cq ch sent k q k.floating
  ready : k.point ≠ .top → ∀ c, k.current = some c → k.state c = TaskState.ready
  running : k.point = .user → k.current ≠ none

/-- What holds when the handler of a system call returns. -/
structure Handled (cq ch : Prop) (sent : TdPtr → ℤ) (k k' : Kernel A) : Prop where
  core : ∃ q, Core cq ch sent k' q k'.running
  ready : ∀ c, k'.current = some c → k'.state c = TaskState.ready

/-- A handler after which the task keeps running. -/
theorem Handled.stay (h : Core cq ch sent k' q [c]) (hc : k'.current = some c)
    (hidle : c ≠ k'.idleTask) (hready : k'.state c = TaskState.ready) :
  Handled cq ch sent k k'
  := by
  constructor
  · use q
    rw [running_of_ne hc hidle]
    exact h
  · intro p hp
    rw [hc] at hp
    rw [← Option.some.inj hp]
    exact hready

/-- A handler after which no task runs. -/
theorem Handled.leave (h : Core cq ch sent k' q []) (hc : k'.current = none) :
  Handled cq ch sent k k'
  := by
  constructor
  · use q
    rw [running_none hc]
    exact h
  · intro p hp
    rw [hc] at hp
    cases hp

/-- A handler that changes nothing of importance. -/
theorem Handled.agree (h : Core cq ch sent k q [c]) (ha : Agree k k') (hc : k'.current = some c)
    (hidle : c ≠ k.idleTask) (hready : k.state c = TaskState.ready) :
  Handled cq ch sent k k'
  := by
  apply Handled.stay (h.congr ha) hc
  · rw [ha.idleTask]
    exact hidle
  · exact (ha.state c).trans hready

section Handle

variable (h : Core cq ch sent k q [c]) (hc : k.current = some c)
  (hready : k.state c = TaskState.ready) (hidle : c ≠ k.idleTask) {ctx : Ctx}

include h hc

theorem exit_handled (hsafe : k.AllocOk (.syscall ctx .exit))
    (hok : cq → k.ExitQuiet (.syscall ctx .exit)) :
  ∃ k', k.kExitHandler = some k' ∧ Handled cq ch sent k k'
  := by
  obtain ⟨heq, hcore⟩ := kExitHandler_spec h hc (hsafe c hc) fun hcq => hok hcq c hc
  exact ⟨_, heq, Handled.leave hcore rfl⟩

theorem recv_handled {tid msg msglen : ℕ}
    (hok : ch → k.Room (.syscall ctx (.recv tid msg msglen))) :
  ∃ k', k.kRecvHandler tid msg msglen = some k' ∧ Handled cq ch sent k k'
  := by
  cases hqueue : k.queue c with
  | nil =>
    obtain ⟨k', l, hd, q', heq, rfl, hcore⟩ := kRecvHandler_wait h hc hqueue
    exact ⟨_, heq, Handled.leave hcore rfl⟩
  | cons s rest =>
    obtain ⟨k', ring, l, hd, q', heq, rfl, -, -, hcore⟩ := kRecvHandler_take h hc hqueue
      fun hch => hok hch c hc (by rw [hqueue]; exact List.cons_ne_nil s rest)
    exact ⟨_, heq, Handled.leave hcore rfl⟩

theorem awaitEvent_handled {intrId : ℕ} (hok : EventOk (.syscall ctx (.awaitEvent intrId))) :
  ∃ k', k.kAwaitEventHandler intrId = some k' ∧ Handled cq ch sent k k'
  := by
  obtain ⟨k', l, hd, q', heq, rfl, hcore⟩ := kAwaitEventHandler_spec h hc hok
  exact ⟨_, heq, Handled.leave hcore rfl⟩

include hready hidle

theorem send_handled {tid : ℤ} {msg msglen reply rplen : ℕ}
    (hsend : cq → k.SendRoom (.syscall ctx (.send tid msg msglen reply rplen)))
    (hroom : ch → k.Room (.syscall ctx (.send tid msg msglen reply rplen))) :
  ∃ k', k.kSendHandler tid msg msglen reply rplen = some k'
    ∧ Handled cq ch (Function.update sent c tid) k k'
  := by
  have hfree := h.base.lists.not_mem_of_floating (List.mem_singleton.mpr rfl) .send
  cases hlook : k.kTaskMgrGetTaskDsp tid with
  | none =>
    refine ⟨_, kSendHandler_none hc hlook, ?_⟩
    have hcore : Core cq ch (Function.update sent c tid) k q [c] :=
      ⟨h.base, h.queues.sent_update hfree tid⟩
    exact Handled.agree hcore (agree_setRetval k c _) hc hidle hready
  | some r =>
    by_cases hr : k.state r = TaskState.receiveBlocked
    · obtain ⟨k', l, hd, q', heq, rfl, -, hcore⟩ := kSendHandler_direct h hc hready hlook hr
        fun hch => hroom hch r hlook hr
      exact ⟨_, heq, Handled.leave hcore rfl⟩
    · by_cases hlen : (k.queue r).length < userStackArrayCnt
      · obtain ⟨k', ring, l, hd, q', heq, rfl, -, -, -, hcore⟩ := kSendHandler_queued h hc hlook
          hr hlen
        exact ⟨_, heq, Handled.leave hcore rfl⟩
      · have hcq : ¬ cq := by
          intro hcq
          obtain hr' | hlen' := hsend hcq r hlook
          · exact hr hr'
          · exact hlen hlen'
        obtain ⟨k', l, hd, q', heq, rfl, hcore⟩ := kSendHandler_full h hcq hc hlook hr
          (not_lt.mp hlen)
        exact ⟨_, heq, Handled.leave hcore rfl⟩

theorem reply_handled {tid : ℤ} {reply rplen : ℕ}
    (hroom : ch → k.Room (.syscall ctx (.reply tid reply rplen))) :
  ∃ k', k.kReplyHandler tid reply rplen = some k' ∧ Handled cq ch sent k k'
  := by
  cases hlook : k.kTaskMgrGetTaskDsp tid with
  | none =>
    exact ⟨_, kReplyHandler_none hc hlook,
      Handled.agree h (agree_setRetval k c _) hc hidle hready⟩
  | some r =>
    by_cases hr : k.state r = TaskState.replyBlocked
    · obtain ⟨k', l, hd, q', heq, rfl, hcore⟩ := kReplyHandler_answer h hc hready hlook hr
        fun hch => hroom hch r hlook hr
      refine ⟨_, heq, Handled.stay hcore ?_ ?_ ?_⟩
      · rw [kSchedAddReady_current]
        exact hc
      · rw [kSchedAddReady_idleTask]
        exact hidle
      · rw [state_kSchedAddReady]
        split
        · rfl
        · exact ((k.agree_answer c r reply rplen).state c).trans hready
    · exact ⟨_, kReplyHandler_not hc hlook hr,
        Handled.agree h (agree_setRetval k c _) hc hidle hready⟩

theorem create_handled {priority : ℤ} {args argsLen : ℕ}
    (hok : k.AllocOk (.syscall ctx (.create priority args argsLen)))
    (hroom : ch → k.Room (.syscall ctx (.create priority args argsLen))) :
  ∃ k', k.kCreateHandler priority args argsLen = some k' ∧ Handled cq ch sent k k'
  := by
  obtain ⟨alloc, heq, hagree⟩ | ⟨alloc, p, stackAddr, hfail, heq, hborn⟩ :=
    kCreateHandler_cases args h.base.ids hc hok
  · exact ⟨_, heq, Handled.agree h hagree hc hidle hready⟩
  · have hpc : p ≠ c := by
      rintro rfl
      exact hborn.not_mem h.base.ids (h.base.lists.floating p (List.mem_singleton.mpr rfl))
    have hcore := (h.born hborn).addReady (by simpa using hpc) fun hch => by
      rw [hborn.heap]
      exact (hroom hch).resolve_left hfail
    refine ⟨_, heq, Handled.stay (hcore.congr (agree_setRetval _ c _)) ?_ ?_ ?_⟩
    · apply Eq.trans _ hc
      exact kSchedAddReady_current _ p
    · have hsame : ((k.created alloc p stackAddr c priority.toNat args argsLen).kSchedAddReady
          p).idleTask = k.idleTask := by rw [kSchedAddReady_idleTask, hborn.idleTask]
      exact fun hc' => hidle (hc'.trans hsame)
    · rw [(agree_setRetval _ c _).state, state_kSchedAddReady, if_neg (Ne.symm hpc), Kernel.state,
        hborn.td c (Ne.symm hpc)]
      exact hready

/-- Every system call. -/
theorem handle_spec (call : Call) (hevent : EventOk (.syscall ctx call))
    (halloc : k.AllocOk (.syscall ctx call)) (hsend : cq → k.SendRoom (.syscall ctx call))
    (hexit : cq → k.ExitQuiet (.syscall ctx call)) (hroom : ch → k.Room (.syscall ctx call)) :
  ∃ k', k.handle call = some k'
    ∧ Handled cq ch (k.sentAfter sent (.syscall ctx call)) k k'
  := by
  cases call with
  | exit => exact exit_handled h hc halloc hexit
  | yield => exact ⟨k, rfl, Handled.stay h hc hidle hready⟩
  | create priority args argsLen => exact create_handled h hc hready hidle halloc hroom
  | myTid =>
    exact ⟨_, kMyTidHandler_spec hc, Handled.agree h (agree_setRetval k c _) hc hidle hready⟩
  | myParentTid =>
    obtain ⟨v, w, heq, hagree⟩ := kMyParentTidHandler_spec hc
    exact ⟨_, heq, Handled.agree h hagree hc hidle hready⟩
  | send tid msg msglen reply rplen =>
    rw [sentAfter, hc]
    exact send_handled h hc hready hidle hsend hroom
  | recv tid msg msglen => exact recv_handled h hc hroom
  | reply tid reply rplen => exact reply_handled h hc hready hidle hroom
  | awaitEvent intrId => exact awaitEvent_handled h hc hevent
  | mmap target memSz =>
    obtain ⟨alloc, f, heq, hagree⟩ := kMmapHandler_spec hc target memSz
    exact ⟨_, heq, Handled.agree h hagree hc hidle hready⟩
  | other retval =>
    refine ⟨_, ?_, Handled.agree h (agree_setRetval k c retval) hc hidle hready⟩
    rw [handle, hc]
    rfl

end Handle

/-! ### Steps -/

/-- Saving the registers of a task that is trapped. -/
theorem agree_storeTd (k : Kernel A) (p : TdPtr) (ctx : Ctx) (esrEl1 : ℕ) :
  Agree k (k.storeTd p ctx esrEl1)
  := k.agree_modify p rfl rfl rfl rfl

omit [TaskAlloc A] in
/-- In front of the trap the running task floats, unless it is the idle task. -/
theorem floating_user (hp : k.point ≠ .top) :
  k.floating = k.running
  := if_neg hp

omit [TaskAlloc A] in
theorem mem_running {p : TdPtr} (hp : p ∈ k.running) :
  k.current = some p
  := by
  rw [running] at hp
  split at hp
  · cases hp
  · split at hp
    · cases hp
    · rename_i hcur _
      rw [List.mem_singleton.mp hp]
      exact hcur

/-- An action after which the invariant speaks of the same tasks. -/
theorem Inv.congr (h : Inv cq ch sent k) (ha : Agree k k') (hpoint : k'.point = k.point)
    (hcur : k'.current = k.current) :
  Inv cq ch sent k'
  := by
  have hrun : k'.running = k.running := by
    rw [Kernel.running, Kernel.running, hcur, ha.idleTask]
  constructor
  · obtain ⟨q, hcore⟩ := h.core
    use q
    rw [floating, hrun, hpoint]
    exact hcore.congr ha
  · intro hp c hc
    rw [ha.state]
    rw [hpoint] at hp
    rw [hcur] at hc
    exact h.ready hp c hc
  · rw [hpoint, hcur]
    exact h.running

/-- The end of a trap. -/
theorem Handled.inv (h : Handled cq ch sent k k') :
  Inv cq ch sent (k'.setPoint .bottom)
  := by
  have hagree := agree_setPoint k' .bottom
  constructor
  · obtain ⟨q, hcore⟩ := h.core
    use q
    exact hcore.congr hagree
  · intro _ c hc
    rw [hagree.state]
    exact h.ready c hc
  · intro hp
    cases hp

/-- The part of `k_loop` before the task runs. -/
theorem schedule_inv (h : Inv cq ch sent k) (hp : k.point = .top) :
  Inv cq ch sent k.schedule
  := by
  obtain ⟨q, hcore⟩ := h.core
  rw [floating, if_pos hp] at hcore
  have hagree : ∀ k : Kernel A, ∀ p, Agree k ((k.setCurrent (some p)).setPoint .user) :=
    fun k p => (k.agree_setCurrent (some p)).trans (agree_setPoint _ .user)
  obtain ⟨heq, -⟩ | ⟨p, heap, heq, hperm, -, hcap⟩ := k.kSchedGetNext_eq
  · have hsched : k.schedule = (k.setCurrent (some k.idleTask)).setPoint .user := by
      rw [schedule, heq]
      rfl
    rw [hsched]
    constructor
    · use q
      have hF : ((k.setCurrent (some k.idleTask)).setPoint .user).floating = [] := if_pos rfl
      rw [hF]
      exact hcore.congr (hagree k _)
    · intro _ c hc
      rw [(hagree k _).state, ← Option.some.inj hc]
      exact hcore.base.lists.idle_state
    · intro _ hc
      cases hc
  · let k₁ := k.putHeap heap k.insertions (k.log ++ [.next p])
    have hsched : k.schedule = (k₁.setCurrent (some p)).setPoint .user := by
      rw [schedule, heq]
      rfl
    have hmem := hperm.mem_iff.mpr List.mem_cons_self
    have hidle : p ≠ k.idleTask := by
      rintro rfl
      exact hcore.base.heap.idle hmem
    have hcore₁ : Core cq ch sent k₁ q [p] :=
      ⟨hcore.base.getNext hperm hcap, hcore.queues.congr ⟨rfl, rfl, fun _ => rfl, fun _ => rfl⟩⟩
    rw [hsched]
    constructor
    · use q
      have hF : ((k₁.setCurrent (some p)).setPoint .user).floating = [p] := if_neg hidle
      rw [hF]
      exact hcore₁.congr (hagree k₁ p)
    · intro _ c hc
      rw [(hagree k₁ p).state, ← Option.some.inj hc]
      exact (hcore.base.heap.mem p hmem).2.2
    · intro _ hc
      cases hc

/-- The part of `k_loop` after the task was trapped. -/
theorem requeue_inv (h : Inv cq ch sent k) (hp : k.point = .bottom)
    (hroom : ch → k.Room .requeue) :
  Inv cq ch sent k.requeue
  := by
  obtain ⟨q, hcore⟩ := h.core
  rw [floating_user (by rw [hp]; exact Point.noConfusion)] at hcore
  have htop : ∀ {k' : Kernel A}, Core cq ch sent k' q [] → Inv cq ch sent (k'.setPoint .top) := by
    intro k' hcore'
    constructor
    · exact ⟨q, hcore'.congr (agree_setPoint k' .top)⟩
    · intro hne
      exact absurd rfl hne
    · intro hp'
      cases hp'
  cases hc : k.current with
  | none =>
    rw [running_none hc] at hcore
    rw [requeue, hc]
    exact htop hcore
  | some c =>
    rw [requeue, hc]
    by_cases hidle : c = k.idleTask
    · have hrun : k.running = [] := by rw [Kernel.running, hc]; exact if_pos hidle
      rw [hrun] at hcore
      dsimp only
      rw [if_pos hidle]
      exact htop hcore
    · rw [running_of_ne hc hidle] at hcore
      dsimp only
      rw [if_neg hidle]
      exact htop (hcore.addReady List.not_mem_nil fun hch => hroom hch c hc hidle)

/-- An interrupt: exactly the tasks that wait for one of its events are woken up. -/
theorem interrupt_spec (h : Inv cq ch sent k) (hp : k.point = .user) (ctx : Ctx) (x0 : BitVec 64)
    (irqs : List Irq) (hroom : ch → k.Room (.interrupt ctx x0 irqs)) :
  ∃ c k' ts, k.current = some c ∧ k.step (.interrupt ctx x0 irqs) = some (k'.setPoint .bottom)
    ∧ Woken ((k.storeTd c ctx 0).setRetval c x0) k' ts
    ∧ (∀ p, p ∈ ts ↔ p ∈ k.waiting (eventIds irqs))
    ∧ Inv cq ch sent (k'.setPoint .bottom)
  := by
  have htop : k.point ≠ .top := by
    rw [hp]
    exact Point.noConfusion
  obtain ⟨c, hc⟩ := Option.ne_none_iff_exists'.mp (h.running hp)
  have hagree : Agree k ((k.storeTd c ctx 0).setRetval c x0) :=
    (k.agree_storeTd c ctx 0).trans (agree_setRetval _ c x0)
  have hwait : ((k.storeTd c ctx 0).setRetval c x0).waiting (eventIds irqs)
      = k.waiting (eventIds irqs) := List.filter_congr fun p _ => by rw [hagree.state]
  obtain ⟨q, hcore⟩ := h.core
  rw [floating_user htop] at hcore
  have hready := h.ready htop
  obtain ⟨k', ts, q', heq, hwoken, hts, hcore'⟩ := kIntrHandler_spec irqs (hcore.congr hagree)
    (by
      intro p hp
      rw [hagree.state]
      exact hready p (mem_running hp))
    (by
      intro hch
      rw [hwait]
      exact hroom hch)
  rw [hwait] at hts
  refine ⟨c, k', ts, hc, ?_, hwoken, hts, Handled.inv (k := k) ⟨⟨q', ?_⟩, ?_⟩⟩
  · rw [step, hc]
    exact congrArg (Option.bind · fun k => some (k.setPoint .bottom)) heq
  · have hrun : k'.running = k.running := by
      rw [running, running, hwoken.current, hwoken.idleTask]
      rfl
    rw [hrun]
    exact hcore'
  · intro p hp'
    rw [hwoken.current] at hp'
    rw [hwoken.state]
    split
    · rfl
    · exact (hagree.state p).trans (hready p hp')

omit [TaskAlloc A] in
/-- Tasks are found by their identity. -/
theorem SameQueues.lookup (h : SameQueues k k') (tid : ℤ) :
  k'.kTaskMgrGetTaskDsp tid = k.kTaskMgrGetTaskDsp tid
  := by
  rw [kTaskMgrGetTaskDsp, kTaskMgrGetTaskDsp, h.mapTid]
  congr 1
  funext p
  rw [h.tid]

/-- What the allocators allow does not depend on the registers that are saved. -/
theorem AllocOk.storeTd {a : Act} (hok : k.AllocOk a) (p : TdPtr) (ctx : Ctx) (esrEl1 : ℕ) :
  (k.storeTd p ctx esrEl1).AllocOk a
  := by
  cases a with
  | syscall _ call =>
    cases call with
    | create priority args argsLen =>
      exact Or.imp_left (fun hproper => ⟨hproper.priority, hproper.frame, hproper.room⟩) hok
    | exit =>
      intro c hc
      rw [StackSafe, (k.agree_storeTd p ctx esrEl1).stack]
      exact hok c hc
    | _ => trivial
  | _ => trivial

/-- The conditions do not depend on the registers that are saved. -/
theorem Ok.storeTd {ctx : Ctx} {call : Call} (hok : Ok cq ch k (.syscall ctx call)) (p : TdPtr)
    (ctx' : Ctx) (esrEl1 : ℕ) :
  Ok cq ch (k.storeTd p ctx' esrEl1) (.syscall ctx call)
  := by
  have hagree := k.agree_storeTd p ctx' esrEl1
  have hlook := hagree.sameQueues.lookup
  have hqueue := hagree.sameQueues.queue
  constructor
  · exact hok.enabled
  · exact hok.event
  · exact hok.alloc.storeTd p ctx' esrEl1
  · intro hcq
    have hsend := hok.send hcq
    cases call <;> try trivial
    simpa only [SendRoom, hlook, hagree.state, hqueue] using hsend
  · intro hcq
    have hexit := hok.exit hcq
    cases call <;> try trivial
    intro c hc
    rw [hqueue]
    exact hexit c hc
  · intro hch
    have hroom := hok.room hch
    cases call <;> try trivial
    case send =>
      intro r hr hstate
      rw [hlook] at hr
      rw [hagree.state] at hstate
      exact hroom r hr hstate
    case recv =>
      intro c hc hne
      rw [hqueue] at hne
      exact hroom c hc hne
    case reply =>
      intro r hr hstate
      rw [hlook] at hr
      rw [hagree.state] at hstate
      exact hroom r hr hstate

/-- The state of the kernel when the handler of a system call starts. -/
theorem Inv.trapped {cq ch : Prop} (h : Inv cq ch sent k) {ctx : Ctx} {call : Call}
    (henabled : k.Enabled (.syscall ctx call)) :
  ∃ c q, k.current = some c ∧ c ≠ k.idleTask
    ∧ Core cq ch sent (k.storeTd c ctx (esrSvc call.number)) q [c]
    ∧ (k.storeTd c ctx (esrSvc call.number)).state c = TaskState.ready
    ∧ ∀ k', (k.storeTd c ctx (esrSvc call.number)).handle call = some k' →
        k.step (.syscall ctx call) = some (k'.setPoint .bottom)
  := by
  obtain ⟨hp, hne⟩ := henabled
  have htop : k.point ≠ .top := by
    rw [hp]
    exact Point.noConfusion
  obtain ⟨c, hc⟩ := Option.ne_none_iff_exists'.mp (h.running hp)
  have hidle : c ≠ k.idleTask := by
    rintro rfl
    exact hne hc
  obtain ⟨q, hcore⟩ := h.core
  rw [floating_user htop, running_of_ne hc hidle] at hcore
  have hagree := k.agree_storeTd c ctx (esrSvc call.number)
  refine ⟨c, q, hc, hidle, hcore.congr hagree, (hagree.state c).trans (h.ready htop c hc), ?_⟩
  intro k' heq
  rw [step, hc]
  exact congrArg (Option.bind · fun k => some (k.setPoint .bottom)) heq

/-- A system call. -/
theorem syscall_inv (h : Inv cq ch sent k) {ctx : Ctx} {call : Call}
    (hok : Ok cq ch k (.syscall ctx call)) :
  ∃ k', k.step (.syscall ctx call) = some k'
    ∧ Inv cq ch (k.sentAfter sent (.syscall ctx call)) k'
  := by
  obtain ⟨c, q, hc, hidle, hcore, hready, hstep⟩ := h.trapped hok.enabled
  have hok₁ := hok.storeTd c ctx (esrSvc call.number)
  obtain ⟨k', heq, hhandled⟩ := handle_spec hcore hc hready hidle call hok.event hok₁.alloc
    hok₁.send hok₁.exit hok₁.room
  exact ⟨k'.setPoint .bottom, hstep k' heq, hhandled.inv⟩

/-- What one action keeps. -/
theorem step_inv (h : Inv cq ch sent k) {a : Act} (hok : Ok cq ch k a) :
  ∃ k', k.step a = some k' ∧ Inv cq ch (k.sentAfter sent a) k'
  := by
  cases a with
  | schedule => exact ⟨_, rfl, schedule_inv h hok.enabled⟩
  | write mem =>
    obtain ⟨c, hc⟩ := Option.ne_none_iff_exists'.mp (h.running hok.enabled)
    refine ⟨_, ?_, h.congr (k.agree_modifyMem c fun _ => mem) rfl rfl⟩
    rw [step, hc]
    rfl
  | syscall ctx call => exact syscall_inv h hok
  | interrupt ctx x0 irqs =>
    obtain ⟨c, k', ts, -, hstep, -, -, hinv⟩ := interrupt_spec h hok.enabled ctx x0 irqs hok.room
    exact ⟨_, hstep, hinv⟩
  | requeue => exact ⟨_, rfl, requeue_inv h hok.enabled hok.room⟩

end Kernel

end TrainsOs
