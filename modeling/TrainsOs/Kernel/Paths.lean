import TrainsOs.Kernel.Arena

/-!
# The two paths of a message

A message is delivered by `k_send_handler` when the receiver waits for it, and by
`k_recv_handler` when the sender waits in the queue of the receiver. From a state in
which both tasks are ready the two orders are compared. The scheduler would choose one of
them by the keys, so here a task is taken out of the ready heap whatever its key is.
-/

namespace TrainsOs

namespace Kernel

variable {A : Type} {k k' k'' : Kernel A} {q : Blocked → List TdPtr} {p r s : TdPtr}
  {heap heap' : BinHeap TdPtr}

/-! ### Turns -/

/-- Taking the task `p` out of the first heap leaves the second. -/
structure Takes (heap : BinHeap TdPtr) (p : TdPtr) (heap' : BinHeap TdPtr) : Prop where
  perm : heap.toList.Perm (p :: heap'.toList)
  count : heap.count = heap'.count + 1
  capacity : heap'.capacity = heap.capacity

/-- The task `p` has been taken out of the heap and runs. -/
def dispatch (k : Kernel A) (p : TdPtr) (heap : BinHeap TdPtr) : Kernel A :=
  ((k.putHeap heap k.insertions (k.log ++ [.next p])).setCurrent (some p)).setPoint .user

/-- An iteration of `k_loop` in which the task `p` makes a system call. -/
def turn [TaskAlloc A] (k : Kernel A) (p : TdPtr) (heap : BinHeap TdPtr) (ctx : Ctx)
    (call : Call) : Option (Kernel A) :=
  Run.run step (k.dispatch p heap) [.syscall ctx call, .requeue]

/-- An iteration in which the scheduler chooses the task is a turn. -/
theorem run_eq_turn [TaskAlloc A] (h : (k.kSchedGetNext).2 = some p) (ctx : Ctx) (call : Call) :
  ∃ heap, Takes k.heap p heap
    ∧ Run.run step k [.schedule, .syscall ctx call, .requeue] = k.turn p heap ctx call
  := by
  obtain ⟨heq, -⟩ | ⟨p', heap, heq, hperm, hcount, hcap⟩ := k.kSchedGetNext_eq
  · rw [heq] at h
    cases h
  · rw [heq] at h
    obtain rfl := Option.some.inj h
    refine ⟨heap, ⟨hperm, hcount, hcap⟩, ?_⟩
    have hsched : k.schedule = k.dispatch p' heap := by
      rw [schedule, heq]
      rfl
    apply Run.run_cons
    exact congrArg some hsched

/-- The task `p` was dispatched and its registers are saved. -/
def trapped (k : Kernel A) (p : TdPtr) (heap : BinHeap TdPtr) (ctx : Ctx) (call : Call) :
    Kernel A :=
  (k.dispatch p heap).storeTd p ctx (esrSvc call.number)

/-- A turn in which the handler leaves no current task. -/
theorem turn_eq [TaskAlloc A] (k : Kernel A) (p : TdPtr) (heap : BinHeap TdPtr) (ctx : Ctx)
    (call : Call)
    (h : (k.trapped p heap ctx call).handle call = some (k'.setCurrent none)) :
  k.turn p heap ctx call = some ((k'.setCurrent none).setPoint .top)
  := by
  have hstep : (k.dispatch p heap).step (.syscall ctx call)
      = ((k.trapped p heap ctx call).handle call).bind fun k => some (k.setPoint .bottom) := rfl
  rw [h] at hstep
  rw [turn, Run.run_cons hstep]
  rfl

/-! ### Lists of blocked tasks -/

/-- A task on no list is blocked. -/
theorem addWait_forest (h : DList.Forest k.links k.blocked q) (hp : ∀ b, p ∉ q b) (b : Blocked)
    (state : ℕ) :
  ∃ l hd, k.addWait b p state = some ((k.setState p state).relink l hd)
    ∧ DList.Forest l hd (Function.update q b (q b ++ [p]))
  := by
  obtain ⟨l, happ, hforest, -⟩ := h.append b hp
  use l, Function.update k.blocked b (q b ++ [p]).head?
  refine ⟨?_, hforest⟩
  rw [addWait, dlAppend, happ]
  rfl

/-- A blocked task is taken off its list. -/
theorem removeWait_forest {b : Blocked} (h : DList.Forest k.links k.blocked q) (hp : p ∈ q b)
    (ht : b.test (k.state p) = true) :
  ∃ l hd, k.removeWait b p = some (k.relink l hd)
    ∧ DList.Forest l hd (Function.update q b ((q b).erase p))
  := by
  obtain ⟨l, hdel, hforest, -⟩ := h.delete hp
  use l, Function.update k.blocked b ((q b).erase p).head?
  refine ⟨?_, hforest⟩
  rw [removeWait]
  exact (if_pos ht).trans (by rw [dlDelete, hdel]; rfl)

/-- Blocking a task and taking it off its list again leaves the lists as they were. -/
theorem update_append_erase (q : Blocked → List TdPtr) {b : Blocked} (hp : p ∉ q b) :
  Function.update (Function.update q b (q b ++ [p])) b
      ((Function.update q b (q b ++ [p]) b).erase p) = q
  := by
  rw [Function.update_self, Function.update_idem, List.erase_append_right _ hp,
    List.erase_cons_head, List.append_nil, Function.update_eq_self]

/-! ### What a delivery leads to -/

/-- The states between two actions in which `r` and `s` are ready and nobody waits to send
to `r`. -/
structure BothReady (k : Kernel A) (q : Blocked → List TdPtr) (r s : TdPtr) : Prop where
  forest : DList.Forest k.links k.blocked q
  mem_r : r ∈ k.heap.toList
  mem_s : s ∈ k.heap.toList
  free_r : ∀ b, r ∉ q b
  free_s : ∀ b, s ∉ q b
  state_r : k.state r = TaskState.ready
  find : k.kTaskMgrGetTaskDsp (k.td r).tid = some r
  wf : (k.ring r).Wf
  capacity : (k.ring r).capacity = userStackArrayCnt
  nil : k.queue r = []
  nodup : k.heap.toList.Nodup
  count_le : k.heap.count ≤ k.heap.capacity

/-- What `r` and `s` pass to `ke_recv` and `ke_send`, with their registers when they are
trapped. -/
structure Message where
  ctxRecv : Ctx
  tid : ℕ
  buf : ℕ
  buflen : ℕ
  ctxSend : Ctx
  msg : ℕ
  msglen : ℕ
  reply : ℕ
  rplen : ℕ

def Message.recv (m : Message) : Call :=
  .recv m.tid m.buf m.buflen

def Message.send (m : Message) (tid : ℤ) : Call :=
  .send tid m.msg m.msglen m.reply m.rplen

/-- The two descriptors are the same but for the insertion counter of the key and the
place of the wait queue in its buffer. -/
def SameDsp (t t' : TaskDsp) : Prop :=
  { t with
    insertVal := t'.insertVal
    mailbox := { t.mailbox with senderWaitqueue := t'.mailbox.senderWaitqueue } } = t'

/-- What no call of `ke_send` or `ke_recv` changes. -/
structure Frame (k k' : Kernel A) : Prop where
  code : k'.code = k.code
  alloc : k'.alloc = k.alloc
  mapTid : k'.mapTid = k.mapTid
  nextTid : k'.nextTid = k.nextTid
  idleTask : k'.idleTask = k.idleTask
  atNull : k'.atNull = k.atNull
  nullTid : k'.nullTid = k.nullTid

theorem Frame.trans (h : Frame k k') (h' : Frame k' k'') :
  Frame k k''
  := by
  constructor
  · rw [h'.code, h.code]
  · rw [h'.alloc, h.alloc]
  · rw [h'.mapTid, h.mapTid]
  · rw [h'.nextTid, h.nextTid]
  · rw [h'.idleTask, h.idleTask]
  · rw [h'.atNull, h.atNull]
  · rw [h'.nullTid, h.nullTid]

/-- The state `k'` is `k` after the message was delivered to `r` and before `s` gets its
reply. -/
structure Delivered (k : Kernel A) (q : Blocked → List TdPtr) (r s : TdPtr) (m : Message)
    (k' : Kernel A) : Prop where
  frame : Frame k k'
  current : k'.current = none
  point : k'.point = .top
  memory : k'.mem r =
    { bytes := utilMemcpy (k.mem r).bytes m.buf (k.mem s).bytes m.msg (min m.buflen m.msglen)
      ints := Function.update (k.mem r).ints m.tid (BitVec.ofInt 32 (k.td s).tid)
      ptrs := (k.mem r).ptrs }
  mem : ∀ x, x ≠ r → k'.mem x = k.mem x
  receiver : SameDsp
    { k.td r with
      pc := m.ctxRecv.pc
      sp := m.ctxRecv.sp
      pstate := m.ctxRecv.pstate
      esrEl1 := esrSvc m.recv.number
      syscallRetval := BitVec.ofNat 64 m.msglen
      state := TaskState.ready
      mailbox := kMboxRecvInit (k.td r).mailbox m.buf m.buflen m.tid } (k'.td r)
  sender : k'.td s =
    { k.td s with
      pc := m.ctxSend.pc
      sp := m.ctxSend.sp
      pstate := m.ctxSend.pstate
      esrEl1 := esrSvc (m.send (k.td r).tid).number
      state := TaskState.replyBlocked
      mailbox := kMboxSendInit (k.td s).mailbox m.msg m.msglen m.reply m.rplen }
  td : ∀ x, x ≠ r → x ≠ s → k'.td x = k.td x
  queue : k'.queue r = []
  ring : (k'.ring r).capacity = (k.ring r).capacity
  lists : DList.Forest k'.links k'.blocked (Function.update q .reply (q .reply ++ [s]))
  heap : k'.heap.toList.Perm (k.heap.toList.erase s)
  capacity : k'.heap.capacity = k.heap.capacity

/-- The state `k'` is `k` after `r` was blocked in `ke_recv`. -/
structure Waits (k : Kernel A) (q : Blocked → List TdPtr) (r : TdPtr) (m : Message)
    (heap : BinHeap TdPtr) (k' : Kernel A) : Prop where
  frame : Frame k k'
  current : k'.current = none
  point : k'.point = .top
  mem : k'.mem = k.mem
  receiver : k'.td r =
    { k.td r with
      pc := m.ctxRecv.pc
      sp := m.ctxRecv.sp
      pstate := m.ctxRecv.pstate
      esrEl1 := esrSvc m.recv.number
      state := TaskState.receiveBlocked
      mailbox := kMboxRecvInit (k.td r).mailbox m.buf m.buflen m.tid }
  td : ∀ x, x ≠ r → k'.td x = k.td x
  lists : DList.Forest k'.links k'.blocked (Function.update q .recv (q .recv ++ [r]))
  heap : k'.heap = heap

/-- The state `k'` is `k` after `s` was blocked in `ke_send` and queued at `r`. -/
structure Queued (k : Kernel A) (q : Blocked → List TdPtr) (r s : TdPtr) (m : Message)
    (heap : BinHeap TdPtr) (k' : Kernel A) : Prop where
  frame : Frame k k'
  current : k'.current = none
  point : k'.point = .top
  mem : k'.mem = k.mem
  sender : k'.td s =
    { k.td s with
      pc := m.ctxSend.pc
      sp := m.ctxSend.sp
      pstate := m.ctxSend.pstate
      esrEl1 := esrSvc (m.send (k.td r).tid).number
      state := TaskState.sendBlocked
      mailbox := kMboxSendInit (k.td s).mailbox m.msg m.msglen m.reply m.rplen }
  receiver : k'.td r =
    { k.td r with mailbox := { (k.td r).mailbox with senderWaitqueue := k'.ring r } }
  td : ∀ x, x ≠ r → x ≠ s → k'.td x = k.td x
  wf : (k'.ring r).Wf
  capacity : (k'.ring r).capacity = (k.ring r).capacity
  queue : k'.queue r = [s]
  lists : DList.Forest k'.links k'.blocked (Function.update q .send (q .send ++ [s]))
  heap : k'.heap = heap

/-- The two states are the same but for the keys, the order in which the heap stores the
tasks, the place of the wait queue of `r` in its buffer and the links of the tasks that
are on no list. -/
structure Same (k k' : Kernel A) (r : TdPtr) : Prop where
  code : k.code = k'.code
  alloc : k.alloc = k'.alloc
  mem : k.mem = k'.mem
  mapTid : k.mapTid = k'.mapTid
  nextTid : k.nextTid = k'.nextTid
  idleTask : k.idleTask = k'.idleTask
  current : k.current = k'.current
  point : k.point = k'.point
  atNull : k.atNull = k'.atNull
  nullTid : k.nullTid = k'.nullTid
  heap : k.heap.toList.Perm k'.heap.toList
  capacity : k.heap.capacity = k'.heap.capacity
  td : ∀ x, x ≠ r → k.td x = k'.td x
  receiver : SameDsp (k.td r) (k'.td r)
  queue : k.queue r = k'.queue r
  ring : (k.ring r).capacity = (k'.ring r).capacity
  lists : ∃ q, DList.Forest k.links k.blocked q ∧ DList.Forest k'.links k'.blocked q

/-- Any two states after the delivery are the same. -/
theorem Delivered.same {m : Message} (h : Delivered k q r s m k') (h' : Delivered k q r s m k'') :
  Same k' k'' r
  := by
  constructor
  · rw [h.frame.code, h'.frame.code]
  · rw [h.frame.alloc, h'.frame.alloc]
  · funext x
    by_cases hx : x = r
    · rw [hx, h.memory, h'.memory]
    · rw [h.mem x hx, h'.mem x hx]
  · rw [h.frame.mapTid, h'.frame.mapTid]
  · rw [h.frame.nextTid, h'.frame.nextTid]
  · rw [h.frame.idleTask, h'.frame.idleTask]
  · rw [h.current, h'.current]
  · rw [h.point, h'.point]
  · rw [h.frame.atNull, h'.frame.atNull]
  · rw [h.frame.nullTid, h'.frame.nullTid]
  · exact h.heap.trans h'.heap.symm
  · rw [h.capacity, h'.capacity]
  · intro x hx
    by_cases hs : x = s
    · rw [hs, h.sender, h'.sender]
    · rw [h.td x hx hs, h'.td x hx hs]
  · have heq := h.receiver
    have heq' := h'.receiver
    rw [SameDsp] at heq heq' ⊢
    rw [← heq, ← heq']
  · rw [h.queue, h'.queue]
  · rw [h.ring, h'.ring]
  · exact ⟨_, h.lists, h'.lists⟩

/-! ### The handlers -/

section Handlers

variable [TaskAlloc A] {tid : ℤ} (tidPtr buf buflen msg msglen reply rplen : ℕ)

omit [TaskAlloc A] in
/-- Receiving before anything is sent. -/
theorem recv_waits (hc : k.current = some r) (hnil : k.queue r = [])
    (h : DList.Forest k.links k.blocked q) (hr : ∀ b, r ∉ q b) :
  ∃ l hd, k.kRecvHandler tidPtr buf buflen
      = some ((((k.recvInit r tidPtr buf buflen).setState r TaskState.receiveBlocked).relink l
        hd).setCurrent none)
    ∧ DList.Forest l hd (Function.update q .recv (q .recv ++ [r]))
  := by
  obtain ⟨l, hd, hadd, hforest⟩ := addWait_forest (k := k.recvInit r tidPtr buf buflen) h hr .recv
    TaskState.receiveBlocked
  refine ⟨l, hd, ?_, hforest⟩
  rw [recvInit] at hadd
  simp only [kRecvHandler, hc, kMboxPopSendQueue_nil hnil, Option.bind_eq_bind, Option.bind_some,
    kSchedAddRecvWait, hadd]
  rfl

/-- Sending to a task that waits for a message. -/
theorem send_delivers (hc : k.current = some s) (hlook : k.kTaskMgrGetTaskDsp tid = some r)
    (hstate : k.state r = TaskState.receiveBlocked) (hne : r ≠ s)
    (h : DList.Forest k.links k.blocked (Function.update q .recv (q .recv ++ [r])))
    (hr : ∀ b, r ∉ q b) (hs : ∀ b, s ∉ q b) :
  ∃ l hd, k.kSendHandler tid msg msglen reply rplen
      = some ((((((k.sendInit s msg msglen reply rplen).deliver r s).setState s
        TaskState.replyBlocked).relink l hd).kSchedAddReady r).setCurrent none)
    ∧ DList.Forest l hd (Function.update q .reply (q .reply ++ [s]))
  := by
  have hagree := (k.agree_sendInit s msg msglen reply rplen).trans (agree_deliver _ r s)
  have hsfree : ∀ b, s ∉ Function.update q .recv (q .recv ++ [r]) b := by
    intro b
    by_cases hb : b = .recv
    · rw [hb, Function.update_self, List.mem_append, List.mem_singleton, not_or]
      exact ⟨hs .recv, hne.symm⟩
    · rw [Function.update_of_ne hb]
      exact hs b
  obtain ⟨l₁, hd₁, hadd, hforest₁⟩ := addWait_forest
    (k := (k.sendInit s msg msglen reply rplen).deliver r s) h hsfree .reply
    TaskState.replyBlocked
  have hcomm : Function.update (Function.update q .recv (q .recv ++ [r])) .reply
      (Function.update q .recv (q .recv ++ [r]) .reply ++ [s])
        = Function.update (Function.update q .reply (q .reply ++ [s])) .recv
          (Function.update q .reply (q .reply ++ [s]) .recv ++ [r]) := by
    rw [Function.update_of_ne (by decide), Function.update_of_ne (by decide),
      Function.update_comm (by decide)]
  rw [hcomm] at hforest₁
  have hrfree : r ∉ Function.update q .reply (q .reply ++ [s]) .recv := by
    rw [Function.update_of_ne (by decide)]
    exact hr .recv
  have ht : Blocked.recv.test (((((k.sendInit s msg msglen reply rplen).deliver r s).setState s
      TaskState.replyBlocked).relink l₁ hd₁).state r) = true := by
    have heq := state_setState ((k.sendInit s msg msglen reply rplen).deliver r s) s
      TaskState.replyBlocked r
    rw [if_neg hne, hagree.state, hstate] at heq
    exact decide_eq_true heq
  obtain ⟨l, hd, hrem, hforest⟩ := removeWait_forest (b := .recv)
    (k := (((k.sendInit s msg msglen reply rplen).deliver r s).setState s
      TaskState.replyBlocked).relink l₁ hd₁) hforest₁
    (by
      rw [Function.update_self]
      exact List.mem_append_right _ (List.mem_singleton.mpr rfl)) ht
  rw [update_append_erase _ hrfree] at hforest
  refine ⟨l, hd, ?_, hforest⟩
  have hinit : ((k.sendInit s msg msglen reply rplen).td r).state = TaskState.receiveBlocked :=
    ((k.agree_sendInit s msg msglen reply rplen).state r).trans hstate
  rw [sendInit] at hadd hrem hinit
  simp only [kSendHandler, hc, hlook, Option.bind_eq_bind, Option.bind_some, hinit, if_true,
    kSchedAddReplyWait, kSchedRemoveRecvWait, hadd, hrem]
  rfl

/-- Sending to a task that does not wait for a message. -/
theorem send_waits (hc : k.current = some s) (hlook : k.kTaskMgrGetTaskDsp tid = some r)
    (hstate : k.state r ≠ TaskState.receiveBlocked) (hnil : k.queue r = []) (hwf : (k.ring r).Wf)
    (hcap : (k.ring r).capacity = userStackArrayCnt)
    (h : DList.Forest k.links k.blocked q) (hs : ∀ b, s ∉ q b) :
  ∃ ring l hd, k.kSendHandler tid msg msglen reply rplen
      = some (((((k.sendInit s msg msglen reply rplen).setRing r ring).setState s
        TaskState.sendBlocked).relink l hd).setCurrent none)
    ∧ ring.Wf ∧ ring.capacity = userStackArrayCnt ∧ ring.toList = [s]
    ∧ DList.Forest l hd (Function.update q .send (q .send ++ [s]))
  := by
  have hinit := k.agree_sendInit s msg msglen reply rplen
  have hsize : (k.ring r).size = 0 := by
    rw [← RingBuffer.length_toList]
    exact congrArg List.length hnil
  obtain ⟨ring, hpush, hwf', hcap', hlist⟩ := kMboxAddSendQueue_room
    (k := k.sendInit s msg msglen reply rplen) (r := r) (by rwa [hinit.ring r])
    (by rw [hinit.ring r, hcap, hsize]; decide) s
  rw [hinit.ring r, hcap] at hcap'
  rw [hinit.sameQueues.queue r, hnil, List.nil_append] at hlist
  obtain ⟨l, hd, hadd, hforest⟩ := addWait_forest
    (k := (k.sendInit s msg msglen reply rplen).setRing r ring) h hs .send TaskState.sendBlocked
  refine ⟨ring, l, hd, ?_, hwf', hcap', hlist, hforest⟩
  have hother : ((k.sendInit s msg msglen reply rplen).td r).state ≠ TaskState.receiveBlocked :=
    fun hr => hstate ((hinit.state r).symm.trans hr)
  rw [sendInit] at hpush hadd hother
  simp only [kSendHandler, hc, hlook, Option.bind_eq_bind, Option.bind_some, hother, if_false,
    kSchedAddSendWait, hpush, hadd]
  rfl

/-- Receiving from the only task that waits to send. -/
theorem recv_delivers (hc : k.current = some r) (hqueue : k.queue r = [s]) (hwf : (k.ring r).Wf)
    (hstate : k.state s = TaskState.sendBlocked)
    (h : DList.Forest k.links k.blocked (Function.update q .send (q .send ++ [s])))
    (hs : ∀ b, s ∉ q b) :
  ∃ ring l hd, k.kRecvHandler tidPtr buf buflen
      = some (((((((k.setRing r ring).recvInit r tidPtr buf buflen).deliver r s).setState s
        TaskState.replyBlocked).relink l hd).kSchedAddReady r).setCurrent none)
    ∧ ring.capacity = (k.ring r).capacity ∧ ring.toList = []
    ∧ DList.Forest l hd (Function.update q .reply (q .reply ++ [s]))
  := by
  obtain ⟨ring, hpop, -, hcap, hlist⟩ := kMboxPopSendQueue_cons hwf hqueue
  have hagree := (agree_recvInit (k.setRing r ring) r tidPtr buf buflen).trans (agree_deliver _ r s)
  have ht : Blocked.send.test ((((k.setRing r ring).recvInit r tidPtr buf buflen).deliver r
      s).state s) = true := by
    have heq := (hagree.state s).trans ((state_setRing k r ring s).trans hstate)
    exact decide_eq_true heq
  obtain ⟨l₁, hd₁, hrem, hforest₁⟩ := removeWait_forest (b := .send)
    (k := ((k.setRing r ring).recvInit r tidPtr buf buflen).deliver r s) h
    (by
      rw [Function.update_self]
      exact List.mem_append_right _ (List.mem_singleton.mpr rfl)) ht
  rw [update_append_erase _ (hs .send)] at hforest₁
  obtain ⟨l, hd, hadd, hforest⟩ := addWait_forest
    (k := (((k.setRing r ring).recvInit r tidPtr buf buflen).deliver r s).relink l₁ hd₁) hforest₁
    hs .reply TaskState.replyBlocked
  refine ⟨ring, l, hd, ?_, hcap, hlist, hforest⟩
  rw [recvInit] at hrem hadd
  simp only [kRecvHandler, hc, hpop, Option.bind_eq_bind, Option.bind_some, kSchedRemoveSendWait,
    kSchedAddReplyWait, hrem, hadd]
  rfl

end Handlers

/-! ### The two orders -/

section Orders

/-- Making a task ready with room in the heap. -/
theorem heap_kSchedAddReady (hroom : k.heap.count < k.heap.capacity) :
  (k.kSchedAddReady p).heap.toList.Perm (p :: k.heap.toList)
    ∧ (k.kSchedAddReady p).heap.capacity = k.heap.capacity
  := by
  obtain ⟨n, heap, m, heq, hcap, hperm, -⟩ := k.kSchedAddReady_eq p
  rw [heq]
  exact ⟨(hperm hroom).1, hcap⟩

/-- The descriptors when a task is made ready. -/
theorem td_kSchedAddReady (k : Kernel A) (p : TdPtr) :
  ∃ n, ∀ x, (k.kSchedAddReady p).td x = if x = p then readyDsp n (k.td p) else k.td x
  := by
  obtain ⟨n, heap, m, heq, -⟩ := k.kSchedAddReady_eq p
  use n
  rw [heq]
  exact k.modify_td p (readyDsp n)

/-- Two tasks that can both be taken out of the heap are different. -/
theorem BothReady.ne (h : BothReady k q r s) (hperm : k.heap.toList.Perm (r :: s :: heap.toList)) :
  r ≠ s
  := by
  have hnodup := hperm.nodup_iff.mp h.nodup
  rintro rfl
  simp at hnodup

/-- Taking `r` and `s` out of the heap, in any order, and putting `r` back. -/
theorem BothReady.perm (h : BothReady k q r s)
    (hperm : k.heap.toList.Perm (r :: s :: heap.toList)) :
  (r :: heap.toList).Perm (k.heap.toList.erase s)
  := by
  have hne := h.ne hperm
  have herase := hperm.erase s
  rw [List.erase_cons_tail (by simpa using hne), List.erase_cons_head] at herase
  exact herase.symm

theorem lookup_congr (hmap : k'.mapTid = k.mapTid) (htid : ∀ x, (k'.td x).tid = (k.td x).tid)
    (tid : ℤ) :
  k'.kTaskMgrGetTaskDsp tid = k.kTaskMgrGetTaskDsp tid
  := by
  rw [kTaskMgrGetTaskDsp, kTaskMgrGetTaskDsp, hmap]
  congr 1
  funext x
  rw [htid]

theorem frame_modify (k : Kernel A) (p : TdPtr) (f : TaskDsp → TaskDsp) :
  Frame k (k.modify p f)
  := ⟨rfl, rfl, rfl, rfl, rfl, rfl, rfl⟩

theorem frame_sendInit (k : Kernel A) (p : TdPtr) (msg msglen reply rplen : ℕ) :
  Frame k (k.sendInit p msg msglen reply rplen)
  := ⟨rfl, rfl, rfl, rfl, rfl, rfl, rfl⟩

theorem frame_recvInit (k : Kernel A) (p : TdPtr) (tid msg msglen : ℕ) :
  Frame k (k.recvInit p tid msg msglen)
  := ⟨rfl, rfl, rfl, rfl, rfl, rfl, rfl⟩

theorem frame_setRing (k : Kernel A) (p : TdPtr) (ring : RingBuffer TdPtr) :
  Frame k (k.setRing p ring)
  := ⟨rfl, rfl, rfl, rfl, rfl, rfl, rfl⟩

theorem frame_relink (k : Kernel A) (l : DList.Links TdPtr) (hd : Blocked → Option TdPtr) :
  Frame k (k.relink l hd)
  := ⟨rfl, rfl, rfl, rfl, rfl, rfl, rfl⟩

theorem frame_leave (k : Kernel A) :
  Frame k ((k.setCurrent none).setPoint .top)
  := ⟨rfl, rfl, rfl, rfl, rfl, rfl, rfl⟩

/-- Leaving the handler keeps the memory, the heap and the lists. -/
theorem leave_keeps (k : Kernel A) :
  ((k.setCurrent none).setPoint .top).mem = k.mem
    ∧ ((k.setCurrent none).setPoint .top).heap = k.heap
    ∧ ((k.setCurrent none).setPoint .top).links = k.links
    ∧ ((k.setCurrent none).setPoint .top).blocked = k.blocked
  := ⟨rfl, rfl, rfl, rfl⟩

theorem relink_keeps (k : Kernel A) (l : DList.Links TdPtr) (hd : Blocked → Option TdPtr) :
  (k.relink l hd).mem = k.mem ∧ (k.relink l hd).heap = k.heap
  := ⟨rfl, rfl⟩

theorem modify_keeps (k : Kernel A) (p : TdPtr) (f : TaskDsp → TaskDsp) :
  (k.modify p f).mem = k.mem ∧ (k.modify p f).heap = k.heap
  := ⟨rfl, rfl⟩

theorem trapped_keeps (k : Kernel A) (p : TdPtr) (heap : BinHeap TdPtr) (ctx : Ctx) (call : Call) :
  (k.trapped p heap ctx call).mem = k.mem ∧ (k.trapped p heap ctx call).heap = heap
  := ⟨rfl, rfl⟩

theorem frame_deliver (k : Kernel A) (r s : TdPtr) :
  Frame k (k.deliver r s)
  := ⟨rfl, rfl, rfl, rfl, rfl, rfl, rfl⟩

theorem frame_kSchedAddReady (k : Kernel A) (p : TdPtr) :
  Frame k (k.kSchedAddReady p)
  := k.kSchedAddReady_of p (P := Frame k) fun _ _ _ => ⟨rfl, rfl, rfl, rfl, rfl, rfl, rfl⟩

theorem frame_trapped (k : Kernel A) (p : TdPtr) (heap : BinHeap TdPtr) (ctx : Ctx) (call : Call) :
  Frame k (k.trapped p heap ctx call)
  := ⟨rfl, rfl, rfl, rfl, rfl, rfl, rfl⟩

/-- The descriptors when the registers of `p` are saved. -/
theorem td_trapped (k : Kernel A) (p : TdPtr) (heap : BinHeap TdPtr) (ctx : Ctx) (call : Call)
    (x : TdPtr) :
  (k.trapped p heap ctx call).td x =
    if x = p then
      { k.td p with
        pc := ctx.pc
        sp := ctx.sp
        pstate := ctx.pstate
        esrEl1 := esrSvc call.number }
    else
      k.td x
  := modify_td (k.dispatch p heap) p
    (fun t => { t with
      pc := ctx.pc
      sp := ctx.sp
      pstate := ctx.pstate
      esrEl1 := esrSvc call.number }) x

/-- The descriptors after a delivery. -/
theorem td_deliver (k : Kernel A) (r s x : TdPtr) :
  (k.deliver r s).td x =
    if x = r then
      { k.td r with syscallRetval := BitVec.ofNat 64 (k.td s).mailbox.outMsgLen }
    else
      k.td x
  := modify_td k r (fun t => { t with
      syscallRetval := BitVec.ofNat 64 (k.td s).mailbox.outMsgLen }) x

/-- The memory after a delivery. -/
theorem mem_deliver (k : Kernel A) (r s x : TdPtr) :
  (k.deliver r s).mem x =
    if x = r then
      { bytes := utilMemcpy (k.mem r).bytes (k.td r).mailbox.inBuf (k.mem s).bytes
          (k.td s).mailbox.outMsg (min (k.td r).mailbox.inBufLen (k.td s).mailbox.outMsgLen)
        ints := Function.update (k.mem r).ints (k.td r).mailbox.inTid
          (BitVec.ofInt 32 (k.td s).tid)
        ptrs := (k.mem r).ptrs }
    else
      k.mem x
  := by
  by_cases hx : x = r
  · rw [hx, if_pos rfl]
    simp [deliver, kMboxCopyMsg, modifyMem, setRetval, modify]
  · rw [if_neg hx]
    simp [deliver, kMboxCopyMsg, modifyMem, setRetval, modify, hx]

variable [TaskAlloc A]

theorem sameQueues_trapped (k : Kernel A) (p : TdPtr) (heap : BinHeap TdPtr) (ctx : Ctx)
    (call : Call) :
  SameQueues k (k.trapped p heap ctx call)
  := by
  have hdispatch : SameQueues k (k.dispatch p heap) := ⟨rfl, rfl, fun _ => rfl, fun _ => rfl⟩
  exact hdispatch.trans (agree_storeTd _ p ctx _).sameQueues

theorem state_trapped (k : Kernel A) (p : TdPtr) (heap : BinHeap TdPtr) (ctx : Ctx)
    (call : Call) (x : TdPtr) :
  (k.trapped p heap ctx call).state x = k.state x
  := (agree_storeTd (k.dispatch p heap) p ctx _).state x

/-- The receiver comes first and waits. -/
theorem BothReady.recv_turn (h : BothReady k q r s) (heap : BinHeap TdPtr) (m : Message) :
  ∃ k', k.turn r heap m.ctxRecv m.recv = some k' ∧ Waits k q r m heap k'
  := by
  have hsame := k.sameQueues_trapped r heap m.ctxRecv m.recv
  obtain ⟨l, hd, heq, hforest⟩ := recv_waits (k := k.trapped r heap m.ctxRecv m.recv)
    m.tid m.buf m.buflen rfl ((hsame.queue r).trans h.nil) h.forest h.free_r
  have hturn := turn_eq k r heap m.ctxRecv m.recv heq
  refine ⟨_, hturn, ?_, rfl, rfl, ?_, ?_, ?_, hforest, ?_⟩
  · exact (((frame_trapped _ _ _ _ _).trans (frame_modify _ _ _)).trans (frame_modify _ _ _)).trans
      ((frame_relink _ _ _).trans (frame_leave _))
  · rw [(leave_keeps _).1, (relink_keeps _ _ _).1, setState, (modify_keeps _ _ _).1, recvInit,
      modifyMailbox, (modify_keeps _ _ _).1, (trapped_keeps _ _ _ _ _).1]
  · simp [recvInit, modifyMailbox, setState, relink, setCurrent, setPoint, modify_td, td_trapped]
  · intro x hx
    simp [recvInit, modifyMailbox, setState, relink, setCurrent, setPoint, modify_td, td_trapped,
      hx]
  · rw [(leave_keeps _).2.1, (relink_keeps _ _ _).2, setState, (modify_keeps _ _ _).2, recvInit,
      modifyMailbox, (modify_keeps _ _ _).2, (trapped_keeps _ _ _ _ _).2]

omit [TaskAlloc A] in
/-- Both paths end in the same way: when both mailboxes are set up the message is copied,
the sender is moved to the list of those who wait for a reply and the receiver is made
ready. -/
theorem delivered {y : Kernel A} {m : Message} {l : DList.Links TdPtr}
    {hd : Blocked → Option TdPtr} {st st' : ℕ} (ring : RingBuffer TdPtr)
    (h : BothReady k q r s) (hperm : k.heap.toList.Perm (r :: s :: y.heap.toList))
    (hcount : k.heap.count = y.heap.count + 2) (hcap : y.heap.capacity = k.heap.capacity)
    (hframe : Frame k y) (hmem : y.mem = k.mem)
    (hr : y.td r =
      { k.td r with
        pc := m.ctxRecv.pc
        sp := m.ctxRecv.sp
        pstate := m.ctxRecv.pstate
        esrEl1 := esrSvc m.recv.number
        state := st
        mailbox :=
          { kMboxRecvInit (k.td r).mailbox m.buf m.buflen m.tid with senderWaitqueue := ring } })
    (hring : ring.toList = [] ∧ ring.capacity = (k.ring r).capacity)
    (hs : y.td s =
      { k.td s with
        pc := m.ctxSend.pc
        sp := m.ctxSend.sp
        pstate := m.ctxSend.pstate
        esrEl1 := esrSvc (m.send (k.td r).tid).number
        state := st'
        mailbox := kMboxSendInit (k.td s).mailbox m.msg m.msglen m.reply m.rplen })
    (htd : ∀ x, x ≠ r → x ≠ s → y.td x = k.td x)
    (hforest : DList.Forest l hd (Function.update q .reply (q .reply ++ [s]))) :
  Delivered k q r s m (((((((y.deliver r s).setState s TaskState.replyBlocked).relink l
    hd).kSchedAddReady r)).setCurrent none).setPoint .top)
  := by
  have hne := h.ne hperm
  have hroom : y.heap.count < y.heap.capacity := by
    have hle := h.count_le
    rw [hcount, ← hcap] at hle
    exact Nat.lt_of_lt_of_le (Nat.lt_succ_of_lt (Nat.lt_succ_self _)) hle
  let x₀ := ((y.deliver r s).setState s TaskState.replyBlocked).relink l hd
  obtain ⟨n, hready⟩ := td_kSchedAddReady x₀ r
  have hx₀ : ∀ x, x₀.td x =
      if x = s then { y.td s with state := TaskState.replyBlocked }
      else if x = r then { y.td r with syscallRetval := BitVec.ofNat 64 m.msglen }
      else y.td x := by
    intro x
    simp only [x₀, relink, setState, modify_td, td_deliver, hs, kMboxSendInit]
    simp [hne.symm]
  have hheap : (x₀.kSchedAddReady r).heap.toList.Perm (r :: y.heap.toList)
      ∧ (x₀.kSchedAddReady r).heap.capacity = y.heap.capacity := heap_kSchedAddReady (k := x₀) hroom
  have htdr : (x₀.kSchedAddReady r).td r
      = readyDsp n { y.td r with syscallRetval := BitVec.ofNat 64 m.msglen } := by
    rw [hready, if_pos rfl, hx₀, if_neg hne, if_pos rfl]
  constructor
  · exact ((hframe.trans (frame_deliver y r s)).trans (frame_modify _ s _)).trans
      (((frame_relink _ l hd).trans (frame_kSchedAddReady _ r)).trans (frame_leave _))
  · rfl
  · rfl
  · change (x₀.kSchedAddReady r).mem r = _
    rw [kSchedAddReady_mem]
    change (y.deliver r s).mem r = _
    rw [mem_deliver, if_pos rfl, hr, hs, hmem]
    rfl
  · intro x hx
    change (x₀.kSchedAddReady r).mem x = _
    rw [kSchedAddReady_mem]
    change (y.deliver r s).mem x = _
    rw [mem_deliver, if_neg hx, hmem]
  · change SameDsp _ ((x₀.kSchedAddReady r).td r)
    rw [htdr, hr]
    rfl
  · change (x₀.kSchedAddReady r).td s = _
    rw [hready, if_neg hne.symm, hx₀, if_pos rfl, hs]
  · intro x hxr hxs
    change (x₀.kSchedAddReady r).td x = _
    rw [hready, if_neg hxr, hx₀, if_neg hxs, if_neg hxr, htd x hxr hxs]
  · change ((x₀.kSchedAddReady r).td r).mailbox.senderWaitqueue.toList = []
    rw [htdr, hr]
    exact hring.1
  · change ((x₀.kSchedAddReady r).td r).mailbox.senderWaitqueue.capacity = _
    rw [htdr, hr]
    exact hring.2
  · rw [(leave_keeps _).2.2.1, (leave_keeps _).2.2.2, kSchedAddReady_links,
      kSchedAddReady_blocked]
    exact hforest
  · rw [(leave_keeps _).2.1]
    exact hheap.1.trans (h.perm hperm)
  · rw [(leave_keeps _).2.1]
    exact hheap.2.trans hcap

/-- The receiver waits and the sender comes second. -/
theorem Waits.send_turn {m : Message} (h : BothReady k q r s) (hw : Waits k q r m heap k')
    (h₁ : Takes k.heap r heap) (h₂ : Takes heap s heap') :
  ∃ k'', k'.turn s heap' m.ctxSend (m.send (k.td r).tid) = some k'' ∧ Delivered k q r s m k''
  := by
  have hperm := h₁.perm.trans (h₂.perm.cons r)
  have hne := h.ne hperm
  have hsame := k'.sameQueues_trapped s heap' m.ctxSend (m.send (k.td r).tid)
  have hlook : k'.kTaskMgrGetTaskDsp (k.td r).tid = some r := by
    rw [lookup_congr hw.frame.mapTid, h.find]
    intro x
    by_cases hx : x = r
    · rw [hx, hw.receiver]
    · rw [hw.td x hx]
  have hstate : k'.state r = TaskState.receiveBlocked := by
    rw [Kernel.state, hw.receiver]
  obtain ⟨l, hd, heq, hforest⟩ := send_delivers
    (k := k'.trapped s heap' m.ctxSend (m.send (k.td r).tid)) m.msg m.msglen m.reply m.rplen
    rfl ((hsame.lookup _).trans hlook) ((k'.state_trapped s heap' _ _ r).trans hstate) hne hw.lists
    h.free_r h.free_s
  have hturn := turn_eq k' s heap' m.ctxSend (m.send (k.td r).tid) heq
  have htd : ∀ x, ((k'.trapped s heap' m.ctxSend (m.send (k.td r).tid)).sendInit s m.msg m.msglen
      m.reply m.rplen).td x =
        if x = s then
          { k.td s with
            pc := m.ctxSend.pc
            sp := m.ctxSend.sp
            pstate := m.ctxSend.pstate
            esrEl1 := esrSvc (m.send (k.td r).tid).number
            mailbox := kMboxSendInit (k.td s).mailbox m.msg m.msglen m.reply m.rplen }
        else
          k'.td x := by
    intro x
    rw [sendInit, modifyMailbox, modify_td, td_trapped, td_trapped, if_pos rfl, hw.td s hne.symm]
    split <;> rfl
  refine ⟨_, hturn, ?_⟩
  apply delivered (k.ring r) h hperm
  · exact h₁.count.trans (congrArg (· + 1) h₂.count)
  · exact h₂.capacity.trans h₁.capacity
  · exact (hw.frame.trans (frame_trapped _ s heap' _ _)).trans (frame_sendInit _ s _ _ _ _)
  · exact hw.mem
  · rw [htd, if_neg hne, hw.receiver]
    rfl
  · exact ⟨h.nil, rfl⟩
  · rw [htd, if_pos rfl]
  · intro x hxr hxs
    rw [htd, if_neg hxs, hw.td x hxr]
  · exact hforest

/-- The sender comes first and waits. -/
theorem BothReady.send_turn (h : BothReady k q r s) (heap : BinHeap TdPtr) (m : Message)
    (hne : r ≠ s) :
  ∃ k', k.turn s heap m.ctxSend (m.send (k.td r).tid) = some k' ∧ Queued k q r s m heap k'
  := by
  have hsame := k.sameQueues_trapped s heap m.ctxSend (m.send (k.td r).tid)
  have hstate : (k.trapped s heap m.ctxSend (m.send (k.td r).tid)).state r
      ≠ TaskState.receiveBlocked := by
    rw [state_trapped, h.state_r]
    decide
  obtain ⟨ring, l, hd, heq, hwf, hcap, hlist, hforest⟩ := send_waits
    (k := k.trapped s heap m.ctxSend (m.send (k.td r).tid)) m.msg m.msglen m.reply m.rplen rfl
    ((hsame.lookup _).trans h.find) hstate ((hsame.queue r).trans h.nil)
    (by rw [hsame.ring]; exact h.wf) (by rw [hsame.ring]; exact h.capacity) h.forest h.free_s
  have hturn := turn_eq k s heap m.ctxSend (m.send (k.td r).tid) heq
  let y := ((((k.trapped s heap m.ctxSend (m.send (k.td r).tid)).sendInit s m.msg m.msglen m.reply
    m.rplen).setRing r ring).setState s TaskState.sendBlocked).relink l hd
  have htd : ∀ x, y.td x =
      if x = s then
        { k.td s with
          pc := m.ctxSend.pc
          sp := m.ctxSend.sp
          pstate := m.ctxSend.pstate
          esrEl1 := esrSvc (m.send (k.td r).tid).number
          state := TaskState.sendBlocked
          mailbox := kMboxSendInit (k.td s).mailbox m.msg m.msglen m.reply m.rplen }
      else if x = r then
        { k.td r with mailbox := { (k.td r).mailbox with senderWaitqueue := ring } }
      else
        k.td x := by
    intro x
    simp only [y, relink, setState, setRing, sendInit, modifyMailbox, modify_td, td_trapped]
    by_cases hxs : x = s
    · simp [hxs, hne.symm]
    · by_cases hxr : x = r
      · subst hxr
        simp [hne]
      · simp [hxs, hxr]
  refine ⟨_, hturn, ?_⟩
  constructor
  · exact ((frame_trapped k s heap _ _).trans (frame_sendInit _ s _ _ _ _)).trans
      (((frame_setRing _ r ring).trans (frame_modify _ s _)).trans
        ((frame_relink _ l hd).trans (frame_leave _)))
  · rfl
  · rfl
  · rw [(leave_keeps _).1, (relink_keeps _ _ _).1, setState, (modify_keeps _ _ _).1, setRing,
      modifyMailbox, (modify_keeps _ _ _).1, sendInit, modifyMailbox, (modify_keeps _ _ _).1,
      (trapped_keeps _ _ _ _ _).1]
  · change y.td s = _
    rw [htd, if_pos rfl]
  · change y.td r = { k.td r with mailbox := { (k.td r).mailbox with
        senderWaitqueue := (y.td r).mailbox.senderWaitqueue } }
    rw [htd, if_neg hne, if_pos rfl]
  · intro x hxr hxs
    change y.td x = _
    rw [htd, if_neg hxs, if_neg hxr]
  · change (y.td r).mailbox.senderWaitqueue.Wf
    rw [htd, if_neg hne, if_pos rfl]
    exact hwf
  · change (y.td r).mailbox.senderWaitqueue.capacity = _
    rw [htd, if_neg hne, if_pos rfl, h.capacity]
    exact hcap
  · change (y.td r).mailbox.senderWaitqueue.toList = _
    rw [htd, if_neg hne, if_pos rfl]
    exact hlist
  · exact hforest
  · rw [(leave_keeps _).2.1, (relink_keeps _ _ _).2, setState, (modify_keeps _ _ _).2, setRing,
      modifyMailbox, (modify_keeps _ _ _).2, sendInit, modifyMailbox, (modify_keeps _ _ _).2,
      (trapped_keeps _ _ _ _ _).2]

/-- The sender waits and the receiver comes second. -/
theorem Queued.recv_turn {m : Message} (h : BothReady k q r s) (hq : Queued k q r s m heap k')
    (h₁ : Takes k.heap s heap) (h₂ : Takes heap r heap') :
  ∃ k'', k'.turn r heap' m.ctxRecv m.recv = some k'' ∧ Delivered k q r s m k''
  := by
  have hperm : k.heap.toList.Perm (r :: s :: heap'.toList) :=
    (h₁.perm.trans (h₂.perm.cons s)).trans (List.Perm.swap _ _ _)
  have hne := h.ne hperm
  have hsame := k'.sameQueues_trapped r heap' m.ctxRecv m.recv
  have hstate : (k'.trapped r heap' m.ctxRecv m.recv).state s = TaskState.sendBlocked := by
    rw [state_trapped, Kernel.state, hq.sender]
  obtain ⟨ring, l, hd, heq, hcap, hlist, hforest⟩ := recv_delivers
    (k := k'.trapped r heap' m.ctxRecv m.recv) m.tid m.buf m.buflen rfl
    ((hsame.queue r).trans hq.queue) (by rw [hsame.ring]; exact hq.wf) hstate hq.lists h.free_s
  have hturn := turn_eq k' r heap' m.ctxRecv m.recv heq
  have htd : ∀ x, (((k'.trapped r heap' m.ctxRecv m.recv).setRing r ring).recvInit r m.tid m.buf
      m.buflen).td x =
        if x = r then
          { k.td r with
            pc := m.ctxRecv.pc
            sp := m.ctxRecv.sp
            pstate := m.ctxRecv.pstate
            esrEl1 := esrSvc m.recv.number
            mailbox :=
              { kMboxRecvInit (k.td r).mailbox m.buf m.buflen m.tid with
                senderWaitqueue := ring } }
        else
          k'.td x := by
    intro x
    simp only [recvInit, setRing, modifyMailbox, modify_td, td_trapped, if_true, hq.receiver]
    split <;> rfl
  refine ⟨_, hturn, ?_⟩
  apply delivered ring h hperm
  · exact h₁.count.trans (congrArg (· + 1) h₂.count)
  · exact h₂.capacity.trans h₁.capacity
  · exact ((hq.frame.trans (frame_trapped _ r heap' _ _)).trans (frame_setRing _ r ring)).trans
      (frame_recvInit _ r _ _ _)
  · exact hq.mem
  · rw [htd, if_pos rfl]
  · exact ⟨hlist, hcap.trans ((congrArg RingBuffer.capacity (hsame.ring r)).trans hq.capacity)⟩
  · rw [htd, if_neg hne.symm, hq.sender]
  · intro x hxr hxs
    rw [htd, if_neg hxr, hq.td x hxr hxs]
  · exact hforest

/-! ### The comparison -/

/-- Both orders lead to the same state, in which the message is delivered. -/
theorem paths_agree {heap₁ heap₂ heap₃ heap₄ : BinHeap TdPtr} (h : BothReady k q r s)
    (h₁ : Takes k.heap r heap₁) (h₂ : Takes heap₁ s heap₂)
    (h₃ : Takes k.heap s heap₃) (h₄ : Takes heap₃ r heap₄) (m : Message) :
  ∃ k₁ k₂ k₃ k₄,
    k.turn r heap₁ m.ctxRecv m.recv = some k₁
    ∧ k₁.heap = heap₁ ∧ k₁.turn s heap₂ m.ctxSend (m.send (k.td r).tid) = some k₂
    ∧ k.turn s heap₃ m.ctxSend (m.send (k.td r).tid) = some k₃
    ∧ k₃.heap = heap₃ ∧ k₃.turn r heap₄ m.ctxRecv m.recv = some k₄
    ∧ Same k₂ k₄ r ∧ Delivered k q r s m k₂ ∧ Delivered k q r s m k₄
  := by
  have hne := h.ne (h₁.perm.trans (h₂.perm.cons r))
  obtain ⟨k₁, hrun₁, hwaits⟩ := h.recv_turn heap₁ m
  obtain ⟨k₂, hrun₂, hdelivered₂⟩ := hwaits.send_turn h h₁ h₂
  obtain ⟨k₃, hrun₃, hqueued⟩ := h.send_turn heap₃ m hne
  obtain ⟨k₄, hrun₄, hdelivered₄⟩ := hqueued.recv_turn h h₃ h₄
  exact ⟨k₁, k₂, k₃, k₄, hrun₁, hwaits.heap, hrun₂, hrun₃, hqueued.heap, hrun₄,
    hdelivered₂.same hdelivered₄, hdelivered₂, hdelivered₄⟩

/-- Two tasks that are ready in a state of a run. -/
theorem Inv.bothReady {cq ch : Prop} {sent : TdPtr → ℤ} (h : Inv cq ch sent k)
    (hp : k.point = .top) (hr : r ∈ k.heap.toList) (hs : s ∈ k.heap.toList)
    (hnil : k.queue r = []) :
  ∃ q, BothReady k q r s
  := by
  obtain ⟨q, hcore⟩ := h.core
  rw [floating, if_pos hp] at hcore
  have hbase := hcore.base
  obtain ⟨hmap, -, hready⟩ := hbase.heap.mem r hr
  obtain ⟨-, -, hready'⟩ := hbase.heap.mem s hs
  have hfree : ∀ x, k.state x = TaskState.ready → ∀ b, x ∉ q b := by
    intro x hx b hb
    have ht := ((hbase.lists.mem_iff b x).mp hb).2.2
    rw [hx, b.not_test_ready] at ht
    cases ht
  use q
  constructor
  · exact hbase.lists.forest
  · exact hr
  · exact hs
  · exact hfree r hready
  · exact hfree s hready'
  · exact hready
  · exact hbase.ids.kTaskMgrGetTaskDsp_eq hmap
  · exact (hcore.queues.wf r hmap).1
  · exact (hcore.queues.wf r hmap).2
  · exact hnil
  · exact hbase.heap.nodup
  · rw [hbase.heap.capacity]
    exact hbase.heap.count_le

end Orders

/-! ### The name server and `user_entry` -/

/-- The two states are the same but for the keys and the order in which the heap stores the
tasks. -/
structure SameButKeys (k k' : Kernel A) : Prop where
  code : k.code = k'.code
  alloc : k.alloc = k'.alloc
  td : ∀ x, { k.td x with insertVal := 0 } = { k'.td x with insertVal := 0 }
  mem : k.mem = k'.mem
  heap : k.heap.toList.Perm k'.heap.toList
  links : k.links = k'.links
  blocked : k.blocked = k'.blocked
  mapTid : k.mapTid = k'.mapTid
  nextTid : k.nextTid = k'.nextTid
  idleTask : k.idleTask = k'.idleTask
  current : k.current = k'.current
  point : k.point = k'.point
  atNull : k.atNull = k'.atNull
  nullTid : k.nullTid = k'.nullTid

/-- A message of 10 bytes to a buffer of 4. -/
def Message.short : Message where
  ctxRecv := ctx₀
  tid := 0
  buf := 64
  buflen := 4
  ctxSend := ctx₀
  msg := 128
  msglen := 10
  reply := 192
  rplen := 8

/-- The heap with one task, or with none. -/
def heapOf (p n : ℕ) : BinHeap TdPtr where
  array _ := p
  count := n
  capacity := kSchedHeapCapacity

theorem bothReady_boot :
  ∃ q, BothReady Arena.bootKernel q 5 3
  := by
  have hinv : Inv True True (fun _ => 0) Arena.bootKernel := Arena.booted.inv _
  exact hinv.bothReady rfl (by decide) (by decide) (by decide)

/-- The name server receives from `user_entry`. -/
theorem paths_agree_server :
  ∃ q k₁ k₂ k₃ k₄,
    Arena.bootKernel.turn 5 (heapOf 3 1) ctx₀ Message.short.recv = some k₁
    ∧ k₁.heap = heapOf 3 1
    ∧ k₁.turn 3 (heapOf 3 0) ctx₀ (Message.short.send (Arena.bootKernel.td 5).tid) = some k₂
    ∧ Arena.bootKernel.turn 3 (heapOf 5 1) ctx₀
        (Message.short.send (Arena.bootKernel.td 5).tid) = some k₃
    ∧ k₃.heap = heapOf 5 1 ∧ k₃.turn 5 (heapOf 5 0) ctx₀ Message.short.recv = some k₄
    ∧ Same k₂ k₄ 5 ∧ Delivered Arena.bootKernel q 5 3 Message.short k₂
    ∧ Delivered Arena.bootKernel q 5 3 Message.short k₄
  := by
  obtain ⟨q, h⟩ := bothReady_boot
  use q
  apply paths_agree h (m := Message.short)
  · exact ⟨by decide, by decide, by decide⟩
  · exact ⟨by decide, by decide, by decide⟩
  · exact ⟨by decide, by decide, by decide⟩
  · exact ⟨by decide, by decide, by decide⟩

/-- Only the sender that comes first takes a slot in the wait queue of the name server, so
that the next sender is stored in another slot. -/
theorem paths_differ :
  ∃ q k₁ k₂ k₃ k₄, BothReady Arena.bootKernel q 5 3
    ∧ Takes Arena.bootKernel.heap 5 (heapOf 3 1) ∧ Takes (heapOf 3 1) 3 (heapOf 3 0)
    ∧ Takes Arena.bootKernel.heap 3 (heapOf 5 1) ∧ Takes (heapOf 5 1) 5 (heapOf 5 0)
    ∧ Arena.bootKernel.turn 5 (heapOf 3 1) ctx₀ Message.short.recv = some k₁
    ∧ k₁.turn 3 (heapOf 3 0) ctx₀ (Message.short.send (Arena.bootKernel.td 5).tid) = some k₂
    ∧ Arena.bootKernel.turn 3 (heapOf 5 1) ctx₀
        (Message.short.send (Arena.bootKernel.td 5).tid) = some k₃
    ∧ k₃.turn 5 (heapOf 5 0) ctx₀ Message.short.recv = some k₄ ∧ ¬ SameButKeys k₂ k₄
  := by
  obtain ⟨q, h⟩ := bothReady_boot
  refine ⟨q, _, _, _, _, h, ⟨by decide, by decide, by decide⟩, ⟨by decide, by decide, by decide⟩,
    ⟨by decide, by decide, by decide⟩, ⟨by decide, by decide, by decide⟩, rfl, rfl, rfl, rfl, ?_⟩
  intro hsame
  have hhead := congrArg (fun t => t.mailbox.senderWaitqueue.head) (hsame.td 5)
  revert hhead
  decide

end Kernel

end TrainsOs
