import TrainsOs.Kernel.Basic
import TrainsOs.PgMgr.Basic

/-!
# The task manager and the system calls

The functions of `task.c` and the handlers of `syscall_handler.c`. The tree `map_tid` is
the list of the tasks in it. A handler returns `none` when an assertion fails or `NULL`
is dereferenced.
-/

namespace TrainsOs

namespace Kernel

variable {A : Type}

/-! ### The task manager -/

/-- `k_task_mgr_get_task_dsp`. -/
def kTaskMgrGetTaskDsp (k : Kernel A) (tid : ℤ) : Option TdPtr :=
  k.mapTid.find? fun p => (k.td p).tid = tid

/-- `k_tmgr_get_free_task`: the kernel afterwards and the descriptor, `none` for `NULL`. -/
def kTmgrGetFreeTask [TaskAlloc A] (k : Kernel A) (sz : ℕ) : Kernel A × Option TdPtr :=
  match TaskAlloc.slabAlloc k.alloc with
  | (alloc, none) => ({ k with alloc := alloc }, none)
  | (alloc, some freeTask) =>
      match TaskAlloc.pgAllocPage alloc sz with
      | (alloc, none) => ({ k with alloc := TaskAlloc.slabFree alloc freeTask }, none)
      | (alloc, some stackAddr) =>
          let tid := k.nextTid
          let k := { k with alloc := alloc, nextTid := tid + 1 }
          let k := k.modify freeTask fun t =>
            { t with stackAddr := stackAddr, stackSz := 1 <<< sz, tid := tid }
          -- `rb_find_add`
          match k.kTaskMgrGetTaskDsp tid with
          | some _ => ({ k with alloc := TaskAlloc.slabFree k.alloc freeTask }, none)
          | none => ({ k with mapTid := k.mapTid ++ [freeTask] }, some freeTask)

/-- `k_tmgr_destroy_task`. -/
def kTmgrDestroyTask [TaskAlloc A] (k : Kernel A) (td : TdPtr) : Kernel A :=
  let alloc := TaskAlloc.pgFreePage k.alloc (k.td td).stackAddr
  { k with
    mapTid := k.mapTid.erase td
    alloc := TaskAlloc.slabFree alloc td }

/-- `sizeof(struct kRegStore)`. -/
def sizeofRegStore : ℕ := 240

/-- `k_td_init_user_task`; `args` is read from the memory `src`. -/
def kTdInitUserTask (k : Kernel A) (td : TdPtr) (parentTd : Option TdPtr) (priority : ℕ)
    (userFuncAddr : ℕ) (src : ℕ → UInt8) (args argsLen : ℕ) : Kernel A :=
  let parentTid := match parentTd with
    | some p => (k.td p).tid
    | none => k.nullTid
  let sp := ((k.td td).stackAddr + (k.td td).stackSz) % 2 ^ 64
  let allocLen := argsLen / 16 * 16 + if argsLen % 16 ≠ 0 then 16 else 0
  let sp := sub64 sp (if argsLen ≠ 0 then allocLen else 0)
  let userRegStore := sub64 sp sizeofRegStore
  -- the copy of the arguments, then the registers, of which `x01` and `x30` are set
  let k := k.modifyMem td fun m =>
    let bytes := utilMemcpy m.bytes sp src args argsLen
    let bytes := utilMemset bytes userRegStore 0x5A sizeofRegStore
    let bytes := storeU64 bytes (userRegStore + 224) argsLen
    let bytes := storeU64 bytes (userRegStore + 8) k.code.keExit
    { m with bytes := bytes }
  k.modify td fun t =>
    { t with
      pc := userFuncAddr
      pstate := 0
      priority := priority
      parentTid := parentTid
      state := TaskState.ready
      esrEl1 := 0
      syscallRetval := BitVec.ofNat 64 sp
      sp := userRegStore
      mailbox := kMboxInit }

/-! ### The handlers -/

/-- `k_create_handler`. -/
def kCreateHandler [TaskAlloc A] (k : Kernel A) (priority : ℤ) (args argsLen : ℕ) :
    Option (Kernel A) := do
  let parent ← k.current
  match k.kTmgrGetFreeTask pgSft with
  | (k, none) => some (k.setRetval parent (BitVec.ofInt 64 (-2)))
  | (k, some td) =>
      if !kSchedPriorityIsValid priority then
        some (k.setRetval parent (BitVec.ofInt 64 (-1)))
      else
        let k := k.kTdInitUserTask td (some parent) priority.toNat k.code.loadElf
          (k.mem parent).bytes args argsLen
        let k := k.kSchedAddReady td
        some (k.setRetval parent (BitVec.ofInt 64 (k.td td).tid))

/-- `k_exit_handler`. -/
def kExitHandler [TaskAlloc A] (k : Kernel A) : Option (Kernel A) := do
  let td ← k.current
  some ((k.kTmgrDestroyTask td).setCurrent none)

/-- `k_my_tid_handler`. -/
def kMyTidHandler (k : Kernel A) : Option (Kernel A) := do
  let td ← k.current
  some (k.setRetval td (BitVec.ofInt 64 (k.td td).tid))

/-- `k_my_parent_tid_handler`. -/
def kMyParentTidHandler (k : Kernel A) : Option (Kernel A) := do
  let td ← k.current
  let parentTid := (k.td td).parentTid
  let parentTid :=
    if parentTid ≠ kTidInvalid ∧ k.kTaskMgrGetTaskDsp parentTid = none then
      kTidInvalid
    else
      parentTid
  let k := k.modify td fun t => { t with parentTid := parentTid }
  some (k.setRetval td (BitVec.ofInt 64 parentTid))

/-- The three statements that deliver the message of `sender` to `receiver`, in
`k_send_handler` and in `k_recv_handler`. -/
def deliver (k : Kernel A) (receiver sender : TdPtr) : Kernel A :=
  let k := k.kMboxCopyMsg receiver sender
  let k := k.modifyMem receiver fun m =>
    { m with
      ints := Function.update m.ints (k.td receiver).mailbox.inTid
        (BitVec.ofInt 32 (k.td sender).tid) }
  k.setRetval receiver (BitVec.ofNat 64 (k.td sender).mailbox.outMsgLen)

/-- `k_send_handler`. -/
def kSendHandler (k : Kernel A) (tid : ℤ) (msg msglen reply rplen : ℕ) :
    Option (Kernel A) := do
  let sender ← k.current
  match k.kTaskMgrGetTaskDsp tid with
  | none => some (k.setRetval sender (BitVec.ofInt 64 (-1)))
  | some receiver =>
      let k := k.modifyMailbox sender fun m => kMboxSendInit m msg msglen reply rplen
      if (k.td receiver).state = TaskState.receiveBlocked then
        let k := k.deliver receiver sender
        let k ← k.kSchedAddReplyWait sender
        let k ← k.kSchedRemoveRecvWait receiver
        let k := k.kSchedAddReady receiver
        some (k.setCurrent none)
      else
        let k := k.kMboxAddSendQueue receiver sender
        let k ← k.kSchedAddSendWait sender
        some (k.setCurrent none)

/-- `k_recv_handler`. -/
def kRecvHandler (k : Kernel A) (tid msg msglen : ℕ) : Option (Kernel A) := do
  let receiver ← k.current
  let (k, sender) := k.kMboxPopSendQueue receiver
  let k := k.modifyMailbox receiver fun m => kMboxRecvInit m msg msglen tid
  match sender with
  | none =>
      let k ← k.kSchedAddRecvWait receiver
      some (k.setCurrent none)
  | some sender =>
      let k := k.deliver receiver sender
      let k ← k.kSchedRemoveSendWait sender
      let k ← k.kSchedAddReplyWait sender
      let k := k.kSchedAddReady receiver
      some (k.setCurrent none)

/-- `k_reply_handler`. -/
def kReplyHandler (k : Kernel A) (tid : ℤ) (reply rplen : ℕ) : Option (Kernel A) := do
  let receiver ← k.current
  match k.kTaskMgrGetTaskDsp tid with
  | none => some (k.setRetval receiver (BitVec.ofInt 64 (-1)))
  | some sender =>
      if (k.td sender).state ≠ TaskState.replyBlocked then
        some (k.setRetval receiver (BitVec.ofInt 64 (-2)))
      else
        let copyLen := min rplen (k.td sender).mailbox.inBufLen
        let k := k.setRetval sender (BitVec.ofNat 64 rplen)
        let k := k.setRetval receiver (BitVec.ofNat 64 copyLen)
        let k := k.modifyMem sender fun m =>
          { m with
            bytes := utilMemcpy m.bytes (k.td sender).mailbox.inBuf (k.mem receiver).bytes reply
              copyLen }
        let k ← k.kSchedRemoveReplyWait sender
        some (k.kSchedAddReady sender)

/-- `k_await_event_handler`. -/
def kAwaitEventHandler (k : Kernel A) (intrId : ℕ) : Option (Kernel A) := do
  let td ← k.current
  let k ← k.kSchedAddEventWait td intrId
  some (k.setCurrent none)

/-- `k_mmap_handler`; the block is stored through `target`, `0` being `NULL`. -/
def kMmapHandler [TaskAlloc A] (k : Kernel A) (target memSz : ℕ) : Option (Kernel A) := do
  let td ← k.current
  let (alloc, addr) := TaskAlloc.pgAllocPage k.alloc (msbPos64 (nextPow2 memSz))
  let k := { k with alloc := alloc }
  let k := k.modifyMem td fun m =>
    { m with ptrs := Function.update m.ptrs target (addr.getD 0) }
  some (k.setRetval td 0)

end Kernel

end TrainsOs
