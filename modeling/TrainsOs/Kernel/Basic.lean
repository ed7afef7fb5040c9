import TrainsOs.Lib.BinHeap
import TrainsOs.Lib.DList
import TrainsOs.Lib.RingBuffer
import Mathlib.Data.Finset.Card
import Mathlib.Data.Set.Insert

/-!
# The state of the kernel

The task descriptors of `task.h` with their mailboxes, the scheduler of `scheduler.h` and
the task manager. The descriptors live in one map on descriptor pointers, which also
holds whatever is in the memory of a descriptor that is not allocated. The two link
fields of the descriptors are the `Links` of the four lists of blocked tasks.

A task has its own memory: bytes, and objects of type `int` and of pointer type. A
pointer that is passed to a system call points into the memory of the calling task.

The slab allocator of the descriptors and the page manager enter through `TaskAlloc`, which is
what the kernel relies on. `Kernel.Allocators` proves it of the allocators of `slab.c` and
`pgmgr.c`.
-/

namespace TrainsOs

/-- A pointer to a task descriptor. -/
abbrev TdPtr := ℕ

/-- `USER_STACK_ARRAY_CNT`: the capacity of a wait queue. -/
def userStackArrayCnt : ℕ := 64

/-- `K_SCHED_HEAP_CAPACITY`. -/
def kSchedHeapCapacity : ℕ := 200

/-- `KE_PRIO_MAX`, the smallest number. -/
def kePrioMax : ℤ := 0

/-- `KE_PRIO_MIN`, the greatest number. -/
def kePrioMin : ℤ := 20

/-- `KE_INTR_ID_RANGE_MIN`. -/
def keIntrIdRangeMin : ℕ := 16

/-- `K_TID_INVALID`. -/
def kTidInvalid : ℤ := -1

/-! ### Task states -/

/-! The field `state` of a descriptor holds an enumerator of `enum kTaskState` or the
identifier of an event. -/

namespace TaskState

def ready : ℕ := 1
def sendBlocked : ℕ := 3
def receiveBlocked : ℕ := 4
def replyBlocked : ℕ := 5

end TaskState

/-- The lists of blocked tasks. -/
inductive Blocked where
  | recv
  | send
  | reply
  | event
deriving DecidableEq

/-- The test of the state that is asserted before a task is taken off a list. -/
def Blocked.test (b : Blocked) (s : ℕ) : Bool :=
  match b with
  | .recv => s = TaskState.receiveBlocked
  | .send => s = TaskState.sendBlocked
  | .reply => s = TaskState.replyBlocked
  | .event => keIntrIdRangeMin ≤ s

/-! ### Task descriptors -/

/-- `struct kMailbox`. -/
structure Mailbox where
  senderWaitqueue : RingBuffer TdPtr
  outMsg : ℕ
  outMsgLen : ℕ
  inTid : ℕ
  inBuf : ℕ
  inBufLen : ℕ

/-- `struct kTaskDsp` but for its links. The two fields of `priority_key` are `priority`
and `insertVal`. -/
structure TaskDsp where
  pc : ℕ
  sp : ℕ
  pstate : ℕ
  esrEl1 : ℕ
  syscallRetval : BitVec 64
  stackAddr : ℕ
  stackSz : ℕ
  tid : ℤ
  priority : ℕ
  insertVal : ℕ
  state : ℕ
  parentTid : ℤ
  mailbox : Mailbox

/-- The memory of a task: bytes, and objects of type `int` and `void *`. -/
structure UserMem where
  bytes : ℕ → UInt8
  ints : ℕ → BitVec 32
  ptrs : ℕ → ℕ

/-- `util_memcpy` between the memories of two tasks. -/
def utilMemcpy (mem : ℕ → UInt8) (dest : ℕ) (srcMem : ℕ → UInt8) (src n : ℕ) : ℕ → UInt8 :=
  fun a => if dest ≤ a ∧ a < dest + n then srcMem (src + (a - dest)) else mem a

/-- `util_memset`. -/
def utilMemset (mem : ℕ → UInt8) (dest : ℕ) (c : UInt8) (n : ℕ) : ℕ → UInt8 :=
  fun a => if dest ≤ a ∧ a < dest + n then c else mem a

/-- Storing a 64-bit value, the lowest byte first. -/
def storeU64 (mem : ℕ → UInt8) (dest val : ℕ) : ℕ → UInt8 :=
  fun a => if dest ≤ a ∧ a < dest + 8 then UInt8.ofNat (val >>> (8 * (a - dest))) else mem a

/-- Subtraction of 64-bit values. -/
def sub64 (a b : ℕ) : ℕ :=
  (a + 2 ^ 64 - b % 2 ^ 64) % 2 ^ 64

/-! ### The allocators -/

/-- The number of descriptors whose use leaves the free list of their slab alone. The first
slab is set up with `math_rand_u32() = 3338197162`, so its objects start `slab + 256 + 16` bytes
into the page and the first one lies over `free_list[228]` and what follows it. -/
def tdsMax : ℕ := 228

/-- The slab allocator of the task descriptors and the page manager, over states `A`:
`tds` are the descriptors that are allocated and `blocks` the addresses of the blocks of
pages that are handed out for anything but a slab. While the allocators are `Intact`, an
allocation hands out what is not handed out, or leaves everything as it is. They stay so as
long as no more than `tdsMax` descriptors are in use and each block that is freed is
`FreeSafe`: `pg_free_page` merges it with buddies that are free at its level only. -/
class TaskAlloc (A : Type) where
  slabAlloc : A → A × Option TdPtr
  slabFree : A → TdPtr → A
  pgAllocPage : A → ℕ → A × Option ℕ
  pgFreePage : A → ℕ → A
  tds : A → Finset TdPtr
  blocks : A → Set ℕ
  Intact : A → Prop
  FreeSafe : A → ℕ → Prop
  slabAlloc_none : ∀ {a}, Intact a → (slabAlloc a).2 = none →
    tds (slabAlloc a).1 = tds a ∧ blocks (slabAlloc a).1 = blocks a ∧ Intact (slabAlloc a).1
  slabAlloc_fresh : ∀ {a p}, Intact a → (slabAlloc a).2 = some p → p ∉ tds a
  slabAlloc_some : ∀ {a p}, Intact a → (tds a).card < tdsMax → (slabAlloc a).2 = some p →
    tds (slabAlloc a).1 = insert p (tds a) ∧ blocks (slabAlloc a).1 = blocks a
      ∧ Intact (slabAlloc a).1
  slabFree_spec : ∀ {a p}, Intact a → p ∈ tds a →
    tds (slabFree a p) = (tds a).erase p ∧ blocks (slabFree a p) = blocks a
      ∧ Intact (slabFree a p)
  slabFree_slabAlloc : ∀ {a p n}, Intact a → (slabAlloc a).2 = some p →
    (pgAllocPage (slabAlloc a).1 n).2 = none →
    tds (slabFree (pgAllocPage (slabAlloc a).1 n).1 p) = tds a
      ∧ blocks (slabFree (pgAllocPage (slabAlloc a).1 n).1 p) = blocks a
      ∧ Intact (slabFree (pgAllocPage (slabAlloc a).1 n).1 p)
  pgAllocPage_none : ∀ {a n}, Intact a → (pgAllocPage a n).2 = none →
    tds (pgAllocPage a n).1 = tds a ∧ blocks (pgAllocPage a n).1 = blocks a
      ∧ Intact (pgAllocPage a n).1
  pgAllocPage_some : ∀ {a n x}, Intact a → (pgAllocPage a n).2 = some x →
    x ∉ blocks a ∧ tds (pgAllocPage a n).1 = tds a
      ∧ blocks (pgAllocPage a n).1 = insert x (blocks a) ∧ Intact (pgAllocPage a n).1
  pgFreePage_spec : ∀ {a x}, Intact a → x ∈ blocks a → FreeSafe a x →
    tds (pgFreePage a x) = tds a ∧ blocks (pgFreePage a x) = blocks a \ {x}
      ∧ Intact (pgFreePage a x)

namespace TaskAlloc

variable {A : Type} [TaskAlloc A]

/-- The same descriptors are allocated and nothing is given back. -/
def Keeps (a a' : A) : Prop :=
  Intact a → tds a' = tds a ∧ blocks a ⊆ blocks a' ∧ Intact a'

theorem Keeps.refl (a : A) :
  Keeps a a
  := fun ha => ⟨rfl, subset_rfl, ha⟩

theorem Keeps.trans {a a' a'' : A} (h : Keeps a a') (h' : Keeps a' a'') :
  Keeps a a''
  := by
  intro ha
  obtain ⟨htds, hblocks, ha'⟩ := h ha
  obtain ⟨htds', hblocks', ha''⟩ := h' ha'
  exact ⟨htds'.trans htds, hblocks.trans hblocks', ha''⟩

theorem keeps_pgAllocPage (a : A) (n : ℕ) :
  Keeps a (pgAllocPage a n).1
  := by
  intro ha
  cases hpage : (pgAllocPage a n).2 with
  | none =>
    obtain ⟨htds, hblocks, ha'⟩ := pgAllocPage_none ha hpage
    exact ⟨htds, hblocks.ge, ha'⟩
  | some x =>
    obtain ⟨-, htds, hblocks, ha'⟩ := pgAllocPage_some ha hpage
    exact ⟨htds, hblocks ▸ Set.subset_insert x _, ha'⟩

/-- The descriptor `p` and the block at `x` are handed out. -/
structure Gives (a a' : A) (p : TdPtr) (x : ℕ) : Prop where
  fresh : p ∉ tds a
  tds : tds a' = insert p (tds a)
  unused : x ∉ blocks a
  blocks : blocks a' = insert x (blocks a)
  intact : Intact a'

end TaskAlloc

/-! ### The kernel -/

/-- The addresses of the code that the kernel starts tasks with. -/
structure Code where
  loadElf : ℕ
  idleTask : ℕ
  keExit : ℕ

/-- The calls of `k_sched_add_ready` and the tasks returned by `k_sched_get_next`. -/
inductive SchedEvent where
  | ready (td : TdPtr)
  | next (td : TdPtr)
deriving DecidableEq

/-- Where the kernel is in an iteration of `k_loop`: before `k_sched_get_next`, in
`kernel_into_user` while the task runs, or behind it. -/
inductive Point where
  | top
  | user
  | bottom
deriving DecidableEq

/-- The state of the kernel and of the memory of the tasks. The field `atNull` is the
pointer stored at address `0`, if any, and `nullTid` the value found where a descriptor
at address `0` has its `tid`; `log` is a history that the kernel does not have. -/
structure Kernel (A : Type) where
  code : Code
  alloc : A
  td : TdPtr → TaskDsp
  mem : TdPtr → UserMem
  heap : BinHeap TdPtr
  insertions : ℕ
  links : DList.Links TdPtr
  blocked : Blocked → Option TdPtr
  mapTid : List TdPtr
  nextTid : ℤ
  idleTask : TdPtr
  current : Option TdPtr
  point : Point
  atNull : Option TdPtr
  nullTid : ℤ
  log : List SchedEvent

namespace Kernel

variable {A : Type}

/-- Changing the descriptor of one task. -/
def modify (k : Kernel A) (p : TdPtr) (f : TaskDsp → TaskDsp) : Kernel A :=
  { k with td := Function.update k.td p (f (k.td p)) }

/-- Changing the mailbox of one task. -/
def modifyMailbox (k : Kernel A) (p : TdPtr) (f : Mailbox → Mailbox) : Kernel A :=
  k.modify p fun t => { t with mailbox := f t.mailbox }

def setRetval (k : Kernel A) (p : TdPtr) (v : BitVec 64) : Kernel A :=
  k.modify p fun t => { t with syscallRetval := v }

def setState (k : Kernel A) (p : TdPtr) (s : ℕ) : Kernel A :=
  k.modify p fun t => { t with state := s }

def setCurrent (k : Kernel A) (p : Option TdPtr) : Kernel A :=
  { k with current := p }

def setPoint (k : Kernel A) (p : Point) : Kernel A :=
  { k with point := p }

def modifyMem (k : Kernel A) (p : TdPtr) (f : UserMem → UserMem) : Kernel A :=
  { k with mem := Function.update k.mem p (f (k.mem p)) }

/-! ### The scheduler -/

/-- `cmp_keys_task_dsp` on the keys of two tasks. -/
def keyLt (k : Kernel A) (p q : TdPtr) : Bool :=
  if (k.td p).priority = (k.td q).priority then
    (k.td p).insertVal < (k.td q).insertVal
  else
    (k.td p).priority < (k.td q).priority

/-- `k_sched_priority_is_valid`. -/
def kSchedPriorityIsValid (priority : ℤ) : Bool :=
  kePrioMax ≤ priority && priority ≤ kePrioMin

/-- `HEAP_INSERT` on the ready heap. -/
def heapInsert (k : Kernel A) (p : TdPtr) : Kernel A :=
  if k.heap.count < k.heap.capacity then
    let k := k.modify p fun t => { t with insertVal := k.insertions }
    { k with
      heap := k.heap.insert k.keyLt p
      insertions := (k.insertions + 1) % 2 ^ 64 }
  else
    k

/-- `k_sched_add_ready`. -/
def kSchedAddReady (k : Kernel A) (p : TdPtr) : Kernel A :=
  let k := k.setState p TaskState.ready
  let k := k.heapInsert p
  { k with log := k.log ++ [.ready p] }

/-- `k_sched_get_next`: the kernel afterwards and the task, `none` for `NULL`. -/
def kSchedGetNext (k : Kernel A) : Kernel A × Option TdPtr :=
  match k.heap.pop k.keyLt with
  | none => (k, none)
  | some (p, heap) => ({ k with heap := heap, log := k.log ++ [.next p] }, some p)

/-- `DL_APPEND2` on a list of blocked tasks. -/
def dlAppend (k : Kernel A) (b : Blocked) (p : TdPtr) : Option (Kernel A) := do
  let (links, head) ← DList.append k.links (k.blocked b) p
  some { k with links := links, blocked := Function.update k.blocked b head }

/-- `DL_DELETE2` on a list of blocked tasks. -/
def dlDelete (k : Kernel A) (b : Blocked) (p : TdPtr) : Option (Kernel A) := do
  let (links, head) ← DList.delete k.links (k.blocked b) p
  some { k with links := links, blocked := Function.update k.blocked b head }

/-- Blocking a task: it is appended to a list, then its state is set. -/
def addWait (k : Kernel A) (b : Blocked) (p : TdPtr) (s : ℕ) : Option (Kernel A) := do
  let k ← k.dlAppend b p
  some (k.setState p s)

/-- Taking a blocked task off its list: its state is asserted. -/
def removeWait (k : Kernel A) (b : Blocked) (p : TdPtr) : Option (Kernel A) :=
  if b.test (k.td p).state then k.dlDelete b p else none

/-- `k_sched_add_reply_wait`. -/
def kSchedAddReplyWait (k : Kernel A) (p : TdPtr) : Option (Kernel A) :=
  k.addWait .reply p TaskState.replyBlocked

/-- `k_sched_remove_reply_wait`. -/
def kSchedRemoveReplyWait (k : Kernel A) (p : TdPtr) : Option (Kernel A) :=
  k.removeWait .reply p

/-- `k_sched_add_send_wait`. -/
def kSchedAddSendWait (k : Kernel A) (p : TdPtr) : Option (Kernel A) :=
  k.addWait .send p TaskState.sendBlocked

/-- `k_sched_remove_send_wait`. -/
def kSchedRemoveSendWait (k : Kernel A) (p : TdPtr) : Option (Kernel A) :=
  k.removeWait .send p

/-- `k_sched_add_recv_wait`. -/
def kSchedAddRecvWait (k : Kernel A) (p : TdPtr) : Option (Kernel A) :=
  k.addWait .recv p TaskState.receiveBlocked

/-- `k_sched_remove_recv_wait`. -/
def kSchedRemoveRecvWait (k : Kernel A) (p : TdPtr) : Option (Kernel A) :=
  k.removeWait .recv p

/-- `k_sched_add_event_wait`: the state becomes the identifier of the event. -/
def kSchedAddEventWait (k : Kernel A) (p : TdPtr) (intrId : ℕ) : Option (Kernel A) :=
  k.addWait .event p intrId

/-- `k_sched_remove_event_wait`. -/
def kSchedRemoveEventWait (k : Kernel A) (p : TdPtr) : Option (Kernel A) :=
  k.removeWait .event p

/-! ### Mailboxes -/

/-- `k_mbox_init`. -/
def kMboxInit : Mailbox where
  senderWaitqueue := RingBuffer.init 0 userStackArrayCnt
  outMsg := 0
  outMsgLen := 0
  inTid := 0
  inBuf := 0
  inBufLen := 0

/-- `k_mbox_send_init`. -/
def kMboxSendInit (mbox : Mailbox) (msg msglen reply rplen : ℕ) : Mailbox :=
  { mbox with outMsg := msg, outMsgLen := msglen, inBuf := reply, inBufLen := rplen }

/-- `k_mbox_recv_init`. -/
def kMboxRecvInit (mbox : Mailbox) (msg msglen tid : ℕ) : Mailbox :=
  { mbox with inBuf := msg, inBufLen := msglen, inTid := tid }

/-- `k_mbox_add_send_queue` on the mailbox of `receiver`. When the queue is full the
sender is stored through the `NULL` pointer that `RB_PUSH_PRE` gives. -/
def kMboxAddSendQueue (k : Kernel A) (receiver sender : TdPtr) : Kernel A :=
  match (k.td receiver).mailbox.senderWaitqueue.pushPre with
  | none => { k with atNull := some sender }
  | some (ring, slot) =>
      k.modifyMailbox receiver fun m => { m with senderWaitqueue := ring.store slot sender }

/-- `k_mbox_pop_send_queue` on the mailbox of `receiver`. -/
def kMboxPopSendQueue (k : Kernel A) (receiver : TdPtr) : Kernel A × Option TdPtr :=
  let ring := (k.td receiver).mailbox.senderWaitqueue
  match ring.peek with
  | none => (k, none)
  | some slot =>
      (k.modifyMailbox receiver fun m => { m with senderWaitqueue := m.senderWaitqueue.pop },
        some (ring.array slot))

/-- `k_mbox_copy_msg` from the mailbox of `sender` to that of `receiver`. -/
def kMboxCopyMsg (k : Kernel A) (receiver sender : TdPtr) : Kernel A :=
  let dst := (k.td receiver).mailbox
  let src := (k.td sender).mailbox
  let copyLen := min dst.inBufLen src.outMsgLen
  k.modifyMem receiver fun m =>
    { m with bytes := utilMemcpy m.bytes dst.inBuf (k.mem sender).bytes src.outMsg copyLen }

end Kernel

end TrainsOs
