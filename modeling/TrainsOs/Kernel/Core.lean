import TrainsOs.Kernel.Loop

/-!
# The invariant of the kernel

`Core k q F` relates the fields of the kernel to the four lists `q` of blocked tasks. The
tasks in `F` are *floating*: they are alive, but a handler has just taken them off a list
or out of the heap, or they are running. Every other task is on exactly the list that its
state says. The operations of the scheduler are proved as moves of a task between the
lists, the heap and `F`, so that the correctness of a handler is a sequence of moves.

Two parts of the invariant are conditional. With `cq` no task that waits to send is
forgotten by the wait queues, and `sent` says whom it sent to; with `ch` no task is
dropped by the ready heap.
-/

namespace TrainsOs

namespace Kernel

variable {A : Type}

/-- The state of a task. -/
def state (k : Kernel A) (p : TdPtr) : ℕ :=
  (k.td p).state

/-- The wait queue of a task. -/
def ring (k : Kernel A) (p : TdPtr) : RingBuffer TdPtr :=
  (k.td p).mailbox.senderWaitqueue

/-- The tasks in the wait queue of a task, oldest first. -/
def queue (k : Kernel A) (p : TdPtr) : List TdPtr :=
  (k.ring p).toList

/-- The identity of the tasks that are alive: each has a descriptor, a stack and a `tid` of
its own. -/
structure Ids [TaskAlloc A] (k : Kernel A) : Prop where
  intact : TaskAlloc.Intact k.alloc
  nodup : k.mapTid.Nodup
  tds : ∀ p ∈ k.mapTid, p ∈ TaskAlloc.tds k.alloc
  stack : ∀ p ∈ k.mapTid, (k.td p).stackAddr ∈ TaskAlloc.blocks k.alloc
  stack_inj : ∀ p ∈ k.mapTid, ∀ p' ∈ k.mapTid,
    (k.td p).stackAddr = (k.td p').stackAddr → p = p'
  tid_lt : ∀ p ∈ k.mapTid, (k.td p).tid < k.nextTid
  tid_inj : ∀ p ∈ k.mapTid, ∀ p' ∈ k.mapTid, (k.td p).tid = (k.td p').tid → p = p'

/-- The lists of blocked tasks. -/
structure Lists (k : Kernel A) (q : Blocked → List TdPtr) (F : List TdPtr) : Prop where
  forest : DList.Forest k.links k.blocked q
  mem_iff : ∀ b p, p ∈ q b ↔ p ∈ k.mapTid ∧ p ∉ F ∧ b.test (k.state p) = true
  floating : ∀ p ∈ F, p ∈ k.mapTid
  idle_mem : k.idleTask ∈ k.mapTid
  idle_state : k.state k.idleTask = TaskState.ready
  idle_floating : k.idleTask ∉ F

/-- The ready heap. -/
structure Heap (ch : Prop) (k : Kernel A) (F : List TdPtr) : Prop where
  nodup : k.heap.toList.Nodup
  mem : ∀ p ∈ k.heap.toList, p ∈ k.mapTid ∧ p ∉ F ∧ k.state p = TaskState.ready
  idle : k.idleTask ∉ k.heap.toList
  capacity : k.heap.capacity = kSchedHeapCapacity
  count_le : k.heap.count ≤ kSchedHeapCapacity
  placed : ch → ∀ p ∈ k.mapTid, p ≠ k.idleTask → p ∉ F →
    p ∈ k.heap.toList ∨ ∃ b : Blocked, b.test (k.state p) = true
  counted : ch → ∀ p, k.log.count (.ready p) = k.log.count (.next p) + k.heap.toList.count p

/-- The wait queues. -/
structure Queues (cq : Prop) (sent : TdPtr → ℤ) (k : Kernel A) (q : Blocked → List TdPtr) :
    Prop where
  wf : ∀ p ∈ k.mapTid, (k.ring p).Wf ∧ (k.ring p).capacity = userStackArrayCnt
  send : ∀ p ∈ k.mapTid, ∀ s ∈ k.queue p, s ∈ q .send
  nodup : ∀ p ∈ k.mapTid, (k.queue p).Nodup
  apart : ∀ p ∈ k.mapTid, ∀ p' ∈ k.mapTid, ∀ s ∈ k.queue p, s ∈ k.queue p' → p = p'
  recv : ∀ p ∈ q .recv, k.queue p = []
  queued : cq → ∀ s ∈ q .send, ∃ p ∈ k.mapTid, s ∈ k.queue p ∧ sent s = (k.td p).tid
  atNull : cq → k.atNull = none

/-- The invariant without the wait queues. -/
structure Base [TaskAlloc A] (ch : Prop) (k : Kernel A) (q : Blocked → List TdPtr)
    (F : List TdPtr) : Prop where
  ids : k.Ids
  lists : k.Lists q F
  heap : k.Heap ch F

structure Core [TaskAlloc A] (cq ch : Prop) (sent : TdPtr → ℤ) (k : Kernel A)
    (q : Blocked → List TdPtr) (F : List TdPtr) : Prop where
  base : Base ch k q F
  queues : k.Queues cq sent q

/-! ### What the invariant depends on -/

section Agree

/-- The two kernels agree on everything the invariant speaks of. -/
structure Agree [TaskAlloc A] (k k' : Kernel A) : Prop where
  alloc : TaskAlloc.Keeps k.alloc k'.alloc
  mapTid : k'.mapTid = k.mapTid
  nextTid : k'.nextTid = k.nextTid
  idleTask : k'.idleTask = k.idleTask
  links : k'.links = k.links
  blocked : k'.blocked = k.blocked
  heap : k'.heap = k.heap
  log : k'.log = k.log
  atNull : k'.atNull = k.atNull
  tid : ∀ p, (k'.td p).tid = (k.td p).tid
  stack : ∀ p, (k'.td p).stackAddr = (k.td p).stackAddr
  state : ∀ p, k'.state p = k.state p
  ring : ∀ p, k'.ring p = k.ring p

variable [TaskAlloc A]

theorem Agree.trans {k k' k'' : Kernel A} (h : Agree k k') (h' : Agree k' k'') :
  Agree k k''
  := by
  constructor
  · exact h.alloc.trans h'.alloc
  · exact h'.mapTid.trans h.mapTid
  · exact h'.nextTid.trans h.nextTid
  · exact h'.idleTask.trans h.idleTask
  · exact h'.links.trans h.links
  · exact h'.blocked.trans h.blocked
  · exact h'.heap.trans h.heap
  · exact h'.log.trans h.log
  · exact h'.atNull.trans h.atNull
  · exact fun p => (h'.tid p).trans (h.tid p)
  · exact fun p => (h'.stack p).trans (h.stack p)
  · exact fun p => (h'.state p).trans (h.state p)
  · exact fun p => (h'.ring p).trans (h.ring p)

/-- Changing fields of a descriptor other than its `tid`, its stack, its state and its wait
queue. -/
theorem agree_modify (k : Kernel A) (p : TdPtr) {f : TaskDsp → TaskDsp}
    (htid : (f (k.td p)).tid = (k.td p).tid)
    (hstack : (f (k.td p)).stackAddr = (k.td p).stackAddr)
    (hstate : (f (k.td p)).state = (k.td p).state)
    (hring : (f (k.td p)).mailbox.senderWaitqueue = (k.td p).mailbox.senderWaitqueue) :
  Agree k (k.modify p f)
  := by
  have htd : ∀ x, (k.modify p f).td x = if x = p then f (k.td p) else k.td x :=
    fun x => Function.update_apply _ _ _ _
  refine ⟨TaskAlloc.Keeps.refl _, rfl, rfl, rfl, rfl, rfl, rfl, rfl, rfl, ?_, ?_, ?_, ?_⟩
  all_goals
    intro x
    simp only [state, ring, htd]
    split
    · rename_i hx
      subst hx
      assumption
    · rfl

theorem agree_setRetval (k : Kernel A) (p : TdPtr) (v : BitVec 64) :
  Agree k (k.setRetval p v)
  := k.agree_modify p rfl rfl rfl rfl

theorem agree_modifyMem (k : Kernel A) (p : TdPtr) (f : UserMem → UserMem) :
  Agree k (k.modifyMem p f)
  := ⟨TaskAlloc.Keeps.refl _, rfl, rfl, rfl, rfl, rfl, rfl, rfl, rfl, fun _ => rfl, fun _ => rfl,
    fun _ => rfl, fun _ => rfl⟩

theorem agree_setCurrent (k : Kernel A) (p : Option TdPtr) :
  Agree k (k.setCurrent p)
  := ⟨TaskAlloc.Keeps.refl _, rfl, rfl, rfl, rfl, rfl, rfl, rfl, rfl, fun _ => rfl, fun _ => rfl,
    fun _ => rfl, fun _ => rfl⟩

theorem agree_setPoint (k : Kernel A) (p : Point) :
  Agree k (k.setPoint p)
  := ⟨TaskAlloc.Keeps.refl _, rfl, rfl, rfl, rfl, rfl, rfl, rfl, rfl, fun _ => rfl, fun _ => rfl,
    fun _ => rfl, fun _ => rfl⟩

theorem agree_setAlloc (k : Kernel A) {alloc : A} (h : TaskAlloc.Keeps k.alloc alloc) :
  Agree k { k with alloc := alloc }
  := ⟨h, rfl, rfl, rfl, rfl, rfl, rfl, rfl, rfl, fun _ => rfl, fun _ => rfl, fun _ => rfl,
    fun _ => rfl⟩

theorem agree_deliver (k : Kernel A) (receiver sender : TdPtr) :
  Agree k (k.deliver receiver sender)
  := ((k.agree_modifyMem _ _).trans (agree_modifyMem _ _ _)).trans (agree_setRetval _ _ _)

end Agree

/-- The two kernels have the same tasks with the same wait queues. -/
structure SameQueues (k k' : Kernel A) : Prop where
  mapTid : k'.mapTid = k.mapTid
  atNull : k'.atNull = k.atNull
  tid : ∀ p, (k'.td p).tid = (k.td p).tid
  ring : ∀ p, k'.ring p = k.ring p

theorem SameQueues.trans {k k' k'' : Kernel A} (h : SameQueues k k') (h' : SameQueues k' k'') :
  SameQueues k k''
  := by
  constructor
  · exact h'.mapTid.trans h.mapTid
  · exact h'.atNull.trans h.atNull
  · exact fun p => (h'.tid p).trans (h.tid p)
  · exact fun p => (h'.ring p).trans (h.ring p)

theorem SameQueues.queue {k k' : Kernel A} (h : SameQueues k k') (p : TdPtr) :
  k'.queue p = k.queue p
  := congrArg RingBuffer.toList (h.ring p)

theorem Agree.sameQueues [TaskAlloc A] {k k' : Kernel A} (h : Agree k k') :
  SameQueues k k'
  := ⟨h.mapTid, h.atNull, h.tid, h.ring⟩

section Congr

variable {cq ch : Prop} {sent : TdPtr → ℤ} {k k' : Kernel A} {q : Blocked → List TdPtr}
  {F : List TdPtr}

theorem Ids.congr [TaskAlloc A] (h : k.Ids) (halloc : TaskAlloc.Keeps k.alloc k'.alloc)
    (hmap : k'.mapTid = k.mapTid) (hnext : k'.nextTid = k.nextTid)
    (htid : ∀ p, (k'.td p).tid = (k.td p).tid)
    (hstack : ∀ p, (k'.td p).stackAddr = (k.td p).stackAddr) :
  k'.Ids
  := by
  obtain ⟨htds, hblocks, hintact⟩ := halloc h.intact
  constructor
  · exact hintact
  · simpa only [hmap] using h.nodup
  · simpa only [hmap, htds] using h.tds
  · intro p hp
    rw [hmap] at hp
    rw [hstack]
    exact hblocks (h.stack p hp)
  · simpa only [hmap, hstack] using h.stack_inj
  · simpa only [hmap, htid, hnext] using h.tid_lt
  · simpa only [hmap, htid] using h.tid_inj

/-- The state of a floating task does not matter to the lists. -/
theorem Lists.congr (h : k.Lists q F) (hlinks : k'.links = k.links)
    (hblocked : k'.blocked = k.blocked) (hmap : k'.mapTid = k.mapTid)
    (hidle : k'.idleTask = k.idleTask) (hstate : ∀ p, p ∉ F → k'.state p = k.state p) :
  k'.Lists q F
  := by
  constructor
  · simpa only [hlinks, hblocked] using h.forest
  · intro b p
    rw [h.mem_iff, hmap]
    apply and_congr_right
    intro _
    apply and_congr_right
    intro hp
    rw [hstate p hp]
  · simpa only [hmap] using h.floating
  · simpa only [hmap, hidle] using h.idle_mem
  · rw [hidle, hstate _ h.idle_floating]
    exact h.idle_state
  · simpa only [hidle] using h.idle_floating

/-- The state of a floating task does not matter to the heap. -/
theorem Heap.congr (h : k.Heap ch F) (hheap : k'.heap = k.heap) (hlog : k'.log = k.log)
    (hmap : k'.mapTid = k.mapTid) (hidle : k'.idleTask = k.idleTask)
    (hstate : ∀ p, p ∉ F → k'.state p = k.state p) :
  k'.Heap ch F
  := by
  constructor
  · simpa only [hheap] using h.nodup
  · intro p hp
    rw [hheap] at hp
    obtain ⟨hmem, hF, hready⟩ := h.mem p hp
    rw [hmap, hstate p hF]
    exact ⟨hmem, hF, hready⟩
  · simpa only [hheap, hidle] using h.idle
  · simpa only [hheap] using h.capacity
  · simpa only [hheap] using h.count_le
  · intro hch p hmem hne hF
    rw [hheap, hstate p hF]
    rw [hmap] at hmem
    rw [hidle] at hne
    exact h.placed hch p hmem hne hF
  · simpa only [hheap, hlog] using h.counted

theorem Queues.congr (h : k.Queues cq sent q) (hs : SameQueues k k') :
  k'.Queues cq sent q
  := by
  constructor
  · simpa only [hs.mapTid, hs.ring] using h.wf
  · simpa only [hs.mapTid, hs.queue] using h.send
  · simpa only [hs.mapTid, hs.queue] using h.nodup
  · simpa only [hs.mapTid, hs.queue] using h.apart
  · simpa only [hs.queue] using h.recv
  · simpa only [hs.mapTid, hs.queue, hs.tid] using h.queued
  · simpa only [hs.atNull] using h.atNull

/-- The wait queues are kept when nobody else waits to send or to receive. -/
theorem Queues.mono {q' : Blocked → List TdPtr} (h : k.Queues cq sent q)
    (hsend : q' .send = q .send) (hrecv : ∀ p ∈ q' .recv, p ∈ q .recv ∨ k.queue p = []) :
  k.Queues cq sent q'
  := by
  constructor
  · exact h.wf
  · simpa only [hsend] using h.send
  · exact h.nodup
  · exact h.apart
  · intro p hp
    obtain hp | hp := hrecv p hp
    · exact h.recv p hp
    · exact hp
  · simpa only [hsend] using h.queued
  · exact h.atNull

variable [TaskAlloc A]

theorem Base.congr (h : Base ch k q F) (ha : Agree k k') :
  Base ch k' q F
  := by
  constructor
  · exact h.ids.congr ha.alloc ha.mapTid ha.nextTid ha.tid ha.stack
  · exact h.lists.congr ha.links ha.blocked ha.mapTid ha.idleTask fun p _ => ha.state p
  · exact h.heap.congr ha.heap ha.log ha.mapTid ha.idleTask fun p _ => ha.state p

theorem Core.congr (h : Core cq ch sent k q F) (ha : Agree k k') :
  Core cq ch sent k' q F
  := by
  constructor
  · exact h.base.congr ha
  · exact h.queues.congr ha.sameQueues

end Congr

end Kernel

end TrainsOs
