import TrainsOs.Kernel.Creation

/-!
# Rounds of the loop

What a single part of an iteration does to the tasks that are not concerned, and a round
in which the next task creates another one. It can be repeated for as long as tasks can be
allocated, which is how a wait queue or the ready heap comes to its capacity.
-/

namespace TrainsOs

namespace Kernel

variable {A : Type} {cq ch : Prop} {sent : TdPtr → ℤ} {k k' k'' : Kernel A}

/-- The tasks of `k` are still there, in the same states and with the same wait queues. -/
structure Stays (k k' : Kernel A) : Prop where
  idleTask : k'.idleTask = k.idleTask
  mapTid : ∀ p ∈ k.mapTid, p ∈ k'.mapTid
  state : ∀ p ∈ k.mapTid, k'.state p = k.state p
  queue : ∀ p ∈ k.mapTid, k'.queue p = k.queue p
  tid : ∀ p ∈ k.mapTid, (k'.td p).tid = (k.td p).tid

theorem Stays.trans (h : Stays k k') (h' : Stays k' k'') :
  Stays k k''
  := by
  constructor
  · exact h'.idleTask.trans h.idleTask
  · exact fun p hp => h'.mapTid p (h.mapTid p hp)
  · exact fun p hp => (h'.state p (h.mapTid p hp)).trans (h.state p hp)
  · exact fun p hp => (h'.queue p (h.mapTid p hp)).trans (h.queue p hp)
  · exact fun p hp => (h'.tid p (h.mapTid p hp)).trans (h.tid p hp)

variable [TaskAlloc A]

theorem Agree.stays (h : Agree k k') :
  Stays k k'
  := by
  constructor
  · exact h.idleTask
  · exact fun p hp => h.mapTid.symm ▸ hp
  · exact fun p _ => h.state p
  · exact fun p _ => h.sameQueues.queue p
  · exact fun p _ => h.tid p

omit [TaskAlloc A] in
/-- A task that is ready may be made ready. -/
theorem stays_addReady {c : TdPtr} (hc : k.state c = TaskState.ready) :
  Stays k (k.kSchedAddReady c)
  := by
  constructor
  · exact k.kSchedAddReady_idleTask c
  · exact fun p hp => (k.kSchedAddReady_mapTid c).symm ▸ hp
  · intro p _
    rw [state_kSchedAddReady]
    split
    · rename_i hp
      rw [hp]
      exact hc.symm
    · rfl
  · exact fun p _ => (sameQueues_kSchedAddReady k c).queue p
  · exact fun p _ => k.tid_kSchedAddReady c p

theorem Born.stays {p : TdPtr} (h : Born k k' p) (hids : k.Ids) :
  Stays k k'
  := by
  have hold : ∀ x ∈ k.mapTid, k'.td x = k.td x :=
    fun x hx => h.td x (ne_of_mem_of_not_mem hx (h.not_mem hids))
  constructor
  · exact h.idleTask
  · intro x hx
    rw [h.mapTid]
    exact List.mem_append_left _ hx
  · exact fun x hx => congrArg TaskDsp.state (hold x hx)
  · exact fun x hx => congrArg (fun t => t.mailbox.senderWaitqueue.toList) (hold x hx)
  · exact fun x hx => congrArg TaskDsp.tid (hold x hx)

/-- When the heap is not empty a task that is not the idle task runs next. -/
theorem schedule_pop (h : Inv cq ch sent k) (hcount : 0 < k.heap.count) :
  ∃ c, k.schedule.current = some c ∧ c ∈ k.mapTid ∧ c ≠ k.idleTask
    ∧ k.schedule.point = .user ∧ k.schedule.heap.count + 1 = k.heap.count
    ∧ k.schedule.mapTid = k.mapTid ∧ Stays k k.schedule
  := by
  obtain ⟨q, hcore⟩ := h.core
  obtain ⟨-, hzero⟩ | ⟨p, heap, heq, hperm, hcount', -⟩ := k.kSchedGetNext_eq
  · exact absurd hzero hcount.ne'
  · have hmem := hperm.mem_iff.mpr List.mem_cons_self
    have hsched : k.schedule = ((k.putHeap heap k.insertions (k.log ++ [.next p])).setCurrent
        (some p)).setPoint .user := by
      rw [schedule, heq]
      rfl
    refine ⟨p, ?_⟩
    rw [hsched]
    refine ⟨rfl, (hcore.base.heap.mem p hmem).1, ?_, rfl, hcount'.symm, rfl, ?_⟩
    · rintro rfl
      exact hcore.base.heap.idle hmem
    · exact ⟨rfl, fun _ hx => hx, fun _ _ => rfl, fun _ _ => rfl, fun _ _ => rfl⟩

/-- The running task stays ready when it is put back. -/
theorem requeue_spec {c : TdPtr} (hc : k.current = some c) (hidle : c ≠ k.idleTask)
    (hready : k.state c = TaskState.ready) (hroom : k.heap.count < k.heap.capacity) :
  k.requeue.point = .top ∧ k.requeue.heap.count = k.heap.count + 1
    ∧ k.requeue.mapTid = k.mapTid ∧ Stays k k.requeue
  := by
  have heq : k.requeue = (k.kSchedAddReady c).setPoint .top := by
    rw [requeue, hc]
    exact if_neg hidle
  rw [heq]
  refine ⟨rfl, k.count_kSchedAddReady c hroom, k.kSchedAddReady_mapTid c, ?_⟩
  exact (stays_addReady hready).trans (agree_setPoint _ .top).stays

omit [TaskAlloc A] in
/-- Nothing is put back when no task runs. -/
theorem requeue_none (hc : k.current = none) :
  k.requeue = k.setPoint .top
  := by rw [requeue, hc]

/-! ### Rounds with an allocator that never fails -/

/-- No task exits. -/
def NoExit : Act → Prop
  | .syscall _ .exit => False
  | _ => True

/-- The events are events, the created tasks are initialised, and no task exits. -/
def PlainOk (k : Kernel A) (a : Act) : Prop :=
  k.Enabled a ∧ EventOk a ∧ k.AllocOk a ∧ NoExit a

theorem PlainOk.ok {a : Act} (h : k.PlainOk a) :
  Ok False False k a
  := ⟨h.1, h.2.1, h.2.2.1, False.elim, False.elim, False.elim⟩

/-- The actions of a round in which the next task creates another one. -/
def spawn : List Act :=
  [.schedule, .syscall ctx₀ (.create 0 0 0), .requeue]

theorem SameTasks.tdsCount {k k' : Kernel Arena} (h : SameTasks k k') :
  k'.tdsCount = k.tdsCount
  := congrArg Finset.card (h.alloc trivial).1

theorem not_allocFails (k : Kernel Arena) (sz : ℕ) :
  ¬ k.AllocFails sz
  := by
  rintro (h | h)
  · cases h
  · cases h

/-- One task more, `p`, was created and is ready. -/
structure Spawned (k k' : Kernel Arena) (p : TdPtr) : Prop where
  count : k'.heap.count = k.heap.count + 1
  tds : k'.tdsCount = k.tdsCount + 1
  nextTid : k'.nextTid = k.nextTid + 1
  tid : (k'.td p).tid = k.nextTid
  stays : Stays k k'
  mapTid : k'.mapTid = k.mapTid ++ [p]
  state : k'.state p = TaskState.ready

/-- The running task creates another one. -/
theorem create_spec {k : Kernel Arena} (hids : k.Ids) {c : TdPtr} (hc : k.current = some c)
    (hcmap : c ∈ k.mapTid) (hroom : k.heap.count < k.heap.capacity) (htds : k.TdRoom) :
  ∃ k' p, k.step (.syscall ctx₀ (.create 0 0 0)) = some k' ∧ k'.point = .bottom
    ∧ k'.current = some c ∧ Spawned k k' p
  := by
  have hagree := k.agree_storeTd c ctx₀ (esrSvc 2)
  have hids₁ := hagree.sameTasks.ids hids
  obtain ⟨alloc, p, stackAddr, heq, hborn⟩ :=
    kCreateHandler_created 0 0 0 hids₁ hc (not_allocFails _ _) htds rfl
  have hpc : c ≠ p := by
    rintro rfl
    exact hborn.not_mem hids₁ hcmap
  have hcur : ((k.storeTd c ctx₀ (esrSvc 2)).created alloc p stackAddr c (Int.toNat 0) 0
    0).current = some c := hc
  generalize (k.storeTd c ctx₀ (esrSvc 2)).created alloc p stackAddr c (Int.toNat 0) 0 0 = k₁
    at heq hborn hcur
  have hset := agree_setRetval (k₁.kSchedAddReady p) c
    (BitVec.ofInt 64 (k.storeTd c ctx₀ (esrSvc 2)).nextTid)
  have hend := hset.trans (agree_setPoint _ .bottom)
  refine ⟨((k₁.kSchedAddReady p).setRetval c
    (BitVec.ofInt 64 (k.storeTd c ctx₀ (esrSvc 2)).nextTid)).setPoint .bottom, p, ?_, rfl, ?_, ?_⟩
  · rw [step, hc]
    exact congrArg (Option.bind · fun k => some (k.setPoint .bottom)) heq
  · rw [← hcur]
    exact k₁.kSchedAddReady_current p
  · constructor
    · have hcount := k₁.count_kSchedAddReady p (by rw [hborn.heap]; exact hroom)
      rw [hborn.heap] at hcount
      exact hcount
    · rw [hend.sameTasks.tdsCount, (k₁.quiet_addReady p).tdsCount]
      exact hborn.card
    · rw [hend.nextTid, kSchedAddReady_nextTid, hborn.nextTid, hagree.nextTid]
    · rw [hend.tid, tid_kSchedAddReady, hborn.tid, hagree.nextTid]
    · exact ((hagree.stays.trans (hborn.stays hids₁)).trans (stays_addReady hborn.state)).trans
        hend.stays
    · rw [hend.mapTid, kSchedAddReady_mapTid, hborn.mapTid, hagree.mapTid]
    · rw [hend.state, state_kSchedAddReady, if_pos rfl]

/-- A round in which a task is created. -/
theorem spawn_spec {k : Kernel Arena} (h : Inv False False sent k) (hp : k.point = .top)
    (hpos : 0 < k.heap.count) (hlt : k.heap.count < kSchedHeapCapacity)
    (htds : k.tdsCount < tdsMax) :
  Run.Meets step PlainOk k spawn ∧ ∃ k' p, Run.run step k spawn = some k'
    ∧ Inv False False sent k' ∧ k'.point = .top ∧ Spawned k k' p
  := by
  obtain ⟨c, hc, hcmap, hidle, hp₁, hcount₁, hmap₁, hstays₁⟩ := schedule_pop h hpos
  have hok₁ : k.PlainOk .schedule := ⟨hp, trivial, trivial, trivial⟩
  have h₁ : Inv False False sent k.schedule := schedule_inv h hp
  have htds₁ : k.schedule.TdRoom := k.quiet_schedule.tdsCount.trans_lt htds
  have hok₂ : k.schedule.PlainOk (.syscall ctx₀ (.create 0 0 0)) := by
    refine ⟨⟨hp₁, ?_⟩, trivial, Or.inl ⟨rfl, Nat.zero_le _, htds₁⟩, trivial⟩
    rw [hc, hstays₁.idleTask]
    exact fun heq => hidle (Option.some.inj heq)
  obtain ⟨k₂, hstep₂, h₂⟩ := step_inv h₁ hok₂.ok
  obtain ⟨q₁, hcore₁⟩ := h₁.core
  obtain ⟨k₂', p, hstep₂', hp₂, hc₂, hspawned⟩ :=
    create_spec hcore₁.base.ids hc (hmap₁.symm ▸ hcmap)
      (by rw [hcore₁.base.heap.capacity]; omega) htds₁
  obtain rfl : k₂ = k₂' := Option.some.inj (hstep₂.symm.trans hstep₂')
  have hstays₂ := hspawned.stays
  have hcount₂ := hspawned.count
  have hok₃ : k₂.PlainOk .requeue := ⟨hp₂, trivial, trivial, trivial⟩
  have hidle₂ : c ≠ k₂.idleTask := by
    rw [hstays₂.idleTask, hstays₁.idleTask]
    exact hidle
  have hready : k₂.state c = TaskState.ready :=
    h₂.ready (by rw [hp₂]; exact Point.noConfusion) c hc₂
  obtain ⟨q₂, hcore₂⟩ := h₂.core
  obtain ⟨hp₃, hcount₃, hmap₃, hstays₃⟩ := requeue_spec hc₂ hidle₂ hready
    (by rw [hcore₂.base.heap.capacity]; omega)
  constructor
  · apply Run.meets_cons hok₁ rfl
    apply Run.meets_cons hok₂ hstep₂
    exact ⟨hok₃, fun _ _ => trivial⟩
  · have hp : p ∈ k₂.mapTid := by
      rw [hspawned.mapTid]
      exact List.mem_append_right _ List.mem_cons_self
    refine ⟨k₂.requeue, p, ?_, requeue_inv h₂ hp₂ False.elim, hp₃, ?_⟩
    · exact (Run.run_cons rfl _).trans (Run.run_cons hstep₂ _)
    · constructor
      · rw [hcount₃, hcount₂, hcount₁]
      · rw [k₂.quiet_requeue.tdsCount, hspawned.tds, k.quiet_schedule.tdsCount]
      · rw [k₂.quiet_requeue.nextTid, hspawned.nextTid, k.quiet_schedule.nextTid]
      · rw [hstays₃.tid p hp, hspawned.tid, k.quiet_schedule.nextTid]
      · exact (hstays₁.trans hstays₂).trans hstays₃
      · rw [hmap₃, hspawned.mapTid, hmap₁]
      · rw [hstays₃.state p hp]
        exact hspawned.state

end Kernel

end TrainsOs
