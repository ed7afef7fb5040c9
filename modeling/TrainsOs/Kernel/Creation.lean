import TrainsOs.Kernel.Arena

/-!
# Creating a task

`k_create_handler` reports a failure when nothing can be allocated, and then it leaves no
trace, or when the priority is not valid, and then the descriptor, its stack and its entry
in the tree stay.
-/

namespace TrainsOs

namespace Kernel

variable {A : Type} [TaskAlloc A] {k k' : Kernel A} {c : TdPtr} {priority : ℤ}
  {args argsLen : ℕ}

/-- The tasks that are alive are the same. -/
structure SameTasks (k k' : Kernel A) : Prop where
  alloc : TaskAlloc.Keeps k.alloc k'.alloc
  mapTid : k'.mapTid = k.mapTid
  nextTid : k'.nextTid = k.nextTid
  tid : ∀ p, (k'.td p).tid = (k.td p).tid
  stack : ∀ p, (k'.td p).stackAddr = (k.td p).stackAddr

theorem SameTasks.refl (k : Kernel A) :
  SameTasks k k
  := ⟨TaskAlloc.Keeps.refl _, rfl, rfl, fun _ => rfl, fun _ => rfl⟩

theorem SameTasks.trans {k'' : Kernel A} (h : SameTasks k k') (h' : SameTasks k' k'') :
  SameTasks k k''
  := ⟨h.alloc.trans h'.alloc, h'.mapTid.trans h.mapTid, h'.nextTid.trans h.nextTid,
    fun p => (h'.tid p).trans (h.tid p), fun p => (h'.stack p).trans (h.stack p)⟩

theorem Agree.sameTasks (h : Agree k k') :
  SameTasks k k'
  := ⟨h.alloc, h.mapTid, h.nextTid, h.tid, h.stack⟩

theorem SameTasks.ids (h : SameTasks k k') (hids : k.Ids) :
  k'.Ids
  := hids.congr h.alloc h.mapTid h.nextTid h.tid h.stack

/-! ### Calls that leave the tasks alone -/

/-- Moreover, the tasks have the same parents. -/
structure Quiet (k k' : Kernel A) : Prop extends SameTasks k k' where
  parentTid : ∀ p, (k'.td p).parentTid = (k.td p).parentTid

theorem Quiet.refl (k : Kernel A) :
  Quiet k k
  := ⟨SameTasks.refl k, fun _ => rfl⟩

theorem Quiet.trans {k'' : Kernel A} (h : Quiet k k') (h' : Quiet k' k'') :
  Quiet k k''
  := ⟨h.toSameTasks.trans h'.toSameTasks, fun p => (h'.parentTid p).trans (h.parentTid p)⟩

/-- The descriptors and the tasks are not touched. -/
theorem quiet_of_td (halloc : TaskAlloc.Keeps k.alloc k'.alloc) (hmap : k'.mapTid = k.mapTid)
    (hnext : k'.nextTid = k.nextTid) (htd : k'.td = k.td) :
  Quiet k k'
  := ⟨⟨halloc, hmap, hnext, fun p => congrArg TaskDsp.tid (congrFun htd p),
      fun p => congrArg TaskDsp.stackAddr (congrFun htd p)⟩,
    fun p => congrArg TaskDsp.parentTid (congrFun htd p)⟩

theorem quiet_modify (k : Kernel A) (p : TdPtr) {f : TaskDsp → TaskDsp}
    (htid : (f (k.td p)).tid = (k.td p).tid)
    (hstack : (f (k.td p)).stackAddr = (k.td p).stackAddr)
    (hparent : (f (k.td p)).parentTid = (k.td p).parentTid) :
  Quiet k (k.modify p f)
  := by
  refine ⟨⟨TaskAlloc.Keeps.refl _, rfl, rfl, ?_, ?_⟩, ?_⟩
  · exact k.tid_modify p htid
  · exact k.stackAddr_modify p hstack
  · exact k.field_modify TaskDsp.parentTid p hparent

theorem quiet_modifyMailbox (k : Kernel A) (p : TdPtr) (f : Mailbox → Mailbox) :
  Quiet k (k.modifyMailbox p f)
  := k.quiet_modify p rfl rfl rfl

theorem quiet_setRetval (k : Kernel A) (p : TdPtr) (v : BitVec 64) :
  Quiet k (k.setRetval p v)
  := k.quiet_modify p rfl rfl rfl

theorem quiet_modifyMem (k : Kernel A) (p : TdPtr) (f : UserMem → UserMem) :
  Quiet k (k.modifyMem p f)
  := quiet_of_td (TaskAlloc.Keeps.refl _) rfl rfl rfl

theorem quiet_setCurrent (k : Kernel A) (p : Option TdPtr) :
  Quiet k (k.setCurrent p)
  := quiet_of_td (TaskAlloc.Keeps.refl _) rfl rfl rfl

theorem quiet_setPoint (k : Kernel A) (p : Point) :
  Quiet k (k.setPoint p)
  := quiet_of_td (TaskAlloc.Keeps.refl _) rfl rfl rfl

theorem quiet_storeTd (k : Kernel A) (p : TdPtr) (ctx : Ctx) (esrEl1 : ℕ) :
  Quiet k (k.storeTd p ctx esrEl1)
  := k.quiet_modify p rfl rfl rfl

theorem quiet_deliver (k : Kernel A) (receiver sender : TdPtr) :
  Quiet k (k.deliver receiver sender)
  := ((k.quiet_modifyMem _ _).trans (quiet_modifyMem _ _ _)).trans (quiet_setRetval _ _ _)

theorem quiet_answer (k : Kernel A) (c r : TdPtr) (reply rplen : ℕ) :
  Quiet k (k.answer c r reply rplen)
  := by
  have hretval := (k.quiet_setRetval r (BitVec.ofNat 64 rplen)).trans
    (quiet_setRetval _ c (BitVec.ofNat 64 (min rplen (k.td r).mailbox.inBufLen)))
  rw [answer]
  exact hretval.trans (quiet_modifyMem _ r _)

theorem quiet_addReady (k : Kernel A) (p : TdPtr) :
  Quiet k (k.kSchedAddReady p)
  := by
  obtain ⟨n, heap, m, heq, -⟩ := k.kSchedAddReady_eq p
  have hmodify : Quiet k (k.modify p (readyDsp n)) := k.quiet_modify p rfl rfl rfl
  rw [heq]
  exact hmodify.trans (quiet_of_td (TaskAlloc.Keeps.refl _) rfl rfl rfl)

theorem quiet_dlAppend {b : Blocked} {p : TdPtr} (h : k.dlAppend b p = some k') :
  Quiet k k'
  := by
  rw [dlAppend, Option.bind_eq_bind, Option.bind_eq_some_iff] at h
  obtain ⟨r, -, h⟩ := h
  rw [← Option.some.inj h]
  exact quiet_of_td (TaskAlloc.Keeps.refl _) rfl rfl rfl

theorem quiet_addWait {b : Blocked} {p : TdPtr} {s : ℕ} (h : k.addWait b p s = some k') :
  Quiet k k'
  := by
  rw [addWait_eq] at h
  exact (k.quiet_modify p rfl rfl rfl).trans (quiet_dlAppend h)

theorem quiet_removeWait {b : Blocked} {p : TdPtr} (h : k.removeWait b p = some k') :
  Quiet k k'
  := by
  rw [removeWait] at h
  split at h
  · rw [dlDelete, Option.bind_eq_bind, Option.bind_eq_some_iff] at h
    obtain ⟨r, -, h⟩ := h
    rw [← Option.some.inj h]
    exact quiet_of_td (TaskAlloc.Keeps.refl _) rfl rfl rfl
  · cases h

theorem quiet_addSendQueue (k : Kernel A) (receiver sender : TdPtr) :
  Quiet k (k.kMboxAddSendQueue receiver sender)
  := by
  rw [kMboxAddSendQueue]
  split
  · exact quiet_of_td (TaskAlloc.Keeps.refl _) rfl rfl rfl
  · exact k.quiet_modifyMailbox receiver _

theorem quiet_popSendQueue (k : Kernel A) (receiver : TdPtr) :
  Quiet k (k.kMboxPopSendQueue receiver).1
  := by
  rw [kMboxPopSendQueue]
  split
  · exact Quiet.refl k
  · dsimp only
    apply quiet_modifyMailbox

theorem quiet_wakeupLoop {intrId retval fuel : ℕ} {node : Option TdPtr} {n : ℕ} {r : Kernel A × ℕ}
    (h : wakeupLoop intrId retval fuel k node n = some r) :
  Quiet k r.1
  := by
  induction fuel generalizing k node n with
  | zero =>
    cases node with
    | none => exact Option.some.inj h ▸ Quiet.refl k
    | some td => cases h
  | succ fuel ih =>
    cases node with
    | none => exact Option.some.inj h ▸ Quiet.refl k
    | some td =>
      unfold wakeupLoop at h
      dsimp only at h
      split at h
      · rw [Option.bind_eq_bind, Option.bind_eq_some_iff] at h
        obtain ⟨k₁, hrem, h⟩ := h
        have hquiet := quiet_removeWait hrem
        have hretval := k₁.quiet_setRetval td (BitVec.ofNat 64 retval)
        exact ((hquiet.trans hretval).trans (quiet_addReady _ td)).trans (ih h)
      · exact ih h

theorem quiet_wakeupAll {ws : List (ℕ × ℕ)} (h : k.wakeupAll ws = some k') :
  Quiet k k'
  := by
  induction ws generalizing k with
  | nil => exact Option.some.inj h ▸ Quiet.refl k
  | cons w ws ih =>
    rw [wakeupAll, Option.bind_eq_bind, Option.bind_eq_some_iff] at h
    obtain ⟨r, hloop, h⟩ := h
    exact (quiet_wakeupLoop hloop).trans (ih h)

/-- Sending, receiving, replying and waiting neither create nor destroy a task. -/
theorem quiet_send {tid : ℤ} {msg msglen reply rplen : ℕ}
    (h : k.kSendHandler tid msg msglen reply rplen = some k') :
  Quiet k k'
  := by
  rw [kSendHandler, Option.bind_eq_bind, Option.bind_eq_some_iff] at h
  obtain ⟨sender, -, h⟩ := h
  split at h
  · rw [← Option.some.inj h]
    exact k.quiet_setRetval sender _
  · rename_i receiver _
    have hinit := k.quiet_modifyMailbox sender fun m => kMboxSendInit m msg msglen reply rplen
    dsimp only at h
    split at h
    · simp only [Option.bind_eq_bind, Option.bind_eq_some_iff] at h
      obtain ⟨k₁, hadd, k₂, hrem, h⟩ := h
      rw [← Option.some.inj h]
      have hdeliver := hinit.trans (quiet_deliver _ receiver sender)
      have hwait := (hdeliver.trans (quiet_addWait hadd)).trans (quiet_removeWait hrem)
      exact (hwait.trans (quiet_addReady k₂ receiver)).trans (quiet_setCurrent _ none)
    · simp only [Option.bind_eq_bind, Option.bind_eq_some_iff] at h
      obtain ⟨k₁, hadd, h⟩ := h
      rw [← Option.some.inj h]
      have hqueue := hinit.trans (quiet_addSendQueue _ receiver sender)
      exact (hqueue.trans (quiet_addWait hadd)).trans (quiet_setCurrent _ none)

theorem quiet_recv {tid msg msglen : ℕ} (h : k.kRecvHandler tid msg msglen = some k') :
  Quiet k k'
  := by
  rw [kRecvHandler, Option.bind_eq_bind, Option.bind_eq_some_iff] at h
  obtain ⟨receiver, -, h⟩ := h
  have hpop := k.quiet_popSendQueue receiver
  generalize k.kMboxPopSendQueue receiver = r at h hpop
  obtain ⟨k₁, sender⟩ := r
  have hinit := hpop.trans (k₁.quiet_modifyMailbox receiver fun m => kMboxRecvInit m msg msglen tid)
  cases sender with
  | none =>
    simp only [Option.bind_eq_bind, Option.bind_eq_some_iff] at h
    obtain ⟨k₂, hadd, h⟩ := h
    rw [← Option.some.inj h]
    exact (hinit.trans (quiet_addWait hadd)).trans (quiet_setCurrent _ none)
  | some sender =>
    simp only [Option.bind_eq_bind, Option.bind_eq_some_iff] at h
    obtain ⟨k₂, hrem, k₃, hadd, h⟩ := h
    rw [← Option.some.inj h]
    have hdeliver := hinit.trans (quiet_deliver _ receiver sender)
    have hwait := (hdeliver.trans (quiet_removeWait hrem)).trans (quiet_addWait hadd)
    exact (hwait.trans (quiet_addReady k₃ receiver)).trans (quiet_setCurrent _ none)

theorem quiet_reply {tid : ℤ} {reply rplen : ℕ}
    (h : k.kReplyHandler tid reply rplen = some k') :
  Quiet k k'
  := by
  rw [kReplyHandler, Option.bind_eq_bind, Option.bind_eq_some_iff] at h
  obtain ⟨receiver, -, h⟩ := h
  split at h
  · rw [← Option.some.inj h]
    exact k.quiet_setRetval receiver _
  · rename_i sender _
    dsimp only at h
    split at h
    · rw [← Option.some.inj h]
      exact k.quiet_setRetval receiver _
    · rw [Option.bind_eq_bind, Option.bind_eq_some_iff] at h
      obtain ⟨k₁, hrem, h⟩ := h
      rw [← Option.some.inj h]
      have hanswer := k.quiet_answer receiver sender reply rplen
      rw [answer] at hanswer
      exact (hanswer.trans (quiet_removeWait hrem)).trans (quiet_addReady k₁ sender)

theorem quiet_awaitEvent {intrId : ℕ} (h : k.kAwaitEventHandler intrId = some k') :
  Quiet k k'
  := by
  simp only [kAwaitEventHandler, Option.bind_eq_bind, Option.bind_eq_some_iff] at h
  obtain ⟨c, -, k₁, hadd, h⟩ := h
  rw [← Option.some.inj h]
  exact (quiet_addWait hadd).trans (quiet_setCurrent k₁ none)

theorem quiet_myTid (h : k.kMyTidHandler = some k') :
  Quiet k k'
  := by
  obtain ⟨c, -, h⟩ := Option.bind_eq_some_iff.mp h
  rw [← Option.some.inj h]
  exact k.quiet_setRetval c _

theorem quiet_mmap {target memSz : ℕ} (h : k.kMmapHandler target memSz = some k') :
  Quiet k k'
  := by
  obtain ⟨c, hc, -⟩ := Option.bind_eq_some_iff.mp h
  obtain ⟨alloc, f, heq, hagree⟩ := kMmapHandler_spec hc target memSz
  rw [h] at heq
  obtain rfl := Option.some.inj heq
  refine ⟨hagree.sameTasks, ?_⟩
  intro p
  rw [setRetval, modify_td]
  split
  · rename_i hp
    rw [hp]
    rfl
  · rfl

/-- The kernel neither creates nor destroys a task before and behind a system call. -/
theorem quiet_schedule (k : Kernel A) :
  Quiet k k.schedule
  := by
  obtain ⟨heq, -⟩ | ⟨p, heap, heq, -⟩ := k.kSchedGetNext_eq
  · rw [schedule, heq]
    exact quiet_of_td (TaskAlloc.Keeps.refl _) rfl rfl rfl
  · rw [schedule, heq]
    exact quiet_of_td (TaskAlloc.Keeps.refl _) rfl rfl rfl

theorem quiet_requeue (k : Kernel A) :
  Quiet k k.requeue
  := by
  rw [requeue]
  split
  · exact k.quiet_setPoint .top
  · split
    · exact k.quiet_setPoint .top
    · exact (quiet_addReady k _).trans (quiet_setPoint _ .top)

theorem quiet_interrupt {ctx : Ctx} {x0 : BitVec 64} {irqs : List Irq}
    (h : k.step (.interrupt ctx x0 irqs) = some k') :
  Quiet k k'
  := by
  simp only [step, Option.bind_eq_bind, Option.bind_eq_some_iff] at h
  obtain ⟨c, -, k₁, hintr, h⟩ := h
  rw [← Option.some.inj h]
  have hstore := (k.quiet_storeTd c ctx 0).trans (quiet_setRetval _ c x0)
  exact (hstore.trans (quiet_wakeupAll hintr)).trans (quiet_setPoint k₁ .bottom)

/-! ### The identities of the tasks in every run -/

theorem ids_taken (hids : k.Ids) {alloc : A} {p : TdPtr} {stackAddr : ℕ} (sz : ℕ)
    (hgives : TaskAlloc.Gives k.alloc alloc p stackAddr) :
  (k.taken alloc p stackAddr sz).Ids
  := by
  have htd : ∀ x, (k.taken alloc p stackAddr sz).td x = if x = p
      then { k.td p with stackAddr := stackAddr, stackSz := 1 <<< sz, tid := k.nextTid }
      else k.td x := by
    intro x
    rw [taken]
    dsimp only
    rw [modify_td]
  apply hids.new _ rfl rfl
  · rw [htd, if_pos rfl]
  · intro x hx
    rw [htd, if_neg hx]
  · intro x hx
    rw [htd, if_neg hx]
  · rw [htd, if_pos rfl]
    exact hgives

/-- There is room for the descriptor of a task that is created, or it cannot be allocated, and
a task that exits is alive and its stack can be given back. -/
def MemoryOk (k : Kernel A) : Act → Prop
  | .syscall _ (.create _ _ _) => k.TdRoom ∨ k.AllocFails pgSft
  | .syscall _ .exit => ∀ c, k.current = some c → c ∈ k.mapTid ∧ k.StackSafe c
  | _ => True

theorem ids_create (hids : k.Ids) (hroom : k.TdRoom ∨ k.AllocFails pgSft)
    (h : k.kCreateHandler priority args argsLen = some k') :
  k'.Ids ∧ k.nextTid ≤ k'.nextTid
  := by
  obtain ⟨c, hc⟩ : ∃ c, k.current = some c := by
    rw [kCreateHandler, Option.bind_eq_bind, Option.bind_eq_some_iff] at h
    obtain ⟨c, hc, -⟩ := h
    exact ⟨c, hc⟩
  by_cases hfail : k.AllocFails pgSft
  · obtain ⟨alloc, heq, -, hagree⟩ := kCreateHandler_fails priority args argsLen hids hc hfail
    rw [heq] at h
    rw [← Option.some.inj h]
    exact ⟨hagree.sameTasks.ids hids, hagree.nextTid.ge⟩
  · have hle : k.nextTid ≤ k.nextTid + 1 := Int.le_add_one le_rfl
    cases hprio : kSchedPriorityIsValid priority with
    | false =>
      obtain ⟨alloc, p, stackAddr, heq, hgives⟩ :=
        kCreateHandler_invalid priority args argsLen hids hc hfail hprio
      rw [heq] at h
      rw [← Option.some.inj h]
      have hids' := ids_taken hids pgSft (hgives (hroom.resolve_right hfail))
      exact ⟨(agree_setRetval _ c _).sameTasks.ids hids', hle⟩
    | true =>
      obtain ⟨alloc, p, stackAddr, heq, hborn⟩ :=
        kCreateHandler_created priority args argsLen hids hc hfail (hroom.resolve_right hfail)
          hprio
      rw [heq] at h
      rw [← Option.some.inj h]
      have hids' := hids.new hborn.alloc hborn.mapTid hborn.nextTid hborn.tid
        (fun x hx => congrArg TaskDsp.tid (hborn.td x hx))
        fun x hx => congrArg TaskDsp.stackAddr (hborn.td x hx)
      have hsame := (quiet_addReady (k.created alloc p stackAddr c priority.toNat args argsLen)
        p).toSameTasks.trans (agree_setRetval _ c (BitVec.ofInt 64 k.nextTid)).sameTasks
      refine ⟨hsame.ids hids', ?_⟩
      rw [hsame.nextTid, hborn.nextTid]
      exact hle

theorem handle_ids {ctx : Ctx} {call : Call} (hids : k.Ids)
    (hok : k.MemoryOk (.syscall ctx call)) (h : k.handle call = some k') :
  k'.Ids ∧ k.nextTid ≤ k'.nextTid
  := by
  have hkeep : ∀ {k₁ : Kernel A}, SameTasks k k₁ → k₁.Ids ∧ k.nextTid ≤ k₁.nextTid :=
    fun h => ⟨h.ids hids, h.nextTid.ge⟩
  cases call with
  | exit =>
    rw [handle, kExitHandler, Option.bind_eq_bind, Option.bind_eq_some_iff] at h
    obtain ⟨c, hc, h⟩ := h
    rw [← Option.some.inj h]
    obtain ⟨hmap, hsafe⟩ := hok c hc
    exact ⟨(agree_setCurrent _ none).sameTasks.ids (hids.destroy hmap hsafe), le_rfl⟩
  | yield =>
    rw [← Option.some.inj h]
    exact hkeep (SameTasks.refl k)
  | create priority args argsLen => exact ids_create hids hok h
  | send tid msg msglen reply rplen => exact hkeep (quiet_send h).toSameTasks
  | recv tid msg msglen => exact hkeep (quiet_recv h).toSameTasks
  | reply tid reply rplen => exact hkeep (quiet_reply h).toSameTasks
  | awaitEvent intrId => exact hkeep (quiet_awaitEvent h).toSameTasks
  | myTid => exact hkeep (quiet_myTid h).toSameTasks
  | myParentTid =>
    obtain ⟨c, hc, -⟩ := Option.bind_eq_some_iff.mp h
    obtain ⟨v, w, heq, hagree⟩ := kMyParentTidHandler_spec hc
    rw [handle, heq] at h
    rw [← Option.some.inj h]
    exact hkeep hagree.sameTasks
  | mmap target memSz => exact hkeep (quiet_mmap h).toSameTasks
  | other retval =>
    obtain ⟨c, hc, h⟩ := Option.bind_eq_some_iff.mp h
    rw [← Option.some.inj h]
    exact hkeep (k.agree_setRetval c retval).sameTasks

/-- Every action keeps the identities apart, whatever else it breaks. -/
theorem step_ids {a : Act} (hids : k.Ids) (hok : k.MemoryOk a) (h : k.step a = some k') :
  k'.Ids ∧ k.nextTid ≤ k'.nextTid
  := by
  have hkeep : ∀ {k₁ : Kernel A}, SameTasks k k₁ → k₁.Ids ∧ k.nextTid ≤ k₁.nextTid :=
    fun h => ⟨h.ids hids, h.nextTid.ge⟩
  cases a with
  | schedule => exact Option.some.inj h ▸ hkeep k.quiet_schedule.toSameTasks
  | write mem =>
    rw [step, Option.bind_eq_bind, Option.bind_eq_some_iff] at h
    obtain ⟨c, -, h⟩ := h
    rw [← Option.some.inj h]
    exact hkeep (k.agree_modifyMem c _).sameTasks
  | syscall ctx call =>
    simp only [step, Option.bind_eq_bind, Option.bind_eq_some_iff] at h
    obtain ⟨c, -, k₁, hcall, h⟩ := h
    rw [← Option.some.inj h]
    have hstore := (k.agree_storeTd c ctx (esrSvc call.number)).sameTasks
    have hok₁ : (k.storeTd c ctx (esrSvc call.number)).MemoryOk (.syscall ctx call) := by
      cases call with
      | create priority args argsLen => exact hok
      | exit =>
        intro c' hc'
        rw [StackSafe, hstore.stack]
        exact hok c' hc'
      | _ => trivial
    obtain ⟨hids₁, hle⟩ := handle_ids (hstore.ids hids) hok₁ hcall
    exact ⟨(agree_setPoint k₁ .bottom).sameTasks.ids hids₁, hle⟩
  | interrupt ctx x0 irqs => exact hkeep (quiet_interrupt h).toSameTasks
  | requeue => exact Option.some.inj h ▸ hkeep k.quiet_requeue.toSameTasks

/-- The identities are apart in every state of every run that leaves the allocators intact. -/
theorem Booted.run_ids {k₀ : Kernel A} (h : Booted k₀) {as : List Act}
    (has : Run.Meets step MemoryOk k₀ as) (hrun : Run.run step k₀ as = some k) :
  k.Ids ∧ 0 ≤ k.nextTid
  := by
  have hspec : ∃ q, Core False False (fun _ => 0) k₀ q [] ∧ k₀.point = .top ∧ k₀.nextTid = 3 :=
    h.spec _
  obtain ⟨q, hcore, -, hnext⟩ := hspec
  apply Run.meets_preserves (P := fun k : Kernel A => k.Ids ∧ 0 ≤ k.nextTid) _ _ has hrun
  · rintro k a k' ⟨hids, hle⟩ hok hstep
    obtain ⟨hids', hle'⟩ := step_ids hids hok hstep
    exact ⟨hids', hle.trans hle'⟩
  · refine ⟨hcore.base.ids, ?_⟩
    rw [hnext]
    decide

/-! ### Atomicity -/

/-- The tasks, the memory in use, the ready heap and the lists are as before. -/
structure Untouched (k k' : Kernel A) : Prop where
  tids : k'.mapTid.map (fun p => (k'.td p).tid) = k.mapTid.map fun p => (k.td p).tid
  lookup : ∀ tid, k'.kTaskMgrGetTaskDsp tid = k.kTaskMgrGetTaskDsp tid
  tds : TaskAlloc.tds k'.alloc = TaskAlloc.tds k.alloc
  blocks : TaskAlloc.blocks k'.alloc = TaskAlloc.blocks k.alloc
  heap : k'.heap = k.heap
  links : k'.links = k.links
  blocked : k'.blocked = k.blocked

/-- A creation that the running task `c` sees fail leaves no trace. -/
def CreateAtomic (k : Kernel A) (c : TdPtr) (priority : ℤ) (args argsLen : ℕ) : Prop :=
  ∃ k', k.kCreateHandler priority args argsLen = some k'
    ∧ ((k'.td c).syscallRetval.toInt < 0 → Untouched k k')

/-- Creating a task is atomic exactly when the priority is valid or nothing can be
allocated. -/
theorem kCreateHandler_atomic_iff (hids : k.Ids) (hc : k.current = some c)
    (hnext : 0 ≤ k.nextTid) (hlt : k.nextTid < 2 ^ 63) :
  k.CreateAtomic c priority args argsLen
    ↔ kSchedPriorityIsValid priority = true ∨ k.AllocFails pgSft
  := by
  by_cases hfail : k.AllocFails pgSft
  · simp only [hfail, or_true, iff_true]
    obtain ⟨alloc, heq, hblocks, hagree⟩ :=
      kCreateHandler_fails priority args argsLen hids hc hfail
    refine ⟨_, heq, fun _ => ?_⟩
    constructor
    · apply List.map_congr_left
      intro p _
      exact hagree.tid p
    · exact hagree.sameQueues.lookup
    · exact (hagree.alloc hids.intact).1
    · exact hblocks
    · rfl
    · rfl
    · rfl
  · simp only [hfail, or_false]
    constructor
    · intro ⟨k', heq, hatomic⟩
      by_contra hprio
      rw [Bool.not_eq_true] at hprio
      obtain ⟨alloc, p, stackAddr, heq', -⟩ :=
        kCreateHandler_invalid priority args argsLen hids hc hfail hprio
      rw [heq] at heq'
      obtain rfl := Option.some.inj heq'
      rw [retval_setRetval] at hatomic
      have htids := (hatomic (by decide)).tids
      have hlen := congrArg List.length htids
      rw [List.length_map, List.length_map] at hlen
      have hmap : ((k.taken alloc p stackAddr pgSft).setRetval c (BitVec.ofInt 64 (-1))).mapTid
          = k.mapTid ++ [p] := rfl
      rw [hmap, List.length_append] at hlen
      exact absurd hlen (by simp)
    · intro hprio
      obtain ⟨hfail', -⟩ | ⟨-, alloc, p, stackAddr, hget, -⟩ := kTmgrGetFreeTask_spec hids pgSft
      · exact absurd hfail' hfail
      refine ⟨_, kCreateHandler_taken priority args argsLen hc hprio hget,
        fun hneg => absurd hneg ?_⟩
      rw [retval_setRetval, BitVec.toInt_ofInt, Int.bmod_eq_of_le] <;> omega

/-- `user_entry`, which runs first, creates a task with the greatest priority. -/
theorem kCreateHandler_atomic_iff_entry :
  Arena.bootKernel.schedule.CreateAtomic 3 0 0 0
  := by
  have hrun : Run.run step Arena.bootKernel [.schedule] = some Arena.bootKernel.schedule := rfl
  have hok : Run.Meets step MemoryOk Arena.bootKernel [.schedule] := ⟨trivial, fun _ _ => trivial⟩
  have hids := (Arena.booted.run_ids hok hrun).1
  apply (kCreateHandler_atomic_iff hids rfl (by decide) (by decide)).mpr
  left
  rfl

/-- `user_entry` creates a task with the priority -1: the task `3` can be found. -/
theorem kCreateHandler_not_atomic_entry :
  ¬ Arena.bootKernel.schedule.CreateAtomic 3 (-1) 0 0
  := by
  rintro ⟨k', heq, hatomic⟩
  obtain rfl := Option.some.inj heq
  have htids := (hatomic (by decide)).tids
  exact absurd htids (by decide)

end Kernel

end TrainsOs
