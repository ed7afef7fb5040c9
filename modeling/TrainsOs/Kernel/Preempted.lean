import TrainsOs.Kernel.States

/-!
# Preempted tasks

The registers of a task that is preempted are kept in its descriptor and on its stack
until the scheduler chooses it again. The field `syscall_retval` holds the register `x0`
of such a task; the kernel writes it in the descriptors of the running task and of tasks
that are blocked, and a task that is preempted is neither.
-/

namespace TrainsOs

namespace Kernel

variable {A : Type} {k k' k'' : Kernel A} {p c r s : TdPtr}

/-! ### Tasks that are left alone -/

/-- The saved registers of a task, its state and its memory have not changed. -/
structure Spared (k k' : Kernel A) (p : TdPtr) : Prop where
  pc : (k'.td p).pc = (k.td p).pc
  sp : (k'.td p).sp = (k.td p).sp
  pstate : (k'.td p).pstate = (k.td p).pstate
  syscallRetval : (k'.td p).syscallRetval = (k.td p).syscallRetval
  state : k'.state p = k.state p
  mem : k'.mem p = k.mem p
  alive : p ∈ k.mapTid → p ∈ k'.mapTid

theorem Spared.trans (h : Spared k k' p) (h' : Spared k' k'' p) :
  Spared k k'' p
  := by
  constructor
  · exact h'.pc.trans h.pc
  · exact h'.sp.trans h.sp
  · exact h'.pstate.trans h.pstate
  · exact h'.syscallRetval.trans h.syscallRetval
  · exact h'.state.trans h.state
  · exact h'.mem.trans h.mem
  · exact fun hp => h'.alive (h.alive hp)

/-- A task is left alone when its descriptor and its memory are. -/
theorem spared_of_eq (htd : k'.td p = k.td p) (hmem : k'.mem p = k.mem p)
    (hmap : p ∈ k.mapTid → p ∈ k'.mapTid) :
  Spared k k' p
  := by
  constructor
  · rw [htd]
  · rw [htd]
  · rw [htd]
  · rw [htd]
  · rw [state, state, htd]
  · exact hmem
  · exact hmap

theorem spared_modify (k : Kernel A) {x : TdPtr} (hp : p ≠ x) (f : TaskDsp → TaskDsp) :
  Spared k (k.modify x f) p
  := spared_of_eq ((k.modify_td x f p).trans (if_neg hp)) rfl id

theorem spared_setRetval (k : Kernel A) {x : TdPtr} (hp : p ≠ x) (v : BitVec 64) :
  Spared k (k.setRetval x v) p
  := k.spared_modify hp _

theorem spared_setState (k : Kernel A) {x : TdPtr} (hp : p ≠ x) (v : ℕ) :
  Spared k (k.setState x v) p
  := k.spared_modify hp _

theorem spared_modifyMem (k : Kernel A) {x : TdPtr} (hp : p ≠ x) (f : UserMem → UserMem) :
  Spared k (k.modifyMem x f) p
  := spared_of_eq rfl (Function.update_of_ne hp _ _) id

/-- A change of a mailbox leaves the registers of its owner alone. -/
theorem spared_modifyMailbox (k : Kernel A) (x : TdPtr) (f : Mailbox → Mailbox) (p : TdPtr) :
  Spared k (k.modifyMailbox x f) p
  := by
  by_cases hp : p = x
  · subst hp
    have htd : (k.modifyMailbox p f).td p = { k.td p with mailbox := f (k.td p).mailbox } :=
      (k.modify_td p (fun t => { t with mailbox := f t.mailbox }) p).trans (if_pos rfl)
    constructor
    · rw [htd]
    · rw [htd]
    · rw [htd]
    · rw [htd]
    · rw [state, state, htd]
    · rfl
    · exact id
  · exact k.spared_modify hp _

theorem spared_sendInit (k : Kernel A) (x : TdPtr) (msg msglen reply rplen : ℕ) (p : TdPtr) :
  Spared k (k.sendInit x msg msglen reply rplen) p
  := k.spared_modifyMailbox x (fun m => kMboxSendInit m msg msglen reply rplen) p

theorem spared_recvInit (k : Kernel A) (x : TdPtr) (tid msg msglen : ℕ) (p : TdPtr) :
  Spared k (k.recvInit x tid msg msglen) p
  := k.spared_modifyMailbox x (fun m => kMboxRecvInit m msg msglen tid) p

theorem spared_setRing (k : Kernel A) (x : TdPtr) (ring : RingBuffer TdPtr) (p : TdPtr) :
  Spared k (k.setRing x ring) p
  := k.spared_modifyMailbox x (fun m => { m with senderWaitqueue := ring }) p

theorem spared_relink (k : Kernel A) (l : DList.Links TdPtr) (hd : Blocked → Option TdPtr)
    (p : TdPtr) :
  Spared k (k.relink l hd) p
  := spared_of_eq rfl rfl id

theorem spared_setCurrent (k : Kernel A) (x : Option TdPtr) (p : TdPtr) :
  Spared k (k.setCurrent x) p
  := spared_of_eq rfl rfl id

theorem spared_setPoint (k : Kernel A) (x : Point) (p : TdPtr) :
  Spared k (k.setPoint x) p
  := spared_of_eq rfl rfl id

theorem spared_deliver (k : Kernel A) (hp : p ≠ r) (s : TdPtr) :
  Spared k (k.deliver r s) p
  := ((k.spared_modifyMem hp _).trans (spared_modifyMem _ hp _)).trans
    (spared_setRetval _ hp _)

theorem spared_answer (k : Kernel A) (hc : p ≠ c) (hr : p ≠ r) (reply rplen : ℕ) :
  Spared k (k.answer c r reply rplen) p
  := by
  rw [answer]
  exact ((k.spared_setRetval hr _).trans (spared_setRetval _ hc _)).trans
    (spared_modifyMem _ hr _)

theorem spared_kSchedAddReady (k : Kernel A) {x : TdPtr} (hp : p ≠ x) :
  Spared k (k.kSchedAddReady x) p
  := by
  apply k.kSchedAddReady_of x (P := fun k' => Spared k k' p)
  intro n heap m
  exact (k.spared_modify hp (readyDsp n)).trans (spared_of_eq rfl rfl id)

/-- A ready task may be readied. -/
theorem spared_kSchedAddReady_self (k : Kernel A) (hp : k.state p = TaskState.ready) :
  Spared k (k.kSchedAddReady p) p
  := by
  apply k.kSchedAddReady_of p (P := fun k' => Spared k k' p)
  intro n heap m
  have htd : (k.readied p n heap m).td p = readyDsp n (k.td p) :=
    (k.modify_td p (readyDsp n) p).trans (if_pos rfl)
  constructor
  · rw [htd]
    rfl
  · rw [htd]
    rfl
  · rw [htd]
    rfl
  · rw [htd]
    rfl
  · rw [hp, state, htd]
    rfl
  · rfl
  · exact id

theorem spared_removeWait {b : Blocked} {x : TdPtr} (h : k.removeWait b x = some k')
    (p : TdPtr) :
  Spared k k' p
  := by
  rw [removeWait, dlDelete] at h
  split at h
  · obtain ⟨⟨l, hd⟩, -, h⟩ := Option.bind_eq_some_iff.mp h
    rw [← Option.some.inj h]
    exact spared_of_eq rfl rfl id
  · cases h

/-! ### Interrupts -/

/-- A task that does not wait for the event is not woken up. -/
theorem spared_wakeupLoop {intrId retval fuel n n' : ℕ} {td : Option TdPtr}
    (hp : k.state p ≠ intrId) (h : wakeupLoop intrId retval fuel k td n = some (k', n')) :
  Spared k k' p
  := by
  induction fuel generalizing k td n with
  | zero =>
    cases td with
    | none =>
      simp only [wakeupLoop, Option.some.injEq, Prod.mk.injEq] at h
      rw [← h.1]
      exact spared_of_eq rfl rfl id
    | some td => cases h
  | succ fuel ih =>
    cases td with
    | none =>
      simp only [wakeupLoop, Option.some.injEq, Prod.mk.injEq] at h
      rw [← h.1]
      exact spared_of_eq rfl rfl id
    | some td =>
      unfold wakeupLoop at h
      by_cases htd : (k.td td).state = intrId
      · rw [if_pos htd] at h
        obtain ⟨k₁, hrem, h⟩ := Option.bind_eq_some_iff.mp h
        have hne : p ≠ td := by
          rintro rfl
          exact hp htd
        have hone : Spared k ((k₁.setRetval td (BitVec.ofNat 64 retval)).kSchedAddReady td) p :=
          ((spared_removeWait hrem p).trans (spared_modify _ hne _)).trans
            (spared_kSchedAddReady _ hne)
        apply hone.trans
        apply ih _ h
        rw [hone.state]
        exact hp
      · rw [if_neg htd] at h
        exact ih hp h

theorem spared_wakeupAll {ws : List (ℕ × ℕ)} (hp : ∀ w ∈ ws, k.state p ≠ w.1)
    (h : k.wakeupAll ws = some k') :
  Spared k k' p
  := by
  induction ws generalizing k with
  | nil =>
    rw [← Option.some.inj h]
    exact spared_of_eq rfl rfl id
  | cons w ws ih =>
    rw [wakeupAll] at h
    obtain ⟨⟨k₁, n⟩, hloop, h⟩ := Option.bind_eq_some_iff.mp h
    have hone := spared_wakeupLoop (hp w List.mem_cons_self) hloop
    apply hone.trans
    apply ih _ h
    intro w' hw'
    rw [hone.state]
    exact hp w' (List.mem_cons_of_mem w hw')

/-- A task that waits for none of the events is not woken up. -/
theorem spared_kIntrHandler {irqs : List Irq} (hp : k.state p ∉ eventIds irqs)
    (h : k.kIntrHandler irqs = some k') :
  Spared k k' p
  := by
  apply spared_wakeupAll _ h
  intro w hw heq
  rw [heq] at hp
  exact hp (List.mem_map_of_mem hw)

/-! ### System calls -/

/-- The task is not blocked in a system call. -/
def Unblocked (k : Kernel A) (p : TdPtr) : Prop :=
  ∀ b : Blocked, b.test (k.state p) = false

theorem unblocked_of_ready (h : k.state p = TaskState.ready) :
  k.Unblocked p
  := by
  intro b
  rw [h]
  exact b.not_test_ready

/-- The action takes the task off the list that it is blocked on. -/
def Frees (k : Kernel A) (p : TdPtr) : Act → Prop
  | .syscall _ (.send tid _ _ _ _) =>
      k.state p = TaskState.receiveBlocked ∧ (k.td p).tid = tid
  | .syscall _ (.recv _ _ _) =>
      k.state p = TaskState.sendBlocked ∧ ∃ c, k.current = some c ∧ (k.queue c).head? = some p
  | .syscall _ (.reply tid _ _) =>
      k.state p = TaskState.replyBlocked ∧ (k.td p).tid = tid
  | .interrupt _ _ irqs => k.state p ∈ eventIds irqs
  | _ => False

/-- A task that is not blocked is not freed. -/
theorem Unblocked.not_frees (h : k.Unblocked p) (a : Act) :
  ¬ k.Frees p a
  := by
  have hstate : ∀ (b : Blocked) s, b.test s = true → k.state p ≠ s := by
    rintro b s hs rfl
    rw [h b] at hs
    cases hs
  intro hfree
  cases a with
  | syscall ctx call =>
    cases call <;> try exact hfree
    · exact hstate .recv _ rfl hfree.1
    · exact hstate .send _ rfl hfree.1
    · exact hstate .reply _ rfl hfree.1
  | interrupt ctx x0 irqs =>
    exact hstate .event _ (decide_eq_true (le_of_mem_eventIds hfree)) rfl
  | _ => exact hfree

section Handle

variable [TaskAlloc A] {sent : TdPtr → ℤ} {q : Blocked → List TdPtr}

section Call

variable (h : Core False False sent k q [c]) (hc : k.current = some c)
  (hready : k.state c = TaskState.ready) (hpc : p ≠ c) {ctx : Ctx}

include h hc hpc

theorem spared_recv {tid msg msglen : ℕ} (hp : ¬ k.Frees p (.syscall ctx (.recv tid msg msglen)))
    (hk' : k.kRecvHandler tid msg msglen = some k') :
  Spared k k' p
  := by
  cases hqueue : k.queue c with
  | nil =>
    obtain ⟨k'', l, hd, q', heq, rfl, -⟩ := kRecvHandler_wait h hc hqueue
    rw [← Option.some.inj (heq.symm.trans hk')]
    exact (((k.spared_recvInit c tid msg msglen p).trans (spared_setState _ hpc _)).trans
      (spared_relink _ l hd p)).trans (spared_setCurrent _ none p)
  | cons s rest =>
    obtain ⟨k'', ring, l, hd, q', heq, rfl, -, hs, -⟩ := kRecvHandler_take h hc hqueue False.elim
    have hps : p ≠ s := by
      rintro rfl
      apply hp
      refine ⟨?_, c, hc, by rw [hqueue, List.head?_cons]⟩
      simpa [Blocked.test] using ((h.base.lists.mem_iff .send p).mp hs).2.2
    rw [← Option.some.inj (heq.symm.trans hk')]
    have hinit : Spared k ((k.setRing c ring).recvInit c tid msg msglen) p :=
      (k.spared_setRing c ring p).trans (spared_recvInit _ c tid msg msglen p)
    exact (((hinit.trans (spared_deliver _ hpc s)).trans (spared_setState _ hps _)).trans
      (spared_relink _ l hd p)).trans ((spared_kSchedAddReady _ hpc).trans
        (spared_setCurrent _ none p))

include hready

theorem spared_send {tid : ℤ} {msg msglen reply rplen : ℕ}
    (hp : ¬ k.Frees p (.syscall ctx (.send tid msg msglen reply rplen)))
    (hk' : k.kSendHandler tid msg msglen reply rplen = some k') :
  Spared k k' p
  := by
  have hinit := k.spared_sendInit c msg msglen reply rplen p
  cases hlook : k.kTaskMgrGetTaskDsp tid with
  | none =>
    rw [← Option.some.inj ((kSendHandler_none hc hlook).symm.trans hk')]
    exact k.spared_setRetval hpc _
  | some r =>
    by_cases hr : k.state r = TaskState.receiveBlocked
    · obtain ⟨k'', l, hd, q', heq, rfl, -⟩ := kSendHandler_direct h hc hready hlook hr False.elim
      have hpr : p ≠ r := by
        rintro rfl
        exact hp ⟨hr, (kTaskMgrGetTaskDsp_some hlook).2⟩
      rw [← Option.some.inj (heq.symm.trans hk')]
      exact (((hinit.trans (spared_deliver _ hpr c)).trans (spared_setState _ hpc _)).trans
        (spared_relink _ l hd p)).trans ((spared_kSchedAddReady _ hpr).trans
          (spared_setCurrent _ none p))
    · by_cases hlen : (k.queue r).length < userStackArrayCnt
      · obtain ⟨k'', ring, l, hd, q', heq, rfl, -⟩ := kSendHandler_queued h hc hlook hr hlen
        rw [← Option.some.inj (heq.symm.trans hk')]
        exact (((hinit.trans (spared_setRing _ r ring p)).trans
          (spared_setState _ hpc _)).trans (spared_relink _ l hd p)).trans
            (spared_setCurrent _ none p)
      · obtain ⟨k'', l, hd, q', heq, rfl, -⟩ := kSendHandler_full h not_false hc hlook hr
          (not_lt.mp hlen)
        rw [← Option.some.inj (heq.symm.trans hk')]
        have hnull : Spared k ({ k.sendInit c msg msglen reply rplen with atNull := some c } :
            Kernel A) p := hinit.trans (spared_of_eq rfl rfl id)
        exact ((hnull.trans (spared_setState _ hpc _)).trans (spared_relink _ l hd p)).trans
          (spared_setCurrent _ none p)

theorem spared_reply {tid : ℤ} {reply rplen : ℕ}
    (hp : ¬ k.Frees p (.syscall ctx (.reply tid reply rplen)))
    (hk' : k.kReplyHandler tid reply rplen = some k') :
  Spared k k' p
  := by
  cases hlook : k.kTaskMgrGetTaskDsp tid with
  | none =>
    rw [← Option.some.inj ((kReplyHandler_none hc hlook).symm.trans hk')]
    exact k.spared_setRetval hpc _
  | some r =>
    by_cases hr : k.state r = TaskState.replyBlocked
    · obtain ⟨k'', l, hd, q', heq, rfl, -⟩ := kReplyHandler_answer h hc hready hlook hr False.elim
      have hpr : p ≠ r := by
        rintro rfl
        exact hp ⟨hr, (kTaskMgrGetTaskDsp_some hlook).2⟩
      rw [← Option.some.inj (heq.symm.trans hk')]
      exact ((k.spared_answer hpc hpr reply rplen).trans (spared_relink _ l hd p)).trans
        (spared_kSchedAddReady _ hpr)
    · rw [← Option.some.inj ((kReplyHandler_not hc hlook hr).symm.trans hk')]
      exact k.spared_setRetval hpc _

omit hready in
theorem spared_create (hmap : p ∈ k.mapTid) {priority : ℤ} {args argsLen : ℕ}
    (hok : k.Proper priority argsLen ∨ k.AllocFails pgSft)
    (hk' : k.kCreateHandler priority args argsLen = some k') :
  Spared k k' p
  := by
  obtain ⟨alloc, heq, -⟩ | ⟨alloc, x, stackAddr, -, heq, hborn⟩ :=
    kCreateHandler_cases args h.base.ids hc hok
  · rw [← Option.some.inj (heq.symm.trans hk')]
    have halloc : Spared k ({ k with alloc := alloc } : Kernel A) p :=
      spared_of_eq rfl rfl id
    exact halloc.trans (spared_setRetval _ hpc _)
  · have hpx : p ≠ x := by
      rintro rfl
      exact hborn.not_mem h.base.ids hmap
    rw [← Option.some.inj (heq.symm.trans hk')]
    have hcreated : Spared k (k.created alloc x stackAddr c priority.toNat args argsLen) p := by
      apply spared_of_eq (hborn.td p hpx)
      · exact Function.update_of_ne hpx _ _
      · intro _
        rw [hborn.mapTid]
        exact List.mem_append_left _ hmap
    exact (hcreated.trans (spared_kSchedAddReady _ hpx)).trans (spared_setRetval _ hpc _)

/-- No system call of another task touches a task that it does not free. -/
theorem spared_handle (hmap : p ∈ k.mapTid) {call : Call} (hp : ¬ k.Frees p (.syscall ctx call))
    (hevent : EventOk (.syscall ctx call)) (halloc : k.AllocOk (.syscall ctx call))
    (hk' : k.handle call = some k') :
  Spared k k' p
  := by
  cases call with
  | exit =>
    rw [handle, (kExitHandler_spec h hc (halloc c hc) False.elim).1] at hk'
    rw [← Option.some.inj hk']
    apply spared_of_eq
    · rfl
    · rfl
    · intro _
      exact (h.base.ids.nodup.mem_erase_iff).mpr ⟨hpc, hmap⟩
  | yield =>
    rw [← Option.some.inj hk']
    exact spared_of_eq rfl rfl id
  | create priority args argsLen =>
    exact spared_create h hc hpc hmap halloc hk'
  | myTid =>
    rw [← Option.some.inj ((kMyTidHandler_spec hc).symm.trans hk')]
    exact k.spared_setRetval hpc _
  | myParentTid =>
    obtain ⟨v, w, heq, -⟩ := kMyParentTidHandler_spec hc
    rw [← Option.some.inj (heq.symm.trans hk')]
    exact (k.spared_modify hpc _).trans (spared_setRetval _ hpc _)
  | send tid msg msglen reply rplen => exact spared_send h hc hready hpc hp hk'
  | recv tid msg msglen => exact spared_recv h hc hpc hp hk'
  | reply tid reply rplen => exact spared_reply h hc hready hpc hp hk'
  | awaitEvent intrId =>
    obtain ⟨k'', l, hd, q', heq, rfl, -⟩ := kAwaitEventHandler_spec h hc hevent
    rw [← Option.some.inj (heq.symm.trans hk')]
    exact ((k.spared_setState hpc _).trans (spared_relink _ l hd p)).trans
      (spared_setCurrent _ none p)
  | mmap target memSz =>
    obtain ⟨alloc, f, heq, -⟩ := kMmapHandler_spec hc target memSz
    rw [← Option.some.inj (heq.symm.trans hk')]
    have halloc : Spared k ({ k with alloc := alloc } : Kernel A) p :=
      spared_of_eq rfl rfl id
    exact (halloc.trans (spared_modifyMem _ hpc f)).trans (spared_setRetval _ hpc _)
  | other retval =>
    rw [handle, hc] at hk'
    rw [← Option.some.inj hk']
    exact k.spared_setRetval hpc _

end Call

/-! ### Steps -/

omit [TaskAlloc A] in
/-- The registers that are saved when a task is trapped are its own. -/
theorem spared_storeTd (k : Kernel A) (hpc : p ≠ c) (ctx : Ctx) (esrEl1 : ℕ) :
  Spared k (k.storeTd c ctx esrEl1) p
  := k.spared_modify hpc _

omit [TaskAlloc A] in
theorem spared_schedule (k : Kernel A) (p : TdPtr) :
  Spared k k.schedule p
  := by
  rw [schedule]
  obtain ⟨heq, -⟩ | ⟨x, heap, heq, -⟩ := k.kSchedGetNext_eq
  · rw [heq]
    exact spared_of_eq rfl rfl id
  · rw [heq]
    exact spared_of_eq rfl rfl id

omit [TaskAlloc A] in
/-- Putting the task that was trapped back into the heap. -/
theorem spared_requeue (k : Kernel A) (hp : k.state p = TaskState.ready ∨ k.current ≠ some p) :
  Spared k k.requeue p
  := by
  rw [requeue]
  cases hc : k.current with
  | none => exact k.spared_setPoint .top p
  | some c =>
    dsimp only
    split
    · exact k.spared_setPoint .top p
    · apply Spared.trans _ (spared_setPoint _ .top p)
      by_cases hpc : p = c
      · subst hpc
        obtain hready | hcur := hp
        · exact k.spared_kSchedAddReady_self hready
        · exact absurd hc hcur
      · exact k.spared_kSchedAddReady hpc

omit [TaskAlloc A] in
theorem requeue_point (k : Kernel A) :
  k.requeue.point = .top
  := by
  rw [requeue]
  cases k.current with
  | none => rfl
  | some c =>
    dsimp only
    split <;> rfl

/-- What frees a task does not depend on the registers that are saved. -/
theorem not_frees_storeTd {ctx : Ctx} {call : Call} (hp : ¬ k.Frees p (.syscall ctx call))
    (x : TdPtr) (ctx' : Ctx) (esrEl1 : ℕ) :
  ¬ (k.storeTd x ctx' esrEl1).Frees p (.syscall ctx call)
  := by
  have hagree := k.agree_storeTd x ctx' esrEl1
  cases call <;> try exact hp
  · rwa [Frees, hagree.state, hagree.tid]
  · rw [Frees, hagree.state]
    simp only [hagree.sameQueues.queue]
    exact hp
  · rwa [Frees, hagree.state, hagree.tid]

/-- No step touches a task that neither runs nor is freed. -/
theorem spared_step (h : Inv False False sent k) {a : Act} (hok : k.LinkOk a)
    (hmap : p ∈ k.mapTid) (hp : ¬ k.Frees p a) (hcur : k.point = .user → k.current ≠ some p)
    (hk' : k.step a = some k') :
  Spared k k' p
  := by
  cases a with
  | schedule =>
    rw [← Option.some.inj hk']
    exact k.spared_schedule p
  | write mem =>
    obtain ⟨c, hc, hk'⟩ := Option.bind_eq_some_iff.mp hk'
    have hpc : p ≠ c := by
      rintro rfl
      exact hcur hok.enabled hc
    rw [← Option.some.inj hk']
    exact k.spared_modifyMem hpc _
  | syscall ctx call =>
    obtain ⟨c, q, hc, hidle, hcore, hready, -⟩ := h.trapped hok.enabled
    obtain ⟨c', hc', hk'⟩ := Option.bind_eq_some_iff.mp hk'
    obtain rfl := Option.some.inj (hc.symm.trans hc')
    obtain ⟨k₁, hk₁, hk'⟩ := Option.bind_eq_some_iff.mp hk'
    have hpc : p ≠ c := by
      rintro rfl
      exact hcur hok.enabled.1 hc
    have hstore := k.spared_storeTd hpc ctx (esrSvc call.number)
    have hp₁ := not_frees_storeTd hp c ctx (esrSvc call.number)
    rw [← Option.some.inj hk']
    apply (hstore.trans _).trans (spared_setPoint _ .bottom p)
    exact spared_handle hcore hc hready hpc hmap hp₁ hok.event
      (hok.ok.storeTd c ctx (esrSvc call.number)).alloc hk₁
  | interrupt ctx x0 irqs =>
    obtain ⟨c, hc, hk'⟩ := Option.bind_eq_some_iff.mp hk'
    obtain ⟨k₁, hk₁, hk'⟩ := Option.bind_eq_some_iff.mp hk'
    have hpc : p ≠ c := by
      rintro rfl
      exact hcur hok.enabled hc
    have hstore := (k.spared_storeTd hpc ctx 0).trans (spared_setRetval _ hpc x0)
    rw [← Option.some.inj hk']
    apply (hstore.trans _).trans (spared_setPoint _ .bottom p)
    apply spared_kIntrHandler _ hk₁
    rw [hstore.state]
    exact hp
  | requeue =>
    rw [← Option.some.inj hk']
    apply k.spared_requeue
    by_cases hc : k.current = some p
    · left
      apply h.ready _ p hc
      rw [show k.point = .bottom from hok.enabled]
      exact Point.noConfusion
    · exact Or.inr hc

end Handle

/-! ### Runs -/

section Runs

variable [TaskAlloc A] {k₀ : Kernel A}

/-- The registers of the task are saved: `pc`, `sp`, the state of the processor and `x0` in
its descriptor, and the others in its memory. -/
structure Saved (k : Kernel A) (p : TdPtr) (ctx : Ctx) (x0 : BitVec 64) (mem : UserMem) :
    Prop where
  pc : (k.td p).pc = ctx.pc
  sp : (k.td p).sp = ctx.sp
  pstate : (k.td p).pstate = ctx.pstate
  syscallRetval : (k.td p).syscallRetval = x0
  mem : k.mem p = mem

omit [TaskAlloc A] in
theorem Saved.spared {ctx : Ctx} {x0 : BitVec 64} {mem : UserMem} (h : Saved k p ctx x0 mem)
    (hk' : Spared k k' p) :
  Saved k' p ctx x0 mem
  := by
  constructor
  · rw [hk'.pc, h.pc]
  · rw [hk'.sp, h.sp]
  · rw [hk'.pstate, h.pstate]
  · rw [hk'.syscallRetval, h.syscallRetval]
  · rw [hk'.mem, h.mem]

/-- The conditions, and the task `p` is not scheduled. -/
structure AwayOk (p : TdPtr) (k : Kernel A) (a : Act) : Prop where
  link : k.LinkOk a
  away : a = .schedule → k.schedule.current ≠ some p

/-- The task `p` waits for its turn, after it was preempted. -/
structure Preempted (p : TdPtr) (ctx : Ctx) (x0 : BitVec 64) (mem : UserMem) (k : Kernel A) :
    Prop where
  inv : ∃ sent, Inv False False sent k
  alive : p ∈ k.mapTid
  state : k.state p = TaskState.ready
  away : k.point = .user → k.current ≠ some p
  saved : Saved k p ctx x0 mem

/-- A step of the kernel while another task runs. -/
theorem Preempted.step {ctx : Ctx} {x0 : BitVec 64} {mem : UserMem}
    (h : Preempted p ctx x0 mem k) {a : Act} (hok : AwayOk p k a) :
  ∃ k', k.step a = some k' ∧ Preempted p ctx x0 mem k'
  := by
  obtain ⟨sent, hinv⟩ := h.inv
  obtain ⟨k', hstep, hinv'⟩ := step_inv hinv hok.link.ok
  have hk' := spared_step hinv hok.link h.alive ((unblocked_of_ready h.state).not_frees a) h.away
    hstep
  refine ⟨k', hstep, ⟨_, hinv'⟩, hk'.alive h.alive, hk'.state.trans h.state, ?_,
    h.saved.spared hk'⟩
  intro hp
  cases a with
  | schedule =>
    rw [← Option.some.inj hstep]
    exact hok.away rfl
  | write mem =>
    obtain ⟨c, -, hstep⟩ := Option.bind_eq_some_iff.mp hstep
    rw [← Option.some.inj hstep]
    exact h.away hok.link.enabled
  | syscall ctx call =>
    obtain ⟨c, -, hstep⟩ := Option.bind_eq_some_iff.mp hstep
    obtain ⟨k₁, -, hstep⟩ := Option.bind_eq_some_iff.mp hstep
    rw [← Option.some.inj hstep] at hp
    cases hp
  | interrupt ctx x0 irqs =>
    obtain ⟨c, -, hstep⟩ := Option.bind_eq_some_iff.mp hstep
    obtain ⟨k₁, -, hstep⟩ := Option.bind_eq_some_iff.mp hstep
    rw [← Option.some.inj hstep] at hp
    cases hp
  | requeue =>
    rw [← Option.some.inj hstep, requeue_point] at hp
    cases hp

/-- An interrupt while the task runs. -/
theorem Inv.preempts {sent : TdPtr → ℤ} (h : Inv False False sent k) (hc : k.current = some p)
    {ctx : Ctx} {x0 : BitVec 64} {irqs : List Irq} (hok : k.LinkOk (.interrupt ctx x0 irqs)) :
  ∃ k', k.step (.interrupt ctx x0 irqs) = some k' ∧ Preempted p ctx x0 (k.mem p) k'
  := by
  obtain ⟨k', hstep, hinv'⟩ := step_inv h hok.ok
  have hpoint : k.point ≠ .top := by
    rw [show k.point = .user from hok.enabled]
    exact Point.noConfusion
  have hready := h.ready hpoint p hc
  have halive : p ∈ k.mapTid := by
    obtain ⟨q, hcore⟩ := h.core
    rw [floating_user hpoint, Kernel.running, hc] at hcore
    dsimp only at hcore
    split at hcore
    · rename_i hidle
      rw [hidle]
      exact hcore.base.lists.idle_mem
    · exact hcore.base.lists.floating p (List.mem_singleton.mpr rfl)
  let k₁ := (k.storeTd p ctx 0).setRetval p x0
  have htd : k₁.td p =
      { k.td p with
        pc := ctx.pc
        sp := ctx.sp
        pstate := ctx.pstate
        esrEl1 := 0
        syscallRetval := x0 } := by
    simp only [k₁, setRetval, storeTd, modify_td, if_true]
  have hready₁ : k₁.state p = TaskState.ready := by
    rw [Kernel.state, htd]
    exact hready
  have hsaved : Saved k₁ p ctx x0 (k.mem p) := by
    constructor
    · rw [htd]
    · rw [htd]
    · rw [htd]
    · rw [htd]
    · rfl
  obtain ⟨c, hc', hstep'⟩ := Option.bind_eq_some_iff.mp hstep
  obtain rfl := Option.some.inj (hc.symm.trans hc')
  obtain ⟨k₂, hk₂, hstep'⟩ := Option.bind_eq_some_iff.mp hstep'
  have hnot := (unblocked_of_ready hready₁).not_frees (.interrupt ctx x0 irqs)
  have hk' := (spared_kIntrHandler hnot hk₂).trans
    (spared_setPoint _ .bottom p)
  rw [Option.some.inj hstep'] at hk'
  refine ⟨k', hstep, ⟨_, hinv'⟩, hk'.alive halive, hk'.state.trans hready₁, ?_,
    hsaved.spared hk'⟩
  intro hp
  rw [← Option.some.inj hstep'] at hp
  cases hp

/-- The return value of a task is set in its own system calls and while it is blocked. -/
def RetvalOwn (k : Kernel A) : Prop :=
  ∀ a k', k.LinkOk a → k.step a = some k' → ∀ p ∈ k.mapTid,
    (k'.td p).syscallRetval ≠ (k.td p).syscallRetval →
    k.current = some p ∨ ∃ b : Blocked, b.test (k.state p) = true

theorem Inv.retvalOwn {sent : TdPtr → ℤ} (h : Inv False False sent k) :
  k.RetvalOwn
  := by
  intro a k' hok hk' p hmap hne
  by_contra hnot
  rw [not_or, not_exists] at hnot
  apply hne
  have hun : k.Unblocked p := fun b => Bool.eq_false_iff.mpr (hnot.2 b)
  exact (spared_step h hok hmap (hun.not_frees a) (fun _ => hnot.1) hk').syscallRetval

/-- A task that is preempted at the end of a run keeps its registers until it is scheduled
again, whatever the other tasks do. -/
theorem kernel_preempted (h : Booted k₀) {as : List Act} (has : Run.Meets step LinkOk k₀ as) :
  ∃ k, Run.run step k₀ as = some k ∧ k.RetvalOwn
    ∧ ∀ p ctx x0 irqs bs, k.current = some p →
      Run.Meets step (AwayOk p) k (.interrupt ctx x0 irqs :: bs) →
      ∃ k', Run.run step k (.interrupt ctx x0 irqs :: bs) = some k'
        ∧ Saved k' p ctx x0 (k.mem p) ∧ Saved k'.schedule p ctx x0 (k.mem p)
  := by
  obtain ⟨k, hrun, sent, hinv⟩ := h.run_inv (has.mono fun _ _ => LinkOk.ok)
  refine ⟨k, hrun, hinv.retvalOwn, ?_⟩
  intro p ctx x0 irqs bs hc hmeets
  obtain ⟨k₁, hstep, hpre⟩ := hinv.preempts hc hmeets.1.link
  obtain ⟨k', hrun', hpre'⟩ := Run.run_invariant (P := Preempted p ctx x0 (k.mem p))
    (fun _ _ hpre hok => hpre.step hok) hpre (hmeets.2 k₁ hstep)
  refine ⟨k', ?_, hpre'.saved, hpre'.saved.spared (k'.spared_schedule p)⟩
  rw [Run.run_cons hstep]
  exact hrun'

end Runs

/-- `user_entry` is preempted by the timer, and the name server sends a message to it. -/
theorem kernel_preempted_entry :
  ∃ k, Run.run step Arena.bootKernel [.schedule] = some k
    ∧ ∃ k', Run.run step k [.interrupt ctx₀ 7 [.timer], .requeue, .schedule,
        .syscall ctx₀ (.send 1 0 8 0 8), .requeue] = some k'
      ∧ Saved k' 3 ctx₀ 7 (k.mem 3)
  := by
  have has : Run.Meets step LinkOk Arena.bootKernel [.schedule] :=
    ⟨⟨rfl, trivial, trivial⟩, fun _ _ => trivial⟩
  obtain ⟨k, hrun, -, hsaved⟩ := kernel_preempted Arena.booted has
  refine ⟨k, hrun, ?_⟩
  obtain rfl := Option.some.inj hrun
  obtain ⟨k', hrun', hsaved', -⟩ := hsaved 3 ctx₀ 7 [.timer]
    [.requeue, .schedule, .syscall ctx₀ (.send 1 0 8 0 8), .requeue] rfl (by
      refine ⟨⟨⟨rfl, trivial, trivial⟩, nofun⟩, ?_⟩
      intro k₁ h₁
      rw [← Option.some.inj h₁]
      refine ⟨⟨⟨rfl, trivial, trivial⟩, nofun⟩, ?_⟩
      intro k₂ h₂
      rw [← Option.some.inj h₂]
      refine ⟨⟨⟨rfl, trivial, trivial⟩, fun _ => by decide⟩, ?_⟩
      intro k₃ h₃
      rw [← Option.some.inj h₃]
      refine ⟨⟨⟨⟨rfl, by decide⟩, trivial, trivial⟩, nofun⟩, ?_⟩
      intro k₄ h₄
      rw [← Option.some.inj h₄]
      exact ⟨⟨⟨rfl, trivial, trivial⟩, nofun⟩, fun _ _ => trivial⟩)
  exact ⟨k', hrun', hsaved'⟩

/-! ### A task that is left uninitialised -/

/-- The memory before `k_main`, with remains of other data where two descriptors will be
allocated: the first looks like a task that waits for a reply and is linked to the second,
which looks like a task that waits for the timer. -/
def remains : Kernel Arena :=
  { Arena.blankKernel with
    td := Function.update (Function.update Arena.blankKernel.td 9
      { Arena.blankKernel.td 9 with state := TaskState.replyBlocked, priority := 20 }) 11
      { Arena.blankKernel.td 11 with state := intrIdTimer, priority := 20 }
    links :=
      { prev := Function.update Arena.blankKernel.links.prev 9 (some 7)
        next := Function.update Arena.blankKernel.links.next 9 (some 11) } }

/-- The kernel when it enters the loop. -/
def remainsBoot : Kernel Arena :=
  (kMain remains (fun _ => 0) 0 0).getD remains

/-- An iteration with a system call. -/
def callTurn (call : Call) : List Act :=
  [.schedule, .syscall ctx₀ call, .requeue]

/-- `user_entry` creates a task that waits for an UART, receives from the name server, and
calls `ke_create` with the priority `21`. It replies to the descriptor that is left, which
links the next free descriptor into the list of the tasks that wait for an event. The timer
puts that one into the heap, `ke_create` allocates it and puts it there once more, and the
new task waits for the timer while it is still in the heap. -/
def remainsRun : List Act :=
  callTurn (.create 0 0 0) ++ callTurn (.send 1 0 0 0 0) ++ callTurn (.awaitEvent (intrIdUart 0))
    ++ callTurn (.recv 0 0 0) ++ callTurn (.create 21 0 0) ++ callTurn (.reply 4 0 0)
    ++ [.schedule, .interrupt ctx₀ 0 [.timer], .requeue] ++ callTurn (.create 0 0 0)
    ++ callTurn (.awaitEvent intrIdTimer) ++ [.schedule]

/-- The timer interrupts the new task and wakes it up at once, so that its `x0` is lost. -/
theorem kernel_not_preempted :
  ∃ k₀ : Kernel Arena, Booted k₀ ∧ ∃ as k k',
    Run.Meets step EventsOk k₀ as ∧ Run.run step k₀ as = some k ∧ k.current = some 11
    ∧ 11 ∈ k.mapTid ∧ 11 ≠ k.idleTask ∧ k.EventsOk (.interrupt ctx₀ 7 [.timer])
    ∧ k.step (.interrupt ctx₀ 7 [.timer]) = some k' ∧ ¬ Saved k' 11 ctx₀ 7 (k.mem 11)
  := by
  have hcheck : Run.allOk step eventsCheck remainsBoot remainsRun = true := by decide +kernel
  have hlast : ((Run.run step remainsBoot remainsRun).any fun k =>
      k.eventsCheck (.interrupt ctx₀ 7 [.timer]) && k.current = some 11
        && decide (11 ∈ k.mapTid) && 11 ≠ k.idleTask
        && (k.step (.interrupt ctx₀ 7 [.timer])).any fun k' => (k'.td 11).syscallRetval ≠ 7)
      = true := by decide +kernel
  obtain ⟨k, hrun, hk⟩ := (Option.any_eq_true _ _).mp hlast
  simp only [Bool.and_eq_true, decide_eq_true_eq] at hk
  obtain ⟨⟨⟨⟨hcheck', hc⟩, hmap⟩, hidle⟩, hnext⟩ := hk
  obtain ⟨k', hstep, hk'⟩ := (Option.any_eq_true _ _).mp hnext
  refine ⟨remainsBoot, ⟨remains, fun _ => 0, 0, 0, trivial, rfl, rfl⟩, remainsRun, k, k',
    Run.meets_of_allOk (fun _ _ => eventsOk_of_check) hcheck, hrun, hc, hmap, hidle,
    eventsOk_of_check hcheck', hstep, ?_⟩
  intro hsaved
  exact of_decide_eq_true hk' hsaved.syscallRetval

end Kernel

end TrainsOs
