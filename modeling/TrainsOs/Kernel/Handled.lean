import TrainsOs.Kernel.WaitQueues

/-!
# What the handlers do

For each way through a handler the kernel that it leaves, and that the invariant holds
there. The links of the lists are not said; everything else is.
-/

namespace TrainsOs

namespace Kernel

variable {A : Type} {cq ch : Prop} {sent sent' : TdPtr → ℤ} {k : Kernel A}
  {q : Blocked → List TdPtr} {F : List TdPtr} {c r : TdPtr}

/-- The task that is found is alive and has the `tid`. -/
theorem kTaskMgrGetTaskDsp_some {tid : ℤ} (h : k.kTaskMgrGetTaskDsp tid = some r) :
  r ∈ k.mapTid ∧ (k.td r).tid = tid
  := by
  rw [kTaskMgrGetTaskDsp] at h
  exact ⟨List.mem_of_find?_eq_some h, by simpa using List.find?_some h⟩

theorem kTaskMgrGetTaskDsp_none {tid : ℤ} (h : k.kTaskMgrGetTaskDsp tid = none) :
  ∀ p ∈ k.mapTid, (k.td p).tid ≠ tid
  := by
  rw [kTaskMgrGetTaskDsp, List.find?_eq_none] at h
  simpa using h

/-- A task that is alive is found by its `tid`. -/
theorem Ids.kTaskMgrGetTaskDsp_eq [TaskAlloc A] (h : k.Ids) (hr : r ∈ k.mapTid) :
  k.kTaskMgrGetTaskDsp (k.td r).tid = some r
  := by
  cases hlook : k.kTaskMgrGetTaskDsp (k.td r).tid with
  | none => exact absurd rfl (kTaskMgrGetTaskDsp_none hlook r hr)
  | some p =>
    obtain ⟨hp, htid⟩ := kTaskMgrGetTaskDsp_some hlook
    rw [h.tid_inj p hp r hr htid]

/-- A task that is not floating is on the list that its state says. -/
theorem Lists.mem_of_test (h : k.Lists q F) {b : Blocked} (hr : r ∈ k.mapTid) (hF : r ∉ F)
    (ht : b.test (k.state r) = true) :
  r ∈ q b
  := (h.mem_iff b r).mpr ⟨hr, hF, ht⟩

theorem Lists.not_mem_of_floating (h : k.Lists q F) (hF : r ∈ F) (b : Blocked) :
  r ∉ q b
  := fun hr => ((h.mem_iff b r).mp hr).2.1 hF

/-! ### Sending -/

/-- The mailbox of the sender is set up, as `k_send_handler` does first. -/
def sendInit (k : Kernel A) (c : TdPtr) (msg msglen reply rplen : ℕ) : Kernel A :=
  k.modifyMailbox c fun m => kMboxSendInit m msg msglen reply rplen

theorem agree_sendInit [TaskAlloc A] (k : Kernel A) (c : TdPtr) (msg msglen reply rplen : ℕ) :
  Agree k (k.sendInit c msg msglen reply rplen)
  := k.agree_modifyMailbox c fun _ => rfl

section Send

variable {tid : ℤ} {msg msglen reply rplen : ℕ}

theorem kSendHandler_none (hc : k.current = some c) (hlook : k.kTaskMgrGetTaskDsp tid = none) :
  k.kSendHandler tid msg msglen reply rplen = some (k.setRetval c (BitVec.ofInt 64 (-1)))
  := by simp [kSendHandler, hc, hlook]

/-- Only the receiver of a task that is running changes. -/
theorem Queues.sent_update (h : k.Queues cq sent q) (hc : c ∉ q .send) (tid : ℤ) :
  k.Queues cq (Function.update sent c tid) q
  := by
  apply h.resent
  intro s hs
  exact Function.update_of_ne (ne_of_mem_of_not_mem hs hc) _ _

variable [TaskAlloc A]

/-- Sending to a task that waits to receive. -/
theorem kSendHandler_direct (h : Core cq ch sent k q [c]) (hc : k.current = some c)
    (hready : k.state c = TaskState.ready) (hlook : k.kTaskMgrGetTaskDsp tid = some r)
    (hr : k.state r = TaskState.receiveBlocked)
    (hroom : ch → k.heap.count < kSchedHeapCapacity) :
  ∃ k' l hd q', k.kSendHandler tid msg msglen reply rplen = some k'
    ∧ k' = (((((k.sendInit c msg msglen reply rplen).deliver r c).setState c
        TaskState.replyBlocked).relink l hd).kSchedAddReady r).setCurrent none
    ∧ SameQueues k k' ∧ Core cq ch (Function.update sent c tid) k' q' []
  := by
  obtain ⟨hrmap, -⟩ := kTaskMgrGetTaskDsp_some hlook
  have hrc : r ≠ c := by
    rintro rfl
    rw [hready] at hr
    cases hr
  have hcfree := h.base.lists.not_mem_of_floating (List.mem_singleton.mpr rfl)
  have hrecv : r ∈ q .recv := by
    apply h.base.lists.mem_of_test hrmap
    · simpa using hrc
    · rw [hr]
      rfl
  have hinit := k.agree_sendInit c msg msglen reply rplen
  have hagree := hinit.trans (agree_deliver _ r c)
  obtain ⟨l₁, hd₁, hadd, hbase₁⟩ := (h.base.congr hagree).addWait (b := .reply)
    (s := TaskState.replyBlocked) List.not_mem_nil rfl
  obtain ⟨l, hd, hrem, hbase₂⟩ := hbase₁.removeWait (b := .recv) hrecv
  have hbase₃ := hbase₂.addReady List.not_mem_nil hroom
  have hsame : SameQueues k ((((((k.sendInit c msg msglen reply rplen).deliver r c).setState c
      TaskState.replyBlocked).relink l hd).kSchedAddReady r).setCurrent none) :=
    (((hagree.sameQueues.trans (sameQueues_setState _ _ _)).trans (sameQueues_relink _ _ _)).trans
      (sameQueues_kSchedAddReady _ _)).trans (agree_setCurrent _ _).sameQueues
  refine ⟨_, l, hd, _, ?_, rfl, hsame, hbase₃.congr (agree_setCurrent _ none), ?_⟩
  · have hstate : ((k.sendInit c msg msglen reply rplen).td r).state = TaskState.receiveBlocked :=
      (hinit.state r).trans hr
    rw [sendInit] at hadd hrem hstate
    simp only [kSendHandler, hc, hlook, Option.bind_eq_bind, Option.bind_some, hstate, if_true,
      kSchedAddReplyWait, kSchedRemoveRecvWait, hadd, hrem]
    rfl
  · refine Queues.congr (Queues.mono (h.queues.sent_update (hcfree .send) tid) rfl ?_) hsame
    intro p hp
    left
    exact List.mem_of_mem_erase hp

/-- Sending to a task that does not wait to receive: the sender is queued. -/
theorem kSendHandler_queued (h : Core cq ch sent k q [c]) (hc : k.current = some c)
    (hlook : k.kTaskMgrGetTaskDsp tid = some r) (hr : k.state r ≠ TaskState.receiveBlocked)
    (hroom : (k.queue r).length < userStackArrayCnt) :
  ∃ k' ring l hd q', k.kSendHandler tid msg msglen reply rplen = some k'
    ∧ k' = ((((k.sendInit c msg msglen reply rplen).setRing r ring).setState c
        TaskState.sendBlocked).relink l hd).setCurrent none
    ∧ ring.toList = k.queue r ++ [c] ∧ (∀ x, (k'.td x).tid = (k.td x).tid)
    ∧ (∀ x, k'.ring x = if x = r then ring else k.ring x)
    ∧ Core cq ch (Function.update sent c tid) k' q' []
  := by
  obtain ⟨hrmap, hrtid⟩ := kTaskMgrGetTaskDsp_some hlook
  have hcfree := h.base.lists.not_mem_of_floating (List.mem_singleton.mpr rfl)
  obtain ⟨hwf, hcap⟩ := h.queues.wf r hrmap
  have hinit := k.agree_sendInit c msg msglen reply rplen
  obtain ⟨ring, hadd, hwf', hcap', hlist⟩ := kMboxAddSendQueue_room
    (k := k.sendInit c msg msglen reply rplen) (r := r) (by rwa [hinit.ring r])
    (by rwa [hinit.ring r, hcap, ← RingBuffer.length_toList]) c
  rw [hinit.ring r, hcap] at hcap'
  rw [hinit.sameQueues.queue r] at hlist
  have hbase : Base ch ((k.sendInit c msg msglen reply rplen).setRing r ring) q [c] := by
    have hbase := h.base.congr hinit
    constructor
    · exact hbase.ids.congr (TaskAlloc.Keeps.refl _) rfl rfl (tid_setRing _ r ring)
        (stackAddr_setRing _ r ring)
    · exact hbase.lists.congr rfl rfl rfl rfl fun p _ => state_setRing _ r ring p
    · exact hbase.heap.congr rfl rfl rfl rfl fun p _ => state_setRing _ r ring p
  obtain ⟨l, hd, hwait, hbase₁⟩ := hbase.addWait (b := .send)
    (s := TaskState.sendBlocked) List.not_mem_nil rfl
  have hring : ∀ x, (((((k.sendInit c msg msglen reply rplen).setRing r ring).setState c
      TaskState.sendBlocked).relink l hd).setCurrent none).ring x
        = if x = r then ring else k.ring x := by
    intro x
    refine ((sameQueues_setState _ _ _).ring x).trans ?_
    rw [ring_setRing, hinit.ring]
  have htid : ∀ x, ((((((k.sendInit c msg msglen reply rplen).setRing r ring).setState c
      TaskState.sendBlocked).relink l hd).setCurrent none).td x).tid = (k.td x).tid := by
    intro x
    refine ((sameQueues_setState _ _ _).tid x).trans ?_
    exact (tid_setRing _ r ring x).trans (hinit.tid x)
  refine ⟨_, ring, l, hd, _, ?_, rfl, hlist, htid, hring, hbase₁.congr (agree_setCurrent _ none),
    ?_⟩
  · have hstate : ((k.sendInit c msg msglen reply rplen).td r).state ≠ TaskState.receiveBlocked :=
      fun hstate => hr ((hinit.state r).symm.trans hstate)
    rw [sendInit] at hadd hwait hstate
    simp only [kSendHandler, hc, hlook, Option.bind_eq_bind, Option.bind_some, hstate, if_false,
      kSchedAddSendWait, hadd, hwait]
    rfl
  · apply h.queues.push hrmap _ (hcfree .send) (c := c)
    · rfl
    · rfl
    · exact htid
    · intro x hx
      rw [hring, if_neg hx]
    · rw [hring, if_pos rfl]
      exact ⟨hwf', hcap'⟩
    · rw [Kernel.queue, hring, if_pos rfl]
      exact hlist
    · rfl
    · rfl
    · rw [Function.update_self, hrtid]
    · intro x hx
      exact Function.update_of_ne hx _ _
    · intro hrecv
      have ht := ((h.base.lists.mem_iff .recv r).mp hrecv).2.2
      exact hr (by simpa [Blocked.test] using ht)

/-- Sending to a task whose wait queue is full: the sender is blocked without being
queued. -/
theorem kSendHandler_full (h : Core cq ch sent k q [c]) (hcq : ¬ cq) (hc : k.current = some c)
    (hlook : k.kTaskMgrGetTaskDsp tid = some r) (hr : k.state r ≠ TaskState.receiveBlocked)
    (hfull : userStackArrayCnt ≤ (k.queue r).length) :
  ∃ k' l hd q', k.kSendHandler tid msg msglen reply rplen = some k'
    ∧ k' = ((({ k.sendInit c msg msglen reply rplen with atNull := some c } : Kernel A).setState c
        TaskState.sendBlocked).relink l hd).setCurrent none
    ∧ Core cq ch (Function.update sent c tid) k' q' []
  := by
  obtain ⟨hrmap, -⟩ := kTaskMgrGetTaskDsp_some hlook
  obtain ⟨hwf, hcap⟩ := h.queues.wf r hrmap
  have hinit := k.agree_sendInit c msg msglen reply rplen
  have hadd := kMboxAddSendQueue_full (k := k.sendInit c msg msglen reply rplen) (r := r)
    (by rwa [hinit.ring r, hcap, ← RingBuffer.length_toList]) c
  have hbase : Base ch { k.sendInit c msg msglen reply rplen with atNull := some c } q [c] := by
    have hbase := h.base.congr hinit
    constructor
    · exact hbase.ids.congr (TaskAlloc.Keeps.refl _) rfl rfl (fun _ => rfl) fun _ => rfl
    · exact hbase.lists.congr rfl rfl rfl rfl fun _ _ => rfl
    · exact hbase.heap.congr rfl rfl rfl rfl fun _ _ => rfl
  obtain ⟨l, hd, hwait, hbase₁⟩ := hbase.addWait (b := .send)
    (s := TaskState.sendBlocked) List.not_mem_nil rfl
  refine ⟨_, l, hd, _, ?_, rfl, hbase₁.congr (agree_setCurrent _ none), ?_⟩
  · have hstate : ((k.sendInit c msg msglen reply rplen).td r).state ≠ TaskState.receiveBlocked :=
      fun hstate => hr ((hinit.state r).symm.trans hstate)
    rw [sendInit] at hadd hwait hstate
    simp only [kSendHandler, hc, hlook, Option.bind_eq_bind, Option.bind_some, hstate, if_false,
      kSchedAddSendWait, hadd, hwait]
    rfl
  · apply h.queues.overflow hcq
    · rfl
    · intro x
      exact ((sameQueues_setState _ _ _).ring x).trans (hinit.ring x)
    · intro s hs
      exact List.mem_append_left _ hs
    · rfl

end Send

/-! ### Receiving -/

/-- The mailbox of the receiver is set up, as `k_recv_handler` does. -/
def recvInit (k : Kernel A) (c : TdPtr) (tid msg msglen : ℕ) : Kernel A :=
  k.modifyMailbox c fun m => kMboxRecvInit m msg msglen tid

section Recv

variable [TaskAlloc A] {tid msg msglen : ℕ}

theorem agree_recvInit (k : Kernel A) (c : TdPtr) (tid msg msglen : ℕ) :
  Agree k (k.recvInit c tid msg msglen)
  := k.agree_modifyMailbox c fun _ => rfl

/-- Receiving when nobody waits to send. -/
theorem kRecvHandler_wait (h : Core cq ch sent k q [c]) (hc : k.current = some c)
    (hnil : k.queue c = []) :
  ∃ k' l hd q', k.kRecvHandler tid msg msglen = some k'
    ∧ k' = (((k.recvInit c tid msg msglen).setState c TaskState.receiveBlocked).relink l
        hd).setCurrent none
    ∧ Core cq ch sent k' q' []
  := by
  have hinit := k.agree_recvInit c tid msg msglen
  obtain ⟨l, hd, hadd, hbase⟩ := (h.base.congr hinit).addWait (b := .recv)
    (s := TaskState.receiveBlocked) List.not_mem_nil rfl
  refine ⟨_, l, hd, _, ?_, rfl, hbase.congr (agree_setCurrent _ none), ?_⟩
  · rw [recvInit] at hadd
    simp only [kRecvHandler, hc, kMboxPopSendQueue_nil hnil, Option.bind_eq_bind,
      Option.bind_some, kSchedAddRecvWait, hadd]
    rfl
  · have hsame : SameQueues k ((((k.recvInit c tid msg msglen).setState c
        TaskState.receiveBlocked).relink l hd).setCurrent none) :=
      ((hinit.sameQueues.trans (sameQueues_setState _ _ _)).trans (sameQueues_relink _ _ _)).trans
        (agree_setCurrent _ _).sameQueues
    refine Queues.congr (Queues.mono h.queues rfl ?_) hsame
    intro p hp
    obtain hp | hp := List.mem_append.mp hp
    · exact Or.inl hp
    · right
      rw [List.mem_singleton.mp hp]
      exact hnil

/-- Receiving from the oldest task that waits to send. -/
theorem kRecvHandler_take (h : Core cq ch sent k q [c]) (hc : k.current = some c)
    {s : TdPtr} {rest : List TdPtr} (hqueue : k.queue c = s :: rest)
    (hroom : ch → k.heap.count < kSchedHeapCapacity) :
  ∃ k' ring l hd q', k.kRecvHandler tid msg msglen = some k'
    ∧ k' = (((((((k.setRing c ring).recvInit c tid msg msglen).deliver c s).setState s
        TaskState.replyBlocked).relink l hd).kSchedAddReady c)).setCurrent none
    ∧ ring.toList = rest ∧ s ∈ q .send
    ∧ Core cq ch sent k' q' []
  := by
  have hcmap := h.base.lists.floating c (List.mem_singleton.mpr rfl)
  have hcfree := h.base.lists.not_mem_of_floating (List.mem_singleton.mpr rfl)
  obtain ⟨hwf, hcap⟩ := h.queues.wf c hcmap
  obtain ⟨ring, hpop, hwf', hcap', hlist⟩ := kMboxPopSendQueue_cons hwf hqueue
  have hsend : s ∈ q .send := by
    apply h.queues.send c hcmap
    rw [hqueue]
    exact List.mem_cons_self
  have hsc : s ≠ c := ne_of_mem_of_not_mem hsend (hcfree .send)
  have hinit := (agree_recvInit (k.setRing c ring) c tid msg msglen).trans (agree_deliver _ c s)
  have hbase : Base ch (k.setRing c ring) q [c] := by
    constructor
    · exact h.base.ids.congr (TaskAlloc.Keeps.refl _) rfl rfl (tid_setRing _ c ring)
        (stackAddr_setRing _ c ring)
    · exact h.base.lists.congr rfl rfl rfl rfl fun p _ => state_setRing _ c ring p
    · exact h.base.heap.congr rfl rfl rfl rfl fun p _ => state_setRing _ c ring p
  obtain ⟨l₁, hd₁, hrem, hbase₁⟩ := (hbase.congr hinit).removeWait (b := .send) hsend
  obtain ⟨l, hd, hadd, hbase₂⟩ := hbase₁.addWait (b := .reply) (s := TaskState.replyBlocked)
    (by simpa using hsc) rfl
  have hbase₃ := hbase₂.addReady List.not_mem_nil hroom
  refine ⟨_, ring, l, hd, _, ?_, rfl, hlist, hsend, hbase₃.congr (agree_setCurrent _ none), ?_⟩
  · rw [recvInit] at hrem hadd
    simp only [kRecvHandler, hc, hpop, Option.bind_eq_bind, Option.bind_some,
      kSchedRemoveSendWait, kSchedAddReplyWait, hrem, hadd]
    rfl
  · have hsame : SameQueues (k.setRing c ring) (((((((k.setRing c ring).recvInit c tid msg
        msglen).deliver c s).setState s TaskState.replyBlocked).relink l hd).kSchedAddReady
        c).setCurrent none) :=
      (((hinit.sameQueues.trans (sameQueues_setState _ _ _)).trans (sameQueues_relink _ _ _)).trans
        (sameQueues_kSchedAddReady _ _)).trans (agree_setCurrent _ _).sameQueues
    have hqueues : (k.setRing c ring).Queues cq sent
        (Function.update (Function.update q .send ((q .send).erase s)) .reply
          (q .reply ++ [s])) := by
      apply h.queues.pop (h.base.lists.forest.list .send).nodup hcmap hqueue
      · rfl
      · rfl
      · exact tid_setRing k c ring
      · intro x hx
        rw [ring_setRing, if_neg hx]
      · rw [ring_setRing, if_pos rfl]
        exact ⟨hwf', hcap'.trans hcap⟩
      · rw [Kernel.queue, ring_setRing, if_pos rfl]
        exact hlist
      · rfl
      · rfl
    exact hqueues.congr hsame

end Recv

/-! ### Replying -/

section Reply

variable {tid : ℤ} {reply rplen : ℕ}

theorem kReplyHandler_none (hc : k.current = some c) (hlook : k.kTaskMgrGetTaskDsp tid = none) :
  k.kReplyHandler tid reply rplen = some (k.setRetval c (BitVec.ofInt 64 (-1)))
  := by simp [kReplyHandler, hc, hlook]

theorem kReplyHandler_not (hc : k.current = some c) (hlook : k.kTaskMgrGetTaskDsp tid = some r)
    (hr : k.state r ≠ TaskState.replyBlocked) :
  k.kReplyHandler tid reply rplen = some (k.setRetval c (BitVec.ofInt 64 (-2)))
  := by
  rw [Kernel.state] at hr
  simp [kReplyHandler, hc, hlook, hr]

/-- The return values of both tasks and the copy of the reply of `c` to `r`. -/
def answer (k : Kernel A) (c r : TdPtr) (reply rplen : ℕ) : Kernel A :=
  let copyLen := min rplen (k.td r).mailbox.inBufLen
  let k := k.setRetval r (BitVec.ofNat 64 rplen)
  let k := k.setRetval c (BitVec.ofNat 64 copyLen)
  k.modifyMem r fun m =>
    { m with
      bytes := utilMemcpy m.bytes (k.td r).mailbox.inBuf (k.mem c).bytes reply copyLen }

variable [TaskAlloc A]

theorem agree_answer (k : Kernel A) (c r : TdPtr) (reply rplen : ℕ) :
  Agree k (k.answer c r reply rplen)
  := by
  have hret : Agree k ((k.setRetval r (BitVec.ofNat 64 rplen)).setRetval c
      (BitVec.ofNat 64 (min rplen (k.td r).mailbox.inBufLen))) :=
    (k.agree_setRetval r _).trans (agree_setRetval _ c _)
  rw [answer]
  exact hret.trans (agree_modifyMem _ r _)

/-- Replying to a task that waits for a reply. -/
theorem kReplyHandler_answer (h : Core cq ch sent k q [c]) (hc : k.current = some c)
    (hready : k.state c = TaskState.ready) (hlook : k.kTaskMgrGetTaskDsp tid = some r)
    (hr : k.state r = TaskState.replyBlocked)
    (hroom : ch → k.heap.count < kSchedHeapCapacity) :
  ∃ k' l hd q', k.kReplyHandler tid reply rplen = some k'
    ∧ k' = ((k.answer c r reply rplen).relink l hd).kSchedAddReady r
    ∧ Core cq ch sent k' q' [c]
  := by
  obtain ⟨hrmap, -⟩ := kTaskMgrGetTaskDsp_some hlook
  have hrc : r ≠ c := by
    rintro rfl
    rw [hready] at hr
    cases hr
  have hrc' : r ∉ [c] := by simpa using hrc
  have hmem : r ∈ q .reply := by
    apply h.base.lists.mem_of_test hrmap hrc'
    rw [hr]
    rfl
  have hagree := k.agree_answer c r reply rplen
  obtain ⟨l, hd, hrem, hbase⟩ := (h.base.congr hagree).removeWait (b := .reply) hmem
  refine ⟨_, l, hd, _, ?_, rfl, hbase.addReady hrc' hroom, ?_⟩
  · rw [Kernel.state] at hr
    rw [answer] at hrem
    simp only [kReplyHandler, hc, hlook, Option.bind_eq_bind, Option.bind_some, hr, ne_eq,
      not_true_eq_false, if_false, kSchedRemoveReplyWait, hrem]
    rfl
  · have hsame : SameQueues k (((k.answer c r reply rplen).relink l hd).kSchedAddReady r) :=
      (hagree.sameQueues.trans (sameQueues_relink _ _ _)).trans (sameQueues_kSchedAddReady _ _)
    exact Queues.congr (Queues.mono h.queues rfl fun p hp => Or.inl hp) hsame

end Reply

/-! ### Events, creation and exit -/

section Others

variable [TaskAlloc A]

/-- Waiting for an event. -/
theorem kAwaitEventHandler_spec (h : Core cq ch sent k q [c]) (hc : k.current = some c)
    {intrId : ℕ} (hid : keIntrIdRangeMin ≤ intrId) :
  ∃ k' l hd q', k.kAwaitEventHandler intrId = some k'
    ∧ k' = ((k.setState c intrId).relink l hd).setCurrent none
    ∧ Core cq ch sent k' q' []
  := by
  obtain ⟨l, hd, hadd, hbase⟩ := h.base.addWait (b := .event) (s := intrId) List.not_mem_nil
    (by simpa [Blocked.test] using hid)
  refine ⟨_, l, hd, _, ?_, rfl, hbase.congr (agree_setCurrent _ none), ?_⟩
  · simp only [kAwaitEventHandler, hc, Option.bind_eq_bind, Option.bind_some, kSchedAddEventWait,
      hadd]
  · have hsame : SameQueues k (((k.setState c intrId).relink l hd).setCurrent none) :=
      ((sameQueues_setState _ _ _).trans (sameQueues_relink _ _ _)).trans
        (agree_setCurrent _ _).sameQueues
    exact Queues.congr (Queues.mono h.queues rfl fun p hp => Or.inl hp) hsame

/-- The running task exits. -/
theorem kExitHandler_spec (h : Core cq ch sent k q [c]) (hc : k.current = some c)
    (hsafe : k.StackSafe c) (hnil : cq → k.queue c = []) :
  k.kExitHandler = some ((k.kTmgrDestroyTask c).setCurrent none)
    ∧ Core cq ch sent ((k.kTmgrDestroyTask c).setCurrent none) q []
  := by
  constructor
  · simp [kExitHandler, hc]
  · apply Core.congr _ (agree_setCurrent _ none)
    exact ⟨h.base.destroy List.not_mem_nil hsafe, h.queues.destroy h.base.ids hnil⟩

/-- The descriptor or the stack of a new task cannot be allocated. -/
def AllocFails (k : Kernel A) (sz : ℕ) : Prop :=
  (TaskAlloc.slabAlloc k.alloc).2 = none
    ∨ (TaskAlloc.pgAllocPage (TaskAlloc.slabAlloc k.alloc).1 sz).2 = none

/-- A descriptor for a new task, with its stack. -/
def taken (k : Kernel A) (alloc : A) (p : TdPtr) (stackAddr sz : ℕ) : Kernel A :=
  { (({ k with alloc := alloc, nextTid := k.nextTid + 1 } : Kernel A).modify p fun t =>
      { t with stackAddr := stackAddr, stackSz := 1 <<< sz, tid := k.nextTid }) with
    mapTid := k.mapTid ++ [p] }

/-- No more descriptors are in use than their slab can bear. -/
def TdRoom (k : Kernel A) : Prop :=
  (TaskAlloc.tds k.alloc).card < tdsMax

/-- `k_tmgr_get_free_task` either fails and changes nothing, or it takes a descriptor that was
free and, while there is room for it, a stack that was free. -/
theorem kTmgrGetFreeTask_spec (hids : k.Ids) (sz : ℕ) :
  (k.AllocFails sz ∧ ∃ alloc, k.kTmgrGetFreeTask sz = ({ k with alloc := alloc }, none)
      ∧ TaskAlloc.Keeps k.alloc alloc
      ∧ TaskAlloc.blocks alloc = TaskAlloc.blocks k.alloc)
    ∨ (¬ k.AllocFails sz ∧ ∃ alloc p stackAddr,
      k.kTmgrGetFreeTask sz = (k.taken alloc p stackAddr sz, some p)
      ∧ p ∉ TaskAlloc.tds k.alloc
      ∧ (k.TdRoom → TaskAlloc.Gives k.alloc alloc p stackAddr))
  := by
  rw [AllocFails, kTmgrGetFreeTask]
  generalize hslab : TaskAlloc.slabAlloc k.alloc = r
  obtain ⟨alloc₁, _ | p⟩ := r
  · have hnone := TaskAlloc.slabAlloc_none hids.intact (by rw [hslab])
    rw [hslab] at hnone
    obtain ⟨htds, hblocks, hintact⟩ := hnone
    exact Or.inl ⟨Or.inl rfl, alloc₁, rfl, fun _ => ⟨htds, hblocks.ge, hintact⟩, hblocks⟩
  have hsome : (TaskAlloc.slabAlloc k.alloc).2 = some p := by rw [hslab]
  have hfresh := TaskAlloc.slabAlloc_fresh hids.intact hsome
  dsimp only
  generalize hpage : TaskAlloc.pgAllocPage alloc₁ sz = r
  obtain ⟨alloc₂, _ | stackAddr⟩ := r
  · have hundo := TaskAlloc.slabFree_slabAlloc (n := sz) hids.intact hsome (by rw [hslab, hpage])
    rw [hslab, hpage] at hundo
    obtain ⟨htds, hblocks, hintact⟩ := hundo
    exact Or.inl ⟨Or.inr rfl, TaskAlloc.slabFree alloc₂ p, rfl,
      fun _ => ⟨htds, hblocks.ge, hintact⟩, hblocks⟩
  have hgives : k.TdRoom → TaskAlloc.Gives k.alloc alloc₂ p stackAddr := by
    intro hroom
    obtain ⟨htds, hblocks, hintact⟩ := TaskAlloc.slabAlloc_some hids.intact hroom hsome
    rw [hslab] at htds hblocks hintact
    have hpage' := TaskAlloc.pgAllocPage_some (n := sz) (x := stackAddr) hintact (by rw [hpage])
    rw [hpage, htds, hblocks] at hpage'
    obtain ⟨hunused, htds₂, hblocks₂, hintact₂⟩ := hpage'
    exact ⟨hfresh, htds₂, hunused, hblocks₂, hintact₂⟩
  have hnew : p ∉ k.mapTid := fun hp => hfresh (hids.tds p hp)
  -- the identifiers in use are smaller, so that the insertion finds no other task
  have hlook : (({ k with alloc := alloc₂, nextTid := k.nextTid + 1 } : Kernel A).modify p fun t =>
      { t with stackAddr := stackAddr, stackSz := 1 <<< sz, tid := k.nextTid }).kTaskMgrGetTaskDsp
        k.nextTid = none := by
    rw [kTaskMgrGetTaskDsp, List.find?_eq_none]
    intro x hx
    rw [modify_td, if_neg (ne_of_mem_of_not_mem hx hnew), decide_eq_true_eq]
    exact (hids.tid_lt x hx).ne
  refine Or.inr ⟨by simp, alloc₂, p, stackAddr, ?_, hfresh, hgives⟩
  dsimp only
  rw [hlook]
  rfl

omit [TaskAlloc A] in
theorem tid_kTdInitUserTask (p : TdPtr) (parent : Option TdPtr) (priority userFuncAddr : ℕ)
    (src : ℕ → UInt8) (args argsLen : ℕ) (x : TdPtr) :
  ((k.kTdInitUserTask p parent priority userFuncAddr src args argsLen).td x).tid = (k.td x).tid
  := by
  unfold kTdInitUserTask
  apply tid_modify
  rfl

omit [TaskAlloc A] in
theorem stackAddr_kTdInitUserTask (p : TdPtr) (parent : Option TdPtr)
    (priority userFuncAddr : ℕ) (src : ℕ → UInt8) (args argsLen : ℕ) (x : TdPtr) :
  ((k.kTdInitUserTask p parent priority userFuncAddr src args argsLen).td x).stackAddr
    = (k.td x).stackAddr
  := by
  unfold kTdInitUserTask
  apply stackAddr_modify
  rfl

/-- A task whose descriptor is taken and initialised is born. -/
theorem born_initUserTask {alloc : A} {p : TdPtr} {stackAddr : ℕ} (sz : ℕ)
    (hgives : TaskAlloc.Gives k.alloc alloc p stackAddr) (parent : Option TdPtr)
    (priority userFuncAddr : ℕ) (src : ℕ → UInt8) (args argsLen : ℕ) :
  Born k ((k.taken alloc p stackAddr sz).kTdInitUserTask p parent priority userFuncAddr src args
    argsLen) p
  := by
  have htd : ∀ x, x ≠ p → ((k.taken alloc p stackAddr sz).kTdInitUserTask p parent priority
      userFuncAddr src args argsLen).td x = k.td x := by
    intro x hx
    unfold kTdInitUserTask
    rw [modify_td, if_neg hx, modifyMem, taken]
    dsimp only
    rw [modify_td, if_neg hx]
  constructor <;> try rfl
  · unfold kTdInitUserTask
    rw [modify_td, if_pos rfl, modifyMem, taken]
    dsimp only
    rw [modify_td, if_pos rfl]
    exact hgives
  · unfold kTdInitUserTask
    rw [modify_td, if_pos rfl, modifyMem, taken]
    dsimp only
    rw [modify_td, if_pos rfl]
  · unfold kTdInitUserTask
    rw [state_modify, if_pos rfl]
  · unfold kTdInitUserTask
    rw [ring_modify, if_pos rfl]
    rfl
  · exact htd

/-- The kernel after a task was created by the running task `c`. -/
def created (k : Kernel A) (alloc : A) (p : TdPtr) (stackAddr : ℕ) (c : TdPtr) (priority : ℕ)
    (args argsLen : ℕ) : Kernel A :=
  (k.taken alloc p stackAddr pgSft).kTdInitUserTask p (some c) priority k.code.loadElf
    (k.mem c).bytes args argsLen

variable (priority : ℤ) (args argsLen : ℕ)

/-- Creating a task when nothing can be allocated. -/
theorem kCreateHandler_fails (hids : k.Ids) (hc : k.current = some c)
    (hfail : k.AllocFails pgSft) :
  ∃ alloc, k.kCreateHandler priority args argsLen
      = some (({ k with alloc := alloc } : Kernel A).setRetval c (BitVec.ofInt 64 (-2)))
    ∧ TaskAlloc.blocks alloc = TaskAlloc.blocks k.alloc
    ∧ Agree k (({ k with alloc := alloc } : Kernel A).setRetval c (BitVec.ofInt 64 (-2)))
  := by
  obtain ⟨-, alloc, hget, hkeeps, hblocks⟩ | ⟨hnot, -⟩ := kTmgrGetFreeTask_spec hids pgSft
  · refine ⟨alloc, ?_, hblocks, ?_⟩
    · simp [kCreateHandler, hc, hget]
    · exact (k.agree_setAlloc hkeeps).trans (agree_setRetval _ c _)
  · exact absurd hfail hnot

/-- Creating a task with a priority that is not valid: the task stays, uninitialised. -/
theorem kCreateHandler_invalid (hids : k.Ids) (hc : k.current = some c)
    (halloc : ¬ k.AllocFails pgSft) (hprio : kSchedPriorityIsValid priority = false) :
  ∃ alloc p stackAddr, k.kCreateHandler priority args argsLen
      = some ((k.taken alloc p stackAddr pgSft).setRetval c (BitVec.ofInt 64 (-1)))
    ∧ (k.TdRoom → TaskAlloc.Gives k.alloc alloc p stackAddr)
  := by
  obtain ⟨hfail, -⟩ | ⟨-, alloc, p, stackAddr, hget, -, hspec⟩ := kTmgrGetFreeTask_spec hids pgSft
  · exact absurd hfail halloc
  · refine ⟨alloc, p, stackAddr, ?_, hspec⟩
    simp [kCreateHandler, hc, hget, hprio]

/-- Creating a task with the descriptor and the stack that were taken. -/
theorem kCreateHandler_taken {alloc : A} {p : TdPtr} {stackAddr : ℕ} (hc : k.current = some c)
    (hprio : kSchedPriorityIsValid priority = true)
    (hget : k.kTmgrGetFreeTask pgSft = (k.taken alloc p stackAddr pgSft, some p)) :
  k.kCreateHandler priority args argsLen
    = some (((k.created alloc p stackAddr c priority.toNat args argsLen).kSchedAddReady
        p).setRetval c (BitVec.ofInt 64 k.nextTid))
  := by
  have htaken : ((k.taken alloc p stackAddr pgSft).td p).tid = k.nextTid := by
    rw [taken]
    dsimp only
    rw [modify_td, if_pos rfl]
  have htid := (tid_kSchedAddReady (k.created alloc p stackAddr c priority.toNat args argsLen) p
    p).trans ((tid_kTdInitUserTask p _ _ _ _ _ _ p).trans htaken)
  rw [← htid]
  simp only [kCreateHandler, hc, hget, hprio, Option.bind_eq_bind, Option.bind_some,
    Bool.not_true, Bool.false_eq_true, if_false]
  rfl

/-- Creating a task. -/
theorem kCreateHandler_created (hids : k.Ids) (hc : k.current = some c)
    (halloc : ¬ k.AllocFails pgSft) (hroom : k.TdRoom)
    (hprio : kSchedPriorityIsValid priority = true) :
  ∃ alloc p stackAddr, k.kCreateHandler priority args argsLen
      = some (((k.created alloc p stackAddr c priority.toNat args argsLen).kSchedAddReady
          p).setRetval c (BitVec.ofInt 64 k.nextTid))
    ∧ Born k (k.created alloc p stackAddr c priority.toNat args argsLen) p
  := by
  obtain ⟨hfail, -⟩ | ⟨-, alloc, p, stackAddr, hget, -, hgives⟩ := kTmgrGetFreeTask_spec hids pgSft
  · exact absurd hfail halloc
  · have hborn := born_initUserTask pgSft (hgives hroom) (some c)
      priority.toNat k.code.loadElf (k.mem c).bytes args argsLen
    exact ⟨alloc, p, stackAddr, kCreateHandler_taken priority args argsLen hc hprio hget, hborn⟩

/-- A task that is born floats until it is made ready. -/
theorem Core.born {k' : Kernel A} {p : TdPtr} (h : Core cq ch sent k q F) (hb : Born k k' p) :
  Core cq ch sent k' q (p :: F)
  := ⟨h.base.born hb, h.queues.born h.base hb⟩

/-- A floating task is made ready. -/
theorem Core.addReady {p : TdPtr} (h : Core cq ch sent k q (p :: F)) (hp : p ∉ F)
    (hroom : ch → k.heap.count < kSchedHeapCapacity) :
  Core cq ch sent (k.kSchedAddReady p) q F
  := ⟨h.base.addReady hp hroom, h.queues.congr (sameQueues_kSchedAddReady k p)⟩

/-- A task whose descriptor was not in use is not alive. -/
theorem Born.not_mem {k' : Kernel A} {p : TdPtr} (hb : Born k k' p) (hids : k.Ids) :
  p ∉ k.mapTid
  := fun hp => hb.alloc.fresh (hids.tds p hp)

omit [TaskAlloc A] in
/-- `ke_my_tid`. -/
theorem kMyTidHandler_spec (hc : k.current = some c) :
  k.kMyTidHandler = some (k.setRetval c (BitVec.ofInt 64 (k.td c).tid))
  := by simp [kMyTidHandler, hc]

/-- `ke_my_parent_tid` changes the tasks in no way that matters. -/
theorem kMyParentTidHandler_spec (hc : k.current = some c) :
  ∃ v w, k.kMyParentTidHandler
      = some ((k.modify c fun t => { t with parentTid := v }).setRetval c w)
    ∧ Agree k ((k.modify c fun t => { t with parentTid := v }).setRetval c w)
  := by
  have hagree : ∀ v w, Agree k ((k.modify c fun t => { t with parentTid := v }).setRetval c w) :=
    fun v w => (k.agree_modify c rfl rfl rfl rfl).trans (agree_setRetval _ c w)
  simp only [kMyParentTidHandler, hc, Option.bind_eq_bind, Option.bind_some]
  exact ⟨_, _, rfl, hagree _ _⟩

/-- The block of pages, or `NULL`, is stored in the memory of the task that calls `ke_mmap`. -/
theorem kMmapHandler_spec (hc : k.current = some c) (target memSz : ℕ) :
  ∃ alloc f, k.kMmapHandler target memSz
      = some ((({ k with alloc := alloc } : Kernel A).modifyMem c f).setRetval c 0)
    ∧ Agree k ((({ k with alloc := alloc } : Kernel A).modifyMem c f).setRetval c 0)
  := by
  have hagree : ∀ f, Agree k ((({ k with
      alloc := (TaskAlloc.pgAllocPage k.alloc (msbPos64 (nextPow2 memSz))).1 } : Kernel A).modifyMem
        c f).setRetval c 0) := by
    intro f
    apply Agree.trans _ (agree_setRetval _ c _)
    apply Agree.trans _ (agree_modifyMem _ c _)
    exact k.agree_setAlloc (TaskAlloc.keeps_pgAllocPage _ _)
  refine ⟨_, fun m => { m with
    ptrs := Function.update m.ptrs target
      ((TaskAlloc.pgAllocPage k.alloc (msbPos64 (nextPow2 memSz))).2.getD 0) }, ?_, hagree _⟩
  simp only [kMmapHandler, hc, Option.bind_eq_bind, Option.bind_some]

end Others

end Kernel

end TrainsOs
