import TrainsOs.Kernel.Keys

/-!
# What an action does to a task

A task that an action does not free is spared, unless it is running. What the others
come to is said here: a blocked task that is freed, and the running task in its own calls.
-/

namespace TrainsOs

namespace Kernel

variable {A : Type} [TaskAlloc A] {k k' : Kernel A} {p c : TdPtr} {sent : TdPtr → ℤ}
  {q : Blocked → List TdPtr}

/-! ### The running task -/

/-- What has become of the running task `c` when its call returns or blocks it: the current
task, its state, and that it is alive. -/
structure Ends (k' : Kernel A) (c : TdPtr) (current : Option TdPtr) (state : ℕ) : Prop where
  current : k'.current = current
  state : k'.state c = state
  alive : c ∈ k'.mapTid

/-- The wait queues of the tasks that were alive have not grown, but for the one that the
running task `c` is put into when it sends, and those of new tasks are empty. Only the
running task may be gone. -/
structure Joins (k k' : Kernel A) (c : TdPtr) (call : Call) : Prop where
  idleTask : k'.idleTask = k.idleTask
  alive : ∀ p ∈ k.mapTid, (p = c → call ≠ .exit) → p ∈ k'.mapTid
  members : ∀ p ∈ k'.mapTid, ∀ s ∈ k'.queue p, (p ∈ k.mapTid ∧ s ∈ k.queue p)
    ∨ (s = c ∧ ∃ tid msg msglen reply rplen, call = .send tid msg msglen reply rplen
      ∧ k.kTaskMgrGetTaskDsp tid = some p)

omit [TaskAlloc A] in
theorem SameQueues.joins (h : SameQueues k k') (hidle : k'.idleTask = k.idleTask) (c : TdPtr)
    (call : Call) :
  Joins k k' c call
  := by
  use hidle, fun p hp _ => h.mapTid.symm ▸ hp
  intro p hp s hs
  rw [h.mapTid] at hp
  rw [h.queue] at hs
  exact Or.inl ⟨hp, hs⟩

section Handle

variable (h : Core False False sent k q [c]) (hc : k.current = some c)
  (hready : k.state c = TaskState.ready)

include h hc

omit hc in
theorem mem_mapTid_running :
  c ∈ k.mapTid
  := h.base.lists.floating c (List.mem_singleton_self c)

omit h hc in
/-- The tasks are the same after a message has been passed on. -/
theorem mapTid_delivered (k : Kernel A) (p r s x : TdPtr) (state : ℕ) (l : DList.Links TdPtr)
    (hd : Blocked → Option TdPtr) :
  (((((k.deliver r s).setState p state).relink l hd).kSchedAddReady x).setCurrent none).mapTid
    = k.mapTid
  := (kSchedAddReady_mapTid _ x).trans (k.agree_deliver r s).mapTid

/-- The receiver waits when nobody is in its wait queue. -/
theorem recv_ends {tid msg msglen : ℕ} (hk' : k.kRecvHandler tid msg msglen = some k') :
  (k.queue c = [] ∧ Ends k' c none TaskState.receiveBlocked)
    ∨ (k.queue c ≠ [] ∧ Ends k' c none TaskState.ready)
  := by
  have hmap := mem_mapTid_running h
  cases hqueue : k.queue c with
  | nil =>
    obtain ⟨k'', l, hd, q', heq, rfl, -⟩ := kRecvHandler_wait h hc hqueue
    rw [← Option.some.inj (heq.symm.trans hk')]
    left
    refine ⟨rfl, rfl, ?_, hmap⟩
    exact (state_setState _ c _ c).trans (if_pos rfl)
  | cons s rest =>
    obtain ⟨k'', ring, l, hd, q', heq, rfl, -⟩ := kRecvHandler_take h hc hqueue False.elim
    rw [← Option.some.inj (heq.symm.trans hk')]
    right
    refine ⟨List.cons_ne_nil s rest, rfl, ?_, ?_⟩
    · exact (state_kSchedAddReady _ c c).trans (if_pos rfl)
    · rw [mapTid_delivered]
      exact hmap

theorem await_ends {intrId : ℕ} (hid : keIntrIdRangeMin ≤ intrId)
    (hk' : k.kAwaitEventHandler intrId = some k') :
  Ends k' c none intrId
  := by
  have hmap := mem_mapTid_running h
  obtain ⟨k'', l, hd, q', heq, rfl, -⟩ := kAwaitEventHandler_spec h hc hid
  rw [← Option.some.inj (heq.symm.trans hk')]
  exact ⟨rfl, (state_setState k c _ c).trans (if_pos rfl), hmap⟩

include hready

/-- The sender gets an error and goes on, or it waits for its message to be received or to
be replied to. -/
theorem send_ends {tid : ℤ} {msg msglen reply rplen : ℕ}
    (hk' : k.kSendHandler tid msg msglen reply rplen = some k') :
  (k.kTaskMgrGetTaskDsp tid = none ∧ Ends k' c (some c) TaskState.ready)
    ∨ ∃ r, k.kTaskMgrGetTaskDsp tid = some r
      ∧ ((k.state r ≠ TaskState.receiveBlocked ∧ Ends k' c none TaskState.sendBlocked)
        ∨ (k.state r = TaskState.receiveBlocked ∧ Ends k' c none TaskState.replyBlocked))
  := by
  have hmap := mem_mapTid_running h
  cases hlook : k.kTaskMgrGetTaskDsp tid with
  | none =>
    rw [← Option.some.inj ((kSendHandler_none hc hlook).symm.trans hk')]
    left
    exact ⟨rfl, hc, ((k.agree_setRetval c _).state c).trans hready, hmap⟩
  | some r =>
    right
    refine ⟨r, rfl, ?_⟩
    by_cases hr : k.state r = TaskState.receiveBlocked
    · obtain ⟨k'', l, hd, q', heq, rfl, -⟩ := kSendHandler_direct h hc hready hlook hr False.elim
      rw [← Option.some.inj (heq.symm.trans hk')]
      have hcr : c ≠ r := by
        rintro rfl
        rw [hready] at hr
        cases hr
      right
      refine ⟨hr, rfl, ?_, ?_⟩
      · apply (state_kSchedAddReady _ r c).trans
        exact (if_neg hcr).trans ((state_setState _ c _ c).trans (if_pos rfl))
      · rw [mapTid_delivered]
        exact hmap
    · left
      by_cases hlen : (k.queue r).length < userStackArrayCnt
      · obtain ⟨k'', ring, l, hd, q', heq, rfl, -⟩ := kSendHandler_queued h hc hlook hr hlen
        rw [← Option.some.inj (heq.symm.trans hk')]
        exact ⟨hr, rfl, (state_setState _ c _ c).trans (if_pos rfl), hmap⟩
      · obtain ⟨k'', l, hd, q', heq, rfl, -⟩ := kSendHandler_full h not_false hc hlook hr
          (not_lt.mp hlen)
        rw [← Option.some.inj (heq.symm.trans hk')]
        exact ⟨hr, rfl, (state_setState _ c _ c).trans (if_pos rfl), hmap⟩

theorem reply_ends {tid : ℤ} {reply rplen : ℕ}
    (hk' : k.kReplyHandler tid reply rplen = some k') :
  Ends k' c (some c) TaskState.ready
  := by
  have hmap := mem_mapTid_running h
  have herror : ∀ v, Ends (k.setRetval c v) c (some c) TaskState.ready :=
    fun v => ⟨hc, ((k.agree_setRetval c v).state c).trans hready, hmap⟩
  cases hlook : k.kTaskMgrGetTaskDsp tid with
  | none =>
    rw [← Option.some.inj ((kReplyHandler_none hc hlook).symm.trans hk')]
    exact herror _
  | some r =>
    by_cases hr : k.state r = TaskState.replyBlocked
    · obtain ⟨k'', l, hd, q', heq, rfl, -⟩ := kReplyHandler_answer h hc hready hlook hr False.elim
      have hcr : c ≠ r := by
        rintro rfl
        rw [hready] at hr
        cases hr
      rw [← Option.some.inj (heq.symm.trans hk')]
      constructor
      · rw [kSchedAddReady_current]
        exact hc
      · apply (state_kSchedAddReady _ r c).trans
        exact (if_neg hcr).trans (((k.agree_answer c r reply rplen).state c).trans hready)
      · rw [kSchedAddReady_mapTid]
        exact hmap
    · rw [← Option.some.inj ((kReplyHandler_not hc hlook hr).symm.trans hk')]
      exact herror _

omit [TaskAlloc A] h hready in
/-- A reply fails unless it goes to a task that waits for one. -/
theorem reply_fails {tid : ℤ} {reply rplen : ℕ} (hk' : k.kReplyHandler tid reply rplen = some k')
    (hnot : ∀ r, k.kTaskMgrGetTaskDsp tid = some r → k.state r ≠ TaskState.replyBlocked) :
  (k'.td c).syscallRetval = BitVec.ofInt 64 (-1) ∨ (k'.td c).syscallRetval = BitVec.ofInt 64 (-2)
  := by
  cases hlook : k.kTaskMgrGetTaskDsp tid with
  | none =>
    rw [← Option.some.inj ((kReplyHandler_none hc hlook).symm.trans hk')]
    exact Or.inl (k.retval_setRetval c _)
  | some r =>
    rw [← Option.some.inj ((kReplyHandler_not hc hlook (hnot r hlook)).symm.trans hk')]
    exact Or.inr (k.retval_setRetval c _)

/-- After a call the current task is the one that made it, or none. -/
theorem current_handle {ctx : Ctx} {call : Call} (hevent : EventOk (.syscall ctx call))
    (halloc : k.AllocOk (.syscall ctx call)) (hk' : k.handle call = some k') :
  k'.current = some c ∨ k'.current = none
  := by
  cases call with
  | exit =>
    rw [handle, (kExitHandler_spec h hc (halloc c hc) False.elim).1] at hk'
    rw [← Option.some.inj hk']
    exact Or.inr rfl
  | yield =>
    rw [← Option.some.inj hk']
    exact Or.inl hc
  | create priority args argsLen =>
    left
    obtain ⟨alloc, heq, -⟩ | ⟨alloc, x, stackAddr, -, heq, -⟩ :=
      kCreateHandler_cases args h.base.ids hc halloc
    · rw [← Option.some.inj (heq.symm.trans hk')]
      exact hc
    · rw [← Option.some.inj (heq.symm.trans hk')]
      exact (kSchedAddReady_current _ x).trans hc
  | myTid =>
    rw [← Option.some.inj ((kMyTidHandler_spec hc).symm.trans hk')]
    exact Or.inl hc
  | myParentTid =>
    obtain ⟨v, w, heq, -⟩ := kMyParentTidHandler_spec hc
    rw [← Option.some.inj (heq.symm.trans hk')]
    exact Or.inl hc
  | send tid msg msglen reply rplen =>
    obtain ⟨-, hends⟩ | ⟨r, -, ⟨-, hends⟩ | ⟨-, hends⟩⟩ := send_ends h hc hready hk'
    · exact Or.inl hends.current
    · exact Or.inr hends.current
    · exact Or.inr hends.current
  | recv tid msg msglen =>
    obtain ⟨-, hends⟩ | ⟨-, hends⟩ := recv_ends h hc hk'
    · exact Or.inr hends.current
    · exact Or.inr hends.current
  | reply tid reply rplen => exact Or.inl (reply_ends h hc hready hk').current
  | awaitEvent intrId => exact Or.inr (await_ends h hc hevent hk').current
  | mmap target memSz =>
    obtain ⟨alloc, f, heq, -⟩ := kMmapHandler_spec hc target memSz
    rw [← Option.some.inj (heq.symm.trans hk')]
    exact Or.inl hc
  | other retval =>
    rw [handle, hc] at hk'
    rw [← Option.some.inj hk']
    exact Or.inl hc

/-! ### The wait queues -/

omit hready in
theorem recv_joins {tid msg msglen : ℕ} (hk' : k.kRecvHandler tid msg msglen = some k') :
  Joins k k' c (.recv tid msg msglen)
  := by
  cases hqueue : k.queue c with
  | nil =>
    obtain ⟨k'', l, hd, q', heq, rfl, -⟩ := kRecvHandler_wait h hc hqueue
    rw [← Option.some.inj (heq.symm.trans hk')]
    have hinit := (k.agree_recvInit c tid msg msglen).sameQueues
    exact (((hinit.trans (sameQueues_setState _ c _)).trans (sameQueues_relink _ l hd)).trans
      (agree_setCurrent _ none).sameQueues).joins rfl c _
  | cons s rest =>
    obtain ⟨k'', ring, l, hd, q', heq, rfl, hlist, -⟩ := kRecvHandler_take h hc hqueue False.elim
    rw [← Option.some.inj (heq.symm.trans hk')]
    have hsame : SameQueues (k.setRing c ring)
        (((((((k.setRing c ring).recvInit c tid msg msglen).deliver c s).setState s
          TaskState.replyBlocked).relink l hd).kSchedAddReady c).setCurrent none) :=
      ((((((agree_recvInit _ c tid msg msglen).trans (agree_deliver _ c s)).sameQueues.trans
        (sameQueues_setState _ s _)).trans (sameQueues_relink _ l hd)).trans
        (sameQueues_kSchedAddReady _ c)).trans (agree_setCurrent _ none).sameQueues)
    refine ⟨kSchedAddReady_idleTask _ c, ?_, ?_⟩
    · intro p hp _
      rw [hsame.mapTid]
      exact hp
    intro p hp x hx
    rw [hsame.mapTid] at hp
    rw [hsame.queue, queue, ring_setRing] at hx
    left
    refine ⟨hp, ?_⟩
    split_ifs at hx with hpc
    · rw [hlist] at hx
      rw [hpc, hqueue]
      exact List.mem_cons_of_mem s hx
    · exact hx

theorem send_joins {tid : ℤ} {msg msglen reply rplen : ℕ}
    (hk' : k.kSendHandler tid msg msglen reply rplen = some k') :
  Joins k k' c (.send tid msg msglen reply rplen)
  := by
  cases hlook : k.kTaskMgrGetTaskDsp tid with
  | none =>
    rw [← Option.some.inj ((kSendHandler_none hc hlook).symm.trans hk')]
    exact (k.agree_setRetval c _).sameQueues.joins rfl c _
  | some r =>
    by_cases hr : k.state r = TaskState.receiveBlocked
    · obtain ⟨k'', l, hd, q', heq, rfl, hsame, -⟩ :=
        kSendHandler_direct h hc hready hlook hr False.elim
      rw [← Option.some.inj (heq.symm.trans hk')]
      exact hsame.joins (kSchedAddReady_idleTask _ r) c _
    · by_cases hlen : (k.queue r).length < userStackArrayCnt
      · obtain ⟨k'', ring, l, hd, q', heq, hk'', hlist, -, hring, -⟩ :=
          kSendHandler_queued h hc hlook hr hlen
        rw [← Option.some.inj (heq.symm.trans hk')]
        have hmap : k''.mapTid = k.mapTid := by
          rw [hk'']
          rfl
        use (by rw [hk'']; rfl), fun p hp _ => hmap.symm ▸ hp
        intro p hp x hx
        rw [queue, hring] at hx
        rw [hmap] at hp
        split_ifs at hx with hpr
        · rw [hlist, List.mem_append, List.mem_singleton] at hx
          subst hpr
          rcases hx with hx | hx
          · exact Or.inl ⟨hp, hx⟩
          · exact Or.inr ⟨hx, tid, msg, msglen, reply, rplen, rfl, hlook⟩
        · exact Or.inl ⟨hp, hx⟩
      · obtain ⟨k'', l, hd, q', heq, rfl, -⟩ :=
          kSendHandler_full h not_false hc hlook hr (not_lt.mp hlen)
        rw [← Option.some.inj (heq.symm.trans hk')]
        have hinit := k.agree_sendInit c msg msglen reply rplen
        use rfl, fun p hp _ => hp
        intro p hp x hx
        have hring := ((({ k.sendInit c msg msglen reply rplen with
          atNull := some c } : Kernel A).sameQueues_setState c TaskState.sendBlocked).trans
            (sameQueues_relink _ l hd)).trans (agree_setCurrent _ none).sameQueues
        rw [hring.queue] at hx
        exact Or.inl ⟨hp, hinit.sameQueues.queue p ▸ hx⟩

theorem handle_joins {ctx : Ctx} {call : Call} (hevent : EventOk (.syscall ctx call))
    (halloc : k.AllocOk (.syscall ctx call)) (hk' : k.handle call = some k') :
  Joins k k' c call
  := by
  cases call with
  | exit =>
    rw [handle, (kExitHandler_spec h hc (halloc c hc) False.elim).1] at hk'
    rw [← Option.some.inj hk']
    use rfl, fun p hp hne => (List.mem_erase_of_ne fun hpc => hne hpc rfl).mpr hp
    intro p hp s hs
    exact Or.inl ⟨List.mem_of_mem_erase hp, hs⟩
  | yield =>
    rw [← Option.some.inj hk']
    exact ⟨rfl, fun p hp _ => hp, fun p hp s hs => Or.inl ⟨hp, hs⟩⟩
  | create priority args argsLen =>
    obtain ⟨alloc, heq, hagree⟩ | ⟨alloc, x, stackAddr, -, heq, hborn⟩ :=
      kCreateHandler_cases args h.base.ids hc halloc
    · rw [← Option.some.inj (heq.symm.trans hk')]
      exact hagree.sameQueues.joins rfl c _
    · rw [← Option.some.inj (heq.symm.trans hk')]
      have hsame := (sameQueues_kSchedAddReady
        (k.created alloc x stackAddr c priority.toNat args argsLen) x).trans
          (agree_setRetval _ c (BitVec.ofInt 64 k.nextTid)).sameQueues
      have halive : ∀ p ∈ k.mapTid, p ∈ k.mapTid ++ [x] := fun p hp => List.mem_append_left _ hp
      use (kSchedAddReady_idleTask _ x).trans hborn.idleTask,
        fun p hp _ => hsame.mapTid.symm ▸ hborn.mapTid.symm ▸ halive p hp
      intro p hp s hs
      rw [hsame.mapTid, hborn.mapTid, List.mem_append, List.mem_singleton] at hp
      rw [hsame.queue, queue] at hs
      by_cases hpx : p = x
      · subst hpx
        rw [hborn.ring, RingBuffer.toList_init] at hs
        cases hs
      · rw [ring, hborn.td p hpx] at hs
        exact Or.inl ⟨hp.resolve_right hpx, hs⟩
  | myTid =>
    rw [← Option.some.inj ((kMyTidHandler_spec hc).symm.trans hk')]
    exact (k.agree_setRetval c _).sameQueues.joins rfl c _
  | myParentTid =>
    obtain ⟨v, w, heq, hagree⟩ := kMyParentTidHandler_spec hc
    rw [← Option.some.inj (heq.symm.trans hk')]
    exact hagree.sameQueues.joins rfl c _
  | send tid msg msglen reply rplen => exact send_joins h hc hready hk'
  | recv tid msg msglen => exact recv_joins h hc hk'
  | reply tid reply rplen =>
    cases hlook : k.kTaskMgrGetTaskDsp tid with
    | none =>
      rw [← Option.some.inj ((kReplyHandler_none hc hlook).symm.trans hk')]
      exact (k.agree_setRetval c _).sameQueues.joins rfl c _
    | some r =>
      by_cases hr : k.state r = TaskState.replyBlocked
      · obtain ⟨k'', l, hd, q', heq, rfl, -⟩ :=
          kReplyHandler_answer h hc hready hlook hr False.elim
        rw [← Option.some.inj (heq.symm.trans hk')]
        exact (((k.agree_answer c r reply rplen).sameQueues.trans (sameQueues_relink _ l hd)).trans
          (sameQueues_kSchedAddReady _ r)).joins (kSchedAddReady_idleTask _ r) c _
      · rw [← Option.some.inj ((kReplyHandler_not hc hlook hr).symm.trans hk')]
        exact (k.agree_setRetval c _).sameQueues.joins rfl c _
  | awaitEvent intrId =>
    obtain ⟨k'', l, hd, q', heq, rfl, -⟩ := kAwaitEventHandler_spec h hc hevent
    rw [← Option.some.inj (heq.symm.trans hk')]
    exact (((k.sameQueues_setState c intrId).trans (sameQueues_relink _ l hd)).trans
      (agree_setCurrent _ none).sameQueues).joins rfl c _
  | mmap target memSz =>
    obtain ⟨alloc, f, heq, hagree⟩ := kMmapHandler_spec hc target memSz
    rw [← Option.some.inj (heq.symm.trans hk')]
    exact hagree.sameQueues.joins rfl c _
  | other retval =>
    rw [handle, hc] at hk'
    rw [← Option.some.inj hk']
    exact (k.agree_setRetval c retval).sameQueues.joins rfl c _

/-! ### A blocked task -/

/-- The state of a task that has been freed. -/
def freedState : Act → ℕ
  | .syscall _ (.recv _ _ _) => TaskState.replyBlocked
  | _ => TaskState.ready

theorem freed_handle (hmap : p ∈ k.mapTid) {ctx : Ctx} {call : Call}
    (hfree : k.Frees p (.syscall ctx call)) (hk' : k.handle call = some k') :
  k'.state p = freedState (.syscall ctx call) ∧ p ∈ k'.mapTid
  := by
  have hlook : ∀ {tid}, (k.td p).tid = tid → k.kTaskMgrGetTaskDsp tid = some p := by
    rintro tid rfl
    exact h.base.ids.kTaskMgrGetTaskDsp_eq hmap
  cases call <;> try exact hfree.elim
  case send tid msg msglen reply rplen =>
    obtain ⟨hstate, htid⟩ := hfree
    obtain ⟨k'', l, hd, q', heq, rfl, -⟩ :=
      kSendHandler_direct h hc hready (hlook htid) hstate False.elim
    rw [← Option.some.inj (heq.symm.trans hk')]
    constructor
    · exact (state_kSchedAddReady _ p p).trans (if_pos rfl)
    · rw [mapTid_delivered]
      exact hmap
  case recv tid msg msglen =>
    obtain ⟨hstate, c', hc', hhead⟩ := hfree
    obtain rfl := Option.some.inj (hc.symm.trans hc')
    have hpc : p ≠ c := by
      rintro rfl
      rw [hready] at hstate
      cases hstate
    cases hqueue : k.queue c with
    | nil =>
      rw [hqueue] at hhead
      cases hhead
    | cons s rest =>
      rw [hqueue] at hhead
      obtain rfl := Option.some.inj hhead
      obtain ⟨k'', ring, l, hd, q', heq, rfl, -⟩ := kRecvHandler_take h hc hqueue False.elim
      rw [← Option.some.inj (heq.symm.trans hk')]
      constructor
      · apply (state_kSchedAddReady _ c s).trans
        exact (if_neg hpc).trans ((state_setState _ s _ s).trans (if_pos rfl))
      · rw [mapTid_delivered]
        exact hmap
  case reply tid reply rplen =>
    obtain ⟨hstate, htid⟩ := hfree
    obtain ⟨k'', l, hd, q', heq, rfl, -⟩ :=
      kReplyHandler_answer h hc hready (hlook htid) hstate False.elim
    rw [← Option.some.inj (heq.symm.trans hk')]
    constructor
    · exact (state_kSchedAddReady _ p p).trans (if_pos rfl)
    · rw [kSchedAddReady_mapTid]
      exact hmap

end Handle

/-! ### Steps -/

/-- A system call of the running task: the handler runs when its registers are saved. -/
theorem Inv.calls (h : Inv False False sent k) {ctx : Ctx} {call : Call}
    (hok : k.LinkOk (.syscall ctx call)) (hk' : k.step (.syscall ctx call) = some k') :
  ∃ c k₁ k₂ q, k.current = some c ∧ c ≠ k.idleTask ∧ k₁ = k.storeTd c ctx (esrSvc call.number)
    ∧ Core False False sent k₁ q [c] ∧ k₁.current = some c ∧ k₁.state c = TaskState.ready
    ∧ Agree k k₁ ∧ k₁.AllocOk (.syscall ctx call)
    ∧ k₁.handle call = some k₂ ∧ k' = k₂.setPoint .bottom
  := by
  obtain ⟨c, q, hc, hidle, hcore, hready, -⟩ := h.trapped hok.enabled
  obtain ⟨c', hc', hk'⟩ := Option.bind_eq_some_iff.mp hk'
  obtain rfl := Option.some.inj (hc.symm.trans hc')
  obtain ⟨k₂, hk₂, hk'⟩ := Option.bind_eq_some_iff.mp hk'
  refine ⟨c, _, k₂, q, hc, hidle, rfl, hcore, hc, hready, k.agree_storeTd c ctx _, ?_, hk₂,
    (Option.some.inj hk').symm⟩
  exact (hok.ok.storeTd c ctx (esrSvc call.number)).alloc

/-- A reply to a task that does not wait for one fails. -/
theorem reply_refused (h : Inv False False sent k) {ctx : Ctx} {tid : ℤ} {reply rplen : ℕ}
    (hok : k.LinkOk (.syscall ctx (.reply tid reply rplen)))
    (hk' : k.step (.syscall ctx (.reply tid reply rplen)) = some k') (hc : k.current = some c)
    (hmap : p ∈ k.mapTid) (htid : (k.td p).tid = tid) (hnot : k.state p ≠ TaskState.replyBlocked) :
  (k'.td c).syscallRetval = BitVec.ofInt 64 (-1) ∨ (k'.td c).syscallRetval = BitVec.ofInt 64 (-2)
  := by
  obtain ⟨c', k₁, k₂, q, hc', -, rfl, -, hc₁, -, hagree, -, hk₂, rfl⟩ := h.calls hok hk'
  obtain rfl := Option.some.inj (hc.symm.trans hc')
  apply reply_fails hc₁ hk₂
  intro r hr
  obtain ⟨q', hcore⟩ := h.core
  rw [hagree.sameQueues.lookup, ← htid, hcore.base.ids.kTaskMgrGetTaskDsp_eq hmap] at hr
  rw [← Option.some.inj hr, hagree.state]
  exact hnot

theorem freed_step (h : Inv False False sent k) {a : Act} (hok : k.LinkOk a)
    (hmap : p ∈ k.mapTid) (hfree : k.Frees p a) (hk' : k.step a = some k') :
  k'.state p = freedState a ∧ p ∈ k'.mapTid
  := by
  cases a with
  | schedule => exact hfree.elim
  | write mem => exact hfree.elim
  | requeue => exact hfree.elim
  | syscall ctx call =>
    obtain ⟨c, k₁, k₂, q, -, -, rfl, hcore, hc, hready, hagree, -, hk₂, rfl⟩ := h.calls hok hk'
    apply freed_handle hcore hc hready hmap _ hk₂
    by_contra hnot
    have hback := hagree.sameQueues.queue
    cases call <;> try exact hfree
    · rw [Frees, hagree.state, hagree.tid] at hnot
      exact hnot hfree
    · rw [Frees, hagree.state] at hnot
      simp only [hback] at hnot
      exact hnot hfree
    · rw [Frees, hagree.state, hagree.tid] at hnot
      exact hnot hfree
  | interrupt ctx x0 irqs =>
    obtain ⟨c, k₁, ts, hc, hstep, hwoken, hts, -⟩ := interrupt_spec h hok.enabled ctx x0 irqs
      False.elim
    rw [← Option.some.inj (hstep.symm.trans hk')]
    constructor
    · have hmem := (hts p).mpr (mem_waiting.mpr ⟨hmap, hfree⟩)
      exact (hwoken.state p).trans (if_pos hmem)
    · rw [show (k₁.setPoint .bottom).mapTid = k₁.mapTid from rfl, hwoken.mapTid]
      exact hmap

omit [TaskAlloc A] in
theorem sameQueues_schedule (k : Kernel A) :
  SameQueues k k.schedule ∧ k.schedule.idleTask = k.idleTask
  := by
  rw [schedule]
  obtain ⟨heq, -⟩ | ⟨x, heap, heq, -⟩ := k.kSchedGetNext_eq
  · rw [heq]
    exact ⟨⟨rfl, rfl, fun _ => rfl, fun _ => rfl⟩, rfl⟩
  · rw [heq]
    exact ⟨⟨rfl, rfl, fun _ => rfl, fun _ => rfl⟩, rfl⟩

omit [TaskAlloc A] in
theorem sameQueues_requeue (k : Kernel A) :
  SameQueues k k.requeue ∧ k.requeue.idleTask = k.idleTask
  := by
  have hpoint : ∀ k' : Kernel A, SameQueues k' (k'.setPoint .top) :=
    fun k' => ⟨rfl, rfl, fun _ => rfl, fun _ => rfl⟩
  rw [requeue]
  cases k.current with
  | none => exact ⟨hpoint k, rfl⟩
  | some c =>
    dsimp only
    split_ifs
    · exact ⟨hpoint k, rfl⟩
    · exact ⟨(k.sameQueues_kSchedAddReady c).trans (hpoint _), kSchedAddReady_idleTask k c⟩

/-- Nobody gets into a wait queue but by sending, and nobody is gone but by exiting. -/
structure JoinsStep (k k' : Kernel A) (a : Act) : Prop where
  idleTask : k'.idleTask = k.idleTask
  alive : ∀ p ∈ k.mapTid, (∀ ctx, a = .syscall ctx .exit → k.current ≠ some p) → p ∈ k'.mapTid
  members : ∀ p ∈ k'.mapTid, ∀ s ∈ k'.queue p, (p ∈ k.mapTid ∧ s ∈ k.queue p)
    ∨ ∃ ctx tid msg msglen reply rplen, a = .syscall ctx (.send tid msg msglen reply rplen)
      ∧ k.current = some s ∧ k.kTaskMgrGetTaskDsp tid = some p

omit [TaskAlloc A] in
theorem SameQueues.joinsStep (h : SameQueues k k') (hidle : k'.idleTask = k.idleTask) (a : Act) :
  JoinsStep k k' a
  := by
  use hidle, fun p hp _ => h.mapTid.symm ▸ hp
  intro p hp s hs
  rw [h.mapTid] at hp
  rw [h.queue] at hs
  exact Or.inl ⟨hp, hs⟩

theorem joins_step (h : Inv False False sent k) {a : Act} (hok : k.LinkOk a)
    (hk' : k.step a = some k') :
  JoinsStep k k' a
  := by
  cases a with
  | schedule =>
    rw [← Option.some.inj hk']
    obtain ⟨hqueues, hidle⟩ := k.sameQueues_schedule
    exact hqueues.joinsStep hidle _
  | write mem =>
    obtain ⟨c, -, hk'⟩ := Option.bind_eq_some_iff.mp hk'
    rw [← Option.some.inj hk']
    have hsame : SameQueues k (k.modifyMem c fun _ => mem) :=
      ⟨rfl, rfl, fun _ => rfl, fun _ => rfl⟩
    exact hsame.joinsStep rfl _
  | requeue =>
    rw [← Option.some.inj hk']
    obtain ⟨hqueues, hidle⟩ := k.sameQueues_requeue
    exact hqueues.joinsStep hidle _
  | interrupt ctx x0 irqs =>
    obtain ⟨c, k₁, ts, hc, hstep, hwoken, -⟩ := interrupt_spec h hok.enabled ctx x0 irqs False.elim
    rw [← Option.some.inj (hstep.symm.trans hk')]
    have hagree : Agree k ((k.storeTd c ctx 0).setRetval c x0) :=
      (k.agree_storeTd c ctx 0).trans (agree_setRetval _ c x0)
    use hwoken.idleTask, fun p hp _ => hwoken.mapTid.symm ▸ hp
    intro p hp s hs
    have hring : k₁.ring p = k.ring p :=
      (congrArg Mailbox.senderWaitqueue (hwoken.mailbox p)).trans (hagree.ring p)
    rw [show (k₁.setPoint .bottom).mapTid = k₁.mapTid from rfl, hwoken.mapTid] at hp
    rw [show (k₁.setPoint .bottom).queue p = k₁.queue p from rfl, queue, hring] at hs
    exact Or.inl ⟨hp, hs⟩
  | syscall ctx call =>
    obtain ⟨c, k₁, k₂, q, hcur, -, rfl, hcore, hc, hready, hagree, hcreate, hk₂, rfl⟩ :=
      h.calls hok hk'
    have hjoins := handle_joins hcore hc hready hok.event hcreate hk₂
    use hjoins.idleTask
    · intro p hp hne
      apply hjoins.alive p hp
      rintro rfl rfl
      exact hne ctx rfl hcur
    · intro p hp s hs
      rcases hjoins.members p hp s hs with hold | ⟨rfl, tid, msg, msglen, reply, rplen, rfl, hlook⟩
      · exact Or.inl ⟨hold.1, hagree.sameQueues.queue p ▸ hold.2⟩
      · right
        rw [hagree.sameQueues.lookup] at hlook
        exact ⟨ctx, tid, msg, msglen, reply, rplen, rfl, hcur, hlook⟩

/-- Between two schedulings the current task stays, or there is none any more, and the
only action that does not take the processor from it is its own. -/
theorem current_step (h : Inv False False sent k) {a : Act} (hok : k.LinkOk a)
    (ha : a ≠ .schedule) (hk' : k.step a = some k') :
  k.point ≠ .top ∧ (k'.point = .user → k.point = .user)
    ∧ ∀ p, k'.current = some p → k.current = some p
  := by
  have huser : ∀ {x : Point}, x = .user → x ≠ .top ∧ (k'.point = .user → x = .user) := by
    rintro x rfl
    exact ⟨Point.noConfusion, fun _ => rfl⟩
  rw [← and_assoc]
  cases a with
  | schedule => exact absurd rfl ha
  | write mem =>
    obtain ⟨c, -, hk'⟩ := Option.bind_eq_some_iff.mp hk'
    rw [← Option.some.inj hk'] at huser ⊢
    exact ⟨huser hok.enabled, fun _ => id⟩
  | syscall ctx call =>
    use huser hok.enabled.1
    obtain ⟨c, k₁, k₂, q, hcur, -, -, hcore, hc, hready, -, hcreate, hk₂, rfl⟩ := h.calls hok hk'
    intro p hp
    obtain hsame | hnone := current_handle hcore hc hready hok.event hcreate hk₂
    · rw [hcur, ← hsame]
      exact hp
    · exact absurd (hnone.symm.trans hp) (by simp)
  | interrupt ctx x0 irqs =>
    use huser hok.enabled
    obtain ⟨c, k₁, ts, hc, hstep, hwoken, -⟩ := interrupt_spec h hok.enabled ctx x0 irqs False.elim
    rw [← Option.some.inj (hstep.symm.trans hk')]
    intro p hp
    exact hwoken.current.symm.trans hp
  | requeue =>
    have hpoint : k.point = .bottom := hok.enabled
    rw [← Option.some.inj hk', requeue_point]
    refine ⟨⟨?_, ?_⟩, ?_⟩
    · rw [hpoint]
      exact Point.noConfusion
    · intro hp
      cases hp
    · intro p hp
      rw [requeue] at hp
      cases hc : k.current with
      | none =>
        rw [hc] at hp
        exact hc.symm.trans hp
      | some c =>
        rw [hc] at hp
        dsimp only at hp
        split at hp
        · exact hc.symm.trans hp
        · rw [← hc, ← hp]
          exact (kSchedAddReady_current k c).symm

/-- The `tid` and the priority of a task never change. -/
theorem fixed_step (h : Inv False False sent k) (hs : k.Sorted) {a : Act} (hok : k.LinkOk a)
    (hk' : k.step a = some k') (hmap : p ∈ k.mapTid) :
  (k'.td p).tid = (k.td p).tid ∧ (k'.td p).priority = (k.td p).priority
  := by
  by_cases ha : a = .schedule
  · subst ha
    obtain ⟨q, hcore⟩ := h.core
    obtain ⟨c, hc⟩ := schedule_picks hs hcore.base.heap.nodup
    rw [← Option.some.inj hk', hc.td]
    exact ⟨rfl, rfl⟩
  · obtain ⟨ts, hts, -⟩ := inserts_step h hs hok ha hk'
    exact ⟨hts.tid p (Or.inl hmap), hts.priority p (Or.inl hmap)⟩

/-- A call that sets the return value only changes the state of no task. -/
theorem state_other {ctx : Ctx} {v : BitVec 64} (hk' : k.step (.syscall ctx (.other v)) = some k')
    (p : TdPtr) :
  k'.state p = k.state p
  := by
  obtain ⟨c, hc, hk'⟩ := Option.bind_eq_some_iff.mp hk'
  obtain ⟨k₂, hk₂, hk'⟩ := Option.bind_eq_some_iff.mp hk'
  rw [handle, show (k.storeTd c ctx (esrSvc (Call.other v).number)).current = some c from hc] at hk₂
  rw [← Option.some.inj hk', ← Option.some.inj hk₂]
  exact ((k.agree_storeTd c ctx _).trans (agree_setRetval _ c v)).state p

end Kernel

end TrainsOs
