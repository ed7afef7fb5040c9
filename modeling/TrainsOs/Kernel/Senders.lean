import TrainsOs.Kernel.Rounds

/-!
# Tasks that wait to send

As long as no message is sent to a task whose wait queue is full, and no task exits whose
wait queue is not empty, every task that waits to send is in exactly one slot of the wait
queue of the task it sent to. The first condition fails with the 65th sender, who is
stored through a null pointer and is found by nobody.
-/

namespace TrainsOs

namespace Kernel

variable {A : Type} {k k' k₀ : Kernel A} {sent : TdPtr → ℤ}

/-- Every task that waits to send is stored in one slot only, of the wait queue of the task
it sent to, and nothing is stored at address `0`. -/
structure SendersQueued (k : Kernel A) (sent : TdPtr → ℤ) : Prop where
  slot : ∀ s ∈ k.mapTid, k.state s = TaskState.sendBlocked →
    ∃ r ∈ k.mapTid, (k.td r).tid = sent s ∧ ∃ i : ℕ, (k.queue r)[i]? = some s
      ∧ ∀ r' ∈ k.mapTid, ∀ j : ℕ, (k.queue r')[j]? = some s → r' = r ∧ j = i
  atNull : k.atNull = none

/-- What becomes of a task `c` that sends to `tid`: it is queued, or its message is
received, or it gets an error and the lists and the heap are as before. -/
def SendOutcome (k k' : Kernel A) (c : TdPtr) (tid : ℤ) : Prop :=
  (∃ r ∈ k'.mapTid, (k'.td r).tid = tid
      ∧ (c ∈ k'.queue r ∨ k'.state c = TaskState.replyBlocked))
    ∨ ((k'.td c).syscallRetval.toInt < 0 ∧ k'.links = k.links ∧ k'.blocked = k.blocked
      ∧ k'.heap = k.heap)

/-- A task that waits to send is in the wait queue of a task that is alive. -/
def SendersHeard (k : Kernel A) : Prop :=
  ∀ s ∈ k.mapTid, k.state s = TaskState.sendBlocked → ∃ r ∈ k.mapTid, s ∈ k.queue r

variable [TaskAlloc A]

/-- The conditions: identifiers of events, initialised tasks, room in the wait queues and
nobody in the wait queue of a task that exits. -/
structure SendOk (k : Kernel A) (a : Act) : Prop where
  enabled : k.Enabled a
  event : EventOk a
  alloc : k.AllocOk a
  send : k.SendRoom a
  exit : k.ExitQuiet a

theorem SendOk.ok {a : Act} (h : k.SendOk a) :
  Ok True False k a
  := ⟨h.enabled, h.event, h.alloc, fun _ => h.send, fun _ => h.exit, False.elim⟩

/-- The kernel with the history of the receivers of the tasks that send. -/
def stepSent (ks : Kernel A × (TdPtr → ℤ)) (a : Act) : Option (Kernel A × (TdPtr → ℤ)) :=
  (ks.1.step a).map fun k => (k, ks.1.sentAfter ks.2 a)

/-- A task that waits to send does not float. -/
theorem Inv.mem_send {cq ch : Prop} (h : Inv cq ch sent k) {q : Blocked → List TdPtr}
    (hcore : Core cq ch sent k q k.floating) {s : TdPtr} (hs : s ∈ k.mapTid)
    (hstate : k.state s = TaskState.sendBlocked) :
  s ∈ q .send
  := by
  apply hcore.base.lists.mem_of_test hs
  · intro hF
    rw [Kernel.floating] at hF
    split at hF
    · cases hF
    · rename_i hpoint
      have hready := h.ready hpoint s (mem_running hF)
      rw [hstate] at hready
      cases hready
  · rw [hstate]
    rfl

theorem Inv.sendersQueued {ch : Prop} (h : Inv True ch sent k) :
  SendersQueued k sent
  := by
  obtain ⟨q, hcore⟩ := h.core
  constructor
  · intro s hs hstate
    obtain ⟨r, hr, hsr, htid⟩ := hcore.queues.queued trivial s (h.mem_send hcore hs hstate)
    obtain ⟨i, hi⟩ := List.mem_iff_getElem?.mp hsr
    refine ⟨r, hr, htid.symm, i, hi, ?_⟩
    intro r' hr' j hj
    obtain rfl := hcore.queues.apart r hr r' hr' s hsr (List.mem_of_getElem? hj)
    refine ⟨rfl, ?_⟩
    obtain ⟨hlt, -⟩ := List.getElem?_eq_some_iff.mp hi
    exact ((List.getElem?_inj hlt (hcore.queues.nodup r hr)).mp (hi.trans hj.symm)).symm
  · exact hcore.queues.atNull trivial

omit [TaskAlloc A] in
theorem SendersQueued.heard (h : SendersQueued k sent) :
  k.SendersHeard
  := by
  intro s hs hstate
  obtain ⟨r, hr, -, i, hi, -⟩ := h.slot s hs hstate
  exact ⟨r, hr, List.mem_of_getElem? hi⟩

/-- A task that sends is queued, heard or told. -/
theorem kSendHandler_outcome {q : Blocked → List TdPtr} {c : TdPtr} (ctx : Ctx) {tid : ℤ}
    {msg msglen reply rplen : ℕ} (h : Core True False sent k q [c]) (hc : k.current = some c)
    (hready : k.state c = TaskState.ready)
    (hroom : k.SendRoom (.syscall ctx (.send tid msg msglen reply rplen))) :
  ∃ k', k.kSendHandler tid msg msglen reply rplen = some k' ∧ SendOutcome k k' c tid
  := by
  cases hlook : k.kTaskMgrGetTaskDsp tid with
  | none =>
    refine ⟨_, kSendHandler_none hc hlook, Or.inr ⟨?_, rfl, rfl, rfl⟩⟩
    rw [retval_setRetval]
    decide
  | some r =>
    obtain ⟨hr, htid⟩ := kTaskMgrGetTaskDsp_some hlook
    by_cases hrecv : k.state r = TaskState.receiveBlocked
    · have hrc : c ≠ r := by
        rintro rfl
        rw [hready] at hrecv
        cases hrecv
      obtain ⟨k', l, hd, q', heq, hk', hsame, -⟩ :=
        kSendHandler_direct h hc hready hlook hrecv False.elim
      refine ⟨k', heq, Or.inl ⟨r, ?_, ?_, Or.inr ?_⟩⟩
      · rw [hsame.mapTid]
        exact hr
      · rw [hsame.tid]
        exact htid
      · rw [hk', (agree_setCurrent _ none).state, state_kSchedAddReady, if_neg hrc]
        exact (state_setState _ c _ c).trans (if_pos rfl)
    · have hlen := (hroom r hlook).resolve_left hrecv
      obtain ⟨k', ring, l, hd, q', heq, hk', hlist, htid', hring, -⟩ :=
        kSendHandler_queued h hc hlook hrecv hlen
      refine ⟨k', heq, Or.inl ⟨r, ?_, ?_, Or.inl ?_⟩⟩
      · rw [hk']
        exact hr
      · rw [htid']
        exact htid
      · rw [Kernel.queue, hring, if_pos rfl, hlist]
        exact List.mem_append_right _ List.mem_cons_self

/-- What becomes of the message that the running task sends. -/
theorem send_outcome (h : Inv True False sent k) {ctx : Ctx} {tid : ℤ}
    {msg msglen reply rplen : ℕ}
    (hok : k.SendOk (.syscall ctx (.send tid msg msglen reply rplen))) :
  ∃ c k', k.current = some c
    ∧ k.step (.syscall ctx (.send tid msg msglen reply rplen)) = some k'
    ∧ SendOutcome k k' c tid
  := by
  obtain ⟨c, q, hc, -, hcore, hready, hstep⟩ := h.trapped hok.enabled
  have hok₁ := hok.ok.storeTd c ctx (esrSvc 5)
  obtain ⟨k', heq, houtcome⟩ := kSendHandler_outcome ctx hcore hc hready (hok₁.send trivial)
  exact ⟨c, k'.setPoint .bottom, hc, hstep k' heq, houtcome⟩

/-! ### Runs -/

/-- In every such run every task that waits to send is queued where it is found, and what
a task gets that sends next is one of the three outcomes. -/
theorem kernel_sendersQueued (h : Booted k₀) (sent₀ : TdPtr → ℤ) {as : List Act}
    (has : Run.Meets stepSent (fun ks a => ks.1.SendOk a) (k₀, sent₀) as) :
  ∃ ks, Run.run stepSent (k₀, sent₀) as = some ks ∧ SendersQueued ks.1 ks.2
    ∧ ∀ ctx tid msg msglen reply rplen,
      ks.1.SendOk (.syscall ctx (.send tid msg msglen reply rplen)) →
      ∃ c k', ks.1.current = some c
        ∧ ks.1.step (.syscall ctx (.send tid msg msglen reply rplen)) = some k'
        ∧ SendOutcome ks.1 k' c tid
  := by
  obtain ⟨ks, hrun, hinv⟩ := Run.run_invariant
    (P := fun ks : Kernel A × (TdPtr → ℤ) => Inv True False ks.2 ks.1) (by
      intro ks a hinv hok
      obtain ⟨k', hstep, hinv'⟩ := step_inv hinv hok.ok
      refine ⟨(k', _), ?_, hinv'⟩
      rw [stepSent, hstep]
      rfl) (h.inv sent₀) has
  exact ⟨ks, hrun, hinv.sendersQueued, fun _ _ _ _ _ _ => send_outcome hinv⟩

/-- In every such run every task that waits to send is in the wait queue of a task that is
alive, also after tasks have exited. -/
theorem kernel_sendersHeard (h : Booted k₀) {as : List Act}
    (has : Run.Meets step SendOk k₀ as) :
  ∃ k', Run.run step k₀ as = some k' ∧ k'.SendersHeard
  := by
  have hok : Run.Meets step (Ok True False) k₀ as := has.mono fun _ _ => SendOk.ok
  obtain ⟨k', hrun, sent, hinv⟩ := h.run_inv hok
  exact ⟨k', hrun, hinv.sendersQueued.heard⟩

omit [TaskAlloc A] in
/-- The wait queue of a task that is alive has room for the next sender. -/
theorem sendRoom_of_lt {ctx : Ctx} {tid : ℤ} {msg msglen reply rplen : ℕ}
    (h : ∀ r ∈ k.mapTid, (k.queue r).length < userStackArrayCnt) :
  k.SendRoom (.syscall ctx (.send tid msg msglen reply rplen))
  := by
  intro r hr
  right
  exact h r (kTaskMgrGetTaskDsp_some hr).1

/-- `user_entry` waits, so that the name server runs and sends to it. -/
def serverSends : List Act :=
  [.schedule, .syscall ctx₀ .yield, .requeue, .schedule, .syscall ctx₀ (.send 1 0 0 0 0),
    .requeue, .schedule]

/-- In the run of `serverSends` every condition is met. -/
theorem meets_serverSends :
  Run.Meets step SendOk Arena.bootKernel serverSends
  := by
  refine ⟨⟨rfl, trivial, trivial, trivial, trivial⟩, ?_⟩
  intro k₁ h₁
  obtain rfl := Option.some.inj h₁
  refine ⟨⟨⟨rfl, by decide⟩, trivial, trivial, trivial, trivial⟩, ?_⟩
  intro k₂ h₂
  obtain rfl := Option.some.inj h₂
  refine ⟨⟨rfl, trivial, trivial, trivial, trivial⟩, ?_⟩
  intro k₃ h₃
  obtain rfl := Option.some.inj h₃
  refine ⟨⟨rfl, trivial, trivial, trivial, trivial⟩, ?_⟩
  intro k₄ h₄
  obtain rfl := Option.some.inj h₄
  refine ⟨⟨⟨rfl, by decide⟩, trivial, trivial, sendRoom_of_lt (by decide), trivial⟩, ?_⟩
  intro k₅ h₅
  obtain rfl := Option.some.inj h₅
  refine ⟨⟨rfl, trivial, trivial, trivial, trivial⟩, ?_⟩
  intro k₆ h₆
  obtain rfl := Option.some.inj h₆
  exact ⟨⟨rfl, trivial, trivial, trivial, trivial⟩, fun _ _ => trivial⟩

/-- The name server waits to send to `user_entry`. -/
theorem kernel_sendersHeard_server :
  ∃ k', Run.run step Arena.bootKernel serverSends = some k' ∧ k'.SendersHeard
  := kernel_sendersHeard Arena.booted meets_serverSends

/-- `user_entry` exits with the name server in its wait queue. The identifiers of events,
the creations and the sizes of the wait queues are in order. -/
theorem kernel_not_sendersHeard_exit :
  ∃ k k', Run.Meets step SendOk Arena.bootKernel serverSends
    ∧ Run.run step Arena.bootKernel serverSends = some k
    ∧ k.Enabled (.syscall ctx₀ .exit) ∧ k.step (.syscall ctx₀ .exit) = some k'
    ∧ ¬ k'.SendersHeard
  := by
  refine ⟨_, _, meets_serverSends, rfl, ⟨rfl, by decide⟩, rfl, ?_⟩
  intro hheard
  obtain ⟨r, hr, hmem⟩ := hheard 5 (by decide) rfl
  revert r
  decide

/-! ### A full wait queue -/

/-- The actions of a round in which the next task sends to the idle task. -/
def ask : List Act :=
  [.schedule, .syscall ctx₀ (.send 0 0 0 0 0), .requeue]

/-- Between two rounds `n` tasks wait to send to the idle task. -/
structure Asked (n : ℕ) (k : Kernel Arena) : Prop where
  inv : ∃ sent, Inv False False sent k
  point : k.point = .top
  count : k.heap.count = 2
  tds : k.tdsCount = n + 3
  tid : (k.td k.idleTask).tid = 0
  length : (k.queue k.idleTask).length = n

/-- The next task may send to the idle task. -/
theorem ask_ok {k : Kernel Arena} (h : Inv False False sent k) (hp : k.point = .top)
    (hpos : 0 < k.heap.count) :
  k.PlainOk .schedule ∧ Inv False False sent k.schedule
    ∧ k.schedule.PlainOk (.syscall ctx₀ (.send 0 0 0 0 0))
  := by
  obtain ⟨c, hc, -, hidle, hp₁, -, -, hstays⟩ := schedule_pop h hpos
  refine ⟨⟨hp, trivial, trivial, trivial⟩, schedule_inv h hp, ⟨hp₁, ?_⟩, trivial, trivial, trivial⟩
  rw [hc, hstays.idleTask]
  exact fun heq => hidle (Option.some.inj heq)

omit [TaskAlloc A] in
/-- What is said about the idle task between two rounds. -/
theorem Stays.idle {n : ℕ} (h : Stays k k') (hidle : k.idleTask ∈ k.mapTid)
    (htid : (k.td k.idleTask).tid = 0) (hlen : (k.queue k.idleTask).length = n) :
  (k'.td k'.idleTask).tid = 0 ∧ (k'.queue k'.idleTask).length = n
  := by
  rw [h.idleTask, h.tid _ hidle, h.queue _ hidle]
  exact ⟨htid, hlen⟩

/-- The idle task is found and does not wait to receive. -/
theorem lookup_idle {cq ch : Prop} {q : Blocked → List TdPtr} {F : List TdPtr}
    (h : Core cq ch sent k q F) (htid : (k.td k.idleTask).tid = 0) :
  k.kTaskMgrGetTaskDsp 0 = some k.idleTask ∧ k.state k.idleTask ≠ TaskState.receiveBlocked
  := by
  constructor
  · rw [← htid]
    exact h.base.ids.kTaskMgrGetTaskDsp_eq h.base.lists.idle_mem
  · rw [h.base.lists.idle_state]
    decide

/-- One more task sends to the idle task, in whose wait queue is room. -/
theorem ask_spec {k : Kernel Arena} {n : ℕ} (h : Inv False False sent k) (hp : k.point = .top)
    (hcount : k.heap.count = 3) (htds : k.tdsCount = n + 4) (htid : (k.td k.idleTask).tid = 0)
    (hlen : (k.queue k.idleTask).length = n) (hlt : n < userStackArrayCnt) :
  Run.Meets step PlainOk k ask ∧ ∃ k', Run.run step k ask = some k' ∧ Asked (n + 1) k'
  := by
  have hpos : 0 < k.heap.count := by omega
  obtain ⟨hok₁, h₁, hok₂⟩ := ask_ok h hp hpos
  obtain ⟨-, -, -, -, -, hcount₁, -, hstays⟩ := schedule_pop h hpos
  obtain ⟨c, q, hc, -, hcore, -, hstep⟩ := h₁.trapped hok₂.1
  obtain ⟨q₀, hcore₀⟩ := h.core
  obtain ⟨htid₁, hlen₁⟩ := (hstays.trans (k.schedule.agree_storeTd c ctx₀
    (esrSvc (Call.send 0 0 0 0 0).number)).stays).idle hcore₀.base.lists.idle_mem htid hlen
  obtain ⟨hlook, hstate⟩ := lookup_idle hcore htid₁
  obtain ⟨k', ring, l, hd, q', heq, hk', hlist, htid', hring, hcore'⟩ :=
    kSendHandler_queued hcore hc hlook hstate (hlen₁.trans_lt hlt)
  have hinv := (Handled.leave (k := k) hcore' (by rw [hk']; rfl)).inv
  have hnone : (k'.setPoint .bottom).current = none := by
    rw [hk']
    rfl
  have hok₃ : (k'.setPoint .bottom).PlainOk .requeue := ⟨rfl, trivial, trivial, trivial⟩
  constructor
  · apply Run.meets_cons hok₁ rfl
    apply Run.meets_cons hok₂ (hstep k' heq)
    exact ⟨hok₃, fun _ _ => trivial⟩
  · refine ⟨(k'.setPoint .bottom).requeue, ?_, ?_⟩
    · exact (Run.run_cons rfl _).trans (Run.run_cons (hstep k' heq) _)
    · have hinv' := requeue_inv hinv rfl False.elim
      rw [requeue_none hnone] at hinv' ⊢
      have hidle : k'.idleTask = (k.schedule.storeTd c ctx₀
          (esrSvc (Call.send 0 0 0 0 0).number)).idleTask := by
        rw [hk']
        generalize k.schedule = k₀
        rfl
      constructor
      · exact ⟨_, hinv'⟩
      · rfl
      · have hheap : k'.heap = k.schedule.heap := by
          rw [hk']
          generalize k.schedule = k₀
          rfl
        have hcount' : k'.heap.count = 2 := by
          rw [hheap]
          omega
        exact hcount'
      · have htds' : k'.tdsCount = k.schedule.tdsCount := by
          rw [hk']
          generalize k.schedule = k₀
          rfl
        exact htds'.trans (k.quiet_schedule.tdsCount.trans htds)
      · exact (congrArg (fun p => (k'.td p).tid) hidle).trans ((htid' _).trans htid₁)
      · have hlen' : (k'.queue k'.idleTask).length = n + 1 := by
          rw [hidle, Kernel.queue, hring, if_pos rfl, hlist, List.length_append, hlen₁]
          rfl
        exact hlen'

/-- As many tasks as the wait queue has slots send to the idle task. -/
theorem run_asked :
  Run.Meets step PlainOk Arena.bootKernel (Run.rounds (spawn ++ ask) userStackArrayCnt)
    ∧ ∃ k, Run.run step Arena.bootKernel (Run.rounds (spawn ++ ask) userStackArrayCnt) = some k
      ∧ Asked userStackArrayCnt k
  := by
  apply Run.run_rounds
  · exact ⟨⟨fun _ => 0, Arena.booted.inv _⟩, rfl, rfl, rfl, rfl, rfl⟩
  · rintro n hn k ⟨⟨sent, hinv⟩, hp, hcount, htds, htid, hlen⟩
    have hmax : n + 3 < tdsMax := (Nat.add_lt_add_right hn 3).trans (by decide)
    obtain ⟨hspawn, k₁, p, hrun₁, hinv₁, hp₁, hspawned⟩ := spawn_spec hinv hp
      (by omega) (by rw [hcount]; decide) (by omega)
    obtain ⟨q, hcore⟩ := hinv.core
    obtain ⟨htid₁, hlen₁⟩ := hspawned.stays.idle hcore.base.lists.idle_mem htid hlen
    obtain ⟨hask, k₂, hrun₂, hasked⟩ := ask_spec hinv₁ hp₁ (by rw [hspawned.count, hcount])
      (by rw [hspawned.tds, htds]) htid₁ hlen₁ hn
    refine ⟨Run.meets_append hspawn ?_, k₂, ?_, hasked⟩
    · intro k' hk'
      obtain rfl := Option.some.inj (hrun₁.symm.trans hk')
      exact hask
    · rw [Run.run_append, hrun₁, Option.bind_some, hrun₂]

/-- The history does not influence the run. -/
theorem stepSent_fst (ks : Kernel A × (TdPtr → ℤ)) (a : Act) :
  (stepSent ks a).map Prod.fst = ks.1.step a
  := by
  rw [stepSent, Option.map_map]
  exact Option.map_id'

/-- `user_entry` waits, so that the name server sends to it. -/
theorem kernel_sendersQueued_server :
  ∃ ks, Run.run stepSent (Arena.bootKernel, fun _ => 0) serverSends = some ks
    ∧ SendersQueued ks.1 ks.2
    ∧ ∀ ctx tid msg msglen reply rplen,
      ks.1.SendOk (.syscall ctx (.send tid msg msglen reply rplen)) →
      ∃ c k', ks.1.current = some c
        ∧ ks.1.step (.syscall ctx (.send tid msg msglen reply rplen)) = some k'
        ∧ SendOutcome ks.1 k' c tid
  := by
  apply kernel_sendersQueued Arena.booted
  exact Run.Meets.of_map stepSent_fst meets_serverSends

/-- 65 tasks send to the idle task, one after another. -/
def fullRun : List Act :=
  Run.rounds (spawn ++ ask) userStackArrayCnt ++ [.schedule, .syscall ctx₀ (.send 0 0 0 0 0)]

/-- After 64 tasks one more sends to the idle task: it is stored at address `0`. -/
theorem kernel_not_sendersQueued_full :
  Run.Meets stepSent (fun ks a => ks.1.PlainOk a) (Arena.bootKernel, fun _ => 0) fullRun
    ∧ ∃ ks, Run.run stepSent (Arena.bootKernel, fun _ => 0) fullRun = some ks
      ∧ ¬ SendersQueued ks.1 ks.2
  := by
  obtain ⟨has, k, hrun, ⟨sent, hinv⟩, hp, hcount, -, htid, hlen⟩ := run_asked
  have hpos : 0 < k.heap.count := by omega
  obtain ⟨hok₁, h₁, hok₂⟩ := ask_ok hinv hp hpos
  obtain ⟨-, -, -, -, -, -, -, hstays⟩ := schedule_pop hinv hpos
  obtain ⟨c, q, hc, -, hcore, -, hstep⟩ := h₁.trapped hok₂.1
  obtain ⟨q₀, hcore₀⟩ := hinv.core
  obtain ⟨htid₁, hlen₁⟩ := (hstays.trans (k.schedule.agree_storeTd c ctx₀
    (esrSvc (Call.send 0 0 0 0 0).number)).stays).idle hcore₀.base.lists.idle_mem htid hlen
  obtain ⟨hlook, hstate⟩ := lookup_idle hcore htid₁
  obtain ⟨k', l, hd, q', heq, hk', -⟩ :=
    kSendHandler_full hcore not_false hc hlook hstate hlen₁.ge
  have hrun' : Run.run step Arena.bootKernel fullRun = some (k'.setPoint .bottom) := by
    rw [fullRun, Run.run_append, hrun, Option.bind_some]
    have hsched : k.step .schedule = some k.schedule := rfl
    exact (Run.run_cons hsched _).trans (Run.run_cons (hstep k' heq) _)
  have hmeets : Run.Meets step PlainOk Arena.bootKernel fullRun := by
    apply Run.meets_append has
    intro k₁ hk₁
    obtain rfl := Option.some.inj (hrun.symm.trans hk₁)
    apply Run.meets_cons hok₁ rfl
    exact ⟨hok₂, fun _ _ => trivial⟩
  obtain ⟨ks, hsent, hks⟩ := Run.exists_run_of_map stepSent_fst
    (t := (Arena.bootKernel, fun _ => 0)) hrun'
  refine ⟨Run.Meets.of_map stepSent_fst hmeets, ks, hsent, ?_⟩
  intro hqueued
  have hnull := hqueued.atNull
  rw [hks] at hnull
  rw [hk'] at hnull
  cases hnull

end Kernel

end TrainsOs
