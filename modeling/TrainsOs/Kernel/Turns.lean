import TrainsOs.Kernel.Freed
import TrainsOs.Kernel.Ready

/-!
# Turns

Of two tasks the one that was inserted into the ready heap first runs first, unless the
other one has a smaller priority number: a task that is ahead of another one stays ahead
until it gives the processor up. And a task that was blocked goes on with the value that it
was woken up or replied to with.
-/

namespace TrainsOs

namespace Kernel

variable {A : Type} {k k' : Kernel A} {sent : TdPtr → ℤ} {n p : TdPtr}

/-! ### One task ahead of another -/

/-- The task `n` is running, or it is in the ready heap, `p` is not running, and if `p` is in
the heap as well it was inserted later. -/
def Ahead (k : Kernel A) (n p : TdPtr) : Prop :=
  (k.point = .user ∧ k.current = some n)
    ∨ (n ∈ k.heap.toList
      ∧ (p ∈ k.heap.toList → (k.td n).insertVal < (k.td p).insertVal)
      ∧ (k.point = .user → k.current ≠ some p))

theorem Ahead.not_running (h : k.Ahead n p) (hne : p ≠ n) (hpoint : k.point = .user) :
  k.current ≠ some p
  := by
  rcases h with ⟨-, hcur⟩ | ⟨-, -, hcur⟩
  · rw [hcur]
    exact fun heq => hne (Option.some.inj heq).symm
  · exact hcur hpoint

/-- The scheduler takes `n` before `p`. -/
theorem Ahead.schedule (h : k.Ahead n p) (htop : k.point = .top) (hs : k.Sorted)
    (hnodup : k.heap.toList.Nodup) (hprio : (k.td n).priority ≤ (k.td p).priority) :
  k.schedule.Ahead n p
  := by
  obtain ⟨hpoint, -⟩ | ⟨hmem, hval, -⟩ := h
  · rw [htop] at hpoint
    cases hpoint
  obtain ⟨c, hc⟩ := schedule_picks hs hnodup
  have huser : k.schedule.point = .user := by
    rw [Kernel.schedule]
    split
    rfl
  by_cases hcn : c = n
  · left
    exact ⟨huser, hc.current.trans (congrArg some hcn)⟩
  right
  refine ⟨(hc.heap n).mpr ⟨hmem, Ne.symm hcn⟩, ?_, ?_⟩
  · intro hp
    rw [hc.td]
    exact hval ((hc.heap p).mp hp).1
  · intro _ hcur
    obtain rfl := Option.some.inj (hc.current.symm.trans hcur)
    obtain ⟨-, hnil⟩ | ⟨hcmem, hleast⟩ := hc.least
    · rw [hnil] at hmem
      cases hmem
    · have hkey := keyLt_false_iff.mp (hleast n hmem)
      have hlt := hval hcmem
      omega

variable [TaskAlloc A]

/-- A task that is ahead stays ahead while it is not interrupted and makes no call. -/
theorem Ahead.step (h : k.Ahead n p) (hinv : Inv False False sent k) (hs : k.Sorted)
    (hprio : (k.td n).priority ≤ (k.td p).priority) {a : Act} (hok : k.LinkOk a)
    (hstays : k.point = .user → k.current = some n → ∃ mem, a = .write mem)
    (hk' : k.step a = some k') (hfew : k'.readies < 2 ^ 64) :
  k'.Ahead n p
  := by
  by_cases ha : a = .schedule
  · subst ha
    obtain ⟨q, hcore⟩ := hinv.core
    rw [← Option.some.inj hk']
    exact h.schedule hok.enabled hs hcore.base.heap.nodup hprio
  obtain ⟨hpoint, hcur⟩ | ⟨hmem, hval, hcur⟩ := h
  · obtain ⟨mem, rfl⟩ := hstays hpoint hcur
    obtain ⟨c, -, hk'⟩ := Option.bind_eq_some_iff.mp hk'
    rw [← Option.some.inj hk']
    exact Or.inl ⟨hpoint, hcur⟩
  obtain ⟨ts, hts, -⟩ := inserts_step hinv hs hok ha hk'
  obtain ⟨-, huser, hcurrent⟩ := current_step hinv hok ha hk'
  obtain ⟨hmem', hval'⟩ := hts.old n hmem
  right
  refine ⟨hmem', ?_, ?_⟩
  · intro hp
    rw [hval']
    rcases hts.new p hp with hold | ⟨-, hnew⟩
    · rw [(hts.old p hold).2]
      exact hval hold
    · have hfew₀ := lt_of_le_of_lt hts.readies hfew
      exact lt_of_lt_of_le (hs.older hfew₀ n hmem) (hnew hfew)
  · exact fun hpoint hcur' => hcur (huser hpoint) (hcurrent p hcur')

/-! ### Ready tasks are in the heap -/

/-- A task that is ready and does not run is in the ready heap, when nothing was lost. -/
theorem Inv.mem_heap_of_ready {cq : Prop} (h : Inv cq True sent k) (hp : p ∈ k.mapTid)
    (hready : k.state p = TaskState.ready) (hidle : p ≠ k.idleTask)
    (hcur : k.point ≠ .top → k.current ≠ some p) :
  p ∈ k.heap.toList
  := by
  obtain ⟨q, hcore⟩ := h.core
  have hF : p ∉ k.floating := by
    rw [floating]
    split_ifs with htop
    · exact List.not_mem_nil
    · exact fun hmem => hcur htop (mem_running hmem)
  obtain hmem | ⟨b, hb⟩ := hcore.base.heap.placed trivial p hp hidle hF
  · exact hmem
  · rw [hready, b.not_test_ready] at hb
    cases hb

/-- A task that is ready when another one is about to give the processor up is ahead of
it. -/
theorem Inv.ahead (h : Inv False True sent k) (hn : n ∈ k.mapTid)
    (hready : k.state n = TaskState.ready) (hidle : n ≠ k.idleTask) (hne : p ≠ n)
    (hpoint : k.point = .bottom) (hcur : k.current = some p) :
  k.Ahead n p
  := by
  have hmem : n ∈ k.heap.toList := by
    apply h.mem_heap_of_ready hn hready hidle
    rintro - hcur'
    exact hne (Option.some.inj (hcur.symm.trans hcur'))
  refine Or.inr ⟨hmem, ?_, ?_⟩
  · intro hp
    have hnot := (h.plain.mem_heap hp).2.2.1
    rw [hpoint] at hnot
    exact absurd hcur (hnot Point.noConfusion)
  · rw [hpoint]
    exact Point.noConfusion

/-! ### What a blocked task goes on with -/

/-- The call of a task that is replied to returns the length of the reply. -/
theorem retval_reply (h : Inv False False sent k) {ctx : Ctx} {tid : ℤ} {reply rplen : ℕ}
    (hok : k.LinkOk (.syscall ctx (.reply tid reply rplen)))
    (hk' : k.step (.syscall ctx (.reply tid reply rplen)) = some k') (hp : p ∈ k.mapTid)
    (htid : (k.td p).tid = tid) (hstate : k.state p = TaskState.replyBlocked) :
  (k'.td p).syscallRetval = BitVec.ofNat 64 rplen
  := by
  obtain ⟨c, k₁, k₂, q, -, -, -, hcore, hc, hready, hagree, -, hk₂, rfl⟩ := h.calls hok hk'
  have hstate₁ : k₁.state p = TaskState.replyBlocked := (hagree.state p).trans hstate
  have hpc : p ≠ c := by
    rintro rfl
    rw [hready] at hstate₁
    cases hstate₁
  have hlook : k₁.kTaskMgrGetTaskDsp tid = some p := by
    rw [← htid, ← hagree.tid p]
    exact hcore.base.ids.kTaskMgrGetTaskDsp_eq (hagree.mapTid ▸ hp)
  obtain ⟨k₃, l, hd, q', heq, rfl, -⟩ :=
    kReplyHandler_answer hcore hc hready hlook hstate₁ False.elim
  rw [← Option.some.inj (heq.symm.trans hk₂)]
  apply (retval_kSchedAddReady _ p p).trans
  apply ((k₁.setRetval p (BitVec.ofNat 64 rplen)).spared_setRetval hpc _).syscallRetval.trans
  exact k₁.retval_setRetval p _

omit [TaskAlloc A] in
/-- The loop leaves a task alone, or it wakes the task up with the given value. -/
theorem retval_wakeupLoop {intrId retval fuel m m' : ℕ} {td : Option TdPtr}
    (h : wakeupLoop intrId retval fuel k td m = some (k', m')) (p : TdPtr) :
  (k'.state p = k.state p ∧ (k'.td p).syscallRetval = (k.td p).syscallRetval)
    ∨ (k'.state p = TaskState.ready ∧ k.state p = intrId
      ∧ (k'.td p).syscallRetval = BitVec.ofNat 64 retval)
  := by
  induction fuel generalizing k td m with
  | zero =>
    cases td with
    | none =>
      obtain ⟨rfl, -⟩ := Prod.mk.inj (Option.some.inj h)
      exact Or.inl ⟨rfl, rfl⟩
    | some td => cases h
  | succ fuel ih =>
    cases td with
    | none =>
      obtain ⟨rfl, -⟩ := Prod.mk.inj (Option.some.inj h)
      exact Or.inl ⟨rfl, rfl⟩
    | some td =>
      rw [wakeupLoop] at h
      dsimp only at h
      split_ifs at h with htd
      · obtain ⟨k₁, hrem, h⟩ := Option.bind_eq_some_iff.mp h
        by_cases hp : p = td
        · subst hp
          have hstate := (state_kSchedAddReady (k₁.setRetval p (BitVec.ofNat 64 retval)) p p).trans
            (if_pos rfl)
          have hvalue := (retval_kSchedAddReady (k₁.setRetval p (BitVec.ofNat 64 retval)) p p).trans
            (k₁.retval_setRetval p _)
          right
          obtain ⟨hstate', hvalue'⟩ | ⟨hstate', -, hvalue'⟩ := ih h
          · exact ⟨hstate'.trans hstate, htd, hvalue'.trans hvalue⟩
          · exact ⟨hstate', htd, hvalue'⟩
        · have hone : Spared k ((k₁.setRetval td (BitVec.ofNat 64 retval)).kSchedAddReady td) p :=
            ((spared_removeWait hrem p).trans (spared_modify _ hp _)).trans
              (spared_kSchedAddReady _ hp)
          obtain ⟨hstate', hvalue'⟩ | ⟨hstate', hid, hvalue'⟩ := ih h
          · exact Or.inl ⟨hstate'.trans hone.state, hvalue'.trans hone.syscallRetval⟩
          · exact Or.inr ⟨hstate', hone.state.symm.trans hid, hvalue'⟩
      · exact ih h

omit [TaskAlloc A] in
theorem retval_wakeupAll {ws : List (ℕ × ℕ)} (hids : ∀ w ∈ ws, keIntrIdRangeMin ≤ w.1)
    (h : k.wakeupAll ws = some k') (p : TdPtr) :
  (k'.state p = k.state p ∧ (k'.td p).syscallRetval = (k.td p).syscallRetval)
    ∨ (k'.state p = TaskState.ready
      ∧ ∃ w ∈ ws, w.1 = k.state p ∧ (k'.td p).syscallRetval = BitVec.ofNat 64 w.2)
  := by
  induction ws generalizing k with
  | nil =>
    rw [← Option.some.inj h]
    exact Or.inl ⟨rfl, rfl⟩
  | cons w ws ih =>
    rw [wakeupAll] at h
    obtain ⟨⟨k₁, m⟩, hloop, h⟩ := Option.bind_eq_some_iff.mp h
    have htail : ∀ w' ∈ ws, keIntrIdRangeMin ≤ w'.1 :=
      fun w' hw' => hids w' (List.mem_cons_of_mem w hw')
    obtain ⟨hstate₁, hvalue₁⟩ | ⟨hstate₁, hid, hvalue₁⟩ := retval_wakeupLoop hloop p
    · obtain ⟨hstate', hvalue'⟩ | ⟨hstate', w', hw', hid', hvalue'⟩ := ih htail h
      · exact Or.inl ⟨hstate'.trans hstate₁, hvalue'.trans hvalue₁⟩
      · exact Or.inr ⟨hstate', w', List.mem_cons_of_mem w hw', hid'.trans hstate₁, hvalue'⟩
    · right
      obtain ⟨hstate', hvalue'⟩ | ⟨-, w', hw', hid', -⟩ := ih htail h
      · exact ⟨hstate'.trans hstate₁, w, List.mem_cons_self, hid.symm, hvalue'.trans hvalue₁⟩
      · -- a task that has been woken up is not woken up again
        have hle := htail w' hw'
        rw [hid', hstate₁] at hle
        exact absurd hle (by decide)

/-- The value that a wake-up returns is the one of its interrupt. -/
theorem retval_interrupt (h : Inv False False sent k) {ctx : Ctx} {x0 : BitVec 64}
    {irqs : List Irq} (hok : k.LinkOk (.interrupt ctx x0 irqs)) (hp : p ∈ k.mapTid)
    (hfree : k.Frees p (.interrupt ctx x0 irqs)) (hk' : k.step (.interrupt ctx x0 irqs) = some k') :
  ∃ w ∈ irqs.flatMap Irq.wakeups, w.1 = k.state p
    ∧ (k'.td p).syscallRetval = BitVec.ofNat 64 w.2
  := by
  have hfreed := (freed_step h hok hp hfree hk').1
  obtain ⟨c, -, hk'⟩ := Option.bind_eq_some_iff.mp hk'
  obtain ⟨k₂, hk₂, hk'⟩ := Option.bind_eq_some_iff.mp hk'
  rw [← Option.some.inj hk'] at hfreed ⊢
  have hstate : ((k.storeTd c ctx 0).setRetval c x0).state p = k.state p :=
    ((k.agree_storeTd c ctx 0).trans (agree_setRetval _ c x0)).state p
  obtain ⟨hsame, -⟩ | ⟨-, w, hw, hid, hvalue⟩ :=
    retval_wakeupAll (fun _ => Irq.le_of_mem_flatMap) hk₂ p
  · -- it was not ready before
    have hready : k.state p = TaskState.ready := hstate.symm.trans (hsame.symm.trans hfreed)
    exact absurd hfree ((unblocked_of_ready hready).not_frees _)
  · exact ⟨w, hw, hid.trans hstate, hvalue⟩

/-- A task that is interrupted stays ready, and its register `x0` is kept. -/
theorem interrupt_current (h : Inv False False sent k) {ctx : Ctx} {x0 : BitVec 64}
    {irqs : List Irq} (hok : k.LinkOk (.interrupt ctx x0 irqs))
    (hk' : k.step (.interrupt ctx x0 irqs) = some k') (hcur : k.current = some p) :
  k'.state p = TaskState.ready ∧ (k'.td p).syscallRetval = x0
  := by
  obtain ⟨c, k₁, ts, hc, hstep, hwoken, hts, -⟩ :=
    interrupt_spec h hok.enabled ctx x0 irqs False.elim
  obtain rfl := Option.some.inj (hcur.symm.trans hc)
  have hready : k.state p = TaskState.ready := by
    apply h.ready _ p hc
    rw [show k.point = .user from hok.enabled]
    exact Point.noConfusion
  have hnot : p ∉ ts := by
    intro hmem
    have hle := le_of_mem_eventIds (mem_waiting.mp ((hts p).mp hmem)).2
    rw [hready] at hle
    exact absurd hle (by decide)
  rw [← Option.some.inj (hstep.symm.trans hk')]
  constructor
  · apply ((hwoken.state p).trans (if_neg hnot)).trans
    exact (((k.agree_storeTd p ctx 0).trans (agree_setRetval _ p x0)).state p).trans hready
  · apply (hwoken.retval p hnot).trans
    exact retval_setRetval _ p x0

/-! ### Runs in which no task is lost -/

/-- A state that the kernel reaches from its start while the ready heap has room. -/
def ReachedWithRoom (k : Kernel A) : Prop :=
  ∃ k₀, Booted k₀ ∧ Run.Reachable step RoomOk k₀ k

/-- In every such state the invariant holds and the heap is in order. -/
theorem ReachedWithRoom.inv (h : k.ReachedWithRoom) :
  (∃ sent, Inv False True sent k) ∧ k.Sorted
  := by
  obtain ⟨k₀, hboot, hreach⟩ := h
  apply hreach.invariant (P := fun k : Kernel A => (∃ sent, Inv False True sent k) ∧ k.Sorted)
  · rintro k a ⟨⟨sent, hinv⟩, hs⟩ hok
    obtain ⟨k', hstep, hinv'⟩ := step_inv hinv hok.ok
    have hlink : k.LinkOk a := ⟨hok.enabled, hok.event, hok.alloc⟩
    exact ⟨k', hstep, ⟨_, hinv'⟩, sorted_step hinv.plain hs hlink hstep⟩
  · exact ⟨⟨fun _ => 0, hboot.inv _⟩, hboot.sorted⟩

/-- A computable form of `RoomOk`, for creations that are proper. -/
def roomCheck (k : Kernel Arena) (a : Act) : Bool :=
  k.linkCheck a && match a with
    | .interrupt _ _ irqs =>
        k.heap.count + (k.waiting (eventIds irqs)).length ≤ kSchedHeapCapacity
    | _ => k.heap.count < kSchedHeapCapacity

theorem roomOk_of_check {k : Kernel Arena} {a : Act} (h : k.roomCheck a = true) :
  k.RoomOk a
  := by
  obtain ⟨hlink, hroom⟩ := Bool.and_eq_true_iff.mp h
  have hok := linkOk_of_check hlink
  refine ⟨hok.enabled, hok.event, hok.alloc, ?_⟩
  cases a with
  | interrupt ctx x0 irqs =>
    have hcount := of_decide_eq_true hroom
    exact hcount
  | syscall ctx call =>
    have hcount := of_decide_eq_true hroom
    cases call with
    | create => exact Or.inr hcount
    | send => exact fun _ _ _ => hcount
    | recv => exact fun _ _ _ => hcount
    | reply => exact fun _ _ _ => hcount
    | _ => trivial
  | requeue => exact fun _ _ _ => of_decide_eq_true hroom
  | _ => trivial

end Kernel

end TrainsOs
