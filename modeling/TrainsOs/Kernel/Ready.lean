import TrainsOs.Kernel.Rounds
import TrainsOs.Kernel.States

/-!
# No task is lost

As long as the ready heap has room for the tasks that are made ready, every task is where
it belongs, and `k_sched_get_next` has returned every task as often as it was made ready,
but for the times it is in the heap. When more than 200 tasks are ready, the heap drops
tasks.
-/

namespace TrainsOs

namespace Kernel

variable {A : Type} {k k' k₀ : Kernel A} {sent : TdPtr → ℤ}

/-- The task has been given the processor and has not been put back yet. -/
def Running (k : Kernel A) (p : TdPtr) : Prop :=
  k.point ≠ .top ∧ k.current = some p

/-- Every task but the idle task is in exactly one place. -/
structure NoneLost (k : Kernel A) : Prop where
  placed : ∀ p ∈ k.mapTid, p ≠ k.idleTask →
    k.Running p ∨ p ∈ k.heap.toList ∨ ∃ b, k.OnList b p
  heap : ∀ p ∈ k.heap.toList, ¬ k.Running p ∧ ∀ b, ¬ k.OnList b p
  list : ∀ p b, k.OnList b p → ¬ k.Running p ∧ ∀ b', k.OnList b' p → b = b'
  nodup : k.heap.toList.Nodup
  counted : ∀ p, k.log.count (.ready p) = k.log.count (.next p) + k.heap.toList.count p

variable [TaskAlloc A]

/-- The conditions: identifiers of events, initialised tasks and room in the heap. -/
structure RoomOk (k : Kernel A) (a : Act) : Prop where
  enabled : k.Enabled a
  event : EventOk a
  alloc : k.AllocOk a
  room : k.Room a

theorem RoomOk.ok {a : Act} (h : k.RoomOk a) :
  Ok False True k a
  := ⟨h.enabled, h.event, h.alloc, False.elim, False.elim, fun _ => h.room⟩

theorem Inv.noneLost {cq : Prop} (h : Inv cq True sent k) :
  k.NoneLost
  := by
  obtain ⟨q, hcore⟩ := h.core
  have hlists := hcore.base.lists
  have hlist : ∀ b p, k.OnList b p ↔ p ∈ q b := fun b p => onList_iff hlists.forest
  have hrunning : ∀ p, p ≠ k.idleTask → k.Running p → p ∈ k.floating := by
    rintro p hidle ⟨hpoint, hp⟩
    rw [floating_user hpoint, running_of_ne hp hidle]
    exact List.mem_cons_self
  have hidle : ∀ b, k.idleTask ∉ q b := by
    intro b hmem
    have ht := ((hlists.mem_iff b _).mp hmem).2.2
    rw [hlists.idle_state, b.not_test_ready] at ht
    cases ht
  constructor
  · intro p hp hne
    by_cases hF : p ∈ k.floating
    · left
      rw [Kernel.floating] at hF
      split at hF
      · cases hF
      · rename_i hpoint
        exact ⟨hpoint, mem_running hF⟩
    · right
      apply (hcore.base.heap.placed trivial p hp hne hF).imp_right
      rintro ⟨b, hb⟩
      use b
      rw [hlist, hlists.mem_iff]
      exact ⟨hp, hF, hb⟩
  · intro p hp
    have hmem := hcore.base.heap.mem p hp
    constructor
    · intro hrun
      apply hmem.2.1
      apply hrunning p _ hrun
      rintro rfl
      exact hcore.base.heap.idle hp
    · intro b hb
      exact h.linked.heap p b hb hp
  · intro p b hb
    constructor
    · intro hrun
      rw [hlist] at hb
      apply ((hlists.mem_iff b p).mp hb).2.1
      apply hrunning p _ hrun
      rintro rfl
      exact hidle b hb
    · intro b' hb'
      exact h.linked.apart p b b' hb hb'
  · exact hcore.base.heap.nodup
  · exact hcore.base.heap.counted trivial

/-- In every such run no task is lost. -/
theorem kernel_noneLost (h : Booted k₀) {as : List Act} (has : Run.Meets step RoomOk k₀ as) :
  ∃ k', Run.run step k₀ as = some k' ∧ k'.NoneLost
  := by
  have hok : Run.Meets step (Ok False True) k₀ as := has.mono fun _ _ => RoomOk.ok
  obtain ⟨k', hrun, sent, hinv⟩ := h.run_inv hok
  exact ⟨k', hrun, hinv.noneLost⟩

/-- `user_entry` waits for a message. -/
theorem kernel_noneLost_recv :
  ∃ k', Run.run step Arena.bootKernel [.schedule, .syscall ctx₀ (.recv 0 0 0)] = some k'
    ∧ k'.NoneLost
  := by
  apply kernel_noneLost Arena.booted
  refine ⟨⟨rfl, trivial, trivial, trivial⟩, ?_⟩
  intro k₁ h₁
  obtain rfl := Option.some.inj h₁
  refine ⟨⟨⟨rfl, by decide⟩, trivial, trivial, ?_⟩, fun _ _ => trivial⟩
  intro c _ _
  decide

/-! ### A full heap -/

/-- The actions of a round in which the next task waits for the timer. -/
def await : List Act :=
  [.schedule, .syscall ctx₀ (.awaitEvent intrIdTimer), .requeue]

/-- Between two rounds `n` tasks wait for the timer. -/
structure Waited (n : ℕ) (k : Kernel Arena) : Prop where
  inv : ∃ sent, Inv False False sent k
  point : k.point = .top
  count : k.heap.count = 2
  tds : k.tdsCount = n + 3
  length : (k.waiting [intrIdTimer]).length = n

omit [TaskAlloc A] in
/-- A new task waits for nothing. -/
theorem Stays.waiting {ids : List ℕ} (h : Stays k k') {ps : List TdPtr}
    (hmap : k'.mapTid = k.mapTid ++ ps) (hps : ∀ p ∈ ps, k'.state p ∉ ids) :
  k'.waiting ids = k.waiting ids
  := by
  rw [Kernel.waiting, Kernel.waiting, hmap, List.filter_append]
  have hnew : ps.filter (fun p => k'.state p ∈ ids) = [] := by
    apply List.filter_eq_nil_iff.mpr
    intro p hp
    simpa using hps p hp
  rw [hnew, List.append_nil]
  apply List.filter_congr
  intro p hp
  rw [h.state p hp]

/-- One more task waits for the timer. -/
theorem await_spec {k : Kernel Arena} {n : ℕ} (h : Inv False False sent k) (hp : k.point = .top)
    (hcount : k.heap.count = 3) (htds : k.tdsCount = n + 4)
    (hlen : (k.waiting [intrIdTimer]).length = n) :
  Run.Meets step PlainOk k await ∧ ∃ k', Run.run step k await = some k' ∧ Waited (n + 1) k'
  := by
  have hpos : 0 < k.heap.count := by omega
  obtain ⟨c, hc, hcmap, hidle, hp₁, hcount₁, hmap₁, hstays⟩ := schedule_pop h hpos
  have hok₁ : k.PlainOk .schedule := ⟨hp, trivial, trivial, trivial⟩
  have hok₂ : k.schedule.PlainOk (.syscall ctx₀ (.awaitEvent intrIdTimer)) := by
    refine ⟨⟨hp₁, ?_⟩, ?_, trivial, trivial⟩
    · rw [hc, hstays.idleTask]
      exact fun heq => hidle (Option.some.inj heq)
    · rw [EventOk]
      decide
  obtain ⟨c', q, hc', -, hcore, hready, hstep⟩ := (schedule_inv h hp).trapped hok₂.1
  obtain rfl : c' = c := Option.some.inj (hc'.symm.trans hc)
  obtain ⟨k', l, hd, q', heq, hk', hcore'⟩ := kAwaitEventHandler_spec hcore hc hok₂.2.1
  have hinv := (Handled.leave (k := k) hcore' (by rw [hk']; rfl)).inv
  have hnone : (k'.setPoint .bottom).current = none := by
    rw [hk']
    rfl
  have hok₃ : (k'.setPoint .bottom).PlainOk .requeue := ⟨rfl, trivial, trivial, trivial⟩
  constructor
  · apply Run.meets_cons hok₁ rfl
    apply Run.meets_cons hok₂ (hstep k' heq)
    exact ⟨hok₃, fun _ _ => trivial⟩
  · refine ⟨(k'.setPoint .bottom).requeue, ?_, ?_⟩
    · exact (Run.run_cons rfl _).trans (Run.run_cons (hstep k' heq) _)
    · have hinv' := requeue_inv hinv rfl False.elim
      rw [requeue_none hnone] at hinv' ⊢
      constructor
      · exact ⟨_, hinv'⟩
      · rfl
      · have hheap : k'.heap = k.schedule.heap := by
          rw [hk']
          rfl
        have hcount' : k'.heap.count = 2 := by
          rw [hheap]
          omega
        exact hcount'
      · have htds' : k'.tdsCount = k.schedule.tdsCount := by
          rw [hk']
          rfl
        exact htds'.trans (k.quiet_schedule.tdsCount.trans htds)
      · have hstate : ∀ p, k'.state p = if p = c' then intrIdTimer else k.schedule.state p := by
          intro p
          rw [hk', (agree_setCurrent _ none).state]
          apply (state_setState _ c' intrIdTimer p).trans
          exact if_congr Iff.rfl rfl ((agree_storeTd _ c' ctx₀ _).state p)
        have hmap' : k'.mapTid = k.mapTid := by
          rw [hk']
          exact hmap₁
        have hready' : k.state c' = TaskState.ready :=
          (hstays.state c' hcmap).symm.trans
          (((agree_storeTd _ c' ctx₀ _).state c').symm.trans hready)
        have hnot : c' ∉ k.waiting [intrIdTimer] := by
          rw [mem_waiting, hready', List.mem_singleton]
          exact fun hmem => absurd hmem.2 (by decide)
        have hperm : (k'.waiting [intrIdTimer]).Perm (c' :: k.waiting [intrIdTimer]) := by
          obtain ⟨q₀, hcore₀⟩ := h.core
          apply (List.perm_ext_iff_of_nodup _ _).mpr
          · intro p
            rw [List.mem_cons, mem_waiting, mem_waiting, hmap', hstate]
            by_cases hpc : p = c'
            · simp [hpc, hcmap]
            · rw [if_neg hpc]
              constructor
              · rintro ⟨hp, hmem⟩
                exact Or.inr ⟨hp, (hstays.state p hp).symm ▸ hmem⟩
              · rintro (hp | ⟨hp, hmem⟩)
                · exact absurd hp hpc
                · exact ⟨hp, (hstays.state p hp).symm ▸ hmem⟩
          · rw [Kernel.waiting, hmap']
            exact hcore₀.base.ids.nodup.filter _
          · exact List.nodup_cons.mpr ⟨hnot, hcore₀.base.ids.nodup.filter _⟩
        have hlen' : (k'.waiting [intrIdTimer]).length = n + 1 := by
          rw [hperm.length_eq, List.length_cons, hlen]
        exact hlen'

/-- As many tasks as the slab of the descriptors can bear can wait for the timer. -/
theorem run_waited {n : ℕ} (hn : n + 3 ≤ tdsMax) :
  Run.Meets step PlainOk Arena.bootKernel (Run.rounds (spawn ++ await) n)
    ∧ ∃ k, Run.run step Arena.bootKernel (Run.rounds (spawn ++ await) n) = some k ∧ Waited n k
  := by
  apply Run.run_rounds
  · exact ⟨⟨fun _ => 0, Arena.booted.inv _⟩, rfl, rfl, rfl, rfl⟩
  · rintro n hlt k ⟨⟨sent, hinv⟩, hp, hcount, htds, hlen⟩
    obtain ⟨hspawn, k₁, p, hrun₁, hinv₁, hp₁, hspawned⟩ :=
      spawn_spec hinv hp (by omega) (by rw [hcount]; decide) (by omega)
    have hwait : k₁.waiting [intrIdTimer] = k.waiting [intrIdTimer] := by
      apply hspawned.stays.waiting hspawned.mapTid
      intro x hx
      rw [List.mem_singleton.mp hx, hspawned.state]
      decide
    obtain ⟨hawait, k₂, hrun₂, hwaited⟩ := await_spec hinv₁ hp₁ (by rw [hspawned.count, hcount])
      (by rw [hspawned.tds, htds]) (by rw [hwait, hlen])
    refine ⟨Run.meets_append hspawn ?_, k₂, ?_, hwaited⟩
    · intro k' hk'
      obtain rfl := Option.some.inj (hrun₁.symm.trans hk')
      exact hawait
    · rw [Run.run_append, hrun₁, Option.bind_some, hrun₂]

/-- 201 tasks wait for the timer, one after another, and the timer interrupts the next one. -/
def timerRun : List Act :=
  Run.rounds (spawn ++ await) 201 ++ [.schedule, .interrupt ctx₀ 0 [.timer]]

/-- One timer interrupt wakes up 201 tasks; they do not fit into the heap. -/
theorem kernel_not_noneLost_timer :
  Run.Meets step PlainOk Arena.bootKernel timerRun
    ∧ ∃ k', Run.run step Arena.bootKernel timerRun = some k' ∧ ¬ k'.NoneLost
  := by
  obtain ⟨has, k, hrun, ⟨sent, hinv⟩, hp, hcount, -, hlen⟩ :=
    run_waited (n := 201) (by decide)
  rw [timerRun]
  generalize Run.rounds (spawn ++ await) 201 = as at has hrun ⊢
  obtain ⟨c, hc, hcmap, hidle, hp₁, hcount₁, hmap₁, hstays⟩ := schedule_pop hinv (by omega)
  have hinv₁ := schedule_inv hinv hp
  have hok₁ : k.PlainOk .schedule := ⟨hp, trivial, trivial, trivial⟩
  have hok₂ : k.schedule.PlainOk (.interrupt ctx₀ 0 [.timer]) := ⟨hp₁, trivial, trivial, trivial⟩
  obtain ⟨c', k', ts, hc', hstep, hwoken, hts, hinv'⟩ :=
    interrupt_spec hinv₁ hp₁ ctx₀ 0 [.timer] False.elim
  obtain rfl : c' = c := Option.some.inj (hc'.symm.trans hc)
  have hwait : k.schedule.waiting (eventIds [.timer]) = k.waiting [intrIdTimer] :=
    hstays.waiting (by rw [hmap₁, List.append_nil]) (by simp)
  rw [hwait] at hts
  refine ⟨?_, k'.setPoint .bottom, ?_, ?_⟩
  · apply Run.meets_append has
    intro k₁ hk₁
    obtain rfl := Option.some.inj (hrun.symm.trans hk₁)
    apply Run.meets_cons hok₁ rfl
    exact ⟨hok₂, fun _ _ => trivial⟩
  · rw [Run.run_append, hrun, Option.bind_some]
    have hsched : k.step .schedule = some k.schedule := rfl
    exact (Run.run_cons hsched _).trans (Run.run_cons hstep _)
  · intro hlost
    obtain ⟨q₀, hcore₀⟩ := hinv.core
    obtain ⟨q', hcore'⟩ := hinv'.core
    -- every task that is woken up would have to be in the heap
    have hsub : ∀ p ∈ ts, p ∈ k'.heap.toList := by
      intro p hp
      obtain ⟨hpmap, hpstate⟩ := mem_waiting.mp ((hts p).mp hp)
      have hne : k.state p ≠ TaskState.ready := by
        rw [List.mem_singleton.mp hpstate]
        decide
      have hpmap' : p ∈ k'.mapTid := by
        rw [hwoken.mapTid]
        exact hmap₁.symm ▸ hpmap
      have hpidle : p ≠ k'.idleTask := by
        intro hpidle
        apply hne
        rw [hpidle, hwoken.idleTask]
        exact (congrArg k.state hstays.idleTask).trans hcore₀.base.lists.idle_state
      have hpready : k'.state p = TaskState.ready := by rw [hwoken.state, if_pos hp]
      obtain ⟨-, hrun⟩ | hheap | ⟨b, hb⟩ := hlost.placed p hpmap' hpidle
      · have hpc : some p = some c' := hrun.symm.trans (hwoken.current.trans hc)
        obtain rfl := Option.some.inj hpc
        have hc'ready := hinv₁.ready (by rw [hp₁]; exact Point.noConfusion) p hc
        exact absurd ((hstays.state p hcmap).symm.trans hc'ready) hne
      · exact hheap
      · have ht := (hinv'.linked.state p hpmap' b).mp hb
        have ht' : b.test (k'.state p) = true := ht
        rw [hpready, b.not_test_ready] at ht'
        cases ht'
    have hle := (List.subperm_of_subset hwoken.nodup hsub).length_le
    rw [BinHeap.length_toList] at hle
    have hlen' : ts.length = 201 := by
      rw [← hlen]
      apply List.Perm.length_eq
      apply (List.perm_ext_iff_of_nodup hwoken.nodup _).mpr hts
      exact hcore₀.base.ids.nodup.filter _
    have hcap : k'.heap.count ≤ 200 := hcore'.base.heap.count_le
    omega

end Kernel

end TrainsOs
