import TrainsOs.Kernel.Handled

/-!
# What an interrupt does

The loop of `k_intr_wakeup_tasks` walks along a list from which it takes tasks out. The
rest of the list, which starts at the node it has saved, is not affected.
-/

namespace TrainsOs

/-- The identifiers of the wake-ups are identifiers of events. -/
theorem Irq.le_of_mem_wakeups {irq : Irq} {w : ℕ × ℕ} (h : w ∈ irq.wakeups) :
  keIntrIdRangeMin ≤ w.1
  := by
  cases irq with
  | timer =>
    rw [List.mem_singleton.mp h]
    decide
  | uart status =>
    obtain ⟨id, -, rfl⟩ := List.mem_map.mp h
    rw [intrIdUart]
    apply le_trans _ (Nat.le_add_right _ _)
    decide
  | gpio => cases h

theorem Irq.le_of_mem_flatMap {irqs : List Irq} {w : ℕ × ℕ} (h : w ∈ irqs.flatMap Irq.wakeups) :
  keIntrIdRangeMin ≤ w.1
  := by
  obtain ⟨irq, -, hw⟩ := List.mem_flatMap.mp h
  exact irq.le_of_mem_wakeups hw

namespace Kernel

variable {A : Type} {cq ch : Prop} {sent : TdPtr → ℤ} {k k' k'' : Kernel A}
  {q : Blocked → List TdPtr} {F ts us : List TdPtr}

/-- The tasks `ts` have been woken up: they are ready, and nothing else has changed. -/
structure Woken (k k' : Kernel A) (ts : List TdPtr) : Prop where
  nodup : ts.Nodup
  mapTid : k'.mapTid = k.mapTid
  alloc : k'.alloc = k.alloc
  nextTid : k'.nextTid = k.nextTid
  idleTask : k'.idleTask = k.idleTask
  current : k'.current = k.current
  mem : k'.mem = k.mem
  mailbox : ∀ p, (k'.td p).mailbox = (k.td p).mailbox
  tid : ∀ p, (k'.td p).tid = (k.td p).tid
  state : ∀ p, k'.state p = if p ∈ ts then TaskState.ready else k.state p
  retval : ∀ p, p ∉ ts → (k'.td p).syscallRetval = (k.td p).syscallRetval
  count : k.heap.count + ts.length ≤ kSchedHeapCapacity →
    k'.heap.count = k.heap.count + ts.length

theorem Woken.refl (k : Kernel A) :
  Woken k k []
  := by
  constructor <;> intros <;> first | rfl | simp

theorem Woken.trans (h : Woken k k' ts) (h' : Woken k' k'' us) (hdisj : ∀ p ∈ ts, p ∉ us) :
  Woken k k'' (ts ++ us)
  := by
  constructor
  · apply List.nodup_append.mpr
    refine ⟨h.nodup, h'.nodup, ?_⟩
    rintro p hp y hy rfl
    exact hdisj p hp hy
  · exact h'.mapTid.trans h.mapTid
  · exact h'.alloc.trans h.alloc
  · exact h'.nextTid.trans h.nextTid
  · exact h'.idleTask.trans h.idleTask
  · exact h'.current.trans h.current
  · exact h'.mem.trans h.mem
  · exact fun p => (h'.mailbox p).trans (h.mailbox p)
  · exact fun p => (h'.tid p).trans (h.tid p)
  · intro p
    rw [h'.state, h.state]
    by_cases hts : p ∈ ts
    · simp [hts]
    · simp [hts]
  · intro p hp
    rw [List.mem_append, not_or] at hp
    rw [h'.retval p hp.2, h.retval p hp.1]
  · intro hroom
    rw [List.length_append] at hroom ⊢
    have hcount := h.count (by omega)
    rw [h'.count (by omega), hcount]
    omega

variable [TaskAlloc A]

/-- A round of the loop that wakes a task up. -/
theorem wakeOne (h : Core cq ch sent k q F) {p : TdPtr} (hp : p ∈ q .event) (retval : ℕ)
    (hroom : ch → k.heap.count < kSchedHeapCapacity) :
  ∃ k₁ k', k.kSchedRemoveEventWait p = some k₁
    ∧ (k₁.setRetval p (BitVec.ofNat 64 retval)).kSchedAddReady p = k'
    ∧ Woken k k' [p]
    ∧ Core cq ch sent k' (Function.update q .event ((q .event).erase p)) F
  := by
  obtain ⟨hpmap, hpF, hptest⟩ := (h.base.lists.mem_iff .event p).mp hp
  obtain ⟨l, hd, hrem, hbase⟩ := h.base.removeWait hp
  let k₂ := (k.relink l hd).setRetval p (BitVec.ofNat 64 retval)
  have hagree : Agree (k.relink l hd) k₂ := agree_setRetval _ p _
  have hcore : Core cq ch sent k₂ (Function.update q .event ((q .event).erase p)) (p :: F) := by
    constructor
    · exact hbase.congr hagree
    · have hsame := (sameQueues_relink k l hd).trans hagree.sameQueues
      have hqueues : k.Queues cq sent (Function.update q .event ((q .event).erase p)) :=
        h.queues.mono rfl fun x hx => Or.inl hx
      exact hqueues.congr hsame
  refine ⟨_, _, hrem, rfl, ?_, hcore.addReady hpF hroom⟩
  constructor
  · exact List.nodup_singleton p
  · exact k₂.kSchedAddReady_mapTid p
  · exact k₂.kSchedAddReady_alloc p
  · exact k₂.kSchedAddReady_nextTid p
  · exact k₂.kSchedAddReady_idleTask p
  · exact k₂.kSchedAddReady_current p
  · exact k₂.kSchedAddReady_mem p
  · intro x
    apply (k₂.mailbox_kSchedAddReady p x).trans
    exact mailbox_modify (k.relink l hd) p rfl x
  · intro x
    exact (k₂.tid_kSchedAddReady p x).trans (hagree.tid x)
  · intro x
    apply (k₂.state_kSchedAddReady p x).trans
    exact if_congr List.mem_singleton.symm rfl (hagree.state x)
  · intro x hx
    rw [List.mem_singleton] at hx
    apply (k₂.retval_kSchedAddReady p x).trans
    exact congrArg TaskDsp.syscallRetval ((modify_td _ p _ x).trans (if_neg hx))
  · intro hcount
    apply count_kSchedAddReady
    exact hcount.trans_eq h.base.heap.capacity.symm

/-- The loop from a node of the list on. The induction is on the rest of the list, which
the tasks that are taken out in front of it do not change. -/
theorem wakeupLoop_spec {intrId : ℕ} (retval : ℕ) (h : Core cq ch sent k q F)
    (as es : List TdPtr) (hq : q .event = as ++ es) {fuel : ℕ} (hfuel : es.length ≤ fuel) (n : ℕ)
    (hroom : ch →
      k.heap.count + (es.filter fun p => k.state p = intrId).length ≤ kSchedHeapCapacity) :
  ∃ k' n' q', wakeupLoop intrId retval fuel k es.head? n = some (k', n')
    ∧ Woken k k' (es.filter fun p => k.state p = intrId)
    ∧ Core cq ch sent k' q' F
  := by
  induction es generalizing k q as fuel n with
  | nil => exact ⟨k, n, q, by cases fuel <;> rfl, Woken.refl k, h⟩
  | cons p es ih =>
    obtain _ | fuel := fuel
    · cases hfuel
    have hfuel : es.length ≤ fuel := Nat.le_of_succ_le_succ hfuel
    have hnext : k.links.next p = es.head? := (h.base.lists.forest.list .event).next_eq as p es hq
    have hnodup := (h.base.lists.forest.list .event).nodup
    rw [hq] at hnodup
    by_cases hp : k.state p = intrId
    · have hmem : p ∈ q .event := by
        rw [hq]
        exact List.mem_append_right _ List.mem_cons_self
      rw [List.filter_cons_of_pos (by simpa using hp), List.length_cons] at hroom
      obtain ⟨k₁, k₂, hrem, hadd, hwoken, hcore⟩ := wakeOne h hmem retval fun hch => by
        have := hroom hch
        omega
      have hpes : p ∉ es := (List.nodup_cons.mp (List.nodup_append.mp hnodup).2.1).1
      have hpas : p ∉ as := by
        intro hpas
        exact (List.nodup_append.mp hnodup).2.2 p hpas p List.mem_cons_self rfl
      have herase : (q .event).erase p = as ++ es := by
        rw [hq, List.erase_append_right _ hpas, List.erase_cons_head]
      have hfilter : (es.filter fun x => k₂.state x = intrId)
          = es.filter fun x => k.state x = intrId := by
        apply List.filter_congr
        intro x hx
        rw [hwoken.state, if_neg]
        rw [List.mem_singleton]
        exact ne_of_mem_of_not_mem hx hpes
      have hcount := hwoken.count
      obtain ⟨k', n', q', hloop, hwoken', hcore'⟩ := ih hcore as
        (by rw [Function.update_self, herase]) hfuel ((n + 1) % 2 ^ 8) (by
          intro hch
          have hle := hroom hch
          rw [hfilter, hcount (by rw [List.length_singleton]; omega), List.length_singleton]
          omega)
      rw [hfilter] at hwoken'
      refine ⟨k', n', q', ?_, ?_, hcore'⟩
      · rw [List.head?_cons]
        unfold wakeupLoop
        rw [hnext]
        apply (if_pos hp).trans
        rw [hrem]
        refine Eq.trans ?_ hloop
        rw [← hadd]
        rfl
      · rw [List.filter_cons_of_pos (by simpa using hp)]
        apply hwoken.trans hwoken'
        intro x hx hx'
        rw [List.mem_singleton.mp hx] at hx'
        exact hpes (List.mem_of_mem_filter hx')
    · rw [List.filter_cons_of_neg (by simpa using hp)] at hroom ⊢
      obtain ⟨k', n', q', hloop, hwoken, hcore⟩ :=
        ih h (as ++ [p]) (by simpa using hq) hfuel n hroom
      refine ⟨k', n', q', ?_, hwoken, hcore⟩
      rw [List.head?_cons]
      unfold wakeupLoop
      rw [hnext]
      exact (if_neg hp).trans hloop

/-- The tasks that wait for one of the events `ids`. -/
def waiting (k : Kernel A) (ids : List ℕ) : List TdPtr :=
  k.mapTid.filter fun p => k.state p ∈ ids

omit [TaskAlloc A] in
theorem mem_waiting {ids : List ℕ} {p : TdPtr} :
  p ∈ k.waiting ids ↔ p ∈ k.mapTid ∧ k.state p ∈ ids
  := by simp [waiting]

/-- No floating task waits for one of the events. -/
def Attentive (k : Kernel A) (F : List TdPtr) (ids : List ℕ) : Prop :=
  ∀ p ∈ F, k.state p ∉ ids

/-- Waking up all tasks that wait for an event. -/
theorem kIntrWakeupTasks_spec {intrId : ℕ} (retval : ℕ) (hid : keIntrIdRangeMin ≤ intrId)
    (h : Core cq ch sent k q F) (hF : k.Attentive F [intrId])
    (hroom : ch → k.heap.count + (k.waiting [intrId]).length ≤ kSchedHeapCapacity) :
  ∃ k' n' ts q', k.kIntrWakeupTasks intrId retval = some (k', n') ∧ Woken k k' ts
    ∧ (∀ p, p ∈ ts ↔ p ∈ k.waiting [intrId])
    ∧ Core cq ch sent k' q' F
  := by
  have hmem : ∀ p, p ∈ (q .event).filter (fun p => k.state p = intrId)
      ↔ p ∈ k.waiting [intrId] := by
    intro p
    rw [List.mem_filter, h.base.lists.mem_iff, mem_waiting, List.mem_singleton,
      decide_eq_true_eq]
    constructor
    · rintro ⟨⟨hp, -, -⟩, hstate⟩
      exact ⟨hp, hstate⟩
    · rintro ⟨hp, hstate⟩
      refine ⟨⟨hp, ?_, ?_⟩, hstate⟩
      · intro hpF
        exact hF p hpF (List.mem_singleton.mpr hstate)
      · rw [hstate]
        simpa [Blocked.test] using hid
  have hnodup := (h.base.lists.forest.list .event).nodup
  have hsub : (q .event).length ≤ k.mapTid.length := by
    apply (List.subperm_of_subset hnodup _).length_le
    intro p hp
    exact ((h.base.lists.mem_iff .event p).mp hp).1
  have hlen : ((q .event).filter fun p => k.state p = intrId).length
      ≤ (k.waiting [intrId]).length := by
    apply (List.subperm_of_subset (hnodup.filter _) _).length_le
    intro p hp
    exact (hmem p).mp hp
  obtain ⟨k', n', q', hloop, hwoken, hcore⟩ := wakeupLoop_spec retval h [] (q .event) rfl hsub 0
    fun hch => (Nat.add_le_add_left hlen _).trans (hroom hch)
  refine ⟨k', n', _, q', ?_, hwoken, hmem, hcore⟩
  rw [kIntrWakeupTasks, (h.base.lists.forest.list .event).head_eq]
  exact hloop

/-- All wake-ups of an interrupt. -/
theorem wakeupAll_spec (ws : List (ℕ × ℕ)) (hids : ∀ w ∈ ws, keIntrIdRangeMin ≤ w.1)
    (h : Core cq ch sent k q F) (hF : k.Attentive F (ws.map Prod.fst))
    (hroom : ch → k.heap.count + (k.waiting (ws.map Prod.fst)).length ≤ kSchedHeapCapacity) :
  ∃ k' ts q', k.wakeupAll ws = some k' ∧ Woken k k' ts
    ∧ (∀ p, p ∈ ts ↔ p ∈ k.waiting (ws.map Prod.fst))
    ∧ Core cq ch sent k' q' F
  := by
  induction ws generalizing k q with
  | nil =>
    refine ⟨k, [], q, rfl, Woken.refl k, ?_, h⟩
    intro p
    simp [mem_waiting]
  | cons w ws ih =>
    obtain ⟨intrId, retval⟩ := w
    rw [List.map_cons] at hF hroom ⊢
    dsimp only at hF hroom ⊢
    have hid : keIntrIdRangeMin ≤ intrId := hids _ List.mem_cons_self
    have hsub : ∀ p, p ∈ k.waiting [intrId] → p ∈ k.waiting (intrId :: ws.map Prod.fst) := by
      intro p hp
      rw [mem_waiting, List.mem_singleton] at hp
      rw [mem_waiting, List.mem_cons]
      exact ⟨hp.1, Or.inl hp.2⟩
    have hone : (k.waiting [intrId]).length
        ≤ (k.waiting (intrId :: ws.map Prod.fst)).length := by
      apply (List.subperm_of_subset (h.base.ids.nodup.filter _) _).length_le
      intro p hp
      exact hsub p hp
    obtain ⟨k₁, n, ts, q₁, hcall, hwoken, hts, hcore⟩ := kIntrWakeupTasks_spec retval hid h
      (fun p hp hmem => hF p hp (List.mem_cons.mpr (Or.inl (List.mem_singleton.mp hmem))))
      fun hch => (Nat.add_le_add_left hone _).trans (hroom hch)
    have hready : TaskState.ready ∉ ws.map Prod.fst := by
      intro hmem
      obtain ⟨w, hw, hw'⟩ := List.mem_map.mp hmem
      have hle := hids w (List.mem_cons_of_mem _ hw)
      rw [hw'] at hle
      exact absurd hle (by decide)
    have hrest : ∀ p, p ∈ k₁.waiting (ws.map Prod.fst)
        ↔ p ∈ k.waiting (ws.map Prod.fst) ∧ p ∉ ts := by
      intro p
      rw [mem_waiting, mem_waiting, hwoken.mapTid, hwoken.state]
      by_cases hp : p ∈ ts
      · simp [hp, hready]
      · simp [hp]
    have hF₁ : k₁.Attentive F (ws.map Prod.fst) := by
      intro p hp hmem
      rw [hwoken.state] at hmem
      split at hmem
      · exact hready hmem
      · exact hF p hp (List.mem_cons_of_mem _ hmem)
    -- the tasks woken up and those still to be woken up are the ones counted at first
    have hboth : ts.length + (k₁.waiting (ws.map Prod.fst)).length
        ≤ (k.waiting (intrId :: ws.map Prod.fst)).length := by
      rw [← List.length_append]
      apply List.Subperm.length_le
      apply List.subperm_of_subset
      · apply List.nodup_append.mpr
        refine ⟨hwoken.nodup, hcore.base.ids.nodup.filter _, ?_⟩
        rintro p hp y hy rfl
        exact ((hrest p).mp hy).2 hp
      · intro p hp
        obtain hp | hp := List.mem_append.mp hp
        · exact hsub p ((hts p).mp hp)
        · have hp := mem_waiting.mp ((hrest p).mp hp).1
          exact mem_waiting.mpr ⟨hp.1, List.mem_cons_of_mem _ hp.2⟩
    obtain ⟨k', us, q', hall, hwoken', hus, hcore'⟩ := ih
      (fun w hw => hids w (List.mem_cons_of_mem _ hw)) hcore hF₁ (by
        intro hch
        have hle := hroom hch
        rw [hwoken.count (by omega)]
        omega)
    refine ⟨k', ts ++ us, q', ?_, hwoken.trans hwoken' ?_, ?_, hcore'⟩
    · rw [wakeupAll, hcall]
      exact hall
    · intro p hp hp'
      exact ((hrest p).mp ((hus p).mp hp')).2 hp
    · intro p
      rw [List.mem_append, hus, hrest, hts, mem_waiting, mem_waiting, mem_waiting,
        List.mem_singleton, List.mem_cons]
      tauto

/-- The identifiers of the events of an interrupt. -/
def eventIds (irqs : List Irq) : List ℕ :=
  (irqs.flatMap Irq.wakeups).map Prod.fst

theorem le_of_mem_eventIds {irqs : List Irq} {id : ℕ} (h : id ∈ eventIds irqs) :
  keIntrIdRangeMin ≤ id
  := by
  obtain ⟨w, hw, rfl⟩ := List.mem_map.mp h
  exact Irq.le_of_mem_flatMap hw

/-- An interrupt wakes up exactly the tasks that wait for one of its events. -/
theorem kIntrHandler_spec (irqs : List Irq) (h : Core cq ch sent k q F)
    (hF : ∀ p ∈ F, k.state p = TaskState.ready)
    (hroom : ch → k.heap.count + (k.waiting (eventIds irqs)).length ≤ kSchedHeapCapacity) :
  ∃ k' ts q', k.kIntrHandler irqs = some k' ∧ Woken k k' ts
    ∧ (∀ p, p ∈ ts ↔ p ∈ k.waiting (eventIds irqs))
    ∧ Core cq ch sent k' q' F
  := by
  apply wakeupAll_spec _ (fun _ => Irq.le_of_mem_flatMap) h _ hroom
  intro p hp hmem
  have hle := le_of_mem_eventIds hmem
  rw [hF p hp] at hle
  exact absurd hle (by decide)

end Kernel

end TrainsOs
