import TrainsOs.Kernel.Preempted
import TrainsOs.Kernel.ReadyQueue

/-!
# The ready heap over a run

The heap stays in heap order: the key of a task is set when the task is inserted, and
nothing changes the key of a task that is in the heap. So the scheduler is strict: what it
returns has a smallest key of all tasks that are ready. And of two tasks the one that was
inserted later has the greater insertion value, as long as the counter of the insertions
has not come round.
-/

namespace TrainsOs

namespace Kernel

variable {A : Type} {k k' k'' : Kernel A} {p r c : TdPtr} {ts us : List TdPtr}

/-- The number of calls of `k_sched_add_ready`. -/
def readies (k : Kernel A) : ℕ :=
  k.log.countP fun
    | .ready _ => true
    | .next _ => false

/-- The heap is in heap order, and the insertion values are below the counter. -/
structure Sorted (k : Kernel A) : Prop where
  ordered : BinHeap.Ordered k.keyLt k.heap k.heap.count
  counted : k.readies < 2 ^ 64 → k.insertions ≤ k.readies
  older : k.readies < 2 ^ 64 → ∀ p ∈ k.heap.toList, (k.td p).insertVal < k.insertions

/-! ### What keeps the keys -/

/-- The two kernels agree on the heap, on the keys and on who is who. -/
structure SameKeys (k k' : Kernel A) : Prop where
  heap : k'.heap = k.heap
  insertions : k'.insertions = k.insertions
  log : k'.log = k.log
  tid : ∀ p, (k'.td p).tid = (k.td p).tid
  priority : ∀ p, (k'.td p).priority = (k.td p).priority
  insertVal : ∀ p, (k'.td p).insertVal = (k.td p).insertVal

theorem SameKeys.trans (h : SameKeys k k') (h' : SameKeys k' k'') :
  SameKeys k k''
  := by
  constructor
  · exact h'.heap.trans h.heap
  · exact h'.insertions.trans h.insertions
  · exact h'.log.trans h.log
  · exact fun p => (h'.tid p).trans (h.tid p)
  · exact fun p => (h'.priority p).trans (h.priority p)
  · exact fun p => (h'.insertVal p).trans (h.insertVal p)

theorem sameKeys_modify (k : Kernel A) (p : TdPtr) {f : TaskDsp → TaskDsp}
    (htid : (f (k.td p)).tid = (k.td p).tid)
    (hpriority : (f (k.td p)).priority = (k.td p).priority)
    (hinsertVal : (f (k.td p)).insertVal = (k.td p).insertVal) :
  SameKeys k (k.modify p f)
  := by
  constructor <;> try rfl
  all_goals
    intro x
    rw [modify_td]
    split
    · rename_i hx
      subst hx
      assumption
    · rfl

/-- Changing nothing that the scheduler looks at. -/
theorem sameKeys_of_td (hheap : k'.heap = k.heap) (hinsertions : k'.insertions = k.insertions)
    (hlog : k'.log = k.log) (htd : k'.td = k.td) :
  SameKeys k k'
  := ⟨hheap, hinsertions, hlog, fun _ => by rw [htd], fun _ => by rw [htd], fun _ => by rw [htd]⟩

theorem sameKeys_setRetval (k : Kernel A) (p : TdPtr) (v : BitVec 64) :
  SameKeys k (k.setRetval p v)
  := k.sameKeys_modify p rfl rfl rfl

theorem sameKeys_setState (k : Kernel A) (p : TdPtr) (s : ℕ) :
  SameKeys k (k.setState p s)
  := k.sameKeys_modify p rfl rfl rfl

theorem sameKeys_storeTd (k : Kernel A) (p : TdPtr) (ctx : Ctx) (esrEl1 : ℕ) :
  SameKeys k (k.storeTd p ctx esrEl1)
  := k.sameKeys_modify p rfl rfl rfl

theorem sameKeys_modifyMailbox (k : Kernel A) (p : TdPtr) (f : Mailbox → Mailbox) :
  SameKeys k (k.modifyMailbox p f)
  := k.sameKeys_modify p rfl rfl rfl

theorem sameKeys_modifyMem (k : Kernel A) (p : TdPtr) (f : UserMem → UserMem) :
  SameKeys k (k.modifyMem p f)
  := sameKeys_of_td rfl rfl rfl rfl

theorem sameKeys_relink (k : Kernel A) (l : DList.Links TdPtr) (hd : Blocked → Option TdPtr) :
  SameKeys k (k.relink l hd)
  := sameKeys_of_td rfl rfl rfl rfl

theorem sameKeys_setCurrent (k : Kernel A) (p : Option TdPtr) :
  SameKeys k (k.setCurrent p)
  := sameKeys_of_td rfl rfl rfl rfl

theorem sameKeys_setPoint (k : Kernel A) (p : Point) :
  SameKeys k (k.setPoint p)
  := sameKeys_of_td rfl rfl rfl rfl

theorem sameKeys_deliver (k : Kernel A) (r s : TdPtr) :
  SameKeys k (k.deliver r s)
  := ((k.sameKeys_modifyMem r _).trans (sameKeys_modifyMem _ r _)).trans
    (sameKeys_setRetval _ r _)

theorem sameKeys_answer (k : Kernel A) (c r : TdPtr) (reply rplen : ℕ) :
  SameKeys k (k.answer c r reply rplen)
  := by
  rw [answer]
  exact ((k.sameKeys_setRetval r _).trans (sameKeys_setRetval _ c _)).trans
    (sameKeys_modifyMem _ r _)

theorem SameKeys.readies (h : SameKeys k k') :
  k'.readies = k.readies
  := by rw [Kernel.readies, Kernel.readies, h.log]

theorem SameKeys.keyLt (h : SameKeys k k') :
  k'.keyLt = k.keyLt
  := by
  funext x y
  simp only [Kernel.keyLt, h.priority, h.insertVal]

theorem SameKeys.sorted (h : SameKeys k k') (hs : k.Sorted) :
  k'.Sorted
  := by
  constructor
  · rw [h.keyLt, h.heap]
    exact hs.ordered
  · rw [h.readies, h.insertions]
    exact hs.counted
  · rw [h.readies, h.insertions, h.heap]
    intro hlt p hp
    rw [h.insertVal]
    exact hs.older hlt p hp

/-! ### What is inserted -/

/-- Of the tasks `ts` some were inserted into the heap; the order of the others is as
before. -/
structure Enqueues (k k' : Kernel A) (ts : List TdPtr) : Prop where
  tid : ∀ p, p ∈ k.mapTid ∨ p ∉ ts → (k'.td p).tid = (k.td p).tid
  priority : ∀ p, p ∈ k.mapTid ∨ p ∉ ts → (k'.td p).priority = (k.td p).priority
  old : ∀ p ∈ k.heap.toList, p ∈ k'.heap.toList ∧ (k'.td p).insertVal = (k.td p).insertVal
  new : ∀ p ∈ k'.heap.toList, p ∈ k.heap.toList
    ∨ (p ∈ ts ∧ (k'.readies < 2 ^ 64 → k.insertions ≤ (k'.td p).insertVal))
  readies : k.readies ≤ k'.readies
  insertions : k'.readies < 2 ^ 64 → k.insertions ≤ k'.insertions
  sorted : k'.Sorted

theorem SameKeys.enqueues (h : SameKeys k k') (hs : k.Sorted) :
  Enqueues k k' []
  := by
  constructor
  · exact fun p _ => h.tid p
  · exact fun p _ => h.priority p
  · intro p hp
    rw [h.heap]
    exact ⟨hp, h.insertVal p⟩
  · intro p hp
    rw [h.heap] at hp
    exact Or.inl hp
  · rw [h.readies]
  · intro _
    rw [h.insertions]
  · exact h.sorted hs

theorem Enqueues.trans (h : Enqueues k k' ts) (h' : Enqueues k' k'' us)
    (hmap : k'.mapTid = k.mapTid) :
  Enqueues k k'' (ts ++ us)
  := by
  have hright : ∀ {p}, p ∈ k.mapTid ∨ p ∉ ts ++ us → p ∈ k'.mapTid ∨ p ∉ us := by
    intro p hp
    rw [List.mem_append, not_or] at hp
    exact hp.imp (fun hp => hmap ▸ hp) And.right
  have hleft : ∀ {p}, p ∈ k.mapTid ∨ p ∉ ts ++ us → p ∈ k.mapTid ∨ p ∉ ts := by
    intro p hp
    rw [List.mem_append, not_or] at hp
    exact hp.imp_right And.left
  constructor
  · exact fun p hp => (h'.tid p (hright hp)).trans (h.tid p (hleft hp))
  · exact fun p hp => (h'.priority p (hright hp)).trans (h.priority p (hleft hp))
  · intro p hp
    obtain ⟨hp', hval⟩ := h.old p hp
    obtain ⟨hp'', hval'⟩ := h'.old p hp'
    exact ⟨hp'', hval'.trans hval⟩
  · intro p hp
    obtain hp' | ⟨hus, hlt⟩ := h'.new p hp
    · obtain hp'' | ⟨hts, hlt⟩ := h.new p hp'
      · exact Or.inl hp''
      · right
        use List.mem_append_left _ hts
        intro hr
        rw [(h'.old p hp').2]
        exact hlt (h'.readies.trans_lt hr)
    · right
      use List.mem_append_right _ hus
      intro hr
      exact (h.insertions (h'.readies.trans_lt hr)).trans (hlt hr)
  · exact h.readies.trans h'.readies
  · intro hr
    exact (h.insertions (h'.readies.trans_lt hr)).trans (h'.insertions hr)
  · exact h'.sorted

/-- A change that keeps the keys, then insertions, then another such change. -/
theorem Enqueues.between (h : Enqueues k' k'' ts) (hk : SameKeys k k')
    (hmap : k'.mapTid = k.mapTid) {k₃ : Kernel A} (hk' : SameKeys k'' k₃) :
  Enqueues k k₃ ts
  := by
  constructor
  · intro p hp
    rw [hk'.tid, h.tid p (hp.imp_left fun hp => hmap ▸ hp), hk.tid]
  · intro p hp
    rw [hk'.priority, h.priority p (hp.imp_left fun hp => hmap ▸ hp), hk.priority]
  · intro p hp
    rw [← hk.heap] at hp
    obtain ⟨hmem, hval⟩ := h.old p hp
    rw [hk'.heap, hk'.insertVal, hval, hk.insertVal]
    exact ⟨hmem, rfl⟩
  · intro p hp
    rw [hk'.heap] at hp
    rw [hk'.readies, hk'.insertVal, ← hk.insertions, ← hk.heap]
    exact h.new p hp
  · rw [hk'.readies, ← hk.readies]
    exact h.readies
  · rw [hk'.readies, hk'.insertions, ← hk.insertions]
    exact h.insertions
  · exact hk'.sorted h.sorted

theorem readies_kSchedAddReady (k : Kernel A) (p : TdPtr) :
  (k.kSchedAddReady p).readies = k.readies + 1
  := by
  apply k.kSchedAddReady_of p (P := fun k' => k'.readies = k.readies + 1)
  intro n heap m
  rw [readies, readied, putHeap, List.countP_append]
  rfl

theorem enqueues_room (hs : k.Sorted) (hp : p ∉ k.heap.toList)
    (hroom : k.heap.count < k.heap.capacity) :
  Enqueues k (k.kSchedAddReady p) [p]
  := by
  have hreadies := k.readies_kSchedAddReady p
  have heq := kSchedAddReady_room p hroom
  generalize k.kSchedAddReady p = k' at *
  have htd : ∀ x, k'.td x = if x = p then readyDsp k.insertions (k.td p) else k.td x := by
    intro x
    rw [heq]
    exact k.modify_td p _ x
  have hold : ∀ x ∈ k.heap.toList, k'.td x = k.td x := by
    intro x hx
    rw [htd, if_neg (ne_of_mem_of_not_mem hx hp)]
  have hheap : k'.heap = k.heap.insert k'.keyLt p := by
    rw [heq]
    rfl
  have hmem : ∀ x, x ∈ k'.heap.toList ↔ x = p ∨ x ∈ k.heap.toList := by
    intro x
    rw [hheap]
    have hperm : (k.heap.insert k'.keyLt p).toList.Perm (p :: k.heap.toList) :=
      (BinHeap.insert_spec p hroom).1
    exact hperm.mem_iff.trans List.mem_cons
  -- while the calls are fewer than the values of the counter it has not come round
  have hins : k'.readies < 2 ^ 64 → k'.insertions = k.insertions + 1 := by
    intro hlt
    have hle := hs.counted (by omega)
    rw [heq]
    exact Nat.mod_eq_of_lt (by omega)
  have hkeeps : ∀ x, (k'.td x).tid = (k.td x).tid ∧ (k'.td x).priority = (k.td x).priority := by
    intro x
    rw [htd]
    split
    · rename_i hx
      rw [hx]
      exact ⟨rfl, rfl⟩
    · exact ⟨rfl, rfl⟩
  constructor
  · exact fun x _ => (hkeeps x).1
  · exact fun x _ => (hkeeps x).2
  · intro x hx
    use (hmem x).mpr (Or.inr hx)
    rw [hold x hx]
  · intro x hx
    obtain rfl | hx := (hmem x).mp hx
    · right
      refine ⟨List.mem_singleton_self x, fun _ => ?_⟩
      rw [htd, if_pos rfl]
      exact Nat.le_refl _
    · exact Or.inl hx
  · rw [hreadies]
    exact Nat.le_succ _
  · intro hlt
    rw [hins hlt]
    exact Nat.le_succ _
  · constructor
    · rw [hheap]
      apply BinHeap.insert_ordered (keyLt_weakOrder _)
      have hne : ∀ i < k.heap.count, k.heap.array i ≠ p := by
        rintro i hi rfl
        exact hp (List.mem_map_of_mem (List.mem_range.mpr hi))
      apply hs.ordered.congr fun _ _ => rfl
      intro i hi j hj
      simp only [keyLt, htd, if_neg (hne i hi), if_neg (hne j hj)]
    · intro hlt
      rw [hins hlt, hreadies]
      exact Nat.succ_le_succ (hs.counted (by omega))
    · intro hlt x hx
      rw [hins hlt]
      obtain rfl | hx := (hmem x).mp hx
      · rw [htd, if_pos rfl]
        exact Nat.lt_succ_self _
      · rw [hold x hx]
        exact (hs.older (by omega) x hx).trans (Nat.lt_succ_self _)

theorem enqueues_full (hs : k.Sorted) (p : TdPtr) (hfull : ¬ k.heap.count < k.heap.capacity) :
  Enqueues k (k.kSchedAddReady p) []
  := by
  have hreadies := k.readies_kSchedAddReady p
  have heq := kSchedAddReady_full p hfull
  generalize k.kSchedAddReady p = k' at *
  have hkeys : ∀ x, (k'.td x).tid = (k.td x).tid ∧ (k'.td x).priority = (k.td x).priority
      ∧ (k'.td x).insertVal = (k.td x).insertVal := by
    intro x
    rw [heq, readied, putHeap, modify_td]
    split
    · rename_i hx
      rw [hx]
      exact ⟨rfl, rfl, rfl⟩
    · exact ⟨rfl, rfl, rfl⟩
  have hheap : k'.heap = k.heap := by
    rw [heq]
    rfl
  have hins : k'.insertions = k.insertions := by
    rw [heq]
    rfl
  constructor
  · exact fun x _ => (hkeys x).1
  · exact fun x _ => (hkeys x).2.1
  · intro x hx
    rw [hheap]
    exact ⟨hx, (hkeys x).2.2⟩
  · intro x hx
    rw [hheap] at hx
    exact Or.inl hx
  · rw [hreadies]
    exact Nat.le_succ _
  · intro _
    rw [hins]
  · constructor
    · rw [hheap]
      apply hs.ordered.congr fun _ _ => rfl
      intro i _ j _
      simp only [keyLt, hkeys]
    · intro hlt
      rw [hins, hreadies]
      exact (hs.counted (by omega)).trans (Nat.le_succ _)
    · intro hlt x hx
      rw [hheap] at hx
      rw [(hkeys x).2.2, hins]
      exact hs.older (by omega) x hx

theorem Enqueues.mono (h : Enqueues k k' ts) (hsub : ∀ p ∈ ts, p ∈ us) :
  Enqueues k k' us
  := by
  have hout : ∀ {p}, p ∈ k.mapTid ∨ p ∉ us → p ∈ k.mapTid ∨ p ∉ ts :=
    fun hp => hp.imp_right fun hp hts => hp (hsub _ hts)
  constructor
  · exact fun p hp => h.tid p (hout hp)
  · exact fun p hp => h.priority p (hout hp)
  · exact h.old
  · exact fun p hp => (h.new p hp).imp_right (And.imp_left (hsub p))
  · exact h.readies
  · exact h.insertions
  · exact h.sorted

/-- Making a task ready that is not in the heap. -/
theorem enqueues_kSchedAddReady (hs : k.Sorted) (hp : p ∉ k.heap.toList) :
  Enqueues k (k.kSchedAddReady p) [p]
  := by
  by_cases hroom : k.heap.count < k.heap.capacity
  · exact enqueues_room hs hp hroom
  · exact (enqueues_full hs p hroom).mono fun x hx => by cases hx

/-! ### Interrupts -/

/-- A round of the loop of `k_intr_wakeup_tasks` that wakes a task up. -/
theorem enqueues_wake (hs : k.Sorted) (hp : p ∉ k.heap.toList)
    (hrem : k.kSchedRemoveEventWait p = some k') (v : BitVec 64) :
  Enqueues k ((k'.setRetval p v).kSchedAddReady p) [p]
    ∧ ((k'.setRetval p v).kSchedAddReady p).mapTid = k.mapTid
  := by
  obtain ⟨l, hd, rfl⟩ := removeWait_eq hrem
  have hkeys : SameKeys k ((k.relink l hd).setRetval p v) :=
    (k.sameKeys_relink l hd).trans (sameKeys_setRetval _ p v)
  have hadd := enqueues_kSchedAddReady (hkeys.sorted hs) (p := p) (by rwa [hkeys.heap])
  exact ⟨hadd.between hkeys rfl (sameKeys_of_td rfl rfl rfl rfl), kSchedAddReady_mapTid _ p⟩

/-- The ready tasks in the heap are not waiting for an event. -/
def HeapReady (k : Kernel A) : Prop :=
  ∀ p ∈ k.heap.toList, k.state p = TaskState.ready

theorem HeapReady.enqueues (h : k.HeapReady) (he : Enqueues k k' ts)
    (hready : ∀ p ∈ ts, k'.state p = TaskState.ready)
    (hstate : ∀ p, p ∉ ts → k'.state p = k.state p) :
  k'.HeapReady
  := by
  intro p hp
  by_cases hts : p ∈ ts
  · exact hready p hts
  · rw [hstate p hts]
    obtain hp | hp := he.new p hp
    · exact h p hp
    · exact absurd hp.1 hts

/-- The loop inserts tasks that wait for the event. -/
theorem enqueues_wakeupLoop {intrId retval fuel n n' : ℕ} {td : Option TdPtr}
    (hid : intrId ≠ TaskState.ready) (hs : k.Sorted) (hheap : k.HeapReady)
    (h : wakeupLoop intrId retval fuel k td n = some (k', n')) :
  ∃ ts, Enqueues k k' ts ∧ (∀ p ∈ ts, k.state p = intrId) ∧ k'.HeapReady
    ∧ k'.mapTid = k.mapTid
  := by
  induction fuel generalizing k td n with
  | zero =>
    cases td with
    | none =>
      simp only [wakeupLoop, Option.some.injEq, Prod.mk.injEq] at h
      obtain ⟨rfl, -⟩ := h
      exact ⟨[], (sameKeys_of_td rfl rfl rfl rfl).enqueues hs, by simp, hheap, rfl⟩
    | some td => cases h
  | succ fuel ih =>
    cases td with
    | none =>
      simp only [wakeupLoop, Option.some.injEq, Prod.mk.injEq] at h
      obtain ⟨rfl, -⟩ := h
      exact ⟨[], (sameKeys_of_td rfl rfl rfl rfl).enqueues hs, by simp, hheap, rfl⟩
    | some td =>
      unfold wakeupLoop at h
      by_cases htd : (k.td td).state = intrId
      · rw [if_pos htd] at h
        obtain ⟨k₁, hrem, h⟩ := Option.bind_eq_some_iff.mp h
        have hfree : td ∉ k.heap.toList := by
          intro hmem
          exact hid (htd.symm.trans (hheap td hmem))
        obtain ⟨hone, hmap⟩ := enqueues_wake hs hfree hrem (BitVec.ofNat 64 retval)
        have hstate : ∀ x, ((k₁.setRetval td (BitVec.ofNat 64 retval)).kSchedAddReady td).state x
            = if x = td then TaskState.ready else k.state x := by
          intro x
          rw [state_kSchedAddReady]
          split
          · rfl
          · rename_i hx
            exact ((spared_removeWait hrem x).trans (spared_setRetval _ hx _)).state
        have hheap₂ := hheap.enqueues hone
          (fun x hx => by rw [hstate, if_pos (List.mem_singleton.mp hx)])
          (fun x hx => by rw [hstate, if_neg (List.mem_singleton.not.mp hx)])
        obtain ⟨ts, hrest, hts, hheap', hmap'⟩ := ih hone.sorted hheap₂ h
        refine ⟨td :: ts, hone.trans hrest hmap, ?_, hheap', hmap'.trans hmap⟩
        intro x hx
        obtain rfl | hx := List.mem_cons.mp hx
        · exact htd
        · have hx' := hts x hx
          rw [hstate] at hx'
          split at hx'
          · exact absurd hx'.symm hid
          · exact hx'
      · rw [if_neg htd] at h
        exact ih hs hheap h

/-- An interrupt inserts tasks that wait for one of its events. -/
theorem enqueues_wakeupAll {ws : List (ℕ × ℕ)} (hids : ∀ w ∈ ws, keIntrIdRangeMin ≤ w.1)
    (hs : k.Sorted) (hheap : k.HeapReady) (h : k.wakeupAll ws = some k') :
  ∃ ts, Enqueues k k' ts ∧ (∀ p ∈ ts, k.state p ∈ ws.map Prod.fst)
    ∧ k'.mapTid = k.mapTid
  := by
  have hready : ∀ n, keIntrIdRangeMin ≤ n → n ≠ TaskState.ready := by
    rintro n hn rfl
    exact absurd hn (by decide)
  induction ws generalizing k with
  | nil =>
    obtain rfl := Option.some.inj h
    exact ⟨[], (sameKeys_of_td rfl rfl rfl rfl).enqueues hs, by simp, rfl⟩
  | cons w ws ih =>
    rw [wakeupAll] at h
    obtain ⟨⟨k₁, n⟩, hloop, h⟩ := Option.bind_eq_some_iff.mp h
    obtain ⟨ts, hone, hts, hheap₁, hmap⟩ := enqueues_wakeupLoop
      (hready _ (hids w List.mem_cons_self)) hs hheap hloop
    obtain ⟨us, hrest, hus, hmap'⟩ := ih (fun w' hw' => hids w' (List.mem_cons_of_mem w hw'))
      hone.sorted hheap₁ h
    refine ⟨ts ++ us, hone.trans hrest hmap, ?_, hmap'.trans hmap⟩
    intro p hp
    rw [List.map_cons, List.mem_cons]
    by_cases hw : k.state p = w.1
    · exact Or.inl hw
    · right
      obtain hp | hp := List.mem_append.mp hp
      · exact absurd (hts p hp) hw
      · rw [← (spared_wakeupLoop hw hloop).state]
        exact hus p hp

/-! ### System calls -/

/-- The task is not one of those that wait for their turn. -/
def Unready (k : Kernel A) (p : TdPtr) : Prop :=
  p ∉ k.mapTid ∨ k.current = some p ∨ ∃ b : Blocked, b.test (k.state p) = true

theorem unready_of_test {b : Blocked} (h : b.test (k.state p) = true) :
  k.Unready p
  := Or.inr (Or.inr ⟨b, h⟩)

/-- Only tasks that were not ready are inserted. -/
def Inserts (k k' : Kernel A) : Prop :=
  ∃ ts, Enqueues k k' ts ∧ ∀ p ∈ ts, k.Unready p

theorem SameKeys.inserts (h : SameKeys k k') (hs : k.Sorted) :
  Inserts k k'
  := ⟨[], h.enqueues hs, by simp⟩

/-- Making one task ready, between changes that keep the keys. -/
theorem inserts_kSchedAddReady (hs : k.Sorted) (hk : SameKeys k k') (hmap : k'.mapTid = k.mapTid)
    (hp : p ∉ k.heap.toList) (hun : k.Unready p) (hk' : SameKeys (k'.kSchedAddReady p) k'') :
  Inserts k k''
  := by
  use [p]
  constructor
  · exact (enqueues_kSchedAddReady (hk.sorted hs) (by rwa [hk.heap])).between hk hmap hk'
  · intro x hx
    rw [List.mem_singleton.mp hx]
    exact hun

/-- The key of a task that is born does not matter. -/
theorem Born.sorted [TaskAlloc A] (hb : Born k k' p) (hs : k.Sorted) (hfree : p ∉ k.heap.toList)
    (hins : k'.insertions = k.insertions) :
  k'.Sorted
  := by
  have hne : ∀ x ∈ k.heap.toList, k'.td x = k.td x :=
    fun x hx => hb.td x (ne_of_mem_of_not_mem hx hfree)
  have hreadies : k'.readies = k.readies := by rw [readies, readies, hb.log]
  constructor
  · rw [hb.heap]
    apply hs.ordered.congr fun _ _ => rfl
    have hmem : ∀ i < k.heap.count, k.heap.array i ∈ k.heap.toList :=
      fun i hi => List.mem_map_of_mem (List.mem_range.mpr hi)
    intro i hi j hj
    simp only [keyLt, hne _ (hmem i hi), hne _ (hmem j hj)]
  · rw [hreadies, hins]
    exact hs.counted
  · rw [hreadies, hins, hb.heap]
    intro hlt x hx
    rw [hne x hx]
    exact hs.older hlt x hx

section Handle

variable [TaskAlloc A] {sent : TdPtr → ℤ} {q : Blocked → List TdPtr}
  (h : Core False False sent k q [c]) (hc : k.current = some c)
  (hready : k.state c = TaskState.ready) (hs : k.Sorted)

include h hc hs

omit hc hs in
/-- A blocked task is not in the heap, and neither is the one that runs. -/
theorem not_mem_heap_of_test {b : Blocked} (ht : b.test (k.state p) = true) :
  p ∉ k.heap.toList
  := by
  intro hp
  have hstate := (h.base.heap.mem p hp).2.2
  rw [hstate, Blocked.not_test_ready] at ht
  cases ht

theorem inserts_recv {tid msg msglen : ℕ} (hk' : k.kRecvHandler tid msg msglen = some k') :
  Inserts k k'
  := by
  cases hqueue : k.queue c with
  | nil =>
    obtain ⟨k'', l, hd, q', heq, rfl, -⟩ := kRecvHandler_wait h hc hqueue
    rw [← Option.some.inj (heq.symm.trans hk')]
    apply SameKeys.inserts _ hs
    exact (((k.sameKeys_modifyMailbox c _).trans (sameKeys_setState _ c _)).trans
      (sameKeys_relink _ l hd)).trans (sameKeys_setCurrent _ none)
  | cons s rest =>
    obtain ⟨k'', ring, l, hd, q', heq, rfl, -, hsend, -⟩ := kRecvHandler_take h hc hqueue False.elim
    rw [← Option.some.inj (heq.symm.trans hk')]
    have hinit : SameKeys k ((k.setRing c ring).recvInit c tid msg msglen) :=
      (k.sameKeys_modifyMailbox c _).trans (sameKeys_modifyMailbox _ c _)
    have hkeys := ((hinit.trans (sameKeys_deliver _ c s)).trans
      (sameKeys_setState _ s TaskState.replyBlocked)).trans (sameKeys_relink _ l hd)
    have hfree : c ∉ k.heap.toList := fun hmem =>
      (h.base.heap.mem c hmem).2.1 List.mem_cons_self
    exact inserts_kSchedAddReady hs hkeys rfl hfree
      (Or.inr (Or.inl hc)) (sameKeys_setCurrent _ none)

include hready

theorem inserts_send {tid : ℤ} {msg msglen reply rplen : ℕ}
    (hk' : k.kSendHandler tid msg msglen reply rplen = some k') :
  Inserts k k'
  := by
  have hinit : SameKeys k (k.sendInit c msg msglen reply rplen) := k.sameKeys_modifyMailbox c _
  cases hlook : k.kTaskMgrGetTaskDsp tid with
  | none =>
    rw [← Option.some.inj ((kSendHandler_none hc hlook).symm.trans hk')]
    exact (k.sameKeys_setRetval c _).inserts hs
  | some r =>
    by_cases hr : k.state r = TaskState.receiveBlocked
    · obtain ⟨k'', l, hd, q', heq, rfl, -⟩ := kSendHandler_direct h hc hready hlook hr False.elim
      have ht : Blocked.recv.test (k.state r) = true := by
        rw [hr]
        rfl
      rw [← Option.some.inj (heq.symm.trans hk')]
      have hkeys := ((hinit.trans (sameKeys_deliver _ r c)).trans
        (sameKeys_setState _ c TaskState.replyBlocked)).trans (sameKeys_relink _ l hd)
      exact inserts_kSchedAddReady hs hkeys rfl (not_mem_heap_of_test h ht) (unready_of_test ht)
        (sameKeys_setCurrent _ none)
    · by_cases hlen : (k.queue r).length < userStackArrayCnt
      · obtain ⟨k'', ring, l, hd, q', heq, rfl, -⟩ := kSendHandler_queued h hc hlook hr hlen
        rw [← Option.some.inj (heq.symm.trans hk')]
        apply SameKeys.inserts _ hs
        exact (((hinit.trans (sameKeys_modifyMailbox _ r _)).trans (sameKeys_setState _ c _)).trans
          (sameKeys_relink _ l hd)).trans (sameKeys_setCurrent _ none)
      · obtain ⟨k'', l, hd, q', heq, rfl, -⟩ := kSendHandler_full h not_false hc hlook hr
          (not_lt.mp hlen)
        rw [← Option.some.inj (heq.symm.trans hk')]
        apply SameKeys.inserts _ hs
        have hnull : SameKeys k ({ k.sendInit c msg msglen reply rplen with atNull := some c } :
            Kernel A) := hinit.trans (sameKeys_of_td rfl rfl rfl rfl)
        exact ((hnull.trans (sameKeys_setState _ c _)).trans (sameKeys_relink _ l hd)).trans
          (sameKeys_setCurrent _ none)

theorem inserts_reply {tid : ℤ} {reply rplen : ℕ}
    (hk' : k.kReplyHandler tid reply rplen = some k') :
  Inserts k k'
  := by
  cases hlook : k.kTaskMgrGetTaskDsp tid with
  | none =>
    rw [← Option.some.inj ((kReplyHandler_none hc hlook).symm.trans hk')]
    exact (k.sameKeys_setRetval c _).inserts hs
  | some r =>
    by_cases hr : k.state r = TaskState.replyBlocked
    · obtain ⟨k'', l, hd, q', heq, rfl, -⟩ := kReplyHandler_answer h hc hready hlook hr False.elim
      have ht : Blocked.reply.test (k.state r) = true := by
        rw [hr]
        rfl
      rw [← Option.some.inj (heq.symm.trans hk')]
      have hkeys := (k.sameKeys_answer c r reply rplen).trans (sameKeys_relink _ l hd)
      exact inserts_kSchedAddReady hs hkeys rfl (not_mem_heap_of_test h ht) (unready_of_test ht)
        (sameKeys_of_td rfl rfl rfl rfl)
    · rw [← Option.some.inj ((kReplyHandler_not hc hlook hr).symm.trans hk')]
      exact (k.sameKeys_setRetval c _).inserts hs

omit hc hready hs in
/-- A task that is born has a key of its own. -/
theorem inserts_born (hs : k.Sorted) (hb : Born k k' p) (hins : k'.insertions = k.insertions)
    (hk' : SameKeys (k'.kSchedAddReady p) k'') :
  Inserts k k''
  := by
  have hnew := hb.not_mem h.base.ids
  have hfree : p ∉ k.heap.toList := fun hmem => hnew (h.base.heap.mem p hmem).1
  have hne : ∀ x ∈ k.heap.toList, k'.td x = k.td x :=
    fun x hx => hb.td x (ne_of_mem_of_not_mem hx hfree)
  have hreadies : k'.readies = k.readies := by rw [readies, readies, hb.log]
  have hs' := hb.sorted hs hfree hins
  have hadd := (enqueues_kSchedAddReady hs' (by rwa [hb.heap])).between
    (sameKeys_of_td rfl rfl rfl rfl) rfl hk'
  use [p]
  have hkeeps : ∀ x, x ∈ k.mapTid ∨ x ∉ [p] → (k''.td x).tid = (k.td x).tid
      ∧ (k''.td x).priority = (k.td x).priority := by
    intro x hx
    have hxp : x ≠ p := by
      rintro rfl
      obtain hx | hx := hx
      · exact hnew hx
      · exact hx (List.mem_singleton_self x)
    have hout := Or.inr (a := x ∈ k'.mapTid) (List.mem_singleton.not.mpr hxp)
    rw [hadd.tid x hout, hadd.priority x hout, hb.td x hxp]
    exact ⟨rfl, rfl⟩
  constructor
  · constructor
    · exact fun x hx => (hkeeps x hx).1
    · exact fun x hx => (hkeeps x hx).2
    · intro x hx
      obtain ⟨hmem, hval⟩ := hadd.old x (by rwa [hb.heap])
      exact ⟨hmem, by rw [hval, hne x hx]⟩
    · intro x hx
      have hx := hadd.new x hx
      rw [hb.heap, hins] at hx
      exact hx
    · rw [← hreadies]
      exact hadd.readies
    · rw [← hins]
      exact hadd.insertions
    · exact hadd.sorted
  · intro x hx
    rw [List.mem_singleton.mp hx]
    exact Or.inl hnew

omit hready in
theorem inserts_create {priority : ℤ} {args argsLen : ℕ}
    (hok : k.Proper priority argsLen ∨ k.AllocFails pgSft)
    (hk' : k.kCreateHandler priority args argsLen = some k') :
  Inserts k k'
  := by
  obtain ⟨alloc, heq, -⟩ | ⟨alloc, x, stackAddr, -, heq, hborn⟩ :=
    kCreateHandler_cases args h.base.ids hc hok
  · rw [← Option.some.inj (heq.symm.trans hk')]
    have halloc : SameKeys k ({ k with alloc := alloc } : Kernel A) :=
      sameKeys_of_td rfl rfl rfl rfl
    exact (halloc.trans (sameKeys_setRetval _ c _)).inserts hs
  · rw [← Option.some.inj (heq.symm.trans hk')]
    exact inserts_born h hs hborn rfl (sameKeys_setRetval _ c _)

/-- Every system call. -/
theorem inserts_handle {ctx : Ctx} {call : Call} (hevent : EventOk (.syscall ctx call))
    (halloc : k.AllocOk (.syscall ctx call)) (hk' : k.handle call = some k') :
  Inserts k k'
  := by
  cases call with
  | exit =>
    rw [handle, (kExitHandler_spec h hc (halloc c hc) False.elim).1] at hk'
    rw [← Option.some.inj hk']
    have hkeys : SameKeys k ((k.kTmgrDestroyTask c).setCurrent none) :=
      sameKeys_of_td rfl rfl rfl rfl
    exact hkeys.inserts hs
  | yield =>
    rw [← Option.some.inj hk']
    exact (sameKeys_of_td rfl rfl rfl rfl).inserts hs
  | create priority args argsLen => exact inserts_create h hc hs halloc hk'
  | myTid =>
    rw [← Option.some.inj ((kMyTidHandler_spec hc).symm.trans hk')]
    exact (k.sameKeys_setRetval c _).inserts hs
  | myParentTid =>
    obtain ⟨v, w, heq, -⟩ := kMyParentTidHandler_spec hc
    rw [← Option.some.inj (heq.symm.trans hk')]
    have hparent : SameKeys k (k.modify c fun t => { t with parentTid := v }) :=
      k.sameKeys_modify c rfl rfl rfl
    exact (hparent.trans (sameKeys_setRetval _ c w)).inserts hs
  | send tid msg msglen reply rplen => exact inserts_send h hc hready hs hk'
  | recv tid msg msglen => exact inserts_recv h hc hs hk'
  | reply tid reply rplen => exact inserts_reply h hc hready hs hk'
  | awaitEvent intrId =>
    obtain ⟨k'', l, hd, q', heq, rfl, -⟩ := kAwaitEventHandler_spec h hc hevent
    rw [← Option.some.inj (heq.symm.trans hk')]
    apply SameKeys.inserts _ hs
    exact ((k.sameKeys_setState c _).trans (sameKeys_relink _ l hd)).trans
      (sameKeys_setCurrent _ none)
  | mmap target memSz =>
    obtain ⟨alloc, f, heq, -⟩ := kMmapHandler_spec hc target memSz
    rw [← Option.some.inj (heq.symm.trans hk')]
    have halloc : SameKeys k ({ k with alloc := alloc } : Kernel A) :=
      sameKeys_of_td rfl rfl rfl rfl
    exact ((halloc.trans (sameKeys_modifyMem _ c f)).trans (sameKeys_setRetval _ c _)).inserts hs
  | other retval =>
    rw [handle, hc] at hk'
    rw [← Option.some.inj hk']
    exact (k.sameKeys_setRetval c retval).inserts hs

end Handle

/-! ### Steps -/

/-- The scheduler takes a task with a smallest key, or the idle task when the heap is
empty. -/
structure Picks (k : Kernel A) (c : TdPtr) : Prop where
  current : k.schedule.current = some c
  td : k.schedule.td = k.td
  mapTid : k.schedule.mapTid = k.mapTid
  idleTask : k.schedule.idleTask = k.idleTask
  heap : ∀ p, p ∈ k.schedule.heap.toList ↔ p ∈ k.heap.toList ∧ p ≠ c
  least : (c = k.idleTask ∧ k.heap.toList = [])
    ∨ (c ∈ k.heap.toList ∧ ∀ p ∈ k.heap.toList, k.keyLt p c = false)
  readies : k.schedule.readies = k.readies
  sorted : k.schedule.Sorted

theorem schedule_picks (hs : k.Sorted) (hnodup : k.heap.toList.Nodup) :
  ∃ c, k.Picks c
  := by
  cases hpop : k.heap.pop k.keyLt with
  | none =>
    have hsched : k.schedule = (k.setCurrent (some k.idleTask)).setPoint .user := by
      rw [schedule, kSchedGetNext, hpop]
      rfl
    have hnil : k.heap.toList = [] := by
      apply List.eq_nil_of_length_eq_zero
      rw [BinHeap.length_toList]
      exact BinHeap.pop_eq_none_iff.mp hpop
    use k.idleTask
    constructor <;> (try rw [hsched]) <;> try rfl
    · intro p
      show p ∈ k.heap.toList ↔ _
      simp [hnil]
    · exact Or.inl ⟨rfl, hnil⟩
    · have hkeys : SameKeys k ((k.setCurrent (some k.idleTask)).setPoint .user) :=
        sameKeys_of_td rfl rfl rfl rfl
      exact hkeys.sorted hs
  | some r =>
    obtain ⟨c, heap⟩ := r
    obtain ⟨hperm, -, -⟩ := BinHeap.pop_spec hpop
    obtain ⟨hordered, hmin⟩ := BinHeap.pop_ordered k.keyLt_weakOrder hs.ordered hpop
    obtain ⟨hnot, -⟩ := List.nodup_cons.mp (hperm.nodup_iff.mp hnodup)
    have hsched : k.schedule = ((k.putHeap heap k.insertions (k.log ++ [.next c])).setCurrent
        (some c)).setPoint .user := by
      rw [schedule, kSchedGetNext, hpop]
      rfl
    have hreadies : k.schedule.readies = k.readies := by
      rw [hsched, readies, readies]
      exact List.countP_append.trans (Nat.add_zero _)
    have hheap : ∀ p, p ∈ heap.toList ↔ p ∈ k.heap.toList ∧ p ≠ c := by
      intro p
      rw [hperm.mem_iff, List.mem_cons]
      constructor
      · intro hp
        exact ⟨Or.inr hp, fun hpc => hnot (hpc ▸ hp)⟩
      · rintro ⟨rfl | hp, hne⟩
        · exact absurd rfl hne
        · exact hp
    use c
    constructor <;> try (rw [hsched]; rfl)
    · rw [hsched]
      exact hheap
    · exact Or.inr ⟨hperm.mem_iff.mpr List.mem_cons_self, hmin⟩
    · exact hreadies
    · constructor
      · rw [hsched]
        exact hordered
      · rw [hreadies, hsched]
        exact hs.counted
      · rw [hreadies, hsched]
        intro hlt p hp
        exact hs.older hlt p ((hheap p).mp hp).1

/-- Putting the task that was trapped back. -/
theorem inserts_requeue (hs : k.Sorted) (hfree : ∀ c, k.current = some c → c ∉ k.heap.toList) :
  Inserts k k.requeue
  := by
  have htop : SameKeys k (k.setPoint .top) := k.sameKeys_setPoint .top
  cases hc : k.current with
  | none =>
    rw [requeue, hc]
    exact htop.inserts hs
  | some c =>
    rw [requeue, hc]
    dsimp only
    split
    · exact htop.inserts hs
    · exact inserts_kSchedAddReady hs (sameKeys_of_td rfl rfl rfl rfl) rfl (hfree c hc)
        (Or.inr (Or.inl hc)) (sameKeys_setPoint _ .top)

variable [TaskAlloc A] {sent : TdPtr → ℤ}

/-- The invariant without its conditions. -/
theorem Inv.plain {cq ch : Prop} (h : Inv cq ch sent k) :
  Inv False False sent k
  := by
  constructor
  · obtain ⟨q, hbase, hqueues⟩ := h.core
    refine ⟨q, ⟨hbase.ids, hbase.lists, ?_⟩, ?_⟩
    · have hheap := hbase.heap
      exact ⟨hheap.nodup, hheap.mem, hheap.idle, hheap.capacity, hheap.count_le, False.elim,
        False.elim⟩
    · exact ⟨hqueues.wf, hqueues.send, hqueues.nodup, hqueues.apart, hqueues.recv, False.elim,
        False.elim⟩
  · exact h.ready
  · exact h.running

/-- The heap holds tasks that are alive, ready and do not run. -/
theorem Inv.mem_heap (h : Inv False False sent k) (hp : p ∈ k.heap.toList) :
  p ∈ k.mapTid ∧ k.state p = TaskState.ready ∧ (k.point ≠ .top → k.current ≠ some p)
    ∧ p ≠ k.idleTask
  := by
  obtain ⟨q, hcore⟩ := h.core
  obtain ⟨hmap, hF, hready⟩ := hcore.base.heap.mem p hp
  have hidle : p ≠ k.idleTask := by
    rintro rfl
    exact hcore.base.heap.idle hp
  refine ⟨hmap, hready, ?_, hidle⟩
  intro hpoint hc
  apply hF
  rw [floating_user hpoint, running_of_ne hc hidle]
  exact List.mem_singleton_self p

/-- An action that is not a scheduling inserts only tasks that were not ready. -/
theorem inserts_step (h : Inv False False sent k) (hs : k.Sorted) {a : Act} (hok : k.LinkOk a)
    (ha : a ≠ .schedule) (hk' : k.step a = some k') :
  Inserts k k'
  := by
  obtain ⟨q, hcore⟩ := h.core
  cases a with
  | schedule => exact absurd rfl ha
  | write mem =>
    obtain ⟨c, -, hk'⟩ := Option.bind_eq_some_iff.mp hk'
    rw [← Option.some.inj hk']
    exact (k.sameKeys_modifyMem c _).inserts hs
  | syscall ctx call =>
    obtain ⟨c, q, hc, hidle, hcore, hready, -⟩ := h.trapped hok.enabled
    obtain ⟨c', hc', hk'⟩ := Option.bind_eq_some_iff.mp hk'
    obtain rfl := Option.some.inj (hc.symm.trans hc')
    obtain ⟨k₁, hk₁, hk'⟩ := Option.bind_eq_some_iff.mp hk'
    have hstore := k.sameKeys_storeTd c ctx (esrSvc call.number)
    obtain ⟨ts, hts, hun⟩ := inserts_handle hcore hc hready (hstore.sorted hs) hok.event
      (hok.ok.storeTd c ctx (esrSvc call.number)).alloc hk₁
    rw [← Option.some.inj hk']
    refine ⟨ts, hts.between hstore rfl (k₁.sameKeys_setPoint .bottom), ?_⟩
    intro p hp
    have hstate := (k.agree_storeTd c ctx (esrSvc call.number)).state p
    have hun := hun p hp
    rw [Unready, hstate] at hun
    exact hun
  | interrupt ctx x0 irqs =>
    obtain ⟨c, hc, hk'⟩ := Option.bind_eq_some_iff.mp hk'
    obtain ⟨k₁, hk₁, hk'⟩ := Option.bind_eq_some_iff.mp hk'
    have hstore := (k.sameKeys_storeTd c ctx 0).trans (sameKeys_setRetval _ c x0)
    have hagree := (k.agree_storeTd c ctx 0).trans (agree_setRetval _ c x0)
    have hheap : ((k.storeTd c ctx 0).setRetval c x0).HeapReady := by
      intro p hp
      rw [hagree.state]
      exact (h.mem_heap hp).2.1
    obtain ⟨ts, hts, hun, -⟩ := enqueues_wakeupAll (fun _ => Irq.le_of_mem_flatMap)
      (hstore.sorted hs) hheap hk₁
    rw [← Option.some.inj hk']
    refine ⟨ts, hts.between hstore rfl (k₁.sameKeys_setPoint .bottom), ?_⟩
    intro p hp
    obtain ⟨w, hw, hw'⟩ := List.mem_map.mp (hun p hp)
    rw [hagree.state] at hw'
    apply unready_of_test (b := .event)
    rw [← hw']
    exact decide_eq_true (Irq.le_of_mem_flatMap hw)
  | requeue =>
    rw [← Option.some.inj hk']
    apply inserts_requeue hs
    intro c hc hmem
    exact (h.mem_heap hmem).2.2.1 (by rw [hok.enabled]; exact Point.noConfusion) hc

theorem sorted_step (h : Inv False False sent k) (hs : k.Sorted) {a : Act} (hok : k.LinkOk a)
    (hk' : k.step a = some k') :
  k'.Sorted
  := by
  by_cases ha : a = .schedule
  · subst ha
    obtain ⟨q, hcore⟩ := h.core
    obtain ⟨c, hc⟩ := schedule_picks hs hcore.base.heap.nodup
    rw [← Option.some.inj hk']
    exact hc.sorted
  · obtain ⟨ts, hts, -⟩ := inserts_step h hs hok ha hk'
    exact hts.sorted

/-! ### Runs -/

/-- A task that `k_main` creates is inserted into no heap yet. -/
theorem startTask_insertions (hids : k.Ids) {k₁ : Kernel A} {priority userFunc : ℕ}
    {src : ℕ → UInt8} {args argsLen : ℕ}
    (h : k.startTask priority userFunc src args argsLen = some (k₁, p)) :
  k₁.insertions = k.insertions
  := by
  rw [startTask] at h
  obtain ⟨-, alloc, hget, -⟩ | ⟨-, alloc, p', stackAddr, hget, -⟩ :=
    kTmgrGetFreeTask_spec hids pgSft
  · rw [hget] at h
    cases h
  · rw [hget] at h
    obtain ⟨rfl, -⟩ := Prod.mk.inj (Option.some.inj h)
    rfl

/-- The heap is in order when `k_main` enters the loop. -/
theorem Booted.sorted {k₀ : Kernel A} (h : Booted k₀) :
  k₀.Sorted
  := by
  obtain ⟨k, k₁, k₂, k₃, idle, p₂, p₃, src, entryArgs, serverArgs, hids, hidle, hborn₁, hentry,
    hborn₂, hserver, hborn₃, rfl⟩ := h.births
  have hcore₁ := core_idle False False (fun _ => 0) hborn₁
  have hcore₂ := (hcore₁.born hborn₂).addReady List.not_mem_nil False.elim
  have hfree : ∀ {k k' : Kernel A} {q p}, Core False False (fun _ => 0) k q [] → Born k k' p →
      p ∉ k.heap.toList := by
    intro k k' q p hcore hborn hmem
    exact hborn.not_mem hcore.base.ids (hcore.base.heap.mem p hmem).1
  have hempty : k.kTmgrInit.kSchedInit.Sorted := by
    constructor
    · intro i hi
      cases hi
    · intro _
      exact Nat.le_refl _
    · intro _ p hp
      cases hp
  have hs₁ := hborn₁.sorted hempty List.not_mem_nil (startTask_insertions hids hidle)
  have hkeys : SameKeys k₁ ({ k₁ with idleTask := idle, atNull := none } : Kernel A) :=
    sameKeys_of_td rfl rfl rfl rfl
  have hs₂ := hborn₂.sorted (hkeys.sorted hs₁) (hfree hcore₁ hborn₂)
    (startTask_insertions hcore₁.base.ids hentry)
  have hadd₂ := enqueues_kSchedAddReady hs₂ (p := p₂) (by
    rw [hborn₂.heap]
    exact hfree hcore₁ hborn₂)
  have hs₃ := hborn₃.sorted hadd₂.sorted (hfree hcore₂ hborn₃)
    (startTask_insertions hcore₂.base.ids hserver)
  have hadd₃ := enqueues_kSchedAddReady hs₃ (p := p₃) (by
    rw [hborn₃.heap]
    exact hfree hcore₂ hborn₃)
  exact (sameKeys_setPoint _ .top).sorted hadd₃.sorted

/-- A state that the kernel reaches from its start. -/
def Reached (k : Kernel A) : Prop :=
  ∃ k₀, Booted k₀ ∧ Run.Reachable step LinkOk k₀ k

/-- In every such state the invariant holds and the heap is in order. -/
theorem Reached.inv (h : k.Reached) :
  (∃ sent, Inv False False sent k) ∧ k.Sorted
  := by
  obtain ⟨k₀, hboot, hreach⟩ := h
  apply hreach.invariant (P := fun k : Kernel A => (∃ sent, Inv False False sent k) ∧ k.Sorted)
  · rintro k a ⟨⟨sent, hinv⟩, hs⟩ hok
    obtain ⟨k', hstep, hinv'⟩ := step_inv hinv hok.ok
    exact ⟨k', hstep, ⟨_, hinv'⟩, sorted_step hinv hs hok hstep⟩
  · exact ⟨⟨fun _ => 0, hboot.inv _⟩, hboot.sorted⟩

end Kernel

end TrainsOs
