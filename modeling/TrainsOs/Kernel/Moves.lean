import TrainsOs.Kernel.Core

/-!
# Moving tasks

What each operation of the scheduler does to the invariant: a floating task lands on a
list or in the heap, and a task that is taken off a list or out of the heap floats. Tasks
are created floating and destroyed while floating.
-/

namespace TrainsOs

theorem Blocked.test_unique {b b' : Blocked} {s : ℕ} (h : b.test s = true)
    (h' : b'.test s = true) :
  b = b'
  := by
  cases b <;> cases b' <;> try rfl
  all_goals
    simp only [Blocked.test, decide_eq_true_eq] at h h'
    simp only [TaskState.receiveBlocked, TaskState.sendBlocked, TaskState.replyBlocked,
      keIntrIdRangeMin] at h h'
    omega

theorem Blocked.not_test_ready (b : Blocked) :
  b.test TaskState.ready = false
  := by cases b <;> decide

namespace Kernel

variable {A : Type} {k : Kernel A} {q : Blocked → List TdPtr} {F : List TdPtr} {p : TdPtr}
  {b : Blocked} {ch : Prop}

/-! ### Descriptors -/

theorem modify_td (k : Kernel A) (p : TdPtr) (f : TaskDsp → TaskDsp) (x : TdPtr) :
  (k.modify p f).td x = if x = p then f (k.td p) else k.td x
  := Function.update_apply _ _ _ _

theorem state_modify (k : Kernel A) (p : TdPtr) (f : TaskDsp → TaskDsp) (x : TdPtr) :
  (k.modify p f).state x = if x = p then (f (k.td p)).state else k.state x
  := by
  rw [state, modify_td]
  split <;> rfl

theorem ring_modify (k : Kernel A) (p : TdPtr) (f : TaskDsp → TaskDsp) (x : TdPtr) :
  (k.modify p f).ring x = if x = p then (f (k.td p)).mailbox.senderWaitqueue else k.ring x
  := by
  rw [ring, modify_td]
  split <;> rfl

/-- A change of a descriptor that keeps the `tid` keeps every `tid`. -/
theorem field_modify {α : Type} (field : TaskDsp → α) (k : Kernel A) (p : TdPtr)
    {f : TaskDsp → TaskDsp} (hf : field (f (k.td p)) = field (k.td p)) (x : TdPtr) :
  field ((k.modify p f).td x) = field (k.td x)
  := by
  rw [modify_td]
  split
  · rename_i hx
    rw [hx]
    exact hf
  · rfl

theorem tid_modify (k : Kernel A) (p : TdPtr) {f : TaskDsp → TaskDsp}
    (hf : (f (k.td p)).tid = (k.td p).tid) (x : TdPtr) :
  ((k.modify p f).td x).tid = (k.td x).tid
  := k.field_modify TaskDsp.tid p hf x

theorem stackAddr_modify (k : Kernel A) (p : TdPtr) {f : TaskDsp → TaskDsp}
    (hf : (f (k.td p)).stackAddr = (k.td p).stackAddr) (x : TdPtr) :
  ((k.modify p f).td x).stackAddr = (k.td x).stackAddr
  := k.field_modify TaskDsp.stackAddr p hf x

theorem retval_setRetval (k : Kernel A) (p : TdPtr) (v : BitVec 64) :
  ((k.setRetval p v).td p).syscallRetval = v
  := by rw [setRetval, modify_td, if_pos rfl]

theorem mailbox_modify (k : Kernel A) (p : TdPtr) {f : TaskDsp → TaskDsp}
    (hf : (f (k.td p)).mailbox = (k.td p).mailbox) (x : TdPtr) :
  ((k.modify p f).td x).mailbox = (k.td x).mailbox
  := by
  rw [modify_td]
  split
  · rename_i hx
    rw [hx]
    exact hf
  · rfl

theorem state_setState (k : Kernel A) (p : TdPtr) (s : ℕ) (x : TdPtr) :
  (k.setState p s).state x = if x = p then s else k.state x
  := k.state_modify p _ x

/-- New links and heads for the lists of blocked tasks. -/
def relink (k : Kernel A) (links : DList.Links TdPtr) (blocked : Blocked → Option TdPtr) :
    Kernel A :=
  { k with links := links, blocked := blocked }

/-! ### The lists -/

/-- The state may as well be set first. -/
theorem addWait_eq (k : Kernel A) (b : Blocked) (p : TdPtr) (s : ℕ) :
  k.addWait b p s = (k.setState p s).dlAppend b p
  := by
  rw [addWait, dlAppend, dlAppend]
  cases h : DList.append k.links (k.blocked b) p <;> simp [setState, modify, h]

/-- Taking a task off its list changes the links only. -/
theorem removeWait_eq {k' : Kernel A} (h : k.removeWait b p = some k') :
  ∃ l hd, k' = k.relink l hd
  := by
  rw [removeWait, dlDelete] at h
  split at h
  · obtain ⟨⟨l, hd⟩, -, h⟩ := Option.bind_eq_some_iff.mp h
    exact ⟨l, _, (Option.some.inj h).symm⟩
  · cases h

/-- A floating task is appended to the list that its state says. -/
theorem Lists.append (h : k.Lists q (p :: F)) (hp : p ∉ F) (ht : b.test (k.state p) = true) :
  ∃ l hd, k.dlAppend b p = some (k.relink l hd)
    ∧ (k.relink l hd).Lists (Function.update q b (q b ++ [p])) F
  := by
  have hfree : ∀ j, p ∉ q j := by
    intro j hj
    exact ((h.mem_iff j p).mp hj).2.1 List.mem_cons_self
  obtain ⟨l, happ, hforest, -⟩ := h.forest.append b hfree
  use l, Function.update k.blocked b (q b ++ [p]).head?
  constructor
  · rw [dlAppend, happ]
    rfl
  constructor
  · exact hforest
  · intro j x
    by_cases hx : x = p
    · subst hx
      by_cases hj : j = b
      · subst hj
        rw [Function.update_self]
        have hmap := h.floating x List.mem_cons_self
        exact ⟨fun _ => ⟨hmap, hp, ht⟩, fun _ => List.mem_append_right _ List.mem_cons_self⟩
      · rw [Function.update_of_ne hj]
        constructor
        · intro hmem
          exact absurd hmem (hfree j)
        · rintro ⟨-, -, hj'⟩
          exact absurd (Blocked.test_unique hj' ht) hj
    · have hmem : x ∈ Function.update q b (q b ++ [p]) j ↔ x ∈ q j := by
        by_cases hj : j = b
        · subst hj
          rw [Function.update_self]
          simp [hx]
        · rw [Function.update_of_ne hj]
      rw [hmem, h.mem_iff j x, List.mem_cons]
      simp only [hx, false_or]
      rfl
  · intro x hx
    exact h.floating x (List.mem_cons_of_mem p hx)
  · exact h.idle_mem
  · exact h.idle_state
  · exact fun hF => h.idle_floating (List.mem_cons_of_mem p hF)

/-- A task that is taken off its list floats. -/
theorem Lists.delete (h : k.Lists q F) (hp : p ∈ q b) :
  ∃ l hd, k.removeWait b p = some (k.relink l hd)
    ∧ (k.relink l hd).Lists (Function.update q b ((q b).erase p)) (p :: F)
  := by
  obtain ⟨hmap, hF, ht⟩ := (h.mem_iff b p).mp hp
  obtain ⟨l, hdel, hforest, -⟩ := h.forest.delete hp
  have hnodup := (h.forest.list b).nodup
  use l, Function.update k.blocked b ((q b).erase p).head?
  constructor
  · rw [removeWait]
    exact (if_pos ht).trans (by rw [dlDelete, hdel]; rfl)
  constructor
  · exact hforest
  · intro j x
    by_cases hx : x = p
    · subst hx
      simp only [List.mem_cons_self, not_true_eq_false, false_and, and_false, iff_false]
      by_cases hj : j = b
      · subst hj
        rw [Function.update_self]
        exact hnodup.not_mem_erase
      · rw [Function.update_of_ne hj]
        intro hmem
        exact hj (h.forest.apart hmem hp)
    · have hmem : x ∈ Function.update q b ((q b).erase p) j ↔ x ∈ q j := by
        by_cases hj : j = b
        · subst hj
          rw [Function.update_self, List.mem_erase_of_ne hx]
        · rw [Function.update_of_ne hj]
      rw [hmem, h.mem_iff j x, List.mem_cons]
      simp only [hx, false_or]
      rfl
  · intro x hx
    obtain rfl | hx := List.mem_cons.mp hx
    · exact hmap
    · exact h.floating x hx
  · exact h.idle_mem
  · exact h.idle_state
  · intro hidle
    obtain hidle | hidle := List.mem_cons.mp hidle
    · have hready : k.state p = TaskState.ready := hidle ▸ h.idle_state
      rw [hready, b.not_test_ready] at ht
      exact absurd ht Bool.false_ne_true
    · exact h.idle_floating hidle

/-! ### The heap -/

/-- A floating task that has been blocked is not missed by the heap. -/
theorem Heap.land (h : k.Heap ch (p :: F)) (ht : b.test (k.state p) = true) :
  k.Heap ch F
  := by
  constructor
  · exact h.nodup
  · intro x hx
    obtain ⟨hmap, hF, hready⟩ := h.mem x hx
    exact ⟨hmap, fun hF' => hF (List.mem_cons_of_mem p hF'), hready⟩
  · exact h.idle
  · exact h.capacity
  · exact h.count_le
  · intro hch x hmap hne hF
    by_cases hx : x = p
    · right
      rw [hx]
      use b
    · apply h.placed hch x hmap hne
      rw [List.mem_cons, not_or]
      exact ⟨hx, hF⟩
  · exact h.counted

/-- A blocked task is not in the heap. -/
theorem Heap.lift (h : k.Heap ch F) (ht : b.test (k.state p) = true) :
  k.Heap ch (p :: F)
  := by
  constructor
  · exact h.nodup
  · intro x hx
    obtain ⟨hmap, hF, hready⟩ := h.mem x hx
    refine ⟨hmap, ?_, hready⟩
    rw [List.mem_cons, not_or]
    refine ⟨?_, hF⟩
    rintro rfl
    rw [hready, b.not_test_ready] at ht
    exact absurd ht Bool.false_ne_true
  · exact h.idle
  · exact h.capacity
  · exact h.count_le
  · intro hch x hmap hne hF
    exact h.placed hch x hmap hne fun hF' => hF (List.mem_cons_of_mem p hF')
  · exact h.counted

/-- A new heap, insertion counter and history. -/
def putHeap (k : Kernel A) (heap : BinHeap TdPtr) (insertions : ℕ) (log : List SchedEvent) :
    Kernel A :=
  { k with heap := heap, insertions := insertions, log := log }

/-- The descriptor of a task that is made ready with the key `n`. -/
def readyDsp (n : ℕ) (t : TaskDsp) : TaskDsp :=
  { t with state := TaskState.ready, insertVal := n }

/-- The kernel with a task made ready and a new heap: the result of `k_sched_add_ready`. -/
def readied (k : Kernel A) (p : TdPtr) (n : ℕ) (heap : BinHeap TdPtr) (insertions : ℕ) :
    Kernel A :=
  (k.modify p (readyDsp n)).putHeap heap insertions (k.log ++ [.ready p])

section Readied

variable (k : Kernel A) (p : TdPtr) (n : ℕ) (heap : BinHeap TdPtr) (m : ℕ)

theorem state_readied (x : TdPtr) :
  (k.readied p n heap m).state x = if x = p then TaskState.ready else k.state x
  := k.state_modify p (readyDsp n) x

theorem tid_readied (x : TdPtr) :
  ((k.readied p n heap m).td x).tid = (k.td x).tid
  := k.tid_modify p (f := readyDsp n) rfl x

theorem stackAddr_readied (x : TdPtr) :
  ((k.readied p n heap m).td x).stackAddr = (k.td x).stackAddr
  := k.stackAddr_modify p (f := readyDsp n) rfl x

theorem mailbox_readied (x : TdPtr) :
  ((k.readied p n heap m).td x).mailbox = (k.td x).mailbox
  := by
  rw [readied, putHeap, modify_td]
  split
  · rename_i hx
    rw [hx]
    rfl
  · rfl

theorem retval_readied (x : TdPtr) :
  ((k.readied p n heap m).td x).syscallRetval = (k.td x).syscallRetval
  := by
  rw [readied, putHeap, modify_td]
  split
  · rename_i hx
    rw [hx]
    rfl
  · rfl

end Readied

/-- Making a task ready while there is room. -/
theorem kSchedAddReady_room (p : TdPtr) (hroom : k.heap.count < k.heap.capacity) :
  k.kSchedAddReady p = k.readied p k.insertions
    (k.heap.insert (k.modify p (readyDsp k.insertions)).keyLt p) ((k.insertions + 1) % 2 ^ 64)
  := by
  have hmodify : (k.setState p TaskState.ready).modify p
      (fun t => { t with insertVal := k.insertions }) = k.modify p (readyDsp k.insertions) := by
    simp [setState, modify, readyDsp]
  rw [kSchedAddReady, heapInsert, if_pos (by exact hroom)]
  exact congrArg (fun k' : Kernel A => k'.putHeap (k.heap.insert k'.keyLt p)
    ((k.insertions + 1) % 2 ^ 64) (k.log ++ [.ready p])) hmodify

/-- Making a task ready while there is no room. -/
theorem kSchedAddReady_full (p : TdPtr) (hfull : ¬ k.heap.count < k.heap.capacity) :
  k.kSchedAddReady p = k.readied p (k.td p).insertVal k.heap k.insertions
  := by
  rw [kSchedAddReady, heapInsert, if_neg (by exact hfull)]
  rfl

/-- `k_sched_add_ready` sets the state and the key of the task and inserts it into the
heap, unless the heap is full. -/
theorem kSchedAddReady_eq (k : Kernel A) (p : TdPtr) :
  ∃ n heap m, k.kSchedAddReady p = k.readied p n heap m
    ∧ heap.capacity = k.heap.capacity
    ∧ (k.heap.count < k.heap.capacity →
        heap.toList.Perm (p :: k.heap.toList) ∧ heap.count = k.heap.count + 1)
    ∧ (k.heap.capacity ≤ k.heap.count → heap = k.heap)
  := by
  by_cases hroom : k.heap.count < k.heap.capacity
  · let k' := k.modify p (readyDsp k.insertions)
    obtain ⟨hperm, hcount, hcap⟩ := @BinHeap.insert_spec _ k'.keyLt _ p hroom
    use k.insertions, k.heap.insert k'.keyLt p, (k.insertions + 1) % 2 ^ 64
    use kSchedAddReady_room p hroom, hcap, fun _ => ⟨hperm, hcount⟩
    intro hfull
    cases not_lt.mpr hfull hroom
  · use (k.td p).insertVal, k.heap, k.insertions, kSchedAddReady_full p hroom, rfl
    use fun hlt => absurd hlt hroom, fun _ => rfl

section AddReady

variable (k : Kernel A) (p : TdPtr)

theorem kSchedAddReady_of {P : Kernel A → Prop} (h : ∀ n heap m, P (k.readied p n heap m)) :
  P (k.kSchedAddReady p)
  := by
  obtain ⟨n, heap, m, heq, -⟩ := k.kSchedAddReady_eq p
  rw [heq]
  apply h

@[simp]
theorem kSchedAddReady_mapTid : (k.kSchedAddReady p).mapTid = k.mapTid :=
  k.kSchedAddReady_of p (P := fun k' => k'.mapTid = k.mapTid) fun _ _ _ => rfl

@[simp]
theorem kSchedAddReady_nextTid : (k.kSchedAddReady p).nextTid = k.nextTid :=
  k.kSchedAddReady_of p (P := fun k' => k'.nextTid = k.nextTid) fun _ _ _ => rfl

@[simp]
theorem kSchedAddReady_idleTask : (k.kSchedAddReady p).idleTask = k.idleTask :=
  k.kSchedAddReady_of p (P := fun k' => k'.idleTask = k.idleTask) fun _ _ _ => rfl

@[simp]
theorem kSchedAddReady_alloc : (k.kSchedAddReady p).alloc = k.alloc :=
  k.kSchedAddReady_of p (P := fun k' => k'.alloc = k.alloc) fun _ _ _ => rfl

@[simp]
theorem kSchedAddReady_atNull : (k.kSchedAddReady p).atNull = k.atNull :=
  k.kSchedAddReady_of p (P := fun k' => k'.atNull = k.atNull) fun _ _ _ => rfl

@[simp]
theorem kSchedAddReady_current : (k.kSchedAddReady p).current = k.current :=
  k.kSchedAddReady_of p (P := fun k' => k'.current = k.current) fun _ _ _ => rfl

@[simp]
theorem kSchedAddReady_mem : (k.kSchedAddReady p).mem = k.mem :=
  k.kSchedAddReady_of p (P := fun k' => k'.mem = k.mem) fun _ _ _ => rfl

@[simp]
theorem kSchedAddReady_links : (k.kSchedAddReady p).links = k.links :=
  k.kSchedAddReady_of p (P := fun k' => k'.links = k.links) fun _ _ _ => rfl

@[simp]
theorem kSchedAddReady_blocked : (k.kSchedAddReady p).blocked = k.blocked :=
  k.kSchedAddReady_of p (P := fun k' => k'.blocked = k.blocked) fun _ _ _ => rfl

theorem state_kSchedAddReady (x : TdPtr) :
  (k.kSchedAddReady p).state x = if x = p then TaskState.ready else k.state x
  := k.kSchedAddReady_of p
    (P := fun k' => k'.state x = if x = p then TaskState.ready else k.state x)
    fun n heap m => k.state_readied p n heap m x

theorem tid_kSchedAddReady (x : TdPtr) :
  ((k.kSchedAddReady p).td x).tid = (k.td x).tid
  := k.kSchedAddReady_of p (P := fun k' => (k'.td x).tid = (k.td x).tid)
    fun n heap m => k.tid_readied p n heap m x

theorem mailbox_kSchedAddReady (x : TdPtr) :
  ((k.kSchedAddReady p).td x).mailbox = (k.td x).mailbox
  := k.kSchedAddReady_of p (P := fun k' => (k'.td x).mailbox = (k.td x).mailbox)
    fun n heap m => k.mailbox_readied p n heap m x

theorem retval_kSchedAddReady (x : TdPtr) :
  ((k.kSchedAddReady p).td x).syscallRetval = (k.td x).syscallRetval
  := k.kSchedAddReady_of p (P := fun k' => (k'.td x).syscallRetval = (k.td x).syscallRetval)
    fun n heap m => k.retval_readied p n heap m x

theorem count_kSchedAddReady (hroom : k.heap.count < k.heap.capacity) :
  (k.kSchedAddReady p).heap.count = k.heap.count + 1
  := by
  obtain ⟨n, heap, m, heq, -, hin, -⟩ := k.kSchedAddReady_eq p
  rw [heq]
  exact (hin hroom).2

theorem ring_kSchedAddReady (x : TdPtr) :
  (k.kSchedAddReady p).ring x = k.ring x
  := congrArg Mailbox.senderWaitqueue (k.mailbox_kSchedAddReady p x)

end AddReady

/-- `k_sched_get_next` takes a task out of the heap, unless the heap is empty. -/
theorem kSchedGetNext_eq (k : Kernel A) :
  (k.kSchedGetNext = (k, none) ∧ k.heap.count = 0)
    ∨ ∃ p heap, k.kSchedGetNext =
        (k.putHeap heap k.insertions (k.log ++ [.next p]), some p)
      ∧ k.heap.toList.Perm (p :: heap.toList) ∧ k.heap.count = heap.count + 1
      ∧ heap.capacity = k.heap.capacity
  := by
  rw [kSchedGetNext]
  cases hpop : k.heap.pop k.keyLt with
  | none =>
    left
    exact ⟨rfl, BinHeap.pop_eq_none_iff.mp hpop⟩
  | some r =>
    right
    use r.1, r.2, rfl
    exact BinHeap.pop_spec hpop

/-! ### Moves -/

section Moves

variable [TaskAlloc A]

/-- The state of a floating task is free. -/
theorem Base.setState (h : Base ch k q F) (hp : p ∈ F) (s : ℕ) :
  Base ch (k.setState p s) q F
  := by
  have hstate : ∀ x, x ∉ F → (k.setState p s).state x = k.state x := by
    intro x hx
    rw [state_setState, if_neg]
    rintro rfl
    exact hx hp
  constructor
  · exact h.ids.congr (TaskAlloc.Keeps.refl _) rfl rfl (k.tid_modify p rfl)
      (k.stackAddr_modify p rfl)
  · exact h.lists.congr rfl rfl rfl rfl hstate
  · exact h.heap.congr rfl rfl rfl rfl hstate

/-- Blocking a floating task. -/
theorem Base.addWait (h : Base ch k q (p :: F)) (hp : p ∉ F) {s : ℕ} (hs : b.test s = true) :
  ∃ l hd, k.addWait b p s = some ((k.setState p s).relink l hd)
    ∧ Base ch ((k.setState p s).relink l hd) (Function.update q b (q b ++ [p])) F
  := by
  have hbase := h.setState List.mem_cons_self s
  have ht : b.test ((k.setState p s).state p) = true := by
    rw [state_setState, if_pos rfl]
    exact hs
  obtain ⟨l, hd, happ, hlists⟩ := hbase.lists.append hp ht
  use l, hd
  constructor
  · rw [addWait_eq, happ]
  constructor
  · exact hbase.ids.congr (TaskAlloc.Keeps.refl _) rfl rfl (fun _ => rfl) fun _ => rfl
  · exact hlists
  · exact (hbase.heap.land ht).congr rfl rfl rfl rfl fun _ _ => rfl

/-- Taking a blocked task off its list. -/
theorem Base.removeWait (h : Base ch k q F) (hp : p ∈ q b) :
  ∃ l hd, k.removeWait b p = some (k.relink l hd)
    ∧ Base ch (k.relink l hd) (Function.update q b ((q b).erase p)) (p :: F)
  := by
  obtain ⟨l, hd, hdel, hlists⟩ := h.lists.delete hp
  have ht := ((h.lists.mem_iff b p).mp hp).2.2
  use l, hd, hdel
  constructor
  · exact h.ids.congr (TaskAlloc.Keeps.refl _) rfl rfl (fun _ => rfl) fun _ => rfl
  · exact hlists
  · exact (h.heap.lift ht).congr rfl rfl rfl rfl fun _ _ => rfl

omit [TaskAlloc A] in
/-- Readying a floating task. -/
theorem Heap.addReady (h : k.Heap ch (p :: F)) (hmap : p ∈ k.mapTid) (hp : p ∉ F)
    (hidle : k.idleTask ≠ p) (hroom : ch → k.heap.count < kSchedHeapCapacity) :
  (k.kSchedAddReady p).Heap ch F
  := by
  have hfree : p ∉ k.heap.toList := fun hmem => (h.mem p hmem).2.1 List.mem_cons_self
  obtain ⟨n, heap, m, heq, hcap, hin, hfull⟩ := k.kSchedAddReady_eq p
  rw [h.capacity] at hcap hin hfull
  have hmem : ∀ x ∈ heap.toList, x = p ∨ x ∈ k.heap.toList := by
    intro x hx
    by_cases hroom : k.heap.count < kSchedHeapCapacity
    · exact List.mem_cons.mp ((hin hroom).1.mem_iff.mp hx)
    · rw [hfull (not_lt.mp hroom)] at hx
      exact Or.inr hx
  rw [heq]
  constructor
  · by_cases hroom : k.heap.count < kSchedHeapCapacity
    · apply (hin hroom).1.nodup_iff.mpr
      exact List.nodup_cons.mpr ⟨hfree, h.nodup⟩
    · exact (hfull (not_lt.mp hroom)).symm ▸ h.nodup
  · intro x hx
    rw [state_readied]
    obtain rfl | hx := hmem x hx
    · exact ⟨hmap, hp, if_pos rfl⟩
    · obtain ⟨hxmap, hF, hready⟩ := h.mem x hx
      refine ⟨hxmap, fun hF' => hF (List.mem_cons_of_mem p hF'), ?_⟩
      split
      · rfl
      · exact hready
  · intro hx
    obtain hx | hx := hmem _ hx
    · exact hidle hx
    · exact h.idle hx
  · exact hcap
  · by_cases hroom : k.heap.count < kSchedHeapCapacity
    · exact (hin hroom).2.trans_le hroom
    · exact (hfull (not_lt.mp hroom)).symm ▸ h.count_le
  · intro hch x hxmap hne hF
    have hperm := (hin (hroom hch)).1
    rw [state_readied]
    by_cases hx : x = p
    · left
      rw [hx]
      exact hperm.mem_iff.mpr List.mem_cons_self
    · rw [if_neg hx]
      have hF' : x ∉ p :: F := by
        rw [List.mem_cons, not_or]
        exact ⟨hx, hF⟩
      obtain hx' | hx' := h.placed hch x hxmap hne hF'
      · left
        exact hperm.mem_iff.mpr (List.mem_cons_of_mem p hx')
      · right
        exact hx'
  · intro hch x
    rw [readied, putHeap]
    dsimp only
    rw [(hin (hroom hch)).1.count_eq, List.count_append, List.count_append,
      h.counted hch x]
    by_cases hx : x = p
    · rw [hx]
      simp
      omega
    · have hx' : p ≠ x := fun hp => hx hp.symm
      simp [hx']

/-- Readying a floating task. -/
theorem Base.addReady (h : Base ch k q (p :: F)) (hp : p ∉ F)
    (hroom : ch → k.heap.count < kSchedHeapCapacity) :
  Base ch (k.kSchedAddReady p) q F
  := by
  have hmap := h.lists.floating p List.mem_cons_self
  have hidle : k.idleTask ≠ p := by
    intro hidle
    apply h.lists.idle_floating
    rw [hidle]
    exact List.mem_cons_self
  have hheap := h.heap.addReady hmap hp hidle hroom
  obtain ⟨n, heap, m, heq, -⟩ := k.kSchedAddReady_eq p
  rw [heq] at hheap ⊢
  constructor
  · exact h.ids.congr (TaskAlloc.Keeps.refl _) rfl rfl (k.tid_readied p n heap m)
      (k.stackAddr_readied p n heap m)
  · constructor
    · exact h.lists.forest
    · intro b x
      rw [h.lists.mem_iff, state_readied, List.mem_cons]
      by_cases hx : x = p
      · rw [if_pos hx, b.not_test_ready]
        simp [hx]
      · rw [if_neg hx]
        simp only [hx, false_or]
        rfl
    · intro x hx
      exact h.lists.floating x (List.mem_cons_of_mem p hx)
    · exact h.lists.idle_mem
    · rw [state_readied]
      exact (if_neg hidle).trans h.lists.idle_state
    · exact fun hF => h.lists.idle_floating (List.mem_cons_of_mem p hF)
  · exact hheap

omit [TaskAlloc A] in
/-- Taking a task out of the heap. -/
theorem Heap.getNext (h : k.Heap ch F) {heap : BinHeap TdPtr}
    (hperm : k.heap.toList.Perm (p :: heap.toList)) (hcap : heap.capacity = k.heap.capacity) :
  (k.putHeap heap k.insertions (k.log ++ [.next p])).Heap ch (p :: F)
  := by
  have hnodup := List.nodup_cons.mp (hperm.nodup_iff.mp h.nodup)
  have hmem : ∀ x ∈ heap.toList, x ∈ k.heap.toList :=
    fun x hx => hperm.mem_iff.mpr (List.mem_cons_of_mem p hx)
  constructor
  · exact hnodup.2
  · intro x hx
    obtain ⟨hxmap, hxF, hxready⟩ := h.mem x (hmem x hx)
    refine ⟨hxmap, ?_, hxready⟩
    rw [List.mem_cons, not_or]
    exact ⟨ne_of_mem_of_not_mem hx hnodup.1, hxF⟩
  · exact fun hx => h.idle (hmem _ hx)
  · exact hcap.trans h.capacity
  · have hlen := hperm.length_eq
    rw [BinHeap.length_toList, List.length_cons, BinHeap.length_toList] at hlen
    exact Nat.le_of_succ_le (hlen.symm.trans_le h.count_le)
  · intro hch x hxmap hxne hxF
    rw [List.mem_cons, not_or] at hxF
    obtain hx | hx := h.placed hch x hxmap hxne hxF.2
    · left
      exact (List.mem_cons.mp (hperm.mem_iff.mp hx)).resolve_left hxF.1
    · right
      exact hx
  · intro hch x
    have hcount := h.counted hch x
    rw [hperm.count_eq] at hcount
    rw [putHeap]
    dsimp only
    rw [List.count_append, List.count_append, hcount]
    by_cases hx : x = p
    · rw [hx]
      simp
      omega
    · have hx' : p ≠ x := fun hp => hx hp.symm
      simp [hx']

/-- Taking a task out of the heap. -/
theorem Base.getNext (h : Base ch k q F) {heap : BinHeap TdPtr}
    (hperm : k.heap.toList.Perm (p :: heap.toList)) (hcap : heap.capacity = k.heap.capacity) :
  Base ch (k.putHeap heap k.insertions (k.log ++ [.next p])) q (p :: F)
  := by
  obtain ⟨hmap, hF, hready⟩ := h.heap.mem p (hperm.mem_iff.mpr List.mem_cons_self)
  have hne : k.idleTask ≠ p := by
    intro hidle
    apply h.heap.idle
    rw [hidle]
    exact hperm.mem_iff.mpr List.mem_cons_self
  constructor
  · exact h.ids.congr (TaskAlloc.Keeps.refl _) rfl rfl (fun _ => rfl) fun _ => rfl
  · constructor
    · exact h.lists.forest
    · intro b x
      rw [h.lists.mem_iff, List.mem_cons]
      by_cases hx : x = p
      · have hnot : b.test (k.state x) = false := by
          rw [hx, hready]
          exact b.not_test_ready
        rw [hnot]
        simp [hx]
      · simp only [hx, false_or]
        rfl
    · intro x hx
      obtain rfl | hx := List.mem_cons.mp hx
      · exact hmap
      · exact h.lists.floating x hx
    · exact h.lists.idle_mem
    · exact h.lists.idle_state
    · rw [List.mem_cons, not_or]
      exact ⟨hne, h.lists.idle_floating⟩
  · exact h.heap.getNext hperm hcap

/-- A kernel with one more task, whose descriptor was not in use. -/
structure Born (k k' : Kernel A) (p : TdPtr) : Prop where
  alloc : TaskAlloc.Gives k.alloc k'.alloc p (k'.td p).stackAddr
  mapTid : k'.mapTid = k.mapTid ++ [p]
  nextTid : k'.nextTid = k.nextTid + 1
  tid : (k'.td p).tid = k.nextTid
  state : k'.state p = TaskState.ready
  ring : k'.ring p = RingBuffer.init 0 userStackArrayCnt
  td : ∀ x, x ≠ p → k'.td x = k.td x
  idleTask : k'.idleTask = k.idleTask
  links : k'.links = k.links
  blocked : k'.blocked = k.blocked
  heap : k'.heap = k.heap
  log : k'.log = k.log
  atNull : k'.atNull = k.atNull

/-- A new task takes a descriptor and a stack that were not in use and the next `tid`. -/
theorem Ids.new {k' : Kernel A} (h : k.Ids)
    (hgives : TaskAlloc.Gives k.alloc k'.alloc p (k'.td p).stackAddr)
    (hmap : k'.mapTid = k.mapTid ++ [p]) (hnext : k'.nextTid = k.nextTid + 1)
    (hlast : (k'.td p).tid = k.nextTid) (hold : ∀ x, x ≠ p → (k'.td x).tid = (k.td x).tid)
    (hstack : ∀ x, x ≠ p → (k'.td x).stackAddr = (k.td x).stackAddr) :
  k'.Ids
  := by
  have hnew : p ∉ k.mapTid := fun hp => hgives.fresh (h.tds p hp)
  have hmem : ∀ x, x ∈ k'.mapTid ↔ x ∈ k.mapTid ∨ x = p := by
    intro x
    rw [hmap, List.mem_append, List.mem_singleton]
  have hold : ∀ x ∈ k.mapTid, (k'.td x).tid = (k.td x).tid :=
    fun x hx => hold x (ne_of_mem_of_not_mem hx hnew)
  have hstack : ∀ x ∈ k.mapTid, (k'.td x).stackAddr = (k.td x).stackAddr :=
    fun x hx => hstack x (ne_of_mem_of_not_mem hx hnew)
  -- the stacks of the other tasks were in use, the new one was not
  have hother : ∀ x ∈ k.mapTid, (k'.td x).stackAddr ≠ (k'.td p).stackAddr := by
    intro x hx heq
    apply hgives.unused
    rw [← heq, hstack x hx]
    exact h.stack x hx
  constructor
  · exact hgives.intact
  · rw [hmap]
    apply List.nodup_append.mpr
    refine ⟨h.nodup, List.nodup_singleton p, ?_⟩
    rintro x hx y hy rfl
    exact hnew (List.mem_singleton.mp hy ▸ hx)
  · intro x hx
    rw [hgives.tds]
    obtain hx | rfl := (hmem x).mp hx
    · exact Finset.mem_insert_of_mem (h.tds x hx)
    · exact Finset.mem_insert_self x _
  · intro x hx
    rw [hgives.blocks]
    obtain hx | rfl := (hmem x).mp hx
    · rw [hstack x hx]
      exact Set.mem_insert_of_mem _ (h.stack x hx)
    · exact Set.mem_insert _ _
  · intro x hx y hy hxy
    obtain hx | rfl := (hmem x).mp hx <;> obtain hy | rfl := (hmem y).mp hy
    · rw [hstack x hx, hstack y hy] at hxy
      exact h.stack_inj x hx y hy hxy
    · exact absurd hxy (hother x hx)
    · exact absurd hxy.symm (hother y hy)
    · rfl
  · intro x hx
    rw [hnext]
    obtain hx | rfl := (hmem x).mp hx
    · rw [hold x hx]
      exact (h.tid_lt x hx).trans (lt_add_one _)
    · rw [hlast]
      exact lt_add_one _
  · intro x hx y hy hxy
    obtain hx | hx := (hmem x).mp hx <;> obtain hy | hy := (hmem y).mp hy
    · rw [hold x hx, hold y hy] at hxy
      exact h.tid_inj x hx y hy hxy
    · rw [hold x hx, hy, hlast] at hxy
      exact absurd hxy (h.tid_lt x hx).ne
    · rw [hold y hy, hx, hlast] at hxy
      exact absurd hxy.symm (h.tid_lt y hy).ne
    · rw [hx, hy]

theorem Heap.born {k' : Kernel A} (h : k.Heap ch F) (hnew : p ∉ k.mapTid) (hb : Born k k' p) :
  k'.Heap ch (p :: F)
  := by
  have hold : ∀ x ∈ k.mapTid, k'.td x = k.td x :=
    fun x hx => hb.td x (ne_of_mem_of_not_mem hx hnew)
  have hmem : ∀ x, x ∈ k'.mapTid ↔ x ∈ k.mapTid ∨ x = p := by
    intro x
    rw [hb.mapTid, List.mem_append, List.mem_singleton]
  constructor
  · rw [hb.heap]
    exact h.nodup
  · intro x hx
    rw [hb.heap] at hx
    obtain ⟨hxmap, hxF, hxready⟩ := h.mem x hx
    rw [hmem, List.mem_cons, not_or, state, hold x hxmap]
    exact ⟨Or.inl hxmap, ⟨ne_of_mem_of_not_mem hxmap hnew, hxF⟩, hxready⟩
  · rw [hb.heap, hb.idleTask]
    exact h.idle
  · rw [hb.heap]
    exact h.capacity
  · rw [hb.heap]
    exact h.count_le
  · intro hch x hxmap hxne hxF
    rw [List.mem_cons, not_or] at hxF
    rw [hb.idleTask] at hxne
    have hxmap := ((hmem x).mp hxmap).resolve_right hxF.1
    rw [hb.heap, state, hold x hxmap]
    exact h.placed hch x hxmap hxne hxF.2
  · rw [hb.heap, hb.log]
    exact h.counted

theorem Base.born {k' : Kernel A} (h : Base ch k q F) (hb : Born k k' p) :
  Base ch k' q (p :: F)
  := by
  have hnew : p ∉ k.mapTid := fun hp => hb.alloc.fresh (h.ids.tds p hp)
  have hold : ∀ x ∈ k.mapTid, k'.td x = k.td x := by
    intro x hx
    apply hb.td
    rintro rfl
    exact hnew hx
  have hmem : ∀ x, x ∈ k'.mapTid ↔ x ∈ k.mapTid ∨ x = p := by
    intro x
    rw [hb.mapTid, List.mem_append, List.mem_singleton]
  constructor
  · exact h.ids.new hb.alloc hb.mapTid hb.nextTid hb.tid
      (fun x hx => congrArg TaskDsp.tid (hb.td x hx))
      fun x hx => congrArg TaskDsp.stackAddr (hb.td x hx)
  · constructor
    · rw [hb.links, hb.blocked]
      exact h.lists.forest
    · intro b x
      rw [h.lists.mem_iff, hmem, List.mem_cons]
      by_cases hx : x = p
      · simp [hx, hnew]
      · have hstate : k'.state x = k.state x := congrArg TaskDsp.state (hb.td x hx)
        rw [hstate]
        simp only [hx, or_false, false_or]
    · intro x hx
      rw [hmem]
      obtain rfl | hx := List.mem_cons.mp hx
      · exact Or.inr rfl
      · exact Or.inl (h.lists.floating x hx)
    · rw [hb.idleTask, hmem]
      exact Or.inl h.lists.idle_mem
    · rw [hb.idleTask, state, hold _ h.lists.idle_mem]
      exact h.lists.idle_state
    · rw [hb.idleTask, List.mem_cons, not_or]
      exact ⟨ne_of_mem_of_not_mem h.lists.idle_mem hnew, h.lists.idle_floating⟩
  · exact h.heap.born hnew hb

/-- The stack of the task can be given back. -/
def StackSafe (k : Kernel A) (p : TdPtr) : Prop :=
  TaskAlloc.FreeSafe k.alloc (k.td p).stackAddr

/-- A task gives back its descriptor and its stack. -/
theorem Ids.destroy (h : k.Ids) (hp : p ∈ k.mapTid) (hsafe : k.StackSafe p) :
  (k.kTmgrDestroyTask p).Ids
  := by
  have hmem : ∀ x, x ∈ (k.kTmgrDestroyTask p).mapTid ↔ x ≠ p ∧ x ∈ k.mapTid := by
    intro x
    exact h.nodup.mem_erase_iff
  obtain ⟨htds, hblocks, hintact⟩ := TaskAlloc.pgFreePage_spec h.intact (h.stack p hp) hsafe
  obtain ⟨htds', hblocks', hintact'⟩ := TaskAlloc.slabFree_spec hintact
    (by
      rw [htds]
      exact h.tds p hp)
  rw [htds] at htds'
  rw [hblocks] at hblocks'
  constructor
  · exact hintact'
  · exact h.nodup.erase p
  · intro x hx
    obtain ⟨hne, hx⟩ := (hmem x).mp hx
    rw [kTmgrDestroyTask]
    dsimp only
    rw [htds']
    exact Finset.mem_erase.mpr ⟨hne, h.tds x hx⟩
  · intro x hx
    obtain ⟨hne, hx⟩ := (hmem x).mp hx
    rw [kTmgrDestroyTask]
    dsimp only
    rw [hblocks']
    exact ⟨h.stack x hx, fun heq => hne (h.stack_inj x hx p hp heq)⟩
  · intro x hx y hy
    exact h.stack_inj x ((hmem x).mp hx).2 y ((hmem y).mp hy).2
  · intro x hx
    exact h.tid_lt x ((hmem x).mp hx).2
  · intro x hx y hy
    exact h.tid_inj x ((hmem x).mp hx).2 y ((hmem y).mp hy).2

/-- Destroying a floating task. -/
theorem Heap.destroy (h : k.Heap ch (p :: F)) (hnodup : k.mapTid.Nodup) :
  (k.kTmgrDestroyTask p).Heap ch F
  := by
  have hmem : ∀ x, x ∈ (k.kTmgrDestroyTask p).mapTid ↔ x ≠ p ∧ x ∈ k.mapTid := by
    intro x
    exact hnodup.mem_erase_iff
  constructor
  · exact h.nodup
  · intro x hx
    obtain ⟨hxmap, hxF, hxready⟩ := h.mem x hx
    rw [List.mem_cons, not_or] at hxF
    rw [hmem]
    exact ⟨⟨hxF.1, hxmap⟩, hxF.2, hxready⟩
  · exact h.idle
  · exact h.capacity
  · exact h.count_le
  · intro hch x hxmap hxne hxF
    obtain ⟨hne, hxmap⟩ := (hmem x).mp hxmap
    apply h.placed hch x hxmap hxne
    rw [List.mem_cons, not_or]
    exact ⟨hne, hxF⟩
  · exact h.counted

/-- Destroying a floating task. -/
theorem Base.destroy (h : Base ch k q (p :: F)) (hp : p ∉ F) (hsafe : k.StackSafe p) :
  Base ch (k.kTmgrDestroyTask p) q F
  := by
  have hmem : ∀ x, x ∈ (k.kTmgrDestroyTask p).mapTid ↔ x ≠ p ∧ x ∈ k.mapTid := by
    intro x
    exact h.ids.nodup.mem_erase_iff
  have hidle : k.idleTask ≠ p := by
    intro hidle
    apply h.lists.idle_floating
    rw [hidle]
    exact List.mem_cons_self
  constructor
  · exact h.ids.destroy (h.lists.floating p List.mem_cons_self) hsafe
  · constructor
    · exact h.lists.forest
    · intro b x
      rw [h.lists.mem_iff, hmem, List.mem_cons, not_or]
      constructor
      · rintro ⟨hx, ⟨hne, hF⟩, ht⟩
        exact ⟨⟨hne, hx⟩, hF, ht⟩
      · rintro ⟨⟨hne, hx⟩, hF, ht⟩
        exact ⟨hx, ⟨hne, hF⟩, ht⟩
    · intro x hx
      rw [hmem]
      exact ⟨ne_of_mem_of_not_mem hx hp, h.lists.floating x (List.mem_cons_of_mem p hx)⟩
    · rw [hmem]
      exact ⟨hidle, h.lists.idle_mem⟩
    · exact h.lists.idle_state
    · exact fun hF => h.lists.idle_floating (List.mem_cons_of_mem p hF)
  · exact h.heap.destroy h.ids.nodup

end Moves

end Kernel

end TrainsOs
