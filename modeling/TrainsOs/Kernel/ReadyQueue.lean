import TrainsOs.Kernel.Arena
import TrainsOs.Lib.BinHeapOrder
import TrainsOs.Lib.StableQueue
import Mathlib.Tactic.NormNum

/-!
# The ready heap as a stable priority queue

The heap of the scheduler starts empty. An element that is not in it is inserted with any
priority, and the next one is popped. Beside the kernel the entries are kept in the order
in which they were inserted: what is popped is always one of those with the smallest
priority. It is the earliest of them as long as the insertion counter, which has 64 bits,
has not come round.
-/

namespace TrainsOs

namespace Kernel

variable {A : Type} {k : Kernel A} {p : TdPtr}

/-- The priority and the state of `p` are set, and `p` is inserted. -/
def insertReady (k : Kernel A) (p : TdPtr) (priority : ℕ) : Kernel A :=
  (k.modify p fun t => { t with priority := priority }).kSchedAddReady p

/-- The keys of the heap are a total preorder. -/
theorem keyLt_weakOrder (k : Kernel A) :
  BinHeap.WeakOrder k.keyLt
  := by
  constructor
  · intro a b h
    simp only [keyLt] at *
    split at h
    · rename_i heq
      rw [if_pos heq.symm]
      simp only [decide_eq_true_eq, decide_eq_false_iff_not] at *
      omega
    · rename_i hne
      rw [if_neg (Ne.symm hne)]
      simp only [decide_eq_true_eq, decide_eq_false_iff_not] at *
      omega
  · intro a b c hba hcb
    simp only [keyLt] at *
    split at hba <;> split at hcb <;> split <;>
      simp only [decide_eq_false_iff_not] at * <;> omega

theorem keyLt_congr {k' : Kernel A} (h : k'.td = k.td) :
  k'.keyLt = k.keyLt
  := by
  funext x y
  simp only [keyLt, h]

/-- The key of the greater entry decides which one is smaller. -/
theorem keyLt_false_iff {x y : TdPtr} :
  k.keyLt x y = false ↔ (k.td y).priority < (k.td x).priority
    ∨ ((k.td y).priority = (k.td x).priority ∧ (k.td y).insertVal ≤ (k.td x).insertVal)
  := by
  rw [keyLt]
  split <;> simp only [decide_eq_false_iff_not] <;> omega

/-- The descriptor of an element that is inserted. -/
def readyEntry (k : Kernel A) (priority : ℕ) (t : TaskDsp) : TaskDsp :=
  { t with priority := priority, state := TaskState.ready, insertVal := k.insertions }

/-- What the insertion of an element does to the heap and to the keys. -/
theorem insertReady_spec (k : Kernel A) (p : TdPtr) (priority : ℕ)
    (hroom : k.heap.count < k.heap.capacity) :
  (k.insertReady p priority).td = (k.modify p (k.readyEntry priority)).td
    ∧ (k.insertReady p priority).heap = k.heap.insert (k.insertReady p priority).keyLt p
    ∧ (k.insertReady p priority).insertions = (k.insertions + 1) % 2 ^ 64
  := by
  have htd : (k.insertReady p priority).td = (k.modify p (k.readyEntry priority)).td := by
    rw [insertReady, kSchedAddReady, heapInsert, if_pos (by exact hroom)]
    simp [setState, modify, readyEntry]
  refine ⟨htd, ?_, ?_⟩
  · rw [keyLt_congr htd]
    rw [insertReady, kSchedAddReady, heapInsert, if_pos (by exact hroom)]
    dsimp only
    congr 1
    apply keyLt_congr
    simp [setState, modify, readyEntry]
  · rw [insertReady, kSchedAddReady, heapInsert, if_pos (by exact hroom)]
    rfl

theorem insertReady_td_self (k : Kernel A) (p : TdPtr) (priority : ℕ)
    (hroom : k.heap.count < k.heap.capacity) :
  (k.insertReady p priority).td p = k.readyEntry priority (k.td p)
  := by
  rw [(k.insertReady_spec p priority hroom).1, modify_td, if_pos rfl]

theorem insertReady_td_of_ne (k : Kernel A) {p x : TdPtr} (priority : ℕ)
    (hroom : k.heap.count < k.heap.capacity) (hx : x ≠ p) :
  (k.insertReady p priority).td x = k.td x
  := by
  rw [(k.insertReady_spec p priority hroom).1, modify_td, if_neg hx]

/-- An operation on the heap. -/
inductive HeapOp where
  | insert (p : TdPtr) (priority : ℕ)
  | pop

/-- The kernel, the entries of its heap in the order in which they were inserted, and how
many elements have been inserted. -/
structure HeapRun (A : Type) where
  kernel : Kernel A
  queue : List (TdPtr × ℕ)
  inserted : ℕ

namespace HeapRun

def start (k : Kernel A) : HeapRun A where
  kernel := k.kSchedInit
  queue := []
  inserted := 0

def insert (s : HeapRun A) (p : TdPtr) (priority : ℕ) : HeapRun A where
  kernel := s.kernel.insertReady p priority
  queue := StableQueue.insert s.queue p priority
  inserted := s.inserted + 1

/-- What is popped leaves the entries. -/
def pop (s : HeapRun A) : HeapRun A where
  kernel := s.kernel.kSchedGetNext.1
  queue := s.kernel.kSchedGetNext.2.elim s.queue (StableQueue.remove s.queue)
  inserted := s.inserted

def step (s : HeapRun A) : HeapOp → Option (HeapRun A)
  | .insert p priority => some (s.insert p priority)
  | .pop => some s.pop

/-- The element is not in the heap, and the heap is not full. -/
def Ok (s : HeapRun A) : HeapOp → Prop
  | .insert p _ => p ∉ s.kernel.heap.toList ∧ s.kernel.heap.count < s.kernel.heap.capacity
  | .pop => True

instance (s : HeapRun A) : (op : HeapOp) → Decidable (s.Ok op)
  | .insert _ _ => inferInstanceAs (Decidable (_ ∧ _))
  | .pop => inferInstanceAs (Decidable True)

/-- The heap holds the entries, in heap order, and while the counter has not come round
the insertion values grow along the queue. -/
structure Held (s : HeapRun A) : Prop where
  perm : s.kernel.heap.toList.Perm (s.queue.map Prod.fst)
  nodup : (s.queue.map Prod.fst).Nodup
  priority : ∀ e ∈ s.queue, (s.kernel.td e.1).priority = e.2
  ordered : BinHeap.Ordered s.kernel.keyLt s.kernel.heap s.kernel.heap.count
  capacity : s.kernel.heap.capacity = kSchedHeapCapacity
  insertions : s.kernel.insertions = s.inserted % 2 ^ 64
  grows : s.inserted ≤ 2 ^ 64 → s.queue.Pairwise fun e f =>
    (s.kernel.td e.1).insertVal < (s.kernel.td f.1).insertVal
  below : s.inserted ≤ 2 ^ 64 → ∀ e ∈ s.queue, (s.kernel.td e.1).insertVal < s.inserted

theorem Held.start (k : Kernel A) :
  (HeapRun.start k).Held
  := by
  constructor
  · exact List.Perm.refl _
  · exact List.nodup_nil
  · intro e he
    cases he
  · intro i hi
    cases hi
  · rfl
  · rfl
  · intro _
    exact List.Pairwise.nil
  · intro _ e he
    cases he

variable {s : HeapRun A}

theorem Held.mem_toList (h : s.Held) {x : TdPtr} :
  x ∈ s.kernel.heap.toList ↔ ∃ e ∈ s.queue, e.1 = x
  := by
  rw [h.perm.mem_iff, List.mem_map]

theorem Held.insert (h : s.Held) {priority : ℕ} (hp : p ∉ s.kernel.heap.toList)
    (hroom : s.kernel.heap.count < s.kernel.heap.capacity) :
  (s.insert p priority).Held
  := by
  obtain ⟨-, hheap, hins⟩ := s.kernel.insertReady_spec p priority hroom
  have hne : ∀ e ∈ s.queue, e.1 ≠ p := fun e he heq => hp (h.mem_toList.mpr ⟨e, he, heq⟩)
  have hself := s.kernel.insertReady_td_self p priority hroom
  have hother := fun x => s.kernel.insertReady_td_of_ne (p := p) (x := x) priority hroom
  constructor
  · apply (show _ from hheap ▸ (BinHeap.insert_spec p hroom).1).trans
    rw [HeapRun.insert, StableQueue.insert, List.map_append]
    exact ((h.perm.cons p)).trans (List.perm_append_singleton p _).symm
  · rw [HeapRun.insert, StableQueue.insert, List.map_append, List.nodup_append]
    refine ⟨h.nodup, List.nodup_singleton _, ?_⟩
    intro x hx y hy
    obtain ⟨e, he, rfl⟩ := List.mem_map.mp hx
    obtain rfl := List.mem_singleton.mp hy
    exact hne e he
  · intro e he
    obtain he | he := List.mem_append.mp he
    · rw [HeapRun.insert, hother e.1 (hne e he)]
      exact h.priority e he
    · obtain rfl := List.mem_singleton.mp he
      rw [HeapRun.insert, hself]
      rfl
  · rw [HeapRun.insert]
    dsimp only
    rw [hheap]
    apply BinHeap.insert_ordered (keyLt_weakOrder _)
    have hmem : ∀ i < s.kernel.heap.count, s.kernel.heap.array i ≠ p := by
      intro i hi heq
      exact hp (heq ▸ List.mem_map_of_mem (List.mem_range.mpr hi))
    apply h.ordered.congr (fun _ _ => rfl)
    intro i hi j hj
    simp only [keyLt, hother _ (hmem i hi), hother _ (hmem j hj)]
  · rw [HeapRun.insert]
    dsimp only
    rw [hheap, ← h.capacity]
    exact (BinHeap.insert_spec p hroom).2.2
  · rw [HeapRun.insert]
    dsimp only
    rw [hins, h.insertions, Nat.mod_add_mod]
  · intro hle
    have hlt : s.inserted < 2 ^ 64 := hle
    rw [HeapRun.insert, StableQueue.insert, List.pairwise_append]
    refine ⟨?_, List.pairwise_singleton _ _, ?_⟩
    · apply (h.grows hlt.le).imp_of_mem
      intro e f he hf hef
      dsimp only
      rw [hother _ (hne e he), hother _ (hne f hf)]
      exact hef
    · intro e he f hf
      obtain rfl := List.mem_singleton.mp hf
      dsimp only
      rw [hother _ (hne e he), hself]
      have hbelow := h.below hlt.le e he
      rw [readyEntry, h.insertions, Nat.mod_eq_of_lt hlt]
      exact hbelow
  · intro hle e he
    have hlt : s.inserted < 2 ^ 64 := hle
    obtain he | he := List.mem_append.mp he
    · rw [HeapRun.insert, hother _ (hne e he)]
      exact (h.below hlt.le e he).trans (Nat.lt_succ_self _)
    · obtain rfl := List.mem_singleton.mp he
      rw [HeapRun.insert, hself, readyEntry]
      dsimp only
      rw [h.insertions, Nat.mod_eq_of_lt hlt]
      exact Nat.lt_succ_self _

/-- Of an empty queue nothing is popped. -/
theorem Held.pop_nil (h : s.Held) (hq : s.queue = []) :
  s.kernel.kSchedGetNext = (s.kernel, none)
  := by
  have hcount : s.kernel.heap.count = 0 := by
    rw [← BinHeap.length_toList, h.perm.length_eq, hq]
    rfl
  rw [kSchedGetNext, BinHeap.pop_eq_none_iff.mpr hcount]

/-- What is popped is an entry than which none is smaller. -/
theorem Held.pop_spec (h : s.Held) (hq : s.queue ≠ []) :
  ∃ as e bs heap, s.queue = as ++ e :: bs
    ∧ s.kernel.kSchedGetNext
      = (s.kernel.putHeap heap s.kernel.insertions (s.kernel.log ++ [.next e.1]), some e.1)
    ∧ s.kernel.heap.toList.Perm (e.1 :: heap.toList)
    ∧ BinHeap.Ordered s.kernel.keyLt heap heap.count
    ∧ heap.capacity = s.kernel.heap.capacity
    ∧ ∀ f ∈ s.queue, s.kernel.keyLt f.1 e.1 = false
  := by
  cases hpop : s.kernel.heap.pop s.kernel.keyLt with
  | none =>
    have hlen := h.perm.length_eq
    rw [BinHeap.length_toList, BinHeap.pop_eq_none_iff.mp hpop, List.length_map] at hlen
    exact absurd (List.length_eq_zero_iff.mp hlen.symm) hq
  | some r =>
    obtain ⟨hperm, -, hcapacity⟩ := BinHeap.pop_spec hpop
    obtain ⟨hordered, hmin⟩ := BinHeap.pop_ordered (keyLt_weakOrder _) h.ordered hpop
    have hmem := hperm.mem_iff.mpr List.mem_cons_self
    obtain ⟨e, he, hep⟩ := h.mem_toList.mp hmem
    obtain ⟨as, bs, hsplit⟩ := List.append_of_mem he
    refine ⟨as, e, bs, r.2, hsplit, ?_, ?_, hordered, hcapacity, ?_⟩
    · rw [kSchedGetNext, hpop, hep]
      rfl
    · rw [hep]
      exact hperm
    · intro f hf
      rw [hep]
      exact hmin f.1 (h.mem_toList.mpr ⟨f, hf, rfl⟩)

/-- Taking an entry out leaves the others. -/
theorem remove_append {as bs : List (TdPtr × ℕ)} {e : TdPtr × ℕ}
    (h : ((as ++ e :: bs).map Prod.fst).Nodup) :
  StableQueue.remove (as ++ e :: bs) e.1 = as ++ bs
  := by
  rw [List.map_append, List.map_cons] at h
  obtain ⟨hnot, -⟩ := List.nodup_cons.mp (List.perm_middle.nodup_iff.mp h)
  rw [← List.map_append] at hnot
  have hne : ∀ f ∈ as ++ bs, f.1 ≠ e.1 := fun f hf heq => hnot (heq ▸ List.mem_map_of_mem hf)
  rw [StableQueue.remove, List.filter_append, List.filter_cons_of_neg (by simp),
    ← List.filter_append]
  apply List.filter_eq_self.mpr
  intro f hf
  exact decide_eq_true (hne f hf)

theorem Held.pop (h : s.Held) :
  s.pop.Held
  := by
  by_cases hq : s.queue = []
  · have hsame : s.pop = s := by
      rw [HeapRun.pop, h.pop_nil hq]
      rfl
    exact hsame.symm ▸ h
  · obtain ⟨as, e, bs, heap, hsplit, hnext, hperm, hordered, hcapacity, -⟩ := h.pop_spec hq
    have hpop : s.pop = ⟨s.kernel.putHeap heap s.kernel.insertions
        (s.kernel.log ++ [.next e.1]), as ++ bs, s.inserted⟩ := by
      have hnodup := h.nodup
      rw [hsplit] at hnodup
      rw [HeapRun.pop, hnext, hsplit, ← remove_append hnodup]
      rfl
    have hsub : (as ++ bs).Sublist s.queue := by
      rw [hsplit]
      exact (List.Sublist.refl as).append (List.sublist_cons_self e bs)
    rw [hpop]
    constructor
    · apply (List.perm_cons e.1).mp
      apply hperm.symm.trans
      apply h.perm.trans
      rw [hsplit]
      exact (List.perm_middle).map Prod.fst
    · exact h.nodup.sublist (hsub.map Prod.fst)
    · exact fun f hf => h.priority f (hsub.subset hf)
    · exact hordered
    · exact hcapacity.trans h.capacity
    · exact h.insertions
    · exact fun hle => (h.grows hle).sublist hsub
    · exact fun hle f hf => h.below hle f (hsub.subset hf)

theorem Held.step (h : s.Held) {op : HeapOp} (hok : s.Ok op) :
  ∃ s', s.step op = some s' ∧ s'.Held
  := by
  cases op with
  | insert p priority => exact ⟨_, rfl, h.insert hok.1 hok.2⟩
  | pop => exact ⟨_, rfl, h.pop⟩

/-- In every run the heap holds the entries of the queue. Popping an empty queue gives `NULL`
and changes nothing. Otherwise one of the entries with the smallest priority is popped, and
it is all that leaves the heap. With at most `2 ^ 64` insertions it is the earliest. -/
theorem heap_refines {k₀ : Kernel A} (h : Run.Reachable step Ok (HeapRun.start k₀) s) :
  s.kernel.heap.toList.Perm (s.queue.map Prod.fst)
    ∧ (s.queue = [] → s.kernel.kSchedGetNext = (s.kernel, none))
    ∧ (s.queue ≠ [] → ∃ e ∈ s.queue, (∀ f ∈ s.queue, e.2 ≤ f.2)
      ∧ s.kernel.kSchedGetNext.2 = some e.1
      ∧ s.kernel.heap.toList.Perm (e.1 :: s.kernel.kSchedGetNext.1.heap.toList))
    ∧ (s.inserted ≤ 2 ^ 64 →
      s.kernel.kSchedGetNext.2 = (StableQueue.first s.queue).map Prod.fst)
  := by
  have hheld : s.Held := h.invariant (fun s _ hs hok => hs.step hok) (Held.start k₀)
  refine ⟨hheld.perm, hheld.pop_nil, ?_, ?_⟩
  · intro hq
    obtain ⟨as, e, bs, heap, hsplit, hnext, hperm, -, -, hmin⟩ := hheld.pop_spec hq
    have he : e ∈ s.queue := hsplit ▸ List.mem_append_right as List.mem_cons_self
    rw [hnext]
    refine ⟨e, he, ?_, rfl, hperm⟩
    intro f hf
    have hkey := keyLt_false_iff.mp (hmin f hf)
    rw [hheld.priority e he, hheld.priority f hf] at hkey
    omega
  · intro hle
    by_cases hq : s.queue = []
    · rw [hheld.pop_nil hq, hq]
      rfl
    · obtain ⟨as, e, bs, heap, hsplit, hnext, -, -, -, hmin⟩ := hheld.pop_spec hq
      have he : e ∈ s.queue := hsplit ▸ List.mem_append_right as List.mem_cons_self
      have hgrows := hheld.grows hle
      rw [hsplit, List.pairwise_append] at hgrows
      have hfirst : StableQueue.first s.queue = some e := by
        rw [hsplit]
        apply StableQueue.first_append
        · intro f hf
          have hfq : f ∈ s.queue := hsplit ▸ List.mem_append_left _ hf
          have hkey := keyLt_false_iff.mp (hmin f hfq)
          have hval := hgrows.2.2 f hf e List.mem_cons_self
          rw [hheld.priority e he, hheld.priority f hfq] at hkey
          omega
        · intro f hf
          have hfq : f ∈ s.queue := hsplit ▸ List.mem_append_right as (List.mem_cons_of_mem e hf)
          have hkey := keyLt_false_iff.mp (hmin f hfq)
          rw [hheld.priority e he, hheld.priority f hfq] at hkey
          omega
      rw [hnext, hfirst]
      rfl

/-- Three elements, one of them inserted again. -/
theorem heap_refines_run :
  ∃ s, Run.run step (HeapRun.start Arena.blankKernel)
      [.insert 1 5, .insert 2 3, .pop, .insert 3 5, .insert 2 5] = some s
    ∧ s.inserted ≤ 2 ^ 64 ∧ s.queue ≠ []
    ∧ s.kernel.kSchedGetNext.2 = (StableQueue.first s.queue).map Prod.fst
  := by
  refine ⟨_, rfl, by decide, by decide, ?_⟩
  have hmeets : Run.Meets step Ok (HeapRun.start Arena.blankKernel)
      [.insert 1 5, .insert 2 3, .pop, .insert 3 5, .insert 2 5] := by
    have hcheck : Run.allOk step (fun s op => decide (s.Ok op)) (HeapRun.start Arena.blankKernel)
        [.insert 1 5, .insert 2 3, .pop, .insert 3 5, .insert 2 5] = true := rfl
    exact Run.meets_of_allOk (fun _ _ => of_decide_eq_true) hcheck
  apply (heap_refines ⟨_, hmeets, rfl⟩).2.2.2
  decide

/-! ### The counter comes round -/

/-- The heap is empty after `n` insertions. -/
structure Rest (n : ℕ) (s : HeapRun A) : Prop where
  held : s.Held
  queue : s.queue = []
  inserted : s.inserted = n

theorem Rest.room {n : ℕ} (h : Rest n s) :
  s.kernel.heap.count < s.kernel.heap.capacity
  := by
  rw [← BinHeap.length_toList, h.held.perm.length_eq, h.queue, h.held.capacity]
  decide

theorem Rest.not_mem {n : ℕ} (h : Rest n s) :
  p ∉ s.kernel.heap.toList
  := by
  rw [h.held.mem_toList, h.queue]
  simp

/-- An element is inserted and popped. -/
def insertPop : List HeapOp :=
  [.insert 1 0, .pop]

theorem Rest.round {n : ℕ} (h : Rest n s) :
  Run.Meets step Ok s insertPop ∧ ∃ s', Run.run step s insertPop = some s' ∧ Rest (n + 1) s'
  := by
  have hheld := h.held.insert (priority := 0) (h.not_mem (p := 1)) h.room
  have hqueue : (s.insert 1 0).queue = [(1, 0)] := by
    rw [HeapRun.insert, h.queue]
    rfl
  obtain ⟨as, e, bs, heap, hsplit, hnext, -⟩ := hheld.pop_spec (hqueue ▸ List.cons_ne_nil _ _)
  refine ⟨⟨⟨h.not_mem, h.room⟩, ?_⟩, (s.insert 1 0).pop, rfl, hheld.pop, ?_, ?_⟩
  · rintro _ ⟨⟩
    exact ⟨trivial, fun _ _ => trivial⟩
  · have he : e = (1, 0) := by
      apply List.mem_singleton.mp
      rw [← hqueue, hsplit]
      exact List.mem_append_right as List.mem_cons_self
    rw [HeapRun.pop, hnext, hqueue, he]
    rfl
  · rw [HeapRun.pop, HeapRun.insert, h.inserted]

/-- The insertions `2 ^ 64 - 1` and `2 ^ 64` are of two elements with the same priority, and
before them the heap is empty. -/
def wrapOps : List HeapOp :=
  Run.rounds insertPop (2 ^ 64 - 1) ++ [.insert 1 0, .insert 2 0]

/-- After `2 ^ 64 - 1` insertions the next element gets the greatest value, and the one
after it the value zero: the later one is popped. -/
theorem heap_not_stable :
  Run.Meets step Ok (HeapRun.start Arena.blankKernel) wrapOps
    ∧ ∃ s, Run.run step (HeapRun.start Arena.blankKernel) wrapOps = some s
      ∧ (StableQueue.first s.queue).map Prod.fst = some 1 ∧ s.kernel.kSchedGetNext.2 = some 2
  := by
  obtain ⟨has, s, hrun, hs⟩ := Run.run_rounds (P := Rest) (m := 2 ^ 64 - 1)
    ⟨Held.start Arena.blankKernel, rfl, rfl⟩ fun n _ s hs => hs.round
  rw [wrapOps]
  generalize Run.rounds insertPop (2 ^ 64 - 1) = as at has hrun ⊢
  have hone := hs.held.insert (priority := 0) (hs.not_mem (p := 1)) hs.room
  have hmem : ∀ x, x ∈ (s.insert 1 0).kernel.heap.toList → x = 1 := by
    intro x hx
    obtain ⟨e, he, rfl⟩ := hone.mem_toList.mp hx
    rw [HeapRun.insert, hs.queue] at he
    rw [List.mem_singleton.mp he]
  have hcount : (s.insert 1 0).kernel.heap.count = 1 := by
    rw [← BinHeap.length_toList, hone.perm.length_eq, HeapRun.insert, hs.queue]
    rfl
  have hroom : (s.insert 1 0).kernel.heap.count < (s.insert 1 0).kernel.heap.capacity := by
    rw [hcount, hone.capacity]
    decide
  have hnot : 2 ∉ (s.insert 1 0).kernel.heap.toList := fun h => absurd (hmem 2 h) (by decide)
  have htwo := hone.insert (priority := 0) hnot hroom
  have hqueue : ((s.insert 1 0).insert 2 0).queue = [(1, 0), (2, 0)] := by
    rw [HeapRun.insert, HeapRun.insert, hs.queue]
    rfl
  refine ⟨?_, (s.insert 1 0).insert 2 0, ?_, ?_, ?_⟩
  · apply Run.meets_append has
    intro t ht
    obtain rfl : s = t := Option.some.inj (hrun.symm.trans ht)
    have hstep₁ : s.step (.insert 1 0) = some (s.insert 1 0) := rfl
    have hstep₂ : (s.insert 1 0).step (.insert 2 0) = some ((s.insert 1 0).insert 2 0) := rfl
    apply Run.meets_cons ⟨hs.not_mem, hs.room⟩ hstep₁
    exact Run.meets_cons ⟨hnot, hroom⟩ hstep₂ trivial
  · rw [Run.run_append, hrun]
    rfl
  · rw [hqueue]
    rfl
  · obtain ⟨bs, e, cs, heap, hsplit, hpop, -, -, -, hmin⟩ :=
      htwo.pop_spec (hqueue ▸ List.cons_ne_nil _ _)
    have hmem : e ∈ [((1 : TdPtr), 0), (2, 0)] := by
      rw [← hqueue, hsplit]
      exact List.mem_append_right bs List.mem_cons_self
    rw [hpop]
    rcases List.mem_pair.mp hmem with he | rfl
    swap
    · rfl
    exfalso
    have he : e.1 = 1 := congrArg Prod.fst he
    -- the key of the later element is smaller
    have hkey := keyLt_false_iff.mp (hmin (2, 0) (hqueue ▸ by simp))
    have hval₂ : (((s.insert 1 0).insert 2 0).kernel.td 2).insertVal = 0 := by
      rw [HeapRun.insert, insertReady_td_self _ 2 0 hroom, readyEntry]
      dsimp only
      rw [hone.insertions, HeapRun.insert, hs.inserted]
      norm_num
    have hval₁ : (((s.insert 1 0).insert 2 0).kernel.td 1).insertVal = 2 ^ 64 - 1 := by
      rw [HeapRun.insert, insertReady_td_of_ne _ 0 hroom (by decide), HeapRun.insert,
        insertReady_td_self _ 1 0 hs.room, readyEntry]
      dsimp only
      rw [hs.held.insertions, hs.inserted]
      rfl
    have hprio₁ := htwo.priority (1, 0) (hqueue ▸ by simp)
    have hprio₂ := htwo.priority (2, 0) (hqueue ▸ by simp)
    rw [he, hval₁, hval₂, hprio₁, hprio₂] at hkey
    omega

end HeapRun

end Kernel

end TrainsOs
