import TrainsOs.Kernel.ReadyQueue

/-!
# Exactly which tasks an interrupt wakes up

`k_intr_wakeup_tasks` takes tasks off the list of those that wait for an event while it
walks along the list, and inserts them into the ready heap as it goes. The order of the
insertions is the order of the list, and so is the order in which the scheduler returns the
tasks of one priority, unless the insertion counter comes round in between.
-/

namespace TrainsOs

namespace Kernel

variable {A : Type} {k k' k'' : Kernel A} {p : TdPtr} {ts es : List TdPtr} {v : BitVec 64}

/-! ### Waking up tasks -/

/-- The descriptor of a task that is woken up with the return value `v`. -/
def wokenDsp (insertVal : ℕ) (v : BitVec 64) (t : TaskDsp) : TaskDsp :=
  { t with state := TaskState.ready, insertVal := insertVal, syscallRetval := v }

/-- The tasks `ts` were inserted into the ready heap, one after another, with the return
value `v`. Nothing else has changed but the lists of blocked tasks. -/
structure WokenBy (v : BitVec 64) (k k' : Kernel A) (ts : List TdPtr) : Prop where
  td : ∀ p, p ∉ ts → k'.td p = k.td p
  woken : ∀ (i : ℕ) (p : TdPtr), ts[i]? = some p →
    k'.td p = wokenDsp ((k.insertions + i) % 2 ^ 64) v (k.td p)
  heap : k'.heap.toList.Perm (k.heap.toList ++ ts)
  capacity : k'.heap.capacity = k.heap.capacity
  ordered : BinHeap.Ordered k.keyLt k.heap k.heap.count → (∀ p ∈ ts, p ∉ k.heap.toList) →
    BinHeap.Ordered k'.keyLt k'.heap k'.heap.count
  insertions : k'.insertions = (k.insertions + ts.length) % 2 ^ 64
  log : k'.log = k.log ++ ts.map .ready
  rest : k' = { k with
    td := k'.td
    heap := k'.heap
    insertions := k'.insertions
    links := k'.links
    blocked := k'.blocked
    log := k'.log }

theorem WokenBy.refl (v : BitVec 64) (hins : k.insertions < 2 ^ 64) :
  WokenBy v k k []
  := by
  constructor
  · intro p _
    rfl
  · intro i p hp
    cases hp
  · rw [List.append_nil]
  · rfl
  · intro hordered _
    exact hordered
  · exact (Nat.mod_eq_of_lt hins).symm
  · rw [List.map_nil, List.append_nil]
  · rfl

/-- A task is woken up, and then others are. -/
theorem WokenBy.cons (h : WokenBy v k k' [p]) (h' : WokenBy v k' k'' ts) (hp : p ∉ ts) :
  WokenBy v k k'' (p :: ts)
  := by
  constructor
  · intro x hx
    rw [List.mem_cons, not_or] at hx
    rw [h'.td x hx.2, h.td x (by simpa using hx.1)]
  · intro i x hx
    cases i with
    | zero =>
      obtain rfl : p = x := by simpa using hx
      rw [h'.td p hp, h.woken 0 p rfl]
    | succ i =>
      have hmem : x ∈ ts := List.mem_of_getElem? hx
      rw [h'.woken i x hx, h.td x (by simpa using ne_of_mem_of_not_mem hmem hp), h.insertions,
        List.length_singleton, Nat.mod_add_mod, Nat.add_assoc, Nat.add_comm 1]
  · apply h'.heap.trans
    apply (h.heap.append_right ts).trans
    rw [List.append_assoc]
    rfl
  · exact h'.capacity.trans h.capacity
  · intro hordered hapart
    apply h'.ordered
    · apply h.ordered hordered
      intro x hx
      apply hapart x
      rw [List.mem_singleton.mp hx]
      exact List.mem_cons_self
    · intro x hx hmem
      obtain hmem | hmem := List.mem_append.mp (h.heap.mem_iff.mp hmem)
      · apply hapart x (List.mem_cons_of_mem p hx) hmem
      · rw [List.mem_singleton.mp hmem] at hx
        exact hp hx
  · rw [h'.insertions, h.insertions, List.length_singleton, List.length_cons, Nat.mod_add_mod,
      Nat.add_assoc, Nat.add_comm 1]
  · rw [h'.log, h.log, List.append_assoc]
    rfl
  · rw [h'.rest, h.rest]

theorem WokenBy.count (h : WokenBy v k k' ts) :
  k'.heap.count = k.heap.count + ts.length
  := by
  have := h.heap.length_eq
  rwa [List.length_append, BinHeap.length_toList, BinHeap.length_toList] at this

/-- Making a task ready that has been taken off a list. -/
theorem wokenBy_kSchedAddReady (l : DList.Links TdPtr) (hd : Blocked → Option TdPtr)
    (v : BitVec 64) (hins : k.insertions < 2 ^ 64) (hroom : k.heap.count < k.heap.capacity) :
  WokenBy v k (((k.relink l hd).setRetval p v).kSchedAddReady p) [p]
  := by
  have heq := kSchedAddReady_room (k := (k.relink l hd).setRetval p v) p hroom
  generalize ((k.relink l hd).setRetval p v).kSchedAddReady p = k' at *
  have hself : k'.td p = wokenDsp k.insertions v (k.td p) := by
    rw [heq, readied, putHeap, modify_td, if_pos rfl, setRetval, modify_td, if_pos rfl]
    rfl
  have hother : ∀ x, x ≠ p → k'.td x = k.td x := by
    intro x hx
    rw [heq, readied, putHeap, modify_td, if_neg hx, setRetval, modify_td, if_neg hx]
    rfl
  have hheap : k'.heap = k.heap.insert k'.keyLt p := by
    rw [heq]
    rfl
  constructor
  · intro x hx
    apply hother x
    rwa [List.mem_singleton] at hx
  · intro i x hx
    cases i with
    | zero =>
      obtain rfl : p = x := by simpa using hx
      rw [hself, Nat.add_zero, Nat.mod_eq_of_lt hins]
    | succ i => cases hx
  · rw [hheap]
    apply (BinHeap.insert_spec p hroom).1.trans
    apply (List.perm_append_singleton p _).symm
  · rw [hheap]
    apply (BinHeap.insert_spec p hroom).2.2
  · intro hordered hapart
    rw [hheap]
    apply BinHeap.insert_ordered (keyLt_weakOrder _)
    have hne : ∀ i < k.heap.count, k.heap.array i ≠ p := by
      rintro i hi rfl
      apply hapart _ List.mem_cons_self
      apply List.mem_map_of_mem (List.mem_range.mpr hi)
    apply hordered.congr fun _ _ => rfl
    intro i hi j hj
    simp only [keyLt, hother _ (hne i hi), hother _ (hne j hj)]
  · rw [heq]
    rfl
  · rw [heq]
    rfl
  · rw [heq]
    rfl

/-! ### The loop -/

/-- A round of the loop of `k_intr_wakeup_tasks` that wakes a task up. -/
theorem wokenBy_round (hlist : DList.IsList k.links (k.blocked .event) es) (hp : p ∈ es)
    (hstate : keIntrIdRangeMin ≤ (k.td p).state) (v : BitVec 64) (hins : k.insertions < 2 ^ 64)
    (hroom : k.heap.count < k.heap.capacity) :
  ∃ k₁ k', k.kSchedRemoveEventWait p = some k₁ ∧ (k₁.setRetval p v).kSchedAddReady p = k'
    ∧ WokenBy v k k' [p]
    ∧ DList.IsList k'.links (k'.blocked .event) (es.erase p)
    ∧ (∀ x, x ∉ es → k'.links.prev x = k.links.prev x ∧ k'.links.next x = k.links.next x)
    ∧ ∀ b, b ≠ .event → k'.blocked b = k.blocked b
  := by
  obtain ⟨l, hdel, hlist', hframe⟩ := hlist.delete hp
  generalize hhd : Function.update k.blocked .event (es.erase p).head? = hd
  have hrem : k.kSchedRemoveEventWait p = some (k.relink l hd) := by
    rw [kSchedRemoveEventWait, removeWait, if_pos (by simpa [Blocked.test] using hstate), dlDelete,
      hdel, ← hhd]
    rfl
  use k.relink l hd, ((k.relink l hd).setRetval p v).kSchedAddReady p, hrem, rfl
  use wokenBy_kSchedAddReady l hd v hins hroom
  rw [kSchedAddReady_links, kSchedAddReady_blocked]
  constructor
  · show DList.IsList l (hd .event) (es.erase p)
    rw [← hhd, Function.update_self]
    exact hlist'
  · use hframe
    intro b hb
    show hd b = k.blocked b
    rw [← hhd, Function.update_of_ne hb]

/-- The tasks among `es` that wait for the event `intrId`. -/
def waiters (k : Kernel A) (es : List TdPtr) (intrId : ℕ) : List TdPtr :=
  es.filter fun p => (k.td p).state = intrId

/-- The tasks among `es` that wait for another event. -/
def others (k : Kernel A) (es : List TdPtr) (intrId : ℕ) : List TdPtr :=
  es.filter fun p => (k.td p).state ≠ intrId

theorem waiters_congr {intrId : ℕ} (h : ∀ p ∈ es, k'.td p = k.td p) :
  k'.waiters es intrId = k.waiters es intrId ∧ k'.others es intrId = k.others es intrId
  := by
  constructor
  all_goals
    apply List.filter_congr
    intro p hp
    rw [h p hp]

/-- The loop from a node of the list on. The induction is on the rest of the list, which
the tasks that are taken out in front of it do not change. -/
theorem wokenBy_wakeupLoop {intrId : ℕ} (hid : keIntrIdRangeMin ≤ intrId) (retval : ℕ)
    (as es : List TdPtr) (hlist : DList.IsList k.links (k.blocked .event) (as ++ es)) {fuel : ℕ}
    (hfuel : es.length ≤ fuel) {n : ℕ} (hn : n < 2 ^ 8) (hins : k.insertions < 2 ^ 64)
    (hroom : k.heap.count + (k.waiters es intrId).length ≤ k.heap.capacity) :
  ∃ k', wakeupLoop intrId retval fuel k es.head? n
      = some (k', (n + (k.waiters es intrId).length) % 2 ^ 8)
    ∧ WokenBy (BitVec.ofNat 64 retval) k k' (k.waiters es intrId)
    ∧ DList.IsList k'.links (k'.blocked .event) (as ++ k.others es intrId)
    ∧ (∀ x, x ∉ as ++ es →
      k'.links.prev x = k.links.prev x ∧ k'.links.next x = k.links.next x)
    ∧ ∀ b, b ≠ .event → k'.blocked b = k.blocked b
  := by
  induction es generalizing k as fuel n with
  | nil =>
    use k
    constructor
    · rw [waiters, List.filter_nil, List.length_nil, Nat.add_zero, Nat.mod_eq_of_lt hn]
      cases fuel <;> rfl
    · use WokenBy.refl _ hins, hlist, fun _ _ => ⟨rfl, rfl⟩, fun _ _ => rfl
  | cons p es ih =>
    obtain _ | fuel := fuel
    · cases hfuel
    have hfuel : es.length ≤ fuel := Nat.le_of_succ_le_succ hfuel
    have hnext : k.links.next p = es.head? := hlist.next_eq as p es rfl
    have hnodup := hlist.nodup
    rw [List.head?_cons]
    unfold wakeupLoop
    rw [hnext]
    by_cases hp : (k.td p).state = intrId
    · have hwaiters : k.waiters (p :: es) intrId = p :: k.waiters es intrId :=
        List.filter_cons_of_pos (by simpa using hp)
      have hothers : k.others (p :: es) intrId = k.others es intrId :=
        List.filter_cons_of_neg (by simpa using hp)
      rw [hwaiters, hothers]
      rw [hwaiters, List.length_cons] at hroom
      obtain ⟨k₁, k₂, hrem, hadd, hwoken, hlist₂, hlinks₂, hblocked₂⟩ :=
        wokenBy_round hlist (List.mem_append_right as List.mem_cons_self) (hp ▸ hid)
          (BitVec.ofNat 64 retval) hins (by omega)
      have hpes : p ∉ es := (List.nodup_cons.mp (List.nodup_append.mp hnodup).2.1).1
      have hpas : p ∉ as := by
        intro hpas
        exact (List.nodup_append.mp hnodup).2.2 p hpas p List.mem_cons_self rfl
      rw [List.erase_append_right _ hpas, List.erase_cons_head] at hlist₂
      obtain ⟨hw, ho⟩ : k₂.waiters es intrId = k.waiters es intrId
          ∧ k₂.others es intrId = k.others es intrId := by
        apply waiters_congr
        intro x hx
        apply hwoken.td
        rw [List.mem_singleton]
        exact ne_of_mem_of_not_mem hx hpes
      have hcount := hwoken.count
      obtain ⟨k', hloop, hwoken', hlist', hlinks', hblocked'⟩ := ih as hlist₂ hfuel
        (Nat.mod_lt (n + 1) (by decide)) (by
          rw [hwoken.insertions]
          apply Nat.mod_lt _ (by decide)) (by
          rw [hw, hcount, hwoken.capacity, List.length_singleton]
          omega)
      rw [hw] at hloop hwoken'
      rw [ho] at hlist'
      use k'
      constructor
      · rw [if_pos hp, hrem]
        simp only [Option.bind_eq_bind, Option.bind_some]
        rw [hadd, hloop, List.length_cons, Nat.mod_add_mod, Nat.add_assoc, Nat.add_comm 1]
      · constructor
        · apply hwoken.cons hwoken'
          intro hmem
          exact hpes (List.mem_of_mem_filter hmem)
        · use hlist'
          constructor
          · intro x hx
            have hx' : x ∉ as ++ es := by
              intro hmem
              apply hx
              rw [List.mem_append] at hmem ⊢
              exact hmem.imp_right (List.mem_cons_of_mem p)
            obtain ⟨hprev, hnext⟩ := hlinks' x hx'
            obtain ⟨hprev₂, hnext₂⟩ := hlinks₂ x hx
            use hprev.trans hprev₂, hnext.trans hnext₂
          · intro b hb
            rw [hblocked' b hb, hblocked₂ b hb]
    · have hwaiters : k.waiters (p :: es) intrId = k.waiters es intrId :=
        List.filter_cons_of_neg (by simpa using hp)
      have hothers : k.others (p :: es) intrId = p :: k.others es intrId :=
        List.filter_cons_of_pos (by simpa using hp)
      have hsplit : as ++ p :: es = (as ++ [p]) ++ es := by
        rw [List.append_assoc]
        rfl
      rw [hwaiters] at hroom ⊢
      rw [hothers]
      rw [hsplit] at hlist ⊢
      obtain ⟨k', hloop, hwoken, hlist', hrest⟩ := ih (as ++ [p]) hlist hfuel hn hins hroom
      use k'
      rw [if_neg hp]
      use hloop, hwoken
      rw [List.append_assoc] at hlist'
      use hlist'

/-! ### The order in which the scheduler returns tasks -/

/-- The tasks that `n` calls of `k_sched_get_next` return. -/
def drain : ℕ → Kernel A → List TdPtr
  | 0, _ => []
  | n + 1, k =>
      match k.kSchedGetNext with
      | (_, none) => []
      | (k, some p) => p :: drain n k

/-- The ready tasks are returned in the order of their keys. -/
theorem drain_spec (n : ℕ) (hcount : k.heap.count = n)
    (hordered : BinHeap.Ordered k.keyLt k.heap k.heap.count) :
  (drain n k).Perm k.heap.toList ∧ (drain n k).Pairwise fun x y => k.keyLt y x = false
  := by
  induction n generalizing k with
  | zero =>
    have hnil : k.heap.toList = [] := by
      apply List.eq_nil_of_length_eq_zero
      rw [BinHeap.length_toList, hcount]
    rw [hnil]
    use List.Perm.nil, List.Pairwise.nil
  | succ n ih =>
    cases hpop : k.heap.pop k.keyLt with
    | none =>
      have := BinHeap.pop_eq_none_iff.mp hpop
      omega
    | some r =>
      obtain ⟨p, heap⟩ := r
      have hnext : k.kSchedGetNext
          = (k.putHeap heap k.insertions (k.log ++ [.next p]), some p) := by
        rw [kSchedGetNext, hpop]
        rfl
      obtain ⟨hperm, hcount', -⟩ := BinHeap.pop_spec hpop
      obtain ⟨hordered', hmin⟩ := BinHeap.pop_ordered (keyLt_weakOrder _) hordered hpop
      obtain ⟨hrest, hsorted⟩ := ih (k := k.putHeap heap k.insertions (k.log ++ [.next p]))
        (by
          show heap.count = n
          omega) hordered'
      have hdrain : drain (n + 1) k
          = p :: drain n (k.putHeap heap k.insertions (k.log ++ [.next p])) := by
        rw [drain, hnext]
      rw [hdrain]
      constructor
      · apply ((hrest.cons p).trans _).trans hperm.symm
        exact List.Perm.refl _
      · apply List.Pairwise.cons _ hsorted
        intro y hy
        apply hmin y
        apply hperm.mem_iff.mpr
        apply List.mem_cons_of_mem p (hrest.mem_iff.mp hy)

/-- Of two ready tasks the one with the smaller key is returned first. -/
theorem sublist_drain {x y : TdPtr} (hordered : BinHeap.Ordered k.keyLt k.heap k.heap.count)
    (hx : x ∈ k.heap.toList) (hy : y ∈ k.heap.toList) (hlt : k.keyLt x y = true) :
  [x, y].Sublist (drain k.heap.count k)
  := by
  obtain ⟨hperm, hsorted⟩ := drain_spec k.heap.count rfl hordered
  obtain ⟨as, bs, hsplit⟩ := List.append_of_mem (hperm.mem_iff.mpr hx)
  have hy' := hperm.mem_iff.mpr hy
  rw [hsplit] at hy' hsorted ⊢
  have hne : y ≠ x := by
    rintro rfl
    rw [(keyLt_weakOrder k).irrefl] at hlt
    cases hlt
  have hbs : y ∈ bs := by
    obtain has | hbs := List.mem_append.mp hy'
    · -- a task in front of another one has no greater key
      have hfalse := (List.pairwise_append.mp hsorted).2.2 y has x List.mem_cons_self
      rw [hlt] at hfalse
      cases hfalse
    · exact (List.mem_cons.mp hbs).resolve_left hne
  apply List.Sublist.trans _ (List.sublist_append_right as _)
  apply List.Sublist.cons_cons
  apply List.singleton_sublist.mpr hbs

/-! ### All tasks that wait for an event -/

/-- What `k_intr_wakeup_tasks` does to the list `es` of the tasks that wait for an event:
the kernel afterwards is `k'`, and `n` is returned. -/
structure WakesUp (k : Kernel A) (es : List TdPtr) (intrId retval : ℕ) (k' : Kernel A) (n : ℕ) :
    Prop where
  woken : WokenBy (BitVec.ofNat 64 retval) k k' (k.waiters es intrId)
  event : DList.IsList k'.links (k'.blocked .event) (k.others es intrId)
  links : ∀ p, p ∉ es → k'.links.prev p = k.links.prev p ∧ k'.links.next p = k.links.next p
  blocked : ∀ b, b ≠ .event → k'.blocked b = k.blocked b
  count : n = (k.waiters es intrId).length

/-- The tasks `ts` of the kernel `k` are scheduled in this order in `k'`, as far as they have
the same priority. -/
def ScheduledInOrder (k : Kernel A) (ts : List TdPtr) (k' : Kernel A) : Prop :=
  ∀ x y, [x, y].Sublist ts → (k.td x).priority = (k.td y).priority →
    [x, y].Sublist (drain k'.heap.count k')

/-- Tasks that are inserted one after another have ascending insertion values. -/
theorem WokenBy.scheduledInOrder (h : WokenBy v k k' ts)
    (hordered : BinHeap.Ordered k.keyLt k.heap k.heap.count)
    (hapart : ∀ p ∈ ts, p ∉ k.heap.toList) (hins : k.insertions + ts.length ≤ 2 ^ 64) :
  k.ScheduledInOrder ts k'
  := by
  have hkeys : ts.Pairwise fun x y =>
      (k.td x).priority = (k.td y).priority → k'.keyLt x y = true := by
    rw [List.pairwise_iff_getElem]
    intro i j hi hj hij hprio
    rw [keyLt, h.woken i _ (List.getElem?_eq_getElem hi), h.woken j _ (List.getElem?_eq_getElem hj),
      wokenDsp, wokenDsp, if_pos hprio, decide_eq_true_eq]
    dsimp only
    rw [Nat.mod_eq_of_lt (by omega), Nat.mod_eq_of_lt (by omega)]
    omega
  have hmem : ∀ p ∈ ts, p ∈ k'.heap.toList := by
    intro p hp
    apply h.heap.mem_iff.mpr
    apply List.mem_append_right _ hp
  intro x y hsub hprio
  apply sublist_drain (h.ordered hordered hapart)
  · apply hmem x
    apply hsub.subset List.mem_cons_self
  · apply hmem y
    apply hsub.subset (List.mem_cons_of_mem x List.mem_cons_self)
  · apply List.pairwise_iff_forall_sublist.mp hkeys hsub hprio

/-- In every state with a well-formed list of the tasks that wait for an event, and room in
the ready heap, exactly those that wait for the event are woken up, in the order of the
list. They are scheduled in this order while the insertion counter does not come round. -/
theorem intrWakeup_exact {intrId : ℕ} (retval : ℕ) (hid : keIntrIdRangeMin ≤ intrId)
    (hlist : DList.IsList k.links (k.blocked .event) es) (halive : ∀ p ∈ es, p ∈ k.mapTid)
    (hcapacity : k.heap.capacity = kSchedHeapCapacity) (hins : k.insertions < 2 ^ 64)
    (hroom : k.heap.count + (k.waiters es intrId).length ≤ k.heap.capacity) :
  ∃ k' n, k.kIntrWakeupTasks intrId retval = some (k', n) ∧ k.WakesUp es intrId retval k' n
    ∧ (k.insertions + (k.waiters es intrId).length ≤ 2 ^ 64 →
      BinHeap.Ordered k.keyLt k.heap k.heap.count → (∀ p ∈ es, p ∉ k.heap.toList) →
      k.ScheduledInOrder (k.waiters es intrId) k')
  := by
  have hfuel : es.length ≤ k.mapTid.length :=
    (List.subperm_of_subset hlist.nodup halive).length_le
  obtain ⟨k', hloop, hwoken, hlist', hlinks, hblocked⟩ :=
    wokenBy_wakeupLoop hid retval [] es hlist hfuel (Nat.two_pow_pos 8) hins hroom
  use k', (k.waiters es intrId).length
  constructor
  · rw [kIntrWakeupTasks, hlist.head_eq, hloop, Nat.zero_add, Nat.mod_eq_of_lt]
    rw [hcapacity, kSchedHeapCapacity] at hroom
    omega
  · use ⟨hwoken, hlist', hlinks, hblocked, rfl⟩
    intro hround hordered hapart
    apply hwoken.scheduledInOrder hordered _ hround
    intro p hp
    apply hapart p (List.mem_of_mem_filter hp)

/-- Three tasks of one priority, of which the first and the last wait for the timer. -/
def waitKernel (insertions : ℕ) : Kernel Arena :=
  { Arena.blankKernel with
    td := fun p => { Arena.blankKernel.td p with state := if p = 2 then 98 else 97 }
    insertions := insertions
    links :=
      { prev := fun p => if p = 1 then some 3 else some (p - 1)
        next := fun p => if p = 3 then none else some (p + 1) }
    blocked := fun b => if b = .event then some 1 else none
    mapTid := [1, 2, 3] }

theorem waitKernel_list (n : ℕ) :
  DList.IsList (waitKernel n).links ((waitKernel n).blocked .event) [1, 2, 3]
  := by
  constructor
  · decide
  · rfl
  all_goals
    intro as x bs h
    obtain _ | ⟨a, _ | ⟨b, _ | ⟨c, as⟩⟩⟩ := as
    all_goals
      simp only [List.nil_append, List.cons_append, List.cons.injEq, List.nil_eq,
        List.append_eq_nil_iff, reduceCtorEq, and_false] at h
    · obtain ⟨rfl, rfl⟩ := h
      rfl
    · obtain ⟨rfl, rfl, rfl⟩ := h
      rfl
    · obtain ⟨rfl, rfl, rfl, rfl⟩ := h
      rfl

/-- The first and the last of the three tasks are woken up, in this order. -/
theorem intrWakeup_exact_waitKernel :
  ∃ k' n, (waitKernel 0).kIntrWakeupTasks 97 5 = some (k', n)
    ∧ (waitKernel 0).WakesUp [1, 2, 3] 97 5 k' n
    ∧ (waitKernel 0).ScheduledInOrder [1, 3] k'
  := by
  have hid : keIntrIdRangeMin ≤ 97 := by decide
  obtain ⟨k', n, heq, hwakes, horder⟩ := intrWakeup_exact 5 hid (waitKernel_list 0) (by decide) rfl
    (by decide) (by decide)
  use k', n, heq, hwakes
  apply horder (by decide)
  · intro i hi
    cases hi
  · decide

/-- The insertion counter comes round between the first and the last of the three tasks. The
last one is returned first. -/
theorem intrWakeup_not_inOrder_waitKernel :
  ∃ k' n, (waitKernel (2 ^ 64 - 1)).kIntrWakeupTasks 97 5 = some (k', n)
    ∧ DList.IsList (waitKernel (2 ^ 64 - 1)).links ((waitKernel (2 ^ 64 - 1)).blocked .event)
      [1, 2, 3]
    ∧ drain k'.heap.count k' = [3, 1]
    ∧ ¬ (waitKernel (2 ^ 64 - 1)).ScheduledInOrder [1, 3] k'
  := by
  have h : (((waitKernel (2 ^ 64 - 1)).kIntrWakeupTasks 97 5).any fun r =>
      drain r.1.heap.count r.1 = [3, 1]) = true := by
    decide +kernel
  obtain ⟨⟨k', n⟩, heq, hdrain⟩ := (Option.any_eq_true _ _).mp h
  rw [decide_eq_true_eq] at hdrain
  use k', n, heq, waitKernel_list _, hdrain
  intro horder
  have hsub := horder 1 3 (List.Sublist.refl _) rfl
  rw [hdrain] at hsub
  revert hsub
  decide

end Kernel

end TrainsOs
