import TrainsOs.Kernel.Moves

/-!
# The wait queues

What the operations on mailboxes do to the wait queues, and what sending, receiving,
creating and destroying a task does to their part of the invariant.
-/

namespace TrainsOs

namespace Kernel

variable {A : Type} {k k' : Kernel A} {q q' : Blocked → List TdPtr} {cq : Prop}
  {sent sent' : TdPtr → ℤ} {r c : TdPtr}

/-! ### Mailboxes -/

/-- Changing the mailbox of a task but for its wait queue. -/
theorem agree_modifyMailbox [TaskAlloc A] (k : Kernel A) (p : TdPtr) {f : Mailbox → Mailbox}
    (hf : ∀ m, (f m).senderWaitqueue = m.senderWaitqueue) :
  Agree k (k.modifyMailbox p f)
  := k.agree_modify p rfl rfl rfl (hf _)

/-- Setting the wait queue of a task. -/
def setRing (k : Kernel A) (p : TdPtr) (ring : RingBuffer TdPtr) : Kernel A :=
  k.modifyMailbox p fun m => { m with senderWaitqueue := ring }

theorem ring_setRing (k : Kernel A) (p : TdPtr) (ring : RingBuffer TdPtr) (x : TdPtr) :
  (k.setRing p ring).ring x = if x = p then ring else k.ring x
  := by rw [setRing, modifyMailbox, ring_modify]

theorem state_setRing (k : Kernel A) (p : TdPtr) (ring : RingBuffer TdPtr) (x : TdPtr) :
  (k.setRing p ring).state x = k.state x
  := by
  rw [setRing, modifyMailbox, state_modify]
  split
  · rename_i hx
    rw [hx]
    rfl
  · rfl

theorem tid_setRing (k : Kernel A) (p : TdPtr) (ring : RingBuffer TdPtr) (x : TdPtr) :
  ((k.setRing p ring).td x).tid = (k.td x).tid
  := by
  rw [setRing, modifyMailbox, tid_modify]
  rfl

theorem stackAddr_setRing (k : Kernel A) (p : TdPtr) (ring : RingBuffer TdPtr) (x : TdPtr) :
  ((k.setRing p ring).td x).stackAddr = (k.td x).stackAddr
  := by
  rw [setRing, modifyMailbox, stackAddr_modify]
  rfl

/-- A wait queue with room takes the sender. -/
theorem kMboxAddSendQueue_room (hwf : (k.ring r).Wf) (hroom : (k.ring r).size < (k.ring r).capacity)
    (c : TdPtr) :
  ∃ ring, k.kMboxAddSendQueue r c = k.setRing r ring ∧ ring.Wf
    ∧ ring.capacity = (k.ring r).capacity ∧ ring.toList = k.queue r ++ [c]
  := by
  obtain ⟨ring, slot, hpush, hwf', hcap, hlist⟩ := RingBuffer.push_spec hwf hroom c
  use ring.store slot c
  constructor
  · rw [kMboxAddSendQueue]
    rw [Kernel.ring] at hpush
    rw [hpush]
    rfl
  · exact ⟨hwf', hcap, hlist⟩

/-- When the wait queue is full, the sender is stored at address `0`. -/
theorem kMboxAddSendQueue_full (hfull : (k.ring r).capacity ≤ (k.ring r).size) (c : TdPtr) :
  k.kMboxAddSendQueue r c = { k with atNull := some c }
  := by
  have hpush := RingBuffer.pushPre_eq_none_iff.mpr hfull
  rw [kMboxAddSendQueue]
  rw [Kernel.ring] at hpush
  rw [hpush]

/-- Receiving from an empty wait queue. -/
theorem kMboxPopSendQueue_nil (h : k.queue r = []) :
  k.kMboxPopSendQueue r = (k, none)
  := by
  have hsize : (k.ring r).size = 0 := by
    rw [← RingBuffer.length_toList]
    exact congrArg List.length h
  have hpeek := RingBuffer.peek_eq_none_iff.mpr hsize
  rw [kMboxPopSendQueue]
  rw [Kernel.ring] at hpeek
  rw [hpeek]

/-- Receiving from a wait queue takes the oldest sender. -/
theorem kMboxPopSendQueue_cons (hwf : (k.ring r).Wf) {s : TdPtr} {rest : List TdPtr}
    (h : k.queue r = s :: rest) :
  ∃ ring, k.kMboxPopSendQueue r = (k.setRing r ring, some s) ∧ ring.Wf
    ∧ ring.capacity = (k.ring r).capacity ∧ ring.toList = rest
  := by
  cases hpeek : (k.ring r).peek with
  | none =>
    have hsize := RingBuffer.peek_eq_none_iff.mp hpeek
    rw [← RingBuffer.length_toList] at hsize
    rw [Kernel.queue] at h
    rw [h] at hsize
    cases hsize
  | some slot =>
    obtain ⟨hwf', hcap, hlist⟩ := RingBuffer.pop_spec hwf hpeek
    rw [Kernel.queue] at h
    rw [h, List.cons.injEq] at hlist
    use (k.ring r).pop
    refine ⟨?_, hwf', hcap, hlist.2.symm⟩
    rw [kMboxPopSendQueue]
    rw [Kernel.ring] at hpeek
    rw [hpeek, hlist.1]
    rfl

/-! ### The invariant -/

theorem sameQueues_setState (k : Kernel A) (p : TdPtr) (s : ℕ) :
  SameQueues k (k.setState p s)
  := by
  constructor
  · rfl
  · rfl
  · exact k.tid_modify p rfl
  · intro x
    rw [setState, ring_modify]
    split
    · rename_i hx
      rw [hx]
      rfl
    · rfl

theorem sameQueues_relink (k : Kernel A) (l : DList.Links TdPtr) (hd : Blocked → Option TdPtr) :
  SameQueues k (k.relink l hd)
  := ⟨rfl, rfl, fun _ => rfl, fun _ => rfl⟩

theorem sameQueues_kSchedAddReady (k : Kernel A) (p : TdPtr) :
  SameQueues k (k.kSchedAddReady p)
  := by
  constructor
  · exact k.kSchedAddReady_mapTid p
  · exact k.kSchedAddReady_atNull p
  · exact k.tid_kSchedAddReady p
  · exact k.ring_kSchedAddReady p

/-- A sender is appended to the wait queue of the receiver. -/
theorem Queues.push (h : k.Queues cq sent q) (hr : r ∈ k.mapTid) (hrecv : r ∉ q .recv)
    (hc : c ∉ q .send) (hmap : k'.mapTid = k.mapTid) (hnull : k'.atNull = k.atNull)
    (htid : ∀ x, (k'.td x).tid = (k.td x).tid) (hother : ∀ x, x ≠ r → k'.ring x = k.ring x)
    (hwf : (k'.ring r).Wf ∧ (k'.ring r).capacity = userStackArrayCnt)
    (hqueue : k'.queue r = k.queue r ++ [c]) (hsend : q' .send = q .send ++ [c])
    (hq'recv : q' .recv = q .recv) (hsentc : sent' c = (k.td r).tid)
    (hsent : ∀ x, x ≠ c → sent' x = sent x) :
  k'.Queues cq sent' q'
  := by
  have hcfree : ∀ x ∈ k.mapTid, c ∉ k.queue x := fun x hx hmem => hc (h.send x hx c hmem)
  have hold : ∀ x, x ≠ r → k'.queue x = k.queue x :=
    fun x hx => congrArg RingBuffer.toList (hother x hx)
  have hmem : ∀ x s, s ∈ k'.queue x ↔ s ∈ k.queue x ∨ (x = r ∧ s = c) := by
    intro x s
    by_cases hx : x = r
    · rw [hx, hqueue, List.mem_append, List.mem_singleton]
      simp
    · rw [hold x hx]
      simp [hx]
  constructor
  · intro x hx
    rw [hmap] at hx
    by_cases hxr : x = r
    · rw [hxr]
      exact hwf
    · rw [hother x hxr]
      exact h.wf x hx
  · intro x hx s hs
    rw [hmap] at hx
    rw [hsend, List.mem_append, List.mem_singleton]
    obtain hs | ⟨-, hs⟩ := (hmem x s).mp hs
    · exact Or.inl (h.send x hx s hs)
    · exact Or.inr hs
  · intro x hx
    rw [hmap] at hx
    by_cases hxr : x = r
    · rw [hxr, hqueue]
      apply List.nodup_append.mpr
      refine ⟨h.nodup r hr, List.nodup_singleton c, ?_⟩
      rintro s hs y hy rfl
      exact hcfree r hr (List.mem_singleton.mp hy ▸ hs)
    · rw [hold x hxr]
      exact h.nodup x hx
  · intro x hx y hy s hsx hsy
    rw [hmap] at hx hy
    obtain hsx | ⟨hxr, hsc⟩ := (hmem x s).mp hsx <;> obtain hsy | ⟨hyr, hsc'⟩ := (hmem y s).mp hsy
    · exact h.apart x hx y hy s hsx hsy
    · exact absurd hsx (hsc' ▸ hcfree x hx)
    · exact absurd hsy (hsc ▸ hcfree y hy)
    · rw [hxr, hyr]
  · intro x hx
    rw [hq'recv] at hx
    rw [hold x (ne_of_mem_of_not_mem hx hrecv)]
    exact h.recv x hx
  · intro hcq s hs
    rw [hsend, List.mem_append, List.mem_singleton] at hs
    by_cases hsc : s = c
    · use r
      rw [hmap, hmem, htid, hsc]
      exact ⟨hr, Or.inr ⟨rfl, rfl⟩, hsentc⟩
    · obtain ⟨x, hx, hsx, htx⟩ := h.queued hcq s (hs.resolve_right hsc)
      use x
      rw [hmap, hmem, htid, hsent s hsc]
      exact ⟨hx, Or.inl hsx, htx⟩
  · rw [hnull]
    exact h.atNull

/-- Only the receivers of those who wait to send matter. -/
theorem Queues.resent (h : k.Queues cq sent q) (hsent : ∀ s ∈ q .send, sent' s = sent s) :
  k.Queues cq sent' q
  := by
  constructor
  · exact h.wf
  · exact h.send
  · exact h.nodup
  · exact h.apart
  · exact h.recv
  · intro hcq s hs
    rw [hsent s hs]
    exact h.queued hcq s hs
  · exact h.atNull

/-- A sender that finds the wait queue full is in no wait queue. -/
theorem Queues.overflow (h : k.Queues cq sent q) (hcq : ¬ cq) (hmap : k'.mapTid = k.mapTid)
    (hring : ∀ x, k'.ring x = k.ring x) (hsend : ∀ s ∈ q .send, s ∈ q' .send)
    (hrecv : q' .recv = q .recv) :
  k'.Queues cq sent' q'
  := by
  have hqueue : ∀ x, k'.queue x = k.queue x := fun x => congrArg RingBuffer.toList (hring x)
  constructor
  · simpa only [hmap, hring] using h.wf
  · intro x hx s hs
    rw [hmap] at hx
    rw [hqueue] at hs
    exact hsend s (h.send x hx s hs)
  · simpa only [hmap, hqueue] using h.nodup
  · simpa only [hmap, hqueue] using h.apart
  · simpa only [hqueue, hrecv] using h.recv
  · exact fun hcq' => absurd hcq' hcq
  · exact fun hcq' => absurd hcq' hcq

/-- The receiver takes the oldest sender. -/
theorem Queues.pop (h : k.Queues cq sent q) (hnodup : (q .send).Nodup) (hr : r ∈ k.mapTid)
    {s : TdPtr} {rest : List TdPtr} (hqueue : k.queue r = s :: rest)
    (hmap : k'.mapTid = k.mapTid) (hnull : k'.atNull = k.atNull)
    (htid : ∀ x, (k'.td x).tid = (k.td x).tid) (hother : ∀ x, x ≠ r → k'.ring x = k.ring x)
    (hwf : (k'.ring r).Wf ∧ (k'.ring r).capacity = userStackArrayCnt)
    (hqueue' : k'.queue r = rest) (hsend : q' .send = (q .send).erase s)
    (hrecv : q' .recv = q .recv) :
  k'.Queues cq sent q'
  := by
  have hsr : s ∈ k.queue r := by
    rw [hqueue]
    exact List.mem_cons_self
  have hrnodup := h.nodup r hr
  rw [hqueue, List.nodup_cons] at hrnodup
  have hold : ∀ x, x ≠ r → k'.queue x = k.queue x :=
    fun x hx => congrArg RingBuffer.toList (hother x hx)
  have hmem : ∀ x ∈ k.mapTid, ∀ y, y ∈ k'.queue x ↔ y ∈ k.queue x ∧ y ≠ s := by
    intro x hx y
    by_cases hxr : x = r
    · rw [hxr, hqueue, hqueue', List.mem_cons]
      constructor
      · intro hy
        exact ⟨Or.inr hy, ne_of_mem_of_not_mem hy hrnodup.1⟩
      · rintro ⟨hy, hne⟩
        exact hy.resolve_left hne
    · rw [hold x hxr]
      constructor
      · intro hy
        refine ⟨hy, ?_⟩
        rintro rfl
        exact hxr (h.apart x hx r hr y hy hsr)
      · exact And.left
  constructor
  · intro x hx
    rw [hmap] at hx
    by_cases hxr : x = r
    · rw [hxr]
      exact hwf
    · rw [hother x hxr]
      exact h.wf x hx
  · intro x hx y hy
    rw [hmap] at hx
    obtain ⟨hy, hne⟩ := (hmem x hx y).mp hy
    rw [hsend, List.mem_erase_of_ne hne]
    exact h.send x hx y hy
  · intro x hx
    rw [hmap] at hx
    by_cases hxr : x = r
    · rw [hxr, hqueue']
      exact hrnodup.2
    · rw [hold x hxr]
      exact h.nodup x hx
  · intro x hx y hy z hzx hzy
    rw [hmap] at hx hy
    exact h.apart x hx y hy z ((hmem x hx z).mp hzx).1 ((hmem y hy z).mp hzy).1
  · intro x hx
    rw [hrecv] at hx
    have hnil := h.recv x hx
    by_cases hxr : x = r
    · rw [hxr, hqueue] at hnil
      cases hnil
    · rw [hold x hxr]
      exact hnil
  · intro hcq y hy
    rw [hsend, hnodup.mem_erase_iff] at hy
    obtain ⟨x, hx, hyx, htx⟩ := h.queued hcq y hy.2
    use x
    rw [hmap, hmem x hx, htid]
    exact ⟨hx, ⟨hyx, hy.1⟩, htx⟩
  · rw [hnull]
    exact h.atNull

variable [TaskAlloc A] {F : List TdPtr} {p : TdPtr}

theorem Queues.born {ch : Prop} (h : k.Queues cq sent q) (hbase : Base ch k q F)
    (hb : Born k k' p) :
  k'.Queues cq sent q
  := by
  have hnew : p ∉ k.mapTid := fun hp => hb.alloc.fresh (hbase.ids.tds p hp)
  have hold : ∀ x ∈ k.mapTid, k'.td x = k.td x :=
    fun x hx => hb.td x (ne_of_mem_of_not_mem hx hnew)
  have hring : ∀ x ∈ k.mapTid, k'.ring x = k.ring x :=
    fun x hx => congrArg (fun t => t.mailbox.senderWaitqueue) (hold x hx)
  have hqueue : ∀ x ∈ k.mapTid, k'.queue x = k.queue x :=
    fun x hx => congrArg RingBuffer.toList (hring x hx)
  have hnil : k'.queue p = [] := by
    rw [queue, hb.ring]
    rfl
  have hmem : ∀ x, x ∈ k'.mapTid ↔ x ∈ k.mapTid ∨ x = p := by
    intro x
    rw [hb.mapTid, List.mem_append, List.mem_singleton]
  constructor
  · intro x hx
    obtain hx | rfl := (hmem x).mp hx
    · rw [hring x hx]
      exact h.wf x hx
    · rw [hb.ring]
      exact ⟨RingBuffer.init_wf (by decide), rfl⟩
  · intro x hx s hs
    obtain hx | rfl := (hmem x).mp hx
    · rw [hqueue x hx] at hs
      exact h.send x hx s hs
    · rw [hnil] at hs
      cases hs
  · intro x hx
    obtain hx | rfl := (hmem x).mp hx
    · rw [hqueue x hx]
      exact h.nodup x hx
    · rw [hnil]
      exact List.nodup_nil
  · intro x hx y hy s hsx hsy
    obtain hx | rfl := (hmem x).mp hx <;> obtain hy | rfl := (hmem y).mp hy
    · rw [hqueue x hx] at hsx
      rw [hqueue y hy] at hsy
      exact h.apart x hx y hy s hsx hsy
    · rw [hnil] at hsy
      cases hsy
    · rw [hnil] at hsx
      cases hsx
    · rfl
  · intro x hx
    rw [hqueue x ((hbase.lists.mem_iff _ x).mp hx).1]
    exact h.recv x hx
  · intro hcq s hs
    obtain ⟨x, hx, hsx, htx⟩ := h.queued hcq s hs
    use x
    rw [hmem, hqueue x hx, hold x hx]
    exact ⟨Or.inl hx, hsx, htx⟩
  · rw [hb.atNull]
    exact h.atNull

/-- A task that exits is not missed when nobody waits for it. -/
theorem Queues.destroy (h : k.Queues cq sent q) (hids : k.Ids) (hnil : cq → k.queue p = []) :
  (k.kTmgrDestroyTask p).Queues cq sent q
  := by
  have hmem : ∀ x, x ∈ (k.kTmgrDestroyTask p).mapTid ↔ x ≠ p ∧ x ∈ k.mapTid := by
    intro x
    exact hids.nodup.mem_erase_iff
  constructor
  · intro x hx
    exact h.wf x ((hmem x).mp hx).2
  · intro x hx
    exact h.send x ((hmem x).mp hx).2
  · intro x hx
    exact h.nodup x ((hmem x).mp hx).2
  · intro x hx y hy
    exact h.apart x ((hmem x).mp hx).2 y ((hmem y).mp hy).2
  · exact h.recv
  · intro hcq s hs
    obtain ⟨x, hx, hsx, htx⟩ := h.queued hcq s hs
    use x
    rw [hmem]
    refine ⟨⟨?_, hx⟩, hsx, htx⟩
    rintro rfl
    rw [hnil hcq] at hsx
    cases hsx
  · exact h.atNull

end Kernel

end TrainsOs
