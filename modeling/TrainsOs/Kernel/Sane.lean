import TrainsOs.Kernel.Creation

/-!
# What misuse cannot break

A task may wait for an event whose identifier is the number of another state, a wait queue
may be full, and a task may exit while others wait for its answer. Then the lists of blocked
tasks are no longer what the states say, and nothing is known of their order. `Sane` is the
part of the invariant that is kept all the same: a task that is made ready is alive and is
not in the ready heap, so the running task is always alive.

The fields of the lists reach only descriptors in a set `L` of tasks that are alive or that
were destroyed; a task is destroyed while it runs, so it leaves the state `READY` behind, and
no handler takes a task in this state off a list.
-/

namespace TrainsOs

namespace Kernel

variable {A : Type}

/-- The task is alive, or its descriptor was left in the state `READY`. -/
def Known (k : Kernel A) (p : TdPtr) : Prop :=
  p ∈ k.mapTid ∨ k.state p = TaskState.ready

theorem Known.alive {k : Kernel A} {p : TdPtr} (h : k.Known p) (hne : k.state p ≠ TaskState.ready) :
  p ∈ k.mapTid
  := h.resolve_right hne

/-- What the fields of the lists reach, starting with the heads. -/
structure Tied (k : Kernel A) (L : Set TdPtr) : Prop where
  closed : DList.Closed k.links L
  heads : ∀ b, ∀ p ∈ k.blocked b, p ∈ L
  known : ∀ p ∈ L, k.Known p
  waiting : ∀ p ∈ k.mapTid, k.state p ≠ TaskState.ready → p ∈ L

/-- The invariant with the floating tasks `F`. -/
structure Sane [TaskAlloc A] (k : Kernel A) (L : Set TdPtr) (F : List TdPtr) : Prop where
  ids : k.Ids
  heap : k.Heap False F
  floating : ∀ p ∈ F, p ∈ k.mapTid ∧ p ≠ k.idleTask
  idle_mem : k.idleTask ∈ k.mapTid
  idle_state : k.state k.idleTask = TaskState.ready
  queues : ∀ p ∈ k.mapTid, (k.ring p).Wf ∧ ∀ s ∈ k.queue p, k.Known s
  tied : k.Tied L

theorem Blocked.ne_ready {b : Blocked} {s : ℕ} (h : b.test s = true) :
  s ≠ TaskState.ready
  := by
  rintro rfl
  rw [b.not_test_ready] at h
  cases h

theorem Known.congr [TaskAlloc A] {k k' : Kernel A} {p : TdPtr} (h : k.Known p) (ha : Agree k k') :
  k'.Known p
  := by
  rw [Known, ha.mapTid, ha.state]
  exact h

section Moves

variable [TaskAlloc A] {k k' : Kernel A} {L : Set TdPtr} {F : List TdPtr} {p c : TdPtr}
  {b : Blocked}

omit [TaskAlloc A] in
theorem Tied.congr (h : k.Tied L) (hlinks : k'.links = k.links)
    (hblocked : k'.blocked = k.blocked) (hmap : k'.mapTid = k.mapTid)
    (hstate : ∀ p, k'.state p = k.state p) :
  k'.Tied L
  := by
  constructor
  · rw [hlinks]
    exact h.closed
  · rw [hblocked]
    exact h.heads
  · intro p hp
    rw [Known, hmap, hstate]
    exact h.known p hp
  · intro p hp
    rw [hstate]
    rw [hmap] at hp
    exact h.waiting p hp

/-- The same tasks in the same states, with another ready heap. -/
theorem Sane.congrHeap (h : Sane k L F) {F' : List TdPtr} (hheap : k'.Heap False F')
    (hF : ∀ p ∈ F', p ∈ k.mapTid ∧ p ≠ k.idleTask) (hsame : SameTasks k k')
    (hidle : k'.idleTask = k.idleTask) (hlinks : k'.links = k.links)
    (hblocked : k'.blocked = k.blocked) (hstate : ∀ p, k'.state p = k.state p)
    (hring : ∀ p, k'.ring p = k.ring p) :
  Sane k' L F'
  := by
  have hknown : ∀ p, k.Known p → k'.Known p := by
    intro p hp
    rw [Known, hsame.mapTid, hstate]
    exact hp
  constructor
  · exact hsame.ids h.ids
  · exact hheap
  · rw [hsame.mapTid, hidle]
    exact hF
  · rw [hsame.mapTid, hidle]
    exact h.idle_mem
  · rw [hidle, hstate]
    exact h.idle_state
  · intro p hp
    rw [hsame.mapTid] at hp
    rw [queue, hring]
    exact ⟨(h.queues p hp).1, fun s hs => hknown s ((h.queues p hp).2 s hs)⟩
  · exact h.tied.congr hlinks hblocked hsame.mapTid hstate

theorem Sane.congr (h : Sane k L F) (ha : Agree k k') :
  Sane k' L F
  := by
  have hheap := h.heap.congr ha.heap ha.log ha.mapTid ha.idleTask fun p _ => ha.state p
  exact h.congrHeap hheap h.floating ha.sameTasks ha.idleTask ha.links ha.blocked ha.state ha.ring

/-! ### The lists -/

theorem Sane.relink (h : Sane k L F) {l : DList.Links TdPtr} {hd : Blocked → Option TdPtr}
    {L' : Set TdPtr} (hL : L ⊆ L') (hclosed : DList.Closed l L')
    (hheads : ∀ b, ∀ p ∈ hd b, p ∈ L') (hknown : ∀ p ∈ L', k.Known p) :
  Sane (k.relink l hd) L' F
  := by
  constructor
  · exact SameTasks.ids (k := k)
      ⟨TaskAlloc.Keeps.refl _, rfl, rfl, fun _ => rfl, fun _ => rfl⟩ h.ids
  · exact h.heap.congr rfl rfl rfl rfl fun _ _ => rfl
  · exact h.floating
  · exact h.idle_mem
  · exact h.idle_state
  · exact h.queues
  · exact ⟨hclosed, hheads, hknown, fun p hp hne => hL (h.tied.waiting p hp hne)⟩

theorem Sane.dlAppend (h : Sane k L F) (hp : p ∈ F) (heq : k.dlAppend b p = some k') :
  Sane k' (insert p L) F
  := by
  rw [Kernel.dlAppend, Option.bind_eq_bind, Option.bind_eq_some_iff] at heq
  obtain ⟨r, happ, heq⟩ := heq
  obtain ⟨hclosed, hhead⟩ := h.tied.closed.append (h.tied.heads b) happ
  rw [← Option.some.inj heq]
  apply h.relink (Set.subset_insert p L) hclosed
  · intro b' x hx
    rw [Function.update_apply] at hx
    split at hx
    · exact hhead x hx
    · exact Set.mem_insert_of_mem p (h.tied.heads b' x hx)
  · rintro x (rfl | hx)
    · exact Or.inl (h.floating x hp).1
    · exact h.tied.known x hx

theorem Sane.dlDelete (h : Sane k L F) (hp : p ∈ L) (heq : k.dlDelete b p = some k') :
  Sane k' L F
  := by
  rw [Kernel.dlDelete, Option.bind_eq_bind, Option.bind_eq_some_iff] at heq
  obtain ⟨r, hdel, heq⟩ := heq
  obtain ⟨hclosed, hhead⟩ := h.tied.closed.delete (h.tied.heads b) hp hdel
  rw [← Option.some.inj heq]
  apply h.relink subset_rfl hclosed
  · intro b' x hx
    rw [Function.update_apply] at hx
    split at hx
    · exact hhead x hx
    · exact h.tied.heads b' x hx
  · exact h.tied.known

/-! ### Floating -/

/-- The state of a floating task is free. -/
theorem Sane.setState (h : Sane k L F) (hp : p ∈ F) {s : ℕ} (hs : s ≠ TaskState.ready → p ∈ L) :
  Sane (k.setState p s) L F
  := by
  obtain ⟨hmap, hidle⟩ := h.floating p hp
  have hstate : ∀ x, x ≠ p → (k.setState p s).state x = k.state x := by
    intro x hx
    rw [state_setState, if_neg hx]
  have hknown : ∀ x, k.Known x → (k.setState p s).Known x := by
    intro x hx
    by_cases hxp : x = p
    · exact Or.inl (hxp ▸ hmap)
    · rw [Known, hstate x hxp]
      exact hx
  have hring : ∀ x, (k.setState p s).ring x = k.ring x := by
    intro x
    rw [Kernel.setState, ring_modify]
    split
    · rename_i hx
      rw [hx]
      rfl
    · rfl
  constructor
  · exact h.ids.congr (TaskAlloc.Keeps.refl _) rfl rfl (k.tid_modify p rfl)
      (k.stackAddr_modify p rfl)
  · exact h.heap.congr rfl rfl rfl rfl fun x hx => hstate x (ne_of_mem_of_not_mem hp hx).symm
  · exact h.floating
  · exact h.idle_mem
  · exact (hstate k.idleTask hidle.symm).trans h.idle_state
  · intro x hx
    obtain ⟨hwf, hqueue⟩ := h.queues x hx
    rw [Kernel.queue, hring]
    exact ⟨hwf, fun s' hs' => hknown s' (hqueue s' hs')⟩
  · constructor
    · exact h.tied.closed
    · exact h.tied.heads
    · exact fun x hx => hknown x (h.tied.known x hx)
    · intro x hx hne
      by_cases hxp : x = p
      · rw [hxp, state_setState, if_pos rfl] at hne
        exact hxp ▸ hs hne
      · rw [hstate x hxp] at hne
        exact h.tied.waiting x hx hne

omit [TaskAlloc A] in
theorem Heap.drop (h : k.Heap False (p :: F)) :
  k.Heap False F
  := by
  constructor
  · exact h.nodup
  · intro x hx
    obtain ⟨hmap, hF, hready⟩ := h.mem x hx
    exact ⟨hmap, fun hF' => hF (List.mem_cons_of_mem p hF'), hready⟩
  · exact h.idle
  · exact h.capacity
  · exact h.count_le
  · exact False.elim
  · exact False.elim

theorem Sane.drop (h : Sane k L (p :: F)) :
  Sane k L F
  := ⟨h.ids, h.heap.drop, fun x hx => h.floating x (List.mem_cons_of_mem p hx), h.idle_mem,
    h.idle_state, h.queues, h.tied⟩

/-- Blocking a floating task, in any state. -/
theorem Sane.addWait (h : Sane k L (p :: F)) {s : ℕ} (heq : k.addWait b p s = some k') :
  Sane k' (insert p L) F
  := by
  rw [Kernel.addWait, Option.bind_eq_bind, Option.bind_eq_some_iff] at heq
  obtain ⟨k₁, happ, heq⟩ := heq
  rw [← Option.some.inj heq]
  have hsane := h.dlAppend List.mem_cons_self happ
  exact (hsane.setState List.mem_cons_self fun _ => Set.mem_insert p L).drop

/-- Taking a task off a list: it is alive, as its state is asserted. -/
theorem Sane.removeWait (h : Sane k L F) (hp : k.Known p)
    (hF : ∀ x ∈ F, k.state x = TaskState.ready) (heq : k.removeWait b p = some k') :
  p ∉ F ∧ Sane k' L (p :: F)
  := by
  rw [Kernel.removeWait] at heq
  split at heq
  · rename_i ht
    have hne := Blocked.ne_ready ht
    have hmap := hp.alive hne
    have hsane : Sane k L (p :: F) := by
      constructor
      · exact h.ids
      · exact h.heap.lift ht
      · rintro x hx
        obtain rfl | hx := List.mem_cons.mp hx
        · refine ⟨hmap, ?_⟩
          rintro rfl
          exact hne h.idle_state
        · exact h.floating x hx
      · exact h.idle_mem
      · exact h.idle_state
      · exact h.queues
      · exact h.tied
    exact ⟨fun hp => hne (hF p hp), hsane.dlDelete (h.tied.waiting p hmap hne) heq⟩
  · cases heq

/-- Readying a floating task. -/
theorem Sane.addReady (h : Sane k L (p :: F)) (hF : p ∉ F) :
  Sane (k.kSchedAddReady p) L F
  := by
  obtain ⟨hmap, hidle⟩ := h.floating p List.mem_cons_self
  have hheap := h.heap.addReady hmap hF hidle.symm False.elim
  have hready := h.setState List.mem_cons_self fun hne : TaskState.ready ≠ TaskState.ready =>
    absurd rfl hne
  apply hready.congrHeap hheap
  · exact fun x hx => h.floating x (List.mem_cons_of_mem p hx)
  · constructor
    · rw [kSchedAddReady_alloc]
      exact TaskAlloc.Keeps.refl _
    · exact k.kSchedAddReady_mapTid p
    · exact k.kSchedAddReady_nextTid p
    · intro x
      rw [tid_kSchedAddReady, Kernel.setState, tid_modify]
      rfl
    · intro x
      rw [(k.quiet_addReady p).stack, Kernel.setState, stackAddr_modify]
      rfl
  · exact k.kSchedAddReady_idleTask p
  · exact k.kSchedAddReady_links p
  · exact k.kSchedAddReady_blocked p
  · intro x
    rw [state_kSchedAddReady, state_setState]
  · intro x
    rw [ring_kSchedAddReady, Kernel.setState, ring_modify]
    split
    · rename_i hx
      rw [hx]
      rfl
    · rfl

/-- Taking a task out of the heap. -/
theorem Sane.getNext (h : Sane k L F) {heap : BinHeap TdPtr}
    (hperm : k.heap.toList.Perm (p :: heap.toList)) (hcap : heap.capacity = k.heap.capacity) :
  Sane (k.putHeap heap k.insertions (k.log ++ [.next p])) L (p :: F)
  := by
  have hmem := hperm.mem_iff.mpr List.mem_cons_self
  apply h.congrHeap (h.heap.getNext hperm hcap)
  · intro x hx
    obtain rfl | hx := List.mem_cons.mp hx
    · use (h.heap.mem x hmem).1
      rintro rfl
      exact h.heap.idle hmem
    · exact h.floating x hx
  · exact ⟨TaskAlloc.Keeps.refl _, rfl, rfl, fun _ => rfl, fun _ => rfl⟩
  · rfl
  · rfl
  · rfl
  · exact fun _ => rfl
  · exact fun _ => rfl

/-! ### Birth and death -/

theorem Sane.born (h : Sane k L F) (hb : Born k k' p) :
  Sane k' L (p :: F)
  := by
  have hnew : p ∉ k.mapTid := fun hp => hb.alloc.fresh (h.ids.tds p hp)
  have hmem : ∀ x, x ∈ k'.mapTid ↔ x ∈ k.mapTid ∨ x = p := by
    intro x
    rw [hb.mapTid, List.mem_append, List.mem_singleton]
  have hold : ∀ x, x ≠ p → k'.state x = k.state x := fun x hx => congrArg TaskDsp.state (hb.td x hx)
  have hknown : ∀ x, k.Known x → k'.Known x := by
    intro x hx
    rw [Known, hmem]
    by_cases hxp : x = p
    · exact Or.inl (Or.inr hxp)
    · rw [hold x hxp]
      exact hx.imp_left Or.inl
  have hidle : k.idleTask ≠ p := ne_of_mem_of_not_mem h.idle_mem hnew
  constructor
  · exact h.ids.new hb.alloc hb.mapTid hb.nextTid hb.tid
      (fun x hx => congrArg TaskDsp.tid (hb.td x hx))
      fun x hx => congrArg TaskDsp.stackAddr (hb.td x hx)
  · exact h.heap.born hnew hb
  · intro x hx
    rw [hmem, hb.idleTask]
    obtain rfl | hx := List.mem_cons.mp hx
    · exact ⟨Or.inr rfl, hidle.symm⟩
    · exact ⟨Or.inl (h.floating x hx).1, (h.floating x hx).2⟩
  · rw [hmem, hb.idleTask]
    exact Or.inl h.idle_mem
  · rw [hb.idleTask, hold _ hidle]
    exact h.idle_state
  · intro x hx
    obtain hx | rfl := (hmem x).mp hx
    · have hring : k'.ring x = k.ring x := by
        rw [ring, hb.td x (ne_of_mem_of_not_mem hx hnew)]
        rfl
      rw [queue, hring]
      exact ⟨(h.queues x hx).1, fun s hs => hknown s ((h.queues x hx).2 s hs)⟩
    · rw [queue, hb.ring]
      exact ⟨RingBuffer.init_wf (by decide), List.forall_mem_nil _⟩
  · constructor
    · rw [hb.links]
      exact h.tied.closed
    · rw [hb.blocked]
      exact h.tied.heads
    · exact fun x hx => hknown x (h.tied.known x hx)
    · intro x hx hne
      by_cases hxp : x = p
      · rw [hxp, hb.state] at hne
        exact absurd rfl hne
      · rw [hold x hxp] at hne
        exact h.tied.waiting x (((hmem x).mp hx).resolve_right hxp) hne

/-- A task is destroyed while it runs, hence in the state `READY`. -/
theorem Sane.destroy (h : Sane k L (p :: F)) (hp : p ∉ F) (hready : k.state p = TaskState.ready)
    (hsafe : k.StackSafe p) :
  Sane (k.kTmgrDestroyTask p) L F
  := by
  have hmem : ∀ x, x ∈ (k.kTmgrDestroyTask p).mapTid ↔ x ≠ p ∧ x ∈ k.mapTid := by
    intro x
    exact h.ids.nodup.mem_erase_iff
  have hknown : ∀ x, k.Known x → (k.kTmgrDestroyTask p).Known x := by
    intro x hx
    rw [Known, hmem]
    by_cases hxp : x = p
    · exact Or.inr (hxp ▸ hready)
    · exact hx.imp_left fun hmap => ⟨hxp, hmap⟩
  constructor
  · exact h.ids.destroy (h.floating p List.mem_cons_self).1 hsafe
  · exact h.heap.destroy h.ids.nodup
  · intro x hx
    obtain ⟨hmap, hidle⟩ := h.floating x (List.mem_cons_of_mem p hx)
    rw [hmem]
    exact ⟨⟨ne_of_mem_of_not_mem hx hp, hmap⟩, hidle⟩
  · rw [hmem]
    exact ⟨(h.floating p List.mem_cons_self).2.symm, h.idle_mem⟩
  · exact h.idle_state
  · intro x hx
    obtain ⟨hwf, hqueue⟩ := h.queues x ((hmem x).mp hx).2
    exact ⟨hwf, fun s hs => hknown s (hqueue s hs)⟩
  · constructor
    · exact h.tied.closed
    · exact h.tied.heads
    · exact fun x hx => hknown x (h.tied.known x hx)
    · exact fun x hx hne => h.tied.waiting x ((hmem x).mp hx).2 hne

/-! ### The wait queues -/

/-- Changing a mailbox: what is in its wait queue is known. -/
theorem Sane.modifyMailbox (h : Sane k L F) {f : Mailbox → Mailbox}
    (hwf : (f (k.td p).mailbox).senderWaitqueue.Wf)
    (hqueue : ∀ s ∈ (f (k.td p).mailbox).senderWaitqueue.toList, k.Known s) :
  Sane (k.modifyMailbox p f) L F
  := by
  have hstate : ∀ x, (k.modifyMailbox p f).state x = k.state x := by
    intro x
    rw [Kernel.modifyMailbox, state_modify]
    split
    · rename_i hx
      rw [hx]
      rfl
    · rfl
  have hknown : ∀ x, k.Known x → (k.modifyMailbox p f).Known x := by
    intro x hx
    rw [Known, hstate]
    exact hx
  constructor
  · exact (k.quiet_modifyMailbox p f).ids h.ids
  · exact h.heap.congr rfl rfl rfl rfl fun x _ => hstate x
  · exact h.floating
  · exact h.idle_mem
  · exact (hstate k.idleTask).trans h.idle_state
  · intro x hx
    rw [queue, Kernel.modifyMailbox, ring_modify]
    split
    · exact ⟨hwf, fun s hs => hknown s (hqueue s hs)⟩
    · obtain ⟨hwf', hqueue'⟩ := h.queues x hx
      exact ⟨hwf', fun s hs => hknown s (hqueue' s hs)⟩
  · exact h.tied.congr rfl rfl rfl hstate

theorem Sane.addSendQueue (h : Sane k L F) {receiver sender : TdPtr} (hr : receiver ∈ k.mapTid)
    (hs : k.Known sender) :
  Sane (k.kMboxAddSendQueue receiver sender) L F
  := by
  obtain ⟨hwf, hqueue⟩ := h.queues receiver hr
  rw [kMboxAddSendQueue]
  cases hpush : (k.td receiver).mailbox.senderWaitqueue.pushPre with
  | none =>
    apply h.congrHeap
    · exact h.heap.congr rfl rfl rfl rfl fun _ _ => rfl
    · exact h.floating
    · exact ⟨TaskAlloc.Keeps.refl _, rfl, rfl, fun _ => rfl, fun _ => rfl⟩
    · rfl
    · rfl
    · rfl
    · exact fun _ => rfl
    · exact fun _ => rfl
  | some r =>
    have hlt : (k.ring receiver).size < (k.ring receiver).capacity := by
      rw [← not_le, ← RingBuffer.pushPre_eq_none_iff]
      intro hnone
      exact absurd (hnone.symm.trans hpush) (Option.some_ne_none r).symm
    obtain ⟨r', slot, heq, hwf', -, htolist⟩ := RingBuffer.push_spec hwf hlt sender
    obtain rfl := Option.some.inj (heq.symm.trans hpush)
    apply h.modifyMailbox
    · exact hwf'
    · intro x hx
      rw [htolist, List.mem_append, List.mem_singleton] at hx
      obtain hx | rfl := hx
      · exact hqueue x hx
      · exact hs

theorem Sane.popSendQueue (h : Sane k L F) {receiver : TdPtr} (hr : receiver ∈ k.mapTid)
    {sender : Option TdPtr} (heq : k.kMboxPopSendQueue receiver = (k', sender)) :
  Sane k' L F ∧ (∀ p, k'.state p = k.state p) ∧ ∀ s ∈ sender, k'.Known s
  := by
  obtain ⟨hwf, hqueue⟩ := h.queues receiver hr
  rw [kMboxPopSendQueue] at heq
  cases hpeek : (k.td receiver).mailbox.senderWaitqueue.peek with
  | none =>
    rw [hpeek] at heq
    obtain ⟨rfl, rfl⟩ := Prod.mk.inj heq
    exact ⟨h, fun _ => rfl, by rintro _ ⟨⟩⟩
  | some slot =>
    rw [hpeek] at heq
    obtain ⟨hwf', -, htolist⟩ := RingBuffer.pop_spec hwf hpeek
    obtain ⟨rfl, rfl⟩ := Prod.mk.inj heq
    have hstate : ∀ x, (k.modifyMailbox receiver fun m =>
        { m with senderWaitqueue := m.senderWaitqueue.pop }).state x = k.state x := by
      intro x
      rw [Kernel.modifyMailbox, state_modify]
      split
      · rename_i hx
        rw [hx]
        rfl
      · rfl
    refine ⟨?_, hstate, ?_⟩
    · apply h.modifyMailbox
      · exact hwf'
      · intro x hx
        apply hqueue
        rw [queue, htolist]
        exact List.mem_cons_of_mem _ hx
    · rintro s ⟨⟩
      rw [Known, hstate]
      apply hqueue
      rw [queue, htolist]
      exact List.mem_cons_self

end Moves

/-! ### The handlers -/

/-- What holds when a handler returns. -/
structure Served [TaskAlloc A] (k : Kernel A) : Prop where
  sane : ∃ L, Sane k L k.running
  ready : ∀ c, k.current = some c → k.state c = TaskState.ready

section Handlers

variable [TaskAlloc A] {k k' : Kernel A} {L : Set TdPtr} {c : TdPtr}

/-- A handler after which the task keeps running. -/
theorem Served.stay (h : Sane k L [c]) (hc : k.current = some c)
    (hready : k.state c = TaskState.ready) :
  Served k
  := by
  constructor
  · use L
    rw [running_of_ne hc (h.floating c List.mem_cons_self).2]
    exact h
  · intro p hp
    rw [hc] at hp
    rwa [← Option.some.inj hp]

/-- A handler after which no task runs. -/
theorem Served.leave (h : Sane k L []) :
  Served (k.setCurrent none)
  := by
  constructor
  · exact ⟨L, h.congr (k.agree_setCurrent none)⟩
  · exact fun p hp => nomatch hp

/-- A handler that changes nothing of importance. -/
theorem Served.agree (h : Sane k L [c]) (ha : Agree k k') (hc : k'.current = some c)
    (hready : k.state c = TaskState.ready) :
  Served k'
  := Served.stay (h.congr ha) hc ((ha.state c).trans hready)

variable (h : Sane k L [c]) (hc : k.current = some c) (hready : k.state c = TaskState.ready)

include h hc

theorem exit_served (heq : k.kExitHandler = some k') (hready : k.state c = TaskState.ready)
    (hsafe : k.StackSafe c) :
  Served k'
  := by
  rw [kExitHandler, hc, Option.bind_eq_bind, Option.bind_some] at heq
  rw [← Option.some.inj heq]
  exact Served.leave (h.destroy List.not_mem_nil hready hsafe)

theorem awaitEvent_served {intrId : ℕ} (heq : k.kAwaitEventHandler intrId = some k') :
  Served k'
  := by
  simp only [kAwaitEventHandler, hc, Option.bind_eq_bind, Option.bind_some,
    Option.bind_eq_some_iff] at heq
  obtain ⟨k₁, hadd, heq⟩ := heq
  rw [← Option.some.inj heq]
  exact Served.leave (h.addWait hadd)

include hready

theorem send_served {tid : ℤ} {msg msglen reply rplen : ℕ}
    (heq : k.kSendHandler tid msg msglen reply rplen = some k') :
  Served k'
  := by
  rw [kSendHandler, hc, Option.bind_eq_bind, Option.bind_some] at heq
  split at heq
  · rw [← Option.some.inj heq]
    exact Served.agree h (k.agree_setRetval c _) hc hready
  · rename_i receiver hlook
    have hr : receiver ∈ k.mapTid := List.mem_of_find?_eq_some hlook
    have hinit := k.agree_sendInit c msg msglen reply rplen
    rw [sendInit] at hinit
    dsimp only at heq
    split at heq
    · simp only [Option.bind_eq_bind, Option.bind_eq_some_iff] at heq
      obtain ⟨k₁, hadd, k₂, hrem, heq⟩ := heq
      rw [← Option.some.inj heq]
      have hagree := hinit.trans (agree_deliver _ receiver c)
      have hsame := hagree.sameTasks.trans (quiet_addWait hadd).toSameTasks
      have hknown : k₁.Known receiver := Or.inl (hsame.mapTid ▸ hr)
      obtain ⟨-, hsane⟩ := ((h.congr hagree).addWait hadd).removeWait hknown (by simp) hrem
      exact Served.leave (hsane.addReady List.not_mem_nil)
    · simp only [Option.bind_eq_bind, Option.bind_eq_some_iff] at heq
      obtain ⟨k₁, hadd, heq⟩ := heq
      rw [← Option.some.inj heq]
      have hsane := h.congr hinit
      have hqueue := hsane.addSendQueue (hinit.mapTid ▸ hr)
        (Or.inl (hsane.floating c List.mem_cons_self).1)
      exact Served.leave (hqueue.addWait hadd)

theorem recv_served {tid msg msglen : ℕ} (heq : k.kRecvHandler tid msg msglen = some k') :
  Served k'
  := by
  rw [kRecvHandler, hc, Option.bind_eq_bind, Option.bind_some] at heq
  generalize hpop : k.kMboxPopSendQueue c = r at heq
  obtain ⟨k₁, sender⟩ := r
  obtain ⟨hsane, hstate, hknown⟩ := h.popSendQueue (h.floating c List.mem_cons_self).1 hpop
  have hinit := k₁.agree_recvInit c tid msg msglen
  rw [recvInit] at hinit
  cases sender with
  | none =>
    simp only [Option.bind_eq_bind, Option.bind_eq_some_iff] at heq
    obtain ⟨k₂, hadd, heq⟩ := heq
    rw [← Option.some.inj heq]
    exact Served.leave ((hsane.congr hinit).addWait hadd)
  | some sender =>
    simp only [Option.bind_eq_bind, Option.bind_eq_some_iff] at heq
    obtain ⟨k₂, hrem, k₃, hadd, heq⟩ := heq
    rw [← Option.some.inj heq]
    have hagree := hinit.trans (agree_deliver _ c sender)
    have hsender : Known _ sender := (hknown sender rfl).congr hagree
    obtain ⟨hne, hfloat⟩ := (hsane.congr hagree).removeWait hsender (by
      intro x hx
      rw [List.mem_singleton.mp hx, hagree.state, hstate]
      exact hready) hrem
    exact Served.leave ((hfloat.addWait hadd).addReady List.not_mem_nil)

theorem reply_served {tid : ℤ} {reply rplen : ℕ} (heq : k.kReplyHandler tid reply rplen = some k') :
  Served k'
  := by
  rw [kReplyHandler, hc, Option.bind_eq_bind, Option.bind_some] at heq
  split at heq
  · rw [← Option.some.inj heq]
    exact Served.agree h (k.agree_setRetval c _) hc hready
  · rename_i sender hlook
    have hs : sender ∈ k.mapTid := List.mem_of_find?_eq_some hlook
    dsimp only at heq
    split at heq
    · rw [← Option.some.inj heq]
      exact Served.agree h (k.agree_setRetval c _) hc hready
    · rw [Option.bind_eq_bind, Option.bind_eq_some_iff] at heq
      obtain ⟨k₁, hrem, heq⟩ := heq
      rw [← Option.some.inj heq]
      have hanswer := k.agree_answer c sender reply rplen
      rw [answer] at hanswer
      have hready' : ∀ x ∈ [c], k.state x = TaskState.ready := by
        intro x hx
        rw [List.mem_singleton.mp hx]
        exact hready
      obtain ⟨hne, hfloat⟩ := (h.congr hanswer).removeWait (Known.congr (Or.inl hs) hanswer)
        (fun x hx => (hanswer.state x).trans (hready' x hx)) hrem
      obtain ⟨l, hd, rfl⟩ := removeWait_eq hrem
      apply Served.stay (hfloat.addReady hne)
      · rw [kSchedAddReady_current]
        exact hc
      · rw [state_kSchedAddReady]
        split
        · rfl
        · exact (hanswer.state c).trans hready

theorem create_served {priority : ℤ} {args argsLen : ℕ}
    (hok : k.Proper priority argsLen ∨ k.AllocFails pgSft)
    (heq : k.kCreateHandler priority args argsLen = some k') :
  Served k'
  := by
  obtain ⟨alloc, heq', hagree⟩ | ⟨alloc, p, stackAddr, -, heq', hborn⟩ :=
    kCreateHandler_cases args h.ids hc hok
  · rw [← Option.some.inj (heq'.symm.trans heq)]
    exact Served.agree h hagree hc hready
  · rw [← Option.some.inj (heq'.symm.trans heq)]
    have hpc : c ≠ p := by
      rintro rfl
      exact hborn.not_mem h.ids (h.floating c List.mem_cons_self).1
    have hsane := (h.born hborn).addReady (by simpa using hpc.symm)
    apply Served.agree hsane (agree_setRetval _ c _)
    · exact (kSchedAddReady_current _ p).trans hc
    · rw [state_kSchedAddReady, if_neg hpc, state, hborn.td c hpc]
      exact hready

/-- Every system call. -/
theorem handle_served {call : Call} {ctx : Ctx} (hok : k.AllocOk (.syscall ctx call))
    (heq : k.handle call = some k') :
  Served k'
  := by
  cases call with
  | exit => exact exit_served h hc heq hready (hok c hc)
  | yield => exact Option.some.inj heq ▸ Served.stay h hc hready
  | create priority args argsLen => exact create_served h hc hready hok heq
  | myTid =>
    rw [handle, kMyTidHandler_spec hc] at heq
    exact Option.some.inj heq ▸ Served.agree h (agree_setRetval k c _) hc hready
  | myParentTid =>
    obtain ⟨v, w, heq', hagree⟩ := kMyParentTidHandler_spec hc
    rw [handle, heq'] at heq
    exact Option.some.inj heq ▸ Served.agree h hagree hc hready
  | send tid msg msglen reply rplen => exact send_served h hc hready heq
  | recv tid msg msglen => exact recv_served h hc hready heq
  | reply tid reply rplen => exact reply_served h hc hready heq
  | awaitEvent intrId => exact awaitEvent_served h hc heq
  | mmap target memSz =>
    obtain ⟨alloc, f, heq', hagree⟩ := kMmapHandler_spec hc target memSz
    rw [handle, heq'] at heq
    exact Option.some.inj heq ▸ Served.agree h hagree hc hready
  | other retval =>
    rw [handle, hc] at heq
    exact Option.some.inj heq ▸ Served.agree h (agree_setRetval k c retval) hc hready

end Handlers

/-! ### Interrupts -/

section Interrupts

variable [TaskAlloc A] {k k' : Kernel A} {L : Set TdPtr} {F : List TdPtr}

/-- What an interrupt leaves: the running task runs on. -/
structure Interrupted [TaskAlloc A] (k k' : Kernel A) (L : Set TdPtr) (F : List TdPtr) : Prop where
  sane : Sane k' L F
  ready : ∀ x ∈ F, k'.state x = TaskState.ready
  current : k'.current = k.current
  idleTask : k'.idleTask = k.idleTask

theorem Interrupted.refl (h : Sane k L F) (hF : ∀ x ∈ F, k.state x = TaskState.ready) :
  Interrupted k k L F
  := ⟨h, hF, rfl, rfl⟩

theorem Interrupted.trans {k'' : Kernel A} (h : Interrupted k k' L F)
    (h' : Interrupted k' k'' L F) :
  Interrupted k k'' L F
  := ⟨h'.sane, h'.ready, h'.current.trans h.current, h'.idleTask.trans h.idleTask⟩

/-- Waking up one task. -/
theorem interrupted_wake {p : TdPtr} (h : Sane k L F) (hF : ∀ x ∈ F, k.state x = TaskState.ready)
    (hp : p ∈ L) {k₁ : Kernel A} (hrem : k.kSchedRemoveEventWait p = some k₁) (v : BitVec 64) :
  Interrupted k ((k₁.setRetval p v).kSchedAddReady p) L F
  := by
  obtain ⟨hne, hfloat⟩ := h.removeWait (h.tied.known p hp) hF hrem
  obtain ⟨l, hd, rfl⟩ := removeWait_eq hrem
  have hagree := (k.relink l hd).agree_setRetval p v
  constructor
  · exact (hfloat.congr hagree).addReady hne
  · intro x hx
    rw [state_kSchedAddReady]
    split
    · rfl
    · exact (hagree.state x).trans (hF x hx)
  · exact kSchedAddReady_current _ p
  · exact kSchedAddReady_idleTask _ p

theorem interrupted_wakeupLoop {intrId retval : ℕ} (fuel : ℕ) {node : Option TdPtr} {n : ℕ}
    {r : Kernel A × ℕ} (h : Sane k L F) (hF : ∀ x ∈ F, k.state x = TaskState.ready)
    (hnode : ∀ p ∈ node, p ∈ L) (heq : wakeupLoop intrId retval fuel k node n = some r) :
  Interrupted k r.1 L F
  := by
  induction fuel generalizing k node n with
  | zero =>
    cases node with
    | none => exact Option.some.inj heq ▸ Interrupted.refl h hF
    | some td => cases heq
  | succ fuel ih =>
    cases node with
    | none => exact Option.some.inj heq ▸ Interrupted.refl h hF
    | some td =>
      -- the next node is read before the task is taken off the list
      have htmp := h.tied.closed.next td (hnode td rfl)
      unfold wakeupLoop at heq
      dsimp only at heq
      split at heq
      · rw [Option.bind_eq_bind, Option.bind_eq_some_iff] at heq
        obtain ⟨k₁, hrem, heq⟩ := heq
        have hwake := interrupted_wake h hF (hnode td rfl) hrem (BitVec.ofNat 64 retval)
        exact hwake.trans (ih hwake.sane hwake.ready htmp heq)
      · exact ih h hF htmp heq

theorem interrupted_wakeupAll {ws : List (ℕ × ℕ)} (h : Sane k L F)
    (hF : ∀ x ∈ F, k.state x = TaskState.ready) (heq : k.wakeupAll ws = some k') :
  Interrupted k k' L F
  := by
  induction ws generalizing k with
  | nil => exact Option.some.inj heq ▸ Interrupted.refl h hF
  | cons w ws ih =>
    rw [wakeupAll, Option.bind_eq_bind, Option.bind_eq_some_iff] at heq
    obtain ⟨r, hloop, heq⟩ := heq
    have hwoken := interrupted_wakeupLoop _ h hF (h.tied.heads .event) hloop
    exact hwoken.trans (ih hwoken.sane hwoken.ready heq)

end Interrupts

/-! ### Runs -/

/-- The invariant between two actions. -/
structure Sound [TaskAlloc A] (k : Kernel A) : Prop where
  sane : ∃ L, Sane k L k.floating
  ready : k.point ≠ .top → ∀ c, k.current = some c → k.state c = TaskState.ready

section Runs

variable [TaskAlloc A] {k k' k₀ : Kernel A}

theorem Sound.ids (h : Sound k) :
  k.Ids
  := by
  obtain ⟨L, hsane⟩ := h.sane
  exact hsane.ids

/-- The running task is alive. -/
theorem Sound.alive (h : Sound k) (hp : k.point ≠ .top) {c : TdPtr} (hc : k.current = some c) :
  c ∈ k.mapTid
  := by
  obtain ⟨L, hsane⟩ := h.sane
  by_cases hidle : c = k.idleTask
  · exact hidle ▸ hsane.idle_mem
  · apply (hsane.floating c _).1
    rw [floating_user hp, running_of_ne hc hidle]
    exact List.mem_cons_self

theorem Served.sound (h : Served k) :
  Sound (k.setPoint .bottom)
  := by
  have hagree := k.agree_setPoint .bottom
  constructor
  · obtain ⟨L, hsane⟩ := h.sane
    exact ⟨L, hsane.congr hagree⟩
  · exact fun _ c hc => (hagree.state c).trans (h.ready c hc)

theorem Sound.schedule (h : Sound k) (hp : k.point = .top) :
  Sound k.schedule
  := by
  obtain ⟨L, hsane⟩ := h.sane
  rw [floating, if_pos hp] at hsane
  have hagree : ∀ k : Kernel A, ∀ p, Agree k ((k.setCurrent (some p)).setPoint .user) :=
    fun k p => (k.agree_setCurrent (some p)).trans (agree_setPoint _ .user)
  obtain ⟨heq, -⟩ | ⟨p, heap, heq, hperm, -, hcap⟩ := k.kSchedGetNext_eq
  · have hsched : k.schedule = (k.setCurrent (some k.idleTask)).setPoint .user := by
      rw [Kernel.schedule, heq]
      rfl
    rw [hsched]
    constructor
    · have hF : ((k.setCurrent (some k.idleTask)).setPoint .user).floating = [] := if_pos rfl
      rw [hF]
      exact ⟨L, hsane.congr (hagree k _)⟩
    · rintro - c ⟨⟩
      exact ((hagree k k.idleTask).state k.idleTask).trans hsane.idle_state
  · have hsched : k.schedule
        = ((k.putHeap heap k.insertions (k.log ++ [.next p])).setCurrent (some p)).setPoint
          .user := by
      rw [Kernel.schedule, heq]
      rfl
    have hnext := hsane.getNext hperm hcap
    have hready := (hsane.heap.mem p (hperm.mem_iff.mpr List.mem_cons_self)).2.2
    rw [hsched]
    constructor
    · have hF : ((((k.putHeap heap k.insertions (k.log ++ [.next p])).setCurrent
          (some p)).setPoint .user).floating) = [p] :=
        if_neg (hnext.floating p List.mem_cons_self).2
      rw [hF]
      exact ⟨L, hnext.congr (hagree _ p)⟩
    · rintro - c ⟨⟩
      exact ((hagree _ p).state p).trans hready

theorem Sound.requeue (h : Sound k) (hp : k.point = .bottom) :
  Sound k.requeue
  := by
  obtain ⟨L, hsane⟩ := h.sane
  rw [floating_user (by rw [hp]; exact Point.noConfusion)] at hsane
  have htop : ∀ {k' : Kernel A}, Sane k' L [] → Sound (k'.setPoint .top) :=
    fun hsane' => ⟨⟨L, hsane'.congr (agree_setPoint _ .top)⟩, fun hne => absurd rfl hne⟩
  rw [Kernel.requeue]
  cases hc : k.current with
  | none =>
    rw [running_none hc] at hsane
    exact htop hsane
  | some c =>
    dsimp only
    split
    · rename_i hidle
      have hrun : k.running = [] := by
        rw [running, hc]
        exact if_pos hidle
      rw [hrun] at hsane
      exact htop hsane
    · rename_i hidle
      rw [running_of_ne hc hidle] at hsane
      exact htop (hsane.addReady List.not_mem_nil)

/-- What every action keeps that gives new tasks valid priorities. -/
theorem Sound.step {a : Act} (h : Sound k) (henabled : k.Enabled a) (halloc : k.AllocOk a)
    (heq : k.step a = some k') :
  Sound k'
  := by
  cases a with
  | schedule => exact Option.some.inj heq ▸ h.schedule henabled
  | write mem =>
    rw [Kernel.step, Option.bind_eq_bind, Option.bind_eq_some_iff] at heq
    obtain ⟨c, -, heq⟩ := heq
    rw [← Option.some.inj heq]
    obtain ⟨L, hsane⟩ := h.sane
    have hagree := k.agree_modifyMem c fun _ => mem
    exact ⟨⟨L, hsane.congr hagree⟩, fun hp p hc => (hagree.state p).trans (h.ready hp p hc)⟩
  | syscall ctx call =>
    obtain ⟨hp, hidle⟩ := henabled
    have htop : k.point ≠ .top := by
      rw [hp]
      exact Point.noConfusion
    simp only [Kernel.step, Option.bind_eq_bind, Option.bind_eq_some_iff] at heq
    obtain ⟨c, hc, k₁, hcall, heq⟩ := heq
    rw [← Option.some.inj heq]
    obtain ⟨L, hsane⟩ := h.sane
    have hne : c ≠ k.idleTask := by
      rintro rfl
      exact hidle hc
    rw [floating_user htop, running_of_ne hc hne] at hsane
    have hagree := k.agree_storeTd c ctx (esrSvc call.number)
    have hok : (k.storeTd c ctx (esrSvc call.number)).AllocOk (.syscall ctx call) :=
      halloc.storeTd c ctx (esrSvc call.number)
    exact (handle_served (hsane.congr hagree) hc ((hagree.state c).trans (h.ready htop c hc)) hok
      hcall).sound
  | interrupt ctx x0 irqs =>
    have htop : k.point ≠ .top := by
      rw [show k.point = .user from henabled]
      exact Point.noConfusion
    simp only [Kernel.step, Option.bind_eq_bind, Option.bind_eq_some_iff] at heq
    obtain ⟨c, hc, k₁, hintr, heq⟩ := heq
    rw [← Option.some.inj heq]
    obtain ⟨L, hsane⟩ := h.sane
    rw [floating_user htop] at hsane
    have hagree := (k.agree_storeTd c ctx 0).trans (agree_setRetval _ c x0)
    have hready := h.ready htop
    have hwoken := interrupted_wakeupAll (hsane.congr hagree)
      (fun x hx => (hagree.state x).trans (hready x (mem_running hx))) hintr
    have hrun : k₁.running = k.running := by
      rw [running, running, hwoken.current, hwoken.idleTask]
      rfl
    apply Served.sound
    constructor
    · exact ⟨L, hrun ▸ hwoken.sane⟩
    · intro p hpc
      by_cases hidle : p = k₁.idleTask
      · rw [hidle]
        exact hwoken.sane.idle_state
      · apply hwoken.ready
        rw [← hrun, running_of_ne hpc hidle]
        exact List.mem_cons_self
  | requeue => exact Option.some.inj heq ▸ h.requeue henabled

/-! ### The start -/

/-- `n` tasks were created one after another, and none of them has run. -/
structure Started (k : Kernel A) (n : ℕ) : Prop where
  tids : k.mapTid.map (fun p => (k.td p).tid) = (List.range n).map Nat.cast
  next : k.nextTid = n
  ready : ∀ p ∈ k.mapTid, k.state p = TaskState.ready

theorem Started.born {n : ℕ} {p : TdPtr} (h : Started k n) (hids : k.Ids) (hb : Born k k' p) :
  Started k' (n + 1)
  := by
  have hnew := hb.not_mem hids
  have hold : ∀ x ∈ k.mapTid, k'.td x = k.td x :=
    fun x hx => hb.td x (ne_of_mem_of_not_mem hx hnew)
  constructor
  · rw [hb.mapTid, List.map_append, List.map_singleton, hb.tid, h.next, List.range_succ,
      List.map_append, List.map_singleton, ← h.tids]
    congr 1
    apply List.map_congr_left
    intro x hx
    rw [hold x hx]
  · rw [hb.nextTid, h.next]
    rfl
  · intro x hx
    rw [hb.mapTid, List.mem_append, List.mem_singleton] at hx
    obtain hx | rfl := hx
    · rw [state, hold x hx]
      exact h.ready x hx
    · exact hb.state

omit [TaskAlloc A] in
theorem Started.addReady {n : ℕ} (h : Started k n) (p : TdPtr) :
  Started (k.kSchedAddReady p) n
  := by
  constructor
  · rw [kSchedAddReady_mapTid, ← h.tids]
    apply List.map_congr_left
    intro x _
    exact k.tid_kSchedAddReady p x
  · rw [kSchedAddReady_nextTid, h.next]
  · intro x hx
    rw [kSchedAddReady_mapTid] at hx
    rw [state_kSchedAddReady]
    split
    · rfl
    · exact h.ready x hx

theorem Booted.started (h : Booted k₀) :
  Started k₀ 3
  := by
  obtain ⟨k, k₁, k₂, k₃, idle, p₂, p₃, -, -, -, hids, -, hborn₁, -, hborn₂, -, hborn₃, rfl⟩ :=
    h.births
  have hnone : Started k.kTmgrInit.kSchedInit 0 := ⟨rfl, rfl, List.forall_mem_nil _⟩
  have hcore₁ := core_idle False False (fun _ => 0) hborn₁
  have hstart₁ : Started { k₁ with idleTask := idle, atNull := none } 1 := by
    obtain ⟨htids, hnext, hready⟩ := hnone.born hids hborn₁
    exact ⟨htids, hnext, hready⟩
  have hcore₂ := (hcore₁.born hborn₂).addReady List.not_mem_nil False.elim
  have hstart₂ := (hstart₁.born hcore₁.base.ids hborn₂).addReady p₂
  obtain ⟨htids, hnext, hready⟩ := (hstart₂.born hcore₂.base.ids hborn₃).addReady p₃
  exact ⟨htids, hnext, hready⟩

/-- The invariant holds at the start, when the lists are empty. -/
theorem Booted.sound (h : Booted k₀) :
  Sound k₀
  := by
  obtain ⟨q, hcore, hpoint, -⟩ : ∃ q, Core False False (fun _ => 0) k₀ q [] ∧ k₀.point = .top
      ∧ k₀.nextTid = 3 := h.spec _
  have hready := h.started.ready
  have hnil : ∀ b, q b = [] := by
    intro b
    apply List.eq_nil_iff_forall_not_mem.mpr
    intro p hp
    obtain ⟨hmap, -, ht⟩ := (hcore.base.lists.mem_iff b p).mp hp
    exact Blocked.ne_ready ht (hready p hmap)
  have hidle := hcore.base.lists.idle_mem
  constructor
  · use ∅
    rw [floating, if_pos hpoint]
    constructor
    · exact hcore.base.ids
    · exact hcore.base.heap
    · exact List.forall_mem_nil _
    · exact hidle
    · exact hready _ hidle
    · intro p hp
      use (hcore.queues.wf p hp).1
      intro s hs
      have hsend := hcore.queues.send p hp s hs
      rw [hnil] at hsend
      cases hsend
    · constructor
      · exact ⟨fun x hx => hx.elim, fun x hx => hx.elim⟩
      · intro b p hp
        rw [(hcore.base.lists.forest.list b).head_eq, hnil] at hp
        cases hp
      · exact fun p hp => hp.elim
      · exact fun p hp hne => absurd (hready p hp) hne
  · exact fun hne => absurd hpoint hne

end Runs

end Kernel

end TrainsOs
