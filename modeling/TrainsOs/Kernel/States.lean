import TrainsOs.Kernel.Arena

/-!
# Task states and lists

In every run in which the events that are waited for have identifiers of events and the
creations and exits leave the allocators and the descriptors in order, the state of a task says
which list it is on.
-/

namespace TrainsOs

namespace Kernel

variable {A : Type} {k : Kernel A} {q : Blocked → List TdPtr} {p : TdPtr} {b : Blocked}

/-- The task is reached from the head of a list of blocked tasks. -/
def OnList (k : Kernel A) (b : Blocked) (p : TdPtr) : Prop :=
  ∃ n, DList.nth k.links (k.blocked b) n = some p

/-- The states of the tasks agree with the lists. -/
structure Linked (k : Kernel A) : Prop where
  state : ∀ p ∈ k.mapTid, ∀ b, k.OnList b p ↔ b.test (k.state p) = true
  apart : ∀ p b b', k.OnList b p → k.OnList b' p → b = b'
  heap : ∀ p b, k.OnList b p → p ∉ k.heap.toList
  removes : ∀ p ∈ k.mapTid, ∀ b, b.test (k.state p) = true →
    ∃ k', k.removeWait b p = some k'
      ∧ ∀ b' x, k'.OnList b' x ↔ k.OnList b' x ∧ (b' = b → x ≠ p)

/-- No task is on an empty list. -/
theorem not_onList_of_none (h : k.blocked b = none) :
  ¬ k.OnList b p
  := by
  rintro ⟨n, hn⟩
  rw [h, DList.nth_eq_none_of_le (Nat.zero_le n) rfl] at hn
  cases hn

theorem onList_iff (h : DList.Forest k.links k.blocked q) :
  k.OnList b p ↔ p ∈ q b
  := by
  rw [OnList, List.mem_iff_getElem?]
  apply exists_congr
  intro n
  rw [(h.list b).nth_eq]

variable [TaskAlloc A]

/-- The invariant says where the tasks are linked. -/
theorem Inv.linked {cq ch : Prop} {sent : TdPtr → ℤ} (h : Inv cq ch sent k) :
  k.Linked
  := by
  obtain ⟨q, hcore⟩ := h.core
  have hlists := hcore.base.lists
  have hlist : ∀ b p, k.OnList b p ↔ p ∈ q b := fun b p => onList_iff hlists.forest
  have hfloat : ∀ p ∈ k.floating, k.state p = TaskState.ready := by
    intro p hp
    rw [Kernel.floating] at hp
    split at hp
    · cases hp
    · rename_i hpoint
      exact h.ready hpoint p (mem_running hp)
  have hmem : ∀ b, ∀ p ∈ k.mapTid, p ∈ q b ↔ b.test (k.state p) = true := by
    intro b p hp
    rw [hlists.mem_iff]
    constructor
    · rintro ⟨-, -, ht⟩
      exact ht
    · intro ht
      refine ⟨hp, fun hF => ?_, ht⟩
      rw [hfloat p hF, b.not_test_ready] at ht
      cases ht
  constructor
  · intro p hp b
    rw [hlist, hmem b p hp]
  · intro p b b' hp hp'
    rw [hlist] at hp hp'
    exact hlists.forest.apart hp hp'
  · intro p b hp hheap
    rw [hlist, hlists.mem_iff] at hp
    have ht := hp.2.2
    rw [(hcore.base.heap.mem p hheap).2.2, b.not_test_ready] at ht
    cases ht
  · intro p hp b ht
    have hpb := (hmem b p hp).mpr ht
    obtain ⟨l, hd, hrem, hlists'⟩ := hlists.delete hpb
    refine ⟨_, hrem, ?_⟩
    intro b' x
    rw [onList_iff hlists'.forest, hlist]
    by_cases hb : b' = b
    · subst hb
      rw [Function.update_self, (hlists.forest.list b').nodup.mem_erase_iff]
      constructor
      · exact fun hx => ⟨hx.2, fun _ => hx.1⟩
      · exact fun hx => ⟨hx.2 rfl, hx.1⟩
    · rw [Function.update_of_ne hb]
      simp [hb]

/-- The conditions: identifiers of events, and creations and exits that are in order. -/
structure LinkOk (k : Kernel A) (a : Act) : Prop where
  enabled : k.Enabled a
  event : EventOk a
  alloc : k.AllocOk a

theorem LinkOk.ok {a : Act} (h : k.LinkOk a) :
  Ok False False k a
  := by
  constructor
  · exact h.enabled
  · exact h.event
  · exact h.alloc
  all_goals exact False.elim

/-- In every such run no assertion fails, and in the state it ends in every task is on the
list that its state says. -/
theorem kernel_linked {k₀ : Kernel A} (h : Booted k₀) {as : List Act}
    (has : Run.Meets step LinkOk k₀ as) :
  ∃ k', Run.run step k₀ as = some k' ∧ k'.Linked
  := by
  have hok : Run.Meets step (Ok False False) k₀ as := has.mono fun _ _ => LinkOk.ok
  obtain ⟨k', hrun, sent, hinv⟩ := h.run_inv hok
  exact ⟨k', hrun, hinv.linked⟩

/-- `user_entry` waits for a message. -/
theorem kernel_linked_recv :
  ∃ k', Run.run step Arena.bootKernel [.schedule, .syscall ctx₀ (.recv 0 0 0)] = some k'
    ∧ k'.Linked
  := by
  apply kernel_linked Arena.booted
  refine ⟨⟨rfl, trivial, trivial⟩, ?_⟩
  intro k₁ h₁
  rw [← Option.some.inj h₁]
  exact ⟨⟨⟨rfl, by decide⟩, trivial, trivial⟩, fun _ _ => trivial⟩

/-- `user_entry` waits for the event `5`, which is no identifier of an event but the state
of the tasks that wait for a reply. -/
theorem kernel_not_linked_event :
  ∃ k', Run.Meets step Enabled Arena.bootKernel [.schedule, .syscall ctx₀ (.awaitEvent 5)]
    ∧ Run.run step Arena.bootKernel [.schedule, .syscall ctx₀ (.awaitEvent 5)] = some k'
    ∧ ¬ k'.Linked
  := by
  refine ⟨_, ⟨rfl, ?_⟩, rfl, ?_⟩
  · intro k₁ h₁
    rw [← Option.some.inj h₁]
    exact ⟨⟨rfl, by decide⟩, fun _ _ => trivial⟩
  · intro hlinked
    apply not_onList_of_none _ ((hlinked.state 3 (by decide) .reply).mpr (by decide))
    rfl

/-! ### Conditions that are checked -/

/-- The action can happen next, and an event that is waited for has the identifier of an
event. -/
structure EventsOk (k : Kernel A) (a : Act) : Prop where
  enabled : k.Enabled a
  event : EventOk a

/-- A computable form of `EventsOk`. -/
def eventsCheck (k : Kernel A) : Act → Bool
  | .schedule => k.point = .top
  | .write _ => k.point = .user
  | .syscall _ (.awaitEvent intrId) =>
      k.point = .user && k.current ≠ some k.idleTask && keIntrIdRangeMin ≤ intrId
  | .syscall _ _ => k.point = .user && k.current ≠ some k.idleTask
  | .interrupt _ _ _ => k.point = .user
  | .requeue => k.point = .bottom

omit [TaskAlloc A] in
theorem eventsOk_of_check {a : Act} (h : k.eventsCheck a = true) :
  k.EventsOk a
  := by
  cases a with
  | syscall ctx call =>
    cases call <;> simp only [eventsCheck, Bool.and_eq_true, decide_eq_true_eq] at h
    case awaitEvent => exact ⟨h.1, h.2⟩
    all_goals exact ⟨h, trivial⟩
  | _ =>
    simp only [eventsCheck, decide_eq_true_eq] at h
    exact ⟨h, trivial⟩

/-- A computable form of `LinkOk`, for creations that are proper. -/
def linkCheck (k : Kernel Arena) : Act → Bool
  | .syscall ctx (.create priority args argsLen) =>
      k.eventsCheck (.syscall ctx (.create priority args argsLen))
        && kSchedPriorityIsValid priority && argsLen ≤ pgSz - sizeofRegStore
        && k.tdsCount < tdsMax
  | a => k.eventsCheck a

theorem linkOk_of_check {k : Kernel Arena} {a : Act} (h : k.linkCheck a = true) :
  k.LinkOk a
  := by
  have hplain : k.eventsCheck a = true → k.AllocOk a → k.LinkOk a := by
    intro hevents halloc
    obtain ⟨henabled, hevent⟩ := eventsOk_of_check hevents
    exact ⟨henabled, hevent, halloc⟩
  cases a with
  | syscall ctx call =>
    cases call with
    | create priority args argsLen =>
      simp only [linkCheck, Bool.and_eq_true, decide_eq_true_eq] at h
      obtain ⟨⟨⟨hevents, hprio⟩, hframe⟩, hroom⟩ := h
      exact hplain hevents (Or.inl ⟨hprio, hframe, hroom⟩)
    | exit => exact hplain h fun _ _ => trivial
    | _ => exact hplain h trivial
  | _ => exact hplain h trivial

end Kernel

end TrainsOs
