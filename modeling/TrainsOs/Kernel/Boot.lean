import TrainsOs.Kernel.Invariant

/-!
# Runs of the kernel

The invariant holds when `k_main` enters the loop, hence after every run of actions that
meet its conditions, and no such run fails.
-/

namespace TrainsOs

namespace Kernel

variable {A : Type} [TaskAlloc A] {cq ch : Prop} {sent : TdPtr → ℤ} {k k₀ : Kernel A}

/-! ### The start -/

/-- The kernel before the first task is created. -/
theorem ids_kTmgrInit (hintact : TaskAlloc.Intact k.alloc) :
  k.kTmgrInit.kSchedInit.Ids
  := by
  constructor
  · exact hintact
  all_goals simp [kTmgrInit, kSchedInit]

/-- A task that `k_main` creates is born ready. -/
theorem startTask_born {k₁ : Kernel A} {p : TdPtr} {priority userFunc : ℕ} {src : ℕ → UInt8}
    {args argsLen : ℕ} (hids : k.Ids) (hroom : k.TdRoom)
    (h : k.startTask priority userFunc src args argsLen = some (k₁, p)) :
  Born k k₁ p
  := by
  rw [startTask] at h
  obtain ⟨-, alloc, hget, -⟩ | ⟨-, alloc, p', stackAddr, hget, -, hgives⟩ :=
    kTmgrGetFreeTask_spec hids pgSft
  · rw [hget] at h
    cases h
  · rw [hget] at h
    dsimp only at h
    rw [Option.some.injEq, Prod.mk.injEq] at h
    obtain ⟨rfl, rfl⟩ := h
    exact born_initUserTask pgSft (hgives hroom) none priority userFunc src args argsLen

section Idle

variable {k₁ : Kernel A} {p x : TdPtr} (hborn : Born k.kTmgrInit.kSchedInit k₁ p)
include hborn

/-- The idle task is the only one. -/
theorem mem_mapTid_idle :
  x ∈ k₁.mapTid ↔ x = p
  := by
  have hmap : k₁.mapTid = [p] := hborn.mapTid
  rw [hmap, List.mem_singleton]

theorem ids_idle :
  Ids ({ k₁ with idleTask := p, atNull := none } : Kernel A)
  := by
  have hmem := fun x => mem_mapTid_idle (x := x) hborn
  have hmap : k₁.mapTid = [p] := hborn.mapTid
  constructor
  · exact hborn.alloc.intact
  · dsimp only
    rw [hmap]
    exact List.nodup_singleton p
  · intro x hx
    rw [(hmem x).mp hx, hborn.alloc.tds]
    exact Finset.mem_insert_self p _
  · intro x hx
    rw [(hmem x).mp hx, hborn.alloc.blocks]
    exact Set.mem_insert _ _
  · intro x hx y hy _
    rw [(hmem x).mp hx, (hmem y).mp hy]
  · intro x hx
    dsimp only
    rw [(hmem x).mp hx, hborn.tid, hborn.nextTid]
    exact lt_add_one _
  · intro x hx y hy _
    rw [(hmem x).mp hx, (hmem y).mp hy]

theorem lists_idle :
  Lists ({ k₁ with idleTask := p, atNull := none } : Kernel A) (fun _ => []) []
  := by
  constructor
  · dsimp only
    rw [hborn.blocked]
    exact DList.Forest.empty _
  · intro b x
    constructor
    · intro hx
      cases hx
    · rintro ⟨hx, -, hx'⟩
      rw [(mem_mapTid_idle hborn).mp hx] at hx'
      have hready' : b.test (k₁.state p) = true := hx'
      rw [hborn.state, b.not_test_ready] at hready'
      cases hready'
  · intro x hx
    cases hx
  · exact (mem_mapTid_idle hborn).mpr rfl
  · exact hborn.state
  · exact List.not_mem_nil

theorem heap_idle (ch : Prop) :
  Heap ch ({ k₁ with idleTask := p, atNull := none } : Kernel A) []
  := by
  have hheap : k₁.heap.toList = [] := by
    rw [hborn.heap]
    rfl
  constructor
  · dsimp only
    rw [hheap]
    exact List.nodup_nil
  · intro x hx
    dsimp only at hx
    rw [hheap] at hx
    cases hx
  · dsimp only
    rw [hheap]
    exact List.not_mem_nil
  · dsimp only
    rw [hborn.heap]
    rfl
  · dsimp only
    rw [hborn.heap]
    exact Nat.zero_le _
  · intro _ x hx hne
    exact absurd ((mem_mapTid_idle hborn).mp hx) hne
  · intro _ x
    dsimp only
    rw [hheap, hborn.log]
    rfl

theorem queues_idle (cq : Prop) (sent : TdPtr → ℤ) :
  Queues cq sent ({ k₁ with idleTask := p, atNull := none } : Kernel A) (fun _ => [])
  := by
  have hring : ∀ x ∈ k₁.mapTid, k₁.ring x = RingBuffer.init 0 userStackArrayCnt := by
    intro x hx
    rw [(mem_mapTid_idle hborn).mp hx]
    exact hborn.ring
  have hnil : ∀ x ∈ k₁.mapTid, k₁.queue x = [] := by
    intro x hx
    rw [Kernel.queue, hring x hx]
    rfl
  constructor
  · intro x hx
    have heq : ({ k₁ with idleTask := p, atNull := none } : Kernel A).ring x
      = RingBuffer.init 0 userStackArrayCnt := hring x hx
    rw [heq]
    exact ⟨RingBuffer.init_wf (by decide), rfl⟩
  · intro x hx s hs
    have hs' : s ∈ k₁.queue x := hs
    rw [hnil x hx] at hs'
    cases hs'
  · intro x hx
    have heq : ({ k₁ with idleTask := p, atNull := none } : Kernel A).queue x = [] := hnil x hx
    rw [heq]
    exact List.nodup_nil
  · intro x hx y _ s hs
    have hs' : s ∈ k₁.queue x := hs
    rw [hnil x hx] at hs'
    cases hs'
  · intro x hx
    cases hx
  · intro _ s hs
    cases hs
  · intro _
    rfl

end Idle

/-- The invariant holds of the idle task alone. -/
theorem core_idle (cq ch : Prop) (sent : TdPtr → ℤ) {k₁ : Kernel A} {p : TdPtr}
    (hborn : Born k.kTmgrInit.kSchedInit k₁ p) :
  Core cq ch sent ({ k₁ with idleTask := p, atNull := none } : Kernel A) (fun _ => []) []
  := by
  constructor
  · exact ⟨ids_idle hborn, lists_idle hborn, heap_idle hborn ch⟩
  · exact queues_idle hborn cq sent

/-- The kernel when `k_main` enters the loop. Before it, `pg_init` and `slab_create` have set
up the allocators, and no descriptor is in use. -/
def Booted (k₀ : Kernel A) : Prop :=
  ∃ k src entryArgs serverArgs, TaskAlloc.Intact k.alloc ∧ TaskAlloc.tds k.alloc = ∅
    ∧ kMain k src entryArgs serverArgs = some k₀

/-- A birth takes one descriptor. -/
theorem Born.card {k₁ : Kernel A} {p : TdPtr} (h : Born k k₁ p) :
  (TaskAlloc.tds k₁.alloc).card = (TaskAlloc.tds k.alloc).card + 1
  := by rw [h.alloc.tds, Finset.card_insert_of_notMem h.alloc.fresh]

/-- The three births in `k_main`. -/
theorem Booted.births (h : Booted k₀) :
  ∃ (k k₁ k₂ k₃ : Kernel A) (idle p₂ p₃ : TdPtr) (src : ℕ → UInt8) (entryArgs serverArgs : ℕ),
    k.kTmgrInit.kSchedInit.Ids
    ∧ k.kTmgrInit.kSchedInit.startTask kePrioMin.toNat k.code.idleTask src 0 0 = some (k₁, idle)
    ∧ Born k.kTmgrInit.kSchedInit k₁ idle
    ∧ ({ k₁ with idleTask := idle, atNull := none } : Kernel A).startTask kePrioMax.toNat
        k₁.code.loadElf src entryArgs 19 = some (k₂, p₂)
    ∧ Born ({ k₁ with idleTask := idle, atNull := none } : Kernel A) k₂ p₂
    ∧ (k₂.kSchedAddReady p₂).startTask kePrioMax.toNat (k₂.kSchedAddReady p₂).code.loadElf src
        serverArgs 20 = some (k₃, p₃)
    ∧ Born (k₂.kSchedAddReady p₂) k₃ p₃
    ∧ k₀ = (k₃.kSchedAddReady p₃).setPoint .top
  := by
  obtain ⟨k, src, entryArgs, serverArgs, hintact, hnone, h⟩ := h
  simp only [kMain, Option.bind_eq_bind, Option.bind_eq_some_iff] at h
  obtain ⟨⟨k₁, idle⟩, hidle, ⟨k₂, p₂⟩, hentry, ⟨k₃, p₃⟩, hserver, h⟩ := h
  dsimp only at hentry hserver h
  have hids := ids_kTmgrInit hintact
  have hcard : (TaskAlloc.tds k.kTmgrInit.kSchedInit.alloc).card = 0 := by
    rw [Finset.card_eq_zero]
    exact hnone
  have hborn₁ := startTask_born hids (by rw [TdRoom, hcard]; decide) hidle
  have hcard₁ := hborn₁.card
  have hcore₁ := core_idle False False (fun _ => 0) hborn₁
  have hborn₂ := startTask_born hcore₁.base.ids
    (by
      rw [TdRoom]
      dsimp only
      rw [hcard₁, hcard]
      decide) hentry
  have hcard₂ := hborn₂.card
  have hcore₂ := (hcore₁.born hborn₂).addReady List.not_mem_nil False.elim
  have hborn₃ := startTask_born hcore₂.base.ids
    (by
      rw [TdRoom, kSchedAddReady_alloc, hcard₂]
      dsimp only
      rw [hcard₁, hcard]
      decide) hserver
  exact ⟨k, k₁, k₂, k₃, idle, p₂, p₃, src, entryArgs, serverArgs, hids, hidle, hborn₁, hentry,
    hborn₂, hserver, hborn₃, (Option.some.inj h).symm⟩

/-- The first three tasks are alive, and none of them runs yet. -/
theorem Booted.spec (h : Booted k₀) (sent : TdPtr → ℤ) :
  ∃ q, Core cq ch sent k₀ q [] ∧ k₀.point = .top ∧ k₀.nextTid = 3
  := by
  obtain ⟨k, k₁, k₂, k₃, idle, p₂, p₃, -, -, -, -, -, hborn₁, -, hborn₂, -, hborn₃, rfl⟩ := h.births
  have hcore₁ := core_idle cq ch sent hborn₁
  have hcount : k₂.heap.count = 0 := by
    rw [hborn₂.heap]
    dsimp only
    rw [hborn₁.heap]
    rfl
  have hcap : k₂.heap.capacity = kSchedHeapCapacity := by
    rw [hborn₂.heap]
    exact hcore₁.base.heap.capacity
  have hcore₂ := (hcore₁.born hborn₂).addReady List.not_mem_nil fun _ => by
    rw [hcount]
    decide
  have hcore₃ := (hcore₂.born hborn₃).addReady List.not_mem_nil fun _ => by
    rw [hborn₃.heap, count_kSchedAddReady _ _ (by rw [hcount, hcap]; decide), hcount]
    decide
  refine ⟨_, hcore₃.congr (agree_setPoint _ .top), rfl, ?_⟩
  have hnext : (k₃.kSchedAddReady p₃).nextTid = 3 := by
    rw [kSchedAddReady_nextTid, hborn₃.nextTid, kSchedAddReady_nextTid, hborn₂.nextTid]
    dsimp only
    rw [hborn₁.nextTid]
    rfl
  exact hnext

/-- The invariant holds at the start. -/
theorem Booted.inv (h : Booted k₀) (sent : TdPtr → ℤ) :
  Inv cq ch sent k₀
  := by
  obtain ⟨q, hcore, hpoint, -⟩ := h.spec sent
  constructor
  · use q
    rw [floating, if_pos hpoint]
    exact hcore
  · exact fun hne => absurd hpoint hne
  · intro hp
    rw [hpoint] at hp
    cases hp

/-! ### Runs -/

/-- No run of actions that meet the conditions fails, and the invariant holds at its end. -/
theorem Booted.run_inv (h : Booted k₀) {as : List Act}
    (has : Run.Meets step (Ok cq ch) k₀ as) :
  ∃ k', Run.run step k₀ as = some k' ∧ ∃ sent, Inv cq ch sent k'
  := by
  apply Run.run_invariant (P := fun k : Kernel A => ∃ sent, Inv cq ch sent k) _ _ has
  · rintro k a ⟨sent, hinv⟩ hok
    obtain ⟨k', hstep, hinv'⟩ := step_inv hinv hok
    exact ⟨k', hstep, _, hinv'⟩
  · exact ⟨fun _ => 0, h.inv _⟩

end Kernel

end TrainsOs
