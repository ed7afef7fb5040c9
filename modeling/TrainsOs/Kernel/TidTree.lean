import TrainsOs.Base.RbtreeMap
import TrainsOs.Kernel.Lives

/-!
# The tree of the task manager

The kernel keeps the tasks that are alive in the red-black tree `map_tid`, which the model of
the task manager has as a list. Here the functions of the task manager work on the tree. In
every run from the start the tree lists the tasks in the order of their creation, so a search
for a `tid` finds the task that the list gives; and the subtractions of the comparison
functions do not wrap while fewer than `2 ^ 62` actions have happened.
-/

namespace TrainsOs

namespace Kernel

open Rbtree RedBlack

variable {A : Type}

/-- A bound on the rounds of a loop. -/
def rbFuel : ℕ := 128

/-- Subtraction of values of type `int64_t`. -/
def int64Sub (a b : ℤ) : ℤ :=
  (a - b).bmod (2 ^ 64)

/-- What a comparison function returns for a difference. -/
def cmpDiff (diff : ℤ) : ℤ :=
  if diff = 0 then 0 else if diff < 0 then -1 else 1

/-- `k_td_rb_cmp_tid_key`. -/
def kTdRbCmpTidKey (k : Kernel A) (key : ℤ) (node : TdPtr) : ℤ :=
  cmpDiff (int64Sub key (k.td node).tid)

/-- `k_td_rb_cmp_tid`. -/
def kTdRbCmpTid (k : Kernel A) (node1 node2 : TdPtr) : ℤ :=
  cmpDiff (int64Sub (k.td node1).tid (k.td node2).tid)

/-- `k_task_mgr_get_task_dsp` on the tree. -/
def treeGetTaskDsp (k : Kernel A) (t : RbRoot TdPtr) (tid : ℤ) : Option (Option TdPtr) :=
  t.rbFind rbFuel (k.kTdRbCmpTidKey tid)

/-- `k_tmgr_get_free_task` on the tree. -/
def treeGetFreeTask [TaskAlloc A] (k : Kernel A) (t : RbRoot TdPtr) (sz : ℕ) :
    Option (Kernel A × RbRoot TdPtr × Option TdPtr) :=
  match TaskAlloc.slabAlloc k.alloc with
  | (alloc, none) => some ({ k with alloc := alloc }, t, none)
  | (alloc, some freeTask) =>
      match TaskAlloc.pgAllocPage alloc sz with
      | (alloc, none) => some ({ k with alloc := TaskAlloc.slabFree alloc freeTask }, t, none)
      | (alloc, some stackAddr) => do
          let tid := k.nextTid
          let k := { k with alloc := alloc, nextTid := tid + 1 }
          let k := k.modify freeTask fun td =>
            { td with stackAddr := stackAddr, stackSz := 1 <<< sz, tid := tid }
          let (t, node) ← t.rbFindAdd rbFuel freeTask k.kTdRbCmpTid
          match node with
          | some _ => some ({ k with alloc := TaskAlloc.slabFree k.alloc freeTask }, t, none)
          | none => some ({ k with mapTid := k.mapTid ++ [freeTask] }, t, some freeTask)

/-- What a system call of the task `c` does to the tree. -/
def treeHandle [TaskAlloc A] (k : Kernel A) (t : RbRoot TdPtr) (c : TdPtr) :
    Call → Option (RbRoot TdPtr)
  | .create _ _ _ => (k.treeGetFreeTask t pgSft).map fun r => r.2.1
  | .exit => t.rbErase rbFuel c
  | _ => some t

/-- An action of the kernel with the tree. -/
def treeStep [TaskAlloc A] (s : Kernel A × RbRoot TdPtr) (a : Act) :
    Option (Kernel A × RbRoot TdPtr) := do
  let k ← s.1.step a
  match a, s.1.current with
  | .syscall ctx call, some c => do
      let t ← (s.1.storeTd c ctx (esrSvc call.number)).treeHandle s.2 c call
      some (k, t)
  | _, _ => some (k, s.2)

/-- The tree when `k_main` enters the loop: its three tasks were added to `RB_ROOT`. -/
def bootTree (k : Kernel A) (node : TdPtr → RbNode TdPtr) : Option (RbRoot TdPtr) :=
  k.mapTid.foldlM (fun t p => (t.rbFindAdd rbFuel p k.kTdRbCmpTid).map Prod.fst) (rbRoot node)

/-- The conditions on an action. -/
structure TreeOk [TaskAlloc A] (k : Kernel A) (a : Act) : Prop where
  enabled : k.Enabled a
  alloc : k.AllocOk a

/-! ### The comparison functions -/

theorem int64Sub_eq {a b : ℤ} (hle : -2 ^ 63 ≤ a - b) (hlt : a - b < 2 ^ 63) :
  int64Sub a b = a - b
  := Int.bmod_eq_of_le (by omega) (by omega)

theorem cmpDiff_neg {d : ℤ} :
  cmpDiff d < 0 ↔ d < 0
  := by
  unfold cmpDiff
  split
  · omega
  · split <;> omega

theorem cmpDiff_pos {d : ℤ} :
  cmpDiff d > 0 ↔ d > 0
  := by
  unfold cmpDiff
  split
  · omega
  · split <;> omega

theorem cmpDiff_zero {d : ℤ} :
  cmpDiff d = 0 ↔ d = 0
  := by
  unfold cmpDiff
  split
  · omega
  · split <;> omega

/-- Two values of type `int64_t` whose difference is zero are equal. -/
theorem int64Sub_eq_zero {a b : ℤ} (ha : -2 ^ 63 ≤ a) (ha' : a < 2 ^ 63) (hb : -2 ^ 63 ≤ b)
    (hb' : b < 2 ^ 63) (h : int64Sub a b = 0) :
  a = b
  := by
  have hdvd := Int.dvd_iff_bmod_eq_zero.mpr h
  omega

/-! ### The invariant -/

/-- The tree lists the tasks, whose identifiers increase up to `n`. -/
structure TidTree (n : ℕ) (k : Kernel A) (t : RbRoot TdPtr) : Prop where
  tree : IsTree t k.mapTid
  sorted : k.mapTid.Pairwise fun p q => (k.td p).tid < (k.td q).tid
  nonneg : ∀ p ∈ k.mapTid, 0 ≤ (k.td p).tid
  lt : ∀ p ∈ k.mapTid, (k.td p).tid < k.nextTid
  next : 0 ≤ k.nextTid ∧ k.nextTid ≤ n

variable {n : ℕ} {k k' : Kernel A} {t t' : RbRoot TdPtr} {p : TdPtr} {tid : ℤ}

/-- There are at most as many tasks as identifiers. -/
theorem length_le_of_sorted {xs : List TdPtr} {f : TdPtr → ℤ} {m : ℤ}
    (hsorted : xs.Pairwise fun p q => f p < f q) (hnonneg : ∀ p ∈ xs, 0 ≤ f p)
    (hlt : ∀ p ∈ xs, f p < m) :
  xs.length ≤ m.toNat
  := by
  have hnodup : (xs.map fun p => (f p).toNat).Nodup := by
    apply List.pairwise_map.mpr (hsorted.imp_of_mem _)
    intro p q hp hq hpq heq
    have hp' := hnonneg p hp
    have hq' := hnonneg q hq
    omega
  have hsub : xs.map (fun p => (f p).toNat) ⊆ List.range m.toNat := by
    intro i hi
    obtain ⟨p, hp, rfl⟩ := List.mem_map.mp hi
    have hp' := hnonneg p hp
    have hp'' := hlt p hp
    exact List.mem_range.mpr (by omega)
  have hle := (List.subperm_of_subset hnodup hsub).length_le
  rwa [List.length_map, List.length_range] at hle

/-- The loops fit into the fuel. -/
theorem log_lt_rbFuel {m : ℕ} (h : m ≤ 2 ^ 62) :
  2 * Nat.log 2 (m + 1) < rbFuel
  := by
  have hlog : Nat.log 2 (m + 1) < 63 := Nat.log_lt_of_lt_pow (by omega) (by omega)
  rw [rbFuel]
  omega

/-- A new task with a greater identifier becomes the last one. -/
theorem rbFindAdd_new {xs : List TdPtr} (htree : IsTree t xs)
    (hsorted : xs.Pairwise fun p q => (k.td p).tid < (k.td q).tid)
    (hnonneg : ∀ q ∈ xs, 0 ≤ (k.td q).tid) (hlt : ∀ q ∈ xs, (k.td q).tid < (k.td p).tid)
    (hbound : (k.td p).tid ≤ 2 ^ 62) :
  ∃ t', t.rbFindAdd rbFuel p k.kTdRbCmpTid = some (t', none) ∧ IsTree t' (xs ++ [p])
  := by
  have hcmp : ∀ q ∈ xs, k.kTdRbCmpTid p q > 0 := by
    intro q hq
    have hq₀ := hnonneg q hq
    have hq₁ := hlt q hq
    rw [kTdRbCmpTid, cmpDiff_pos, int64Sub_eq (by omega) (by omega)]
    omega
  have hp : p ∉ xs := fun hp => (hlt p hp).ne rfl
  have hcut : IsCut (fun q => direction (k.kTdRbCmpTid p q)) xs := by
    apply isCut_of_key hsorted (k := (k.td p).tid)
    · intro q hq
      have h₁ := hcmp q hq
      have h₂ := hlt q hq
      omega
    · intro q hq
      have h₁ := hcmp q hq
      have h₂ := hlt q hq
      omega
  have hlen : xs.length ≤ 2 ^ 62 := by
    have hle := length_le_of_sorted hsorted hnonneg hlt
    omega
  obtain ⟨q, hq, hzero, -⟩ | ⟨-, t', heq, htree'⟩ :=
    rbFindAdd_spec htree hp hcut (log_lt_rbFuel hlen)
  · exact absurd hzero (hcmp q hq).ne'
  · refine ⟨t', heq, ?_⟩
    have hlast : (xs ++ []).orderedInsert (fun a b => k.kTdRbCmpTid a b < 0) p = xs ++ [p] :=
      orderedInsert_append (fun q hq => not_lt.mpr (hcmp q hq).le) nofun
    rw [List.append_nil] at hlast
    rwa [hlast] at htree'

/-- The tree of the tasks of `k_main`. -/
theorem bootTree_spec (hsorted : k.mapTid.Pairwise fun p q => (k.td p).tid < (k.td q).tid)
    (hnonneg : ∀ q ∈ k.mapTid, 0 ≤ (k.td q).tid) (hbound : ∀ q ∈ k.mapTid, (k.td q).tid ≤ 2 ^ 62)
    (node : TdPtr → RbNode TdPtr) :
  ∃ t, k.bootTree node = some t ∧ IsTree t k.mapTid
  := by
  have hfold : ∀ (ys xs : List TdPtr) (t : RbRoot TdPtr), IsTree t xs → xs ++ ys = k.mapTid →
      ∃ t', ys.foldlM (fun t p => (t.rbFindAdd rbFuel p k.kTdRbCmpTid).map Prod.fst) t = some t'
        ∧ IsTree t' k.mapTid := by
    intro ys
    induction ys with
    | nil =>
      intro xs t htree heq
      rw [List.append_nil] at heq
      exact ⟨t, rfl, heq ▸ htree⟩
    | cons p ys ih =>
      intro xs t htree heq
      rw [← heq] at hsorted hnonneg hbound
      obtain ⟨hxs, -, hlt⟩ := List.pairwise_append.mp hsorted
      have hp : p ∈ xs ++ p :: ys := List.mem_append_right _ List.mem_cons_self
      obtain ⟨t', hadd, htree'⟩ := rbFindAdd_new htree hxs
        (fun q hq => hnonneg q (List.mem_append_left _ hq))
        (fun q hq => hlt q hq p List.mem_cons_self) (hbound p hp)
      rw [List.foldlM_cons, hadd]
      apply ih (xs ++ [p]) t' htree'
      rw [List.append_assoc]
      exact heq
  exact hfold k.mapTid [] (rbRoot node) (rbRoot_isTree node) rfl

/-! ### Steps -/

theorem TidTree.mono {m : ℕ} (h : TidTree n k t) (hle : n ≤ m) :
  TidTree m k t
  := ⟨h.tree, h.sorted, h.nonneg, h.lt, h.next.1, h.next.2.trans (by exact_mod_cast hle)⟩

theorem TidTree.log_lt (h : TidTree n k t) (hn : n ≤ 2 ^ 62) :
  2 * Nat.log 2 (k.mapTid.length + 1) < rbFuel
  := by
  have hle := length_le_of_sorted h.sorted h.nonneg h.lt
  obtain ⟨h₀, h₁⟩ := h.next
  exact log_lt_rbFuel (by omega)

/-- The task that is added last has the greatest identifier. -/
theorem TidTree.added (h : TidTree n k t) (hp : p ∉ k.mapTid) (hmap : k'.mapTid = k.mapTid)
    (htd : ∀ q, q ≠ p → (k'.td q).tid = (k.td q).tid) (htid : (k'.td p).tid = k.nextTid)
    (hnext : k'.nextTid = k.nextTid + 1) (hn : n ≤ 2 ^ 62) :
  k'.kTaskMgrGetTaskDsp k.nextTid = none
    ∧ ∃ t', t.rbFindAdd rbFuel p k'.kTdRbCmpTid = some (t', none)
      ∧ TidTree (n + 1) { k' with mapTid := k'.mapTid ++ [p] } t'
  := by
  have hne : ∀ q ∈ k.mapTid, q ≠ p := fun q hq => ne_of_mem_of_not_mem hq hp
  have hsorted : k.mapTid.Pairwise fun p q => (k'.td p).tid < (k'.td q).tid := by
    apply h.sorted.imp_of_mem
    intro x y hx hy hxy
    rwa [htd x (hne x hx), htd y (hne y hy)]
  have hnonneg : ∀ q ∈ k.mapTid, 0 ≤ (k'.td q).tid := by
    intro q hq
    rw [htd q (hne q hq)]
    exact h.nonneg q hq
  have hlt : ∀ q ∈ k.mapTid, (k'.td q).tid < (k'.td p).tid := by
    intro q hq
    rw [htd q (hne q hq), htid]
    exact h.lt q hq
  obtain ⟨h₀, h₁⟩ := h.next
  constructor
  · rw [kTaskMgrGetTaskDsp, hmap, List.find?_eq_none]
    intro q hq
    have hq' := hlt q hq
    rw [htid] at hq'
    simpa using hq'.ne
  · obtain ⟨t', heq, htree⟩ := rbFindAdd_new h.tree hsorted hnonneg hlt (by omega)
    refine ⟨t', heq, ?_⟩
    rw [hmap]
    constructor
    · exact htree
    · apply List.pairwise_append.mpr ⟨hsorted, List.pairwise_singleton _ _, ?_⟩
      intro x hx y hy
      rw [List.mem_singleton.mp hy]
      exact hlt x hx
    · intro q hq
      obtain hq | hq := List.mem_append.mp hq
      · exact hnonneg q hq
      · rw [List.mem_singleton.mp hq]
        exact htid.symm ▸ h₀
    · intro q hq
      have hq' : (k'.td q).tid ≤ k.nextTid := by
        obtain hq | hq := List.mem_append.mp hq
        · exact htid ▸ (hlt q hq).le
        · rw [List.mem_singleton.mp hq, htid]
      dsimp only
      omega
    · dsimp only
      push_cast
      omega

variable [TaskAlloc A]

theorem TidTree.same (h : TidTree n k t) (hs : SameTasks k k') :
  TidTree n k' t
  := by
  constructor
  · rw [hs.mapTid]
    exact h.tree
  · simpa only [hs.mapTid, hs.tid] using h.sorted
  · simpa only [hs.mapTid, hs.tid] using h.nonneg
  · simpa only [hs.mapTid, hs.tid, hs.nextTid] using h.lt
  · rw [hs.nextTid]
    exact h.next

/-- The task manager does the same with the tree as with the list. -/
theorem TidTree.getFreeTask (h : TidTree n k t) (hids : k.Ids) (hn : n ≤ 2 ^ 62) (sz : ℕ) :
  ∃ t', k.treeGetFreeTask t sz
      = some ((k.kTmgrGetFreeTask sz).1, t', (k.kTmgrGetFreeTask sz).2)
    ∧ TidTree (n + 1) (k.kTmgrGetFreeTask sz).1 t'
  := by
  have hkeep : ∀ alloc : A, TidTree (n + 1) { k with alloc := alloc } t := fun alloc =>
    ⟨h.tree, h.sorted, h.nonneg, h.lt, (h.mono (Nat.le_succ n)).next⟩
  rw [treeGetFreeTask, kTmgrGetFreeTask]
  generalize hslab : TaskAlloc.slabAlloc k.alloc = r
  obtain ⟨alloc₁, _ | p⟩ := r
  · exact ⟨t, rfl, hkeep alloc₁⟩
  have hfresh := TaskAlloc.slabAlloc_fresh (p := p) hids.intact (by rw [hslab])
  have hp : p ∉ k.mapTid := fun hp => hfresh (hids.tds p hp)
  dsimp only
  generalize TaskAlloc.pgAllocPage alloc₁ sz = r
  obtain ⟨alloc₂, _ | stackAddr⟩ := r
  · exact ⟨t, rfl, hkeep _⟩
  dsimp only
  generalize hk₁ : modify _ p _ = k₁
  obtain ⟨hlook, t', heq, htree⟩ : k₁.kTaskMgrGetTaskDsp k.nextTid = none
      ∧ ∃ t', t.rbFindAdd rbFuel p k₁.kTdRbCmpTid = some (t', none)
        ∧ TidTree (n + 1) { k₁ with mapTid := k₁.mapTid ++ [p] } t' := by
    apply h.added hp
    · rw [← hk₁]
      rfl
    · intro q hq
      rw [← hk₁, modify_td, if_neg hq]
    · rw [← hk₁, modify_td, if_pos rfl]
    · rw [← hk₁]
      rfl
    · exact hn
  refine ⟨t', ?_, ?_⟩
  · rw [heq, hlook]
    rfl
  · rw [hlook]
    exact htree

/-- A task that exits is taken out of the tree. -/
theorem TidTree.destroyTask (h : TidTree n k t) (hn : n ≤ 2 ^ 62)
    (hp : p ∈ k.mapTid) :
  ∃ t', t.rbErase rbFuel p = some t' ∧ TidTree n (k.kTmgrDestroyTask p) t'
  := by
  obtain ⟨xs, ys, -, heq, herase⟩ := List.exists_erase_eq hp
  have htree := h.tree
  rw [heq] at htree
  have hlog := h.log_lt hn
  rw [heq] at hlog
  obtain ⟨t', hrun, htree'⟩ := rbErase_spec htree hlog
  refine ⟨t', hrun, ?_⟩
  have hsub : (k.mapTid.erase p).Sublist k.mapTid := List.erase_sublist
  constructor
  · rw [kTmgrDestroyTask]
    dsimp only
    rw [herase]
    exact htree'
  · exact h.sorted.sublist hsub
  · exact fun q hq => h.nonneg q (hsub.subset hq)
  · exact fun q hq => h.lt q (hsub.subset hq)
  · exact h.next

/-- A search in the tree finds what is in the list. -/
theorem TidTree.getTaskDsp (h : TidTree n k t) (hids : k.Ids) (hn : n ≤ 2 ^ 62)
    (hle : -2 ^ 63 ≤ tid) (hlt : tid < 2 ^ 63) :
  k.treeGetTaskDsp t tid = some (k.kTaskMgrGetTaskDsp tid)
  := by
  have hfuel := h.log_lt hn
  obtain ⟨T, hat, hrb, hlist⟩ := h.tree
  rw [← hlist] at hfuel
  have hrange : ∀ q ∈ k.mapTid, 0 ≤ (k.td q).tid ∧ (k.td q).tid < 2 ^ 62 := by
    intro q hq
    have h₁ := h.lt q hq
    have h₂ := h.next.2
    exact ⟨h.nonneg q hq, by omega⟩
  obtain ⟨r, heq, hsome, hnone⟩ :=
    rbFind_spec (k.kTdRbCmpTidKey tid) hat (hrb.height_le.trans_lt hfuel).le
  rw [hlist] at hsome hnone
  rw [treeGetTaskDsp, heq]
  cases r with
  | some q =>
    obtain ⟨hq, hzero⟩ := hsome q rfl
    obtain ⟨hq₀, hq₁⟩ := hrange q hq
    have htid : tid = (k.td q).tid :=
      int64Sub_eq_zero hle hlt (by omega) (by omega) (cmpDiff_zero.mp hzero)
    rw [htid, hids.kTaskMgrGetTaskDsp_eq hq]
  | none =>
    cases hlook : k.kTaskMgrGetTaskDsp tid with
    | none => rfl
    | some q =>
      obtain ⟨hq, rfl⟩ := kTaskMgrGetTaskDsp_some hlook
      obtain ⟨hq₀, hq₁⟩ := hrange q hq
      have hsub : ∀ x ∈ k.mapTid,
          int64Sub (k.td q).tid (k.td x).tid = (k.td q).tid - (k.td x).tid := by
        intro x hx
        obtain ⟨hx₀, hx₁⟩ := hrange x hx
        exact int64Sub_eq (by omega) (by omega)
      have hcut : IsCut (fun x => direction (k.kTdRbCmpTidKey (k.td q).tid x)) k.mapTid := by
        apply isCut_of_key h.sorted (k := (k.td q).tid)
        · intro x hx
          rw [kTdRbCmpTidKey, cmpDiff_neg, hsub x hx]
          omega
        · intro x hx
          rw [kTdRbCmpTidKey, cmpDiff_pos, hsub x hx]
          omega
      have hzero : k.kTdRbCmpTidKey (k.td q).tid q = 0 := by
        rw [kTdRbCmpTidKey, cmpDiff_zero, hsub q hq]
        omega
      exact absurd hzero (hnone rfl hcut q hq)

/-- A creation changes no identifier once the descriptor has been taken. -/
theorem sameTasks_create {priority : ℤ} {args argsLen : ℕ}
    (heq : k.kCreateHandler priority args argsLen = some k') :
  SameTasks (k.kTmgrGetFreeTask pgSft).1 k'
  := by
  obtain ⟨c, -, heq⟩ := Option.bind_eq_some_iff.mp heq
  generalize k.kTmgrGetFreeTask pgSft = r at heq
  obtain ⟨k₁, _ | p⟩ := r
  · rw [← Option.some.inj heq]
    exact (quiet_setRetval k₁ c _).toSameTasks
  · dsimp only at heq
    split at heq
    · rw [← Option.some.inj heq]
      exact (quiet_setRetval k₁ c _).toSameTasks
    · rw [← Option.some.inj heq]
      have hinit : SameTasks k₁ (k₁.kTdInitUserTask p (some c) priority.toNat k₁.code.loadElf
          (k₁.mem c).bytes args argsLen) :=
        ⟨TaskAlloc.Keeps.refl _, rfl, rfl, tid_kTdInitUserTask _ _ _ _ _ _ _,
          stackAddr_kTdInitUserTask _ _ _ _ _ _ _⟩
      exact hinit.trans ((quiet_addReady _ p).trans (quiet_setRetval _ c _)).toSameTasks

/-- What a system call does to the tasks, it does to the tree. -/
theorem TidTree.handle (h : TidTree n k t) (hids : k.Ids) (hn : n ≤ 2 ^ 62) {c : TdPtr}
    (hc : k.current = some c) (hmap : c ∈ k.mapTid) {call : Call}
    (heq : k.handle call = some k') :
  ∃ t', k.treeHandle t c call = some t' ∧ TidTree (n + 1) k' t'
  := by
  have hsame : SameTasks k k' → TidTree (n + 1) k' t := fun hs => (h.same hs).mono (Nat.le_succ n)
  cases call with
  | create priority args argsLen =>
    obtain ⟨t', hget, htree⟩ := h.getFreeTask hids hn pgSft
    refine ⟨t', ?_, htree.same (sameTasks_create heq)⟩
    rw [treeHandle, hget]
    rfl
  | exit =>
    rw [Kernel.handle, kExitHandler, hc, Option.bind_eq_bind, Option.bind_some] at heq
    rw [← Option.some.inj heq]
    obtain ⟨t', herase, htree⟩ := h.destroyTask hn hmap
    exact ⟨t', herase, (htree.mono (Nat.le_succ n)).same (quiet_setCurrent _ none).toSameTasks⟩
  | yield => exact ⟨t, rfl, hsame (Option.some.inj heq ▸ SameTasks.refl k)⟩
  | myTid => exact ⟨t, rfl, hsame (quiet_myTid heq).toSameTasks⟩
  | myParentTid =>
    obtain ⟨v, w, hspec, hagree⟩ := kMyParentTidHandler_spec hc
    rw [Kernel.handle, hspec] at heq
    exact ⟨t, rfl, hsame (Option.some.inj heq ▸ hagree.sameTasks)⟩
  | send tid msg msglen reply rplen => exact ⟨t, rfl, hsame (quiet_send heq).toSameTasks⟩
  | recv tid msg msglen => exact ⟨t, rfl, hsame (quiet_recv heq).toSameTasks⟩
  | reply tid reply rplen => exact ⟨t, rfl, hsame (quiet_reply heq).toSameTasks⟩
  | awaitEvent intrId => exact ⟨t, rfl, hsame (quiet_awaitEvent heq).toSameTasks⟩
  | mmap target memSz => exact ⟨t, rfl, hsame (quiet_mmap heq).toSameTasks⟩
  | other retval =>
    rw [Kernel.handle, hc] at heq
    exact ⟨t, rfl, hsame (Option.some.inj heq ▸ (quiet_setRetval k c retval).toSameTasks)⟩

/-- What an action does to the tasks, it does to the tree. -/
theorem TidTree.step (h : TidTree n k t) (hsound : Sound k) (hn : n ≤ 2 ^ 62) {a : Act}
    (hok : k.TreeOk a) (heq : k.step a = some k') :
  ∃ t', treeStep (k, t) a = some (k', t') ∧ TidTree (n + 1) k' t'
  := by
  have hsame : SameTasks k k' → TidTree (n + 1) k' t := fun hs => (h.same hs).mono (Nat.le_succ n)
  cases a with
  | schedule =>
    refine ⟨t, ?_, hsame (Option.some.inj heq ▸ k.quiet_schedule.toSameTasks)⟩
    rw [treeStep, heq]
    rfl
  | write mem =>
    refine ⟨t, ?_, ?_⟩
    · rw [treeStep, heq]
      rfl
    · obtain ⟨c, -, heq⟩ := Option.bind_eq_some_iff.mp heq
      exact hsame (Option.some.inj heq ▸ (k.quiet_modifyMem c _).toSameTasks)
  | syscall ctx call =>
    have heq' := heq
    simp only [Kernel.step, Option.bind_eq_bind, Option.bind_eq_some_iff] at heq
    obtain ⟨c, hc, k₁, hcall, heq⟩ := heq
    have hstore := (k.quiet_storeTd c ctx (esrSvc call.number)).toSameTasks
    have hmap : c ∈ k.mapTid := by
      apply hsound.alive _ hc
      rw [hok.enabled.1]
      exact Point.noConfusion
    obtain ⟨t', hhandle, htree⟩ :=
      (h.same hstore).handle (hstore.ids hsound.ids) hn hc hmap hcall
    refine ⟨t', ?_, ?_⟩
    · simp only [treeStep, heq', hc, Option.bind_eq_bind, Option.bind_some, hhandle]
    · rw [← Option.some.inj heq]
      exact htree.same (quiet_setPoint k₁ .bottom).toSameTasks
  | interrupt ctx x0 irqs =>
    refine ⟨t, ?_, hsame (quiet_interrupt heq).toSameTasks⟩
    rw [treeStep, heq]
    rfl
  | requeue =>
    refine ⟨t, ?_, hsame (Option.some.inj heq ▸ k.quiet_requeue.toSameTasks)⟩
    rw [treeStep, heq]
    rfl

/-! ### Runs -/

/-- The kernel with the tree takes the steps of the kernel. -/
theorem TidTree.run (h : TidTree n k t) (hsound : Sound k) {as : List Act}
    (has : Run.Meets Kernel.step TreeOk k as) (hn : n + as.length ≤ 2 ^ 62)
    (hrun : Run.run Kernel.step k as = some k') :
  ∃ t', Run.run treeStep (k, t) as = some (k', t') ∧ TidTree (n + as.length) k' t' ∧ Sound k'
  := by
  induction as generalizing n k t with
  | nil =>
    obtain rfl := Option.some.inj hrun
    exact ⟨t, rfl, h, hsound⟩
  | cons a as ih =>
    rw [List.length_cons] at hn
    obtain ⟨k₁, hstep, hrun⟩ := Option.bind_eq_some_iff.mp hrun
    obtain ⟨hok, has⟩ := has
    obtain ⟨t₁, htree, h₁⟩ := h.step hsound (by omega) hok hstep
    obtain ⟨t', hrun', h', hsound'⟩ := ih h₁ (hsound.step hok.enabled hok.alloc hstep)
      (has k₁ hstep) (by omega) hrun
    refine ⟨t', ?_, ?_, hsound'⟩
    · rw [Run.run_cons htree]
      exact hrun'
    · rw [List.length_cons, ← Nat.add_assoc, Nat.add_right_comm]
      exact h'

/-- In every run whose creations are proper the kernel does the same with the tree, which lists
the tasks, and every identifier is found in it as it is in the list. -/
theorem Booted.tidTree {k₀ : Kernel A} (hboot : Booted k₀) (node : TdPtr → RbNode TdPtr)
    {as : List Act} (has : Run.Meets step TreeOk k₀ as) (hlen : as.length + 3 ≤ 2 ^ 62)
    (hrun : Run.run step k₀ as = some k) :
  ∃ t₀ t, k₀.bootTree node = some t₀ ∧ Run.run treeStep (k₀, t₀) as = some (k, t)
    ∧ IsTree t k.mapTid
    ∧ ∀ tid : ℤ, -2 ^ 63 ≤ tid → tid < 2 ^ 63 →
      k.treeGetTaskDsp t tid = some (k.kTaskMgrGetTaskDsp tid)
  := by
  obtain ⟨htids, hnext, -⟩ := hboot.started
  have hsound := hboot.sound
  have hrange : ∀ p ∈ k₀.mapTid, 0 ≤ (k₀.td p).tid ∧ (k₀.td p).tid < 3 := by
    intro p hp
    have hmem : (k₀.td p).tid ∈ (List.range 3).map (Nat.cast : ℕ → ℤ) :=
      htids ▸ List.mem_map_of_mem hp
    obtain ⟨i, hi, heq⟩ := List.mem_map.mp hmem
    have hi' := List.mem_range.mp hi
    omega
  have hsorted : k₀.mapTid.Pairwise fun p q => (k₀.td p).tid < (k₀.td q).tid := by
    have hpairs : (k₀.mapTid.map fun p => (k₀.td p).tid).Pairwise (· < ·) := by
      rw [htids]
      decide
    exact List.pairwise_map.mp hpairs
  obtain ⟨t₀, hboot, htree₀⟩ := bootTree_spec hsorted (fun p hp => (hrange p hp).1)
    (fun p hp => by have := (hrange p hp).2; omega) node
  have h₀ : TidTree 3 k₀ t₀ := by
    refine ⟨htree₀, hsorted, fun p hp => (hrange p hp).1, ?_, ?_⟩
    · intro p hp
      rw [hnext]
      exact_mod_cast (hrange p hp).2
    · rw [hnext]
      decide
  obtain ⟨t, hrun', h, hsound'⟩ := h₀.run hsound has (by omega) hrun
  refine ⟨t₀, t, hboot, hrun', h.tree, ?_⟩
  intro tid hle hlt
  exact h.getTaskDsp hsound'.ids (by omega) hle hlt

/-- The tree after `user_entry` has created a task and the name server has exited. -/
theorem Booted.tidTree_entry :
  ∃ k, Run.run step Arena.bootKernel entryActs = some k ∧ k.nextTid = 4
    ∧ ∃ t₀ t, Arena.bootKernel.bootTree (fun _ => ⟨none, .red, none, none⟩) = some t₀
      ∧ Run.run treeStep (Arena.bootKernel, t₀) entryActs = some (k, t)
      ∧ IsTree t k.mapTid
      ∧ ∀ tid : ℤ, -2 ^ 63 ≤ tid → tid < 2 ^ 63 →
        k.treeGetTaskDsp t tid = some (k.kTaskMgrGetTaskDsp tid)
  := by
  have hcheck : Run.allOk step linkCheck Arena.bootKernel entryActs = true := by decide +kernel
  have hok := (Run.meets_of_allOk (fun _ _ => linkOk_of_check) hcheck).mono
    fun _ _ h => TreeOk.mk h.enabled h.alloc
  exact ⟨_, rfl, by decide +kernel, Booted.tidTree Arena.booted _ hok (by decide) rfl⟩

end Kernel

end TrainsOs
