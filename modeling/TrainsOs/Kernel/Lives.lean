import TrainsOs.Kernel.Rounds
import TrainsOs.Kernel.Sane
import TrainsOs.Kernel.States

/-!
# The lives of the tasks

A history is kept beside the kernel: the lives of the tasks in the order of their births, and
for each descriptor the life that it has now. A birth is recorded when `k_tmgr_get_free_task`
gives a descriptor to `k_create_handler`, together with the `tid` that it carries and with
the life of the calling task, and the life of the calling task ends with `k_exit_handler`.
The history does not look at the tree of the task manager.

As long as the allocators stay intact and the `tid`s fit into the `int` of the system calls,
the tree agrees with the history, although descriptors and their memory are used again: each
`tid` belongs to one life, it is found as long as this life lasts, and a task finds its creator
or nobody. The first `tid` that does not fit is the one after `2 ^ 31` births.
-/

namespace TrainsOs

namespace Kernel

variable {A : Type}

/-- The life of a task: its descriptor, the `tid` that it was given, and the life that called
`ke_create`, if it is not one of the tasks of `k_main`. -/
structure Life where
  td : TdPtr
  tid : ℤ
  creator : Option ℕ

/-- The lives in the order of the births, and the life that each descriptor has now. -/
structure Lives where
  born : List Life
  live : TdPtr → Option ℕ

def Lives.birth (l : Lives) (p : TdPtr) (tid : ℤ) (creator : Option ℕ) : Lives where
  born := l.born ++ [⟨p, tid, creator⟩]
  live := Function.update l.live p (some l.born.length)

theorem Lives.born_birth (l : Lives) (p : TdPtr) (tid : ℤ) (creator : Option ℕ) {n : ℕ}
    {life : Life} :
  (l.birth p tid creator).born[n]? = some life
    ↔ l.born[n]? = some life ∨ n = l.born.length ∧ life = ⟨p, tid, creator⟩
  := by
  rw [birth]
  dsimp only
  obtain hlt | rfl | hgt := lt_trichotomy n l.born.length
  · rw [List.getElem?_append_left hlt]
    simp [hlt.ne]
  · rw [List.getElem?_concat_length, List.getElem?_eq_none le_rfl]
    simp [eq_comm]
  · rw [List.getElem?_eq_none (by rwa [List.length_append]), List.getElem?_eq_none hgt.le]
    simp [hgt.ne']

def Lives.death (l : Lives) (p : TdPtr) : Lives :=
  { l with live := Function.update l.live p none }

/-- What a call of the running task `c` adds to the history. -/
def observe [TaskAlloc A] (k : Kernel A) (c : TdPtr) (l : Lives) : Call → Lives
  | .create _ _ _ =>
      match k.kTmgrGetFreeTask pgSft with
      | (_, none) => l
      | (k, some p) => l.birth p (k.td p).tid (l.live c)
  | .exit => l.death c
  | _ => l

/-- What an action adds to the history. -/
def record [TaskAlloc A] (k : Kernel A) (l : Lives) : Act → Lives
  | .syscall ctx call =>
      match k.current with
      | some c => (k.storeTd c ctx (esrSvc call.number)).observe c l call
      | none => l
  | _ => l

/-- One action of the kernel with its history. -/
def liveStep [TaskAlloc A] (s : Kernel A × Lives) (a : Act) : Option (Kernel A × Lives) := do
  let k ← s.1.step a
  some (k, s.1.record s.2 a)

/-- The history when `k_main` enters the loop. -/
def bootLives (k : Kernel A) : Lives where
  born := k.mapTid.map fun p => ⟨p, (k.td p).tid, none⟩
  live p := if p ∈ k.mapTid then some (k.mapTid.idxOf p) else none

/-- What a task has of a `tid`: the system calls return it and take it as an `int`. -/
def intTid (tid : ℤ) : ℤ :=
  (BitVec.ofInt 32 tid).toInt

theorem intTid_of_lt {tid : ℤ} (hle : -2 ^ 31 ≤ tid) (hlt : tid < 2 ^ 31) :
  intTid tid = tid
  := by
  rw [intTid, BitVec.toInt_ofInt]
  exact Int.bmod_eq_of_le (by norm_num; omega) (by norm_num; omega)

theorem setWidth_ofInt (tid : ℤ) :
  (BitVec.ofInt 64 tid).setWidth 32 = BitVec.ofInt 32 tid
  := by
  apply BitVec.eq_of_toNat_eq
  rw [BitVec.toNat_setWidth, BitVec.toNat_ofInt, BitVec.toNat_ofInt]
  omega

/-- The actions that can happen next: creations that are proper, as long as the `tid`s fit into
an `int`, and exits whose stacks can be given back. -/
structure Lawful [TaskAlloc A] (s : Kernel A × Lives) (a : Act) : Prop where
  enabled : s.1.Enabled a
  alloc : s.1.AllocOk a
  tids : ∀ ctx priority args argsLen, a = .syscall ctx (.create priority args argsLen) →
    s.1.nextTid < 2 ^ 31

/-- The tree and the descriptors tell the tasks apart as the history does, by what the tasks
have of their `tid`s. -/
structure Identified [TaskAlloc A] (k : Kernel A) (l : Lives) : Prop where
  unique : (l.born.map fun life => intTid life.tid).Nodup
  lookup : ∀ tid p, k.kTaskMgrGetTaskDsp tid = some p ↔
    ∃ n life, l.live p = some n ∧ l.born[n]? = some life ∧ life.td = p ∧ intTid life.tid = tid
  running : k.point = .user → ∃ c n, k.current = some c ∧ l.live c = some n
  creators : ∀ (n : ℕ) (life : Life), l.born[n]? = some life → 3 ≤ n →
    ∃ m < n, life.creator = some m
  parent : ∀ c n life m creator ctx, k.current = some c → l.live c = some n →
    l.born[n]? = some life → life.creator = some m → l.born[m]? = some creator →
    ∃ k', k.step (.syscall ctx .myParentTid) = some k'
      ∧ ((k'.td c).syscallRetval.setWidth 32).toInt
        = if l.live creator.td = some m then intTid creator.tid else kTidInvalid

/-! ### The invariant -/

/-- The parent of a task that the life `m` created. -/
def ParentOf (k : Kernel A) (l : Lives) (p : TdPtr) (m : ℕ) : Prop :=
  (k.td p).parentTid = m ∨ (k.td p).parentTid = kTidInvalid ∧ ∀ q, l.live q ≠ some m

structure Tracks (k : Kernel A) (l : Lives) : Prop where
  next : k.nextTid = l.born.length
  tid : ∀ (n : ℕ) (life : Life), l.born[n]? = some life → life.tid = n
  live_iff : ∀ p n, l.live p = some n ↔ p ∈ k.mapTid ∧ (k.td p).tid = n
  alive : ∀ p ∈ k.mapTid, ∃ n, l.live p = some n
  td : ∀ p n, l.live p = some n → ∃ life, l.born[n]? = some life ∧ life.td = p
  creators : ∀ (n : ℕ) (life : Life), l.born[n]? = some life → 3 ≤ n →
    ∃ m < n, life.creator = some m
  older : ∀ (n : ℕ) (life : Life) (m : ℕ), l.born[n]? = some life → life.creator = some m → m < n
  parent : ∀ p n life m, l.live p = some n → l.born[n]? = some life → life.creator = some m →
    k.ParentOf l p m

section Steps

variable [TaskAlloc A] {k k' : Kernel A} {l : Lives} {c : TdPtr}

theorem Tracks.quiet (h : Tracks k l) (hq : Quiet k k') :
  Tracks k' l
  := by
  constructor
  · rw [hq.nextTid]
    exact h.next
  · exact h.tid
  · intro p n
    rw [hq.mapTid, hq.tid]
    exact h.live_iff p n
  · rw [hq.mapTid]
    exact h.alive
  · exact h.td
  · exact h.creators
  · exact h.older
  · intro p n life m hlive hlife hcreator
    rw [ParentOf, hq.parentTid]
    exact h.parent p n life m hlive hlife hcreator

/-- The parent is forgotten when it is no longer found. -/
theorem Tracks.myParentTid (h : Tracks k l) (heq : k.kMyParentTidHandler = some k') :
  Tracks k' l
  := by
  obtain ⟨c, hc, heq⟩ := Option.bind_eq_some_iff.mp heq
  rw [← Option.some.inj heq]
  apply Tracks.quiet _ (quiet_setRetval _ c _)
  generalize hv : (if (k.td c).parentTid ≠ kTidInvalid
    ∧ k.kTaskMgrGetTaskDsp (k.td c).parentTid = none then kTidInvalid else (k.td c).parentTid) = v
  have htid := k.tid_modify c (f := fun t => { t with parentTid := v }) rfl
  constructor
  · exact h.next
  · exact h.tid
  · intro p n
    rw [htid]
    exact h.live_iff p n
  · exact h.alive
  · exact h.td
  · exact h.creators
  · exact h.older
  · intro p n life m hlive hlife hcreator
    have hparent := h.parent p n life m hlive hlife hcreator
    rw [ParentOf, modify_td]
    split
    · rename_i hp
      rw [hp] at hparent
      rw [← hv]
      dsimp only
      split
      · rename_i hlost
        right
        refine ⟨rfl, ?_⟩
        intro q hq
        obtain ⟨hmap, hqtid⟩ := (h.live_iff q m).mp hq
        obtain hm | ⟨hnone, -⟩ := hparent
        · apply kTaskMgrGetTaskDsp_none hlost.2 q hmap
          rw [hqtid, hm]
        · exact hlost.1 hnone
      · exact hparent
    · exact hparent

theorem Tracks.exit (h : Tracks k l) (hids : k.Ids) (hc : k.current = some c)
    (heq : k.kExitHandler = some k') :
  Tracks k' (l.death c)
  := by
  rw [kExitHandler, hc, Option.bind_eq_bind, Option.bind_some] at heq
  rw [← Option.some.inj heq]
  apply Tracks.quiet _ (quiet_setCurrent _ none)
  have hlive : ∀ p n, (l.death c).live p = some n ↔ p ≠ c ∧ l.live p = some n := by
    intro p n
    rw [Lives.death]
    dsimp only
    rw [Function.update_apply]
    split <;> simp_all
  have hmem : ∀ p, p ∈ (k.kTmgrDestroyTask c).mapTid ↔ p ≠ c ∧ p ∈ k.mapTid :=
    fun p => hids.nodup.mem_erase_iff
  constructor
  · exact h.next
  · exact h.tid
  · intro p n
    rw [hlive, hmem, h.live_iff, and_assoc]
    rfl
  · intro p hp
    obtain ⟨hne, hmap⟩ := (hmem p).mp hp
    obtain ⟨n, hn⟩ := h.alive p hmap
    exact ⟨n, (hlive p n).mpr ⟨hne, hn⟩⟩
  · exact fun p n hp => h.td p n ((hlive p n).mp hp).2
  · exact h.creators
  · exact h.older
  · intro p n life m hp hlife hcreator
    apply (h.parent p n life m ((hlive p n).mp hp).2 hlife hcreator).imp_right
    rintro ⟨hnone, hdead⟩
    exact ⟨hnone, fun q hq => hdead q ((hlive q m).mp hq).2⟩

/-- A birth takes the next `tid` and a descriptor that nobody has. -/
theorem Tracks.born (h : Tracks k l) {p : TdPtr} (hids : k.Ids) (hb : Born k k' p) {m : ℕ}
    (hm : m < l.born.length) (hparent : (k'.td p).parentTid = m) :
  Tracks k' (l.birth p (k'.td p).tid (some m))
  := by
  have hnew := hb.not_mem hids
  have hmem : ∀ x, x ∈ k'.mapTid ↔ x ∈ k.mapTid ∨ x = p := by
    intro x
    rw [hb.mapTid, List.mem_append, List.mem_singleton]
  have hlive : ∀ x, (l.birth p (k'.td p).tid (some m)).live x
      = if x = p then some l.born.length else l.live x := fun x => Function.update_apply _ _ _ _
  have hlife : ∀ n life, (l.birth p (k'.td p).tid (some m)).born[n]? = some life →
      l.born[n]? = some life ∨ n = l.born.length ∧ life = ⟨p, (k'.td p).tid, some m⟩ :=
    fun n life hn => (l.born_birth p _ _).mp hn
  have hlt : ∀ x n, l.live x = some n → n < l.born.length := by
    intro x n hx
    obtain ⟨life, hn, -⟩ := h.td x n hx
    exact (List.getElem?_eq_some_iff.mp hn).1
  constructor
  · rw [hb.nextTid, h.next, Lives.birth, List.length_append]
    rfl
  · intro n life hn
    obtain hn | ⟨rfl, rfl⟩ := hlife n life hn
    · exact h.tid n life hn
    · exact hb.tid.trans h.next
  · intro x n
    rw [hlive, hmem]
    split
    · rename_i hx
      rw [hx, hb.tid, h.next]
      simp [hnew]
    · rename_i hx
      rw [h.live_iff, hb.td x hx]
      simp [hx]
  · intro x hx
    rw [hlive]
    split
    · exact ⟨_, rfl⟩
    · rename_i hxp
      exact h.alive x (((hmem x).mp hx).resolve_right hxp)
  · intro x n hx
    rw [hlive] at hx
    split at hx
    · rename_i hxp
      rw [← Option.some.inj hx, hxp]
      exact ⟨_, List.getElem?_concat_length, rfl⟩
    · obtain ⟨life, hn, hlife⟩ := h.td x n hx
      exact ⟨life, (l.born_birth p _ _).mpr (Or.inl hn), hlife⟩
  · intro n life hn hle
    obtain hn | ⟨rfl, rfl⟩ := hlife n life hn
    · exact h.creators n life hn hle
    · exact ⟨m, hm, rfl⟩
  · intro n life m' hn hcreator
    obtain hn | ⟨rfl, rfl⟩ := hlife n life hn
    · exact h.older n life m' hn hcreator
    · obtain rfl := Option.some.inj hcreator
      exact hm
  · intro x n life m' hx hn hcreator
    rw [hlive] at hx
    rw [ParentOf]
    split at hx
    · rename_i hxp
      obtain rfl := Option.some.inj hx
      obtain hn | ⟨-, rfl⟩ := hlife _ life hn
      · exact absurd (List.getElem?_eq_some_iff.mp hn).1 (lt_irrefl _)
      · obtain rfl := Option.some.inj hcreator
        exact Or.inl (hxp ▸ hparent)
    · rename_i hxp
      obtain hn | ⟨rfl, -⟩ := hlife n life hn
      · rw [hb.td x hxp]
        apply (h.parent x n life m' hx hn hcreator).imp_right
        rintro ⟨hnone, hdead⟩
        refine ⟨hnone, ?_⟩
        intro q hq
        rw [hlive] at hq
        split at hq
        · have hm' := h.older n life m' hn hcreator
          have hn' := hlt x n hx
          have := Option.some.inj hq
          omega
        · exact hdead q hq
      · exact absurd (hlt x _ hx) (lt_irrefl _)

theorem Tracks.create (h : Tracks k l) (hids : k.Ids) (hc : k.current = some c)
    (hmap : c ∈ k.mapTid) {priority : ℤ} {args argsLen : ℕ}
    (hok : k.Proper priority argsLen ∨ k.AllocFails pgSft)
    (heq : k.kCreateHandler priority args argsLen = some k') :
  Tracks k' (k.observe c l (.create priority args argsLen))
  := by
  obtain ⟨-, alloc, hget, hkeeps, -⟩ | ⟨hfail, alloc, p, stackAddr, hget, -, hgives⟩ :=
    kTmgrGetFreeTask_spec hids pgSft
  · have hcreate : k.kCreateHandler priority args argsLen
        = some (({ k with alloc := alloc } : Kernel A).setRetval c (BitVec.ofInt 64 (-2))) := by
      simp [kCreateHandler, hc, hget]
    rw [← Option.some.inj (hcreate.symm.trans heq), observe, hget]
    have hquiet : Quiet k { k with alloc := alloc } := quiet_of_td hkeeps rfl rfl rfl
    exact h.quiet (hquiet.trans (quiet_setRetval _ c _))
  · have hproper := hok.resolve_right hfail
    have hborn := born_initUserTask pgSft (hgives hproper.room) (some c) priority.toNat
      k.code.loadElf (k.mem c).bytes args argsLen
    rw [← Option.some.inj ((kCreateHandler_taken priority args argsLen hc hproper.priority
      hget).symm.trans heq)]
    obtain ⟨m, hm⟩ := h.alive c hmap
    have hcp : c ≠ p := by
      rintro rfl
      exact hborn.not_mem hids hmap
    have hparent : ((k.created alloc p stackAddr c priority.toNat args argsLen).td p).parentTid
        = m := by
      have hc₁ : ((k.taken alloc p stackAddr pgSft).td c).tid = (k.td c).tid := by
        rw [taken]
        dsimp only
        rw [modify_td, if_neg hcp]
      rw [created, kTdInitUserTask, modify_td, if_pos rfl, ← ((h.live_iff c m).mp hm).2, ← hc₁]
    have htid : ((k.created alloc p stackAddr c priority.toNat args argsLen).td p).tid
        = ((k.taken alloc p stackAddr pgSft).td p).tid := tid_kTdInitUserTask _ _ _ _ _ _ _ p
    rw [observe, hget, hm]
    dsimp only
    rw [← htid]
    apply Tracks.quiet _ ((quiet_addReady _ p).trans (quiet_setRetval _ c _))
    apply h.born hids hborn _ hparent
    obtain ⟨life, hlife, -⟩ := h.td c m hm
    exact (List.getElem?_eq_some_iff.mp hlife).1

/-- What a system call keeps. -/
theorem Tracks.handle (h : Tracks k l) (hids : k.Ids) (hc : k.current = some c)
    (hmap : c ∈ k.mapTid) {ctx : Ctx} {call : Call} (hok : k.AllocOk (.syscall ctx call))
    (heq : k.handle call = some k') :
  Tracks k' (k.observe c l call)
  := by
  cases call with
  | exit => exact h.exit hids hc heq
  | yield => exact Option.some.inj heq ▸ h
  | create priority args argsLen => exact h.create hids hc hmap hok heq
  | myTid => exact h.quiet (quiet_myTid heq)
  | myParentTid => exact h.myParentTid heq
  | send tid msg msglen reply rplen => exact h.quiet (quiet_send heq)
  | recv tid msg msglen => exact h.quiet (quiet_recv heq)
  | reply tid reply rplen => exact h.quiet (quiet_reply heq)
  | awaitEvent intrId => exact h.quiet (quiet_awaitEvent heq)
  | mmap target memSz => exact h.quiet (quiet_mmap heq)
  | other retval =>
    rw [Kernel.handle, hc] at heq
    exact Option.some.inj heq ▸ h.quiet (quiet_setRetval k c retval)

/-- What every action keeps. -/
theorem Tracks.step (h : Tracks k l) (hsound : Sound k) {a : Act} (henabled : k.Enabled a)
    (halloc : k.AllocOk a) (heq : k.step a = some k') :
  Tracks k' (k.record l a)
  := by
  cases a with
  | schedule => exact Option.some.inj heq ▸ h.quiet k.quiet_schedule
  | write mem =>
    rw [Kernel.step, Option.bind_eq_bind, Option.bind_eq_some_iff] at heq
    obtain ⟨c, -, heq⟩ := heq
    exact Option.some.inj heq ▸ h.quiet (k.quiet_modifyMem c _)
  | syscall ctx call =>
    simp only [Kernel.step, Option.bind_eq_bind, Option.bind_eq_some_iff] at heq
    obtain ⟨c, hc, k₁, hcall, heq⟩ := heq
    have hstore := k.quiet_storeTd c ctx (esrSvc call.number)
    have hmap : c ∈ k.mapTid := by
      apply hsound.alive _ hc
      rw [henabled.1]
      exact Point.noConfusion
    rw [record, hc, ← Option.some.inj heq]
    apply Tracks.quiet _ (quiet_setPoint k₁ .bottom)
    exact (h.quiet hstore).handle (hstore.ids hsound.ids) hc hmap
      (halloc.storeTd c ctx (esrSvc call.number)) hcall
  | interrupt ctx x0 irqs => exact h.quiet (quiet_interrupt heq)
  | requeue => exact Option.some.inj heq ▸ h.quiet k.quiet_requeue

theorem Booted.tracks {k₀ : Kernel A} (h : Booted k₀) :
  Tracks k₀ k₀.bootLives
  := by
  obtain ⟨htids, hnext, -⟩ := h.started
  have hlen : k₀.mapTid.length = 3 := by
    have hlen := congrArg List.length htids
    rwa [List.length_map, List.length_map, List.length_range] at hlen
  have hborn : ∀ (n : ℕ) (life : Life), k₀.bootLives.born[n]? = some life →
      ∃ p, k₀.mapTid[n]? = some p ∧ life = ⟨p, (k₀.td p).tid, none⟩ := by
    intro n life hn
    rw [bootLives, List.getElem?_map, Option.map_eq_some_iff] at hn
    obtain ⟨p, hp, hlife⟩ := hn
    exact ⟨p, hp, hlife.symm⟩
  have htid : ∀ (n : ℕ) (p : TdPtr), k₀.mapTid[n]? = some p → (k₀.td p).tid = n := by
    intro n p hp
    have hlt : n < 3 := hlen ▸ (List.getElem?_eq_some_iff.mp hp).1
    have heq := congrArg (fun tids => tids[n]?) htids
    rw [List.getElem?_map, hp, List.getElem?_map, List.getElem?_range hlt] at heq
    exact Option.some.inj heq
  have hidx : ∀ p ∈ k₀.mapTid, k₀.mapTid[k₀.mapTid.idxOf p]? = some p :=
    fun p hp => List.getElem?_idxOf hp
  have hlive : ∀ p n, k₀.bootLives.live p = some n ↔ p ∈ k₀.mapTid ∧ k₀.mapTid.idxOf p = n := by
    intro p n
    rw [bootLives]
    dsimp only
    split <;> simp_all
  constructor
  · rw [hnext, bootLives, List.length_map, hlen]
  · intro n life hn
    obtain ⟨p, hp, rfl⟩ := hborn n life hn
    exact htid n p hp
  · intro p n
    rw [hlive]
    apply and_congr_right
    intro hp
    rw [htid _ p (hidx p hp)]
    exact Nat.cast_inj.symm
  · exact fun p hp => ⟨_, (hlive p _).mpr ⟨hp, rfl⟩⟩
  · intro p n hp
    obtain ⟨hmap, rfl⟩ := (hlive p n).mp hp
    refine ⟨⟨p, (k₀.td p).tid, none⟩, ?_, rfl⟩
    rw [bootLives, List.getElem?_map, hidx p hmap]
    rfl
  · intro n life hn hle
    obtain ⟨p, hp, -⟩ := hborn n life hn
    have hlt := (List.getElem?_eq_some_iff.mp hp).1
    omega
  · intro n life m hn hcreator
    obtain ⟨p, -, rfl⟩ := hborn n life hn
    cases hcreator
  · intro p n life m _ hn hcreator
    obtain ⟨p, -, rfl⟩ := hborn n life hn
    cases hcreator

omit [TaskAlloc A] in
/-- What `ke_my_parent_tid` returns to a task that the life `m` created. -/
theorem Tracks.parentTid_retval (h : Tracks k l) (hc : k.current = some c) {n m : ℕ}
    {life creator : Life} (hn : l.live c = some n) (hlife : l.born[n]? = some life)
    (hm : life.creator = some m) (hcreator : l.born[m]? = some creator) :
  ∃ k', k.kMyParentTidHandler = some k' ∧ (k'.td c).syscallRetval
    = BitVec.ofInt 64 (if l.live creator.td = some m then creator.tid else kTidInvalid)
  := by
  have hparent := h.parent c n life m hn hlife hm
  have htid := h.tid m creator hcreator
  rw [kMyParentTidHandler, hc, Option.bind_eq_bind, Option.bind_some]
  refine ⟨_, rfl, ?_⟩
  rw [retval_setRetval]
  congr 1
  split_ifs with hlost hlive hlive
  · -- the creator lives, so it is found
    exfalso
    obtain ⟨hmap, hq⟩ := (h.live_iff creator.td m).mp hlive
    obtain hfound | ⟨-, hdead⟩ := hparent
    · apply kTaskMgrGetTaskDsp_none hlost.2 creator.td hmap
      rw [hq, hfound]
    · exact hdead creator.td hlive
  · rfl
  · obtain hfound | ⟨-, hdead⟩ := hparent
    · rw [hfound, htid]
    · exact absurd hlive (hdead creator.td)
  · obtain hfound | ⟨hnone, -⟩ := hparent
    · -- who is found under this `tid` is the creator
      exfalso
      apply hlost
      rw [hfound]
      refine ⟨by rw [kTidInvalid]; omega, ?_⟩
      cases hlook : k.kTaskMgrGetTaskDsp m with
      | none => rfl
      | some q =>
        obtain ⟨hmap, hq⟩ := kTaskMgrGetTaskDsp_some hlook
        have hqlive := (h.live_iff q m).mpr ⟨hmap, hq⟩
        obtain ⟨life', hlife', htd⟩ := h.td q m hqlive
        obtain rfl := Option.some.inj (hcreator.symm.trans hlife')
        exact absurd (htd ▸ hqlive) hlive
    · exact hnone

/-! ### Every run -/

/-- The invariant identifies the tasks. -/
theorem Tracks.knows (h : Tracks k l) (hsound : Sound k) (hfew : l.born.length ≤ 2 ^ 31)
    (hrun : k.point = .user → k.current ≠ none) :
  Identified k l
  := by
  have hids := hsound.ids
  have hint : ∀ (n : ℕ) (life : Life), l.born[n]? = some life → intTid life.tid = life.tid := by
    intro n life hlife
    have hlt := (List.getElem?_eq_some_iff.mp hlife).1
    rw [h.tid n life hlife]
    exact intTid_of_lt (by omega) (by omega)
  constructor
  · have htids : l.born.map (fun life => intTid life.tid)
        = (List.range l.born.length).map Nat.cast := by
      apply List.ext_getElem (by simp)
      intro n hn _
      rw [List.length_map] at hn
      have hlife := List.getElem?_eq_getElem hn
      rw [List.getElem_map, List.getElem_map, List.getElem_range, hint n _ hlife]
      exact h.tid n _ hlife
    rw [htids]
    exact List.nodup_range.map Nat.cast_injective
  · intro tid p
    constructor
    · intro hlook
      obtain ⟨hmap, rfl⟩ := kTaskMgrGetTaskDsp_some hlook
      obtain ⟨n, hn⟩ := h.alive p hmap
      obtain ⟨life, hlife, htd⟩ := h.td p n hn
      refine ⟨n, life, hn, hlife, htd, ?_⟩
      rw [hint n life hlife, h.tid n life hlife]
      exact ((h.live_iff p n).mp hn).2.symm
    · rintro ⟨n, life, hn, hlife, -, rfl⟩
      obtain ⟨hmap, htid⟩ := (h.live_iff p n).mp hn
      rw [hint n life hlife, h.tid n life hlife, ← htid]
      exact hids.kTaskMgrGetTaskDsp_eq hmap
  · intro hp
    obtain ⟨c, hc⟩ := Option.ne_none_iff_exists'.mp (hrun hp)
    have hmap : c ∈ k.mapTid := by
      apply hsound.alive _ hc
      rw [hp]
      exact Point.noConfusion
    obtain ⟨n, hn⟩ := h.alive c hmap
    exact ⟨c, n, hc, hn⟩
  · exact h.creators
  · intro c n life m creator ctx hc hn hlife hm hcreator
    have hquiet := k.quiet_storeTd c ctx (esrSvc Call.myParentTid.number)
    obtain ⟨k', heq, hretval⟩ := (h.quiet hquiet).parentTid_retval hc hn hlife hm hcreator
    refine ⟨k'.setPoint .bottom, ?_, ?_⟩
    · rw [Kernel.step, hc]
      exact congrArg (Option.bind · fun k => some (k.setPoint .bottom)) heq
    · have hnarrow : ((k'.td c).syscallRetval.setWidth 32).toInt
          = intTid (if l.live creator.td = some m then creator.tid else kTidInvalid) := by
        rw [hretval, intTid, setWidth_ofInt]
      apply hnarrow.trans
      split_ifs
      · rfl
      · exact intTid_of_lt (by decide) (by decide)

omit [TaskAlloc A] in
theorem schedule_current (k : Kernel A) :
  k.schedule.current ≠ none
  := by
  rw [schedule]
  exact Option.some_ne_none _

/-- A task runs whenever the kernel is in `kernel_into_user`. -/
theorem step_current {a : Act} (heq : k.step a = some k') (hp : k'.point = .user) :
  k'.current ≠ none
  := by
  cases a with
  | schedule => exact Option.some.inj heq ▸ k.schedule_current
  | write mem =>
    rw [step, Option.bind_eq_bind, Option.bind_eq_some_iff] at heq
    obtain ⟨c, hc, heq⟩ := heq
    rw [← Option.some.inj heq]
    exact fun hnone => Option.some_ne_none c (hc.symm.trans hnone)
  | syscall ctx call =>
    simp only [step, Option.bind_eq_bind, Option.bind_eq_some_iff] at heq
    obtain ⟨c, -, k₁, -, heq⟩ := heq
    rw [← Option.some.inj heq] at hp
    cases hp
  | interrupt ctx x0 irqs =>
    simp only [step, Option.bind_eq_bind, Option.bind_eq_some_iff] at heq
    obtain ⟨c, -, k₁, -, heq⟩ := heq
    rw [← Option.some.inj heq] at hp
    cases hp
  | requeue =>
    rw [← Option.some.inj heq, requeue] at hp
    split at hp
    · cases hp
    · split at hp <;> cases hp

/-- A system call adds at most one life, and only a creation does. -/
theorem length_record (k : Kernel A) (l : Lives) (a : Act) :
  (k.record l a).born.length = l.born.length
    ∨ (∃ ctx priority args argsLen, a = .syscall ctx (.create priority args argsLen))
      ∧ (k.record l a).born.length = l.born.length + 1
  := by
  cases a with
  | syscall ctx call =>
    rw [record]
    split
    · cases call with
      | create priority args argsLen =>
        rw [observe]
        split
        · exact Or.inl rfl
        · exact Or.inr ⟨⟨ctx, priority, args, argsLen, rfl⟩, List.length_append⟩
      | _ => exact Or.inl rfl
    · exact Or.inl rfl
  | _ => exact Or.inl rfl

/-- What every run keeps. -/
structure Followed (s : Kernel A × Lives) : Prop where
  sound : Sound s.1
  running : s.1.point = .user → s.1.current ≠ none
  tracks : Tracks s.1 s.2

theorem Booted.followed {k₀ : Kernel A} (h : Booted k₀) :
  Followed (k₀, k₀.bootLives)
  := by
  obtain ⟨q, -, hpoint, -⟩ : ∃ q, Core False False (fun _ => 0) k₀ q [] ∧ k₀.point = .top
      ∧ k₀.nextTid = 3 := h.spec _
  refine ⟨h.sound, ?_, h.tracks⟩
  intro hp
  rw [hpoint] at hp
  cases hp

theorem Followed.step {s s' : Kernel A × Lives} (h : Followed s) {a : Act}
    (henabled : s.1.Enabled a) (halloc : s.1.AllocOk a) (heq : liveStep s a = some s') :
  Followed s'
  := by
  rw [liveStep, Option.bind_eq_bind, Option.bind_eq_some_iff] at heq
  obtain ⟨k', hstep, heq⟩ := heq
  rw [← Option.some.inj heq]
  exact ⟨h.sound.step henabled halloc hstep, step_current hstep,
    h.tracks.step h.sound henabled halloc hstep⟩

/-- In every such run the tasks are identified. -/
theorem Booted.identified {k₀ : Kernel A} (hboot : Booted k₀) {as : List Act} {s : Kernel A × Lives}
    (hlaw : Run.Meets liveStep Lawful (k₀, k₀.bootLives) as)
    (hrun : Run.run liveStep (k₀, k₀.bootLives) as = some s) :
  Identified s.1 s.2
  := by
  let P (s : Kernel A × Lives) : Prop := Followed s ∧ s.2.born.length ≤ 2 ^ 31
  have hstart : P (k₀, k₀.bootLives) := by
    use hboot.followed
    have hnext := hboot.tracks.next
    rw [hboot.started.next] at hnext
    dsimp only
    omega
  have hstep : ∀ s a s', P s → Lawful s a → liveStep s a = some s' → P s' := by
    rintro ⟨k, l⟩ a s' ⟨hfollowed, hfew⟩ hok hstep
    use hfollowed.step hok.enabled hok.alloc hstep
    obtain ⟨k', -, heq⟩ := Option.bind_eq_some_iff.mp hstep
    rw [← Option.some.inj heq]
    obtain hlen | ⟨⟨ctx, priority, args, argsLen, rfl⟩, hlen⟩ := k.length_record l a
    · exact hlen.trans_le hfew
    · have hlt : k.nextTid < 2 ^ 31 := hok.tids ctx priority args argsLen rfl
      have hnext : k.nextTid = l.born.length := hfollowed.tracks.next
      dsimp only
      omega
  obtain ⟨h, hfew⟩ := Run.meets_preserves hstep hstart hlaw hrun
  exact h.tracks.knows h.sound hfew h.running

/-- The history does not influence the run. -/
theorem liveStep_fst (s : Kernel A × Lives) (a : Act) :
  (liveStep s a).map Prod.fst = s.1.step a
  := by
  rw [liveStep]
  cases s.1.step a with
  | none => rfl
  | some k' => rfl

end Steps

/-- The actions of `user_entry` creating a task, the name server exiting and the new task
being scheduled. -/
def entryActs : List Act :=
  [.schedule, .syscall ctx₀ (.create 0 0 0), .requeue, .schedule, .syscall ctx₀ .exit, .requeue,
    .schedule]

/-- A computable form of `Lawful`, for creations that are proper. -/
def lawfulCheck (s : Kernel Arena × Lives) (a : Act) : Bool :=
  s.1.linkCheck a && s.1.nextTid < 2 ^ 31

theorem lawful_of_check {s : Kernel Arena × Lives} {a : Act} (h : lawfulCheck s a = true) :
  Lawful s a
  := by
  rw [lawfulCheck, Bool.and_eq_true, decide_eq_true_eq] at h
  have hlink := linkOk_of_check h.1
  exact ⟨hlink.enabled, hlink.alloc, fun _ _ _ _ _ => h.2⟩

/-- In the end four tasks were born, and the fourth one runs. -/
theorem Booted.identified_entry :
  ∃ s, Run.run liveStep (Arena.bootKernel, Arena.bootKernel.bootLives) entryActs = some s
    ∧ s.2.born.map Life.creator = [none, none, none, some 1] ∧ Identified s.1 s.2
  := by
  have hcheck : Run.allOk liveStep lawfulCheck (Arena.bootKernel, Arena.bootKernel.bootLives)
      entryActs = true := by decide +kernel
  have hlaw := Run.meets_of_allOk (fun _ _ => lawful_of_check) hcheck
  exact ⟨_, rfl, by decide +kernel, Booted.identified Arena.booted hlaw rfl⟩

/-! ### More births than an `int` counts -/

/-- The actions of a round in which the next task exits. -/
def leave : List Act :=
  [.schedule, .syscall ctx₀ .exit, .requeue]

/-- Between two rounds: `n` tasks were created, and all but three have exited. -/
structure Bred (n : ℕ) (k : Kernel Arena) : Prop where
  inv : ∃ sent, Inv False False sent k
  point : k.point = .top
  count : k.heap.count = 2
  tds : k.tdsCount = 3
  next : k.nextTid = n + 3

theorem tdsCount_kTmgrDestroyTask {k : Kernel Arena} {p : TdPtr} (hids : k.Ids)
    (hp : p ∈ k.mapTid) :
  (k.kTmgrDestroyTask p).tdsCount + 1 = k.tdsCount
  := by
  have hmem : p ∈ TaskAlloc.tds (TaskAlloc.pgFreePage k.alloc (k.td p).stackAddr) := hids.tds p hp
  rw [tdsCount, kTmgrDestroyTask]
  dsimp only
  rw [(TaskAlloc.slabFree_spec trivial hmem).1, Finset.card_erase_add_one hmem]
  rfl

/-- The next task exits. -/
theorem leave_spec {sent : TdPtr → ℤ} {k : Kernel Arena} {n : ℕ} (h : Inv False False sent k)
    (hp : k.point = .top) (hcount : k.heap.count = 3) (htds : k.tdsCount = 4)
    (hnext : k.nextTid = n + 3) :
  Run.Meets step LinkOk k leave ∧ ∃ k', Run.run step k leave = some k' ∧ Bred n k'
  := by
  obtain ⟨c, hc, hcmap, hidle, hp₁, hcount₁, hmap₁, hstays⟩ := schedule_pop h (by omega)
  have hok₁ : k.LinkOk .schedule := ⟨hp, trivial, trivial⟩
  have hok₂ : k.schedule.LinkOk (.syscall ctx₀ .exit) := by
    refine ⟨⟨hp₁, ?_⟩, trivial, fun _ _ => trivial⟩
    rw [hc, hstays.idleTask]
    exact fun heq => hidle (Option.some.inj heq)
  obtain ⟨c', q, hc', -, hcore, -, hstep⟩ := (schedule_inv h hp).trapped hok₂.enabled
  obtain rfl : c' = c := Option.some.inj (hc'.symm.trans hc)
  have hstore := (k.schedule.agree_storeTd c' ctx₀ (esrSvc Call.exit.number)).sameTasks
  have hsched := k.quiet_schedule.toSameTasks
  obtain ⟨heq, hcore'⟩ := kExitHandler_spec hcore hc trivial False.elim
  have htds₁ := tdsCount_kTmgrDestroyTask (k := k.schedule.storeTd c' ctx₀
    (esrSvc Call.exit.number)) (p := c') hcore.base.ids (hmap₁.symm ▸ hcmap)
  rw [hstore.tdsCount, hsched.tdsCount, htds] at htds₁
  have hnext₁ := hstore.nextTid.trans (hsched.nextTid.trans hnext)
  have hcount₂ : (k.schedule.storeTd c' ctx₀ (esrSvc Call.exit.number)).heap.count = 2 := by
    have hheap : (k.schedule.storeTd c' ctx₀ (esrSvc Call.exit.number)).heap
        = k.schedule.heap := rfl
    rw [hheap]
    omega
  have hstep₂ := hstep _ heq
  generalize k.schedule.storeTd c' ctx₀ (esrSvc Call.exit.number) = k₁
    at heq hcore' htds₁ hnext₁ hcount₂ hstep₂
  have hinv := (Handled.leave (k := k₁) hcore' rfl).inv
  have hok₃ : (((k₁.kTmgrDestroyTask c').setCurrent none).setPoint .bottom).LinkOk .requeue :=
    ⟨rfl, trivial, trivial⟩
  constructor
  · apply Run.meets_cons hok₁ rfl
    apply Run.meets_cons hok₂ hstep₂
    exact ⟨hok₃, fun _ _ => trivial⟩
  · refine ⟨_, (Run.run_cons rfl _).trans (Run.run_cons hstep₂ _), ?_⟩
    have hinv' := requeue_inv hinv rfl False.elim
    rw [requeue_none rfl] at hinv' ⊢
    exact ⟨⟨_, hinv'⟩, rfl, hcount₂, Nat.succ.inj htds₁, hnext₁⟩

theorem PlainOk.linkOk [TaskAlloc A] {k : Kernel A} {a : Act} (h : k.PlainOk a) :
  k.LinkOk a
  := ⟨h.1, h.2.1, h.2.2.1⟩

/-- Tasks are created and exit, one after another. -/
theorem run_bred (n : ℕ) :
  Run.Meets step LinkOk Arena.bootKernel (Run.rounds (spawn ++ leave) n)
    ∧ ∃ k, Run.run step Arena.bootKernel (Run.rounds (spawn ++ leave) n) = some k ∧ Bred n k
  := by
  apply Run.run_rounds
  · exact ⟨⟨fun _ => 0, Arena.booted.inv _⟩, rfl, rfl, rfl, rfl⟩
  · rintro n - k ⟨⟨sent, hinv⟩, hp, hcount, htds, hnext⟩
    obtain ⟨hspawn, k₁, p, hrun₁, hinv₁, hp₁, hspawned⟩ := spawn_spec hinv hp
      (by omega) (by rw [hcount]; decide) (by rw [htds]; decide)
    have hnext₁ : k₁.nextTid = ((n + 1 : ℕ) : ℤ) + 3 := by
      rw [hspawned.nextTid, hnext]
      push_cast
      omega
    obtain ⟨hleave, k₂, hrun₂, hbred⟩ := leave_spec hinv₁ hp₁ (by rw [hspawned.count, hcount])
      (by rw [hspawned.tds, htds]) hnext₁
    refine ⟨Run.meets_append (hspawn.mono fun _ _ => PlainOk.linkOk) ?_, k₂, ?_, hbred⟩
    · intro k' hk'
      obtain rfl := Option.some.inj (hrun₁.symm.trans hk')
      exact hleave
    · rw [Run.run_append, hrun₁, Option.bind_some, hrun₂]

/-- So many tasks are created and exit that the next one gets the `tid` `2 ^ 31`. -/
def bredRun : List Act :=
  Run.rounds (spawn ++ leave) (2 ^ 31 - 3) ++ spawn

/-- The last task is not found under what the others have of its `tid`. -/
theorem not_identified_bred :
  Run.Meets liveStep (fun s a => s.1.LinkOk a) (Arena.bootKernel, Arena.bootKernel.bootLives) bredRun
    ∧ ∃ s, Run.run liveStep (Arena.bootKernel, Arena.bootKernel.bootLives) bredRun = some s
      ∧ ¬ Identified s.1 s.2
  := by
  obtain ⟨has, k, hrun, ⟨sent, hinv⟩, hp, hcount, htds, hnext⟩ := run_bred (2 ^ 31 - 3)
  obtain ⟨hspawn, k', p, hrun', hinv', -, hspawned⟩ := spawn_spec hinv hp
    (by omega) (by rw [hcount]; decide) (by rw [htds]; decide)
  have hmeets : Run.Meets step LinkOk Arena.bootKernel bredRun := by
    rw [bredRun]
    apply Run.meets_append has
    intro t ht
    obtain rfl := Option.some.inj (hrun.symm.trans ht)
    exact hspawn.mono fun _ _ => PlainOk.linkOk
  have hrun₁ : Run.run step Arena.bootKernel bredRun = some k' := by
    rw [bredRun, Run.run_append, hrun, Option.bind_some, hrun']
  have hmeets' := Run.Meets.of_map liveStep_fst
    (t := (Arena.bootKernel, Arena.bootKernel.bootLives)) hmeets
  obtain ⟨s, hs, rfl⟩ := Run.exists_run_of_map liveStep_fst
    (t := (Arena.bootKernel, Arena.bootKernel.bootLives)) hrun₁
  refine ⟨hmeets', s, hs, ?_⟩
  intro hidentified
  have hfollowed : Followed s := Run.meets_preserves
    (fun s a s' h hok heq => h.step hok.enabled hok.alloc heq) Arena.booted.followed hmeets' hs
  have htracks := hfollowed.tracks
  have hmap : p ∈ s.1.mapTid := by
    rw [hspawned.mapTid]
    exact List.mem_append_right _ List.mem_cons_self
  obtain ⟨n, hn⟩ := htracks.alive p hmap
  obtain ⟨life, hlife, htd⟩ := htracks.td p n hn
  have htid : (s.1.td p).tid = 2 ^ 31 := by
    rw [hspawned.tid, hnext]
    norm_num
  have hlast : life.tid = 2 ^ 31 := by
    rw [htracks.tid n life hlife, ← ((htracks.live_iff p n).mp hn).2, htid]
  have hlook := (hidentified.lookup (intTid life.tid) p).mpr ⟨n, life, hn, hlife, htd, rfl⟩
  have hint := (kTaskMgrGetTaskDsp_some hlook).2
  rw [htid, hlast] at hint
  exact absurd hint (by decide)

end Kernel

end TrainsOs
