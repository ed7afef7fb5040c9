import TrainsOs.Kernel.Creation
import TrainsOs.PgMgr.Exclusive

/-!
# The first frame of a user task

`k_td_init_user_task` copies the arguments of a new task to the top of its stack and puts
a register store below them. Neither `k_create_handler` nor `k_td_init_user_task` compares
the length of the arguments with the size of the stack, so the frame stays in the block of
the stack exactly when the arguments leave room for the registers.

The stack is a block of the page manager, which hands out whole pages.
-/

namespace TrainsOs

/-- A `TaskAlloc` whose blocks are pages, as those of `pg_alloc_page` are. -/
class PageAlloc (A : Type) extends TaskAlloc A where
  pgAllocPage_page : ∀ {a n x}, (pgAllocPage a n).2 = some x → pgSz ∣ x ∧ x + pgSz ≤ 2 ^ 64

/-- What `pg_alloc_page` returns is a page of a root segment, in every state that keeps
the ownership of pages exclusive. -/
theorem PgMgr.pgAllocPage_page {s : PgSt} (hs : s.Inv)
    (hend : ∀ seg ∈ s.mgr.roots, seg.endAddr ≤ 2 ^ 64) {p x : ℕ} {mgr : PgMgr}
    (h : s.mgr.pgAllocPage p = some (mgr, some x)) :
  pgSz ∣ x ∧ x + pgSz ≤ 2 ^ 64
  := by
  obtain ⟨fl, held, hinv, -⟩ := hs
  obtain ⟨hnone, -⟩ | ⟨d, n, mgr', fl', -, -, hsome, hinv', -, hroots, haddr, -⟩ :=
    pgAllocPage_spec hinv p
  · rw [h] at hnone
    cases hnone
  · rw [h] at hsome
    obtain ⟨rfl, hx⟩ := Prod.mk.inj (Option.some.inj hsome)
    obtain rfl := Option.some.inj hx
    have hplaced := hinv'.placed (d, pageLvl p) (List.mem_append_left _ List.mem_cons_self)
    obtain ⟨seg, hseg, -, hlo, hhi⟩ := hplaced.mem_seg hinv'.roots hinv'.addr
    rw [haddr] at hlo hhi
    have hdvd := (addr_of_placed hinv'.addr hseg hplaced).2.2
    rw [pow_pgSft_add, haddr] at hdvd
    rw [hroots] at hseg
    have hpow : pgSz ≤ 2 ^ pageLvl p * pgSz := Nat.le_mul_of_pos_left _ (Nat.two_pow_pos _)
    constructor
    · exact (Dvd.intro_left _ rfl).trans hdvd
    · exact (Nat.add_le_add_left hpow _).trans (hhi.trans (hend seg (List.mem_of_getElem? hseg)))

/-- The function may change the byte at `a`. -/
def Writes (f : (ℕ → UInt8) → ℕ → UInt8) (a : ℕ) : Prop :=
  ∃ mem, f mem a ≠ mem a

/-- A function that sets the bytes in `s` and no others writes those in `s`. -/
theorem writes_iff {f : (ℕ → UInt8) → ℕ → UInt8} {s : ℕ → Prop} [DecidablePred s] {v : ℕ → UInt8}
    (hf : ∀ mem a, f mem a = if s a then v a else mem a) (a : ℕ) :
  Writes f a ↔ s a
  := by
  constructor
  · rintro ⟨mem, hne⟩
    by_contra hs
    apply hne
    rw [hf, if_neg hs]
  · intro hs
    use fun _ => v a + 1
    rw [hf, if_pos hs]
    intro heq
    exact absurd (UInt8.left_eq_add.mp heq) (by decide)

theorem storeU64_congr {mem mem' : ℕ → UInt8} {dest val a : ℕ} (h : mem a = mem' a) :
  storeU64 mem dest val a = storeU64 mem' dest val a
  := by rw [storeU64, storeU64, h]

theorem storeU64_of_not {mem : ℕ → UInt8} {dest val a : ℕ} (h : ¬ (dest ≤ a ∧ a < dest + 8)) :
  storeU64 mem dest val a = mem a
  := if_neg h

namespace Kernel

variable {A : Type}

/-! ### What `k_td_init_user_task` writes -/

section Frame

variable (k : Kernel A) (td : TdPtr) (parentTd : Option TdPtr) (priority userFuncAddr : ℕ)
  (src : ℕ → UInt8) (args argsLen : ℕ)

/-- The memory of the new task behind `k_td_init_user_task`, by the memory before it. -/
def frameBytes (bytes : ℕ → UInt8) : ℕ → UInt8 :=
  let k := k.modifyMem td fun m => { m with bytes := bytes }
  ((k.kTdInitUserTask td parentTd priority userFuncAddr src args argsLen).mem td).bytes

/-- The frame of a new task: every byte that is written is in the block of the stack, the
stack pointer is aligned, and the registers `x0` and `x1` are the address and the length of
the copy of the arguments. -/
structure InitialFrame : Prop where
  inside : ∀ a, Writes (k.frameBytes td parentTd priority userFuncAddr src args argsLen) a →
    (k.td td).stackAddr ≤ a ∧ a < (k.td td).stackAddr + (k.td td).stackSz
  aligned : 16 ∣ ((k.kTdInitUserTask td parentTd priority userFuncAddr src args argsLen).td td).sp
  x0 : ∀ i < argsLen,
    ((k.kTdInitUserTask td parentTd priority userFuncAddr src args argsLen).mem td).bytes
      (((k.kTdInitUserTask td parentTd priority userFuncAddr src args
        argsLen).td td).syscallRetval.toNat + i) = src (args + i)
  x1 : ∀ i < 8,
    ((k.kTdInitUserTask td parentTd priority userFuncAddr src args argsLen).mem td).bytes
      (((k.kTdInitUserTask td parentTd priority userFuncAddr src args argsLen).td td).sp + 224 + i)
        = UInt8.ofNat (argsLen >>> (8 * i))

variable {k td parentTd priority userFuncAddr src args argsLen}

/-- The address of the copy of the arguments. -/
def argsAddr (stackTop argsLen : ℕ) : ℕ :=
  sub64 (stackTop % 2 ^ 64)
    (if argsLen ≠ 0 then argsLen / 16 * 16 + if argsLen % 16 ≠ 0 then 16 else 0 else 0)

variable {sp regs : ℕ} (hsp : argsAddr ((k.td td).stackAddr + (k.td td).stackSz) argsLen = sp)
  (hregs : sub64 sp sizeofRegStore = regs)

include hsp

theorem kTdInitUserTask_retval :
  ((k.kTdInitUserTask td parentTd priority userFuncAddr src args argsLen).td td).syscallRetval
    = BitVec.ofNat 64 sp
  := by
  unfold kTdInitUserTask
  rw [modify_td, if_pos rfl, ← hsp]
  rfl

include hregs

theorem kTdInitUserTask_sp :
  ((k.kTdInitUserTask td parentTd priority userFuncAddr src args argsLen).td td).sp = regs
  := by
  unfold kTdInitUserTask
  rw [modify_td, if_pos rfl, ← hregs, ← hsp]
  rfl

/-- The memory of the new task: the arguments, then the registers over them. -/
theorem kTdInitUserTask_bytes :
  ((k.kTdInitUserTask td parentTd priority userFuncAddr src args argsLen).mem td).bytes
    = storeU64 (storeU64 (utilMemset (utilMemcpy (k.mem td).bytes sp src args argsLen) regs 0x5A
        sizeofRegStore) (regs + 224) argsLen) (regs + 8) k.code.keExit
  := by
  unfold kTdInitUserTask
  rw [← hregs, ← hsp]
  dsimp only [modify, modifyMem]
  rw [Function.update_self]
  rfl

/-- What is written are the copy of the arguments and the registers. -/
theorem writes_frameBytes_iff (a : ℕ) :
  Writes (k.frameBytes td parentTd priority userFuncAddr src args argsLen) a
    ↔ regs ≤ a ∧ a < regs + sizeofRegStore ∨ sp ≤ a ∧ a < sp + argsLen
  := by
  apply writes_iff (v := storeU64 (storeU64 (utilMemset (utilMemcpy (fun _ => 0) sp src args
    argsLen) regs 0x5A sizeofRegStore) (regs + 224) argsLen) (regs + 8) k.code.keExit)
  intro mem a
  rw [frameBytes, kTdInitUserTask_bytes (k := k.modifyMem td fun m => { m with bytes := mem }) hsp
    hregs]
  have hmem : ((k.modifyMem td fun m => { m with bytes := mem }).mem td).bytes = mem := by
    rw [modifyMem]
    dsimp only
    rw [Function.update_self]
  have hcode : (k.modifyMem td fun m => { m with bytes := mem }).code = k.code := rfl
  rw [hmem, hcode]
  split_ifs with hin
  · apply storeU64_congr
    apply storeU64_congr
    rw [utilMemset, utilMemset]
    split_ifs with hset
    · rfl
    · rw [utilMemcpy, utilMemcpy, if_pos (hin.resolve_left hset), if_pos (hin.resolve_left hset)]
  · rw [storeU64_of_not (by unfold sizeofRegStore at hin; omega),
      storeU64_of_not (by unfold sizeofRegStore at hin; omega), utilMemset,
      if_neg fun h => hin (Or.inl h), utilMemcpy, if_neg fun h => hin (Or.inr h)]

end Frame

/-! ### When the frame is in the block -/

section Room

variable {k : Kernel A} {td : TdPtr} {parentTd : Option TdPtr} {priority userFuncAddr : ℕ}
  {src : ℕ → UInt8} {args argsLen : ℕ}

/-- Where the copy of the arguments and the registers lie, also where the address or the
length wraps around. -/
theorem argsAddr_spec {base : ℕ} (hdvd : pgSz ∣ base) (hle : base + pgSz ≤ 2 ^ 64)
    (hlen : argsLen < 2 ^ 64) {sp regs : ℕ} (hsp : argsAddr (base + pgSz) argsLen = sp)
    (hregs : sub64 sp sizeofRegStore = regs) :
  16 ∣ sp ∧ 16 ∣ regs ∧ sp < 2 ^ 64
    ∧ (argsLen ≤ pgSz - sizeofRegStore → base ≤ regs ∧ regs + sizeofRegStore ≤ base + pgSz
      ∧ (0 < argsLen → regs + sizeofRegStore = sp ∧ sp + argsLen ≤ base + pgSz))
    ∧ (pgSz - sizeofRegStore < argsLen → ¬ (base ≤ regs ∧ regs < base + pgSz)
      ∨ ¬ (base ≤ sp ∧ sp < base + pgSz))
  := by
  obtain ⟨n, rfl⟩ := hdvd
  subst hregs hsp
  have hpg : pgSz = 1048576 := rfl
  rw [hpg] at hle ⊢
  rw [argsAddr, sub64, sub64, sizeofRegStore]
  split_ifs <;> omega

/-- The frame stays in the block of the stack exactly when the arguments leave room for the
registers. -/
theorem initialFrame_iff (hdvd : pgSz ∣ (k.td td).stackAddr)
    (hle : (k.td td).stackAddr + pgSz ≤ 2 ^ 64) (hsz : (k.td td).stackSz = pgSz)
    (hlen : argsLen < 2 ^ 64) :
  k.InitialFrame td parentTd priority userFuncAddr src args argsLen
    ↔ argsLen ≤ pgSz - sizeofRegStore
  := by
  generalize hsp : argsAddr ((k.td td).stackAddr + (k.td td).stackSz) argsLen = sp
  generalize hregs : sub64 sp sizeofRegStore = regs
  obtain ⟨-, hdvdRegs, hlt, hfits, hleaves⟩ := argsAddr_spec hdvd hle hlen (hsz ▸ hsp) hregs
  constructor
  · intro h
    by_contra hlong
    rw [not_le] at hlong
    have hinside : ∀ a, regs ≤ a ∧ a < regs + sizeofRegStore ∨ sp ≤ a ∧ a < sp + argsLen →
        (k.td td).stackAddr ≤ a ∧ a < (k.td td).stackAddr + pgSz := by
      intro a ha
      rw [← hsz]
      apply h.inside a ((writes_frameBytes_iff hsp hregs a).mpr ha)
    obtain hout | hout := hleaves hlong
    · apply hout
      apply hinside
      exact Or.inl ⟨le_rfl, Nat.lt_add_of_pos_right (by decide)⟩
    · apply hout
      apply hinside
      exact Or.inr ⟨le_rfl, Nat.lt_add_of_pos_right (by omega)⟩
  · intro hfit
    obtain ⟨hlo, hhi, hargs⟩ := hfits hfit
    constructor
    · intro a ha
      rw [hsz]
      have hin := (writes_frameBytes_iff hsp hregs a).mp ha
      omega
    · rw [kTdInitUserTask_sp hsp hregs]
      exact hdvdRegs
    · intro i hi
      obtain ⟨hnext, -⟩ := hargs (by omega)
      have hregsSz : sizeofRegStore = 240 := rfl
      rw [kTdInitUserTask_bytes hsp hregs, kTdInitUserTask_retval hsp, BitVec.toNat_ofNat,
        Nat.mod_eq_of_lt hlt, storeU64_of_not (by omega), storeU64_of_not (by omega), utilMemset,
        if_neg (by omega), utilMemcpy, if_pos (by omega), Nat.add_sub_cancel_left]
    · intro i hi
      rw [kTdInitUserTask_bytes hsp hregs, kTdInitUserTask_sp hsp hregs,
        storeU64_of_not (by omega), storeU64, if_pos (by omega), Nat.add_sub_cancel_left]

end Room

/-! ### Creating a task -/

variable [PageAlloc A] {k k₁ k' : Kernel A} {p c : TdPtr} {priority : ℤ} {args argsLen : ℕ}

/-- A descriptor comes with a page for the stack. -/
theorem kTmgrGetFreeTask_stack (h : k.kTmgrGetFreeTask pgSft = (k₁, some p)) :
  pgSz ∣ (k₁.td p).stackAddr ∧ (k₁.td p).stackAddr + pgSz ≤ 2 ^ 64 ∧ (k₁.td p).stackSz = pgSz
  := by
  rw [kTmgrGetFreeTask] at h
  generalize TaskAlloc.slabAlloc k.alloc = r at h
  obtain ⟨alloc₁, _ | q⟩ := r
  · cases h
  dsimp only at h
  generalize hpage : TaskAlloc.pgAllocPage alloc₁ pgSft = r at h
  obtain ⟨alloc₂, _ | stackAddr⟩ := r
  · cases h
  dsimp only at h
  split at h
  · cases h
  · cases h
    have hpage' : (TaskAlloc.pgAllocPage alloc₁ pgSft).2 = some stackAddr := by rw [hpage]
    obtain ⟨hdvd, hle⟩ := PageAlloc.pgAllocPage_page hpage'
    dsimp only
    rw [modify_td, if_pos rfl]
    exact ⟨hdvd, hle, rfl⟩

/-- A creation that reports success has initialised the task that it names. -/
theorem kCreateHandler_success (hc : k.current = some c)
    (hprio : kSchedPriorityIsValid priority = true)
    (h : k.kCreateHandler priority args argsLen = some k')
    (hok : 0 ≤ (k'.td c).syscallRetval.toInt) :
  ∃ k₁ p, k.kTmgrGetFreeTask pgSft = (k₁, some p)
    ∧ k' = ((k₁.kTdInitUserTask p (some c) priority.toNat k₁.code.loadElf (k₁.mem c).bytes args
        argsLen).kSchedAddReady p).setRetval c (BitVec.ofInt 64 (k₁.td p).tid)
  := by
  rw [kCreateHandler, hc, Option.bind_eq_bind, Option.bind_some] at h
  generalize hget : k.kTmgrGetFreeTask pgSft = r at h
  obtain ⟨k₁, _ | p⟩ := r
  · dsimp only at h
    rw [← Option.some.inj h, retval_setRetval] at hok
    exact absurd hok (by decide)
  · dsimp only at h
    rw [hprio] at h
    refine ⟨k₁, p, rfl, ?_⟩
    rw [← Option.some.inj h]
    rw [tid_kSchedAddReady, tid_kTdInitUserTask]

/-- A creation that reports success has made a frame that stays in the block of the stack
exactly when the arguments leave room for the registers. -/
theorem kCreateHandler_initialFrame_iff (hc : k.current = some c)
    (hprio : kSchedPriorityIsValid priority = true) (hlen : argsLen < 2 ^ 64)
    (h : k.kCreateHandler priority args argsLen = some k')
    (hok : 0 ≤ (k'.td c).syscallRetval.toInt) :
  ∃ k₁ p, k.kTmgrGetFreeTask pgSft = (k₁, some p)
    ∧ k' = ((k₁.kTdInitUserTask p (some c) priority.toNat k₁.code.loadElf (k₁.mem c).bytes args
        argsLen).kSchedAddReady p).setRetval c (BitVec.ofInt 64 (k₁.td p).tid)
    ∧ (k₁.InitialFrame p (some c) priority.toNat k₁.code.loadElf (k₁.mem c).bytes args argsLen
      ↔ argsLen ≤ pgSz - sizeofRegStore)
  := by
  obtain ⟨k₁, p, hget, heq⟩ := kCreateHandler_success hc hprio h hok
  obtain ⟨hdvd, hle, hsz⟩ := kTmgrGetFreeTask_stack hget
  exact ⟨k₁, p, hget, heq, initialFrame_iff hdvd hle hsz hlen⟩

end Kernel

/-! ### An arena whose blocks are pages -/

/-- An arena, the addresses of whose blocks count pages. -/
structure PageArena where
  arena : Arena

namespace PageArena

/-- The blocks in use, as addresses. -/
def blocks (a : PageArena) : Set ℕ :=
  { x | pgSz ∣ x ∧ x / pgSz ∈ a.arena.blocks }

theorem mem_blocks_mul {a : PageArena} {n : ℕ} :
  n * pgSz ∈ a.blocks ↔ n ∈ a.arena.blocks
  := by
  constructor
  · rintro ⟨-, h⟩
    rwa [Nat.mul_div_cancel n pgSz_pos] at h
  · intro h
    use Nat.dvd_mul_left _ _
    rwa [Nat.mul_div_cancel n pgSz_pos]

/-- Taking the next page, if it lies below the end of the addresses. -/
def takePage (a : PageArena) : PageArena × Option ℕ :=
  if a.arena.next < 2 ^ 44 then
    (⟨a.arena.takeBlock⟩, some (a.arena.next * pgSz))
  else
    (a, none)

def dropPage (a : PageArena) (x : ℕ) : PageArena :=
  if pgSz ∣ x then ⟨a.arena.dropBlock (x / pgSz)⟩ else a

theorem takePage_none {a : PageArena} (h : a.takePage.2 = none) :
  a.takePage.1 = a
  := by
  rw [takePage] at h ⊢
  split_ifs at h ⊢
  rfl

theorem takePage_some {a : PageArena} {x : ℕ} (h : a.takePage.2 = some x) :
  x = a.arena.next * pgSz ∧ x + pgSz ≤ 2 ^ 64 ∧ a.takePage.1 = ⟨a.arena.takeBlock⟩
  := by
  rw [takePage] at h ⊢
  split_ifs at h ⊢ with hlt
  obtain rfl := Option.some.inj h
  refine ⟨rfl, ?_, rfl⟩
  have hpg : pgSz = 2 ^ 20 := rfl
  rw [hpg]
  omega

theorem blocks_takeBlock (a : PageArena) :
  blocks ⟨a.arena.takeBlock⟩ = insert (a.arena.next * pgSz) a.blocks
  := by
  ext y
  constructor
  · rintro ⟨hdvd, hmem⟩
    obtain h | h := List.mem_cons.mp hmem
    · left
      rw [← h, Nat.div_mul_cancel hdvd]
    · exact Or.inr ⟨hdvd, h⟩
  · rintro (rfl | ⟨hdvd, hmem⟩)
    · exact mem_blocks_mul.mpr List.mem_cons_self
    · exact ⟨hdvd, List.mem_cons_of_mem _ hmem⟩

theorem blocks_dropPage (a : PageArena) (x : ℕ) :
  (a.dropPage x).blocks = a.blocks \ {x}
  := by
  rw [dropPage]
  ext y
  split_ifs with hx
  · constructor
    · rintro ⟨hdvd, hmem⟩
      obtain ⟨hmem, hne⟩ := List.mem_filter.mp hmem
      refine ⟨⟨hdvd, hmem⟩, ?_⟩
      rintro rfl
      exact absurd rfl (of_decide_eq_true hne)
    · rintro ⟨⟨hdvd, hmem⟩, hne⟩
      refine ⟨hdvd, List.mem_filter.mpr ⟨hmem, decide_eq_true fun heq => hne ?_⟩⟩
      have hyx := Nat.div_mul_cancel hdvd
      rw [heq, Nat.div_mul_cancel hx] at hyx
      exact hyx.symm
  · constructor
    · intro hy
      refine ⟨hy, ?_⟩
      rintro rfl
      exact hx hy.1
    · exact fun hy => hy.1

instance : PageAlloc PageArena where
  slabAlloc a := (⟨a.arena.takeTd⟩, some a.arena.next)
  slabFree a p := ⟨a.arena.dropTd p⟩
  pgAllocPage a _ := a.takePage
  pgFreePage := dropPage
  tds a := a.arena.tds.toFinset
  blocks := blocks
  Intact _ := True
  FreeSafe _ _ := True
  slabAlloc_none _ h := nomatch h
  slabAlloc_fresh := by
    rintro a p - ⟨⟩ hp
    exact (a.arena.tds_lt _ (List.mem_toFinset.mp hp)).false
  slabAlloc_some := by
    rintro a p - - ⟨⟩
    exact ⟨List.toFinset_cons, rfl, trivial⟩
  slabFree_spec := by
    rintro a p - -
    exact ⟨a.arena.tds_dropTd p, rfl, trivial⟩
  slabFree_slabAlloc := by
    rintro a p n - ⟨⟩ h
    rw [takePage_none h]
    refine ⟨?_, rfl, trivial⟩
    change (a.arena.takeTd.dropTd a.arena.next).tds.toFinset = _
    rw [Arena.tds_dropTd, Arena.takeTd, List.toFinset_cons]
    exact Finset.erase_insert fun hp => (a.arena.tds_lt _ (List.mem_toFinset.mp hp)).false
  pgAllocPage_none _ h := by
    rw [takePage_none h]
    exact ⟨rfl, rfl, trivial⟩
  pgAllocPage_some := by
    intro a n x _ h
    obtain ⟨rfl, -, htake⟩ := takePage_some h
    rw [htake, blocks_takeBlock]
    exact ⟨fun hx => (a.arena.blocks_lt _ (mem_blocks_mul.mp hx)).false, rfl, rfl, trivial⟩
  pgFreePage_spec := by
    intro a x _ _ _
    refine ⟨?_, blocks_dropPage a x, trivial⟩
    rw [dropPage]
    split_ifs <;> rfl
  pgAllocPage_page := by
    intro a n x h
    obtain ⟨rfl, hle, -⟩ := takePage_some h
    exact ⟨Nat.dvd_mul_left _ _, hle⟩

/-- The kernel when it enters the loop. -/
def bootKernel : Kernel PageArena :=
  let blank : Kernel PageArena := { Arena.blankKernel with alloc := ⟨Arena.empty⟩ }
  (Kernel.kMain blank (fun _ => 0) 0 0).getD blank

end PageArena

namespace Kernel

/-- `user_entry` creates a task whose arguments just leave room for the registers. -/
theorem kCreateHandler_initialFrame_iff_entry :
  ∃ k₁ p, PageArena.bootKernel.schedule.kTmgrGetFreeTask pgSft = (k₁, some p)
    ∧ k₁.InitialFrame p (some 3) 0 k₁.code.loadElf (k₁.mem 3).bytes 0 (pgSz - sizeofRegStore)
  := by
  have hcreate : ∃ k', PageArena.bootKernel.schedule.kCreateHandler 0 0 (pgSz - sizeofRegStore)
      = some k' ∧ 0 ≤ (k'.td 3).syscallRetval.toInt := ⟨_, rfl, by decide⟩
  obtain ⟨k', h, hok⟩ := hcreate
  obtain ⟨k₁, p, hget, -, hframe⟩ :=
    kCreateHandler_initialFrame_iff (c := 3) rfl rfl (by decide) h hok
  exact ⟨k₁, p, hget, hframe.mpr le_rfl⟩

/-- `user_entry` creates a task with one byte more: the creation reports the task `3`, and
the registers of its frame begin in the memory below its stack. -/
theorem kCreateHandler_not_initialFrame_entry :
  ∃ k' k₁ p, PageArena.bootKernel.schedule.kCreateHandler 0 0 (pgSz - sizeofRegStore + 1) = some k'
    ∧ (k'.td 3).syscallRetval = 3
    ∧ PageArena.bootKernel.schedule.kTmgrGetFreeTask pgSft = (k₁, some p)
    ∧ ¬ k₁.InitialFrame p (some 3) 0 k₁.code.loadElf (k₁.mem 3).bytes 0
      (pgSz - sizeofRegStore + 1)
  := by
  refine ⟨_, _, _, rfl, rfl, rfl, ?_⟩
  rw [initialFrame_iff (by decide) (by decide) rfl (by decide)]
  decide

end Kernel

end TrainsOs
