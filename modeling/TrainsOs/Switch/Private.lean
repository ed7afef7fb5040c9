import TrainsOs.Switch.Save
import TrainsOs.Lib.Simulation
import Mathlib.Data.Set.Basic

/-!
# Every task has a processor of its own

One processor executes the tasks and the kernel in turns. What it does is what a machine does
in which every task, and the kernel, has a processor of its own, and in which exceptions and
`kernel_into_user` only pass the turn.

`Config.Step` is the machine with one processor: the instructions of a task, exceptions with
the handlers of `exception.S`, the part of the kernel that is written in C, of which it is
known what it leaves alone, and `kernel_into_user`. `Private.Step` is the other one.
-/

namespace Switch

open Aarch64 State Simulation

/-- Whose turn it is. -/
inductive Mode (T : Type) where
  | user (t : T)
  | kernel

/-- What happens in a step: an instruction of the task, an interrupt, `svc #imm`, the kernel's
code in C, or `kernel_into_user` for a task. -/
inductive Label (T : Type) where
  | user
  | interrupt
  | syscall (imm : BitVec 16)
  | kernel
  | resume (t : T)

/-! ### One processor for each task -/

/-- The processors of the kernel and of the tasks; `call` says how the turn of a task ended. -/
structure Private (T : Type) where
  kernel : View
  task : T → View
  call : T → Excp
  live : Set T
  mode : Mode T

/-- The registers that a call keeps. -/
def SameHigh (x x' : Reg → BitVec 64) : Prop :=
  ∀ r ∈ regs highPairs, x' r = x r

/-- The kernel goes on at an address: for its caller the turn of the task was a call of a
function, `kernel_into_user`. -/
structure Returns (k k' : View) (a : Addr) : Prop where
  pc : k'.pc = a
  sp : k'.sp = k.sp
  high : SameHigh k.x k'.x

/-- What the kernel may do to the processor of a task whose turn it is not: return a value from
a system call. -/
def Kept (call : Excp) (v v' : View) : Prop :=
  match call with
  | .intr => v' = v
  | .sysc => ∃ r, v' = { v with x := afterCall v.x r }

/-- What a task finds when it goes on: everything as it was after an interrupt, and what a
function keeps after a system call. -/
def Unchanged (call : Excp) (v v' : View) : Prop :=
  match call with
  | .intr => v' = v
  | .sysc => v'.pc = v.pc ∧ v'.sp = v.sp ∧ v'.pstate = v.pstate ∧ v'.x 0 = v.x 0
      ∧ SameHigh v.x v'.x

inductive Private.Step {T : Type} [DecidableEq T] (sym : Symbols) :
    Private T → Label T → Private T → Prop where
  | user {p : Private T} {t : T} (hmode : p.mode = .user t) (v : View) :
      Step sym p .user { p with task := Function.update p.task t v }
  | interrupt {p : Private T} {t : T} {k : View} (hmode : p.mode = .user t)
      (hk : Returns p.kernel k sym.kIntrHandler) :
      Step sym p .interrupt
        { p with kernel := k, call := Function.update p.call t .intr, mode := .kernel }
  | syscall {p : Private T} {t : T} {k : View} {imm : BitVec 16} {label : Addr} {r : BitVec 64}
      (hmode : p.mode = .user t) (hlabel : dispatch sym (p.kernel.x linkreg) imm.toNat = some label)
      (hk : Returns p.kernel k label) (hargs : ∀ r : Reg, r ≤ 8 → k.x r = (p.task t).x r) :
      Step sym p (.syscall imm)
        { p with
          kernel := k
          task := Function.update p.task t
            ⟨afterCall (p.task t).x r, (p.task t).sp, (p.task t).x linkreg, (p.task t).pstate⟩
          call := Function.update p.call t .sysc
          mode := .kernel }
  | kernel {p p' : Private T} (hmode : p.mode = .kernel) (hmode' : p'.mode = .kernel)
      (hpc : p'.kernel.pc = sym.kernelIntoUser)
      (hkept : ∀ t ∈ p.live, t ∈ p'.live →
        p'.call t = p.call t ∧ Kept (p.call t) (p.task t) (p'.task t))
      (hfresh : ∀ t ∈ p'.live, t ∉ p.live → p'.call t = .intr) :
      Step sym p .kernel p'
  | resume {p : Private T} {t : T} {v : View} (hmode : p.mode = .kernel) (ht : t ∈ p.live)
      (hv : Unchanged (p.call t) (p.task t) v) :
      Step sym p (.resume t) { p with task := Function.update p.task t v, mode := .user t }

/-! ### One processor -/

/-- Where the descriptors are, and the stacks. -/
structure Layout (T : Type) where
  td : T → Addr
  stack : T → Set Addr
  kernelStack : Set Addr

/-- The parts of the memory that belong to different tasks or to the kernel do not overlap. -/
structure Layout.Separate {T : Type} (L : Layout T) (live : Set T) : Prop where
  stack_stack : ∀ t ∈ live, ∀ u ∈ live, t ≠ u → ∀ a ∈ L.stack t, a ∉ L.stack u
  stack_record : ∀ t ∈ live, ∀ u ∈ live, ∀ a ∈ L.stack t, ¬ Within (L.td u) 0x28 a
  stack_kernel : ∀ t ∈ live, ∀ a ∈ L.stack t, a ∉ L.kernelStack
  stack_cur : ∀ t ∈ live, ∀ a ∈ L.stack t, ¬ Within curActiveTdPtr 8 a
  record_record : ∀ t ∈ live, ∀ u ∈ live, t ≠ u → Apart (L.td t) 0x28 (L.td u) 0x28
  record_kernel : ∀ t ∈ live, ∀ a ∈ L.kernelStack, ¬ Within (L.td t) 0x28 a
  kernel_cur : ∀ a ∈ L.kernelStack, ¬ Within curActiveTdPtr 8 a

/-- The processor with the memory, the tasks that exist, and whose turn it is. -/
structure Config (T : Type) where
  state : State
  live : Set T
  mode : Mode T

/-- An instruction of a task. It changes neither the registers of level 1 nor what belongs to
others. -/
structure UserStep {T : Type} (L : Layout T) (live : Set T) (t : T) (s s' : State) : Prop where
  atEl0 : s'.AtEl0
  spEl1 : s'.spEl1 = s.spEl1
  stack : ∀ u ∈ live, u ≠ t → ∀ a ∈ L.stack u, s'.mem.byte a = s.mem.byte a
  record : ∀ u ∈ live, ∀ a, Within (L.td u) 0x28 a → s'.mem.byte a = s.mem.byte a
  kernel : ∀ a ∈ L.kernelStack, s'.mem.byte a = s.mem.byte a
  cur : ∀ a, Within curActiveTdPtr 8 a → s'.mem.byte a = s.mem.byte a

/-- The stack of the task has room for the frame. -/
def HasRoom {T : Type} (L : Layout T) (t : T) (sp : Addr) (excp : Excp) : Prop :=
  ∀ a, Within (sp - BitVec.ofNat 64 (frameSize excp)) (frameSize excp) a → a ∈ L.stack t

/-- What the code of the kernel leaves alone of a task: its frame, and the fields of its
descriptor but for the value that a system call returns. -/
structure Spares (m m' : Memory) (td : Addr) : Prop where
  fields : ∀ a, Within td 0x20 a → m'.byte a = m.byte a
  retval : load64 m (td + 0x18) = 0 → load64 m' (td + 0x20) = load64 m (td + 0x20)
  frame : ∀ a, Within (load64 m (td + 0x08))
    (frameSize (if load64 m (td + 0x18) = 0 then .intr else .sysc)) a → m'.byte a = m.byte a

/-- The kernel's code in C, from a handler to the next call of `kernel_into_user`. The tasks it
creates have a frame like that of an interrupt. -/
structure KernelStep {T : Type} (sym : Symbols) (L : Layout T) (live live' : Set T)
    (s s' : State) : Prop where
  atEl1 : s'.AtEl1
  pc : s'.pc = sym.kernelIntoUser
  separate : L.Separate live'
  spares : ∀ t ∈ live, t ∈ live' → Spares s.mem s'.mem (L.td t)
  fresh : ∀ t ∈ live', t ∉ live → ∃ v, Saved s'.mem (L.td t) v .intr ∧ HasRoom L t v.sp .intr
    ∧ v.pstate.extractLsb' 0 4 = 0#4

/-- The call of `kernel_into_user` by code outside of `code`, for the task `t`. -/
structure Calls {T : Type} (code : Code) (sym : Symbols) (L : Layout T) (t : T)
    (s : State) :
    Prop where
  pc : s.pc = sym.kernelIntoUser
  link : code (s.x linkreg) = none
  cur : load64 s.mem curActiveTdPtr = L.td t
  room : ∀ a, Within (s.spEl1 - 96) 96 a → a ∈ L.kernelStack

inductive Config.Step {T : Type} (code : Code) (sym : Symbols) (L : Layout T) :
    Config T → Label T → Config T → Prop where
  | user {c : Config T} {t : T} {s : State} (hmode : c.mode = .user t)
      (hs : UserStep L c.live t c.state s) :
      Step code sym L c .user { c with state := s }
  | interrupt {c : Config T} {t : T} {s : State} (hmode : c.mode = .user t)
      (hroom : HasRoom L t c.state.spEl0 .intr)
      (hs : Runs code (c.state.takeIrq sym.exceptionVectorEl1) s) :
      Step code sym L c .interrupt { c with state := s, mode := .kernel }
  | syscall {c : Config T} {t : T} {s : State} {imm : BitVec 16} (hmode : c.mode = .user t)
      (hroom : HasRoom L t c.state.spEl0 .sysc) (himm : imm.toNat < (handlerFuncTabl sym).length)
      (hs : Runs code (c.state.takeSvc sym.exceptionVectorEl1 imm) s) :
      Step code sym L c (.syscall imm) { c with state := s, mode := .kernel }
  | kernel {c : Config T} {s : State} {live : Set T} (hmode : c.mode = .kernel)
      (hs : KernelStep sym L c.live live c.state s) :
      Step code sym L c .kernel { c with state := s, live := live }
  | resume {c : Config T} {t : T} {s : State} (hmode : c.mode = .kernel) (ht : t ∈ c.live)
      (hcalls : Calls code sym L t c.state) (hs : Runs code c.state s) :
      Step code sym L c (.resume t) { c with state := s, mode := .user t }

/-! ### The simulation -/

/-- A task whose turn it is not: its processor is in its descriptor and on its stack. -/
structure Away {T : Type} (L : Layout T) (m : Memory) (t : T) (v : View) (excp : Excp) : Prop where
  saved : Saved m (L.td t) v excp
  room : HasRoom L t v.sp excp
  atEl0 : v.pstate.extractLsb' 0 4 = 0#4

/-- The task whose turn it is, with the kernel's registers on the kernel's stack. -/
structure Running {T : Type} (code : Code) (L : Layout T) (t : T) (s : State) (k v : View) :
    Prop where
  atEl0 : s.AtEl0
  view : s.view = v
  cur : load64 s.mem curActiveTdPtr = L.td t
  frame : KernelFrame s.mem s.spEl1 k.x
  sp : s.spEl1 + 96 = k.sp
  room : ∀ a, Within s.spEl1 96 a → a ∈ L.kernelStack
  link : code (k.x linkreg) = none

/-- The state of the one processor and of its memory stand for those of the many. -/
structure Stands {T : Type} (code : Code) (L : Layout T) (c : Config T) (p : Private T) :
    Prop where
  live : p.live = c.live
  mode : p.mode = c.mode
  separate : L.Separate c.live
  others : ∀ t ∈ c.live, c.mode ≠ .user t → Away L c.state.mem t (p.task t) (p.call t)
  user : ∀ t, c.mode = .user t → t ∈ c.live ∧ Running code L t c.state p.kernel (p.task t)
  kernel : c.mode = .kernel → c.state.AtEl1
    ∧ p.kernel = ⟨c.state.x, c.state.spEl1, c.state.pc, c.state.pstate⟩

section Simulation

variable {T : Type} {code : Code} {sym : Symbols} {L : Layout T} {live live' : Set T}
  {t u : T}
  {s s' : State} {m m' : Memory} {v k : View} {excp : Excp} {c c' : Config T} {p : Private T}

theorem Away.congr (h : Away L m t v excp)
    (hrecord : ∀ a, Within (L.td t) 0x28 a → m'.byte a = m.byte a)
    (hstack : ∀ a ∈ L.stack t, m'.byte a = m.byte a) :
  Away L m' t v excp
  := ⟨h.saved.congr hrecord fun a ha => hstack a (h.room a ha), h.room, h.atEl0⟩

/-- The kernel's code returns a value from a system call at most. -/
theorem Away.spared (h : Away L m t v excp) (hs : Spares m m' (L.td t)) :
  ∃ v', Kept excp v v' ∧ Away L m' t v' excp
  := by
  have hfield : ∀ d : Addr, d.toNat + 8 ≤ 0x20 →
      load64 m' (L.td t + d) = load64 m (L.td t + d) := by
    intro d hd
    exact load64_congr fun x hx => hs.fields x (hx.mono hd)
  have hframe : Holds m' (v.sp - BitVec.ofNat 64 (frameSize excp))
      ((regs (pairs excp).reverse).map v.x) := by
    apply h.saved.frame.congr
    · rw [length_frame]
      exact frameSize_le excp
    · intro a ha
      apply hs.frame a
      rw [length_frame] at ha
      rwa [h.saved.excp_eq, h.saved.sp]
  have hsaved : ∀ x, x 0 = load64 m' (L.td t + 0x20) →
      Holds m' (v.sp - BitVec.ofNat 64 (frameSize excp)) ((regs (pairs excp).reverse).map x) →
      Away L m' t { v with x := x } excp := by
    intro x hx0 hx
    refine ⟨?_, h.room, h.atEl0⟩
    constructor
    · exact (hfield _ (by decide)).trans h.saved.pc
    · exact (hfield _ (by decide)).trans h.saved.sp
    · exact (hfield _ (by decide)).trans h.saved.pstate
    · rw [hfield _ (by decide)]
      exact h.saved.esr
    · exact hx0.symm
    · exact hx
  cases excp with
  | intr =>
    refine ⟨v, rfl, hsaved v.x ?_ hframe⟩
    rw [hs.retval (h.saved.esr.mpr rfl), h.saved.x0]
  | sysc =>
    refine ⟨_, ⟨load64 m' (L.td t + 0x20), rfl⟩, hsaved _ (Function.update_self _ _ _) ?_⟩
    rw [map_afterCall]
    exact hframe

/-- An exception is taken when the stacks have room. -/
theorem Running.roomy (h : Running code L t s k v) (hL : L.Separate live) (ht : t ∈ live)
    (hroom : HasRoom L t s.spEl0 excp) (hs' : s'.spEl1 = s.spEl1) :
  Roomy s' (L.td t) (s.spEl0 - BitVec.ofNat 64 (frameSize excp)) excp
  := by
  constructor
  · exact fun a ha ha' => hL.stack_cur t ht a (hroom a ha) ha'
  · exact fun a ha ha' => hL.stack_record t ht t ht a (hroom a ha) ha'
  · intro a ha ha'
    rw [hs'] at ha'
    exact hL.stack_kernel t ht a (hroom a ha) (h.room a ha')
  · intro a ha ha'
    rw [hs'] at ha'
    exact hL.record_kernel t ht a (h.room a ha') ha

/-- The other tasks do not notice that an exception is taken. -/
theorem Away.entered {frame : Addr} {x : Reg → BitVec 64} (h : Away L s.mem u v excp)
    (hL : L.Separate live) (ht : t ∈ live) (hu : u ∈ live) (hne : u ≠ t) {e : Excp}
    (hroom : ∀ a, Within frame (frameSize e) a → a ∈ L.stack t)
    (hs : Entered s s' (L.td t) frame e x) :
  Away L s'.mem u v excp
  := by
  apply h.congr
  · intro a ha
    apply hs.mem a
    · exact fun ha' => hL.stack_record t ht u hu a (hroom a ha') ha
    · exact fun ha' => hL.record_record u hu t ht hne a ha ha'
  · intro a ha
    apply hs.mem a
    · exact fun ha' => hL.stack_stack u hu t ht hne a ha (hroom a ha')
    · exact fun ha' => hL.stack_record u hu t ht a ha ha'

/-- When an exception has been taken it is the kernel's turn. -/
theorem Stands.entered [DecidableEq T] (h : Stands code L c p) (hmode : c.mode = .user t)
    {s₀ : State} {ret vector : Addr} (h₀ : Taken c.state s₀ ret vector)
    (hroom : HasRoom L t c.state.spEl0 excp)
    (hs : Entered s₀ s (L.td t) (c.state.spEl0 - BitVec.ofNat 64 (frameSize excp)) excp p.kernel.x)
    (hsaved : Saved s.mem (L.td t) v excp) (hsp : v.sp = c.state.spEl0)
    (hpstate : v.pstate = c.state.pstate) :
  Stands code L { c with state := s, mode := .kernel }
      { p with
        kernel := ⟨s.x, s.spEl1, s.pc, s.pstate⟩
        task := Function.update p.task t v
        call := Function.update p.call t excp
        mode := .kernel }
    ∧ Returns p.kernel ⟨s.x, s.spEl1, s.pc, s.pstate⟩ s.pc
  := by
  obtain ⟨ht, hrun⟩ := h.user t hmode
  constructor
  · refine ⟨h.live, rfl, h.separate, ?_, nofun, fun _ => ⟨hs.atEl1, rfl⟩⟩
    intro u hu _
    by_cases hut : u = t
    · subst hut
      dsimp only
      rw [Function.update_self, Function.update_self]
      exact ⟨hsaved, hsp ▸ hroom, hpstate ▸ hrun.atEl0⟩
    · dsimp only
      rw [Function.update_of_ne hut, Function.update_of_ne hut]
      have haway := h.others u hu fun heq => hut (Mode.user.inj (heq.symm.trans hmode))
      exact Away.entered (h₀.mem ▸ haway) h.separate ht hu hut hroom hs
  · refine ⟨rfl, ?_, hs.high⟩
    rw [hs.spEl1, h₀.spEl1]
    exact hrun.sp

/-- The entries of the table. -/
theorem mem_handlerFuncTabl {instr : Instr} (h : instr ∈ handlerFuncTabl sym) :
  instr = .ret ∨ ∃ f, instr = .b (sym.handler f)
  := by
  simp only [handlerFuncTabl, List.mem_cons, List.not_mem_nil, or_false] at h
  rcases h with rfl | rfl | rfl | rfl | rfl | rfl | rfl | rfl | rfl | rfl | rfl | rfl | rfl | rfl
    | rfl
  all_goals first | exact Or.inl rfl | exact Or.inr ⟨_, rfl⟩

/-- The address that a system call leads to is one of code in C. -/
theorem dispatch_outside (himg : Image sym code) {lr a : Addr} {i : ℕ} (hlr : code lr = none)
    (ha : dispatch sym lr i = some a) :
  code a = none
  := by
  obtain ⟨instr, hget, htarget⟩ := Option.bind_eq_some_iff.mp ha
  obtain rfl | ⟨h, rfl⟩ := mem_handlerFuncTabl (List.mem_of_getElem? hget)
  · cases htarget
    exact hlr
  · cases htarget
    exact himg.handlers h

theorem exists_dispatch {i : ℕ} (hi : i < (handlerFuncTabl sym).length) (lr : Addr) :
  ∃ a, dispatch sym lr i = some a
  := by
  rw [dispatch, List.getElem?_eq_getElem hi, Option.bind_some]
  obtain heq | ⟨h, heq⟩ := mem_handlerFuncTabl (List.getElem_mem hi)
  · exact ⟨lr, by rw [heq]; rfl⟩
  · exact ⟨sym.handler h, by rw [heq]; rfl⟩

/-- The handler of interrupts ends, and then it is the kernel's turn. -/
theorem Stands.interrupt [DecidableEq T] (himg : Image sym code) (h : Stands code L c p)
    (hmode : c.mode = .user t) (hroom : HasRoom L t c.state.spEl0 .intr) :
  ∃ s, Runs code (c.state.takeIrq sym.exceptionVectorEl1) s ∧ ∃ p', Private.Step sym p .interrupt p'
    ∧ Stands code L { c with state := s, mode := .kernel } p'
  := by
  obtain ⟨ht, hrun⟩ := h.user t hmode
  have h₀ := taken_takeIrq c.state sym.exceptionVectorEl1
  generalize c.state.takeIrq sym.exceptionVectorEl1 = s₀ at h₀ ⊢
  have hroomy := hrun.roomy h.separate ht hroom h₀.spEl1
  rw [← h₀.spEl0] at hroomy
  obtain ⟨s, hsteps, hpc, hs, hsaved⟩ := interruptHandler_spec himg h₀.pc h₀.atEl1
    (h₀.mem ▸ hrun.cur) rfl hroomy (h₀.mem ▸ h₀.spEl1 ▸ hrun.frame)
  have hview : (⟨s₀.x, s₀.spEl0, s₀.elr, s₀.spsr⟩ : View) = p.task t := by
    rw [h₀.x, h₀.spEl0, h₀.elr, h₀.spsr]
    exact hrun.view
  rw [h₀.spEl0] at hs
  obtain ⟨hstands, hreturns⟩ := h.entered hmode h₀ hroom hs hsaved h₀.spEl0 h₀.spsr
  rw [hview, Function.update_eq_self] at hstands
  refine ⟨s, ⟨hsteps, step_of_none (hpc ▸ himg.interrupts)⟩, _, ?_, hstands⟩
  exact .interrupt (h.mode.trans hmode) (hpc ▸ hreturns)

/-- So does that of system calls. -/
theorem Stands.syscall [DecidableEq T] (himg : Image sym code) (h : Stands code L c p)
    (hmode : c.mode = .user t) (hroom : HasRoom L t c.state.spEl0 .sysc) {imm : BitVec 16}
    (himm : imm.toNat < (handlerFuncTabl sym).length) :
  ∃ s, Runs code (c.state.takeSvc sym.exceptionVectorEl1 imm) s
    ∧ ∃ p', Private.Step sym p (.syscall imm) p'
    ∧ Stands code L { c with state := s, mode := .kernel } p'
  := by
  obtain ⟨ht, hrun⟩ := h.user t hmode
  obtain ⟨label, hlabel⟩ := exists_dispatch himm (p.kernel.x linkreg)
  have h₀ := taken_takeSvc c.state sym.exceptionVectorEl1 imm
  have hesr := takeSvc_esr c.state sym.exceptionVectorEl1 imm
  generalize c.state.takeSvc sym.exceptionVectorEl1 imm = s₀ at h₀ hesr ⊢
  have hroomy := hrun.roomy h.separate ht hroom h₀.spEl1
  rw [← h₀.spEl0] at hroomy
  obtain ⟨s, hsteps, hpc, hs, hsaved, hargs⟩ := syscallHandler_spec himg h₀.pc h₀.atEl1 hesr hlabel
    (h₀.mem ▸ hrun.cur) rfl hroomy (h₀.mem ▸ h₀.spEl1 ▸ hrun.frame)
  rw [h₀.spEl0] at hs
  obtain ⟨hstands, hreturns⟩ := h.entered hmode h₀ hroom hs hsaved h₀.spEl0 h₀.spsr
  refine ⟨s, ⟨hsteps, step_of_none (hpc ▸ dispatch_outside himg hrun.link hlabel)⟩, _, ?_, hstands⟩
  have hx : s₀.x = (p.task t).x := h₀.x.trans (congrArg View.x hrun.view)
  have hsp : s₀.spEl0 = (p.task t).sp := h₀.spEl0.trans (congrArg View.sp hrun.view)
  have hpstate : s₀.spsr = (p.task t).pstate := h₀.spsr.trans (congrArg View.pstate hrun.view)
  rw [hx, hsp, hpstate]
  apply Private.Step.syscall (h.mode.trans hmode) hlabel (hpc ▸ hreturns)
  intro r hr
  rw [← hx]
  exact hargs r hr

/-- What a task finds when it goes on. -/
theorem Resumed.unchanged (h : Resumed s v excp) :
  Unchanged excp v s.view
  := by
  cases excp with
  | intr =>
    have hregs : ∀ r : Reg, r = 0 ∨ r ∈ regs highPairs ∨ r ∈ regs lowPairs := by decide
    have hx : s.x = v.x := by
      funext r
      obtain rfl | hr | hr := hregs r
      · exact h.x0
      · exact h.high r hr
      · exact h.low rfl r hr
    rw [Unchanged, view, hx, h.sp, h.pc, h.pstate]
  | sysc => exact ⟨h.pc, h.sp, h.pstate, h.x0, h.high⟩

/-- `kernel_into_user` ends, and then it is the turn of the task. -/
theorem Stands.resume [DecidableEq T] (himg : Image sym code) (h : Stands code L c p)
    (hmode : c.mode = .kernel) (ht : t ∈ c.live) (hcalls : Calls code sym L t c.state) :
  ∃ s, Runs code c.state s ∧ ∃ p', Private.Step sym p (.resume t) p'
    ∧ Stands code L { c with state := s, mode := .user t } p'
  := by
  have haway : ∀ u ∈ c.live, Away L c.state.mem u (p.task u) (p.call u) := by
    intro u hu
    apply h.others u hu
    rw [hmode]
    exact nofun
  have hkernel := h.separate.kernel_cur
  obtain ⟨hel1, hk⟩ := h.kernel hmode
  obtain ⟨hsaved, hroom, hatEl0⟩ := haway t ht
  obtain ⟨s, hsteps, hresumed, hsp1, hframe, hout⟩ := kernelIntoUser_spec himg hcalls.pc hel1
    hcalls.cur hsaved (fun a ha ha' => h.separate.kernel_cur a (hcalls.room a ha) ha')
    (fun a ha ha' => h.separate.record_kernel t ht a (hcalls.room a ha) ha')
    (fun a ha ha' => h.separate.stack_kernel t ht a (hroom a ha') (hcalls.room a ha))
  have hel0 : s.AtEl0 := by
    rw [AtEl0, hresumed.pstate]
    exact hatEl0
  refine ⟨s, ⟨hsteps, step_of_atEl0 code hel0⟩, _,
    .resume (h.mode.trans hmode) (h.live ▸ ht) hresumed.unchanged, ?_⟩
  refine ⟨h.live, rfl, h.separate, ?_, ?_, nofun⟩
  · intro u hu hne
    have hut : u ≠ t := fun heq => hne (congrArg Mode.user heq.symm)
    dsimp only
    rw [Function.update_of_ne hut]
    apply (haway u hu).congr
    · exact fun a ha => hout a fun ha' => h.separate.record_kernel u hu a (hcalls.room a ha') ha
    · exact fun a ha => hout a fun ha' => h.separate.stack_kernel u hu a ha (hcalls.room a ha')
  · rintro u ⟨⟩
    refine ⟨ht, hel0, ?_, ?_, ?_, ?_, ?_, ?_⟩
    · dsimp only
      rw [Function.update_self]
    · rw [← hcalls.cur]
      exact load64_congr fun a ha => hout a fun ha' =>
        h.separate.kernel_cur a (hcalls.room a ha') ha
    · rw [hk]
      exact hframe
    · rw [hsp1, hk]
      exact BitVec.sub_add_cancel _ _
    · rw [hsp1]
      exact hcalls.room
    · rw [hk]
      exact hcalls.link

/-- The turn of the kernel's code in C. -/
theorem Stands.kernelStep [DecidableEq T] (h : Stands code L c p) (hmode : c.mode = .kernel)
    (hs : KernelStep sym L c.live live c.state s) :
  ∃ p', Private.Step sym p .kernel p' ∧ Stands code L { c with state := s, live := live } p'
  := by
  have htask : ∀ t, ∃ v excp, (t ∈ live → Away L s.mem t v excp)
      ∧ (t ∈ c.live → t ∈ live → excp = p.call t ∧ Kept (p.call t) (p.task t) v)
      ∧ (t ∈ live → t ∉ c.live → excp = .intr) := by
    intro t
    by_cases ht : t ∈ live
    · by_cases hold : t ∈ c.live
      · have haway := h.others t hold (by rw [hmode]; exact nofun)
        obtain ⟨v, hv, haway'⟩ := haway.spared (hs.spares t hold ht)
        exact ⟨v, p.call t, fun _ => haway', fun _ _ => ⟨rfl, hv⟩, fun _ hn => absurd hold hn⟩
      · obtain ⟨v, hsaved, hroom, hatEl0⟩ := hs.fresh t ht hold
        exact ⟨v, .intr, fun _ => ⟨hsaved, hroom, hatEl0⟩, fun ho => absurd ho hold, fun _ _ => rfl⟩
    · exact ⟨p.task t, p.call t, fun h => absurd h ht, fun _ h => absurd h ht, fun h => absurd h ht⟩
  choose task call haway hkept hfresh using htask
  refine ⟨⟨⟨s.x, s.spEl1, s.pc, s.pstate⟩, task, call, live, .kernel⟩, ?_, ?_⟩
  · apply Private.Step.kernel (h.mode.trans hmode) rfl hs.pc
    · intro t ht ht'
      exact hkept t (h.live ▸ ht) ht'
    · intro t ht hold
      exact hfresh t ht (h.live ▸ hold)
  · refine ⟨rfl, hmode.symm, hs.separate, fun t ht _ => haway t ht, ?_, fun _ => ⟨hs.atEl1, rfl⟩⟩
    intro t ht
    cases hmode.symm.trans ht

/-- An instruction of a task changes nothing but its own processor. -/
theorem Stands.userStep [DecidableEq T] (h : Stands code L c p) (hmode : c.mode = .user t)
    (hs : UserStep L c.live t c.state s) :
  Stands code L { c with state := s } { p with task := Function.update p.task t s.view }
  := by
  obtain ⟨ht, hrun⟩ := h.user t hmode
  refine ⟨h.live, h.mode, h.separate, ?_, ?_, ?_⟩
  · intro u hu hne
    have hut : u ≠ t := fun heq => hne (heq ▸ hmode)
    dsimp only
    rw [Function.update_of_ne hut]
    exact (h.others u hu hne).congr (hs.record u hu) (hs.stack u hu hut)
  · intro u hu
    obtain rfl : t = u := Mode.user.inj (hmode.symm.trans hu)
    refine ⟨ht, hs.atEl0, ?_, ?_, ?_, ?_, ?_, hrun.link⟩
    · dsimp only
      rw [Function.update_self]
    · rw [← hrun.cur]
      exact load64_congr hs.cur
    · rw [hs.spEl1]
      exact hrun.frame.congr fun a ha => hs.kernel a (hrun.room a ha)
    · rw [hs.spEl1]
      exact hrun.sp
    · rw [hs.spEl1]
      exact hrun.room
  · intro hk
    cases hmode.symm.trans hk

/-- Every step of the one processor is a step of the many. -/
theorem simulates [DecidableEq T] (himg : Image sym code) :
  Simulates (Config.Step code sym L) (Private.Step sym) (Stands code L)
  := by
  intro c p a c' h hstep
  cases hstep with
  | user hmode hs => exact ⟨_, .user (h.mode.trans hmode) _, h.userStep hmode hs⟩
  | interrupt hmode hroom hs =>
    obtain ⟨s', hs', hresult⟩ := h.interrupt himg hmode hroom
    rw [hs.unique hs']
    exact hresult
  | syscall hmode hroom himm hs =>
    obtain ⟨s', hs', hresult⟩ := h.syscall himg hmode hroom himm
    rw [hs.unique hs']
    exact hresult
  | kernel hmode hs => exact h.kernelStep hmode hs
  | resume hmode ht hcalls hs =>
    obtain ⟨s', hs', hresult⟩ := h.resume himg hmode ht hcalls
    rw [hs.unique hs']
    exact hresult

end Simulation

/-! ### Runs -/

section Runs

variable {T : Type} [DecidableEq T] {code : Code} {sym : Symbols} {L : Layout T} {t : T}
  {excp : Excp}
  {v v' v'' : View} {c c₁ c₂ c₃ : Config T} {p p₁ p₂ p₃ : Private T} {l : Label T}
  {ls : List (Label T)}

/-- The turn of the task ends in this way. -/
def Label.Leaves (l : Label T) (excp : Excp) : Prop :=
  match excp with
  | .intr => l = .interrupt
  | .sysc => ∃ imm, l = .syscall imm

/-- What a task that has left in this way finds when it goes on: everything as it was after an
interrupt, and a call that has returned after a system call. -/
def Restored (excp : Excp) (v v' : View) : Prop :=
  match excp with
  | .intr => v' = v
  | .sysc => v'.pc = v.x linkreg ∧ v'.sp = v.sp ∧ v'.pstate = v.pstate ∧ SameHigh v.x v'.x

theorem Kept.refl (excp : Excp) (v : View) :
  Kept excp v v
  := by
  cases excp with
  | intr => rfl
  | sysc => exact ⟨v.x 0, by rw [afterCall, Function.update_eq_self]⟩

theorem Kept.trans (h : Kept excp v v') (h' : Kept excp v' v'') :
  Kept excp v v''
  := by
  cases excp with
  | intr => exact Eq.trans h' h
  | sysc =>
    obtain ⟨r, rfl⟩ := h
    obtain ⟨r', rfl⟩ := h'
    refine ⟨r', ?_⟩
    dsimp only
    rw [afterCall, afterCall, Function.update_idem]
    rfl

theorem sameHigh_afterCall (x : Reg → BitVec 64) (r : BitVec 64) :
  SameHigh x (afterCall x r)
  := by
  have h0 : ∀ r ∈ regs highPairs, r ≠ 0 := by decide
  exact fun r hr => Function.update_of_ne (h0 r hr) _ _

/-- While it is not its turn, the processor of a task waits. -/
theorem Private.Step.waits (h : Private.Step sym p l p₁) (hlive : t ∈ p.live) (hlive' : t ∈ p₁.live)
    (hl : l ≠ .resume t) (hmode : p.mode ≠ .user t) :
  p₁.mode ≠ .user t ∧ p₁.call t = p.call t ∧ Kept (p.call t) (p.task t) (p₁.task t)
  := by
  cases h with
  | @user u hu v =>
    have hne : t ≠ u := fun heq => hmode (heq ▸ hu)
    refine ⟨hmode, rfl, ?_⟩
    dsimp only
    rw [Function.update_of_ne hne]
    exact Kept.refl _ _
  | @interrupt u k hu hk =>
    have hne : t ≠ u := fun heq => hmode (heq ▸ hu)
    exact ⟨nofun, Function.update_of_ne hne _ _, Kept.refl _ _⟩
  | @syscall u k imm label r hu hlabel hk hargs =>
    have hne : t ≠ u := fun heq => hmode (heq ▸ hu)
    refine ⟨nofun, Function.update_of_ne hne _ _, ?_⟩
    dsimp only
    rw [Function.update_of_ne hne]
    exact Kept.refl _ _
  | kernel hk hk' hpc hkept hfresh =>
    refine ⟨?_, hkept t hlive hlive'⟩
    rw [hk']
    exact nofun
  | @resume u v hk hu hv =>
    have hne : t ≠ u := fun heq => hl (heq ▸ rfl)
    refine ⟨fun heq => hne (Mode.user.inj heq).symm, rfl, ?_⟩
    dsimp only
    rw [Function.update_of_ne hne]
    exact Kept.refl _ _

/-- The end of the turn of a task. -/
theorem Private.Step.leaves (h : Private.Step sym p l p₁) (hl : l.Leaves excp)
    (hmode : p.mode = .user t) :
  p₁.mode = .kernel ∧ p₁.call t = excp ∧ p₁.live = p.live ∧ ∀ v v', Kept excp (p₁.task t) v →
    Unchanged excp v v' → Restored excp (p.task t) v'
  := by
  cases excp with
  | intr =>
    cases hl
    cases h with
    | @interrupt u k hu hk =>
      obtain rfl : t = u := Mode.user.inj (hmode.symm.trans hu)
      exact ⟨rfl, Function.update_self _ _ _, rfl, fun v v' hv hv' => Eq.trans hv' hv⟩
  | sysc =>
    obtain ⟨imm, rfl⟩ := hl
    cases h with
    | @syscall u k imm label r hu hlabel hk hargs =>
      obtain rfl : t = u := Mode.user.inj (hmode.symm.trans hu)
      refine ⟨rfl, Function.update_self _ _ _, rfl, ?_⟩
      rintro v v' ⟨r', rfl⟩ ⟨hpc, hsp, hpstate, -, hhigh⟩
      dsimp only at hpc hsp hpstate hhigh
      rw [Function.update_self] at hpc hsp hpstate hhigh
      refine ⟨hpc, hsp, hpstate, ?_⟩
      intro i hi
      rw [hhigh i hi, sameHigh_afterCall _ _ i hi]
      exact sameHigh_afterCall _ _ i hi

/-- Where the kernel goes on. -/
theorem Private.Step.ends (h : Private.Step sym p l p₁) (hl : l ≠ .user)
    (hmode : p.mode = .user t) :
  p₁.mode = .kernel ∧ ∃ a, Returns p.kernel p₁.kernel a ∧
    match l with
    | .interrupt => a = sym.kIntrHandler
    | .syscall imm => dispatch sym (p.kernel.x linkreg) imm.toNat = some a
        ∧ ∀ r : Reg, r ≤ 8 → p₁.kernel.x r = (p.task t).x r
    | _ => True
  := by
  cases h with
  | user => exact absurd rfl hl
  | interrupt hu hk => exact ⟨rfl, _, hk, rfl⟩
  | @syscall u k imm label r hu hlabel hk hargs =>
    obtain rfl : t = u := Mode.user.inj (hmode.symm.trans hu)
    exact ⟨rfl, label, hk, hlabel, hargs⟩
  | kernel hk => cases hk.symm.trans hmode
  | resume hk => cases hk.symm.trans hmode

/-- A task whose turn has ended finds what it left when it goes on. -/
theorem Private.resumes (hmode : p.mode = .user t) (ht : t ∈ p.live)
    (hleave : Private.Step sym p l p₁) (hl : l.Leaves excp)
    (hrun : Trace (fun p l p' => Private.Step sym p l p' ∧ t ∈ p'.live ∧ l ≠ .resume t) p₁ ls p₂)
    (hres : Private.Step sym p₂ (.resume t) p₃) :
  Restored excp (p.task t) (p₃.task t)
  := by
  obtain ⟨hkernel, hcall, hlive, hrestored⟩ := hleave.leaves hl hmode
  have hwait : t ∈ p₂.live ∧ p₂.mode ≠ .user t ∧ p₂.call t = excp
      ∧ Kept excp (p₁.task t) (p₂.task t) := by
    apply hrun.invariant (I := fun p => t ∈ p.live ∧ p.mode ≠ .user t ∧ p.call t = excp
      ∧ Kept excp (p₁.task t) (p.task t))
    · rintro q a q' ⟨hq, hne, hcall, hkept⟩ ⟨hstep, hlive', hl'⟩
      obtain ⟨hne', hcall', hkept'⟩ := hstep.waits hq hlive' hl' hne
      rw [hcall] at hcall' hkept'
      exact ⟨hlive', hne', hcall', hkept.trans hkept'⟩
    · exact ⟨hlive ▸ ht, by rw [hkernel]; exact nofun, hcall, Kept.refl _ _⟩
  obtain ⟨-, -, hcall₂, hkept⟩ := hwait
  cases hres with
  | @resume u v hk hu hv =>
    rw [hcall₂] at hv
    dsimp only
    rw [Function.update_self]
    exact hrestored _ _ hkept hv

/-- The one processor does what the many do, along every run, and no handler gets stuck. -/
theorem Stands.processors (himg : Image sym code) (h : Stands code L c p)
    (hrun : Trace (Config.Step code sym L) c ls c₁) :
  (∃ p₁, Trace (Private.Step sym) p ls p₁ ∧ Stands code L c₁ p₁)
    ∧ (∀ t, c₁.mode = .user t → HasRoom L t c₁.state.spEl0 .intr →
        ∃ c₂, Config.Step code sym L c₁ .interrupt c₂)
    ∧ (∀ t imm, c₁.mode = .user t → HasRoom L t c₁.state.spEl0 .sysc →
        imm.toNat < (handlerFuncTabl sym).length →
        ∃ c₂, Config.Step code sym L c₁ (.syscall imm) c₂)
    ∧ ∀ t ∈ c₁.live, c₁.mode = .kernel → Calls code sym L t c₁.state →
        ∃ c₂, Config.Step code sym L c₁ (.resume t) c₂
  := by
  obtain ⟨p₁, htrace, h₁⟩ := (simulates himg).trace h hrun
  refine ⟨⟨p₁, htrace, h₁⟩, ?_, ?_, ?_⟩
  · intro t hmode hroom
    obtain ⟨s, hs, -⟩ := h₁.interrupt himg hmode hroom
    exact ⟨_, .interrupt hmode hroom hs⟩
  · intro t imm hmode hroom himm
    obtain ⟨s, hs, -⟩ := h₁.syscall himg hmode hroom himm
    exact ⟨_, .syscall hmode hroom himm hs⟩
  · intro t ht hmode hcalls
    obtain ⟨s, hs, -⟩ := h₁.resume himg hmode ht hcalls
    exact ⟨_, .resume hmode ht hcalls hs⟩

/-- A task that is preempted goes on as if nothing had happened, and one that has made a system
call as if a function had returned, whatever the tasks and the kernel do in between. -/
theorem Stands.contextRestored (himg : Image sym code) (h : Stands code L c p)
    (hmode : c.mode = .user t) (hleave : Config.Step code sym L c l c₁) (hl : l.Leaves excp)
    (hrun : Trace (fun c l c' => Config.Step code sym L c l c' ∧ t ∈ c'.live ∧ l ≠ .resume t)
      c₁ ls c₂)
    (hres : Config.Step code sym L c₂ (.resume t) c₃) :
  Restored excp c.state.view c₃.state.view
  := by
  obtain ⟨ht, hrun₀⟩ := h.user t hmode
  obtain ⟨p₁, hleave', h₁⟩ := simulates himg _ _ _ _ h hleave
  have hsim : Simulates (fun c l c' => Config.Step code sym L c l c' ∧ t ∈ c'.live ∧ l ≠ .resume t)
      (fun p l p' => Private.Step sym p l p' ∧ t ∈ p'.live ∧ l ≠ .resume t) (Stands code L) :=
    (simulates himg).and fun _ _ _ _ _ _ h' hP => ⟨h'.live ▸ hP.1, hP.2⟩
  obtain ⟨p₂, hrun', h₂⟩ := hsim.trace h₁ hrun
  obtain ⟨p₃, hres', h₃⟩ := simulates himg _ _ _ _ h₂ hres
  have hview₃ : c₃.state.view = p₃.task t := by
    have hmode₃ : c₃.mode = .user t := by
      cases hres
      rfl
    exact (h₃.user t hmode₃).2.view
  rw [hrun₀.view, hview₃]
  exact Private.resumes (h.mode.trans hmode) (h.live ▸ ht) hleave' hl hrun' hres'

/-- For the kernel a turn of a task is a call of a function, whatever the task does: it goes on in
a handler with the registers that a function keeps, and the handler of a system call has the
arguments of the task. -/
theorem Stands.turnReturns (himg : Image sym code) (h : Stands code L c p)
    (hres : Config.Step code sym L c (.resume t) c₁)
    (hrun : Trace (fun c l c' => Config.Step code sym L c l c' ∧ l = .user) c₁ ls c₂)
    (hleave : Config.Step code sym L c₂ l c₃) (hl : l ≠ .user) :
  SameHigh c.state.x c₃.state.x ∧ c₃.state.spEl1 = c.state.spEl1
    ∧ (l = .interrupt → c₃.state.pc = sym.kIntrHandler)
    ∧ ∀ imm, l = .syscall imm → dispatch sym (c.state.x linkreg) imm.toNat = some c₃.state.pc
      ∧ ∀ r : Reg, r ≤ 8 → c₃.state.x r = c₂.state.x r
  := by
  obtain ⟨p₁, hres', h₁⟩ := simulates himg _ _ _ _ h hres
  have hsim : Simulates (fun c l c' => Config.Step code sym L c l c' ∧ l = .user)
      (fun p l p' => Private.Step sym p l p' ∧ l = .user) (Stands code L) :=
    (simulates himg).and fun _ _ _ _ _ _ _ hP => hP
  obtain ⟨p₂, hrun', h₂⟩ := hsim.trace h₁ hrun
  obtain ⟨p₃, hleave', h₃⟩ := simulates himg _ _ _ _ h₂ hleave
  obtain ⟨hmode₁, hkernel₁⟩ : p₁.mode = .user t ∧ p₁.kernel = p.kernel := by
    cases hres'
    exact ⟨rfl, rfl⟩
  obtain ⟨hmode₂, hkernel₂⟩ : p₂.mode = .user t ∧ p₂.kernel = p.kernel := by
    apply hrun'.invariant (I := fun q => q.mode = .user t ∧ q.kernel = p.kernel)
    · rintro q a q' hq ⟨hstep, rfl⟩
      cases hstep
      exact hq
    · exact ⟨hmode₁, hkernel₁⟩
  have hkernel : p.kernel = ⟨c.state.x, c.state.spEl1, c.state.pc, c.state.pstate⟩ := by
    cases hres with
    | resume hmode => exact (h.kernel hmode).2
  have hview : c₂.state.view = p₂.task t := (h₂.user t (h₂.mode ▸ hmode₂)).2.view
  obtain ⟨hmode₃, a, hreturns, hentry⟩ := hleave'.ends hl hmode₂
  have hkernel₃ := (h₃.kernel (h₃.mode ▸ hmode₃)).2
  rw [hkernel₂, hkernel₃, hkernel] at hreturns
  refine ⟨hreturns.high, hreturns.sp, ?_, ?_⟩
  · rintro rfl
    exact hreturns.pc.trans hentry
  · rintro imm rfl
    obtain ⟨hdispatch, hargs⟩ := hentry
    rw [hkernel₂, hkernel] at hdispatch
    rw [hkernel₃, ← hview] at hargs
    exact ⟨hdispatch.trans (congrArg some hreturns.pc.symm), hargs⟩

end Runs

/-! ### A task that is preempted -/

namespace Sample

def symbols : Symbols where
  exceptionVectorEl1 := 0x80000
  handlerFuncTabl := 0x90000
  kernelIntoUser := 0xA0000
  kIntrHandler := 0xB0000
  printDebug := 0xB1000
  assertFail := 0xB2000
  handler _ := 0xC0000

def code : Code :=
  place symbols.exceptionVectorEl1 (exceptionVectorEl1 symbols)
    (place symbols.handlerFuncTabl (handlerFuncTabl symbols)
      (place symbols.kernelIntoUser kernelIntoUser fun _ => none))

theorem image :
  Image symbols code
  := by
  have hhandler : code 0xC0000 = none := by decide +kernel
  have hlow : Apart symbols.exceptionVectorEl1 (4 * (exceptionVectorEl1 symbols).length)
      symbols.handlerFuncTabl (4 * (handlerFuncTabl symbols).length) :=
    apart_of_le (by decide +kernel) (by decide +kernel)
  have hmiddle : Apart symbols.exceptionVectorEl1 (4 * (exceptionVectorEl1 symbols).length)
      symbols.kernelIntoUser (4 * kernelIntoUser.length) :=
    apart_of_le (by decide +kernel) (by decide +kernel)
  have hhigh : Apart symbols.handlerFuncTabl (4 * (handlerFuncTabl symbols).length)
      symbols.kernelIntoUser (4 * kernelIntoUser.length) :=
    apart_of_le (by decide +kernel) (by decide +kernel)
  constructor
  · decide +kernel
  · exact fun _ => hhandler
  · exact loaded_place (by decide +kernel)
  · exact (loaded_place (by decide +kernel)).place hlow.symm
  · exact ((loaded_place (by decide +kernel)).place hhigh.symm).place hmiddle.symm

def layout : Layout Unit where
  td _ := 0x1000
  stack _ := {a | 0x2000 ≤ a.toNat ∧ a.toNat < 0x3000}
  kernelStack := {a | 0x8000 ≤ a.toNat ∧ a.toNat < 0x9000}

/-- The word at `CUR_ACTIVE_TD_PTR` is `0x1000`, and the field `sp` of the descriptor there is
`0x2100`. -/
def memory : Memory :=
  .fresh fun a => if a = 0x7FF00001 then 0x10 else if a = 0x1009 then 0x21 else 0

/-- The kernel is about to start the task. -/
def config : Config Unit where
  state :=
    { x := fun _ => 0
      spEl0 := 0
      spEl1 := 0x9000
      pc := symbols.kernelIntoUser
      pstate := 0x3C5
      elr := 0
      spsr := 0
      esr := 0
      mem := memory }
  live := Set.univ
  mode := .kernel

def view : View where
  x _ := 0
  sp := 0x21F0
  pc := 0
  pstate := 0

def tasks : Private Unit where
  kernel := ⟨config.state.x, config.state.spEl1, config.state.pc, config.state.pstate⟩
  task _ := view
  call _ := .intr
  live := Set.univ
  mode := .kernel

theorem separate :
  layout.Separate Set.univ
  := by
  have hrecord : ∀ a, Within 0x1000 0x28 a ↔ 0x1000 ≤ a.toNat ∧ a.toNat < 0x1028 :=
    fun _ => within_iff (by decide)
  have hcur : ∀ a, Within curActiveTdPtr 8 a ↔ 0x7FF00000 ≤ a.toNat ∧ a.toNat < 0x7FF00008 :=
    fun _ => within_iff (by decide)
  constructor
  · exact fun t _ u _ hne => absurd rfl hne
  · rintro t - u - a ⟨ha, -⟩ ha'
    have hin := (hrecord a).mp ha'
    omega
  · rintro t - a ⟨-, ha⟩ ⟨ha', -⟩
    omega
  · rintro t - a ⟨-, ha⟩ ha'
    have hin := (hcur a).mp ha'
    omega
  · exact fun t _ u _ hne => absurd rfl hne
  · rintro t - a ⟨ha, -⟩ ha'
    have hin := (hrecord a).mp ha'
    omega
  · rintro a ⟨-, ha⟩ ha'
    have hin := (hcur a).mp ha'
    omega

theorem hasRoom (excp : Excp) :
  HasRoom layout () 0x21F0 excp
  := by
  intro a ha
  cases excp with
  | intr =>
    have hin := (within_iff (by decide)).mp ha
    have hbase : (0x21F0 - BitVec.ofNat 64 (frameSize .intr) : Addr).toNat = 0x2100 := rfl
    rw [hbase, show frameSize .intr = 240 from rfl] at hin
    exact ⟨by omega, by omega⟩
  | sysc =>
    have hin := (within_iff (by decide)).mp ha
    have hbase : (0x21F0 - BitVec.ofNat 64 (frameSize .sysc) : Addr).toNat = 0x2190 := rfl
    rw [hbase, show frameSize .sysc = 96 from rfl] at hin
    exact ⟨by omega, by omega⟩

theorem stands :
  Stands code layout config tasks
  := by
  refine ⟨rfl, rfl, separate, ?_, nofun, fun _ => ⟨by decide, rfl⟩⟩
  rintro ⟨⟩ - -
  refine ⟨?_, hasRoom .intr, rfl⟩
  constructor
  all_goals decide +kernel

theorem room :
  ∀ a, Within (0x9000 - 96 : Addr) 96 a → a ∈ layout.kernelStack
  := by
  intro a ha
  have hin := (within_iff (by decide)).mp ha
  have hbase : (0x9000 - 96 : Addr).toNat = 0x8FA0 := rfl
  rw [hbase] at hin
  exact ⟨by omega, by omega⟩

/-- The task is started. -/
theorem started :
  ∃ c p, Config.Step code symbols layout config (.resume ()) c ∧ Stands code layout c p
    ∧ c.mode = .user () ∧ c.state.view = view ∧ p.kernel = tasks.kernel
  := by
  have hcalls : Calls code symbols layout () config.state :=
    ⟨rfl, by decide +kernel, by decide +kernel, room⟩
  obtain ⟨s, hs, p, hstep, hp⟩ := stands.resume image rfl (Set.mem_univ ()) hcalls
  refine ⟨_, p, .resume rfl (Set.mem_univ ()) hcalls hs, hp, rfl, ?_, ?_⟩
  · have hview := (hp.user () rfl).2.view
    cases hstep with
    | @resume _ v hk hu hv =>
      dsimp only at hview
      rw [hview, Function.update_self]
      exact hv
  · cases hstep
    rfl

/-- The kernel chooses the task again. -/
theorem rescheduled {c : Config Unit} {p : Private Unit} (h : Stands code layout c p)
    (hmode : c.mode = .kernel) (hlive : c.live = Set.univ) (hsp : c.state.spEl1 = 0x9000) :
  ∃ c₁ c₂, Config.Step code symbols layout c .kernel c₁ ∧ () ∈ c₁.live
    ∧ Config.Step code symbols layout c₁ (.resume ()) c₂
  := by
  let s : State := { c.state with
    x := fun _ => 0, pc := symbols.kernelIntoUser, mem := store64 c.state.mem curActiveTdPtr 0x1000 }
  have hout : ∀ a, ¬ Within curActiveTdPtr 8 a → s.mem.byte a = c.state.mem.byte a :=
    fun a ha => store64_byte ha
  have hin : () ∈ c.live := hlive ▸ Set.mem_univ ()
  have haway := h.others () hin (by rw [hmode]; exact nofun)
  have hrecord : Apart 0x1000 0x28 curActiveTdPtr 8 :=
    apart_of_le (by decide) (by decide)
  have hspares : Spares c.state.mem s.mem (layout.td ()) := by
    constructor
    · intro a ha
      apply hout a (hrecord a _)
      rw [Within] at ha ⊢
      exact ha.trans (by decide)
    · exact fun _ => load64_congr fun a ha => hout a (hrecord a (ha.mono (by decide)))
    · intro a ha
      rw [haway.saved.excp_eq, haway.saved.sp] at ha
      exact hout a fun ha' => separate.stack_cur () (Set.mem_univ ()) a (haway.room a ha) ha'
  have hkernel : KernelStep symbols layout c.live c.live c.state s := by
    refine ⟨(h.kernel hmode).1, rfl, h.separate, fun _ _ _ => hspares, ?_⟩
    exact fun t ht ht' => absurd ht ht'
  have hstep : Config.Step code symbols layout c .kernel { c with state := s } :=
    .kernel hmode hkernel
  obtain ⟨p', -, hp'⟩ := simulates image _ _ _ _ h hstep
  have hlink : code 0 = none := by decide +kernel
  have hcalls : Calls code symbols layout () s := ⟨rfl, hlink, load64_store64 _ _ _, hsp ▸ room⟩
  obtain ⟨s', hs', -⟩ := hp'.resume image hmode hin hcalls
  exact ⟨_, _, hstep, hin, .resume hmode hin hcalls hs'⟩

/-- The task is preempted right after its start. -/
theorem preempted :
  ∃ c p c₁ p₁, Stands code layout c p ∧ c.mode = .user ()
    ∧ Config.Step code symbols layout c .interrupt c₁ ∧ Stands code layout c₁ p₁
    ∧ c₁.mode = .kernel ∧ c₁.live = Set.univ ∧ c₁.state.spEl1 = 0x9000
  := by
  obtain ⟨c, p, hstep, hp, hmode, hview, hkernel⟩ := started
  have hroom : HasRoom layout () c.state.spEl0 .intr := by
    rw [show c.state.spEl0 = 0x21F0 from congrArg View.sp hview]
    exact hasRoom .intr
  obtain ⟨s, hs, p₁, hstep₁, hp₁⟩ := hp.interrupt image hmode hroom
  refine ⟨c, p, _, p₁, hp, hmode, .interrupt hmode hroom hs, hp₁, rfl, ?_, ?_⟩
  · cases hstep
    rfl
  · have hk := (hp₁.kernel rfl).2
    cases hstep₁ with
    | interrupt hu hreturns =>
      have hsp := congrArg View.sp hk
      exact hsp.symm.trans (hreturns.sp.trans (congrArg View.sp hkernel))

end Sample

/-- The run that starts the task. -/
theorem Stands.processors_started :
  ∃ c, Trace (Config.Step Sample.code Sample.symbols Sample.layout) Sample.config [.resume ()] c
    ∧ (∃ p, Trace (Private.Step Sample.symbols) Sample.tasks [.resume ()] p
      ∧ Stands Sample.code Sample.layout c p)
    ∧ (∀ t, c.mode = .user t → HasRoom Sample.layout t c.state.spEl0 .intr →
        ∃ c₂, Config.Step Sample.code Sample.symbols Sample.layout c .interrupt c₂)
    ∧ (∀ t imm, c.mode = .user t → HasRoom Sample.layout t c.state.spEl0 .sysc →
        imm.toNat < (handlerFuncTabl Sample.symbols).length →
        ∃ c₂, Config.Step Sample.code Sample.symbols Sample.layout c (.syscall imm) c₂)
    ∧ ∀ t ∈ c.live, c.mode = .kernel → Calls Sample.code Sample.symbols Sample.layout t c.state →
        ∃ c₂, Config.Step Sample.code Sample.symbols Sample.layout c (.resume t) c₂
  := by
  obtain ⟨c, p, hstep, -⟩ := Sample.started
  have hrun : Trace (Config.Step Sample.code Sample.symbols Sample.layout) Sample.config
      [.resume ()] c := .cons hstep (.nil c)
  exact ⟨c, hrun, Stands.processors Sample.image Sample.stands hrun⟩

/-- The task is preempted and chosen again. -/
theorem Stands.contextRestored_preempted :
  ∃ c c₁ c₂ c₃ : Config Unit,
    Config.Step Sample.code Sample.symbols Sample.layout c .interrupt c₁
    ∧ Config.Step Sample.code Sample.symbols Sample.layout c₁ .kernel c₂
    ∧ Config.Step Sample.code Sample.symbols Sample.layout c₂ (.resume ()) c₃
    ∧ c₃.state.view = c.state.view
  := by
  obtain ⟨c, p, c₁, p₁, hp, hmode, hstep, hp₁, hmode₁, hlive, hsp⟩ := Sample.preempted
  obtain ⟨c₂, c₃, hkernel, hin, hresume⟩ := Sample.rescheduled hp₁ hmode₁ hlive hsp
  refine ⟨c, c₁, c₂, c₃, hstep, hkernel, hresume, ?_⟩
  have hrun : Trace (fun c l c' => Config.Step Sample.code Sample.symbols Sample.layout c l c'
      ∧ () ∈ c'.live ∧ l ≠ .resume ()) c₁ [.kernel] c₂ := .cons ⟨hkernel, hin, nofun⟩ (.nil c₂)
  have hleaves : Label.Leaves (.interrupt : Label Unit) .intr := rfl
  exact Stands.contextRestored Sample.image hp hmode hstep hleaves hrun hresume

/-- The turn of the task ends at once. -/
theorem Stands.turnReturns_preempted :
  ∃ c c₁ : Config Unit,
    Config.Step Sample.code Sample.symbols Sample.layout Sample.config (.resume ()) c
    ∧ Config.Step Sample.code Sample.symbols Sample.layout c .interrupt c₁
    ∧ SameHigh Sample.config.state.x c₁.state.x ∧ c₁.state.spEl1 = 0x9000
    ∧ c₁.state.pc = Sample.symbols.kIntrHandler
  := by
  obtain ⟨c, p, hstart, hp, hmode, hview, -⟩ := Sample.started
  have hroom : HasRoom Sample.layout () c.state.spEl0 .intr := by
    rw [show c.state.spEl0 = 0x21F0 from congrArg View.sp hview]
    exact Sample.hasRoom .intr
  obtain ⟨s, hs, -⟩ := hp.interrupt Sample.image hmode hroom
  have hleave : Config.Step Sample.code Sample.symbols Sample.layout c .interrupt _ :=
    .interrupt hmode hroom hs
  obtain ⟨hhigh, hsp, hpc, -⟩ :=
    Stands.turnReturns Sample.image Sample.stands hstart (.nil c) hleave nofun
  exact ⟨c, _, hstart, hleave, hhigh, hsp, hpc rfl⟩

end Switch
