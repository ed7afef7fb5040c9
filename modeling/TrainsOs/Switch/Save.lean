import TrainsOs.Switch.Basic

/-!
# What entry and exit do

`Saved m td v excp` says that the descriptor at `td` and the stack hold the state `v` of a
task: what it goes on with when `kernel_into_user` chooses it.
-/

namespace Switch

open Aarch64 State

variable {s s' : State} {m m' : Memory} {td : Addr} {v : View} {excp : Excp} {code : Code}
  {sym : Symbols} {r : Reg} {k : Reg → BitVec 64}

/-- The pairs of registers that an exception puts on the stack. -/
def pairs (excp : Excp) : List (Reg × Reg) :=
  if excp = .intr then lowPairs ++ highPairs else highPairs

/-- The size of the registers on the stack. -/
def frameSize (excp : Excp) : ℕ :=
  16 * (pairs excp).length

/-- The state of a task, in its descriptor and on its stack. -/
structure Saved (m : Memory) (td : Addr) (v : View) (excp : Excp) : Prop where
  pc : load64 m (td + 0x00) = v.pc
  sp : load64 m (td + 0x08) = v.sp - BitVec.ofNat 64 (frameSize excp)
  pstate : load64 m (td + 0x10) = v.pstate
  esr : load64 m (td + 0x18) = 0 ↔ excp = .intr
  x0 : load64 m (td + 0x20) = v.x 0
  frame : Holds m (v.sp - BitVec.ofNat 64 (frameSize excp)) ((regs (pairs excp).reverse).map v.x)

/-- The stack pointer of the kernel is above its registers `x19`, …, `x30`. -/
def KernelFrame (m : Memory) (sp : Addr) (k : Reg → BitVec 64) : Prop :=
  Holds m sp ((regs highPairs.reverse).map k)

theorem length_frame (excp : Excp) (x : Reg → BitVec 64) :
  8 * ((regs (pairs excp).reverse).map x).length = frameSize excp
  := by
  rw [List.length_map, length_regs, List.length_reverse, frameSize]
  omega

theorem frameSize_le (excp : Excp) :
  frameSize excp ≤ 2 ^ 64
  := by cases excp <;> decide

/-- How the turn of a task ended is in its descriptor. -/
theorem Saved.excp_eq (h : Saved m td v excp) :
  (if load64 m (td + 0x18) = 0 then Excp.intr else .sysc) = excp
  := by
  cases excp with
  | intr => exact if_pos (h.esr.mpr rfl)
  | sysc => exact if_neg fun heq => absurd (h.esr.mp heq) (by decide)

/-! ### Small steps -/

theorem exec_msrSpSel (h : s.AtEl1) (i : Bool) :
  exec (.msrSpSel i) s = some (s.setSpSel i).next
  := if_pos h

/-- `store_td`: `scratch0` is the descriptor afterwards. -/
theorem execBlock_storeTd (h : s.AtEl1) (htd : load64 s.mem curActiveTdPtr = td) (excp : Excp) :
  execBlock (storeTd excp) s
    = some { s with
        x := Function.update (Function.update s.x scratch0 td) scratch1 s.spsr
        pc := s.pc + BitVec.ofNat 64 (4 * (storeTd excp).length)
        mem := store64 (store64 (store64 s.mem (td + 0x00)
          (if excp = .intr then s.elr else s.x linkreg)) (td + 0x08) s.sp) (td + 0x10) s.spsr }
  := by
  rw [atEl1_iff] at h
  cases excp with
  | intr =>
    simp [storeTd, getTd, execBlock, exec, SysOk, atEl1_iff, h, setX, setMem, next, setPc, readSys,
      sp, spSel, htd, BitVec.add_assoc, scratch0, scratch1]
  | sysc =>
    simp [storeTd, getTd, execBlock, exec, SysOk, atEl1_iff, h, setX, setMem, next, setPc, readSys,
      sp, spSel, htd, BitVec.add_assoc, scratch0, scratch1, linkreg]

/-- `store_regs`. -/
theorem execBlock_storeRegs (h : s.AtEl1) (el : El) {ps : List (Reg × Reg)} {sp : Addr}
    (hps : ps = if el = .intr then lowPairs ++ highPairs else highPairs)
    (hsp : sp = (if el = .el1 then s.spEl1 else s.spEl0) - BitVec.ofNat 64 (16 * ps.length)) :
  ∃ m pc, execBlock (storeRegs el) s
      = some ((((s.setSpSel (el = .el1)).setMem m).setSp sp).setPc pc)
    ∧ Holds m sp ((regs ps.reverse).map s.x)
    ∧ ∀ a, ¬ Within sp (16 * ps.length) a → m.byte a = s.mem.byte a
  := by
  have hlen : 16 * ps.length ≤ 2 ^ 64 := by
    rw [hps]
    split <;> decide
  have hcur : (s.setSpSel (el = .el1)).next.sp = if el = .el1 then s.spEl1 else s.spEl0 := by
    have hsel : (s.setSpSel (el = .el1)).next.spSel = decide (el = .el1) := spSel_setSpSel s _
    rw [State.sp, hsel]
    by_cases hel : el = .el1
    · rw [if_pos hel, if_pos (decide_eq_true hel)]
      rfl
    · rw [if_neg hel, if_neg (by rw [decide_eq_false hel]; exact Bool.false_ne_true)]
      rfl
  obtain ⟨m, hm, hholds, hframe⟩ :=
    execBlock_pushes (s := (s.setSpSel (el = .el1)).next) hlen
  rw [hcur, ← hsp] at hm hholds hframe
  refine ⟨m, s.pc + 4 + BitVec.ofNat 64 (4 * ps.length), ?_, hholds, hframe⟩
  rw [storeRegs, ← hps, execBlock_cons (exec_msrSpSel h _), hm]
  rfl

/-- `extract_regs el1`. -/
theorem execBlock_extractRegsEl1 (h : s.AtEl1) (hk : KernelFrame s.mem s.spEl1 k) :
  ∃ x pc, execBlock extractRegsEl1 s
      = some { s.setSpSel true with x := x, spEl1 := s.spEl1 + 96, pc := pc }
    ∧ (∀ r ∈ regs highPairs, x r = k r) ∧ ∀ r ∉ regs highPairs, x r = s.x r
  := by
  let s₁ := (s.setSpSel true).next
  have hsel : s₁.spSel = true := spSel_setSpSel s true
  have hsp : s₁.sp = s.spEl1 := if_pos hsel
  have hk' : Holds s₁.mem s₁.sp ((regs highPairs.reverse).map k) := hsp ▸ hk
  obtain ⟨x, hx, hin, hout⟩ := execBlock_pops hk'
  have hmem : ∀ r, r ∈ regs highPairs.reverse ↔ r ∈ regs highPairs := by decide
  refine ⟨x, s.pc + 4 + BitVec.ofNat 64 (4 * highPairs.reverse.length), ?_,
    fun r hr => hin r ((hmem r).mpr hr), fun r hr => hout r (hr ∘ (hmem r).mp)⟩
  rw [extractRegsEl1, execBlock_cons (exec_msrSpSel h _), hx, hsp]
  exact congrArg (fun t => some (State.setPc t _)) (setSp_el1 (s := { s₁ with x := x }) hsel _)

/-! ### The fields of a descriptor -/

section Fields

variable {a d d' : Addr} {w : BitVec 64}

theorem load64_store64_field (h : d.toNat + 8 ≤ d'.toNat ∨ d'.toNat + 8 ≤ d.toNat)
    (hd : d.toNat ≤ 0x20) (hd' : d'.toNat ≤ 0x20) :
  load64 (store64 m (td + d) w) (td + d') = load64 m (td + d')
  := by
  apply load64_store64_of_apart
  obtain h | h := h
  · exact apart_add h (by omega)
  · exact (apart_add h (by omega)).symm

theorem store64_field_byte (hd : d.toNat ≤ 0x20) (ha : ¬ Within td 0x28 a) :
  (store64 m (td + d) w).byte a = m.byte a
  := store64_byte fun h => ha (h.mono (by omega))

end Fields

/-! ### Entry -/

/-- Both handlers begin alike. -/
theorem execBlock_entry (h : s.AtEl1) (htd : load64 s.mem curActiveTdPtr = td) (excp : Excp)
    {frame : Addr} (hframe : frame = s.spEl0 - BitVec.ofNat 64 (frameSize excp))
    (hcur : Apart frame (frameSize excp) curActiveTdPtr 8)
    (hapart : Apart frame (frameSize excp) td 0x28) :
  ∃ s', execBlock (storeRegs (if excp = .intr then .intr else .el0) ++ storeTd excp) s = some s'
    ∧ s'.AtEl1 ∧ s'.spEl0 = frame ∧ s'.spEl1 = s.spEl1 ∧ s'.esr = s.esr
    ∧ s'.x scratch0 = td ∧ (∀ r, r ≠ scratch0 → r ≠ scratch1 → s'.x r = s.x r)
    ∧ load64 s'.mem (td + 0x00) = (if excp = .intr then s.elr else s.x linkreg)
    ∧ load64 s'.mem (td + 0x08) = frame
    ∧ load64 s'.mem (td + 0x10) = s.spsr
    ∧ load64 s'.mem (td + 0x20) = load64 s.mem (td + 0x20)
    ∧ Holds s'.mem frame ((regs (pairs excp).reverse).map s.x)
    ∧ ∀ a, ¬ Within frame (frameSize excp) a → ¬ Within td 0x28 a →
        s'.mem.byte a = s.mem.byte a
  := by
  have hel : (if excp = .intr then El.intr else .el0) ≠ .el1 := by cases excp <;> decide
  have hpairs : pairs excp = if (if excp = .intr then El.intr else .el0) = .intr
      then lowPairs ++ highPairs else highPairs := by
    cases excp <;> rfl
  have hsp : frame = (if (if excp = .intr then El.intr else .el0) = .el1 then s.spEl1 else s.spEl0)
      - BitVec.ofNat 64 (16 * (pairs excp).length) := by
    rw [if_neg hel]
    exact hframe
  obtain ⟨m, pc, hm, hholds, hout⟩ := execBlock_storeRegs h _ hpairs hsp
  rw [decide_eq_false hel] at hm
  have hsel : ((s.setSpSel false).setMem m).spSel = false := spSel_setSpSel s false
  rw [setSp_el0 hsel] at hm
  let s₁ := State.setPc { (s.setSpSel false).setMem m with spEl0 := frame } pc
  have hload : load64 m curActiveTdPtr = td := by
    rw [← htd]
    exact load64_congr fun x hx => hout x fun hx' => hcur x hx' hx
  have hfield : load64 m (td + 0x20) = load64 s.mem (td + 0x20) :=
    load64_congr fun x hx => hout x fun hx' => hapart x hx' (hx.mono (by decide))
  have hsp : s₁.sp = frame := by
    rw [State.sp, show s₁.spSel = false from hsel]
    rfl
  have hstore := execBlock_storeTd (s := s₁) (atEl1_setSpSel h false) hload excp
  rw [hsp] at hstore
  rw [execBlock_append, hm]
  refine ⟨_, hstore, atEl1_setSpSel h false, rfl, rfl, rfl, ?_, ?_, ?_, ?_, ?_, ?_, ?_, ?_⟩
  · have hne : scratch0 ≠ scratch1 := by decide
    change Function.update (Function.update s₁.x scratch0 td) scratch1 s₁.spsr scratch0 = td
    rw [Function.update_of_ne hne, Function.update_self]
  · intro r hr hr'
    exact (Function.update_of_ne hr' _ _).trans (Function.update_of_ne hr _ _)
  · simp (disch := decide) only [load64_store64_field, load64_store64]
    rfl
  · simp (disch := decide) only [load64_store64_field, load64_store64]
  · simp (disch := decide) only [load64_store64]
    rfl
  · simp (disch := decide) only [load64_store64_field]
    exact hfield
  · apply hholds.congr (m := m)
    · rw [length_frame]
      exact frameSize_le excp
    · intro x hx
      rw [length_frame] at hx
      have hout := fun d w m hd => store64_field_byte (d := d) (m := m) (w := w) hd (hapart x hx)
      simp (disch := decide) only [hout]
      rfl
  · intro a ha ha'
    have hfield := fun d w m hd => store64_field_byte (d := d) (m := m) (w := w) hd ha'
    simp (disch := decide) only [hfield]
    exact hout a ha

/-- The kernel goes on with its registers `x19`, …, `x30`, and the memory is as before but for
the frame and the descriptor. -/
structure Entered (s s' : State) (td frame : Addr) (excp : Excp) (k : Reg → BitVec 64) :
    Prop where
  atEl1 : s'.AtEl1
  spSel : s'.spSel = true
  spEl0 : s'.spEl0 = frame
  spEl1 : s'.spEl1 = s.spEl1 + 96
  high : ∀ r ∈ regs highPairs, s'.x r = k r
  mem : ∀ a, ¬ Within frame (frameSize excp) a → ¬ Within td 0x28 a →
    s'.mem.byte a = s.mem.byte a

/-- What must not overlap when an exception is taken. -/
structure Roomy (s : State) (td frame : Addr) (excp : Excp) : Prop where
  cur : Apart frame (frameSize excp) curActiveTdPtr 8
  descr : Apart frame (frameSize excp) td 0x28
  stack : Apart frame (frameSize excp) s.spEl1 96
  record : Apart td 0x28 s.spEl1 96

theorem KernelFrame.congr {sp : Addr} (h : KernelFrame m sp k)
    (heq : ∀ a, Within sp 96 a → m'.byte a = m.byte a) :
  KernelFrame m' sp k
  := Holds.congr h (by rw [List.length_map]; decide) (by rwa [List.length_map])

/-- Both handlers end alike, when nothing but the frame and the descriptor have been written. -/
theorem execBlock_leave {s₂ : State} {frame : Addr} (h : s₂.AtEl1) (hsp0 : s₂.spEl0 = frame)
    (hsp1 : s₂.spEl1 = s.spEl1)
    (hout : ∀ a, ¬ Within frame (frameSize excp) a → ¬ Within td 0x28 a →
      s₂.mem.byte a = s.mem.byte a)
    (hroom : Roomy s td frame excp) (hk : KernelFrame s.mem s.spEl1 k) :
  ∃ s', execBlock extractRegsEl1 s₂ = some s' ∧ Entered s s' td frame excp k
    ∧ s'.mem = s₂.mem ∧ ∀ r ∉ regs highPairs, s'.x r = s₂.x r
  := by
  have hk₂ : KernelFrame s₂.mem s₂.spEl1 k := by
    rw [hsp1]
    apply hk.congr
    intro a ha
    exact hout a (fun h' => hroom.stack a h' ha) fun h' => hroom.record a h' ha
  obtain ⟨x, pc, hblock, hhigh, hlow⟩ := execBlock_extractRegsEl1 h hk₂
  refine ⟨_, hblock, ?_, rfl, hlow⟩
  constructor
  · exact atEl1_iff.mpr (atEl1_iff.mp (atEl1_setSpSel h true))
  · exact spSel_setSpSel s₂ true
  · exact hsp0
  · exact congrArg (· + 96) hsp1
  · exact hhigh
  · exact hout

/-- `interrupt_handler`. -/
theorem interruptHandler_spec (himg : Image sym code)
    (hpc : s.pc = sym.exceptionVectorEl1 + 0x480) (h : s.AtEl1)
    (htd : load64 s.mem curActiveTdPtr = td) {frame : Addr}
    (hframe : frame = s.spEl0 - BitVec.ofNat 64 (frameSize .intr)) (hroom : Roomy s td frame .intr)
    (hk : KernelFrame s.mem s.spEl1 k) :
  ∃ s', Steps code s s' ∧ s'.pc = sym.kIntrHandler ∧ Entered s s' td frame .intr k
    ∧ Saved s'.mem td ⟨s.x, s.spEl0, s.elr, s.spsr⟩ .intr
  := by
  obtain ⟨s₁, hblock, hel1, hsp0, hsp1, -, hx0, hx, hfpc, hfsp, hfpstate, -, hholds, hout⟩ :=
    execBlock_entry h htd .intr hframe hroom.cur hroom.descr
  obtain ⟨m, hm⟩ : ∃ m, m = store64 (store64 s₁.mem (td + 0x20) (s.x 0)) (td + 0x18) 0 := ⟨_, rfl⟩
  let s₂ := (s₁.setMem m).setPc (s₁.pc + 4 + 4)
  have hblock₂ : execBlock [.str (some 0) scratch0 0x20, .str none scratch0 0x18] s₁ = some s₂ := by
    simp [execBlock, exec, setMem, next, setPc, hx0, hx 0 (by decide) (by decide), s₂, hm]
  have hout₂ : ∀ a, ¬ Within td 0x28 a → m.byte a = s₁.mem.byte a := by
    intro a ha
    rw [hm]
    exact (store64_field_byte (by decide) ha).trans (store64_field_byte (by decide) ha)
  have hel₂ : s₂.AtEl1 := hel1
  obtain ⟨s₃, hblock₃, hentered, hmem, -⟩ := execBlock_leave hel₂ hsp0 hsp1
    (fun a ha ha' => (hout₂ a ha').trans (hout a ha ha')) hroom hk
  have hall : execBlock (storeRegs .intr ++ storeTd .intr
      ++ ([.str (some 0) scratch0 0x20, .str none scratch0 0x18] ++ extractRegsEl1)) s = some s₃ := by
    have hentry : execBlock (storeRegs .intr ++ storeTd .intr) s = some s₁ := hblock
    rw [execBlock_append, hentry, Option.bind_some, execBlock_append, hblock₂, Option.bind_some,
      hblock₃]
  have hloaded := loaded_append.mp himg.entries.2
  rw [← hpc] at hloaded
  obtain ⟨hsteps, hpc'⟩ := steps_block h hloaded.1 rfl hall
  refine ⟨s₃.setPc sym.kIntrHandler, hsteps.trans (steps_exec (i := .b sym.kIntrHandler)
    hentered.atEl1 ?_ rfl), rfl, ?_, ?_⟩
  · rw [hpc']
    exact hloaded.2.1
  · exact ⟨hentered.atEl1, hentered.spSel, hentered.spEl0, hentered.spEl1, hentered.high,
      hentered.mem⟩
  · rw [show (s₃.setPc sym.kIntrHandler).mem = s₃.mem from rfl, hmem]
    change Saved m td _ _
    constructor
    · simp (disch := decide) only [hm, load64_store64_field]
      exact hfpc
    · simp (disch := decide) only [hm, load64_store64_field]
      exact hfsp.trans hframe
    · simp (disch := decide) only [hm, load64_store64_field]
      exact hfpstate
    · simp only [hm, load64_store64]
    · simp (disch := decide) only [hm, load64_store64_field, load64_store64]
    · rw [← hframe]
      apply hholds.congr
      · rw [length_frame]
        exact frameSize_le .intr
      · intro a ha
        rw [length_frame] at ha
        exact hout₂ a (hroom.descr a ha)

/-- The number of the system call in the syndrome. -/
theorem svcSyndrome_number (imm : BitVec 16) :
  ((svcSyndrome imm).extractLsb' 0 25).setWidth 64 <<< 2 = BitVec.ofNat 64 (4 * imm.toNat)
  := by
  have hnumber : (svcSyndrome imm).extractLsb' 0 25 = imm.setWidth 25 := by
    rw [svcSyndrome, BitVec.extractLsb'_or,
      show (0x56000000 : BitVec 64).extractLsb' 0 25 = 0 from by decide]
    ext i hi
    simp
    omega
  have himm := imm.isLt
  apply BitVec.eq_of_toNat_eq
  rw [hnumber, BitVec.toNat_shiftLeft, BitVec.toNat_setWidth, BitVec.toNat_setWidth,
    BitVec.toNat_ofNat, Nat.shiftLeft_eq]
  omega

theorem svcSyndrome_ne_zero (imm : BitVec 16) :
  svcSyndrome imm ≠ 0
  := by
  intro h
  have hbit := congrArg (BitVec.getLsbD · 26) h
  simp [svcSyndrome] at hbit

/-- The address of the entry of the table is in `local0`. -/
theorem execBlock_number {imm : BitVec 16} (h : s.x local0 = svcSyndrome imm) :
  ∃ x pc, execBlock [.ubfx local0 local0 0 25, .lsl local0 local0 2,
      .adr local1 sym.handlerFuncTabl, .add local0 local0 local1] s
        = some { s with x := x, pc := pc }
    ∧ x local0 = sym.handlerFuncTabl + BitVec.ofNat 64 (4 * imm.toNat)
    ∧ ∀ r, r ≠ local0 → r ≠ local1 → x r = s.x r
  := by
  refine ⟨_, s.pc + 4 + 4 + 4 + 4, rfl, ?_, ?_⟩
  · simp [setX, next, setPc, h, local0, local1]
    rw [svcSyndrome_number, BitVec.add_comm]
  · intro r hr hr'
    simp [setX, next, setPc, hr, hr']

/-- The entry of the table that a system call leads to. -/
theorem steps_dispatch (himg : Image sym code) (hs : s.AtEl1) {i : ℕ} {a : Addr}
    (hpc : s.pc = sym.handlerFuncTabl + BitVec.ofNat 64 (4 * i))
    (ha : dispatch sym (s.x linkreg) i = some a) :
  Steps code s (s.setPc a)
  := by
  obtain ⟨instr, hget, htarget⟩ := Option.bind_eq_some_iff.mp ha
  have hcode : code s.pc = some instr := hpc ▸ himg.table.get hget
  cases instr with
  | b | ret =>
    cases htarget
    exact steps_exec hs hcode rfl
  | _ => cases htarget

/-- The registers of a task that makes a system call when it goes on: `x0` is what the kernel
puts into the descriptor. -/
def afterCall (x : Reg → BitVec 64) (retval : BitVec 64) : Reg → BitVec 64 :=
  Function.update x 0 retval

theorem map_afterCall (x : Reg → BitVec 64) (retval : BitVec 64) :
  (regs (pairs .sysc).reverse).map (afterCall x retval) = (regs (pairs .sysc).reverse).map x
  := by
  have hregs : ∀ r ∈ regs (pairs .sysc).reverse, r ≠ 0 := by decide
  apply List.map_congr_left
  intro r hr
  exact Function.update_of_ne (hregs r hr) _ _

/-- `syscall_handler`. -/
theorem syscallHandler_spec (himg : Image sym code)
    (hpc : s.pc = sym.exceptionVectorEl1 + 0x400) (h : s.AtEl1) {imm : BitVec 16}
    (hesr : s.esr = svcSyndrome imm) {label : Addr}
    (hlabel : dispatch sym (k linkreg) imm.toNat = some label)
    (htd : load64 s.mem curActiveTdPtr = td) {frame : Addr}
    (hframe : frame = s.spEl0 - BitVec.ofNat 64 (frameSize .sysc)) (hroom : Roomy s td frame .sysc)
    (hk : KernelFrame s.mem s.spEl1 k) :
  ∃ s', Steps code s s' ∧ s'.pc = label ∧ Entered s s' td frame .sysc k
    ∧ Saved s'.mem td ⟨afterCall s.x (load64 s.mem (td + 0x20)), s.spEl0, s.x linkreg, s.spsr⟩ .sysc
    ∧ ∀ r : Reg, r ≤ 8 → s'.x r = s.x r
  := by
  obtain ⟨s₁, hblock, hel1, hsp0, hsp1, hesr₁, hx0, hx, hfpc, hfsp, hfpstate, hret, hholds, hout⟩ :=
    execBlock_entry h htd .sysc hframe hroom.cur hroom.descr
  obtain ⟨m, hm⟩ : ∃ m, m = store64 s₁.mem (td + 0x18) s.esr := ⟨_, rfl⟩
  let s₂ := ((s₁.setX local0 s.esr).setMem m).setPc (s₁.pc + 4 + 4)
  have hblock₂ : execBlock [.mrs local0 .esr, .str local0 scratch0 0x18] s₁ = some s₂ := by
    rw [atEl1_iff] at hel1
    simp [execBlock, exec, setMem, next, setPc, setX, SysOk, atEl1_iff, hel1, readSys, hesr₁, hx0,
      s₂, hm, local0, scratch0]
  have hout₂ : ∀ a, ¬ Within td 0x28 a → m.byte a = s₁.mem.byte a := by
    intro a ha
    rw [hm]
    exact store64_field_byte (by decide) ha
  have hel₂ : s₂.AtEl1 := hel1
  obtain ⟨s₃, hblock₃, hentered, hmem, hlow⟩ := execBlock_leave hel₂ hsp0 hsp1
    (fun a ha ha' => (hout₂ a ha').trans (hout a ha ha')) hroom hk
  have hnumber : s₃.x local0 = svcSyndrome imm := by
    rw [hlow local0 (by decide), ← hesr]
    change Function.update s₁.x local0 s.esr local0 = s.esr
    exact Function.update_self _ _ _
  obtain ⟨x, pc, hblock₄, haddr, hargs⟩ := execBlock_number hnumber
  have hall : execBlock (storeRegs .el0 ++ storeTd .sysc
      ++ ([.mrs local0 .esr, .str local0 scratch0 0x18] ++ (extractRegsEl1
      ++ [.ubfx local0 local0 0 25, .lsl local0 local0 2, .adr local1 sym.handlerFuncTabl,
        .add local0 local0 local1]))) s = some { s₃ with x := x, pc := pc } := by
    have hentry : execBlock (storeRegs .el0 ++ storeTd .sysc) s = some s₁ := hblock
    rw [execBlock_append, hentry, Option.bind_some, execBlock_append, hblock₂, Option.bind_some,
      execBlock_append, hblock₃, Option.bind_some, hblock₄]
  have hloaded := loaded_append.mp himg.entries.1
  rw [← hpc] at hloaded
  obtain ⟨hsteps, hpc'⟩ := steps_block h hloaded.1 rfl hall
  let s₄ := { s₃ with x := x, pc := x local0 }
  have hbr : Steps code { s₃ with x := x, pc := pc } s₄ := by
    refine steps_exec (i := .br local0) hentered.atEl1 ?_ rfl
    rw [hpc']
    exact hloaded.2.1
  have hlink : s₄.x linkreg = k linkreg :=
    (hargs linkreg (by decide) (by decide)).trans (hentered.high linkreg (by decide))
  have htable : Steps code s₄ (s₄.setPc label) :=
    steps_dispatch (s := s₄) himg hentered.atEl1 haddr (hlink ▸ hlabel)
  refine ⟨_, hsteps.trans (hbr.trans htable), rfl, ?_, ?_, ?_⟩
  · constructor
    · exact hentered.atEl1
    · exact hentered.spSel
    · exact hentered.spEl0
    · exact hentered.spEl1
    · intro r hr
      have hne : r ≠ local0 ∧ r ≠ local1 := by
        constructor <;> rintro rfl <;> revert hr <;> decide
      exact (hargs r hne.1 hne.2).trans (hentered.high r hr)
    · exact hentered.mem
  · rw [show (s₄.setPc label).mem = s₃.mem from rfl, hmem]
    change Saved m td _ _
    constructor
    · simp (disch := decide) only [hm, load64_store64_field]
      exact hfpc
    · simp (disch := decide) only [hm, load64_store64_field]
      exact hfsp.trans hframe
    · simp (disch := decide) only [hm, load64_store64_field]
      exact hfpstate
    · rw [hm, load64_store64, hesr]
      exact iff_of_false (svcSyndrome_ne_zero imm) (by decide)
    · simp (disch := decide) only [hm, load64_store64_field]
      exact hret
    · rw [← hframe, map_afterCall]
      apply hholds.congr
      · rw [length_frame]
        exact frameSize_le .sysc
      · intro a ha
        rw [length_frame] at ha
        exact hout₂ a (hroom.descr a ha)
  · intro r hr
    have hne : r ≠ local0 ∧ r ≠ local1 ∧ r ≠ scratch0 ∧ r ≠ scratch1 ∧ r ∉ regs highPairs := by
      revert r
      decide
    obtain ⟨hne, hne', hscratch, hscratch', hhigh⟩ := hne
    calc s₄.x r
      _ = s₃.x r := hargs r hne hne'
      _ = s₂.x r := hlow r hhigh
      _ = s₁.x r := Function.update_of_ne hne _ _
      _ = s.x r := hx r hscratch hscratch'

/-! ### Exit -/

/-- What the registers of a task are when it goes on: all of them after an interrupt, and those
that a call has to keep after a system call. -/
structure Resumed (s : State) (v : View) (excp : Excp) : Prop where
  pc : s.pc = v.pc
  sp : s.spEl0 = v.sp
  pstate : s.pstate = v.pstate
  x0 : s.x 0 = v.x 0
  high : ∀ r ∈ regs highPairs, s.x r = v.x r
  low : excp = .intr → ∀ r ∈ regs lowPairs, s.x r = v.x r

/-- What is saved depends on the descriptor and on the frame only. -/
theorem Saved.congr (h : Saved m td v excp)
    (htd : ∀ a, Within td 0x28 a → m'.byte a = m.byte a)
    (hframe : ∀ a, Within (v.sp - BitVec.ofNat 64 (frameSize excp)) (frameSize excp) a →
      m'.byte a = m.byte a) :
  Saved m' td v excp
  := by
  have hfield : ∀ d : Addr, d.toNat ≤ 0x20 → load64 m' (td + d) = load64 m (td + d) := by
    intro d hd
    exact load64_congr fun x hx => htd x (hx.mono (by omega))
  constructor
  · exact (hfield _ (by decide)).trans h.pc
  · exact (hfield _ (by decide)).trans h.sp
  · exact (hfield _ (by decide)).trans h.pstate
  · rw [hfield _ (by decide)]
    exact h.esr
  · exact (hfield _ (by decide)).trans h.x0
  · apply h.frame.congr
    · rw [length_frame]
      exact frameSize_le excp
    · rw [length_frame]
      exact hframe

/-- `extract_td`. -/
theorem execBlock_extractTd (h : s.AtEl1) (hsel : s.spSel = true)
    (htd : load64 s.mem curActiveTdPtr = td) :
  execBlock extractTd s
    = some { s with
        x := Function.update (Function.update s.x scratch0 td) scratch1 (load64 s.mem (td + 0x10))
        pc := s.pc + BitVec.ofNat 64 (4 * extractTd.length)
        elr := load64 s.mem (td + 0x00)
        spEl0 := load64 s.mem (td + 0x08)
        spsr := load64 s.mem (td + 0x10) }
  := by
  rw [atEl1_iff] at h
  rw [spSel] at hsel
  simp [extractTd, getTd, execBlock, exec, SysOk, atEl1_iff, h, setX, next, setPc, writeSys,
    spSel, hsel, htd, BitVec.add_assoc, scratch0, scratch1]

/-- `extract_regs el0` up to its branch. -/
theorem execBlock_extractHigh (h : s.AtEl1) (hx : s.x scratch0 = td)
    (hholds : Holds s.mem s.spEl0 ((regs highPairs.reverse).map v.x)) :
  ∃ x pc, execBlock ([.msrSpSel false, .mov 0 scratch0] ++ pops highPairs.reverse
      ++ [.ldr local1 0 0x18]) s
      = some { s.setSpSel false with x := x, pc := pc, spEl0 := s.spEl0 + 96 }
    ∧ x 0 = td ∧ x local1 = load64 s.mem (td + 0x18) ∧ ∀ r ∈ regs highPairs, x r = v.x r
  := by
  subst hx
  let s₁ := (((s.setSpSel false).next).setX 0 (s.x scratch0)).next
  have hfirst : execBlock [.msrSpSel false, .mov 0 scratch0] s = some s₁ := by
    rw [execBlock_cons (exec_msrSpSel h false)]
    rfl
  have hsel : s₁.spSel = false := spSel_setSpSel s false
  have hsp : s₁.sp = s.spEl0 := by
    rw [State.sp, hsel]
    rfl
  have hholds' : Holds s₁.mem s₁.sp ((regs highPairs.reverse).map v.x) := hsp ▸ hholds
  obtain ⟨x, hpops, hin, hout⟩ := execBlock_pops hholds'
  rw [setSp_el0 (s := { s₁ with x := x }) hsel, hsp] at hpops
  have hx0 : x 0 = s.x scratch0 := by
    rw [hout 0 (by decide)]
    exact Function.update_self 0 (s.x scratch0) s.x
  refine ⟨Function.update x local1 (load64 s.mem (s.x scratch0 + 0x18)),
    s.pc + 4 + 4 + BitVec.ofNat 64 (4 * highPairs.reverse.length) + 4, ?_, ?_, ?_, ?_⟩
  · rw [execBlock_append, execBlock_append, hfirst, Option.bind_some, hpops, Option.bind_some,
      ← hx0]
    rfl
  · rw [Function.update_of_ne (by decide), hx0]
  · rw [Function.update_self]
  · intro r hr
    have hmem : ∀ r, r ∈ regs highPairs → r ∈ regs highPairs.reverse ∧ r ≠ local1 := by decide
    rw [Function.update_of_ne (hmem r hr).2, hin r (hmem r hr).1]

/-- The last two instructions. -/
theorem steps_eret (hcode : Loaded code s.pc [.ldr 0 0 0x20, .eret]) (h : s.AtEl1) :
  ∃ x, Steps code s { s with x := x, pc := s.elr, pstate := s.spsr }
    ∧ x 0 = load64 s.mem (s.x 0 + 0x20) ∧ ∀ r, r ≠ 0 → x r = s.x r
  := by
  let s₁ := (s.setX 0 (load64 s.mem (s.x 0 + 0x20))).next
  have hel1 : s₁.AtEl1 := h
  have heret : exec .eret s₁ = some { s₁ with pc := s₁.elr, pstate := s₁.spsr } := if_pos hel1
  refine ⟨s₁.x, (steps_exec h hcode.1 rfl).trans (steps_exec hel1 hcode.2.1 heret), ?_, ?_⟩
  · exact Function.update_self 0 (load64 s.mem (s.x 0 + 0x20)) s.x
  · exact fun r hr => Function.update_of_ne hr _ _

/-- The frame of an interrupted task is that of a system call with `x1`, …, `x18` above it. -/
theorem Saved.low (h : Saved m td v .intr) :
  Holds m (v.sp - BitVec.ofNat 64 (frameSize .intr) + 96) ((regs lowPairs.reverse).map v.x)
  := by
  have hframe := h.frame
  have hpairs : (pairs .intr).reverse = highPairs.reverse ++ lowPairs.reverse := rfl
  rw [hpairs, regs_append, List.map_append, holds_append] at hframe
  exact hframe.2

theorem Saved.high (h : Saved m td v excp) :
  Holds m (v.sp - BitVec.ofNat 64 (frameSize excp)) ((regs highPairs.reverse).map v.x)
  := by
  cases excp with
  | intr =>
    have hframe := h.frame
    have hpairs : (pairs .intr).reverse = highPairs.reverse ++ lowPairs.reverse := rfl
    rw [hpairs, regs_append, List.map_append, holds_append] at hframe
    exact hframe.1
  | sysc => exact h.frame

/-- The branch in `extract_regs el0`, and what follows. -/
theorem steps_extractLow
    (hcode : Loaded code s.pc (.cbnz local1 40 :: pops lowPairs.reverse ++ [.ldr 0 0 0x20, .eret]))
    (h : s.AtEl1) (hsel : s.spSel = false) (hx0 : s.x 0 = td)
    (hx10 : s.x local1 = load64 s.mem (td + 0x18)) (hhigh : ∀ r ∈ regs highPairs, s.x r = v.x r)
    (hsp : s.spEl0 = v.sp - BitVec.ofNat 64 (frameSize excp) + 96) (hpc : s.elr = v.pc)
    (hpstate : s.spsr = v.pstate) (hsaved : Saved s.mem td v excp) :
  ∃ s', Steps code s s' ∧ Resumed s' v excp ∧ s'.spEl1 = s.spEl1 ∧ s'.mem = s.mem
  := by
  have hhigh0 : ∀ r ∈ regs highPairs, r ≠ 0 ∧ r ∉ regs lowPairs.reverse := by decide
  cases excp with
  | intr =>
    have hfall : exec (.cbnz local1 40) s = some s.next := by
      rw [exec, if_neg]
      rw [hx10]
      exact fun hne => hne (hsaved.esr.mpr rfl)
    have hlow : Holds s.next.mem s.next.sp ((regs lowPairs.reverse).map v.x) := by
      have hsp' : s.next.sp = s.spEl0 := if_neg (ne_true_of_eq_false hsel)
      rw [hsp', hsp]
      exact hsaved.low
    obtain ⟨hlowCode, htail⟩ := loaded_append.mp hcode.2
    obtain ⟨x, hpops, hin, hout⟩ := execBlock_pops hlow
    have hsp' : s.next.sp + BitVec.ofNat 64 (16 * lowPairs.reverse.length) = v.sp := by
      rw [show s.next.sp = s.spEl0 from if_neg (ne_true_of_eq_false hsel), hsp, BitVec.add_assoc]
      exact BitVec.sub_add_cancel v.sp 240
    let s₁ := { s with
      x := x, spEl0 := v.sp, pc := s.next.pc + BitVec.ofNat 64 (4 * lowPairs.reverse.length) }
    have hpops₁ : execBlock (pops lowPairs.reverse) s.next = some s₁ := by
      rw [hpops, setSp_el0 (s := { s.next with x := x }) hsel, hsp']
      rfl
    obtain ⟨hsteps, -⟩ := steps_block (s := s.next) h hlowCode rfl hpops₁
    obtain ⟨x', heret, hx, hrest⟩ := steps_eret (s := s₁) htail h
    refine ⟨_, ((steps_exec h hcode.1 hfall).trans hsteps).trans heret, ?_, rfl, rfl⟩
    constructor
    · exact hpc
    · rfl
    · exact hpstate
    · rw [show s₁.x 0 = td from (hout 0 (by decide)).trans hx0] at hx
      exact hx.trans hsaved.x0
    · intro r hr
      have hx' := (hrest r (hhigh0 r hr).1).trans (hout r (hhigh0 r hr).2)
      exact hx'.trans (hhigh r hr)
    · intro _ r hr
      have hlow0 : ∀ r ∈ regs lowPairs, r ≠ 0 ∧ r ∈ regs lowPairs.reverse := by decide
      exact (hrest r (hlow0 r hr).1).trans (hin r (hlow0 r hr).2)
  | sysc =>
    have hne : s.x local1 ≠ 0 := by
      rw [hx10]
      exact fun heq => absurd (hsaved.esr.mp heq) (by decide)
    let s₁ := s.setPc (s.pc + 40)
    have hbranch : exec (.cbnz local1 40) s = some s₁ := by
      rw [exec, if_pos hne]
    have htail : Loaded code s₁.pc [.ldr 0 0 0x20, .eret] := (loaded_append.mp hcode).2
    obtain ⟨x, heret, hx, hrest⟩ := steps_eret htail h
    refine ⟨_, (steps_exec h hcode.1 hbranch).trans heret, ?_, rfl, rfl⟩
    constructor
    · exact hpc
    · exact hsp.trans (BitVec.sub_add_cancel v.sp 96)
    · exact hpstate
    · rw [show s₁.x 0 = td from hx0] at hx
      exact hx.trans hsaved.x0
    · intro r hr
      exact (hrest r (hhigh0 r hr).1).trans (hhigh r hr)
    · rintro ⟨⟩

/-- `kernel_into_user`. -/
theorem kernelIntoUser_spec (himg : Image sym code) (hpc : s.pc = sym.kernelIntoUser) (h : s.AtEl1)
    (htd : load64 s.mem curActiveTdPtr = td) (hsaved : Saved s.mem td v excp)
    (hcur : Apart (s.spEl1 - 96) 96 curActiveTdPtr 8) (hrecord : Apart (s.spEl1 - 96) 96 td 0x28)
    (hframe : Apart (s.spEl1 - 96) 96 (v.sp - BitVec.ofNat 64 (frameSize excp)) (frameSize excp)) :
  ∃ s', Steps code s s' ∧ Resumed s' v excp ∧ s'.spEl1 = s.spEl1 - 96
    ∧ KernelFrame s'.mem s'.spEl1 s.x
    ∧ ∀ a, ¬ Within (s.spEl1 - 96) 96 a → s'.mem.byte a = s.mem.byte a
  := by
  have hpairs : highPairs = if El.el1 = .intr then lowPairs ++ highPairs else highPairs := rfl
  have hsp : s.spEl1 - 96 = (if El.el1 = .el1 then s.spEl1 else s.spEl0)
      - BitVec.ofNat 64 (16 * highPairs.length) := rfl
  obtain ⟨m, pc, hm, hholds, hout⟩ := execBlock_storeRegs h _ hpairs hsp
  have hsel : ((s.setSpSel true).setMem m).spSel = true := spSel_setSpSel s true
  have hel := atEl1_setSpSel h true
  rw [show decide (El.el1 = El.el1) = true from rfl, setSp_el1 hsel] at hm
  have hsaved' : Saved m td v excp :=
    hsaved.congr (fun a ha => hout a fun ha' => hrecord a ha' ha)
      fun a ha => hout a fun ha' => hframe a ha' ha
  have hload : load64 m curActiveTdPtr = td := by
    rw [← htd]
    exact load64_congr fun a ha => hout a fun ha' => hcur a ha' ha
  let s₁ := State.setPc { (s.setSpSel true).setMem m with spEl1 := s.spEl1 - 96 } pc
  let s₂ := { s₁ with
    x := Function.update (Function.update s₁.x scratch0 td) scratch1 (load64 m (td + 0x10))
    pc := s₁.pc + BitVec.ofNat 64 (4 * extractTd.length)
    elr := load64 m (td + 0x00)
    spEl0 := load64 m (td + 0x08)
    spsr := load64 m (td + 0x10) }
  have htd₁ : execBlock extractTd s₁ = some s₂ := execBlock_extractTd (s := s₁) hel hsel hload
  have hx₂ : s₂.x scratch0 = td := by
    have hne : scratch0 ≠ scratch1 := by decide
    exact (Function.update_of_ne hne (load64 m (td + 0x10))
      (Function.update s₁.x scratch0 td)).trans (Function.update_self scratch0 td s₁.x)
  have hhigh₂ : Holds s₂.mem s₂.spEl0 ((regs highPairs.reverse).map v.x) := by
    rw [show s₂.spEl0 = load64 m (td + 0x08) from rfl, hsaved'.sp]
    exact hsaved'.high
  obtain ⟨x, pc₃, hblock₃, hx0, hx10, hhigh⟩ := execBlock_extractHigh (s := s₂) hel hx₂ hhigh₂
  let s₃ := { s₂.setSpSel false with x := x, pc := pc₃, spEl0 := s₂.spEl0 + 96 }
  have hall : execBlock (storeRegs .el1 ++ (extractTd ++ ([.msrSpSel false, .mov 0 scratch0]
      ++ pops highPairs.reverse ++ [.ldr local1 0 0x18]))) s = some s₃ := by
    rw [execBlock_append, hm, Option.bind_some, execBlock_append, htd₁, Option.bind_some, hblock₃]
  have hcode : Loaded code s.pc
      ((storeRegs .el1 ++ (extractTd ++ ([.msrSpSel false, .mov 0 scratch0]
        ++ pops highPairs.reverse ++ [.ldr local1 0 0x18])))
      ++ (.cbnz local1 40 :: pops lowPairs.reverse ++ [.ldr 0 0 0x20, .eret])) :=
    hpc ▸ himg.intoUser
  obtain ⟨hcode, htail⟩ := loaded_append.mp hcode
  obtain ⟨hsteps, hpc₃⟩ := steps_block h hcode rfl hall
  have hsel₃ : s₃.spSel = false := spSel_setSpSel s₂ false
  obtain ⟨s', hsteps', hresumed, hsp1, hmem⟩ := steps_extractLow (s := s₃) (hpc₃ ▸ htail)
    (atEl1_setSpSel (s := s₂) hel false) hsel₃ hx0 hx10 hhigh (congrArg (· + 96) hsaved'.sp)
    hsaved'.pc hsaved'.pstate hsaved'
  refine ⟨s', hsteps.trans hsteps', hresumed, hsp1, ?_, ?_⟩
  · rw [hmem, hsp1]
    exact hholds
  · intro a ha
    rw [hmem]
    exact hout a ha

end Switch
