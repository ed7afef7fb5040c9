import TrainsOs.Lib.Memory
import Mathlib.Logic.Relation

/-!
# A part of the AArch64 instruction set

The state of a processing element that runs at the exception levels 0 and 1, and what the
instructions do to it that move registers to and from a stack, to and from a record in
memory, and to and from the system registers. An instruction that is not allowed at the
current exception level is undefined.

Code is at addresses, four bytes for each instruction. `Steps` is execution, and
`steps_block` leads from the instructions of a block, one after the other, to execution.
`Holds m a ws` says that the words `ws` are at `a`; `execBlock_push` and `execBlock_pop`
describe pushing and popping pairs of registers by such words.
-/

namespace Aarch64

/-- The registers `x0`, …, `x30`. -/
abbrev Reg := Fin 31

instance neZeroReg : @NeZero ℕ Zero.ofOfNat0 31 :=
  ⟨by decide⟩

/-- `ELR_EL1`, `SPSR_EL1`, `ESR_EL1` and `SP_EL0`. -/
inductive SysReg where
  | elr
  | spsr
  | esr
  | spEl0
deriving DecidableEq

/-- The field `pstate` is `PSTATE` as it is saved in `SPSR_EL1`. -/
@[ext]
structure State where
  x : Reg → BitVec 64
  spEl0 : Addr
  spEl1 : Addr
  pc : Addr
  pstate : BitVec 64
  elr : BitVec 64
  spsr : BitVec 64
  esr : BitVec 64
  mem : Memory

inductive Instr where
  /-- `stp a, b, [sp, #-16]!` -/
  | stp (a b : Reg)
  /-- `ldp a, b, [sp], #16` -/
  | ldp (a b : Reg)
  /-- `str r, [base, #off]`, where `none` is `xzr` -/
  | str (r : Option Reg) (base : Reg) (off : BitVec 64)
  /-- `ldr r, [base, #off]` -/
  | ldr (r base : Reg) (off : BitVec 64)
  /-- `ldr r, =v`, or `mov r, #v` -/
  | ldrImm (r : Reg) (v : BitVec 64)
  /-- `mov r, r'` -/
  | mov (r r' : Reg)
  /-- `mov r, sp` -/
  | movSp (r : Reg)
  | mrs (r : Reg) (sys : SysReg)
  | msr (sys : SysReg) (r : Reg)
  /-- `msr SPSel, #i` -/
  | msrSpSel (i : Bool)
  | ubfx (r r' : Reg) (lsb width : ℕ)
  | lsl (r r' : Reg) (n : ℕ)
  /-- `adr r, label` -/
  | adr (r : Reg) (label : Addr)
  | add (r r' r'' : Reg)
  /-- `cbnz r, label`, where the label is `off` bytes ahead -/
  | cbnz (r : Reg) (off : BitVec 64)
  | b (label : Addr)
  | bl (label : Addr)
  | br (r : Reg)
  | ret
  | eret
  | svc (imm : BitVec 16)
  | nop
deriving DecidableEq

/-! ### 64-bit words in memory -/

def load64 (m : Memory) (a : Addr) : BitVec 64 :=
  BitVec.ofNat 64 (m.load a 8)

def store64 (m : Memory) (a : Addr) (v : BitVec 64) : Memory :=
  m.store a v.toNat 8

namespace State

/-! ### The parts of the state -/

/-- The exception level is 0. -/
def AtEl0 (s : State) : Prop :=
  s.pstate.extractLsb' 0 4 = 0#4

/-- The exception level is 1. -/
def AtEl1 (s : State) : Prop :=
  s.pstate.extractLsb' 2 2 = 1#2

instance (s : State) : Decidable s.AtEl0 := inferInstanceAs (Decidable (_ = _))

instance (s : State) : Decidable s.AtEl1 := inferInstanceAs (Decidable (_ = _))

/-- The stack pointer is `SP_EL1`. -/
def spSel (s : State) : Bool :=
  s.pstate.getLsbD 0

def sp (s : State) : Addr :=
  if s.spSel then s.spEl1 else s.spEl0

def setSp (s : State) (v : Addr) : State :=
  { s with
    spEl0 := if s.spSel then s.spEl0 else v
    spEl1 := if s.spSel then v else s.spEl1 }

def setX (s : State) (r : Reg) (v : BitVec 64) : State :=
  { s with x := Function.update s.x r v }

def setMem (s : State) (m : Memory) : State :=
  { s with mem := m }

def setPc (s : State) (a : Addr) : State :=
  { s with pc := a }

/-- Going on with the next instruction. -/
def next (s : State) : State :=
  s.setPc (s.pc + 4)

def setSpSel (s : State) (i : Bool) : State :=
  { s with pstate := s.pstate &&& ~~~1 ||| (BitVec.ofBool i).setWidth 64 }

def readSys (s : State) : SysReg → BitVec 64
  | .elr => s.elr
  | .spsr => s.spsr
  | .esr => s.esr
  | .spEl0 => s.spEl0

def writeSys (s : State) (v : BitVec 64) : SysReg → State
  | .elr => { s with elr := v }
  | .spsr => { s with spsr := v }
  | .esr => { s with esr := v }
  | .spEl0 => { s with spEl0 := v }

/-- The system registers belong to exception level 1, and `SP_EL0` is among them while it is
not the stack pointer. -/
def SysOk (s : State) (sys : SysReg) : Prop :=
  s.AtEl1 ∧ (sys = .spEl0 → s.spSel = true)

instance (s : State) (sys : SysReg) : Decidable (s.SysOk sys) :=
  inferInstanceAs (Decidable (_ ∧ (_ → _)))

/-- What a program at exception level 0 has of the state: the memory apart, all of it. -/
structure View where
  x : Reg → BitVec 64
  sp : Addr
  pc : Addr
  pstate : BitVec 64

def view (s : State) : View where
  x := s.x
  sp := s.spEl0
  pc := s.pc
  pstate := s.pstate

/-! ### Exceptions -/

/-- The syndrome of `svc #imm`. -/
def svcSyndrome (imm : BitVec 16) : BitVec 64 :=
  0x56000000 ||| imm.setWidth 64

/-- An exception to level 1, with interrupts masked and the stack pointer `SP_EL1`. -/
def takeException (s : State) (ret : Addr) (vector : Addr) : State :=
  { s with
    elr := ret
    spsr := s.pstate
    pstate := s.pstate &&& 0xF0000000 ||| 0x3C5
    pc := vector }

/-- An interrupt at exception level 0. -/
def takeIrq (s : State) (vbar : Addr) : State :=
  s.takeException s.pc (vbar + 0x480)

/-- `svc #imm` at exception level 0. -/
def takeSvc (s : State) (vbar : Addr) (imm : BitVec 16) : State :=
  { s.takeException (s.pc + 4) (vbar + 0x400) with esr := svcSyndrome imm }

end State

open State

/-! ### Instructions -/

/-- Executing an instruction at exception level 1. -/
def exec : Instr → State → Option State
  | .stp a b, s =>
      let sp := s.sp - 16
      some ((s.setMem (store64 (store64 s.mem sp (s.x a)) (sp + 8) (s.x b))).setSp sp).next
  | .ldp a b, s =>
      let sp := s.sp
      some ((((s.setX a (load64 s.mem sp)).setX b (load64 s.mem (sp + 8))).setSp (sp + 16))).next
  | .str r base off, s =>
      some (s.setMem (store64 s.mem (s.x base + off) (r.elim 0 s.x))).next
  | .ldr r base off, s => some (s.setX r (load64 s.mem (s.x base + off))).next
  | .ldrImm r v, s => some (s.setX r v).next
  | .mov r r', s => some (s.setX r (s.x r')).next
  | .movSp r, s => some (s.setX r s.sp).next
  | .mrs r sys, s => if s.SysOk sys then some (s.setX r (s.readSys sys)).next else none
  | .msr sys r, s => if s.SysOk sys then some (s.writeSys (s.x r) sys).next else none
  | .msrSpSel i, s => if s.AtEl1 then some (s.setSpSel i).next else none
  | .ubfx r r' lsb width, s =>
      some (s.setX r ((s.x r').extractLsb' lsb width |>.setWidth 64)).next
  | .lsl r r' n, s => some (s.setX r (s.x r' <<< n)).next
  | .adr r label, s => some (s.setX r label).next
  | .add r r' r'', s => some (s.setX r (s.x r' + s.x r'')).next
  | .cbnz r off, s => some (if s.x r ≠ 0 then s.setPc (s.pc + off) else s.next)
  | .b label, s => some (s.setPc label)
  | .bl label, s => some ((s.setX 30 (s.pc + 4)).setPc label)
  | .br r, s => some (s.setPc (s.x r))
  | .ret, s => some (s.setPc (s.x 30))
  | .eret, s => if s.AtEl1 then some { s with pc := s.elr, pstate := s.spsr } else none
  | .svc _, _ => none
  | .nop, s => some s.next

/-- The instructions of a block, one after the other. -/
def execBlock : List Instr → State → Option State
  | [], s => some s
  | i :: is, s => (exec i s).bind (execBlock is)

/-- The instruction does not branch. -/
def Instr.straight : Instr → Bool
  | .cbnz _ _ => false
  | .b _ => false
  | .bl _ => false
  | .br _ => false
  | .ret => false
  | .eret => false
  | .svc _ => false
  | _ => true

/-! ### Code -/

/-- The instructions, by their addresses. -/
abbrev Code := Addr → Option Instr

/-- The instructions are at the address. -/
def Loaded (code : Code) : Addr → List Instr → Prop
  | _, [] => True
  | a, i :: is => code a = some i ∧ Loaded code (a + 4) is

/-- Executing the instruction at the program counter, at exception level 1. -/
def step (code : Code) (s : State) : Option State :=
  if s.AtEl1 then (code s.pc).bind fun i => exec i s else none

/-- Executing any number of instructions. -/
def Steps (code : Code) : State → State → Prop :=
  Relation.ReflTransGen fun s s' => step code s = some s'

/-- Executing instructions as long as there are any. -/
def Runs (code : Code) (s s' : State) : Prop :=
  Steps code s s' ∧ step code s' = none

section Code

variable {code : Code} {a : Addr} {is js : List Instr} {i : Instr} {s s' : State}

theorem loaded_append :
  Loaded code a (is ++ js)
    ↔ Loaded code a is ∧ Loaded code (a + BitVec.ofNat 64 (4 * is.length)) js
  := by
  induction is generalizing a with
  | nil =>
    rw [List.nil_append, List.length_nil]
    exact ⟨fun h => ⟨trivial, by simpa using h⟩, fun h => by simpa using h.2⟩
  | cons i is ih =>
    have hlen : a + BitVec.ofNat 64 (4 * (i :: is).length)
        = a + 4 + BitVec.ofNat 64 (4 * is.length) := by
      rw [List.length_cons, Nat.mul_succ, Nat.add_comm, BitVec.ofNat_add, BitVec.add_assoc]
      rfl
    rw [List.cons_append, Loaded, Loaded, ih, and_assoc, hlen]

/-- One instruction of a block. -/
theorem Loaded.get {k : ℕ} (h : Loaded code a is) (hk : is[k]? = some i) :
  code (a + BitVec.ofNat 64 (4 * k)) = some i
  := by
  induction is generalizing a k with
  | nil => cases hk
  | cons j is ih =>
    cases k with
    | zero =>
      cases hk
      rw [Nat.mul_zero, show a + BitVec.ofNat 64 0 = a from BitVec.add_zero a]
      exact h.1
    | succ k =>
      have haddr : a + BitVec.ofNat 64 (4 * (k + 1)) = a + 4 + BitVec.ofNat 64 (4 * k) := by
        rw [Nat.mul_succ, Nat.add_comm (4 * k), BitVec.ofNat_add, ← BitVec.add_assoc]
        rfl
      rw [haddr]
      exact ih h.2 hk

theorem loaded_of_get
    (h : ∀ k < is.length, code (a + BitVec.ofNat 64 (4 * k)) = is[k]?) :
  Loaded code a is
  := by
  induction is generalizing a with
  | nil => trivial
  | cons i is ih =>
    constructor
    · have hfirst := h 0 (Nat.succ_pos _)
      rwa [Nat.mul_zero, show a + BitVec.ofNat 64 0 = a from BitVec.add_zero a] at hfirst
    · apply ih
      intro k hk
      have hnext := h (k + 1) (Nat.succ_lt_succ hk)
      rw [Nat.mul_succ, Nat.add_comm (4 * k), BitVec.ofNat_add, ← BitVec.add_assoc] at hnext
      exact hnext

/-- Putting instructions into memory. -/
def place (a : Addr) (is : List Instr) (code : Code) : Code := fun b =>
  if Within a (4 * is.length) b ∧ (b - a).toNat % 4 = 0 then is[(b - a).toNat / 4]? else code b

theorem loaded_place (hlen : 4 * is.length ≤ 2 ^ 64) :
  Loaded (place a is code) a is
  := by
  apply loaded_of_get
  intro k hk
  have hdist : (a + BitVec.ofNat 64 (4 * k) - a).toNat = 4 * k := by
    rw [BitVec.add_comm, BitVec.add_sub_cancel, BitVec.toNat_ofNat, Nat.mod_eq_of_lt (by omega)]
  rw [place, if_pos, hdist, Nat.mul_div_cancel_left k (by decide)]
  rw [Within, hdist]
  omega

/-- What is elsewhere stays. -/
theorem Loaded.place {b : Addr} (h : Loaded code b js)
    (happart : Apart b (4 * js.length) a (4 * is.length)) :
  Loaded (Aarch64.place a is code) b js
  := by
  apply loaded_of_get
  intro k hk
  rw [Aarch64.place, if_neg]
  · rw [List.getElem?_eq_getElem hk]
    exact h.get (List.getElem?_eq_getElem hk)
  · rintro ⟨hin, -⟩
    exact happart _ (within_add (by omega)) hin

theorem execBlock_append :
  execBlock (is ++ js) s = (execBlock is s).bind (execBlock js)
  := by
  induction is generalizing s with
  | nil => rfl
  | cons i is ih =>
    rw [List.cons_append, execBlock, execBlock, Option.bind_assoc]
    exact Option.bind_congr fun _ _ => ih

theorem execBlock_cons (h : exec i s = some s') :
  execBlock (i :: is) s = execBlock is s'
  := by rw [execBlock, h, Option.bind_some]

/-- An instruction that does not branch leads to the next one. -/
theorem exec_pc (hi : i.straight = true) (h : exec i s = some s') :
  s'.pc = s.pc + 4
  := by
  cases i with
  | cbnz | b | bl | br | ret | eret | svc => cases hi
  | stp | ldp =>
    cases h
    rfl
  | mrs | msrSpSel =>
    rw [exec] at h
    split at h
    · cases h
      rfl
    · cases h
  | msr sys r =>
    rw [exec] at h
    split at h
    · cases h
      cases sys <;> rfl
    · cases h
  | _ =>
    cases h
    rfl

theorem atEl1_iff :
  s.AtEl1 ↔ s.pstate.extractLsb' 2 2 = 1#2
  := Iff.rfl

theorem spSel_setSpSel (s : State) (i : Bool) :
  (s.setSpSel i).spSel = i
  := by
  rw [spSel, setSpSel]
  cases i <;> simp

theorem atEl1_setSpSel (h : s.AtEl1) (i : Bool) :
  (s.setSpSel i).AtEl1
  := by
  rw [AtEl1] at h ⊢
  rw [← h, setSpSel]
  ext j hj
  have hj' : j = 0 ∨ j = 1 := by omega
  rcases hj' with rfl | rfl <;> cases i <;> simp

theorem atEl1_takeException (s : State) (ret vector : Addr) :
  (s.takeException ret vector).AtEl1
  := by
  rw [AtEl1, takeException]
  ext j hj
  have hj' : j = 0 ∨ j = 1 := by omega
  rcases hj' with rfl | rfl <;> simp

/-- What an exception does. -/
structure Taken (s s' : State) (ret vector : Addr) : Prop where
  atEl1 : s'.AtEl1
  x : s'.x = s.x
  spEl0 : s'.spEl0 = s.spEl0
  spEl1 : s'.spEl1 = s.spEl1
  pc : s'.pc = vector
  elr : s'.elr = ret
  spsr : s'.spsr = s.pstate
  mem : s'.mem = s.mem

theorem taken_takeIrq (s : State) (vbar : Addr) :
  Taken s (s.takeIrq vbar) s.pc (vbar + 0x480)
  := by
  refine ⟨atEl1_takeException _ _ _, ?_, ?_, ?_, ?_, ?_, ?_, ?_⟩ <;>
    simp only [takeIrq, takeException]

theorem taken_takeSvc (s : State) (vbar : Addr) (imm : BitVec 16) :
  Taken s (s.takeSvc vbar imm) (s.pc + 4) (vbar + 0x400)
  := by
  refine ⟨atEl1_iff.mpr ?_, ?_, ?_, ?_, ?_, ?_, ?_, ?_⟩
  · have h := atEl1_iff.mp (atEl1_takeException s (s.pc + 4) (vbar + 0x400))
    simpa only [takeSvc] using h
  all_goals simp only [takeSvc, takeException]

theorem takeSvc_esr (s : State) (vbar : Addr) (imm : BitVec 16) :
  (s.takeSvc vbar imm).esr = svcSyndrome imm
  := by simp only [takeSvc]

theorem not_atEl1_of_atEl0 (h : s.AtEl0) :
  ¬ s.AtEl1
  := by
  intro h'
  have hbit := congrArg (BitVec.getLsbD · 2) h
  have hbit' := congrArg (BitVec.getLsbD · 0) h'
  simp at hbit hbit'
  rw [hbit] at hbit'
  cases hbit'

theorem step_of_atEl0 (code : Code) (h : s.AtEl0) :
  step code s = none
  := if_neg (not_atEl1_of_atEl0 h)

theorem step_of_none (h : code s.pc = none) :
  step code s = none
  := by
  rw [step, h]
  split <;> rfl

/-- Only `eret` leaves exception level 1. -/
theorem exec_atEl1 (hi : i ≠ .eret) (hs : s.AtEl1) (h : exec i s = some s') :
  s'.AtEl1
  := by
  cases i with
  | mrs =>
    rw [exec] at h
    split at h
    · cases h
      exact hs
    · cases h
  | msrSpSel i =>
    rw [exec, if_pos hs] at h
    cases h
    exact atEl1_setSpSel hs i
  | msr sys r =>
    rw [exec] at h
    split at h
    · cases h
      cases sys <;> exact hs
    · cases h
  | cbnz r off =>
    rw [exec, Option.some.injEq] at h
    subst h
    split <;> exact hs
  | eret => exact absurd rfl hi
  | svc => cases h
  | _ =>
    cases h
    exact hs

theorem Steps.trans {s'' : State} (h : Steps code s s') (h' : Steps code s' s'') :
  Steps code s s''
  := Relation.ReflTransGen.trans h h'

/-- The instruction at the program counter. -/
theorem steps_exec (hs : s.AtEl1) (hcode : code s.pc = some i) (h : exec i s = some s') :
  Steps code s s'
  := by
  apply Relation.ReflTransGen.single
  rw [step, if_pos hs, hcode]
  exact h

/-- Execution ends in one state at most. -/
theorem Runs.unique {s'' : State} (h : Runs code s s') (h' : Runs code s s'') :
  s' = s''
  := by
  obtain ⟨hsteps, hend⟩ := h
  obtain ⟨hsteps', hend'⟩ := h'
  induction hsteps using Relation.ReflTransGen.head_induction_on with
  | refl =>
    cases Relation.ReflTransGen.cases_head hsteps' with
    | inl heq => exact heq
    | inr hstep =>
      obtain ⟨t, ht, -⟩ := hstep
      rw [hend] at ht
      cases ht
  | head hstep _ ih =>
    apply ih
    cases Relation.ReflTransGen.cases_head hsteps' with
    | inl heq =>
      rw [heq, hend'] at hstep
      cases hstep
    | inr hstep' =>
      obtain ⟨t, ht, hrest⟩ := hstep'
      rw [hstep] at ht
      cases ht
      exact hrest

/-- The block rule: instructions that do not branch are executed one after the other. -/
theorem steps_block (hs : s.AtEl1) (hcode : Loaded code s.pc is)
    (his : is.all Instr.straight = true) (h : execBlock is s = some s') :
  Steps code s s' ∧ s'.pc = s.pc + BitVec.ofNat 64 (4 * is.length)
  := by
  induction is generalizing s with
  | nil =>
    cases h
    exact ⟨.refl, (BitVec.add_zero _).symm⟩
  | cons i is ih =>
    obtain ⟨s₁, hi, h⟩ := Option.bind_eq_some_iff.mp h
    rw [List.all_cons, Bool.and_eq_true] at his
    have hpc := exec_pc his.1 hi
    have heret : i ≠ .eret := by
      rintro rfl
      cases his.1
    obtain ⟨hsteps, hpc'⟩ := ih (exec_atEl1 heret hs hi) (hpc ▸ hcode.2) his.2 h
    use (steps_exec hs hcode.1 hi).trans hsteps
    rw [hpc', hpc, List.length_cons, Nat.mul_succ, Nat.add_comm _ 4, BitVec.ofNat_add,
      BitVec.add_assoc]
    rfl

end Code

/-! ### Words in memory -/

/-- The words `ws` are at the address, one after the other. -/
def Holds (m : Memory) : Addr → List (BitVec 64) → Prop
  | _, [] => True
  | a, w :: ws => load64 m a = w ∧ Holds m (a + 8) ws

instance decidableHolds (m : Memory) :
    ∀ (a : Addr) (ws : List (BitVec 64)), Decidable (Holds m a ws)
  | _, [] => .isTrue trivial
  | a, w :: ws =>
    have := decidableHolds m (a + 8) ws
    inferInstanceAs (Decidable (load64 m a = w ∧ Holds m (a + 8) ws))

section Words

variable {m m' : Memory} {a b base d d' : Addr} {v : BitVec 64} {ws ws' : List (BitVec 64)}
  {n n' : ℕ}

theorem load64_congr (h : ∀ x, Within a 8 x → m'.byte x = m.byte x) :
  load64 m' a = load64 m a
  := by rw [load64, load64, Memory.load_congr h]

theorem load64_store64 (m : Memory) (a : Addr) (v : BitVec 64) :
  load64 (store64 m a v) a = v
  := by
  have hload : (store64 m a v).load a 8 = v.toNat % 256 ^ 8 := by
    apply Memory.load_of_bytes
    intro i hi
    rw [store64, Memory.store_eq _ (by decide), Memory.overlay_add hi (by decide)]
  have hpow : 256 ^ 8 = 2 ^ 64 := rfl
  rw [load64, hload, hpow, Nat.mod_eq_of_lt v.isLt, BitVec.ofNat_toNat, BitVec.setWidth_eq]

theorem store64_byte (h : ¬ Within a 8 b) :
  (store64 m a v).byte b = m.byte b
  := by
  rw [store64, Memory.store_eq _ (by decide)]
  exact Memory.overlay_outside h

theorem load64_store64_of_apart (h : Apart a 8 b 8) :
  load64 (store64 m a v) b = load64 m b
  := load64_congr fun x hx => store64_byte fun hx' => h x hx' hx

/-- Ranges at different distances from an address. -/
theorem apart_add (h : d.toNat + n ≤ d'.toNat) (h' : d'.toNat + n' ≤ 2 ^ 64) :
  Apart (base + d) n (base + d') n'
  := by
  rw [BitVec.add_comm base, BitVec.add_comm base]
  exact (apart_of_le h h').move base

theorem holds_append :
  Holds m a (ws ++ ws') ↔ Holds m a ws ∧ Holds m (a + BitVec.ofNat 64 (8 * ws.length)) ws'
  := by
  induction ws generalizing a with
  | nil =>
    rw [List.nil_append, List.length_nil]
    exact ⟨fun h => ⟨trivial, by simpa using h⟩, fun h => by simpa using h.2⟩
  | cons w ws ih =>
    have hlen : a + BitVec.ofNat 64 (8 * (w :: ws).length)
        = a + 8 + BitVec.ofNat 64 (8 * ws.length) := by
      rw [List.length_cons, Nat.mul_succ, Nat.add_comm, BitVec.ofNat_add, BitVec.add_assoc]
      rfl
    rw [List.cons_append, Holds, Holds, ih, and_assoc, hlen]

/-- The words depend on their own bytes only. -/
theorem Holds.congr (h : Holds m a ws) (hws : 8 * ws.length ≤ 2 ^ 64)
    (heq : ∀ x, Within a (8 * ws.length) x → m'.byte x = m.byte x) :
  Holds m' a ws
  := by
  induction ws generalizing a with
  | nil => trivial
  | cons w ws ih =>
    rw [List.length_cons] at heq hws
    constructor
    · rw [← h.1]
      apply load64_congr
      intro x hx
      apply heq x
      rw [Within] at hx ⊢
      omega
    · apply ih h.2 (by omega)
      intro x hx
      apply heq x
      apply hx.mono
      have height : (8 : Addr).toNat = 8 := rfl
      omega

end Words

attribute [irreducible] load64 store64

/-! ### Pushing and popping pairs of registers -/

/-- The registers of the pairs. -/
def regs (ps : List (Reg × Reg)) : List Reg :=
  ps.flatMap fun p => [p.1, p.2]

def pushes (ps : List (Reg × Reg)) : List Instr :=
  ps.map fun p => .stp p.1 p.2

def pops (ps : List (Reg × Reg)) : List Instr :=
  ps.map fun p => .ldp p.1 p.2

section Pairs

variable {s : State} {v : Addr} {ps : List (Reg × Reg)}

theorem setSp_sp (s : State) (v : Addr) :
  (s.setSp v).sp = v
  := by
  unfold sp setSp spSel
  cases s.pstate.getLsbD 0 <;> rfl

theorem setSp_self (s : State) :
  s.setSp s.sp = s
  := by
  unfold setSp sp spSel
  cases s.pstate.getLsbD 0 <;> rfl

theorem setSp_el0 (h : s.spSel = false) (v : Addr) :
  s.setSp v = { s with spEl0 := v }
  := by
  rw [setSp, h]
  rfl

theorem setSp_el1 (h : s.spSel = true) (v : Addr) :
  s.setSp v = { s with spEl1 := v }
  := by
  rw [setSp, h]
  rfl

theorem regs_cons (p : Reg × Reg) (ps : List (Reg × Reg)) :
  regs (p :: ps) = p.1 :: p.2 :: regs ps
  := rfl

theorem regs_append (ps qs : List (Reg × Reg)) :
  regs (ps ++ qs) = regs ps ++ regs qs
  := List.flatMap_append

theorem length_regs (ps : List (Reg × Reg)) :
  (regs ps).length = 2 * ps.length
  := by
  induction ps with
  | nil => rfl
  | cons p ps ih =>
    rw [regs_cons, List.length_cons, List.length_cons, List.length_cons, ih]
    omega

/-- The address below `n + 1` pairs. -/
theorem sub_pairs (a : Addr) (n : ℕ) :
  a - 16 - BitVec.ofNat 64 (16 * n) = a - BitVec.ofNat 64 (16 * (n + 1))
  := by
  rw [Nat.mul_succ, Nat.add_comm, BitVec.ofNat_add, BitVec.sub_sub]
  rfl

theorem pc_block (a : Addr) (n : ℕ) :
  a + 4 + BitVec.ofNat 64 (4 * n) = a + BitVec.ofNat 64 (4 * (n + 1))
  := by
  rw [Nat.mul_succ, Nat.add_comm (4 * n), BitVec.ofNat_add, ← BitVec.add_assoc]
  rfl

/-- Pushing pairs of registers: the last pair is at the lowest address. -/
theorem execBlock_pushes (hps : 16 * ps.length ≤ 2 ^ 64) :
  ∃ m, execBlock (pushes ps) s
      = some (((s.setMem m).setSp (s.sp - BitVec.ofNat 64 (16 * ps.length))).setPc
          (s.pc + BitVec.ofNat 64 (4 * ps.length)))
    ∧ Holds m (s.sp - BitVec.ofNat 64 (16 * ps.length)) ((regs ps.reverse).map s.x)
    ∧ ∀ a, ¬ Within (s.sp - BitVec.ofNat 64 (16 * ps.length)) (16 * ps.length) a →
        m.byte a = s.mem.byte a
  := by
  induction ps generalizing s with
  | nil =>
    refine ⟨s.mem, ?_, trivial, fun _ _ => rfl⟩
    have hsp : s.sp - BitVec.ofNat 64 (16 * 0) = s.sp := BitVec.sub_zero _
    have hpc : s.pc + BitVec.ofNat 64 (4 * 0) = s.pc := BitVec.add_zero _
    rw [List.length_nil, hsp, hpc, show s.setMem s.mem = s from rfl, setSp_self]
    rfl
  | cons p ps ih =>
    rw [List.length_cons] at hps
    let m₁ := store64 (store64 s.mem (s.sp - 16) (s.x p.1)) (s.sp - 16 + 8) (s.x p.2)
    let s₁ := ((s.setMem m₁).setSp (s.sp - 16)).next
    have hsp : s₁.sp = s.sp - 16 := setSp_sp (s.setMem m₁) _
    obtain ⟨m, hm, hholds, hframe⟩ := ih (s := s₁) (by omega)
    rw [hsp, sub_pairs] at hm hholds hframe
    rw [List.length_cons]
    generalize hbase : s.sp - BitVec.ofNat 64 (16 * (ps.length + 1)) = base at hm hholds hframe ⊢
    have hlen : (BitVec.ofNat 64 (16 * ps.length)).toNat = 16 * ps.length := by
      rw [BitVec.toNat_ofNat, Nat.mod_eq_of_lt (by omega)]
    have hpair : s.sp - 16 = base + BitVec.ofNat 64 (16 * ps.length) := by
      rw [← hbase, ← sub_pairs, BitVec.sub_add_cancel]
    refine ⟨m, ?_, ?_, ?_⟩
    · have hstep : execBlock (pushes (p :: ps)) s = execBlock (pushes ps) s₁ := rfl
      rw [hstep, hm, ← pc_block]
      unfold s₁ setSp next setPc setMem spSel
      cases s.pstate.getLsbD 0 <;> rfl
    · rw [List.reverse_cons, regs_append, List.map_append, holds_append]
      use hholds
      rw [List.length_map, length_regs, List.length_reverse, ← Nat.mul_assoc, ← hpair]
      have hm₁ : Holds m₁ (s.sp - 16) [s.x p.1, s.x p.2] := by
        refine ⟨?_, load64_store64 _ _ _, trivial⟩
        rw [load64_store64_of_apart, load64_store64]
        have h : Apart (s.sp - 16 + 0) 8 (s.sp - 16 + 8) 8 := apart_add (by decide) (by decide)
        rw [show s.sp - 16 + 0 = s.sp - 16 from BitVec.add_zero _] at h
        exact h.symm
      apply hm₁.congr (by simp)
      intro x hx
      apply hframe x
      intro hx'
      rw [hpair] at hx
      have h : Apart (base + 0) (16 * ps.length) (base + BitVec.ofNat 64 (16 * ps.length)) 16 :=
        apart_add (by rw [hlen]; simp) (by omega)
      rw [show base + 0 = base from BitVec.add_zero _] at h
      exact h x hx' hx
    · intro a ha
      rw [hframe a]
      · have hlow : ¬ Within (s.sp - 16) 8 a := by
          intro h
          rw [hpair] at h
          exact ha (h.mono (by omega))
        have hhigh : ¬ Within (s.sp - 16 + 8) 8 a := by
          intro h
          have h16 := h.mono (n := 16) (by decide)
          rw [hpair] at h16
          exact ha (h16.mono (by omega))
        exact (store64_byte hhigh).trans (store64_byte hlow)
      · intro h
        rw [Within] at h ha
        omega

/-- Popping pairs of registers that hold the values of `x`. -/
theorem execBlock_pops {x : Reg → BitVec 64} (h : Holds s.mem s.sp ((regs ps).map x)) :
  ∃ x', execBlock (pops ps) s
      = some (({ s with x := x' }.setSp (s.sp + BitVec.ofNat 64 (16 * ps.length))).setPc
          (s.pc + BitVec.ofNat 64 (4 * ps.length)))
    ∧ (∀ r ∈ regs ps, x' r = x r) ∧ ∀ r ∉ regs ps, x' r = s.x r
  := by
  induction ps generalizing s with
  | nil =>
    refine ⟨s.x, ?_, nofun, fun _ _ => rfl⟩
    have hsp : s.sp + BitVec.ofNat 64 (16 * 0) = s.sp := BitVec.add_zero _
    have hpc : s.pc + BitVec.ofNat 64 (4 * 0) = s.pc := BitVec.add_zero _
    rw [List.length_nil, hsp, hpc, setSp_self]
    rfl
  | cons p ps ih =>
    rw [regs_cons, List.map_cons, List.map_cons] at h
    obtain ⟨hfirst, hsecond, hrest⟩ := h
    let s₁ := (((s.setX p.1 (x p.1)).setX p.2 (x p.2)).setSp (s.sp + 16)).next
    have hsp : s₁.sp = s.sp + 16 := setSp_sp ((s.setX p.1 (x p.1)).setX p.2 (x p.2)) _
    have hadd : s.sp + 8 + 8 = s.sp + 16 := by
      rw [BitVec.add_assoc]
      rfl
    rw [hadd, ← hsp] at hrest
    obtain ⟨x', hx', hin, hout⟩ := ih (s := s₁) hrest
    rw [hsp] at hx'
    refine ⟨x', ?_, ?_, ?_⟩
    · have hstep : execBlock (pops (p :: ps)) s = execBlock (pops ps) s₁ := by
        apply execBlock_cons
        rw [exec, hfirst, hsecond]
      have hend : s.sp + 16 + BitVec.ofNat 64 (16 * ps.length)
          = s.sp + BitVec.ofNat 64 (16 * (ps.length + 1)) := by
        rw [Nat.mul_succ, Nat.add_comm (16 * ps.length), BitVec.ofNat_add, ← BitVec.add_assoc]
        rfl
      rw [hstep, hx', hend, List.length_cons, ← pc_block]
      unfold s₁ setSp next setPc setX spSel
      cases s.pstate.getLsbD 0 <;> rfl
    · intro r hr
      rw [regs_cons, List.mem_cons, List.mem_cons] at hr
      by_cases hmem : r ∈ regs ps
      · exact hin r hmem
      · rw [hout r hmem]
        change Function.update (Function.update s.x p.1 (x p.1)) p.2 (x p.2) r = x r
        by_cases hsecond : r = p.2
        · rw [hsecond, Function.update_self]
        · have hfirst : r = p.1 := by tauto
          rw [Function.update_of_ne hsecond, hfirst, Function.update_self]
    · intro r hr
      rw [regs_cons, List.mem_cons, List.mem_cons, not_or, not_or] at hr
      rw [hout r hr.2.2]
      exact (Function.update_of_ne hr.2.1 _ _).trans (Function.update_of_ne hr.1 _ _)

end Pairs

end Aarch64
