import TrainsOs.Lib.Aarch64

/-!
# The context switch

The macros of `context_macro.S`, the exception handlers of `exception.S` with their vector
table, and `kernel_into_user` of `context_switch.S`.

A task that an interrupt stops has the registers `x1`, …, `x30` on its stack and the others
in its descriptor; one that makes a system call has `x19`, …, `x30` on its stack, and goes on
where the call returns to. The kernel's registers `x19`, …, `x30` are on the stack of the
kernel while a task runs.
-/

namespace Switch

open Aarch64

/-- `CUR_ACTIVE_TD_PTR`. -/
def curActiveTdPtr : Addr := 0x7FF00000

abbrev local0 : Reg := 9
abbrev local1 : Reg := 10
abbrev scratch0 : Reg := 19
abbrev scratch1 : Reg := 20
abbrev linkreg : Reg := 30

/-! ### Macros -/

/-- The argument of `store_regs` and of `extract_regs`. -/
inductive El where
  | el0
  | el1
  | intr
deriving DecidableEq

/-- The argument of `store_td`. -/
inductive Excp where
  | intr
  | sysc
deriving DecidableEq

/-- `x1`, …, `x18`, in the order in which they are pushed. -/
def lowPairs : List (Reg × Reg) :=
  [(1, 2), (3, 4), (5, 6), (7, 8), (9, 10), (11, 12), (13, 14), (15, 16), (17, 18)]

/-- `x19`, …, `x30`. -/
def highPairs : List (Reg × Reg) :=
  [(19, 20), (21, 22), (23, 24), (25, 26), (27, 28), (29, 30)]

def getTd (regid : Reg) : List Instr :=
  [.ldrImm regid curActiveTdPtr, .ldr regid regid 0x00]

def storeRegs (el : El) : List Instr :=
  .msrSpSel (el = .el1)
    :: pushes (if el = .intr then lowPairs ++ highPairs else highPairs)

def storeTd (excp : Excp) : List Instr :=
  getTd scratch0
  ++ (if excp = .intr then
      [.mrs scratch1 .elr, .str scratch1 scratch0 0x00]
    else
      [.str linkreg scratch0 0x00])
  ++ [.movSp scratch1, .str scratch1 scratch0 0x08]
  ++ [.mrs scratch1 .spsr, .str scratch1 scratch0 0x10]

def extractTd : List Instr :=
  getTd scratch0
  ++ [.ldr scratch1 scratch0 0x00, .msr .elr scratch1]
  ++ [.ldr scratch1 scratch0 0x08, .msr .spEl0 scratch1]
  ++ [.ldr scratch1 scratch0 0x10, .msr .spsr scratch1]

/-- `extract_regs el1`. -/
def extractRegsEl1 : List Instr :=
  .msrSpSel true :: pops highPairs.reverse

/-- `extract_regs el0`; the branch goes to `extract_regs_el0_sysc`, behind the last `ldp`. -/
def extractRegsEl0 : List Instr :=
  [.msrSpSel false, .mov 0 scratch0]
  ++ pops highPairs.reverse
  ++ [.ldr local1 0 0x18, .cbnz local1 40]
  ++ pops lowPairs.reverse

/-! ### Entry and exit -/

/-- `kernel_into_user`. -/
def kernelIntoUser : List Instr :=
  storeRegs .el1 ++ extractTd ++ extractRegsEl0 ++ [.ldr 0 0 0x20, .eret]

/-- `.align 7`: the rest of 128 bytes. -/
def align7 (is : List Instr) : List Instr :=
  is ++ List.replicate ((32 - is.length % 32) % 32) .nop

/-- The symbols of `handler_func_tabl`. -/
inductive Handler where
  | kExitHandler
  | kCreateHandler
  | kMyTidHandler
  | kMyParentTidHandler
  | kSendHandler
  | kRecvHandler
  | kReplyHandler
  | kAwaitEventHandler
  | kMmapHandler
  | kSysHealth
  | kQuadratureEncoderInit
  | kQuadratureEncoderGet
  | kPrintRaw
  | kQuit
deriving DecidableEq

/-- The addresses of the symbols. -/
structure Symbols where
  exceptionVectorEl1 : Addr
  handlerFuncTabl : Addr
  kernelIntoUser : Addr
  kIntrHandler : Addr
  printDebug : Addr
  assertFail : Addr
  handler : Handler → Addr

variable (sym : Symbols)

def syscallHandler : List Instr :=
  storeRegs .el0
  ++ storeTd .sysc
  ++ [.mrs local0 .esr, .str local0 scratch0 0x18]
  ++ extractRegsEl1
  ++ [.ubfx local0 local0 0 25, .lsl local0 local0 2, .adr local1 sym.handlerFuncTabl,
    .add local0 local0 local1]
  ++ [.br local0, .b sym.assertFail]

def interruptHandler : List Instr :=
  storeRegs .intr
  ++ storeTd .intr
  ++ [.str (some 0) scratch0 0x20]
  ++ [.str none scratch0 0x18]
  ++ extractRegsEl1
  ++ [.b sym.kIntrHandler, .b sym.assertFail]

def invalidExceptionHandler : List Instr :=
  [.ldrImm 0 2, .bl sym.printDebug, .b sym.assertFail]

/-- `exception_vector_el1`. The handler of interrupts takes up two entries. -/
def exceptionVectorEl1 : List Instr :=
  (List.replicate 8 (align7 (invalidExceptionHandler sym))).flatten
  ++ align7 (syscallHandler sym)
  ++ align7 (interruptHandler sym)
  ++ (List.replicate 5 (align7 (invalidExceptionHandler sym))).flatten

def handlerFuncTabl : List Instr :=
  [.b (sym.handler .kExitHandler),
    .ret,
    .b (sym.handler .kCreateHandler),
    .b (sym.handler .kMyTidHandler),
    .b (sym.handler .kMyParentTidHandler),
    .b (sym.handler .kSendHandler),
    .b (sym.handler .kRecvHandler),
    .b (sym.handler .kReplyHandler),
    .b (sym.handler .kAwaitEventHandler),
    .b (sym.handler .kMmapHandler),
    .b (sym.handler .kSysHealth),
    .b (sym.handler .kQuadratureEncoderInit),
    .b (sym.handler .kQuadratureEncoderGet),
    .b (sym.handler .kPrintRaw),
    .b (sym.handler .kQuit)]

/-- Where an entry of `handler_func_tabl` leads: `ret` returns to the caller at once. -/
def branchTarget (lr : Addr) : Instr → Option Addr
  | .b label => some label
  | .ret => some lr
  | _ => none

/-- Where the system call `i` leads. -/
def dispatch (lr : Addr) (i : ℕ) : Option Addr :=
  ((handlerFuncTabl sym)[i]?).bind (branchTarget lr)

/-- The kernel in memory: the code that is not written in assembly is outside of it. -/
structure Image (code : Code) : Prop where
  interrupts : code sym.kIntrHandler = none
  handlers : ∀ h, code (sym.handler h) = none
  vector : Loaded code sym.exceptionVectorEl1 (exceptionVectorEl1 sym)
  table : Loaded code sym.handlerFuncTabl (handlerFuncTabl sym)
  intoUser : Loaded code sym.kernelIntoUser kernelIntoUser

variable {sym} {code : Code}

/-! ### The vector table -/

/-- The parts of the vector table are where the architecture looks for them. -/
theorem Image.entries (h : Image sym code) :
  Loaded code (sym.exceptionVectorEl1 + 0x400) (syscallHandler sym)
    ∧ Loaded code (sym.exceptionVectorEl1 + 0x480) (interruptHandler sym)
  := by
  have hinvalid :
      (List.replicate 8 (align7 (invalidExceptionHandler sym))).flatten.length = 256 := by
    rw [List.length_flatten, List.map_replicate]
    rfl
  have hsyscall : (align7 (syscallHandler sym)).length = 32 := rfl
  have hvector := h.vector
  rw [exceptionVectorEl1, List.append_assoc, List.append_assoc, loaded_append, loaded_append,
    loaded_append, hinvalid, hsyscall, BitVec.add_assoc] at hvector
  obtain ⟨-, hsyscall, hinterrupt, -⟩ := hvector
  exact ⟨(loaded_append.mp hsyscall).1, (loaded_append.mp hinterrupt).1⟩

end Switch
