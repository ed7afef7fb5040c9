import TrainsOs.Lib.Program
import TrainsOs.Uart.Server

/-!
# The UART server as a program

The server of `rpi_uart.rs` operation by operation: the accesses to the registers of the
hardware and the system calls, between which interrupts and other tasks may come. A panic
ends in `ker_exit`. The mask of the interrupts is changed by reading the register, setting
bits, and writing it back.
-/

namespace TrainsOs.Uart

open MsgBox Bytes

/-- `UART_IMSC_RXIM`. -/
def uartImscRxim : BitVec 32 := 0x10

/-- `UART_IMSC_TXIM`. -/
def uartImscTxim : BitVec 32 := 0x20

/-- `UART_IMSC_RTIM`. -/
def uartImscRtim : BitVec 32 := 0x40

/-- The operations while a message is handled. -/
inductive Op where
  | readImsc
  | writeImsc (status : BitVec 32)
  | readFr
  | readDr
  | writeDr (c : UInt8)
  | reply (tid : ℤ)
  | exit

/-- What an operation returns; for `ker_reply` whether it succeeded. -/
@[reducible]
def Op.Response : Op → Type
  | .readImsc => BitVec 32
  | .writeImsc _ => Unit
  | .readFr => BitVec 32
  | .readDr => UInt8
  | .writeDr _ => Unit
  | .reply _ => Bool
  | .exit => Empty

abbrev Program := Prog Op Op.Response

/-- The fields of `State`, without the registers. -/
structure Locals where
  uartId : ℕ
  replyBox : SendBox
  tidIntr : ℤ
  rxQueue : List RxReq
  rxBuf : List UInt8
  txBuf : List UInt8
  txQueue : List TxReq
  txIdx : ℕ

/-! ### The registers and the calls -/

namespace Program

/-- The panic handler. -/
def panic {α : Type} : Program α :=
  .op .exit Empty.elim

def unwrap {α : Type} : Option α → Program α
  | some a => .pure a
  | none => panic

/-- `ker_reply(tid, ..).unwrap()`. -/
def kerReply (tid : ℤ) : Program Unit := do
  let ok ← Prog.perform (.reply tid)
  if ok then
    pure ()
  else
    panic

/-- `RpiUart::getc`. -/
def getc : Program (Option UInt8) := do
  let fr ← Prog.perform .readFr
  if fr &&& 0x10 ≠ 0 then
    pure none
  else do
    let ch ← Prog.perform .readDr
    pure (some ch)

/-- `RpiUart::putc`. -/
def putc (c : UInt8) : Program (Option UInt8) := do
  let fr ← Prog.perform .readFr
  if fr &&& 0x20 ≠ 0 then
    pure none
  else do
    Prog.perform (Op.writeDr c)
    pure (some c)

/-- Setting bits in the mask. -/
def arm (bits : BitVec 32) : Program Unit := do
  let status ← Prog.perform .readImsc
  Prog.perform (Op.writeImsc (status ||| bits))

/-- `RpiUart::arm_rx`. -/
def armRx : Program Unit :=
  arm (uartImscRxim ||| uartImscRtim)

/-- `RpiUart::arm_tx`. -/
def armTx : Program Unit :=
  arm uartImscTxim

end Program

open Program

/-! ### The handlers -/

namespace Locals

/-- The waiter in front, when the bytes sent have reached the end of its own. -/
def release (s : Locals) : Program Locals :=
  match s.txQueue with
  | front :: txQueue =>
      if front.endAt = s.txIdx then do
        let box ← unwrap (newMsg rpiUartTxResp s.replyBox [])
        Program.kerReply front.tid
        pure { s with txQueue := txQueue, replyBox := box }
      else
        pure s
  | [] => pure s

/-- The loop of `State::write`, over the bytes in `tx_buf`. -/
def writeLoop (b : Build) : List UInt8 → Locals → Program Locals
  | [], s => pure s
  | ch :: txBuf, s => do
      match ← putc ch with
      | some _ =>
          let txIdx ← unwrap (b.arith.add 64 s.txIdx 1)
          let s ← release { s with txBuf := txBuf, txIdx := txIdx }
          writeLoop b txBuf s
      | none =>
          armTx
          pure s

/-- `State::write`. -/
def write (b : Build) (s : Locals) : Program Locals :=
  writeLoop b s.txBuf s

/-- `State::handle_tx_req`. -/
def handleTxReq (b : Build) (s : Locals) (tid : ℤ) (bytes : List UInt8) (blocking : Bool) :
    Program Locals := do
  let txBuf ← unwrap (pushAll txBufCapacity s.txBuf bytes)
  if blocking then do
    let endAt ← unwrap (b.arith.add 64 s.txIdx txBuf.length)
    let txQueue ← unwrap (pushBack txQueueCapacity s.txQueue { tid := tid, endAt := endAt })
    write b { s with txBuf := txBuf, txQueue := txQueue }
  else do
    let box ← unwrap (newMsg rpiUartTxResp s.replyBox [])
    Program.kerReply tid
    write b { s with txBuf := txBuf, replyBox := box }

/-- The first loop of `State::read`. The number is what `rx_buf` still takes. -/
def readLoop : ℕ → Locals → Program Locals
  | 0, s => do
      match ← getc with
      | some _ => panic
      | none => pure s
  | room + 1, s => do
      match ← getc with
      | some ch => readLoop room { s with rxBuf := s.rxBuf ++ [ch] }
      | none => pure s

/-- The second loop of `State::read`, over the requests in `rx_queue`. -/
def serveLoop (b : Build) : List RxReq → Locals → Program Locals
  | [], s => pure s
  | req :: rxQueue, s =>
      if s.rxBuf.isEmpty then
        pure s
      else if s.rxBuf.length < req.len then
        pure s
      else do
        let box ← unwrap (newArrayMsg b rpiUartRxResp s.replyBox (s.rxBuf.take req.len))
        Program.kerReply req.tid
        serveLoop b rxQueue
          { s with rxQueue := rxQueue, rxBuf := s.rxBuf.drop req.len, replyBox := box }

/-- `State::read`. -/
def read (b : Build) (s : Locals) : Program Locals := do
  let s ← readLoop (rxBufCapacity - s.rxBuf.length) s
  serveLoop b s.rxQueue s

/-- `State::handle_rx_req`. -/
def handleRxReq (b : Build) (s : Locals) (tid : ℤ) (len : ℕ) : Program Locals := do
  let rxQueue ← unwrap (pushBack rxQueueCapacity s.rxQueue { tid := tid, len := len })
  read b { s with rxQueue := rxQueue }

/-- `State::rearm`. -/
def rearm (s : Locals) : Program Locals := do
  let box ← unwrap (newMsg rpiUartIntr s.replyBox (u32Bytes s.uartId ++ u32Bytes 0))
  Program.kerReply s.tidIntr
  armRx
  pure { s with replyBox := box }

/-- The `match` on the message. -/
def handleMsg (b : Build) (s : Locals) (senderTid : ℤ) : Msg → Program Locals
  | .rpiUartRxReq len => s.handleRxReq b senderTid len
  | .rpiUartTxReq bytes => s.handleTxReq b senderTid bytes false
  | .rpiUartTxBlockingReq bytes => s.handleTxReq b senderTid bytes true
  | .rpiUartIntr _ _ => do
      let s ← s.rearm
      let s ← s.read b
      s.write b
  | .unknown => pure s

/-- What the loop of `_start` does with a message. -/
def handle (b : Build) (s : Locals) (senderTid : ℤ) (msg : Msg) : Program Locals :=
  if msg.inBox then
    s.handleMsg b senderTid msg
  else
    panic

end Locals

end TrainsOs.Uart
