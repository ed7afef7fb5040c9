import TrainsOs.User.Receive

/-!
# The UART server

The task `rpi_uart.rs`: the requests to receive and to transmit, and the messages of its
interrupt broker. The bytes to transmit wait in `tx_buf`, and in `tx_queue` those who
wait for them to be sent, each with the position in the stream of bytes at which its own
end. `tx_idx` counts the bytes handed to the hardware.

While a message is handled the hardware takes some number of bytes before its FIFO is
full, and has some bytes to give.
-/

namespace TrainsOs.Uart

open MsgBox Bytes

/-- `RxReq`. -/
structure RxReq where
  tid : ℤ
  len : ℕ

/-- `TxReq`. -/
structure TxReq where
  tid : ℤ
  endAt : ℕ

/-- The messages, by the variants of `RecvEnum`; `unknown` is `None`. -/
inductive Msg where
  | rpiUartRxReq (len : ℕ)
  | rpiUartTxReq (bytes : List UInt8)
  | rpiUartTxBlockingReq (bytes : List UInt8)
  | rpiUartIntr (uartId mis : ℕ)
  | unknown

/-- What the server does to the outside: bytes from and to the hardware, interrupts it
arms, and its calls of `ker_reply`. `acked` is the reply in `handle_tx_req`, `sent` the one
in `write`. -/
inductive Output where
  | getc (ch : UInt8)
  | putc (ch : UInt8)
  | armRx
  | armTx
  | acked (tid : ℤ)
  | sent (tid : ℤ)
  | received (tid : ℤ) (bytes : List UInt8)
  | rearmed (tid : ℤ)

/-- The fields of `State`, and then what is outside the task: the tasks that wait for its
replies, how many bytes the hardware takes and which ones it has, and what the server has
done. -/
structure State where
  uartId : ℕ
  replyBox : SendBox
  tidIntr : ℤ
  rxQueue : List RxReq
  rxBuf : List UInt8
  txBuf : List UInt8
  txQueue : List TxReq
  txIdx : ℕ
  callers : List ℤ
  room : ℕ
  input : List UInt8
  log : List Output

def rxBufCapacity : ℕ := 2048
def txBufCapacity : ℕ := 2048
def rxQueueCapacity : ℕ := 128
def txQueueCapacity : ℕ := 128

/-! ### The message types of `api/rpi_uart.rs` -/

def rpiUartRxResp : MsgType := arrayMsg "RpiUartRxResp"
def rpiUartTxResp : MsgType := plainMsg "RpiUartTxResp" 0
def rpiUartIntr : MsgType := plainMsg "RpiUartIntr" 8

/-- The variants of `RecvEnum`. -/
def requests : List MsgType :=
  [rpiUartRxReq, rpiUartTxReq, rpiUartTxBlockingReq, rpiUartIntr]

/-- The array of the message is in the box of the server. `from_recv_bytes` panics if it is
not. -/
def Msg.inBox : Msg → Bool
  | .rpiUartTxReq bytes => inRecvBox TrainsOs.rpiUartTxReq [bytes]
  | .rpiUartTxBlockingReq bytes => inRecvBox TrainsOs.rpiUartTxBlockingReq [bytes]
  | _ => true

/-! ### The state -/

/-- `State::new`, with the broker that is created there. -/
def State.new (uartId : ℕ) (replyBox : SendBox) (tidIntr : ℤ) : State where
  uartId := uartId
  replyBox := replyBox
  tidIntr := tidIntr
  rxQueue := []
  rxBuf := []
  txBuf := []
  txQueue := []
  txIdx := 0
  callers := []
  room := 0
  input := []
  log := []

/-- `ker_reply(tid, &self.reply_box).unwrap()`. -/
def State.reply (s : State) (tid : ℤ) (output : Output) : Option State := do
  let callers ← kerReply s.callers tid
  some { s with callers := callers, log := s.log ++ [output] }

/-- A reply with an `RpiUartTxResp`. -/
def State.replyTx (s : State) (tid : ℤ) (output : Output) : Option State := do
  let box ← newMsg rpiUartTxResp s.replyBox []
  State.reply { s with replyBox := box } tid output

/-! ### Transmitting -/

/-- The waiter in front, when the bytes sent have reached the end of its own. -/
def State.release (s : State) : Option State :=
  match s.txQueue with
  | front :: txQueue =>
      if front.endAt = s.txIdx then
        State.replyTx { s with txQueue := txQueue } front.tid (.sent front.tid)
      else
        some s
  | [] => some s

/-- The loop of `State::write`, over the bytes in `tx_buf`. -/
def writeLoop (b : Build) : List UInt8 → State → Option State
  | [], s => some s
  | ch :: txBuf, s =>
      match s.room with
      | 0 => some { s with log := s.log ++ [.armTx] }
      | room + 1 => do
          let txIdx ← b.arith.add 64 s.txIdx 1
          let s ← State.release
            { s with room := room, log := s.log ++ [.putc ch], txBuf := txBuf, txIdx := txIdx }
          writeLoop b txBuf s

/-- `State::write`. -/
def State.write (b : Build) (s : State) : Option State :=
  writeLoop b s.txBuf s

/-- `State::handle_tx_req`. -/
def State.handleTxReq (b : Build) (s : State) (tid : ℤ) (bytes : List UInt8) (blocking : Bool) :
    Option State := do
  let txBuf ← pushAll txBufCapacity s.txBuf bytes
  let s := { s with txBuf := txBuf }
  let s ←
    if blocking then do
      let endAt ← b.arith.add 64 s.txIdx s.txBuf.length
      let txQueue ← pushBack txQueueCapacity s.txQueue { tid := tid, endAt := endAt }
      some { s with txQueue := txQueue }
    else
      s.replyTx tid (.acked tid)
  s.write b

/-! ### Receiving -/

/-- The reply to a request with the first `len` bytes of `rx_buf`. -/
def State.replyRx (b : Build) (s : State) (req : RxReq) : Option State := do
  let bytes := s.rxBuf.take req.len
  let box ← newArrayMsg b rpiUartRxResp s.replyBox bytes
  State.reply { s with replyBox := box, rxBuf := s.rxBuf.drop req.len } req.tid
    (.received req.tid bytes)

/-- The second loop of `State::read`, over the requests in `rx_queue`. -/
def serveLoop (b : Build) : List RxReq → State → Option State
  | [], s => some s
  | req :: rxQueue, s =>
      if s.rxBuf.isEmpty then
        some s
      else if s.rxBuf.length < req.len then
        some s
      else do
        let s ← State.replyRx b { s with rxQueue := rxQueue } req
        serveLoop b rxQueue s

/-- `State::read`. -/
def State.read (b : Build) (s : State) : Option State := do
  let rxBuf ← pushAll rxBufCapacity s.rxBuf s.input
  let s := { s with rxBuf := rxBuf, input := [], log := s.log ++ s.input.map .getc }
  serveLoop b s.rxQueue s

/-- `State::handle_rx_req`. -/
def State.handleRxReq (b : Build) (s : State) (tid : ℤ) (len : ℕ) : Option State := do
  let rxQueue ← pushBack rxQueueCapacity s.rxQueue { tid := tid, len := len }
  State.read b { s with rxQueue := rxQueue }

/-- `State::rearm`. -/
def State.rearm (s : State) : Option State := do
  let box ← newMsg rpiUartIntr s.replyBox (u32Bytes s.uartId ++ u32Bytes 0)
  let s ← State.reply { s with replyBox := box } s.tidIntr (.rearmed s.tidIntr)
  some { s with log := s.log ++ [.armRx] }

/-! ### The loop of `_start` -/

/-- A message, and what the hardware does while it is handled. -/
structure Event where
  sender : ℤ
  msg : Msg
  room : ℕ
  input : List UInt8

/-- `ker_recv`. -/
def State.recv (s : State) (e : Event) : State :=
  { s with callers := s.callers ++ [e.sender], room := e.room, input := e.input }

/-- The `match` on the message. -/
def State.handle (b : Build) (s : State) (e : Event) : Option State :=
  match e.msg with
  | .rpiUartRxReq len => (s.recv e).handleRxReq b e.sender len
  | .rpiUartTxReq bytes => (s.recv e).handleTxReq b e.sender bytes false
  | .rpiUartTxBlockingReq bytes => (s.recv e).handleTxReq b e.sender bytes true
  | .rpiUartIntr _ _ => do
      let s ← (s.recv e).rearm
      let s ← s.read b
      s.write b
  | .unknown => some (s.recv e)

/-- One round of the loop. -/
def step (b : Build) (s : State) (e : Event) : Option State :=
  if e.msg.inBox then
    s.handle b e
  else
    none

theorem step_eq_some_iff {b : Build} {s s' : State} {e : Event} :
  step b s e = some s' ↔ e.msg.inBox = true ∧ s.handle b e = some s'
  := by rw [step, Option.ite_none_right_eq_some]

/-! ### The decoder -/

theorem variants_requests :
  Variants requests
  := by
  constructor
  · decide +kernel
  · decide +kernel

/-- A request to transmit is decoded exactly when its array is in the box. -/
theorem recvRequest_tx {m : Arith} {bytes ptr : List UInt8} {recvBuf : ℕ → UInt8}
    (h : Sent m rpiUartTxReq [⟨0, bytes.length, bytes, ptr⟩] recvBuf) :
  recvRequest m requests recvBuf
    = if (Msg.rpiUartTxReq bytes).inBox then some (some (rpiUartTxReq, bytes)) else none
  := by
  rw [recvRequest_eq h variants_requests (by simp [requests, rpiUartTxReq]) (by decide)]
  rfl

theorem recvRequest_txBlocking {m : Arith} {bytes ptr : List UInt8} {recvBuf : ℕ → UInt8}
    (h : Sent m rpiUartTxBlockingReq [⟨0, bytes.length, bytes, ptr⟩] recvBuf) :
  recvRequest m requests recvBuf
    = if (Msg.rpiUartTxBlockingReq bytes).inBox then
        some (some (rpiUartTxBlockingReq, bytes))
      else
        none
  := by
  rw [recvRequest_eq h variants_requests (by simp [requests, rpiUartTxBlockingReq]) (by decide)]
  rfl

end TrainsOs.Uart
