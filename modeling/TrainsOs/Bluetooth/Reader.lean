import TrainsOs.Bluetooth.Requests
import TrainsOs.Uart.Server

/-!
# The HCI reader

The task `rpi_bluetooth_hci_rx.rs`. It reads the bytes that the controller sends, packet by
packet, and passes packets of the remote client on to the GATT server, and events to it
and to the commander. It asks the UART server for so many bytes at a time as the packet says
that it has.

The UART server gives the bytes in the order in which they arrive, and the other two
servers answer each message.
-/

namespace TrainsOs.Bluetooth

open MsgBox Bytes

/-- `HciLeConnectionComplete`. -/
structure HciLeConnectionComplete where
  status : UInt8
  connectionHandle : ℕ
  role : UInt8
  peerAddressType : UInt8
  peerAddress : List UInt8
  connectionInterval : ℕ
  peripheralLatency : ℕ
  supervisionTimeout : ℕ
  centralClockAccuracy : UInt8

/-- The messages that the reader sends. -/
inductive HciMsg where
  | l2capPacket (aclHeader : UInt8 × UInt8) (chnlId : ℕ) (data : List UInt8)
  | hciLeConnectionComplete (event : HciLeConnectionComplete)
  | hciCommandComplete (numHciCommandPackets : UInt8) (commandOpcode : ℕ)
      (returnParam : List UInt8)
  | hciCommandStatus (numHciCommandPackets : UInt8) (commandOpcode : ℕ) (status : UInt8)
  | hciDisconnectionComplete (reason : UInt8)

/-- A message, and to whom it is sent. -/
inductive Sent where
  | gatt (msg : HciMsg)
  | commander (msg : HciMsg)

/-- The boxes of the reader; the bytes that arrive from the controller, and how many of them
were read; the positions at which the identifier of a packet was read; and the messages
sent. -/
structure Reader where
  reqBox : SendBox
  sendBox : SendBox
  input : ℕ → UInt8
  pos : ℕ
  ids : List ℕ
  out : List Sent

def hciCommandComplete : MsgType := headedMsg "HciCommandComplete"
def hciCommandStatus : MsgType := plainMsg "HciCommandStatus" 6
def hciLeConnectionComplete : MsgType := plainMsg "HciLeConnectionComplete" 20
def hciDisconnectionComplete : MsgType := plainMsg "HciDisconnectionComplete" 1

/-- A message with an array, and `head` in the fields in front of it. -/
def newHeadedMsg (b : Build) (ty : MsgType) (box : SendBox) (head bytes : List UInt8) :
    Option SendBox :=
  send b.arith ty u8 box defaultBoxSize (head ++ b.arrayDefault)
    [{ field := 8, cnt := bytes.length, contents := bytes, ptr := b.slice bytes.length }]

/-- The word of 16 bits at `i` of a slice. -/
def wordAt (bytes : List UInt8) (i : ℕ) : Option ℕ := do
  let low ← bytes[i]?
  let high ← bytes[i + 1]?
  some (high.toNat * 256 + low.toNat)

/-- The slice `&bytes[i..j]`. -/
def slice (bytes : List UInt8) (i j : ℕ) : Option (List UInt8) :=
  if j ≤ bytes.length then
    some ((bytes.take j).drop i)
  else
    none

/-! ### Reading -/

/-- `State::read_n_bytes` and `State::read_bytes`: a request to the UART server, which panics
when the bytes do not fit into its box. -/
def Reader.readBytes (s : Reader) (len : ℕ) : Option (Reader × List UInt8) := do
  let box ← newMsg rpiUartRxReq s.reqBox (u32Bytes len)
  if len ≤ arrayCapacity Uart.rpiUartRxResp then
    some ({ s with reqBox := box, pos := s.pos + len }, getBytes s.input s.pos len)
  else
    none

/-- `State::read_one_byte`. -/
def Reader.readOneByte (s : Reader) : Option (Reader × UInt8) := do
  let (s, data) ← s.readBytes 1
  let byte ← data[0]?
  some (s, byte)

/-! ### ACL packets -/

/-- What is done with the data of an ACL packet. -/
def Reader.handleAcl (b : Build) (s : Reader) (header : List UInt8) (dataLen : ℕ)
    (dataBytes : List UInt8) : Option Reader := do
  let pduLen ← wordAt dataBytes 0
  let len ← b.arith.add 16 pduLen 4
  if len = dataLen then do
    let chnlId ← wordAt dataBytes 2
    let data ← sliceFrom dataBytes 4
    let low ← header[0]?
    let high ← header[1]?
    if data.length = pduLen then do
      let box ← newHeadedMsg b l2capPacket s.sendBox
        ([low, high] ++ u16Bytes chnlId ++ List.replicate 4 0) data
      some { s with
        sendBox := box
        out := s.out ++ [.gatt (.l2capPacket (low, high) chnlId data)] }
    else
      none
  else
    some s

/-! ### Events -/

/-- LE Connection Complete: the fields of the message. -/
def leConnectionComplete (param : List UInt8) : Option HciLeConnectionComplete := do
  let status ← param[1]?
  let connectionHandle ← wordAt param 2
  let role ← param[4]?
  let peerAddressType ← param[5]?
  let peerAddress ← slice param 6 12
  let connectionInterval ← wordAt param 12
  let peripheralLatency ← wordAt param 14
  let supervisionTimeout ← wordAt param 16
  let centralClockAccuracy ← param[18]?
  some
    { status := status
      connectionHandle := connectionHandle
      role := role
      peerAddressType := peerAddressType
      peerAddress := peerAddress
      connectionInterval := connectionInterval
      peripheralLatency := peripheralLatency
      supervisionTimeout := supervisionTimeout
      centralClockAccuracy := centralClockAccuracy }

/-- The bytes of the struct. -/
def HciLeConnectionComplete.bytes (e : HciLeConnectionComplete) : List UInt8 :=
  [e.status, 0] ++ u16Bytes e.connectionHandle ++ [e.role, e.peerAddressType] ++ e.peerAddress
    ++ u16Bytes e.connectionInterval ++ u16Bytes e.peripheralLatency
    ++ u16Bytes e.supervisionTimeout ++ [e.centralClockAccuracy, 0]

/-- A BLE event. -/
def Reader.handleLeEvent (s : Reader) (param : List UInt8) : Option Reader := do
  let subeventCode ← param[0]?
  if subeventCode = 0x01 then do
    let event ← leConnectionComplete param
    let box ← newMsg Bluetooth.hciLeConnectionComplete s.sendBox event.bytes
    some { s with
      sendBox := box
      out := s.out ++ [.gatt (.hciLeConnectionComplete event),
        .commander (.hciLeConnectionComplete event)] }
  else if subeventCode = 0x07 then do
    let _ ← wordAt param 1
    let _ ← wordAt param 3
    let _ ← wordAt param 5
    let _ ← wordAt param 7
    let _ ← wordAt param 9
    some s
  else
    some s

/-- Command Complete Event. -/
def Reader.handleCommandComplete (b : Build) (s : Reader) (param : List UInt8) :
    Option Reader := do
  let numHciCommandPackets ← param[0]?
  let commandOpcode ← wordAt param 1
  let returnParam ← sliceFrom param 3
  let box ← newHeadedMsg b Bluetooth.hciCommandComplete s.sendBox
    ([numHciCommandPackets, 0] ++ u16Bytes commandOpcode ++ List.replicate 4 0) returnParam
  some { s with
    sendBox := box
    out := s.out ++
      [.commander (.hciCommandComplete numHciCommandPackets commandOpcode returnParam)] }

/-- Disconnection Event. -/
def Reader.handleDisconnection (s : Reader) (param : List UInt8) : Option Reader := do
  let reason ← param[3]?
  let box ← newMsg Bluetooth.hciDisconnectionComplete s.sendBox [reason]
  some { s with
    sendBox := box
    out := s.out ++ [.gatt (.hciDisconnectionComplete reason),
      .commander (.hciDisconnectionComplete reason)] }

/-- Command Status Event. -/
def Reader.handleCommandStatus (s : Reader) (param : List UInt8) : Option Reader := do
  let status ← param[0]?
  let numHciCommandPackets ← param[1]?
  let commandOpcode ← wordAt param 2
  let box ← newMsg Bluetooth.hciCommandStatus s.sendBox
    ([numHciCommandPackets, 0] ++ u16Bytes commandOpcode ++ [status, 0])
  some { s with
    sendBox := box
    out := s.out ++ [.commander (.hciCommandStatus numHciCommandPackets commandOpcode status)] }

/-- What is done with the parameters of an event. -/
def Reader.handleEvent (b : Build) (s : Reader) (eventCode : UInt8) (param : List UInt8) :
    Option Reader :=
  if eventCode = 0x3e then s.handleLeEvent param
  else if eventCode = 0x0e then s.handleCommandComplete b param
  else if eventCode = 0x05 then s.handleDisconnection param
  else if eventCode = 0x0f then s.handleCommandStatus param
  else some s

/-! ### The loop of `_start` -/

/-- One round of the loop. -/
def Reader.round (b : Build) (s : Reader) : Option Reader := do
  let (s, hciPacketId) ← Reader.readOneByte { s with ids := s.ids ++ [s.pos] }
  if hciPacketId = 0x02 then do
    let (s, header) ← s.readBytes 4
    let dataLen ← wordAt header 2
    let (s, dataBytes) ← s.readBytes dataLen
    s.handleAcl b header dataLen dataBytes
  else if hciPacketId = 0x04 then do
    let (s, eventCode) ← s.readOneByte
    let (s, paramBytesLen) ← s.readOneByte
    let (s, paramBytes) ← s.readBytes paramBytesLen.toNat
    s.handleEvent b eventCode paramBytes
  else
    none

/-- `n` rounds. -/
def Reader.rounds (b : Build) : ℕ → Reader → Option Reader
  | 0, s => some s
  | n + 1, s => do
      let s ← s.round b
      Reader.rounds b n s

end TrainsOs.Bluetooth
