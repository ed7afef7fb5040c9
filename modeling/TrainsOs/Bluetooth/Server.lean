import TrainsOs.Bluetooth.Table
import TrainsOs.User.Receive

/-!
# The GATT server

The task `rpi_bluetooth_gatt.rs`. It answers the requests of the remote client, which
arrive as packets, tells the local monitors of a characteristic what is written to it,
lets local tasks publish values, and sends notifications.

The Makefile builds for release, so arithmetic wraps. The UART server and the clock server
answer each request of this one.
-/

namespace TrainsOs.Bluetooth

open MsgBox

/-- The messages, by the variants of `RecvEnum`. The name in a request is that of a
characteristic, as a string. -/
inductive Msg where
  | l2capPacket (data : List UInt8)
  | hciLeConnectionComplete (connectionHandle : ℕ)
  | clockWaitResp
  | hciDisconnectionComplete
  | gattServerMonitorReq (name : String)
  | gattServerPublishReq (name : String) (bytes : List UInt8)
  | unknown

/-- What the server does to the outside: its replies, and the packets for the client that
it sends to the UART server. -/
inductive Output where
  | hciReply (tid : ℤ)
  | gattServerMonitorResp (tid : ℤ) (bytes : List UInt8)
  | gattServerPublishResp (tid : ℤ)
  | clockWaitReq (tid : ℤ) (ticks : ℕ)
  | uart (bytes : List UInt8)
deriving DecidableEq

/-- The variables of the server; the tasks that wait for its replies; and what it has done
since its last `ker_recv`. -/
structure State where
  gatt : Gatt
  /-- `GLOBAL_MONITOR_MAP`: for a handle the tasks that monitor it. -/
  monitorMap : List (ℕ × List ℤ)
  conn : Bool
  handle : ℕ
  lastPacketTick : ℕ
  sendBox : SendBox
  /-- The box of the `Responder`. -/
  respBox : SendBox
  tidTimeout : ℤ
  tidClock : ℤ
  callers : List ℤ
  out : List Output

/-- A message, and what the system calls return while it is handled: the ticks by two calls
of `get_cur_tick`, and `idle_percent`. -/
structure Event where
  sender : ℤ
  msg : Msg
  now : ℕ
  later : ℕ
  idlePercent : ℕ

/-- The number of entries of the map of monitors. -/
def monitorMapCapacity : ℕ := 256

/-- The number of monitors of one handle. -/
def monitorsCapacity : ℕ := 32

/-- A struct of an array behind eight bytes of other fields. -/
def headedMsg (typeName : String) : MsgType where
  typeName := typeName.toUTF8.data.toList
  size := 8 + sizeofAttached
  fields := [8]
  field_le := by simp
  apart := List.pairwise_singleton _ _

def l2capPacket : MsgType := headedMsg "L2capPacket"
def gattServerMonitorReq : MsgType := arrayMsg "GattServerMonitorReq"
def gattServerMonitorResp : MsgType := arrayMsg "GattServerMonitorResp"
def hciReply : MsgType := plainMsg "HciReply" 0
def gattServerPublishResp : MsgType := plainMsg "GattServerPublishResp" 0
def clockWaitReq : MsgType := plainMsg "ClockWaitReq" 8

/-- The arrays of the message are in the box of the server. `from_recv_bytes` panics if they
are not. -/
def Msg.inBox : Msg → Bool
  | .l2capPacket data => inRecvBox Bluetooth.l2capPacket [data]
  | .gattServerMonitorReq name =>
      inRecvBox Bluetooth.gattServerMonitorReq [name.toUTF8.data.toList]
  | .gattServerPublishReq name bytes =>
      inRecvBox MsgBox.gattServerPublishReq [name.toUTF8.data.toList, bytes]
  | _ => true

/-- The low and the high byte of a word of 16 bits. -/
def u16Bytes (n : ℕ) : List UInt8 :=
  [UInt8.ofNat n, UInt8.ofNat (n / 256)]

/-! ### The start -/

/-- A characteristic in the list of `global_gatt_set`. -/
def charac (name : Option String) (uuid : GattUuid) (property : UInt8) (initVal : List UInt8) :
    GattBuilderCharac where
  name := name
  characUuid := uuid
  property := property
  initVal := some initVal

/-- The list of services of `global_gatt_set`. -/
def globalBuilder : List (GattBuilderService × List GattBuilderCharac) :=
  let readNotify := characPropertyRead ||| characPropertyNotify
  [({ serviceUuid := .u16 0x1800 },
    [charac none (.u16 0x2a00) characPropertyRead "CAR".toUTF8.data.toList,
     charac none (.u16 0x2a01) characPropertyRead [0x80, 0x01]]),
   ({ serviceUuid := .u16 0x1801 },
    [charac (some "DatabaseHash") (.u16 0x2b2a) characPropertyRead (leBytes 16 1)]),
   ({ serviceUuid := .u128 0x0100 },
    [charac (some "Clock") (.u128 0x0101) readNotify (leBytes 8 0),
     charac (some "CPU Usage") (.u128 0x0102) readNotify (leBytes 16 0),
     charac (some "Cmd Input") (.u128 0x0103) characPropertyWrite (leBytes 8 0),
     charac (some "Cmd Ack") (.u128 0x0104) readNotify (leBytes 16 0),
     charac (some "Msg") (.u128 0x0105) readNotify (leBytes 8 0),
     charac (some "Imu") (.u128 0x0106) readNotify (leBytes 8 0),
     charac (some "Encoder") (.u128 0x0107) readNotify (leBytes 24 0)])]

/-- The state at the start of the loop. -/
def State.new (sendBox respBox : SendBox) (tidTimeout tidClock : ℤ) : Option State := do
  let gatt ← Gatt.new globalBuilder
  some
    { gatt := gatt, monitorMap := [], conn := false, handle := 0, lastPacketTick := 0
      sendBox := sendBox, respBox := respBox, tidTimeout := tidTimeout, tidClock := tidClock
      callers := [], out := [] }

/-! ### Bytes of a request -/

/-- `read_u16`. -/
def readU16 : List UInt8 → ℕ
  | [] => 0
  | [a] => a.toNat
  | a :: b :: _ => b.toNat * 256 + a.toNat

/-- The slice `&data[n..]`. -/
def sliceFrom (data : List UInt8) (n : ℕ) : Option (List UInt8) :=
  if n ≤ data.length then
    some (data.drop n)
  else
    none

/-! ### Replies and packets -/

/-- `ker_reply(tid, &send_box).unwrap()`. -/
def State.reply (s : State) (tid : ℤ) (output : Output) : Option State := do
  let callers ← kerReply s.callers tid
  some { s with callers := callers, out := s.out ++ [output] }

/-- A reply with a new message without arrays. -/
def State.replyNew (s : State) (ty : MsgType) (contents : List UInt8) (tid : ℤ)
    (output : Output) : Option State := do
  let box ← newMsg ty s.sendBox contents
  State.reply { s with sendBox := box } tid output

/-- A packet for the UART server, which replies to it. -/
def State.sendUart (b : Build) (s : State) (bytes : List UInt8) : Option State := do
  let box ← newArrayMsg b rpiUartTxReq s.respBox bytes
  some { s with respBox := box, out := s.out ++ [.uart bytes] }

/-- The packet that carries a PDU. -/
def gattPacket (aclHandle : ℕ) (pdu : List UInt8) : List UInt8 :=
  0x02 :: u16Bytes aclHandle ++ u16Bytes (pdu.length + 4) ++ u16Bytes pdu.length ++
    u16Bytes 0x04 ++ pdu

/-- `Responder::resp_gatt`. -/
def State.respGatt (b : Build) (s : State) (pdu : List UInt8) : Option State :=
  s.sendUart b (gattPacket s.handle pdu)

/-- `Responder::resp_acl_empty`. -/
def State.respAclEmpty (b : Build) (s : State) : Option State :=
  s.sendUart b (0x02 :: u16Bytes s.handle ++ u16Bytes 0)

/-- `Responder::update_trigger`. -/
def State.updateTrigger (b : Build) (s : State) (charac : GattCharac) : Option State :=
  match charac.clientConfigHandle with
  | none => some s
  | some configHandle => do
      let clientConfig ← (← s.gatt.attRead configHandle).attVal[0]?
      if clientConfig = 0 then
        some s
      else do
        let attr ← s.gatt.attRead charac.valueHandle
        let opcode : UInt8 :=
          if clientConfig &&& characClientConfigNotify ≠ 0 then 0x1b
          else if clientConfig &&& characClientConfigIndicate ≠ 0 then 0x1d
          else 0x0
        s.sendUart b
          (gattPacket s.handle (opcode :: u16Bytes charac.valueHandle ++ attr.attVal))

/-! ### The requests of the client -/

/-- An ATT error response to the request `opcode`. -/
def errorRsp (opcode : UInt8) (handle : ℕ) (reason : UInt8) : List UInt8 :=
  [0x01, opcode] ++ u16Bytes handle ++ [reason]

/-- An entry of a response: the two bytes of the handle, and what `value` gives for it. -/
def listEntry (value : ℕ → Option (List UInt8)) (resp : List UInt8) (handleId : ℕ) :
    Option (List UInt8) := do
  let resp ← pushBack valCapacity resp (UInt8.ofNat handleId)
  let resp ← pushBack valCapacity resp (UInt8.ofNat (handleId / 256))
  extend valCapacity resp (← value handleId)

/-- A response of at most 400 bytes: what it starts with, and an entry for each handle. -/
def listRsp (start : List UInt8) (value : ℕ → Option (List UInt8)) (handleArr : List ℕ) :
    Option (List UInt8) := do
  let resp ← fromSlice valCapacity start
  handleArr.foldlM (listEntry value) resp

/-- ATT_EXCHANGE_MTU_REQ. -/
def State.exchangeMtu (b : Build) (s : State) (data : List UInt8) : Option State := do
  let _ ← data[2]?
  let _ ← data[1]?
  s.respGatt b [0x03, 5, 2]

/-- ATT_READ_BY_GROUP_TYPE_REQ. -/
def State.readByGroupType (b : Build) (s : State) (data : List UInt8) : Option State := do
  let startHandle := readU16 (← sliceFrom data 1)
  let endHandle := readU16 (← sliceFrom data 3)
  let attrGroupType ← GattUuid.tryFrom (← sliceFrom data 5)
  let handleArr ← s.gatt.gattReadByGroupType startHandle endHandle attrGroupType
  match handleArr with
  | [] => s.respGatt b (errorRsp 0x10 startHandle 0x0a)
  | first :: _ => do
      let valueLen := (← s.gatt.attRead first).attVal.length
      let resp ← listRsp [0x11, UInt8.ofNat (valueLen + 2 + 2)] (fun handleId => do
        let groupEnd ← s.gatt.gattReadEndOfGroup handleId
        let val ← s.gatt.attRead handleId
        some (u16Bytes groupEnd ++ val.attVal)) handleArr
      s.respGatt b resp

/-- ATT_READ_BY_TYPE_REQ. -/
def State.readByType (b : Build) (s : State) (data : List UInt8) : Option State := do
  let startHandle := readU16 (← sliceFrom data 1)
  let endHandle := readU16 (← sliceFrom data 3)
  let attrType ← GattUuid.tryFrom (← sliceFrom data 5)
  let handleArr ← s.gatt.gattReadByType startHandle endHandle attrType
  match handleArr with
  | [] => s.respGatt b (errorRsp 0x08 startHandle 0x0a)
  | first :: _ => do
      let valueLen := (← s.gatt.attRead first).attVal.length
      let resp ← listRsp [0x09, UInt8.ofNat (valueLen + 2)] (fun handleId => do
        let val ← s.gatt.attRead handleId
        some val.attVal) handleArr
      s.respGatt b resp

/-- ATT_FIND_INFORMATION_REQ. -/
def State.findInformation (b : Build) (s : State) (data : List UInt8) : Option State := do
  let startHandle := readU16 (← sliceFrom data 1)
  let endHandle := readU16 (← sliceFrom data 3)
  let handleArr ← s.gatt.gattFindInfo startHandle endHandle
  match handleArr with
  | [] => s.respGatt b (errorRsp 0x04 startHandle 0x0a)
  | first :: _ => do
      let valueLen := (← s.gatt.attRead first).attType.toVec.length
      let resp ← listRsp [0x05, if valueLen = 2 then 0x01 else 0x02] (fun handleId => do
        let val ← s.gatt.attRead handleId
        some val.attType.toVec) handleArr
      s.respGatt b resp

/-- The monitors of the handle are told what is written, and forgotten. -/
def State.notifyMonitors (b : Build) (s : State) (handleId : ℕ) (bytes : List UInt8) :
    Option State :=
  match getMap s.monitorMap handleId with
  | none => some s
  | some monitors => do
      let box ← newArrayMsg b gattServerMonitorResp s.sendBox bytes
      let s ← monitors.foldlM
        (fun s m => State.reply s m (.gattServerMonitorResp m bytes)) { s with sendBox := box }
      some { s with monitorMap := setMap s.monitorMap handleId [] }

/-- ATT_WRITE_REQ. -/
def State.writeReq (b : Build) (s : State) (data : List UInt8) : Option State := do
  let handleId := readU16 (← sliceFrom data 1)
  let bytes ← sliceFrom data 3
  let gatt ← s.gatt.attWrite handleId bytes
  let s ← State.respGatt b { s with gatt := gatt } [0x13]
  s.notifyMonitors b handleId bytes

/-- ATT_READ_REQ. -/
def State.readReq (b : Build) (s : State) (data : List UInt8) : Option State := do
  let handleId := readU16 (← sliceFrom data 1)
  match s.gatt.attRead handleId with
  | some attr => do
      let resp ← fromSlice valCapacity [0x0b]
      let resp ← extend valCapacity resp attr.attVal
      s.respGatt b resp
  | none => s.respGatt b (errorRsp 0x0a handleId 0x01)

/-- The packet of a client, by its opcode. -/
def State.handlePacket (b : Build) (s : State) (data : List UInt8) : Option State := do
  let opcode ← data[0]?
  if opcode = 0x02 then s.exchangeMtu b data
  else if opcode = 0x03 then do
    let _ ← data[2]?
    let _ ← data[1]?
    some s
  else if opcode = 0x10 then s.readByGroupType b data
  else if opcode = 0x08 then s.readByType b data
  else if opcode = 0x04 then s.findInformation b data
  else if opcode = 0x12 then s.writeReq b data
  else if opcode = 0x0a then s.readReq b data
  else some s

/-! ### The local tasks -/

/-- A new monitor. -/
def State.addMonitor (s : State) (sender : ℤ) (name : String) : Option State :=
  match s.gatt.characByName name with
  | none => some s
  | some charac => do
      let monitors := (getMap s.monitorMap charac.valueHandle).getD []
      let monitors ← pushBack monitorsCapacity monitors sender
      let monitorMap ← insertMap monitorMapCapacity s.monitorMap charac.valueHandle monitors
      some { s with monitorMap := monitorMap }

/-- A value is set, and the client notified. -/
def State.publish (b : Build) (s : State) (charac : GattCharac) (bytes : List UInt8) :
    Option State := do
  let gatt ← s.gatt.attWrite charac.valueHandle bytes
  let s := { s with gatt := gatt }
  if s.conn then
    s.updateTrigger b charac
  else
    some s

/-- The branch of the messages of `tid_clock`. -/
def State.clockTick (b : Build) (s : State) (e : Event) : Option State := do
  let s ←
    if s.conn then do
      let charac ← s.gatt.characByName "Clock"
      let s ← s.publish b charac (leBytes 8 e.now)
      let charac ← s.gatt.characByName "CPU Usage"
      s.publish b charac (leBytes 8 e.now ++ leBytes 8 e.idlePercent)
    else
      some s
  let ticks := 50 - e.later % 50
  s.replyNew clockWaitReq (leBytes 8 ticks) e.sender (.clockWaitReq e.sender ticks)

/-- The branch of the messages of `tid_timeout`. -/
def State.timeout (b : Build) (s : State) (e : Event) : Option State := do
  let elapsed := (e.now + 2 ^ 64 - s.lastPacketTick) % 2 ^ 64
  if s.conn ∧ elapsed < 5 then do
    let ticks := (s.lastPacketTick + 5 + 2 ^ 64 - e.now) % 2 ^ 64
    s.replyNew clockWaitReq (leBytes 8 ticks) e.sender (.clockWaitReq e.sender ticks)
  else do
    let s ← if s.conn then s.respAclEmpty b else some s
    s.replyNew clockWaitReq (leBytes 8 5) e.sender (.clockWaitReq e.sender 5)

/-! ### The loop of `_start` -/

/-- `ker_recv`. -/
def State.recv (s : State) (e : Event) : State :=
  { s with callers := s.callers ++ [e.sender], out := [] }

/-- The `match` on the message. -/
def State.serve (b : Build) (s : State) (e : Event) : Option State :=
  match e.msg with
  | .l2capPacket data => do
      let s ← s.replyNew hciReply [] e.sender (.hciReply e.sender)
      let s ← s.handlePacket b data
      some { s with lastPacketTick := e.now }
  | .gattServerMonitorReq name => s.addMonitor e.sender name
  | .gattServerPublishReq name bytes => do
      let s ← s.replyNew gattServerPublishResp [] e.sender (.gattServerPublishResp e.sender)
      match s.gatt.characByName name with
      | some charac => s.publish b charac bytes
      | none => some s
  | .hciLeConnectionComplete connectionHandle => do
      let s ← s.replyNew hciReply [] e.sender (.hciReply e.sender)
      some { s with conn := true, handle := connectionHandle, lastPacketTick := e.now }
  | .hciDisconnectionComplete => do
      let s ← s.replyNew hciReply [] e.sender (.hciReply e.sender)
      let gatt ← s.gatt.clearSubscription
      some { s with conn := false, gatt := gatt }
  | .clockWaitResp => do
      let s ← if e.sender = s.tidClock then s.clockTick b e else some s
      if e.sender = s.tidTimeout then s.timeout b e else some s
  | .unknown => some s

/-- One round of the loop. -/
def step (b : Build) (s : State) (e : Event) : Option State :=
  if e.msg.inBox then
    (s.recv e).serve b e
  else
    none

theorem step_eq_serve {b : Build} {s : State} {e : Event} (h : e.msg.inBox = true) :
  step b s e = (s.recv e).serve b e
  := if_pos h

theorem serve_of_step {b : Build} {s s' : State} {e : Event} (h : step b s e = some s') :
  (s.recv e).serve b e = some s'
  := (Option.ite_none_right_eq_some.mp h).2

end TrainsOs.Bluetooth
