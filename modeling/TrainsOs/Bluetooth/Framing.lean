import TrainsOs.Bluetooth.Reader
import TrainsOs.Bluetooth.Layout

/-!
# The framing of packets

A packet of the GATT server carries its length twice, for the ACL layer and for L2CAP, and
an event carries the number of its parameters. The reader reads the identifier, the header
and then exactly the rest of the packet, whatever it makes of it, so that it is at the start
of the next packet when it reads an identifier again.
-/

namespace TrainsOs.Bluetooth

open MsgBox Bytes

variable {b : Build} {s s' : Reader} {input : ℕ → UInt8} {pos : ℕ} {xs ys : List UInt8}

/-! ### Bytes that arrive -/

/-- The bytes `bs` arrive from the position `pos` on. -/
def Arrives (input : ℕ → UInt8) (pos : ℕ) (bs : List UInt8) : Prop :=
  getBytes input pos bs.length = bs

theorem arrives_append :
  Arrives input pos (xs ++ ys) ↔ Arrives input pos xs ∧ Arrives input (pos + xs.length) ys
  := by
  rw [Arrives, List.length_append, getBytes_append]
  constructor
  · intro h
    exact List.append_inj h length_getBytes
  · rintro ⟨hx, hy⟩
    rw [hx, hy]

theorem arrives_cons {x : UInt8} :
  Arrives input pos (x :: xs) ↔ Arrives input pos [x] ∧ Arrives input (pos + 1) xs
  := @arrives_append input pos [x] xs

/-- After some bytes are read. -/
def Reader.took (s : Reader) (box : SendBox) (n : ℕ) : Reader :=
  { s with reqBox := box, pos := s.pos + n }

theorem readBytes_eq (hbytes : Arrives s.input s.pos xs) (hlen : xs.length ≤ 984) :
  ∃ box, s.readBytes xs.length = some (s.took box xs.length, xs)
  := by
  have hbase : rpiUartRxReq.base ≤ defaultBoxSize := by decide
  have hcap : arrayCapacity Uart.rpiUartRxResp = 984 := by decide
  obtain ⟨box, hbox⟩ := newMsg_eq hbase s.reqBox (u32Bytes xs.length)
  use box
  rw [Reader.readBytes, hbox, Option.bind_eq_bind, Option.bind_some, if_pos (by rwa [hcap]), hbytes]
  rfl

theorem readOneByte_eq {x : UInt8} (hbyte : Arrives s.input s.pos [x]) :
  ∃ box, s.readOneByte = some (s.took box 1, x)
  := by
  obtain ⟨box, hbox⟩ := readBytes_eq hbyte (by simp)
  use box
  rw [Reader.readOneByte, show (1 : ℕ) = [x].length from rfl, hbox]
  rfl

/-! ### Packets -/

/-- A packet: data of a connection with an ATT payload, or an event with its parameters. -/
inductive Packet where
  | acl (handle : ℕ) (pdu : List UInt8)
  | event (eventCode : UInt8) (param : List UInt8)

/-- The parameters that the reader looks at are there. -/
def LongEnough (eventCode : UInt8) (param : List UInt8) : Prop :=
  (eventCode = 0x3e → ∃ subeventCode rest, param = subeventCode :: rest
    ∧ (subeventCode = 0x01 → 19 ≤ param.length) ∧ (subeventCode = 0x07 → 11 ≤ param.length))
  ∧ (eventCode = 0x0e → 3 ≤ param.length)
  ∧ (eventCode = 0x05 → 4 ≤ param.length)
  ∧ (eventCode = 0x0f → 4 ≤ param.length)

/-- The ATT payload of a notification: the opcode, the handle of the value, and the value. -/
def State.notification (s : State) (charac : GattCharac) : Option (List UInt8) := do
  let configHandle ← charac.clientConfigHandle
  let clientConfig ← (← s.gatt.attRead configHandle).attVal[0]?
  let attr ← s.gatt.attRead charac.valueHandle
  let opcode : UInt8 :=
    if clientConfig &&& characClientConfigNotify ≠ 0 then 0x1b
    else if clientConfig &&& characClientConfigIndicate ≠ 0 then 0x1d
    else 0x0
  some (opcode :: u16Bytes charac.valueHandle ++ attr.attVal)

/-- The bytes that the packet consists of. -/
inductive Built (b : Build) : Packet → List UInt8 → Prop where
  | respGatt {s s' : State} {pdu bytes : List UInt8} (hhandle : s.handle < 2 ^ 16)
      (hlen : pdu.length ≤ 900) (hresp : s.respGatt b pdu = some s')
      (hout : s'.out = s.out ++ [.uart bytes]) : Built b (.acl s.handle pdu) bytes
  | updateTrigger {s s' : State} {charac : GattCharac} {pdu bytes : List UInt8}
      (hhandle : s.handle < 2 ^ 16) (hpdu : s.notification charac = some pdu)
      (hlen : pdu.length ≤ 900) (htrigger : s.updateTrigger b charac = some s')
      (hout : s'.out = s.out ++ [.uart bytes]) : Built b (.acl s.handle pdu) bytes
  | event {eventCode : UInt8} {param : List UInt8} (hlen : param.length ≤ 255)
      (hlong : LongEnough eventCode param) :
      Built b (.event eventCode param) (0x04 :: eventCode :: UInt8.ofNat param.length :: param)

/-- What is reported of a packet of the remote client: the two bytes of the header, the
channel and the data. -/
def Sent.l2cap : Sent → Option ((UInt8 × UInt8) × ℕ × List UInt8)
  | .gatt (.l2capPacket aclHeader chnlId data) => some (aclHeader, chnlId, data)
  | _ => none

/-- What should be reported of a packet. -/
def Packet.l2cap : Packet → Option ((UInt8 × UInt8) × ℕ × List UInt8)
  | .acl handle pdu => some ((UInt8.ofNat handle, UInt8.ofNat (handle / 256)), 0x04, pdu)
  | .event _ _ => none

/-- The positions at which the packets begin. -/
def starts : ℕ → List (List UInt8) → List ℕ
  | _, [] => []
  | pos, bytes :: rest => pos :: starts (pos + bytes.length) rest

/-- The reader has read `n` bytes and one identifier, at the start. -/
structure Reads (s s' : Reader) (n : ℕ) : Prop where
  input : s'.input = s.input
  pos : s'.pos = s.pos + n
  ids : s'.ids = s.ids ++ [s.pos]

/-- It has reported `l2cap` of a remote client. -/
structure Consumes (s s' : Reader) (n : ℕ)
    (l2cap : Option ((UInt8 × UInt8) × ℕ × List UInt8)) : Prop where
  reads : Reads s s' n
  out : s'.out.filterMap Sent.l2cap = s.out.filterMap Sent.l2cap ++ l2cap.toList

/-! ### One packet -/

theorem toNat_u16 {n : ℕ} (h : n < 2 ^ 16) :
  (UInt8.ofNat (n / 256)).toNat * 256 + (UInt8.ofNat n).toNat = n
  := by
  rw [UInt8.toNat_ofNat', UInt8.toNat_ofNat']
  omega

/-- The word at the start of a slice. -/
theorem wordAt_zero {n : ℕ} (h : n < 2 ^ 16) (rest : List UInt8) :
  wordAt (u16Bytes n ++ rest) 0 = some n
  := congrArg some (toNat_u16 h)

/-- The word behind another one. -/
theorem wordAt_two {n : ℕ} (h : n < 2 ^ 16) (k : ℕ) (rest : List UInt8) :
  wordAt (u16Bytes k ++ (u16Bytes n ++ rest)) 2 = some n
  := congrArg some (toNat_u16 h)

/-- A word that is within a slice. -/
theorem wordAt_of_lt {bytes : List UInt8} {i : ℕ} (h : i + 1 < bytes.length) :
  ∃ n, wordAt bytes i = some n
  := by
  rw [wordAt, List.getElem?_eq_getElem (by omega), List.getElem?_eq_getElem h]
  exact ⟨_, rfl⟩

theorem sliceFrom_append (xs ys : List UInt8) :
  sliceFrom (xs ++ ys) xs.length = some ys
  := by
  rw [sliceFrom, if_pos (by rw [List.length_append]; omega), List.drop_left]

theorem newHeadedMsg_eq (b : Build) (name : String) (box : SendBox) (head : List UInt8)
    {bytes : List UInt8} (hbase : (headedMsg name).base ≤ defaultBoxSize)
    (hlen : bytes.length ≤ arrayCapacity (headedMsg name)) :
  ∃ box', newHeadedMsg b (headedMsg name) box head bytes = some box'
  := sendBytes_eq b.arith box _ 8 _ hbase hlen

/-- The packet of a PDU is reported with the data that it carries. -/
theorem handleAcl_spec (s : Reader) {handle : ℕ} {pdu : List UInt8} (hlen : pdu.length ≤ 900) :
  ∃ box, s.handleAcl b (u16Bytes handle ++ (u16Bytes (pdu.length + 4) ++ [])) (pdu.length + 4)
      (u16Bytes pdu.length ++ (u16Bytes 0x04 ++ pdu))
    = some { s with
        sendBox := box
        out := s.out ++ [.gatt (.l2capPacket (UInt8.ofNat handle, UInt8.ofNat (handle / 256))
          0x04 pdu)] }
  := by
  have hbase : l2capPacket.base ≤ defaultBoxSize := by decide
  have hcap : arrayCapacity l2capPacket = 976 := by decide
  have hadd : b.arith.add 16 pdu.length 4 = some (pdu.length + 4) :=
    Arith.add_of_lt (by omega)
  have hdata : sliceFrom (u16Bytes pdu.length ++ (u16Bytes 0x04 ++ pdu)) 4 = some pdu := by
    rw [← List.append_assoc]
    apply sliceFrom_append
  have hfit : pdu.length ≤ arrayCapacity l2capPacket := by omega
  obtain ⟨box, hbox⟩ := newHeadedMsg_eq b "L2capPacket" s.sendBox
    ([UInt8.ofNat handle, UInt8.ofNat (handle / 256)] ++ u16Bytes 0x04 ++ List.replicate 4 0)
    hbase hfit
  use box
  have hlow : (u16Bytes handle ++ (u16Bytes (pdu.length + 4) ++ []))[0]?
      = some (UInt8.ofNat handle) := rfl
  have hhigh : (u16Bytes handle ++ (u16Bytes (pdu.length + 4) ++ []))[1]?
      = some (UInt8.ofNat (handle / 256)) := rfl
  simp only [Reader.handleAcl, wordAt_zero (by omega : pdu.length < 2 ^ 16), hadd, wordAt_two
    (by omega : 0x04 < 2 ^ 16), hdata, hlow, hhigh, Option.bind_eq_bind, Option.bind_some, if_true,
    l2capPacket, hbox]

/-- A packet with a header of four bytes is read to its end. -/
theorem round_acl {header data : List UInt8} (hheader : header.length = 4)
    (hword : wordAt header 2 = some data.length) (hlen : data.length ≤ 984)
    (hin : Arrives s.input s.pos (0x02 :: (header ++ data))) :
  ∃ s₁, s.round b = s₁.handleAcl b header data.length data ∧ Reads s s₁ (5 + data.length)
    ∧ s₁.out = s.out
  := by
  obtain ⟨hid, hin⟩ := arrives_cons.mp hin
  obtain ⟨hin, hdata⟩ := arrives_append.mp hin
  let s₀ : Reader := { s with ids := s.ids ++ [s.pos] }
  obtain ⟨box₁, h₁⟩ := @readOneByte_eq s₀ 0x02 hid
  obtain ⟨box₂, h₂⟩ := @readBytes_eq (s₀.took box₁ 1) header hin (by omega)
  obtain ⟨box₃, h₃⟩ := @readBytes_eq ((s₀.took box₁ 1).took box₂ header.length) data hdata hlen
  refine ⟨((s₀.took box₁ 1).took box₂ header.length).took box₃ data.length, ?_, ⟨rfl, ?_, rfl⟩, rfl⟩
  · rw [hheader] at h₂ h₃ ⊢
    rw [Reader.round, h₁]
    simp only [Option.bind_eq_bind, Option.bind_some, if_true, h₂, hword, h₃]
  · simp only [Reader.took, s₀]
    omega

/-- An event is read to its end. -/
theorem round_event {eventCode : UInt8} {param : List UInt8} (hlen : param.length ≤ 255)
    (hin : Arrives s.input s.pos (0x04 :: eventCode :: UInt8.ofNat param.length :: param)) :
  ∃ s₁, s.round b = s₁.handleEvent b eventCode param ∧ Reads s s₁ (3 + param.length)
    ∧ s₁.out = s.out
  := by
  obtain ⟨hid, hin⟩ := arrives_cons.mp hin
  obtain ⟨hcode, hin⟩ := arrives_cons.mp hin
  obtain ⟨hcount, hparam⟩ := arrives_cons.mp hin
  have hnat : (UInt8.ofNat param.length).toNat = param.length := by
    rw [UInt8.toNat_ofNat']
    omega
  let s₀ : Reader := { s with ids := s.ids ++ [s.pos] }
  obtain ⟨box₁, h₁⟩ := @readOneByte_eq s₀ 0x04 hid
  obtain ⟨box₂, h₂⟩ := @readOneByte_eq (s₀.took box₁ 1) eventCode hcode
  obtain ⟨box₃, h₃⟩ := @readOneByte_eq ((s₀.took box₁ 1).took box₂ 1) _ hcount
  obtain ⟨box₄, h₄⟩ := @readBytes_eq (((s₀.took box₁ 1).took box₂ 1).took box₃ 1) param hparam
    (by omega)
  refine ⟨(((s₀.took box₁ 1).took box₂ 1).took box₃ 1).took box₄ param.length, ?_, ⟨rfl, ?_, rfl⟩,
    rfl⟩
  · have hne : ¬ (0x04 : UInt8) = 0x02 := by decide
    rw [Reader.round, h₁]
    simp only [Option.bind_eq_bind, Option.bind_some, if_neg hne, if_true, h₂, h₃, hnat, h₄]
  · simp only [Reader.took, s₀]
    omega

/-- Nothing but the box and the messages sent has changed, and none of these is a packet of a
remote client. -/
structure Quiet (s s' : Reader) : Prop where
  input : s'.input = s.input
  pos : s'.pos = s.pos
  ids : s'.ids = s.ids
  out : s'.out.filterMap Sent.l2cap = s.out.filterMap Sent.l2cap

theorem Quiet.refl (s : Reader) :
  Quiet s s
  := ⟨rfl, rfl, rfl, rfl⟩

/-- Messages of which none is a packet. -/
theorem quiet_send (s : Reader) (box : SendBox) {msgs : List Sent}
    (hmsgs : msgs.filterMap Sent.l2cap = []) :
  Quiet s { s with sendBox := box, out := s.out ++ msgs }
  := by
  constructor <;> try rfl
  rw [List.filterMap_append, hmsgs, List.append_nil]

theorem getElem?_of_lt {bytes : List UInt8} {i : ℕ} (h : i < bytes.length) :
  ∃ x, bytes[i]? = some x
  := ⟨_, List.getElem?_eq_getElem h⟩

theorem leConnectionComplete_eq {param : List UInt8} (hlen : 19 ≤ param.length) :
  ∃ event, leConnectionComplete param = some event
  := by
  obtain ⟨status, h₁⟩ := getElem?_of_lt (by omega : 1 < param.length)
  obtain ⟨handle, h₂⟩ := wordAt_of_lt (by omega : 2 + 1 < param.length)
  obtain ⟨role, h₃⟩ := getElem?_of_lt (by omega : 4 < param.length)
  obtain ⟨type, h₄⟩ := getElem?_of_lt (by omega : 5 < param.length)
  have h₅ : slice param 6 12 = some ((param.take 12).drop 6) := if_pos (by omega)
  obtain ⟨interval, h₆⟩ := wordAt_of_lt (by omega : 12 + 1 < param.length)
  obtain ⟨latency, h₇⟩ := wordAt_of_lt (by omega : 14 + 1 < param.length)
  obtain ⟨timeout, h₈⟩ := wordAt_of_lt (by omega : 16 + 1 < param.length)
  obtain ⟨accuracy, h₉⟩ := getElem?_of_lt (by omega : 18 < param.length)
  simp only [leConnectionComplete, h₁, h₂, h₃, h₄, h₅, h₆, h₇, h₈, h₉, Option.bind_eq_bind,
    Option.bind_some]
  exact ⟨_, rfl⟩

theorem handleLeEvent_spec (s : Reader) {subeventCode : UInt8} {rest : List UInt8}
    (hconnected : subeventCode = 0x01 → 19 ≤ (subeventCode :: rest).length)
    (hchanged : subeventCode = 0x07 → 11 ≤ (subeventCode :: rest).length) :
  ∃ s', s.handleLeEvent (subeventCode :: rest) = some s' ∧ Quiet s s'
  := by
  have hcode : (subeventCode :: rest)[0]? = some subeventCode := rfl
  rw [Reader.handleLeEvent, hcode, Option.bind_eq_bind, Option.bind_some]
  generalize hparam : subeventCode :: rest = param at *
  split_ifs with h₁ h₂
  · obtain ⟨event, hevent⟩ := leConnectionComplete_eq (hconnected h₁)
    have hbase : hciLeConnectionComplete.base ≤ defaultBoxSize := by decide
    obtain ⟨box, hbox⟩ := newMsg_eq hbase s.sendBox event.bytes
    simp only [hevent, hbox, Option.bind_eq_bind, Option.bind_some]
    exact ⟨_, rfl, quiet_send s box rfl⟩
  · have hlen := hchanged h₂
    obtain ⟨handle, h₁⟩ := wordAt_of_lt (by omega : 1 + 1 < param.length)
    obtain ⟨txLen, h₃⟩ := wordAt_of_lt (by omega : 3 + 1 < param.length)
    obtain ⟨txTime, h₅⟩ := wordAt_of_lt (by omega : 5 + 1 < param.length)
    obtain ⟨rxLen, h₇⟩ := wordAt_of_lt (by omega : 7 + 1 < param.length)
    obtain ⟨rxTime, h₉⟩ := wordAt_of_lt (by omega : 9 + 1 < param.length)
    simp only [h₁, h₃, h₅, h₇, h₉, Option.bind_eq_bind, Option.bind_some]
    exact ⟨s, rfl, Quiet.refl s⟩
  · exact ⟨s, rfl, Quiet.refl s⟩

theorem handleCommandComplete_spec (s : Reader) {param : List UInt8} (hlen : param.length ≤ 255)
    (hlong : 3 ≤ param.length) :
  ∃ s', s.handleCommandComplete b param = some s' ∧ Quiet s s'
  := by
  obtain ⟨packets, h₀⟩ := getElem?_of_lt (by omega : 0 < param.length)
  obtain ⟨opcode, h₁⟩ := wordAt_of_lt (by omega : 1 + 1 < param.length)
  have h₃ : sliceFrom param 3 = some (param.drop 3) := if_pos hlong
  have hbase : hciCommandComplete.base ≤ defaultBoxSize := by decide
  have hcap : arrayCapacity hciCommandComplete = 968 := by decide
  have hfit : (param.drop 3).length ≤ arrayCapacity hciCommandComplete := by
    rw [hcap, List.length_drop]
    omega
  obtain ⟨box, hbox⟩ := newHeadedMsg_eq b "HciCommandComplete" s.sendBox
    ([packets, 0] ++ u16Bytes opcode ++ List.replicate 4 0) hbase hfit
  simp only [Reader.handleCommandComplete, h₀, h₁, h₃, hciCommandComplete, hbox,
    Option.bind_eq_bind, Option.bind_some]
  exact ⟨_, rfl, quiet_send s box rfl⟩

theorem handleDisconnection_spec (s : Reader) {param : List UInt8} (hlong : 4 ≤ param.length) :
  ∃ s', s.handleDisconnection param = some s' ∧ Quiet s s'
  := by
  obtain ⟨reason, h₃⟩ := getElem?_of_lt (by omega : 3 < param.length)
  have hbase : hciDisconnectionComplete.base ≤ defaultBoxSize := by decide
  obtain ⟨box, hbox⟩ := newMsg_eq hbase s.sendBox [reason]
  simp only [Reader.handleDisconnection, h₃, hbox, Option.bind_eq_bind, Option.bind_some]
  exact ⟨_, rfl, quiet_send s box rfl⟩

theorem handleCommandStatus_spec (s : Reader) {param : List UInt8} (hlong : 4 ≤ param.length) :
  ∃ s', s.handleCommandStatus param = some s' ∧ Quiet s s'
  := by
  obtain ⟨status, h₀⟩ := getElem?_of_lt (by omega : 0 < param.length)
  obtain ⟨packets, h₁⟩ := getElem?_of_lt (by omega : 1 < param.length)
  obtain ⟨opcode, h₂⟩ := wordAt_of_lt (by omega : 2 + 1 < param.length)
  have hbase : hciCommandStatus.base ≤ defaultBoxSize := by decide
  obtain ⟨box, hbox⟩ := newMsg_eq hbase s.sendBox
    ([packets, 0] ++ u16Bytes opcode ++ [status, 0])
  simp only [Reader.handleCommandStatus, h₀, h₁, h₂, hbox, Option.bind_eq_bind, Option.bind_some]
  exact ⟨_, rfl, quiet_send s box rfl⟩

/-- Whatever the event, it is handled, and nothing of a remote client is reported. -/
theorem handleEvent_spec (s : Reader) {eventCode : UInt8} {param : List UInt8}
    (hlen : param.length ≤ 255) (hlong : LongEnough eventCode param) :
  ∃ s', s.handleEvent b eventCode param = some s' ∧ Quiet s s'
  := by
  obtain ⟨hle, hcomplete, hdisconnected, hstatus⟩ := hlong
  rw [Reader.handleEvent]
  split_ifs with h₁ h₂ h₃ h₄
  · obtain ⟨subeventCode, rest, rfl, hconnected, hchanged⟩ := hle h₁
    exact handleLeEvent_spec s hconnected hchanged
  · exact handleCommandComplete_spec s hlen (hcomplete h₂)
  · exact handleDisconnection_spec s (hdisconnected h₃)
  · exact handleCommandStatus_spec s (hstatus h₄)
  · exact ⟨s, rfl, Quiet.refl s⟩

/-! ### All packets -/

/-- The output of a notification is a packet of its payload. -/
theorem updateTrigger_packet {s s' : State} {charac : GattCharac} {pdu bytes : List UInt8}
    (hpdu : s.notification charac = some pdu) (htrigger : s.updateTrigger b charac = some s')
    (hout : s'.out = s.out ++ [.uart bytes]) :
  bytes = gattPacket s.handle pdu
  := by
  obtain ⟨configHandle, hconfig, hpdu⟩ := Option.bind_eq_some_iff.mp hpdu
  obtain ⟨config, hread, hpdu⟩ := Option.bind_eq_some_iff.mp hpdu
  obtain ⟨clientConfig, hvalue, hpdu⟩ := Option.bind_eq_some_iff.mp hpdu
  obtain ⟨attr, hattr, hpdu⟩ := Option.bind_eq_some_iff.mp hpdu
  rw [State.updateTrigger, hconfig] at htrigger
  simp only [hread, hvalue, hattr, Option.bind_eq_bind, Option.bind_some] at htrigger
  by_cases hzero : clientConfig = 0
  · rw [if_pos hzero] at htrigger
    rw [← Option.some.inj htrigger] at hout
    simp at hout
  · rw [if_neg hzero] at htrigger
    obtain ⟨box, -, htrigger⟩ := Option.bind_eq_some_iff.mp htrigger
    rw [← Option.some.inj htrigger] at hout
    have hlast := List.append_cancel_left hout
    rw [← Option.some.inj hpdu]
    simpa using hlast.symm

/-- A round of the loop consumes one packet. -/
theorem round_spec {p : Packet} {bytes : List UInt8} (hbuilt : Built b p bytes)
    (hin : Arrives s.input s.pos bytes) :
  ∃ s', s.round b = some s' ∧ Consumes s s' bytes.length p.l2cap
  := by
  have hacl : ∀ handle pdu, pdu.length ≤ 900 → Arrives s.input s.pos (gattPacket handle pdu) →
      ∃ s', s.round b = some s'
        ∧ Consumes s s' (gattPacket handle pdu).length (Packet.acl handle pdu).l2cap := by
    intro handle pdu hlen hin
    have hpacket : gattPacket handle pdu = 0x02 :: ((u16Bytes handle ++ (u16Bytes (pdu.length + 4)
        ++ [])) ++ (u16Bytes pdu.length ++ (u16Bytes 0x04 ++ pdu))) := by
      simp [gattPacket]
    have htotal : (u16Bytes pdu.length ++ (u16Bytes 0x04 ++ pdu)).length = pdu.length + 4 := by
      simp only [List.length_append, length_u16Bytes]
      omega
    rw [hpacket] at hin
    obtain ⟨s₁, hround, hreads, hout⟩ := @round_acl b s _ _ rfl
      ((wordAt_two (by omega) _ _).trans (congrArg some htotal.symm)) (by omega) hin
    obtain ⟨box, hhandle⟩ := @handleAcl_spec b s₁ handle pdu hlen
    rw [htotal] at hround hreads
    refine ⟨_, hround.trans hhandle, ⟨hreads.input, ?_, hreads.ids⟩, ?_⟩
    · rw [show (gattPacket handle pdu).length = 5 + (pdu.length + 4) from ?_]
      · exact hreads.pos
      · rw [hpacket, List.length_cons, List.length_append, htotal]
        simp only [List.length_append, length_u16Bytes, List.length_nil]
        omega
    · rw [hout, List.filterMap_append]
      rfl
  cases hbuilt with
  | respGatt hhandle hlen hresp hout =>
    obtain ⟨box, -, hresp⟩ := Option.bind_eq_some_iff.mp hresp
    rw [← Option.some.inj hresp] at hout
    have hlast := List.append_cancel_left hout
    simp only [List.cons.injEq, Output.uart.injEq, and_true] at hlast
    rw [← hlast] at hin ⊢
    exact hacl _ _ hlen hin
  | updateTrigger hhandle hpdu hlen htrigger hout =>
    rw [updateTrigger_packet hpdu htrigger hout] at hin ⊢
    exact hacl _ _ hlen hin
  | event hlen hlong =>
    rename_i eventCode param
    obtain ⟨s₁, hround, hreads, hout⟩ := @round_event b s eventCode param hlen hin
    obtain ⟨s', hevent, hquiet⟩ := @handleEvent_spec b s₁ eventCode param hlen hlong
    refine ⟨s', hround.trans hevent, ⟨?_, ?_, ?_⟩, ?_⟩
    · rw [hquiet.input, hreads.input]
    · rw [hquiet.pos, hreads.pos]
      simp only [List.length_cons]
      omega
    · rw [hquiet.ids, hreads.ids]
    · rw [hquiet.out, hout]
      exact (List.append_nil _).symm

/-- For every sequence of packets that arrives, and after every number of packets: the reader
has read so many packets and nothing else, it has read an identifier where each of them
begins and nowhere else, and it has reported those of the remote client, each with its two
bytes of the handle, the channel of GATT and its ATT payload. -/
theorem reader_in_sync {ps : List Packet} {bss : List (List UInt8)}
    (hbuilt : List.Forall₂ (Built b) ps bss) (hin : Arrives s.input s.pos bss.flatten) :
  ∀ i ≤ ps.length, ∃ s', s.rounds b i = some s'
    ∧ s'.pos = s.pos + (bss.take i).flatten.length
    ∧ s'.ids = s.ids ++ starts s.pos (bss.take i)
    ∧ s'.out.filterMap Sent.l2cap
      = s.out.filterMap Sent.l2cap ++ (ps.take i).filterMap Packet.l2cap
  := by
  induction hbuilt generalizing s with
  | nil =>
    intro i hi
    obtain rfl := Nat.le_zero.mp hi
    refine ⟨s, rfl, rfl, ?_, ?_⟩
    · exact (List.append_nil _).symm
    · exact (List.append_nil _).symm
  | cons hp hrest ih =>
    rename_i p bytes ps bss
    rw [List.flatten_cons] at hin
    obtain ⟨hbytes, hin⟩ := arrives_append.mp hin
    intro i hi
    cases i with
    | zero =>
      refine ⟨s, rfl, rfl, ?_, ?_⟩
      · exact (List.append_nil _).symm
      · exact (List.append_nil _).symm
    | succ i =>
      obtain ⟨s₁, hround, hreads, hout⟩ := round_spec hp hbytes
      rw [← hreads.input, ← hreads.pos] at hin
      obtain ⟨s', hrounds, hpos, hids, hl2cap⟩ := ih hin i (Nat.le_of_succ_le_succ hi)
      refine ⟨s', ?_, ?_, ?_, ?_⟩
      · rw [Reader.rounds, hround]
        exact hrounds
      · rw [hpos, hreads.pos, List.take_succ_cons, List.flatten_cons, List.length_append,
          Nat.add_assoc]
      · rw [hids, hreads.ids, hreads.pos, List.append_assoc]
        rfl
      · rw [hl2cap, hout, List.take_succ_cons, List.append_assoc]
        cases p <;> rfl

/-- A GATT server with a connection of the handle 64. -/
def connected : State where
  gatt := globalGatt
  monitorMap := []
  conn := true
  handle := 64
  lastPacketTick := 0
  sendBox := ⟨0, fun _ => 0⟩
  respBox := ⟨0, fun _ => 0⟩
  tidTimeout := 1
  tidClock := 2
  callers := []
  out := []

/-- A reader that has not read anything. -/
def Reader.new (input : ℕ → UInt8) : Reader where
  reqBox := ⟨0, fun _ => 0⟩
  sendBox := ⟨0, fun _ => 0⟩
  input := input
  pos := 0
  ids := []
  out := []

/-- A response of two bytes, and an event that the reader does not know. -/
def packetBytes : List (List UInt8) :=
  [gattPacket 64 [0x0b, 7], [0x04, 0x20, 1, 2]]

theorem reader_in_sync_two :
  ∃ s', Reader.rounds ⟨.wrapping, fun _ => [], []⟩ 2
      (Reader.new fun j => packetBytes.flatten.getD j 0) = some s'
    ∧ s'.pos = 15 ∧ s'.ids = [0, 11] ∧ s'.out.filterMap Sent.l2cap = [((64, 0), 4, [0x0b, 7])]
  := by
  have hlen : ([0x0b, 7] : List UInt8).length ≤ valCapacity + 3 := by decide
  obtain ⟨box, hresp⟩ := respGatt_spec ⟨.wrapping, fun _ => [], []⟩ connected hlen
  have hacl := Built.respGatt (by decide) (by decide) hresp rfl
  have hevent : Built ⟨.wrapping, fun _ => [], []⟩ (.event 0x20 [2]) [0x04, 0x20, 1, 2] :=
    Built.event (by decide) ⟨by simp, by simp, by simp, by simp⟩
  obtain ⟨s', hrounds, hpos, hids, hout⟩ :=
    @reader_in_sync _ (Reader.new fun j => packetBytes.flatten.getD j 0) _ _
      (.cons hacl (.cons hevent .nil)) rfl 2 (Nat.le_refl _)
  exact ⟨s', hrounds, hpos, hids, hout⟩

end TrainsOs.Bluetooth
