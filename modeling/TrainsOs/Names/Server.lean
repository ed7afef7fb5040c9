import TrainsOs.Bluetooth.Table
import TrainsOs.User.Receive

/-!
# The name server

The task `name_server.rs`: tasks register under a name and ask for the task that has a
name. The map is keyed by a hash of the name, and does not store the name itself. The
`FnvHasher` of the crate `fnv` is FNV-1a with 64 bits, and `hash_slice` of bytes hashes
them one after another.
-/

namespace TrainsOs.Names

open MsgBox Bluetooth

/-- `MAP_CAP`. -/
def mapCap : ℕ := 128

/-- `calc_hash_u8_slice`. -/
def calcHash (t : List UInt8) : UInt64 :=
  t.foldl (fun hash byte => (hash ^^^ byte.toUInt64) * 0x100000001b3) 0xcbf29ce484222325

/-- `NameMap`. -/
abbrev NameMap := List (UInt64 × ℤ)

/-- The messages, by the variants of `RecvEnum`; `unknown` is `None`. -/
inductive Msg where
  | nsGetReq (name : List UInt8)
  | nsSetReq (name : List UInt8)
  | unknown

/-! ### The message types of `api/name_server.rs` -/

def nsGetReq : MsgType := arrayMsg "NsGetReq"
def nsSetReq : MsgType := arrayMsg "NsSetReq"
def nsResp : MsgType := plainMsg "NsResp" 8

/-- `RecvEnum::from_recv_bytes(&mut recv_box)`, in the release build. -/
def fromRecvBox (recvBuf : ℕ → UInt8) : Option Msg := do
  match ← recvRequest .wrapping [nsGetReq, nsSetReq] recvBuf with
  | none => some .unknown
  | some (ty, name) =>
      if ty.typeName = nsGetReq.typeName then
        some (.nsGetReq name)
      else
        some (.nsSetReq name)

/-- The replies. -/
inductive Output where
  | nsResp (tid : ℤ) (contents : Option ℤ)
deriving DecidableEq

/-- The variables of `_start`; the tasks that wait for a reply; and the replies since the
last `ker_recv`. -/
structure State where
  nameMap : NameMap
  sendBox : SendBox
  callers : List ℤ
  out : List Output

/-- A message: its sender, and the bytes of `recv_box` after `ker_recv`. -/
structure Event where
  sender : ℤ
  recvBuf : ℕ → UInt8

/-- What the server decodes. -/
def Event.msg (e : Event) : Option Msg :=
  fromRecvBox e.recvBuf

/-- The bytes of an `Option<Tid>`: whether it is there, and the tid. -/
def optionBytes : Option ℤ → List UInt8
  | none => leBytes 8 0
  | some tid => leBytes 4 1 ++ leBytes 4 (tid % 2 ^ 32).toNat

/-- The state at the start of the loop. -/
def State.new (sendBox : SendBox) : State where
  nameMap := []
  sendBox := sendBox
  callers := []
  out := []

/-- `handle_get_req`. -/
def handleGetReq (nameMap : NameMap) (name : List UInt8) : Option ℤ :=
  match getMap nameMap (calcHash name) with
  | some tid => if 0 < tid then some tid else none
  | none => none

/-- `handle_set_req`. -/
def handleSetReq (nameMap : NameMap) (name : List UInt8) (senderTid : ℤ) :
    Option (NameMap × Option ℤ) :=
  match getMap nameMap (calcHash name) with
  | some _ => some (nameMap, none)
  | none => do
      let nameMap ← insertMap mapCap nameMap (calcHash name) senderTid
      some (nameMap, some senderTid)

/-- The `match` on the message: the map afterwards, and the tid for the reply. -/
def State.handle (s : State) (senderTid : ℤ) : Msg → Option (NameMap × Option ℤ)
  | .nsGetReq name => some (s.nameMap, handleGetReq s.nameMap name)
  | .nsSetReq name => handleSetReq s.nameMap name senderTid
  | .unknown => some (s.nameMap, none)

/-- One round of the loop. -/
def step (s : State) (e : Event) : Option State := do
  let callers := s.callers ++ [e.sender]
  let msg ← e.msg
  let (nameMap, tid) ← s.handle e.sender msg
  let box ← newMsg nsResp s.sendBox (optionBytes tid)
  let callers ← kerReply callers e.sender
  some { nameMap := nameMap, sendBox := box, callers := callers, out := [.nsResp e.sender tid] }

/-! ### Registrations -/

/-- The name that a message registers. -/
def Event.setName (e : Event) : Option (List UInt8) :=
  match e.msg with
  | some (.nsSetReq name) => some name
  | _ => none

/-- The first registration of a name with the property `p`. -/
def firstSet (p : List UInt8 → Bool) (es : List Event) : Option Event :=
  es.find? fun e => e.setName.any p

/-- The task that first registered the name. -/
def registrant (es : List Event) (name : List UInt8) : Option ℤ :=
  (firstSet (fun n => n = name) es).map Event.sender

/-- The first registration of a name with the same hash. -/
def holder (es : List Event) (name : List UInt8) : Option ℤ :=
  (firstSet (fun n => calcHash n = calcHash name) es).map Event.sender

/-- The different names that are registered. -/
def setNames (es : List Event) : List (List UInt8) :=
  (es.filterMap Event.setName).dedup

/-- The first registration under the hash of the name, if there is one, is by the task that
first registered this name. -/
def Own (es : List Event) (name : List UInt8) : Prop :=
  ∀ tid ∈ holder es name, registrant es name = some tid

end TrainsOs.Names
