import TrainsOs.Bluetooth.Requests
import Mathlib.Data.Fintype.EquivFin

/-!
# The requests that are answered

`Safe` says which packets are answered in a state of the server, with nothing left behind
that makes it fail later. Every other request makes the server panic, at once or with the
next disconnection.
-/

namespace TrainsOs.Bluetooth

open MsgBox

/-! ### The monitors -/

section Monitors

variable {s : State}

/-- The replies to monitors that wait. -/
theorem replyAll_spec (bytes : List UInt8) (ms : List ℤ) {rest : Multiset ℤ}
    (hwait : Waiting s.callers ((ms : Multiset ℤ) + rest)) :
  ∃ callers, ms.foldlM (fun s m => State.reply s m (.gattServerMonitorResp m bytes)) s =
      some { s with
        callers := callers
        out := s.out ++ ms.map fun m => .gattServerMonitorResp m bytes } ∧
    Waiting callers rest
  := by
  induction ms generalizing s with
  | nil =>
    rw [Multiset.coe_nil, Multiset.zero_add] at hwait
    exact ⟨s.callers, by simp, hwait⟩
  | cons m ms ih =>
    rw [← Multiset.cons_coe, Multiset.cons_add] at hwait
    obtain ⟨hreply, hwait'⟩ := hwait.reply
    obtain ⟨callers, hall, hwait''⟩ := ih (s :=
      { s with callers := s.callers.erase m, out := s.out ++ [.gattServerMonitorResp m bytes] })
      hwait'
    refine ⟨callers, ?_, hwait''⟩
    rw [List.foldlM_cons, State.reply, hreply, Option.bind_eq_bind, Option.bind_eq_bind,
      Option.bind_some, Option.bind_some, hall, List.map_cons, List.append_assoc]
    rfl

/-- The monitors of a handle. -/
def State.monitors (s : State) (handleId : ℕ) : List ℤ :=
  (getMap s.monitorMap handleId).getD []

/-- `notify_monitors`: the monitors of the handle are replied to, each once, and forgotten. -/
theorem notifyMonitors_spec (b : Build) (handleId : ℕ) {bytes : List UInt8}
    (hkeys : (s.monitorMap.map Prod.fst).Nodup)
    (hwait : Waiting s.callers (elements s.monitorMap)) (hfit : bytes.length ≤ valCapacity) :
  ∃ s', s.notifyMonitors b handleId bytes = some s' ∧ s'.gatt = s.gatt ∧ s'.conn = s.conn ∧
    s'.handle = s.handle ∧ s'.tidTimeout = s.tidTimeout ∧ s'.tidClock = s.tidClock ∧
    s'.monitorMap = setMap s.monitorMap handleId [] ∧
    s'.out = s.out ++ (s.monitors handleId).map (fun m => .gattServerMonitorResp m bytes) ∧
    Waiting s'.callers (elements s'.monitorMap)
  := by
  rw [State.notifyMonitors, State.monitors]
  cases hget : getMap s.monitorMap handleId with
  | none =>
    have hnew := getMap_eq_none_iff.mp hget
    have hset := setMap_of_notMem hnew ([] : List ℤ)
    exact ⟨s, rfl, rfl, rfl, rfl, rfl, rfl, hset.symm, by simp, hwait⟩
  | some ms =>
    have hbase : gattServerMonitorResp.base ≤ defaultBoxSize := by decide
    have hcap : valCapacity ≤ arrayCapacity gattServerMonitorResp := by decide
    obtain ⟨box, hbox⟩ := newArrayMsg_eq b "GattServerMonitorResp" s.sendBox hbase
      (hfit.trans hcap)
    have helements := elements_setMap hkeys hget []
    rw [Multiset.coe_nil, Multiset.zero_add] at helements
    rw [← helements, Multiset.add_comm] at hwait
    obtain ⟨callers, hall, hwait'⟩ := replyAll_spec (s := { s with sendBox := box }) bytes ms hwait
    simp only [gattServerMonitorResp, hbox, Option.bind_eq_bind, Option.bind_some, hall]
    exact ⟨_, rfl, rfl, rfl, rfl, rfl, rfl, rfl, rfl, hwait'⟩

end Monitors

/-! ### The invariant -/

/-- The monitors wait, each for one handle. -/
structure Core (s : State) : Prop where
  keys : (s.monitorMap.map Prod.fst).Nodup
  keysLt : ∀ k ∈ s.monitorMap.map Prod.fst, k < globalGatt.types.length
  waiting : Waiting s.callers (elements s.monitorMap)
  tids : s.tidTimeout ≠ s.tidClock

/-- What is true of every state that is reached. -/
structure Inv (s : State) : Prop where
  table : Table s.gatt
  core : Core s

/-- The packets for the client. -/
def packets (out : List Output) : List (List UInt8) :=
  out.filterMap fun o => match o with
    | .uart bytes => some bytes
    | _ => none

@[simp]
theorem packets_append (out out' : List Output) :
  packets (out ++ out') = packets out ++ packets out'
  := List.filterMap_append

theorem packets_monitors (ms : List ℤ) (bytes : List UInt8) :
  packets (ms.map fun m => .gattServerMonitorResp m bytes) = []
  := by simp [packets]

/-- The requests that are answered. -/
def requests : List UInt8 :=
  [0x02, 0x04, 0x08, 0x0a, 0x10, 0x12]

/-- The request with this opcode is answered. -/
def Answerable (g : Gatt) (data : List UInt8) (opcode : UInt8) : Prop :=
  if opcode = 0x08 then
    HasType data ∧ 2 + g.entries 2 (g.found data) ≤ valCapacity
  else if opcode = 0x10 then
    HasType data ∧ (∀ h ∈ g.found data, (g.gattReadEndOfGroup h).isSome) ∧
      2 + g.entries 4 (g.found data) ≤ valCapacity
  else if opcode = 0x12 then
    3 ≤ data.length ∧ readU16 (data.drop 1) < g.attrVec.length ∧ data.length ≤ 3 + valCapacity
  else if opcode = 0x0a then
    ∀ a ∈ g.attRead (readU16 (data.drop 1)), a.attVal.length < valCapacity
  else
    3 ≤ data.length

/-- The packet does not empty a client configuration. -/
def KeepsConfigs (g : Gatt) (data : List UInt8) : Prop :=
  data[0]? = some 0x12 → readU16 (data.drop 1) ∈ g.configs → 3 < data.length

/-- The table after the packet. -/
def written (g : Gatt) (data : List UInt8) : Gatt :=
  if data[0]? = some 0x12 then
    (g.attWrite (readU16 (data.drop 1)) (data.drop 3)).getD g
  else
    g

/-- The request is answered with one PDU. -/
structure Answers (s s' : State) (opcode : UInt8) (data : List UInt8) : Prop where
  one : ∃ pdu, packets s'.out = packets s.out ++ [gattPacket s.handle pdu] ∧
    (pdu.head? = some (opcode + 1) ∨ pdu.head? = some 0x01)
  gatt : s'.gatt = written s.gatt data
  core : Core s'

section Packets

variable {s : State} {data : List UInt8} {opcode : UInt8} {p : Prop} {r : Option State}

/-- A request that only reads. -/
theorem Exactly.answers (h : Exactly p s opcode r) (hinv : Inv s) (hop : data[0]? = some opcode)
    (hread : opcode ≠ 0x12) :
  (p → ∃ s', r = some s' ∧ Answers s s' opcode data) ∧ (¬ p → r = none)
  := by
  obtain ⟨hpos, hneg⟩ := h
  refine ⟨?_, hneg⟩
  intro hp
  obtain ⟨box, pdu, hr, hhead⟩ := hpos hp
  refine ⟨_, hr, ?_⟩
  constructor
  · use pdu
    constructor
    · rw [packets_append]
      rfl
    · exact hhead
  · rw [written, if_neg]
    rw [hop]
    intro h
    exact hread (Option.some.inj h)
  · exact ⟨hinv.core.keys, hinv.core.keysLt, hinv.core.waiting, hinv.core.tids⟩

theorem writeReq_spec (b : Build) (hinv : Inv s) (hop : data[0]? = some 0x12) :
  (3 ≤ data.length ∧ readU16 (data.drop 1) < s.gatt.attrVec.length ∧
      data.length ≤ 3 + valCapacity →
    ∃ s', s.writeReq b data = some s' ∧ Answers s s' 0x12 data) ∧
  (¬ (3 ≤ data.length ∧ readU16 (data.drop 1) < s.gatt.attrVec.length ∧
      data.length ≤ 3 + valCapacity) → s.writeReq b data = none)
  := by
  rw [State.writeReq]
  by_cases h3 : 3 ≤ data.length
  · rw [sliceFrom_eq (by omega), sliceFrom_eq h3]
    simp only [Option.bind_eq_bind, Option.bind_some]
    by_cases hlt : readU16 (data.drop 1) < s.gatt.attrVec.length
    · have hget := List.getElem?_eq_getElem hlt
      by_cases hfit : data.length ≤ 3 + valCapacity
      · have hdrop : (data.drop 3).length ≤ valCapacity := by
          rw [List.length_drop]
          omega
        obtain ⟨g', hwrite⟩ : ∃ g', s.gatt.attWrite (readU16 (data.drop 1)) (data.drop 3)
            = some g' :=
          ⟨_, attWrite_eq hget hdrop⟩
        have hlen : [(0x13 : UInt8)].length ≤ valCapacity + 3 := by decide
        obtain ⟨box, hresp⟩ := respGatt_spec b { s with gatt := g' } hlen
        obtain ⟨s', hnotify, hgatt, -, -, htimeout, hclock, hmap, hout, hwait⟩ :=
          notifyMonitors_spec
          (s := { s with gatt := g', respBox := box
                         out := s.out ++ [.uart (gattPacket s.handle [0x13])] }) b
          (readU16 (data.drop 1)) hinv.core.keys hinv.core.waiting hdrop
        constructor
        · intro _
          refine ⟨s', ?_, ?_⟩
          · rw [hwrite, Option.bind_some, hresp, Option.bind_some]
            exact hnotify
          · constructor
            · refine ⟨[0x13], ?_, Or.inl rfl⟩
              rw [hout, packets_append, packets_append, packets_monitors, List.append_nil]
              rfl
            · rw [hgatt, written, if_pos hop, hwrite]
              rfl
            · constructor
              · rw [hmap, map_fst_setMap]
                exact hinv.core.keys
              · rw [hmap, map_fst_setMap]
                exact hinv.core.keysLt
              · exact hwait
              · rw [htimeout, hclock]
                exact hinv.core.tids
        · intro hnot
          exact absurd ⟨h3, hlt, hfit⟩ hnot
      · constructor
        · rintro ⟨-, -, hyes⟩
          exact absurd hyes hfit
        · intro _
          have hext : extend valCapacity [] (data.drop 3) = none := by
            rw [extend, List.length_nil, List.length_drop, if_neg]
            omega
          rw [Gatt.attWrite, hget, hext]
          rfl
    · constructor
      · rintro ⟨-, hyes, -⟩
        exact absurd hyes hlt
      · intro _
        rw [Gatt.attWrite, List.getElem?_eq_none (Nat.not_lt.mp hlt)]
        rfl
  · constructor
    · rintro ⟨hyes, -⟩
      exact absurd hyes h3
    · intro _
      rw [sliceFrom_none (n := 3) (Nat.not_le.mp h3)]
      cases sliceFrom data 1 with
      | none => rfl
      | some d1 => rfl

/-- A request is answered exactly when it is `Answerable`. -/
theorem handlePacket_spec (b : Build) (hinv : Inv s) (hop : data[0]? = some opcode)
    (hreq : opcode ∈ requests) :
  (Answerable s.gatt data opcode →
    ∃ s', s.handlePacket b data = some s' ∧ Answers s s' opcode data) ∧
  (¬ Answerable s.gatt data opcode → s.handlePacket b data = none)
  := by
  rw [State.handlePacket, hop]
  simp only [requests, List.mem_cons, List.not_mem_nil, or_false] at hreq
  rcases hreq with rfl | rfl | rfl | rfl | rfl | rfl
  · exact (exchangeMtu_spec b s data).answers hinv hop (by decide)
  · exact (findInformation_spec b hinv.table data).answers hinv hop (by decide)
  · exact (readByType_spec b hinv.table data).answers hinv hop (by decide)
  · have h1 : 1 ≤ data.length := by
      obtain ⟨hlt, -⟩ := List.getElem?_eq_some_iff.mp hop
      exact hlt
    exact (readReq_spec b s h1).answers hinv hop (by decide)
  · exact (readByGroupType_spec b hinv.table data).answers hinv hop (by decide)
  · exact writeReq_spec b hinv hop

end Packets

/-! ### The local tasks -/

section Tasks

variable {s : State} {e : Event}

/-- What the messages of local tasks leave alone. -/
structure Keeps (s s' : State) : Prop where
  monitorMap : s'.monitorMap = s.monitorMap
  callers : s'.callers = s.callers
  conn : s'.conn = s.conn
  tidTimeout : s'.tidTimeout = s.tidTimeout
  tidClock : s'.tidClock = s.tidClock

theorem Keeps.trans {s' s'' : State} (h : Keeps s s') (h' : Keeps s' s'') :
  Keeps s s''
  := by
  constructor
  · rw [h'.monitorMap, h.monitorMap]
  · rw [h'.callers, h.callers]
  · rw [h'.conn, h.conn]
  · rw [h'.tidTimeout, h.tidTimeout]
  · rw [h'.tidClock, h.tidClock]

theorem sendUart_spec (b : Build) (s : State) {bytes : List UInt8} (hlen : bytes.length ≤ 984) :
  ∃ s', s.sendUart b bytes = some s' ∧ s'.gatt = s.gatt ∧ Keeps s s'
  := by
  have hbase : rpiUartTxReq.base ≤ defaultBoxSize := by decide
  have hcap : arrayCapacity rpiUartTxReq = 984 := by decide
  rw [← hcap] at hlen
  obtain ⟨box, hbox⟩ := newArrayMsg_eq b "RpiUartTxReq" s.respBox hbase hlen
  rw [State.sendUart, rpiUartTxReq, hbox]
  exact ⟨_, rfl, rfl, rfl, rfl, rfl, rfl, rfl⟩

theorem updateTrigger_spec (b : Build) (ht : Table s.gatt) {c : GattCharac}
    (hc : c ∈ s.gatt.characs) :
  ∃ s', s.updateTrigger b c = some s' ∧ s'.gatt = s.gatt ∧ Keeps s s'
  := by
  rw [State.updateTrigger]
  cases hh : c.clientConfigHandle with
  | none => exact ⟨s, rfl, rfl, rfl, rfl, rfl, rfl, rfl⟩
  | some h =>
    obtain ⟨hmem, a, ha⟩ := ht.config_read hc hh
    obtain ⟨x, xs, hval⟩ := List.exists_cons_of_ne_nil (ht.configs h hmem a ha)
    have hhead : a.attVal[0]? = some x := by
      rw [hval]
      rfl
    obtain ⟨hlt, -⟩ := ht.value_read hc
    have hget := List.getElem?_eq_getElem hlt
    have hfit := ht.values _ (List.mem_of_getElem? hget)
    simp only [Gatt.attRead, ha, hhead, hget, Option.bind_eq_bind, Option.bind_some]
    split_ifs with hx
    · exact ⟨s, rfl, rfl, rfl, rfl, rfl, rfl, rfl⟩
    all_goals
      apply sendUart_spec
      rw [gattPacket]
      simp only [List.length_append, List.length_cons, length_u16Bytes]
      rw [valCapacity] at hfit
      omega

/-- A value that fits can be published. -/
theorem publish_spec (b : Build) (ht : Table s.gatt) {c : GattCharac} (hc : c ∈ s.gatt.characs)
    (bytes : List UInt8) (hfit : bytes.length ≤ valCapacity) :
  ∃ s', s.publish b c bytes = some s' ∧ Table s'.gatt ∧ Keeps s s'
  := by
  obtain ⟨hlt, hnot⟩ := ht.value_read hc
  obtain ⟨g', hwrite, ht'⟩ := ht.write hlt hfit fun hmem => absurd hmem hnot
  have hc' : c ∈ g'.characs := by
    rw [ht'.characs_eq, ← ht.characs_eq]
    exact hc
  rw [State.publish, hwrite, Option.bind_eq_bind, Option.bind_some]
  dsimp only
  split_ifs
  · obtain ⟨s', htrigger, hgatt, hkeeps⟩ :=
      updateTrigger_spec b (s := { s with gatt := g' }) ht' hc'
    refine ⟨s', htrigger, ?_, ?_⟩
    · rw [hgatt]
      exact ht'
    · exact ⟨hkeeps.monitorMap, hkeeps.callers, hkeeps.conn, hkeeps.tidTimeout, hkeeps.tidClock⟩
  · exact ⟨_, rfl, ht', rfl, rfl, rfl, rfl, rfl⟩

theorem mem_characs {g : Gatt} {name : String} {c : GattCharac} (h : g.characByName name = some c) :
  c ∈ g.characs
  := by
  obtain ⟨e, he, rfl⟩ := Option.map_eq_some_iff.mp h
  exact List.mem_map_of_mem (List.mem_of_find?_eq_some he)

/-- A reply to a task that waits. -/
theorem replyNew_spec {ty : MsgType} (hty : ty.base ≤ defaultBoxSize) (contents : List UInt8)
    {tid : ℤ} (output : Output) {tids : Multiset ℤ} (hwait : Waiting s.callers (tid ::ₘ tids)) :
  ∃ box, s.replyNew ty contents tid output =
      some { s with sendBox := box, callers := s.callers.erase tid, out := s.out ++ [output] } ∧
    Waiting (s.callers.erase tid) tids
  := by
  obtain ⟨box, hbox⟩ := newMsg_eq hty s.sendBox contents
  obtain ⟨hreply, hwait'⟩ := hwait.reply
  use box
  constructor
  · rw [State.replyNew, hbox, Option.bind_eq_bind, Option.bind_some, State.reply]
    simp only [hreply]
    rfl
  · exact hwait'

/-- The state after a message of a timer task. -/
structure Timed (s s' : State) : Prop where
  table : Table s'.gatt
  monitorMap : s'.monitorMap = s.monitorMap
  tidTimeout : s'.tidTimeout = s.tidTimeout
  tidClock : s'.tidClock = s.tidClock
  waiting : Waiting s'.callers (elements s'.monitorMap)

theorem replyTimer_spec (ht : Table s.gatt) {tid : ℤ}
    (hwait : Waiting s.callers (tid ::ₘ elements s.monitorMap)) (ticks : ℕ) :
  ∃ s', s.replyNew clockWaitReq (leBytes 8 ticks) tid (.clockWaitReq tid ticks) = some s' ∧
    Timed s s'
  := by
  have hbase : clockWaitReq.base ≤ defaultBoxSize := by decide
  obtain ⟨box, hreply, hwait'⟩ := replyNew_spec hbase (leBytes 8 ticks)
    (.clockWaitReq tid ticks) hwait
  exact ⟨_, hreply, ht, rfl, rfl, rfl, hwait'⟩

theorem Timed.of_keeps {s' s'' : State} (hkeeps : Keeps s s') (h : Timed s' s'') :
  Timed s s''
  := by
  constructor
  · exact h.table
  · rw [h.monitorMap, hkeeps.monitorMap]
  · rw [h.tidTimeout, hkeeps.tidTimeout]
  · rw [h.tidClock, hkeeps.tidClock]
  · exact h.waiting

theorem clockTick_spec (b : Build) (ht : Table s.gatt)
    (hwait : Waiting s.callers (e.sender ::ₘ elements s.monitorMap)) :
  ∃ s', s.clockTick b e = some s' ∧ Timed s s'
  := by
  rw [State.clockTick]
  split_ifs
  · have hname : ∀ g name, Table g → g.characByName name = globalGatt.characByName name := by
      intro g name ht
      rw [Gatt.characByName, Gatt.characByName, ht.layout.characMap]
    obtain ⟨c, hc⟩ := Option.isSome_iff_exists.mp clock_isSome
    obtain ⟨c', hc'⟩ := Option.isSome_iff_exists.mp cpuUsage_isSome
    rw [← hname s.gatt _ ht] at hc
    obtain ⟨s₁, hpublish, ht₁, hkeeps₁⟩ := publish_spec b ht (mem_characs hc)
      (leBytes 8 e.now) (by simp [leBytes, valCapacity])
    rw [← hname s₁.gatt _ ht₁] at hc'
    obtain ⟨s₂, hpublish', ht₂, hkeeps₂⟩ := publish_spec b ht₁ (mem_characs hc')
      (leBytes 8 e.now ++ leBytes 8 e.idlePercent) (by simp [leBytes, valCapacity])
    have hkeeps := hkeeps₁.trans hkeeps₂
    rw [← hkeeps.callers, ← hkeeps.monitorMap] at hwait
    obtain ⟨s', hreply, htimed⟩ := replyTimer_spec ht₂ hwait (50 - e.later % 50)
    refine ⟨s', ?_, htimed.of_keeps hkeeps⟩
    simp only [hc, hpublish, hc', hpublish', hreply, Option.bind_eq_bind, Option.bind_some]
  · exact replyTimer_spec ht hwait _

theorem timeout_spec (b : Build) (ht : Table s.gatt)
    (hwait : Waiting s.callers (e.sender ::ₘ elements s.monitorMap)) :
  ∃ s', s.timeout b e = some s' ∧ Timed s s'
  := by
  rw [State.timeout]
  dsimp only
  split_ifs
  · exact replyTimer_spec ht hwait _
  · have hlen : (0x02 :: u16Bytes s.handle ++ u16Bytes 0).length ≤ 984 := by
      rw [List.length_append, List.length_cons, length_u16Bytes, length_u16Bytes]
      omega
    obtain ⟨s₁, hsend, hgatt, hkeeps⟩ := sendUart_spec b s hlen
    rw [← hkeeps.callers, ← hkeeps.monitorMap] at hwait
    rw [← hgatt] at ht
    obtain ⟨s', hreply, htimed⟩ := replyTimer_spec ht hwait 5
    refine ⟨s', ?_, htimed.of_keeps hkeeps⟩
    rw [State.respAclEmpty, hsend, Option.bind_eq_bind, Option.bind_some, hreply]
  · exact replyTimer_spec ht hwait _

end Tasks

/-! ### The messages -/

/-- The request is in the box of the server. It is answered, and leaves no client
configuration empty. -/
def Safe (g : Gatt) (data : List UInt8) (opcode : UInt8) : Prop :=
  inRecvBox l2capPacket [data] = true ∧ Answerable g data opcode ∧ KeepsConfigs g data

/-- The message is from a task that does not wait. A packet is a safe request or another
one that has what is read of it, and the capacities suffice. -/
structure Fits (s : State) (e : Event) : Prop where
  sender : e.sender ∉ s.callers
  recvBox : e.msg.inBox = true
  request : ∀ data opcode, e.msg = .l2capPacket data → data[0]? = some opcode →
    opcode ∈ requests → Safe s.gatt data opcode
  other : ∀ data, e.msg = .l2capPacket data →
    data ≠ [] ∧ (data[0]? = some 0x03 → 3 ≤ data.length)
  monitor : ∀ name c, e.msg = .gattServerMonitorReq name → s.gatt.characByName name = some c →
    (s.monitors c.valueHandle).length < monitorsCapacity
  publish : ∀ name bytes, e.msg = .gattServerPublishReq name bytes → bytes.length ≤ valCapacity

section Messages

variable {b : Build} {s : State} {e : Event} {data : List UInt8} {opcode : UInt8}

theorem hciReply_fits :
  hciReply.base ≤ defaultBoxSize
  := by decide

theorem waiting_recv (hcore : Core s) (hsender : e.sender ∉ s.callers) :
  Waiting (s.recv e).callers (e.sender ::ₘ elements (s.recv e).monitorMap)
  := hcore.waiting.request hsender

/-- The table after a request that is answered. -/
theorem written_spec (ht : Table s.gatt) (hop : data[0]? = some opcode)
    (hans : Answerable s.gatt data opcode) :
  (KeepsConfigs s.gatt data → Table (written s.gatt data)) ∧
  (¬ KeepsConfigs s.gatt data → (written s.gatt data).clearSubscription = none)
  := by
  rw [written]
  by_cases hwrite : data[0]? = some 0x12
  · obtain rfl : opcode = 0x12 := Option.some.inj (hop.symm.trans hwrite)
    obtain ⟨h3, hlt, hlen⟩ := hans
    have hdrop : (data.drop 3).length ≤ valCapacity := by
      rw [List.length_drop]
      omega
    rw [if_pos hwrite]
    constructor
    · intro hkeeps
      obtain ⟨g', hg', ht'⟩ := ht.write hlt hdrop (by
        intro hmem hnil
        have h4 := hkeeps hwrite hmem
        rw [List.drop_eq_nil_iff] at hnil
        omega)
      rw [hg']
      exact ht'
    · intro hnot
      have hmem : readU16 (data.drop 1) ∈ s.gatt.configs ∧ data.length ≤ 3 := by
        rw [KeepsConfigs] at hnot
        push Not at hnot
        exact hnot.2
      have hnil : data.drop 3 = [] := List.drop_eq_nil_iff.mpr hmem.2
      have hget := List.getElem?_eq_getElem hlt
      rw [attWrite_eq hget hdrop, hnil, Option.getD_some]
      exact clearSubscription_none (g := { s.gatt with attrVec := _ }) hmem.1
        (List.getElem?_set_self hlt) rfl
  · rw [if_neg hwrite]
    constructor
    · intro _
      exact ht
    · intro hnot
      exact absurd (fun h => absurd h hwrite) hnot

/-- A request, from its message on. -/
theorem step_request (b : Build) (hinv : Inv s) (hsender : e.sender ∉ s.callers)
    (hbox : e.msg.inBox = true) (hmsg : e.msg = .l2capPacket data) (hop : data[0]? = some opcode)
    (hreq : opcode ∈ requests) :
  (Answerable s.gatt data opcode → ∃ s', step b s e = some s' ∧
    (∃ pdu, packets s'.out = [gattPacket s.handle pdu] ∧
      (pdu.head? = some (opcode + 1) ∨ pdu.head? = some 0x01)) ∧
    s'.gatt = written s.gatt data ∧ Core s') ∧
  (¬ Answerable s.gatt data opcode → step b s e = none)
  := by
  obtain ⟨box, hreply, hwait⟩ := replyNew_spec hciReply_fits [] (.hciReply e.sender)
    (waiting_recv hinv.core hsender)
  have hinv' : Inv { s.recv e with
      sendBox := box, callers := (s.recv e).callers.erase e.sender
      out := (s.recv e).out ++ [.hciReply e.sender] } :=
    ⟨hinv.table, hinv.core.keys, hinv.core.keysLt, hwait, hinv.core.tids⟩
  obtain ⟨hpos, hneg⟩ := handlePacket_spec b hinv' hop hreq
  rw [step_eq_serve hbox, State.serve, hmsg]
  dsimp only
  rw [hreply, Option.bind_eq_bind, Option.bind_some]
  constructor
  · intro hans
    obtain ⟨s', hpacket, hanswers⟩ := hpos hans
    rw [hpacket]
    refine ⟨_, rfl, hanswers.one, hanswers.gatt, ?_⟩
    exact ⟨hanswers.core.keys, hanswers.core.keysLt, hanswers.core.waiting, hanswers.core.tids⟩
  · intro hans
    rw [hneg hans]
    rfl

/-- Any other packet. -/
theorem step_other (b : Build) (hinv : Inv s) (hfits : Fits s e) (hmsg : e.msg = .l2capPacket data)
    (hother : ∀ opcode ∈ requests, data[0]? ≠ some opcode) :
  ∃ s', step b s e = some s' ∧ Inv s'
  := by
  obtain ⟨box, hreply, hwait⟩ := replyNew_spec hciReply_fits [] (.hciReply e.sender)
    (waiting_recv hinv.core hfits.sender)
  obtain ⟨hne, hmtu⟩ := hfits.other data hmsg
  obtain ⟨opcode, hop⟩ : ∃ opcode, data[0]? = some opcode := by
    obtain ⟨opcode, rest, rfl⟩ := List.exists_cons_of_ne_nil hne
    exact ⟨opcode, rfl⟩
  have hnot : ∀ c ∈ requests, opcode ≠ c := by
    rintro c hc rfl
    exact hother _ hc hop
  simp only [requests, List.forall_mem_cons, List.not_mem_nil, false_implies, forall_const,
    and_true] at hnot
  obtain ⟨h02, h04, h08, h0a, h10, h12⟩ := hnot
  have hsame : ∀ t : State, t.handlePacket b data = some t := by
    intro t
    rw [State.handlePacket, hop]
    simp only [Option.bind_eq_bind, Option.bind_some, if_neg h02, if_neg h04, if_neg h08,
      if_neg h0a, if_neg h10, if_neg h12]
    split_ifs with h03
    · subst h03
      have h3 := hmtu hop
      rw [List.getElem?_eq_getElem (by omega), List.getElem?_eq_getElem (by omega)]
      rfl
    · rfl
  rw [step_eq_serve hfits.recvBox, State.serve, hmsg]
  dsimp only
  rw [hreply, Option.bind_eq_bind, Option.bind_some, hsame]
  exact ⟨_, rfl, hinv.table, hinv.core.keys, hinv.core.keysLt, hwait, hinv.core.tids⟩

theorem step_publish (b : Build) (hinv : Inv s) (hsender : e.sender ∉ s.callers)
    (hbox : e.msg.inBox = true) {name : String} {bytes : List UInt8}
    (hmsg : e.msg = .gattServerPublishReq name bytes)
    (hfit : bytes.length ≤ valCapacity) :
  ∃ s', step b s e = some s' ∧ Inv s'
  := by
  have hbase : gattServerPublishResp.base ≤ defaultBoxSize := by decide
  obtain ⟨box, hreply, hwait⟩ := replyNew_spec hbase [] (.gattServerPublishResp e.sender)
    (waiting_recv hinv.core hsender)
  rw [step_eq_serve hbox, State.serve, hmsg]
  dsimp only
  rw [hreply, Option.bind_eq_bind, Option.bind_some]
  cases hname : s.gatt.characByName name with
  | none =>
    have hname' : (s.recv e).gatt.characByName name = none := hname
    rw [hname']
    exact ⟨_, rfl, hinv.table, hinv.core.keys, hinv.core.keysLt, hwait, hinv.core.tids⟩
  | some c =>
    obtain ⟨s', hpublish, ht', hkeeps⟩ := publish_spec b (s := { s.recv e with
      sendBox := box, callers := (s.recv e).callers.erase e.sender
      out := (s.recv e).out ++ [.gattServerPublishResp e.sender] }) hinv.table (mem_characs hname)
      bytes hfit
    refine ⟨s', ?_, ht', ?_⟩
    · have hname' : (s.recv e).gatt.characByName name = some c := hname
      simp only [hname']
      exact hpublish
    · constructor
      · rw [hkeeps.monitorMap]
        exact hinv.core.keys
      · rw [hkeeps.monitorMap]
        exact hinv.core.keysLt
      · rw [hkeeps.monitorMap, hkeeps.callers]
        exact hwait
      · rw [hkeeps.tidTimeout, hkeeps.tidClock]
        exact hinv.core.tids

/-- A disconnection fails exactly when `clear_subscription` does. -/
theorem step_disconnect (b : Build) (hcore : Core s) (hsender : e.sender ∉ s.callers)
    (hmsg : e.msg = .hciDisconnectionComplete) :
  (∀ g', s.gatt.clearSubscription = some g' →
    ∃ s', step b s e = some s' ∧ s'.gatt = g' ∧ Core s') ∧
  (s.gatt.clearSubscription = none → step b s e = none)
  := by
  have hbox : e.msg.inBox = true := by
    rw [hmsg]
    rfl
  obtain ⟨box, hreply, hwait⟩ := replyNew_spec hciReply_fits [] (.hciReply e.sender)
    (waiting_recv hcore hsender)
  rw [step_eq_serve hbox, State.serve, hmsg]
  dsimp only
  rw [hreply, Option.bind_eq_bind, Option.bind_some]
  constructor
  · intro g' hg'
    have hclear : (s.recv e).gatt.clearSubscription = some g' := hg'
    rw [hclear]
    exact ⟨_, rfl, rfl, hcore.keys, hcore.keysLt, hwait, hcore.tids⟩
  · intro hnone
    have hclear : (s.recv e).gatt.clearSubscription = none := hnone
    rw [hclear]
    rfl

theorem step_monitor (b : Build) (hinv : Inv s) (hfits : Fits s e) {name : String}
    (hmsg : e.msg = .gattServerMonitorReq name) :
  ∃ s', step b s e = some s' ∧ Inv s'
  := by
  have hwait := waiting_recv hinv.core hfits.sender
  rw [step_eq_serve hfits.recvBox, State.serve, hmsg]
  dsimp only
  rw [State.addMonitor]
  cases hname : s.gatt.characByName name with
  | none =>
    have hname' : (s.recv e).gatt.characByName name = none := hname
    rw [hname']
    exact ⟨_, rfl, hinv.table, hinv.core.keys, hinv.core.keysLt, hwait.forget, hinv.core.tids⟩
  | some c =>
    have hname' : (s.recv e).gatt.characByName name = some c := hname
    have hroom := hfits.monitor name c hmsg hname
    have hpush : pushBack monitorsCapacity ((getMap s.monitorMap c.valueHandle).getD []) e.sender
        = some ((getMap s.monitorMap c.valueHandle).getD [] ++ [e.sender]) := if_pos hroom
    have hlen : s.monitorMap.length < monitorMapCapacity := by
      have hle := length_le_of_nodup hinv.core.keys hinv.core.keysLt
      rw [List.length_map, length_types] at hle
      rw [monitorMapCapacity]
      omega
    obtain ⟨m', hinsert, helements, hnodup, hkeys⟩ := insertMap_spec (k := c.valueHandle)
      (a := e.sender) hinv.core.keys hlen
    rw [hname']
    dsimp only [State.recv]
    simp only [hpush, Option.bind_eq_bind, Option.bind_some, hinsert]
    refine ⟨_, rfl, hinv.table, hnodup, ?_, ?_, hinv.core.tids⟩
    · intro k hk
      rcases hkeys k hk with rfl | hk
      · exact values_lt c (hinv.table.characs_eq ▸ mem_characs hname)
      · exact hinv.core.keysLt k hk
    · dsimp only
      rw [helements]
      exact hwait

theorem step_timer (b : Build) (hinv : Inv s) (hsender : e.sender ∉ s.callers)
    (hmsg : e.msg = .clockWaitResp) :
  ∃ s', step b s e = some s' ∧ Inv s'
  := by
  have hbox : e.msg.inBox = true := by
    rw [hmsg]
    rfl
  have hwait := waiting_recv hinv.core hsender
  have htimed : ∀ s', Timed (s.recv e) s' → Inv s' := by
    intro s' h
    refine ⟨h.table, ?_, ?_, h.waiting, ?_⟩
    · rw [h.monitorMap]
      exact hinv.core.keys
    · rw [h.monitorMap]
      exact hinv.core.keysLt
    · rw [h.tidTimeout, h.tidClock]
      exact hinv.core.tids
  rw [step_eq_serve hbox, State.serve, hmsg]
  dsimp only
  by_cases hclock : e.sender = s.tidClock
  · obtain ⟨s', htick, h⟩ := clockTick_spec b (s := s.recv e) (e := e) hinv.table hwait
    have hnot : ¬ e.sender = s'.tidTimeout := by
      rw [h.tidTimeout, hclock]
      exact hinv.core.tids.symm
    have hclock' : e.sender = (s.recv e).tidClock := hclock
    rw [if_pos hclock', htick, Option.bind_eq_bind, Option.bind_some, if_neg hnot]
    exact ⟨s', rfl, htimed s' h⟩
  · have hclock' : ¬ e.sender = (s.recv e).tidClock := hclock
    rw [if_neg hclock', Option.bind_eq_bind, Option.bind_some]
    split_ifs
    · obtain ⟨s', htimeout, h⟩ := timeout_spec b (s := s.recv e) (e := e) hinv.table hwait
      exact ⟨s', htimeout, htimed s' h⟩
    · exact ⟨_, rfl, hinv.table, hinv.core.keys, hinv.core.keysLt, hwait.forget, hinv.core.tids⟩

/-- Every message that fits is handled, and leads on to a state like this one. -/
theorem step_inv (b : Build) (hinv : Inv s) (hfits : Fits s e) :
  ∃ s', step b s e = some s' ∧ Inv s'
  := by
  cases hmsg : e.msg with
  | l2capPacket data =>
    by_cases hreq : ∃ opcode ∈ requests, data[0]? = some opcode
    · obtain ⟨opcode, hreq, hop⟩ := hreq
      obtain ⟨-, hans, hkeeps⟩ := hfits.request data opcode hmsg hop hreq
      obtain ⟨s', hstep, -, hgatt, hcore⟩ :=
        (step_request b hinv hfits.sender hfits.recvBox hmsg hop hreq).1 hans
      refine ⟨s', hstep, ?_, hcore⟩
      rw [hgatt]
      exact (written_spec hinv.table hop hans).1 hkeeps
    · push Not at hreq
      exact step_other b hinv hfits hmsg hreq
  | hciLeConnectionComplete connectionHandle =>
    obtain ⟨box, hreply, hwait⟩ := replyNew_spec hciReply_fits [] (.hciReply e.sender)
      (waiting_recv hinv.core hfits.sender)
    rw [step_eq_serve hfits.recvBox, State.serve, hmsg]
    dsimp only
    rw [hreply]
    exact ⟨_, rfl, hinv.table, hinv.core.keys, hinv.core.keysLt, hwait, hinv.core.tids⟩
  | clockWaitResp => exact step_timer b hinv hfits.sender hmsg
  | hciDisconnectionComplete =>
    obtain ⟨g', hclear, ht'⟩ := hinv.table.clearSubscription
    obtain ⟨s', hstep, hgatt, hcore⟩ := (step_disconnect b hinv.core hfits.sender hmsg).1 g' hclear
    refine ⟨s', hstep, ?_, hcore⟩
    rw [hgatt]
    exact ht'
  | gattServerMonitorReq name => exact step_monitor b hinv hfits hmsg
  | gattServerPublishReq name bytes =>
    exact step_publish b hinv hfits.sender hfits.recvBox hmsg (hfits.publish name bytes hmsg)
  | unknown =>
    rw [step_eq_serve hfits.recvBox, State.serve, hmsg]
    exact ⟨_, rfl, hinv.table, hinv.core.keys, hinv.core.keysLt,
      (waiting_recv hinv.core hfits.sender).forget, hinv.core.tids⟩

end Messages

/-! ### Runs -/

/-- Publishing a value that fits and disconnecting do not make the server panic. -/
structure Resilient (b : Build) (s : State) : Prop where
  publish : ∀ e name bytes, e.sender ∉ s.callers → e.msg.inBox = true →
    e.msg = .gattServerPublishReq name bytes → bytes.length ≤ valCapacity →
      ∃ s', step b s e = some s'
  disconnect : ∀ e, e.sender ∉ s.callers → e.msg = .hciDisconnectionComplete →
    ∃ s', step b s e = some s'

/-- The server handles the request without a panic, sends exactly one packet, which carries
the response to the request or an error response, and can go on. -/
def Answered (b : Build) (s : State) (e : Event) (opcode : UInt8) : Prop :=
  ∃ s' pdu, step b s e = some s' ∧ packets s'.out = [gattPacket s.handle pdu] ∧
    (pdu.head? = some (opcode + 1) ∨ pdu.head? = some 0x01) ∧ Resilient b s'

theorem Inv.resilient {s : State} (b : Build) (hinv : Inv s) :
  Resilient b s
  := by
  constructor
  · intro e name bytes hsender hbox hmsg hfit
    obtain ⟨s', hstep, -⟩ := step_publish b hinv hsender hbox hmsg hfit
    exact ⟨s', hstep⟩
  · intro e hsender hmsg
    obtain ⟨g', hclear, -⟩ := hinv.table.clearSubscription
    obtain ⟨s', hstep, -⟩ := (step_disconnect b hinv.core hsender hmsg).1 g' hclear
    exact ⟨s', hstep⟩

/-- A request is answered exactly when it is safe. -/
theorem answered_iff (b : Build) {s : State} {e : Event} {data : List UInt8} {opcode : UInt8}
    (hinv : Inv s) (hsender : e.sender ∉ s.callers) (hmsg : e.msg = .l2capPacket data)
    (hop : data[0]? = some opcode) (hreq : opcode ∈ requests) :
  Answered b s e opcode ↔ Safe s.gatt data opcode
  := by
  have hrecv : e.msg.inBox = inRecvBox l2capPacket [data] := by
    rw [hmsg]
    rfl
  constructor
  · rintro ⟨s', -, hstep, -, -, hresilient⟩
    have hbox : e.msg.inBox = true := by
      by_contra hnot
      rw [step, if_neg hnot] at hstep
      cases hstep
    obtain ⟨hpos, hneg⟩ := step_request b hinv hsender hbox hmsg hop hreq
    have hans : Answerable s.gatt data opcode := by
      by_contra hnot
      rw [hneg hnot] at hstep
      cases hstep
    refine ⟨hrecv ▸ hbox, hans, ?_⟩
    by_contra hnot
    -- the next disconnection fails
    obtain ⟨s'', hstep', -, hgatt, hcore⟩ := hpos hans
    obtain rfl : s' = s'' := Option.some.inj (hstep.symm.trans hstep')
    have hclear := (written_spec hinv.table hop hans).2 hnot
    rw [← hgatt] at hclear
    obtain ⟨tid, htid⟩ := Infinite.exists_notMem_finset s'.callers.toFinset
    rw [List.mem_toFinset] at htid
    have hnone := (step_disconnect b hcore (e := { e with
      sender := tid, msg := .hciDisconnectionComplete }) htid rfl).2 hclear
    obtain ⟨t, ht⟩ := hresilient.disconnect { e with
      sender := tid, msg := .hciDisconnectionComplete } htid rfl
    rw [hnone] at ht
    cases ht
  · rintro ⟨hbox, hans, hkeeps⟩
    obtain ⟨s', hstep, ⟨pdu, hpackets, hhead⟩, hgatt, hcore⟩ :=
      (step_request b hinv hsender (hrecv.trans hbox) hmsg hop hreq).1 hans
    refine ⟨s', pdu, hstep, hpackets, hhead, ?_⟩
    apply Inv.resilient
    refine ⟨?_, hcore⟩
    rw [hgatt]
    exact (written_spec hinv.table hop hans).1 hkeeps

/-- In every run in which each request is safe no message makes the server panic, and in
the state that is reached exactly the safe requests are answered. -/
theorem gatt_answers (b : Build) {sendBox respBox : SendBox} {tidTimeout tidClock : ℤ}
    (htids : tidTimeout ≠ tidClock) {s₀ : State}
    (hs₀ : State.new sendBox respBox tidTimeout tidClock = some s₀) {es : List Event}
    (hes : Run.Meets (step b) Fits s₀ es) :
  ∃ s, Run.run (step b) s₀ es = some s ∧
    ∀ e data opcode, e.sender ∉ s.callers → e.msg = .l2capPacket data →
      data[0]? = some opcode → opcode ∈ requests →
      (Answered b s e opcode ↔ Safe s.gatt data opcode)
  := by
  have hnew : Gatt.new globalBuilder = some globalGatt := (Option.some_get isSome_new).symm
  rw [State.new, hnew] at hs₀
  obtain rfl := Option.some.inj hs₀
  have hinit : Inv
      { gatt := globalGatt, monitorMap := [], conn := false, handle := 0, lastPacketTick := 0
        sendBox := sendBox, respBox := respBox, tidTimeout := tidTimeout, tidClock := tidClock
        callers := [], out := [] } :=
    ⟨table_start, List.nodup_nil, by simp, Waiting.nil, htids⟩
  obtain ⟨s, hrun, hinv⟩ :=
    Run.run_invariant (fun s e hinv hfits => step_inv b hinv hfits) hinit hes
  refine ⟨s, hrun, ?_⟩
  intro e data opcode hsender hmsg hop hreq
  exact answered_iff b hinv hsender hmsg hop hreq

/-- A build for release. -/
def releaseBuild : Build where
  arith := .wrapping
  slice := fun _ => []
  arrayDefault := []

def emptyBox : SendBox where
  len := 0
  sendBuf := fun _ => 0

/-- The state at the start, when the timer tasks are 5 and 6. -/
def start : State where
  gatt := globalGatt
  monitorMap := []
  conn := false
  handle := 0
  lastPacketTick := 0
  sendBox := emptyBox
  respBox := emptyBox
  tidTimeout := 5
  tidClock := 6
  callers := []
  out := []

theorem new_start :
  State.new emptyBox emptyBox 5 6 = some start
  := by
  rw [State.new, ← Option.some_get isSome_new]
  rfl

/-- A packet from the task 7. -/
def packet (data : List UInt8) : Event where
  sender := 7
  msg := .l2capPacket data
  now := 0
  later := 0
  idlePercent := 0

/-- Another message from a task. -/
def message (sender : ℤ) (msg : Msg) : Event where
  sender := sender
  msg := msg
  now := 0
  later := 0
  idlePercent := 0

instance (data : List UInt8) : Decidable (HasType data) :=
  inferInstanceAs (Decidable (data.length = 7 ∨ data.length = 21))

instance (g : Gatt) (data : List UInt8) (opcode : UInt8) : Decidable (Answerable g data opcode) :=
  inferInstanceAs (Decidable (ite (opcode = 0x08) (HasType data ∧ _) _))

instance (g : Gatt) (data : List UInt8) : Decidable (KeepsConfigs g data) :=
  inferInstanceAs (Decidable (data[0]? = some 0x12 → readU16 (data.drop 1) ∈ g.configs →
    3 < data.length))

instance (g : Gatt) (data : List UInt8) (opcode : UInt8) : Decidable (Safe g data opcode) :=
  inferInstanceAs (Decidable (_ ∧ _ ∧ _))

/-- `Fits`, as a check. -/
def fits (s : State) (e : Event) : Bool :=
  !s.callers.contains e.sender && e.msg.inBox &&
    match e.msg with
    | .l2capPacket data =>
        match data[0]? with
        | none => false
        | some opcode =>
            (opcode ∉ requests || decide (Safe s.gatt data opcode)) &&
              (opcode ≠ 0x03 || 3 ≤ data.length)
    | .gattServerMonitorReq name =>
        (s.gatt.characByName name).all fun c =>
          (s.monitors c.valueHandle).length < monitorsCapacity
    | .gattServerPublishReq _ bytes => bytes.length ≤ valCapacity
    | _ => true

theorem fits_of_check (s : State) (e : Event) (h : fits s e = true) :
  Fits s e
  := by
  rw [fits, Bool.and_eq_true, Bool.and_eq_true] at h
  obtain ⟨⟨hsender, hbox⟩, h⟩ := h
  constructor
  · simpa using hsender
  · exact hbox
  · intro data opcode hmsg hop hreq
    simp only [hmsg, hop, Bool.and_eq_true, Bool.or_eq_true, decide_eq_true_eq] at h
    exact h.1.resolve_left (not_not_intro hreq)
  · intro data hmsg
    rw [hmsg] at h
    cases data with
    | nil => cases h
    | cons opcode rest =>
      simp only [List.getElem?_cons_zero, Bool.and_eq_true, Bool.or_eq_true,
        decide_eq_true_eq] at h
      refine ⟨List.cons_ne_nil _ _, fun hop => h.2.resolve_left (not_not_intro ?_)⟩
      exact Option.some.inj hop
  · intro name c hmsg hname
    simp only [hmsg, hname, Option.all_some, decide_eq_true_eq] at h
    exact h
  · intro name bytes hmsg
    simp only [hmsg, decide_eq_true_eq] at h
    exact h

/-- The client connects, subscribes to the acknowledgements and writes a command, a task
publishes an acknowledgement, and the client disconnects. -/
def session : List Event :=
  [message 7 (.hciLeConnectionComplete 64), packet [0x12, 24, 0, 1, 0], packet [0x12, 19, 0, 5],
    message 9 (.gattServerPublishReq "Cmd Ack" [1, 2]), message 7 .hciDisconnectionComplete]

/-- After the session the published value is read, and a write to a handle that is not in the
table is not answered. -/
theorem gatt_answers_session :
  ∃ s, Run.run (step releaseBuild) start session = some s ∧
    Answered releaseBuild s (packet [0x0a, 22, 0]) 0x0a ∧
    ¬ Answered releaseBuild s (packet [0x12, 0xff, 0xff, 1]) 0x12
  := by
  have hmeets : Run.Meets (step releaseBuild) Fits start session := by
    apply Run.meets_of_allOk fits_of_check
    decide +kernel
  have hend : (Run.run (step releaseBuild) start session).any (fun s =>
      !s.callers.contains 7 && decide (Safe s.gatt [0x0a, 22, 0] 0x0a) &&
        !decide (Safe s.gatt [0x12, 0xff, 0xff, 1] 0x12)) = true := by
    decide +kernel
  obtain ⟨s, hrun, hiff⟩ := gatt_answers releaseBuild (by decide) new_start hmeets
  rw [hrun, Option.any_some] at hend
  simp only [Bool.and_eq_true, Bool.not_eq_true', decide_eq_true_eq, decide_eq_false_iff_not,
    List.contains_eq_mem] at hend
  obtain ⟨⟨hsender, hread⟩, hwrite⟩ := hend
  refine ⟨s, hrun, ?_, ?_⟩
  · exact (hiff (packet [0x0a, 22, 0]) _ _ hsender rfl rfl (by decide)).mpr hread
  · exact mt (hiff (packet [0x12, 0xff, 0xff, 1]) _ _ hsender rfl rfl (by decide)).mp hwrite

/-- A write to a handle that is not in the table makes the server panic. -/
theorem gatt_not_answered :
  step releaseBuild start (packet [0x12, 0xff, 0xff, 1]) = none ∧
    ¬ Answered releaseBuild start (packet [0x12, 0xff, 0xff, 1]) 0x12
  := by
  have hisNone : (step releaseBuild start (packet [0x12, 0xff, 0xff, 1])).isNone = true := by
    decide +kernel
  have hnone := Option.isNone_iff_eq_none.mp hisNone
  refine ⟨hnone, ?_⟩
  rintro ⟨s', -, hstep, -⟩
  rw [hnone] at hstep
  cases hstep

end TrainsOs.Bluetooth
