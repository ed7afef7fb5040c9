import TrainsOs.Bluetooth.Monitors
import TrainsOs.Bluetooth.Relay

/-!
# From the client to the commander

A value that the client writes to a monitored characteristic goes from the server to the
task `gatt_monitor.rs`, from there to the relay, and from the relay to the commander. The
monitor registers with the server anew for each value. Here the four tasks run in any
order, with any other tasks that send messages to the server. A task that waits for a
message or for a reply does nothing.
-/

namespace TrainsOs.Bluetooth

open MsgBox

/-! ### The tasks -/

/-- The tids of the monitor and of the commander, and the monitored characteristic. -/
structure Setup where
  build : Build
  monitor : ℤ
  commander : ℤ
  name : String
  charac : GattCharac
  ne : monitor ≠ commander
  known : globalGatt.characByName name = some charac

/-- Where the monitor is in its loop. -/
inductive Phase where
  /-- It is about to send its request to the server. -/
  | register
  /-- It waits for the reply of the server. -/
  | registering
  /-- It has a value. -/
  | got (bytes : List UInt8)
  /-- It waits for the reply of the relay. -/
  | forwarding
deriving DecidableEq

/-- The tasks, and the messages that they have not received yet. The last three fields
record whether the first registration was received, the values that were written since,
and the values that the commander received. -/
structure Sys where
  server : State
  serverBox : List Event
  monitor : Phase
  /-- `send_box_parent` of the monitor. -/
  monitorBox : SendBox
  relay : Relay.State
  relayBox : List Relay.Event
  commanderWaits : Bool
  started : Bool
  written : List (List UInt8)
  received : List (List UInt8)

inductive Action where
  /-- Any other task sends a message to the server. -/
  | send (e : Event)
  | serve
  | register
  | forward
  | relay
  | ask

variable (u : Setup)

/-- The start, from the states of the server and of the relay. -/
def Sys.new (server : State) (monitorBox : SendBox) (relay : Relay.State) : Sys where
  server := server
  serverBox := []
  monitor := .register
  monitorBox := monitorBox
  relay := relay
  relayBox := []
  commanderWaits := false
  started := false
  written := []
  received := []

/-- The request of the monitor. It makes the server read no clock. -/
def Setup.registration : Event where
  sender := u.monitor
  msg := .gattServerMonitorReq u.name
  now := 0
  later := 0
  idlePercent := 0

/-- The value that is written to the monitored characteristic. -/
def Setup.values (e : Event) : List (List UInt8) :=
  match e.write with
  | some (handle, bytes) => if handle = u.charac.valueHandle then [bytes] else []
  | none => []

/-- A round of the server. -/
def Sys.serve (s : Sys) : Option Sys :=
  match s.serverBox with
  | [] => some s
  | e :: box => do
      let server ← step u.build s.server e
      some
        { s with
          server := server
          serverBox := box
          monitor := match told u.monitor server.out with
            | bytes :: _ => .got bytes
            | [] => s.monitor
          started := s.started || e.sender = u.monitor
          written := s.written ++ if s.started then u.values e else [] }

/-- The monitor sends its value to the relay. -/
def Sys.forward (s : Sys) : Option Sys :=
  match s.monitor with
  | .got bytes => do
      let box ← newArrayMsg u.build Relay.gattMonitorResp s.monitorBox bytes
      some
        { s with
          monitor := .forwarding
          monitorBox := box
          relayBox := s.relayBox ++ [{ sender := u.monitor, msg := .gattMonitorResp bytes }] }
  | _ => some s

/-- The values for the commander. -/
def Setup.given (out : List Relay.Output) : List (List UInt8) :=
  ((Relay.given out).filter fun p => p.1 = u.commander).map Prod.snd

/-- A round of the relay. -/
def Sys.relayRound (s : Sys) : Option Sys :=
  match s.relayBox with
  | [] => some s
  | e :: box => do
      let relay ← Relay.step u.build s.relay e
      some
        { s with
          relay := relay
          relayBox := box
          monitor := if .gattMonitorReq u.monitor ∈ relay.out then .register else s.monitor
          commanderWaits := s.commanderWaits && u.given relay.out = []
          received := s.received ++ u.given relay.out }

def Sys.step (s : Sys) : Action → Option Sys
  | .send e =>
      if e.sender = u.monitor ∨ e.sender ∈ s.server.callers ∨
          e.sender ∈ s.serverBox.map Event.sender then
        some s
      else
        some { s with serverBox := s.serverBox ++ [e] }
  | .serve => s.serve u
  | .register =>
      if s.monitor = .register then
        some { s with monitor := .registering, serverBox := s.serverBox ++ [u.registration] }
      else
        some s
  | .forward => s.forward u
  | .relay => s.relayRound u
  | .ask =>
      if s.commanderWaits then
        some s
      else
        some
          { s with
            commanderWaits := true
            relayBox := s.relayBox ++ [{ sender := u.commander, msg := .gattMonitorReq }] }

/-- The value that the monitor has. -/
def Phase.values : Phase → List (List UInt8)
  | .got bytes => [bytes]
  | _ => []

/-- The values on the way to the commander, the oldest first. -/
def Sys.inFlight (s : Sys) : List (List UInt8) :=
  s.relay.queue ++ s.relayBox.flatMap Relay.Event.values ++ s.monitor.values

/-! ### The invariant -/

/-- The server and the monitor. -/
structure ServerSide (s : Sys) : Prop where
  inv : Inv s.server
  nodup : (s.serverBox.map Event.sender).Nodup
  idle : ∀ t ∈ s.serverBox.map Event.sender, t ∉ s.server.callers
  request : ∀ e ∈ s.serverBox, e.sender = u.monitor → e.msg = .gattServerMonitorReq u.name
  only : ∀ h, u.monitor ∈ s.server.monitors h → h = u.charac.valueHandle
  phase : s.monitor = .registering ↔ u.monitor ∈ s.serverBox.map Event.sender ∨
    u.monitor ∈ s.server.monitors u.charac.valueHandle
  waits : u.monitor ∈ s.server.callers → s.monitor = .registering
  started : u.monitor ∈ s.server.monitors u.charac.valueHandle → s.started = true

/-- The monitor, the relay and the commander. -/
structure RelaySide (s : Sys) : Prop where
  inv : Relay.Inv s.relay
  nodup : (s.relayBox.map Relay.Event.sender).Nodup
  message : ∀ e ∈ s.relayBox,
    (e.sender = u.monitor ∧ ∃ bytes, e.msg = .gattMonitorResp bytes ∧
      bytes.length ≤ Relay.vecCapacity) ∨
    (e.sender = u.commander ∧ e.msg = .gattMonitorReq)
  forwarding : s.monitor = .forwarding ↔ u.monitor ∈ s.relayBox.map Relay.Event.sender
  asked : s.commanderWaits ↔ u.commander ∈ s.relayBox.map Relay.Event.sender ∨
    s.relay.watcher = some u.commander
  watcher : ∀ w ∈ s.relay.watcher,
    w = u.commander ∧ u.commander ∉ s.relayBox.map Relay.Event.sender
  got : ∀ bytes, s.monitor = .got bytes → bytes.length ≤ Relay.vecCapacity

/-- What the tasks know of each other. -/
structure Linked (s : Sys) : Prop where
  serverSide : ServerSide u s
  relaySide : RelaySide u s

/-- The values on the way and those that have arrived, the oldest first. -/
def Sys.flow (s : Sys) : List (List UInt8) :=
  s.received ++ s.inFlight

/-- No task panics: the messages to the server fit, and the capacity of the relay suffices. -/
def Admitted (s : Sys) : Action → Prop
  | .serve => ∀ e ∈ s.serverBox.head?, e.sender ∉ s.server.callers → Fits s.server e
  | .relay => ∀ e ∈ s.relayBox.head?, ∀ bytes, e.msg = .gattMonitorResp bytes →
      s.relay.watcher = none → s.relay.queue.length < Relay.queueCapacity
  | _ => True

/-- A write to the characteristic is received while the monitor is registered. -/
def Registered (s : Sys) : Action → Prop
  | .serve => ∀ e ∈ s.serverBox.head?, s.started = true → u.values e ≠ [] →
      u.monitor ∈ s.server.monitors u.charac.valueHandle
  | _ => True

/-- The tasks know of each other as before, and no value appears or vanishes. -/
structure Kept (s s' : Sys) : Prop where
  linked : Linked u s'
  flow : s'.flow = s.flow
  written : s'.written = s.written

variable {u} {s : Sys}

theorem Linked.kept (h : Linked u s) :
  Kept u s s
  := ⟨h, rfl, rfl⟩

/-- The server does not see the relay. -/
theorem ServerSide.of_same {s' : Sys} (h : ServerSide u s) (hserver : s'.server = s.server)
    (hbox : s'.serverBox = s.serverBox) (hstarted : s'.started = s.started)
    (hphase : s'.monitor = .registering ↔ s.monitor = .registering) :
  ServerSide u s'
  := by
  obtain ⟨hinv, hnodup, hidle, hrequest, honly, hiff, hwaits, hstart⟩ := h
  rw [← hserver, ← hbox, ← hphase] at hiff
  rw [← hserver] at hinv hidle honly hwaits hstart
  rw [← hbox] at hnodup hidle hrequest
  rw [← hphase] at hwaits
  rw [← hstarted] at hstart
  exact ⟨hinv, hnodup, hidle, hrequest, honly, hiff, hwaits, hstart⟩

/-- The relay does not see the server. -/
theorem RelaySide.of_same {s' : Sys} (h : RelaySide u s) (hrelay : s'.relay = s.relay)
    (hbox : s'.relayBox = s.relayBox) (hwaits : s'.commanderWaits = s.commanderWaits)
    (hphase : s'.monitor = .forwarding ↔ s.monitor = .forwarding)
    (hgot : ∀ bytes, s'.monitor = .got bytes → bytes.length ≤ Relay.vecCapacity) :
  RelaySide u s'
  := by
  obtain ⟨hinv, hnodup, hmessage, hforwarding, hasked, hwatcher, -⟩ := h
  rw [← hphase, ← hbox] at hforwarding
  rw [← hbox] at hnodup hmessage
  rw [← hwaits, ← hbox, ← hrelay] at hasked
  rw [← hrelay, ← hbox] at hwatcher
  rw [← hrelay] at hinv
  exact ⟨hinv, hnodup, hmessage, hforwarding, hasked, hwatcher, hgot⟩

/-- One more message in a box, from a task that has none there. -/
theorem nodup_senders {α : Type} {sender : α → ℤ} {box : List α} {e : α}
    (hnodup : (box.map sender).Nodup) (hnew : sender e ∉ box.map sender) :
  ((box ++ [e]).map sender).Nodup
  := by
  rw [List.map_append, List.nodup_append]
  refine ⟨hnodup, List.nodup_singleton _, ?_⟩
  rintro t ht t' ht' rfl
  rw [List.map_singleton, List.mem_singleton] at ht'
  exact hnew (ht' ▸ ht)

/-! ### The messages to the server -/

theorem send_spec (h : Linked u s) (e : Event) :
  ∃ s', s.step u (.send e) = some s' ∧ Kept u s s'
  := by
  rw [Sys.step]
  split_ifs with hwaits
  · exact ⟨s, rfl, h.kept⟩
  · push Not at hwaits
    obtain ⟨hne, hnew, hbox⟩ := hwaits
    refine ⟨_, rfl, ?_, rfl, rfl⟩
    constructor
    · constructor
      · exact h.serverSide.inv
      · exact nodup_senders h.serverSide.nodup hbox
      · intro t ht
        rw [List.map_append, List.mem_append] at ht
        rcases ht with ht | ht
        · exact h.serverSide.idle t ht
        · rwa [List.mem_singleton.mp ht]
      · intro e' he' hsender
        rcases List.mem_append.mp he' with he' | he'
        · exact h.serverSide.request e' he' hsender
        · rw [List.mem_singleton.mp he'] at hsender
          exact absurd hsender hne
      · exact h.serverSide.only
      · rw [List.map_append, List.mem_append, List.map_singleton, List.mem_singleton,
          or_iff_left (Ne.symm hne)]
        exact h.serverSide.phase
      · exact h.serverSide.waits
      · exact h.serverSide.started
    · exact h.relaySide.of_same rfl rfl rfl Iff.rfl h.relaySide.got

theorem register_spec (h : Linked u s) :
  ∃ s', s.step u .register = some s' ∧ Kept u s s'
  := by
  rw [Sys.step]
  split_ifs with hphase
  · have hnot : ¬ (u.monitor ∈ s.serverBox.map Event.sender ∨
        u.monitor ∈ s.server.monitors u.charac.valueHandle) := by
      rw [← h.serverSide.phase, hphase]
      nofun
    have hidle : u.monitor ∉ s.server.callers := by
      intro hmem
      have := h.serverSide.waits hmem
      rw [hphase] at this
      cases this
    push Not at hnot
    refine ⟨_, rfl, ?_, ?_, rfl⟩
    · constructor
      · constructor
        · exact h.serverSide.inv
        · exact nodup_senders h.serverSide.nodup hnot.1
        · intro t ht
          rw [List.map_append, List.mem_append] at ht
          rcases ht with ht | ht
          · exact h.serverSide.idle t ht
          · rwa [List.mem_singleton.mp ht]
        · intro e' he' hsender
          rcases List.mem_append.mp he' with he' | he'
          · exact h.serverSide.request e' he' hsender
          · rw [List.mem_singleton.mp he']
            rfl
        · exact h.serverSide.only
        · rw [List.map_append, List.mem_append]
          exact iff_of_true rfl (Or.inl (Or.inr List.mem_cons_self))
        · exact fun _ => rfl
        · exact h.serverSide.started
      · refine h.relaySide.of_same rfl rfl rfl ?_ nofun
        rw [hphase]
        simp
    · rw [Sys.flow, Sys.flow, Sys.inFlight, Sys.inFlight, hphase]
      rfl
  · exact ⟨s, rfl, h.kept⟩

/-! ### The messages to the relay -/

theorem forward_spec (h : Linked u s) :
  ∃ s', s.step u .forward = some s' ∧ Kept u s s'
  := by
  rw [Sys.step, Sys.forward]
  cases hphase : s.monitor with
  | got bytes =>
    have hbase : Relay.gattMonitorResp.base ≤ defaultBoxSize := by decide
    have hcap : Relay.vecCapacity ≤ arrayCapacity Relay.gattMonitorResp := by decide
    have hlen := h.relaySide.got bytes hphase
    obtain ⟨box, hbox⟩ := newArrayMsg_eq u.build "GattMonitorResp" s.monitorBox hbase
      (hlen.trans hcap)
    have hnew : u.monitor ∉ s.relayBox.map Relay.Event.sender := by
      rw [← h.relaySide.forwarding, hphase]
      rintro ⟨⟩
    dsimp only
    rw [Relay.gattMonitorResp, hbox, Option.bind_eq_bind, Option.bind_some]
    refine ⟨_, rfl, ?_, ?_, rfl⟩
    · constructor
      · refine h.serverSide.of_same rfl rfl rfl ?_
        rw [hphase]
        simp
      · constructor
        · exact h.relaySide.inv
        · exact nodup_senders h.relaySide.nodup hnew
        · intro e he
          rcases List.mem_append.mp he with he | he
          · exact h.relaySide.message e he
          · rw [List.mem_singleton.mp he]
            exact Or.inl ⟨rfl, bytes, rfl, hlen⟩
        · rw [List.map_append, List.mem_append]
          exact iff_of_true rfl (Or.inr List.mem_cons_self)
        · rw [List.map_append, List.mem_append, List.map_singleton, List.mem_singleton,
            or_iff_left (Ne.symm u.ne)]
          exact h.relaySide.asked
        · intro w hw
          rw [List.map_append, List.mem_append, List.map_singleton, List.mem_singleton,
            or_iff_left (Ne.symm u.ne)]
          exact h.relaySide.watcher w hw
        · rintro _ ⟨⟩
    · simp [Sys.flow, Sys.inFlight, hphase, Relay.Event.values, Phase.values]
  | _ => exact ⟨s, rfl, h.kept⟩

theorem ask_spec (h : Linked u s) :
  ∃ s', s.step u .ask = some s' ∧ Kept u s s'
  := by
  rw [Sys.step]
  split_ifs with hwaits
  · exact ⟨s, rfl, h.kept⟩
  · have hnot := mt h.relaySide.asked.mpr hwaits
    push Not at hnot
    obtain ⟨hnew, hwatcher⟩ := hnot
    have hnone : s.relay.watcher = none := by
      cases hw : s.relay.watcher with
      | none => rfl
      | some w =>
        obtain ⟨rfl, -⟩ := h.relaySide.watcher w hw
        exact absurd hw hwatcher
    refine ⟨_, rfl, ?_, ?_, rfl⟩
    · constructor
      · exact h.serverSide.of_same rfl rfl rfl Iff.rfl
      · constructor
        · exact h.relaySide.inv
        · exact nodup_senders h.relaySide.nodup hnew
        · intro e he
          rcases List.mem_append.mp he with he | he
          · exact h.relaySide.message e he
          · rw [List.mem_singleton.mp he]
            exact Or.inr ⟨rfl, rfl⟩
        · rw [List.map_append, List.mem_append, List.map_singleton, List.mem_singleton,
            or_iff_left u.ne]
          exact h.relaySide.forwarding
        · rw [List.map_append, List.mem_append]
          exact iff_of_true rfl (Or.inl (Or.inr List.mem_cons_self))
        · intro w hw
          dsimp only at hw
          rw [hnone] at hw
          cases hw
        · exact h.relaySide.got
    · rw [Sys.flow, Sys.flow, Sys.inFlight, Sys.inFlight, List.flatMap_append]
      exact congrArg (fun vs => s.received ++ (s.relay.queue ++ vs ++ _)) (List.append_nil _)

/-- What the relay gives to the commander alone. -/
theorem given_eq {out : List Relay.Output} (hall : ∀ p ∈ Relay.given out, p.1 = u.commander) :
  u.given out = (Relay.given out).map Prod.snd
  := by
  rw [Setup.given, List.filter_eq_self.mpr]
  intro p hp
  exact decide_eq_true (hall p hp)

/-- The state after a round of the relay. -/
def Sys.relayed (u : Setup) (s : Sys) (relay : Relay.State) (box : List Relay.Event) : Sys :=
  { s with
    relay := relay
    relayBox := box
    monitor := if .gattMonitorReq u.monitor ∈ relay.out then .register else s.monitor
    commanderWaits := s.commanderWaits && u.given relay.out = []
    received := s.received ++ u.given relay.out }

/-- The values are the same when all that is given is given to the commander. -/
theorem relayed_flow {relay : Relay.State} {e : Relay.Event} {box : List Relay.Event}
    (hbox : s.relayBox = e :: box) (hreplies : Relay.Replies s.relay e relay)
    (hall : ∀ p ∈ Relay.given relay.out, p.1 = u.commander)
    (hphase : (s.relayed u relay box).monitor.values = s.monitor.values) :
  (s.relayed u relay box).flow = s.flow
  := by
  have hhistory := hreplies.history
  rw [← given_eq hall] at hhistory
  have hsplit : (s.relayed u relay box).flow = s.received ++
      ((u.given relay.out ++ relay.queue) ++ box.flatMap Relay.Event.values ++
        s.monitor.values) := by
    rw [Sys.flow, Sys.inFlight, hphase]
    simp only [Sys.relayed, List.append_assoc]
  rw [hsplit, hhistory, Sys.flow, Sys.inFlight, hbox, List.flatMap_cons]
  simp only [List.append_assoc]

/-- The value of the monitor arrives at the relay. -/
theorem relay_value (h : Linked u s) {e : Relay.Event} {box : List Relay.Event}
    (hbox : s.relayBox = e :: box) (ha : Admitted s .relay) {bytes : List UInt8}
    (hsender : e.sender = u.monitor) (hmsg : e.msg = .gattMonitorResp bytes)
    (hlen : bytes.length ≤ Relay.vecCapacity) :
  ∃ s', s.step u .relay = some s' ∧ Kept u s s'
  := by
  have hnodup := h.relaySide.nodup
  rw [hbox, List.map_cons, List.nodup_cons, hsender] at hnodup
  have hcommander : u.commander ∈ s.relayBox.map Relay.Event.sender ↔
      u.commander ∈ box.map Relay.Event.sender := by
    rw [hbox, List.map_cons, List.mem_cons, hsender, or_iff_right u.ne.symm]
  have hphase : s.monitor = .forwarding := by
    rw [h.relaySide.forwarding, hbox, List.map_cons, hsender]
    exact List.mem_cons_self
  have hfits : Relay.Fits s.relay e := by
    constructor
    · rw [h.relaySide.inv.callers, Option.mem_toList, hsender]
      intro hw
      exact u.ne (h.relaySide.watcher _ hw).1
    · rw [hmsg]
      nofun
    · intro bytes' heq
      obtain rfl : bytes = bytes' := Relay.Msg.gattMonitorResp.inj (hmsg.symm.trans heq)
      exact hlen
    · intro bytes' heq hnone
      refine ha e ?_ bytes' heq hnone
      rw [hbox]
      rfl
    · intro heq
      cases hmsg.symm.trans heq
  obtain ⟨relay, hstep, hinv, hreplies⟩ := Relay.step_spec u.build h.relaySide.inv hfits
  -- the monitor is acknowledged, and what is given is given to the commander
  have hout : .gattMonitorReq u.monitor ∈ relay.out ∧
      (∀ p ∈ Relay.given relay.out, p.1 = u.commander) := by
    cases hreplies with
    | give w bytes' hmsg' hwatcher hwatcher' hout hqueue =>
      obtain ⟨rfl, -⟩ := h.relaySide.watcher w hwatcher
      rw [hout, hsender]
      simp [Relay.given]
    | enqueue bytes' hmsg' hwatcher hwatcher' hout hqueue =>
      rw [hout, hsender]
      simp [Relay.given]
    | dequeue bytes' hmsg' => cases hmsg.symm.trans hmsg'
    | watch hmsg' => cases hmsg.symm.trans hmsg'
  have hregister : (s.relayed u relay box).monitor = .register := if_pos hout.1
  rw [Sys.step, Sys.relayRound, hbox]
  dsimp only
  rw [hstep, Option.bind_eq_bind, Option.bind_some]
  refine ⟨s.relayed u relay box, rfl, ?_, ?_, rfl⟩
  · constructor
    · refine h.serverSide.of_same rfl rfl rfl ?_
      rw [hregister, hphase]
      simp
    · constructor
      · exact hinv
      · exact hnodup.2
      · intro e' he'
        apply h.relaySide.message
        rw [hbox]
        exact List.mem_cons_of_mem e he'
      · rw [hregister]
        exact iff_of_false nofun hnodup.1
      · cases hreplies with
        | give w bytes' hmsg' hwatcher hwatcher' hout' hqueue =>
          obtain ⟨rfl, hnot⟩ := h.relaySide.watcher w hwatcher
          rw [hcommander] at hnot
          have hgiven : u.given relay.out = [bytes'] := by
            rw [given_eq hout.2, hout']
            rfl
          simp [Sys.relayed, hgiven, hwatcher', hnot]
        | enqueue bytes' hmsg' hwatcher hwatcher' hout' hqueue =>
          have hgiven : u.given relay.out = [] := by
            rw [given_eq hout.2, hout']
            rfl
          have hasked := h.relaySide.asked
          rw [hwatcher, hcommander] at hasked
          simpa [Sys.relayed, hgiven, hwatcher'] using hasked
        | dequeue bytes' hmsg' => cases hmsg.symm.trans hmsg'
        | watch hmsg' => cases hmsg.symm.trans hmsg'
      · intro w hw
        have hnone : relay.watcher = none := by
          cases hreplies with
          | give w bytes' hmsg' hwatcher hwatcher' => exact hwatcher'
          | enqueue bytes' hmsg' hwatcher hwatcher' => exact hwatcher'
          | dequeue bytes' hmsg' => cases hmsg.symm.trans hmsg'
          | watch hmsg' => cases hmsg.symm.trans hmsg'
        cases hnone.symm.trans hw
      · intro bytes' hgot
        cases hregister.symm.trans hgot
  · apply relayed_flow hbox hreplies hout.2
    rw [hregister, hphase]
    rfl

/-- The commander asks the relay. -/
theorem relay_ask (h : Linked u s) {e : Relay.Event} {box : List Relay.Event}
    (hbox : s.relayBox = e :: box) (hsender : e.sender = u.commander)
    (hmsg : e.msg = .gattMonitorReq) :
  ∃ s', s.step u .relay = some s' ∧ Kept u s s'
  := by
  have hnodup := h.relaySide.nodup
  rw [hbox, List.map_cons, List.nodup_cons, hsender] at hnodup
  have hmonitor : u.monitor ∈ s.relayBox.map Relay.Event.sender ↔
      u.monitor ∈ box.map Relay.Event.sender := by
    rw [hbox, List.map_cons, List.mem_cons, hsender, or_iff_right u.ne]
  have hcommander : u.commander ∈ s.relayBox.map Relay.Event.sender := by
    rw [hbox, List.map_cons, hsender]
    exact List.mem_cons_self
  have hwaits : s.commanderWaits = true := h.relaySide.asked.mpr (Or.inl hcommander)
  have hnone : s.relay.watcher = none := by
    cases hw : s.relay.watcher with
    | none => rfl
    | some w => exact absurd hcommander (h.relaySide.watcher w hw).2
  have hfits : Relay.Fits s.relay e := by
    constructor
    · rw [h.relaySide.inv.callers, hnone]
      exact List.not_mem_nil
    · rw [hmsg]
      nofun
    · intro bytes heq
      cases hmsg.symm.trans heq
    · intro bytes heq
      cases hmsg.symm.trans heq
    · exact fun _ => hnone
  obtain ⟨relay, hstep, hinv, hreplies⟩ := Relay.step_spec u.build h.relaySide.inv hfits
  -- the monitor is not replied to, and what is given is given to the commander
  have hout : .gattMonitorReq u.monitor ∉ relay.out ∧
      (∀ p ∈ Relay.given relay.out, p.1 = u.commander) := by
    cases hreplies with
    | give w bytes' hmsg' => cases hmsg.symm.trans hmsg'
    | enqueue bytes' hmsg' => cases hmsg.symm.trans hmsg'
    | dequeue bytes' hmsg' hwatcher hwatcher' hout hqueue =>
      rw [hout, hsender]
      simp [Relay.given]
    | watch hmsg' hwatcher hwatcher' hout hqueue =>
      rw [hout]
      simp [Relay.given]
  have hphase : (s.relayed u relay box).monitor = s.monitor := if_neg hout.1
  rw [Sys.step, Sys.relayRound, hbox]
  dsimp only
  rw [hstep, Option.bind_eq_bind, Option.bind_some]
  refine ⟨s.relayed u relay box, rfl, ?_, ?_, rfl⟩
  · constructor
    · refine h.serverSide.of_same rfl rfl rfl ?_
      rw [hphase]
    · constructor
      · exact hinv
      · exact hnodup.2
      · intro e' he'
        apply h.relaySide.message
        rw [hbox]
        exact List.mem_cons_of_mem e he'
      · rw [hphase, h.relaySide.forwarding]
        exact hmonitor
      · cases hreplies with
        | give w bytes' hmsg' => cases hmsg.symm.trans hmsg'
        | enqueue bytes' hmsg' => cases hmsg.symm.trans hmsg'
        | dequeue bytes' hmsg' hwatcher hwatcher' hout' hqueue =>
          have hgiven : u.given relay.out = [bytes'] := by
            rw [given_eq hout.2, hout']
            rfl
          simp [Sys.relayed, hgiven, hwatcher', hnodup.1]
        | watch hmsg' hwatcher hwatcher' hout' hqueue =>
          have hgiven : u.given relay.out = [] := by
            rw [given_eq hout.2, hout']
            rfl
          simp [Sys.relayed, hgiven, hwatcher', hsender, hwaits]
      · intro w hw
        cases hreplies with
        | give w bytes' hmsg' => cases hmsg.symm.trans hmsg'
        | enqueue bytes' hmsg' => cases hmsg.symm.trans hmsg'
        | dequeue bytes' hmsg' hwatcher hwatcher' => cases hwatcher'.symm.trans hw
        | watch hmsg' hwatcher hwatcher' =>
          obtain rfl : e.sender = w := Option.some.inj (hwatcher'.symm.trans hw)
          exact ⟨hsender, hnodup.1⟩
      · rw [hphase]
        exact h.relaySide.got
  · apply relayed_flow hbox hreplies hout.2
    rw [hphase]

theorem relay_spec (h : Linked u s) (ha : Admitted s .relay) :
  ∃ s', s.step u .relay = some s' ∧ Kept u s s'
  := by
  cases hbox : s.relayBox with
  | nil =>
    rw [Sys.step, Sys.relayRound, hbox]
    exact ⟨s, rfl, h.kept⟩
  | cons e box =>
    have hmem : e ∈ s.relayBox := by
      rw [hbox]
      exact List.mem_cons_self
    rcases h.relaySide.message e hmem with ⟨hsender, bytes, hmsg, hlen⟩ | ⟨hsender, hmsg⟩
    · exact relay_value h hbox ha hsender hmsg hlen
    · exact relay_ask h hbox hsender hmsg

/-! ### A round of the server -/

/-- The state after a round of the server. -/
def Sys.served (u : Setup) (s : Sys) (server : State) (e : Event) (box : List Event) : Sys :=
  { s with
    server := server
    serverBox := box
    monitor := match told u.monitor server.out with
      | bytes :: _ => .got bytes
      | [] => s.monitor
    started := s.started || e.sender = u.monitor
    written := s.written ++ if s.started then u.values e else [] }

variable {server : State} {e : Event} {box : List Event}

theorem served_nil (s : Sys) (e : Event) (box : List Event)
    (htold : told u.monitor server.out = []) :
  (s.served u server e box).monitor = s.monitor
  := by
  rw [Sys.served]
  dsimp only
  rw [htold]

theorem served_cons (s : Sys) (e : Event) (box : List Event) {bytes : List UInt8}
    (htold : told u.monitor server.out = [bytes]) :
  (s.served u server e box).monitor = .got bytes
  := by
  rw [Sys.served]
  dsimp only
  rw [htold]

/-- The monitor is told nothing, or it is told what is written to its characteristic. -/
theorem told_cases (h : ServerSide u s) (hround : Round u.monitor s.server e server) :
  (told u.monitor server.out = [] ∧
    ∀ bytes, e.write = some (u.charac.valueHandle, bytes) →
      u.monitor ∉ s.server.monitors u.charac.valueHandle) ∨
  (∃ bytes, told u.monitor server.out = [bytes] ∧
    e.write = some (u.charac.valueHandle, bytes) ∧
    u.monitor ∈ s.server.monitors u.charac.valueHandle)
  := by
  rw [hround.told]
  cases hwrite : e.write with
  | none => exact Or.inl ⟨rfl, nofun⟩
  | some w =>
    obtain ⟨handle, bytes⟩ := w
    by_cases hmem : u.monitor ∈ s.server.monitors handle
    · obtain rfl := h.only handle hmem
      exact Or.inr ⟨bytes, if_pos hmem, rfl, hmem⟩
    · refine Or.inl ⟨if_neg hmem, ?_⟩
      intro bytes' heq
      obtain ⟨rfl, -⟩ := Prod.mk.inj (Option.some.inj heq)
      exact hmem

theorem values_eq {bytes : List UInt8} (hwrite : e.write = some (u.charac.valueHandle, bytes)) :
  u.values e = [bytes]
  := by
  rw [Setup.values, hwrite]
  exact if_pos rfl

theorem values_nil (hnot : ∀ bytes, e.write ≠ some (u.charac.valueHandle, bytes)) :
  u.values e = []
  := by
  rw [Setup.values]
  cases hwrite : e.write with
  | none => rfl
  | some w =>
    apply if_neg
    intro heq
    apply hnot w.2
    rw [hwrite, ← heq]

/-- The side of the server after a round. -/
theorem ServerSide.served (h : ServerSide u s) (hbox : s.serverBox = e :: box) (hinv : Inv server)
    (hround : Round u.monitor s.server e server) :
  ServerSide u (s.served u server e box)
  := by
  have hnodup := h.nodup
  rw [hbox, List.map_cons, List.nodup_cons] at hnodup
  have hsub : ∀ t ∈ box.map Event.sender, t ∈ s.serverBox.map Event.sender := by
    intro t ht
    rw [hbox, List.map_cons]
    exact List.mem_cons_of_mem _ ht
  have hname : s.server.gatt.characByName u.name = some u.charac := by
    rw [Gatt.characByName, h.inv.table.layout.characMap]
    exact u.known
  have hrequest : e.sender = u.monitor → e.msg = .gattServerMonitorReq u.name := by
    apply h.request
    rw [hbox]
    exact List.mem_cons_self
  constructor
  · exact hinv
  · exact hnodup.2
  · intro t ht hmem
    rcases (hround.callers t hmem).1 with hold | rfl
    · exact h.idle t (hsub t ht) hold
    · exact hnodup.1 ht
  · intro e' he'
    apply h.request
    rw [hbox]
    exact List.mem_cons_of_mem e he'
  · intro k hk
    rcases (hround.monitors k).mp hk with ⟨hmem, -⟩ | ⟨hsender, name, c, hmsg, hc, rfl⟩
    · exact h.only k hmem
    · have hmsg' := hrequest hsender.symm
      obtain rfl : name = u.name := Msg.gattServerMonitorReq.inj (hmsg.symm.trans hmsg')
      obtain rfl : c = u.charac := Option.some.inj (hc.symm.trans hname)
      rfl
  · rcases told_cases h hround with ⟨htold, hnot⟩ | ⟨bytes, htold, hwrite, hmem⟩
    · rw [served_nil s e box htold, h.phase, hbox, List.map_cons, List.mem_cons]
      rw [Sys.served]
      dsimp only
      rw [hround.monitors]
      constructor
      · rintro ((hsender | hin) | hmem)
        · exact Or.inr (Or.inr ⟨hsender, u.name, u.charac, hrequest hsender.symm, hname, rfl⟩)
        · exact Or.inl hin
        · exact Or.inr (Or.inl ⟨hmem, fun bytes hwrite => hnot bytes hwrite hmem⟩)
      · rintro (hin | ⟨hmem, -⟩ | ⟨hsender, -⟩)
        · exact Or.inl (Or.inr hin)
        · exact Or.inr hmem
        · exact Or.inl (Or.inl hsender)
    · rw [served_cons s e box htold]
      refine iff_of_false (by rintro ⟨⟩) ?_
      rintro (hin | hmem')
      · exact h.idle _ (hsub _ hin) (h.inv.core.monitors_sub hmem)
      · rcases (hround.monitors _).mp hmem' with ⟨-, hnot⟩ | ⟨-, name, c, hmsg, -⟩
        · exact hnot bytes hwrite
        · rw [Event.write_request hmsg] at hwrite
          cases hwrite
  · intro hmem
    obtain ⟨hold, hnot⟩ := hround.callers _ hmem
    rcases told_cases h hround with ⟨htold, -⟩ | ⟨bytes, htold, hwrite, hmem'⟩
    · rw [served_nil s e box htold]
      rcases hold with hold | hsender
      · exact h.waits hold
      · rw [h.phase, hbox, List.map_cons, hsender]
        exact Or.inl List.mem_cons_self
    · exact absurd hmem' (hnot _ bytes hwrite)
  · intro hmem
    rcases (hround.monitors _).mp hmem with ⟨hmem, -⟩ | ⟨hsender, -⟩
    · rw [Sys.served]
      dsimp only
      rw [h.started hmem]
      rfl
    · rw [Sys.served]
      dsimp only
      rw [decide_eq_true hsender.symm, Bool.or_true]

/-- A value that is written fits into the queue of the relay. -/
theorem Fits.write_le {s : State} (h : Fits s e) {handle : ℕ} {bytes : List UInt8}
    (hwrite : e.write = some (handle, bytes)) :
  bytes.length ≤ Relay.vecCapacity
  := by
  rw [Event.write] at hwrite
  cases hmsg : e.msg with
  | l2capPacket data =>
    rw [hmsg] at hwrite
    dsimp only at hwrite
    split_ifs at hwrite with hop
    obtain ⟨-, rfl⟩ := Prod.mk.inj (Option.some.inj hwrite)
    obtain ⟨-, ⟨-, -, hlen⟩, -⟩ := h.request data 0x12 hmsg hop (by decide)
    rw [List.length_drop, Relay.vecCapacity]
    rw [valCapacity] at hlen
    omega
  | _ => rw [hmsg] at hwrite; cases hwrite

/-- The values that are told and written in a round are the same when the monitor is
registered for a write, and otherwise a value is lost. -/
theorem serve_spec (h : Linked u s) (ha : Admitted s .serve) :
  ∃ s', s.step u .serve = some s' ∧ Linked u s' ∧
    ∃ xs ys, s'.flow = s.flow ++ xs ∧ s'.written = s.written ++ ys ∧
      (Registered u s .serve → xs = ys) ∧ (¬ Registered u s .serve → xs.length < ys.length)
  := by
  rw [Sys.step, Sys.serve]
  cases hbox : s.serverBox with
  | nil =>
    refine ⟨s, rfl, h, [], [], ?_, ?_, fun _ => rfl, ?_⟩
    · rw [List.append_nil]
    · rw [List.append_nil]
    · intro hnot
      apply absurd _ hnot
      rintro e he
      rw [hbox] at he
      cases he
  | cons e box =>
    have hhead : e ∈ s.serverBox.head? := by
      rw [hbox]
      rfl
    have hidle : e.sender ∉ s.server.callers := by
      apply h.serverSide.idle
      rw [hbox]
      exact List.mem_cons_self
    have hfits := ha e hhead hidle
    obtain ⟨server, hstep, hinv⟩ := step_inv u.build h.serverSide.inv hfits
    have hround := step_round h.serverSide.inv hidle hstep u.monitor
    have hregistered : Registered u s .serve ↔ (s.started = true → u.values e ≠ [] →
        u.monitor ∈ s.server.monitors u.charac.valueHandle) := by
      constructor
      · intro hall
        exact hall e hhead
      · intro hone e' he'
        obtain rfl : e = e' := Option.some.inj (Option.mem_unique hhead he' ▸ rfl)
        exact hone
    dsimp only
    rw [hstep, Option.bind_eq_bind, Option.bind_some]
    refine ⟨s.served u server e box, rfl, ?_, told u.monitor server.out,
      if s.started then u.values e else [], ?_, rfl, ?_⟩
    · refine ⟨h.serverSide.served hbox hinv hround, ?_⟩
      rcases told_cases h.serverSide hround with ⟨htold, -⟩ | ⟨bytes, htold, hwrite, hmem⟩
      · have hphase := served_nil s e box htold
        refine h.relaySide.of_same rfl rfl rfl ?_ ?_
        · rw [hphase]
        · rw [hphase]
          exact h.relaySide.got
      · have hphase := served_cons s e box htold
        refine h.relaySide.of_same rfl rfl rfl ?_ ?_
        · rw [hphase, h.serverSide.phase.mpr (Or.inr hmem)]
          exact iff_of_false nofun nofun
        · intro bytes' hgot
          obtain rfl := Phase.got.inj (hphase.symm.trans hgot)
          exact hfits.write_le hwrite
    · rw [Sys.flow, Sys.flow, Sys.inFlight, Sys.inFlight]
      rcases told_cases h.serverSide hround with ⟨htold, -⟩ | ⟨bytes, htold, hwrite, hmem⟩
      · rw [served_nil s e box htold, htold, List.append_nil]
        rfl
      · rw [served_cons s e box htold, htold, h.serverSide.phase.mpr (Or.inr hmem)]
        simp [Sys.served, Phase.values]
    · rw [hregistered]
      rcases told_cases h.serverSide hround with ⟨htold, hnot⟩ | ⟨bytes, htold, hwrite, hmem⟩
      · rw [htold]
        by_cases hwrite : ∃ bytes, e.write = some (u.charac.valueHandle, bytes)
        · obtain ⟨bytes, hwrite⟩ := hwrite
          have hmem := hnot bytes hwrite
          rw [values_eq hwrite]
          cases hstarted : s.started with
          | false => exact ⟨fun _ => rfl, fun hno => absurd (fun h => nomatch h) hno⟩
          | true =>
            constructor
            · intro hall
              exact absurd (hall rfl nofun) hmem
            · intro _
              exact Nat.zero_lt_one
        · push Not at hwrite
          rw [values_nil hwrite, ite_self]
          exact ⟨fun _ => rfl, fun hno => absurd (fun _ hne => absurd rfl hne) hno⟩
      · rw [htold, values_eq hwrite, if_pos (h.serverSide.started hmem)]
        exact ⟨fun _ => rfl, fun hno => absurd (fun _ _ => hmem) hno⟩

/-! ### Runs -/

/-- Every step that is admitted leads on, and the values on the way and those that were
written grow alike exactly when the monitor is registered for each write. -/
theorem step_spec (h : Linked u s) {a : Action} (ha : Admitted s a) :
  ∃ s', s.step u a = some s' ∧ Linked u s' ∧
    ∃ xs ys, s'.flow = s.flow ++ xs ∧ s'.written = s.written ++ ys ∧
      (Registered u s a → xs = ys) ∧ (¬ Registered u s a → xs.length < ys.length)
  := by
  have hkept : ∀ {a}, Registered u s a → (∃ s', s.step u a = some s' ∧ Kept u s s') →
      ∃ s', s.step u a = some s' ∧ Linked u s' ∧
        ∃ xs ys, s'.flow = s.flow ++ xs ∧ s'.written = s.written ++ ys ∧
          (Registered u s a → xs = ys) ∧ (¬ Registered u s a → xs.length < ys.length) := by
    rintro a hregistered ⟨s', hstep, hkept⟩
    refine ⟨s', hstep, hkept.linked, [], [], ?_, ?_, fun _ => rfl, ?_⟩
    · rw [hkept.flow, List.append_nil]
    · rw [hkept.written, List.append_nil]
    · intro hnot
      exact absurd hregistered hnot
  cases a with
  | send e => exact hkept trivial (send_spec h e)
  | serve => exact serve_spec h ha
  | register => exact hkept trivial (register_spec h)
  | forward => exact hkept trivial (forward_spec h)
  | relay => exact hkept trivial (relay_spec h ha)
  | ask => exact hkept trivial (ask_spec h)

/-- Nothing is left to do for the values on the way: the relay has no message, the monitor
has no value, and the commander waits. -/
structure Settled (s : Sys) : Prop where
  relay : s.relayBox = []
  monitor : ∀ bytes, s.monitor ≠ .got bytes
  commander : s.commanderWaits = true

/-- Then no value is on the way. -/
theorem Linked.settled (h : Linked u s) (hsettled : Settled s) :
  s.inFlight = []
  := by
  have hasked := h.relaySide.asked.mp hsettled.commander
  rw [hsettled.relay, List.map_nil, or_iff_right List.not_mem_nil] at hasked
  have hqueue : s.relay.queue = [] := by
    apply h.relaySide.inv.idle
    rw [hasked]
    rfl
  have hvalues : s.monitor.values = [] := by
    cases hphase : s.monitor with
    | got bytes => exact absurd hphase (hsettled.monitor bytes)
    | _ => rfl
  rw [Sys.inFlight, hqueue, hsettled.relay, hvalues]
  rfl

/-- The start. -/
def Starts (s₀ : Sys) : Prop :=
  ∃ sendBox respBox monitorBox relayBox relayBox' server relay, ∃ tidTimeout tidClock : ℤ,
    tidTimeout ≠ tidClock ∧ State.new sendBox respBox tidTimeout tidClock = some server ∧
    Relay.State.new relayBox relayBox' = some relay ∧ s₀ = Sys.new server monitorBox relay

theorem Starts.linked (u : Setup) {s₀ : Sys} (h : Starts s₀) :
  Linked u s₀ ∧ s₀.flow = [] ∧ s₀.written = []
  := by
  obtain ⟨sendBox, respBox, monitorBox, relayBox, relayBox', server, relay, tidTimeout, tidClock,
    htids, hserver, hrelay, rfl⟩ := h
  have hnew : Gatt.new globalBuilder = some globalGatt := (Option.some_get isSome_new).symm
  rw [State.new, hnew] at hserver
  obtain rfl := Option.some.inj hserver
  rw [Relay.State.new] at hrelay
  obtain ⟨box, -, hrelay⟩ := Option.bind_eq_some_iff.mp hrelay
  obtain rfl := Option.some.inj hrelay
  refine ⟨?_, rfl, rfl⟩
  constructor
  · constructor
    · exact ⟨table_start, List.nodup_nil, (by rintro _ ⟨⟩), Waiting.nil, htids⟩
    · exact List.nodup_nil
    · exact List.forall_mem_nil _
    · exact List.forall_mem_nil _
    · rintro _ ⟨⟩
    · refine iff_of_false (by rintro ⟨⟩) ?_
      rintro (h | h)
      · exact List.not_mem_nil h
      · exact List.not_mem_nil h
    · rintro ⟨⟩
    · rintro ⟨⟩
  · constructor
    · exact ⟨rfl, (by rintro ⟨⟩), List.forall_mem_nil _⟩
    · exact List.nodup_nil
    · exact List.forall_mem_nil _
    · exact iff_of_false (by rintro ⟨⟩) (by rintro ⟨⟩)
    · refine iff_of_false (by rintro ⟨⟩) ?_
      rintro (h | h)
      · exact List.not_mem_nil h
      · cases h
    · rintro _ ⟨⟩
    · rintro _ ⟨⟩

/-- In every run without a panic the values that the commander received and those on the way
to it are the values that were written, in order, exactly when the monitor was registered
for each write; and when nothing is left to do no value is on the way. -/
theorem notify_exact (u : Setup) {s₀ : Sys} (h₀ : Starts s₀) {as : List Action}
    (has : Run.Meets (Sys.step u) Admitted s₀ as) :
  ∃ s, Run.run (Sys.step u) s₀ as = some s ∧
    (s.received ++ s.inFlight = s.written ↔ Run.Meets (Sys.step u) (Registered u) s₀ as) ∧
    (Settled s → s.inFlight = [])
  := by
  obtain ⟨hlinked, hflow, hwritten⟩ := h₀.linked u
  obtain ⟨s, hrun, hlinked', xs, ys, hxs, hys, -, hiff⟩ := Run.run_ledgers
    (fun s a h ha => step_spec h ha) hlinked has
  refine ⟨s, hrun, ?_, hlinked'.settled⟩
  rw [hflow, List.nil_append] at hxs
  rw [hwritten, List.nil_append] at hys
  rw [← hiff, ← hxs, ← hys]
  rfl

/-- The monitor of the commands of the commander. -/
def cmdInput : Setup where
  build := releaseBuild
  monitor := 8
  commander := 9
  name := "Cmd Input"
  charac := { name := "Cmd Input", handle := 18, valueHandle := 19, clientConfigHandle := none }
  ne := by decide
  known := by decide +kernel

theorem isSome_relay :
  (Relay.State.new emptyBox emptyBox).isSome = true
  := by decide +kernel

/-- The start, when the timer tasks of the server are 5 and 6. -/
def sysStart : Sys :=
  Sys.new start emptyBox ((Relay.State.new emptyBox emptyBox).get isSome_relay)

theorem sysStart_starts :
  Starts sysStart
  := ⟨emptyBox, emptyBox, emptyBox, emptyBox, emptyBox, start, _, 5, 6, by decide, new_start,
    (Option.some_get isSome_relay).symm, rfl⟩

instance (u : Setup) (s : Sys) (a : Action) : Decidable (Registered u s a) :=
  match a with
  | .serve => inferInstanceAs (Decidable (∀ e ∈ s.serverBox.head?, s.started = true →
      u.values e ≠ [] → u.monitor ∈ s.server.monitors u.charac.valueHandle))
  | .send _ | .register | .forward | .relay | .ask => inferInstanceAs (Decidable True)

/-- `Admitted`, as a check. -/
def admitted (s : Sys) : Action → Bool
  | .serve => s.serverBox.head?.all fun e => s.server.callers.contains e.sender || fits s.server e
  | .relay => s.relay.queue.length < Relay.queueCapacity
  | _ => true

theorem admitted_of_check (s : Sys) (a : Action) (h : admitted s a = true) :
  Admitted s a
  := by
  cases a with
  | serve =>
    intro e he hsender
    rw [admitted, Option.mem_def.mp he, Option.all_some, Bool.or_eq_true] at h
    apply fits_of_check
    apply h.resolve_left
    rwa [List.contains_iff_mem]
  | relay =>
    intro e _ bytes _ _
    rw [admitted, decide_eq_true_eq] at h
    exact h
  | _ => trivial

/-- The monitor registers, a value is written, and goes through the monitor and the relay to
the commander; and so does a second one after the monitor has registered again. Then the
commander asks for a third. -/
def twoValues : List Action :=
  [.register, .serve, .send (packet [0x12, 19, 0, 1]), .serve, .forward, .ask, .relay, .relay,
    .register, .serve, .send (packet [0x12, 19, 0, 2]), .serve, .forward, .ask, .relay, .relay,
    .ask, .relay]

/-- Both values arrive. -/
theorem notify_exact_twoValues :
  ∃ s, Run.run (Sys.step cmdInput) sysStart twoValues = some s ∧ Settled s ∧
    s.written = [[1], [2]] ∧ s.received = s.written
  := by
  have hadmitted : Run.Meets (Sys.step cmdInput) Admitted sysStart twoValues := by
    apply Run.meets_of_allOk admitted_of_check
    decide +kernel
  have hregistered : Run.Meets (Sys.step cmdInput) (Registered cmdInput) sysStart twoValues := by
    apply Run.meets_of_allOk (fun s a => of_decide_eq_true)
    decide +kernel
  have hend : (Run.run (Sys.step cmdInput) sysStart twoValues).any (fun s =>
      s.relayBox.isEmpty && s.monitor.values.isEmpty && s.commanderWaits &&
        s.written = [[1], [2]]) = true := by
    decide +kernel
  obtain ⟨s, hrun, hiff, hidle⟩ := notify_exact cmdInput sysStart_starts hadmitted
  rw [hrun, Option.any_some] at hend
  simp only [Bool.and_eq_true, decide_eq_true_eq, List.isEmpty_iff] at hend
  obtain ⟨⟨⟨hbox, hphase⟩, hwaits⟩, hwritten⟩ := hend
  have hsettled : Settled s := by
    refine ⟨hbox, ?_, hwaits⟩
    intro bytes hgot
    rw [hgot] at hphase
    cases hphase
  refine ⟨s, hrun, hsettled, hwritten, ?_⟩
  rw [← hiff.mpr hregistered, hidle hsettled, List.append_nil]

/-- Two writes, the second before the monitor has registered again. -/
def twoWrites : List Action :=
  [.register, .serve, .send (packet [0x12, 19, 0, 1]), .serve, .send (packet [0x12, 19, 0, 2]),
    .serve, .forward, .ask, .relay, .relay, .register, .serve, .ask, .relay]

/-- The second value never reaches the commander, who waits for it. -/
theorem notify_lost :
  ∃ s, Run.run (Sys.step cmdInput) sysStart twoWrites = some s ∧ Settled s ∧
    s.received = [[1]] ∧ s.written = [[1], [2]]
  := by
  have hrun : (Run.run (Sys.step cmdInput) sysStart twoWrites).any (fun s =>
      s.relayBox.isEmpty && s.monitor = .registering && s.commanderWaits &&
        s.received = [[1]] && s.written = [[1], [2]]) = true := by
    decide +kernel
  rw [Option.any_eq_true] at hrun
  obtain ⟨s, hs, hall⟩ := hrun
  simp only [Bool.and_eq_true, decide_eq_true_eq, List.isEmpty_iff] at hall
  obtain ⟨⟨⟨⟨hbox, hphase⟩, hwaits⟩, hreceived⟩, hwritten⟩ := hall
  refine ⟨s, hs, ⟨hbox, ?_, hwaits⟩, hreceived, hwritten⟩
  intro bytes
  rw [hphase]
  nofun

end TrainsOs.Bluetooth
