import TrainsOs.User.Basic
import TrainsOs.Lib.Run
import Mathlib.Tactic.SplitIfs

/-!
# The relay

The task `gatt_monitor_relay.rs`. Its monitor brings it values, one at a time, and a
watcher asks for them; values that nobody asks for yet wait in a queue.
-/

namespace TrainsOs.Bluetooth.Relay

open MsgBox

/-- The messages, by the variants of `RecvEnum`. -/
inductive Msg where
  | gattMonitorReq
  | gattMonitorResp (bytes : List UInt8)
  | unknown

/-- The replies. -/
inductive Output where
  | gattMonitorReq (tid : ℤ)
  | gattMonitorResp (tid : ℤ) (bytes : List UInt8)
deriving DecidableEq

/-- The variables of `_start`; the tasks that wait for a reply; and the replies since the
last `ker_recv`. -/
structure State where
  sendBox : SendBox
  sendBoxMonitor : SendBox
  queue : List (List UInt8)
  watcher : Option ℤ
  callers : List ℤ
  out : List Output

structure Event where
  sender : ℤ
  msg : Msg

/-- The number of values in the queue. -/
def queueCapacity : ℕ := 64

/-- The length of a value in the queue. -/
def vecCapacity : ℕ := 512

def gattMonitorReq : MsgType := plainMsg "GattMonitorReq" 0
def gattMonitorResp : MsgType := arrayMsg "GattMonitorResp"

/-- The state at the start of the loop. -/
def State.new (sendBox sendBoxMonitor : SendBox) : Option State := do
  let sendBoxMonitor ← newMsg gattMonitorReq sendBoxMonitor []
  some
    { sendBox := sendBox, sendBoxMonitor := sendBoxMonitor, queue := [], watcher := none
      callers := [], out := [] }

/-- `ker_reply(tid, ..).unwrap()`. -/
def State.reply (s : State) (tid : ℤ) (output : Output) : Option State := do
  let callers ← kerReply s.callers tid
  some { s with callers := callers, out := s.out ++ [output] }

/-- A value for a watcher. -/
def State.respond (b : Build) (s : State) (tid : ℤ) (bytes : List UInt8) : Option State := do
  let box ← newArrayMsg b gattMonitorResp s.sendBox bytes
  State.reply { s with sendBox := box } tid (.gattMonitorResp tid bytes)

/-- A value from the monitor. -/
def State.handleResp (b : Build) (s : State) (sender : ℤ) (bytes : List UInt8) :
    Option State := do
  let s ← s.reply sender (.gattMonitorReq sender)
  match s.watcher with
  | some w => do
      let s ← s.respond b w bytes
      some { s with watcher := none }
  | none => do
      let v ← extend vecCapacity [] bytes
      let queue ← pushBack queueCapacity s.queue v
      some { s with queue := queue }

/-- A request of a watcher. -/
def State.handleReq (b : Build) (s : State) (sender : ℤ) : Option State :=
  if s.watcher.isSome then
    none
  else
    match s.queue with
    | v :: queue => State.respond b { s with queue := queue } sender v
    | [] => some { s with watcher := some sender }

/-- `ker_recv`. -/
def State.recv (s : State) (e : Event) : State :=
  { s with callers := s.callers ++ [e.sender], out := [] }

/-- One round of the loop. -/
def step (b : Build) (s : State) (e : Event) : Option State :=
  match e.msg with
  | .gattMonitorResp bytes => (s.recv e).handleResp b e.sender bytes
  | .gattMonitorReq => (s.recv e).handleReq b e.sender
  | .unknown => none

/-! ### The invariant -/

/-- Only the watcher waits, and then nothing is in the queue; what is in the queue fits
into a message. -/
structure Inv (s : State) : Prop where
  callers : s.callers = s.watcher.toList
  idle : s.watcher.isSome → s.queue = []
  fits : ∀ v ∈ s.queue, v.length ≤ vecCapacity

/-- The message is from a task that does not wait. A value is not too long, and there is a
place for it; and no other watcher waits. -/
structure Fits (s : State) (e : Event) : Prop where
  sender : e.sender ∉ s.callers
  known : e.msg ≠ .unknown
  value : ∀ bytes, e.msg = .gattMonitorResp bytes → bytes.length ≤ vecCapacity
  room : ∀ bytes, e.msg = .gattMonitorResp bytes → s.watcher = none →
    s.queue.length < queueCapacity
  one : e.msg = .gattMonitorReq → s.watcher = none

/-- The value that a message brings. -/
def Event.values (e : Event) : List (List UInt8) :=
  match e.msg with
  | .gattMonitorResp bytes => [bytes]
  | _ => []

/-- The values that are given to watchers. -/
def given (out : List Output) : List (ℤ × List UInt8) :=
  out.filterMap fun o => match o with
    | .gattMonitorResp tid bytes => some (tid, bytes)
    | _ => none

/-- The replies to a message. -/
inductive Replies (s : State) (e : Event) (s' : State) : Prop where
  /-- The monitor is acknowledged, and its value is given to the watcher. -/
  | give (w : ℤ) (bytes : List UInt8) (hmsg : e.msg = .gattMonitorResp bytes)
      (hwatcher : s.watcher = some w) (hwatcher' : s'.watcher = none)
      (hout : s'.out = [.gattMonitorReq e.sender, .gattMonitorResp w bytes])
      (hqueue : s.queue = [] ∧ s'.queue = [])
  /-- The monitor is acknowledged, and its value waits. -/
  | enqueue (bytes : List UInt8) (hmsg : e.msg = .gattMonitorResp bytes)
      (hwatcher : s.watcher = none) (hwatcher' : s'.watcher = none)
      (hout : s'.out = [.gattMonitorReq e.sender]) (hqueue : s'.queue = s.queue ++ [bytes])
  /-- The oldest value is given to the one who asks. -/
  | dequeue (bytes : List UInt8) (hmsg : e.msg = .gattMonitorReq) (hwatcher : s.watcher = none)
      (hwatcher' : s'.watcher = none) (hout : s'.out = [.gattMonitorResp e.sender bytes])
      (hqueue : s.queue = bytes :: s'.queue)
  /-- The one who asks becomes the watcher. -/
  | watch (hmsg : e.msg = .gattMonitorReq) (hwatcher : s.watcher = none)
      (hwatcher' : s'.watcher = some e.sender) (hout : s'.out = [])
      (hqueue : s.queue = [] ∧ s'.queue = [])

variable {b : Build} {s s' : State} {e : Event}

/-- What is given and what stays is what was there and what came. -/
theorem Replies.history (h : Replies s e s') :
  (given s'.out).map Prod.snd ++ s'.queue = s.queue ++ e.values
  := by
  cases h with
  | give w bytes hmsg hwatcher hwatcher' hout hqueue =>
    rw [hout, hqueue.1, hqueue.2, Event.values, hmsg]
    rfl
  | enqueue bytes hmsg hwatcher hwatcher' hout hqueue =>
    rw [hout, hqueue, Event.values, hmsg]
    rfl
  | dequeue bytes hmsg hwatcher hwatcher' hout hqueue =>
    rw [hout, hqueue, Event.values, hmsg, List.append_nil]
    rfl
  | watch hmsg hwatcher hwatcher' hout hqueue =>
    rw [hout, hqueue.1, hqueue.2, Event.values, hmsg]
    rfl

theorem respond_spec (b : Build) (s : State) {tid : ℤ} {bytes : List UInt8}
    (hlen : bytes.length ≤ vecCapacity) (hmem : tid ∈ s.callers) :
  ∃ box, s.respond b tid bytes = some
    { s with
      sendBox := box
      callers := s.callers.erase tid
      out := s.out ++ [.gattMonitorResp tid bytes] }
  := by
  have hbase : gattMonitorResp.base ≤ defaultBoxSize := by decide
  have hcap : vecCapacity ≤ arrayCapacity gattMonitorResp := by decide
  obtain ⟨box, hbox⟩ := newArrayMsg_eq b "GattMonitorResp" s.sendBox hbase (hlen.trans hcap)
  use box
  rw [State.respond, gattMonitorResp, hbox, Option.bind_eq_bind, Option.bind_some, State.reply,
    kerReply, if_pos hmem]
  rfl

theorem handleResp_spec (b : Build) {bytes : List UInt8} (hinv : Inv s) (hfits : Fits s e)
    (hmsg : e.msg = .gattMonitorResp bytes) :
  ∃ s', step b s e = some s' ∧ Inv s' ∧ Replies s e s'
  := by
  have hmem : e.sender ∈ (s.recv e).callers := List.mem_append_right _ List.mem_cons_self
  have herase : (s.callers ++ [e.sender]).erase e.sender = s.callers := by
    rw [List.erase_append_right _ hfits.sender, List.erase_cons_head, List.append_nil]
  have hreply : (s.recv e).reply e.sender (.gattMonitorReq e.sender)
      = some { s with out := [.gattMonitorReq e.sender] } := by
    rw [State.reply, kerReply, if_pos hmem, State.recv]
    simp only [herase, Option.bind_eq_bind, Option.bind_some]
    rfl
  have hlen := hfits.value bytes hmsg
  rw [step, hmsg]
  dsimp only
  rw [State.handleResp, hreply, Option.bind_eq_bind, Option.bind_some]
  cases hwatcher : s.watcher with
  | none =>
    have hext : extend vecCapacity [] bytes = some bytes := by
      rw [extend, List.length_nil, Nat.zero_add, if_pos hlen, List.nil_append]
    have hpush : pushBack queueCapacity s.queue bytes = some (s.queue ++ [bytes]) :=
      if_pos (hfits.room bytes hmsg hwatcher)
    simp only [hext, hpush, Option.bind_eq_bind, Option.bind_some]
    refine ⟨_, rfl, ?_, .enqueue bytes hmsg hwatcher rfl rfl rfl⟩
    constructor
    · rw [hinv.callers, hwatcher]
    · rintro ⟨⟩
    · intro v hv
      rcases List.mem_append.mp hv with hv | hv
      · exact hinv.fits v hv
      · rwa [List.mem_singleton.mp hv]
  | some w =>
    have hcallers : s.callers = [w] := by
      rw [hinv.callers, hwatcher]
      rfl
    have hw : w ∈ s.callers := by
      rw [hcallers]
      exact List.mem_cons_self
    obtain ⟨box, hrespond⟩ := respond_spec b { s with out := [.gattMonitorReq e.sender] } hlen hw
    have hempty : s.queue = [] := hinv.idle (by rw [hwatcher]; rfl)
    dsimp only
    rw [hwatcher] at hrespond
    rw [hrespond, Option.bind_some]
    refine ⟨_, rfl, ?_, .give w bytes hmsg hwatcher rfl rfl ⟨hempty, hempty⟩⟩
    constructor
    · simp [hcallers]
    · rintro ⟨⟩
    · exact hinv.fits

theorem handleReq_spec (b : Build) (hinv : Inv s) (hfits : Fits s e)
    (hmsg : e.msg = .gattMonitorReq) :
  ∃ s', step b s e = some s' ∧ Inv s' ∧ Replies s e s'
  := by
  have hwatcher := hfits.one hmsg
  have hcallers : s.callers = [] := by
    rw [hinv.callers, hwatcher]
    rfl
  have hwatcher' : (s.recv e).watcher = none := hwatcher
  rw [step, hmsg]
  dsimp only
  rw [State.handleReq, hwatcher', if_neg (by simp)]
  cases hqueue : s.queue with
  | nil =>
    have hqueue' : (s.recv e).queue = [] := hqueue
    rw [hqueue']
    refine ⟨_, rfl, ?_, .watch hmsg hwatcher rfl rfl ⟨hqueue, rfl⟩⟩
    constructor
    · simp [State.recv, hcallers]
    · exact fun _ => rfl
    · nofun
  | cons v queue =>
    have hqueue' : (s.recv e).queue = v :: queue := hqueue
    have hv := hinv.fits v (by rw [hqueue]; exact List.mem_cons_self)
    have hmem : e.sender ∈ s.callers ++ [e.sender] := List.mem_append_right _ List.mem_cons_self
    obtain ⟨box, hrespond⟩ := respond_spec b { s.recv e with queue := queue } hv hmem
    rw [hqueue']
    dsimp only at hrespond ⊢
    rw [hwatcher'] at hrespond
    rw [hrespond]
    refine ⟨_, rfl, ?_, .dequeue v hmsg hwatcher rfl rfl hqueue⟩
    constructor
    · simp [State.recv, hcallers]
    · nofun
    · intro u hu
      apply hinv.fits
      rw [hqueue]
      exact List.mem_cons_of_mem v hu

/-- A message that fits is handled. -/
theorem step_spec (b : Build) (hinv : Inv s) (hfits : Fits s e) :
  ∃ s', step b s e = some s' ∧ Inv s' ∧ Replies s e s'
  := by
  cases hmsg : e.msg with
  | gattMonitorReq => exact handleReq_spec b hinv hfits hmsg
  | gattMonitorResp bytes => exact handleResp_spec b hinv hfits hmsg
  | unknown => exact absurd hmsg hfits.known

/-! ### Runs -/

/-- The relay, and all its replies so far. -/
structure Relayed where
  state : State
  log : List Output

/-- One round of the loop. -/
def Relayed.step (b : Build) (r : Relayed) (e : Event) : Option Relayed :=
  (Relay.step b r.state e).map fun s => { state := s, log := r.log ++ s.out }

/-- The message is one that the relay can take now. -/
def Relayed.Fits (r : Relayed) (e : Event) : Prop :=
  Relay.Fits r.state e

/-- The monitors that were acknowledged. -/
def acks (out : List Output) : List ℤ :=
  out.filterMap fun o => match o with
    | .gattMonitorReq tid => some tid
    | .gattMonitorResp _ _ => none

/-- The task that sends a value. -/
def Event.monitor (e : Event) : List ℤ :=
  match e.msg with
  | .gattMonitorResp _ => [e.sender]
  | _ => []

/-- The task that asks for a value. -/
def Event.watcher (e : Event) : List ℤ :=
  match e.msg with
  | .gattMonitorReq => [e.sender]
  | _ => []

theorem given_append (out out' : List Output) :
  given (out ++ out') = given out ++ given out'
  := List.filterMap_append

theorem acks_append (out out' : List Output) :
  acks (out ++ out') = acks out ++ acks out'
  := List.filterMap_append

/-- The monitor is acknowledged at once. -/
theorem Replies.acks (h : Replies s e s') :
  Relay.acks s'.out = e.monitor
  := by
  cases h with
  | give w bytes hmsg hwatcher hwatcher' hout hqueue =>
    rw [hout, Event.monitor, hmsg]
    rfl
  | enqueue bytes hmsg hwatcher hwatcher' hout hqueue =>
    rw [hout, Event.monitor, hmsg]
    rfl
  | dequeue bytes hmsg hwatcher hwatcher' hout hqueue =>
    rw [hout, Event.monitor, hmsg]
    rfl
  | watch hmsg hwatcher hwatcher' hout hqueue =>
    rw [hout, Event.monitor, hmsg]
    rfl

/-- Who asks is given a value, or becomes the watcher. -/
theorem Replies.watchers (h : Replies s e s') :
  (given s'.out).map Prod.fst ++ s'.watcher.toList = s.watcher.toList ++ e.watcher
  := by
  cases h with
  | give w bytes hmsg hwatcher hwatcher' hout hqueue =>
    rw [hout, hwatcher, hwatcher', Event.watcher, hmsg]
    rfl
  | enqueue bytes hmsg hwatcher hwatcher' hout hqueue =>
    rw [hout, hwatcher, hwatcher', Event.watcher, hmsg]
    rfl
  | dequeue bytes hmsg hwatcher hwatcher' hout hqueue =>
    rw [hout, hwatcher, hwatcher', Event.watcher, hmsg]
    rfl
  | watch hmsg hwatcher hwatcher' hout hqueue =>
    rw [hout, hwatcher, hwatcher', Event.watcher, hmsg]
    rfl

/-- The state after the messages `es`, with all replies to them. -/
structure Fifo (es : List Event) (r : Relayed) : Prop where
  inv : Inv r.state
  values : (given r.log).map Prod.snd ++ r.state.queue = es.flatMap Event.values
  watchers : (given r.log).map Prod.fst ++ r.state.watcher.toList = es.flatMap Event.watcher
  acks : Relay.acks r.log = es.flatMap Event.monitor

theorem Fifo.step {es : List Event} {r : Relayed} (h : Fifo es r) (b : Build)
    (hfits : r.Fits e) :
  ∃ r', r.step b e = some r' ∧ Fifo (es ++ [e]) r'
  := by
  obtain ⟨s', hstep, hinv, hreplies⟩ := step_spec b h.inv hfits
  use { state := s', log := r.log ++ s'.out }
  constructor
  · rw [Relayed.step, hstep, Option.map_some]
  · constructor
    · exact hinv
    · rw [given_append, List.map_append, List.append_assoc, hreplies.history, ← List.append_assoc,
        h.values, List.flatMap_append, List.flatMap_singleton]
    · rw [given_append, List.map_append, List.append_assoc, hreplies.watchers,
        ← List.append_assoc, h.watchers, List.flatMap_append, List.flatMap_singleton]
    · rw [acks_append, h.acks, hreplies.acks, List.flatMap_append, List.flatMap_singleton]

theorem State.new_spec (sendBox sendBoxMonitor : SendBox) :
  ∃ s, State.new sendBox sendBoxMonitor = some s ∧ Fifo [] { state := s, log := [] }
  := by
  have hbase : gattMonitorReq.base ≤ defaultBoxSize := by decide
  obtain ⟨box, hbox⟩ := newMsg_eq hbase sendBoxMonitor []
  refine ⟨_, by rw [State.new, hbox]; rfl, ?_, rfl, rfl, rfl⟩
  constructor
  · rfl
  · nofun
  · nofun

/-- Values of at most 512 bytes and requests of watchers arrive in any order, so that at most
64 values wait, and one watcher. Then the relay never panics. The values that are given to
the watchers, in the order of their requests, and those in the queue are the values that
came; when a watcher waits, there are none in the queue; and each message of the monitor is
acknowledged once. -/
theorem relay_fifo (b : Build) (sendBox sendBoxMonitor : SendBox) :
  ∃ s₀, State.new sendBox sendBoxMonitor = some s₀
    ∧ ∀ es, Run.Meets (Relayed.step b) Relayed.Fits { state := s₀, log := [] } es →
      ∃ r, Run.run (Relayed.step b) { state := s₀, log := [] } es = some r
        ∧ (given r.log).map Prod.snd ++ r.state.queue = es.flatMap Event.values
        ∧ (given r.log).map Prod.fst ++ r.state.watcher.toList = es.flatMap Event.watcher
        ∧ (r.state.watcher.isSome → r.state.queue = [])
        ∧ acks r.log = es.flatMap Event.monitor
  := by
  obtain ⟨s₀, hnew, hstart⟩ := State.new_spec sendBox sendBoxMonitor
  use s₀, hnew
  intro es hes
  obtain ⟨r, hrun, hfifo⟩ := Run.run_history (P := Fifo) (fun _ _ _ h hfits => h.step b hfits)
    hstart hes
  exact ⟨r, hrun, hfifo.values, hfifo.watchers, hfifo.inv.idle, hfifo.acks⟩

/-- A box that is not used yet. -/
def unusedBox : SendBox where
  len := 0
  sendBuf := fun _ => 0

def relayBuild : Build where
  arith := .checked
  slice := fun _ => []
  arrayDefault := []

/-- The monitor, which is task 3, brings a value, and then task 4 asks for it. -/
def valueAndRequest : List Event :=
  [{ sender := 3, msg := .gattMonitorResp [1] }, { sender := 4, msg := .gattMonitorReq }]

theorem relay_fifo_valueAndRequest :
  ∃ s₀ r, State.new unusedBox unusedBox = some s₀
    ∧ Run.run (Relayed.step relayBuild) { state := s₀, log := [] } valueAndRequest = some r
    ∧ (given r.log).map Prod.snd ++ r.state.queue = [[1]]
    ∧ (given r.log).map Prod.fst ++ r.state.watcher.toList = [4]
    ∧ acks r.log = [3]
  := by
  obtain ⟨s₀, hnew, hfifo⟩ := relay_fifo relayBuild unusedBox unusedBox
  have hnew' := hnew
  rw [State.new] at hnew'
  obtain ⟨box, -, hs₀⟩ := Option.bind_eq_some_iff.mp hnew'
  obtain rfl := Option.some.inj hs₀
  have hinv : Inv (State.mk unusedBox box [] none [] []) := ⟨rfl, nofun, nofun⟩
  have hvalue : Fits (State.mk unusedBox box [] none [] [])
      { sender := 3, msg := .gattMonitorResp [1] } := by
    constructor
    · nofun
    · nofun
    · rintro bytes ⟨⟩
      decide
    · intro bytes _ _
      apply Nat.succ_pos
    · nofun
  have hmeets : Run.Meets (Relayed.step relayBuild) Relayed.Fits
      { state := State.mk unusedBox box [] none [] [], log := [] } valueAndRequest := by
    obtain ⟨s', hstep, hinv', hreplies⟩ := step_spec relayBuild hinv hvalue
    have hwatcher : s'.watcher = none := by
      cases hreplies with
      | give w bytes hmsg hwatcher => cases hwatcher
      | enqueue bytes hmsg hwatcher hwatcher' => exact hwatcher'
      | dequeue bytes hmsg => cases hmsg
      | watch hmsg => cases hmsg
    have hcallers : s'.callers = [] := by
      rw [hinv'.callers, hwatcher]
      rfl
    refine ⟨hvalue, ?_⟩
    intro r hr
    rw [Relayed.step, hstep] at hr
    obtain rfl := Option.some.inj hr
    refine ⟨⟨?_, nofun, nofun, nofun, fun _ => hwatcher⟩, fun _ _ => trivial⟩
    rw [hcallers]
    apply List.not_mem_nil
  obtain ⟨r, hrun, hvalues, hwatchers, -, hacks⟩ := hfifo valueAndRequest hmeets
  exact ⟨_, r, hnew, hrun, hvalues, hwatchers, hacks⟩

end TrainsOs.Bluetooth.Relay
