import TrainsOs.Uart.Transmit

/-!
# The streams of bytes

Both directions are queues of bytes: what goes in is what has come out, followed by what
is still held. The bytes read from the hardware go into `rx_buf` and come out in the
replies to the requests, which are a queue themselves; the bytes of the requests to
transmit go into `tx_buf` and come out at the hardware. Whatever a message makes the
server do, it moves bytes from the front of one to the end of the other.
-/

namespace TrainsOs.Uart

open MsgBox Bytes

/-! ### What is observed -/

/-- The bytes read from the hardware. -/
def reads (log : List Output) : List UInt8 :=
  log.filterMap fun
    | .getc ch => some ch
    | _ => none

/-- The bytes written to the hardware. -/
def writes (log : List Output) : List UInt8 :=
  log.filterMap fun
    | .putc ch => some ch
    | _ => none

/-- The replies to the requests to receive: to whom, and which bytes. -/
def replies (log : List Output) : List (ℤ × List UInt8) :=
  log.filterMap fun
    | .received tid bytes => some (tid, bytes)
    | _ => none

/-- A request to receive: from whom, and how many bytes. -/
def Event.rxReq (e : Event) : Option (ℤ × ℕ) :=
  match e.msg with
  | .rpiUartRxReq len => some (e.sender, len)
  | _ => none

@[simp]
theorem reads_append (log outs : List Output) :
  reads (log ++ outs) = reads log ++ reads outs
  := List.filterMap_append

@[simp]
theorem writes_append (log outs : List Output) :
  writes (log ++ outs) = writes log ++ writes outs
  := List.filterMap_append

@[simp]
theorem replies_append (log outs : List Output) :
  replies (log ++ outs) = replies log ++ replies outs
  := List.filterMap_append

theorem reads_getc (input : List UInt8) :
  reads (input.map .getc) = input
  := by
  induction input with
  | nil => rfl
  | cons ch input ih => exact congrArg (ch :: ·) ih

theorem writes_getc (input : List UInt8) :
  writes (input.map .getc) = []
  := by
  induction input with
  | nil => rfl
  | cons ch input ih => exact ih

theorem replies_getc (input : List UInt8) :
  replies (input.map .getc) = []
  := by
  induction input with
  | nil => rfl
  | cons ch input ih => exact ih

/-! ### Conservation -/

/-- Nothing is lost on the way of the requests `reqs` and the bytes `bytes`. -/
structure Conserved (reqs : List (ℤ × ℕ)) (bytes : List UInt8) (s : State) : Prop where
  rx : reads s.log = (replies s.log).flatMap Prod.snd ++ s.rxBuf
  order : reqs = ((replies s.log).map fun r => (r.1, r.2.length))
    ++ s.rxQueue.map fun r => (r.tid, r.len)
  tx : bytes = writes s.log ++ s.txBuf

section Operations

variable {b : Build} {reqs : List (ℤ × ℕ)} {bytes : List UInt8} {s s' : State}

/-- An output that is no byte and no reply to a request to receive. -/
structure Output.Silent (output : Output) : Prop where
  reads : reads [output] = []
  writes : writes [output] = []
  replies : replies [output] = []

/-- What is conserved does not depend on the other outputs. -/
theorem Conserved.silent {output : Output} (h : Conserved reqs bytes s) (ho : output.Silent)
    (hlog : s'.log = s.log ++ [output]) (hrxBuf : s'.rxBuf = s.rxBuf)
    (hrxQueue : s'.rxQueue = s.rxQueue) (htxBuf : s'.txBuf = s.txBuf) :
  Conserved reqs bytes s'
  := by
  constructor
  · rw [hlog, hrxBuf, reads_append, replies_append, ho.reads, ho.replies, List.append_nil,
      List.append_nil]
    exact h.rx
  · rw [hlog, hrxQueue, replies_append, ho.replies, List.append_nil]
    exact h.order
  · rw [hlog, htxBuf, writes_append, ho.writes, List.append_nil]
    exact h.tx

theorem silent_acked (tid : ℤ) : (Output.acked tid).Silent := ⟨rfl, rfl, rfl⟩
theorem silent_sent (tid : ℤ) : (Output.sent tid).Silent := ⟨rfl, rfl, rfl⟩
theorem silent_rearmed (tid : ℤ) : (Output.rearmed tid).Silent := ⟨rfl, rfl, rfl⟩
theorem silent_armRx : Output.armRx.Silent := ⟨rfl, rfl, rfl⟩
theorem silent_armTx : Output.armTx.Silent := ⟨rfl, rfl, rfl⟩

theorem reply_eq {tid : ℤ} {output : Output} (h : s.reply tid output = some s') :
  ∃ callers, s' = { s with callers := callers, log := s.log ++ [output] }
  := by
  rw [State.reply] at h
  obtain ⟨callers, -, h⟩ := Option.bind_eq_some_iff.mp h
  exact ⟨callers, (Option.some.inj h).symm⟩

theorem replyTx_eq {tid : ℤ} {output : Output} (h : s.replyTx tid output = some s') :
  ∃ box callers,
    s' = { s with replyBox := box, callers := callers, log := s.log ++ [output] }
  := by
  rw [State.replyTx] at h
  obtain ⟨box, -, h⟩ := Option.bind_eq_some_iff.mp h
  obtain ⟨callers, rfl⟩ := reply_eq h
  exact ⟨box, callers, rfl⟩

/-- Releasing a waiter. -/
theorem release_conserves (h : Conserved reqs bytes s) (hs' : s.release = some s') :
  Conserved reqs bytes s' ∧ s'.txBuf = s.txBuf
  := by
  rw [State.release] at hs'
  split at hs'
  · split_ifs at hs' with hend
    · obtain ⟨box, callers, rfl⟩ := replyTx_eq hs'
      exact ⟨h.silent (silent_sent _) rfl rfl rfl rfl, rfl⟩
    · obtain rfl := Option.some.inj hs'
      exact ⟨h, rfl⟩
  · obtain rfl := Option.some.inj hs'
    exact ⟨h, rfl⟩

/-- The loop of `write` moves bytes from the front of `tx_buf` to the hardware. -/
theorem writeLoop_conserves {buf : List UInt8} (h : Conserved reqs bytes s)
    (hbuf : s.txBuf = buf) (hs' : writeLoop b buf s = some s') :
  Conserved reqs bytes s'
  := by
  induction buf generalizing s with
  | nil =>
    rw [writeLoop] at hs'
    obtain rfl := Option.some.inj hs'
    exact h
  | cons ch buf ih =>
    rw [writeLoop] at hs'
    cases hroom : s.room with
    | zero =>
      rw [hroom] at hs'
      obtain rfl := Option.some.inj hs'
      exact h.silent silent_armTx rfl rfl rfl rfl
    | succ room =>
      rw [hroom] at hs'
      obtain ⟨txIdx, -, hs'⟩ := Option.bind_eq_some_iff.mp hs'
      obtain ⟨s₁, hrelease, hs'⟩ := Option.bind_eq_some_iff.mp hs'
      have hput : Conserved reqs bytes
          { s with room := room, log := s.log ++ [.putc ch], txBuf := buf, txIdx := txIdx } := by
        constructor
        · rw [reads_append, replies_append]
          simpa [reads, replies] using h.rx
        · rw [replies_append]
          simpa [replies] using h.order
        · rw [h.tx, hbuf, writes_append]
          simp [writes]
      obtain ⟨h₁, hbuf₁⟩ := release_conserves hput hrelease
      exact ih h₁ hbuf₁ hs'

theorem pushAll_eq_some {α : Type} {capacity : ℕ} {q q' xs : List α}
    (h : pushAll capacity q xs = some q') :
  q' = q ++ xs
  := by
  induction xs generalizing q with
  | nil =>
    rw [List.append_nil]
    exact (Option.some.inj h).symm
  | cons x xs ih =>
    rw [pushAll, List.foldlM_cons] at h
    obtain ⟨q₁, hpush, h⟩ := Option.bind_eq_some_iff.mp h
    rw [ih h, pushBack_eq_some hpush, List.append_assoc]
    rfl

/-- A reply takes its bytes from the front of `rx_buf`. -/
theorem replyRx_conserves {req : RxReq} {queue : List RxReq} (h : Conserved reqs bytes s)
    (hqueue : s.rxQueue = req :: queue) (hlen : req.len ≤ s.rxBuf.length)
    (hs' : State.replyRx b { s with rxQueue := queue } req = some s') :
  Conserved reqs bytes s' ∧ s'.rxQueue = queue
  := by
  rw [State.replyRx] at hs'
  obtain ⟨box, -, hs'⟩ := Option.bind_eq_some_iff.mp hs'
  obtain ⟨callers, rfl⟩ := reply_eq hs'
  refine ⟨?_, rfl⟩
  constructor
  · rw [reads_append, replies_append, List.flatMap_append, List.append_assoc]
    simpa [reads, replies] using h.rx
  · rw [h.order, hqueue, replies_append]
    simp [replies, hlen]
  · rw [writes_append]
    simpa [writes] using h.tx

/-- The second loop of `read` serves requests from the front of `rx_queue`. -/
theorem serveLoop_conserves {queue : List RxReq} (h : Conserved reqs bytes s)
    (hqueue : s.rxQueue = queue) (hs' : serveLoop b queue s = some s') :
  Conserved reqs bytes s'
  := by
  induction queue generalizing s with
  | nil =>
    rw [serveLoop] at hs'
    obtain rfl := Option.some.inj hs'
    exact h
  | cons req queue ih =>
    rw [serveLoop] at hs'
    split_ifs at hs' with hempty hlen
    · obtain rfl := Option.some.inj hs'
      exact h
    · obtain rfl := Option.some.inj hs'
      exact h
    · obtain ⟨s₁, hreply, hs'⟩ := Option.bind_eq_some_iff.mp hs'
      obtain ⟨h₁, hqueue₁⟩ := replyRx_conserves h hqueue (Nat.not_lt.mp hlen) hreply
      exact ih h₁ hqueue₁ hs'

theorem read_conserves (h : Conserved reqs bytes s) (hs' : s.read b = some s') :
  Conserved reqs bytes s'
  := by
  rw [State.read] at hs'
  obtain ⟨rxBuf, hpush, hs'⟩ := Option.bind_eq_some_iff.mp hs'
  obtain rfl := pushAll_eq_some hpush
  apply serveLoop_conserves _ rfl hs'
  constructor
  · rw [reads_append, replies_append, reads_getc, replies_getc, List.append_nil, h.rx,
      List.append_assoc]
  · rw [replies_append, replies_getc, List.append_nil]
    exact h.order
  · rw [writes_append, writes_getc, List.append_nil]
    exact h.tx

theorem write_conserves (h : Conserved reqs bytes s) (hs' : s.write b = some s') :
  Conserved reqs bytes s'
  := writeLoop_conserves h rfl hs'

/-- A request to receive goes to the end of `rx_queue`. -/
theorem handleRxReq_conserves {tid : ℤ} {len : ℕ} (h : Conserved reqs bytes s)
    (hs' : s.handleRxReq b tid len = some s') :
  Conserved (reqs ++ [(tid, len)]) bytes s'
  := by
  rw [State.handleRxReq] at hs'
  obtain ⟨rxQueue, hpush, hs'⟩ := Option.bind_eq_some_iff.mp hs'
  obtain rfl := pushBack_eq_some hpush
  apply read_conserves _ hs'
  constructor
  · exact h.rx
  · rw [h.order, List.map_append, List.append_assoc]
    rfl
  · exact h.tx

/-- The bytes of a request to transmit go to the end of `tx_buf`. -/
theorem handleTxReq_conserves {tid : ℤ} {more : List UInt8} {blocking : Bool}
    (h : Conserved reqs bytes s) (hs' : s.handleTxReq b tid more blocking = some s') :
  Conserved reqs (bytes ++ more) s'
  := by
  rw [State.handleTxReq] at hs'
  obtain ⟨txBuf, hpush, hs'⟩ := Option.bind_eq_some_iff.mp hs'
  obtain rfl := pushAll_eq_some hpush
  have hmore : Conserved reqs (bytes ++ more) { s with txBuf := s.txBuf ++ more } := by
    constructor
    · exact h.rx
    · exact h.order
    · rw [h.tx, List.append_assoc]
  cases blocking with
  | true =>
    obtain ⟨endAt, -, hs'⟩ := Option.bind_eq_some_iff.mp hs'
    obtain ⟨txQueue, -, hs'⟩ := Option.bind_eq_some_iff.mp hs'
    apply write_conserves _ hs'
    exact ⟨hmore.rx, hmore.order, hmore.tx⟩
  | false =>
    obtain ⟨s₁, hreply, hs'⟩ := Option.bind_eq_some_iff.mp hs'
    obtain ⟨box, callers, rfl⟩ := replyTx_eq hreply
    apply write_conserves _ hs'
    exact hmore.silent (silent_acked tid) rfl rfl rfl rfl

theorem rearm_conserves (h : Conserved reqs bytes s) (hs' : s.rearm = some s') :
  Conserved reqs bytes s'
  := by
  rw [State.rearm] at hs'
  obtain ⟨box, -, hs'⟩ := Option.bind_eq_some_iff.mp hs'
  obtain ⟨s₁, hreply, hs'⟩ := Option.bind_eq_some_iff.mp hs'
  obtain ⟨callers, rfl⟩ := reply_eq hreply
  have hreply : Conserved reqs bytes
      { s with replyBox := box, callers := callers, log := s.log ++ [.rearmed s.tidIntr] } :=
    h.silent (silent_rearmed _) rfl rfl rfl rfl
  rw [← Option.some.inj hs']
  exact hreply.silent silent_armRx rfl rfl rfl rfl

/-- A message adds its request to the streams. -/
theorem step_conserves {e : Event} (h : Conserved reqs bytes s) (hs' : step b s e = some s') :
  Conserved (reqs ++ e.rxReq.toList) (bytes ++ e.msg.bytes) s'
  := by
  have hrecv : Conserved reqs bytes (s.recv e) := ⟨h.rx, h.order, h.tx⟩
  obtain ⟨-, hs'⟩ := step_eq_some_iff.mp hs'
  rw [State.handle] at hs'
  rw [Event.rxReq]
  cases hmsg : e.msg with
  | rpiUartRxReq len =>
    rw [hmsg] at hs'
    rw [show Msg.bytes (.rpiUartRxReq len) = [] from rfl, List.append_nil]
    exact handleRxReq_conserves hrecv hs'
  | rpiUartTxReq more =>
    rw [hmsg] at hs'
    rw [Option.toList_none, List.append_nil]
    exact handleTxReq_conserves hrecv hs'
  | rpiUartTxBlockingReq more =>
    rw [hmsg] at hs'
    rw [Option.toList_none, List.append_nil]
    exact handleTxReq_conserves hrecv hs'
  | rpiUartIntr uartId mis =>
    rw [hmsg] at hs'
    obtain ⟨s₁, hrearm, hs'⟩ := Option.bind_eq_some_iff.mp hs'
    obtain ⟨s₂, hread, hs'⟩ := Option.bind_eq_some_iff.mp hs'
    rw [Option.toList_none, List.append_nil, show Msg.bytes (.rpiUartIntr uartId mis) = [] from rfl,
      List.append_nil]
    exact write_conserves (read_conserves (rearm_conserves hrecv hrearm) hread) hs'
  | unknown =>
    rw [hmsg] at hs'
    rw [Option.toList_none, List.append_nil, show Msg.bytes .unknown = [] from rfl,
      List.append_nil]
    obtain rfl := Option.some.inj hs'
    exact hrecv

end Operations

/-! ### Runs -/

/-- What is conserved after the messages `es`. -/
def ConservedAt (es : List Event) (s : State) : Prop :=
  Conserved (es.filterMap Event.rxReq) (es.flatMap fun e => e.msg.bytes) s

theorem conservedAt_new (uartId : ℕ) (replyBox : SendBox) (tidIntr : ℤ) :
  ConservedAt [] (State.new uartId replyBox tidIntr)
  := ⟨rfl, rfl, rfl⟩

theorem ConservedAt.next {b : Build} {es : List Event} {s s' : State} {e : Event}
    (h : ConservedAt es s) (hs' : step b s e = some s') :
  ConservedAt (es ++ [e]) s'
  := by
  have hnext := step_conserves h hs'
  rw [ConservedAt, List.filterMap_append, List.flatMap_append, List.flatMap_singleton]
  cases hreq : e.rxReq with
  | none =>
    rw [hreq] at hnext
    simpa [hreq] using hnext
  | some req =>
    rw [hreq] at hnext
    simpa [hreq] using hnext

/-- What is conserved in a run that does not fail. -/
theorem run_conserves (b : Build) (uartId : ℕ) (replyBox : SendBox) (tidIntr : ℤ)
    {es : List Event} {s : State}
    (hrun : Run.run (step b) (State.new uartId replyBox tidIntr) es = some s) :
  ConservedAt es s
  := Run.run_traces (fun _ _ _ _ h hs' => h.next hs') (conservedAt_new uartId replyBox tidIntr) hrun

end TrainsOs.Uart
