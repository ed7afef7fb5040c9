import TrainsOs.Uart.Streams

/-!
# Which messages the server survives

The server panics when one of its containers is full, when a reply does not fit into its
box, and when it replies to a task that does not wait. A request to receive that asks for
more than fits into a reply stays in front of the queue until `rx_buf` is full or, if it
can be served, until the reply fails.
-/

namespace TrainsOs.Uart

open MsgBox Bytes

/-! ### Conditions -/

/-- What the kernel promises: a task that waits for a reply sends nothing, and interrupts
are reported by the broker. -/
structure Admitted (s : State) (e : Event) : Prop where
  sender : e.sender ∉ s.callers
  broker : ∀ uartId mis, e.msg = .rpiUartIntr uartId mis → e.sender = s.tidIntr

/-- The length that a request to receive adds to the queue. -/
def Event.lens (e : Event) : List ℕ :=
  match e.msg with
  | .rpiUartRxReq len => [len]
  | _ => []

/-- The server reads from the hardware. -/
def Msg.Reads : Msg → Prop
  | .rpiUartRxReq _ => True
  | .rpiUartIntr _ _ => True
  | _ => False

/-- No capacity is exceeded: that of the box of the server, of the queues and of the buffers,
and that of the reply to any request for which there are enough bytes. -/
structure Unexceeded (s : State) (e : Event) : Prop where
  recvBox : e.msg.inBox = true
  rxQueue : ∀ len, e.msg = .rpiUartRxReq len → s.rxQueue.length < rxQueueCapacity
  rxBuf : e.msg.Reads → s.rxBuf.length + e.input.length ≤ rxBufCapacity
  replyBox : e.msg.Reads → ∀ len ∈ s.rxQueue.map RxReq.len ++ e.lens,
    len ≤ arrayCapacity rpiUartRxResp ∨ s.rxBuf.length + e.input.length < len
  txBuf : s.txBuf.length + e.msg.bytes.length ≤ txBufCapacity
  txQueue : ∀ bytes, e.msg = .rpiUartTxBlockingReq bytes → s.txQueue.length < txQueueCapacity
  txIdx : s.txIdx + s.txBuf.length + e.msg.bytes.length < 2 ^ 64

/-- The message is in the box, a request to receive can be answered, and the queues and
buffers have room. -/
structure Bearable (s : State) (e : Event) : Prop where
  recvBox : e.msg.inBox = true
  len : ∀ len, e.msg = .rpiUartRxReq len → len ≤ arrayCapacity rpiUartRxResp
  rxQueue : ∀ len, e.msg = .rpiUartRxReq len → s.rxQueue.length < rxQueueCapacity
  rxBuf : e.msg.Reads → s.rxBuf.length + e.input.length ≤ rxBufCapacity
  txBuf : s.txBuf.length + e.msg.bytes.length ≤ txBufCapacity
  txQueue : ∀ bytes, e.msg = .rpiUartTxBlockingReq bytes → s.txQueue.length < txQueueCapacity

/-- The position in the stream of bytes to transmit does not overflow. -/
def NoOverflow (s : State) (e : Event) : Prop :=
  s.txIdx + s.txBuf.length + e.msg.bytes.length < 2 ^ 64

/-- No message that is bearable exceeds a capacity, when no request that waits is too long. -/
theorem Bearable.unexceeded {s : State} {e : Event} (h : Bearable s e) (hover : NoOverflow s e)
    (hlens : ∀ r ∈ s.rxQueue, r.len ≤ arrayCapacity rpiUartRxResp) :
  Unexceeded s e
  := by
  constructor
  · exact h.recvBox
  · exact h.rxQueue
  · exact h.rxBuf
  · intro _ len hlen
    left
    rcases List.mem_append.mp hlen with hlen | hlen
    · obtain ⟨r, hr, rfl⟩ := List.mem_map.mp hlen
      exact hlens r hr
    · rw [Event.lens] at hlen
      split at hlen
      · rename_i hmsg
        rw [List.mem_singleton.mp hlen]
        exact h.len _ hmsg
      · cases hlen
  · exact h.txBuf
  · exact h.txQueue
  · exact hover

/-! ### What is alive -/

/-- Every task in a queue waits, and the buffers are within their capacities. -/
structure Alive (s : State) : Prop where
  waiting : Waiting s.callers s.waiters
  rxBuf : s.rxBuf.length ≤ rxBufCapacity
  txBuf : s.txBuf.length ≤ txBufCapacity

section Operations

variable {b : Build} {s s' : State} {tid : ℤ}

/-- A waiter is released, or nothing happens. -/
theorem release_alive (h : Alive s) :
  ∃ s', s.release = some s' ∧ Alive s' ∧ s'.txBuf = s.txBuf ∧ s'.txIdx = s.txIdx
  := by
  rw [State.release]
  have hwait := h.waiting
  rw [State.waiters] at hwait
  cases hqueue : s.txQueue with
  | nil => exact ⟨s, rfl, h, rfl, rfl⟩
  | cons front queue =>
    dsimp only
    split_ifs with hend
    · rw [hqueue, List.map_cons, ← Multiset.cons_coe, Multiset.cons_add] at hwait
      obtain ⟨box, hreply, hwait'⟩ := replyTx_spec (s := { s with txQueue := queue })
        (.sent front.tid) hwait
      exact ⟨_, hreply, ⟨hwait', h.rxBuf, h.txBuf⟩, rfl, rfl⟩
    · exact ⟨s, rfl, h, rfl, rfl⟩

theorem writeLoop_alive {buf : List UInt8} (h : Alive s) (hbuf : s.txBuf = buf)
    (hsmall : s.txIdx + buf.length < 2 ^ 64) :
  ∃ s', writeLoop b buf s = some s' ∧ Alive s'
  := by
  induction buf generalizing s with
  | nil => exact ⟨s, rfl, h⟩
  | cons ch buf ih =>
    rw [writeLoop]
    rw [List.length_cons] at hsmall
    cases hroom : s.room with
    | zero => exact ⟨_, rfl, h.waiting, h.rxBuf, h.txBuf⟩
    | succ room =>
      have hadd : b.arith.add 64 s.txIdx 1 = some (s.txIdx + 1) := if_pos (by omega)
      have htxBuf := h.txBuf
      rw [hbuf, List.length_cons] at htxBuf
      have hput : Alive { s with room := room, log := s.log ++ [.putc ch], txBuf := buf
                                 txIdx := s.txIdx + 1 } :=
        ⟨h.waiting, h.rxBuf, Nat.le_of_succ_le htxBuf⟩
      obtain ⟨s₁, hrelease, h₁, hbuf₁, hidx₁⟩ := release_alive hput
      simp only [hadd, Option.bind_eq_bind, Option.bind_some, hrelease]
      apply ih h₁ hbuf₁
      rw [hidx₁]
      dsimp only
      omega

theorem write_alive (h : Alive s) (hsmall : s.txIdx + s.txBuf.length < 2 ^ 64) :
  ∃ s', s.write b = some s' ∧ Alive s'
  := writeLoop_alive h rfl hsmall

/-- A reply with the first bytes of `rx_buf`. -/
theorem replyRx_alive {req : RxReq} {queue : List RxReq} (h : Alive s)
    (hqueue : s.rxQueue = req :: queue) (hlen : req.len ≤ s.rxBuf.length)
    (hfit : req.len ≤ arrayCapacity rpiUartRxResp) :
  ∃ s', State.replyRx b { s with rxQueue := queue } req = some s' ∧ Alive s' ∧
    s'.rxQueue = queue ∧ s'.rxBuf.length ≤ s.rxBuf.length ∧ s'.txBuf = s.txBuf ∧
    s'.txIdx = s.txIdx
  := by
  have hwait := h.waiting
  rw [State.waiters, hqueue, List.map_cons, ← Multiset.cons_coe, Multiset.add_cons] at hwait
  have hbase : rpiUartRxResp.base ≤ defaultBoxSize := by decide
  have htake : (s.rxBuf.take req.len).length ≤ arrayCapacity rpiUartRxResp := by
    rwa [List.length_take_of_le hlen]
  obtain ⟨box, hbox⟩ := newArrayMsg_eq b "RpiUartRxResp" s.replyBox hbase htake
  obtain ⟨hreply, hwait'⟩ := hwait.reply
  have hdrop : (s.rxBuf.drop req.len).length ≤ s.rxBuf.length := by
    rw [List.length_drop]
    exact Nat.sub_le _ _
  rw [State.replyRx]
  dsimp only
  rw [rpiUartRxResp, hbox, Option.bind_eq_bind, Option.bind_some, State.reply]
  simp only [hreply]
  exact ⟨_, rfl, ⟨hwait', hdrop.trans h.rxBuf, h.txBuf⟩, rfl, hdrop, rfl, rfl⟩

theorem serveLoop_alive {queue : List RxReq} (h : Alive s) (hqueue : s.rxQueue = queue) {n : ℕ}
    (hn : s.rxBuf.length ≤ n)
    (hfit : ∀ req ∈ queue, req.len ≤ arrayCapacity rpiUartRxResp ∨ n < req.len) :
  ∃ s', serveLoop b queue s = some s' ∧ Alive s' ∧ s'.txBuf = s.txBuf ∧ s'.txIdx = s.txIdx
  := by
  induction queue generalizing s with
  | nil => exact ⟨s, rfl, h, rfl, rfl⟩
  | cons req queue ih =>
    rw [serveLoop]
    split_ifs with hempty hlen
    · exact ⟨s, rfl, h, rfl, rfl⟩
    · exact ⟨s, rfl, h, rfl, rfl⟩
    · have hlen' := Nat.not_lt.mp hlen
      have hreq := (hfit req List.mem_cons_self).resolve_right
        (Nat.not_lt.mpr (hlen'.trans hn))
      obtain ⟨s₁, hreply, h₁, hqueue₁, hle, hbuf, hidx⟩ :=
        replyRx_alive (b := b) h hqueue hlen' hreq
      obtain ⟨s₂, hserve, h₂, hbuf₂, hidx₂⟩ := ih h₁ hqueue₁ (hle.trans hn)
        fun r hr => hfit r (List.mem_cons_of_mem _ hr)
      refine ⟨s₂, ?_, h₂, hbuf₂.trans hbuf, hidx₂.trans hidx⟩
      rw [hreply, Option.bind_eq_bind, Option.bind_some]
      exact hserve

theorem read_alive (h : Alive s) (hroom : s.rxBuf.length + s.input.length ≤ rxBufCapacity)
    (hfit : ∀ req ∈ s.rxQueue, req.len ≤ arrayCapacity rpiUartRxResp ∨
      s.rxBuf.length + s.input.length < req.len) :
  ∃ s', s.read b = some s' ∧ Alive s' ∧ s'.txBuf = s.txBuf ∧ s'.txIdx = s.txIdx
  := by
  rw [State.read, pushAll_eq hroom, Option.bind_eq_bind, Option.bind_some]
  have hlen : (s.rxBuf ++ s.input).length = s.rxBuf.length + s.input.length := List.length_append
  have halive : Alive { s with rxBuf := s.rxBuf ++ s.input, input := []
                               log := s.log ++ s.input.map .getc } :=
    ⟨h.waiting, hlen.trans_le hroom, h.txBuf⟩
  exact serveLoop_alive halive rfl hlen.le hfit

end Operations

/-! ### The messages -/

section Messages

variable {b : Build} {s s' : State} {e : Event}

/-- The sender of the message waits from now on. -/
theorem Alive.recv (h : Alive s) (hadm : Admitted s e) :
  Waiting (s.recv e).callers (e.sender ::ₘ s.waiters)
  := h.waiting.request hadm.sender

theorem handleRxReq_alive {len : ℕ} (h : Alive s) (hadm : Admitted s e) (hfits : Unexceeded s e)
    (hmsg : e.msg = .rpiUartRxReq len) :
  ∃ s', (s.recv e).handleRxReq b e.sender len = some s' ∧ Alive s'
  := by
  have hreads : e.msg.Reads := by
    rw [hmsg]
    trivial
  have hpush : pushBack rxQueueCapacity (s.recv e).rxQueue { tid := e.sender, len := len }
      = some (s.rxQueue ++ [{ tid := e.sender, len := len }]) := if_pos (hfits.rxQueue len hmsg)
  rw [State.handleRxReq, hpush, Option.bind_eq_bind, Option.bind_some]
  have hwait := h.recv hadm
  rw [State.waiters, ← Multiset.add_cons, Multiset.cons_coe] at hwait
  have halive :
      Alive { s.recv e with rxQueue := s.rxQueue ++ [{ tid := e.sender, len := len }] } := by
    refine ⟨?_, h.rxBuf, h.txBuf⟩
    rw [State.waiters, List.map_append, List.map_singleton,
      Multiset.coe_eq_coe.mpr (List.perm_append_singleton _ _)]
    exact hwait
  have hlens : ∀ req ∈ s.rxQueue ++ [{ tid := e.sender, len := len }],
      req.len ∈ s.rxQueue.map RxReq.len ++ e.lens := by
    intro req hreq
    rw [Event.lens, hmsg, List.mem_append]
    rcases List.mem_append.mp hreq with hreq | hreq
    · exact Or.inl (List.mem_map_of_mem hreq)
    · rw [List.mem_singleton.mp hreq]
      exact Or.inr (List.mem_singleton.mpr rfl)
  obtain ⟨s', hread, h', -⟩ := read_alive (b := b) halive (hfits.rxBuf hreads)
    fun req hreq => hfits.replyBox hreads req.len (hlens req hreq)
  exact ⟨s', hread, h'⟩

theorem handleTxReq_alive {bytes : List UInt8} {blocking : Bool} (h : Alive s)
    (hadm : Admitted s e) (hfits : Unexceeded s e) (hbytes : e.msg.bytes = bytes)
    (hqueue : blocking = true → s.txQueue.length < txQueueCapacity) :
  ∃ s', (s.recv e).handleTxReq b e.sender bytes blocking = some s' ∧ Alive s'
  := by
  have htxBuf := hfits.txBuf
  have hsmall := hfits.txIdx
  rw [hbytes] at htxBuf hsmall
  have hlen : (s.txBuf ++ bytes).length = s.txBuf.length + bytes.length := List.length_append
  have hsmall' : s.txIdx + (s.txBuf ++ bytes).length < 2 ^ 64 := by
    rw [hlen, ← Nat.add_assoc]
    exact hsmall
  have hpush : pushAll txBufCapacity (s.recv e).txBuf bytes = some (s.txBuf ++ bytes) :=
    pushAll_eq htxBuf
  have hwait := h.recv hadm
  rw [State.handleTxReq, hpush, Option.bind_eq_bind, Option.bind_some]
  cases blocking with
  | true =>
    have hadd : b.arith.add 64 (s.recv e).txIdx (s.txBuf ++ bytes).length
        = some (s.txIdx + (s.txBuf ++ bytes).length) := if_pos hsmall'
    have hqueue' : pushBack txQueueCapacity (s.recv e).txQueue
        { tid := e.sender, endAt := s.txIdx + (s.txBuf ++ bytes).length }
        = some (s.txQueue ++ [{ tid := e.sender, endAt := s.txIdx + (s.txBuf ++ bytes).length }]) :=
      if_pos (hqueue rfl)
    simp only [if_true, hadd, Option.bind_eq_bind, Option.bind_some, hqueue']
    rw [State.waiters, ← Multiset.cons_add, Multiset.cons_coe] at hwait
    apply write_alive _ hsmall'
    refine ⟨?_, h.rxBuf, hlen.trans_le htxBuf⟩
    rw [State.waiters, List.map_append, List.map_singleton,
      Multiset.coe_eq_coe.mpr (List.perm_append_singleton _ _)]
    exact hwait
  | false =>
    obtain ⟨box, hreply, hwait'⟩ := replyTx_spec
      (s := { s.recv e with txBuf := s.txBuf ++ bytes }) (.acked e.sender) hwait
    simp only [Bool.false_eq_true, if_false]
    rw [hreply, Option.bind_eq_bind, Option.bind_some]
    apply write_alive _ hsmall'
    exact ⟨hwait', h.rxBuf, hlen.trans_le htxBuf⟩

/-- The broker reports an interrupt. -/
theorem rearm_alive (h : Alive s) (hadm : Admitted s e) {uartId mis : ℕ}
    (hmsg : e.msg = .rpiUartIntr uartId mis) :
  ∃ box callers, (s.recv e).rearm = some
      { s.recv e with
        replyBox := box
        callers := callers
        log := s.log ++ [.rearmed s.tidIntr] ++ [.armRx] } ∧
    Waiting callers s.waiters
  := by
  have hbase : rpiUartIntr.base ≤ defaultBoxSize := by decide
  obtain ⟨box, hbox⟩ := newMsg_eq hbase s.replyBox (u32Bytes s.uartId ++ u32Bytes 0)
  have hwait := h.recv hadm
  rw [hadm.broker uartId mis hmsg] at hwait
  obtain ⟨hreply, hwait'⟩ := hwait.reply
  refine ⟨box, _, ?_, hwait'⟩
  rw [State.rearm]
  simp only [State.recv] at hreply ⊢
  rw [hbox, Option.bind_eq_bind, Option.bind_some, State.reply]
  simp only [hreply, Option.bind_eq_bind, Option.bind_some]

/-- The server survives a message that exceeds no capacity. -/
theorem step_alive (h : Alive s) (hadm : Admitted s e) (hfits : Unexceeded s e) :
  ∃ s', step b s e = some s' ∧ Alive s'
  := by
  rw [step, if_pos hfits.recvBox, State.handle]
  cases hmsg : e.msg with
  | rpiUartRxReq len => exact handleRxReq_alive h hadm hfits hmsg
  | rpiUartTxReq bytes =>
    exact handleTxReq_alive h hadm hfits (by rw [hmsg]; rfl) (fun hf => by cases hf)
  | rpiUartTxBlockingReq bytes =>
    exact handleTxReq_alive h hadm hfits (by rw [hmsg]; rfl) fun _ => hfits.txQueue bytes hmsg
  | rpiUartIntr uartId mis =>
    have hreads : e.msg.Reads := by
      rw [hmsg]
      trivial
    obtain ⟨box, callers, hrearm, hwait⟩ := rearm_alive h hadm hmsg
    let s₁ : State :=
      { s.recv e with
        replyBox := box
        callers := callers
        log := s.log ++ [.rearmed s.tidIntr] ++ [.armRx] }
    have h₁ : Alive s₁ := ⟨hwait, h.rxBuf, h.txBuf⟩
    obtain ⟨s₂, hread, h₂, hbuf, hidx⟩ := read_alive (b := b) h₁ (hfits.rxBuf hreads)
      fun req hreq => hfits.replyBox hreads req.len
        (List.mem_append_left _ (List.mem_map_of_mem hreq))
    have hsmall : s₂.txIdx + s₂.txBuf.length < 2 ^ 64 := by
      rw [hbuf, hidx]
      exact (Nat.le_add_right _ _).trans_lt hfits.txIdx
    obtain ⟨s₃, hwrite, h₃⟩ := write_alive (b := b) h₂ hsmall
    use s₃
    refine ⟨?_, h₃⟩
    simp only [hrearm, Option.bind_eq_bind, Option.bind_some]
    rw [hread, Option.bind_some, hwrite]
  | unknown => exact ⟨_, rfl, (h.recv hadm).forget, h.rxBuf, h.txBuf⟩

end Messages

/-! ### Runs that exceed no capacity -/

/-- The streams of a run over the messages `es`. The bytes replied, with those in `rx_buf`,
are the bytes read, in their order; the requests replied to, each with as many bytes as it
asks for, and those in `rx_queue` are the requests that arrived, in their order; the bytes
written, with those in `tx_buf`, are the bytes of the requests, in their order. -/
structure Streams (es : List Event) (s : State) : Prop where
  rx : (replies s.log).flatMap Prod.snd ++ s.rxBuf = reads s.log
  order : ((replies s.log).map fun r => (r.1, r.2.length))
    ++ (s.rxQueue.map fun r => (r.tid, r.len)) = es.filterMap Event.rxReq
  tx : writes s.log ++ s.txBuf = es.flatMap fun e => e.msg.bytes

/-- In every run that exceeds no capacity both streams arrive in order and complete; and when
no message exceeds one, the server does not fail. -/
theorem uart_streams (b : Build) (uartId : ℕ) (replyBox : SendBox) (tidIntr : ℤ) :
  (∀ es s, Run.run (step b) (State.new uartId replyBox tidIntr) es = some s → Streams es s) ∧
  ∀ es, Run.Meets (step b) (fun s e => Admitted s e ∧ Unexceeded s e)
      (State.new uartId replyBox tidIntr) es →
    ∃ s, Run.run (step b) (State.new uartId replyBox tidIntr) es = some s ∧ Streams es s
  := by
  have hstreams : ∀ es s, Run.run (step b) (State.new uartId replyBox tidIntr) es = some s →
      Streams es s := by
    intro es s hrun
    have h := run_conserves b uartId replyBox tidIntr hrun
    exact ⟨h.rx.symm, h.order.symm, h.tx.symm⟩
  refine ⟨hstreams, ?_⟩
  intro es hes
  have hinit : Alive (State.new uartId replyBox tidIntr) :=
    ⟨Waiting.nil, Nat.zero_le _, Nat.zero_le _⟩
  obtain ⟨s, hrun, -⟩ := Run.run_invariant (fun _ _ h hok => step_alive h hok.1 hok.2) hinit hes
  exact ⟨s, hrun, hstreams es s hrun⟩

/-! ### A run -/

/-- A request of task `tid` to receive. -/
def rxRequest (tid : ℤ) (len : ℕ) : Event where
  sender := tid
  msg := .rpiUartRxReq len
  room := 16
  input := []

/-- The broker reports that `n` bytes have been received. -/
def received (n : ℕ) : Event where
  sender := 7
  msg := .rpiUartIntr 1 0
  room := 16
  input := List.replicate n 65

/-- `Admitted`, as a check. -/
def admitted (s : State) (e : Event) : Bool :=
  !s.callers.contains e.sender &&
    match e.msg with
    | .rpiUartIntr _ _ => e.sender == s.tidIntr
    | _ => true

theorem admitted_of_check (s : State) (e : Event) (h : admitted s e = true) :
  Admitted s e
  := by
  rw [admitted, Bool.and_eq_true] at h
  constructor
  · simpa using h.1
  · intro uartId mis hmsg
    have hbroker := h.2
    rw [hmsg] at hbroker
    simpa using hbroker

/-- A request that can be answered, and its bytes. -/
theorem two_meet :
  Run.Meets (step checkedBuild) (fun s e => (Admitted s e ∧ Bearable s e ∧ NoOverflow s e) ∧
      ∀ r ∈ s.rxQueue, r.len ≤ arrayCapacity rpiUartRxResp)
    uart1 [rxRequest 5 2, received 2]
  := by
  obtain ⟨s₁, hs₁, hcallers, hintr, hrx, htx, hidx, hqueue⟩ :
    ∃ s₁, step checkedBuild uart1 (rxRequest 5 2) = some s₁ ∧ s₁.callers = [5] ∧
      s₁.tidIntr = 7 ∧ s₁.rxBuf = [] ∧ s₁.txBuf = [] ∧ s₁.txIdx = 0 ∧
      s₁.rxQueue = [⟨5, 2⟩] :=
    ⟨_, rfl, rfl, rfl, rfl, rfl, rfl, rfl⟩
  apply Run.meets_cons _ hs₁
  · refine ⟨⟨⟨admitted_of_check _ _ ?_, ?_, ?_⟩, ?_⟩, fun _ _ => trivial⟩
    · rw [admitted, hcallers, hintr]
      rfl
    · constructor
      · rfl
      · nofun
      · nofun
      · intro _
        rw [hrx]
        decide
      · rw [htx]
        decide
      · nofun
    · rw [NoOverflow, htx, hidx]
      decide
    · rw [hqueue, List.forall_mem_singleton]
      decide
  · refine ⟨⟨admitted_of_check _ _ rfl, ?_, ?_⟩, nofun⟩
    · constructor
      · rfl
      · rintro _ ⟨⟩
        decide
      · intro _ _
        decide
      · intro _
        decide
      · decide
      · nofun
    · rw [NoOverflow]
      decide

theorem uart_streams_two :
  (∀ es s, Run.run (step checkedBuild) uart1 es = some s → Streams es s) ∧
    ∃ s, Run.run (step checkedBuild) uart1 [rxRequest 5 2, received 2] = some s ∧
      Streams [rxRequest 5 2, received 2] s
  := by
  obtain ⟨hrun, htotal⟩ := uart_streams checkedBuild 1 { len := 0, sendBuf := fun _ => 0 } 7
  refine ⟨hrun, htotal _ ?_⟩
  exact two_meet.mono fun _ _ h => ⟨h.1.1, h.1.2.1.unexceeded h.1.2.2 h.2⟩

/-! ### Failures -/

section Failures

variable {b : Build} {s s' : State} {e : Event}

/-- A reply that is made fits into its box. -/
theorem le_of_newArrayMsg {name : String} {box box' : SendBox} {bytes : List UInt8}
    (hlt : bytes.length < 2 ^ 63) (h : newArrayMsg b (arrayMsg name) box bytes = some box') :
  bytes.length ≤ arrayCapacity (arrayMsg name)
  := by
  by_contra hlarge
  rw [arrayCapacity, Nat.not_le] at hlarge
  have halign : alignUp (arrayMsg name).base u8.alignSft - (arrayMsg name).base = 0 := by
    simp [alignUp, alignDown, u8]
  have hsize : bytes.length * u8.size = bytes.length := Nat.mul_one _
  have hmul : b.arith.mul 64 bytes.length u8.size = some bytes.length := by
    rw [Arith.mul_of_lt (by rw [hsize]; omega), hsize]
  have hadd : b.arith.add 64 0 bytes.length = some (0 + bytes.length) :=
    Arith.add_of_lt (by omega)
  have hleft : defaultBoxSize - (arrayMsg name).base < 0 + bytes.length := by omega
  rw [newArrayMsg, send, SendCtx.new] at h
  split_ifs at h
  · cases h
  · simp only [Option.bind_eq_bind, Option.bind_some, List.foldlM_cons, SendCtx.attach,
      SendCtx.attachArray, SendCtx.attachSized, halign, hmul, hadd, if_pos hleft] at h
    cases h

/-- A buffer that cannot take all bytes. -/
theorem pushAll_eq_none {α : Type} {capacity : ℕ} {q xs : List α} (hq : q.length ≤ capacity)
    (h : capacity < q.length + xs.length) :
  pushAll capacity q xs = none
  := by
  induction xs generalizing q with
  | nil =>
    rw [List.length_nil] at h
    omega
  | cons x xs ih =>
    rw [pushAll, List.foldlM_cons]
    by_cases hx : q.length < capacity
    · have hpush : pushBack capacity q x = some (q ++ [x]) := if_pos hx
      rw [hpush, Option.bind_eq_bind, Option.bind_some]
      apply ih
      · rw [List.length_append]
        exact hx
      · rw [List.length_append, List.length_singleton]
        rw [List.length_cons] at h
        omega
    · have hpush : pushBack capacity q x = none := if_neg hx
      rw [hpush]
      rfl

/-- A buffer that took all bytes had room for them. -/
theorem pushAll_room {α : Type} {capacity : ℕ} {q q' xs : List α} (hq : q.length ≤ capacity)
    (h : pushAll capacity q xs = some q') :
  q.length + xs.length ≤ capacity
  := by
  by_contra hfull
  rw [pushAll_eq_none hq (Nat.not_le.mp hfull)] at h
  cases h

theorem pushBack_room {α : Type} {capacity : ℕ} {q q' : List α} {x : α}
    (h : pushBack capacity q x = some q') :
  q.length < capacity
  := by
  rw [pushBack] at h
  split_ifs at h with hroom
  exact hroom

/-- The bytes that were read had room. -/
theorem read_room (hbuf : s.rxBuf.length ≤ rxBufCapacity) (h : s.read b = some s') :
  s.rxBuf.length + s.input.length ≤ rxBufCapacity
  := by
  rw [State.read] at h
  obtain ⟨rxBuf, hpush, -⟩ := Option.bind_eq_some_iff.mp h
  exact pushAll_room hbuf hpush

/-- A request that asks for more than fits into a reply stays in the queue. -/
theorem serveLoop_keeps {queue : List RxReq} {r : RxReq} (hqueue : s.rxQueue = queue)
    (hr : r ∈ queue) (hlen : arrayCapacity rpiUartRxResp < r.len)
    (hbuf : s.rxBuf.length < 2 ^ 63) (hs' : serveLoop b queue s = some s') :
  r ∈ s'.rxQueue
  := by
  induction queue generalizing s with
  | nil => cases hr
  | cons req queue ih =>
    rw [serveLoop] at hs'
    split_ifs at hs' with hempty hshort
    · rw [← Option.some.inj hs', hqueue]
      exact hr
    · rw [← Option.some.inj hs', hqueue]
      exact hr
    · obtain ⟨s₁, hreply, hs'⟩ := Option.bind_eq_some_iff.mp hs'
      rw [State.replyRx] at hreply
      obtain ⟨box, hbox, hreply⟩ := Option.bind_eq_some_iff.mp hreply
      rw [State.reply] at hreply
      obtain ⟨callers, -, hreply⟩ := Option.bind_eq_some_iff.mp hreply
      have htake : (s.rxBuf.take req.len).length = req.len :=
        List.length_take_of_le (Nat.not_lt.mp hshort)
      have hfit : req.len ≤ arrayCapacity rpiUartRxResp := by
        rw [← htake]
        apply le_of_newArrayMsg _ hbox
        rw [htake]
        exact (Nat.not_lt.mp hshort).trans_lt hbuf
      have hne : r ≠ req := by
        rintro rfl
        exact absurd hfit (Nat.not_le.mpr hlen)
      rw [← Option.some.inj hreply] at hs'
      apply ih rfl ((List.mem_cons.mp hr).resolve_left hne) _ hs'
      dsimp only
      rw [List.length_drop]
      exact (Nat.sub_le _ _).trans_lt hbuf

theorem read_keeps {r : RxReq} (hr : r ∈ s.rxQueue) (hlen : arrayCapacity rpiUartRxResp < r.len)
    (hbuf : s.rxBuf.length ≤ rxBufCapacity) (h : s.read b = some s') :
  r ∈ s'.rxQueue
  := by
  have hroom := read_room hbuf h
  have hcap : rxBufCapacity < 2 ^ 63 := by decide
  rw [State.read] at h
  obtain ⟨rxBuf, hpush, h⟩ := Option.bind_eq_some_iff.mp h
  obtain rfl := pushAll_eq_some hpush
  have hall : (s.rxBuf ++ s.input).length < 2 ^ 63 := by
    rw [List.length_append]
    exact hroom.trans_lt hcap
  exact serveLoop_keeps (s := { s with rxBuf := s.rxBuf ++ s.input, input := []
                                       log := s.log ++ s.input.map .getc }) rfl hr hlen hall h

/-- A request to receive that is served without failing. -/
theorem handleRxReq_room {tid : ℤ} {len : ℕ} (hbuf : s.rxBuf.length ≤ rxBufCapacity)
    (h : s.handleRxReq b tid len = some s') :
  s.rxQueue.length < rxQueueCapacity ∧ s.rxBuf.length + s.input.length ≤ rxBufCapacity ∧
    (arrayCapacity rpiUartRxResp < len → ∃ r ∈ s'.rxQueue, r.tid = tid)
  := by
  rw [State.handleRxReq] at h
  obtain ⟨rxQueue, hpush, h⟩ := Option.bind_eq_some_iff.mp h
  refine ⟨pushBack_room hpush, read_room (s := { s with rxQueue := rxQueue }) hbuf h, ?_⟩
  intro hlen
  obtain rfl := pushBack_eq_some hpush
  have hr : (⟨tid, len⟩ : RxReq) ∈ s.rxQueue ++ [⟨tid, len⟩] :=
    List.mem_append_right _ List.mem_cons_self
  use ⟨tid, len⟩
  exact ⟨read_keeps (s := { s with rxQueue := s.rxQueue ++ [⟨tid, len⟩] }) hr hlen hbuf h, rfl⟩

/-- A request to transmit that is served without failing. -/
theorem handleTxReq_room {tid : ℤ} {bytes : List UInt8} {blocking : Bool}
    (hbuf : s.txBuf.length ≤ txBufCapacity)
    (h : s.handleTxReq b tid bytes blocking = some s') :
  s.txBuf.length + bytes.length ≤ txBufCapacity ∧
    (blocking = true → s.txQueue.length < txQueueCapacity)
  := by
  rw [State.handleTxReq] at h
  obtain ⟨txBuf, hpush, h⟩ := Option.bind_eq_some_iff.mp h
  refine ⟨pushAll_room hbuf hpush, ?_⟩
  rintro rfl
  obtain ⟨endAt, -, h⟩ := Option.bind_eq_some_iff.mp h
  obtain ⟨txQueue, hqueue, -⟩ := Option.bind_eq_some_iff.mp h
  exact pushBack_room hqueue

end Failures

/-! ### Exactly which messages the server survives -/

/-- The request can never be answered: its bytes do not fit into a reply or into
`rx_buf`. -/
def TooLong (len : ℕ) : Prop :=
  arrayCapacity rpiUartRxResp < len ∨ rxBufCapacity < len

/-- The request of the task was answered without being kept. -/
structure Rejected (s : State) (tid : ℤ) : Prop where
  answered : tid ∉ s.callers
  dropped : ∀ r ∈ s.rxQueue, r.tid ≠ tid

/-- The server does not fail, and a request that can never be answered is rejected. -/
def Survives (b : Build) (s : State) (e : Event) : Prop :=
  ∃ s', step b s e = some s' ∧
    ∀ len, e.msg = .rpiUartRxReq len → TooLong len → Rejected s' e.sender

section Exact

variable {b : Build} {s s' : State} {e : Event}

/-- A reply holds less than `rx_buf`. -/
theorem arrayCapacity_lt :
  arrayCapacity rpiUartRxResp < rxBufCapacity
  := by decide

theorem not_tooLong {len : ℕ} (h : len ≤ arrayCapacity rpiUartRxResp) :
  ¬ TooLong len
  := by
  rintro (hlong | hlong)
  · exact absurd h (Nat.not_le.mpr hlong)
  · exact absurd (h.trans arrayCapacity_lt.le) (Nat.not_le.mpr hlong)

/-- The server survives exactly the bearable messages. -/
theorem survives_iff (h : Alive s) (hlens : ∀ r ∈ s.rxQueue, r.len ≤ arrayCapacity rpiUartRxResp)
    (hadm : Admitted s e) (hover : NoOverflow s e) :
  Survives b s e ↔ Bearable s e
  := by
  constructor
  · rintro ⟨s', hstep, hreject⟩
    obtain ⟨hbox, hstep⟩ := step_eq_some_iff.mp hstep
    rw [State.handle] at hstep
    have hrx : (s.recv e).rxBuf.length ≤ rxBufCapacity := h.rxBuf
    have htx : (s.recv e).txBuf.length ≤ txBufCapacity := h.txBuf
    constructor
    · exact hbox
    · intro len hmsg
      by_contra hlong
      simp only [hmsg] at hstep
      obtain ⟨r, hr, htid⟩ := (handleRxReq_room hrx hstep).2.2 (Nat.not_le.mp hlong)
      exact (hreject len hmsg (Or.inl (Nat.not_le.mp hlong))).dropped r hr htid
    · intro len hmsg
      simp only [hmsg] at hstep
      exact (handleRxReq_room hrx hstep).1
    · intro hreads
      cases hmsg : e.msg with
      | rpiUartRxReq len =>
        simp only [hmsg] at hstep
        exact (handleRxReq_room hrx hstep).2.1
      | rpiUartIntr uartId mis =>
        obtain ⟨box, callers, hrearm, -⟩ := rearm_alive h hadm hmsg
        simp only [hmsg, hrearm, Option.bind_eq_bind, Option.bind_some] at hstep
        obtain ⟨s₂, hread, -⟩ := Option.bind_eq_some_iff.mp hstep
        refine read_room ?_ hread
        exact hrx
      | rpiUartTxReq bytes => exact absurd hreads (by rw [hmsg]; exact id)
      | rpiUartTxBlockingReq bytes => exact absurd hreads (by rw [hmsg]; exact id)
      | unknown => exact absurd hreads (by rw [hmsg]; exact id)
    · cases hmsg : e.msg with
      | rpiUartTxReq bytes =>
        simp only [hmsg] at hstep
        exact (handleTxReq_room htx hstep).1
      | rpiUartTxBlockingReq bytes =>
        simp only [hmsg] at hstep
        exact (handleTxReq_room htx hstep).1
      | rpiUartRxReq len => exact h.txBuf
      | rpiUartIntr uartId mis => exact h.txBuf
      | unknown => exact h.txBuf
    · intro bytes hmsg
      simp only [hmsg] at hstep
      exact (handleTxReq_room htx hstep).2 rfl
  · intro hbear
    obtain ⟨s', hstep, -⟩ := step_alive (b := b) h hadm (hbear.unexceeded hover hlens)
    refine ⟨s', hstep, ?_⟩
    intro len hmsg hlong
    exact absurd hlong (not_tooLong (hbear.len len hmsg))

/-- The request of a message, if it is one to receive, can be answered. -/
theorem Bearable.rxReq (h : Bearable s e) :
  ∀ r ∈ e.rxReq.toList, r.2 ≤ arrayCapacity rpiUartRxResp
  := by
  intro r hr
  rw [Event.rxReq] at hr
  cases hmsg : e.msg with
  | rpiUartRxReq len =>
    rw [hmsg, Option.toList_some, List.mem_singleton] at hr
    rw [hr]
    exact h.len len hmsg
  | rpiUartTxReq bytes => simp [hmsg] at hr
  | rpiUartTxBlockingReq bytes => simp [hmsg] at hr
  | rpiUartIntr uartId mis => simp [hmsg] at hr
  | unknown => simp [hmsg] at hr

end Exact

/-- What holds after the messages `es` when all were bearable. -/
structure Borne (es : List Event) (s : State) : Prop where
  alive : Alive s
  conserved : ConservedAt es s
  lens : ∀ r ∈ es.filterMap Event.rxReq, r.2 ≤ arrayCapacity rpiUartRxResp

/-- The requests in the queue are among those that arrived. -/
theorem Borne.queue {es : List Event} {s : State} (h : Borne es s) :
  ∀ r ∈ s.rxQueue, r.len ≤ arrayCapacity rpiUartRxResp
  := by
  intro r hr
  apply h.lens (r.tid, r.len)
  rw [h.conserved.order]
  exact List.mem_append_right _ (List.mem_map_of_mem hr)

theorem Borne.next {b : Build} {es : List Event} {s : State} {e : Event} (h : Borne es s)
    (hadm : Admitted s e) (hbear : Bearable s e) (hover : NoOverflow s e) :
  ∃ s', step b s e = some s' ∧ Borne (es ++ [e]) s'
  := by
  obtain ⟨s', hstep, halive⟩ := step_alive (b := b) h.alive hadm (hbear.unexceeded hover h.queue)
  refine ⟨s', hstep, halive, h.conserved.next hstep, ?_⟩
  intro r hr
  rw [List.filterMap_append, List.mem_append] at hr
  rcases hr with hr | hr
  · exact h.lens r hr
  · apply hbear.rxReq r
    simpa using hr

/-- After messages all of which were bearable the server survives exactly the bearable ones:
it does not survive a request to receive that can never be answered, nor bytes for which
there is no room. -/
theorem uart_survives (b : Build) (uartId : ℕ) (replyBox : SendBox) (tidIntr : ℤ)
    {es : List Event}
    (hes : Run.Meets (step b) (fun s e => Admitted s e ∧ Bearable s e ∧ NoOverflow s e)
      (State.new uartId replyBox tidIntr) es) :
  ∃ s, Run.run (step b) (State.new uartId replyBox tidIntr) es = some s ∧
    ∀ e, Admitted s e → NoOverflow s e → (Survives b s e ↔ Bearable s e)
  := by
  have hinit : Borne [] (State.new uartId replyBox tidIntr) :=
    ⟨⟨Waiting.nil, Nat.zero_le _, Nat.zero_le _⟩, conservedAt_new uartId replyBox tidIntr, nofun⟩
  obtain ⟨s, hrun, h⟩ :=
    Run.run_history (fun _ _ _ h hok => h.next hok.1 hok.2.1 hok.2.2) hinit hes
  refine ⟨s, hrun, ?_⟩
  intro e hadm hover
  exact survives_iff h.alive h.queue hadm hover

/-- A request that can be answered, and its bytes. -/
theorem uart_survives_two :
  ∃ s, Run.run (step checkedBuild) uart1 [rxRequest 5 2, received 2] = some s ∧
    ∀ e, Admitted s e → NoOverflow s e → (Survives checkedBuild s e ↔ Bearable s e)
  := by
  apply uart_survives
  exact two_meet.mono fun _ _ h => h.1

/-- A request for as many bytes as the length field of an ACL packet can say, and bytes from
the hardware: the server panics. -/
theorem uart_dies :
  Run.Meets (step checkedBuild) Admitted uart1
      (rxRequest 5 65535 :: List.replicate 128 (received 16) ++ [received 1]) ∧
    Run.run (step checkedBuild) uart1
      (rxRequest 5 65535 :: List.replicate 128 (received 16) ++ [received 1]) = none
  := by
  constructor
  · apply Run.meets_of_allOk admitted_of_check
    decide +kernel
  · apply Option.isNone_iff_eq_none.mp
    decide +kernel

end TrainsOs.Uart
