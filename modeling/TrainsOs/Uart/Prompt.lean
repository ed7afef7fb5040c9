import TrainsOs.Uart.Survival

/-!
# Receiving promptly

A request to receive is served as soon as `rx_buf` holds its bytes, with one exception: a
request for no bytes that comes to the front of `rx_queue` when `rx_buf` is empty waits for
the next byte.
-/

namespace TrainsOs.Uart

open MsgBox Bytes

/-- No request that could be served is waiting. -/
def Prompt (s : State) : Prop :=
  ∀ req ∈ s.rxQueue.head?, s.rxBuf.length < req.len

/-- The requests in front take all of `n` bytes, and the next one is for no bytes. -/
def Starves (queue : List RxReq) (n : ℕ) : Prop :=
  ∃ served req rest, queue = served ++ req :: rest ∧ (served.map RxReq.len).sum = n ∧ req.len = 0

/-- The message does not bring a request for no bytes to the front of `rx_queue` when all
bytes are taken. -/
def NotStarving (s : State) (e : Event) : Prop :=
  match e.msg with
  | .rpiUartRxReq len =>
      ¬ Starves (s.rxQueue ++ [{ tid := e.sender, len := len }])
        (s.rxBuf.length + e.input.length)
  | .rpiUartIntr _ _ => ¬ Starves s.rxQueue (s.rxBuf.length + e.input.length)
  | _ => True

theorem starves_cons_zero (req : RxReq) (queue : List RxReq) :
  Starves (req :: queue) 0 ↔ req.len = 0
  := by
  constructor
  · rintro ⟨served, req', rest, hqueue, hsum, hzero⟩
    cases served with
    | nil =>
      obtain ⟨rfl, -⟩ := List.cons.inj hqueue
      exact hzero
    | cons front served =>
      obtain ⟨rfl, -⟩ := List.cons.inj hqueue
      rw [List.map_cons, List.sum_cons] at hsum
      apply Nat.eq_zero_of_add_eq_zero_right hsum
  · intro hzero
    use [], req, queue, rfl, rfl, hzero

/-- The request in front is served, so the rest of the queue gets the bytes that are left. -/
theorem starves_cons {req : RxReq} {n : ℕ} (hpos : 0 < n) (hlen : req.len ≤ n)
    (queue : List RxReq) :
  Starves (req :: queue) n ↔ Starves queue (n - req.len)
  := by
  constructor
  · rintro ⟨served, req', rest, hqueue, hsum, hzero⟩
    cases served with
    | nil =>
      rw [List.map_nil, List.sum_nil] at hsum
      omega
    | cons front served =>
      obtain ⟨rfl, htail⟩ := List.cons.inj hqueue
      rw [List.map_cons, List.sum_cons] at hsum
      use served, req', rest, htail, by omega, hzero
  · rintro ⟨served, req', rest, rfl, hsum, hzero⟩
    refine ⟨req :: served, req', rest, rfl, ?_, hzero⟩
    rw [List.map_cons, List.sum_cons, hsum]
    apply Nat.add_sub_cancel' hlen

/-- A request in front for more bytes than there are is not starved. -/
theorem not_starves_of_lt {req : RxReq} {n : ℕ} (hlen : n < req.len) (queue : List RxReq) :
  ¬ Starves (req :: queue) n
  := by
  rintro ⟨served, req', rest, hqueue, hsum, hzero⟩
  cases served with
  | nil =>
    obtain ⟨rfl, -⟩ := List.cons.inj hqueue
    omega
  | cons front served =>
    obtain ⟨rfl, -⟩ := List.cons.inj hqueue
    rw [List.map_cons, List.sum_cons] at hsum
    omega

section Operations

variable {b : Build} {s s' : State}

theorem replyRx_eq {req : RxReq} (h : State.replyRx b s req = some s') :
  s'.rxQueue = s.rxQueue ∧ s'.rxBuf = s.rxBuf.drop req.len
  := by
  rw [State.replyRx] at h
  obtain ⟨box, -, h⟩ := Option.bind_eq_some_iff.mp h
  obtain ⟨callers, rfl⟩ := reply_eq h
  exact ⟨rfl, rfl⟩

/-- The second loop of `read` leaves a request that could be served exactly when it runs
out of bytes before a request for none. -/
theorem serveLoop_prompt {queue : List RxReq} (hqueue : s.rxQueue = queue)
    (h : serveLoop b queue s = some s') :
  Prompt s' ↔ ¬ Starves queue s.rxBuf.length
  := by
  induction queue generalizing s with
  | nil =>
    rw [serveLoop] at h
    obtain rfl := Option.some.inj h
    rw [Prompt, hqueue]
    simp [Starves]
  | cons req queue ih =>
    rw [serveLoop] at h
    split_ifs at h with hempty hlen
    · obtain rfl := Option.some.inj h
      rw [List.isEmpty_iff.mp hempty, List.length_nil, starves_cons_zero, Prompt, hqueue,
        List.isEmpty_iff.mp hempty]
      simp [Nat.pos_iff_ne_zero]
    · obtain rfl := Option.some.inj h
      have hprompt : Prompt s := by
        rw [Prompt, hqueue]
        simpa using hlen
      exact iff_of_true hprompt (not_starves_of_lt hlen queue)
    · obtain ⟨s₁, hreply, h⟩ := Option.bind_eq_some_iff.mp h
      obtain ⟨hqueue₁, hbuf₁⟩ := replyRx_eq hreply
      have hpos : 0 < s.rxBuf.length := by
        apply List.length_pos_iff.mpr
        rintro hnil
        exact hempty (List.isEmpty_iff.mpr hnil)
      rw [ih hqueue₁ h, hbuf₁, starves_cons hpos (Nat.not_lt.mp hlen), List.length_drop]

theorem read_prompt (h : s.read b = some s') :
  Prompt s' ↔ ¬ Starves s.rxQueue (s.rxBuf.length + s.input.length)
  := by
  rw [State.read] at h
  obtain ⟨rxBuf, hpush, h⟩ := Option.bind_eq_some_iff.mp h
  obtain rfl := pushAll_eq_some hpush
  rw [← List.length_append]
  exact serveLoop_prompt rfl h

/-- Whether a request could be served is seen in `rx_queue` and `rx_buf`. -/
theorem Prompt.congr (hqueue : s'.rxQueue = s.rxQueue) (hbuf : s'.rxBuf = s.rxBuf) :
  Prompt s' ↔ Prompt s
  := by
  rw [Prompt, hqueue, hbuf, Prompt]

theorem release_rx (h : s.release = some s') :
  s'.rxQueue = s.rxQueue ∧ s'.rxBuf = s.rxBuf
  := by
  rw [State.release] at h
  split at h
  · split_ifs at h
    · obtain ⟨box, callers, rfl⟩ := replyTx_eq h
      exact ⟨rfl, rfl⟩
    · obtain rfl := Option.some.inj h
      exact ⟨rfl, rfl⟩
  · obtain rfl := Option.some.inj h
    exact ⟨rfl, rfl⟩

/-- Transmitting does not touch what is received. -/
theorem writeLoop_rx {buf : List UInt8} (h : writeLoop b buf s = some s') :
  s'.rxQueue = s.rxQueue ∧ s'.rxBuf = s.rxBuf
  := by
  induction buf generalizing s with
  | nil =>
    rw [writeLoop] at h
    obtain rfl := Option.some.inj h
    exact ⟨rfl, rfl⟩
  | cons ch buf ih =>
    rw [writeLoop] at h
    split at h
    · obtain rfl := Option.some.inj h
      exact ⟨rfl, rfl⟩
    · obtain ⟨txIdx, -, h⟩ := Option.bind_eq_some_iff.mp h
      obtain ⟨s₁, hrelease, h⟩ := Option.bind_eq_some_iff.mp h
      obtain ⟨hqueue, hbuf⟩ := release_rx hrelease
      obtain ⟨hqueue', hbuf'⟩ := ih h
      exact ⟨hqueue'.trans hqueue, hbuf'.trans hbuf⟩

theorem write_rx (h : s.write b = some s') :
  s'.rxQueue = s.rxQueue ∧ s'.rxBuf = s.rxBuf
  := writeLoop_rx h

theorem handleTxReq_rx {tid : ℤ} {bytes : List UInt8} {blocking : Bool}
    (h : s.handleTxReq b tid bytes blocking = some s') :
  s'.rxQueue = s.rxQueue ∧ s'.rxBuf = s.rxBuf
  := by
  rw [State.handleTxReq] at h
  obtain ⟨txBuf, -, h⟩ := Option.bind_eq_some_iff.mp h
  cases blocking with
  | true =>
    obtain ⟨endAt, -, h⟩ := Option.bind_eq_some_iff.mp h
    obtain ⟨txQueue, -, h⟩ := Option.bind_eq_some_iff.mp h
    have hwrite := write_rx h
    exact hwrite
  | false =>
    obtain ⟨s₁, hreply, h⟩ := Option.bind_eq_some_iff.mp h
    obtain ⟨box, callers, rfl⟩ := replyTx_eq hreply
    have hwrite := write_rx h
    exact hwrite

theorem rearm_rx (h : s.rearm = some s') :
  s'.rxQueue = s.rxQueue ∧ s'.rxBuf = s.rxBuf ∧ s'.input = s.input
  := by
  rw [State.rearm] at h
  obtain ⟨box, -, h⟩ := Option.bind_eq_some_iff.mp h
  obtain ⟨s₁, hreply, h⟩ := Option.bind_eq_some_iff.mp h
  obtain ⟨callers, rfl⟩ := reply_eq hreply
  obtain rfl := Option.some.inj h
  exact ⟨rfl, rfl, rfl⟩

/-- One message. -/
theorem step_prompt_iff {e : Event} (hs : Prompt s) (h : step b s e = some s') :
  Prompt s' ↔ NotStarving s e
  := by
  obtain ⟨-, h⟩ := step_eq_some_iff.mp h
  rw [State.handle] at h
  rw [NotStarving]
  cases hmsg : e.msg with
  | rpiUartRxReq len =>
    rw [hmsg] at h
    obtain ⟨rxQueue, hpush, h⟩ := Option.bind_eq_some_iff.mp h
    obtain rfl := pushBack_eq_some hpush
    exact read_prompt h
  | rpiUartTxReq bytes =>
    rw [hmsg] at h
    obtain ⟨hqueue, hbuf⟩ := handleTxReq_rx h
    exact iff_of_true ((Prompt.congr hqueue hbuf).mpr hs) trivial
  | rpiUartTxBlockingReq bytes =>
    rw [hmsg] at h
    obtain ⟨hqueue, hbuf⟩ := handleTxReq_rx h
    exact iff_of_true ((Prompt.congr hqueue hbuf).mpr hs) trivial
  | rpiUartIntr uartId mis =>
    rw [hmsg] at h
    obtain ⟨s₁, hrearm, h⟩ := Option.bind_eq_some_iff.mp h
    obtain ⟨s₂, hread, h⟩ := Option.bind_eq_some_iff.mp h
    obtain ⟨hqueue₁, hbuf₁, hinput₁⟩ := rearm_rx hrearm
    obtain ⟨hqueue, hbuf⟩ := write_rx h
    rw [Prompt.congr hqueue hbuf, read_prompt hread, hqueue₁, hbuf₁, hinput₁]
    rfl
  | unknown =>
    rw [hmsg] at h
    obtain rfl := Option.some.inj h
    exact iff_of_true hs trivial

end Operations

/-- In a run that does not fail no request that could be served is ever left waiting,
exactly when no message brings a request for no bytes to the front as the bytes run out. -/
theorem run_prompt_iff (b : Build) (uartId : ℕ) (replyBox : SendBox) (tidIntr : ℤ)
    {es : List Event} {s : State}
    (hrun : Run.run (step b) (State.new uartId replyBox tidIntr) es = some s) :
  Run.Meets (step b) (fun s e => ∀ s', step b s e = some s' → Prompt s')
      (State.new uartId replyBox tidIntr) es
    ↔ Run.Meets (step b) NotStarving (State.new uartId replyBox tidIntr) es
  := by
  apply Run.meets_iff_of_run _ _ hrun
  · intro s e s' hs h
    exact step_prompt_iff hs h
  · rintro req ⟨⟩

theorem run_prompt_iff_two :
  Run.Meets (step checkedBuild) (fun s e => ∀ s', step checkedBuild s e = some s' → Prompt s')
      uart1 [rxRequest 5 2, received 2]
    ↔ Run.Meets (step checkedBuild) NotStarving uart1 [rxRequest 5 2, received 2]
  := by
  obtain ⟨s, hs⟩ : ∃ s, Run.run (step checkedBuild) uart1 [rxRequest 5 2, received 2] = some s :=
    ⟨_, rfl⟩
  exact run_prompt_iff checkedBuild 1 _ 7 hs

/-- The first request is for no bytes, and it is left waiting. -/
theorem not_prompt_empty :
  ¬ Run.Meets (step checkedBuild) (fun s e => ∀ s', step checkedBuild s e = some s' → Prompt s')
    uart1 [rxRequest 5 0]
  := by
  intro h
  obtain ⟨s, hs, hbuf, hqueue⟩ : ∃ s, step checkedBuild uart1 (rxRequest 5 0) = some s
      ∧ s.rxBuf = [] ∧ s.rxQueue = [⟨5, 0⟩] :=
    ⟨_, rfl, rfl, rfl⟩
  have hlt := h.1 s hs ⟨5, 0⟩ (by rw [hqueue]; rfl)
  exact absurd hlt (Nat.not_lt_zero _)

end TrainsOs.Uart
