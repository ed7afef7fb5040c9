import TrainsOs.Uart.Server
import TrainsOs.Lib.Run

/-!
# The acknowledgement of blocking requests

The requests to transmit make up a stream of items: the bytes of each request, and after
those of a blocking one the release of its sender. The server works this stream off in its
order: what it has handed to the hardware, with the releases in between, and what waits in
`tx_buf` and `tx_queue` together are the stream, and the part that waits never starts with
a release.

The releases are found again by their positions, so each needs a position of its own that
is not reached yet. A blocking request without bytes has the position of the byte before
it.
-/

namespace TrainsOs.Uart

open MsgBox Bytes

/-- A byte to transmit, or the release of a sender. -/
inductive Item where
  | byte (ch : UInt8)
  | release (tid : ℤ)
deriving DecidableEq

/-- What a request asks for. -/
def Event.items (e : Event) : List Item :=
  match e.msg with
  | .rpiUartTxReq bytes => bytes.map .byte
  | .rpiUartTxBlockingReq bytes => bytes.map .byte ++ [.release e.sender]
  | _ => []

/-- The stream of a sequence of requests. -/
def stream (es : List Event) : List Item :=
  es.flatMap Event.items

/-- The items among the outputs. -/
def Output.item : Output → Option Item
  | .putc ch => some (.byte ch)
  | .sent tid => some (.release tid)
  | _ => none

/-- The part of the stream that is done. -/
def done (log : List Output) : List Item :=
  log.filterMap Output.item

/-- What is left of the stream: the bytes of `tx_buf`, the first of which is at position
`idx`, and each waiter of `tx_queue` after the byte that its end follows. -/
def pending : ℕ → List UInt8 → List TxReq → List Item
  | _, [], _ => []
  | idx, ch :: buf, [] => .byte ch :: pending (idx + 1) buf []
  | idx, ch :: buf, r :: queue =>
      if r.endAt = idx + 1 then
        .byte ch :: .release r.tid :: pending (idx + 1) buf queue
      else
        .byte ch :: pending (idx + 1) buf (r :: queue)

/-- The waiters are waiting for different bytes of `tx_buf`, in the order of these. -/
structure Marks (idx : ℕ) (buf : List UInt8) (queue : List TxReq) : Prop where
  increasing : queue.Pairwise fun r r' => r.endAt < r'.endAt
  after : ∀ r ∈ queue, idx < r.endAt
  within : ∀ r ∈ queue, r.endAt ≤ idx + buf.length

namespace Marks

variable {idx : ℕ} {ch : UInt8} {buf bytes : List UInt8} {r : TxReq} {queue : List TxReq}

/-- The first byte is sent, and its waiter is released. -/
theorem pop_waiter (h : Marks idx (ch :: buf) (r :: queue)) (hr : r.endAt = idx + 1) :
  Marks (idx + 1) buf queue
  := by
  have hinc := List.pairwise_cons.mp h.increasing
  constructor
  · exact hinc.2
  · intro r' hr'
    have hlt := hinc.1 r' hr'
    omega
  · intro r' hr'
    have hle := h.within r' (List.mem_cons_of_mem _ hr')
    rw [List.length_cons] at hle
    omega

/-- The first byte is sent, and nobody waits for it. -/
theorem pop (h : Marks idx (ch :: buf) queue) (hfirst : ∀ r ∈ queue.head?, r.endAt ≠ idx + 1) :
  Marks (idx + 1) buf queue
  := by
  constructor
  · exact h.increasing
  · intro r' hr'
    have hafter := h.after r' hr'
    cases queue with
    | nil => cases hr'
    | cons r queue =>
      have hne := hfirst r rfl
      have hr := h.after r List.mem_cons_self
      rcases List.mem_cons.mp hr' with rfl | hmem
      · omega
      · have hlt := (List.pairwise_cons.mp h.increasing).1 r' hmem
        omega
  · intro r' hr'
    have hle := h.within r' hr'
    rw [List.length_cons] at hle
    omega

/-- More bytes. -/
theorem append_bytes (h : Marks idx buf queue) (bytes : List UInt8) :
  Marks idx (buf ++ bytes) queue
  := by
  constructor
  · exact h.increasing
  · exact h.after
  · intro r hr
    have hle := h.within r hr
    rw [List.length_append]
    omega

/-- A waiter for the last byte, when nobody else waits for it. -/
theorem append_waiter (h : Marks idx buf queue) (hbuf : buf ≠ [])
    (hnew : ∀ r ∈ queue, r.endAt ≠ idx + buf.length) (tid : ℤ) :
  Marks idx buf (queue ++ [{ tid := tid, endAt := idx + buf.length }])
  := by
  have hpos := List.length_pos_of_ne_nil hbuf
  constructor
  · rw [List.pairwise_append]
    refine ⟨h.increasing, List.pairwise_singleton _ _, ?_⟩
    intro r hr r' hr'
    rw [List.mem_singleton] at hr'
    subst hr'
    have hle := h.within r hr
    have hne := hnew r hr
    dsimp only
    omega
  · intro r hr
    rcases List.mem_append.mp hr with hr | hr
    · exact h.after r hr
    · rw [List.mem_singleton] at hr
      subst hr
      dsimp only
      omega
  · intro r hr
    rcases List.mem_append.mp hr with hr | hr
    · exact h.within r hr
    · rw [List.mem_singleton] at hr
      subst hr
      exact le_rfl

end Marks

section Pending

variable {idx : ℕ} {ch : UInt8} {buf : List UInt8} {r : TxReq} {queue : List TxReq}

theorem pending_waiter (hr : r.endAt = idx + 1) :
  pending idx (ch :: buf) (r :: queue)
    = .byte ch :: .release r.tid :: pending (idx + 1) buf queue
  := by
  rw [pending, if_pos hr]

theorem pending_byte (hfirst : ∀ r ∈ queue.head?, r.endAt ≠ idx + 1) :
  pending idx (ch :: buf) queue = .byte ch :: pending (idx + 1) buf queue
  := by
  cases queue with
  | nil => rw [pending]
  | cons r queue => rw [pending, if_neg (hfirst r rfl)]

/-- More bytes go to the end of what is left. -/
theorem pending_append_bytes (h : Marks idx buf queue) (bytes : List UInt8) :
  pending idx (buf ++ bytes) queue = pending idx buf queue ++ bytes.map .byte
  := by
  induction buf generalizing idx queue with
  | nil =>
    have hqueue : queue = [] := by
      apply List.eq_nil_iff_forall_not_mem.mpr
      intro r hr
      have hlt := h.after r hr
      have hle := h.within r hr
      rw [List.length_nil] at hle
      omega
    subst hqueue
    clear h
    rw [List.nil_append, pending, List.nil_append]
    induction bytes generalizing idx with
    | nil => rfl
    | cons ch bytes ih => rw [pending, ih, List.map_cons]
  | cons ch buf ih =>
    by_cases hfirst : ∀ r ∈ queue.head?, r.endAt ≠ idx + 1
    · rw [List.cons_append, pending_byte hfirst, pending_byte hfirst, ih (h.pop hfirst)]
      rfl
    · push Not at hfirst
      obtain ⟨r, hr, hend⟩ := hfirst
      obtain ⟨queue, rfl⟩ := List.head?_eq_some_iff.mp hr
      rw [List.cons_append, pending_waiter hend, pending_waiter hend, ih (h.pop_waiter hend)]
      rfl

/-- A waiter for the last byte goes to the end of what is left. -/
theorem pending_append_waiter (h : Marks idx buf queue) (hbuf : buf ≠ [])
    (hnew : ∀ r ∈ queue, r.endAt ≠ idx + buf.length) (tid : ℤ) :
  pending idx buf (queue ++ [{ tid := tid, endAt := idx + buf.length }])
    = pending idx buf queue ++ [.release tid]
  := by
  induction buf generalizing idx queue with
  | nil => exact absurd rfl hbuf
  | cons ch buf ih =>
    rw [List.length_cons] at hnew ⊢
    have hnext : idx + (buf.length + 1) = idx + 1 + buf.length := by omega
    cases queue with
    | nil =>
      rw [List.nil_append, hnext]
      rcases List.eq_nil_or_concat buf with rfl | ⟨_, _, hbuf'⟩
      · rw [pending_waiter rfl]
        rfl
      · have hne : buf ≠ [] := by
          rw [hbuf']
          simp
        have hpos := List.length_pos_of_ne_nil hne
        rw [pending_byte, pending_byte (by simp), List.cons_append]
        · rw [← ih (h.pop (by simp)) hne (by simp), List.nil_append]
        · intro r hr
          obtain rfl := Option.some.inj hr
          dsimp only
          omega
    | cons r queue =>
      have hmem : r ∈ r :: queue := List.mem_cons_self
      by_cases hend : r.endAt = idx + 1
      · have hne : buf ≠ [] := by
          rintro rfl
          exact hnew r hmem hend
        rw [List.cons_append, pending_waiter hend, pending_waiter hend, hnext,
          ih (h.pop_waiter hend) hne]
        · rfl
        · intro r' hr'
          rw [← hnext]
          exact hnew r' (List.mem_cons_of_mem _ hr')
      · have hfirst : ∀ (l : List TxReq), ∀ r' ∈ (r :: l).head?, r'.endAt ≠ idx + 1 := by
          intro l r' hr'
          obtain rfl := Option.some.inj hr'
          exact hend
        have hlt := h.after r hmem
        have hle := h.within r hmem
        have hne : buf ≠ [] := by
          rintro rfl
          rw [List.length_singleton] at hle
          omega
        rw [List.cons_append, pending_byte (hfirst _), pending_byte (hfirst _), hnext,
          List.cons_append, ← ih (h.pop (hfirst _)) hne, List.cons_append]
        intro r' hr'
        rw [← hnext]
        exact hnew r' hr'

/-- What is left starts with the first byte of `tx_buf`. -/
theorem head_pending (idx : ℕ) (buf : List UInt8) (queue : List TxReq) :
  (pending idx buf queue).head? = buf.head?.map .byte
  := by
  fun_cases pending idx buf queue <;> rfl

end Pending

/-! ### The invariant -/

/-- The tasks in the queues. -/
def State.waiters (s : State) : Multiset ℤ :=
  (s.txQueue.map TxReq.tid : Multiset ℤ) + (s.rxQueue.map RxReq.tid : Multiset ℤ)

/-- The stream `items` is worked off in its order, and every task in a queue waits. -/
structure Inv (items : List Item) (s : State) : Prop where
  stream : items = done s.log ++ pending s.txIdx s.txBuf s.txQueue
  marks : Marks s.txIdx s.txBuf s.txQueue
  small : s.txIdx + s.txBuf.length < 2 ^ 64
  waiting : Waiting s.callers s.waiters
  rxLen : ∀ r ∈ s.rxQueue, r.len ≤ arrayCapacity rpiUartRxResp

section Operations

variable {b : Build} {items : List Item} {s : State} {tid : ℤ}

@[simp]
theorem done_append (log outs : List Output) :
  done (log ++ outs) = done log ++ done outs
  := List.filterMap_append

/-- `replyTx` to a task that waits. -/
theorem replyTx_spec {tids : Multiset ℤ} (output : Output)
    (hwait : Waiting s.callers (tid ::ₘ tids)) :
  ∃ box, s.replyTx tid output =
      some { s with replyBox := box, callers := s.callers.erase tid, log := s.log ++ [output] } ∧
    Waiting (s.callers.erase tid) tids
  := by
  have hbase : rpiUartTxResp.base ≤ defaultBoxSize := by decide
  obtain ⟨box, hbox⟩ := newMsg_eq hbase s.replyBox []
  obtain ⟨hreply, hwait'⟩ := hwait.reply
  use box
  constructor
  · rw [State.replyTx, hbox, Option.bind_eq_bind, Option.bind_some, State.reply]
    simp only [hreply]
    rfl
  · exact hwait'

/-- The next byte is handed to the hardware, and its waiter is released. -/
theorem release_inv {ch : UInt8} {buf : List UInt8} (hinv : Inv items s)
    (hbuf : s.txBuf = ch :: buf) (room : ℕ) :
  ∃ s', State.release { s with room := room, log := s.log ++ [.putc ch], txBuf := buf
                               txIdx := s.txIdx + 1 } = some s' ∧
    Inv items s' ∧ s'.txBuf = buf
  := by
  have hmarks := hinv.marks
  have hsmall := hinv.small
  have hstream := hinv.stream
  have hwait := hinv.waiting
  rw [hbuf] at hmarks hsmall hstream
  rw [List.length_cons] at hsmall
  have hsmall' : s.txIdx + 1 + buf.length < 2 ^ 64 := by omega
  rw [State.waiters] at hwait
  rw [State.release]
  cases hqueue : s.txQueue with
  | nil =>
    rw [hqueue] at hmarks hstream hwait
    refine ⟨_, rfl, ?_, rfl⟩
    constructor
    · rw [pending_byte (by simp)] at hstream
      rw [hstream, done_append, List.append_assoc]
      rfl
    · exact hmarks.pop (by simp)
    · exact hsmall'
    · exact hwait
    · exact hinv.rxLen
  | cons r queue =>
    rw [hqueue] at hmarks hstream hwait
    rw [List.map_cons, ← Multiset.cons_coe, Multiset.cons_add] at hwait
    by_cases hend : r.endAt = s.txIdx + 1
    · obtain ⟨box, hreply, hwait'⟩ := replyTx_spec (s :=
        { s with room := room, log := s.log ++ [.putc ch], txBuf := buf, txIdx := s.txIdx + 1
                 txQueue := queue }) (.sent r.tid) hwait
      dsimp only
      rw [if_pos hend, hreply]
      refine ⟨_, rfl, ?_, rfl⟩
      constructor
      · rw [pending_waiter hend] at hstream
        rw [hstream, done_append, done_append, List.append_assoc, List.append_assoc]
        rfl
      · exact hmarks.pop_waiter hend
      · exact hsmall'
      · exact hwait'
      · exact hinv.rxLen
    · have hfirst : ∀ r' ∈ (r :: queue).head?, r'.endAt ≠ s.txIdx + 1 := by
        intro r' hr'
        obtain rfl := Option.some.inj hr'
        exact hend
      dsimp only
      rw [if_neg hend]
      refine ⟨_, rfl, ?_, rfl⟩
      constructor
      · rw [pending_byte hfirst] at hstream
        rw [hstream, done_append, List.append_assoc]
        rfl
      · exact hmarks.pop hfirst
      · exact hsmall'
      · dsimp only [State.waiters]
        rw [List.map_cons, ← Multiset.cons_coe, Multiset.cons_add]
        exact hwait
      · exact hinv.rxLen

/-- `write` works off a part of the stream. -/
theorem write_inv (hinv : Inv items s) :
  ∃ s', s.write b = some s' ∧ Inv items s'
  := by
  rw [State.write]
  obtain ⟨buf, hbuf⟩ : ∃ buf, s.txBuf = buf := ⟨_, rfl⟩
  rw [hbuf]
  induction buf generalizing s with
  | nil => exact ⟨s, rfl, hinv⟩
  | cons ch buf ih =>
    rw [writeLoop]
    cases s.room with
    | zero =>
      refine ⟨_, rfl, ?_⟩
      constructor
      · rw [done_append, hinv.stream]
        simp [done, Output.item]
      · exact hinv.marks
      · exact hinv.small
      · exact hinv.waiting
      · exact hinv.rxLen
    | succ room =>
      have hsmall := hinv.small
      rw [hbuf, List.length_cons] at hsmall
      have hadd : b.arith.add 64 s.txIdx 1 = some (s.txIdx + 1) := if_pos (by omega)
      obtain ⟨s', hrelease, hinv', hbuf'⟩ := release_inv hinv hbuf room
      simp only [hadd, Option.bind_eq_bind, Option.bind_some, hrelease]
      exact ih hinv' hbuf'

/-- `replyRx` to the request in front. -/
theorem replyRx_inv {req : RxReq} {queue : List RxReq} (hinv : Inv items s)
    (hqueue : s.rxQueue = req :: queue) (hlen : req.len ≤ s.rxBuf.length) :
  ∃ s', State.replyRx b { s with rxQueue := queue } req = some s' ∧ Inv items s' ∧
    s'.rxQueue = queue
  := by
  have hwait := hinv.waiting
  have hrxLen := hinv.rxLen
  rw [hqueue] at hrxLen
  rw [State.waiters, hqueue, List.map_cons, ← Multiset.cons_coe, Multiset.add_cons] at hwait
  have hbase : rpiUartRxResp.base ≤ defaultBoxSize := by decide
  have hfit : (s.rxBuf.take req.len).length ≤ arrayCapacity rpiUartRxResp := by
    rw [List.length_take_of_le hlen]
    exact hrxLen req List.mem_cons_self
  obtain ⟨box, hbox⟩ := newArrayMsg_eq b "RpiUartRxResp" s.replyBox hbase hfit
  obtain ⟨hreply, hwait'⟩ := hwait.reply
  rw [State.replyRx]
  dsimp only
  rw [rpiUartRxResp, hbox, Option.bind_eq_bind, Option.bind_some, State.reply]
  simp only [hreply]
  refine ⟨_, rfl, ?_, rfl⟩
  constructor
  · rw [hinv.stream]
    simp [done, Output.item]
  · exact hinv.marks
  · exact hinv.small
  · exact hwait'
  · intro r hr
    exact hrxLen r (List.mem_cons_of_mem _ hr)

theorem serveLoop_inv (hinv : Inv items s) :
  ∃ s', serveLoop b s.rxQueue s = some s' ∧ Inv items s'
  := by
  obtain ⟨queue, hqueue⟩ : ∃ queue, s.rxQueue = queue := ⟨_, rfl⟩
  rw [hqueue]
  induction queue generalizing s with
  | nil => exact ⟨s, rfl, hinv⟩
  | cons req queue ih =>
    rw [serveLoop]
    split_ifs with hempty hlen
    · exact ⟨s, rfl, hinv⟩
    · exact ⟨s, rfl, hinv⟩
    · obtain ⟨s', hreply, hinv', hqueue'⟩ := replyRx_inv (b := b) hinv hqueue
        (Nat.not_lt.mp hlen)
      rw [hreply, Option.bind_eq_bind, Option.bind_some]
      exact ih hinv' hqueue'

/-- `read` leaves the stream alone. -/
theorem read_inv (hinv : Inv items s) (hroom : s.rxBuf.length + s.input.length ≤ rxBufCapacity) :
  ∃ s', s.read b = some s' ∧ Inv items s'
  := by
  rw [State.read, pushAll_eq hroom, Option.bind_eq_bind, Option.bind_some]
  apply serveLoop_inv
  constructor
  · rw [hinv.stream, done_append]
    have hgetc : done (s.input.map .getc) = [] := by
      simp [done, Output.item, List.filterMap_map, Function.comp_def]
    rw [hgetc, List.append_nil]
  · exact hinv.marks
  · exact hinv.small
  · exact hinv.waiting
  · exact hinv.rxLen

end Operations

/-! ### The messages -/

/-- The bytes of a request to transmit. -/
def Msg.bytes : Msg → List UInt8
  | .rpiUartTxReq bytes => bytes
  | .rpiUartTxBlockingReq bytes => bytes
  | _ => []

/-- The message is from a task that does not wait, the interrupts are reported by the
broker, and the capacities suffice. -/
structure Fits (s : State) (e : Event) : Prop where
  sender : e.sender ∉ s.callers
  recvBox : e.msg.inBox = true
  broker : ∀ uartId mis, e.msg = .rpiUartIntr uartId mis → e.sender = s.tidIntr
  rxBuf : s.rxBuf.length + e.input.length ≤ rxBufCapacity
  rxQueue : ∀ len, e.msg = .rpiUartRxReq len →
    s.rxQueue.length < rxQueueCapacity ∧ len ≤ arrayCapacity rpiUartRxResp
  txBuf : s.txBuf.length + e.msg.bytes.length ≤ txBufCapacity
  txIdx : s.txIdx + s.txBuf.length + e.msg.bytes.length < 2 ^ 64
  txQueue : ∀ bytes, e.msg = .rpiUartTxBlockingReq bytes → s.txQueue.length < txQueueCapacity

/-- A blocking request has bytes, or else there are some in `tx_buf` and nobody waits for
the last one. -/
def HasEnd (s : State) (e : Event) : Prop :=
  ∀ bytes, e.msg = .rpiUartTxBlockingReq bytes →
    bytes ≠ [] ∨ (s.txBuf ≠ [] ∧ ∀ r ∈ s.txQueue, r.endAt ≠ s.txIdx + s.txBuf.length)

section Messages

variable {b : Build} {items : List Item} {s : State} {e : Event}

theorem waiting_recv (hinv : Inv items s) (hfits : Fits s e) :
  Waiting (s.callers ++ [e.sender]) (e.sender ::ₘ s.waiters)
  := hinv.waiting.request hfits.sender

theorem handleRxReq_inv {len : ℕ} (hinv : Inv items s) (hfits : Fits s e)
    (hmsg : e.msg = .rpiUartRxReq len) :
  ∃ s', (s.recv e).handleRxReq b e.sender len = some s' ∧ Inv items s'
  := by
  obtain ⟨hroom, hlen⟩ := hfits.rxQueue len hmsg
  have hpush : pushBack rxQueueCapacity (s.recv e).rxQueue { tid := e.sender, len := len }
      = some (s.rxQueue ++ [{ tid := e.sender, len := len }]) := if_pos hroom
  rw [State.handleRxReq, hpush, Option.bind_eq_bind, Option.bind_some]
  apply read_inv _ hfits.rxBuf
  constructor
  · exact hinv.stream
  · exact hinv.marks
  · exact hinv.small
  · have hwait := waiting_recv hinv hfits
    rw [State.waiters, ← Multiset.add_cons, Multiset.cons_coe] at hwait
    rw [State.waiters, List.map_append, List.map_singleton,
      Multiset.coe_eq_coe.mpr (List.perm_append_singleton _ _)]
    exact hwait
  · intro r hr
    rcases List.mem_append.mp hr with hr | hr
    · exact hinv.rxLen r hr
    · rw [List.mem_singleton] at hr
      subst hr
      exact hlen

/-- A request that is replied to at once. -/
theorem handleTxReq_inv {bytes : List UInt8} (hinv : Inv items s) (hfits : Fits s e)
    (hmsg : e.msg = .rpiUartTxReq bytes) :
  ∃ s', (s.recv e).handleTxReq b e.sender bytes false = some s' ∧
    Inv (items ++ bytes.map .byte) s'
  := by
  have htxBuf := hfits.txBuf
  have htxIdx := hfits.txIdx
  rw [hmsg] at htxBuf htxIdx
  have hpush : pushAll txBufCapacity (s.recv e).txBuf bytes = some (s.txBuf ++ bytes) :=
    pushAll_eq htxBuf
  obtain ⟨box, hreply, hwait⟩ := replyTx_spec
    (s := { s.recv e with txBuf := s.txBuf ++ bytes }) (.acked e.sender)
    (waiting_recv hinv hfits)
  rw [State.handleTxReq, hpush, Option.bind_eq_bind, Option.bind_some]
  simp only [Bool.false_eq_true, if_false]
  rw [hreply, Option.bind_eq_bind, Option.bind_some]
  apply write_inv
  constructor
  · dsimp only [State.recv]
    rw [pending_append_bytes hinv.marks, hinv.stream]
    simp [done, Output.item]
  · exact hinv.marks.append_bytes bytes
  · dsimp only [State.recv]
    rw [List.length_append, ← Nat.add_assoc]
    exact htxIdx
  · exact hwait
  · exact hinv.rxLen

/-- A blocking request. -/
theorem handleTxBlockingReq_inv {bytes : List UInt8} (hinv : Inv items s) (hfits : Fits s e)
    (hend : HasEnd s e) (hmsg : e.msg = .rpiUartTxBlockingReq bytes) :
  ∃ s', (s.recv e).handleTxReq b e.sender bytes true = some s' ∧
    Inv (items ++ (bytes.map .byte ++ [.release e.sender])) s'
  := by
  have htxBuf := hfits.txBuf
  have htxIdx := hfits.txIdx
  rw [hmsg] at htxBuf htxIdx
  rw [Msg.bytes, Nat.add_assoc, ← List.length_append] at htxIdx
  have hpush : pushAll txBufCapacity (s.recv e).txBuf bytes = some (s.txBuf ++ bytes) :=
    pushAll_eq htxBuf
  have hadd : b.arith.add 64 (s.recv e).txIdx (s.txBuf ++ bytes).length
      = some (s.txIdx + (s.txBuf ++ bytes).length) := if_pos htxIdx
  have hqueue : pushBack txQueueCapacity (s.recv e).txQueue
      { tid := e.sender, endAt := s.txIdx + (s.txBuf ++ bytes).length }
      = some (s.txQueue ++ [{ tid := e.sender, endAt := s.txIdx + (s.txBuf ++ bytes).length }]) :=
    if_pos (hfits.txQueue bytes hmsg)
  -- the end of the request is a byte of `tx_buf` that nobody else waits for
  have hbuf : s.txBuf ++ bytes ≠ [] ∧
      ∀ r ∈ s.txQueue, r.endAt ≠ s.txIdx + (s.txBuf ++ bytes).length := by
    rcases hend bytes hmsg with hbytes | ⟨hne, hnew⟩
    · constructor
      · exact List.append_ne_nil_of_right_ne_nil _ hbytes
      · intro r hr
        have hle := hinv.marks.within r hr
        have hpos := List.length_pos_of_ne_nil hbytes
        rw [List.length_append]
        omega
    · rcases List.eq_nil_or_concat bytes with rfl | ⟨_, _, hbytes⟩
      · rw [List.append_nil]
        exact ⟨hne, hnew⟩
      · constructor
        · exact List.append_ne_nil_of_left_ne_nil hne _
        · intro r hr
          have hle := hinv.marks.within r hr
          have hpos : 0 < bytes.length := by
            rw [hbytes]
            simp
          rw [List.length_append]
          omega
  have hmarks := hinv.marks.append_bytes bytes
  rw [State.handleTxReq, hpush, Option.bind_eq_bind, Option.bind_some]
  simp only [if_true]
  simp only [hadd, Option.bind_eq_bind, Option.bind_some, hqueue]
  apply write_inv
  constructor
  · dsimp only [State.recv]
    rw [pending_append_waiter hmarks hbuf.1 hbuf.2, pending_append_bytes hinv.marks, hinv.stream]
    simp
  · exact hmarks.append_waiter hbuf.1 hbuf.2 e.sender
  · exact htxIdx
  · have hwait := waiting_recv hinv hfits
    rw [State.waiters, ← Multiset.cons_add, Multiset.cons_coe] at hwait
    rw [State.waiters, List.map_append, List.map_singleton,
      Multiset.coe_eq_coe.mpr (List.perm_append_singleton _ _)]
    exact hwait
  · exact hinv.rxLen

theorem rearm_inv (hinv : Inv items s) (hfits : Fits s e) {uartId mis : ℕ}
    (hmsg : e.msg = .rpiUartIntr uartId mis) :
  ∃ s', (s.recv e).rearm = some s' ∧ Inv items s' ∧ s'.rxBuf = s.rxBuf ∧ s'.input = e.input
  := by
  have hbase : rpiUartIntr.base ≤ defaultBoxSize := by decide
  obtain ⟨box, hbox⟩ := newMsg_eq hbase s.replyBox (u32Bytes s.uartId ++ u32Bytes 0)
  have hwait := waiting_recv hinv hfits
  rw [hfits.broker uartId mis hmsg] at hwait
  obtain ⟨hreply, hwait'⟩ := hwait.reply
  rw [State.rearm, State.recv]
  dsimp only
  rw [hbox, Option.bind_eq_bind, Option.bind_some, State.reply, hfits.broker uartId mis hmsg]
  simp only [hreply]
  refine ⟨_, rfl, ?_, rfl, rfl⟩
  constructor
  · rw [hinv.stream]
    simp [done, Output.item]
  · exact hinv.marks
  · exact hinv.small
  · exact hwait'
  · exact hinv.rxLen

/-- A message adds its items to the stream. -/
theorem step_inv (hinv : Inv items s) (hok : Fits s e ∧ HasEnd s e) :
  ∃ s', step b s e = some s' ∧ Inv (items ++ e.items) s'
  := by
  obtain ⟨hfits, hend⟩ := hok
  rw [step, if_pos hfits.recvBox, State.handle, Event.items]
  cases hmsg : e.msg with
  | rpiUartRxReq len =>
    rw [List.append_nil]
    exact handleRxReq_inv hinv hfits hmsg
  | rpiUartTxReq bytes => exact handleTxReq_inv hinv hfits hmsg
  | rpiUartTxBlockingReq bytes => exact handleTxBlockingReq_inv hinv hfits hend hmsg
  | rpiUartIntr uartId mis =>
    obtain ⟨s₁, hrearm, hinv₁, hrxBuf, hinput⟩ := rearm_inv hinv hfits hmsg
    have hroom := hfits.rxBuf
    rw [← hrxBuf, ← hinput] at hroom
    obtain ⟨s₂, hread, hinv₂⟩ := read_inv (b := b) hinv₁ hroom
    obtain ⟨s₃, hwrite, hinv₃⟩ := write_inv (b := b) hinv₂
    use s₃
    constructor
    · simp only [hrearm, hread, hwrite, Option.bind_eq_bind, Option.bind_some]
    · rw [List.append_nil]
      exact hinv₃
  | unknown =>
    refine ⟨_, rfl, ?_⟩
    rw [List.append_nil]
    constructor
    · exact hinv.stream
    · exact hinv.marks
    · exact hinv.small
    · exact (waiting_recv hinv hfits).forget
    · exact hinv.rxLen

end Messages

/-! ### Runs -/

/-- The blocking requests in `es` are acknowledged as they should: what is done is a part
of the stream in its order, and the rest starts with the first byte of `tx_buf`, so no
release is due. Those in `tx_queue` wait for a byte that is not sent yet. -/
structure Acknowledged (es : List Event) (s : State) : Prop where
  inOrder : ∃ rest, stream es = done s.log ++ rest ∧ rest.head? = s.txBuf.head?.map .byte
  waiting : ∀ r ∈ s.txQueue, s.txIdx < r.endAt

/-- In every run in which each blocking request has an end of its own, and the capacities
suffice, the requests are acknowledged as they should. -/
theorem tx_acknowledged (b : Build) (uartId : ℕ) (replyBox : SendBox) (tidIntr : ℤ)
    {es : List Event}
    (hes : Run.Meets (step b) (fun s e => Fits s e ∧ HasEnd s e)
      (State.new uartId replyBox tidIntr) es) :
  ∃ s, Run.run (step b) (State.new uartId replyBox tidIntr) es = some s ∧ Acknowledged es s
  := by
  have hinit : Inv (stream []) (State.new uartId replyBox tidIntr) := by
    constructor
    · rfl
    · exact ⟨List.Pairwise.nil, by simp [State.new], by simp [State.new]⟩
    · simp [State.new]
    · exact Waiting.nil
    · simp [State.new]
  have hstep : ∀ es s e, Inv (stream es) s → Fits s e ∧ HasEnd s e →
      ∃ s', step b s e = some s' ∧ Inv (stream (es ++ [e])) s' := by
    intro es s e hinv hok
    rw [stream, List.flatMap_append, List.flatMap_singleton]
    exact step_inv hinv hok
  obtain ⟨s, hrun, hinv⟩ := Run.run_history (P := fun es s => Inv (stream es) s) hstep hinit hes
  refine ⟨s, hrun, ?_, hinv.marks.after⟩
  exact ⟨_, hinv.stream, head_pending _ _ _⟩

/-- A build with checked arithmetic. -/
def checkedBuild : Build where
  arith := .checked
  slice := fun _ => []
  arrayDefault := []

/-- The server of UART 1 with the broker 7. -/
def uart1 : State :=
  State.new 1 { len := 0, sendBuf := fun _ => 0 } 7

/-- A blocking request of task `tid`, while the hardware has room for `room` bytes. -/
def txBlocking (tid : ℤ) (bytes : List UInt8) (room : ℕ) : Event where
  sender := tid
  msg := .rpiUartTxBlockingReq bytes
  room := room
  input := []

theorem fits_txBlocking {s : State} {tid : ℤ} {bytes : List UInt8} (room : ℕ)
    (hsender : tid ∉ s.callers) (hbytes : (Msg.rpiUartTxBlockingReq bytes).inBox = true)
    (hrx : s.rxBuf = [])
    (htx : s.txBuf.length + bytes.length ≤ txBufCapacity)
    (hidx : s.txIdx + s.txBuf.length + bytes.length < 2 ^ 64)
    (hqueue : s.txQueue.length < txQueueCapacity) :
  Fits s (txBlocking tid bytes room)
  := by
  constructor
  · exact hsender
  · exact hbytes
  · nofun
  · rw [hrx]
    exact Nat.zero_le _
  · nofun
  · exact htx
  · exact hidx
  · intro _ _
    exact hqueue

/-- Two requests, of which the hardware takes the first byte with the first one, and the
rest with the second one. -/
theorem tx_acknowledged_three :
  ∃ s, Run.run (step checkedBuild) uart1 [txBlocking 5 [65, 66] 1, txBlocking 6 [67] 16] = some s ∧
    Acknowledged [txBlocking 5 [65, 66] 1, txBlocking 6 [67] 16] s
  := by
  apply tx_acknowledged
  obtain ⟨s₁, hs₁, hcallers, hrx, htx, hidx, hqueue⟩ :
    ∃ s₁, step checkedBuild uart1 (txBlocking 5 [65, 66] 1) = some s₁ ∧ s₁.callers = [5] ∧
      s₁.rxBuf = [] ∧ s₁.txBuf = [66] ∧ s₁.txIdx = 1 ∧ s₁.txQueue.length = 1 :=
    ⟨_, rfl, rfl, rfl, rfl, rfl, rfl⟩
  apply Run.meets_cons _ hs₁
  · refine ⟨⟨?_, ?_⟩, fun _ _ => trivial⟩
    · apply fits_txBlocking
      · simp [hcallers]
      · rfl
      · exact hrx
      · rw [htx]
        decide
      · rw [htx, hidx]
        decide
      · rw [hqueue]
        decide
    · intro bytes hbytes
      cases hbytes
      exact Or.inl (List.cons_ne_nil _ _)
  · constructor
    · apply fits_txBlocking
      · simp [uart1, State.new]
      · rfl
      · rfl
      · decide
      · decide
      · decide
    · intro bytes hbytes
      cases hbytes
      exact Or.inl (List.cons_ne_nil _ _)

/-- A blocking request without bytes, and one with a byte: both fit, the byte is sent, and
neither task is released. -/
theorem tx_not_acknowledged :
  ∃ s, Run.Meets (step checkedBuild) Fits uart1 [txBlocking 5 [] 16, txBlocking 6 [67] 16] ∧
    Run.run (step checkedBuild) uart1 [txBlocking 5 [] 16, txBlocking 6 [67] 16] = some s ∧
    s.txBuf = [] ∧ done s.log = [.byte 67] ∧
    ¬ Acknowledged [txBlocking 5 [] 16, txBlocking 6 [67] 16] s
  := by
  obtain ⟨s₁, hs₁, hcallers, hrx, htx, hidx, hqueue, s, hs, htx', hdone⟩ :
    ∃ s₁, step checkedBuild uart1 (txBlocking 5 [] 16) = some s₁ ∧ s₁.callers = [5] ∧
      s₁.rxBuf = [] ∧ s₁.txBuf = [] ∧ s₁.txIdx = 0 ∧ s₁.txQueue.length = 1 ∧
      ∃ s, step checkedBuild s₁ (txBlocking 6 [67] 16) = some s ∧ s.txBuf = [] ∧
        done s.log = [.byte 67] :=
    ⟨_, rfl, rfl, rfl, rfl, rfl, rfl, _, rfl, rfl, rfl⟩
  refine ⟨s, ?_, ?_, htx', hdone, ?_⟩
  · apply Run.meets_cons _ hs₁
    · refine ⟨?_, fun _ _ => trivial⟩
      apply fits_txBlocking
      · simp [hcallers]
      · rfl
      · exact hrx
      · rw [htx]
        decide
      · rw [htx, hidx]
        decide
      · rw [hqueue]
        decide
    · apply fits_txBlocking
      · simp [uart1, State.new]
      · rfl
      · rfl
      · decide
      · decide
      · decide
  · rw [Run.run_cons hs₁, Run.run_cons hs, Run.run]
  · intro hack
    obtain ⟨rest, hstream, -⟩ := hack.inOrder
    rw [hdone] at hstream
    exact absurd (List.cons.inj hstream).1 (by decide)

end TrainsOs.Uart
