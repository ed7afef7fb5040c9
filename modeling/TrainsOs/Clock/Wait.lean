import TrainsOs.Clock.Server
import TrainsOs.Lib.Run

/-!
# The contract of waiting

The messages so far determine what is due: a request for `n > 0` ticks that arrives after
`k` messages of the notifier is due with message `k + n`. The heap holds the requests that
are not due yet, each with the value that `curtick` has when it is.
-/

namespace TrainsOs.Clock

open MsgBox

/-- The number of messages of the notifier. -/
def ticks (es : List Event) : ℕ :=
  es.countP fun e => match e.msg with
    | .clockNotifier => true
    | _ => false

/-- The tick for which a request waits that arrives after `n` ticks. -/
def Event.deadline (n : ℕ) (e : Event) : List (ℕ × ℤ) :=
  match e.msg with
  | .clockWaitReq k => if k = 0 then [] else [(n + k, e.sender)]
  | _ => []

/-- The ticks for which the requests in `es` wait, when `n` ticks were before. -/
def deadlines : ℕ → List Event → List (ℕ × ℤ)
  | _, [] => []
  | n, e :: es => e.deadline n ++ deadlines (n + ticks [e]) es

/-- The tasks whose requests are due with tick `n`. -/
def due (es : List Event) (n : ℕ) : List ℤ :=
  ((deadlines 0 es).filter fun d => d.1 = n).map Prod.snd

/-- The requests that are not due yet. -/
def waiting (es : List Event) : List (ℕ × ℤ) :=
  (deadlines 0 es).filter fun d => ticks es < d.1

/-- What the server has to do with the message `e` after the messages `es`, when the timer
was at `t₀` at its start. -/
def Serves (t₀ : ℕ) (es : List Event) (e : Event) (out : List Output) : Prop :=
  match e.msg with
  | .clockNotifier =>
      ∃ tids : List ℤ, tids.Perm (due es (ticks es + 1)) ∧
        out = [.clockNotifier e.sender, .arm ((t₀ + (ticks es + 1) * quantum) % 2 ^ 32)]
          ++ tids.map .clockWaitResp
  | .clockWaitReq n => out = if n = 0 then [.clockWaitResp e.sender] else []
  | .clockCurTickReq => out = [.clockCurTickResp e.sender (ticks es % 2 ^ 64)]
  | .unknown => out = []

theorem ticks_append (es es' : List Event) :
  ticks (es ++ es') = ticks es + ticks es'
  := List.countP_append

theorem deadlines_append (n : ℕ) (es : List Event) (e : Event) :
  deadlines n (es ++ [e]) = deadlines n es ++ e.deadline (n + ticks es)
  := by
  induction es generalizing n with
  | nil => simp [deadlines, ticks]
  | cons e' es ih =>
    have hticks : ticks (e' :: es) = ticks [e'] + ticks es := ticks_append [e'] es
    rw [List.cons_append, deadlines, ih, deadlines, List.append_assoc, hticks, Nat.add_assoc]

/-! ### The loop -/

section Loop

variable {H : MinHeap WaitReq heapCapacity} {s : State H}

theorem clockNotifier_fits :
  clockNotifier.base ≤ defaultBoxSize
  := by decide

theorem clockWaitResp_fits :
  clockWaitResp.base ≤ defaultBoxSize
  := by decide

theorem clockCurTickResp_fits :
  clockCurTickResp.base ≤ defaultBoxSize
  := by decide

theorem reply_spec {ty : MsgType} {tid : ℤ} {tids : Multiset ℤ}
    (hty : ty.base ≤ defaultBoxSize) (contents : List UInt8) (output : Output)
    (hwait : Waiting s.callers (tid ::ₘ tids)) :
  ∃ box, s.reply ty contents tid output =
      some { s with sendBox := box, callers := s.callers.erase tid, out := s.out ++ [output] } ∧
    Waiting (s.callers.erase tid) tids
  := by
  obtain ⟨box, hbox⟩ := newMsg_eq hty s.sendBox contents
  obtain ⟨hreply, hwait'⟩ := hwait.reply
  use box
  constructor
  · rw [State.reply, hbox, hreply]
    rfl
  · exact hwait'

/-- The tasks in the heap. -/
def State.waiters (s : State H) : Multiset ℤ :=
  (H.items s.heap).map WaitReq.tid

/-- What the loop does: it replies to those whose tick is reached, in some order. -/
structure Woken (s s' : State H) (tids : List ℤ) : Prop where
  t : s'.t = s.t
  curtick : s'.curtick = s.curtick
  woken : (tids : Multiset ℤ)
    = ((H.items s.heap).filter fun w => w.until ≤ s.curtick).map WaitReq.tid
  heap : H.items s'.heap = (H.items s.heap).filter fun w => ¬ w.until ≤ s.curtick
  out : s'.out = s.out ++ tids.map .clockWaitResp

theorem wakeLoop_spec (fuel : ℕ) (hfuel : (H.items s.heap).card < fuel)
    (hwait : Waiting s.callers s.waiters) :
  ∃ s' tids, wakeLoop fuel s = some s' ∧ Woken s s' tids ∧ Waiting s'.callers s'.waiters
  := by
  induction fuel generalizing s with
  | zero => exact absurd hfuel (Nat.not_lt_zero _)
  | succ fuel ih =>
    have hstop : (∀ w ∈ H.peek s.heap, ¬ w.until ≤ s.curtick) → Woken s s [] := by
      intro hpeek
      have hnone := H.filter_of_peek (p := fun w => w.until ≤ s.curtick)
        (fun w w' hle hw' => Nat.le_trans (until_le_of_le hle) hw') hpeek
      constructor
      · rfl
      · rfl
      · rw [hnone]
        rfl
      · rw [eq_comm, Multiset.filter_eq_self]
        exact Multiset.filter_eq_nil.mp hnone
      · rw [List.map_nil, List.append_nil]
    rw [wakeLoop]
    cases hpeek : H.peek s.heap with
    | none =>
      refine ⟨s, [], rfl, hstop ?_, hwait⟩
      rw [hpeek]
      nofun
    | some w =>
      by_cases hw : w.until ≤ s.curtick
      · obtain ⟨heap, hpop, hitems⟩ := H.pop_spec s.heap w hpeek
        rw [State.waiters, hitems, Multiset.map_cons] at hwait
        obtain ⟨box, hreply, hwait'⟩ := reply_spec (s := { s with heap := heap })
          clockWaitResp_fits [] (.clockWaitResp w.tid) hwait
        rw [hitems, Multiset.card_cons] at hfuel
        obtain ⟨s', tids, hloop, hwoken, hwait''⟩ := ih (s :=
          { s with heap := heap, sendBox := box, callers := s.callers.erase w.tid
                   out := s.out ++ [.clockWaitResp w.tid] }) (Nat.lt_of_succ_lt_succ hfuel) hwait'
        refine ⟨s', w.tid :: tids, ?_, ?_, hwait''⟩
        · simp only [if_pos hw, hpop, Option.bind_eq_bind, Option.bind_some]
          rw [hreply, Option.bind_some, hloop]
        · constructor
          · exact hwoken.t
          · exact hwoken.curtick
          · rw [hitems,
              Multiset.filter_cons_of_pos (p := fun w : WaitReq => w.until ≤ s.curtick) _ hw,
              Multiset.map_cons, ← Multiset.cons_coe, hwoken.woken]
          · rw [hitems, hwoken.heap,
              Multiset.filter_cons_of_neg (p := fun w : WaitReq => ¬ w.until ≤ s.curtick) _
                (not_not_intro hw)]
          · rw [hwoken.out, List.append_assoc]
            rfl
      · refine ⟨s, [], if_neg hw, hstop ?_, hwait⟩
        rw [hpeek]
        intro w' hw'
        obtain rfl := Option.some.inj hw'
        exact hw

end Loop

/-! ### The invariant -/

/-- The entry of the heap for a request that is due with tick `d.1`, when there were `n`
ticks so far. -/
def entry (n : ℕ) (d : ℕ × ℤ) : WaitReq where
  «until» := d.1 - 2 ^ 64 * (n / 2 ^ 64)
  tid := d.2

section Messages

variable {H : MinHeap WaitReq heapCapacity} {t₀ : ℕ} {es : List Event} {s : State H} {e : Event}

/-- The heap holds what is not due yet, before `curtick` wraps. -/
structure Inv (t₀ : ℕ) (es : List Event) (s : State H) : Prop where
  curtick : s.curtick = ticks es % 2 ^ 64
  t : s.t % 2 ^ 64 = (t₀ + ticks es * quantum) % 2 ^ 64
  heap : H.items s.heap = ((waiting es).map (entry (ticks es)) : Multiset WaitReq)
  inTime : ∀ d ∈ waiting es, d.1 < 2 ^ 64 * (ticks es / 2 ^ 64) + 2 ^ 64
  waiting : Waiting s.callers s.waiters

/-- The message is from a task that does not wait, and a request to wait is for a tick that
`curtick` can reach, with room in the heap. -/
structure Fits (s : State H) (e : Event) : Prop where
  sender : e.sender ∉ s.callers
  ticks : ∀ n, e.msg = .clockWaitReq n → s.curtick + n < 2 ^ 64
  heap : ∀ n, e.msg = .clockWaitReq n → n ≠ 0 → (H.items s.heap).card < heapCapacity

theorem mem_waiting {d : ℕ × ℤ} (hd : d ∈ waiting es) :
  ticks es < d.1
  := by
  have h := (List.mem_filter.mp hd).2
  exact of_decide_eq_true h

theorem ticks_notifier (es : List Event) (hmsg : e.msg = .clockNotifier) :
  ticks (es ++ [e]) = ticks es + 1
  := by
  rw [ticks_append, ticks, ticks, List.countP_singleton]
  simp [hmsg]

theorem ticks_other (es : List Event) (hmsg : e.msg ≠ .clockNotifier) :
  ticks (es ++ [e]) = ticks es
  := by
  rw [ticks_append, ticks, ticks, List.countP_singleton]
  cases h : e.msg with
  | clockNotifier => exact absurd h hmsg
  | _ => simp

/-- The entries that are reached with the next tick are those of the requests due then. -/
theorem until_le_iff (hinv : Inv t₀ es s) {d : ℕ × ℤ} (hd : d ∈ waiting es) :
  (entry (ticks es) d).until ≤ (ticks es + 1) % 2 ^ 64 ↔ d.1 = ticks es + 1
  := by
  have hlt := mem_waiting hd
  have hbound := hinv.inTime d hd
  rw [entry]
  dsimp only
  omega

/-- Those that are not reached do not notice that `curtick` wraps. -/
theorem entry_succ (hinv : Inv t₀ es s) {d : ℕ × ℤ} (hd : d ∈ waiting es) :
  entry (ticks es) d = entry (ticks es + 1) d ∧
    2 ^ 64 * (ticks es / 2 ^ 64) = 2 ^ 64 * ((ticks es + 1) / 2 ^ 64)
  := by
  have hlt := mem_waiting hd
  have hbound := hinv.inTime d hd
  have hdiv : 2 ^ 64 * (ticks es / 2 ^ 64) = 2 ^ 64 * ((ticks es + 1) / 2 ^ 64) := by omega
  rw [entry, entry, hdiv]
  exact ⟨rfl, rfl⟩

/-- With a tick, those who are due leave. -/
theorem waiting_tick (hmsg : e.msg = .clockNotifier) :
  waiting (es ++ [e]) = (waiting es).filter fun d => ¬ d.1 = ticks es + 1
  := by
  have hdeadline : e.deadline (0 + ticks es) = [] := by
    rw [Event.deadline]
    simp [hmsg]
  rw [waiting, waiting, ticks_notifier es hmsg, deadlines_append, hdeadline, List.append_nil,
    List.filter_filter]
  apply List.filter_congr
  intro d _
  rw [← Bool.decide_and]
  apply decide_eq_decide.mpr
  omega

/-- The entries that are reached. -/
theorem filter_until (hinv : Inv t₀ es s) :
  (H.items s.heap).filter (fun w => w.until ≤ (ticks es + 1) % 2 ^ 64)
    = (((waiting es).filter fun d => d.1 = ticks es + 1).map (entry (ticks es)) : Multiset WaitReq)
  := by
  rw [hinv.heap, Multiset.filter_coe, List.filter_map]
  congr 2
  apply List.filter_congr
  intro d hd
  exact decide_eq_decide.mpr (until_le_iff hinv hd)

theorem filter_not_until (hinv : Inv t₀ es s) (hmsg : e.msg = .clockNotifier) :
  (H.items s.heap).filter (fun w => ¬ w.until ≤ (ticks es + 1) % 2 ^ 64)
    = ((waiting (es ++ [e])).map (entry (ticks es + 1)) : Multiset WaitReq)
  := by
  rw [hinv.heap, Multiset.filter_coe, List.filter_map, waiting_tick hmsg]
  have hfilter : (waiting es).filter ((fun w => decide (¬ w.until ≤ (ticks es + 1) % 2 ^ 64)) ∘
      entry (ticks es)) = (waiting es).filter fun d => ¬ d.1 = ticks es + 1 := by
    apply List.filter_congr
    intro d hd
    exact decide_eq_decide.mpr (not_congr (until_le_iff hinv hd))
  rw [hfilter]
  congr 1
  apply List.map_congr_left
  intro d hd
  exact (entry_succ hinv (List.mem_filter.mp hd).1).1

/-- The tasks whose requests are due. -/
theorem map_due :
  ((waiting es).filter fun d => d.1 = ticks es + 1).map Prod.snd = due es (ticks es + 1)
  := by
  rw [due, waiting, List.filter_filter]
  congr 1
  apply List.filter_congr
  intro d _
  rw [← Bool.decide_and]
  apply decide_eq_decide.mpr
  omega

/-- A tick releases those who are due. -/
theorem handleNotifier_inv (hinv : Inv t₀ es s) (hfits : Fits s e)
    (hmsg : e.msg = .clockNotifier) :
  ∃ s', (s.recv e).handleNotifier e.sender = some s' ∧ Inv t₀ (es ++ [e]) s' ∧
    Serves t₀ es e s'.out
  := by
  have hticks := ticks_notifier es hmsg
  have hcurtick : ((s.recv e).curtick + 1) % 2 ^ 64 = (ticks es + 1) % 2 ^ 64 := by
    rw [State.recv, hinv.curtick, Nat.mod_add_mod]
  have ht : ((s.recv e).t + quantum) % 2 ^ 64 = (t₀ + (ticks es + 1) * quantum) % 2 ^ 64 := by
    rw [State.recv, ← Nat.mod_add_mod, hinv.t, Nat.mod_add_mod, Nat.add_mul, Nat.one_mul,
      Nat.add_assoc]
  obtain ⟨box, hreply, hwait⟩ := reply_spec (s := s.recv e) clockNotifier_fits []
    (.clockNotifier e.sender) (hinv.waiting.request hfits.sender)
  rw [State.handleNotifier, hreply, Option.bind_eq_bind, Option.bind_some]
  dsimp only
  rw [hcurtick, ht]
  obtain ⟨s', tids, hloop, hwoken, hwait'⟩ := wakeLoop_spec
    (s := { s.recv e with
      sendBox := box, callers := (s.recv e).callers.erase e.sender
      out := (s.recv e).out ++ [.clockNotifier e.sender] ++
        [Output.arm ((t₀ + (ticks es + 1) * quantum) % 2 ^ 64 % 2 ^ 32)]
      t := (t₀ + (ticks es + 1) * quantum) % 2 ^ 64
      curtick := (ticks es + 1) % 2 ^ 64 })
    (heapCapacity + 1) (Nat.lt_succ_of_le (H.card_le s.heap)) hwait
  refine ⟨s', hloop, ?_, ?_⟩
  · constructor
    · rw [hwoken.curtick, hticks]
    · rw [hwoken.t, hticks, Nat.mod_mod]
    · rw [hwoken.heap, hticks]
      dsimp only [State.recv]
      exact filter_not_until hinv hmsg
    · intro d hd
      rw [waiting_tick hmsg] at hd
      obtain ⟨hd, -⟩ := List.mem_filter.mp hd
      rw [hticks, ← (entry_succ hinv hd).2]
      exact hinv.inTime d hd
    · exact hwait'
  · rw [Serves, hmsg]
    refine ⟨tids, ?_, ?_⟩
    · rw [← Multiset.coe_eq_coe, hwoken.woken, ← map_due]
      dsimp only [State.recv]
      rw [filter_until hinv, Multiset.map_coe, List.map_map]
      rfl
    · rw [hwoken.out, State.recv, List.nil_append, Nat.mod_mod_of_dvd _ (by decide)]
      rfl

/-- A request to wait for some ticks. -/
theorem waiting_request {n : ℕ} (hn : n ≠ 0) (hmsg : e.msg = .clockWaitReq n) :
  waiting (es ++ [e]) = waiting es ++ [(ticks es + n, e.sender)]
  := by
  have hdeadline : e.deadline (0 + ticks es) = [(ticks es + n, e.sender)] := by
    rw [Event.deadline]
    simp [hmsg, hn]
  rw [waiting, waiting, ticks_other es (by simp [hmsg]), deadlines_append, hdeadline,
    List.filter_append, List.filter_singleton]
  have hlt : ticks es < ticks es + n := by omega
  simp [hlt]

/-- Any other message leaves what is waiting alone. -/
theorem waiting_other (hmsg : e.msg ≠ .clockNotifier) (hzero : e.deadline (ticks es) = []) :
  waiting (es ++ [e]) = waiting es
  := by
  rw [waiting, waiting, ticks_other es hmsg, deadlines_append, Nat.zero_add, hzero,
    List.append_nil]

theorem handleWaitReq_inv {n : ℕ} (hinv : Inv t₀ es s) (hfits : Fits s e) (hn : n ≠ 0)
    (hmsg : e.msg = .clockWaitReq n) :
  ∃ s', (s.recv e).handleWaitReq e.sender n = some s' ∧ Inv t₀ (es ++ [e]) s' ∧
    Serves t₀ es e s'.out
  := by
  have hticks := ticks_other es (e := e) (by simp [hmsg])
  have hlt := hfits.ticks n hmsg
  obtain ⟨heap, hpush, hitems⟩ := H.push_spec s.heap
    { «until» := (s.curtick + n) % 2 ^ 64, tid := e.sender } (hfits.heap n hmsg hn)
  have hentry : ({ «until» := (s.curtick + n) % 2 ^ 64, tid := e.sender } : WaitReq)
      = entry (ticks es) (ticks es + n, e.sender) := by
    have hcurtick := hinv.curtick
    apply WaitReq.ext
    · rw [Nat.mod_eq_of_lt hlt, entry]
      dsimp only
      omega
    · rfl
  rw [State.handleWaitReq, if_neg hn]
  dsimp only [State.recv]
  rw [hpush, Option.bind_eq_bind, Option.bind_some]
  refine ⟨_, rfl, ?_, ?_⟩
  · constructor
    · rw [hticks]
      exact hinv.curtick
    · rw [hticks]
      exact hinv.t
    · rw [hitems, waiting_request hn hmsg, hticks, hinv.heap, hentry, List.map_append,
        List.map_singleton, Multiset.coe_eq_coe.mpr (List.perm_append_singleton _ _),
        Multiset.cons_coe]
    · intro d hd
      rw [waiting_request hn hmsg, List.mem_append, List.mem_singleton] at hd
      rw [hticks]
      rcases hd with hd | rfl
      · exact hinv.inTime d hd
      · have hcurtick := hinv.curtick
        dsimp only
        omega
    · have hwait := hinv.waiting.request hfits.sender
      rw [State.waiters, hitems, Multiset.map_cons]
      exact hwait
  · rw [Serves, hmsg]
    exact (if_neg hn).symm

/-- The server replies at once, or to an unknown message not at all. -/
theorem reply_inv {s' : State H} (hinv : Inv t₀ es s) (hmsg : e.msg ≠ .clockNotifier)
    (hzero : e.deadline (ticks es) = []) (ht : s'.t = s.t) (hcurtick : s'.curtick = s.curtick)
    (hheap : s'.heap = s.heap) (hwait : Waiting s'.callers s.waiters) :
  Inv t₀ (es ++ [e]) s'
  := by
  have hticks := ticks_other es hmsg
  have hwaiting := waiting_other hmsg hzero
  constructor
  · rw [hcurtick, hticks]
    exact hinv.curtick
  · rw [ht, hticks]
    exact hinv.t
  · rw [hheap, hwaiting, hticks]
    exact hinv.heap
  · rw [hwaiting, hticks]
    exact hinv.inTime
  · rw [State.waiters, hheap]
    exact hwait

/-- One message. -/
theorem step_inv (hinv : Inv t₀ es s) (hfits : Fits s e) :
  ∃ s', step s e = some s' ∧ Inv t₀ (es ++ [e]) s' ∧ Serves t₀ es e s'.out
  := by
  have hrequest := hinv.waiting.request hfits.sender
  rw [step]
  cases hmsg : e.msg with
  | clockNotifier => exact handleNotifier_inv hinv hfits hmsg
  | clockWaitReq n =>
    by_cases hn : n = 0
    · obtain ⟨box, hreply, hwait⟩ := reply_spec (s := s.recv e) clockWaitResp_fits []
        (.clockWaitResp e.sender) hrequest
      dsimp only
      rw [State.handleWaitReq, if_pos hn, hreply]
      refine ⟨_, rfl, ?_, ?_⟩
      · refine reply_inv hinv ?_ ?_ rfl rfl rfl hwait
        · simp [hmsg]
        · simp [Event.deadline, hmsg, hn]
      · rw [Serves, hmsg]
        exact (if_pos hn).symm
    · exact handleWaitReq_inv hinv hfits hn hmsg
  | clockCurTickReq =>
    obtain ⟨box, hreply, hwait⟩ := reply_spec (s := s.recv e) clockCurTickResp_fits
      (u64Bytes s.curtick) (.clockCurTickResp e.sender s.curtick) hrequest
    refine ⟨_, hreply, ?_, ?_⟩
    · refine reply_inv hinv ?_ ?_ rfl rfl rfl hwait
      · simp [hmsg]
      · simp [Event.deadline, hmsg]
    · rw [Serves, hmsg, ← hinv.curtick]
      rfl
  | unknown =>
    refine ⟨_, rfl, ?_, ?_⟩
    · refine reply_inv hinv ?_ ?_ rfl rfl rfl hrequest.forget
      · simp [hmsg]
      · simp [Event.deadline, hmsg]
    · rw [Serves, hmsg]
      rfl

end Messages

/-! ### Runs -/

/-- After the messages `es` the server does with `e` what it has to, and `curtick`, a word
of 64 bits, is the number of messages of the notifier. -/
theorem clock_serves (H : MinHeap WaitReq heapCapacity) (t₀ : ℕ) (sendBox : SendBox)
    {es : List Event} {e : Event}
    (h : Run.Meets step Fits (State.new H t₀ sendBox) (es ++ [e])) :
  ∃ s s', Run.run step (State.new H t₀ sendBox) es = some s ∧ step s e = some s' ∧
    Serves t₀ es e s'.out ∧ s'.curtick = ticks (es ++ [e]) % 2 ^ 64
  := by
  have hinit : Inv t₀ [] (State.new H t₀ sendBox) := by
    constructor
    · rfl
    · rfl
    · exact H.items_new
    · nofun
    · rw [State.waiters, State.new, H.items_new]
      exact Waiting.nil
  obtain ⟨hes, he⟩ := h.of_append
  obtain ⟨s, hrun, hinv⟩ := Run.run_history (P := fun es s => Inv t₀ es s)
    (fun es s e hinv hfits => by
      obtain ⟨s', hstep, hinv', -⟩ := step_inv hinv hfits
      exact ⟨s', hstep, hinv'⟩) hinit hes
  obtain ⟨s', hstep, hinv', hserves⟩ := step_inv hinv (he s hrun).1
  exact ⟨s, s', hrun, hstep, hserves, hinv'.curtick⟩

theorem fits_notifier {H : MinHeap WaitReq heapCapacity} {s : State H} {tid : ℤ}
    (hsender : tid ∉ s.callers) :
  Fits s { sender := tid, msg := .clockNotifier }
  := ⟨hsender, nofun, nofun⟩

theorem fits_waitReq {H : MinHeap WaitReq heapCapacity} {s : State H} {tid : ℤ} {n : ℕ}
    (hsender : tid ∉ s.callers) (hn : s.curtick + n < 2 ^ 64)
    (hheap : (H.items s.heap).card < heapCapacity) :
  Fits s { sender := tid, msg := .clockWaitReq n }
  := by
  constructor
  · exact hsender
  · rintro n ⟨⟩
    exact hn
  · rintro n ⟨⟩ _
    exact hheap

/-- Task 5 waits for two ticks, and after the first one task 6 for one more. The second
tick is the one they wait for. -/
theorem clock_serves_two :
  ∃ s s', Run.run step (State.new (MinHeap.sortedList _ _) 100 { len := 0, sendBuf := fun _ => 0 })
      [⟨5, .clockWaitReq 2⟩, ⟨9, .clockNotifier⟩, ⟨6, .clockWaitReq 1⟩] = some s ∧
    step s ⟨9, .clockNotifier⟩ = some s' ∧
    Serves 100 [⟨5, .clockWaitReq 2⟩, ⟨9, .clockNotifier⟩, ⟨6, .clockWaitReq 1⟩]
      ⟨9, .clockNotifier⟩ s'.out ∧
    s'.curtick = ticks ([⟨5, .clockWaitReq 2⟩, ⟨9, .clockNotifier⟩, ⟨6, .clockWaitReq 1⟩]
      ++ [⟨9, .clockNotifier⟩]) % 2 ^ 64
  := by
  apply clock_serves
  obtain ⟨s₁, hs₁, hcallers₁, s₂, hs₂, hcallers₂, hcurtick₂, hheap₂, s₃, hs₃, hcallers₃⟩ :
    ∃ s₁, step (State.new (MinHeap.sortedList _ _) 100 { len := 0, sendBuf := fun _ => 0 })
        ⟨5, .clockWaitReq 2⟩ = some s₁ ∧ s₁.callers = [5] ∧
      ∃ s₂, step s₁ ⟨9, .clockNotifier⟩ = some s₂ ∧ s₂.callers = [5] ∧ s₂.curtick = 1 ∧
        s₂.heap.val.length = 1 ∧
      ∃ s₃, step s₂ ⟨6, .clockWaitReq 1⟩ = some s₃ ∧ s₃.callers = [5, 6] :=
    ⟨_, rfl, rfl, _, rfl, rfl, rfl, rfl, _, rfl, rfl⟩
  apply Run.meets_cons _ hs₁
  · apply Run.meets_cons _ hs₂
    · apply Run.meets_cons _ hs₃
      · refine ⟨?_, fun _ _ => trivial⟩
        apply fits_notifier
        simp [hcallers₃]
      · apply fits_waitReq
        · simp [hcallers₂]
        · rw [hcurtick₂]
          decide
        · change s₂.heap.val.length < heapCapacity
          rw [hheap₂]
          decide
    · apply fits_notifier
      simp [hcallers₁]
  · apply fits_waitReq
    · simp [State.new]
    · decide
    · decide

end TrainsOs.Clock
