import TrainsOs.Kernel.Turns
import TrainsOs.Clock.Armed

/-!
# The clock server and its notifier

The server of `clock_server.rs` and the notifier of `clock_notifier.rs` as tasks of the
kernel. The kernel takes its steps, among them the interrupts and the system calls of all
tasks; the server performs its operations when it runs, and the notifier goes on after its
calls. The other tasks do what they like.

An interrupt of the timer wakes the notifier if it waits for one by then. Otherwise nobody
is told of it.
-/

namespace TrainsOs.Clock

open MsgBox Bytes

/-- Where the notifier is in its loop: in front of `ker_send`, in it, in front of
`ker_await_clock`, or in it; or in its panic handler. -/
inductive NotifierPc where
  | send
  | sending
  | await
  | awaiting
  | panicked

variable {H : MinHeap WaitReq heapCapacity} {A : Type}

variable (H) in
/-- The server handles a message, with nothing left to do when it is between two; or it is
in `ker_recv`, with the `tid` of the sender when a message has been taken; or it has
exited. -/
inductive ServerPc where
  | runs (program : Program (Locals H))
  | receives (l : Locals H) (sender : Option ℤ)
  | exited

/-- The two tasks. -/
structure Tasks where
  server : TdPtr
  notifier : TdPtr
  serverTid : ℤ
  notifierTid : ℤ

variable (H) in
/-- The kernel, the compare value for which the timer has not interrupted yet, and the two
tasks. -/
structure Sys (A : Type) where
  kernel : Kernel A
  compare : Option ℕ
  server : ServerPc H
  notifier : NotifierPc

/-- An action of the kernel, the write of the server to the timer, the return of the server
from `ker_recv` and the return of the notifier from a call. -/
inductive Action where
  | kernel (a : Act)
  | arm
  | receive (msg : Msg)
  | resume

/-- The value that a call returns, an `int`, is not negative. -/
def retOk (v : BitVec 64) : Bool :=
  0 ≤ (v.setWidth 32).toInt

theorem retOk_ofNat {n : ℕ} (h : n < 2 ^ 31) :
  retOk (BitVec.ofNat 64 n) = true
  := by
  have hvalue : ((BitVec.ofNat 64 n).setWidth 32).toNat = n := by
    rw [BitVec.toNat_setWidth, BitVec.toNat_ofNat]
    omega
  apply decide_eq_true
  rw [BitVec.toInt_eq_toNat_of_lt]
  · exact Int.natCast_nonneg _
  · rw [hvalue]
    omega

/-! ### System calls -/

/-- The calls that the program of the server makes. Printing is possible anywhere, and the
length of a reply is an `int`. -/
def ServerPc.Makes : ServerPc H → Call → Prop
  | .exited, _ => True
  | .runs _, .other _ => True
  | .runs (.pure _), .recv _ _ _ => True
  | .runs (.op (.reply tid) _), .reply tid' _ rplen => tid' = tid ∧ rplen < 2 ^ 31
  | .runs (.op .exit _), .exit => True
  | _, _ => False

/-- The calls that the program of the notifier makes. Its panic handler prints and exits,
and then its descriptor may become that of another task. -/
def NotifierPc.Makes (t : Tasks) : NotifierPc → Call → Prop
  | .send, .send tid _ _ _ _ => tid = t.serverTid
  | .await, .awaitEvent intrId => intrId = intrIdTimer
  | .panicked, _ => True
  | _, _ => False

/-- The server after its call, which has led from `k` to `k'`. -/
def ServerPc.call (p : TdPtr) (k k' : Kernel A) : ServerPc H → Call → ServerPc H
  | .runs (.pure l), .recv _ _ _ => .receives l ((k.queue p).head?.map fun q => (k.td q).tid)
  | .runs (.op (.reply _) next), .reply _ _ _ => .runs (next (retOk (k'.td p).syscallRetval))
  | .runs (.op .exit _), .exit => .exited
  | pc, _ => pc

/-- The server after a call of the task `c`, which it may have waited for. -/
def ServerPc.hear (p c : TdPtr) (k : Kernel A) : ServerPc H → Call → ServerPc H
  | .receives l none, .send tid _ _ _ _ =>
      if k.state p = TaskState.receiveBlocked ∧ (k.td p).tid = tid then
        .receives l (some (k.td c).tid)
      else
        .receives l none
  | pc, _ => pc

/-- The notifier has not looked yet at what its call returns. -/
def NotifierPc.Returns : NotifierPc → Prop
  | .sending => True
  | .awaiting => True
  | _ => False

/-- The notifier after its call. -/
def NotifierPc.call : NotifierPc → Call → NotifierPc
  | .send, .send _ _ _ _ _ => .sending
  | .await, .awaitEvent _ => .awaiting
  | pc, _ => pc

/-- The server exits when it calls `ker_exit`. -/
theorem ServerPc.Makes.exit {pc : ServerPc H} (h : pc.Makes .exit) {p : TdPtr}
    {k k' : Kernel A} :
  pc.call p k k' .exit = .exited
  := by
  cases pc with
  | runs program =>
    cases program with
    | pure l => exact h.elim
    | op e next =>
      cases e <;> try exact h.elim
      rfl
  | receives l sender => exact h.elim
  | exited => rfl

namespace Sys

variable (t : Tasks)

/-- After an action of the kernel, which has led to `k'`. -/
def after (s : Sys H A) (k' : Kernel A) : Act → Sys H A
  | .syscall _ call =>
      match s.kernel.current with
      | none => { s with kernel := k' }
      | some c =>
          { s with
            kernel := k'
            server :=
              if c = t.server then
                s.server.call t.server s.kernel k' call
              else
                s.server.hear t.server c s.kernel call
            notifier := if c = t.notifier then s.notifier.call call else s.notifier }
  | .interrupt _ _ irqs =>
      { s with
        kernel := k'
        compare := if intrIdTimer ∈ Kernel.eventIds irqs then none else s.compare }
  | _ => { s with kernel := k' }

/-- `RpiClock::intr_arm`. -/
def arm (s : Sys H A) : Option (Sys H A) :=
  match s.server with
  | .runs (.op (.arm compare) next) =>
      some { s with compare := some compare, server := .runs (next ()) }
  | _ => none

/-- The server returns from `ker_recv`. -/
def receive (s : Sys H A) (msg : Msg) : Option (Sys H A) :=
  match s.server with
  | .receives l (some tid) => some { s with server := .runs (l.handle tid msg) }
  | _ => none

/-- The notifier returns from a call, which it unwraps. -/
def resume (s : Sys H A) : Option (Sys H A) :=
  let ok := retOk (s.kernel.td t.notifier).syscallRetval
  match s.notifier with
  | .sending => some { s with notifier := if ok then .await else .panicked }
  | .awaiting => some { s with notifier := if ok then .send else .panicked }
  | _ => none

variable [TaskAlloc A]

/-- One action. -/
def step (s : Sys H A) : Action → Option (Sys H A)
  | .kernel a => (s.kernel.step a).map fun k' => s.after t k' a
  | .arm => s.arm
  | .receive msg => s.receive msg
  | .resume => s.resume t

omit [TaskAlloc A] in
/-- The calls of the two tasks are those of their programs. The register `x0` of the
notifier holds what its call returns until the notifier goes on. -/
def ActOk (s : Sys H A) : Act → Prop
  | .syscall _ call => ∀ c, s.kernel.current = some c →
      if c = t.server then
        s.server.Makes call
      else
        c = t.notifier → s.notifier.Makes t call
  | .interrupt _ x0 _ => s.kernel.current = some t.notifier → s.notifier.Returns →
      x0 = (s.kernel.td t.notifier).syscallRetval
  | _ => True

/-- What can happen: the kernel waits for events only by identifiers of events and leaves
no task uninitialised, the two tasks do something only when they are running, and the
message of the notifier is a `ClockNotifier`. -/
def Allowed (s : Sys H A) : Action → Prop
  | .kernel a => s.kernel.LinkOk a ∧ s.ActOk t a
  | .arm => s.kernel.point = .user ∧ s.kernel.current = some t.server ∧ s.arm.isSome
  | .receive msg => s.kernel.point = .user ∧ s.kernel.current = some t.server
      ∧ (s.receive msg).isSome
      ∧ ∀ l, s.server = .receives l (some t.notifierTid) → msg = .clockNotifier
  | .resume => s.kernel.point = .user ∧ s.kernel.current = some t.notifier ∧ (s.resume t).isSome

end Sys

/-! ### Where the two tasks are -/

/-- The phase of the notifier by its place in its loop, its state `n` and whether the value
that its call returns is `ok`. -/
inductive NotifierAt (n : ℕ) (ok : Bool) : NotifierPc → Phase → Prop where
  | send (h : n = TaskState.ready) : NotifierAt n ok .send .asking
  | queued (h : n = TaskState.sendBlocked) : NotifierAt n ok .sending .asking
  | received (h : n = TaskState.replyBlocked) : NotifierAt n ok .sending .received
  | released (h : n = TaskState.ready) (hok : ok = true) : NotifierAt n ok .sending .released
  | await (h : n = TaskState.ready) : NotifierAt n ok .await .released
  | waiting (h : n = intrIdTimer) : NotifierAt n ok .awaiting .waiting
  | woken (h : n = TaskState.ready) (hok : ok = true) : NotifierAt n ok .awaiting .asking

section NotifierAt

variable {n : ℕ} {ok : Bool} {pc : NotifierPc} {phase : Phase}

theorem NotifierAt.of_received (h : NotifierAt n ok pc .received) :
  n = TaskState.replyBlocked ∧ pc = .sending
  := by
  cases h with
  | received h => exact ⟨h, rfl⟩

theorem NotifierAt.of_waiting (h : NotifierAt n ok pc .waiting) :
  n = intrIdTimer
  := by
  cases h with
  | waiting h => exact h

theorem NotifierAt.of_released (h : NotifierAt n ok pc .released) :
  n = TaskState.ready ∧ (pc = .sending ∨ pc = .await)
  := by
  cases h with
  | released h => exact ⟨h, Or.inl rfl⟩
  | await h => exact ⟨h, Or.inr rfl⟩

/-- The value that is returned matters to a call that returns. -/
theorem NotifierAt.of_not_returns (h : NotifierAt n ok pc phase) (hpc : ¬ pc.Returns)
    (ok' : Bool) :
  NotifierAt n ok' pc phase
  := by
  cases h with
  | send h => exact NotifierAt.send h
  | await h => exact NotifierAt.await h
  | _ => exact absurd trivial hpc

/-- When the notifier waits for an event, it is the timer's. -/
theorem NotifierAt.waits (h : NotifierAt n ok pc phase) (hn : keIntrIdRangeMin ≤ n) :
  n = intrIdTimer ∧ pc = .awaiting ∧ phase = .waiting
  := by
  cases h with
  | waiting h => exact ⟨h, rfl, rfl⟩
  | _ h =>
    rw [h] at hn
    exact absurd hn (by decide)

/-- The notifier never waits to receive. -/
theorem NotifierAt.not_receiveBlocked (h : NotifierAt n ok pc phase) :
  n ≠ TaskState.receiveBlocked
  := by
  rintro rfl
  cases h with
  | _ h => exact absurd h (by decide)

theorem NotifierAt.sendBlocked (h : NotifierAt n ok pc phase) (hn : n = TaskState.sendBlocked) :
  pc = .sending ∧ phase = .asking
  := by
  subst hn
  cases h with
  | queued => exact ⟨rfl, rfl⟩
  | _ h => exact absurd h (by decide)

theorem NotifierAt.replyBlocked (h : NotifierAt n ok pc phase) (hn : n = TaskState.replyBlocked) :
  pc = .sending ∧ phase = .received
  := by
  subst hn
  cases h with
  | received => exact ⟨rfl, rfl⟩
  | _ h => exact absurd h (by decide)

end NotifierAt

/-- What the server still does, in the state `n`, leads to a state between two messages. -/
def ServerAt (notifierTid : ℤ) (n : ℕ) (v : View) : ServerPc H → Prop
  | .runs program => n = TaskState.ready ∧ Leads notifierTid program (fun _ => Settled) v
  | .receives _ none => n = TaskState.receiveBlocked ∧ Settled v
  | .receives _ (some tid) => n = TaskState.ready
      ∧ if tid = notifierTid then Owed v else Settled v
  | .exited => False

section ServerAt

variable {notifierTid : ℤ} {n : ℕ} {v v' : View} {server : ServerPc H}

theorem ServerAt.state (h : ServerAt notifierTid n v server) :
  n = TaskState.ready ∨ n = TaskState.receiveBlocked
  := by
  cases server with
  | runs program => exact Or.inl h.1
  | receives l sender =>
    cases sender with
    | none => exact Or.inr h.1
    | some tid => exact Or.inl h.1
  | exited => exact h.elim

theorem ServerAt.others (h : ServerAt notifierTid n v server) (hv : Others v v') :
  ServerAt notifierTid n v' server
  := by
  cases server with
  | runs program => exact ⟨h.1, h.2.others hv⟩
  | receives l sender =>
    cases sender with
    | none => exact ⟨h.1, h.2.others hv⟩
    | some tid =>
      obtain ⟨hn, h⟩ := h
      refine ⟨hn, ?_⟩
      split_ifs at h ⊢ with htid
      · exact h.others hv
      · exact h.others hv
  | exited => exact h

end ServerAt

end TrainsOs.Clock
