import TrainsOs.Lib.Program
import TrainsOs.Clock.Server

/-!
# The clock server as a program

The server of `clock_server.rs` operation by operation: the system calls and the write to
the timer, between which interrupts and other tasks may come. A panic ends in `ker_exit`.
-/

namespace TrainsOs.Clock

open MsgBox Bytes

/-- The operations while a message is handled. -/
inductive Op where
  | reply (tid : ℤ)
  | arm (compare : ℕ)
  | exit

/-- What an operation returns; for `ker_reply` whether it succeeded. -/
@[reducible]
def Op.Response : Op → Type
  | .reply _ => Bool
  | .arm _ => Unit
  | .exit => Empty

abbrev Program := Prog Op Op.Response

variable (H : MinHeap WaitReq heapCapacity)

/-- The variables of `_start`. -/
structure Locals where
  t : ℕ
  sendBox : SendBox
  heap : H.Heap
  curtick : ℕ

variable {H}

/-! ### The calls -/

namespace Program

/-- The panic handler. -/
def panic {α : Type} : Program α :=
  .op .exit Empty.elim

def unwrap {α : Type} : Option α → Program α
  | some a => .pure a
  | none => panic

/-- `ker_reply(tid, ..).unwrap()`. -/
def kerReply (tid : ℤ) : Program Unit := do
  let ok ← Prog.perform (.reply tid)
  if ok then
    pure ()
  else
    panic

end Program

open Program

/-! ### The handlers -/

namespace Locals

/-- `SendCtx::<T>::new(&mut send_box).unwrap()` and `ker_reply(tid, &send_box).unwrap()`. -/
def reply (l : Locals H) (ty : MsgType) (contents : List UInt8) (tid : ℤ) :
    Program (Locals H) := do
  let box ← unwrap (newMsg ty l.sendBox contents)
  Program.kerReply tid
  pure { l with sendBox := box }

/-- The loop that wakes tasks up. It runs at most once for each item of the heap. -/
def wakeLoop : ℕ → Locals H → Program (Locals H)
  | 0, _ => panic
  | fuel + 1, l =>
      match H.peek l.heap with
      | none => pure l
      | some waitReq =>
          if waitReq.until ≤ l.curtick then do
            let (waitReq, heap) ← unwrap (H.pop l.heap)
            let l ← reply { l with heap := heap } clockWaitResp [] waitReq.tid
            wakeLoop fuel l
          else
            pure l

/-- The message of the notifier. -/
def handleNotifier (l : Locals H) (sender : ℤ) : Program (Locals H) := do
  let l ← l.reply clockNotifier [] sender
  let t := (l.t + quantum) % 2 ^ 64
  Prog.perform (Op.arm (t % 2 ^ 32))
  wakeLoop (heapCapacity + 1) { l with t := t, curtick := (l.curtick + 1) % 2 ^ 64 }

/-- A request to wait. -/
def handleWaitReq (l : Locals H) (sender : ℤ) (ticks : ℕ) : Program (Locals H) :=
  if ticks = 0 then
    l.reply clockWaitResp [] sender
  else do
    let heap ← unwrap (H.push l.heap { «until» := (l.curtick + ticks) % 2 ^ 64, tid := sender })
    pure { l with heap := heap }

/-- A request for the current tick. -/
def handleCurTickReq (l : Locals H) (sender : ℤ) : Program (Locals H) :=
  l.reply clockCurTickResp (u64Bytes l.curtick) sender

/-- What the loop of `_start` does with a message. -/
def handle (l : Locals H) (sender : ℤ) : Msg → Program (Locals H)
  | .clockNotifier => l.handleNotifier sender
  | .clockWaitReq ticks => l.handleWaitReq sender ticks
  | .clockCurTickReq => l.handleCurTickReq sender
  | .unknown => pure l

end Locals

/-! ### The server on its own -/

/-- An operation, when nothing comes between: the tasks that wait for replies afterwards,
and what has been done so far. -/
def perform : (e : Op) → List ℤ × List Op → Option (e.Response × List ℤ × List Op)
  | .reply tid, s =>
      match TrainsOs.kerReply s.1 tid with
      | some callers => some (true, callers, s.2 ++ [.reply tid])
      | none => some (false, s)
  | .arm compare, s => some ((), s.1, s.2 ++ [.arm compare])
  | .exit, _ => none

/-- The operation that has an effect. -/
def Output.op : Output → Op
  | .clockNotifier tid => .reply tid
  | .clockWaitResp tid => .reply tid
  | .clockCurTickResp tid _ => .reply tid
  | .arm compare => .arm compare

namespace State

def locals (s : State H) : Locals H where
  t := s.t
  sendBox := s.sendBox
  heap := s.heap
  curtick := s.curtick

/-- The tasks that wait for replies, and what the server has done. -/
def done (s : State H) : List ℤ × List Op :=
  (s.callers, s.out.map Output.op)

theorem exec_bind {α β : Type} (x : Program α) (f : α → Program β) (d : List ℤ × List Op) :
  (x >>= f).exec perform d = (x.exec perform d).bind fun r => (f r.1).exec perform r.2
  := x.exec_bind perform f d

theorem exec_unwrap {α : Type} (x : Option α) (d : List ℤ × List Op) :
  (Program.unwrap x).exec perform d = x.map fun a => (a, d)
  := by cases x <;> rfl

theorem exec_kerReply (tid : ℤ) (d : List ℤ × List Op) :
  (Program.kerReply tid).exec perform d
    = (TrainsOs.kerReply d.1 tid).map fun callers => ((), callers, d.2 ++ [.reply tid])
  := by
  rw [Program.kerReply, exec_bind, Prog.perform, Prog.exec, perform]
  cases TrainsOs.kerReply d.1 tid <;> rfl

theorem exec_reply (s : State H) (ty : MsgType) (contents : List UInt8) (output : Output)
    {tid : ℤ} (hop : output.op = .reply tid) :
  (s.locals.reply ty contents tid).exec perform s.done
    = (s.reply ty contents tid output).map fun s' => (s'.locals, s'.done)
  := by
  rw [Locals.reply, exec_bind, exec_unwrap, State.reply]
  simp only [Option.bind_eq_bind]
  rw [show s.locals.sendBox = s.sendBox from rfl]
  cases newMsg ty s.sendBox contents with
  | none => rfl
  | some box =>
    simp only [Option.map_some, Option.bind_some]
    rw [exec_bind, exec_kerReply, show s.done.1 = s.callers from rfl]
    cases TrainsOs.kerReply s.callers tid with
    | none => rfl
    | some callers =>
      simp only [Option.map_some, Option.bind_some, done, List.map_append, List.map_singleton, hop]
      rfl

theorem exec_wakeLoop (fuel : ℕ) (s : State H) :
  (Locals.wakeLoop fuel s.locals).exec perform s.done
    = (wakeLoop fuel s).map fun s' => (s'.locals, s'.done)
  := by
  induction fuel generalizing s with
  | zero => rfl
  | succ fuel ih =>
    rw [Locals.wakeLoop, wakeLoop, show s.locals.heap = s.heap from rfl]
    cases H.peek s.heap with
    | none => rfl
    | some waitReq =>
      dsimp only
      rw [show s.locals.curtick = s.curtick from rfl]
      split_ifs
      · rw [exec_bind, exec_unwrap]
        cases H.pop s.heap with
        | none => rfl
        | some r =>
          have hreply := exec_reply { s with heap := r.2 } clockWaitResp []
            (.clockWaitResp r.1.tid) rfl
          apply (exec_bind _ _ _).trans
          apply (congrArg (Option.bind · _) hreply).trans
          simp only [Option.bind_eq_bind, Option.bind_some]
          cases ({ s with heap := r.2 } : State H).reply clockWaitResp [] r.1.tid
              (.clockWaitResp r.1.tid) with
          | none => rfl
          | some s' => exact ih s'
      · rfl

theorem exec_handleNotifier (s : State H) (sender : ℤ) :
  (s.locals.handleNotifier sender).exec perform s.done
    = (s.handleNotifier sender).map fun s' => (s'.locals, s'.done)
  := by
  have hreply := exec_reply s clockNotifier [] (.clockNotifier sender) rfl
  rw [Locals.handleNotifier, exec_bind, hreply, handleNotifier]
  simp only [Option.bind_eq_bind]
  cases s.reply clockNotifier [] sender (.clockNotifier sender) with
  | none => rfl
  | some s' =>
    simp only [Option.map_some, Option.bind_some]
    rw [exec_bind, ← exec_wakeLoop]
    simp only [done, List.map_append]
    rfl

theorem exec_handleWaitReq (s : State H) (sender : ℤ) (ticks : ℕ) :
  (s.locals.handleWaitReq sender ticks).exec perform s.done
    = (s.handleWaitReq sender ticks).map fun s' => (s'.locals, s'.done)
  := by
  rw [Locals.handleWaitReq, handleWaitReq]
  split_ifs
  · exact exec_reply s clockWaitResp [] (.clockWaitResp sender) rfl
  · rw [exec_bind, exec_unwrap]
    simp only [Option.bind_eq_bind]
    rw [show s.locals.heap = s.heap from rfl, show s.locals.curtick = s.curtick from rfl]
    cases H.push s.heap _ <;> rfl

/-- The program does what the server does in one round of its loop. -/
theorem exec_handle (s : State H) (e : Event) :
  (s.locals.handle e.sender e.msg).exec perform (s.recv e).done
    = (step s e).map fun s' => (s'.locals, s'.done)
  := by
  rw [show s.locals = (s.recv e).locals from rfl, step]
  cases e.msg with
  | clockNotifier => exact exec_handleNotifier _ e.sender
  | clockWaitReq ticks => exact exec_handleWaitReq _ e.sender ticks
  | clockCurTickReq =>
    exact exec_reply (s.recv e) clockCurTickResp (u64Bytes s.curtick)
      (.clockCurTickResp e.sender s.curtick) rfl
  | unknown => rfl

end State

end TrainsOs.Clock
