import TrainsOs.User.Basic
import TrainsOs.Lib.MinHeap
import Mathlib.Data.Prod.Lex

/-!
# The clock server

The task `clock_server.rs`: it counts the messages of its notifier, arms the next
interrupt of the timer for each of them, and replies to those who wait for a tick when the
count reaches it. The `BinaryHeap` of `heapless` is any bounded min-heap.

The Makefile builds for release, so words of 64 bits wrap.
-/

namespace TrainsOs.Clock

open MsgBox Bytes

/-- `QUANTUM`, in microseconds. -/
def quantum : ℕ := 10 * 1000

/-- The capacity of the heap. -/
def heapCapacity : ℕ := 1024

/-- `WaitReq`. -/
@[ext]
structure WaitReq where
  «until» : ℕ
  tid : ℤ
deriving DecidableEq

/-- The derived order: by `until`, then by `tid`. -/
instance : LinearOrder WaitReq :=
  LinearOrder.lift' (fun w => toLex (w.until, w.tid)) (by
    intro w w' h
    have hpair := Prod.mk.inj (toLex.injective h)
    exact WaitReq.ext hpair.1 hpair.2)

theorem until_le_of_le {w w' : WaitReq} (h : w ≤ w') :
  w.until ≤ w'.until
  := by
  rcases Prod.Lex.le_iff.mp h with hlt | ⟨heq, -⟩
  · exact Nat.le_of_lt hlt
  · exact Nat.le_of_eq heq

/-- The messages, by the variants of `RecvEnum`. -/
inductive Msg where
  | clockNotifier
  | clockWaitReq (ticks : ℕ)
  | clockCurTickReq
  | unknown

/-- What the server does to the outside: its replies, and the compare value it writes. -/
inductive Output where
  | clockNotifier (tid : ℤ)
  | clockWaitResp (tid : ℤ)
  | clockCurTickResp (tid : ℤ) (curTick : ℕ)
  | arm (compare : ℕ)
deriving DecidableEq

def clockNotifier : MsgType := plainMsg "ClockNotifier" 0
def clockWaitResp : MsgType := plainMsg "ClockWaitResp" 0
def clockCurTickResp : MsgType := plainMsg "ClockCurTickResp" 8

def u64Bytes (n : ℕ) : List UInt8 :=
  u32Bytes (n % 2 ^ 32) ++ u32Bytes (n / 2 ^ 32)

variable (H : MinHeap WaitReq heapCapacity)

/-- The variables of `_start`; the tasks that wait for a reply; and what the server has
done since its last `ker_recv`. -/
structure State where
  t : ℕ
  sendBox : SendBox
  heap : H.Heap
  curtick : ℕ
  callers : List ℤ
  out : List Output

/-- The state at the start of the loop, when the timer is at `t`. -/
def State.new (t : ℕ) (sendBox : SendBox) : State H where
  t := t
  sendBox := sendBox
  heap := H.new
  curtick := 0
  callers := []
  out := []

variable {H}

/-- `SendCtx::<T>::new(&mut send_box).unwrap()` and `ker_reply(tid, &send_box).unwrap()`. -/
def State.reply (s : State H) (ty : MsgType) (contents : List UInt8) (tid : ℤ)
    (output : Output) : Option (State H) := do
  let box ← newMsg ty s.sendBox contents
  let callers ← kerReply s.callers tid
  some { s with sendBox := box, callers := callers, out := s.out ++ [output] }

/-- The loop that wakes tasks up. It runs at most once for each item of the heap. -/
def wakeLoop : ℕ → State H → Option (State H)
  | 0, _ => none
  | fuel + 1, s =>
      match H.peek s.heap with
      | none => some s
      | some waitReq =>
          if waitReq.until ≤ s.curtick then do
            let (waitReq, heap) ← H.pop s.heap
            let s ← State.reply { s with heap := heap } clockWaitResp [] waitReq.tid
              (.clockWaitResp waitReq.tid)
            wakeLoop fuel s
          else
            some s

/-- The message of the notifier. -/
def State.handleNotifier (s : State H) (sender : ℤ) : Option (State H) := do
  let s ← s.reply clockNotifier [] sender (.clockNotifier sender)
  let t := (s.t + quantum) % 2 ^ 64
  let s := { s with t := t, out := s.out ++ [Output.arm (t % 2 ^ 32)] }
  let s := { s with curtick := (s.curtick + 1) % 2 ^ 64 }
  wakeLoop (heapCapacity + 1) s

/-- A request to wait. -/
def State.handleWaitReq (s : State H) (sender : ℤ) (ticks : ℕ) : Option (State H) :=
  if ticks = 0 then
    s.reply clockWaitResp [] sender (.clockWaitResp sender)
  else do
    let heap ← H.push s.heap { «until» := (s.curtick + ticks) % 2 ^ 64, tid := sender }
    some { s with heap := heap }

/-- A request for the current tick. -/
def State.handleCurTickReq (s : State H) (sender : ℤ) : Option (State H) :=
  s.reply clockCurTickResp (u64Bytes s.curtick) sender (.clockCurTickResp sender s.curtick)

/-- A message. -/
structure Event where
  sender : ℤ
  msg : Msg

/-- `ker_recv`. -/
def State.recv (s : State H) (e : Event) : State H :=
  { s with callers := s.callers ++ [e.sender], out := [] }

/-- One round of the loop of `_start`. -/
def step (s : State H) (e : Event) : Option (State H) :=
  match e.msg with
  | .clockNotifier => (s.recv e).handleNotifier e.sender
  | .clockWaitReq ticks => (s.recv e).handleWaitReq e.sender ticks
  | .clockCurTickReq => (s.recv e).handleCurTickReq e.sender
  | .unknown => some (s.recv e)

end TrainsOs.Clock
