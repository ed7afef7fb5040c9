import TrainsOs.Kernel.Invariant
import Mathlib.Data.List.Forall2

/-!
# Rendezvous

A history of the calls of `ke_send`, `ke_recv` and `ke_reply`: with what arguments and
what memory each was made, and with what memory and what value it returned. The kernel
has none of it but the calls that have not returned, in the mailboxes of the tasks that
are blocked. A call has returned when its task is ready again.

The messages that a task receives are those that were sent to it, in the same order, and
the others wait in its queue; a task that sent a message is answered by the first reply
to it after that message was received, and by no other.
-/

namespace TrainsOs

namespace Kernel

variable {A : Type} {k k' k₀ : Kernel A} {p c r s : TdPtr} {q : Blocked → List TdPtr}

/-! ### The calls -/

/-- A call of `ke_send` by a task: its `tid`, its memory when it calls, the buffers. The
message is the one number `place` that is sent to the task `dest`. -/
structure SendCall where
  sender : ℤ
  mem : UserMem
  msg : ℕ
  msglen : ℕ
  reply : ℕ
  rplen : ℕ
  dest : ℤ
  place : ℕ

/-- A call of `ke_recv`. -/
structure RecvCall where
  mem : UserMem
  tid : ℕ
  msg : ℕ
  msglen : ℕ

/-- A call of `ke_reply`. -/
structure ReplyCall where
  mem : UserMem
  reply : ℕ
  rplen : ℕ

/-- What a task finds when a call returns. -/
structure Return where
  mem : UserMem
  retval : BitVec 64

/-- The receiver has the first bytes of the message in its buffer, the sender in its `tid`,
and the length of the message. -/
def Received (s : SendCall) (r : RecvCall × Return) : Prop :=
  r.2 =
    { mem :=
        { bytes := utilMemcpy r.1.mem.bytes r.1.msg s.mem.bytes s.msg (min r.1.msglen s.msglen)
          ints := Function.update r.1.mem.ints r.1.tid (BitVec.ofInt 32 s.sender)
          ptrs := r.1.mem.ptrs }
      retval := BitVec.ofNat 64 s.msglen }

/-- The sender has the first bytes of the reply in its buffer, and the length of the
reply. -/
def Answered (a : SendCall × ReplyCall) (r : SendCall × Return) : Prop :=
  a.1 = r.1
    ∧ r.2 =
      { mem :=
          { r.1.mem with
            bytes := utilMemcpy r.1.mem.bytes r.1.reply a.2.mem.bytes a.2.reply
              (min a.2.rplen r.1.rplen) }
        retval := BitVec.ofNat 64 a.2.rplen }

/-! ### The history -/

/-- The history of a run. By the `tid` of a task: the messages `sends` that were sent to
it, the calls `receipts` of `ke_recv` that have returned, its calls of `ke_send`, the
`replies` to it after its message was received, and the calls `returns` of `ke_send` that
have returned. The calls `sending` and `receiving` have not. -/
structure History where
  sends : ℤ → List SendCall
  receipts : ℤ → List (RecvCall × Return)
  calls : ℤ → List SendCall
  replies : ℤ → List (SendCall × ReplyCall)
  returns : ℤ → List (SendCall × Return)
  sending : TdPtr → Option SendCall
  receiving : TdPtr → Option RecvCall

/-- Nothing has happened. -/
def History.empty : History where
  sends _ := []
  receipts _ := []
  calls _ := []
  replies _ := []
  returns _ := []
  sending _ := none
  receiving _ := none

/-- The running task calls. A message to a task that does not exist is not sent. The
message of a call is received when as many messages as were sent before it, and one more,
are. -/
def History.issue (h : History) (k : Kernel A) : Act → History
  | .syscall _ (.send tid msg msglen reply rplen) =>
      match k.current, k.kTaskMgrGetTaskDsp tid with
      | some c, some _ =>
          let call : SendCall :=
            { sender := (k.td c).tid, mem := k.mem c, msg, msglen, reply, rplen
              dest := tid, place := (h.sends tid).length }
          { h with
            sends := Function.update h.sends tid (h.sends tid ++ [call])
            calls := Function.update h.calls call.sender (h.calls call.sender ++ [call])
            sending := Function.update h.sending c (some call) }
      | _, _ => h
  | .syscall _ (.recv tid msg msglen) =>
      match k.current with
      | some c =>
          { h with
            receiving := Function.update h.receiving c (some ⟨k.mem c, tid, msg, msglen⟩) }
      | none => h
  | .syscall _ (.reply tid reply rplen) =>
      match k.current, (k.kTaskMgrGetTaskDsp tid).bind h.sending with
      | some c, some call =>
          if call.place < (h.receipts call.dest).length then
            { h with
              replies := Function.update h.replies tid
                (h.replies tid ++ [(call, ⟨k.mem c, reply, rplen⟩)]) }
          else
            h
      | _, _ => h
  | _ => h

/-- What the call of a task returns. -/
def view (k : Kernel A) (p : TdPtr) : Return where
  mem := k.mem p
  retval := (k.td p).syscallRetval

/-- The call of the task `tid` that returns, if any: the task is ready. -/
def returned {C : Type} (k : Kernel A) (calls : TdPtr → Option C) (tid : ℤ) : List (C × Return) :=
  match k.kTaskMgrGetTaskDsp tid with
  | some p =>
      if k.state p = TaskState.ready then
        ((calls p).map fun call => (call, k.view p)).toList
      else
        []
  | none => []

/-- The calls that have not returned. -/
def unreturned {C : Type} (k : Kernel A) (calls : TdPtr → Option C) (p : TdPtr) : Option C :=
  if k.state p = TaskState.ready then none else calls p

/-- The calls that return. -/
def History.observe (h : History) (k : Kernel A) : History :=
  { h with
    receipts := fun tid => h.receipts tid ++ k.returned h.receiving tid
    returns := fun tid => h.returns tid ++ k.returned h.sending tid
    sending := k.unreturned h.sending
    receiving := k.unreturned h.receiving }

/-- One action of the kernel, with the history. -/
def stepHistory [TaskAlloc A] (kh : Kernel A × History) (a : Act) : Option (Kernel A × History) :=
  (kh.1.step a).map fun k => (k, (kh.2.issue kh.1 a).observe k)

/-- The tasks in the wait queue of the task `tid`. -/
def senders (k : Kernel A) (tid : ℤ) : List TdPtr :=
  match k.kTaskMgrGetTaskDsp tid with
  | some p => k.queue p
  | none => []

/-- Every message is received once, in the order in which the messages were sent, or its
sender waits; every call of `ke_send` that has returned was answered by the first reply
after its message was received, and every such reply has answered a call. -/
structure Rendezvous (k : Kernel A) (h : History) : Prop where
  received : ∀ tid, ∃ done waiting, h.sends tid = done ++ waiting
    ∧ List.Forall₂ Received done (h.receipts tid)
    ∧ List.Forall₂ (fun s call => k.state s = TaskState.sendBlocked
      ∧ h.sending s = some call) (k.senders tid) waiting
  answered : ∀ tid, List.Forall₂ Answered (h.replies tid) (h.returns tid)
  once : ∀ tid, (h.returns tid).map Prod.fst <+: h.calls tid

/-! ### The invariant -/

/-- The task waits for a message, for a receiver or for a reply. -/
def Messaging (k : Kernel A) (p : TdPtr) : Prop :=
  k.state p = TaskState.receiveBlocked ∨ k.state p = TaskState.sendBlocked
    ∨ k.state p = TaskState.replyBlocked

/-- The call of `ke_send` that the mailbox of a task holds. -/
def sendCall (k : Kernel A) (p : TdPtr) (dest : ℤ) (place : ℕ) : SendCall where
  sender := (k.td p).tid
  mem := k.mem p
  msg := (k.td p).mailbox.outMsg
  msglen := (k.td p).mailbox.outMsgLen
  reply := (k.td p).mailbox.inBuf
  rplen := (k.td p).mailbox.inBufLen
  dest := dest
  place := place

/-- The call of `ke_recv` that the mailbox of a task holds. -/
def recvCall (k : Kernel A) (p : TdPtr) : RecvCall where
  mem := k.mem p
  tid := (k.td p).mailbox.inTid
  msg := (k.td p).mailbox.inBuf
  msglen := (k.td p).mailbox.inBufLen

/-- The mailbox and the memory of a task hold the same calls. -/
structure SameCalls (k k' : Kernel A) (p : TdPtr) : Prop where
  recv : k'.recvCall p = k.recvCall p
  send : ∀ dest place, k'.sendCall p dest place = k.sendCall p dest place

theorem SameCalls.trans {k'' : Kernel A} (h : SameCalls k k' p) (h' : SameCalls k' k'' p) :
  SameCalls k k'' p
  := ⟨h'.recv.trans h.recv, fun dest place => (h'.send dest place).trans (h.send dest place)⟩

theorem SameCalls.symm (h : SameCalls k k' p) :
  SameCalls k' k p
  := ⟨h.recv.symm, fun dest place => (h.send dest place).symm⟩

/-- The calls that a mailbox holds do not depend on its wait queue. -/
theorem sameCalls_of_ring (htid : (k'.td p).tid = (k.td p).tid) {ring : RingBuffer TdPtr}
    (hmail : (k'.td p).mailbox = { (k.td p).mailbox with senderWaitqueue := ring })
    (hmem : k'.mem p = k.mem p) :
  SameCalls k k' p
  := by
  constructor
  · rw [recvCall, recvCall, hmail, hmem]
  · intro dest place
    rw [sendCall, sendCall, htid, hmail, hmem]

theorem sameCalls_of_mailbox (htid : (k'.td p).tid = (k.td p).tid)
    (hmail : (k'.td p).mailbox = (k.td p).mailbox) (hmem : k'.mem p = k.mem p) :
  SameCalls k k' p
  := by
  have hring : (k'.td p).mailbox
      = { (k.td p).mailbox with senderWaitqueue := (k.td p).mailbox.senderWaitqueue } := hmail
  exact sameCalls_of_ring htid hring hmem

/-- The calls of a task go through its descriptor and its memory only. -/
theorem sameCalls_of_eq (htd : k'.td p = k.td p) (hmem : k'.mem p = k.mem p) :
  SameCalls k k' p
  := sameCalls_of_mailbox (congrArg TaskDsp.tid htd) (congrArg TaskDsp.mailbox htd) hmem

/-- A task has at most one call of `ke_send` that has not returned, the last one. -/
def History.Open (h : History) : Prop :=
  ∀ tid, (h.calls tid = (h.returns tid).map Prod.fst
      ∧ ∀ p call, h.sending p = some call → call.sender ≠ tid)
    ∨ ∃ p call, h.sending p = some call ∧ call.sender = tid
      ∧ h.calls tid = (h.returns tid).map Prod.fst ++ [call]

/-- Every message knows its receiver and its number. -/
def History.Numbered (h : History) : Prop :=
  ∀ tid i (call : SendCall), (h.sends tid)[i]? = some call → call.dest = tid ∧ call.place = i

/-- The messages to a task are those that it has received and those that wait. -/
def InOrder (k : Kernel A) (h : History) (tid : ℤ) : Prop :=
  ∃ done waiting, h.sends tid = done ++ waiting
    ∧ List.Forall₂ Received done (h.receipts tid)
    ∧ List.Forall₂ (fun s call => h.sending s = some call) (k.senders tid) waiting

/-- The calls of a task that have not returned are those that it waits for, as its mailbox
holds them. -/
inductive Holds (k : Kernel A) (h : History) (p : TdPtr) : Prop where
  | idle (hsending : h.sending p = none) (hreceiving : h.receiving p = none)
      (hmsg : p ∈ k.mapTid → ¬ k.Messaging p)
  | receives (hmem : p ∈ k.mapTid) (hstate : k.state p = TaskState.receiveBlocked)
      (hsending : h.sending p = none) (hreceiving : h.receiving p = some (k.recvCall p))
  | sends (call : SendCall) (hmem : p ∈ k.mapTid) (hstate : k.state p = TaskState.sendBlocked)
      (hsending : h.sending p = some call) (hreceiving : h.receiving p = none)
      (hcall : call = k.sendCall p call.dest call.place)
  | replies (call : SendCall) (hmem : p ∈ k.mapTid)
      (hstate : k.state p = TaskState.replyBlocked)
      (hsending : h.sending p = some call) (hreceiving : h.receiving p = none)
      (hcall : call = k.sendCall p call.dest call.place)
      (hplace : call.place < (h.receipts call.dest).length)

/-- The invariant. -/
structure Corresponds (k : Kernel A) (h : History) : Prop where
  inOrder : ∀ tid, k.InOrder h tid
  answered : ∀ tid, List.Forall₂ Answered (h.replies tid) (h.returns tid)
  calls : h.Open
  numbered : h.Numbered
  holds : ∀ p, k.Holds h p

section Holds

variable {h h' : History}

/-- A task that is ready has no call that has not returned. -/
theorem Holds.of_ready (hp : Holds k h p) (hready : k.state p = TaskState.ready) :
  h.sending p = none ∧ h.receiving p = none
  := by
  cases hp with
  | idle hsending hreceiving _ => exact ⟨hsending, hreceiving⟩
  | receives _ hstate | sends _ _ hstate | replies _ _ hstate =>
    rw [hready] at hstate
    cases hstate

theorem Holds.of_receive (hp : Holds k h p) (hmem : p ∈ k.mapTid)
    (hrecv : k.state p = TaskState.receiveBlocked) :
  h.sending p = none ∧ h.receiving p = some (k.recvCall p)
  := by
  cases hp with
  | idle _ _ hmsg => exact absurd (Or.inl hrecv) (hmsg hmem)
  | receives _ _ hsending hreceiving => exact ⟨hsending, hreceiving⟩
  | sends _ _ hstate | replies _ _ hstate =>
    rw [hrecv] at hstate
    cases hstate

theorem Holds.of_send (hp : Holds k h p) (hmem : p ∈ k.mapTid)
    (hsend : k.state p = TaskState.sendBlocked) :
  h.receiving p = none ∧ ∃ call, h.sending p = some call
    ∧ call = k.sendCall p call.dest call.place
  := by
  cases hp with
  | idle _ _ hmsg => exact absurd (Or.inr (Or.inl hsend)) (hmsg hmem)
  | sends call _ _ hsending hreceiving hcall => exact ⟨hreceiving, call, hsending, hcall⟩
  | receives _ hstate | replies _ _ hstate =>
    rw [hsend] at hstate
    cases hstate

theorem Holds.of_reply (hp : Holds k h p) (hmem : p ∈ k.mapTid)
    (hreply : k.state p = TaskState.replyBlocked) :
  h.receiving p = none ∧ ∃ call, h.sending p = some call
    ∧ call = k.sendCall p call.dest call.place ∧ call.place < (h.receipts call.dest).length
  := by
  cases hp with
  | idle _ _ hmsg => exact absurd (Or.inr (Or.inr hreply)) (hmsg hmem)
  | replies call _ _ hsending hreceiving hcall hplace =>
    exact ⟨hreceiving, call, hsending, hcall, hplace⟩
  | receives _ hstate | sends _ _ hstate =>
    rw [hreply] at hstate
    cases hstate

/-- A task with a call of `ke_send` that has not returned is alive, and the call is its
own. -/
theorem Holds.of_sending (hp : Holds k h p) {call : SendCall} (hcall : h.sending p = some call) :
  p ∈ k.mapTid ∧ k.Messaging p ∧ call.sender = (k.td p).tid
  := by
  cases hp with
  | idle hsending | receives _ _ hsending =>
    rw [hcall] at hsending
    cases hsending
  | sends call' hmem hstate hsending _ hcall' =>
    obtain rfl := Option.some.inj (hcall.symm.trans hsending)
    refine ⟨hmem, Or.inr (Or.inl hstate), ?_⟩
    rw [hcall']
    rfl
  | replies call' hmem hstate hsending _ hcall' =>
    obtain rfl := Option.some.inj (hcall.symm.trans hsending)
    refine ⟨hmem, Or.inr (Or.inr hstate), ?_⟩
    rw [hcall']
    rfl

/-- The task waits for messages in the same way, or it does not do so. -/
structure Kept (k k' : Kernel A) (p : TdPtr) : Prop where
  kept : p ∈ k.mapTid → k.Messaging p →
    p ∈ k'.mapTid ∧ k'.state p = k.state p ∧ SameCalls k k' p
  none_new : p ∈ k'.mapTid → k'.Messaging p → p ∈ k.mapTid ∧ k.Messaging p

theorem Kept.trans {k'' : Kernel A} (h : Kept k k' p) (h' : Kept k' k'' p) :
  Kept k k'' p
  := by
  constructor
  · intro hp hmsg
    obtain ⟨hp₁, hstate₁, hcalls₁⟩ := h.kept hp hmsg
    have hmsg₁ : k'.Messaging p := by rwa [Messaging, hstate₁]
    obtain ⟨hp₂, hstate₂, hcalls₂⟩ := h'.kept hp₁ hmsg₁
    exact ⟨hp₂, hstate₂.trans hstate₁, hcalls₁.trans hcalls₂⟩
  · intro hp hmsg
    obtain ⟨hp₁, hmsg₁⟩ := h'.none_new hp hmsg
    exact h.none_new hp₁ hmsg₁

theorem kept_of_state (hmap : k'.mapTid = k.mapTid) (hstate : k'.state p = k.state p)
    (hcalls : k.Messaging p → SameCalls k k' p) :
  Kept k k' p
  := by
  constructor
  · intro hp hmsg
    rw [hmap]
    exact ⟨hp, hstate, hcalls hmsg⟩
  · intro hp hmsg
    rw [hmap] at hp
    rw [Messaging, hstate] at hmsg
    exact ⟨hp, hmsg⟩

theorem Holds.kept (hp : Holds k h p) (hk : Kept k k' p) (hsending : h'.sending p = h.sending p)
    (hreceiving : h'.receiving p = h.receiving p)
    (hgrow : ∀ tid, (h.receipts tid).length ≤ (h'.receipts tid).length) :
  Holds k' h' p
  := by
  cases hp with
  | idle hs hr hmsg =>
    refine Holds.idle (hsending.trans hs) (hreceiving.trans hr) ?_
    intro hmem' hmsg'
    obtain ⟨hmem, hmsg'⟩ := hk.none_new hmem' hmsg'
    exact hmsg hmem hmsg'
  | receives hmem hstate hs hr =>
    obtain ⟨hmem', hstate', hcalls⟩ := hk.kept hmem (Or.inl hstate)
    rw [← hcalls.recv] at hr
    exact Holds.receives hmem' (hstate'.trans hstate) (hsending.trans hs) (hreceiving.trans hr)
  | sends call hmem hstate hs hr hcall =>
    obtain ⟨hmem', hstate', hcalls⟩ := hk.kept hmem (Or.inr (Or.inl hstate))
    rw [← hcalls.send] at hcall
    exact Holds.sends call hmem' (hstate'.trans hstate) (hsending.trans hs)
      (hreceiving.trans hr) hcall
  | replies call hmem hstate hs hr hcall hplace =>
    obtain ⟨hmem', hstate', hcalls⟩ := hk.kept hmem (Or.inr (Or.inr hstate))
    rw [← hcalls.send] at hcall
    exact Holds.replies call hmem' (hstate'.trans hstate) (hsending.trans hs)
      (hreceiving.trans hr) hcall (hplace.trans_le (hgrow _))

end Holds

/-! ### Steps without a message -/

/-- The tasks that wait for a message, a receiver or a reply are the same, and so are
their memories, their mailboxes and the wait queues. -/
structure Undisturbed (k k' : Kernel A) : Prop where
  tasks : ∀ p, Kept k k' p
  senders : ∀ tid, k'.senders tid = k.senders tid

theorem not_messaging_ready (h : k.state p = TaskState.ready) :
  ¬ k.Messaging p
  := by
  rintro (h' | h' | h') <;>
  · rw [h] at h'
    cases h'

/-- A task that waits for an event does not wait for a message. -/
theorem not_messaging_event (h : keIntrIdRangeMin ≤ k.state p) :
  ¬ k.Messaging p
  := by
  rintro (h' | h' | h') <;>
  · rw [h'] at h
    exact absurd h (by decide)

theorem SameQueues.senders (h : SameQueues k k') (tid : ℤ) :
  k'.senders tid = k.senders tid
  := by
  rw [Kernel.senders, Kernel.senders, h.lookup]
  simp only [h.queue]

/-- A step in which only the descriptor and the memory of a task change that does not wait
for messages before or after it. -/
theorem undisturbed_own (hc : ¬ k.Messaging c) (hc' : ¬ k'.Messaging c)
    (hsame : SameQueues k k') (htd : ∀ x, x ≠ c → k'.td x = k.td x)
    (hmem : ∀ x, x ≠ c → k'.mem x = k.mem x) :
  Undisturbed k k'
  := by
  constructor
  · intro p
    by_cases hpc : p = c
    · rw [hpc]
      exact ⟨fun _ hmsg => absurd hmsg hc, fun _ hmsg => absurd hmsg hc'⟩
    · exact kept_of_state hsame.mapTid (congrArg TaskDsp.state (htd p hpc)) fun _ =>
        sameCalls_of_eq (htd p hpc) (hmem p hpc)
  · exact hsame.senders

theorem Undisturbed.trans {k'' : Kernel A} (h : Undisturbed k k') (h' : Undisturbed k' k'') :
  Undisturbed k k''
  := ⟨fun p => (h.tasks p).trans (h'.tasks p), fun tid => (h'.senders tid).trans (h.senders tid)⟩

/-- Such a step keeps the invariant. -/
theorem Corresponds.undisturbed {h : History} (hk : Corresponds k h) (hu : Undisturbed k k') :
  Corresponds k' h
  := by
  constructor
  · intro tid
    rw [InOrder, hu.senders]
    exact hk.inOrder tid
  · exact hk.answered
  · exact hk.calls
  · exact hk.numbered
  · exact fun p => (hk.holds p).kept (hu.tasks p) rfl rfl fun _ => le_rfl

/-! ### Calls that return -/

section Returned

variable {C : Type} {calls : TdPtr → Option C} {call : C}

theorem returned_nil (h : ∀ p, k.state p = TaskState.ready → calls p = none) (tid : ℤ) :
  k.returned calls tid = []
  := by
  rw [returned]
  split
  · rename_i p _
    split
    · rename_i hp
      rw [h p hp]
      rfl
    · rfl
  · rfl

theorem unreturned_eq (h : ∀ p, k.state p = TaskState.ready → calls p = none) :
  k.unreturned calls = calls
  := by
  funext p
  rw [unreturned]
  split
  · rename_i hp
    exact (h p hp).symm
  · rfl

/-- The call of one task returns. -/
theorem returned_one [TaskAlloc A] (hids : k.Ids) (hr : r ∈ k.mapTid)
    (hready : k.state r = TaskState.ready) (hcall : calls r = some call)
    (h : ∀ p, p ≠ r → k.state p = TaskState.ready → calls p = none) (tid : ℤ) :
  k.returned calls tid = if tid = (k.td r).tid then [(call, k.view r)] else []
  := by
  by_cases htid : tid = (k.td r).tid
  · rw [if_pos htid, htid, returned, hids.kTaskMgrGetTaskDsp_eq hr]
    dsimp only
    rw [if_pos hready, hcall]
    rfl
  · rw [if_neg htid, returned]
    split
    · rename_i p hlook
      have hpr : p ≠ r := by
        rintro rfl
        exact htid (kTaskMgrGetTaskDsp_some hlook).2.symm
      split
      · rename_i hp
        rw [h p hpr hp]
        rfl
      · rfl
    · rfl

theorem unreturned_one (hready : k.state r = TaskState.ready)
    (h : ∀ p, p ≠ r → k.state p = TaskState.ready → calls p = none) :
  k.unreturned calls = Function.update calls r none
  := by
  funext p
  rw [unreturned, Function.update_apply]
  by_cases hpr : p = r
  · rw [if_pos hpr, hpr, if_pos hready]
  · rw [if_neg hpr]
    split
    · rename_i hp
      exact (h p hpr hp).symm
    · rfl

end Returned

/-- When the invariant holds, all calls of tasks that are ready have been recorded. -/
theorem Corresponds.observe {h : History} (hk : Corresponds k h) :
  h.observe k = h
  := by
  have hsending : ∀ p, k.state p = TaskState.ready → h.sending p = none :=
    fun p hp => ((hk.holds p).of_ready hp).1
  have hreceiving : ∀ p, k.state p = TaskState.ready → h.receiving p = none :=
    fun p hp => ((hk.holds p).of_ready hp).2
  simp only [History.observe, returned_nil hsending, returned_nil hreceiving,
    unreturned_eq hsending, unreturned_eq hreceiving, List.append_nil]

/-! ### The moves

A message that is delivered by `k_send_handler` makes two moves, as if its sender were
queued first; so does one that is delivered by `k_recv_handler`, as if the receiver waited
for it. -/

section Moves

variable {h : History}

/-- A task calls `ke_send`. -/
def History.issued (h : History) (c : TdPtr) (call : SendCall) : History :=
  { h with
    sends := Function.update h.sends call.dest (h.sends call.dest ++ [call])
    calls := Function.update h.calls call.sender (h.calls call.sender ++ [call])
    sending := Function.update h.sending c (some call) }

/-- A task calls `ke_recv`. -/
def History.waits (h : History) (c : TdPtr) (call : RecvCall) : History :=
  { h with receiving := Function.update h.receiving c (some call) }

/-- The call of `ke_recv` of `r`, whose `tid` is `tid`, returns. -/
def History.receipt (h : History) (r : TdPtr) (tid : ℤ) (x : RecvCall × Return) : History :=
  { h with
    receipts := Function.update h.receipts tid (h.receipts tid ++ [x])
    receiving := Function.update h.receiving r none }

/-- The call of `ke_send` of `r`, whose `tid` is `tid`, returns after it was answered. -/
def History.answer (h : History) (r : TdPtr) (tid : ℤ) (a : SendCall × ReplyCall)
    (x : SendCall × Return) : History :=
  { h with
    replies := Function.update h.replies tid (h.replies tid ++ [a])
    returns := Function.update h.returns tid (h.returns tid ++ [x])
    sending := Function.update h.sending r none }

theorem History.Open.issued {call : SendCall} (ho : h.Open) (hc : h.sending c = none)
    (hother : ∀ p call', h.sending p = some call' → call'.sender ≠ call.sender) :
  (h.issued c call).Open
  := by
  intro tid
  by_cases htid : tid = call.sender
  · right
    refine ⟨c, call, Function.update_self _ _ _, htid.symm, ?_⟩
    obtain ⟨hcalls, -⟩ | ⟨p, call', hcall', hsender, -⟩ := ho tid
    · dsimp only [History.issued]
      rw [htid, Function.update_self, ← htid, hcalls]
    · exact absurd (hsender.trans htid) (hother p call' hcall')
  · have hcalls : (h.issued c call).calls tid = h.calls tid := Function.update_of_ne htid _ _
    rw [hcalls]
    obtain ⟨hcalls, hnone⟩ | ⟨p, call', hcall', hsender, hcalls⟩ := ho tid
    · refine Or.inl ⟨hcalls, ?_⟩
      intro p call' hcall'
      dsimp only [History.issued] at hcall'
      rw [Function.update_apply] at hcall'
      split at hcall'
      · rw [← Option.some.inj hcall']
        exact Ne.symm htid
      · exact hnone p call' hcall'
    · refine Or.inr ⟨p, call', ?_, hsender, hcalls⟩
      apply (Function.update_of_ne _ _ _).trans hcall'
      rintro rfl
      rw [hc] at hcall'
      cases hcall'

theorem History.Numbered.issued {call : SendCall} (hn : h.Numbered)
    (hplace : call.place = (h.sends call.dest).length) :
  (h.issued c call).Numbered
  := by
  intro tid i call' hcall'
  dsimp only [History.issued] at hcall'
  rw [Function.update_apply] at hcall'
  split at hcall'
  · rename_i htid
    rw [List.getElem?_append] at hcall'
    split at hcall'
    · rw [htid]
      exact hn _ i call' hcall'
    · rename_i hi
      rw [List.getElem?_singleton] at hcall'
      split at hcall'
      · rw [← Option.some.inj hcall', hplace]
        exact ⟨htid.symm, by omega⟩
      · cases hcall'
  · exact hn tid i call' hcall'

/-- The sender `c` is put into the wait queue of `r`. -/
structure Enqueued (k k' : Kernel A) (c r : TdPtr) : Prop where
  mapTid : k'.mapTid = k.mapTid
  tid : (k'.td c).tid = (k.td c).tid
  state : ∀ x, k'.state x = if x = c then TaskState.sendBlocked else k.state x
  calls : ∀ x, x ≠ c → SameCalls k k' x
  senders : ∀ tid, k'.senders tid = if tid = (k.td r).tid then k.senders tid ++ [c]
    else k.senders tid

theorem Corresponds.enqueued [TaskAlloc A] (hk : Corresponds k h) (hids : k.Ids)
    (hm : Enqueued k k' c r) (hc : c ∈ k.mapTid) (hready : k.state c = TaskState.ready) :
  Corresponds k'
    (h.issued c (k'.sendCall c (k.td r).tid (h.sends (k.td r).tid).length))
  := by
  obtain ⟨hsending, hreceiving⟩ := (hk.holds c).of_ready hready
  have hne : ∀ p call, h.sending p = some call → p ≠ c := by
    rintro p call hcall rfl
    rw [hsending] at hcall
    cases hcall
  generalize hcall₀ : k'.sendCall c (k.td r).tid (h.sends (k.td r).tid).length = call₀
  have hdest : call₀.dest = (k.td r).tid := by rw [← hcall₀]; rfl
  constructor
  · intro tid
    obtain ⟨done, waiting, hsends, hdone, hwaiting⟩ := hk.inOrder tid
    have hkept : List.Forall₂ (fun s call => (h.issued c call₀).sending s = some call)
        (k.senders tid) waiting :=
      hwaiting.imp fun s call hcall => (Function.update_of_ne (hne s call hcall) _ _).trans hcall
    by_cases ht : tid = (k.td r).tid
    · refine ⟨done, waiting ++ [call₀], ?_, hdone, ?_⟩
      · rw [← List.append_assoc, ← hsends, ht, ← hdest]
        exact Function.update_self _ _ _
      · rw [hm.senders, if_pos ht]
        apply List.rel_append hkept
        exact List.Forall₂.cons (Function.update_self _ _ _) List.Forall₂.nil
    · refine ⟨done, waiting, ?_, hdone, ?_⟩
      · apply (Function.update_of_ne _ _ _).trans hsends
        rwa [hdest]
      · rw [hm.senders, if_neg ht]
        exact hkept
  · exact hk.answered
  · apply hk.calls.issued hsending
    intro p call hcall hsender
    obtain ⟨hp, -, hown⟩ := (hk.holds p).of_sending hcall
    have htids : (k.td p).tid = (k.td c).tid := by
      rw [← hown, hsender, ← hcall₀]
      exact hm.tid
    exact hne p call hcall (hids.tid_inj p hp c hc htids)
  · apply hk.numbered.issued
    rw [hdest, ← hcall₀]
    rfl
  · intro p
    by_cases hpc : p = c
    · rw [hpc]
      apply Holds.sends call₀
      · rw [hm.mapTid]
        exact hc
      · rw [hm.state, if_pos rfl]
      · exact Function.update_self _ _ _
      · exact hreceiving
      · rw [← hcall₀]
        rfl
    · have hkept : Kept k k' p :=
        kept_of_state hm.mapTid ((hm.state p).trans (if_neg hpc)) fun _ => hm.calls p hpc
      exact (hk.holds p).kept hkept (Function.update_of_ne hpc _ _) rfl fun _ => le_rfl

/-- The task `c` waits to receive. -/
structure Blocks (k k' : Kernel A) (c : TdPtr) : Prop where
  mapTid : k'.mapTid = k.mapTid
  state : ∀ x, k'.state x = if x = c then TaskState.receiveBlocked else k.state x
  calls : ∀ x, x ≠ c → SameCalls k k' x
  senders : ∀ tid, k'.senders tid = k.senders tid

theorem Corresponds.blocks (hk : Corresponds k h) (hm : Blocks k k' c) (hc : c ∈ k.mapTid)
    (hready : k.state c = TaskState.ready) :
  Corresponds k' (h.waits c (k'.recvCall c))
  := by
  obtain ⟨hsending, -⟩ := (hk.holds c).of_ready hready
  constructor
  · intro tid
    rw [InOrder, hm.senders]
    exact hk.inOrder tid
  · exact hk.answered
  · exact hk.calls
  · exact hk.numbered
  · intro p
    by_cases hpc : p = c
    · rw [hpc]
      apply Holds.receives
      · rw [hm.mapTid]
        exact hc
      · rw [hm.state, if_pos rfl]
      · exact hsending
      · exact Function.update_self _ _ _
    · have hkept : Kept k k' p :=
        kept_of_state hm.mapTid ((hm.state p).trans (if_neg hpc)) fun _ => hm.calls p hpc
      exact (hk.holds p).kept hkept rfl (Function.update_of_ne hpc _ _) fun _ => le_rfl

/-- The message of `s`, the oldest in the wait queue of `r`, is delivered to `r`, which waits
for it. -/
structure Matched (k k' : Kernel A) (r s : TdPtr) : Prop where
  mapTid : k'.mapTid = k.mapTid
  tid : (k'.td r).tid = (k.td r).tid
  state : ∀ x, k'.state x = if x = r then TaskState.ready
    else if x = s then TaskState.replyBlocked else k.state x
  calls : ∀ x, x ≠ r → SameCalls k k' x
  senders : ∀ tid, k.senders tid = if tid = (k.td r).tid then s :: k'.senders tid
    else k'.senders tid
  view : ∀ dest place, Received (k.sendCall s dest place) (k.recvCall r, k'.view r)

section Matched

variable [TaskAlloc A] (hk : Corresponds k h) (hm : Matched k k' r s) (hr : r ∈ k.mapTid)
  (hrecv : k.state r = TaskState.receiveBlocked) (hsend : k.state s = TaskState.sendBlocked)

include hk hm hr hrecv

/-- The call of `ke_recv` of `r` returns, and no other call. -/
theorem Corresponds.observe_matched (hids : k'.Ids) :
  h.observe k' = h.receipt r (k.td r).tid (k.recvCall r, k'.view r)
  := by
  obtain ⟨hsending_r, hreceiving_r⟩ := (hk.holds r).of_receive hr hrecv
  have hready : k'.state r = TaskState.ready := (hm.state r).trans (if_pos rfl)
  have hnone : ∀ p, p ≠ r → k'.state p = TaskState.ready →
      h.sending p = none ∧ h.receiving p = none := by
    intro p hpr hp
    apply (hk.holds p).of_ready
    rw [hm.state, if_neg hpr] at hp
    split at hp
    · cases hp
    · exact hp
  have hsending : ∀ p, k'.state p = TaskState.ready → h.sending p = none := by
    intro p hp
    by_cases hpr : p = r
    · rw [hpr]
      exact hsending_r
    · exact (hnone p hpr hp).1
  have hreceiving : ∀ p, p ≠ r → k'.state p = TaskState.ready → h.receiving p = none :=
    fun p hpr hp => (hnone p hpr hp).2
  have hr' : r ∈ k'.mapTid := by
    rw [hm.mapTid]
    exact hr
  simp only [History.observe, returned_nil hsending, unreturned_eq hsending,
    unreturned_one hready hreceiving, returned_one hids hr' hready hreceiving_r hreceiving, hm.tid,
    List.append_nil, History.receipt]
  congr 1
  funext tid
  rw [Function.update_apply]
  split
  · rename_i htid
    rw [htid]
  · rw [List.append_nil]

omit [TaskAlloc A] hr hrecv in
/-- The messages stay in order: the first one that waits is the next one received. -/
theorem Corresponds.inOrder_matched {call : SendCall} (hcall : h.sending s = some call)
    (hown : call = k.sendCall s call.dest call.place) (tid : ℤ) :
  k'.InOrder (h.receipt r (k.td r).tid (k.recvCall r, k'.view r)) tid
  := by
  obtain ⟨done, waiting, hsends, hdone, hwaiting⟩ := hk.inOrder tid
  rw [hm.senders] at hwaiting
  by_cases ht : tid = (k.td r).tid
  · rw [if_pos ht] at hwaiting
    cases hwaiting with
    | @cons _ call' _ rest hcall' hrest =>
      obtain rfl := Option.some.inj (hcall.symm.trans hcall')
      have hlist : (h.receipt r (k.td r).tid (k.recvCall r, k'.view r)).receipts tid
          = h.receipts tid ++ [(k.recvCall r, k'.view r)] := by
        rw [ht]
        exact Function.update_self _ _ _
      have hview := hm.view call.dest call.place
      rw [← hown] at hview
      refine ⟨done ++ [call], rest, ?_, ?_, hrest⟩
      · rw [List.append_assoc]
        exact hsends
      · rw [hlist]
        exact List.rel_append hdone (List.Forall₂.cons hview List.Forall₂.nil)
  · rw [if_neg ht] at hwaiting
    have hlist : (h.receipt r (k.td r).tid (k.recvCall r, k'.view r)).receipts tid
        = h.receipts tid := Function.update_of_ne ht _ _
    refine ⟨done, waiting, hsends, ?_, hwaiting⟩
    rw [hlist]
    exact hdone

omit [TaskAlloc A] hr hrecv in
/-- The number of the message that is received is the number of those received before. -/
theorem Corresponds.place_matched {call : SendCall} (hcall : h.sending s = some call) :
  call.dest = (k.td r).tid ∧ call.place = (h.receipts (k.td r).tid).length
  := by
  obtain ⟨done, waiting, hsends, hdone, hwaiting⟩ := hk.inOrder (k.td r).tid
  rw [hm.senders, if_pos rfl] at hwaiting
  cases hwaiting with
  | @cons _ call' _ rest hcall' hrest =>
    obtain rfl := Option.some.inj (hcall.symm.trans hcall')
    have hget : (h.sends (k.td r).tid)[done.length]? = some call := by
      rw [hsends, List.getElem?_append_right le_rfl, Nat.sub_self]
      rfl
    obtain ⟨hdest, hplace⟩ := hk.numbered _ _ _ hget
    exact ⟨hdest, hplace.trans hdone.length_eq⟩

include hsend

theorem Corresponds.matched (hs : s ∈ k.mapTid) (hids : k'.Ids) :
  Corresponds k' (h.observe k')
  := by
  have hsr : s ≠ r := by
    rintro rfl
    rw [hsend] at hrecv
    cases hrecv
  obtain ⟨hreceiving_s, call, hcall, hown⟩ := (hk.holds s).of_send hs hsend
  obtain ⟨hdest, hplace⟩ := hk.place_matched hm hcall
  obtain ⟨hsending_r, -⟩ := (hk.holds r).of_receive hr hrecv
  rw [hk.observe_matched hm hr hrecv hids]
  generalize hx : (k.recvCall r, k'.view r) = x
  have hgrow : ∀ tid, (h.receipts tid).length
      ≤ ((h.receipt r (k.td r).tid x).receipts tid).length := by
    intro tid
    dsimp only [History.receipt]
    rw [Function.update_apply]
    split
    · rename_i htid
      rw [htid, List.length_append]
      exact Nat.le_add_right _ _
    · exact le_rfl
  constructor
  · rw [← hx]
    exact hk.inOrder_matched hm hcall hown
  · exact hk.answered
  · exact hk.calls
  · exact hk.numbered
  · intro p
    by_cases hpr : p = r
    · rw [hpr]
      refine Holds.idle hsending_r ?_ ?_
      · exact Function.update_self _ _ _
      · intro _
        apply not_messaging_ready
        rw [hm.state, if_pos rfl]
    · by_cases hps : p = s
      · rw [hps]
        apply Holds.replies call
        · rw [hm.mapTid]
          exact hs
        · rw [hm.state, if_neg hsr, if_pos rfl]
        · exact hcall
        · exact (Function.update_of_ne hsr _ _).trans hreceiving_s
        · rw [(hm.calls s hsr).send]
          exact hown
        · rw [hplace, hdest]
          dsimp only [History.receipt]
          rw [Function.update_self, List.length_append]
          exact Nat.lt_succ_self _
      · have hstate : k'.state p = k.state p := by rw [hm.state, if_neg hpr, if_neg hps]
        have hkept : Kept k k' p := kept_of_state hm.mapTid hstate fun _ => hm.calls p hpr
        exact (hk.holds p).kept hkept rfl (Function.update_of_ne hpr _ _) hgrow

end Matched

theorem History.Open.answer {tid : ℤ} {call : SendCall} {ret : Return} (ho : h.Open)
    (hr : h.sending r = some call) (htid : call.sender = tid)
    (honly : ∀ p call', h.sending p = some call' → call'.sender = tid → p = r)
    (a : SendCall × ReplyCall) :
  (h.answer r tid a (call, ret)).Open
  := by
  have hless : ∀ p call', (h.answer r tid a (call, ret)).sending p = some call' →
      p ≠ r ∧ h.sending p = some call' := by
    intro p call' hcall'
    dsimp only [History.answer] at hcall'
    rw [Function.update_apply] at hcall'
    split at hcall'
    · cases hcall'
    · rename_i hpr
      exact ⟨hpr, hcall'⟩
  intro t
  by_cases ht : t = tid
  · left
    obtain ⟨-, hnone⟩ | ⟨p, call', hcall', hsender, hcalls⟩ := ho t
    · exact absurd (htid.trans ht.symm) (hnone r call hr)
    · obtain rfl := honly p call' hcall' (hsender.trans ht)
      obtain rfl := Option.some.inj (hr.symm.trans hcall')
      constructor
      · have hreturns : (h.answer p tid a (call, ret)).returns t
            = h.returns t ++ [(call, ret)] := by
          rw [ht]
          exact Function.update_self _ _ _
        rw [hreturns, List.map_append]
        exact hcalls
      · intro p' call' hcall' hsender'
        obtain ⟨hp', hcall'⟩ := hless p' call' hcall'
        exact hp' (honly p' call' hcall' (hsender'.trans ht))
  · have hreturns : (h.answer r tid a (call, ret)).returns t = h.returns t :=
      Function.update_of_ne ht _ _
    rw [hreturns]
    obtain ⟨hcalls, hnone⟩ | ⟨p, call', hcall', hsender, hcalls⟩ := ho t
    · exact Or.inl ⟨hcalls, fun p call' hcall' => hnone p call' (hless p call' hcall').2⟩
    · refine Or.inr ⟨p, call', ?_, hsender, hcalls⟩
      apply (Function.update_of_ne _ _ _).trans hcall'
      rintro rfl
      obtain rfl := Option.some.inj (hr.symm.trans hcall')
      exact ht (hsender.symm.trans htid)

/-- The task `r`, which waits for a reply, is answered by the call `a`. -/
structure Replied (k k' : Kernel A) (r : TdPtr) (a : ReplyCall) : Prop where
  mapTid : k'.mapTid = k.mapTid
  tid : (k'.td r).tid = (k.td r).tid
  state : ∀ x, k'.state x = if x = r then TaskState.ready else k.state x
  calls : ∀ x, x ≠ r → k.Messaging x → SameCalls k k' x
  senders : ∀ tid, k'.senders tid = k.senders tid
  view : ∀ dest place,
    Answered (k.sendCall r dest place, a) (k.sendCall r dest place, k'.view r)

/-- The first reply to a task after its message was received. -/
def History.replied (h : History) (tid : ℤ) (call : SendCall) (a : ReplyCall) : History :=
  { h with replies := Function.update h.replies tid (h.replies tid ++ [(call, a)]) }

section Replied

variable [TaskAlloc A] {a : ReplyCall} {call : SendCall} (hk : Corresponds k h)
  (hm : Replied k k' r a) (hr : r ∈ k.mapTid) (hreply : k.state r = TaskState.replyBlocked)
  (hcall : h.sending r = some call)

include hk hm hr hreply hcall

/-- The call of `ke_send` of `r` returns, and no other call. -/
theorem Corresponds.observe_replied (hids : k'.Ids) :
  (h.replied (k.td r).tid call a).observe k'
    = h.answer r (k.td r).tid (call, a) (call, k'.view r)
  := by
  obtain ⟨hreceiving_r, -⟩ := (hk.holds r).of_reply hr hreply
  have hready : k'.state r = TaskState.ready := (hm.state r).trans (if_pos rfl)
  have hnone : ∀ p, p ≠ r → k'.state p = TaskState.ready →
      h.sending p = none ∧ h.receiving p = none := by
    intro p hpr hp
    apply (hk.holds p).of_ready
    rwa [hm.state, if_neg hpr] at hp
  have hsending : ∀ p, p ≠ r → k'.state p = TaskState.ready → h.sending p = none :=
    fun p hpr hp => (hnone p hpr hp).1
  have hreceiving : ∀ p, k'.state p = TaskState.ready → h.receiving p = none := by
    intro p hp
    by_cases hpr : p = r
    · rw [hpr]
      exact hreceiving_r
    · exact (hnone p hpr hp).2
  have hr' : r ∈ k'.mapTid := by
    rw [hm.mapTid]
    exact hr
  simp only [History.observe, History.replied, returned_nil hreceiving,
    unreturned_eq hreceiving, unreturned_one hready hsending,
    returned_one hids hr' hready hcall hsending, hm.tid, List.append_nil, History.answer]
  congr 1
  funext tid
  rw [Function.update_apply]
  split
  · rename_i htid
    rw [htid]
  · rw [List.append_nil]

theorem Corresponds.replied (hids : k.Ids) (hids' : k'.Ids) (hfree : ∀ tid, r ∉ k.senders tid) :
  Corresponds k' ((h.replied (k.td r).tid call a).observe k')
  := by
  rw [hk.observe_replied hm hr hreply hcall hids']
  obtain ⟨hreceiving_r, call', hcall', hown, -⟩ := (hk.holds r).of_reply hr hreply
  obtain rfl := Option.some.inj (hcall.symm.trans hcall')
  constructor
  · intro tid
    obtain ⟨done, waiting, hsends, hdone, hwaiting⟩ := hk.inOrder tid
    refine ⟨done, waiting, hsends, hdone, ?_⟩
    rw [hm.senders]
    have hne : ∀ s ∈ k.senders tid, s ≠ r := fun s hs => ne_of_mem_of_not_mem hs (hfree tid)
    apply ((List.forall₂_and_left _ _).mpr ⟨hne, hwaiting⟩).imp
    rintro s call' ⟨hs, hcall'⟩
    exact (Function.update_of_ne hs _ _).trans hcall'
  · intro tid
    dsimp only [History.answer]
    rw [Function.update_apply, Function.update_apply]
    split
    · have hview := hm.view call.dest call.place
      rw [← hown] at hview
      exact List.rel_append (hk.answered _) (List.Forall₂.cons hview List.Forall₂.nil)
    · exact hk.answered tid
  · apply hk.calls.answer hcall ((hk.holds r).of_sending hcall).2.2
    intro p call' hcall' hsender
    obtain ⟨hp, -, hown'⟩ := (hk.holds p).of_sending hcall'
    exact hids.tid_inj p hp r hr (hown'.symm.trans hsender)
  · exact hk.numbered
  · intro p
    by_cases hpr : p = r
    · rw [hpr]
      refine Holds.idle ?_ hreceiving_r ?_
      · exact Function.update_self _ _ _
      · intro _
        apply not_messaging_ready
        rw [hm.state, if_pos rfl]
    · have hkept : Kept k k' p :=
        kept_of_state hm.mapTid ((hm.state p).trans (if_neg hpr)) (hm.calls p hpr)
      exact (hk.holds p).kept hkept (Function.update_of_ne hpr _ _) rfl fun _ => le_rfl

end Replied

end Moves

end Kernel

end TrainsOs
