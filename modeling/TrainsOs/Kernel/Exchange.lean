import TrainsOs.Kernel.Rendezvous
import TrainsOs.Kernel.Senders
import TrainsOs.Kernel.Paths
import TrainsOs.Kernel.Preempted
import TrainsOs.Kernel.Sane
import Mathlib.Data.List.Find

/-!
# Messages and replies

Every handler makes the moves that its calls stand for, or leaves the tasks that wait for a
message, a receiver or a reply alone. So the calls and their history correspond after every
run, and the messages are received and answered in order. This fails with a task that was
left without being initialised, whose wait queue is whatever its memory holds.
-/

namespace TrainsOs

namespace Kernel

variable {A : Type} {k k' k₀ : Kernel A} {p c r s : TdPtr} {q : Blocked → List TdPtr}

/-! ### The handlers -/

section Handlers

/-- The wait queues by the `tid`, when one of them changes. -/
theorem senders_update [TaskAlloc A] (hids : k.Ids) (hr : r ∈ k.mapTid)
    (hlook : ∀ tid, k'.kTaskMgrGetTaskDsp tid = k.kTaskMgrGetTaskDsp tid) {l : List TdPtr}
    (hqueue : ∀ x, k'.queue x = if x = r then l else k.queue x) (tid : ℤ) :
  k'.senders tid = if tid = (k.td r).tid then l else k.senders tid
  := by
  rw [senders, senders, hlook]
  by_cases htid : tid = (k.td r).tid
  · rw [if_pos htid, htid, hids.kTaskMgrGetTaskDsp_eq hr]
    exact (hqueue r).trans (if_pos rfl)
  · rw [if_neg htid]
    cases hfind : k.kTaskMgrGetTaskDsp tid with
    | none => rfl
    | some p =>
      have hpr : p ≠ r := by
        rintro rfl
        exact htid (kTaskMgrGetTaskDsp_some hfind).2.symm
      exact (hqueue p).trans (if_neg hpr)

theorem td_modifyMailbox (k : Kernel A) (p : TdPtr) (f : Mailbox → Mailbox) (x : TdPtr) :
  (k.modifyMailbox p f).td x =
    if x = p then { k.td p with mailbox := f (k.td p).mailbox } else k.td x
  := k.modify_td p (fun t => { t with mailbox := f t.mailbox }) x

theorem sameCalls_setRing (k : Kernel A) (r : TdPtr) (ring : RingBuffer TdPtr) (x : TdPtr) :
  SameCalls k (k.setRing r ring) x
  := by
  have htd : (k.setRing r ring).td x = if x = r then
      { k.td r with mailbox := { (k.td r).mailbox with senderWaitqueue := ring } }
      else k.td x :=
    k.td_modifyMailbox r (fun m => { m with senderWaitqueue := ring }) x
  by_cases hx : x = r
  · have hmail : ((k.setRing r ring).td x).mailbox
        = { (k.td x).mailbox with senderWaitqueue := ring } := by rw [htd, if_pos hx, hx]
    exact sameCalls_of_ring (tid_setRing k r ring x) hmail rfl
  · rw [if_neg hx] at htd
    exact sameCalls_of_eq htd rfl

theorem sameCalls_setState (k : Kernel A) (p : TdPtr) (st : ℕ) (x : TdPtr) :
  SameCalls k (k.setState p st) x
  := by
  have htd : (k.setState p st).td x = if x = p then { k.td p with state := st } else k.td x :=
    k.modify_td p (fun t => { t with state := st }) x
  have hmail : ((k.setState p st).td x).mailbox = (k.td x).mailbox := by
    rw [htd]
    split
    · rename_i hx
      rw [hx]
    · rfl
  exact sameCalls_of_mailbox ((sameQueues_setState k p st).tid x) hmail rfl

/-- The two mailboxes are set up and the message is delivered. -/
def handOver (y : Kernel A) (r s : TdPtr) (l : DList.Links TdPtr) (hd : Blocked → Option TdPtr) :
    Kernel A :=
  ((((y.deliver r s).setState s TaskState.replyBlocked).relink l hd).kSchedAddReady r).setCurrent
    none

theorem matched_handOver [TaskAlloc A] {y : Kernel A} {l : DList.Links TdPtr}
    {hd : Blocked → Option TdPtr} (hrs : r ≠ s) (hmap : k.mapTid = y.mapTid)
    (htid : (k.td r).tid = (y.td r).tid)
    (hstate : ∀ x, x ≠ r → x ≠ s → k.state x = y.state x)
    (hcalls : ∀ x, SameCalls y k x)
    (hsenders : ∀ tid, k.senders tid = if tid = (k.td r).tid then s :: y.senders tid
      else y.senders tid) :
  Matched k (y.handOver r s l hd) r s
  := by
  let z := ((y.deliver r s).setState s TaskState.replyBlocked).relink l hd
  have hztd : ∀ x, z.td x = if x = s then { y.td s with state := TaskState.replyBlocked }
      else if x = r then
        { y.td r with syscallRetval := BitVec.ofNat 64 (y.td s).mailbox.outMsgLen }
      else y.td x := by
    intro x
    apply ((y.deliver r s).modify_td s (fun t => { t with state := TaskState.replyBlocked })
      x).trans
    rw [td_deliver, td_deliver, if_neg hrs.symm]
  have hsame : SameQueues y (y.handOver r s l hd) :=
    ((((y.agree_deliver r s).sameQueues.trans (sameQueues_setState _ _ _)).trans
      (sameQueues_relink _ _ _)).trans (sameQueues_kSchedAddReady _ _)).trans
      (agree_setCurrent _ _).sameQueues
  have hmem : (y.handOver r s l hd).mem = (y.deliver r s).mem := z.kSchedAddReady_mem r
  constructor
  · exact hsame.mapTid.trans hmap.symm
  · exact (hsame.tid r).trans htid.symm
  · intro x
    apply (z.state_kSchedAddReady r x).trans
    split
    · rfl
    · rename_i hxr
      rw [state, hztd]
      split
      · rfl
      · rename_i hxs
        exact (hstate x hxr hxs).symm
  · intro x hx
    have hmail : ((y.handOver r s l hd).td x).mailbox = (y.td x).mailbox := by
      apply (z.mailbox_kSchedAddReady r x).trans
      rw [hztd, if_neg hx]
      split
      · rename_i hxs
        rw [hxs]
      · rfl
    apply (hcalls x).symm.trans
    apply sameCalls_of_mailbox (hsame.tid x) hmail
    rw [hmem, mem_deliver, if_neg hx]
  · intro tid
    rw [hsenders, hsame.senders]
  · intro dest place
    rw [(hcalls s).send, (hcalls r).recv, Received, view, hmem, mem_deliver, if_pos rfl]
    have hret : ((y.handOver r s l hd).td r).syscallRetval
        = BitVec.ofNat 64 (y.td s).mailbox.outMsgLen := by
      apply (z.retval_kSchedAddReady r r).trans
      rw [hztd, if_neg hrs, if_pos rfl]
    rw [hret]
    rfl

theorem senders_eq [TaskAlloc A] (hids : k.Ids) (hr : r ∈ k.mapTid) :
  k.senders (k.td r).tid = k.queue r
  := by rw [senders, hids.kTaskMgrGetTaskDsp_eq hr]

/-- Putting the sender into the wait queue of `r`. -/
theorem enqueued_setRing [TaskAlloc A] (hids : k.Ids) (hr : r ∈ k.mapTid) {ring : RingBuffer TdPtr}
    (hring : ring.toList = k.queue r ++ [c]) (msg msglen reply rplen : ℕ) :
  Enqueued k (((k.sendInit c msg msglen reply rplen).setRing r ring).setState c
    TaskState.sendBlocked) c r
  := by
  let y := k.sendInit c msg msglen reply rplen
  have hinit := k.agree_sendInit c msg msglen reply rplen
  have hsame := sameQueues_setState (y.setRing r ring) c TaskState.sendBlocked
  constructor
  · rfl
  · rw [hsame.tid, tid_setRing, hinit.tid]
  · intro x
    rw [state_setState, state_setRing, hinit.state]
  · intro x hx
    have htd : y.td x = k.td x := (k.td_modifyMailbox c _ x).trans (if_neg hx)
    have hcalls : SameCalls k y x := sameCalls_of_eq htd rfl
    exact (hcalls.trans (y.sameCalls_setRing r ring x)).trans (sameCalls_setState _ c _ x)
  · intro tid
    rw [senders_update hids hr (l := k.queue r ++ [c])]
    · split
      · rename_i htid
        rw [htid, senders_eq hids hr]
      · rfl
    · intro tid
      have hmap : (y.setRing r ring).mapTid = y.mapTid := rfl
      have hlook := lookup_congr hmap (tid_setRing y r ring) tid
      rw [hsame.lookup, hlook, hinit.sameQueues.lookup]
    · intro x
      rw [hsame.queue, queue, ring_setRing, ← hring]
      split
      · rfl
      · exact hinit.sameQueues.queue x

/-- The call of `ke_send` is recorded as the mailbox of the sender holds it. -/
theorem issue_send (h : History) {ctx : Ctx} {tid : ℤ} {msg msglen reply rplen : ℕ}
    (hc : k.current = some c) (hlook : k.kTaskMgrGetTaskDsp tid = some r) :
  h.issue k (.syscall ctx (.send tid msg msglen reply rplen))
    = h.issued c ((k.sendInit c msg msglen reply rplen).sendCall c tid (h.sends tid).length)
  := by
  have htd : (k.sendInit c msg msglen reply rplen).td c
      = { k.td c with mailbox := kMboxSendInit (k.td c).mailbox msg msglen reply rplen } :=
    (k.td_modifyMailbox c _ c).trans (if_pos rfl)
  simp only [History.issue, hc, hlook, History.issued, sendCall, htd, kMboxSendInit]
  rfl

/-- A call that changes only its task. -/
theorem Corresponds.own {h : History} (hk : Corresponds k h) (hready : k.state c = TaskState.ready)
    (hc' : ¬ k'.Messaging c) (hsame : SameQueues k k') (htd : ∀ x, x ≠ c → k'.td x = k.td x)
    (hmem : ∀ x, x ≠ c → k'.mem x = k.mem x) :
  Corresponds k' (h.observe k')
  := by
  have hk' := hk.undisturbed
    (undisturbed_own (not_messaging_ready hready) hc' hsame htd hmem)
  rw [hk'.observe]
  exact hk'

theorem Corresponds.setRetval [TaskAlloc A] {h : History} (hk : Corresponds k h)
    (hready : k.state c = TaskState.ready) (v : BitVec 64) :
  Corresponds (k.setRetval c v) (h.observe (k.setRetval c v))
  := by
  have hagree := k.agree_setRetval c v
  apply hk.own hready (not_messaging_ready ((hagree.state c).trans hready)) hagree.sameQueues
  · intro x hx
    exact (k.modify_td c _ x).trans (if_neg hx)
  · intro x _
    rfl

/-- A step that changes no task. -/
theorem undisturbed_of_eq (hmap : k'.mapTid = k.mapTid) (htd : k'.td = k.td)
    (hmem : k'.mem = k.mem) :
  Undisturbed k k'
  := by
  constructor
  · intro p
    have hp : k'.td p = k.td p := congrFun htd p
    exact kept_of_state hmap (congrArg TaskDsp.state hp) fun _ =>
      sameCalls_of_eq hp (congrFun hmem p)
  · intro tid
    rw [senders, senders, kTaskMgrGetTaskDsp, kTaskMgrGetTaskDsp, hmap, htd]
    simp only [queue, ring, htd]

/-- Leaving a handler. -/
theorem undisturbed_leave (k : Kernel A) (l : DList.Links TdPtr)
    (hd : Blocked → Option TdPtr) :
  Undisturbed k ((k.relink l hd).setCurrent none)
  := undisturbed_of_eq rfl rfl rfl

theorem undisturbed_setPoint (k : Kernel A) (point : Point) :
  Undisturbed k (k.setPoint point)
  := undisturbed_of_eq rfl rfl rfl

section Send

variable [TaskAlloc A] {ch : Prop} {sent : TdPtr → ℤ} {h : History} {ctx : Ctx} {tid : ℤ}
  {msg msglen reply rplen : ℕ}

omit [TaskAlloc A] in
/-- The mailbox of the sender holds the call while the sender is queued. -/
theorem sameCalls_enqueued (y : Kernel A) (c r : TdPtr) (ring : RingBuffer TdPtr) (x : TdPtr) :
  SameCalls y ((y.setRing r ring).setState c TaskState.sendBlocked) x
  := (y.sameCalls_setRing r ring x).trans (sameCalls_setState _ c _ x)

/-- The invariant when the sender is queued. -/
theorem Corresponds.queued (hk : Corresponds k h) (hids : k.Ids) (hr : r ∈ k.mapTid)
    (hc : c ∈ k.mapTid) (hready : k.state c = TaskState.ready) {ring : RingBuffer TdPtr}
    (hring : ring.toList = k.queue r ++ [c]) (msg msglen reply rplen : ℕ) :
  Corresponds (((k.sendInit c msg msglen reply rplen).setRing r ring).setState c
      TaskState.sendBlocked)
    (h.issued c ((k.sendInit c msg msglen reply rplen).sendCall c (k.td r).tid
      (h.sends (k.td r).tid).length))
  := by
  have hen := enqueued_setRing hids hr hring msg msglen reply rplen
  rw [← (sameCalls_enqueued (k.sendInit c msg msglen reply rplen) c r ring c).send]
  exact hk.enqueued hids hen hc hready

/-- A message that is delivered at once makes both moves. -/
theorem matched_direct (hids : k.Ids) (hr : r ∈ k.mapTid) (hrc : r ≠ c) (hnil : k.queue r = [])
    {ring : RingBuffer TdPtr} (hring : ring.toList = k.queue r ++ [c])
    (msg msglen reply rplen : ℕ) (l : DList.Links TdPtr) (hd : Blocked → Option TdPtr) :
  Matched (((k.sendInit c msg msglen reply rplen).setRing r ring).setState c
      TaskState.sendBlocked)
    ((k.sendInit c msg msglen reply rplen).handOver r c l hd) r c
  := by
  have hen := enqueued_setRing hids hr hring msg msglen reply rplen
  have hinit := k.agree_sendInit c msg msglen reply rplen
  have htids : ∀ x, (((((k.sendInit c msg msglen reply rplen).setRing r ring).setState c
      TaskState.sendBlocked)).td x).tid = ((k.sendInit c msg msglen reply rplen).td x).tid :=
    fun x => ((sameQueues_setState _ _ _).tid x).trans (tid_setRing _ r ring x)
  have hcalls := sameCalls_enqueued (k.sendInit c msg msglen reply rplen) c r ring
  generalize hy : k.sendInit c msg msglen reply rplen = y at *
  generalize hk₂ : (y.setRing r ring).setState c TaskState.sendBlocked = k₂ at *
  apply matched_handOver hrc
  · exact hen.mapTid.trans hinit.mapTid.symm
  · exact htids r
  · intro x _ hxc
    rw [hen.state, if_neg hxc, hinit.state]
  · exact hcalls
  · intro t
    rw [hen.senders, hinit.sameQueues.senders, htids, hinit.tid]
    split
    · rename_i ht
      rw [ht, senders_eq hids hr, hnil]
      rfl
    · rfl

theorem send_corresponds (hcore : Core True ch sent k q [c]) (hc : k.current = some c)
    (hready : k.state c = TaskState.ready) (hk : Corresponds k h)
    (hroom : k.SendRoom (.syscall ctx (.send tid msg msglen reply rplen)))
    (hok : ch → k.Room (.syscall ctx (.send tid msg msglen reply rplen)))
    (hk' : k.kSendHandler tid msg msglen reply rplen = some k') :
  Corresponds k' ((h.issue k (.syscall ctx (.send tid msg msglen reply rplen))).observe k')
  := by
  have hcmap := hcore.base.lists.floating c (List.mem_singleton.mpr rfl)
  have hids := hcore.base.ids
  cases hlook : k.kTaskMgrGetTaskDsp tid with
  | none =>
    obtain rfl := Option.some.inj ((kSendHandler_none hc hlook).symm.trans hk')
    have hissue : h.issue k (.syscall ctx (.send tid msg msglen reply rplen)) = h := by
      simp only [History.issue, hc, hlook]
    rw [hissue]
    exact hk.setRetval hready _
  | some r =>
    obtain ⟨hr, htid⟩ := kTaskMgrGetTaskDsp_some hlook
    rw [issue_send h hc hlook]
    by_cases hrecv : k.state r = TaskState.receiveBlocked
    · have hrc : r ≠ c := by
        rintro rfl
        rw [hready] at hrecv
        cases hrecv
      obtain ⟨k₁, l, hd, q', heq, hk₁, -, hcore'⟩ :=
        kSendHandler_direct hcore hc hready hlook hrecv fun hch => hok hch r hlook hrecv
      obtain rfl := Option.some.inj (heq.symm.trans hk')
      have hnil : k.queue r = [] := by
        apply hcore.queues.recv
        apply hcore.base.lists.mem_of_test hr
        · simpa using hrc
        · rw [hrecv]
          rfl
      obtain ⟨hwf, hcap⟩ := hcore.queues.wf r hr
      have hsize : (k.ring r).size < (k.ring r).capacity := by
        rw [hcap, ← RingBuffer.length_toList]
        exact (congrArg List.length hnil).trans_lt (by decide)
      -- as if the sender were queued first
      obtain ⟨ring, -, -, -, hring⟩ := kMboxAddSendQueue_room hwf hsize c
      have hqueued := hk.queued hids hr hcmap hready hring msg msglen reply rplen
      have hen := enqueued_setRing hids hr hring msg msglen reply rplen
      have hm := matched_direct hids hr hrc hnil hring msg msglen reply rplen l hd
      rw [htid] at hqueued
      have hids' : ((k.sendInit c msg msglen reply rplen).handOver r c l hd).Ids := by
        rw [handOver, ← hk₁]
        exact hcore'.base.ids
      have hmatched := hqueued.matched hm hr
        (by
          rw [hen.state, if_neg hrc]
          exact hrecv)
        (by rw [hen.state, if_pos rfl]) hcmap hids'
      rw [hk₁]
      exact hmatched
    · obtain ⟨k₁, ring, l, hd, q', heq, hk₁, hring, -, -, hcore'⟩ :=
        kSendHandler_queued hcore hc hlook hrecv ((hroom r hlook).resolve_left hrecv)
      obtain rfl := Option.some.inj (heq.symm.trans hk')
      have hqueued := hk.queued hids hr hcmap hready hring msg msglen reply rplen
      rw [htid] at hqueued
      have hleave := hqueued.undisturbed (undisturbed_leave _ l hd)
      rw [hk₁, hleave.observe]
      exact hleave

end Send

section Recv

variable [TaskAlloc A] {ch : Prop} {sent : TdPtr → ℤ} {h : History} {ctx : Ctx}
  {tid msg msglen : ℕ}

/-- The receiver waits. -/
theorem blocks_setState (k : Kernel A) (c : TdPtr) (tid msg msglen : ℕ) :
  Blocks k ((k.recvInit c tid msg msglen).setState c TaskState.receiveBlocked) c
  := by
  have hinit := agree_recvInit k c tid msg msglen
  constructor
  · rfl
  · intro x
    rw [state_setState, hinit.state]
  · intro x hx
    have htd : (k.recvInit c tid msg msglen).td x = k.td x :=
      (k.td_modifyMailbox c _ x).trans (if_neg hx)
    have hcalls : SameCalls k (k.recvInit c tid msg msglen) x := sameCalls_of_eq htd rfl
    exact hcalls.trans (sameCalls_setState _ c _ x)
  · exact (hinit.sameQueues.trans (sameQueues_setState _ _ _)).senders

omit [TaskAlloc A] in
/-- The call of `ke_recv` is recorded as the mailbox of the receiver holds it. -/
theorem issue_recv (h : History) (hc : k.current = some c) :
  h.issue k (.syscall ctx (.recv tid msg msglen))
    = h.waits c (((k.recvInit c tid msg msglen).setState c
      TaskState.receiveBlocked).recvCall c)
  := by
  have htd : (k.recvInit c tid msg msglen).td c
      = { k.td c with mailbox := kMboxRecvInit (k.td c).mailbox msg msglen tid } :=
    (k.td_modifyMailbox c _ c).trans (if_pos rfl)
  rw [(sameCalls_setState _ c _ c).recv]
  simp only [History.issue, hc, History.waits, recvCall, htd, kMboxRecvInit]
  rfl

omit [TaskAlloc A] in
/-- Taking a sender out of the wait queue of `c` does not change the calls. -/
theorem sameCalls_recvInit_setRing (k : Kernel A) (c : TdPtr) (ring : RingBuffer TdPtr)
    (tid msg msglen : ℕ) (x : TdPtr) :
  SameCalls ((k.setRing c ring).recvInit c tid msg msglen) (k.recvInit c tid msg msglen) x
  := by
  have htd₁ : (k.recvInit c tid msg msglen).td x = if x = c then
      { k.td c with mailbox := kMboxRecvInit (k.td c).mailbox msg msglen tid } else k.td x :=
    k.td_modifyMailbox c _ x
  have htd₂ : ((k.setRing c ring).recvInit c tid msg msglen).td x = if x = c then
      { (k.setRing c ring).td c with
        mailbox := kMboxRecvInit ((k.setRing c ring).td c).mailbox msg msglen tid }
      else (k.setRing c ring).td x :=
    (k.setRing c ring).td_modifyMailbox c _ x
  have htd₃ : ∀ y, (k.setRing c ring).td y = if y = c then
      { k.td c with mailbox := { (k.td c).mailbox with senderWaitqueue := ring } } else k.td y :=
    k.td_modifyMailbox c _
  rw [htd₃, htd₃, if_pos rfl] at htd₂
  by_cases hx : x = c
  · rw [if_pos hx] at htd₁ htd₂
    have hmail : ((k.recvInit c tid msg msglen).td x).mailbox
        = { (((k.setRing c ring).recvInit c tid msg msglen).td x).mailbox with
          senderWaitqueue := (k.td c).mailbox.senderWaitqueue } := by
      rw [htd₁, htd₂]
      rfl
    apply sameCalls_of_ring _ hmail rfl
    rw [htd₁, htd₂]
  · rw [if_neg hx] at htd₁ htd₂
    rw [if_neg hx] at htd₂
    exact sameCalls_of_eq (htd₁.trans htd₂.symm) rfl

/-- A message that was queued is delivered as if the receiver waited first. -/
theorem matched_take (hids : k.Ids) (hc : c ∈ k.mapTid) (hsc : s ≠ c) {rest : List TdPtr}
    (hqueue : k.queue c = s :: rest) {ring : RingBuffer TdPtr} (hring : ring.toList = rest)
    (tid msg msglen : ℕ) (l : DList.Links TdPtr) (hd : Blocked → Option TdPtr) :
  Matched ((k.recvInit c tid msg msglen).setState c TaskState.receiveBlocked)
    (((k.setRing c ring).recvInit c tid msg msglen).handOver c s l hd) c s
  := by
  have hblocks := k.blocks_setState c tid msg msglen
  have hinit := agree_recvInit k c tid msg msglen
  have hinit' := agree_recvInit (k.setRing c ring) c tid msg msglen
  have htids : ∀ x, (((k.recvInit c tid msg msglen).setState c
      TaskState.receiveBlocked).td x).tid = (k.td x).tid :=
    fun x => ((sameQueues_setState _ _ _).tid x).trans (hinit.tid x)
  have hcalls : ∀ x, SameCalls ((k.setRing c ring).recvInit c tid msg msglen)
      ((k.recvInit c tid msg msglen).setState c TaskState.receiveBlocked) x := fun x =>
    (k.sameCalls_recvInit_setRing c ring tid msg msglen x).trans (sameCalls_setState _ c _ x)
  generalize (k.recvInit c tid msg msglen).setState c TaskState.receiveBlocked = k₂ at *
  generalize (k.setRing c ring).recvInit c tid msg msglen = y at *
  apply matched_handOver hsc.symm
  · exact hblocks.mapTid.trans hinit'.mapTid.symm
  · rw [htids, hinit'.tid, tid_setRing]
  · intro x hxc _
    rw [hblocks.state, if_neg hxc, hinit'.state, state_setRing]
  · exact hcalls
  · intro t
    have hmap : (k.setRing c ring).mapTid = k.mapTid := rfl
    have hlook : ∀ t, y.kTaskMgrGetTaskDsp t = k.kTaskMgrGetTaskDsp t := fun t =>
      (hinit'.sameQueues.lookup t).trans (lookup_congr hmap (tid_setRing k c ring) t)
    have hqueues : ∀ x, y.queue x = if x = c then rest else k.queue x := by
      intro x
      rw [hinit'.sameQueues.queue, queue, ring_setRing, ← hring]
      split <;> rfl
    rw [hblocks.senders, htids, senders_update hids hc hlook hqueues]
    split
    · rename_i ht
      rw [ht, senders_eq hids hc, hqueue]
    · rfl

theorem recv_corresponds (hcore : Core True ch sent k q [c]) (hc : k.current = some c)
    (hready : k.state c = TaskState.ready) (hk : Corresponds k h)
    (hok : ch → k.Room (.syscall ctx (.recv tid msg msglen)))
    (hk' : k.kRecvHandler tid msg msglen = some k') :
  Corresponds k' ((h.issue k (.syscall ctx (.recv tid msg msglen))).observe k')
  := by
  have hcmap := hcore.base.lists.floating c (List.mem_singleton.mpr rfl)
  have hcfree := hcore.base.lists.not_mem_of_floating (List.mem_singleton.mpr rfl) .send
  rw [issue_recv h hc]
  have hblocks := k.blocks_setState c tid msg msglen
  have hwaits := hk.blocks hblocks hcmap hready
  cases hqueue : k.queue c with
  | nil =>
    obtain ⟨k₁, l, hd, q', heq, hk₁, -⟩ : ∃ k' l hd q', k.kRecvHandler tid msg msglen = some k'
        ∧ k' = (((k.recvInit c tid msg msglen).setState c TaskState.receiveBlocked).relink l
          hd).setCurrent none
        ∧ Core True ch sent k' q' [] := kRecvHandler_wait hcore hc hqueue
    obtain rfl := Option.some.inj (heq.symm.trans hk')
    rw [hk₁]
    have hleave := hwaits.undisturbed (undisturbed_leave _ l hd)
    rw [hleave.observe]
    exact hleave
  | cons s rest =>
    obtain ⟨k₁, ring, l, hd, q', heq, hk₁, hring, hsend, hcore'⟩ := kRecvHandler_take hcore hc
      hqueue fun hch => hok hch c hc (by rw [hqueue]; exact List.cons_ne_nil s rest)
    obtain rfl := Option.some.inj (heq.symm.trans hk')
    have hsc : s ≠ c := ne_of_mem_of_not_mem hsend hcfree
    have hm := matched_take hcore.base.ids hcmap hsc hqueue hring tid msg msglen l hd
    have hids' : (((k.setRing c ring).recvInit c tid msg msglen).handOver c s l hd).Ids := by
      rw [handOver, ← hk₁]
      exact hcore'.base.ids
    obtain ⟨hsmap, -, ht⟩ := (hcore.base.lists.mem_iff .send s).mp hsend
    have hmatched := hwaits.matched hm hcmap
      (by rw [hblocks.state, if_pos rfl])
      (by
        rw [hblocks.state, if_neg hsc]
        simpa [Blocked.test] using ht) hsmap hids'
    rw [hk₁]
    exact hmatched

end Recv

section Reply

variable {h : History}

/-- The message of a task that is in a wait queue has not been received. -/
theorem Corresponds.unreceived (hk : Corresponds k h) {tid : ℤ} (hs : s ∈ k.senders tid)
    {call : SendCall} (hcall : h.sending s = some call) :
  (h.receipts call.dest).length ≤ call.place
  := by
  obtain ⟨done, waiting, hsends, hdone, hwaiting⟩ := hk.inOrder tid
  obtain ⟨i, hi, rfl⟩ := List.getElem_of_mem hs
  have hi' : i < waiting.length := by
    rw [← hwaiting.length_eq]
    exact hi
  have hget := hwaiting.get hi hi'
  have heq : waiting[i] = call := Option.some.inj (hget.symm.trans hcall)
  have hplaced : (h.sends tid)[done.length + i]? = some call := by
    rw [hsends, List.getElem?_append_right (Nat.le_add_right _ _), Nat.add_sub_cancel_left,
      List.getElem?_eq_getElem hi', heq]
  obtain ⟨hdest, hplace⟩ := hk.numbered tid _ call hplaced
  rw [hdest, hplace, ← hdone.length_eq]
  exact Nat.le_add_right _ _

variable [TaskAlloc A] {ch : Prop} {sent : TdPtr → ℤ} {ctx : Ctx} {tid : ℤ}
  {reply rplen : ℕ}

/-- A task in a wait queue waits to send. -/
theorem Core.senders_blocked {cq : Prop} {F : List TdPtr} (hcore : Core cq ch sent k q F)
    (hs : s ∈ k.senders tid) :
  k.state s = TaskState.sendBlocked
  := by
  rw [senders] at hs
  split at hs
  · rename_i p hlook
    have hsend := hcore.queues.send p (kTaskMgrGetTaskDsp_some hlook).1 s hs
    have ht := ((hcore.base.lists.mem_iff .send s).mp hsend).2.2
    simpa [Blocked.test] using ht
  · cases hs

/-- A task that waits to send, and does not float, is in a wait queue. -/
theorem Core.mem_senders {F : List TdPtr} (hcore : Core True ch sent k q F) (hs : s ∈ k.mapTid)
    (hF : s ∉ F) (hstate : k.state s = TaskState.sendBlocked) :
  ∃ tid, s ∈ k.senders tid
  := by
  have hsend : s ∈ q .send := by
    apply hcore.base.lists.mem_of_test hs hF
    rw [hstate]
    rfl
  obtain ⟨p, hp, hmem, -⟩ := hcore.queues.queued trivial s hsend
  use (k.td p).tid
  rw [senders_eq hcore.base.ids hp]
  exact hmem

/-- The answer to a task that waits for a reply. -/
theorem replied_answer (k : Kernel A) {c r : TdPtr} (hrc : r ≠ c)
    (hready : k.state c = TaskState.ready) (reply rplen : ℕ) (l : DList.Links TdPtr)
    (hd : Blocked → Option TdPtr) :
  Replied k (((k.answer c r reply rplen).relink l hd).kSchedAddReady r) r
    ⟨k.mem c, reply, rplen⟩
  := by
  let z := (k.answer c r reply rplen).relink l hd
  have hsame : SameQueues k (z.kSchedAddReady r) :=
    ((k.agree_answer c r reply rplen).sameQueues.trans (sameQueues_relink _ _ _)).trans
      (sameQueues_kSchedAddReady _ _)
  have hztd : ∀ x, z.td x = if x = c then
        { k.td c with
          syscallRetval := BitVec.ofNat 64 (min rplen (k.td r).mailbox.inBufLen) }
      else if x = r then { k.td r with syscallRetval := BitVec.ofNat 64 rplen }
      else k.td x := by
    intro x
    simp only [z, relink, answer, modifyMem, setRetval, modify_td, if_neg hrc.symm]
  have hzmem : ∀ x, z.mem x = if x = r then
        { k.mem r with
          bytes := utilMemcpy (k.mem r).bytes (k.td r).mailbox.inBuf (k.mem c).bytes reply
            (min rplen (k.td r).mailbox.inBufLen) }
      else k.mem x := by
    intro x
    simp only [z, relink, answer, modifyMem, setRetval, modify, Function.update_apply]
    simp [hrc]
  constructor
  · exact hsame.mapTid
  · exact hsame.tid r
  · intro x
    apply (z.state_kSchedAddReady r x).trans
    split
    · rfl
    · exact (k.agree_answer c r reply rplen).state x
  · intro x hx hmsg
    have hxc : x ≠ c := by
      rintro rfl
      exact not_messaging_ready hready hmsg
    have hmail : ((z.kSchedAddReady r).td x).mailbox = (k.td x).mailbox := by
      apply (z.mailbox_kSchedAddReady r x).trans
      rw [hztd, if_neg hxc, if_neg hx]
    apply sameCalls_of_mailbox (hsame.tid x) hmail
    rw [kSchedAddReady_mem, hzmem, if_neg hx]
  · exact hsame.senders
  · intro dest place
    refine ⟨rfl, ?_⟩
    have hret : ((z.kSchedAddReady r).td r).syscallRetval = BitVec.ofNat 64 rplen := by
      apply (z.retval_kSchedAddReady r r).trans
      rw [hztd, if_neg hrc, if_pos rfl]
    dsimp only [view]
    rw [hret, kSchedAddReady_mem, hzmem, if_pos rfl]
    rfl

theorem reply_corresponds (hcore : Core True ch sent k q [c]) (hc : k.current = some c)
    (hready : k.state c = TaskState.ready) (hk : Corresponds k h)
    (hok : ch → k.Room (.syscall ctx (.reply tid reply rplen)))
    (hk' : k.kReplyHandler tid reply rplen = some k') :
  Corresponds k' ((h.issue k (.syscall ctx (.reply tid reply rplen))).observe k')
  := by
  cases hlook : k.kTaskMgrGetTaskDsp tid with
  | none =>
    obtain rfl := Option.some.inj ((kReplyHandler_none hc hlook).symm.trans hk')
    have hissue : h.issue k (.syscall ctx (.reply tid reply rplen)) = h := by
      simp only [History.issue, hc, hlook, Option.bind_none]
    rw [hissue]
    exact hk.setRetval hready _
  | some r =>
    obtain ⟨hr, htid⟩ := kTaskMgrGetTaskDsp_some hlook
    by_cases hreply : k.state r = TaskState.replyBlocked
    · obtain ⟨k₁, l, hd, q', heq, hk₁, hcore'⟩ := kReplyHandler_answer hcore hc hready hlook hreply
        fun hch => hok hch r hlook hreply
      obtain rfl := Option.some.inj (heq.symm.trans hk')
      have hrc : r ≠ c := by
        rintro rfl
        rw [hready] at hreply
        cases hreply
      obtain ⟨-, call, hcall, -, hplace⟩ := (hk.holds r).of_reply hr hreply
      have hissue : h.issue k (.syscall ctx (.reply tid reply rplen))
          = h.replied (k.td r).tid call ⟨k.mem c, reply, rplen⟩ := by
        simp only [History.issue, hc, hlook, Option.bind_some, hcall, if_pos hplace,
          History.replied, htid]
      have hfree : ∀ t, r ∉ k.senders t := by
        intro t hmem
        have hblocked := hcore.senders_blocked hmem
        rw [hreply] at hblocked
        cases hblocked
      have hm := k.replied_answer hrc hready reply rplen l hd
      rw [hissue]
      rw [← hk₁] at hm
      exact hk.replied hm hr hreply hcall hcore.base.ids hcore'.base.ids hfree
    · obtain rfl := Option.some.inj ((kReplyHandler_not hc hlook hreply).symm.trans hk')
      have hissue : h.issue k (.syscall ctx (.reply tid reply rplen)) = h := by
        simp only [History.issue, hc, hlook, Option.bind_some]
        cases hk.holds r with
        | idle hsending | receives _ _ hsending => rw [hsending]
        | sends call _ hsend hcall =>
          have hrF : r ∉ [c] := by
            rw [List.mem_singleton]
            rintro rfl
            rw [hready] at hsend
            cases hsend
          obtain ⟨t, hmem⟩ := hcore.mem_senders hr hrF hsend
          rw [hcall]
          dsimp only
          rw [if_neg (Nat.not_lt.mpr (hk.unreceived hmem hcall))]
        | replies _ _ hstate => exact absurd hstate hreply
      rw [hissue]
      exact hk.setRetval hready _

end Reply

section Others

variable [TaskAlloc A] {ch : Prop} {sent : TdPtr → ℤ} {h : History} {ctx : Ctx}

/-- A task that exits has nobody in its wait queue. -/
theorem undisturbed_exit (hcore : Core True ch sent k q [c]) (hc : k.current = some c)
    (hready : k.state c = TaskState.ready) (hsafe : k.StackSafe c) (hnil : k.queue c = []) :
  Undisturbed k ((k.kTmgrDestroyTask c).setCurrent none)
  := by
  have hids := hcore.base.ids
  have hids' := (kExitHandler_spec hcore hc hsafe fun _ => hnil).2.base.ids
  have hmem : ∀ p, p ∈ ((k.kTmgrDestroyTask c).setCurrent none).mapTid ↔ p ≠ c ∧ p ∈ k.mapTid :=
    fun p => hids.nodup.mem_erase_iff
  constructor
  · intro p
    constructor
    · intro hp hmsg
      have hpc : p ≠ c := by
        rintro rfl
        exact not_messaging_ready hready hmsg
      exact ⟨(hmem p).mpr ⟨hpc, hp⟩, rfl, sameCalls_of_eq rfl rfl⟩
    · intro hp hmsg
      exact ⟨((hmem p).mp hp).2, hmsg⟩
  · intro tid
    cases hlook : k.kTaskMgrGetTaskDsp tid with
    | none =>
      have hlook' : ((k.kTmgrDestroyTask c).setCurrent none).kTaskMgrGetTaskDsp tid = none := by
        apply Option.eq_none_iff_forall_not_mem.mpr
        intro p hp
        obtain ⟨hp, htid⟩ := kTaskMgrGetTaskDsp_some hp
        exact kTaskMgrGetTaskDsp_none hlook p ((hmem p).mp hp).2 htid
      rw [senders, senders, hlook, hlook']
    | some p =>
      obtain ⟨hp, htid⟩ := kTaskMgrGetTaskDsp_some hlook
      by_cases hpc : p = c
      · have hlook' : ((k.kTmgrDestroyTask c).setCurrent none).kTaskMgrGetTaskDsp tid = none := by
          apply Option.eq_none_iff_forall_not_mem.mpr
          intro x hx
          obtain ⟨hx, htid'⟩ := kTaskMgrGetTaskDsp_some hx
          obtain ⟨hxc, hx⟩ := (hmem x).mp hx
          apply hxc
          rw [← hpc]
          exact hids.tid_inj x hx p hp (Eq.trans htid' htid.symm)
        rw [senders, senders, hlook, hlook']
        dsimp only
        rw [hpc, hnil]
      · have hp' := (hmem p).mpr ⟨hpc, hp⟩
        have hlook' := hids'.kTaskMgrGetTaskDsp_eq hp'
        have htid' : (((k.kTmgrDestroyTask c).setCurrent none).td p).tid = tid := htid
        rw [htid'] at hlook'
        rw [senders, senders, hlook, hlook']
        rfl

/-- A new task. -/
theorem undisturbed_born (hids : k.Ids) (hb : Born k k' p)
    (hmem : ∀ x, x ≠ p → k'.mem x = k.mem x) :
  Undisturbed k k'
  := by
  have hnew := hb.not_mem hids
  have hold : ∀ x ∈ k.mapTid, x ≠ p := fun x hx => ne_of_mem_of_not_mem hx hnew
  have hmap : ∀ x, x ∈ k'.mapTid ↔ x ∈ k.mapTid ∨ x = p := by
    intro x
    rw [hb.mapTid, List.mem_append, List.mem_singleton]
  constructor
  · intro x
    constructor
    · intro hx hmsg
      have htd := hb.td x (hold x hx)
      exact ⟨(hmap x).mpr (Or.inl hx), congrArg TaskDsp.state htd,
        sameCalls_of_eq htd (hmem x (hold x hx))⟩
    · intro hx hmsg
      obtain hx | hx := (hmap x).mp hx
      · have hstate : k'.state x = k.state x := congrArg TaskDsp.state (hb.td x (hold x hx))
        rw [Messaging, hstate] at hmsg
        exact ⟨hx, hmsg⟩
      · rw [hx] at hmsg
        exact absurd hmsg (not_messaging_ready hb.state)
  · intro tid
    have hlook : k'.kTaskMgrGetTaskDsp tid = (k.kTaskMgrGetTaskDsp tid).or
        (if k.nextTid = tid then some p else none) := by
      rw [kTaskMgrGetTaskDsp, hb.mapTid, List.find?_append, kTaskMgrGetTaskDsp]
      congr 1
      · apply List.find?_congr
        intro x hx
        rw [hb.td x (hold x hx)]
      · rw [List.find?_singleton, hb.tid]
        simp only [decide_eq_true_eq]
    rw [senders, senders, hlook]
    cases hfind : k.kTaskMgrGetTaskDsp tid with
    | none =>
      rw [Option.none_or]
      split
      · rename_i x hx
        split at hx
        · rw [← Option.some.inj hx, queue, hb.ring]
          rfl
        · cases hx
      · rfl
    | some x =>
      have hx := hold x (kTaskMgrGetTaskDsp_some hfind).1
      rw [Option.some_or]
      dsimp only
      rw [queue, queue, ring, ring, hb.td x hx]

theorem undisturbed_setRetval (hready : k.state c = TaskState.ready) (v : BitVec 64) :
  Undisturbed k (k.setRetval c v)
  := by
  have hagree := k.agree_setRetval c v
  apply undisturbed_own (not_messaging_ready hready)
    (not_messaging_ready ((hagree.state c).trans hready)) hagree.sameQueues
  · intro x hx
    exact (k.modify_td c _ x).trans (if_neg hx)
  · intro x _
    rfl

omit [TaskAlloc A] in
theorem undisturbed_addReady (hp : ¬ k.Messaging p) :
  Undisturbed k (k.kSchedAddReady p)
  := by
  have hready : (k.kSchedAddReady p).state p = TaskState.ready :=
    (k.state_kSchedAddReady p p).trans (if_pos rfl)
  apply undisturbed_own hp (not_messaging_ready hready) (sameQueues_kSchedAddReady k p)
  · obtain ⟨n, htd⟩ := k.td_kSchedAddReady p
    intro x hx
    rw [htd, if_neg hx]
  · intro x _
    rw [kSchedAddReady_mem]

theorem undisturbed_create {priority : ℤ} {args argsLen : ℕ} (hids : k.Ids)
    (hc : k.current = some c) (hready : k.state c = TaskState.ready)
    (hcmap : c ∈ k.mapTid) (hok : k.AllocOk (.syscall ctx (.create priority args argsLen)))
    (hk' : k.kCreateHandler priority args argsLen = some k') :
  Undisturbed k k'
  := by
  obtain ⟨alloc, heq, hagree⟩ | ⟨alloc, p, stackAddr, -, heq, hborn⟩ :=
    kCreateHandler_cases args hids hc hok
  · obtain rfl := Option.some.inj (heq.symm.trans hk')
    apply undisturbed_own (not_messaging_ready hready)
      (not_messaging_ready ((hagree.state c).trans hready)) hagree.sameQueues
    · intro x hx
      exact (modify_td _ c _ x).trans (if_neg hx)
    · intro x _
      rfl
  · have hcp : c ≠ p := ne_of_mem_of_not_mem hcmap (hborn.not_mem hids)
    obtain rfl := Option.some.inj (heq.symm.trans hk')
    have hstate : ((k.created alloc p stackAddr c priority.toNat args argsLen).kSchedAddReady
        p).state c = TaskState.ready := by
      apply (state_kSchedAddReady _ p c).trans
      rw [if_neg hcp, state, hborn.td c hcp]
      exact hready
    have hnew := undisturbed_born hids hborn fun x hx => Function.update_of_ne hx _ _
    exact (hnew.trans (undisturbed_addReady (not_messaging_ready hborn.state))).trans
      (undisturbed_setRetval hstate _)

omit [TaskAlloc A] in
/-- The tasks that an interrupt wakes up wait for an event. -/
theorem undisturbed_woken {ts : List TdPtr} (hw : Woken k k' ts)
    (hts : ∀ p ∈ ts, ¬ k.Messaging p) :
  Undisturbed k k'
  := by
  constructor
  · intro p
    have hstate := hw.state p
    split at hstate
    · rename_i hp
      exact ⟨fun _ hmsg => absurd hmsg (hts p hp),
        fun _ hmsg => absurd hmsg (not_messaging_ready hstate)⟩
    · exact kept_of_state hw.mapTid hstate fun _ =>
        sameCalls_of_mailbox (hw.tid p) (hw.mailbox p) (congrFun hw.mem p)
  · intro tid
    rw [senders, senders, lookup_congr hw.mapTid hw.tid]
    simp only [queue, ring, hw.mailbox]

end Others

/-! ### Steps -/

section Step

variable [TaskAlloc A] {ch : Prop} {sent : TdPtr → ℤ} {h : History}

/-- The record of a call does not depend on the registers that are saved. -/
theorem issue_storeTd (h : History) (k : Kernel A) (p : TdPtr) (ctx : Ctx) (esrEl1 : ℕ) (a : Act) :
  h.issue (k.storeTd p ctx esrEl1) a = h.issue k a
  := by
  have hagree := k.agree_storeTd p ctx esrEl1
  have hlook := hagree.sameQueues.lookup
  cases a with
  | syscall ctx' call =>
    cases call <;> simp only [History.issue, hlook, hagree.tid] <;> rfl
  | _ => rfl

/-- Every system call. -/
theorem handle_corresponds {ctx : Ctx} {call : Call} (hcore : Core True ch sent k q [c])
    (hc : k.current = some c) (hready : k.state c = TaskState.ready) (hk : Corresponds k h)
    (hok : Ok True ch k (.syscall ctx call)) (hk' : k.handle call = some k') :
  Corresponds k' ((h.issue k (.syscall ctx call)).observe k')
  := by
  have hcmap := hcore.base.lists.floating c (List.mem_singleton.mpr rfl)
  have hquiet : Undisturbed k k' → Corresponds k' (h.observe k') := by
    intro hu
    rw [(hk.undisturbed hu).observe]
    exact hk.undisturbed hu
  have hown : ∀ {k' : Kernel A}, Agree k k' → (∀ x, x ≠ c → k'.td x = k.td x) →
      (∀ x, x ≠ c → k'.mem x = k.mem x) → Undisturbed k k' := fun hagree htd hmem =>
    undisturbed_own (not_messaging_ready hready)
      (not_messaging_ready ((hagree.state c).trans hready)) hagree.sameQueues htd hmem
  cases call with
  | exit =>
    obtain ⟨heq, -⟩ := kExitHandler_spec hcore hc (hok.alloc c hc) fun _ => hok.exit trivial c hc
    obtain rfl := Option.some.inj (heq.symm.trans hk')
    exact hquiet (undisturbed_exit hcore hc hready (hok.alloc c hc) (hok.exit trivial c hc))
  | yield =>
    obtain rfl := Option.some.inj hk'
    have hissue : h.issue k (.syscall ctx .yield) = h := rfl
    rw [hissue, hk.observe]
    exact hk
  | create priority args argsLen =>
    exact hquiet (undisturbed_create hcore.base.ids hc hready hcmap hok.alloc hk')
  | myTid =>
    obtain rfl := Option.some.inj ((kMyTidHandler_spec hc).symm.trans hk')
    exact hquiet (undisturbed_setRetval hready _)
  | myParentTid =>
    obtain ⟨v, w, heq, hagree⟩ := kMyParentTidHandler_spec hc
    obtain rfl := Option.some.inj (heq.symm.trans hk')
    apply hquiet (hown hagree _ fun x _ => rfl)
    intro x hx
    apply (modify_td _ c _ x).trans
    rw [if_neg hx, modify_td, if_neg hx]
  | send tid msg msglen reply rplen =>
    exact send_corresponds hcore hc hready hk (hok.send trivial) hok.room hk'
  | recv tid msg msglen => exact recv_corresponds hcore hc hready hk hok.room hk'
  | reply tid reply rplen => exact reply_corresponds hcore hc hready hk hok.room hk'
  | awaitEvent intrId =>
    obtain ⟨k₁, l, hd, q', heq, hk₁, -⟩ := kAwaitEventHandler_spec hcore hc hok.event
    obtain rfl := Option.some.inj (heq.symm.trans hk')
    apply hquiet
    rw [hk₁]
    apply Undisturbed.trans _ (undisturbed_leave _ l hd)
    apply undisturbed_own (not_messaging_ready hready) _ (sameQueues_setState k c intrId)
    · intro x hx
      exact (k.modify_td c _ x).trans (if_neg hx)
    · intro x _
      rfl
    · have hid : keIntrIdRangeMin ≤ intrId := hok.event
      apply not_messaging_event
      rwa [state_setState, if_pos rfl]
  | mmap target memSz =>
    obtain ⟨alloc, f, heq, hagree⟩ := kMmapHandler_spec hc target memSz
    obtain rfl := Option.some.inj (heq.symm.trans hk')
    apply hquiet (hown hagree _ _)
    · intro x hx
      exact (modify_td _ c _ x).trans (if_neg hx)
    · intro x hx
      exact Function.update_of_ne hx _ _
  | other retval =>
    have heq : k.handle (.other retval) = some (k.setRetval c retval) := by
      rw [handle, hc]
      rfl
    obtain rfl := Option.some.inj (heq.symm.trans hk')
    exact hquiet (undisturbed_setRetval hready _)

/-- What one action keeps. -/
theorem Corresponds.step (hk : Corresponds k h) (hinv : Inv True ch sent k) {a : Act}
    (hok : Ok True ch k a) (hstep : k.step a = some k') :
  Corresponds k' ((h.issue k a).observe k')
  := by
  have hquiet : Undisturbed k k' → Corresponds k' (h.observe k') := by
    intro hu
    rw [(hk.undisturbed hu).observe]
    exact hk.undisturbed hu
  cases a with
  | schedule =>
    obtain rfl := Option.some.inj hstep
    apply hquiet
    rw [schedule]
    obtain ⟨heq, -⟩ | ⟨p, heap, heq, -⟩ := k.kSchedGetNext_eq <;> rw [heq] <;>
    exact undisturbed_of_eq rfl rfl rfl
  | write mem =>
    obtain ⟨c, hc⟩ := Option.ne_none_iff_exists'.mp (hinv.running hok.enabled)
    have hready : k.state c = TaskState.ready := by
      apply hinv.ready _ c hc
      rw [show k.point = .user from hok.enabled]
      exact Point.noConfusion
    rw [Kernel.step, hc] at hstep
    obtain rfl := Option.some.inj hstep
    have hagree := k.agree_modifyMem c fun _ => mem
    apply hquiet
    apply undisturbed_own (not_messaging_ready hready)
      (not_messaging_ready ((hagree.state c).trans hready)) hagree.sameQueues
    · intro x _
      rfl
    · intro x hx
      exact Function.update_of_ne hx _ _
  | syscall ctx call =>
    obtain ⟨c, q, hc, hidle, hcore, hready, hstep'⟩ := hinv.trapped hok.enabled
    have hagree := k.agree_storeTd c ctx (esrSvc call.number)
    have hstored := hk.undisturbed (undisturbed_own
      (not_messaging_ready ((hagree.state c).symm.trans hready)) (not_messaging_ready hready)
      hagree.sameQueues (fun x hx => (k.modify_td c _ x).trans (if_neg hx)) fun _ _ => rfl)
    have hok₁ := hok.storeTd c ctx (esrSvc call.number)
    obtain ⟨k₁, hk₁, -⟩ := handle_spec hcore hc hready hidle call hok.event hok₁.alloc
      hok₁.send hok₁.exit hok₁.room
    obtain rfl := Option.some.inj ((hstep' k₁ hk₁).symm.trans hstep)
    have hhandled := handle_corresponds hcore hc hready hstored hok₁ hk₁
    rw [issue_storeTd] at hhandled
    exact hhandled.undisturbed (undisturbed_setPoint k₁ .bottom)
  | interrupt ctx x0 irqs =>
    obtain ⟨c, k₁, ts, hc, hstep', hwoken, hts, -⟩ :=
      interrupt_spec hinv hok.enabled ctx x0 irqs hok.room
    obtain rfl := Option.some.inj (hstep'.symm.trans hstep)
    have hready : k.state c = TaskState.ready := by
      apply hinv.ready _ c hc
      rw [show k.point = .user from hok.enabled]
      exact Point.noConfusion
    have hagree := k.agree_storeTd c ctx 0
    apply hquiet
    apply Undisturbed.trans _ (undisturbed_setPoint k₁ .bottom)
    have hstored : Undisturbed k ((k.storeTd c ctx 0).setRetval c x0) := by
      apply Undisturbed.trans _ (undisturbed_setRetval ((hagree.state c).trans hready) x0)
      exact undisturbed_own (not_messaging_ready hready)
        (not_messaging_ready ((hagree.state c).trans hready)) hagree.sameQueues
        (fun x hx => (k.modify_td c _ x).trans (if_neg hx)) fun _ _ => rfl
    apply hstored.trans (undisturbed_woken hwoken _)
    intro p hp
    apply not_messaging_event
    rw [(agree_setRetval _ c x0).state, hagree.state]
    exact le_of_mem_eventIds (mem_waiting.mp ((hts p).mp hp)).2
  | requeue =>
    obtain rfl := Option.some.inj hstep
    apply hquiet
    rw [requeue]
    split
    · exact undisturbed_setPoint k .top
    · rename_i c hc
      have hready : k.state c = TaskState.ready := by
        apply hinv.ready _ c hc
        rw [show k.point = .bottom from hok.enabled]
        exact Point.noConfusion
      split
      · exact undisturbed_setPoint k .top
      · exact (undisturbed_addReady (not_messaging_ready hready)).trans
          (undisturbed_setPoint _ .top)

end Step


end Handlers

/-! ### Runs -/

section Runs

variable [TaskAlloc A] {h : History}

/-- At the start nobody waits, and no call was made. -/
theorem Booted.corresponds (hboot : Booted k₀) :
  Corresponds k₀ History.empty
  := by
  obtain ⟨q, hcore⟩ : ∃ q, Core True False (fun _ => 0) k₀ q [] := by
    obtain ⟨q, hcore, -, -⟩ := hboot.spec fun _ => 0
    exact ⟨q, hcore⟩
  have hready := hboot.started.ready
  have hnil : ∀ tid, k₀.senders tid = [] := by
    intro tid
    apply List.eq_nil_iff_forall_not_mem.mpr
    intro s hs
    have hblocked := hcore.senders_blocked hs
    rw [senders] at hs
    split at hs
    · rename_i p hlook
      have hsend := hcore.queues.send p (kTaskMgrGetTaskDsp_some hlook).1 s hs
      rw [hready s ((hcore.base.lists.mem_iff .send s).mp hsend).1] at hblocked
      cases hblocked
    · cases hs
  constructor
  · intro tid
    refine ⟨[], [], rfl, List.Forall₂.nil, ?_⟩
    rw [hnil]
    exact List.Forall₂.nil
  · exact fun _ => List.Forall₂.nil
  · exact fun tid => Or.inl ⟨rfl, by rintro _ _ ⟨⟩⟩
  · rintro _ _ _ ⟨⟩
  · exact fun p => Holds.idle rfl rfl fun hp => not_messaging_ready (hready p hp)

theorem Corresponds.rendezvous {cq ch : Prop} {sent : TdPtr → ℤ} (hk : Corresponds k h)
    (hinv : Inv cq ch sent k) :
  Rendezvous k h
  := by
  obtain ⟨q, hcore⟩ := hinv.core
  constructor
  · intro tid
    obtain ⟨done, waiting, hsends, hdone, hwaiting⟩ := hk.inOrder tid
    refine ⟨done, waiting, hsends, hdone, ?_⟩
    exact (List.forall₂_and_left _ _).mpr ⟨fun s hs => hcore.senders_blocked hs, hwaiting⟩
  · exact hk.answered
  · intro tid
    obtain ⟨hcalls, -⟩ | ⟨-, call, -, -, hcalls⟩ := hk.calls tid
    · exact hcalls ▸ List.prefix_rfl
    · rw [hcalls]
      exact List.prefix_append _ _

/-- In every run in which no message is sent to a task whose wait queue is full, no task
exits with somebody in its wait queue, the awaited events are events and the tasks are
initialised, the messages are received in the order in which they were sent, and the calls
of `ke_send` are answered by the first reply after that. -/
theorem kernel_rendezvous (hboot : Booted k₀) {as : List Act}
    (has : Run.Meets stepHistory (fun kh a => kh.1.SendOk a) (k₀, History.empty) as) :
  ∃ kh, Run.run stepHistory (k₀, History.empty) as = some kh ∧ Rendezvous kh.1 kh.2
  := by
  obtain ⟨kh, hrun, ⟨sent, hinv⟩, hk⟩ := Run.run_invariant
    (P := fun kh : Kernel A × History => (∃ sent, Inv True False sent kh.1)
      ∧ Corresponds kh.1 kh.2) (by
      rintro kh a ⟨⟨sent, hinv⟩, hk⟩ hok
      obtain ⟨k', hstep, hinv'⟩ := step_inv hinv hok.ok
      refine ⟨(k', (kh.2.issue kh.1 a).observe k'), ?_, ⟨_, hinv'⟩,
        hk.step hinv hok.ok hstep⟩
      rw [stepHistory, hstep]
      rfl) ⟨⟨fun _ => 0, hboot.inv _⟩, hboot.corresponds⟩ has
  exact ⟨kh, hrun, hk.rendezvous hinv⟩

/-- The conditions but for those on the creation of tasks, and room in the ready heap. -/
structure MessageOk (k : Kernel A) (a : Act) : Prop where
  enabled : k.Enabled a
  event : EventOk a
  send : k.SendRoom a
  exit : k.ExitQuiet a
  room : k.Room a

end Runs

/-- A computable form of `MessageOk`, for actions other than interrupts and exits. -/
def messageCheck (k : Kernel A) : Act → Bool
  | .interrupt _ _ _ => false
  | .syscall _ .exit => false
  | .syscall ctx (.send tid msg msglen reply rplen) =>
      k.eventsCheck (.syscall ctx (.send tid msg msglen reply rplen))
        && k.heap.count < kSchedHeapCapacity
        && (k.kTaskMgrGetTaskDsp tid).all fun r => (k.queue r).length < userStackArrayCnt
  | a => k.eventsCheck a && k.heap.count < kSchedHeapCapacity

theorem messageOk_of_check [TaskAlloc A] {a : Act} (h : k.messageCheck a = true) :
  k.MessageOk a
  := by
  cases a with
  | interrupt ctx x0 irqs => simp only [messageCheck, Bool.false_eq_true] at h
  | syscall ctx call =>
    cases call with
    | exit => simp only [messageCheck, Bool.false_eq_true] at h
    | send tid msg msglen reply rplen =>
      simp only [messageCheck, Bool.and_eq_true, decide_eq_true_eq] at h
      obtain ⟨⟨hevents, hcount⟩, hall⟩ := h
      obtain ⟨henabled, hevent⟩ := eventsOk_of_check hevents
      refine ⟨henabled, hevent, ?_, trivial, fun _ _ _ => hcount⟩
      intro r hr
      rw [hr] at hall
      exact Or.inr (of_decide_eq_true hall)
    | _ =>
      simp only [messageCheck, Bool.and_eq_true, decide_eq_true_eq] at h
      obtain ⟨henabled, hevent⟩ := eventsOk_of_check h.1
      refine ⟨henabled, hevent, trivial, trivial, ?_⟩
      first
        | trivial
        | exact Or.inr h.2
        | exact fun _ _ _ => h.2
  | requeue =>
    simp only [messageCheck, Bool.and_eq_true, decide_eq_true_eq] at h
    obtain ⟨henabled, hevent⟩ := eventsOk_of_check h.1
    exact ⟨henabled, hevent, trivial, trivial, fun _ _ _ => h.2⟩
  | _ =>
    simp only [messageCheck, Bool.and_eq_true] at h
    obtain ⟨henabled, hevent⟩ := eventsOk_of_check h.1
    exact ⟨henabled, hevent, trivial, trivial, trivial⟩

/-- A computable form of `SendOk`. -/
def exchangeCheck (kh : Kernel Arena × History) (a : Act) : Bool :=
  kh.1.linkCheck a && kh.1.messageCheck a

theorem sendOk_of_check {kh : Kernel Arena × History} {a : Act}
    (h : exchangeCheck kh a = true) :
  kh.1.SendOk a
  := by
  rw [exchangeCheck, Bool.and_eq_true] at h
  have hlink := linkOk_of_check h.1
  have hmsg := messageOk_of_check h.2
  exact ⟨hlink.enabled, hlink.event, hlink.alloc, hmsg.send, hmsg.exit⟩

/-- `user_entry` waits to receive, the name server sends it four bytes, and it replies with
six. -/
def exchange : List Act :=
  callTurn (.recv 0 0 8) ++ callTurn (.send 1 0 4 0 8) ++ callTurn (.reply 2 0 6)

/-- The name server is heard and answered. -/
theorem kernel_rendezvous_exchange :
  ∃ kh, Run.run stepHistory (Arena.bootKernel, History.empty) exchange = some kh
    ∧ Rendezvous kh.1 kh.2
  := by
  apply kernel_rendezvous Arena.booted
  have hcheck : Run.allOk stepHistory exchangeCheck (Arena.bootKernel, History.empty) exchange
      = true := by decide +kernel
  exact Run.meets_of_allOk (fun _ _ => sendOk_of_check) hcheck

/-! ### A task that is left uninitialised -/

/-- The memory before `k_main`, with zeros where the descriptor of the fourth task will be
allocated. -/
def zeros : Kernel Arena :=
  { Arena.blankKernel with
    td := Function.update Arena.blankKernel.td 7
      { Arena.blankKernel.td 7 with
        mailbox := { kMboxInit with senderWaitqueue := RingBuffer.init 0 0 } } }

/-- The kernel when it enters the loop. -/
def zerosBoot : Kernel Arena :=
  (kMain zeros (fun _ => 0) 0 0).getD zeros

/-- `user_entry` calls `ke_create` with the priority `21`, and the name server sends to the
task that is left. -/
def zerosRun : List Act :=
  callTurn (.create 21 0 0) ++ callTurn (.send 3 0 8 0 8)

/-- The wait queue of the task that is left has no slot: the message is lost, although
nobody exits, the heap has room and no wait queue has more than 64 senders. -/
theorem kernel_not_rendezvous :
  ∃ k₀ : Kernel Arena, Booted k₀ ∧ ∃ as kh,
    Run.Meets stepHistory (fun kh a => kh.1.MessageOk a) (k₀, History.empty) as
    ∧ Run.run stepHistory (k₀, History.empty) as = some kh ∧ ¬ Rendezvous kh.1 kh.2
  := by
  have hcheck : Run.allOk stepHistory (fun kh a => kh.1.messageCheck a)
      (zerosBoot, History.empty) zerosRun = true := by decide +kernel
  have hlast : ((Run.run stepHistory (zerosBoot, History.empty) zerosRun).any fun kh =>
      kh.1.senders 3 = [] && (kh.2.receipts 3).isEmpty && (kh.2.sends 3).length = 1)
      = true := by decide +kernel
  obtain ⟨kh, hrun, hkh⟩ := (Option.any_eq_true _ _).mp hlast
  simp only [Bool.and_eq_true, decide_eq_true_eq, List.isEmpty_iff] at hkh
  obtain ⟨⟨hsenders, hreceipts⟩, hsends⟩ := hkh
  refine ⟨zerosBoot, ⟨zeros, fun _ => 0, 0, 0, trivial, rfl, rfl⟩, zerosRun, kh,
    Run.meets_of_allOk (fun _ _ => messageOk_of_check) hcheck, hrun, ?_⟩
  intro hrendezvous
  obtain ⟨done, waiting, heq, hdone, hwaiting⟩ := hrendezvous.received 3
  have hdone' := hdone.length_eq
  have hwaiting' := hwaiting.length_eq
  rw [hreceipts] at hdone'
  rw [hsenders] at hwaiting'
  rw [heq, List.length_append, hdone', ← hwaiting'] at hsends
  cases hsends

end Kernel

end TrainsOs
