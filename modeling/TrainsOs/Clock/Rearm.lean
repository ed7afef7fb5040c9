import TrainsOs.Clock.Notifier

/-!
# The notifier before the server

The reply to the notifier puts it into the ready heap in front of the server. It stays
there, runs first and waits for the interrupt, and then the server arms the timer: unless
an interrupt comes while the notifier runs, which puts it behind the server.
-/

namespace TrainsOs.Clock

variable {H : MinHeap WaitReq heapCapacity} {A : Type}

namespace Sys

variable (t : Tasks)

/-- What happens does not disturb the notifier: no interrupt comes between the reply that it
gets and its wait, and none of the timer to a notifier that waits before the timer is armed,
and no other task replies to the notifier. -/
def Calm (s : Sys H A) : Act → Prop
  | .syscall _ (.reply tid _ _) => s.kernel.current ≠ some t.server → tid ≠ t.notifierTid
  | .interrupt _ _ irqs =>
      (s.kernel.current = some t.notifier → s.notifier ≠ .sending ∧ s.notifier ≠ .await)
        ∧ (intrIdTimer ∈ Kernel.eventIds irqs → s.kernel.state t.notifier = intrIdTimer →
          s.compare ≠ none)
  | _ => True

/-- The phase of the notifier. -/
def InPhase (s : Sys H A) (phase : Phase) : Prop :=
  NotifierAt (s.kernel.state t.notifier) (retOk (s.kernel.td t.notifier).syscallRetval) s.notifier
    phase

/-- The two tasks are where their programs are. A notifier that is released runs before the
server. -/
def Placed (s : Sys H A) : Prop :=
  ∃ phase, s.InPhase t phase
    ∧ ServerAt t.notifierTid (s.kernel.state t.server) ⟨phase, s.compare⟩ s.server
    ∧ (phase = .released → s.kernel.Ahead t.notifier t.server)

/-- The server and the notifier are alive and where their programs are. -/
structure Good (s : Sys H A) : Prop where
  server_alive : t.server ∈ s.kernel.mapTid
  notifier_alive : t.notifier ∈ s.kernel.mapTid
  server_tid : (s.kernel.td t.server).tid = t.serverTid
  notifier_tid : (s.kernel.td t.notifier).tid = t.notifierTid
  ne : t.server ≠ t.notifier
  idle : t.notifier ≠ s.kernel.idleTask
  priority : (s.kernel.td t.notifier).priority ≤ (s.kernel.td t.server).priority
  queued : ∀ p ∈ s.kernel.mapTid, t.notifier ∈ s.kernel.queue p → p = t.server
  placed : s.Placed t

/-- When the timer is armed, the notifier waits for its interrupt. -/
def Tied (s : Sys H A) : Prop :=
  s.compare ≠ none → t.notifier ∈ s.kernel.mapTid ∧ s.kernel.state t.notifier = intrIdTimer

/-- A released notifier that does nothing but compute stays in front of the server. -/
def Keeps (s : Sys H A) (a : Act) (k' : Kernel A) : Prop :=
  s.kernel.Ahead t.notifier t.server →
    (s.kernel.point = .user → s.kernel.current = some t.notifier → ∃ mem, a = .write mem) →
      k'.Ahead t.notifier t.server

variable {t} {s s' : Sys H A} {k' : Kernel A} {sent sent' : TdPtr → ℤ}

/-! ### Actions of the kernel -/

theorem kernel_after (s : Sys H A) (k' : Kernel A) (a : Act) :
  (s.after t k' a).kernel = k'
  := by
  cases a with
  | syscall ctx call =>
    rw [after]
    cases s.kernel.current <;> rfl
  | _ => rfl

theorem after_syscall {c : TdPtr} (hc : s.kernel.current = some c) (k' : Kernel A) (ctx : Ctx)
    (call : Call) :
  s.after t k' (.syscall ctx call)
    = { s with
        kernel := k'
        server :=
          if c = t.server then
            s.server.call t.server s.kernel k' call
          else
            s.server.hear t.server c s.kernel call
        notifier := if c = t.notifier then s.notifier.call call else s.notifier }
  := by rw [after, hc]

/-- The server that has exited does nothing any more. -/
theorem exited_after (h : s.server = .exited) (k' : Kernel A) (a : Act) :
  (s.after t k' a).server = .exited
  := by
  cases a with
  | syscall ctx call =>
    cases hc : s.kernel.current with
    | none =>
      rw [after, hc]
      exact h
    | some c =>
      rw [after_syscall hc]
      dsimp only
      rw [h]
      split_ifs <;> rfl
  | _ => exact h

/-- A notifier that is left alone stays where it is. -/
theorem InPhase.spared {phase : Phase} (h : s.InPhase t phase)
    (hspared : Kernel.Spared s.kernel k' t.notifier) :
  NotifierAt (k'.state t.notifier) (retOk (k'.td t.notifier).syscallRetval) s.notifier phase
  := by
  rw [hspared.state, hspared.syscallRetval]
  exact h

/-- A call that does not free the server brings it no message. -/
theorem hear_of_not_frees {k : Kernel A} {p : TdPtr} {ctx : Ctx} {call : Call}
    (h : ¬ k.Frees p (.syscall ctx call)) (c : TdPtr) (pc : ServerPc H) :
  pc.hear p c k call = pc
  := by
  cases pc with
  | receives l sender =>
    cases sender with
    | none =>
      cases call with
      | send tid msg msglen reply rplen => exact if_neg h
      | _ => rfl
    | some tid => rfl
  | _ => rfl

/-- The server is freed only by a message, and only when it is in `ker_recv`. -/
theorem freed_server {k : Kernel A} {p : TdPtr} {tid : ℤ} {v : View} {pc : ServerPc H}
    (h : ServerAt tid (k.state p) v pc) {ctx : Ctx} {call : Call}
    (hfree : k.Frees p (.syscall ctx call)) :
  ∃ l tid msg msglen reply rplen, pc = .receives l none ∧ Settled v
    ∧ call = .send tid msg msglen reply rplen
  := by
  cases call <;> try exact hfree.elim
  case send tid msg msglen reply rplen =>
    rw [hfree.1] at h
    cases pc with
    | runs program => exact absurd h.1 (by decide)
    | receives l sender =>
      cases sender with
      | none => exact ⟨l, tid, msg, msglen, reply, rplen, rfl, h.2, rfl⟩
      | some tid => exact absurd h.1 (by decide)
    | exited => exact h.elim
  case recv tid msg msglen =>
    obtain hn | hn := h.state
    · exact absurd (hn.symm.trans hfree.1) (by decide)
    · exact absurd (hn.symm.trans hfree.1) (by decide)
  case reply tid reply rplen =>
    obtain hn | hn := h.state
    · exact absurd (hn.symm.trans hfree.1) (by decide)
    · exact absurd (hn.symm.trans hfree.1) (by decide)

/-- The timer is not armed when the notifier does not wait. -/
theorem Tied.compare_eq_none (h : s.Tied t) (hn : s.kernel.state t.notifier ≠ intrIdTimer) :
  s.compare = none
  := by
  by_contra hne
  exact hn (h hne).2

/-- An interrupt of the timer wakes with the value `0`. -/
theorem wakeup_timer {irqs : List Irq} {w : ℕ × ℕ} (hw : w ∈ irqs.flatMap Irq.wakeups)
    (hid : w.1 = intrIdTimer) :
  w.2 = 0
  := by
  obtain ⟨irq, -, hw⟩ := List.mem_flatMap.mp hw
  cases irq with
  | timer =>
    obtain rfl := List.mem_singleton.mp hw
    rfl
  | uart status =>
    obtain ⟨id, -, rfl⟩ := List.mem_map.mp hw
    have hlt : intrIdTimer < intrIdUart id := by
      have hbase : intrIdTimer < 153 <<< 16 := by decide
      rw [intrIdUart]
      omega
    exact absurd hid hlt.ne'
  | gpio => cases hw

variable [TaskAlloc A]

/-- When the timer is armed the notifier is not disturbed. -/
theorem Tied.step (h : s.Tied t) (hinv : Kernel.Inv False False sent s.kernel) {a : Act}
    (hok : s.kernel.LinkOk a) (hk' : s.kernel.step a = some k') :
  (s.after t k' a).Tied t
  := by
  intro hne
  have hcompare : s.compare ≠ none
      ∧ ∀ ctx x0 irqs, a = .interrupt ctx x0 irqs → intrIdTimer ∉ Kernel.eventIds irqs := by
    cases a with
    | interrupt ctx x0 irqs =>
      rw [after] at hne
      dsimp only at hne
      split_ifs at hne with hid
      · exact absurd rfl hne
      · refine ⟨hne, ?_⟩
        rintro ctx' x0' irqs' ⟨⟩
        exact hid
    | syscall ctx call =>
      refine ⟨?_, fun _ _ _ => Act.noConfusion⟩
      rw [after] at hne
      cases hc : s.kernel.current <;> rw [hc] at hne <;> exact hne
    | _ => exact ⟨hne, fun _ _ _ => Act.noConfusion⟩
  obtain ⟨halive, hstate⟩ := h hcompare.1
  have hblocked : ∀ n < keIntrIdRangeMin, s.kernel.state t.notifier ≠ n := by
    intro n hn heq
    rw [← heq, hstate] at hn
    exact absurd hn (by decide)
  have hcur : s.kernel.point ≠ .top → s.kernel.current ≠ some t.notifier := by
    intro hpoint hc
    exact hblocked _ (by decide) (hinv.ready hpoint _ hc)
  have hfree : ¬ s.kernel.Frees t.notifier a := by
    intro hfree
    cases a with
    | interrupt ctx x0 irqs => exact hcompare.2 ctx x0 irqs rfl (hstate ▸ hfree)
    | syscall ctx call =>
      cases call with
      | send => exact hblocked _ (by decide) hfree.1
      | recv => exact hblocked _ (by decide) hfree.1
      | reply => exact hblocked _ (by decide) hfree.1
      | _ => exact hfree
    | _ => exact hfree
  have huser : s.kernel.point = .user → s.kernel.current ≠ some t.notifier := by
    intro hpoint
    apply hcur
    rw [hpoint]
    exact Point.noConfusion
  rw [kernel_after]
  constructor
  · apply (Kernel.joins_step hinv hok hk').alive t.notifier halive
    rintro ctx rfl hc
    exact huser hok.enabled.1 hc
  · exact (Kernel.spared_step hinv hok halive hfree huser hk').state.trans hstate

/-- An interrupt wakes the notifier up or does not concern it. -/
theorem Good.interrupt (h : s.Good t) (htied : s.Tied t)
    (hinv : Kernel.Inv False False sent s.kernel) {ctx : Ctx} {x0 : BitVec 64} {irqs : List Irq}
    (hok : s.kernel.LinkOk (.interrupt ctx x0 irqs))
    (hact : s.ActOk t (.interrupt ctx x0 irqs)) (hcalm : s.Calm t (.interrupt ctx x0 irqs))
    (hkeeps : s.Keeps t (.interrupt ctx x0 irqs) k')
    (hk' : s.kernel.step (.interrupt ctx x0 irqs) = some k') :
  (s.after t k' (.interrupt ctx x0 irqs)).Placed t
  := by
  obtain ⟨phase, hb, hs, hahead⟩ := h.placed
  have hserver : k'.state t.server = s.kernel.state t.server := by
    by_cases hcur : s.kernel.current = some t.server
    · rw [(Kernel.interrupt_current hinv hok hk' hcur).1, hinv.ready _ t.server hcur]
      rw [show s.kernel.point = .user from hok.enabled]
      exact Point.noConfusion
    · refine (Kernel.spared_step hinv hok h.server_alive ?_ (fun _ => hcur) hk').state
      intro hfree
      have hle := Kernel.le_of_mem_eventIds hfree
      obtain hn | hn := hs.state
      · rw [hn] at hle
        exact absurd hle (by decide)
      · rw [hn] at hle
        exact absurd hle (by decide)
  have hgoal : ∀ phase',
      NotifierAt (k'.state t.notifier) (retOk (k'.td t.notifier).syscallRetval) s.notifier phase' →
      Others ⟨phase, s.compare⟩
        ⟨phase', if intrIdTimer ∈ Kernel.eventIds irqs then none else s.compare⟩ →
      (phase' = .released → k'.Ahead t.notifier t.server) →
      (s.after t k' (.interrupt ctx x0 irqs)).Placed t := by
    intro phase' hb' hothers hahead'
    refine ⟨phase', hb', ?_, hahead'⟩
    have hs := hs.others hothers
    rw [← hserver] at hs
    exact hs
  -- an interrupt that does not wake the notifier comes when the timer is not armed
  have hpass : (phase = .waiting → intrIdTimer ∉ Kernel.eventIds irqs) →
      Others ⟨phase, s.compare⟩
        ⟨phase, if intrIdTimer ∈ Kernel.eventIds irqs then none else s.compare⟩ := by
    intro hwait
    split_ifs with hid
    · rw [htied.compare_eq_none]
      · exact Others.same _
      · intro hn
        have hphase := (hb.waits (hn ▸ by decide)).2.2
        exact hwait hphase hid
    · exact Others.same _
  by_cases hcur : s.kernel.current = some t.notifier
  · -- the notifier runs, so it does not wait
    have hn : s.kernel.state t.notifier = TaskState.ready := by
      apply hinv.ready _ t.notifier hcur
      rw [show s.kernel.point = .user from hok.enabled]
      exact Point.noConfusion
    obtain ⟨hready, hvalue⟩ := Kernel.interrupt_current hinv hok hk' hcur
    apply hgoal phase
    · rw [hready, ← hn]
      by_cases hreturns : s.notifier.Returns
      · rw [hvalue, hact hcur hreturns]
        exact hb
      · exact hb.of_not_returns hreturns _
    · apply hpass
      rintro rfl
      exact absurd (hn.symm.trans hb.of_waiting) (by decide)
    · rintro rfl
      obtain ⟨hsending, hawait⟩ := hcalm.1 hcur
      obtain ⟨-, hpc | hpc⟩ := hb.of_released
      · exact absurd hpc hsending
      · exact absurd hpc hawait
  by_cases hfree : s.kernel.Frees t.notifier (.interrupt ctx x0 irqs)
  · have hle : keIntrIdRangeMin ≤ s.kernel.state t.notifier := Kernel.le_of_mem_eventIds hfree
    obtain ⟨hwait, hpc, rfl⟩ := hb.waits hle
    have hid : intrIdTimer ∈ Kernel.eventIds irqs := hwait ▸ hfree
    apply hgoal .asking
    · rw [hpc, (Kernel.freed_step hinv hok h.notifier_alive hfree hk').1]
      obtain ⟨w, hw, hwid, hvalue⟩ :=
        Kernel.retval_interrupt hinv hok h.notifier_alive hfree hk'
      rw [hvalue, wakeup_timer hw (hwid.trans hwait)]
      exact NotifierAt.woken rfl (by decide)
    · obtain ⟨compare, hcompare⟩ := Option.ne_none_iff_exists'.mp (hcalm.2 hid hwait)
      rw [if_pos hid, hcompare]
      exact Others.tick compare
    · exact Phase.noConfusion
  · apply hgoal phase
    · apply hb.spared
      exact Kernel.spared_step hinv hok h.notifier_alive hfree (fun _ => hcur) hk'
    · apply hpass
      rintro rfl hid
      apply hfree
      rw [Kernel.Frees, hb.of_waiting]
      exact hid
    · intro hrel
      apply hkeeps (hahead hrel)
      exact fun _ hcur' => absurd hcur' hcur

/-- A call of another task: the notifier does not notice it, and the server may get a
message. -/
theorem Good.other (h : s.Good t) (hinv : Kernel.Inv False False sent s.kernel)
    {c : TdPtr} (hc : s.kernel.current = some c) (hserver : c ≠ t.server)
    (hnotifier : c ≠ t.notifier) {ctx : Ctx} {call : Call}
    (hok : s.kernel.LinkOk (.syscall ctx call)) (hcalm : s.Calm t (.syscall ctx call))
    (hkeeps : s.Keeps t (.syscall ctx call) k') (hk' : s.kernel.step (.syscall ctx call) = some k') :
  (s.after t k' (.syscall ctx call)).Placed t
  := by
  obtain ⟨phase, hb, hs, hahead⟩ := h.placed
  have hcmap : c ∈ s.kernel.mapTid := by
    obtain ⟨c', k₁, k₂, q, hc', -, rfl, hcore, -⟩ := hinv.calls hok hk'
    obtain rfl := Option.some.inj (hc.symm.trans hc')
    have hmap := Kernel.mem_mapTid_running hcore
    exact hmap
  have hne : ∀ {p}, c ≠ p → s.kernel.point = .user → s.kernel.current ≠ some p := by
    rintro p hne - hcur
    exact hne (Option.some.inj (hc.symm.trans hcur))
  have hfree : ¬ s.kernel.Frees t.notifier (.syscall ctx call) := by
    intro hfree
    cases call <;> try exact hfree
    case send tid msg msglen reply rplen => exact hb.not_receiveBlocked hfree.1
    case recv tid msg msglen =>
      obtain ⟨-, c', hc', hhead⟩ := hfree
      obtain rfl := Option.some.inj (hc.symm.trans hc')
      exact hserver (h.queued c hcmap (List.mem_of_mem_head? hhead))
    case reply tid reply rplen =>
      apply hcalm _ (hfree.2.symm.trans h.notifier_tid)
      exact fun hcur => hserver (Option.some.inj (hc.symm.trans hcur))
  have hspared := Kernel.spared_step hinv hok h.notifier_alive hfree (hne hnotifier) hk'
  rw [after_syscall hc, if_neg hserver, if_neg hnotifier]
  refine ⟨phase, hb.spared hspared, ?_, ?_⟩
  · by_cases hfree : s.kernel.Frees t.server (.syscall ctx call)
    · obtain ⟨hready, -⟩ := Kernel.freed_step hinv hok h.server_alive hfree hk'
      obtain ⟨l, tid, msg, msglen, reply, rplen, hpc, hsettled, rfl⟩ := freed_server hs hfree
      rw [hpc]
      have hhear : (ServerPc.receives l none : ServerPc H).hear t.server c s.kernel
          (.send tid msg msglen reply rplen) = .receives l (some (s.kernel.td c).tid) :=
        if_pos hfree
      have hother : (s.kernel.td c).tid ≠ t.notifierTid := by
        obtain ⟨q, hcore⟩ := hinv.core
        intro heq
        exact hnotifier (hcore.base.ids.tid_inj c hcmap t.notifier h.notifier_alive
          (heq.trans h.notifier_tid.symm))
      change ServerAt t.notifierTid (k'.state t.server) ⟨phase, s.compare⟩ _
      rw [hhear, hready]
      refine ⟨rfl, ?_⟩
      rw [if_neg hother]
      exact hsettled
    · have hstate := (Kernel.spared_step hinv hok h.server_alive hfree (hne hserver) hk').state
      rw [hear_of_not_frees hfree]
      exact hstate.symm ▸ hs
  · intro hrel
    apply hkeeps (hahead hrel)
    exact fun hpoint hcur => absurd hcur (hne hnotifier hpoint)

/-- A call of the notifier. -/
theorem Good.notifierCall (h : s.Good t) (htied : s.Tied t)
    (hinv : Kernel.Inv False False sent s.kernel)
    (hc : s.kernel.current = some t.notifier) {ctx : Ctx} {call : Call}
    (hok : s.kernel.LinkOk (.syscall ctx call)) (hmakes : s.notifier.Makes t call)
    (hk' : s.kernel.step (.syscall ctx call) = some k') :
  (s.after t k' (.syscall ctx call)).Placed t
  := by
  obtain ⟨phase, hb, hs, -⟩ := h.placed
  rw [after_syscall hc, if_neg (Ne.symm h.ne), if_pos rfl]
  suffices hgoal : ∃ phase',
      NotifierAt (k'.state t.notifier) (retOk (k'.td t.notifier).syscallRetval)
        (s.notifier.call call) phase'
      ∧ ServerAt t.notifierTid (k'.state t.server) ⟨phase', s.compare⟩
        (s.server.hear t.server t.notifier s.kernel call)
      ∧ phase' ≠ .released by
    obtain ⟨phase', hb', hs', hne⟩ := hgoal
    exact ⟨phase', hb', hs', fun hrel => absurd hrel hne⟩
  obtain ⟨c, k₁, k₂, q, hc', -, rfl, hcore, hc₁, hready, hagree, -, hk₂, heq⟩ := hinv.calls hok hk'
  obtain rfl := Option.some.inj (hc.symm.trans hc')
  have hspared : ¬ s.kernel.Frees t.server (.syscall ctx call) →
      k'.state t.server = s.kernel.state t.server := by
    intro hfree
    apply (Kernel.spared_step hinv hok h.server_alive hfree _ hk').state
    rintro - hcur
    exact h.ne (Option.some.inj (hcur.symm.trans hc))
  have hcompare : s.compare = none := by
    apply htied.compare_eq_none
    rw [← hagree.state, hready]
    decide
  rw [InPhase] at hb
  generalize s.notifier = pc at hb hmakes ⊢
  cases hb with
  | send =>
    cases call <;> try exact hmakes.elim
    case send tid msg msglen reply rplen =>
    have hlook : s.kernel.kTaskMgrGetTaskDsp tid = some t.server := by
      rw [show tid = t.serverTid from hmakes, ← h.server_tid]
      obtain ⟨q', hcore'⟩ := hinv.core
      exact hcore'.base.ids.kTaskMgrGetTaskDsp_eq h.server_alive
    obtain ⟨hnone, -⟩ | ⟨r, hr, hends⟩ := Kernel.send_ends hcore hc₁ hready hk₂
    · rw [hagree.sameQueues.lookup, hlook] at hnone
      cases hnone
    · rw [hagree.sameQueues.lookup, hlook] at hr
      obtain rfl := Option.some.inj hr
      rw [hagree.state] at hends
      obtain ⟨hwait, hends⟩ | ⟨hwait, hends⟩ := hends
      · have hfree : ¬ s.kernel.Frees t.server (.syscall ctx (.send tid msg msglen reply rplen)) :=
          fun hfree => hwait hfree.1
        rw [hear_of_not_frees hfree, hspared hfree, heq]
        exact ⟨.asking, NotifierAt.queued hends.state, hs, Phase.noConfusion⟩
      · have hfree : s.kernel.Frees t.server (.syscall ctx (.send tid msg msglen reply rplen)) :=
          ⟨hwait, h.server_tid.trans (show tid = t.serverTid from hmakes).symm⟩
        obtain ⟨hready', -⟩ := Kernel.freed_step hinv hok h.server_alive hfree hk'
        obtain ⟨l, -, -, -, -, -, hpc, -⟩ := freed_server hs hfree
        have hhear : s.server.hear t.server t.notifier s.kernel (.send tid msg msglen reply rplen)
            = .receives l (some t.notifierTid) := by
          rw [hpc, ← h.notifier_tid]
          exact if_pos hfree
        rw [hhear, hready', heq, hcompare]
        refine ⟨.received, NotifierAt.received hends.state, ⟨rfl, ?_⟩, Phase.noConfusion⟩
        rw [if_pos rfl]
        rfl
  | await =>
    cases call <;> try exact hmakes.elim
    case awaitEvent intrId =>
    have hends := Kernel.await_ends hcore hc₁ hok.event hk₂
    have hfree : ¬ s.kernel.Frees t.server (.syscall ctx (.awaitEvent intrId)) := id
    rw [hear_of_not_frees hfree, hspared hfree, heq]
    refine ⟨.waiting, NotifierAt.waiting (hends.state.trans hmakes), ?_, Phase.noConfusion⟩
    rw [hcompare] at hs ⊢
    exact hs.others Others.wait
  | queued => exact hmakes.elim
  | received => exact hmakes.elim
  | released => exact hmakes.elim
  | waiting => exact hmakes.elim
  | woken => exact hmakes.elim

/-- `ker_recv` of the server, between two messages. -/
theorem Good.serverRecv (h : s.Good t) (hinv : Kernel.Inv False False sent s.kernel)
    (hc : s.kernel.current = some t.server) {phase : Phase} (hb : s.InPhase t phase)
    (hphase : phase ≠ .released) (hs : Settled ⟨phase, s.compare⟩) {ctx : Ctx}
    {tid msg msglen : ℕ} (l : Locals H) (hok : s.kernel.LinkOk (.syscall ctx (.recv tid msg msglen)))
    (hk' : s.kernel.step (.syscall ctx (.recv tid msg msglen)) = some k') :
  ∃ phase', NotifierAt (k'.state t.notifier) (retOk (k'.td t.notifier).syscallRetval) s.notifier
      phase'
    ∧ ServerAt t.notifierTid (k'.state t.server) ⟨phase', s.compare⟩
      (.receives l ((s.kernel.queue t.server).head?.map fun q => (s.kernel.td q).tid))
    ∧ (phase' = .released → k'.Ahead t.notifier t.server)
  := by
  obtain ⟨c, k₁, k₂, q, hc', -, rfl, hcore, hc₁, hready, hagree, -, hk₂, heq⟩ := hinv.calls hok hk'
  obtain rfl := Option.some.inj (hc.symm.trans hc')
  have hqueue := hagree.sameQueues.queue t.server
  have hspared : ¬ s.kernel.Frees t.notifier (.syscall ctx (.recv tid msg msglen)) →
      Kernel.Spared s.kernel k' t.notifier := by
    intro hfree
    apply Kernel.spared_step hinv hok h.notifier_alive hfree _ hk'
    rintro - hcur
    exact h.ne (Option.some.inj (hc.symm.trans hcur))
  have hkept : phase = .released → k'.Ahead t.notifier t.server := fun hrel => absurd hrel hphase
  obtain ⟨hnil, hends⟩ | ⟨hcons, hends⟩ := Kernel.recv_ends hcore hc₁ hk₂
  · rw [hqueue] at hnil
    rw [hnil]
    refine ⟨phase, ?_, ⟨?_, hs⟩, hkept⟩
    · apply hb.spared
      apply hspared
      rintro ⟨-, c', hc', hhead⟩
      obtain rfl := Option.some.inj (hc.symm.trans hc')
      rw [hnil] at hhead
      cases hhead
    · rw [heq]
      exact hends.state
  · rw [hqueue] at hcons
    obtain ⟨x, rest, hx⟩ := List.exists_cons_of_ne_nil hcons
    rw [hx]
    have hstate : k'.state t.server = TaskState.ready := by
      rw [heq]
      exact hends.state
    obtain ⟨q', hcore'⟩ := hinv.core
    have hxsend := hcore'.queues.send t.server h.server_alive x (hx ▸ List.mem_cons_self)
    obtain ⟨hxmap, -, hxtest⟩ := (hcore'.base.lists.mem_iff .send x).mp hxsend
    have hxstate : s.kernel.state x = TaskState.sendBlocked := of_decide_eq_true hxtest
    by_cases hxb : x = t.notifier
    · subst hxb
      obtain ⟨hpc, rfl⟩ := hb.sendBlocked hxstate
      have hfree : s.kernel.Frees t.notifier (.syscall ctx (.recv tid msg msglen)) :=
        ⟨hxstate, t.server, hc, by rw [hx]; rfl⟩
      obtain ⟨hreply, -⟩ := Kernel.freed_step hinv hok h.notifier_alive hfree hk'
      refine ⟨.received, ?_, ⟨hstate, ?_⟩, Phase.noConfusion⟩
      · rw [hpc]
        exact NotifierAt.received hreply
      · rw [if_pos h.notifier_tid]
        exact hs.owed
    · refine ⟨phase, ?_, ⟨hstate, ?_⟩, hkept⟩
      · apply hb.spared
        apply hspared
        rintro ⟨-, c', hc', hhead⟩
        obtain rfl := Option.some.inj (hc.symm.trans hc')
        rw [hx] at hhead
        exact hxb (Option.some.inj hhead)
      · rw [if_neg]
        · exact hs
        · intro heq
          exact hxb (hcore'.base.ids.tid_inj x hxmap t.notifier h.notifier_alive
            (heq.trans h.notifier_tid.symm))

/-- `ker_reply` of the server. The notifier that it replies to is put in front of it. -/
theorem Good.serverReply (h : s.Good t) (hinv : Kernel.Inv False False sent s.kernel)
    (hc : s.kernel.current = some t.server) {phase : Phase} (hb : s.InPhase t phase)
    (hphase : phase ≠ .released) {tid : ℤ} {next : Bool → Program (Locals H)}
    (hs : spec t.notifierTid (.reply tid)
      (fun ok => Leads t.notifierTid (next ok) fun _ => Settled) ⟨phase, s.compare⟩)
    {ctx : Ctx} {reply rplen : ℕ} (hrplen : rplen < 2 ^ 31)
    (hok : s.kernel.LinkOk (.syscall ctx (.reply tid reply rplen)))
    (hk' : s.kernel.step (.syscall ctx (.reply tid reply rplen)) = some k')
    (hinv' : Kernel.Inv False True sent' k') (hidle : t.notifier ≠ k'.idleTask) :
  ∃ phase', NotifierAt (k'.state t.notifier) (retOk (k'.td t.notifier).syscallRetval) s.notifier
      phase'
    ∧ ServerAt t.notifierTid (k'.state t.server) ⟨phase', s.compare⟩
      (.runs (next (retOk (k'.td t.server).syscallRetval)))
    ∧ (phase' = .released → k'.Ahead t.notifier t.server)
  := by
  have halive : t.notifier ∈ k'.mapTid := by
    apply (Kernel.joins_step hinv hok hk').alive t.notifier h.notifier_alive
    rintro ctx' ⟨⟩
  obtain ⟨c, k₁, k₂, q, hc', -, rfl, hcore, hc₁, hready, hagree, -, hk₂, heq⟩ := hinv.calls hok hk'
  obtain rfl := Option.some.inj (hc.symm.trans hc')
  have hspared : ¬ s.kernel.Frees t.notifier (.syscall ctx (.reply tid reply rplen)) →
      Kernel.Spared s.kernel k' t.notifier := by
    intro hfree
    apply Kernel.spared_step hinv hok h.notifier_alive hfree _ hk'
    rintro - hcur
    exact h.ne (Option.some.inj (hc.symm.trans hcur))
  have hkept : phase = .released → k'.Ahead t.notifier t.server := fun hrel => absurd hrel hphase
  have hends := Kernel.reply_ends hcore hc₁ hready hk₂
  have hcurrent : k'.current = some t.server := by
    rw [heq]
    exact hends.current
  have hpoint : k'.point = .bottom := by rw [heq]; rfl
  have hstate : k'.state t.server = TaskState.ready := by
    rw [heq]
    exact hends.state
  rw [hstate]
  rw [spec] at hs
  split_ifs at hs with htid hrec
  · -- the notifier is owed this reply
    obtain rfl : phase = .received := hrec
    obtain ⟨hreply, hpc⟩ := hb.of_received
    have hfree : s.kernel.Frees t.notifier (.syscall ctx (.reply tid reply rplen)) :=
      ⟨hreply, h.notifier_tid.trans htid.symm⟩
    obtain ⟨hready', -⟩ := Kernel.freed_step hinv hok h.notifier_alive hfree hk'
    have hvalue := Kernel.retval_reply hinv hok hk' h.notifier_alive hfree.2 hfree.1
    refine ⟨.released, ?_, ⟨rfl, hs _⟩, ?_⟩
    · rw [hpc, hvalue]
      exact NotifierAt.released hready' (retOk_ofNat hrplen)
    · exact fun _ => hinv'.ahead halive hready' hidle h.ne hpoint hcurrent
  · -- it fails when the notifier is owed none
    have hnot : s.kernel.state t.notifier ≠ TaskState.replyBlocked := by
      intro hn
      exact hrec (hb.replyBlocked hn).2
    have hfalse : retOk (k'.td t.server).syscallRetval = false := by
      obtain hv | hv := Kernel.reply_refused hinv hok hk' hc h.notifier_alive
        (h.notifier_tid.trans htid.symm) hnot
      · rw [hv]
        rfl
      · rw [hv]
        rfl
    rw [hfalse]
    refine ⟨phase, ?_, ⟨rfl, hs⟩, hkept⟩
    apply hb.spared
    exact hspared fun hfree => hnot hfree.1
  · refine ⟨phase, ?_, ⟨rfl, hs _⟩, hkept⟩
    apply hb.spared
    exact hspared fun hfree => htid (hfree.2.symm.trans h.notifier_tid)

omit [TaskAlloc A] in
/-- When the server runs, the notifier is not released: it would have run first. -/
theorem Good.not_released (h : s.Good t) (hpoint : s.kernel.point = .user)
    (hc : s.kernel.current = some t.server) {phase : Phase}
    (hahead : phase = .released → s.kernel.Ahead t.notifier t.server) :
  phase ≠ .released
  := fun hrel => (hahead hrel).not_running h.ne hpoint hc

/-- A call of the server. -/
theorem Good.serverCall (h : s.Good t) (hinv : Kernel.Inv False False sent s.kernel)
    (hc : s.kernel.current = some t.server) {ctx : Ctx} {call : Call}
    (hok : s.kernel.LinkOk (.syscall ctx call)) (hmakes : s.server.Makes call)
    (hk' : s.kernel.step (.syscall ctx call) = some k') (hinv' : Kernel.Inv False True sent' k')
    (hidle : t.notifier ≠ k'.idleTask) :
  (s.after t k' (.syscall ctx call)).server = .exited
    ∨ (s.after t k' (.syscall ctx call)).Placed t
  := by
  obtain ⟨phase, hb, hs, hahead⟩ := h.placed
  have hphase := h.not_released hok.enabled.1 hc hahead
  have hrefl : Rely (⟨phase, s.compare⟩ : View) ⟨phase, s.compare⟩ := Rely.same hphase
  rw [after_syscall hc, if_pos rfl, if_neg h.ne]
  suffices hgoal : s.server.call t.server s.kernel k' call = .exited
      ∨ ∃ phase', NotifierAt (k'.state t.notifier) (retOk (k'.td t.notifier).syscallRetval)
          s.notifier phase'
        ∧ ServerAt t.notifierTid (k'.state t.server) ⟨phase', s.compare⟩
          (s.server.call t.server s.kernel k' call)
        ∧ (phase' = .released → k'.Ahead t.notifier t.server) from hgoal
  cases hserver : s.server with
  | receives l sender =>
    rw [hserver] at hmakes
    cases call <;> exact hmakes.elim
  | exited =>
    rw [hserver] at hs
    exact hs.elim
  | runs program =>
    rw [hserver] at hs hmakes
    have hprint : ∀ v, call = .other v → ∃ phase',
        NotifierAt (k'.state t.notifier) (retOk (k'.td t.notifier).syscallRetval) s.notifier phase'
        ∧ ServerAt t.notifierTid (k'.state t.server) ⟨phase', s.compare⟩ (.runs program)
        ∧ (phase' = .released → k'.Ahead t.notifier t.server) := by
      rintro v rfl
      refine ⟨phase, ?_, ?_, fun hrel => absurd hrel hphase⟩
      · apply hb.spared
        apply Kernel.spared_step hinv hok h.notifier_alive id _ hk'
        exact fun _ hcur => h.ne (Option.some.inj (hc.symm.trans hcur))
      · rw [Kernel.state_other hk']
        exact hs
    cases program with
    | pure l =>
      right
      cases call <;> try exact hmakes.elim
      case recv tid msg msglen => exact h.serverRecv hinv hc hb hphase (hs.2 _ hrefl) l hok hk'
      case other v => exact hprint v rfl
    | op e next =>
      cases e <;> cases call <;> try exact hmakes.elim
      case reply.reply tid tid' reply rplen =>
        right
        obtain ⟨htid, hrplen⟩ : tid' = tid ∧ rplen < 2 ^ 31 := hmakes
        subst htid
        exact h.serverReply hinv hc hb hphase (hs.2 _ hrefl) hrplen hok hk' hinv' hidle
      case exit.exit => exact Or.inl rfl
      case arm.other compare v => exact Or.inr (hprint v rfl)
      case reply.other tid v => exact Or.inr (hprint v rfl)
      case exit.other v => exact Or.inr (hprint v rfl)

omit [TaskAlloc A] in
/-- An action that leaves every task where it is. -/
theorem Good.same (h : s.Good t) {a : Act} (hkeeps : s.Keeps t a k')
    (hstays : s.kernel.point = .user → s.kernel.current = some t.notifier → ∃ mem, a = .write mem)
    (hstate : ∀ p, k'.state p = s.kernel.state p)
    (hretval : ∀ p, (k'.td p).syscallRetval = (s.kernel.td p).syscallRetval) :
  ({ s with kernel := k' } : Sys H A).Placed t
  := by
  obtain ⟨phase, hb, hs, hahead⟩ := h.placed
  refine ⟨phase, ?_, ?_, fun hrel => hkeeps (hahead hrel) hstays⟩
  · rw [InPhase, hstate, hretval]
    exact hb
  · rw [hstate]
    exact hs

/-- Every action of the kernel. -/
theorem Good.kernelPlaced (h : s.Good t) (htied : s.Tied t)
    (hinv : Kernel.Inv False False sent s.kernel) {a : Act} (hok : s.kernel.LinkOk a)
    (hact : s.ActOk t a) (hcalm : s.Calm t a) (hkeeps : s.Keeps t a k')
    (hk' : s.kernel.step a = some k') (hinv' : Kernel.Inv False True sent' k')
    (hidle : t.notifier ≠ k'.idleTask) :
  (s.after t k' a).server = .exited ∨ (s.after t k' a).Placed t
  := by
  cases a with
  | schedule =>
    right
    rw [← Option.some.inj hk'] at hkeeps ⊢
    have hspared := s.kernel.spared_schedule
    apply h.same hkeeps _ (fun p => (hspared p).state) (fun p => (hspared p).syscallRetval)
    intro hpoint
    rw [show s.kernel.point = .top from hok.enabled] at hpoint
    cases hpoint
  | write mem =>
    right
    obtain ⟨c, -, heq⟩ := Option.bind_eq_some_iff.mp hk'
    rw [← Option.some.inj heq] at hkeeps ⊢
    exact h.same hkeeps (fun _ _ => ⟨mem, rfl⟩) (fun _ => rfl) (fun _ => rfl)
  | syscall ctx call =>
    obtain ⟨c, -, -, -, hc, -⟩ := hinv.calls hok hk'
    have hact := hact c hc
    split_ifs at hact with hserver
    · subst hserver
      exact h.serverCall hinv hc hok hact hk' hinv' hidle
    · by_cases hnotifier : c = t.notifier
      · have hmakes := hact hnotifier
        subst hnotifier
        exact Or.inr (h.notifierCall htied hinv hc hok hmakes hk')
      · exact Or.inr (h.other hinv hc hserver hnotifier hok hcalm hkeeps hk')
  | interrupt ctx x0 irqs => exact Or.inr (h.interrupt htied hinv hok hact hcalm hkeeps hk')
  | requeue =>
    right
    have hpoint : s.kernel.point = .bottom := hok.enabled
    have hspared : ∀ p, Kernel.Spared s.kernel s.kernel.requeue p := by
      intro p
      apply s.kernel.spared_requeue
      by_cases hp : s.kernel.current = some p
      · left
        apply hinv.ready _ p hp
        rw [hpoint]
        exact Point.noConfusion
      · exact Or.inr hp
    rw [← Option.some.inj hk'] at hkeeps ⊢
    apply h.same hkeeps _ (fun p => (hspared p).state) (fun p => (hspared p).syscallRetval)
    intro huser
    rw [hpoint] at huser
    cases huser

/-- What an action of the kernel preserves. -/
theorem Good.kernel_step (h : s.Good t) (htied : s.Tied t)
    (hinv : Kernel.Inv False True sent s.kernel) (hsorted : s.kernel.Sorted) {a : Act}
    (hok : s.kernel.RoomOk a) (hact : s.ActOk t a) (hcalm : s.Calm t a)
    (hk' : s.kernel.step a = some k') (hfew : k'.readies < 2 ^ 64) :
  (s.after t k' a).server = .exited ∨ (s.after t k' a).Good t
  := by
  have hplain := hinv.plain
  have hlink : s.kernel.LinkOk a := ⟨hok.enabled, hok.event, hok.alloc⟩
  have hjoins := Kernel.joins_step hplain hlink hk'
  have hserver := Kernel.fixed_step hplain hsorted hlink hk' h.server_alive
  have hnotifier := Kernel.fixed_step hplain hsorted hlink hk' h.notifier_alive
  obtain ⟨phase, hb, -, -⟩ := h.placed
  have hmakes : ∀ ctx call, a = .syscall ctx call → s.kernel.current = some t.notifier →
      s.notifier.Makes t call := by
    rintro ctx call rfl hc
    have hmakes := hact t.notifier hc
    rw [if_neg (Ne.symm h.ne)] at hmakes
    exact hmakes rfl
  obtain ⟨k'', hk'', hinv'⟩ := Kernel.step_inv hinv hok.ok
  obtain rfl := Option.some.inj (hk'.symm.trans hk'')
  have hidle : t.notifier ≠ k'.idleTask := by
    rw [hjoins.idleTask]
    exact h.idle
  have hkeeps : s.Keeps t a k' :=
    fun hahead hstays => hahead.step hplain hsorted h.priority hlink hstays hk' hfew
  by_cases hexit : (s.after t k' a).server = .exited
  · exact Or.inl hexit
  right
  constructor <;> try rw [kernel_after]
  · apply hjoins.alive t.server h.server_alive
    rintro ctx rfl hc
    apply hexit
    have hmakes := hact t.server hc
    rw [if_pos rfl] at hmakes
    rw [after_syscall hc, if_pos rfl]
    exact hmakes.exit
  · apply hjoins.alive t.notifier h.notifier_alive
    rintro ctx rfl hc
    have hmakes := hmakes ctx _ rfl hc
    rw [InPhase] at hb
    generalize s.notifier = pc at hb hmakes
    cases hb <;> exact hmakes
  · exact hserver.1.trans h.server_tid
  · exact hnotifier.1.trans h.notifier_tid
  · exact h.ne
  · exact hidle
  · rw [hserver.2, hnotifier.2]
    exact h.priority
  · intro p hp hmem
    obtain ⟨hold, hmem⟩ | ⟨ctx, tid, msg, msglen, reply, rplen, rfl, hc, hlook⟩ :=
      hjoins.members p hp t.notifier hmem
    · exact h.queued p hold hmem
    · have hmakes := hmakes ctx _ rfl hc
      rw [InPhase] at hb
      generalize s.notifier = pc at hb hmakes
      cases hb <;> try exact hmakes.elim
      obtain ⟨q, hcore⟩ := hplain.core
      rw [show tid = t.serverTid from hmakes, ← h.server_tid,
        hcore.base.ids.kTaskMgrGetTaskDsp_eq h.server_alive] at hlook
      exact (Option.some.inj hlook).symm
  · exact (h.kernelPlaced htied hplain hlink hact hcalm hkeeps hk' hinv' hidle).resolve_left hexit

/-! ### Actions of the two tasks -/

omit [TaskAlloc A] in
/-- When the kernel does nothing, only the place of the two tasks matters. -/
theorem Good.congr (h : s.Good t) (hkernel : s'.kernel = s.kernel) (hplaced : s'.Placed t) :
  s'.Good t
  := by
  constructor <;> try rw [hkernel]
  · exact h.server_alive
  · exact h.notifier_alive
  · exact h.server_tid
  · exact h.notifier_tid
  · exact h.ne
  · exact h.idle
  · exact h.priority
  · exact h.queued
  · exact hplaced

omit [TaskAlloc A] in
/-- The server arms the timer while the notifier waits. -/
theorem Good.arm (h : s.Good t) (hpoint : s.kernel.point = .user)
    (hc : s.kernel.current = some t.server) (hs' : s.arm = some s') :
  s'.Good t ∧ s'.kernel = s.kernel ∧ s.kernel.state t.notifier = intrIdTimer
  := by
  obtain ⟨phase, hb, hs, hahead⟩ := h.placed
  have hphase := h.not_released hpoint hc hahead
  rw [Sys.arm] at hs'
  cases hserver : s.server with
  | runs program =>
    rw [hserver] at hs' hs
    cases program with
    | pure l => cases hs'
    | op e next =>
      cases e with
      | arm compare =>
        cases hs'
        obtain ⟨hready, hleads⟩ := hs
        obtain ⟨hwait, hnext⟩ := hleads _ (Rely.same hphase)
        obtain rfl : phase = .waiting := hwait
        exact ⟨h.congr rfl ⟨.waiting, hb, ⟨hready, hnext⟩, Phase.noConfusion⟩, rfl, hb.of_waiting⟩
      | reply tid => cases hs'
      | exit => cases hs'
  | receives l sender =>
    rw [hserver] at hs'
    cases hs'
  | exited =>
    rw [hserver] at hs'
    cases hs'

omit [TaskAlloc A] in
/-- The server takes the next message. -/
theorem Good.receive (h : s.Good t) {msg : Msg} (hs' : s.receive msg = some s')
    (hmsg : ∀ l tid, s.server = .receives l (some tid) → (tid = t.notifierTid ↔ msg = .clockNotifier)) :
  s'.Good t ∧ s'.kernel = s.kernel ∧ s'.compare = s.compare
  := by
  obtain ⟨phase, hb, hs, hahead⟩ := h.placed
  rw [Sys.receive] at hs'
  cases hserver : s.server with
  | receives l sender =>
    rw [hserver] at hs' hs
    cases sender with
    | none => cases hs'
    | some tid =>
      cases hs'
      have hmsg := hmsg l tid hserver
      obtain ⟨hready, hs⟩ := hs
      refine ⟨h.congr rfl ⟨phase, hb, ⟨hready, ?_⟩, hahead⟩, rfl, rfl⟩
      split_ifs at hs with htid
      · obtain rfl := hmsg.mp htid
        subst htid
        exact handleNotifier_leads hs
      · exact handle_leads hs tid (mt hmsg.mpr htid)
  | runs program =>
    rw [hserver] at hs'
    cases hs'
  | exited =>
    rw [hserver] at hs'
    cases hs'

/-- The notifier goes on after its call, in the same phase. -/
theorem Good.resume (h : s.Good t) (hinv : Kernel.Inv False True sent s.kernel)
    (hpoint : s.kernel.point = .user) (hc : s.kernel.current = some t.notifier)
    (hs' : s.resume t = some s') :
  s'.Good t ∧ s'.kernel = s.kernel ∧ s'.compare = s.compare
  := by
  have hready : s.kernel.state t.notifier = TaskState.ready := by
    apply hinv.ready _ t.notifier hc
    rw [hpoint]
    exact Point.noConfusion
  obtain ⟨phase, hb, hs, hahead⟩ := h.placed
  have hgoal : ∀ pc, (∀ ok, NotifierAt TaskState.ready ok pc phase) →
      ({ s with notifier := pc } : Sys H A).Good t := by
    intro pc hpc
    apply h.congr
    · rfl
    · refine ⟨phase, ?_, hs, hahead⟩
      rw [InPhase, hready]
      exact hpc _
  rw [Sys.resume] at hs'
  rw [InPhase, hready] at hb
  generalize hnotifier : s.notifier = pc at hs' hb
  cases hb with
  | released hn hok =>
    rw [hok] at hs'
    cases hs'
    exact ⟨hgoal .await fun _ => NotifierAt.await rfl, rfl, rfl⟩
  | woken hn hok =>
    rw [hok] at hs'
    cases hs'
    exact ⟨hgoal .send fun _ => NotifierAt.send rfl, rfl, rfl⟩
  | queued hn => exact absurd hn (by decide)
  | received hn => exact absurd hn (by decide)
  | waiting hn => exact absurd hn (by decide)
  | send => cases hs'
  | await => cases hs'

end Sys

end TrainsOs.Clock
