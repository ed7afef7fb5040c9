import TrainsOs.Uart.Program

/-!
# The mask while the server works

What the server sees of its broker and of the mask. An interrupt clears the mask, whenever
it comes, and wakes the broker if it waits. The broker asks the server for the next
interrupt, is released by the reply of `State::rearm` and waits; the server goes on only
when it does. So once the server has set bits while the broker waits, they stay set for as
long as it waits.
-/

namespace TrainsOs.Uart

open MsgBox Bytes

/-- The broker is on its way to the server or in its wait queue, its message has been
received, it has been released, or it waits for an interrupt. -/
inductive Phase where
  | asking
  | received
  | released
  | waiting
deriving DecidableEq

/-- The broker and the mask. -/
structure View where
  phase : Phase
  imsc : BitVec 32

/-- What may have happened when the server goes on: the broker has left the phase
`released`, the mask is as it was if the broker still waits, and its message stays
received. -/
structure Rely (v v' : View) : Prop where
  released : v'.phase ≠ .released
  waiting : v'.phase = .waiting → v.phase = .released ∨ v' = v
  received : v'.phase = .received ↔ v.phase = .received

theorem Rely.refl {v : View} (h : v.phase ≠ .released) :
  Rely v v
  := ⟨h, fun _ => Or.inr rfl, Iff.rfl⟩

theorem Rely.again {v v' : View} (h : Rely v v') :
  Rely v' v'
  := Rely.refl h.released

/-- What an operation does. The reply to the broker succeeds only when its message was
received, and then releases it. -/
def spec (tidIntr : ℤ) : (e : Op) → (e.Response → View → Prop) → View → Prop
  | .readImsc, post, v => post v.imsc v
  | .writeImsc status, post, v => post () { v with imsc := status }
  | .readFr, post, v => ∀ fr, post fr v
  | .readDr, post, v => ∀ ch, post ch v
  | .writeDr _, post, v => post () v
  | .reply tid, post, v =>
      if tid = tidIntr then
        if v.phase = .received then
          ∀ ok, post ok { v with phase := .released }
        else
          post false v
      else
        ∀ ok, post ok v
  | .exit, _, _ => True

theorem spec_mono {tidIntr : ℤ} (e : Op) {post post' : e.Response → View → Prop} {v : View}
    (hpost : ∀ r v, post r v → post' r v) (h : spec tidIntr e post v) :
  spec tidIntr e post' v
  := by
  cases e with
  | readImsc => exact hpost _ _ h
  | writeImsc status => exact hpost _ _ h
  | readFr => exact fun fr => hpost _ _ (h fr)
  | readDr => exact fun ch => hpost _ _ (h ch)
  | writeDr c => exact hpost _ _ h
  | reply tid =>
    rw [spec] at h ⊢
    split_ifs at h ⊢
    · exact fun ok => hpost _ _ (h ok)
    · exact hpost _ _ h
    · exact fun ok => hpost _ _ (h ok)
  | exit => trivial

/-- What a program of the server leads to, whatever the others do. -/
abbrev Leads {α : Type} (tidIntr : ℤ) (x : Program α) (post : α → View → Prop) : View → Prop :=
  x.wp Rely (spec tidIntr) post

/-- What one action of the others does: nothing that the server sees, or the mask changes
while the broker does not wait, or an interrupt wakes it, or it goes on to wait, or its call
has failed. -/
inductive Others : View → View → Prop where
  | same (v : View) : Others v v
  | clear {phase : Phase} (h : phase ≠ .waiting) (imsc imsc' : BitVec 32) :
      Others ⟨phase, imsc⟩ ⟨phase, imsc'⟩
  | wake (imsc imsc' : BitVec 32) : Others ⟨.waiting, imsc⟩ ⟨.asking, imsc'⟩
  | wait (imsc : BitVec 32) : Others ⟨.released, imsc⟩ ⟨.waiting, imsc⟩
  | fail (imsc : BitVec 32) : Others ⟨.released, imsc⟩ ⟨.asking, imsc⟩

theorem Others.rely {v v' w : View} (h : Others v v') (hw : Rely v' w) :
  Rely v w
  := by
  cases h with
  | same => exact hw
  | clear hne imsc imsc' =>
    refine ⟨hw.released, fun hwait => ?_, hw.received⟩
    rcases hw.waiting hwait with hrel | rfl
    · exact Or.inl hrel
    · exact absurd hwait hne
  | wake imsc imsc' =>
    refine ⟨hw.released, fun hwait => ?_, hw.received.trans (by simp)⟩
    rcases hw.waiting hwait with hrel | rfl
    · cases hrel
    · cases hwait
  | wait imsc => exact ⟨hw.released, fun _ => Or.inl rfl, hw.received.trans (by simp)⟩
  | fail imsc => exact ⟨hw.released, fun _ => Or.inl rfl, hw.received.trans (by simp)⟩

section Leads

variable {α β : Type} {tidIntr : ℤ} {post : β → View → Prop} {v : View}

theorem Leads.bind {x : Program α} {f : α → Program β}
    (h : Leads tidIntr x (fun a => Leads tidIntr (f a) post) v) :
  Leads tidIntr (x >>= f) post v
  := by
  apply Prog.wp_bind _ _ h
  · exact fun e _ _ _ => spec_mono e
  · exact fun _ _ => Rely.again

theorem Leads.mono {x : Program β} {post' : β → View → Prop} (h : Leads tidIntr x post v)
    (hpost : ∀ a v, post a v → post' a v) :
  Leads tidIntr x post' v
  := by
  apply Prog.wp_mono _ h hpost
  exact fun e _ _ _ => spec_mono e

theorem Leads.others {x : Program β} {v' : View} (h : Leads tidIntr x post v) (hv : Others v v') :
  Leads tidIntr x post v'
  := by
  cases x with
  | pure b => exact fun w hw => h w (hv.rely hw)
  | op e next => exact fun w hw => h w (hv.rely hw)

theorem Leads.panic :
  Leads tidIntr (Program.panic : Program β) post v
  := fun _ _ => trivial

theorem Leads.unwrap {x : Option β} (h : ∀ b, x = some b → ∀ v', Rely v v' → post b v') :
  Leads tidIntr (Program.unwrap x) post v
  := by
  cases x with
  | none => exact Leads.panic
  | some b => exact h b rfl

end Leads

/-! ### What is armed -/

/-- All of these bits are set. -/
def Enabled (imsc bits : BitVec 32) : Prop :=
  imsc &&& bits = bits

theorem enabled_iff {imsc bits : BitVec 32} :
  Enabled imsc bits ↔ ∀ i, bits.getLsbD i = true → imsc.getLsbD i = true
  := by
  constructor
  · intro h i hi
    have hbit := congrArg (fun x => x.getLsbD i) h
    simpa [hi] using hbit
  · intro h
    apply BitVec.eq_of_getLsbD_eq
    intro i _
    rw [BitVec.getLsbD_and]
    cases hi : bits.getLsbD i with
    | false => simp
    | true => rw [h i hi, Bool.and_true]

theorem enabled_or (imsc bits : BitVec 32) :
  Enabled (imsc ||| bits) bits
  := by
  apply enabled_iff.mpr
  intro i hi
  rw [BitVec.getLsbD_or, hi, Bool.or_true]

theorem Enabled.or {imsc bits : BitVec 32} (h : Enabled imsc bits) (bits' : BitVec 32) :
  Enabled (imsc ||| bits') bits
  := by
  apply enabled_iff.mpr
  intro i hi
  rw [BitVec.getLsbD_or, enabled_iff.mp h i hi, Bool.true_or]

/-- Nothing is owed to the broker, and if it waits these bits are set. -/
structure Armed (bits : BitVec 32) (v : View) : Prop where
  received : v.phase ≠ .received
  released : v.phase ≠ .released
  enabled : v.phase = .waiting → Enabled v.imsc bits

/-- What the others do not spoil. -/
def Stable (P : View → Prop) : Prop :=
  ∀ v v', P v → Rely v v' → P v'

theorem stable_armed (bits : BitVec 32) :
  Stable (Armed bits)
  := by
  intro v v' h hv
  constructor
  · exact fun hrec => h.received (hv.received.mp hrec)
  · exact hv.released
  · intro hwait
    rcases hv.waiting hwait with hrel | rfl
    · exact absurd hrel h.released
    · exact h.enabled hwait

theorem Stable.and {P Q : View → Prop} (hP : Stable P) (hQ : Stable Q) :
  Stable fun v => P v ∧ Q v
  := fun v v' h hv => ⟨hP v v' h.1 hv, hQ v v' h.2 hv⟩

/-! ### Operations that touch neither the broker nor the mask -/

/-- The operation is neither a reply to the broker nor a change of the mask. -/
def Op.Passive (tidIntr : ℤ) : Op → Prop
  | .writeImsc _ => False
  | .reply tid => tid ≠ tidIntr
  | _ => True

/-- All operations are passive, and the results satisfy `post`. -/
def Quiet {α : Type} (tidIntr : ℤ) (post : α → Prop) : Program α → Prop
  | .pure a => post a
  | .op e next => e.Passive tidIntr ∧ ∀ r, Quiet tidIntr post (next r)

section Quiet

variable {α β : Type} {tidIntr : ℤ} {post : β → Prop}

theorem Quiet.bind {x : Program α} {f : α → Program β}
    (h : Quiet tidIntr (fun a => Quiet tidIntr post (f a)) x) :
  Quiet tidIntr post (x >>= f)
  := by
  induction x with
  | pure a => exact h
  | op e next ih => exact ⟨h.1, fun r => ih r (h.2 r)⟩

theorem Quiet.mono {x : Program β} {post' : β → Prop} (h : Quiet tidIntr post x)
    (hpost : ∀ b, post b → post' b) :
  Quiet tidIntr post' x
  := by
  induction x with
  | pure b => exact hpost b h
  | op e next ih => exact ⟨h.1, fun r => ih r (h.2 r)⟩

theorem quiet_panic :
  Quiet tidIntr post Program.panic
  := ⟨trivial, fun r => nomatch r⟩

theorem quiet_unwrap {x : Option β} (h : ∀ b, x = some b → post b) :
  Quiet tidIntr post (Program.unwrap x)
  := by
  cases x with
  | none => exact quiet_panic
  | some b => exact h b rfl

theorem quiet_kerReply {tid : ℤ} (htid : tid ≠ tidIntr) {post : Unit → Prop} (h : post ()) :
  Quiet tidIntr post (Program.kerReply tid)
  := by
  refine ⟨htid, ?_⟩
  rintro (_ | _)
  · exact quiet_panic
  · exact h

theorem quiet_getc {post : Option UInt8 → Prop} (h : ∀ ch, post ch) :
  Quiet tidIntr post Program.getc
  := by
  refine ⟨trivial, fun fr => ?_⟩
  change Quiet tidIntr post (if fr &&& 0x10 ≠ 0 then _ else _)
  by_cases hempty : fr &&& 0x10 ≠ 0
  · rw [if_pos hempty]
    exact h none
  · rw [if_neg hempty]
    exact ⟨trivial, fun ch => h (some ch)⟩

theorem quiet_putc (c : UInt8) {post : Option UInt8 → Prop} (h : ∀ ch, post ch) :
  Quiet tidIntr post (Program.putc c)
  := by
  refine ⟨trivial, fun fr => ?_⟩
  change Quiet tidIntr post (if fr &&& 0x20 ≠ 0 then _ else _)
  by_cases hfull : fr &&& 0x20 ≠ 0
  · rw [if_pos hfull]
    exact h none
  · rw [if_neg hfull]
    exact ⟨trivial, fun _ => h (some c)⟩

/-- A quiet program keeps what the others do not spoil. -/
theorem Quiet.leads {x : Program β} {P : View → Prop} {v : View} (h : Quiet tidIntr post x)
    (hP : Stable P) (hv : P v) :
  Leads tidIntr x (fun b v' => post b ∧ P v') v
  := by
  induction x generalizing v with
  | pure b => exact fun v' hv' => ⟨h, hP v v' hv hv'⟩
  | op e next ih =>
    intro v' hv'
    have hv := hP v v' hv hv'
    obtain ⟨hpassive, hnext⟩ := h
    cases e with
    | readImsc => exact ih _ (hnext _) hv
    | writeImsc status => exact hpassive.elim
    | readFr => exact fun fr => ih fr (hnext fr) hv
    | readDr => exact fun ch => ih ch (hnext ch) hv
    | writeDr c => exact ih _ (hnext _) hv
    | reply tid =>
      rw [spec, if_neg hpassive]
      exact fun ok => ih ok (hnext ok) hv
    | exit => trivial

end Quiet

/-! ### The handlers -/

/-- The receive interrupts. -/
def rxBits : BitVec 32 :=
  uartImscRxim ||| uartImscRtim

/-- The tasks that wait for replies are not the broker. -/
structure Locals.Clients (tidIntr : ℤ) (s : Locals) : Prop where
  broker : s.tidIntr = tidIntr
  rx : ∀ req ∈ s.rxQueue, req.tid ≠ tidIntr
  tx : ∀ req ∈ s.txQueue, req.tid ≠ tidIntr

/-- What holds between two messages. -/
structure Settled (tidIntr : ℤ) (s : Locals) (v : View) : Prop where
  clients : s.Clients tidIntr
  rx : Armed rxBits v
  tx : s.txBuf ≠ [] → Armed uartImscTxim v

theorem Settled.rely {tidIntr : ℤ} {s : Locals} {v v' : View} (h : Settled tidIntr s v)
    (hv : Rely v v') :
  Settled tidIntr s v'
  := ⟨h.clients, stable_armed _ v v' h.rx hv, fun hne => stable_armed _ v v' (h.tx hne) hv⟩

theorem Settled.others {tidIntr : ℤ} {s : Locals} {v v' : View} (h : Settled tidIntr s v)
    (hv : Others v v') :
  Settled tidIntr s v'
  := by
  apply h.rely
  apply hv.rely
  apply Rely.refl
  cases hv with
  | same => exact h.rx.released
  | clear hne => exact h.rx.released
  | wake => exact Phase.noConfusion
  | wait => exact absurd rfl h.rx.released
  | fail => exact Phase.noConfusion

section Handlers

variable {tidIntr : ℤ} {s : Locals} {v : View}

/-- Setting bits, when the broker is not owed a reply. -/
theorem arm_leads (h : v.phase ≠ .received) (bits : BitVec 32) :
  Leads tidIntr (Program.arm bits)
    (fun _ v' => Armed bits v' ∧ ∀ bits', Armed bits' v → Armed bits' v') v
  := by
  intro t ht u hu w hw
  have hrec : u.phase ≠ .received := fun hrec => h (ht.received.mp (hu.received.mp hrec))
  -- the broker waits at the write only if it has waited, undisturbed, since the read
  have hsame : u.phase = .waiting → u = t := fun hwait =>
    (hu.waiting hwait).resolve_left ht.released
  constructor
  · apply stable_armed bits _ w _ hw
    exact ⟨hrec, hu.released, fun _ => enabled_or t.imsc bits⟩
  · intro bits' hbits'
    apply stable_armed bits' _ w _ hw
    refine ⟨hrec, hu.released, fun hwait => ?_⟩
    have ht' := stable_armed bits' v t hbits' ht
    exact (ht'.enabled (hsame hwait ▸ hwait)).or bits

theorem release_quiet (hs : s.Clients tidIntr) :
  Quiet tidIntr (fun s' => s'.Clients tidIntr ∧ s'.txBuf = s.txBuf) s.release
  := by
  rw [Locals.release]
  cases htx : s.txQueue with
  | nil => exact ⟨hs, rfl⟩
  | cons front txQueue =>
    dsimp only
    split_ifs
    · apply Quiet.bind
      apply quiet_unwrap
      intro box _
      apply Quiet.bind
      apply quiet_kerReply (hs.tx front (htx ▸ List.mem_cons_self))
      refine ⟨⟨hs.broker, hs.rx, ?_⟩, rfl⟩
      intro req hreq
      exact hs.tx req (htx ▸ List.mem_cons_of_mem front hreq)
    · exact ⟨hs, rfl⟩

theorem readLoop_quiet (room : ℕ) (hs : s.Clients tidIntr) :
  Quiet tidIntr (fun s' => s'.Clients tidIntr ∧ s'.txBuf = s.txBuf) (Locals.readLoop room s)
  := by
  induction room generalizing s with
  | zero =>
    apply Quiet.bind
    apply quiet_getc
    rintro (_ | ch)
    · exact ⟨hs, rfl⟩
    · exact quiet_panic
  | succ room ih =>
    apply Quiet.bind
    apply quiet_getc
    rintro (_ | ch)
    · exact ⟨hs, rfl⟩
    · exact ih (s := { s with rxBuf := s.rxBuf ++ [ch] }) ⟨hs.broker, hs.rx, hs.tx⟩

theorem serveLoop_quiet (b : Build) {rxQueue : List RxReq} (hs : s.Clients tidIntr)
    (hrx : ∀ req ∈ rxQueue, req.tid ≠ tidIntr) :
  Quiet tidIntr (fun s' => s'.Clients tidIntr ∧ s'.txBuf = s.txBuf) (s.serveLoop b rxQueue)
  := by
  induction rxQueue generalizing s with
  | nil => exact ⟨hs, rfl⟩
  | cons req rxQueue ih =>
    have htail : ∀ req ∈ rxQueue, req.tid ≠ tidIntr :=
      fun req' hreq => hrx req' (List.mem_cons_of_mem req hreq)
    rw [Locals.serveLoop]
    split_ifs
    · exact ⟨hs, rfl⟩
    · exact ⟨hs, rfl⟩
    · apply Quiet.bind
      apply quiet_unwrap
      intro box _
      apply Quiet.bind
      apply quiet_kerReply (hrx req List.mem_cons_self)
      exact ih (s := { s with
        rxQueue := rxQueue, rxBuf := s.rxBuf.drop req.len, replyBox := box })
        ⟨hs.broker, htail, hs.tx⟩ htail

theorem read_quiet (b : Build) (hs : s.Clients tidIntr) :
  Quiet tidIntr (fun s' => s'.Clients tidIntr ∧ s'.txBuf = s.txBuf) (s.read b)
  := by
  apply Quiet.bind
  apply (readLoop_quiet _ hs).mono
  rintro s' ⟨hs', htx⟩
  rw [← htx]
  exact serveLoop_quiet b hs' hs'.rx

/-- When the receive interrupts are armed, `State::write` leaves the transmit interrupt
armed unless everything is sent. -/
theorem writeLoop_leads (b : Build) {txBuf : List UInt8} (htx : s.txBuf = txBuf)
    (hs : s.Clients tidIntr) (hv : Armed rxBits v) :
  Leads tidIntr (Locals.writeLoop b txBuf s) (Settled tidIntr) v
  := by
  induction txBuf generalizing s v with
  | nil => exact fun t ht => ⟨hs, stable_armed _ v t hv ht, fun hne => absurd htx hne⟩
  | cons ch txBuf ih =>
    apply Leads.bind
    have hputc : Quiet tidIntr (fun _ => True) (Program.putc ch) := quiet_putc ch fun _ => trivial
    apply (hputc.leads (stable_armed rxBits) hv).mono
    rintro (_ | ch') v' ⟨-, hv'⟩
    · apply Leads.bind
      refine (arm_leads hv'.received uartImscTxim).mono ?_
      rintro ⟨⟩ v'' ⟨htxim, hkept⟩ t ht
      exact ⟨hs, stable_armed _ _ t (hkept _ hv') ht, fun _ => stable_armed _ _ t htxim ht⟩
    · apply Leads.bind
      apply Leads.unwrap
      intro txIdx _ v'' hv''
      apply Leads.bind
      have hclients : ({ s with txBuf := txBuf, txIdx := txIdx } : Locals).Clients tidIntr :=
        ⟨hs.broker, hs.rx, hs.tx⟩
      have hrel := release_quiet hclients
      apply (hrel.leads (stable_armed rxBits) (stable_armed _ _ _ hv' hv'')).mono
      rintro s' w ⟨⟨hs', htx'⟩, hw⟩
      exact ih htx' hs' hw

theorem write_leads (b : Build) (hs : s.Clients tidIntr) (hv : Armed rxBits v) :
  Leads tidIntr (s.write b) (Settled tidIntr) v
  := writeLoop_leads b rfl hs hv

theorem handleTxReq_leads (b : Build) {tid : ℤ} (htid : tid ≠ tidIntr) (bytes : List UInt8)
    (blocking : Bool) (hs : s.Clients tidIntr) (hv : Armed rxBits v) :
  Leads tidIntr (s.handleTxReq b tid bytes blocking) (Settled tidIntr) v
  := by
  apply Leads.bind
  apply Leads.unwrap
  intro txBuf _ v₁ hv₁
  have hv := stable_armed _ _ _ hv hv₁
  cases blocking with
  | true =>
    apply Leads.bind
    apply Leads.unwrap
    intro endAt _ v₂ hv₂
    apply Leads.bind
    apply Leads.unwrap
    intro txQueue hpush v₃ hv₃
    have hv := stable_armed _ _ _ (stable_armed _ _ _ hv hv₂) hv₃
    apply write_leads b _ hv
    refine ⟨hs.broker, hs.rx, ?_⟩
    intro req hreq
    rw [pushBack_eq_some hpush, List.mem_append] at hreq
    rcases hreq with hreq | hreq
    · exact hs.tx req hreq
    · rw [List.mem_singleton.mp hreq]
      exact htid
  | false =>
    apply Leads.bind
    apply Leads.unwrap
    intro box _ v₂ hv₂
    apply Leads.bind
    have hquiet : Quiet tidIntr (fun _ => True) (Program.kerReply tid) :=
      quiet_kerReply htid trivial
    apply (hquiet.leads (stable_armed rxBits) (stable_armed _ _ _ hv hv₂)).mono
    rintro ⟨⟩ v₃ ⟨-, hv₃⟩
    exact write_leads b ⟨hs.broker, hs.rx, hs.tx⟩ hv₃

theorem handleRxReq_leads (b : Build) {tid : ℤ} (htid : tid ≠ tidIntr) (len : ℕ)
    (h : Settled tidIntr s v) :
  Leads tidIntr (s.handleRxReq b tid len) (Settled tidIntr) v
  := by
  apply Leads.bind
  apply Leads.unwrap
  intro rxQueue hpush v₁ hv₁
  have hclients : ({ s with rxQueue := rxQueue } : Locals).Clients tidIntr := by
    refine ⟨h.clients.broker, ?_, h.clients.tx⟩
    intro req hreq
    rw [pushBack_eq_some hpush, List.mem_append] at hreq
    rcases hreq with hreq | hreq
    · exact h.clients.rx req hreq
    · rw [List.mem_singleton.mp hreq]
      exact htid
  have hread := read_quiet b hclients
  by_cases hne : s.txBuf = []
  · apply (hread.leads (stable_armed rxBits) (h.rely hv₁).rx).mono
    rintro s' v' ⟨⟨hs', htx⟩, hv'⟩
    exact ⟨hs', hv', fun hne' => absurd (htx.trans hne) hne'⟩
  · have hstable := (stable_armed rxBits).and (stable_armed uartImscTxim)
    apply (hread.leads hstable ⟨(h.rely hv₁).rx, (h.rely hv₁).tx hne⟩).mono
    rintro s' v' ⟨⟨hs', -⟩, hrx, htx⟩
    exact ⟨hs', hrx, fun _ => htx⟩

/-- The reply to the broker succeeds when its message was received. Otherwise the server
panics. -/
theorem kerReply_leads {post : Unit → View → Prop}
    (h : v.phase = .received → ∀ v', v'.phase ≠ .received → v'.phase ≠ .released → post () v') :
  Leads tidIntr (Program.kerReply tidIntr) post v
  := by
  intro t ht
  rw [spec, if_pos rfl]
  split_ifs with hrec
  · rintro (_ | _)
    · exact Leads.panic
    · intro u hu
      apply h (ht.received.mp hrec) u _ hu.released
      intro hu'
      cases hu.received.mp hu'
  · exact Leads.panic

/-- After `State::rearm` the receive interrupts are armed. -/
theorem rearm_leads (hs : s.Clients tidIntr) :
  Leads tidIntr s.rearm (fun s' v' => s'.Clients tidIntr ∧ Armed rxBits v') v
  := by
  apply Leads.bind
  apply Leads.unwrap
  intro box _ v₁ hv₁
  apply Leads.bind
  rw [hs.broker]
  apply kerReply_leads
  intro _ v₂ hrec _
  apply Leads.bind
  refine (arm_leads hrec rxBits).mono ?_
  rintro ⟨⟩ v₃ ⟨hv₃, -⟩ t ht
  exact ⟨⟨rfl, hs.rx, hs.tx⟩, stable_armed rxBits v₃ t hv₃ ht⟩

theorem handleIntr_leads (b : Build) (uartId mis : ℕ) (sender : ℤ) (hs : s.Clients tidIntr) :
  Leads tidIntr (s.handleMsg b sender (.rpiUartIntr uartId mis)) (Settled tidIntr) v
  := by
  apply Leads.bind
  apply (rearm_leads hs).mono
  rintro s₁ v₁ ⟨hs₁, hv₁⟩
  apply Leads.bind
  apply ((read_quiet b hs₁).leads (stable_armed rxBits) hv₁).mono
  rintro s₂ v₂ ⟨⟨hs₂, -⟩, hv₂⟩
  exact write_leads b hs₂ hv₂

/-- What the handlers do with a message of a client. -/
theorem handle_leads (b : Build) {sender : ℤ} (hsender : sender ≠ tidIntr) (msg : Msg)
    (h : Settled tidIntr s v) :
  Leads tidIntr (s.handle b sender msg) (Settled tidIntr) v
  := by
  rw [Locals.handle]
  split
  · cases msg with
    | rpiUartRxReq len => exact handleRxReq_leads b hsender len h
    | rpiUartTxReq bytes => exact handleTxReq_leads b hsender bytes false h.clients h.rx
    | rpiUartTxBlockingReq bytes => exact handleTxReq_leads b hsender bytes true h.clients h.rx
    | rpiUartIntr uartId mis => exact handleIntr_leads b uartId mis sender h.clients
    | unknown => exact fun t ht => h.rely ht
  · exact Leads.panic

end Handlers

end TrainsOs.Uart
