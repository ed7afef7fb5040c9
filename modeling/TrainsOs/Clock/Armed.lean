import TrainsOs.Clock.Program

/-!
# The timer while the server works

What the server sees of its notifier and of the timer. The notifier sends to the server,
is released by its reply, waits for the interrupt and sends again. The server arms the
timer after the reply: when the notifier waits by then, the interrupt finds it waiting.
-/

namespace TrainsOs.Clock

open MsgBox Bytes

/-- The notifier is on its way to the server or in its wait queue, its message has been
received, it has been released, or it waits for the interrupt. -/
inductive Phase where
  | asking
  | received
  | released
  | waiting
deriving DecidableEq

/-- The notifier, and the compare value for which the timer has not interrupted yet. -/
structure View where
  phase : Phase
  compare : Option ℕ

/-- What may have happened when the server goes on: nothing, or the notifier that was
released waits, or the timer has interrupted. -/
inductive Rely : View → View → Prop where
  | same {v : View} (h : v.phase ≠ .released) : Rely v v
  | wait : Rely ⟨.released, none⟩ ⟨.waiting, none⟩
  | tick (compare : ℕ) : Rely ⟨.waiting, some compare⟩ ⟨.asking, none⟩

/-- What one action of the others does. -/
inductive Others : View → View → Prop where
  | same (v : View) : Others v v
  | wait : Others ⟨.released, none⟩ ⟨.waiting, none⟩
  | tick (compare : ℕ) : Others ⟨.waiting, some compare⟩ ⟨.asking, none⟩

theorem Rely.released {v v' : View} (h : Rely v v') :
  v'.phase ≠ .released
  := by
  cases h with
  | same h => exact h
  | wait => exact Phase.noConfusion
  | tick => exact Phase.noConfusion

theorem Rely.again {v v' : View} (h : Rely v v') :
  Rely v' v'
  := Rely.same h.released

theorem Others.rely {v v' w : View} (h : Others v v') (hw : Rely v' w) :
  Rely v w
  := by
  cases h with
  | same => exact hw
  | wait =>
    cases hw with
    | same => exact Rely.wait
  | tick compare =>
    cases hw with
    | same => exact Rely.tick compare

/-- What an operation does. The reply to the notifier succeeds only when its message was
received, and then releases it. The timer is armed while the notifier waits. -/
def spec (notifierTid : ℤ) : (e : Op) → (e.Response → View → Prop) → View → Prop
  | .reply tid, post, v =>
      if tid = notifierTid then
        if v.phase = .received then
          ∀ ok, post ok ⟨.released, v.compare⟩
        else
          post false v
      else
        ∀ ok, post ok v
  | .arm compare, post, v => v.phase = .waiting ∧ post () ⟨v.phase, some compare⟩
  | .exit, _, _ => True

theorem spec_mono {notifierTid : ℤ} (e : Op) {post post' : e.Response → View → Prop} {v : View}
    (hpost : ∀ r v, post r v → post' r v) (h : spec notifierTid e post v) :
  spec notifierTid e post' v
  := by
  cases e with
  | reply tid =>
    rw [spec] at h ⊢
    split_ifs at h ⊢
    · exact fun ok => hpost _ _ (h ok)
    · exact hpost _ _ h
    · exact fun ok => hpost _ _ (h ok)
  | arm compare => exact ⟨h.1, hpost _ _ h.2⟩
  | exit => trivial

/-- What a program of the server leads to, whatever the others do. -/
abbrev Leads {α : Type} (notifierTid : ℤ) (x : Program α) (post : α → View → Prop) :
    View → Prop :=
  x.wp Rely (spec notifierTid) post

/-- What holds between two messages: the notifier waits for the interrupt of the timer, or
it has not been received from. -/
inductive Settled : View → Prop where
  | asking : Settled ⟨.asking, none⟩
  | waiting (compare : ℕ) : Settled ⟨.waiting, some compare⟩

/-- The message of the notifier has been received. -/
def Owed (v : View) : Prop :=
  v = ⟨.received, none⟩

theorem Settled.others {v v' : View} (h : Settled v) (hv : Others v v') :
  Settled v'
  := by
  cases hv with
  | same => exact h
  | wait => cases h
  | tick => exact Settled.asking

theorem Settled.rely {v v' : View} (h : Settled v) (hv : Rely v v') :
  Settled v'
  := by
  cases hv with
  | same => exact h
  | wait => cases h
  | tick => exact Settled.asking

theorem Owed.others {v v' : View} (h : Owed v) (hv : Others v v') :
  Owed v'
  := by
  subst h
  cases hv with
  | same => rfl

/-- A notifier that has not been received from, when it is received from. -/
theorem Settled.owed {compare : Option ℕ} (h : Settled ⟨.asking, compare⟩) :
  Owed ⟨.received, compare⟩
  := by
  generalize hv : (⟨.asking, compare⟩ : View) = v at h
  cases h with
  | asking =>
    cases hv
    rfl
  | waiting => cases hv

theorem Settled.compare_ne_none {compare : Option ℕ} (h : Settled ⟨.waiting, compare⟩) :
  compare ≠ none
  := by
  generalize hv : (⟨.waiting, compare⟩ : View) = v at h
  cases h with
  | asking => cases hv
  | waiting =>
    cases hv
    exact Option.some_ne_none _

section Leads

variable {α β : Type} {notifierTid : ℤ} {post : β → View → Prop} {v : View}

theorem Leads.bind {x : Program α} {f : α → Program β}
    (h : Leads notifierTid x (fun a => Leads notifierTid (f a) post) v) :
  Leads notifierTid (x >>= f) post v
  := by
  apply Prog.wp_bind _ _ h
  · exact fun e _ _ _ => spec_mono e
  · exact fun _ _ => Rely.again

theorem Leads.mono {x : Program β} {post' : β → View → Prop} (h : Leads notifierTid x post v)
    (hpost : ∀ a v, post a v → post' a v) :
  Leads notifierTid x post' v
  := by
  apply Prog.wp_mono _ h hpost
  exact fun e _ _ _ => spec_mono e

theorem Leads.others {x : Program β} {v' : View} (h : Leads notifierTid x post v)
    (hv : Others v v') :
  Leads notifierTid x post v'
  := by
  cases x with
  | pure b => exact fun w hw => h w (hv.rely hw)
  | op e next => exact fun w hw => h w (hv.rely hw)

theorem Leads.panic :
  Leads notifierTid (Program.panic : Program β) post v
  := fun _ _ => trivial

theorem Leads.unwrap {x : Option β} (h : ∀ b, x = some b → ∀ v', Rely v v' → post b v') :
  Leads notifierTid (Program.unwrap x) post v
  := by
  cases x with
  | none => exact Leads.panic
  | some b => exact h b rfl

/-! ### The handlers -/

/-- Between two messages the notifier is owed nothing, so a reply to it fails. -/
theorem kerReply_settled (h : Settled v) (tid : ℤ) :
  Leads notifierTid (Program.kerReply tid) (fun _ => Settled) v
  := by
  intro t ht
  have ht := h.rely ht
  rw [spec]
  split_ifs with htid hrec
  · cases ht <;> cases hrec
  · exact Leads.panic
  · rintro (_ | _)
    · exact Leads.panic
    · exact fun u hu => ht.rely hu

variable {H : MinHeap WaitReq heapCapacity} {l : Locals H}

theorem reply_settled (h : Settled v) (ty : MsgType) (contents : List UInt8) (tid : ℤ) :
  Leads notifierTid (l.reply ty contents tid) (fun _ => Settled) v
  := by
  apply Leads.bind
  apply Leads.unwrap
  intro box _ v₁ hv₁
  apply Leads.bind
  apply (kerReply_settled (h.rely hv₁) tid).mono
  exact fun _ v₂ hv₂ t ht => hv₂.rely ht

theorem wakeLoop_settled (fuel : ℕ) (h : Settled v) :
  Leads notifierTid (Locals.wakeLoop fuel l) (fun _ => Settled) v
  := by
  induction fuel generalizing l v with
  | zero => exact Leads.panic
  | succ fuel ih =>
    rw [Locals.wakeLoop]
    cases H.peek l.heap with
    | none => exact fun t ht => h.rely ht
    | some waitReq =>
      dsimp only
      split_ifs
      · apply Leads.bind
        apply Leads.unwrap
        intro r _ v₁ hv₁
        apply Leads.bind
        apply (reply_settled (h.rely hv₁) clockWaitResp [] r.1.tid).mono
        exact fun l' v₂ hv₂ => ih hv₂
      · exact fun t ht => h.rely ht

/-- The message of the notifier: when it has been replied to, it waits before the server
goes on and arms the timer. -/
theorem handleNotifier_leads (h : Owed v) :
  Leads notifierTid (l.handleNotifier notifierTid) (fun _ => Settled) v
  := by
  subst h
  have hreply : Leads notifierTid (l.reply clockNotifier [] notifierTid)
      (fun _ v' => v' = ⟨.waiting, none⟩) ⟨.received, none⟩ := by
    apply Leads.bind
    apply Leads.unwrap
    intro box _ v₁ hv₁
    cases hv₁
    apply Leads.bind
    intro v₂ hv₂
    cases hv₂
    rw [spec, if_pos rfl, if_pos rfl]
    rintro (_ | _)
    · exact Leads.panic
    · intro v₃ hv₃
      cases hv₃ with
      | same hne => exact absurd rfl hne
      | wait =>
        intro v₄ hv₄
        cases hv₄ with
        | same => rfl
  apply Leads.bind
  apply hreply.mono
  rintro l' v' rfl
  apply Leads.bind
  intro v₁ hv₁
  cases hv₁ with
  | same =>
    refine ⟨rfl, fun v₂ hv₂ => ?_⟩
    apply wakeLoop_settled
    exact (Settled.waiting _).rely hv₂

/-- The other messages. -/
theorem handle_leads (h : Settled v) (tid : ℤ) {msg : Msg} (hmsg : msg ≠ .clockNotifier) :
  Leads notifierTid (l.handle tid msg) (fun _ => Settled) v
  := by
  cases msg with
  | clockNotifier => exact absurd rfl hmsg
  | clockWaitReq ticks =>
    rw [Locals.handle, Locals.handleWaitReq]
    split_ifs
    · exact reply_settled h clockWaitResp [] tid
    · apply Leads.bind
      apply Leads.unwrap
      intro heap _ v₁ hv₁ t ht
      exact (h.rely hv₁).rely ht
  | clockCurTickReq => exact reply_settled h clockCurTickResp _ tid
  | unknown => exact fun t ht => h.rely ht

end Leads

end TrainsOs.Clock
