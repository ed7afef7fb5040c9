import TrainsOs.Lib.Program

/-!
# Traces and monitors

A trace is what has passed between a program and those who perform its operations: the
operations with their responses, in this order. A monitor reads a trace, and stops at the
first operation that is not in order. A program obeys a monitor if it is never stopped,
whatever the responses are; `Obeys.trace` says so for the traces.
-/

namespace Prog

variable {E : Type} {R : E → Type} {α β σ : Type}

/-- The program performs the operations of the trace, and is then the other program. -/
inductive Trace : Prog E R α → List (Σ e, R e) → Prog E R α → Prop where
  | nil (x : Prog E R α) : Trace x [] x
  | cons {e : E} {next : R e → Prog E R α} (r : R e) {t : List (Σ e, R e)} {y : Prog E R α}
      (h : Trace (next r) t y) : Trace (.op e next) (⟨e, r⟩ :: t) y

theorem Trace.bind {x y : Prog E R α} {t : List (Σ e, R e)} (h : Trace x t y)
    (f : α → Prog E R β) :
  Trace (x.bind f) t (y.bind f)
  := by
  induction h with
  | nil x => exact .nil _
  | cons r _ ih => exact .cons r ih

theorem Trace.trans {x y z : Prog E R α} {t t' : List (Σ e, R e)} (h : Trace x t y)
    (h' : Trace y t' z) :
  Trace x (t ++ t') z
  := by
  induction h with
  | nil x => exact h'
  | cons r _ ih => exact .cons r (ih h')

variable (monitor : σ → (Σ e, R e) → Option σ)

/-- The monitor does not stop the program, and is in a state with `post` when it returns. -/
structure Obeys (post : α → σ → Prop) (x : Prog E R α) (s : σ) : Prop where
  wp : x.wp Eq (fun e Q s => ∀ r, ∃ s', monitor s ⟨e, r⟩ = some s' ∧ Q r s') post s

variable {monitor} {post : α → σ → Prop} {s : σ}

theorem Obeys.pure {a : α} (h : post a s) :
  Obeys monitor post (.pure a) s
  := ⟨fun _ ht => ht ▸ h⟩

theorem Obeys.op {e : E} {next : R e → Prog E R α}
    (h : ∀ r, ∃ s', monitor s ⟨e, r⟩ = some s' ∧ Obeys monitor post (next r) s') :
  Obeys monitor post (.op e next) s
  := by
  constructor
  rintro _ rfl r
  obtain ⟨s', hstep, hnext⟩ := h r
  exact ⟨s', hstep, hnext.wp⟩

theorem Obeys.mono {post' : α → σ → Prop} {x : Prog E R α} (h : Obeys monitor post x s)
    (hpost : ∀ a s, post a s → post' a s) :
  Obeys monitor post' x s
  := by
  constructor
  apply wp_mono _ h.wp hpost
  intro e Q Q' s hQ hspec r
  obtain ⟨s', hstep, hr⟩ := hspec r
  exact ⟨s', hstep, hQ r s' hr⟩

theorem Obeys.bind {post : β → σ → Prop} {x : Prog E R α} {f : α → Prog E R β}
    (h : Obeys monitor (fun a => Obeys monitor post (f a)) x s) :
  Obeys monitor post (x.bind f) s
  := by
  constructor
  apply wp_bind
  · intro e Q Q' s hQ hspec r
    obtain ⟨s', hstep, hr⟩ := hspec r
    exact ⟨s', hstep, hQ r s' hr⟩
  · exact fun _ _ _ => rfl
  · exact (h.mono fun _ _ hf => hf.wp).wp

/-- No trace is stopped, and what the program does after it obeys the monitor as well. -/
theorem Obeys.trace {x y : Prog E R α} {t : List (Σ e, R e)} (h : Obeys monitor post x s)
    (ht : Trace x t y) :
  ∃ s', t.foldlM monitor s = some s' ∧ Obeys monitor post y s'
  := by
  induction ht generalizing s with
  | nil x => exact ⟨s, rfl, h⟩
  | cons r _ ih =>
    obtain ⟨s₁, hstep, hnext⟩ := h.wp s rfl r
    obtain ⟨s', hfold, hy⟩ := ih ⟨hnext⟩
    refine ⟨s', ?_, hy⟩
    rw [List.foldlM_cons, hstep]
    exact hfold

end Prog
