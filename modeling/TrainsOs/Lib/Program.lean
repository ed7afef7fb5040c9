import Mathlib.Logic.Relation

/-!
# Programs and what others do meanwhile

A program is a tree: it has returned a value, or it performs an operation and goes on with
the response. What an operation does to the state that the program shares with others is
given by a predicate transformer. Between two operations the others change the state in
the ways of the relation `rely`, so that an assertion is of use only where `rely` keeps it.
-/

/-- The programs that return values of type `α`; the operation `e` has responses of the
type `R e`. -/
inductive Prog (E : Type) (R : E → Type) (α : Type) where
  | pure (a : α)
  | op (e : E) (next : R e → Prog E R α)

namespace Prog

variable {E : Type} {R : E → Type} {α β γ : Type}

def bind (x : Prog E R α) (f : α → Prog E R β) : Prog E R β :=
  match x with
  | .pure a => f a
  | .op e next => .op e fun r => (next r).bind f

instance : Monad (Prog E R) where
  pure := .pure
  bind := .bind

/-- The program of one operation. -/
def perform (e : E) : Prog E R (R e) :=
  .op e .pure

theorem bind_assoc (x : Prog E R α) (f : α → Prog E R β) (g : β → Prog E R γ) :
  (x.bind f).bind g = x.bind fun a => (f a).bind g
  := by
  induction x with
  | pure a => rfl
  | op e next ih =>
    apply congrArg (Prog.op e)
    funext r
    apply ih

/-! ### Execution -/

section Exec

variable {τ : Type} (h : (e : E) → τ → Option (R e × τ))

/-- The program on its own: the handler `h` performs the operations. -/
def exec : Prog E R α → τ → Option (α × τ)
  | .pure a, s => some (a, s)
  | .op e next, s => (h e s).bind fun r => (next r.1).exec r.2

theorem exec_bind (x : Prog E R α) (f : α → Prog E R β) (s : τ) :
  (x.bind f).exec h s = (x.exec h s).bind fun r => (f r.1).exec h r.2
  := by
  induction x generalizing s with
  | pure a => rfl
  | op e next ih =>
    rw [bind, exec, exec, Option.bind_assoc]
    apply congrArg (Option.bind (h e s))
    funext r
    apply ih

end Exec

/-! ### Weakest preconditions -/

section Wp

variable {σ : Type} (rely : σ → σ → Prop) (spec : (e : E) → (R e → σ → Prop) → σ → Prop)

/-- From the state the program leads to `post` only, whatever the others do. -/
def wp (post : α → σ → Prop) : Prog E R α → σ → Prop
  | .pure a, s => ∀ t, rely s t → post a t
  | .op e next, s => ∀ t, rely s t → spec e (fun r => (next r).wp post) t

variable {rely spec}

variable (hmono : ∀ e (Q Q' : R e → σ → Prop) s, (∀ r t, Q r t → Q' r t) → spec e Q s →
  spec e Q' s)

include hmono

theorem wp_mono {post post' : α → σ → Prop} {x : Prog E R α} {s : σ}
    (h : x.wp rely spec post s) (hpost : ∀ a t, post a t → post' a t) :
  x.wp rely spec post' s
  := by
  induction x generalizing s with
  | pure a => exact fun t ht => hpost a t (h t ht)
  | op e next ih =>
    intro t ht
    apply hmono e _ _ t _ (h t ht)
    intro r u hu
    exact ih r hu

/-- One program after another. -/
theorem wp_bind {post : β → σ → Prop} {f : α → Prog E R β} {x : Prog E R α} {s : σ}
    (hrefl : ∀ s t, rely s t → rely t t) (h : x.wp rely spec (fun a => (f a).wp rely spec post) s) :
  (x.bind f).wp rely spec post s
  := by
  induction x generalizing s with
  | pure a =>
    change (f a).wp rely spec post s
    have hf : ∀ t, rely s t → (f a).wp rely spec post t := h
    cases hfa : f a with
    | pure c =>
      intro t ht
      rw [hfa] at hf
      exact hf t ht t (hrefl s t ht)
    | op e next =>
      intro t ht
      rw [hfa] at hf
      exact hf t ht t (hrefl s t ht)
  | op e next ih =>
    intro t ht
    apply hmono e _ _ t _ (h t ht)
    intro r u hu
    exact ih r hu

end Wp

end Prog
