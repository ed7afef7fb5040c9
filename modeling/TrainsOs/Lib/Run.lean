import Mathlib.Data.List.Basic

/-!
# Runs of a machine

A machine is a step function `step : σ → α → Option σ`; `none` is a failed assertion or a
dereferenced null pointer. `run step s as` performs the actions `as` one after another,
and `Meets step ok s as` says that every action of that run satisfies `ok` in the state
in which it is performed. An invariant that every such action keeps, without failing,
holds at the end of every such run.
-/

namespace Run

variable {σ α : Type*} (step : σ → α → Option σ) (ok : σ → α → Prop)

/-- Performing the actions `as` from `s`. -/
def run (s : σ) : List α → Option σ
  | [] => some s
  | a :: as => (step s a).bind fun s' => run s' as

/-- Every action of the run from `s` satisfies `ok` where it is performed. -/
def Meets (s : σ) : List α → Prop
  | [] => True
  | a :: as => ok s a ∧ ∀ s', step s a = some s' → Meets s' as

/-- The states reached from `s₀` by actions that satisfy `ok`. -/
def Reachable (s₀ s : σ) : Prop :=
  ∃ as, Meets step ok s₀ as ∧ run step s₀ as = some s

variable {step ok}

/-- A run is a fold. -/
theorem run_eq_foldlM (s : σ) (as : List α) :
  run step s as = as.foldlM step s
  := by
  induction as generalizing s with
  | nil => rfl
  | cons a as ih =>
    rw [run, List.foldlM_cons]
    apply congrArg
    funext s'
    apply ih

theorem run_append (s : σ) (as bs : List α) :
  run step s (as ++ bs) = (run step s as).bind fun s' => run step s' bs
  := by
  induction as generalizing s with
  | nil => rfl
  | cons a as ih =>
    simp only [List.cons_append, run]
    cases step s a with
    | none => rfl
    | some s' => apply ih

theorem meets_append {s : σ} {as bs : List α} (h : Meets step ok s as)
    (hbs : ∀ s', run step s as = some s' → Meets step ok s' bs) :
  Meets step ok s (as ++ bs)
  := by
  induction as generalizing s with
  | nil => exact hbs s rfl
  | cons a as ih =>
    use h.1
    intro s' hs'
    apply ih (h.2 s' hs')
    intro t ht
    apply hbs
    rw [run, hs']
    exact ht

/-- The two parts of a run. -/
theorem Meets.of_append {s : σ} {as bs : List α} (h : Meets step ok s (as ++ bs)) :
  Meets step ok s as ∧ ∀ s', run step s as = some s' → Meets step ok s' bs
  := by
  induction as generalizing s with
  | nil =>
    refine ⟨trivial, ?_⟩
    rintro s' ⟨⟩
    exact h
  | cons a as ih =>
    constructor
    · exact ⟨h.1, fun s' hs' => (ih (h.2 s' hs')).1⟩
    · intro t ht
      obtain ⟨s', hs', hrun⟩ := Option.bind_eq_some_iff.mp ht
      exact (ih (h.2 s' hs')).2 t hrun

theorem run_cons {s s' : σ} {a : α} (h : step s a = some s') (as : List α) :
  run step s (a :: as) = run step s' as
  := by
  rw [run, h]
  rfl

theorem meets_cons {s s' : σ} {a : α} {as : List α} (ha : ok s a) (h : step s a = some s')
    (has : Meets step ok s' as) :
  Meets step ok s (a :: as)
  := by
  use ha
  intro t ht
  obtain rfl : s' = t := Option.some.inj (h.symm.trans ht)
  exact has

/-- A weaker condition is met as well. -/
theorem Meets.mono {ok' : σ → α → Prop} (h : ∀ s a, ok s a → ok' s a) {s : σ} {as : List α}
    (has : Meets step ok s as) :
  Meets step ok' s as
  := by
  induction as generalizing s with
  | nil => trivial
  | cons a as ih =>
    use h s a has.1
    intro s' hs'
    exact ih (has.2 s' hs')

/-- Two conditions that are met are met together. -/
theorem Meets.and {ok' : σ → α → Prop} {s : σ} {as : List α} (h : Meets step ok s as)
    (h' : Meets step ok' s as) :
  Meets step (fun s a => ok s a ∧ ok' s a) s as
  := by
  induction as generalizing s with
  | nil => trivial
  | cons a as ih =>
    use ⟨h.1, h'.1⟩
    intro s' hs'
    exact ih (h.2 s' hs') (h'.2 s' hs')

/-- Two conditions are met by the same runs of actions that satisfy `ok`, when they agree
wherever an invariant of these runs holds. -/
theorem Meets.iff_of_invariant {ok₁ ok₂ : σ → α → Prop} {P : σ → Prop}
    (hok : ∀ s a, P s → ok s a → (ok₁ s a ↔ ok₂ s a))
    (hstep : ∀ s a s', P s → ok s a → step s a = some s' → P s') {s : σ} (hs : P s)
    {as : List α} (h : Meets step ok s as) :
  Meets step ok₁ s as ↔ Meets step ok₂ s as
  := by
  induction as generalizing s with
  | nil => rfl
  | cons a as ih =>
    rw [Meets, Meets, hok s a hs h.1]
    apply and_congr_right
    intro _
    apply forall_congr'
    intro s'
    apply forall_congr'
    intro hs'
    exact ih (hstep s a s' hs h.1 hs') (h.2 s' hs')

/-- Two conditions that agree wherever `P` holds are met by the same runs, when the actions
that satisfy the first one keep `P`. -/
theorem meets_iff {ok' : σ → α → Prop} {P : σ → Prop} (hok : ∀ s a, P s → (ok s a ↔ ok' s a))
    (hstep : ∀ s a s', P s → ok s a → step s a = some s' → P s') {s : σ} (hs : P s)
    (as : List α) :
  Meets step ok s as ↔ Meets step ok' s as
  := by
  induction as generalizing s with
  | nil => rfl
  | cons a as ih =>
    have hhead := hok s a hs
    constructor
    · rintro ⟨ha, has⟩
      use hhead.mp ha
      intro s' hs'
      apply (ih (hstep s a s' hs ha hs')).mp
      apply has s' hs'
    · rintro ⟨ha, has⟩
      use hhead.mpr ha
      intro s' hs'
      apply (ih (hstep s a s' hs (hhead.mpr ha) hs')).mpr
      apply has s' hs'

/-- Along a run that does not fail, a condition on the states that are reached agrees with a
condition on the actions that lead there, if the two agree at every step. -/
theorem meets_iff_of_run {P : σ → Prop}
    (hok : ∀ s a s', P s → step s a = some s' → (P s' ↔ ok s a)) {s t : σ} (hs : P s)
    {as : List α} (hrun : run step s as = some t) :
  Meets step (fun s a => ∀ s', step s a = some s' → P s') s as ↔ Meets step ok s as
  := by
  induction as generalizing s with
  | nil => rfl
  | cons a as ih =>
    obtain ⟨s₁, hstep, hrun⟩ := Option.bind_eq_some_iff.mp hrun
    constructor
    · rintro ⟨ha, has⟩
      have hs₁ := ha s₁ hstep
      exact meets_cons ((hok s a s₁ hs hstep).mp hs₁) hstep ((ih hs₁ hrun).mp (has s₁ hstep))
    · rintro ⟨ha, has⟩
      have hs₁ := (hok s a s₁ hs hstep).mpr ha
      apply meets_cons _ hstep ((ih hs₁ hrun).mpr (has s₁ hstep))
      intro s' h
      exact (hok s a s' hs h).mpr ha

/-- The invariant rule: what every admitted step keeps holds after every admitted run,
and no such run fails. -/
theorem run_invariant {P : σ → Prop}
    (hstep : ∀ s a, P s → ok s a → ∃ s', step s a = some s' ∧ P s')
    {s : σ} {as : List α} (hs : P s) (has : Meets step ok s as) :
  ∃ s', run step s as = some s' ∧ P s'
  := by
  induction as generalizing s with
  | nil => exact ⟨s, rfl, hs⟩
  | cons a as ih =>
    obtain ⟨s₁, hs₁, hinv⟩ := hstep s a hs has.1
    obtain ⟨s', hs', hinv'⟩ := ih hinv (has.2 s₁ hs₁)
    use s'
    constructor
    · rw [run, hs₁]
      exact hs'
    · exact hinv'

/-- The invariant rule for an invariant of the state and the actions performed so far. -/
theorem run_history {P : List α → σ → Prop}
    (hstep : ∀ bs s a, P bs s → ok s a → ∃ s', step s a = some s' ∧ P (bs ++ [a]) s')
    {bs as : List α} {s : σ} (hs : P bs s) (has : Meets step ok s as) :
  ∃ s', run step s as = some s' ∧ P (bs ++ as) s'
  := by
  induction as generalizing bs s with
  | nil => exact ⟨s, rfl, by rwa [List.append_nil]⟩
  | cons a as ih =>
    obtain ⟨s₁, hs₁, hinv⟩ := hstep bs s a hs has.1
    obtain ⟨s', hs', hinv'⟩ := ih hinv (has.2 s₁ hs₁)
    use s'
    constructor
    · rw [run, hs₁]
      exact hs'
    · rwa [List.append_assoc] at hinv'

/-- Two ledgers that grow by the same entries in every good step, and the first by fewer
than the second in any other, are equal at the end of a run exactly when all its steps are
good. -/
theorem run_ledgers {P : σ → Prop} {good : σ → α → Prop} {β : Type*} {f g : σ → List β}
    (hstep : ∀ s a, P s → ok s a → ∃ s', step s a = some s' ∧ P s' ∧
      ∃ xs ys, f s' = f s ++ xs ∧ g s' = g s ++ ys ∧
        (good s a → xs = ys) ∧ (¬ good s a → xs.length < ys.length))
    {s : σ} {as : List α} (hs : P s) (has : Meets step ok s as) :
  ∃ s', run step s as = some s' ∧ P s' ∧
    ∃ xs ys, f s' = f s ++ xs ∧ g s' = g s ++ ys ∧ xs.length ≤ ys.length ∧
      (xs = ys ↔ Meets step good s as)
  := by
  induction as generalizing s with
  | nil =>
    refine ⟨s, rfl, hs, [], [], ?_, ?_, Nat.le_refl _, iff_of_true rfl trivial⟩
    · rw [List.append_nil]
    · rw [List.append_nil]
  | cons a as ih =>
    obtain ⟨s₁, hs₁, hP, xs, ys, hf, hg, hgood, hbad⟩ := hstep s a hs has.1
    obtain ⟨s', hs', hP', xs', ys', hf', hg', hle, hiff⟩ := ih hP (has.2 s₁ hs₁)
    have hrest : (∀ t, step s a = some t → Meets step good t as) ↔ Meets step good s₁ as := by
      rw [hs₁]
      simp
    refine ⟨s', ?_, hP', xs ++ xs', ys ++ ys', ?_, ?_, ?_⟩
    · rw [run, hs₁]
      exact hs'
    · rw [hf', hf, List.append_assoc]
    · rw [hg', hg, List.append_assoc]
    · rw [Meets, hrest, ← hiff]
      by_cases h : good s a
      · rw [hgood h]
        simpa [h] using hle
      · have hlt := hbad h
        constructor
        · rw [List.length_append, List.length_append]
          omega
        · constructor
          · intro heq
            have hlen := congrArg List.length heq
            rw [List.length_append, List.length_append] at hlen
            omega
          · intro hall
            exact absurd hall.1 h

/-- What every admitted step keeps holds after every admitted run that does not fail. -/
theorem meets_preserves {P : σ → Prop}
    (hstep : ∀ s a s', P s → ok s a → step s a = some s' → P s') {s s' : σ} {as : List α} (hs : P s)
    (has : Meets step ok s as) (hrun : run step s as = some s') :
  P s'
  := by
  induction as generalizing s with
  | nil => exact Option.some.inj hrun ▸ hs
  | cons a as ih =>
    obtain ⟨s₁, hs₁, hrun⟩ := Option.bind_eq_some_iff.mp hrun
    exact ih (hstep s a s₁ hs has.1 hs₁) (has.2 s₁ hs₁) hrun

/-- What every step that does not fail keeps holds after every run that does not fail. -/
theorem run_preserves {P : σ → Prop} (hstep : ∀ s a s', P s → step s a = some s' → P s')
    {s s' : σ} {as : List α} (hs : P s) (hrun : run step s as = some s') :
  P s'
  := by
  induction as generalizing s with
  | nil => exact Option.some.inj hrun ▸ hs
  | cons a as ih =>
    obtain ⟨s₁, hs₁, hrun⟩ := Option.bind_eq_some_iff.mp hrun
    exact ih (hstep s a s₁ hs hs₁) hrun

/-- What every step that does not fail keeps holds after a fold that does not fail. -/
theorem foldlM_preserves {P : σ → Prop} (hstep : ∀ s a s', P s → step s a = some s' → P s')
    {s s' : σ} {as : List α} (hs : P s) (h : as.foldlM step s = some s') :
  P s'
  := by
  apply run_preserves hstep hs
  rw [← h]
  exact run_eq_foldlM s as

/-- What every step that does not fail keeps, with the actions so far. -/
theorem run_traces {P : List α → σ → Prop}
    (hstep : ∀ bs s a s', P bs s → step s a = some s' → P (bs ++ [a]) s')
    {bs as : List α} {s s' : σ} (hs : P bs s) (hrun : run step s as = some s') :
  P (bs ++ as) s'
  := by
  induction as generalizing s bs with
  | nil =>
    rw [List.append_nil]
    exact Option.some.inj hrun ▸ hs
  | cons a as ih =>
    obtain ⟨s₁, hs₁, hrun⟩ := Option.bind_eq_some_iff.mp hrun
    rw [List.append_cons]
    exact ih (hstep bs s a s₁ hs hs₁) hrun

/-- What every admitted step keeps holds of every reachable state. -/
theorem Reachable.invariant {P : σ → Prop}
    (hstep : ∀ s a, P s → ok s a → ∃ s', step s a = some s' ∧ P s')
    {s₀ s : σ} (h₀ : P s₀) (h : Reachable step ok s₀ s) :
  P s
  := by
  obtain ⟨as, has, hrun⟩ := h
  obtain ⟨s', hs', hinv⟩ := run_invariant hstep h₀ has
  rw [hrun] at hs'
  obtain rfl := Option.some.inj hs'
  exact hinv

/-! ### Rounds -/

/-- The actions `as`, `n` times. -/
def rounds (as : List α) : ℕ → List α
  | 0 => []
  | n + 1 => rounds as n ++ as

theorem rounds_zero (as : List α) :
  rounds as 0 = []
  := rfl

theorem rounds_succ (as : List α) (n : ℕ) :
  rounds as (n + 1) = rounds as n ++ as
  := rfl

-- the number may be great, so that the rounds are not to be unfolded
attribute [irreducible] rounds

/-- Admitted rounds, each of which leads on from `P n` to `P (n + 1)`. -/
theorem run_rounds {P : ℕ → σ → Prop} {s₀ : σ} (h₀ : P 0 s₀) {as : List α} {m : ℕ}
    (hround : ∀ n < m, ∀ s, P n s →
      Meets step ok s as ∧ ∃ s', run step s as = some s' ∧ P (n + 1) s') :
  Meets step ok s₀ (rounds as m) ∧ ∃ s, run step s₀ (rounds as m) = some s ∧ P m s
  := by
  induction m with
  | zero =>
    rw [rounds_zero]
    exact ⟨trivial, s₀, rfl, h₀⟩
  | succ m ih =>
    rw [rounds_succ]
    obtain ⟨has, s, hrun, hs⟩ := ih fun n hn => hround n (Nat.lt_succ_of_lt hn)
    obtain ⟨hmeets, s', hrun', hs'⟩ := hround m (Nat.lt_succ_self m) s hs
    constructor
    · apply meets_append has
      intro t ht
      obtain rfl : s = t := Option.some.inj (hrun.symm.trans ht)
      exact hmeets
    · refine ⟨s', ?_, hs'⟩
      rw [run_append, hrun]
      exact hrun'

/-! ### Machines with a history -/

section History

variable {τ : Type*} {step' : τ → α → Option τ} {f : τ → σ}

/-- A machine that keeps a history beside its state runs as the machine without it. -/
theorem run_map (h : ∀ t a, (step' t a).map f = step (f t) a) (t : τ) (as : List α) :
  (run step' t as).map f = run step (f t) as
  := by
  induction as generalizing t with
  | nil => rfl
  | cons a as ih =>
    rw [run, run, ← h]
    cases step' t a with
    | none => rfl
    | some t' => exact ih t'

/-- A run of the machine is a run of the machine with a history. -/
theorem exists_run_of_map (h : ∀ t a, (step' t a).map f = step (f t) a) {t : τ} {as : List α}
    {s : σ} (hrun : run step (f t) as = some s) :
  ∃ t', run step' t as = some t' ∧ f t' = s
  := by
  rw [← run_map h] at hrun
  exact Option.map_eq_some_iff.mp hrun

theorem Meets.of_map (h : ∀ t a, (step' t a).map f = step (f t) a) {t : τ} {as : List α}
    (has : Meets step ok (f t) as) :
  Meets step' (fun t a => ok (f t) a) t as
  := by
  induction as generalizing t with
  | nil => trivial
  | cons a as ih =>
    use has.1
    intro t' ht'
    apply ih
    apply has.2
    rw [← h, ht']
    rfl

end History

/-! ### Computing with runs -/

/-- A computable test that every action of the run from `s` passes `check`. -/
def allOk (step : σ → α → Option σ) (check : σ → α → Bool) (s : σ) : List α → Bool
  | [] => true
  | a :: as => check s a && (step s a).all fun s' => allOk step check s' as

theorem meets_of_allOk {check : σ → α → Bool} (hcheck : ∀ s a, check s a = true → ok s a) {s : σ}
    {as : List α} (h : allOk step check s as = true) :
  Meets step ok s as
  := by
  induction as generalizing s with
  | nil => trivial
  | cons a as ih =>
    rw [allOk, Bool.and_eq_true] at h
    use hcheck s a h.1
    intro s' hs'
    apply ih
    have := h.2
    rwa [hs', Option.all_some] at this

end Run
