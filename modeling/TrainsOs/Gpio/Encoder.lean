import Mathlib.Data.Int.ModEq
import Mathlib.Data.List.Chain
import Mathlib.Tactic.SplitIfs
import Mathlib.Algebra.BigOperators.Group.List.Basic

/-!
# Quadrature encoders

The encoders of `kernel/src/encoder.c`. An encoder has two pins, `a` and `b`, which turn
through the cycle 00, 10, 11, 01. Each sample of the pins is counted as a step forward, a
step backward, no step, or a jump, and a system call reads the counters and clears them.
-/

namespace TrainsOs.Gpio

/-- `keQuadEncoderStat`. The counters are words of 64 bits. -/
structure Stat where
  forwardCnt : ℕ
  backwardCnt : ℕ
  invalid1Cnt : ℕ
  invalid2Cnt : ℕ
  debug : ℕ
deriving DecidableEq

/-- `ke_quad_encoder_stat_clear`. -/
def Stat.clear : Stat where
  forwardCnt := 0
  backwardCnt := 0
  invalid1Cnt := 0
  invalid2Cnt := 0
  debug := 0

/-- `kQuadEncoder`. -/
structure Encoder where
  pinA : ℕ
  pinB : ℕ
  lastA : Bool
  lastB : Bool
  stat : Stat
deriving DecidableEq

/-- `kQuadEncoderMgr`. -/
structure Mgr where
  encoders : List Encoder
  pinLookup : ℕ → ℤ

/-- `ENCODER_MAX`. -/
def encoderMax : ℕ := 2

/-- `encoder_mgr_init`. -/
def encoderMgrInit : Mgr where
  encoders := []
  pinLookup := fun _ => -1

/-- The table `change_lookup` that `encoder_mgr_init` sets up. -/
def changeLookup (change : ℕ) : ℤ :=
  if change ∈ [0b0010, 0b1011, 0b1101, 0b0100] then 1
  else if change ∈ [0b0001, 0b0111, 0b1110, 0b1000] then -1
  else 0

/-- `encoder_init`, when the levels of the pins are `gpioStatus`, up to the set up of the
pins. -/
def encoderInit (mgr : Mgr) (pinA pinB gpioStatus : ℕ) : Mgr × ℤ :=
  if encoderMax ≤ mgr.encoders.length then
    (mgr, -1)
  else
    let idx : ℤ := mgr.encoders.length
    let encoder : Encoder :=
      { pinA := pinA, pinB := pinB, lastA := gpioStatus.testBit pinA
        lastB := gpioStatus.testBit pinB, stat := Stat.clear }
    let pinLookup := Function.update (Function.update mgr.pinLookup pinA idx) pinB idx
    ({ encoders := mgr.encoders ++ [encoder], pinLookup := pinLookup }, idx)

/-- `get_encoder`. -/
def getEncoder (mgr : Mgr) (id : ℤ) : Option Encoder :=
  if 0 ≤ id ∧ id < mgr.encoders.length then
    mgr.encoders[id.toNat]?
  else
    none

/-- `get_encoder_by_pin`: the id of the encoder. -/
def getEncoderByPin (mgr : Mgr) (pin : ℕ) : Option Encoder :=
  let id := mgr.pinLookup pin
  if id = -1 then
    none
  else
    getEncoder mgr id

/-- The index into the table. -/
def change (lastA lastB a b : Bool) : ℕ :=
  lastA.toNat <<< 3 ||| lastB.toNat <<< 2 ||| a.toNat <<< 1 ||| b.toNat

/-- `encoder_update` of an encoder that is not `NULL`. -/
def Encoder.update (encoder : Encoder) (a b : Bool) : Encoder :=
  let stat := encoder.stat
  let changeResult := changeLookup (change encoder.lastA encoder.lastB a b)
  let stat :=
    if changeResult = 1 then
      { stat with forwardCnt := (stat.forwardCnt + 1) % 2 ^ 64 }
    else if changeResult = -1 then
      { stat with backwardCnt := (stat.backwardCnt + 1) % 2 ^ 64 }
    else if encoder.lastA = a ∧ encoder.lastB = b then
      { stat with invalid1Cnt := (stat.invalid1Cnt + 1) % 2 ^ 64 }
    else
      { stat with invalid2Cnt := (stat.invalid2Cnt + 1) % 2 ^ 64 }
  { encoder with stat := stat, lastA := a, lastB := b }

/-- The encoder with this id is replaced. -/
def Mgr.set (mgr : Mgr) (id : ℤ) (encoder : Encoder) : Mgr :=
  { mgr with encoders := mgr.encoders.set id.toNat encoder }

/-- `encoder_update(get_encoder(mgr, id), a, b)`. -/
def Mgr.update (mgr : Mgr) (id : ℤ) (a b : Bool) : Mgr :=
  match getEncoder mgr id with
  | none => mgr
  | some encoder => mgr.set id (encoder.update a b)

/-- `k_quadrature_encoder_get`: what is written to `*stat`, if anything. -/
def Mgr.get (mgr : Mgr) (id : ℤ) : Mgr × Option Stat :=
  match getEncoder mgr id with
  | none => (mgr, none)
  | some encoder => (mgr.set id { encoder with stat := Stat.clear }, some encoder.stat)

/-! ### Runs -/

/-- The manager, and what the system calls have returned so far, with the id of the
encoder. -/
structure Sys where
  mgr : Mgr
  returned : List (ℤ × Stat)

inductive Action where
  | init (pinA pinB gpioStatus : ℕ)
  | update (id : ℤ) (a b : Bool)
  | get (id : ℤ)

def Sys.step (s : Sys) : Action → Sys
  | .init pinA pinB gpioStatus => { s with mgr := (encoderInit s.mgr pinA pinB gpioStatus).1 }
  | .update id a b => { s with mgr := s.mgr.update id a b }
  | .get id =>
      { mgr := (s.mgr.get id).1
        returned := s.returned ++ ((s.mgr.get id).2.map fun stat => (id, stat)).toList }

def Sys.run (s : Sys) (as : List Action) : Sys :=
  as.foldl Sys.step s

/-! ### Paths on the cycle -/

/-- The levels of the pins `a` and `b`. -/
abbrev Sample := Bool × Bool

/-- The place on the cycle. -/
def place : Sample → ℕ
  | (false, false) => 0
  | (true, false) => 1
  | (true, true) => 2
  | (false, true) => 3

/-- The samples differ in at most one pin. -/
def Near (p q : Sample) : Prop :=
  p.1 = q.1 ∨ p.2 = q.2

instance (p q : Sample) : Decidable (Near p q) :=
  inferInstanceAs (Decidable (_ ∨ _))

/-- The step from one sample to the next: forward, backward, or none. -/
def turn (p q : Sample) : ℤ :=
  if place q = (place p + 1) % 4 then 1
  else if place p = (place q + 1) % 4 then -1
  else 0

/-- The signed displacement along a path. -/
def displacement : List Sample → ℤ
  | p :: q :: path => turn p q + displacement (q :: path)
  | _ => 0

theorem turn_comm (p q : Sample) :
  turn q p = -turn p q
  := by
  obtain ⟨a, b⟩ := p
  obtain ⟨a', b'⟩ := q
  decide +revert

theorem turn_self (p : Sample) :
  turn p p = 0
  := by
  obtain ⟨a, b⟩ := p
  decide +revert

/-- A step between samples that differ in at most one pin is the distance on the cycle. -/
theorem place_turn {p q : Sample} (h : Near p q) :
  (place q : ℤ) ≡ place p + turn p q [ZMOD 4]
  := by
  obtain ⟨a, b⟩ := p
  obtain ⟨a', b'⟩ := q
  decide +revert

theorem displacement_append (path : List Sample) (p : Sample) (path' : List Sample) :
  displacement (path ++ p :: path') = displacement (path ++ [p]) + displacement (p :: path')
  := by
  induction path with
  | nil => simp [displacement]
  | cons q path ih =>
    cases path with
    | nil => simp [displacement]
    | cons r path =>
      simp only [List.cons_append, displacement] at ih ⊢
      rw [ih, Int.add_assoc]

/-- The way back undoes the displacement. -/
theorem displacement_reverse (path : List Sample) :
  displacement path.reverse = -displacement path
  := by
  induction path with
  | nil => rfl
  | cons p path ih =>
    cases path with
    | nil => rfl
    | cons q path =>
      rw [List.reverse_cons, List.reverse_cons, List.append_assoc, List.singleton_append,
        displacement_append, ← List.reverse_cons, ih]
      have hlast : displacement [q, p] = turn q p := Int.add_zero _
      rw [hlast, turn_comm, displacement, Int.neg_add, Int.add_comm]

/-- A path and its way back end where they started. -/
theorem displacement_retrace (path : List Sample) :
  displacement (path ++ path.reverse) = 0
  := by
  cases h : path.reverse with
  | nil =>
    rw [List.reverse_eq_nil_iff.mp h]
    rfl
  | cons p back =>
    have hpath : path = back.reverse ++ [p] := by
      rw [← List.reverse_reverse path, h, List.reverse_cons]
    -- at the turning point the path stands still
    have hturn : displacement (path ++ [p]) = displacement path := by
      rw [hpath, List.append_assoc, List.singleton_append, displacement_append]
      simp [displacement, turn_self]
    rw [displacement_append, hturn, ← h, displacement_reverse]
    exact Int.add_right_neg _

/-- The displacement is the distance on the cycle, unwrapped. -/
theorem place_displacement {p : Sample} {path : List Sample} (h : (p :: path).IsChain Near) :
  (place ((p :: path).getLast (List.cons_ne_nil _ _)) : ℤ)
    ≡ place p + displacement (p :: path) [ZMOD 4]
  := by
  induction path generalizing p with
  | nil => simp [displacement]
  | cons q path ih =>
    obtain ⟨hnear, hrest⟩ := List.isChain_cons_cons.mp h
    rw [List.getLast_cons (List.cons_ne_nil _ _), displacement, ← Int.add_assoc]
    exact (ih hrest).trans ((place_turn hnear).add_right _)

/-! ### Counting -/

/-- The steps forward less those backward. -/
def Stat.net (stat : Stat) : ℤ :=
  stat.forwardCnt - stat.backwardCnt

/-- The number of samples that were counted. -/
def Stat.total (stat : Stat) : ℕ :=
  stat.forwardCnt + stat.backwardCnt + stat.invalid1Cnt + stat.invalid2Cnt

/-- The last sample. -/
def Encoder.last (encoder : Encoder) : Sample :=
  (encoder.lastA, encoder.lastB)

theorem turn_cases (p q : Sample) :
  turn p q = 1 ∨ turn p q = -1 ∨ turn p q = 0
  := by
  rw [turn]
  split_ifs
  · exact Or.inl rfl
  · exact Or.inr (Or.inl rfl)
  · exact Or.inr (Or.inr rfl)

/-- The table agrees with the cycle. -/
theorem changeLookup_eq (p q : Sample) :
  changeLookup (change p.1 p.2 q.1 q.2) = turn p q
  := by
  obtain ⟨a, b⟩ := p
  obtain ⟨a', b'⟩ := q
  decide +revert

/-- A sample is counted once, as the step that it is, when no counter is full. -/
theorem update_spec (encoder : Encoder) (a b : Bool) (h : encoder.stat.total + 1 < 2 ^ 64) :
  (encoder.update a b).stat.net = encoder.stat.net + turn encoder.last (a, b) ∧
    (encoder.update a b).stat.total = encoder.stat.total + 1
  := by
  have htable := changeLookup_eq encoder.last (a, b)
  rw [Encoder.last] at htable
  dsimp only at htable
  rw [Stat.total] at h
  have hmod : ∀ n, n ≤ encoder.stat.forwardCnt + encoder.stat.backwardCnt +
      encoder.stat.invalid1Cnt + encoder.stat.invalid2Cnt → (n + 1) % 2 ^ 64 = n + 1 := by
    intro n hn
    exact Nat.mod_eq_of_lt (by omega)
  rw [Encoder.update]
  dsimp only
  rw [htable, Encoder.last]
  split_ifs with hforward hbackward hsame
  · rw [hforward, Stat.net, Stat.net, Stat.total, Stat.total, hmod _ (by omega)]
    dsimp only
    constructor
    · push_cast
      omega
    · omega
  · rw [hbackward, Stat.net, Stat.net, Stat.total, Stat.total, hmod _ (by omega)]
    dsimp only
    constructor
    · push_cast
      omega
    · omega
  · have hzero := (turn_cases _ _).resolve_left hforward |>.resolve_left hbackward
    rw [hzero, Stat.total, Stat.total, hmod _ (by omega)]
    dsimp only
    constructor
    · exact (Int.add_zero _).symm
    · omega
  · have hzero := (turn_cases _ _).resolve_left hforward |>.resolve_left hbackward
    rw [hzero, Stat.total, Stat.total, hmod _ (by omega)]
    dsimp only
    constructor
    · exact (Int.add_zero _).symm
    · omega

/-- A sample without a step. -/
theorem update_still (encoder : Encoder) :
  encoder.update encoder.lastA encoder.lastB = { encoder with
    stat := { encoder.stat with invalid1Cnt := (encoder.stat.invalid1Cnt + 1) % 2 ^ 64 } }
  := by
  have htable := changeLookup_eq encoder.last encoder.last
  rw [turn_self, Encoder.last] at htable
  rw [Encoder.update]
  dsimp only at htable ⊢
  rw [htable]
  simp

section Manager

variable {mgr : Mgr} {id id' : ℤ} {encoder encoder' : Encoder}

theorem getEncoder_eq_some :
  getEncoder mgr id = some encoder ↔ 0 ≤ id ∧ mgr.encoders[id.toNat]? = some encoder
  := by
  rw [getEncoder]
  constructor
  · intro h
    split_ifs at h with hid
    exact ⟨hid.1, h⟩
  · rintro ⟨hid, hget⟩
    obtain ⟨hlt, -⟩ := List.getElem?_eq_some_iff.mp hget
    rw [if_pos ⟨hid, by omega⟩, hget]

theorem getEncoder_set_self (h : getEncoder mgr id = some encoder) (encoder' : Encoder) :
  getEncoder (mgr.set id encoder') id = some encoder'
  := by
  obtain ⟨hid, hget⟩ := getEncoder_eq_some.mp h
  obtain ⟨hlt, -⟩ := List.getElem?_eq_some_iff.mp hget
  exact getEncoder_eq_some.mpr ⟨hid, List.getElem?_set_self hlt⟩

theorem getEncoder_set_ne (h : getEncoder mgr id = some encoder)
    (h' : getEncoder mgr id' = some encoder') (hne : id' ≠ id) (encoder'' : Encoder) :
  getEncoder (mgr.set id' encoder'') id = some encoder
  := by
  obtain ⟨hid, hget⟩ := getEncoder_eq_some.mp h
  obtain ⟨hid', -⟩ := getEncoder_eq_some.mp h'
  refine getEncoder_eq_some.mpr ⟨hid, ?_⟩
  rw [Mgr.set, List.getElem?_set_ne (by omega)]
  exact hget

/-- The other encoders stay as they are. -/
theorem getEncoder_init (h : getEncoder mgr id = some encoder) (pinA pinB gpioStatus : ℕ) :
  getEncoder (encoderInit mgr pinA pinB gpioStatus).1 id = some encoder
  := by
  obtain ⟨hid, hget⟩ := getEncoder_eq_some.mp h
  obtain ⟨hlt, -⟩ := List.getElem?_eq_some_iff.mp hget
  rw [encoderInit]
  split_ifs
  · exact h
  · refine getEncoder_eq_some.mpr ⟨hid, ?_⟩
    dsimp only
    rw [List.getElem?_append_left hlt]
    exact hget

/-- A new encoder. -/
theorem encoderInit_spec {mgr' : Mgr} {pinA pinB gpioStatus : ℕ}
    (h : encoderInit mgr pinA pinB gpioStatus = (mgr', id)) (hid : id ≠ -1) :
  getEncoder mgr' id = some
    { pinA := pinA, pinB := pinB, lastA := gpioStatus.testBit pinA
      lastB := gpioStatus.testBit pinB, stat := Stat.clear }
  := by
  rw [encoderInit] at h
  split_ifs at h
  · exact absurd (Prod.mk.inj h).2.symm hid
  · obtain ⟨rfl, rfl⟩ := Prod.mk.inj h
    refine getEncoder_eq_some.mpr ⟨Int.natCast_nonneg _, ?_⟩
    simp

end Manager

/-! ### Histories -/

/-- The samples of an encoder. -/
def samples (id : ℤ) (as : List Action) : List Sample :=
  as.filterMap fun a => match a with
    | .update id' a b => if id' = id then some (a, b) else none
    | _ => none

/-- The statistics of an encoder that were returned. -/
def stats (id : ℤ) (returned : List (ℤ × Stat)) : List Stat :=
  returned.filterMap fun p => if p.1 = id then some p.2 else none

/-- The number of samples of an encoder since its statistics were last read, after one more
action. -/
def pendingStep (id : ℤ) (n : ℕ) : Action → ℕ
  | .update id' _ _ => if id' = id then n + 1 else n
  | .get id' => if id' = id then 0 else n
  | .init _ _ _ => n

/-- The number of samples of an encoder since its statistics were last read. -/
def pending (id : ℤ) (as : List Action) : ℕ :=
  as.foldl (pendingStep id) 0

/-- What has been counted of the samples `path`. -/
structure Counted (id : ℤ) (path : List Sample) (n : ℕ) (s : Sys) (encoder : Encoder) : Prop where
  found : getEncoder s.mgr id = some encoder
  last : path.getLast? = some encoder.last
  net : ((stats id s.returned).map Stat.net).sum + encoder.stat.net = displacement path
  total : ((stats id s.returned).map Stat.total).sum + encoder.stat.total + 1 = path.length
  pending : encoder.stat.total = n

section Histories

variable {id : ℤ} {path : List Sample} {n : ℕ} {s : Sys} {encoder : Encoder}

/-- A sample continues the path. -/
theorem Counted.update (h : Counted id path n s encoder) (hn : n + 1 < 2 ^ 64) (a b : Bool) :
  Counted id (path ++ [(a, b)]) (n + 1) (s.step (.update id a b)) (encoder.update a b)
  := by
  rw [← h.pending] at hn
  obtain ⟨hnet, htotal⟩ := update_spec encoder a b hn
  obtain ⟨front, hfront⟩ : ∃ front, path = front ++ [encoder.last] :=
    List.getLast?_eq_some_iff.mp h.last
  constructor
  · rw [Sys.step, Mgr.update, h.found]
    exact getEncoder_set_self h.found _
  · rw [List.getLast?_concat]
    rfl
  · have hdisp : displacement (path ++ [(a, b)])
        = displacement path + turn encoder.last (a, b) := by
      rw [hfront, List.append_assoc, List.singleton_append, displacement_append]
      simp [displacement]
    rw [hdisp, ← h.net, hnet, Int.add_assoc]
    rfl
  · rw [List.length_append, List.length_singleton, ← h.total, htotal]
    rfl
  · rw [htotal, h.pending]

/-- A read takes what was counted and clears it. -/
theorem Counted.get (h : Counted id path n s encoder) :
  Counted id path 0 (s.step (.get id)) { encoder with stat := Stat.clear }
  := by
  have hget : s.mgr.get id = (s.mgr.set id { encoder with stat := Stat.clear },
      some encoder.stat) := by
    rw [Mgr.get, h.found]
  have hstats : stats id (s.step (.get id)).returned = stats id s.returned ++ [encoder.stat] := by
    rw [Sys.step, hget, stats, List.filterMap_append]
    simp [stats]
  constructor
  · rw [Sys.step, hget]
    exact getEncoder_set_self h.found _
  · exact h.last
  · rw [hstats, List.map_append, List.sum_append, ← h.net]
    simp [Stat.net, Stat.clear]
  · rw [hstats, List.map_append, List.sum_append, ← h.total]
    simp [Stat.total, Stat.clear]
  · rfl

/-- What is done to another encoder changes nothing. -/
theorem Counted.other (h : Counted id path n s encoder) {s' : Sys}
    (hencoder : getEncoder s'.mgr id = some encoder)
    (hstats : stats id s'.returned = stats id s.returned) :
  Counted id path n s' encoder
  := by
  constructor
  · exact hencoder
  · exact h.last
  · rw [hstats]
    exact h.net
  · rw [hstats]
    exact h.total
  · exact h.pending

end Histories

/-! ### Runs -/

theorem samples_append (id : ℤ) (as : List Action) (a : Action) :
  samples id (as ++ [a]) = samples id as ++ samples id [a]
  := List.filterMap_append

theorem run_append (s : Sys) (as : List Action) (a : Action) :
  s.run (as ++ [a]) = (s.run as).step a
  := List.foldl_append

/-- Every sample of the encoder is counted, as long as fewer than `2 ^ 64` are counted before
they are read. -/
theorem run_counted {id : ℤ} {p : Sample} {s : Sys} {encoder : Encoder}
    (h : Counted id [p] 0 s encoder) (as : List Action)
    (hfew : ∀ bs, bs <+: as → pending id bs < 2 ^ 64) :
  ∃ encoder', Counted id (p :: samples id as) (pending id as) (s.run as) encoder'
  := by
  induction as using List.reverseRecOn with
  | nil => exact ⟨encoder, h⟩
  | append_singleton as a ih =>
    obtain ⟨encoder', hcounted⟩ := ih fun bs hbs => hfew bs (hbs.trans (List.prefix_append as [a]))
    have hlast := hfew (as ++ [a]) (List.prefix_refl _)
    have hpending : pending id (as ++ [a]) = pendingStep id (pending id as) a :=
      List.foldl_append
    rw [hpending] at hlast ⊢
    rw [samples_append, run_append, ← List.cons_append]
    cases a with
    | init pinA pinB gpioStatus =>
      have hsamples : samples id [.init pinA pinB gpioStatus] = [] := rfl
      rw [hsamples, List.append_nil]
      exact ⟨encoder', hcounted.other (getEncoder_init hcounted.found _ _ _) rfl⟩
    | update id' a b =>
      dsimp only [pendingStep] at hlast ⊢
      by_cases hid : id' = id
      · subst hid
        rw [if_pos rfl] at hlast ⊢
        have hsamples : samples id' [.update id' a b] = [(a, b)] := by simp [samples]
        rw [hsamples]
        exact ⟨_, hcounted.update hlast a b⟩
      · rw [if_neg hid]
        have hsamples : samples id [.update id' a b] = [] := by simp [samples, hid]
        rw [hsamples, List.append_nil]
        refine ⟨encoder', hcounted.other ?_ rfl⟩
        rw [Sys.step, Mgr.update]
        cases hother : getEncoder (s.run as).mgr id' with
        | none => exact hcounted.found
        | some e => exact getEncoder_set_ne hcounted.found hother hid _
    | get id' =>
      dsimp only [pendingStep] at hlast ⊢
      have hsamples : samples id [.get id'] = [] := rfl
      rw [hsamples, List.append_nil]
      by_cases hid : id' = id
      · subst hid
        rw [if_pos rfl]
        exact ⟨_, hcounted.get⟩
      · rw [if_neg hid]
        refine ⟨encoder', ?_⟩
        rw [Sys.step, Mgr.get]
        cases hother : getEncoder (s.run as).mgr id' with
        | none =>
          refine hcounted.other hcounted.found ?_
          exact congrArg (stats id) (List.append_nil _)
        | some e =>
          refine hcounted.other (getEncoder_set_ne hcounted.found hother hid _) ?_
          rw [stats, List.filterMap_append]
          simp [stats, hid]

/-- After every run what was returned and what is left add up to the displacement along the
path from the levels at the start to the last sample, which is the distance on the cycle
when consecutive samples differ in at most one pin and nothing when the path is a path and
its way back; and every sample is counted once. -/
theorem encoder_counts {mgr mgr' : Mgr} {pinA pinB gpioStatus : ℕ} {id : ℤ}
    (hinit : encoderInit mgr pinA pinB gpioStatus = (mgr', id)) (hid : id ≠ -1)
    {as : List Action} (hfew : ∀ bs, bs <+: as → pending id bs < 2 ^ 64) :
  ∃ encoder path, getEncoder (Sys.run { mgr := mgr', returned := [] } as).mgr id = some encoder ∧
    path = (gpioStatus.testBit pinA, gpioStatus.testBit pinB) :: samples id as ∧
    let all := stats id (Sys.run { mgr := mgr', returned := [] } as).returned ++ [encoder.stat]
    (all.map Stat.net).sum = displacement path ∧
    (all.map Stat.total).sum = (samples id as).length ∧
    (path.IsChain Near → (place encoder.last : ℤ) ≡
      place (gpioStatus.testBit pinA, gpioStatus.testBit pinB) + (all.map Stat.net).sum
        [ZMOD 4]) ∧
    (∀ half, path = half ++ half.reverse → (all.map Stat.net).sum = 0)
  := by
  have hstart : Counted id [(gpioStatus.testBit pinA, gpioStatus.testBit pinB)] 0
      { mgr := mgr', returned := [] }
      { pinA := pinA, pinB := pinB, lastA := gpioStatus.testBit pinA
        lastB := gpioStatus.testBit pinB, stat := Stat.clear } :=
    ⟨encoderInit_spec hinit hid, rfl, rfl, rfl, rfl⟩
  obtain ⟨encoder, hcounted⟩ := run_counted hstart as hfew
  refine ⟨encoder, _, hcounted.found, rfl, ?_⟩
  dsimp only
  have hnet := hcounted.net
  have htotal := hcounted.total
  rw [List.length_cons] at htotal
  rw [List.map_append, List.sum_append, List.map_append, List.sum_append, List.map_singleton,
    List.sum_singleton, List.map_singleton, List.sum_singleton, hnet]
  refine ⟨rfl, Nat.succ.inj htotal, ?_, ?_⟩
  · intro hchain
    have hlast := hcounted.last
    rw [List.getLast?_eq_some_getLast (List.cons_ne_nil _ _)] at hlast
    rw [← Option.some.inj hlast]
    exact place_displacement hchain
  · intro half hhalf
    rw [hhalf]
    exact displacement_retrace half

/-! ### Examples of runs -/

/-- The manager with one encoder, whose pins 5 and 6 are low at the start. -/
def oneEncoder : Mgr :=
  (encoderInit encoderMgrInit 5 6 0).1

theorem oneEncoder_init :
  encoderInit encoderMgrInit 5 6 0 = (oneEncoder, 0)
  := rfl

/-- Two steps forward, a read in between, and the way back. -/
def turnAndBack : List Action :=
  [.update 0 true false, .get 0, .update 0 true true, .update 0 true true, .update 0 true false,
    .update 0 false false]

theorem pending_le (id : ℤ) (as : List Action) :
  pending id as ≤ as.length
  := by
  induction as using List.reverseRecOn with
  | nil => rfl
  | append_singleton as a ih =>
    have hpending : pending id (as ++ [a]) = pendingStep id (pending id as) a :=
      List.foldl_append
    rw [hpending, List.length_append, List.length_singleton]
    cases a with
    | init => exact Nat.le_succ_of_le ih
    | update id' a b =>
      rw [pendingStep]
      split_ifs
      · exact Nat.succ_le_succ ih
      · exact Nat.le_succ_of_le ih
    | get id' =>
      rw [pendingStep]
      split_ifs
      · exact Nat.zero_le _
      · exact Nat.le_succ_of_le ih

theorem encoder_counts_back :
  ∃ encoder path, getEncoder (Sys.run { mgr := oneEncoder, returned := [] } turnAndBack).mgr 0
      = some encoder ∧
    path = (Nat.testBit 0 5, Nat.testBit 0 6) :: samples 0 turnAndBack ∧
    let all := stats 0 (Sys.run { mgr := oneEncoder, returned := [] } turnAndBack).returned ++
      [encoder.stat]
    (all.map Stat.net).sum = displacement path ∧
    (all.map Stat.total).sum = (samples 0 turnAndBack).length ∧
    (path.IsChain Near → (place encoder.last : ℤ) ≡
      place (Nat.testBit 0 5, Nat.testBit 0 6) + (all.map Stat.net).sum [ZMOD 4]) ∧
    (∀ half, path = half ++ half.reverse → (all.map Stat.net).sum = 0)
  := by
  apply encoder_counts oneEncoder_init (by decide)
  intro bs hbs
  have hle := (pending_le 0 bs).trans hbs.length_le
  have hlen : turnAndBack.length = 6 := rfl
  omega

/-- Samples without a step. -/
theorem run_still (n : ℕ) :
  getEncoder (Sys.run { mgr := oneEncoder, returned := [] }
      (List.replicate n (.update 0 false false))).mgr 0
    = some
      { pinA := 5, pinB := 6, lastA := false, lastB := false
        stat := { Stat.clear with invalid1Cnt := n % 2 ^ 64 } } ∧
  (Sys.run { mgr := oneEncoder, returned := [] }
      (List.replicate n (.update 0 false false))).returned = [] ∧
  (samples 0 (List.replicate n (.update 0 false false))).length = n
  := by
  induction n with
  | zero => exact ⟨rfl, rfl, rfl⟩
  | succ n ih =>
    obtain ⟨hget, hreturned, hsamples⟩ := ih
    rw [List.replicate_succ', run_append, samples_append, List.length_append, hsamples]
    refine ⟨?_, hreturned, rfl⟩
    rw [Sys.step, Mgr.update, hget]
    refine (getEncoder_set_self hget _).trans ?_
    congr 1
    have hsucc : (n % 2 ^ 64 + 1) % 2 ^ 64 = (n + 1) % 2 ^ 64 := Nat.mod_add_mod n (2 ^ 64) 1
    rw [← hsucc]
    apply update_still

/-- After `2 ^ 64` samples without a read all counters are zero. -/
theorem encoder_overflow :
  ∃ encoder, getEncoder (Sys.run { mgr := oneEncoder, returned := [] }
      (List.replicate (2 ^ 64) (.update 0 false false))).mgr 0 = some encoder ∧
    (Sys.run { mgr := oneEncoder, returned := [] }
      (List.replicate (2 ^ 64) (.update 0 false false))).returned = [] ∧
    encoder.stat.total = 0 ∧
    (samples 0 (List.replicate (2 ^ 64) (.update 0 false false))).length = 2 ^ 64
  := by
  obtain ⟨hget, hreturned, hsamples⟩ := run_still (2 ^ 64)
  refine ⟨_, hget, hreturned, ?_, hsamples⟩
  rw [Nat.mod_self]
  rfl

end TrainsOs.Gpio
