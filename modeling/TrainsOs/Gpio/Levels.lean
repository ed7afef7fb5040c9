import TrainsOs.Gpio.Bank
import TrainsOs.Lib.Run

/-!
# Registering encoders

The system call that makes an encoder takes any two words for its pins. Its pins are looked
up in a table of 64 pins, and the levels of its pins are taken from the word of all levels,
once by `encoder_init` and later by `process_intr_gpio_pin`.
-/

namespace TrainsOs.Gpio

/-- The length of `pin_lookup`. -/
def pinLookupLen : ℕ := 64

/-- `1ULL << pin`: `none` when the shift is out of range. -/
def ullBit (pin : ℕ) : Option (BitVec 64) :=
  if pin < 64 then some (1#64 <<< pin) else none

/-- `pin_lookup[pin] = idx`: `none` when this is outside of the table. -/
def setPinLookup (pinLookup : ℕ → ℤ) (pin : ℕ) (idx : ℤ) : Option (ℕ → ℤ) :=
  if pin < pinLookupLen then some (Function.update pinLookup pin idx) else none

/-- `encoder_init` with its shifts and its writes to `pin_lookup`, when `gpio_read` returns
`gpioStatus`: `none` when one of them is out of range. -/
def encoderInitChecked (mgr : Mgr) (pinA pinB : ℕ) (gpioStatus : BitVec 64) :
    Option (Mgr × ℤ) :=
  if encoderMax ≤ mgr.encoders.length then
    some (mgr, -1)
  else do
    let idx : ℤ := mgr.encoders.length
    let lastA := gpioStatus &&& (← ullBit pinA) ≠ 0
    let lastB := gpioStatus &&& (← ullBit pinB) ≠ 0
    let encoder : Encoder :=
      { pinA := pinA, pinB := pinB, lastA := lastA, lastB := lastB, stat := Stat.clear }
    let pinLookup ← setPinLookup mgr.pinLookup pinA idx
    let pinLookup ← setPinLookup pinLookup pinB idx
    some ({ encoders := mgr.encoders ++ [encoder], pinLookup := pinLookup }, idx)

/-- A call of `ke_quadrature_encoder_init`, and the levels of the pins at that time. -/
structure InitCall where
  pinA : ℕ
  pinB : ℕ
  gpioStatus : BitVec 64

/-- `k_quadrature_encoder_init`. -/
def kQuadratureEncoderInit (mgr : Mgr) (c : InitCall) : Option Mgr :=
  (encoderInitChecked mgr c.pinA c.pinB c.gpioStatus).map Prod.fst

/-- The levels of the two pins, as `process_intr_gpio_pin` takes them from `pinLvl`. -/
def Encoder.sampled (encoder : Encoder) (pinLvl : BitVec 64) : Sample :=
  (pinLvl &&& intBit encoder.pinA ≠ 0, pinLvl &&& intBit encoder.pinB ≠ 0)

/-- The bits of the two pins, as `encoder_init` takes them from `pinLvl`. -/
def Encoder.bits (encoder : Encoder) (pinLvl : BitVec 64) : Sample :=
  (pinLvl.getLsbD encoder.pinA, pinLvl.getLsbD encoder.pinB)

/-! ### The two ways to take a bit -/

/-- A word with one bit takes this bit of another one. -/
theorem and_ne_zero_of_bit (w : BitVec 64) {m : BitVec 64} {pin : ℕ}
    (hm : ∀ i < 64, m.getLsbD i = decide (i = pin)) :
  decide (w &&& m ≠ 0) = w.getLsbD pin
  := by
  cases hbit : w.getLsbD pin with
  | false =>
    have hzero : w &&& m = 0 := by
      apply BitVec.eq_of_getLsbD_eq
      intro i hi
      rw [BitVec.getLsbD_and, hm i hi]
      by_cases h : i = pin
      · simp [h, hbit]
      · simp [h]
    simp [hzero]
  | true =>
    have hpin : pin < 64 := BitVec.lt_of_getLsbD hbit
    have hne : w &&& m ≠ 0 := by
      intro hzero
      have hand := congrArg (BitVec.getLsbD · pin) hzero
      simp [hbit, hm pin hpin] at hand
    exact decide_eq_true hne

theorem and_shiftLeft_ne_zero (w : BitVec 64) {pin : ℕ} (hpin : pin < 64) :
  decide (w &&& 1#64 <<< pin ≠ 0) = w.getLsbD pin
  := by
  apply and_ne_zero_of_bit
  intro i hi
  rw [BitVec.getLsbD_shiftLeft, BitVec.getLsbD_one, Bool.eq_iff_iff]
  simp
  omega

/-- The `int` has the one bit, as long as that is not its sign. -/
theorem and_intBit_ne_zero (w : BitVec 64) {pin : ℕ} (hpin : pin < 31) :
  decide (w &&& intBit pin ≠ 0) = w.getLsbD pin
  := by
  apply and_ne_zero_of_bit
  intro i hi
  rw [intBit, Nat.mod_eq_of_lt (by omega), BitVec.getLsbD_signExtend, BitVec.msb_eq_getLsbD_last,
    BitVec.getLsbD_shiftLeft, BitVec.getLsbD_shiftLeft, BitVec.getLsbD_one, BitVec.getLsbD_one,
    Bool.eq_iff_iff]
  split_ifs
  · simp
    omega
  · simp
    omega

/-- Levels of which the `int` for `pin` takes another bit. -/
def otherLevels (pin : ℕ) : BitVec 64 :=
  if pin = 31 then 1#64 <<< 32
  else if pin = 63 then 1#64 <<< 31
  else 1#64 <<< pin

/-- From its sign on, the `int` does not have the one bit. -/
theorem and_intBit_otherLevels {pin : ℕ} (hpin : pin < 64) (hsign : 31 ≤ pin) :
  decide (otherLevels pin &&& intBit pin ≠ 0) ≠ (otherLevels pin).getLsbD pin
  := by
  have hall : ∀ pin : Fin 64, 31 ≤ pin.val →
      decide (otherLevels pin &&& intBit pin ≠ 0) ≠ (otherLevels pin).getLsbD pin := by
    decide +kernel
  exact hall ⟨pin, hpin⟩ hsign

/-! ### The table -/

theorem ullBit_of_lt {pin : ℕ} (hpin : pin < 64) :
  ullBit pin = some (1#64 <<< pin)
  := if_pos hpin

theorem setPinLookup_of_lt (pinLookup : ℕ → ℤ) {pin : ℕ} (hpin : pin < 64) (idx : ℤ) :
  setPinLookup pinLookup pin idx = some (Function.update pinLookup pin idx)
  := if_pos hpin

/-- With pins of the table nothing is out of range. -/
theorem encoderInitChecked_eq (mgr : Mgr) {pinA pinB : ℕ} (hA : pinA < 64) (hB : pinB < 64)
    (gpioStatus : BitVec 64) :
  encoderInitChecked mgr pinA pinB gpioStatus = some (encoderInit mgr pinA pinB gpioStatus.toNat)
  := by
  rw [encoderInitChecked, encoderInit]
  split_ifs
  · rfl
  · simp only [ullBit_of_lt hA, ullBit_of_lt hB, setPinLookup_of_lt _ hA, setPinLookup_of_lt _ hB,
      Option.bind_eq_bind, Option.bind_some, and_shiftLeft_ne_zero _ hA,
      and_shiftLeft_ne_zero _ hB]
    rfl

/-- With another pin something is. -/
theorem lt_of_encoderInitChecked {mgr : Mgr} {pinA pinB : ℕ} {gpioStatus : BitVec 64}
    (hroom : mgr.encoders.length < encoderMax)
    (h : encoderInitChecked mgr pinA pinB gpioStatus ≠ none) :
  pinA < 64 ∧ pinB < 64
  := by
  obtain ⟨r, hr⟩ := Option.ne_none_iff_exists'.mp h
  rw [encoderInitChecked, if_neg (Nat.not_le.mpr hroom)] at hr
  obtain ⟨bitA, hA, hr⟩ := Option.bind_eq_some_iff.mp hr
  obtain ⟨bitB, hB, -⟩ := Option.bind_eq_some_iff.mp hr
  exact ⟨(Option.ite_none_right_eq_some.mp hA).1, (Option.ite_none_right_eq_some.mp hB).1⟩

/-- What `process_intr_gpio_pin` passes on. -/
theorem processIntrGpioPin_eq {mgr : Mgr} {pin : ℕ} {encoder : Encoder}
    (h : getEncoderByPin mgr pin = some encoder) (pinLvl : BitVec 64) :
  processIntrGpioPin mgr pin pinLvl
    = mgr.update (mgr.pinLookup pin) (encoder.sampled pinLvl).1 (encoder.sampled pinLvl).2
  := by
  rw [processIntrGpioPin, h]
  rfl

/-- A pin is looked up to an encoder that has it, and `process_intr_gpio_pin` passes on the
levels of the two pins. -/
structure Agrees (mgr : Mgr) : Prop where
  lookup : ∀ pin < pinLookupLen, ∀ encoder, getEncoderByPin mgr pin = some encoder →
    encoder.pinA = pin ∨ encoder.pinB = pin
  levels : ∀ pin < pinLookupLen, ∀ encoder, getEncoderByPin mgr pin = some encoder →
    ∀ pinLvl, processIntrGpioPin mgr pin pinLvl
        = mgr.update (mgr.pinLookup pin) (encoder.sampled pinLvl).1 (encoder.sampled pinLvl).2
      ∧ encoder.sampled pinLvl = encoder.bits pinLvl

/-- What a call must do: nothing out of range; a new encoder starts with the levels of its
pins; and afterwards all agrees. -/
structure InitAgrees (mgr : Mgr) (c : InitCall) : Prop where
  defined : kQuadratureEncoderInit mgr c ≠ none
  initial : ∀ mgr' id, encoderInitChecked mgr c.pinA c.pinB c.gpioStatus = some (mgr', id) →
    id ≠ -1 → ∃ encoder, getEncoder mgr' id = some encoder ∧ encoder.pinA = c.pinA
      ∧ encoder.pinB = c.pinB ∧ encoder.last = encoder.bits c.gpioStatus
  agrees : ∀ mgr', kQuadratureEncoderInit mgr c = some mgr' → Agrees mgr'

/-- When there is room for an encoder, the bits of its pins are not the sign of an `int`. -/
def LowPins (mgr : Mgr) (c : InitCall) : Prop :=
  mgr.encoders.length < encoderMax → c.pinA < 31 ∧ c.pinB < 31

/-- A pin has no encoder, or one that has it, and all pins are low. -/
structure Registered (mgr : Mgr) : Prop where
  lookup : ∀ pin, mgr.pinLookup pin = -1 ∨ ∃ encoder,
    getEncoder mgr (mgr.pinLookup pin) = some encoder
      ∧ (encoder.pinA = pin ∨ encoder.pinB = pin)
  low : ∀ encoder ∈ mgr.encoders, encoder.pinA < 31 ∧ encoder.pinB < 31

section Registered

variable {mgr mgr' : Mgr} {c : InitCall}

theorem Registered.of_byPin (h : Registered mgr) {pin : ℕ} {encoder : Encoder}
    (hpin : getEncoderByPin mgr pin = some encoder) :
  (encoder.pinA = pin ∨ encoder.pinB = pin) ∧ encoder.pinA < 31 ∧ encoder.pinB < 31
  := by
  rw [getEncoderByPin] at hpin
  split_ifs at hpin with hnone
  obtain ⟨encoder', hget, hhas⟩ := (h.lookup pin).resolve_left hnone
  obtain rfl := Option.some.inj (hpin.symm.trans hget)
  use hhas
  apply h.low
  exact List.mem_of_getElem? (getEncoder_eq_some.mp hget).2

theorem Registered.agrees (h : Registered mgr) :
  Agrees mgr
  := by
  constructor
  · intro pin _ encoder hpin
    exact (h.of_byPin hpin).1
  · intro pin _ encoder hpin pinLvl
    obtain ⟨-, hA, hB⟩ := h.of_byPin hpin
    use processIntrGpioPin_eq hpin pinLvl
    rw [Encoder.sampled, Encoder.bits, and_intBit_ne_zero pinLvl hA, and_intBit_ne_zero pinLvl hB]

/-- The new encoder is the last one. -/
theorem getEncoder_new {pinA pinB gpioStatus : ℕ} (hroom : mgr.encoders.length < encoderMax) :
  getEncoder (encoderInit mgr pinA pinB gpioStatus).1 mgr.encoders.length = some
    { pinA := pinA, pinB := pinB, lastA := gpioStatus.testBit pinA
      lastB := gpioStatus.testBit pinB, stat := Stat.clear }
  := by
  have hinit : encoderInit mgr pinA pinB gpioStatus
      = ((encoderInit mgr pinA pinB gpioStatus).1, (mgr.encoders.length : ℤ)) := by
    rw [encoderInit, if_neg (Nat.not_le.mpr hroom)]
  apply encoderInit_spec hinit
  omega

/-- Its pins are looked up to it. -/
theorem pinLookup_new {pinA pinB gpioStatus : ℕ} (hroom : mgr.encoders.length < encoderMax) :
  (encoderInit mgr pinA pinB gpioStatus).1.pinLookup
    = Function.update (Function.update mgr.pinLookup pinA mgr.encoders.length) pinB
      mgr.encoders.length
  := by
  rw [encoderInit, if_neg (Nat.not_le.mpr hroom)]

theorem Registered.init (h : Registered mgr) {pinA pinB : ℕ} (gpioStatus : ℕ)
    (hlow : mgr.encoders.length < encoderMax → pinA < 31 ∧ pinB < 31) :
  Registered (encoderInit mgr pinA pinB gpioStatus).1
  := by
  by_cases hfull : encoderMax ≤ mgr.encoders.length
  · rw [encoderInit, if_pos hfull]
    exact h
  · have hroom := Nat.lt_of_not_le hfull
    obtain ⟨hA, hB⟩ := hlow hroom
    have hencoders : ∀ encoder ∈ (encoderInit mgr pinA pinB gpioStatus).1.encoders,
        encoder ∈ mgr.encoders ∨ encoder.pinA = pinA ∧ encoder.pinB = pinB := by
      intro encoder hmem
      rw [encoderInit, if_neg hfull] at hmem
      obtain hmem | hmem := List.mem_append.mp hmem
      · left
        exact hmem
      · right
        rw [List.mem_singleton.mp hmem]
        exact ⟨rfl, rfl⟩
    constructor
    · intro pin
      rw [pinLookup_new hroom]
      by_cases hpinB : pin = pinB
      · right
        rw [hpinB, Function.update_self]
        exact ⟨_, getEncoder_new hroom, .inr rfl⟩
      by_cases hpinA : pin = pinA
      · right
        rw [Function.update_of_ne hpinB, hpinA, Function.update_self]
        exact ⟨_, getEncoder_new hroom, .inl rfl⟩
      · rw [Function.update_of_ne hpinB, Function.update_of_ne hpinA]
        obtain hnone | ⟨encoder, hget, hhas⟩ := h.lookup pin
        · left
          exact hnone
        · right
          exact ⟨encoder, getEncoder_init hget pinA pinB gpioStatus, hhas⟩
    · intro encoder hmem
      obtain hmem | ⟨rfl, rfl⟩ := hencoders encoder hmem
      · exact h.low encoder hmem
      · exact ⟨hA, hB⟩

theorem registered_encoderMgrInit :
  Registered encoderMgrInit
  := by
  constructor
  · intro pin
    left
    rfl
  · nofun

/-- With low pins, a call is `encoder_init` without its checks. -/
theorem kQuadratureEncoderInit_eq (hlow : LowPins mgr c) :
  encoderInitChecked mgr c.pinA c.pinB c.gpioStatus
    = some (encoderInit mgr c.pinA c.pinB c.gpioStatus.toNat)
  := by
  by_cases hfull : encoderMax ≤ mgr.encoders.length
  · rw [encoderInitChecked, encoderInit, if_pos hfull, if_pos hfull]
  · obtain ⟨hA, hB⟩ := hlow (Nat.lt_of_not_le hfull)
    apply encoderInitChecked_eq
    · omega
    · omega

theorem Registered.step (h : Registered mgr) (hlow : LowPins mgr c)
    (hstep : kQuadratureEncoderInit mgr c = some mgr') :
  Registered mgr'
  := by
  rw [kQuadratureEncoderInit, kQuadratureEncoderInit_eq hlow] at hstep
  obtain rfl := Option.some.inj hstep
  exact h.init _ hlow

theorem Registered.initAgrees (h : Registered mgr) (hlow : LowPins mgr c) :
  InitAgrees mgr c
  := by
  constructor
  · rw [kQuadratureEncoderInit, kQuadratureEncoderInit_eq hlow]
    apply Option.some_ne_none
  · intro mgr' id hinit hid
    rw [kQuadratureEncoderInit_eq hlow] at hinit
    exact ⟨_, encoderInit_spec (Option.some.inj hinit) hid, rfl, rfl, rfl⟩
  · intro mgr' hstep
    exact (h.step hlow hstep).agrees

/-- The encoder that is made has its pins looked up, so their levels must agree. -/
theorem lowPins_of_initAgrees (h : InitAgrees mgr c) :
  LowPins mgr c
  := by
  intro hroom
  have hdefined : encoderInitChecked mgr c.pinA c.pinB c.gpioStatus ≠ none := by
    intro hnone
    apply h.defined
    rw [kQuadratureEncoderInit, hnone, Option.map_none]
  obtain ⟨hA, hB⟩ := lt_of_encoderInitChecked hroom hdefined
  have hstep : kQuadratureEncoderInit mgr c
      = some (encoderInit mgr c.pinA c.pinB c.gpioStatus.toNat).1 := by
    rw [kQuadratureEncoderInit, encoderInitChecked_eq mgr hA hB, Option.map_some]
  have hagrees := h.agrees _ hstep
  have hpin : getEncoderByPin (encoderInit mgr c.pinA c.pinB c.gpioStatus.toNat).1 c.pinB
      = getEncoder (encoderInit mgr c.pinA c.pinB c.gpioStatus.toNat).1 mgr.encoders.length := by
    rw [getEncoderByPin, pinLookup_new hroom, Function.update_self]
    apply if_neg
    omega
  rw [getEncoder_new hroom] at hpin
  have hlevels := fun pinLvl => (hagrees.levels c.pinB hB _ hpin pinLvl).2
  constructor
  · by_contra hsign
    have heq := congrArg Prod.fst (hlevels (otherLevels c.pinA))
    exact and_intBit_otherLevels hA (Nat.le_of_not_lt hsign) heq
  · by_contra hsign
    have heq := congrArg Prod.snd (hlevels (otherLevels c.pinB))
    exact and_intBit_otherLevels hB (Nat.le_of_not_lt hsign) heq

end Registered

/-- In a sequence of calls nothing is out of range, and the levels that are sampled are those
of the pins, exactly when each call that finds room is for pins less than 31. -/
theorem encoderInit_agrees_iff (calls : List InitCall) :
  Run.Meets kQuadratureEncoderInit InitAgrees encoderMgrInit calls
    ↔ Run.Meets kQuadratureEncoderInit LowPins encoderMgrInit calls
  := by
  apply Run.meets_iff (P := Registered) _ _ registered_encoderMgrInit
  · intro mgr c h
    exact ⟨lowPins_of_initAgrees, h.initAgrees⟩
  · intro mgr c mgr' h hagrees hstep
    exact h.step (lowPins_of_initAgrees hagrees) hstep

/-- An encoder at the pins 40 and 41: `process_intr_gpio_pin` takes the levels of the pins 8
and 9 for theirs. -/
theorem not_encoderInit_agrees_high :
  ¬ Run.Meets kQuadratureEncoderInit InitAgrees encoderMgrInit
    [{ pinA := 40, pinB := 41, gpioStatus := 0 }]
  := by
  intro h
  have hlow := lowPins_of_initAgrees h.1 (by decide)
  exact absurd hlow.1 (by decide)

end TrainsOs.Gpio
