import TrainsOs.Gpio.Encoder

/-!
# GPIO events

The handler of the interrupt of a bank of pins. The two registers `GPEDS` hold the pins at
which an edge was seen. The hardware sets a bit at any time, and a bit is cleared where 1 is
written to it.
-/

namespace TrainsOs.Gpio

/-- The registers `GPEDS[0]` and `GPEDS[1]`, or edges that they latch. -/
structure Gpeds where
  reg0 : BitVec 32
  reg1 : BitVec 32
deriving DecidableEq

namespace Gpeds

/-- No edge. -/
def none : Gpeds where
  reg0 := 0
  reg1 := 0

/-- The edges are latched. -/
def latch (g edges : Gpeds) : Gpeds where
  reg0 := g.reg0 ||| edges.reg0
  reg1 := g.reg1 ||| edges.reg1

/-- The event of a pin. -/
def bit (g : Gpeds) (pin : ℕ) : Bool :=
  if pin < 32 then g.reg0.getLsbD pin else g.reg1.getLsbD (pin - 32)

end Gpeds

/-- The edges that arrive between one access to the registers and the next, in the order of
the handler: between the two reads of `gpio_get_triggered`, up to the read of `GPEDS[0]` in
`gpio_clear_triggered`, up to its write, up to the read of `GPEDS[1]`, up to its write. -/
structure Edges where
  reads : Gpeds
  loop : Gpeds
  low : Gpeds
  between : Gpeds
  high : Gpeds

/-- `gpio_get_triggered`, and the registers afterwards. -/
def gpioGetTriggered (g reads : Gpeds) : Gpeds × BitVec 64 :=
  let reg1 := g.reg1
  let g := g.latch reads
  (g, reg1.setWidth 64 <<< 32 ||| g.reg0.setWidth 64)

/-- The mask of the pins of a range. -/
def pinMask (startPin endPin : ℕ) : BitVec 64 :=
  (1#64 <<< endPin) - (1#64 <<< startPin)

/-- `gpio_clear_triggered`: the registers afterwards, and the events that were cleared. -/
def gpioClearTriggered (g : Gpeds) (startPin endPin : ℕ) (low between high : Gpeds) :
    Gpeds × Gpeds :=
  let reg := pinMask startPin endPin
  -- the logical and of two numbers
  let word0 := g.reg0 ||| if reg ≠ 0 ∧ (0xffffffff : ℕ) ≠ 0 then 1#32 else 0#32
  let g := g.latch low
  let cleared0 := g.reg0 &&& word0
  let g := { g with reg0 := g.reg0 &&& ~~~word0 }
  let g := g.latch between
  let word1 := g.reg1 ||| (reg >>> 32).setWidth 32
  let g := g.latch high
  let cleared1 := g.reg1 &&& word1
  let g := { g with reg1 := g.reg1 &&& ~~~word1 }
  (g, { reg0 := cleared0, reg1 := cleared1 })

/-- The `int` `1 << pin`, converted to 64 bits. The machine shifts by `pin` modulo 32. -/
def intBit (pin : ℕ) : BitVec 64 :=
  (1#32 <<< (pin % 32)).signExtend 64

/-- `process_intr_gpio_pin`, when `gpio_read` returns `pinLvl`. -/
def processIntrGpioPin (mgr : Mgr) (pin : ℕ) (pinLvl : BitVec 64) : Mgr :=
  match getEncoderByPin mgr pin with
  | .none => mgr
  | some encoder =>
      let aState := pinLvl &&& intBit encoder.pinA ≠ 0
      let bState := pinLvl &&& intBit encoder.pinB ≠ 0
      mgr.update (mgr.pinLookup pin) aState bState

/-- What the handler of a bank has done. -/
structure Handled where
  mgr : Mgr
  gpeds : Gpeds
  triggered : BitVec 64
  /-- The pins for which `process_intr_gpio_pin` was called. -/
  passed : List ℕ
  cleared : Gpeds

/-- `gpio_banks`. -/
def gpioBanks : List ℕ := [0, 28, 46, 58]

/-- The first pin of a bank, and the first pin after it. -/
def bankStart (bankId : Fin 3) : ℕ := gpioBanks[bankId.val]?.getD 0
def bankEnd (bankId : Fin 3) : ℕ := gpioBanks[bankId.val + 1]?.getD 0

/-- `process_intr_gpio_bank`, when `gpio_read` returns `levels pin` for a pin. -/
def processIntrGpioBank (mgr : Mgr) (g : Gpeds) (bankId : Fin 3) (levels : ℕ → BitVec 64)
    (x : Edges) : Handled :=
  let startPin := bankStart bankId
  let endPin := bankEnd bankId
  let (g, triggered) := gpioGetTriggered g x.reads
  let passed := (List.range' startPin (endPin - startPin)).filter fun pin =>
    triggered &&& intBit pin ≠ 0
  let mgr := passed.foldl (fun mgr pin => processIntrGpioPin mgr pin (levels pin)) mgr
  let (g, cleared) := gpioClearTriggered (g.latch x.loop) startPin endPin x.low x.between x.high
  { mgr := mgr, gpeds := g, triggered := triggered, passed := passed, cleared := cleared }

/-! ### Bits -/

theorem bit_latch (g edges : Gpeds) (pin : ℕ) :
  (g.latch edges).bit pin = (g.bit pin || edges.bit pin)
  := by
  rw [Gpeds.bit, Gpeds.bit, Gpeds.bit, Gpeds.latch]
  split_ifs
  · exact BitVec.getLsbD_or
  · exact BitVec.getLsbD_or

theorem bit_none (pin : ℕ) :
  Gpeds.none.bit pin = false
  := by
  rw [Gpeds.bit, Gpeds.none]
  simp

theorem bit_of_le (g : Gpeds) {pin : ℕ} (h : 64 ≤ pin) :
  g.bit pin = false
  := by
  rw [Gpeds.bit, if_neg (by omega)]
  exact BitVec.getLsbD_of_ge _ _ (by omega)

/-- The mask has the bits of the range. -/
theorem getLsbD_pinMask {startPin endPin : ℕ} (hle : startPin ≤ endPin) (hlt : endPin < 64)
    (pin : ℕ) :
  (pinMask startPin endPin).getLsbD pin = decide (startPin ≤ pin ∧ pin < endPin)
  := by
  have hpow : 2 ^ startPin ≤ 2 ^ endPin := Nat.pow_le_pow_right (by omega) hle
  have hend : 2 ^ endPin < 2 ^ 64 := Nat.pow_lt_pow_right (by omega) hlt
  have hone : ∀ k, k < 64 → (1#64 <<< k).toNat = 2 ^ k := by
    intro k hk
    rw [BitVec.toNat_shiftLeft, BitVec.toNat_ofNat, Nat.shiftLeft_eq, Nat.one_mod_eq_one.mpr
      (by omega), Nat.one_mul]
    exact Nat.mod_eq_of_lt (Nat.pow_lt_pow_right (by omega) hk)
  have hsub : ∀ a b : ℕ, a ≤ b → b < 2 ^ 64 → (2 ^ 64 - a + b) % 2 ^ 64 = b - a := by
    intro a b ha hb
    omega
  have hnat : (pinMask startPin endPin).toNat = (2 ^ (endPin - startPin) - 1) * 2 ^ startPin := by
    rw [pinMask, BitVec.toNat_sub, hone _ hlt, hone _ (by omega), Nat.sub_mul, ← Nat.pow_add,
      Nat.sub_add_cancel hle, Nat.one_mul, hsub _ _ hpow hend]
  rw [← BitVec.testBit_toNat, hnat, Nat.testBit_mul_two_pow]
  rw [Nat.testBit_two_pow_sub_one]
  by_cases h1 : startPin ≤ pin
  · by_cases h2 : pin < endPin
    · simp [h1, h2]
      omega
    · simp [h1, h2]
      omega
  · simp [h1]

/-! ### What is cleared -/

variable {g low between high : Gpeds} {startPin endPin : ℕ}

/-- An event of `GPEDS[0]` is cleared when it is set when the register is read; one of pin 0
also when it is set when the register is written. -/
theorem cleared_low (hle : startPin < endPin) (hlt : endPin < 64) {pin : ℕ} (hpin : pin < 32) :
  (gpioClearTriggered g startPin endPin low between high).2.bit pin
    = (g.bit pin || (decide (pin = 0) && low.bit pin))
  := by
  have hmask : pinMask startPin endPin ≠ 0 := by
    intro h
    have hbit := getLsbD_pinMask (Nat.le_of_lt hle) hlt startPin
    rw [h] at hbit
    simp [hle] at hbit
  have hone : (1#32).getLsbD pin = decide (pin = 0) := by
    rw [BitVec.getLsbD_one]
    simp
  simp only [gpioClearTriggered, Gpeds.bit, Gpeds.latch, if_pos hpin, ne_eq, hmask,
    not_false_eq_true, true_and]
  rw [if_pos (by decide), BitVec.getLsbD_and, BitVec.getLsbD_or, BitVec.getLsbD_or, hone]
  cases g.reg0.getLsbD pin with
  | false => simp [Bool.and_comm]
  | true => simp

/-- An event of `GPEDS[1]` is cleared when it is set when the register is read; one of the
range also when it is set when the register is written. -/
theorem cleared_high (hle : startPin ≤ endPin) (hlt : endPin < 64) {pin : ℕ} (hpin : 32 ≤ pin) :
  (gpioClearTriggered g startPin endPin low between high).2.bit pin
    = (((g.latch low).latch between).bit pin ||
      (decide (startPin ≤ pin ∧ pin < endPin) && high.bit pin))
  := by
  by_cases h64 : pin < 64
  · have hmask : ((pinMask startPin endPin >>> 32).setWidth 32).getLsbD (pin - 32)
        = decide (startPin ≤ pin ∧ pin < endPin) := by
      rw [BitVec.getLsbD_setWidth, BitVec.getLsbD_ushiftRight, Nat.add_sub_cancel' hpin,
        getLsbD_pinMask hle hlt, decide_eq_true (by omega : pin - 32 < 32), Bool.true_and]
    have hnot : ¬ pin < 32 := by omega
    simp only [gpioClearTriggered, Gpeds.bit, Gpeds.latch, if_neg hnot, BitVec.getLsbD_and,
      BitVec.getLsbD_or, hmask]
    cases (g.reg1.getLsbD (pin - 32) || low.reg1.getLsbD (pin - 32) ||
        between.reg1.getLsbD (pin - 32)) with
    | false => simp [Bool.and_comm]
    | true => simp
  · rw [bit_of_le _ (by omega), bit_of_le _ (by omega), bit_of_le _ (by omega)]
    simp

/-- What is set at some time and never cleared is set at the end. -/
theorem final_of_not_cleared {pin : ℕ}
    (hset : (((g.latch low).latch between).latch high).bit pin = true)
    (hkept : (gpioClearTriggered g startPin endPin low between high).2.bit pin = false) :
  (gpioClearTriggered g startPin endPin low between high).1.bit pin = true
  := by
  have hbool : ∀ a w b h : Bool, (a || b || h) = true → (a && w) = false →
      ((a && !w) || b || h) = true := by
    decide
  by_cases hpin : pin < 32
  · simp only [gpioClearTriggered, Gpeds.bit, Gpeds.latch, if_pos hpin, BitVec.getLsbD_and,
      BitVec.getLsbD_or, BitVec.getLsbD_not, decide_eq_true hpin, Bool.true_and] at hset hkept ⊢
    exact hbool _ _ _ _ hset hkept
  · by_cases h64 : pin < 64
    · have hlt : pin - 32 < 32 := by omega
      simp only [gpioClearTriggered, Gpeds.bit, Gpeds.latch, if_neg hpin, BitVec.getLsbD_and,
        BitVec.getLsbD_or, BitVec.getLsbD_not, decide_eq_true hlt, Bool.true_and] at hset hkept ⊢
      rw [hset, Bool.true_and] at hkept ⊢
      rw [hkept]
      rfl
    · rw [bit_of_le _ (by omega)] at hset
      cases hset

/-! ### The handler of a bank -/

variable (mgr : Mgr) (g) (bankId : Fin 3) (levels : ℕ → BitVec 64) (x : Edges)

/-- The pin is one of the bank, and its event is in the value that was read. -/
def Mine (bankId : Fin 3) (triggered : BitVec 64) (pin : ℕ) : Prop :=
  (bankStart bankId ≤ pin ∧ pin < bankEnd bankId) ∧ triggered.getLsbD pin = true

/-- No event is lost: each one that is cleared was handled, and is one of the bank that was
read; any other stays set; and those of the bank that were read are cleared. -/
structure KeepsEdges (g : Gpeds) (bankId : Fin 3) (x : Edges) (h : Handled) : Prop where
  handled : ∀ pin, h.cleared.bit pin = true → pin ∈ h.passed ∨ Mine bankId h.triggered pin
  stays : ∀ pin, (((((g.latch x.reads).latch x.loop).latch x.low).latch x.between).latch
      x.high).bit pin = true → ¬ Mine bankId h.triggered pin →
    h.cleared.bit pin = false ∧ h.gpeds.bit pin = true
  clears : ∀ pin, Mine bankId h.triggered pin → h.cleared.bit pin = true

/-- The events that are set when the handler clears the registers are those of the bank that
it read: those of `GPEDS[0]` when it reads that register, that of pin 0 when it writes it,
those of `GPEDS[1]` when it reads that register, and those of the bank when it writes it. -/
structure OnlyMine (g : Gpeds) (bankId : Fin 3) (x : Edges) (triggered : BitVec 64) :
    Prop where
  low : ∀ pin < 32, ((g.latch x.reads).latch x.loop).bit pin = true → Mine bankId triggered pin
  zero : x.low.bit 0 = true → Mine bankId triggered 0
  high : ∀ pin, 32 ≤ pin → ((((g.latch x.reads).latch x.loop).latch x.low).latch x.between).bit
    pin = true → Mine bankId triggered pin
  late : ∀ pin, 32 ≤ pin → bankStart bankId ≤ pin → pin < bankEnd bankId →
    x.high.bit pin = true → Mine bankId triggered pin

/-- The value that `gpio_get_triggered` returns. -/
theorem getLsbD_triggered (g reads : Gpeds) (pin : ℕ) :
  (gpioGetTriggered g reads).2.getLsbD pin
    = if pin < 32 then (g.latch reads).bit pin else g.bit pin
  := by
  rw [gpioGetTriggered, Gpeds.bit, Gpeds.bit]
  simp only [BitVec.getLsbD_or, BitVec.getLsbD_shiftLeft, BitVec.getLsbD_setWidth]
  by_cases hpin : pin < 32
  · rw [if_pos hpin, if_pos hpin, decide_eq_true hpin, decide_eq_true (by omega : pin < 64)]
    simp
  · rw [if_neg hpin, if_neg hpin, decide_eq_false hpin]
    rw [BitVec.getLsbD_of_ge (g.latch reads).reg0 _ (by omega)]
    by_cases h64 : pin < 64
    · rw [decide_eq_true h64, decide_eq_true (by omega : pin - 32 < 64)]
      simp
    · rw [decide_eq_false h64, BitVec.getLsbD_of_ge g.reg1 _ (by omega)]
      simp

theorem bank_lt (bankId : Fin 3) :
  bankStart bankId < bankEnd bankId ∧ bankEnd bankId < 64
  := by decide +revert

theorem mine_pending {pin : ℕ} (h : Mine bankId (gpioGetTriggered g x.reads).2 pin) :
  (g.latch x.reads).bit pin = true
  := by
  obtain ⟨-, hset⟩ := h
  rw [getLsbD_triggered] at hset
  split_ifs at hset
  · exact hset
  · rw [bit_latch, hset, Bool.true_or]

/-- The handler of a bank loses no event exactly when the events that are set when it clears
the registers are those of the bank that it read. -/
theorem keepsEdges_iff :
  KeepsEdges g bankId x (processIntrGpioBank mgr g bankId levels x) ↔
    OnlyMine g bankId x (gpioGetTriggered g x.reads).2
  := by
  obtain ⟨hlt, h64⟩ := bank_lt bankId
  have hmine : ∀ pin, Mine bankId (processIntrGpioBank mgr g bankId levels x).triggered pin ↔
      Mine bankId (gpioGetTriggered g x.reads).2 pin := fun pin => Iff.rfl
  have hcleared : ∀ pin, (processIntrGpioBank mgr g bankId levels x).cleared.bit pin
      = (gpioClearTriggered ((g.latch x.reads).latch x.loop) (bankStart bankId) (bankEnd bankId)
          x.low x.between x.high).2.bit pin := fun pin => rfl
  constructor
  · intro h
    have honly : ∀ pin, (processIntrGpioBank mgr g bankId levels x).cleared.bit pin = true →
        (((((g.latch x.reads).latch x.loop).latch x.low).latch x.between).latch
          x.high).bit pin = true → Mine bankId (gpioGetTriggered g x.reads).2 pin := by
      intro pin hclear hset
      by_contra hnot
      have hkept := (h.stays pin hset hnot).1
      rw [hclear] at hkept
      cases hkept
    constructor
    · intro pin hpin hset
      apply honly
      · rw [hcleared, cleared_low hlt h64 hpin, hset, Bool.true_or]
      · rw [bit_latch, bit_latch, bit_latch, hset]
        rfl
    · intro hset
      apply honly
      · rw [hcleared, cleared_low hlt h64 (by omega), hset]
        simp
      · rw [bit_latch, bit_latch, bit_latch, hset]
        simp
    · intro pin hpin hset
      apply honly
      · rw [hcleared, cleared_high (Nat.le_of_lt hlt) h64 hpin, hset, Bool.true_or]
      · rw [bit_latch, hset]
        rfl
    · intro pin hpin hstart hend hset
      apply honly
      · rw [hcleared, cleared_high (Nat.le_of_lt hlt) h64 hpin, hset,
          decide_eq_true ⟨hstart, hend⟩]
        simp
      · rw [bit_latch, hset, Bool.or_true]
  · intro h
    have honly : ∀ pin, (processIntrGpioBank mgr g bankId levels x).cleared.bit pin = true →
        Mine bankId (gpioGetTriggered g x.reads).2 pin := by
      intro pin hclear
      rw [hcleared] at hclear
      by_cases hpin : pin < 32
      · rw [cleared_low hlt h64 hpin, Bool.or_eq_true, Bool.and_eq_true] at hclear
        rcases hclear with hset | ⟨hzero, hset⟩
        · exact h.low pin hpin hset
        · obtain rfl := of_decide_eq_true hzero
          exact h.zero hset
      · rw [cleared_high (Nat.le_of_lt hlt) h64 (by omega), Bool.or_eq_true, Bool.and_eq_true]
          at hclear
        rcases hclear with hset | ⟨hrange, hset⟩
        · exact h.high pin (by omega) hset
        · obtain ⟨hstart, hend⟩ := of_decide_eq_true hrange
          exact h.late pin (by omega) hstart hend hset
    constructor
    · intro pin hclear
      exact Or.inr (honly pin hclear)
    · intro pin hset hnot
      have hkept : (processIntrGpioBank mgr g bankId levels x).cleared.bit pin = false := by
        cases hclear : (processIntrGpioBank mgr g bankId levels x).cleared.bit pin with
        | false => rfl
        | true => exact absurd (honly pin hclear) hnot
      exact ⟨hkept, final_of_not_cleared hset hkept⟩
    · intro pin hpin
      have hset := mine_pending g bankId x hpin
      rw [hcleared]
      by_cases hlow : pin < 32
      · rw [cleared_low hlt h64 hlow, bit_latch, hset]
        rfl
      · rw [cleared_high (Nat.le_of_lt hlt) h64 (by omega), bit_latch, bit_latch, bit_latch, hset]
        rfl

/-- Alone, `gpio_clear_triggered` clears exactly the events of the range exactly when no
other event is set. -/
theorem clear_exact_iff {startPin endPin : ℕ} (hlt : startPin < endPin) (h64 : endPin < 64) :
  (∀ pin, (gpioClearTriggered g startPin endPin .none .none .none).2.bit pin = true ↔
      (startPin ≤ pin ∧ pin < endPin) ∧ g.bit pin = true) ↔
    ∀ pin, g.bit pin = true → startPin ≤ pin ∧ pin < endPin
  := by
  have hcleared : ∀ pin,
      (gpioClearTriggered g startPin endPin .none .none .none).2.bit pin = g.bit pin := by
    intro pin
    by_cases hpin : pin < 32
    · rw [cleared_low hlt h64 hpin, bit_none, Bool.and_false, Bool.or_false]
    · rw [cleared_high (Nat.le_of_lt hlt) h64 (by omega), bit_latch, bit_latch, bit_none,
        Bool.and_false, Bool.or_false, Bool.or_false, Bool.or_false]
  constructor
  · intro h pin hset
    rw [← hcleared] at hset
    exact ((h pin).mp hset).1
  · intro h pin
    rw [hcleared]
    exact ⟨fun hset => ⟨h pin hset, hset⟩, And.right⟩

/-- For every register contents, every bank and all arrivals of edges, the handler of the
bank loses no event exactly when the events that are set when it clears the registers are
those of the bank that it read; and `gpio_clear_triggered` clears exactly the events of its
range exactly when no other event is set. -/
theorem gpio_edges (mgr : Mgr) (g : Gpeds) (levels : ℕ → BitVec 64) :
  (∀ bankId x, KeepsEdges g bankId x (processIntrGpioBank mgr g bankId levels x) ↔
    OnlyMine g bankId x (gpioGetTriggered g x.reads).2) ∧
  (∀ startPin endPin, startPin < endPin → endPin < 64 →
    ((∀ pin, (gpioClearTriggered g startPin endPin .none .none .none).2.bit pin = true ↔
        (startPin ≤ pin ∧ pin < endPin) ∧ g.bit pin = true) ↔
      ∀ pin, g.bit pin = true → startPin ≤ pin ∧ pin < endPin))
  := by
  constructor
  · intro bankId x
    apply keepsEdges_iff
  · intro startPin endPin hlt h64
    exact clear_exact_iff g hlt h64

/-- Edges at the pins 5 and 30, of the banks 0 and 1. -/
def twoPins : Gpeds where
  reg0 := 1#32 <<< 5 ||| 1#32 <<< 30
  reg1 := 0

/-- No further edge arrives. -/
def noEdges : Edges where
  reads := Gpeds.none
  loop := Gpeds.none
  low := Gpeds.none
  between := Gpeds.none
  high := Gpeds.none

/-- The handler of bank 0 clears the event of the pin 30, which it does not handle. -/
theorem gpio_edge_lost :
  let h := processIntrGpioBank encoderMgrInit twoPins 0 (fun _ => 0) noEdges
  h.cleared.bit 30 = true ∧ 30 ∉ h.passed ∧ h.gpeds.bit 30 = false ∧
    ¬ KeepsEdges twoPins 0 noEdges h
  := by
  intro h
  have hclear : h.cleared.bit 30 = true := by decide
  have hpassed : 30 ∉ h.passed := by decide
  refine ⟨hclear, hpassed, by decide, ?_⟩
  intro hkeeps
  rcases hkeeps.handled 30 hclear with hin | ⟨⟨-, hend⟩, -⟩
  · exact hpassed hin
  · exact absurd hend (by decide)

end TrainsOs.Gpio
