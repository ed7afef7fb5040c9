import TrainsOs.Lib.RingBuffer
import TrainsOs.Lib.Run

/-!
# The ring buffer macros

The macros of `ring_buffer.h`, with the fields of 64 bits that they compute with. The type
of the array says how many elements it has, and as an object of C it is smaller than `2 ^ 63`
bytes, so that none of the sums wraps around and the macros do what the operations of
`RingBuffer` do.

A run performs `RB_PUSH_PRE`, each time followed by a write through the slot that it returns
unless this is `NULL`, `RB_PEEK`, and, after a peek that did not return `NULL`, `RB_POP`.
The elements that have been pushed and not been popped are recorded together with their
slots. The macros implement a queue of bounded length: what they return is what one would
read off this record, and the recorded elements stay in their slots.
-/

namespace Ring

/-- `RB_TYPE(ELEM_T, CAP)`: the number of elements of the array, and the size of one. -/
structure RbType where
  cap : ℕ
  elemSize : ℕ
  cap_pos : 0 < cap
  elemSize_pos : 0 < elemSize
  fits : elemSize * cap < 2 ^ 63

/-- The fields of a ring buffer. -/
structure Rb (α : Type*) where
  head : UInt64
  size : UInt64
  capacity : UInt64
  array : ℕ → α

variable {α : Type*}

/-- `RB_INIT`, where the bytes of an element that are zero make `zero`. -/
def rbInit (t : RbType) (zero : α) : Rb α where
  capacity := UInt64.ofNat t.cap
  head := UInt64.ofNat t.cap - 1
  size := 0
  array _ := zero

/-- `RB_PUSH_PRE`: the ring, and the slot that `ELEM_PTR` points to, `none` being `NULL`. The
result is `none` when `ASSERT_MSG` fails or the remainder by zero is taken. -/
def rbPushPre (r : Rb α) : Option (Rb α × Option ℕ) :=
  if r.size ≥ r.capacity then
    some (r, none)
  else if r.capacity = 0 then
    none
  else
    let r := { r with head := (r.head + 1) % r.capacity }
    if r.size < r.capacity then
      some ({ r with size := r.size + 1 }, some r.head.toNat)
    else
      none

/-- The write through the slot; `none` is a write outside of the array. -/
def rbWrite (t : RbType) (r : Rb α) (slot : ℕ) (x : α) : Option (Rb α) :=
  if slot < t.cap then some { r with array := Function.update r.array slot x } else none

/-- `RB_PEEK`: the slot that `ELEM_PTR` points to, `none` being `NULL`. The result is `none`
when the remainder by zero is taken. -/
def rbPeek (r : Rb α) : Option (Option ℕ) :=
  if r.size = 0 then
    some none
  else if r.capacity = 0 then
    none
  else
    some (some ((r.head + r.capacity + 1 - r.size) % r.capacity).toNat)

/-- `RB_POP`. -/
def rbPop (r : Rb α) : Rb α :=
  { r with size := r.size - 1 }

/-! ### Runs -/

/-- A use of the macros. -/
inductive Call (α : Type*)
  | push (x : α)
  | peek
  | pop

/-- The ring, whether the last peek has returned a slot that has not been popped, and the
elements that have been pushed and not been popped, oldest first, with their slots. -/
structure State (α : Type*) where
  rb : Rb α
  peeked : Bool
  queue : List (ℕ × α)

/-- One use of the macros. -/
def step (t : RbType) (s : State α) : Call α → Option (State α)
  | .push x =>
    (rbPushPre s.rb).bind fun
      | (rb, none) => some { s with rb := rb }
      | (rb, some slot) =>
        (rbWrite t rb slot x).map fun rb => { s with rb := rb, queue := s.queue ++ [(slot, x)] }
  | .peek => (rbPeek s.rb).map fun slot => { s with peeked := slot.isSome }
  | .pop => some { rb := rbPop s.rb, peeked := false, queue := s.queue.tail }

/-- An element is popped only after it has been peeked. -/
def Allowed (s : State α) (call : Call α) : Prop :=
  match call with
  | .pop => s.peeked = true
  | _ => True

instance (s : State α) (call : Call α) : Decidable (Allowed s call) :=
  match call with
  | .pop => inferInstanceAs (Decidable (s.peeked = true))
  | .push _ => isTrue trivial
  | .peek => isTrue trivial

/-- The state after `RB_INIT`. -/
def start (t : RbType) (zero : α) : State α where
  rb := rbInit t zero
  peeked := false
  queue := []

/-- What the macros return, in terms of the elements that are queued, and that these are in
their slots. -/
structure IsFifo (t : RbType) (s : State α) : Prop where
  size_eq : s.rb.size.toNat = s.queue.length
  stored : ∀ e ∈ s.queue, e.1 < t.cap ∧ s.rb.array e.1 = e.2
  peek_eq : rbPeek s.rb = some (s.queue.head?.map Prod.fst)
  push_full : s.queue.length = t.cap → rbPushPre s.rb = some (s.rb, none)
  push_room : s.queue.length ≠ t.cap →
    ∃ rb slot, rbPushPre s.rb = some (rb, some slot) ∧ slot < t.cap ∧ rb.array = s.rb.array
      ∧ ∀ e ∈ s.queue, e.1 ≠ slot

/-! ### The ring with numbers for its words -/

/-- The ring in which every element comes with its slot. -/
def Rb.toRing (r : Rb α) : RingBuffer (ℕ × α) where
  head := r.head.toNat
  size := r.size.toNat
  capacity := r.capacity.toNat
  array slot := (slot, r.array slot)

/-- What holds of every ring: the numbers are in range. -/
structure Rb.Wf (t : RbType) (r : Rb α) : Prop where
  capacity_eq : r.capacity.toNat = t.cap
  ring : r.toRing.Wf

variable {t : RbType} {r : Rb α} {s s' : State α} {slot : ℕ}

theorem RbType.cap_lt (t : RbType) :
  t.cap < 2 ^ 63
  := by
  apply Nat.lt_of_le_of_lt _ t.fits
  exact Nat.le_mul_of_pos_left t.cap t.elemSize_pos

theorem toNat_cap (t : RbType) :
  (UInt64.ofNat t.cap).toNat = t.cap
  := by
  have hlt := t.cap_lt
  rw [UInt64.toNat_ofNat']
  omega

theorem rbInit_wf (t : RbType) (zero : α) :
  (rbInit t zero).Wf t
  := by
  have hpos := t.cap_pos
  have hone : (1 : UInt64) ≤ UInt64.ofNat t.cap := by
    rw [UInt64.le_iff_toNat_le, toNat_cap]
    exact hpos
  have hhead : (UInt64.ofNat t.cap - 1).toNat = t.cap - 1 := by
    rw [UInt64.toNat_sub_of_le _ _ hone, toNat_cap]
    rfl
  constructor
  · apply toNat_cap
  · constructor
    · change (UInt64.ofNat t.cap - 1).toNat < (UInt64.ofNat t.cap).toNat
      rw [hhead, toNat_cap]
      exact Nat.sub_lt hpos Nat.one_pos
    · apply Nat.zero_le

/-- The capacity is not zero, and small enough for the sums. -/
theorem Rb.Wf.capacity_bounds (h : r.Wf t) :
  0 < r.capacity.toNat ∧ r.capacity.toNat < 2 ^ 63
  := by
  rw [h.capacity_eq]
  exact ⟨t.cap_pos, t.cap_lt⟩

theorem Rb.Wf.capacity_ne_zero (h : r.Wf t) :
  r.capacity ≠ 0
  := by
  intro hzero
  have hpos := h.capacity_bounds.1
  rw [hzero] at hpos
  exact Nat.lt_irrefl 0 hpos

/-- Advancing the head does not wrap around at 64 bits. -/
theorem Rb.Wf.toNat_advance (h : r.Wf t) :
  ((r.head + 1) % r.capacity).toNat = (r.head.toNat + 1) % r.capacity.toNat
  := by
  have hcap := h.capacity_bounds.2
  have hhead : r.head.toNat < r.capacity.toNat := h.ring.head_lt
  have hone : (1 : UInt64).toNat = 1 := rfl
  rw [UInt64.toNat_mod, UInt64.toNat_add, hone,
    Nat.mod_eq_of_lt (show r.head.toNat + 1 < 2 ^ 64 by omega)]

/-- Neither do the sum and the difference that find the oldest element. -/
theorem Rb.Wf.toNat_oldest (h : r.Wf t) :
  ((r.head + r.capacity + 1 - r.size) % r.capacity).toNat
    = (r.head.toNat + r.capacity.toNat + 1 - r.size.toNat) % r.capacity.toNat
  := by
  have hcap := h.capacity_bounds.2
  have hhead : r.head.toNat < r.capacity.toNat := h.ring.head_lt
  have hsize : r.size.toNat ≤ r.capacity.toNat := h.ring.size_le
  have hone : (1 : UInt64).toNat = 1 := rfl
  have hsum : (r.head + r.capacity + 1).toNat = r.head.toNat + r.capacity.toNat + 1 := by
    rw [UInt64.toNat_add, UInt64.toNat_add, hone]
    omega
  have hle : r.size ≤ r.head + r.capacity + 1 := by
    rw [UInt64.le_iff_toNat_le, hsum]
    omega
  rw [UInt64.toNat_mod, UInt64.toNat_sub_of_le _ _ hle, hsum]

/-- `RB_PEEK` is the peek of the ring of numbers. -/
theorem Rb.Wf.peek_eq (h : r.Wf t) :
  rbPeek r = some r.toRing.peek
  := by
  have hsize : r.size = 0 ↔ r.toRing.size = 0 := by
    rw [← UInt64.toNat_inj]
    rfl
  rw [rbPeek, RingBuffer.peek]
  by_cases hzero : r.size = 0
  · rw [if_pos hzero, if_pos (hsize.mp hzero)]
  · rw [if_neg hzero, if_neg (mt hsize.mpr hzero), if_neg h.capacity_ne_zero, h.toNat_oldest]
    rfl

/-- A full ring is left alone. -/
theorem pushPre_of_full (h : r.toRing.capacity ≤ r.toRing.size) :
  rbPushPre r = some (r, none)
  := by
  have hge : r.size ≥ r.capacity := UInt64.le_iff_toNat_le.mpr h
  rw [rbPushPre, if_pos hge]

/-- The ring after a slot has been reserved. -/
def Rb.reserved (r : Rb α) : Rb α :=
  { r with head := (r.head + 1) % r.capacity, size := r.size + 1 }

/-- In a ring with room the slot after the youngest element is reserved. -/
theorem Rb.Wf.pushPre_of_room (h : r.Wf t) (hroom : r.toRing.size < r.toRing.capacity) :
  rbPushPre r = some (r.reserved, some (r.toRing.slotOf r.toRing.size))
  := by
  have hlt : r.size < r.capacity := UInt64.lt_iff_toNat_lt.mpr hroom
  rw [rbPushPre, if_neg (UInt64.not_le.mpr hlt), if_neg h.capacity_ne_zero]
  dsimp only
  rw [if_pos hlt, h.toNat_advance, RingBuffer.slotOf_size hroom.le]
  rfl

/-- Reserving a slot is what the ring of numbers does. -/
theorem Rb.Wf.toRing_reserved (h : r.Wf t) (hroom : r.toRing.size < r.toRing.capacity) :
  r.toRing.pushPre = some (r.reserved.toRing, r.toRing.slotOf r.toRing.size)
  := by
  have hcap := h.capacity_bounds.2
  have hsize : (r.size + 1).toNat = r.size.toNat + 1 := by
    have hone : (1 : UInt64).toNat = 1 := rfl
    have hlt : r.size.toNat < r.capacity.toNat := hroom
    rw [UInt64.toNat_add, hone]
    omega
  have hreserved : r.reserved.toRing =
      { r.toRing with
        head := (r.toRing.head + 1) % r.toRing.capacity
        size := r.toRing.size + 1 } := by
    rw [Rb.reserved, Rb.toRing]
    dsimp only
    rw [h.toNat_advance, hsize]
    rfl
  rw [RingBuffer.pushPre, if_neg (not_le.mpr hroom), RingBuffer.slotOf_size hroom.le, hreserved]

theorem toRing_pop (hsize : r.size ≠ 0) :
  (rbPop r).toRing = r.toRing.pop
  := by
  have hone : (1 : UInt64) ≤ r.size := by
    rw [UInt64.le_iff_toNat_le]
    apply Nat.pos_of_ne_zero
    rwa [← UInt64.toNat_zero, Ne, UInt64.toNat_inj]
  rw [rbPop, Rb.toRing, UInt64.toNat_sub_of_le _ _ hone]
  rfl

theorem toRing_write (r : Rb α) (slot : ℕ) (x : α) :
  Rb.toRing { r with array := Function.update r.array slot x } = r.toRing.store slot (slot, x)
  := by
  rw [RingBuffer.store, Rb.toRing, Rb.toRing]
  congr 1
  funext i
  dsimp only
  by_cases hi : i = slot
  · rw [hi, Function.update_self, Function.update_self]
  · rw [Function.update_of_ne hi, Function.update_of_ne hi]

/-! ### The invariant of a run -/

/-- The record of the queued elements is the content of the ring. -/
structure Inv (t : RbType) (s : State α) : Prop where
  wf : s.rb.Wf t
  queue_eq : s.queue = s.rb.toRing.toList
  peeked : s.peeked = true → s.rb.size ≠ 0

theorem inv_start (t : RbType) (zero : α) :
  Inv t (start t zero)
  := by
  constructor
  · apply rbInit_wf
  · rfl
  · exact nofun

theorem slotOf_lt (h : r.Wf t) (i : ℕ) :
  r.toRing.slotOf i < t.cap
  := by
  rw [← h.capacity_eq]
  exact Nat.mod_lt _ h.capacity_bounds.1

theorem Inv.push (h : Inv t s) (x : α) :
  ∃ s', step t s (.push x) = some s' ∧ Inv t s'
  := by
  rw [step]
  rcases Nat.lt_or_ge s.rb.toRing.size s.rb.toRing.capacity with hroom | hfull
  · obtain ⟨r', slot, hpush, hwf, hcap, hlist⟩ :=
      RingBuffer.push_spec h.wf.ring hroom (s.rb.toRing.slotOf s.rb.toRing.size, x)
    rw [h.wf.toRing_reserved hroom, Option.some.injEq, Prod.mk.injEq] at hpush
    obtain ⟨rfl, rfl⟩ := hpush
    rw [← toRing_write] at hwf hcap hlist
    rw [h.wf.pushPre_of_room hroom]
    dsimp only [Option.bind_some]
    rw [rbWrite, if_pos (slotOf_lt h.wf _)]
    refine ⟨_, rfl, ⟨h.wf.capacity_eq, hwf⟩, ?_, ?_⟩
    · rw [hlist, h.queue_eq]
    · intro _ hzero
      have hsize := congrArg List.length hlist
      rw [RingBuffer.length_toList, List.length_append] at hsize
      change s.rb.reserved.size.toNat = _ at hsize
      rw [show s.rb.reserved.size = 0 from hzero] at hsize
      cases hsize
  · rw [pushPre_of_full hfull]
    use s
    constructor
    · rfl
    · exact h

theorem Inv.peek (h : Inv t s) :
  ∃ s', step t s .peek = some s' ∧ Inv t s'
  := by
  rw [step, h.wf.peek_eq]
  refine ⟨_, rfl, h.wf, h.queue_eq, ?_⟩
  intro hpeeked hzero
  have hnone : s.rb.toRing.peek = none := by
    rw [RingBuffer.peek_eq_none_iff, Rb.toRing, hzero]
    rfl
  rw [hnone] at hpeeked
  cases hpeeked

theorem Inv.pop (h : Inv t s) (hpeeked : s.peeked = true) :
  ∃ s', step t s .pop = some s' ∧ Inv t s'
  := by
  have hsize := h.peeked hpeeked
  have hne : s.rb.toRing.peek ≠ none := by
    rw [Ne, RingBuffer.peek_eq_none_iff]
    change s.rb.size.toNat ≠ 0
    rwa [← UInt64.toNat_zero, Ne, UInt64.toNat_inj]
  obtain ⟨slot, hslot⟩ := Option.ne_none_iff_exists'.mp hne
  obtain ⟨hwf, -, hlist⟩ := RingBuffer.pop_spec h.wf.ring hslot
  rw [← toRing_pop hsize] at hwf hlist
  refine ⟨_, rfl, ⟨h.wf.capacity_eq, hwf⟩, ?_, nofun⟩
  dsimp only
  rw [h.queue_eq, hlist, List.tail_cons]

/-- Every use of the macros keeps the invariant, and none fails. -/
theorem Inv.step (h : Inv t s) {call : Call α} (hok : Allowed s call) :
  ∃ s', step t s call = some s' ∧ Inv t s'
  := by
  cases call with
  | push x => exact h.push x
  | peek => exact h.peek
  | pop => exact h.pop hok

/-- With the invariant the macros answer like a queue. -/
theorem Inv.isFifo (h : Inv t s) :
  IsFifo t s
  := by
  have hlen : s.queue.length = s.rb.toRing.size := by
    rw [h.queue_eq, RingBuffer.length_toList]
  have hcap : s.rb.toRing.capacity = t.cap := h.wf.capacity_eq
  have hmem : ∀ e ∈ s.queue, ∃ i < s.rb.toRing.size,
      e = (s.rb.toRing.slotOf i, s.rb.array (s.rb.toRing.slotOf i)) := by
    intro e he
    rw [h.queue_eq] at he
    obtain ⟨i, hi, rfl⟩ := List.mem_map.mp he
    exact ⟨i, List.mem_range.mp hi, rfl⟩
  constructor
  · exact hlen.symm
  · intro e he
    obtain ⟨i, -, rfl⟩ := hmem e he
    exact ⟨slotOf_lt h.wf i, rfl⟩
  · rw [h.wf.peek_eq, h.queue_eq]
    cases hpeek : s.rb.toRing.peek with
    | none =>
      have hnil : s.rb.toRing.toList = [] := by
        rw [← List.length_eq_zero_iff, RingBuffer.length_toList]
        exact RingBuffer.peek_eq_none_iff.mp hpeek
      rw [hnil]
      rfl
    | some slot =>
      rw [(RingBuffer.pop_spec h.wf.ring hpeek).2.2]
      rfl
  · intro hfull
    apply pushPre_of_full
    rw [hcap, ← hfull, hlen]
  · intro hne
    have hroom : s.rb.toRing.size < s.rb.toRing.capacity := by
      have hle := h.wf.ring.size_le
      omega
    refine ⟨_, _, h.wf.pushPre_of_room hroom, slotOf_lt h.wf _, rfl, ?_⟩
    intro e he
    obtain ⟨i, hi, rfl⟩ := hmem e he
    exact RingBuffer.slotOf_ne hroom hi

/-- After every sequence of uses the ring buffer is a queue of bounded length. -/
theorem rb_refines_fifo (t : RbType) (zero : α) (calls : List (Call α))
    (h : Run.Meets (step t) Allowed (start t zero) calls) :
  ∃ s, Run.run (step t) (start t zero) calls = some s ∧ IsFifo t s
  := by
  obtain ⟨s, hrun, hinv⟩ :=
    Run.run_invariant (fun s call hinv hok => hinv.step hok) (inv_start t zero) h
  exact ⟨s, hrun, hinv.isFifo⟩

/-- An array of two numbers. -/
def pair : RbType where
  cap := 2
  elemSize := 4
  cap_pos := by decide
  elemSize_pos := by decide
  fits := by decide

/-- A run that fills the ring, pushes into the full ring, and goes around. -/
theorem rb_refines_fifo_around :
  ∃ s, Run.run (step pair) (start pair 0)
      [.push 5, .push 6, .push 7, .peek, .pop, .push 8, .peek] = some s ∧ IsFifo pair s
  := by
  apply rb_refines_fifo pair 0
  exact Run.meets_of_allOk (fun s call => of_decide_eq_true) (by decide)

end Ring
