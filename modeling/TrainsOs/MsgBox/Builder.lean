import TrainsOs.MsgBox.Encode
import TrainsOs.Lib.Run

/-!
# Building messages, call by call

A box is used for many messages: each `SendCtx::new` starts another one, whether or not it
has room for it, and `attach_array` is called on the context as long as there is one. The
length of the box is what `as_slice` takes of the buffer, and what `ker_send` and
`ker_reply` tell the kernel.
-/

namespace TrainsOs

namespace MsgBox

open Bytes Run

/-- `SendBox::new`. -/
def SendBox.new : SendBox where
  len := 0
  sendBuf := fun _ => 0

/-- `SendBox::as_slice`: `none` is a panic. -/
def SendBox.asSlice (N : ℕ) (box : SendBox) : Option (List UInt8) :=
  if box.len ≤ N then
    some (getBytes box.sendBuf 0 box.len)
  else
    none

/-- The buffer and its length, as `ker_send` and `ker_reply` hand them to the kernel. -/
structure SendArgs where
  sendBuf : ℕ → UInt8
  sendBufLen : ℕ

def kerSendArgs (box : SendBox) : SendArgs where
  sendBuf := box.sendBuf
  sendBufLen := box.len

/-! ### The box and its context -/

/-- A box, or the context that has borrowed it. -/
inductive Sender where
  | idle (box : SendBox)
  | building (c : SendCtx)

def Sender.box : Sender → SendBox
  | .idle box => box
  | .building c => c.box

/-- What is done with a box. Between the calls the program fills in the struct and the
arrays. -/
inductive Call where
  | new (ty : MsgType) (dflt : List UInt8)
  | attachArray (tsize alignSft cnt : ℕ)
  | write (pos : ℕ) (bs : List UInt8)

/-- A call on a box of `N` bytes: `none` is a panic. Without a context there is nothing to
attach to, and nothing to write to. -/
def Sender.step (m : Arith) (N : ℕ) (s : Sender) : Call → Option Sender
  | .new ty dflt =>
      match SendCtx.new s.box N ty dflt with
      | (box, none) => some (.idle box)
      | (_, some c) => some (.building c)
  | .attachArray tsize alignSft cnt =>
      match s with
      | .idle box => some (.idle box)
      | .building c => do
          match ← c.attachSized m tsize alignSft cnt with
          | none => some (.building c)
          | some (c, _) => some (.building c)
  | .write pos bs =>
      match s with
      | .idle box => some (.idle box)
      | .building c => some (.building (c.write pos bs))

/-- The builder has as much room as the box has after its length. -/
def Sender.Within (N : ℕ) : Sender → Prop
  | .idle box => box.len ≤ N
  | .building c => c.left + c.box.len ≤ N

theorem Sender.Within.len_le {N : ℕ} {s : Sender} (h : s.Within N) :
  s.box.len ≤ N
  := by
  cases s with
  | idle box => exact h
  | building c => exact le_trans (Nat.le_add_left _ _) h

/-- A message is started only in a box that has room for its name and its struct. -/
def Call.Fits (N : ℕ) : Call → Prop
  | .new ty _ => ty.base ≤ N
  | _ => True

theorem Arith.le_of_fit {m : Arith} {w n r : ℕ} (h : m.fit w n = some r) :
  r ≤ n
  := by
  unfold Arith.fit at h
  split at h
  · exact (Option.some.inj h).ge
  · cases m with
    | checked => cases h
    | wrapping =>
      obtain rfl := Option.some.inj h
      apply Nat.mod_le

/-- What a successful `attach_array` does: the padding and the bytes of the array are taken
off the buffer that is left, and `need`, which is at most their sum, is added to the length. -/
theorem SendCtx.attachSized_eq_some {m : Arith} {tsize alignSft cnt : ℕ} {c c' : SendCtx}
    {arr : Attached} (h : c.attachSized m tsize alignSft cnt = some (some (c', arr))) :
  ∃ bytes need, m.mul 64 cnt tsize = some bytes
    ∧ m.add 64 (alignUp c.box.len alignSft - c.box.len) bytes = some need
    ∧ need ≤ c.left
    ∧ alignUp c.box.len alignSft - c.box.len + bytes ≤ c.left
    ∧ c' =
      { box := { c.box with len := c.box.len + need }
        pos := c.pos + (alignUp c.box.len alignSft - c.box.len) + bytes
        left := c.left - (alignUp c.box.len alignSft - c.box.len) - bytes }
    ∧ arr =
      { idx := (c.box.len + need - bytes) % 2 ^ 32
        cnt := cnt % 2 ^ 32
        pos := c.pos + (alignUp c.box.len alignSft - c.box.len) }
  := by
  obtain ⟨bytes, hbytes, h⟩ := Option.bind_eq_some_iff.mp h
  obtain ⟨need, hneed, h⟩ := Option.bind_eq_some_iff.mp h
  split_ifs at h with hroom hpadding hsplit
  · cases h
  · simp only [Option.some.injEq, Prod.mk.injEq] at h
    obtain ⟨rfl, rfl⟩ := h
    use bytes, need, hbytes, hneed, Nat.le_of_not_lt hroom
    refine ⟨?_, rfl, rfl⟩
    omega

/-- Attaching an array takes at least as much off the room as it adds to the length. -/
theorem SendCtx.attachSized_within {m : Arith} {tsize alignSft cnt N : ℕ} {c c' : SendCtx}
    {arr : Attached} (hc : c.left + c.box.len ≤ N)
    (h : c.attachSized m tsize alignSft cnt = some (some (c', arr))) :
  c'.left + c'.box.len ≤ N
  := by
  obtain ⟨bytes, need, -, hneed, -, hsplit, rfl, -⟩ := attachSized_eq_some h
  have hle : need ≤ alignUp c.box.len alignSft - c.box.len + bytes := Arith.le_of_fit hneed
  dsimp only
  omega

theorem Sender.step_within {m : Arith} {N : ℕ} {s s' : Sender} {call : Call} (hs : s.Within N)
    (hfits : call.Fits N) (h : s.step m N call = some s') :
  s'.Within N
  := by
  cases call with
  | new ty dflt =>
    rw [step, SendCtx.new, if_neg (Nat.not_lt.mpr hfits)] at h
    obtain rfl := Option.some.inj h
    apply (Nat.sub_add_cancel hfits).le
  | attachArray tsize alignSft cnt =>
    cases s with
    | idle box =>
      obtain rfl := Option.some.inj h
      exact hs
    | building c =>
      obtain ⟨r, hr, h⟩ := Option.bind_eq_some_iff.mp h
      cases r with
      | none =>
        obtain rfl := Option.some.inj h
        exact hs
      | some r =>
        obtain rfl := Option.some.inj h
        apply SendCtx.attachSized_within hs hr
  | write pos bs =>
    cases s with
    | idle box =>
      obtain rfl := Option.some.inj h
      exact hs
    | building c =>
      obtain rfl := Option.some.inj h
      exact hs

/-! ### The length of the box -/

/-- What a call must leave behind: a length within the box, also for `as_slice` and for the
kernel, and after a `SendCtx::new` that fails the message that was there before. -/
structure Keeps (N : ℕ) (s : Sender) (call : Call) (s' : Sender) : Prop where
  len : s'.box.len ≤ N
  asSlice : s'.box.asSlice N ≠ none
  handed : (kerSendArgs s'.box).sendBufLen ≤ N
  failed : ∀ ty dflt, call = .new ty dflt → (SendCtx.new s.box N ty dflt).2 = none →
    s'.box = s.box

theorem Sender.keeps_of_fits {m : Arith} {N : ℕ} {s s' : Sender} {call : Call}
    (hs : s.Within N) (hfits : call.Fits N) (h : s.step m N call = some s') :
  Keeps N s call s'
  := by
  have hlen := (step_within hs hfits h).len_le
  constructor
  · exact hlen
  · rw [SendBox.asSlice, if_pos hlen]
    apply Option.some_ne_none
  · exact hlen
  · rintro ty dflt rfl hnone
    rw [SendCtx.new, if_neg (Nat.not_lt.mpr hfits)] at hnone
    cases hnone

/-- A call keeps all this exactly when it does not start a message that does not fit. -/
theorem Sender.keeps_iff {m : Arith} {N : ℕ} {s : Sender} {call : Call} (hs : s.Within N) :
  (∀ s', s.step m N call = some s' → Keeps N s call s') ↔ call.Fits N
  := by
  constructor
  · intro hkeeps
    cases call with
    | new ty dflt =>
      by_contra hfits
      -- the length is set before the room is checked
      have hnew : s.step m N (.new ty dflt) = some (.idle { s.box with len := ty.base }) := by
        rw [step, SendCtx.new, if_pos (Nat.lt_of_not_le hfits)]
      exact hfits (hkeeps _ hnew).len
    | attachArray tsize alignSft cnt => trivial
    | write pos bs => trivial
  · intro hfits s' h
    apply keeps_of_fits hs hfits h

/-- In a run of calls on a new box the length stays within the box, and failing calls leave
the message as it is, exactly when every message that is started fits into the box. -/
theorem sendBox_keeps_iff (m : Arith) (N : ℕ) (calls : List Call) :
  Meets (Sender.step m N)
      (fun s call => ∀ s', s.step m N call = some s' → Keeps N s call s')
      (.idle SendBox.new) calls
    ↔ Meets (Sender.step m N) (fun _ call => call.Fits N) (.idle SendBox.new) calls
  := by
  apply meets_iff (P := Sender.Within N) (fun s call hs => Sender.keeps_iff hs)
  · intro s call s' hs hkeeps h
    apply Sender.step_within hs ((Sender.keeps_iff hs).mp hkeeps) h
  · exact Nat.zero_le N

/-- A message that does not fit into a box of 1024 bytes. -/
def bigMsg : MsgType where
  typeName := "Big".toUTF8.data.toList
  size := 1024
  fields := []
  field_le := by simp
  apart := List.Pairwise.nil

/-- The failing `SendCtx::new` leaves a box of 1024 bytes with a length of 1032. -/
theorem not_sendBox_keeps_bigMsg :
  ¬ Meets (Sender.step .checked 1024)
      (fun s call => ∀ s', s.step .checked 1024 call = some s' → Keeps 1024 s call s')
      (.idle SendBox.new) [.new bigMsg []]
  := by
  intro h
  have hnew : Sender.step .checked 1024 (.idle SendBox.new) (.new bigMsg [])
      = some (.idle { SendBox.new with len := 1032 }) := by
    have hbase : bigMsg.base = 1032 := rfl
    have hroom : 1024 < bigMsg.base := by omega
    rw [Sender.step, SendCtx.new, if_pos hroom, hbase, Sender.box]
  have hlen : 1032 ≤ 1024 := (h.1 _ hnew).len
  exact absurd hlen (by decide)

/-! ### The arrays of a message -/

/-- A call of `attach_array` for an element type of at least one byte, which is aligned to at
most 8. -/
structure AttachCall where
  tsize : ℕ
  alignSft : ℕ
  cnt : ℕ
  tsize_pos : 1 ≤ tsize
  align_le : alignSft ≤ 3

/-- The padding in front of the array. -/
def AttachCall.paddingLen (a : AttachCall) (c : SendCtx) : ℕ :=
  alignUp c.box.len a.alignSft - c.box.len

/-- The context, and the slices it has returned: where they are, and of how many bytes. -/
structure Arrays where
  ctx : SendCtx
  slices : List (ℕ × ℕ)

/-- A call of `attach_array`: `none` is a panic. -/
def Arrays.step (m : Arith) (s : Arrays) (a : AttachCall) : Option Arrays := do
  match ← s.ctx.attachSized m a.tsize a.alignSft a.cnt with
  | none => some s
  | some (c, arr) => some { ctx := c, slices := s.slices ++ [(arr.pos, a.cnt * a.tsize)] }

/-- The slice `arr` of `a.cnt` elements is where it may be, in a box of `N` bytes at the
address `addr` whose struct ends at `base`, and its record in the message says so. -/
structure Geometry (N addr base : ℕ) (s : Arrays) (a : AttachCall) (c : SendCtx)
    (arr : Attached) : Prop where
  aligned : 2 ^ a.alignSft ∣ addr + arr.pos
  after_struct : base ≤ arr.pos
  in_box : arr.pos + a.cnt * a.tsize ≤ N
  apart : ∀ b ∈ s.slices, b.1 + b.2 ≤ arr.pos ∨ arr.pos + a.cnt * a.tsize ≤ b.1
  idx : addr + arr.pos = addr + arr.idx
  cnt : arr.cnt = a.cnt
  room : c.box.len + c.left = N

/-- What a call must do: return `None` and change nothing, or return a slice that is where it
may be. -/
def Arrays.Sound (N addr base : ℕ) (s : Arrays) (a : AttachCall) : Prop :=
  s.ctx.attachSized .wrapping a.tsize a.alignSft a.cnt = some none
      ∧ s.step .wrapping a = some s
    ∨ ∃ c arr, s.ctx.attachSized .wrapping a.tsize a.alignSft a.cnt = some (some (c, arr))
      ∧ Geometry N addr base s a c arr

/-- The sum `padding_len + cnt * tsize` does not wrap, or what it wraps to is still more than
there is left. -/
def Arrays.NoWrap (s : Arrays) (a : AttachCall) : Prop :=
  a.paddingLen s.ctx + a.cnt * a.tsize < 2 ^ 64
    ∨ s.ctx.left < (a.paddingLen s.ctx + a.cnt * a.tsize) % 2 ^ 64

instance (s : Arrays) (a : AttachCall) : Decidable (s.NoWrap a) :=
  inferInstanceAs (Decidable (_ ∨ _))

/-- The slices are in the box, after the struct and before the bytes that are left. -/
structure Arrays.Inv (N base : ℕ) (s : Arrays) : Prop where
  tight : s.ctx.Tight N
  base_le : base ≤ s.ctx.box.len
  slices : ∀ b ∈ s.slices, b.1 + b.2 ≤ s.ctx.box.len

theorem Arith.wrapping_fit (w n : ℕ) :
  Arith.wrapping.fit w n = some (n % 2 ^ w)
  := by
  unfold Arith.fit
  split_ifs with h
  · rw [Nat.mod_eq_of_lt h]
  · rfl

/-- `attach_array` in a release build. -/
theorem AttachCall.attachSized_wrapping (a : AttachCall) (c : SendCtx) :
  c.attachSized .wrapping a.tsize a.alignSft a.cnt
    = if c.left < (a.paddingLen c + a.cnt * a.tsize) % 2 ^ 64 then
        some none
      else if c.left < a.paddingLen c then
        none
      else if c.left - a.paddingLen c < a.cnt * a.tsize % 2 ^ 64 then
        none
      else
        some (some
          ({ box :=
              { c.box with len := c.box.len + (a.paddingLen c + a.cnt * a.tsize) % 2 ^ 64 }
             pos := c.pos + a.paddingLen c + a.cnt * a.tsize % 2 ^ 64
             left := c.left - a.paddingLen c - a.cnt * a.tsize % 2 ^ 64 },
           { idx := (c.box.len + (a.paddingLen c + a.cnt * a.tsize) % 2 ^ 64
                - a.cnt * a.tsize % 2 ^ 64) % 2 ^ 32
             cnt := a.cnt % 2 ^ 32
             pos := c.pos + a.paddingLen c }))
  := by
  rw [SendCtx.attachSized, Arith.mul, Arith.wrapping_fit]
  simp only [Option.bind_eq_bind, Option.bind_some]
  rw [Arith.add, Arith.wrapping_fit, Nat.add_mod_mod]
  rfl

/-- Without wrapping, the array is attached at the next multiple of the alignment. -/
theorem AttachCall.attachSized_eq (a : AttachCall) {c : SendCtx} {N : ℕ} (hN : N < 2 ^ 31)
    (hc : c.Tight N) (hroom : a.paddingLen c + a.cnt * a.tsize ≤ c.left) :
  c.attachSized .wrapping a.tsize a.alignSft a.cnt
    = some (some
      ({ box :=
          { c.box with len := alignUp c.box.len a.alignSft + a.cnt * a.tsize }
         pos := alignUp c.box.len a.alignSft + a.cnt * a.tsize
         left := N - (alignUp c.box.len a.alignSft + a.cnt * a.tsize) },
       { idx := alignUp c.box.len a.alignSft
         cnt := a.cnt
         pos := alignUp c.box.len a.alignSft }))
  := by
  have hle := le_alignUp c.box.len a.alignSft
  have hpos := hc.pos
  have hleft := hc.left
  have hcnt : a.cnt ≤ a.cnt * a.tsize := Nat.le_mul_of_pos_right _ a.tsize_pos
  have hpad : c.box.len + a.paddingLen c = alignUp c.box.len a.alignSft :=
    Nat.add_sub_cancel' hle
  have hsum : (a.paddingLen c + a.cnt * a.tsize) % 2 ^ 64 = a.paddingLen c + a.cnt * a.tsize :=
    Nat.mod_eq_of_lt (by omega)
  have hbytes : a.cnt * a.tsize % 2 ^ 64 = a.cnt * a.tsize := Nat.mod_eq_of_lt (by omega)
  rw [attachSized_wrapping, hsum, hbytes, if_neg (by omega), if_neg (by omega),
    if_neg (by omega), hpos, hpad, ← Nat.add_assoc, hpad, Nat.add_sub_cancel,
    Nat.mod_eq_of_lt (a := a.cnt) (by omega),
    Nat.mod_eq_of_lt (a := alignUp c.box.len a.alignSft) (by omega)]
  have hrest : c.left - a.paddingLen c - a.cnt * a.tsize
      = N - (alignUp c.box.len a.alignSft + a.cnt * a.tsize) := by omega
  rw [hrest]

theorem AttachCall.attachSized_eq_none (a : AttachCall) {c : SendCtx}
    (h : c.left < (a.paddingLen c + a.cnt * a.tsize) % 2 ^ 64) :
  c.attachSized .wrapping a.tsize a.alignSft a.cnt = some none
  := by
  rw [attachSized_wrapping, if_pos h]

section Attach

variable {N addr base : ℕ} {s s' : Arrays} {a : AttachCall}

theorem Arrays.NoWrap.lt_of_not_room (ha : s.NoWrap a)
    (hroom : ¬ a.paddingLen s.ctx + a.cnt * a.tsize ≤ s.ctx.left) :
  s.ctx.left < (a.paddingLen s.ctx + a.cnt * a.tsize) % 2 ^ 64
  := by
  obtain hlt | hlt := ha
  · rw [Nat.mod_eq_of_lt hlt]
    apply Nat.lt_of_not_le hroom
  · exact hlt

theorem Arrays.Inv.step (hN : N < 2 ^ 31) (hs : s.Inv N base) (ha : s.NoWrap a)
    (h : s.step .wrapping a = some s') :
  s'.Inv N base
  := by
  have hle := le_alignUp s.ctx.box.len a.alignSft
  have hleft := hs.tight.left
  obtain ⟨r, hr, h⟩ := Option.bind_eq_some_iff.mp h
  by_cases hroom : a.paddingLen s.ctx + a.cnt * a.tsize ≤ s.ctx.left
  · rw [a.attachSized_eq hN hs.tight hroom] at hr
    obtain rfl := Option.some.inj hr
    obtain rfl := Option.some.inj h
    have hbase := hs.base_le
    rw [AttachCall.paddingLen] at hroom
    refine ⟨⟨rfl, ?_⟩, ?_, ?_⟩
    · apply Nat.sub_add_cancel
      omega
    · apply le_trans hbase
      dsimp only
      omega
    · intro b hb
      dsimp only
      obtain hb | hb := List.mem_append.mp hb
      · have hold := hs.slices b hb
        omega
      · rw [List.mem_singleton.mp hb]
  · rw [a.attachSized_eq_none (ha.lt_of_not_room hroom)] at hr
    obtain rfl := Option.some.inj hr
    obtain rfl := Option.some.inj h
    exact hs

theorem Arrays.sound_of_noWrap (hN : N < 2 ^ 31) (haddr : 8 ∣ addr) (hs : s.Inv N base)
    (ha : s.NoWrap a) :
  s.Sound N addr base a
  := by
  by_cases hroom : a.paddingLen s.ctx + a.cnt * a.tsize ≤ s.ctx.left
  · right
    have hle := le_alignUp s.ctx.box.len a.alignSft
    have hleft := hs.tight.left
    refine ⟨_, _, a.attachSized_eq hN hs.tight hroom, ?_⟩
    rw [AttachCall.paddingLen] at hroom
    constructor
    · apply Nat.dvd_add
      · exact (pow_dvd_pow 2 a.align_le).trans haddr
      · apply dvd_alignUp
    · exact le_trans hs.base_le hle
    · dsimp only
      omega
    · intro b hb
      left
      exact le_trans (hs.slices b hb) hle
    · rfl
    · rfl
    · apply Nat.add_sub_cancel'
      dsimp only
      omega
  · left
    have hnone := a.attachSized_eq_none (ha.lt_of_not_room hroom)
    use hnone
    rw [Arrays.step, hnone]
    rfl

/-- A slice that lies in the box is too small for its size to wrap. -/
theorem Arrays.noWrap_of_sound (hN : N < 2 ^ 31) (hs : s.Inv N base)
    (h : s.Sound N addr base a) :
  s.NoWrap a
  := by
  rw [Sound, a.attachSized_wrapping] at h
  by_cases hlt : s.ctx.left < (a.paddingLen s.ctx + a.cnt * a.tsize) % 2 ^ 64
  · right
    exact hlt
  · left
    rw [if_neg hlt] at h
    obtain ⟨h, -⟩ | ⟨c, arr, h, hgeom⟩ := h
    · split_ifs at h
      cases h
    · have hleft := hs.tight.left
      have hin := hgeom.in_box
      split_ifs at h with hpad
      omega

/-- A context that is new has returned no slices. -/
theorem Arrays.inv_new {ty : MsgType} {dflt : List UInt8} {box box' : SendBox} {c : SendCtx}
    (hnew : SendCtx.new box N ty dflt = (box', some c)) :
  Arrays.Inv N ty.base { ctx := c, slices := [] }
  := by
  rw [SendCtx.new] at hnew
  split_ifs at hnew with hroom
  · cases hnew
  · simp only [Prod.mk.injEq, Option.some.injEq] at hnew
    obtain ⟨-, rfl⟩ := hnew
    refine ⟨⟨rfl, ?_⟩, le_refl _, ?_⟩
    · apply Nat.sub_add_cancel (Nat.le_of_not_lt hroom)
    · simp

/-- Calls of `attach_array` in a release build return slices that are where they may be
exactly when the sizes that are asked for do not wrap to something that fits. -/
theorem attachArray_sound_iff {ty : MsgType} {dflt : List UInt8} {box box' : SendBox}
    {c : SendCtx} (hN : N < 2 ^ 31) (haddr : 8 ∣ addr)
    (hnew : SendCtx.new box N ty dflt = (box', some c)) (calls : List AttachCall) :
  c.box.len + c.left = N
    ∧ (Meets (Arrays.step .wrapping) (Arrays.Sound N addr ty.base)
        { ctx := c, slices := [] } calls
      ↔ Meets (Arrays.step .wrapping) Arrays.NoWrap { ctx := c, slices := [] } calls)
  := by
  have hinv := Arrays.inv_new hnew
  constructor
  · rw [Nat.add_comm]
    exact hinv.tight.left
  · apply meets_iff (P := Arrays.Inv N ty.base) _ _ hinv
    · intro s a hs
      exact ⟨Arrays.noWrap_of_sound hN hs, Arrays.sound_of_noWrap hN haddr hs⟩
    · intro s a s' hs hsound h
      apply hs.step hN (Arrays.noWrap_of_sound hN hs hsound) h

end Attach

/-- A message with one array, and its context in a box of 1024 bytes. -/
def arrMsg : MsgType where
  typeName := "Arr".toUTF8.data.toList
  size := 24
  fields := [0]
  field_le := by decide
  apart := by decide

def arrCtx : SendCtx where
  box :=
    { len := 32
      sendBuf := putBytes (putBytes SendBox.new.sendBuf 0 arrMsg.typeId) 8
        ((List.replicate 24 0).take 24) }
  pos := 32
  left := 992

theorem new_arrMsg :
  SendCtx.new SendBox.new 1024 arrMsg (List.replicate 24 0) = (arrCtx.box, some arrCtx)
  := by
  rw [SendCtx.new, if_neg]
  · rfl
  · decide

theorem attachArray_sound_iff_arrMsg :
  arrCtx.box.len + arrCtx.left = 1024
    ∧ (Meets (Arrays.step .wrapping) (Arrays.Sound 1024 64 arrMsg.base)
        { ctx := arrCtx, slices := [] } [⟨4, 2, 5, by decide, by decide⟩]
      ↔ Meets (Arrays.step .wrapping) Arrays.NoWrap
        { ctx := arrCtx, slices := [] } [⟨4, 2, 5, by decide, by decide⟩])
  := attachArray_sound_iff (by decide) (by decide) new_arrMsg _

/-- An array of `2 ^ 61` words of 8 bytes seems to need no room at all. -/
theorem not_attachArray_sound_arrMsg :
  ¬ Meets (Arrays.step .wrapping) (Arrays.Sound 1024 64 arrMsg.base)
    { ctx := arrCtx, slices := [] } [⟨8, 3, 2 ^ 61, by decide, by decide⟩]
  := by
  intro h
  have hwrap := Arrays.noWrap_of_sound (by decide) (Arrays.inv_new new_arrMsg) h.1
  revert hwrap
  decide

end MsgBox

end TrainsOs
