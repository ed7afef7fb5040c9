import TrainsOs.MsgBox.Basic
import Mathlib.Data.List.Perm.Basic

/-!
# The slices of a message

The loop that cuts the slices off runs through exactly when the arrays, in the order in
which they are sorted, follow one another within the box. The position of the rest of the
box and the offset that the loop computes agree, although one is a `usize` and the other
wraps at 32 bits: a box is smaller than `2 ^ 31`, and a difference that wraps is larger.
-/

namespace TrainsOs

namespace Arith

variable {m : Arith} {w a b : ℕ}

theorem add_of_lt (h : a + b < 2 ^ w) :
  m.add w a b = some (a + b)
  := if_pos h

theorem mul_of_lt (h : a * b < 2 ^ w) :
  m.mul w a b = some (a * b)
  := if_pos h

theorem sub_of_le (h : b ≤ a) :
  m.sub w a b = some (a - b)
  := if_pos h

/-- A difference that is not defined wraps, if it does not panic. -/
theorem sub_of_lt {d : ℕ} (h : a < b) (hsub : m.sub w a b = some d) :
  d = a + 2 ^ w - b
  := by
  unfold sub at hsub
  rw [if_neg (Nat.not_le.mpr h)] at hsub
  cases m with
  | checked => cases hsub
  | wrapping => exact (Option.some.inj hsub).symm

end Arith

namespace MsgBox

open Bytes

variable {m : Arith} {el : ElemType} {ty : MsgType} {order : List Received}
  {slices : List Slice} {pos left R : ℕ} {buf : ℕ → UInt8}

/-- The number of bytes of an array. -/
def Received.bytes (el : ElemType) (a : Received) : ℕ :=
  a.cnt * el.size

/-- The bytes that a field describes. -/
def Received.slice (el : ElemType) (a : Received) : Slice where
  field := a.field
  pos := a.idx
  cnt := a.cnt
  bytes := a.bytes el

/-- The array of `a` ends before the one of `b`. -/
def Before (el : ElemType) (a b : Received) : Prop :=
  a.idx + a.bytes el ≤ b.idx

/-- The fields are words of 32 bits. -/
def Received.Word (a : Received) : Prop :=
  a.idx < 2 ^ 32 ∧ a.cnt < 2 ^ 32

theorem Received.Word.bytes_lt {a : Received} (h : a.Word) (el : ElemType) :
  a.cnt * el.size < 2 ^ 64
  := by
  have hsize := el.size_lt
  calc a.cnt * el.size ≤ a.cnt * 2 ^ 32 := Nat.mul_le_mul_left _ hsize.le
    _ < 2 ^ 32 * 2 ^ 32 := Nat.mul_lt_mul_of_pos_right h.2 (by decide)
    _ = 2 ^ 64 := by decide

theorem word_of_mem_received {a : Received} (h : a ∈ ty.received buf) :
  a.Word
  := by
  obtain ⟨o, -, rfl⟩ := List.mem_map.mp h
  exact ⟨getU32_lt, getU32_lt⟩

/-- A round of the loop on an array that lies in the rest of the box. -/
theorem cutSlices_cons {a : Received} {as : List Received} (hword : a.Word)
    (hpos : pos ≤ a.idx) (hend : a.idx + a.bytes el ≤ pos + left)
    (hlt : a.idx + a.bytes el < 2 ^ 32) :
  cutSlices m el (a :: as) pos left pos
    = (cutSlices m el as (a.idx + a.bytes el) (pos + left - (a.idx + a.bytes el))
        (a.idx + a.bytes el)).map (a.slice el :: ·)
  := by
  rw [Received.bytes] at *
  have hstart : pos + (a.idx - pos) = a.idx := Nat.add_sub_cancel' hpos
  have hleft : left - (a.idx - pos) - a.cnt * el.size
      = pos + left - (a.idx + a.cnt * el.size) := by omega
  rw [cutSlices, Arith.sub_of_le hpos, Arith.mul_of_lt (hword.bytes_lt el)]
  simp only [Option.bind_eq_bind, Option.bind_some]
  rw [if_neg (by omega), if_neg (by omega), Arith.mul_of_lt (by omega), Option.bind_some,
    Arith.add_of_lt (by omega), Option.bind_some, hstart, hleft]
  cases cutSlices m el as (a.idx + a.cnt * el.size) (pos + left - (a.idx + a.cnt * el.size))
    (a.idx + a.cnt * el.size) <;> rfl

/-- Arrays that follow one another are cut off. -/
theorem cutSlices_of_before (hword : ∀ a ∈ order, a.Word) (hbefore : order.Pairwise (Before el))
    (hbound : ∀ a ∈ order, pos ≤ a.idx ∧ a.idx + a.bytes el < 2 ^ 32
      ∧ a.idx + a.bytes el ≤ pos + left) :
  cutSlices m el order pos left pos = some (order.map (Received.slice el))
  := by
  induction order generalizing pos left with
  | nil => rfl
  | cons a as ih =>
    rw [List.pairwise_cons] at hbefore
    obtain ⟨hpos, hlt, hend⟩ := hbound a List.mem_cons_self
    rw [cutSlices_cons (hword a List.mem_cons_self) hpos hend hlt, ih]
    · rfl
    · exact fun b hb => hword b (List.mem_cons_of_mem a hb)
    · exact hbefore.2
    · intro b hb
      obtain ⟨-, hlt', hend'⟩ := hbound b (List.mem_cons_of_mem a hb)
      have hafter : a.idx + a.bytes el ≤ b.idx := hbefore.1 b hb
      refine ⟨hafter, hlt', ?_⟩
      omega

/-- Only arrays that follow one another in the rest of the box are cut off. -/
theorem cutSlices_spec (hword : ∀ a ∈ order, a.Word) (hlt : pos + left < 2 ^ 31)
    (h : cutSlices m el order pos left pos = some slices) :
  slices = order.map (Received.slice el) ∧ order.Pairwise (Before el)
    ∧ ∀ a ∈ order, pos ≤ a.idx ∧ a.idx + a.bytes el ≤ pos + left
  := by
  induction order generalizing pos left slices with
  | nil =>
    obtain rfl := Option.some.inj h
    exact ⟨rfl, List.Pairwise.nil, by simp⟩
  | cons a as ih =>
    rw [List.forall_mem_cons] at hword
    have hround := h
    rw [cutSlices] at hround
    obtain ⟨start, hstart, hround⟩ := Option.bind_eq_some_iff.mp hround
    have hpos : pos ≤ a.idx := by
      by_contra hnot
      have hwrap := Arith.sub_of_lt (Nat.lt_of_not_le hnot) hstart
      rw [if_pos (by omega)] at hround
      cases hround
    rw [Arith.sub_of_le hpos] at hstart
    obtain rfl := Option.some.inj hstart
    split at hround
    · cases hround
    · rename_i hle
      rw [Arith.mul_of_lt (hword.1.bytes_lt el)] at hround
      simp only [Option.bind_eq_bind, Option.bind_some] at hround
      split at hround
      · cases hround
      · rename_i hbytes
        have hend : a.idx + a.bytes el ≤ pos + left := by
          rw [Received.bytes]
          omega
        rw [cutSlices_cons hword.1 hpos hend (by omega)] at h
        obtain ⟨rest, hrest, rfl⟩ := Option.map_eq_some_iff.mp h
        obtain ⟨rfl, hpair, hbound⟩ := ih hword.2 (by omega) hrest
        refine ⟨rfl, ?_, ?_⟩
        · exact List.pairwise_cons.mpr ⟨fun b hb => (hbound b hb).1, hpair⟩
        · intro b hb
          obtain rfl | hb := List.mem_cons.mp hb
          · exact ⟨hpos, hend⟩
          · obtain ⟨hle, hle'⟩ := hbound b hb
            constructor <;> omega

/-- The position and the offset agree at the start of the loop. -/
theorem fromRecvBytes_eq (hfields : ty.fields ≠ []) (hbase : ty.base ≤ R)
    (hlt : ty.base < 2 ^ 32) :
  fromRecvBytes m ty el R order = cutSlices m el order ty.base (R - ty.base) ty.base
  := by
  have hsize : ¬ R - ty.idLen < ty.size := by
    rw [MsgType.base] at hbase
    omega
  rw [fromRecvBytes, if_neg hfields, if_neg hsize, Nat.mod_eq_of_lt hlt]

theorem idLen_le_of_isIn (h : ty.isIn R buf = true) :
  ty.idLen ≤ R
  := by
  rw [MsgType.isIn, Bool.and_eq_true, decide_eq_true_eq] at h
  exact h.1

/-- Whatever is in the box: when the fields are decoded, the slices are the bytes that the
fields describe. They lie in the box after the name and the struct, and no two of them
overlap. -/
theorem fromRecvBytes_safe (hR : R < 2 ^ 31) (hin : ty.isIn R buf = true)
    (hsorts : Sorts order (ty.received buf)) (h : fromRecvBytes m ty el R order = some slices) :
  slices.Perm ((ty.received buf).map (Received.slice el))
    ∧ (∀ s ∈ slices, ty.base ≤ s.pos ∧ s.pos + s.bytes ≤ R)
    ∧ slices.Pairwise fun s t => s.pos + s.bytes ≤ t.pos
  := by
  by_cases hfields : ty.fields = []
  · have hnil : ty.received buf = [] := by rw [MsgType.received, hfields, List.map_nil]
    rw [fromRecvBytes, if_pos hfields] at h
    obtain rfl := Option.some.inj h
    rw [hnil]
    exact ⟨List.Perm.refl _, by simp, List.Pairwise.nil⟩
  · have hbase : ty.base ≤ R := by
      have hid := idLen_le_of_isIn hin
      rw [MsgType.base]
      by_contra hnot
      rw [fromRecvBytes, if_neg hfields, if_pos (by omega)] at h
      cases h
    rw [fromRecvBytes_eq hfields hbase (by omega)] at h
    have hword : ∀ a ∈ order, a.Word :=
      fun a ha => word_of_mem_received (hsorts.perm.mem_iff.mp ha)
    obtain ⟨rfl, hpair, hbound⟩ := cutSlices_spec hword (by omega) h
    refine ⟨hsorts.perm.map _, ?_, ?_⟩
    · intro s hs
      obtain ⟨a, ha, rfl⟩ := List.mem_map.mp hs
      obtain ⟨hle, hend⟩ := hbound a ha
      exact ⟨hle, by rw [Nat.add_sub_cancel' hbase] at hend; exact hend⟩
    · exact List.pairwise_map.mpr hpair

/-- The arrays that the sorted fields describe follow one another in the box, behind the
struct. -/
structure Chained (el : ElemType) (base R : ℕ) (order : List Received) : Prop where
  before : order.Pairwise (Before el)
  bound : ∀ a ∈ order, base ≤ a.idx ∧ a.idx + a.bytes el ≤ R

/-- A struct in the box is decoded exactly when its arrays, if it has some, can be cut off. -/
theorem fromRecvBytes_ne_none_iff (hbase : ty.base ≤ R) (hR : R < 2 ^ 31)
    (hsorts : Sorts order (ty.received buf)) :
  fromRecvBytes m ty el R order ≠ none ↔ ty.fields = [] ∨ Chained el ty.base R order
  := by
  have hword : ∀ a ∈ order, a.Word :=
    fun a ha => word_of_mem_received (hsorts.perm.mem_iff.mp ha)
  by_cases hfields : ty.fields = []
  · rw [fromRecvBytes, if_pos hfields]
    simp [hfields]
  · rw [fromRecvBytes_eq hfields hbase (by omega), Option.ne_none_iff_exists',
      or_iff_right hfields]
    constructor
    · rintro ⟨slices, hslices⟩
      obtain ⟨-, hbefore, hbound⟩ := cutSlices_spec hword (by omega) hslices
      rw [Nat.add_sub_cancel' hbase] at hbound
      exact ⟨hbefore, hbound⟩
    · rintro ⟨hbefore, hbound⟩
      refine ⟨_, cutSlices_of_before hword hbefore fun a ha => ?_⟩
      obtain ⟨hle, hend⟩ := hbound a ha
      refine ⟨hle, ?_, ?_⟩ <;> omega

/-- Bytes. -/
def byteElem : ElemType where
  size := 1
  alignSft := 0
  size_lt := by decide
  align_le := by decide

/-- A struct of the name `T` with two arrays. -/
def twoArrays : MsgType where
  typeName := [84]
  size := 48
  fields := [0, 24]
  field_le := by decide
  apart := by decide

/-- A box with two arrays, of four bytes and of two bytes. -/
def twoArraysBuf : ℕ → UInt8 :=
  putBytes (putBytes (putBytes (fun _ => 0) 0 twoArrays.typeId) 8 (u32Bytes 60 ++ u32Bytes 2))
    32 (u32Bytes 56 ++ u32Bytes 4)

theorem received_twoArrays :
  twoArrays.received twoArraysBuf = [⟨0, 60, 2⟩, ⟨24, 56, 4⟩]
  := rfl

/-- The fields are cut off in the order of their offsets. -/
theorem fromRecvBytes_safe_twoArrays :
  ∃ slices, fromRecvBytes .wrapping twoArrays byteElem 64 [⟨24, 56, 4⟩, ⟨0, 60, 2⟩] = some slices
    ∧ (∀ s ∈ slices, twoArrays.base ≤ s.pos ∧ s.pos + s.bytes ≤ 64)
    ∧ slices.Pairwise fun s t => s.pos + s.bytes ≤ t.pos
  := by
  have hsorts : Sorts [⟨24, 56, 4⟩, ⟨0, 60, 2⟩] (twoArrays.received twoArraysBuf) := by
    rw [received_twoArrays]
    constructor
    · apply List.Perm.swap
    · simp
  have hin : twoArrays.isIn 64 twoArraysBuf = true := by decide +kernel
  have hslices : fromRecvBytes .wrapping twoArrays byteElem 64 [⟨24, 56, 4⟩, ⟨0, 60, 2⟩]
      = some [⟨24, 56, 4, 4⟩, ⟨0, 60, 2, 2⟩] := rfl
  exact ⟨_, hslices, (fromRecvBytes_safe (by decide) hin hsorts hslices).2⟩

end MsgBox

end TrainsOs
