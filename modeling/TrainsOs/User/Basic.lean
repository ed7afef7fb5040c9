import TrainsOs.MsgBox.Decode
import Mathlib.Data.Multiset.AddSub

/-!
# Servers

What the servers of `pie-rust/src/bin` have in common. A task that sends a request waits
until it is replied to; to a server the kernel is the list of the tasks that wait for its
replies, and `ker_reply` fails for any other task. The containers of `heapless` have a
fixed capacity. A panic is `none`.
-/

namespace TrainsOs

open MsgBox

/-- `ker_reply(tid, ..).unwrap()`: the tasks that wait afterwards. -/
def kerReply (callers : List ℤ) (tid : ℤ) : Option (List ℤ) :=
  if tid ∈ callers then
    some (callers.erase tid)
  else
    none

/-- `Deque::push_back(..).unwrap()`. -/
def pushBack {α : Type} (capacity : ℕ) (q : List α) (x : α) : Option (List α) :=
  if q.length < capacity then
    some (q ++ [x])
  else
    none

/-- `push_back(..).unwrap()` for one element after another. -/
def pushAll {α : Type} (capacity : ℕ) (q : List α) (xs : List α) : Option (List α) :=
  xs.foldlM (pushBack capacity) q

/-- `Vec::extend_from_slice(..).unwrap()`. -/
def extend {α : Type} (capacity : ℕ) (v : List α) (xs : List α) : Option (List α) :=
  if v.length + xs.length ≤ capacity then
    some (v ++ xs)
  else
    none

/-- `DEFAULT_BOX_SIZE`. -/
def defaultBoxSize : ℕ := 1024

/-- A struct of `size` bytes without arrays. -/
def plainMsg (typeName : String) (size : ℕ) : MsgType where
  typeName := typeName.toUTF8.data.toList
  size := size
  fields := []
  field_le := by simp
  apart := MsgBox.apart_nil

/-- `SendCtx::<T>::new(&mut send_box).unwrap()`, and the fields of the struct set to
`contents`. -/
def newMsg (ty : MsgType) (box : SendBox) (contents : List UInt8) : Option SendBox :=
  (SendCtx.new box defaultBoxSize ty contents).2.map SendCtx.box

/-- How integers overflow in this build, the bytes of the slice of an array of some length
in a box, and those of the default value of a struct of one array. -/
structure Build where
  arith : Arith
  slice : ℕ → List UInt8
  arrayDefault : List UInt8

/-- A struct that has an array as its only field. -/
def arrayMsg (typeName : String) : MsgType where
  typeName := typeName.toUTF8.data.toList
  size := sizeofAttached
  fields := [0]
  field_le := by simp
  apart := MsgBox.apart_zero

def rpiUartRxReq : MsgType := plainMsg "RpiUartRxReq" 4
def rpiUartTxReq : MsgType := arrayMsg "RpiUartTxReq"
def rpiUartTxBlockingReq : MsgType := arrayMsg "RpiUartTxBlockingReq"

/-- The elements of the array: `u8`. -/
def u8 : ElemType where
  size := 1
  alignSft := 0
  size_lt := MsgBox.byteElem.size_lt
  align_le := MsgBox.byteElem.align_le

/-- `SendCtx::<T>::new(&mut send_box).unwrap()`, and an array of the length of `bytes` that
is attached and filled with them. -/
def newArrayMsg (b : Build) (ty : MsgType) (box : SendBox) (bytes : List UInt8) :
    Option SendBox :=
  send b.arith ty u8 box defaultBoxSize b.arrayDefault
    [{ field := 0, cnt := bytes.length, contents := bytes, ptr := b.slice bytes.length }]

theorem pushBack_eq_some {α : Type} {capacity : ℕ} {q q' : List α} {x : α}
    (h : pushBack capacity q x = some q') :
  q' = q ++ [x]
  := by
  rw [pushBack] at h
  split_ifs at h
  exact (Option.some.inj h).symm

theorem pushBack_eq_extend {α : Type} (capacity : ℕ) (v : List α) (x : α) :
  pushBack capacity v x = extend capacity v [x]
  := by
  rw [pushBack, extend, List.length_singleton]
  rfl

/-- One extension after another is the extension by both. -/
theorem extend_bind {α : Type} (capacity : ℕ) (v xs ys : List α) :
  ((extend capacity v xs).bind fun v => extend capacity v ys) = extend capacity v (xs ++ ys)
  := by
  rw [extend, extend, List.length_append]
  by_cases hxs : v.length + xs.length ≤ capacity
  · rw [if_pos hxs, Option.bind_some, extend, List.length_append, List.append_assoc,
      Nat.add_assoc]
  · rw [if_neg hxs, if_neg (by omega)]
    rfl

/-- Extensions by chunks fit when all chunks together do. -/
theorem extendAll_eq {α β : Type} {capacity : ℕ} (f : β → List α) (bs : List β) {v : List α}
    (hv : v.length ≤ capacity) :
  bs.foldlM (fun v b => extend capacity v (f b)) v = extend capacity v (bs.flatMap f)
  := by
  induction bs generalizing v with
  | nil =>
    rw [List.flatMap_nil, extend, List.length_nil, if_pos (by omega), List.append_nil]
    rfl
  | cons b bs ih =>
    rw [List.foldlM_cons, List.flatMap_cons, ← extend_bind, Option.bind_eq_bind]
    by_cases hb : v.length + (f b).length ≤ capacity
    · have hext : extend capacity v (f b) = some (v ++ f b) := if_pos hb
      rw [hext, Option.bind_some, Option.bind_some]
      apply ih
      rwa [List.length_append]
    · have hext : extend capacity v (f b) = none := if_neg hb
      rw [hext]
      rfl

/-- The length of the longest array that fits into a box. -/
def arrayCapacity (ty : MsgType) : ℕ :=
  defaultBoxSize - ty.base

/-- A message with one array of bytes that fits into the box. -/
theorem sendBytes_eq (m : Arith) {ty : MsgType} (box : SendBox) (dflt : List UInt8) (field : ℕ)
    {bytes : List UInt8} (ptr : List UInt8) (hbase : ty.base ≤ defaultBoxSize)
    (hlen : bytes.length ≤ arrayCapacity ty) :
  ∃ box', send m ty u8 box defaultBoxSize dflt
    [{ field := field, cnt := bytes.length, contents := bytes, ptr := ptr }] = some box'
  := by
  have hnew : ¬ defaultBoxSize < ty.base := Nat.not_lt.mpr hbase
  have halign : alignUp ty.base u8.alignSft - ty.base = 0 := by
    simp [alignUp, alignDown, u8]
  have hcap : defaultBoxSize < 2 ^ 64 := by decide
  rw [arrayCapacity] at hlen
  have hlt : bytes.length < 2 ^ 64 := by omega
  have hsize : bytes.length * u8.size = bytes.length := Nat.mul_one _
  have hmul : m.mul 64 bytes.length u8.size = some bytes.length := by
    rw [Arith.mul_of_lt (by rwa [hsize]), hsize]
  have hadd : m.add 64 0 bytes.length = some (0 + bytes.length) :=
    Arith.add_of_lt (by omega)
  have hleft : ¬ defaultBoxSize - ty.base < 0 + bytes.length := by omega
  have hleft' : ¬ defaultBoxSize - ty.base - 0 < bytes.length := by omega
  simp only [send, SendCtx.new, if_neg hnew, Option.bind_eq_bind, Option.bind_some,
    List.foldlM_cons, List.foldlM_nil, SendCtx.attach, SendCtx.attachArray,
    SendCtx.attachSized, halign, hmul, hadd,
    if_neg hleft, if_neg hleft', Nat.not_lt_zero, if_false, hsize, true_and, if_pos hlt]
  exact ⟨_, rfl⟩

theorem newArrayMsg_eq (b : Build) (name : String) (box : SendBox) {bytes : List UInt8}
    (hbase : (arrayMsg name).base ≤ defaultBoxSize)
    (hlen : bytes.length ≤ arrayCapacity (arrayMsg name)) :
  ∃ box', newArrayMsg b (arrayMsg name) box bytes = some box'
  := sendBytes_eq b.arith box b.arrayDefault 0 _ hbase hlen

theorem pushAll_eq {α : Type} {capacity : ℕ} {q xs : List α} (h : q.length + xs.length ≤ capacity) :
  pushAll capacity q xs = some (q ++ xs)
  := by
  induction xs generalizing q with
  | nil => simp [pushAll]
  | cons x xs ih =>
    rw [List.length_cons] at h
    have hpush : pushBack capacity q x = some (q ++ [x]) := if_pos (by omega)
    rw [pushAll, List.foldlM_cons, hpush]
    have hrest := ih (q := q ++ [x]) (by rw [List.length_append, List.length_singleton]; omega)
    rw [pushAll] at hrest
    rw [Option.bind_eq_bind, Option.bind_some, hrest, List.append_assoc]
    rfl

theorem newMsg_eq {ty : MsgType} (h : ty.base ≤ defaultBoxSize) (box : SendBox)
    (contents : List UInt8) :
  ∃ box', newMsg ty box contents = some box'
  := by
  rw [newMsg, SendCtx.new, if_neg (Nat.not_lt.mpr h)]
  exact ⟨_, rfl⟩

/-- Tasks that wait for a reply, each for one thing. -/
structure Waiting (callers : List ℤ) (tids : Multiset ℤ) : Prop where
  nodup : tids.Nodup
  callers_nodup : callers.Nodup
  sub : ∀ t ∈ tids, t ∈ callers

namespace Waiting

variable {callers : List ℤ} {tids : Multiset ℤ} {tid : ℤ}

theorem nil :
  Waiting [] 0
  := ⟨Multiset.nodup_zero, List.nodup_nil, by simp⟩

/-- A request of a task that does not wait yet. -/
theorem request (h : Waiting callers tids) (hnew : tid ∉ callers) :
  Waiting (callers ++ [tid]) (tid ::ₘ tids)
  := by
  constructor
  · rw [Multiset.nodup_cons]
    exact ⟨fun hmem => hnew (h.sub tid hmem), h.nodup⟩
  · rw [List.nodup_append]
    refine ⟨h.callers_nodup, List.nodup_singleton tid, ?_⟩
    rintro a ha b hb rfl
    exact hnew (List.mem_singleton.mp hb ▸ ha)
  · intro t ht
    rw [List.mem_append, List.mem_singleton]
    exact (Multiset.mem_cons.mp ht).symm.imp_left (h.sub t)

/-- A task that waits can be replied to. -/
theorem reply (h : Waiting callers (tid ::ₘ tids)) :
  kerReply callers tid = some (callers.erase tid) ∧ Waiting (callers.erase tid) tids
  := by
  obtain ⟨hnew, hnodup⟩ := Multiset.nodup_cons.mp h.nodup
  constructor
  · exact if_pos (h.sub tid (Multiset.mem_cons_self tid tids))
  · constructor
    · exact hnodup
    · exact h.callers_nodup.erase tid
    · intro t ht
      have hne : t ≠ tid := by
        rintro rfl
        exact hnew ht
      exact (List.mem_erase_of_ne hne).mpr (h.sub t (Multiset.mem_cons_of_mem ht))

/-- A task that is not replied to waits for ever. -/
theorem forget (h : Waiting callers (tid ::ₘ tids)) :
  Waiting callers tids
  := by
  constructor
  · exact (Multiset.nodup_cons.mp h.nodup).2
  · exact h.callers_nodup
  · intro t ht
    exact h.sub t (Multiset.mem_cons_of_mem ht)

end Waiting

end TrainsOs
