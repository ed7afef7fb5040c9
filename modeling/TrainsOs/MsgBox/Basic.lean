import TrainsOs.Macro
import TrainsOs.Lib.Bytes

/-!
# Messages

The in-place serializer of `msgbox.rs` and the code that `msgbox_macro` generates. A
message in a box is the name of its type, padded with zeros, the bytes of the struct and
the attached arrays. An `AttachedArray` in the struct holds the offset of its array from
the start of the box, the number of its elements and a slice. The sender attaches the
arrays one after another; the receiver sorts the fields by their offsets and cuts the
slices off one after another.

Arithmetic is checked or wraps, according to the build. A panic is `none`.
-/

namespace TrainsOs

/-- How integers overflow. -/
inductive Arith where
  | checked
  | wrapping

namespace Arith

/-- The result `n` of an operation on words of `w` bits. -/
def fit (m : Arith) (w n : ℕ) : Option ℕ :=
  if n < 2 ^ w then
    some n
  else
    match m with
    | .checked => none
    | .wrapping => some (n % 2 ^ w)

def add (m : Arith) (w a b : ℕ) : Option ℕ :=
  m.fit w (a + b)

def mul (m : Arith) (w a b : ℕ) : Option ℕ :=
  m.fit w (a * b)

def sub (m : Arith) (w a b : ℕ) : Option ℕ :=
  if b ≤ a then
    some (a - b)
  else
    match m with
    | .checked => none
    | .wrapping => some (a + 2 ^ w - b)

end Arith

namespace MsgBox

open Bytes

/-- The element type of an array: its size, and its alignment `2 ^ alignSft`. -/
structure ElemType where
  size : ℕ
  alignSft : ℕ
  size_lt : size < 2 ^ 32
  align_le : alignSft ≤ 3

/-- The size of an `AttachedArray`: `idx`, `cnt` and a slice. -/
def sizeofAttached : ℕ := 24

/-- A message struct: its name, its size, and the offsets of its fields of type
`AttachedArray` in the order of their declaration. -/
structure MsgType where
  typeName : List UInt8
  size : ℕ
  fields : List ℕ
  field_le : ∀ o ∈ fields, o + sizeofAttached ≤ size
  apart : fields.Pairwise fun o o' => o + sizeofAttached ≤ o' ∨ o' + sizeofAttached ≤ o

theorem apart_nil :
  ([] : List ℕ).Pairwise fun o o' => o + sizeofAttached ≤ o' ∨ o' + sizeofAttached ≤ o
  := List.Pairwise.nil

theorem apart_zero :
  [0].Pairwise fun o o' => o + sizeofAttached ≤ o' ∨ o' + sizeofAttached ≤ o
  := List.pairwise_singleton _ _

/-- The length of the name with its padding: `(len + 8) & !7`. -/
def MsgType.idLen (ty : MsgType) : ℕ :=
  alignDown (ty.typeName.length + 8) 3

/-- The name and its padding. -/
def MsgType.typeId (ty : MsgType) : List UInt8 :=
  ty.typeName ++ List.replicate (ty.idLen - ty.typeName.length) 0

/-- The offset of the arrays: after the name and the struct. -/
def MsgType.base (ty : MsgType) : ℕ :=
  ty.idLen + ty.size

/-! ### Sending -/

/-- `SendBox<N>`. -/
structure SendBox where
  len : ℕ
  sendBuf : ℕ → UInt8

/-- `SendCtx`, with the box it borrows. The slice `send_buf` of the bytes that are left is
given by its position and its length, and `idx` is the length of the box. -/
structure SendCtx where
  box : SendBox
  pos : ℕ
  left : ℕ

/-- An `AttachedArray` on the side of the sender: `pos` is where its slice is. -/
structure Attached where
  idx : ℕ
  cnt : ℕ
  pos : ℕ

/-- `SendCtx::new` on a box of `N` bytes, with the bytes of `T::default()`: the box, and the
context, `none` being `None`. -/
def SendCtx.new (box : SendBox) (N : ℕ) (ty : MsgType) (dflt : List UInt8) :
    SendBox × Option SendCtx :=
  let box := { box with len := ty.base }
  if N < ty.base then
    (box, none)
  else
    let buf := putBytes box.sendBuf 0 ty.typeId
    let box := { box with sendBuf := putBytes buf ty.idLen (dflt.take ty.size) }
    (box, some { box := box, pos := ty.base, left := N - ty.base })

/-- `SendCtx::attach_array` for elements of `tsize` bytes that are aligned to `2 ^ alignSft`:
`some none` is `None`. -/
def SendCtx.attachSized (m : Arith) (tsize alignSft : ℕ) (c : SendCtx) (cnt : ℕ) :
    Option (Option (SendCtx × Attached)) := do
  let alignedIdx := alignUp c.box.len alignSft
  let paddingLen := alignedIdx - c.box.len
  let bytes ← m.mul 64 cnt tsize
  let need ← m.add 64 paddingLen bytes
  if c.left < need then
    some none
  else if c.left < paddingLen then
    none
  else if c.left - paddingLen < bytes then
    none
  else
    let idx := c.box.len + need
    some (some
      ({ box := { c.box with len := idx }
         pos := c.pos + paddingLen + bytes
         left := c.left - paddingLen - bytes },
       { idx := (idx - bytes) % 2 ^ 32, cnt := cnt % 2 ^ 32, pos := c.pos + paddingLen }))

/-- `SendCtx::attach_array` at an element type. -/
def SendCtx.attachArray (m : Arith) (el : ElemType) (c : SendCtx) (cnt : ℕ) :
    Option (Option (SendCtx × Attached)) :=
  c.attachSized m el.size el.alignSft cnt

/-- Writing to the memory of the box. -/
def SendCtx.write (c : SendCtx) (pos : ℕ) (bs : List UInt8) : SendCtx :=
  { c with box := { c.box with sendBuf := putBytes c.box.sendBuf pos bs } }

/-- The assignment of an array to the field at offset `o` of the struct; `ptr` are the bytes
of the slice. -/
def SendCtx.setField (ty : MsgType) (c : SendCtx) (o : ℕ) (a : Attached) (ptr : List UInt8) :
    SendCtx :=
  c.write (ty.idLen + o) (u32Bytes a.idx ++ u32Bytes a.cnt ++ ptr.take 16)

/-- A field, and the array that is attached to it. -/
structure Attach where
  field : ℕ
  cnt : ℕ
  contents : List UInt8
  ptr : List UInt8

/-- The statement `ctx.field = ctx.attach_array(cnt).unwrap()`, and the elements written into
the array. It is `none` when `attach_array` fails, and also when there are not as many
elements as the array has. The elements themselves exist, so their bytes are counted
without overflow. -/
def SendCtx.attach (m : Arith) (ty : MsgType) (el : ElemType) (c : SendCtx) (a : Attach) :
    Option SendCtx := do
  let (c, arr) ← (← c.attachArray m el a.cnt)
  if a.contents.length = a.cnt * el.size ∧ a.contents.length < 2 ^ 64 then
    some ((c.setField ty a.field arr a.ptr).write arr.pos a.contents)
  else
    none

/-- A message: the arrays are attached in the order of `as`. The bytes of the struct are
those of `scalars`, but for the fields of the arrays. -/
def send (m : Arith) (ty : MsgType) (el : ElemType) (box : SendBox) (N : ℕ)
    (scalars : List UInt8) (as : List Attach) : Option SendBox := do
  let c ← (SendCtx.new box N ty scalars).2
  let c ← as.foldlM (SendCtx.attach m ty el) c
  some c.box

/-! ### Receiving -/

/-- The bytes of a `RecvBox` after the first `len` bytes of a `SendBox` are delivered. -/
def deliver (box : SendBox) (stale : ℕ → UInt8) : ℕ → UInt8 :=
  fun j => if j < box.len then box.sendBuf j else stale j

/-- The fields of an `AttachedArray` in the struct that is received. -/
structure Received where
  field : ℕ
  idx : ℕ
  cnt : ℕ

/-- A slice: `bytes` bytes at `pos` of the box, `cnt` elements. -/
structure Slice where
  field : ℕ
  pos : ℕ
  cnt : ℕ
  bytes : ℕ

/-- The array fields of the struct in the box. -/
def MsgType.received (ty : MsgType) (buf : ℕ → UInt8) : List Received :=
  ty.fields.map fun o =>
    { field := o, idx := getU32 buf (ty.idLen + o), cnt := getU32 buf (ty.idLen + o + 4) }

/-- What `sort_unstable_by_key` by `idx` may make of the fields: any order among those with
the same key. -/
structure Sorts (order fields : List Received) : Prop where
  perm : order.Perm fields
  sorted : order.Pairwise fun a b => a.idx ≤ b.idx

/-- The loop of `AttachedArray::from_recv_bytes` over the sorted fields. The slice `buf` is
given by its position and its length. -/
def cutSlices (m : Arith) (el : ElemType) : List Received → ℕ → ℕ → ℕ → Option (List Slice)
  | [], _, _, _ => some []
  | a :: as, pos, left, offset => do
      let start ← m.sub 32 a.idx offset
      if left < start then
        none
      else
        let bytes ← m.mul 64 a.cnt el.size
        if left - start < bytes then
          none
        else
          let len ← m.mul 32 a.cnt el.size
          let offset ← m.add 32 a.idx len
          let slices ← cutSlices m el as (pos + start + bytes) (left - start - bytes) offset
          some ({ field := a.field, pos := pos + start, cnt := a.cnt, bytes := bytes } :: slices)

/-- Whether the box of `R` bytes starts with the name of the type: the pattern of
`RecvEnumTrait::from_recv_bytes`. -/
def MsgType.isIn (ty : MsgType) (R : ℕ) (buf : ℕ → UInt8) : Bool :=
  ty.idLen ≤ R && getBytes buf 0 ty.idLen = ty.typeId

/-- `MsgTrait::from_recv_bytes` on the bytes after the name: the slices of the arrays. The
struct without arrays has the default one, which checks nothing. -/
def fromRecvBytes (m : Arith) (ty : MsgType) (el : ElemType) (R : ℕ) (order : List Received) :
    Option (List Slice) :=
  if ty.fields = [] then
    some []
  else if R - ty.idLen < ty.size then
    none
  else
    cutSlices m el order ty.base (R - ty.base) (ty.base % 2 ^ 32)

end MsgBox

end TrainsOs
