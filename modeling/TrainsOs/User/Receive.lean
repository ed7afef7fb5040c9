import TrainsOs.MsgBox.Truncated
import TrainsOs.User.Basic

/-!
# Requests with an array of bytes

A server receives into a box of 1024 bytes. A request that attaches an array of bytes is
decoded to these bytes if the array ends within the box, and otherwise the server panics.
-/

namespace TrainsOs

open MsgBox Bytes

/-- The box of a server after `ker_recv` of a message that a task has built in a box of less
than `2 ^ 31` bytes, with the arrays `as`, whatever the box of the server held before. -/
def Sent (m : Arith) (ty : MsgType) (as : List Attach) (recvBuf : ℕ → UInt8) : Prop :=
  ∃ box N scalars box' stale, N < 2 ^ 31 ∧ send m ty u8 box N scalars as = some box'
    ∧ recvBuf = delivered box' defaultBoxSize stale

/-- The arrays of bytes of a message, which were attached one after another, are in the box. -/
def inRecvBox (ty : MsgType) (arrays : List (List UInt8)) : Bool :=
  ty.base + (arrays.map List.length).sum ≤ defaultBoxSize

/-- There is no padding between arrays of bytes. -/
theorem placeEnd_u8 (len : ℕ) (as : List Attach) :
  placeEnd u8 len as = len + ((as.map Attach.contents).map List.length).sum
  := by
  induction as generalizing len with
  | nil => rfl
  | cons a as ih =>
    have halign : alignUp len u8.alignSft = len := by
      simp [alignUp, alignDown, u8]
    rw [placeEnd, ih, halign, List.map_cons, List.map_cons, List.sum_cons, Nat.add_assoc]

/-- A message with arrays of bytes is decoded, by whatever enum has it as a variant, if they
are in the box, and otherwise the decoder panics. -/
theorem Sent.decoded_iff {m : Arith} {ty : MsgType} {as : List Attach} {recvBuf : ℕ → UInt8}
    {variants : List MsgType} {order : MsgType → List Received} (h : Sent m ty as recvBuf)
    (hfields : (as.map Attach.field).Perm ty.fields) (hne : ty.fields ≠ []) (hlast : EmptyLast as)
    (hvariants : Variants variants) (hty : ty ∈ variants) (hbase : ty.base ≤ defaultBoxSize)
    (hsorts : Sorts (order ty) (ty.received recvBuf)) :
  recvEnumFromRecvBytes m (fun _ => u8) variants defaultBoxSize recvBuf order ≠ none
    ↔ inRecvBox ty (as.map Attach.contents) = true
  := by
  obtain ⟨box, N, scalars, box', stale, hN, hsend, rfl⟩ := h
  obtain ⟨hlen, -⟩ := send_spec hfields (by omega) hsend
  have hsame : ∀ v ∈ variants, v.typeName = ty.typeName → v = ty :=
    fun v hv => hvariants.eq_of_typeName hv hty
  have hid : ty.idLen ≤ defaultBoxSize := Nat.le_trans (Nat.le_add_right _ _) hbase
  rw [inRecvBox, decide_eq_true_eq, ← placeEnd_u8, ← hlen]
  constructor
  · intro hsome
    by_contra hlt
    exact hsome (recvEnumFromRecvBytes_cut hvariants hsame (hvariants.zero _ hty) hfields hN hsend
      hty hid (Nat.lt_of_not_le hlt) hne hsorts)
  · intro hle
    have hwhole : ∃ slices, recvEnumFromRecvBytes m (fun _ => u8) variants defaultBoxSize
        (delivered box' defaultBoxSize stale) order = some (some (ty, slices)) ∧ _ :=
      recvEnumFromRecvBytes_whole hvariants hsame (hvariants.zero _ hty) hfields hN hsend hty
        hlast hle hsorts
    obtain ⟨slices, hrecv, -⟩ := hwhole
    rw [hrecv]
    exact Option.some_ne_none _

/-- The array of bytes of a struct that has one. -/
def arrayBytes (recvBuf : ℕ → UInt8) (slices : List Slice) : List UInt8 :=
  slices.flatMap fun s => getBytes recvBuf s.pos s.bytes

/-- `RecvEnum::from_recv_bytes(&mut recv_box)`, when no variant has more than one array, so that
there is nothing to sort: the variant and the bytes of its array. -/
def recvRequest (m : Arith) (variants : List MsgType) (recvBuf : ℕ → UInt8) :
    Option (Option (MsgType × List UInt8)) :=
  (recvEnumFromRecvBytes m (fun _ => u8) variants defaultBoxSize recvBuf
      fun v => v.received recvBuf).map
    (Option.map fun (v, slices) => (v, arrayBytes recvBuf slices))

theorem sorts_arrayMsg (typeName : String) (recvBuf : ℕ → UInt8) :
  Sorts ((arrayMsg typeName).received recvBuf) ((arrayMsg typeName).received recvBuf)
  := by
  constructor
  · exact List.Perm.refl _
  · exact List.pairwise_singleton _ _

section Request

variable {m : Arith} {variants : List MsgType} {typeName : String} {bytes ptr : List UInt8}
  {recvBuf : ℕ → UInt8}

theorem perm_arrayMsg (typeName : String) (bytes ptr : List UInt8) :
  ([⟨0, bytes.length, bytes, ptr⟩].map Attach.field).Perm (arrayMsg typeName).fields
  := List.Perm.refl _

/-- The length of an array that is alone in a struct. -/
theorem inRecvBox_iff {ty : MsgType} (hbase : ty.base ≤ defaultBoxSize) :
  inRecvBox ty [bytes] = true ↔ bytes.length ≤ arrayCapacity ty
  := by
  rw [inRecvBox, decide_eq_true_eq, arrayCapacity, List.map_singleton, List.sum_singleton]
  omega

theorem Sent.emptyLast (h : Sent m (arrayMsg typeName) [⟨0, bytes.length, bytes, ptr⟩] recvBuf) :
  EmptyLast [⟨0, bytes.length, bytes, ptr⟩]
  := by
  obtain ⟨box, N, scalars, box', stale, hN, hsend, -⟩ := h
  obtain ⟨hlen, -⟩ := send_spec (perm_arrayMsg typeName bytes ptr) (by omega) hsend
  have hle := len_le_of_send (by omega) hsend
  rw [placeEnd_u8, List.map_singleton, List.map_singleton, List.sum_singleton] at hlen
  dsimp only at hlen
  constructor
  · rw [List.forall_mem_singleton]
    dsimp only
    omega
  · exact List.pairwise_singleton _ _

variable (hsent : Sent m (arrayMsg typeName) [⟨0, bytes.length, bytes, ptr⟩] recvBuf)
  (hvariants : Variants variants) (hty : arrayMsg typeName ∈ variants)
  (hbase : (arrayMsg typeName).base ≤ defaultBoxSize)

include hsent hvariants hty hbase

/-- A request whose array is in the box is decoded to the bytes that were attached. -/
theorem recvRequest_of_inRecvBox (hbox : inRecvBox (arrayMsg typeName) [bytes] = true) :
  recvRequest m variants recvBuf = some (some (arrayMsg typeName, bytes))
  := by
  have hlast := hsent.emptyLast
  obtain ⟨box, N, scalars, box', stale, hN, hsend, rfl⟩ := hsent
  obtain ⟨hlen, -⟩ := send_spec (perm_arrayMsg typeName bytes ptr) (by omega) hsend
  rw [inRecvBox, decide_eq_true_eq] at hbox
  rw [placeEnd_u8] at hlen
  have hwhole : ∃ slices, recvEnumFromRecvBytes m (fun _ => u8) variants defaultBoxSize
      (delivered box' defaultBoxSize stale)
      (fun v => v.received (delivered box' defaultBoxSize stale))
        = some (some (arrayMsg typeName, slices)) ∧ _ ∧ _ :=
    recvEnumFromRecvBytes_whole hvariants (fun v hv => hvariants.eq_of_typeName hv hty)
      (hvariants.zero _ hty) (perm_arrayMsg typeName bytes ptr) hN hsend hty hlast
      (hlen.trans_le hbox) (sorts_arrayMsg typeName _)
  obtain ⟨slices, hrecv, hslices, hdecoded⟩ := hwhole
  rw [recvRequest, hrecv, Option.map_some, Option.map_some]
  obtain ⟨slices', hslices', harrays⟩ := hdecoded.arrays
  obtain rfl := Option.some.inj (hslices.symm.trans hslices')
  obtain ⟨s, hs, -, hcnt, hbytes⟩ := harrays _ List.mem_cons_self
  -- the struct has one array, so that there is one slice
  have hsize : defaultBoxSize < 2 ^ 31 := by decide
  rw [fromRecvBytes_eq (by simp [arrayMsg]) hbase (by omega)] at hslices
  obtain ⟨rfl, -⟩ := cutSlices_spec (fun x hx => word_of_mem_received hx) (by omega) hslices
  rw [MsgType.received, arrayMsg, List.map_singleton, List.map_singleton,
    List.mem_singleton] at hs
  have hlen' : s.bytes = s.cnt * u8.size := by
    rw [hs]
    rfl
  have harray : arrayBytes (delivered box' defaultBoxSize stale) [s] = bytes := by
    rw [arrayBytes, List.flatMap_singleton, hlen']
    exact hbytes
  rw [← harray, hs]
  rfl

/-- If it is not, the server panics. -/
theorem recvRequest_eq :
  recvRequest m variants recvBuf
    = if inRecvBox (arrayMsg typeName) [bytes] then
        some (some (arrayMsg typeName, bytes))
      else
        none
  := by
  split_ifs with hbox
  · exact recvRequest_of_inRecvBox hsent hvariants hty hbase hbox
  · have hiff : recvEnumFromRecvBytes m (fun _ => u8) variants defaultBoxSize recvBuf
        (fun v => v.received recvBuf) ≠ none
          ↔ inRecvBox (arrayMsg typeName) ([⟨0, bytes.length, bytes, ptr⟩].map Attach.contents)
            = true :=
      hsent.decoded_iff (perm_arrayMsg typeName bytes ptr) (by simp [arrayMsg]) hsent.emptyLast
        hvariants hty hbase (sorts_arrayMsg typeName recvBuf)
    rw [recvRequest, not_not.mp (mt hiff.mp hbox)]
    rfl

end Request

end TrainsOs
