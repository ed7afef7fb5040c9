import TrainsOs.MsgBox.Dispatch
import TrainsOs.Kernel.Basic
import TrainsOs.Lib.Run

/-!
# Messages that do not fit

The kernel copies as many bytes of a message as the box of the receiver has. A box that
ends within the name is taken for no message. Otherwise the name is complete, and the
receiver decodes the struct and the arrays although they are not.
-/

namespace TrainsOs

namespace MsgBox

open Bytes

variable {m : Arith} {el : MsgType → ElemType} {ty v : MsgType} {variants : List MsgType}
  {N R : ℕ} {box box' : SendBox} {scalars : List UInt8} {as : List Attach}
  {stale : ℕ → UInt8} {order : MsgType → List Received}

/-- The memory from the start of a `RecvBox` of `R` bytes when the message in `box` is
delivered. -/
def delivered (box : SendBox) (R : ℕ) (stale : ℕ → UInt8) : ℕ → UInt8 :=
  fun j => if j < min R box.len then box.sendBuf j else stale j

/-- Whatever was in the memory of the receiver and however the fields are sorted, no message
is found or the one that was sent. -/
def Detected (m : Arith) (el : MsgType → ElemType) (variants : List MsgType) (ty : MsgType)
    (scalars : List UInt8) (as : List Attach) (R : ℕ) (box : SendBox) : Prop :=
  ∀ stale order, (∀ v ∈ variants, Sorts (order v) (v.received (delivered box R stale))) →
    recvEnumFromRecvBytes m el variants R (delivered box R stale) order = some none
      ∨ ∃ slices, recvEnumFromRecvBytes m el variants R (delivered box R stale) order
          = some (some (ty, slices))
        ∧ Decoded m ty (el ty) scalars as R (delivered box R stale) (order ty)

/-- What `k_mbox_copy_msg` leaves in the buffer of the receiver. -/
theorem delivered_kMboxCopyMsg {A : Type} (k : Kernel A) (receiver sender : TdPtr) (j : ℕ) :
  ((k.kMboxCopyMsg receiver sender).mem receiver).bytes ((k.td receiver).mailbox.inBuf + j)
    = delivered
        { len := (k.td sender).mailbox.outMsgLen
          sendBuf := fun j => (k.mem sender).bytes ((k.td sender).mailbox.outMsg + j) }
        (k.td receiver).mailbox.inBufLen
        (fun j => (k.mem receiver).bytes ((k.td receiver).mailbox.inBuf + j)) j
  := by
  simp [Kernel.kMboxCopyMsg, Kernel.modifyMem, utilMemcpy, delivered]

/-- A message that fits is delivered whole. -/
theorem delivered_of_le (h : box.len ≤ R) :
  delivered box R stale = deliver box stale
  := by
  funext j
  rw [delivered, deliver, min_eq_right h]

/-- Within the box it does not matter whether the rest of the message was cut off. -/
theorem delivered_eq_deliver {j : ℕ} (hj : j < R) :
  delivered box R stale j = deliver box stale j
  := by
  have hiff : j < min R box.len ↔ j < box.len := by omega
  rw [delivered, deliver]
  simp only [hiff]

/-- The fields that the receiver reads are in the struct. -/
theorem received_congr {buf buf' : ℕ → UInt8} (h : ∀ j < ty.base, buf' j = buf j) :
  ty.received buf' = ty.received buf
  := by
  apply List.map_congr_left
  intro o ho
  have hle := ty.field_le o ho
  rw [sizeofAttached] at hle
  rw [MsgType.base] at h
  rw [getU32_congr fun j _ hj => h j (by omega), getU32_congr fun j _ hj => h j (by omega)]

/-- The arrays that are attached fit into the box of the sender. -/
theorem Tight.attachAll {c c' : SendCtx} {t : ElemType} (hc : c.Tight N) (hN : N < 2 ^ 64)
    (h : as.foldlM (SendCtx.attach m ty t) c = some c') :
  c'.Tight N
  := by
  have hstep : ∀ (c : SendCtx) a c', c.Tight N → SendCtx.attach m ty t c a = some c' →
      c'.Tight N := by
    intro c a c' hc hattach
    exact (SendCtx.attach_spec hc hN hattach).1
  exact Run.foldlM_preserves hstep hc h

theorem len_le_of_send {t : ElemType} (hN : N < 2 ^ 64)
    (h : send m ty t box N scalars as = some box') :
  box'.len ≤ N
  := by
  obtain ⟨c, hnew, h⟩ := Option.bind_eq_some_iff.mp h
  obtain ⟨c', hall, h⟩ := Option.bind_eq_some_iff.mp h
  rw [SendCtx.new] at hnew
  split at hnew
  · cases hnew
  · rename_i hroom
    have htight : c.Tight N := by
      rw [← Option.some.inj hnew]
      constructor
      · rfl
      · exact Nat.sub_add_cancel (Nat.le_of_not_lt hroom)
    have hleft := (Tight.attachAll htight hN hall).left
    rw [← Option.some.inj h]
    omega

/-- The array that is attached last ends where the message ends. -/
theorem exists_mem_place (t : ElemType) (len : ℕ) (has : as ≠ []) :
  ∃ a ∈ place t len as, a.2 + a.1.contents.length = placeEnd t len as
  := by
  induction as generalizing len with
  | nil => exact absurd rfl has
  | cons a as ih =>
    by_cases hnil : as = []
    · subst hnil
      exact ⟨_, List.mem_singleton_self _, rfl⟩
    · obtain ⟨b, hb, hend⟩ := ih (alignUp len t.alignSft + a.contents.length) hnil
      exact ⟨b, List.mem_cons_of_mem _ hb, hend⟩

/-- The number of bytes that the receiver computes for an array. -/
theorem bytes_received {t : ElemType} {a : Attach × ℕ}
    (hlen : a.1.contents.length = a.1.cnt * t.size) (hlt : a.1.contents.length < 2 ^ 32) :
  (received a).bytes t = a.1.contents.length
  := by
  rw [Received.bytes, hlen]
  by_cases hsize : t.size = 0
  · rw [hsize, Nat.mul_zero, Nat.mul_zero]
  · have hcnt : a.1.cnt ≤ a.1.cnt * t.size := Nat.le_mul_of_pos_right _ (Nat.pos_of_ne_zero hsize)
    have hmod : (received a).cnt = a.1.cnt := Nat.mod_eq_of_lt (by omega)
    rw [hmod]

section Message

variable (hvariants : Variants variants)
  (hsame : ∀ v ∈ variants, v.typeName = ty.typeName → v = ty) (hzero : 0 ∉ ty.typeName)
  (hfields : (as.map Attach.field).Perm ty.fields) (hN : N < 2 ^ 31)
  (hsend : send m ty (el ty) box N scalars as = some box')

section Found

include hfields hN hsend

theorem base_le_len :
  ty.base ≤ box'.len
  := by
  obtain ⟨hlen, -⟩ := send_spec hfields (by omega) hsend
  rw [hlen]
  apply le_placeEnd

/-- The part of the name that is in the box. -/
theorem getBytes_delivered {n : ℕ} (hn : n ≤ ty.idLen) (hR : n ≤ R) :
  getBytes (delivered box' R stale) 0 n = ty.typeId.take n
  := by
  obtain ⟨-, -, hid, -⟩ := send_spec hfields (by omega) hsend
  have hbase := base_le_len hfields hN hsend
  rw [MsgType.base] at hbase
  have htake : getBytes box'.sendBuf 0 n = (getBytes box'.sendBuf 0 ty.idLen).take n := by
    apply List.IsPrefix.eq_of_length
    · apply List.prefix_of_prefix_length_le (getBytes_isPrefix hn) (List.take_prefix _ _)
      rw [List.length_take, length_getBytes, length_getBytes, min_eq_left hn]
    · rw [List.length_take, length_getBytes, length_getBytes, min_eq_left hn]
  rw [← hid, ← htake]
  apply getBytes_congr
  intro j _ hj
  apply if_pos
  omega

theorem getBytes_delivered_id (hR : ty.idLen ≤ R) :
  getBytes (delivered box' R stale) 0 ty.idLen = ty.typeId
  := by
  rw [getBytes_delivered hfields hN hsend (Nat.le_refl _) hR]
  exact List.take_of_length_le (length_typeId ty).le

include hvariants hsame hzero

/-- The message is found if the box holds its whole name, and no other one is. -/
theorem matchedVariant_delivered :
  matchedVariant variants R (delivered box' R stale) = some v ↔
    v = ty ∧ ty ∈ variants ∧ ty.idLen ≤ R
  := by
  rw [matchedVariant_eq_some_iff hvariants]
  constructor
  · rintro ⟨hv, hstart⟩
    by_cases hR : ty.idLen ≤ R
    · have hid : ty.typeId <+: getBytes (delivered box' R stale) 0 R := by
        rw [← getBytes_delivered_id hfields hN hsend hR]
        exact getBytes_isPrefix hR
      obtain rfl := hsame v hv (typeName_eq_of_isPrefix (hvariants.zero v hv) hzero hstart hid)
      exact ⟨rfl, hv, hR⟩
    · -- a name that begins the box would begin the name of the message
      rw [getBytes_delivered hfields hN hsend (Nat.le_of_not_le hR) (Nat.le_refl R)] at hstart
      have hlen := hstart.length_le
      rw [List.length_take, length_typeId, length_typeId] at hlen
      have hid := hstart.trans (List.take_prefix R ty.typeId)
      obtain rfl := hsame v hv
        (typeName_eq_of_isPrefix (hvariants.zero v hv) hzero hid List.prefix_rfl)
      omega
  · rintro ⟨rfl, hv, hR⟩
    use hv
    rw [← getBytes_delivered_id hfields hN hsend hR]
    exact getBytes_isPrefix hR

end Found

/-! ### A message that is cut off -/

section Cut

include hfields hN hsend

/-- If the name is complete and the message is not, a struct with arrays is not decoded. -/
theorem fromRecvBytes_cut (hid : ty.idLen ≤ R) (hlt : R < box'.len) (hty : ty.fields ≠ [])
    {sorted : List Received} (hsorts : Sorts sorted (ty.received (delivered box' R stale))) :
  fromRecvBytes m ty (el ty) R sorted = none
  := by
  obtain ⟨hlen, hcontents, -⟩ := send_spec hfields (by omega) hsend
  have hle := len_le_of_send (by omega) hsend
  by_cases hbase : ty.base ≤ R
  · by_contra hsome
    obtain ⟨slices, hslices⟩ := Option.ne_none_iff_exists'.mp hsome
    rw [fromRecvBytes_eq hty hbase (by omega)] at hslices
    obtain ⟨-, -, hbound⟩ := cutSlices_spec
      (fun x hx => word_of_mem_received (hsorts.perm.mem_iff.mp hx)) (by omega) hslices
    have has : as ≠ [] := by
      rintro rfl
      exact hty hfields.nil_eq.symm
    obtain ⟨a, ha, hend⟩ := exists_mem_place (el ty) ty.base has
    have hmem : received a ∈ sorted := by
      apply hsorts.perm.mem_iff.mpr
      rw [received_congr fun j hj => delivered_eq_deliver (Nat.lt_of_lt_of_le hj hbase)]
      apply (received_perm hfields (by omega) hsend).mem_iff.mpr
      exact List.mem_map_of_mem ha
    have hmem' : a.1 ∈ as := by
      rw [← map_fst_place (el ty) ty.base as]
      exact List.mem_map_of_mem ha
    have hidx : (received a).idx = a.2 := Nat.mod_eq_of_lt (by omega)
    obtain ⟨-, hend'⟩ := hbound _ hmem
    rw [hidx, bytes_received (hcontents _ hmem') (by omega)] at hend'
    omega
  · rw [MsgType.base] at hbase
    rw [fromRecvBytes, if_neg hty, if_pos]
    omega

include hvariants hsame hzero

/-- So the receiver panics. -/
theorem recvEnumFromRecvBytes_cut (hty : ty ∈ variants) (hid : ty.idLen ≤ R) (hlt : R < box'.len)
    (harrays : ty.fields ≠ [])
    (hsorts : Sorts (order ty) (ty.received (delivered box' R stale))) :
  recvEnumFromRecvBytes m el variants R (delivered box' R stale) order = none
  := by
  rw [recvEnumFromRecvBytes,
    (matchedVariant_delivered hvariants hsame hzero hfields hN hsend).mpr ⟨rfl, hty, hid⟩]
  dsimp only
  rw [fromRecvBytes_cut hfields hN hsend hid hlt harrays hsorts]
  rfl

/-- If the name is complete and the message is not, it is not detected: a struct with arrays
makes the receiver panic, and in one without arrays it reads what is behind its box. -/
theorem not_detected_cut (hty : ty ∈ variants) (hscalars : scalars.length = ty.size)
    (hid : ty.idLen ≤ R) (hlt : R < box'.len) :
  ¬ Detected m el variants ty scalars as R box'
  := by
  intro h
  -- a stale byte that the message does not have
  let stale : ℕ → UInt8 := fun _ => (scalars[R - ty.idLen]?).getD 0 + 1
  let order : MsgType → List Received := fun v =>
    (v.received (delivered box' R stale)).mergeSort fun a b => a.key (el v) ≤ b.key (el v)
  have horder : ∀ v, Sorts (order v) (v.received (delivered box' R stale)) :=
    fun v => (sorts_key (el v) _).1
  have hfound : matchedVariant variants R (delivered box' R stale) = some ty :=
    (matchedVariant_delivered hvariants hsame hzero hfields hN hsend).mpr ⟨rfl, hty, hid⟩
  obtain hnone | ⟨slices, -, hdecoded⟩ := h stale order fun v _ => horder v
  · rw [recvEnumFromRecvBytes, hfound] at hnone
    dsimp only at hnone
    cases hslices : fromRecvBytes m ty (el ty) R (order ty) with
    | none =>
      rw [hslices] at hnone
      cases hnone
    | some slices =>
      rw [hslices] at hnone
      cases hnone
  · by_cases hnil : ty.fields = []
    · obtain ⟨hlen, -⟩ := send_spec hfields (by omega) hsend
      rw [hnil, List.perm_nil, List.map_eq_nil_iff] at hfields
      rw [hfields, placeEnd, MsgType.base] at hlen
      have hj : R - ty.idLen < scalars.length := by omega
      have hread := hdecoded.scalars (R - ty.idLen) hj (by omega) (by rw [hnil]; simp)
      rw [Nat.add_sub_cancel' hid, delivered, if_neg (by omega)] at hread
      have hstale : stale R = scalars[R - ty.idLen] + 1 := by
        simp only [stale, List.getElem?_eq_getElem hj, Option.getD_some]
      rw [hstale] at hread
      exact absurd hread (by simp)
    · obtain ⟨slices', hslices, -⟩ := hdecoded.arrays
      rw [fromRecvBytes_cut hfields hN hsend hid hlt hnil (horder ty)] at hslices
      cases hslices

end Cut

include hvariants hsame hzero hfields hN hsend

/-- A message that fits is found and decoded. -/
theorem recvEnumFromRecvBytes_whole (hty : ty ∈ variants) (hlast : EmptyLast as)
    (hle : box'.len ≤ R) (hsorts : Sorts (order ty) (ty.received (delivered box' R stale))) :
  ∃ slices, recvEnumFromRecvBytes m el variants R (delivered box' R stale) order
      = some (some (ty, slices))
    ∧ fromRecvBytes m ty (el ty) R (order ty) = some slices
    ∧ Decoded m ty (el ty) scalars as R (delivered box' R stale) (order ty)
  := by
  have hlen := len_le_of_send (by omega) hsend
  have hbase := base_le_len hfields hN hsend
  rw [MsgType.base] at hbase
  have hfound : matchedVariant variants R (delivered box' R stale) = some ty :=
    (matchedVariant_delivered hvariants hsame hzero hfields hN hsend).mpr ⟨rfl, hty, by omega⟩
  have hdecoded : Decoded m ty (el ty) scalars as R (delivered box' R stale) (order ty) := by
    rw [delivered_of_le hle] at hsorts ⊢
    exact hlast.roundTrips hfields (by omega) hsend (by omega) R stale (order ty) hle hsorts
  obtain ⟨slices, hslices, -⟩ := hdecoded.arrays
  refine ⟨slices, ?_, hslices, hdecoded⟩
  rw [recvEnumFromRecvBytes, hfound]
  dsimp only
  rw [hslices]
  rfl

/-- For every message in a box of less than `2 ^ 31` bytes and every smaller box of a
receiver: no message or the complete message is found, without a panic, if and only if the
receiver does not know the message, or its box ends within the name, or the message fits
and the arrays without bytes are attached last. -/
theorem truncated_detected_iff (hscalars : scalars.length = ty.size) (hR : R < N) :
  Detected m el variants ty scalars as R box'
    ↔ ty ∉ variants ∨ R < ty.idLen ∨ (box'.len ≤ R ∧ EmptyLast as)
  := by
  have hfound : ∀ stale v, matchedVariant variants R (delivered box' R stale) = some v
      ↔ v = ty ∧ ty ∈ variants ∧ ty.idLen ≤ R :=
    fun stale v => matchedVariant_delivered hvariants hsame hzero hfields hN hsend
  have hnone : ∀ order : MsgType → List Received, ty ∉ variants ∨ R < ty.idLen → ∀ stale,
      recvEnumFromRecvBytes m el variants R (delivered box' R stale) order = some none := by
    intro order h stale
    cases hrecv : matchedVariant variants R (delivered box' R stale) with
    | none => rw [recvEnumFromRecvBytes, hrecv]
    | some v =>
      obtain ⟨-, hty, hid⟩ := (hfound stale v).mp hrecv
      obtain h | h := h
      · exact absurd hty h
      · exact absurd hid (Nat.not_le.mpr h)
  constructor
  · intro h
    by_contra hnot
    rw [not_or, not_or, not_not, not_lt] at hnot
    obtain ⟨hty, hid, hnot⟩ := hnot
    apply hnot
    have hle : box'.len ≤ R := by
      by_contra hlt
      exact not_detected_cut hvariants hsame hzero hfields hN hsend hty hscalars hid
        (Nat.lt_of_not_le hlt) h
    use hle
    have hdecoded : ∀ sorted, Sorts sorted (ty.received (deliver box' fun _ => 0)) →
        Decoded m ty (el ty) scalars as R (deliver box' fun _ => 0) sorted := by
      intro sorted hsorted
      rw [← delivered_of_le hle] at hsorted ⊢
      classical
      let order : MsgType → List Received := fun v =>
        if v = ty then sorted else
          (v.received (delivered box' R fun _ => 0)).mergeSort
            fun a b => a.key (el v) ≤ b.key (el v)
      have horder : order ty = sorted := if_pos rfl
      have hsorts : ∀ v ∈ variants, Sorts (order v) (v.received (delivered box' R fun _ => 0)) := by
        intro v _
        by_cases hv : v = ty
        · rw [hv, horder]
          exact hsorted
        · rw [show order v = _ from if_neg hv]
          exact (sorts_key (el v) _).1
      obtain hnone | ⟨slices, -, hdecoded⟩ := h (fun _ => 0) order hsorts
      · rw [recvEnumFromRecvBytes, (hfound _ ty).mpr ⟨rfl, hty, hid⟩] at hnone
        dsimp only at hnone
        obtain ⟨slices, -, hnone⟩ := Option.map_eq_some_iff.mp hnone
        cases hnone
      · rw [← horder]
        exact hdecoded
    exact emptyLast_of_decoded hfields (by omega) hsend hle (by omega) hdecoded
  · rintro (h | h | ⟨hle, hlast⟩)
    · exact fun stale order _ => Or.inl (hnone order (Or.inl h) stale)
    · exact fun stale order _ => Or.inl (hnone order (Or.inr h) stale)
    · intro stale order horder
      by_cases hty : ty ∈ variants
      · obtain ⟨slices, hrecv, -, hdecoded⟩ := recvEnumFromRecvBytes_whole hvariants hsame hzero
          hfields hN hsend hty hlast hle (horder ty hty)
        exact Or.inr ⟨slices, hrecv, hdecoded⟩
      · exact Or.inl (hnone order (Or.inl hty) stale)

end Message

/-! ### Two messages -/

/-- `GattServerPublishReq`: the arrays `name` and `bytes`. -/
def gattServerPublishReq : MsgType where
  typeName := "GattServerPublishReq".toUTF8.data.toList
  size := 48
  fields := [0, 24]
  field_le := twoArrays.field_le
  apart := twoArrays.apart

/-- What `Bogger::write_fmt` attaches for a text of `n` bytes: the name `Msg`, and the time with
the text. -/
def bogArrays (n : ℕ) : List Attach :=
  [⟨0, 3, [77, 115, 103], []⟩, ⟨24, n + 8, List.replicate (n + 8) 0, []⟩]

theorem fields_bogArrays (n : ℕ) :
  ((bogArrays n).map Attach.field).Perm gattServerPublishReq.fields
  := List.Perm.refl _

theorem variants_publish :
  Variants [gattServerPublishReq]
  := by
  constructor
  · decide
  · decide +kernel

/-- A text of one byte fits into the box of the server. -/
theorem truncated_detected_bog :
  ∃ box', send .wrapping gattServerPublishReq byteElem ⟨0, fun _ => 0⟩ 2048 (List.replicate 48 0)
      (bogArrays 1) = some box'
    ∧ Detected .wrapping (fun _ => byteElem) [gattServerPublishReq] gattServerPublishReq
      (List.replicate 48 0) (bogArrays 1) 1024 box'
  := by
  have hlen : (send .wrapping gattServerPublishReq byteElem ⟨0, fun _ => 0⟩ 2048
      (List.replicate 48 0) (bogArrays 1)).any (fun box' => box'.len = 84) = true := by
    decide +kernel
  obtain ⟨box', hsend, hlen⟩ := (Option.any_eq_true _ _).mp hlen
  rw [decide_eq_true_eq] at hlen
  have hiff : Detected .wrapping (fun _ => byteElem) [gattServerPublishReq] gattServerPublishReq
      (List.replicate 48 0) (bogArrays 1) 1024 box' ↔ _ :=
    truncated_detected_iff variants_publish (by simp) (by decide +kernel) (fields_bogArrays 1)
      (by decide) hsend List.length_replicate (by decide)
  refine ⟨box', hsend, hiff.mpr (Or.inr (Or.inr ⟨by omega, ?_⟩))⟩
  constructor
  · decide
  · apply List.pairwise_pair.mpr
    intro h
    cases h

/-- A text of 942 bytes does not: one byte of the message is cut off, and the server
panics. -/
theorem bog_not_detected :
  ∃ box', send .wrapping gattServerPublishReq byteElem ⟨0, fun _ => 0⟩ 2048 (List.replicate 48 0)
      (bogArrays 942) = some box'
    ∧ box'.len = 1025
    ∧ ¬ Detected .wrapping (fun _ => byteElem) [gattServerPublishReq] gattServerPublishReq
      (List.replicate 48 0) (bogArrays 942) 1024 box'
  := by
  have hlen : (send .wrapping gattServerPublishReq byteElem ⟨0, fun _ => 0⟩ 2048
      (List.replicate 48 0) (bogArrays 942)).any (fun box' => box'.len = 1025) = true := by
    decide +kernel
  obtain ⟨box', hsend, hlen⟩ := (Option.any_eq_true _ _).mp hlen
  rw [decide_eq_true_eq] at hlen
  have hnot : ¬ Detected .wrapping (fun _ => byteElem) [gattServerPublishReq] gattServerPublishReq
      (List.replicate 48 0) (bogArrays 942) 1024 box' :=
    not_detected_cut variants_publish (by simp) (by decide +kernel) (fields_bogArrays 942)
      (by decide) hsend (List.mem_singleton_self _) List.length_replicate (by decide +kernel)
      (by omega)
  exact ⟨box', hsend, hlen, hnot⟩

end MsgBox

end TrainsOs
