import TrainsOs.MsgBox.Encode
import Mathlib.Data.List.Chain
import Mathlib.Data.List.Pairwise
import Mathlib.Data.List.Nodup

/-!
# The round trip of a message

A message is decoded to what was sent if the sort puts every array in front of the arrays
that begin where it ends. Two arrays begin at the same offset when the first one has no
bytes, and the sort may put them in either order. So the round trip holds when the arrays
without bytes are attached last.
-/

namespace TrainsOs

namespace MsgBox

open Bytes

variable {m : Arith} {el : ElemType} {ty : MsgType} {N R : ℕ} {box box' : SendBox}
  {scalars : List UInt8} {as : List Attach} {stale : ℕ → UInt8} {order : List Received}

/-- Two members of a list are related one way or the other. -/
theorem related_of_pairwise {α : Type*} {r : α → α → Prop} {l : List α} (h : l.Pairwise r)
    {x y : α} (hx : x ∈ l) (hy : y ∈ l) (hne : x ≠ y) :
  r x y ∨ r y x
  := by
  induction h with
  | nil => cases hx
  | cons hhead _ ih =>
    obtain rfl | hx' := List.mem_cons.mp hx
    · obtain rfl | hy' := List.mem_cons.mp hy
      · exact absurd rfl hne
      · exact Or.inl (hhead y hy')
    · obtain rfl | hy' := List.mem_cons.mp hy
      · exact Or.inr (hhead x hx')
      · exact ih hx' hy'

/-- The message in the box of the receiver is the one that was sent. -/
structure Decoded (m : Arith) (ty : MsgType) (el : ElemType) (scalars : List UInt8)
    (as : List Attach) (R : ℕ) (buf : ℕ → UInt8) (order : List Received) : Prop where
  typeId : ty.isIn R buf = true
  scalars : ∀ j, ∀ hj : j < scalars.length, j < ty.size →
    (∀ o ∈ ty.fields, j < o ∨ o + sizeofAttached ≤ j) →
      buf (ty.idLen + j) = scalars.get ⟨j, hj⟩
  arrays : ∃ slices, fromRecvBytes m ty el R order = some slices ∧ ∀ a ∈ as, ∃ s ∈ slices,
    s.field = a.field ∧ s.cnt = a.cnt ∧ getBytes buf s.pos (s.cnt * el.size) = a.contents

/-- Whatever the box of the receiver held before, and in whichever order the sort puts the
fields. -/
def RoundTrips (m : Arith) (ty : MsgType) (el : ElemType) (scalars : List UInt8)
    (as : List Attach) (box : SendBox) : Prop :=
  ∀ R stale order, box.len ≤ R → Sorts order (ty.received (deliver box stale)) →
    Decoded m ty el scalars as R (deliver box stale) order

/-- If `a` has no bytes, then `b` has none. -/
def StaysEmpty (a b : Attach) : Prop :=
  a.contents = [] → b.contents = []

instance : Trans StaysEmpty StaysEmpty StaysEmpty where
  trans hab hbc ha := hbc (hab ha)

/-- The counts fit into the fields, and the arrays without bytes are attached last. -/
structure EmptyLast (as : List Attach) : Prop where
  cnt : ∀ a ∈ as, a.cnt < 2 ^ 32
  last : as.Pairwise StaysEmpty

/-! ### What is received -/

theorem inBox_deliver {buf : SendBox} {a : Attach × ℕ} (h : InBox ty buf.sendBuf a)
    (hfield : ty.idLen + a.1.field + sizeofAttached ≤ buf.len)
    (hend : a.2 + a.1.contents.length ≤ buf.len) :
  InBox ty (deliver buf stale) a
  := by
  apply h.congr
  · intro j _ hj
    exact if_pos (Nat.lt_of_lt_of_le hj hfield)
  · intro j _ hj
    exact if_pos (Nat.lt_of_lt_of_le hj hend)

/-- The arrays are in the box of the receiver. -/
theorem inBox_of_mem_place (hfields : (as.map Attach.field).Perm ty.fields) (hN : N < 2 ^ 64)
    (hsend : send m ty el box N scalars as = some box') {a : Attach × ℕ}
    (ha : a ∈ place el ty.base as) :
  InBox ty (deliver box' stale) a
  := by
  obtain ⟨hlen, -, -, -, hin⟩ := send_spec hfields hN hsend
  have hmem : a.1 ∈ as := by
    rw [← map_fst_place el ty.base as]
    exact List.mem_map_of_mem ha
  have hfield := ty.field_le _ (hfields.mem_iff.mp (List.mem_map_of_mem hmem))
  have hbase := le_placeEnd el ty.base as
  obtain ⟨-, hend⟩ := mem_place ha
  apply inBox_deliver (hin a ha)
  · rw [MsgType.base] at hbase hlen
    omega
  · rw [hlen]
    exact hend

/-- The fields that the receiver reads. -/
theorem received_perm (hfields : (as.map Attach.field).Perm ty.fields) (hN : N < 2 ^ 64)
    (hsend : send m ty el box N scalars as = some box') :
  (ty.received (deliver box' stale)).Perm ((place el ty.base as).map received)
  := by
  have hmap : (place el ty.base as).map received = (as.map Attach.field).map fun o =>
      { field := o
        idx := getU32 (deliver box' stale) (ty.idLen + o)
        cnt := getU32 (deliver box' stale) (ty.idLen + o + 4) } := by
    have hfst := map_fst_place el ty.base as
    rw [← hfst, List.map_map, List.map_map, hfst]
    apply List.map_congr_left
    intro a ha
    have hin : InBox ty (deliver box' stale) a := inBox_of_mem_place hfields hN hsend ha
    simp only [received, Function.comp_apply, hin.idx, hin.cnt]
  rw [hmap]
  exact (hfields.map _).symm

/-! ### The condition is enough -/

/-- An array that begins before another one ends before it begins. -/
theorem EmptyLast.le_of_le (h : EmptyLast as) {len : ℕ} {a b : Attach × ℕ}
    (ha : a ∈ place el len as) (hb : b ∈ place el len as) (hne : a ≠ b) (hle : a.2 ≤ b.2) :
  a.2 + a.1.contents.length ≤ b.2
  := by
  have hlast : (place el len as).Pairwise fun a b => StaysEmpty a.1 b.1 := by
    apply List.pairwise_map.mp
    rw [map_fst_place]
    exact h.last
  obtain ⟨hab, -⟩ | ⟨hba, hempty⟩ :=
    related_of_pairwise ((place_pairwise el len as).and hlast) ha hb hne
  · exact hab
  · -- both arrays begin at the same offset, so the one in front has no bytes
    have hb' : b.1.contents = [] := List.length_eq_zero_iff.mp (by omega)
    rw [hempty hb', List.length_nil]
    exact hle

/-- An array of the message, and its offset and bytes as the receiver computes them. -/
theorem received_spec (hcnt : ∀ a ∈ as, a.cnt < 2 ^ 32)
    (hcontents : ∀ a ∈ as, a.contents.length = a.cnt * el.size) {len : ℕ}
    (hlt : placeEnd el len as < 2 ^ 32) {a : Attach × ℕ} (ha : a ∈ place el len as) :
  (received a).idx = a.2 ∧ (received a).cnt = a.1.cnt
    ∧ (received a).bytes el = a.1.contents.length
  := by
  have hmem : a.1 ∈ as := by
    rw [← map_fst_place el len as]
    exact List.mem_map_of_mem ha
  have hend := (mem_place ha).2
  have hcnt' : (received a).cnt = a.1.cnt := Nat.mod_eq_of_lt (hcnt _ hmem)
  refine ⟨Nat.mod_eq_of_lt (by omega), hcnt', ?_⟩
  rw [Received.bytes, hcnt', hcontents _ hmem]

theorem EmptyLast.roundTrips (h : EmptyLast as)
    (hfields : (as.map Attach.field).Perm ty.fields) (hN : N < 2 ^ 64)
    (hsend : send m ty el box N scalars as = some box') (hlt : box'.len < 2 ^ 32) :
  RoundTrips m ty el scalars as box'
  := by
  intro R stale order hR hsorts
  obtain ⟨hlen, hcontents, htype, hscalars, -⟩ := send_spec hfields hN hsend
  have hbase : ty.base ≤ box'.len := by
    rw [hlen]
    apply le_placeEnd
  have hid : ty.idLen ≤ box'.len := by
    rw [MsgType.base] at hbase
    omega
  rw [hlen] at hlt
  have hmem : ∀ x ∈ order, ∃ a ∈ place el ty.base as, received a = x := by
    intro x hx
    exact List.mem_map.mp ((received_perm hfields hN hsend).mem_iff.mp
      (hsorts.perm.mem_iff.mp hx))
  constructor
  · have hget : getBytes (deliver box' stale) 0 ty.idLen = ty.typeId := by
      rw [← htype]
      apply getBytes_congr
      intro j _ hj
      exact if_pos (by omega)
    rw [MsgType.isIn, Bool.and_eq_true, decide_eq_true_eq, decide_eq_true_eq]
    exact ⟨by omega, hget⟩
  · intro j hj hsize hout
    rw [← hscalars j hj hsize hout]
    apply if_pos
    rw [MsgType.base] at hbase
    omega
  · by_cases hnil : ty.fields = []
    · rw [hnil, List.perm_nil, List.map_eq_nil_iff] at hfields
      refine ⟨[], if_pos hnil, ?_⟩
      rw [hfields]
      simp
    · have hcut : cutSlices m el order ty.base (R - ty.base) ty.base
          = some (order.map (Received.slice el)) := by
        apply cutSlices_of_before
        · exact fun x hx => word_of_mem_received (hsorts.perm.mem_iff.mp hx)
        · have hnodup : order.Nodup := by
            apply hsorts.perm.nodup_iff.mpr
            apply List.Nodup.of_map Received.field
            rw [MsgType.received, List.map_map]
            have hid : (Received.field ∘ fun o =>
                { field := o
                  idx := getU32 (deliver box' stale) (ty.idLen + o)
                  cnt := getU32 (deliver box' stale) (ty.idLen + o + 4) }) = id := rfl
            rw [hid, List.map_id]
            apply ty.apart.imp
            rintro o _ hout rfl
            rw [sizeofAttached] at hout
            omega
          apply (hsorts.sorted.and hnodup).imp_of_mem
          rintro x y hx hy ⟨hle, hne⟩
          obtain ⟨a, ha, rfl⟩ := hmem x hx
          obtain ⟨b, hb, rfl⟩ := hmem y hy
          obtain ⟨haidx, -, habytes⟩ := received_spec h.cnt hcontents hlt ha
          obtain ⟨hbidx, -⟩ := received_spec h.cnt hcontents hlt hb
          rw [haidx, hbidx] at hle
          rw [Before, haidx, hbidx, habytes]
          apply h.le_of_le ha hb _ hle
          rintro rfl
          exact hne rfl
        · intro x hx
          obtain ⟨a, ha, rfl⟩ := hmem x hx
          obtain ⟨hidx, -, hbytes⟩ := received_spec h.cnt hcontents hlt ha
          obtain ⟨hlow, hhigh⟩ := mem_place ha
          rw [hidx, hbytes]
          refine ⟨hlow, ?_, ?_⟩ <;> omega
      refine ⟨order.map (Received.slice el), ?_, ?_⟩
      · rw [fromRecvBytes_eq hnil (by omega) (by omega)]
        exact hcut
      · intro a ha
        rw [← map_fst_place el ty.base as] at ha
        obtain ⟨b, hb, rfl⟩ := List.mem_map.mp ha
        have hb' : received b ∈ order := by
          apply hsorts.perm.mem_iff.mpr
          apply (received_perm hfields hN hsend).mem_iff.mpr
          exact List.mem_map_of_mem hb
        obtain ⟨hidx, hcnt, hbytes⟩ := received_spec h.cnt hcontents hlt hb
        refine ⟨(received b).slice el, List.mem_map_of_mem hb', rfl, hcnt, ?_⟩
        rw [Received.bytes] at hbytes
        rw [Received.slice]
        dsimp only
        rw [hidx, hbytes]
        exact (inBox_of_mem_place hfields hN hsend hb).contents

/-! ### The condition is necessary -/

/-- An array begins where the one in front begins if that one has no bytes. -/
theorem place_chain (el : ElemType) (len : ℕ) (as : List Attach) :
  (place el len as).IsChain fun a b => a.1.contents = [] → b.2 = a.2
  := by
  induction as generalizing len with
  | nil => exact List.IsChain.nil
  | cons a as ih =>
    cases as with
    | nil => exact List.IsChain.singleton _
    | cons b as =>
      apply List.isChain_cons_cons.mpr
      constructor
      · intro hnil
        rw [hnil]
        apply alignUp_of_dvd
        apply dvd_alignUp
      · apply ih

/-- A key for which an array without bytes comes after the others that begin at the same
offset. -/
def Received.key (el : ElemType) (a : Received) : ℕ :=
  2 * a.idx + if a.bytes el = 0 then 1 else 0

/-- One of the orders that the sort may give. -/
theorem sorts_key (el : ElemType) (fields : List Received) :
  Sorts (fields.mergeSort fun a b => a.key el ≤ b.key el) fields
    ∧ (fields.mergeSort fun a b => a.key el ≤ b.key el).Pairwise
      fun a b => a.key el ≤ b.key el
  := by
  have hpair : (fields.mergeSort fun a b => a.key el ≤ b.key el).Pairwise
      fun a b => decide (a.key el ≤ b.key el) = true := by
    apply List.pairwise_mergeSort
    · intro a b c hab hbc
      simp only [decide_eq_true_eq] at *
      omega
    · intro a b
      simp only [Bool.or_eq_true, decide_eq_true_eq]
      omega
  have hpair := hpair.imp of_decide_eq_true
  refine ⟨⟨List.mergeSort_perm _ _, ?_⟩, hpair⟩
  apply hpair.imp
  intro a b hle
  rw [Received.key, Received.key] at hle
  split at hle <;> split at hle <;> omega

theorem emptyLast_of_decoded (hfields : (as.map Attach.field).Perm ty.fields)
    (hN : N < 2 ^ 64) (hsend : send m ty el box N scalars as = some box')
    (hle : box'.len ≤ R) (hlt : R < 2 ^ 31)
    (h : ∀ order, Sorts order (ty.received (deliver box' stale)) →
      Decoded m ty el scalars as R (deliver box' stale) order) :
  EmptyLast as
  := by
  obtain ⟨hlen, hcontents, -⟩ := send_spec hfields hN hsend
  have hbase : ty.base ≤ box'.len := by
    rw [hlen]
    apply le_placeEnd
  obtain ⟨hsorts, hkey⟩ := sorts_key el (ty.received (deliver box' stale))
  obtain ⟨-, -, slices, hslices, harrays⟩ := h _ hsorts
  have hperm := hsorts.perm.trans (received_perm hfields hN hsend)
  by_cases hnil : ty.fields = []
  · rw [hnil, List.perm_nil, List.map_eq_nil_iff] at hfields
    rw [hfields]
    exact ⟨by simp, List.Pairwise.nil⟩
  · rw [fromRecvBytes_eq hnil (hbase.trans hle) (by omega)] at hslices
    obtain ⟨rfl, hbefore, -⟩ := cutSlices_spec
      (fun x hx => word_of_mem_received (hsorts.perm.mem_iff.mp hx)) (by omega) hslices
    have hcnt : ∀ a ∈ as, a.cnt < 2 ^ 32 := by
      intro a ha
      obtain ⟨s, hs, -, hs', -⟩ := harrays a ha
      obtain ⟨x, hx, rfl⟩ := List.mem_map.mp hs
      rw [← hs']
      exact (word_of_mem_received (hsorts.perm.mem_iff.mp hx)).2
    use hcnt
    have hsame : ∀ a b, a ∈ place el ty.base as → b ∈ place el ty.base as →
        (a.1.contents = [] → b.2 = a.2) → StaysEmpty a.1 b.1 := by
      intro a b ha hb hab hempty
      by_contra hne
      rw [← List.length_eq_zero_iff] at hne
      rw [hlen] at hle
      obtain ⟨haidx, -, habytes⟩ := received_spec hcnt hcontents (by omega) ha
      obtain ⟨hbidx, -, hbbytes⟩ := received_spec hcnt hcontents (by omega) hb
      have hidx := hab hempty
      rw [hempty, List.length_nil] at habytes
      have hlt : (received b).key el < (received a).key el := by
        rw [Received.key, Received.key, if_pos habytes, if_neg (by omega)]
        omega
      have hne' : received a ≠ received b := by
        intro heq
        rw [heq] at hlt
        exact hlt.false
      obtain ⟨-, hle⟩ | ⟨hle, -⟩ := related_of_pairwise (hbefore.and hkey)
        (hperm.mem_iff.mpr (List.mem_map_of_mem ha))
        (hperm.mem_iff.mpr (List.mem_map_of_mem hb)) hne'
      · omega
      · rw [Before] at hle
        omega
    have hchain : (place el ty.base as).IsChain fun a b => StaysEmpty a.1 b.1 :=
      (place_chain el ty.base as).imp_of_mem_imp hsame
    rw [← List.isChain_iff_pairwise, ← map_fst_place el ty.base as, List.isChain_map]
    exact hchain

theorem emptyLast_of_roundTrips (hfields : (as.map Attach.field).Perm ty.fields)
    (hN : N < 2 ^ 64) (hsend : send m ty el box N scalars as = some box')
    (hlt : box'.len < 2 ^ 31) (h : RoundTrips m ty el scalars as box') :
  EmptyLast as
  := by
  exact emptyLast_of_decoded hfields hN hsend (Nat.le_refl _) hlt
    fun order hsorts => h _ (fun _ => 0) order (Nat.le_refl _) hsorts

/-! ### The round trip -/

/-- For every message of less than `2 ^ 31` bytes that can be built: it is decoded to what was
sent, whatever the box of the receiver held before and in whichever order the sort puts the
fields, if and only if the arrays without bytes are attached last. -/
theorem roundTrips_iff (hfields : (as.map Attach.field).Perm ty.fields) (hN : N < 2 ^ 64)
    (hsend : send m ty el box N scalars as = some box') (hlt : box'.len < 2 ^ 31) :
  RoundTrips m ty el scalars as box' ↔ EmptyLast as
  := by
  constructor
  · exact emptyLast_of_roundTrips hfields hN hsend hlt
  · intro h
    exact h.roundTrips hfields hN hsend (by omega)

/-- An array of one byte is attached, and then one without bytes. -/
theorem roundTrips_oneByte :
  ∃ box', send .wrapping twoArrays byteElem ⟨0, fun _ => 0⟩ 64 [] [⟨0, 1, [7], []⟩, ⟨24, 0, [], []⟩]
      = some box'
    ∧ RoundTrips .wrapping twoArrays byteElem [] [⟨0, 1, [7], []⟩, ⟨24, 0, [], []⟩] box'
  := by
  obtain ⟨box', hsend, hlen⟩ : ∃ box', send .wrapping twoArrays byteElem ⟨0, fun _ => 0⟩ 64 []
      [⟨0, 1, [7], []⟩, ⟨24, 0, [], []⟩] = some box' ∧ box'.len = 57 := ⟨_, rfl, rfl⟩
  have hfields : ([⟨0, 1, [7], []⟩, ⟨24, 0, [], []⟩].map Attach.field).Perm twoArrays.fields :=
    List.Perm.refl _
  refine ⟨box', hsend, ?_⟩
  apply (roundTrips_iff hfields (by decide) hsend (by omega)).mpr
  constructor
  · decide
  · apply List.pairwise_pair.mpr
    intro h
    cases h

/-- The second field is attached first, without bytes, and then the first one. A sort that
keeps the order of the fields puts the first one in front, and decoding panics. -/
theorem emptyFirst_not_roundTrips :
  ∃ box', send .wrapping twoArrays byteElem ⟨0, fun _ => 0⟩ 64 [] [⟨24, 0, [], []⟩, ⟨0, 1, [7], []⟩]
      = some box'
    ∧ box'.len = 57
    ∧ twoArrays.received (deliver box' fun _ => 0) = [⟨0, 56, 1⟩, ⟨24, 56, 0⟩]
    ∧ fromRecvBytes .checked twoArrays byteElem 57 [⟨0, 56, 1⟩, ⟨24, 56, 0⟩] = none
    ∧ fromRecvBytes .wrapping twoArrays byteElem 57 [⟨0, 56, 1⟩, ⟨24, 56, 0⟩] = none
    ∧ ¬ RoundTrips .wrapping twoArrays byteElem [] [⟨24, 0, [], []⟩, ⟨0, 1, [7], []⟩] box'
  := by
  obtain ⟨box', hsend, hlen, hreceived⟩ : ∃ box', send .wrapping twoArrays byteElem ⟨0, fun _ => 0⟩
      64 [] [⟨24, 0, [], []⟩, ⟨0, 1, [7], []⟩] = some box' ∧ box'.len = 57
      ∧ twoArrays.received (deliver box' fun _ => 0) = [⟨0, 56, 1⟩, ⟨24, 56, 0⟩] :=
    ⟨_, rfl, rfl, rfl⟩
  have hnone : fromRecvBytes .wrapping twoArrays byteElem 57 [⟨0, 56, 1⟩, ⟨24, 56, 0⟩] = none := rfl
  refine ⟨box', hsend, hlen, hreceived, rfl, hnone, ?_⟩
  intro h
  have hsorts : Sorts [⟨0, 56, 1⟩, ⟨24, 56, 0⟩]
      (twoArrays.received (deliver box' fun _ => 0)) := by
    rw [hreceived]
    constructor
    · exact List.Perm.refl _
    · simp
  obtain ⟨-, -, slices, hslices, -⟩ := h 57 (fun _ => 0) _ hlen.le hsorts
  rw [hnone] at hslices
  cases hslices

end MsgBox

end TrainsOs
