import TrainsOs.MsgBox.Decode

/-!
# What the sender puts into the box

Each array is attached at the next multiple of the alignment, its offset and its count are
written into its field of the struct, and its elements after everything that is already in
the box. So at the end all of it is in the box.
-/

namespace TrainsOs

namespace MsgBox

open Bytes

variable {m : Arith} {el : ElemType} {ty : MsgType} {N : ℕ}

/-- The arrays with their offsets, when the box is filled up to `len`. -/
def place (el : ElemType) : ℕ → List Attach → List (Attach × ℕ)
  | _, [] => []
  | len, a :: as =>
      (a, alignUp len el.alignSft)
        :: place el (alignUp len el.alignSft + a.contents.length) as

/-- The length of the box after the arrays are attached. -/
def placeEnd (el : ElemType) : ℕ → List Attach → ℕ
  | len, [] => len
  | len, a :: as => placeEnd el (alignUp len el.alignSft + a.contents.length) as

/-- What the receiver reads in the field of an array. -/
def received (a : Attach × ℕ) : Received where
  field := a.1.field
  idx := a.2 % 2 ^ 32
  cnt := a.1.cnt % 2 ^ 32

theorem map_fst_place (el : ElemType) (len : ℕ) (as : List Attach) :
  (place el len as).map Prod.fst = as
  := by
  induction as generalizing len with
  | nil => rfl
  | cons a as ih => rw [place, List.map_cons, ih]

theorem le_placeEnd (el : ElemType) (len : ℕ) (as : List Attach) :
  len ≤ placeEnd el len as
  := by
  induction as generalizing len with
  | nil => apply Nat.le_refl
  | cons a as ih =>
    have hle := le_alignUp len el.alignSft
    have hrest := ih (alignUp len el.alignSft + a.contents.length)
    rw [placeEnd]
    omega

/-- The arrays lie between the two ends. -/
theorem mem_place {len : ℕ} {as : List Attach} {a : Attach × ℕ} (ha : a ∈ place el len as) :
  len ≤ a.2 ∧ a.2 + a.1.contents.length ≤ placeEnd el len as
  := by
  induction as generalizing len with
  | nil => cases ha
  | cons b as ih =>
    have hle := le_alignUp len el.alignSft
    have hrest := le_placeEnd el (alignUp len el.alignSft + b.contents.length) as
    rw [placeEnd]
    obtain rfl | ha := List.mem_cons.mp ha
    · exact ⟨hle, hrest⟩
    · obtain ⟨hlow, hhigh⟩ := ih ha
      constructor <;> omega

/-- An array ends before the next one begins. -/
theorem place_pairwise (el : ElemType) (len : ℕ) (as : List Attach) :
  (place el len as).Pairwise fun a b => a.2 + a.1.contents.length ≤ b.2
  := by
  induction as generalizing len with
  | nil => exact List.Pairwise.nil
  | cons a as ih =>
    apply List.pairwise_cons.mpr
    use fun b hb => (mem_place hb).1
    apply ih

/-- The length of the box is the position of the bytes that are left. -/
structure SendCtx.Tight (c : SendCtx) (N : ℕ) : Prop where
  pos : c.pos = c.box.len
  left : c.left + c.box.len = N

/-- What attaching one array does. -/
theorem SendCtx.attach_spec {c c' : SendCtx} {a : Attach} (hc : c.Tight N) (hN : N < 2 ^ 64)
    (h : c.attach m ty el a = some c') :
  c'.Tight N ∧ c'.box.len = alignUp c.box.len el.alignSft + a.contents.length
    ∧ a.contents.length = a.cnt * el.size
    ∧ c'.box.sendBuf = putBytes (putBytes c.box.sendBuf (ty.idLen + a.field)
        (u32Bytes (alignUp c.box.len el.alignSft % 2 ^ 32) ++ u32Bytes (a.cnt % 2 ^ 32)
          ++ a.ptr.take 16)) (alignUp c.box.len el.alignSft) a.contents
  := by
  obtain ⟨r, hr, h⟩ := Option.bind_eq_some_iff.mp h
  obtain ⟨⟨c₁, arr⟩, rfl, h⟩ := Option.bind_eq_some_iff.mp h
  obtain ⟨⟨hlen, hbytes⟩, h⟩ := Option.ite_none_right_eq_some.mp h
  have hle := le_alignUp c.box.len el.alignSft
  have hleft := hc.left
  rw [hlen] at hbytes
  rw [attachArray, attachSized, Arith.mul_of_lt hbytes] at hr
  simp only [Option.bind_eq_bind, Option.bind_some] at hr
  obtain ⟨need, hneed, hr⟩ := Option.bind_eq_some_iff.mp hr
  split at hr
  · cases hr
  split at hr
  · cases hr
  split at hr
  · cases hr
  -- the array fits, so that the sum has not wrapped
  rw [Arith.add_of_lt (by omega)] at hneed
  obtain rfl := Option.some.inj hneed
  simp only [Option.some.injEq, Prod.mk.injEq] at hr
  obtain ⟨rfl, rfl⟩ := hr
  have hend : c.box.len + (alignUp c.box.len el.alignSft - c.box.len + a.cnt * el.size)
      = alignUp c.box.len el.alignSft + a.cnt * el.size := by omega
  have hpos : c.pos + (alignUp c.box.len el.alignSft - c.box.len)
      = alignUp c.box.len el.alignSft := by
    rw [hc.pos]
    omega
  obtain rfl := Option.some.inj h
  refine ⟨⟨?_, ?_⟩, ?_, hlen, ?_⟩
  · simp only [setField, write]
    rw [hend, hpos]
  · simp only [setField, write]
    omega
  · simp only [setField, write]
    rw [hend, hlen]
  · simp only [setField, write]
    rw [hend, hpos, Nat.add_sub_cancel]

/-- The array and its field are in the box. -/
structure InBox (ty : MsgType) (buf : ℕ → UInt8) (a : Attach × ℕ) : Prop where
  idx : getU32 buf (ty.idLen + a.1.field) = a.2 % 2 ^ 32
  cnt : getU32 buf (ty.idLen + a.1.field + 4) = a.1.cnt % 2 ^ 32
  contents : getBytes buf a.2 a.1.contents.length = a.1.contents

theorem InBox.congr {buf buf' : ℕ → UInt8} {a : Attach × ℕ} (h : InBox ty buf a)
    (hfield : ∀ j, ty.idLen + a.1.field ≤ j → j < ty.idLen + a.1.field + sizeofAttached →
      buf' j = buf j)
    (hcontents : ∀ j, a.2 ≤ j → j < a.2 + a.1.contents.length → buf' j = buf j) :
  InBox ty buf' a
  := by
  rw [sizeofAttached] at hfield
  constructor
  · rw [getU32_congr fun j hj hlt => hfield j hj (by omega)]
    exact h.idx
  · rw [getU32_congr fun j hj hlt => hfield j (by omega) (by omega)]
    exact h.cnt
  · rw [getBytes_congr hcontents]
    exact h.contents

/-- An array that is attached is in the box. -/
theorem inBox_put (buf : ℕ → UInt8) {a : Attach} {pos : ℕ}
    (hpos : ty.idLen + a.field + sizeofAttached ≤ pos) :
  InBox ty (putBytes (putBytes buf (ty.idLen + a.field)
      (u32Bytes (pos % 2 ^ 32) ++ u32Bytes (a.cnt % 2 ^ 32) ++ a.ptr.take 16)) pos a.contents)
    (a, pos)
  := by
  rw [sizeofAttached] at hpos
  have hlen :
      8 ≤ (u32Bytes (pos % 2 ^ 32) ++ u32Bytes (a.cnt % 2 ^ 32) ++ a.ptr.take 16).length := by
    rw [List.length_append]
    exact Nat.le_add_right 8 _
  constructor
  · have hget := @getBytes_putBytes buf _ (ty.idLen + a.field) 4 0
      (Nat.le_trans (by decide) hlen)
    rw [getU32_of_getBytes (n := pos % 2 ^ 32), Nat.mod_mod]
    rw [getBytes_putBytes_of_disjoint (by dsimp only; omega)]
    exact hget
  · have hget := @getBytes_putBytes buf _ (ty.idLen + a.field) 4 4 hlen
    rw [getU32_of_getBytes (n := a.cnt % 2 ^ 32), Nat.mod_mod]
    rw [getBytes_putBytes_of_disjoint (by dsimp only; omega)]
    exact hget
  · exact getBytes_putBytes_self

/-- What attaching all arrays does. -/
theorem attachAll_spec {c c' : SendCtx} {as : List Attach} (hc : c.Tight N) (hN : N < 2 ^ 64)
    (hbase : ty.base ≤ c.box.len) (hfields : ∀ a ∈ as, a.field + sizeofAttached ≤ ty.size)
    (hapart : as.Pairwise fun a b =>
      a.field + sizeofAttached ≤ b.field ∨ b.field + sizeofAttached ≤ a.field)
    (h : as.foldlM (SendCtx.attach m ty el) c = some c') :
  c'.box.len = placeEnd el c.box.len as ∧ (∀ a ∈ as, a.contents.length = a.cnt * el.size)
    ∧ (∀ j < c.box.len, (∀ a ∈ as, j < ty.idLen + a.field
        ∨ ty.idLen + a.field + sizeofAttached ≤ j) → c'.box.sendBuf j = c.box.sendBuf j)
    ∧ ∀ a ∈ place el c.box.len as, InBox ty c'.box.sendBuf a
  := by
  induction as generalizing c with
  | nil =>
    obtain rfl := Option.some.inj h
    exact ⟨rfl, by simp, fun _ _ _ => rfl, by simp [place]⟩
  | cons a as ih =>
    rw [List.foldlM_cons] at h
    obtain ⟨c₁, hc₁, h⟩ := Option.bind_eq_some_iff.mp h
    rw [List.forall_mem_cons] at hfields
    rw [List.pairwise_cons] at hapart
    obtain ⟨htight, hlen, hcontents, hbuf⟩ := SendCtx.attach_spec hc hN hc₁
    have hle := le_alignUp c.box.len el.alignSft
    obtain ⟨hend, hall, hframe, hin⟩ := ih htight (by omega) hfields.2 hapart.2 h
    have hbase' : ty.idLen + a.field + sizeofAttached ≤ alignUp c.box.len el.alignSft := by
      have hfield := hfields.1
      rw [MsgType.base] at hbase
      omega
    refine ⟨?_, ?_, ?_, ?_⟩
    · rw [hend, hlen, placeEnd]
    · exact List.forall_mem_cons.mpr ⟨hcontents, hall⟩
    · intro j hj hout
      rw [List.forall_mem_cons] at hout
      rw [hframe j (by omega) hout.2, hbuf, putBytes_of_disjoint (by omega)]
      apply putBytes_of_disjoint
      have hout := hout.1
      rw [sizeofAttached] at hout
      simp only [List.length_append, List.length_take, u32Bytes, List.length_cons,
        List.length_nil]
      omega
    · intro b hb
      obtain rfl | hb := List.mem_cons.mp hb
      · have hput := inBox_put c.box.sendBuf hbase'
        rw [← hbuf] at hput
        apply hput.congr
        · intro j hj hlt
          apply hframe j (by dsimp only at hlt; omega)
          intro b hb
          have hfield := hapart.1 b hb
          dsimp only at hj hlt
          omega
        · intro j hj hlt
          dsimp only at hj hlt
          apply hframe j (by omega)
          intro b hb
          have hfield := hfields.2 b hb
          rw [MsgType.base] at hbase
          omega
      · rw [← hlen] at hb
        exact hin b hb

theorem length_typeId (ty : MsgType) :
  ty.typeId.length = ty.idLen
  := by
  have hle : ty.typeName.length ≤ ty.idLen := by
    rw [MsgType.idLen, alignDown_eq]
    omega
  rw [MsgType.typeId, List.length_append, List.length_replicate, Nat.add_sub_cancel' hle]

/-- The box after all arrays are attached. -/
theorem send_spec {box box' : SendBox} {scalars : List UInt8} {as : List Attach}
    (hfields : (as.map Attach.field).Perm ty.fields) (hN : N < 2 ^ 64)
    (h : send m ty el box N scalars as = some box') :
  box'.len = placeEnd el ty.base as ∧ (∀ a ∈ as, a.contents.length = a.cnt * el.size)
    ∧ getBytes box'.sendBuf 0 ty.idLen = ty.typeId
    ∧ (∀ j, ∀ hj : j < scalars.length, j < ty.size →
      (∀ o ∈ ty.fields, j < o ∨ o + sizeofAttached ≤ j) →
        box'.sendBuf (ty.idLen + j) = scalars.get ⟨j, hj⟩)
    ∧ ∀ a ∈ place el ty.base as, InBox ty box'.sendBuf a
  := by
  obtain ⟨c, hnew, h⟩ := Option.bind_eq_some_iff.mp h
  obtain ⟨c', hall, h⟩ := Option.bind_eq_some_iff.mp h
  obtain rfl := Option.some.inj h
  rw [SendCtx.new] at hnew
  split at hnew
  · cases hnew
  rename_i hroom
  obtain rfl := Option.some.inj hnew
  have hmem : ∀ a ∈ as, a.field ∈ ty.fields :=
    fun a ha => hfields.mem_iff.mp (List.mem_map_of_mem ha)
  have hapart : (as.map Attach.field).Pairwise fun o o' =>
      o + sizeofAttached ≤ o' ∨ o' + sizeofAttached ≤ o :=
    (hfields.pairwise_iff Or.symm).mpr ty.apart
  have htight : SendCtx.Tight
      { box :=
          { len := ty.base
            sendBuf := putBytes (putBytes box.sendBuf 0 ty.typeId) ty.idLen
              (scalars.take ty.size) }
        pos := ty.base
        left := N - ty.base } N := by
    constructor
    · rfl
    · exact Nat.sub_add_cancel (Nat.le_of_not_lt hroom)
  obtain ⟨hlen, hcontents, hframe, hin⟩ := attachAll_spec htight hN (Nat.le_refl _)
    (fun a ha => ty.field_le _ (hmem a ha)) (List.pairwise_map.mp hapart) hall
  dsimp only at hlen hframe hin
  refine ⟨hlen, hcontents, ?_, ?_, hin⟩
  · rw [getBytes_congr (m := putBytes box.sendBuf 0 ty.typeId)]
    · rw [← length_typeId]
      exact getBytes_putBytes_self
    · intro j _ hj
      have hlt : j < ty.idLen := by omega
      rw [hframe j (by rw [MsgType.base]; omega) (fun a _ => by omega)]
      apply putBytes_of_disjoint
      left
      exact hlt
  · intro j hj hsize hout
    rw [hframe _ (by rw [MsgType.base]; omega)]
    · have htake : j < (scalars.take ty.size).length := by
        rw [List.length_take]
        omega
      rw [putBytes_add htake, List.getElem_take]
      rfl
    · intro a ha
      have hfield := hout _ (hmem a ha)
      omega

end MsgBox

end TrainsOs
