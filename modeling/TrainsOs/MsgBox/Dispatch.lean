import TrainsOs.MsgBox.RoundTrip
import Mathlib.Data.List.TakeWhile

/-!
# Which message is in a box

For an enum of messages `msgbox_macro` generates a match on the box: each variant has a
pattern, its name with its padding, and the first pattern that matches decides. No name has
a zero in it and each has one after it, so that the name can be read off the box, and at
most one of the patterns matches.
-/

namespace TrainsOs

namespace MsgBox

open Bytes

variable {m : Arith} {el : MsgType → ElemType} {ty v w : MsgType} {variants : List MsgType}
  {N R : ℕ} {buf : ℕ → UInt8} {order : MsgType → List Received}

/-- `type_to_msg_id`: the bytes of the pattern, in front of `data @ ..`. -/
def typeToMsgId (input : List UInt8) : List UInt8 :=
  let totalLen := alignDown (input.length + 8) 3
  let nullLen := totalLen - input.length
  input ++ List.replicate nullLen 0

/-- Whether the box of `R` bytes matches the pattern. -/
def matchesId (id : List UInt8) (R : ℕ) (buf : ℕ → UInt8) : Bool :=
  id.length ≤ R && getBytes buf 0 id.length = id

/-- The match of `RecvEnumTrait::from_recv_bytes`: the first variant whose pattern matches. -/
def matchedVariant (variants : List MsgType) (R : ℕ) (buf : ℕ → UInt8) : Option MsgType :=
  variants.find? fun v => matchesId (typeToMsgId v.typeName) R buf

/-- The variants of an enum: different names, without zeros. -/
structure Variants (variants : List MsgType) : Prop where
  distinct : (variants.map MsgType.typeName).Nodup
  zero : ∀ v ∈ variants, 0 ∉ v.typeName

theorem Variants.perm {variants' : List MsgType} (h : Variants variants)
    (hperm : variants'.Perm variants) :
  Variants variants'
  := by
  constructor
  · exact (hperm.map _).nodup_iff.mpr h.distinct
  · exact fun v hv => h.zero v (hperm.mem_iff.mp hv)

/-- A variant is known by its name. -/
theorem Variants.eq_of_typeName (h : Variants variants) (hv : v ∈ variants) (hw : w ∈ variants)
    (hname : v.typeName = w.typeName) :
  v = w
  := List.inj_on_of_nodup_map h.distinct hv hw hname

/-- The sender and the receiver agree on the padding. -/
theorem typeToMsgId_eq (ty : MsgType) :
  typeToMsgId ty.typeName = ty.typeId
  := rfl

theorem length_lt_idLen (ty : MsgType) :
  ty.typeName.length < ty.idLen
  := by
  rw [MsgType.idLen, alignDown_eq]
  omega

/-- The name is what comes before the first zero. -/
theorem takeWhile_typeId {l : List UInt8} (hzero : 0 ∉ ty.typeName) (h : ty.typeId <+: l) :
  l.takeWhile (· ≠ 0) = ty.typeName
  := by
  obtain ⟨rest, rfl⟩ := h
  have hpad : ty.idLen - ty.typeName.length = ty.idLen - ty.typeName.length - 1 + 1 := by
    have hlt := length_lt_idLen ty
    omega
  have hname : ∀ x ∈ ty.typeName, decide (x ≠ 0) = true := by
    intro x hx
    rw [decide_eq_true_eq]
    rintro rfl
    exact hzero hx
  rw [MsgType.typeId, List.append_assoc, List.takeWhile_append_of_pos hname, hpad,
    List.replicate_succ, List.cons_append, List.takeWhile_cons_of_neg (by simp), List.append_nil]

/-- No padded name is the beginning of another one, nor do two begin the same box. -/
theorem typeName_eq_of_isPrefix {l : List UInt8} (hv : 0 ∉ v.typeName) (hw : 0 ∉ w.typeName)
    (hvl : v.typeId <+: l) (hwl : w.typeId <+: l) :
  v.typeName = w.typeName
  := by rw [← takeWhile_typeId hv hvl, takeWhile_typeId hw hwl]

theorem getBytes_isPrefix {n : ℕ} (hn : n ≤ R) :
  getBytes buf 0 n <+: getBytes buf 0 R
  := by
  rw [← Nat.add_sub_cancel' hn, getBytes_append]
  apply List.prefix_append

theorem matchesId_iff {id : List UInt8} :
  matchesId id R buf = true ↔ id <+: getBytes buf 0 R
  := by
  rw [matchesId, Bool.and_eq_true, decide_eq_true_eq, decide_eq_true_eq]
  constructor
  · rintro ⟨hlen, hbytes⟩
    rw [← hbytes]
    exact getBytes_isPrefix hlen
  · intro h
    have hlen := h.length_le
    rw [length_getBytes] at hlen
    refine ⟨hlen, ?_⟩
    have htake := List.prefix_of_prefix_length_le (getBytes_isPrefix hlen) h
      (by rw [length_getBytes])
    exact htake.eq_of_length length_getBytes

theorem matchedVariant_eq_none_iff :
  matchedVariant variants R buf = none ↔ ¬ ∃ v ∈ variants, v.typeId <+: getBytes buf 0 R
  := by
  simp only [matchedVariant, List.find?_eq_none, matchesId_iff, typeToMsgId_eq, not_exists, not_and]

/-- The variant that is found is the one whose name begins the box. -/
theorem matchedVariant_eq_some_iff (h : Variants variants) :
  matchedVariant variants R buf = some ty ↔ ty ∈ variants ∧ ty.typeId <+: getBytes buf 0 R
  := by
  constructor
  · intro hfind
    have htrue := List.find?_some hfind
    rw [matchesId_iff, typeToMsgId_eq] at htrue
    exact ⟨List.mem_of_find?_eq_some hfind, htrue⟩
  · rintro ⟨hmem, hstart⟩
    cases hfind : matchedVariant variants R buf with
    | none => exact absurd ⟨ty, hmem, hstart⟩ (matchedVariant_eq_none_iff.mp hfind)
    | some v =>
      have htrue := List.find?_some hfind
      rw [matchesId_iff, typeToMsgId_eq] at htrue
      have hv := List.mem_of_find?_eq_some hfind
      rw [h.eq_of_typeName hv hmem
        (typeName_eq_of_isPrefix (h.zero v hv) (h.zero ty hmem) htrue hstart)]

/-- What `SendCtx::new` puts in front of the struct. -/
theorem typeId_new {box : SendBox} {dflt : List UInt8} {c : SendCtx}
    (h : (SendCtx.new box N ty dflt).2 = some c) :
  getBytes c.box.sendBuf 0 ty.idLen = ty.typeId
  := by
  rw [SendCtx.new] at h
  split at h
  · cases h
  · rw [← Option.some.inj h, getBytes_putBytes_of_disjoint (Or.inl (Nat.zero_add _).le)]
    rw [← length_typeId]
    exact getBytes_putBytes_self

/-! ### The decoder of the variant -/

/-- `RecvEnumTrait::from_recv_bytes`: `some none` is `None`. The fields of the struct `v` are
sorted to `order v`. -/
def recvEnumFromRecvBytes (m : Arith) (el : MsgType → ElemType) (variants : List MsgType)
    (R : ℕ) (buf : ℕ → UInt8) (order : MsgType → List Received) :
    Option (Option (MsgType × List Slice)) :=
  match matchedVariant variants R buf with
  | none => some none
  | some v => (fromRecvBytes m v (el v) R (order v)).map fun slices => some (v, slices)

/-- The message is decoded as the variant `T`. -/
def DecodedAs (m : Arith) (el : MsgType → ElemType) (variants : List MsgType) (T : MsgType)
    (R : ℕ) (buf : ℕ → UInt8) (order : MsgType → List Received) : Prop :=
  ∃ slices, recvEnumFromRecvBytes m el variants R buf order = some (some (T, slices))

/-- The bytes of `T::default()`: in an `AttachedArray::default()` both `idx` and `cnt` are
zero. -/
def IsDefault (ty : MsgType) (dflt : List UInt8) : Prop :=
  ∀ o ∈ ty.fields, (dflt.drop o).take 8 = List.replicate 8 0

theorem recvEnumFromRecvBytes_of_none (h : matchedVariant variants R buf = none) :
  recvEnumFromRecvBytes m el variants R buf order = some none
  := by rw [recvEnumFromRecvBytes, h]

/-- A box that begins with the padded name of a variant is given to the decoder of this
variant. -/
theorem recvEnumFromRecvBytes_of_isPrefix (h : Variants variants) (hv : v ∈ variants)
    (hstart : v.typeId <+: getBytes buf 0 R) :
  recvEnumFromRecvBytes m el variants R buf order
    = (fromRecvBytes m v (el v) R (order v)).map fun slices => some (v, slices)
  := by rw [recvEnumFromRecvBytes, (matchedVariant_eq_some_iff h).mpr ⟨hv, hstart⟩]

/-- It is decoded as this variant if the decoder does not panic. -/
theorem decodedAs_iff_ne_none (h : Variants variants) (hv : v ∈ variants)
    (hstart : v.typeId <+: getBytes buf 0 R) :
  DecodedAs m el variants v R buf order ↔ fromRecvBytes m v (el v) R (order v) ≠ none
  := by
  rw [DecodedAs, recvEnumFromRecvBytes_of_isPrefix h hv hstart, Option.ne_none_iff_exists']
  constructor
  · rintro ⟨slices, hslices⟩
    obtain ⟨slices', hslices', -⟩ := Option.map_eq_some_iff.mp hslices
    exact ⟨slices', hslices'⟩
  · rintro ⟨slices, hslices⟩
    use slices
    rw [hslices, Option.map_some]

/-- What `SendCtx::new` puts into the fields of the struct. -/
theorem idx_new {box : SendBox} {dflt : List UInt8} {c : SendCtx} {o : ℕ}
    (h : (SendCtx.new box N ty dflt).2 = some c) (hdflt : IsDefault ty dflt)
    (ho : o ∈ ty.fields) :
  getU32 c.box.sendBuf (ty.idLen + o) = 0
  := by
  have hzero := hdflt o ho
  have hsize := ty.field_le o ho
  rw [sizeofAttached] at hsize
  have hlen := congrArg List.length hzero
  rw [List.length_take, List.length_drop, List.length_replicate] at hlen
  have hword : ((dflt.take ty.size).drop o).take 4 = u32Bytes 0 := by
    rw [List.drop_take, List.take_take, min_eq_left (by omega)]
    calc (dflt.drop o).take 4 = ((dflt.drop o).take 8).take 4 := by rw [List.take_take]; rfl
      _ = u32Bytes 0 := by rw [hzero]; rfl
  rw [SendCtx.new] at h
  split at h
  · cases h
  · rw [← Option.some.inj h, getU32_of_getBytes (n := 0), Nat.zero_mod]
    rw [getBytes_putBytes (by rw [List.length_take]; omega)]
    exact hword

/-- For every enum: a box that begins with the name that `SendCtx::new` writes for a variant
is given to the decoder of this variant, in whichever order the variants are declared. A
struct without arrays is always decoded, one with arrays if and only if the fields describe
arrays that follow one another in the box; they do not when `SendCtx::new` has just made the
struct. A box that begins with no padded name of a variant is decoded as none, and the
paddings of the sender and of the pattern have the same length. -/
theorem recvEnumFromRecvBytes_unambiguous (m : Arith) (el : MsgType → ElemType)
    (h : Variants variants) :
  (∀ T ∈ variants, ∀ box N dflt c, (SendCtx.new box N T dflt).2 = some c →
    ∀ variants', variants'.Perm variants → ∀ R buf order, T.base ≤ R →
      Sorts (order T) (T.received buf) →
      getBytes buf 0 T.idLen = getBytes c.box.sendBuf 0 T.idLen →
        recvEnumFromRecvBytes m el variants' R buf order
            = (fromRecvBytes m T (el T) R (order T)).map (fun slices => some (T, slices))
          ∧ (T.fields = [] → DecodedAs m el variants' T R buf order)
          ∧ (R < 2 ^ 31 → (DecodedAs m el variants' T R buf order
            ↔ T.fields = [] ∨ Chained (el T) T.base R (order T)))
          ∧ (getBytes buf 0 T.base = getBytes c.box.sendBuf 0 T.base → IsDefault T dflt →
            R < 2 ^ 31 → T.fields ≠ [] →
              recvEnumFromRecvBytes m el variants' R buf order = none))
    ∧ (∀ R buf order, (∀ v ∈ variants, ¬ v.typeId <+: getBytes buf 0 R) →
      recvEnumFromRecvBytes m el variants R buf order = some none)
    ∧ ∀ T : MsgType, (typeToMsgId T.typeName).length - T.typeName.length
      = T.idLen - T.typeName.length
  := by
  refine ⟨?_, ?_, ?_⟩
  · intro T hT box N dflt c hc variants' hperm R buf order hR hsorts hbuf
    have hid : T.idLen ≤ R := Nat.le_trans (Nat.le_add_right _ _) hR
    have hstart : T.typeId <+: getBytes buf 0 R := by
      rw [← typeId_new hc, ← hbuf]
      exact getBytes_isPrefix hid
    have hT' : T ∈ variants' := hperm.mem_iff.mpr hT
    have harm : recvEnumFromRecvBytes m el variants' R buf order
        = (fromRecvBytes m T (el T) R (order T)).map fun slices => some (T, slices) :=
      recvEnumFromRecvBytes_of_isPrefix (h.perm hperm) hT' hstart
    have hdecoded : DecodedAs m el variants' T R buf order
        ↔ fromRecvBytes m T (el T) R (order T) ≠ none :=
      decodedAs_iff_ne_none (h.perm hperm) hT' hstart
    refine ⟨harm, ?_, ?_, ?_⟩
    · intro hnil
      rw [hdecoded, fromRecvBytes, if_pos hnil]
      exact Option.some_ne_none _
    · intro hlt
      rw [hdecoded]
      exact fromRecvBytes_ne_none_iff hR hlt hsorts
    · intro hbase hdflt hlt hfields
      rw [harm, Option.map_eq_none_iff]
      by_contra hsome
      obtain hnil | hchained := (fromRecvBytes_ne_none_iff hR hlt hsorts).mp hsome
      · exact hfields hnil
      · -- the offset zero of a field that is not set lies in front of the arrays
        obtain ⟨o, ho⟩ := List.exists_mem_of_ne_nil _ hfields
        have hmem := hsorts.perm.mem_iff.mpr (List.mem_map_of_mem ho)
        have hle := (hchained.bound _ hmem).1
        have hfield := T.field_le o ho
        rw [sizeofAttached] at hfield
        have hidx : getU32 buf (T.idLen + o) = getU32 c.box.sendBuf (T.idLen + o) := by
          apply getU32_congr
          intro j _ hj
          apply eq_of_getBytes hbase
          rw [MsgType.base]
          omega
        dsimp only at hle
        rw [hidx, idx_new hc hdflt ho, MsgType.base] at hle
        have hpos := length_lt_idLen T
        omega
  · intro R buf order hnone
    apply recvEnumFromRecvBytes_of_none
    apply matchedVariant_eq_none_iff.mpr
    rintro ⟨v, hv, hstart⟩
    exact hnone v hv hstart
  · intro T
    rw [typeToMsgId_eq, length_typeId]

/-- A struct without fields. Its name has eight letters, and the name of `twoArrays` is the
first one. -/
def eightLetters : MsgType where
  typeName := List.replicate 8 84
  size := 0
  fields := []
  field_le := by simp
  apart := apart_nil

theorem variants_eightLetters :
  Variants [twoArrays, eightLetters]
  := by
  constructor
  · decide
  · decide

/-- Both are recognised, and the shorter name does not hide the longer one. The arrays of
`twoArraysBuf` follow one another. -/
theorem recvEnumFromRecvBytes_unambiguous_prefix :
  ∃ c c', (SendCtx.new ⟨0, fun _ => 255⟩ 64 eightLetters []).2 = some c
    ∧ (SendCtx.new ⟨0, fun _ => 0⟩ 64 twoArrays []).2 = some c'
    ∧ DecodedAs .checked (fun _ => byteElem) [twoArrays, eightLetters] eightLetters 64
      c.box.sendBuf (fun _ => [])
    ∧ DecodedAs .checked (fun _ => byteElem) [eightLetters, twoArrays] eightLetters 64
      c.box.sendBuf (fun _ => [])
    ∧ DecodedAs .checked (fun _ => byteElem) [eightLetters, twoArrays] twoArrays 64
      twoArraysBuf (fun _ => [⟨24, 56, 4⟩, ⟨0, 60, 2⟩])
    ∧ recvEnumFromRecvBytes .checked (fun _ => byteElem) [twoArrays, eightLetters] 64
      (fun _ => 84) (fun _ => []) = some none
  := by
  obtain ⟨hfound, hnone, -⟩ :=
    recvEnumFromRecvBytes_unambiguous .checked (fun _ => byteElem) variants_eightLetters
  obtain ⟨c, hc⟩ : ∃ c, (SendCtx.new ⟨0, fun _ => 255⟩ 64 eightLetters []).2 = some c := ⟨_, rfl⟩
  obtain ⟨c', hc'⟩ : ∃ c, (SendCtx.new ⟨0, fun _ => 0⟩ 64 twoArrays []).2 = some c := ⟨_, rfl⟩
  have hbase : eightLetters.base ≤ 64 := by decide
  have hsorts : Sorts [] (eightLetters.received c.box.sendBuf) := by
    constructor
    · exact List.Perm.refl _
    · exact List.Pairwise.nil
  have hsorts' : Sorts [⟨24, 56, 4⟩, ⟨0, 60, 2⟩] (twoArrays.received twoArraysBuf) := by
    rw [received_twoArrays]
    constructor
    · apply List.Perm.swap
    · simp
  refine ⟨c, c', hc, hc', ?_, ?_, ?_, ?_⟩
  · exact (hfound _ (by simp) _ _ _ c hc _ (List.Perm.refl _) 64 _ _ hbase hsorts rfl).2.1 rfl
  · exact (hfound _ (by simp) _ _ _ c hc _ (List.Perm.swap _ _ _) 64 _ _ hbase hsorts rfl).2.1 rfl
  · have hid : getBytes twoArraysBuf 0 twoArrays.idLen
        = getBytes c'.box.sendBuf 0 twoArrays.idLen := by
      rw [typeId_new hc']
      decide +kernel
    obtain ⟨-, -, hiff, -⟩ := hfound _ (by simp) _ _ _ c' hc' _ (List.Perm.swap _ _ _) 64 _
      (fun _ => [⟨24, 56, 4⟩, ⟨0, 60, 2⟩]) (by decide) hsorts' hid
    apply (hiff (by decide)).mpr
    right
    constructor
    · simp [Before, Received.bytes, byteElem]
    · decide
  · apply hnone
    decide

/-- The struct that `SendCtx::new` has just made is in the box, and the receiver panics. -/
theorem not_decodedAs_new :
  ∃ c, (SendCtx.new ⟨0, fun _ => 0⟩ 64 twoArrays (List.replicate 48 0)).2 = some c
    ∧ Sorts [⟨0, 0, 0⟩, ⟨24, 0, 0⟩] (twoArrays.received c.box.sendBuf)
    ∧ matchedVariant [twoArrays] 64 c.box.sendBuf = some twoArrays
    ∧ ∀ m, recvEnumFromRecvBytes m (fun _ => byteElem) [twoArrays] 64 c.box.sendBuf
      (fun _ => [⟨0, 0, 0⟩, ⟨24, 0, 0⟩]) = none
  := by
  refine ⟨_, rfl, ?_, ?_, ?_⟩
  · constructor
    · exact List.Perm.refl _
    · simp
  · rfl
  · rintro (_ | _)
    · rfl
    · rfl

end MsgBox

end TrainsOs
