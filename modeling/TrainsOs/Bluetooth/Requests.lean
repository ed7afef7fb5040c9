import TrainsOs.Bluetooth.Layout

/-!
# The requests of the client

When exactly each request that only reads is answered. An answer is one PDU, and where it
would not be one, the server panics.
-/

namespace TrainsOs.Bluetooth

open MsgBox

/-! ### Responses -/

section Responses

variable {b : Build} {s : State}

theorem length_u16Bytes (n : ℕ) :
  (u16Bytes n).length = 2
  := rfl

/-- A packet with a PDU of at most 403 bytes fits into the box. -/
theorem respGatt_spec (b : Build) (s : State) {pdu : List UInt8}
    (hlen : pdu.length ≤ valCapacity + 3) :
  ∃ box, s.respGatt b pdu =
    some { s with respBox := box, out := s.out ++ [.uart (gattPacket s.handle pdu)] }
  := by
  have hbase : rpiUartTxReq.base ≤ defaultBoxSize := by decide
  have hcap : arrayCapacity rpiUartTxReq = 984 := by decide
  have hfit : (gattPacket s.handle pdu).length ≤ arrayCapacity rpiUartTxReq := by
    rw [hcap, gattPacket]
    simp only [List.length_append, List.length_cons, length_u16Bytes]
    rw [valCapacity] at hlen
    omega
  obtain ⟨box, hbox⟩ := newArrayMsg_eq b "RpiUartTxReq" s.respBox hbase hfit
  use box
  rw [State.respGatt, State.sendUart, rpiUartTxReq, hbox]
  rfl

/-- The bytes of a response for one handle. -/
def entryBytes (f : ℕ → List UInt8) (h : ℕ) : List UInt8 :=
  UInt8.ofNat h :: UInt8.ofNat (h / 256) :: f h

theorem listEntry_eq {value : ℕ → Option (List UInt8)} {f : ℕ → List UInt8} {h : ℕ}
    (hvalue : value h = some (f h)) (resp : List UInt8) :
  listEntry value resp h = extend valCapacity resp (entryBytes f h)
  := by
  have hentry : entryBytes f h = [UInt8.ofNat h] ++ ([UInt8.ofNat (h / 256)] ++ f h) := rfl
  rw [listEntry, hvalue, hentry]
  simp only [← extend_bind, pushBack_eq_extend, Option.bind_eq_bind, Option.bind_some]

/-- A response with a list is what fits. -/
theorem listRsp_eq {start : List UInt8} {value : ℕ → Option (List UInt8)} {f : ℕ → List UInt8}
    {hs : List ℕ} (hstart : start.length ≤ valCapacity) (hvalue : ∀ h ∈ hs, value h = some (f h)) :
  listRsp start value hs = extend valCapacity start (hs.flatMap (entryBytes f))
  := by
  have hfrom : fromSlice valCapacity start = some start := by
    rw [fromSlice, extend, List.length_nil, Nat.zero_add, if_pos hstart, List.nil_append]
  rw [listRsp, hfrom, ← extendAll_eq (entryBytes f) hs hstart, Option.bind_eq_bind,
    Option.bind_some]
  clear hfrom hstart
  induction hs generalizing start with
  | nil => rfl
  | cons h hs ih =>
    rw [List.foldlM_cons, List.foldlM_cons, listEntry_eq (hvalue h List.mem_cons_self)]
    congr 1
    funext resp
    exact ih fun h' hh' => hvalue h' (List.mem_cons_of_mem _ hh')

/-- Without a value for a handle there is no response. -/
theorem listRsp_none {start : List UInt8} {value : ℕ → Option (List UInt8)} {hs : List ℕ}
    (h : ∃ h ∈ hs, value h = none) :
  listRsp start value hs = none
  := by
  obtain ⟨h, hh, hnone⟩ := h
  rw [listRsp]
  cases fromSlice valCapacity start with
  | none => rfl
  | some resp =>
    rw [Option.bind_eq_bind, Option.bind_some]
    induction hs generalizing resp with
    | nil => cases hh
    | cons h' hs ih =>
      rw [List.foldlM_cons, Option.bind_eq_bind, Option.bind_eq_none_iff]
      intro resp' hresp'
      rcases List.mem_cons.mp hh with rfl | hh
      · rw [listEntry, hnone] at hresp'
        simp at hresp'
      · exact ih hh resp'

/-- The request is answered with one PDU, a response or an error, and nothing else happens. -/
def Responds (s : State) (opcode : UInt8) (r : Option State) : Prop :=
  ∃ box pdu, r = some { s with respBox := box, out := s.out ++ [.uart (gattPacket s.handle pdu)] } ∧
    (pdu.head? = some (opcode + 1) ∨ pdu.head? = some 0x01)

theorem responds_error (b : Build) (s : State) (opcode : UInt8) (handle : ℕ) (reason : UInt8) :
  Responds s opcode (s.respGatt b (errorRsp opcode handle reason))
  := by
  have hlen : (errorRsp opcode handle reason).length ≤ valCapacity + 3 := by
    rw [errorRsp, List.length_append, List.length_append, length_u16Bytes, valCapacity]
    simp
  obtain ⟨box, hresp⟩ := respGatt_spec b s hlen
  exact ⟨box, _, hresp, Or.inr rfl⟩

/-- The bytes of the entries of a response, each with `overhead` bytes besides the value. -/
def Gatt.entries (g : Gatt) (overhead : ℕ) (hs : List ℕ) : ℕ :=
  (hs.map fun h => overhead + ((g.attRead h).elim 0 fun a => a.attVal.length)).sum

theorem length_entries {f : ℕ → List UInt8} {g : Gatt} {n : ℕ} {hs : List ℕ}
    (hf : ∀ h ∈ hs, 2 + (f h).length = n + ((g.attRead h).elim 0 fun a => a.attVal.length)) :
  (hs.flatMap (entryBytes f)).length = g.entries n hs
  := by
  rw [List.length_flatMap, Gatt.entries]
  congr 1
  apply List.map_congr_left
  intro h hh
  rw [← hf h hh, entryBytes, List.length_cons, List.length_cons]
  omega

/-- A list of entries that fits is a response, and for one that does not there is none. -/
theorem responds_list (b : Build) (opcode x : UInt8) (value : ℕ → Option (List UInt8))
    (f : ℕ → List UInt8) {hs : List ℕ} (hvalue : ∀ h ∈ hs, value h = some (f h)) :
  (2 + (hs.flatMap (entryBytes f)).length ≤ valCapacity →
    Responds s opcode ((listRsp [opcode + 1, x] value hs).bind (s.respGatt b))) ∧
  (¬ 2 + (hs.flatMap (entryBytes f)).length ≤ valCapacity →
    (listRsp [opcode + 1, x] value hs).bind (s.respGatt b) = none)
  := by
  have hstart : [opcode + 1, x].length ≤ valCapacity := by
    rw [List.length_cons, List.length_singleton, valCapacity]
    omega
  rw [listRsp_eq hstart hvalue]
  constructor
  · intro hfit
    have hlen : ([opcode + 1, x] ++ hs.flatMap (entryBytes f)).length ≤ valCapacity + 3 := by
      rw [List.length_append, List.length_cons, List.length_singleton]
      omega
    obtain ⟨box, hresp⟩ := respGatt_spec b s hlen
    have hext : extend valCapacity [opcode + 1, x] (hs.flatMap (entryBytes f))
        = some ([opcode + 1, x] ++ hs.flatMap (entryBytes f)) := if_pos hfit
    rw [hext, Option.bind_some]
    exact ⟨box, _, hresp, Or.inl rfl⟩
  · intro hfit
    have hext : extend valCapacity [opcode + 1, x] (hs.flatMap (entryBytes f)) = none :=
      if_neg hfit
    rw [hext]
    rfl

/-! ### The bytes of a request -/

theorem sliceFrom_eq {data : List UInt8} {n : ℕ} (h : n ≤ data.length) :
  sliceFrom data n = some (data.drop n)
  := if_pos h

theorem sliceFrom_none {data : List UInt8} {n : ℕ} (h : data.length < n) :
  sliceFrom data n = none
  := if_neg (Nat.not_le.mpr h)

/-- The length of a request for a type. -/
def HasType (data : List UInt8) : Prop :=
  data.length = 7 ∨ data.length = 21

/-- The parts of a request for a type. -/
theorem request_parts {data : List UInt8} (h : HasType data) :
  ∃ t, sliceFrom data 1 = some (data.drop 1) ∧ sliceFrom data 3 = some (data.drop 3) ∧
    sliceFrom data 5 = some (data.drop 5) ∧ GattUuid.tryFrom (data.drop 5) = some t
  := by
  have h5 : 5 ≤ data.length := by
    rw [HasType] at h
    omega
  rw [sliceFrom_eq (by omega), sliceFrom_eq (by omega), sliceFrom_eq h5, GattUuid.tryFrom,
    List.length_drop]
  rcases h with h | h
  · rw [h]
    exact ⟨_, rfl, rfl, rfl, rfl⟩
  · rw [h]
    exact ⟨_, rfl, rfl, rfl, rfl⟩

/-- Without a type the request fails, whatever is done with its parts. -/
theorem request_none {α : Type} {data : List UInt8} (h : ¬ HasType data)
    (k : List UInt8 → List UInt8 → GattUuid → Option α) :
  ((sliceFrom data 1).bind fun d1 => (sliceFrom data 3).bind fun d3 =>
    (sliceFrom data 5).bind fun d5 => (GattUuid.tryFrom d5).bind (k d1 d3)) = none
  := by
  rw [HasType] at h
  cases sliceFrom data 1 with
  | none => rfl
  | some d1 =>
    cases sliceFrom data 3 with
    | none => rfl
    | some d3 =>
      rw [Option.bind_some, Option.bind_some]
      by_cases h5 : 5 ≤ data.length
      · have hnone : GattUuid.tryFrom (data.drop 5) = none := by
          rw [GattUuid.tryFrom, List.length_drop, if_neg, if_neg]
          · omega
          · omega
        rw [sliceFrom_eq h5, Option.bind_some, hnone]
        rfl
      · rw [sliceFrom_none (Nat.not_le.mp h5)]
        rfl

/-- What a request for a type finds. -/
def Gatt.found (g : Gatt) (data : List UInt8) : List ℕ :=
  ((GattUuid.tryFrom (data.drop 5)).bind
    (g.gattReadByType (readU16 (data.drop 1)) (readU16 (data.drop 3)))).getD []

/-- It is attributes of that type. -/
theorem found_spec (ht : Table s.gatt) {data : List UInt8} {t : GattUuid}
    (hty : GattUuid.tryFrom (data.drop 5) = some t) :
  s.gatt.gattReadByType (readU16 (data.drop 1)) (readU16 (data.drop 3)) t
      = some (s.gatt.found data) ∧
    ∀ h ∈ s.gatt.found data, ∃ a, s.gatt.attRead h = some a ∧ a.attType = t
  := by
  have hlen : s.gatt.attrVec.length ≤ gattAttrMax := by
    rw [ht.length_attrVec, length_types]
    decide
  obtain ⟨hs, hfound, hread⟩ := gattReadByType_spec hlen (readU16 (data.drop 1))
    (readU16 (data.drop 3)) t
  rw [Gatt.found, hty, Option.bind_some, hfound]
  exact ⟨rfl, hread⟩

/-! ### The requests -/

/-- The request is answered if `p` is true, and fails otherwise. -/
def Exactly (p : Prop) (s : State) (opcode : UInt8) (r : Option State) : Prop :=
  (p → Responds s opcode r) ∧ (¬ p → r = none)

theorem readByType_spec (b : Build) (ht : Table s.gatt) (data : List UInt8) :
  Exactly (HasType data ∧ 2 + s.gatt.entries 2 (s.gatt.found data) ≤ valCapacity)
    s 0x08 (s.readByType b data)
  := by
  by_cases htype : HasType data
  · obtain ⟨t, h1, h3, h5, hty⟩ := request_parts htype
    obtain ⟨hfound, hread⟩ := found_spec ht hty
    rw [State.readByType, h1, h3, h5]
    simp only [Option.bind_eq_bind, Option.bind_some, hty, hfound]
    cases hhs : s.gatt.found data with
    | nil =>
      constructor
      · intro _
        apply responds_error
      · intro hnot
        exact absurd ⟨htype, by simp [Gatt.entries, valCapacity]⟩ hnot
    | cons first hs =>
      rw [hhs] at hread
      obtain ⟨a, ha, -⟩ := hread first List.mem_cons_self
      have hvalue : ∀ h ∈ first :: hs, ((s.gatt.attRead h).bind fun val => some val.attVal)
          = some ((s.gatt.attRead h).elim [] GattAtt.attVal) := by
        intro h hh
        obtain ⟨a', ha', -⟩ := hread h hh
        rw [ha']
        rfl
      have hentries : ((first :: hs).flatMap (entryBytes fun h =>
          (s.gatt.attRead h).elim [] GattAtt.attVal)).length = s.gatt.entries 2 (first :: hs) := by
        apply length_entries
        intro h hh
        obtain ⟨a', ha', -⟩ := hread h hh
        rw [ha']
        rfl
      obtain ⟨hpos, hneg⟩ := responds_list (s := s) b 0x08 (UInt8.ofNat (a.attVal.length + 2)) _ _
        hvalue
      rw [hentries] at hpos hneg
      simp only [ha, Option.bind_some]
      constructor
      · rintro ⟨-, hfit⟩
        exact hpos hfit
      · intro hnot
        exact hneg fun hfit => hnot ⟨htype, hfit⟩
  · constructor
    · rintro ⟨hyes, -⟩
      exact absurd hyes htype
    · intro _
      exact request_none htype _

theorem readByGroupType_spec (b : Build) (ht : Table s.gatt) (data : List UInt8) :
  Exactly (HasType data ∧ (∀ h ∈ s.gatt.found data, (s.gatt.gattReadEndOfGroup h).isSome) ∧
      2 + s.gatt.entries 4 (s.gatt.found data) ≤ valCapacity)
    s 0x10 (s.readByGroupType b data)
  := by
  by_cases htype : HasType data
  · obtain ⟨t, h1, h3, h5, hty⟩ := request_parts htype
    obtain ⟨hfound, hread⟩ := found_spec ht hty
    rw [State.readByGroupType, h1, h3, h5]
    simp only [Option.bind_eq_bind, Option.bind_some, hty, Gatt.gattReadByGroupType, hfound]
    cases hhs : s.gatt.found data with
    | nil =>
      constructor
      · intro _
        apply responds_error
      · intro hnot
        exact absurd ⟨htype, by simp, by simp [Gatt.entries, valCapacity]⟩ hnot
    | cons first hs =>
      rw [hhs] at hread
      obtain ⟨a, ha, -⟩ := hread first List.mem_cons_self
      simp only [ha, Option.bind_some]
      by_cases hgroup : ∀ h ∈ first :: hs, (s.gatt.gattReadEndOfGroup h).isSome
      · have hvalue : ∀ h ∈ first :: hs, ((s.gatt.gattReadEndOfGroup h).bind fun groupEnd =>
            (s.gatt.attRead h).bind fun val => some (u16Bytes groupEnd ++ val.attVal))
            = some (u16Bytes ((s.gatt.gattReadEndOfGroup h).getD 0) ++
              (s.gatt.attRead h).elim [] GattAtt.attVal) := by
          intro h hh
          obtain ⟨a', ha', -⟩ := hread h hh
          obtain ⟨groupEnd, hend⟩ := Option.isSome_iff_exists.mp (hgroup h hh)
          rw [ha', hend]
          rfl
        have hentries : ((first :: hs).flatMap (entryBytes fun h =>
            u16Bytes ((s.gatt.gattReadEndOfGroup h).getD 0) ++
              (s.gatt.attRead h).elim [] GattAtt.attVal)).length
            = s.gatt.entries 4 (first :: hs) := by
          apply length_entries
          intro h hh
          obtain ⟨a', ha', -⟩ := hread h hh
          rw [ha', List.length_append, length_u16Bytes]
          exact (Nat.add_assoc 2 2 _).symm
        obtain ⟨hpos, hneg⟩ := responds_list (s := s) b 0x10
          (UInt8.ofNat (a.attVal.length + 2 + 2)) _ _ hvalue
        rw [hentries] at hpos hneg
        constructor
        · rintro ⟨-, -, hfit⟩
          exact hpos hfit
        · intro hnot
          exact hneg fun hfit => hnot ⟨htype, hgroup, hfit⟩
      · constructor
        · rintro ⟨-, hyes, -⟩
          exact absurd hyes hgroup
        · intro _
          push Not at hgroup
          obtain ⟨h, hh, hnone⟩ := hgroup
          have hend : s.gatt.gattReadEndOfGroup h = none := by simpa using hnone
          rw [listRsp_none ⟨h, hh, by simp [hend]⟩]
          rfl
  · constructor
    · rintro ⟨hyes, -⟩
      exact absurd hyes htype
    · intro _
      exact request_none htype _

theorem findInformation_spec (b : Build) (ht : Table s.gatt) (data : List UInt8) :
  Exactly (3 ≤ data.length) s 0x04 (s.findInformation b data)
  := by
  constructor
  · intro h3
    have hlen : s.gatt.attrVec.length ≤ gattAttrMax := by
      rw [ht.length_attrVec, length_types]
      decide
    obtain ⟨hs, k, hfound, hinfo⟩ := gattFindInfo_spec hlen (readU16 (data.drop 1))
      (readU16 (data.drop 3))
    rw [State.findInformation, sliceFrom_eq (by omega), sliceFrom_eq h3]
    simp only [Option.bind_eq_bind, Option.bind_some, hfound]
    cases hs with
    | nil => apply responds_error
    | cons first hs =>
      obtain ⟨a, ha, -⟩ := hinfo.read first List.mem_cons_self
      have hfit := hinfo.length_le ht rfl ha
      have hvalue : ∀ h ∈ first :: hs, ((s.gatt.attRead h).bind fun val => some val.attType.toVec)
          = some ((s.gatt.attRead h).elim [] fun val => val.attType.toVec) := by
        intro h hh
        obtain ⟨a', ha', -⟩ := hinfo.read h hh
        rw [ha']
        rfl
      -- all types have the length of the first one
      have hsum : ((first :: hs).flatMap (entryBytes fun h =>
          (s.gatt.attRead h).elim [] fun val => val.attType.toVec)).length
          = (first :: hs).length * (2 + a.attType.toVec.length) := by
        rw [List.length_flatMap]
        have hconst : (first :: hs).map (fun h => (entryBytes (fun h =>
            (s.gatt.attRead h).elim [] fun val => val.attType.toVec) h).length)
            = List.replicate (first :: hs).length (2 + a.attType.toVec.length) := by
          rw [List.eq_replicate_iff]
          constructor
          · rw [List.length_map]
          · intro n hn
            obtain ⟨h, hh, rfl⟩ := List.mem_map.mp hn
            obtain ⟨a', ha', hsame⟩ := hinfo.read h hh
            rw [entryBytes, List.length_cons, List.length_cons, ha', Option.elim_some,
              hsame first rfl a ha]
            omega
        rw [hconst, List.sum_replicate_nat]
      obtain ⟨hpos, -⟩ := responds_list (s := s) b 0x04
        (if a.attType.toVec.length = 2 then 0x01 else 0x02) _ _ hvalue
      simp only [ha, Option.bind_some]
      apply hpos
      rwa [hsum]
  · intro h3
    rw [State.findInformation, sliceFrom_none (Nat.not_le.mp h3)]
    cases sliceFrom data 1 with
    | none => rfl
    | some d1 => rfl

theorem exchangeMtu_spec (b : Build) (s : State) (data : List UInt8) :
  Exactly (3 ≤ data.length) s 0x02 (s.exchangeMtu b data)
  := by
  constructor
  · intro h3
    have hlen : [(0x03 : UInt8), 5, 2].length ≤ valCapacity + 3 := by decide
    obtain ⟨box, hresp⟩ := respGatt_spec b s hlen
    rw [State.exchangeMtu, List.getElem?_eq_getElem (by omega), List.getElem?_eq_getElem (by omega)]
    exact ⟨box, _, hresp, Or.inl rfl⟩
  · intro h3
    rw [State.exchangeMtu, List.getElem?_eq_none (by omega)]
    rfl

theorem readReq_spec (b : Build) (s : State) {data : List UInt8} (h1 : 1 ≤ data.length) :
  Exactly (∀ a ∈ s.gatt.attRead (readU16 (data.drop 1)), a.attVal.length < valCapacity)
    s 0x0a (s.readReq b data)
  := by
  have hfrom : fromSlice valCapacity [0x0b] = some [0x0b] := by decide
  rw [State.readReq, sliceFrom_eq h1]
  simp only [Option.bind_eq_bind, Option.bind_some, hfrom]
  cases s.gatt.attRead (readU16 (data.drop 1)) with
  | none =>
    constructor
    · intro _
      apply responds_error
    · intro hnot
      exact absurd (by simp) hnot
  | some a =>
    constructor
    · intro hlt
      have hfit : [(0x0b : UInt8)].length + a.attVal.length ≤ valCapacity := by
        rw [List.length_singleton, Nat.add_comm]
        exact hlt a rfl
      have hext : extend valCapacity [0x0b] a.attVal = some ([0x0b] ++ a.attVal) := if_pos hfit
      have hlen : ([0x0b] ++ a.attVal).length ≤ valCapacity + 3 := by
        rw [List.length_append]
        omega
      obtain ⟨box, hresp⟩ := respGatt_spec b s hlen
      simp only [hext, Option.bind_some]
      exact ⟨box, _, hresp, Or.inl rfl⟩
    · intro hnot
      have hext : extend valCapacity [0x0b] a.attVal = none := by
        apply if_neg
        intro hfit
        apply hnot
        intro a' ha'
        obtain rfl := Option.some.inj ha'
        rw [List.length_singleton] at hfit
        omega
      simp only [hext]
      rfl

end Responses

end TrainsOs.Bluetooth
