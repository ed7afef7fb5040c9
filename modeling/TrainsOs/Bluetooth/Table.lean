import TrainsOs.User.Basic
import Mathlib.Tactic.SplitIfs

/-!
# The attribute table

The table of `sys/gatt.rs`. A list of services with their characteristics is laid out as a
vector of attributes, in which each attribute is at the index that is its handle: for a
service its declaration, and for each of its characteristics a declaration, the value, a
description when it has a name, and a client configuration when it notifies or indicates.
-/

namespace TrainsOs.Bluetooth

/-- `GattUuid`. -/
inductive GattUuid where
  | u16 (x : ℕ)
  | u128 (x : ℕ)
deriving DecidableEq

/-- The bytes of a word of `n` bytes, the low byte first. -/
def leBytes (n x : ℕ) : List UInt8 :=
  (List.range n).map fun i => UInt8.ofNat (x / 256 ^ i)

/-- The word whose bytes are `bs`, the low byte first. -/
def leValue (bs : List UInt8) : ℕ :=
  bs.foldr (fun b x => b.toNat + 256 * x) 0

/-- `GattUuid::to_vec`. -/
def GattUuid.toVec : GattUuid → List UInt8
  | .u16 x => leBytes 2 x
  | .u128 x => leBytes 16 x

/-- `GattUuid::try_from`. -/
def GattUuid.tryFrom (value : List UInt8) : Option GattUuid :=
  if value.length = 2 then
    some (.u16 (leValue value))
  else if value.length = 16 then
    some (.u128 (leValue value))
  else
    none

def characPropertyRead : UInt8 := 0x02
def characPropertyWrite : UInt8 := 0x08
def characPropertyNotify : UInt8 := 0x10
def characPropertyIndicate : UInt8 := 0x20

def characClientConfigNotify : UInt8 := 0x01
def characClientConfigIndicate : UInt8 := 0x02

/-- `GATT_ATTR_MAX`. -/
def gattAttrMax : ℕ := 256

/-- The capacity of the value of an attribute, and of a response. -/
def valCapacity : ℕ := 400

/-- `GattBuilderService`. -/
structure GattBuilderService where
  serviceUuid : GattUuid

/-- `GattBuilderCharac`. -/
structure GattBuilderCharac where
  name : Option String
  characUuid : GattUuid
  property : UInt8
  initVal : Option (List UInt8)

/-- The characteristic notifies or indicates. -/
def GattBuilderCharac.hasConfig (charac : GattBuilderCharac) : Bool :=
  charac.property &&& (characPropertyNotify ||| characPropertyIndicate) ≠ 0

/-- `GattAtt`. -/
structure GattAtt where
  handle : ℕ
  attType : GattUuid
  attVal : List UInt8
deriving DecidableEq

/-- `GattCharac`. -/
structure GattCharac where
  name : String
  handle : ℕ
  valueHandle : ℕ
  clientConfigHandle : Option ℕ
deriving DecidableEq

/-- `Gatt`. The maps are lists of their entries, in the order of insertion. -/
structure Gatt where
  characMap : List (String × GattCharac)
  valueHandleMap : List (ℕ × String)
  attrVec : List GattAtt
  serviceRange : List (ℕ × ℕ)
deriving DecidableEq

/-- `Vec::from_slice(..).unwrap()`. -/
def fromSlice (capacity : ℕ) (bs : List UInt8) : Option (List UInt8) :=
  extend capacity [] bs

/-! ### `FnvIndexMap` -/

section Map

variable {κ α : Type} [DecidableEq κ]

/-- `FnvIndexMap::get`. -/
def getMap (m : List (κ × α)) (k : κ) : Option α :=
  (m.find? fun e => e.1 = k).map Prod.snd

/-- An assignment through `FnvIndexMap::get_mut`. -/
def setMap (m : List (κ × α)) (k : κ) (a : α) : List (κ × α) :=
  m.map fun e => if e.1 = k then (k, a) else e

/-- `FnvIndexMap::insert(..).unwrap()`. -/
def insertMap (capacity : ℕ) (m : List (κ × α)) (k : κ) (a : α) : Option (List (κ × α)) :=
  if k ∈ m.map Prod.fst then
    some (setMap m k a)
  else
    pushBack capacity m (k, a)

theorem map_fst_setMap (m : List (κ × α)) (k : κ) (a : α) :
  (setMap m k a).map Prod.fst = m.map Prod.fst
  := by
  rw [setMap, List.map_map]
  apply List.map_congr_left
  intro e _
  rw [Function.comp_apply]
  split_ifs with h
  · exact h.symm
  · rfl

theorem setMap_of_notMem {m : List (κ × α)} {k : κ} (h : k ∉ m.map Prod.fst) (a : α) :
  setMap m k a = m
  := by
  rw [setMap]
  conv_rhs => rw [← List.map_id m]
  apply List.map_congr_left
  intro e he
  apply if_neg
  intro hk
  exact h (hk ▸ List.mem_map_of_mem he)

theorem getMap_eq_none_iff {m : List (κ × α)} {k : κ} :
  getMap m k = none ↔ k ∉ m.map Prod.fst
  := by
  rw [getMap, Option.map_eq_none_iff, List.find?_eq_none]
  constructor
  · intro h hk
    obtain ⟨e, he, rfl⟩ := List.mem_map.mp hk
    exact h e he (decide_eq_true rfl)
  · intro h e he hdec
    have hk : e.1 = k := of_decide_eq_true hdec
    exact h (hk ▸ List.mem_map_of_mem he)

/-- Among different keys, an entry is what its key finds. -/
theorem getMap_eq_some_iff {m : List (κ × α)} (hnodup : (m.map Prod.fst).Nodup) {k : κ} {a : α} :
  getMap m k = some a ↔ (k, a) ∈ m
  := by
  induction m with
  | nil => exact ⟨nofun, nofun⟩
  | cons e m ih =>
    obtain ⟨hnew, hnodup⟩ := List.nodup_cons.mp hnodup
    rw [getMap, List.find?_cons, List.mem_cons]
    by_cases hk : e.1 = k
    · subst hk
      rw [decide_eq_true rfl]
      constructor
      · rintro ⟨⟩
        exact Or.inl rfl
      · rintro (heq | hmem)
        · exact congrArg (fun e => some e.2) heq.symm
        · exact absurd (List.mem_map_of_mem hmem) hnew
    · rw [decide_eq_false hk]
      apply (ih hnodup).trans
      constructor
      · exact Or.inr
      · rintro (heq | hmem)
        · exact absurd (congrArg Prod.fst heq).symm hk
        · exact hmem

theorem getMap_setMap (m : List (κ × α)) (k k' : κ) (a : α) :
  getMap (setMap m k a) k' = if k' = k then (getMap m k).map fun _ => a else getMap m k'
  := by
  induction m with
  | nil =>
    split_ifs
    · rfl
    · rfl
  | cons e m ih =>
    have hset : setMap (e :: m) k a = (if e.1 = k then (k, a) else e) :: setMap m k a := rfl
    rw [getMap, getMap] at ih
    rw [hset, getMap, getMap, getMap, List.find?_cons, List.find?_cons, List.find?_cons]
    by_cases hk : e.1 = k
    · rw [if_pos hk]
      by_cases hk' : k' = k
      · subst hk'
        simp [hk]
      · have hne : ¬ e.1 = k' := fun h => hk' (h.symm.trans hk)
        simp only [decide_eq_false hne, decide_eq_false (Ne.symm hk'), if_neg hk'] at ih ⊢
        exact ih
    · rw [if_neg hk, decide_eq_false hk]
      by_cases hek : e.1 = k'
      · have hk' : ¬ k' = k := fun h => hk (hek.trans h)
        simp [hek, hk']
      · rw [decide_eq_false hek]
        exact ih

theorem getMap_insertMap {m m' : List (κ × α)} {k : κ} {a : α} {capacity : ℕ}
    (h : insertMap capacity m k a = some m') (k' : κ) :
  getMap m' k' = if k' = k then some a else getMap m k'
  := by
  rw [insertMap] at h
  by_cases hk : k ∈ m.map Prod.fst
  · rw [if_pos hk] at h
    obtain rfl := Option.some.inj h
    rw [getMap_setMap]
    cases hget : getMap m k with
    | none => exact absurd hk (getMap_eq_none_iff.mp hget)
    | some old => rfl
  · rw [if_neg hk, pushBack] at h
    split_ifs at h with hroom
    obtain rfl := Option.some.inj h
    rw [getMap, List.find?_append]
    by_cases hk' : k' = k
    · subst hk'
      have hnone : m.find? (fun e => e.1 = k') = none := by
        have := getMap_eq_none_iff.mpr hk
        rwa [getMap, Option.map_eq_none_iff] at this
      rw [hnone, if_pos rfl]
      simp
    · have hne : ¬ k = k' := Ne.symm hk'
      rw [if_neg hk', getMap]
      simp [hne]

/-- All elements of the lists in a map. -/
def elements (m : List (κ × List α)) : Multiset α :=
  (m.flatMap Prod.snd : List α)

/-- Another list for a key. -/
theorem elements_setMap {m : List (κ × List α)} {k : κ} {old : List α}
    (hnodup : (m.map Prod.fst).Nodup) (hget : getMap m k = some old) (new : List α) :
  elements (setMap m k new) + (old : Multiset α) = (new : Multiset α) + elements m
  := by
  induction m with
  | nil => cases hget
  | cons e m ih =>
    obtain ⟨hnew, hnodup⟩ := List.nodup_cons.mp hnodup
    rw [getMap, List.find?_cons] at hget
    have hcons : ∀ (e : κ × List α) m, elements (e :: m) = (e.2 : Multiset α) + elements m := by
      intro e m
      rw [elements, List.flatMap_cons, ← Multiset.coe_add]
      rfl
    have hset : setMap (e :: m) k new = (if e.1 = k then (k, new) else e) :: setMap m k new := rfl
    rw [hset, hcons, hcons]
    by_cases hk : e.1 = k
    · subst hk
      rw [decide_eq_true rfl] at hget
      obtain rfl := Option.some.inj hget
      rw [if_pos rfl, setMap_of_notMem hnew, Multiset.add_assoc, Multiset.add_comm (elements m)]
    · rw [decide_eq_false hk] at hget
      rw [if_neg hk, Multiset.add_assoc, ih hnodup hget, ← Multiset.add_assoc,
        Multiset.add_comm (e.2 : Multiset α), Multiset.add_assoc]

/-- One more element for a key. -/
theorem insertMap_spec {m : List (κ × List α)} {k : κ} {a : α} {capacity : ℕ}
    (hnodup : (m.map Prod.fst).Nodup) (hroom : m.length < capacity) :
  ∃ m', insertMap capacity m k ((getMap m k).getD [] ++ [a]) = some m' ∧
    elements m' = a ::ₘ elements m ∧ (m'.map Prod.fst).Nodup ∧
    ∀ k' ∈ m'.map Prod.fst, k' = k ∨ k' ∈ m.map Prod.fst
  := by
  rw [insertMap]
  by_cases hk : k ∈ m.map Prod.fst
  · cases hget : getMap m k with
    | none => exact absurd hk (getMap_eq_none_iff.mp hget)
    | some old =>
      rw [if_pos hk]
      refine ⟨_, rfl, ?_, ?_, ?_⟩
      · have helements := elements_setMap hnodup hget (old ++ [a])
        rw [← Multiset.coe_add, Multiset.add_assoc, Multiset.add_comm] at helements
        exact Multiset.add_right_inj.mp helements
      · rwa [map_fst_setMap]
      · intro k' hk'
        rw [map_fst_setMap] at hk'
        exact Or.inr hk'
  · rw [if_neg hk, getMap_eq_none_iff.mpr hk]
    refine ⟨_, if_pos hroom, ?_, ?_, ?_⟩
    · rw [elements, elements, List.flatMap_append]
      exact Multiset.coe_eq_coe.mpr (List.perm_append_singleton a _)
    · rw [List.map_append, List.nodup_append]
      refine ⟨hnodup, List.nodup_singleton k, ?_⟩
      rintro k' hk' k'' hmem rfl
      obtain rfl : k' = k := List.mem_singleton.mp hmem
      exact hk hk'
    · intro k' hk'
      rw [List.map_append, List.mem_append] at hk'
      rcases hk' with hk' | hk'
      · exact Or.inr hk'
      · exact Or.inl (List.mem_singleton.mp hk')

end Map

namespace Gatt

/-! ### `Gatt::new` -/

/-- `self.attr_vec.push(GattAtt{..}).unwrap()`, with the value from a slice. -/
def pushAtt (g : Gatt) (handle : ℕ) (attType : GattUuid) (attVal : List UInt8) :
    Option Gatt := do
  let attVal ← fromSlice valCapacity attVal
  let attrVec ← pushBack gattAttrMax g.attrVec
    { handle := handle, attType := attType, attVal := attVal }
  some { g with attrVec := attrVec }

/-- `self.attr_vec.len() as u16`. -/
def nextHandle (g : Gatt) : ℕ :=
  g.attrVec.length % 2 ^ 16

/-- A round of the inner loop. -/
def addCharac (g : Gatt) (charac : GattBuilderCharac) : Option Gatt := do
  let characHandle := g.nextHandle
  let characValueHandle := (characHandle + 1) % 2 ^ 16
  let characAttBytes := charac.property :: leBytes 2 characValueHandle ++ charac.characUuid.toVec
  let g ← g.pushAtt characHandle (.u16 0x2803) characAttBytes
  let g ← g.pushAtt characValueHandle charac.characUuid (charac.initVal.getD [])
  let g ←
    match charac.name with
    | some name => g.pushAtt g.nextHandle (.u16 0x2901) name.toUTF8.data.toList
    | none => some g
  let handle := g.nextHandle
  let (g, clientConfigHandle) ←
    if charac.hasConfig then do
      let g ← g.pushAtt handle (.u16 0x2902) [0]
      some (g, some handle)
    else
      some (g, none)
  match charac.name with
  | some name => do
      let characMap ← insertMap gattAttrMax g.characMap name
        { name := name, handle := characHandle, valueHandle := characValueHandle
          clientConfigHandle := clientConfigHandle }
      let valueHandleMap ← insertMap gattAttrMax g.valueHandleMap characValueHandle name
      some { g with characMap := characMap, valueHandleMap := valueHandleMap }
  | none => some g

/-- A round of the outer loop. -/
def addService (g : Gatt) (service : GattBuilderService × List GattBuilderCharac) :
    Option Gatt := do
  let startHandle := g.nextHandle
  let g ← g.pushAtt startHandle (.u16 0x2800) service.1.serviceUuid.toVec
  let g ← service.2.foldlM addCharac g
  let endHandle := g.nextHandle
  let serviceRange ← pushBack gattAttrMax g.serviceRange
    (startHandle, (endHandle + 2 ^ 16 - 1) % 2 ^ 16)
  some { g with serviceRange := serviceRange }

/-- `Gatt::new`. -/
def new (builder : List (GattBuilderService × List GattBuilderCharac)) : Option Gatt :=
  builder.foldlM addService
    { characMap := [], valueHandleMap := [], attrVec := [], serviceRange := [] }

/-! ### Looking up and writing -/

variable (g : Gatt)

/-- `att_read`. -/
def attRead (handle : ℕ) : Option GattAtt :=
  g.attrVec[handle]?

/-- `att_write(..).unwrap()`. -/
def attWrite (handle : ℕ) (bytes : List UInt8) : Option Gatt := do
  let attr ← g.attrVec[handle]?
  let attVal ← extend valCapacity [] bytes
  some { g with attrVec := g.attrVec.set handle { attr with attVal := attVal } }

/-- `gatt_read_end_of_group`. -/
def gattReadEndOfGroup (handle : ℕ) : Option ℕ :=
  getMap g.serviceRange handle

/-- The loop of `gatt_read_by_type`, over the handles of the range. -/
def readByTypeLoop (attType : GattUuid) : List ℕ → List ℕ → Option (List ℕ)
  | [], res => some res
  | handleId :: range, res =>
      match g.attrVec[handleId]? with
      | none => some res
      | some attr =>
          if attr.attType = attType then do
            -- the value of the first handle that was found
            let len ← match res.head? with
              | some first => g.attrVec[first]?.map fun a => a.attVal.length
              | none => some attr.attVal.length
            if len ≠ attr.attVal.length then
              some res
            else do
              let res ← pushBack gattAttrMax res (handleId % 2 ^ 16)
              readByTypeLoop attType range res
          else
            readByTypeLoop attType range res

/-- The handles from `start` to `stop`. -/
def handles (start stop : ℕ) : List ℕ :=
  List.range' start (stop + 1 - start)

/-- `gatt_read_by_type`. -/
def gattReadByType (start stop : ℕ) (attType : GattUuid) : Option (List ℕ) :=
  g.readByTypeLoop attType (handles start stop) []

/-- `gatt_read_by_group_type`. -/
def gattReadByGroupType (start stop : ℕ) (attType : GattUuid) : Option (List ℕ) :=
  g.gattReadByType start stop attType

/-- The loop of `gatt_find_info`. -/
def findInfoLoop : List ℕ → List ℕ → Option (List ℕ)
  | [], res => some res
  | handleId :: range, res =>
      match g.attrVec[handleId]? with
      | none => some res
      | some attr => do
          let len ← match res.head? with
            | some first => g.attrVec[first]?.map fun a => a.attType.toVec.length
            | none => some attr.attType.toVec.length
          if len ≠ attr.attType.toVec.length then
            some res
          else do
            let res ← pushBack gattAttrMax res (handleId % 2 ^ 16)
            findInfoLoop range res

/-- `gatt_find_info`. -/
def gattFindInfo (start stop : ℕ) : Option (List ℕ) :=
  g.findInfoLoop (handles start stop) []

/-- `charac_by_name`. -/
def characByName (name : String) : Option GattCharac :=
  getMap g.characMap name

/-- A round of the loop of `clear_subscription`. -/
def clearConfig (g : Gatt) (charac : GattCharac) : Option Gatt :=
  match charac.clientConfigHandle with
  | none => some g
  | some handle => do
      let attr ← g.attrVec[handle]?
      if attr.attVal = [] then
        none
      else
        some { g with attrVec := g.attrVec.set handle { attr with attVal := attr.attVal.set 0 0 } }

/-- `clear_subscription`. -/
def clearSubscription (g : Gatt) : Option Gatt :=
  (g.characMap.map Prod.snd).foldlM clearConfig g

end Gatt

end TrainsOs.Bluetooth
