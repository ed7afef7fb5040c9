import TrainsOs.Bluetooth.Server
import TrainsOs.Lib.Tiling

/-!
# The construction of the table

`Gatt::new` computes the handles of a characteristic from the length of the vector, before
the attributes are pushed. The attributes of a characteristic depend on its own data and on
the handle of its declaration only, so the vector is made of pieces, one for each service
and in it one for each characteristic, that follow one another.
-/

namespace TrainsOs.Bluetooth

open MsgBox

variable {g : Gatt} {c : GattBuilderCharac} {h : ℕ}

/-- A service with its characteristics. -/
abbrev BuilderService := GattBuilderService × List GattBuilderCharac

/-- `name_by_value_handle`. -/
def Gatt.nameByValueHandle (g : Gatt) (valueHandleId : ℕ) : Option String :=
  getMap g.valueHandleMap valueHandleId

/-- `get_charac_by_client_config_handle`. -/
def Gatt.getCharacByClientConfigHandle (g : Gatt) (clientConfigHandle : ℕ) :
    Option GattCharac :=
  (g.characMap.map Prod.snd).find? fun charac =>
    charac.clientConfigHandle = some clientConfigHandle

/-! ### The layout -/

/-- The number of descriptions. -/
def GattBuilderCharac.named (c : GattBuilderCharac) : ℕ :=
  if c.name.isSome then 1 else 0

/-- The handle of the client configuration, if `h` is that of the declaration. -/
def GattBuilderCharac.configHandle (c : GattBuilderCharac) (h : ℕ) : Option ℕ :=
  if c.hasConfig then some (h + 2 + c.named) else none

/-- The number of attributes of a characteristic. -/
def GattBuilderCharac.size (c : GattBuilderCharac) : ℕ :=
  2 + c.named + if c.hasConfig then 1 else 0

/-- The declaration of a characteristic. -/
def GattBuilderCharac.declaration (c : GattBuilderCharac) (h : ℕ) : GattAtt where
  handle := h
  attType := .u16 0x2803
  attVal := c.property :: leBytes 2 (h + 1) ++ c.characUuid.toVec

/-- The attribute of the value. -/
def GattBuilderCharac.value (c : GattBuilderCharac) (h : ℕ) : GattAtt where
  handle := h + 1
  attType := c.characUuid
  attVal := c.initVal.getD []

/-- The description, if there is a name. -/
def GattBuilderCharac.description (c : GattBuilderCharac) (h : ℕ) : Option GattAtt :=
  c.name.map fun name =>
    { handle := h + 2, attType := .u16 0x2901, attVal := name.toUTF8.data.toList }

/-- The client configuration, if there is one. -/
def GattBuilderCharac.clientConfig (c : GattBuilderCharac) (h : ℕ) : Option GattAtt :=
  (c.configHandle h).map fun handle =>
    { handle := handle, attType := .u16 0x2902, attVal := [0] }

/-- The attributes of a characteristic. -/
def GattBuilderCharac.atts (h : ℕ) (c : GattBuilderCharac) : List GattAtt :=
  [c.declaration h, c.value h] ++ (c.description h).toList ++ (c.clientConfig h).toList

/-- What is looked up under the name of a characteristic. -/
def GattBuilderCharac.entries (h : ℕ) (c : GattBuilderCharac) : List (String × GattCharac) :=
  (c.name.map fun name =>
    (name,
      { name := name
        handle := h
        valueHandle := h + 1
        clientConfigHandle := c.configHandle h })).toList

/-- The values fit into an attribute. -/
structure GattBuilderCharac.Fits (c : GattBuilderCharac) : Prop where
  initVal : (c.initVal.getD []).length ≤ valCapacity
  name : ∀ name, c.name = some name → name.toUTF8.data.toList.length ≤ valCapacity

/-- The number of attributes of a service. -/
def serviceSize (s : BuilderService) : ℕ :=
  1 + (s.2.map GattBuilderCharac.size).sum

/-- The declaration of a service. -/
def serviceDeclaration (h : ℕ) (s : BuilderService) : GattAtt where
  handle := h
  attType := .u16 0x2800
  attVal := s.1.serviceUuid.toVec

/-- The characteristics of a service with the handles of their declarations. -/
def serviceCharacs (h : ℕ) (s : BuilderService) : List (ℕ × GattBuilderCharac) :=
  Tiling.place GattBuilderCharac.size (h + 1) s.2

/-- The attributes of a service. -/
def serviceAtts (h : ℕ) (s : BuilderService) : List GattAtt :=
  serviceDeclaration h s :: (serviceCharacs h s).flatMap fun p => p.2.atts p.1

/-- The entries for the characteristics of a service. -/
def serviceEntries (h : ℕ) (s : BuilderService) : List (String × GattCharac) :=
  (serviceCharacs h s).flatMap fun p => p.2.entries p.1

theorem length_leBytes (n x : ℕ) :
  (leBytes n x).length = n
  := by rw [leBytes, List.length_map, List.length_range]

theorem length_toVec_le (uuid : GattUuid) :
  uuid.toVec.length ≤ 16
  := by
  cases uuid with
  | u16 x => exact (length_leBytes 2 x).trans_le (by decide)
  | u128 x => exact (length_leBytes 16 x).le

theorem length_atts (h : ℕ) (c : GattBuilderCharac) :
  (c.atts h).length = c.size
  := by
  rw [GattBuilderCharac.atts, GattBuilderCharac.description, GattBuilderCharac.clientConfig,
    GattBuilderCharac.configHandle, GattBuilderCharac.size, GattBuilderCharac.named]
  cases c.name <;> cases c.hasConfig <;> rfl

theorem length_serviceAtts (h : ℕ) (s : BuilderService) :
  (serviceAtts h s).length = serviceSize s
  := by
  rw [serviceAtts, List.length_cons, serviceCharacs, Tiling.length_flatMap_place length_atts,
    serviceSize, Nat.add_comm]

/-! ### The loops -/

/-- The table with more attributes, and entries in both maps. -/
def Gatt.extend (g : Gatt) (atts : List GattAtt) (entries : List (String × GattCharac)) : Gatt :=
  { g with
    attrVec := g.attrVec ++ atts
    characMap := g.characMap ++ entries
    valueHandleMap := g.valueHandleMap ++ entries.map fun e => (e.2.valueHandle, e.1) }

theorem Gatt.extend_extend (g : Gatt) (atts atts' : List GattAtt)
    (entries entries' : List (String × GattCharac)) :
  (g.extend atts entries).extend atts' entries' = g.extend (atts ++ atts') (entries ++ entries')
  := by
  simp only [Gatt.extend, List.append_assoc, List.map_append]

theorem Gatt.extend_nil (g : Gatt) :
  g.extend [] [] = g
  := by
  simp only [Gatt.extend, List.append_nil, List.map_nil]

/-- There are no more entries than attributes, and the values that are entered are among the
attributes. -/
structure Gatt.Counted (g : Gatt) : Prop where
  characMap : g.characMap.length ≤ g.attrVec.length
  valueHandleMap : g.valueHandleMap.length ≤ g.attrVec.length
  values : ∀ h ∈ g.valueHandleMap.map Prod.fst, h < g.attrVec.length

theorem length_entries_le (h : ℕ) (c : GattBuilderCharac) :
  (c.entries h).length ≤ 1
  := by
  rw [GattBuilderCharac.entries]
  cases c.name <;> simp

theorem Gatt.Counted.extend (hg : g.Counted) (c : GattBuilderCharac) :
  (g.extend (c.atts g.attrVec.length) (c.entries g.attrVec.length)).Counted
  := by
  have hsize : 2 ≤ c.size := by
    rw [GattBuilderCharac.size]
    omega
  have hentries := length_entries_le g.attrVec.length c
  have hmap := hg.characMap
  have hvalues := hg.valueHandleMap
  constructor
  · simp only [Gatt.extend, List.length_append, length_atts]
    omega
  · simp only [Gatt.extend, List.length_append, List.length_map, length_atts]
    omega
  · intro h hh
    simp only [Gatt.extend, List.length_append, length_atts, List.map_append, List.mem_append]
      at hh ⊢
    obtain hh | hh := hh
    · have hlt := hg.values h hh
      omega
    · rw [GattBuilderCharac.entries] at hh
      cases hname : c.name with
      | none =>
        rw [hname] at hh
        cases hh
      | some name =>
        rw [hname] at hh
        obtain rfl := List.mem_singleton.mp hh
        dsimp only
        omega

theorem fromSlice_eq {bs : List UInt8} (hlen : bs.length ≤ valCapacity) :
  fromSlice valCapacity bs = some bs
  := if_pos (by rwa [List.length_nil, Nat.zero_add])

/-- Pushing an attribute while there is room. -/
theorem pushAtt_eq {handle : ℕ} {attType : GattUuid} {attVal : List UInt8}
    (hroom : g.attrVec.length < gattAttrMax) (hfits : attVal.length ≤ valCapacity) :
  g.pushAtt handle attType attVal = some (g.extend [⟨handle, attType, attVal⟩] [])
  := by
  have hpush : pushBack gattAttrMax g.attrVec
      { handle := handle, attType := attType, attVal := attVal }
      = some (g.attrVec ++ [⟨handle, attType, attVal⟩]) := if_pos hroom
  simp only [Gatt.pushAtt, fromSlice_eq hfits, hpush, Option.bind_eq_bind, Option.bind_some,
    Gatt.extend, List.append_nil, List.map_nil]

theorem nextHandle_eq (hlen : g.attrVec.length ≤ gattAttrMax) :
  g.nextHandle = g.attrVec.length
  := Nat.mod_eq_of_lt (Nat.lt_of_le_of_lt hlen (by decide))

/-- A key that is new is put at the end. -/
theorem insertMap_new {κ α : Type} [DecidableEq κ] {capacity : ℕ} {m : List (κ × α)} {k : κ}
    (a : α) (hnew : k ∉ m.map Prod.fst) (hroom : m.length < capacity) :
  insertMap capacity m k a = some (m ++ [(k, a)])
  := by
  rw [insertMap, if_neg hnew]
  exact if_pos hroom

/-- The description is pushed, and then the rest is done. -/
theorem pushDescription_eq (hlen : g.attrVec.length = h + 2)
    (hroom : g.attrVec.length + c.named ≤ gattAttrMax) (hfits : c.Fits)
    (rest : Gatt → Option Gatt) :
  (match c.name with
    | some name => (g.pushAtt g.nextHandle (.u16 0x2901) name.toUTF8.data.toList).bind rest
    | none => rest g) = rest (g.extend (c.description h).toList [])
  := by
  rw [GattBuilderCharac.named] at hroom
  cases hname : c.name with
  | none =>
    rw [GattBuilderCharac.description, hname]
    exact congrArg rest g.extend_nil.symm
  | some name =>
    rw [hname, Option.isSome_some, if_pos rfl] at hroom
    dsimp only
    rw [nextHandle_eq (by omega), pushAtt_eq (by omega) (hfits.name name hname), hlen,
      GattBuilderCharac.description, hname]
    rfl

/-- The client configuration is pushed, and then the rest is done. -/
theorem pushConfig_eq (hlen : g.attrVec.length = h + 2 + c.named)
    (hroom : c.hasConfig = true → g.attrVec.length + 1 ≤ gattAttrMax)
    (hmax : g.attrVec.length ≤ gattAttrMax) (rest : Gatt → Option ℕ → Option Gatt) :
  (if c.hasConfig = true then
      (g.pushAtt g.nextHandle (.u16 0x2902) [0]).bind fun g' => rest g' (some g.nextHandle)
    else
      rest g none) = rest (g.extend (c.clientConfig h).toList []) (c.configHandle h)
  := by
  rw [GattBuilderCharac.clientConfig, GattBuilderCharac.configHandle]
  cases hconfig : c.hasConfig with
  | false => exact congrArg (fun g' => rest g' none) g.extend_nil.symm
  | true =>
    have hlt := hroom hconfig
    rw [if_pos rfl, if_pos rfl, nextHandle_eq hmax, pushAtt_eq (by omega) (by decide), hlen]
    rfl

/-- The end of a round of the inner loop. -/
def enterCharac (c : GattBuilderCharac) (h : ℕ) (g : Gatt) (clientConfigHandle : Option ℕ) :
    Option Gatt :=
  match c.name with
  | some name => do
      let characMap ← insertMap gattAttrMax g.characMap name
        { name := name, handle := h, valueHandle := h + 1
          clientConfigHandle := clientConfigHandle }
      let valueHandleMap ← insertMap gattAttrMax g.valueHandleMap (h + 1) name
      some { g with characMap := characMap, valueHandleMap := valueHandleMap }
  | none => some g

/-- The entries of a characteristic are made. -/
theorem enterCharac_eq (hnew : ∀ name, c.name = some name → name ∉ g.characMap.map Prod.fst)
    (hmap : g.characMap.length < gattAttrMax) (hvalues : g.valueHandleMap.length < gattAttrMax)
    (hvalue : h + 1 ∉ g.valueHandleMap.map Prod.fst) :
  enterCharac c h g (c.configHandle h) = some (g.extend [] (c.entries h))
  := by
  rw [enterCharac, GattBuilderCharac.entries]
  cases hname : c.name with
  | none => exact congrArg some g.extend_nil.symm
  | some name =>
    simp only [insertMap_new _ (hnew name hname) hmap, insertMap_new _ hvalue hvalues,
      Option.bind_eq_bind, Option.bind_some, Gatt.extend, List.append_nil]
    rfl

/-- A round of the inner loop adds the piece of the characteristic. -/
theorem addCharac_spec (hg : g.Counted) (hlen : g.attrVec.length + c.size ≤ gattAttrMax)
    (hfits : c.Fits) (hnew : ∀ name, c.name = some name → name ∉ g.characMap.map Prod.fst) :
  g.addCharac c = some (g.extend (c.atts g.attrVec.length) (c.entries g.attrVec.length))
  := by
  have hmax : gattAttrMax = 256 := rfl
  have hsize : c.size = 2 + c.named + if c.hasConfig then 1 else 0 := rfl
  generalize hn : g.attrVec.length = n at *
  have hvalue : (n + 1) % 2 ^ 16 = n + 1 := Nat.mod_eq_of_lt (by omega)
  have huuid := length_toVec_le c.characUuid
  have hdecl : (c.property :: leBytes 2 (n + 1) ++ c.characUuid.toVec).length ≤ valCapacity := by
    rw [List.length_append, List.length_cons, length_leBytes, valCapacity]
    omega
  have hlen₁ : (g.extend [c.declaration n] []).attrVec.length = n + 1 := by
    rw [← hn]
    exact List.length_append
  have hpush : (g.extend [c.declaration n] []).pushAtt (n + 1) c.characUuid (c.initVal.getD [])
      = some (g.extend [c.declaration n, c.value n] []) := by
    rw [pushAtt_eq (by omega) hfits.initVal, Gatt.extend_extend]
    rfl
  have hlen₂ : (g.extend [c.declaration n, c.value n] []).attrVec.length = n + 2 := by
    rw [← hn]
    exact List.length_append
  have hlen₃ : (g.extend ([c.declaration n, c.value n] ++ (c.description n).toList)
      []).attrVec.length = n + 2 + c.named := by
    rw [Gatt.extend, List.length_append, List.length_append, hn, GattBuilderCharac.description,
      GattBuilderCharac.named]
    cases c.name <;> rfl
  have hroom : c.hasConfig = true → n + 2 + c.named + 1 ≤ gattAttrMax := by
    intro hconfig
    rw [hconfig, if_pos rfl] at hsize
    omega
  rw [Gatt.addCharac, nextHandle_eq (by omega), hn, hvalue, pushAtt_eq (by omega) hdecl]
  refine (congrArg (Option.bind · _) hpush).trans ?_
  refine (pushDescription_eq hlen₂ (by omega) hfits _).trans ?_
  rw [Gatt.extend_extend]
  refine (pushConfig_eq hlen₃ (by rwa [hlen₃]) (by omega) (enterCharac c n)).trans ?_
  have hmap := hg.characMap
  have hvalues := hg.valueHandleMap
  rw [Gatt.extend_extend, enterCharac_eq, Gatt.extend_extend, List.append_nil]
  · rfl
  · simpa only [Gatt.extend, List.append_nil] using hnew
  · simp only [Gatt.extend, List.append_nil]
    omega
  · simp only [Gatt.extend, List.append_nil, List.map_nil]
    omega
  · simp only [Gatt.extend, List.append_nil, List.map_nil]
    intro hmem
    have hlt := hg.values _ hmem
    omega

theorem map_fst_entries (h : ℕ) (c : GattBuilderCharac) :
  (c.entries h).map Prod.fst = c.name.toList
  := by
  rw [GattBuilderCharac.entries]
  cases c.name <;> rfl

/-- The inner loop adds the pieces of all characteristics. -/
theorem addCharacs_spec {cs : List GattBuilderCharac} (hg : g.Counted)
    (hlen : g.attrVec.length + (cs.map GattBuilderCharac.size).sum ≤ gattAttrMax)
    (hfits : ∀ c ∈ cs, c.Fits)
    (hnames : (g.characMap.map Prod.fst ++ cs.filterMap GattBuilderCharac.name).Nodup)
    (hh : g.attrVec.length = h) :
  ∃ g', cs.foldlM Gatt.addCharac g = some g' ∧ g'.Counted
    ∧ g' = g.extend ((Tiling.place GattBuilderCharac.size h cs).flatMap fun p => p.2.atts p.1)
        ((Tiling.place GattBuilderCharac.size h cs).flatMap fun p => p.2.entries p.1)
  := by
  induction cs generalizing g h with
  | nil => exact ⟨g, rfl, hg, g.extend_nil.symm⟩
  | cons c cs ih =>
    rw [List.map_cons, List.sum_cons] at hlen
    obtain ⟨hfit, hfits⟩ := List.forall_mem_cons.mp hfits
    have hnew : ∀ name, c.name = some name → name ∉ g.characMap.map Prod.fst := by
      intro name hname hmem
      rw [List.filterMap_cons, hname] at hnames
      exact (List.nodup_append.mp hnames).2.2 _ hmem _ List.mem_cons_self rfl
    have hadd := addCharac_spec hg (by omega) hfit hnew
    subst hh
    have hcount : (g.extend (c.atts g.attrVec.length) (c.entries g.attrVec.length)).attrVec.length
        = g.attrVec.length + c.size := by
      rw [Gatt.extend, List.length_append, length_atts]
    obtain ⟨g', hfold, hg', heq⟩ := ih (hg.extend c) (by omega) hfits (by
      rw [Gatt.extend, List.map_append, map_fst_entries, List.append_assoc]
      rw [List.filterMap_cons] at hnames
      cases hname : c.name with
      | none =>
        rw [hname] at hnames
        exact hnames
      | some name =>
        rw [hname] at hnames
        exact hnames) hcount
    refine ⟨g', ?_, hg', ?_⟩
    · rw [List.foldlM_cons, hadd]
      exact hfold
    · rw [heq, Gatt.extend_extend]
      rfl

/-- The table that the list of services describes. -/
def layout (builder : List BuilderService) : Gatt :=
  let services := Tiling.place serviceSize 0 builder
  let entries := services.flatMap fun p => serviceEntries p.1 p.2
  { characMap := entries
    valueHandleMap := entries.map fun e => (e.2.valueHandle, e.1)
    attrVec := services.flatMap fun p => serviceAtts p.1 p.2
    serviceRange := services.map fun p => (p.1, p.1 + serviceSize p.2 - 1) }

/-- The table with one more service. -/
def Gatt.extendService (g : Gatt) (h : ℕ) (s : BuilderService) : Gatt :=
  { g.extend (serviceAtts h s) (serviceEntries h s) with
    serviceRange := g.serviceRange ++ [(h, h + serviceSize s - 1)] }

/-- The names of all characteristics. -/
def builderNames (builder : List BuilderService) : List String :=
  builder.flatMap fun s => s.2.filterMap GattBuilderCharac.name

/-- A round of the outer loop adds the piece of the service. -/
theorem addService_spec {s : BuilderService} (hg : g.Counted)
    (hranges : g.serviceRange.length ≤ g.attrVec.length)
    (hlen : g.attrVec.length + serviceSize s ≤ gattAttrMax) (hfits : ∀ c ∈ s.2, c.Fits)
    (hnames : (g.characMap.map Prod.fst ++ s.2.filterMap GattBuilderCharac.name).Nodup) :
  g.addService s = some (g.extendService g.attrVec.length s)
    ∧ (g.extendService g.attrVec.length s).Counted
  := by
  have hmax : gattAttrMax = 256 := rfl
  have hsize : serviceSize s = 1 + (s.2.map GattBuilderCharac.size).sum := rfl
  have huuid := length_toVec_le s.1.serviceUuid
  have hfit : s.1.serviceUuid.toVec.length ≤ valCapacity := by
    rw [valCapacity]
    omega
  generalize hn : g.attrVec.length = n at *
  have hlen₁ : (g.extend [serviceDeclaration n s] []).attrVec.length = n + 1 := by
    rw [← hn]
    exact List.length_append
  have hg₁ : (g.extend [serviceDeclaration n s] []).Counted := by
    have hmap := hg.characMap
    have hvalues := hg.valueHandleMap
    constructor
    · rw [hlen₁]
      simp only [Gatt.extend, List.append_nil]
      omega
    · rw [hlen₁]
      simp only [Gatt.extend, List.append_nil, List.map_nil]
      omega
    · rw [hlen₁]
      simp only [Gatt.extend, List.append_nil, List.map_nil]
      intro h hh
      have hlt := hg.values h hh
      omega
  obtain ⟨g', hfold, hg', heq⟩ := addCharacs_spec hg₁ (by omega) hfits
    (by simpa only [Gatt.extend, List.append_nil] using hnames) hlen₁
  rw [Gatt.extend_extend] at heq
  have hend : g'.attrVec.length = n + serviceSize s := by
    rw [heq, Gatt.extend, List.length_append, hn]
    exact congrArg (n + ·) (length_serviceAtts n s)
  have hpush : pushBack gattAttrMax g'.serviceRange (n, n + serviceSize s - 1)
      = some (g.serviceRange ++ [(n, n + serviceSize s - 1)]) := by
    rw [heq]
    apply if_pos
    show g.serviceRange.length < gattAttrMax
    omega
  have hlast : (n + serviceSize s + 2 ^ 16 - 1) % 2 ^ 16 = n + serviceSize s - 1 := by omega
  constructor
  · rw [Gatt.addService, nextHandle_eq (by omega), hn, pushAtt_eq (by omega) hfit]
    refine (congrArg (Option.bind · _) hfold).trans ?_
    simp only [Option.bind_eq_bind, Option.bind_some]
    rw [nextHandle_eq (by omega), hend, hlast, hpush, heq]
    rfl
  · rw [heq] at hg'
    exact ⟨hg'.characMap, hg'.valueHandleMap, hg'.values⟩

theorem map_fst_serviceEntries (h : ℕ) (s : BuilderService) :
  (serviceEntries h s).map Prod.fst = s.2.filterMap GattBuilderCharac.name
  := by
  have hplace := Tiling.map_snd_place GattBuilderCharac.size (h + 1) s.2
  conv_rhs => rw [← hplace, List.filterMap_eq_flatMap_toList, List.flatMap_map]
  rw [serviceEntries, serviceCharacs, List.map_flatMap]
  simp only [map_fst_entries]

/-- The outer loop adds the pieces of all services. -/
theorem addServices_spec {builder : List BuilderService} (hg : g.Counted)
    (hranges : g.serviceRange.length ≤ g.attrVec.length)
    (hlen : g.attrVec.length + (builder.map serviceSize).sum ≤ gattAttrMax)
    (hfits : ∀ s ∈ builder, ∀ c ∈ s.2, c.Fits)
    (hnames : (g.characMap.map Prod.fst ++ builderNames builder).Nodup)
    (hh : g.attrVec.length = h) :
  builder.foldlM Gatt.addService g = some
    { g.extend ((Tiling.place serviceSize h builder).flatMap fun p => serviceAtts p.1 p.2)
        ((Tiling.place serviceSize h builder).flatMap fun p => serviceEntries p.1 p.2) with
      serviceRange := g.serviceRange ++
        (Tiling.place serviceSize h builder).map fun p => (p.1, p.1 + serviceSize p.2 - 1) }
  := by
  induction builder generalizing g h with
  | nil =>
    simp only [Tiling.place, List.flatMap_nil, List.map_nil, List.append_nil, Gatt.extend_nil]
    rfl
  | cons s builder ih =>
    rw [List.map_cons, List.sum_cons] at hlen
    obtain ⟨hfit, hfits⟩ := List.forall_mem_cons.mp hfits
    rw [builderNames, List.flatMap_cons, ← List.append_assoc] at hnames
    obtain ⟨hadd, hg'⟩ := addService_spec hg hranges (by omega) hfit
      (List.nodup_append.mp hnames).1
    subst hh
    have hcount : (g.extendService g.attrVec.length s).attrVec.length
        = g.attrVec.length + serviceSize s := by
      rw [Gatt.extendService, Gatt.extend, List.length_append, length_serviceAtts]
    have hsize : 1 ≤ serviceSize s := Nat.le_add_right 1 _
    have hranges' : (g.extendService g.attrVec.length s).serviceRange.length
        = g.serviceRange.length + 1 := List.length_append
    rw [List.foldlM_cons, hadd]
    refine (ih hg' (by omega) (by omega) hfits ?_ hcount).trans ?_
    · rw [Gatt.extendService, Gatt.extend, List.map_append, map_fst_serviceEntries]
      exact hnames
    · simp only [Gatt.extendService, Gatt.extend, Tiling.place, List.flatMap_cons, List.map_cons,
        List.map_append, List.append_assoc, List.cons_append, List.nil_append]

/-! ### The table that is constructed -/

/-- The services with the handles of their declarations. -/
def services (builder : List BuilderService) : List (ℕ × BuilderService) :=
  Tiling.place serviceSize 0 builder

/-- All characteristics with the handles of their declarations. -/
def characs (builder : List BuilderService) : List (ℕ × GattBuilderCharac) :=
  (services builder).flatMap fun p => serviceCharacs p.1 p.2

/-- The number of attributes. -/
def attrCount (builder : List BuilderService) : ℕ :=
  (builder.map serviceSize).sum

/-- The names are different, and the values and all attributes fit. -/
structure Buildable (builder : List BuilderService) : Prop where
  names : (builderNames builder).Nodup
  count : attrCount builder ≤ gattAttrMax
  fits : ∀ s ∈ builder, ∀ c ∈ s.2, c.Fits

theorem new_eq {builder : List BuilderService} (h : Buildable builder) :
  Gatt.new builder = some (layout builder)
  := by
  have hg : Gatt.Counted
      { characMap := [], valueHandleMap := [], attrVec := [], serviceRange := [] } :=
    ⟨Nat.le_refl _, Nat.le_refl _, nofun⟩
  refine (addServices_spec hg (Nat.le_refl _) ?_ h.fits h.names rfl).trans ?_
  · apply (Nat.zero_add _).trans_le
    apply h.count
  · rfl

section Layout

variable {builder : List BuilderService} {p : ℕ × BuilderService} {q : ℕ × GattBuilderCharac}

/-- Every characteristic of the list is placed once. -/
theorem map_snd_characs (builder : List BuilderService) :
  (characs builder).map Prod.snd = builder.flatMap Prod.snd
  := by
  have hplace := Tiling.map_snd_place serviceSize 0 builder
  conv_rhs => rw [← hplace, List.flatMap_map]
  rw [characs, List.map_flatMap]
  congr 1
  funext p
  exact Tiling.map_snd_place _ _ _

theorem length_attrVec_layout (builder : List BuilderService) :
  (layout builder).attrVec.length = attrCount builder
  := Tiling.length_flatMap_place length_serviceAtts 0 builder

/-- The attributes of a service are at its handles. -/
theorem getElem?_service (hp : p ∈ services builder) {i : ℕ} (hi : i < serviceSize p.2) :
  (layout builder).attrVec[p.1 + i]? = (serviceAtts p.1 p.2)[i]?
  := by
  have h := Tiling.getElem?_flatMap_place length_serviceAtts hp hi
  rwa [Nat.sub_zero] at h

/-- The attributes of a characteristic are at its handles. -/
theorem getElem?_charac (hq : q ∈ characs builder) {i : ℕ} (hi : i < q.2.size) :
  (layout builder).attrVec[q.1 + i]? = (q.2.atts q.1)[i]?
  := by
  obtain ⟨p, hp, hq⟩ := List.mem_flatMap.mp hq
  obtain ⟨hle, hend⟩ := Tiling.mem_place hq
  have hidx : q.1 + i = p.1 + (q.1 - (p.1 + 1) + i + 1) := by omega
  rw [hidx, getElem?_service hp (by rw [serviceSize]; omega), serviceAtts,
    List.getElem?_cons_succ]
  exact Tiling.getElem?_flatMap_place length_atts hq hi

theorem map_handle_atts (h : ℕ) (c : GattBuilderCharac) :
  (c.atts h).map GattAtt.handle = List.range' h c.size
  := by
  rw [GattBuilderCharac.atts, GattBuilderCharac.description, GattBuilderCharac.clientConfig,
    GattBuilderCharac.configHandle, GattBuilderCharac.size, GattBuilderCharac.named]
  cases c.name <;> cases c.hasConfig <;> rfl

theorem map_handle_serviceAtts (h : ℕ) (s : BuilderService) :
  (serviceAtts h s).map GattAtt.handle = List.range' h (serviceSize s)
  := by
  rw [serviceAtts, List.map_cons, List.map_flatMap, serviceCharacs]
  simp only [map_handle_atts]
  rw [Tiling.flatMap_range'_place, serviceSize, Nat.add_comm 1, List.range'_succ]
  rfl

/-- The handles are the indices. -/
theorem map_handle_layout (builder : List BuilderService) :
  (layout builder).attrVec.map GattAtt.handle = List.range (attrCount builder)
  := by
  rw [layout, List.map_flatMap]
  simp only [map_handle_serviceAtts]
  rw [Tiling.flatMap_range'_place, List.range_eq_range']
  rfl

/-- A characteristic ends before each later one begins. -/
theorem characs_pairwise (builder : List BuilderService) :
  (characs builder).Pairwise fun a b => a.1 + a.2.size ≤ b.1
  := by
  apply List.pairwise_flatMap.mpr
  constructor
  · intro p _
    apply Tiling.place_pairwise
  · apply (Tiling.place_pairwise serviceSize 0 builder).imp
    intro p p' hle q hq q' hq'
    have hend := (Tiling.mem_place hq).2
    have hbegin := (Tiling.mem_place hq').1
    rw [serviceSize] at hle
    omega

/-- Two characteristics with an attribute in common are the same. -/
theorem characs_inj {q q' : ℕ × GattBuilderCharac} (hq : q ∈ characs builder)
    (hq' : q' ∈ characs builder) {i : ℕ} (hi : q.1 ≤ i ∧ i < q.1 + q.2.size)
    (hi' : q'.1 ≤ i ∧ i < q'.1 + q'.2.size) :
  q = q'
  := by
  have hsame : ∀ a b : ℕ × GattBuilderCharac, a.1 + a.2.size ≤ b.1 →
      a.1 ≤ i ∧ i < a.1 + a.2.size → b.1 ≤ i ∧ i < b.1 + b.2.size → a = b := by
    intro a b hle ha hb
    omega
  apply List.Pairwise.forall_of_forall_of_flip (l := characs builder) (R := fun a b =>
    a.1 ≤ i ∧ i < a.1 + a.2.size → b.1 ≤ i ∧ i < b.1 + b.2.size → a = b) ?_ ?_ ?_ hq hq' hi hi'
  · intro a _ _ _
    rfl
  · exact (characs_pairwise builder).imp (hsame _ _)
  · exact (characs_pairwise builder).imp fun hle hb ha => (hsame _ _ hle ha hb).symm

/-- An attribute is the declaration of a service, or it belongs to a characteristic. -/
theorem belongs {i : ℕ} (hi : i < attrCount builder) :
  (∃ p ∈ services builder, i = p.1) ∨
    ∃ q ∈ characs builder, q.1 ≤ i ∧ i < q.1 + q.2.size
  := by
  have hmem : i ∈ List.range' 0 (builder.map serviceSize).sum :=
    List.mem_range'_1.mpr ⟨Nat.zero_le i, by rwa [Nat.zero_add]⟩
  rw [← Tiling.flatMap_range'_place] at hmem
  obtain ⟨p, hp, hmem⟩ := List.mem_flatMap.mp hmem
  obtain ⟨hle, hlt⟩ := List.mem_range'_1.mp hmem
  obtain heq | hlt' := hle.eq_or_lt
  · exact Or.inl ⟨p, hp, heq.symm⟩
  · right
    have hmem : i ∈ List.range' (p.1 + 1) (p.2.2.map GattBuilderCharac.size).sum := by
      rw [serviceSize] at hlt
      exact List.mem_range'_1.mpr ⟨hlt', by omega⟩
    rw [← Tiling.flatMap_range'_place] at hmem
    obtain ⟨q, hq, hmem⟩ := List.mem_flatMap.mp hmem
    exact ⟨q, List.mem_flatMap.mpr ⟨p, hp, hq⟩, List.mem_range'_1.mp hmem⟩

theorem characMap_layout (builder : List BuilderService) :
  (layout builder).characMap = (characs builder).flatMap fun q => q.2.entries q.1
  := by
  rw [characs, List.flatMap_assoc]
  rfl

theorem mem_entries {h : ℕ} {c : GattBuilderCharac} {e : String × GattCharac} :
  e ∈ c.entries h ↔ c.name = some e.1 ∧ e.2 = ⟨e.1, h, h + 1, c.configHandle h⟩
  := by
  rw [GattBuilderCharac.entries]
  cases c.name with
  | none => exact ⟨nofun, nofun⟩
  | some name =>
    apply List.mem_singleton.trans
    constructor
    · rintro rfl
      exact ⟨rfl, rfl⟩
    · rintro ⟨hname, he⟩
      obtain rfl := Option.some.inj hname
      exact Prod.ext rfl he

/-- What `charac_by_name` finds. -/
theorem characByName_eq_some_iff (hnames : (builderNames builder).Nodup) {name : String}
    {charac : GattCharac} :
  (layout builder).characByName name = some charac ↔ ∃ q ∈ characs builder,
    q.2.name = some name ∧ charac = ⟨name, q.1, q.1 + 1, q.2.configHandle q.1⟩
  := by
  have hnodup : ((layout builder).characMap.map Prod.fst).Nodup := by
    have hplace := Tiling.map_snd_place serviceSize 0 builder
    rw [builderNames, ← hplace, List.flatMap_map] at hnames
    rw [layout, List.map_flatMap]
    simpa only [map_fst_serviceEntries] using hnames
  rw [Gatt.characByName, getMap_eq_some_iff hnodup, characMap_layout, List.mem_flatMap]
  simp only [mem_entries]

/-- What `name_by_value_handle` finds. -/
theorem nameByValueHandle_eq_some_iff {h : ℕ} {name : String} :
  (layout builder).nameByValueHandle h = some name ↔ ∃ q ∈ characs builder,
    q.2.name = some name ∧ h = q.1 + 1
  := by
  have hvalues : (layout builder).valueHandleMap
      = (characs builder).flatMap fun q => (q.2.entries q.1).map fun e =>
          (e.2.valueHandle, e.1) := by
    rw [← List.map_flatMap, ← characMap_layout]
    rfl
  have hnodup : ((layout builder).valueHandleMap.map Prod.fst).Nodup := by
    rw [hvalues, List.map_flatMap, List.Nodup, List.pairwise_flatMap]
    constructor
    · intro q _
      rw [List.map_map, GattBuilderCharac.entries]
      cases q.2.name with
      | none => exact List.Pairwise.nil
      | some name => exact List.pairwise_singleton _ _
    · apply (characs_pairwise builder).imp
      intro q q' hle h hh h' hh'
      rw [List.map_map] at hh hh'
      obtain ⟨e, he, rfl⟩ := List.mem_map.mp hh
      obtain ⟨e', he', rfl⟩ := List.mem_map.mp hh'
      have hsize : 2 ≤ q.2.size := by
        rw [GattBuilderCharac.size]
        omega
      rw [Function.comp_apply, Function.comp_apply, (mem_entries.mp he).2, (mem_entries.mp he').2]
      dsimp only
      omega
  rw [Gatt.nameByValueHandle, getMap_eq_some_iff hnodup, hvalues, List.mem_flatMap]
  apply exists_congr
  intro q
  apply and_congr_right
  intro _
  rw [List.mem_map]
  constructor
  · rintro ⟨e, he, heq⟩
    obtain ⟨hname, he⟩ := mem_entries.mp he
    obtain ⟨rfl, rfl⟩ := Prod.mk.inj heq
    rw [he]
    exact ⟨hname, rfl⟩
  · rintro ⟨hname, rfl⟩
    exact ⟨(name, ⟨name, q.1, q.1 + 1, q.2.configHandle q.1⟩), mem_entries.mpr ⟨hname, rfl⟩, rfl⟩

/-! ### What holds of the table -/

/-- The attribute `i` is the client configuration of a characteristic. -/
def Gatt.IsConfig (g : Gatt) (q : ℕ × GattBuilderCharac) (i : ℕ) : Prop :=
  q.1 + 2 ≤ i ∧ i < q.1 + q.2.size ∧ ∃ a, g.attrVec[i]? = some a ∧ a.attType = .u16 0x2902

/-- Past the value, only the client configuration has its type. -/
theorem configHandle_of_getElem? {j : ℕ} {a : GattAtt} (ha : (c.atts h)[2 + j]? = some a)
    (htype : a.attType = .u16 0x2902) :
  c.configHandle h = some (h + 2 + j)
  := by
  have hhandle : a.handle = h + 2 + j := by
    have hmap : ((c.atts h).map GattAtt.handle)[2 + j]? = some a.handle := by
      rw [List.getElem?_map, ha]
      rfl
    rw [map_handle_atts] at hmap
    obtain ⟨_, heq⟩ := List.getElem?_eq_some_iff.mp hmap
    rw [List.getElem_range', Nat.one_mul] at heq
    rw [← heq, Nat.add_assoc]
  have hmem : a ∈ (c.description h).toList ++ (c.clientConfig h).toList := by
    apply List.mem_of_getElem? (i := j)
    rw [GattBuilderCharac.atts, List.append_assoc, Nat.add_comm] at ha
    exact ha
  obtain hmem | hmem := List.mem_append.mp hmem
  · rw [GattBuilderCharac.description, Option.mem_toList, Option.map_eq_some_iff] at hmem
    obtain ⟨name, _, rfl⟩ := hmem
    cases htype
  · rw [GattBuilderCharac.clientConfig, Option.mem_toList, Option.map_eq_some_iff] at hmem
    obtain ⟨handle, hconfig, rfl⟩ := hmem
    rw [hconfig, ← hhandle]

/-- The client configuration is where the handle says. -/
theorem getElem?_of_configHandle {i : ℕ} (hconfig : c.configHandle h = some i) :
  h + 2 ≤ i ∧ i < h + c.size ∧ (c.atts h)[i - h]? = some ⟨i, .u16 0x2902, [0]⟩
  := by
  rw [GattBuilderCharac.atts, GattBuilderCharac.clientConfig, hconfig]
  rw [GattBuilderCharac.configHandle] at hconfig
  split_ifs at hconfig with hhas
  obtain rfl := Option.some.inj hconfig
  rw [GattBuilderCharac.size, GattBuilderCharac.description, GattBuilderCharac.named, hhas]
  refine ⟨by omega, by rw [if_pos rfl]; omega, ?_⟩
  rw [Nat.add_assoc, Nat.add_sub_cancel_left]
  cases c.name <;> rfl

theorem isConfig_iff (hq : q ∈ characs builder) {i : ℕ} :
  (layout builder).IsConfig q i ↔ q.2.configHandle q.1 = some i
  := by
  constructor
  · rintro ⟨hle, hlt, a, ha, htype⟩
    obtain ⟨j, rfl⟩ := Nat.exists_eq_add_of_le hle
    rw [Nat.add_assoc, getElem?_charac hq (by omega)] at ha
    exact configHandle_of_getElem? ha htype
  · intro hconfig
    obtain ⟨hle, hlt, hatt⟩ := getElem?_of_configHandle hconfig
    refine ⟨hle, hlt, ⟨i, .u16 0x2902, [0]⟩, ?_, rfl⟩
    rwa [← getElem?_charac hq (by omega), Nat.add_sub_of_le (by omega)] at hatt

/-- What `Gatt::new` makes of the list of services. -/
structure Constructed (builder : List BuilderService) (g : Gatt) : Prop where
  /-- The handle of an attribute is its index. -/
  handles : ∀ i (a : GattAtt), g.attrVec[i]? = some a → a.handle = i
  /-- The services and characteristics are those of the list. -/
  listed : (services builder).map Prod.snd = builder
    ∧ (characs builder).map Prod.snd = builder.flatMap Prod.snd
  /-- There is nothing else in the vector. -/
  belongs : ∀ i < g.attrVec.length, (∃ p ∈ services builder, i = p.1) ∨
    ∃ q ∈ characs builder, q.1 ≤ i ∧ i < q.1 + q.2.size
  /-- No attribute belongs to two characteristics. -/
  apart : (characs builder).Pairwise fun a b => a.1 + a.2.size ≤ b.1
  service : ∀ p ∈ services builder,
    g.attrVec[p.1]? = some ⟨p.1, .u16 0x2800, p.2.1.serviceUuid.toVec⟩
  declaration : ∀ q ∈ characs builder, g.attrVec[q.1]? =
    some ⟨q.1, .u16 0x2803, q.2.property :: leBytes 2 (q.1 + 1) ++ q.2.characUuid.toVec⟩
  value : ∀ q ∈ characs builder,
    g.attrVec[q.1 + 1]? = some ⟨q.1 + 1, q.2.characUuid, q.2.initVal.getD []⟩
  config : ∀ q ∈ characs builder, (∃ i, g.IsConfig q i) ↔ q.2.hasConfig
  nonempty : ∀ r ∈ g.serviceRange, r.1 ≤ r.2
  /-- The ranges are the handles in order, so they are contiguous. -/
  cover : g.serviceRange.flatMap (fun r => List.range' r.1 (r.2 + 1 - r.1))
    = List.range g.attrVec.length
  starts : g.serviceRange.map Prod.fst = (services builder).map Prod.fst
  endOfGroup : ∀ i p p', (services builder)[i]? = some p → (services builder)[i + 1]? = some p' →
    ∃ e, g.gattReadEndOfGroup p.1 = some e ∧ e + 1 = p'.1
  lastGroup : ∀ p, (services builder).getLast? = some p →
    ∃ e, g.gattReadEndOfGroup p.1 = some e ∧ e + 1 = g.attrVec.length
  /-- What is found under a name is the characteristic of this name. -/
  byName : ∀ q ∈ characs builder, ∀ name, q.2.name = some name →
    ∃ charac, g.characByName name = some charac ∧ charac.name = name ∧ charac.handle = q.1
      ∧ charac.valueHandle = q.1 + 1
      ∧ (∀ i, charac.clientConfigHandle = some i ↔ g.IsConfig q i)
      ∧ ∀ i, g.IsConfig q i → g.getCharacByClientConfigHandle i = some charac
  byValueHandle : ∀ q ∈ characs builder, ∀ name, q.2.name = some name →
    g.nameByValueHandle (q.1 + 1) = some name
  inverse : ∀ name h, (∃ charac, g.characByName name = some charac ∧ charac.valueHandle = h) ↔
    g.nameByValueHandle h = some name

theorem mem_characMap_layout {e : String × GattCharac} :
  e ∈ (layout builder).characMap ↔ ∃ q ∈ characs builder,
    q.2.name = some e.1 ∧ e.2 = ⟨e.1, q.1, q.1 + 1, q.2.configHandle q.1⟩
  := by
  rw [characMap_layout, List.mem_flatMap]
  simp only [mem_entries]

/-- The client configuration leads back to the characteristic. -/
theorem getCharacByClientConfigHandle_layout (hq : q ∈ characs builder) {name : String}
    (hname : q.2.name = some name) {i : ℕ} (hi : (layout builder).IsConfig q i) :
  (layout builder).getCharacByClientConfigHandle i
    = some ⟨name, q.1, q.1 + 1, q.2.configHandle q.1⟩
  := by
  have hconfig := (isConfig_iff hq).mp hi
  have hmem : (⟨name, q.1, q.1 + 1, q.2.configHandle q.1⟩ : GattCharac)
      ∈ (layout builder).characMap.map Prod.snd :=
    List.mem_map.mpr ⟨(name, _), mem_characMap_layout.mpr ⟨q, hq, hname, rfl⟩, rfl⟩
  rw [Gatt.getCharacByClientConfigHandle]
  cases hfind : ((layout builder).characMap.map Prod.snd).find? fun charac =>
      charac.clientConfigHandle = some i with
  | none => exact absurd (decide_eq_true hconfig) (List.find?_eq_none.mp hfind _ hmem)
  | some charac =>
    have hdec := List.find?_some hfind
    have hfound : charac.clientConfigHandle = some i := of_decide_eq_true hdec
    obtain ⟨e, he, rfl⟩ := List.mem_map.mp (List.mem_of_find?_eq_some hfind)
    obtain ⟨q', hq', hname', heq⟩ := mem_characMap_layout.mp he
    rw [heq] at hfound ⊢
    have hi' := (isConfig_iff hq').mpr hfound
    obtain rfl := characs_inj hq hq' ⟨by have := hi.1; omega, hi.2.1⟩
      ⟨by have := hi'.1; omega, hi'.2.1⟩
    rw [hname] at hname'
    rw [Option.some.inj hname']

/-- The range of a service is found under its handle. -/
theorem gattReadEndOfGroup_layout (hp : p ∈ services builder) :
  (layout builder).gattReadEndOfGroup p.1 = some (p.1 + serviceSize p.2 - 1)
  := by
  have hnodup : ((layout builder).serviceRange.map Prod.fst).Nodup := by
    rw [layout, List.map_map, List.Nodup, List.pairwise_map]
    apply (Tiling.place_pairwise serviceSize 0 builder).imp
    intro p p' hle
    rw [serviceSize] at hle
    dsimp only [Function.comp_apply]
    omega
  apply (getMap_eq_some_iff hnodup).mpr
  exact List.mem_map_of_mem hp

theorem constructed_layout (hbuilder : Buildable builder) :
  Constructed builder (layout builder)
  where
  handles i a ha := by
    have hmap : ((layout builder).attrVec.map GattAtt.handle)[i]? = some a.handle := by
      rw [List.getElem?_map, ha]
      rfl
    rw [map_handle_layout] at hmap
    obtain ⟨_, heq⟩ := List.getElem?_eq_some_iff.mp hmap
    rw [← heq, List.getElem_range]
  listed := ⟨Tiling.map_snd_place _ _ _, map_snd_characs builder⟩
  belongs i hi := by
    rw [length_attrVec_layout] at hi
    exact Bluetooth.belongs hi
  apart := characs_pairwise builder
  service p hp := getElem?_service hp (i := 0) (by rw [serviceSize]; omega)
  declaration q hq := getElem?_charac hq (i := 0) (by rw [GattBuilderCharac.size]; omega)
  value q hq := getElem?_charac hq (i := 1) (by rw [GattBuilderCharac.size]; omega)
  config q hq := by
    simp only [isConfig_iff hq]
    rw [← Option.isSome_iff_exists, GattBuilderCharac.configHandle]
    cases q.2.hasConfig <;> simp
  nonempty r hr := by
    obtain ⟨p, hp, rfl⟩ := List.mem_map.mp hr
    dsimp only
    rw [serviceSize]
    omega
  cover := by
    rw [length_attrVec_layout, layout, List.flatMap_map, List.range_eq_range', attrCount,
      ← Tiling.flatMap_range'_place]
    apply congrArg List.flatten
    apply List.map_congr_left
    intro p _
    have hsize : p.1 + serviceSize p.2 - 1 + 1 - p.1 = serviceSize p.2 := by
      rw [serviceSize]
      omega
    rw [hsize]
  starts := List.map_map
  endOfGroup i p p' hp hp' := by
    have hchain := Tiling.place_chain serviceSize 0 builder
    obtain ⟨hi, hget⟩ := List.getElem?_eq_some_iff.mp hp
    obtain ⟨hi', hget'⟩ := List.getElem?_eq_some_iff.mp hp'
    have heq := (List.isChain_iff_getElem (l := services builder)).mp hchain i hi'
    rw [hget, hget'] at heq
    refine ⟨_, gattReadEndOfGroup_layout (List.mem_of_getElem? hp), ?_⟩
    rw [heq, serviceSize]
    omega
  lastGroup p hp := by
    refine ⟨_, gattReadEndOfGroup_layout (List.mem_of_getLast? hp), ?_⟩
    have hend := Tiling.end_of_getLast?_place hp
    rw [length_attrVec_layout, attrCount]
    rw [serviceSize] at hend ⊢
    omega
  byName q hq name hname := by
    refine ⟨_, (characByName_eq_some_iff hbuilder.names).mpr ⟨q, hq, hname, rfl⟩, rfl, rfl, rfl,
      ?_, ?_⟩
    · intro i
      exact (isConfig_iff hq).symm
    · intro i hi
      exact getCharacByClientConfigHandle_layout hq hname hi
  byValueHandle q hq name hname := nameByValueHandle_eq_some_iff.mpr ⟨q, hq, hname, rfl⟩
  inverse name h := by
    rw [nameByValueHandle_eq_some_iff]
    constructor
    · rintro ⟨charac, hfind, rfl⟩
      obtain ⟨q, hq, hname, rfl⟩ := (characByName_eq_some_iff hbuilder.names).mp hfind
      exact ⟨q, hq, hname, rfl⟩
    · rintro ⟨q, hq, hname, rfl⟩
      exact ⟨_, (characByName_eq_some_iff hbuilder.names).mpr ⟨q, hq, hname, rfl⟩, rfl⟩

end Layout

instance (c : GattBuilderCharac) : Decidable c.Fits :=
  decidable_of_iff ((c.initVal.getD []).length ≤ valCapacity
      ∧ ∀ name ∈ c.name, name.toUTF8.data.toList.length ≤ valCapacity)
    ⟨fun h => ⟨h.1, h.2⟩, fun h => ⟨h.1, h.2⟩⟩

instance (builder : List BuilderService) : Decidable (Buildable builder) :=
  decidable_of_iff ((builderNames builder).Nodup ∧ attrCount builder ≤ gattAttrMax
      ∧ ∀ s ∈ builder, ∀ c ∈ s.2, c.Fits)
    ⟨fun h => ⟨h.1, h.2.1, h.2.2⟩, fun h => ⟨h.1, h.2, h.3⟩⟩

/-- `Gatt::new` succeeds, and the table is what the list describes. -/
theorem new_constructed (builder : List BuilderService) (h : Buildable builder) :
  ∃ g, Gatt.new builder = some g ∧ Constructed builder g
  := ⟨layout builder, new_eq h, constructed_layout h⟩

/-- The list of the server can be built. -/
theorem new_constructed_global :
  ∃ g, Gatt.new globalBuilder = some g ∧ Constructed globalBuilder g
  := new_constructed globalBuilder (by decide +kernel)

end TrainsOs.Bluetooth
