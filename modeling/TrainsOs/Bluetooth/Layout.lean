import TrainsOs.Bluetooth.Server

/-!
# The layout of the table

The layout of the table never changes after the start: the types of the attributes, the
characteristics and the services. Only values change. `Table` says what is true of them in
every state that is reached.
-/

namespace TrainsOs.Bluetooth

open MsgBox

theorem isSome_new :
  (Gatt.new globalBuilder).isSome = true
  := by decide +kernel

/-- The table at the start. -/
def globalGatt : Gatt :=
  (Gatt.new globalBuilder).get isSome_new

/-- The characteristics with names. -/
def Gatt.characs (g : Gatt) : List GattCharac :=
  g.characMap.map Prod.snd

/-- The handles of the client configurations. -/
def Gatt.configs (g : Gatt) : List ℕ :=
  g.characs.filterMap GattCharac.clientConfigHandle

/-- The types of the attributes. -/
def Gatt.types (g : Gatt) : List GattUuid :=
  g.attrVec.map GattAtt.attType

/-- The layout of `g'` is that of `g`. -/
structure SameLayout (g g' : Gatt) : Prop where
  characMap : g'.characMap = g.characMap
  serviceRange : g'.serviceRange = g.serviceRange
  types : g'.types = g.types

theorem length_types :
  globalGatt.types.length = 37
  := by decide +kernel

theorem values_lt :
  ∀ c ∈ globalGatt.characs, c.valueHandle < globalGatt.types.length
  := by decide +kernel

theorem configs_lt :
  ∀ h ∈ globalGatt.configs, h < globalGatt.types.length
  := by decide +kernel

theorem values_not_configs :
  ∀ c ∈ globalGatt.characs, c.valueHandle ∉ globalGatt.configs
  := by decide +kernel

theorem start_values :
  ∀ a ∈ globalGatt.attrVec, a.attVal.length ≤ valCapacity
  := by decide +kernel

theorem start_configs :
  ∀ h ∈ globalGatt.configs, ∀ a ∈ globalGatt.attrVec[h]?, a.attVal ≠ []
  := by decide +kernel

theorem clock_isSome :
  (globalGatt.characByName "Clock").isSome = true
  := by decide +kernel

theorem cpuUsage_isSome :
  (globalGatt.characByName "CPU Usage").isSome = true
  := by decide +kernel

theorem attWrite_eq {g : Gatt} {h : ℕ} {a : GattAtt} (ha : g.attrVec[h]? = some a)
    {bytes : List UInt8} (hfit : bytes.length ≤ valCapacity) :
  g.attWrite h bytes = some { g with attrVec := g.attrVec.set h { a with attVal := bytes } }
  := by
  have hext : extend valCapacity [] bytes = some bytes := by
    rw [extend, List.length_nil, Nat.zero_add, if_pos hfit, List.nil_append]
  rw [Gatt.attWrite, ha, hext]
  rfl

/-- What is true of the table in every state that is reached. -/
structure Table (g : Gatt) : Prop where
  layout : SameLayout globalGatt g
  values : ∀ a ∈ g.attrVec, a.attVal.length ≤ valCapacity
  configs : ∀ h ∈ g.configs, ∀ a ∈ g.attrVec[h]?, a.attVal ≠ []

theorem table_start :
  Table globalGatt
  := ⟨⟨rfl, rfl, rfl⟩, start_values, start_configs⟩

namespace Table

variable {g : Gatt} {h : ℕ}

theorem length_attrVec (ht : Table g) :
  g.attrVec.length = globalGatt.types.length
  := by
  rw [← ht.layout.types, Gatt.types, List.length_map]

theorem characs_eq (ht : Table g) :
  g.characs = globalGatt.characs
  := by rw [Gatt.characs, Gatt.characs, ht.layout.characMap]

theorem configs_eq (ht : Table g) :
  g.configs = globalGatt.configs
  := by rw [Gatt.configs, Gatt.configs, ht.characs_eq]

/-- Another value that fits, and that is not empty when it configures a characteristic. -/
theorem set (ht : Table g) {a : GattAtt} (ha : g.attrVec[h]? = some a) {val : List UInt8}
    (hfit : val.length ≤ valCapacity) (hconfig : h ∈ g.configs → val ≠ []) :
  Table { g with attrVec := g.attrVec.set h { a with attVal := val } }
  := by
  constructor
  · constructor
    · exact ht.layout.characMap
    · exact ht.layout.serviceRange
    · rw [← ht.layout.types, Gatt.types, Gatt.types, List.map_set]
      apply List.ext_getElem?
      intro i
      rw [List.getElem?_set, List.getElem?_map]
      split_ifs with hi hlen
      · subst hi
        rw [ha]
        rfl
      · subst hi
        rw [List.length_map] at hlen
        rw [List.getElem?_eq_none (Nat.not_lt.mp hlen)]
        rfl
      · rfl
  · intro a' ha'
    rcases List.mem_or_eq_of_mem_set ha' with ha' | rfl
    · exact ht.values a' ha'
    · exact hfit
  · intro h' hh' a' ha'
    rw [Option.mem_def, List.getElem?_set] at ha'
    split_ifs at ha' with hi
    · obtain rfl := Option.some.inj ha'
      subst hi
      exact hconfig hh'
    · exact ht.configs h' hh' a' ha'

/-- `att_write` of such a value. -/
theorem write (ht : Table g) {bytes : List UInt8} (hlt : h < g.attrVec.length)
    (hfit : bytes.length ≤ valCapacity) (hconfig : h ∈ g.configs → bytes ≠ []) :
  ∃ g', g.attWrite h bytes = some g' ∧ Table g'
  := by
  have hget := List.getElem?_eq_getElem hlt
  exact ⟨_, attWrite_eq hget hfit, ht.set hget hfit hconfig⟩

/-- The client configuration of a characteristic is there. -/
theorem config_read (ht : Table g) {c : GattCharac} (hc : c ∈ g.characs)
    (hh : c.clientConfigHandle = some h) :
  h ∈ g.configs ∧ ∃ a, g.attrVec[h]? = some a
  := by
  have hmem : h ∈ g.configs := List.mem_filterMap.mpr ⟨c, hc, hh⟩
  have hlt := configs_lt h (ht.configs_eq ▸ hmem)
  rw [← ht.length_attrVec] at hlt
  exact ⟨hmem, _, List.getElem?_eq_getElem hlt⟩

/-- The value of a characteristic is there, and is not a client configuration. -/
theorem value_read (ht : Table g) {c : GattCharac} (hc : c ∈ g.characs) :
  c.valueHandle < g.attrVec.length ∧ c.valueHandle ∉ g.configs
  := by
  rw [ht.characs_eq] at hc
  rw [ht.length_attrVec, ht.configs_eq]
  exact ⟨values_lt c hc, values_not_configs c hc⟩

theorem clearConfig (ht : Table g) {c : GattCharac} (hc : c ∈ g.characs) :
  ∃ g', g.clearConfig c = some g' ∧ Table g' ∧ g'.characs = g.characs
  := by
  rw [Gatt.clearConfig]
  cases hh : c.clientConfigHandle with
  | none => exact ⟨g, rfl, ht, rfl⟩
  | some h =>
    obtain ⟨hmem, a, ha⟩ := ht.config_read hc hh
    have hne := ht.configs h hmem a ha
    simp only [ha, Option.bind_eq_bind, Option.bind_some, if_neg hne]
    refine ⟨_, rfl, ?_, rfl⟩
    apply ht.set ha
    · rw [List.length_set]
      exact ht.values a (List.mem_of_getElem? ha)
    · intro _ hnil
      rw [List.set_eq_nil_iff] at hnil
      exact hne hnil

theorem clearConfigs (ht : Table g) {cs : List GattCharac} (hcs : ∀ c ∈ cs, c ∈ g.characs) :
  ∃ g', cs.foldlM Gatt.clearConfig g = some g' ∧ Table g'
  := by
  induction cs generalizing g with
  | nil => exact ⟨g, rfl, ht⟩
  | cons c cs ih =>
    obtain ⟨g₁, hclear, ht₁, hcharacs⟩ := ht.clearConfig (hcs c List.mem_cons_self)
    rw [List.foldlM_cons, hclear]
    apply ih ht₁
    intro c' hc'
    rw [hcharacs]
    exact hcs c' (List.mem_cons_of_mem _ hc')

/-- `clear_subscription` does not fail. -/
theorem clearSubscription (ht : Table g) :
  ∃ g', g.clearSubscription = some g' ∧ Table g'
  := ht.clearConfigs fun _ hc => hc

end Table

/-- A client configuration that is empty stays so until it is to be cleared. -/
theorem clearConfigs_none {g : Gatt} {h : ℕ} {a : GattAtt} (ha : g.attrVec[h]? = some a)
    (hnil : a.attVal = []) {cs : List GattCharac}
    (hcs : h ∈ cs.filterMap GattCharac.clientConfigHandle) :
  cs.foldlM Gatt.clearConfig g = none
  := by
  induction cs generalizing g with
  | nil => cases hcs
  | cons c cs ih =>
    rw [List.foldlM_cons, Gatt.clearConfig]
    cases hc : c.clientConfigHandle with
    | none =>
      rw [List.filterMap_cons_none hc] at hcs
      exact ih ha hcs
    | some h' =>
      rw [List.filterMap_cons_some hc] at hcs
      by_cases hsame : h' = h
      · subst hsame
        simp only [ha, Option.bind_eq_bind, Option.bind_some, if_pos hnil]
        rfl
      · have hrest := (List.mem_cons.mp hcs).resolve_left (Ne.symm hsame)
        cases hget : g.attrVec[h']? with
        | none => simp [hget]
        | some a' =>
          simp only [hget, Option.bind_eq_bind, Option.bind_some]
          split_ifs
          · rfl
          · rw [Option.bind_some]
            apply ih _ hrest
            rw [List.getElem?_set_ne hsame]
            exact ha

/-- With an empty client configuration `clear_subscription` fails. -/
theorem clearSubscription_none {g : Gatt} {h : ℕ} {a : GattAtt} (hh : h ∈ g.configs)
    (ha : g.attrVec[h]? = some a) (hnil : a.attVal = []) :
  g.clearSubscription = none
  := clearConfigs_none ha hnil hh

/-! ### Looking up -/

section Lookup

variable {g : Gatt} {attType : GattUuid}

theorem readByTypeLoop_spec (hlen : g.attrVec.length ≤ gattAttrMax) (n : ℕ) {k : ℕ}
    {res : List ℕ} (hres : res.length ≤ k)
    (hfound : ∀ h ∈ res, ∃ a, g.attRead h = some a ∧ a.attType = attType) :
  ∃ hs, g.readByTypeLoop attType (List.range' k n) res = some hs ∧
    ∀ h ∈ hs, ∃ a, g.attRead h = some a ∧ a.attType = attType
  := by
  induction n generalizing k res with
  | zero => exact ⟨res, rfl, hfound⟩
  | succ n ih =>
    rw [List.range'_succ, Gatt.readByTypeLoop]
    cases hk : g.attrVec[k]? with
    | none => exact ⟨res, rfl, hfound⟩
    | some a =>
      dsimp only
      by_cases hty : a.attType = attType
      · have hlt := (List.getElem?_eq_some_iff.mp hk).1
        rw [gattAttrMax] at hlen
        have hmod : k % 2 ^ 16 = k := Nat.mod_eq_of_lt (by omega)
        have hpush : pushBack gattAttrMax res k = some (res ++ [k]) :=
          if_pos (by rw [gattAttrMax]; omega)
        have hnext : ∃ hs, g.readByTypeLoop attType (List.range' (k + 1) n) (res ++ [k]) = some hs ∧
            ∀ h ∈ hs, ∃ a, g.attRead h = some a ∧ a.attType = attType := by
          apply ih
          · rw [List.length_append, List.length_singleton]
            omega
          · intro h hh
            rcases List.mem_append.mp hh with hh | hh
            · exact hfound h hh
            · rw [List.mem_singleton] at hh
              subst hh
              exact ⟨a, hk, hty⟩
        rw [if_pos hty, hmod, hpush]
        cases hhead : res.head? with
        | none => simpa using hnext
        | some first =>
          obtain ⟨a', ha', -⟩ := hfound first (List.mem_of_mem_head? hhead)
          rw [Gatt.attRead] at ha'
          simp only [ha', Option.map_some, Option.bind_eq_bind, Option.bind_some]
          split_ifs
          · exact ⟨res, rfl, hfound⟩
          · exact hnext
      · rw [if_neg hty]
        exact ih (Nat.le_succ_of_le hres) hfound

/-- What `gatt_read_by_type` finds are attributes of the type. -/
theorem gattReadByType_spec (hlen : g.attrVec.length ≤ gattAttrMax) (start stop : ℕ)
    (attType : GattUuid) :
  ∃ hs, g.gattReadByType start stop attType = some hs ∧
    ∀ h ∈ hs, ∃ a, g.attRead h = some a ∧ a.attType = attType
  := readByTypeLoop_spec hlen _ (Nat.zero_le _) (by simp)

/-- The attributes found so far have different handles and types of the same length. -/
structure Info (g : Gatt) (k : ℕ) (res : List ℕ) : Prop where
  nodup : res.Nodup
  lt : ∀ h ∈ res, h < k
  read : ∀ h ∈ res, ∃ a, g.attRead h = some a ∧
    ∀ first ∈ res.head?, ∀ a' ∈ g.attRead first, a.attType.toVec.length = a'.attType.toVec.length

theorem length_le_of_nodup {res : List ℕ} {k : ℕ} (hnodup : res.Nodup) (hlt : ∀ h ∈ res, h < k) :
  res.length ≤ k
  := by
  have hsub : res ⊆ List.range k := fun h hh => List.mem_range.mpr (hlt h hh)
  have hle := (List.subperm_of_subset hnodup hsub).length_le
  rwa [List.length_range] at hle

theorem findInfoLoop_spec (hlen : g.attrVec.length ≤ gattAttrMax) (n : ℕ) {k : ℕ}
    {res : List ℕ} (hinfo : Info g k res) :
  ∃ hs k', g.findInfoLoop (List.range' k n) res = some hs ∧ Info g k' hs
  := by
  induction n generalizing k res with
  | zero => exact ⟨res, k, rfl, hinfo⟩
  | succ n ih =>
    rw [List.range'_succ, Gatt.findInfoLoop]
    cases hk : g.attrVec[k]? with
    | none => exact ⟨res, k, rfl, hinfo⟩
    | some a =>
      have hlt := (List.getElem?_eq_some_iff.mp hk).1
      have hle := length_le_of_nodup hinfo.nodup hinfo.lt
      rw [gattAttrMax] at hlen
      have hmod : k % 2 ^ 16 = k := Nat.mod_eq_of_lt (by omega)
      have hpush : pushBack gattAttrMax res k = some (res ++ [k]) :=
        if_pos (by rw [gattAttrMax]; omega)
      have hnext : (∀ first ∈ res.head?, ∀ a' ∈ g.attRead first,
          a.attType.toVec.length = a'.attType.toVec.length) → Info g (k + 1) (res ++ [k]) := by
        intro hsame
        constructor
        · rw [List.nodup_append]
          refine ⟨hinfo.nodup, List.nodup_singleton k, ?_⟩
          rintro h hh _ hk' rfl
          rw [List.mem_singleton] at hk'
          exact absurd (hinfo.lt h hh) (by omega)
        · intro h hh
          rcases List.mem_append.mp hh with hh | hh
          · exact Nat.lt_succ_of_lt (hinfo.lt h hh)
          · rw [List.mem_singleton] at hh
            omega
        · intro h hh
          cases res with
          | nil =>
            rw [List.nil_append, List.mem_singleton] at hh
            subst hh
            refine ⟨a, hk, ?_⟩
            intro first hfirst a' ha'
            obtain rfl := Option.some.inj hfirst
            rw [Option.mem_def, Gatt.attRead, hk] at ha'
            rw [Option.some.inj ha']
          | cons first res =>
            rcases List.mem_append.mp hh with hh | hh
            · exact hinfo.read h hh
            · rw [List.mem_singleton] at hh
              subst hh
              exact ⟨a, hk, hsame⟩
      dsimp only
      rw [hmod, hpush]
      cases hhead : res.head? with
      | none =>
        rw [hhead] at hnext
        obtain ⟨hs, k', hloop, hinfo'⟩ := ih (hnext (by simp))
        refine ⟨hs, k', ?_, hinfo'⟩
        simpa using hloop
      | some first =>
        obtain ⟨a', ha', -⟩ := hinfo.read first (List.mem_of_mem_head? hhead)
        have hread := ha'
        rw [Gatt.attRead] at ha'
        simp only [ha', Option.map_some, Option.bind_eq_bind, Option.bind_some]
        split_ifs with hne
        · exact ⟨res, k, rfl, hinfo⟩
        · apply ih
          apply hnext
          rw [hhead]
          intro first' hfirst' a'' ha''
          obtain rfl := Option.some.inj hfirst'
          rw [Option.mem_def, hread] at ha''
          obtain rfl := Option.some.inj ha''
          exact (not_not.mp hne).symm

/-- What `gatt_find_info` finds. -/
theorem gattFindInfo_spec (hlen : g.attrVec.length ≤ gattAttrMax) (start stop : ℕ) :
  ∃ hs k, g.gattFindInfo start stop = some hs ∧ Info g k hs
  := findInfoLoop_spec hlen _ ⟨List.nodup_nil, by simp, by simp⟩

end Lookup

theorem length_toVec (t : GattUuid) :
  t.toVec.length = 2 ∨ t.toVec.length = 16
  := by
  cases t with
  | u16 x => exact Or.inl (by simp [GattUuid.toVec, leBytes])
  | u128 x => exact Or.inr (by simp [GattUuid.toVec, leBytes])

/-- Attributes with types of the same length fit into a response, each with its handle and
its type. -/
theorem Info.length_le {g : Gatt} (ht : Table g) {k : ℕ} {hs : List ℕ} (hinfo : Info g k hs)
    {first : ℕ} {a : GattAtt} (hfirst : hs.head? = some first) (ha : g.attRead first = some a) :
  2 + hs.length * (2 + a.attType.toVec.length) ≤ valCapacity
  := by
  have hread : ∀ h ∈ hs, ∃ b, g.attRead h = some b ∧
      b.attType.toVec.length = a.attType.toVec.length := by
    intro h hh
    obtain ⟨b, hb, hsame⟩ := hinfo.read h hh
    exact ⟨b, hb, hsame first hfirst a ha⟩
  -- the handles are among those of the attributes with types of this length
  have hsub : hs ⊆ (List.range g.types.length).filter fun h =>
      (g.types[h]?.map fun t => t.toVec.length) = some a.attType.toVec.length := by
    intro h hh
    obtain ⟨b, hb, hsame⟩ := hread h hh
    rw [Gatt.attRead] at hb
    have hlt := (List.getElem?_eq_some_iff.mp hb).1
    rw [List.mem_filter, List.mem_range, Gatt.types, List.length_map, List.getElem?_map, hb]
    exact ⟨hlt, decide_eq_true (congrArg some hsame)⟩
  have hle := (List.subperm_of_subset hinfo.nodup hsub).length_le
  rw [ht.layout.types] at hle
  rcases length_toVec a.attType with h2 | h16
  · have hcount := hle.trans (List.length_filter_le _ _)
    rw [List.length_range, length_types] at hcount
    rw [h2, valCapacity]
    omega
  · rw [h16] at hle ⊢
    have hcount : ((List.range globalGatt.types.length).filter fun h =>
        (globalGatt.types[h]?.map fun t => t.toVec.length) = some 16).length = 7 := by
      decide +kernel
    rw [hcount] at hle
    rw [valCapacity]
    omega

end TrainsOs.Bluetooth
