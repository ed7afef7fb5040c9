import TrainsOs.Bluetooth.Layout
import TrainsOs.Bluetooth.Construct

/-!
# Clearing the subscriptions

`clear_subscription` goes through the characteristics of `charac_map` and clears the first
byte of their client configurations. `Gatt::new` enters into this map the characteristics
with names, each name once, but it makes a client configuration for every characteristic that
notifies or indicates. The subscription to a characteristic that is not in the map stays.

The table may be any one that `Gatt::new` makes, and clients may have written any values.
-/

namespace TrainsOs.Bluetooth

/-- The type of a client configuration. -/
def clientConfigType : GattUuid := .u16 0x2902

/-- A write by a client: a handle, and 1 to 400 bytes. -/
structure ClientWrite where
  handle : ℕ
  bytes : List UInt8
  one_le : 1 ≤ bytes.length
  length_le : bytes.length ≤ valCapacity

/-- `att_write`, which leaves the table alone when there is no such handle. -/
def Gatt.clientWrite (g : Gatt) (w : ClientWrite) : Gatt :=
  (g.attWrite w.handle w.bytes).getD g

/-- The table after the writes. -/
def Gatt.clientWrites (g : Gatt) (ws : List ClientWrite) : Gatt :=
  ws.foldl Gatt.clientWrite g

/-- In `g'` the first byte of every client configuration is cleared, and otherwise it is the
table `g`. -/
structure Cleared (g g' : Gatt) : Prop where
  characMap : g'.characMap = g.characMap
  valueHandleMap : g'.valueHandleMap = g.valueHandleMap
  serviceRange : g'.serviceRange = g.serviceRange
  length : g'.attrVec.length = g.attrVec.length
  other : ∀ (i : ℕ) (a : GattAtt), g.attrVec[i]? = some a → a.attType ≠ clientConfigType →
    g'.attrVec[i]? = some a
  config : ∀ (i : ℕ) (a : GattAtt), g.attrVec[i]? = some a → a.attType = clientConfigType →
    ∃ val, g'.attrVec[i]? = some { a with attVal := val } ∧ (∀ b ∈ val.head?, b = 0)
      ∧ val.length = a.attVal.length ∧ val.tail = a.attVal.tail

/-- `clear_subscription` clears all subscriptions. -/
def ClearsAll (g : Gatt) : Prop :=
  ∃ g', g.clearSubscription = some g' ∧ Cleared g g'

/-- The client configurations that do not belong to a characteristic of the map are clear
already. -/
def OthersClear (g : Gatt) : Prop :=
  ∀ (i : ℕ) (a : GattAtt), g.attrVec[i]? = some a → a.attType = clientConfigType →
    i ∉ g.configs → ∀ b ∈ a.attVal.head?, b = 0

/-- The client configurations of the characteristics of the map are attributes of this type
with a value. -/
def ConfigsAt (g : Gatt) : Prop :=
  ∀ i ∈ g.configs, ∃ a, g.attrVec[i]? = some a ∧ a.attType = clientConfigType ∧ a.attVal ≠ []

variable {g g' : Gatt} {i h : ℕ}

/-! ### Tables made by `Gatt::new` -/

/-- More attributes, and the same map. -/
structure Grows (g g' : Gatt) : Prop where
  characMap : g'.characMap = g.characMap
  attrVec : ∃ atts, g'.attrVec = g.attrVec ++ atts

theorem Grows.getElem? (hg : Grows g g') {a : GattAtt} (ha : g.attrVec[i]? = some a) :
  g'.attrVec[i]? = some a
  := by
  obtain ⟨-, atts, hatts⟩ := hg
  obtain ⟨hlt, heq⟩ := List.getElem?_eq_some_iff.mp ha
  rw [hatts, List.getElem?_append_left hlt, ha]

theorem Grows.configsAt (hg : Grows g g') (h : ConfigsAt g) :
  ConfigsAt g'
  := by
  intro i hi
  rw [Gatt.configs, Gatt.characs, hg.characMap] at hi
  obtain ⟨a, ha, hrest⟩ := h i hi
  exact ⟨a, hg.getElem? ha, hrest⟩

/-- What `push` of an attribute does. -/
theorem pushAtt_some {attType : GattUuid} {attVal : List UInt8}
    (hpush : g.pushAtt h attType attVal = some g') :
  Grows g g' ∧ g.attrVec.length < gattAttrMax
    ∧ g'.attrVec[g.attrVec.length]? = some ⟨h, attType, attVal⟩
  := by
  rw [Gatt.pushAtt, fromSlice, extend] at hpush
  obtain ⟨val, hval, hpush⟩ := Option.bind_eq_some_iff.mp hpush
  obtain ⟨attrVec, hvec, hpush⟩ := Option.bind_eq_some_iff.mp hpush
  rw [pushBack] at hvec
  split_ifs at hval with hfit
  split_ifs at hvec with hroom
  obtain rfl := Option.some.inj hval
  obtain rfl := Option.some.inj hvec
  obtain rfl := Option.some.inj hpush
  refine ⟨⟨rfl, _, rfl⟩, hroom, ?_⟩
  rw [List.nil_append]
  exact List.getElem?_concat_length

/-- A characteristic that is entered under a name is in the map, and the other ones were
there before. -/
theorem mem_insertMap {κ α : Type} [DecidableEq κ] {capacity : ℕ} {m m' : List (κ × α)} {k : κ}
    {x y : α} (hm : insertMap capacity m k x = some m') (hy : y ∈ m'.map Prod.snd) :
  y = x ∨ y ∈ m.map Prod.snd
  := by
  rw [insertMap] at hm
  split_ifs at hm with hk
  · obtain rfl := Option.some.inj hm
    rw [setMap, List.map_map, List.mem_map] at hy
    obtain ⟨e, he, rfl⟩ := hy
    rw [Function.comp_apply]
    split_ifs with hek
    · exact Or.inl rfl
    · exact Or.inr (List.mem_map_of_mem he)
  · rw [pushBack] at hm
    split_ifs at hm with hroom
    obtain rfl := Option.some.inj hm
    rw [List.map_append, List.mem_append] at hy
    rcases hy with hy | hy
    · exact Or.inr hy
    · exact Or.inl (List.mem_singleton.mp hy)

/-- A characteristic that is entered with the handle of its client configuration, or with
none, is as the other ones. -/
theorem ConfigsAt.insert (hg : ConfigsAt g) {name : String} {charac : GattCharac}
    {m : List (String × GattCharac)} {vm : List (ℕ × String)}
    (hm : insertMap gattAttrMax g.characMap name charac = some m)
    (hcharac : ∀ i, charac.clientConfigHandle = some i →
      ∃ a, g.attrVec[i]? = some a ∧ a.attType = clientConfigType ∧ a.attVal ≠ []) :
  ConfigsAt { g with characMap := m, valueHandleMap := vm }
  := by
  intro i hi
  obtain ⟨c, hc, hi⟩ := List.mem_filterMap.mp hi
  rcases mem_insertMap hm hc with rfl | hc
  · exact hcharac i hi
  · exact hg i (List.mem_filterMap.mpr ⟨c, hc, hi⟩)

theorem nextHandle_of_lt (hlt : g.attrVec.length < gattAttrMax) :
  g.nextHandle = g.attrVec.length
  := by
  rw [gattAttrMax] at hlt
  rw [Gatt.nextHandle]
  omega

/-- A client configuration that is pushed. -/
theorem ConfigsAt.pushConfig (hg : ConfigsAt g)
    (hpush : g.pushAtt g.nextHandle (.u16 0x2902) [0] = some g') :
  ConfigsAt g' ∧ ∀ i, some g.nextHandle = some i →
    ∃ a, g'.attrVec[i]? = some a ∧ a.attType = clientConfigType ∧ a.attVal ≠ []
  := by
  obtain ⟨hgrows, hlt, hget⟩ := pushAtt_some hpush
  use hgrows.configsAt hg
  rintro i ⟨⟩
  rw [nextHandle_of_lt hlt]
  exact ⟨_, hget, rfl, List.cons_ne_nil _ _⟩

theorem ConfigsAt.addCharac {charac : GattBuilderCharac} (hg : ConfigsAt g)
    (hadd : g.addCharac charac = some g') :
  ConfigsAt g'
  := by
  rw [Gatt.addCharac] at hadd
  obtain ⟨g₁, h₁, hadd⟩ := Option.bind_eq_some_iff.mp hadd
  obtain ⟨g₂, h₂, hadd⟩ := Option.bind_eq_some_iff.mp hadd
  have hg₂ := (pushAtt_some h₂).1.configsAt ((pushAtt_some h₁).1.configsAt hg)
  by_cases hhas : charac.hasConfig = true
  · cases hname : charac.name with
    | none =>
      simp only [hname, if_pos hhas, Option.bind_eq_bind, Option.bind_some] at hadd
      obtain ⟨g₃, h₃, hadd⟩ := Option.bind_eq_some_iff.mp hadd
      obtain rfl := Option.some.inj hadd
      exact (hg₂.pushConfig h₃).1
    | some name =>
      simp only [hname, if_pos hhas, Option.bind_eq_bind, Option.bind_some] at hadd
      obtain ⟨g₃, h₃, hadd⟩ := Option.bind_eq_some_iff.mp hadd
      obtain ⟨g₄, h₄, hadd⟩ := Option.bind_eq_some_iff.mp hadd
      obtain ⟨m, hm, hadd⟩ := Option.bind_eq_some_iff.mp hadd
      obtain ⟨vm, -, hadd⟩ := Option.bind_eq_some_iff.mp hadd
      obtain rfl := Option.some.inj hadd
      obtain ⟨hg₄, hconfig⟩ := ((pushAtt_some h₃).1.configsAt hg₂).pushConfig h₄
      exact hg₄.insert hm hconfig
  · cases hname : charac.name with
    | none =>
      simp only [hname, if_neg hhas, Option.bind_eq_bind, Option.bind_some] at hadd
      obtain rfl := Option.some.inj hadd
      exact hg₂
    | some name =>
      simp only [hname, if_neg hhas, Option.bind_eq_bind, Option.bind_some] at hadd
      obtain ⟨g₃, h₃, hadd⟩ := Option.bind_eq_some_iff.mp hadd
      obtain ⟨m, hm, hadd⟩ := Option.bind_eq_some_iff.mp hadd
      obtain ⟨vm, -, hadd⟩ := Option.bind_eq_some_iff.mp hadd
      obtain rfl := Option.some.inj hadd
      exact ((pushAtt_some h₃).1.configsAt hg₂).insert hm (by rintro _ ⟨⟩)

theorem ConfigsAt.addService {service : GattBuilderService × List GattBuilderCharac}
    (hg : ConfigsAt g) (hadd : g.addService service = some g') :
  ConfigsAt g'
  := by
  rw [Gatt.addService] at hadd
  obtain ⟨g₁, h₁, hadd⟩ := Option.bind_eq_some_iff.mp hadd
  obtain ⟨g₂, h₂, hadd⟩ := Option.bind_eq_some_iff.mp hadd
  obtain ⟨range, -, hadd⟩ := Option.bind_eq_some_iff.mp hadd
  obtain rfl := Option.some.inj hadd
  have hg₂ : ConfigsAt g₂ := Run.foldlM_preserves (fun _ _ _ hs h => ConfigsAt.addCharac hs h)
    ((pushAtt_some h₁).1.configsAt hg) h₂
  exact hg₂

theorem configsAt_new {builder : List BuilderService} (h : Gatt.new builder = some g) :
  ConfigsAt g
  := by
  apply Run.foldlM_preserves (fun _ _ _ hs h => ConfigsAt.addService hs h) _ h
  intro i hi
  cases hi

/-! ### Writes by clients -/

/-- A write changes the value of one attribute at most. -/
theorem clientWrite_eq (g : Gatt) (w : ClientWrite) :
  g.clientWrite w = g ∨ ∃ a, g.attrVec[w.handle]? = some a ∧
    g.clientWrite w = { g with attrVec := g.attrVec.set w.handle { a with attVal := w.bytes } }
  := by
  rw [Gatt.clientWrite]
  cases ha : g.attrVec[w.handle]? with
  | none =>
    left
    rw [Gatt.attWrite, ha]
    rfl
  | some a =>
    right
    use a, rfl
    rw [attWrite_eq ha w.length_le]
    rfl

theorem ConfigsAt.clientWrite (hg : ConfigsAt g) (w : ClientWrite) :
  ConfigsAt (g.clientWrite w)
  := by
  rcases clientWrite_eq g w with heq | ⟨a, ha, heq⟩
  · rwa [heq]
  · rw [heq]
    intro i hi
    obtain ⟨b, hb, htype, hne⟩ := hg i hi
    obtain ⟨hlt, -⟩ := List.getElem?_eq_some_iff.mp hb
    by_cases hsame : w.handle = i
    · subst hsame
      obtain rfl := Option.some.inj (ha.symm.trans hb)
      refine ⟨_, List.getElem?_set_self hlt, htype, ?_⟩
      apply List.ne_nil_of_length_pos w.one_le
    · exact ⟨b, (List.getElem?_set_ne hsame).trans hb, htype, hne⟩

theorem ConfigsAt.clientWrites (hg : ConfigsAt g) (ws : List ClientWrite) :
  ConfigsAt (g.clientWrites ws)
  := by
  rw [Gatt.clientWrites]
  induction ws generalizing g with
  | nil => exact hg
  | cons w ws ih => exact ih (hg.clientWrite w)

/-! ### Clearing -/

/-- The attribute with the first byte of its value cleared. -/
def GattAtt.cleared (a : GattAtt) : GattAtt :=
  { a with attVal := a.attVal.set 0 0 }

/-- The handles of the client configurations of these characteristics. -/
def configsOf (cs : List GattCharac) : List ℕ :=
  cs.filterMap GattCharac.clientConfigHandle

theorem cleared_cleared (a : GattAtt) :
  a.cleared.cleared = a.cleared
  := by
  cases a
  simp [GattAtt.cleared]

/-- The loop clears the client configurations of the characteristics. -/
theorem clearConfigs_spec (cs : List GattCharac)
    (hcs : ∀ i ∈ configsOf cs, ∃ a, g.attrVec[i]? = some a ∧ a.attVal ≠ []) :
  ∃ g', cs.foldlM Gatt.clearConfig g = some g' ∧ g'.characMap = g.characMap
    ∧ g'.valueHandleMap = g.valueHandleMap ∧ g'.serviceRange = g.serviceRange
    ∧ ∀ i, g'.attrVec[i]? = g.attrVec[i]?.map fun a => if i ∈ configsOf cs then a.cleared else a
  := by
  induction cs generalizing g with
  | nil =>
    refine ⟨g, rfl, rfl, rfl, rfl, ?_⟩
    intro i
    simp [configsOf]
  | cons c cs ih =>
    rw [List.foldlM_cons, Gatt.clearConfig]
    cases hc : c.clientConfigHandle with
    | none =>
      have hsame : configsOf (c :: cs) = configsOf cs := List.filterMap_cons_none hc
      rw [hsame] at hcs ⊢
      exact ih hcs
    | some handle =>
      have hcons : configsOf (c :: cs) = handle :: configsOf cs := List.filterMap_cons_some hc
      rw [hcons] at hcs ⊢
      obtain ⟨a, ha, hne⟩ := hcs handle List.mem_cons_self
      have hset : ∀ i, (g.attrVec.set handle a.cleared)[i]?
          = g.attrVec[i]?.map fun a => if i = handle then a.cleared else a := by
        intro i
        by_cases hi : i = handle
        · subst hi
          rw [List.getElem?_set_self (List.getElem?_eq_some_iff.mp ha).1, ha, Option.map_some,
            if_pos rfl]
        · rw [List.getElem?_set_ne (Ne.symm hi)]
          simp [hi]
      obtain ⟨g', hfold, hmap, hvmap, hrange, hget⟩ :=
        @ih { g with attrVec := g.attrVec.set handle a.cleared } (by
          intro i hi
          obtain ⟨b, hb, hbne⟩ := hcs i (List.mem_cons_of_mem handle hi)
          rw [hset, hb]
          refine ⟨_, rfl, ?_⟩
          split_ifs
          · intro hnil
            have hset : b.attVal.set 0 0 = [] := hnil
            rw [List.set_eq_nil_iff] at hset
            exact hbne hset
          · exact hbne)
      refine ⟨g', ?_, hmap, hvmap, hrange, ?_⟩
      · simp only [ha, Option.bind_eq_bind, Option.bind_some, if_neg hne]
        exact hfold
      · intro i
        rw [hget, hset, Option.map_map]
        congr 1
        funext b
        rw [Function.comp_apply]
        simp only [List.mem_cons]
        by_cases hi : i = handle
        · rw [if_pos hi, if_pos (Or.inl hi)]
          split_ifs
          · apply cleared_cleared
          · rfl
        · rw [if_neg hi]
          simp only [hi, false_or]

/-- `clear_subscription` clears the client configurations of the characteristics of the map. -/
theorem ConfigsAt.clearSubscription (hg : ConfigsAt g) :
  ∃ g', g.clearSubscription = some g' ∧ g'.characMap = g.characMap
    ∧ g'.valueHandleMap = g.valueHandleMap ∧ g'.serviceRange = g.serviceRange
    ∧ ∀ i, g'.attrVec[i]? = g.attrVec[i]?.map fun a => if i ∈ g.configs then a.cleared else a
  := by
  apply clearConfigs_spec
  intro i hi
  obtain ⟨a, ha, -, hne⟩ := hg i hi
  exact ⟨a, ha, hne⟩

theorem head?_cleared (a : GattAtt) :
  ∀ b ∈ a.cleared.attVal.head?, b = 0
  := by
  rw [GattAtt.cleared]
  cases a.attVal with
  | nil => simp
  | cons b bs => simp

/-- All is cleared exactly when what is not in the map is clear already. -/
theorem ConfigsAt.clearsAll_iff (hg : ConfigsAt g) :
  ClearsAll g ↔ OthersClear g
  := by
  obtain ⟨g', hclear, hmap, hvmap, hrange, hget⟩ := hg.clearSubscription
  constructor
  · rintro ⟨g'', hclear', hcleared⟩ i a ha htype hnot
    obtain rfl := Option.some.inj (hclear.symm.trans hclear')
    obtain ⟨val, hval, hzero, -⟩ := hcleared.config i a ha htype
    rw [hget, ha, Option.map_some, if_neg hnot] at hval
    have hsame : a.attVal = val := congrArg GattAtt.attVal (Option.some.inj hval)
    rwa [hsame]
  · intro hothers
    use g', hclear, hmap, hvmap, hrange
    · have hlen : ∀ n, g'.attrVec.length ≤ n ↔ g.attrVec.length ≤ n := by
        intro n
        rw [← List.getElem?_eq_none_iff, ← List.getElem?_eq_none_iff, hget, Option.map_eq_none_iff]
      have hle := hlen g.attrVec.length
      have hle' := hlen g'.attrVec.length
      omega
    · intro i a ha htype
      rw [hget, ha, Option.map_some, if_neg]
      intro hi
      obtain ⟨b, hb, hconfig, -⟩ := hg i hi
      obtain rfl := Option.some.inj (ha.symm.trans hb)
      exact htype hconfig
    · intro i a ha htype
      rw [hget, ha, Option.map_some]
      by_cases hi : i ∈ g.configs
      · rw [if_pos hi]
        refine ⟨_, rfl, head?_cleared a, List.length_set, ?_⟩
        cases a.attVal <;> rfl
      · rw [if_neg hi]
        exact ⟨a.attVal, rfl, hothers i a ha htype hi, rfl, rfl⟩

/-- After any writes to any table that is made by `Gatt::new`, `clear_subscription` clears
every client configuration, and nothing else, exactly when those that do not belong to a
characteristic of `charac_map` are clear already. -/
theorem clearSubscription_clearsAll_iff (builder : List BuilderService) (g : Gatt)
    (h : Gatt.new builder = some g) (ws : List ClientWrite) :
  ClearsAll (g.clientWrites ws) ↔ OthersClear (g.clientWrites ws)
  := ((configsAt_new h).clientWrites ws).clearsAll_iff

/-! ### Lists in which everything is named -/

/-- Every client configuration belongs to a characteristic of the map. -/
def Covers (g : Gatt) : Prop :=
  ∀ (i : ℕ) (a : GattAtt), g.attrVec[i]? = some a → a.attType = clientConfigType → i ∈ g.configs

theorem Covers.clientWrite (hg : Covers g) (w : ClientWrite) :
  Covers (g.clientWrite w)
  := by
  rcases clientWrite_eq g w with heq | ⟨a, ha, heq⟩
  · rwa [heq]
  · rw [heq]
    intro i b hb htype
    dsimp only at hb
    by_cases hi : w.handle = i
    · subst hi
      rw [List.getElem?_set_self (List.getElem?_eq_some_iff.mp ha).1] at hb
      obtain rfl := Option.some.inj hb
      exact hg w.handle a ha htype
    · rw [List.getElem?_set_ne hi] at hb
      exact hg i b hb htype

theorem Covers.clientWrites (hg : Covers g) (ws : List ClientWrite) :
  Covers (g.clientWrites ws)
  := by
  rw [Gatt.clientWrites]
  induction ws generalizing g with
  | nil => exact hg
  | cons w ws ih => exact ih (hg.clientWrite w)

/-- In the list every characteristic that notifies or indicates has a name, and no
characteristic has the type of a client configuration. -/
structure AllNamed (builder : List BuilderService) : Prop where
  name : ∀ s ∈ builder, ∀ c ∈ s.2, c.hasConfig = true → c.name.isSome = true
  uuid : ∀ s ∈ builder, ∀ c ∈ s.2, c.characUuid ≠ clientConfigType

theorem covers_layout {builder : List BuilderService} (hb : Buildable builder)
    (hnamed : AllNamed builder) :
  Covers (layout builder)
  := by
  intro i a ha htype
  have hcon := constructed_layout hb
  obtain ⟨hlt, -⟩ := List.getElem?_eq_some_iff.mp ha
  rcases hcon.belongs i hlt with ⟨p, hp, rfl⟩ | ⟨q, hq, hle, hlt'⟩
  · rw [hcon.service p hp] at ha
    obtain rfl := Option.some.inj ha
    cases htype
  · have hmem : q.2 ∈ builder.flatMap Prod.snd := by
      rw [← hcon.listed.2]
      exact List.mem_map_of_mem hq
    obtain ⟨s, hs, hc⟩ := List.mem_flatMap.mp hmem
    by_cases hdecl : i = q.1
    · subst hdecl
      rw [hcon.declaration q hq] at ha
      obtain rfl := Option.some.inj ha
      cases htype
    · by_cases hval : i = q.1 + 1
      · subst hval
        rw [hcon.value q hq] at ha
        obtain rfl := Option.some.inj ha
        exact absurd htype (hnamed.uuid s hs q.2 hc)
      · have hconfig := (isConfig_iff hq).mp ⟨by omega, hlt', a, ha, htype⟩
        have hhas : q.2.hasConfig = true := by
          by_contra hno
          rw [GattBuilderCharac.configHandle, if_neg hno] at hconfig
          cases hconfig
        obtain ⟨name, hname⟩ := Option.isSome_iff_exists.mp (hnamed.name s hs q.2 hc hhas)
        have hentry : (name, (⟨name, q.1, q.1 + 1, q.2.configHandle q.1⟩ : GattCharac))
            ∈ (layout builder).characMap := mem_characMap_layout.mpr ⟨q, hq, hname, rfl⟩
        exact List.mem_filterMap.mpr ⟨_, List.mem_map_of_mem hentry, hconfig⟩

/-- When everything is named all subscriptions are cleared. -/
theorem clearsAll_of_named {builder : List BuilderService} (hb : Buildable builder)
    (hnamed : AllNamed builder) (ws : List ClientWrite) :
  ClearsAll ((layout builder).clientWrites ws)
  := by
  apply ((configsAt_new (new_eq hb)).clientWrites ws).clearsAll_iff.mpr
  intro i a ha htype hnot
  exact absurd ((covers_layout hb hnamed).clientWrites ws i a ha htype) hnot

/-- The server clears all subscriptions. -/
theorem clearsAll_global (ws : List ClientWrite) :
  ClearsAll (globalGatt.clientWrites ws)
  := by
  have hb : Buildable globalBuilder := by decide +kernel
  have heq : globalGatt = layout globalBuilder := Option.get_of_eq_some isSome_new (new_eq hb)
  rw [heq]
  apply clearsAll_of_named hb
  constructor
  · decide +kernel
  · decide +kernel

/-! ### A list in which something is not named -/

/-- A characteristic without a name that notifies. -/
def unnamedBuilder : List BuilderService :=
  [({ serviceUuid := .u16 0x180d },
    [{ name := none, characUuid := .u16 0x2a37, property := characPropertyNotify
       initVal := none }])]

/-- The subscription to the characteristic. -/
def subscribe : ClientWrite where
  handle := 3
  bytes := [characClientConfigNotify]
  one_le := by decide
  length_le := by decide

/-- The table for this list. -/
def unnamedGatt : Gatt where
  characMap := []
  valueHandleMap := []
  attrVec :=
    [⟨0, .u16 0x2800, [0x0d, 0x18]⟩,
      ⟨1, .u16 0x2803, [0x10, 2, 0, 0x37, 0x2a]⟩,
      ⟨2, .u16 0x2a37, []⟩,
      ⟨3, .u16 0x2902, [0]⟩]
  serviceRange := [(0, 3)]

/-- The subscription to a characteristic without a name is not cleared. -/
theorem unnamed_not_cleared :
  Gatt.new unnamedBuilder = some unnamedGatt ∧ ¬ ClearsAll (unnamedGatt.clientWrites [subscribe])
  := by
  constructor
  · decide
  · rintro ⟨g', hclear, hcleared⟩
    have hsame : (unnamedGatt.clientWrites [subscribe]).clearSubscription
        = some (unnamedGatt.clientWrites [subscribe]) := by rfl
    obtain rfl := Option.some.inj (hsame.symm.trans hclear)
    obtain ⟨val, hval, hzero, -⟩ := hcleared.config 3 ⟨3, .u16 0x2902, [1]⟩ rfl rfl
    obtain rfl : [1] = val := congrArg GattAtt.attVal (Option.some.inj hval)
    exact absurd (hzero 1 rfl) (by decide)

/-- A subscription in the table of the server. -/
theorem clearSubscription_clearsAll_global :
  ClearsAll (globalGatt.clientWrites [subscribe])
    ↔ OthersClear (globalGatt.clientWrites [subscribe])
  := clearSubscription_clearsAll_iff globalBuilder globalGatt (Option.some_get isSome_new).symm
    [subscribe]

end TrainsOs.Bluetooth
