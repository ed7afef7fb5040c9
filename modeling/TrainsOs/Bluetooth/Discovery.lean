import TrainsOs.Bluetooth.Construct
import TrainsOs.Lib.Paging

/-!
# Discovering the attributes

What `gatt_read_by_type`, `gatt_read_by_group_type` and `gatt_find_info` find in a table
whose handles are the indices, and what a client gets that repeats its request from behind
the last handle that was found. The two loops differ only in the attributes that they pass
over and in what has to agree with the first attribute found.
-/

namespace TrainsOs.Bluetooth

open Paging

/-- The handle of every attribute is its index. -/
structure Gatt.Indexed (g : Gatt) : Prop where
  length_le : g.attrVec.length ≤ gattAttrMax
  handles : g.attrVec.map GattAtt.handle = List.range g.attrVec.length

/-- The table that `Gatt::new` builds. -/
theorem indexed_layout {builder : List BuilderService} (h : Buildable builder) :
  (layout builder).Indexed
  where
  length_le := (length_attrVec_layout builder).trans_le h.count
  handles := by rw [map_handle_layout, length_attrVec_layout]

/-- Writing to an attribute keeps the handles. -/
theorem Gatt.Indexed.attWrite {g g' : Gatt} (hg : g.Indexed) {handle : ℕ} {bytes : List UInt8}
    (h : g.attWrite handle bytes = some g') :
  g'.Indexed
  := by
  obtain ⟨attr, hattr, attVal, -, hset⟩ :
      ∃ attr, g.attrVec[handle]? = some attr ∧ ∃ attVal,
        TrainsOs.extend valCapacity [] bytes = some attVal ∧
        { g with attrVec := g.attrVec.set handle { attr with attVal := attVal } } = g' := by
    simpa [Gatt.attWrite, Option.bind_eq_some_iff] using h
  have hhandles : g'.attrVec.map GattAtt.handle = g.attrVec.map GattAtt.handle := by
    rw [← hset, List.map_set]
    apply List.ext_getElem?
    intro i
    rw [List.getElem?_set, List.getElem?_map]
    split_ifs with hi hlt
    · rw [← hi, hattr]
      rfl
    · rw [List.length_map] at hlt
      rw [← hi, List.getElem?_eq_none (Nat.le_of_not_lt hlt)]
      rfl
    · rfl
  have hlength : g'.attrVec.length = g.attrVec.length := by
    rw [← hset, List.length_set]
  constructor
  · rw [hlength]
    exact hg.length_le
  · rw [hhandles, hlength]
    exact hg.handles

/-- The attributes from `start` to `stop` that `keep` keeps. -/
def Gatt.matching (g : Gatt) (keep : GattAtt → Bool) (start stop : ℕ) : List GattAtt :=
  g.attrVec.filter fun a => start ≤ a.handle ∧ a.handle ≤ stop ∧ keep a

section Loop

variable {g : Gatt} (hg : g.Indexed) (keep : GattAtt → Bool) (measure : GattAtt → ℕ)

/-- What the loops of `gatt_read_by_type` and `gatt_find_info` share. -/
def Gatt.discoverLoop (g : Gatt) (keep : GattAtt → Bool) (measure : GattAtt → ℕ) :
    List ℕ → List ℕ → Option (List ℕ)
  | [], res => some res
  | handleId :: range, res =>
      match g.attrVec[handleId]? with
      | none => some res
      | some attr =>
          if keep attr then do
            let len ← match res.head? with
              | some first => g.attrVec[first]?.map measure
              | none => some (measure attr)
            if len ≠ measure attr then
              some res
            else do
              let res ← pushBack gattAttrMax res (handleId % 2 ^ 16)
              g.discoverLoop keep measure range res
          else
            g.discoverLoop keep measure range res

theorem readByTypeLoop_eq (attType : GattUuid) (range res : List ℕ) :
  g.readByTypeLoop attType range res
    = g.discoverLoop (fun a => a.attType = attType) (fun a => a.attVal.length) range res
  := by
  induction range generalizing res with
  | nil => rfl
  | cons handleId range ih =>
    rw [Gatt.readByTypeLoop, Gatt.discoverLoop]
    cases g.attrVec[handleId]? with
    | none => rfl
    | some attr =>
      cases res.head? with
      | none => simp only [ih, decide_eq_true_eq]
      | some first => simp only [ih, decide_eq_true_eq]

theorem findInfoLoop_eq (range res : List ℕ) :
  g.findInfoLoop range res
    = g.discoverLoop (fun _ => true) (fun a => a.attType.toVec.length) range res
  := by
  induction range generalizing res with
  | nil => rfl
  | cons handleId range ih =>
    rw [Gatt.findInfoLoop, Gatt.discoverLoop]
    cases g.attrVec[handleId]? with
    | none => rfl
    | some attr =>
      cases res.head? with
      | none => simp only [ih, if_true]
      | some first => simp only [ih, if_true]

include hg

theorem Gatt.Indexed.handle_eq {k : ℕ} {a : GattAtt} (ha : g.attrVec[k]? = some a) :
  a.handle = k
  := by
  have hlt := (List.getElem?_eq_some_iff.mp ha).1
  have hget := congrArg (fun l => l[k]?) hg.handles
  rw [List.getElem?_map, ha, List.getElem?_range hlt] at hget
  exact Option.some.inj hget

variable {keep measure}

/-- A round that finds the attribute `k`. -/
theorem pushBack_found {k : ℕ} {a : GattAtt} (ha : g.attrVec[k]? = some a) {res : List ℕ}
    (hres : res.length ≤ k) :
  pushBack gattAttrMax res (k % 2 ^ 16) = some (res ++ [k])
  := by
  have hlt := (List.getElem?_eq_some_iff.mp ha).1
  have hlen := hg.length_le
  rw [gattAttrMax] at hlen
  rw [Nat.mod_eq_of_lt (by omega)]
  apply if_pos
  rw [gattAttrMax]
  omega

omit hg in
theorem drop_eq_cons {k : ℕ} {a : GattAtt} (ha : g.attrVec[k]? = some a) :
  g.attrVec.drop k = a :: g.attrVec.drop (k + 1)
  := by
  obtain ⟨hlt, rfl⟩ := List.getElem?_eq_some_iff.mp ha
  exact List.drop_eq_getElem_cons hlt

/-- Once an attribute is found, the loop goes on to the first one that does not agree. -/
theorem discoverLoop_found (n : ℕ) {k first : ℕ} {res : List ℕ} {a₀ : GattAtt}
    (hres : res.length ≤ k) (hhead : res.head? = some first)
    (hfirst : g.attrVec[first]? = some a₀) :
  g.discoverLoop keep measure (List.range' k n) res
    = some (res ++ ((((g.attrVec.drop k).take n).filter keep).takeWhile
        fun a => measure a = measure a₀).map GattAtt.handle)
  := by
  induction n generalizing k res with
  | zero =>
    rw [List.take_zero, List.filter_nil, List.takeWhile_nil, List.map_nil, List.append_nil]
    rfl
  | succ n ih =>
    rw [List.range'_succ, Gatt.discoverLoop]
    cases hk : g.attrVec[k]? with
    | none =>
      rw [List.drop_eq_nil_of_le (List.getElem?_eq_none_iff.mp hk), List.take_nil,
        List.filter_nil, List.takeWhile_nil, List.map_nil, List.append_nil]
    | some a =>
      have hhandle := hg.handle_eq hk
      rw [drop_eq_cons hk, List.take_succ_cons, List.filter_cons]
      dsimp only
      split_ifs with hkeep
      · rw [hhead, List.takeWhile_cons]
        simp only [hfirst, Option.map_some, Option.bind_eq_bind, Option.bind_some]
        by_cases hagree : measure a = measure a₀
        · rw [if_neg (not_not.mpr hagree.symm), if_pos (decide_eq_true hagree),
            pushBack_found hg hk hres, List.map_cons, hhandle]
          apply (ih ?_ ?_).trans
          · rw [List.append_assoc, List.singleton_append]
          · rw [List.length_append]
            exact Nat.succ_le_succ hres
          · rw [List.head?_append, hhead]
            rfl
        · rw [if_pos (Ne.symm hagree), if_neg (by simpa using hagree), List.map_nil,
            List.append_nil]
      · exact ih (Nat.le_succ_of_le hres) hhead

/-- What the loop finds. -/
theorem discoverLoop_nil (n k : ℕ) :
  g.discoverLoop keep measure (List.range' k n) []
    = some ((leading measure (((g.attrVec.drop k).take n).filter keep)).map GattAtt.handle)
  := by
  induction n generalizing k with
  | zero => rfl
  | succ n ih =>
    rw [List.range'_succ, Gatt.discoverLoop]
    cases hk : g.attrVec[k]? with
    | none =>
      rw [List.drop_eq_nil_of_le (List.getElem?_eq_none_iff.mp hk), List.take_nil, List.filter_nil]
      rfl
    | some a =>
      rw [drop_eq_cons hk, List.take_succ_cons, List.filter_cons]
      dsimp only
      split_ifs with hkeep
      · have hpush : pushBack gattAttrMax [] (k % 2 ^ 16) = some [k] :=
          pushBack_found hg hk (Nat.zero_le k)
        rw [leading, List.map_cons, hg.handle_eq hk]
        simp only [List.head?_nil, Option.bind_eq_bind, Option.bind_some, ne_eq, not_true_eq_false,
          if_false, hpush]
        exact discoverLoop_found hg n (Nat.succ_le_succ (Nat.zero_le k)) rfl hk
      · exact ih (k + 1)

theorem handle_lt_of_mem_take {k : ℕ} {a : GattAtt} (ha : a ∈ g.attrVec.take k) :
  a.handle < k
  := by
  obtain ⟨i, hi⟩ := List.mem_iff_getElem?.mp ha
  rw [List.getElem?_take] at hi
  split_ifs at hi with hlt
  rw [hg.handle_eq hi]
  exact hlt

theorem le_handle_of_mem_drop {k : ℕ} {a : GattAtt} (ha : a ∈ g.attrVec.drop k) :
  k ≤ a.handle
  := by
  obtain ⟨i, hi⟩ := List.mem_iff_getElem?.mp ha
  rw [List.getElem?_drop] at hi
  rw [hg.handle_eq hi]
  apply Nat.le_add_right

/-- The attributes in a range of handles are those in the range of indices. -/
theorem matching_eq (start stop : ℕ) :
  g.matching keep start stop = ((g.attrVec.drop start).take (stop + 1 - start)).filter keep
  := by
  have hsplit : g.attrVec = g.attrVec.take start ++ ((g.attrVec.drop start).take (stop + 1 - start)
      ++ g.attrVec.drop (start + (stop + 1 - start))) := by
    rw [← List.drop_drop, List.take_append_drop, List.take_append_drop]
  have hfront : (g.attrVec.take start).filter
      (fun a => start ≤ a.handle ∧ a.handle ≤ stop ∧ keep a) = [] := by
    apply List.filter_eq_nil_iff.mpr
    intro a ha hin
    have hlt := handle_lt_of_mem_take hg ha
    have hle := (of_decide_eq_true hin).1
    omega
  have hbehind : (g.attrVec.drop (start + (stop + 1 - start))).filter
      (fun a => start ≤ a.handle ∧ a.handle ≤ stop ∧ keep a) = [] := by
    apply List.filter_eq_nil_iff.mpr
    intro a ha hin
    have hge := le_handle_of_mem_drop hg ha
    have hle := (of_decide_eq_true hin).2.1
    omega
  have hrange : ((g.attrVec.drop start).take (stop + 1 - start)).filter
      (fun a => start ≤ a.handle ∧ a.handle ≤ stop ∧ keep a)
      = ((g.attrVec.drop start).take (stop + 1 - start)).filter keep := by
    apply List.filter_congr
    intro a ha
    have hge := le_handle_of_mem_drop hg (List.mem_of_mem_take ha)
    rw [List.take_drop] at ha
    have hlt := handle_lt_of_mem_take hg (List.mem_of_mem_drop ha)
    have hle : a.handle ≤ stop := by omega
    simp [hge, hle]
  rw [Gatt.matching]
  conv_lhs => rw [hsplit]
  rw [List.filter_append, List.filter_append, hfront, hbehind, hrange, List.append_nil]
  rfl

variable (keep measure)

/-- A loop finds the longest prefix of the matching attributes that agree. -/
theorem discoverLoop_handles (start stop : ℕ) :
  ∃ found,
    g.discoverLoop keep measure (Gatt.handles start stop) [] = some (found.map GattAtt.handle)
    ∧ LongestPrefix measure (g.matching keep start stop) found
  := by
  use leading measure (g.matching keep start stop)
  constructor
  · rw [matching_eq hg]
    apply discoverLoop_nil hg
  · apply leading_longest

omit hg in
theorem remaining_matching (start stop : ℕ) :
  remaining GattAtt.handle (g.matching keep 0 stop) start = g.matching keep start stop
  := by
  rw [remaining, Gatt.matching, Gatt.matching, List.filter_filter]
  apply List.filter_congr
  intro a _
  simp

theorem ascending_matching (start stop : ℕ) :
  ((g.matching keep start stop).map GattAtt.handle).Pairwise (· < ·)
  := by
  have hhandles : (g.attrVec.map GattAtt.handle).Pairwise (· < ·) := by
    rw [hg.handles]
    apply List.pairwise_lt_range
  exact hhandles.sublist (List.filter_sublist.map _)

/-- The answers to the requests of a client are pages. -/
theorem pages_discoverLoop (stop : ℕ) :
  Pages GattAtt.handle (g.matching keep 0 stop)
    fun start => g.discoverLoop keep measure (Gatt.handles start stop) []
  where
  ascending := ascending_matching hg keep 0 stop
  page start := by
    obtain ⟨found, hfound, hlongest⟩ :=
      discoverLoop_handles hg keep measure start stop
    rw [remaining_matching]
    use found, hfound, hlongest.isPrefix
    rintro rfl
    exact hlongest.eq_nil

end Loop

/-- A request for the attributes with handles from `start` to `stop` that `keep` keeps finds
the longest prefix of them that agree in `measure`. Their handles ascend, and they are what
a client gets that repeats the request from behind the last handle found. -/
structure Gatt.Discovers (g : Gatt) (request : ℕ → ℕ → Option (List ℕ))
    (keep : GattAtt → Bool) (measure : GattAtt → ℕ) (start stop : ℕ) : Prop where
  found : ∃ found, request start stop = some (found.map GattAtt.handle)
    ∧ LongestPrefix measure (g.matching keep start stop) found
  ascending : ((g.matching keep start stop).map GattAtt.handle).Pairwise (· < ·)
  enumerates : ∀ all, Enumerates (fun start => request start stop) start all
    ↔ all = (g.matching keep start stop).map GattAtt.handle

theorem discovers_discoverLoop {g : Gatt} (hg : g.Indexed) (keep : GattAtt → Bool)
    (measure : GattAtt → ℕ) (start stop : ℕ) :
  g.Discovers (fun start stop => g.discoverLoop keep measure (Gatt.handles start stop) [])
    keep measure start stop
  where
  found := discoverLoop_handles hg keep measure start stop
  ascending := ascending_matching hg keep start stop
  enumerates all := by
    rw [← remaining_matching]
    apply (pages_discoverLoop hg keep measure stop).enumerates_iff

/-- What the requests for a type and the requests for all attributes discover. -/
theorem attributes_discovered {g : Gatt} (hg : g.Indexed) (start stop : ℕ) (attType : GattUuid) :
  g.Discovers (fun start stop => g.gattReadByType start stop attType)
      (fun a => a.attType = attType) (fun a => a.attVal.length) start stop
    ∧ g.Discovers (fun start stop => g.gattReadByGroupType start stop attType)
      (fun a => a.attType = attType) (fun a => a.attVal.length) start stop
    ∧ g.Discovers g.gattFindInfo (fun _ => true) (fun a => a.attType.toVec.length) start stop
  := by
  have hread : g.Discovers (fun start stop => g.gattReadByType start stop attType)
      (fun a => a.attType = attType) (fun a => a.attVal.length) start stop := by
    simp only [Gatt.gattReadByType, readByTypeLoop_eq]
    apply discovers_discoverLoop hg
  have hinfo : g.Discovers g.gattFindInfo (fun _ => true) (fun a => a.attType.toVec.length)
      start stop := by
    have heq : g.gattFindInfo = fun start stop => g.discoverLoop (fun _ => true)
        (fun a => a.attType.toVec.length) (Gatt.handles start stop) [] := by
      funext start stop
      apply findInfoLoop_eq
    rw [heq]
    apply discovers_discoverLoop hg
  exact ⟨hread, hread, hinfo⟩

/-- The characteristics of the server. -/
theorem attributes_discovered_global :
  (layout globalBuilder).Discovers
      (fun start stop => (layout globalBuilder).gattReadByType start stop (.u16 0x2803))
      (fun a => a.attType = .u16 0x2803) (fun a => a.attVal.length) 1 0xFFFF
    ∧ (layout globalBuilder).Discovers
      (fun start stop => (layout globalBuilder).gattReadByGroupType start stop (.u16 0x2803))
      (fun a => a.attType = .u16 0x2803) (fun a => a.attVal.length) 1 0xFFFF
    ∧ (layout globalBuilder).Discovers (layout globalBuilder).gattFindInfo (fun _ => true)
      (fun a => a.attType.toVec.length) 1 0xFFFF
  := attributes_discovered (indexed_layout (by decide +kernel)) 1 0xFFFF (.u16 0x2803)

end TrainsOs.Bluetooth
