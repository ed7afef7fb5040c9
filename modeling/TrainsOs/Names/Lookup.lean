import TrainsOs.Names.Server
import Mathlib.Data.List.Dedup

/-!
# Looking up names

A request for a name is answered with the task that registered first under the hash of the
name. It is the right task exactly when that registration is one for the name itself, or
another by the same task.
-/

namespace TrainsOs.Names

open MsgBox Bluetooth

variable {es : List Event} {s s' : State} {e : Event} {msg : Msg} {name ptr : List UInt8}
  {recvBuf : ℕ → UInt8}

/-! ### The requests -/

/-- The length of the longest name that fits into the box of the server. -/
def nameMax : ℕ :=
  arrayCapacity nsGetReq

theorem variants_names :
  MsgBox.Variants [nsGetReq, nsSetReq]
  := by
  constructor
  · decide +kernel
  · decide +kernel

/-- The request for a name, as its sender has built it. -/
def Requests (ty : MsgType) (name : List UInt8) (recvBuf : ℕ → UInt8) : Prop :=
  ∃ ptr, Sent .wrapping ty [⟨0, name.length, name, ptr⟩] recvBuf

theorem fromRecvBox_get (h : Requests nsGetReq name recvBuf) :
  fromRecvBox recvBuf = if name.length ≤ nameMax then some (.nsGetReq name) else none
  := by
  obtain ⟨ptr, h⟩ := h
  have hbase : nsGetReq.base ≤ defaultBoxSize := by decide
  have hrecv : recvRequest .wrapping [nsGetReq, nsSetReq] recvBuf
      = if inRecvBox nsGetReq [name] then some (some (nsGetReq, name)) else none :=
    recvRequest_eq h variants_names List.mem_cons_self hbase
  rw [fromRecvBox, hrecv]
  by_cases hlen : name.length ≤ nameMax
  · rw [if_pos hlen, if_pos ((inRecvBox_iff hbase).mpr hlen)]
    rfl
  · rw [if_neg hlen, if_neg (mt (inRecvBox_iff hbase).mp hlen)]
    rfl

theorem fromRecvBox_set (h : Requests nsSetReq name recvBuf) :
  fromRecvBox recvBuf = if name.length ≤ nameMax then some (.nsSetReq name) else none
  := by
  obtain ⟨ptr, h⟩ := h
  have hbase : nsSetReq.base ≤ defaultBoxSize := by decide
  have hrecv : recvRequest .wrapping [nsGetReq, nsSetReq] recvBuf
      = if inRecvBox nsSetReq [name] then some (some (nsSetReq, name)) else none :=
    recvRequest_eq h variants_names (List.mem_cons_of_mem _ List.mem_cons_self) hbase
  have hmax : nameMax = arrayCapacity nsSetReq := by decide
  rw [fromRecvBox, hrecv, hmax]
  by_cases hlen : name.length ≤ arrayCapacity nsSetReq
  · have hname : nsSetReq.typeName ≠ nsGetReq.typeName := by decide
    have hset : (if nsSetReq.typeName = nsGetReq.typeName then some (Msg.nsGetReq name)
        else some (Msg.nsSetReq name)) = some (.nsSetReq name) := if_neg hname
    rw [if_pos hlen, if_pos ((inRecvBox_iff hbase).mpr hlen)]
    exact hset
  · rw [if_neg hlen, if_neg (mt (inRecvBox_iff hbase).mp hlen)]
    rfl

/-! ### The invariant -/

theorem firstSet_append (p : List UInt8 → Bool) (es : List Event) (e : Event) :
  firstSet p (es ++ [e]) = (firstSet p es).or (if e.setName.any p then some e else none)
  := by
  rw [firstSet, firstSet, List.find?_append]
  congr 1
  cases h : e.setName.any p with
  | false => simp [h]
  | true => simp [h]

/-- A message that registers nothing. -/
theorem firstSet_of_none {p : List UInt8 → Bool} (h : e.setName = none) :
  firstSet p (es ++ [e]) = firstSet p es
  := by
  rw [firstSet_append, h]
  exact Option.or_none

/-- The map has for each hash the task that registered first under it. -/
structure Inv (es : List Event) (s : State) : Prop where
  callers : s.callers = []
  get : ∀ h, getMap s.nameMap h = (firstSet (fun n => calcHash n = h) es).map Event.sender
  nodup : (s.nameMap.map Prod.fst).Nodup
  keys : ∀ k ∈ s.nameMap.map Prod.fst, ∃ n ∈ setNames es, calcHash n = k

theorem inv_new (sendBox : SendBox) :
  Inv [] (State.new sendBox)
  := ⟨rfl, fun _ => rfl, List.nodup_nil, nofun⟩

/-- There are not more hashes than names. -/
theorem Inv.length_le (h : Inv es s) :
  s.nameMap.length ≤ (setNames es).length
  := by
  have hsub : s.nameMap.map Prod.fst ⊆ (setNames es).map calcHash := by
    intro k hk
    obtain ⟨n, hn, rfl⟩ := h.keys k hk
    exact List.mem_map_of_mem hn
  have hle := (List.subperm_of_subset h.nodup hsub).length_le
  rwa [List.length_map, List.length_map] at hle

theorem mem_setNames_append {n : List UInt8} (h : n ∈ setNames es) (e : Event) :
  n ∈ setNames (es ++ [e])
  := by
  rw [setNames, List.mem_dedup] at h ⊢
  rw [List.filterMap_append]
  exact List.mem_append_left _ h

theorem mem_setNames_self {n : List UInt8} (h : e.setName = some n) (es : List Event) :
  n ∈ setNames (es ++ [e])
  := by
  rw [setNames, List.mem_dedup, List.filterMap_append]
  apply List.mem_append_right
  rw [List.mem_filterMap]
  exact ⟨e, List.mem_cons_self, h⟩

/-- A message that leaves the map as it is and registers under no new hash. -/
theorem Inv.same (h : Inv es s) (hcallers : s'.callers = []) (hmap : s'.nameMap = s.nameMap)
    (hfirst : ∀ k, firstSet (fun n => calcHash n = k) (es ++ [e])
      = firstSet (fun n => calcHash n = k) es) :
  Inv (es ++ [e]) s'
  := by
  constructor
  · exact hcallers
  · intro k
    rw [hmap, hfirst]
    exact h.get k
  · rw [hmap]
    exact h.nodup
  · intro k hk
    rw [hmap] at hk
    obtain ⟨n, hn, rfl⟩ := h.keys k hk
    exact ⟨n, mem_setNames_append hn e, rfl⟩

/-- The map after a message. -/
theorem handle_spec (h : Inv es s) (hcap : (setNames (es ++ [e])).length ≤ mapCap)
    (hmsg : e.msg = some msg) :
  ∃ nameMap tid, s.handle e.sender msg = some (nameMap, tid) ∧
    (∀ s' : State, s'.callers = [] → s'.nameMap = nameMap → Inv (es ++ [e]) s')
  := by
  rw [State.handle.eq_def]
  cases msg with
  | nsGetReq n =>
    refine ⟨_, _, rfl, fun s' hcallers hmap => h.same hcallers hmap fun k => ?_⟩
    apply firstSet_of_none
    rw [Event.setName, hmsg]
  | unknown =>
    refine ⟨_, _, rfl, fun s' hcallers hmap => h.same hcallers hmap fun k => ?_⟩
    apply firstSet_of_none
    rw [Event.setName, hmsg]
  | nsSetReq n =>
    have hset : e.setName = some n := by rw [Event.setName, hmsg]
    dsimp only
    rw [handleSetReq]
    cases hget : getMap s.nameMap (calcHash n) with
    | some tid =>
      refine ⟨_, _, rfl, fun s' hcallers hmap => h.same hcallers hmap fun k => ?_⟩
      rw [firstSet_append, hset]
      by_cases hk : calcHash n = k
      · subst hk
        rw [h.get] at hget
        obtain ⟨e', he', -⟩ := Option.map_eq_some_iff.mp hget
        rw [he']
        rfl
      · simp [hk]
    | none =>
      have hnew := getMap_eq_none_iff.mp hget
      have hroom : s.nameMap.length < mapCap := by
        have hsub : calcHash n :: s.nameMap.map Prod.fst
            ⊆ (setNames (es ++ [e])).map calcHash := by
          intro k hk
          rcases List.mem_cons.mp hk with rfl | hk
          · exact List.mem_map_of_mem (mem_setNames_self hset es)
          · obtain ⟨n', hn', rfl⟩ := h.keys k hk
            exact List.mem_map_of_mem (mem_setNames_append hn' e)
        have hle := (List.subperm_of_subset (List.nodup_cons.mpr ⟨hnew, h.nodup⟩) hsub).length_le
        rw [List.length_cons, List.length_map, List.length_map] at hle
        omega
      have hinsert : insertMap mapCap s.nameMap (calcHash n) e.sender
          = some (s.nameMap ++ [(calcHash n, e.sender)]) := by
        rw [insertMap, if_neg hnew, pushBack, if_pos hroom]
      refine ⟨s.nameMap ++ [(calcHash n, e.sender)], some e.sender, ?_, ?_⟩
      · dsimp only
        rw [hinsert]
        rfl
      · intro s' hcallers hmap
        constructor
        · exact hcallers
        · intro k
          rw [hmap, getMap_insertMap hinsert, firstSet_append, hset, h.get]
          by_cases hk : k = calcHash n
          · subst hk
            rw [h.get, Option.map_eq_none_iff] at hget
            rw [if_pos rfl, hget]
            simp
          · simp [hk, Ne.symm hk]
        · rw [hmap, List.map_append, List.nodup_append]
          refine ⟨h.nodup, List.nodup_singleton _, ?_⟩
          rintro k hk k' hk' rfl
          obtain rfl := List.mem_singleton.mp hk'
          exact hnew hk
        · intro k hk
          rw [hmap, List.map_append, List.mem_append] at hk
          rcases hk with hk | hk
          · obtain ⟨n', hn', rfl⟩ := h.keys k hk
            exact ⟨n', mem_setNames_append hn' e, rfl⟩
          · exact ⟨n, mem_setNames_self hset es, (List.mem_singleton.mp hk).symm⟩

/-- Every message that is decoded is answered. -/
theorem step_spec (h : Inv es s) (hcap : (setNames (es ++ [e])).length ≤ mapCap)
    (hmsg : e.msg = some msg) :
  ∃ s' nameMap tid, s.handle e.sender msg = some (nameMap, tid) ∧ step s e = some s' ∧
    s'.nameMap = nameMap ∧ s'.out = [.nsResp e.sender tid] ∧ Inv (es ++ [e]) s'
  := by
  obtain ⟨nameMap, tid, hhandle, hinv⟩ := handle_spec h hcap hmsg
  have hbase : nsResp.base ≤ defaultBoxSize := by decide
  obtain ⟨box, hbox⟩ := newMsg_eq hbase s.sendBox (optionBytes tid)
  refine ⟨_, nameMap, tid, hhandle, ?_, rfl, rfl, hinv
    { nameMap := nameMap, sendBox := box, callers := [], out := [.nsResp e.sender tid] } rfl rfl⟩
  rw [step]
  simp only [hmsg, hhandle, hbox, h.callers, List.nil_append, kerReply, List.mem_singleton, if_true,
    List.erase_cons_head, Option.bind_eq_bind, Option.bind_some]

/-! ### Answers -/

/-- The map has the task that holds the hash of the name. -/
theorem handleGetReq_eq (h : Inv es s) (hpos : ∀ e ∈ es, 0 < e.sender) (name : List UInt8) :
  handleGetReq s.nameMap name = holder es name
  := by
  rw [handleGetReq, h.get, holder]
  cases hfirst : firstSet (fun n => calcHash n = calcHash name) es with
  | none => rfl
  | some e => exact if_pos (hpos e (List.mem_of_find?_eq_some hfirst))

/-- Whoever registered a name also registered its hash, if nobody did before. -/
theorem holder_of_registrant {tid : ℤ} (h : registrant es name = some tid) :
  ∃ tid', holder es name = some tid'
  := by
  obtain ⟨e, he, -⟩ := Option.map_eq_some_iff.mp h
  have hname := List.find?_some he
  have hmem := List.mem_of_find?_eq_some he
  have hany : e.setName.any (fun n => calcHash n = calcHash name) = true := by
    rw [Option.any_eq_true] at hname ⊢
    obtain ⟨n, hn, heq⟩ := hname
    refine ⟨n, hn, ?_⟩
    rw [of_decide_eq_true heq]
    exact decide_eq_true rfl
  have hsome : (firstSet (fun n => calcHash n = calcHash name) es).isSome := by
    rw [firstSet, List.find?_isSome]
    exact ⟨e, hmem, hany⟩
  obtain ⟨e', he'⟩ := Option.isSome_iff_exists.mp hsome
  exact ⟨e'.sender, by rw [holder, he', Option.map_some]⟩

theorem holder_eq_iff :
  holder es name = registrant es name ↔ Own es name
  := by
  constructor
  · intro h tid htid
    rw [← h]
    exact htid
  · intro h
    cases hholder : holder es name with
    | some tid => exact (h tid hholder).symm
    | none =>
      cases hregistrant : registrant es name with
      | none => rfl
      | some tid =>
        obtain ⟨tid', htid'⟩ := holder_of_registrant hregistrant
        cases hholder.symm.trans htid'

/-- Under the hash of a name that is registered nothing changes, and otherwise the answer
changes for every name with this hash. -/
theorem handleGetReq_set {other : List UInt8} (hmsg : e.msg = some (.nsSetReq other))
    (hpos : 0 < e.sender) (h : step s e = some s') :
  handleGetReq s'.nameMap name = handleGetReq s.nameMap name ↔
    (calcHash other = calcHash name → (getMap s.nameMap (calcHash name)).isSome)
  := by
  rw [step, hmsg, Option.bind_eq_bind, Option.bind_some, State.handle] at h
  obtain ⟨⟨nameMap, tid⟩, hhandle, h⟩ := Option.bind_eq_some_iff.mp h
  obtain ⟨box, -, h⟩ := Option.bind_eq_some_iff.mp h
  obtain ⟨callers, -, h⟩ := Option.bind_eq_some_iff.mp h
  obtain rfl := Option.some.inj h
  dsimp only at hhandle ⊢
  rw [handleSetReq] at hhandle
  cases hget : getMap s.nameMap (calcHash other) with
  | some tid' =>
    rw [hget] at hhandle
    obtain ⟨rfl, -⟩ := Prod.mk.inj (Option.some.inj hhandle)
    refine iff_of_true rfl ?_
    intro heq
    rw [← heq, hget]
    rfl
  | none =>
    rw [hget] at hhandle
    obtain ⟨nameMap', hinsert, hhandle⟩ := Option.bind_eq_some_iff.mp hhandle
    obtain ⟨rfl, -⟩ := Prod.mk.inj (Option.some.inj hhandle)
    rw [handleGetReq, handleGetReq, getMap_insertMap hinsert]
    by_cases heq : calcHash name = calcHash other
    · rw [if_pos heq, heq, hget]
      simp [hpos]
    · rw [if_neg heq]
      exact iff_of_true rfl fun h => absurd h.symm heq

/-! ### Runs -/

theorem length_setNames_le (bs : List Event) (e : Event) (es : List Event) :
  (setNames (bs ++ [e])).length ≤ (setNames (bs ++ e :: es)).length
  := by
  suffices hsub : setNames (bs ++ [e]) ⊆ setNames (bs ++ e :: es) by
    exact (List.subperm_of_subset (List.nodup_dedup _) hsub).length_le
  intro n hn
  rw [setNames, List.mem_dedup, List.filterMap_append, List.mem_append] at hn ⊢
  apply hn.imp_right
  intro hn
  rw [← List.singleton_append, List.filterMap_append]
  exact List.mem_append_left _ hn

theorem run_spec {bs : List Event} (h : Inv bs s) (hmsg : ∀ e ∈ es, e.msg ≠ none)
    (hcap : (setNames (bs ++ es)).length ≤ mapCap) :
  ∃ s', Run.run step s es = some s' ∧ Inv (bs ++ es) s'
  := by
  induction es generalizing bs s with
  | nil =>
    rw [List.append_nil]
    exact ⟨s, rfl, h⟩
  | cons e es ih =>
    rw [List.forall_mem_cons] at hmsg
    obtain ⟨msg, hmsg₁⟩ := Option.ne_none_iff_exists'.mp hmsg.1
    obtain ⟨s₁, -, -, -, hstep, -, -, hinv⟩ := step_spec h
      ((length_setNames_le bs e es).trans hcap) hmsg₁
    rw [← List.singleton_append, ← List.append_assoc] at hcap
    obtain ⟨s', hrun, hinv'⟩ := ih hinv hmsg.2 hcap
    rw [List.append_assoc] at hinv'
    refine ⟨s', ?_, hinv'⟩
    rw [Run.run_cons hstep]
    exact hrun

/-- A message that the server cannot decode makes it panic. -/
theorem msg_ne_none (h : step s e = some s') :
  e.msg ≠ none
  := by
  intro hnone
  rw [step, hnone] at h
  cases h

theorem msg_ne_none_of_run (h : Run.run step s es = some s') :
  ∀ e ∈ es, e.msg ≠ none
  := by
  induction es generalizing s with
  | nil => simp
  | cons e es ih =>
    obtain ⟨s₁, hstep, hrun⟩ := Option.bind_eq_some_iff.mp h
    exact List.forall_mem_cons.mpr ⟨msg_ne_none hstep, ih hrun⟩

/-- A message that registers nothing uses no capacity. -/
theorem setNames_get (hmsg : e.msg = some (.nsGetReq name)) :
  setNames (es ++ [e]) = setNames es
  := by
  rw [setNames, setNames, List.filterMap_append]
  simp [Event.setName, hmsg]

/-- What is answered. -/
theorem step_get (hinv : Inv es s) (hpos : ∀ e ∈ es, 0 < e.sender)
    (hcap : (setNames es).length ≤ mapCap) (hmsg : e.msg = some (.nsGetReq name)) :
  ∃ s', step s e = some s' ∧ s'.out = [.nsResp e.sender (holder es name)]
  := by
  obtain ⟨s', nameMap, tid, hhandle, hstep, -, hout, -⟩ := step_spec hinv
    (by rw [setNames_get hmsg]; exact hcap) hmsg
  rw [State.handle] at hhandle
  obtain ⟨-, rfl⟩ := Prod.mk.inj (Option.some.inj hhandle)
  use s', hstep
  rw [hout, handleGetReq_eq hinv hpos]

/-- The request for a name is answered with the task that first registered it exactly when
the name fits into the box and the task that holds its hash is this one. -/
theorem get_right_iff (hinv : Inv es s) (hpos : ∀ e ∈ es, 0 < e.sender)
    (hcap : (setNames es).length ≤ mapCap) (hreq : Requests nsGetReq name e.recvBuf) :
  (∃ s', step s e = some s' ∧ s'.out = [.nsResp e.sender (registrant es name)])
    ↔ name.length ≤ nameMax ∧ Own es name
  := by
  have hdecode : e.msg = _ := fromRecvBox_get hreq
  by_cases hlen : name.length ≤ nameMax
  · rw [if_pos hlen] at hdecode
    obtain ⟨s₁, hstep₁, hout₁⟩ := step_get hinv hpos hcap hdecode
    rw [← holder_eq_iff]
    constructor
    · rintro ⟨s', hstep, hout⟩
      obtain rfl := Option.some.inj (hstep.symm.trans hstep₁)
      rw [hout₁, List.singleton_inj, Output.nsResp.injEq] at hout
      exact ⟨hlen, hout.2⟩
    · rintro ⟨-, heq⟩
      rw [heq] at hout₁
      exact ⟨s₁, hstep₁, hout₁⟩
  · rw [if_neg hlen] at hdecode
    constructor
    · rintro ⟨s', hstep, -⟩
      exact absurd hdecode (msg_ne_none hstep)
    · rintro ⟨hle, -⟩
      exact absurd hle hlen

/-- In every run a message stops the server exactly when it cannot be decoded, which for a
request is when its name is longer than 984 bytes. A request for a name is answered with the
task that first registered it, if any, exactly when it is decoded and the first registration
under the hash of the name, if any, is by that task; and a registration changes the answer for
exactly the names with its hash when there is none under it. -/
theorem names_right (sendBox : SendBox) {es : List Event} (hpos : ∀ e ∈ es, 0 < e.sender)
    (hcap : (setNames es).length ≤ mapCap) :
  (Run.run step (State.new sendBox) es ≠ none ↔ ∀ e ∈ es, e.msg ≠ none) ∧
  (∀ name recvBuf, Requests nsGetReq name recvBuf →
    fromRecvBox recvBuf = if name.length ≤ nameMax then some (.nsGetReq name) else none) ∧
  (∀ name recvBuf, Requests nsSetReq name recvBuf →
    fromRecvBox recvBuf = if name.length ≤ nameMax then some (.nsSetReq name) else none) ∧
  ∀ s, Run.run step (State.new sendBox) es = some s →
    (∀ e name, Requests nsGetReq name e.recvBuf →
      ((∃ s', step s e = some s' ∧ s'.out = [.nsResp e.sender (registrant es name)])
        ↔ name.length ≤ nameMax ∧ Own es name)) ∧
    (∀ e other name s', Requests nsSetReq other e.recvBuf → 0 < e.sender → step s e = some s' →
      (handleGetReq s'.nameMap name = handleGetReq s.nameMap name ↔
        (calcHash other = calcHash name → (getMap s.nameMap (calcHash name)).isSome)))
  := by
  refine ⟨?_, fun name recvBuf => fromRecvBox_get, fun name recvBuf => fromRecvBox_set, ?_⟩
  · constructor
    · intro hrun
      obtain ⟨s, hrun⟩ := Option.ne_none_iff_exists'.mp hrun
      exact msg_ne_none_of_run hrun
    · intro hmsg
      obtain ⟨s, hrun, -⟩ := run_spec (inv_new sendBox) hmsg hcap
      rw [hrun]
      exact Option.some_ne_none s
  · intro s hrun
    obtain ⟨s₁, hrun₁, hinv⟩ := run_spec (inv_new sendBox) (msg_ne_none_of_run hrun) hcap
    obtain rfl := Option.some.inj (hrun.symm.trans hrun₁)
    rw [List.nil_append] at hinv
    constructor
    · exact fun e name hreq => get_right_iff hinv hpos hcap hreq
    · intro e other name s' hreq he hstep
      have hmsg : e.msg = _ := fromRecvBox_set hreq
      split_ifs at hmsg with hlen
      · exact handleGetReq_set hmsg he hstep
      · exact absurd hmsg (msg_ne_none hstep)

def emptyBox : SendBox where
  len := 0
  sendBuf := fun _ => 0

/-- The box of the server after a task has sent a request from a box of 2048 bytes. -/
def request (ty : MsgType) (name : List UInt8) : ℕ → UInt8 :=
  match send .wrapping ty u8 emptyBox 2048 [] [⟨0, name.length, name, []⟩] with
  | some box => delivered box defaultBoxSize fun _ => 0
  | none => fun _ => 0

theorem requests_request {ty : MsgType}
    (h : (send .wrapping ty u8 emptyBox 2048 [] [⟨0, name.length, name, []⟩]).isSome) :
  Requests ty name (request ty name)
  := by
  obtain ⟨box, hbox⟩ := Option.isSome_iff_exists.mp h
  refine ⟨[], emptyBox, 2048, [], box, fun _ => 0, by decide, hbox, ?_⟩
  rw [request, hbox]

/-- A message from a task. -/
def setReq (sender : ℤ) (name : String) : Event where
  sender := sender
  recvBuf := request nsSetReq name.toUTF8.data.toList

def getReq (sender : ℤ) (name : String) : Event where
  sender := sender
  recvBuf := request nsGetReq name.toUTF8.data.toList

theorem msg_setReq {sender : ℤ} {name : String}
    (h : (send .wrapping nsSetReq u8 emptyBox 2048 []
      [⟨0, name.toUTF8.data.toList.length, name.toUTF8.data.toList, []⟩]).isSome)
    (hlen : name.toUTF8.data.toList.length ≤ nameMax) :
  (setReq sender name).msg ≠ none
  := by
  have hmsg : (setReq sender name).msg = _ := fromRecvBox_set (requests_request h)
  rw [hmsg, if_pos hlen]
  exact Option.some_ne_none _

/-- Two names with different hashes are registered, and one is asked for. -/
theorem names_right_two :
  ∃ s s', Run.run step (State.new emptyBox) [setReq 5 "clock_server", setReq 6 "rpi_uart"] = some s ∧
    step s (getReq 7 "rpi_uart") = some s' ∧
    s'.out = [.nsResp 7 (some 6)]
  := by
  have hpos : ∀ e ∈ [setReq 5 "clock_server", setReq 6 "rpi_uart"], 0 < e.sender := by decide
  obtain ⟨hruns, -, -, hanswers⟩ := names_right emptyBox hpos (by decide +kernel)
  have hmsg : ∀ e ∈ [setReq 5 "clock_server", setReq 6 "rpi_uart"], e.msg ≠ none := by
    simp only [List.forall_mem_cons, List.not_mem_nil, false_imp_iff, implies_true, and_true]
    exact ⟨msg_setReq (by decide +kernel) (by decide +kernel),
      msg_setReq (by decide +kernel) (by decide +kernel)⟩
  obtain ⟨s, hrun⟩ := Option.ne_none_iff_exists'.mp (hruns.mpr hmsg)
  obtain ⟨hget, -⟩ := hanswers s hrun
  have hreq : Requests nsGetReq "rpi_uart".toUTF8.data.toList (getReq 7 "rpi_uart").recvBuf :=
    requests_request (by decide +kernel)
  have hregistrant : registrant [setReq 5 "clock_server", setReq 6 "rpi_uart"]
      "rpi_uart".toUTF8.data.toList = some 6 := by
    decide +kernel
  have hholder : holder [setReq 5 "clock_server", setReq 6 "rpi_uart"]
      "rpi_uart".toUTF8.data.toList = some 6 := by
    decide +kernel
  obtain ⟨s', hstep, hout⟩ := (hget _ _ hreq).mpr ⟨by decide +kernel, by
    rw [← holder_eq_iff, hholder, hregistrant]⟩
  rw [hregistrant] at hout
  exact ⟨s, s', hrun, hstep, hout⟩

/-- A name that nobody registered is answered with a task that registered another one with
the same hash. -/
theorem names_wrong :
  ∃ s s', Run.run step (State.new emptyBox) [setReq 5 "8yn0iYCKYHlIj4-BwPqk"] = some s ∧
    step s (getReq 6 "GReLUrM4wMqfg9yzV3KQ") = some s' ∧
    s'.out = [.nsResp 6 (some 5)] ∧
    registrant [setReq 5 "8yn0iYCKYHlIj4-BwPqk"] "GReLUrM4wMqfg9yzV3KQ".toUTF8.data.toList = none
  := by
  have hrun : ((Run.run step (State.new emptyBox) [setReq 5 "8yn0iYCKYHlIj4-BwPqk"]).bind fun s =>
      step s (getReq 6 "GReLUrM4wMqfg9yzV3KQ")).any
        (fun s' => s'.out = [.nsResp 6 (some 5)]) = true := by
    decide +kernel
  obtain ⟨s', hs', hout⟩ := Option.any_eq_true _ _ |>.mp hrun
  obtain ⟨s, hs, hstep⟩ := Option.bind_eq_some_iff.mp hs'
  exact ⟨s, s', hs, hstep, of_decide_eq_true hout, by decide +kernel⟩

end TrainsOs.Names
