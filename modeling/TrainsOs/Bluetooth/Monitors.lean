import TrainsOs.Bluetooth.Total

/-!
# What a monitor is told

What one round of the server does to the monitors. A write tells its value to the monitors
of its handle and forgets them, a registration adds one, and every other message leaves
them alone.
-/

namespace TrainsOs.Bluetooth

variable {b : Build} {s s' : State} {e : Event} {data : List UInt8} {m : ℤ}

/-- The values that the task `m` is told. -/
def told (m : ℤ) (out : List Output) : List (List UInt8) :=
  out.filterMap fun o => match o with
    | .gattServerMonitorResp tid bytes => if tid = m then some bytes else none
    | _ => none

theorem told_append (m : ℤ) (out out' : List Output) :
  told m (out ++ out') = told m out ++ told m out'
  := List.filterMap_append

/-- A monitor that is told once. -/
theorem told_monitors {ms : List ℤ} (hnodup : ms.Nodup) (m : ℤ) (bytes : List UInt8) :
  told m (ms.map fun t => .gattServerMonitorResp t bytes) = if m ∈ ms then [bytes] else []
  := by
  induction ms with
  | nil => rfl
  | cons t ms ih =>
    obtain ⟨hnew, hnodup⟩ := List.nodup_cons.mp hnodup
    have hcons : told m ((t :: ms).map fun t => .gattServerMonitorResp t bytes)
        = (if t = m then [bytes] else []) ++
          told m (ms.map fun t => .gattServerMonitorResp t bytes) := by
      rw [told, told, List.map_cons, List.filterMap_cons]
      by_cases htm : t = m
      · simp [htm]
      · simp [htm]
    rw [hcons, ih hnodup]
    by_cases htm : t = m
    · subst htm
      rw [if_pos rfl, if_neg hnew, if_pos List.mem_cons_self, List.append_nil]
    · rw [if_neg htm, List.nil_append]
      congr 1
      rw [List.mem_cons, eq_iff_iff]
      exact (or_iff_right (Ne.symm htm)).symm

/-! ### Where monitors are left alone -/

/-- The monitors stay and are told nothing, and no task begins to wait. -/
structure Silent (s s' : State) : Prop where
  monitorMap : s'.monitorMap = s.monitorMap
  told : ∀ m, told m s'.out = told m s.out
  callers : s'.callers.Sublist s.callers

theorem Silent.trans {s'' : State} (h : Silent s s') (h' : Silent s' s'') :
  Silent s s''
  := by
  constructor
  · rw [h'.monitorMap, h.monitorMap]
  · intro m
    rw [h'.told, h.told]
  · exact h'.callers.trans h.callers

/-- The outcome of a computation is silent. -/
def Silently (s : State) (r : Option State) : Prop :=
  ∀ s', r = some s' → Silent s s'

namespace Silently

variable {α : Type} {r : Option State}

/-- A state that differs in nothing that concerns the monitors. -/
theorem same (hmap : s'.monitorMap = s.monitorMap) (hout : s'.out = s.out)
    (hcallers : s'.callers = s.callers) :
  Silently s (some s')
  := by
  intro t ht
  obtain rfl := Option.some.inj ht
  constructor
  · exact hmap
  · intro m
    rw [hout]
  · rw [hcallers]

theorem bind {x : Option α} {f : α → Option State} (h : ∀ a, Silently s (f a)) :
  Silently s (x >>= f)
  := by
  intro s' hs'
  obtain ⟨a, -, ha⟩ := Option.bind_eq_some_iff.mp hs'
  exact h a s' ha

/-- One silent computation after another. -/
theorem seq {f : State → Option State} (h : Silently s r)
    (hf : ∀ s', Silently s' (f s')) :
  Silently s (r >>= f)
  := by
  intro s' hs'
  obtain ⟨s₁, hs₁, ha⟩ := Option.bind_eq_some_iff.mp hs'
  exact (h s₁ hs₁).trans (hf s₁ s' ha)

/-- A silent computation from a state that differs in nothing that concerns the monitors. -/
theorem from_same {t : State} (h : Silently t r) (hmap : t.monitorMap = s.monitorMap)
    (hout : t.out = s.out) (hcallers : t.callers = s.callers) :
  Silently s r
  := by
  intro s' hs'
  exact (same hmap hout hcallers t rfl).trans (h s' hs')

end Silently

theorem sendUart_silent (bytes : List UInt8) :
  Silently s (s.sendUart b bytes)
  := by
  rw [State.sendUart]
  apply Silently.bind
  rintro box s' ⟨⟩
  constructor
  · rfl
  · intro m
    rw [told_append]
    exact List.append_nil _
  · exact List.Sublist.refl _

theorem respGatt_silent (pdu : List UInt8) :
  Silently s (s.respGatt b pdu)
  := sendUart_silent _

/-- A reply that is not to a monitor. -/
theorem replyNew_silent {ty : MsgBox.MsgType} {contents : List UInt8} {tid : ℤ} {output : Output}
    (houtput : ∀ m, told m [output] = []) :
  Silently s (s.replyNew ty contents tid output)
  := by
  rw [State.replyNew]
  apply Silently.bind
  intro box s' hs'
  rw [State.reply] at hs'
  obtain ⟨callers, hcallers, hs'⟩ := Option.bind_eq_some_iff.mp hs'
  obtain rfl := Option.some.inj hs'
  rw [kerReply] at hcallers
  split_ifs at hcallers with hmem
  obtain rfl := Option.some.inj hcallers
  constructor
  · rfl
  · intro m
    rw [told_append, houtput, List.append_nil]
  · exact List.erase_sublist

theorem updateTrigger_silent (charac : GattCharac) :
  Silently s (s.updateTrigger b charac)
  := by
  rw [State.updateTrigger]
  cases charac.clientConfigHandle with
  | none => exact Silently.same rfl rfl rfl
  | some h =>
    apply Silently.bind
    intro a
    apply Silently.bind
    intro x
    split_ifs
    · exact Silently.same rfl rfl rfl
    all_goals
      apply Silently.bind
      intro a
      apply sendUart_silent

theorem publish_silent (charac : GattCharac) (bytes : List UInt8) :
  Silently s (s.publish b charac bytes)
  := by
  rw [State.publish]
  apply Silently.bind
  intro g
  dsimp only
  split_ifs
  · exact (updateTrigger_silent charac).from_same rfl rfl rfl
  · exact Silently.same rfl rfl rfl

theorem clockTick_silent :
  Silently s (s.clockTick b e)
  := by
  have hreply : ∀ (s : State) ticks, Silently s
      (s.replyNew clockWaitReq (leBytes 8 ticks) e.sender (.clockWaitReq e.sender ticks)) := by
    intro s ticks
    apply replyNew_silent
    intro m
    rfl
  rw [State.clockTick]
  split_ifs
  · apply Silently.bind
    intro c
    apply Silently.seq
    · apply publish_silent
    · intro s'
      apply Silently.bind
      intro c
      apply Silently.seq
      · apply publish_silent
      · intro s'
        apply hreply
  · apply hreply

theorem timeout_silent :
  Silently s (s.timeout b e)
  := by
  have hreply : ∀ (s : State) ticks, Silently s
      (s.replyNew clockWaitReq (leBytes 8 ticks) e.sender (.clockWaitReq e.sender ticks)) := by
    intro s ticks
    apply replyNew_silent
    intro m
    rfl
  rw [State.timeout]
  dsimp only
  split_ifs
  · apply hreply
  · apply Silently.seq
    · apply sendUart_silent
    · intro s'
      apply hreply
  · apply hreply

/-! ### The requests of the client -/

theorem exchangeMtu_silent :
  Silently s (s.exchangeMtu b data)
  := by
  rw [State.exchangeMtu]
  apply Silently.bind
  intro _
  apply Silently.bind
  intro _
  apply respGatt_silent

/-- An error response when no handle is found, and a list otherwise. -/
theorem found_silent {x : Option (List ℕ)} {k : List ℕ → Option State}
    (hnil : Silently s (k [])) (hcons : ∀ h hs, Silently s (k (h :: hs))) :
  Silently s (x >>= k)
  := by
  apply Silently.bind
  intro hs
  cases hs with
  | nil => exact hnil
  | cons h hs => exact hcons h hs

/-- A value of the first handle, and a response. -/
theorem list_silent {α β : Type} {x : Option α} {r : α → Option β} {pdu : α → β → List UInt8} :
  Silently s (x >>= fun a => r a >>= fun resp => s.respGatt b (pdu a resp))
  := by
  apply Silently.bind
  intro a
  apply Silently.bind
  intro resp
  apply respGatt_silent

theorem readByGroupType_silent :
  Silently s (s.readByGroupType b data)
  := by
  rw [State.readByGroupType]
  apply Silently.bind
  intro d1
  apply Silently.bind
  intro d3
  apply Silently.bind
  intro d5
  apply Silently.bind
  intro t
  apply found_silent
  · apply respGatt_silent
  · intro h hs
    apply list_silent

theorem readByType_silent :
  Silently s (s.readByType b data)
  := by
  rw [State.readByType]
  apply Silently.bind
  intro d1
  apply Silently.bind
  intro d3
  apply Silently.bind
  intro d5
  apply Silently.bind
  intro t
  apply found_silent
  · apply respGatt_silent
  · intro h hs
    apply list_silent

theorem findInformation_silent :
  Silently s (s.findInformation b data)
  := by
  rw [State.findInformation]
  apply Silently.bind
  intro d1
  apply Silently.bind
  intro d3
  apply found_silent
  · apply respGatt_silent
  · intro h hs
    apply list_silent

theorem readReq_silent :
  Silently s (s.readReq b data)
  := by
  rw [State.readReq]
  apply Silently.bind
  intro d1
  dsimp only
  cases s.gatt.attRead (readU16 d1) with
  | none => apply respGatt_silent
  | some a => apply list_silent

/-- Every packet that is not a write is silent. -/
theorem handlePacket_silent (hop : data[0]? ≠ some 0x12) :
  Silently s (s.handlePacket b data)
  := by
  rw [State.handlePacket]
  cases hdata : data[0]? with
  | none => rintro _ ⟨⟩
  | some opcode =>
    have hwrite : opcode ≠ 0x12 := by
      rintro rfl
      exact hop hdata
    rw [Option.bind_eq_bind, Option.bind_some, if_neg hwrite]
    split_ifs
    · apply exchangeMtu_silent
    · apply Silently.bind
      intro _
      apply Silently.bind
      intro _
      exact Silently.same rfl rfl rfl
    · apply readByGroupType_silent
    · apply readByType_silent
    · apply findInformation_silent
    · apply readReq_silent
    · exact Silently.same rfl rfl rfl

/-! ### Writes -/

/-- The handle and the value of a write. -/
def Event.write (e : Event) : Option (ℕ × List UInt8) :=
  match e.msg with
  | .l2capPacket data =>
      if data[0]? = some 0x12 then some (readU16 (data.drop 1), data.drop 3) else none
  | _ => none

theorem replyAll_eq (bytes : List UInt8) {ms : List ℤ}
    (h : ms.foldlM (fun s m => State.reply s m (.gattServerMonitorResp m bytes)) s = some s') :
  s' = { s with
    callers := s.callers.diff ms
    out := s.out ++ ms.map fun m => .gattServerMonitorResp m bytes }
  := by
  induction ms generalizing s with
  | nil =>
    obtain rfl := Option.some.inj h
    rw [List.diff_nil, List.map_nil, List.append_nil]
  | cons m ms ih =>
    obtain ⟨s₁, hs₁, h⟩ := Option.bind_eq_some_iff.mp h
    obtain ⟨callers, hcallers, hs₁⟩ := Option.bind_eq_some_iff.mp hs₁
    obtain rfl := Option.some.inj hs₁
    rw [kerReply] at hcallers
    split_ifs at hcallers with hmem
    obtain rfl := Option.some.inj hcallers
    rw [ih h, List.diff_cons, List.map_cons, List.append_assoc]
    rfl

/-- The monitors of the handle are told the value and forgotten. -/
structure Tells (handle : ℕ) (bytes : List UInt8) (s s' : State) : Prop where
  monitorMap : s'.monitorMap = setMap s.monitorMap handle []
  told : ∀ m, told m s'.out =
    told m s.out ++ told m ((s.monitors handle).map fun t => .gattServerMonitorResp t bytes)
  callers : s'.callers = s.callers.diff (s.monitors handle)

theorem notifyMonitors_tells {handle : ℕ} {bytes : List UInt8}
    (h : s.notifyMonitors b handle bytes = some s') :
  Tells handle bytes s s'
  := by
  rw [State.notifyMonitors] at h
  cases hget : getMap s.monitorMap handle with
  | none =>
    rw [hget] at h
    obtain rfl := Option.some.inj h
    have hmonitors : s.monitors handle = [] := by
      rw [State.monitors, hget]
      rfl
    constructor
    · rw [setMap_of_notMem (getMap_eq_none_iff.mp hget)]
    · intro m
      rw [hmonitors]
      exact (List.append_nil _).symm
    · rw [hmonitors, List.diff_nil]
  | some ms =>
    rw [hget] at h
    obtain ⟨box, -, h⟩ := Option.bind_eq_some_iff.mp h
    obtain ⟨s₁, hs₁, h⟩ := Option.bind_eq_some_iff.mp h
    obtain rfl := Option.some.inj h
    obtain rfl := replyAll_eq bytes hs₁
    have hmonitors : s.monitors handle = ms := by
      rw [State.monitors, hget]
      rfl
    rw [← hmonitors]
    constructor
    · rfl
    · intro m
      apply told_append
    · rfl

theorem writeReq_tells (h : s.writeReq b data = some s') :
  Tells (readU16 (data.drop 1)) (data.drop 3) s s'
  := by
  rw [State.writeReq] at h
  obtain ⟨d1, hd1, h⟩ := Option.bind_eq_some_iff.mp h
  obtain ⟨d3, hd3, h⟩ := Option.bind_eq_some_iff.mp h
  obtain ⟨g, -, h⟩ := Option.bind_eq_some_iff.mp h
  obtain ⟨s₁, hs₁, h⟩ := Option.bind_eq_some_iff.mp h
  rw [sliceFrom] at hd1 hd3
  split_ifs at hd1 hd3
  obtain rfl := Option.some.inj hd1
  obtain rfl := Option.some.inj hd3
  rw [State.respGatt, State.sendUart] at hs₁
  obtain ⟨box, -, hs₁⟩ := Option.bind_eq_some_iff.mp hs₁
  obtain rfl := Option.some.inj hs₁
  have htells := notifyMonitors_tells h
  constructor
  · exact htells.monitorMap
  · intro m
    rw [htells.told, told_append]
    exact congrArg (· ++ _) (List.append_nil _)
  · exact htells.callers

/-! ### Rounds -/

theorem monitors_setMap {k handle : ℕ} (hmap : s'.monitorMap = setMap s.monitorMap handle []) :
  s'.monitors k = if k = handle then [] else s.monitors k
  := by
  rw [State.monitors, State.monitors, hmap, getMap_setMap]
  split_ifs
  · cases getMap s.monitorMap handle with
    | none => rfl
    | some ms => rfl
  · rfl

/-- The monitors of a handle are different tasks. -/
theorem Core.nodup_monitors (hcore : Core s) (k : ℕ) :
  (s.monitors k).Nodup
  := by
  cases hget : getMap s.monitorMap k with
  | none =>
    rw [State.monitors, hget]
    exact List.nodup_nil
  | some ms =>
    have helements := elements_setMap hcore.keys hget []
    rw [Multiset.coe_nil, Multiset.zero_add] at helements
    have hnodup := hcore.waiting.nodup
    rw [← helements] at hnodup
    rw [State.monitors, hget]
    exact Multiset.coe_nodup.mp (Multiset.nodup_of_le (Multiset.le_add_left _ _) hnodup)

/-- A monitor waits. -/
theorem Core.monitors_sub (hcore : Core s) {k : ℕ} (hm : m ∈ s.monitors k) :
  m ∈ s.callers
  := by
  apply hcore.waiting.sub
  cases hget : getMap s.monitorMap k with
  | none =>
    rw [State.monitors, hget] at hm
    exact absurd hm List.not_mem_nil
  | some ms =>
    rw [State.monitors, hget] at hm
    have helements := elements_setMap hcore.keys hget []
    rw [Multiset.coe_nil, Multiset.zero_add] at helements
    rw [← helements]
    exact Multiset.mem_add.mpr (Or.inr hm)

/-- What a write does. -/
theorem step_write {handle : ℕ} {bytes : List UInt8} (hinv : Inv s) (hsender : e.sender ∉ s.callers)
    (hwrite : e.write = some (handle, bytes)) (h : step b s e = some s') :
  (∀ m, told m s'.out = if m ∈ s.monitors handle then [bytes] else []) ∧
  (∀ k, s'.monitors k = if k = handle then [] else s.monitors k) ∧
  (∀ t ∈ s'.callers, t ∈ s.callers ++ [e.sender] ∧ t ∉ s.monitors handle)
  := by
  rw [Event.write] at hwrite
  replace h := serve_of_step h
  rw [State.serve] at h
  cases hmsg : e.msg with
  | l2capPacket data =>
    rw [hmsg] at hwrite h
    dsimp only at hwrite h
    split_ifs at hwrite with hop
    obtain ⟨rfl, rfl⟩ := Prod.mk.inj (Option.some.inj hwrite)
    obtain ⟨s₁, hs₁, h⟩ := Option.bind_eq_some_iff.mp h
    obtain ⟨s₂, hs₂, h⟩ := Option.bind_eq_some_iff.mp h
    obtain rfl := Option.some.inj h
    have hsilent : Silent (s.recv e) s₁ := replyNew_silent (fun _ => rfl) s₁ hs₁
    rw [State.handlePacket, hop] at hs₂
    have htells := writeReq_tells hs₂
    have hmonitors : ∀ k, s₁.monitors k = s.monitors k := by
      intro k
      rw [State.monitors, hsilent.monitorMap]
      rfl
    refine ⟨?_, ?_, ?_⟩
    · intro m
      have htold := htells.told m
      rw [hsilent.told, hmonitors, told_monitors (hinv.core.nodup_monitors _)] at htold
      exact htold
    · intro k
      have hk := monitors_setMap (k := k) htells.monitorMap
      rw [hmonitors] at hk
      exact hk
    · have hcallers := htells.callers
      rw [hmonitors] at hcallers
      have hnodup : s₁.callers.Nodup :=
        hsilent.callers.nodup (hinv.core.waiting.request hsender).callers_nodup
      intro t ht
      have hmem : t ∈ s₁.callers.diff (s.monitors (readU16 (data.drop 1))) := hcallers ▸ ht
      obtain ⟨hin, hnot⟩ := hnodup.mem_sdiff_iff.mp hmem
      exact ⟨hsilent.callers.subset hin, hnot⟩
  | _ => rw [hmsg] at hwrite; cases hwrite

/-- What a registration does. -/
theorem step_register {name : String} {c : GattCharac} (hmsg : e.msg = .gattServerMonitorReq name)
    (hname : s.gatt.characByName name = some c) (h : step b s e = some s') :
  (∀ m, told m s'.out = []) ∧
  (∀ k, s'.monitors k =
    if k = c.valueHandle then s.monitors k ++ [e.sender] else s.monitors k) ∧
  s'.callers = s.callers ++ [e.sender]
  := by
  replace h := serve_of_step h
  rw [State.serve, hmsg] at h
  dsimp only [State.addMonitor] at h
  have hname' : (s.recv e).gatt.characByName name = some c := hname
  rw [hname'] at h
  obtain ⟨ms, hms, h⟩ := Option.bind_eq_some_iff.mp h
  obtain ⟨map, hmap, h⟩ := Option.bind_eq_some_iff.mp h
  obtain rfl := Option.some.inj h
  rw [pushBack] at hms
  split_ifs at hms
  obtain rfl := Option.some.inj hms
  refine ⟨fun _ => rfl, ?_, rfl⟩
  intro k
  have hget := getMap_insertMap hmap k
  rw [State.monitors, State.monitors]
  dsimp only
  rw [hget]
  split_ifs with hk
  · rw [hk]
    rfl
  · rfl

/-- Every other message is silent. -/
theorem step_silent (hwrite : e.write = none)
    (hmonitor : ∀ name c, e.msg = .gattServerMonitorReq name → s.gatt.characByName name ≠ some c)
    (h : step b s e = some s') :
  Silent (s.recv e) s'
  := by
  suffices hsilent : Silently (s.recv e) ((s.recv e).serve b e) by
    exact hsilent s' (serve_of_step h)
  have hreply : ∀ {output : Output} {ty : MsgBox.MsgType}, (∀ m, told m [output] = []) →
      Silently (s.recv e) ((s.recv e).replyNew ty [] e.sender output) :=
    fun houtput => replyNew_silent houtput
  rw [Event.write] at hwrite
  rw [State.serve]
  cases hmsg : e.msg with
  | l2capPacket data =>
    rw [hmsg] at hwrite
    apply Silently.seq
    · apply hreply
      exact fun _ => rfl
    · intro s₁
      apply Silently.seq
      · apply handlePacket_silent
        intro hop
        dsimp only at hwrite
        rw [if_pos hop] at hwrite
        cases hwrite
      · intro s₂
        exact Silently.same rfl rfl rfl
  | hciLeConnectionComplete handle =>
    apply Silently.seq
    · apply hreply
      exact fun _ => rfl
    · intro s₁
      exact Silently.same rfl rfl rfl
  | clockWaitResp =>
    dsimp only
    split_ifs
    · apply Silently.seq
      · apply clockTick_silent
      · intro s₁
        split_ifs
        · apply timeout_silent
        · exact Silently.same rfl rfl rfl
    · apply Silently.seq
      · exact Silently.same rfl rfl rfl
      · intro s₁
        split_ifs
        · apply timeout_silent
        · exact Silently.same rfl rfl rfl
  | hciDisconnectionComplete =>
    apply Silently.seq
    · apply hreply
      exact fun _ => rfl
    · intro s₁
      apply Silently.bind
      intro g
      exact Silently.same rfl rfl rfl
  | gattServerMonitorReq name =>
    dsimp only [State.addMonitor]
    have hname : (s.recv e).gatt.characByName name = none := by
      rw [Option.eq_none_iff_forall_ne_some]
      exact fun c => hmonitor name c hmsg
    rw [hname]
    exact Silently.same rfl rfl rfl
  | gattServerPublishReq name bytes =>
    apply Silently.seq
    · apply hreply
      exact fun _ => rfl
    · intro s₁
      cases s₁.gatt.characByName name with
      | none => exact Silently.same rfl rfl rfl
      | some c => apply publish_silent
  | unknown => exact Silently.same rfl rfl rfl

/-- What a round does to the task `m` as a monitor, and to the tasks that wait. -/
structure Round (m : ℤ) (s : State) (e : Event) (s' : State) : Prop where
  told : told m s'.out = match e.write with
    | some (handle, bytes) => if m ∈ s.monitors handle then [bytes] else []
    | none => []
  monitors : ∀ k, m ∈ s'.monitors k ↔ (m ∈ s.monitors k ∧ ∀ bytes, e.write ≠ some (k, bytes)) ∨
    (m = e.sender ∧ ∃ name c, e.msg = .gattServerMonitorReq name ∧
      s.gatt.characByName name = some c ∧ k = c.valueHandle)
  callers : ∀ t ∈ s'.callers, (t ∈ s.callers ∨ t = e.sender) ∧
    ∀ handle bytes, e.write = some (handle, bytes) → t ∉ s.monitors handle

theorem Event.write_request {name : String} (h : e.msg = .gattServerMonitorReq name) :
  e.write = none
  := by rw [Event.write, h]

theorem step_round (hinv : Inv s) (hsender : e.sender ∉ s.callers) (h : step b s e = some s')
    (m : ℤ) :
  Round m s e s'
  := by
  cases hwrite : e.write with
  | some w =>
    obtain ⟨handle, bytes⟩ := w
    obtain ⟨htold, hmonitors, hcallers⟩ := step_write hinv hsender hwrite h
    constructor
    · rw [htold, hwrite]
    · intro k
      rw [hmonitors, hwrite]
      constructor
      · intro hm
        split_ifs at hm with hk
        · exact absurd hm List.not_mem_nil
        · refine Or.inl ⟨hm, ?_⟩
          intro bytes' heq
          exact hk (Prod.mk.inj (Option.some.inj heq)).1.symm
      · rintro (⟨hm, hnot⟩ | ⟨-, name, c, hmsg, -⟩)
        · rwa [if_neg]
          rintro rfl
          exact hnot bytes rfl
        · rw [Event.write_request hmsg] at hwrite
          cases hwrite
    · intro t ht
      obtain ⟨hmem, hnot⟩ := hcallers t ht
      rw [List.mem_append, List.mem_singleton] at hmem
      refine ⟨hmem, ?_⟩
      intro handle' bytes' heq
      rw [hwrite] at heq
      obtain ⟨rfl, -⟩ := Prod.mk.inj (Option.some.inj heq)
      exact hnot
  | none =>
    by_cases hreq : ∃ name c, e.msg = .gattServerMonitorReq name ∧
        s.gatt.characByName name = some c
    · obtain ⟨name, c, hmsg, hname⟩ := hreq
      obtain ⟨htold, hmonitors, hcallers⟩ := step_register hmsg hname h
      constructor
      · rw [htold, hwrite]
      · intro k
        rw [hmonitors, hwrite]
        constructor
        · intro hm
          split_ifs at hm with hk
          · rcases List.mem_append.mp hm with hm | hm
            · exact Or.inl ⟨hm, nofun⟩
            · exact Or.inr ⟨List.mem_singleton.mp hm, name, c, hmsg, hname, hk⟩
          · exact Or.inl ⟨hm, nofun⟩
        · rintro (⟨hm, -⟩ | ⟨rfl, name', c', hmsg', hname', rfl⟩)
          · split_ifs
            · exact List.mem_append_left _ hm
            · exact hm
          · obtain rfl : name = name' := Msg.gattServerMonitorReq.inj (hmsg.symm.trans hmsg')
            obtain rfl : c = c' := Option.some.inj (hname.symm.trans hname')
            rw [if_pos rfl]
            exact List.mem_append_right _ List.mem_cons_self
      · intro t ht
        rw [hcallers, List.mem_append, List.mem_singleton] at ht
        exact ⟨ht, fun handle bytes heq => absurd (hwrite.symm.trans heq) nofun⟩
    · have hsilent := step_silent hwrite
        (fun name c hmsg hname => hreq ⟨name, c, hmsg, hname⟩) h
      constructor
      · rw [hsilent.told, hwrite]
        rfl
      · intro k
        have hsame : s'.monitors k = s.monitors k := by
          rw [State.monitors, hsilent.monitorMap]
          rfl
        rw [hsame, hwrite]
        constructor
        · intro hm
          exact Or.inl ⟨hm, nofun⟩
        · rintro (⟨hm, -⟩ | ⟨-, name, c, hmsg, hname, -⟩)
          · exact hm
          · exact absurd ⟨name, c, hmsg, hname⟩ hreq
      · intro t ht
        have hmem : t ∈ s.callers ++ [e.sender] := hsilent.callers.subset ht
        rw [List.mem_append, List.mem_singleton] at hmem
        exact ⟨hmem, fun handle bytes heq => absurd (hwrite.symm.trans heq) nofun⟩

end TrainsOs.Bluetooth
