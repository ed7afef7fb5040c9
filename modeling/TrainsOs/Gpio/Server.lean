import TrainsOs.Gpio.Encoder
import TrainsOs.Lib.Run
import Mathlib.Data.Finset.Card

/-!
# The encoder server

The tasks `encoder_collector.rs` and `encoder_server.rs`. The collector reads and clears the
counters of its encoder, and sends the net count to the server in a message that it waits
to be replied to. The server adds each message to the value of each client, and a request
of a client is replied to with its value, which then starts again from zero.

The values are exact here: a net count stands for the turns of the wheel, which are the
count divided by a constant.
-/

namespace TrainsOs.EncoderServer

open Gpio

/-- `EncoderResp`. -/
structure EncoderResp where
  left : ℤ
  right : ℤ
deriving DecidableEq

/-- `EncoderResp::default`, and the value that is inserted for a new client. -/
def EncoderResp.zero : EncoderResp where
  left := 0
  right := 0

/-- `EncoderResp::add`. -/
def EncoderResp.add (v other : EncoderResp) : EncoderResp where
  left := v.left + other.left
  right := v.right + other.right

/-- Where the collector is in its loop: before it reads the counters, with the counters that
it has read, or waiting for the reply to its message. -/
inductive Collector where
  | waiting
  | fetched (val : Stat)
  | sent (resp : EncoderResp)

/-- The messages that the server handles: one of the collector, or the request of a client,
with the reply. -/
inductive Event where
  | handled (resp : EncoderResp)
  | replied (tid : ℤ) (resp : EncoderResp)

/-- The encoders of the kernel, the collector, the map `registry` of the server, and what
the server has done. -/
structure State where
  kernel : Gpio.Sys
  collector : Collector
  registry : List (ℤ × EncoderResp)
  log : List Event

/-- The capacity of `registry`. -/
def registryCapacity : ℕ := 8

/-- What happens next: a sample of an encoder, the collector reads the counters or sends its
message, or the server handles that message or the request of a client. -/
inductive Action where
  | update (id : ℤ) (a b : Bool)
  | fetch
  | send
  | handle
  | request (tid : ℤ)

/-- The collector after it has registered its encoder. -/
def State.start (mgr : Mgr) : State where
  kernel := { mgr := mgr, returned := [] }
  collector := .waiting
  registry := []
  log := []

/-- The message of the collector. -/
def encoderUpdate (val : Stat) : EncoderResp where
  left := val.net
  right := 0

/-- The reply to a client, and the registry afterwards. `none` is a panic. -/
def handleReq (registry : List (ℤ × EncoderResp)) (tid : ℤ) :
    Option (List (ℤ × EncoderResp) × EncoderResp) :=
  match registry.lookup tid with
  | some v =>
      some (registry.map fun p => (p.1, if p.1 = tid then EncoderResp.zero else p.2), v)
  | none =>
      if registry.length < registryCapacity then
        some (registry ++ [(tid, EncoderResp.zero)], EncoderResp.zero)
      else
        none

/-- The message of the collector is added to all values. -/
def handleResp (registry : List (ℤ × EncoderResp)) (resp : EncoderResp) :
    List (ℤ × EncoderResp) :=
  registry.map fun p => (p.1, p.2.add resp)

/-- An action, with `encoder` the id that the collector has. It is `none` when the server
panics, or when the collector is not where it would be. -/
def step (encoder : ℤ) (s : State) : Action → Option State
  | .update id a b => some { s with kernel := s.kernel.step (.update id a b) }
  | .fetch =>
      match s.collector with
      | .waiting =>
          -- the statistics are zero when nothing is written to them
          let val := (s.kernel.mgr.get encoder).2.getD Stat.clear
          some { s with kernel := s.kernel.step (.get encoder), collector := .fetched val }
      | _ => none
  | .send =>
      match s.collector with
      | .fetched val => some { s with collector := .sent (encoderUpdate val) }
      | _ => none
  | .handle =>
      match s.collector with
      | .sent resp =>
          some { s with
            collector := .waiting
            registry := handleResp s.registry resp
            log := s.log ++ [.handled resp] }
      | _ => none
  | .request tid => do
      let (registry, resp) ← handleReq s.registry tid
      some { s with registry := registry, log := s.log ++ [.replied tid resp] }

/-- The collector can do this next, and a request comes from one of the clients. -/
def Admitted (clients : Finset ℤ) (s : State) : Action → Prop
  | .update _ _ _ => True
  | .fetch => s.collector = .waiting
  | .send => ∃ val, s.collector = .fetched val
  | .handle => ∃ resp, s.collector = .sent resp
  | .request tid => tid ∈ clients

/-! ### What was handled and replied -/

/-- The messages of the collector that were handled. -/
def handled (log : List Event) : List EncoderResp :=
  log.filterMap fun
    | .handled resp => some resp
    | .replied _ _ => none

/-- The replies to a client. -/
def replies (tid : ℤ) (log : List Event) : List EncoderResp :=
  log.filterMap fun
    | .handled _ => none
    | .replied tid' resp => if tid' = tid then some resp else none

/-- What a client is owed after an event: a reply settles it, and each message adds to it. -/
def owedStep (tid : ℤ) (v : EncoderResp) : Event → EncoderResp
  | .handled resp => v.add resp
  | .replied tid' _ => if tid' = tid then EncoderResp.zero else v

/-- The messages since the last reply to the client, added up. -/
def owed (tid : ℤ) (log : List Event) : EncoderResp :=
  log.foldl (owedStep tid) EncoderResp.zero

/-- The net count that the collector has read, but the server has not handled. -/
def Collector.pending : Collector → List ℤ
  | .waiting => []
  | .fetched val => [val.net]
  | .sent resp => [resp.left]

/-- What happens in the kernel. -/
def kernelActions (encoder : ℤ) (as : List Action) : List Gpio.Action :=
  as.filterMap fun
    | .update id a b => some (.update id a b)
    | .fetch => some (.get encoder)
    | _ => none

theorem handled_append (log log' : List Event) :
  handled (log ++ log') = handled log ++ handled log'
  := List.filterMap_append

theorem replies_append (tid : ℤ) (log log' : List Event) :
  replies tid (log ++ log') = replies tid log ++ replies tid log'
  := List.filterMap_append

theorem replies_replied (tid : ℤ) (resp : EncoderResp) :
  replies tid [.replied tid resp] = [resp]
  := by
  simp [replies]

theorem owed_append (tid : ℤ) (log : List Event) (e : Event) :
  owed tid (log ++ [e]) = owedStep tid (owed tid log) e
  := List.foldl_append

/-- Every reply but the first one to a client is what the client was owed. -/
def Honest (log : List Event) : Prop :=
  ∀ pre tid resp post, log = pre ++ .replied tid resp :: post → replies tid pre ≠ [] →
    resp = owed tid pre

theorem Honest.append {log : List Event} (h : Honest log) {e : Event}
    (he : ∀ tid resp, e = .replied tid resp → replies tid log ≠ [] → resp = owed tid log) :
  Honest (log ++ [e])
  := by
  intro pre tid resp post hlog
  induction post using List.reverseRecOn with
  | nil =>
    obtain ⟨rfl, hlast⟩ := List.append_inj' hlog rfl
    exact he tid resp (List.cons.inj hlast).1
  | append_singleton post e' _ =>
    rw [← List.cons_append, ← List.append_assoc] at hlog
    obtain ⟨rfl, -⟩ := List.append_inj' hlog rfl
    exact h pre tid resp post rfl

/-- A number that is read from an `EncoderResp`, `left` or `right`. -/
structure Component (f : EncoderResp → ℤ) : Prop where
  zero : f EncoderResp.zero = 0
  add : ∀ v w, f (v.add w) = f v + f w

theorem component_left :
  Component EncoderResp.left
  := ⟨rfl, fun _ _ => rfl⟩

theorem component_right :
  Component EncoderResp.right
  := ⟨rfl, fun _ _ => rfl⟩

/-- After a reply to a client, what it is replied to further and what it is owed are the
messages handled since. -/
theorem Honest.balance {log : List Event} (h : Honest log) {f : EncoderResp → ℤ}
    (hf : Component f) {pre mid post : List Event} {tid : ℤ} {resp : EncoderResp}
    (hlog : log = pre ++ .replied tid resp :: mid ++ post) :
  ((replies tid mid).map f).sum + f (owed tid (pre ++ .replied tid resp :: mid))
    = ((handled mid).map f).sum
  := by
  induction mid using List.reverseRecOn generalizing post with
  | nil =>
    rw [owed_append, owedStep, if_pos rfl, hf.zero]
    rfl
  | append_singleton mid e ih =>
    have hpre : pre ++ .replied tid resp :: (mid ++ [e])
        = (pre ++ .replied tid resp :: mid) ++ [e] := by simp
    rw [hpre] at hlog ⊢
    rw [List.append_assoc] at hlog
    have hsum := ih hlog
    rw [owed_append, replies_append, handled_append, List.map_append, List.map_append,
      List.sum_append, List.sum_append, ← hsum]
    cases e with
    | handled resp' =>
      simp [replies, handled, owedStep, hf.add, Int.add_assoc]
    | replied tid' resp' =>
      by_cases htid : tid' = tid
      · subst htid
        have hresp := h _ _ _ _ hlog (by simp [replies])
        simp [replies, handled, owedStep, hf.zero, hresp]
      · simp [replies, handled, owedStep, htid]

/-- The replies to a client after one request of it, up to another one. -/
theorem Honest.between {log : List Event} (h : Honest log) {f : EncoderResp → ℤ}
    (hf : Component f) {pre mid post : List Event} {tid : ℤ} {resp resp' : EncoderResp}
    (hlog : log = pre ++ .replied tid resp :: mid ++ .replied tid resp' :: post) :
  ((replies tid (mid ++ [.replied tid resp'])).map f).sum = ((handled mid).map f).sum
  := by
  have hresp := h _ _ _ _ hlog (by simp [replies])
  rw [replies_append, replies_replied, List.map_append, List.sum_append, hresp,
    ← h.balance hf hlog]
  simp

/-! ### The registry -/

/-- The clients in the registry are different, and among those given. -/
structure Keys (clients : Finset ℤ) (registry : List (ℤ × EncoderResp)) : Prop where
  nodup : (registry.map Prod.fst).Nodup
  subset : ∀ tid ∈ registry.map Prod.fst, tid ∈ clients

/-- The values in the registry are what the clients are owed, and who is not in it has had
no reply. -/
structure Owed (registry : List (ℤ × EncoderResp)) (log : List Event) : Prop where
  known : ∀ tid v, registry.lookup tid = some v → v = owed tid log
  unknown : ∀ tid, registry.lookup tid = none → replies tid log = []

section Registry

variable {clients : Finset ℤ} {registry registry' : List (ℤ × EncoderResp)} {log : List Event}
  {tid : ℤ} {resp : EncoderResp}

theorem lookup_map (f : ℤ → EncoderResp → EncoderResp) (registry : List (ℤ × EncoderResp))
    (tid : ℤ) :
  (registry.map fun p => (p.1, f p.1 p.2)).lookup tid = (registry.lookup tid).map (f tid)
  := by
  induction registry with
  | nil => rfl
  | cons p registry ih =>
    rw [List.map_cons, List.lookup_cons, List.lookup_cons]
    cases htid : tid == p.1 with
    | true =>
      rw [← eq_of_beq htid]
      rfl
    | false => exact ih

theorem lookup_eq_none_iff :
  registry.lookup tid = none ↔ tid ∉ registry.map Prod.fst
  := by
  rw [List.lookup_eq_none_iff, List.mem_map]
  constructor
  · rintro hne ⟨p, hp, rfl⟩
    exact absurd (hne p hp) (by simp)
  · intro hne p hp
    simpa using fun htid : tid = p.1 => hne ⟨p, hp, htid.symm⟩

/-- A client that is not in the registry finds room there. -/
theorem Keys.length_lt (h : Keys clients registry) (htid : tid ∈ clients)
    (hlookup : registry.lookup tid = none) :
  registry.length < clients.card
  := by
  have hsub : (registry.map Prod.fst).toFinset ⊂ clients := by
    apply Finset.ssubset_iff_of_subset _ |>.mpr
    · use tid, htid
      rw [List.mem_toFinset]
      exact lookup_eq_none_iff.mp hlookup
    · intro tid' htid'
      exact h.subset tid' (List.mem_toFinset.mp htid')
  have hcard := Finset.card_lt_card hsub
  rw [List.toFinset_card_of_nodup h.nodup, List.length_map] at hcard
  exact hcard

/-- A client that is replied to is owed nothing. -/
theorem Owed.replied (howed : Owed registry log) (resp : EncoderResp)
    (hself : registry'.lookup tid = some EncoderResp.zero)
    (hother : ∀ tid', tid' ≠ tid → registry'.lookup tid' = registry.lookup tid') :
  Owed registry' (log ++ [.replied tid resp])
  := by
  constructor
  · intro tid' v hv
    rw [owed_append, owedStep]
    by_cases htid : tid = tid'
    · rw [← htid, hself] at hv
      rw [if_pos htid]
      exact (Option.some.inj hv).symm
    · rw [hother tid' (Ne.symm htid)] at hv
      rw [if_neg htid]
      exact howed.known tid' v hv
  · intro tid' hnone
    by_cases htid : tid = tid'
    · rw [← htid, hself] at hnone
      cases hnone
    · rw [hother tid' (Ne.symm htid)] at hnone
      rw [replies_append, howed.unknown tid' hnone]
      simp [replies, htid]

/-- What the server does with a request: the reply is what the client is owed, when it has
had one before. -/
theorem handleReq_spec (hclients : clients.card ≤ registryCapacity) (hkeys : Keys clients registry)
    (howed : Owed registry log) (htid : tid ∈ clients) :
  ∃ registry' resp, handleReq registry tid = some (registry', resp) ∧ Keys clients registry'
    ∧ Owed registry' (log ++ [.replied tid resp])
    ∧ (replies tid log ≠ [] → resp = owed tid log)
  := by
  rw [handleReq]
  cases hlookup : registry.lookup tid with
  | some v =>
    have hmap : ∀ tid', (registry.map fun p =>
        (p.1, if p.1 = tid then EncoderResp.zero else p.2)).lookup tid'
          = (registry.lookup tid').map fun v => if tid' = tid then EncoderResp.zero else v :=
      lookup_map (fun tid' v => if tid' = tid then EncoderResp.zero else v) registry
    have hfst : (registry.map fun p =>
        (p.1, if p.1 = tid then EncoderResp.zero else p.2)).map Prod.fst
          = registry.map Prod.fst := by
      rw [List.map_map]
      rfl
    refine ⟨_, v, rfl, ?_, ?_, fun _ => howed.known tid v hlookup⟩
    · constructor
      · rw [hfst]
        exact hkeys.nodup
      · rw [hfst]
        exact hkeys.subset
    · apply howed.replied v
      · rw [hmap, hlookup, Option.map_some, if_pos rfl]
      · intro tid' hne
        rw [hmap]
        simp [hne]
  | none =>
    have hroom : registry.length < registryCapacity :=
      lt_of_lt_of_le (hkeys.length_lt htid hlookup) hclients
    refine ⟨_, _, if_pos hroom, ?_, ?_, ?_⟩
    · constructor
      · rw [List.map_append, List.nodup_append]
        refine ⟨hkeys.nodup, List.nodup_singleton _, ?_⟩
        rintro tid' htid' _ hmem rfl
        rw [List.mem_singleton.mp hmem] at htid'
        exact lookup_eq_none_iff.mp hlookup htid'
      · intro tid' htid'
        rw [List.map_append, List.mem_append] at htid'
        obtain htid' | hmem := htid'
        · exact hkeys.subset tid' htid'
        · rw [List.mem_singleton.mp hmem]
          exact htid
    · apply howed.replied
      · rw [List.lookup_append, hlookup, Option.none_or]
        simp
      · intro tid' hne
        rw [List.lookup_append]
        simp [List.lookup_cons, beq_false_of_ne hne]
    · intro hreplied
      exact absurd (howed.unknown tid hlookup) hreplied

theorem handleResp_spec (hkeys : Keys clients registry) (howed : Owed registry log)
    (resp : EncoderResp) :
  Keys clients (handleResp registry resp) ∧ Owed (handleResp registry resp) (log ++ [.handled resp])
  := by
  have hfst : (handleResp registry resp).map Prod.fst = registry.map Prod.fst := by
    rw [handleResp, List.map_map]
    rfl
  have hlookup : ∀ tid, (handleResp registry resp).lookup tid
      = (registry.lookup tid).map (·.add resp) :=
    lookup_map (fun _ v => v.add resp) registry
  constructor
  · constructor
    · rw [hfst]
      exact hkeys.nodup
    · rw [hfst]
      exact hkeys.subset
  · constructor
    · intro tid v hv
      rw [hlookup] at hv
      obtain ⟨w, hw, rfl⟩ := Option.map_eq_some_iff.mp hv
      rw [owed_append, owedStep, ← howed.known tid w hw]
    · intro tid hnone
      rw [hlookup, Option.map_eq_none_iff] at hnone
      rw [replies_append, howed.unknown tid hnone]
      rfl

end Registry

/-! ### Runs -/

/-- The encoder is one of the kernel. -/
def Registered (encoder : ℤ) (mgr : Mgr) : Prop :=
  0 ≤ encoder ∧ encoder < mgr.encoders.length

theorem Registered.exists_getEncoder {encoder : ℤ} {mgr : Mgr} (h : Registered encoder mgr) :
  ∃ e, getEncoder mgr encoder = some e
  := by
  obtain ⟨hpos, hlt⟩ := h
  use mgr.encoders.get ⟨encoder.toNat, by omega⟩
  rw [getEncoder, if_pos ⟨hpos, hlt⟩]
  apply List.getElem?_eq_getElem

theorem length_set (mgr : Mgr) (id : ℤ) (e : Encoder) :
  (mgr.set id e).encoders.length = mgr.encoders.length
  := List.length_set

theorem length_update (mgr : Mgr) (id : ℤ) (a b : Bool) :
  (mgr.update id a b).encoders.length = mgr.encoders.length
  := by
  rw [Mgr.update]
  split
  · rfl
  · apply length_set

theorem length_get (mgr : Mgr) (id : ℤ) :
  (mgr.get id).1.encoders.length = mgr.encoders.length
  := by
  rw [Mgr.get]
  split
  · rfl
  · apply length_set

/-- The state after the actions `as`, when the encoder was registered in `mgr`. -/
structure Inv (encoder : ℤ) (mgr : Mgr) (clients : Finset ℤ) (as : List Action) (s : State) :
    Prop where
  kernel : s.kernel = Sys.run { mgr := mgr, returned := [] } (kernelActions encoder as)
  registered : Registered encoder s.kernel.mgr
  delivered : (stats encoder s.kernel.returned).map Stat.net
    = (handled s.log).map EncoderResp.left ++ s.collector.pending
  keys : Keys clients s.registry
  owed : Owed s.registry s.log
  honest : Honest s.log

section Steps

variable {encoder : ℤ} {mgr : Mgr} {clients : Finset ℤ} {as : List Action} {s : State}

theorem kernelActions_append (encoder : ℤ) (as as' : List Action) :
  kernelActions encoder (as ++ as') = kernelActions encoder as ++ kernelActions encoder as'
  := List.filterMap_append

theorem inv_start (h : Registered encoder mgr) :
  Inv encoder mgr clients [] (State.start mgr)
  := by
  constructor
  · rfl
  · exact h
  · rfl
  · exact ⟨List.nodup_nil, nofun⟩
  · exact ⟨nofun, fun _ _ => rfl⟩
  · intro pre tid resp post hlog
    exact absurd hlog (by simp [State.start])

theorem Inv.update (h : Inv encoder mgr clients as s) (id : ℤ) (a b : Bool) :
  Inv encoder mgr clients (as ++ [.update id a b])
    { s with kernel := s.kernel.step (.update id a b) }
  := by
  refine ⟨?_, ?_, h.delivered, h.keys, h.owed, h.honest⟩
  · rw [kernelActions_append, h.kernel]
    symm
    apply run_append
  · use h.registered.1
    have hlen := length_update s.kernel.mgr id a b
    rw [Sys.step, hlen]
    exact h.registered.2

theorem Inv.fetch (h : Inv encoder mgr clients as s) (hcollector : s.collector = .waiting) :
  ∃ s', step encoder s .fetch = some s' ∧ Inv encoder mgr clients (as ++ [.fetch]) s'
  := by
  obtain ⟨e, he⟩ := h.registered.exists_getEncoder
  have hget : (s.kernel.mgr.get encoder).2 = some e.stat := by
    rw [Mgr.get, he]
  have hstats : stats encoder (s.kernel.step (.get encoder)).returned
      = stats encoder s.kernel.returned ++ [e.stat] := by
    rw [Sys.step, hget, stats, List.filterMap_append]
    simp [stats]
  have hstep : step encoder s .fetch = some
      { s with kernel := s.kernel.step (.get encoder), collector := .fetched e.stat } := by
    rw [step, hcollector, hget]
    rfl
  refine ⟨_, hstep, ?_, ?_, ?_, h.keys, h.owed, h.honest⟩
  · rw [kernelActions_append, h.kernel]
    symm
    apply run_append
  · use h.registered.1
    have hlen := length_get s.kernel.mgr encoder
    rw [Sys.step, hlen]
    exact h.registered.2
  · have hdelivered := h.delivered
    rw [hcollector, Collector.pending, List.append_nil] at hdelivered
    rw [hstats, List.map_append, hdelivered]
    rfl

theorem Inv.send (h : Inv encoder mgr clients as s) {val : Stat}
    (hcollector : s.collector = .fetched val) :
  Inv encoder mgr clients (as ++ [.send]) { s with collector := .sent (encoderUpdate val) }
  := by
  refine ⟨?_, h.registered, ?_, h.keys, h.owed, h.honest⟩
  · rw [kernelActions_append]
    simpa [kernelActions] using h.kernel
  · rw [h.delivered, hcollector]
    rfl

theorem Inv.handle (h : Inv encoder mgr clients as s) {resp : EncoderResp}
    (hcollector : s.collector = .sent resp) :
  Inv encoder mgr clients (as ++ [.handle])
    { s with
      collector := .waiting
      registry := handleResp s.registry resp
      log := s.log ++ [.handled resp] }
  := by
  obtain ⟨hkeys, howed⟩ := handleResp_spec h.keys h.owed resp
  refine ⟨?_, h.registered, ?_, hkeys, howed, ?_⟩
  · rw [kernelActions_append]
    simpa [kernelActions] using h.kernel
  · rw [h.delivered, hcollector, handled_append, List.map_append, Collector.pending,
      Collector.pending, List.append_nil]
    rfl
  · apply h.honest.append
    nofun

theorem Inv.request (h : Inv encoder mgr clients as s) (hclients : clients.card ≤ registryCapacity)
    {tid : ℤ} (htid : tid ∈ clients) :
  ∃ s', step encoder s (.request tid) = some s'
    ∧ Inv encoder mgr clients (as ++ [.request tid]) s'
  := by
  obtain ⟨registry, resp, hreq, hkeys, howed, hhonest⟩ :=
    handleReq_spec hclients h.keys h.owed htid
  have hstep : step encoder s (.request tid) = some
      { s with registry := registry, log := s.log ++ [.replied tid resp] } := by
    rw [step, hreq]
    rfl
  refine ⟨_, hstep, ?_, h.registered, ?_, hkeys, howed, ?_⟩
  · rw [kernelActions_append]
    simpa [kernelActions] using h.kernel
  · rw [h.delivered, handled_append]
    simp [handled]
  · apply h.honest.append
    rintro tid' resp' ⟨⟩ hreplied
    exact hhonest hreplied

theorem Inv.step (h : Inv encoder mgr clients as s) (hclients : clients.card ≤ registryCapacity)
    {a : Action} (ha : Admitted clients s a) :
  ∃ s', EncoderServer.step encoder s a = some s' ∧ Inv encoder mgr clients (as ++ [a]) s'
  := by
  cases a with
  | update id a b => exact ⟨_, rfl, h.update id a b⟩
  | fetch => exact h.fetch ha
  | send =>
    obtain ⟨val, hcollector⟩ := ha
    exact ⟨_, by rw [EncoderServer.step, hcollector], h.send hcollector⟩
  | handle =>
    obtain ⟨resp, hcollector⟩ := ha
    exact ⟨_, by rw [EncoderServer.step, hcollector], h.handle hcollector⟩
  | request tid => exact h.request hclients ha

end Steps

theorem registered_encoderInit {mgr mgr' : Mgr} {pinA pinB gpioStatus : ℕ} {id : ℤ}
    (hinit : encoderInit mgr pinA pinB gpioStatus = (mgr', id)) (hid : id ≠ -1) :
  Registered id mgr'
  := by
  obtain ⟨hpos, hget⟩ := getEncoder_eq_some.mp (encoderInit_spec hinit hid)
  obtain ⟨hlt, -⟩ := List.getElem?_eq_some_iff.mp hget
  use hpos
  omega

/-- The collector has registered the encoder `id`, and requests come from at most 8 clients.
Then the server never panics. Each net count that the collector reads is in one message, in
order, the last one perhaps not handled yet; with what is left in the kernel they add up to
the turns of the wheel, when fewer than `2 ^ 64` samples are taken between two readings. And
the replies to a client after one of its requests, up to another one, add up to the messages
handled in between. -/
theorem encoder_distribution {mgr mgr' : Mgr} {pinA pinB gpioStatus : ℕ} {id : ℤ}
    (hinit : encoderInit mgr pinA pinB gpioStatus = (mgr', id)) (hid : id ≠ -1)
    {clients : Finset ℤ} (hclients : clients.card ≤ 8) {as : List Action}
    (has : Run.Meets (step id) (Admitted clients) (State.start mgr') as) :
  ∃ s, Run.run (step id) (State.start mgr') as = some s
    ∧ (stats id s.kernel.returned).map Stat.net
      = (handled s.log).map EncoderResp.left ++ s.collector.pending
    ∧ ((∀ bs, bs <+: kernelActions id as → Gpio.pending id bs < 2 ^ 64) →
      ∃ encoder, getEncoder s.kernel.mgr id = some encoder
        ∧ ((handled s.log).map EncoderResp.left).sum + s.collector.pending.sum + encoder.stat.net
          = displacement ((gpioStatus.testBit pinA, gpioStatus.testBit pinB)
            :: samples id (kernelActions id as)))
    ∧ ∀ pre mid post tid resp resp',
      s.log = pre ++ .replied tid resp :: mid ++ .replied tid resp' :: post →
        ((replies tid (mid ++ [.replied tid resp'])).map EncoderResp.left).sum
            = ((handled mid).map EncoderResp.left).sum
          ∧ ((replies tid (mid ++ [.replied tid resp'])).map EncoderResp.right).sum
            = ((handled mid).map EncoderResp.right).sum
  := by
  obtain ⟨s, hrun, hinv⟩ := Run.run_history (P := Inv id mgr' clients)
    (fun bs s a h ha => h.step hclients ha) (inv_start (registered_encoderInit hinit hid)) has
  rw [List.nil_append] at hinv
  refine ⟨s, hrun, hinv.delivered, ?_, ?_⟩
  · intro hfew
    have hstart : Counted id [(gpioStatus.testBit pinA, gpioStatus.testBit pinB)] 0
        { mgr := mgr', returned := [] }
        { pinA := pinA, pinB := pinB, lastA := gpioStatus.testBit pinA
          lastB := gpioStatus.testBit pinB, stat := Stat.clear } :=
      ⟨encoderInit_spec hinit hid, rfl, rfl, rfl, rfl⟩
    obtain ⟨encoder, hcounted⟩ := run_counted hstart (kernelActions id as) hfew
    rw [← hinv.kernel] at hcounted
    refine ⟨encoder, hcounted.found, ?_⟩
    rw [← hcounted.net, hinv.delivered, List.sum_append]
  · intro pre mid post tid resp resp' hlog
    use hinv.honest.between component_left hlog
    exact hinv.honest.between component_right hlog

/-! ### Examples of runs -/

/-- The wheel turns once, between the readings of the collector, and client 5 asks twice. -/
def oneTurn : List Action :=
  [.request 5, .update 0 true false, .fetch, .update 0 true true, .send, .handle,
    .update 0 false true, .fetch, .send, .handle, .request 5, .update 0 false false]

/-- `Admitted`, as a check. -/
def admitted (clients : Finset ℤ) (s : State) : Action → Bool
  | .update _ _ _ => true
  | .fetch => match s.collector with
      | .waiting => true
      | _ => false
  | .send => match s.collector with
      | .fetched _ => true
      | _ => false
  | .handle => match s.collector with
      | .sent _ => true
      | _ => false
  | .request tid => decide (tid ∈ clients)

theorem admitted_of_check (clients : Finset ℤ) (s : State) (a : Action)
    (h : admitted clients s a = true) :
  Admitted clients s a
  := by
  cases a with
  | update id a b => trivial
  | fetch =>
    rw [admitted] at h
    split at h
    · assumption
    · cases h
  | send =>
    rw [admitted] at h
    split at h
    · rename_i val hcollector
      exact ⟨val, hcollector⟩
    · cases h
  | handle =>
    rw [admitted] at h
    split at h
    · rename_i resp hcollector
      exact ⟨resp, hcollector⟩
    · cases h
  | request tid => exact of_decide_eq_true (p := tid ∈ clients) h

theorem encoder_distribution_oneTurn :
  ∃ s encoder, Run.run (step 0) (State.start oneEncoder) oneTurn = some s
    ∧ getEncoder s.kernel.mgr 0 = some encoder
    ∧ (stats 0 s.kernel.returned).map Stat.net
      = (handled s.log).map EncoderResp.left ++ s.collector.pending
    ∧ ((handled s.log).map EncoderResp.left).sum + s.collector.pending.sum + encoder.stat.net
      = displacement ((Nat.testBit 0 5, Nat.testBit 0 6)
          :: samples 0 (kernelActions 0 oneTurn))
    ∧ ∀ pre mid post tid resp resp',
      s.log = pre ++ .replied tid resp :: mid ++ .replied tid resp' :: post →
        ((replies tid (mid ++ [.replied tid resp'])).map EncoderResp.left).sum
            = ((handled mid).map EncoderResp.left).sum
          ∧ ((replies tid (mid ++ [.replied tid resp'])).map EncoderResp.right).sum
            = ((handled mid).map EncoderResp.right).sum
  := by
  have hclients : ({5} : Finset ℤ).card ≤ 8 := by decide
  have hadmitted : Run.Meets (step 0) (Admitted {5}) (State.start oneEncoder) oneTurn := by
    apply Run.meets_of_allOk (admitted_of_check {5})
    decide
  obtain ⟨s, hrun, hdelivered, hturned, hreplies⟩ :=
    encoder_distribution oneEncoder_init (by decide) hclients hadmitted
  obtain ⟨encoder, hfound, hsum⟩ := hturned (by
    intro bs hbs
    have hle := (pending_le 0 bs).trans hbs.length_le
    have hlen : (kernelActions 0 oneTurn).length = 6 := rfl
    omega)
  exact ⟨s, encoder, hrun, hfound, hdelivered, hsum, hreplies⟩

/-- The wheel turns `n` times. -/
def turns (n : ℕ) : List Action :=
  (List.replicate n [.update 0 true false, .update 0 true true, .update 0 false true,
    .update 0 false false]).flatten

/-- The encoder has counted `n` steps forward, the last of them to the levels `a` and `b`. -/
def countedMgr (n : ℕ) (a b : Bool) : Mgr :=
  { oneEncoder with
    encoders := [{ pinA := 5, pinB := 6, lastA := a, lastB := b
                   stat := { Stat.clear with forwardCnt := n } }] }

theorem turns_succ (n : ℕ) :
  turns (n + 1) = turns n ++ turns 1
  := by
  rw [turns, List.replicate_succ', List.flatten_append]
  rfl

theorem step_forward (n : ℕ) {lastA lastB a b : Bool}
    (h : changeLookup (change lastA lastB a b) = 1) :
  step 0 (State.start (countedMgr n lastA lastB)) (.update 0 a b)
    = some (State.start (countedMgr ((n + 1) % 2 ^ 64) a b))
  := by
  simp [step, Sys.step, State.start, countedMgr, Mgr.update, getEncoder, Mgr.set, Encoder.update, h]

/-- One turn is four steps forward. -/
theorem run_turn (n : ℕ) :
  Run.run (step 0) (State.start (countedMgr n false false)) (turns 1)
    = some (State.start (countedMgr ((n + 4) % 2 ^ 64) false false))
  := by
  have hmod : ((((n + 1) % 2 ^ 64 + 1) % 2 ^ 64 + 1) % 2 ^ 64 + 1) % 2 ^ 64 = (n + 4) % 2 ^ 64 := by
    omega
  have hturns : turns 1 = [.update 0 true false, .update 0 true true, .update 0 false true,
      .update 0 false false] := rfl
  rw [hturns, Run.run_cons (step_forward n (by decide)), Run.run_cons (step_forward _ (by decide)),
    Run.run_cons (step_forward _ (by decide)), Run.run_cons (step_forward _ (by decide)), hmod]
  rfl

theorem meets_turns (n : ℕ) (s : State) :
  Run.Meets (step 0) (Admitted ∅) s (turns n)
  := by
  induction n generalizing s with
  | zero => trivial
  | succ n ih =>
    have hcons : turns (n + 1) = .update 0 true false :: .update 0 true true ::
        .update 0 false true :: .update 0 false false :: turns n := rfl
    rw [hcons]
    refine ⟨trivial, fun _ _ => ⟨trivial, fun _ _ => ⟨trivial, fun _ _ => ⟨trivial, ?_⟩⟩⟩⟩
    intro s' _
    apply ih

theorem run_turns (n : ℕ) :
  Run.run (step 0) (State.start oneEncoder) (turns n)
    = some (State.start (countedMgr (4 * n % 2 ^ 64) false false))
  := by
  induction n with
  | zero => rfl
  | succ n ih =>
    have hmod : (4 * n % 2 ^ 64 + 4) % 2 ^ 64 = 4 * (n + 1) % 2 ^ 64 := by omega
    rw [turns_succ, Run.run_append, ih, Option.bind_some, run_turn, hmod]

theorem displacement_turns (n : ℕ) :
  displacement ((false, false) :: samples 0 (kernelActions 0 (turns n))) = 4 * n
  := by
  induction n with
  | zero => rfl
  | succ n ih =>
    have hcons : (false, false) :: samples 0 (kernelActions 0 (turns (n + 1)))
        = [(false, false), (true, false), (true, true), (false, true)]
          ++ (false, false) :: samples 0 (kernelActions 0 (turns n)) := rfl
    have hturn : displacement ([(false, false), (true, false), (true, true), (false, true)]
        ++ [(false, false)]) = 4 := by decide
    rw [hcons, displacement_append, ih, hturn]
    push_cast
    omega

/-- After `2 ^ 64` steps forward without a reading there is nothing left of them. -/
theorem not_encoder_distribution_overflow :
  Run.Meets (step 0) (Admitted ∅) (State.start oneEncoder) (turns (2 ^ 62))
    ∧ ∃ s encoder, Run.run (step 0) (State.start oneEncoder) (turns (2 ^ 62)) = some s
      ∧ getEncoder s.kernel.mgr 0 = some encoder
      ∧ handled s.log = [] ∧ s.collector.pending = [] ∧ encoder.stat.net = 0
      ∧ displacement ((Nat.testBit 0 5, Nat.testBit 0 6)
        :: samples 0 (kernelActions 0 (turns (2 ^ 62)))) = 2 ^ 64
  := by
  refine ⟨meets_turns (2 ^ 62) _, _, _, run_turns (2 ^ 62), rfl, rfl, rfl, by decide, ?_⟩
  have hpath : displacement ((Nat.testBit 0 5, Nat.testBit 0 6)
      :: samples 0 (kernelActions 0 (turns (2 ^ 62)))) = 4 * (2 ^ 62 : ℕ) :=
    displacement_turns (2 ^ 62)
  exact hpath.trans (by decide)

end TrainsOs.EncoderServer
