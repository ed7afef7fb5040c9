import TrainsOs.Bluetooth.Server

/-!
# The IMU collector

The task `imu_collector.rs`. The sensor sends frames of 19 bytes, each of which starts with
the bytes `0xAA 0xAA`. The collector knows where it is in the stream of bytes only by how
many bytes it asks the UART server for: 20 in which it looks for a frame, then the rest of
that frame, and then one frame after another, until one does not start as it should.
-/

namespace TrainsOs.Imu

open Bluetooth

/-- `ImuRawResp`. -/
structure ImuRawResp where
  yaw : ℕ
  pitch : ℕ
  roll : ℕ
  xAccel : ℕ
  yAccel : ℕ
  zAccel : ℕ

/-- The fields of an `ImuRawResp`, as they are read from the bytes of a frame. `none` is a
panic. -/
def decode (bytes : List UInt8) : Option ImuRawResp := do
  let yaw ← sliceFrom bytes 3
  let pitch ← sliceFrom bytes 5
  let roll ← sliceFrom bytes 7
  let xAccel ← sliceFrom bytes 9
  let yAccel ← sliceFrom bytes 11
  let zAccel ← sliceFrom bytes 13
  some
    { yaw := readU16 yaw
      pitch := readU16 pitch
      roll := readU16 roll
      xAccel := readU16 xAccel
      yAccel := readU16 yAccel
      zAccel := readU16 zAccel }

/-- The loop that looks for the offset of a frame. -/
def findOffset (bytes : List UInt8) : Option ℕ :=
  (List.range (bytes.length - 1)).find? fun i =>
    bytes[i]? = some 0xAA && bytes[i + 1]? = some 0xAA

/-- Which request the collector makes: for 20 bytes in the outer loop, for the `len` bytes
after the offset is found, or for 19 in the inner loop. -/
inductive Phase where
  | outer
  | align (len : ℕ)
  | inner

/-- `req.len`. -/
def Phase.reqLen : Phase → ℕ
  | .outer => 20
  | .align len => len
  | .inner => 19

/-- What the collector does with the reply, where `none` is a message other than an
`RpiUartRxResp`: its next request, and the message it sends. The result is `none` when it
panics. -/
def Phase.handle : Phase → Option (List UInt8) → Option (Phase × Option ImuRawResp)
  -- `resp.bytes.len() - 1` is out of range
  | .outer, some [] => none
  | .outer, resp =>
      match resp.bind findOffset with
      | some x => some (.align (if x = 0 then 18 else x - 1), none)
      | none => some (.inner, none)
  | .align _, _ => some (.inner, none)
  | .inner, some bytes => do
      if (← bytes[0]?) ≠ 0xAA then
        some (.outer, none)
      else if (← bytes[1]?) ≠ 0xAA then
        some (.outer, none)
      else
        let imuRaw ← decode bytes
        some (.inner, some imuRaw)
  | .inner, none => none

/-! ### The stream -/

/-- The bytes of a stream from `pos` on. -/
def readBytes (stream : ℕ → UInt8) (pos len : ℕ) : List UInt8 :=
  (List.range len).map fun i => stream (pos + i)

/-- The collector, at a position of the stream. Each message it has sent stands with the
position of the bytes it was made of. -/
structure Link where
  phase : Phase
  pos : ℕ
  sent : List (ℕ × ImuRawResp)

/-- The collector starts in the outer loop. -/
def Link.start (pos : ℕ) : Link where
  phase := .outer
  pos := pos
  sent := []

/-- One request, which is answered with the next bytes of the stream. -/
def Link.step (stream : ℕ → UInt8) (l : Link) : Option Link := do
  let (phase, msg) ← l.phase.handle (some (readBytes stream l.pos l.phase.reqLen))
  some
    { phase := phase
      pos := l.pos + l.phase.reqLen
      sent := l.sent ++ (msg.map fun imuRaw => (l.pos, imuRaw)).toList }

/-- `n` requests. -/
def run (stream : ℕ → UInt8) : ℕ → Link → Option Link
  | 0, l => some l
  | n + 1, l => (l.step stream).bind (run stream n)

/-- The length of a frame. -/
def frameLen : ℕ := 19

/-- The frames that start at the positions `starts` are complete, and the bytes `0xAA 0xAA`
stand exactly where they start. Between them is anything. -/
structure Framed (stream : ℕ → UInt8) (starts : Set ℕ) : Prop where
  pair : ∀ i, stream i = 0xAA ∧ stream (i + 1) = 0xAA ↔ i ∈ starts
  complete : ∀ i ∈ starts, ∀ j ∈ starts, i < j → i + frameLen ≤ j

/-- From the frame at `S` on, one frame follows the other. -/
structure GarbageFree (starts : Set ℕ) (S : ℕ) : Prop where
  start : S ∈ starts
  next : ∀ i ∈ starts, S ≤ i → i + frameLen ∈ starts

section Steps

variable {stream : ℕ → UInt8} {starts : Set ℕ} {l : Link}

@[simp]
theorem length_readBytes (stream : ℕ → UInt8) (pos len : ℕ) :
  (readBytes stream pos len).length = len
  := by
  rw [readBytes, List.length_map, List.length_range]

theorem readBytes_get {pos len i : ℕ} (hi : i < len) :
  (readBytes stream pos len)[i]? = some (stream (pos + i))
  := by
  rw [readBytes, List.getElem?_map, List.getElem?_range hi]
  rfl

@[simp]
theorem readBytes_getElem {pos len i : ℕ} (hi : i < (readBytes stream pos len).length) :
  (readBytes stream pos len)[i] = stream (pos + i)
  := by
  simp [readBytes]

/-- The test in the loop that looks for the offset. -/
theorem Framed.test_iff (hframed : Framed stream starts) {pos i : ℕ} (hi : i < 19) :
  (decide ((readBytes stream pos 20)[i]? = some 0xAA)
      && decide ((readBytes stream pos 20)[i + 1]? = some 0xAA)) = true
    ↔ pos + i ∈ starts
  := by
  rw [readBytes_get (by omega), readBytes_get (by omega), Bool.and_eq_true, decide_eq_true_eq,
    decide_eq_true_eq, Option.some.injEq, Option.some.injEq]
  apply hframed.pair

/-- The offset is that of a frame. -/
theorem Framed.of_findOffset (hframed : Framed stream starts) {pos x : ℕ}
    (h : findOffset (readBytes stream pos 20) = some x) :
  x < 19 ∧ pos + x ∈ starts
  := by
  have hlt : x < 19 := by
    have hmem := List.mem_of_find?_eq_some h
    rw [length_readBytes, List.mem_range] at hmem
    exact hmem
  use hlt
  have htest := (List.find?_eq_some_iff_append.mp h).1
  apply (hframed.test_iff hlt).mp htest

/-- Without an offset no frame starts at one of the first 19 bytes. -/
theorem Framed.of_findOffset_none (hframed : Framed stream starts) {pos x : ℕ}
    (h : findOffset (readBytes stream pos 20) = none) (hx : x < 19) :
  pos + x ∉ starts
  := by
  rw [findOffset, List.find?_eq_none] at h
  have hmem : x ∈ List.range ((readBytes stream pos 20).length - 1) := by
    rw [length_readBytes, List.mem_range]
    exact hx
  intro hstart
  exact h x hmem ((hframed.test_iff hx).mpr hstart)

/-- The bytes of a frame can be decoded. -/
theorem exists_decode {bytes : List UInt8} (h : bytes.length = 19) :
  ∃ imuRaw, decode bytes = some imuRaw
  := by
  have hslice : ∀ n ≤ 19, sliceFrom bytes n = some (bytes.drop n) :=
    fun n hn => if_pos (h ▸ hn)
  simp [decode, hslice]

/-- The length of the request for the rest of the frame at the offset `x`. -/
def alignLen (x : ℕ) : ℕ :=
  if x = 0 then 18 else x - 1

/-- In the outer loop. -/
theorem Framed.step_outer (hframed : Framed stream starts) (hphase : l.phase = .outer) :
  (∃ x < 19, l.pos + x ∈ starts
      ∧ l.step stream = some { l with phase := .align (alignLen x), pos := l.pos + 20 })
    ∨ (∀ x < 19, l.pos + x ∉ starts)
      ∧ l.step stream = some { l with phase := .inner, pos := l.pos + 20 }
  := by
  have hcons : ∃ b bytes, readBytes stream l.pos 20 = b :: bytes := ⟨_, _, rfl⟩
  obtain ⟨b, bytes, hbytes⟩ := hcons
  cases hoffset : findOffset (readBytes stream l.pos 20) with
  | some x =>
    left
    obtain ⟨hlt, hstart⟩ := hframed.of_findOffset hoffset
    use x, hlt, hstart
    rw [hbytes] at hoffset
    simp [Link.step, hphase, Phase.handle, Phase.reqLen, hbytes, hoffset, alignLen]
  | none =>
    right
    use fun x hx => hframed.of_findOffset_none hoffset hx
    rw [hbytes] at hoffset
    simp [Link.step, hphase, Phase.handle, Phase.reqLen, hbytes, hoffset]

theorem step_align {len : ℕ} (hphase : l.phase = .align len) :
  l.step stream = some { l with phase := .inner, pos := l.pos + len }
  := by
  simp [Link.step, hphase, Phase.handle, Phase.reqLen]

/-- A frame in the inner loop. -/
theorem Framed.step_inner (hframed : Framed stream starts) (hphase : l.phase = .inner)
    (hstart : l.pos ∈ starts) :
  ∃ imuRaw, decode (readBytes stream l.pos 19) = some imuRaw
    ∧ l.step stream = some
      { l with pos := l.pos + 19, sent := l.sent ++ [(l.pos, imuRaw)] }
  := by
  obtain ⟨imuRaw, himu⟩ := exists_decode (length_readBytes stream l.pos 19)
  use imuRaw, himu
  obtain ⟨h0, h1⟩ := (hframed.pair l.pos).mpr hstart
  simp [Link.step, hphase, Phase.handle, Phase.reqLen, h0, h1, himu]

/-- Something else in the inner loop. -/
theorem Framed.step_inner_lost (hframed : Framed stream starts) (hphase : l.phase = .inner)
    (hstart : l.pos ∉ starts) :
  l.step stream = some { l with phase := .outer, pos := l.pos + 19 }
  := by
  have hpair : ¬ (stream l.pos = 0xAA ∧ stream (l.pos + 1) = 0xAA) :=
    fun h => hstart ((hframed.pair l.pos).mp h)
  by_cases h0 : stream l.pos = 0xAA
  · have h1 : stream (l.pos + 1) ≠ 0xAA := fun h1 => hpair ⟨h0, h1⟩
    simp [Link.step, hphase, Phase.handle, Phase.reqLen, h0, h1]
  · simp [Link.step, hphase, Phase.handle, Phase.reqLen, h0]

/-! ### What is sent -/

/-- Every message is made of a frame, and the frames stand in the order of the stream. -/
structure Tracks (stream : ℕ → UInt8) (starts : Set ℕ) (l : Link) : Prop where
  frames : ∀ e ∈ l.sent, e.1 ∈ starts ∧ decode (readBytes stream e.1 frameLen) = some e.2
  sorted : (l.sent.map Prod.fst).Pairwise (· < ·)
  past : ∀ e ∈ l.sent, e.1 < l.pos

theorem Tracks.advance (h : Tracks stream starts l) (phase : Phase) (len : ℕ) :
  Tracks stream starts { l with phase := phase, pos := l.pos + len }
  := by
  refine ⟨h.frames, h.sorted, ?_⟩
  intro e he
  exact Nat.lt_add_right len (h.past e he)

/-- A request does not panic, and what it sends comes after everything before. -/
theorem Tracks.step (hframed : Framed stream starts) (h : Tracks stream starts l) :
  ∃ l', l.step stream = some l' ∧ Tracks stream starts l'
  := by
  cases hphase : l.phase with
  | outer =>
    obtain ⟨x, -, -, hstep⟩ | ⟨-, hstep⟩ := hframed.step_outer hphase
    · exact ⟨_, hstep, h.advance _ _⟩
    · exact ⟨_, hstep, h.advance _ _⟩
  | align len => exact ⟨_, step_align hphase, h.advance _ _⟩
  | inner =>
    by_cases hstart : l.pos ∈ starts
    · obtain ⟨imuRaw, himu, hstep⟩ := hframed.step_inner hphase hstart
      refine ⟨_, hstep, ?_, ?_, ?_⟩
      · intro e he
        obtain he | he := List.mem_append.mp he
        · exact h.frames e he
        · rw [List.mem_singleton.mp he]
          exact ⟨hstart, himu⟩
      · rw [List.map_append, List.pairwise_append]
        refine ⟨h.sorted, List.pairwise_singleton _ _, ?_⟩
        rintro pos hpos _ hmem
        obtain ⟨e, he, rfl⟩ := List.mem_map.mp hpos
        rw [List.mem_singleton.mp hmem]
        exact h.past e he
      · intro e he
        dsimp only
        obtain he | he := List.mem_append.mp he
        · have hpast := h.past e he
          omega
        · rw [List.mem_singleton.mp he]
          apply Nat.lt_add_of_pos_right
          decide
    · exact ⟨_, hframed.step_inner_lost hphase hstart, h.advance _ _⟩

/-- What is sent in `n` requests. -/
theorem Tracks.run (hframed : Framed stream starts) (h : Tracks stream starts l) (n : ℕ) :
  ∃ l', run stream n l = some l' ∧ Tracks stream starts l'
  := by
  induction n generalizing l with
  | zero => exact ⟨l, rfl, h⟩
  | succ n ih =>
    obtain ⟨l₁, hstep, h₁⟩ := h.step hframed
    rw [Imu.run, hstep, Option.bind_some]
    exact ih h₁

/-! ### Where the frames are -/

section Garbage

variable {S : ℕ}

theorem GarbageFree.mem (hfree : GarbageFree starts S) (k : ℕ) :
  S + frameLen * k ∈ starts
  := by
  induction k with
  | zero => exact hfree.start
  | succ k ih =>
    rw [Nat.mul_succ, ← Nat.add_assoc]
    apply hfree.next _ ih (Nat.le_add_right _ _)

/-- From `S` on there are no other frames. -/
theorem GarbageFree.eq_of_mem (hframed : Framed stream starts) (hfree : GarbageFree starts S)
    {f : ℕ} (hf : f ∈ starts) (hle : S ≤ f) :
  ∃ k, f = S + frameLen * k
  := by
  use (f - S) / frameLen
  have hdiv := Nat.div_add_mod (f - S) frameLen
  have hmod : (f - S) % frameLen < frameLen := Nat.mod_lt _ (by decide)
  by_contra hne
  have hlt : S + frameLen * ((f - S) / frameLen) < f := by omega
  have hcomplete := hframed.complete _ (hfree.mem _) f hf hlt
  omega

/-- A frame that starts before `S` ends there or earlier. -/
theorem GarbageFree.end_le (hframed : Framed stream starts) (hfree : GarbageFree starts S)
    {f : ℕ} (hf : f ∈ starts) (hlt : f < S) :
  f + frameLen ≤ S
  := hframed.complete f hf S hfree.start hlt

end Garbage

end Steps

/-! ### Finding the frames -/

/-- The state `l'` is reached from `l`. -/
def Leads (stream : ℕ → UInt8) (l l' : Link) : Prop :=
  ∃ n, run stream n l = some l'

theorem run_add {stream : ℕ → UInt8} {l l₁ l' : Link} {m n : ℕ} (hm : run stream m l = some l₁)
    (hn : run stream n l₁ = some l') :
  run stream (m + n) l = some l'
  := by
  induction m generalizing l with
  | zero =>
    obtain rfl := Option.some.inj hm
    rw [Nat.zero_add]
    exact hn
  | succ m ih =>
    obtain ⟨l₂, hstep, hm⟩ := Option.bind_eq_some_iff.mp hm
    rw [Nat.succ_add, run, hstep, Option.bind_some]
    exact ih hm

theorem Leads.refl (stream : ℕ → UInt8) (l : Link) :
  Leads stream l l
  := ⟨0, rfl⟩

theorem Leads.head {stream : ℕ → UInt8} {l l₁ l' : Link} (hstep : l.step stream = some l₁)
    (h : Leads stream l₁ l') :
  Leads stream l l'
  := by
  obtain ⟨n, hrun⟩ := h
  use n + 1
  rw [run, hstep, Option.bind_some]
  exact hrun

/-- In the inner loop, at the beginning of the frame `k` after `S`. -/
structure Synced (S k : ℕ) (l : Link) : Prop where
  phase : l.phase = .inner
  pos : l.pos = S + frameLen * k

/-- The collector will be at the beginning of one of the first frames after `S`, of the one
with the number `k` at the latest. -/
def SyncsBy (stream : ℕ → UInt8) (S k : ℕ) (l : Link) : Prop :=
  ∃ j ≤ k, ∃ l', Leads stream l l' ∧ Synced S j l'

theorem SyncsBy.head {stream : ℕ → UInt8} {S k : ℕ} {l l₁ : Link}
    (hstep : l.step stream = some l₁) (h : SyncsBy stream S k l₁) :
  SyncsBy stream S k l
  := by
  obtain ⟨j, hj, l', hleads, hsynced⟩ := h
  exact ⟨j, hj, l', hleads.head hstep, hsynced⟩

theorem SyncsBy.mono {stream : ℕ → UInt8} {S k k' : ℕ} {l : Link} (h : SyncsBy stream S k l)
    (hk : k ≤ k') :
  SyncsBy stream S k' l
  := by
  obtain ⟨j, hj, hrest⟩ := h
  exact ⟨j, le_trans hj hk, hrest⟩

theorem Synced.syncsBy {stream : ℕ → UInt8} {S k : ℕ} {l : Link} (h : Synced S k l) :
  SyncsBy stream S k l
  := ⟨k, le_refl k, l, Leads.refl stream l, h⟩

section Sync

variable {stream : ℕ → UInt8} {starts : Set ℕ} {S : ℕ} {l : Link}

/-- In the outer loop among the frames after `S`: the frame that is found is skipped, and
when it started at the first byte, so is the next one. -/
theorem syncsBy_of_outer (hframed : Framed stream starts) (hfree : GarbageFree starts S)
    (hphase : l.phase = .outer) {m : ℕ} (hle : S ≤ l.pos) (hlt : l.pos < S + frameLen * (m + 1)) :
  SyncsBy stream S (m + 2) l
  := by
  rw [frameLen] at hlt
  obtain ⟨x, hx, hstart, hstep⟩ | ⟨hnone, hstep⟩ := hframed.step_outer hphase
  · obtain ⟨k, hk⟩ := hfree.eq_of_mem hframed hstart (Nat.le_add_right_of_le hle)
    rw [frameLen] at hk
    apply SyncsBy.head hstep
    apply SyncsBy.head (step_align rfl)
    by_cases hzero : x = 0
    · have hsynced : Synced S (k + 2)
          { l with phase := .inner, pos := l.pos + 20 + alignLen x } := by
        use rfl
        dsimp only
        rw [alignLen, if_pos hzero, frameLen]
        omega
      apply hsynced.syncsBy.mono
      omega
    · have hsynced : Synced S (k + 1)
          { l with phase := .inner, pos := l.pos + 20 + alignLen x } := by
        use rfl
        dsimp only
        rw [alignLen, if_neg hzero, frameLen]
        omega
      apply hsynced.syncsBy.mono
      omega
  · -- one of any 19 positions is that of a frame
    exfalso
    have hdiv := Nat.div_add_mod (l.pos - S + 18) 19
    have hmod : (l.pos - S + 18) % 19 < 19 := Nat.mod_lt _ (by decide)
    have hmem := hfree.mem ((l.pos - S + 18) / 19)
    rw [frameLen] at hmem
    apply hnone (S + 19 * ((l.pos - S + 18) / 19) - l.pos)
    · omega
    · rw [Nat.add_sub_cancel' (by omega)]
      exact hmem

/-- In the inner loop, not far behind `S`. -/
theorem syncsBy_of_inner (hframed : Framed stream starts) (hfree : GarbageFree starts S)
    (hphase : l.phase = .inner) (hle : S ≤ l.pos) (hend : l.pos ≤ S + frameLen) :
  SyncsBy stream S 3 l
  := by
  by_cases hstart : l.pos ∈ starts
  · obtain ⟨k, hk⟩ := hfree.eq_of_mem hframed hstart hle
    have hsynced : Synced S k l := ⟨hphase, hk⟩
    apply hsynced.syncsBy.mono
    rw [frameLen] at hk hend
    omega
  · apply SyncsBy.head (hframed.step_inner_lost hphase hstart)
    have hne : l.pos ≠ S + frameLen := by
      intro heq
      apply hstart
      rw [heq]
      exact hfree.next S hfree.start (le_refl S)
    rw [frameLen] at hend hne
    apply syncsBy_of_outer hframed hfree rfl
    · dsimp only
      omega
    · dsimp only
      rw [frameLen]
      omega

/-- From anywhere before `S`. The frames before `S` end there at the latest, so that the
collector is never far behind `S` when it has read over it. -/
theorem syncsBy_of_le (hframed : Framed stream starts) (hfree : GarbageFree starts S)
    (hphase : l.phase = .outer ∨ l.phase = .inner) (hle : l.pos ≤ S) :
  SyncsBy stream S 3 l
  := by
  induction hn : S - l.pos using Nat.strong_induction_on generalizing l with
  | _ n ih =>
    -- in the inner loop again, further on
    have hinner : ∀ pos, l.pos < pos → pos ≤ S + frameLen →
        SyncsBy stream S 3 { l with phase := .inner, pos := pos } := by
      intro pos hpos hend
      by_cases hbefore : pos ≤ S
      · exact ih (S - pos) (by omega) (.inr rfl) hbefore rfl
      · exact syncsBy_of_inner hframed hfree rfl (Nat.le_of_not_le hbefore) hend
    obtain heq | hlt := Nat.eq_or_lt_of_le hle
    · obtain hphase | hphase := hphase
      · apply (syncsBy_of_outer hframed hfree hphase (Nat.le_of_eq heq.symm) (m := 0) _).mono
        · decide
        · rw [heq, frameLen]
          omega
      · apply syncsBy_of_inner hframed hfree hphase (Nat.le_of_eq heq.symm)
        rw [heq]
        apply Nat.le_add_right
    obtain hphase | hphase := hphase
    · obtain ⟨x, hx, hstart, hstep⟩ | ⟨-, hstep⟩ := hframed.step_outer hphase
      · apply SyncsBy.head hstep
        apply SyncsBy.head (step_align rfl)
        apply hinner
        · dsimp only
          omega
        · -- the frame that is found starts at `S` at the latest
          have hfound : l.pos + x ≤ S := by
            by_contra hafter
            have hcomplete := hframed.complete S hfree.start _ hstart (Nat.lt_of_not_le hafter)
            rw [frameLen] at hcomplete
            omega
          dsimp only
          rw [alignLen, frameLen]
          split_ifs with hzero
          · have hend := hfree.end_le hframed hstart (by omega)
            rw [frameLen] at hend
            omega
          · omega
      · apply SyncsBy.head hstep
        apply hinner
        · omega
        · rw [frameLen]
          omega
    · by_cases hstart : l.pos ∈ starts
      · obtain ⟨imuRaw, -, hstep⟩ := hframed.step_inner hphase hstart
        apply SyncsBy.head hstep
        have hend := hfree.end_le hframed hstart hlt
        rw [frameLen] at hend
        exact ih (S - (l.pos + 19)) (by omega) (.inr hphase) hend rfl
      · apply SyncsBy.head (hframed.step_inner_lost hphase hstart)
        by_cases hbefore : l.pos + 19 ≤ S
        · exact ih (S - (l.pos + 19)) (by omega) (.inl rfl) hbefore rfl
        · apply (syncsBy_of_outer hframed hfree rfl (m := 0) _ _).mono
          · decide
          · exact Nat.le_of_not_le hbefore
          · dsimp only
            rw [frameLen]
            omega

/-- In the inner loop, one frame after the other is sent. -/
theorem Synced.sends (hframed : Framed stream starts) (hfree : GarbageFree starts S) {j k : ℕ}
    (h : Synced S j l) (hjk : j ≤ k) :
  ∃ l' imuRaw, Leads stream l l' ∧ (S + frameLen * k, imuRaw) ∈ l'.sent
  := by
  have hstart : l.pos ∈ starts := by
    rw [h.pos]
    apply hfree.mem
  obtain ⟨imuRaw, -, hstep⟩ := hframed.step_inner h.phase hstart
  induction hn : k - j generalizing j l imuRaw with
  | zero =>
    obtain rfl : j = k := Nat.le_antisymm hjk (Nat.le_of_sub_eq_zero hn)
    refine ⟨_, imuRaw, (Leads.refl stream _).head hstep, ?_⟩
    rw [h.pos]
    apply List.mem_append_right
    exact List.mem_singleton_self _
  | succ n ih =>
    have hnext : Synced S (j + 1)
        { l with pos := l.pos + 19, sent := l.sent ++ [(l.pos, imuRaw)] } := by
      use h.phase
      rw [h.pos, Nat.mul_succ, ← Nat.add_assoc]
      rfl
    have hstart' : l.pos + 19 ∈ starts := by
      have hpos := hnext.pos
      dsimp only at hpos
      rw [hpos]
      apply hfree.mem
    obtain ⟨imuRaw', -, hstep'⟩ := hframed.step_inner hnext.phase hstart'
    obtain ⟨l', msg, hleads, hmem⟩ := ih hnext (by omega) hstart' imuRaw' hstep' (by omega)
    exact ⟨l', msg, hleads.head hstep, hmem⟩

end Sync

/-- On a stream of frames, and from any position of it, the collector never panics, every
message that it sends is made of one frame, and the frames are sent in order, none twice.
When the stream is free of garbage from the frame at `S` on, all frames from the sixth one
on are sent, counted from `S` or from where the collector starts, whichever comes later. -/
theorem collector_resyncs {stream : ℕ → UInt8} {starts : Set ℕ}
    (hframed : Framed stream starts) (pos : ℕ) :
  (∀ n, ∃ l, run stream n (Link.start pos) = some l
      ∧ (∀ e ∈ l.sent, e.1 ∈ starts ∧ decode (readBytes stream e.1 frameLen) = some e.2)
      ∧ (l.sent.map Prod.fst).Pairwise (· < ·))
    ∧ ∀ S, GarbageFree starts S → ∀ k ≥ 5, pos ≤ S + frameLen * (k - 5) →
      ∃ n l imuRaw, run stream n (Link.start pos) = some l
        ∧ (S + frameLen * k, imuRaw) ∈ l.sent
  := by
  constructor
  · intro n
    have hstart : Tracks stream starts (Link.start pos) := ⟨nofun, List.Pairwise.nil, nofun⟩
    obtain ⟨l, hrun, htracks⟩ := hstart.run hframed n
    exact ⟨l, hrun, htracks.frames, htracks.sorted⟩
  · intro S hfree k hk hpos
    have hsyncs : SyncsBy stream S k (Link.start pos) := by
      by_cases hle : pos ≤ S
      · exact (syncsBy_of_le hframed hfree (.inl rfl) hle).mono (by omega)
      · rw [frameLen] at hpos
        apply (syncsBy_of_outer hframed hfree rfl (m := k - 5) _ _).mono (by omega)
        · exact Nat.le_of_not_le hle
        · change pos < S + frameLen * (k - 5 + 1)
          rw [frameLen]
          omega
    obtain ⟨j, hj, l, ⟨m, hm⟩, hsynced⟩ := hsyncs
    obtain ⟨l', imuRaw, ⟨n, hn⟩, hmem⟩ := hsynced.sends hframed hfree hj
    use m + n, l', imuRaw, run_add hm hn, hmem

/-- A stream of frames of zeros, one after the other. -/
def zeroFrames (i : ℕ) : UInt8 :=
  if i % 19 < 2 then 0xAA else 0

theorem framed_zeroFrames :
  Framed zeroFrames { i | i % 19 = 0 }
  := by
  constructor
  · intro i
    rw [zeroFrames, zeroFrames, Set.mem_ofPred_eq]
    split_ifs with h0 h1
    · simp
      omega
    · simp
      omega
    · simp
      omega
    · simp
      omega
  · intro i hi j hj hlt
    rw [Set.mem_ofPred_eq] at hi hj
    rw [frameLen]
    omega

theorem collector_resyncs_zeroFrames :
  (∀ n, ∃ l, run zeroFrames n (Link.start 7) = some l
      ∧ (∀ e ∈ l.sent, e.1 ∈ { i | i % 19 = 0 }
        ∧ decode (readBytes zeroFrames e.1 frameLen) = some e.2)
      ∧ (l.sent.map Prod.fst).Pairwise (· < ·))
    ∧ ∀ S, GarbageFree { i | i % 19 = 0 } S → ∀ k ≥ 5, 7 ≤ S + frameLen * (k - 5) →
      ∃ n l imuRaw, run zeroFrames n (Link.start 7) = some l
        ∧ (S + frameLen * k, imuRaw) ∈ l.sent
  := collector_resyncs framed_zeroFrames 7

end TrainsOs.Imu
