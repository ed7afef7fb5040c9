import TrainsOs.Lib.Monitor
import TrainsOs.MsgBox.Builder
import TrainsOs.Bluetooth.Framing

/-!
# The commander

The task `rpi_bluetooth_commander.rs`. It sets the Bluetooth controller up, with the firmware
that it loads into it, and then advertises whenever there is no connection. It sends its
commands through the UART server, and the reader tells it the events of the controller.
-/

namespace TrainsOs.Bluetooth.Commander

open MsgBox Bytes

def ogfHostControl : ℕ := 0x03
def ogfLeControl : ℕ := 0x08
def ogfVendor : ℕ := 0x3f
def commandSetBdaddr : ℕ := 0x01
def commandResetChip : ℕ := 0x03
def commandSetBaud : ℕ := 0x18
def commandLoadFirmware : ℕ := 0x2e
def hciCommandPkt : UInt8 := 0x01
def llAdvConnInd : UInt8 := 0x00

/-- The system calls. A message that is none of the variants of `RecvEnum` is `none`. -/
inductive Op where
  | send (bytes : List UInt8)
  | recv
  | reply (tid : ℤ)
  | waitTicks (ticks : ℕ)
  | exit

/-- What a call returns; for `ker_send` and `ker_reply` whether it succeeded. -/
@[reducible]
def Op.Response : Op → Type
  | .send _ => Bool
  | .recv => ℤ × Option HciMsg
  | .reply _ => Bool
  | .waitTicks _ => Unit
  | .exit => Empty

abbrev Program := Prog Op Op.Response

/-! ### The calls -/

/-- The panic handler. -/
def panic {α : Type} : Program α :=
  .op .exit Empty.elim

def unwrap {α : Type} : Option α → Program α
  | some a => .pure a
  | none => panic

/-- The bytes of a command. -/
def command (opcode : ℕ) (data : List UInt8) : List UInt8 :=
  [hciCommandPkt, UInt8.ofNat (opcode &&& 0xff), UInt8.ofNat ((opcode &&& 0xff00) >>> 8),
    UInt8.ofNat data.length] ++ data

/-- `Commander::cmd`. -/
def cmd (b : Build) (box : SendBox) (opcode : ℕ) (data : List UInt8) : Program SendBox := do
  let box ← unwrap (newArrayMsg b rpiUartTxBlockingReq box (command opcode data))
  let ok ← Prog.perform (Op.send (command opcode data))
  if ok then
    pure box
  else
    panic

/-- A message is received and answered. -/
def receive (box : SendBox) : Program (SendBox × Option HciMsg) := do
  let r ← Prog.perform Op.recv
  let box ← unwrap (newMsg hciReply box [])
  let ok ← Prog.perform (Op.reply r.1)
  if ok then
    pure (box, r.2)
  else
    panic

/-- `Commander::wait_command_complete`; the return parameters that are copied. -/
def waitCommandComplete (box : SendBox) (opcode len : ℕ) : Program (SendBox × List UInt8) := do
  let r ← receive box
  match r.2 with
  | some (.hciCommandComplete numHciCommandPackets commandOpcode returnParam) =>
      if len ≤ returnParam.length ∧ commandOpcode = opcode ∧ numHciCommandPackets ≠ 0 then
        pure (r.1, returnParam.take len)
      else
        panic
  | _ => panic

/-- `Commander::wait_connection_complete`. -/
def waitConnectionComplete (box : SendBox) : Program (SendBox × HciLeConnectionComplete) := do
  let r ← receive box
  match r.2 with
  | some (.hciLeConnectionComplete event) => pure (r.1, event)
  | _ => panic

/-- `cmd` and `wait_command_complete`, which always stand together. -/
def exchange (b : Build) (box : SendBox) (opcode : ℕ) (data : List UInt8) (len : ℕ) :
    Program (SendBox × List UInt8) := do
  let box ← cmd b box opcode data
  waitCommandComplete box opcode len

/-- A command whose return parameters are not read. -/
def complete (b : Build) (opcode : ℕ) (data : List UInt8) (box : SendBox) : Program SendBox := do
  let r ← exchange b box opcode data 0
  pure r.1

/-! ### The commands -/

/-- `Commander::set_le_advert_enable`. -/
def setLeAdvertEnable (b : Build) (state : UInt8) : SendBox → Program SendBox :=
  complete b (ogfLeControl <<< 10 ||| 0x0a) [state]

/-- The name `Balance-car`, a service, and padding. -/
def advertData : List UInt8 :=
  [0x11, 0x0c, 0x09, 0x42, 0x61, 0x6c, 0x61, 0x6e, 0x63, 0x65, 0x2d, 0x63, 0x61, 0x72,
    0x03, 0x03, 0xbc, 0xbc] ++ List.replicate 14 0

/-- `Commander::set_le_advert_data`. -/
def setLeAdvertData (b : Build) : SendBox → Program SendBox :=
  complete b (ogfLeControl <<< 10 ||| 0x08) advertData

def advertParams (advertType : UInt8) (intervalMin intervalMax : ℕ)
    (ownAddressType filterPolicy : UInt8) : List UInt8 :=
  [UInt8.ofNat (intervalMin &&& 0xff), UInt8.ofNat (intervalMin >>> 8),
    UInt8.ofNat (intervalMax &&& 0xff), UInt8.ofNat (intervalMax >>> 8), advertType,
    ownAddressType] ++ List.replicate 7 0 ++ [0x07, filterPolicy]

/-- `Commander::set_le_advert_params`. -/
def setLeAdvertParams (b : Build) (advertType : UInt8) (intervalMin intervalMax : ℕ)
    (ownAddressType filterPolicy : UInt8) : SendBox → Program SendBox :=
  complete b (ogfLeControl <<< 10 ||| 0x06)
    (advertParams advertType intervalMin intervalMax ownAddressType filterPolicy)

/-- `Commander::set_le_eventmask`. -/
def setLeEventmask (b : Build) (mask : UInt8) : SendBox → Program SendBox :=
  complete b (ogfLeControl <<< 10 ||| 0x01) (mask :: List.replicate 7 0)

/-- `Commander::set_baud`. -/
def setBaud (b : Build) : SendBox → Program SendBox :=
  complete b (ogfVendor <<< 10 ||| commandSetBaud) [0, 0, 0x00, 0xc2, 0x01, 0x00]

/-- `Commander::set_addr`. -/
def setAddr (b : Build) : SendBox → Program SendBox :=
  complete b (ogfVendor <<< 10 ||| commandSetBdaddr) [0xca, 0xca, 0xca, 0xca, 0xca, 0xca]

/-- `Commander::get_addr`. -/
def getAddr (b : Build) (box : SendBox) : Program (SendBox × List UInt8) := do
  let r ← exchange b box 0x1009 [] 7
  pure (r.1, r.2.drop 1)

/-- `Commander::set_user_friendly_name`: at most 63 bytes of the name, and a zero. -/
def setUserFriendlyName (b : Build) (name : List UInt8) : SendBox → Program SendBox :=
  complete b (ogfHostControl <<< 10 ||| 0x13) (name.take 63 ++ [0])

/-- `Commander::start_active_advertising`. -/
def startActiveAdvertising (b : Build) (box : SendBox) : Program SendBox := do
  let box ← setLeAdvertParams b llAdvConnInd (100 * 1000 / 625) (100 * 1000 / 625) 0 0 box
  let box ← setLeAdvertData b box
  setLeAdvertEnable b 1 box

/-- `Commander::stop_active_advertising`. -/
def stopActiveAdvertising (b : Build) : SendBox → Program SendBox :=
  setLeAdvertEnable b 0

/-! ### The firmware -/

/-- The opcode and the data of the command at `idx`; an index outside the slice panics. -/
def commandAt (firmware : List UInt8) (idx : ℕ) : Option (ℕ × List UInt8) := do
  let opcodeLo ← firmware[idx]?
  let opcodeHi ← firmware[idx + 1]?
  let dataLen ← firmware[idx + 2]?
  let data ← slice firmware (idx + 3) (idx + 3 + dataLen.toNat)
  some (opcodeHi.toNat <<< 8 ||| opcodeLo.toNat, data)

/-- The loop over `FIRMWARE`, which runs at most once for each of its bytes. -/
def loadLoop (b : Build) (firmware : List UInt8) : ℕ → ℕ → SendBox → Program SendBox
  | 0, _, _ => panic
  | fuel + 1, idx, box =>
      if idx < firmware.length then do
        let r ← unwrap (commandAt firmware idx)
        let box ← complete b r.1 r.2 box
        loadLoop b firmware fuel (idx + (3 + r.2.length)) box
      else
        pure box

def loadFirmware (b : Build) (firmware : List UInt8) : SendBox → Program SendBox :=
  loadLoop b firmware (firmware.length + 1) 0

/-! ### The task -/

/-- `balance_car`. -/
def friendlyName : List UInt8 :=
  [0x62, 0x61, 0x6c, 0x61, 0x6e, 0x63, 0x65, 0x5f, 0x63, 0x61, 0x72]

/-- `_start` up to the first connection. -/
def setUp (b : Build) (firmware : List UInt8) (box : SendBox) : Program SendBox := do
  let box ← complete b (ogfHostControl <<< 10 ||| commandResetChip) [] box
  let box ← complete b (ogfVendor <<< 10 ||| commandLoadFirmware) [] box
  let box ← loadFirmware b firmware box
  Prog.perform (Op.waitTicks 200)
  let box ← setBaud b box
  let box ← setAddr b box
  let r ← getAddr b box
  let box ← setLeEventmask b 0xff r.1
  let box ← setUserFriendlyName b friendlyName box
  startActiveAdvertising b box

/-- The loop waits for a connection, and does not advertise while there is one. -/
def connect (b : Build) (box : SendBox) : Program SendBox := do
  let r ← waitConnectionComplete box
  stopActiveAdvertising b r.1

/-- The loop of `_start`, which has a box of its own. -/
def round (b : Build) (boxes : SendBox × SendBox) : Program (SendBox × SendBox) := do
  let r ← receive boxes.2
  match r.2 with
  | some (.hciDisconnectionComplete _) => do
      let box ← startActiveAdvertising b boxes.1
      let box ← connect b box
      pure (box, r.1)
  | _ => pure (boxes.1, r.1)

def rounds (b : Build) : ℕ → SendBox × SendBox → Program (SendBox × SendBox)
  | 0, boxes => pure boxes
  | n + 1, boxes => do
      let boxes ← round b boxes
      rounds b n boxes

/-- `_start` with the first `n` rounds of its loop. -/
def start (b : Build) (firmware : List UInt8) (n : ℕ) : Program (SendBox × SendBox) := do
  let box ← setUp b firmware .new
  let box ← connect b box
  rounds b n (box, .new)

/-! ### One command at a time -/

/-- What is open in a run: the opcode of a command that the controller has not completed yet,
and the sender of a message that has not been answered yet. -/
structure Session where
  outstanding : Option ℕ
  unreplied : Option ℤ
deriving DecidableEq

def Session.idle : Session :=
  ⟨none, none⟩

/-- A command is open until the controller completes it and takes another one. -/
def Session.afterMsg (outstanding : Option ℕ) : Option HciMsg → Option ℕ
  | some (.hciCommandComplete numHciCommandPackets commandOpcode _) =>
      if outstanding = some commandOpcode ∧ numHciCommandPackets ≠ 0 then
        none
      else
        outstanding
  | _ => outstanding

/-- Nothing is sent while something is open, and only the last message is answered, before the
next one is received. -/
def Session.step (s : Session) : (Σ e : Op, e.Response) → Option Session
  | ⟨.send bytes, _⟩ =>
      if s = idle then
        (wordAt bytes 1).map fun opcode => ⟨some opcode, none⟩
      else
        none
  | ⟨.recv, r⟩ =>
      if s.unreplied = none then
        some ⟨afterMsg s.outstanding r.2, some r.1⟩
      else
        none
  | ⟨.reply tid, _⟩ =>
      if s.unreplied = some tid then
        some ⟨s.outstanding, none⟩
      else
        none
  | ⟨.waitTicks _, _⟩ =>
      if s = idle then
        some s
      else
        none
  | ⟨.exit, _⟩ => some s

section Obeys

variable {α β : Type} {post : α → Session → Prop} {s : Session} {b : Build} {opcode : ℕ}

abbrev Obeys (post : α → Session → Prop) (x : Program α) (s : Session) : Prop :=
  Prog.Obeys Session.step post x s

theorem obeys_bind {post : β → Session → Prop} {x : Program α} {f : α → Program β}
    (h : Obeys (fun a => Obeys post (f a)) x s) :
  Obeys post (x >>= f) s
  := Prog.Obeys.bind h

theorem obeys_perform {e : Op} {f : e.Response → Program α}
    (h : ∀ r, ∃ s', s.step ⟨e, r⟩ = some s' ∧ Obeys post (f r) s') :
  Obeys post (Prog.perform e >>= f) s
  := Prog.Obeys.op h

theorem obeys_panic :
  Obeys post panic s
  := Prog.Obeys.op fun r => r.elim

theorem obeys_unwrap {x : Option α} (h : ∀ a, x = some a → post a s) :
  Obeys post (unwrap x) s
  := by
  cases x with
  | none => exact obeys_panic
  | some a => exact Prog.Obeys.pure (h a rfl)

/-- The bytes of a command tell its opcode. -/
theorem wordAt_command (h : opcode < 2 ^ 16) (data : List UInt8) :
  wordAt (command opcode data) 1 = some opcode
  := by
  have hlow : opcode &&& 0xff = opcode % 256 := Nat.and_two_pow_sub_one_eq_mod opcode 8
  have hhigh : (opcode &&& 0xff00) >>> 8 = opcode / 256 := by
    rw [Nat.shiftRight_and_distrib, Nat.shiftRight_eq_div_pow]
    apply (Nat.and_two_pow_sub_one_eq_mod _ 8).trans
    omega
  have hword : wordAt (command opcode data) 1 = some
      ((UInt8.ofNat ((opcode &&& 0xff00) >>> 8)).toNat * 256
        + (UInt8.ofNat (opcode &&& 0xff)).toNat) := rfl
  rw [hword, hlow, hhigh, UInt8.toNat_ofNat', UInt8.toNat_ofNat']
  congr 1
  omega

theorem afterMsg_none (msg : Option HciMsg) :
  Session.afterMsg none msg = none
  := by
  unfold Session.afterMsg
  split
  · exact if_neg fun h => nomatch h.1
  · rfl

theorem receive_obeys (box : SendBox) (h : s.unreplied = none) :
  Obeys (fun r s' => s' = ⟨Session.afterMsg s.outstanding r.2, none⟩) (receive box) s
  := by
  rw [receive]
  apply obeys_perform
  intro r
  refine ⟨_, if_pos h, ?_⟩
  apply obeys_bind
  apply obeys_unwrap
  intro box' _
  apply obeys_perform
  intro ok
  refine ⟨_, if_pos rfl, ?_⟩
  cases ok with
  | false => exact obeys_panic
  | true => exact Prog.Obeys.pure rfl

theorem cmd_obeys (box : SendBox) (hopcode : opcode < 2 ^ 16) (data : List UInt8) :
  Obeys (fun _ s => s = ⟨some opcode, none⟩) (cmd b box opcode data) .idle
  := by
  rw [cmd]
  apply obeys_bind
  apply obeys_unwrap
  intro box' _
  apply obeys_perform
  intro ok
  refine ⟨⟨some opcode, none⟩, ?_, ?_⟩
  · change ((wordAt (command opcode data) 1).map fun opcode => (⟨some opcode, none⟩ : Session)) = _
    rw [wordAt_command hopcode]
    rfl
  · cases ok with
    | false => exact obeys_panic
    | true => exact Prog.Obeys.pure rfl

theorem waitCommandComplete_obeys (box : SendBox) (len : ℕ) :
  Obeys (fun _ s => s = .idle) (waitCommandComplete box opcode len) ⟨some opcode, none⟩
  := by
  rw [waitCommandComplete]
  apply obeys_bind
  apply (receive_obeys box rfl).mono
  rintro ⟨box', msg⟩ s rfl
  cases msg with
  | none => exact obeys_panic
  | some msg =>
    cases msg with
    | hciCommandComplete num commandOpcode param =>
      by_cases hok : len ≤ param.length ∧ commandOpcode = opcode ∧ num ≠ 0
      · have hdone : Session.afterMsg (some opcode)
            (some (.hciCommandComplete num commandOpcode param)) = none :=
          if_pos ⟨congrArg some hok.2.1.symm, hok.2.2⟩
        change Obeys _ (if _ then _ else _) ⟨Session.afterMsg (some opcode) _, none⟩
        rw [hdone, if_pos hok]
        exact Prog.Obeys.pure rfl
      · change Obeys _ (if _ then _ else _) _
        rw [if_neg hok]
        exact obeys_panic
    | _ => exact obeys_panic

/-- The program begins and ends with nothing open. -/
def Idle (x : Program α) : Prop :=
  Obeys (fun _ s => s = .idle) x .idle

theorem Idle.pure (a : α) :
  Idle (Prog.pure a : Program α)
  := Prog.Obeys.pure rfl

theorem Idle.bind {x : Program α} {f : α → Program β} (h : Idle x) (hf : ∀ a, Idle (f a)) :
  Idle (x >>= f)
  := by
  apply obeys_bind
  apply Prog.Obeys.mono h
  rintro a s rfl
  exact hf a

theorem exchange_idle (box : SendBox) (hopcode : opcode < 2 ^ 16) (data : List UInt8) (len : ℕ) :
  Idle (exchange b box opcode data len)
  := by
  rw [Idle, exchange]
  apply obeys_bind
  apply (cmd_obeys box hopcode data).mono
  rintro box' s rfl
  exact waitCommandComplete_obeys box' len

theorem complete_idle (hopcode : opcode < 2 ^ 16) (data : List UInt8) (box : SendBox) :
  Idle (complete b opcode data box)
  := by
  rw [complete]
  exact (exchange_idle box hopcode data 0).bind fun r => .pure r.1

theorem commandAt_lt {firmware : List UInt8} {idx : ℕ} {r : ℕ × List UInt8}
    (h : commandAt firmware idx = some r) :
  r.1 < 2 ^ 16
  := by
  simp only [commandAt, Option.bind_eq_bind, Option.bind_eq_some_iff, Option.some.injEq] at h
  obtain ⟨low, -, high, -, len, -, data, -, rfl⟩ := h
  have hlow := low.toNat_lt
  have hhigh := high.toNat_lt
  apply Nat.or_lt_two_pow
  · rw [Nat.shiftLeft_eq]
    omega
  · omega

theorem loadLoop_idle (firmware : List UInt8) (fuel idx : ℕ) (box : SendBox) :
  Idle (loadLoop b firmware fuel idx box)
  := by
  induction fuel generalizing idx box with
  | zero => exact obeys_panic
  | succ fuel ih =>
    rw [loadLoop]
    split_ifs
    · apply obeys_bind
      apply obeys_unwrap
      intro r hr
      exact (complete_idle (commandAt_lt hr) r.2 box).bind fun box => ih _ box
    · exact .pure box

theorem setLeAdvertEnable_idle (state : UInt8) (box : SendBox) :
  Idle (setLeAdvertEnable b state box)
  := complete_idle (by decide) _ box

theorem startActiveAdvertising_idle (box : SendBox) :
  Idle (startActiveAdvertising b box)
  := by
  have hparams : ∀ box, Idle (setLeAdvertParams b llAdvConnInd (100 * 1000 / 625)
      (100 * 1000 / 625) 0 0 box) := complete_idle (by decide) _
  have hdata : ∀ box, Idle (setLeAdvertData b box) := complete_idle (by decide) _
  rw [startActiveAdvertising]
  exact (hparams box).bind fun box => (hdata box).bind fun box => setLeAdvertEnable_idle 1 box

theorem setUp_idle (firmware : List UInt8) (box : SendBox) :
  Idle (setUp b firmware box)
  := by
  have hbaud : ∀ box, Idle (setBaud b box) := complete_idle (by decide) _
  have haddr : ∀ box, Idle (setAddr b box) := complete_idle (by decide) _
  have hget : ∀ box, Idle (getAddr b box) := by
    intro box
    rw [getAddr]
    exact (exchange_idle box (by decide) _ 7).bind fun r => .pure _
  have hmask : ∀ box, Idle (setLeEventmask b 0xff box) := complete_idle (by decide) _
  have hname : ∀ box, Idle (setUserFriendlyName b friendlyName box) := complete_idle (by decide) _
  have hafter : ∀ box, Idle (do
      let box ← setBaud b box
      let box ← setAddr b box
      let r ← getAddr b box
      let box ← setLeEventmask b 0xff r.1
      let box ← setUserFriendlyName b friendlyName box
      startActiveAdvertising b box) :=
    fun box => (hbaud box).bind fun box => (haddr box).bind fun box => (hget box).bind fun r =>
      (hmask r.1).bind fun box => (hname box).bind startActiveAdvertising_idle
  rw [setUp]
  apply (complete_idle (by decide) [] box).bind
  intro box
  apply (complete_idle (by decide) [] box).bind
  intro box
  apply (loadLoop_idle firmware _ _ box).bind
  intro box
  rw [Idle]
  exact obeys_perform fun _ => ⟨.idle, rfl, hafter box⟩

theorem connect_idle (box : SendBox) :
  Idle (connect b box)
  := by
  rw [connect]
  apply Idle.bind
  · rw [Idle, waitConnectionComplete]
    apply obeys_bind
    apply (receive_obeys box rfl).mono
    rintro ⟨box', msg⟩ s rfl
    rw [show (Session.idle).outstanding = none from rfl, afterMsg_none]
    cases msg with
    | none => exact obeys_panic
    | some msg =>
      cases msg with
      | hciLeConnectionComplete event => exact Prog.Obeys.pure rfl
      | _ => exact obeys_panic
  · exact fun r => setLeAdvertEnable_idle 0 r.1

theorem round_idle (boxes : SendBox × SendBox) :
  Idle (round b boxes)
  := by
  rw [Idle, round]
  apply obeys_bind
  apply (receive_obeys boxes.2 rfl).mono
  rintro ⟨box', msg⟩ s rfl
  rw [show (Session.idle).outstanding = none from rfl, afterMsg_none]
  cases msg with
  | none => exact Prog.Obeys.pure rfl
  | some msg =>
    cases msg with
    | hciDisconnectionComplete reason =>
      apply (startActiveAdvertising_idle boxes.1).bind
      exact fun box => (connect_idle box).bind fun box => .pure _
    | _ => exact Prog.Obeys.pure rfl

theorem rounds_idle (n : ℕ) (boxes : SendBox × SendBox) :
  Idle (rounds b n boxes)
  := by
  induction n generalizing boxes with
  | zero => exact .pure boxes
  | succ n ih =>
    rw [rounds]
    exact (round_idle boxes).bind ih

end Obeys

/-- Whatever messages come, and from whom: the commander sends a command only when the
controller has completed the one before and takes another one, and it answers every message,
its sender only, before it does anything else. -/
theorem start_inOrder (b : Build) (firmware : List UInt8) (n : ℕ)
    {t : List (Σ e : Op, e.Response)} {x : Program (SendBox × SendBox)}
    (h : Prog.Trace (start b firmware n) t x) :
  ∃ s, t.foldlM Session.step .idle = some s
  := by
  have hidle : Idle (start b firmware n) := by
    rw [start]
    apply (setUp_idle firmware .new).bind
    exact fun box => (connect_idle box).bind fun box => rounds_idle n _
  obtain ⟨s, hs, -⟩ := Prog.Obeys.trace hidle h
  exact ⟨s, hs⟩

/-- A command fits into the box. -/
theorem newArrayMsg_command (b : Build) (box : SendBox) (opcode : ℕ) {data : List UInt8}
    (hdata : data.length < 256) :
  ∃ box', newArrayMsg b rpiUartTxBlockingReq box (command opcode data) = some box'
  := by
  have hbase : (arrayMsg "RpiUartTxBlockingReq").base ≤ defaultBoxSize := by decide
  have hcapacity : 260 ≤ arrayCapacity (arrayMsg "RpiUartTxBlockingReq") := by decide
  have hfits : (command opcode data).length ≤ arrayCapacity (arrayMsg "RpiUartTxBlockingReq") := by
    rw [command, List.length_append, show ([_, _, _, _] : List UInt8).length = 4 from rfl]
    omega
  exact newArrayMsg_eq b "RpiUartTxBlockingReq" box hbase hfits

/-- A command is sent. -/
def sending (opcode : ℕ) (data : List UInt8) : List (Σ e : Op, e.Response) :=
  [⟨.send (command opcode data), true⟩]

/-- A message of `tid` says that the command is completed. -/
def completing (tid : ℤ) (num : UInt8) (opcode : ℕ) (param : List UInt8) :
    List (Σ e : Op, e.Response) :=
  [⟨.recv, (tid, some (.hciCommandComplete num opcode param))⟩, ⟨.reply tid, true⟩]

theorem cmd_trace (b : Build) (box : SendBox) (opcode : ℕ) {data : List UInt8}
    (hdata : data.length < 256) :
  ∃ box', Prog.Trace (cmd b box opcode data) (sending opcode data) (.pure box')
  := by
  obtain ⟨box', hbox⟩ := newArrayMsg_command b box opcode hdata
  use box'
  rw [cmd, hbox]
  exact .cons _ (.nil _)

theorem complete_trace (b : Build) (box : SendBox) (opcode : ℕ) {data : List UInt8}
    (hdata : data.length < 256) (tid : ℤ) {num : UInt8} (hnum : num ≠ 0) (param : List UInt8) :
  ∃ box', Prog.Trace (complete b opcode data box)
    (sending opcode data ++ completing tid num opcode param) (.pure box')
  := by
  obtain ⟨box₁, hcmd⟩ := cmd_trace b box opcode hdata
  have hbase : hciReply.base ≤ defaultBoxSize := by decide
  obtain ⟨box₂, hbox⟩ := newMsg_eq hbase box₁ []
  have hreceive : Prog.Trace (receive box₁) (completing tid num opcode param)
      (.pure (box₂, some (.hciCommandComplete num opcode param))) := by
    refine .cons _ ?_
    rw [hbox]
    exact .cons _ (.nil _)
  have hcondition : 0 ≤ param.length ∧ opcode = opcode ∧ num ≠ 0 := ⟨Nat.zero_le _, rfl, hnum⟩
  have hwait : Prog.Trace (waitCommandComplete box₁ opcode 0) (completing tid num opcode param)
      (if _ then _ else _) :=
    hreceive.bind _
  rw [if_pos hcondition] at hwait
  have hexchange : Prog.Trace (exchange b box opcode data 0) (_ ++ _) _ :=
    (hcmd.bind fun box => waitCommandComplete box opcode 0).trans hwait
  exact ⟨box₂, hexchange.bind _⟩

/-- The reset of the chip, which the reader, task 3, says is completed, and the next command. -/
def resetAndNext : List (Σ e : Op, e.Response) :=
  sending (ogfHostControl <<< 10 ||| commandResetChip) [] ++
    completing 3 1 (ogfHostControl <<< 10 ||| commandResetChip) [0] ++
    sending (ogfVendor <<< 10 ||| commandLoadFirmware) []

theorem start_inOrder_resetAndNext :
  ∃ x, Prog.Trace (start ⟨.wrapping, fun _ => [], []⟩ [] 0) resetAndNext x
    ∧ ∃ s, resetAndNext.foldlM Session.step .idle = some s
      ∧ s.outstanding = some (ogfVendor <<< 10 ||| commandLoadFirmware)
  := by
  have hempty : ([] : List UInt8).length < 256 := by decide
  obtain ⟨box₁, hreset⟩ := complete_trace ⟨.wrapping, fun _ => [], []⟩ .new
    (ogfHostControl <<< 10 ||| commandResetChip) hempty 3 (show (1 : UInt8) ≠ 0 by decide) [0]
  obtain ⟨box₂, hload⟩ := cmd_trace ⟨.wrapping, fun _ => [], []⟩ box₁
    (ogfVendor <<< 10 ||| commandLoadFirmware) hempty
  have hsetUp : Prog.Trace (setUp ⟨.wrapping, fun _ => [], []⟩ [] .new) resetAndNext _ :=
    (hreset.bind _).trans (((hload.bind _).bind _).bind _)
  have htrace : Prog.Trace (start ⟨.wrapping, fun _ => [], []⟩ [] 0) resetAndNext _ :=
    hsetUp.bind _
  refine ⟨_, htrace, ?_⟩
  obtain ⟨s, hs⟩ := start_inOrder _ _ _ htrace
  refine ⟨s, hs, ?_⟩
  have hend : resetAndNext.foldlM Session.step .idle
      = some ⟨some (ogfVendor <<< 10 ||| commandLoadFirmware), none⟩ := by
    decide
  rw [Option.some.inj (hs.symm.trans hend)]

/-! ### The firmware -/

/-- A command in the file of the firmware. -/
structure Record where
  opcodeLo : UInt8
  opcodeHi : UInt8
  data : List UInt8
  data_length : data.length < 256

namespace Record

def bytes (r : Record) : List UInt8 :=
  r.opcodeLo :: r.opcodeHi :: UInt8.ofNat r.data.length :: r.data

def opcode (r : Record) : ℕ :=
  r.opcodeHi.toNat <<< 8 ||| r.opcodeLo.toNat

def command (r : Record) : List UInt8 :=
  Commander.command r.opcode r.data

end Record

section Handler

variable {τ : Type} {h : (e : Op) → τ → Option (e.Response × τ)} {sentOf : τ → List (List UInt8)}
  {b : Build} {firmware : List UInt8} {opcode idx : ℕ} {data : List UInt8} {s : τ}

/-- Every command is completed, so that the next one may be sent; `sentOf` are the commands that
have been sent. -/
structure Completes (h : (e : Op) → τ → Option (e.Response × τ))
    (sentOf : τ → List (List UInt8)) : Prop where
  exchange : ∀ s opcode (data : List UInt8), opcode < 2 ^ 16 → data.length < 256 →
    ∃ tid num param s₁ s₂ s₃, h (.send (command opcode data)) s = some (true, s₁)
      ∧ h .recv s₁ = some ((tid, some (.hciCommandComplete num opcode param)), s₂)
      ∧ h (.reply tid) s₂ = some (true, s₃) ∧ num ≠ 0
      ∧ (command opcode data = command 0x1009 [] → 7 ≤ param.length)
      ∧ sentOf s₃ = sentOf s ++ [command opcode data]
  wait : ∀ s ticks, ∃ s', h (.waitTicks ticks) s = some ((), s') ∧ sentOf s' = sentOf s

theorem exec_bind {α β : Type} (x : Program α) (f : α → Program β) (s : τ) :
  (x >>= f).exec h s = (x.exec h s).bind fun r => (f r.1).exec h r.2
  := x.exec_bind _ f s

theorem exec_then {α β : Type} {x : Program α} {a : α} {s' : τ} (hx : x.exec h s = some (a, s'))
    (f : α → Program β) :
  (x >>= f).exec h s = (f a).exec h s'
  := by
  rw [exec_bind, hx]
  rfl

theorem exec_perform {α : Type} {e : Op} {r : e.Response} {s' : τ} (he : h e s = some (r, s'))
    (f : e.Response → Program α) :
  (Prog.perform e >>= f).exec h s = (f r).exec h s'
  := by
  rw [exec_bind, Prog.perform, Prog.exec, he]
  rfl

theorem exec_unwrap {α β : Type} {x : Option α} {a : α} (hx : x = some a) (f : α → Program β) :
  (unwrap x >>= f).exec h s = (f a).exec h s
  := by
  rw [hx]
  rfl

theorem exec_panic {α : Type} :
  (panic : Program α).exec h s = none
  := by
  cases he : h .exit s with
  | none => rw [panic, Prog.exec, he, Option.bind_none]
  | some r => exact r.1.elim

theorem exec_exchange (hc : Completes h sentOf) (b : Build) (s : τ) (box : SendBox)
    (hopcode : opcode < 2 ^ 16) (hdata : data.length < 256) {len : ℕ}
    (hlen : len = 0 ∨ len = 7 ∧ command opcode data = command 0x1009 []) :
  ∃ r s', (exchange b box opcode data len).exec h s = some (r, s')
    ∧ sentOf s' = sentOf s ++ [command opcode data]
  := by
  obtain ⟨tid, num, param, s₁, s₂, s₃, hsend, hrecv, hreply, hnum, hparam, hsent⟩ :=
    hc.exchange s opcode data hopcode hdata
  obtain ⟨box₁, hbox₁⟩ := newArrayMsg_command b box opcode hdata
  have hcmd : (cmd b box opcode data).exec h s = some (box₁, s₁) := by
    rw [cmd, exec_unwrap hbox₁, exec_perform hsend]
    rfl
  have hreplyBase : hciReply.base ≤ defaultBoxSize := by decide
  obtain ⟨box₂, hbox₂⟩ := newMsg_eq hreplyBase box₁ []
  have hreceive : (receive box₁).exec h s₁
      = some ((box₂, some (.hciCommandComplete num opcode param)), s₃) := by
    rw [receive, exec_perform hrecv, exec_unwrap hbox₂, exec_perform hreply]
    rfl
  have hle : len ≤ param.length := by
    obtain rfl | ⟨rfl, hget⟩ := hlen
    · exact Nat.zero_le _
    · exact hparam hget
  refine ⟨(box₂, param.take len), s₃, ?_, hsent⟩
  rw [exchange, exec_then hcmd, waitCommandComplete, exec_then hreceive]
  change Prog.exec _ (if _ then _ else _) _ = _
  rw [if_pos ⟨hle, rfl, hnum⟩]
  rfl

/-- A part of the task that sends these commands, and returns. -/
def Sends (h : (e : Op) → τ → Option (e.Response × τ)) (sentOf : τ → List (List UInt8))
    (f : SendBox → Program SendBox) (commands : List (List UInt8)) : Prop :=
  ∀ box s, ∃ box' s', (f box).exec h s = some (box', s') ∧ sentOf s' = sentOf s ++ commands

theorem Sends.bind {f g : SendBox → Program SendBox} {xs ys : List (List UInt8)}
    (hf : Sends h sentOf f xs) (hg : Sends h sentOf g ys) :
  Sends h sentOf (fun box => f box >>= g) (xs ++ ys)
  := by
  intro box s
  obtain ⟨box₁, s₁, h₁, hs₁⟩ := hf box s
  obtain ⟨box₂, s₂, h₂, hs₂⟩ := hg box₁ s₁
  refine ⟨box₂, s₂, ?_, ?_⟩
  · rw [exec_then h₁, h₂]
  · rw [hs₂, hs₁, List.append_assoc]

theorem Completes.sends (hc : Completes h sentOf) (hopcode : opcode < 2 ^ 16)
    (hdata : data.length < 256) :
  Sends h sentOf (complete b opcode data) [command opcode data]
  := by
  intro box s
  obtain ⟨r, s', hr, hsent⟩ := exec_exchange hc b s box hopcode hdata (Or.inl rfl)
  refine ⟨r.1, s', ?_, hsent⟩
  rw [complete, exec_then hr]
  rfl

/-! #### The commands in the file -/

theorem drop_of_getElem? {l : List UInt8} {i : ℕ} {a : UInt8} (h : l[i]? = some a) :
  l.drop i = a :: l.drop (i + 1)
  := by
  obtain ⟨hi, rfl⟩ := List.getElem?_eq_some_iff.mp h
  exact List.drop_eq_getElem_cons hi

/-- The commander reads a command where the file has one, and panics elsewhere. -/
theorem commandAt_eq_some {r : ℕ × List UInt8} :
  commandAt firmware idx = some r ↔ ∃ (record : Record) (rest : List UInt8),
    firmware.drop idx = record.bytes ++ rest ∧ r = (record.opcode, record.data)
  := by
  constructor
  · intro h
    simp only [commandAt, Option.bind_eq_bind, Option.bind_eq_some_iff, Option.some.injEq] at h
    obtain ⟨low, hlow, high, hhigh, len, hlen, data, hslice, rfl⟩ := h
    rw [slice] at hslice
    split_ifs at hslice with hle
    have hdata : (firmware.drop (idx + 3)).take len.toNat = data := by
      rw [← Option.some.inj hslice, List.drop_take, Nat.add_sub_cancel_left]
    have hlength : data.length = len.toNat := by
      rw [← hdata, List.length_take, List.length_drop]
      omega
    have hlt : data.length < 256 := hlength ▸ len.toNat_lt
    refine ⟨⟨low, high, data, hlt⟩, (firmware.drop (idx + 3)).drop len.toNat, ?_, rfl⟩
    have hrest : firmware.drop (idx + 3) = data ++ (firmware.drop (idx + 3)).drop len.toNat := by
      rw [← hdata, List.take_append_drop]
    have hbytes : Record.bytes ⟨low, high, data, hlt⟩ = low :: high :: len :: data := by
      rw [Record.bytes, hlength, UInt8.ofNat_toNat]
    rw [drop_of_getElem? hlow, drop_of_getElem? hhigh, drop_of_getElem? hlen, hbytes]
    exact congrArg (fun l => low :: high :: len :: l) hrest
  · rintro ⟨record, rest, hdrop, rfl⟩
    have hget : ∀ i, firmware[idx + i]? = (record.bytes ++ rest)[i]? := by
      intro i
      rw [← hdrop, List.getElem?_drop]
    have hlow : firmware[idx]? = some record.opcodeLo := hget 0
    have hhigh : firmware[idx + 1]? = some record.opcodeHi := hget 1
    have hlen : firmware[idx + 2]? = some (UInt8.ofNat record.data.length) := hget 2
    have hnat : (UInt8.ofNat record.data.length).toNat = record.data.length := by
      rw [UInt8.toNat_ofNat', Nat.mod_eq_of_lt record.data_length]
    have hdata : firmware.drop (idx + 3) = record.data ++ rest := by
      rw [← List.drop_drop, hdrop]
      rfl
    have hle : idx + 3 + record.data.length ≤ firmware.length := by
      have hlength := congrArg List.length hdrop
      rw [List.length_drop, List.length_append,
        show record.bytes.length = record.data.length + 3 from rfl] at hlength
      omega
    have hslice : slice firmware (idx + 3) (idx + 3 + record.data.length) = some record.data := by
      rw [slice, if_pos hle, List.drop_take, Nat.add_sub_cancel_left, hdata, List.take_left]
    simp only [commandAt, hlow, hhigh, hlen, hnat, hslice, Option.bind_eq_bind, Option.bind_some,
      Record.opcode]

theorem records_eq_nil {records : List Record} (h : records.flatMap Record.bytes = []) :
  records = []
  := by
  cases records with
  | nil => rfl
  | cons r records =>
    rw [List.flatMap_cons] at h
    exact absurd (List.append_eq_nil_iff.mp h).1 (List.cons_ne_nil _ _)

theorem drop_bytes {record : Record} {rest : List UInt8}
    (h : firmware.drop idx = record.bytes ++ rest) :
  firmware.drop (idx + (3 + record.data.length)) = rest
  := by
  have hlength : record.bytes.length = 3 + record.data.length := by
    rw [Nat.add_comm]
    rfl
  rw [← List.drop_drop, h, ← hlength, List.drop_left]

/-- From `idx` on the loop sends the commands that the file lists there; it returns only if the
rest of the file is a list of commands. -/
theorem exec_loadLoop (hc : Completes h sentOf) {fuel : ℕ} {box : SendBox}
    (hfuel : firmware.length < fuel + idx) (hidx : idx ≤ firmware.length)
    {sent : List (List UInt8)} :
  (∃ box' s', (loadLoop b firmware fuel idx box).exec h s = some (box', s') ∧ sentOf s' = sent)
    ↔ ∃ records : List Record, firmware.drop idx = records.flatMap Record.bytes
      ∧ sent = sentOf s ++ records.map Record.command
  := by
  induction fuel generalizing idx box s with
  | zero => omega
  | succ fuel ih =>
    rw [loadLoop]
    by_cases hlt : idx < firmware.length
    · rw [if_pos hlt]
      -- The first of the commands, if the rest of the file is a list of them.
      have hfirst : ∀ records : List Record, firmware.drop idx = records.flatMap Record.bytes →
          ∃ record rest, records = record :: rest
            ∧ commandAt firmware idx = some (record.opcode, record.data)
            ∧ firmware.drop (idx + (3 + record.data.length)) = rest.flatMap Record.bytes := by
        intro records hrecords
        cases records with
        | nil =>
          have hempty := List.drop_eq_nil_iff.mp hrecords
          omega
        | cons record rest =>
          rw [List.flatMap_cons] at hrecords
          exact ⟨record, rest, rfl, commandAt_eq_some.mpr ⟨record, _, hrecords, rfl⟩,
            drop_bytes hrecords⟩
      cases hr : commandAt firmware idx with
      | none =>
        constructor
        · rintro ⟨box', s', hexec, -⟩
          rw [unwrap, exec_bind, exec_panic] at hexec
          cases hexec
        · rintro ⟨records, hrecords, -⟩
          obtain ⟨record, rest, -, hsome, -⟩ := hfirst records hrecords
          rw [hr] at hsome
          cases hsome
      | some r =>
        obtain ⟨record, rest, hdrop, rfl⟩ := commandAt_eq_some.mp hr
        have hopcode : record.opcode < 2 ^ 16 := commandAt_lt hr
        obtain ⟨box₁, s₁, hcomplete, hsent⟩ := hc.sends (b := b) hopcode record.data_length box s
        have hend : idx + (3 + record.data.length) ≤ firmware.length := by
          have hlength := congrArg List.length hdrop
          rw [List.length_drop, List.length_append,
            show record.bytes.length = record.data.length + 3 from rfl] at hlength
          omega
        rw [exec_unwrap rfl, exec_then hcomplete, ih (by omega) hend, hsent]
        constructor
        · rintro ⟨records, hrecords, rfl⟩
          refine ⟨record :: records, ?_, ?_⟩
          · rw [List.flatMap_cons, ← hrecords, drop_bytes hdrop, hdrop]
          · rw [List.map_cons, List.append_assoc]
            rfl
        · rintro ⟨records, hrecords, rfl⟩
          obtain ⟨record', rest', rfl, hsome, hrest⟩ := hfirst records hrecords
          rw [hr, Option.some.injEq, Prod.mk.injEq] at hsome
          refine ⟨rest', hsome.2 ▸ hrest, ?_⟩
          rw [List.map_cons, List.append_assoc, hsome.1, hsome.2]
          rfl
    · rw [if_neg hlt, List.drop_eq_nil_of_le (Nat.not_lt.mp hlt)]
      constructor
      · rintro ⟨box', s', hexec, rfl⟩
        cases hexec
        exact ⟨[], rfl, (List.append_nil _).symm⟩
      · rintro ⟨records, hrecords, rfl⟩
        rw [records_eq_nil hrecords.symm]
        exact ⟨box, s, rfl, (List.append_nil _).symm⟩

/-- The commands before those of the firmware. -/
def earlierCommands : List (List UInt8) :=
  [command (ogfHostControl <<< 10 ||| commandResetChip) [],
    command (ogfVendor <<< 10 ||| commandLoadFirmware) []]

/-- The commands behind those of the firmware. -/
def laterCommands : List (List UInt8) :=
  [command (ogfVendor <<< 10 ||| commandSetBaud) [0, 0, 0x00, 0xc2, 0x01, 0x00],
    command (ogfVendor <<< 10 ||| commandSetBdaddr) [0xca, 0xca, 0xca, 0xca, 0xca, 0xca],
    command 0x1009 [],
    command (ogfLeControl <<< 10 ||| 0x01) (0xff :: List.replicate 7 0),
    command (ogfHostControl <<< 10 ||| 0x13) (friendlyName ++ [0]),
    command (ogfLeControl <<< 10 ||| 0x06) (advertParams llAdvConnInd 160 160 0 0),
    command (ogfLeControl <<< 10 ||| 0x08) advertData,
    command (ogfLeControl <<< 10 ||| 0x0a) [1]]

/-- The commands of the set-up, with these from the file of the firmware. -/
def setUpCommands (records : List Record) : List (List UInt8) :=
  earlierCommands ++ records.map Record.command ++ laterCommands

theorem Sends.getAddr (hc : Completes h sentOf) {g : SendBox → Program SendBox}
    {ys : List (List UInt8)} (hg : Sends h sentOf g ys) :
  Sends h sentOf (fun box => Commander.getAddr b box >>= fun r => g r.1) (command 0x1009 [] :: ys)
  := by
  intro box s
  obtain ⟨r, s₁, hr, hs₁⟩ := exec_exchange hc b s box (show 0x1009 < 2 ^ 16 by decide)
    (show ([] : List UInt8).length < 256 by decide) (Or.inr ⟨rfl, rfl⟩)
  have hget : (Commander.getAddr b box).exec h s = some ((r.1, r.2.drop 1), s₁) := by
    rw [Commander.getAddr, exec_then hr]
    rfl
  obtain ⟨box₂, s₂, h₂, hs₂⟩ := hg r.1 s₁
  refine ⟨box₂, s₂, ?_, ?_⟩
  · rw [exec_then hget, h₂]
  · rw [hs₂, hs₁, List.append_assoc]
    rfl

theorem startActiveAdvertising_sends (hc : Completes h sentOf) :
  Sends h sentOf (startActiveAdvertising b)
    [command (ogfLeControl <<< 10 ||| 0x06) (advertParams llAdvConnInd 160 160 0 0),
      command (ogfLeControl <<< 10 ||| 0x08) advertData,
      command (ogfLeControl <<< 10 ||| 0x0a) [1]]
  := by
  have hparams : Sends h sentOf (setLeAdvertParams b llAdvConnInd 160 160 0 0) _ :=
    hc.sends (by decide) (by decide)
  have hdata : Sends h sentOf (setLeAdvertData b) _ := hc.sends (by decide) (by decide)
  have henable : Sends h sentOf (setLeAdvertEnable b 1) _ := hc.sends (by decide) (by decide)
  exact hparams.bind (hdata.bind henable)

/-- What follows the firmware always comes to its end. -/
theorem afterFirmware_sends (hc : Completes h sentOf) (b : Build) :
  Sends h sentOf (fun box => do
      let box ← setBaud b box
      let box ← setAddr b box
      let r ← getAddr b box
      let box ← setLeEventmask b 0xff r.1
      let box ← setUserFriendlyName b friendlyName box
      startActiveAdvertising b box) laterCommands
  := by
  have hbaud : Sends h sentOf (setBaud b)
      [command (ogfVendor <<< 10 ||| commandSetBaud) [0, 0, 0x00, 0xc2, 0x01, 0x00]] :=
    hc.sends (by decide) (by decide)
  have hset : Sends h sentOf (setAddr b)
      [command (ogfVendor <<< 10 ||| commandSetBdaddr) [0xca, 0xca, 0xca, 0xca, 0xca, 0xca]] :=
    hc.sends (by decide) (by decide)
  have hmask : Sends h sentOf (setLeEventmask b 0xff)
      [command (ogfLeControl <<< 10 ||| 0x01) (0xff :: List.replicate 7 0)] :=
    hc.sends (by decide) (by decide)
  have hname : Sends h sentOf (setUserFriendlyName b friendlyName)
      [command (ogfHostControl <<< 10 ||| 0x13) (friendlyName ++ [0])] := by
    rw [setUserFriendlyName, show friendlyName.take 63 = friendlyName from rfl]
    exact hc.sends (by decide) (by decide)
  have hlast := hmask.bind (hname.bind (startActiveAdvertising_sends (b := b) hc))
  have hall := hbaud.bind (hset.bind (Sends.getAddr (b := b) hc hlast))
  exact hall

/-- The set-up, with any controller that completes every command. -/
theorem exec_setUp (hc : Completes h sentOf) (b : Build) (box : SendBox) (s : τ)
    (sent : List (List UInt8)) :
  (∃ box' s', (setUp b firmware box).exec h s = some (box', s') ∧ sentOf s' = sent)
    ↔ ∃ records : List Record, firmware = records.flatMap Record.bytes
      ∧ sent = sentOf s ++ setUpCommands records
  := by
  have hreset : Sends h sentOf (complete b (ogfHostControl <<< 10 ||| commandResetChip) []) _ :=
    hc.sends (by decide) (by decide)
  have hdownload : Sends h sentOf (complete b (ogfVendor <<< 10 ||| commandLoadFirmware) []) _ :=
    hc.sends (by decide) (by decide)
  obtain ⟨box₁, s₁, h₁, hs₁⟩ := hreset box s
  obtain ⟨box₂, s₂, h₂, hs₂⟩ := hdownload box₁ s₁
  have hearlier : sentOf s₂ = sentOf s ++ earlierCommands := by
    rw [hs₂, hs₁, List.append_assoc]
    rfl
  rw [setUp, exec_then h₁, exec_then h₂, exec_bind, loadFirmware]
  constructor
  · rintro ⟨box', s', hexec, rfl⟩
    obtain ⟨⟨box₃, s₃⟩, h₃, hrest⟩ := Option.bind_eq_some_iff.mp hexec
    obtain ⟨records, hfile, hs₃⟩ :=
      (exec_loadLoop hc (by omega) (Nat.zero_le _)).mp ⟨box₃, s₃, h₃, rfl⟩
    obtain ⟨s₄, hwait, hs₄⟩ := hc.wait s₃ 200
    obtain ⟨box₅, s₅, h₅, hs₅⟩ := afterFirmware_sends hc b box₃ s₄
    rw [exec_perform hwait] at hrest
    obtain rfl : s₅ = s' := congrArg Prod.snd (Option.some.inj (h₅.symm.trans hrest))
    refine ⟨records, hfile, ?_⟩
    rw [hs₅, hs₄, hs₃, hearlier, setUpCommands, List.append_assoc, List.append_assoc,
      List.append_assoc]
  · rintro ⟨records, hfile, rfl⟩
    have hload : ∃ box₃ s₃, (loadLoop b firmware (firmware.length + 1) 0 box₂).exec h s₂
        = some (box₃, s₃) ∧ sentOf s₃ = sentOf s₂ ++ records.map Record.command :=
      (exec_loadLoop hc (Nat.lt_succ_self firmware.length) (Nat.zero_le _)).mpr
        ⟨records, hfile, rfl⟩
    obtain ⟨box₃, s₃, h₃, hs₃⟩ := hload
    obtain ⟨s₄, hwait, hs₄⟩ := hc.wait s₃ 200
    obtain ⟨box₅, s₅, h₅, hs₅⟩ := afterFirmware_sends hc b box₃ s₄
    refine ⟨box₅, s₅, ?_, ?_⟩
    · rw [h₃, Option.bind_some, exec_perform hwait]
      exact h₅
    · rw [hs₅, hs₄, hs₃, hearlier, setUpCommands, List.append_assoc, List.append_assoc,
        List.append_assoc]

end Handler

/-! ### The commander, the reader and the controller -/

/-- The event that completes a command, as the controller sends it. -/
def completion (num : UInt8) (opcode : ℕ) (param : List UInt8) : List UInt8 :=
  0x04 :: 0x0e :: UInt8.ofNat (num :: u16Bytes opcode ++ param).length
    :: (num :: u16Bytes opcode ++ param)

/-- The commands that the controller has got, and the reader. -/
structure Wire where
  sent : List (List UInt8)
  reader : Reader

/-- What the calls of the commander lead to. The bytes of a command reach the controller, and
those of its completion the reader, which tells the commander; the number of commands that may
be sent and the return parameters are given by `answer`. -/
def wire (b : Build) (answer : List (List UInt8) → UInt8 × List UInt8) (tid : ℤ) :
    (e : Op) → Wire → Option (e.Response × Wire)
  | .send bytes, w => do
      let opcode ← wordAt bytes 1
      let (num, param) := answer (w.sent ++ [bytes])
      some (true, ⟨w.sent ++ [bytes], { w.reader with
        input := putBytes w.reader.input w.reader.pos (completion num opcode param) }⟩)
  | .recv, w => do
      let reader ← w.reader.round b
      match reader.out.drop w.reader.out.length with
      | [.commander msg] => some ((tid, some msg), { w with reader := reader })
      | _ => none
  | .reply t, w => some (decide (t = tid), w)
  | .waitTicks _, w => some ((), w)
  | .exit, _ => none

/-- The reader tells the commander of a completed command what the event says. -/
theorem round_completion (b : Build) {s : Reader} {num : UInt8} {opcode : ℕ} {param : List UInt8}
    (hopcode : opcode < 2 ^ 16) (hparam : param.length ≤ 252)
    (hin : Arrives s.input s.pos (completion num opcode param)) :
  ∃ s', s.round b = some s'
    ∧ s'.out = s.out ++ [.commander (.hciCommandComplete num opcode param)]
  := by
  have hlen : (num :: u16Bytes opcode ++ param).length = 3 + param.length := by
    rw [List.length_append]
    rfl
  obtain ⟨s₁, hround, -, hout⟩ := @round_event b s 0x0e _ (by omega) hin
  have hword : wordAt (num :: u16Bytes opcode ++ param) 1 = some opcode :=
    wordAt_zero hopcode param
  have hslice : sliceFrom (num :: u16Bytes opcode ++ param) 3 = some param :=
    sliceFrom_append (num :: u16Bytes opcode) param
  have hbase : hciCommandComplete.base ≤ defaultBoxSize := by decide
  have hcapacity : arrayCapacity hciCommandComplete = 968 := by decide
  obtain ⟨box, hbox⟩ := newHeadedMsg_eq b "HciCommandComplete" s₁.sendBox
    ([num, 0] ++ u16Bytes opcode ++ List.replicate 4 0) hbase
    (show param.length ≤ arrayCapacity hciCommandComplete by omega)
  rw [← hciCommandComplete] at hbox
  have hhandle : s₁.handleEvent b 0x0e (num :: u16Bytes opcode ++ param)
      = s₁.handleCommandComplete b (num :: u16Bytes opcode ++ param) := rfl
  rw [hround, hhandle, Reader.handleCommandComplete, hword, hslice]
  have hnum : (num :: u16Bytes opcode ++ param)[0]? = some num := rfl
  simp only [hnum, hbox, hout, Option.bind_eq_bind, Option.bind_some]
  exact ⟨_, rfl, rfl⟩

theorem wire_completes (b : Build) {answer : List (List UInt8) → UInt8 × List UInt8} (tid : ℤ)
    (hcredit : ∀ sent, (answer sent).1 ≠ 0) (hparam : ∀ sent, (answer sent).2.length ≤ 252)
    (haddr : ∀ sent, 7 ≤ (answer (sent ++ [command 0x1009 []])).2.length) :
  Completes (wire b answer tid) Wire.sent
  := by
  constructor
  · intro w opcode data hopcode hdata
    have hword := wordAt_command hopcode data
    let sent := w.sent ++ [command opcode data]
    let event := completion (answer sent).1 opcode (answer sent).2
    let s₁ : Reader := { w.reader with input := putBytes w.reader.input w.reader.pos event }
    obtain ⟨s₂, hround, hout⟩ := @round_completion b s₁ (answer sent).1 _ (answer sent).2 hopcode
      (hparam sent) getBytes_putBytes_self
    refine ⟨tid, (answer sent).1, (answer sent).2, ⟨sent, s₁⟩, ⟨sent, s₂⟩, ⟨sent, s₂⟩, ?_, ?_, ?_,
      hcredit sent, ?_, rfl⟩
    · rw [wire, hword]
      rfl
    · rw [wire, hround, Option.bind_eq_bind, Option.bind_some, hout, List.drop_left]
    · rw [wire, decide_eq_true rfl]
    · intro hget
      have hsent : sent = w.sent ++ [command 0x1009 []] := congrArg (fun c => w.sent ++ [c]) hget
      rw [hsent]
      exact haddr w.sent
  · exact fun w _ => ⟨w, rfl, rfl⟩

/-- The commander, the reader and a controller that completes every command: the set-up comes to
its end exactly if the file of the firmware is a list of commands, and then the controller gets
these one by one, as the file has them, between the other commands. -/
theorem setUp_sends (b : Build) (firmware : List UInt8) (box : SendBox) (tid : ℤ) (reader : Reader)
    {answer : List (List UInt8) → UInt8 × List UInt8}
    (hcredit : ∀ sent, (answer sent).1 ≠ 0) (hparam : ∀ sent, (answer sent).2.length ≤ 252)
    (haddr : ∀ sent, 7 ≤ (answer (sent ++ [command 0x1009 []])).2.length)
    (sent : List (List UInt8)) :
  (∃ box' w, (setUp b firmware box).exec (wire b answer tid) ⟨[], reader⟩ = some (box', w)
      ∧ w.sent = sent)
    ↔ ∃ records : List Record, firmware = records.flatMap Record.bytes
      ∧ sent = setUpCommands records
  := exec_setUp (wire_completes b tid hcredit hparam haddr) b box ⟨[], reader⟩ sent

/-- A firmware of one command. -/
theorem setUp_sends_one :
  ∃ box' w, (setUp ⟨.wrapping, fun _ => [], []⟩ [0x4c, 0xfc, 0x02, 0xaa, 0xbb] .new).exec
      (wire ⟨.wrapping, fun _ => [], []⟩ (fun _ => (1, List.replicate 7 0)) 3)
      ⟨[], .new fun _ => 0⟩ = some (box', w)
    ∧ w.sent = setUpCommands [⟨0x4c, 0xfc, [0xaa, 0xbb], by decide⟩]
  := (setUp_sends _ _ _ _ _ (fun _ => by decide) (fun _ => by decide) (fun _ => by decide) _).mpr
    ⟨_, rfl, rfl⟩

end TrainsOs.Bluetooth.Commander
