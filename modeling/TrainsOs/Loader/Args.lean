import Mathlib.Algebra.Group.Nat.Even
import Mathlib.Data.List.Basic

/-!
# The arguments of the loader

`resolve_args` of `loader_args.c` reads the arguments of a task: strings that end with NUL,
keys and values in turn. The bytes that a pointer points to are given as the list of the
bytes from there up to `args + args_len`, and `none` is a read at or beyond this address.

Nothing checks that there is a NUL: the arguments are read within their bounds exactly when
they consist of an even number of strings that end with NUL.
-/

namespace LoaderArgs

/-- The programs that are linked into the kernel, by their `elf_start`. -/
inductive ElfStart
  | userEntry
  | msgDemo
  | msgDemoChild
  | nameServer
  | nameServerDemo
  | rpi
  | rpiUart
  | rpiUartIntrBroker
  | rpiBluetoothCommander
  | rpiBluetoothHciRx
  | rpiBluetoothGatt
  | clockServer
  | clockServerHelper
  | clockNotifier
  | encoderServer
  | encoderReporter
  | encoderCollector
  | gattMonitor
  | gattMonitorRelay
  | commander
  | imuServer
  | imuCollector
  | motorServer
  | pid
  | pidTrigger
deriving DecidableEq

/-- The bytes of a string constant, without its NUL. -/
def chars (s : String) : List UInt8 := s.toUTF8.data.toList

/-- The names that `resolve_elf_start` compares with, in this order. -/
def programs : List (List UInt8 × ElfStart) :=
  [(chars "user_entry", .userEntry),
    (chars "msg_demo", .msgDemo),
    (chars "msg_demo_child", .msgDemoChild),
    (chars "name_server", .nameServer),
    (chars "name_server_demo", .nameServerDemo),
    (chars "rpi", .rpi),
    (chars "rpi_uart", .rpiUart),
    (chars "rpi_uart_intr_broker", .rpiUartIntrBroker),
    (chars "rpi_bluetooth_commander", .rpiBluetoothCommander),
    (chars "rpi_bluetooth_hci_rx", .rpiBluetoothHciRx),
    (chars "rpi_bluetooth_gatt", .rpiBluetoothGatt),
    (chars "clock_server", .clockServer),
    (chars "clock_server_helper", .clockServerHelper),
    (chars "clock_notifier", .clockNotifier),
    (chars "encoder_server", .encoderServer),
    (chars "encoder_reporter", .encoderReporter),
    (chars "encoder_collector", .encoderCollector),
    (chars "gatt_monitor", .gattMonitor),
    (chars "gatt_monitor_relay", .gattMonitorRelay),
    (chars "commander", .commander),
    (chars "imu_server", .imuServer),
    (chars "imu_collector", .imuCollector),
    (chars "motor_server", .motorServer),
    (chars "pid", .pid),
    (chars "pid_trigger", .pidTrigger)]

/-- The key `"PROGRAM"`. -/
def programKey : List UInt8 := chars "PROGRAM"

/-! ### The functions of the loader -/

/-- The loop of `util_strcmp` from two pointers on, the second one into a constant that is
given without its NUL. -/
def utilStrcmp : List UInt8 → List UInt8 → Option Bool
  | [], _ => none
  | c :: _, [] => some (c == 0)
  | c :: s1, d :: s2 =>
    if c ≠ d then
      some false
    else if c = 0 then
      some true
    else
      utilStrcmp s1 s2

/-- The comparisons of `resolve_elf_start`, one after the other. -/
def resolveElfStartLoop (programName : List UInt8) :
    List (List UInt8 × ElfStart) → Option (Option ElfStart)
  | [] => some none
  | (name, elfStart) :: rest =>
    (utilStrcmp programName name).bind fun same =>
      if same then some (some elfStart) else resolveElfStartLoop programName rest

/-- `resolve_elf_start`; the inner `none` is `NULL`. -/
def resolveElfStart (programName : List UInt8) : Option (Option ElfStart) :=
  resolveElfStartLoop programName programs

/-- `while (s[len++] != '\0') {}`: the length that is counted, with the NUL. -/
def scanNul : List UInt8 → Option ℕ
  | [] => none
  | c :: s => if c = 0 then some 1 else (scanNul s).map (· + 1)

/-- `struct LoaderArgs`, and besides the keys and the values in the order in which they are
parsed. -/
structure Parsed where
  elfStart : Option ElfStart
  pairs : List (List UInt8 × List UInt8)
deriving DecidableEq

theorem scanNul_bounds {s : List UInt8} {n : ℕ} (h : scanNul s = some n) :
  0 < n ∧ n ≤ s.length
  := by
  induction s generalizing n with
  | nil => cases h
  | cons c s ih =>
    rw [scanNul] at h
    split at h
    · obtain rfl := Option.some.inj h
      simp
    · obtain ⟨k, hk, rfl⟩ := Option.map_eq_some_iff.mp h
      have hle := (ih hk).2
      rw [List.length_cons]
      omega

/-- The loop of `resolve_args`, from `&args[idx]` on. -/
def resolveLoop (rest : List UInt8) (la : Parsed) : Option Parsed :=
  if rest = [] then
    some la
  else
    match _hscan : scanNul rest with
    | none => none
    | some keyLen =>
      let val := rest.drop keyLen
      match scanNul val with
      | none => none
      | some valLen =>
        let pairs := la.pairs ++ [(rest.take (keyLen - 1), val.take (valLen - 1))]
        match utilStrcmp rest programKey with
        | none => none
        | some true =>
          match resolveElfStart val with
          | none => none
          | some elfStart =>
            resolveLoop (rest.drop (keyLen + valLen)) { elfStart := elfStart, pairs := pairs }
        | some false => resolveLoop (rest.drop (keyLen + valLen)) { la with pairs := pairs }
termination_by rest.length
decreasing_by all_goals
  have hbounds := scanNul_bounds _hscan
  rw [List.length_drop]
  omega

/-- `resolve_args`. -/
def resolveArgs (args : List UInt8) : Option Parsed :=
  resolveLoop args { elfStart := none, pairs := [] }

/-! ### Strings that end with NUL -/

/-- The program with the name. -/
def programNamed (name : List UInt8) : Option ElfStart :=
  (programs.find? fun program => program.1 = name).map Prod.snd

/-- What a round of the loop makes of a key and a value. -/
def Parsed.add (la : Parsed) (key val : List UInt8) : Parsed where
  elfStart := if key = programKey then programNamed val else la.elfStart
  pairs := la.pairs ++ [(key, val)]

variable {key val name rest s : List UInt8} {la : Parsed}

theorem scanNul_append (h : 0 ∉ s) (rest : List UInt8) :
  scanNul (s ++ 0 :: rest) = some (s.length + 1)
  := by
  induction s with
  | nil => rfl
  | cons c s ih =>
    rw [List.mem_cons, not_or] at h
    rw [List.cons_append, scanNul, if_neg (Ne.symm h.1), ih h.2]
    rfl

theorem scanNul_eq_none (h : 0 ∉ s) :
  scanNul s = none
  := by
  induction s with
  | nil => rfl
  | cons c s ih =>
    rw [List.mem_cons, not_or] at h
    rw [scanNul, if_neg (Ne.symm h.1), ih h.2]
    rfl

/-- Strings are compared up to their NUL. -/
theorem utilStrcmp_append (h : 0 ∉ s) (hname : 0 ∉ name) (rest : List UInt8) :
  utilStrcmp (s ++ 0 :: rest) name = some (decide (name = s))
  := by
  induction s generalizing name with
  | nil =>
    cases name with
    | nil => rfl
    | cons d name =>
      rw [List.mem_cons, not_or] at hname
      rw [List.nil_append, utilStrcmp, if_pos hname.1]
      rfl
  | cons c s ih =>
    rw [List.mem_cons, not_or] at h
    cases name with
    | nil =>
      rw [List.cons_append, utilStrcmp, beq_false_of_ne (Ne.symm h.1)]
      rfl
    | cons d name =>
      rw [List.mem_cons, not_or] at hname
      rw [List.cons_append, utilStrcmp]
      by_cases hcd : c = d
      · rw [if_neg (not_not.mpr hcd), if_neg (Ne.symm h.1), ih h.2 hname.2, hcd]
        simp
      · rw [if_pos hcd]
        simp [Ne.symm hcd]

/-- No name has a NUL in it. -/
theorem not_mem_of_mem_programs {program : List UInt8 × ElfStart} (h : program ∈ programs) :
  0 ∉ program.1
  := by
  revert program
  decide

theorem resolveElfStart_append (h : 0 ∉ val) (rest : List UInt8) :
  resolveElfStart (val ++ 0 :: rest) = some (programNamed val)
  := by
  have hloop : ∀ ps : List (List UInt8 × ElfStart), (∀ p ∈ ps, 0 ∉ p.1) →
      resolveElfStartLoop (val ++ 0 :: rest) ps
        = some ((ps.find? fun program => program.1 = val).map Prod.snd) := by
    intro ps hps
    induction ps with
    | nil => rfl
    | cons p ps ih =>
      rw [resolveElfStartLoop, utilStrcmp_append h (hps p List.mem_cons_self),
        Option.bind_some, List.find?_cons]
      by_cases hp : p.1 = val
      · simp [hp]
      · simp only [hp, decide_false, Bool.false_eq_true, ↓reduceIte]
        exact ih fun q hq => hps q (List.mem_cons_of_mem p hq)
  exact hloop programs fun p => not_mem_of_mem_programs

/-- A round of the loop. -/
theorem resolveLoop_pair (hkey : 0 ∉ key) (hval : 0 ∉ val) (rest : List UInt8) (la : Parsed) :
  resolveLoop (key ++ 0 :: (val ++ 0 :: rest)) la = resolveLoop rest (la.add key val)
  := by
  have hprogram : (0 : UInt8) ∉ programKey := by decide
  have hne : key ++ 0 :: (val ++ 0 :: rest) ≠ [] := by simp
  have hscan := scanNul_append hkey (val ++ 0 :: rest)
  have hdrop : (key ++ 0 :: (val ++ 0 :: rest)).drop (key.length + 1) = val ++ 0 :: rest := by
    rw [List.drop_append]
    simp
  have hrest : (key ++ 0 :: (val ++ 0 :: rest)).drop (key.length + 1 + (val.length + 1))
      = rest := by
    rw [← List.drop_drop, hdrop, List.drop_append]
    simp
  rw [resolveLoop, if_neg hne]
  split
  · next h =>
    rw [hscan] at h
    cases h
  · next keyLen h =>
    obtain rfl := Option.some.inj (hscan.symm.trans h)
    rw [hdrop]
    dsimp only
    rw [scanNul_append hval, utilStrcmp_append hkey hprogram, resolveElfStart_append hval]
    dsimp only
    rw [hrest, Nat.add_sub_cancel, Nat.add_sub_cancel, List.take_left, List.take_left, Parsed.add]
    by_cases hprog : key = programKey
    · rw [if_pos hprog, decide_eq_true hprog.symm]
    · rw [if_neg hprog, decide_eq_false (Ne.symm hprog)]

/-- The rest of the buffer has no NUL, or it begins with a string that ends with one. -/
theorem split_nul (s : List UInt8) :
  0 ∉ s ∨ ∃ str rest, 0 ∉ str ∧ s = str ++ 0 :: rest
  := by
  by_cases h : 0 ∈ s
  · obtain ⟨str, rest, heq, hstr⟩ := List.eq_append_cons_of_mem h
    right
    exact ⟨str, rest, hstr, heq⟩
  · left
    exact h

/-- Without a NUL, the key is read beyond the bounds. -/
theorem resolveLoop_of_key (h : 0 ∉ rest) (hne : rest ≠ []) (la : Parsed) :
  resolveLoop rest la = none
  := by
  rw [resolveLoop, if_neg hne]
  split
  · rfl
  · next hkey =>
    rw [scanNul_eq_none h] at hkey
    cases hkey

/-- Without a second NUL, the value is. -/
theorem resolveLoop_of_val (hkey : 0 ∉ key) (h : 0 ∉ rest) (la : Parsed) :
  resolveLoop (key ++ 0 :: rest) la = none
  := by
  have hne : key ++ 0 :: rest ≠ [] := by simp
  have hdrop : (key ++ 0 :: rest).drop (key.length + 1) = rest := by
    rw [List.drop_append]
    simp
  rw [resolveLoop, if_neg hne]
  split
  · rfl
  · next keyLen hscan =>
    obtain rfl := Option.some.inj ((scanNul_append hkey rest).symm.trans hscan)
    rw [hdrop]
    dsimp only
    rw [scanNul_eq_none h]

/-! ### Reading within the bounds -/

/-- The buffer is empty, or it ends with NUL and the number of its NULs is even. -/
def EvenStrings (args : List UInt8) : Prop :=
  (∀ c ∈ args.getLast?, c = 0) ∧ Even (args.count 0)

instance (args : List UInt8) : Decidable (EvenStrings args) :=
  inferInstanceAs (Decidable (_ ∧ _))

theorem count_append_zero (h : 0 ∉ s) (rest : List UInt8) :
  (s ++ 0 :: rest).count 0 = rest.count 0 + 1
  := by
  rw [List.count_append, List.count_cons_self, List.count_eq_zero.mpr h, Nat.zero_add]

theorem getLast?_append_zero (s rest : List UInt8) :
  (∀ c ∈ (s ++ 0 :: rest).getLast?, c = 0) ↔ ∀ c ∈ rest.getLast?, c = 0
  := by
  rw [List.getLast?_append, List.getLast?_cons]
  cases rest.getLast? with
  | none => simp
  | some c => simp

/-- A key and a value make no difference. -/
theorem evenStrings_pair (hkey : 0 ∉ key) (hval : 0 ∉ val) (rest : List UInt8) :
  EvenStrings (key ++ 0 :: (val ++ 0 :: rest)) ↔ EvenStrings rest
  := by
  rw [EvenStrings, EvenStrings, getLast?_append_zero, getLast?_append_zero,
    count_append_zero hkey, count_append_zero hval]
  apply and_congr_right'
  rw [Nat.even_add_one, Nat.even_add_one, not_not]

/-- Bytes without a NUL are not an even number of strings, and neither are they with one
string in front. -/
theorem not_evenStrings (h : 0 ∉ rest) (hne : rest ≠ []) :
  ¬ EvenStrings rest
  := by
  rintro ⟨hlast, -⟩
  have hmem := List.getLast_mem hne
  rw [hlast _ (List.getLast_mem_getLast? hne)] at hmem
  exact h hmem

theorem not_evenStrings_key (hkey : 0 ∉ key) (h : 0 ∉ rest) :
  ¬ EvenStrings (key ++ 0 :: rest)
  := by
  rintro ⟨-, heven⟩
  rw [count_append_zero hkey, List.count_eq_zero.mpr h] at heven
  exact absurd heven (by decide)

theorem resolveLoop_isSome_iff (args : List UInt8) (la : Parsed) :
  (resolveLoop args la).isSome ↔ EvenStrings args
  := by
  by_cases hnil : args = []
  · rw [hnil, resolveLoop, if_pos rfl]
    exact iff_of_true rfl ⟨nofun, by decide⟩
  · rcases split_nul args with h | ⟨key, rest, hkey, hargs⟩
    · rw [resolveLoop_of_key h hnil]
      exact iff_of_false nofun (not_evenStrings h hnil)
    · rcases split_nul rest with h | ⟨val, rest', hval, hrest⟩
      · rw [hargs, resolveLoop_of_val hkey h]
        exact iff_of_false nofun (not_evenStrings_key hkey h)
      · have hshorter : rest'.length < args.length := by
          rw [hargs, hrest, List.length_append, List.length_cons, List.length_append,
            List.length_cons]
          omega
        rw [hargs, hrest, resolveLoop_pair hkey hval, evenStrings_pair hkey hval]
        exact resolveLoop_isSome_iff rest' (la.add key val)
termination_by args.length

/-- `resolve_args` terminates without reading at or beyond `args + args_len` exactly when the
buffer is empty, or it ends with NUL and the number of its NULs is even. -/
theorem resolveArgs_inBounds_iff (args : List UInt8) :
  (resolveArgs args).isSome ↔ EvenStrings args
  := resolveLoop_isSome_iff args _

/-- The arguments of a task that leave out the last NUL are read beyond their bounds, as are
arguments that consist of one string. -/
theorem resolveArgs_outOfBounds :
  resolveArgs (chars "PROGRAM" ++ 0 :: chars "rpi") = none
    ∧ resolveArgs (chars "PROGRAM" ++ [0]) = none
    ∧ ¬ ∀ args, (resolveArgs args).isSome
  := by
  have hval : resolveArgs (chars "PROGRAM" ++ 0 :: chars "rpi") = none :=
    resolveLoop_of_val (by decide) (by decide) _
  refine ⟨hval, resolveLoop_of_val (by decide) (by decide) _, ?_⟩
  intro h
  have hsome := h (chars "PROGRAM" ++ 0 :: chars "rpi")
  rw [hval] at hsome
  cases hsome

end LoaderArgs
