import TrainsOs.Loader.Args

/-!
# The arguments of a task

`EntryArgs` of `entry_args.rs` splits the arguments of a task at every NUL and takes the
pieces two by two; a piece that is left over is dropped. `none` is a panic: a piece that is
not UTF-8, or a pair for which the vector has no room.

For arguments that are pairs of strings, each with its NUL, the task gets the pairs that
`resolve_args` has parsed. Of several pairs with the same key `get` takes the first one, and
`resolve_args` goes by the last one.
-/

namespace LoaderArgs

/-- A string of Rust: bytes that are valid UTF-8. -/
structure Str where
  bytes : List UInt8
  valid : ByteArray.IsValidUTF8 ⟨bytes.toArray⟩
deriving DecidableEq

/-- `str::from_utf8`. -/
def fromUtf8 (bytes : List UInt8) : Option Str :=
  if h : ByteArray.IsValidUTF8 ⟨bytes.toArray⟩ then some ⟨bytes, h⟩ else none

/-- The capacity of the vector of an `EntryArgs`. -/
def maxPairs : ℕ := 32

/-- `EntryArgs`, with a vector that is never longer than its capacity. -/
structure EntryArgs where
  pairs : List (Str × Str)
  length_le : pairs.length ≤ maxPairs

/-- `push` of the vector. -/
def EntryArgs.push (e : EntryArgs) (pair : Str × Str) : Option EntryArgs :=
  if h : e.pairs.length < maxPairs then
    some { pairs := e.pairs ++ [pair]
           length_le := by
             rw [List.length_append]
             exact h }
  else
    none

/-- `array_chunks` for arrays of two elements. -/
def arrayChunks : List (List UInt8) → List (List UInt8 × List UInt8)
  | key :: val :: rest => (key, val) :: arrayChunks rest
  | _ => []

/-- A round of the loop of `EntryArgs::new`. -/
def EntryArgs.pushChunk (e : EntryArgs) (chunk : List UInt8 × List UInt8) : Option EntryArgs := do
  let key ← fromUtf8 chunk.1
  let val ← fromUtf8 chunk.2
  e.push (key, val)

/-- `EntryArgs::new`. -/
def EntryArgs.new (bytes : List UInt8) : Option EntryArgs :=
  (arrayChunks (bytes.splitOn 0)).foldlM EntryArgs.pushChunk
    { pairs := [], length_le := Nat.zero_le maxPairs }

/-- `EntryArgs::get`. -/
def EntryArgs.get (e : EntryArgs) (key : List UInt8) : Option Str :=
  (e.pairs.find? fun pair => pair.1.bytes = key).map Prod.snd

/-! ### Pairs of strings as arguments -/

/-- At most 32 pairs of strings without a NUL. -/
structure ArgPairs where
  pairs : List (Str × Str)
  length_le : pairs.length ≤ maxPairs
  not_mem : ∀ pair ∈ pairs, 0 ∉ pair.1.bytes ∧ 0 ∉ pair.2.bytes

/-- The arguments: the key, NUL, the value, and NUL, for each pair. -/
def encode (pairs : List (Str × Str)) : List UInt8 :=
  pairs.flatMap fun pair => pair.1.bytes ++ 0 :: (pair.2.bytes ++ [0])

/-- The bytes of the pairs. -/
def bytesOf (pairs : List (Str × Str)) : List (List UInt8 × List UInt8) :=
  pairs.map fun pair => (pair.1.bytes, pair.2.bytes)

/-- The values for the key `PROGRAM`. -/
def programValues (pairs : List (Str × Str)) : List Str :=
  (pairs.filter fun pair => pair.1.bytes = programKey).map Prod.snd

/-- Both sides parse these pairs, in this order, and the loader takes the program that the
task finds under `PROGRAM`. -/
def Agree (l : ArgPairs) : Prop :=
  ∃ la e, resolveArgs (encode l.pairs) = some la ∧ EntryArgs.new (encode l.pairs) = some e
    ∧ la.pairs = bytesOf l.pairs ∧ e.pairs = l.pairs
    ∧ la.elfStart = (e.get programKey).bind fun val => programNamed val.bytes

/-- The first and the last value for the key `PROGRAM` name the same program, or none. -/
def SameProgram (l : ArgPairs) : Prop :=
  ((programValues l.pairs).head?.bind fun val => programNamed val.bytes)
    = (programValues l.pairs).getLast?.bind fun val => programNamed val.bytes

instance (l : ArgPairs) : Decidable (SameProgram l) :=
  inferInstanceAs (Decidable (_ = _))

variable {pairs : List (Str × Str)} {key val : List UInt8}

theorem encode_cons (pair : Str × Str) (pairs : List (Str × Str)) :
  encode (pair :: pairs) = pair.1.bytes ++ 0 :: (pair.2.bytes ++ 0 :: encode pairs)
  := by simp [encode]

/-! ### The side of the loader -/

/-- The loader has parsed the pairs and goes by the last value for `PROGRAM`. -/
theorem resolveLoop_encode (h : ∀ pair ∈ pairs, 0 ∉ pair.1.bytes ∧ 0 ∉ pair.2.bytes)
    (la : Parsed) :
  resolveLoop (encode pairs) la = some
    { elfStart := (programValues pairs).getLast?.elim la.elfStart fun val => programNamed val.bytes
      pairs := la.pairs ++ bytesOf pairs }
  := by
  induction pairs generalizing la with
  | nil =>
    rw [encode, List.flatMap_nil, resolveLoop, if_pos rfl, bytesOf, List.map_nil, List.append_nil]
    rfl
  | cons pair pairs ih =>
    obtain ⟨hkey, hval⟩ := h pair List.mem_cons_self
    rw [encode_cons, resolveLoop_pair hkey hval, ih fun p hp => h p (List.mem_cons_of_mem pair hp)]
    congr 2
    · rw [programValues, programValues, List.filter_cons, Parsed.add]
      dsimp only
      by_cases hprog : pair.1.bytes = programKey
      · rw [if_pos hprog, if_pos (decide_eq_true hprog), List.map_cons, List.getLast?_cons]
        cases ((pairs.filter fun pair => pair.1.bytes = programKey).map Prod.snd).getLast? <;> rfl
      · rw [if_neg hprog, decide_eq_false hprog]
        rfl
    · rw [Parsed.add, bytesOf, bytesOf, List.map_cons, List.append_assoc]
      rfl

/-! ### The side of the task -/

/-- The pieces between the NULs. -/
theorem splitOn_append (h : 0 ∉ key) (rest : List UInt8) :
  (key ++ 0 :: rest).splitOn 0 = key :: rest.splitOn 0
  := by
  rw [List.splitOn_eq_splitOnP, List.splitOn_eq_splitOnP]
  apply List.splitOnP_append_cons_of_forall_mem
  · intro c hc
    apply beq_false_of_ne
    rintro rfl
    exact h hc
  · rfl

/-- The piece behind the last NUL is dropped. -/
theorem arrayChunks_encode (h : ∀ pair ∈ pairs, 0 ∉ pair.1.bytes ∧ 0 ∉ pair.2.bytes) :
  arrayChunks ((encode pairs).splitOn 0) = bytesOf pairs
  := by
  induction pairs with
  | nil => rfl
  | cons pair pairs ih =>
    obtain ⟨hkey, hval⟩ := h pair List.mem_cons_self
    rw [encode_cons, splitOn_append hkey, splitOn_append hval, arrayChunks,
      ih fun p hp => h p (List.mem_cons_of_mem pair hp)]
    rfl

theorem fromUtf8_bytes (s : Str) :
  fromUtf8 s.bytes = some s
  := by rw [fromUtf8, dif_pos s.valid]

/-- The pairs are pushed one after the other. -/
theorem foldlM_pushChunk (pairs : List (Str × Str)) (e : EntryArgs)
    (h : e.pairs.length + pairs.length ≤ maxPairs) :
  ∃ e', (bytesOf pairs).foldlM EntryArgs.pushChunk e = some e' ∧ e'.pairs = e.pairs ++ pairs
  := by
  induction pairs generalizing e with
  | nil =>
    use e
    rw [List.append_nil]
    exact ⟨rfl, rfl⟩
  | cons pair pairs ih =>
    rw [List.length_cons] at h
    have hroom : e.pairs.length < maxPairs := by omega
    have hpush : e.pushChunk (pair.1.bytes, pair.2.bytes) = e.push pair := by
      rw [EntryArgs.pushChunk, fromUtf8_bytes, fromUtf8_bytes]
      rfl
    rw [bytesOf, List.map_cons, List.foldlM_cons, hpush, EntryArgs.push, dif_pos hroom]
    obtain ⟨e', hnew, hpairs⟩ := ih { pairs := e.pairs ++ [pair], length_le := _ } (by
      rw [List.length_append, List.length_singleton]
      omega)
    use e'
    constructor
    · exact hnew
    · rw [hpairs, List.append_assoc]
      rfl

/-- The task gets the pairs. -/
theorem new_encode (l : ArgPairs) :
  ∃ e, EntryArgs.new (encode l.pairs) = some e ∧ e.pairs = l.pairs
  := by
  rw [EntryArgs.new, arrayChunks_encode l.not_mem]
  apply foldlM_pushChunk
  rw [List.length_nil, Nat.zero_add]
  exact l.length_le

/-- `get` takes the first value. -/
theorem get_programKey (e : EntryArgs) :
  e.get programKey = (programValues e.pairs).head?
  := by
  rw [EntryArgs.get, programValues, List.head?_map, List.head?_filter]

theorem resolveArgs_encode (l : ArgPairs) :
  resolveArgs (encode l.pairs) = some
    { elfStart := (programValues l.pairs).getLast?.bind fun val => programNamed val.bytes
      pairs := bytesOf l.pairs }
  := by
  rw [resolveArgs, resolveLoop_encode l.not_mem]
  congr 2
  cases (programValues l.pairs).getLast? <;> rfl

theorem Agree.sameProgram {l : ArgPairs} (h : Agree l) :
  SameProgram l
  := by
  obtain ⟨la, e, hla, he, -, hpairs, hprog⟩ := h
  obtain rfl := Option.some.inj ((resolveArgs_encode l).symm.trans hla)
  rw [get_programKey, hpairs] at hprog
  apply hprog.symm

/-- Both sides always parse the same pairs. They agree on the program exactly when the first
and the last value for `PROGRAM` name the same one, or none. -/
theorem args_agree_iff (l : ArgPairs) :
  Agree l ↔ SameProgram l
  := by
  constructor
  · apply Agree.sameProgram
  · intro hsame
    obtain ⟨e, hnew, hpairs⟩ := new_encode l
    refine ⟨_, e, resolveArgs_encode l, hnew, rfl, hpairs, ?_⟩
    rw [get_programKey, hpairs]
    apply hsame.symm

/-- Two programs. -/
def twoPrograms : ArgPairs where
  pairs := [(⟨programKey, by decide⟩, ⟨chars "pid", by decide⟩),
    (⟨programKey, by decide⟩, ⟨chars "commander", by decide⟩)]
  length_le := by decide
  not_mem := by decide

/-- Given two programs, the loader takes the second one and the task finds the first one. -/
theorem twoPrograms_not_agree :
  ¬ Agree twoPrograms
  := by
  intro h
  have hsame : ¬ SameProgram twoPrograms := by decide
  apply hsame h.sameProgram

end LoaderArgs
