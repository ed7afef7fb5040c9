import Mathlib.Data.List.Range
import Mathlib.Algebra.Group.Nat.Even

/-!
# Memory with addresses of 64 bits

Addresses wrap around. Besides the bytes a memory records which of them have been written,
so that one can speak of what a program writes and not only of what it changes. Everything
that writes is described by `overlay`, which writes the bytes `f 0, f 1, …` one after the
other.
-/

/-- An address. -/
abbrev Addr := BitVec 64

/-- The bytes, and which of them have been written. -/
@[ext]
structure Memory where
  byte : Addr → UInt8
  written : Addr → Bool

/-- The address is one of the `n` that begin with `base`. -/
def Within (base : Addr) (n : ℕ) (a : Addr) : Prop :=
  (a - base).toNat < n

instance (base : Addr) (n : ℕ) (a : Addr) : Decidable (Within base n a) :=
  inferInstanceAs (Decidable (_ < _))

/-- The two ranges of addresses do not overlap. -/
def Apart (base : Addr) (n : ℕ) (base' : Addr) (n' : ℕ) : Prop :=
  ∀ a, Within base n a → ¬ Within base' n' a

/-! ### Ranges of addresses -/

section Ranges

variable {base base' d a : Addr} {n n' i : ℕ}

theorem Apart.symm (h : Apart base n base' n') :
  Apart base' n' base n
  := fun a ha' ha => h a ha ha'

/-- A range within another one. -/
theorem Within.mono (h : Within (base + d) n' a) (hn : d.toNat + n' ≤ n) :
  Within base n a
  := by
  rw [Within] at h ⊢
  have ha : a - base = a - (base + d) + d := by
    rw [← BitVec.sub_sub, BitVec.sub_add_cancel]
  rw [ha, BitVec.toNat_add]
  have hmod := Nat.mod_le ((a - (base + d)).toNat + d.toNat) (2 ^ 64)
  omega

theorem within_add (hi : i < n) :
  Within base n (base + BitVec.ofNat 64 i)
  := by
  rw [Within, BitVec.add_comm, BitVec.add_sub_cancel, BitVec.toNat_ofNat]
  exact (Nat.mod_le _ _).trans_lt hi

/-- Moving a range does not change what is in it. -/
theorem within_add_iff :
  Within (base + d) n a ↔ Within base n (a - d)
  := by
  rw [Within, Within, BitVec.sub_sub, BitVec.add_comm d base]

/-- A range that does not wrap around. -/
theorem within_iff (h : base.toNat + n ≤ 2 ^ 64) :
  Within base n a ↔ base.toNat ≤ a.toNat ∧ a.toNat < base.toNat + n
  := by
  rw [Within, BitVec.toNat_sub]
  have hbase := base.isLt
  have ha := a.isLt
  omega

/-- Ranges one after the other. -/
theorem apart_of_le (h : base.toNat + n ≤ base'.toNat) (h' : base'.toNat + n' ≤ 2 ^ 64) :
  Apart base n base' n'
  := by
  intro a ha ha'
  have hbase' := base'.isLt
  rw [within_iff (by omega)] at ha ha'
  omega

/-- Ranges that are moved together. -/
theorem Apart.move (h : Apart base n base' n') (d : Addr) :
  Apart (base + d) n (base' + d) n'
  := by
  intro a ha ha'
  rw [within_add_iff] at ha ha'
  exact h _ ha ha'

theorem not_within_zero :
  ¬ Within base 0 a
  := Nat.not_lt_zero _

/-- The first address, and the other ones. -/
theorem within_succ (hn : n < 2 ^ 64) :
  Within base (n + 1) a ↔ a = base ∨ Within (base + 1) n a
  := by
  rw [Within, Within, ← BitVec.sub_sub, BitVec.toNat_sub (a - base)]
  have hlt := (a - base).isLt
  have hone : (1 : BitVec 64).toNat = 1 := rfl
  have hzero : a = base ↔ (a - base).toNat = 0 := by
    constructor
    · rintro rfl
      rw [BitVec.sub_self]
      rfl
    · intro h
      have heq : a - base = 0 := BitVec.eq_of_toNat_eq h
      rw [← BitVec.sub_add_cancel a base, heq]
      exact BitVec.zero_add base
  rw [hzero, hone]
  omega

end Ranges

namespace Memory

/-! ### Writing -/

/-- Nothing has been written. -/
def fresh (byte : Addr → UInt8) : Memory where
  byte := byte
  written _ := false

def set (m : Memory) (a : Addr) (v : UInt8) : Memory where
  byte x := if x = a then v else m.byte x
  written x := decide (x = a) || m.written x

/-- The `n` bytes from `src` on are copied to `dest`, one after the other. -/
def copy (m : Memory) (dest src : Addr) : ℕ → Memory
  | 0 => m
  | n + 1 => copy (m.set dest (m.byte src)) (dest + 1) (src + 1) n

/-- The `n` bytes from `dest` on are set. -/
def fill (m : Memory) (dest : Addr) (c : UInt8) : ℕ → Memory
  | 0 => m
  | n + 1 => fill (m.set dest c) (dest + 1) c n

/-- A number of `n` bytes is stored, the low byte first. -/
def store (m : Memory) (dest : Addr) (v : ℕ) : ℕ → Memory
  | 0 => m
  | n + 1 => store (m.set dest (UInt8.ofNat v)) (dest + 1) (v / 256) n

/-- The number that is stored in `n` bytes. -/
def load (m : Memory) (src : Addr) : ℕ → ℕ
  | 0 => 0
  | n + 1 => (m.byte src).toNat + 256 * load m (src + 1) n

/-- The bytes `f 0, …, f (n - 1)` are written from `base` on. -/
def overlay (m : Memory) (base : Addr) (n : ℕ) (f : ℕ → UInt8) : Memory where
  byte a := if Within base n a then f (a - base).toNat else m.byte a
  written a := decide (Within base n a) || m.written a

section Overlay

variable {m m' : Memory} {base dest src a : Addr} {n : ℕ} {f : ℕ → UInt8}

theorem overlay_within (h : Within base n a) :
  (m.overlay base n f).byte a = f (a - base).toNat
  := if_pos h

theorem overlay_add {i : ℕ} (hi : i < n) (hn : n ≤ 2 ^ 64) :
  (m.overlay base n f).byte (base + BitVec.ofNat 64 i) = f i
  := by
  rw [overlay_within (within_add hi), BitVec.add_comm, BitVec.add_sub_cancel, BitVec.toNat_ofNat,
    Nat.mod_eq_of_lt (hi.trans_le hn)]

theorem overlay_outside (h : ¬ Within base n a) :
  (m.overlay base n f).byte a = m.byte a
  := if_neg h

theorem written_overlay :
  (m.overlay base n f).written a = true ↔ Within base n a ∨ m.written a = true
  := by rw [overlay, Bool.or_eq_true, decide_eq_true_iff]

theorem overlay_zero :
  m.overlay base 0 f = m
  := by
  apply Memory.ext <;> funext a
  · rw [overlay_outside not_within_zero]
  · rw [Bool.eq_iff_iff, written_overlay]
    exact or_iff_right not_within_zero

theorem overlay_congr {g : ℕ → UInt8} (h : ∀ i < n, f i = g i) :
  m.overlay base n f = m.overlay base n g
  := by
  apply Memory.ext <;> funext a
  · by_cases ha : Within base n a
    · rw [overlay_within ha, overlay_within ha, h _ ha]
    · rw [overlay_outside ha, overlay_outside ha]
  · rfl

/-- Writing the first byte and then the other ones. -/
theorem overlay_set (hn : n < 2 ^ 64) (v : UInt8) :
  (m.set base v).overlay (base + 1) n f
    = m.overlay base (n + 1) fun i => if i = 0 then v else f (i - 1)
  := by
  have hone : (1 : BitVec 64).toNat = 1 := rfl
  apply Memory.ext <;> funext a
  · by_cases ha : Within (base + 1) n a
    · have hlt := (a - base).isLt
      rw [overlay_within ha, overlay_within ((within_succ hn).mpr (Or.inr ha))]
      rw [Within, ← BitVec.sub_sub, BitVec.toNat_sub, hone] at ha
      have hne : (a - base).toNat ≠ 0 := by omega
      rw [← BitVec.sub_sub, BitVec.toNat_sub, hone, if_neg hne]
      congr 1
      omega
    · rw [overlay_outside ha, set]
      dsimp only
      by_cases hbase : a = base
      · rw [if_pos hbase, overlay_within ((within_succ hn).mpr (Or.inl hbase)), hbase,
          BitVec.sub_self]
        exact (if_pos rfl).symm
      · rw [if_neg hbase, overlay_outside]
        rw [within_succ hn]
        exact not_or.mpr ⟨hbase, ha⟩
  · rw [Bool.eq_iff_iff, written_overlay, written_overlay, within_succ hn, set, Bool.or_eq_true,
      decide_eq_true_iff]
    tauto

theorem fill_eq (c : UInt8) (hn : n ≤ 2 ^ 64) :
  m.fill dest c n = m.overlay dest n fun _ => c
  := by
  induction n generalizing m dest with
  | zero => rw [fill, overlay_zero]
  | succ n ih =>
    rw [fill, ih (Nat.le_of_succ_le hn), overlay_set hn]
    apply overlay_congr
    intro i _
    split <;> rfl

theorem store_eq (v : ℕ) (hn : n ≤ 2 ^ 64) :
  m.store dest v n = m.overlay dest n fun i => UInt8.ofNat (v / 256 ^ i)
  := by
  induction n generalizing m dest v with
  | zero => rw [store, overlay_zero]
  | succ n ih =>
    rw [store, ih _ (Nat.le_of_succ_le hn), overlay_set hn]
    apply overlay_congr
    intro i _
    split
    · rename_i hi
      rw [hi, pow_zero, Nat.div_one]
    · rename_i hi
      rw [Nat.div_div_eq_div_mul, ← pow_succ', Nat.sub_add_cancel (Nat.one_le_iff_ne_zero.mpr hi)]

/-- Copying between ranges that do not overlap. -/
theorem copy_eq (h : Apart dest n src n) (hn : n ≤ 2 ^ 64) :
  m.copy dest src n = m.overlay dest n fun i => m.byte (src + BitVec.ofNat 64 i)
  := by
  induction n generalizing m dest src with
  | zero => rw [copy, overlay_zero]
  | succ n ih =>
    have happart : Apart (dest + 1) n (src + 1) n := fun a ha ha' =>
      h a ((within_succ hn).mpr (Or.inr ha)) ((within_succ hn).mpr (Or.inr ha'))
    rw [copy, ih happart (Nat.le_of_succ_le hn), overlay_set hn]
    apply overlay_congr
    intro i hi
    split
    · rename_i hzero
      rw [hzero]
      exact congrArg m.byte (BitVec.add_zero src).symm
    · rename_i hzero
      obtain ⟨j, rfl⟩ := Nat.exists_eq_succ_of_ne_zero hzero
      have hsrc : src + 1 + BitVec.ofNat 64 j = src + BitVec.ofNat 64 (j + 1) := by
        rw [BitVec.add_assoc, BitVec.ofNat_add, BitVec.add_comm (BitVec.ofNat 64 j)]
        rfl
      have hne : src + BitVec.ofNat 64 (j + 1) ≠ dest := by
        intro heq
        apply h dest ((within_succ hn).mpr (Or.inl rfl))
        rw [← heq]
        exact within_add hi
      rw [Nat.succ_sub_one, hsrc, set]
      exact if_neg hne

theorem copy_written (hn : n ≤ 2 ^ 64) :
  (m.copy dest src n).written a = true ↔ Within dest n a ∨ m.written a = true
  := by
  induction n generalizing m dest src with
  | zero => exact (or_iff_right not_within_zero).symm
  | succ n ih =>
    rw [copy, ih (Nat.le_of_succ_le hn), within_succ hn, set, Bool.or_eq_true, decide_eq_true_iff,
      or_assoc, or_left_comm]

/-- Copying leaves alone what it does not write, even when the ranges overlap. -/
theorem copy_outside (hn : n ≤ 2 ^ 64) (h : ¬ Within dest n a) :
  (m.copy dest src n).byte a = m.byte a
  := by
  induction n generalizing m dest src with
  | zero => rfl
  | succ n ih =>
    rw [within_succ hn, not_or] at h
    rw [copy, ih (Nat.le_of_succ_le hn) h.2]
    exact if_neg h.1

end Overlay

/-! ### What a program writes -/

/-- The program adds to what has been written, and changes only what it has written. -/
structure Writes (f : Memory → Memory) : Prop where
  mono : ∀ m a, m.written a = true → (f m).written a = true
  frame : ∀ m a, (f m).written a = false → (f m).byte a = m.byte a

section Writes

variable {f g : Memory → Memory}

theorem Writes.id :
  Writes fun m => m
  := ⟨fun _ _ h => h, fun _ _ _ => rfl⟩

theorem Writes.comp (hg : Writes g) (hf : Writes f) :
  Writes fun m => g (f m)
  := by
  constructor
  · exact fun m a h => hg.mono _ a (hf.mono m a h)
  · intro m a h
    rw [hg.frame _ a h]
    apply hf.frame
    rw [← Bool.not_eq_true]
    intro hset
    rw [hg.mono _ a hset] at h
    cases h

theorem Writes.foldl {ι : Type*} {f : Memory → ι → Memory} (hf : ∀ i, Writes fun m => f m i)
    (xs : List ι) :
  Writes fun m => xs.foldl f m
  := by
  induction xs with
  | nil => exact Writes.id
  | cons i xs ih => exact ih.comp (hf i)

end Writes

/-! ### Reading -/

section Reading

variable {m m' : Memory} {base src a : Addr} {n : ℕ}

/-- What is read depends on the bytes that are read only. -/
theorem load_congr (h : ∀ a, Within src n a → m'.byte a = m.byte a) :
  m'.load src n = m.load src n
  := by
  induction n generalizing src with
  | zero => rfl
  | succ n ih =>
    have hsrc : Within src (n + 1) src := by
      rw [Within, BitVec.sub_self]
      exact Nat.succ_pos n
    rw [load, load, h src hsrc, ih]
    intro a ha
    apply h a
    exact ha.mono (Nat.add_comm 1 n).le

/-- A field of a record depends on the bytes of the record only. -/
theorem load_field (h : ∀ a, Within src n a → m'.byte a = m.byte a) (d : Addr) {k : ℕ}
    (hk : d.toNat + k ≤ n) :
  m'.load (src + d) k = m.load (src + d) k
  := by
  apply load_congr
  intro a ha
  apply h a (ha.mono hk)

/-- So does the field at its beginning. -/
theorem load_first (h : ∀ a, Within src n a → m'.byte a = m.byte a) {k : ℕ} (hk : k ≤ n) :
  m'.load src k = m.load src k
  := by
  have hzero := load_field h 0 (k := k) (by simpa using hk)
  rwa [show src + 0 = src from BitVec.add_zero src] at hzero

/-- What was stored is read back. -/
theorem load_of_bytes {v : ℕ}
    (h : ∀ i < n, m.byte (src + BitVec.ofNat 64 i) = UInt8.ofNat (v / 256 ^ i)) :
  m.load src n = v % 256 ^ n
  := by
  induction n generalizing src v with
  | zero => rw [load, pow_zero, Nat.mod_one]
  | succ n ih =>
    have hfirst := h 0 (Nat.succ_pos n)
    rw [pow_zero, Nat.div_one,
      show src + BitVec.ofNat 64 0 = src from BitVec.add_zero src] at hfirst
    have hrest : m.load (src + 1) n = v / 256 % 256 ^ n := by
      apply ih
      intro i hi
      have hbyte := h (i + 1) (Nat.succ_lt_succ hi)
      rw [pow_succ', ← Nat.div_div_eq_div_mul] at hbyte
      rw [← hbyte, BitVec.add_assoc, BitVec.ofNat_add, BitVec.add_comm (BitVec.ofNat 64 i)]
      rfl
    rw [load, hfirst, hrest, pow_succ', Nat.mod_mul, UInt8.toNat_ofNat']

/-- A loop that reads a table before each of its rounds reads the same entries as one that
reads all of it in advance, when no round changes the table. -/
theorem foldl_read {ι β : Type*} {read : Memory → ι → β} {f : Memory → β → Memory}
    {P : Memory → Prop} {xs : List ι} (hm : P m)
    (hread : ∀ i ∈ xs, ∀ m', P m' → read m' i = read m i)
    (hf : ∀ i ∈ xs, ∀ m', P m' → P (f m' (read m i))) :
  xs.foldl (fun m i => f m (read m i)) m = (xs.map (read m)).foldl f m
  := by
  suffices h : ∀ m', P m' →
      xs.foldl (fun m i => f m (read m i)) m' = (xs.map (read m)).foldl f m' from h m hm
  induction xs with
  | nil => exact fun _ _ => rfl
  | cons i xs ih =>
    intro m' hm'
    rw [List.foldl_cons, List.map_cons, List.foldl_cons, hread i List.mem_cons_self m' hm']
    apply ih
    · exact fun j hj => hread j (List.mem_cons_of_mem i hj)
    · exact fun j hj => hf j (List.mem_cons_of_mem i hj)
    · exact hf i List.mem_cons_self m' hm'

/-- The same for a loop that has not written anywhere in the table when it ends. -/
theorem foldl_read_of_unwritten {ι β : Type*} {read : Memory → ι → β} {f : Memory → β → Memory}
    {P : Addr → Prop} {xs : List ι} (hf : ∀ i, Writes fun m => f m (read m i))
    (hread : ∀ i ∈ xs, ∀ m', (∀ a, P a → m'.byte a = m.byte a) → read m' i = read m i)
    (hm' : ∀ a, P a → m'.byte a = m.byte a)
    (hwritten : ∀ a, P a → (xs.foldl (fun m i => f m (read m i)) m').written a = false) :
  xs.foldl (fun m i => f m (read m i)) m' = (xs.map (read m)).foldl f m'
  := by
  induction xs generalizing m' with
  | nil => rfl
  | cons i xs ih =>
    rw [List.foldl_cons] at hwritten ⊢
    rw [List.map_cons, List.foldl_cons, ← hread i List.mem_cons_self m' hm']
    apply ih
    · exact fun j hj => hread j (List.mem_cons_of_mem i hj)
    · intro a ha
      rw [(hf i).frame, hm' a ha]
      rw [← Bool.not_eq_true]
      intro hset
      have hstays := (Writes.foldl hf xs).mono _ a hset
      rw [hwritten a ha] at hstays
      cases hstays
    · exact hwritten

end Reading

end Memory
