import TrainsOs.Base.RbtreeErase

/-!
# The tree as a map

When a comparison function orders the nodes by a key, the tree is a finite map from the keys
to the nodes: `rb_find_add` adds a node unless there is one with its key, `rb_erase` removes
it and `rb_find` looks a key up. In a run of these operations from the empty tree no operation
dereferences `NULL`, and none takes more rounds than twice the logarithm of the number of
operations.
-/

namespace Rbtree

open RedBlack RedBlack.RbTree

variable {ν κ : Type} [LinearOrder κ] {key : ν → κ}

/-- A comparison with a key cuts the nodes that are ordered by their keys. -/
theorem isCut_of_key {xs : List ν} {k : κ} {f : ν → ℤ}
    (hsorted : xs.Pairwise fun x y => key x < key y) (hlt : ∀ x ∈ xs, f x < 0 ↔ k < key x)
    (hgt : ∀ x ∈ xs, f x > 0 ↔ key x < k) :
  IsCut (fun x => direction (f x)) xs
  := by
  apply List.Pairwise.imp_of_mem _ hsorted
  intro x y hx hy hxy
  constructor
  · intro hleft
    have hk : k < key x := (hlt x hx).mp (direction_eq_left.mp hleft)
    exact direction_eq_left.mpr ((hlt y hy).mpr (hk.trans hxy))
  · intro hright
    have hk : key y < k := (hgt y hy).mp (direction_eq_right.mp hright)
    exact direction_eq_right.mpr ((hgt x hx).mpr (hxy.trans hk))

/-- Inserting a node with a new key keeps the order. -/
theorem pairwise_orderedInsert {xs : List ν} {n : ν} {r : ν → ν → Prop} [DecidableRel r]
    (hsorted : xs.Pairwise fun x y => key x < key y) (hne : ∀ x ∈ xs, key x ≠ key n)
    (hr : ∀ x ∈ xs, r n x ↔ key n < key x) :
  (xs.orderedInsert r n).Pairwise fun x y => key x < key y
  := by
  induction xs with
  | nil => exact List.pairwise_singleton _ _
  | cons x xs ih =>
    obtain ⟨hx, hxs⟩ := List.pairwise_cons.mp hsorted
    simp only [List.mem_cons, forall_eq_or_imp] at hne hr
    rw [List.orderedInsert_cons]
    split
    · rename_i hlt
      have hnx := hr.1.mp hlt
      apply List.pairwise_cons.mpr ⟨?_, hsorted⟩
      rintro y (_ | ⟨_, hy⟩)
      · exact hnx
      · exact hnx.trans (hx y hy)
    · rename_i hlt
      have hxn : key x < key n := lt_of_le_of_ne (not_lt.mp fun h => hlt (hr.1.mpr h)) hne.1
      apply List.pairwise_cons.mpr ⟨?_, ih hxs hne.2 hr.2⟩
      intro y hy
      rw [List.mem_orderedInsert] at hy
      obtain rfl | hy := hy
      · exact hxn
      · exact hx y hy

/-- Keys are equal when the comparison says that neither is less. -/
theorem eq_zero_iff {r : ℤ} {a b : κ} (hlt : r < 0 ↔ a < b) (hgt : r > 0 ↔ b < a) :
  r = 0 ↔ a = b
  := by
  constructor
  · intro hzero
    have hab : ¬ a < b := fun h => (hlt.mpr h).ne hzero
    have hba : ¬ b < a := fun h => (hgt.mpr h).ne' hzero
    exact le_antisymm (not_lt.mp hba) (not_lt.mp hab)
  · rintro rfl
    have hr : ¬ r < 0 := fun h => lt_irrefl _ (hlt.mp h)
    have hr' : ¬ r > 0 := fun h => lt_irrefl _ (hgt.mp h)
    omega

/-- `RB_ROOT`, whatever is in memory. -/
def rbRoot (node : ν → RbNode ν) : RbRoot ν :=
  ⟨node, none⟩

theorem rbRoot_isTree (node : ν → RbNode ν) :
  IsTree (rbRoot node) []
  := ⟨.nil, ⟨rfl, trivial, List.nodup_nil⟩, ⟨rfl, 0, .nil⟩, rfl⟩

/-- The tree holds the nodes of the map, `n` of them. -/
def Implements (key : ν → κ) (t : RbRoot ν) (m : κ → Option ν) (n : ℕ) : Prop :=
  ∃ xs, IsTree t xs ∧ (xs.Pairwise fun x y => key x < key y) ∧ xs.length = n
    ∧ ∀ k x, m k = some x ↔ x ∈ xs ∧ key x = k

/-- The operations. -/
inductive Op (ν κ : Type) where
  | findAdd (x : ν)
  | erase (x : ν)
  | find (k : κ)

/-- The comparison functions order the nodes by their keys. -/
structure Compares (key : ν → κ) (cmp : ν → ν → ℤ) (cmpKey : κ → ν → ℤ) : Prop where
  lt : ∀ x y, cmp x y < 0 ↔ key x < key y
  gt : ∀ x y, cmp x y > 0 ↔ key y < key x
  key_lt : ∀ k y, cmpKey k y < 0 ↔ k < key y
  key_gt : ∀ k y, cmpKey k y > 0 ↔ key y < k

variable {cmp : ν → ν → ℤ} {cmpKey : κ → ν → ℤ} {fuel n : ℕ} {t : RbRoot ν}
  {m : κ → Option ν}

/-- `rb_find` looks a key up. -/
theorem find_implements (hcmp : Compares key cmp cmpKey) (h : Implements key t m n)
    (hfuel : 2 * Nat.log 2 (n + 1) < fuel) (k : κ) :
  t.rbFind fuel (cmpKey k) = some (m k)
  := by
  obtain ⟨xs, ⟨T, hat, hrb, rfl⟩, hsorted, rfl, hm⟩ := h
  have hcut : IsCut (fun y => direction (cmpKey k y)) T.toList :=
    isCut_of_key hsorted (fun y _ => hcmp.key_lt k y) (fun y _ => hcmp.key_gt k y)
  obtain ⟨r, heq, hsome, hnone⟩ :=
    rbFind_spec (cmpKey k) hat (hrb.height_le.trans_lt hfuel).le
  rw [heq]
  congr 1
  cases r with
  | none =>
    symm
    rw [Option.eq_none_iff_forall_ne_some]
    intro y hy
    obtain ⟨hy, hkey⟩ := (hm k y).mp hy
    exact hnone rfl hcut y hy ((eq_zero_iff (hcmp.key_lt k y) (hcmp.key_gt k y)).mpr hkey.symm)
  | some y =>
    obtain ⟨hy, hzero⟩ := hsome y rfl
    exact ((hm k y).mpr ⟨hy, ((eq_zero_iff (hcmp.key_lt k y) (hcmp.key_gt k y)).mp hzero).symm⟩).symm

variable [DecidableEq ν]

section Machine

variable (key : ν → κ) (cmp : ν → ν → ℤ) (cmpKey : κ → ν → ℤ) (fuel : ℕ)

/-- An operation on the tree: the tree afterwards, and the node returned. -/
def step (t : RbRoot ν) : Op ν κ → Option (RbRoot ν × Option ν)
  | .findAdd x => t.rbFindAdd fuel x cmp
  | .erase x => (t.rbErase fuel x).map fun t => (t, none)
  | .find k => (t.rbFind fuel (cmpKey k)).map fun r => (t, r)

/-- The operations one after the other, and what they return. -/
def runOps (t : RbRoot ν) : List (Op ν κ) → Option (RbRoot ν × List (Option ν))
  | [] => some (t, [])
  | op :: ops => do
    let (t, r) ← step cmp cmpKey fuel t op
    let (t, rs) ← runOps t ops
    some (t, r :: rs)

/-- An operation on the map. -/
def mapStep (m : κ → Option ν) : Op ν κ → (κ → Option ν) × Option ν
  | .findAdd x =>
    match m (key x) with
    | some y => (m, some y)
    | none => (Function.update m (key x) (some x), none)
  | .erase x => (Function.update m (key x) none, none)
  | .find k => (m, m k)

def runMap (m : κ → Option ν) : List (Op ν κ) → (κ → Option ν) × List (Option ν)
  | [] => (m, [])
  | op :: ops =>
    let (m, r) := mapStep key m op
    let (m, rs) := runMap m ops
    (m, r :: rs)

/-- A node is added when it is not in the tree, and erased when it is. -/
def Legal (m : κ → Option ν) : Op ν κ → Prop
  | .findAdd x => m (key x) ≠ some x
  | .erase x => m (key x) = some x
  | .find _ => True

def LegalRun (m : κ → Option ν) : List (Op ν κ) → Prop
  | [] => True
  | op :: ops => Legal key m op ∧ LegalRun (mapStep key m op).1 ops

instance (m : κ → Option ν) (op : Op ν κ) : Decidable (Legal key m op) :=
  match op with
  | .findAdd x => inferInstanceAs (Decidable (m (key x) ≠ some x))
  | .erase x => inferInstanceAs (Decidable (m (key x) = some x))
  | .find _ => inferInstanceAs (Decidable True)

instance instDecidableLegalRun (m : κ → Option ν) :
    (ops : List (Op ν κ)) → Decidable (LegalRun key m ops)
  | [] => inferInstanceAs (Decidable True)
  | op :: ops =>
    have := instDecidableLegalRun (mapStep key m op).1 ops
    inferInstanceAs (Decidable (Legal key m op ∧ LegalRun key (mapStep key m op).1 ops))

end Machine

/-- `rb_find_add` adds the node to the map unless there is one with its key. -/
theorem findAdd_implements (hcmp : Compares key cmp cmpKey) (h : Implements key t m n)
    (hfuel : 2 * Nat.log 2 (n + 1) < fuel) {x : ν} (hlegal : m (key x) ≠ some x) :
  ∃ t', t.rbFindAdd fuel x cmp = some (t', (mapStep key m (.findAdd x)).2)
    ∧ ∃ n' ≤ n + 1, Implements key t' (mapStep key m (.findAdd x)).1 n'
  := by
  obtain ⟨xs, htree, hsorted, rfl, hm⟩ := h
  have hx : x ∉ xs := fun hx => hlegal ((hm (key x) x).mpr ⟨hx, rfl⟩)
  have hcut : IsCut (fun y => direction (cmp x y)) xs :=
    isCut_of_key hsorted (fun y _ => hcmp.lt x y) (fun y _ => hcmp.gt x y)
  obtain ⟨y, hy, hzero, heq⟩ | ⟨hnone, t', heq, htree'⟩ := rbFindAdd_spec htree hx hcut hfuel
  · have hmy : m (key x) = some y := (hm _ y).mpr ⟨hy, ((eq_zero_iff (hcmp.lt x y) (hcmp.gt x y)).mp hzero).symm⟩
    simp only [mapStep, hmy]
    exact ⟨t, heq, _, Nat.le_succ _, xs, htree, hsorted, rfl, hm⟩
  · have hmx : m (key x) = none := by
      rw [Option.eq_none_iff_forall_ne_some]
      intro y hy
      obtain ⟨hy, hkey⟩ := (hm _ y).mp hy
      exact hnone y hy ((eq_zero_iff (hcmp.lt x y) (hcmp.gt x y)).mpr hkey.symm)
    simp only [mapStep, hmx]
    refine ⟨t', heq, _, le_rfl, _, htree', ?_, List.orderedInsert_length _ _ _, ?_⟩
    · apply pairwise_orderedInsert hsorted
      · exact fun y hy hkey => hnone y hy ((eq_zero_iff (hcmp.lt x y) (hcmp.gt x y)).mpr hkey.symm)
      · exact fun y _ => hcmp.lt x y
    · intro k y
      rw [Function.update_apply, List.mem_orderedInsert]
      split
      · rename_i hk
        rw [hk]
        constructor
        · intro heq
          rw [← Option.some.inj heq]
          exact ⟨Or.inl rfl, rfl⟩
        · rintro ⟨rfl | hy, hkey⟩
          · rfl
          · cases hmx.symm.trans ((hm _ y).mpr ⟨hy, hkey⟩)
      · rename_i hk
        rw [hm]
        constructor
        · rintro ⟨hy, hkey⟩
          exact ⟨Or.inr hy, hkey⟩
        · rintro ⟨rfl | hy, hkey⟩
          · exact absurd hkey.symm hk
          · exact ⟨hy, hkey⟩

/-- `rb_erase` removes the node from the map. -/
theorem erase_implements (h : Implements key t m n) (hfuel : 2 * Nat.log 2 (n + 1) < fuel) {x : ν}
    (hlegal : m (key x) = some x) :
  ∃ t', t.rbErase fuel x = some t'
    ∧ ∃ n' ≤ n + 1, Implements key t' (Function.update m (key x) none) n'
  := by
  obtain ⟨xs, htree, hsorted, rfl, hm⟩ := h
  obtain ⟨as, bs, rfl⟩ := List.append_of_mem ((hm _ x).mp hlegal).1
  obtain ⟨t', heq, htree'⟩ := rbErase_spec htree hfuel
  have hsub : (as ++ bs).Sublist (as ++ x :: bs) :=
    List.Sublist.append_left (List.sublist_cons_self x bs) as
  have hout : ∀ y ∈ as ++ bs, key y ≠ key x := by
    intro y hy hkey
    obtain ⟨-, hbs, hasbs⟩ := List.pairwise_append.mp hsorted
    rw [List.mem_append] at hy
    obtain hy | hy := hy
    · exact (hasbs y hy x List.mem_cons_self).ne hkey
    · exact ((List.pairwise_cons.mp hbs).1 y hy).ne' hkey
  refine ⟨t', heq, _, ?_, _, htree', hsorted.sublist hsub, rfl, ?_⟩
  · exact hsub.length_le.trans (Nat.le_succ _)
  · intro k y
    rw [Function.update_apply]
    split
    · rename_i hk
      rw [hk]
      constructor
      · exact nofun
      · rintro ⟨hy, hkey⟩
        exact absurd hkey (hout y hy)
    · rename_i hk
      rw [hm]
      constructor
      · rintro ⟨hy, rfl⟩
        have hyx : y ≠ x := fun heq => hk (congrArg key heq)
        simp only [List.mem_append, List.mem_cons, hyx, false_or] at hy
        exact ⟨List.mem_append.mpr hy, rfl⟩
      · rintro ⟨hy, hkey⟩
        exact ⟨hsub.subset hy, hkey⟩

/-- An operation on the tree does what it does on the map. -/
theorem step_implements (hcmp : Compares key cmp cmpKey) (h : Implements key t m n)
    (hfuel : 2 * Nat.log 2 (n + 1) < fuel) {op : Op ν κ} (hlegal : Legal key m op) :
  ∃ t', step cmp cmpKey fuel t op = some (t', (mapStep key m op).2)
    ∧ ∃ n' ≤ n + 1, Implements key t' (mapStep key m op).1 n'
  := by
  cases op with
  | findAdd x => exact findAdd_implements hcmp h hfuel hlegal
  | erase x =>
    obtain ⟨t', heq, himpl⟩ := erase_implements h hfuel hlegal
    refine ⟨t', ?_, himpl⟩
    rw [step, heq]
    rfl
  | find k =>
    refine ⟨t, ?_, n, Nat.le_succ n, h⟩
    rw [step, find_implements hcmp h hfuel]
    rfl

/-- A run of operations on the tree returns what it returns on the map. -/
theorem runOps_implements (hcmp : Compares key cmp cmpKey) (h : Implements key t m n)
    {ops : List (Op ν κ)} (hfuel : 2 * Nat.log 2 (n + ops.length + 1) < fuel)
    (hlegal : LegalRun key m ops) :
  ∃ t', runOps cmp cmpKey fuel t ops = some (t', (runMap key m ops).2)
    ∧ ∃ n' ≤ n + ops.length, Implements key t' (runMap key m ops).1 n'
  := by
  induction ops generalizing t m n with
  | nil => exact ⟨t, rfl, n, le_rfl, h⟩
  | cons op ops ih =>
    have hmono : Nat.log 2 (n + 1) ≤ Nat.log 2 (n + (op :: ops).length + 1) :=
      Nat.log_mono_right (by omega)
    have hfuel₁ : 2 * Nat.log 2 (n + 1) < fuel := by omega
    obtain ⟨t₁, heq, n₁, hn₁, h₁⟩ := step_implements hcmp h hfuel₁ hlegal.1
    have hmono₁ : Nat.log 2 (n₁ + ops.length + 1) ≤ Nat.log 2 (n + (op :: ops).length + 1) :=
      Nat.log_mono_right (by rw [List.length_cons]; omega)
    obtain ⟨t', hrun, n', hn', h'⟩ := ih h₁ (by omega) hlegal.2
    refine ⟨t', ?_, n', by rw [List.length_cons]; omega, h'⟩
    rw [runOps, heq]
    simp only [Option.bind_eq_bind, Option.bind_some, hrun]
    rfl

/-- From the empty tree every legal run does what it does on the empty map, and no loop takes
more rounds than `fuel`. -/
theorem runOps_rbRoot (hcmp : Compares key cmp cmpKey) (node : ν → RbNode ν)
    {ops : List (Op ν κ)} (hfuel : 2 * Nat.log 2 (ops.length + 1) < fuel)
    (hlegal : LegalRun key (fun _ => none) ops) :
  ∃ t' xs, runOps cmp cmpKey fuel (rbRoot node) ops
      = some (t', (runMap key (fun _ => none) ops).2)
    ∧ IsTree t' xs ∧ (xs.Pairwise fun x y => key x < key y)
    ∧ ∀ k x, (runMap key (fun _ => none) ops).1 k = some x ↔ x ∈ xs ∧ key x = k
  := by
  have hempty : Implements key (rbRoot node) (fun _ => none) 0 :=
    ⟨[], rbRoot_isTree node, List.Pairwise.nil, rfl, fun k x => ⟨nofun, fun h => nomatch h.1⟩⟩
  obtain ⟨t', heq, n', -, xs, htree, hsorted, -, hm⟩ :=
    runOps_implements hcmp hempty (by rwa [Nat.zero_add]) hlegal
  exact ⟨t', xs, heq, htree, hsorted, hm⟩

/-- Three nodes are added, one of them again, and one is erased. -/
theorem runOps_rbRoot_three :
  LegalRun id (fun _ => none) [.findAdd 2, .findAdd 1, .findAdd 3, .find 1, .erase 2, .find (2 : ℕ)]
    ∧ ∃ t' xs, runOps (fun x y : ℕ => (x : ℤ) - y) (fun (k y : ℕ) => (k : ℤ) - y) 8
      (rbRoot fun _ => ⟨none, .red, none, none⟩) [.findAdd 2, .findAdd 1, .findAdd 3, .find 1, .erase 2, .find 2]
        = some (t', [none, none, none, some 1, none, none])
      ∧ IsTree t' xs ∧ (xs.Pairwise fun x y => x < y)
      ∧ ∀ k x, (runMap id (fun _ => none)
        [.findAdd 2, .findAdd 1, .findAdd 3, .find 1, .erase 2, .find 2]).1 k = some x
          ↔ x ∈ xs ∧ x = k
  := by
  have hlegal : LegalRun id (fun _ => none)
      [.findAdd 2, .findAdd 1, .findAdd 3, .find 1, .erase 2, .find (2 : ℕ)] :=
    by decide
  have hcmp : Compares id (fun x y : ℕ => (x : ℤ) - y) (fun (k y : ℕ) => (k : ℤ) - y) := by
    constructor <;> intro x y <;> simp only [id] <;> omega
  exact ⟨hlegal, runOps_rbRoot hcmp _ (by decide) hlegal⟩

end Rbtree
