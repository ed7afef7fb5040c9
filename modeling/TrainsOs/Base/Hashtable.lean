import TrainsOs.Lib.LinkedList
import TrainsOs.Lib.Run
import Mathlib.Data.List.Perm.Subperm
import Mathlib.Logic.Equiv.Defs
import Mathlib.Algebra.Group.Nat.Defs

/-!
# The hash table macros

The macros of `hashtable.h`, with the list macros of `utlist.h` that they use. A pointer to an
element is its index in `objects`, and `none` is `NULL`.

The loop of `HT_INIT` starts at `capacity`, so that it also threads `objects[capacity]`, which
is not an element of the array: its key lies where `free_list` is, and its link lies behind
the table. A write of such a link is like any other one here, and a write of a key or a value
outside of the array is a failure.

A run performs `HT_INSERT_KV`, `HT_FIND` and `HT_DEL_BY_KEY`, and records the finite map that
the table stands for. The chains and the free list never partition the array, because of the
element behind it. As long as fewer than `capacity` pairs are stored and only keys that are
present are deleted, `HT_FIND` is the finite map nevertheless.
-/

namespace Hashtable

open LinkedList

/-- `HT_TYPE(ELEM_T, BUCKSZ, CAPACITY, HT_T)`, with the functions `HT_HASH_FUNC` and
`HT_CMP_FUNC`. -/
structure HtType (κ : Type) where
  hashFunc : κ → UInt64
  cmpFunc : κ → κ → Bool
  bucksz : ℕ
  capacity : ℕ
  bucksz_pos : 0 < bucksz
  capacity_pos : 0 < capacity
  cmp_equivalence : Equivalence fun k k' => cmpFunc k k' = true
  hash_eq : ∀ k k', cmpFunc k k' = true → hashFunc k = hashFunc k'

/-- The fields of a hash table, and those of its elements. -/
structure Ht {κ : Type} (t : HtType κ) (ν : Type) where
  buckets : Fin t.bucksz → Option ℕ
  freeList : Option ℕ
  key : ℕ → κ
  val : ℕ → ν
  htNext : ℕ → Option ℕ

variable {κ ν : Type} {t : HtType κ}

/-- `HT_IDX`. -/
def HtType.htIdx (t : HtType κ) (k : κ) : Fin t.bucksz :=
  ⟨(t.hashFunc k).toNat % t.bucksz, Nat.mod_lt _ t.bucksz_pos⟩

/-- `LL_PREPEND2((HT)->free_list, &(HT)->objects[i], ht_next)`. -/
def Ht.prependFree (ht : Ht t ν) (i : ℕ) : Ht t ν :=
  let (next, head) := prepend ht.htNext ht.freeList i
  { ht with htNext := next, freeList := head }

/-- The loop of `HT_INIT` from `i = n - 1` downwards. -/
def initLoop (ht : Ht t ν) : ℕ → Ht t ν
  | 0 => ht
  | n + 1 => initLoop (ht.prependFree n) n

/-- The number of rounds of this loop, which starts at `int i = (HT)->capacity`. -/
def HtType.rounds (t : HtType κ) : ℕ :=
  (Int.bmod t.capacity (2 ^ 32) + 1).toNat

/-- The table before this loop, where the bytes of an element that are zero make `zeroKey`
and `zeroVal`. -/
def Ht.zeroed (t : HtType κ) (zeroKey : κ) (zeroVal : ν) : Ht t ν where
  buckets _ := none
  freeList := none
  key _ := zeroKey
  val _ := zeroVal
  htNext _ := none

/-- `HT_INIT`. -/
def htInit (t : HtType κ) (zeroKey : κ) (zeroVal : ν) : Ht t ν :=
  initLoop (Ht.zeroed t zeroKey zeroVal) t.rounds

/-- The nodes that the list macros may visit; a list that has more of them is not one that
the macros have made. -/
def HtType.fuel (t : HtType κ) : ℕ :=
  t.capacity + 1

/-- `HT_GET_FREE`: the table, and `ELEM_PTR`. -/
def htGetFree (ht : Ht t ν) : Option (Ht t ν × Option ℕ) := do
  let elem := ht.freeList
  let (next, head) ← delete t.fuel ht.htNext ht.freeList elem
  some ({ ht with htNext := next, freeList := head }, elem)

/-- `HT_PUT_FREE`. -/
def htPutFree (ht : Ht t ν) (elem : Option ℕ) : Option (Ht t ν) :=
  elem.map ht.prependFree

/-- The assignments to `elem_ptr->key` and `elem_ptr->val`. -/
def Ht.setPair (ht : Ht t ν) (i : ℕ) (k : κ) (v : ν) : Option (Ht t ν) :=
  if i < t.capacity then
    some { ht with key := Function.update ht.key i k, val := Function.update ht.val i v }
  else
    none

/-- `HT_INSERT`. -/
def htInsert (ht : Ht t ν) (i : ℕ) : Ht t ν :=
  let hv := t.htIdx (ht.key i)
  let (next, head) := prepend ht.htNext (ht.buckets hv) i
  { ht with htNext := next, buckets := Function.update ht.buckets hv head }

/-- `HT_INSERT_KV`, where `some none` is a call of `assert_fail`. -/
def htInsertKv (ht : Ht t ν) (k : κ) (v : ν) : Option (Option (Ht t ν)) := do
  let (ht, elem) ← htGetFree ht
  match elem with
  | none => some none
  | some i => do
    let ht ← ht.setPair i k v
    some (some (htInsert ht i))

/-- `HT_FIND`: the value of `ELEM_PTR`. -/
def htFind (ht : Ht t ν) (k : κ) : Option (Option ℕ) :=
  search ht.htNext (fun i => t.cmpFunc (ht.key i) k) t.fuel (ht.buckets (t.htIdx k))

/-- `HT_DEL_BY_KEY`. -/
def htDelByKey (ht : Ht t ν) (k : κ) : Option (Ht t ν) := do
  let hv := t.htIdx k
  let elem ← htFind ht k
  if elem.isSome then
    let (next, head) ← delete t.fuel ht.htNext (ht.buckets hv) elem
    htPutFree { ht with htNext := next, buckets := Function.update ht.buckets hv head } elem
  else
    htPutFree ht elem

/-! ### Runs -/

/-- A use of the macros. -/
inductive Call (κ ν : Type)
  | insertKv (k : κ) (v : ν)
  | find (k : κ)
  | delByKey (k : κ)

/-- The table, the finite map that it stands for, and the number of its pairs. -/
structure State (t : HtType κ) (ν : Type) where
  ht : Ht t ν
  map : κ → Option ν
  size : ℕ

/-- One use of the macros; there is no next state after a failure or a call of
`assert_fail`. -/
def step (s : State t ν) : Call κ ν → Option (State t ν)
  | .insertKv k v => do
    let ht ← (htInsertKv s.ht k v).join
    some { ht := ht, map := fun k' => if t.cmpFunc k k' then some v else s.map k'
           size := s.size + 1 }
  | .find k => (htFind s.ht k).map fun _ => s
  | .delByKey k => do
    let ht ← htDelByKey s.ht k
    some { ht := ht, map := fun k' => if t.cmpFunc k k' then none else s.map k'
           size := if (s.map k).isSome then s.size - 1 else s.size }

/-- The state after `HT_INIT`. -/
def start (t : HtType κ) (zeroKey : κ) (zeroVal : ν) : State t ν where
  ht := htInit t zeroKey zeroVal
  map _ := none
  size := 0

/-- The heads of the free list and of the bucket chains. -/
def Ht.heads (ht : Ht t ν) : Option (Fin t.bucksz) → Option ℕ
  | none => ht.freeList
  | some hv => ht.buckets hv

/-- The free list and the bucket chains visit the elements `xs`, and partition the first
`n` elements. -/
structure Ht.Partition (ht : Ht t ν) (n : ℕ) (xs : Option (Fin t.bucksz) → List ℕ) : Prop where
  lists : Lists ht.htNext ht.heads xs
  cover : ∀ i, (∃ l, i ∈ xs l) ↔ i < n

/-- `HT_FIND` is the finite map. -/
def State.FindsMap (s : State t ν) : Prop :=
  ∀ k, ∃ elem, htFind s.ht k = some elem ∧ elem.map s.ht.val = s.map k
    ∧ ∀ i ∈ elem, t.cmpFunc (s.ht.key i) k = true

/-- The table is a finite map of at most `capacity` keys. -/
structure State.Refines (s : State t ν) : Prop where
  finds : s.FindsMap
  partition : ∃ xs, s.ht.Partition t.capacity xs
    ∧ ∀ k v, s.map k = none → (htInsertKv s.ht k v = some none ↔ xs none = [])

/-- A key is inserted when it is not present and fewer than `capacity` pairs are stored, and
deleted when it is present. -/
def Allowed (s : State t ν) : Call κ ν → Prop
  | .insertKv k _ => s.map k = none ∧ s.size < t.capacity
  | .find _ => True
  | .delByKey k => s.map k ≠ none

variable {ht ht' : Ht t ν} {n i : ℕ} {xs : Option (Fin t.bucksz) → List ℕ} {k : κ} {v : ν}
  {s s' : State t ν}

/-! ### The elements and their lists -/

/-- One element too many, or too few, is on the free list at first. -/
theorem HtType.rounds_ne (t : HtType κ) :
  t.rounds ≠ t.capacity
  := by
  have hpos := t.capacity_pos
  unfold HtType.rounds
  simp only [Int.bmod]
  split <;> omega

theorem HtType.rounds_le (t : HtType κ) :
  t.rounds ≤ t.fuel
  := by
  unfold HtType.rounds HtType.fuel
  simp only [Int.bmod]
  split <;> omega

theorem HtType.rounds_eq (h : t.capacity < 2 ^ 31) :
  t.rounds = t.capacity + 1
  := by
  unfold HtType.rounds
  simp only [Int.bmod]
  split <;> omega

/-- What `HT_PUT_FREE` and the loop of `HT_INIT` do to the heads. -/
theorem heads_free (next : ℕ → Option ℕ) (head : Option ℕ) :
  Ht.heads { ht with htNext := next, freeList := head } = Function.update ht.heads none head
  := by
  funext l
  cases l with
  | none => rw [Function.update_self]; rfl
  | some hv => rw [Function.update_of_ne (Option.some_ne_none hv)]; rfl

/-- What a new free list and a new chain do to the heads. -/
theorem heads_both (hv : Fin t.bucksz) (head free : Option ℕ) (key : ℕ → κ) (val : ℕ → ν)
    (next : ℕ → Option ℕ) :
  Ht.heads ⟨Function.update ht.buckets hv head, free, key, val, next⟩
    = Function.update (Function.update ht.heads none free) (some hv) head
  := by
  funext l
  cases l with
  | none => rfl
  | some b =>
    by_cases hb : b = hv
    · subst hb
      rw [Function.update_self]
      exact Function.update_self _ _ _
    · rw [Function.update_of_ne (fun heq => hb (Option.some.inj heq))]
      exact Function.update_of_ne hb _ _

theorem prependFree_lists (h : Lists ht.htNext ht.heads xs) (hi : ∀ l, i ∉ xs l) :
  Lists (ht.prependFree i).htNext (ht.prependFree i).heads (Function.update xs none (i :: xs none))
  := by
  have hlists := h.prepend none hi
  unfold Ht.prependFree
  rw [heads_free]
  exact hlists

/-- The loop of `HT_INIT` puts all elements below `n` in front. -/
theorem initLoop_lists {free : List ℕ}
    (h : Lists ht.htNext ht.heads (Function.update (fun _ => []) none free))
    (hfree : ∀ i ∈ free, n ≤ i) :
  Lists (initLoop ht n).htNext (initLoop ht n).heads
    (Function.update (fun _ => []) none (List.range n ++ free))
  := by
  induction n generalizing ht free with
  | zero => exact h
  | succ n ih =>
    have hn : ∀ l, n ∉ Function.update (fun _ : Option (Fin t.bucksz) => []) none free l := by
      intro l hmem
      cases l with
      | none =>
        rw [Function.update_self] at hmem
        exact absurd (hfree n hmem) (Nat.not_succ_le_self n)
      | some hv =>
        rw [Function.update_of_ne (Option.some_ne_none hv)] at hmem
        cases hmem
    have hlists := prependFree_lists h hn
    rw [Function.update_self, Function.update_idem] at hlists
    rw [initLoop, List.range_succ, List.append_assoc]
    apply ih hlists
    intro i hi
    rcases List.mem_cons.mp hi with rfl | hi
    · exact Nat.le_refl i
    · exact Nat.le_of_succ_le (hfree i hi)

/-- The free list after `HT_INIT`. -/
def initial (t : HtType κ) : Option (Fin t.bucksz) → List ℕ :=
  Function.update (fun _ => []) none (List.range t.rounds)

theorem mem_initial {l : Option (Fin t.bucksz)} :
  i ∈ initial t l ↔ l = none ∧ i < t.rounds
  := by
  unfold initial
  cases l with
  | none => simp
  | some hv => simp

theorem heads_zeroed (t : HtType κ) (zeroKey : κ) (zeroVal : ν) :
  (Ht.zeroed t zeroKey zeroVal).heads = fun _ => none
  := by
  funext l
  cases l <;> rfl

theorem htInit_partition (t : HtType κ) (zeroKey : κ) (zeroVal : ν) :
  (htInit t zeroKey zeroVal).Partition t.rounds (initial t)
  := by
  constructor
  · have hblank : Lists (Ht.zeroed t zeroKey zeroVal).htNext (Ht.zeroed t zeroKey zeroVal).heads
        (Function.update (fun _ => []) none []) := by
      rw [heads_zeroed, Function.update_eq_self_iff.mpr rfl]
      apply Lists.empty
    have hlists := initLoop_lists (n := t.rounds) hblank (by simp)
    rw [List.append_nil] at hlists
    exact hlists
  · intro i
    simp [mem_initial]

/-! ### What the macros do to a partition -/

namespace Ht.Partition

/-- There are not more elements on a list than in the array and behind it. -/
theorem length_le (h : ht.Partition n xs) (hn : n ≤ t.fuel) (l : Option (Fin t.bucksz)) :
  (xs l).length ≤ t.fuel
  := by
  have hsub : xs l ⊆ List.range n := by
    intro i hi
    apply List.mem_range.mpr
    apply (h.cover i).mp
    use l
  calc
    (xs l).length ≤ (List.range n).length :=
      ((h.lists.list l).nodup.subperm hsub).length_le
    _ = n := List.length_range
    _ ≤ t.fuel := hn

theorem htFind_eq (h : ht.Partition n xs) (hn : n ≤ t.fuel) (k : κ) :
  htFind ht k = some ((xs (some (t.htIdx k))).find? fun i => t.cmpFunc (ht.key i) k)
  := (h.lists.list (some (t.htIdx k))).search_eq _ (h.length_le hn _)

/-- The head of the free list. -/
theorem freeList_eq (h : ht.Partition n xs) :
  ht.freeList = (xs none).head?
  := (h.lists.list none).head_eq

/-- A `NULL` pointer is dereferenced when the free list is empty. -/
theorem htInsertKv_nil (h : ht.Partition n xs) (hfree : xs none = []) (k : κ) (v : ν) :
  htInsertKv ht k v = none
  := by
  have hhead := h.freeList_eq
  rw [hfree] at hhead
  unfold htInsertKv htGetFree
  rw [hhead]
  rfl

/-- Moving the first element of the free list to a chain. -/
theorem move_free (h : ht.Partition n xs) (hn : n ≤ t.fuel) {free : List ℕ}
    (hfree : xs none = i :: free) (hv : Fin t.bucksz) :
  ∃ next head, htGetFree ht = some ({ ht with htNext := next, freeList := head }, some i)
    ∧ ∀ key val, Ht.Partition (t := t) (ν := ν)
        ⟨Function.update ht.buckets hv (prepend next (ht.buckets hv) i).2, head, key, val,
          (prepend next (ht.buckets hv) i).1⟩ n (moved xs i none (some hv))
  := by
  have hi : i ∈ xs none := by
    rw [hfree]
    exact List.mem_cons_self
  have hhead : ht.freeList = some i := by
    rw [h.freeList_eq, hfree]
    rfl
  have hne : none ≠ some hv := (Option.some_ne_none hv).symm
  obtain ⟨next, head, hdelete, hlists⟩ := h.lists.move hi hne (h.length_le hn none)
  use next, head
  constructor
  · have hdelete : delete t.fuel ht.htNext (some i) (some i) = some (next, head) := by
      rw [← hdelete, ← hhead]
      rfl
    simp only [htGetFree, hhead, hdelete, Option.bind_eq_bind, Option.bind_some]
  · intro key val
    constructor
    · rw [heads_both]
      exact hlists
    · intro j
      rw [exists_mem_moved hi hne, h.cover]

/-- The key of an element behind the array is written. -/
theorem htInsertKv_outside (h : ht.Partition n xs) (hn : n ≤ t.fuel) {free : List ℕ}
    (hfree : xs none = i :: free) (hi : t.capacity ≤ i) (k : κ) (v : ν) :
  htInsertKv ht k v = none
  := by
  obtain ⟨next, head, hget, -⟩ := h.move_free hn hfree (t.htIdx k)
  simp only [htInsertKv, hget, Option.bind_eq_bind, Option.bind_some, Ht.setPair,
    if_neg (Nat.not_lt.mpr hi), Option.bind_none]

/-- The first element of the free list takes the pair, and is put in front of the chain of its
key. -/
theorem htInsertKv_cons (h : ht.Partition n xs) (hn : n ≤ t.fuel) {free : List ℕ}
    (hfree : xs none = i :: free) (hi : i < t.capacity) (k : κ) (v : ν) :
  ∃ ht', htInsertKv ht k v = some (some ht')
    ∧ ht'.Partition n (moved xs i none (some (t.htIdx k)))
    ∧ ht'.key = Function.update ht.key i k ∧ ht'.val = Function.update ht.val i v
  := by
  obtain ⟨next, head, hget, hpart⟩ := h.move_free hn hfree (t.htIdx k)
  refine ⟨_, ?_, hpart (Function.update ht.key i k) (Function.update ht.val i v), rfl, rfl⟩
  simp only [htInsertKv, hget, Option.bind_eq_bind, Option.bind_some, Ht.setPair, if_pos hi,
    htInsert, Function.update_self]

/-- A `NULL` pointer is put on the free list when there is no element with the key. -/
theorem htDelByKey_none (h : ht.Partition n xs) (hn : n ≤ t.fuel)
    (hfind : (xs (some (t.htIdx k))).find? (fun i => t.cmpFunc (ht.key i) k) = none) :
  htDelByKey ht k = none
  := by
  simp only [htDelByKey, h.htFind_eq hn, hfind, Option.bind_eq_bind, Option.bind_some,
    Option.isSome_none, Bool.false_eq_true, if_false]
  rfl

/-- The element with the key is moved from its chain to the free list. -/
theorem htDelByKey_some (h : ht.Partition n xs) (hn : n ≤ t.fuel)
    (hfind : (xs (some (t.htIdx k))).find? (fun i => t.cmpFunc (ht.key i) k) = some i) :
  ∃ ht', htDelByKey ht k = some ht'
    ∧ ht'.Partition n (moved xs i (some (t.htIdx k)) none)
    ∧ ht'.key = ht.key ∧ ht'.val = ht.val
  := by
  have hi : i ∈ xs (some (t.htIdx k)) := List.mem_of_find?_eq_some hfind
  have hne : some (t.htIdx k) ≠ none := Option.some_ne_none _
  obtain ⟨next, head, hdelete, hlists⟩ := h.lists.move hi hne (h.length_le hn _)
  have hdelete : delete t.fuel ht.htNext (ht.buckets (t.htIdx k)) (some i) = some (next, head) :=
    hdelete
  refine ⟨⟨Function.update ht.buckets (t.htIdx k) head, (prepend next ht.freeList i).2, ht.key,
    ht.val, (prepend next ht.freeList i).1⟩, ?_, ?_, rfl, rfl⟩
  · simp only [htDelByKey, h.htFind_eq hn, hfind, Option.bind_eq_bind, Option.bind_some,
      Option.isSome_some, if_true, hdelete]
    rfl
  · constructor
    · rw [heads_both, Function.update_comm hne.symm]
      exact hlists
    · intro j
      rw [exists_mem_moved hi hne, h.cover]

/-- The partition after a step. -/
theorem step (h : s.ht.Partition n xs) (hn : n ≤ t.fuel) {call : Call κ ν}
    (hstep : step s call = some s') :
  ∃ xs', s'.ht.Partition n xs'
  := by
  cases call with
  | insertKv k v =>
    obtain ⟨ht', hinsert, hs'⟩ := Option.bind_eq_some_iff.mp hstep
    obtain rfl := Option.some.inj hs'
    cases hfree : xs none with
    | nil =>
      rw [h.htInsertKv_nil hfree] at hinsert
      cases hinsert
    | cons i free =>
      by_cases hi : i < t.capacity
      · obtain ⟨ht', hsome, hpart, -, -⟩ := h.htInsertKv_cons hn hfree hi k v
        rw [hsome] at hinsert
        obtain rfl := Option.some.inj hinsert
        exact ⟨_, hpart⟩
      · rw [h.htInsertKv_outside hn hfree (Nat.not_lt.mp hi)] at hinsert
        cases hinsert
  | find k =>
    obtain ⟨elem, -, rfl⟩ := Option.map_eq_some_iff.mp hstep
    exact ⟨xs, h⟩
  | delByKey k =>
    obtain ⟨ht', hdelete, hs'⟩ := Option.bind_eq_some_iff.mp hstep
    obtain rfl := Option.some.inj hs'
    cases hfind : (xs (some (t.htIdx k))).find? fun i => t.cmpFunc (s.ht.key i) k with
    | none =>
      rw [h.htDelByKey_none hn hfind] at hdelete
      cases hdelete
    | some i =>
      obtain ⟨ht', hsome, hpart, -, -⟩ := h.htDelByKey_some hn hfind
      rw [hsome] at hdelete
      obtain rfl := Option.some.inj hdelete
      exact ⟨_, hpart⟩

/-- A table is partitioned in one way only. -/
theorem unique {m : ℕ} {ys : Option (Fin t.bucksz) → List ℕ} (h : ht.Partition n xs)
    (h' : ht.Partition m ys) :
  n = m
  := by
  have hxs : xs = ys := h.lists.unique h'.lists
  have hlt : ∀ i, i < n ↔ i < m := by
    intro i
    rw [← h.cover, ← h'.cover, hxs]
  apply Nat.le_antisymm
  · apply Nat.not_lt.mp
    intro hm
    exact absurd ((hlt m).mp hm) (Nat.lt_irrefl m)
  · apply Nat.not_lt.mp
    intro hn
    exact absurd ((hlt n).mpr hn) (Nat.lt_irrefl n)

end Ht.Partition

/-- After `HT_INIT` the macros partition the elements that its loop threads. -/
theorem run_partition (zeroKey : κ) (zeroVal : ν) {calls : List (Call κ ν)}
    (hrun : Run.run step (start t zeroKey zeroVal) calls = some s) :
  ∃ xs, s.ht.Partition t.rounds xs
  := by
  have hstep : ∀ (s : State t ν) call s', (∃ xs, s.ht.Partition t.rounds xs) →
      step s call = some s' → ∃ xs, s'.ht.Partition t.rounds xs := by
    intro s call s' hpart hstep
    obtain ⟨xs, hpart⟩ := hpart
    exact hpart.step t.rounds_le hstep
  have hstart : ∃ xs, (start t zeroKey zeroVal).ht.Partition t.rounds xs := by
    simp only [start]
    exact ⟨initial t, htInit_partition t zeroKey zeroVal⟩
  exact Run.run_preserves hstep hstart hrun

/-- The hash table never is a finite map of at most `capacity` keys. -/
theorem ht_never_refines (t : HtType κ) (zeroKey : κ) (zeroVal : ν) (calls : List (Call κ ν)) :
  ¬ ∃ s, Run.run step (start t zeroKey zeroVal) calls = some s ∧ s.Refines
  := by
  rintro ⟨s, hrun, hrefines⟩
  obtain ⟨xs, hpart⟩ := run_partition zeroKey zeroVal hrun
  obtain ⟨ys, hpart', -⟩ := hrefines.partition
  exact t.rounds_ne (hpart.unique hpart')

/-! ### A table of one object -/

/-- A table with one bucket and one object. -/
def oneObject : HtType UInt64 where
  hashFunc k := k
  cmpFunc k k' := k == k'
  bucksz := 1
  capacity := 1
  bucksz_pos := Nat.one_pos
  capacity_pos := Nat.one_pos
  cmp_equivalence := by
    simp only [beq_iff_eq]
    exact eq_equivalence
  hash_eq k k' h := by simpa using h

/-- When its object is in use, the table still has an element to give away, and writes outside
of the array. -/
theorem oneObject_not_refines :
  ∃ s : State oneObject UInt64, Run.run step (start oneObject 0 0) [.insertKv 7 1] = some s
    ∧ s.ht.freeList = some 1 ∧ htInsertKv s.ht 8 2 = none ∧ ¬ s.Refines
  := by
  have hrounds : oneObject.rounds = 2 := by
    apply HtType.rounds_eq
    exact Nat.one_lt_two_pow (by decide)
  have hpart := htInit_partition oneObject (0 : UInt64) (0 : UInt64)
  rw [hrounds] at hpart
  have hfree : initial oneObject none = [0, 1] := by
    unfold initial
    rw [Function.update_self, hrounds]
    rfl
  obtain ⟨ht', hinsert, hpart', -⟩ :=
    hpart.htInsertKv_cons (Nat.le_refl 2) hfree Nat.one_pos 7 1
  have hfree' : moved (initial oneObject) 0 none (some (oneObject.htIdx 7)) none = [1] := by
    rw [moved_source (Option.some_ne_none _).symm, hfree]
    rfl
  have hstep : step (start oneObject 0 0) (.insertKv 7 1)
      = some ⟨ht', fun k' => if oneObject.cmpFunc 7 k' then some 1 else none, 1⟩ := by
    simp only [step, start, hinsert, Option.bind_eq_bind, Option.join_some, Option.bind_some]
  refine ⟨_, (Run.run_cons hstep []).trans rfl, ?_, ?_, ?_⟩
  · rw [hpart'.freeList_eq, hfree']
    rfl
  · apply hpart'.htInsertKv_outside (Nat.le_refl 2) hfree' (Nat.le_refl 1)
  · rintro ⟨-, xs, hxs, -⟩
    have heq : 1 = 2 := hxs.unique hpart'
    cases heq

/-! ### What holds nevertheless -/

/-- No call of `HT_INSERT_KV` is refused. -/
theorem htInsertKv_not_refused (ht : Ht t ν) (k : κ) (v : ν) :
  htInsertKv ht k v ≠ some none
  := by
  intro h
  obtain ⟨⟨ht', elem⟩, hget, helem⟩ := Option.bind_eq_some_iff.mp h
  obtain ⟨⟨next, head⟩, hdelete, hpair⟩ := Option.bind_eq_some_iff.mp hget
  obtain ⟨-, rfl⟩ := Prod.mk.inj (Option.some.inj hpair)
  cases hfree : ht.freeList with
  | none =>
    rw [hfree] at hdelete
    cases hdelete
  | some i =>
    rw [hfree] at helem
    obtain ⟨ht', -, hsome⟩ := Option.bind_eq_some_iff.mp helem
    cases hsome

/-- The elements on the chains stand for the finite map, and have different keys. -/
structure Ht.Holds (ht : Ht t ν) (xs : Option (Fin t.bucksz) → List ℕ) (map : κ → Option ν) :
    Prop where
  find_eq : ∀ k, map k =
    ((xs (some (t.htIdx k))).find? fun i => t.cmpFunc (ht.key i) k).map ht.val
  different : ∀ hv, ∀ i ∈ xs (some hv), ∀ j ∈ xs (some hv),
    t.cmpFunc (ht.key i) (ht.key j) = true → i = j

/-- The invariant of the runs that stay within the capacity. Only when there are no other
elements left is the one behind the array in front of the free list. -/
structure State.Inv (s : State t ν) (xs : Option (Fin t.bucksz) → List ℕ) : Prop where
  partition : s.ht.Partition (t.capacity + 1) xs
  holds : s.ht.Holds xs s.map
  last : (xs none).getLast? = some t.capacity
  size_eq : s.size + (xs none).length = t.capacity + 1

/-- What is found depends on the elements of the chain only. -/
theorem find_congr {l : List ℕ} (hkey : ∀ i ∈ l, ht'.key i = ht.key i)
    (hval : ∀ i ∈ l, ht'.val i = ht.val i) (k : κ) :
  (l.find? fun i => t.cmpFunc (ht'.key i) k).map ht'.val
    = (l.find? fun i => t.cmpFunc (ht.key i) k).map ht.val
  := by
  induction l with
  | nil => rfl
  | cons i l ih =>
    rw [List.find?_cons, List.find?_cons, hkey i List.mem_cons_self]
    cases t.cmpFunc (ht.key i) k with
    | true => exact congrArg some (hval i List.mem_cons_self)
    | false =>
      apply ih
      · intro j hj
        apply hkey j (List.mem_cons_of_mem i hj)
      · intro j hj
        apply hval j (List.mem_cons_of_mem i hj)

/-- What is found has the key that is looked for. -/
theorem cmp_of_find {l : List ℕ}
    (h : l.find? (fun i => t.cmpFunc (ht.key i) k) = some i) :
  t.cmpFunc (ht.key i) k = true
  := List.find?_some (p := fun i => t.cmpFunc (ht.key i) k) h

/-- `HT_FIND` is the map that the elements on the chains stand for. -/
theorem findsMap (h : s.ht.Partition n xs) (hn : n ≤ t.fuel) (hholds : s.ht.Holds xs s.map) :
  s.FindsMap
  := by
  intro k
  refine ⟨_, h.htFind_eq hn k, (hholds.find_eq k).symm, ?_⟩
  intro i hi
  exact cmp_of_find hi

theorem cmp_trans {a b c : κ} (hab : t.cmpFunc a b = true) (hbc : t.cmpFunc b c = true) :
  t.cmpFunc a c = true
  := t.cmp_equivalence.trans hab hbc

theorem cmp_symm {a b : κ} (hab : t.cmpFunc a b = true) :
  t.cmpFunc b a = true
  := t.cmp_equivalence.symm hab

/-- Keys that are the same are in the same bucket. -/
theorem htIdx_eq {k k' : κ} (h : t.cmpFunc k k' = true) :
  t.htIdx k = t.htIdx k'
  := by
  unfold HtType.htIdx
  simp only [t.hash_eq k k' h]

/-- The map after a new key has been inserted. -/
theorem Ht.Holds.insert {map : κ → Option ν} (h : ht.Holds xs map) (hi : ∀ hv, i ∉ xs (some hv))
    (hk : map k = none) (hkey : ht'.key = Function.update ht.key i k)
    (hval : ht'.val = Function.update ht.val i v) :
  ht'.Holds (moved xs i none (some (t.htIdx k)))
    fun k' => if t.cmpFunc k k' then some v else map k'
  := by
  have hkeys : ∀ hv, ∀ j ∈ xs (some hv), ht'.key j = ht.key j := by
    intro hv j hj
    rw [hkey]
    apply Function.update_of_ne
    rintro rfl
    exact hi hv hj
  have hvals : ∀ hv, ∀ j ∈ xs (some hv), ht'.val j = ht.val j := by
    intro hv j hj
    rw [hval]
    apply Function.update_of_ne
    rintro rfl
    exact hi hv hj
  have hki : ht'.key i = k := by
    rw [hkey, Function.update_self]
  have hvi : ht'.val i = v := by
    rw [hval, Function.update_self]
  have habsent : ∀ j ∈ xs (some (t.htIdx k)), t.cmpFunc (ht.key j) k = false := by
    intro j hj
    have hnone := (h.find_eq k).symm.trans hk
    simpa using List.find?_eq_none.mp (Option.map_eq_none_iff.mp hnone) j hj
  have hother : ∀ {hv}, hv ≠ t.htIdx k →
      moved xs i none (some (t.htIdx k)) (some hv) = xs (some hv) := by
    intro hv hne
    exact moved_other (Option.some_ne_none hv) fun heq => hne (Option.some.inj heq)
  constructor
  · intro k'
    split
    next hcmp =>
      rw [← htIdx_eq hcmp, moved_target, List.find?_cons, hki, hcmp, Option.map_some, hvi]
    next hcmp =>
      have hcmp : t.cmpFunc k k' = false := by simpa using hcmp
      rw [h.find_eq k', ← find_congr (hkeys _) (hvals _)]
      by_cases hidx : t.htIdx k' = t.htIdx k
      · rw [hidx, moved_target, List.find?_cons, hki, hcmp]
      · rw [hother hidx]
  · intro hv a ha b hb hab
    by_cases hidx : hv = t.htIdx k
    · subst hidx
      rw [moved_target] at ha hb
      rcases List.mem_cons.mp ha with hai | hamem <;> rcases List.mem_cons.mp hb with hbi | hbmem
      · rw [hai, hbi]
      · rw [hai, hki, hkeys _ b hbmem] at hab
        exact absurd ((habsent b hbmem).symm.trans (cmp_symm hab)) Bool.false_ne_true
      · rw [hbi, hki, hkeys _ a hamem] at hab
        exact absurd ((habsent a hamem).symm.trans hab) Bool.false_ne_true
      · rw [hkeys _ a hamem, hkeys _ b hbmem] at hab
        exact h.different _ a hamem b hbmem hab
    · rw [hother hidx] at ha hb
      rw [hkeys _ a ha, hkeys _ b hb] at hab
      exact h.different _ a ha b hb hab

/-- The map after a key has been deleted. -/
theorem Ht.Holds.delete {map : κ → Option ν} (h : ht.Holds xs map)
    (hnodup : (xs (some (t.htIdx k))).Nodup)
    (hfind : (xs (some (t.htIdx k))).find? (fun i => t.cmpFunc (ht.key i) k) = some i)
    (hkey : ht'.key = ht.key) (hval : ht'.val = ht.val) :
  ht'.Holds (moved xs i (some (t.htIdx k)) none)
    fun k' => if t.cmpFunc k k' then none else map k'
  := by
  have hi : i ∈ xs (some (t.htIdx k)) := List.mem_of_find?_eq_some hfind
  have hik : t.cmpFunc (ht.key i) k = true := cmp_of_find hfind
  have hne : some (t.htIdx k) ≠ none := Option.some_ne_none _
  have hsub : ∀ hv, ∀ j ∈ moved xs i (some (t.htIdx k)) none (some hv), j ∈ xs (some hv) := by
    intro hv j hj
    by_cases hidx : some hv = some (t.htIdx k)
    · rw [hidx, moved_source hne] at hj
      rw [hidx]
      exact List.mem_of_mem_erase hj
    · rwa [moved_other hidx (Option.some_ne_none hv)] at hj
  constructor
  · intro k'
    rw [hkey, hval]
    split
    next hcmp =>
      rw [← htIdx_eq hcmp, moved_source hne, eq_comm, Option.map_eq_none_iff, List.find?_eq_none]
      intro j hj hjk
      obtain ⟨hji, hj⟩ := (hnodup.mem_erase_iff).mp hj
      apply hji
      exact h.different _ j hj i hi (cmp_trans hjk (cmp_symm (cmp_trans hik hcmp)))
    next hcmp =>
      rw [h.find_eq k']
      by_cases hidx : t.htIdx k' = t.htIdx k
      · rw [hidx, moved_source hne, hnodup.erase_eq_filter, List.find?_filter]
        congr 2
        funext j
        by_cases hj : j = i
        · have hfalse : t.cmpFunc (ht.key j) k' = false := by
            apply Bool.eq_false_iff.mpr
            intro hjk
            rw [hj] at hjk
            exact hcmp (cmp_trans (cmp_symm hik) hjk)
          simp [hfalse]
        · simp [hj]
      · rw [moved_other (fun heq => hidx (Option.some.inj heq)) (Option.some_ne_none _)]
  · intro hv a ha b hb hab
    rw [hkey] at hab
    exact h.different hv a (hsub hv a ha) b (hsub hv b hb) hab

namespace State.Inv

/-- The lists after `HT_INIT`. -/
theorem start (h : t.capacity < 2 ^ 31) (zeroKey : κ) (zeroVal : ν) :
  (Hashtable.start t zeroKey zeroVal).Inv (initial t)
  := by
  have hpart := htInit_partition t zeroKey zeroVal
  have hfree : initial t none = List.range (t.capacity + 1) := by
    unfold initial
    rw [Function.update_self, HtType.rounds_eq h]
  have hnone : ∀ hv, initial t (some hv) = [] := by
    intro hv
    apply List.eq_nil_iff_forall_not_mem.mpr
    intro i hi
    cases (mem_initial.mp hi).1
  rw [HtType.rounds_eq h] at hpart
  constructor
  · simp only [Hashtable.start]
    exact hpart
  · constructor
    · intro k
      rw [hnone]
      rfl
    · intro hv i hi
      rw [hnone] at hi
      cases hi
  · rw [hfree, List.range_succ, List.getLast?_concat]
  · rw [hfree, List.length_range]
    exact Nat.zero_add _

/-- An element on a chain is not on the free list. -/
theorem size_pos (h : s.Inv xs) {hv : Fin t.bucksz} (hi : i ∈ xs (some hv)) :
  0 < s.size
  := by
  have hnot : i ∉ xs none := fun hmem => Option.some_ne_none hv (h.partition.lists.apart hi hmem)
  have hnodup : (i :: xs none).Nodup :=
    List.nodup_cons.mpr ⟨hnot, (h.partition.lists.list none).nodup⟩
  have hsub : i :: xs none ⊆ List.range (t.capacity + 1) := by
    intro j hj
    apply List.mem_range.mpr
    apply (h.partition.cover j).mp
    rcases List.mem_cons.mp hj with rfl | hj
    · exact ⟨some hv, hi⟩
    · exact ⟨none, hj⟩
  have hle := (hnodup.subperm hsub).length_le
  have hsize := h.size_eq
  rw [List.length_cons, List.length_range] at hle
  omega

/-- As long as there is room, the first element of the free list is one of the array. -/
theorem free_cons (h : s.Inv xs) (hsize : s.size < t.capacity) :
  ∃ i j free, xs none = i :: j :: free ∧ i < t.capacity
  := by
  have hlength := h.size_eq
  have hlast := h.last
  have hnodup := (h.partition.lists.list none).nodup
  have hlt : ∀ i ∈ xs none, i < t.capacity + 1 := fun i hi => (h.partition.cover i).mp ⟨none, hi⟩
  cases hfree : xs none with
  | nil =>
    rw [hfree, List.length_nil] at hlength
    omega
  | cons i rest =>
    cases rest with
    | nil =>
      rw [hfree, List.length_singleton] at hlength
      omega
    | cons j free =>
      refine ⟨i, j, free, rfl, ?_⟩
      rw [hfree] at hlast hnodup hlt
      rw [List.getLast?_cons_cons] at hlast
      have hne : i ≠ t.capacity := by
        rintro rfl
        exact (List.nodup_cons.mp hnodup).1 (List.mem_of_getLast? hlast)
      have hi := hlt i List.mem_cons_self
      omega

theorem insertKv (h : s.Inv xs) (hk : s.map k = none) (hsize : s.size < t.capacity) (v : ν) :
  ∃ s', Hashtable.step s (.insertKv k v) = some s' ∧ ∃ xs', s'.Inv xs'
  := by
  obtain ⟨i, j, free, hfree, hi⟩ := h.free_cons hsize
  obtain ⟨ht', hinsert, hpart, hkey, hval⟩ :=
    h.partition.htInsertKv_cons (Nat.le_refl _) hfree hi k v
  have hmem : i ∈ xs none := by
    rw [hfree]
    exact List.mem_cons_self
  have hnot : ∀ hv, i ∉ xs (some hv) := by
    intro hv hmem'
    exact Option.some_ne_none hv (h.partition.lists.apart hmem' hmem)
  have hfree' : moved xs i none (some (t.htIdx k)) none = j :: free := by
    rw [moved_source (Option.some_ne_none _).symm, hfree, List.erase_cons_head]
  have hlast := h.last
  have hlength := h.size_eq
  rw [hfree] at hlast hlength
  use ⟨ht', fun k' => if t.cmpFunc k k' then some v else s.map k', s.size + 1⟩
  refine ⟨?_, moved xs i none (some (t.htIdx k)), hpart, h.holds.insert hnot hk hkey hval,
    ?_, ?_⟩
  · simp only [Hashtable.step, hinsert, Option.bind_eq_bind, Option.join_some, Option.bind_some]
  · rw [hfree', ← hlast, List.getLast?_cons_cons]
  · rw [hfree']
    rw [List.length_cons] at hlength
    change s.size + 1 + (j :: free).length = t.capacity + 1
    omega

theorem delByKey (h : s.Inv xs) (hk : s.map k ≠ none) :
  ∃ s', Hashtable.step s (.delByKey k) = some s' ∧ ∃ xs', s'.Inv xs'
  := by
  cases hfind : (xs (some (t.htIdx k))).find? fun i => t.cmpFunc (s.ht.key i) k with
  | none =>
    rw [h.holds.find_eq, hfind] at hk
    exact absurd rfl hk
  | some i =>
    obtain ⟨ht', hdelete, hpart, hkey, hval⟩ := h.partition.htDelByKey_some (Nat.le_refl _) hfind
    have hi : i ∈ xs (some (t.htIdx k)) := List.mem_of_find?_eq_some hfind
    have hpos := h.size_pos hi
    have hlength := h.size_eq
    have hisSome : (s.map k).isSome = true := Option.isSome_iff_ne_none.mpr hk
    use ⟨ht', fun k' => if t.cmpFunc k k' then none else s.map k', s.size - 1⟩
    refine ⟨?_, moved xs i (some (t.htIdx k)) none, hpart,
      h.holds.delete (h.partition.lists.list _).nodup hfind hkey hval, ?_, ?_⟩
    · simp only [Hashtable.step, hdelete, hisSome, if_true, Option.bind_eq_bind, Option.bind_some]
    · rw [moved_target, List.getLast?_cons, h.last]
      rfl
    · rw [moved_target, List.length_cons]
      change s.size - 1 + ((xs none).length + 1) = t.capacity + 1
      omega

theorem step (h : s.Inv xs) {call : Call κ ν} (hcall : Allowed s call) :
  ∃ s', Hashtable.step s call = some s' ∧ ∃ xs', s'.Inv xs'
  := by
  cases call with
  | insertKv k v => exact h.insertKv hcall.1 hcall.2 v
  | find k =>
    refine ⟨s, ?_, xs, h⟩
    rw [Hashtable.step, h.partition.htFind_eq (Nat.le_refl _)]
    rfl
  | delByKey k => exact h.delByKey hcall

end State.Inv

/-- The invariant of a run. -/
theorem run_inv (h : t.capacity < 2 ^ 31) (zeroKey : κ) (zeroVal : ν) {calls : List (Call κ ν)}
    (hcalls : Run.Meets step Allowed (start t zeroKey zeroVal) calls) :
  ∃ s, Run.run step (start t zeroKey zeroVal) calls = some s ∧ ∃ xs, s.Inv xs
  := by
  have hstep : ∀ (s : State t ν) call, (∃ xs, s.Inv xs) → Allowed s call →
      ∃ s', step s call = some s' ∧ ∃ xs, s'.Inv xs := by
    intro s call hinv hcall
    obtain ⟨xs, hinv⟩ := hinv
    exact hinv.step hcall
  exact Run.run_invariant hstep ⟨initial t, State.Inv.start h zeroKey zeroVal⟩ hcalls

/-- As long as at most `capacity` pairs are stored and only keys that are present are deleted,
`HT_FIND` is the finite map; no element of the array is lost; a further pair is written outside
of the array, and a key that is not present cannot be deleted. -/
theorem run_findsMap (h : t.capacity < 2 ^ 31) (zeroKey : κ) (zeroVal : ν)
    {calls : List (Call κ ν)}
    (hcalls : Run.Meets step Allowed (start t zeroKey zeroVal) calls) :
  ∃ s, Run.run step (start t zeroKey zeroVal) calls = some s ∧ s.FindsMap
    ∧ (∃ xs, s.ht.Partition (t.capacity + 1) xs)
    ∧ (s.size = t.capacity → ∀ k v, htInsertKv s.ht k v = none)
    ∧ ∀ k, s.map k = none → htDelByKey s.ht k = none
  := by
  obtain ⟨s, hrun, xs, hinv⟩ := run_inv h zeroKey zeroVal hcalls
  have hpart := hinv.partition
  refine ⟨s, hrun, findsMap hpart (Nat.le_refl _) hinv.holds, ⟨xs, hpart⟩, ?_, ?_⟩
  · intro hfull k v
    have hlength := hinv.size_eq
    have hlast := hinv.last
    cases hfree : xs none with
    | nil =>
      rw [hfree] at hlast
      cases hlast
    | cons i free =>
      cases free with
      | nil =>
        rw [hfree] at hlast
        obtain rfl : i = t.capacity := Option.some.inj hlast
        exact hpart.htInsertKv_outside (Nat.le_refl _) hfree (Nat.le_refl _) k v
      | cons j free =>
        rw [hfree, List.length_cons, List.length_cons] at hlength
        omega
  · intro k hk
    rw [hinv.holds.find_eq] at hk
    exact hpart.htDelByKey_none (Nat.le_refl _) (Option.map_eq_none_iff.mp hk)

end Hashtable
