import TrainsOs.Lib.DList

/-!
# Singly linked lists

Nodes that carry a link to the next node, the last one linking to nothing. The links of all
nodes are kept in one map, and a list is entered through a head pointer held elsewhere.

`IsList next head xs` says that the list entered through `head` visits exactly the nodes
`xs`, in this order. A search finds the first node of a list with some property, and putting
a node in front of a list and deleting one from it change `xs` accordingly.
`Lists next heads xs` is a family of lists over one map of links, no node being on two of
them.
-/

namespace LinkedList

variable {ν : Type*}

/-- The list entered through `head` visits exactly the nodes `xs`, in this order. -/
def IsList (next : ν → Option ν) (head : Option ν) : List ν → Prop
  | [] => head = none
  | x :: xs => head = some x ∧ IsList next (next x) xs

/-- The first node with the property `p` of the list entered through a pointer, or `none`.
The search fails when it has not ended after `fuel` nodes. -/
def search (next : ν → Option ν) (p : ν → Bool) : ℕ → Option ν → Option (Option ν)
  | _, none => some none
  | 0, some _ => none
  | fuel + 1, some x => if p x then some (some x) else search next p fuel (next x)

section Operations

variable [DecidableEq ν]

/-- Putting the node `x` in front: the new links and the new head. -/
def prepend (next : ν → Option ν) (head : Option ν) (x : ν) : (ν → Option ν) × Option ν :=
  (Function.update next x head, some x)

/-- The first node from `tmp` on that links to `del` or to nothing. -/
def walk (next : ν → Option ν) (del : Option ν) : ℕ → ν → Option ν
  | 0, _ => none
  | fuel + 1, tmp =>
    match next tmp with
    | none => some tmp
    | some x => if some x = del then some tmp else walk next del fuel x

/-- Deleting the node `del`: the new links and the new head. There is no result when the walk
does not end after `fuel` nodes, or when a link of what is not a node is read. -/
def delete (fuel : ℕ) (next : ν → Option ν) (head del : Option ν) :
    Option ((ν → Option ν) × Option ν) :=
  if head = del then
    head.map fun x => (next, next x)
  else do
    let tmp ← head
    let tmp ← walk next del fuel tmp
    match next tmp with
    | none => some (next, head)
    | some _ => del.map fun x => (Function.update next tmp (next x), head)

end Operations

/-! ### One list -/

section OneList

variable {next next' : ν → Option ν} {head : Option ν} {xs : List ν} {x : ν}

/-- A list depends on the links of its own nodes only. -/
theorem IsList.congr (h : IsList next head xs) (heq : ∀ x ∈ xs, next' x = next x) :
  IsList next' head xs
  := by
  induction xs generalizing head with
  | nil => exact h
  | cons x xs ih =>
    use h.1
    rw [heq x List.mem_cons_self]
    apply ih h.2
    intro y hy
    apply heq y (List.mem_cons_of_mem x hy)

/-- Two lists entered through the same head visit the same nodes. -/
theorem IsList.unique {ys : List ν} (h : IsList next head xs) (h' : IsList next head ys) :
  xs = ys
  := by
  induction xs generalizing head ys with
  | nil =>
    cases ys with
    | nil => rfl
    | cons y ys => cases h.symm.trans h'.1
  | cons x xs ih =>
    cases ys with
    | nil => cases h'.symm.trans h.1
    | cons y ys =>
      obtain rfl := Option.some.inj (h.1.symm.trans h'.1)
      rw [ih h.2 h'.2]

theorem IsList.head_eq (h : IsList next head xs) :
  head = xs.head?
  := by
  cases xs with
  | nil => exact h
  | cons x xs => exact h.1

/-- What follows a node is the list entered through its link. -/
theorem IsList.rest {as bs : List ν} (h : IsList next head (as ++ x :: bs)) :
  IsList next (next x) bs
  := by
  induction as generalizing head with
  | nil => exact h.2
  | cons a as ih => exact ih h.2

/-- A list visits no node twice. -/
theorem IsList.nodup (h : IsList next head xs) :
  xs.Nodup
  := by
  induction xs generalizing head with
  | nil => exact List.nodup_nil
  | cons x xs ih =>
    apply List.nodup_cons.mpr
    constructor
    · intro hmem
      obtain ⟨as, bs, rfl⟩ := List.append_of_mem hmem
      have heq : as ++ x :: bs = bs := h.2.unique h.2.rest
      have hlen := congrArg List.length heq
      rw [List.length_append, List.length_cons] at hlen
      omega
    · apply ih h.2

/-- The search finds the first node with the property. -/
theorem IsList.search_eq (h : IsList next head xs) (p : ν → Bool) {fuel : ℕ}
    (hfuel : xs.length ≤ fuel) :
  search next p fuel head = some (xs.find? p)
  := by
  induction xs generalizing head fuel with
  | nil =>
    obtain rfl : head = none := h
    cases fuel <;> rfl
  | cons x xs ih =>
    obtain ⟨rfl, hxs⟩ := h
    cases fuel with
    | zero => cases hfuel
    | succ fuel =>
      rw [search, List.find?_cons]
      cases p x with
      | true => rfl
      | false => exact ih hxs (Nat.le_of_succ_le_succ hfuel)

variable [DecidableEq ν]

theorem IsList.prepend (h : IsList next head xs) (hx : x ∉ xs) :
  IsList (LinkedList.prepend next head x).1 (LinkedList.prepend next head x).2 (x :: xs)
  := by
  constructor
  · rfl
  · have hself : (LinkedList.prepend next head x).1 x = head := Function.update_self _ _ _
    rw [hself]
    apply h.congr
    intro y hy
    apply Function.update_of_ne
    rintro rfl
    exact hx hy

/-- The walk ends at the node in front of `x`, and linking it to what follows `x` takes `x`
off the list. -/
theorem IsList.walk_eq {y : ν} (h : IsList next head (y :: xs)) (hx : x ∈ xs) {fuel : ℕ}
    (hfuel : xs.length ≤ fuel) :
  ∃ tmp ∈ y :: xs, walk next (some x) fuel y = some tmp ∧ next tmp = some x
    ∧ IsList (Function.update next tmp (next x)) head (y :: xs.erase x)
  := by
  induction xs generalizing head y fuel with
  | nil => cases hx
  | cons z xs ih =>
    obtain ⟨hhead, hlist⟩ := h
    have hy : y ∉ z :: xs := (List.nodup_cons.mp (IsList.nodup ⟨hhead, hlist⟩)).1
    cases fuel with
    | zero => cases hfuel
    | succ fuel =>
      by_cases hz : z = x
      · subst hz
        refine ⟨y, List.mem_cons_self, ?_, hlist.1, hhead, ?_⟩
        · rw [walk, hlist.1]
          exact if_pos rfl
        · rw [Function.update_self, List.erase_cons_head]
          apply hlist.2.congr
          intro w hw
          apply Function.update_of_ne
          rintro rfl
          exact hy (List.mem_cons_of_mem z hw)
      · have hx : x ∈ xs := List.mem_of_ne_of_mem (Ne.symm hz) hx
        obtain ⟨tmp, hmem, hwalk, hnext, hrest⟩ := ih hlist hx (Nat.le_of_succ_le_succ hfuel)
        have hne : y ≠ tmp := by
          rintro rfl
          exact hy hmem
        refine ⟨tmp, List.mem_cons_of_mem y hmem, ?_, hnext, hhead, ?_⟩
        · rw [walk, hlist.1]
          simp only [Option.some.injEq, hz, if_false]
          exact hwalk
        · rw [Function.update_of_ne hne, List.erase_cons_tail (by simpa using hz)]
          exact hrest

/-- Deleting a node takes it off the list. -/
theorem IsList.delete (h : IsList next head xs) (hx : x ∈ xs) {fuel : ℕ}
    (hfuel : xs.length ≤ fuel) :
  ∃ next' head', LinkedList.delete fuel next head (some x) = some (next', head')
    ∧ IsList next' head' (xs.erase x) ∧ ∀ y ∉ xs, next' y = next y
  := by
  cases xs with
  | nil => cases hx
  | cons y xs =>
    obtain ⟨rfl, hlist⟩ := h
    by_cases hy : y = x
    · subst hy
      refine ⟨next, next y, ?_, ?_, fun _ _ => rfl⟩
      · exact if_pos rfl
      · rw [List.erase_cons_head]
        exact hlist
    · have hx : x ∈ xs := List.mem_of_ne_of_mem (Ne.symm hy) hx
      obtain ⟨tmp, hmem, hwalk, hnext, hrest⟩ :=
        IsList.walk_eq ⟨rfl, hlist⟩ hx (Nat.le_of_succ_le hfuel)
      use Function.update next tmp (next x), some y
      refine ⟨?_, ?_, ?_⟩
      · have hne : some y ≠ some x := fun heq => hy (Option.some.inj heq)
        simp only [LinkedList.delete, if_neg hne, Option.bind_eq_bind, Option.bind_some, hwalk,
          hnext, Option.map_some]
      · rw [List.erase_cons_tail (by simpa using hy)]
        exact hrest
      · intro z hz
        apply Function.update_of_ne
        rintro rfl
        exact hz hmem

end OneList

/-! ### Families of lists -/

/-- A family of lists over one map of links: the list entered through `heads i` visits
`xs i`, and no node is on two of the lists. -/
structure Lists {ι : Type*} (next : ν → Option ν) (heads : ι → Option ν) (xs : ι → List ν) :
    Prop where
  list : ∀ i, IsList next (heads i) (xs i)
  apart : ∀ {i j x}, x ∈ xs i → x ∈ xs j → i = j

variable {ι : Type*} {next next' : ν → Option ν} {heads : ι → Option ν} {xs : ι → List ν}

theorem Lists.empty (next : ν → Option ν) :
  Lists next (fun _ : ι => none) (fun _ => [])
  := by
  constructor
  · intro i
    rfl
  · intro i j x hx
    cases hx

/-- Two families entered through the same heads visit the same nodes. -/
theorem Lists.unique {ys : ι → List ν} (h : Lists next heads xs) (h' : Lists next heads ys) :
  xs = ys
  := by
  funext i
  apply (h.list i).unique (h'.list i)

variable [DecidableEq ι]

/-- Replacing one list of the family, when the links of the nodes of the others are kept. -/
theorem Lists.update (h : Lists next heads xs) {i : ι} {head : Option ν} {ys : List ν}
    (hlist : IsList next' head ys) (hys : ∀ y ∈ ys, ∀ j, j ≠ i → y ∉ xs j)
    (hframe : ∀ j, j ≠ i → ∀ y ∈ xs j, next' y = next y) :
  Lists next' (Function.update heads i head) (Function.update xs i ys)
  := by
  constructor
  · intro j
    by_cases hj : j = i
    · subst hj
      rw [Function.update_self, Function.update_self]
      exact hlist
    · rw [Function.update_of_ne hj, Function.update_of_ne hj]
      apply (h.list j).congr (hframe j hj)
  · intro j k y hj hk
    exact DList.apart_update (fun hj hk => h.apart hj hk) hys hj hk

variable [DecidableEq ν]

/-- Putting a node that is on no list in front of the list `i`. -/
theorem Lists.prepend (h : Lists next heads xs) (i : ι) {x : ν} (hx : ∀ j, x ∉ xs j) :
  Lists (LinkedList.prepend next (heads i) x).1
    (Function.update heads i (LinkedList.prepend next (heads i) x).2)
    (Function.update xs i (x :: xs i))
  := by
  apply h.update ((h.list i).prepend (hx i))
  · intro y hy j hj hmem
    rcases List.mem_cons.mp hy with rfl | hy
    · exact hx j hmem
    · exact hj (h.apart hmem hy)
  · intro j _ y hy
    apply Function.update_of_ne
    rintro rfl
    exact hx j hy

/-- Deleting a node of the list `i` from that list. -/
theorem Lists.delete (h : Lists next heads xs) {i : ι} {x : ν} (hx : x ∈ xs i) {fuel : ℕ}
    (hfuel : (xs i).length ≤ fuel) :
  ∃ next' head', LinkedList.delete fuel next (heads i) (some x) = some (next', head')
    ∧ Lists next' (Function.update heads i head') (Function.update xs i ((xs i).erase x))
  := by
  obtain ⟨next', head', hdelete, hlist, hframe⟩ := (h.list i).delete hx hfuel
  use next', head', hdelete
  apply h.update hlist
  · intro y hy j hj hmem
    exact hj (h.apart hmem (List.mem_of_mem_erase hy))
  · intro j hj y hy
    apply hframe
    intro hmem
    exact hj (h.apart hy hmem)

/-- The family `xs` after the node `x` has been moved from the list `i` to the front of the
list `j`. -/
def moved (xs : ι → List ν) (x : ν) (i j : ι) : ι → List ν :=
  Function.update (Function.update xs i ((xs i).erase x)) j (x :: xs j)

section Moved

variable {x y : ν} {i j l : ι}

theorem moved_target : moved xs x i j j = x :: xs j
  := Function.update_self _ _ _

theorem moved_source (hij : i ≠ j) :
  moved xs x i j i = (xs i).erase x
  := by
  unfold moved
  rw [Function.update_of_ne hij, Function.update_self]

theorem moved_other (hi : l ≠ i) (hj : l ≠ j) :
  moved xs x i j l = xs l
  := by
  unfold moved
  rw [Function.update_of_ne hj, Function.update_of_ne hi]

/-- The same nodes are on the lists. -/
theorem exists_mem_moved (hx : x ∈ xs i) (hij : i ≠ j) :
  (∃ l, y ∈ moved xs x i j l) ↔ ∃ l, y ∈ xs l
  := by
  constructor
  · rintro ⟨l, hy⟩
    by_cases hj : l = j
    · rw [hj, moved_target] at hy
      rcases List.mem_cons.mp hy with rfl | hy
      · exact ⟨i, hx⟩
      · exact ⟨j, hy⟩
    · by_cases hi : l = i
      · rw [hi, moved_source hij] at hy
        exact ⟨i, List.mem_of_mem_erase hy⟩
      · rw [moved_other hi hj] at hy
        exact ⟨l, hy⟩
  · rintro ⟨l, hy⟩
    by_cases hyx : y = x
    · use j
      rw [moved_target, hyx]
      apply List.mem_cons_self
    · use l
      by_cases hj : l = j
      · rw [hj] at hy
        rw [hj, moved_target]
        exact List.mem_cons_of_mem x hy
      · by_cases hi : l = i
        · rw [hi] at hy
          rw [hi, moved_source hij]
          exact (List.mem_erase_of_ne hyx).mpr hy
        · rwa [moved_other hi hj]

/-- Deleting a node of the list `i` and putting it in front of the list `j`. -/
theorem Lists.move (h : Lists next heads xs) (hx : x ∈ xs i) (hij : i ≠ j) {fuel : ℕ}
    (hfuel : (xs i).length ≤ fuel) :
  ∃ next' head', LinkedList.delete fuel next (heads i) (some x) = some (next', head')
    ∧ Lists (LinkedList.prepend next' (heads j) x).1
        (Function.update (Function.update heads i head') j
          (LinkedList.prepend next' (heads j) x).2)
        (moved xs x i j)
  := by
  obtain ⟨next', head', hdelete, hlists⟩ := h.delete hx hfuel
  use next', head', hdelete
  have hfree : ∀ l, x ∉ Function.update xs i ((xs i).erase x) l := by
    intro l hmem
    by_cases hl : l = i
    · subst hl
      rw [Function.update_self] at hmem
      exact (h.list l).nodup.not_mem_erase hmem
    · rw [Function.update_of_ne hl] at hmem
      exact hl (h.apart hmem hx)
  have hmoved := hlists.prepend j hfree
  rwa [Function.update_of_ne hij.symm, Function.update_of_ne hij.symm] at hmoved

end Moved

end LinkedList
