import Mathlib.Data.List.Basic
import Mathlib.Data.List.Nodup
import Mathlib.Data.Set.Insert
import Mathlib.Logic.Function.Basic

/-!
# Intrusive doubly linked lists

The lists of `utlist.h`: a node carries its own `prev` and `next` fields, the head's
`prev` field points at the last node, and the last node's `next` field is `NULL`.
The fields of all nodes are kept in one pair of maps `Links ν`, and a list is entered
through a head pointer held elsewhere.

`IsList l head xs` says that the list entered through `head` visits exactly the nodes
`xs`, in this order. `append` and `delete` refine appending to and erasing from `xs`,
and leave the fields of every other node alone. `Forest l heads xs` is a family of such
lists over one pair of maps, no node being on two of them.
-/

namespace DList

/-- The `prev` and `next` fields of the nodes. -/
structure Links (ν : Type*) where
  prev : ν → Option ν
  next : ν → Option ν

variable {ν : Type*} [DecidableEq ν]

def Links.setPrev (l : Links ν) (x : ν) (y : Option ν) : Links ν :=
  { l with prev := Function.update l.prev x y }

def Links.setNext (l : Links ν) (x : ν) (y : Option ν) : Links ν :=
  { l with next := Function.update l.next x y }

/-- `DL_APPEND2(head, add)`: the new links and the new head, or `none` when a `NULL`
pointer is dereferenced. -/
def append (l : Links ν) (head : Option ν) (add : ν) : Option (Links ν × Option ν) :=
  match head with
  | some h => do
      let l := l.setPrev add (l.prev h)
      let tail ← l.prev h
      let l := l.setNext tail (some add)
      let l := l.setPrev h (some add)
      some (l.setNext add none, some h)
  | none => some ((l.setPrev add (some add)).setNext add none, some add)

/-- `DL_PREPEND2(head, add)`: the new links and the new head. -/
def prepend (l : Links ν) (head : Option ν) (add : ν) : Links ν × Option ν :=
  let l := l.setNext add head
  match head with
  | some h => ((l.setPrev add (l.prev h)).setPrev h (some add), some add)
  | none => (l.setPrev add (some add), some add)

/-- `DL_DELETE2(head, del)`: the new links and the new head, or `none` when one of its
assertions fails. -/
def delete (l : Links ν) (head : Option ν) (del : ν) : Option (Links ν × Option ν) := do
  let h ← head
  let p ← l.prev del
  if p = del then
    some (l, none)
  else if del = h then
    let n ← l.next del
    some (l.setPrev n (l.prev del), some n)
  else
    let l := l.setNext p (l.next del)
    match l.next del with
    | some n => some (l.setPrev n (l.prev del), some h)
    | none => some (l.setPrev h (l.prev del), some h)

/-- The node reached from `head` after `n` steps along the `next` fields. -/
def nth (l : Links ν) (head : Option ν) : ℕ → Option ν
  | 0 => head
  | n + 1 => (nth l head n).bind l.next

omit [DecidableEq ν] in
/-- Nothing comes after the end. -/
theorem nth_eq_none_of_le {l : Links ν} {head : Option ν} {n m : ℕ} (h : n ≤ m)
    (hn : nth l head n = none) :
  nth l head m = none
  := by
  induction h with
  | refl => exact hn
  | step _ ih => rw [nth, ih, Option.bind_none]

/-- The list entered through `head` visits exactly the nodes `xs`, in this order. -/
structure IsList (l : Links ν) (head : Option ν) (xs : List ν) : Prop where
  nodup : xs.Nodup
  head_eq : head = xs.head?
  next_eq : ∀ as x bs, xs = as ++ x :: bs → l.next x = bs.head?
  prev_eq : ∀ as x bs, xs = as ++ x :: bs → l.prev x = (as.getLast?).or xs.getLast?

omit [DecidableEq ν] in
theorem IsList.empty (l : Links ν) :
  IsList l none []
  := by
  constructor <;> simp

omit [DecidableEq ν] in
/-- A list depends on the fields of its own nodes only. -/
theorem IsList.congr {l l' : Links ν} {head : Option ν} {xs : List ν} (h : IsList l head xs)
    (hprev : ∀ x ∈ xs, l'.prev x = l.prev x) (hnext : ∀ x ∈ xs, l'.next x = l.next x) :
  IsList l' head xs
  := by
  constructor
  · exact h.nodup
  · exact h.head_eq
  · intro as x bs hx
    rw [hnext x (by simp [hx]), h.next_eq as x bs hx]
  · intro as x bs hx
    rw [hprev x (by simp [hx]), h.prev_eq as x bs hx]

omit [DecidableEq ν] in
theorem IsList.nth_eq {l : Links ν} {head : Option ν} {xs : List ν} (h : IsList l head xs)
    (n : ℕ) :
  nth l head n = xs[n]?
  := by
  induction n with
  | zero => rw [nth, h.head_eq, List.head?_eq_getElem?]
  | succ n ih =>
    rw [nth, ih]
    by_cases hn : n < xs.length
    · have hsplit : xs = xs.take n ++ xs[n] :: xs.drop (n + 1) := by simp
      rw [List.getElem?_eq_getElem hn, Option.bind_some, h.next_eq _ _ _ hsplit,
        List.head?_drop]
    · rw [List.getElem?_eq_none (by omega), List.getElem?_eq_none (by omega)]
      rfl

omit [DecidableEq ν] in
/-- The node after `as` in `xs ++ [a]` is a node of `xs` or the new node `a`. -/
theorem append_split {xs as bs : List ν} {x a : ν} (h : xs ++ [a] = as ++ x :: bs) :
  (as = xs ∧ x = a ∧ bs = []) ∨ ∃ bs', bs = bs' ++ [a] ∧ xs = as ++ x :: bs'
  := by
  rcases List.eq_nil_or_concat bs with rfl | ⟨bs', b, rfl⟩
  · left
    have := List.append_inj' h rfl
    simp_all
  · right
    rw [List.concat_eq_append, ← List.cons_append, ← List.append_assoc] at h
    obtain ⟨hxs, hab⟩ := List.append_inj' h rfl
    use bs'
    simp_all

/-- Appending a node that is not on the list refines appending to `xs`. -/
theorem IsList.append {l : Links ν} {head : Option ν} {xs : List ν} (h : IsList l head xs)
    {a : ν} (ha : a ∉ xs) :
  ∃ l', DList.append l head a = some (l', (xs ++ [a]).head?)
    ∧ IsList l' (xs ++ [a]).head? (xs ++ [a])
    ∧ ∀ y, y ∉ xs ++ [a] → l'.prev y = l.prev y ∧ l'.next y = l.next y
  := by
  cases xs with
  | nil =>
    rw [h.head_eq]
    use (l.setPrev a (some a)).setNext a none, rfl
    constructor
    · constructor
      · simp
      · rfl
      · intro as x bs hx
        obtain ⟨-, rfl, rfl⟩ | ⟨bs', -, hnil⟩ := append_split hx
        · simp [Links.setNext]
        · simp at hnil
      · intro as x bs hx
        obtain ⟨rfl, rfl, rfl⟩ | ⟨bs', -, hnil⟩ := append_split hx
        · simp [Links.setNext, Links.setPrev]
        · simp at hnil
    · intro y hy
      simp only [List.nil_append, List.mem_singleton] at hy
      simp [Links.setNext, Links.setPrev, hy]
  | cons c cs =>
    have hc : c ≠ a := by rintro rfl; simp at ha
    obtain ⟨t, ht⟩ : ∃ t, (c :: cs).getLast? = some t :=
      ⟨(c :: cs).getLast (by simp), List.getLast?_eq_some_getLast (by simp)⟩
    have hta : t ≠ a := by
      rintro rfl
      exact ha (List.mem_of_getLast? ht)
    have hprev : l.prev c = some t := by
      rw [h.prev_eq [] c cs rfl, ht]
      rfl
    rw [h.head_eq]
    use (((l.setPrev a (some t)).setNext t (some a)).setPrev c (some a)).setNext a none
    constructor
    · simp [DList.append, hprev, Links.setPrev, Links.setNext, hc]
    constructor
    · constructor
      · rw [List.nodup_append]
        exact ⟨h.nodup, by simp, by rintro x hx y hy rfl; simp_all⟩
      · rfl
      · intro as x bs hx
        obtain ⟨-, rfl, rfl⟩ | ⟨bs', rfl, hx'⟩ := append_split hx
        · simp [Links.setNext]
        · have hxa : x ≠ a := by rintro rfl; simp [hx'] at ha
          have hold := h.next_eq as x bs' hx'
          by_cases hxt : x = t
          · -- the old tail now points at the new node
            subst hxt
            have hbs' : bs' = [] := by
              by_contra hne
              have hlast : x ∈ bs' := by
                rw [hx', List.getLast?_append, List.getLast?_cons_of_ne_nil hne] at ht
                cases hl : bs'.getLast? with
                | none => simp_all
                | some z =>
                  rw [hl] at ht
                  obtain rfl : z = x := by simpa using ht
                  exact List.mem_of_getLast? hl
              have := h.nodup
              rw [hx', List.nodup_append, List.nodup_cons] at this
              exact this.2.1.1 hlast
            simp [hbs', Links.setNext, Links.setPrev, hta]
          · have hbs' : bs' ≠ [] := by
              rintro rfl
              rw [hx'] at ht
              simp at ht
              exact hxt ht
            simp only [Links.setNext, Links.setPrev, ne_eq, hxa, not_false_eq_true,
              Function.update_of_ne, hxt, hold]
            cases bs' with
            | nil => exact absurd rfl hbs'
            | cons b bs' => rfl
      · intro as x bs hx
        have hlast : (c :: (cs ++ [a])).getLast? = some a := by
          rw [← List.cons_append, List.getLast?_concat]
        obtain ⟨rfl, rfl, rfl⟩ | ⟨bs', rfl, hx'⟩ := append_split hx
        · simp [Links.setNext, Links.setPrev, ht, Ne.symm hc]
        · have hxa : x ≠ a := by rintro rfl; simp [hx'] at ha
          have hold := h.prev_eq as x bs' hx'
          cases as with
          | nil =>
            obtain rfl : c = x := by simpa using congrArg List.head? hx'
            simp [Links.setNext, Links.setPrev, hlast]
          | cons d ds =>
            have hxc : x ≠ c := by
              rintro rfl
              obtain rfl : x = d := by simpa using congrArg List.head? hx'
              have := h.nodup
              rw [hx'] at this
              simp at this
            have hsome : ((d :: ds).getLast?).isSome := by simp
            simp only [Links.setNext, Links.setPrev, ne_eq, hxc, not_false_eq_true,
              Function.update_of_ne, hxa, hold]
            rw [Option.or_of_isSome hsome, Option.or_of_isSome hsome]
    · intro y hy
      have hyc : y ≠ c := by rintro rfl; simp at hy
      have hya : y ≠ a := by rintro rfl; simp at hy
      have hyt : y ≠ t := by
        rintro rfl
        exact hy (List.mem_append_left _ (List.mem_of_getLast? ht))
      simp [Links.setNext, Links.setPrev, hyc, hya, hyt]

/-- Prepending a node that is not on the list refines prepending to `xs`. -/
theorem IsList.prepend {l : Links ν} {head : Option ν} {xs : List ν} (h : IsList l head xs)
    {a : ν} (ha : a ∉ xs) :
  (DList.prepend l head a).2 = some a
    ∧ IsList (DList.prepend l head a).1 (some a) (a :: xs)
    ∧ ∀ y, y ∉ a :: xs → (DList.prepend l head a).1.prev y = l.prev y
      ∧ (DList.prepend l head a).1.next y = l.next y
  := by
  cases xs with
  | nil =>
    rw [h.head_eq]
    refine ⟨rfl, ?_, ?_⟩
    · constructor
      · simp
      · rfl
      · intro as x bs hx
        obtain ⟨rfl, rfl, rfl⟩ | ⟨bs', -, hnil⟩ := append_split (List.nil_append [a] ▸ hx)
        · simp [DList.prepend, Links.setNext, Links.setPrev]
        · simp at hnil
      · intro as x bs hx
        obtain ⟨rfl, rfl, rfl⟩ | ⟨bs', -, hnil⟩ := append_split (List.nil_append [a] ▸ hx)
        · simp [DList.prepend, Links.setNext, Links.setPrev]
        · simp at hnil
    · intro y hy
      rw [List.mem_singleton] at hy
      simp [DList.prepend, Links.setNext, Links.setPrev, hy]
  | cons c cs =>
    have hc : c ≠ a := by rintro rfl; simp at ha
    have hprev := h.prev_eq [] c cs rfl
    rw [h.head_eq]
    refine ⟨rfl, ?_, ?_⟩
    · constructor
      · exact List.nodup_cons.mpr ⟨ha, h.nodup⟩
      · rfl
      · intro as x bs hx
        cases as with
        | nil =>
          obtain ⟨rfl, rfl⟩ : a = x ∧ c :: cs = bs := by simpa using hx
          simp [DList.prepend, Links.setNext, Links.setPrev]
        | cons b as =>
          obtain ⟨rfl, hsplit⟩ : a = b ∧ c :: cs = as ++ x :: bs := by simpa using hx
          have hxa : x ≠ a := by rintro rfl; simp [hsplit] at ha
          have hold := h.next_eq as x bs hsplit
          simp [DList.prepend, Links.setNext, Links.setPrev, hxa, hold]
      · intro as x bs hx
        cases as with
        | nil =>
          obtain ⟨rfl, rfl⟩ : a = x ∧ c :: cs = bs := by simpa using hx
          rw [List.getLast?_cons_of_ne_nil (List.cons_ne_nil _ _)]
          simp [DList.prepend, Links.setNext, Links.setPrev, Ne.symm hc, hprev]
        | cons b as =>
          obtain ⟨rfl, hsplit⟩ : a = b ∧ c :: cs = as ++ x :: bs := by simpa using hx
          have hxa : x ≠ a := by rintro rfl; simp [hsplit] at ha
          have hold := h.prev_eq as x bs hsplit
          cases as with
          | nil =>
            obtain ⟨rfl, rfl⟩ : c = x ∧ cs = bs := by simpa using hsplit
            simp [DList.prepend, Links.setNext, Links.setPrev]
          | cons d ds =>
            have hxc : x ≠ c := by
              rintro rfl
              obtain rfl : x = d := by simpa using congrArg List.head? hsplit
              have := h.nodup
              rw [hsplit] at this
              simp at this
            rw [List.getLast?_cons_of_ne_nil (List.cons_ne_nil _ _),
              List.getLast?_cons_of_ne_nil (List.cons_ne_nil _ _)]
            simp [DList.prepend, Links.setNext, Links.setPrev, hxa, hxc, hold]
    · intro y hy
      have hyc : y ≠ c := by rintro rfl; simp at hy
      have hya : y ≠ a := by rintro rfl; simp at hy
      simp [DList.prepend, Links.setNext, Links.setPrev, hyc, hya]

omit [DecidableEq ν] in
/-- A node of `as ++ bs` is a node of `as` or a node of `bs`. -/
theorem append_mem_split {as bs cs ds : List ν} {y : ν} (h : as ++ bs = cs ++ y :: ds) :
  (∃ as', as = cs ++ y :: as' ∧ ds = as' ++ bs) ∨ ∃ bs', bs = bs' ++ y :: ds ∧ cs = as ++ bs'
  := by
  rcases List.append_eq_append_iff.mp h with ⟨bs', hcs, hbs⟩ | ⟨c', has, hds⟩
  · right
    exact ⟨bs', hbs, hcs⟩
  · cases c' with
    | nil =>
      right
      use []
      simp_all
    | cons z as' =>
      left
      use as'
      simp_all

/-- The links after the inner node `x` between `as` and `bs` is taken out. -/
def unlink (l : Links ν) (p h x : ν) : Links ν :=
  match l.next x with
  | some n => (l.setNext p (l.next x)).setPrev n (some p)
  | none => (l.setNext p (l.next x)).setPrev h (some p)

/-- Taking out a node that is not the head. -/
theorem IsList.unlink {l : Links ν} {head : Option ν} {c x : ν} {as bs : List ν}
    (h : IsList l head (c :: as ++ x :: bs)) {p : ν} (hp : (c :: as).getLast? = some p) :
  IsList (unlink l p c x) (some c) (c :: as ++ bs)
  := by
  have hnd := h.nodup
  have hnext := h.next_eq (c :: as) x bs rfl
  have hmem : p ∈ c :: as := List.mem_of_getLast? hp
  rw [List.nodup_append] at hnd
  obtain ⟨hndas, hndbs, hdisj⟩ := hnd
  rw [List.nodup_cons] at hndbs
  constructor
  · rw [List.nodup_append]
    exact ⟨hndas, hndbs.2, fun a ha b hb => hdisj a ha b (List.mem_cons_of_mem _ hb)⟩
  · rfl
  · intro cs y ds hy
    have hnp : (DList.unlink l p c x).next = Function.update l.next p bs.head? := by
      unfold DList.unlink
      rw [hnext]
      cases bs.head? <;> rfl
    rw [hnp]
    obtain ⟨as', has, rfl⟩ | ⟨bs', rfl, rfl⟩ := append_mem_split hy
    · by_cases hyp : y = p
      · -- `y` is the last node before `x`, so nothing of `as` follows it
        subst hyp
        have has' : as' = [] := by
          by_contra hne
          rw [has, List.getLast?_append_of_ne_nil _ (by simp),
            List.getLast?_cons_of_ne_nil hne] at hp
          rw [has, List.nodup_append, List.nodup_cons] at hndas
          exact hndas.2.1.1 (List.mem_of_getLast? hp)
        simp [has']
      · have hne : as' ≠ [] := by
          rintro rfl
          rw [has] at hp
          simp at hp
          exact hyp hp
        rw [Function.update_of_ne hyp]
        rw [h.next_eq cs y (as' ++ x :: bs) (by rw [has]; simp)]
        cases as' with
        | nil => exact absurd rfl hne
        | cons b bs' => rfl
    · have hyp : y ≠ p := by
        rintro rfl
        exact hdisj y hmem y (by simp) rfl
      rw [Function.update_of_ne hyp]
      apply h.next_eq (c :: as ++ x :: bs')
      simp
  · intro cs y ds hy
    have hlast : ∀ b bs', bs = b :: bs' →
        (c :: as ++ x :: bs).getLast? = (c :: as ++ bs).getLast? := by
      rintro b bs' rfl
      rw [List.getLast?_append_of_ne_nil _ (by simp), List.getLast?_append_of_ne_nil _ (by simp),
        List.getLast?_cons_of_ne_nil (by simp)]
    cases bs with
    | nil =>
      have hpp : (DList.unlink l p c x).prev = Function.update l.prev c (some p) := by
        unfold DList.unlink
        rw [hnext]
        rfl
      rw [hpp, List.append_nil, hp]
      rw [List.append_nil] at hy
      by_cases hyc : y = c
      · subst hyc
        cases cs with
        | nil => simp
        | cons d cs =>
          obtain rfl : y = d := by simpa using congrArg List.head? hy
          rw [hy] at hndas
          simp at hndas
      · rw [Function.update_of_ne hyc,
          h.prev_eq cs y (ds ++ [x]) (by rw [hy]; simp)]
        cases cs with
        | nil => exact absurd (by simpa using (congrArg List.head? hy).symm) hyc
        | cons d cs => rw [Option.or_of_isSome (by simp), Option.or_of_isSome (by simp)]
    | cons b bs =>
      have hpp : (DList.unlink l p c x).prev = Function.update l.prev b (some p) := by
        unfold DList.unlink
        rw [hnext]
        rfl
      rw [hpp, ← hlast b bs rfl]
      obtain ⟨as', has, rfl⟩ | ⟨bs', hbs, rfl⟩ := append_mem_split hy
      · have hyb : y ≠ b := by
          rintro rfl
          exact hdisj y (by simp [has]) y (by simp) rfl
        rw [Function.update_of_ne hyb]
        apply h.prev_eq cs y (as' ++ x :: b :: bs)
        rw [has]
        simp
      · cases bs' with
        | nil =>
          obtain ⟨rfl, rfl⟩ : b = y ∧ bs = ds := by simpa using hbs
          simp [hp]
        | cons d bs' =>
          obtain ⟨rfl, rfl⟩ : b = d ∧ bs = bs' ++ y :: ds := by simpa using hbs
          have hyb : y ≠ b := by
            rintro rfl
            simp at hndbs
          rw [Function.update_of_ne hyb,
            h.prev_eq (c :: as ++ x :: b :: bs') y ds (by simp),
            List.getLast?_append_of_ne_nil _ (by simp), List.getLast?_cons_of_ne_nil (by simp),
            Option.or_of_isSome (by simp), Option.or_of_isSome (by simp),
            List.getLast?_append_of_ne_nil (c :: as) (List.cons_ne_nil b bs')]

/-- Taking out the head of a list with more than one node. -/
theorem IsList.behead {l : Links ν} {head : Option ν} {x b : ν} {bs : List ν}
    (h : IsList l head (x :: b :: bs)) :
  IsList (l.setPrev b (l.prev x)) (some b) (b :: bs)
  := by
  have hprev := h.prev_eq [] x (b :: bs) rfl
  have hnd := h.nodup
  have hlast : (x :: b :: bs).getLast? = (b :: bs).getLast? :=
    List.getLast?_cons_of_ne_nil (by simp)
  rw [hlast] at hprev
  constructor
  · exact (List.nodup_cons.mp hnd).2
  · rfl
  · intro cs y ds hy
    apply h.next_eq (x :: cs)
    rw [hy]
    rfl
  · intro cs y ds hy
    cases cs with
    | nil =>
      obtain ⟨rfl, rfl⟩ : b = y ∧ bs = ds := by simpa using hy
      simp [Links.setPrev, hprev]
    | cons d cs =>
      obtain ⟨rfl, rfl⟩ : b = d ∧ bs = cs ++ y :: ds := by simpa using hy
      have hyb : y ≠ b := by rintro rfl; simp at hnd
      simp only [Links.setPrev, ne_eq, hyb, not_false_eq_true, Function.update_of_ne]
      rw [h.prev_eq (x :: b :: cs) y ds rfl, List.getLast?_cons_of_ne_nil (by simp),
        Option.or_of_isSome (by simp), Option.or_of_isSome (by simp)]

/-- Deleting a node of the list refines erasing it from `xs`. -/
theorem IsList.delete {l : Links ν} {head : Option ν} {xs : List ν} (h : IsList l head xs)
    {x : ν} (hx : x ∈ xs) :
  ∃ l', DList.delete l head x = some (l', (xs.erase x).head?)
    ∧ IsList l' (xs.erase x).head? (xs.erase x)
    ∧ ∀ y, y ∉ xs → l'.prev y = l.prev y ∧ l'.next y = l.next y
  := by
  obtain ⟨as, bs, rfl⟩ := List.append_of_mem hx
  have hnd := h.nodup
  have hxas : x ∉ as := fun hmem => by
    rw [List.nodup_append] at hnd
    exact hnd.2.2 x hmem x (by simp) rfl
  have hprev := h.prev_eq as x bs rfl
  have hnext := h.next_eq as x bs rfl
  rw [List.erase_append_right _ hxas, List.erase_cons_head, h.head_eq]
  cases as with
  | nil =>
    cases bs with
    | nil =>
      use l
      constructor
      · simp [DList.delete, hprev]
      · exact ⟨IsList.empty l, fun y hy => ⟨rfl, rfl⟩⟩
    | cons b bs =>
      have hpx : l.prev x ≠ some x := by
        rw [hprev]
        intro hlast
        have hmem : x ∈ b :: bs := by
          apply List.mem_of_getLast?
          rw [← hlast]
          simp
        exact (List.nodup_cons.mp hnd).1 hmem
      obtain ⟨p, hp⟩ : ∃ p, l.prev x = some p := by
        rw [hprev]
        exact Option.isSome_iff_exists.mp (by simp)
      use l.setPrev b (l.prev x)
      constructor
      · rw [hp] at hpx
        have hpx' : p ≠ x := fun h => hpx (by rw [h])
        simp [DList.delete, hp, hpx', hnext]
      constructor
      · exact h.behead
      · intro y hy
        have hyb : y ≠ b := by rintro rfl; simp at hy
        simp [Links.setPrev, hyb]
  | cons c as =>
    obtain ⟨p, hp⟩ : ∃ p, (c :: as).getLast? = some p := Option.isSome_iff_exists.mp (by simp)
    have hmem : p ∈ c :: as := List.mem_of_getLast? hp
    have hpx : p ≠ x := by rintro rfl; exact hxas hmem
    have hxc : x ≠ c := by rintro rfl; simp at hxas
    rw [hp] at hprev
    use DList.unlink l p c x
    constructor
    · simp only [DList.delete, List.cons_append, List.head?_cons, Option.bind_eq_bind,
        Option.bind_some, hprev, Option.some_or, hpx, hxc, if_false, DList.unlink]
      have hupd : (l.setNext p (l.next x)).next x = l.next x := by
        simp [Links.setNext, Ne.symm hpx]
      rw [hupd]
      cases hn : l.next x <;> simp [Links.setNext, hprev]
    constructor
    · exact h.unlink hp
    · intro y hy
      have hyp : y ≠ p := by
        rintro rfl
        exact hy (List.mem_append_left _ hmem)
      have hyc : y ≠ c := by rintro rfl; simp at hy
      unfold DList.unlink
      rw [hnext]
      cases bs with
      | nil => simp [Links.setNext, Links.setPrev, hyp, hyc]
      | cons b bs =>
        have hyb : y ≠ b := by rintro rfl; simp at hy
        simp [Links.setNext, Links.setPrev, hyp, hyb]

/-! ### Families of lists -/

/-- A family of lists over one pair of maps: the list entered through `heads i` visits
`xs i`, and no node is on two of the lists. -/
structure Forest {ι : Type*} (l : Links ν) (heads : ι → Option ν) (xs : ι → List ν) : Prop where
  list : ∀ i, IsList l (heads i) (xs i)
  apart : ∀ {i j x}, x ∈ xs i → x ∈ xs j → i = j

variable {ι : Type*} [DecidableEq ι] {l : Links ν} {heads : ι → Option ν} {xs : ι → List ν}

omit [DecidableEq ν] [DecidableEq ι] in
theorem Forest.empty (l : Links ν) :
  Forest l (fun _ : ι => none) (fun _ => [])
  := by
  constructor
  · intro i
    exact IsList.empty l
  · intro i j x hx
    cases hx

omit [DecidableEq ν] [DecidableEq ι] in
/-- A family depends on the fields of its own nodes only. -/
theorem Forest.congr {l' : Links ν} (h : Forest l heads xs)
    (hframe : ∀ i, ∀ x ∈ xs i, l'.prev x = l.prev x ∧ l'.next x = l.next x) :
  Forest l' heads xs
  := by
  constructor
  · intro i
    exact (h.list i).congr (fun x hx => (hframe i x hx).1) fun x hx => (hframe i x hx).2
  · exact h.apart

omit [DecidableEq ν] in
/-- Lists without common nodes still have none when one of them is replaced. -/
theorem apart_update (h : ∀ {i j x}, x ∈ xs i → x ∈ xs j → i = j) {i j k : ι} {ys : List ν} {y : ν}
    (hys : ∀ y ∈ ys, ∀ j, j ≠ i → y ∉ xs j) (hj : y ∈ Function.update xs i ys j)
    (hk : y ∈ Function.update xs i ys k) :
  j = k
  := by
  by_cases hji : j = i <;> by_cases hki : k = i
  · rw [hji, hki]
  · subst hji
    rw [Function.update_self] at hj
    rw [Function.update_of_ne hki] at hk
    exact absurd hk (hys y hj k hki)
  · subst hki
    rw [Function.update_self] at hk
    rw [Function.update_of_ne hji] at hj
    exact absurd hj (hys y hk j hji)
  · rw [Function.update_of_ne hji] at hj
    rw [Function.update_of_ne hki] at hk
    exact h hj hk

omit [DecidableEq ν] in
/-- Replacing one list of the family by a list over new links, when the links of the
nodes of the other lists are kept. -/
theorem Forest.update (h : Forest l heads xs) {i : ι} {l' : Links ν} {ys : List ν}
    (hlist : IsList l' ys.head? ys) (hys : ∀ y ∈ ys, ∀ j, j ≠ i → y ∉ xs j)
    (hframe : ∀ j, j ≠ i → ∀ y ∈ xs j, l'.prev y = l.prev y ∧ l'.next y = l.next y) :
  Forest l' (Function.update heads i ys.head?) (Function.update xs i ys)
  := by
  constructor
  · intro j
    by_cases hj : j = i
    · subst hj
      simpa using hlist
    · simp only [ne_eq, hj, not_false_eq_true, Function.update_of_ne]
      exact (h.list j).congr (fun y hy => (hframe j hj y hy).1) (fun y hy => (hframe j hj y hy).2)
  · intro j k y hj hk
    exact apart_update (fun hj hk => h.apart hj hk) hys hj hk

/-- Appending a node that is on no list to the list `i`. -/
theorem Forest.append (h : Forest l heads xs) (i : ι) {a : ν} (ha : ∀ j, a ∉ xs j) :
  ∃ l', DList.append l (heads i) a = some (l', (xs i ++ [a]).head?)
    ∧ Forest l' (Function.update heads i (xs i ++ [a]).head?)
        (Function.update xs i (xs i ++ [a]))
    ∧ ∀ y, y ∉ xs i ++ [a] → l'.prev y = l.prev y ∧ l'.next y = l.next y
  := by
  obtain ⟨l', happ, hlist, hframe⟩ := (h.list i).append (ha i)
  use l', happ
  constructor
  · apply h.update hlist
    · intro y hy j hj hmem
      rcases List.mem_append.mp hy with hy | hy
      · exact hj (h.apart hmem hy)
      · rw [List.mem_singleton.mp hy] at hmem
        exact ha j hmem
    · intro j hj y hy
      apply hframe
      intro hmem
      rcases List.mem_append.mp hmem with hmem | hmem
      · exact hj (h.apart hy hmem)
      · rw [List.mem_singleton.mp hmem] at hy
        exact ha j hy
  · exact hframe

/-- Prepending a node that is on no list to the list `i`. -/
theorem Forest.prepend (h : Forest l heads xs) (i : ι) {a : ν} (ha : ∀ j, a ∉ xs j) :
  (DList.prepend l (heads i) a).2 = some a
    ∧ Forest (DList.prepend l (heads i) a).1 (Function.update heads i (some a))
        (Function.update xs i (a :: xs i))
  := by
  obtain ⟨hhead, hlist, hframe⟩ := (h.list i).prepend (ha i)
  use hhead
  have hlist : IsList (DList.prepend l (heads i) a).1 (a :: xs i).head? (a :: xs i) := hlist
  apply h.update hlist
  · intro y hy j hj hmem
    obtain rfl | hy := List.mem_cons.mp hy
    · exact ha j hmem
    · exact hj (h.apart hmem hy)
  · intro j hj y hy
    apply hframe
    intro hmem
    obtain rfl | hmem := List.mem_cons.mp hmem
    · exact ha j hy
    · exact hj (h.apart hy hmem)

/-- Deleting a node of the list `i` from that list. -/
theorem Forest.delete (h : Forest l heads xs) {i : ι} {x : ν} (hx : x ∈ xs i) :
  ∃ l', DList.delete l (heads i) x = some (l', ((xs i).erase x).head?)
    ∧ Forest l' (Function.update heads i ((xs i).erase x).head?)
        (Function.update xs i ((xs i).erase x))
    ∧ ∀ y, y ∉ xs i → l'.prev y = l.prev y ∧ l'.next y = l.next y
  := by
  obtain ⟨l', hdel, hlist, hframe⟩ := (h.list i).delete hx
  use l', hdel
  constructor
  · apply h.update hlist
    · intro y hy j hj hmem
      exact hj (h.apart hmem (List.mem_of_mem_erase hy))
    · intro j hj y hy
      apply hframe
      intro hmem
      exact hj (h.apart hy hmem)
  · exact hframe

/-! ### Nodes that point to nodes

What the two operations keep when nothing is known about the order of the nodes. -/

/-- The fields `f` of the nodes in `s` point to nodes in `t`. -/
def Into (f : ν → Option ν) (s t : Set ν) : Prop :=
  ∀ x ∈ s, ∀ y ∈ f x, y ∈ t

omit [DecidableEq ν] in
theorem Into.mono {f : ν → Option ν} {s t u : Set ν} (h : Into f s t) (ht : t ⊆ u) :
  Into f s u
  := fun x hx y hy => ht (h x hx y hy)

theorem Into.update {f : ν → Option ν} {s t : Set ν} (h : Into f s t) (x : ν) {v : Option ν}
    (hv : ∀ y ∈ v, y ∈ t) :
  Into (Function.update f x v) s t
  := by
  intro z hz
  rw [Function.update_apply]
  split
  · exact hv
  · exact h z hz

/-- The field that is set belongs to a node that need not be in `s`. -/
theorem Into.update_insert {f : ν → Option ν} {s t : Set ν} (h : Into f s t) (x : ν) {v : Option ν}
    (hv : ∀ y ∈ v, y ∈ t) :
  Into (Function.update f x v) (insert x s) t
  := by
  intro z hz
  rw [Function.update_apply]
  split
  · exact hv
  · rename_i hne
    exact h z (hz.resolve_left hne)

/-- The nodes in `s` point to each other only. -/
structure Closed (l : Links ν) (s : Set ν) : Prop where
  prev : Into l.prev s s
  next : Into l.next s s

theorem Closed.append {l : Links ν} {s : Set ν} (h : Closed l s) {head : Option ν}
    (hhead : ∀ y ∈ head, y ∈ s) {add : ν} {r : Links ν × Option ν}
    (happ : append l head add = some r) :
  Closed r.1 (insert add s) ∧ ∀ y ∈ r.2, y ∈ insert add s
  := by
  have hadd : ∀ y ∈ some add, y ∈ insert add s := by
    rintro y ⟨⟩
    exact Set.mem_insert add s
  have hmono : s ⊆ insert add s := Set.subset_insert add s
  have hnone : ∀ y ∈ (none : Option ν), y ∈ insert add s := fun y hy => nomatch hy
  cases head with
  | none =>
    rw [← Option.some.inj happ]
    exact ⟨⟨(h.prev.mono hmono).update_insert add hadd,
      (h.next.mono hmono).update_insert add hnone⟩, hadd⟩
  | some hd =>
    have hhd : hd ∈ s := hhead hd rfl
    simp only [DList.append, Option.bind_eq_bind, Option.bind_eq_some_iff] at happ
    obtain ⟨tail, htail, happ⟩ := happ
    rw [← Option.some.inj happ]
    have hprev : ∀ y ∈ l.prev hd, y ∈ insert add s := fun y hy => hmono (h.prev hd hhd y hy)
    refine ⟨⟨?_, ?_⟩, ?_⟩
    · exact ((h.prev.mono hmono).update_insert add hprev).update hd hadd
    · exact ((h.next.mono hmono).update tail hadd).update_insert add hnone
    · rintro y ⟨⟩
      exact hmono hhd

theorem Closed.delete {l : Links ν} {s : Set ν} (h : Closed l s) {head : Option ν}
    (hhead : ∀ y ∈ head, y ∈ s) {del : ν} (hdel : del ∈ s) {r : Links ν × Option ν}
    (heq : delete l head del = some r) :
  Closed r.1 s ∧ ∀ y ∈ r.2, y ∈ s
  := by
  simp only [DList.delete, Option.bind_eq_bind, Option.bind_eq_some_iff] at heq
  obtain ⟨hd, rfl, p, hp, heq⟩ := heq
  have hprev := h.prev del hdel
  have hnext := h.next del hdel
  split at heq
  · rw [← Option.some.inj heq]
    exact ⟨h, fun y hy => nomatch hy⟩
  split at heq
  · rw [Option.bind_eq_some_iff] at heq
    obtain ⟨n, hn, heq⟩ := heq
    rw [← Option.some.inj heq]
    refine ⟨⟨h.prev.update n hprev, h.next⟩, ?_⟩
    rintro y ⟨⟩
    exact hnext n hn
  · split at heq
    all_goals
      rw [← Option.some.inj heq]
      exact ⟨⟨h.prev.update _ hprev, h.next.update p hnext⟩, hhead⟩

end DList
