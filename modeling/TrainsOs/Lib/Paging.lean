import Mathlib.Data.List.Infix
import Mathlib.Data.List.Pairwise

/-!
# Reading a list page by page

The items of a list have keys that ascend. A request for a key returns some of the items
from that key on, and a client repeats the request from behind the last key that it got,
until it gets none. When every page is a prefix of what remains, and empty only when
nothing remains, then the client gets every item exactly once, in the order of the keys.

A page is often the longest prefix whose items agree with the first one in something that
is `leading`.
-/

namespace Paging

variable {α β : Type*}

/-! ### The items that agree with the first -/

section Leading

variable [DecidableEq β] (f : α → β)

/-- The items at the beginning that agree with the first one. -/
def leading : List α → List α
  | [] => []
  | x :: xs => x :: xs.takeWhile fun y => f y = f x

/-- All items of the list agree with the first one. -/
def Agree (xs : List α) : Prop :=
  ∀ x ∈ xs, ∀ first ∈ xs.head?, f x = f first

/-- `page` is the longest prefix of `xs` in which all items agree. -/
structure LongestPrefix (xs page : List α) : Prop where
  isPrefix : page <+: xs
  agree : Agree f page
  longest : ∀ page', page' <+: xs → Agree f page' → page' <+: page

variable {f}

theorem Agree.takeWhile {x : α} {xs : List α} (h : Agree f (x :: xs)) (zs : List α) :
  (xs ++ zs).takeWhile (fun y => f y = f x) = xs ++ zs.takeWhile fun y => f y = f x
  := by
  apply List.takeWhile_append_of_pos
  intro y hy
  exact decide_eq_true (h y (List.mem_cons_of_mem x hy) x rfl)

theorem leading_longest (xs : List α) :
  LongestPrefix f xs (leading f xs)
  := by
  constructor
  · cases xs with
    | nil => apply List.prefix_refl
    | cons x xs =>
      apply (List.prefix_cons_inj x).mpr
      apply List.takeWhile_prefix
  · cases xs with
    | nil => exact nofun
    | cons x xs =>
      rintro y hy first ⟨⟩
      rcases List.mem_cons.mp hy with rfl | hy
      · rfl
      · exact of_decide_eq_true (List.all_eq_true.mp List.all_takeWhile y hy)
  · intro page hpage hagree
    cases page with
    | nil => apply List.nil_prefix
    | cons x page =>
      obtain ⟨zs, rfl⟩ := hpage
      use zs.takeWhile fun y => f y = f x
      rw [List.cons_append, List.cons_append, leading, hagree.takeWhile]

omit [DecidableEq β] in
/-- The longest prefix is empty only when there are no items. -/
theorem LongestPrefix.eq_nil {xs : List α} (h : LongestPrefix f xs []) :
  xs = []
  := by
  cases xs with
  | nil => rfl
  | cons x xs =>
    have hagree : Agree f [x] := by
      rintro y hy first ⟨⟩
      rw [List.mem_singleton.mp hy]
    have hle := (h.longest [x] ⟨xs, rfl⟩ hagree).length_le
    cases hle

end Leading

/-! ### Page after page -/

/-- The keys that a client gets that begins at a key and repeats its request from behind
the last key of each page until a page is empty. -/
inductive Enumerates (request : ℕ → Option (List ℕ)) : ℕ → List ℕ → Prop where
  | done {k : ℕ} (hpage : request k = some []) : Enumerates request k []
  | more {k last : ℕ} {page rest : List ℕ} (hpage : request k = some page)
      (hlast : page.getLast? = some last) (hrest : Enumerates request (last + 1) rest) :
      Enumerates request k (page ++ rest)

variable (key : α → ℕ) (items : List α)

/-- The items from a key on. -/
def remaining (k : ℕ) : List α :=
  items.filter fun x => k ≤ key x

/-- The pages are prefixes of what remains, and empty only when nothing remains. -/
structure Pages (request : ℕ → Option (List ℕ)) : Prop where
  ascending : (items.map key).Pairwise (· < ·)
  page : ∀ k, ∃ page, request k = some (page.map key) ∧ page <+: remaining key items k ∧
    (page = [] → remaining key items k = [])

variable {key items} {request : ℕ → Option (List ℕ)} {k : ℕ}

theorem ascending_remaining (h : (items.map key).Pairwise (· < ·)) (k : ℕ) :
  ((remaining key items k).map key).Pairwise (· < ·)
  := h.sublist ((List.filter_sublist).map key)

/-- What remains behind a page. -/
theorem remaining_behind (h : (items.map key).Pairwise (· < ·)) {page rest : List α} {x : α}
    (hsplit : page ++ [x] ++ rest = remaining key items k) :
  remaining key items (key x + 1) = rest
  := by
  have hk : k ≤ key x := by
    have hx : x ∈ remaining key items k := by
      rw [← hsplit]
      simp
    exact of_decide_eq_true (List.mem_filter.mp hx).2
  have hrefilter : remaining key items (key x + 1)
      = (remaining key items k).filter fun y => key x + 1 ≤ key y := by
    rw [remaining, remaining, List.filter_filter]
    apply List.filter_congr
    intro y _
    rw [← Bool.decide_and, decide_eq_decide]
    omega
  have hpairs := List.pairwise_map.mp (ascending_remaining h k)
  rw [← hsplit, List.pairwise_append, List.pairwise_append] at hpairs
  obtain ⟨⟨-, -, hfront⟩, -, hbehind⟩ := hpairs
  rw [hrefilter, ← hsplit, List.filter_append, List.filter_append]
  have hpage : page.filter (fun y => key x + 1 ≤ key y) = [] := by
    apply List.filter_eq_nil_iff.mpr
    intro y hy hdec
    have hlt := hfront y hy x (List.mem_singleton_self x)
    have hle := of_decide_eq_true hdec
    omega
  have hself : [x].filter (fun y => key x + 1 ≤ key y) = [] := by
    simp
  have hrest : rest.filter (fun y => key x + 1 ≤ key y) = rest := by
    apply List.filter_eq_self.mpr
    intro y hy
    exact decide_eq_true (hbehind x (by simp) y hy)
  rw [hpage, hself, hrest]
  rfl

/-- A page that is not empty and what remains behind it are all that remains. -/
theorem Pages.split (h : Pages key items request) {page : List α} {last : ℕ}
    (hpage : page <+: remaining key items k) (hlast : (page.map key).getLast? = some last) :
  page ++ remaining key items (last + 1) = remaining key items k
  := by
  obtain ⟨rest, hrest⟩ := hpage
  rw [List.getLast?_map, Option.map_eq_some_iff] at hlast
  obtain ⟨x, hx, rfl⟩ := hlast
  obtain ⟨front, rfl⟩ := List.getLast?_eq_some_iff.mp hx
  rw [remaining_behind h.ascending hrest, hrest]

/-- A client that begins at `k` gets the keys of what remains from there, and nothing else. -/
theorem Pages.enumerates_iff (h : Pages key items request) {all : List ℕ} :
  Enumerates request k all ↔ all = (remaining key items k).map key
  := by
  constructor
  · intro hall
    induction hall with
    | @done k hdone =>
      obtain ⟨page, hpage, -, hnil⟩ := h.page k
      rw [hdone] at hpage
      rw [hnil (List.map_eq_nil_iff.mp (Option.some.inj hpage).symm)]
      rfl
    | @more k last found rest hfound hlast hrest ih =>
      obtain ⟨page, hpage, hprefix, -⟩ := h.page k
      rw [hfound] at hpage
      obtain rfl := Option.some.inj hpage
      rw [ih, ← List.map_append, h.split hprefix hlast]
  · rintro rfl
    generalize hn : (remaining key items k).length = n
    induction n using Nat.strong_induction_on generalizing k with
    | _ n ih =>
      obtain ⟨page, hpage, hprefix, hnil⟩ := h.page k
      cases hlast : (page.map key).getLast? with
      | none =>
        have hempty := List.getLast?_eq_none_iff.mp hlast
        rw [hnil (List.map_eq_nil_iff.mp hempty)]
        rw [hempty] at hpage
        exact Enumerates.done hpage
      | some last =>
        have hsplit := h.split hprefix hlast
        rw [← hsplit, List.map_append]
        apply Enumerates.more hpage hlast
        refine ih _ ?_ rfl
        rw [← hn, ← hsplit, List.length_append]
        have hpos : 0 < page.length := by
          apply List.length_pos_of_ne_nil
          rintro rfl
          cases hlast
        omega

end Paging
