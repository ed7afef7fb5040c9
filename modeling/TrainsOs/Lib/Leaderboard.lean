import Mathlib.Data.List.Induction
import Mathlib.Data.List.Perm.Basic
import Mathlib.Order.Lattice

/-!
# Leaderboards

A list of fixed length, ordered by descending keys, to which elements are offered one after
the other. An element whose key is greater than the last one replaces it and bubbles up to
its place; all other elements are dropped.

* `Best.foldl`: the list holds the elements with the greatest keys among those that it began
  with and those that were offered.
* `Best.blank`: when it began with blanks, whose key is less than those of the elements on
  offer, what it holds is the best of these, as many as there are or fit, followed by blanks.
-/

namespace Leaderboard

open scoped List

variable {α κ : Type*} [LinearOrder κ]

/-- The element at position `i` is swapped with the one in front of it as long as the key of
this one is less. -/
def bubble (key : α → κ) (xs : List α) : ℕ → List α
  | 0 => xs
  | i + 1 =>
      match xs[i]?, xs[i + 1]? with
      | some a, some b =>
          if key b ≤ key a then xs else bubble key ((xs.set i b).set (i + 1) a) i
      | _, _ => xs

/-- The list after `c` has been offered to it. -/
def offer (key : α → κ) (xs : List α) (c : α) : List α :=
  match xs.getLast? with
  | none => xs
  | some last =>
      if key c ≤ key last then
        xs
      else
        bubble key (xs.set (xs.length - 1) c) (xs.length - 1)

def Descending (key : α → κ) (xs : List α) : Prop :=
  xs.Pairwise fun a b => key b ≤ key a

/-- The list `xs` holds the best of the list that it began with and the elements `cs` that
were offered to it since. -/
structure Best (key : α → κ) (start cs xs : List α) : Prop where
  descending : Descending key xs
  length_eq : xs.length = start.length
  dropped : ∃ ds, xs ++ ds ~ start ++ cs ∧ ∀ d ∈ ds, ∀ x ∈ xs, key d ≤ key x

variable {key : α → κ} {start cs xs : List α} {c e : α} {n : ℕ}

theorem perm_right_comm (xs ys zs : List α) :
  xs ++ ys ++ zs ~ xs ++ zs ++ ys
  := by
  rw [List.append_assoc, List.append_assoc]
  exact List.Perm.append_left xs List.perm_append_comm

/-- An element is behind all others. -/
theorem Descending.concat (h : Descending key xs) (hle : ∀ x ∈ xs, key c ≤ key x) :
  Descending key (xs ++ [c])
  := by
  rw [Descending, List.pairwise_append]
  refine ⟨h, List.pairwise_singleton _ _, ?_⟩
  intro x hx y hy
  rw [List.mem_singleton.mp hy]
  exact hle x hx

theorem Descending.of_concat (h : Descending key (xs ++ [c])) :
  Descending key xs ∧ ∀ x ∈ xs, key c ≤ key x
  := by
  obtain ⟨hxs, -, hle⟩ := List.pairwise_append.mp h
  exact ⟨hxs, fun x hx => hle x hx c List.mem_cons_self⟩

/-- The elements whose key is above a bound come first. -/
theorem Descending.split (h : Descending key xs) (k : κ) :
  ∃ us vs, xs = us ++ vs ∧ (∀ x ∈ us, k < key x) ∧ ∀ x ∈ vs, key x ≤ k
  := by
  induction xs with
  | nil => exact ⟨[], [], rfl, List.forall_mem_nil _, List.forall_mem_nil _⟩
  | cons a xs ih =>
    rw [Descending, List.pairwise_cons] at h
    by_cases hlt : k < key a
    · obtain ⟨us, vs, rfl, hus, hvs⟩ := ih h.2
      exact ⟨a :: us, vs, rfl, List.forall_mem_cons.mpr ⟨hlt, hus⟩, hvs⟩
    · have hle := not_lt.mp hlt
      refine ⟨[], a :: xs, rfl, List.forall_mem_nil _, List.forall_mem_cons.mpr ⟨hle, ?_⟩⟩
      exact fun x hx => (h.1 x hx).trans hle

/-- One round of the loop. -/
theorem bubble_concat (us ys : List α) (a c : α) :
  bubble key (us ++ [a] ++ c :: ys) (us ++ [a]).length
    = if key c ≤ key a then us ++ [a] ++ c :: ys
      else bubble key (us ++ c :: a :: ys) us.length
  := by
  have hfst : (us ++ [a] ++ c :: ys)[us.length]? = some a := by simp
  have hsnd : (us ++ [a] ++ c :: ys)[us.length + 1]? = some c := by simp
  rw [List.length_append, List.length_singleton, bubble, hfst, hsnd]
  dsimp only
  congr 2
  simp

/-- An element that bubbles up comes to its place; what is behind it stays. -/
theorem bubble_spec (h : Descending key xs) (c : α) (ys : List α) :
  ∃ zs, bubble key (xs ++ c :: ys) xs.length = zs ++ ys ∧ zs ~ xs ++ [c] ∧ Descending key zs
  := by
  induction xs using List.reverseRecOn generalizing ys with
  | nil => exact ⟨[c], rfl, List.Perm.refl _, List.pairwise_singleton _ _⟩
  | append_singleton us a ih =>
    obtain ⟨hus, ha⟩ := h.of_concat
    rw [bubble_concat]
    by_cases hle : key c ≤ key a
    · rw [if_pos hle]
      refine ⟨us ++ [a] ++ [c], by simp, List.Perm.refl _, h.concat ?_⟩
      rw [List.forall_mem_append, List.forall_mem_singleton]
      exact ⟨fun x hx => hle.trans (ha x hx), hle⟩
    · rw [if_neg hle]
      obtain ⟨zs, heq, hperm, hzs⟩ := ih hus (a :: ys)
      use zs ++ [a], by rw [heq, List.append_assoc, List.singleton_append]
      constructor
      · exact (hperm.append_right [a]).trans (perm_right_comm us [c] [a])
      · apply hzs.concat
        intro x hx
        have hmem := hperm.mem_iff.mp hx
        rw [List.mem_append, List.mem_singleton] at hmem
        rcases hmem with hmem | rfl
        · exact ha x hmem
        · exact (not_le.mp hle).le

/-- What is offered replaces a worst element, or is no better than any. -/
theorem offer_spec (h : Descending key xs) (c : α) :
  Descending key (offer key xs c)
    ∧ ∃ d, offer key xs c ++ [d] ~ xs ++ [c] ∧ ∀ x ∈ offer key xs c, key d ≤ key x
  := by
  rcases List.eq_nil_or_concat xs with rfl | ⟨us, l, rfl⟩
  · exact ⟨List.Pairwise.nil, c, List.Perm.refl _, fun x hx => absurd hx List.not_mem_nil⟩
  · rw [List.concat_eq_append] at h ⊢
    obtain ⟨hus, hl⟩ := h.of_concat
    rw [offer, List.getLast?_concat]
    dsimp only
    by_cases hle : key c ≤ key l
    · rw [if_pos hle]
      refine ⟨h, c, List.Perm.refl _, ?_⟩
      rw [List.forall_mem_append, List.forall_mem_singleton]
      exact ⟨fun x hx => hle.trans (hl x hx), hle⟩
    · have hlen : (us ++ [l]).length - 1 = us.length := by simp
      have hset : (us ++ [l]).set us.length c = us ++ [c] := by simp
      obtain ⟨zs, heq, hperm, hzs⟩ := bubble_spec hus c []
      rw [if_neg hle, hlen, hset, heq, List.append_nil]
      refine ⟨hzs, l, (hperm.append_right [l]).trans (perm_right_comm us [c] [l]), ?_⟩
      intro x hx
      have hmem := hperm.mem_iff.mp hx
      rw [List.mem_append, List.mem_singleton] at hmem
      rcases hmem with hmem | rfl
      · exact hl x hmem
      · exact (not_le.mp hle).le

/-! ### Lists of images -/

variable {β : Type*} {key' : β → κ} {f : α → β}

/-- Elements can be replaced by others with the same keys. -/
theorem map_bubble (h : ∀ x ∈ xs, key' (f x) = key x) (i : ℕ) :
  (bubble key xs i).map f = bubble key' (xs.map f) i
  := by
  induction i generalizing xs with
  | zero => rfl
  | succ i ih =>
    rw [bubble, bubble, List.getElem?_map, List.getElem?_map]
    cases ha : xs[i]? with
    | none => rfl
    | some a =>
      cases hb : xs[i + 1]? with
      | none => rfl
      | some b =>
        have ha := List.mem_of_getElem? ha
        have hb := List.mem_of_getElem? hb
        dsimp only [Option.map_some]
        rw [apply_ite (List.map f), h a ha, h b hb, ih, List.map_set, List.map_set]
        intro x hx
        rcases List.mem_or_eq_of_mem_set hx with hx | rfl
        · rcases List.mem_or_eq_of_mem_set hx with hx | rfl
          · exact h x hx
          · exact h x hb
        · exact h x ha

theorem map_offer (h : ∀ x ∈ xs, key' (f x) = key x) (hc : key' (f c) = key c) :
  (offer key xs c).map f = offer key' (xs.map f) (f c)
  := by
  rw [offer, offer, List.getLast?_map]
  cases hl : xs.getLast? with
  | none => rfl
  | some l =>
    dsimp only [Option.map_some]
    rw [apply_ite (List.map f), hc, h l (List.mem_of_getLast? hl), map_bubble, List.map_set,
      List.length_map]
    intro x hx
    rcases List.mem_or_eq_of_mem_set hx with hx | rfl
    · exact h x hx
    · exact hc

theorem map_foldl_offer (hxs : Descending key xs) (h : ∀ x ∈ xs, key' (f x) = key x)
    (hcs : ∀ c ∈ cs, key' (f c) = key c) :
  (cs.foldl (offer key) xs).map f = (cs.map f).foldl (offer key') (xs.map f)
  := by
  induction cs generalizing xs with
  | nil => rfl
  | cons c cs ih =>
    rw [List.forall_mem_cons] at hcs
    obtain ⟨hdesc, d, hperm, -⟩ := offer_spec hxs c
    rw [List.foldl_cons, List.map_cons, List.foldl_cons, ih hdesc _ hcs.2, map_offer h hcs.1]
    intro x hx
    have hmem := hperm.mem_iff.mp (List.mem_append_left [d] hx)
    rw [List.mem_append, List.mem_singleton] at hmem
    rcases hmem with hmem | rfl
    · exact h x hmem
    · exact hcs.1

namespace Best

theorem refl (h : Descending key xs) :
  Best key xs [] xs
  := ⟨h, rfl, [], List.Perm.refl _, fun _ hd => absurd hd List.not_mem_nil⟩

/-- Another element is offered. -/
theorem offer (h : Best key start cs xs) (c : α) :
  Best key start (cs ++ [c]) (offer key xs c)
  := by
  obtain ⟨hdesc, hlen, ds, hperm, hds⟩ := h
  obtain ⟨hoffer, d, hd, hle⟩ := offer_spec hdesc c
  refine ⟨hoffer, ?_, d :: ds, ?_, ?_⟩
  · have heq := hd.length_eq
    rw [List.length_append, List.length_append] at heq
    exact (Nat.add_right_cancel heq).trans hlen
  · calc Leaderboard.offer key xs c ++ d :: ds
      _ = Leaderboard.offer key xs c ++ [d] ++ ds := by rw [List.append_assoc]; rfl
      _ ~ xs ++ [c] ++ ds := hd.append_right ds
      _ ~ xs ++ ds ++ [c] := perm_right_comm xs [c] ds
      _ ~ start ++ cs ++ [c] := hperm.append_right [c]
      _ = start ++ (cs ++ [c]) := List.append_assoc _ _ _
  · rw [List.forall_mem_cons]
    refine ⟨hle, fun d' hd' x hx => ?_⟩
    -- what was dropped before is no better than what is dropped now
    have hmem := hd.mem_iff.mp (List.mem_append_right _ List.mem_cons_self)
    rw [List.mem_append, List.mem_singleton] at hmem
    rcases hmem with hmem | rfl
    · exact (hds d' hd' d hmem).trans (hle x hx)
    · have hxs := (List.perm_append_right_iff _).mp hd
      exact hds d' hd' x (hxs.mem_iff.mp hx)

/-- All elements of a list are offered. -/
theorem foldl (h : Best key start cs xs) (as : List α) :
  Best key start (cs ++ as) (as.foldl (Leaderboard.offer key) xs)
  := by
  induction as generalizing cs xs with
  | nil => rwa [List.append_nil]
  | cons a as ih =>
    have hfoldl := ih (h.offer a)
    rwa [List.append_assoc] at hfoldl

/-- Every element is a blank that it began with, or was on offer. -/
theorem mem (h : Best key (List.replicate n e) cs xs) {x : α} (hx : x ∈ xs) :
  x = e ∨ x ∈ cs
  := by
  obtain ⟨-, -, ds, hperm, -⟩ := h
  have hmem := hperm.mem_iff.mp (List.mem_append_left ds hx)
  exact (List.mem_append.mp hmem).imp_left List.eq_of_mem_replicate

/-- The blanks are at the end. -/
theorem split (h : Best key (List.replicate n e) cs xs) (hcs : ∀ c ∈ cs, key e < key c) :
  ∃ kept m, xs = kept ++ List.replicate m e ∧ ∀ x ∈ kept, key e < key x
  := by
  obtain ⟨kept, rest, rfl, hkept, hrest⟩ := h.descending.split (key e)
  refine ⟨kept, rest.length, ?_, hkept⟩
  rw [List.append_cancel_left_eq, List.eq_replicate_iff]
  refine ⟨rfl, fun x hx => ?_⟩
  rcases h.mem (List.mem_append_right kept hx) with heq | hmem
  · exact heq
  · exact absurd (hcs x hmem) (not_lt.mpr (hrest x hx))

/-- When it began with blanks, the list holds the best elements on offer, as many as there
are or fit, and then blanks. -/
theorem blank (h : Best key (List.replicate n e) cs xs) (hcs : ∀ c ∈ cs, key e < key c) :
  ∃ kept dropped, xs = kept ++ List.replicate (n - kept.length) e
    ∧ kept.length = min n cs.length ∧ kept ++ dropped ~ cs
    ∧ Descending key kept ∧ ∀ d ∈ dropped, ∀ x ∈ kept, key d ≤ key x
  := by
  obtain ⟨kept, m, rfl, hkept⟩ := h.split hcs
  obtain ⟨hdesc, hlen, ds, hperm, hds⟩ := h
  rw [List.length_append, List.length_replicate, List.length_replicate] at hlen
  -- without the blanks, what is in the list and what was dropped is what was on offer
  let p : α → Bool := fun x => key e < key x
  have hblank (m : ℕ) : (List.replicate m e).filter p = [] := by
    rw [List.filter_eq_nil_iff]
    intro x hx
    simp [p, List.eq_of_mem_replicate hx]
  have hself {as : List α} (has : ∀ x ∈ as, key e < key x) : as.filter p = as := by
    rw [List.filter_eq_self]
    exact fun x hx => decide_eq_true (has x hx)
  have hperm' : kept ++ ds.filter p ~ cs := by
    have hfilter := hperm.filter p
    rw [List.filter_append, List.filter_append, List.filter_append, hblank, hblank,
      hself hkept, hself hcs, List.append_nil, List.nil_append] at hfilter
    exact hfilter
  have hlen' := hperm'.length_eq
  rw [List.length_append] at hlen'
  have hfull : m = 0 ∨ ds.filter p = [] := by
    apply Nat.eq_zero_or_pos m |>.imp_right
    intro hm
    rw [List.filter_eq_nil_iff]
    intro d hd
    have hle := hds d hd e (List.mem_append_right _ (List.mem_replicate.mpr ⟨hm.ne', rfl⟩))
    simpa [p] using hle
  refine ⟨kept, ds.filter p, ?_, ?_, hperm', (List.pairwise_append.mp hdesc).1, ?_⟩
  · rw [← hlen, Nat.add_sub_cancel_left]
  · rcases hfull with rfl | hnil
    · omega
    · rw [hnil, List.length_nil] at hlen'
      omega
  · intro d hd x hx
    exact hds d (List.mem_of_mem_filter hd) x (List.mem_append_left _ hx)

end Best

end Leaderboard
