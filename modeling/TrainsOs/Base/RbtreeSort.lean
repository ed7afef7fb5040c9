import TrainsOs.Base.RbtreeMap

/-!
# Sorting with the tree

`rb_add` also adds a node whose key is in the tree, behind the nodes with this key. Adding nodes
one after the other sorts them, and keeps those with equal keys as they came.
-/

namespace Rbtree

open RedBlack RedBlack.RbTree

variable {ν κ : Type} [LinearOrder κ] {key : ν → κ}

/-- The order that `rb_add` sorts the nodes `ns` into: by their keys, and those with equal keys
as they came. -/
structure StablySorted (key : ν → κ) (ns xs : List ν) : Prop where
  perm : xs.Perm ns
  sorted : xs.Pairwise fun x y => key x ≤ key y
  stable : ∀ k, xs.filter (fun x => key x = k) = ns.filter fun x => key x = k

theorem StablySorted.orderedInsert {ns xs : List ν} {x : ν} {r : ν → ν → Prop} [DecidableRel r]
    (h : StablySorted key ns xs) (hr : ∀ y, r x y ↔ key x < key y) :
  StablySorted key (ns ++ [x]) (xs.orderedInsert r x)
  := by
  constructor
  · exact (List.perm_orderedInsert r x xs).trans
      ((h.perm.cons x).trans (List.perm_append_singleton x ns).symm)
  · have hsorted := h.sorted
    clear h
    induction xs with
    | nil => exact List.pairwise_singleton _ _
    | cons y xs ih =>
      obtain ⟨hy, hxs⟩ := List.pairwise_cons.mp hsorted
      rw [List.orderedInsert_cons]
      split
      · rename_i hlt
        have hxy := (hr y).mp hlt
        apply List.pairwise_cons.mpr ⟨?_, hsorted⟩
        rintro z (_ | ⟨_, hz⟩)
        · exact hxy.le
        · exact hxy.le.trans (hy z hz)
      · rename_i hlt
        have hyx : key y ≤ key x := not_lt.mp fun h => hlt ((hr y).mpr h)
        apply List.pairwise_cons.mpr ⟨?_, ih hxs⟩
        intro z hz
        rw [List.mem_orderedInsert] at hz
        obtain rfl | hz := hz
        · exact hyx
        · exact hy z hz
  · intro k
    rw [List.filter_append, ← h.stable k]
    have hsorted := h.sorted
    clear h
    induction xs with
    | nil => simp
    | cons y xs ih =>
      obtain ⟨hy, hxs⟩ := List.pairwise_cons.mp hsorted
      rw [List.orderedInsert_cons]
      split
      · rename_i hlt
        have hxy := (hr y).mp hlt
        by_cases hk : key x = k
        · have hnone : (y :: xs).filter (fun z => key z = k) = [] := by
            apply List.filter_eq_nil_iff.mpr
            intro z hz
            have hxz : key x < key z := by
              obtain rfl | hz := List.mem_cons.mp hz
              · exact hxy
              · exact hxy.trans_le (hy z hz)
            simpa [hk] using hxz.ne'
          rw [List.filter_cons_of_pos (by simpa using hk), hnone]
          simp [hk]
        · rw [List.filter_cons_of_neg (by simpa using hk)]
          simp [hk]
      · simp only [List.filter_cons, ih hxs]
        split <;> rfl

variable {cmp : ν → ν → ℤ} {fuel : ℕ}

/-- The way of `rb_add` is that of a cut, also when keys are equal. -/
theorem isCut_add {xs : List ν} {x : ν} (hsorted : xs.Pairwise fun y z => key y ≤ key z)
    (hcmp : ∀ y, cmp x y < 0 ↔ key x < key y) :
  IsCut (fun y => some (addDirection (cmp x y))) xs
  := by
  have hleft : ∀ y, addDirection (cmp x y) = .left ↔ key x < key y := by
    intro y
    rw [← hcmp y, addDirection]
    split <;> simp_all
  have hright : ∀ y, addDirection (cmp x y) = .right ↔ key y ≤ key x := by
    intro y
    rw [← not_lt, ← hcmp y, addDirection]
    split <;> simp_all
  apply hsorted.imp
  intro y z hyz
  simp only [Option.some.injEq, hleft, hright]
  exact ⟨fun h => h.trans_le hyz, fun h => hyz.trans h⟩

variable [DecidableEq ν]

/-- `rb_add` of the nodes `ns` one after the other sorts them. -/
theorem foldlM_rbAdd (hcmp : ∀ x y, cmp x y < 0 ↔ key x < key y) (node : ν → RbNode ν)
    {ns : List ν} (hnodup : ns.Nodup) (hfuel : 2 * Nat.log 2 (ns.length + 1) < fuel) :
  ∃ t' xs, ns.foldlM (fun t x => t.rbAdd fuel x cmp) (rbRoot node) = some t' ∧ IsTree t' xs
    ∧ StablySorted key ns xs
  := by
  have hfold : ∀ (bs as xs : List ν) (t : RbRoot ν), as ++ bs = ns → IsTree t xs →
      StablySorted key as xs → ∃ t' xs', bs.foldlM (fun t x => t.rbAdd fuel x cmp) t = some t'
        ∧ IsTree t' xs' ∧ StablySorted key ns xs' := by
    intro bs
    induction bs with
    | nil =>
      intro as xs t heq htree hsorted
      rw [List.append_nil] at heq
      exact ⟨t, xs, rfl, htree, heq ▸ hsorted⟩
    | cons x bs ih =>
      intro as xs t heq htree hsorted
      have hx : x ∉ xs := by
        rw [← heq] at hnodup
        rw [hsorted.perm.mem_iff]
        intro hmem
        exact (List.nodup_append.mp hnodup).2.2 x hmem x List.mem_cons_self rfl
      have hcut := isCut_add hsorted.sorted (hcmp x)
      have hlog : 2 * Nat.log 2 (xs.length + 1) < fuel := by
        have hle : xs.length ≤ ns.length := by
          rw [hsorted.perm.length_eq, ← heq, List.length_append]
          exact Nat.le_add_right _ _
        have hmono := Nat.log_mono_right (b := 2) (Nat.add_le_add_right hle 1)
        omega
      obtain ⟨t', hadd, htree'⟩ := rbAdd_spec htree hx hcut hlog
      rw [List.foldlM_cons, hadd]
      apply ih (as ++ [x]) _ t' _ htree' (hsorted.orderedInsert (hcmp x))
      rw [List.append_assoc]
      exact heq
  exact hfold ns [] [] (rbRoot node) rfl (rbRoot_isTree node)
    ⟨List.Perm.refl _, List.Pairwise.nil, fun _ => rfl⟩

/-- Five nodes with the keys 0 to 2. -/
theorem foldlM_rbAdd_five :
  ∃ t' xs, [5, 3, 1, 6, 4].foldlM
      (fun (t : RbRoot ℕ) x => t.rbAdd 8 x fun x y : ℕ => (x / 3 : ℤ) - y / 3)
      (rbRoot fun _ => ⟨none, .red, none, none⟩) = some t'
    ∧ IsTree t' xs ∧ StablySorted (fun x => x / 3) [5, 3, 1, 6, 4] xs
  := by
  apply foldlM_rbAdd
  · intro x y
    omega
  · decide
  · decide

end Rbtree
