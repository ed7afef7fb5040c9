import TrainsOs.Base.RbtreeErase

/-!
# Going through the tree in memory

`rb_first`, `rb_next`, `rb_last` and `rb_prev` go through the nodes from left to right and back,
`rb_first_postorder` and `rb_next_postorder` visit the children of a node before the node, and
`rb_replace_node` keeps the order.
-/

namespace Rbtree

open RedBlack RedBlack.RbTree

variable {ν : Type} {t : RbRoot ν} {ctx : List (Frame ν)} {T : RbTree ν} {x y : ν} {fuel : ℕ}

/-- The children of a node before the node. -/
def postorder : RbTree ν → List ν
  | .nil => []
  | .node _ l x r => postorder l ++ (postorder r ++ [x])

/-- What comes after the subtree at a position in this order. -/
def postAfter : List (Frame ν) → List ν
  | [] => []
  | f :: ctx =>
    match f.side with
    | .left => postorder f.sibling ++ f.node :: postAfter ctx
    | .right => f.node :: postAfter ctx

/-- What comes before it. -/
def postBefore : List (Frame ν) → List ν
  | [] => []
  | f :: ctx =>
    match f.side with
    | .left => postBefore ctx
    | .right => postBefore ctx ++ postorder f.sibling

theorem postorder_plug (ctx : List (Frame ν)) (T : RbTree ν) :
  postorder (plug ctx T) = postBefore ctx ++ postorder T ++ postAfter ctx
  := by
  induction ctx generalizing T with
  | nil => exact (List.append_nil _).symm
  | cons f ctx ih =>
    rw [plug, ih]
    cases hs : f.side <;> simp [join, postorder, postBefore, postAfter, hs]

theorem perm_postorder (T : RbTree ν) :
  (postorder T).Perm T.toList
  := by
  induction T with
  | nil => exact List.Perm.refl _
  | node c l x r ihl ihr =>
    exact ihl.append ((List.perm_append_singleton x _).trans (ihr.cons x))

/-- The deepest node on the left is the first one. -/
theorem rbLeftDeepestNode_spec {par : Option ν} (h : Links t par T) (hroot : T.root = some y)
    (hfuel : T.height ≤ fuel) :
  ∃ z, t.rbLeftDeepestNode fuel y = some z ∧ (postorder T).head? = some z
  := by
  induction fuel generalizing T par y with
  | zero =>
    cases T with
    | nil => cases hroot
    | node => cases hfuel
  | succ fuel ih =>
    cases T with
    | nil => cases hroot
    | node c l x r =>
      obtain rfl := Option.some.inj hroot
      obtain ⟨hnode, hl, hr⟩ := h
      rw [height] at hfuel
      rw [RbRoot.rbLeftDeepestNode, hnode]
      cases l with
      | nil =>
        cases r with
        | nil => exact ⟨x, rfl, rfl⟩
        | node c' l' y r' =>
          obtain ⟨z, hz, hhead⟩ := ih hr rfl (by omega)
          exact ⟨z, hz, by rw [postorder, postorder, List.nil_append, List.head?_append, hhead]; rfl⟩
      | node c' l' y r' =>
        obtain ⟨z, hz, hhead⟩ := ih hl rfl (by omega)
        exact ⟨z, hz, by rw [postorder, List.head?_append, hhead]; rfl⟩

variable [DecidableEq ν]

/-- The node after the subtree at a position. -/
theorem rbNextPostorder_spec (h : At t ctx T) (hroot : T.root = some y)
    (hfuel : (plug ctx T).height ≤ fuel) :
  t.rbNextPostorder fuel (some y) = some (postAfter ctx).head?
  := by
  have hparent : (t.node y).parent = top ctx := (h.links.root hroot).1
  cases ctx with
  | nil =>
    rw [RbRoot.rbNextPostorder, hparent]
    rfl
  | cons f ctx =>
    have hat := at_cons.mp h
    obtain ⟨hnode, -, hsib⟩ := links_join.mp hat.links
    have hn := hat.nodup_tree
    rw [nodup_join] at hn
    have hlen := length_add_height_le ctx (join f.side f.color T f.node f.sibling)
    rw [plug] at hfuel
    replace hparent : (t.node y).parent = some f.node := hparent
    simp only [RbRoot.rbNextPostorder, hparent]
    cases hs : f.side with
    | left =>
      rw [hs] at hnode
      have hleft : (t.node f.node).rbLeft = some y := by
        rw [hnode, ← hroot]
        rfl
      have hright : (t.node f.node).rbRight = f.sibling.root := by
        rw [hnode]
        rfl
      rw [if_pos hleft, hright]
      cases hz : f.sibling.root with
      | none =>
        cases hT : f.sibling with
        | nil => simp [postAfter, hs, hT, postorder]
        | node => rw [hT] at hz; cases hz
      | some z =>
        have hlt := height_lt_join f.side.other f.color f.sibling f.node T
        rw [join_other] at hlt
        have hheight : f.sibling.height ≤ fuel := by omega
        obtain ⟨w, hw, hhead⟩ := rbLeftDeepestNode_spec hsib hz hheight
        simp [hw, postAfter, hs, hhead]
    | right =>
      have hne : (t.node f.node).rbLeft ≠ some y := by
        rw [hnode, hs]
        exact root_ne (hn.2.2.2.2 y (mem_toList_root hroot))
      rw [if_neg hne, postAfter, hs]
      rfl

/-- `rb_first_postorder` and `rb_next_postorder` visit every node, after its children. -/
theorem rbPostorder_spec (h : At t [] T) (hfuel : T.height ≤ fuel) :
  t.rbFirstPostorder fuel = some (postorder T).head?
    ∧ ∀ xs ys, postorder T = xs ++ x :: ys → t.rbNextPostorder fuel (some x) = some ys.head?
  := by
  constructor
  · have hroot : t.rbNode = T.root := h.context
    rw [RbRoot.rbFirstPostorder, hroot]
    cases T with
    | nil => rfl
    | node c l y r =>
      obtain ⟨z, hz, hhead⟩ := rbLeftDeepestNode_spec h.links rfl hfuel
      rw [hhead]
      simp only [RbTree.root, hz, Option.map_some]
  · intro xs ys heq
    have hn : (postorder T).Nodup := (perm_postorder T).nodup_iff.mpr h.nodup_tree
    obtain ⟨ctx, c, l, r, rfl⟩ : ∃ ctx c l r, T = plug ctx (.node c l x r) := by
      apply exists_position
      rw [← (perm_postorder T).mem_iff, heq]
      exact List.mem_append_right xs List.mem_cons_self
    rw [heq] at hn
    obtain ⟨-, hys, hxs⟩ := List.nodup_append.mp hn
    have hxxs : x ∉ xs := fun hmem => hxs x hmem x List.mem_cons_self rfl
    have hxys : x ∉ ys := (List.nodup_cons.mp hys).1
    have hsplit : postorder (plug ctx (.node c l x r))
        = (postBefore ctx ++ (postorder l ++ postorder r)) ++ x :: postAfter ctx := by
      rw [postorder_plug, postorder]
      simp
    rw [hsplit] at heq
    obtain ⟨-, -, hafter⟩ := (List.append_cons_inj_of_notMem hxxs hxys).mp heq.symm
    rw [hafter]
    exact rbNextPostorder_spec (at_plug.mpr h) rfl hfuel

/-- `rb_first` and `rb_next` go through the nodes from left to right, and `rb_last` and `rb_prev`
from right to left. -/
theorem rbWalk_spec {xs : List ν} (h : IsTree t xs)
    (hfuel : 2 * Nat.log 2 (xs.length + 1) < fuel) :
  t.rbFirst fuel = some xs.head? ∧ t.rbLast fuel = some xs.getLast?
    ∧ ∀ as x bs, xs = as ++ x :: bs →
      t.rbNext fuel x = some bs.head? ∧ t.rbPrev fuel x = some as.getLast?
  := by
  obtain ⟨T, hat, hrb, rfl⟩ := h
  have hheight := hrb.height_le.trans_lt hfuel
  refine ⟨?_, ?_, ?_⟩
  · exact rbEnd_spec (s := .left) hat hheight.le
  · rw [← List.head?_reverse]
    exact rbEnd_spec (s := .right) hat hheight.le
  · intro as x bs heq
    exact rbNext_rbPrev_spec hat heq hheight

/-- A tree of three nodes, gone through in both directions. -/
theorem rbWalk_spec_three :
  ∃ t : RbRoot ℕ, IsTree t [1, 2, 3] ∧ t.rbFirst 5 = some (some 1) ∧ t.rbLast 5 = some (some 3)
    ∧ ∀ as x bs, [1, 2, 3] = as ++ x :: bs →
      t.rbNext 5 x = some bs.head? ∧ t.rbPrev 5 x = some as.getLast?
  := by
  let T : RbTree ℕ := .node .black (.node .red .nil 1 .nil) 2 (.node .red .nil 3 .nil)
  let t : RbRoot ℕ := ⟨fun x => if x = 2 then ⟨none, .black, some 3, some 1⟩ else
    ⟨some 2, .red, none, none⟩, some 2⟩
  have htree : IsTree t [1, 2, 3] := by
    refine ⟨T, ⟨rfl, ?_, by decide⟩, ⟨rfl, 1, ?_⟩, rfl⟩
    · simp [T, t, Links, RbTree.root, top]
    · exact .black (.red .nil .nil rfl rfl) (.red .nil .nil rfl rfl)
  exact ⟨t, htree, rbWalk_spec htree (by decide)⟩

/-- The same tree, the children first. -/
theorem rbPostorder_spec_three :
  ∃ t : RbRoot ℕ, t.rbFirstPostorder 2 = some (some 1)
    ∧ ∀ xs ys, [1, 3, 2] = xs ++ 3 :: ys → t.rbNextPostorder 2 (some 3) = some ys.head?
  := by
  let T : RbTree ℕ := .node .black (.node .red .nil 1 .nil) 2 (.node .red .nil 3 .nil)
  let t : RbRoot ℕ := ⟨fun x => if x = 2 then ⟨none, .black, some 3, some 1⟩ else
    ⟨some 2, .red, none, none⟩, some 2⟩
  have hat : At t [] T := by
    refine ⟨rfl, ?_, by decide⟩
    simp [T, t, Links, RbTree.root, top]
  exact ⟨t, rbPostorder_spec hat (by decide)⟩

end Rbtree
