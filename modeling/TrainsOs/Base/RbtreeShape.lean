import TrainsOs.Base.Rbtree

/-!
# The trees that the nodes in memory make

`Links t par T`: the nodes in memory below a pointer are those of the tree `T`, with their
colors, children and parents. `At t ctx T`: the whole tree is `plug ctx T`, and no node occurs
in it twice. An operation changes the nodes of a subtree only, and then the pointer to it
(`At.rechild`).
-/

namespace Rbtree

open RedBlack RedBlack.RbTree

variable {ν : Type}

/-- The node with the children `v` on the side `s` and `w` on the other one. -/
def cell (s : Side) (parent : Option ν) (c : Color) (v w : Option ν) : RbNode ν :=
  match s with
  | .left => ⟨parent, c, w, v⟩
  | .right => ⟨parent, c, v, w⟩

section Cell

variable (s : Side) (p p' : Option ν) (c c' : Color) (v v' w : Option ν)

@[simp]
theorem cell_parent : (cell s p c v w).parent = p := by cases s <;> rfl

@[simp]
theorem cell_color : (cell s p c v w).color = c := by cases s <;> rfl

@[simp]
theorem cell_child : (cell s p c v w).child s = v := by cases s <;> rfl

@[simp]
theorem cell_child_other : (cell s p c v w).child s.other = w := by cases s <;> rfl

@[simp]
theorem cell_setChild : (cell s p c v w).setChild s v' = cell s p c v' w := by cases s <;> rfl

@[simp]
theorem cell_setChild_other : (cell s p c v w).setChild s.other v' = cell s p c v v' := by
  cases s <;> rfl

@[simp]
theorem cell_setParent : { cell s p c v w with parent := p' } = cell s p' c v w := by
  cases s <;> rfl

@[simp]
theorem cell_setParentColor :
  { cell s p c v w with parent := p', color := c' } = cell s p' c' v w
  := by cases s <;> rfl

@[simp]
theorem cell_setColor : { cell s p c v w with color := c' } = cell s p c' v w := by
  cases s <;> rfl

theorem cell_other : cell s.other p c v w = cell s p c w v := by cases s <;> rfl

end Cell

/-- The nodes below a pointer with the parent `par` are those of the tree. -/
def Links (t : RbRoot ν) (par : Option ν) : RbTree ν → Prop
  | .nil => True
  | .node c l x r =>
    t.node x = ⟨par, c, r.root, l.root⟩ ∧ Links t (some x) l ∧ Links t (some x) r

/-- The parent of what is at the position. -/
def top : List (Frame ν) → Option ν
  | [] => none
  | f :: _ => some f.node

/-- The nodes above and beside a position at which the pointer `hole` is. -/
def Context (t : RbRoot ν) : Option ν → List (Frame ν) → Prop
  | hole, [] => t.rbNode = hole
  | hole, f :: ctx =>
    t.node f.node = cell f.side (top ctx) f.color hole f.sibling.root
      ∧ Links t (some f.node) f.sibling ∧ Context t (some f.node) ctx

/-- The subtree at the position `ctx` is `T`, and no node occurs twice. -/
structure At (t : RbRoot ν) (ctx : List (Frame ν)) (T : RbTree ν) : Prop where
  context : Context t T.root ctx
  links : Links t (top ctx) T
  nodup : (T.toList ++ around ctx).Nodup

variable {t t' : RbRoot ν} {s : Side} {c : Color} {par par' : Option ν} {x y old : ν}
  {ctx ctx' : List (Frame ν)} {f : Frame ν} {a b T T' : RbTree ν} {hole hole' : Option ν}

theorem links_join :
  Links t par (join s c a x b)
    ↔ t.node x = cell s par c a.root b.root ∧ Links t (some x) a ∧ Links t (some x) b
  := by
  cases s with
  | left => rfl
  | right => exact and_congr_right fun _ => and_comm

/-- The links depend on the nodes of the tree only. -/
theorem Links.congr (h : Links t par T) (heq : ∀ x ∈ T.toList, t'.node x = t.node x) :
  Links t' par T
  := by
  induction T generalizing par with
  | nil => trivial
  | node c l y r ihl ihr =>
    simp only [RbTree.toList, List.mem_append, List.mem_cons] at heq
    refine ⟨?_, ihl h.2.1 fun x hx => heq x (Or.inl hx),
      ihr h.2.2 fun x hx => heq x (Or.inr (Or.inr hx))⟩
    rw [heq y (Or.inr (Or.inl rfl))]
    exact h.1

theorem Links.root (h : Links t par T) (hx : T.root = some x) :
  (t.node x).parent = par ∧ (t.node x).color = T.color
  := by
  cases T with
  | nil => cases hx
  | node c l y r =>
    obtain rfl := Option.some.inj hx
    rw [h.1]
    exact ⟨rfl, rfl⟩

theorem nodup_join :
  (join s c a x b).toList.Nodup ↔ a.toList.Nodup ∧ b.toList.Nodup ∧ x ∉ a.toList
    ∧ x ∉ b.toList ∧ ∀ y ∈ a.toList, y ∉ b.toList
  := by
  rw [(perm_toList_join s c a x b).nodup_iff, List.nodup_cons, List.nodup_append,
    List.mem_append, not_or]
  constructor
  · rintro ⟨⟨hxa, hxb⟩, ha, hb, hdisj⟩
    exact ⟨ha, hb, hxa, hxb, fun y hy hy' => hdisj y hy y hy' rfl⟩
  · rintro ⟨ha, hb, hxa, hxb, hdisj⟩
    exact ⟨⟨hxa, hxb⟩, ha, hb, fun y hy z hz heq => hdisj y hy (heq ▸ hz)⟩

/-- A subtree does not have a node as its root that does not occur in it. -/
theorem root_ne (h : x ∉ T.toList) :
  T.root ≠ some x
  := fun heq => h (mem_toList_root heq)

/-! ### Positions -/

theorem Context.congr (h : Context t hole ctx) (hroot : t'.rbNode = t.rbNode)
    (heq : ∀ x ∈ around ctx, t'.node x = t.node x) :
  Context t' hole ctx
  := by
  induction ctx generalizing hole with
  | nil => exact hroot.trans h
  | cons f ctx ih =>
    simp only [around, List.mem_cons, List.mem_append] at heq
    refine ⟨?_, ?_, ?_⟩
    · rw [heq f.node (Or.inl rfl)]
      exact h.1
    · exact h.2.1.congr fun x hx => heq x (Or.inr (Or.inl hx))
    · exact ih h.2.2 fun x hx => heq x (Or.inr (Or.inr hx))

theorem nodup_append_around :
  (T.toList ++ around ctx).Nodup ↔ T.toList.Nodup ∧ (around ctx).Nodup
    ∧ ∀ x ∈ T.toList, x ∉ around ctx
  := by
  rw [List.nodup_append]
  exact and_congr_right fun _ => and_congr_right fun _ =>
    ⟨fun h x hx hx' => h x hx x hx' rfl, fun h x hx y hy heq => h x hx (heq ▸ hy)⟩

theorem At.nodup_tree (h : At t ctx T) :
  T.toList.Nodup
  := (nodup_append_around.mp h.nodup).1

theorem At.not_mem (h : At t ctx T) (hx : x ∈ T.toList) :
  x ∉ around ctx
  := (nodup_append_around.mp h.nodup).2.2 x hx

/-- Going up and down by a frame. -/
theorem at_cons :
  At t (f :: ctx) T ↔ At t ctx (join f.side f.color T f.node f.sibling)
  := by
  have hperm : (T.toList ++ around (f :: ctx)).Perm
      ((join f.side f.color T f.node f.sibling).toList ++ around ctx) := by
    rw [around]
    apply List.perm_middle.trans
    rw [← List.append_assoc, ← List.cons_append]
    exact ((perm_toList_join _ _ _ _ _).append_right _).symm
  constructor
  · rintro ⟨⟨hnode, hsib, hctx⟩, hlinks, hnodup⟩
    constructor
    · rwa [RbTree.root_join]
    · exact links_join.mpr ⟨hnode, hlinks, hsib⟩
    · exact hperm.nodup_iff.mp hnodup
  · rintro ⟨hctx, hlinks, hnodup⟩
    obtain ⟨hnode, hT, hsib⟩ := links_join.mp hlinks
    rw [RbTree.root_join] at hctx
    exact ⟨⟨hnode, hsib, hctx⟩, hT, hperm.nodup_iff.mpr hnodup⟩

theorem at_append :
  At t (ctx ++ ctx') T ↔ At t ctx' (plug ctx T)
  := by
  induction ctx generalizing T with
  | nil => rfl
  | cons f ctx ih => exact at_cons.trans ih

/-- The whole tree. -/
theorem at_plug :
  At t ctx T ↔ At t [] (plug ctx T)
  := by
  rw [← at_append, List.append_nil]

theorem top_mem (h : top ctx = some x) :
  x ∈ around ctx
  := by
  cases ctx with
  | nil => cases h
  | cons f ctx =>
    obtain rfl := Option.some.inj h
    exact List.mem_cons_self

/-! ### Local changes -/

/-- The nodes of `T` are changed into those of `T'`, below the same parent. -/
structure Local (t t' : RbRoot ν) (par : Option ν) (T T' : RbTree ν) : Prop where
  rbNode : t'.rbNode = t.rbNode
  out : ∀ x ∉ T.toList, t'.node x = t.node x
  links : Links t' par T'
  nodup : T'.toList.Nodup
  sub : ∀ x ∈ T'.toList, x ∈ T.toList

/-- A local change that reorders the nodes. -/
theorem local_of_toList (hrbNode : t'.rbNode = t.rbNode)
    (hout : ∀ x ∉ T.toList, t'.node x = t.node x) (hlinks : Links t' par T')
    (hnodup : T.toList.Nodup) (heq : T'.toList = T.toList) :
  Local t t' par T T'
  where
  rbNode := hrbNode
  out := hout
  links := hlinks
  nodup := heq ▸ hnodup
  sub _ hx := heq ▸ hx

/-- A local change that keeps the root of the subtree. -/
theorem At.local (h : At t ctx T) (hl : Local t t' (top ctx) T T') (hroot : T'.root = T.root) :
  At t' ctx T'
  := by
  obtain ⟨-, hctx, hdisj⟩ := nodup_append_around.mp h.nodup
  constructor
  · rw [hroot]
    exact h.context.congr hl.rbNode fun x hx => hl.out x fun hx' => hdisj x hx' hx
  · exact hl.links
  · exact nodup_append_around.mpr ⟨hl.nodup, hctx, fun x hx => hdisj x (hl.sub x hx)⟩

variable [DecidableEq ν]

@[simp]
theorem RbRoot.modify_node (t : RbRoot ν) (x : ν) (g : RbNode ν → RbNode ν) (y : ν) :
  (t.modify x g).node y = if y = x then g (t.node x) else t.node y
  := Function.update_apply _ _ _ _

@[simp]
theorem RbRoot.modify_rbNode (t : RbRoot ν) (x : ν) (g : RbNode ν → RbNode ν) :
  (t.modify x g).rbNode = t.rbNode
  := rfl

@[simp]
theorem writeOnce_node (t : RbRoot ν) (x : ν) (s : Side) (v : Option ν) (y : ν) :
  (t.writeOnce x s v).node y = if y = x then (t.node x).setChild s v else t.node y
  := t.modify_node x _ y

@[simp]
theorem writeOnce_rbNode (t : RbRoot ν) (x : ν) (s : Side) (v : Option ν) :
  (t.writeOnce x s v).rbNode = t.rbNode
  := rfl

@[simp]
theorem rbSetParent_node (t : RbRoot ν) (x : ν) (p : Option ν) (y : ν) :
  (t.rbSetParent x p).node y = if y = x then { t.node x with parent := p } else t.node y
  := t.modify_node x _ y

@[simp]
theorem rbSetParent_rbNode (t : RbRoot ν) (x : ν) (p : Option ν) :
  (t.rbSetParent x p).rbNode = t.rbNode
  := rfl

@[simp]
theorem rbSetParentColor_node (t : RbRoot ν) (x : ν) (p : Option ν) (c : Color) (y : ν) :
  (t.rbSetParentColor x p c).node y
    = if y = x then { t.node x with parent := p, color := c } else t.node y
  := t.modify_node x _ y

@[simp]
theorem rbSetParentColor_rbNode (t : RbRoot ν) (x : ν) (p : Option ν) (c : Color) :
  (t.rbSetParentColor x p c).rbNode = t.rbNode
  := rfl

@[simp]
theorem blackenIf_node (t : RbRoot ν) (tmp p : Option ν) (y : ν) :
  (t.blackenIf tmp p).node y
    = if tmp = some y then { t.node y with parent := p, color := .black } else t.node y
  := by
  cases tmp with
  | none => rfl
  | some x =>
    rw [RbRoot.blackenIf, rbSetParentColor_node]
    split
    · rename_i hy
      rw [if_pos (congrArg some hy.symm), hy]
    · rename_i hy
      rw [if_neg fun heq => hy (Option.some.inj heq).symm]

@[simp]
theorem blackenIf_rbNode (t : RbRoot ν) (tmp p : Option ν) :
  (t.blackenIf tmp p).rbNode = t.rbNode
  := by cases tmp <;> rfl

@[simp]
theorem setParentIf_node (t : RbRoot ν) (tmp p : Option ν) (y : ν) :
  (t.setParentIf tmp p).node y
    = if tmp = some y then { t.node y with parent := p } else t.node y
  := by
  cases tmp with
  | none => rfl
  | some x =>
    rw [RbRoot.setParentIf, rbSetParent_node]
    split
    · rename_i hy
      rw [if_pos (congrArg some hy.symm), hy]
    · rename_i hy
      rw [if_neg fun heq => hy (Option.some.inj heq).symm]

@[simp]
theorem setParentIf_rbNode (t : RbRoot ν) (tmp p : Option ν) :
  (t.setParentIf tmp p).rbNode = t.rbNode
  := by cases tmp <;> rfl

/-- Giving the root of a subtree another parent and another color. -/
theorem Links.reparent (h : Links t par T) (hnodup : T.toList.Nodup)
    (heq : ∀ x ∈ T.toList, t'.node x =
      if T.root = some x then { t.node x with parent := par', color := c } else t.node x) :
  Links t' par' (T.paint c)
  := by
  cases T with
  | nil => trivial
  | node c' l y r =>
    obtain ⟨-, -, hyl, hyr, -⟩ := (nodup_join (s := .left) (c := c')).mp hnodup
    simp only [RbTree.toList, List.mem_append, List.mem_cons] at heq
    refine ⟨?_, ?_, ?_⟩
    · have hroot : (RbTree.node c' l y r).root = some y := rfl
      rw [heq y (Or.inr (Or.inl rfl)), if_pos hroot, h.1]
    · apply h.2.1.congr
      intro x hx
      rw [heq x (Or.inl hx), if_neg]
      intro hroot
      exact hyl (Option.some.inj hroot ▸ hx)
    · apply h.2.2.congr
      intro x hx
      rw [heq x (Or.inr (Or.inr hx)), if_neg]
      intro hroot
      exact hyr (Option.some.inj hroot ▸ hx)

/-- Giving the root of a subtree another parent. -/
theorem Links.move (h : Links t par T) (hnodup : T.toList.Nodup)
    (heq : ∀ x ∈ T.toList, t'.node x =
      if T.root = some x then { t.node x with parent := par' } else t.node x) :
  Links t' par' T
  := by
  rw [← T.paint_color]
  apply h.reparent hnodup
  intro x hx
  rw [heq x hx]
  split
  · rename_i hroot
    rw [← (h.root hroot).2]
  · rfl

/-- Only the parent is touched when a child is changed. -/
theorem rbChangeChild_node (t : RbRoot ν) (old : ν) (new : Option ν) (h : par ≠ some y) :
  (t.rbChangeChild old new par).node y = t.node y
  := by
  cases par with
  | none => rfl
  | some x =>
    have hy : y ≠ x := fun heq => h (congrArg some heq.symm)
    rw [RbRoot.rbChangeChild]
    split <;> rw [writeOnce_node, if_neg hy]

/-- The pointer to the subtree at a position is changed. -/
theorem Context.rechild (h : Context t (some old) ctx) (hold : old ∉ around ctx)
    (hnodup : (around ctx).Nodup) (new : Option ν) :
  Context (t.rbChangeChild old new (top ctx)) new ctx
  := by
  cases ctx with
  | nil => rfl
  | cons f ctx =>
    obtain ⟨hnode, hsib, hctx⟩ := h
    simp only [around, List.mem_cons, List.mem_append, not_or, List.nodup_cons] at hold hnodup
    have hother : ∀ x ∈ f.sibling.toList ++ around ctx,
        (t.rbChangeChild old new (some f.node)).node x = t.node x := by
      intro x hx
      apply rbChangeChild_node
      rintro ⟨⟩
      exact (List.mem_append.mp hx).elim hnodup.1.1 hnodup.1.2
    have hroot : (t.rbChangeChild old new (some f.node)).rbNode = t.rbNode := by
      rw [RbRoot.rbChangeChild]
      split <;> rfl
    refine ⟨?_, ?_, ?_⟩
    · rw [top, RbRoot.rbChangeChild]
      cases hs : f.side with
      | left =>
        rw [hs] at hnode
        rw [if_pos (by rw [hnode]; rfl), writeOnce_node, if_pos rfl, hnode]
        rfl
      | right =>
        rw [hs] at hnode
        have hne : (t.node f.node).rbLeft ≠ some old := by
          rw [hnode]
          intro heq
          exact hold.2.1 (RbTree.mem_toList_root heq)
        rw [if_neg hne, writeOnce_node, if_pos rfl, hnode]
        rfl
    · exact hsib.congr fun x hx => hother x (List.mem_append_left _ hx)
    · exact hctx.congr hroot fun x hx => hother x (List.mem_append_right _ hx)

/-- A subtree is replaced by another one, and then the pointer to it is changed. -/
theorem At.replace (h : At t ctx T) (hold : T.root = some old) (hrbNode : t'.rbNode = t.rbNode)
    (hout : ∀ x ∈ around ctx, t'.node x = t.node x) (hlinks : Links t' (top ctx) T')
    (hnodup : (T'.toList ++ around ctx).Nodup) :
  At (t'.rbChangeChild old T'.root (top ctx)) ctx T'
  := by
  obtain ⟨-, hctx, hdisj⟩ := nodup_append_around.mp hnodup
  constructor
  · have hcontext : Context t' (some old) ctx := by
      rw [← hold]
      exact h.context.congr hrbNode hout
    exact hcontext.rechild (h.not_mem (RbTree.mem_toList_root hold)) hctx _
  · apply hlinks.congr
    intro x hx
    apply rbChangeChild_node
    intro htop
    exact hdisj x hx (top_mem htop)
  · exact hnodup

/-- A local change, after which the pointer to the subtree is changed. -/
theorem At.rechild (h : At t ctx T) (hold : T.root = some old)
    (hl : Local t t' (top ctx) T T') :
  At (t'.rbChangeChild old T'.root (top ctx)) ctx T'
  := by
  obtain ⟨-, hctx, hdisj⟩ := nodup_append_around.mp h.nodup
  apply h.replace hold hl.rbNode
  · exact fun x hx => hl.out x fun hx' => hdisj x hx' hx
  · exact hl.links
  · exact nodup_append_around.mpr ⟨hl.nodup, hctx, fun x hx => hdisj x (hl.sub x hx)⟩

end Rbtree
