import Mathlib.Data.List.Basic
import Mathlib.Data.Nat.Log
import Mathlib.Algebra.Order.Group.Nat
import Mathlib.Tactic.Cases

/-!
# Red-black trees

Binary trees whose nodes are red or black. A position in a tree is a subtree together with
the frames that lead from it to the root, the innermost one first; `plug` puts the tree
together again.

`insertFix` repairs a tree in which a red node may have a red parent, `eraseFix` one in
which a subtree has one black node too few on all its paths. Both walk towards the root, and
the rotations are made in one of two mirror images, which the side of a frame selects. The
order of the nodes stays the same (`toList_insertFix`, `toList_eraseFix`), and the repaired
trees are balanced (`insertFix_isRedBlack`, `eraseFix_isRedBlack`). A balanced tree is not
higher than twice the logarithm of its size.
-/

namespace RedBlack

inductive Color where
  | red
  | black
deriving DecidableEq

inductive Side where
  | left
  | right
deriving DecidableEq

/-- The opposite side. -/
def Side.other : Side → Side
  | .left => .right
  | .right => .left

@[simp]
theorem Side.other_other (s : Side) :
  s.other.other = s
  := by cases s <;> rfl

@[simp]
theorem Side.other_ne (s : Side) :
  s.other ≠ s
  := by cases s <;> simp [other]

theorem Side.eq_other {s s' : Side} (h : s' ≠ s) :
  s' = s.other
  := by
  cases s <;> cases s' <;> simp [other] at h ⊢

theorem Color.eq_black {c : Color} (h : c ≠ .red) :
  c = .black
  := by
  cases c with
  | red => exact absurd rfl h
  | black => rfl

theorem Color.eq_red {c : Color} (h : c ≠ .black) :
  c = .red
  := by
  cases c with
  | red => rfl
  | black => exact absurd rfl h

/-- A binary tree whose nodes are colored. -/
inductive RbTree (ν : Type*) where
  | nil
  | node (c : Color) (l : RbTree ν) (x : ν) (r : RbTree ν)

/-- A step from a node to its child on `side`: the node, and what is on its other side. -/
structure Frame (ν : Type*) where
  side : Side
  color : Color
  node : ν
  sibling : RbTree ν

variable {ν : Type*}

namespace RbTree

def root : RbTree ν → Option ν
  | nil => none
  | node _ _ x _ => some x

/-- The color of the root; an empty tree is black. -/
def color : RbTree ν → Color
  | nil => .black
  | node c _ _ _ => c

/-- The nodes from left to right. -/
def toList : RbTree ν → List ν
  | nil => []
  | node _ l x r => l.toList ++ x :: r.toList

/-- Coloring the root. -/
def paint (c : Color) : RbTree ν → RbTree ν
  | nil => nil
  | node _ l x r => node c l x r

def height : RbTree ν → ℕ
  | nil => 0
  | node _ l _ r => max l.height r.height + 1

/-- The node `x` with `t` on the side `s` and `u` on the other side. -/
def join (s : Side) (c : Color) (t : RbTree ν) (x : ν) (u : RbTree ν) : RbTree ν :=
  match s with
  | .left => node c t x u
  | .right => node c u x t

/-- The child on the side `s`, the root and the other child. -/
def view (s : Side) : RbTree ν → Option (RbTree ν × ν × RbTree ν)
  | nil => none
  | node _ l x r =>
    match s with
    | .left => some (l, x, r)
    | .right => some (r, x, l)

@[simp]
theorem view_join (s : Side) (c : Color) (t : RbTree ν) (x : ν) (u : RbTree ν) :
  (join s c t x u).view s = some (t, x, u)
  := by cases s <;> rfl

/-- A node is the join of its children, seen from either side. -/
theorem exists_join (s : Side) (c : Color) (l : RbTree ν) (x : ν) (r : RbTree ν) :
  ∃ t u, node c l x r = join s c t x u
  := by
  cases s with
  | left => exact ⟨l, r, rfl⟩
  | right => exact ⟨r, l, rfl⟩

theorem join_other (s : Side) (c : Color) (t : RbTree ν) (x : ν) (u : RbTree ν) :
  join s.other c t x u = join s c u x t
  := by cases s <;> rfl

@[simp]
theorem root_join (s : Side) (c : Color) (t : RbTree ν) (x : ν) (u : RbTree ν) :
  (join s c t x u).root = some x
  := by cases s <;> rfl

@[simp]
theorem color_join (s : Side) (c : Color) (t : RbTree ν) (x : ν) (u : RbTree ν) :
  (join s c t x u).color = c
  := by cases s <;> rfl

@[simp]
theorem paint_join (s : Side) (c c' : Color) (t : RbTree ν) (x : ν) (u : RbTree ν) :
  (join s c t x u).paint c' = join s c' t x u
  := by cases s <;> rfl

@[simp]
theorem toList_paint (t : RbTree ν) (c : Color) :
  (t.paint c).toList = t.toList
  := by cases t <;> rfl

@[simp]
theorem root_paint (t : RbTree ν) (c : Color) :
  (t.paint c).root = t.root
  := by cases t <;> rfl

theorem paint_color (t : RbTree ν) :
  t.paint t.color = t
  := by cases t <;> rfl

@[simp]
theorem color_paint_black (t : RbTree ν) :
  (t.paint .black).color = .black
  := by cases t <;> rfl

/-- A red tree is not empty. -/
theorem exists_of_red {t : RbTree ν} (h : t.color = .red) (s : Side) :
  ∃ a x b, t = join s .red a x b
  := by
  cases t with
  | nil => cases h
  | node c l x r =>
    obtain rfl : c = .red := h
    obtain ⟨a, b, heq⟩ := exists_join s .red l x r
    exact ⟨a, x, b, heq⟩

theorem mem_toList_root {t : RbTree ν} {x : ν} (h : t.root = some x) :
  x ∈ t.toList
  := by
  cases t with
  | nil => cases h
  | node c l y r =>
    obtain rfl := Option.some.inj h
    exact List.mem_append_right _ List.mem_cons_self

theorem mem_toList_join {s : Side} {c : Color} {t u : RbTree ν} {x y : ν} :
  y ∈ (join s c t x u).toList ↔ y = x ∨ y ∈ t.toList ∨ y ∈ u.toList
  := by
  cases s <;> simp only [join, toList, List.mem_append, List.mem_cons] <;> tauto

theorem perm_toList_join (s : Side) (c : Color) (t : RbTree ν) (x : ν) (u : RbTree ν) :
  (join s c t x u).toList.Perm (x :: (t.toList ++ u.toList))
  := by
  cases s with
  | left => exact List.perm_middle
  | right => exact List.perm_middle.trans (List.perm_append_comm.cons x)

/-! ### Balanced trees -/

/-- Every path from the root to an empty tree passes through `n` black nodes, and the children
of a red node are black. -/
inductive Balanced : RbTree ν → ℕ → Prop
  | nil : Balanced .nil 0
  | red {l r : RbTree ν} {x : ν} {n : ℕ} (hl : l.Balanced n) (hr : r.Balanced n)
      (hlb : l.color = .black) (hrb : r.color = .black) : Balanced (.node .red l x r) n
  | black {l r : RbTree ν} {x : ν} {n : ℕ} (hl : l.Balanced n) (hr : r.Balanced n) :
      Balanced (.node .black l x r) (n + 1)

/-- A red-black tree: it is balanced and its root is black. -/
def IsRedBlack (t : RbTree ν) : Prop :=
  t.color = .black ∧ ∃ n, t.Balanced n

variable {s : Side} {t u : RbTree ν} {x : ν} {n : ℕ}

@[simp]
theorem balanced_join_red :
  (join s .red t x u).Balanced n
    ↔ t.Balanced n ∧ u.Balanced n ∧ t.color = .black ∧ u.color = .black
  := by
  constructor
  · intro h
    cases s with
    | left =>
      cases h with
      | red hl hr hlb hrb => exact ⟨hl, hr, hlb, hrb⟩
    | right =>
      cases h with
      | red hl hr hlb hrb => exact ⟨hr, hl, hrb, hlb⟩
  · rintro ⟨ht, hu, htb, hub⟩
    cases s with
    | left => exact .red ht hu htb hub
    | right => exact .red hu ht hub htb

@[simp]
theorem balanced_join_black :
  (join s .black t x u).Balanced (n + 1) ↔ t.Balanced n ∧ u.Balanced n
  := by
  constructor
  · intro h
    cases s with
    | left =>
      cases h with
      | black hl hr => exact ⟨hl, hr⟩
    | right =>
      cases h with
      | black hl hr => exact ⟨hr, hl⟩
  · rintro ⟨ht, hu⟩
    cases s with
    | left => exact .black ht hu
    | right => exact .black hu ht

theorem Balanced.of_join_black (h : (join s .black t x u).Balanced n) :
  ∃ m, n = m + 1 ∧ t.Balanced m ∧ u.Balanced m
  := by
  cases s with
  | left =>
    cases h with
    | black hl hr => exact ⟨_, rfl, hl, hr⟩
  | right =>
    cases h with
    | black hl hr => exact ⟨_, rfl, hr, hl⟩

/-- A tree with black nodes on its paths and a black root is not empty. -/
theorem Balanced.exists_join (h : t.Balanced (n + 1)) (hb : t.color = .black) (s : Side) :
  ∃ a x b, t = join s .black a x b ∧ a.Balanced n ∧ b.Balanced n
  := by
  cases h with
  | red hl hr hlb hrb => cases hb
  | @black l r x _ hl hr =>
    cases s with
    | left => exact ⟨l, x, r, rfl, hl, hr⟩
    | right => exact ⟨r, x, l, rfl, hr, hl⟩

/-- A red root may be painted black. -/
theorem Balanced.paint_black (h : t.Balanced n) :
  ∃ m, (t.paint .black).Balanced m
  := by
  cases h with
  | nil => exact ⟨0, .nil⟩
  | red hl hr => exact ⟨n + 1, .black hl hr⟩
  | black hl hr => exact ⟨_, .black hl hr⟩

theorem Balanced.paint_black_of_red (h : t.Balanced n) (hr : t.color = .red) :
  (t.paint .black).Balanced (n + 1)
  := by
  cases h with
  | nil => cases hr
  | red hl hr => exact .black hl hr
  | black hl hr => cases hr

/-- A path has at most twice as many nodes as black nodes, and one more below a red root. -/
theorem Balanced.height_le (h : t.Balanced n) :
  t.height ≤ 2 * n + 1 ∧ (t.color = .black → t.height ≤ 2 * n)
  := by
  induction h with
  | nil => simp [height]
  | red hl hr hlb hrb ihl ihr =>
    have h₁ := ihl.2 hlb
    have h₂ := ihr.2 hrb
    simp only [height, color]
    exact ⟨by omega, nofun⟩
  | black hl hr ihl ihr =>
    have h₁ := ihl.1
    have h₂ := ihr.1
    simp only [height]
    exact ⟨by omega, fun _ => by omega⟩

theorem Balanced.pow_le (h : t.Balanced n) :
  2 ^ n ≤ t.toList.length + 1
  := by
  induction h with
  | nil => rfl
  | red hl hr hlb hrb ihl ihr =>
    simp only [toList, List.length_append, List.length_cons]
    omega
  | black hl hr ihl ihr =>
    simp only [toList, List.length_append, List.length_cons, pow_succ]
    omega

/-- The height of a red-black tree is logarithmic in the number of its nodes. -/
theorem IsRedBlack.height_le (h : t.IsRedBlack) :
  t.height ≤ 2 * Nat.log 2 (t.toList.length + 1)
  := by
  obtain ⟨hb, n, hn⟩ := h
  have hlog : n ≤ Nat.log 2 (t.toList.length + 1) :=
    (Nat.le_log_iff_pow_le (by decide) (Nat.succ_ne_zero _)).mpr hn.pow_le
  have hheight := hn.height_le.2 hb
  omega

end RbTree

open RbTree

/-! ### Positions -/

/-- The tree of which a subtree is at the position `ctx`. -/
def plug : List (Frame ν) → RbTree ν → RbTree ν
  | [], t => t
  | f :: ctx, t => plug ctx (join f.side f.color t f.node f.sibling)

/-- The color of the parent; a root behaves like the child of a red node. -/
def parentColor : List (Frame ν) → Color
  | [] => .red
  | f :: _ => f.color

/-- The nodes beside and above a position. -/
def around : List (Frame ν) → List ν
  | [] => []
  | f :: ctx => f.node :: (f.sibling.toList ++ around ctx)

/-- The position accepts trees with `n` black nodes on their paths. -/
def Fits : List (Frame ν) → ℕ → Prop
  | [], _ => True
  | f :: ctx, n =>
    f.sibling.Balanced n ∧
      match f.color with
      | .black => Fits ctx (n + 1)
      | .red => f.sibling.color = .black ∧ parentColor ctx = .black ∧ Fits ctx n

variable {ctx : List (Frame ν)} {f p g : Frame ν} {t u : RbTree ν} {n : ℕ}

theorem plug_append (ctx ctx' : List (Frame ν)) (t : RbTree ν) :
  plug (ctx ++ ctx') t = plug ctx' (plug ctx t)
  := by
  induction ctx generalizing t with
  | nil => rfl
  | cons f ctx ih => apply ih

theorem around_append (ctx ctx' : List (Frame ν)) :
  around (ctx ++ ctx') = around ctx ++ around ctx'
  := by
  induction ctx with
  | nil => rfl
  | cons f ctx ih => simp [around, ih]

/-- The root of the whole tree is above the position. -/
theorem root_plug_cons (f : Frame ν) (ctx : List (Frame ν)) :
  ∃ x ∈ around (f :: ctx), ∀ t, (plug (f :: ctx) t).root = some x
  := by
  induction ctx generalizing f with
  | nil => exact ⟨f.node, List.mem_cons_self, fun t => root_join _ _ _ _ _⟩
  | cons g ctx ih =>
    obtain ⟨x, hx, hroot⟩ := ih g
    exact ⟨x, List.mem_cons_of_mem _ (List.mem_append_right _ hx), fun t => hroot _⟩

theorem perm_toList_plug (ctx : List (Frame ν)) (t : RbTree ν) :
  (plug ctx t).toList.Perm (t.toList ++ around ctx)
  := by
  induction ctx generalizing t with
  | nil =>
    rw [plug, around, List.append_nil]
  | cons f ctx ih =>
    have hjoin : (join f.side f.color t f.node f.sibling).toList.Perm
        (t.toList ++ f.node :: f.sibling.toList) :=
      (perm_toList_join _ _ _ _ _).trans List.perm_middle.symm
    rw [plug, around]
    apply (ih _).trans
    apply (hjoin.append_right _).trans
    rw [List.append_assoc, List.cons_append]

/-- The order of the nodes of the whole tree depends on the order of those of the subtree. -/
theorem toList_plug_congr (ctx : List (Frame ν)) (h : t.toList = u.toList) :
  (plug ctx t).toList = (plug ctx u).toList
  := by
  induction ctx generalizing t u with
  | nil => exact h
  | cons f ctx ih =>
    apply ih
    cases hs : f.side <;> simp only [join, toList, h]

theorem Fits.black (h : Fits (f :: ctx) n) (hf : f.color = .black) :
  f.sibling.Balanced n ∧ Fits ctx (n + 1)
  := by
  rw [Fits, hf] at h
  exact h

theorem Fits.red (h : Fits (f :: ctx) n) (hf : f.color = .red) :
  f.sibling.Balanced n ∧ f.sibling.color = .black ∧ parentColor ctx = .black ∧ Fits ctx n
  := by
  rw [Fits, hf] at h
  exact h

theorem Fits.sibling_ne_nil (h : Fits (f :: ctx) (n + 1)) :
  f.sibling ≠ .nil
  := by
  have hbal := h.1
  intro hnil
  rw [hnil] at hbal
  cases hbal

/-- What fits makes a red-black tree. -/
theorem Fits.plug (h : Fits ctx n) (ht : t.Balanced n)
    (hcolor : parentColor ctx = .red → t.color = .black) :
  (plug ctx t).IsRedBlack
  := by
  induction ctx generalizing t n with
  | nil => exact ⟨hcolor rfl, n, ht⟩
  | cons f ctx ih =>
    rw [RedBlack.plug]
    cases hf : f.color with
    | black =>
      obtain ⟨hsib, hctx⟩ := h.black hf
      apply ih hctx
      · exact balanced_join_black.mpr ⟨ht, hsib⟩
      · exact fun _ => color_join _ _ _ _ _
    | red =>
      obtain ⟨hsib, hsibb, hpar, hctx⟩ := h.red hf
      apply ih hctx
      · exact balanced_join_red.mpr ⟨ht, hsib, hcolor hf, hsibb⟩
      · rw [hpar]
        exact nofun

/-- Every position of a red-black tree fits the subtree that is there. -/
theorem exists_fits (h : (plug ctx t).IsRedBlack) :
  ∃ n, Fits ctx n ∧ t.Balanced n ∧ (parentColor ctx = .red → t.color = .black)
  := by
  induction ctx generalizing t with
  | nil =>
    obtain ⟨hb, n, hn⟩ := h
    exact ⟨n, trivial, hn, fun _ => hb⟩
  | cons f ctx ih =>
    obtain ⟨n, hctx, hjoin, hcolor⟩ := ih h
    rw [color_join] at hcolor
    cases hf : f.color with
    | black =>
      rw [hf] at hjoin
      obtain ⟨m, rfl, ht, hsib⟩ := hjoin.of_join_black
      refine ⟨m, ?_, ht, ?_⟩
      · rw [Fits, hf]
        exact ⟨hsib, hctx⟩
      · rw [parentColor, hf]
        exact nofun
    | red =>
      rw [hf] at hjoin hcolor
      obtain ⟨ht, hsib, htb, hsibb⟩ := balanced_join_red.mp hjoin
      refine ⟨n, ?_, ht, fun _ => htb⟩
      rw [Fits, hf]
      refine ⟨hsib, hsibb, ?_, hctx⟩
      exact Color.eq_black fun hred => nomatch hcolor hred

/-! ### Insertion -/

/-- The rotations below the black node `g` with a red child `p`, whose child `t` is red, when
the other child of `g` is black. -/
def insertRotate (p g : Frame ν) (t : RbTree ν) : RbTree ν :=
  if p.side = g.side then
    join g.side .black t p.node (join g.side .red p.sibling g.node g.sibling)
  else
    match t with
    | .nil => .nil
    | .node _ l x r =>
      match g.side with
      | .left => .node .black (.node .red p.sibling p.node l) x (.node .red r g.node g.sibling)
      | .right => .node .black (.node .red g.sibling g.node l) x (.node .red r p.node p.sibling)

/-- The whole tree, repaired where the red tree `t` may have a red parent. -/
def insertFix : List (Frame ν) → RbTree ν → RbTree ν
  | [], t => t.paint .black
  | [p], t => plug [p] t
  | p :: g :: ctx, t =>
    if p.color = .black then
      plug (p :: g :: ctx) t
    else if g.sibling.color = .red then
      insertFix ctx (join g.side .red (join p.side .black t p.node p.sibling) g.node
        (g.sibling.paint .black))
    else
      plug ctx (insertRotate p g t)

/-- The rotation of a grandchild that lies between its parent and its grandparent. -/
theorem insertRotate_of_ne {a b : RbTree ν} {x : ν} {c : Color} (h : p.side ≠ g.side) :
  insertRotate p g (join g.side c a x b)
    = join g.side .black (join g.side .red p.sibling p.node a) x
        (join g.side .red b g.node g.sibling)
  := by
  unfold insertRotate
  rw [if_neg h]
  cases hs : g.side <;> rfl

theorem insertRotate_of_eq (h : p.side = g.side) :
  insertRotate p g t
    = join g.side .black t p.node (join g.side .red p.sibling g.node g.sibling)
  := if_pos h

theorem toList_insertRotate (ht : t ≠ .nil) :
  (insertRotate p g t).toList
    = (join g.side g.color (join p.side p.color t p.node p.sibling) g.node g.sibling).toList
  := by
  by_cases h : p.side = g.side
  · rw [insertRotate_of_eq h, h]
    cases hs : g.side <;> simp [join, toList]
  · cases t with
    | nil => exact absurd rfl ht
    | node c l x r =>
      obtain ⟨a, b, heq⟩ := exists_join g.side c l x r
      rw [heq, insertRotate_of_ne h, Side.eq_other h]
      cases hs : g.side <;> simp [join, toList, Side.other]

theorem toList_insertFix (ht : t ≠ .nil) :
  (insertFix ctx t).toList = (plug ctx t).toList
  := by
  induction ctx, t using insertFix.induct with
  | case1 t => exact toList_paint t .black
  | case2 t p => rfl
  | case3 p g ctx t hp => rw [insertFix, if_pos hp]
  | case4 p g ctx t hp hg ih =>
    rw [insertFix, if_neg hp, if_pos hg, ih (by cases g.side <;> exact nofun)]
    apply toList_plug_congr ctx
    cases hs : g.side <;> cases hs' : p.side <;> simp [join, toList]
  | case5 p g ctx t hp hg =>
    rw [insertFix, if_neg hp, if_neg hg]
    exact toList_plug_congr ctx (toList_insertRotate ht)

/-- The repaired tree is a red-black tree. -/
theorem insertFix_isRedBlack (hctx : Fits ctx n) (ht : t.Balanced n) (hred : t.color = .red) :
  (insertFix ctx t).IsRedBlack
  := by
  induction ctx, t using insertFix.induct generalizing n with
  | case1 t => exact ⟨color_paint_black t, ht.paint_black⟩
  | case2 t p =>
    apply hctx.plug ht
    intro hp
    cases (hctx.red hp).2.2.1
  | case3 p g ctx t hp =>
    rw [insertFix, if_pos hp]
    apply hctx.plug ht
    rw [parentColor, hp]
    exact nofun
  | case4 p g ctx t hp hg ih =>
    obtain ⟨hps, hpsb, hgb, hgctx⟩ := hctx.red (Color.eq_red hp)
    obtain ⟨hgs, hctx'⟩ := hgctx.black hgb
    rw [insertFix, if_neg hp, if_pos hg]
    apply ih hctx'
    · apply balanced_join_red.mpr
      exact ⟨balanced_join_black.mpr ⟨ht, hps⟩, hgs.paint_black_of_red hg,
        color_join _ _ _ _ _, color_paint_black _⟩
    · exact color_join _ _ _ _ _
  | case5 p g ctx t hp hg =>
    obtain ⟨hps, hpsb, hgb, hgctx⟩ := hctx.red (Color.eq_red hp)
    obtain ⟨hgs, hctx'⟩ := hgctx.black hgb
    have hgsb := Color.eq_black hg
    rw [insertFix, if_neg hp, if_neg hg]
    by_cases h : p.side = g.side
    · rw [insertRotate_of_eq h]
      apply hctx'.plug
      · exact balanced_join_black.mpr ⟨ht, balanced_join_red.mpr ⟨hps, hgs, hpsb, hgsb⟩⟩
      · exact fun _ => color_join _ _ _ _ _
    · obtain ⟨a, x, b, rfl⟩ := exists_of_red hred g.side
      obtain ⟨ha, hb, hab, hbb⟩ := balanced_join_red.mp ht
      rw [insertRotate_of_ne h]
      apply hctx'.plug
      · exact balanced_join_black.mpr ⟨balanced_join_red.mpr ⟨hps, ha, hpsb, hab⟩,
          balanced_join_red.mpr ⟨hb, hgs, hbb, hgsb⟩⟩
      · exact fun _ => color_join _ _ _ _ _

/-! ### Deletion -/

/-- The number of black nodes that a node of this color contributes. -/
def Color.weight : Color → ℕ
  | .red => 0
  | .black => 1

/-- What becomes of the subtree at the frame `f` when `t` has one black node too few and the
sibling is black, and whether the missing node has been made up for. -/
def settle (f : Frame ν) (t : RbTree ν) : RbTree ν × Bool :=
  match f.sibling.view f.side with
  | none => (join f.side f.color t f.node f.sibling, true)
  | some (near, s, far) =>
    if far.color = .red then
      (join f.side f.color (join f.side .black t f.node near) s (far.paint .black), true)
    else
      match near.color, near.view f.side with
      | .red, some (a, n, b) =>
        (join f.side f.color (join f.side .black t f.node a) n (join f.side .black b s far), true)
      | _, _ => (join f.side .black t f.node (join f.side .red near s far), f.color = .red)

/-- The whole tree, repaired where the subtree `t` has one black node too few on its paths. -/
def eraseFix : List (Frame ν) → RbTree ν → RbTree ν
  | [], t => t
  | f :: ctx, t =>
    match f.sibling.color, f.sibling.view f.side with
    | .red, some (near, s, far) =>
      plug (⟨f.side, f.color, s, far⟩ :: ctx) (settle ⟨f.side, .red, f.node, near⟩ t).1
    | _, _ =>
      match settle f t with
      | (u, true) => plug ctx u
      | (u, false) => eraseFix ctx u

section Settle

variable {s : Side} {c c' : Color} {x y z : ν} {a b near far : RbTree ν}

/-- The far nephew is red. -/
theorem settle_far (h : far.color = .red) :
  settle ⟨s, c, x, join s c' near y far⟩ t
    = (join s c (join s .black t x near) y (far.paint .black), true)
  := by
  simp only [settle, view_join]
  rw [if_pos h]

/-- Only the near nephew is red. -/
theorem settle_near (h : far.color = .black) :
  settle ⟨s, c, x, join s c' (join s .red a z b) y far⟩ t
    = (join s c (join s .black t x a) z (join s .black b y far), true)
  := by
  simp only [settle, view_join, color_join, h]
  rfl

/-- Both nephews are black. -/
theorem settle_flip (h : far.color = .black) (h' : near.color = .black) :
  settle ⟨s, c, x, join s c' near y far⟩ t
    = (join s .black t x (join s .red near y far), decide (c = .red))
  := by
  simp only [settle, view_join, h, h']
  rfl

/-- The cases for a sibling that is not empty. -/
theorem settle_cases (near far : RbTree ν) (s : Side) :
  far.color = .red ∨ (far.color = .black ∧ ∃ a z b, near = join s .red a z b)
    ∨ (far.color = .black ∧ near.color = .black)
  := by
  by_cases hfar : far.color = .red
  · exact Or.inl hfar
  · right
    by_cases hnear : near.color = .red
    · exact Or.inl ⟨Color.eq_black hfar, exists_of_red hnear s⟩
    · exact Or.inr ⟨Color.eq_black hfar, Color.eq_black hnear⟩

/-- The order of the nodes stays the same. -/
theorem toList_settle :
  (settle f t).1.toList = (join f.side f.color t f.node f.sibling).toList
  := by
  obtain ⟨s, c, x, sibling⟩ := f
  cases sibling with
  | nil => rfl
  | node c' l y r =>
    obtain ⟨near, far, heq⟩ := exists_join s c' l y r
    rw [heq]
    obtain hfar | ⟨hfar, a, z, b, rfl⟩ | ⟨hfar, hnear⟩ := settle_cases near far s
    · rw [settle_far hfar]
      cases s <;> simp [join, toList]
    · rw [settle_near hfar]
      cases s <;> simp [join, toList]
    · rw [settle_flip hfar hnear]
      cases s <;> simp [join, toList]

/-- The black nodes on the paths through a join. -/
theorem balanced_join (ht : t.Balanced n) (hu : u.Balanced n)
    (htb : c = .red → t.color = .black) (hub : c = .red → u.color = .black) :
  (join s c t x u).Balanced (n + c.weight)
  := by
  cases c with
  | red => exact balanced_join_red.mpr ⟨ht, hu, htb rfl, hub rfl⟩
  | black => exact balanced_join_black.mpr ⟨ht, hu⟩

/-- The subtree is balanced afterwards, and the missing node is made up for if it has been
said to be. -/
theorem settle_spec (ht : t.Balanced n) (hsib : f.sibling.Balanced (n + 1))
    (hb : f.sibling.color = .black) :
  ((settle f t).2 = true ∧ (settle f t).1.Balanced (n + 1 + f.color.weight)
      ∧ (f.color = .black → (settle f t).1.color = .black))
    ∨ ((settle f t).2 = false ∧ f.color = .black ∧ (settle f t).1.Balanced (n + 1)
      ∧ (settle f t).1.color = .black)
  := by
  obtain ⟨s, c, x, sibling⟩ := f
  obtain ⟨near, y, far, rfl, hnear, hfar⟩ := hsib.exists_join hb s
  obtain hred | ⟨hblack, a, z, b, rfl⟩ | ⟨hblack, hblack'⟩ := settle_cases near far s
  · rw [settle_far hred]
    refine Or.inl ⟨rfl, ?_, ?_⟩
    · apply balanced_join
      · exact balanced_join_black.mpr ⟨ht, hnear⟩
      · exact hfar.paint_black_of_red hred
      · exact fun _ => color_join _ _ _ _ _
      · exact fun _ => color_paint_black _
    · rintro rfl
      apply color_join
  · obtain ⟨ha, hb', -, -⟩ := balanced_join_red.mp hnear
    rw [settle_near hblack]
    refine Or.inl ⟨rfl, ?_, ?_⟩
    · apply balanced_join
      · exact balanced_join_black.mpr ⟨ht, ha⟩
      · exact balanced_join_black.mpr ⟨hb', hfar⟩
      · exact fun _ => color_join _ _ _ _ _
      · exact fun _ => color_join _ _ _ _ _
    · rintro rfl
      apply color_join
  · have hflip : (join s .black t x (join s .red near y far)).Balanced (n + 1) :=
      balanced_join_black.mpr ⟨ht, balanced_join_red.mpr ⟨hnear, hfar, hblack', hblack⟩⟩
    rw [settle_flip hblack hblack']
    cases c with
    | red => exact Or.inl ⟨rfl, hflip, nofun⟩
    | black => exact Or.inr ⟨rfl, rfl, hflip, color_join _ _ _ _ _⟩

/-- The node stays at the root when the missing node has not been made up for. -/
theorem root_settle (h : (settle f t).2 = false) :
  (settle f t).1.root = some f.node
  := by
  obtain ⟨s, c, x, sibling⟩ := f
  cases sibling with
  | nil => cases h
  | node c' l y r =>
    obtain ⟨near, far, heq⟩ := exists_join s c' l y r
    rw [heq] at h ⊢
    obtain hfar | ⟨hfar, a, z, b, rfl⟩ | ⟨hfar, hnear⟩ := settle_cases near far s
    · rw [settle_far hfar] at h
      cases h
    · rw [settle_near hfar] at h
      cases h
    · rw [settle_flip hfar hnear]
      exact root_join _ _ _ _ _

end Settle

theorem eraseFix_of_red {s : Side} {c : Color} {x y : ν} {near far : RbTree ν} :
  eraseFix (⟨s, c, x, join s .red near y far⟩ :: ctx) t
    = plug (⟨s, c, y, far⟩ :: ctx) (settle ⟨s, .red, x, near⟩ t).1
  := by
  simp only [eraseFix, color_join, view_join]

theorem eraseFix_of_black (h : f.sibling.color = .black) :
  eraseFix (f :: ctx) t
    = if (settle f t).2 then plug ctx (settle f t).1 else eraseFix ctx (settle f t).1
  := by
  rw [eraseFix, h]
  cases settle f t with
  | mk u done => cases done <;> rfl

theorem toList_eraseFix (ctx : List (Frame ν)) (t : RbTree ν) :
  (eraseFix ctx t).toList = (plug ctx t).toList
  := by
  induction ctx generalizing t with
  | nil => rfl
  | cons f ctx ih =>
    by_cases hred : f.sibling.color = .red
    · obtain ⟨s, c, x, sibling⟩ := f
      obtain ⟨near, y, far, rfl⟩ := exists_of_red hred s
      rw [eraseFix_of_red]
      apply toList_plug_congr ctx
      have hsettle : (settle ⟨s, .red, x, near⟩ t).1.toList = (join s .red t x near).toList :=
        toList_settle
      cases s <;> simp only [join, toList, hsettle] <;> simp
    · rw [eraseFix_of_black (Color.eq_black hred)]
      split
      · exact toList_plug_congr ctx toList_settle
      · rw [ih]
        exact toList_plug_congr ctx toList_settle

/-- The repaired tree is a red-black tree. -/
theorem eraseFix_isRedBlack (hctx : Fits ctx (n + 1)) (ht : t.Balanced n)
    (hb : t.color = .black) :
  (eraseFix ctx t).IsRedBlack
  := by
  induction ctx generalizing t n with
  | nil => exact ⟨hb, n, ht⟩
  | cons f ctx ih =>
    by_cases hred : f.sibling.color = .red
    · obtain ⟨s, c, x, sibling⟩ := f
      obtain ⟨near, y, far, rfl⟩ := exists_of_red hred s
      obtain rfl : c = .black := by
        apply Color.eq_black
        rintro rfl
        cases hred.symm.trans (hctx.red rfl).2.1
      obtain ⟨hsib, hctx'⟩ := hctx.black rfl
      obtain ⟨hnear, hfar, hnearb, hfarb⟩ := balanced_join_red.mp hsib
      have hfits : Fits (⟨s, .black, y, far⟩ :: ctx) (n + 1) := ⟨hfar, hctx'⟩
      rw [eraseFix_of_red]
      obtain ⟨-, hbal, -⟩ | ⟨-, hc, -⟩ :=
        settle_spec (f := ⟨s, .red, x, near⟩) ht hnear hnearb
      · exact hfits.plug hbal nofun
      · cases hc
    · have hsibb := Color.eq_black hred
      rw [eraseFix_of_black hsibb]
      cases hf : f.color with
      | black =>
        obtain ⟨hsib, hctx'⟩ := hctx.black hf
        obtain ⟨hdone, hbal, hcolor⟩ | ⟨hdone, -, hbal, hcolor⟩ := settle_spec ht hsib hsibb
        · rw [hdone, if_pos rfl]
          rw [hf] at hbal
          exact hctx'.plug hbal fun _ => hcolor hf
        · rw [hdone, if_neg (by decide)]
          exact ih hctx' hbal hcolor
      | red =>
        obtain ⟨hsib, -, hpar, hctx'⟩ := hctx.red hf
        obtain ⟨hdone, hbal, hcolor⟩ | ⟨-, hc, -⟩ := settle_spec ht hsib hsibb
        · rw [hdone, if_pos rfl]
          rw [hf] at hbal
          apply hctx'.plug hbal
          rw [hpar]
          exact nofun
        · cases hf.symm.trans hc

end RedBlack
