import TrainsOs.Lib.RedBlack
import Mathlib.Data.List.Sort

/-!
# Searching, stepping and removing in a red-black tree

`zoom` walks down from the root in given directions. What is to the left and to the right of
the position that it reaches is known when the nodes are ordered (`directed_zoom`), so a node
put there lands at its place in the order (`toList_plug_zoom`).

`eraseRoot` takes a node out of the tree: a node with one child at most is taken away, and one
with two gives its place to its successor.
-/

namespace RedBlack

open RbTree

variable {ν : Type*}

/-- The nodes to the left of a position. -/
def before : List (Frame ν) → List ν
  | [] => []
  | f :: ctx =>
    match f.side with
    | .left => before ctx
    | .right => before ctx ++ (f.sibling.toList ++ [f.node])

/-- The nodes to the right of a position. -/
def after : List (Frame ν) → List ν
  | [] => []
  | f :: ctx =>
    match f.side with
    | .left => f.node :: (f.sibling.toList ++ after ctx)
    | .right => after ctx

/-- The way down from the position `ctx` in the directions `d`: the position where it ends,
and the subtree there. -/
def zoom (d : ν → Option Side) : RbTree ν → List (Frame ν) → List (Frame ν) × RbTree ν
  | .nil, ctx => (ctx, .nil)
  | .node c l x r, ctx =>
    match d x with
    | none => (ctx, .node c l x r)
    | some .left => zoom d l (⟨.left, c, x, r⟩ :: ctx)
    | some .right => zoom d r (⟨.right, c, x, l⟩ :: ctx)

/-- The directions are those of a cut: left of a node that is right of it, and right of one
that is left of it. -/
def IsCut (d : ν → Option Side) (xs : List ν) : Prop :=
  xs.Pairwise fun x y =>
    (d x = some .left → d y = some .left) ∧ (d y = some .right → d x = some .right)

/-- The directions lead to the position. -/
def Directed (d : ν → Option Side) (ctx : List (Frame ν)) : Prop :=
  (∀ x ∈ before ctx, d x = some .right) ∧ ∀ x ∈ after ctx, d x = some .left

variable {d : ν → Option Side} {ctx ctx' : List (Frame ν)} {t u : RbTree ν} {c : Color}
  {x y : ν} {n : ℕ}

theorem toList_plug (ctx : List (Frame ν)) (t : RbTree ν) :
  (plug ctx t).toList = before ctx ++ t.toList ++ after ctx
  := by
  induction ctx generalizing t with
  | nil => exact (List.append_nil _).symm
  | cons f ctx ih =>
    rw [plug, ih]
    cases hs : f.side <;> simp [join, toList, before, after, hs]

theorem plug_zoom (t : RbTree ν) (ctx : List (Frame ν)) :
  plug (zoom d t ctx).1 (zoom d t ctx).2 = plug ctx t
  := by
  induction t generalizing ctx with
  | nil => rfl
  | node c l x r ihl ihr =>
    rw [zoom]
    cases d x with
    | none => rfl
    | some s =>
      cases s with
      | left => exact ihl _
      | right => exact ihr _

theorem length_zoom_le (t : RbTree ν) (ctx : List (Frame ν)) :
  (zoom d t ctx).1.length ≤ ctx.length + t.height
  := by
  induction t generalizing ctx with
  | nil => exact Nat.le_add_right _ _
  | node c l x r ihl ihr =>
    rw [zoom, height]
    cases d x with
    | none => exact Nat.le_add_right _ _
    | some s =>
      cases s with
      | left =>
        have h := ihl (⟨.left, c, x, r⟩ :: ctx)
        simp only [List.length_cons] at h
        dsimp only
        omega
      | right =>
        have h := ihr (⟨.right, c, x, l⟩ :: ctx)
        simp only [List.length_cons] at h
        dsimp only
        omega

/-- The way ends at an empty place or at a node without a direction. -/
theorem zoom_end (t : RbTree ν) (ctx : List (Frame ν)) :
  (zoom d t ctx).2 = .nil ∨ ∃ x, (zoom d t ctx).2.root = some x ∧ d x = none
  := by
  induction t generalizing ctx with
  | nil => exact Or.inl rfl
  | node c l x r ihl ihr =>
    rw [zoom]
    cases hd : d x with
    | none => exact Or.inr ⟨x, rfl, hd⟩
    | some s =>
      cases s with
      | left => exact ihl _
      | right => exact ihr _

theorem directed_nil :
  Directed d ([] : List (Frame ν))
  := by constructor <;> exact fun _ h => absurd h List.not_mem_nil

/-- When the nodes are in order, everything beside the way is where the directions say. -/
theorem directed_zoom (hcut : IsCut d (plug ctx t).toList) (hctx : Directed d ctx) :
  Directed d (zoom d t ctx).1
  := by
  induction t generalizing ctx with
  | nil => exact hctx
  | node c l x r ihl ihr =>
    rw [zoom]
    cases hd : d x with
    | none => exact hctx
    | some s =>
      have hcut' := hcut
      rw [toList_plug, IsCut, toList] at hcut'
      obtain ⟨-, hlr, -⟩ := List.pairwise_append.mp (List.pairwise_append.mp hcut').1
      obtain ⟨-, hxr, hlx⟩ := List.pairwise_append.mp hlr
      cases s with
      | left =>
        apply ihl hcut
        refine ⟨hctx.1, ?_⟩
        simp only [after, List.mem_cons, List.mem_append]
        rintro y (rfl | hy | hy)
        · exact hd
        · exact ((List.pairwise_cons.mp hxr).1 y hy).1 hd
        · exact hctx.2 y hy
      | right =>
        apply ihr hcut
        refine ⟨?_, hctx.2⟩
        simp only [before, List.mem_append, List.mem_singleton]
        rintro y (hy | hy | rfl)
        · exact hctx.1 y hy
        · exact (hlx y hy x List.mem_cons_self).2 hd
        · exact hd

/-- A search from the root that ends at an empty place has not passed by a node without a
direction. -/
theorem forall_ne_none_of_zoom (hcut : IsCut d t.toList) (hnil : (zoom d t []).2 = .nil)
    (hx : x ∈ t.toList) :
  d x ≠ none
  := by
  have hplug : t = plug (zoom d t []).1 .nil := by
    rw [← hnil, plug_zoom]
    rfl
  obtain ⟨hb, ha⟩ : Directed d (zoom d t []).1 := directed_zoom hcut directed_nil
  rw [hplug, toList_plug] at hx
  simp only [toList, List.append_nil, List.mem_append] at hx
  obtain hx | hx := hx
  · rw [hb x hx]
    exact Option.some_ne_none _
  · rw [ha x hx]
    exact Option.some_ne_none _

theorem orderedInsert_append {r : ν → ν → Prop} [DecidableRel r] {xs ys : List ν} {a : ν}
    (hxs : ∀ x ∈ xs, ¬ r a x) (hys : ∀ y ∈ ys, r a y) :
  (xs ++ ys).orderedInsert r a = xs ++ a :: ys
  := by
  induction xs with
  | nil =>
    cases ys with
    | nil => rfl
    | cons y ys => exact List.orderedInsert_cons_of_le _ ys (hys y List.mem_cons_self)
  | cons x xs ih =>
    rw [List.cons_append, List.orderedInsert_of_not_le _ _ (hxs x List.mem_cons_self),
      ih fun y hy => hxs y (List.mem_cons_of_mem x hy)]
    rfl

/-- A node put where the search for it ends is inserted before the first greater one. -/
theorem toList_plug_zoom {r : ν → ν → Prop} [DecidableRel r] {a : ν}
    (hcut : IsCut d t.toList) (hnil : (zoom d t []).2 = .nil)
    (hr : ∀ x ∈ t.toList, (d x = some .left → r a x) ∧ (d x = some .right → ¬ r a x)) :
  (plug (zoom d t []).1 (.node c .nil a .nil)).toList = t.toList.orderedInsert r a
  := by
  have hplug : t = plug (zoom d t []).1 .nil := by
    rw [← hnil, plug_zoom]
    rfl
  obtain ⟨hb, ha⟩ : Directed d (zoom d t []).1 := directed_zoom hcut directed_nil
  have hlist : t.toList = before (zoom d t []).1 ++ after (zoom d t []).1 := by
    conv_lhs => rw [hplug, toList_plug, toList, List.append_nil]
  rw [toList_plug, hlist, orderedInsert_append]
  · simp [toList]
  · intro x hx
    apply (hr x _).2 (hb x hx)
    rw [hlist]
    exact List.mem_append_left _ hx
  · intro x hx
    apply (hr x _).1 (ha x hx)
    rw [hlist]
    exact List.mem_append_right _ hx

/-- Every node of a tree is at a position. -/
theorem exists_position (hx : x ∈ t.toList) :
  ∃ ctx c l r, t = plug ctx (.node c l x r)
  := by
  induction t with
  | nil => cases hx
  | node c l y r ihl ihr =>
    simp only [toList, List.mem_append, List.mem_cons] at hx
    obtain hx | rfl | hx := hx
    · obtain ⟨ctx, c', l', r', rfl⟩ := ihl hx
      refine ⟨ctx ++ [⟨.left, c, y, r⟩], c', l', r', ?_⟩
      rw [plug_append]
      rfl
    · exact ⟨[], c, l, r, rfl⟩
    · obtain ⟨ctx, c', l', r', rfl⟩ := ihr hx
      refine ⟨ctx ++ [⟨.right, c, y, l⟩], c', l', r', ?_⟩
      rw [plug_append]
      rfl

/-- The position of a node splits the list of the nodes there. -/
theorem exists_position_eq {xs ys : List ν} (hn : t.toList.Nodup)
    (heq : t.toList = xs ++ x :: ys) :
  ∃ ctx c l r, t = plug ctx (.node c l x r) ∧ xs = before ctx ++ l.toList
    ∧ ys = r.toList ++ after ctx
  := by
  obtain ⟨ctx, c, l, r, rfl⟩ : ∃ ctx c l r, t = plug ctx (.node c l x r) := by
    apply exists_position
    rw [heq]
    exact List.mem_append_right xs List.mem_cons_self
  rw [heq] at hn
  obtain ⟨-, hys, hxs⟩ := List.nodup_append.mp hn
  have hxxs : x ∉ xs := fun hmem => hxs x hmem x List.mem_cons_self rfl
  have hxys : x ∉ ys := (List.nodup_cons.mp hys).1
  rw [toList_plug, toList, ← List.append_assoc, List.append_assoc, List.cons_append] at heq
  obtain ⟨hbefore, -, hafter⟩ := (List.append_cons_inj_of_notMem hxxs hxys).mp heq.symm
  exact ⟨ctx, c, l, r, rfl, hbefore, hafter⟩

theorem height_lt_join (s : Side) (c : Color) (t : RbTree ν) (x : ν) (u : RbTree ν) :
  t.height < (join s c t x u).height
  := by
  cases s with
  | left => exact Nat.lt_succ_of_le (Nat.le_max_left _ _)
  | right => exact Nat.lt_succ_of_le (Nat.le_max_right _ _)

theorem length_add_height_le (ctx : List (Frame ν)) (t : RbTree ν) :
  ctx.length + t.height ≤ (plug ctx t).height
  := by
  induction ctx generalizing t with
  | nil => simp [plug]
  | cons f ctx ih =>
    have hjoin := height_lt_join f.side f.color t f.node f.sibling
    have h := ih (join f.side f.color t f.node f.sibling)
    simp only [plug, List.length_cons]
    omega

/-- What the list is when it is read towards the side `s`. -/
def listed (s : Side) (xs : List ν) : List ν :=
  match s with
  | .left => xs.reverse
  | .right => xs

/-- What is beyond a position towards the side `s`, the nearest first. -/
def beyond (s : Side) (ctx : List (Frame ν)) : List ν :=
  match s with
  | .left => (before ctx).reverse
  | .right => after ctx

theorem beyond_cons_same {f : Frame ν} {s : Side} (h : f.side = s) :
  beyond s (f :: ctx) = beyond s ctx
  := by
  subst h
  cases hs : f.side <;> simp [beyond, before, after, hs]

theorem beyond_cons_other {f : Frame ν} {s : Side} (h : f.side ≠ s) :
  beyond s (f :: ctx) = f.node :: (listed s f.sibling.toList ++ beyond s ctx)
  := by
  have hs := Side.eq_other h
  cases s <;> simp [beyond, before, after, listed, hs, Side.other]

theorem listed_join (s : Side) (c : Color) (t : RbTree ν) (x : ν) (u : RbTree ν) :
  listed s.other (join s c t x u).toList
    = listed s.other t.toList ++ x :: listed s.other u.toList
  := by cases s <;> simp [listed, join, toList, Side.other]

/-! ### Removing a node -/

/-- The tree when a node of the color `c` with the only child `u` is taken away at the
position `ctx`. -/
def splice (ctx : List (Frame ν)) (c : Color) (u : RbTree ν) : RbTree ν :=
  match u, c with
  | .nil, .black => eraseFix ctx .nil
  | u, _ => plug ctx (u.paint .black)

/-- The position of the leftmost node below the tree, as the frame that leads to its empty
left child. -/
def spine : RbTree ν → List (Frame ν)
  | .nil => []
  | .node c l x r => spine l ++ [⟨.left, c, x, r⟩]

/-- The tree when the root of the subtree at the position `ctx` is taken away. -/
def eraseRoot (ctx : List (Frame ν)) : RbTree ν → RbTree ν
  | .nil => plug ctx .nil
  | .node c l _ r =>
    match l, spine r with
    | .nil, _ => splice ctx c r
    | l, [] => splice ctx c l
    | l, f :: path => splice (path ++ ⟨.right, c, f.node, l⟩ :: ctx) f.color f.sibling

theorem plug_spine (t : RbTree ν) :
  plug (spine t) .nil = t
  := by
  induction t with
  | nil => rfl
  | node c l x r ihl ihr =>
    rw [spine, plug_append, ihl]
    rfl

theorem spine_side {f : Frame ν} (t : RbTree ν) (h : f ∈ spine t) :
  f.side = .left
  := by
  induction t with
  | nil => cases h
  | node c l x r ihl ihr =>
    rw [spine, List.mem_append, List.mem_singleton] at h
    obtain h | rfl := h
    · exact ihl h
    · rfl

theorem toList_splice (ctx : List (Frame ν)) (c : Color) (u : RbTree ν) :
  (splice ctx c u).toList = (plug ctx u).toList
  := by
  unfold splice
  split
  · exact toList_eraseFix ctx .nil
  · exact toList_plug_congr ctx (toList_paint _ _)

/-- Taking a node with one child at most away keeps a red-black tree. -/
theorem splice_isRedBlack {s : Side} (h : (plug ctx (join s c .nil x u)).IsRedBlack) :
  (splice ctx c u).IsRedBlack
  := by
  obtain ⟨n, hctx, hbal, -⟩ := exists_fits h
  cases c with
  | red =>
    obtain ⟨hnil, hu, -, hub⟩ := balanced_join_red.mp hbal
    have heq : splice ctx .red u = plug ctx (u.paint .black) := by
      cases u <;> rfl
    rw [heq, ← hub, paint_color]
    exact hctx.plug hu fun _ => hub
  | black =>
    obtain ⟨m, rfl, hnil, hu⟩ := hbal.of_join_black
    cases hnil
    cases hu with
    | nil => exact eraseFix_isRedBlack hctx .nil rfl
    | red hl hr => exact hctx.plug (.black hl hr) fun _ => rfl

/-- An only child is red, and its parent is black. -/
theorem black_of_child {u : RbTree ν} (hrb : (plug ctx (join s c .nil x u)).IsRedBlack)
    (hu : u ≠ .nil) :
  c = .black
  := by
  apply Color.eq_black
  rintro rfl
  obtain ⟨k, -, hbal, -⟩ := exists_fits hrb
  obtain ⟨hnil, hubal, -, hub⟩ := balanced_join_red.mp hbal
  cases hnil
  cases hubal with
  | nil => exact hu rfl
  | red => cases hub

/-- Whether a tree is a red-black tree does not depend on the names of its nodes. -/
theorem fits_rename {s : Side} {path : List (Frame ν)} :
  Fits (path ++ ⟨s, c, x, u⟩ :: ctx) n ↔ Fits (path ++ ⟨s, c, y, u⟩ :: ctx) n
  := by
  induction path generalizing n with
  | nil => rfl
  | cons f path ih =>
    have hpar : parentColor (path ++ ⟨s, c, x, u⟩ :: ctx)
        = parentColor (path ++ ⟨s, c, y, u⟩ :: ctx) := by
      cases path <;> rfl
    rw [List.cons_append, List.cons_append, Fits, Fits, hpar, ih, ih]

theorem isRedBlack_rename {s : Side} {path : List (Frame ν)} :
  (plug (path ++ ⟨s, c, x, u⟩ :: ctx) t).IsRedBlack
    → (plug (path ++ ⟨s, c, y, u⟩ :: ctx) t).IsRedBlack
  := by
  intro h
  obtain ⟨n, hctx, ht, hcolor⟩ := exists_fits h
  apply (fits_rename.mp hctx).plug ht
  intro hred
  apply hcolor
  rw [← hred]
  cases path <;> rfl

theorem eraseRoot_nil_left {r : RbTree ν} :
  eraseRoot ctx (.node c .nil x r) = splice ctx c r
  := rfl

theorem eraseRoot_nil_right {l : RbTree ν} :
  eraseRoot ctx (.node c l x .nil) = splice ctx c l
  := by cases l <;> rfl

/-- A node with two children. -/
theorem eraseRoot_of_spine {l r : RbTree ν} {f : Frame ν} {path : List (Frame ν)} (hl : l ≠ .nil)
    (hspine : spine r = f :: path) :
  eraseRoot ctx (.node c l x r)
    = splice (path ++ ⟨.right, c, f.node, l⟩ :: ctx) f.color f.sibling
  := by
  cases l with
  | nil => exact absurd rfl hl
  | node c' l' y r' => simp only [eraseRoot, hspine]

theorem spine_eq_nil {r : RbTree ν} (h : spine r = []) :
  r = .nil
  := by
  rw [← plug_spine r, h]
  rfl

theorem before_eq_nil {path : List (Frame ν)} (h : ∀ f ∈ path, f.side = .left) :
  before path = []
  := by
  induction path with
  | nil => rfl
  | cons f path ih =>
    rw [before, h f List.mem_cons_self]
    exact ih fun f' hf' => h f' (List.mem_cons_of_mem f hf')

theorem eq_plug_of_spine {r : RbTree ν} {f : Frame ν} {path : List (Frame ν)}
    (hspine : spine r = f :: path) :
  r = plug path (join .left f.color .nil f.node f.sibling)
  := by
  have hf : f.side = .left := spine_side r (hspine ▸ List.mem_cons_self)
  have h := plug_spine r
  rw [hspine, plug, hf] at h
  exact h.symm

/-- The node is taken out, and the order of the others stays the same. -/
theorem toList_eraseRoot (ctx : List (Frame ν)) (c : Color) (l : RbTree ν) (x : ν) (r : RbTree ν) :
  (eraseRoot ctx (.node c l x r)).toList = before ctx ++ (l.toList ++ r.toList) ++ after ctx
  := by
  by_cases hl : l = .nil
  · subst hl
    rw [eraseRoot_nil_left, toList_splice, toList_plug]
    rfl
  · cases hspine : spine r with
    | nil =>
      obtain rfl := spine_eq_nil hspine
      rw [eraseRoot_nil_right, toList_splice, toList_plug, toList, List.append_nil]
    | cons f path =>
      have hpath : before path = [] := by
        apply before_eq_nil
        intro f' hf'
        apply spine_side r
        rw [hspine]
        exact List.mem_cons_of_mem f hf'
      have hr := congrArg toList (eq_plug_of_spine hspine)
      rw [toList_plug, hpath] at hr
      rw [eraseRoot_of_spine hl hspine, toList_splice, plug_append, plug, toList_plug, hr]
      simp [join, toList, toList_plug, hpath]

/-- Taking a node out keeps a red-black tree. -/
theorem eraseRoot_isRedBlack {l r : RbTree ν} (h : (plug ctx (.node c l x r)).IsRedBlack) :
  (eraseRoot ctx (.node c l x r)).IsRedBlack
  := by
  by_cases hl : l = .nil
  · subst hl
    exact splice_isRedBlack (s := .left) h
  · cases hspine : spine r with
    | nil =>
      obtain rfl := spine_eq_nil hspine
      rw [eraseRoot_nil_right]
      exact splice_isRedBlack (s := .right) h
    | cons f path =>
      rw [eraseRoot_of_spine hl hspine]
      apply splice_isRedBlack (s := .left) (x := f.node)
      apply isRedBlack_rename (x := x)
      rw [plug_append]
      rw [eq_plug_of_spine hspine] at h
      exact h

end RedBlack
