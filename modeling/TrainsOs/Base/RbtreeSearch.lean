import TrainsOs.Base.RbtreeShape
import TrainsOs.Lib.RedBlackSearch

/-!
# Searching the tree in memory

The loops of `rb_add`, `rb_find_add` and `rb_find` end where `zoom` ends, after as many rounds
as the tree is high; `rb_first` and `rb_next` go through the nodes from left to right.
-/

namespace Rbtree

open RedBlack RedBlack.RbTree

variable {ν : Type} {t : RbRoot ν} {ctx : List (Frame ν)} {T : RbTree ν}
  {x : ν} {fuel : ℕ}

/-- The direction that the result of a comparison gives. -/
def direction (r : ℤ) : Option Side :=
  if r < 0 then some .left else if r > 0 then some .right else none

/-- The direction of `rb_add`, which treats an equivalent node as a smaller one. -/
def addDirection (r : ℤ) : Side :=
  if r < 0 then .left else .right

theorem direction_cases (r : ℤ) :
  (r < 0 ∧ direction r = some .left) ∨ (¬ r < 0 ∧ r > 0 ∧ direction r = some .right)
    ∨ (¬ r < 0 ∧ ¬ r > 0 ∧ direction r = none)
  := by
  unfold direction
  by_cases hlt : r < 0
  · exact Or.inl ⟨hlt, if_pos hlt⟩
  · right
    rw [if_neg hlt]
    by_cases hgt : r > 0
    · exact Or.inl ⟨hlt, hgt, if_pos hgt⟩
    · exact Or.inr ⟨hlt, hgt, if_neg hgt⟩

theorem direction_eq_left {r : ℤ} :
  direction r = some .left ↔ r < 0
  := by
  obtain ⟨hlt, hd⟩ | ⟨hlt, hgt, hd⟩ | ⟨hlt, hgt, hd⟩ := direction_cases r <;> simp [hd, hlt]

theorem direction_eq_right {r : ℤ} :
  direction r = some .right ↔ r > 0
  := by
  obtain ⟨hlt, hd⟩ | ⟨hlt, hgt, hd⟩ | ⟨hlt, hgt, hd⟩ := direction_cases r <;> simp [hd] <;> omega

theorem direction_eq_none {r : ℤ} :
  direction r = none ↔ r = 0
  := by
  obtain ⟨hlt, hd⟩ | ⟨hlt, hgt, hd⟩ | ⟨hlt, hgt, hd⟩ := direction_cases r <;> rw [hd] <;> simp <;>
    omega

/-- The link at a position. -/
def place : List (Frame ν) → Link ν
  | [] => .root
  | f :: _ => .child f.node f.side

theorem read_place (h : At t ctx T) :
  t.read (place ctx) = T.root
  := by
  cases ctx with
  | nil => exact h.context
  | cons f ctx =>
    rw [place, RbRoot.read, h.context.1, cell_child]

theorem addLoop_spec (cmp : ν → ν → ℤ) (n : ν) (h : At t ctx T) (hfuel : T.height < fuel) :
  RbRoot.addLoop cmp t n fuel (place ctx) (top ctx)
    = some (place (zoom (fun x => some (addDirection (cmp n x))) T ctx).1,
        top (zoom (fun x => some (addDirection (cmp n x))) T ctx).1)
  := by
  obtain ⟨fuel, rfl⟩ := Nat.exists_eq_succ_of_ne_zero (Nat.ne_zero_of_lt hfuel)
  induction T generalizing ctx fuel with
  | nil =>
    rw [RbRoot.addLoop, read_place h]
    rfl
  | node c l x r ihl ihr =>
    rw [height] at hfuel
    obtain ⟨fuel, rfl⟩ := Nat.exists_eq_succ_of_ne_zero (n := fuel) (by omega)
    rw [RbRoot.addLoop, read_place h]
    by_cases hlt : cmp n x < 0
    · have hd : addDirection (cmp n x) = .left := if_pos hlt
      simp only [RbTree.root, zoom, hd, if_pos hlt]
      exact ihl ((at_cons (f := ⟨.left, c, x, r⟩)).mpr h) fuel (by omega)
    · have hd : addDirection (cmp n x) = .right := if_neg hlt
      simp only [RbTree.root, zoom, hd, if_neg hlt]
      exact ihr ((at_cons (f := ⟨.right, c, x, l⟩)).mpr h) fuel (by omega)

theorem findAddLoop_spec (cmp : ν → ν → ℤ) (n : ν) (h : At t ctx T) (hfuel : T.height < fuel) :
  RbRoot.findAddLoop cmp t n fuel (place ctx) (top ctx)
    = some (match zoom (fun x => direction (cmp n x)) T ctx with
        | (_, .node _ _ x _) => .inl x
        | (ctx', .nil) => .inr (place ctx', top ctx'))
  := by
  obtain ⟨fuel, rfl⟩ := Nat.exists_eq_succ_of_ne_zero (Nat.ne_zero_of_lt hfuel)
  induction T generalizing ctx fuel with
  | nil =>
    rw [RbRoot.findAddLoop, read_place h]
    rfl
  | node c l x r ihl ihr =>
    rw [height] at hfuel
    obtain ⟨fuel, rfl⟩ := Nat.exists_eq_succ_of_ne_zero (n := fuel) (by omega)
    rw [RbRoot.findAddLoop, read_place h]
    obtain ⟨hlt, hd⟩ | ⟨hlt, hgt, hd⟩ | ⟨hlt, hgt, hd⟩ := direction_cases (cmp n x)
    · simp only [RbTree.root, zoom, hd, if_pos hlt]
      exact ihl ((at_cons (f := ⟨.left, c, x, r⟩)).mpr h) fuel (by omega)
    · simp only [RbTree.root, zoom, hd, if_neg hlt, if_pos hgt]
      exact ihr ((at_cons (f := ⟨.right, c, x, l⟩)).mpr h) fuel (by omega)
    · simp only [RbTree.root, zoom, hd, if_neg hlt, if_neg hgt]

theorem findLoop_spec (cmp : ν → ℤ) (h : At t ctx T) (hfuel : T.height ≤ fuel) :
  RbRoot.findLoop cmp t fuel T.root = some (zoom (fun x => direction (cmp x)) T ctx).2.root
  := by
  induction T generalizing ctx fuel with
  | nil => cases fuel <;> rfl
  | node c l x r ihl ihr =>
    rw [height] at hfuel
    obtain ⟨fuel, rfl⟩ := Nat.exists_eq_succ_of_ne_zero (n := fuel) (by omega)
    obtain ⟨hlt, hd⟩ | ⟨hlt, hgt, hd⟩ | ⟨hlt, hgt, hd⟩ := direction_cases (cmp x)
    · simp only [RbTree.root, RbRoot.findLoop, zoom, h.links.1, hd, if_pos hlt]
      exact ihl ((at_cons (f := ⟨.left, c, x, r⟩)).mpr h) (by omega)
    · simp only [RbTree.root, RbRoot.findLoop, zoom, h.links.1, hd, if_neg hlt, if_pos hgt]
      exact ihr ((at_cons (f := ⟨.right, c, x, l⟩)).mpr h) (by omega)
    · simp only [RbTree.root, RbRoot.findLoop, zoom, hd, if_neg hlt, if_neg hgt]

/-- `rb_find` returns a node that is equivalent to the key. It returns `NULL` only if there is
none, when the nodes are in order. -/
theorem rbFind_spec (cmp : ν → ℤ) (h : At t [] T) (hfuel : T.height ≤ fuel) :
  ∃ r, t.rbFind fuel cmp = some r ∧ (∀ y, r = some y → y ∈ T.toList ∧ cmp y = 0)
    ∧ (r = none → IsCut (fun x => direction (cmp x)) T.toList → ∀ x ∈ T.toList, cmp x ≠ 0)
  := by
  have hroot : t.rbNode = T.root := h.context
  refine ⟨(zoom (fun x => direction (cmp x)) T []).2.root, ?_, ?_, ?_⟩
  · rw [RbRoot.rbFind, hroot]
    exact findLoop_spec cmp h hfuel
  · intro y hy
    obtain hnil | ⟨x, hx, hd⟩ := zoom_end (d := fun x => direction (cmp x)) T []
    · rw [hnil] at hy
      cases hy
    · obtain rfl := Option.some.inj (hx.symm.trans hy)
      refine ⟨?_, direction_eq_none.mp hd⟩
      have hplug := plug_zoom (d := fun x => direction (cmp x)) T []
      rw [plug] at hplug
      rw [← hplug, toList_plug]
      simp [mem_toList_root hx]
  · intro hnone hcut x hx hzero
    have hnil := (zoom_end (d := fun x => direction (cmp x)) T []).resolve_right (by
      rintro ⟨y, hy, -⟩
      cases hnone.symm.trans hy)
    exact forall_ne_none_of_zoom hcut hnil hx (direction_eq_none.mpr hzero)

/-! ### Going through the tree -/

theorem child_of_links {s : Side} {par : Option ν} {c : Color} {a b : RbTree ν}
    (h : Links t par (join s c a x b)) :
  (t.node x).child s = a.root
  := by rw [(links_join.mp h).1, cell_child]

/-- Going down on one side ends at the last node on this side. -/
theorem descendLoop_spec {s : Side} {par : Option ν} {y : ν} (h : Links t par T)
    (hroot : T.root = some y) (hfuel : T.height ≤ fuel) :
  ∃ z, t.descendLoop s fuel y = some z ∧ (listed s.other T.toList).head? = some z
  := by
  induction fuel generalizing T par y with
  | zero =>
    cases T with
    | nil => cases hroot
    | node => cases hfuel
  | succ fuel ih =>
    cases T with
    | nil => cases hroot
    | node c l x r =>
      obtain rfl := Option.some.inj hroot
      obtain ⟨a, b, heq⟩ := exists_join s c l x r
      have hheight : a.height ≤ fuel := by
        have hlt := height_lt_join s c a x b
        rw [← heq] at hlt
        omega
      rw [heq] at h ⊢
      rw [RbRoot.descendLoop, child_of_links h, listed_join]
      cases a with
      | nil => exact ⟨x, rfl, by cases s <;> rfl⟩
      | node c' l' y r' =>
        obtain ⟨z, hz, hhead⟩ := ih (links_join.mp h).2.1 rfl hheight
        exact ⟨z, hz, by rw [List.head?_append, hhead]; rfl⟩

theorem rbEnd_spec {s : Side} (h : At t [] T) (hfuel : T.height ≤ fuel) :
  t.rbEnd fuel s = some (listed s.other T.toList).head?
  := by
  have hroot : t.rbNode = T.root := h.context
  rw [RbRoot.rbEnd, hroot]
  cases T with
  | nil => cases s <;> rfl
  | node c l x r =>
    obtain ⟨z, hz, hhead⟩ := descendLoop_spec (s := s) h.links rfl hfuel
    rw [hhead]
    simp only [RbTree.root, hz, Option.map_some]

/-- The search for the successor ends at the two innermost frames of the spine. -/
theorem successorLoop_spec {l : RbTree ν} {c : Color} {z : ν} (hl : Links t (some x) l)
    (hz : l.root = some z) (hfuel : l.height < fuel) (r : RbTree ν) :
  ∃ f f' path, spine (.node c l x r) = f :: f' :: path
    ∧ t.successorLoop fuel x z = some (f'.node, f.node)
  := by
  obtain ⟨fuel, rfl⟩ := Nat.exists_eq_succ_of_ne_zero (Nat.ne_zero_of_lt hfuel)
  induction l generalizing c x z r fuel with
  | nil => cases hz
  | node c' l' y r' ihl ihr =>
    obtain rfl := Option.some.inj hz
    obtain ⟨hnode, hl', -⟩ := hl
    rw [RbRoot.successorLoop, hnode]
    cases hz' : l'.root with
    | none =>
      cases l' with
      | nil => exact ⟨⟨.left, c', y, r'⟩, ⟨.left, c, x, r⟩, [], rfl, rfl⟩
      | node => cases hz'
    | some z' =>
      rw [height] at hfuel
      obtain ⟨fuel, rfl⟩ := Nat.exists_eq_succ_of_ne_zero (n := fuel) (by omega)
      obtain ⟨f, f', path, hspine, hloop⟩ := ihl (c := c') hl' hz' r' fuel (by omega)
      refine ⟨f, f', path ++ [⟨.left, c, x, r⟩], ?_, hloop⟩
      rw [spine, hspine]
      rfl

/-- The successor is the left child of the innermost frame of its path, or the right child of
the node. -/
theorem at_spine {c cy : Color} {y : ν} {l r u : RbTree ν} {path : List (Frame ν)}
    (h : At t ctx (.node c l x r)) (hspine : spine r = ⟨.left, cy, y, u⟩ :: path) :
  At t (path ++ ⟨.right, c, x, l⟩ :: ctx) (join .left cy .nil y u)
  := by
  have hr : r = plug path (join .left cy .nil y u) := eq_plug_of_spine hspine
  rw [at_append, ← hr]
  exact at_cons.mpr h

variable [DecidableEq ν]

/-- Going up ends at the first ancestor on the other side. -/
theorem ascendLoop_spec {s : Side} {y : ν} (h : At t ctx T) (hroot : T.root = some y)
    (hfuel : ctx.length < fuel) :
  t.ascendLoop s fuel y = some (beyond s ctx).head?
  := by
  induction ctx generalizing T y fuel with
  | nil =>
    obtain ⟨fuel, rfl⟩ := Nat.exists_eq_succ_of_ne_zero (Nat.ne_zero_of_lt hfuel)
    have hnil : (beyond s ([] : List (Frame ν))).head? = none := by cases s <;> rfl
    rw [RbRoot.ascendLoop, (h.links.root hroot).1, hnil]
    rfl
  | cons f ctx ih =>
    obtain ⟨fuel, rfl⟩ := Nat.exists_eq_succ_of_ne_zero (Nat.ne_zero_of_lt hfuel)
    have hat := at_cons.mp h
    rw [List.length_cons] at hfuel
    rw [RbRoot.ascendLoop, (h.links.root hroot).1]
    simp only [top]
    by_cases hs : f.side = s
    · have hchild : (t.node f.node).child s = some y := by
        rw [← hs, child_of_links hat.links, hroot]
      rw [if_pos hchild, beyond_cons_same hs]
      exact ih hat (root_join _ _ _ _ _) (by omega)
    · have hchild : (t.node f.node).child s ≠ some y := by
        have hn := hat.nodup_tree
        rw [nodup_join] at hn
        have hs' : s = f.side.other := Side.eq_other (Ne.symm hs)
        rw [(links_join.mp hat.links).1, hs', cell_child_other]
        exact root_ne (hn.2.2.2.2 y (mem_toList_root hroot))
      rw [if_neg hchild, beyond_cons_other hs]
      rfl

/-- The node after the one at the position. -/
theorem rbStep_spec {s : Side} {c : Color} {a b : RbTree ν} (h : At t ctx (join s c a x b))
    (hfuel : (plug ctx (join s c a x b)).height < fuel) :
  t.rbStep fuel s x = some (listed s a.toList ++ beyond s ctx).head?
  := by
  have hlen := length_add_height_le ctx (join s c a x b)
  have hlt := height_lt_join s c a x b
  obtain ⟨hnode, ha, -⟩ := links_join.mp h.links
  have hx : x ∉ around ctx := h.not_mem (mem_toList_join.mpr (Or.inl rfl))
  have hempty : t.rbEmptyNode x = false := by
    rw [RbRoot.rbEmptyNode, hnode, cell_parent]
    apply decide_eq_false
    rintro ⟨htop, -⟩
    exact hx (top_mem htop)
  simp only [RbRoot.rbStep, hempty, Bool.false_eq_true, if_false, child_of_links h.links]
  cases a with
  | nil =>
    have hnil : listed s (nil : RbTree ν).toList = [] := by cases s <;> rfl
    rw [hnil, List.nil_append]
    exact ascendLoop_spec h (root_join _ _ _ _ _) (by omega)
  | node c' l y r =>
    have hheight : (RbTree.node c' l y r).height ≤ fuel := by omega
    obtain ⟨z, hz, hhead⟩ := descendLoop_spec (s := s.other) ha rfl hheight
    rw [Side.other_other] at hhead
    rw [List.head?_append, hhead]
    simp only [RbTree.root, hz, Option.map_some]
    rfl

/-- `rb_next` returns the node after a node, and `rb_prev` the one before it. -/
theorem rbNext_rbPrev_spec {xs ys : List ν} (h : At t [] T) (heq : T.toList = xs ++ x :: ys)
    (hfuel : T.height < fuel) :
  t.rbNext fuel x = some ys.head? ∧ t.rbPrev fuel x = some xs.getLast?
  := by
  obtain ⟨ctx, c, l, r, rfl, hbefore, hafter⟩ := exists_position_eq h.nodup_tree heq
  have hat := at_plug.mpr h
  constructor
  · rw [hafter]
    exact rbStep_spec (s := .right) (a := r) (b := l) hat hfuel
  · rw [hbefore, ← List.head?_reverse, List.reverse_append]
    exact rbStep_spec (s := .left) (a := l) (b := r) hat hfuel

end Rbtree
