import TrainsOs.Base.RbtreeSearch

/-!
# Insertion into the tree in memory

`rb_find_add` walks down to an empty place, and `__rb_insert` repairs the tree from there
upwards. A round at the position `p :: g :: ctx` either recolors the nodes and goes on at
`ctx`, or rotates and ends; what it leaves is what `insertFix` says.
-/

namespace Rbtree

open RedBlack RedBlack.RbTree

variable {ν : Type} {t t' : RbRoot ν} {s : Side} {c c' : Color} {par : Option ν}
  {x p g : ν} {ctx : List (Frame ν)} {a b T U sib : RbTree ν}

theorem filter_root_of_red (h : Links t par T) (hred : T.color = .red) :
  T.root.filter t.rbIsRed = T.root
  := by
  cases T with
  | nil => rfl
  | node c l y r =>
    apply Option.filter_some_pos
    rw [RbRoot.rbIsRed, h.1]
    exact decide_eq_true hred

theorem filter_root_of_black (h : Links t par T) (hb : T.color = .black) :
  T.root.filter t.rbIsRed = none
  := by
  cases T with
  | nil => rfl
  | node c l y r =>
    obtain rfl : c = .black := hb
    apply Option.filter_some_neg
    rw [RbRoot.rbIsRed, h.1]
    rfl

variable [DecidableEq ν]

/-- The rotation at the grandparent. -/
theorem insertOuter_eq (h : Links t par (join s c (join s c' T p sib) g U))
    (hnodup : (join s c (join s c' T p sib) g U).toList.Nodup) (hb : sib.color = .black) :
  ∃ t₁, t.insertOuter s p g sib.root = t₁.rbChangeChild g (some p) par
    ∧ Local t t₁ par (join s c (join s c' T p sib) g U) (join s c T p (join s .red sib g U))
  := by
  obtain ⟨hg, hp, hU⟩ := links_join.mp h
  obtain ⟨hp, hT, hsib⟩ := links_join.mp hp
  rw [root_join] at hg
  have hn := hnodup
  simp only [nodup_join, mem_toList_join, not_or] at hn
  obtain ⟨⟨hTn, hsibn, hpT, hpsib, hTsib⟩, hUn, ⟨hgp, hgT, hgsib⟩, hgU, hdisj⟩ := hn
  have hsp := root_ne hpsib
  have hsg := root_ne hgsib
  simp only [RbRoot.insertOuter, RbRoot.rbRotateSetParents]
  generalize ht₁ : RbRoot.rbSetParentColor _ g (some p) .red = t₁
  have hout : ∀ x, x ≠ p → x ≠ g → t₁.node x =
      if sib.root = some x then { t.node x with parent := some g, color := .black }
      else t.node x := by
    intro x hxp hxg
    rw [← ht₁]
    simp [hxp, hxg]
  have hp₁ : t₁.node p = cell s par c T.root (some g) := by
    rw [← ht₁]
    simp [hg, hp, hsp, hsg, hgp, Ne.symm hgp]
  have hg₁ : t₁.node g = cell s (some p) .red sib.root U.root := by
    rw [← ht₁]
    simp [hg, hsg, hgp]
  refine ⟨t₁, ?_, ?_⟩
  · simp [hg, hsg, hgp]
  · apply local_of_toList
    · rw [← ht₁]
      simp
    · intro x hx
      simp only [mem_toList_join, not_or] at hx
      obtain ⟨hxg, ⟨hxp, -, hxsib⟩, -⟩ := hx
      rw [hout x hxp hxg, if_neg (root_ne hxsib)]
    · refine links_join.mpr ⟨?_, ?_, links_join.mpr ⟨?_, ?_, ?_⟩⟩
      · rw [hp₁, root_join]
      · apply hT.congr
        intro x hx
        rw [hout x (ne_of_mem_of_not_mem hx hpT) (ne_of_mem_of_not_mem hx hgT), if_neg]
        exact root_ne (hTsib x hx)
      · exact hg₁
      · have hmoved : Links t₁ (some g) (sib.paint .black) := by
          apply hsib.reparent hsibn
          intro x hx
          exact hout x (ne_of_mem_of_not_mem hx hpsib) (ne_of_mem_of_not_mem hx hgsib)
        rwa [← hb, sib.paint_color] at hmoved
      · apply hU.congr
        intro x hx
        have hxsib : x ∉ sib.toList := fun hx' => hdisj x (Or.inr (Or.inr hx')) hx
        have hxp : x ≠ p := by
          rintro rfl
          exact hdisj x (Or.inl rfl) hx
        rw [hout x hxp (ne_of_mem_of_not_mem hx hgU), if_neg (root_ne hxsib)]
    · exact hnodup
    · cases s <;> simp [join, toList]

/-- The rotations when the node lies between its parent and its grandparent. -/
theorem insertInner_eq {n : ν} (h : Links t par (join s c (join s c' sib p (join s .red a n b)) g U))
    (hnodup : (join s c (join s c' sib p (join s .red a n b)) g U).toList.Nodup)
    (ha : a.color = .black) (hb : b.color = .black) :
  ∃ t₁, (t.insertInner s n p).insertOuter s n g (((t.insertInner s n p).node n).child s.other)
      = t₁.rbChangeChild g (some n) par
    ∧ Local t t₁ par (join s c (join s c' sib p (join s .red a n b)) g U)
        (join s c (join s .red sib p a) n (join s .red b g U))
  := by
  obtain ⟨hg, hp, hU⟩ := links_join.mp h
  obtain ⟨hp, hsib, hn⟩ := links_join.mp hp
  obtain ⟨hn, hla, hlb⟩ := links_join.mp hn
  rw [root_join] at hg hp
  have hnd := hnodup
  simp only [nodup_join, mem_toList_join, not_or] at hnd
  obtain ⟨⟨hsibn, ⟨han, hbn, hna, hnb, hab⟩, hpsib, ⟨hpn, hpa, hpb⟩, hsibab⟩, hUn,
    ⟨hgp, hgsib, hgn, hga, hgb⟩, hgU, hdisj⟩ := hnd
  have hchild : ((t.insertInner s n p).node n).child s.other = b.root := by
    simp [RbRoot.insertInner, hn, Ne.symm hpn, root_ne hna]
  rw [hchild]
  simp only [RbRoot.insertOuter, RbRoot.rbRotateSetParents]
  generalize ht₁ : RbRoot.rbSetParentColor _ g (some n) .red = t₁
  have hkept : ∀ x, x ≠ p → x ≠ g → x ≠ n → x ∉ a.toList → x ∉ b.toList →
      t₁.node x = t.node x := by
    intro x hxp hxg hxn hxa hxb
    rw [← ht₁]
    simp [RbRoot.insertInner, hn, hxp, hxg, hxn, root_ne hxa, root_ne hxb]
  have hnode : t₁.node n = cell s par c (some p) (some g) ∧
      t₁.node p = cell s (some n) .red sib.root a.root ∧
      t₁.node g = cell s (some n) .red b.root U.root := by
    rw [← ht₁]
    simp [RbRoot.insertInner, hg, hp, hn, hgp, hgn, hpn, Ne.symm hgp, Ne.symm hgn, Ne.symm hpn,
      root_ne hna, root_ne hnb, root_ne hpa, root_ne hpb, root_ne hga, root_ne hgb]
  refine ⟨t₁, ?_, ?_⟩
  · simp [RbRoot.insertInner, hg, hn, hgp, hgn, root_ne hga, root_ne hgb]
  · apply local_of_toList
    · rw [← ht₁]
      simp [RbRoot.insertInner]
    · intro x hx
      simp only [mem_toList_join, not_or] at hx
      exact hkept x hx.2.1.1 hx.1 hx.2.1.2.2.1 hx.2.1.2.2.2.1 hx.2.1.2.2.2.2
    · refine links_join.mpr ⟨?_, links_join.mpr ⟨?_, ?_, ?_⟩, links_join.mpr ⟨?_, ?_, ?_⟩⟩
      · rw [root_join, root_join]
        exact hnode.1
      · exact hnode.2.1
      · apply hsib.congr
        intro x hx
        obtain ⟨hxn, hxa, hxb⟩ := hsibab x hx
        exact hkept x (ne_of_mem_of_not_mem hx hpsib) (ne_of_mem_of_not_mem hx hgsib) hxn hxa hxb
      · rw [← a.paint_color, ha]
        apply hla.reparent han
        intro x hx
        have hxb := root_ne (hab x hx)
        have hxp := ne_of_mem_of_not_mem hx hpa
        have hxg := ne_of_mem_of_not_mem hx hga
        have hxn := ne_of_mem_of_not_mem hx hna
        rw [← ht₁]
        simp [RbRoot.insertInner, hn, hxp, hxg, hxn, hxb]
      · exact hnode.2.2
      · rw [← b.paint_color, hb]
        apply hlb.reparent hbn
        intro x hx
        have hxa := root_ne fun hx' => hab x hx' hx
        have hxp := ne_of_mem_of_not_mem hx hpb
        have hxg := ne_of_mem_of_not_mem hx hgb
        have hxn := ne_of_mem_of_not_mem hx hnb
        rw [← ht₁]
        simp [RbRoot.insertInner, hn, hxp, hxg, hxn, hxa]
      · apply hU.congr
        intro x hx
        have hout := fun h => hdisj x h hx
        simp only [imp_false, not_or] at hout
        exact hkept x hout.1 (ne_of_mem_of_not_mem hx hgU) hout.2.2.1 hout.2.2.2.1 hout.2.2.2.2
    · exact hnodup
    · cases s <;> simp [join, toList]

/-- The recoloring below a red uncle. -/
theorem insertFlip_eq {s' : Side} {u : ν}
    (h : Links t par (join s c (join s' c' T p sib) g U))
    (hnodup : (join s c (join s' c' T p sib) g U).toList.Nodup) (hu : U.root = some u) :
  ∃ t₁, t.insertFlip p g u = (t₁, (g, par))
    ∧ Local t t₁ par (join s c (join s' c' T p sib) g U)
        (join s .red (join s' .black T p sib) g (U.paint .black))
  := by
  obtain ⟨hg, hp, hU⟩ := links_join.mp h
  obtain ⟨hp, hT, hsib⟩ := links_join.mp hp
  rw [root_join] at hg
  have hn := hnodup
  simp only [nodup_join, mem_toList_join, not_or] at hn
  obtain ⟨⟨hTn, hsibn, hpT, hpsib, -⟩, hUn, ⟨hgp, hgT, hgsib⟩, hgU, hdisj⟩ := hn
  have huU := mem_toList_root hu
  have hug : u ≠ g := ne_of_mem_of_not_mem huU hgU
  have hup : u ≠ p := by
    rintro rfl
    exact hdisj u (Or.inl rfl) huU
  have hpar : (((t.rbSetParentColor u (some g) .black).rbSetParentColor p (some g) .black).node
      g).parent = par := by
    simp [hg, hgp, Ne.symm hug]
  simp only [RbRoot.insertFlip, hpar]
  generalize ht₁ : RbRoot.rbSetParentColor _ g par .red = t₁
  have hout : ∀ x, x ≠ p → x ≠ g → t₁.node x =
      if U.root = some x then { t.node x with parent := some g, color := .black }
      else t.node x := by
    intro x hxp hxg
    rw [← ht₁, hu]
    by_cases hxu : x = u
    · subst hxu
      simp [hxp, hxg]
    · simp [hxp, hxg, hxu, Ne.symm hxu]
  refine ⟨t₁, rfl, ?_⟩
  apply local_of_toList
  · rw [← ht₁]
    simp
  · intro x hx
    simp only [mem_toList_join, not_or] at hx
    rw [hout x hx.2.1.1 hx.1, if_neg (root_ne hx.2.2)]
  · refine links_join.mpr ⟨?_, links_join.mpr ⟨?_, ?_, ?_⟩, ?_⟩
    · rw [← ht₁]
      simp [hg, hgp, Ne.symm hug]
    · rw [← ht₁]
      simp [hp, Ne.symm hgp, Ne.symm hup]
    · apply hT.congr
      intro x hx
      rw [hout x (ne_of_mem_of_not_mem hx hpT) (ne_of_mem_of_not_mem hx hgT), if_neg]
      exact root_ne (hdisj x (Or.inr (Or.inl hx)))
    · apply hsib.congr
      intro x hx
      rw [hout x (ne_of_mem_of_not_mem hx hpsib) (ne_of_mem_of_not_mem hx hgsib), if_neg]
      exact root_ne (hdisj x (Or.inr (Or.inr hx)))
    · apply hU.reparent hUn
      intro x hx
      have hxp : x ≠ p := by
        rintro rfl
        exact hdisj x (Or.inl rfl) hx
      exact hout x hxp (ne_of_mem_of_not_mem hx hgU)
  · exact hnodup
  · cases s <;> cases s' <;> simp [join, toList]

section Round

variable {f f' : Frame ν} {n : ν} {k : ℕ}

/-- A round of `__rb_insert` recolors below a red uncle and rotates otherwise. -/
theorem insertRound_spec (h : At t (f :: f' :: ctx) T) (hroot : T.root = some n)
    (hred : T.color = .red) (hfits : Fits (f :: f' :: ctx) k) (hT : T.Balanced k)
    (hf : f.color = .red) :
  (f'.sibling.color = .red ∧ ∃ t₁,
      t.insertRound f'.side n f.node f'.node = (t₁, some (f'.node, top ctx))
        ∧ At t₁ ctx (join f'.side .red (join f.side .black T f.node f.sibling) f'.node
            (f'.sibling.paint .black)))
    ∨ (f'.sibling.color = .black ∧ ∃ t₁,
      t.insertRound f'.side n f.node f'.node = (t₁, none) ∧ At t₁ ctx (insertRotate f f' T))
  := by
  obtain ⟨-, hsibb, hpar, hfits'⟩ := hfits.red hf
  have hat := at_cons.mp (at_cons.mp h)
  have hlinks := hat.links
  have hnodup := hat.nodup_tree
  obtain ⟨hnode', hnode, huncle⟩ := links_join.mp hlinks
  obtain ⟨hnode, hTl, hsib⟩ := links_join.mp hnode
  by_cases hu : f'.sibling.color = .red
  · refine Or.inl ⟨hu, ?_⟩
    obtain ⟨a, u, b, hjoin⟩ := exists_of_red hu .left
    have hu' : f'.sibling.root = some u := by rw [hjoin, root_join]
    obtain ⟨t₁, heq, hlocal⟩ := insertFlip_eq hlinks hnodup hu'
    refine ⟨t₁, ?_, ?_⟩
    · have hfilter : ((t.node f'.node).child f'.side.other).filter t.rbIsRed = some u := by
        rw [hnode', cell_child_other, filter_root_of_red huncle hu, hu']
      simp only [RbRoot.insertRound, hfilter, heq]
    · exact hat.local hlocal (by rw [root_join, root_join])
  · refine Or.inr ⟨Color.eq_black hu, ?_⟩
    have hfilter : ((t.node f'.node).child f'.side.other).filter t.rbIsRed = none := by
      rw [hnode', cell_child_other, filter_root_of_black huncle (Color.eq_black hu)]
    simp only [RbRoot.insertRound, hfilter]
    have hcolor : f'.color = .black := hpar
    by_cases hs : f.side = f'.side
    · have hne : (t.node f.node).child f'.side.other ≠ some n := by
        rw [hnode, hs, cell_child_other]
        rw [nodup_join, nodup_join] at hnodup
        exact root_ne (hnodup.1.2.2.2.2 n (mem_toList_root hroot))
      rw [hs, hcolor] at hlinks hnodup hat
      obtain ⟨t₁, heq, hlocal⟩ := insertOuter_eq hlinks hnodup hsibb
      have hchild : (t.node f.node).child f'.side.other = f.sibling.root := by
        rw [hnode, hs, cell_child_other]
      rw [if_neg hne, hchild, heq, insertRotate_of_eq hs]
      refine ⟨_, rfl, ?_⟩
      have hrechild := hat.rechild (root_join _ _ _ _ _) hlocal
      rwa [root_join] at hrechild
    · have hs' := Side.eq_other hs
      obtain ⟨a, y, b, rfl⟩ := exists_of_red hred f'.side
      obtain rfl := Option.some.inj ((root_join _ _ _ _ _).symm.trans hroot)
      obtain ⟨-, -, hab, hbb⟩ := balanced_join_red.mp hT
      have hchild : (t.node f.node).child f'.side.other = some y := by
        rw [hnode, hs', cell_child, root_join]
      rw [hs', hcolor, join_other] at hlinks hnodup hat
      obtain ⟨t₁, heq, hlocal⟩ := insertInner_eq hlinks hnodup hab hbb
      rw [if_pos hchild, heq, insertRotate_of_ne hs]
      refine ⟨_, rfl, ?_⟩
      have hrechild := hat.rechild (root_join _ _ _ _ _) hlocal
      rwa [root_join] at hrechild

/-- The loop ends below a black parent. -/
theorem insertLoop_black (h : At t (f :: ctx) T) (hf : f.color = .black) (fuel : ℕ) :
  RbRoot.insertLoop (fuel + 1) t n (some f.node) = some t
  := by
  have hb : t.rbIsBlack f.node = true := by
    rw [RbRoot.rbIsBlack, h.context.1, cell_color, hf]
    rfl
  simp only [RbRoot.insertLoop, hb, if_true]

/-- Below a red parent it makes a round on the side where the parent is. -/
theorem insertLoop_red (h : At t (f :: f' :: ctx) T) (hf : f.color = .red) (fuel : ℕ) :
  RbRoot.insertLoop (fuel + 1) t n (some f.node)
    = match t.insertRound f'.side n f.node f'.node with
      | (t, some (y, p)) => RbRoot.insertLoop fuel t y p
      | (t, none) => some t
  := by
  obtain ⟨hnode, -, hnode', -⟩ := h.context
  have hb : t.rbIsBlack f.node = false := by
    rw [RbRoot.rbIsBlack, hnode, cell_color, hf]
    rfl
  have hparent : t.rbRedParent f.node = some (some f'.node) := by
    have hr : t.rbIsRed f.node = true := by
      rw [RbRoot.rbIsRed, hnode, cell_color, hf]
      rfl
    rw [RbRoot.rbRedParent, if_pos hr, hnode, cell_parent]
    rfl
  have hside :
      (if (t.node f'.node).rbRight = some f.node then Side.right else Side.left) = f'.side := by
    rw [hnode']
    cases hs : f'.side with
    | left =>
      have hat := at_cons.mp (at_cons.mp h)
      have hn := hat.nodup_tree
      rw [nodup_join] at hn
      rw [if_neg]
      exact root_ne (hn.2.2.2.2 _ (mem_toList_join.mpr (Or.inl rfl)))
    | right => exact if_pos rfl
  rw [← hside, RbRoot.insertLoop, hb, hparent]
  rfl

/-- The tree that `__rb_insert` leaves is the repaired one. -/
theorem insertLoop_spec (h : At t ctx T) (hroot : T.root = some n) (hred : T.color = .red)
    (hfits : Fits ctx k) (hT : T.Balanced k) {fuel : ℕ} (hfuel : ctx.length < fuel) :
  ∃ t', RbRoot.insertLoop fuel t n (top ctx) = some t' ∧ At t' [] (insertFix ctx T)
  := by
  obtain ⟨fuel, rfl⟩ := Nat.exists_eq_succ_of_ne_zero (Nat.ne_zero_of_lt hfuel)
  induction ctx, T using insertFix.induct generalizing t n k fuel with
  | case1 T =>
    refine ⟨t.rbSetParentColor n none .black, rfl, ?_⟩
    have hlocal : Local t (t.rbSetParentColor n none .black) none T (T.paint .black) := by
      apply local_of_toList
      · rfl
      · intro x hx
        rw [rbSetParentColor_node, if_neg]
        rintro rfl
        exact hx (mem_toList_root hroot)
      · apply h.links.reparent h.nodup_tree
        intro x hx
        rw [rbSetParentColor_node, hroot]
        by_cases hxn : x = n
        · rw [if_pos hxn, if_pos (congrArg some hxn.symm), hxn]
        · rw [if_neg hxn, if_neg fun heq => hxn (Option.some.inj heq).symm]
      · exact h.nodup_tree
      · exact toList_paint T .black
    exact h.local hlocal (root_paint T .black)
  | case2 f T =>
    have hblack : f.color = .black := by
      apply Color.eq_black
      intro hf
      cases (hfits.red hf).2.2.1
    exact ⟨t, insertLoop_black h hblack fuel, at_plug.mp h⟩
  | case3 f f' ctx T hf =>
    rw [insertFix, if_pos hf]
    exact ⟨t, insertLoop_black h hf fuel, at_plug.mp h⟩
  | case4 f f' ctx T hf hu ih =>
    have hf := Color.eq_red hf
    obtain ⟨-, t₁, hround, hat⟩ | ⟨hub, -⟩ := insertRound_spec h hroot hred hfits hT hf
    · obtain ⟨hsib, hsibb, hpar, hfits'⟩ := hfits.red hf
      obtain ⟨hsib', hfits''⟩ := hfits'.black hpar
      simp only [List.length_cons] at hfuel
      obtain ⟨fuel, rfl⟩ := Nat.exists_eq_succ_of_ne_zero (n := fuel) (by omega)
      rw [insertFix, if_neg (by rw [hf]; decide), if_pos hu, top, insertLoop_red h hf, hround]
      refine ih hat (root_join _ _ _ _ _) (color_join _ _ _ _ _) hfits'' ?_ fuel (by omega)
      exact balanced_join_red.mpr ⟨balanced_join_black.mpr ⟨hT, hsib⟩,
        hsib'.paint_black_of_red hu, color_join _ _ _ _ _, color_paint_black _⟩
    · cases hu.symm.trans hub
  | case5 f f' ctx T hf hu =>
    have hf := Color.eq_red hf
    obtain ⟨hu', -⟩ | ⟨-, t₁, hround, hat⟩ := insertRound_spec h hroot hred hfits hT hf
    · exact absurd hu' hu
    · rw [insertFix, if_neg (by rw [hf]; decide), if_neg hu, top, insertLoop_red h hf, hround]
      exact ⟨t₁, rfl, at_plug.mp hat⟩

end Round

/-! ### The operations -/

/-- The nodes of the red-black tree are `xs`, from left to right. -/
def IsTree (t : RbRoot ν) (xs : List ν) : Prop :=
  ∃ T, At t [] T ∧ T.IsRedBlack ∧ T.toList = xs

/-- Linking a node at an empty place. -/
theorem rbLinkNode_spec {n : ν} (h : At t ctx .nil) (hn : n ∉ around ctx) :
  At (t.rbLinkNode n (top ctx) (place ctx)) ctx (.node .red .nil n .nil)
  := by
  obtain ⟨hcontext, -, hnodup⟩ := h
  have hnodup' : ((RbTree.node .red .nil n .nil).toList ++ around ctx).Nodup :=
    List.nodup_cons.mpr ⟨hn, hnodup⟩
  cases ctx with
  | nil =>
    refine ⟨rfl, ⟨?_, trivial, trivial⟩, hnodup'⟩
    exact if_pos rfl
  | cons f ctx =>
    obtain ⟨hnode, hsib, hctx⟩ := hcontext
    simp only [around, List.mem_cons, List.mem_append, not_or] at hn
    obtain ⟨hnf, hnsib, hnctx⟩ := hn
    obtain ⟨hfmem, -⟩ := List.nodup_cons.mp hnodup
    rw [List.mem_append, not_or] at hfmem
    have hkept : ∀ x, x ≠ n → x ≠ f.node →
        (t.rbLinkNode n (some f.node) (.child f.node f.side)).node x = t.node x := by
      intro x hxn hxf
      simp [RbRoot.rbLinkNode, RbRoot.write, hxn, hxf]
    refine ⟨⟨?_, ?_, ?_⟩, ⟨?_, trivial, trivial⟩, hnodup'⟩
    · simp [place, RbRoot.rbLinkNode, RbRoot.write, Ne.symm hnf, hnode, RbTree.root]
    · apply hsib.congr
      intro x hx
      exact hkept x (ne_of_mem_of_not_mem hx hnsib) (ne_of_mem_of_not_mem hx hfmem.1)
    · apply hctx.congr (by rfl)
      intro x hx
      exact hkept x (ne_of_mem_of_not_mem hx hnctx) (ne_of_mem_of_not_mem hx hfmem.2)
    · simp [place, RbRoot.rbLinkNode, RbRoot.write, hnf, RbTree.root]

/-- Linking a node at an empty place and repairing the tree. -/
theorem rbInsertColor_spec {n : ν} {fuel : ℕ} (h : At t ctx .nil) (hn : n ∉ around ctx)
    (hrb : (plug ctx .nil).IsRedBlack) (hfuel : ctx.length < fuel) :
  ∃ t', RbRoot.rbInsertColor fuel (t.rbLinkNode n (top ctx) (place ctx)) n = some t'
    ∧ IsTree t' (plug ctx (.node .red .nil n .nil)).toList
  := by
  have hat := rbLinkNode_spec h hn
  obtain ⟨k, hfits, hnil, -⟩ := exists_fits hrb
  cases hnil
  have hbal : (RbTree.node .red .nil n .nil).Balanced 0 := .red .nil .nil rfl rfl
  obtain ⟨t', heq, hat'⟩ := insertLoop_spec hat rfl rfl hfits hbal hfuel
  refine ⟨t', ?_, _, hat', insertFix_isRedBlack hfits hbal rfl, toList_insertFix nofun⟩
  have hparent : (t.rbLinkNode n (top ctx) (place ctx)).rbRedParent n = some (top ctx) := by
    rw [RbRoot.rbRedParent, RbRoot.rbIsRed, hat.links.1]
    rfl
  rw [RbRoot.rbInsertColor, hparent]
  exact heq

/-- Linking a node where the search for it ends and repairing the tree. -/
theorem rbInsertColor_zoom {d : ν → Option Side} {r : ν → ν → Prop} [DecidableRel r] {n : ν}
    {fuel : ℕ} (h : At t [] T) (hrb : T.IsRedBlack) (hn : n ∉ T.toList)
    (hcut : IsCut d T.toList) (hnil : (zoom d T []).2 = .nil)
    (hr : ∀ x ∈ T.toList, (d x = some .left → r n x) ∧ (d x = some .right → ¬ r n x))
    (hfuel : T.height < fuel) :
  ∃ t', RbRoot.rbInsertColor fuel
      (t.rbLinkNode n (top (zoom d T []).1) (place (zoom d T []).1)) n = some t'
    ∧ IsTree t' (T.toList.orderedInsert r n)
  := by
  have hplug := plug_zoom (d := d) T []
  have hlen := length_zoom_le (d := d) T []
  rw [← toList_plug_zoom (c := .red) hcut hnil hr]
  rw [hnil, plug] at hplug
  have hmem : n ∉ around (zoom d T []).1 := by
    intro hmem
    apply hn
    rw [← hplug]
    exact (perm_toList_plug _ _).mem_iff.mpr (List.mem_append_right _ hmem)
  apply rbInsertColor_spec
  · rw [at_plug, hplug]
    exact h
  · exact hmem
  · rw [hplug]
    exact hrb
  · simp only [List.length_nil, Nat.zero_add] at hlen
    omega

variable {xs : List ν} {n : ν} {cmp : ν → ν → ℤ} {fuel : ℕ}

/-- `rb_add` inserts the node after the equivalent ones. -/
theorem rbAdd_spec (h : IsTree t xs) (hn : n ∉ xs)
    (hcut : IsCut (fun x => some (addDirection (cmp n x))) xs)
    (hfuel : 2 * Nat.log 2 (xs.length + 1) < fuel) :
  ∃ t', t.rbAdd fuel n cmp = some t' ∧ IsTree t' (xs.orderedInsert (fun a b => cmp a b < 0) n)
  := by
  obtain ⟨T, hat, hrb, rfl⟩ := h
  have hheight := Nat.lt_of_le_of_lt hrb.height_le hfuel
  have hnil := (zoom_end (d := fun x => some (addDirection (cmp n x))) T []).resolve_right
    (by rintro ⟨x, -, ⟨⟩⟩)
  obtain ⟨t', heq, htree⟩ := rbInsertColor_zoom (r := fun a b => cmp a b < 0) hat hrb hn hcut
    hnil (by
      intro x hx
      unfold addDirection
      split <;> simp_all) hheight
  refine ⟨t', ?_, htree⟩
  rw [RbRoot.rbAdd]
  have hloop := addLoop_spec cmp n hat hheight
  rw [show RbRoot.addLoop cmp t n fuel .root none = _ from hloop]
  exact heq

/-- `rb_find_add` returns a node that is equivalent to the new one, or inserts it. -/
theorem rbFindAdd_spec (h : IsTree t xs) (hn : n ∉ xs)
    (hcut : IsCut (fun x => direction (cmp n x)) xs)
    (hfuel : 2 * Nat.log 2 (xs.length + 1) < fuel) :
  (∃ x ∈ xs, cmp n x = 0 ∧ t.rbFindAdd fuel n cmp = some (t, some x))
    ∨ ((∀ x ∈ xs, cmp n x ≠ 0) ∧ ∃ t', t.rbFindAdd fuel n cmp = some (t', none)
      ∧ IsTree t' (xs.orderedInsert (fun a b => cmp a b < 0) n))
  := by
  obtain ⟨T, hat, hrb, rfl⟩ := h
  have hheight := Nat.lt_of_le_of_lt hrb.height_le hfuel
  have hloop : RbRoot.findAddLoop cmp t n fuel .root none = _ := findAddLoop_spec cmp n hat hheight
  have hplug := plug_zoom (d := fun x => direction (cmp n x)) T []
  by_cases hnil : (zoom (fun x => direction (cmp n x)) T []).2 = .nil
  · right
    refine ⟨fun x hx hzero => forall_ne_none_of_zoom hcut hnil hx (direction_eq_none.mpr hzero), ?_⟩
    obtain ⟨t', heq, htree⟩ := rbInsertColor_zoom (r := fun a b => cmp a b < 0) hat hrb hn hcut
      hnil (by
        intro x hx
        obtain ⟨hlt, hd⟩ | ⟨hlt, -, hd⟩ | ⟨hlt, -, hd⟩ := direction_cases (cmp n x) <;>
          simp [hlt, hd]) hheight
    refine ⟨t', ?_, htree⟩
    rw [RbRoot.rbFindAdd, hloop]
    generalize zoom (fun x => direction (cmp n x)) T [] = z at *
    obtain ⟨ctx, u⟩ := z
    obtain rfl : u = .nil := hnil
    simp [heq]
  · left
    obtain ⟨x, hx, hd⟩ := (zoom_end T []).resolve_left hnil
    refine ⟨x, ?_, direction_eq_none.mp hd, ?_⟩
    · rw [plug] at hplug
      rw [← hplug, toList_plug]
      simp [mem_toList_root hx]
    · rw [RbRoot.rbFindAdd, hloop]
      generalize zoom (fun x => direction (cmp n x)) T [] = z at *
      obtain ⟨ctx, u⟩ := z
      cases u with
      | nil => exact absurd rfl hnil
      | node c l y r =>
        obtain rfl := Option.some.inj hx
        rfl

end Rbtree
