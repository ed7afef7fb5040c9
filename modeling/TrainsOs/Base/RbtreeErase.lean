import TrainsOs.Base.RbtreeInsert

/-!
# Deletion from the tree in memory

`__rb_erase_augmented` takes the node out, and `____rb_erase_color` repairs the tree when a
black node is missing on the paths through a position. The cases of a round are those of
`settle`, and the loop leaves what `eraseFix` says.
-/

namespace Rbtree

open RedBlack RedBlack.RbTree

variable {ν : Type} [DecidableEq ν] {t t' : RbRoot ν} {s : Side} {c c' : Color}
  {par : Option ν} {x y z : ν} {ctx : List (Frame ν)} {f : Frame ν}
  {a b T near far : RbTree ν} {fuel : ℕ}

/-! ### The rotations -/

/-- The rotation below a red sibling. -/
theorem eraseRed_eq (h : Links t par (join s c T x (join s c' near y far)))
    (hnodup : (join s c T x (join s c' near y far)).toList.Nodup) (hnear : near.color = .black)
    (hz : near.root = some z) :
  ∃ t₁, t.eraseRed s x y = some (t₁.rbChangeChild x (some y) par, z)
    ∧ Local t t₁ par (join s c T x (join s c' near y far))
        (join s c (join s .red T x near) y far)
  := by
  obtain ⟨hx, hT, hy⟩ := links_join.mp h
  obtain ⟨hy, hlnear, hfar⟩ := links_join.mp hy
  rw [root_join] at hx
  have hn := hnodup
  simp only [nodup_join, mem_toList_join, not_or] at hn
  obtain ⟨hTn, ⟨hnearn, hfarn, hynear, hyfar, hnearfar⟩, hxT, ⟨hxy, hxnear, hxfar⟩, hdisj⟩ := hn
  have hzmem := mem_toList_root hz
  have hzx : z ≠ x := ne_of_mem_of_not_mem hzmem hxnear
  have hzy : z ≠ y := ne_of_mem_of_not_mem hzmem hynear
  have hchild : (t.node y).child s = some z := by rw [hy, cell_child, hz]
  simp only [RbRoot.eraseRed, RbRoot.rbRotateSetParents, hchild, Option.bind_eq_bind,
    Option.bind_some]
  generalize ht₁ : RbRoot.rbSetParentColor _ x (some y) .red = t₁
  have hout : ∀ w, w ≠ x → w ≠ y → t₁.node w =
      if near.root = some w then { t.node w with parent := some x, color := .black }
      else t.node w := by
    intro w hwx hwy
    rw [← ht₁, hz]
    by_cases hwz : w = z
    · subst hwz
      simp [hwx, hwy]
    · simp [hwx, hwy, hwz, Ne.symm hwz]
  refine ⟨t₁, ?_, ?_⟩
  · simp [hx, hxy, Ne.symm hzx]
  · apply local_of_toList
    · rw [← ht₁]
      simp
    · intro w hw
      simp only [mem_toList_join, not_or] at hw
      obtain ⟨hwx, -, hwy, hwnear, -⟩ := hw
      rw [hout w hwx hwy, if_neg (root_ne hwnear)]
    · refine links_join.mpr ⟨?_, links_join.mpr ⟨?_, ?_, ?_⟩, ?_⟩
      · rw [← ht₁]
        simp [hx, hy, hxy, Ne.symm hxy, Ne.symm hzy, Ne.symm hzx]
      · rw [← ht₁]
        simp [hx, hxy, Ne.symm hzx, hz]
      · apply hT.congr
        intro w hw
        obtain ⟨hwy, hwnear, -⟩ := hdisj w hw
        rw [hout w (ne_of_mem_of_not_mem hw hxT) hwy, if_neg (root_ne hwnear)]
      · rw [← near.paint_color, hnear]
        apply hlnear.reparent hnearn
        intro w hw
        exact hout w (ne_of_mem_of_not_mem hw hxnear) (ne_of_mem_of_not_mem hw hynear)
      · apply hfar.congr
        intro w hw
        have hwnear : w ∉ near.toList := fun hw' => hnearfar w hw' hw
        rw [hout w (ne_of_mem_of_not_mem hw hxfar) (ne_of_mem_of_not_mem hw hyfar),
          if_neg (root_ne hwnear)]
    · exact hnodup
    · cases s <;> simp [join, toList]

/-- The rotation towards the far nephew, which is red. -/
theorem eraseOuter_eq (h : Links t par (join s c T x (join s c' near y far)))
    (hnodup : (join s c T x (join s c' near y far)).toList.Nodup) (hz : far.root = some z) :
  ∃ t₁, t.eraseOuter s x y z = t₁.rbChangeChild x (some y) par
    ∧ Local t t₁ par (join s c T x (join s c' near y far))
        (join s c (join s .black T x near) y (far.paint .black))
  := by
  obtain ⟨hx, hT, hy⟩ := links_join.mp h
  obtain ⟨hy, hlnear, hfar⟩ := links_join.mp hy
  rw [root_join] at hx
  have hn := hnodup
  simp only [nodup_join, mem_toList_join, not_or] at hn
  obtain ⟨hTn, ⟨hnearn, hfarn, hynear, hyfar, hnearfar⟩, hxT, ⟨hxy, hxnear, hxfar⟩, hdisj⟩ := hn
  have hzmem := mem_toList_root hz
  have hzx : z ≠ x := ne_of_mem_of_not_mem hzmem hxfar
  have hzy : z ≠ y := ne_of_mem_of_not_mem hzmem hyfar
  have hznear : z ∉ near.toList := fun hw => hnearfar z hw hzmem
  have hchild : (t.node y).child s = near.root := by rw [hy, cell_child]
  simp only [RbRoot.eraseOuter, RbRoot.rbRotateSetParents, hchild]
  generalize ht₁ : RbRoot.rbSetParentColor _ x (some y) .black = t₁
  have hout : ∀ w, w ≠ x → w ≠ y → t₁.node w =
      if far.root = some w then { t.node w with parent := some y, color := .black }
      else if near.root = some w then { t.node w with parent := some x }
      else t.node w := by
    intro w hwx hwy
    rw [← ht₁, hz]
    by_cases hwz : w = z
    · subst hwz
      simp [hwx, hwy, root_ne hznear]
    · simp [hwx, hwy, hwz, Ne.symm hwz]
  refine ⟨t₁, ?_, ?_⟩
  · simp [hx, hxy, Ne.symm hzx, root_ne hxnear]
  · apply local_of_toList
    · rw [← ht₁]
      simp
    · intro w hw
      simp only [mem_toList_join, not_or] at hw
      obtain ⟨hwx, -, hwy, hwnear, hwfar⟩ := hw
      rw [hout w hwx hwy, if_neg (root_ne hwfar), if_neg (root_ne hwnear)]
    · refine links_join.mpr ⟨?_, links_join.mpr ⟨?_, ?_, ?_⟩, ?_⟩
      · rw [← ht₁]
        simp [hx, hy, hxy, Ne.symm hxy, Ne.symm hzy, Ne.symm hzx, root_ne hxnear, root_ne hynear,
          hz]
      · rw [← ht₁]
        simp [hx, hxy, Ne.symm hzx, root_ne hxnear]
      · apply hT.congr
        intro w hw
        obtain ⟨hwy, hwnear, hwfar⟩ := hdisj w hw
        rw [hout w (ne_of_mem_of_not_mem hw hxT) hwy, if_neg (root_ne hwfar),
          if_neg (root_ne hwnear)]
      · apply hlnear.move hnearn
        intro w hw
        rw [hout w (ne_of_mem_of_not_mem hw hxnear) (ne_of_mem_of_not_mem hw hynear), if_neg]
        exact root_ne (hnearfar w hw)
      · apply hfar.reparent hfarn
        intro w hw
        have hwnear : w ∉ near.toList := fun hw' => hnearfar w hw' hw
        rw [hout w (ne_of_mem_of_not_mem hw hxfar) (ne_of_mem_of_not_mem hw hyfar)]
        split
        · rfl
        · rw [if_neg (root_ne hwnear)]
    · exact hnodup
    · cases s <;> simp [join, toList]

/-- The two rotations when only the near nephew `z` is red. -/
theorem eraseInner_eq (h : Links t par (join s c T x (join s c' (join s .red a z b) y far)))
    (hnodup : (join s c T x (join s c' (join s .red a z b) y far)).toList.Nodup)
    (hb : b.color = .black) :
  ∃ t₁, (t.eraseInner s x y z).eraseOuter s x z y = t₁.rbChangeChild x (some z) par
    ∧ Local t t₁ par (join s c T x (join s c' (join s .red a z b) y far))
        (join s c (join s .black T x a) z (join s .black b y far))
  := by
  obtain ⟨hx, hT, hy⟩ := links_join.mp h
  obtain ⟨hy, hz, hfar⟩ := links_join.mp hy
  obtain ⟨hz, hla, hlb⟩ := links_join.mp hz
  rw [root_join] at hx hy
  have hn := hnodup
  simp only [nodup_join, mem_toList_join, not_or] at hn
  obtain ⟨hTn, ⟨⟨han, hbn, hza, hzb, hab⟩, hfarn, ⟨hyz, hya, hyb⟩, hyfar, hnearfar⟩, hxT,
    ⟨hxy, ⟨hxz, hxa, hxb⟩, hxfar⟩, hdisj⟩ := hn
  have hchild : ((t.eraseInner s x y z).node z).child s = a.root := by
    simp [RbRoot.eraseInner, hz, Ne.symm hxz, Ne.symm hyz, root_ne hzb]
  simp only [RbRoot.eraseOuter, RbRoot.rbRotateSetParents, hchild]
  generalize ht₁ : RbRoot.rbSetParentColor _ x (some z) .black = t₁
  have hout : ∀ w, w ≠ x → w ≠ y → w ≠ z → t₁.node w =
      if a.root = some w then
        { (if b.root = some w then { t.node w with parent := some y, color := .black }
            else t.node w) with parent := some x }
      else if b.root = some w then { t.node w with parent := some y, color := .black }
      else t.node w := by
    intro w hwx hwy hwz
    rw [← ht₁]
    simp [RbRoot.eraseInner, hz, hwx, hwy, hwz]
  refine ⟨t₁, ?_, ?_⟩
  · simp [RbRoot.eraseInner, hx, hz, hxy, hxz, root_ne hxa, root_ne hxb]
  · apply local_of_toList
    · rw [← ht₁]
      simp [RbRoot.eraseInner]
    · intro w hw
      simp only [mem_toList_join, not_or] at hw
      obtain ⟨hwx, -, hwy, ⟨hwz, hwa, hwb⟩, -⟩ := hw
      rw [hout w hwx hwy hwz, if_neg (root_ne hwa), if_neg (root_ne hwb)]
    · refine links_join.mpr ⟨?_, links_join.mpr ⟨?_, ?_, ?_⟩, links_join.mpr ⟨?_, ?_, ?_⟩⟩
      · rw [← ht₁]
        simp [RbRoot.eraseInner, hx, hz, hxy, hxz, Ne.symm hxz, Ne.symm hyz, root_ne hxa,
          root_ne hxb, root_ne hza, root_ne hzb]
      · rw [← ht₁]
        simp [RbRoot.eraseInner, hx, hz, hxy, hxz, root_ne hxa, root_ne hxb]
      · apply hT.congr
        intro w hw
        obtain ⟨hwy, ⟨hwz, hwa, hwb⟩, -⟩ := hdisj w hw
        rw [hout w (ne_of_mem_of_not_mem hw hxT) hwy hwz, if_neg (root_ne hwa),
          if_neg (root_ne hwb)]
      · apply hla.move han
        intro w hw
        rw [hout w (ne_of_mem_of_not_mem hw hxa) (ne_of_mem_of_not_mem hw hya)
          (ne_of_mem_of_not_mem hw hza), if_neg (root_ne (hab w hw))]
      · rw [← ht₁]
        simp [RbRoot.eraseInner, hx, hy, hz, hxy, hxz, hyz, Ne.symm hxy, root_ne hxa,
          root_ne hxb, root_ne hya, root_ne hyb]
      · rw [← b.paint_color, hb]
        apply hlb.reparent hbn
        intro w hw
        have hwa : w ∉ a.toList := fun hw' => hab w hw' hw
        rw [hout w (ne_of_mem_of_not_mem hw hxb) (ne_of_mem_of_not_mem hw hyb)
          (ne_of_mem_of_not_mem hw hzb), if_neg (root_ne hwa)]
      · apply hfar.congr
        intro w hw
        have hnot := fun hw' => hnearfar w hw' hw
        simp only [imp_false, not_or] at hnot
        obtain ⟨hwz, hwa, hwb⟩ := hnot
        rw [hout w (ne_of_mem_of_not_mem hw hxfar) (ne_of_mem_of_not_mem hw hyfar) hwz,
          if_neg (root_ne hwa), if_neg (root_ne hwb)]
    · exact hnodup
    · cases s <;> simp [join, toList]

/-- The recoloring when both nephews are black. -/
theorem eraseFlip_eq (h : Links t par (join s c T x (join s c' near y far)))
    (hnodup : (join s c T x (join s c' near y far)).toList.Nodup) :
  ∃ t₁, t.eraseFlip x y
      = some (t₁, if c = .red then none else par.map fun p => (x, p))
    ∧ Local t t₁ par (join s c T x (join s c' near y far))
        (join s .black T x (join s .red near y far))
  := by
  obtain ⟨hx, hT, hy⟩ := links_join.mp h
  obtain ⟨hy, hlnear, hfar⟩ := links_join.mp hy
  rw [root_join] at hx
  have hn := hnodup
  simp only [nodup_join, mem_toList_join, not_or] at hn
  obtain ⟨hTn, ⟨hnearn, hfarn, hynear, hyfar, hnearfar⟩, hxT, ⟨hxy, hxnear, hxfar⟩, hdisj⟩ := hn
  have hlocal : ∀ t₁ : RbRoot ν, t₁.rbNode = t.rbNode →
      (∀ w, w ≠ x → w ≠ y → t₁.node w = t.node w) →
      t₁.node x = cell s par .black T.root (some y) →
      t₁.node y = cell s (some x) .red near.root far.root →
      Local t t₁ par (join s c T x (join s c' near y far))
        (join s .black T x (join s .red near y far)) := by
    intro t₁ hroot hout hx₁ hy₁
    apply local_of_toList
    · exact hroot
    · intro w hw
      simp only [mem_toList_join, not_or] at hw
      exact hout w hw.1 hw.2.2.1
    · refine links_join.mpr ⟨?_, ?_, links_join.mpr ⟨hy₁, ?_, ?_⟩⟩
      · rw [hx₁, root_join]
      · apply hT.congr
        intro w hw
        exact hout w (ne_of_mem_of_not_mem hw hxT) (hdisj w hw).1
      · apply hlnear.congr
        intro w hw
        exact hout w (ne_of_mem_of_not_mem hw hxnear) (ne_of_mem_of_not_mem hw hynear)
      · apply hfar.congr
        intro w hw
        exact hout w (ne_of_mem_of_not_mem hw hxfar) (ne_of_mem_of_not_mem hw hyfar)
    · exact hnodup
    · cases s <;> simp [join, toList]
  cases c with
  | red =>
    refine ⟨(t.rbSetParentColor y (some x) .red).modify x fun n => { n with color := .black },
      ?_, ?_⟩
    · simp [RbRoot.eraseFlip, RbRoot.rbIsRed, RbRoot.rbSetBlack, hx, hxy]
    · apply hlocal
      · rfl
      · intro w hwx hwy
        simp [hwx, hwy]
      · simp [hx, hxy]
      · simp [hy, Ne.symm hxy]
  | black =>
    refine ⟨t.rbSetParentColor y (some x) .red, ?_, ?_⟩
    · simp [RbRoot.eraseFlip, RbRoot.rbIsRed, hx, hxy]
    · apply hlocal
      · rfl
      · intro w hwx hwy
        simp [hwy]
      · simp [hx, hxy]
      · simp [hy]

/-! ### The loop -/

/-- A black sibling: the round leaves what `settle` says, and goes on unless the missing black
node has been made up for. -/
theorem eraseBlack_spec {k : ℕ} (h : At t (⟨s, c, x, join s .black near y far⟩ :: ctx) T)
    (hk : near.Balanced k) :
  ∃ t₁, t.eraseBlack s x y
      = some (t₁, if (settle ⟨s, c, x, join s .black near y far⟩ T).2 then none
          else (top ctx).map fun p => (x, p))
    ∧ At t₁ ctx (settle ⟨s, c, x, join s .black near y far⟩ T).1
  := by
  have hat := at_cons.mp h
  have hlinks := hat.links
  have hnodup := hat.nodup_tree
  dsimp only at hat hlinks hnodup
  obtain ⟨hnode, hnear, hfar⟩ := links_join.mp (links_join.mp hlinks).2.2
  have hchild : (t.node y).child s = near.root := by rw [hnode, cell_child]
  have hchild' : (t.node y).child s.other = far.root := by rw [hnode, cell_child_other]
  obtain hred | ⟨hblack, a, z, b, rfl⟩ | ⟨hblack, hblack'⟩ := settle_cases near far s
  · obtain ⟨a, z, b, hz⟩ := exists_of_red hred .left
    have hz : far.root = some z := by rw [hz, root_join]
    obtain ⟨t₁, heq, hlocal⟩ := eraseOuter_eq hlinks hnodup hz
    have hrechild := hat.rechild (root_join _ _ _ _ _) hlocal
    rw [root_join] at hrechild
    rw [settle_far hred]
    refine ⟨_, ?_, hrechild⟩
    have hfilter : ((t.node y).child s.other).filter t.rbIsRed = some z := by
      rw [hchild', filter_root_of_red hfar hred, hz]
    simp only [RbRoot.eraseBlack, hfilter, heq, if_true]
  · obtain ⟨t₁, heq, hlocal⟩ := eraseInner_eq hlinks hnodup (balanced_join_red.mp hk).2.2.2
    have hrechild := hat.rechild (root_join _ _ _ _ _) hlocal
    rw [root_join] at hrechild
    rw [settle_near hblack]
    refine ⟨_, ?_, hrechild⟩
    have hfilter : ((t.node y).child s.other).filter t.rbIsRed = none := by
      rw [hchild', filter_root_of_black hfar hblack]
    have hfilter' : ((t.node y).child s).filter t.rbIsRed = some z := by
      rw [hchild, filter_root_of_red hnear (color_join _ _ _ _ _), root_join]
    simp only [RbRoot.eraseBlack, hfilter, hfilter', heq, if_true]
  · obtain ⟨t₁, heq, hlocal⟩ := eraseFlip_eq hlinks hnodup
    rw [settle_flip hblack hblack']
    refine ⟨t₁, ?_, hat.local hlocal (by rw [root_join, root_join])⟩
    simp only [RbRoot.eraseBlack, hchild, hchild', filter_root_of_black hfar hblack,
      filter_root_of_black hnear hblack', heq, decide_eq_true_eq]

/-- A round repairs the tree, or it goes on at the parent. -/
theorem eraseRound_spec {k : ℕ} (h : At t (f :: ctx) T) (hfits : Fits (f :: ctx) (k + 1))
    (hT : T.Balanced k) :
  (∃ t₁, t.eraseRound f.side f.node = some (t₁, none) ∧ At t₁ [] (eraseFix (f :: ctx) T))
    ∨ ∃ t₁, t.eraseRound f.side f.node = some (t₁, (top ctx).map fun p => (f.node, p))
      ∧ At t₁ ctx (settle f T).1 ∧ (settle f T).1.Balanced (k + 1)
      ∧ (settle f T).1.root = some f.node ∧ Fits ctx (k + 2)
      ∧ eraseFix (f :: ctx) T = eraseFix ctx (settle f T).1
  := by
  obtain ⟨s, c, x, sibling⟩ := f
  have hat := at_cons.mp h
  obtain ⟨hnode, -, hsib⟩ := links_join.mp hat.links
  by_cases hred : sibling.color = .red
  · obtain rfl : c = .black := by
      apply Color.eq_black
      rintro rfl
      cases hred.symm.trans (hfits.red rfl).2.1
    obtain ⟨near, y, far, rfl⟩ := exists_of_red hred s
    obtain ⟨hnear, hfar, hnearb, hfarb⟩ := balanced_join_red.mp (hfits.black rfl).1
    obtain ⟨a, z, b, rfl, ha, hb⟩ := hnear.exists_join hnearb s
    obtain ⟨t₁, heq, hlocal⟩ :=
      eraseRed_eq hat.links hat.nodup_tree hnearb (root_join _ _ _ _ _)
    have hrechild := hat.rechild (root_join _ _ _ _ _) hlocal
    rw [root_join] at hrechild
    have hat₁ : At _ (⟨s, .red, x, join s .black a z b⟩ :: ⟨s, .black, y, far⟩ :: ctx) T :=
      at_cons.mpr (at_cons.mpr hrechild)
    obtain ⟨t₂, heq₂, hat₂⟩ := eraseBlack_spec hat₁ ha
    obtain ⟨hdone, -, -⟩ | ⟨-, hc, -⟩ :=
      settle_spec (f := ⟨s, .red, x, join s .black a z b⟩) hT hnear hnearb
    · left
      refine ⟨t₂, ?_, ?_⟩
      · have hisred : t.rbIsRed y = true := by
          rw [RbRoot.rbIsRed, (hsib.root (root_join _ _ _ _ _)).2, color_join]
          rfl
        rw [hdone, if_pos rfl] at heq₂
        simp only [RbRoot.eraseRound, hnode, cell_child_other, root_join, Option.bind_eq_bind,
          Option.bind_some, hisred, if_true, heq, heq₂]
      · rw [eraseFix_of_red]
        exact at_plug.mp hat₂
    · cases hc
  · have hb := Color.eq_black hred
    have hbal : sibling.Balanced (k + 1) := hfits.1
    have hsettle := settle_spec (f := ⟨s, c, x, sibling⟩) hT hbal hb
    have hfix : eraseFix (⟨s, c, x, sibling⟩ :: ctx) T = _ := eraseFix_of_black hb
    obtain ⟨near, y, far, rfl, hnear, -⟩ := hbal.exists_join hb s
    obtain ⟨t₁, heq, hat₁⟩ := eraseBlack_spec h hnear
    have hround : t.eraseRound s x = t.eraseBlack s x y := by
      have hnotred : t.rbIsRed y = false := by
        rw [RbRoot.rbIsRed, (hsib.root (root_join _ _ _ _ _)).2, color_join]
        rfl
      simp only [RbRoot.eraseRound, hnode, cell_child_other, root_join, Option.bind_eq_bind,
        Option.bind_some, hnotred, Bool.false_eq_true, if_false]
    obtain ⟨hdone, -, -⟩ | ⟨hgo, hc, hbal', -⟩ := hsettle
    · left
      refine ⟨t₁, ?_, ?_⟩
      · rw [hround, heq, hdone, if_pos rfl]
      · rw [hfix, hdone, if_pos rfl]
        exact at_plug.mp hat₁
    · right
      refine ⟨t₁, ?_, hat₁, hbal', root_settle hgo, (hfits.black hc).2, ?_⟩
      · rw [hround, heq, hgo, if_neg Bool.false_ne_true]
      · rw [hfix, hgo, if_neg Bool.false_ne_true]

/-- The loop makes a round on the side of its node. -/
theorem eraseLoop_succ (h : At t (f :: ctx) T) (hsib : f.sibling ≠ .nil) (fuel : ℕ) :
  RbRoot.eraseLoop (fuel + 1) t T.root f.node
    = (t.eraseRound f.side f.node).bind fun
      | (t, some (y, p)) => RbRoot.eraseLoop fuel t (some y) p
      | (t, none) => some t
  := by
  have hat := at_cons.mp h
  have hside : (if (t.node f.node).rbRight = T.root then Side.right else Side.left) = f.side := by
    rw [h.context.1]
    cases hs : f.side with
    | right => exact if_pos rfl
    | left =>
      apply if_neg
      intro heq
      have hn := hat.nodup_tree
      rw [nodup_join] at hn
      cases hT : f.sibling with
      | nil => exact hsib hT
      | node c l y r =>
        rw [hT] at heq hn
        exact hn.2.2.2.2 y (mem_toList_root heq.symm) (mem_toList_root rfl)
  rw [RbRoot.eraseLoop, hside]
  rfl

/-- The tree that `____rb_erase_color` leaves is the repaired one. -/
theorem eraseLoop_spec {k : ℕ} (h : At t (f :: ctx) T) (hfits : Fits (f :: ctx) (k + 1))
    (hT : T.Balanced k) (hfuel : ctx.length < fuel) :
  ∃ t', RbRoot.eraseLoop fuel t T.root f.node = some t' ∧ At t' [] (eraseFix (f :: ctx) T)
  := by
  induction ctx generalizing t f T k fuel with
  | nil =>
    obtain ⟨fuel, rfl⟩ := Nat.exists_eq_succ_of_ne_zero (Nat.ne_zero_of_lt hfuel)
    rw [eraseLoop_succ h hfits.sibling_ne_nil]
    obtain ⟨t₁, hround, hat⟩ | ⟨t₁, hround, hat, -, -, -, hfix⟩ := eraseRound_spec h hfits hT
    · rw [hround]
      exact ⟨t₁, rfl, hat⟩
    · rw [hround, hfix]
      exact ⟨t₁, rfl, hat⟩
  | cons f' ctx ih =>
    obtain ⟨fuel, rfl⟩ := Nat.exists_eq_succ_of_ne_zero (Nat.ne_zero_of_lt hfuel)
    rw [eraseLoop_succ h hfits.sibling_ne_nil]
    obtain ⟨t₁, hround, hat⟩ | ⟨t₁, hround, hat, hbal, hroot, hfits', hfix⟩ :=
      eraseRound_spec h hfits hT
    · rw [hround]
      exact ⟨t₁, rfl, hat⟩
    · rw [hround, hfix]
      have hnext := ih hat hfits' hbal (Nat.lt_of_succ_lt_succ hfuel)
      rw [hroot] at hnext
      exact hnext

/-! ### Taking a node out -/

/-- Taking away a node with one child at most. -/
theorem at_unlink {u : RbTree ν} (h : At t ctx (join s c .nil x u)) :
  At ((t.blackenIf u.root (top ctx)).rbChangeChild x u.root (top ctx)) ctx (u.paint .black)
  := by
  obtain ⟨-, -, hu⟩ := links_join.mp h.links
  have hn := h.nodup_tree
  simp only [nodup_join] at hn
  have hlocal : Local t (t.blackenIf u.root (top ctx)) (top ctx) (join s c .nil x u)
      (u.paint .black) := by
    constructor
    · exact blackenIf_rbNode _ _ _
    · intro w hw
      simp only [mem_toList_join, not_or] at hw
      rw [blackenIf_node, if_neg (root_ne hw.2.2)]
    · apply hu.reparent hn.2.1
      intro w _
      exact blackenIf_node _ _ _ _
    · rw [toList_paint]
      exact hn.2.1
    · intro w hw
      rw [toList_paint] at hw
      exact mem_toList_join.mpr (Or.inr (Or.inr hw))
  have hrechild := h.rechild (root_join _ _ _ _ _) hlocal
  rwa [root_paint] at hrechild

/-- The node `y` gets the place of `x`, when it has been given the pointers of `x` and the
children of `x` have been given it as their parent. -/
theorem At.rename {l r : RbTree ν} (h : At t ctx (.node c l x r))
    (hy : y ∉ (plug ctx (.node c l x r)).toList) (hrbNode : t'.rbNode = t.rbNode)
    (hnode : t'.node y = t.node x)
    (hchild : ∀ w ∈ l.toList ++ r.toList, t'.node w =
      if l.root = some w ∨ r.root = some w then { t.node w with parent := some y } else t.node w)
    (hout : ∀ w ∈ around ctx, t'.node w = t.node w) :
  At (t'.rbChangeChild x (some y) (top ctx)) ctx (.node c l y r)
  := by
  rw [(perm_toList_plug _ _).mem_iff, List.mem_append, not_or] at hy
  obtain ⟨hyT, hyctx⟩ := hy
  obtain ⟨hx, hl, hr⟩ := h.links
  obtain ⟨hT, hctx, hdisj⟩ := nodup_append_around.mp h.nodup
  obtain ⟨hln, hrn, hxl, hxr, hlr⟩ := (nodup_join (s := .left) (c := c)).mp hT
  have hmem : ∀ w, w ∈ (RbTree.node c l x r).toList ↔ w = x ∨ w ∈ l.toList ∨ w ∈ r.toList :=
    fun w => mem_toList_join (s := .left) (c := c)
  simp only [hmem, not_or] at hyT hdisj
  obtain ⟨hyx, hyl, hyr⟩ := hyT
  change At (t'.rbChangeChild x (RbTree.node c l y r).root (top ctx)) ctx (.node c l y r)
  apply h.replace rfl hrbNode hout
  · refine ⟨by rw [hnode, hx], ?_, ?_⟩
    · apply hl.move hln
      intro w hw
      simp [hchild w (List.mem_append_left _ hw), root_ne (hlr w hw)]
    · apply hr.move hrn
      intro w hw
      have hwl : w ∉ l.toList := fun hw' => hlr w hw' hw
      simp [hchild w (List.mem_append_right _ hw), root_ne hwl]
  · apply nodup_append_around.mpr
    refine ⟨?_, hctx, ?_⟩
    · exact (nodup_join (s := .left) (c := c)).mpr ⟨hln, hrn, hyl, hyr, hlr⟩
    · intro w hw
      obtain rfl | hw := (mem_toList_join (s := .left) (c := c)).mp hw
      · exact hyctx
      · exact hdisj w (Or.inr hw)

/-- `rb_replace_node` puts a node in the place of another one. -/
theorem rbReplaceNode_spec {l r : RbTree ν} (h : At t ctx (.node c l x r))
    (hy : y ∉ (plug ctx (.node c l x r)).toList) :
  At (t.rbReplaceNode x y) ctx (.node c l y r)
  := by
  have hy' := hy
  rw [(perm_toList_plug _ _).mem_iff] at hy'
  simp only [toList, List.mem_append, List.mem_cons, not_or] at hy'
  obtain ⟨⟨hyl, hyx, hyr⟩, hyctx⟩ := hy'
  have hx := h.links.1
  have hn := h.nodup
  rw [nodup_append_around] at hn
  obtain ⟨hT, -, hdisj⟩ := hn
  obtain ⟨-, -, hxl, -, hlr⟩ := (nodup_join (s := .left) (c := c)).mp hT
  let t₁ := ((t.modify y fun _ => t.node x).setParentIf l.root (some y)).setParentIf r.root (some y)
  have ht : t.rbReplaceNode x y = t₁.rbChangeChild x (some y) (top ctx) := by
    simp [RbRoot.rbReplaceNode, hx, t₁, Ne.symm hyx, root_ne hxl]
  rw [ht]
  apply h.rename hy
  · simp [t₁]
  · simp [t₁, root_ne hyl, root_ne hyr]
  · intro w hw
    have hwy : w ≠ y := by
      rintro rfl
      exact (List.mem_append.mp hw).elim hyl hyr
    by_cases hl : l.root = some w <;> by_cases hr : r.root = some w <;> simp [t₁, hwy, hl, hr]
  · intro w hw
    have hwl : w ∉ l.toList := fun hw' => hdisj w (List.mem_append_left _ hw') hw
    have hwr : w ∉ r.toList := fun hw' =>
      hdisj w (List.mem_append_right _ (List.mem_cons_of_mem x hw')) hw
    simp [t₁, ne_of_mem_of_not_mem hw hyctx, root_ne hwl, root_ne hwr]

theorem rbChangeChild_modify (hw : par ≠ some y) (new : Option ν) (g : RbNode ν → RbNode ν) :
  (t.rbChangeChild x new par).modify y g = (t.modify y g).rbChangeChild x new par
  := by
  cases par with
  | none => rfl
  | some p =>
    have hpy : p ≠ y := fun heq => hw (congrArg some heq)
    simp only [RbRoot.rbChangeChild, RbRoot.modify_node, if_neg hpy]
    split <;>
      simp only [RbRoot.writeOnce, RbRoot.modify, Function.update_of_ne hpy,
        Function.update_of_ne (Ne.symm hpy), Function.update_comm hpy]

/-- The last part of the case of two children, with the change of the parent put at its
end. -/
theorem eraseReplace_eq {pc right v : Option ν}
    (hx : t.node x = ⟨pc, c, right, some z⟩) (hxy : x ≠ y) (hxz : x ≠ z) (hyz : y ≠ z)
    (hpy : pc ≠ some y) (hp : ∀ w, v = some w → pc ≠ some w) (p : ν) :
  t.eraseReplace x y p v
    = some (((((t.writeOnce y .left (some z)).rbSetParent z (some y)).blackenIf v (some p)
          ).rbSetParentColor y pc c).rbChangeChild x (some y) pc,
        if v = none ∧ (t.node y).color = .black then some p else none)
  := by
  let t₁ := (t.writeOnce y .left (some z)).rbSetParent z (some y)
  have hx₁ : t₁.node x = ⟨pc, c, right, some z⟩ := by simp [t₁, hxy, hxz, hx]
  have hb : (t₁.rbChangeChild x (some y) pc).rbIsBlack y = decide ((t.node y).color = .black) := by
    rw [RbRoot.rbIsBlack, rbChangeChild_node _ _ _ hpy]
    simp [t₁, hyz, RbNode.setChild]
  have hstep : t.eraseReplace x y p v
      = some (v.elim
          ((t₁.rbChangeChild x (some y) pc).rbSetParentColor y pc c,
            if (t₁.rbChangeChild x (some y) pc).rbIsBlack y then some p else none)
          fun w => (((t₁.rbChangeChild x (some y) pc).rbSetParentColor w (some p) .black
            ).rbSetParentColor y pc c, none)) := by
    simp only [RbRoot.eraseReplace, hx, Option.bind_eq_bind, Option.bind_some]
    rw [show ((t.writeOnce y .left (some z)).rbSetParent z (some y)).node x = _ from hx₁]
    cases v <;> rfl
  rw [hstep]
  cases v with
  | some w =>
    have hpw := hp w rfl
    simp only [RbRoot.rbSetParentColor, rbChangeChild_modify hpw, rbChangeChild_modify hpy,
      RbRoot.blackenIf, t₁, reduceCtorEq, false_and, if_false, Option.elim_some]
  | none =>
    simp only [RbRoot.rbSetParentColor, rbChangeChild_modify hpy, RbRoot.blackenIf, t₁] at hb ⊢
    simp [hb]

section Successor

variable {cy : Color} {l r u : RbTree ν} {path : List (Frame ν)}

/-- The tree when the successor has been taken off its place, and the nodes around it. -/
theorem at_unlink_spine (h : At t ctx (.node c l x r)) 
    (hspine : spine r = ⟨.left, cy, y, u⟩ :: path) {q : ν} 
    (hq : top (path ++ ⟨.right, c, x, l⟩ :: ctx) = some q) :
  At ((t.blackenIf u.root (some q)).rbChangeChild y u.root (some q)) ctx
      (.node c l x (plug path (u.paint .black)))
    ∧ y ∉ (plug ctx (.node c l x (plug path (u.paint .black)))).toList
  := by
  have hat := at_spine h hspine
  have hunlink := at_unlink hat
  rw [hq] at hunlink
  constructor
  · exact at_cons.mp (at_append.mp hunlink)
  · have hn := hat.nodup
    have hmove : plug ctx (.node c l x (plug path (u.paint .black)))
        = plug (path ++ ⟨.right, c, x, l⟩ :: ctx) (u.paint .black) := by
      rw [plug_append]
      rfl
    rw [hmove, (perm_toList_plug _ _).mem_iff, toList_paint]
    rw [nodup_append_around, nodup_join] at hn
    rw [List.mem_append, not_or]
    exact ⟨hn.1.2.2.2.1, hn.2.2 y (mem_toList_join.mpr (Or.inl rfl))⟩

/-- The case of two children, when the successor is the right child. -/
theorem rbEraseAugmented_child (fuel : ℕ) (h : At t ctx (.node c l x r)) (hl : l ≠ .nil)
    (hspine : spine r = [⟨.left, cy, y, u⟩]) :
  ∃ t₁, t.rbEraseAugmented fuel x
      = some (t₁, if u.root = none ∧ cy = .black then some y else none)
    ∧ At t₁ (⟨.right, c, y, l⟩ :: ctx) (u.paint .black)
  := by
  obtain ⟨hat₁, hyT⟩ := at_unlink_spine h hspine (q := x) rfl
  obtain rfl : r = .node cy .nil y u := eq_plug_of_spine hspine
  obtain ⟨z, hz⟩ : ∃ z, l.root = some z := by
    cases l with
    | nil => exact absurd rfl hl
    | node _ _ z _ => exact ⟨z, rfl⟩
  obtain ⟨hx, hll, hy, -, hu⟩ := h.links
  have hn := h.nodup
  rw [nodup_append_around] at hn
  obtain ⟨hT, -, hdisj⟩ := hn
  have hzmem := mem_toList_root hz
  simp only [toList, List.nil_append, List.nodup_append, List.nodup_cons, List.mem_append,
    List.mem_cons, not_or] at hT hdisj
  obtain ⟨hln, ⟨⟨hxy, hxu⟩, hyu, hun⟩, hlr⟩ := hT
  have hxl : x ∉ l.toList := fun hmem => hlr x hmem x (Or.inl rfl) rfl
  have hyl : y ∉ l.toList := fun hmem => hlr y hmem y (Or.inr (Or.inl rfl)) rfl
  have hlu : ∀ w ∈ l.toList, w ∉ u.toList := fun w hw hw' => hlr w hw w (Or.inr (Or.inr hw')) rfl
  have hzx : z ≠ x := ne_of_mem_of_not_mem hzmem hxl
  have hzy : z ≠ y := ne_of_mem_of_not_mem hzmem hyl
  have htop : ∀ w, w ∈ l.toList ∨ w = x ∨ w = y ∨ w ∈ u.toList → top ctx ≠ some w :=
    fun w hw htop => hdisj w hw (top_mem htop)
  replace hx : t.node x = ⟨top ctx, c, some y, some z⟩ := by
    rw [hx, hz]
    rfl
  replace hy : t.node y = ⟨some x, cy, u.root, none⟩ := hy
  have heq := eraseReplace_eq (v := u.root) hx hxy (Ne.symm hzx) (Ne.symm hzy)
    (htop y (Or.inr (Or.inr (Or.inl rfl))))
    (fun w hw => htop w (Or.inr (Or.inr (Or.inr (mem_toList_root hw))))) y
  generalize hS : RbRoot.rbSetParentColor _ y (top ctx) c = S at heq
  refine ⟨S.rbChangeChild x (some y) (top ctx), ?_, ?_⟩
  · simp [RbRoot.rbEraseAugmented, hx, hy, heq]
  · apply at_cons.mpr
    have ht₁ : (t.blackenIf u.root (some x)).rbChangeChild y u.root (some x)
        = (t.blackenIf u.root (some x)).writeOnce x .right u.root := by
      simp [RbRoot.rbChangeChild, hx, root_ne hxu, hzy]
    rw [ht₁] at hat₁
    apply hat₁.rename hyT
    · simp [← hS]
    · simp [← hS, hx, hy, Ne.symm hzy, root_ne hxu, root_ne hyu, RbNode.setChild]
    · intro w hw
      simp only [plug, toList_paint, root_paint, List.mem_append] at hw ⊢
      obtain hw | hw := hw
      · have hwx := ne_of_mem_of_not_mem hw hxl
        have hwy := ne_of_mem_of_not_mem hw hyl
        by_cases hwz : w = z
        · subst hwz
          simp [← hS, hwx, hwy, hz, root_ne (hlu w hw)]
        · simp [← hS, hwx, hwy, hz, hwz, Ne.symm hwz, root_ne (hlu w hw)]
      · have hwx := ne_of_mem_of_not_mem hw hxu
        have hwy := ne_of_mem_of_not_mem hw hyu
        have hwz : w ≠ z := fun heq => hlu z hzmem (heq ▸ hw)
        by_cases hwu : u.root = some w <;>
          simp [← hS, hwx, hwy, hz, hwz, Ne.symm hwz, hwu]
    · intro w hw
      have hne : ∀ v, v ∈ l.toList ∨ v = x ∨ v = y ∨ v ∈ u.toList → w ≠ v := by
        rintro v hv rfl
        exact hdisj w hv hw
      have hwu : u.root ≠ some w := root_ne fun hw' => hdisj w (Or.inr (Or.inr (Or.inr hw'))) hw
      simp [← hS, hne z (Or.inl hzmem), hne x (Or.inr (Or.inl rfl)),
        hne y (Or.inr (Or.inr (Or.inl rfl))), hwu]

/-- The case of two children, when the successor is further down. -/
theorem rbEraseAugmented_deep (h : At t ctx (.node c l x r)) (hl : l ≠ .nil)
    (hspine : spine r = ⟨.left, cy, y, u⟩ :: f :: path) (hfuel : r.height < fuel) :
  ∃ t₁, t.rbEraseAugmented fuel x
      = some (t₁, if u.root = none ∧ cy = .black then some f.node else none)
    ∧ At t₁ ((f :: path) ++ ⟨.right, c, y, l⟩ :: ctx) (u.paint .black)
  := by
  obtain ⟨hat₁, hyT⟩ := at_unlink_spine h hspine (q := f.node) rfl
  have hat := at_spine h hspine
  have hr : r = plug (f :: path) (join .left cy .nil y u) := eq_plug_of_spine hspine
  obtain ⟨m, hm, hroot⟩ := root_plug_cons f path
  have hside : f.side = .left := by
    apply spine_side r
    rw [hspine]
    exact List.mem_cons_of_mem _ List.mem_cons_self
  obtain ⟨z, hz⟩ : ∃ z, l.root = some z := by
    cases l with
    | nil => exact absurd rfl hl
    | node _ _ z _ => exact ⟨z, rfl⟩
  have hn := hat.nodup
  have hfm : f.node ∈ around (f :: path) := List.mem_cons_self
  rw [around_append] at hn
  generalize hP : around (f :: path) = P at hn hm hfm
  simp only [around, join, toList, List.nil_append, List.nodup_append, List.nodup_cons,
    List.mem_append, List.mem_cons, List.cons_append, not_or] at hn
  obtain ⟨⟨hyu, hyP, hyx, hyl, hyctx⟩, hun, ⟨-, ⟨⟨hxl, hxctx⟩, -, -, hlctx⟩, hPrest⟩, hurest⟩ := hn
  have hxP : x ∉ P := fun hw => hPrest x hw x (Or.inl rfl) rfl
  have hPl : ∀ w ∈ P, w ∉ l.toList := fun w hw hw' => hPrest w hw w (Or.inr (Or.inl hw')) rfl
  have hPctx : ∀ w ∈ P, w ∉ around ctx := fun w hw hw' =>
    hPrest w hw w (Or.inr (Or.inr hw')) rfl
  have hxu : x ∉ u.toList := fun hw => hurest x hw x (Or.inr (Or.inl rfl)) rfl
  have huP : ∀ w ∈ u.toList, w ∉ P := fun w hw hw' => hurest w hw w (Or.inl hw') rfl
  have hul : ∀ w ∈ u.toList, w ∉ l.toList := fun w hw hw' =>
    hurest w hw w (Or.inr (Or.inr (Or.inl hw'))) rfl
  have huctx : ∀ w ∈ u.toList, w ∉ around ctx := fun w hw hw' =>
    hurest w hw w (Or.inr (Or.inr (Or.inr hw'))) rfl
  have hzl := mem_toList_root hz
  have hx : t.node x = ⟨top ctx, c, some m, some z⟩ := by
    rw [h.links.1, hz, hr, hroot]
  have hy : t.node y = ⟨some f.node, cy, u.root, none⟩ := (links_join.mp hat.links).1
  have hf : (t.node f.node).rbLeft = some y := by
    have hcell := hat.context.1
    rw [hside] at hcell
    rw [hcell]
    rfl
  have hlink : t.rbEraseAugmented fuel x
      = (((t.writeOnce f.node .left u.root).writeOnce y .right (some m)).rbSetParent m (some y)
          ).eraseReplace x y f.node u.root := by
    cases r with
    | nil => cases hspine
    | node cm lm m' rm =>
      obtain rfl : m' = m := Option.some.inj ((congrArg RbTree.root hr).trans (hroot _))
      obtain ⟨hm', hlm, -⟩ := h.links.2.2
      obtain ⟨z', hz'⟩ : ∃ z', lm.root = some z' := by
        cases lm with
        | nil => cases hspine
        | node _ _ z' _ => exact ⟨z', rfl⟩
      have hheight : lm.height < fuel := by
        rw [height] at hfuel
        omega
      obtain ⟨g, g', path', hg, hloop⟩ := successorLoop_spec (c := cm) hlm hz' hheight rm
      rw [hspine] at hg
      obtain ⟨rfl, rfl, -⟩ : ⟨.left, cy, y, u⟩ = g ∧ f = g' ∧ path = path' := by
        simpa using hg
      simp [RbRoot.rbEraseAugmented, hx, hm', hz', hloop, hy]
  generalize ht₀ : RbRoot.rbSetParent _ m (some y) = t₀ at hlink
  have hfx : f.node ≠ x := ne_of_mem_of_not_mem hfm hxP
  have hfy : f.node ≠ y := ne_of_mem_of_not_mem hfm hyP
  have hmx : m ≠ x := ne_of_mem_of_not_mem hm hxP
  have hmy : m ≠ y := ne_of_mem_of_not_mem hm hyP
  have hzx : z ≠ x := ne_of_mem_of_not_mem hzl hxl
  have hzy : z ≠ y := ne_of_mem_of_not_mem hzl hyl
  have hzm : z ≠ m := fun heq => hPl m hm (heq ▸ hzl)
  have hzf : z ≠ f.node := fun heq => hPl f.node hfm (heq ▸ hzl)
  have hfu : u.root ≠ some f.node := root_ne fun hw => huP f.node hw hfm
  have htop : ∀ w, w ∉ around ctx → top ctx ≠ some w := fun w hw htop => hw (top_mem htop)
  have hx₀ : t₀.node x = ⟨top ctx, c, some m, some z⟩ := by
    simp [← ht₀, hx, Ne.symm hfx, Ne.symm hmx, Ne.symm hyx]
  have heq := eraseReplace_eq (v := u.root) hx₀ (Ne.symm hyx) (Ne.symm hzx) (Ne.symm hzy)
    (htop y hyctx) (fun w hw => htop w (huctx w (mem_toList_root hw))) f.node
  generalize hS : RbRoot.rbSetParentColor _ y (top ctx) c = S at heq
  have hcy : (t₀.node y).color = cy := by
    simp [← ht₀, hy, Ne.symm hfy, Ne.symm hmy, RbNode.setChild]
  refine ⟨S.rbChangeChild x (some y) (top ctx), ?_, ?_⟩
  · rw [hlink, heq, hcy]
  · rw [at_append]
    apply at_cons.mpr
    have ht₁ : (t.blackenIf u.root (some f.node)).rbChangeChild y u.root (some f.node)
        = (t.blackenIf u.root (some f.node)).writeOnce f.node .left u.root := by
      simp [RbRoot.rbChangeChild, hf, hfu]
    rw [ht₁] at hat₁
    apply hat₁.rename hyT
    · simp [← hS, ← ht₀]
    · simp [← hS, ← ht₀, hx, hy, RbNode.setChild, Ne.symm hfx, Ne.symm hfy, Ne.symm hmy,
        Ne.symm hzy, root_ne hyu, root_ne hxu]
    · intro w hw
      rw [hroot]
      rw [List.mem_append, (perm_toList_plug _ _).mem_iff, toList_paint, List.mem_append, hP] at hw
      obtain hw | hw | hw := hw
      · have hwf : w ≠ f.node := fun heq => hPl f.node hfm (heq ▸ hw)
        have hwm : w ≠ m := fun heq => hPl m hm (heq ▸ hw)
        have hwy := ne_of_mem_of_not_mem hw hyl
        have hwu : u.root ≠ some w := root_ne fun hw' => hul w hw' hw
        by_cases hwz : w = z
        · subst hwz
          simp [← hS, ← ht₀, hwf, hwm, hwy, hwu, hz]
        · simp [← hS, ← ht₀, hwf, hwm, hwy, hwu, hz, hwz, Ne.symm hwz, Ne.symm hwm]
      · have hwf : w ≠ f.node := fun heq => huP w hw (heq ▸ hfm)
        have hwm : w ≠ m := fun heq => huP w hw (heq ▸ hm)
        have hwz : w ≠ z := fun heq => hul w hw (heq ▸ hzl)
        have hwy := ne_of_mem_of_not_mem hw hyu
        by_cases hwu : u.root = some w <;>
          simp [← hS, ← ht₀, hwf, hwm, hwy, hwz, hwu, hz, Ne.symm hwz, Ne.symm hwm]
      · have hwz : w ≠ z := fun heq => hPl w hw (heq ▸ hzl)
        have hwy := ne_of_mem_of_not_mem hw hyP
        have hwu : u.root ≠ some w := root_ne fun hw' => huP w hw' hw
        by_cases hwf : w = f.node
        · subst hwf
          by_cases hwm : f.node = m
          · subst hwm
            simp [← hS, ← ht₀, hwy, hwz, hwu, hz, Ne.symm hwz]
          · simp [← hS, ← ht₀, hwy, hwz, hwu, hz, Ne.symm hwz, hwm, Ne.symm hwm]
        · by_cases hwm : w = m
          · subst hwm
            simp [← hS, ← ht₀, hwy, hwz, hwu, hz, Ne.symm hwz, hwf]
          · simp [← hS, ← ht₀, hwy, hwz, hwu, hz, Ne.symm hwz, hwf, hwm, Ne.symm hwm]
    · intro w hw
      have hwf : w ≠ f.node := fun heq => hPctx f.node hfm (heq ▸ hw)
      have hwm : w ≠ m := fun heq => hPctx m hm (heq ▸ hw)
      have hwz : w ≠ z := fun heq => hlctx z hzl w hw heq.symm
      have hwy := ne_of_mem_of_not_mem hw hyctx
      have hwu : u.root ≠ some w := root_ne fun hw' => huctx w hw' hw
      simp [← hS, ← ht₀, hwf, hwm, hwz, hwy, hwu]

end Successor

/-- Where the tree has to be rebalanced when a node of the color `c` with the only child `u`
has been taken away: at the parent, if a black node is missing. -/
def rebalance (ctx : List (Frame ν)) (c : Color) (u : RbTree ν) : Option ν :=
  if u.root = none ∧ c = .black then top ctx else none

/-- What `__rb_erase_augmented` leaves is the tree of `eraseRoot`, up to the repair. -/
theorem rbEraseAugmented_spec {l r : RbTree ν} (h : At t ctx (.node c l x r))
    (hrb : (plug ctx (.node c l x r)).IsRedBlack) (hfuel : r.height < fuel) :
  ∃ ctx' c' u t₁, eraseRoot ctx (.node c l x r) = splice ctx' c' u
    ∧ t.rbEraseAugmented fuel x = some (t₁, rebalance ctx' c' u)
    ∧ At t₁ ctx' (u.paint .black) ∧ ∃ s y, (plug ctx' (join s c' .nil y u)).IsRedBlack
  := by
  by_cases hl : l = .nil
  · subst hl
    refine ⟨ctx, c, r, _, eraseRoot_nil_left, ?_, at_unlink (s := .left) h, .left, x, hrb⟩
    have hx := h.links.1
    cases r with
    | nil =>
      simp [RbRoot.rbEraseAugmented, hx, RbTree.root, RbRoot.blackenIf, rebalance]
    | node cr lr y rr =>
      obtain rfl : c = .black := black_of_child (s := .left) hrb (by simp)
      have hy : top ctx ≠ some y := fun htop =>
        h.not_mem (by simp [toList]) (top_mem htop)
      simp [RbRoot.rbEraseAugmented, hx, RbTree.root, RbRoot.blackenIf, rebalance,
        RbRoot.rbSetParentColor, rbChangeChild_modify hy]
  · cases hspine : spine r with
    | nil =>
      obtain rfl := spine_eq_nil hspine
      refine ⟨ctx, c, l, _, eraseRoot_nil_right, ?_, at_unlink (s := .right) h, .right, x, hrb⟩
      have hx := h.links.1
      obtain rfl : c = .black := black_of_child (s := .right) hrb hl
      cases l with
      | nil => exact absurd rfl hl
      | node cl ll y rl =>
        simp [RbRoot.rbEraseAugmented, hx, RbTree.root, RbRoot.blackenIf, rebalance]
    | cons f path =>
      obtain ⟨s, cy, y, u⟩ := f
      obtain rfl : s = .left := spine_side r (hspine ▸ List.mem_cons_self)
      have hrb' : (plug (path ++ ⟨.right, c, y, l⟩ :: ctx) (join .left cy .nil y u)).IsRedBlack := by
        apply isRedBlack_rename (x := x)
        rw [plug_append, ← eq_plug_of_spine hspine]
        exact hrb
      cases path with
      | nil =>
        obtain ⟨t₁, heq, hat⟩ := rbEraseAugmented_child fuel h hl hspine
        exact ⟨_, cy, u, t₁, eraseRoot_of_spine hl hspine, heq, hat, .left, y, hrb'⟩
      | cons f path =>
        obtain ⟨t₁, heq, hat⟩ := rbEraseAugmented_deep h hl hspine hfuel
        exact ⟨_, cy, u, t₁, eraseRoot_of_spine hl hspine, heq, hat, .left, y, hrb'⟩

/-- `rb_erase` takes the node out, and leaves a red-black tree of the other nodes in their
order. -/
theorem rbErase_spec {xs ys : List ν} (h : IsTree t (xs ++ x :: ys))
    (hfuel : 2 * Nat.log 2 ((xs ++ x :: ys).length + 1) < fuel) :
  ∃ t', t.rbErase fuel x = some t' ∧ IsTree t' (xs ++ ys)
  := by
  obtain ⟨T, hat, hrb, hlist⟩ := h
  obtain ⟨ctx, c, l, r, rfl, rfl, rfl⟩ := exists_position_eq hat.nodup_tree hlist
  have hheight : r.height < fuel := by
    have hlen := length_add_height_le ctx (.node c l x r)
    have hlog := hrb.height_le
    rw [hlist] at hlog
    rw [height] at hlen
    omega
  obtain ⟨ctx', c', u, t₁, herase, heq, hat₁, s, y, hrb'⟩ :=
    rbEraseAugmented_spec (at_plug.mpr hat) hrb hheight
  have hlist' := toList_eraseRoot ctx c l x r
  have hrest : (eraseRoot ctx (.node c l x r)).toList
      = before ctx ++ l.toList ++ (r.toList ++ after ctx) := by
    rw [hlist']
    simp
  have hgoal : ∀ t', At t' [] (splice ctx' c' u)
      → IsTree t' (before ctx ++ l.toList ++ (r.toList ++ after ctx)) := by
    intro t' hat'
    rw [← herase] at hat'
    exact ⟨_, hat', eraseRoot_isRedBlack hrb, hrest⟩
  rw [RbRoot.rbErase, heq]
  by_cases hmissing : u.root = none ∧ c' = .black
  · obtain ⟨hu, rfl⟩ := hmissing
    cases u with
    | node => cases hu
    | nil =>
      cases ctx' with
      | nil => exact ⟨t₁, rfl, hgoal t₁ hat₁⟩
      | cons f ctx' =>
        have hlen : ctx'.length < fuel := by
          have hlen' := length_add_height_le (f :: ctx') (join s .black .nil y .nil)
          have hlog := hrb'.height_le
          have hcount : (plug (f :: ctx') (join s .black .nil y .nil)).toList.length
              = (before ctx ++ l.toList ++ x :: (r.toList ++ after ctx)).length := by
            have hless := congrArg List.length hrest
            rw [herase, toList_splice, (perm_toList_plug _ _).length_eq] at hless
            rw [(perm_toList_plug _ _).length_eq, List.length_append,
              (perm_toList_join _ _ _ _ _).length_eq]
            simp only [toList, List.nil_append, List.length_append, List.length_cons,
              List.length_nil] at hless ⊢
            omega
          rw [hcount] at hlog
          rw [List.length_cons] at hlen'
          omega
        obtain ⟨k, hfits, hbal, -⟩ := exists_fits hrb'
        obtain ⟨k, rfl, hnil, -⟩ := hbal.of_join_black
        cases hnil
        obtain ⟨t', hloop, hat'⟩ := eraseLoop_spec hat₁ hfits .nil hlen
        exact ⟨t', hloop, hgoal t' hat'⟩
  · have hnone : rebalance ctx' c' u = none := if_neg hmissing
    have hsplice : splice ctx' c' u = plug ctx' (u.paint .black) := by
      cases u with
      | node => rfl
      | nil =>
        cases c' with
        | red => rfl
        | black => exact absurd ⟨rfl, rfl⟩ hmissing
    rw [hsplice] at hgoal
    rw [hnone]
    exact ⟨t₁, rfl, hgoal t₁ (at_plug.mp hat₁)⟩

end Rbtree
