import TrainsOs.PgMgr.Ops

/-!
# Exactly what an allocation does

The loop of `pg_alloc_page` runs over levels whose lists are empty, so each of these lists
is afterwards the one upper half that was put on it. The descriptors whose links change are
these halves and those on the list from which the block was taken.
-/

namespace TrainsOs

namespace PgMgr

/-- The free lists `fl` hold disjoint blocks that lie inside the roots and are aligned to
their size. -/
structure FreeLists (mgr : PgMgr) (fl : ℕ → List DspPtr) : Prop where
  forest : DList.Forest mgr.links mgr.freeLists fl
  high : ∀ l, pgmgrMaxlvl < l → fl l = []
  placed : ∀ b ∈ freeBlocks fl, Placed mgr.roots b
  apart : Apart (freeBlocks fl)

/-- The free lists when the upper halves from level `p` to level `p + n` were put on empty
lists. -/
def splitLists (fl : ℕ → List DspPtr) (d : DspPtr) (p n : ℕ) (j : ℕ) : List DspPtr :=
  if p ≤ j ∧ j < p + n then [d.add (2 ^ j)] else fl j

/-- The descriptor `e` is that of an upper half from level `p` to level `p + n`. -/
def IsHalf (d : DspPtr) (p n : ℕ) (e : DspPtr) : Prop :=
  ∃ j, p ≤ j ∧ j < p + n ∧ e = d.add (2 ^ j)

theorem add_two_pow_inj {d : DspPtr} {i j : ℕ} (h : d.add (2 ^ i) = d.add (2 ^ j)) :
  i = j
  := by
  have hidx : d.idx + 2 ^ i = d.idx + 2 ^ j := congrArg DspPtr.idx h
  exact Nat.pow_right_injective le_rfl (Nat.add_left_cancel hidx)

/-- The half that is put on its list first. -/
theorem splitLists_succ (fl : ℕ → List DspPtr) (d : DspPtr) (p n : ℕ) :
  splitLists (Function.update fl (p + n) [d.add (2 ^ (p + n))]) d p n = splitLists fl d p (n + 1)
  := by
  funext j
  rw [splitLists, splitLists]
  by_cases hj : j = p + n
  · subst hj
    rw [if_neg (by omega), Function.update_self, if_pos (by omega)]
  · rw [Function.update_of_ne hj]
    apply if_congr _ rfl rfl
    omega

/-- The flags are cleared one by one. -/
theorem clearUsed_halves_succ (d : DspPtr) (p n : ℕ) (used : DspPtr → Bool) :
  clearUsed (halves d p n) (Function.update used (d.add (2 ^ (p + n))) false)
    = clearUsed (halves d p (n + 1)) used
  := by
  funext e
  simp only [clearUsed, halves, List.any_cons]
  by_cases he : e = d.add (2 ^ (p + n))
  · simp [he]
  · have he' : (d.add (2 ^ (p + n)) == e) = false := by simpa using Ne.symm he
    rw [Function.update_of_ne he, he', Bool.false_or]

/-- Breaking up a block in hand over empty lists. -/
theorem breakUp_exact {d : DspPtr} {p : ℕ} (n : ℕ) (mgr : PgMgr) {fl : ℕ → List DspPtr}
    (hf : DList.Forest mgr.links mgr.freeLists fl)
    (hempty : ∀ j, p ≤ j → j < p + n → fl j = [])
    (hfresh : ∀ j, p ≤ j → j < p + n → ∀ k, d.add (2 ^ j) ∉ fl k) :
  ∃ links heads, mgr.breakUp d p n
      = some { mgr with
          links := links
          freeLists := heads
          used := clearUsed (halves d p n) mgr.used }
    ∧ DList.Forest links heads (splitLists fl d p n)
    ∧ ∀ e, ¬ IsHalf d p n e →
        links.prev e = mgr.links.prev e ∧ links.next e = mgr.links.next e
  := by
  induction n generalizing mgr fl with
  | zero =>
    have hused : clearUsed (halves d p 0) mgr.used = mgr.used := by
      funext e
      simp [clearUsed, halves]
    have hlists : splitLists fl d p 0 = fl := by
      funext j
      exact if_neg (by omega)
    rw [hused, hlists]
    exact ⟨mgr.links, mgr.freeLists, rfl, hf, fun _ _ => ⟨rfl, rfl⟩⟩
  | succ n ih =>
    obtain ⟨links, heads, happ, hf₁, hframe⟩ := dlAppend_frame
      (mgr.setUsed (d.add (2 ^ (p + n))) false) hf (p + n) (hfresh (p + n) (by omega) (by omega))
    rw [hempty (p + n) (by omega) (by omega), List.nil_append] at hf₁ hframe
    obtain ⟨links', heads', hbreak, hf', hframe'⟩ := ih { mgr with
        links := links
        freeLists := heads
        used := Function.update mgr.used (d.add (2 ^ (p + n))) false } hf₁
      (by
        intro j hle hlt
        rw [Function.update_of_ne (by omega)]
        exact hempty j hle (by omega))
      (by
        intro j hle hlt k hmem
        by_cases hk : k = p + n
        · rw [hk, Function.update_self, List.mem_singleton] at hmem
          exact hlt.ne (add_two_pow_inj hmem)
        · rw [Function.update_of_ne hk] at hmem
          exact hfresh j hle (by omega) k hmem)
    rw [splitLists_succ] at hf'
    refine ⟨links', heads', ?_, hf', ?_⟩
    · rw [breakUp, Nat.one_shiftLeft, happ]
      refine hbreak.trans ?_
      rw [clearUsed_halves_succ]
    · intro e he
      have hne : ¬ IsHalf d p n e := by
        rintro ⟨j, hle, hlt, heq⟩
        exact he ⟨j, hle, by omega, heq⟩
      have hnot : e ∉ [d.add (2 ^ (p + n))] := fun hmem =>
        he ⟨p + n, by omega, by omega, List.mem_singleton.mp hmem⟩
      obtain ⟨hprev, hnext⟩ := hframe' e hne
      obtain ⟨hprev₁, hnext₁⟩ := hframe e hnot
      exact ⟨hprev.trans hprev₁, hnext.trans hnext₁⟩

theorem mem_halves_iff {d : DspPtr} {p n : ℕ} {e : DspPtr} :
  (∃ b ∈ halves d p n, b.1 = e) ↔ IsHalf d p n e
  := by
  constructor
  · rintro ⟨b, hb, rfl⟩
    obtain ⟨j, hj, rfl⟩ := mem_halves.mp hb
    exact ⟨p + j, by omega, by omega, rfl⟩
  · rintro ⟨j, hle, hlt, rfl⟩
    exact ⟨(d.add (2 ^ j), j), mem_halves.mpr ⟨j - p, by omega, by rw [Nat.add_sub_of_le hle]⟩, rfl⟩

/-- What `pg_alloc_page` does when it breaks up the block of level `q` at `d` until level
`k`. -/
structure SplitsBlock (mgr mgr' : PgMgr) (fl fl' : ℕ → List DspPtr) (d : DspPtr) (k q : ℕ) :
    Prop where
  le : k ≤ q ∧ q ≤ pgmgrMaxlvl
  /-- `q` is the lowest level from `k` on with a block. -/
  lowest : ∀ j, k ≤ j → j < q → fl j = []
  /-- The head of the list of this level is taken away. -/
  head : fl q = d :: fl' q
  lists : DList.Forest mgr'.links mgr'.freeLists fl'
  /-- The upper halves are put on the empty lists. -/
  half : ∀ j, k ≤ j → j < q → fl' j = [d.add (2 ^ j)]
  listOther : ∀ j, j < k ∨ q < j → fl' j = fl j
  /-- Each page of the block is in the block that is handed out or in one of the halves, and
  not in two of them. -/
  partition : ∀ e, cover ((d, k) :: halves d k (q - k)) e = cover [(d, q)] e
  handedOut : mgr'.used d = true ∧ mgr'.lvl d = k
  free : ∀ e, IsHalf d k (q - k) e → mgr'.used e = false
  usedOther : ∀ e, e ≠ d → ¬ IsHalf d k (q - k) e → mgr'.used e = mgr.used e
  lvlOther : ∀ e, e ≠ d → mgr'.lvl e = mgr.lvl e
  linksOther : ∀ e, e ∉ fl q → ¬ IsHalf d k (q - k) e →
    mgr'.links.prev e = mgr.links.prev e ∧ mgr'.links.next e = mgr.links.next e
  rest : mgr'.addr = mgr.addr ∧ mgr'.roots = mgr.roots ∧ mgr'.self = mgr.self

theorem pageLvl_eq (p : ℕ) :
  pageLvl p = p - pgSft
  := by
  rw [pageLvl]
  split <;> omega

/-- A half begins behind the block that is handed out. -/
theorem IsHalf.ne {d : DspPtr} {p n : ℕ} {e : DspPtr} (h : IsHalf d p n e) :
  e ≠ d
  := by
  rintro rfl
  obtain ⟨j, -, -, heq⟩ := h
  have hidx : e.idx = e.idx + 2 ^ j := congrArg DspPtr.idx heq
  have hpos := Nat.two_pow_pos j
  omega

theorem clearUsed_half {d : DspPtr} {p n : ℕ} {e : DspPtr} (h : IsHalf d p n e)
    (used : DspPtr → Bool) :
  clearUsed (halves d p n) used e = false
  := by
  obtain ⟨b, hb, rfl⟩ := mem_halves_iff.mpr h
  have hany : ((halves d p n).any fun c => c.1 == b.1) = true :=
    List.any_eq_true.mpr ⟨b, hb, beq_self_eq_true _⟩
  rw [clearUsed, hany, Bool.not_true, Bool.and_false]

theorem clearUsed_other {d : DspPtr} {p n : ℕ} {e : DspPtr} (h : ¬ IsHalf d p n e)
    (used : DspPtr → Bool) :
  clearUsed (halves d p n) used e = used e
  := by
  have hany : ((halves d p n).any fun c => c.1 == e) = false := by
    rw [List.any_eq_false]
    intro c hc hce
    exact h (mem_halves_iff.mp ⟨c, hc, beq_iff_eq.mp hce⟩)
  rw [clearUsed, hany, Bool.not_false, Bool.and_true]

/-- The lists that are passed are empty. -/
theorem firstLvl_lowest {mgr : PgMgr} {k q : ℕ} (h : mgr.firstLvl k = some q) {j : ℕ}
    (hkj : k ≤ j) (hj : j < q) :
  mgr.freeLists j = none
  := by
  have hpassed := (List.find?_range'_eq_some.mp h).2.2 j hkj hj
  simpa using hpassed

theorem covers_isHalf {d : DspPtr} {p n : ℕ} {e : DspPtr} (h : IsHalf d p n e) :
  covers e (d, p + n) = true
  := by
  obtain ⟨b, hb, rfl⟩ := mem_halves_iff.mpr h
  exact covers_of_mem_halves hb

/-- Splitting the head of the lowest list that is not empty. -/
theorem pgAllocPage_split {mgr : PgMgr} {fl : ℕ → List DspPtr} (h : mgr.FreeLists fl) {p q : ℕ}
    (hfirst : mgr.firstLvl (pageLvl p) = some q) :
  ∃ d mgr' fl', mgr.pgAllocPage p = some (mgr', some (mgr.addr d))
    ∧ SplitsBlock mgr mgr' fl fl' d (pageLvl p) q
  := by
  generalize hk : pageLvl p = k at hfirst
  obtain ⟨hle, hq, hsome⟩ := firstLvl_some hfirst
  obtain ⟨n, rfl⟩ := Nat.exists_eq_add_of_le hle
  obtain ⟨d, hd⟩ := Option.isSome_iff_exists.mp hsome
  obtain ⟨rest, hfl⟩ : ∃ rest, fl (k + n) = d :: rest := by
    have hhead := (h.forest.list (k + n)).head_eq
    rw [hd] at hhead
    exact List.head?_eq_some_iff.mp hhead.symm
  have hmem : d ∈ fl (k + n) := by
    rw [hfl]
    exact List.mem_cons_self
  have hlowest : ∀ j, k ≤ j → j < k + n → fl j = [] := by
    intro j hkj hj
    have hnone := firstLvl_lowest hfirst hkj hj
    have hhead := (h.forest.list j).head_eq
    rw [hnone] at hhead
    exact List.head?_eq_none_iff.mp hhead.symm
  have herase : (fl (k + n)).erase d = rest := by rw [hfl, List.erase_cons_head]
  obtain ⟨links, heads, hdel, hf, hframe⟩ := dlDelete_frame mgr h.forest hmem
  rw [herase] at hf
  have hapart : Apart ((d, k + n) :: freeBlocks (Function.update fl (k + n) rest)) := by
    have hperm := freeBlocks_erase hq hmem
    rw [herase] at hperm
    exact h.apart.perm hperm
  have high : ∀ l, pgmgrMaxlvl < l → Function.update fl (k + n) rest l = [] := by
    intro l hl
    rw [Function.update_of_ne (by omega)]
    exact h.high l hl
  obtain ⟨links', heads', hbreak, hf', hframe'⟩ := breakUp_exact n
    { mgr with links := links, freeLists := heads } hf
    (by
      intro j hkj hj
      rw [Function.update_of_ne (by omega)]
      exact hlowest j hkj hj)
    (fun j hkj hj => not_mem_fl high hapart (covers_isHalf ⟨j, hkj, hj, rfl⟩))
  refine ⟨d, ⟨mgr.self, heads', mgr.roots, mgr.addr, links',
    Function.update (clearUsed (halves d k n) mgr.used) d true, Function.update mgr.lvl d k⟩,
    splitLists (Function.update fl (k + n) rest) d k n, ?_, ?_⟩
  · simp only [pgAllocPage, hk, hfirst, hd, Option.bind_eq_bind, Option.bind_some, hdel,
      Nat.add_sub_cancel_left, hbreak]
    rfl
  · have hlist : splitLists (Function.update fl (k + n) rest) d k n (k + n) = rest := by
      rw [splitLists, if_neg (by omega), Function.update_self]
    constructor
    · exact ⟨hle, hq⟩
    · exact hlowest
    · rw [hlist, hfl]
    · exact hf'
    · exact fun j hkj hj => if_pos ⟨hkj, hj⟩
    · intro j hj
      rw [splitLists, if_neg (by omega), Function.update_of_ne (by omega)]
    · intro e
      rw [Nat.add_sub_cancel_left, cover_cons, cover_halves]
    · exact ⟨Function.update_self .., Function.update_self ..⟩
    · intro e he
      rw [Nat.add_sub_cancel_left] at he
      exact (Function.update_of_ne he.ne ..).trans (clearUsed_half he _)
    · intro e hne he
      rw [Nat.add_sub_cancel_left] at he
      exact (Function.update_of_ne hne ..).trans (clearUsed_other he _)
    · exact fun e he => Function.update_of_ne he ..
    · intro e hmem' he
      rw [Nat.add_sub_cancel_left] at he
      obtain ⟨hprev, hnext⟩ := hframe' e he
      obtain ⟨hprev₁, hnext₁⟩ := hframe e hmem'
      exact ⟨hprev.trans hprev₁, hnext.trans hnext₁⟩
    · exact ⟨rfl, rfl, rfl⟩

/-- `pg_alloc_page` gives `NULL` exactly when there is no block from the wanted level on, and
otherwise it splits the first block of the lowest such level. -/
theorem pgAllocPage_exact (mgr : PgMgr) (fl : ℕ → List DspPtr) (p : ℕ) (h : mgr.FreeLists fl) :
  (mgr.pgAllocPage p = some (mgr, none) ↔
      pgmgrMaxlvl < p - pgSft ∨ ∀ j, p - pgSft ≤ j → j ≤ pgmgrMaxlvl → fl j = [])
    ∧ (¬ mgr.pgAllocPage p = some (mgr, none) → ∃ d q mgr' fl',
      mgr.pgAllocPage p = some (mgr', some (mgr.addr d))
        ∧ SplitsBlock mgr mgr' fl fl' d (p - pgSft) q)
  := by
  rw [← pageLvl_eq]
  cases hfirst : mgr.firstLvl (pageLvl p) with
  | none =>
    have hnull : mgr.pgAllocPage p = some (mgr, none) := by simp only [pgAllocPage, hfirst]
    have hempty : ∀ j, pageLvl p ≤ j → j ≤ pgmgrMaxlvl → fl j = [] := by
      intro j hkj hj
      have hhead := (h.forest.list j).head_eq
      rw [firstLvl_none hfirst hkj hj] at hhead
      exact List.head?_eq_none_iff.mp hhead.symm
    exact ⟨⟨fun _ => Or.inr hempty, fun _ => hnull⟩, fun hnot => absurd hnull hnot⟩
  | some q =>
    obtain ⟨d, mgr', fl', heq, hsplit⟩ := pgAllocPage_split h hfirst
    refine ⟨⟨?_, ?_⟩, fun _ => ⟨d, q, mgr', fl', heq, hsplit⟩⟩
    · rw [heq]
      rintro ⟨⟩
    · obtain ⟨hle, hq⟩ := hsplit.le
      rintro (hlt | hempty)
      · omega
      · have hhead := hsplit.head
        rw [hempty q hle hq] at hhead
        cases hhead

/-- A manager with one free block of level 1. -/
def onePair : PgMgr where
  self := 0
  freeLists := Function.update (fun _ => none) 1 (some ⟨0, 0⟩)
  roots := [⟨0, 0x200000, 0x400000⟩]
  addr := fun d => 0x200000 + d.idx * pgSz
  links := { prev := fun _ => some ⟨0, 0⟩, next := fun _ => none }
  used := fun _ => false
  lvl := fun _ => 0

theorem onePair_freeLists :
  onePair.FreeLists (Function.update (fun _ => []) 1 [⟨0, 0⟩])
  := by
  have hblocks : freeBlocks (Function.update (fun _ => []) 1 [⟨0, 0⟩]) = [(⟨0, 0⟩, 1)] := rfl
  constructor
  · have hempty : DList.Forest onePair.links (fun _ : ℕ => none) (fun _ => []) :=
      DList.Forest.empty _
    have hlist : DList.IsList onePair.links (List.head? [⟨0, 0⟩]) [⟨0, 0⟩] := by
      constructor
      · exact List.nodup_singleton _
      · rfl
      · intro as x bs hsplit
        obtain ⟨rfl, hcons⟩ | ⟨hcons, hnil⟩ := List.singleton_eq_append_iff.mp hsplit
        · obtain ⟨-, rfl⟩ := List.cons.inj hcons
          rfl
        · cases hnil
      · intro as x bs hsplit
        obtain ⟨rfl, hcons⟩ | ⟨hcons, hnil⟩ := List.singleton_eq_append_iff.mp hsplit
        · rfl
        · cases hnil
    exact hempty.update (i := 1) hlist (fun _ _ _ _ => List.not_mem_nil)
      fun _ _ _ hy => absurd hy List.not_mem_nil
  · intro l hl
    have hmax : pgmgrMaxlvl = 9 := rfl
    exact Function.update_of_ne (by omega) ..
  · intro b hb
    rw [hblocks] at hb
    obtain rfl := List.mem_singleton.mp hb
    exact ⟨_, rfl, by decide, by decide, by decide⟩
  · intro e
    rw [hblocks, cover_singleton]
    split <;> decide

/-- The pair is split for one page. -/
theorem pgAllocPage_exact_onePair :
  ∃ d q mgr' fl', onePair.pgAllocPage 20 = some (mgr', some (onePair.addr d))
    ∧ SplitsBlock onePair mgr' (Function.update (fun _ => []) 1 [⟨0, 0⟩]) fl' d 0 q
  := by
  have hexact := pgAllocPage_exact onePair _ 20 onePair_freeLists
  apply hexact.2
  rw [hexact.1]
  rintro (hlt | hempty)
  · exact absurd hlt (by decide)
  · exact absurd (hempty 1 (by decide) (by decide)) (by decide)

end PgMgr

end TrainsOs
