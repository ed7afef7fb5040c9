import TrainsOs.Slab.Contents

/-!
# Runs of a slab allocator

The slabs of an allocator are on its two lists, the empty ones on `empty_slabs` and the
others on `slabs`, the full ones at the end. Every allocation and every release of a live
object keeps this, so that no object is given away twice, and a page is requested only
when every slab is full.
-/

namespace TrainsOs

namespace SlabMgr

variable {mgr mgr' : SlabMgr} {alloc p : ℕ} {live pages : List ℕ} {free : ℕ → List ℕ}
  {xs : SlabList → List ℕ} {b c : SlabList}

/-! ### The two lists -/

/-- The lists after `p` is taken off the list `b`. -/
def without (xs : SlabList → List ℕ) (b : SlabList) (p : ℕ) : SlabList → List ℕ :=
  Function.update xs b ((xs b).erase p)

/-- The lists after `p` is put in front of the list `b`. -/
def withFront (xs : SlabList → List ℕ) (b : SlabList) (p : ℕ) : SlabList → List ℕ :=
  Function.update xs b (p :: xs b)

/-- The lists after `p` is put at the end of the list `b`. -/
def withBack (xs : SlabList → List ℕ) (b : SlabList) (p : ℕ) : SlabList → List ℕ :=
  Function.update xs b (xs b ++ [p])

theorem dlDelete_spec (h : DList.Forest mgr.links (mgr.slabAlloc alloc).head xs) (hp : p ∈ xs b) :
  ∃ mgr', mgr.dlDelete alloc b p = some mgr'
    ∧ DList.Forest mgr'.links (mgr'.slabAlloc alloc).head (without xs b p)
    ∧ Relinked alloc mgr mgr'
  := by
  obtain ⟨links, hdelete, hforest, -⟩ := h.delete hp
  refine ⟨_, congrArg (Option.map (mgr.setList alloc b)) hdelete, ?_,
    mgr.relinked_setList alloc b _⟩
  rw [setList]
  dsimp only
  rw [Function.update_self, SlabAlloc.head_setHead]
  exact hforest

theorem dlAppend_spec (h : DList.Forest mgr.links (mgr.slabAlloc alloc).head xs)
    (hp : ∀ c, p ∉ xs c) :
  ∃ mgr', mgr.dlAppend alloc b p = some mgr'
    ∧ DList.Forest mgr'.links (mgr'.slabAlloc alloc).head (withBack xs b p)
    ∧ Relinked alloc mgr mgr'
  := by
  obtain ⟨links, happend, hforest, -⟩ := h.append b hp
  refine ⟨_, congrArg (Option.map (mgr.setList alloc b)) happend, ?_,
    mgr.relinked_setList alloc b _⟩
  rw [setList]
  dsimp only
  rw [Function.update_self, SlabAlloc.head_setHead]
  exact hforest

theorem dlPrepend_spec (h : DList.Forest mgr.links (mgr.slabAlloc alloc).head xs)
    (hp : ∀ c, p ∉ xs c) :
  DList.Forest (mgr.dlPrepend alloc b p).links ((mgr.dlPrepend alloc b p).slabAlloc alloc).head
      (withFront xs b p)
    ∧ Relinked alloc mgr (mgr.dlPrepend alloc b p)
  := by
  obtain ⟨hhead, hforest⟩ := h.prepend b hp
  refine ⟨?_, mgr.relinked_setList alloc b _⟩
  rw [dlPrepend, setList]
  dsimp only
  rw [Function.update_self, SlabAlloc.head_setHead, hhead]
  exact hforest

/-- A slab that is taken off its list is on no list. -/
theorem not_mem_without (h : DList.Forest mgr.links (mgr.slabAlloc alloc).head xs) (hp : p ∈ xs b)
    (c : SlabList) :
  p ∉ without xs b p c
  := by
  rw [without]
  by_cases hc : c = b
  · rw [hc, Function.update_self]
    exact (h.list b).nodup.not_mem_erase
  · rw [Function.update_of_ne hc]
    intro hmem
    exact hc (h.apart hmem hp)

/-- The slabs of the allocator are on its lists, and those on `empty_slabs` are empty. -/
structure Listed (mgr : SlabMgr) (alloc : ℕ) (pages : List ℕ) (xs : SlabList → List ℕ) :
    Prop where
  forest : DList.Forest mgr.links (mgr.slabAlloc alloc).head xs
  mem_pages : ∀ p, p ∈ pages ↔ ∃ b, p ∈ xs b
  empty : ∀ p ∈ xs .emptySlabs, (mgr.slab p).usedCnt = 0

def Full (mgr : SlabMgr) (alloc p : ℕ) : Prop :=
  (mgr.slab p).usedCnt = (mgr.slabAlloc alloc).objN

/-- No slab on `slabs` is empty, and no full one is in front of one with room. -/
structure Ordered (mgr : SlabMgr) (alloc : ℕ) (ps : List ℕ) : Prop where
  used : ∀ p ∈ ps, (mgr.slab p).usedCnt ≠ 0
  full : ps.Pairwise fun p q => mgr.Full alloc p → mgr.Full alloc q

/-- The invariant of an allocator. -/
structure Kept (mgr : SlabMgr) (alloc : ℕ) (live pages : List ℕ) (xs : SlabList → List ℕ)
    (free : ℕ → List ℕ) : Prop where
  contents : Contents mgr alloc live pages free
  listed : Listed mgr alloc pages xs
  ordered : Ordered mgr alloc (xs .slabs)

/-- The slabs are the same, but for one that is not on the list. -/
theorem Ordered.congr {ps : List ℕ} (h : Ordered mgr alloc ps)
    (hslab : ∀ q ∈ ps, mgr'.slab q = mgr.slab q)
    (hn : (mgr'.slabAlloc alloc).objN = (mgr.slabAlloc alloc).objN) :
  Ordered mgr' alloc ps
  := by
  constructor
  · intro q hq
    rw [hslab q hq]
    exact h.used q hq
  · apply h.full.imp_of_mem
    intro q r hq hr
    rw [Full, Full, Full, Full, hslab q hq, hslab r hr, hn]
    exact id

theorem Ordered.sublist {ps qs : List ℕ} (h : Ordered mgr alloc ps) (hsub : qs.Sublist ps) :
  Ordered mgr alloc qs
  := ⟨fun q hq => h.used q (hsub.subset hq), h.full.sublist hsub⟩

/-- A slab with room in front. -/
theorem Ordered.cons {ps : List ℕ} (h : Ordered mgr alloc ps)
    (hused : (mgr.slab p).usedCnt ≠ 0) (hroom : ¬ mgr.Full alloc p) :
  Ordered mgr alloc (p :: ps)
  := by
  constructor
  · exact List.forall_mem_cons.mpr ⟨hused, h.used⟩
  · exact List.pairwise_cons.mpr ⟨fun q _ hfull => absurd hfull hroom, h.full⟩

/-- A full slab at the end. -/
theorem Ordered.concat {ps : List ℕ} (h : Ordered mgr alloc ps)
    (hused : (mgr.slab p).usedCnt ≠ 0) (hfull : mgr.Full alloc p) :
  Ordered mgr alloc (ps ++ [p])
  := by
  constructor
  · intro q hq
    obtain hq | hq := List.mem_append.mp hq
    · exact h.used q hq
    · rw [List.mem_singleton.mp hq]
      exact hused
  · rw [List.pairwise_append]
    refine ⟨h.full, List.pairwise_singleton _ _, ?_⟩
    intro q _ r hr _
    rw [List.mem_singleton.mp hr]
    exact hfull

/-- What is on the lists after a slab is taken off. -/
theorem mem_without_of_ne {q : ℕ} (hq : q ≠ p) :
  q ∈ without xs b p c ↔ q ∈ xs c
  := by
  rw [without]
  by_cases hc : c = b
  · rw [hc, Function.update_self, List.mem_erase_of_ne hq]
  · rw [Function.update_of_ne hc]

theorem mem_withFront {q : ℕ} :
  q ∈ withFront xs b p c ↔ (c = b ∧ q = p) ∨ q ∈ xs c
  := by
  rw [withFront]
  by_cases hc : c = b
  · rw [hc, Function.update_self, List.mem_cons]
    simp
  · rw [Function.update_of_ne hc]
    simp [hc]

theorem mem_withBack {q : ℕ} :
  q ∈ withBack xs b p c ↔ (c = b ∧ q = p) ∨ q ∈ xs c
  := by
  rw [withBack]
  by_cases hc : c = b
  · rw [hc, Function.update_self, List.mem_append, List.mem_singleton, or_comm]
    simp
  · rw [Function.update_of_ne hc]
    simp [hc]

/-- The lists hold the same slabs after one of them is moved. -/
theorem exists_mem_moved {ys : SlabList → List ℕ} (hp : p ∈ xs b)
    (hys : ∀ d q, q ∈ ys d ↔ (d = c ∧ q = p) ∨ q ∈ without xs b p d) (q : ℕ) :
  (∃ d, q ∈ xs d) ↔ ∃ d, q ∈ ys d
  := by
  by_cases hq : q = p
  · rw [hq]
    constructor
    · intro _
      use c
      exact (hys c p).mpr (Or.inl ⟨rfl, rfl⟩)
    · intro _
      exact ⟨b, hp⟩
  · simp only [hys, hq, and_false, false_or, mem_without_of_ne hq]

/-! ### Allocating -/

/-- The pages after an allocation. -/
def pagesAfter (pages : List ℕ) (page : Option ℕ) (requested : Bool) : List ℕ :=
  if requested then page.toList ++ pages else pages

/-- The test of the first slab decides whether there is one with room. -/
theorem Kept.hot (h : Kept mgr alloc live pages xs free) :
  ((mgr.slabAlloc alloc).slabs.filter
        (fun q => (mgr.slab q).usedCnt ≠ (mgr.slabAlloc alloc).objN) = none
      ∧ ∀ q ∈ xs .slabs, mgr.Full alloc q)
    ∨ ∃ p rest, (mgr.slabAlloc alloc).slabs.filter
        (fun q => (mgr.slab q).usedCnt ≠ (mgr.slabAlloc alloc).objN) = some p
      ∧ xs .slabs = p :: rest ∧ ¬ mgr.Full alloc p
  := by
  have hhead : (mgr.slabAlloc alloc).slabs = (xs .slabs).head? :=
    (h.listed.forest.list .slabs).head_eq
  rw [hhead]
  cases hxs : xs .slabs with
  | nil =>
    left
    exact ⟨rfl, by simp⟩
  | cons p rest =>
    by_cases hfull : mgr.Full alloc p
    · left
      have hpair := h.ordered.full
      rw [hxs, List.pairwise_cons] at hpair
      rw [List.head?_cons, Option.filter_some, if_neg (by simpa [Full] using hfull)]
      use rfl
      exact List.forall_mem_cons.mpr ⟨hfull, fun q hq => hpair.1 q hq hfull⟩
    · right
      rw [List.head?_cons, Option.filter_some, if_pos (by simpa [Full] using hfull)]
      exact ⟨p, rest, rfl, rfl, hfull⟩

/-- The slab with room in front of the list `slabs`, and the state in which the object is
taken from it. -/
structure Hot (mgr : SlabMgr) (alloc : ℕ) (live pages : List ℕ) (p : ℕ) (rest : List ℕ)
    (xs : SlabList → List ℕ) (free : ℕ → List ℕ) : Prop where
  contents : Contents mgr alloc live pages free
  listed : Listed mgr alloc pages xs
  slabs : xs .slabs = p :: rest
  room : ¬ mgr.Full alloc p
  ordered : Ordered mgr alloc rest

/-- An empty slab comes to the front. -/
theorem Kept.takeEmpty (h : Kept mgr alloc live pages xs free) {es : List ℕ}
    (hes : xs .emptySlabs = p :: es) :
  ∃ mgr' xs', mgr.dlDelete alloc .emptySlabs p = some mgr'
    ∧ Hot (mgr'.dlPrepend alloc .slabs p) alloc live pages p (xs .slabs) xs' free
  := by
  have hp : p ∈ xs .emptySlabs := hes ▸ List.mem_cons_self
  obtain ⟨mgr', hdelete, hforest, hrel⟩ := dlDelete_spec h.listed.forest hp
  obtain ⟨hforest', hrel'⟩ := dlPrepend_spec (b := .slabs) hforest
    (not_mem_without h.listed.forest hp)
  have hrel := hrel.trans hrel'
  refine ⟨mgr', withFront (without xs .emptySlabs p) .slabs p, hdelete, ?_⟩
  constructor
  · exact h.contents.relinked hrel
  · constructor
    · exact hforest'
    · intro q
      rw [h.listed.mem_pages]
      exact exists_mem_moved hp (fun d q => mem_withFront) q
    · intro q hq
      have hmem : q ∈ (xs .emptySlabs).erase p := hq
      rw [hrel.slab]
      exact h.listed.empty q (List.mem_of_mem_erase hmem)
  · rfl
  · rw [Full, hrel.slab, hrel.objN, h.listed.empty p hp]
    exact h.contents.sized.objN_pos.ne
  · exact h.ordered.congr (fun q _ => by rw [hrel.slab]) hrel.objN

/-- A new page comes to the front. -/
theorem Kept.takePage (h : Kept mgr alloc live pages xs free) (rand : ℕ) (hdvd : pgSz ∣ p)
    (hp : p ∉ pages) :
  ∃ mgr' xs' free', mgr.slabSlabInit p alloc rand = some mgr'
    ∧ Hot (mgr'.dlPrepend alloc .slabs p) alloc live (p :: pages) p (xs .slabs) xs' free'
  := by
  obtain ⟨hdr, hinit, hhdr, hused⟩ := slabSlabInit_header rand h.contents.sized hdvd
  have hnot : ∀ b, p ∉ xs b := fun b hmem => hp ((h.listed.mem_pages p).mpr ⟨b, hmem⟩)
  have hother : ∀ b, ∀ q ∈ xs b, q ≠ p := by
    rintro b q hq rfl
    exact hnot b hq
  have hforest : DList.Forest ((mgr.links.setPrev p none).setNext p none)
      (mgr.slabAlloc alloc).head xs := by
    apply h.listed.forest.congr
    intro b q hq
    simp [DList.Links.setPrev, DList.Links.setNext, hother b q hq]
  have hforest : DList.Forest
      ((mgr.setHeader p hdr).setLinks ((mgr.links.setPrev p none).setNext p none)).links
      (((mgr.setHeader p hdr).setLinks
        ((mgr.links.setPrev p none).setNext p none)).slabAlloc alloc).head xs := hforest
  obtain ⟨hforest', hrel⟩ := dlPrepend_spec (b := .slabs) hforest hnot
  have hrel := (relinked_setLinks (mgr.setHeader p hdr) alloc _).trans hrel
  have hcontents := (h.contents.newPage hp hhdr).relinked hrel
  refine ⟨_, withFront xs .slabs p, _, hinit, hcontents, ?_, rfl, ?_, ?_⟩
  · constructor
    · exact hforest'
    · intro q
      rw [List.mem_cons, h.listed.mem_pages]
      simp only [mem_withFront, exists_or, exists_eq_left]
    · intro q hq
      have hq : q ∈ xs .emptySlabs := hq
      rw [hrel.slab, SlabMgr.setHeader]
      dsimp only
      rw [Function.update_of_ne (hother _ q hq)]
      exact h.listed.empty q hq
  · rw [Full, hrel.slab, hrel.objN, SlabMgr.setHeader]
    dsimp only
    rw [Function.update_self, hused]
    exact h.contents.sized.objN_pos.ne
  · apply h.ordered.congr
    · intro q hq
      rw [hrel.slab, SlabMgr.setHeader]
      exact Function.update_of_ne (hother _ q hq) _ _
    · exact hrel.objN

/-- A page is requested only when every slab is full, and without it there is no slab with
room. -/
theorem Kept.findSlab (h : Kept mgr alloc live pages xs free) {page : Option ℕ} (rand : ℕ)
    (hpage : ∀ q ∈ page, pgSz ∣ q ∧ q ∉ pages) :
  (mgr.findSlab alloc page rand = some (mgr, none, true) ∧ page = none
      ∧ ∀ q ∈ pages, mgr.Full alloc q)
    ∨ ∃ mgr' p requested rest xs' free',
      mgr.findSlab alloc page rand = some (mgr', some p, requested)
        ∧ (requested = true → ∀ q ∈ pages, mgr.Full alloc q)
        ∧ Hot mgr' alloc live (pagesAfter pages page requested) p rest xs' free'
  := by
  obtain ⟨hnone, hfull⟩ | ⟨p, rest, hsome, hxs, hroom⟩ := h.hot
  · have hhead : (mgr.slabAlloc alloc).emptySlabs = (xs .emptySlabs).head? :=
      (h.listed.forest.list .emptySlabs).head_eq
    cases hes : xs .emptySlabs with
    | cons p es =>
      right
      obtain ⟨mgr', xs', hdelete, hhot⟩ := h.takeEmpty hes
      refine ⟨mgr'.dlPrepend alloc .slabs p, p, false, xs .slabs, xs', free, ?_, by simp, hhot⟩
      simp only [SlabMgr.findSlab, hnone, hhead, hes, List.head?_cons, hdelete]
      rfl
    | nil =>
      have hall : ∀ q ∈ pages, mgr.Full alloc q := by
        intro q hq
        obtain ⟨b, hb⟩ := (h.listed.mem_pages q).mp hq
        cases b with
        | slabs => exact hfull q hb
        | emptySlabs => simp [hes] at hb
      cases page with
      | none =>
        left
        refine ⟨?_, rfl, hall⟩
        simp only [SlabMgr.findSlab, hnone, hhead, hes, List.head?_nil]
      | some p =>
        right
        obtain ⟨hdvd, hp⟩ := hpage p rfl
        obtain ⟨mgr', xs', free', hinit, hhot⟩ := h.takePage rand hdvd hp
        refine ⟨mgr'.dlPrepend alloc .slabs p, p, true, xs .slabs, xs', free', ?_,
          fun _ => hall, hhot⟩
        simp only [SlabMgr.findSlab, hnone, hhead, hes, List.head?_nil, hinit]
        rfl
  · right
    refine ⟨mgr, p, false, rest, xs, free, ?_, by simp, h.contents, h.listed, hxs, hroom, ?_⟩
    · simp only [SlabMgr.findSlab, hsome]
    · apply h.ordered.sublist
      rw [hxs]
      apply List.sublist_cons_self

theorem slab_setHeader (mgr : SlabMgr) (p : ℕ) (hdr : Slab) :
  (mgr.setHeader p hdr).slab p = hdr
  := Function.update_self _ _ _

theorem slab_setHeader_of_ne (mgr : SlabMgr) (hdr : Slab) {q : ℕ} (hq : q ≠ p) :
  (mgr.setHeader p hdr).slab q = mgr.slab q
  := Function.update_of_ne hq _ _

/-- The lists do not depend on the header of a slab that is not on `empty_slabs`. -/
theorem Listed.setHeader (h : Listed mgr alloc pages xs) (hp : p ∉ xs .emptySlabs) (hdr : Slab) :
  Listed (mgr.setHeader p hdr) alloc pages xs
  := by
  constructor
  · exact h.forest
  · exact h.mem_pages
  · intro q hq
    have hqp : q ≠ p := by
      rintro rfl
      exact hp hq
    rw [slab_setHeader_of_ne _ _ hqp]
    exact h.empty q hq

/-- The slab with room gives away its object and goes to the end when it is full. -/
theorem Hot.take {rest : List ℕ} (h : Hot mgr alloc live pages p rest xs free) :
  ∃ mgr' x xs' free', Kept mgr' alloc (x :: live) pages xs' free' ∧ x ∉ live
    ∧ (mgr.slabSlabAlloc p).2 = some x
    ∧ (if ((mgr.slabSlabAlloc p).1.slab p).usedCnt
          = ((mgr.slabSlabAlloc p).1.slabAlloc alloc).objN then do
        let mgr ← (mgr.slabSlabAlloc p).1.dlDelete alloc .slabs p
        mgr.dlAppend alloc .slabs p
      else some (mgr.slabSlabAlloc p).1) = some mgr'
  := by
  have hslabs : p ∈ xs .slabs := h.slabs ▸ List.mem_cons_self
  have hempty : p ∉ xs .emptySlabs := by
    intro hmem
    exact absurd (h.listed.forest.apart hmem hslabs) (by decide)
  obtain ⟨hdr, x, l, halloc, hx, hcontents, hused⟩ :=
    h.contents.take ((h.listed.mem_pages p).mpr ⟨.slabs, hslabs⟩) h.room
  have hlisted := h.listed.setHeader hempty hdr
  have hused' : ((mgr.setHeader p hdr).slab p).usedCnt ≠ 0 := by
    rw [slab_setHeader, hused]
    apply Nat.succ_ne_zero
  have hrest : Ordered (mgr.setHeader p hdr) alloc rest := by
    have hslab : ∀ q ∈ rest, (mgr.setHeader p hdr).slab q = mgr.slab q := by
      intro q hq
      apply slab_setHeader_of_ne
      rintro rfl
      have hnodup := (h.listed.forest.list .slabs).nodup
      rw [h.slabs] at hnodup
      exact (List.nodup_cons.mp hnodup).1 hq
    exact h.ordered.congr hslab rfl
  rw [halloc]
  by_cases hfull : (mgr.setHeader p hdr).Full alloc p
  · obtain ⟨mgr₁, hdelete, hforest₁, hrel₁⟩ := dlDelete_spec hlisted.forest hslabs
    obtain ⟨mgr₂, happend, hforest₂, hrel₂⟩ := dlAppend_spec (b := .slabs) hforest₁
      (not_mem_without hlisted.forest hslabs)
    have hrel := hrel₁.trans hrel₂
    refine ⟨mgr₂, x, withBack (without xs .slabs p) .slabs p, _, ⟨hcontents.relinked hrel, ?_, ?_⟩,
      hx, rfl, ?_⟩
    · constructor
      · exact hforest₂
      · intro q
        rw [hlisted.mem_pages]
        exact exists_mem_moved hslabs (fun d q => mem_withBack) q
      · intro q hq
        have hmem : q ∈ xs .emptySlabs := hq
        rw [hrel.slab]
        exact hlisted.empty q hmem
    · have hback : withBack (without xs .slabs p) .slabs p .slabs = rest ++ [p] := by
        rw [withBack, Function.update_self, without, Function.update_self, h.slabs,
          List.erase_cons_head]
      rw [hback]
      apply (hrest.concat hused' hfull).congr
      · intro q _
        rw [hrel.slab]
      · exact hrel.objN
    · apply (if_pos hfull).trans
      dsimp only
      rw [hdelete]
      exact happend
  · refine ⟨mgr.setHeader p hdr, x, xs, _, ⟨hcontents, hlisted, ?_⟩, hx, rfl, if_neg hfull⟩
    rw [h.slabs]
    exact hrest.cons hused' hfull

/-- `slab_alloc` gives away an object that is not live, unless the page that it requests is
not given. It requests one only when every slab is full. -/
theorem Kept.allocate (h : Kept mgr alloc live pages xs free) {page : Option ℕ} (rand : ℕ)
    (hpage : ∀ q ∈ page, pgSz ∣ q ∧ q ∉ pages) :
  ∃ r xs' free', TrainsOs.slabAlloc mgr alloc page rand = some r
    ∧ Kept r.mgr alloc (r.addr.toList ++ live) (pagesAfter pages page r.requested) xs' free'
    ∧ (∀ x ∈ r.addr, x ∉ live) ∧ (r.requested = true → ∀ q ∈ pages, mgr.Full alloc q)
    ∧ (r.addr = none → r.requested = true ∧ page = none)
  := by
  obtain ⟨hfind, rfl, hfull⟩ | ⟨mgr₁, p, requested, rest, xs₁, free₁, hfind, hfull, hhot⟩ :=
    h.findSlab rand hpage
  · refine ⟨⟨mgr, none, true⟩, xs, free, ?_, h, by simp, fun _ => hfull, fun _ => ⟨rfl, rfl⟩⟩
    rw [TrainsOs.slabAlloc, hfind]
    rfl
  · obtain ⟨mgr₂, x, xs₂, free₂, hkept, hx, haddr, hmove⟩ := hhot.take
    refine ⟨⟨mgr₂, some x, requested⟩, xs₂, free₂, ?_, hkept, ?_, hfull, by simp⟩
    · rw [TrainsOs.slabAlloc, hfind]
      dsimp only [Option.bind_eq_bind, Option.bind_some]
      rw [haddr]
      split at hmove
      · rename_i hif
        rw [if_pos hif]
        obtain ⟨mgr', hdelete, happend⟩ := Option.bind_eq_some_iff.mp hmove
        rw [hdelete, Option.bind_some, happend, Option.bind_some]
      · rename_i hif
        rw [if_neg hif, Option.some.inj hmove]
    · rintro _ ⟨⟩
      exact hx

/-! ### Freeing -/

/-- `slab_free` takes a live object back. Its slab goes to the list of the empty ones when
it was the last object in use, and otherwise to the front. -/
theorem Kept.release (h : Kept mgr alloc live pages xs free) {x : ℕ} (hx : x ∈ live) :
  ∃ mgr' xs' free', TrainsOs.slabFree mgr alloc x = some mgr'
    ∧ Kept mgr' alloc (live.erase x) pages xs' free'
  := by
  obtain ⟨p, hp, hdr, l, hpage, hfree, hcontents, hused⟩ := h.contents.give hx
  have hslabs : p ∈ xs .slabs := by
    obtain ⟨b, hb⟩ := (h.listed.mem_pages p).mp hp
    cases b with
    | slabs => exact hb
    | emptySlabs =>
      rw [h.listed.empty p hb] at hused
      cases hused
  have hempty : p ∉ xs .emptySlabs := by
    intro hmem
    exact absurd (h.listed.forest.apart hmem hslabs) (by decide)
  have hlisted := h.listed.setHeader hempty hdr
  have hroom : ¬ (mgr.setHeader p hdr).Full alloc p := by
    have hcount := (h.contents.header p hp).count
    rw [Full, slab_setHeader]
    dsimp only [SlabMgr.setHeader]
    omega
  have hrest : Ordered (mgr.setHeader p hdr) alloc ((xs .slabs).erase p) := by
    have hslab : ∀ q ∈ (xs .slabs).erase p, (mgr.setHeader p hdr).slab q = mgr.slab q := by
      intro q hq
      apply slab_setHeader_of_ne
      rintro rfl
      exact (h.listed.forest.list .slabs).nodup.not_mem_erase hq
    exact (h.ordered.sublist List.erase_sublist).congr hslab rfl
  obtain ⟨mgr₁, hdelete, hforest₁, hrel₁⟩ := dlDelete_spec hlisted.forest hslabs
  have hnot := not_mem_without hlisted.forest hslabs
  rw [TrainsOs.slabFree]
  dsimp only
  rw [hpage, (h.contents.header p hp).magic, if_neg (by decide), hfree, slab_setHeader]
  by_cases hzero : hdr.usedCnt = 0
  · obtain ⟨hforest₂, hrel₂⟩ := dlPrepend_spec (b := .emptySlabs) hforest₁ hnot
    have hrel := hrel₁.trans hrel₂
    refine ⟨mgr₁.dlPrepend alloc .emptySlabs p, withFront (without xs .slabs p) .emptySlabs p, _,
      ?_, hcontents.relinked hrel, ?_, ?_⟩
    · rw [if_pos hzero, hdelete]
      rfl
    · constructor
      · exact hforest₂
      · intro q
        rw [hlisted.mem_pages]
        exact exists_mem_moved hslabs (fun d q => mem_withFront) q
      · intro q hq
        rw [hrel.slab]
        obtain rfl | hq := List.mem_cons.mp (show q ∈ p :: xs .emptySlabs from hq)
        · rw [slab_setHeader]
          exact hzero
        · exact hlisted.empty q hq
    · apply hrest.congr
      · intro q _
        rw [hrel.slab]
      · exact hrel.objN
  · have hused' : ((mgr.setHeader p hdr).slab p).usedCnt ≠ 0 := by
      rw [slab_setHeader]
      exact hzero
    have hhead : ((mgr.setHeader p hdr).slabAlloc alloc).slabs = (xs .slabs).head? :=
      (hlisted.forest.list .slabs).head_eq
    rw [if_neg hzero]
    by_cases hfirst : (xs .slabs).head? = some p
    · obtain ⟨rest, hrest'⟩ := List.head?_eq_some_iff.mp hfirst
      refine ⟨mgr.setHeader p hdr, xs, _, ?_, hcontents, hlisted, ?_⟩
      · rw [hhead, if_neg (not_not.mpr hfirst)]
      · rw [hrest', List.erase_cons_head] at hrest
        rw [hrest']
        exact hrest.cons hused' hroom
    · obtain ⟨hforest₂, hrel₂⟩ := dlPrepend_spec (b := .slabs) hforest₁ hnot
      have hrel := hrel₁.trans hrel₂
      refine ⟨mgr₁.dlPrepend alloc .slabs p, withFront (without xs .slabs p) .slabs p, _,
        ?_, hcontents.relinked hrel, ?_, ?_⟩
      · rw [hhead, if_pos hfirst, hdelete]
        rfl
      · constructor
        · exact hforest₂
        · intro q
          rw [hlisted.mem_pages]
          exact exists_mem_moved hslabs (fun d q => mem_withFront) q
        · intro q hq
          have hmem : q ∈ xs .emptySlabs := hq
          rw [hrel.slab]
          exact hlisted.empty q hmem
      · apply (hrest.cons hused' hroom).congr
        · intro q _
          rw [hrel.slab]
        · exact hrel.objN

end SlabMgr

/-! ### Runs -/

/-- An allocation, with what `func_alloc_page` and `math_rand_u32` return if they are called,
or the release of an object. -/
inductive SlabOp where
  | alloc (page : Option ℕ) (rand : ℕ)
  | free (ptr : ℕ)

/-- The manager, the live objects of the allocator and its pages. -/
structure SlabRun where
  mgr : SlabMgr
  live : List ℕ
  pages : List ℕ

namespace SlabRun

variable {s : SlabRun} {alloc : ℕ}

def start (mgr : SlabMgr) : SlabRun where
  mgr := mgr
  live := []
  pages := []

def step (alloc : ℕ) (s : SlabRun) : SlabOp → Option SlabRun
  | .alloc page rand => do
      let r ← slabAlloc s.mgr alloc page rand
      some ⟨r.mgr, r.addr.toList ++ s.live, SlabMgr.pagesAfter s.pages page r.requested⟩
  | .free ptr => do
      let mgr ← slabFree s.mgr alloc ptr
      some ⟨mgr, s.live.erase ptr, s.pages⟩

/-- A page that is given is aligned and new, and what is freed is a live object. -/
def Ok (s : SlabRun) : SlabOp → Prop
  | .alloc page _ => ∀ p ∈ page, pgSz ∣ p ∧ p ∉ s.pages
  | .free ptr => ptr ∈ s.live

/-- The chain of every slab visits its free objects once each. Every slab is on one of the two
lists, on `empty_slabs` exactly the empty ones, and on `slabs` the full ones at the end. -/
structure Sound (alloc : ℕ) (s : SlabRun) : Prop where
  chain : ∀ p ∈ s.pages, ∃ l, (s.mgr.slab p).firstFree = firstFreeOf l
    ∧ IndexChain.IsChain (s.mgr.slab p).freeList l ∧ l.Nodup
    ∧ l.length + (s.mgr.slab p).usedCnt = (s.mgr.slabAlloc alloc).objN
    ∧ ∀ i, i ∈ l ↔ i < (s.mgr.slabAlloc alloc).objN ∧ s.mgr.objAt alloc p i ∉ s.live
  lists : ∃ xs : SlabList → List ℕ, DList.Forest s.mgr.links (s.mgr.slabAlloc alloc).head xs
    ∧ (∀ p, p ∈ s.pages ↔ ∃ b, p ∈ xs b)
    ∧ (∀ p ∈ s.pages, p ∈ xs .emptySlabs ↔ (s.mgr.slab p).usedCnt = 0)
    ∧ (xs .slabs).Pairwise fun p q => s.mgr.Full alloc p → s.mgr.Full alloc q

/-- `slab_alloc` gives away an object that is not live, requests a page only when every slab is
full, and returns `NULL` only when it does not get that page. -/
def AllocSound (alloc : ℕ) (s : SlabRun) (page : Option ℕ) (rand : ℕ) : Prop :=
  ∃ r, slabAlloc s.mgr alloc page rand = some r
    ∧ (∀ x ∈ r.addr, x ∉ s.live)
    ∧ (r.requested = true → ∀ p ∈ s.pages, s.mgr.Full alloc p)
    ∧ (r.addr = none → r.requested = true ∧ page = none)

/-- The invariant of a run. -/
def Inv (alloc : ℕ) (s : SlabRun) : Prop :=
  ∃ xs free, SlabMgr.Kept s.mgr alloc s.live s.pages xs free

theorem Inv.sound (h : Inv alloc s) :
  Sound alloc s
  := by
  obtain ⟨xs, free, hkept⟩ := h
  constructor
  · intro p hp
    have hhdr := hkept.contents.header p hp
    refine ⟨free p, hhdr.firstFree, hhdr.chain, hhdr.nodup, hhdr.count, ?_⟩
    intro i
    rw [hkept.contents.mem_live]
    constructor
    · intro hi
      use hhdr.lt i hi
      rintro ⟨q, hq, j, hj, hnot, heq⟩
      obtain ⟨rfl, rfl⟩ := hkept.contents.objAt_inj hp hq (hhdr.lt i hi) hj heq
      exact hnot hi
    · rintro ⟨hi, hnot⟩
      by_contra hfree
      exact hnot ⟨p, hp, i, hi, hfree, rfl⟩
  · refine ⟨xs, hkept.listed.forest, hkept.listed.mem_pages, ?_, hkept.ordered.full⟩
    intro p hp
    constructor
    · exact hkept.listed.empty p
    · intro hzero
      obtain ⟨b, hb⟩ := (hkept.listed.mem_pages p).mp hp
      cases b with
      | slabs => exact absurd hzero (hkept.ordered.used p hb)
      | emptySlabs => exact hb

theorem Inv.allocSound (h : Inv alloc s) {page : Option ℕ} (rand : ℕ)
    (hpage : ∀ p ∈ page, pgSz ∣ p ∧ p ∉ s.pages) :
  AllocSound alloc s page rand
  := by
  obtain ⟨xs, free, hkept⟩ := h
  obtain ⟨r, -, -, halloc, -, hlive, hfull, hnone⟩ := hkept.allocate rand hpage
  exact ⟨r, halloc, hlive, hfull, hnone⟩

theorem Inv.step (h : Inv alloc s) {op : SlabOp} (hok : s.Ok op) :
  ∃ s', s.step alloc op = some s' ∧ Inv alloc s'
  := by
  obtain ⟨xs, free, hkept⟩ := h
  cases op with
  | alloc page rand =>
    obtain ⟨r, xs', free', halloc, hkept', -⟩ := hkept.allocate rand hok
    use ⟨r.mgr, r.addr.toList ++ s.live, SlabMgr.pagesAfter s.pages page r.requested⟩
    constructor
    · rw [SlabRun.step, halloc]
      rfl
    · exact ⟨xs', free', hkept'⟩
  | free ptr =>
    obtain ⟨mgr', xs', free', hfree, hkept'⟩ := hkept.release hok
    use ⟨mgr', s.live.erase ptr, s.pages⟩
    constructor
    · rw [SlabRun.step, hfree]
      rfl
    · exact ⟨xs', free', hkept'⟩

/-- Whether no divisor of the random padding is zero. The alignment is stored in 8 bits. -/
def PaddingDefined (objAlign : ℕ) : Prop :=
  0 < objAlign % 2 ^ 8 ∧ objAlign % 2 ^ 8 ≤ slabEndPaddingMin

variable {mgr mgr' : SlabMgr} {objSz objAlign : ℕ}

/-- The geometry that `slab_create` chooses. -/
theorem sized_of_slabCreate (hcreate : mgr.slabCreate objSz objAlign = (mgr', some alloc))
    (hpad : PaddingDefined objAlign) :
  (mgr'.slabAlloc alloc).Sized
  := by
  obtain ⟨hsz, hpos, heq⟩ := SlabMgr.slabCreate_spec hcreate
  have hfits := Nat.findGreatest_of_ne_zero (P := SlabMgr.Fits objSz (msbPos objAlign))
    (n := slabObjNMax) rfl hpos.ne'
  have hmod := Nat.mod_le (SlabMgr.basePadding (msbPos objAlign)
    (SlabMgr.capacity objSz (msbPos objAlign))) (2 ^ 8)
  have hle := le_alignUp (sizeofSlab + SlabMgr.capacity objSz (msbPos objAlign)) (msbPos objAlign)
  rw [SlabMgr.Fits] at hfits
  rw [heq]
  constructor
  · exact hpos
  · apply Nat.findGreatest_le
  · exact Nat.lt_of_lt_of_le (by decide) hsz
  · rfl
  · rw [SlabMgr.capacity] at *
    rw [SlabMgr.basePadding] at hmod
    dsimp only
    rw [SlabMgr.basePadding]
    omega
  · exact hpad.1
  · exact hpad.2

/-- A new allocator has no slabs. -/
theorem inv_start (hcreate : mgr.slabCreate objSz objAlign = (mgr', some alloc))
    (hpad : PaddingDefined objAlign) :
  Inv alloc (start mgr')
  := by
  obtain ⟨-, -, heq⟩ := SlabMgr.slabCreate_spec hcreate
  refine ⟨fun _ => [], fun _ => [], ?_, ?_, ?_⟩
  · constructor
    · exact sized_of_slabCreate hcreate hpad
    · intro p hp
      cases hp
    · exact List.nodup_nil
    · simp [start]
  · have hhead : (mgr'.slabAlloc alloc).head = fun _ => none := by
      funext b
      rw [heq]
      cases b <;> rfl
    constructor
    · rw [start, hhead]
      apply DList.Forest.empty
    · simp [start]
    · intro p hp
      cases hp
  · constructor
    · intro p hp
      cases hp
    · exact List.Pairwise.nil

/-- Without a divisor the first slab is not set up. -/
theorem paddingDefined_of_alloc (hcreate : mgr.slabCreate objSz objAlign = (mgr', some alloc))
    {page rand : ℕ} (halloc : slabAlloc mgr' alloc (some page) rand ≠ none) :
  PaddingDefined objAlign
  := by
  obtain ⟨-, -, heq⟩ := SlabMgr.slabCreate_spec hcreate
  have hslabs : (mgr'.slabAlloc alloc).slabs = none := by rw [heq]
  have hempty : (mgr'.slabAlloc alloc).emptySlabs = none := by rw [heq]
  have halign : (mgr'.slabAlloc alloc).paddingAlign = objAlign % 2 ^ 8 := by rw [heq]
  have hinit : mgr'.slabSlabInit page alloc rand ≠ none := by
    intro hnone
    apply halloc
    simp only [slabAlloc, SlabMgr.findSlab, hslabs, hempty, Option.filter_none, hnone]
    rfl
  rw [SlabMgr.slabSlabInit] at hinit
  dsimp only at hinit
  rw [halign] at hinit
  constructor
  · apply Nat.pos_of_ne_zero
    intro hzero
    exact hinit (if_pos hzero)
  · apply Nat.le_of_not_lt
    intro hlt
    apply hinit
    split
    · rfl
    · exact if_pos (Nat.div_eq_of_lt hlt)

/-- For every size and alignment that `slab_create` accepts: every run of allocations and
releases is defined and sound, and so is the next allocation, if and only if the random
padding can be computed. -/
theorem slab_alloc_sound_iff (hcreate : mgr.slabCreate objSz objAlign = (mgr', some alloc)) :
  (∀ ops, Run.Meets (step alloc) Ok (start mgr') ops →
      ∃ s, Run.run (step alloc) (start mgr') ops = some s ∧ Sound alloc s
        ∧ ∀ page rand, (∀ p ∈ page, pgSz ∣ p ∧ p ∉ s.pages) → AllocSound alloc s page rand)
    ↔ PaddingDefined objAlign
  := by
  constructor
  · intro h
    obtain ⟨s, hs, -, halloc⟩ := h [] trivial
    obtain rfl := Option.some.inj hs
    obtain ⟨r, hr, -⟩ := halloc (some 0) 0 (by simp [start])
    have hne : slabAlloc mgr' alloc (some 0) 0 ≠ none := fun hnone => by
      rw [start, hnone] at hr
      cases hr
    exact paddingDefined_of_alloc hcreate hne
  · intro hpad ops hops
    obtain ⟨s, hs, hinv⟩ := Run.run_invariant (fun s op hinv hok => hinv.step hok)
      (inv_start hcreate hpad) hops
    exact ⟨s, hs, hinv.sound, fun page rand hpage => hinv.allocSound rand hpage⟩

/-- Objects of 48 bytes at multiples of 8. -/
theorem slab_alloc_sound_48 :
  PaddingDefined (2 ^ 3)
    ∧ ∀ ops, Run.Meets (step 0) Ok (start (SlabMgr.emptySlabMgr.slabCreate 48 (2 ^ 3)).1) ops →
      ∃ s, Run.run (step 0) (start (SlabMgr.emptySlabMgr.slabCreate 48 (2 ^ 3)).1) ops = some s
        ∧ Sound 0 s
        ∧ ∀ page rand, (∀ p ∈ page, pgSz ∣ p ∧ p ∉ s.pages) → AllocSound 0 s page rand
  := by
  have hpadding : PaddingDefined (2 ^ 3) := by
    rw [PaddingDefined]
    decide
  use hpadding
  apply (slab_alloc_sound_iff SlabMgr.slabCreate_emptySlabMgr).mpr hpadding

/-- With the alignment 128 the first allocation computes a remainder by zero. -/
theorem slab_alloc_not_sound :
  ∃ mgr, SlabMgr.emptySlabMgr.slabCreate 48 128 = (mgr, some 0)
    ∧ slabAlloc mgr 0 (some pgSz) 0 = none ∧ ¬ AllocSound 0 (start mgr) (some pgSz) 0
  := by
  have hcreate : SlabMgr.emptySlabMgr.slabCreate 48 128
      = ((SlabMgr.emptySlabMgr.slabCreate 48 128).1, some 0) := by
    apply Prod.ext
    · rfl
    · decide +kernel
  have hnone : slabAlloc (SlabMgr.emptySlabMgr.slabCreate 48 128).1 0 (some pgSz) 0 = none := by
    rw [← Option.isNone_iff_eq_none]
    decide +kernel
  refine ⟨_, hcreate, hnone, ?_⟩
  rintro ⟨r, hr, -⟩
  rw [start, hnone] at hr
  cases hr

end SlabRun

end TrainsOs
