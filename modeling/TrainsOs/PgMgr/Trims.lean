import TrainsOs.PgMgr.Init
import TrainsOs.Lib.Leaderboard
import Mathlib.Order.Bounds.Basic

/-!
# Trimming with words

`pg_init_trimx` of `pgmgr.c` once more, now with the addresses in words of 64 bits. As long
as no segment begins in the last page of the address space it does what `pgInitTrimx` does
with numbers.

`remainders` are the parts of the segments that are cut off, and `KeepsBest` says that the
segments are trimmed to their pages, that the longest remainders are kept, and how many
these are.
-/

namespace TrainsOs

namespace Trims

/-- `struct PgInitSeg`. -/
structure Seg where
  startAddr : UInt64
  endAddr : UInt64
  flag : UInt32
deriving DecidableEq

/-- `seg->end_addr - seg->start_addr`. -/
def Seg.len (seg : Seg) : UInt64 :=
  seg.endAddr - seg.startAddr

/-- `ALIGN_UP`. -/
def alignUp (val sft : UInt64) : UInt64 :=
  (val + ((1 : UInt64) <<< sft) - 1) &&& ~~~ (((1 : UInt64) <<< sft) - 1)

/-- `ALIGN_DOWN`. -/
def alignDown (val sft : UInt64) : UInt64 :=
  val &&& ~~~ (((1 : UInt64) <<< sft) - 1)

/-- `PG_SFT`. -/
def pgSft : UInt64 := 20

/-- The loop of `pg_init_trimx_maybe_add` from the round for `i` on. -/
def trimxBubble (trims : List Seg) : ℕ → List Seg
  | 0 => trims
  | i + 1 =>
      match trims[i]?, trims[i + 1]? with
      | some a, some b =>
          if b.len ≤ a.len then trims else trimxBubble ((trims.set i b).set (i + 1) a) i
      | _, _ => trims

/-- `pg_init_trimx_maybe_add`. -/
def pgInitTrimxMaybeAdd (trims : List Seg) (cand : Seg) : List Seg :=
  match trims.getLast? with
  | none => trims
  | some last =>
      if cand.len ≤ last.len then
        trims
      else
        trimxBubble (trims.set (trims.length - 1) cand) (trims.length - 1)

/-- `pg_init_trimx_nonempty_cnt`. -/
def pgInitTrimxNonemptyCnt (trims : List Seg) : ℕ :=
  (trims.findIdx? fun trim => trim.startAddr ≠ trim.endAddr).getD trims.length

/-- The loop of `pg_init_trimx`: the segments and the remainders that it leaves. -/
def trimxLoop : List Seg → List Seg → List Seg × List Seg
  | [], trims => ([], trims)
  | seg :: segs, trims =>
      if seg.startAddr ≥ seg.endAddr then
        let (segs, trims) := trimxLoop segs trims
        (seg :: segs, trims)
      else
        let startAddrTrim := alignUp seg.startAddr pgSft
        let endAddrTrim := alignDown seg.endAddr pgSft
        let trims :=
          if endAddrTrim > startAddrTrim then
            let trims :=
              if seg.startAddr ≠ startAddrTrim then
                pgInitTrimxMaybeAdd trims ⟨seg.startAddr, startAddrTrim, seg.flag⟩
              else
                trims
            if seg.endAddr ≠ endAddrTrim then
              pgInitTrimxMaybeAdd trims ⟨endAddrTrim, seg.endAddr, seg.flag⟩
            else
              trims
          else
            pgInitTrimxMaybeAdd trims seg
        let (segs, trims) := trimxLoop segs trims
        (⟨startAddrTrim, endAddrTrim, seg.flag⟩ :: segs, trims)

/-- A slot that `pg_init_trimx_init_empty` has cleared. -/
def emptySlot : Seg := ⟨0, 0, 0⟩

/-- `pg_init_trimx` with the array of `pg_init`: the segments, the remainders and the value
that is returned and stored in `trimx->n`. -/
def pgInitTrimx (segs : List Seg) : List Seg × List Seg × ℕ :=
  let (segs, trims) := trimxLoop segs (List.replicate pginitTrimsN emptySlot)
  (segs, trims, pgInitTrimxNonemptyCnt trims)

/-! ### What is to be computed -/

/-- The segment with numbers for its words. -/
def Seg.toPgInitSeg (seg : Seg) : PgInitSeg :=
  ⟨seg.startAddr.toNat, seg.endAddr.toNat, seg.flag.toNat⟩

/-- A whole page lies inside the segment. -/
def HasPage (seg : PgInitSeg) : Prop :=
  ∃ a, 2 ^ TrainsOs.pgSft ∣ a ∧ seg.startAddr ≤ a ∧ a + 2 ^ TrainsOs.pgSft ≤ seg.endAddr

/-- The largest part of the segment that begins and ends at a page. -/
structure IsTrimmed (seg trimmed : PgInitSeg) : Prop where
  start : IsLeast {a | 2 ^ TrainsOs.pgSft ∣ a ∧ seg.startAddr ≤ a} trimmed.startAddr
  stop : IsGreatest {a | 2 ^ TrainsOs.pgSft ∣ a ∧ a ≤ seg.endAddr} trimmed.endAddr
  flag : trimmed.flag = seg.flag

/-- What is cut off from a segment: what is in front of its pages and behind them, or all of
it when it has none. -/
def parts (seg : PgInitSeg) : List PgInitSeg :=
  let startAddrTrim := TrainsOs.alignUp seg.startAddr TrainsOs.pgSft
  let endAddrTrim := TrainsOs.alignDown seg.endAddr TrainsOs.pgSft
  if startAddrTrim < endAddrTrim then
    [⟨seg.startAddr, startAddrTrim, seg.flag⟩, ⟨endAddrTrim, seg.endAddr, seg.flag⟩]
  else
    [seg]

/-- The parts that are not empty. -/
def remainders (seg : PgInitSeg) : List PgInitSeg :=
  (parts seg).filter fun part => 0 < part.len

/-- The segments that have a page are trimmed to their pages. -/
def SegmentsTrimmed (segs : List Seg) : Prop :=
  List.Forall₂ (fun seg trimmed => HasPage seg → IsTrimmed seg trimmed)
    (segs.map Seg.toPgInitSeg) ((pgInitTrimx segs).1.map Seg.toPgInitSeg)

/-- The array holds the longest remainders, the longest one first, as many as there are or
fit, and behind them empty segments. -/
def LongestKept (segs : List Seg) : Prop :=
  ∃ kept rest dropped, (pgInitTrimx segs).2.1.map Seg.toPgInitSeg = kept ++ rest
    ∧ kept.length = min pginitTrimsN ((segs.map Seg.toPgInitSeg).flatMap remainders).length
    ∧ (kept ++ dropped).Perm ((segs.map Seg.toPgInitSeg).flatMap remainders)
    ∧ kept.Pairwise (fun a b => b.len ≤ a.len)
    ∧ (∀ d ∈ dropped, ∀ x ∈ kept, d.len ≤ x.len)
    ∧ ∀ x ∈ rest, x.startAddr = x.endAddr

/-- The result is the number of the remainders that are kept. -/
def CountReturned (segs : List Seg) : Prop :=
  (pgInitTrimx segs).2.2 = min pginitTrimsN ((segs.map Seg.toPgInitSeg).flatMap remainders).length

/-- The trims are the best that can be done. -/
def KeepsBest (segs : List Seg) : Prop :=
  SegmentsTrimmed segs ∧ LongestKept segs ∧ CountReturned segs

variable {segs trims : List Seg} {seg cand : Seg}

/-! ### Alignment of words -/

theorem toNat_and_not (val : UInt64) :
  (val &&& ~~~ (((1 : UInt64) <<< pgSft) - 1)).toNat = TrainsOs.alignDown val.toNat TrainsOs.pgSft
  := by
  have hmask : (~~~ (((1 : UInt64) <<< pgSft) - 1)).toNat = 2 ^ 64 - (2 ^ 20 - 1 + 1) := rfl
  rw [UInt64.toNat_and, hmask, TrainsOs.alignDown, TrainsOs.pgSft]
  apply Nat.eq_of_testBit_eq
  intro i
  rw [Nat.testBit_and, Nat.testBit_two_pow_sub_succ (by decide), Nat.testBit_two_pow_sub_one,
    Nat.testBit_shiftLeft, Nat.testBit_shiftRight]
  by_cases hlt : i < 20
  · simp [hlt]
  · rw [Nat.add_sub_cancel' (not_lt.mp hlt)]
    by_cases hle : i < 64
    · simp [hlt, hle, not_lt.mp hlt]
    · rw [Nat.testBit_eq_false_of_lt
        (val.toNat_lt.trans_le (Nat.pow_le_pow_right Nat.two_pos (not_lt.mp hle)))]
      simp

theorem toNat_alignDown (val : UInt64) :
  (alignDown val pgSft).toNat = TrainsOs.alignDown val.toNat TrainsOs.pgSft
  := toNat_and_not val

/-- Without a page above it, a word is not aligned up. -/
theorem toNat_alignUp {val : UInt64} (h : val.toNat + 2 ^ TrainsOs.pgSft ≤ 2 ^ 64) :
  (alignUp val pgSft).toNat = TrainsOs.alignUp val.toNat TrainsOs.pgSft
  := by
  have hadd : (val + ((1 : UInt64) <<< pgSft) - 1).toNat = val.toNat + (1 <<< TrainsOs.pgSft) - 1 := by
    have hone : ((1 : UInt64) <<< pgSft).toNat = 2 ^ 20 := rfl
    rw [UInt64.toNat_sub, UInt64.toNat_add, hone, UInt64.toNat_one, TrainsOs.pgSft] at *
    omega
  rw [alignUp, toNat_and_not, hadd, TrainsOs.alignUp]

theorem dvd_alignUp (val : UInt64) :
  2 ^ TrainsOs.pgSft ∣ (alignUp val pgSft).toNat
  := by
  rw [alignUp, toNat_and_not]
  apply TrainsOs.dvd_alignDown

/-- There is a page above an address of a page. -/
theorem add_le_of_dvd {val : UInt64} (h : 2 ^ TrainsOs.pgSft ∣ val.toNat) :
  val.toNat + 2 ^ TrainsOs.pgSft ≤ 2 ^ 64
  := by
  have hlt := val.toNat_lt
  rw [TrainsOs.pgSft] at h ⊢
  omega

/-! ### The passes over the segments and over the array -/

/-- What becomes of a segment. -/
def Seg.trimmed (seg : Seg) : Seg :=
  if seg.endAddr ≤ seg.startAddr then
    seg
  else
    ⟨alignUp seg.startAddr pgSft, alignDown seg.endAddr pgSft, seg.flag⟩

/-- The parts into which a segment is cut, without its pages. -/
def Seg.parts (seg : Seg) : List Seg :=
  if alignUp seg.startAddr pgSft < alignDown seg.endAddr pgSft then
    [⟨seg.startAddr, alignUp seg.startAddr pgSft, seg.flag⟩,
      ⟨alignDown seg.endAddr pgSft, seg.endAddr, seg.flag⟩]
  else
    [seg]

/-- What `pg_init_trimx_maybe_add` is called with for a segment. -/
def Seg.cands (seg : Seg) : List Seg :=
  if seg.endAddr ≤ seg.startAddr then
    []
  else
    seg.parts.filter fun part => part.startAddr ≠ part.endAddr

theorem trimxLoop_eq (segs trims : List Seg) :
  trimxLoop segs trims
    = (segs.map Seg.trimmed, (segs.flatMap Seg.cands).foldl pgInitTrimxMaybeAdd trims)
  := by
  induction segs generalizing trims with
  | nil => rfl
  | cons seg segs ih =>
    rw [List.map_cons, List.flatMap_cons, List.foldl_append, Seg.trimmed, Seg.cands, trimxLoop]
    by_cases hle : seg.endAddr ≤ seg.startAddr
    · rw [if_pos hle, if_pos hle, if_pos hle, ih]
      rfl
    · rw [if_neg hle, if_neg hle, if_neg hle, Seg.parts]
      dsimp only
      rw [ih]
      dsimp only
      congr 2
      by_cases hlt : alignUp seg.startAddr pgSft < alignDown seg.endAddr pgSft
      · rw [if_pos hlt, if_pos hlt, List.filter_cons, List.filter_cons, List.filter_nil]
        simp only [decide_eq_true_eq, ne_comm (a := alignDown _ _)]
        split_ifs <;> rfl
      · have hne : seg.startAddr ≠ seg.endAddr := fun heq => hle (UInt64.le_of_eq heq.symm)
        rw [if_neg hlt, if_neg hlt, List.filter_cons, if_pos (by simpa using hne)]
        rfl

/-- Segments are compared by their length. -/
def Seg.size (seg : Seg) : ℕ :=
  seg.len.toNat

theorem trimxBubble_eq (trims : List Seg) (i : ℕ) :
  trimxBubble trims i = Leaderboard.bubble Seg.size trims i
  := by
  induction i generalizing trims with
  | zero => rfl
  | succ i ih =>
    rw [trimxBubble, Leaderboard.bubble]
    cases trims[i]? with
    | none => rfl
    | some a =>
      cases trims[i + 1]? with
      | none => rfl
      | some b => exact if_congr UInt64.le_iff_toNat_le rfl (ih _)

theorem pgInitTrimxMaybeAdd_eq (trims : List Seg) (cand : Seg) :
  pgInitTrimxMaybeAdd trims cand = Leaderboard.offer Seg.size trims cand
  := by
  rw [pgInitTrimxMaybeAdd, Leaderboard.offer]
  cases trims.getLast? with
  | none => rfl
  | some last => exact if_congr UInt64.le_iff_toNat_le rfl (trimxBubble_eq _ _)

theorem pgInitTrimxMaybeAdd_eq_offer :
  pgInitTrimxMaybeAdd = Leaderboard.offer Seg.size
  := by
  funext trims cand
  apply pgInitTrimxMaybeAdd_eq

theorem descending_emptySlots (n : ℕ) :
  Leaderboard.Descending Seg.size (List.replicate n emptySlot)
  := List.pairwise_replicate.mpr (Or.inr le_rfl)

/-- The array holds the best of what is offered. -/
theorem best_trims (segs : List Seg) :
  Leaderboard.Best Seg.size (List.replicate pginitTrimsN emptySlot) (segs.flatMap Seg.cands)
    (pgInitTrimx segs).2.1
  := by
  have hbest := (Leaderboard.Best.refl (descending_emptySlots pginitTrimsN)).foldl
    (segs.flatMap Seg.cands)
  rw [pgInitTrimx, trimxLoop_eq, pgInitTrimxMaybeAdd_eq_offer]
  exact hbest

/-! ### The remainders -/

/-- `ALIGN_UP` of the start of the segment does not wrap around. -/
def InBounds (seg : Seg) : Prop :=
  seg.startAddr.toNat + 2 ^ TrainsOs.pgSft ≤ 2 ^ 64

/-- A segment that does not end before it begins has the same length in numbers. -/
theorem size_eq (h : seg.startAddr ≤ seg.endAddr) :
  seg.size = seg.toPgInitSeg.len
  := UInt64.toNat_sub_of_le _ _ h

theorem len_pos_iff (h : seg.startAddr ≤ seg.endAddr) :
  0 < seg.toPgInitSeg.len ↔ seg.startAddr ≠ seg.endAddr
  := by
  rw [PgInitSeg.len, Nat.sub_pos_iff_lt, ne_eq, ← UInt64.toNat_inj]
  exact lt_iff_le_and_ne.trans (and_iff_right (UInt64.le_iff_toNat_le.mp h))

theorem remainders_of_le {seg : PgInitSeg} (h : seg.endAddr ≤ seg.startAddr) :
  remainders seg = []
  := by
  have hstart := TrainsOs.le_alignUp seg.startAddr TrainsOs.pgSft
  have hend := TrainsOs.alignDown_le seg.endAddr TrainsOs.pgSft
  have hlen : ¬ 0 < seg.len := by
    rw [PgInitSeg.len]
    omega
  rw [remainders, parts, if_neg (by omega), List.filter_cons, if_neg (by simpa using hlen),
    List.filter_nil]

theorem map_parts (h : InBounds seg) :
  seg.parts.map Seg.toPgInitSeg = parts seg.toPgInitSeg
  := by
  rw [Seg.parts, parts, Seg.toPgInitSeg, ← toNat_alignUp h, ← toNat_alignDown,
    apply_ite (List.map Seg.toPgInitSeg)]
  exact if_congr UInt64.lt_iff_toNat_lt rfl rfl

/-- A part does not end before it begins. -/
theorem le_of_mem_parts (hseg : InBounds seg) (hlt : seg.startAddr < seg.endAddr)
    (h : cand ∈ seg.parts) :
  cand.startAddr ≤ cand.endAddr
  := by
  rw [Seg.parts] at h
  split at h
  · rw [List.mem_cons, List.mem_singleton] at h
    rw [UInt64.le_iff_toNat_le]
    rcases h with rfl | rfl
    · rw [toNat_alignUp hseg]
      apply TrainsOs.le_alignUp
    · rw [toNat_alignDown]
      apply TrainsOs.alignDown_le
  · rw [List.mem_singleton.mp h]
    exact UInt64.le_of_lt hlt

theorem mem_cands :
  cand ∈ seg.cands
    ↔ seg.startAddr < seg.endAddr ∧ cand ∈ seg.parts ∧ cand.startAddr ≠ cand.endAddr
  := by
  rw [Seg.cands]
  split
  · rename_i hle
    simp [UInt64.not_lt.mpr hle]
  · rename_i hle
    simp [UInt64.not_le.mp hle]

/-- What is offered for a segment are its remainders. -/
theorem map_cands (h : InBounds seg) :
  seg.cands.map Seg.toPgInitSeg = remainders seg.toPgInitSeg
  := by
  by_cases hle : seg.endAddr ≤ seg.startAddr
  · rw [Seg.cands, if_pos hle, remainders_of_le (UInt64.le_iff_toNat_le.mp hle)]
    rfl
  · rw [Seg.cands, if_neg hle, remainders, ← map_parts h, List.filter_map]
    congr 1
    apply List.filter_congr
    intro part hpart
    have hpos := len_pos_iff (le_of_mem_parts h (UInt64.not_le.mp hle) hpart)
    exact decide_eq_decide.mpr hpos.symm

/-- Nothing is offered for a segment exactly when it has no remainders. -/
theorem cands_eq_nil_iff (seg : Seg) :
  seg.cands = [] ↔ remainders seg.toPgInitSeg = []
  := by
  by_cases h : InBounds seg
  · rw [← map_cands h, List.map_eq_nil_iff]
  by_cases hle : seg.endAddr ≤ seg.startAddr
  · rw [Seg.cands, if_pos hle, remainders_of_le (UInt64.le_iff_toNat_le.mp hle), eq_self,
      eq_self]
  -- such a segment does not begin at a page
  have hdvd : ¬ 2 ^ TrainsOs.pgSft ∣ seg.startAddr.toNat := fun hdvd => h (add_le_of_dvd hdvd)
  have hlt := UInt64.lt_iff_toNat_lt.mp (UInt64.not_le.mp hle)
  apply iff_of_false
  · rw [Seg.cands, if_neg hle, List.filter_eq_nil_iff]
    intro hnil
    rw [Seg.parts] at hnil
    split at hnil
    · have heq := hnil _ List.mem_cons_self
      rw [decide_eq_true_iff, not_not] at heq
      dsimp only at heq
      exact hdvd (heq ▸ dvd_alignUp seg.startAddr)
    · simpa [UInt64.ne_of_lt (UInt64.not_le.mp hle)] using hnil _ List.mem_cons_self
  · rw [remainders, List.filter_eq_nil_iff]
    intro hnil
    rw [parts] at hnil
    split at hnil
    · have heq := hnil _ List.mem_cons_self
      rw [decide_eq_true_iff, PgInitSeg.len, Nat.sub_pos_iff_lt, not_lt] at heq
      have heq : TrainsOs.alignUp seg.startAddr.toNat TrainsOs.pgSft = seg.startAddr.toNat :=
        heq.antisymm (TrainsOs.le_alignUp _ _)
      exact hdvd (heq ▸ TrainsOs.dvd_alignUp seg.startAddr.toNat TrainsOs.pgSft)
    · have heq := hnil _ List.mem_cons_self
      rw [decide_eq_true_iff, PgInitSeg.len, Nat.sub_pos_iff_lt] at heq
      exact heq hlt

theorem map_flatMap_cands (h : ∀ seg ∈ segs, InBounds seg) :
  (segs.flatMap Seg.cands).map Seg.toPgInitSeg = (segs.map Seg.toPgInitSeg).flatMap remainders
  := by
  rw [List.map_flatMap, List.flatMap_map]
  apply List.flatMap_congr
  exact fun seg hseg => map_cands (h seg hseg)

theorem le_of_mem_flatMap_cands (h : ∀ seg ∈ segs, InBounds seg)
    (hcand : cand ∈ segs.flatMap Seg.cands) :
  cand.startAddr ≤ cand.endAddr
  := by
  obtain ⟨seg, hseg, hcand⟩ := List.mem_flatMap.mp hcand
  obtain ⟨hlt, hpart, -⟩ := mem_cands.mp hcand
  exact le_of_mem_parts (h seg hseg) hlt hpart

theorem flatMap_cands_eq_nil_iff (segs : List Seg) :
  segs.flatMap Seg.cands = [] ↔ (segs.map Seg.toPgInitSeg).flatMap remainders = []
  := by
  rw [List.flatMap_map, List.flatMap_eq_nil_iff, List.flatMap_eq_nil_iff]
  exact forall₂_congr fun seg _ => cands_eq_nil_iff seg

/-! ### The segments -/

/-- A segment of which only whole pages are left. -/
def numTrimmed (seg : PgInitSeg) : PgInitSeg :=
  if seg.endAddr ≤ seg.startAddr then
    seg
  else
    ⟨TrainsOs.alignUp seg.startAddr TrainsOs.pgSft, TrainsOs.alignDown seg.endAddr TrainsOs.pgSft,
      seg.flag⟩

theorem numTrimmed_eq (h : InBounds seg) :
  numTrimmed seg.toPgInitSeg = seg.trimmed.toPgInitSeg
  := by
  rw [numTrimmed, Seg.trimmed, apply_ite Seg.toPgInitSeg, Seg.toPgInitSeg, Seg.toPgInitSeg,
    toNat_alignUp h, toNat_alignDown]
  exact if_congr UInt64.le_iff_toNat_le.symm rfl rfl

/-- A segment with a page is as long as a page. -/
theorem add_le_of_hasPage {seg : PgInitSeg} (h : HasPage seg) :
  seg.startAddr + 2 ^ TrainsOs.pgSft ≤ seg.endAddr
  := by
  obtain ⟨a, -, hstart, hend⟩ := h
  exact (Nat.add_le_add_right hstart _).trans hend

theorem isTrimmed {seg : PgInitSeg} (h : HasPage seg) :
  IsTrimmed seg (numTrimmed seg)
  := by
  have hle : ¬ seg.endAddr ≤ seg.startAddr := by
    have hadd := add_le_of_hasPage h
    have hpos := Nat.two_pow_pos TrainsOs.pgSft
    omega
  rw [numTrimmed, if_neg hle]
  constructor
  · constructor
    · exact ⟨TrainsOs.dvd_alignUp _ _, TrainsOs.le_alignUp _ _⟩
    · exact fun _ ha => TrainsOs.alignUp_le ha.1 ha.2
  · constructor
    · exact ⟨TrainsOs.dvd_alignDown _ _, TrainsOs.alignDown_le _ _⟩
    · exact fun _ ha => TrainsOs.le_alignDown ha.1 ha.2
  · rfl

theorem segmentsTrimmed (segs : List Seg) :
  SegmentsTrimmed segs
  := by
  rw [SegmentsTrimmed, pgInitTrimx, trimxLoop_eq]
  dsimp only
  rw [List.forall₂_map_left_iff, List.forall₂_map_right_iff, List.forall₂_map_right_iff,
    List.forall₂_same]
  intro seg _ hpage
  have hbounds := (add_le_of_hasPage hpage).trans seg.endAddr.toNat_lt.le
  rw [← numTrimmed_eq hbounds]
  exact isTrimmed hpage

/-! ### The array -/

theorem size_pos_iff :
  emptySlot.size < seg.size ↔ seg.startAddr ≠ seg.endAddr
  := by
  have hempty : emptySlot.size = 0 := rfl
  have hstart := seg.startAddr.toNat_lt
  have hend := seg.endAddr.toNat_lt
  rw [hempty, Seg.size, Seg.len, UInt64.toNat_sub, ne_eq, ← UInt64.toNat_inj]
  omega

/-- What the array holds at the end. -/
theorem trims_eq (segs : List Seg) :
  ∃ kept dropped, (pgInitTrimx segs).2.1
      = kept ++ List.replicate (pginitTrimsN - kept.length) emptySlot
    ∧ kept.length = min pginitTrimsN (segs.flatMap Seg.cands).length
    ∧ (kept ++ dropped).Perm (segs.flatMap Seg.cands)
    ∧ Leaderboard.Descending Seg.size kept ∧ ∀ d ∈ dropped, ∀ x ∈ kept, d.size ≤ x.size
  := by
  apply (best_trims segs).blank
  intro cand hcand
  obtain ⟨seg, -, hcand⟩ := List.mem_flatMap.mp hcand
  exact size_pos_iff.mpr (mem_cands.mp hcand).2.2

theorem longestKept (h : ∀ seg ∈ segs, InBounds seg) :
  LongestKept segs
  := by
  obtain ⟨kept, dropped, htrims, hlen, hperm, hdesc, hdropped⟩ := trims_eq segs
  have hmem : ∀ cand ∈ kept ++ dropped, cand.size = cand.toPgInitSeg.len :=
    fun cand hcand => size_eq (le_of_mem_flatMap_cands h (hperm.mem_iff.mp hcand))
  rw [List.forall_mem_append] at hmem
  refine ⟨kept.map Seg.toPgInitSeg, _, dropped.map Seg.toPgInitSeg,
    by rw [htrims, List.map_append], ?_, ?_, ?_, ?_, ?_⟩
  · rw [List.length_map, hlen, ← map_flatMap_cands h, List.length_map]
  · rw [← List.map_append, ← map_flatMap_cands h]
    exact hperm.map _
  · rw [List.pairwise_map]
    apply hdesc.imp_of_mem
    intro a b ha hb hle
    rwa [hmem.1 a ha, hmem.1 b hb] at hle
  · simp only [List.forall_mem_map]
    intro d hd x hx
    rw [← hmem.2 d hd, ← hmem.1 x hx]
    exact hdropped d hd x hx
  · simp only [List.forall_mem_map]
    intro x hx
    rw [List.eq_of_mem_replicate hx]
    rfl

/-- The index of the first slot that is not empty. -/
theorem count_eq (segs : List Seg) :
  (pgInitTrimx segs).2.2
    = if (segs.map Seg.toPgInitSeg).flatMap remainders = [] then pginitTrimsN else 0
  := by
  obtain ⟨kept, dropped, htrims, hlen, hperm, -⟩ := trims_eq segs
  have hcount : (pgInitTrimx segs).2.2 = pgInitTrimxNonemptyCnt (pgInitTrimx segs).2.1 := rfl
  rw [hcount, htrims, pgInitTrimxNonemptyCnt]
  by_cases hnil : segs.flatMap Seg.cands = []
  · rw [if_pos ((flatMap_cands_eq_nil_iff segs).mp hnil)]
    rw [hnil, List.length_nil, Nat.min_zero, List.length_eq_zero_iff] at hlen
    rw [hlen]
    rfl
  · rw [if_neg (mt (flatMap_cands_eq_nil_iff segs).mpr hnil)]
    have hpos := List.length_pos_iff.mpr hnil
    obtain ⟨cand, kept, rfl⟩ : ∃ cand cands, kept = cand :: cands := by
      apply List.exists_cons_of_length_pos
      rw [hlen]
      exact lt_min (by decide) hpos
    have hmem := hperm.mem_iff.mp (List.mem_append_left _ List.mem_cons_self)
    obtain ⟨seg, -, hcand⟩ := List.mem_flatMap.mp hmem
    have hne := (mem_cands.mp hcand).2.2
    simp [List.findIdx?_cons, hne]

/-! ### Words and numbers -/

theorem foldl_remainders {seg : PgInitSeg} (h : seg.startAddr < seg.endAddr)
    (trims : List PgInitSeg) :
  (remainders seg).foldl TrainsOs.pgInitTrimxMaybeAdd trims
    = let startAddrTrim := TrainsOs.alignUp seg.startAddr TrainsOs.pgSft
      let endAddrTrim := TrainsOs.alignDown seg.endAddr TrainsOs.pgSft
      if startAddrTrim < endAddrTrim then
        let trims :=
          if seg.startAddr ≠ startAddrTrim then
            TrainsOs.pgInitTrimxMaybeAdd trims ⟨seg.startAddr, startAddrTrim, seg.flag⟩
          else
            trims
        if seg.endAddr ≠ endAddrTrim then
          TrainsOs.pgInitTrimxMaybeAdd trims ⟨endAddrTrim, seg.endAddr, seg.flag⟩
        else
          trims
      else
        TrainsOs.pgInitTrimxMaybeAdd trims seg
  := by
  have hstart := TrainsOs.le_alignUp seg.startAddr TrainsOs.pgSft
  have hend := TrainsOs.alignDown_le seg.endAddr TrainsOs.pgSft
  rw [remainders, parts]
  generalize TrainsOs.alignUp seg.startAddr TrainsOs.pgSft = up at hstart ⊢
  generalize TrainsOs.alignDown seg.endAddr TrainsOs.pgSft = down at hend ⊢
  dsimp only
  by_cases hlt : up < down
  · rw [if_pos hlt, if_pos hlt, List.filter_cons, List.filter_cons, List.filter_nil]
    simp only [decide_eq_true_eq, PgInitSeg.len, Nat.sub_pos_iff_lt, hstart.lt_iff_ne,
      hend.lt_iff_ne, ne_comm (a := down)]
    split_ifs <;> rfl
  · have hlen : 0 < seg.len := Nat.sub_pos_of_lt h
    rw [if_neg hlt, if_neg hlt, List.filter_cons, if_pos (by simpa using hlen)]
    rfl

theorem num_trimxLoop_eq (segs trims : List PgInitSeg) :
  TrainsOs.trimxLoop segs trims
    = (segs.map numTrimmed, (segs.flatMap remainders).foldl TrainsOs.pgInitTrimxMaybeAdd trims)
  := by
  induction segs generalizing trims with
  | nil => rfl
  | cons seg segs ih =>
    rw [List.map_cons, List.flatMap_cons, List.foldl_append, numTrimmed, TrainsOs.trimxLoop]
    by_cases hle : seg.endAddr ≤ seg.startAddr
    · rw [if_pos hle, if_pos hle, remainders_of_le hle, ih]
      rfl
    · rw [if_neg hle, if_neg hle, foldl_remainders (not_le.mp hle)]
      dsimp only
      rw [ih]

theorem num_trimxBubble_eq (trims : List PgInitSeg) (i : ℕ) :
  TrainsOs.trimxBubble trims i = Leaderboard.bubble PgInitSeg.len trims i
  := by
  induction i generalizing trims with
  | zero => rfl
  | succ i ih =>
    rw [TrainsOs.trimxBubble, Leaderboard.bubble]
    cases trims[i]? with
    | none => rfl
    | some a =>
      cases trims[i + 1]? with
      | none => rfl
      | some b => exact if_congr Iff.rfl rfl (ih _)

theorem num_pgInitTrimxMaybeAdd_eq (trims : List PgInitSeg) (cand : PgInitSeg) :
  TrainsOs.pgInitTrimxMaybeAdd trims cand = Leaderboard.offer PgInitSeg.len trims cand
  := by
  rw [TrainsOs.pgInitTrimxMaybeAdd, Leaderboard.offer]
  cases trims.getLast? with
  | none => rfl
  | some last => exact if_congr Iff.rfl rfl (num_trimxBubble_eq _ _)

theorem num_pgInitTrimxNonemptyCnt_eq (trims : List Seg) :
  TrainsOs.pgInitTrimxNonemptyCnt (trims.map Seg.toPgInitSeg) = pgInitTrimxNonemptyCnt trims
  := by
  have hpred : ((fun trim : PgInitSeg => decide (trim.startAddr ≠ trim.endAddr)) ∘ Seg.toPgInitSeg)
      = fun trim => decide (trim.startAddr ≠ trim.endAddr) := by
    funext trim
    exact decide_eq_decide.mpr (not_congr UInt64.toNat_inj)
  rw [TrainsOs.pgInitTrimxNonemptyCnt, List.findIdx?_map, List.length_map, hpred]
  rfl

/-- In bounds, the pass does with words what it does with numbers. -/
theorem pgInitTrimx_map (h : ∀ seg ∈ segs, InBounds seg) :
  TrainsOs.pgInitTrimx (segs.map Seg.toPgInitSeg)
    = ((pgInitTrimx segs).1.map Seg.toPgInitSeg, (pgInitTrimx segs).2.1.map Seg.toPgInitSeg,
        (pgInitTrimx segs).2.2)
  := by
  have hnum : TrainsOs.pgInitTrimxMaybeAdd = Leaderboard.offer PgInitSeg.len := by
    funext trims cand
    apply num_pgInitTrimxMaybeAdd_eq
  have hsegs : (segs.map Seg.toPgInitSeg).map numTrimmed
      = (pgInitTrimx segs).1.map Seg.toPgInitSeg := by
    rw [pgInitTrimx, trimxLoop_eq, List.map_map, List.map_map]
    exact List.map_congr_left fun seg hseg => numTrimmed_eq (h seg hseg)
  have htrims : ((segs.map Seg.toPgInitSeg).flatMap remainders).foldl
        (Leaderboard.offer PgInitSeg.len) (List.replicate pginitTrimsN ⟨0, 0, 0⟩)
      = (pgInitTrimx segs).2.1.map Seg.toPgInitSeg := by
    rw [pgInitTrimx, trimxLoop_eq, pgInitTrimxMaybeAdd_eq_offer, ← map_flatMap_cands h]
    dsimp only
    rw [Leaderboard.map_foldl_offer (descending_emptySlots _),
      List.map_replicate]
    · rfl
    · intro slot hslot
      rw [List.eq_of_mem_replicate hslot]
      rfl
    · exact fun cand hcand => (size_eq (le_of_mem_flatMap_cands h hcand)).symm
  rw [TrainsOs.pgInitTrimx, num_trimxLoop_eq, hnum]
  dsimp only
  rw [htrims, hsegs, num_pgInitTrimxNonemptyCnt_eq]
  rfl

/-- For every list of segments the count is wrong, even though the segments are trimmed and, in
bounds, the longest remainders are kept. -/
theorem pgInitTrimx_count_wrong (segs : List Seg) :
  ¬ KeepsBest segs ∧ SegmentsTrimmed segs ∧ ((∀ seg ∈ segs, InBounds seg) → LongestKept segs)
  := by
  refine ⟨?_, segmentsTrimmed segs, longestKept⟩
  rintro ⟨-, -, hcount⟩
  rw [CountReturned, count_eq] at hcount
  by_cases hnil : (segs.map Seg.toPgInitSeg).flatMap remainders = []
  · rw [if_pos hnil, hnil] at hcount
    cases hcount
  · rw [if_neg hnil] at hcount
    have hpos := List.length_pos_iff.mpr hnil
    rw [pginitTrimsN] at hcount
    omega

/-- A segment of a page and a half, of which half a page is cut off: the result is `0`. -/
theorem count_page_and_half :
  ¬ KeepsBest [⟨0, 0x180000, 0⟩]
  := by
  rintro ⟨-, -, hcount⟩
  revert hcount
  rw [CountReturned]
  decide +kernel

end Trims

end TrainsOs
