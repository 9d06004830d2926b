import SigmaOS.Mm.Safety

/-!
# Mm.Contiguous — what `alloc_n_blocks` takes

The scan of `alloc_n_blocks` goes on after it has found an entry that is big enough.  Every such
entry loses its first `n` pages, and the base of the last one is the answer (`scanned_slots`,
`scanned_base`).
-/

namespace SigmaOS.Mm.Pmm

open Lib List

/-- Regions of the 64-bit address space, pairwise disjoint. -/
structure RleStack.Regions (s : RleStack) : Prop where
  inSpace : ∀ i, i < s.pointer → (s.slots i).base + (s.slots i).nPages * blockSize ≤ 2 ^ 64
  disjoint : ∀ i j, i < s.pointer → j < s.pointer → i ≠ j →
    Disjoint (s.slots i).blocks (s.slots j).blocks

def scanned (n : Nat) (e : RleStackEntry) : RleStackEntry :=
  if n ≤ e.nPages then ⟨u64 (e.base + u64 (blockSize * n)), e.nPages - n⟩ else e

section Scan

variable {s s' : RleStack} {n b i : Nat}

/-- Each round of the scan touches its own slot. -/
lemma scanned_slots (n : Nat) (s : RleStack) (k : Nat) :
    ((List.range k).foldl (allocNScan n) (0, s)).2 =
      { s with slots := fun i => if i < k then scanned n (s.slots i) else s.slots i } := by
  induction k with
  | zero => simp
  | succ k ih =>
    rw [range_succ, foldl_append, foldl_cons, foldl_nil, allocNScan, ih]
    have hslot : (if k < k then scanned n (s.slots k) else s.slots k) = s.slots k :=
      if_neg (Nat.lt_irrefl k)
    simp only [hslot]
    by_cases hn : n ≤ (s.slots k).nPages
    · simp only [hn, if_true, RleStack.write]
      congr 1
      funext i
      by_cases hik : i = k
      · subst hik
        simp [scanned, hn]
      · rw [Function.update_of_ne hik]
        simp only [show i < k + 1 ↔ i < k by omega]
    · simp only [hn, if_false, ih]
      congr 1
      funext i
      by_cases hik : i = k
      · subst hik
        simp [scanned, hn]
      · simp only [show i < k + 1 ↔ i < k by omega]

/-- The base the scan keeps is null or that of an entry with enough pages. -/
lemma scanned_base (n : Nat) (s : RleStack) (k : Nat) :
    ((List.range k).foldl (allocNScan n) (0, s)).1 = 0 ∨
      ∃ i, i < k ∧ n ≤ (s.slots i).nPages ∧
        ((List.range k).foldl (allocNScan n) (0, s)).1 = (s.slots i).base := by
  induction k with
  | zero => exact .inl rfl
  | succ k ih =>
    have hslot := congrArg (fun t => t.slots k) (scanned_slots n s k)
    simp only [Nat.lt_irrefl, if_false] at hslot
    rw [range_succ, foldl_append, foldl_cons, foldl_nil, allocNScan, hslot]
    by_cases hn : n ≤ (s.slots k).nPages
    · rw [if_pos hn]
      exact .inr ⟨k, Nat.lt_succ_self k, hn, rfl⟩
    · rw [if_neg hn]
      rcases ih with hzero | ⟨i, hi, hbig, hbase⟩
      · exact .inl hzero
      · exact .inr ⟨i, Nat.lt_succ_of_lt hi, hbig, hbase⟩

/-- The run is that of one entry, and every entry large enough is cut. -/
lemma allocNBlocks_cases (h : allocNBlocks n s = some (b, s')) :
    (∃ i, i < s.pointer ∧ n ≤ (s.slots i).nPages ∧ b = (s.slots i).base) ∧
      s'.pointer = s.pointer ∧ s'.top = s.top ∧
      ∀ i, i < s.pointer → s'.slots i = scanned n (s.slots i) := by
  rcases Option.ite_none_left_eq_some.1 h with ⟨hz, heq⟩
  have hslots := scanned_slots n s s.pointer
  have hbase := scanned_base n s s.pointer
  rw [Option.some.inj heq] at hz hslots hbase
  refine ⟨hbase.resolve_left hz, ?_, ?_, ?_⟩
  · simpa using congrArg RleStack.pointer hslots
  · simpa using congrArg RleStack.top hslots
  · intro i hi
    simpa [hi] using congrArg (fun t => t.slots i) hslots

lemma scanned_blocks_subset {e : RleStackEntry}
    (he : e.base + e.nPages * blockSize ≤ 2 ^ 64) : (scanned n e).blocks ⊆ e.blocks := by
  by_cases hn : n ≤ e.nPages
  · rw [scanned, if_pos hn, (RleStackEntry.blocks_drop he hn).1]
    exact Set.subset_union_right
  · rw [scanned, if_neg hn]

end Scan

section Exact

variable {s s' : RleStack} {n b i : Nat}

/-- The run taken is disjoint from what stays free. -/
lemma RleStack.Regions.taken (hs : s.Regions) (hi : i < s.pointer)
    (hn : n ≤ (s.slots i).nPages) (hpointer : s'.pointer = s.pointer)
    (hslots : ∀ j, j < s.pointer → s'.slots j = scanned n (s.slots j)) :
    Disjoint (extent blockSize (s.slots i).base n) s'.free := by
  rcases RleStackEntry.blocks_drop (hs.inSpace i hi) hn with ⟨hblocks, hsplit⟩
  refine Set.disjoint_left.2 ?_
  rintro a ha ⟨j, hj, haj⟩
  rw [hpointer] at hj
  rw [hslots j hj] at haj
  by_cases hji : j = i
  · subst hji
    rw [scanned, if_pos hn] at haj
    exact Set.disjoint_left.1 hsplit ha haj
  · -- another entry: it had none of these blocks, and the scan adds none
    have hai : a ∈ (s.slots i).blocks := by
      rw [hblocks]
      exact .inl ha
    exact Set.disjoint_left.1 (hs.disjoint j i hj hi hji)
      (scanned_blocks_subset (hs.inSpace j hj) haj) hai

/-- The blocks that are returned were free before, and no other block disappears, if and only if one
entry alone has `n` pages or more. -/
theorem allocNBlocks_exact_iff (hs : s.Regions) (hn : 1 ≤ n)
    (h : allocNBlocks n s = some (b, s')) :
    (extent blockSize b n ⊆ s.free ∧ s'.free = s.free \ extent blockSize b n) ↔
      ∃! i, i < s.pointer ∧ n ≤ (s.slots i).nPages := by
  rcases allocNBlocks_cases h with ⟨⟨i, hi, hbig, rfl⟩, hpointer, _, hslots⟩
  have hblocks := fun j (hj : j < s.pointer) (hjn : n ≤ (s.slots j).nPages) =>
    (RleStackEntry.blocks_drop (hs.inSpace j hj) hjn).1
  have hin : ∀ j, j < s.pointer → n ≤ (s.slots j).nPages →
      extent blockSize (s.slots j).base n ⊆ (s.slots j).blocks := by
    intro j hj hjn
    rw [hblocks j hj hjn]
    exact Set.subset_union_left
  have hshrink : s'.free ⊆ s.free := by
    rintro a ⟨j, hj, ha⟩
    rw [hpointer] at hj
    rw [hslots j hj] at ha
    exact ⟨j, hj, scanned_blocks_subset (hs.inSpace j hj) ha⟩
  constructor
  · rintro ⟨_, hfree⟩
    refine ⟨i, ⟨hi, hbig⟩, ?_⟩
    rintro j ⟨hj, hjn⟩
    by_contra hji
    -- the first block of entry `j` is gone, although it was not returned
    have hfirst : (s.slots j).base ∈ extent blockSize (s.slots j).base n := self_mem_extent hn
    have hgone := Set.disjoint_left.1 (hs.taken hj hjn hpointer hslots) hfirst
    have hmem := hin j hj hjn hfirst
    refine hgone ?_
    rw [hfree]
    refine ⟨⟨j, hj, hmem⟩, ?_⟩
    intro hother
    exact Set.disjoint_left.1 (hs.disjoint j i hj hi hji) hmem (hin i hi hbig hother)
  · rintro ⟨k, _, hunique⟩
    refine ⟨(hin i hi hbig).trans (RleStack.blocks_subset_free hi), ?_⟩
    refine Set.Subset.antisymm ?_ ?_
    · intro a ha
      exact ⟨hshrink ha, fun hret =>
        Set.disjoint_left.1 (hs.taken hi hbig hpointer hslots) hret ha⟩
    · rintro a ⟨⟨j, hj, ha⟩, hnot⟩
      refine ⟨j, hpointer ▸ hj, ?_⟩
      rw [hslots j hj]
      by_cases hjn : n ≤ (s.slots j).nPages
      · -- the only entry that is big enough is the one whose blocks were returned
        have hji : j = i := (hunique j ⟨hj, hjn⟩).trans (hunique i ⟨hi, hbig⟩).symm
        subst hji
        rw [hblocks j hj hjn] at ha
        rw [scanned, if_pos hjn]
        exact ha.resolve_left hnot
      · rwa [scanned, if_neg hjn]

def twoRegions : RleStack where
  slots := fun i => if i = 0 then ⟨0x100000, 2⟩ else ⟨0x200000, 1⟩
  pointer := 2
  top := 16

/-- The sample stack has regions without overlap. -/
lemma twoRegions_regions : twoRegions.Regions := by
  have hcase : ∀ i, i < 2 → i = 0 ∨ i = 1 := by
    intro i hi
    omega
  have hdis : Disjoint (twoRegions.slots 0).blocks (twoRegions.slots 1).blocks := by
    refine Set.disjoint_left.2 ?_
    intro a ha hb
    have hup : a + 0x1000 ≤ 0x100000 + 2 * 0x1000 := extent_upper ha
    have hlo : 0x200000 ≤ a := extent_lower hb
    omega
  refine ⟨?_, ?_⟩
  · intro i hi
    rcases hcase i hi with rfl | rfl
    · decide
    · decide
  · intro i j hi hj hij
    rcases hcase i hi with rfl | rfl <;> rcases hcase j hj with rfl | rfl
    · exact absurd rfl hij
    · exact hdis
    · exact hdis.symm
    · exact absurd rfl hij

/-- Only the first region has two blocks. -/
theorem allocNBlocks_exact_two :
    ∃ s', allocNBlocks 2 twoRegions = some (0x100000, s') ∧
      extent blockSize 0x100000 2 ⊆ twoRegions.free ∧
      s'.free = twoRegions.free \ extent blockSize 0x100000 2 := by
  refine ⟨_, rfl, (allocNBlocks_exact_iff twoRegions_regions (by decide) rfl).2 ?_⟩
  refine ⟨0, ⟨by decide, by decide⟩, ?_⟩
  rintro i ⟨hi, hn⟩
  by_contra hne
  simp [twoRegions, hne] at hn

/-- Both regions have one block: the call returns the block at 2 MiB, and the block at 1 MiB is gone
as well. -/
theorem allocNBlocks_takes_more :
    ∃ s', allocNBlocks 1 twoRegions = some (0x200000, s') ∧
      0x100000 ∈ twoRegions.free ∧ 0x100000 ∉ extent blockSize 0x200000 1 ∧
      0x100000 ∉ s'.free := by
  refine ⟨_, rfl, ⟨0, by decide, 0, by decide, rfl⟩, by simp, ?_⟩
  have hfirst : (0x100000 : Nat) ∈ extent blockSize (twoRegions.slots 0).base 1 :=
    self_mem_extent Nat.one_pos
  rcases allocNBlocks_cases (rfl : allocNBlocks 1 twoRegions = some (0x200000, _)) with
    ⟨_, hpointer, _, hslots⟩
  exact Set.disjoint_left.1
    (twoRegions_regions.taken (by decide) (by decide) hpointer hslots) hfirst

end Exact

end SigmaOS.Mm.Pmm
