import SigmaOS.Arch.PagingLife
import SigmaOS.Arch.PagingRefine

/-!
# Arch.PagingTotal — the functions return

`map_page` and `clone_paging_info` stop only where `alloc_block` does.  `Phys.Stocked n s` says that
the allocator still has `n` frames to give that are not in use.

* `mapPage_defined`: `map_page` needs three frames at most, for the tables on the way to the page.
* `clonePagingInfo_defined`: `clone_paging_info` needs `cloneFrames` at most, one for every table that
  the lower half of an address space can have.
-/

namespace SigmaOS.Arch.Paging

open Lib List

/-! ## Frames that are left -/

structure Phys.Stocked (n : Nat) (s : Phys) : Prop where
  enough : n ≤ s.supply.length
  nodup : s.supply.Nodup
  fresh : ∀ f ∈ s.supply, f ∉ s.live

namespace Phys.Stocked

variable {n k : Nat} {s s' : Phys}

lemma mono (h : s.Stocked n) (hk : k ≤ n) : s.Stocked k :=
  ⟨hk.trans h.enough, h.nodup, h.fresh⟩

lemma of_same (h : s.Stocked n) (hsupply : s'.supply = s.supply) (hlive : s'.live = s.live) :
    s'.Stocked n := by
  refine ⟨?_, ?_, ?_⟩
  · rw [hsupply]
    exact h.enough
  · rw [hsupply]
    exact h.nodup
  · rw [hsupply, hlive]
    exact h.fresh

lemma shrinks (h : s.Stocked n) (hs : s.Shrinks s') : s'.Stocked n := by
  refine ⟨?_, ?_, ?_⟩
  · rw [hs.supply]
    exact h.enough
  · rw [hs.supply]
    exact h.nodup
  · rw [hs.supply]
    exact fun f hf hlive => h.fresh f hf (hs.live hlive)

lemma alloc (h : s.Stocked (n + 1)) : ∃ g s', s.alloc = some (g, s') ∧ s'.Stocked n := by
  cases hsupply : s.supply with
  | nil =>
    have hlen := h.enough
    rw [hsupply] at hlen
    exact absurd hlen (Nat.not_succ_le_zero n)
  | cons f rest =>
    have hnodup : f ∉ rest ∧ rest.Nodup := by simpa [hsupply] using h.nodup
    have hf : f ∉ s.live := h.fresh f (by simp [hsupply])
    refine ⟨f, { s with supply := rest, live := insert f s.live }, ?_, ?_, hnodup.2, ?_⟩
    · simp [Phys.alloc, hsupply, hf]
    · have hlen := h.enough
      rw [hsupply, length_cons] at hlen
      exact Nat.le_of_succ_le_succ hlen
    · intro x hx
      rw [Finset.mem_insert, not_or]
      refine ⟨?_, h.fresh x (by simp [hsupply, hx])⟩
      rintro rfl
      exact hnodup.1 hx

end Phys.Stocked

section Map

variable {n : Nat} {s : Phys}

lemma ensureTable_defined (f : Frame) (i : Index) (h : s.Stocked (n + 1)) :
    ∃ g s', ensureTable f i s = some (g, s') ∧ s'.Stocked n := by
  by_cases hp : present (s.tables f i) = true
  · exact ⟨getFrame (s.tables f i), s.touch f, by simp [ensureTable, hp],
      (h.mono (Nat.le_succ n)).of_same rfl rfl⟩
  · have htouched : (s.touch f).Stocked (n + 1) := h.of_same rfl rfl
    rcases htouched.alloc with ⟨g, s₁, ha, h₁⟩
    exact ⟨getFrame (tableEntry g), (s₁.clear g).write f i (tableEntry g),
      by simp [ensureTable, hp, ha], h₁.of_same rfl rfl⟩

lemma mapPage_defined (root : Frame) (phys virt flags : BitVec 64) (cache : CacheType)
    (h : s.Stocked (n + 3)) :
    ∃ s', mapPage root phys virt flags cache s = some s' ∧ s'.Stocked n := by
  rcases ensureTable_defined root (pml4Index virt) h with ⟨pdpt, s₁, he₁, h₁⟩
  rcases ensureTable_defined pdpt (pdptIndex virt) h₁ with ⟨pd, s₂, he₂, h₂⟩
  rcases ensureTable_defined pd (pdIndex virt) h₂ with ⟨pt, s₃, he₃, h₃⟩
  exact ⟨s₃.write pt (ptIndex virt) (pageEntry phys flags cache), by simp [mapPage, he₁, he₂, he₃],
    h₃.of_same rfl rfl⟩

end Map

section Clone

variable {k n : Nat} {s : Phys}

lemma forEach_defined {body : Index → Phys → Option Phys}
    (hbody : ∀ i n t, Phys.Stocked (n + k) t → ∃ t', body i t = some t' ∧ t'.Stocked n)
    {indices : List Index} (h : s.Stocked (n + indices.length * k)) :
    ∃ s', forEach body indices s = some s' ∧ s'.Stocked n := by
  induction indices generalizing n s with
  | nil => exact ⟨s, rfl, h.mono (Nat.le_add_right n _)⟩
  | cons i indices ih =>
    have hcost : n + (i :: indices).length * k = n + indices.length * k + k := by
      rw [length_cons, Nat.succ_mul, Nat.add_assoc]
    rcases hbody i _ s (hcost ▸ h) with ⟨t, hb, ht⟩
    rcases ih ht with ⟨s', hloop, hs'⟩
    exact ⟨s', by simp [forEach, hb, hloop], hs'⟩

def Returns (k : Nat) (clone : Frame → Phys → Option (Frame × Phys)) : Prop :=
  ∀ f n s, Phys.Stocked (n + k) s → ∃ g s', clone f s = some (g, s') ∧ s'.Stocked n

lemma cloneEntry_defined {clone : Frame → Phys → Option (Frame × Phys)} (hclone : Returns k clone)
    (source target : Frame) (i : Index) (n : Nat) (s : Phys) (h : s.Stocked (n + k)) :
    ∃ s', cloneEntry clone source target i s = some s' ∧ s'.Stocked n := by
  have htouched : (s.touch source).Stocked (n + k) := h.of_same rfl rfl
  have hrest := htouched.mono (Nat.le_add_right n k)
  by_cases hp : present (getFlags (s.tables source i)) = true
  · by_cases hhuge : huge (getFlags (s.tables source i)) = true
    · exact ⟨(s.touch source).write target i (s.tables source i), by simp [cloneEntry, hp, hhuge],
        hrest.of_same rfl rfl⟩
    · rcases hclone (getFrame (s.tables source i)) n _ htouched with ⟨g, s₁, hcl, h₁⟩
      refine ⟨s₁.write target i
        (setFlags (setFrame 0#64 g.1) (getFlags (s.tables source i))), ?_, h₁.of_same rfl rfl⟩
      simp [cloneEntry, hp, hhuge, hcl]
  · exact ⟨s.touch source, by simp [cloneEntry, hp], hrest⟩

lemma cloneTable_returns {body : Frame → Frame → Index → Phys → Option Phys}
    (hbody : ∀ f g i n t, Phys.Stocked (n + k) t → ∃ t', body f g i t = some t' ∧ t'.Stocked n) :
    Returns (512 * k + 1) fun f =>
      cloneTable fun new => forEach (body f new) (List.finRange 512) := by
  intro f n s h
  rcases h.alloc with ⟨g, s₁, ha, h₁⟩
  have hcleared : (s₁.clear g).Stocked (n + (List.finRange 512).length * k) := by
    rw [length_finRange]
    exact h₁.of_same rfl rfl
  rcases forEach_defined (hbody f g) hcleared with ⟨s₂, hloop, h₂⟩
  exact ⟨g, s₂, by simp [cloneTable, ha, hloop], h₂⟩

lemma clonePt_returns : Returns 1 clonePt :=
  cloneTable_returns (k := 0) fun f g i _ t ht => ⟨copyEntry f g i t, rfl, ht.of_same rfl rfl⟩

lemma clonePd_returns : Returns 513 clonePd :=
  cloneTable_returns (cloneEntry_defined clonePt_returns)

lemma clonePdpt_returns : Returns 262657 clonePdpt :=
  cloneTable_returns (cloneEntry_defined clonePd_returns)

/-- One frame for the root, and for each of its entries a whole tree. -/
def cloneFrames : Nat := 512 * 262657 + 1

/-- With enough frames in stock a clone succeeds. -/
lemma clonePagingInfo_defined (source : Frame) (h : s.Stocked (n + cloneFrames)) :
    ∃ r s', clonePagingInfo source none s = some (r, s') ∧ s'.Stocked n := by
  have h' : s.Stocked (n + 512 * 262657 + 1) := h
  rcases h'.alloc with ⟨r, s₁, ha, h₁⟩
  have hinit : init none (deinit none s) = some (r, s₁.clear r) := by simp [init, deinit, ha]
  have hlen : lowerHalf.length ≤ 512 := by
    simpa [lowerHalf] using
      length_filter_le (fun i : Index => decide (i.val < 256)) (List.finRange 512)
  have hall : (s₁.clear r).Stocked (n + 512 * 262657) := h₁.of_same rfl rfl
  have hcleared : (s₁.clear r).Stocked (n + lowerHalf.length * 262657) :=
    hall.mono (Nat.add_le_add_left (Nat.mul_le_mul_right _ hlen) n)
  rcases forEach_defined (cloneEntry_defined clonePdpt_returns source r) hcleared with
    ⟨s₂, hlower, h₂⟩
  have hcopy : ∀ i n t, Phys.Stocked (n + 0) t →
      ∃ t', some (copyEntry source r i t) = some t' ∧ t'.Stocked n :=
    fun i _ t ht => ⟨copyEntry source r i t, rfl, ht.of_same rfl rfl⟩
  have hrest : s₂.Stocked (n + upperHalf.length * 0) := by
    rw [Nat.mul_zero]
    exact h₂
  rcases forEach_defined hcopy hrest with ⟨s₃, hupper, h₃⟩
  exact ⟨r, s₃, by simp [clonePagingInfo, hinit, hlower, hupper], h₃⟩

end Clone

namespace Machine

variable {m : Machine} {c d : Ctx} {r : Frame} {n : Nat}

lemma init_defined (hroot : m.roots c = none) (h : m.phys.Stocked (n + 1)) :
    ∃ r m', m.step (.init c) = some m' ∧ m'.phys.Stocked n ∧
      m'.roots = Function.update m.roots c (some r) ∧ m'.retired = m.retired.erase c := by
  rcases h.alloc with ⟨r, s, ha, hs⟩
  have hinit : Paging.init (m.roots c) m.phys = some (r, s.clear r) := by
    simp [Paging.init, Paging.deinit, hroot, ha]
  exact ⟨r, ⟨s.clear r, Function.update m.roots c (some r), m.retired.erase c⟩,
    by simp [step, hinit], hs.of_same rfl rfl, rfl, rfl⟩

lemma mapPage_step (phys virt flags : BitVec 64) (cache : CacheType) (hroot : m.roots c = some r)
    (h : m.phys.Stocked (n + 3)) :
    ∃ m', m.step (.mapPage c phys virt flags cache) = some m' ∧ m'.phys.Stocked n ∧
      m'.roots = m.roots ∧ m'.retired = m.retired := by
  rcases mapPage_defined r phys virt flags cache h with ⟨s, hmap, hs⟩
  exact ⟨{ m with phys := s }, by simp [step, hroot, hmap], hs, rfl, rfl⟩

lemma clonePagingInfo_step (hroot : m.roots c = some r) (hne : c ≠ d) (htarget : m.roots d = none)
    (h : m.phys.Stocked (n + cloneFrames)) :
    ∃ new m', m.step (.clonePagingInfo c d) = some m' ∧ m'.phys.Stocked n ∧
      m'.roots = Function.update m.roots d (some new) ∧ m'.retired = m.retired.erase d := by
  rcases clonePagingInfo_defined r h with ⟨new, s, hclone, hs⟩
  exact ⟨new, ⟨s, Function.update m.roots d (some new), m.retired.erase d⟩,
    by simp [step, hroot, hne, htarget, hclone], hs, rfl, rfl⟩

end Machine

/-! ## A memory with many frames -/

def frameNumber (k : Nat) : Frame :=
  getFrame (BitVec.ofNat 64 k <<< 12)

lemma frameNumber_getLsbD (k : Nat) {j : Nat} (hj : j < 40) :
    (frameNumber k).1.getLsbD (j + 12) = k.testBit j := by
  have hn : j + 12 < 64 := by omega
  have hmask : frameMask.getLsbD (j + 12) = true := by
    rw [frameMask_getLsbD hn]
    exact decide_eq_true ⟨Nat.le_add_left 12 j, by omega⟩
  show ((BitVec.ofNat 64 k <<< 12) &&& frameMask).getLsbD (j + 12) = k.testBit j
  rw [BitVec.getLsbD_and, hmask, Bool.and_true, BitVec.getLsbD_shiftLeft, BitVec.getLsbD_ofNat]
  simp [hn, Nat.lt_of_le_of_lt (Nat.le_add_right j 12) hn]

lemma frameNumber_inj {k k' : Nat} (hk : k < 2 ^ 40) (hk' : k' < 2 ^ 40)
    (h : frameNumber k = frameNumber k') : k = k' := by
  refine Nat.eq_of_testBit_eq fun j => ?_
  by_cases hj : j < 40
  · rw [← frameNumber_getLsbD k hj, ← frameNumber_getLsbD k' hj, h]
  · -- above bit 40 there is nothing in either number
    have hpow : 2 ^ 40 ≤ 2 ^ j := Nat.pow_le_pow_right Nat.two_pos (Nat.le_of_not_lt hj)
    rw [Nat.testBit_lt_two_pow (Nat.lt_of_lt_of_le hk hpow),
      Nat.testBit_lt_two_pow (Nat.lt_of_lt_of_le hk' hpow)]

def Machine.fresh (n : Nat) : Machine :=
  Machine.start (fun _ _ => 0#64) ((List.range n).map frameNumber)

lemma Machine.fresh_stocked {n : Nat} (hn : n ≤ 2 ^ 40) : (Machine.fresh n).phys.Stocked n := by
  have hsupply : (Machine.fresh n).phys.supply = (List.range n).map frameNumber := rfl
  refine ⟨?_, ?_, fun f _ => Finset.notMem_empty f⟩
  · rw [hsupply, length_map, length_range]
  · refine List.Nodup.map_on ?_ nodup_range
    intro k hk k' hk' heq
    exact frameNumber_inj (Nat.lt_of_lt_of_le (mem_range.1 hk) hn)
      (Nat.lt_of_lt_of_le (mem_range.1 hk') hn) heq

lemma Machine.fresh_foreign {n k : Nat} (hn : n ≤ k) (hk : k < 2 ^ 40) :
    frameNumber k ∉ (Machine.fresh n).phys.supply := by
  intro hin
  have hin' : frameNumber k ∈ (List.range n).map frameNumber := hin
  rcases mem_map.1 hin' with ⟨k', hk', heq⟩
  have hlt : k' < k := Nat.lt_of_lt_of_le (mem_range.1 hk') hn
  exact absurd (frameNumber_inj (Nat.lt_trans hlt hk) hk heq) (Nat.ne_of_lt hlt)

end SigmaOS.Arch.Paging
