import SigmaOS.Proc.RangeSearch

/-!
# Proc.VmMapRange — the range that `vm_map` maps

The range starts at the hint.  Without one `map_anonymous` asks `get_free_range` for a run of pages
without a translation in the window from `mmap_bottom` to `mmap_top`; where there is no such run the
answer is not null, and the range goes over the end of the window, which is the end of the lower half.
-/

namespace SigmaOS.Proc.Process

open Lib Arch.Paging
open Types (divCeil)

/-! ## The window -/

def windowPages : Nat := 0x7FF700000

def windowPage (k : Nat) : BitVec 64 :=
  mmapBottom + BitVec.ofNat 64 (4096 * k)

lemma windowPages_eq : (divCeil (mmapTop - mmapBottom) 4096#64).toNat = windowPages := by
  decide

lemma windowPage_toNat {k : Nat} (hk : k ≤ windowPages) :
    (windowPage k).toNat = 0x900000000 + 4096 * k := by
  have hwindow : windowPages = 0x7FF700000 := rfl
  have hbottom : mmapBottom.toNat = 0x900000000 := by decide
  exact pageFrom_toNat (by omega)

/-- From page `k` on there are `n` pages without a translation. -/
def FreeRun (m : Tables Frame Index (BitVec 64)) (root : Frame) (k n : Nat) : Prop :=
  k + n ≤ windowPages ∧
    ∀ j, k ≤ j → j < k + n → getPhys m root (windowPage j) = BitVec.allOnes 64

section Search

variable {m : Tables Frame Index (BitVec 64)} {root : Frame} {size virt : BitVec 64}

/-- The answer of the search: the first run that is long enough, or else the last one. -/
lemma getFreeRange_cases (m : Tables Frame Index (BitVec 64)) (root : Frame)
    (hpos : 0 < (divCeil size 4096#64).toNat) :
    (∃ k, FreeRun m root k (divCeil size 4096#64).toNat ∧
      (∀ j, FreeRun m root j (divCeil size 4096#64).toNat → k ≤ j) ∧
      getFreeRange m root mmapBottom mmapTop size = windowPage k) ∨
    ((∀ k, ¬ FreeRun m root k (divCeil size 4096#64).toNat) ∧
      ∃ k, Trailing (Unmapped m root mmapBottom) k windowPages ∧
        getFreeRange m root mmapBottom mmapTop size =
          rangeStart mmapBottom (k, windowPages - k)) := by
  have hneed : (divCeil size 4096#64).toNat = pagesFor size := by
    rw [divCeil_block, pagesFor_eq]
    rw [divCeil_block] at hpos
    omega
  rw [hneed] at hpos ⊢
  rw [getFreeRange_scan (by decide) windowPages_eq (by decide)]
  have hscan := @scanFit_zero (Unmapped m root mmapBottom) _ _ hpos windowPages
  generalize scanFit (Unmapped m root mmapBottom) (pagesFor size) windowPages 0 0 = run at hscan ⊢
  cases hscan with
  | @found k inside fits first =>
    exact .inl ⟨k, ⟨inside, fits⟩, fun j hj => first j hj.2, if_neg (Nat.ne_of_gt hpos)⟩
  | @ended k count atEnd _ noRun last =>
    have hcount : count = windowPages - k := by omega
    exact .inr ⟨fun j hj => noRun j hj.1 hj.2, k, last, by rw [hcount]⟩

lemma getFreeRange_fits {k : Nat} (hpos : 0 < (divCeil size 4096#64).toNat)
    (hroom : FreeRun m root k (divCeil size 4096#64).toNat) :
    ∃ k', k' ≤ k ∧ FreeRun m root k' (divCeil size 4096#64).toNat ∧
      getFreeRange m root mmapBottom mmapTop size = windowPage k' := by
  rcases getFreeRange_cases m root hpos with ⟨k', hrun, hfirst, hrange⟩ | ⟨hnone, _⟩
  · exact ⟨k', hfirst k hroom, hrun, hrange⟩
  · exact absurd hroom (hnone k)

end Search

/-! ## The upper half -/

section Upper

variable {owner : Frame → Option Role} {c : Ctx} {root : Frame} {m m' : Mem}

/-- The start of a range, found or given. -/
lemma mapBase_reaches (t : Tables Frame Index (BitVec 64)) (root : Frame) {size virt : BitVec 64}
    (hptr : ptrIsUserland virt = true) (hpos : 0 < (divCeil size 4096#64).toNat) :
    Reaches (mapBase t root size virt) ∧ mapBase t root size virt ≠ 0#64 := by
  by_cases hnull : virt = 0#64
  swap
  · rw [mapBase, if_neg hnull]
    exact ⟨.inl (BitVec.le_def.1 (of_decide_eq_true hptr)), hnull⟩
  have hpage : ∀ k ≤ windowPages, Reaches (windowPage k) ∧ windowPage k ≠ 0#64 := by
    intro k hk
    have hwindow : windowPages = 0x7FF700000 := rfl
    have hnat := windowPage_toNat hk
    refine ⟨.inl (by omega), fun hzero => ?_⟩
    rw [hzero] at hnat
    exact absurd hnat (by simp; omega)
  rw [mapBase, if_pos hnull]
  rcases getFreeRange_cases t root hpos with ⟨k, hrun, _, hrange⟩ | ⟨_, k, hlast, hrange⟩
  · rw [hrange]
    exact hpage k (Nat.le_trans (Nat.le_add_right _ _) hrun.1)
  · rw [hrange, rangeStart]
    split
    · exact ⟨.inr rfl, by decide⟩
    · exact hpage k hlast.le

variable {privilege : Privilege} {virt phys size : BitVec 64} {prot flags : BitVec 32}
  {out : Outcome}

end Upper

def sampleMem : Mem :=
  { phys :=
      { tables := fun _ _ => 0#64
        supply := [frameAt 2, frameAt 3, frameAt 4, frameAt 5, frameAt 6, frameAt 7]
        live := {frameAt 1}
        misuse := false }
    frames := [] }

def sampleOwner (f : Frame) : Option Role :=
  if f = frameAt 1 then some (.own 0 []) else none

lemma sampleMem_tracks : sampleMem.phys.Tracks roleNext sampleOwner := by
  refine ⟨fun _ _ _ _ _ _ => .inl rfl, ?_, rfl⟩
  intro f l hf
  by_cases hroot : f = frameAt 1
  · rw [hroot]
    exact Finset.mem_singleton_self _
  · simp [sampleOwner, hroot] at hf

end SigmaOS.Proc.Process
