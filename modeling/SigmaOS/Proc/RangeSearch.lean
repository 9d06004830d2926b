import Mathlib.Algebra.Order.Floor.Div
import SigmaOS.Lib.FirstFit
import SigmaOS.Proc.VmMap

/-!
# Proc.RangeSearch — the search for free pages

`context::get_free_range` is the scan of `Lib.FirstFit` over the pages between its two bounds
(`getFreeRange_eq`): it answers with the start of the first run of unmapped pages that is long
enough.
-/

namespace SigmaOS.Proc.Process

open Lib Arch.Paging BitVec
open Types (divCeil)

/-! ## Pages from a base -/

/-- The pages that hold `size` bytes, as a number; `div_ceil` agrees where its sum fits into 64 bits. -/
def pagesFor (size : BitVec 64) : Nat :=
  size.toNat ⌈/⌉ 4096

lemma pagesFor_eq (size : BitVec 64) : pagesFor size = (size.toNat + 4095) / 4096 :=
  Nat.ceilDiv_eq_add_pred_div size.toNat 4096

def pagesBetween (base stop : BitVec 64) : Nat :=
  (stop.toNat - base.toNat) / 4096

def Unmapped (m : Tables Frame Index (BitVec 64)) (root : Frame) (base : BitVec 64) (k : Nat) :
    Prop :=
  getPhys m root (pageFrom base k) = BitVec.allOnes 64

instance (m : Tables Frame Index (BitVec 64)) (root : Frame) (base : BitVec 64) :
    DecidablePred (Unmapped m root base) :=
  fun k => inferInstanceAs (Decidable (getPhys m root (pageFrom base k) = BitVec.allOnes 64))

section Pages

variable {base stop size : BitVec 64} {k : Nat}

lemma pageFrom_toNat (h : base.toNat + 4096 * k < 2 ^ 64) :
    (pageFrom base k).toNat = base.toNat + 4096 * k := by
  rw [pageFrom, toNat_add, toNat_ofNat, Nat.add_mod_mod, Nat.mod_eq_of_lt h]

lemma pageFrom_mod (h : base.toNat % 4096 = 0) : (pageFrom base k).toNat % 4096 = 0 := by
  rw [pageFrom, toNat_add, toNat_ofNat]
  omega

lemma pageFrom_ne_allOnes (h : base.toNat % 4096 = 0) : pageFrom base k ≠ BitVec.allOnes 64 := by
  intro heq
  have hmod := pageFrom_mod (k := k) h
  rw [heq] at hmod
  exact absurd hmod (by decide)

/-- Where the number of pages does not fit into 64 bits, no count of pages ever reaches it. -/
lemma ofNat_eq_divCeil_iff {c : Nat} (hpos : 0 < c) (hc : c < 2 ^ 52) :
    BitVec.ofNat 64 c = divCeil size 4096#64 ↔ c = pagesFor size := by
  rw [← toNat_inj, divCeil_block, toNat_ofNat, pagesFor_eq]
  omega

lemma divCeil_sub_toNat (hbase : base.toNat % 4096 = 0) (hstop : stop.toNat % 4096 = 0)
    (hlt : base.toNat < stop.toNat) :
    (divCeil (stop - base) 4096#64).toNat = pagesBetween base stop := by
  have hsub : (stop - base).toNat = stop.toNat - base.toNat :=
    toNat_sub_of_le (le_def.2 (Nat.le_of_lt hlt))
  rw [divCeil_block, hsub, pagesBetween]
  omega

lemma pagesBetween_lt (hstop : stop.toNat % 4096 = 0) : pagesBetween base stop < 2 ^ 52 := by
  rw [pagesBetween]
  omega

end Pages

def rangeStart (base : BitVec 64) (run : Nat × Nat) : BitVec 64 :=
  if run.2 = 0 then BitVec.allOnes 64 else pageFrom base run.1

section Search

variable {m : Tables Frame Index (BitVec 64)} {root : Frame} {base stop size : BitVec 64}

/-- The loop over addresses is the scan over page numbers. -/
lemma freeRangeLoop_eq (haligned : base.toNat % 4096 = 0) {n p count : Nat} (hcount : count ≤ p)
    (hroom : p + n < 2 ^ 52) :
    freeRangeLoop m root (divCeil size 4096#64) n (pageFrom base p) (rangeStart base (p - count, count))
        (BitVec.ofNat 64 count) =
      rangeStart base (scanFit (Unmapped m root base) (pagesFor size) n p count) := by
  induction n generalizing p count with
  | zero => rfl
  | succ n ih =>
    have hnext : pageFrom base p + 4096#64 = pageFrom base (p + 1) := (pageFrom_add base p 1).symm
    by_cases hfree : Unmapped m root base p
    · have hfree' : getPhys m root (pageFrom base p) = BitVec.allOnes 64 := hfree
      -- the run behind grows by this page, or begins with it
      have hgrown : (if rangeStart base (p - count, count) = BitVec.allOnes 64 then
          pageFrom base p else rangeStart base (p - count, count)) =
            rangeStart base (p + 1 - (count + 1), count + 1) := by
        have hstart : p + 1 - (count + 1) = p - count := by omega
        rw [hstart]
        by_cases hzero : count = 0
        · simp [rangeStart, hzero]
        · have hrun : rangeStart base (p - count, count) = pageFrom base (p - count) := if_neg hzero
          rw [hrun, if_neg (pageFrom_ne_allOnes haligned)]
          rfl
      have hsucc : BitVec.ofNat 64 count + 1#64 = BitVec.ofNat 64 (count + 1) :=
        (ofNat_add count 1).symm
      have hlast : BitVec.ofNat 64 (count + 1) = divCeil size 4096#64 ↔ count + 1 = pagesFor size :=
        ofNat_eq_divCeil_iff (Nat.succ_pos count) (by omega)
      rw [freeRangeLoop, if_pos hfree', scanFit, if_pos hfree]
      simp only [hgrown, hsucc, hlast, hnext]
      by_cases hdone : count + 1 = pagesFor size
      · rw [if_pos hdone, if_pos hdone, ← hdone]
        simp [rangeStart]
      · rw [if_neg hdone, if_neg hdone]
        exact ih (by omega) (by omega)
    · have hfree' : getPhys m root (pageFrom base p) ≠ BitVec.allOnes 64 := hfree
      rw [freeRangeLoop, if_neg hfree', scanFit, if_neg hfree, hnext]
      exact ih (Nat.zero_le (p + 1)) (by omega)

lemma getFreeRange_scan {n : Nat} (hbase : base.toNat % 4096 = 0)
    (hn : (divCeil (stop - base) 4096#64).toNat = n) (hroom : n < 2 ^ 52) :
    getFreeRange m root base stop size =
      rangeStart base (scanFit (Unmapped m root base) (pagesFor size) n 0 0) := by
  rw [← Nat.zero_add n] at hroom
  rw [getFreeRange, hn, ← freeRangeLoop_eq hbase (Nat.le_refl 0) hroom, pageFrom_zero]
  rfl

lemma getFreeRange_eq (hbase : base.toNat % 4096 = 0) (hstop : stop.toNat % 4096 = 0)
    (hlt : base.toNat < stop.toNat) :
    getFreeRange m root base stop size =
      rangeStart base
        (scanFit (Unmapped m root base) (pagesFor size) (pagesBetween base stop) 0 0) :=
  getFreeRange_scan hbase (divCeil_sub_toNat hbase hstop hlt) (pagesBetween_lt hstop)

end Search

/-! ## The answer -/

/-- `n` pages from `a` on lie between the bounds and are unmapped. -/
structure UnmappedRun (m : Tables Frame Index (BitVec 64)) (root : Frame) (base stop : BitVec 64)
    (n : Nat) (a : BitVec 64) : Prop where
  aligned : a.toNat % 4096 = 0
  above : base.toNat ≤ a.toNat
  below : a.toNat + 4096 * n ≤ stop.toNat
  unmapped : ∀ j < n, lookup m root (a + BitVec.ofNat 64 (4096 * j)) = none

/-- The answer is a run of the length that is needed, or null, which the caller takes for a failure;
and it is null only if there is no such run. -/
def RangeAnswer (m : Tables Frame Index (BitVec 64)) (root : Frame) (base stop size : BitVec 64)
    (a : BitVec 64) : Prop :=
  (UnmappedRun m root base stop (pagesFor size) a ∨ a = 0#64) ∧
    (a = 0#64 → ∀ a', ¬ UnmappedRun m root base stop (pagesFor size) a')

section Answer

variable {m : Tables Frame Index (BitVec 64)} {root : Frame} {base stop size a : BitVec 64} {n : Nat}

lemma getPhys_eq_allOnes_iff {virt : BitVec 64} :
    getPhys m root virt = BitVec.allOnes 64 ↔ lookup m root virt = none := by
  constructor
  · intro hphys
    cases hlookup : lookup m root virt with
    | none => rfl
    | some entry =>
      rcases lookup_eq_some.1 hlookup with ⟨pt, hwalk, hentry, hpresent⟩
      exact absurd hphys (getPhys_ne_allOnes.2 ⟨pt, hwalk, hentry ▸ hpresent⟩)
  · intro hlookup
    rw [getPhys, hlookup]

/-- Runs of addresses are runs of page numbers. -/
lemma unmappedRun_iff (hbase : base.toNat % 4096 = 0) (hstop : stop.toNat % 4096 = 0)
    (hlt : base.toNat < stop.toNat) :
    UnmappedRun m root base stop n a ↔
      ∃ k, a = pageFrom base k ∧ k + n ≤ pagesBetween base stop ∧
        FreeFrom (Unmapped m root base) k n := by
  constructor
  · rintro ⟨haligned, habove, hbelow, hunmapped⟩
    obtain ⟨k, hk⟩ : ∃ k, a.toNat = base.toNat + 4096 * k :=
      ⟨(a.toNat - base.toNat) / 4096, by omega⟩
    have ha : a = pageFrom base k := by
      apply eq_of_toNat_eq
      rw [pageFrom_toNat (by omega), hk]
    refine ⟨k, ha, ?_, ?_⟩
    · rw [pagesBetween]
      omega
    · intro j hkj hj
      obtain ⟨i, rfl⟩ : ∃ i, j = k + i := ⟨j - k, by omega⟩
      rw [Unmapped, pageFrom_add, ← ha, getPhys_eq_allOnes_iff]
      exact hunmapped i (by omega)
  · rintro ⟨k, rfl, hinside, hfree⟩
    rw [pagesBetween] at hinside
    have hk : (pageFrom base k).toNat = base.toNat + 4096 * k := pageFrom_toNat (by omega)
    refine ⟨pageFrom_mod hbase, by omega, by omega, ?_⟩
    intro j hj
    rw [← pageFrom_add, ← getPhys_eq_allOnes_iff]
    exact hfree (k + j) (by omega) (by omega)

lemma pageFrom_eq_zero_iff {k : Nat} (hk : k ≤ pagesBetween base stop) :
    pageFrom base k = 0#64 ↔ base = 0#64 ∧ k = 0 := by
  rw [pagesBetween] at hk
  constructor
  · intro hzero
    have hnat := congrArg BitVec.toNat hzero
    rw [pageFrom_toNat (by omega)] at hnat
    change base.toNat + 4096 * k = 0 at hnat
    exact ⟨eq_of_toNat_eq (show base.toNat = 0 by omega), by omega⟩
  · rintro ⟨rfl, rfl⟩
    rfl

section

variable (hbase : base.toNat % 4096 = 0) (hstop : stop.toNat % 4096 = 0)
  (hlt : base.toNat < stop.toNat)
include hbase hstop hlt

/-- The answer when there is a run. -/
lemma rangeAnswer_found {k : Nat} (inside : k + pagesFor size ≤ pagesBetween base stop)
    (fits : FreeFrom (Unmapped m root base) k (pagesFor size))
    (first : ∀ j, FreeFrom (Unmapped m root base) j (pagesFor size) → k ≤ j) :
    UnmappedRun m root base stop (pagesFor size) (pageFrom base k) ∧
      (RangeAnswer m root base stop size (pageFrom base k) ↔
        ¬ UnmappedRun m root base stop (pagesFor size) 0#64) := by
  have hrun : UnmappedRun m root base stop (pagesFor size) (pageFrom base k) :=
    (unmappedRun_iff hbase hstop hlt).2 ⟨k, rfl, inside, fits⟩
  refine ⟨hrun, ?_⟩
  constructor
  · intro hright hzero
    -- a run at address 0 is the first one
    rcases (unmappedRun_iff hbase hstop hlt).1 hzero with ⟨j, hj, hjinside, hjfree⟩
    have hjzero := (pageFrom_eq_zero_iff (Nat.le_trans (Nat.le_add_right _ _) hjinside)).1 hj.symm
    have hk : k = 0 := Nat.le_zero.1 (hjzero.2 ▸ first j hjfree)
    have hnull : pageFrom base k = 0#64 := by rw [hk, pageFrom_zero, hjzero.1]
    exact hright.2 hnull _ hrun
  · intro hzero
    refine ⟨.inl hrun, ?_⟩
    intro hnull
    exact absurd (hnull ▸ hrun) hzero

/-- The answer when there is none. -/
lemma rangeAnswer_ended {k c : Nat} (atEnd : k + c = pagesBetween base stop)
    (noRun : NoRun (Unmapped m root base) (pagesFor size) (pagesBetween base stop))
    (last : Trailing (Unmapped m root base) k (pagesBetween base stop)) :
    (∀ a, ¬ UnmappedRun m root base stop (pagesFor size) a) ∧
      (RangeAnswer m root base stop size (rangeStart base (k, c)) ↔
        base = 0#64 ∧ UnmappedRun m root base stop (pagesBetween base stop) base) := by
  have hwindow : 0 < pagesBetween base stop := by
    rw [pagesBetween]
    omega
  have hnone : ∀ a, ¬ UnmappedRun m root base stop (pagesFor size) a := by
    intro a hrun
    rcases (unmappedRun_iff hbase hstop hlt).1 hrun with ⟨j, _, hinside, hfree⟩
    exact noRun j hinside hfree
  refine ⟨hnone, ?_⟩
  constructor
  · rintro ⟨hanswer, _⟩
    have hnull := hanswer.resolve_left (hnone _)
    -- the run at the end is not empty and starts at address 0, so it is the whole window
    by_cases hc : c = 0
    · rw [rangeStart, if_pos hc] at hnull
      exact absurd hnull (by decide)
    · rw [rangeStart, if_neg hc] at hnull
      rcases (pageFrom_eq_zero_iff last.le).1 hnull with ⟨hzero, hk⟩
      refine ⟨hzero, (unmappedRun_iff hbase hstop hlt).2 ⟨0, (pageFrom_zero base).symm, ?_, ?_⟩⟩
      · rw [Nat.zero_add]
      · have hclear := last.clear
        rwa [hk, Nat.sub_zero] at hclear
  · rintro ⟨hzero, hall⟩
    rcases (unmappedRun_iff hbase hstop hlt).1 hall with ⟨j, _, hinside, hfree⟩
    have hj : j = 0 := by omega
    rw [hj] at hfree
    have hk : k = 0 := Nat.le_zero.1 (last.longest 0 (Nat.zero_le _) hfree)
    have hc : c ≠ 0 := by omega
    have hnull : rangeStart base (k, c) = 0#64 := by
      rw [rangeStart, if_neg hc, hk, pageFrom_zero, hzero]
    exact ⟨.inr hnull, fun _ => hnone⟩

end

end Answer

/-- For all page-aligned bounds and every size, the answer of `get_free_range` is right exactly if
there is a run of the length that is needed but none at address 0, or there is none and the whole
window, which starts at address 0, is unmapped. -/
theorem getFreeRange_right_iff (m : Tables Frame Index (BitVec 64)) (root : Frame)
    (base stop size : BitVec 64) (hbase : base.toNat % 4096 = 0) (hstop : stop.toNat % 4096 = 0)
    (hlt : base.toNat < stop.toNat) (hsize : 1 ≤ size.toNat) :
    RangeAnswer m root base stop size (getFreeRange m root base stop size) ↔
      ((∃ a, UnmappedRun m root base stop (pagesFor size) a) ∧
          ¬ UnmappedRun m root base stop (pagesFor size) 0#64) ∨
        ((∀ a, ¬ UnmappedRun m root base stop (pagesFor size) a) ∧ base = 0#64 ∧
          UnmappedRun m root base stop (pagesBetween base stop) base) := by
  have hneed : 0 < pagesFor size := by
    rw [pagesFor_eq]
    omega
  have hscan := @scanFit_zero (Unmapped m root base) _ _ hneed (pagesBetween base stop)
  rw [getFreeRange_eq hbase hstop hlt]
  generalize scanFit (Unmapped m root base) (pagesFor size) (pagesBetween base stop) 0 0 = run
    at hscan ⊢
  cases hscan with
  | @found k inside fits first =>
    rcases rangeAnswer_found hbase hstop hlt inside fits first with ⟨hrun, hright⟩
    have hanswer : rangeStart base (k, pagesFor size) = pageFrom base k :=
      if_neg (Nat.ne_of_gt hneed)
    rw [hanswer, hright]
    constructor
    · exact fun hzero => Or.inl ⟨⟨_, hrun⟩, hzero⟩
    · rintro (⟨_, hzero⟩ | ⟨hnone, _⟩)
      · exact hzero
      · exact absurd hrun (hnone _)
  | ended atEnd _ noRun last =>
    rcases rangeAnswer_ended hbase hstop hlt atEnd noRun last with ⟨hnone, hright⟩
    rw [hright]
    constructor
    · exact fun hwindow => Or.inr ⟨hnone, hwindow⟩
    · rintro (⟨⟨a, hrun⟩, _⟩ | ⟨_, hwindow⟩)
      · exact absurd hrun (hnone a)
      · exact hwindow

/-- Two pages in a window of four that are all unmapped. -/
theorem getFreeRange_right_four :
    RangeAnswer (fun _ _ => 0#64) (frameAt 1) mmapBottom 0x900004000#64 5000#64
      (getFreeRange (fun _ _ => 0#64) (frameAt 1) mmapBottom 0x900004000#64 5000#64) := by
  apply (getFreeRange_right_iff _ _ _ _ _ (by decide) (by decide) (by decide) (by decide)).2
  refine Or.inl ⟨⟨mmapBottom, ⟨by decide, by decide, by decide, ?_⟩⟩, ?_⟩
  · intro j _
    simp [lookup]
  · rintro ⟨_, habove, _, _⟩
    exact absurd habove (by decide)

/-- Where the window ends in the middle of a run, the start of the part that is there is the
answer. -/
theorem getFreeRange_not_right :
    ¬ ∀ (m : Tables Frame Index (BitVec 64)) (root : Frame) (base stop size : BitVec 64),
      base.toNat % 4096 = 0 → stop.toNat % 4096 = 0 → base.toNat < stop.toNat →
        1 ≤ size.toNat →
          RangeAnswer m root base stop size (getFreeRange m root base stop size) := by
  intro hclaim
  have hright := hclaim (fun _ _ => 0#64) (frameAt 1) mmapBottom 0x900001000#64 8192#64 (by decide)
    (by decide) (by decide) (by decide)
  have hanswer : getFreeRange (fun _ _ => 0#64) (frameAt 1) mmapBottom 0x900001000#64 8192#64 =
      mmapBottom := by
    decide
  rw [hanswer] at hright
  rcases hright.1 with hrun | hnull
  · exact absurd hrun.below (by decide)
  · exact absurd hnull (by decide)

end SigmaOS.Proc.Process
