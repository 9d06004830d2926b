import Mathlib.Tactic.Lemma

/-!
# Lib.FirstFit — looking for a run of free positions

A scan over positions that keeps the length of the run of free positions just behind it, and stops
when the run is long enough.  `Scanned` says what it finds: the first run that is long enough, or
else the run that the scan ends in, which may be empty.
-/

namespace SigmaOS.Lib

def FreeFrom (free : Nat → Prop) (k n : Nat) : Prop :=
  ∀ j, k ≤ j → j < k + n → free j

/-- The scan over the next `n` positions from `p` on, with `count` free positions just behind: the
start and the length of the run it ends with. -/
def scanFit (free : Nat → Prop) [DecidablePred free] (need : Nat) : Nat → Nat → Nat → Nat × Nat
  | 0, p, count => (p - count, count)
  | n + 1, p, count =>
    if free p then
      if count + 1 = need then
        (p - count, need)
      else
        scanFit free need n (p + 1) (count + 1)
    else
      scanFit free need n (p + 1) 0

/-- No run of `need` free positions ends at or before `p`. -/
def NoRun (free : Nat → Prop) (need p : Nat) : Prop :=
  ∀ k, k + need ≤ p → ¬ FreeFrom free k need

/-- The positions from `k` to `p` are the longest free run that ends at `p`. -/
structure Trailing (free : Nat → Prop) (k p : Nat) : Prop where
  le : k ≤ p
  clear : FreeFrom free k (p - k)
  longest : ∀ j, j ≤ p → FreeFrom free j (p - j) → k ≤ j

/-- What a scan up to `bound` ends with: the first run that is long enough, or the last run. -/
inductive Scanned (free : Nat → Prop) (need bound : Nat) : Nat × Nat → Prop
  | found {k : Nat} (inside : k + need ≤ bound) (fits : FreeFrom free k need)
      (first : ∀ j, FreeFrom free j need → k ≤ j) : Scanned free need bound (k, need)
  | ended {k c : Nat} (atEnd : k + c = bound) (short : c < need) (noRun : NoRun free need bound)
      (last : Trailing free k bound) : Scanned free need bound (k, c)

section Scan

variable {free : Nat → Prop} {need k p : Nat}

lemma trailing_zero : Trailing free 0 0 where
  le := Nat.le_refl 0
  clear := fun j _ hj => absurd hj (Nat.not_lt_zero j)
  longest := fun j _ _ => Nat.zero_le j

lemma Trailing.grow (h : Trailing free k p) (hp : free p) : Trailing free k (p + 1) where
  le := Nat.le_succ_of_le h.le
  clear := by
    intro j hkj hj
    by_cases hjp : j = p
    · rw [hjp]
      exact hp
    · exact h.clear j hkj (by omega)
  longest := by
    intro j hj hfree
    by_cases hjp : j = p + 1
    · rw [hjp]
      exact Nat.le_succ_of_le h.le
    · exact h.longest j (by omega) fun i hi hlt => hfree i hi (by omega)

lemma trailing_reset (hp : ¬ free p) : Trailing free (p + 1) (p + 1) where
  le := Nat.le_refl _
  clear := fun j hj hlt => absurd hj (by omega)
  longest := by
    intro j hj hfree
    -- a run from an earlier position would contain `p`
    refine Nat.le_of_not_lt fun hlt => ?_
    exact hp (hfree p (by omega) (by omega))

lemma NoRun.succ (h : NoRun free need p)
    (hlast : ∀ j, j + need = p + 1 → ¬ FreeFrom free j need) : NoRun free need (p + 1) := by
  intro j hj
  by_cases heq : j + need = p + 1
  · exact hlast j heq
  · exact h j (by omega)

/-- The scan stops at the first run that is long enough, or at the end. -/
lemma scanFit_scanned [DecidablePred free] (hneed : 0 < need) (n p k count : Nat)
    (hp : k + count = p) (hcount : count < need) (hnone : NoRun free need p)
    (htrail : Trailing free k p) : Scanned free need (p + n) (scanFit free need n p count) := by
  induction n generalizing p k count with
  | zero =>
    have hk : p - count = k := by omega
    rw [scanFit, hk]
    exact .ended hp hcount hnone htrail
  | succ n ih =>
    have hk : p - count = k := by omega
    have hbound : p + (n + 1) = p + 1 + n := by omega
    by_cases hfree : free p
    · have hgrown := htrail.grow hfree
      have hstart : ∀ j, j + need = p + 1 → FreeFrom free j need → k ≤ j := by
        intro j hj hrun
        exact hgrown.longest j (by omega) fun i hi hlt => hrun i hi (by omega)
      by_cases hlast : count + 1 = need
      · rw [scanFit, if_pos hfree, if_pos hlast, hk]
        refine .found (by omega) (fun j hkj hj => hgrown.clear j hkj (by omega)) ?_
        intro j hrun
        refine Nat.le_of_not_lt fun hlt => ?_
        exact hnone j (by omega) hrun
      · rw [scanFit, if_pos hfree, if_neg hlast, hbound]
        refine ih (p + 1) k (count + 1) (by omega) (by omega) (hnone.succ ?_) hgrown
        intro j hj hrun
        have hkj := hstart j hj hrun
        omega
    · rw [scanFit, if_neg hfree, hbound]
      refine ih (p + 1) (p + 1) 0 (by omega) hneed (hnone.succ ?_) (trailing_reset hfree)
      intro j hj hrun
      exact hfree (hrun p (by omega) (by omega))

lemma scanFit_zero [DecidablePred free] (hneed : 0 < need) (n : Nat) :
    Scanned free need n (scanFit free need n 0 0) := by
  have hnone : NoRun free need 0 := fun j hj => absurd hj (by omega)
  have hscan := scanFit_scanned hneed n 0 0 0 rfl hneed hnone trailing_zero
  rwa [Nat.zero_add] at hscan

end Scan

end SigmaOS.Lib
