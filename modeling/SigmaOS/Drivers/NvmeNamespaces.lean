import SigmaOS.Lib.Listing

/-!
# Drivers.NvmeNamespaces — the active namespaces of an NVMe controller

`getActiveNamespaces` is `io_controller::get_active_namespaces`: Identify commands with CNS 2 for the
namespace ids 0, 1024, 2048, … below `max_nsid`, each of which fills the region with 1024 ids.  The
counter is a `nsid_t`, so it is taken modulo `2 ^ 32`; `none` says that the loop did not come to its
end within the given number of rounds.

`Active` is the set of active ids as the controller has it, and `Active.identify` its answer as the
NVMe specification has it: the ids above the one of the command, in order, with zeros behind them.
The console output is left out.
-/

namespace SigmaOS.Drivers.Nvme

open Lib.Listing

/-- The loop of `get_active_namespaces`; `identify i` is the region after the command for `i`. -/
def listNamespaces (identify : Nat → List Nat) (maxNsid : Nat) :
    Nat → Nat → List Nat → Option (List Nat)
  | 0, _, _ => none
  | fuel + 1, i, list =>
    if i < maxNsid then
      listNamespaces identify maxNsid fuel ((i + 1024) % 2 ^ 32)
        (list ++ (identify i).filter (· ≠ 0))
    else
      some list

/-- `get_active_namespaces`; `region` says whether `libsigma_get_phys_region` had a region. -/
def getActiveNamespaces (region : Bool) (identify : Nat → List Nat) (maxNsid fuel : Nat) :
    Option (List Nat) :=
  if region then listNamespaces identify maxNsid fuel 0 [] else some []

/-- The active namespaces of a controller with ids up to `maxNsid`, in order. -/
structure Active (maxNsid : Nat) where
  ids : List Nat
  sorted : ids.Pairwise (· < ·)
  pos : ∀ a ∈ ids, 0 < a
  le : ∀ a ∈ ids, a ≤ maxNsid
  max_lt : maxNsid < 2 ^ 32

def Active.identify {maxNsid : Nat} (active : Active maxNsid) (i : Nat) : List Nat :=
  let ids := page 1024 active.ids i
  ids ++ List.replicate (1024 - ids.length) 0

variable {maxNsid : Nat}

lemma Active.filter_identify (active : Active maxNsid) (i : Nat) :
    (active.identify i).filter (· ≠ 0) = page 1024 active.ids i := by
  have hids : ∀ a ∈ page 1024 active.ids i, decide (a ≠ 0) = true := by
    intro a ha
    have hin : a ∈ active.ids := List.mem_of_mem_filter (List.mem_of_mem_take ha)
    simpa using Nat.ne_of_gt (active.pos a hin)
  unfold identify
  rw [List.filter_append, List.filter_eq_self.2 hids]
  simp

lemma listNamespaces_done {identify : Nat → List Nat} {fuel i : Nat} {list : List Nat}
    (h : maxNsid ≤ i) : listNamespaces identify maxNsid (fuel + 1) i list = some list := by
  simp [listNamespaces, Nat.not_lt.2 h]

/-- The loop over `k` more pages. -/
lemma listNamespaces_pages (active : Active maxNsid) (hmax : maxNsid ≤ 2 ^ 32 - 1024)
    (k i fuel : Nat) (list : List Nat) (hend : maxNsid ≤ i + 1024 * k)
    (hlast : k ≠ 0 → i + 1024 * (k - 1) < maxNsid) (hfuel : k < fuel) :
    listNamespaces active.identify maxNsid fuel i list =
      some (list ++ pages 1024 active.ids k i) := by
  induction k generalizing i fuel list with
  | zero =>
    rcases Nat.exists_eq_succ_of_ne_zero (Nat.ne_of_gt hfuel) with ⟨fuel, rfl⟩
    rw [listNamespaces_done (by omega)]
    simp [pages]
  | succ k ih =>
    rcases Nat.exists_eq_succ_of_ne_zero (Nat.ne_of_gt (Nat.lt_of_le_of_lt (Nat.zero_le _) hfuel)) with
      ⟨fuel, rfl⟩
    have hi : i < maxNsid := by
      omega
    have hnext : (i + 1024) % 2 ^ 32 = i + 1024 := by
      apply Nat.mod_eq_of_lt
      omega
    simp only [listNamespaces, if_pos hi, hnext, Active.filter_identify]
    rw [ih _ _ _ (by omega) (by omega) (by omega), pages, List.append_assoc]

/-- When ids in the last 1024 of the 32-bit range are below the maximum, the counter goes round and the
loop has no end: it stays a multiple of 1024. -/
lemma listNamespaces_endless (identify : Nat → List Nat) (hmax : 2 ^ 32 - 1024 < maxNsid)
    (fuel i : Nat) (list : List Nat) (hi : i < 2 ^ 32) (hmod : i % 1024 = 0) :
    listNamespaces identify maxNsid fuel i list = none := by
  induction fuel generalizing i list with
  | zero => rfl
  | succ fuel ih =>
    have hlt : i < maxNsid := by omega
    simp only [listNamespaces, if_pos hlt]
    exact ih _ _ (by omega) (by omega)

lemma getActiveNamespaces_pages (active : Active maxNsid) (hmax : maxNsid ≤ 2 ^ 32 - 1024)
    {fuel : Nat} (hfuel : (maxNsid + 1023) / 1024 < fuel) :
    getActiveNamespaces true active.identify maxNsid fuel =
      some (pages 1024 active.ids ((maxNsid + 1023) / 1024) 0) := by
  have h := listNamespaces_pages active hmax ((maxNsid + 1023) / 1024) 0 fuel [] (by omega)
    (by omega) hfuel
  simpa [getActiveNamespaces] using h

/-- When the loop ends with exactly the active namespaces. -/
lemma listing_exact_iff (active : Active maxNsid) :
    (∃ rounds, ∀ fuel, rounds ≤ fuel →
        getActiveNamespaces true active.identify maxNsid fuel = some active.ids) ↔
      maxNsid ≤ 2 ^ 32 - 1024 ∧ Packed 1024 active.ids := by
  have hle : ∀ a ∈ active.ids, a ≤ 1024 * ((maxNsid + 1023) / 1024) := by
    intro a ha
    have hmax := active.le a ha
    omega
  have hpacked := pages_eq_iff active.sorted (by decide : 0 < 1024) active.pos hle
  constructor
  · rintro ⟨rounds, h⟩
    have hmax : maxNsid ≤ 2 ^ 32 - 1024 := by
      by_contra hbig
      have hnone := listNamespaces_endless active.identify (Nat.lt_of_not_le hbig) rounds 0 []
        (by decide) (by decide)
      have hsome := h rounds (Nat.le_refl rounds)
      simp only [getActiveNamespaces, if_true, hnone] at hsome
      cases hsome
    refine ⟨hmax, hpacked.1 ?_⟩
    have hrun := getActiveNamespaces_pages active hmax
      (Nat.lt_of_lt_of_le (Nat.lt_succ_self _) (Nat.le_add_left _ rounds))
    rw [h _ (Nat.le_add_right rounds _)] at hrun
    exact (Option.some.inj hrun).symm
  · rintro ⟨hmax, hp⟩
    refine ⟨(maxNsid + 1023) / 1024 + 1, fun fuel hfuel => ?_⟩
    rw [getActiveNamespaces_pages active hmax hfuel, hpacked.2 hp]

/-- The listing ends with exactly the active ids, each once and in order, if and only if it has a
region, the maximum is at most `2 ^ 32 - 1024` and below the block of 1024 ids of an active id every
id is active; without a region it answers the empty list. -/
theorem getActiveNamespaces_exact_iff (active : Active maxNsid) (region : Bool) :
    (∃ rounds, ∀ fuel, rounds ≤ fuel →
        getActiveNamespaces region active.identify maxNsid fuel = some active.ids) ↔
      if region then
        maxNsid ≤ 2 ^ 32 - 1024 ∧
          ∀ a ∈ active.ids, ∀ b, 0 < b → b ≤ 1024 * ((a - 1) / 1024) → b ∈ active.ids
      else
        active.ids = [] := by
  cases region with
  | true => exact listing_exact_iff active
  | false =>
    constructor
    · rintro ⟨rounds, h⟩
      exact (Option.some.inj (h rounds (Nat.le_refl rounds))).symm
    · intro hnil
      have hids : active.ids = [] := by simpa using hnil
      exact ⟨0, fun fuel _ => by simp [getActiveNamespaces, hids]⟩

/-- One active id, 1500: the commands for 0 and for 1024 both answer it. -/
def activeSparse : Active 2000 where
  ids := [1500]
  sorted := by simp
  pos := by simp
  le := by simp
  max_lt := by decide

theorem getActiveNamespaces_repeats :
    getActiveNamespaces true activeSparse.identify 2000 3 = some [1500, 1500] := by
  decide +kernel

end SigmaOS.Drivers.Nvme
