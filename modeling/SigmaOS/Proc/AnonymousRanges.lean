import Mathlib.Order.CompletePartialOrder
import SigmaOS.Proc.VmMapRange

/-!
# Proc.AnonymousRanges — the ranges returned by `map_anonymous` without a hint

There is no list of the ranges a thread has mapped: `get_free_range` takes a page as free when it
has no translation.  A page that was mapped without `PROT_READ` has none, so a driver that maps
physical memory with no access gets the same range twice (`ranges_not_separate`).
-/

namespace SigmaOS.Proc.Process

open Lib Arch.Paging
open Types (divCeil)

/-! ## Sequences of calls -/

/-- A call of `map_anonymous` with a null hint. -/
structure AnonymousCall where
  size : BitVec 64
  phys : BitVec 64
  prot : BitVec 32
  flags : BitVec 32

def AnonymousCall.pages (call : AnonymousCall) : Nat :=
  (divCeil call.size 4096#64).toNat

/-- At least one byte, and not more than the window has. -/
def AnonymousCall.Fits (call : AnonymousCall) : Prop :=
  1#64 ≤ call.size ∧ call.size ≤ mmapTop - mmapBottom

instance (call : AnonymousCall) : Decidable call.Fits :=
  inferInstanceAs (Decidable (_ ∧ _))

/-- What a call has returned: the pages from `base` on. -/
structure MappedRange where
  base : BitVec 64
  pages : Nat

def MappedRange.bytes (r : MappedRange) : Set Nat :=
  Set.Ico r.base.toNat (r.base.toNat + 4096 * r.pages)

structure ThreadRanges where
  mem : Mem
  ranges : List MappedRange

namespace ThreadRanges

/-- A call that returns an address; one that ends in a fault ends the sequence. -/
def step (root : Frame) (t : ThreadRanges) (call : AnonymousCall) : Option ThreadRanges :=
  match mapAnonymous root call.size 0#64 call.phys call.prot call.flags t.mem with
  | none => none
  | some (.halted, _) => none
  | some (.returned base, mem) =>
    some
      { mem := mem
        ranges := if base = 0#64 then t.ranges else t.ranges ++ [⟨base, call.pages⟩] }

/-- The ranges are disjoint, and each lies inside the window. -/
structure Separate (t : ThreadRanges) : Prop where
  apart : t.ranges.Pairwise fun r r' => Disjoint r.bytes r'.bytes
  inside : ∀ r ∈ t.ranges, r.bytes ⊆ Set.Ico mmapBottom.toNat mmapTop.toNat

/-- A call that maps physical memory asks for read access, and the window, without its last page, has
a free run of the length that is needed. -/
def Mappable (root : Frame) (t : ThreadRanges) (call : AnonymousCall) : Prop :=
  call.Fits ∧ (call.phys ≠ 0#64 → call.prot.getLsbD 0 = true) ∧
    ∃ k, FreeRun t.mem.phys.tables root k call.pages ∧ k + call.pages < windowPages

end ThreadRanges

lemma AnonymousCall.Fits.pages_pos {call : AnonymousCall} (h : call.Fits) : 0 < call.pages := by
  have hlow : 1 ≤ call.size.toNat := BitVec.le_def.1 h.1
  have hhigh : call.size.toNat ≤ (mmapTop - mmapBottom).toNat := BitVec.le_def.1 h.2
  have hwindow : (mmapTop - mmapBottom).toNat = 0x7FF6FFFFFFFF := by decide
  rw [AnonymousCall.pages, divCeil_block]
  omega

lemma mapFlags_present (prot : BitVec 32) : (mapFlags prot).getLsbD 0 = prot.getLsbD 0 := by
  cases hread : prot.getLsbD 0 <;> cases hwrite : prot.getLsbD 1 <;>
    cases hexec : prot.getLsbD 2 <;> simp only [mapFlags, hread, hwrite, hexec] <;> decide

section Loop

variable {c : Ctx} {root : Frame} {flags virt phys : BitVec 64} {raw : Bool} {n : Nat} {m m' : Mem}

lemma mapPages_present {owner : Frame → Option Role} (h : m.phys.Tracks roleNext owner)
    (hroot : owner root = some (.own c []))
    (hrun : mapPages root flags false n virt phys m = some (true, m')) (hn : 0 < n) :
    flags.getLsbD 0 = true := by
  cases n with
  | zero => exact absurd hn (Nat.lt_irrefl 0)
  | succ n =>
    rcases mapPages_cases hrun with ⟨ok, m₁, hround, ⟨_, hdone, _⟩ | ⟨rfl, _⟩⟩
    · cases hdone
    · exact (mapRound_cleared hround h hroot).2.2.1

/-- The pages of a range that was mapped are found by `get_phys`, and so are all pages from before. -/
lemma mapPages_found {owner : Frame → Option Role} (h : m.phys.Tracks roleNext owner)
    (hroot : owner root = some (.own c [])) (haligned : virt.toNat % 4096 = 0)
    (hflags : flags.getLsbD 0 = true)
    (hrun : mapPages root flags raw n virt phys m = some (true, m')) :
    (∃ owner', m'.phys.Tracks roleNext owner' ∧ owner' root = some (.own c [])) ∧
      (∀ i, i < n → getPhys m'.phys.tables root (pageFrom virt i) ≠ BitVec.allOnes 64) ∧
      ∀ v, getPhys m.phys.tables root v ≠ BitVec.allOnes 64 →
        getPhys m'.phys.tables root v ≠ BitVec.allOnes 64 := by
  have hpresent : ∀ p, present (pageEntry p flags .normal) = true := by
    intro p
    rw [present_pageEntry, hflags]
  rcases mapPages_spec ⟨owner, h, hroot, fun _ hmod => absurd haligned hmod⟩ hrun with
    ⟨htracked, hkeep, hshows⟩
  refine ⟨htracked, ?_, ?_⟩
  · intro i hi
    rcases hshows i hi (.inr rfl) with ⟨pt, p, hwalk, hentry⟩
    exact getPhys_ne_allOnes.2 ⟨pt, hwalk, hentry ▸ hpresent p⟩
  · intro v hv
    exact getPhys_ne_allOnes.2 (hkeep _ hpresent v (getPhys_ne_allOnes.1 hv))

end Loop

/-! ## Separate ranges -/

lemma MappedRange.mem_bytes {r : MappedRange} {k x : Nat} (hbase : r.base = windowPage k)
    (hk : k + r.pages < windowPages) :
    x ∈ r.bytes ↔ 0x900000000 ≤ x ∧ k ≤ (x - 0x900000000) / 4096 ∧
      (x - 0x900000000) / 4096 < k + r.pages := by
  have hnat : r.base.toNat = 0x900000000 + 4096 * k := by
    rw [hbase]
    exact windowPage_toNat (by omega)
  rw [MappedRange.bytes, Set.mem_Ico, hnat]
  omega

namespace ThreadRanges

variable {c : Ctx} {root : Frame} {t t' : ThreadRanges} {call : AnonymousCall}

/-- The pages of all ranges are found by `get_phys`, and the ranges are disjoint. -/
structure Held (c : Ctx) (root : Frame) (t : ThreadRanges) : Prop where
  tracked : ∃ owner, t.mem.phys.Tracks roleNext owner ∧ owner root = some (.own c [])
  found : ∀ r ∈ t.ranges, ∃ k, r.base = windowPage k ∧ k + r.pages < windowPages ∧
    ∀ i, i < r.pages →
      getPhys t.mem.phys.tables root (windowPage (k + i)) ≠ BitVec.allOnes 64
  apart : t.ranges.Pairwise fun r r' => Disjoint r.bytes r'.bytes

lemma Held.separate (h : Held c root t) : t.Separate := by
  refine ⟨h.apart, ?_⟩
  intro r hr x hx
  rcases h.found r hr with ⟨k, hbase, hk, _⟩
  have hbottom : mmapBottom.toNat = 0x900000000 := by decide
  have htop : mmapTop.toNat = 0x7FFFFFFFFFFF := by decide
  have hwindow : windowPages = 0x7FF700000 := rfl
  rw [MappedRange.mem_bytes hbase hk] at hx
  rw [Set.mem_Ico, hbottom, htop]
  omega

/-- A range placed on a free run meets no range held. -/
lemma Held.disjoint {r new : MappedRange} {k : Nat} (h : Held c root t) (hr : r ∈ t.ranges)
    (hbase : new.base = windowPage k) (hk : k + new.pages < windowPages)
    (hfree : FreeRun t.mem.phys.tables root k new.pages) : Disjoint r.bytes new.bytes := by
  rcases h.found r hr with ⟨k₀, hbase₀, hk₀, hfound⟩
  rw [Set.disjoint_left]
  intro x hx hnew
  rw [MappedRange.mem_bytes hbase₀ hk₀] at hx
  rw [MappedRange.mem_bytes hbase hk] at hnew
  -- a byte in both is on a page that has a translation and has none
  have hpage : k₀ + ((x - 0x900000000) / 4096 - k₀) = (x - 0x900000000) / 4096 := by omega
  have hsome := hfound ((x - 0x900000000) / 4096 - k₀) (by omega)
  rw [hpage] at hsome
  exact hsome (hfree.2 _ hnew.2.1 hnew.2.2)

/-- A call that returns has mapped the pages of a free run. -/
lemma step_returned (hok : t.Mappable root call) (hs : t.step root call = some t') :
    ∃ k, FreeRun t.mem.phys.tables root k call.pages ∧ k + call.pages < windowPages ∧
      mapPages root (mapFlags call.prot) (call.phys != 0#64) call.pages (windowPage k) call.phys
        t.mem = some (true, t'.mem) ∧ t'.ranges = t.ranges ++ [⟨windowPage k, call.pages⟩] := by
  rcases hok with ⟨hfits, _, k₀, hroom, hlast⟩
  rcases getFreeRange_fits hfits.pages_pos hroom with ⟨k, hk, hfree, hrange⟩
  have hend : k + call.pages < windowPages := by omega
  have hbase : mapBase t.mem.phys.tables root call.size 0#64 = windowPage k := by
    simpa [mapBase] using hrange
  have hne : windowPage k ≠ 0#64 := by
    intro hzero
    have hnat := windowPage_toNat (k := k) (by omega)
    rw [hzero] at hnat
    exact absurd hnat (by simp; omega)
  refine ⟨k, hfree, hend, ?_⟩
  simp only [step, mapAnonymous, hbase, if_neg hne] at hs
  split at hs
  · cases hs
  · cases hs
  next hcall =>
  cases hs
  split at hcall
  · cases hcall
  · next hmap =>
    cases hcall
    exact ⟨hmap, by rw [if_neg hne]⟩
  · cases hcall

/-- The ranges returned so far stay mapped. -/
lemma Held.step (h : Held c root t) (hok : t.Mappable root call)
    (hs : t.step root call = some t') : Held c root t' := by
  rcases step_returned hok hs with ⟨k, hfree, hend, hmap, hranges⟩
  rcases h.tracked with ⟨owner, htracks, hroot⟩
  -- the entries that were written are present, or the call would not have returned
  have hpresent : (mapFlags call.prot).getLsbD 0 = true := by
    by_cases hraw : call.phys = 0#64
    · have hmap' := hmap
      rw [hraw] at hmap'
      exact mapPages_present htracks hroot hmap' hok.1.pages_pos
    · rw [mapFlags_present]
      exact hok.2.1 hraw
  have haligned : (windowPage k).toNat % 4096 = 0 := by
    rw [windowPage_toNat (by omega)]
    omega
  rcases mapPages_found htracks hroot haligned hpresent hmap with ⟨htracked, hnew, hkeep⟩
  refine ⟨htracked, ?_, ?_⟩
  · intro r hr
    rw [hranges] at hr
    rcases List.mem_append.1 hr with hold | hlast
    · rcases h.found r hold with ⟨k₀, hbase, hk₀, hfound⟩
      exact ⟨k₀, hbase, hk₀, fun i hi => hkeep _ (hfound i hi)⟩
    · rw [List.mem_singleton.1 hlast]
      refine ⟨k, rfl, hend, ?_⟩
      intro i hi
      have hpage : windowPage (k + i) = pageFrom (windowPage k) i := pageFrom_add mmapBottom k i
      rw [hpage]
      exact hnew i hi
  · rw [hranges]
    refine List.pairwise_append.2 ⟨h.apart, List.pairwise_singleton _ _, ?_⟩
    intro r hr new hnew'
    rw [List.mem_singleton.1 hnew']
    exact h.disjoint hr rfl hend hfree

end ThreadRanges

/-- In every sequence of calls that ask for read access where they map physical memory, and that find
room in the window, the ranges returned are disjoint and inside the window. -/
theorem ranges_separate {owner : Frame → Option Role} {c : Ctx} {root : Frame} {m : Mem}
    {t : ThreadRanges} (h : m.phys.Tracks roleNext owner) (hroot : owner root = some (.own c []))
    (hrun : Run (ThreadRanges.step root) (ThreadRanges.Mappable root) ⟨m, []⟩ t) :
    t.Separate := by
  have hheld : t.Held c root := by
    refine hrun.invariant ⟨⟨owner, h, hroot⟩, ?_, List.Pairwise.nil⟩ ?_
    · intro r hr
      cases hr
    · intro u call u' hu hok hs
      exact hu.step hok hs
  exact hheld.separate

lemma freeRun_one {m : Tables Frame Index (BitVec 64)} {root : Frame} {k : Nat}
    (hk : k < windowPages) (hfree : getPhys m root (windowPage k) = BitVec.allOnes 64) :
    FreeRun m root k 1 := by
  refine ⟨hk, ?_⟩
  intro j hkj hj
  have hjk : j = k := by omega
  rw [hjk]
  exact hfree

/-- A call that maps one page of physical memory takes the first page without a translation. -/
lemma step_raw (t : ThreadRanges) (call : AnonymousCall) (k : Nat) {root : Frame} {s : Phys}
    (hpages : call.pages = 1) (hraw : call.phys ≠ 0#64) (hk : k < windowPages)
    (hfree : getPhys t.mem.phys.tables root (windowPage k) = BitVec.allOnes 64)
    (htaken : ∀ j < k, getPhys t.mem.phys.tables root (windowPage j) ≠ BitVec.allOnes 64)
    (hmap : mapPage root call.phys (windowPage k) (mapFlags call.prot) .normal t.mem.phys = some s) :
    t.step root call = some ⟨⟨s, t.mem.frames⟩, t.ranges ++ [⟨windowPage k, 1⟩]⟩ := by
  have hpos : 0 < (divCeil call.size 4096#64).toNat := Nat.lt_of_lt_of_eq Nat.one_pos hpages.symm
  have hroom : FreeRun t.mem.phys.tables root k (divCeil call.size 4096#64).toNat := by
    rw [show (divCeil call.size 4096#64).toNat = 1 from hpages]
    exact freeRun_one hk hfree
  rcases getFreeRange_fits hpos hroom with ⟨k', hk', hrun, hrange⟩
  have hkk : k' = k := by
    refine Nat.le_antisymm hk' (Nat.le_of_not_lt fun hlt => ?_)
    exact htaken k' hlt (hrun.2 k' (Nat.le_refl k') (Nat.lt_add_of_pos_right hpos))
  have hbase : mapBase t.mem.phys.tables root call.size 0#64 = windowPage k := by
    simpa [mapBase, hkk] using hrange
  have hne : mapBase t.mem.phys.tables root call.size 0#64 ≠ 0#64 :=
    (mapBase_reaches t.mem.phys.tables root rfl hpos).2
  rw [hbase] at hne
  have hone : (divCeil call.size 4096#64).toNat = 1 := hpages
  simp [ThreadRanges.step, mapAnonymous, hbase, hne, hraw, hone, mapPages, mapRound, hmap, hpages]

/-- A driver maps two pages of physical memory, one after the other. -/
theorem ranges_separate_sample :
    ∃ t, exec (ThreadRanges.step (frameAt 1)) ⟨sampleMem, []⟩
          [⟨4096#64, 0x5000#64, 1#32, 0#32⟩, ⟨4096#64, 0x7000#64, 3#32, 0#32⟩] = some t ∧
      t.ranges.map MappedRange.base = [0x900000000#64, 0x900001000#64] ∧ t.Separate := by
  have hmaps : (mapPage (frameAt 1) 0x5000#64 (windowPage 0) (mapFlags 1#32) .normal
      sampleMem.phys).map (fun s => (getPhys s.tables (frameAt 1) (windowPage 0),
        getPhys s.tables (frameAt 1) (windowPage 1),
        (mapPage (frameAt 1) 0x7000#64 (windowPage 1) (mapFlags 3#32) .normal s).isSome)) =
      some (0x5000#64, BitVec.allOnes 64, true) := by
    decide
  rcases Option.map_eq_some_iff.1 hmaps with ⟨s₁, hmap₁, hview⟩
  have htaken : getPhys s₁.tables (frameAt 1) (windowPage 0) = 0x5000#64 := congrArg Prod.fst hview
  have hfree : getPhys s₁.tables (frameAt 1) (windowPage 1) = BitVec.allOnes 64 :=
    congrArg (fun r => r.2.1) hview
  rcases Option.isSome_iff_exists.1 (congrArg (fun r => r.2.2) hview) with ⟨s₂, hmap₂⟩
  have hfirst := step_raw ⟨sampleMem, []⟩ ⟨4096#64, 0x5000#64, 1#32, 0#32⟩ 0
    (by decide) (by decide) (by decide) (by decide) (by decide) hmap₁
  have hsecond := step_raw ⟨⟨s₁, []⟩, [⟨windowPage 0, 1⟩]⟩
    ⟨4096#64, 0x7000#64, 3#32, 0#32⟩ 1 (by decide) (by decide) (by decide) hfree
    (fun j hj => by rw [Nat.lt_one_iff.1 hj, htaken]; decide) hmap₂
  refine ⟨_, exec_cons_some.2 ⟨_, hfirst, exec_cons_some.2 ⟨_, hsecond, rfl⟩⟩, rfl,
    ranges_separate sampleMem_tracks rfl (Run.tail (Run.single ?_ hfirst) ?_ hsecond)⟩
  · exact ⟨by decide, fun _ => by decide, 0, freeRun_one (by decide) (by decide), by decide⟩
  · exact ⟨by decide, fun _ => by decide, 1, freeRun_one (by decide) hfree, by decide⟩

def noAccessCall : AnonymousCall :=
  ⟨4096#64, 0x1000#64, 0#32, 0#32⟩

lemma noAccess_step {t : ThreadRanges} {s : Phys}
    (hfree : getPhys t.mem.phys.tables (frameAt 1) (windowPage 0) = BitVec.allOnes 64)
    (hmap : mapPage (frameAt 1) noAccessCall.phys (windowPage 0) (mapFlags noAccessCall.prot) .normal
      t.mem.phys = some s) :
    t.step (frameAt 1) noAccessCall =
      some ⟨⟨s, t.mem.frames⟩, t.ranges ++ [⟨windowPage 0, 1⟩]⟩ :=
  step_raw t noAccessCall 0 (by decide) (by decide) (by decide) hfree
    (fun j hj => absurd hj (Nat.not_lt_zero j)) hmap

/-- A driver maps a page of physical memory with no access, and gets the same range again. -/
theorem ranges_not_separate :
    ¬ ∀ (owner : Frame → Option Role) (c : Ctx) (root : Frame) (m : Mem) (t : ThreadRanges),
      m.phys.Tracks roleNext owner → owner root = some (.own c []) →
      Run (ThreadRanges.step root) (fun _ call => call.Fits) ⟨m, []⟩ t → t.Separate := by
  intro hall
  have hsome : (mapPage (frameAt 1) noAccessCall.phys (windowPage 0) (mapFlags noAccessCall.prot)
      .normal sampleMem.phys).isSome = true := by
    decide
  rcases Option.isSome_iff_exists.1 hsome with ⟨s₁, hmap₁⟩
  have hfirst := noAccess_step (t := ⟨sampleMem, []⟩) (by decide) hmap₁
  -- the entry it has left is not present, and its page table is there
  have hshows := mapPage_shows (c := 0) sampleMem_tracks rfl hmap₁
  rcases mapPage_root (c := 0) sampleMem_tracks rfl hmap₁ with ⟨owner, l, hrole, hmapped⟩
  rcases hmapped.reached with ⟨pt, hwalk, _⟩
  have hmap₂ := mapPage_existing noAccessCall.phys (mapFlags noAccessCall.prot) .normal
    hmapped.tracks (hmapped.keeps _ _ rfl) hrole hwalk
  have hsecond := noAccess_step (t := ⟨⟨s₁, []⟩, [⟨windowPage 0, 1⟩]⟩)
    (hshows.getPhys (by decide)) hmap₂
  have hfits : noAccessCall.Fits := by decide
  have hsep := hall sampleOwner 0 (frameAt 1) sampleMem _ sampleMem_tracks rfl
    (Run.tail (Run.single hfits hfirst) hfits hsecond)
  have hdisjoint := (List.pairwise_cons.1 hsep.apart).1 _ (List.mem_singleton.2 rfl)
  have hmem : 0x900000000 ∈ MappedRange.bytes ⟨windowPage 0, 1⟩ := by
    rw [MappedRange.bytes, Set.mem_Ico]
    decide
  exact Set.disjoint_left.1 hdisjoint hmem hmem

end SigmaOS.Proc.Process
