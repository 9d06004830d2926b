import Mathlib.Algebra.Group.Nat.Defs
import Mathlib.Logic.Function.Basic

/-!
# Drivers.Xhci — transfer request blocks and their rings

A ring is one segment of 0x1000 transfer request blocks of 16 bytes.  `TlbRing` is the source's
`tlb_ring`; `enqueue` and `dequeue` are the distances of the two pointers from `entries`, in bytes.
In the rings that the driver fills, the last block is a link back to the first one.

The segment starts out zeroed, as `libsigma_get_phys_region` answers cleared memory; its allocation
succeeds.
-/

namespace SigmaOS.Drivers.Xhci

open BitVec

/-! ## Blocks -/

structure RawTrb where
  data0 : BitVec 32
  data1 : BitVec 32
  data2 : BitVec 32
  data3 : BitVec 32
  deriving DecidableEq, Repr

namespace RawTrb

def cycle (t : RawTrb) : Bool := t.data3.getLsbD 0

def toggleCycle (t : RawTrb) : Bool := t.data3.getLsbD 1

def trbType (t : RawTrb) : BitVec 6 := t.data3.extractLsb' 10 6

def ringSegmentPtr (t : RawTrb) : BitVec 64 := t.data1 ++ t.data0

/-- The bit that `enqueue_trb` sets is the only one that can be missing: `state` is 0 where the cycle
bit is set, and 1 where it is not. -/
def setCycle (t : RawTrb) : RawTrb :=
  let state := if t.data3 &&& 1#32 ≠ 0#32 then 0#32 else 1#32
  { t with data3 := t.data3 ||| state }

def clearCycle (t : RawTrb) : RawTrb :=
  { t with data3 := t.data3 &&& ~~~1#32 }

end RawTrb

def blankTrb : RawTrb := ⟨0#32, 0#32, 0#32, 0#32⟩

def linkType : BitVec 6 := 6#6

/-- The link at the end of a ring: cycle bit and type are set, the toggle bit is not. -/
def linkTrb (physicalAddr : BitVec 64) : RawTrb where
  data0 := physicalAddr.extractLsb' 0 32
  data1 := physicalAddr.extractLsb' 32 32
  data2 := 0#32
  data3 := 1#32 ||| (linkType.setWidth 32 <<< 10)

/-! ## Rings -/

structure TlbRing where
  nEntries : Nat
  physicalAddr : BitVec 64
  entries : Nat → RawTrb
  enqueue : Nat
  dequeue : Nat
  cycle : Bool

namespace TlbRing

/-- `tlb_ring` for the rings that the driver fills. -/
def new (nEntries : Nat) (physicalAddr : BitVec 64) : TlbRing where
  nEntries := nEntries
  physicalAddr := physicalAddr
  entries := Function.update (fun _ => blankTrb) (nEntries - 1) (linkTrb physicalAddr)
  enqueue := 0
  dequeue := 0
  cycle := true

/-- `tlb_ring` with `ringTypeEvent`. -/
def newEvent (nEntries : Nat) (physicalAddr : BitVec 64) : TlbRing where
  nEntries := nEntries
  physicalAddr := physicalAddr
  entries := fun _ => blankTrb
  enqueue := 0
  dequeue := 0
  cycle := true

/-- `get_trb`: the index of the entry to fill.  Before the last entry the ring goes back to the first
one, and the link is written again as it was; `cycle ^= cycle` clears the ring's cycle state, which
the rings that the driver fills do not use. -/
def getTrb (r : TlbRing) : Nat × TlbRing :=
  let index := r.enqueue / 16 + 1
  if index = r.nEntries - 1 then
    (index - 1, { r with
      enqueue := 0
      cycle := r.cycle ^^ r.cycle
      entries := Function.update r.entries (r.nEntries - 1) (linkTrb r.physicalAddr) })
  else
    (index - 1, { r with enqueue := r.enqueue + 16 })

def enqueueTrb (r : TlbRing) (trb : RawTrb) (first : Bool) : Nat × TlbRing :=
  let (index, r) := r.getTrb
  let entry := if first then trb else trb.setCycle
  (index, { r with entries := Function.update r.entries index entry })

end TlbRing

section GetTrb

variable {r : TlbRing} {a : Nat}

lemma TlbRing.getTrb_inside (henqueue : r.enqueue = 16 * a) (hin : a + 1 ≠ r.nEntries - 1) :
    r.getTrb = (a, { r with enqueue := 16 * (a + 1) }) := by
  have hindex : r.enqueue / 16 = a := by omega
  have hnext : r.enqueue + 16 = 16 * (a + 1) := by omega
  simp [TlbRing.getTrb, hindex, hnext, hin]

lemma TlbRing.getTrb_wrap (henqueue : r.enqueue = 16 * a) (hend : a + 1 = r.nEntries - 1) :
    r.getTrb = (a, { r with
      enqueue := 0
      cycle := false
      entries := Function.update r.entries (r.nEntries - 1) (linkTrb r.physicalAddr) }) := by
  have hindex : r.enqueue / 16 = a := by omega
  have hpred : r.nEntries - 1 - 1 = a := by omega
  simp [TlbRing.getTrb, hindex, hend, hpred]

end GetTrb

namespace RawTrb

lemma and_one_ne_zero_iff (w : BitVec 32) : w &&& 1#32 ≠ 0#32 ↔ w.getLsbD 0 = true := by
  rw [ne_eq, ← toNat_inj, toNat_and, BitVec.getLsbD, Nat.testBit_zero]
  change ¬ w.toNat &&& 1 = 0 ↔ _
  rw [Nat.and_one_is_mod, decide_eq_true_iff]
  omega

@[simp] lemma cycle_setCycle (t : RawTrb) : t.setCycle.cycle = true := by
  unfold setCycle cycle
  by_cases hbit : t.data3 &&& 1#32 ≠ 0#32
  · rw [if_pos hbit]
    simpa using (and_one_ne_zero_iff _).1 hbit
  · rw [if_neg hbit]
    simp

@[simp] lemma trbType_setCycle (t : RawTrb) : t.setCycle.trbType = t.trbType := by
  unfold setCycle trbType
  apply eq_of_getLsbD_eq
  intro i hi
  split <;> simp [getLsbD_extractLsb', getLsbD_one]

lemma clearCycle_setCycle {t : RawTrb} (h : t.cycle = false) : t.setCycle.clearCycle = t := by
  have hclear : ¬ t.data3 &&& 1#32 ≠ 0#32 := by
    rw [and_one_ne_zero_iff]
    simpa [cycle] using h
  have hdata : (t.data3 ||| 1#32) &&& ~~~1#32 = t.data3 := by
    apply eq_of_getLsbD_eq
    intro i hi
    have hbit : t.data3.getLsbD 0 = false := h
    simp only [getLsbD_and, getLsbD_or, getLsbD_not, getLsbD_one]
    by_cases h0 : i = 0
    · rw [h0, hbit]
      rfl
    · simp only [h0, hi, decide_true, decide_false, Bool.and_false, Bool.or_false, Bool.not_false,
        Bool.and_true]
  simp only [setCycle, hclear, if_false, clearCycle, hdata]

end RawTrb

@[simp] lemma cycle_blankTrb : blankTrb.cycle = false := rfl

lemma append_halves (addr : BitVec 64) :
    addr.extractLsb' 32 32 ++ addr.extractLsb' 0 32 = addr := by
  rw [BitVec.extractLsb'_append_extractLsb'_eq_extractLsb' (show 32 = 0 + 32 from rfl)]
  exact BitVec.extractLsb'_eq_self

lemma linkTrb_fields (addr : BitVec 64) :
    (linkTrb addr).cycle = true ∧ (linkTrb addr).toggleCycle = false ∧
      (linkTrb addr).trbType = linkType ∧ (linkTrb addr).ringSegmentPtr = addr := by
  have hdata : (linkTrb addr).data3 = 0x1801#32 := by
    show 1#32 ||| (linkType.setWidth 32 <<< 10) = 0x1801#32
    decide
  refine ⟨?_, ?_, ?_, ?_⟩
  · rw [RawTrb.cycle, hdata]
    decide
  · rw [RawTrb.toggleCycle, hdata]
    decide
  · rw [RawTrb.trbType, hdata]
    decide
  exact append_halves addr

end SigmaOS.Drivers.Xhci
