import SigmaOS.Drivers.Xhci
import SigmaOS.Lib.PhaseRing
import SigmaOS.Lib.Run

/-!
# Drivers.XhciCommandRing — the command ring and its consumer

The consumer of a ring keeps an own cycle state and takes a block if the block's cycle bit equals
it.  The driver sets the cycle bit of every block, lap after lap, and its link does not toggle the
consumer's cycle state.
-/

namespace SigmaOS.Drivers.Xhci

open Function List
open Lib

/-! ## Producer and consumer -/

/-- The command ring with its consumer, and the blocks that were enqueued and consumed so far. -/
structure CommandLink where
  ring : TlbRing
  index : Nat
  cycleState : Bool
  enqueued : List RawTrb
  consumed : List RawTrb

inductive RingOp
  | enqueue (trb : RawTrb)
  | consume

/-- A command block as the driver passes it: not a link, and the cycle bit is clear. -/
def RawTrb.IsCommand (t : RawTrb) : Prop :=
  t.cycle = false ∧ t.trbType ≠ linkType

instance (t : RawTrb) : Decidable t.IsCommand :=
  inferInstanceAs (Decidable (_ ∧ _))

namespace CommandLink

def start (physicalAddr : BitVec 64) : CommandLink where
  ring := .new 0x1000 physicalAddr
  index := 0
  cycleState := true
  enqueued := []
  consumed := []

/-- The driver enqueues a block when the one before has been consumed; the consumer follows links on
its own. -/
def step (s : CommandLink) : RingOp → Option CommandLink
  | .enqueue trb =>
    if s.consumed.length < s.enqueued.length then
      none
    else
      some { s with
        ring := (s.ring.enqueueTrb trb false).2
        enqueued := s.enqueued ++ [trb] }
  | .consume =>
    let trb := s.ring.entries s.index
    if trb.cycle = s.cycleState then
      if trb.trbType = linkType then
        some { s with
          index := (trb.ringSegmentPtr - s.ring.physicalAddr).toNat / 16
          cycleState := if trb.toggleCycle then !s.cycleState else s.cycleState }
      else
        some { s with
          index := s.index + 1
          consumed := s.consumed ++ [trb.clearCycle] }
    else
      none

/-- What the driver enqueues are commands. -/
def ok (_ : CommandLink) : RingOp → Prop
  | .enqueue trb => trb.IsCommand
  | .consume => True

/-- The consumer has taken blocks that were enqueued, each once and in order, and does not wait before
it has all of them. -/
structure Right (s : CommandLink) : Prop where
  inOrder : s.consumed <+: s.enqueued
  complete : (s.ring.entries s.index).cycle ≠ s.cycleState → s.consumed = s.enqueued

/-! ## The first lap -/

structure FirstLap (base : BitVec 64) (s : CommandLink) : Prop where
  nEntries : s.ring.nEntries = 0x1000
  physicalAddr : s.ring.physicalAddr = base
  enqueue : s.ring.enqueue = 16 * s.enqueued.length
  index : s.index = s.consumed.length
  cycleState : s.cycleState = true
  oneOpen : s.enqueued.length ≤ s.consumed.length + 1
  inOrder : s.consumed <+: s.enqueued
  commands : ∀ trb ∈ s.enqueued, trb.IsCommand
  filled : ∀ k trb, s.enqueued[k]? = some trb → s.ring.entries k = trb.setCycle
  blank : ∀ k, s.enqueued.length ≤ k → k < 4095 → s.ring.entries k = blankTrb
  link : s.ring.entries 4095 = linkTrb base

lemma firstLap_start (base : BitVec 64) : (start base).FirstLap base where
  nEntries := rfl
  physicalAddr := rfl
  enqueue := rfl
  index := rfl
  cycleState := rfl
  oneOpen := Nat.zero_le 1
  inOrder := nil_prefix
  commands := nofun
  filled := fun k trb htrb => absurd htrb (by simp [start])
  blank := by
    intro k _ hk
    simp [start, TlbRing.new, Nat.ne_of_lt hk]
  link := by
    simp [start, TlbRing.new]

section Steps

variable {base : BitVec 64} {s s' : CommandLink} {trb : RawTrb}

variable {r : TlbRing} {a : Nat} {op : RingOp}

lemma enqueueTrb_inside (henqueue : r.enqueue = 16 * a) (hin : a + 1 ≠ r.nEntries - 1) :
    r.enqueueTrb trb false = (a, { r with
      enqueue := 16 * (a + 1)
      entries := update r.entries a trb.setCycle }) := by
  rw [TlbRing.enqueueTrb, TlbRing.getTrb_inside henqueue hin]
  rfl

lemma enqueueTrb_wrap (henqueue : r.enqueue = 16 * a) (hend : a + 1 = r.nEntries - 1) :
    r.enqueueTrb trb false = (a, { r with
      enqueue := 0
      cycle := false
      entries := update (update r.entries (r.nEntries - 1)
        (linkTrb r.physicalAddr)) a trb.setCycle }) := by
  rw [TlbRing.enqueueTrb, TlbRing.getTrb_wrap henqueue hend]
  rfl

section

variable (h : s.FirstLap base)
include h

/-- A command before the link is reached. -/
lemma FirstLap.enqueueStep (htrb : trb.IsCommand) (hroom : s.enqueued.length < 4094)
    (hs : s.step (.enqueue trb) = some s') : s'.FirstLap base := by
  have hin : s.enqueued.length + 1 ≠ s.ring.nEntries - 1 := by
    rw [h.nEntries]
    omega
  have hclosed : s.enqueued.length ≤ s.consumed.length := by
    by_contra hopen
    simp [step, Nat.lt_of_not_le hopen] at hs
  simp only [step, Nat.not_lt_of_le hclosed, if_false, enqueueTrb_inside h.enqueue hin,
    Option.some.injEq] at hs
  subst hs
  refine ⟨h.nEntries, h.physicalAddr, ?_, h.index, h.cycleState, ?_, ?_, ?_, ?_, ?_, ?_⟩
  · simp
  · simpa using hclosed
  · exact h.inOrder.trans (prefix_append _ _)
  · intro t ht
    rcases mem_append.1 ht with hold | hnew
    · exact h.commands t hold
    · rw [mem_singleton.1 hnew]
      exact htrb
  · intro k t ht
    show update s.ring.entries s.enqueued.length trb.setCycle k = t.setCycle
    by_cases hk : k = s.enqueued.length
    · rw [hk, List.getElem?_concat_length] at ht
      rw [hk, update_self, Option.some.inj ht]
    · have hlt : k < s.enqueued.length := by
        have hle := (List.getElem?_eq_some_iff.1 ht).1
        rw [length_append, length_singleton] at hle
        omega
      rw [List.getElem?_append_left hlt] at ht
      rw [update_of_ne hk]
      exact h.filled k t ht
  · intro k hk hlast
    rw [length_append, length_singleton] at hk
    show update s.ring.entries s.enqueued.length trb.setCycle k = blankTrb
    rw [update_of_ne (show k ≠ s.enqueued.length by omega)]
    exact h.blank k (by omega) hlast
  · show update s.ring.entries s.enqueued.length trb.setCycle 4095 = linkTrb base
    rw [update_of_ne (show 4095 ≠ s.enqueued.length by omega)]
    exact h.link

lemma FirstLap.ready_iff (hroom : s.enqueued.length ≤ 4094) :
    (s.ring.entries s.index).cycle = s.cycleState ↔ s.consumed.length < s.enqueued.length := by
  have hle := h.inOrder.length_le
  rw [h.index, h.cycleState]
  constructor
  · intro hcycle
    refine Nat.lt_of_le_of_ne hle fun heq => ?_
    rw [h.blank _ (Nat.le_of_eq heq.symm) (by omega)] at hcycle
    cases hcycle
  · intro hlt
    rw [h.filled _ _ (List.getElem?_eq_getElem hlt), RawTrb.cycle_setCycle]

lemma FirstLap.taken (hlt : s.consumed.length < s.enqueued.length) :
    ∃ t, s.enqueued[s.consumed.length]? = some t ∧ (s.ring.entries s.index).cycle = s.cycleState ∧
      (s.ring.entries s.index).trbType ≠ linkType ∧ (s.ring.entries s.index).clearCycle = t := by
  have ht := List.getElem?_eq_getElem hlt
  have hcommand := h.commands _ (getElem_mem hlt)
  refine ⟨_, ht, ?_⟩
  rw [h.index, h.cycleState, h.filled _ _ ht, RawTrb.cycle_setCycle, RawTrb.trbType_setCycle]
  exact ⟨rfl, hcommand.2, RawTrb.clearCycle_setCycle hcommand.1⟩

/-- Consuming a TRB keeps the first-lap invariant. -/
lemma FirstLap.consumeStep (hroom : s.enqueued.length ≤ 4094) (hs : s.step .consume = some s') :
    s'.FirstLap base := by
  by_cases hcycle : (s.ring.entries s.index).cycle = s.cycleState
  · have hlt := (h.ready_iff hroom).1 hcycle
    rcases h.taken hlt with ⟨t, ht, _, htype, hclear⟩
    simp only [step, hcycle, if_true, htype, if_false, hclear, Option.some.injEq] at hs
    subst hs
    refine { h with index := ?_, oneOpen := ?_, inOrder := snoc_isPrefix h.inOrder ht }
    · simp [h.index]
    · have hopen := h.oneOpen
      simp
      omega
  · simp [step, hcycle] at hs

lemma FirstLap.right (hroom : s.enqueued.length ≤ 4094) : s.Right where
  inOrder := h.inOrder
  complete := by
    intro hrest
    have hnot : ¬ s.consumed.length < s.enqueued.length := fun hlt =>
      hrest ((h.ready_iff hroom).2 hlt)
    exact h.inOrder.eq_of_length_le (Nat.le_of_not_lt hnot)

end

lemma step_enqueued_le (hs : s.step op = some s') : s.enqueued.length ≤ s'.enqueued.length := by
  cases op with
  | enqueue trb =>
    simp only [step] at hs
    split at hs
    · cases hs
    · cases hs
      simp
  | consume =>
    simp only [step] at hs
    split at hs
    · split at hs
      · cases hs
        exact Nat.le_refl _
      · cases hs
        exact Nat.le_refl _
    · cases hs

/-- Every step that stays within the first lap keeps its invariant. -/
lemma FirstLap.step (h : s.FirstLap base) (hop : s.ok op) (hs : s.step op = some s')
    (hroom : s'.enqueued.length ≤ 4094) : s'.FirstLap base := by
  have hold := Nat.le_trans (step_enqueued_le hs) hroom
  cases op with
  | enqueue trb =>
    refine h.enqueueStep hop ?_ hs
    simp only [CommandLink.step] at hs
    split at hs
    · cases hs
    · cases hs
      rw [length_append, length_singleton] at hroom
      omega
  | consume => exact h.consumeStep hold hs

lemma FirstLap.run {t : CommandLink} (hrun : Run CommandLink.step ok s t) (h : s.FirstLap base)
    (hroom : t.enqueued.length ≤ 4094) : t.FirstLap base := by
  induction hrun with
  | refl => exact h
  | tail _ hop hs ih => exact (ih (Nat.le_trans (step_enqueued_le hs) hroom)).step hop hs hroom

end Steps

/-! ## The end of the lap -/

def noopCommand : RawTrb := ⟨0#32, 0#32, 0#32, 23#32 <<< 10⟩

lemma noopCommand_isCommand : noopCommand.IsCommand := by
  decide

section Lap

variable {base : BitVec 64} {s : CommandLink}

/-- The driver enqueues a command and the controller consumes it. -/
lemma FirstLap.round (h : s.FirstLap base) (hclosed : s.consumed = s.enqueued)
    (hroom : s.enqueued.length < 4094) :
    ∃ t, Run CommandLink.step ok s t ∧ t.FirstLap base ∧ t.consumed = t.enqueued ∧
      t.enqueued.length = s.enqueued.length + 1 := by
  obtain ⟨t, hs, hlen, hconsumed⟩ : ∃ t, s.step (.enqueue noopCommand) = some t ∧
      t.enqueued.length = s.enqueued.length + 1 ∧ t.consumed = s.consumed := by
    simp [CommandLink.step, hclosed]
  have ht := h.enqueueStep noopCommand_isCommand hroom hs
  have hlt : t.consumed.length < t.enqueued.length := by
    rw [hconsumed, hlen, hclosed]
    exact Nat.lt_succ_self _
  rcases ht.taken hlt with ⟨trb, _, hcycle, htype, _⟩
  obtain ⟨u, hs', hsent, htaken⟩ : ∃ u, t.step .consume = some u ∧ u.enqueued = t.enqueued ∧
      u.consumed.length = t.consumed.length + 1 := by
    simp [CommandLink.step, hcycle, htype]
  have hu := ht.consumeStep (by omega) hs'
  have hrun : Run CommandLink.step ok s t :=
    Run.single (a := .enqueue noopCommand) noopCommand_isCommand hs
  refine ⟨u, Run.tail (a := .consume) hrun trivial hs', hu, hu.inOrder.eq_of_length ?_,
    by rw [hsent, hlen]⟩
  rw [hsent, htaken, hconsumed, hlen, hclosed]

/-- Every count up to the end of the first lap is reached. -/
lemma exists_rounds (base : BitVec 64) :
    ∀ k, k ≤ 4094 → ∃ t, Run step ok (start base) t ∧ t.FirstLap base ∧ t.consumed = t.enqueued ∧
      t.enqueued.length = k := by
  intro k
  induction k with
  | zero =>
    intro _
    exact ⟨start base, Run.refl _, firstLap_start base, rfl, rfl⟩
  | succ k ih =>
    intro hk
    rcases ih (Nat.le_of_succ_le hk) with ⟨t, hrun, ht, hclosed, hlen⟩
    rcases ht.round hclosed (by omega) with ⟨u, hround, hu, hclosed', hlen'⟩
    exact ⟨u, hrun.trans hround, hu, hclosed', by rw [hlen', hlen]⟩

/-- The last block of the lap is consumed, then the link is followed, and the first block of the lap
is there with the cycle bit that the consumer still looks for. -/
lemma FirstLap.lap_end (h : s.FirstLap base) (hclosed : s.consumed = s.enqueued)
    (hlen : s.enqueued.length = 4094) :
    ∃ t, Run CommandLink.step ok s t ∧ t.enqueued.length = 4095 ∧ t.consumed.length = 4096 := by
  have hend : s.enqueued.length + 1 = s.ring.nEntries - 1 := by rw [h.nEntries, hlen]
  have hfirst : (s.ring.entries 0).cycle = true ∧ (s.ring.entries 0).trbType ≠ linkType := by
    have hlt : 0 < s.enqueued.length := by omega
    rw [h.filled 0 _ (List.getElem?_eq_getElem hlt), RawTrb.cycle_setCycle,
      RawTrb.trbType_setCycle]
    exact ⟨rfl, (h.commands _ (getElem_mem hlt)).2⟩
  rcases linkTrb_fields base with ⟨hlinkCycle, hlinkToggle, hlinkType, hlinkPtr⟩
  -- the ring after the last block of the lap
  obtain ⟨s₁, hs₁, hring, hindex, hcycle, henqueued, hconsumed⟩ :
      ∃ t, s.step (.enqueue noopCommand) = some t ∧
        t.ring = (s.ring.enqueueTrb noopCommand false).2 ∧ t.index = 4094 ∧ t.cycleState = true ∧
        t.enqueued.length = 4095 ∧ t.consumed.length = 4094 := by
    simp [CommandLink.step, hclosed, hlen, h.index, h.cycleState]
  have hentries : s₁.ring.entries = update (update s.ring.entries 4095
      (linkTrb base)) 4094 noopCommand.setCycle := by
    rw [hring, enqueueTrb_wrap h.enqueue hend, h.nEntries, h.physicalAddr, hlen]
  have haddr : s₁.ring.physicalAddr = base := by
    rw [hring, enqueueTrb_wrap h.enqueue hend, h.physicalAddr]
  have hlast : s₁.ring.entries 4094 = noopCommand.setCycle := by rw [hentries, update_self]
  have hlink : s₁.ring.entries 4095 = linkTrb base := by
    rw [hentries, update_of_ne (by decide), update_self]
  have hzero : s₁.ring.entries 0 = s.ring.entries 0 := by
    rw [hentries, update_of_ne (by decide), update_of_ne (by decide)]
  obtain ⟨s₂, hs₂, hring₂, hindex₂, hcycle₂, henqueued₂, hconsumed₂⟩ :
      ∃ t, s₁.step .consume = some t ∧ t.ring = s₁.ring ∧ t.index = 4095 ∧ t.cycleState = true ∧
        t.enqueued.length = 4095 ∧ t.consumed.length = 4095 := by
    have htype : noopCommand.trbType ≠ linkType := by decide
    simp [CommandLink.step, hindex, hlast, hcycle, htype, henqueued, hconsumed]
  obtain ⟨s₃, hs₃, hring₃, hindex₃, hcycle₃, henqueued₃, hconsumed₃⟩ :
      ∃ t, s₂.step .consume = some t ∧ t.ring = s₁.ring ∧ t.index = 0 ∧ t.cycleState = true ∧
        t.enqueued.length = 4095 ∧ t.consumed.length = 4095 := by
    simp [CommandLink.step, hindex₂, hring₂, hlink, hcycle₂, hlinkCycle, hlinkType, hlinkToggle,
      hlinkPtr, haddr, henqueued₂, hconsumed₂]
  obtain ⟨s₄, hs₄, henqueued₄, hconsumed₄⟩ :
      ∃ t, s₃.step .consume = some t ∧ t.enqueued.length = 4095 ∧ t.consumed.length = 4096 := by
    simp [CommandLink.step, hindex₃, hring₃, hzero, hcycle₃, hfirst, henqueued₃, hconsumed₃]
  refine ⟨s₄, ?_, henqueued₄, hconsumed₄⟩
  have hrun : Run CommandLink.step ok s s₁ :=
    Run.single (a := .enqueue noopCommand) noopCommand_isCommand hs₁
  have hrun₂ : Run CommandLink.step ok s s₂ := Run.tail (a := .consume) hrun trivial hs₂
  have hrun₃ : Run CommandLink.step ok s s₃ := Run.tail (a := .consume) hrun₂ trivial hs₃
  exact Run.tail (a := .consume) hrun₃ trivial hs₄

end Lap

end CommandLink

/-- All states with at most `N` enqueued commands are right exactly if `N` is at most 4094: the
consumer takes the first block once more when it has been through the ring. -/
theorem commandRing_right_iff (base : BitVec 64) (N : Nat) :
    (∀ t, Run CommandLink.step CommandLink.ok (.start base) t → t.enqueued.length ≤ N → t.Right) ↔
      N ≤ 4094 := by
  constructor
  · intro hall
    by_contra hlong
    rcases CommandLink.exists_rounds base 4094 (Nat.le_refl _) with ⟨s, hrun, hs, hclosed, hlen⟩
    rcases hs.lap_end hclosed hlen with ⟨t, hrest, henqueued, hconsumed⟩
    have hle := (hall t (hrun.trans hrest) (by omega)).inOrder.length_le
    omega
  · intro hN t hrun hlen
    have hroom := Nat.le_trans hlen hN
    exact ((CommandLink.firstLap_start base).run hrun hroom).right hroom

/-- After 4095 commands the consumer has taken one block more than was enqueued. -/
theorem commandRing_not_right :
    ¬ ∀ (base : BitVec 64) (t : CommandLink),
      Run CommandLink.step CommandLink.ok (.start base) t → t.Right := by
  intro hclaim
  rcases CommandLink.exists_rounds 0x100000#64 4094 (Nat.le_refl _) with
    ⟨s, hrun, hs, hclosed, hlen⟩
  rcases hs.lap_end hclosed hlen with ⟨t, hrest, henqueued, hconsumed⟩
  have hle := (hclaim _ t (hrun.trans hrest)).inOrder.length_le
  omega

end SigmaOS.Drivers.Xhci
