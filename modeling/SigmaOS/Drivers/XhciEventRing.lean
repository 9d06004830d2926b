import SigmaOS.Drivers.Xhci
import SigmaOS.Lib.PhaseRing
import SigmaOS.Lib.Run

/-!
# Drivers.XhciEventRing — the event ring

The controller writes events into a segment of 0x1000 blocks and inverts its cycle bit after each
lap.  `handle_irq` takes its wrap point and the dequeue pointer it reports from a distance in bytes
modulo 0x1000, so for the driver a lap has 256 blocks.  A call that finds no event reports the null
pointer.

`origin` says which event a block was written for, so that an event can be told from another one with
the same contents.
-/

namespace SigmaOS.Drivers.Xhci

open Lib List BitVec

/-! ## Driver and controller -/

/-- The field `dequeue` of `erst_dequeue_t`, without `segment_index` and `event_handler_busy`. -/
def dequeueField (value : BitVec 64) : BitVec 60 :=
  value.extractLsb' 4 60

def RawTrb.withCycle (t : RawTrb) (b : Bool) : RawTrb :=
  { t with data3 := if b then t.data3 ||| 1#32 else t.data3 &&& ~~~1#32 }

/-- The end of a round of the loop in `handle_irq`: the local variable `dequeue`, and the ring after
the event. -/
def TlbRing.nextEvent (r : TlbRing) : BitVec 64 × TlbRing :=
  let index := r.dequeue + 16
  let val := r.physicalAddr + BitVec.ofNat 64 (index % 0x1000)
  if index % 4096 = 0 then
    (val, { r with dequeue := 0, cycle := !r.cycle })
  else
    (val, { r with dequeue := index })

structure Handler where
  dequeue : BitVec 64
  found : Nat
  deriving DecidableEq

/-- A call that has returned: the events it found, the events processed and posted by then, and the
value it wrote to `erst_dequeue`. -/
structure Call where
  found : Nat
  total : Nat
  posted : Nat
  pointer : BitVec 64
  deriving DecidableEq

structure EventLink where
  ring : TlbRing
  handler : Option Handler
  enqueueIndex : Nat
  producerCycle : Bool
  erstDequeue : BitVec 64
  origin : Nat → Option Nat
  posted : Nat
  processed : List (Option Nat)
  calls : List Call

inductive EventOp
  | post (trb : RawTrb)
  | irq
  | look

namespace EventLink

def start (physicalAddr : BitVec 64) : EventLink where
  ring := .newEvent 0x1000 physicalAddr
  handler := none
  enqueueIndex := 0
  producerCycle := true
  erstDequeue := physicalAddr
  origin := fun _ => none
  posted := 0
  processed := []
  calls := []

/-- The controller's next block is the one that the dequeue pointer points to. -/
def Full (s : EventLink) : Prop :=
  dequeueField (s.ring.physicalAddr + BitVec.ofNat 64 (16 * nextIndex 0x1000 s.enqueueIndex)) =
    dequeueField s.erstDequeue

instance (s : EventLink) : Decidable s.Full :=
  inferInstanceAs (Decidable (_ = _))

/-- The controller may post between any two looks of the driver. -/
def step (s : EventLink) : EventOp → Option EventLink
  | .post trb =>
    if s.Full then
      none
    else
      let entries := Function.update s.ring.entries s.enqueueIndex (trb.withCycle s.producerCycle)
      some { s with
        ring := { s.ring with entries := entries }
        origin := Function.update s.origin s.enqueueIndex (some s.posted)
        enqueueIndex := nextIndex 0x1000 s.enqueueIndex
        producerCycle := if s.enqueueIndex + 1 = 0x1000 then !s.producerCycle else s.producerCycle
        posted := s.posted + 1 }
  | .irq =>
    match s.handler with
    | some _ => none
    | none => some { s with handler := some ⟨0#64, 0⟩ }
  | .look =>
    match s.handler with
    | none => none
    | some h =>
      if (s.ring.entries (s.ring.dequeue / 16)).cycle = s.ring.cycle then
        let (dequeue, ring) := s.ring.nextEvent
        some { s with
          ring := ring
          handler := some ⟨dequeue, h.found + 1⟩
          processed := s.processed ++ [s.origin (s.ring.dequeue / 16)] }
      else
        -- `iman |= 1`, then the dequeue pointer with `event_handler_busy`
        let pointer := h.dequeue ||| 8#64
        some { s with
          handler := none
          erstDequeue := pointer
          calls := s.calls ++ [⟨h.found, s.processed.length, s.posted, pointer⟩] }

/-- A call is right if it left no event unprocessed and reported the address of the next event. -/
def CallRight (base : BitVec 64) (c : Call) : Prop :=
  c.total = c.posted ∧
    dequeueField c.pointer = dequeueField (base + BitVec.ofNat 64 (16 * (c.total % 0x1000)))

/-- The events are processed once each and in order, and all calls so far are right. -/
structure Right (base : BitVec 64) (s : EventLink) : Prop where
  inOrder : s.processed = (List.range s.processed.length).map some
  calls : ∀ c ∈ s.calls, CallRight base c

/-- No call that has returned found nothing, or was behind the 255th event; at most one lap of the
driver has been processed. -/
structure Within (s : EventLink) : Prop where
  events : s.processed.length ≤ 256
  calls : ∀ c ∈ s.calls, 1 ≤ c.found ∧ c.total ≤ 255

end EventLink

/-! ## Addresses -/

/-- A segment of physical memory: not at address 0, and it does not wrap. -/
structure IsSegment (base : BitVec 64) : Prop where
  notNull : 16 ≤ base.toNat
  inside : base.toNat + 0x10000 ≤ 2 ^ 64

section Address

variable {base : BitVec 64}

lemma dequeueField_toNat (value : BitVec 64) : (dequeueField value).toNat = value.toNat / 16 := by
  rw [dequeueField, BitVec.extractLsb'_toNat, Nat.shiftRight_eq_div_pow]
  omega

lemma IsSegment.block_toNat (h : IsSegment base) {i : Nat} (hi : i < 0x1000) :
    (base + BitVec.ofNat 64 (16 * i)).toNat = base.toNat + 16 * i := by
  have hinside := h.inside
  rw [toNat_add, toNat_ofNat]
  omega

lemma IsSegment.field_inj (h : IsSegment base) {i j : Nat} (hi : i < 0x1000) (hj : j < 0x1000)
    (heq : dequeueField (base + BitVec.ofNat 64 (16 * i)) =
      dequeueField (base + BitVec.ofNat 64 (16 * j))) : i = j := by
  have hnat := congrArg BitVec.toNat heq
  rw [dequeueField_toNat, dequeueField_toNat, h.block_toNat hi, h.block_toNat hj] at hnat
  omega

lemma dequeueField_busy (value : BitVec 64) :
    dequeueField (value ||| 8#64) = dequeueField value := by
  apply eq_of_getLsbD_eq
  intro i hi
  have hbusy : (8#64).getLsbD (4 + i) = false := by
    have hpow : (8#64 : BitVec 64) = BitVec.twoPow 64 3 := by decide
    rw [hpow, getLsbD_twoPow]
    simp
    omega
  simp only [dequeueField, getLsbD_extractLsb', getLsbD_or, hbusy, Bool.or_false]

lemma IsSegment.field_ne_zero (h : IsSegment base) {i : Nat} (hi : i < 0x1000) :
    dequeueField 0#64 ≠ dequeueField (base + BitVec.ofNat 64 (16 * i)) := by
  intro heq
  have hnat := congrArg BitVec.toNat heq
  have hnull := h.notNull
  rw [dequeueField_toNat, dequeueField_toNat, h.block_toNat hi] at hnat
  change 0 / 16 = _ at hnat
  omega

end Address

@[simp] lemma RawTrb.cycle_withCycle (t : RawTrb) (b : Bool) : (t.withCycle b).cycle = b := by
  cases b with
  | true => simp [withCycle, cycle]
  | false =>
    simp only [withCycle, cycle, Bool.false_eq_true, if_false, getLsbD_and,
      getLsbD_not]
    simp

section NextEvent

variable {r : TlbRing}

lemma TlbRing.nextEvent_wrap (h : (r.dequeue + 16) % 4096 = 0) :
    r.nextEvent = (r.physicalAddr, { r with dequeue := 0, cycle := !r.cycle }) := by
  simp [TlbRing.nextEvent, h]

lemma TlbRing.nextEvent_inside (h : (r.dequeue + 16) % 4096 ≠ 0) :
    r.nextEvent = (r.physicalAddr + BitVec.ofNat 64 ((r.dequeue + 16) % 4096),
      { r with dequeue := r.dequeue + 16 }) := by
  simp [TlbRing.nextEvent, h]

lemma TlbRing.nextEvent_keeps (r : TlbRing) :
    r.nextEvent.2.entries = r.entries ∧ r.nextEvent.2.physicalAddr = r.physicalAddr := by
  by_cases h : (r.dequeue + 16) % 4096 = 0
  · rw [nextEvent_wrap h]
    exact ⟨rfl, rfl⟩
  · rw [nextEvent_inside h]
    exact ⟨rfl, rfl⟩

end NextEvent

namespace EventLink

/-- Where the driver is: in the first 255 events it points to the next one; after the 256th it is
back at the first block, with the other cycle. -/
inductive DriverAt (base : BitVec 64) (s : EventLink) : Prop
  | inside (events : s.processed.length ≤ 255) (dequeue : s.ring.dequeue = 16 * s.processed.length)
      (cycle : s.ring.cycle = true)
      (handler : ∀ h, s.handler = some h → (h.found = 0 ∧ h.dequeue = 0#64) ∨
        (1 ≤ h.found ∧ h.dequeue = base + BitVec.ofNat 64 (16 * s.processed.length)))
  | wrapped (events : s.processed.length = 256) (dequeue : s.ring.dequeue = 0)
      (cycle : s.ring.cycle = false) (handler : ∃ h, s.handler = some h ∧ h.dequeue = base)

structure InStep (base : BitVec 64) (s : EventLink) : Prop where
  physicalAddr : s.ring.physicalAddr = base
  inOrder : s.processed = (List.range s.processed.length).map some
  behind : s.processed.length ≤ s.posted
  enqueueIndex : s.enqueueIndex = s.posted % 0x1000
  producerCycle : s.producerCycle = lapPhase 0x1000 s.posted
  written : Written 0x1000 ((List.range s.posted).map some)
    fun i => ((s.ring.entries i).cycle, s.origin i)
  origins : ∀ i k, s.origin i = some k → k % 0x1000 = i
  given : ∃ e, e ≤ s.processed.length ∧ e ≤ 255 ∧ s.posted ≤ e + 4095 ∧
    dequeueField s.erstDequeue = dequeueField (base + BitVec.ofNat 64 (16 * e))
  driver : s.DriverAt base
  calls : ∀ c ∈ s.calls, CallRight base c ∧ 1 ≤ c.found ∧ c.total ≤ 255

section Steps

variable {base : BitVec 64} {s s' : EventLink}

lemma inStep_start (base : BitVec 64) : (start base).InStep base where
  physicalAddr := rfl
  inOrder := rfl
  behind := Nat.le_refl 0
  enqueueIndex := rfl
  producerCycle := by simp [start, lapPhase]
  written := Written.nil fun i => by simp [start, TlbRing.newEvent]
  origins := fun i k hk => absurd hk (by simp [start])
  given := ⟨0, Nat.le_refl 0, Nat.zero_le _, Nat.zero_le _, by simp [start]⟩
  driver := .inside (Nat.zero_le _) rfl rfl fun h hh => absurd hh (by simp [start])
  calls := nofun

section

variable (h : s.InStep base)
include h

lemma InStep.events_le : s.processed.length ≤ 256 := by
  cases h.driver with
  | inside events => exact Nat.le_succ_of_le events
  | wrapped events => exact Nat.le_of_eq events

lemma InStep.right : s.Right base :=
  ⟨h.inOrder, fun c hc => (h.calls c hc).1⟩

lemma InStep.within : s.Within :=
  ⟨h.events_le, fun c hc => (h.calls c hc).2⟩

/-- The controller posts an event behind those it has posted. -/
lemma InStep.post {trb : RawTrb} (hs : s.step (.post trb) = some s') : s'.InStep base := by
  rcases h.given with ⟨e, he, he255, hahead, hfield⟩
  have hnext : (s.posted + 1) % 0x1000 = nextIndex 0x1000 s.enqueueIndex := by
    rw [h.enqueueIndex]
    exact mod_succ (by decide)
  by_cases hfull : s.Full
  · simp [step, hfull] at hs
  · simp only [step, hfull, if_false, Option.some.injEq] at hs
    subst hs
    -- the next block is not the one that was reported, so there is one more before it
    have hroom : s.posted + 1 ≤ e + 4095 := by
      by_contra hover
      have hlap : (s.posted + 1) % 0x1000 = e := by omega
      apply hfull
      rw [Full, h.physicalAddr, hfield, ← hnext, hlap]
    refine ⟨h.physicalAddr, h.inOrder, Nat.le_succ_of_le h.behind, hnext.symm, ?_, ?_, ?_,
      ⟨e, he, he255, hroom, hfield⟩, ?_, h.calls⟩
    · simp only [h.producerCycle, h.enqueueIndex]
      exact (lapPhase_succ (by decide)).symm
    · have hposted := h.written.post (some s.posted)
      rw [length_map, length_range, ← h.enqueueIndex, ← h.producerCycle] at hposted
      rw [range_succ, map_append]
      refine cast (congrArg _ ?_) hposted
      funext i
      by_cases hi : i = s.enqueueIndex
      · simp [hi]
      · simp [Function.update_of_ne hi]
    · intro i k hk
      by_cases hi : i = s.enqueueIndex
      · rw [hi] at hk ⊢
        simp only [Function.update_self, Option.some.injEq] at hk
        rw [← hk, h.enqueueIndex]
      · simp only [Function.update_of_ne hi] at hk
        exact h.origins i k hk
    · cases h.driver with
      | inside events dequeue cycle handler => exact .inside events dequeue cycle handler
      | wrapped events dequeue cycle handler => exact .wrapped events dequeue cycle handler

/-- An interrupt keeps controller and driver in step. -/
lemma InStep.irq (hs : s.step .irq = some s') : s'.InStep base := by
  cases hh : s.handler with
  | some handler => simp [step, hh] at hs
  | none =>
    simp only [step, hh, Option.some.injEq] at hs
    subst hs
    refine { h with driver := ?_ }
    cases h.driver with
    | inside events dequeue cycle _ =>
      refine .inside events dequeue cycle ?_
      intro handler hnew
      rw [← Option.some.inj hnew]
      exact .inl ⟨rfl, rfl⟩
    | wrapped _ _ _ handler =>
      rcases handler with ⟨_, hsome, _⟩
      rw [hh] at hsome
      cases hsome

/-- Up to the 256th event the cycle bit tells which blocks are posted. -/
lemma InStep.block (events : s.processed.length ≤ 255) :
    ((s.ring.entries s.processed.length).cycle = true ↔ s.processed.length < s.posted) ∧
      (s.processed.length < s.posted →
        s.origin s.processed.length = some s.processed.length) := by
  rcases h.given with ⟨e, he, _, hahead, _⟩
  have hmod : s.processed.length % 0x1000 = s.processed.length := Nat.mod_eq_of_lt (by omega)
  have hphase : lapPhase 0x1000 s.processed.length = true := lapPhase_first (by omega)
  have hlen : ((List.range s.posted).map some).length = s.posted := by simp
  have hbehind := h.behind
  refine ⟨?_, ?_⟩
  · have hready := h.written.ready_iff (c := s.processed.length) (by decide) (by omega) (by omega)
    rwa [hmod, hphase, hlen] at hready
  · intro hlt
    have hitem : ((List.range s.posted).map some)[s.processed.length]? =
        some (some s.processed.length) := by
      simp [hlt]
    have hkept := h.written.kept _ _ hitem (by omega)
    rw [hmod] at hkept
    exact congrArg Prod.snd hkept

end

lemma range_snoc {l : List (Option Nat)} (h : l = (List.range l.length).map some) :
    l ++ [some l.length] = (List.range (l ++ [some l.length]).length).map some := by
  rw [length_append, length_singleton, range_succ, map_append, ← h]
  rfl

/-- The driver takes the event that it finds. -/
lemma DriverAt.next {found : Nat} (haddr : s.ring.physicalAddr = base)
    (events : s.processed.length ≤ 255) (dequeue : s.ring.dequeue = 16 * s.processed.length)
    (cycle : s.ring.cycle = true) (hring : s'.ring = s.ring.nextEvent.2)
    (hhandler : s'.handler = some ⟨s.ring.nextEvent.1, found + 1⟩)
    (hlen : s'.processed.length = s.processed.length + 1) : s'.DriverAt base := by
  by_cases hlast : s.processed.length = 255
  · -- 256 blocks of 16 bytes: the driver's lap is over
    have hwrap : (s.ring.dequeue + 16) % 4096 = 0 := by omega
    rw [TlbRing.nextEvent_wrap hwrap] at hring hhandler
    refine .wrapped ?_ ?_ ?_ ⟨_, hhandler, haddr⟩
    · rw [hlen, hlast]
    · rw [hring]
    · rw [hring, cycle]
      rfl
  · have hinside : (s.ring.dequeue + 16) % 4096 = 16 * (s.processed.length + 1) := by omega
    rw [TlbRing.nextEvent_inside (by omega), hinside] at hring hhandler
    refine .inside ?_ ?_ ?_ ?_
    · omega
    · rw [hring, hlen, dequeue]
      rfl
    · rw [hring]
      exact cycle
    · intro handler hnew
      rw [hhandler] at hnew
      rw [← Option.some.inj hnew, hlen, haddr]
      exact .inr ⟨Nat.succ_pos _, rfl⟩

variable {handler : Handler}

/-- A look of the handler that finds an event. -/
lemma InStep.look_event (h : s.InStep base) (hh : s.handler = some handler)
    (events : s.processed.length ≤ 255) (dequeue : s.ring.dequeue = 16 * s.processed.length)
    (cycle : s.ring.cycle = true) (hlt : s.processed.length < s.posted)
    (hs : s.step .look = some s') : s'.InStep base := by
  rcases h.block events with ⟨hready, horigin⟩
  have hslot : s.ring.dequeue / 16 = s.processed.length := by omega
  have hfound : (s.ring.entries (s.ring.dequeue / 16)).cycle = s.ring.cycle := by
    rw [hslot, cycle]
    exact hready.2 hlt
  have hevent : s.origin (s.ring.dequeue / 16) = some s.processed.length := by
    rw [hslot]
    exact horigin hlt
  simp only [step, hh, hfound, if_true, hevent, Option.some.injEq] at hs
  subst hs
  rcases h.given with ⟨e, he, he255, hahead, hfield⟩
  rcases s.ring.nextEvent_keeps with ⟨hentries, haddr⟩
  have hlen : (s.processed ++ [some s.processed.length]).length = s.processed.length + 1 := by simp
  refine ⟨haddr.trans h.physicalAddr, range_snoc h.inOrder, ?_, h.enqueueIndex, h.producerCycle, ?_,
    h.origins, ⟨e, ?_, he255, hahead, hfield⟩, .next h.physicalAddr events dequeue cycle rfl rfl hlen,
    h.calls⟩
  · rw [hlen]
    exact hlt
  · simp only [hentries]
    exact h.written
  · rw [hlen]
    exact Nat.le_succ_of_le he

section

variable (hbase : IsSegment base) (h : s.InStep base)
include hbase h

/-- A look that finds none ends the call, or the 256th event was missed. -/
lemma InStep.look_return (hh : s.handler = some handler) (events : s.processed.length ≤ 255)
    (dequeue : s.ring.dequeue = 16 * s.processed.length) (cycle : s.ring.cycle = true)
    (hlocal : (handler.found = 0 ∧ handler.dequeue = 0#64) ∨
      (1 ≤ handler.found ∧ handler.dequeue = base + BitVec.ofNat 64 (16 * s.processed.length)))
    (hlt : ¬ s.processed.length < s.posted) (hs : s.step .look = some s') :
    s'.InStep base ∨ (¬ s'.Right base ∧ ¬ s'.Within) := by
  rcases h.block events with ⟨hready, _⟩
  have hslot : s.ring.dequeue / 16 = s.processed.length := by omega
  have hmiss : ¬ (s.ring.entries (s.ring.dequeue / 16)).cycle = s.ring.cycle := by
    rw [hslot, cycle]
    exact fun hcycle => hlt (hready.1 hcycle)
  simp only [step, hh, hmiss, if_false, Option.some.injEq] at hs
  subst hs
  have hmod : s.processed.length % 0x1000 = s.processed.length := Nat.mod_eq_of_lt (by omega)
  have hbehind := h.behind
  rcases hlocal with ⟨hnone, hnull⟩ | ⟨hsome, hpointer⟩
  · refine .inr ⟨?_, ?_⟩
    · intro hright
      have hlast := (hright.calls _ (mem_append_right _ (mem_singleton_self _))).2
      simp only [dequeueField_busy, hnull, hmod] at hlast
      exact hbase.field_ne_zero (by omega) hlast
    · intro hwithin
      have hlast := (hwithin.calls _ (mem_append_right _ (mem_singleton_self _))).1
      simp only [hnone] at hlast
      omega
  · have hfield : dequeueField (handler.dequeue ||| 8#64) =
        dequeueField (base + BitVec.ofNat 64 (16 * s.processed.length)) := by
      rw [dequeueField_busy, hpointer]
    refine .inl { h with given := ?_, driver := ?_, calls := ?_ }
    · have hposted : s.posted ≤ s.processed.length + 4095 := by omega
      exact ⟨s.processed.length, Nat.le_refl _, events, hposted, hfield⟩
    · exact .inside events dequeue cycle fun h' hnew => absurd hnew (by simp)
    · intro c hc
      rcases mem_append.1 hc with hold | hnew
      · exact h.calls c hold
      · rw [mem_singleton.1 hnew]
        refine ⟨⟨?_, ?_⟩, hsome, events⟩
        · show s.processed.length = s.posted
          omega
        · simp only [hmod]
          exact hfield

/-- After the 256th event nothing is right any more: the call returns with the address of the first
block, or takes an event of the next lap for the next one. -/
lemma InStep.look_wrapped (events : s.processed.length = 256) (dequeue : s.ring.dequeue = 0)
    (hh : s.handler = some handler) (hlocal : handler.dequeue = base)
    (hs : s.step .look = some s') : ¬ s'.Right base ∧ ¬ s'.Within := by
  by_cases hcycle : (s.ring.entries (s.ring.dequeue / 16)).cycle = s.ring.cycle
  · simp only [step, hh, hcycle, if_true, Option.some.injEq] at hs
    subst hs
    refine ⟨?_, ?_⟩
    · intro hright
      have hall := hright.inOrder
      rw [length_append, length_singleton, range_succ, map_append,
        ← h.inOrder] at hall
      have hlast : s.origin (s.ring.dequeue / 16) = some s.processed.length := by simpa using hall
      -- the first block is only ever used for events whose number is a multiple of 0x1000
      have hmultiple := h.origins _ _ hlast
      omega
    · intro hwithin
      have hlong := hwithin.events
      simp only [length_append, length_singleton, events] at hlong
      omega
  · simp only [step, hh, hcycle, if_false, Option.some.injEq] at hs
    subst hs
    refine ⟨?_, ?_⟩
    · intro hright
      have hlast := (hright.calls _ (mem_append_right _ (mem_singleton_self _))).2
      simp only [dequeueField_busy, hlocal, events] at hlast
      have hfirst : dequeueField (base + BitVec.ofNat 64 (16 * 0)) =
          dequeueField (base + BitVec.ofNat 64 (16 * 256)) := by
        simpa using hlast
      exact absurd (hbase.field_inj (by decide) (by decide) hfirst) (by decide)
    · intro hwithin
      have hlast := (hwithin.calls _ (mem_append_right _ (mem_singleton_self _))).2
      simp only [events] at hlast
      omega

/-- A look stays in step, or leaves a wrong state outside the bounds. -/
lemma InStep.look (hs : s.step .look = some s') :
    s'.InStep base ∨ (¬ s'.Right base ∧ ¬ s'.Within) := by
  cases hh : s.handler with
  | none => simp [EventLink.step, hh] at hs
  | some handler =>
    cases h.driver with
    | inside events dequeue cycle hlocal =>
      by_cases hlt : s.processed.length < s.posted
      · exact .inl (h.look_event hh events dequeue cycle hlt hs)
      · exact h.look_return hbase hh events dequeue cycle (hlocal handler hh) hlt hs
    | wrapped events dequeue _ hlocal =>
      rcases hlocal with ⟨handler', hsome, hbase'⟩
      exact .inr (h.look_wrapped hbase events dequeue hsome hbase' hs)

end

/-- What was processed stays. -/
lemma step_grows {op : EventOp} (hs : s.step op = some s') :
    s.processed <+: s'.processed ∧ s.calls <+: s'.calls := by
  cases op with
  | post trb =>
    simp only [step] at hs
    split at hs
    · cases hs
    · cases hs
      exact ⟨prefix_refl _, prefix_refl _⟩
  | irq =>
    simp only [step] at hs
    split at hs
    · cases hs
    · cases hs
      exact ⟨prefix_refl _, prefix_refl _⟩
  | look =>
    simp only [step] at hs
    split at hs
    · cases hs
    · split at hs
      · cases hs
        exact ⟨prefix_append _ _, prefix_refl _⟩
      · cases hs
        exact ⟨prefix_refl _, prefix_append _ _⟩

lemma Right.of_grows (h : s'.Right base) (hp : s.processed <+: s'.processed)
    (hc : s.calls <+: s'.calls) : s.Right base where
  inOrder := by
    have htake : s.processed = s'.processed.take s.processed.length :=
      prefix_iff_eq_take.1 hp
    rw [h.inOrder, ← map_take, take_range, Nat.min_eq_left hp.length_le] at htake
    exact htake
  calls := fun c hin => h.calls c (hc.subset hin)

lemma Within.of_grows (h : s'.Within) (hp : s.processed <+: s'.processed)
    (hc : s.calls <+: s'.calls) : s.Within :=
  ⟨Nat.le_trans hp.length_le h.events, fun c hin => h.calls c (hc.subset hin)⟩

/-- The same along a whole run. -/
lemma run_inStep_or {t : EventLink} (hbase : IsSegment base)
    (hrun : Run EventLink.step (fun _ _ => True) s t) (h : s.InStep base) :
    t.InStep base ∨ (¬ t.Right base ∧ ¬ t.Within) := by
  refine hrun.invariant (I := fun t => t.InStep base ∨ (¬ t.Right base ∧ ¬ t.Within)) (.inl h) ?_
  rintro t op u (hin | ⟨hwrong, hout⟩) _ hs
  · cases op with
    | post trb => exact .inl (hin.post hs)
    | irq => exact .inl (hin.irq hs)
    | look => exact hin.look hbase hs
  · rcases step_grows hs with ⟨hp, hc⟩
    exact .inr ⟨fun hright => hwrong (hright.of_grows hp hc),
      fun hwithin => hout (hwithin.of_grows hp hc)⟩

/-- A run of up to 256 events, with the driver in step. -/
lemma exists_events (hbase : IsSegment base) :
    ∀ k, k ≤ 256 → ∃ t, Run EventLink.step (fun _ _ => True) (start base) t ∧ t.InStep base ∧
      (∃ handler, t.handler = some handler) ∧ t.processed.length = k ∧ t.posted = k := by
  intro k
  induction k with
  | zero =>
    intro _
    have hs : (start base).step .irq = some { start base with handler := some ⟨0#64, 0⟩ } := rfl
    exact ⟨_, Run.single (a := .irq) trivial hs, (inStep_start base).irq hs, ⟨_, rfl⟩, rfl, rfl⟩
  | succ k ih =>
    intro hk
    rcases ih (Nat.le_of_succ_le hk) with ⟨t, hrun, hin, ⟨handler, hh⟩, hprocessed, hposted⟩
    have hroom : ¬ t.Full := by
      intro hfull
      rcases hin.given with ⟨e, he, he255, _, hfield⟩
      rw [Full, hfield, hin.physicalAddr, hin.enqueueIndex, ← mod_succ (by decide)] at hfull
      have heq := hbase.field_inj (Nat.mod_lt _ (by decide)) (by omega) hfull
      omega
    obtain ⟨u, hs, hu, hhu, hpu⟩ : ∃ u, t.step (.post blankTrb) = some u ∧
        u.handler = some handler ∧ u.processed = t.processed ∧ u.posted = t.posted + 1 := by
      simp [EventLink.step, hroom, hh]
    have hin' := hin.post hs
    cases hin'.driver with
    | wrapped events =>
      rw [hhu] at events
      omega
    | inside events dequeue cycle _ =>
      have hlt : u.processed.length < u.posted := by
        rw [hhu, hpu]
        omega
      have hready := (hin'.block events).1.2 hlt
      have hslot : u.ring.dequeue / 16 = u.processed.length := by omega
      obtain ⟨v, hs', hhv, hlv, hpv⟩ : ∃ v, u.step .look = some v ∧
          (∃ handler, v.handler = some handler) ∧
          v.processed.length = u.processed.length + 1 ∧ v.posted = u.posted := by
        simp [EventLink.step, hu, hslot, hready, cycle]
      refine ⟨v, Run.tail (a := .look) (Run.tail (a := .post blankTrb) hrun trivial hs) trivial hs',
        hin'.look_event hu events dequeue cycle hlt hs', hhv, ?_, ?_⟩
      · rw [hlv, hhu, hprocessed]
      · rw [hpv, hpu, hposted]

end Steps

end EventLink

/-- For every run of posts and `handle_irq` calls: each event is processed once and in order, and every
call reports the address of the next event, exactly if every call that returned had found an event and
not gone beyond the 255th, and not more than 256 events are processed. -/
theorem eventRing_right_iff (base : BitVec 64) (hbase : IsSegment base) (t : EventLink)
    (hrun : Run EventLink.step (fun _ _ => True) (.start base) t) : t.Right base ↔ t.Within := by
  rcases EventLink.run_inStep_or hbase hrun (EventLink.inStep_start base) with
    hin | ⟨hwrong, hout⟩
  · exact iff_of_true hin.right hin.within
  · exact iff_of_false hwrong hout

/-- Two events in one call. -/
theorem eventRing_right_two :
    ∃ t, exec EventLink.step (.start 0x200000#64)
        [.post blankTrb, .irq, .look, .post blankTrb, .look, .look] = some t ∧
      t.calls = [⟨2, 2, 2, 0x200028#64⟩] ∧ t.Right 0x200000#64 := by
  have hrun : ∃ t, exec EventLink.step (.start 0x200000#64)
        [.post blankTrb, .irq, .look, .post blankTrb, .look, .look] = some t ∧
      t.calls = [⟨2, 2, 2, 0x200028#64⟩] ∧ t.processed.length = 2 :=
    ⟨_, rfl, rfl, rfl⟩
  rcases hrun with ⟨t, hexec, hcalls, hevents⟩
  refine ⟨t, hexec, hcalls, ?_⟩
  apply (eventRing_right_iff 0x200000#64 ⟨by decide, by decide⟩ t
    (exec_run hexec fun _ _ _ => trivial)).2
  refine ⟨by omega, ?_⟩
  intro c hc
  rw [hcalls] at hc
  rw [List.mem_singleton.1 hc]
  decide

/-- After 256 events in one call, the address that is reported is that of the first block. -/
theorem eventRing_not_right :
    ¬ ∀ (base : BitVec 64), IsSegment base → ∀ t : EventLink,
      Run EventLink.step (fun _ _ => True) (.start base) t → t.Right base := by
  intro hclaim
  have hbase : IsSegment 0x200000#64 := ⟨by decide, by decide⟩
  rcases EventLink.exists_events hbase 256 (Nat.le_refl _) with
    ⟨t, hrun, hin, ⟨handler, hh⟩, hprocessed, _⟩
  cases hin.driver with
  | inside events => omega
  | wrapped events dequeue _ hlocal =>
    rcases hlocal with ⟨handler', hsome, hpointer⟩
    obtain ⟨u, hs⟩ : ∃ u, t.step .look = some u := by
      by_cases hcycle : (t.ring.entries (t.ring.dequeue / 16)).cycle = t.ring.cycle
      · simp [EventLink.step, hh, hcycle]
      · simp [EventLink.step, hh, hcycle]
    have hright := hclaim _ hbase u (Run.tail (a := .look) hrun trivial hs)
    exact (hin.look_wrapped hbase events dequeue hsome hpointer hs).1 hright

end SigmaOS.Drivers.Xhci
