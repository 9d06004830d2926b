import SigmaOS.Drivers.XhciTransfer
import SigmaOS.Lib.AnswerTable
import SigmaOS.Lib.PhaseRing

/-!
# Drivers.XhciCompletion — which event a call returns on

A ring has 4095 blocks before it starts again, and block `k` of all blocks of a ring is at index `k
% 4095`.  Its event is filed under `doneIndex`, and the call whose last block it is waits under
`waitIndex`.  What holds along every run is `InStep`: the blocks are where the indices say, and a
ring's map is the table of the events that were delivered.
-/

namespace SigmaOS.Drivers.Xhci

open Lib List BitVec

/-! ## Keys -/

/-- Where `handle_irq` files the event of block `k`. -/
def doneIndex : RingId → Nat → Nat
  | .command, k => k % 4095
  | .port _, k => if k % 4095 = 0xfe then 0 else k % 4095 + 1

/-- Where a call whose last block is block `k` waits. -/
def waitIndex : RingId → Nat → Nat
  | .command, k => k % 4095
  | .port _, k => (k + 1) % 4095

def doneKey (id : RingId) (k : Nat) : BitVec 64 :=
  BitVec.ofNat 64 (doneIndex id k)

/-- The last blocks of calls that find only their own event. -/
def FreshKey : RingId → Nat → Prop
  | .command, k => k ≤ 4094
  | .port _, k => k ≤ 4093

section Keys

variable {id : RingId} {k n : Nat}

lemma doneIndex_lt (id : RingId) (k : Nat) : doneIndex id k < 4096 := by
  have hlt : k % 4095 < 4095 := Nat.mod_lt k (by decide)
  cases id with
  | command => exact Nat.lt_succ_of_lt hlt
  | port p =>
    simp only [doneIndex]
    split <;> omega

lemma waitIndex_lt (id : RingId) (k : Nat) : waitIndex id k < 4096 := by
  cases id with
  | command => exact Nat.lt_succ_of_lt (Nat.mod_lt k (by decide))
  | port p => exact Nat.lt_succ_of_lt (Nat.mod_lt (k + 1) (by decide))

lemma ofNat_index_inj {i j : Nat} (hi : i < 4096) (hj : j < 4096)
    (h : BitVec.ofNat 64 i = BitVec.ofNat 64 j) : i = j := by
  have hnat := congrArg BitVec.toNat h
  rw [toNat_ofNat, toNat_ofNat] at hnat
  omega

/-- At a fresh index only the newest TRB completes. -/
lemma FreshKey.only (hfresh : FreshKey id n) (hk : k ≤ n)
    (hkey : doneKey id k = BitVec.ofNat 64 (waitIndex id n)) : k = n := by
  have hindex := ofNat_index_inj (doneIndex_lt id k) (waitIndex_lt id n) hkey
  cases id with
  | command =>
    simp only [FreshKey] at hfresh
    simp only [doneIndex, waitIndex] at hindex
    omega
  | port p =>
    simp only [FreshKey] at hfresh
    simp only [doneIndex, waitIndex] at hindex
    split at hindex <;> omega

end Keys

/-! ## What the driver's functions do on a ring -/

structure TlbRing.After (base : BitVec 64) (n : Nat) (r : TlbRing) : Prop where
  nEntries : r.nEntries = 0x1000
  physicalAddr : r.physicalAddr = base
  enqueue : r.enqueue = 16 * (n % 4095)

section Rings

variable {base : BitVec 64} {n : Nat} {r : TlbRing}

lemma TlbRing.After.getTrb (h : r.After base n) :
    r.getTrb.1 = n % 4095 ∧ r.getTrb.2.After base (n + 1) := by
  have hnext : (n + 1) % 4095 = nextIndex 4095 (n % 4095) := mod_succ (by decide)
  by_cases hend : n % 4095 + 1 = 4095
  · rw [TlbRing.getTrb_wrap h.enqueue (by rw [h.nEntries]; exact hend)]
    refine ⟨rfl, h.nEntries, h.physicalAddr, ?_⟩
    rw [hnext, nextIndex, if_pos hend]
  · rw [TlbRing.getTrb_inside h.enqueue (by rw [h.nEntries]; exact hend)]
    refine ⟨rfl, h.nEntries, h.physicalAddr, ?_⟩
    rw [hnext, nextIndex, if_neg hend]

lemma TlbRing.After.enqueueTrb (h : r.After base n) (trb : RawTrb) (first : Bool) :
    (r.enqueueTrb trb first).1 = n % 4095 ∧ (r.enqueueTrb trb first).2.After base (n + 1) := by
  rcases h.getTrb with ⟨hindex, hring⟩
  exact ⟨hindex, hring.nEntries, hring.physicalAddr, hring.enqueue⟩

lemma TlbRing.After.putStage (h : r.After base n) (fill : RawTrb → RawTrb) :
    (r.putStage fill).1 = n % 4095 ∧ (r.putStage fill).2.After base (n + 1) := by
  rcases h.getTrb with ⟨hindex, hring⟩
  exact ⟨hindex, hring.nEntries, hring.physicalAddr, hring.enqueue⟩

lemma TlbRing.After.controlIndex (h : r.After base (n + 1)) (p : Nat) :
    r.controlIndex = BitVec.ofNat 64 (waitIndex (.port p) n) := by
  apply eq_of_toNat_eq
  rw [TlbRing.controlIndex, h.enqueue, Nat.mul_div_cancel_left _ (by decide), toNat_setWidth,
    toNat_ofNat, toNat_ofNat, waitIndex]
  omega

def controlBlocks (packet : Packet) (dma : Option (BitVec 64)) : Nat :=
  if packet.length = 0#16 then 2 else if dma.isSome then 3 else 1

def Allocated (packet : Packet) (dma : Option (BitVec 64)) : Prop :=
  packet.length = 0#16 ∨ dma.isSome

instance (packet : Packet) (dma : Option (BitVec 64)) : Decidable (Allocated packet dma) :=
  inferInstanceAs (Decidable (_ ∨ _))

lemma controlBlocks_pos (packet : Packet) (dma : Option (BitVec 64)) :
    0 < controlBlocks packet dma := by
  unfold controlBlocks
  split
  · decide
  · split <;> decide

/-- A control transfer puts its blocks behind each other and waits for the last. -/
lemma TlbRing.After.sendControl (h : r.After base n) (p : Nat) (packet : Packet) (write : Bool)
    (dma : Option (BitVec 64)) :
    (r.sendControl packet write dma).1 =
        (List.range (controlBlocks packet dma)).map (fun i => (n + i) % 4095) ∧
      (r.sendControl packet write dma).2.1.After base (n + controlBlocks packet dma) ∧
      (r.sendControl packet write dma).2.2 =
        if Allocated packet dma then
          some (BitVec.ofNat 64 (waitIndex (.port p) (n + controlBlocks packet dma - 1)))
        else none := by
  rcases h.putStage (RawTrb.setupStage packet) with ⟨hsetup, h₁⟩
  by_cases hlength : packet.length = 0#16
  · rcases h₁.putStage (RawTrb.statusStage write) with ⟨hstatus, h₂⟩
    have hkey := h₂.controlIndex p
    simp [TlbRing.sendControl, controlBlocks, Allocated, hlength, hsetup, hstatus, hkey, h₂,
      range_succ]
  · cases dma with
    | none => simp [TlbRing.sendControl, controlBlocks, Allocated, hlength, hsetup, h₁]
    | some physicalAddr =>
      rcases h₁.putStage (RawTrb.dataStage packet write physicalAddr) with ⟨hdata, h₂⟩
      rcases h₂.putStage (RawTrb.statusStage write) with ⟨hstatus, h₃⟩
      have hkey := h₃.controlIndex p
      simp [TlbRing.sendControl, controlBlocks, Allocated, hlength, hsetup, hdata, hstatus, hkey,
        h₃, range_succ]

end Rings

section Events

lemma blockIndex (base : BitVec 64) {i : Nat} (hi : i < 4096) :
    (base + BitVec.ofNat 64 (16 * i) - base) / 0x10#64 = BitVec.ofNat 64 i := by
  have hsub : base + BitVec.ofNat 64 (16 * i) - base = BitVec.ofNat 64 (16 * i) := by
    rw [BitVec.add_comm, BitVec.add_sub_cancel]
  apply BitVec.eq_of_toNat_eq
  have hsmall : 16 * i % 2 ^ 64 = 16 * i := Nat.mod_eq_of_lt (by omega)
  rw [hsub, BitVec.toNat_udiv, BitVec.toNat_ofNat, BitVec.toNat_ofNat, BitVec.toNat_ofNat, hsmall]
  change 16 * i / 16 = i % 2 ^ 64
  omega

lemma int_index {i : Nat} (hi : i < 4096) :
    ((BitVec.ofNat 64 i).setWidth 32).signExtend 64 = BitVec.ofNat 64 i := by
  have hnat : ((BitVec.ofNat 64 i).setWidth 32).toNat = i := by
    rw [toNat_setWidth, toNat_ofNat]
    omega
  have hmsb : ((BitVec.ofNat 64 i).setWidth 32).msb = false := by
    rw [msb_eq_false_iff_two_mul_lt, hnat]
    omega
  apply eq_of_toNat_eq
  rw [signExtend_eq_setWidth_of_msb_false hmsb, toNat_setWidth, hnat,
    toNat_ofNat]

lemma port_index {i : Nat} (hi : i < 4095) :
    (if BitVec.ofNat 64 i = 0xfe#64 then -1#64 else BitVec.ofNat 64 i) + 1#64 =
      BitVec.ofNat 64 (if i = 0xfe then 0 else i + 1) := by
  by_cases hfe : i = 0xfe
  · rw [hfe]
    decide
  · have hne : BitVec.ofNat 64 i ≠ 0xfe#64 := fun heq =>
    hfe (ofNat_index_inj (Nat.lt_succ_of_lt hi) (by decide) heq)
    rw [if_neg hne, if_neg hfe, ofNat_add]

variable {c : Controller} {base : BitVec 64} {id : RingId} {event : RawTrb} {k : Nat}

/-- A completion goes to the ring and the key of its block. -/
lemma Controller.handleEvent_completes (haddr : (c.rings id).ring.physicalAddr = base)
    (hport : ∀ p, id = .port p → c.Registered p)
    (hevent : c.Completes event (base + BitVec.ofNat 64 (16 * (k % 4095))) id) :
    c.handleEvent event = some (c.finish id (doneKey id k) event) := by
  have hlt : k % 4095 < 4095 := Nat.mod_lt k (by decide)
  have hindex := blockIndex base (Nat.lt_succ_of_lt hlt)
  cases id with
  | command =>
    rcases hevent with ⟨htype, hptr⟩
    have hother : commandCompletionEvent ≠ transferEvent := by decide
    simp only [handleEvent, htype, hother, if_false, if_true, hptr, haddr, hindex,
      int_index (Nat.lt_succ_of_lt hlt)]
    rfl
  | port p =>
    rcases hevent with ⟨htype, hendpoint, hslot, hptr⟩
    have hfound : c.portBySlotId event.slotId = some p := by
      rw [hslot]
      exact hport p rfl
    simp only [handleEvent, htype, if_true, hendpoint, hfound, hptr, haddr, hindex,
      port_index hlt]
    rfl

end Events

/-! ## Every run -/

def Phase.call : Phase → Option Waiting
  | .idle => none
  | .waiting call => some call
  | .handling call => some call

namespace Exchange

def answers (events : BitVec 64 → TrbEvent) (key : BitVec 64) : Option RawTrb :=
  if (events key).finished then some (events key).trb else none

/-- The state of a ring after the blocks `issued` and the events `delivered`. -/
structure RingAt (base : BitVec 64) (id : RingId) (issued : List (BitVec 64))
    (delivered : List RawTrb) (r : DriverRing) : Prop where
  ring : r.ring.After base issued.length
  places : ∀ k addr, issued[k]? = some addr → addr = base + BitVec.ofNat 64 (16 * (k % 4095))
  behind : delivered.length ≤ issued.length
  filed : Filed (doneKey id) delivered (answers r.events)

structure WaitsAt (issued : RingId → List (BitVec 64)) (call : Waiting) : Prop where
  index : call.index = BitVec.ofNat 64 (waitIndex call.ring call.last)
  last : call.last + 1 = (issued call.ring).length

structure InStep (base : RingId → BitVec 64) (c : Controller) (s : Exchange) : Prop where
  slotId : s.controller.slotId = c.slotId
  portBySlotId : s.controller.portBySlotId = c.portBySlotId
  rings : ∀ id, RingAt (base id) id (s.issued id) (s.delivered id) (s.controller.rings id)
  registered : ∀ p, s.issued (.port p) ≠ [] → c.Registered p
  call : ∀ call, s.phase.call = some call → WaitsAt s.issued call

section Cases

variable {s t : Exchange}

lemma sendCommand_cases {trb : RawTrb} (hs : s.step (.sendCommand trb) = some t) :
    s.phase = .idle ∧
      let placed := (s.controller.rings .command).ring.enqueueTrb trb false
      t = { s.place .command [placed.1] placed.2 with
        phase := .waiting ⟨.command, BitVec.ofNat 64 placed.1, (s.issued .command).length⟩ } := by
  cases hphase : s.phase <;> simp only [step, hphase] at hs <;> cases hs
  exact ⟨rfl, rfl⟩

/-- A look either finds the slot finished and returns, or goes on to handle events. -/
lemma look_cases (hs : s.step .look = some t) :
    ∃ call, s.phase = .waiting call ∧
      (((s.controller.rings call.ring).events call.index).finished = true ∧ t = s.returnFrom call ∨
        t = { s with phase := .handling call }) := by
  cases hphase : s.phase with
  | waiting call =>
    refine ⟨call, rfl, ?_⟩
    simp only [step, hphase] at hs
    split at hs
    · next hfinished =>
      exact .inl ⟨hfinished, (Option.some.inj hs).symm⟩
    · exact .inr (Option.some.inj hs).symm
  | idle => simp [step, hphase] at hs
  | handling call => simp [step, hphase] at hs

lemma event_cases {id : RingId} {event : RawTrb} (hs : s.step (.event id event) = some t) :
    (∃ call, s.phase = .handling call) ∧
      ∃ c, s.controller.handleEvent event = some c ∧ t = s.deliver id event c := by
  cases hphase : s.phase <;> simp only [step, hphase] at hs
  · cases hs
  · cases hs
  · split at hs
    · cases hs
    · next c hc =>
      exact ⟨⟨_, rfl⟩, c, hc, (Option.some.inj hs).symm⟩

lemma leave_cases (hs : s.step .leave = some t) :
    ∃ call, s.phase = .handling call ∧ t = { s with phase := .waiting call } := by
  cases hphase : s.phase <;> simp only [step, hphase] at hs <;> cases hs
  exact ⟨_, rfl, rfl⟩

end Cases

section Steps

variable {base : RingId → BitVec 64} {c : Controller} {s t : Exchange} {id : RingId}

lemma inStep_start (base : RingId → BitVec 64) (slotId : Nat → BitVec 8)
    (portBySlotId : BitVec 8 → Option Nat) :
    (start (.new base slotId portBySlotId)).InStep base (.new base slotId portBySlotId) where
  slotId := rfl
  portBySlotId := rfl
  rings := fun id =>
    { ring := ⟨rfl, rfl, rfl⟩
      places := fun k addr haddr => absurd haddr (by simp [start])
      behind := Nat.le_refl 0
      filed := Filed.nil fun key => by simp [answers, start, Controller.new] }
  registered := fun p hp => absurd rfl hp
  call := fun call hcall => by cases hcall

variable {p n : Nat} {b : BitVec 64} {issued : List (BitVec 64)} {delivered : List RawTrb}
  {r : DriverRing} {ring : TlbRing} {call : Waiting} {packet : Packet} {write : Bool}
  {dma : Option (BitVec 64)} {event : RawTrb} {op : ExchangeOp}

lemma InStep.registered_of (h : s.InStep base c) :
    s.controller.Registered p ↔ c.Registered p := by
  rw [Controller.Registered, Controller.Registered, h.slotId, h.portBySlotId]

/-- The ring record follows the blocks that were put on it. -/
lemma RingAt.place (h : RingAt b id issued delivered r)
    (hring : ring.After b (issued.length + n)) :
    RingAt b id (issued ++ ((List.range n).map fun i => (issued.length + i) % 4095).map
      fun i => ring.physicalAddr + BitVec.ofNat 64 (16 * i)) delivered { r with ring := ring } where
  ring := by
    simpa using hring
  places := by
    intro k addr haddr
    by_cases hk : k < issued.length
    · rw [List.getElem?_append_left hk] at haddr
      exact h.places k addr haddr
    · have hle := Nat.le_of_not_lt hk
      rw [List.getElem?_append_right hle, List.getElem?_map, List.getElem?_map] at haddr
      rcases Option.map_eq_some_iff.1 haddr with ⟨i, hi, rfl⟩
      rcases Option.map_eq_some_iff.1 hi with ⟨j, hj, rfl⟩
      have hjk : k - issued.length = j := by
        rcases List.getElem?_eq_some_iff.1 hj with ⟨_, hval⟩
        simpa using hval
      rw [hring.physicalAddr, ← hjk, Nat.add_sub_cancel' hle]
  behind := by
    rw [length_append]
    exact Nat.le_add_right_of_le h.behind
  filed := h.filed

/-- Blocks on one ring change nothing of the others. -/
lemma InStep.place (h : s.InStep base c) (hidle : s.phase = .idle)
    (hport : ∀ p, id = .port p → c.Registered p)
    (hring : ring.After (base id) ((s.issued id).length + n)) :
    (s.place id ((List.range n).map fun i => ((s.issued id).length + i) % 4095) ring).InStep
      base c where
  slotId := h.slotId
  portBySlotId := h.portBySlotId
  rings := by
    intro other
    by_cases hother : other = id
    · subst hother
      simpa [Exchange.place] using (h.rings other).place hring
    · simpa [Exchange.place, hother] using h.rings other
  registered := by
    intro p hp
    by_cases hother : RingId.port p = id
    · exact hport p hother.symm
    · refine h.registered p ?_
      simpa [Exchange.place, hother] using hp
  call := by
    intro call hcall
    rw [show (s.place id _ ring).phase = s.phase from rfl, hidle] at hcall
    cases hcall

lemma length_place (s : Exchange) (id : RingId) (indices : List Nat) (ring : TlbRing) :
    ((s.place id indices ring).issued id).length = (s.issued id).length + indices.length := by
  simp [place]

section

variable (h : s.InStep base c)
include h

lemma InStep.setPhase {phase : Phase}
    (hcall : ∀ call, phase.call = some call → WaitsAt s.issued call) :
    InStep base c { s with phase := phase } where
  slotId := h.slotId
  portBySlotId := h.portBySlotId
  rings := h.rings
  registered := h.registered
  call := hcall

lemma InStep.wait (hindex : call.index = BitVec.ofNat 64 (waitIndex call.ring call.last))
    (hlast : call.last + 1 = (s.issued call.ring).length) :
    InStep base c { s with phase := .waiting call } := by
  refine h.setPhase fun other hother => ?_
  cases hother
  exact ⟨hindex, hlast⟩

lemma InStep.sendCommandStep {trb : RawTrb} (hs : s.step (.sendCommand trb) = some t) :
    t.InStep base c := by
  rcases (h.rings .command).ring.enqueueTrb trb false with ⟨hindex, hring⟩
  rcases sendCommand_cases hs with ⟨hidle, rfl⟩
  have hplaced := h.place (n := 1) hidle (fun p hp => by cases hp) hring
  rw [hindex]
  refine hplaced.wait rfl ?_
  simp [Exchange.place]

/-- A transfer waits for its last block, or fails at once without memory. -/
lemma InStep.sendControl_cases (hp : c.Registered p)
    (hs : s.step (.sendControl p packet write dma) = some t) :
    s.phase = .idle ∧ ∃ u : Exchange, u.InStep base c ∧ u.delivered = s.delivered ∧
      u.returns = s.returns ∧ u.failed = s.failed ∧ u.phase = .idle ∧
      (u.issued (.port p)).length = (s.issued (.port p)).length + controlBlocks packet dma ∧
      (∀ id, id ≠ .port p → u.issued id = s.issued id) ∧
      let last := (s.issued (.port p)).length + controlBlocks packet dma - 1
      t = if Allocated packet dma then
          { u with phase := .waiting ⟨.port p, BitVec.ofNat 64 (waitIndex (.port p) last), last⟩ }
        else
          { u with
            returns := s.returns ++ [⟨.port p, last, (s.delivered (.port p)).length, none⟩]
            failed := true } := by
  rcases (h.rings (.port p)).ring.sendControl p packet write dma with ⟨hindices, hring, hkey⟩
  cases hphase : s.phase with
  | idle =>
    have hport : ∀ q, RingId.port p = .port q → c.Registered q := by
      intro q hq
      cases hq
      exact hp
    have hplaced := h.place hphase hport hring
    refine ⟨rfl, _, hplaced, rfl, rfl, rfl, hphase, ?_, ?_, ?_⟩
    · simp [length_place]
    · intro id hid
      simp [Exchange.place, hid]
    · have hlength := length_place s (.port p)
        ((List.range (controlBlocks packet dma)).map fun i =>
          ((s.issued (.port p)).length + i) % 4095)
        ((s.controller.rings (.port p)).ring.sendControl packet write dma).2.1
      rw [length_map, length_range] at hlength
      simp only [Exchange.step, hphase, hindices, hkey, hlength] at hs
      by_cases halloc : Allocated packet dma
      · simp only [halloc, if_true, Option.some.injEq] at hs ⊢
        exact hs.symm
      · simp only [halloc, if_false, Option.some.injEq] at hs ⊢
        exact hs.symm
  | waiting call => simp [Exchange.step, hphase] at hs
  | handling call => simp [Exchange.step, hphase] at hs

/-- A control transfer to a registered port keeps driver and rings in step. -/
lemma InStep.sendControlStep (hp : c.Registered p)
    (hs : s.step (.sendControl p packet write dma) = some t) : t.InStep base c := by
  rcases h.sendControl_cases hp hs with ⟨_, u, hu, _, _, _, hidle, hlength, _, ht⟩
  have hblocks := controlBlocks_pos packet dma
  by_cases halloc : Allocated packet dma
  · simp only [halloc, if_true] at ht
    rw [ht]
    refine hu.wait rfl ?_
    show (s.issued (.port p)).length + controlBlocks packet dma - 1 + 1 = (u.issued (.port p)).length
    omega
  · simp only [halloc, if_false] at ht
    rw [ht]
    exact ⟨hu.slotId, hu.portBySlotId, hu.rings, hu.registered, fun call hcall => by
      rw [show Phase.call _ = u.phase.call from rfl, hidle] at hcall
      cases hcall⟩

lemma InStep.lookStep (hs : s.step .look = some t) : t.InStep base c := by
  rcases look_cases hs with ⟨call, hphase, ⟨_, rfl⟩ | rfl⟩
  · exact ⟨h.slotId, h.portBySlotId, h.rings, h.registered, fun other hother => by cases hother⟩
  · refine h.setPhase fun other hother => h.call other ?_
    rw [hphase]
    exact hother

lemma InStep.leaveStep (hs : s.step .leave = some t) : t.InStep base c := by
  rcases leave_cases hs with ⟨call, hphase, rfl⟩
  refine h.setPhase fun other hother => h.call other ?_
  rw [hphase]
  exact hother

lemma InStep.handleEvent (hok : s.ok (.event id event)) :
    s.controller.handleEvent event =
        some (s.controller.finish id (doneKey id (s.delivered id).length) event) ∧
      (s.delivered id).length < (s.issued id).length := by
  rcases hok with ⟨addr, haddr, hcompletes⟩
  have hlt := (List.getElem?_eq_some_iff.1 haddr).1
  rw [(h.rings id).places _ _ haddr] at hcompletes
  refine ⟨Controller.handleEvent_completes (h.rings id).ring.physicalAddr ?_ hcompletes, hlt⟩
  intro p hp
  subst hp
  exact h.registered_of.2 (h.registered p (ne_nil_of_length_pos (Nat.zero_lt_of_lt hlt)))

end

lemma answers_update (events : BitVec 64 → TrbEvent) (key : BitVec 64) (event : RawTrb) :
    answers (Function.update events key ⟨event, true⟩) =
      Function.update (answers events) key (some event) := by
  funext other
  by_cases hother : other = key
  · simp [answers, hother]
  · simp [answers, hother]

/-- Delivering an event extends the ring's delivered list by one. -/
lemma RingAt.deliver (h : RingAt b id issued delivered r) (hlt : delivered.length < issued.length)
    (event : RawTrb) :
    RingAt b id issued (delivered ++ [event])
      { r with events := Function.update r.events (doneKey id delivered.length) ⟨event, true⟩ } where
  ring := h.ring
  places := h.places
  behind := by
    rw [length_append, length_singleton]
    exact hlt
  filed := by
    rw [answers_update]
    exact h.filed.file event

/-- So does the delivery of an event. -/
lemma InStep.eventStep (h : s.InStep base c) (hok : s.ok (.event id event))
    (hs : s.step (.event id event) = some t) : t.InStep base c := by
  rcases h.handleEvent hok with ⟨hhandle, hlt⟩
  rcases event_cases hs with ⟨_, c', hc', rfl⟩
  have hfinish := Option.some.inj (hc'.symm.trans hhandle)
  rw [hfinish]
  refine ⟨h.slotId, h.portBySlotId, ?_, h.registered, h.call⟩
  intro other
  by_cases hother : other = id
  · subst hother
    simpa [Exchange.deliver, Controller.finish] using (h.rings other).deliver hlt event
  · simpa [Exchange.deliver, Controller.finish, hother] using h.rings other

lemma InStep.step (h : s.InStep base c) (hok : s.ok op) (hs : s.step op = some t) :
    t.InStep base c := by
  cases op with
  | sendCommand trb => exact h.sendCommandStep hs
  | sendControl p packet write dma => exact h.sendControlStep (h.registered_of.1 hok) hs
  | look => exact h.lookStep hs
  | event id event => exact h.eventStep hok hs
  | leave => exact h.leaveStep hs

lemma InStep.run (hrun : Run Exchange.step ok s t) (h : s.InStep base c) : t.InStep base c :=
  hrun.invariant (I := InStep base c) h fun _ _ _ hI hop hs => hI.step hop hs

/-- Blocks are never taken back, and a failure is remembered. -/
lemma InStep.grows (h : s.InStep base c) (hok : s.ok op) (hs : s.step op = some t) :
    (∀ id, (s.issued id).length ≤ (t.issued id).length) ∧ (s.failed = true → t.failed = true) := by
  cases op with
  | sendCommand trb =>
    rcases sendCommand_cases hs with ⟨_, rfl⟩
    refine ⟨fun id => ?_, id⟩
    by_cases hid : id = .command
    · subst hid
      simp [Exchange.place]
    · simp [Exchange.place, hid]
  | sendControl p packet write dma =>
    rcases h.sendControl_cases (h.registered_of.1 hok) hs with
      ⟨_, u, _, _, _, hfailed, _, hlength, hothers, ht⟩
    have hgrows : ∀ id, (s.issued id).length ≤ (u.issued id).length := by
      intro id
      by_cases hid : id = .port p
      · rw [hid, hlength]
        exact Nat.le_add_right _ _
      · exact Nat.le_of_eq (congrArg List.length (hothers id hid).symm)
    rw [ht]
    split
    · exact ⟨hgrows, fun hf => hfailed.trans hf⟩
    · exact ⟨hgrows, fun _ => rfl⟩
  | look =>
    rcases look_cases hs with ⟨_, _, ⟨_, rfl⟩ | rfl⟩
    · exact ⟨fun _ => Nat.le_refl _, id⟩
    · exact ⟨fun _ => Nat.le_refl _, id⟩
  | event id event =>
    rcases event_cases hs with ⟨_, _, _, rfl⟩
    exact ⟨fun _ => Nat.le_refl _, fun hf => hf⟩
  | leave =>
    rcases leave_cases hs with ⟨_, _, rfl⟩
    exact ⟨fun _ => Nat.le_refl _, id⟩

variable {commands blocks : Nat} {failures : Bool}

lemma Within.of_step (hin : t.Within commands blocks failures) (h : s.InStep base c)
    (hok : s.ok op) (hs : s.step op = some t) : s.Within commands blocks failures := by
  rcases h.grows hok hs with ⟨hgrows, hfailed⟩
  exact ⟨Nat.le_trans (hgrows _) hin.commands, fun p => Nat.le_trans (hgrows _) (hin.blocks p),
    fun hf => hin.failures (hfailed hf)⟩

/-- Within the bounds the index a call waits for is fresh. -/
lemma InStep.fresh (h : s.InStep base c) (hcall : s.phase.call = some call)
    (hin : s.Within commands blocks failures) (hcommands : commands ≤ 4095)
    (hblocks : blocks ≤ 4094) : FreshKey call.ring call.last := by
  have hlast := (h.call call hcall).last
  have hcommandsIn := hin.commands
  have hblocksIn := hin.blocks
  rcases call with ⟨ring, index, last⟩
  cases ring with
  | command =>
    simp only at hlast
    simp only [FreshKey]
    omega
  | port p =>
    have hp := hblocksIn p
    simp only at hlast
    simp only [FreshKey]
    omega

lemma InStep.own (h : s.InStep base c) (hcall : s.phase.call = some call)
    (hfresh : FreshKey call.ring call.last)
    (hfinished : ((s.controller.rings call.ring).events call.index).finished = true) :
    (s.delivered call.ring)[call.last]? =
      some ((s.controller.rings call.ring).events call.index).trb := by
  have hring := h.rings call.ring
  have hwaits := h.call call hcall
  refine hring.filed.own (Nat.le_trans hring.behind (Nat.le_of_eq hwaits.last.symm))
    (fun k hk hkey => hfresh.only hk hkey) ?_
  rw [← hwaits.index, answers, if_pos hfinished]

lemma ReturnRight.deliver {r : Return} {c' : Controller} (h : s.ReturnRight r) (event : RawTrb) :
    (s.deliver id event c').ReturnRight r := by
  refine ⟨h.1, fun returned hreturned => ?_⟩
  have hold := h.2 returned hreturned
  by_cases hid : r.ring = id
  · rw [hid] at hold
    show (Function.update s.delivered id (s.delivered id ++ [event]) r.ring)[r.last]? = some returned
    rw [hid, Function.update_self,
      List.getElem?_append_left (List.getElem?_eq_some_iff.1 hold).1, hold]
  · simpa [Exchange.deliver, hid] using hold

/-- A call that waits on a fresh index returns its own completion. -/
lemma InStep.returnRight (h : s.InStep base c) (hcall : s.phase.call = some call)
    (hfresh : FreshKey call.ring call.last)
    (hfinished : ((s.controller.rings call.ring).events call.index).finished = true)
    (hright : s.Right) : (s.returnFrom call).Right := by
  have hown := h.own hcall hfresh hfinished
  intro r hr
  rcases mem_append.1 hr with hold | hnew
  · exact hright r hold
  · rw [mem_singleton.1 hnew]
    refine ⟨(List.getElem?_eq_some_iff.1 hown).1, fun event hevent => ?_⟩
    show (s.delivered call.ring)[call.last]? = some event
    rw [hown]
    split at hevent
    · exact hevent
    · cases hevent

/-- Within the bounds, one step keeps all answers right. -/
lemma Right.step (hright : s.Right) (h : s.InStep base c) (hok : s.ok op)
    (hs : s.step op = some t) (hin : t.Within commands blocks failures)
    (hcommands : commands ≤ 4095) (hblocks : blocks ≤ 4094)
    (hfailures : failures = true → blocks = 0) : t.Right := by
  have hin' := hin.of_step h hok hs
  cases op with
  | sendCommand trb =>
    rcases sendCommand_cases hs with ⟨_, rfl⟩
    exact hright
  | sendControl p packet write dma =>
    rcases h.sendControl_cases (h.registered_of.1 hok) hs with
      ⟨_, u, _, hdelivered, hreturns, _, _, hlength, _, ht⟩
    by_cases halloc : Allocated packet dma
    · simp only [halloc, if_true] at ht
      rw [ht]
      intro r hr
      have hold := hright r (by rw [← hreturns]; exact hr)
      exact ⟨hold.1, by rw [show Exchange.delivered _ = s.delivered from hdelivered]; exact hold.2⟩
    · -- a failure with a block on the ring is outside the bounds
      simp only [halloc, if_false] at ht
      have hnone := hfailures (hin.failures (by rw [ht]))
      have hblock := hin.blocks p
      rw [show t.issued = u.issued by rw [ht], hlength] at hblock
      have hpos := controlBlocks_pos packet dma
      omega
  | look =>
    rcases look_cases hs with ⟨call, hphase, ⟨hfinished, rfl⟩ | rfl⟩
    · have hcall : s.phase.call = some call := by
        rw [hphase]
        rfl
      exact h.returnRight hcall (h.fresh hcall hin' hcommands hblocks) hfinished hright
    · exact hright
  | event id event =>
    rcases event_cases hs with ⟨_, _, _, rfl⟩
    exact fun r hr => (hright r hr).deliver event
  | leave =>
    rcases leave_cases hs with ⟨_, _, rfl⟩
    exact hright

lemma Right.run (hrun : Run Exchange.step ok s t) (hright : s.Right) (h : s.InStep base c)
    (hin : t.Within commands blocks failures) (hcommands : commands ≤ 4095)
    (hblocks : blocks ≤ 4094) (hfailures : failures = true → blocks = 0) : t.Right := by
  induction hrun with
  | refl => exact hright
  | tail hbefore hok hs ih =>
    have hmid := h.run hbefore
    exact (ih (hin.of_step hmid hok hs)).step hmid hok hs hin hcommands hblocks hfailures

end Steps

end Exchange

end SigmaOS.Drivers.Xhci
