import Mathlib.Data.Fintype.EquivFin
import SigmaOS.Arch.PciEnumeration

/-!
# Arch.PciTree — buses behind bridges

The enumeration keeps no record of the buses it has been to.  Where the buses behind the bridges
form a tree and the capability lists end, it adds every function that exists and can be reached
exactly once, below the bridge to its bus (`enumerate_exact`).
-/

namespace SigmaOS.Arch.Pci

open Relation
open Lib
open Lib.Descent

lemma finite_bus : Finite (BitVec 8) :=
  Finite.of_injective BitVec.toFin fun _ _ h => BitVec.eq_of_toFin_eq h

/-! ## What can be reached -/

inductive Reached (cfg : ConfigSpace) (seg : BitVec 16) (start : BitVec 8) : BitVec 8 → Prop where
  | start : Reached cfg seg start start
  | bridge {a : Address} {c : BitVec 8} :
      Reached cfg seg start a.bus → a.seg = seg → Present cfg a → bridgeTo cfg a = some c →
      Reached cfg seg start c

/-- The functions that exist on the buses that are reached. -/
structure Reachable (cfg : ConfigSpace) (seg : BitVec 16) (start : BitVec 8) (a : Address) : Prop where
  segment : a.seg = seg
  bus : Reached cfg seg start a.bus
  present : Present cfg a

def BusEdge (cfg : ConfigSpace) (seg : BitVec 16) (b c : BitVec 8) : Prop :=
  ∃ a : Address, a.seg = seg ∧ a.bus = b ∧ Present cfg a ∧ bridgeTo cfg a = some c

section Reach

variable {cfg : ConfigSpace} {seg : BitVec 16} {start b c : BitVec 8} {a : Address}

lemma leads_iff : Leads (functionsOn cfg seg) (bridgeTo cfg) b c ↔ BusEdge cfg seg b c := by
  constructor
  · rintro ⟨a, ha, hc⟩
    rcases mem_functionsOn.1 ha with ⟨hseg, hbus, hpresent⟩
    exact ⟨a, hseg, hbus, hpresent, hc⟩
  · rintro ⟨a, hseg, hbus, hpresent, hc⟩
    exact ⟨a, mem_functionsOn.2 ⟨hseg, hbus, hpresent⟩, hc⟩

lemma leads_eq : Leads (functionsOn cfg seg) (bridgeTo cfg) = BusEdge cfg seg := by
  funext b c
  exact propext leads_iff

/-- The buses reached by the edge relation are those `Reached` lists. -/
lemma reached_iff : ReflTransGen (BusEdge cfg seg) start b ↔ Reached cfg seg start b := by
  constructor
  · intro h
    induction h with
    | refl => exact Reached.start
    | tail _ hbc ih =>
      rcases hbc with ⟨a, hseg, rfl, hpresent, hc⟩
      exact Reached.bridge ih hseg hpresent hc
  · intro h
    induction h with
    | start => exact ReflTransGen.refl
    | bridge _ hseg hpresent hc ih => exact ih.tail ⟨_, hseg, rfl, hpresent, hc⟩

lemma under_iff_reachable :
    Under (functionsOn cfg seg) (bridgeTo cfg) start a ↔ Reachable cfg seg start a := by
  rw [under_iff, leads_eq]
  constructor
  · rintro ⟨b, hb, ha⟩
    rcases mem_functionsOn.1 ha with ⟨hseg, rfl, hpresent⟩
    exact ⟨hseg, reached_iff.1 hb, hpresent⟩
  · rintro ⟨hseg, hbus, hpresent⟩
    exact ⟨a.bus, reached_iff.2 hbus, mem_functionsOn.2 ⟨hseg, rfl, hpresent⟩⟩

end Reach

/-! ## Trees of buses -/

/-- Every bus is behind one bridge at most, and the start behind none.  So a bridge leads to none of
the buses on the way to it. -/
structure BusTree (cfg : ConfigSpace) (seg : BitVec 16) (start : BitVec 8) : Prop where
  once : ∀ a b c, Reachable cfg seg start a → Reachable cfg seg start b → bridgeTo cfg a = some c →
    bridgeTo cfg b = some c → a = b
  above : ∀ a, Reachable cfg seg start a → bridgeTo cfg a ≠ some start

lemma BusTree.treelike {cfg : ConfigSpace} {seg : BitVec 16} {start : BitVec 8}
    (h : BusTree cfg seg start) : Treelike (functionsOn cfg seg) (bridgeTo cfg) start where
  nodup := fun _ => functionsOn_nodup
  apart := fun _ _ _ hb hc => (mem_functionsOn.1 hb).2.1.symm.trans (mem_functionsOn.1 hc).2.1
  once := fun a b c ha hb => h.once a b c (under_iff_reachable.1 ha) (under_iff_reachable.1 hb)
  above := fun a ha => h.above a (under_iff_reachable.1 ha)

structure Recorded (cfg : ConfigSpace) (start : BitVec 8) (found : List (Address × Nat)) (a : Address)
    (dev : Device) : Prop where
  present : dev.present = true
  address : dev.address = a
  onStart : a.bus = start → dev.parent = none
  behind : a.bus ≠ start → ∃ e ∈ found, dev.parent = some e.2 ∧ bridgeTo cfg e.1 = some a.bus
  msi : ∀ l, CapList cfg a l → dev.msi.found = lastCapability cfg a 0x05#8 l
  msix : ∀ l, CapList cfg a l → dev.msix.found = lastCapability cfg a 0x11#8 l

section Exact

variable {cfg : ConfigSpace} {seg : BitVec 16} {bus : BitVec 8}

lemma exists_steps {l : List Address} (h : ∀ a ∈ l, ∃ caps, CapList cfg a caps) :
    ∃ steps, ∀ a ∈ l, ∃ caps, CapList cfg a caps ∧ caps.length ≤ steps := by
  induction l with
  | nil => exact ⟨0, nofun⟩
  | cons b l ih =>
    rcases h b List.mem_cons_self with ⟨caps, hcaps⟩
    rcases ih fun a ha => h a (List.mem_cons_of_mem b ha) with ⟨steps, hsteps⟩
    refine ⟨max caps.length steps, ?_⟩
    intro a ha
    rcases List.mem_cons.1 ha with rfl | ha
    · exact ⟨caps, hcaps, Nat.le_max_left _ _⟩
    · rcases hsteps a ha with ⟨caps', hcaps', hlen⟩
      exact ⟨caps', hcaps', Nat.le_trans hlen (Nat.le_max_right _ _)⟩

/-- What was added describes its function and points to its bridge. -/
lemma recorded_of_adds {found : List (Address × Nat)} {s s' : Registry} (htree : BusTree cfg seg bus)
    (hreach : ∀ e ∈ found, Reachable cfg seg bus e.1) (hadds : Adds cfg bus none found s s')
    {e : Address × Nat} (he : e ∈ found) :
    ∃ dev, s'.pciDevices[e.2]? = some dev ∧ Recorded cfg bus found e.1 dev := by
  rcases hadds.entries e he with ⟨dev, p, hdev, hdescribes, _, hparent⟩
  rcases hdescribes.capabilities with ⟨l, hl, hmsi, hmsix⟩
  refine ⟨dev, hdev, hdescribes.present, hdescribes.address, ?_, ?_, ?_, ?_⟩
  · intro hstart
    rw [hdescribes.parent]
    rcases hparent with ⟨_, hp⟩ | ⟨b, hb, _, hto⟩
    · exact hp
    · rw [hstart] at hto
      exact absurd hto (htree.above b.1 (hreach b hb))
  · intro hother
    rw [hdescribes.parent]
    exact hparent.resolve_left fun h => hother h.1
  · intro l' hl'
    rw [hl'.unique hl, hmsi]
  · intro l' hl'
    rw [hl'.unique hl, hmsix]

/-- On a tree of buses whose capability lists end, the enumeration comes to an end, and it adds to the
list of devices each function that exists and can be reached, once and with its entry filled in, and
no other. -/
theorem enumerate_exact (htree : BusTree cfg seg bus)
    (hcaps : ∀ a, Reachable cfg seg bus a → ∃ l, CapList cfg a l) (s : Registry) :
    ∃ s' found,
      (∃ bound, ∀ steps fuel, bound ≤ steps → bound ≤ fuel →
        enumerateBus cfg steps fuel seg bus none s = some s') ∧
      s'.deviceList = s.deviceList ++ found.map Prod.snd ∧
      (found.map Prod.fst).Nodup ∧
      (∀ a, a ∈ found.map Prod.fst ↔ Reachable cfg seg bus a) ∧
      ∀ e ∈ found, ∃ dev, s'.pciDevices[e.2]? = some dev ∧ Recorded cfg bus found e.1 dev := by
  have hfinite := finite_bus
  rcases htree.treelike.exists_walkDown with ⟨fuel, l, hwalk⟩
  have hmem : ∀ a, a ∈ l ↔ Reachable cfg seg bus a := by
    intro a
    rw [mem_walkDown hwalk, under_iff_reachable]
  rcases exists_steps fun a ha => hcaps a ((hmem a).1 ha) with ⟨steps, hsteps⟩
  rcases enumerateBus_total hwalk hsteps none s with ⟨s', hs'⟩
  rcases enumerateBus_adds seg bus none s s' hs' (by simp) with ⟨found, hfound, hadds⟩
  have hl : l = found.map Prod.fst := Option.some.inj (hwalk.symm.trans hfound)
  rw [hl] at hmem
  refine ⟨s', found, ⟨max steps fuel, ?_⟩, hadds.added, ?_, hmem, ?_⟩
  · intro steps' fuel' hsteps' hfuel'
    exact enumerateBus_mono (Nat.le_trans (Nat.le_max_left _ _) hsteps')
      (Nat.le_trans (Nat.le_max_right _ _) hfuel') hs'
  · exact htree.treelike.walkDown_nodup ReflTransGen.refl hfound
  · intro e he
    refine recorded_of_adds htree ?_ hadds he
    intro e' he'
    exact (hmem e'.1).1 (List.mem_map_of_mem he')

end Exact

def sampleConfig : ConfigSpace where
  read := fun a offset _ =>
    if a.device = 0#8 ∧ a.function = 0#8 ∧ a.bus = 0#8 then
      if offset = 0x0#16 then 0x8086#32
      else if offset = 11#16 then 0x6#32
      else if offset = 10#16 then 0x4#32
      else if offset = 0x19#16 then 0x1#32
      else if offset = 0x6#16 then 0x10#32
      else if offset = 0x34#16 then 0x40#32
      else if offset = 0x40#16 then 0x05#32
      else 0#32
    else if a.device = 0#8 ∧ a.function = 0#8 ∧ a.bus = 1#8 then
      if offset = 0x0#16 then 0x8086#32 else 0#32
    else
      0xFFFFFFFF#32
  sized := fun _ _ => 0#32

def sampleBridge : Address := ⟨0#16, 0#8, 0#8, 0#8⟩

def sampleBehind : Address := ⟨0#16, 1#8, 0#8, 0#8⟩

lemma sample_present {a : Address} (hseg : a.seg = 0#16) (h : Present sampleConfig a) :
    a = sampleBridge ∨ a = sampleBehind := by
  rcases a with ⟨seg, bus, device, function⟩
  have hzero : seg = 0#16 := hseg
  subst hzero
  by_cases h0 : device = 0#8 ∧ function = 0#8 ∧ bus = 0#8
  · rcases h0 with ⟨rfl, rfl, rfl⟩
    exact .inl rfl
  by_cases h1 : device = 0#8 ∧ function = 0#8 ∧ bus = 1#8
  · rcases h1 with ⟨rfl, rfl, rfl⟩
    exact .inr rfl
  · exact absurd (by simp [ConfigSpace.vendorId, sampleConfig, h0, h1]) h.answers

lemma sample_tree : BusTree sampleConfig 0#16 0#8 := by
  have hto : bridgeTo sampleConfig sampleBridge = some 1#8 ∧
      bridgeTo sampleConfig sampleBehind = none := by
    decide
  refine ⟨?_, ?_⟩
  · intro a b c ha hb hac hbc
    rcases sample_present ha.segment ha.present with rfl | rfl
    · rcases sample_present hb.segment hb.present with rfl | rfl
      · rfl
      · rw [hto.2] at hbc
        exact absurd hbc (by simp)
    · rw [hto.2] at hac
      exact absurd hac (by simp)
  · intro a ha
    rcases sample_present ha.segment ha.present with rfl | rfl
    · decide
    · decide

lemma sample_bridge_capabilities : CapList sampleConfig sampleBridge [0x40#8] := by
  exact CapChain.cons (by decide) CapChain.nil

/-- A bridge, and a function behind it. -/
theorem enumerate_exact_sample :
    ∃ steps fuel s' i j dev bridge,
      enumerateBus sampleConfig steps fuel 0#16 0#8 none ⟨[], []⟩ = some s' ∧
        i ∈ s'.deviceList ∧ s'.pciDevices[i]? = some dev ∧ dev.address = sampleBehind ∧
        dev.parent = some j ∧ s'.pciDevices[j]? = some bridge ∧ bridge.address = sampleBridge ∧
        bridge.msi.found = some 0x40#8 := by
  have hcaps : ∀ a, Reachable sampleConfig 0#16 0#8 a → ∃ l, CapList sampleConfig a l := by
    intro a ha
    rcases sample_present ha.segment ha.present with rfl | rfl
    · exact ⟨_, sample_bridge_capabilities⟩
    · exact ⟨[], by rw [CapList, if_neg (by decide)]⟩
  rcases enumerate_exact sample_tree hcaps ⟨[], []⟩ with
    ⟨s', found, ⟨bound, hruns⟩, hlist, _, hmem, hrecorded⟩
  have hpresent : ∀ a, a = sampleBridge ∨ a = sampleBehind → Present sampleConfig a := by
    rintro a (rfl | rfl)
    · exact ⟨by decide, by decide, by decide, by decide, Or.inl rfl⟩
    · exact ⟨by decide, by decide, by decide, by decide, Or.inl rfl⟩
  have hbehind : Reachable sampleConfig 0#16 0#8 sampleBehind :=
    ⟨rfl, Reached.bridge (a := sampleBridge) Reached.start rfl (hpresent _ (Or.inl rfl)) (by decide),
      hpresent _ (Or.inr rfl)⟩
  rcases List.mem_map.1 ((hmem sampleBehind).2 hbehind) with ⟨e, he, hea⟩
  rcases hrecorded e he with ⟨dev, hdev, hrec⟩
  rw [hea] at hrec
  rcases hrec.behind (by decide) with ⟨b, hb, hparent, hto⟩
  rcases hrecorded b hb with ⟨bridge, hbridge, hrecb⟩
  have hba : b.1 = sampleBridge := by
    have hreach := (hmem b.1).1 (List.mem_map_of_mem hb)
    rcases sample_present hreach.segment hreach.present with h | h
    · exact h
    · rw [h] at hto
      exact absurd hto (by decide)
  rw [hba] at hrecb
  refine ⟨bound, bound, s', e.2, b.2, dev, bridge, hruns bound bound (Nat.le_refl _) (Nat.le_refl _),
    ?_, hdev, hrec.address, hparent, hbridge, hrecb.address, ?_⟩
  · rw [hlist]
    exact List.mem_map_of_mem he
  · rw [hrecb.msi _ sample_bridge_capabilities]
    decide

/-- The enumeration of a bus comes to an end exactly when no cycle of buses can be reached from it and
every function that can be reached has a capability list that ends. -/
theorem enumerate_terminates_iff (cfg : ConfigSpace) (seg : BitVec 16) (bus : BitVec 8) (s : Registry) :
    (∃ steps fuel s', enumerateBus cfg steps fuel seg bus none s = some s') ↔
      (∀ c, Reached cfg seg bus c → ¬ TransGen (BusEdge cfg seg) c c) ∧
        ∀ a, Reachable cfg seg bus a → ∃ l, CapList cfg a l := by
  have hacyclic : Acyclic (functionsOn cfg seg) (bridgeTo cfg) bus ↔
      ∀ c, Reached cfg seg bus c → ¬ TransGen (BusEdge cfg seg) c c := by
    rw [Acyclic, leads_eq]
    exact forall_congr' fun c => by rw [reached_iff]
  have hfinite := finite_bus
  rw [← hacyclic, ← exists_walkDown_iff]
  constructor
  · rintro ⟨steps, fuel, s', h⟩
    rcases enumerateBus_adds seg bus none s s' h (by simp) with ⟨found, hfound, hadds⟩
    refine ⟨⟨fuel, _, hfound⟩, ?_⟩
    intro a ha
    rcases List.mem_map.1 ((mem_walkDown hfound).2 (under_iff_reachable.2 ha)) with ⟨e, he, rfl⟩
    rcases hadds.entries e he with ⟨_, _, _, hdescribes, _, _⟩
    rcases hdescribes.capabilities with ⟨l, hl, _⟩
    exact ⟨l, hl⟩
  · rintro ⟨⟨fuel, l, hwalk⟩, hcaps⟩
    have hends : ∀ a ∈ l, ∃ caps, CapList cfg a caps := fun a ha =>
      hcaps a (under_iff_reachable.1 ((mem_walkDown hwalk).1 ha))
    rcases exists_steps hends with ⟨steps, hsteps⟩
    rcases enumerateBus_total hwalk hsteps none s with ⟨s', hs'⟩
    exact ⟨steps, fuel, s', hs'⟩

/-- A bridge at 0:0.0 whose secondary bus has not been set: it leads back to bus 0. -/
def loopConfig : ConfigSpace where
  read := fun a offset _ =>
    if a.device = 0#8 ∧ a.function = 0#8 then
      if offset = 11#16 then 0x6#32 else if offset = 10#16 then 0x4#32 else 0#32
    else
      0xFFFFFFFF#32
  sized := fun _ _ => 0#32

theorem enumerate_not_terminates :
    ¬ ∀ (cfg : ConfigSpace) (seg : BitVec 16) (bus : BitVec 8) (s : Registry),
      ∃ steps fuel s', enumerateBus cfg steps fuel seg bus none s = some s' := by
  intro hall
  rcases hall loopConfig 0#16 0#8 ⟨[], []⟩ with ⟨steps, fuel, s', h⟩
  rcases enumerateBus_adds 0#16 0#8 none _ s' h (by simp) with ⟨found, hfound, _⟩
  have hpresent : Present loopConfig ⟨0#16, 0#8, 0#8, 0#8⟩ :=
    ⟨by decide, by decide, by decide, by decide, Or.inl rfl⟩
  have hself : Leads (functionsOn loopConfig 0#16) (bridgeTo loopConfig) 0#8 0#8 :=
    leads_iff.2 ⟨_, rfl, rfl, hpresent, by decide⟩
  exact acyclic_of_acc (acc_of_walkDown hfound) 0#8 ReflTransGen.refl (TransGen.single hself)

end SigmaOS.Arch.Pci
