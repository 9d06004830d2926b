import SigmaOS.Lib.Run
import SigmaOS.Acpi.Madt

/-!
# Proc.CpuIdentity — which CPU am I

A CPU that boots takes an entry of `cpu_list` and points its GS base at it, initialises its local APIC
and keeps the id in the entry; `get_current_managed_cpu` then looks that id up in the list that
`init_multitasking` made from the MADT.  The id is a `uint32_t` in the MADT, in the APIC and in the
entry, but `lapic::get_id`, which is between the last two, returns a `uint8_t`.

The CPUs are named by the full ids of their local APICs.  They boot in any order and interleaved:
`step` is one phase of one CPU, in the order in which `kernel_main` and `smp_kernel_main` go through
them.

Of `smp::cpu::entry` the APIC and its id are kept, and of `managed_cpu` all but the thread.
-/

namespace SigmaOS.Proc.CpuIdentity

open Function List BitVec
open Lib
open Acpi (CpuEntry Madt)

/-- The MADT, and on which CPUs `lapic::init` switches to x2APIC mode: those that have it, unless the
kernel was started with `nox2apic`. -/
structure Platform where
  madt : Madt
  x2apic : BitVec 32 → Bool

/-- What the register `lapic_id` of the CPU `c` reads: its id, or in xAPIC mode the low byte of it in
the top byte. -/
def Platform.lapicIdRegister (p : Platform) (c : BitVec 32) : BitVec 32 :=
  if p.x2apic c then c else (c &&& 0xFF#32) <<< 24

structure Lapic where
  id : BitVec 32
  x2apic : Bool
  deriving DecidableEq, Repr

def Lapic.init (p : Platform) (c : BitVec 32) : Lapic where
  x2apic := p.x2apic c
  id := if p.x2apic c then p.lapicIdRegister c else (p.lapicIdRegister c >>> 24) &&& 0xFF#32

def Lapic.getId (l : Lapic) : BitVec 8 :=
  l.id.setWidth 8

/-! ## Booting -/

structure Entry where
  lapic : Lapic
  lapicId : BitVec 32
  deriving DecidableEq, Repr

def Entry.new : Entry :=
  ⟨⟨0#32, false⟩, 0#32⟩

structure ManagedCpu where
  cpu : CpuEntry
  enabled : Bool
  deriving DecidableEq, Repr

/-- How far a CPU is: off, with an entry, with its id in the entry, or past `init_cpu`. -/
inductive Phase where
  | off
  | entered
  | recorded
  | tasking
  deriving DecidableEq, Repr

/-- `cpuList`, where the GS base of each CPU points in it, and `cpus` of `process.cpp`. -/
structure State where
  cpuList : List Entry
  gs : BitVec 32 → Nat
  phase : BitVec 32 → Phase
  cpus : Option (List ManagedCpu)

def State.reset : State :=
  ⟨[], fun _ => 0, fun _ => .off, none⟩

def getCurrentCpu (s : State) (c : BitVec 32) : Option Entry :=
  s.cpuList[s.gs c]?

/-- `get_current_managed_cpu` on the CPU `c`: where the entry is in `cpus`, or `none` for `nullptr`. -/
def getCurrentManagedCpu (s : State) (c : BitVec 32) : Option Nat :=
  match s.cpus, getCurrentCpu s c with
  | some cpus, some current => cpus.findIdx? fun entry => entry.cpu.lapicId == current.lapicId
  | _, _ => none

inductive Event where
  /-- `cpu_list.empty_entry()` and `set_gs`. -/
  | enter (c : BitVec 32)
  /-- `entry.lapic.init()` and `entry.lapic_id = entry.lapic.get_id()`. -/
  | record (c : BitVec 32)
  | initMultitasking
  | initCpu (c : BitVec 32)
  deriving DecidableEq, Repr

def enter (s : State) (c : BitVec 32) : State :=
  { s with
    cpuList := s.cpuList ++ [Entry.new]
    gs := Function.update s.gs c s.cpuList.length
    phase := Function.update s.phase c .entered }

def record (p : Platform) (s : State) (c : BitVec 32) : State :=
  { s with
    cpuList := s.cpuList.set (s.gs c) ⟨Lapic.init p c, (Lapic.init p c).getId.setWidth 32⟩
    phase := Function.update s.phase c .recorded }

def initMultitasking (p : Platform) (s : State) : State :=
  { s with cpus := some (p.madt.cpus.map fun entry => ⟨entry, false⟩) }

/-- The entry that is found is enabled; when none is, there is only a message. -/
def initCpu (s : State) (c : BitVec 32) : State :=
  match getCurrentManagedCpu s c with
  | some i =>
    { s with
      cpus := s.cpus.map (·.modify i fun entry => { entry with enabled := true })
      phase := Function.update s.phase c .tasking }
  | none => { s with phase := Function.update s.phase c .tasking }

def step (p : Platform) (s : State) : Event → Option State
  | .enter c => if s.phase c = .off then some (enter s c) else none
  | .record c => if s.phase c = .entered then some (record p s c) else none
  | .initMultitasking => if s.cpus = none then some (initMultitasking p s) else none
  | .initCpu c => if s.phase c = .recorded ∧ s.cpus ≠ none then some (initCpu s c) else none

/-! ## What holds in every order -/

def Booted (s : State) (c : BitVec 32) : Prop :=
  s.phase c = .recorded ∨ s.phase c = .tasking

/-- The CPU kept its own id and finds the managed entry with it. -/
def Identified (s : State) (c : BitVec 32) : Prop :=
  (getCurrentCpu s c).map Entry.lapicId = some c ∧
  ∃ i, getCurrentManagedCpu s c = some i ∧
    (s.cpus.bind (·[i]?)).map (fun entry => entry.cpu.lapicId) = some c

lemma xapic_byte (c : BitVec 32) :
    ((((c &&& 0xFF#32) <<< 24) >>> 24) &&& 0xFF#32).setWidth 8 = c.setWidth 8 := by
  have hmask : ∀ n : Nat, n &&& 255 = n % 256 := fun n => Nat.and_two_pow_sub_one_eq_mod n 8
  apply eq_of_toNat_eq
  simp only [toNat_setWidth, toNat_and, toNat_ushiftRight,
    toNat_shiftLeft, toNat_ofNat, Nat.reduceMod, Nat.reducePow, hmask,
    Nat.shiftLeft_eq, Nat.shiftRight_eq_div_pow]
  omega

lemma getId_init (p : Platform) (c : BitVec 32) : (Lapic.init p c).getId = c.setWidth 8 := by
  unfold Lapic.getId Lapic.init Platform.lapicIdRegister
  cases p.x2apic c with
  | true => rfl
  | false => exact xapic_byte c

structure Inv (p : Platform) (s : State) : Prop where
  /-- A CPU that is not off has an entry. -/
  gs_lt : ∀ c, s.phase c ≠ .off → s.gs c < s.cpuList.length
  /-- No two CPUs have the same entry. -/
  gs_inj : ∀ c d, s.phase c ≠ .off → s.phase d ≠ .off → s.gs c = s.gs d → c = d
  /-- The id in the entry of a CPU that booted is the low byte of its own. -/
  recorded : ∀ c, Booted s c → (getCurrentCpu s c).map Entry.lapicId = some ((c.setWidth 8).setWidth 32)
  /-- The managed CPUs are those of the MADT. -/
  cpus_eq : ∀ cpus, s.cpus = some cpus → cpus.map ManagedCpu.cpu = p.madt.cpus

variable {s : State} {c : BitVec 32} {p : Platform}

lemma Booted.not_off (h : Booted s c) : s.phase c ≠ .off := by
  rcases h with h | h <;> rw [h] <;> decide

lemma Inv.reset (p : Platform) : Inv p State.reset where
  gs_lt _ h := absurd rfl h
  gs_inj _ _ h := absurd rfl h
  recorded _ h := absurd rfl h.not_off
  cpus_eq _ h := by cases h

/-- A CPU gets its entry. -/
lemma Inv.enter (hinv : Inv p s) (hoff : s.phase c = .off) : Inv p (enter s c) where
  gs_lt d hd := by
    simp only [CpuIdentity.enter, length_append, length_singleton] at hd ⊢
    by_cases hdc : d = c
    · subst hdc
      simp
    · rw [update_of_ne hdc] at hd ⊢
      exact Nat.lt_succ_of_lt (hinv.gs_lt d hd)
  gs_inj d e hd he hgs := by
    simp only [CpuIdentity.enter] at hd he hgs
    -- the new entry is behind those of the other CPUs
    by_cases hdc : d = c <;> by_cases hec : e = c
    · rw [hdc, hec]
    · rw [hdc, update_self, update_of_ne hec] at hgs
      rw [update_of_ne hec] at he
      exact absurd hgs (Nat.ne_of_gt (hinv.gs_lt e he))
    · rw [hec, update_self, update_of_ne hdc] at hgs
      rw [update_of_ne hdc] at hd
      exact absurd hgs (Nat.ne_of_lt (hinv.gs_lt d hd))
    · rw [update_of_ne hdc] at hd hgs
      rw [update_of_ne hec] at he hgs
      exact hinv.gs_inj d e hd he hgs
  recorded d hd := by
    have hdc : d ≠ c := by
      rintro rfl
      simp [Booted, CpuIdentity.enter] at hd
    have hd' : Booted s d := by simpa [Booted, CpuIdentity.enter, hdc] using hd
    have hlt := hinv.gs_lt d hd'.not_off
    have hsame : getCurrentCpu (CpuIdentity.enter s c) d = getCurrentCpu s d := by
      simp [getCurrentCpu, CpuIdentity.enter, hdc, List.getElem?_append_left hlt]
    rw [hsame]
    exact hinv.recorded d hd'
  cpus_eq := hinv.cpus_eq

/-- The CPU records its id, cut to eight bits. -/
lemma Inv.record (hinv : Inv p s) (hentered : s.phase c = .entered) : Inv p (record p s c) := by
  have hnotoff : s.phase c ≠ .off := by
    rw [hentered]
    decide
  have hphase : ∀ d, (CpuIdentity.record p s c).phase d ≠ .off → s.phase d ≠ .off := by
    intro d hd
    by_cases hdc : d = c
    · rw [hdc]
      exact hnotoff
    · simpa [CpuIdentity.record, hdc] using hd
  refine ⟨fun d hd => ?_, fun d e hd he => hinv.gs_inj d e (hphase d hd) (hphase e he), fun d hd => ?_,
    hinv.cpus_eq⟩
  · simpa [CpuIdentity.record] using hinv.gs_lt d (hphase d hd)
  · by_cases hdc : d = c
    · subst hdc
      simp [getCurrentCpu, CpuIdentity.record, hinv.gs_lt d hnotoff, getId_init]
    · have hd' : Booted s d := by simpa [Booted, CpuIdentity.record, hdc] using hd
      -- the entry that is written is not that of `d`
      have hne : s.gs c ≠ s.gs d :=
        fun hgs => hdc (hinv.gs_inj c d hnotoff hd'.not_off hgs).symm
      have hsame : getCurrentCpu (CpuIdentity.record p s c) d = getCurrentCpu s d := by
        simp [getCurrentCpu, CpuIdentity.record, List.getElem?_set_ne hne]
      rw [hsame]
      exact hinv.recorded d hd'

lemma Inv.initMultitasking (hinv : Inv p s) :
    Inv p (initMultitasking p s) where
  gs_lt := hinv.gs_lt
  gs_inj := hinv.gs_inj
  recorded := hinv.recorded
  cpus_eq cpus h := by
    cases h
    rw [map_map]
    exact map_id p.madt.cpus

lemma map_cpu_modify (cpus : List ManagedCpu) (i : Nat) :
    (cpus.modify i fun entry => { entry with enabled := true }).map ManagedCpu.cpu =
      cpus.map ManagedCpu.cpu := by
  induction cpus generalizing i with
  | nil => simp
  | cons entry rest ih =>
    cases i with
    | zero => simp
    | succ i => simp [ih]

/-- What `init_cpu` changes: the phase, and no CPU's identity. -/
lemma initCpu_spec (s : State) (c : BitVec 32) :
    (initCpu s c).cpuList = s.cpuList ∧ (initCpu s c).gs = s.gs ∧
    (initCpu s c).phase = update s.phase c .tasking ∧
    (initCpu s c).cpus.map (List.map ManagedCpu.cpu) = s.cpus.map (List.map ManagedCpu.cpu) := by
  unfold initCpu
  cases getCurrentManagedCpu s c with
  | none => exact ⟨rfl, rfl, rfl, rfl⟩
  | some i =>
    refine ⟨rfl, rfl, rfl, ?_⟩
    cases s.cpus with
    | none => rfl
    | some cpus => simp [map_cpu_modify]

/-- The CPU looks its entry up and fills it in. -/
lemma Inv.initCpu (hinv : Inv p s) (hrecorded : s.phase c = .recorded) : Inv p (initCpu s c) := by
  obtain ⟨hlist, hgs, hphase, hcpus⟩ := initCpu_spec s c
  have hbooted : ∀ d, Booted (CpuIdentity.initCpu s c) d → Booted s d := by
    intro d hd
    by_cases hdc : d = c
    · rw [hdc]
      exact .inl hrecorded
    · rwa [Booted, hphase, update_of_ne hdc] at hd
  have hnotoff : ∀ d, (CpuIdentity.initCpu s c).phase d ≠ .off → s.phase d ≠ .off := by
    intro d hd
    by_cases hdc : d = c
    · rw [hdc, hrecorded]
      decide
    · rwa [hphase, update_of_ne hdc] at hd
  refine ⟨fun d hd => ?_, fun d e hd he => ?_, fun d hd => ?_, fun cpus h => ?_⟩
  · rw [hgs, hlist]
    exact hinv.gs_lt d (hnotoff d hd)
  · rw [hgs]
    exact hinv.gs_inj d e (hnotoff d hd) (hnotoff e he)
  · rw [getCurrentCpu, hlist, hgs]
    exact hinv.recorded d (hbooted d hd)
  · rw [h] at hcpus
    cases hold : s.cpus with
    | none => simp [hold] at hcpus
    | some old =>
      rw [hold] at hcpus
      exact (Option.some.inj hcpus).trans (hinv.cpus_eq old hold)

lemma Inv.step {t : State} {e : Event} (hinv : Inv p s) (h : step p s e = some t) : Inv p t := by
  cases e <;> simp only [CpuIdentity.step, Option.ite_none_right_eq_some, Option.some.injEq] at h <;>
    obtain ⟨hguard, rfl⟩ := h
  case enter => exact hinv.enter hguard
  case record => exact hinv.record hguard
  case initMultitasking => exact hinv.initMultitasking
  case initCpu => exact hinv.initCpu hguard.1

lemma Inv.exec {events : List Event} (h : exec (CpuIdentity.step p) State.reset events = some s) :
    Inv p s := by
  have hrun : Run (CpuIdentity.step p) (fun _ _ => True) State.reset s :=
    exec_run h fun _ _ _ => trivial
  exact hrun.invariant (Inv.reset p) fun _ _ _ hinv _ hstep => hinv.step hstep

/-! ## Resolving a CPU -/

lemma low_byte_eq_iff (c : BitVec 32) : (c.setWidth 8).setWidth 32 = c ↔ c.toNat < 256 := by
  rw [← toNat_inj, toNat_setWidth, toNat_setWidth]
  omega

/-- A booted CPU with an id below 256 finds its own entry. -/
lemma Inv.resolves (hinv : Inv p s) {cpus : List ManagedCpu} (hcpus : s.cpus = some cpus)
    (hbooted : Booted s c) (hmem : c ∈ p.madt.cpus.map CpuEntry.lapicId) (hlow : c.toNat < 256) :
    ∃ i, getCurrentManagedCpu s c = some i ∧
      (cpus[i]?).map (fun entry => entry.cpu.lapicId) = some c := by
  obtain ⟨current, hcurrent, hid⟩ := Option.map_eq_some_iff.1 (hinv.recorded c hbooted)
  rw [(low_byte_eq_iff c).2 hlow] at hid
  rw [← hinv.cpus_eq cpus hcpus, map_map] at hmem
  obtain ⟨entry, hentry, hentryid⟩ := mem_map.1 hmem
  have hfound : (cpus.findIdx? fun entry => entry.cpu.lapicId == current.lapicId).isSome := by
    rw [List.findIdx?_isSome, any_eq_true]
    exact ⟨entry, hentry, by rw [hid]; exact beq_iff_eq.2 hentryid⟩
  obtain ⟨i, hi⟩ := Option.isSome_iff_exists.1 hfound
  refine ⟨i, ?_, ?_⟩
  · simp only [getCurrentManagedCpu, hcpus, hcurrent, hi]
  · obtain ⟨hlt, hat, -⟩ := List.findIdx?_eq_some_iff_getElem.1 hi
    rw [List.getElem?_eq_getElem hlt, Option.map_some, beq_iff_eq.1 hat, hid]

/-- A booted CPU is identified iff its id is below 256. -/
lemma Inv.identified_of_booted (hinv : Inv p s) (hcpus : s.cpus ≠ none) (hbooted : Booted s c)
    (hmem : c ∈ p.madt.cpus.map CpuEntry.lapicId) : Identified s c ↔ c.toNat < 256 := by
  constructor
  · rintro ⟨hid, -⟩
    rw [hinv.recorded c hbooted, Option.some.injEq] at hid
    exact (low_byte_eq_iff c).1 hid
  · intro hlow
    obtain ⟨cpus, hcpus⟩ := Option.ne_none_iff_exists'.1 hcpus
    obtain ⟨i, hi, hat⟩ := hinv.resolves hcpus hbooted hmem hlow
    refine ⟨?_, i, hi, ?_⟩
    · rw [hinv.recorded c hbooted, (low_byte_eq_iff c).2 hlow]
    · rw [hcpus]
      exact hat

lemma Identified.unique {d : BitVec 32} (hc : Identified s c) (hd : Identified s d)
    (h : getCurrentManagedCpu s c = getCurrentManagedCpu s d) : c = d := by
  obtain ⟨-, i, hi, hatc⟩ := hc
  obtain ⟨-, j, hj, hatd⟩ := hd
  rw [hi, hj, Option.some.injEq] at h
  subst h
  exact Option.some.inj (hatc.symm.trans hatd)

/-- For every MADT, every mode of the APICs and every order in which CPUs of the MADT boot: a CPU that
booted is identified exactly when its id is below 256, and identified CPUs resolve to entries of their
own. -/
theorem identified_iff (p : Platform) (events : List Event) (s : State)
    (hrun : exec (step p) State.reset events = some s) (hcpus : s.cpus ≠ none)
    (hmadt : ∀ c, Booted s c → c ∈ p.madt.cpus.map CpuEntry.lapicId) :
    (∀ c, Booted s c → (Identified s c ↔ c.toNat < 256)) ∧
    (∀ c d, Identified s c → Identified s d → getCurrentManagedCpu s c = getCurrentManagedCpu s d →
      c = d) :=
  ⟨fun c hc => (Inv.exec hrun).identified_of_booted hcpus hc (hmadt c hc), fun _ _ => Identified.unique⟩

def x2apicPlatform (ids : List (BitVec 32)) : Platform where
  madt := { Madt.new with cpus := ids.map fun id => ⟨id, true, id == 0#32⟩ }
  x2apic _ := true

def bootAll (aps : List (BitVec 32)) : List Event :=
  [.enter 0#32, .record 0#32, .initMultitasking] ++
    aps.flatMap (fun c => [.enter c, .record c, .initCpu c]) ++ [.initCpu 0#32]

/-- The CPUs 0 and 255 boot, the second before the first is in `init_cpu`. -/
theorem identified_two_cpus :
    ∃ s, exec (step (x2apicPlatform [0#32, 255#32])) State.reset (bootAll [255#32]) = some s ∧
      Identified s 0#32 ∧ Identified s 255#32 := by
  refine ⟨_, rfl, ?_⟩
  have hboth := identified_iff (x2apicPlatform [0#32, 255#32]) (bootAll [255#32]) _ rfl (by decide)
    (by
      intro c hc
      by_contra hnot
      have h0 : c ≠ 0#32 := by rintro rfl; exact hnot (by decide)
      have h255 : c ≠ 255#32 := by rintro rfl; exact hnot (by decide)
      refine hc.not_off ?_
      simp [initCpu_spec, record, enter, initMultitasking, h0, h255, State.reset])
  exact ⟨(hboth.1 _ (by unfold Booted; decide)).2 (by decide),
    (hboth.1 _ (by unfold Booted; decide)).2 (by decide)⟩

/-- The CPUs 0, 256 and 257 boot: 256 keeps the id 0 and resolves to the entry of the CPU 0, and 257
keeps the id 1 and resolves to no entry. -/
theorem get_id_truncates :
    ∃ s, exec (step (x2apicPlatform [0#32, 256#32, 257#32])) State.reset (bootAll [256#32, 257#32]) =
        some s ∧
      Booted s 256#32 ∧ Booted s 257#32 ∧
      (getCurrentCpu s 256#32).map Entry.lapicId = some 0#32 ∧
      getCurrentManagedCpu s 0#32 = some 0 ∧ getCurrentManagedCpu s 256#32 = some 0 ∧
      getCurrentManagedCpu s 257#32 = none :=
  ⟨_, rfl, by unfold Booted; decide, by unfold Booted; decide, by decide, by decide, by decide,
    by decide⟩

end SigmaOS.Proc.CpuIdentity
