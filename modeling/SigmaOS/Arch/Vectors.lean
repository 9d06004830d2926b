import Mathlib.Order.Interval.Finset.Nat

/-!
# Arch.Vectors — interrupt vectors for devices

`getFreeVector` and `registerInterruptHandler` are the functions of `x86_64::idt`, `installMsi` is
`pci::device::install_msi`, and `enableIrq` is the command `devctl_cmd_enable_irq`.  A vector is
free when its handler has no callback.  The search goes from 246 down to 1, so it goes on below 32,
where the exceptions are, and when it finds nothing it answers -1, which is 255 as a `uint8_t`; the
registration checks nothing.

A failed assertion gives `none`.  Of configuration space the message control, the low address and
the data of the MSI capability are kept.
-/

namespace SigmaOS.Arch.Vectors

open List BitVec Function Finset

/-! ## Handlers -/

inductive Callback where
  /-- A function that was registered at boot. -/
  | boot (id : Nat)
  /-- The function of `enableIrq`, with the event of a handle as its `userptr`. -/
  | event (handle : Nat)
  deriving DecidableEq, Repr

structure Handler where
  vector : Nat
  callback : Option Callback
  isIrq : Bool
  shouldIret : Bool
  deriving DecidableEq, Repr

abbrev Handlers := Nat → Handler

def searchFree (handlers : Handlers) : Nat → Nat
  | 0 => 255
  | i + 1 => if (handlers (i + 1)).callback.isNone then i + 1 else searchFree handlers i

def getFreeVector (handlers : Handlers) : Nat :=
  searchFree handlers 246

def registerInterruptHandler (handlers : Handlers) (h : Handler) : Handlers :=
  Function.update handlers h.vector h

/-! ## Devices -/

structure Msi where
  supported : Bool
  spaceOffset : BitVec 8
  control : BitVec 16
  address : BitVec 32
  data : BitVec 32
  deriving DecidableEq, Repr

namespace Msi

/-- Bits 1 to 3 of the message control. -/
def mmc (m : Msi) : BitVec 3 :=
  m.control.extractLsb' 1 3

def vector (m : Msi) : BitVec 8 :=
  m.data.setWidth 8

def enabled (m : Msi) : Bool :=
  m.control.getLsbD 0

/-- The assertions of `install_msi`; `notSupported` is the flag of the FADT. -/
def Installable (notSupported : Bool) (m : Msi) : Prop :=
  m.supported = true ∧ m.spaceOffset ≠ 0#8 ∧ notSupported = false ∧ 1 <<< m.mmc.toNat < 32

instance (notSupported : Bool) (m : Msi) : Decidable (m.Installable notSupported) :=
  inferInstanceAs (Decidable (_ ∧ _))

def installMsi (notSupported : Bool) (m : Msi) (destId : BitVec 32) (vector : BitVec 8) : Option Msi :=
  if m.Installable notSupported then
    -- both registers are read with a size of two bytes
    let address := m.address &&& 0xFFFF#32
    let data := m.data &&& 0xFFFF#32
    some { m with
      data := ((data &&& ~~~0xFF#32) ||| vector.setWidth 32) &&& ~~~0x700#32
      address := (address &&& 0xFFF#32) ||| ((destId &&& 0xFF#32) <<< 12) ||| (0xFEE#32 <<< 20)
      control := (m.control ||| 1#16) &&& ~~~0x70#16 }
  else
    none

lemma vector_install (data : BitVec 32) (vector : BitVec 8) :
    (((data &&& ~~~0xFF#32) ||| vector.setWidth 32) &&& ~~~0x700#32).setWidth 8 = vector := by
  have hvector : (vector.setWidth 32).setWidth 8 = vector :=
    setWidth_setWidth_of_le vector (by decide)
  have hlow : (~~~0xFF#32).setWidth 8 = 0#8 := by decide
  have hmode : (~~~0x700#32).setWidth 8 = BitVec.allOnes 8 := by decide
  rw [setWidth_and, setWidth_or, setWidth_and, hvector, hlow, hmode,
    and_zero, zero_or, and_allOnes]

lemma mmc_install (control : BitVec 16) :
    ((control ||| 1#16) &&& ~~~0x70#16).extractLsb' 1 3 = control.extractLsb' 1 3 := by
  have henable : (1#16).extractLsb' 1 3 = 0#3 := by decide
  have hmme : (~~~0x70#16).extractLsb' 1 3 = BitVec.allOnes 3 := by decide
  rw [BitVec.extractLsb'_and, BitVec.extractLsb'_or, henable, hmme, or_zero,
    and_allOnes]

/-- A successful `install_msi` enables the device with the given vector. -/
lemma installMsi_some {notSupported : Bool} {m m' : Msi} {destId : BitVec 32} {vector : BitVec 8}
    (h : m.installMsi notSupported destId vector = some m') :
    m'.vector = vector ∧ m'.enabled = true ∧ m'.Installable notSupported := by
  unfold installMsi at h
  split at h
  case isTrue hok =>
    cases h
    refine ⟨vector_install _ vector, ?_, hok.1, hok.2.1, hok.2.2.1, ?_⟩
    · simp [enabled]
    · rw [mmc, mmc_install]
      exact hok.2.2.2
  case isFalse => cases h

lemma installMsi_isSome (notSupported : Bool) (m : Msi) (destId : BitVec 32) (vector : BitVec 8) :
    (m.installMsi notSupported destId vector).isSome = decide (m.Installable notSupported) := by
  unfold installMsi
  split
  case isTrue h => exact (decide_eq_true h).symm
  case isFalse h => exact (decide_eq_false h).symm

end Msi

/-- The handlers, the PCI devices of `device_list` (`none` for another device), the flag of the FADT and
the number of handles made so far. -/
structure Machine where
  handlers : Handlers
  devices : Nat → Option Msi
  msiNotSupported : Bool
  handles : Nat

/-- The device passes the assertions of the command. -/
def Machine.installs (s : Machine) (arg1 : Nat) : Bool :=
  match s.devices arg1 with
  | none => false
  | some device => decide (device.Installable s.msiNotSupported)

/-- `devctl_cmd_enable_irq` on the device `arg1`, with the vector of the new handle. -/
def enableIrq (s : Machine) (arg1 : Nat) : Option (Machine × Nat) :=
  match s.devices arg1 with
  | none => none
  | some device =>
    let vec := getFreeVector s.handlers
    match device.installMsi s.msiNotSupported 0#32 (BitVec.ofNat 8 vec) with
    | none => none
    | some device' =>
      some ({ s with
        handlers := registerInterruptHandler s.handlers
          { vector := vec, callback := some (.event s.handles), isIrq := true, shouldIret := false }
        devices := Function.update s.devices arg1 (some device')
        handles := s.handles + 1 }, vec)

/-- A sequence of commands, with the vectors handed out; a failed assertion halts the kernel. -/
def enableIrqs (s : Machine) : List Nat → Machine × List Nat
  | [] => (s, [])
  | arg1 :: rest =>
    match enableIrq s arg1 with
    | none => (s, [])
    | some (s', vec) => ((enableIrqs s' rest).1, vec :: (enableIrqs s' rest).2)

/-! ## Free vectors -/

/-- The vectors between 32 and 246 without a handler. -/
def freeVectors (handlers : Handlers) : Finset Nat :=
  (Finset.Icc 32 246).filter fun v => (handlers v).callback.isNone

/-- A command handed out a free vector for its device and touched no other handler. -/
def Fresh (s : Machine) (arg1 : Nat) (s' : Machine) (vec : Nat) : Prop :=
  vec ∈ freeVectors s.handlers ∧
  (∃ device, s'.devices arg1 = some device ∧ device.vector = BitVec.ofNat 8 vec ∧
    device.enabled = true) ∧
  ∀ v, v ≠ vec → s'.handlers v = s.handlers v

def EachFresh (s : Machine) : List Nat → Prop
  | [] => True
  | arg1 :: rest =>
    match enableIrq s arg1 with
    | none => True
    | some (s', vec) => Fresh s arg1 s' vec ∧ EachFresh s' rest

/-- The answer is the greatest free vector, or 255. -/
lemma searchFree_spec (handlers : Handlers) (n : Nat) :
    (searchFree handlers n = 255 ∧ ∀ v, 1 ≤ v → v ≤ n → (handlers v).callback.isNone = false) ∨
    (1 ≤ searchFree handlers n ∧ searchFree handlers n ≤ n ∧
      (handlers (searchFree handlers n)).callback.isNone = true ∧
      ∀ v, searchFree handlers n < v → v ≤ n → (handlers v).callback.isNone = false) := by
  induction n with
  | zero => exact .inl ⟨rfl, fun v h1 h0 => absurd (Nat.le_trans h1 h0) (by decide)⟩
  | succ n ih =>
    unfold searchFree
    split
    case isTrue hfree =>
      refine .inr ⟨Nat.succ_pos n, Nat.le_refl _, hfree, ?_⟩
      intro v hlt hle
      exact absurd hlt (Nat.not_lt.2 hle)
    case isFalse hbusy =>
      -- the vector that was looked at joins those known to be taken
      have hbusy : (handlers (n + 1)).callback.isNone = false := Bool.eq_false_iff.2 hbusy
      have hstep : ∀ v, v ≤ n + 1 → v ≤ n ∨ v = n + 1 := fun v => Nat.le_succ_iff.1
      rcases ih with ⟨hnone, htaken⟩ | ⟨hpos, hle, hfree, htaken⟩
      · refine .inl ⟨hnone, fun v h1 hv => ?_⟩
        rcases hstep v hv with hv | rfl
        · exact htaken v h1 hv
        · exact hbusy
      · refine .inr ⟨hpos, Nat.le_succ_of_le hle, hfree, fun v hlt hv => ?_⟩
        rcases hstep v hv with hv | rfl
        · exact htaken v hlt hv
        · exact hbusy

variable {v arg1 : Nat} {s : Machine} {devs : List Nat}

lemma mem_freeVectors {handlers : Handlers} :
    v ∈ freeVectors handlers ↔ (32 ≤ v ∧ v ≤ 246) ∧ (handlers v).callback.isNone = true := by
  simp [freeVectors]

/-- The vector returned is free iff some vector is. -/
lemma getFreeVector_mem_iff (handlers : Handlers) :
    getFreeVector handlers ∈ freeVectors handlers ↔ (freeVectors handlers).Nonempty := by
  constructor
  · exact fun h => ⟨_, h⟩
  · rintro ⟨v, hv⟩
    obtain ⟨⟨hlow, hhigh⟩, hfree⟩ := mem_freeVectors.1 hv
    rcases searchFree_spec handlers 246 with ⟨-, htaken⟩ | ⟨-, hle, hmem, htaken⟩
    · rw [htaken v (by omega) hhigh] at hfree
      cases hfree
    · refine mem_freeVectors.2 ⟨⟨?_, hle⟩, hmem⟩
      -- a smaller answer would have passed over `v`
      by_contra hsmall
      rw [htaken v (by unfold getFreeVector at hsmall; omega) hhigh] at hfree
      cases hfree

lemma freeVectors_register (handlers : Handlers) (h : Handler)
    (hcallback : h.callback.isNone = false) :
    freeVectors (registerInterruptHandler handlers h) = (freeVectors handlers).erase h.vector := by
  ext v
  rw [mem_erase, mem_freeVectors, mem_freeVectors, registerInterruptHandler]
  by_cases hv : v = h.vector
  · subst hv
    simp [hcallback]
  · simp [hv]

variable {s' : Machine} {vec : Nat}

section

variable (h : enableIrq s arg1 = some (s', vec))
include h

/-- What one successful call stores in the device and in the handler table. -/
lemma enableIrq_some :
    vec = getFreeVector s.handlers ∧
    (∃ device, s'.devices = Function.update s.devices arg1 (some device) ∧
      device.vector = BitVec.ofNat 8 vec ∧ device.enabled = true ∧
      device.Installable s.msiNotSupported) ∧
    (∃ handler : Handler, handler.vector = vec ∧ handler.callback.isNone = false ∧
      s'.handlers = registerInterruptHandler s.handlers handler) ∧
    s'.msiNotSupported = s.msiNotSupported := by
  simp only [enableIrq] at h
  split at h
  · cases h
  split at h
  · cases h
  next device' hinstall =>
  cases h
  exact ⟨rfl, ⟨device', rfl, Msi.installMsi_some hinstall⟩, ⟨_, rfl, rfl, rfl⟩, rfl⟩

/-- One call returns a fresh vector iff some vector is free. -/
lemma enableIrq_fresh_iff : Fresh s arg1 s' vec ↔ (freeVectors s.handlers).Nonempty := by
  obtain ⟨rfl, ⟨device, hdevices, hdevice, henabled, -⟩, ⟨handler, hvector, -, hhandlers⟩, -⟩ :=
    enableIrq_some h
  rw [← getFreeVector_mem_iff]
  constructor
  · exact fun hfresh => hfresh.1
  · intro hmem
    refine ⟨hmem, ⟨device, ?_, hdevice, henabled⟩, fun v hv => ?_⟩
    · rw [hdevices]
      exact update_self ..
    · rw [hhandlers, registerInterruptHandler, hvector]
      exact update_of_ne hv _ _

lemma enableIrq_freeVectors : freeVectors s'.handlers = (freeVectors s.handlers).erase vec := by
  obtain ⟨-, -, ⟨handler, hvector, hcallback, hhandlers⟩, -⟩ := enableIrq_some h
  rw [hhandlers, freeVectors_register _ _ hcallback, hvector]

end

/-! ## Sequences of commands -/

lemma enableIrq_isSome (s : Machine) (arg1 : Nat) :
    (enableIrq s arg1).isSome = s.installs arg1 := by
  cases hdevice : s.devices arg1 with
  | none => simp [enableIrq, Machine.installs, hdevice]
  | some device =>
    simp only [enableIrq, Machine.installs, hdevice,
      ← Msi.installMsi_isSome _ _ 0#32 (BitVec.ofNat 8 (getFreeVector s.handlers))]
    split
    next hnone => rw [hnone, Option.isSome_none, Option.isSome_none]
    next hsome => rw [hsome, Option.isSome_some, Option.isSome_some]

/-- A command leaves the outcome of the assertions as it was, also for its own device. -/
lemma enableIrq_installs (h : enableIrq s arg1 = some (s', vec)) : s'.installs = s.installs := by
  have harg : s.installs arg1 = true := by rw [← enableIrq_isSome, h, Option.isSome_some]
  obtain ⟨-, ⟨installed, hdevices, -, -, hstill⟩, -, hflag⟩ := enableIrq_some h
  funext i
  by_cases hi : i = arg1
  · rw [hi, harg]
    simp [Machine.installs, hdevices, hflag, hstill]
  · simp [Machine.installs, hdevices, hflag, hi]

/-- The commands succeed up to the first one whose device fails an assertion. -/
lemma enableIrqs_length (s : Machine) (devs : List Nat) :
    (enableIrqs s devs).2.length = (devs.takeWhile s.installs).length := by
  induction devs generalizing s with
  | nil => rfl
  | cons arg1 rest ih =>
    have hsome := enableIrq_isSome s arg1
    cases h : enableIrq s arg1 with
    | none =>
      rw [h] at hsome
      simp [enableIrqs, h, ← hsome]
    | some next =>
      rw [h] at hsome
      simp [enableIrqs, h, ← hsome, ih next.1, enableIrq_installs h]

lemma EachFresh.of_cons {rest : List Nat} (h : enableIrq s arg1 = some (s', vec))
    (heach : EachFresh s (arg1 :: rest)) : Fresh s arg1 s' vec ∧ EachFresh s' rest := by
  rw [EachFresh, h] at heach
  exact heach

/-- Every command takes one free vector away. -/
lemma eachFresh_iff (s : Machine) (devs : List Nat) :
    EachFresh s devs ↔ (enableIrqs s devs).2.length ≤ (freeVectors s.handlers).card := by
  induction devs generalizing s with
  | nil => exact ⟨fun _ => Nat.zero_le _, fun _ => trivial⟩
  | cons arg1 rest ih =>
    cases h : enableIrq s arg1 with
    | none => simp [EachFresh, enableIrqs, h]
    | some next =>
      obtain ⟨s', vec⟩ := next
      simp only [EachFresh, enableIrqs, h, length_cons]
      rw [ih s', enableIrq_fresh_iff h, enableIrq_freeVectors h, ← card_pos]
      constructor
      · rintro ⟨hpos, hrest⟩
        have hmem := ((enableIrq_fresh_iff h).2 (card_pos.1 hpos)).1
        rw [card_erase_of_mem hmem] at hrest
        omega
      · intro hlen
        have hpos : 0 < (freeVectors s.handlers).card := Nat.lt_of_lt_of_le (Nat.succ_pos _) hlen
        have hmem := ((enableIrq_fresh_iff h).2 (card_pos.1 hpos)).1
        rw [card_erase_of_mem hmem]
        exact ⟨hpos, Nat.le_sub_one_of_lt hlen⟩

/-- The vectors handed out were free at the start. -/
lemma EachFresh.mem_freeVectors (heach : EachFresh s devs) (hv : v ∈ (enableIrqs s devs).2) :
    v ∈ freeVectors s.handlers := by
  induction devs generalizing s with
  | nil => cases hv
  | cons arg1 rest ih =>
    unfold enableIrqs at hv
    split at hv
    · cases hv
    next h =>
    obtain ⟨hfresh, hrest⟩ := heach.of_cons h
    rcases mem_cons.1 hv with rfl | hv
    · exact hfresh.1
    · have hmem := ih hrest hv
      rw [enableIrq_freeVectors h] at hmem
      exact Finset.mem_of_mem_erase hmem

/-- The vectors returned by calls that were each fresh are distinct. -/
lemma EachFresh.nodup (heach : EachFresh s devs) : (enableIrqs s devs).2.Nodup := by
  induction devs generalizing s with
  | nil => exact nodup_nil
  | cons arg1 rest ih =>
    unfold enableIrqs
    split
    · exact nodup_nil
    next vec h =>
    obtain ⟨-, hrest⟩ := heach.of_cons h
    refine nodup_cons.2 ⟨fun hagain => ?_, ih hrest⟩
    -- after the first command its vector is no longer free
    have hmem := hrest.mem_freeVectors hagain
    rw [enableIrq_freeVectors h] at hmem
    exact notMem_erase vec _ hmem

/-- Fresh calls leave the handlers that were registered before them. -/
lemma EachFresh.handlers_eq (heach : EachFresh s devs)
    (hv : (s.handlers v).callback.isNone = false) :
    (enableIrqs s devs).1.handlers v = s.handlers v := by
  induction devs generalizing s with
  | nil => rfl
  | cons arg1 rest ih =>
    unfold enableIrqs
    split
    · rfl
    next s' vec h =>
    obtain ⟨hfresh, hrest⟩ := heach.of_cons h
    have hne : v ≠ vec := by
      rintro rfl
      rw [(Vectors.mem_freeVectors.1 hfresh.1).2] at hv
      cases hv
    have hsame : s'.handlers v = s.handlers v := hfresh.2.2 v hne
    exact (ih hrest (by rw [hsame]; exact hv)).trans hsame

/-- For every set of handlers and every sequence of commands: each command that succeeds gets a free
vector between 32 and 246 exactly if no more commands than free vectors come before the first device
that fails an assertion, and then the vectors are distinct and every handler stays. -/
theorem enableIrqs_fresh_iff (s : Machine) (devs : List Nat) :
    (EachFresh s devs ↔
      (devs.takeWhile s.installs).length ≤ (freeVectors s.handlers).card) ∧
    (EachFresh s devs →
      (enableIrqs s devs).2.Nodup ∧
      ∀ v, (s.handlers v).callback.isNone = false →
        (enableIrqs s devs).1.handlers v = s.handlers v) :=
  ⟨enableIrqs_length s devs ▸ eachFresh_iff s devs,
    fun heach => ⟨heach.nodup, fun _ => heach.handlers_eq⟩⟩

lemma card_freeVectors_le (handlers : Handlers) : (freeVectors handlers).card ≤ 215 := by
  calc (freeVectors handlers).card
      ≤ (Finset.Icc 32 246).card := card_filter_le _ _
    _ = 215 := Nat.card_Icc 32 246

def bootMachine (taken : Nat → Bool) : Machine where
  handlers v :=
    { vector := v, callback := if taken v then some (.boot v) else none, isIrq := false,
      shouldIret := false }
  devices i :=
    if i = 0 then
      some { supported := true, spaceOffset := 0x50#8, control := 0#16, address := 0#32, data := 0#32 }
    else none
  msiNotSupported := false
  handles := 0

/-- With the boot handlers on 14, 41 and 248 to 251, the 216th command leaves the range; and when every
vector of 1 to 246 is taken, the command installs the device on 255 and replaces the handler there. -/
theorem enableIrqs_exhausted :
    (¬ EachFresh (bootMachine fun v => v = 14 ∨ v = 41 ∨ 248 ≤ v ∧ v ≤ 251) (List.replicate 216 0)) ∧
    (enableIrqs (bootMachine fun _ => true) [0]).2 = [255] ∧
    ((bootMachine fun _ => true).handlers 255).callback = some (.boot 255) ∧
    ((enableIrqs (bootMachine fun _ => true) [0]).1.handlers 255).callback = some (.event 0) := by
  refine ⟨fun heach => ?_, by decide +kernel, by decide, by decide +kernel⟩
  have hlen := (eachFresh_iff _ _).1 heach
  have hcard := card_freeVectors_le
    (bootMachine fun v => v = 14 ∨ v = 41 ∨ 248 ≤ v ∧ v ≤ 251).handlers
  rw [enableIrqs_length, List.takeWhile_replicate, if_pos (by rfl), List.length_replicate] at hlen
  omega

end SigmaOS.Arch.Vectors
