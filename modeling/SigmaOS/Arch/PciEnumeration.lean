import SigmaOS.Arch.Pci
import SigmaOS.Lib.Descent

/-!
# Arch.PciEnumeration — what an enumeration adds

Seen from outside, `enumerate_bus` is a walk down the bridges: the functions it adds to the list of
devices, in their order, are what `walkDown` lists for the bus (`enumerateBus_adds`), and it comes
to an end when the walk and all capability loops do (`enumerateBus_total`).
-/

namespace SigmaOS.Arch.Pci

open Device List
open Lib
open Lib.Descent

/-! ## Capability lists -/

/-- The pointers that a capability list which starts at `ptr` and ends in 0 goes through. -/
inductive CapChain (cfg : ConfigSpace) (a : Address) : BitVec 8 → List (BitVec 8) → Prop where
  | nil : CapChain cfg a 0#8 []
  | cons {ptr : BitVec 8} {l : List (BitVec 8)} :
      ptr ≠ 0#8 → CapChain cfg a (cfg.nextCapability a ptr) l → CapChain cfg a ptr (ptr :: l)

/-- The capability list of a function: empty, when it is not valid. -/
def CapList (cfg : ConfigSpace) (a : Address) (l : List (BitVec 8)) : Prop :=
  if cfg.hasCapabilities a then CapChain cfg a (cfg.capabilityPtr a) l else l = []

section Capabilities

variable {cfg : ConfigSpace} {a : Address} {ptr : BitVec 8} {l l' : List (BitVec 8)}
  {steps steps' : Nat} {dev dev' : Device}

lemma CapChain.unique (h : CapChain cfg a ptr l) (h' : CapChain cfg a ptr l') : l = l' := by
  induction h generalizing l' with
  | nil =>
    cases h' with
    | nil => rfl
    | cons hne _ => exact absurd rfl hne
  | cons hne _ ih =>
    cases h' with
    | nil => exact absurd rfl hne
    | cons _ hrest => rw [ih hrest]

/-- The capability loop folds over any chain its fuel covers. -/
lemma capabilities_of_chain (h : CapChain cfg a ptr l) (hlen : l.length ≤ steps) :
    capabilities cfg a steps ptr dev = some (l.foldl (readCapability cfg a) dev) := by
  induction h generalizing steps dev with
  | nil =>
    cases steps with
    | zero => rfl
    | succ steps => rfl
  | cons hne _ ih =>
    cases steps with
    | zero => exact absurd hlen (Nat.not_succ_le_zero _)
    | succ steps =>
      rw [capabilities, if_neg hne, foldl_cons]
      exact ih (Nat.le_of_succ_le_succ hlen)

/-- If the capability loop returns, it followed a finite chain. -/
lemma chain_of_capabilities (h : capabilities cfg a steps ptr dev = some dev') :
    ∃ l, CapChain cfg a ptr l ∧ l.length ≤ steps := by
  induction steps generalizing ptr dev with
  | zero =>
    rcases Option.ite_none_right_eq_some.1 h with ⟨rfl, _⟩
    exact ⟨[], CapChain.nil, Nat.le_refl 0⟩
  | succ steps ih =>
    unfold capabilities at h
    split at h
    · next hptr => exact ⟨[], hptr ▸ CapChain.nil, Nat.zero_le _⟩
    next hptr =>
    rcases ih h with ⟨l, hl, hlen⟩
    exact ⟨ptr :: l, CapChain.cons hptr hl, Nat.succ_le_succ hlen⟩

lemma CapList.unique (h : CapList cfg a l) (h' : CapList cfg a l') : l = l' := by
  by_cases hcap : cfg.hasCapabilities a = true
  · rw [CapList, if_pos hcap] at h h'
    exact h.unique h'
  · rw [CapList, if_neg hcap] at h h'
    rw [h, h']

lemma readCapabilities_of_list (h : CapList cfg a l) (hlen : l.length ≤ steps) :
    readCapabilities cfg a steps dev = some (l.foldl (readCapability cfg a) dev) := by
  by_cases hcap : cfg.hasCapabilities a = true
  · rw [CapList, if_pos hcap] at h
    rw [readCapabilities, if_pos hcap, capabilities_of_chain h hlen]
  · rw [CapList, if_neg hcap] at h
    rw [readCapabilities, if_neg hcap, h]
    rfl

lemma list_of_readCapabilities (h : readCapabilities cfg a steps dev = some dev') :
    ∃ l, CapList cfg a l ∧ l.length ≤ steps ∧ dev' = l.foldl (readCapability cfg a) dev := by
  have hlist : ∃ l, CapList cfg a l ∧ l.length ≤ steps := by
    by_cases hcap : cfg.hasCapabilities a = true
    · rw [readCapabilities, if_pos hcap] at h
      simpa only [CapList, if_pos hcap] using chain_of_capabilities h
    · exact ⟨[], by rw [CapList, if_neg hcap], Nat.zero_le _⟩
  rcases hlist with ⟨l, hl, hlen⟩
  rw [readCapabilities_of_list hl hlen] at h
  exact ⟨l, hl, hlen, (Option.some.inj h).symm⟩

def lastCapability (cfg : ConfigSpace) (a : Address) (id : BitVec 8) (l : List (BitVec 8)) :
    Option (BitVec 8) :=
  (l.filter fun ptr => cfg.capabilityId a ptr = id).getLast?

def Capability.found (c : Capability) : Option (BitVec 8) :=
  if c.supported then some c.spaceOffset else none

lemma lastCapability_snoc (id : BitVec 8) :
    lastCapability cfg a id (l ++ [ptr]) =
      if cfg.capabilityId a ptr = id then some ptr else lastCapability cfg a id l := by
  by_cases hid : cfg.capabilityId a ptr = id
  · simp [lastCapability, filter_append, hid]
  · simp [lastCapability, filter_append, hid]

/-- The fold keeps the last MSI and the last MSI-X capability of the chain. -/
lemma foldl_readCapability (hmsi : dev.msi.found = none) (hmsix : dev.msix.found = none) :
    (l.foldl (readCapability cfg a) dev).msi.found = lastCapability cfg a 0x05#8 l ∧
      (l.foldl (readCapability cfg a) dev).msix.found = lastCapability cfg a 0x11#8 l := by
  induction l using List.reverseRecOn with
  | nil => exact ⟨hmsi, hmsix⟩
  | append_singleton l ptr ih =>
    rw [foldl_append, lastCapability_snoc, lastCapability_snoc, ← ih.1, ← ih.2]
    by_cases h2 : cfg.capabilityId a ptr = 0x02#8
    · simp [readCapability, h2]
    by_cases h5 : cfg.capabilityId a ptr = 0x05#8
    · simp [readCapability, h5, Capability.found]
    by_cases h11 : cfg.capabilityId a ptr = 0x11#8
    · simp [readCapability, h11, Capability.found]
    · simp [readCapability, h2, h5, h11]

end Capabilities

/-! ## The entry of a function -/

/-- The entry of an existing function in the end. -/
def describe (cfg : ConfigSpace) (steps : Nat) (a : Address) (parent : Option Nat) : Option Device :=
  readCapabilities cfg a steps
    (readHeader cfg a { identify cfg a parent Device.zero with isBridge := cfg.isBridge a })

section Describe

variable {cfg : ConfigSpace} {a : Address} {steps : Nat} {parent : Option Nat} {dev : Device}

/-- The fields that are set before the header and the capabilities are read. -/
def Device.identity (dev : Device) :
    Bool × Bool × Address × Option Nat × Option Nat × Option (List PrtEntry) :=
  (dev.present, dev.isBridge, dev.address, dev.parent, dev.node, dev.prt)

lemma readBars_keeps (n : Nat) :
    (readBars cfg a n dev).identity = dev.identity ∧ (readBars cfg a n dev).msi = dev.msi ∧
      (readBars cfg a n dev).msix = dev.msix := by
  unfold readBars
  induction List.range n generalizing dev with
  | nil => exact ⟨rfl, rfl, rfl⟩
  | cons i is ih =>
    exact ih

lemma readHeader_keeps :
    (readHeader cfg a dev).identity = dev.identity ∧ (readHeader cfg a dev).msi = dev.msi ∧
      (readHeader cfg a dev).msix = dev.msix := by
  simp only [readHeader]
  split
  · exact readBars_keeps 6
  split
  · exact readBars_keeps 3
  · exact ⟨rfl, rfl, rfl⟩

lemma readCapability_keeps (ptr : BitVec 8) :
    (readCapability cfg a dev ptr).identity = dev.identity := by
  simp only [readCapability]
  split
  · rfl
  split
  · rfl
  split
  · rfl
  · rfl

lemma foldl_readCapability_keeps (l : List (BitVec 8)) :
    (l.foldl (readCapability cfg a) dev).identity = dev.identity := by
  induction l generalizing dev with
  | nil => rfl
  | cons ptr l ih => rw [foldl_cons, ih, readCapability_keeps]

structure Describes (cfg : ConfigSpace) (a : Address) (parent : Option Nat) (dev : Device) : Prop where
  present : dev.present = true
  address : dev.address = a
  parent : dev.parent = parent
  isBridge : dev.isBridge = cfg.isBridge a
  unrouted : dev.node = none ∧ dev.prt = none
  capabilities : ∃ l, CapList cfg a l ∧ dev.msi.found = lastCapability cfg a 0x05#8 l ∧
    dev.msix.found = lastCapability cfg a 0x11#8 l

/-- The fields and the capabilities of a function that was read. -/
lemma describe_some (h : describe cfg steps a parent = some dev) : Describes cfg a parent dev := by
  rcases list_of_readCapabilities h with ⟨l, hl, _, hdev⟩
  generalize hd : readHeader cfg a
    { identify cfg a parent zero with isBridge := cfg.isBridge a } = d at hdev
  -- before the capabilities are read, there are none
  have hheader : d.identity = (true, cfg.isBridge a, a, parent, none, none) ∧
      d.msi = ⟨false, 0#8⟩ ∧ d.msix = ⟨false, 0#8⟩ := by
    rw [← hd]
    exact readHeader_keeps
  have hcap : dev.msi.found = lastCapability cfg a 0x05#8 l ∧
      dev.msix.found = lastCapability cfg a 0x11#8 l := by
    rw [hdev]
    exact foldl_readCapability (by rw [hheader.2.1]; rfl) (by rw [hheader.2.2]; rfl)
  have hidentity : dev.identity = (true, cfg.isBridge a, a, parent, none, none) := by
    rw [hdev, foldl_readCapability_keeps, hheader.1]
  have hfields : dev.present = true ∧ dev.isBridge = cfg.isBridge a ∧ dev.address = a ∧
      dev.parent = parent ∧ dev.node = none ∧ dev.prt = none := by
    simpa [identity] using hidentity
  rcases hfields with ⟨hpresent, hbridge, haddress, hparent, hunrouted⟩
  exact ⟨hpresent, haddress, hparent, hbridge, hunrouted, l, hl, hcap⟩

lemma describe_of_list {l : List (BitVec 8)} (h : CapList cfg a l) (hlen : l.length ≤ steps) :
    ∃ dev, describe cfg steps a parent = some dev :=
  ⟨_, readCapabilities_of_list h hlen⟩

lemma describe_mono {steps' : Nat} (hle : steps ≤ steps')
    (h : describe cfg steps a parent = some dev) : describe cfg steps' a parent = some dev := by
  rcases list_of_readCapabilities h with ⟨l, hl, hlen, hdev⟩
  rw [describe, readCapabilities_of_list hl (Nat.le_trans hlen hle), hdev]

end Describe

section Function

variable {cfg : ConfigSpace} {steps steps' : Nat} {a : Address} {parent : Option Nat}
  {s s' mid : Registry} {below below' : BitVec 16 → BitVec 8 → Option Nat → Registry → Option Registry}

/-- The lists with a first version of the entry of the function. -/
def Registry.identified (s : Registry) (cfg : ConfigSpace) (a : Address) (parent : Option Nat) :
    Registry :=
  { s with pciDevices := s.pciDevices ++ [identify cfg a parent Device.zero] }

def behind (cfg : ConfigSpace) (below : BitVec 16 → BitVec 8 → Option Nat → Registry → Option Registry)
    (parent : Option Nat) (s : Registry) (a : Address) : Option Registry :=
  if cfg.isBridge a then
    below a.seg (cfg.secondaryBus a) (some s.pciDevices.length) (s.identified cfg a parent)
  else
    some (s.identified cfg a parent)

variable {d : Device} {f : Device → Device}

lemma modify_length {xs ys : List Device} :
    (xs ++ d :: ys).modify xs.length f = xs ++ f d :: ys := by
  induction xs with
  | nil => rfl
  | cons x xs ih => simpa using ih

lemma update_length {xs ys : List Device} {ids : List Nat} :
    Registry.update ⟨xs ++ d :: ys, ids⟩ xs.length f = ⟨xs ++ f d :: ys, ids⟩ := by
  rw [Registry.update, modify_length]

lemma enumerateFunction_absent (h : cfg.vendorId a = 0xFFFF#16) :
    enumerateFunction cfg steps below parent s a = some s.emptyEntry := by
  simp [enumerateFunction, h]

lemma enumerateFunction_none (h : cfg.vendorId a ≠ 0xFFFF#16)
    (hbehind : behind cfg below parent s a = none) :
    enumerateFunction cfg steps below parent s a = none := by
  have hidentified : s.emptyEntry.update s.pciDevices.length (identify cfg a parent) =
      s.identified cfg a parent := update_length
  unfold behind at hbehind
  split at hbehind
  · next hb => simp [enumerateFunction, h, hb, hidentified, hbehind]
  · cases hbehind

/-- What a function that is there adds, given what is behind it. -/
lemma enumerateFunction_some {rest : List Device} (h : cfg.vendorId a ≠ 0xFFFF#16)
    (hbehind : behind cfg below parent s a = some mid)
    (hmid : mid.pciDevices = s.pciDevices ++ identify cfg a parent zero :: rest) :
    enumerateFunction cfg steps below parent s a =
      (describe cfg steps a parent).map fun dev =>
        { pciDevices := s.pciDevices ++ dev :: rest
          deviceList := mid.deviceList ++ [s.pciDevices.length] } := by
  have hidentified : s.emptyEntry.update s.pciDevices.length (identify cfg a parent) =
      s.identified cfg a parent := update_length
  rcases mid with ⟨devices, ids⟩
  have hdevices : devices = s.pciDevices ++ identify cfg a parent zero :: rest := hmid
  have hlast : ∀ dev : Device, (s.pciDevices ++ dev :: rest)[s.pciDevices.length]? = some dev := by
    intro dev
    simp
  by_cases hb : cfg.isBridge a = true
  · rw [behind, if_pos hb] at hbehind
    simp only [enumerateFunction, h, hb, hidentified, hbehind, hdevices, update_length, hlast,
      describe, if_true, if_false, Option.bind_eq_bind, Option.bind_some, Option.pure_def]
    cases hd : readCapabilities cfg a steps
        (readHeader cfg a { identify cfg a parent zero with isBridge := true }) with
    | none => rfl
    | some dev => simp [Registry.addPciDevice]
  · have hno : cfg.isBridge a = false := by simpa using hb
    have hmid' : s.identified cfg a parent = ⟨devices, ids⟩ := by simpa [behind, hno] using hbehind
    have hunmarked : { identify cfg a parent zero with isBridge := false } =
        identify cfg a parent zero := rfl
    simp only [enumerateFunction, h, hno, hidentified, hmid', hdevices, update_length, hlast,
      describe, hunmarked, if_false, Bool.false_eq_true, Option.bind_eq_bind, Option.bind_some,
      Option.pure_def]
    cases hd : readCapabilities cfg a steps
        (readHeader cfg a (identify cfg a parent zero)) with
    | none => rfl
    | some dev => simp [Registry.addPciDevice]

def Appends (below : BitVec 16 → BitVec 8 → Option Nat → Registry → Option Registry) : Prop :=
  ∀ seg bus parent s t, below seg bus parent s = some t → s.pciDevices <+: t.pciDevices

lemma behind_keeps (hbelow : Appends below) (hbehind : behind cfg below parent s a = some mid) :
    ∃ rest, mid.pciDevices = s.pciDevices ++ identify cfg a parent zero :: rest := by
  unfold behind at hbehind
  split at hbehind
  · rcases hbelow _ _ _ _ _ hbehind with ⟨rest, hrest⟩
    exact ⟨rest, by rw [← hrest]; simp [Registry.identified]⟩
  · cases hbehind
    exact ⟨[], rfl⟩

section

variable (hbelow : Appends below) (h : enumerateFunction cfg steps below parent s a = some s')
include hbelow h

/-- A function is skipped with an empty entry, or added after what is behind it. -/
lemma enumerateFunction_cases :
    (cfg.vendorId a = 0xFFFF#16 ∧ s' = s.emptyEntry) ∨
      (cfg.vendorId a ≠ 0xFFFF#16 ∧ ∃ mid rest dev, behind cfg below parent s a = some mid ∧
        mid.pciDevices = s.pciDevices ++ identify cfg a parent zero :: rest ∧
        describe cfg steps a parent = some dev ∧
        s' = { pciDevices := s.pciDevices ++ dev :: rest
               deviceList := mid.deviceList ++ [s.pciDevices.length] }) := by
  by_cases hv : cfg.vendorId a = 0xFFFF#16
  · rw [enumerateFunction_absent hv] at h
    exact .inl ⟨hv, (Option.some.inj h).symm⟩
  · refine .inr ⟨hv, ?_⟩
    cases hb : behind cfg below parent s a with
    | none =>
      rw [enumerateFunction_none hv hb] at h
      exact absurd h (by simp)
    | some mid =>
      rcases behind_keeps hbelow hb with ⟨rest, hrest⟩
      rw [enumerateFunction_some hv hb hrest] at h
      rcases Option.map_eq_some_iff.1 h with ⟨dev, hdev, hs'⟩
      exact ⟨mid, rest, dev, rfl, hrest, hdev, hs'.symm⟩

lemma enumerateFunction_appends : s.pciDevices <+: s'.pciDevices := by
  rcases enumerateFunction_cases hbelow h with ⟨_, rfl⟩ | ⟨_, mid, rest, dev, _, _, _, rfl⟩
  · exact prefix_append _ _
  · exact prefix_append _ _

end

lemma behind_mono
    (hle : ∀ seg bus parent s t, below seg bus parent s = some t → below' seg bus parent s = some t)
    (h : behind cfg below parent s a = some mid) : behind cfg below' parent s a = some mid := by
  unfold behind at h ⊢
  split_ifs at h ⊢
  · exact hle _ _ _ _ _ h
  · exact h

lemma enumerateFunction_mono (hbelow : Appends below) (hsteps : steps ≤ steps')
    (hle : ∀ seg bus parent s t, below seg bus parent s = some t → below' seg bus parent s = some t)
    (h : enumerateFunction cfg steps below parent s a = some s') :
    enumerateFunction cfg steps' below' parent s a = some s' := by
  rcases enumerateFunction_cases hbelow h with ⟨hv, rfl⟩ | ⟨hv, mid, rest, dev, hb, hrest, hdev, rfl⟩
  · exact enumerateFunction_absent hv
  · rw [enumerateFunction_some hv (behind_mono hle hb) hrest, describe_mono hsteps hdev]
    rfl

end Function

section Bus

variable {cfg : ConfigSpace} {steps steps' fuel fuel' : Nat} {seg : BitVec 16} {bus : BitVec 8}
  {a : Address} {parent : Option Nat} {s s' : Registry}
  {below : BitVec 16 → BitVec 8 → Option Nat → Registry → Option Registry}

/-- The functions that `enumerate_device` looks at. -/
def tried (cfg : ConfigSpace) (a : Address) : List Address :=
  if cfg.vendorId a = 0xFFFF#16 then []
  else if (cfg.headerType a).getLsbD 7 then functionsOf a
  else [a]

lemma enumerateDevice_eq :
    enumerateDevice cfg steps below parent s a =
      exec (enumerateFunction cfg steps below parent) s (tried cfg a) := by
  rw [enumerateDevice, tried]
  split
  · rfl
  split
  · rfl
  cases hf : enumerateFunction cfg steps below parent s a with
  | none => simp [exec, hf]
  | some t => simp [exec, hf]

def triedOn (cfg : ConfigSpace) (seg : BitVec 16) (bus : BitVec 8) : List Address :=
  (devicesOf seg bus).flatMap (tried cfg)

lemma enumerateBus_succ :
    enumerateBus cfg steps (fuel + 1) seg bus parent s =
      exec (enumerateFunction cfg steps (enumerateBus cfg steps fuel) parent) s
        (triedOn cfg seg bus) := by
  have hstep : enumerateDevice cfg steps (enumerateBus cfg steps fuel) parent = fun s a =>
    exec (enumerateFunction cfg steps (enumerateBus cfg steps fuel) parent) s (tried cfg a) := by
    funext s a
    exact enumerateDevice_eq
  rw [enumerateBus, hstep, exec_flatMap, triedOn]

/-- Enumeration only appends to the device list. -/
lemma enumerateBus_appends : Appends (enumerateBus cfg steps fuel) := by
  induction fuel with
  | zero =>
    intro seg bus parent s t h
    simp [enumerateBus] at h
  | succ fuel ih =>
    intro seg bus parent s t h
    rw [enumerateBus_succ] at h
    have hrun : Run (enumerateFunction cfg steps (enumerateBus cfg steps fuel) parent)
        (fun _ _ => True) s t := exec_run h fun _ _ _ => trivial
    exact hrun.invariant (I := fun t => s.pciDevices <+: t.pciDevices) (prefix_refl _)
      fun t a u ht _ hu => ht.trans (enumerateFunction_appends ih hu)

/-- More fuel does not change an enumeration that returned. -/
lemma enumerateBus_mono (hsteps : steps ≤ steps') (hfuel : fuel ≤ fuel')
    (h : enumerateBus cfg steps fuel seg bus parent s = some s') :
    enumerateBus cfg steps' fuel' seg bus parent s = some s' := by
  induction fuel generalizing fuel' seg bus parent s s' with
  | zero => simp [enumerateBus] at h
  | succ fuel ih =>
    cases fuel' with
    | zero => exact absurd hfuel (Nat.not_succ_le_zero fuel)
    | succ fuel' =>
      rw [enumerateBus_succ] at h ⊢
      refine exec_mono ?_ h
      intro t a u hu
      exact enumerateFunction_mono enumerateBus_appends hsteps
        (fun _ _ _ _ _ hb => ih (Nat.le_of_succ_le_succ hfuel) hb) hu

end Bus

/-! ## The functions that exist -/

/-- The functions the enumeration is meant to find: those that answer, on devices whose function 0
answers, and only function 0 where the device has no others. -/
structure Present (cfg : ConfigSpace) (a : Address) : Prop where
  device : a.device.toNat < 32
  function : a.function.toNat < 8
  answers : cfg.vendorId a ≠ 0xFFFF#16
  deviceAnswers : cfg.vendorId { a with function := 0#8 } ≠ 0xFFFF#16
  multifunction : a.function = 0#8 ∨ (cfg.headerType a).getLsbD 7 = true

def functionsOn (cfg : ConfigSpace) (seg : BitVec 16) (bus : BitVec 8) : List Address :=
  (triedOn cfg seg bus).filter fun a => cfg.vendorId a ≠ 0xFFFF#16

def bridgeTo (cfg : ConfigSpace) (a : Address) : Option (BitVec 8) :=
  if cfg.isBridge a then some (cfg.secondaryBus a) else none

section Present

variable {cfg : ConfigSpace} {seg : BitVec 16} {bus : BitVec 8} {a d : Address}

lemma ofNat_eq_iff {i : Nat} (hi : i < 256) (w : BitVec 8) : BitVec.ofNat 8 i = w ↔ i = w.toNat := by
  rw [← BitVec.toNat_inj, BitVec.toNat_ofNat, Nat.mod_eq_of_lt hi]

lemma mem_devicesOf :
    d ∈ devicesOf seg bus ↔
      d.seg = seg ∧ d.bus = bus ∧ d.device.toNat < 32 ∧ d.function = 0#8 := by
  rcases d with ⟨seg', bus', device, function⟩
  simp only [devicesOf, mem_map, mem_range, Address.mk.injEq]
  constructor
  · rintro ⟨i, hi, rfl, rfl, hdevice, rfl⟩
    have hval := (ofNat_eq_iff (by omega) device).1 hdevice
    exact ⟨rfl, rfl, hval ▸ hi, rfl⟩
  · rintro ⟨rfl, rfl, hdevice, rfl⟩
    exact ⟨device.toNat, hdevice, rfl, rfl, (ofNat_eq_iff device.isLt device).2 rfl, rfl⟩

lemma mem_functionsOf (hd : d.function = 0#8) :
    a ∈ functionsOf d ↔ { a with function := 0#8 } = d ∧ a.function.toNat < 8 := by
  rcases a with ⟨seg', bus', device, function⟩
  rcases d with ⟨seg, bus, device', zero⟩
  have hzero : zero = 0#8 := hd
  subst hzero
  simp only [functionsOf, mem_map, mem_range, Address.mk.injEq, and_true]
  constructor
  · rintro ⟨i, hi, rfl, rfl, rfl, hfunction⟩
    have hval := (ofNat_eq_iff (by omega) function).1 hfunction
    exact ⟨⟨rfl, rfl, rfl⟩, hval ▸ hi⟩
  · rintro ⟨⟨rfl, rfl, rfl⟩, hfunction⟩
    exact ⟨function.toNat, hfunction, rfl, rfl, rfl, (ofNat_eq_iff function.isLt function).2 rfl⟩

/-- The functions of a device that the loop looks at. -/
lemma mem_tried (hd : d.function = 0#8) :
    a ∈ tried cfg d ↔ { a with function := 0#8 } = d ∧ a.function.toNat < 8 ∧
      cfg.vendorId d ≠ 0xFFFF#16 ∧ (a.function = 0#8 ∨ (cfg.headerType a).getLsbD 7 = true) := by
  have hsame : { a with function := 0#8 } = d → cfg.headerType a = cfg.headerType d := by
    rintro rfl
    rfl
  rw [tried]
  by_cases hv : cfg.vendorId d = 0xFFFF#16
  · simp [hv]
  rw [if_neg hv]
  by_cases hm : (cfg.headerType d).getLsbD 7 = true
  · rw [if_pos hm, mem_functionsOf hd]
    constructor
    · rintro ⟨had, hfunction⟩
      exact ⟨had, hfunction, hv, .inr ((hsame had).symm ▸ hm)⟩
    · rintro ⟨had, hfunction, _⟩
      exact ⟨had, hfunction⟩
  · rw [if_neg hm, mem_singleton]
    constructor
    · rintro rfl
      have hself : { a with function := 0#8 } = a := by rw [← hd]
      exact ⟨hself, by rw [hd]; decide, hv, .inl hd⟩
    · rintro ⟨had, _, _, hfunction | hbit⟩
      · rw [← had, ← hfunction]
      · rw [hsame had] at hbit
        exact absurd hbit hm

lemma mem_functionsOn :
    a ∈ functionsOn cfg seg bus ↔ a.seg = seg ∧ a.bus = bus ∧ Present cfg a := by
  rw [functionsOn, mem_filter, triedOn, mem_flatMap, decide_eq_true_iff]
  constructor
  · rintro ⟨⟨d, hd, ha⟩, hanswers⟩
    rcases mem_devicesOf.1 hd with ⟨rfl, rfl, hdevice, hzero⟩
    rcases (mem_tried hzero).1 ha with ⟨rfl, hfunction, hv, hmulti⟩
    exact ⟨rfl, rfl, hdevice, hfunction, hanswers, hv, hmulti⟩
  · rintro ⟨rfl, rfl, h⟩
    refine ⟨⟨{ a with function := 0#8 }, mem_devicesOf.2 ⟨rfl, rfl, h.device, rfl⟩, ?_⟩, h.answers⟩
    exact (mem_tried rfl).2 ⟨rfl, h.function, h.deviceAnswers, h.multifunction⟩

lemma nodup_map_byte (byte : Address → BitVec 8) {make : Nat → Address} {n : Nat} (hn : n ≤ 256)
    (hbyte : ∀ i, byte (make i) = BitVec.ofNat 8 i) : ((List.range n).map make).Nodup := by
  refine List.Nodup.map_on ?_ nodup_range
  intro i hi j hj hij
  have heq : BitVec.ofNat 8 i = BitVec.ofNat 8 j := by rw [← hbyte i, ← hbyte j, hij]
  rw [mem_range] at hi hj
  rw [ofNat_eq_iff (by omega), BitVec.toNat_ofNat, Nat.mod_eq_of_lt (by omega)] at heq
  exact heq

lemma devicesOf_nodup : (devicesOf seg bus).Nodup :=
  nodup_map_byte Address.device (by decide) fun _ => rfl

lemma functionsOf_nodup : (functionsOf d).Nodup :=
  nodup_map_byte Address.function (by decide) fun _ => rfl

lemma functionsOn_nodup : (functionsOn cfg seg bus).Nodup := by
  refine List.Nodup.filter _ (nodup_flatMap.2 ⟨?_, devicesOf_nodup.imp_of_mem ?_⟩)
  · intro d _
    unfold tried
    split
    · exact nodup_nil
    split
    · exact functionsOf_nodup
    · exact nodup_singleton d
  · intro d d' hd hd' hne a ha ha'
    have hzero := (mem_devicesOf.1 hd).2.2.2
    have hzero' := (mem_devicesOf.1 hd').2.2.2
    exact hne (((mem_tried hzero).1 ha).1.symm.trans ((mem_tried hzero').1 ha').1)

end Present

/-! ## What is added -/

/-- The parent of a function at `a`: the one it was called with for the bus itself, and the bridge to
its bus for the others. -/
def ParentIs (cfg : ConfigSpace) (bus : BitVec 8) (parent : Option Nat) (found : List (Address × Nat))
    (a : Address) (p : Option Nat) : Prop :=
  (a.bus = bus ∧ p = parent) ∨ ∃ e ∈ found, p = some e.2 ∧ bridgeTo cfg e.1 = some a.bus

/-- The functions `found`, each with the position of its entry, are added by the enumeration of
`bus`. -/
structure Adds (cfg : ConfigSpace) (bus : BitVec 8) (parent : Option Nat)
    (found : List (Address × Nat)) (s s' : Registry) : Prop where
  kept : s.pciDevices <+: s'.pciDevices
  added : s'.deviceList = s.deviceList ++ found.map Prod.snd
  fresh : ∀ e ∈ found, s.pciDevices.length ≤ e.2
  entries : ∀ e ∈ found, ∃ dev p, s'.pciDevices[e.2]? = some dev ∧ Describes cfg e.1 p dev ∧
    (∀ j, p = some j → j < e.2) ∧ ParentIs cfg bus parent found e.1 p

section Adds

variable {cfg : ConfigSpace} {steps fuel : Nat} {seg : BitVec 16} {bus c : BitVec 8} {a : Address}
  {parent p : Option Nat} {found found' : List (Address × Nat)} {s s' t mid : Registry}

lemma ParentIs.mono (hsub : ∀ e ∈ found, e ∈ found') (h : ParentIs cfg bus parent found a p) :
    ParentIs cfg bus parent found' a p := by
  rcases h with hown | ⟨e, he, hp⟩
  · exact .inl hown
  · exact .inr ⟨e, hsub e he, hp⟩

lemma getElem?_appended {xs ys : List Device} {i : Nat} {dev : Device} (h : xs <+: ys)
    (hi : xs[i]? = some dev) : ys[i]? = some dev := by
  rcases h with ⟨rest, rfl⟩
  have hlt : i < xs.length := (List.getElem?_eq_some_iff.1 hi).1
  rw [List.getElem?_append_left hlt, hi]

lemma getElem?_entry {xs ys : List Device} {i : Nat} {dev dev' : Device} (h : xs.length < i) :
    (xs ++ dev :: ys)[i]? = (xs ++ dev' :: ys)[i]? := by
  rw [List.getElem?_append_right (Nat.le_of_lt h), List.getElem?_append_right (Nat.le_of_lt h)]
  cases hk : i - xs.length with
  | zero => omega
  | succ k => rfl

lemma Adds.refl : Adds cfg bus parent [] s s := by
  refine ⟨prefix_refl _, by simp, ?_, ?_⟩
  · exact nofun
  · exact nofun

lemma Adds.trans (h : Adds cfg bus parent found s t) (h' : Adds cfg bus parent found' t s') :
    Adds cfg bus parent (found ++ found') s s' := by
  refine ⟨h.kept.trans h'.kept, ?_, ?_, ?_⟩
  · rw [h'.added, h.added, map_append, append_assoc]
  · intro e he
    rcases mem_append.1 he with he | he
    · exact h.fresh e he
    · exact Nat.le_trans h.kept.length_le (h'.fresh e he)
  · intro e he
    rcases mem_append.1 he with he | he
    · rcases h.entries e he with ⟨dev, p, hdev, hdescribes, hbefore, hparent⟩
      exact ⟨dev, p, getElem?_appended h'.kept hdev, hdescribes, hbefore,
        hparent.mono fun _ => mem_append_left _⟩
    · rcases h'.entries e he with ⟨dev, p, hdev, hdescribes, hbefore, hparent⟩
      exact ⟨dev, p, hdev, hdescribes, hbefore, hparent.mono fun _ => mem_append_right _⟩

lemma Adds.emptyEntry : Adds cfg bus parent [] s s.emptyEntry := by
  refine ⟨prefix_append _ _, by simp [Registry.emptyEntry], ?_, ?_⟩
  · exact nofun
  · exact nofun

/-- A function is added after those behind it. -/
lemma Adds.function {rest : List Device} {dev : Device}
    (h : Adds cfg c (some s.pciDevices.length) found (s.identified cfg a parent) mid)
    (hc : found = [] ∨ bridgeTo cfg a = some c)
    (hparent : ∀ j, parent = some j → j < s.pciDevices.length)
    (hmid : mid.pciDevices = s.pciDevices ++ identify cfg a parent zero :: rest)
    (hdev : describe cfg steps a parent = some dev) :
    Adds cfg a.bus parent (found ++ [(a, s.pciDevices.length)]) s
      { pciDevices := s.pciDevices ++ dev :: rest
        deviceList := mid.deviceList ++ [s.pciDevices.length] } := by
  have hlen : (s.identified cfg a parent).pciDevices.length = s.pciDevices.length + 1 := by
    simp [Registry.identified]
  refine ⟨prefix_append _ _, ?_, ?_, ?_⟩
  · rw [h.added]
    simp [Registry.identified]
  · intro e he
    rcases mem_append.1 he with he | he
    · have hfresh := h.fresh e he
      omega
    · rw [mem_singleton.1 he]
  · intro e he
    rcases mem_append.1 he with he | he
    · rcases h.entries e he with ⟨d, p, hd, hdescribes, hbefore, hp⟩
      have hfresh := h.fresh e he
      have hsame : (s.pciDevices ++ identify cfg a parent zero :: rest)[e.2]? =
          (s.pciDevices ++ dev :: rest)[e.2]? := getElem?_entry (by omega)
      rw [hmid, hsame] at hd
      refine ⟨d, p, hd, hdescribes, hbefore, .inr ?_⟩
      rcases hp with ⟨hbus, rfl⟩ | ⟨e', he', hp⟩
      · -- on the bus right behind the function
        have hbridge := hc.resolve_left (ne_nil_of_mem he)
        exact ⟨(a, s.pciDevices.length), mem_append_right _ (mem_singleton.2 rfl), rfl,
          by rw [hbridge, hbus]⟩
      · exact ⟨e', mem_append_left _ he', hp⟩
    · rw [mem_singleton.1 he]
      exact ⟨dev, parent, by simp, describe_some hdev, hparent, .inl ⟨rfl, rfl⟩⟩

def Follows (cfg : ConfigSpace) (fuel : Nat)
    (below : BitVec 16 → BitVec 8 → Option Nat → Registry → Option Registry) : Prop :=
  ∀ seg bus parent s s', below seg bus parent s = some s' →
    (∀ j, parent = some j → j < s.pciDevices.length) →
    ∃ found, walkDown (functionsOn cfg seg) (bridgeTo cfg) fuel bus = some (found.map Prod.fst) ∧
      Adds cfg bus parent found s s'

variable {below : BitVec 16 → BitVec 8 → Option Nat → Registry → Option Registry}

/-- What a bridge's secondary bus adds, given that `below` follows the walk. -/
lemma behind_adds (hfollows : Follows cfg fuel below) (hb : behind cfg below parent s a = some mid) :
    ∃ found c, walkNode (functionsOn cfg a.seg) (bridgeTo cfg) fuel a =
        some (found.map Prod.fst ++ [a]) ∧ (found = [] ∨ bridgeTo cfg a = some c) ∧
      Adds cfg c (some s.pciDevices.length) found (s.identified cfg a parent) mid := by
  unfold behind at hb
  split at hb
  · next hbridge =>
    have hto : bridgeTo cfg a = some (cfg.secondaryBus a) := by rw [bridgeTo, if_pos hbridge]
    rcases hfollows _ _ _ _ _ hb (by simp [Registry.identified]) with ⟨found, hwalk, hadds⟩
    exact ⟨found, _, by simp [walkNode, hto, hwalk], .inr hto, hadds⟩
  · next hbridge =>
    have hto : bridgeTo cfg a = none := by rw [bridgeTo, if_neg hbridge]
    cases hb
    exact ⟨[], 0#8, by simp [walkNode, hto], .inl rfl, Adds.refl⟩

lemma enumerateFunction_adds (happends : Appends below) (hfollows : Follows cfg fuel below)
    (hparent : ∀ j, parent = some j → j < s.pciDevices.length)
    (h : enumerateFunction cfg steps below parent s a = some s') :
    (cfg.vendorId a = 0xFFFF#16 ∧ Adds cfg a.bus parent [] s s') ∨
      (cfg.vendorId a ≠ 0xFFFF#16 ∧ ∃ found,
        walkNode (functionsOn cfg a.seg) (bridgeTo cfg) fuel a = some (found.map Prod.fst) ∧
          Adds cfg a.bus parent found s s') := by
  rcases enumerateFunction_cases happends h with ⟨hv, rfl⟩ | ⟨hv, mid, rest, dev, hb, hmid, hdev, rfl⟩
  · exact .inl ⟨hv, Adds.emptyEntry⟩
  · rcases behind_adds hfollows hb with ⟨found, c, hwalk, hc, hadds⟩
    exact .inr ⟨hv, _, by simpa using hwalk, hadds.function hc hparent hmid hdev⟩

/-- The loop over the functions of a bus adds what a walk down finds. -/
lemma exec_adds (happends : Appends below) (hfollows : Follows cfg fuel below)
    {as : List Address} {s : Registry} (hon : ∀ a ∈ as, a.seg = seg ∧ a.bus = bus)
    (hparent : ∀ j, parent = some j → j < s.pciDevices.length)
    (h : exec (enumerateFunction cfg steps below parent) s as = some s') :
    ∃ found, collect (walkNode (functionsOn cfg seg) (bridgeTo cfg) fuel)
        (as.filter fun a => cfg.vendorId a ≠ 0xFFFF#16) = some (found.map Prod.fst) ∧
      Adds cfg bus parent found s s' := by
  induction as generalizing s with
  | nil =>
    have hs : s = s' := by simpa [exec] using h
    exact ⟨[], rfl, hs ▸ Adds.refl⟩
  | cons a as ih =>
    rcases hon a mem_cons_self with ⟨rfl, rfl⟩
    rcases exec_cons_some.1 h with ⟨t, hs, hrest⟩
    have hlen := (enumerateFunction_appends happends hs).length_le
    rcases ih (fun b hb => hon b (mem_cons_of_mem a hb))
        (fun j hj => Nat.lt_of_lt_of_le (hparent j hj) hlen) hrest with
      ⟨found', hcollect, hadds'⟩
    rcases enumerateFunction_adds happends hfollows hparent hs with
      ⟨hv, hadds⟩ | ⟨hv, found, hwalk, hadds⟩
    · -- a function that does not exist is not listed, and nothing is added for it
      refine ⟨found', ?_, by simpa using hadds.trans hadds'⟩
      rw [filter_cons_of_neg (by simp [hv])]
      exact hcollect
    · refine ⟨found ++ found', ?_, hadds.trans hadds'⟩
      rw [filter_cons_of_pos (by simp [hv]), map_append]
      exact collect_cons hwalk hcollect

/-- The devices a bus adds are those of the walk over it, in order. -/
lemma enumerateBus_adds : Follows cfg fuel (enumerateBus cfg steps fuel) := by
  induction fuel with
  | zero =>
    intro seg bus parent s s' h
    simp [enumerateBus] at h
  | succ fuel ih =>
    intro seg bus parent s s' h hparent
    rw [enumerateBus_succ] at h
    refine exec_adds enumerateBus_appends ih ?_ hparent h
    intro a ha
    rcases mem_flatMap.1 ha with ⟨d, hd, ha⟩
    rcases mem_devicesOf.1 hd with ⟨hseg, hbus, _, hzero⟩
    have had := ((mem_tried hzero).1 ha).1
    rw [← hseg, ← hbus, ← had]
    exact ⟨rfl, rfl⟩

/-- A function is enumerated when its bus below and its capability list end. -/
lemma enumerateFunction_total (happends : Appends below)
    (hbelow : ∀ c, bridgeTo cfg a = some c → ∀ parent s, ∃ t, below a.seg c parent s = some t)
    (hcap : ∃ l, CapList cfg a l ∧ l.length ≤ steps) :
    ∃ t, enumerateFunction cfg steps below parent s a = some t := by
  by_cases hv : cfg.vendorId a = 0xFFFF#16
  · exact ⟨_, enumerateFunction_absent hv⟩
  have hbehind : ∃ mid, behind cfg below parent s a = some mid := by
    unfold behind
    split
    · next hb => exact hbelow _ (by rw [bridgeTo, if_pos hb]) _ _
    · exact ⟨_, rfl⟩
  rcases hbehind with ⟨mid, hmid⟩
  rcases behind_keeps happends hmid with ⟨rest, hrest⟩
  rcases hcap with ⟨l, hl, hlen⟩
  have hdev : ∃ dev, describe cfg steps a parent = some dev := describe_of_list hl hlen
  rcases hdev with ⟨dev, hdev⟩
  exact ⟨_, by rw [enumerateFunction_some hv hmid hrest, hdev]; rfl⟩

/-- Enumeration ends where the walk ends and the capability lists do. -/
lemma enumerateBus_total {l : List Address}
    (hwalk : walkDown (functionsOn cfg seg) (bridgeTo cfg) fuel bus = some l)
    (hcaps : ∀ a ∈ l, ∃ caps, CapList cfg a caps ∧ caps.length ≤ steps) :
    ∀ parent s, ∃ t, enumerateBus cfg steps fuel seg bus parent s = some t := by
  induction fuel generalizing bus l with
  | zero => simp [walkDown] at hwalk
  | succ fuel ih =>
    intro parent s
    rw [enumerateBus_succ]
    refine exec_total ?_ s
    intro a ha t
    by_cases hv : cfg.vendorId a = 0xFFFF#16
    · exact ⟨_, enumerateFunction_absent hv⟩
    have hon : a ∈ functionsOn cfg seg bus := mem_filter.2 ⟨ha, by simp [hv]⟩
    rcases collect_parts hwalk a hon with ⟨part, hpart⟩
    have hsub : ∀ b ∈ part, b ∈ l := fun b hb => (mem_collect hwalk).2 ⟨a, hon, part, hpart, hb⟩
    have hseg := (mem_functionsOn.1 hon).1
    refine enumerateFunction_total enumerateBus_appends ?_ ?_
    · intro c hc
      rcases walkNode_some hpart with ⟨hnone, _⟩ | ⟨c', l', hc', hwalk', rfl⟩
      · rw [hc] at hnone
        exact absurd hnone (by simp)
      · have hcc : c = c' := Option.some.inj (hc.symm.trans hc')
        rw [hseg, hcc]
        exact ih hwalk' fun b hb => hcaps b (hsub b (mem_append_left _ hb))
    · exact hcaps a (hsub a (self_mem_walkNode hpart))

end Adds

end SigmaOS.Arch.Pci
