import SigmaOS.Lib.Run

/-!
# Arch.Pci — enumeration of PCI functions

`enumerate_bus`, `enumerate_device` and `enumerate_function` descend from a bus through the bridges
found on it and append to two lists: every function that is looked at gets an entry in
`pci_devices`, and the functions that exist are added to the list of devices with a pointer to that
entry.

* `ConfigSpace` is the configuration space as the enumeration sees it.  It is constant, apart from
  the base address registers while they are measured: `sized` is what such a register reads back
  after all ones were written to it.  What is in it is arbitrary.
* An entry of `pci_devices` never moves, so a pointer to it is its position.
* `enumerateBus` has two bounds, one for the rounds of each capability loop (`steps`) and one for
  the nesting of buses (`fuel`); the answer is `none` when one of them is used up.

The setting of the AGP command register and the name that `add_pci_device` gives the device are
left out.
-/

namespace SigmaOS.Arch.Pci

open Lib

/-! ## Configuration space -/

structure Address where
  seg : BitVec 16
  bus : BitVec 8
  device : BitVec 8
  function : BitVec 8
  deriving DecidableEq, Repr

structure ConfigSpace where
  /-- `pci::read(seg, bus, slot, function, offset, access_size)`. -/
  read : Address → BitVec 16 → Nat → BitVec 32
  /-- Base address register `number` after all ones were written to it. -/
  sized : Address → Nat → BitVec 32

namespace ConfigSpace

def byte (cfg : ConfigSpace) (a : Address) (offset : BitVec 16) : BitVec 8 :=
  (cfg.read a offset 1).setWidth 8

def vendorId (cfg : ConfigSpace) (a : Address) : BitVec 16 :=
  (cfg.read a 0#16 2).setWidth 16

def classCode (cfg : ConfigSpace) (a : Address) : BitVec 8 := cfg.byte a 11#16

def subclassCode (cfg : ConfigSpace) (a : Address) : BitVec 8 := cfg.byte a 10#16

def progIf (cfg : ConfigSpace) (a : Address) : BitVec 8 := cfg.byte a 9#16

def isBridge (cfg : ConfigSpace) (a : Address) : Bool :=
  cfg.classCode a == 0x6#8 && cfg.subclassCode a == 0x4#8

def secondaryBus (cfg : ConfigSpace) (a : Address) : BitVec 8 := cfg.byte a 0x19#16

/-- The header type is read from function 0 for all functions of a device. -/
def headerType (cfg : ConfigSpace) (a : Address) : BitVec 8 :=
  cfg.byte { a with function := 0#8 } 0xE#16

def hasCapabilities (cfg : ConfigSpace) (a : Address) : Bool :=
  (cfg.read a 0x6#16 2).getLsbD 4

def capabilityPtr (cfg : ConfigSpace) (a : Address) : BitVec 8 := cfg.byte a 0x34#16

def capabilityId (cfg : ConfigSpace) (a : Address) (ptr : BitVec 8) : BitVec 8 :=
  cfg.byte a (ptr.setWidth 16)

def nextCapability (cfg : ConfigSpace) (a : Address) (ptr : BitVec 8) : BitVec 8 :=
  cfg.byte a (ptr.setWidth 16 + 1#16)

end ConfigSpace

/-! ## Devices -/

inductive BarType
  | mem
  | io
  | invalid
  deriving DecidableEq, Repr

structure Bar where
  type : BarType
  number : BitVec 8
  flags : BitVec 8
  base : BitVec 64
  len : BitVec 64
  deriving DecidableEq, Repr

def Bar.zero : Bar := ⟨.mem, 0#8, 0#8, 0#64, 0#64⟩

/-- `pci::read_bar`.  The flag for prefetchable memory goes into `bar` and not into the answer. -/
def readBar (cfg : ConfigSpace) (a : Address) (number : Nat) : Bar :=
  let ret := Bar.zero
  if number > 5 then
    { ret with type := .invalid }
  else
    let ret := { ret with number := BitVec.ofNat 8 number }
    let offset := BitVec.ofNat 16 (0x10 + number * 4)
    let bar := cfg.read a offset 4
    let ret : Bar :=
      if bar.getLsbD 0 then
        { ret with
          type := .io
          base := ((bar &&& 0xFFFFFFFC#32) &&& 0xFFFF#32).setWidth 64
          len := (~~~(cfg.sized a number &&& ~~~0x3#32) + 1#32).setWidth 64 &&& 0xFFFF#64 }
      else
        let base :=
          if (bar >>> 1) &&& 0x3#32 = 0x0#32 then
            (bar &&& 0xFFFFFFF0#32).setWidth 64
          else if (bar >>> 1) &&& 0x3#32 = 0x2#32 then
            (bar &&& 0xFFFFFFF0#32).setWidth 64 |||
              ((cfg.read a (offset + 4#16) 4).setWidth 64 <<< 32)
          else
            -- another type is reported, and the base stays as it was made
            0#64
        { ret with
          type := .mem
          base := base
          len := (~~~(cfg.sized a number &&& ~~~0xF#32) + 1#32).setWidth 64 }
    if ret.type = .mem ∧ ret.base = 0#64 ∧ ret.len = 0#64 then
      { ret with type := .invalid }
    else
      ret

structure Capability where
  supported : Bool
  spaceOffset : BitVec 8
  deriving DecidableEq, Repr

structure Agp where
  supported : Bool
  minorVer : BitVec 8
  majorVer : BitVec 8
  speedMultiplier : BitVec 8
  deriving DecidableEq, Repr

/-- One line of a routing table, as `lai_pci_parse_prt` answers it; no function stands for all. -/
structure PrtEntry where
  slot : BitVec 8
  function : Option (BitVec 8)
  pin : BitVec 8
  gsi : BitVec 32
  deriving DecidableEq, Repr

/-- `pci::device`.  `present` is its field `exists`; nodes of the ACPI namespace are numbers, and a
routing table that is not there is `none`. -/
structure Device where
  present : Bool
  isBridge : Bool
  address : Address
  vendorId : BitVec 16
  headerType : BitVec 8
  classCode : BitVec 8
  subclassCode : BitVec 8
  progIf : BitVec 8
  parent : Option Nat
  node : Option Nat
  prt : Option (List PrtEntry)
  msi : Capability
  msix : Capability
  agp : Agp
  hasIrq : Bool
  gsi : BitVec 32
  bars : List Bar
  deriving DecidableEq, Repr

def Device.zero : Device where
  present := false
  isBridge := false
  address := ⟨0#16, 0#8, 0#8, 0#8⟩
  vendorId := 0#16
  headerType := 0#8
  classCode := 0#8
  subclassCode := 0#8
  progIf := 0#8
  parent := none
  node := none
  prt := none
  msi := ⟨false, 0#8⟩
  msix := ⟨false, 0#8⟩
  agp := ⟨false, 0#8, 0#8, 0#8⟩
  hasIrq := false
  gsi := 0#32
  bars := List.replicate 6 Bar.zero

/-- `pci_devices`, and the entries of the list of devices that are PCI devices, each with the position
of the device it points to. -/
structure Registry where
  pciDevices : List Device
  deviceList : List Nat

namespace Registry

def emptyEntry (s : Registry) : Registry :=
  { s with pciDevices := s.pciDevices ++ [Device.zero] }

def update (s : Registry) (i : Nat) (f : Device → Device) : Registry :=
  { s with pciDevices := s.pciDevices.modify i f }

def addPciDevice (s : Registry) (i : Nat) : Registry :=
  { s with deviceList := s.deviceList ++ [i] }

end Registry

section Function

variable (cfg : ConfigSpace) (a : Address)

/-- What is known of a function before anything behind it is looked at. -/
def identify (parent : Option Nat) (dev : Device) : Device :=
  { dev with
    present := true
    parent := parent
    address := a
    vendorId := cfg.vendorId a
    classCode := cfg.classCode a
    subclassCode := cfg.subclassCode a
    progIf := cfg.progIf a }

def readBars (n : Nat) (dev : Device) : Device :=
  (List.range n).foldl (fun dev i => { dev with bars := dev.bars.set i (readBar cfg a i) }) dev

def readHeader (dev : Device) : Device :=
  let headerType := cfg.headerType a &&& 0x7F#8
  let dev := { dev with headerType := headerType }
  if headerType = 0#8 then readBars cfg a 6 dev
  else if headerType = 1#8 then readBars cfg a 3 dev
  else dev

def readAgp (ptr : BitVec 8) (agp : Agp) : Agp :=
  let offset := ptr.setWidth 16
  let status := cfg.read a (offset + 4#16) 4
  let speed :=
    -- a card in AGP3 mode, where the same bits stand for other speeds
    if status.getLsbD 3 then
      if status.getLsbD 1 then 8#8 else if status.getLsbD 0 then 4#8 else agp.speedMultiplier
    else
      if status.getLsbD 1 then 2#8 else if status.getLsbD 2 then 4#8 else agp.speedMultiplier
  { supported := true
    minorVer := cfg.byte a (offset + 2#16)
    majorVer := (cfg.read a (offset + 2#16) 1 >>> 4).setWidth 8
    speedMultiplier := speed }

/-- The `switch` of the capability loop. -/
def readCapability (dev : Device) (ptr : BitVec 8) : Device :=
  let id := cfg.capabilityId a ptr
  if id = 0x02#8 then { dev with agp := readAgp cfg a ptr dev.agp }
  else if id = 0x05#8 then { dev with msi := ⟨true, ptr⟩ }
  else if id = 0x11#8 then { dev with msix := ⟨true, ptr⟩ }
  else dev

/-- The capability loop, for at most `steps` rounds. -/
def capabilities : Nat → BitVec 8 → Device → Option Device
  -- the pointer is looked at once more than there are rounds
  | 0, ptr, dev => if ptr = 0#8 then some dev else none
  | steps + 1, ptr, dev =>
    if ptr = 0#8 then some dev
    else capabilities steps (cfg.nextCapability a ptr) (readCapability cfg a dev ptr)

def readCapabilities (steps : Nat) (dev : Device) : Option Device :=
  if cfg.hasCapabilities a then capabilities cfg a steps (cfg.capabilityPtr a) dev else some dev

end Function

/-- `enumerate_function`, with `enumerateBus` for the bus behind a bridge. -/
def enumerateFunction (cfg : ConfigSpace) (steps : Nat)
    (enumerateBus : BitVec 16 → BitVec 8 → Option Nat → Registry → Option Registry) (parent : Option Nat)
    (s : Registry) (a : Address) : Option Registry := do
  let i := s.pciDevices.length
  -- the entry is made first, and it stays when there is no such function
  let s := s.emptyEntry
  if cfg.vendorId a = 0xFFFF#16 then
    return s
  let s := s.update i (identify cfg a parent)
  let s ←
    if cfg.isBridge a then do
      -- what is behind the bridge is added to the list of devices before the bridge
      let s ← enumerateBus a.seg (cfg.secondaryBus a) (some i) s
      pure (s.update i fun dev => { dev with isBridge := true })
    else
      pure s
  let s := s.update i (readHeader cfg a)
  let dev ← s.pciDevices[i]?
  let dev ← readCapabilities cfg a steps dev
  return (s.update i fun _ => dev).addPciDevice i

def functionsOf (a : Address) : List Address :=
  (List.range 8).map fun i => { a with function := BitVec.ofNat 8 i }

def enumerateDevice (cfg : ConfigSpace) (steps : Nat)
    (enumerateBus : BitVec 16 → BitVec 8 → Option Nat → Registry → Option Registry) (parent : Option Nat)
    (s : Registry) (a : Address) : Option Registry :=
  if cfg.vendorId a = 0xFFFF#16 then
    some s
  else if (cfg.headerType a).getLsbD 7 then
    exec (enumerateFunction cfg steps enumerateBus parent) s (functionsOf a)
  else
    enumerateFunction cfg steps enumerateBus parent s a

def devicesOf (seg : BitVec 16) (bus : BitVec 8) : List Address :=
  (List.range 32).map fun i => ⟨seg, bus, BitVec.ofNat 8 i, 0#8⟩

def enumerateBus (cfg : ConfigSpace) (steps : Nat) :
    Nat → BitVec 16 → BitVec 8 → Option Nat → Registry → Option Registry
  | 0, _, _, _, _ => none
  | fuel + 1, seg, bus, parent, s =>
    exec (enumerateDevice cfg steps (enumerateBus cfg steps fuel) parent) s (devicesOf seg bus)

end SigmaOS.Arch.Pci
