import SigmaOS.Lib.Records

/-!
# Acpi.Madt — the interrupt controllers of the machine

`parse` is `acpi::madt::parse` over the bytes of the table, with `parseLapic`, `parseX2apic`,
`parseIoapic`, `parseIso` and `parseLapicAddressOverride` for the entries.  Every access goes
through `Records.read`, also those of the debug output, so that an access behind the end of the
table is a fault.  Offsets are counted from the start of the table: `list` of the source is 44, the
size of `madt_header`.  The results of `cpuid` are parameters; the text of the debug output is left
out.

`Entry` is a well-formed entry as the ACPI specification has it, and `Entry.encode` its bytes.
-/

namespace SigmaOS.Acpi

open Lib.Records List Option

/-- A table with a fixed part of `fixed` bytes, and `length` of its `sdt_header`. -/
structure Table (fixed : Nat) where
  bytes : Bytes
  fixed_le : fixed ≤ bytes.length
  length_eq : field bytes 4 4 = bytes.length

/-! ## The parser -/

structure CpuEntry where
  lapicId : BitVec 32
  x2apic : Bool
  bsp : Bool
  deriving DecidableEq, Repr

structure InterruptOverride where
  source : BitVec 8
  gsi : BitVec 32
  flags : BitVec 16
  deriving DecidableEq, Repr

structure Madt where
  legacyPic : Bool
  lapicAddr : BitVec 64
  cpus : List CpuEntry
  ioapics : List (BitVec 64 × BitVec 32)
  isos : List InterruptOverride
  deriving DecidableEq, Repr

/-- What `cpuid` answers: `b` for leaf 1 and `d` for leaf 0xB, where the leaf is there. -/
structure Cpuid where
  leaf1 : Option (BitVec 32)
  leafB : Option (BitVec 32)

namespace Madt

def new : Madt :=
  ⟨false, 0#64, [], [], []⟩

inductive ItemType where
  | lapic
  | ioapic
  | interruptSourceOverride
  | lapicAddressOverride
  | x2apic
  | unknown
  deriving DecidableEq, Repr

/-- The `switch` over the type of an entry; the other values go to its `default`. -/
def itemType (type : Nat) : ItemType :=
  if type = 0 then .lapic
  else if type = 1 then .ioapic
  else if type = 2 then .interruptSourceOverride
  else if type = 9 then .x2apic
  else if type = 5 then .lapicAddressOverride
  else .unknown

/-- A processor that is enabled, or not enabled and online capable. -/
def usable (flags : BitVec 32) : Bool :=
  flags.getLsbD 0 || (!flags.getLsbD 0 && flags.getLsbD 1)

def lapicBsp (cpuid : Cpuid) (apicId : BitVec 8) : Bool :=
  match cpuid.leaf1 with
  | some b => ((b >>> 24) &&& 0xFF#32).setWidth 8 == apicId
  | none => false

def x2apicBsp (cpuid : Cpuid) (x2apicId : BitVec 32) : Bool :=
  match cpuid.leafB with
  | some d => d == x2apicId
  | none => false

def parseLapic (cpuid : Cpuid) (bytes : Bytes) (item : Nat) (m : Madt) : Except Fault Madt := do
  let _acpiUid ← read bytes (item + 2) 1
  let apicId := BitVec.ofNat 8 (← read bytes (item + 3) 1)
  let flags := BitVec.ofNat 32 (← read bytes (item + 4) 4)
  if usable flags then
    return { m with cpus := m.cpus ++ [⟨apicId.setWidth 32, false, lapicBsp cpuid apicId⟩] }
  else
    return m

def parseX2apic (cpuid : Cpuid) (bytes : Bytes) (item : Nat) (m : Madt) : Except Fault Madt := do
  let _acpiUid ← read bytes (item + 12) 4
  let x2apicId := BitVec.ofNat 32 (← read bytes (item + 4) 4)
  let flags := BitVec.ofNat 32 (← read bytes (item + 8) 4)
  if usable flags then
    return { m with cpus := m.cpus ++ [⟨x2apicId, true, x2apicBsp cpuid x2apicId⟩] }
  else
    return m

def parseIoapic (bytes : Bytes) (item : Nat) (m : Madt) : Except Fault Madt := do
  let ioapicAddr := BitVec.ofNat 32 (← read bytes (item + 4) 4)
  let gsiBase := BitVec.ofNat 32 (← read bytes (item + 8) 4)
  return { m with ioapics := m.ioapics ++ [(ioapicAddr.setWidth 64, gsiBase)] }

def parseIso (bytes : Bytes) (item : Nat) (m : Madt) : Except Fault Madt := do
  let source := BitVec.ofNat 8 (← read bytes (item + 3) 1)
  let gsi := BitVec.ofNat 32 (← read bytes (item + 4) 4)
  let flags := BitVec.ofNat 16 (← read bytes (item + 8) 2)
  return { m with isos := m.isos ++ [⟨source, gsi, flags⟩] }

def parseLapicAddressOverride (bytes : Bytes) (item : Nat) (m : Madt) : Except Fault Madt := do
  let address := BitVec.ofNat 64 (← read bytes (item + 4) 8)
  return { m with lapicAddr := address }

/-- One round of the loop: the entry at `item`, and its length. -/
def parseItem (cpuid : Cpuid) (bytes : Bytes) (item : Nat) (m : Madt) :
    Except Fault (Madt × Nat) := do
  let type ← read bytes item 1
  let m ←
    match itemType type with
    | .lapic => parseLapic cpuid bytes item m
    | .ioapic => parseIoapic bytes item m
    | .interruptSourceOverride => parseIso bytes item m
    | .x2apic => parseX2apic cpuid bytes item m
    | .lapicAddressOverride => parseLapicAddressOverride bytes item m
    | .unknown => pure m
  let length ← read bytes (item + 1) 1
  return (m, length)

def parse (cpuid : Cpuid) (t : Table 44) (fuel : Nat) (m : Madt) : Except Fault Madt := do
  let flags := BitVec.ofNat 32 (← read t.bytes 40 4)
  let lapicAddr := BitVec.ofNat 32 (← read t.bytes 36 4)
  let length ← read t.bytes 4 4
  let tableSize := length - 44
  scan (44 + tableSize) (parseItem cpuid t.bytes) fuel 44
    { m with legacyPic := flags.getLsbD 0, lapicAddr := lapicAddr.setWidth 64 }

/-! ## Entries -/

/-- A well-formed entry.  The length of an entry of an unknown type is at least 2 and at most 255. -/
inductive Entry where
  | lapic (acpiUid apicId : BitVec 8) (flags : BitVec 32)
  | ioapic (apicId reserved : BitVec 8) (ioapicAddr gsiBase : BitVec 32)
  | gsiOverride (bus source : BitVec 8) (gsi : BitVec 32) (flags : BitVec 16)
  | lapicOverride (reserved : BitVec 16) (address : BitVec 64)
  | x2apic (reserved : BitVec 16) (x2apicId flags acpiUid : BitVec 32)
  | unknown (type : BitVec 8) (payload : Bytes) (htype : itemType type.toNat = .unknown)
      (hlength : payload.length ≤ 253)

namespace Entry

def encode : Entry → Bytes
  | .lapic acpiUid apicId flags => [0#8, 8#8, acpiUid, apicId] ++ encodeLe 4 flags.toNat
  | .ioapic apicId reserved ioapicAddr gsiBase =>
    [1#8, 12#8, apicId, reserved] ++ (encodeLe 4 ioapicAddr.toNat ++ encodeLe 4 gsiBase.toNat)
  | .gsiOverride bus source gsi flags =>
    [2#8, 10#8, bus, source] ++ (encodeLe 4 gsi.toNat ++ encodeLe 2 flags.toNat)
  | .lapicOverride reserved address =>
    [5#8, 12#8] ++ (encodeLe 2 reserved.toNat ++ encodeLe 8 address.toNat)
  | .x2apic reserved x2apicId flags acpiUid =>
    [9#8, 16#8] ++ (encodeLe 2 reserved.toNat ++
      (encodeLe 4 x2apicId.toNat ++ (encodeLe 4 flags.toNat ++ encodeLe 4 acpiUid.toNat)))
  | .unknown type payload _ _ => type :: BitVec.ofNat 8 (2 + payload.length) :: payload

def cpu? (cpuid : Cpuid) : Entry → Option CpuEntry
  | .lapic _ apicId flags =>
    if flags.getLsbD 0 ∨ flags.getLsbD 1 then
      some ⟨apicId.setWidth 32, false, lapicBsp cpuid apicId⟩
    else
      none
  | .x2apic _ x2apicId flags _ =>
    if flags.getLsbD 0 ∨ flags.getLsbD 1 then
      some ⟨x2apicId, true, x2apicBsp cpuid x2apicId⟩
    else
      none
  | _ => none

def ioapic? : Entry → Option (BitVec 64 × BitVec 32)
  | .ioapic _ _ ioapicAddr gsiBase => some (ioapicAddr.setWidth 64, gsiBase)
  | _ => none

def iso? : Entry → Option InterruptOverride
  | .gsiOverride _ source gsi flags => some ⟨source, gsi, flags⟩
  | _ => none

def address? : Entry → Option (BitVec 64)
  | .lapicOverride _ address => some address
  | _ => none

end Entry

/-- What the table says: the entries of `entries` behind a header with these values. -/
def decode (cpuid : Cpuid) (flags lapicAddr : BitVec 32) (entries : List Entry) : Madt where
  legacyPic := flags.getLsbD 0
  lapicAddr := (entries.filterMap Entry.address?).getLastD (lapicAddr.setWidth 64)
  cpus := entries.filterMap (Entry.cpu? cpuid)
  ioapics := entries.filterMap Entry.ioapic?
  isos := entries.filterMap Entry.iso?

/-! ## What a round reads -/

def add (cpuid : Cpuid) (m : Madt) (e : Entry) : Madt :=
  { m with
    lapicAddr := e.address?.getD m.lapicAddr
    cpus := m.cpus ++ (e.cpu? cpuid).toList
    ioapics := m.ioapics ++ e.ioapic?.toList
    isos := m.isos ++ e.iso?.toList }

/-- The size of the entries of a type, as far as `parseItem` looks at them. -/
def ItemType.size : ItemType → Nat
  | .lapic => 8
  | .ioapic => 12
  | .interruptSourceOverride => 10
  | .lapicAddressOverride => 12
  | .x2apic => 16
  | .unknown => 2

/-- The entry of a known type whose fields are the bytes at `item`. -/
def entryAt (bytes : Bytes) (item : Nat) : ItemType → Option Entry
  | .lapic =>
    some (.lapic (BitVec.ofNat 8 (field bytes (item + 2) 1))
      (BitVec.ofNat 8 (field bytes (item + 3) 1)) (BitVec.ofNat 32 (field bytes (item + 4) 4)))
  | .ioapic =>
    some (.ioapic (BitVec.ofNat 8 (field bytes (item + 2) 1))
      (BitVec.ofNat 8 (field bytes (item + 3) 1)) (BitVec.ofNat 32 (field bytes (item + 4) 4))
      (BitVec.ofNat 32 (field bytes (item + 8) 4)))
  | .interruptSourceOverride =>
    some (.gsiOverride (BitVec.ofNat 8 (field bytes (item + 2) 1))
      (BitVec.ofNat 8 (field bytes (item + 3) 1)) (BitVec.ofNat 32 (field bytes (item + 4) 4))
      (BitVec.ofNat 16 (field bytes (item + 8) 2)))
  | .lapicAddressOverride =>
    some (.lapicOverride (BitVec.ofNat 16 (field bytes (item + 2) 2))
      (BitVec.ofNat 64 (field bytes (item + 4) 8)))
  | .x2apic =>
    some (.x2apic (BitVec.ofNat 16 (field bytes (item + 2) 2))
      (BitVec.ofNat 32 (field bytes (item + 4) 4)) (BitVec.ofNat 32 (field bytes (item + 8) 4))
      (BitVec.ofNat 32 (field bytes (item + 12) 4)))
  | .unknown => none

lemma usable_iff {flags : BitVec 32} :
    usable flags = true ↔ flags.getLsbD 0 = true ∨ flags.getLsbD 1 = true := by
  unfold usable
  cases flags.getLsbD 0 <;> simp

section Reads

variable {cpuid : Cpuid} {bytes : Bytes} {item : Nat} {m : Madt}

lemma add_cpu {flags : BitVec 32} {e : Entry} {cpu : CpuEntry}
    (hcpu : e.cpu? cpuid = if flags.getLsbD 0 ∨ flags.getLsbD 1 then some cpu else none)
    (haddress : e.address? = none) (hioapic : e.ioapic? = none) (hiso : e.iso? = none) :
    m.add cpuid e = if usable flags then { m with cpus := m.cpus ++ [cpu] } else m := by
  by_cases hu : usable flags = true
  · rw [if_pos (usable_iff.1 hu)] at hcpu
    simp [add, hcpu, haddress, hioapic, hiso, hu]
  · rw [if_neg (mt usable_iff.2 hu)] at hcpu
    simp [add, hcpu, haddress, hioapic, hiso, hu]

lemma parseLapic_eq :
    parseLapic cpuid bytes item m =
      if item + 8 ≤ bytes.length then .ok ((entryAt bytes item .lapic).elim m (m.add cpuid))
      else .error .overrun := by
  simp only [parseLapic, read_bind, pure, Except.pure, entryAt, elim_some]
  rw [add_cpu rfl rfl rfl rfl]
  grind

lemma parseX2apic_eq :
    parseX2apic cpuid bytes item m =
      if item + 16 ≤ bytes.length then .ok ((entryAt bytes item .x2apic).elim m (m.add cpuid))
      else .error .overrun := by
  simp only [parseX2apic, read_bind, pure, Except.pure, entryAt, elim_some]
  rw [add_cpu rfl rfl rfl rfl]
  grind

lemma parseIoapic_eq :
    parseIoapic bytes item m =
      if item + 12 ≤ bytes.length then .ok ((entryAt bytes item .ioapic).elim m (m.add cpuid))
      else .error .overrun := by
  simp only [parseIoapic, read_bind, pure, Except.pure, entryAt, elim_some, add,
    Entry.address?, Entry.cpu?, Entry.ioapic?, Entry.iso?, getD_none, toList_none,
    toList_some, append_nil]
  grind

lemma parseIso_eq :
    parseIso bytes item m =
      if item + 10 ≤ bytes.length then
        .ok ((entryAt bytes item .interruptSourceOverride).elim m (m.add cpuid))
      else .error .overrun := by
  simp only [parseIso, read_bind, pure, Except.pure, entryAt, elim_some, add,
    Entry.address?, Entry.cpu?, Entry.ioapic?, Entry.iso?, getD_none, toList_none,
    toList_some, append_nil]
  grind

lemma parseLapicAddressOverride_eq :
    parseLapicAddressOverride bytes item m =
      if item + 12 ≤ bytes.length then
        .ok ((entryAt bytes item .lapicAddressOverride).elim m (m.add cpuid))
      else .error .overrun := by
  simp only [parseLapicAddressOverride, read_bind, pure, Except.pure, entryAt, elim_some, add,
    Entry.address?, Entry.cpu?, Entry.ioapic?, Entry.iso?, getD_some, toList_none,
    append_nil]

lemma round_eq {fields : Except Fault Madt} {size : Nat} {m' : Madt} (hsize : 2 ≤ size)
    (hfields : fields = if item + size ≤ bytes.length then .ok m' else .error .overrun) :
    (if item + 1 ≤ bytes.length then
        fields >>= fun m => read bytes (item + 1) 1 >>= fun length => pure (m, length)
      else .error .overrun) =
      if item + size ≤ bytes.length then .ok (m', field bytes (item + 1) 1)
      else .error .overrun := by
  subst hfields
  by_cases h : item + size ≤ bytes.length
  · have hlength : item + 1 + 1 ≤ bytes.length := by omega
    rw [if_pos h, if_pos h, if_pos (Nat.le_of_succ_le hlength), read_ok hlength]
    rfl
  · rw [if_neg h, if_neg h]
    exact ite_self _

lemma parseItem_eq :
    parseItem cpuid bytes item m =
      if item + (itemType (field bytes item 1)).size ≤ bytes.length then
        .ok ((entryAt bytes item (itemType (field bytes item 1))).elim m (m.add cpuid),
          field bytes (item + 1) 1)
      else .error .overrun := by
  unfold parseItem
  rw [read_bind]
  cases itemType (field bytes item 1) with
  | lapic => exact round_eq (by decide) parseLapic_eq
  | ioapic => exact round_eq (by decide) parseIoapic_eq
  | interruptSourceOverride => exact round_eq (by decide) parseIso_eq
  | lapicAddressOverride => exact round_eq (by decide) parseLapicAddressOverride_eq
  | x2apic => exact round_eq (by decide) parseX2apic_eq
  | unknown =>
    simp only [ItemType.size, entryAt, elim_none, pure_bind, read_bind]
    simp only [pure, Except.pure]
    grind

end Reads

/-! ## Encoded entries -/

def Entry.itemType : Entry → ItemType
  | .lapic .. => .lapic
  | .ioapic .. => .ioapic
  | .gsiOverride .. => .interruptSourceOverride
  | .lapicOverride .. => .lapicAddressOverride
  | .x2apic .. => .x2apic
  | .unknown .. => .unknown

lemma Entry.itemType_encode (e : Entry) : Madt.itemType (field e.encode 0 1) = e.itemType := by
  cases e with
  | unknown type payload htype hlength =>
    exact htype
  | _ => rfl

lemma Entry.size_le (e : Entry) : e.itemType.size ≤ e.encode.length := by
  cases e <;> simp [Entry.itemType, ItemType.size, Entry.encode]

lemma Entry.two_le (e : Entry) : 2 ≤ e.encode.length := by
  cases e <;> simp [Entry.encode]

lemma Entry.encode_ne_nil (e : Entry) : e.encode ≠ [] :=
  ne_nil_of_length_pos (Nat.lt_of_lt_of_le (by decide) e.two_le)

lemma Entry.length_encode (e : Entry) : field e.encode 1 1 = e.encode.length := by
  cases e with
  | unknown type payload htype hlength =>
    simp [Entry.encode, field, decodeLe]
    omega
  | _ => rfl

/-- The bytes of an entry decode to it. -/
lemma entryAt_encode {e : Entry} (h : e.itemType ≠ .unknown) :
    entryAt e.encode 0 e.itemType = some e := by
  cases e with
  | lapic acpiUid apicId flags =>
    change some (Entry.lapic (BitVec.ofNat 8 (decodeLe [acpiUid])) (BitVec.ofNat 8 (decodeLe [apicId]))
      (BitVec.ofNat 32 (decodeLe (encodeLe 4 flags.toNat)))) = _
    rw [ofNat_decodeLe_byte, ofNat_decodeLe_byte, ofNat_decodeLe flags (by decide)]
  | ioapic apicId reserved ioapicAddr gsiBase =>
    change some (Entry.ioapic (BitVec.ofNat 8 (decodeLe [apicId])) (BitVec.ofNat 8 (decodeLe [reserved]))
      (BitVec.ofNat 32 (decodeLe (encodeLe 4 ioapicAddr.toNat)))
      (BitVec.ofNat 32 (decodeLe (encodeLe 4 gsiBase.toNat)))) = _
    rw [ofNat_decodeLe_byte, ofNat_decodeLe_byte, ofNat_decodeLe ioapicAddr (by decide),
      ofNat_decodeLe gsiBase (by decide)]
  | gsiOverride bus source gsi flags =>
    change some (Entry.gsiOverride (BitVec.ofNat 8 (decodeLe [bus])) (BitVec.ofNat 8 (decodeLe [source]))
      (BitVec.ofNat 32 (decodeLe (encodeLe 4 gsi.toNat)))
      (BitVec.ofNat 16 (decodeLe (encodeLe 2 flags.toNat)))) = _
    rw [ofNat_decodeLe_byte, ofNat_decodeLe_byte, ofNat_decodeLe gsi (by decide),
      ofNat_decodeLe flags (by decide)]
  | lapicOverride reserved address =>
    change some (Entry.lapicOverride (BitVec.ofNat 16 (decodeLe (encodeLe 2 reserved.toNat)))
      (BitVec.ofNat 64 (decodeLe (encodeLe 8 address.toNat)))) = _
    rw [ofNat_decodeLe reserved (by decide), ofNat_decodeLe address (by decide)]
  | x2apic reserved x2apicId flags acpiUid =>
    change some (Entry.x2apic (BitVec.ofNat 16 (decodeLe (encodeLe 2 reserved.toNat)))
      (BitVec.ofNat 32 (decodeLe (encodeLe 4 x2apicId.toNat)))
      (BitVec.ofNat 32 (decodeLe (encodeLe 4 flags.toNat)))
      (BitVec.ofNat 32 (decodeLe (encodeLe 4 acpiUid.toNat)))) = _
    rw [ofNat_decodeLe reserved (by decide), ofNat_decodeLe x2apicId (by decide),
      ofNat_decodeLe flags (by decide), ofNat_decodeLe acpiUid (by decide)]
  | unknown => exact absurd rfl h

section Decode

variable {cpuid : Cpuid} {bytes before after : Bytes} {m : Madt}

lemma entryAt_append {record : Bytes} {type : ItemType} (h : type.size ≤ record.length) :
    entryAt (before ++ (record ++ after)) before.length type = entryAt record 0 type := by
  cases type <;> simp only [ItemType.size] at h <;> simp only [entryAt, Nat.zero_add] <;>
    repeat rw [field_append (by omega)]

lemma add_unknown {e : Entry} (h : e.itemType = .unknown) : m.add cpuid e = m := by
  cases e <;> simp [Entry.itemType] at h
  simp [add, Entry.address?, Entry.cpu?, Entry.ioapic?, Entry.iso?]

lemma parseItem_encode {e : Entry} (hbytes : bytes = before ++ (e.encode ++ after)) :
    parseItem cpuid bytes before.length m = .ok (m.add cpuid e, e.encode.length) := by
  subst hbytes
  have htwo := e.two_le
  have htype : field (before ++ (e.encode ++ after)) before.length 1 = field e.encode 0 1 :=
    field_append (k := 0) (by omega)
  have hlength : field (before ++ (e.encode ++ after)) (before.length + 1) 1 = e.encode.length := by
    rw [field_append htwo, e.length_encode]
  have hfits : before.length + e.itemType.size ≤ (before ++ (e.encode ++ after)).length := by
    have hsize := e.size_le
    rw [length_append, length_append]
    omega
  rw [parseItem_eq, htype, e.itemType_encode, if_pos hfits, hlength, entryAt_append e.size_le]
  by_cases hunknown : e.itemType = .unknown
  · rw [add_unknown hunknown, hunknown]
    rfl
  · rw [entryAt_encode hunknown]
    rfl

/-! ## The whole table -/

lemma append_filterMap_cons {α β : Type} {f : α → Option β} {a : α} {as : List α} {bs : List β} :
    bs ++ (a :: as).filterMap f = bs ++ (f a).toList ++ as.filterMap f := by
  cases h : f a <;> simp [h]

lemma getLastD_filterMap_cons {α β : Type} {f : α → Option β} {a : α} {as : List α} {b : β} :
    ((a :: as).filterMap f).getLastD b = (as.filterMap f).getLastD ((f a).getD b) := by
  cases h : f a with
  | none => rw [filterMap_cons_none h, getD_none]
  | some c => rw [filterMap_cons_some h, getLastD_cons, getD_some]

lemma foldl_add {entries : List Entry} {m : Madt} :
    entries.foldl (add cpuid) m =
      { m with
        lapicAddr := (entries.filterMap Entry.address?).getLastD m.lapicAddr
        cpus := m.cpus ++ entries.filterMap (Entry.cpu? cpuid)
        ioapics := m.ioapics ++ entries.filterMap Entry.ioapic?
        isos := m.isos ++ entries.filterMap Entry.iso? } := by
  induction entries generalizing m with
  | nil => simp
  | cons e entries ih =>
    rw [foldl_cons, ih, append_filterMap_cons, append_filterMap_cons, append_filterMap_cons,
      getLastD_filterMap_cons]
    rfl

lemma parse_eq {t : Table 44} {fuel : Nat} {m : Madt} :
    parse cpuid t fuel m =
      scan t.bytes.length (parseItem cpuid t.bytes) fuel 44
        { m with
          legacyPic := (BitVec.ofNat 32 (field t.bytes 40 4)).getLsbD 0
          lapicAddr := (BitVec.ofNat 32 (field t.bytes 36 4)).setWidth 64 } := by
  have hle := t.fixed_le
  have hlimit : 44 + (field t.bytes 4 4 - 44) = t.bytes.length := by
    rw [t.length_eq]
    omega
  simp only [parse, read_bind, if_pos (show 40 + 4 ≤ t.bytes.length by omega),
    if_pos (show 36 + 4 ≤ t.bytes.length by omega), if_pos (show 4 + 4 ≤ t.bytes.length by omega),
    hlimit]

/-- The parse of a table whose body is made of well-formed entries terminates, and leaves what the
entries say: the processors that are enabled or online capable, the I/O APICs and the overrides in
the order of the table, and the address of the last address override, or else the one of the
header. -/
theorem parse_decodes (cpuid : Cpuid) (t : Table 44) (entries : List Entry)
    (hbody : t.bytes.drop 44 = entries.flatMap Entry.encode) :
    ∃ rounds, ∀ fuel, rounds ≤ fuel →
      parse cpuid t fuel new =
        .ok (decode cpuid (BitVec.ofNat 32 (field t.bytes 40 4)) (BitVec.ofNat 32 (field t.bytes 36 4))
          entries) := by
  refine ⟨entries.length + 1, fun fuel hfuel => ?_⟩
  have hsplit : t.bytes = t.bytes.take 44 ++ entries.flatMap Entry.encode := by
    rw [← hbody, List.take_append_drop]
  have hstart : (t.bytes.take 44).length = 44 := by
    rw [List.length_take, Nat.min_eq_left t.fixed_le]
  have hvisit : ∀ before (e : Entry) after m, t.bytes = before ++ (e.encode ++ after) →
      parseItem cpuid t.bytes before.length m = .ok (m.add cpuid e, e.encode.length) :=
    fun _ _ _ _ => parseItem_encode
  have hscan := scan_encoded hvisit Entry.encode_ne_nil entries (t.bytes.take 44) fuel
    { new with
      legacyPic := (BitVec.ofNat 32 (field t.bytes 40 4)).getLsbD 0
      lapicAddr := (BitVec.ofNat 32 (field t.bytes 36 4)).setWidth 64 } hsplit hfuel
  rw [hstart, foldl_add] at hscan
  rw [parse_eq, hscan]
  rfl

def sampleEntries : List Entry :=
  [.lapic 0#8 1#8 1#32, .lapic 1#8 2#8 0#32, .unknown 3#8 [7#8] rfl (by decide),
    .ioapic 4#8 0#8 0xFEC00000#32 0#32, .gsiOverride 0#8 0#8 2#32 5#16,
    .lapicOverride 0#16 0x1FEE00000#64, .x2apic 0#16 300#32 2#32 2#32]

def sampleTable : Table 44 where
  bytes :=
    (encodeLe 4 0x43495041 ++ encodeLe 4 113 ++ List.replicate 28 0#8 ++ encodeLe 4 0xFEE00000 ++
      encodeLe 4 1) ++ sampleEntries.flatMap Entry.encode
  fixed_le := by decide
  length_eq := by decide

theorem parse_decodes_sample :
    ∃ rounds, ∀ fuel, rounds ≤ fuel →
      parse ⟨some 0x01000000#32, none⟩ sampleTable fuel new =
        .ok ⟨true, 0x1FEE00000#64, [⟨1#32, false, true⟩, ⟨300#32, true, false⟩],
          [(0xFEC00000#64, 0#32)], [⟨0#8, 2#32, 5#16⟩]⟩ :=
  parse_decodes ⟨some 0x01000000#32, none⟩ sampleTable sampleEntries (by decide)

/-- Every entry that the parser comes to fits into the table and has a length other than 0. -/
def WellFormed (t : Table 44) : Prop :=
  ∀ item, Reached t.bytes.length (fun item => field t.bytes (item + 1) 1) 44 item →
    item < t.bytes.length →
    item + (itemType (field t.bytes item 1)).size ≤ t.bytes.length ∧ field t.bytes (item + 1) 1 ≠ 0

lemma parse_ends_iff {t : Table 44} {m : Madt} :
    (∃ rounds, ∀ fuel, rounds ≤ fuel → ∃ m', parse cpuid t fuel m = .ok m') ↔ WellFormed t := by
  simp only [parse_eq]
  constructor
  · rintro ⟨rounds, h⟩
    rcases h rounds (Nat.le_refl rounds) with ⟨m', hscan⟩
    refine reached_of_scan (fun item m m' n hvisit => ?_) hscan
    rw [parseItem_eq] at hvisit
    split at hvisit
    · next hfits =>
      cases hvisit
      exact ⟨hfits, rfl⟩
    · cases hvisit
  · intro h
    refine ⟨t.bytes.length + 1, fun fuel hfuel => ?_⟩
    refine scan_of_reached (fun item m _ hfits => ?_) (Nat.lt_of_le_of_lt (Nat.sub_le _ _) hfuel) h
    exact ⟨_, parseItem_eq.trans (if_pos hfits)⟩

end Decode

end Madt
end SigmaOS.Acpi
