import Mathlib.Algebra.Group.Nat.Defs
import SigmaOS.Arch.Pci

/-!
# Arch.PciConfig — access to configuration space

`mcfgPciRead` and `mcfgPciWrite` are the functions of those names: the first entry of the MCFG that
covers the bus gives the page of the function, and the offset goes into the address with an `or`
for a read and with a sum for a write.  The commands `devctl_cmd_read_pci` and
`devctl_cmd_write_pci` pass what a thread gives them, cut to 16 bits of offset and 8 bits of size.

Both answer the access they make to physical memory: none when no entry covers the bus or the size
is not 1, 2 or 4.
-/

namespace SigmaOS.Arch.Pci

open List Option

/-! ## Accesses -/

structure McfgEntry where
  base : BitVec 64
  seg : BitVec 16
  startBus : BitVec 8
  endBus : BitVec 8
  deriving DecidableEq, Repr

structure Access where
  addr : BitVec 64
  size : Nat
  deriving DecidableEq, Repr

def Access.bytes (acc : Access) : List (BitVec 64) :=
  (List.range acc.size).map fun i => acc.addr + BitVec.ofNat 64 i

namespace McfgEntry

def covers (e : McfgEntry) (a : Address) : Bool :=
  e.seg == a.seg && decide (e.startBus.toNat ≤ a.bus.toNat) && decide (a.bus.toNat ≤ e.endBus.toNat)

def page (e : McfgEntry) (a : Address) : BitVec 64 :=
  e.base + (((a.bus.setWidth 64 - e.startBus.setWidth 64) <<< 20) ||| (a.device.setWidth 64 <<< 15) |||
    (a.function.setWidth 64 <<< 12))

end McfgEntry

def accessWidth (size : BitVec 8) : Option Nat :=
  if size = 1#8 then some 1 else if size = 2#8 then some 2 else if size = 4#8 then some 4 else none

def mcfgPciRead (a : Address) (offset : BitVec 16) (size : BitVec 8) : List McfgEntry → Option Access
  | [] => none
  | e :: rest =>
    if e.covers a then
      match accessWidth size with
      | some n => some ⟨e.page a ||| offset.setWidth 64, n⟩
      -- an unknown size is reported, and the search goes on
      | none => mcfgPciRead a offset size rest
    else
      mcfgPciRead a offset size rest

def mcfgPciWrite (a : Address) (offset : BitVec 16) (size : BitVec 8) : List McfgEntry → Option Access
  | [] => none
  | e :: rest =>
    if e.covers a then
      match accessWidth size with
      | some n => some ⟨e.page a + offset.setWidth 64, n⟩
      | none => none
    else
      mcfgPciWrite a offset size rest

/-- `devctl_cmd_read_pci` for a device of the list. -/
def devctlReadPci (entries : List McfgEntry) (a : Address) (arg2 arg3 : BitVec 64) : Option Access :=
  mcfgPciRead a (arg2.setWidth 16) (arg3.setWidth 8) entries

def devctlWritePci (entries : List McfgEntry) (a : Address) (arg2 arg3 : BitVec 64) : Option Access :=
  mcfgPciWrite a (arg2.setWidth 16) (arg3.setWidth 8) entries

lemma mcfgPciRead_eq (a : Address) (offset : BitVec 16) (size : BitVec 8) (entries : List McfgEntry) :
    mcfgPciRead a offset size entries = (entries.find? (·.covers a)).bind fun e =>
      (accessWidth size).map fun n => ⟨e.page a ||| offset.setWidth 64, n⟩ := by
  induction entries with
  | nil => rfl
  | cons e rest ih =>
    cases hsize : accessWidth size <;> cases hcovers : e.covers a <;>
      simp [mcfgPciRead, hsize, hcovers, ih]

lemma mcfgPciWrite_eq (a : Address) (offset : BitVec 16) (size : BitVec 8) (entries : List McfgEntry) :
    mcfgPciWrite a offset size entries = (entries.find? (·.covers a)).bind fun e =>
      (accessWidth size).map fun n => ⟨e.page a + offset.setWidth 64, n⟩ := by
  induction entries with
  | nil => rfl
  | cons e rest ih =>
    cases hsize : accessWidth size <;> cases hcovers : e.covers a <;>
      simp [mcfgPciWrite, hsize, hcovers, ih]

/-! ## Pages -/

def McfgEntry.limit (e : McfgEntry) : Nat :=
  e.base.toNat + (e.endBus.toNat - e.startBus.toNat + 1) * 2 ^ 20

structure Windows (entries : List McfgEntry) : Prop where
  aligned : ∀ e ∈ entries, 2 ^ 20 ∣ e.base.toNat
  inSpace : ∀ e ∈ entries, e.limit ≤ 2 ^ 64
  apart : ∀ e ∈ entries, ∀ f ∈ entries, e ≠ f → e.limit ≤ f.base.toNat ∨ f.limit ≤ e.base.toNat

structure Covered (entries : List McfgEntry) (a : Address) (e : McfgEntry) : Prop where
  device_lt : a.device.toNat < 32
  function_lt : a.function.toNat < 8
  found : entries.find? (·.covers a) = some e

namespace Covered

variable {entries : List McfgEntry} {a b : Address} {e f : McfgEntry}

lemma mem (h : Covered entries a e) : e ∈ entries :=
  mem_of_find?_eq_some h.found

lemma bounds (h : Covered entries a e) :
    e.seg = a.seg ∧ e.startBus.toNat ≤ a.bus.toNat ∧ a.bus.toNat ≤ e.endBus.toNat := by
  have hcovers := List.find?_some h.found
  simpa [McfgEntry.covers, and_assoc] using hcovers

lemma shift_toNat (x : BitVec 64) {k : Nat} (hx : x.toNat < 256) (hk : k ≤ 20) :
    (x <<< k).toNat = 2 ^ k * x.toNat := by
  have hpow : 2 ^ k ≤ 2 ^ 20 := Nat.pow_le_pow_right (by decide) hk
  have hlt : x.toNat * 2 ^ k < 2 ^ 64 :=
    calc x.toNat * 2 ^ k
        ≤ 255 * 2 ^ 20 := Nat.mul_le_mul (Nat.le_of_lt_succ hx) hpow
      _ < 2 ^ 64 := by decide
  rw [BitVec.toNat_shiftLeft, Nat.shiftLeft_eq, Nat.mod_eq_of_lt hlt, Nat.mul_comm]

lemma setWidth_toNat (x : BitVec 8) : (x.setWidth 64).toNat = x.toNat := by
  rw [BitVec.toNat_setWidth]
  exact Nat.mod_eq_of_lt (Nat.lt_trans x.isLt (by decide))

/-- The page of a function, without wrap-around. -/
lemma page_toNat (hw : Windows entries) (h : Covered entries a e) :
    (e.page a).toNat = e.base.toNat + ((a.bus.toNat - e.startBus.toNat) * 2 ^ 20 +
      a.device.toNat * 2 ^ 15 + a.function.toNat * 2 ^ 12) := by
  obtain ⟨-, hstart, hend⟩ := h.bounds
  have hdevice := h.device_lt
  have hfunction := h.function_lt
  have hspace := hw.inSpace e h.mem
  have hsub : (a.bus.setWidth 64 - e.startBus.setWidth 64).toNat = a.bus.toNat - e.startBus.toNat := by
    rw [BitVec.toNat_sub, setWidth_toNat, setWidth_toNat]
    omega
  generalize hd : a.bus.toNat - e.startBus.toNat = d at hsub ⊢
  have hd256 : d < 256 := by omega
  -- the device fits under the bus, and the function under both, so the `or` is a sum
  have hor₁ : 2 ^ 20 * d ||| 2 ^ 15 * a.device.toNat = 2 ^ 15 * (2 ^ 5 * d + a.device.toNat) := by
    rw [← Nat.two_pow_add_eq_or_of_lt (by omega)]
    omega
  have hor₂ : 2 ^ 15 * (2 ^ 5 * d + a.device.toNat) ||| 2 ^ 12 * a.function.toNat =
      2 ^ 15 * (2 ^ 5 * d + a.device.toNat) + 2 ^ 12 * a.function.toNat :=
    (Nat.two_pow_add_eq_or_of_lt (by omega) _).symm
  rw [McfgEntry.limit] at hspace
  rw [McfgEntry.page, BitVec.toNat_add, BitVec.toNat_or, BitVec.toNat_or,
    shift_toNat _ (by rw [hsub]; exact hd256) (by decide),
    shift_toNat _ (by rw [setWidth_toNat]; exact a.device.isLt) (by decide),
    shift_toNat _ (by rw [setWidth_toNat]; exact a.function.isLt) (by decide),
    hsub, setWidth_toNat, setWidth_toNat, hor₁, hor₂]
  omega

lemma page_bounds (hw : Windows entries) (h : Covered entries a e) :
    2 ^ 12 ∣ (e.page a).toNat ∧ e.base.toNat ≤ (e.page a).toNat ∧
      (e.page a).toNat + 4096 ≤ e.limit := by
  obtain ⟨-, hstart, hend⟩ := h.bounds
  have hdevice := h.device_lt
  have hfunction := h.function_lt
  have haligned := hw.aligned e h.mem
  rw [page_toNat hw h, McfgEntry.limit]
  refine ⟨?_, by omega, by omega⟩
  omega

/-- Different functions have disjoint pages. -/
lemma pages_apart (hw : Windows entries) (ha : Covered entries a e) (hb : Covered entries b f)
    (hne : a ≠ b) :
    (e.page a).toNat + 4096 ≤ (f.page b).toNat ∨ (f.page b).toNat + 4096 ≤ (e.page a).toNat := by
  obtain ⟨haligned, habase, halimit⟩ := page_bounds hw ha
  obtain ⟨hbligned, hbbase, hblimit⟩ := page_bounds hw hb
  by_cases hsame : e = f
  · subst hsame
    by_contra hnear
    have hequal : (e.page a).toNat = (e.page b).toNat := by omega
    obtain ⟨hsega, hstarta, -⟩ := ha.bounds
    obtain ⟨hsegb, hstartb, -⟩ := hb.bounds
    have hadevice := ha.device_lt
    have hafunction := ha.function_lt
    have hbdevice := hb.device_lt
    have hbfunction := hb.function_lt
    rw [page_toNat hw ha, page_toNat hw hb] at hequal
    have hbus : a.bus = b.bus := BitVec.eq_of_toNat_eq (by omega)
    have hdevice : a.device = b.device := BitVec.eq_of_toNat_eq (by omega)
    have hfunction : a.function = b.function := BitVec.eq_of_toNat_eq (by omega)
    apply hne
    cases a
    cases b
    exact Address.mk.injEq .. ▸ ⟨hsega.symm.trans hsegb, hbus, hdevice, hfunction⟩
  · have hapart := hw.apart e ha.mem f hb.mem hsame
    omega

end Covered

/-! ## Confinement -/

def Confined (page : BitVec 64) (access : Option Access) : Prop :=
  ∀ acc, access = some acc → ∀ byte ∈ acc.bytes,
    page.toNat ≤ byte.toNat ∧ byte.toNat < page.toNat + 4096

/-- The offset, cut to 16 bits, and the size stay below 4096; nothing is asked of an unknown size. -/
def InPage (arg2 arg3 : BitVec 64) : Prop :=
  ∀ n, accessWidth (arg3.setWidth 8) = some n → (arg2.setWidth 16).toNat + n ≤ 4096

lemma accessWidth_bounds {size : BitVec 8} {n : Nat} (h : accessWidth size = some n) :
    0 < n ∧ n ≤ 4 := by
  unfold accessWidth at h
  repeat' split at h
  all_goals cases h
  all_goals decide

/-- Whether an access stays in a page, by its ends. -/
lemma confined_some {page : BitVec 64} (hpage : page.toNat + 4096 ≤ 2 ^ 64) {acc : Access}
    (hpos : 0 < acc.size) (hsize : acc.size ≤ 4) :
    Confined page (some acc) ↔
      page.toNat ≤ acc.addr.toNat ∧ acc.addr.toNat + acc.size ≤ page.toNat + 4096 := by
  have hbyte : ∀ i, i < acc.size →
      (acc.addr + BitVec.ofNat 64 i).toNat = (acc.addr.toNat + i) % 2 ^ 64 := by
    intro i hi
    rw [BitVec.toNat_add, BitVec.toNat_ofNat]
    omega
  have hmem : ∀ i, i < acc.size → acc.addr + BitVec.ofNat 64 i ∈ acc.bytes :=
    fun i hi => mem_map.2 ⟨i, mem_range.2 hi, rfl⟩
  constructor
  · intro hconfined
    have hfirst := hconfined acc rfl _ (hmem 0 hpos)
    have hlast := hconfined acc rfl _ (hmem (acc.size - 1) (Nat.sub_lt hpos Nat.one_pos))
    rw [hbyte 0 hpos] at hfirst
    rw [hbyte (acc.size - 1) (Nat.sub_lt hpos Nat.one_pos)] at hlast
    omega
  · rintro ⟨hstart, hend⟩ acc' h byte hin
    cases h
    obtain ⟨i, hi, rfl⟩ := mem_map.1 hin
    have hi := mem_range.1 hi
    rw [hbyte i hi]
    omega

section Commands

variable {entries : List McfgEntry} {a b : Address} {e f : McfgEntry} {arg2 arg3 : BitVec 64}

lemma offset_toNat (arg2 : BitVec 64) :
    ((arg2.setWidth 16).setWidth 64).toNat = (arg2.setWidth 16).toNat := by
  rw [BitVec.toNat_setWidth 64 (arg2.setWidth 16)]
  exact Nat.mod_eq_of_lt (Nat.lt_trans (arg2.setWidth 16).isLt (by decide))

/-- A write stays in the function's page iff offset and width do. -/
lemma Covered.write_confined_iff (hw : Windows entries) (h : Covered entries a e) :
    Confined (e.page a) (devctlWritePci entries a arg2 arg3) ↔ InPage arg2 arg3 := by
  obtain ⟨-, -, hlimit⟩ := page_bounds hw h
  have hspace := hw.inSpace e h.mem
  rw [devctlWritePci, mcfgPciWrite_eq, h.found, bind_some, InPage]
  cases hwidth : accessWidth (arg3.setWidth 8) with
  | none => simp [Confined]
  | some n =>
    obtain ⟨hpos, hle⟩ := accessWidth_bounds hwidth
    rw [map_some, confined_some (Nat.le_trans hlimit hspace) hpos hle]
    simp only [BitVec.toNat_add, offset_toNat, Option.some.injEq, forall_eq']
    omega

lemma Covered.read_eq_write (hw : Windows entries) (h : Covered entries a e) (hin : InPage arg2 arg3) :
    devctlReadPci entries a arg2 arg3 = devctlWritePci entries a arg2 arg3 := by
  obtain ⟨⟨q, hq⟩, -, hlimit⟩ := page_bounds hw h
  rw [devctlReadPci, devctlWritePci, mcfgPciRead_eq, mcfgPciWrite_eq, h.found, bind_some,
    bind_some]
  cases hwidth : accessWidth (arg3.setWidth 8) with
  | none => rfl
  | some n =>
    have hfit := hin n hwidth
    have hpos := (accessWidth_bounds hwidth).1
    have haddr : e.page a ||| (arg2.setWidth 16).setWidth 64 =
        e.page a + (arg2.setWidth 16).setWidth 64 := by
      apply BitVec.eq_of_toNat_eq
      rw [BitVec.toNat_or, BitVec.toNat_add, offset_toNat, hq,
        ← Nat.two_pow_add_eq_or_of_lt (by omega)]
      omega
    rw [map_some, map_some, haddr]

end Commands

/-- For every set of entries: the accesses of a read and a write stay in the page of the device exactly
when the offset, cut to 16 bits, and the size do, and then both are at the same bytes.  Accesses that
stay in the pages of different devices have no byte in common. -/
theorem config_confined_iff {entries : List McfgEntry} (hw : Windows entries) :
    (∀ a e, Covered entries a e → ∀ arg2 arg3,
      ((Confined (e.page a) (devctlReadPci entries a arg2 arg3) ∧
        Confined (e.page a) (devctlWritePci entries a arg2 arg3)) ↔ InPage arg2 arg3) ∧
      (InPage arg2 arg3 → devctlReadPci entries a arg2 arg3 = devctlWritePci entries a arg2 arg3)) ∧
    (∀ a b e f, Covered entries a e → Covered entries b f → a ≠ b → ∀ access access',
      Confined (e.page a) (some access) → Confined (f.page b) (some access') →
      ∀ byte ∈ access.bytes, byte ∉ access'.bytes) := by
  refine ⟨fun a e h arg2 arg3 => ⟨⟨fun hboth => (h.write_confined_iff hw).1 hboth.2, fun hin => ?_⟩,
    fun hin => h.read_eq_write hw hin⟩, ?_⟩
  · have hwrite := (h.write_confined_iff hw).2 hin
    exact ⟨h.read_eq_write hw hin ▸ hwrite, hwrite⟩
  · intro a b e f ha hb hne access access' haccess haccess' byte hbyte hbyte'
    have hapart := Covered.pages_apart hw ha hb hne
    have hin := haccess access rfl byte hbyte
    have hin' := haccess' access' rfl byte hbyte'
    omega

def segmentZero : List McfgEntry :=
  [⟨0xE0000000#64, 0#16, 0#8, 255#8⟩]

lemma segmentZero_windows : Windows segmentZero :=
  ⟨by decide, by decide, by decide⟩

/-- The last dword of a page is read and written there. -/
theorem config_confined_last_dword :
    Confined 0xE0019000#64 (devctlReadPci segmentZero ⟨0#16, 0#8, 3#8, 1#8⟩ 0xFFC#64 4#64) :=
  (((config_confined_iff segmentZero_windows).1 ⟨0#16, 0#8, 3#8, 1#8⟩ _
    ⟨by decide, by decide, rfl⟩ 0xFFC#64 4#64).1.2 (by unfold InPage; simp [accessWidth])).1

/-- Function 1 of device 3 at offset 0x1000: the read is at its own page, and the write at the page of
function 2.  A dword at offset 0xFFE ends in the page of function 2. -/
theorem config_leaves_page :
    devctlReadPci segmentZero ⟨0#16, 0#8, 3#8, 1#8⟩ 0x1000#64 4#64 = some ⟨0xE0019000#64, 4⟩ ∧
    devctlWritePci segmentZero ⟨0#16, 0#8, 3#8, 1#8⟩ 0x1000#64 4#64 = some ⟨0xE001A000#64, 4⟩ ∧
    devctlWritePci segmentZero ⟨0#16, 0#8, 3#8, 2#8⟩ 0#64 4#64 = some ⟨0xE001A000#64, 4⟩ ∧
    ¬ Confined 0xE0019000#64 (devctlReadPci segmentZero ⟨0#16, 0#8, 3#8, 1#8⟩ 0xFFE#64 4#64) := by
  refine ⟨by decide, by decide, by decide, fun hconfined => ?_⟩
  have hbyte := hconfined ⟨0xE0019FFE#64, 4⟩ (by decide) 0xE001A001#64 (by decide)
  exact absurd hbyte.2 (by decide)

end SigmaOS.Arch.Pci
