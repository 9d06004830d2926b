import Mathlib.Algebra.Group.Nat.Defs
import Mathlib.Logic.Function.Basic
import SigmaOS.Lib.Records

/-!
# Arch.IoApic — the redirection entries of the I/O APICs

A device is an array of 32-bit registers behind an 8-bit index; a redirection entry is a pair of
them, from register 16 on.  `setEntry`, `readEntry`, `maskGsi` and `unmaskGsi` are the functions of
`apic::ioapic`: they search the list of devices for the one whose range has the GSI.  `Device.init`
is `ioapic_device::init`; the mapping of the page and the debug output are left out.

The registers of entry 120 are those of the identification, because the number of the register is
kept in 8 bits, and the end of a range is computed in 32 bits.
-/

namespace SigmaOS.Arch.IoApic

open Function List BitVec

/-! ## A device -/

def getRedirectionEntry (entry : BitVec 32) : BitVec 32 :=
  0x10#32 + entry * 2#32

structure Device where
  registers : BitVec 8 → BitVec 32
  maxRedirectionEntries : BitVec 8

def maskBit : BitVec 32 :=
  1#32 <<< 16

namespace Device

/-- The device looks at the low 8 bits of the register select. -/
def read (d : Device) (reg : BitVec 32) : BitVec 32 :=
  d.registers (reg.setWidth 8)

def write (d : Device) (reg data : BitVec 32) : Device :=
  { d with registers := Function.update d.registers (reg.setWidth 8) data }

def readEntry (d : Device) (index : BitVec 8) : BitVec 64 :=
  let offset := (getRedirectionEntry (index.setWidth 32)).setWidth 8
  let low := d.read (offset.setWidth 32)
  let high := d.read (offset.setWidth 32 + 1#32)
  low.setWidth 64 ||| (high.setWidth 64 <<< 32)

def setEntry (d : Device) (index : BitVec 8) (data : BitVec 64) : Device :=
  let offset := (getRedirectionEntry (index.setWidth 32)).setWidth 8
  let d := d.write (offset.setWidth 32) ((data &&& 0xFFFFFFFF#64).setWidth 32)
  d.write (offset.setWidth 32 + 1#32) (((data >>> 32) &&& 0xFFFFFFFF#64).setWidth 32)

/-- `~(1 << 16)` is an `int`, so it is extended by its sign. -/
def unmask (d : Device) (index : BitVec 8) : Device :=
  d.setEntry index (d.readEntry index &&& (~~~maskBit).signExtend 64)

def init (registers : BitVec 8 → BitVec 32) : Device :=
  let ver := registers 1#8
  let d : Device := ⟨registers, (((ver >>> 16) &&& 0xFF#32) + 1#32).setWidth 8⟩
  (List.range d.maxRedirectionEntries.toNat).foldl
    (fun d i => d.setEntry (BitVec.ofNat 8 i) (maskBit.signExtend 64)) d

def slot (index : BitVec 8) : BitVec 8 :=
  (getRedirectionEntry (index.setWidth 32)).setWidth 8

lemma toNat_slot (index : BitVec 8) : (slot index).toNat = (16 + 2 * index.toNat) % 256 := by
  simp only [slot, getRedirectionEntry, toNat_setWidth, toNat_add, toNat_mul,
    toNat_ofNat]
  omega

lemma slot_next (x : BitVec 8) : (x.setWidth 32 + 1#32).setWidth 8 = x + 1#8 := by
  apply eq_of_toNat_eq
  simp only [toNat_setWidth, toNat_add, toNat_ofNat]
  omega

lemma readEntry_eq (d : Device) (index : BitVec 8) :
    d.readEntry index =
      (d.registers (slot index)).setWidth 64 |||
        ((d.registers (slot index + 1#8)).setWidth 64 <<< 32) := by
  simp only [readEntry, read, slot_next, setWidth_setWidth_of_le _ (show 8 ≤ 32 by decide),
    setWidth_eq]
  rfl

lemma setWidth_low_word (data : BitVec 64) :
    (data &&& 0xFFFFFFFF#64).setWidth 32 = data.setWidth 32 := by
  have hones : (0xFFFFFFFF#64).setWidth 32 = BitVec.allOnes 32 := by decide
  rw [setWidth_and, hones, and_allOnes]

lemma setEntry_registers (d : Device) (index : BitVec 8) (data : BitVec 64) :
    (d.setEntry index data).registers =
      update (update d.registers (slot index) (data.setWidth 32)) (slot index + 1#8)
        ((data >>> 32).setWidth 32) := by
  simp only [setEntry, write, slot_next, setWidth_low_word,
    setWidth_setWidth_of_le _ (show 8 ≤ 32 by decide), setWidth_eq]
  rfl

/-! ## Entries of a device -/

lemma readEntry_setEntry_self (d : Device) (index : BitVec 8) (data : BitVec 64) :
    (d.setEntry index data).readEntry index = data := by
  have hne : slot index ≠ slot index + 1#8 := by bv_omega
  rw [readEntry_eq, setEntry_registers, update_self, update_of_ne hne,
    update_self, Lib.Records.join_halves]

lemma readEntry_setEntry_of_ne (d : Device) {index index' : BitVec 8} (data : BitVec 64)
    (hindex : index.toNat < 120) (hindex' : index'.toNat < 120) (hne : index' ≠ index) :
    (d.setEntry index data).readEntry index' = d.readEntry index' := by
  have hslot := toNat_slot index
  have hslot' := toNat_slot index'
  rw [readEntry_eq, setEntry_registers, update_of_ne, update_of_ne,
    update_of_ne, update_of_ne, readEntry_eq] <;> bv_omega

lemma setEntry_registers_low (d : Device) {index reg : BitVec 8} (data : BitVec 64)
    (hindex : index.toNat < 120) (hreg : reg.toNat < 16) :
    (d.setEntry index data).registers reg = d.registers reg := by
  have hslot := toNat_slot index
  rw [setEntry_registers, update_of_ne, update_of_ne] <;> bv_omega

lemma setEntry_registers_wrap (d : Device) (data : BitVec 64) :
    (d.setEntry 120#8 data).registers 0#8 = data.setWidth 32 := by
  have hslot : slot 120#8 = 0#8 := by decide
  rw [setEntry_registers, hslot]
  rfl

/-- The loop of `init` masks every entry and leaves the registers before them alone. -/
lemma maskEntries (d : Device) {n : Nat} (hn : n ≤ 120) :
    ∀ d', (List.range n).foldl
        (fun d i => d.setEntry (BitVec.ofNat 8 i) (maskBit.signExtend 64)) d = d' →
      d'.maxRedirectionEntries = d.maxRedirectionEntries ∧
        (∀ index : BitVec 8, index.toNat < n → d'.readEntry index = 0x10000#64) ∧
        ∀ reg : BitVec 8, reg.toNat < 16 → d'.registers reg = d.registers reg := by
  induction n with
  | zero =>
    rintro d' rfl
    exact ⟨rfl, fun _ h => absurd h (Nat.not_lt_zero _), fun _ _ => rfl⟩
  | succ n ih =>
    rintro d' hd'
    rw [range_succ, foldl_append] at hd'
    rcases ih (Nat.le_of_succ_le hn) _ rfl with ⟨hmax, hentries, hlow⟩
    rw [← hd']
    have hindex : (BitVec.ofNat 8 n).toNat = n := Nat.mod_eq_of_lt (by omega)
    refine ⟨hmax, fun index hlt => ?_, fun reg hreg => ?_⟩
    · by_cases heq : index = BitVec.ofNat 8 n
      · subst heq
        exact readEntry_setEntry_self ..
      · have hne : index.toNat ≠ n := fun hnat => heq (eq_of_toNat_eq (hnat.trans hindex.symm))
        have hbelow : index.toNat < n := by omega
        rw [← hentries index hbelow]
        exact readEntry_setEntry_of_ne _ _ (by omega) (by omega) heq
    · rw [← hlow reg hreg]
      exact setEntry_registers_low _ _ (by omega) hreg

/-- A device that reports at most 120 entries has all of them masked by `init`, and its identification
stays. -/
theorem init_masks {registers : BitVec 8 → BitVec 32}
    (h : ((registers 1#8 >>> 16) &&& 0xFF#32).toNat < 120) :
    (init registers).maxRedirectionEntries.toNat = ((registers 1#8 >>> 16) &&& 0xFF#32).toNat + 1 ∧
      (∀ index : BitVec 8, index.toNat < (init registers).maxRedirectionEntries.toNat →
        (init registers).readEntry index = 0x10000#64) ∧
      ∀ reg : BitVec 8, reg.toNat < 16 → (init registers).registers reg = registers reg := by
  let n : BitVec 8 := (((registers 1#8 >>> 16) &&& 0xFF#32) + 1#32).setWidth 8
  have hn : n.toNat = ((registers 1#8 >>> 16) &&& 0xFF#32).toNat + 1 := by
    simp only [n, toNat_setWidth, toNat_add, toNat_ofNat]
    omega
  rcases maskEntries ⟨registers, n⟩ (n := n.toNat) (by omega) (init registers) rfl with
    ⟨hmax, hentries, hlow⟩
  rw [hmax]
  exact ⟨hn, hentries, hlow⟩

/-- The version register of a device with 24 entries. -/
theorem init_masks_sample :
    (init fun _ => 0x170011#32).maxRedirectionEntries.toNat = 24 ∧
      (init fun _ => 0x170011#32).readEntry 23#8 = 0x10000#64 := by
  rcases @init_masks (fun _ => 0x170011#32) (by decide) with ⟨hmax, hentries, _⟩
  refine ⟨hmax, hentries 23#8 ?_⟩
  rw [hmax]
  decide

end Device

/-! ## The list of devices -/

abbrev Entry := Device × BitVec 32

/-- The device is the one for the GSI; the end of the range is a 32-bit sum. -/
def Entry.has (e : Entry) (gsi : BitVec 32) : Bool :=
  decide (e.2 ≤ gsi) && decide (e.1.maxRedirectionEntries.setWidth 32 + e.2 > gsi)

/-- `gsi - entry.second` as an argument of type `uint8_t`. -/
def Entry.index (e : Entry) (gsi : BitVec 32) : BitVec 8 :=
  (gsi - e.2).setWidth 8

/-- The search of the functions below: `f` is done to the first device for the GSI. -/
def onGsi (gsi : BitVec 32) (f : Device → BitVec 8 → Device) : List Entry → List Entry
  | [] => []
  | e :: rest => if e.has gsi then (f e.1 (e.index gsi), e.2) :: rest else e :: onGsi gsi f rest

def setEntry (l : List Entry) (gsi : BitVec 32) (data : BitVec 64) : List Entry :=
  onGsi gsi (fun d index => d.setEntry index data) l

def readEntry : List Entry → BitVec 32 → BitVec 64
  | [], _ => 0#64
  | e :: rest, gsi => if e.has gsi then e.1.readEntry (e.index gsi) else readEntry rest gsi

def maskGsi (l : List Entry) (gsi : BitVec 32) : List Entry :=
  onGsi gsi (fun d index => d.setEntry index (d.readEntry index ||| maskBit.signExtend 64)) l

def unmaskGsi (l : List Entry) (gsi : BitVec 32) : List Entry :=
  onGsi gsi (fun d index => d.unmask index) l

inductive Op where
  | setEntry (data : BitVec 64)
  | mask
  | unmask
  deriving DecidableEq

structure Request where
  gsi : BitVec 32
  op : Op
  deriving DecidableEq

def step (l : List Entry) (r : Request) : List Entry :=
  match r.op with
  | .setEntry data => setEntry l r.gsi data
  | .mask => maskGsi l r.gsi
  | .unmask => unmaskGsi l r.gsi

/-! ## The map -/

def Op.value (op : Op) (entry : BitVec 64) : BitVec 64 :=
  match op with
  | .setEntry data => data
  | .mask => entry ||| 0x10000#64
  | .unmask => entry &&& ~~~0x10000#64

/-- A request as a change of the map from GSIs to entries. -/
def Request.apply (m : BitVec 32 → BitVec 64) (r : Request) : BitVec 32 → BitVec 64 :=
  Function.update m r.gsi (r.op.value (m r.gsi))

def Entry.range (e : Entry) : BitVec 32 × BitVec 8 :=
  (e.2, e.1.maxRedirectionEntries)

def InRange (range : BitVec 32 × BitVec 8) (gsi : BitVec 32) : Prop :=
  range.1.toNat ≤ gsi.toNat ∧ gsi.toNat < range.1.toNat + range.2.toNat

def Covered (ranges : List (BitVec 32 × BitVec 8)) (gsi : BitVec 32) : Prop :=
  ∃ range ∈ ranges, InRange range gsi

def Entry.identification (e : Entry) : BitVec 32 × BitVec 32 × BitVec 32 :=
  (e.1.registers 0#8, e.1.registers 1#8, e.1.registers 2#8)

/-- After requests for GSIs of the devices, the entries are those of the map and the registers of the
identification are as before. -/
def RefinesMap (l : List Entry) : Prop :=
  ∀ rs : List Request, (∀ r ∈ rs, Covered (l.map Entry.range) r.gsi) →
    (∀ gsi, Covered (l.map Entry.range) gsi →
      readEntry (rs.foldl step l) gsi = rs.foldl Request.apply (readEntry l) gsi) ∧
    (rs.foldl step l).map Entry.identification = l.map Entry.identification

/-- The registers of all entries are registers of the table, and the end of the range is not taken
modulo `2 ^ 32`. -/
def Fits (range : BitVec 32 × BitVec 8) : Prop :=
  range.2.toNat ≤ 120 ∧ range.1.toNat + range.2.toNat < 2 ^ 32

section Search

variable {e : Entry} {gsi gsi' : BitVec 32} {l pre : List Entry} {f : Device → BitVec 8 → Device}

lemma Entry.has_iff :
    e.has gsi = true ↔
      InRange e.range gsi ∧ e.2.toNat + e.1.maxRedirectionEntries.toNat < 2 ^ 32 := by
  simp only [has, InRange, range, Bool.and_eq_true, decide_eq_true_eq, le_def, gt_iff_lt,
    lt_def, toNat_add, toNat_setWidth]
  omega

lemma Entry.toNat_index (h : InRange e.range gsi) :
    (e.index gsi).toNat = gsi.toNat - e.2.toNat := by
  simp only [InRange, range] at h
  simp only [index, toNat_setWidth, toNat_sub]
  omega

lemma onGsi_append (h : ∀ e ∈ pre, e.has gsi = false) :
    onGsi gsi f (pre ++ l) = pre ++ onGsi gsi f l := by
  induction pre with
  | nil => rfl
  | cons e pre ih =>
    rcases forall_mem_cons.1 h with ⟨he, hpre⟩
    simp [onGsi, he, ih hpre]

lemma onGsi_none (h : ∀ e ∈ l, e.has gsi = false) : onGsi gsi f l = l := by
  simpa [onGsi] using onGsi_append (l := []) (f := f) h

lemma readEntry_none (h : ∀ e ∈ l, e.has gsi = false) : readEntry l gsi = 0#64 := by
  induction l with
  | nil => rfl
  | cons e l ih =>
    rcases forall_mem_cons.1 h with ⟨he, hl⟩
    simp [readEntry, he, ih hl]

end Search

section Refines

variable {l : List Entry} {r : Request} {gsi : BitVec 32}

def Op.onDevice (op : Op) (d : Device) (index : BitVec 8) : Device :=
  d.setEntry index (op.value (d.readEntry index))

lemma step_eq (l : List Entry) (r : Request) : step l r = onGsi r.gsi r.op.onDevice l := by
  unfold step
  cases hop : r.op with
  | setEntry data => rfl
  | mask => rfl
  | unmask => rfl

lemma onGsi_range (op : Op) : (onGsi gsi op.onDevice l).map Entry.range = l.map Entry.range := by
  induction l with
  | nil => rfl
  | cons e l ih =>
    by_cases he : e.has gsi = true
    · simp only [onGsi, if_pos he, map_cons]
      rfl
    · simp only [onGsi, if_neg he, map_cons, ih]

variable {e : Entry}

lemma Entry.index_lt (hfits : Fits e.range) (h : InRange e.range gsi) :
    (e.index gsi).toNat < 120 := by
  rw [Entry.toNat_index h]
  have hle : e.1.maxRedirectionEntries.toNat ≤ 120 := hfits.1
  have hlt : gsi.toNat < e.2.toNat + e.1.maxRedirectionEntries.toNat := h.2
  omega

lemma Entry.index_ne {gsi' : BitVec 32} (h : InRange e.range gsi)
    (h' : InRange e.range gsi') (hne : gsi' ≠ gsi) : e.index gsi' ≠ e.index gsi := by
  intro heq
  have hnat := congrArg BitVec.toNat heq
  rw [Entry.toNat_index h, Entry.toNat_index h'] at hnat
  have hle : e.2.toNat ≤ gsi.toNat := h.1
  have hle' : e.2.toNat ≤ gsi'.toNat := h'.1
  exact hne (eq_of_toNat_eq (by omega))

lemma readEntry_cons_pos (h : e.has gsi = true) :
    readEntry (e :: l) gsi = e.1.readEntry (e.index gsi) :=
  if_pos h

lemma readEntry_cons_neg (h : ¬ e.has gsi = true) :
    readEntry (e :: l) gsi = readEntry l gsi :=
  if_neg h

/-- A request changes the entry of its GSI and no other. -/
lemma readEntry_onGsi (op : Op) (hfits : ∀ range ∈ l.map Entry.range, Fits range)
    (hcovered : Covered (l.map Entry.range) gsi) (gsi' : BitVec 32) :
    readEntry (onGsi gsi op.onDevice l) gsi' =
      update (readEntry l) gsi (op.value (readEntry l gsi)) gsi' := by
  induction l with
  | nil =>
    rcases hcovered with ⟨range, hin, _⟩
    cases hin
  | cons e l ih =>
    have hfit : Fits e.range := hfits _ mem_cons_self
    by_cases he : e.has gsi = true
    · -- the device is the first one; it keeps its range
      let e' : Entry := (op.onDevice e.1 (e.index gsi), e.2)
      have hrange := (Entry.has_iff.1 he).1
      have honGsi : onGsi gsi op.onDevice (e :: l) = e' :: l := if_pos he
      rw [honGsi, readEntry_cons_pos he]
      by_cases heq : gsi' = gsi
      · subst heq
        have hself : e'.1.readEntry (e'.index gsi') = op.value (e.1.readEntry (e.index gsi')) :=
          Device.readEntry_setEntry_self e.1 (e.index gsi') _
        rw [update_self, readEntry_cons_pos (e := e') he, hself]
      · rw [update_of_ne heq]
        by_cases he' : e.has gsi' = true
        · have hrange' := (Entry.has_iff.1 he').1
          rw [readEntry_cons_pos he', readEntry_cons_pos (e := e') he']
          exact Device.readEntry_setEntry_of_ne e.1 _ (Entry.index_lt hfit hrange)
            (Entry.index_lt hfit hrange') (Entry.index_ne hrange hrange' heq)
        · rw [readEntry_cons_neg he', readEntry_cons_neg (e := e') he']
    · have hrest : Covered (l.map Entry.range) gsi := by
        rcases hcovered with ⟨range, hin, hrange⟩
        rcases mem_cons.1 hin with rfl | hin
        · exact absurd (Entry.has_iff.2 ⟨hrange, hfit.2⟩) he
        · exact ⟨range, hin, hrange⟩
      have hih := ih (fun range hin => hfits range (mem_cons_of_mem _ hin)) hrest
      have honGsi : onGsi gsi op.onDevice (e :: l) = e :: onGsi gsi op.onDevice l := if_neg he
      rw [honGsi, readEntry_cons_neg he]
      by_cases he' : e.has gsi' = true
      · have hne : gsi' ≠ gsi := fun heq => he (heq ▸ he')
        rw [update_of_ne hne, readEntry_cons_pos he', readEntry_cons_pos he']
      · rw [readEntry_cons_neg he', hih]
        by_cases heq : gsi' = gsi
        · subst heq
          rw [update_self, update_self]
        · rw [update_of_ne heq, update_of_ne heq, readEntry_cons_neg he']

lemma identification_onGsi (op : Op) (hfits : ∀ range ∈ l.map Entry.range, Fits range) :
    (onGsi gsi op.onDevice l).map Entry.identification = l.map Entry.identification := by
  induction l with
  | nil => rfl
  | cons e l ih =>
    by_cases he : e.has gsi = true
    · have hindex := Entry.index_lt (hfits _ mem_cons_self) (Entry.has_iff.1 he).1
      have hlow : ∀ reg : BitVec 8, reg.toNat < 16 →
          (op.onDevice e.1 (e.index gsi)).registers reg = e.1.registers reg :=
        fun reg hreg => Device.setEntry_registers_low e.1 _ hindex hreg
      simp only [onGsi, if_pos he, map_cons, Entry.identification, hlow 0#8 (by decide),
        hlow 1#8 (by decide), hlow 2#8 (by decide)]
    · simp only [onGsi, if_neg he, map_cons,
        ih fun range hin => hfits range (mem_cons_of_mem _ hin)]

lemma refinesMap_of_fits (hfits : ∀ range ∈ l.map Entry.range, Fits range) : RefinesMap l := by
  intro rs
  induction rs generalizing l with
  | nil => exact fun _ => ⟨fun _ _ => rfl, rfl⟩
  | cons r rs ih =>
    intro hcovered
    rcases forall_mem_cons.1 hcovered with ⟨hr, hrs⟩
    have hrange : (step l r).map Entry.range = l.map Entry.range := by rw [step_eq, onGsi_range]
    have hmap : readEntry (step l r) = Request.apply (readEntry l) r := by
      funext gsi'
      rw [step_eq]
      exact readEntry_onGsi r.op hfits hr gsi'
    have hident : (step l r).map Entry.identification = l.map Entry.identification := by
      rw [step_eq, identification_onGsi r.op hfits]
    rcases ih (l := step l r) (hrange ▸ hfits) (hrange ▸ hrs) with ⟨hentries, hids⟩
    rw [hrange, hmap] at hentries
    exact ⟨hentries, hids.trans hident⟩

end Refines

section Converse

def Apart (e e' : Entry) : Prop :=
  ∀ gsi, ¬ (InRange e.range gsi ∧ InRange e'.range gsi)

variable {pre post : List Entry} {e : Entry} {gsi : BitVec 32}

lemma others_not_has (hapart : (pre ++ e :: post).Pairwise Apart) (h : InRange e.range gsi) :
    (∀ e' ∈ pre, e'.has gsi = false) ∧ ∀ e' ∈ post, e'.has gsi = false := by
  rcases pairwise_append.1 hapart with ⟨_, hpost, hpre⟩
  constructor
  · intro e' hin
    rw [Bool.eq_false_iff]
    intro hhas
    exact hpre e' hin e mem_cons_self gsi ⟨(Entry.has_iff.1 hhas).1, h⟩
  · intro e' hin
    rw [Bool.eq_false_iff]
    intro hhas
    exact (pairwise_cons.1 hpost).1 e' hin gsi ⟨h, (Entry.has_iff.1 hhas).1⟩

lemma covered_middle (h : InRange e.range gsi) :
    Covered ((pre ++ e :: post).map Entry.range) gsi :=
  ⟨e.range, mem_map_of_mem (mem_append_right _ mem_cons_self), h⟩

lemma end_lt_of_refines (hapart : (pre ++ e :: post).Pairwise Apart)
    (hpos : 1 ≤ e.1.maxRedirectionEntries.toNat) (h : RefinesMap (pre ++ e :: post)) :
    e.2.toNat + e.1.maxRedirectionEntries.toNat < 2 ^ 32 := by
  by_contra hend
  have hin : InRange e.range e.2 := ⟨Nat.le_refl _, Nat.lt_add_of_pos_right hpos⟩
  have hself : e.has e.2 = false := by
    rw [Bool.eq_false_iff]
    exact fun hhas => hend (Entry.has_iff.1 hhas).2
  rcases others_not_has hapart hin with ⟨hpre, hpost⟩
  have hnone : ∀ e' ∈ pre ++ e :: post, e'.has e.2 = false := by
    intro e' hmem
    rcases mem_append.1 hmem with hmem | hmem
    · exact hpre e' hmem
    · rcases mem_cons.1 hmem with rfl | hmem
      · exact hself
      · exact hpost e' hmem
  have hread := (h [⟨e.2, .setEntry 1#64⟩] (by simpa using covered_middle hin)).1 e.2
    (covered_middle hin)
  simp [step, setEntry, onGsi_none hnone, readEntry_none hnone, Request.apply, Op.value] at hread

/-- A device with more than 120 entries would have one over its id. -/
lemma le_of_refines (hapart : (pre ++ e :: post).Pairwise Apart)
    (hend : e.2.toNat + e.1.maxRedirectionEntries.toNat < 2 ^ 32)
    (h : RefinesMap (pre ++ e :: post)) : e.1.maxRedirectionEntries.toNat ≤ 120 := by
  by_contra hbig
  have hgsi : (e.2 + 120#32).toNat = e.2.toNat + 120 := by
    exact Nat.mod_eq_of_lt (by simp; omega)
  have hin : InRange e.range (e.2 + 120#32) := by
    unfold InRange
    rw [hgsi]
    exact ⟨Nat.le_add_right _ _, Nat.add_lt_add_left (Nat.lt_of_not_le hbig) _⟩
  have hindex : e.index (e.2 + 120#32) = 120#8 := by
    apply eq_of_toNat_eq
    rw [Entry.toNat_index hin, hgsi]
    simp
  let data : BitVec 64 := (~~~e.1.registers 0#8).setWidth 64
  have hids := (h [⟨e.2 + 120#32, .setEntry data⟩] (by simpa using covered_middle hin)).2
  have honGsi : onGsi (e.2 + 120#32) (fun d index => d.setEntry index data) (e :: post) =
      (e.1.setEntry 120#8 data, e.2) :: post := by
    rw [← hindex]
    exact if_pos (Entry.has_iff.2 ⟨hin, hend⟩)
  simp only [foldl_cons, foldl_nil, step, setEntry,
    onGsi_append (others_not_has hapart hin).1, honGsi, map_append, map_cons] at hids
  have hhead := (List.cons.inj (append_cancel_left hids)).1
  have hreg : (e.1.setEntry 120#8 data).registers 0#8 = e.1.registers 0#8 := congrArg Prod.fst hhead
  rw [Device.setEntry_registers_wrap, setWidth_setWidth_of_le _ (by decide),
    setWidth_eq] at hreg
  bv_omega

end Converse

/-- For devices with disjoint ranges and at least one entry each: every sequence of requests refines the
map from GSIs to entries and leaves the identification alone, if and only if every device has at most
120 entries and its range ends below `2 ^ 32`. -/
theorem refines_map_iff (l : List Entry) (hapart : l.Pairwise Apart)
    (hpos : ∀ e ∈ l, 1 ≤ e.1.maxRedirectionEntries.toNat) :
    RefinesMap l ↔
      ∀ e ∈ l, e.1.maxRedirectionEntries.toNat ≤ 120 ∧
        e.2.toNat + e.1.maxRedirectionEntries.toNat < 2 ^ 32 := by
  constructor
  · intro h e he
    rcases List.append_of_mem he with ⟨pre, post, rfl⟩
    have hend := end_lt_of_refines hapart (hpos e he) h
    exact ⟨le_of_refines hapart hend h, hend⟩
  · intro hfits
    exact refinesMap_of_fits (List.forall_mem_map.2 hfits)

/-- Two devices, one behind the other: 24 entries from GSI 0 on and 8 entries from GSI 24 on. -/
theorem refines_map_common :
    RefinesMap [(⟨fun _ => 0#32, 24#8⟩, 0#32), (⟨fun _ => 0#32, 8#8⟩, 24#32)] :=
  (refines_map_iff [(⟨fun _ => 0#32, 24#8⟩, 0#32), (⟨fun _ => 0#32, 8#8⟩, 24#32)]
    (List.pairwise_pair.2 fun _ h => Nat.not_lt_of_le h.2.1 h.1.2) (by simp)).2 (by simp)

/-- A device with 240 entries: entry 120 is written over the id. -/
theorem setEntry_identification :
    (step [(⟨fun _ => 0#32, 240#8⟩, 0#32)] ⟨120#32, .setEntry 0xFF#64⟩).map Entry.identification =
      [(0xFF#32, 0#32, 0#32)] := by
  decide

end SigmaOS.Arch.IoApic
