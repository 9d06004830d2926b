import SigmaOS.Acpi.Madt

/-!
# Arch.Dmar — the DMA remapping table

`parse` is the loop of the constructor of `iommu` over the DMAR table, with the loop over the
device scopes of a remapping unit (`parseScope`) and the loop over the path of a scope
(`parsePath`).  As in `Acpi.Madt` every access goes through `Records.read`, also those of the debug
output, and offsets are counted from the start of the table.  What is kept of an engine is what its
constructor reads from the table; the setup of the hardware and the text of the debug output are
left out.
-/

namespace SigmaOS.Arch.Dmar

open Lib.Records Acpi

/-! ## The parser -/

/-- The segment and the register base of a `dma_remapping_engine`. -/
structure EngineDef where
  segmentNumber : BitVec 16
  registerBase : BitVec 64
  deriving DecidableEq, Repr

inductive EntryType where
  | dmaRemappingDef
  | reservedMemRegion
  | unknown
  deriving DecidableEq, Repr

def entryType (type : Nat) : EntryType :=
  if type = 0 then .dmaRemappingDef
  else if type = 1 then .reservedMemRegion
  else .unknown

/-- One round of the loop over the path of the scope at `device`. -/
def parsePath (bytes : Bytes) (device pathOffset : Nat) (_ : Unit) : Except Fault (Unit × Nat) := do
  let _hop ← read bytes (device + pathOffset) 2
  return ((), 2)

/-- One round of the loop over the scopes of the unit at `entry`. -/
def parseScope (fuel : Nat) (bytes : Bytes) (entry deviceOffset : Nat) (_ : Unit) :
    Except Fault (Unit × Nat) := do
  let device := entry + deviceOffset
  let _type ← read bytes device 1
  let _enumId ← read bytes (device + 4) 1
  let _startBusNum ← read bytes (device + 5) 1
  let length ← read bytes (device + 1) 1
  scan length (parsePath bytes device) fuel 6 ()
  return ((), length)

def parseRemapping (fuel : Nat) (bytes : Bytes) (entry : Nat) (engines : List EngineDef) :
    Except Fault (List EngineDef) := do
  let segmentNumber := BitVec.ofNat 16 (← read bytes (entry + 6) 2)
  let registerBase := BitVec.ofNat 64 (← read bytes (entry + 8) 8)
  let _flags ← read bytes (entry + 4) 1
  let length ← read bytes (entry + 2) 2
  scan length (parseScope fuel bytes entry) fuel 16 ()
  return engines ++ [⟨segmentNumber, registerBase⟩]

def parseRegion (bytes : Bytes) (entry : Nat) (engines : List EngineDef) :
    Except Fault (List EngineDef) := do
  let _segmentNumber ← read bytes (entry + 6) 2
  let _regionBase ← read bytes (entry + 8) 8
  let _regionLimit ← read bytes (entry + 16) 8
  return engines

def parseBody (fuel : Nat) (bytes : Bytes) (entry : Nat) (engines : List EngineDef) :
    EntryType → Except Fault (List EngineDef)
  | .dmaRemappingDef => parseRemapping fuel bytes entry engines
  | .reservedMemRegion => parseRegion bytes entry engines
  | .unknown => .ok engines

/-- One round of the outer loop: the entry at `entry`, and its length. -/
def parseEntry (fuel : Nat) (bytes : Bytes) (entry : Nat) (engines : List EngineDef) :
    Except Fault (List EngineDef × Nat) := do
  let type ← read bytes entry 2
  let engines ← parseBody fuel bytes entry engines (entryType type)
  let length ← read bytes (entry + 2) 2
  return (engines, length)

def parse (t : Table 48) (fuel : Nat) : Except Fault (List EngineDef) := do
  let _hostDmaAddressWidth ← read t.bytes 36 1
  let _flags ← read t.bytes 37 1
  let length ← read t.bytes 4 4
  scan length (parseEntry fuel t.bytes) fuel 48 []

/-! ## Well-formed tables -/

/-- The words of the path of the scope at `device` are in the table. -/
def PathFits (bytes : Bytes) (device : Nat) : Prop :=
  ∀ k, 6 + 2 * k < field bytes (device + 1) 1 → device + (6 + 2 * k) + 2 ≤ bytes.length

/-- The scopes that the parser comes to in the unit at `entry` are in the table and have a length
other than 0. -/
def ScopesFit (bytes : Bytes) (entry : Nat) : Prop :=
  ∀ p, Reached (field bytes (entry + 2) 2) (fun p => field bytes (entry + p + 1) 1) 16 p →
    p < field bytes (entry + 2) 2 →
    (entry + p + 6 ≤ bytes.length ∧ PathFits bytes (entry + p)) ∧ field bytes (entry + p + 1) 1 ≠ 0

/-- An entry of the given type at `entry` is in the table, with its scopes. -/
def EntryFits (bytes : Bytes) (entry : Nat) : EntryType → Prop
  | .dmaRemappingDef => entry + 16 ≤ bytes.length ∧ ScopesFit bytes entry
  | .reservedMemRegion => entry + 24 ≤ bytes.length
  | .unknown => entry + 4 ≤ bytes.length

/-- Every entry that the parser comes to fits into the table and has a length other than 0. -/
def WellFormed (t : Table 48) : Prop :=
  ∀ entry, Reached t.bytes.length (fun entry => field t.bytes (entry + 2) 2) 48 entry →
    entry < t.bytes.length →
    EntryFits t.bytes entry (entryType (field t.bytes entry 2)) ∧ field t.bytes (entry + 2) 2 ≠ 0

section Loops

variable {bytes : Bytes} {fuel : Nat}

variable {device entry : Nat} {u : Unit} {engines engines' : List EngineDef} {type : EntryType}
  {t : Table 48}

lemma path_of_scan
    (h : scan (field bytes (device + 1) 1) (parsePath bytes device) fuel 6 () = .ok u) :
    PathFits bytes device := by
  intro k hk
  have hvisit : ∀ p s s' n, parsePath bytes device p s = .ok (s', n) →
      device + p + 2 ≤ bytes.length ∧ n = 2 := by
    intro p s s' n hp
    simp only [parsePath, read_bind] at hp
    split at hp
    · next hfits =>
      cases hp
      exact ⟨hfits, rfl⟩
    · cases hp
  exact (reached_of_scan hvisit h _ (Reached.stride hk) hk).1

lemma scan_of_path (h : PathFits bytes device) (hfuel : 255 < fuel) :
    ∃ u, scan (field bytes (device + 1) 1) (parsePath bytes device) fuel 6 () = .ok u := by
  have hvisit : ∀ p s, p < field bytes (device + 1) 1 → device + p + 2 ≤ bytes.length →
      ∃ s', parsePath bytes device p s = .ok (s', 2) := by
    intro p s _ hfits
    exact ⟨(), by simp only [parsePath, read_bind, if_pos hfits]; rfl⟩
  have hlt : field bytes (device + 1) 1 < 256 := field_lt
  refine scan_of_reached hvisit (by omega) fun p hp hless => ⟨?_, by decide⟩
  rcases hp.exists_stride with ⟨k, rfl⟩
  exact h k hless

lemma parseScope_ok_iff {p : Nat} {s : Unit} {r : Unit × Nat} :
    parseScope fuel bytes entry p s = .ok r ↔
      entry + p + 6 ≤ bytes.length ∧
        (∃ u, scan (field bytes (entry + p + 1) 1) (parsePath bytes (entry + p)) fuel 6 () = .ok u) ∧
        ((), field bytes (entry + p + 1) 1) = r := by
  simp only [parseScope, bind_eq_ok, read_eq_ok, pure, Except.pure, Except.ok.injEq]
  constructor
  · rintro ⟨_, _, _, _, _, ⟨hfits, _⟩, length, ⟨_, rfl⟩, u, hscan, hr⟩
    exact ⟨hfits, ⟨u, hscan⟩, hr⟩
  · rintro ⟨hfits, ⟨u, hscan⟩, hr⟩
    exact ⟨_, ⟨by omega, rfl⟩, _, ⟨by omega, rfl⟩, _, ⟨hfits, rfl⟩, _, ⟨by omega, rfl⟩, u, hscan, hr⟩

lemma scopes_of_scan
    (h : scan (field bytes (entry + 2) 2) (parseScope fuel bytes entry) fuel 16 () = .ok u) :
    ScopesFit bytes entry := by
  refine reached_of_scan (fun p s s' n hp => ?_) h
  rcases parseScope_ok_iff.1 hp with ⟨hfits, ⟨u, hscan⟩, hr⟩
  exact ⟨⟨hfits, path_of_scan hscan⟩, (congrArg Prod.snd hr).symm⟩

lemma scan_of_scopes (h : ScopesFit bytes entry) (hfuel : 65535 < fuel) :
    ∃ u, scan (field bytes (entry + 2) 2) (parseScope fuel bytes entry) fuel 16 () = .ok u := by
  have hlt : field bytes (entry + 2) 2 < 65536 := field_lt
  refine scan_of_reached (fun p s _ hp => ?_) (by omega) h
  exact ⟨(), parseScope_ok_iff.2 ⟨hp.1, scan_of_path hp.2 (by omega), rfl⟩⟩

lemma parseRemapping_ok_iff :
    parseRemapping fuel bytes entry engines = .ok engines' ↔
      entry + 16 ≤ bytes.length ∧
        (∃ u, scan (field bytes (entry + 2) 2) (parseScope fuel bytes entry) fuel 16 () = .ok u) ∧
        engines ++ [⟨BitVec.ofNat 16 (field bytes (entry + 6) 2),
          BitVec.ofNat 64 (field bytes (entry + 8) 8)⟩] = engines' := by
  simp only [parseRemapping, bind_eq_ok, read_eq_ok, pure, Except.pure, Except.ok.injEq]
  constructor
  · rintro ⟨_, ⟨_, rfl⟩, _, ⟨hfits, rfl⟩, _, _, _, ⟨_, rfl⟩, u, hscan, hr⟩
    exact ⟨hfits, ⟨u, hscan⟩, hr⟩
  · rintro ⟨hfits, ⟨u, hscan⟩, hr⟩
    exact ⟨_, ⟨by omega, rfl⟩, _, ⟨hfits, rfl⟩, _, ⟨by omega, rfl⟩, _, ⟨by omega, rfl⟩, u, hscan, hr⟩

lemma parseRegion_ok_iff :
    parseRegion bytes entry engines = .ok engines' ↔
      entry + 24 ≤ bytes.length ∧ engines = engines' := by
  simp only [parseRegion, bind_eq_ok, read_eq_ok, pure, Except.pure, Except.ok.injEq]
  constructor
  · rintro ⟨_, _, _, _, _, ⟨hfits, _⟩, hr⟩
    exact ⟨hfits, hr⟩
  · rintro ⟨hfits, hr⟩
    exact ⟨_, ⟨by omega, rfl⟩, _, ⟨by omega, rfl⟩, _, ⟨hfits, rfl⟩, hr⟩

lemma body_of_parse (h : parseBody fuel bytes entry engines type = .ok engines')
    (hfour : entry + 4 ≤ bytes.length) : EntryFits bytes entry type := by
  cases type with
  | dmaRemappingDef =>
    rcases parseRemapping_ok_iff.1 h with ⟨hfits, ⟨u, hscan⟩, _⟩
    exact ⟨hfits, scopes_of_scan hscan⟩
  | reservedMemRegion => exact (parseRegion_ok_iff.1 h).1
  | unknown => exact hfour

lemma parse_of_body (engines : List EngineDef) (h : EntryFits bytes entry type)
    (hfuel : 65535 < fuel) :
    entry + 4 ≤ bytes.length ∧ ∃ engines', parseBody fuel bytes entry engines type = .ok engines' := by
  cases type with
  | dmaRemappingDef =>
    exact ⟨Nat.le_trans (by omega) h.1, _,
      parseRemapping_ok_iff.2 ⟨h.1, scan_of_scopes h.2 hfuel, rfl⟩⟩
  | reservedMemRegion => exact ⟨Nat.le_trans (by omega) h, _, parseRegion_ok_iff.2 ⟨h, rfl⟩⟩
  | unknown => exact ⟨h, _, rfl⟩

lemma entry_of_parse {n : Nat} (h : parseEntry fuel bytes entry engines = .ok (engines', n)) :
    EntryFits bytes entry (entryType (field bytes entry 2)) ∧ n = field bytes (entry + 2) 2 := by
  simp only [parseEntry, bind_eq_ok, read_eq_ok, pure, Except.pure, Except.ok.injEq] at h
  rcases h with ⟨type, ⟨_, rfl⟩, engines₁, hbody, length, ⟨hlength, rfl⟩, hr⟩
  exact ⟨body_of_parse hbody hlength, (congrArg Prod.snd hr).symm⟩

lemma parse_of_entry (h : EntryFits bytes entry (entryType (field bytes entry 2)))
    (hfuel : 65535 < fuel) :
    ∃ engines', parseEntry fuel bytes entry engines = .ok (engines', field bytes (entry + 2) 2) := by
  rcases parse_of_body engines h hfuel with ⟨hlength, engines', hbody⟩
  refine ⟨engines', ?_⟩
  simp only [parseEntry, bind_eq_ok, read_eq_ok, pure, Except.pure, Except.ok.injEq]
  exact ⟨_, ⟨by omega, rfl⟩, engines', hbody, _, ⟨hlength, rfl⟩, rfl⟩

lemma parse_eq : parse t fuel = scan t.bytes.length (parseEntry fuel t.bytes) fuel 48 [] := by
  have hle := t.fixed_le
  simp only [parse, read_bind, if_pos (show 36 + 1 ≤ t.bytes.length by omega),
    if_pos (show 37 + 1 ≤ t.bytes.length by omega), if_pos (show 4 + 4 ≤ t.bytes.length by omega),
    t.length_eq]

lemma parse_ends_iff :
    (∃ rounds, ∀ fuel, rounds ≤ fuel → ∃ engines, parse t fuel = .ok engines) ↔ WellFormed t := by
  simp only [parse_eq]
  constructor
  · rintro ⟨rounds, h⟩
    rcases h rounds (Nat.le_refl rounds) with ⟨engines, hscan⟩
    intro entry hreached hless
    exact reached_of_scan (fun _ _ _ _ hround => entry_of_parse hround) hscan entry hreached hless
  · intro h
    refine ⟨t.bytes.length + 65536, fun fuel hfuel => ?_⟩
    have hround : ∀ entry engines, entry < t.bytes.length →
        EntryFits t.bytes entry (entryType (field t.bytes entry 2)) →
        ∃ engines', parseEntry fuel t.bytes entry engines =
          .ok (engines', field t.bytes (entry + 2) 2) :=
      fun _ _ _ hfits => parse_of_entry hfits (by omega)
    exact scan_of_reached hround (by omega) h

end Loops

/-- The parsers of the MADT and of the DMAR table terminate and stay inside of the table exactly when
every record that they come to fits and has a length other than 0. -/
theorem tables_end_iff (cpuid : Cpuid) (madt : Table 44) (dmar : Table 48) :
    ((∃ rounds, ∀ fuel, rounds ≤ fuel → ∃ m, Madt.parse cpuid madt fuel Madt.new = .ok m) ↔
        Madt.WellFormed madt) ∧
      ((∃ rounds, ∀ fuel, rounds ≤ fuel → ∃ engines, parse dmar fuel = .ok engines) ↔
        WellFormed dmar) :=
  ⟨Madt.parse_ends_iff, parse_ends_iff⟩

def zeroLengthMadt : Table 44 where
  bytes := encodeLe 4 0x43495041 ++ encodeLe 4 46 ++ List.replicate 36 0#8 ++ [0x7F#8, 0#8]
  fixed_le := by decide
  length_eq := by decide

def truncatedDmar : Table 48 where
  bytes := encodeLe 4 0x52414D44 ++ encodeLe 4 52 ++ List.replicate 40 0#8 ++ [0#8, 0#8, 4#8, 0#8]
  fixed_le := by decide
  length_eq := by decide

/-- The parser of the MADT stays at the entry of length 0 for ever, and the one of the DMAR table reads
the segment and the register base behind the end. -/
theorem tables_hang_and_overrun :
    (∀ fuel, Madt.parse ⟨none, none⟩ zeroLengthMadt fuel Madt.new = .error .outOfFuel) ∧
      ∀ fuel, 0 < fuel → parse truncatedDmar fuel = .error .overrun := by
  constructor
  · intro fuel
    rw [Madt.parse_eq]
    exact scan_stuck (by decide) rfl fuel
  · intro fuel hfuel
    rcases Nat.exists_eq_succ_of_ne_zero (Nat.ne_of_gt hfuel) with ⟨fuel, rfl⟩
    rfl

end SigmaOS.Arch.Dmar
