import SigmaOS.Arch.PagingRefine
import SigmaOS.Arch.PagingTeardown

/-!
# Arch.PagingHalves — the two halves of an address space

The PML4 entries from 256 on belong to the kernel and are shared by all contexts.  `KeepsUpper`
compares two states of the tables as seen from one root: no answer of `get_phys` and `get_entry`
for an address of the upper half differs, and the same tables are reached there.
-/

namespace SigmaOS.Arch.Paging

open Lib List

def IsUpper (virt : BitVec 64) : Prop := 256 ≤ (pml4Index virt).val

instance (virt : BitVec 64) : Decidable (IsUpper virt) :=
  inferInstanceAs (Decidable (256 ≤ (pml4Index virt).val))

/-- `KERNEL_PHYSICAL_VIRTUAL_MAPPING_BASE`, where the kernel sees all of physical memory. -/
def windowBase : BitVec 64 := 0xFFFF800000000000#64

/-- From `m` to `m'` nothing has changed in the upper half below `root`: neither the answers for an
address nor the tables. -/
structure KeepsUpper (root : Frame) (m m' : Tables Frame Index (BitVec 64)) : Prop where
  getPhys : ∀ virt, IsUpper virt → Paging.getPhys m' root virt = Paging.getPhys m root virt
  getEntry : ∀ virt, IsUpper virt → Paging.getEntry m' root virt = Paging.getEntry m root virt
  tables : ∀ (i : Index) (path : List Index), 256 ≤ i.val → path.length ≤ 2 →
    walk pageFormat m' root (i :: path) = walk pageFormat m root (i :: path)

namespace KeepsUpper

variable {root : Frame} {m m' m'' : Tables Frame Index (BitVec 64)}

lemma refl : KeepsUpper root m m :=
  ⟨fun _ _ => rfl, fun _ _ => rfl, fun _ _ _ _ => rfl⟩

lemma trans (h : KeepsUpper root m m') (h' : KeepsUpper root m' m'') : KeepsUpper root m m'' :=
  ⟨fun v hv => (h'.getPhys v hv).trans (h.getPhys v hv),
    fun v hv => (h'.getEntry v hv).trans (h.getEntry v hv),
    fun i path hi hlen => (h'.tables i path hi hlen).trans (h.tables i path hi hlen)⟩

lemma of_lookup (hlookup : ∀ virt, IsUpper virt → lookup m' root virt = lookup m root virt)
    (htables : ∀ (i : Index) (path : List Index), 256 ≤ i.val → path.length ≤ 2 →
      walk pageFormat m' root (i :: path) = walk pageFormat m root (i :: path)) :
    KeepsUpper root m m' := by
  refine ⟨?_, ?_, htables⟩
  · intro v hv
    rw [Paging.getPhys, Paging.getPhys, hlookup v hv]
  · intro v hv
    rw [Paging.getEntry, Paging.getEntry, hlookup v hv]

end KeepsUpper

variable {root : Frame} {virt : BitVec 64} {c : Ctx}

lemma lookup_present {m : Tables Frame Index (BitVec 64)} {entry : BitVec 64}
    (h : lookup m root virt = some entry) : present entry = true := by
  rw [lookup_eq] at h
  by_cases hp : present (readAt pageFormat m root
      [pml4Index virt, pdptIndex virt, pdIndex virt] (ptIndex virt)) = true
  · have heq := by simpa [hp] using h
    rw [← heq]
    exact hp
  · simp [hp] at h

lemma lookup_of_getEntry (m : Tables Frame Index (BitVec 64)) (root : Frame) (virt : BitVec 64) :
    lookup m root virt =
      if present (getEntry m root virt) then some (getEntry m root virt) else none := by
  cases h : lookup m root virt with
  | none => simp [getEntry, h]
  | some entry => simp [getEntry, h, lookup_present h]

lemma KeepsUpper.lookup {m m' : Tables Frame Index (BitVec 64)} (h : KeepsUpper root m m')
    (hv : IsUpper virt) : lookup m' root virt = lookup m root virt := by
  rw [lookup_of_getEntry, lookup_of_getEntry, h.getEntry virt hv]

lemma present_pageEntry (phys flags : BitVec 64) (cache : CacheType) :
    present (pageEntry phys flags cache) = flags.getLsbD 0 :=
  pageEntry_getLsbD ⟨phys, 0#64, flags, cache⟩ (n := 0) (by decide)

lemma pageEntry_user (phys flags : BitVec 64) (cache : CacheType) :
    (pageEntry phys flags cache).getLsbD 2 = flags.getLsbD 2 :=
  pageEntry_getLsbD ⟨phys, 0#64, flags, cache⟩ (n := 2) (by decide)

/-! ## Tables of the upper half -/

lemma roleAt_lower (hv : ¬ IsUpper virt) {before : List Index} (h : before <+: tablePath virt) :
    roleAt roleNext (.own c []) before = some (.own c before) := by
  refine roleAt_own (by simpa [tablePath] using h.length_le) ?_
  rintro - i hi
  cases before with
  | nil => cases hi
  | cons j rest =>
    have hji : j = i := Option.some.inj hi
    rw [← hji, (cons_prefix_cons.1 h).1]
    exact Nat.lt_of_not_le hv

lemma roleAt_upper (hv : IsUpper virt) :
    roleAt roleNext (.own c []) (tablePath virt) = some (.shared 0) := by
  have hi : ¬ (pml4Index virt).val < 256 := Nat.not_lt.2 hv
  simp [tablePath, roleAt, roleNext, hi]

section Halves

variable {owner owner' : Frame → Option Role} {c : Ctx} {root : Frame}
  {m m' : Tables Frame Index (BitVec 64)}

/-- The upper half stays if the root's entries and the shared tables do. -/
lemma KeepsUpper.of_shared (hlinked : Linked pageFormat roleNext owner m)
    (hroot : owner root = some (.own c []))
    (hentry : ∀ i : Index, 256 ≤ i.val → m' root i = m root i)
    (hlinks : ∀ x k q, owner x = some (.shared (k + 1)) → m' x q = m x q)
    (hdata : ∀ x q, owner x = some (.shared 0) →
      m' x q = m x q ∨ (present (m' x q) = false ∧ present (m x q) = false)) :
    KeepsUpper root m m' := by
  -- the first step leads to a shared table, all others stay among the shared ones
  have hwalk : ∀ (i : Index) (path : List Index), 256 ≤ i.val → path.length ≤ 2 →
      walk pageFormat m' root (i :: path) = walk pageFormat m root (i :: path) := by
    intro i path hi hlen
    refine walk_cons_congr (hentry i hi) ?_
    intro g hg
    have hreach : walk pageFormat m root [i] = some g := by simp [walk, hg]
    have hgrole : owner g = some (.shared 2) :=
      hlinked.walk_owner hroot (by simp [roleAt, roleNext_own_upper (Nat.not_lt.2 hi)]) hreach
    refine hlinked.walk_congr (fun l => ∃ k, l = .shared k) ?_ ?_ hgrole ⟨2, rfl⟩
      (roleAt_shared hlen)
    · rintro l q l' ⟨k, rfl⟩ hnext
      rcases roleNext_cases hnext with ⟨_, _, _, hk, _⟩ | ⟨_, hk, _⟩ | ⟨k', _, hl'⟩
      · cases hk
      · cases hk
      · exact ⟨k', hl'⟩
    · rintro x l q l' hx ⟨k, rfl⟩ hnext
      cases k with
      | zero => simp [roleNext] at hnext
      | succ k => exact hlinks x k q hx
  refine KeepsUpper.of_lookup ?_ hwalk
  intro virt hv
  have hsame := hwalk (pml4Index virt) [pdptIndex virt, pdIndex virt] hv (Nat.le_refl 2)
  rw [lookup_eq, lookup_eq]
  cases hg : walk pageFormat m root [pml4Index virt, pdptIndex virt, pdIndex virt] with
  | none => rw [readAt_of_none (hsame.trans hg), readAt_of_none hg]
  | some g =>
    rw [readAt_of_walk (hsame.trans hg), readAt_of_walk hg]
    have hgrole := hlinked.walk_owner hroot (roleAt_upper hv) hg
    rcases hdata g (ptIndex virt) hgrole with heq | ⟨hnew, hold⟩
    · simp only [heq]
    · simp [hnew, hold]

/-- Writes to frames that are no tables change no answer. -/
lemma lookup_of_same {virt : BitVec 64} (hlinked : Linked pageFormat roleNext owner m)
    (hroot : owner root = some (.own c [])) (hsame : ∀ x l, owner x = some l → m' x = m x) :
    lookup m' root virt = lookup m root virt := by
  rcases roleAt_root c (pml4Index virt) (pdptIndex virt) (pdIndex virt) with ⟨l, hrole, _⟩
  have hwalk : walk pageFormat m' root (tablePath virt) = walk pageFormat m root (tablePath virt) :=
    hlinked.walk_congr (fun _ => True) (fun _ _ _ _ _ => trivial)
      (fun x k q _ hx _ _ => by rw [hsame x k hx]) hroot trivial hrole
  rw [lookup_eq, lookup_eq, ← tablePath]
  cases hpt : walk pageFormat m root (tablePath virt) with
  | none => rw [readAt_of_none (hwalk.trans hpt), readAt_of_none hpt]
  | some pt =>
    rw [readAt_of_walk (hwalk.trans hpt), readAt_of_walk hpt,
      hsame pt l (hlinked.walk_owner hroot hrole hpt)]

/-- A page of the lower half is mapped without a trace in the upper half. -/
lemma PageMapped.keepsUpper {s s' : Phys} {virt entry : BitVec 64} (h : s.Tracks roleNext owner)
    (hroot : owner root = some (.own c [])) (hv : ¬ IsUpper virt)
    (hmapped : PageMapped roleNext owner s root (.own c []) (.own c (tablePath virt)) virt entry
      owner' s') : KeepsUpper root s.tables s'.tables := by
  refine KeepsUpper.of_shared h.linked hroot ?_ ?_ ?_
  · intro i hi
    rcases hmapped.links root _ i (.shared 2) hroot (roleNext_own_upper (Nat.not_lt.2 hi)) with
      hsame | ⟨_, before, hbefore, hrole⟩
    · exact hsame
    · -- only the first step starts at the root, and it has a lower index
      have hown := roleAt_lower (c := c) hv ((prefix_append before [i]).trans hbefore)
      have hnil : before = [] := by simpa [hrole, eq_comm] using hown
      subst hnil
      have hi' : i = pml4Index virt := by simpa [tablePath, prefix_cons_iff] using hbefore
      rw [hi'] at hi
      exact absurd hi hv
  · intro x k q hx
    rcases hmapped.links x _ q (.shared k) hx rfl with hsame | ⟨_, before, hbefore, hrole⟩
    · exact hsame
    · have hown := roleAt_lower (c := c) hv ((prefix_append before [q]).trans hbefore)
      rw [hrole] at hown
      exact absurd hown (by simp)
  · intro x q hx
    rcases hmapped.data x _ q hx rfl with hsame | ⟨_, hl, _⟩
    · exact .inl hsame
    · exact absurd hl (by simp)

/-- Mapping the page of `virt` leaves no trace in the upper half: it is a page of the lower half, or
an entry that is not present is written into an existing page table over one that is not present
either. -/
def Harmless (flags : BitVec 64) (m : Tables Frame Index (BitVec 64)) (root : Frame)
    (virt : BitVec 64) : Prop :=
  IsUpper virt → flags.getLsbD 0 = false ∧
    (∃ pt, walk pageFormat m root (tablePath virt) = some pt) ∧ lookup m root virt = none

lemma Harmless.transfer {flags virt : BitVec 64} (h : Harmless flags m root virt)
    (hkeeps : KeepsUpper root m m') : Harmless flags m' root virt := by
  intro hv
  rcases h hv with ⟨hflag, ⟨pt, hwalk⟩, hlookup⟩
  have hsame := hkeeps.tables (pml4Index virt) [pdptIndex virt, pdIndex virt] hv (Nat.le_refl 2)
  exact ⟨hflag, ⟨pt, hsame.trans hwalk⟩, (hkeeps.lookup hv).trans hlookup⟩

variable {s s' : Phys} {phys virt flags : BitVec 64} {cache : CacheType}

section

variable (h : s.Tracks roleNext owner) (hroot : owner root = some (.own c []))
  (hmap : mapPage root phys virt flags cache s = some s')
include h hroot hmap

lemma mapPage_root :
    ∃ owner' l, roleAt roleNext (.own c []) (tablePath virt) = some l ∧
      PageMapped roleNext owner s root (.own c []) l virt (pageEntry phys flags cache)
        owner' s' := by
  rcases roleAt_root c (pml4Index virt) (pdptIndex virt) (pdIndex virt) with ⟨l, hrole, hdata⟩
  rcases mapPage_spec h hroot hrole (hdata _) hmap with ⟨owner', hmapped⟩
  exact ⟨owner', l, hrole, hmapped⟩

/-- So is a harmless page of the upper half. -/
lemma mapPage_keepsUpper (hharm : Harmless flags s.tables root virt) :
    KeepsUpper root s.tables s'.tables := by
  by_cases hv : IsUpper virt
  swap
  · rcases mapPage_root h hroot hmap with ⟨owner', l, hrole, hmapped⟩
    rw [roleAt_lower hv (prefix_refl _)] at hrole
    rw [← Option.some.inj hrole] at hmapped
    exact hmapped.keepsUpper h hroot hv
  -- the page table is there: one entry of it is written
  rcases hharm hv with ⟨hflag, ⟨pt, hwalk⟩, hlookup⟩
  have hrole := roleAt_upper (c := c) hv
  have hpt := h.linked.walk_owner hroot hrole hwalk
  rw [mapPage_existing phys flags cache h hroot hrole hwalk] at hmap
  rw [← Option.some.inj hmap]
  have hset : (s.write pt (ptIndex virt) (pageEntry phys flags cache)).tables =
      s.tables.set pt (ptIndex virt) (pageEntry phys flags cache) := rfl
  have hother : ∀ x l q, owner x = some l → l ≠ .shared 0 →
      s.tables.set pt (ptIndex virt) (pageEntry phys flags cache) x q = s.tables x q := by
    intro x l q hx hl
    refine Tables.set_apply ?_
    rintro ⟨rfl, _⟩
    exact hl (Option.some.inj (hx.symm.trans hpt))
  rw [hset]
  refine KeepsUpper.of_shared h.linked hroot ?_ ?_ ?_
  · intro i _
    exact hother root _ i hroot (by simp)
  · intro x k q hx
    exact hother x _ q hx (by simp)
  · intro x q _
    by_cases hhere : x = pt ∧ q = ptIndex virt
    · rcases hhere with ⟨rfl, rfl⟩
      refine .inr ⟨?_, ?_⟩
      · rw [Tables.set_same, present_pageEntry, hflag]
      · rw [lookup_eq] at hlookup
        have hread := readAt_of_walk (i := ptIndex virt) hwalk
        simp only [tablePath] at hread
        simpa [hread] using hlookup
    · exact .inl (Tables.set_apply hhere)

end

/-! ## What a page that was mapped leaves behind -/

/-- The page of `virt` has a page table, and its entry there satisfies `D`. -/
def EntryHas (D : BitVec 64 → Prop) (m : Tables Frame Index (BitVec 64)) (root : Frame)
    (virt : BitVec 64) : Prop :=
  ∃ pt, walk pageFormat m root (tablePath virt) = some pt ∧ D (m pt (ptIndex virt))

section EntryHas

variable {D : BitVec 64 → Prop}

lemma mapPage_entryHas (h : s.Tracks roleNext owner) (hroot : owner root = some (.own c []))
    (hD : D (pageEntry phys flags cache)) (hmap : mapPage root phys virt flags cache s = some s') :
    EntryHas D s'.tables root virt := by
  rcases mapPage_root h hroot hmap with ⟨owner', l, _, hmapped⟩
  rcases hmapped.reached with ⟨pt, hwalk, hentry⟩
  exact ⟨pt, hwalk, hentry ▸ hD⟩

lemma mapPage_getEntry (h : s.Tracks roleNext owner) (hroot : owner root = some (.own c []))
    (hflags : flags.getLsbD 0 = true) (hmap : mapPage root phys virt flags cache s = some s') :
    present (getEntry s'.tables root virt) = true := by
  have hpresent : present (pageEntry phys flags cache) = true := by rw [present_pageEntry, hflags]
  rcases mapPage_entryHas (D := fun e => present e = true) h hroot hpresent hmap with
    ⟨pt, hwalk, hentry⟩
  rw [getEntry, lookup_eq_some.2 ⟨pt, hwalk, rfl, hentry⟩]
  exact hentry

/-- Later calls that write entries with `D` keep it so, whichever page they are for. -/
lemma EntryHas.mapPage {v : BitVec 64} (hhas : EntryHas D s.tables root v)
    (h : s.Tracks roleNext owner) (hroot : owner root = some (.own c []))
    (hD : D (pageEntry phys flags cache)) (hmap : mapPage root phys virt flags cache s = some s') :
    EntryHas D s'.tables root v := by
  rcases hhas with ⟨pt, hwalk, hentry⟩
  rcases mapPage_root h hroot hmap with ⟨owner', l, _, hmapped⟩
  rcases roleAt_root c (pml4Index v) (pdptIndex v) (pdIndex v) with ⟨l', hrole, hdata⟩
  rcases hmapped.persists h hroot hrole (hdata (ptIndex v)) hwalk with ⟨hwalk', hsame | hnew⟩
  · exact ⟨pt, hwalk', hsame ▸ hentry⟩
  · exact ⟨pt, hwalk', hnew ▸ hD⟩

lemma EntryHas.of_same (hhas : EntryHas D m root virt)
    (hlinked : Linked pageFormat roleNext owner m) (hroot : owner root = some (.own c []))
    (hsame : ∀ x l, owner x = some l → m' x = m x) : EntryHas D m' root virt := by
  rcases hhas with ⟨pt, hwalk, hentry⟩
  rcases roleAt_root c (pml4Index virt) (pdptIndex virt) (pdIndex virt) with ⟨l, hrole, _⟩
  have hwalk' : walk pageFormat m' root (tablePath virt) =
      walk pageFormat m root (tablePath virt) :=
    hlinked.walk_congr (fun _ => True) (fun _ _ _ _ _ => trivial)
      (fun x l q _ hx _ _ => by rw [hsame x l hx]) hroot trivial hrole
  refine ⟨pt, hwalk'.trans hwalk, ?_⟩
  rw [hsame pt l (hlinked.walk_owner hroot hrole hwalk)]
  exact hentry

/-- `get_phys` finds a page exactly if its entry is present: no frame has the address `-1`. -/
lemma getPhys_ne_allOnes :
    getPhys m root virt ≠ BitVec.allOnes 64 ↔ EntryHas (fun e => present e = true) m root virt := by
  cases hlookup : lookup m root virt with
  | none =>
    refine iff_of_false (by simp [getPhys, hlookup]) ?_
    rintro ⟨pt, hwalk, hpresent⟩
    have hsome := lookup_eq_some.2 ⟨pt, hwalk, rfl, hpresent⟩
    rw [hlookup] at hsome
    cases hsome
  | some entry =>
    rcases lookup_eq_some.1 hlookup with ⟨pt, hwalk, hentry, hpresent⟩
    refine iff_of_true ?_ ⟨pt, hwalk, hentry ▸ hpresent⟩
    intro hall
    have hbit : (getFrame entry).1.getLsbD 63 = true := by
      have hgot : getPhys m root virt = (getFrame entry).1 := by simp [getPhys, hlookup]
      rw [← hgot, hall]
      decide
    have hmask : frameMask.getLsbD 63 = false := by decide
    rw [getFrame, BitVec.getLsbD_and, hmask, Bool.and_false] at hbit
    cases hbit

end EntryHas

/-- The page of `virt` has a page table, and its entry there was written with `flags`. -/
def Shows (flags : BitVec 64) (m : Tables Frame Index (BitVec 64)) (root : Frame)
    (virt : BitVec 64) : Prop :=
  ∃ pt phys, walk pageFormat m root (tablePath virt) = some pt ∧
    m pt (ptIndex virt) = pageEntry phys flags .normal

lemma shows_iff :
    Shows flags m root virt ↔
      EntryHas (fun e => ∃ phys, e = pageEntry phys flags .normal) m root virt := by
  constructor
  · rintro ⟨pt, p, hwalk, hentry⟩
    exact ⟨pt, hwalk, p, hentry⟩
  · rintro ⟨pt, hwalk, p, hentry⟩
    exact ⟨pt, p, hwalk, hentry⟩

lemma mapPage_shows (h : s.Tracks roleNext owner) (hroot : owner root = some (.own c []))
    (hmap : mapPage root phys virt flags .normal s = some s') : Shows flags s'.tables root virt :=
  shows_iff.2 (mapPage_entryHas h hroot ⟨phys, rfl⟩ hmap)

lemma Shows.of_same (hshows : Shows flags m root virt)
    (hlinked : Linked pageFormat roleNext owner m) (hroot : owner root = some (.own c []))
    (hsame : ∀ x l, owner x = some l → m' x = m x) : Shows flags m' root virt :=
  shows_iff.2 ((shows_iff.1 hshows).of_same hlinked hroot hsame)

lemma Shows.getPhys (hshows : Shows flags m root virt) (hflags : flags.getLsbD 0 = false) :
    getPhys m root virt = BitVec.allOnes 64 := by
  by_contra hfound
  rcases hshows with ⟨pt, p, hwalk, hentry⟩
  rcases getPhys_ne_allOnes.1 hfound with ⟨pt', hwalk', hpresent⟩
  have hpt : pt = pt' := Option.some.inj (hwalk.symm.trans hwalk')
  subst hpt
  rw [hentry, present_pageEntry, hflags] at hpresent
  cases hpresent

end Halves

end SigmaOS.Arch.Paging
