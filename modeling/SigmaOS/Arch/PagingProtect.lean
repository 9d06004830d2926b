import SigmaOS.Arch.PagingRefine

/-!
# Arch.PagingProtect — changing the protection of a page

`context::set_page_protection` looks a page up and writes its entry back with the flags that are
asked for.  The flags are set over those the entry has: nothing is ever taken away.

The tables of a `Context` form a tree, which is what keeps one page from being seen as another.
-/

namespace SigmaOS.Arch.Paging

open Lib BitVec

/-- The new value of `pt_entry`; the global bit is set in the entry itself, the others go through
`entry_flags`. -/
def protectedEntry (entry flags : BitVec 64) (cache : CacheType) : BitVec 64 :=
  let e := if flags.getLsbD 0 then bitSet 0#64 0 else 0#64
  let e := if flags.getLsbD 2 then bitSet e 2 else e
  let e := if flags.getLsbD 3 then bitSet e 63 else e
  let e := if flags.getLsbD 1 then bitSet e 1 else e
  let entry := if flags.getLsbD 4 then bitSet entry 8 else entry
  setFlags entry e ||| getPatFlags cache

/-- `context::set_page_protection` on the context with the PML4 table `root`. -/
def setPageProtection (root : Frame) (virt flags : BitVec 64) (cache : CacheType) (s : Phys) :
    Bool × Phys :=
  let pml4Entry := s.tables root (pml4Index virt)
  let s := s.touch root
  if present pml4Entry then
    let pdpt := getFrame pml4Entry
    let pdptEntry := s.tables pdpt (pdptIndex virt)
    let s := s.touch pdpt
    if present pdptEntry then
      let pd := getFrame pdptEntry
      let pdEntry := s.tables pd (pdIndex virt)
      let s := s.touch pd
      if present pdEntry then
        let pt := getFrame pdEntry
        let ptEntry := s.tables pt (ptIndex virt)
        let s := s.touch pt
        if present ptEntry then
          (true, s.write pt (ptIndex virt) (protectedEntry ptEntry flags cache))
        else
          (false, s)
      else
        (false, s)
    else
      (false, s)
  else
    (false, s)

/-! ## The entry -/

lemma entryFlags_masked (flags : BitVec 64) :
    entryFlags flags &&& flagsMask = entryFlags flags := by
  apply eq_of_getLsbD_eq
  intro n hn
  rw [getLsbD_and, flagsMask_getLsbD hn, entryFlags_getLsbD]
  by_cases hframe : 12 ≤ n ∧ n < 52
  · have hother : n ≠ 0 ∧ n ≠ 1 ∧ n ≠ 2 ∧ n ≠ 63 ∧ n ≠ 8 := by omega
    simp [hother]
  · simp [hframe]

/-- The entry is the old one with the flags of `map_page` over it: it makes no difference that the
global bit is set in another place. -/
lemma protectedEntry_eq (entry flags : BitVec 64) (cache : CacheType) :
    protectedEntry entry flags cache =
      setFlags entry (entryFlags flags) ||| getPatFlags cache := by
  apply eq_of_getLsbD_eq
  intro n hn
  simp only [protectedEntry, setFlags, getLsbD_or, getLsbD_and, entryFlags_getLsbD,
    ite_bitSet_getLsbD, flagsMask_getLsbD hn, Nat.reduceLT]
  by_cases hframe : 12 ≤ n ∧ n < 52
  · have hother : n ≠ 0 ∧ n ≠ 1 ∧ n ≠ 2 ∧ n ≠ 63 ∧ n ≠ 8 := by omega
    simp [hframe, hother]
  · grind

lemma protectedEntry_getLsbD (entry flags : BitVec 64) (cache : CacheType) (n : Nat) :
    (protectedEntry entry flags cache).getLsbD n =
      (entry.getLsbD n || (entryFlags flags).getLsbD n || (getPatFlags cache).getLsbD n) := by
  rw [protectedEntry_eq, setFlags, entryFlags_masked, getLsbD_or, getLsbD_or]

lemma present_protectedEntry {entry : BitVec 64} (flags : BitVec 64) (cache : CacheType)
    (h : present entry = true) : present (protectedEntry entry flags cache) = true := by
  have hbit : entry.getLsbD 0 = true := h
  rw [present, protectedEntry_getLsbD, hbit, Bool.true_or, Bool.true_or]

lemma getFrame_protectedEntry (entry flags : BitVec 64) (cache : CacheType) :
    getFrame (protectedEntry entry flags cache) = getFrame entry := by
  have hmask : flagsMask &&& frameMask = 0#64 := by decide
  refine Subtype.ext ?_
  show protectedEntry entry flags cache &&& frameMask = entry &&& frameMask
  rw [protectedEntry_eq, setFlags, and_or_distrib_right, and_or_distrib_right,
    and_assoc (entryFlags flags), hmask, getPatFlags_frame, and_zero, or_zero,
    or_zero]

/-- The permission bits of an entry, each with the bit of `map_page_flags` that asks for it:
writable, user, no-execute and global. -/
def permissionBits : List (Nat × Nat) :=
  [(1, 1), (2, 2), (63, 3), (8, 4)]

def Grants (entry flags : BitVec 64) : Prop :=
  ∀ b ∈ permissionBits, entry.getLsbD b.1 = flags.getLsbD b.2

def Within (entry flags : BitVec 64) : Prop :=
  ∀ b ∈ permissionBits, entry.getLsbD b.1 = true → flags.getLsbD b.2 = true

instance (entry flags : BitVec 64) : Decidable (Grants entry flags) :=
  inferInstanceAs (Decidable (∀ b ∈ permissionBits, _))

instance (entry flags : BitVec 64) : Decidable (Within entry flags) :=
  inferInstanceAs (Decidable (∀ b ∈ permissionBits, _))

lemma protectedEntry_permission {b : Nat × Nat} (hb : b ∈ permissionBits)
    (entry flags : BitVec 64) (cache : CacheType) :
    (protectedEntry entry flags cache).getLsbD b.1 = (entry.getLsbD b.1 || flags.getLsbD b.2) := by
  have hcases : b = (1, 1) ∨ b = (2, 2) ∨ b = (63, 3) ∨ b = (8, 4) := by
    simpa [permissionBits] using hb
  rw [protectedEntry_getLsbD, entryFlags_getLsbD, getPatFlags_getLsbD]
  rcases hcases with rfl | rfl | rfl | rfl <;> simp

/-- As bits are only added, the result is what was asked for exactly if nothing had to be taken
away. -/
lemma grants_protectedEntry_iff (entry flags : BitVec 64) (cache : CacheType) :
    Grants (protectedEntry entry flags cache) flags ↔ Within entry flags := by
  refine forall₂_congr fun b hb => ?_
  rw [protectedEntry_permission hb]
  cases entry.getLsbD b.1 <;> cases flags.getLsbD b.2 <;> simp

/-! ## Contexts -/

def IsTree (root : Frame) (s : Phys) : Prop :=
  ∃ owner, s.Tracks (treeNext 3) owner ∧ owner root = some []

structure Context where
  root : Frame
  phys : Phys
  tree : IsTree root phys

lemma roleAt_tablePath (virt : BitVec 64) :
    roleAt (treeNext 3) [] (tablePath virt) = some (tablePath virt) :=
  rfl

lemma treeNext_tablePath (virt : BitVec 64) (i : Index) : treeNext 3 (tablePath virt) i = none :=
  rfl

lemma tablePath_ne {v virt : BitVec 64} (hpage : pageOf v ≠ pageOf virt) :
    tablePath v = tablePath virt → ptIndex v ≠ ptIndex virt := by
  intro hpath h1
  have hindices : pml4Index v = pml4Index virt ∧ pdptIndex v = pdptIndex virt ∧
      pdIndex v = pdIndex virt := by
    simpa [tablePath] using hpath
  exact hpage (pageOf_eq_iff.2 ⟨hindices.1, hindices.2.1, hindices.2.2, h1⟩)

def entryAt (m : Tables Frame Index (BitVec 64)) (root : Frame) (virt : BitVec 64) : BitVec 64 :=
  readAt pageFormat m root (tablePath virt) (ptIndex virt)

lemma lookup_eq_entryAt (m : Tables Frame Index (BitVec 64)) (root : Frame) (virt : BitVec 64) :
    lookup m root virt = if present (entryAt m root virt) then some (entryAt m root virt) else none :=
  lookup_eq m root virt

lemma entryAt_of_lookup {m : Tables Frame Index (BitVec 64)} {root : Frame}
    {virt entry : BitVec 64} (h : lookup m root virt = some entry) :
    entryAt m root virt = entry ∧ present entry = true := by
  rw [lookup_eq_entryAt] at h
  split at h
  · next hpresent =>
    cases h
    exact ⟨rfl, hpresent⟩
  · cases h

lemma entryAt_congr (m : Tables Frame Index (BitVec 64)) (root : Frame) {v w : BitVec 64}
    (h : pageOf v = pageOf w) : entryAt m root v = entryAt m root w := by
  rcases pageOf_eq_iff.1 h with ⟨h4, h3, h2, h1⟩
  rw [entryAt, entryAt, tablePath, tablePath, h4, h3, h2, h1]

section Tree

variable {root : Frame} {s s' : Phys} {virt flags entry : BitVec 64} {cache : CacheType}

lemma init_isTree {tables : Tables Frame Index (BitVec 64)} {supply : List Frame}
    {live : Finset Frame} (h : init none (Phys.boot tables supply live) = some (root, s)) :
    IsTree root s :=
  (init_refines h).tracked

section

variable (h : IsTree root s)
include h

lemma IsTree.mapPage {phys : BitVec 64} (hmap : mapPage root phys virt flags cache s = some s') :
    IsTree root s' := by
  rcases h with ⟨owner, htracks, hroot⟩
  rcases mapPage_spec htracks hroot (roleAt_tablePath virt) (treeNext_tablePath virt _) hmap with
    ⟨owner', hmapped⟩
  exact ⟨owner', hmapped.tracks, hmapped.keeps root [] hroot⟩

/-- The call fails without a translation, and else rewrites one entry. -/
lemma setPageProtection_cases (virt flags : BitVec 64) (cache : CacheType) :
    (lookup s.tables root virt = none ∧
        setPageProtection root virt flags cache s = (false, s)) ∨
      ∃ pt entry, lookup s.tables root virt = some entry ∧
        walk pageFormat s.tables root (tablePath virt) = some pt ∧
        setPageProtection root virt flags cache s =
          (true, s.write pt (ptIndex virt) (protectedEntry entry flags cache)) := by
  rcases h with ⟨owner, htracks, hroot⟩
  -- every table on the way has a role, so it is outstanding
  have hchild : ∀ {f g : Frame} {path : List Index} {i : Index}, owner f = some path →
      path.length < 3 → present (s.tables f i) = true → getFrame (s.tables f i) = g →
      owner g = some (path ++ [i]) := by
    intro f g path i hf hlen hp hg
    refine (htracks.linked.child_owner hf (p := i) (by simp [treeNext, hlen]) ?_).2
    simp [pageFormat, hp, hg]
  have ht4 := htracks.touch hroot
  by_cases h4 : present (s.tables root (pml4Index virt)) = true
  swap
  · exact .inl ⟨by simp [lookup, h4], by simp [setPageProtection, h4, ht4]⟩
  obtain ⟨pdpt, hpdpt⟩ : ∃ g, getFrame (s.tables root (pml4Index virt)) = g := ⟨_, rfl⟩
  have hpdptRole := hchild hroot (by decide) h4 hpdpt
  have ht3 := htracks.touch hpdptRole
  by_cases h3 : present (s.tables pdpt (pdptIndex virt)) = true
  swap
  · exact .inl ⟨by simp [lookup, h4, hpdpt, h3],
      by simp [setPageProtection, h4, hpdpt, h3, ht4, ht3]⟩
  obtain ⟨pd, hpd⟩ : ∃ g, getFrame (s.tables pdpt (pdptIndex virt)) = g := ⟨_, rfl⟩
  have hpdRole := hchild hpdptRole (by simp) h3 hpd
  have ht2 := htracks.touch hpdRole
  by_cases h2 : present (s.tables pd (pdIndex virt)) = true
  swap
  · exact .inl ⟨by simp [lookup, h4, hpdpt, h3, hpd, h2],
      by simp [setPageProtection, h4, hpdpt, h3, hpd, h2, ht4, ht3, ht2]⟩
  obtain ⟨pt, hpt⟩ : ∃ g, getFrame (s.tables pd (pdIndex virt)) = g := ⟨_, rfl⟩
  have hptRole := hchild hpdRole (by simp) h2 hpt
  have ht1 := htracks.touch hptRole
  by_cases h1 : present (s.tables pt (ptIndex virt)) = true
  swap
  · exact .inl ⟨by simp [lookup, h4, hpdpt, h3, hpd, h2, hpt, h1],
      by simp [setPageProtection, h4, hpdpt, h3, hpd, h2, hpt, h1, ht4, ht3, ht2, ht1]⟩
  refine .inr ⟨pt, s.tables pt (ptIndex virt), ?_, ?_, ?_⟩
  · simp [lookup, h4, hpdpt, h3, hpd, h2, hpt, h1]
  · simp [walk, tablePath, pageFormat, h4, hpdpt, h3, hpd, h2, hpt]
  · simp [setPageProtection, h4, hpdpt, h3, hpd, h2, hpt, h1, ht4, ht3, ht2, ht1]

lemma IsTree.setPageProtection : IsTree root (setPageProtection root virt flags cache s).2 := by
  rcases setPageProtection_cases h virt flags cache with
    ⟨_, hsame⟩ | ⟨pt, entry, _, hwalk, hwritten⟩
  · rw [hsame]
    exact h
  · rcases h with ⟨owner, htracks, hroot⟩
    have hpt := htracks.linked.walk_owner hroot (roleAt_tablePath virt) hwalk
    rw [hwritten]
    exact ⟨owner, htracks.write_data hpt (treeNext_tablePath virt _), hroot⟩

/-- The call changes the entries of its page and no others. -/
lemma IsTree.entryAt_setPageProtection (v : BitVec 64) :
    entryAt (Paging.setPageProtection root virt flags cache s).2.tables root v =
      if pageOf v = pageOf virt ∧ present (entryAt s.tables root v) = true then
        protectedEntry (entryAt s.tables root v) flags cache
      else
        entryAt s.tables root v := by
  rcases setPageProtection_cases h virt flags cache with
    ⟨hnone, hsame⟩ | ⟨pt, entry, hlookup, hwalk, hwritten⟩
  · -- no page of this number is present
    have hskip : ¬ (pageOf v = pageOf virt ∧ present (entryAt s.tables root v) = true) := by
      rintro ⟨hpage, hpresent⟩
      rw [entryAt_congr s.tables root hpage] at hpresent
      simp [lookup_eq_entryAt, hpresent] at hnone
    rw [hsame, if_neg hskip]
  · rcases h with ⟨owner, htracks, hroot⟩
    have hpt := htracks.linked.walk_owner hroot (roleAt_tablePath virt) hwalk
    have hdata := treeNext_tablePath virt (ptIndex virt)
    have htables : (Paging.setPageProtection root virt flags cache s).2.tables =
        s.tables.set pt (ptIndex virt) (protectedEntry entry flags cache) := by
      rw [hwritten]
      rfl
    rw [htables]
    by_cases hpage : pageOf v = pageOf virt
    · rcases entryAt_of_lookup hlookup with ⟨hentry, hpresent⟩
      have hwalk' := htracks.linked.walk_set_data (e := protectedEntry entry flags cache) hpt hdata
        hroot (roleAt_tablePath virt)
      rw [entryAt_congr _ root hpage, entryAt_congr s.tables root hpage, hentry,
        if_pos ⟨hpage, hpresent⟩, entryAt, readAt_of_walk (hwalk'.trans hwalk), Tables.set_same]
    · rw [if_neg fun hboth => hpage hboth.1]
      exact htracks.linked.readAt_set_data hpt hdata hroot (roleAt_tablePath v) (tablePath_ne hpage)

lemma setPageProtection_true (hentry : lookup s.tables root virt = some entry) :
    (setPageProtection root virt flags cache s).1 = true := by
  rcases setPageProtection_cases h virt flags cache with ⟨hnone, _⟩ | ⟨_, _, _, _, hwritten⟩
  · exact absurd (hnone.symm.trans hentry) (by simp)
  · rw [hwritten]

end

end Tree

namespace Context

variable (c : Context) (virt flags : BitVec 64) (cache : CacheType)

def lookup : Option (BitVec 64) :=
  Paging.lookup c.phys.tables c.root virt

def entryAt : BitVec 64 :=
  Paging.entryAt c.phys.tables c.root virt

def setPageProtection : Bool × Context :=
  ((Paging.setPageProtection c.root virt flags cache c.phys).1,
    ⟨c.root, (Paging.setPageProtection c.root virt flags cache c.phys).2, c.tree.setPageProtection⟩)

lemma lookup_eq :
    c.lookup virt = if present (c.entryAt virt) then some (c.entryAt virt) else none :=
  lookup_eq_entryAt _ _ _

lemma entryAt_setPageProtection (v : BitVec 64) :
    (c.setPageProtection virt flags cache).2.entryAt v =
      if pageOf v = pageOf virt ∧ present (c.entryAt v) = true then
        protectedEntry (c.entryAt v) flags cache
      else
        c.entryAt v :=
  c.tree.entryAt_setPageProtection v

variable {c virt}

lemma lookup_of_entryAt {entry : BitVec 64} (h : c.entryAt virt = entry)
    (hpresent : present entry = true) : c.lookup virt = some entry := by
  rw [lookup_eq, h, if_pos hpresent]

lemma setPageProtection_spec {entry : BitVec 64} (hentry : c.lookup virt = some entry) :
    (c.setPageProtection virt flags cache).1 = true ∧
      (∃ entry', (c.setPageProtection virt flags cache).2.lookup virt = some entry' ∧
        getFrame entry' = getFrame entry ∧ (Grants entry' flags ↔ Within entry flags)) ∧
      ∀ v, pageOf v ≠ pageOf virt →
        (c.setPageProtection virt flags cache).2.lookup v = c.lookup v := by
  have hstored : c.entryAt virt = entry := (entryAt_of_lookup hentry).1
  have hpresent := (entryAt_of_lookup hentry).2
  refine ⟨setPageProtection_true c.tree hentry, ⟨protectedEntry entry flags cache, ?_,
    getFrame_protectedEntry entry flags cache, grants_protectedEntry_iff entry flags cache⟩, ?_⟩
  · have hnew : (c.setPageProtection virt flags cache).2.entryAt virt =
        protectedEntry entry flags cache := by
      rw [entryAt_setPageProtection, hstored, if_pos ⟨rfl, hpresent⟩]
    exact lookup_of_entryAt hnew (present_protectedEntry flags cache hpresent)
  · intro v hpage
    have hsame : (c.setPageProtection virt flags cache).2.entryAt v = c.entryAt v := by
      rw [entryAt_setPageProtection, if_neg fun hboth => hpage hboth.1]
    rw [lookup_eq, lookup_eq, hsame]

end Context

end SigmaOS.Arch.Paging
