import SigmaOS.Arch.PagingFrame
import SigmaOS.Proc.System

/-!
# Proc.ForkPages — the loops of `fork_address_space`

`fork_address_space` walks the parent's lower half in four nested loops and maps a copy of each page
that it finds.  The loops are turned into one list: as long as the parent's tables stay as they are,
they fork the pages of `lowerPages`, in this order (`forkPages_eq`).
-/

namespace SigmaOS.Proc.Process

open Lib Arch.Paging List BitVec Option

/-- The address of four indices below 256. -/
lemma indiciesToAddr_toNat (i j k l : Index) :
    (indiciesToAddr i j k l).toNat =
      i.val * 2 ^ 39 + j.val * 2 ^ 30 + k.val * 2 ^ 21 + l.val * 2 ^ 12 := by
  -- a shifted index stays below 2^48, so nothing is cut off
  have hshift : ∀ (n : Index) (shift : Nat), shift ≤ 39 →
      (BitVec.ofNat 64 n.val <<< shift).toNat = 2 ^ shift * n.val := by
    intro n shift hshift
    have hpow : 2 ^ shift ≤ 2 ^ 39 := Nat.pow_le_pow_right Nat.two_pos hshift
    have hlt : n.val * 2 ^ shift < 2 ^ 64 := by
      calc
        n.val * 2 ^ shift ≤ 511 * 2 ^ 39 := Nat.mul_le_mul (by omega) hpow
        _ < 2 ^ 64 := by decide
    have hsmall : n.val % 2 ^ 64 = n.val := Nat.mod_eq_of_lt (by omega)
    rw [toNat_shiftLeft, toNat_ofNat, hsmall, Nat.shiftLeft_eq,
      Nat.mod_eq_of_lt hlt, Nat.mul_comm]
  -- each index fits under the ones above it, so the `or` is a sum
  have h₁ : 2 ^ 39 * i.val ||| 2 ^ 30 * j.val = 2 ^ 39 * i.val + 2 ^ 30 * j.val :=
    (Nat.two_pow_add_eq_or_of_lt (by omega) i.val).symm
  have h₂ : 2 ^ 39 * i.val + 2 ^ 30 * j.val ||| 2 ^ 21 * k.val =
      2 ^ 39 * i.val + 2 ^ 30 * j.val + 2 ^ 21 * k.val := by
    have hsum : 2 ^ 39 * i.val + 2 ^ 30 * j.val = 2 ^ 30 * (2 ^ 9 * i.val + j.val) := by omega
    rw [hsum]
    exact (Nat.two_pow_add_eq_or_of_lt (by omega) _).symm
  have h₃ : 2 ^ 39 * i.val + 2 ^ 30 * j.val + 2 ^ 21 * k.val ||| 2 ^ 12 * l.val =
      2 ^ 39 * i.val + 2 ^ 30 * j.val + 2 ^ 21 * k.val + 2 ^ 12 * l.val := by
    have hsum : 2 ^ 39 * i.val + 2 ^ 30 * j.val + 2 ^ 21 * k.val =
        2 ^ 21 * (2 ^ 18 * i.val + 2 ^ 9 * j.val + k.val) := by
      omega
    rw [hsum]
    exact (Nat.two_pow_add_eq_or_of_lt (by omega) _).symm
  rw [indiciesToAddr, toNat_or, toNat_or, toNat_or, hshift i 39 (by decide),
    hshift j 30 (by decide), hshift k 21 (by decide), hshift l 12 (by decide), h₁, h₂, h₃]
  omega

lemma indiciesToAddr_indices (i j k l : Index) :
    pml4Index (indiciesToAddr i j k l) = i ∧ pdptIndex (indiciesToAddr i j k l) = j ∧
      pdIndex (indiciesToAddr i j k l) = k ∧ ptIndex (indiciesToAddr i j k l) = l := by
  have haddr := indiciesToAddr_toNat i j k l
  simp only [pml4Index, pdptIndex, pdIndex, ptIndex, Fin.ext_iff, tableIndex_val, haddr]
  omega

lemma pageOf_indiciesToAddr (virt : BitVec 64) :
    pageOf (indiciesToAddr (pml4Index virt) (pdptIndex virt) (pdIndex virt) (ptIndex virt)) =
      pageOf virt :=
  pageOf_eq_iff.2 (indiciesToAddr_indices _ _ _ _)

/-! ## The pages of a lower half -/

/-- The page behind four indices, if it is present: its address and its entry. -/
def pagesAt (m : Tables Frame Index (BitVec 64)) (root : Frame) (i j k l : Index) :
    List (BitVec 64 × BitVec 64) :=
  ((lookup m root (indiciesToAddr i j k l)).map fun entry =>
    (indiciesToAddr i j k l, entry)).toList

/-- The pages that are present in the lower half, in the order of their addresses. -/
def lowerPages (m : Tables Frame Index (BitVec 64)) (root : Frame) :
    List (BitVec 64 × BitVec 64) :=
  lowerHalf.flatMap fun i =>
    (List.finRange 512).flatMap fun j =>
      (List.finRange 512).flatMap fun k =>
        (List.finRange 512).flatMap fun l => pagesAt m root i j k l

section Pages

variable {m : Tables Frame Index (BitVec 64)} {root : Frame} {i j k l : Index}
  {page : BitVec 64 × BitVec 64} {virt entry : BitVec 64}

lemma mem_pagesAt :
    page ∈ pagesAt m root i j k l ↔
      page.1 = indiciesToAddr i j k l ∧ lookup m root page.1 = some page.2 := by
  rw [pagesAt, mem_toList, map_eq_some_iff]
  constructor
  · rintro ⟨entry, hentry, rfl⟩
    exact ⟨rfl, hentry⟩
  · rintro ⟨haddr, hentry⟩
    exact ⟨page.2, haddr ▸ hentry, Prod.ext haddr.symm rfl⟩

def LowerPage (m : Tables Frame Index (BitVec 64)) (root : Frame) (page : BitVec 64 × BitVec 64) :
    Prop :=
  ¬ IsUpper page.1 ∧ lookup m root page.1 = some page.2

lemma LowerPage.of_pagesAt (hi : i ∈ lowerHalf) (h : page ∈ pagesAt m root i j k l) :
    LowerPage m root page := by
  rcases mem_pagesAt.1 h with ⟨haddr, hlookup⟩
  refine ⟨?_, hlookup⟩
  rw [haddr, IsUpper, (indiciesToAddr_indices i j k l).1]
  exact Nat.not_le.2 (mem_lowerHalf.1 hi)

lemma mem_lowerPages (h : page ∈ lowerPages m root) : LowerPage m root page := by
  simp only [lowerPages, mem_flatMap] at h
  rcases h with ⟨i, hi, j, _, k, _, l, _, hpage⟩
  exact .of_pagesAt hi hpage

lemma lowerPages_complete (hv : ¬ IsUpper virt) (h : lookup m root virt = some entry) :
    ∃ page ∈ lowerPages m root, pageOf page.1 = pageOf virt ∧ page.2 = entry := by
  -- the list has the first address of the page
  let addr := indiciesToAddr (pml4Index virt) (pdptIndex virt) (pdIndex virt) (ptIndex virt)
  have hpage : pageOf addr = pageOf virt := pageOf_indiciesToAddr virt
  have hlookup : lookup m root addr = some entry := (lookup_congr_page hpage).trans h
  refine ⟨(addr, entry), ?_, hpage, rfl⟩
  simp only [lowerPages, mem_flatMap]
  exact ⟨pml4Index virt, mem_lowerHalf.2 (Nat.lt_of_not_le hv), pdptIndex virt,
    mem_finRange _, pdIndex virt, mem_finRange _, ptIndex virt, mem_finRange _,
    mem_pagesAt.2 ⟨rfl, hlookup⟩⟩

/-- A list that is put together from parts for distinct indices, which the pages show. -/
lemma pairwise_pages {indices : List Index} {part : Index → List (BitVec 64 × BitVec 64)}
    {index : BitVec 64 → Index} (hindex : ∀ v w, pageOf v = pageOf w → index v = index w)
    (hnodup : indices.Nodup) (hshow : ∀ i ∈ indices, ∀ page ∈ part i, index page.1 = i)
    (hpart : ∀ i ∈ indices, (part i).Pairwise fun p q => pageOf p.1 ≠ pageOf q.1) :
    (indices.flatMap part).Pairwise fun p q => pageOf p.1 ≠ pageOf q.1 := by
  refine pairwise_flatMap.2 ⟨hpart, ?_⟩
  refine hnodup.imp_of_mem ?_
  intro i i' hi hi' hne p hp q hq hpage
  have hsame := hindex p.1 q.1 hpage
  rw [hshow i hi p hp, hshow i' hi' q hq] at hsame
  exact hne hsame

/-- The loop comes to no page twice. -/
lemma lowerPages_pairwise : (lowerPages m root).Pairwise fun p q => pageOf p.1 ≠ pageOf q.1 := by
  have hall : ∀ i j k l, ∀ page ∈ pagesAt m root i j k l,
      pml4Index page.1 = i ∧ pdptIndex page.1 = j ∧ pdIndex page.1 = k ∧ ptIndex page.1 = l := by
    intro i j k l page hpage
    rw [(mem_pagesAt.1 hpage).1]
    exact indiciesToAddr_indices i j k l
  have hfin : (List.finRange 512).Nodup := nodup_finRange 512
  -- four loops, so four times the same argument, each with its own index of the page
  refine pairwise_pages (fun v w h => (pageOf_eq_iff.1 h).1) (hfin.filter _) ?_ fun i _ => ?_
  · intro i _ page hpage
    simp only [mem_flatMap] at hpage
    rcases hpage with ⟨j, _, k, _, l, _, hpage⟩
    exact (hall i j k l page hpage).1
  refine pairwise_pages (fun v w h => (pageOf_eq_iff.1 h).2.1) hfin ?_ fun j _ => ?_
  · intro j _ page hpage
    simp only [mem_flatMap] at hpage
    rcases hpage with ⟨k, _, l, _, hpage⟩
    exact (hall i j k l page hpage).2.1
  refine pairwise_pages (fun v w h => (pageOf_eq_iff.1 h).2.2.1) hfin ?_ fun k _ => ?_
  · intro k _ page hpage
    simp only [mem_flatMap] at hpage
    rcases hpage with ⟨l, _, hpage⟩
    exact (hall i j k l page hpage).2.2.1
  refine pairwise_pages (fun v w h => (pageOf_eq_iff.1 h).2.2.2) hfin ?_ fun l _ => ?_
  · intro l _ page hpage
    exact (hall i j k l page hpage).2.2.2
  · cases hlookup : lookup m root (indiciesToAddr i j k l) with
    | none => simp [pagesAt, hlookup]
    | some entry => simp [pagesAt, hlookup]

lemma pagesAt_of_walk {pt : Frame} (h : walk pageFormat m root [i, j, k] = some pt) :
    pagesAt m root i j k l =
      if present (m pt l) then [(indiciesToAddr i j k l, m pt l)] else [] := by
  rcases indiciesToAddr_indices i j k l with ⟨h4, h3, h2, h1⟩
  rw [pagesAt, lookup_eq, h4, h3, h2, h1, readAt_of_walk h]
  by_cases hpresent : present (m pt l) = true
  · simp [hpresent]
  · simp [hpresent]

lemma pagesAt_of_absent {before rest : List Index} (h : walk pageFormat m root before = none)
    (hpath : before ++ rest = [i, j, k]) : pagesAt m root i j k l = [] := by
  rcases indiciesToAddr_indices i j k l with ⟨h4, h3, h2, h1⟩
  -- the walk stops at the table that is missing, wherever it would go
  have hwalk : walk pageFormat m root [i, j, k] = none := by
    rw [← hpath, walk_append, h, bind_none]
  rw [pagesAt, lookup_eq, h4, h3, h2, h1, readAt_of_none hwalk]
  rfl

lemma lowerPages_congr {m' : Tables Frame Index (BitVec 64)}
    (h : ∀ v, ¬ IsUpper v → lookup m' root v = lookup m root v) :
    lowerPages m' root = lowerPages m root := by
  refine flatMap_congr fun i hi => ?_
  refine flatMap_congr fun j _ => flatMap_congr fun k _ => flatMap_congr fun l _ => ?_
  have hlow : ¬ IsUpper (indiciesToAddr i j k l) := by
    rw [IsUpper, (indiciesToAddr_indices i j k l).1]
    exact Nat.not_le.2 (mem_lowerHalf.1 hi)
  rw [pagesAt, pagesAt, h _ hlow]

end Pages

/-! ## The loops as one list -/

def forkAll (kernel child : Frame) : List (BitVec 64 × BitVec 64) → Mem → Option Mem
  | [], m => some m
  | page :: pages, m =>
    match forkPage kernel child page.1 page.2 m with
    | none => none
    | some m => forkAll kernel child pages m

/-- Forking any page of the lower half behind `root` keeps `P`. -/
def ForkKeeps (kernel child : Frame) (T : Tables Frame Index (BitVec 64)) (root : Frame)
    (P : Mem → Prop) : Prop :=
  ∀ page m m', LowerPage T root page → P m → forkPage kernel child page.1 page.2 m = some m' → P m'

section Flatten

variable {kernel child root : Frame} {T : Tables Frame Index (BitVec 64)} {P : Mem → Prop}

variable {pages : List (BitVec 64 × BitVec 64)} {part : Index → List (BitVec 64 × BitVec 64)}
  {f : Frame}

variable {m : Mem} {indices : List Index}

lemma forkAll_append {pages' : List (BitVec 64 × BitVec 64)} :
    forkAll kernel child (pages ++ pages') m =
      (forkAll kernel child pages m).bind (forkAll kernel child pages') := by
  induction pages generalizing m with
  | nil => rfl
  | cons page pages ih =>
    cases hfork : forkPage kernel child page.1 page.2 m with
    | none => simp [forkAll, hfork]
    | some m₁ => simpa [forkAll, hfork] using ih

/-- What forking one page keeps, forking all keeps. -/
lemma forkAll_keeps (hkeep : ForkKeeps kernel child T root P) {m' : Mem}
    {pages : List (BitVec 64 × BitVec 64)} (hpages : ∀ page ∈ pages, LowerPage T root page)
    (hm : P m) (h : forkAll kernel child pages m = some m') : P m' := by
  induction pages generalizing m with
  | nil => exact Option.some.inj h ▸ hm
  | cons page pages ih =>
    unfold forkAll at h
    split at h
    · cases h
    next m₁ hfork =>
    exact ih (fun q hq => hpages q (mem_cons_of_mem _ hq))
      (hkeep page m m₁ (hpages page mem_cons_self) hm hfork) h

/-- A loop whose rounds fork the pages of their part forks all of them. -/
lemma forEach_eq_forkAll (hkeep : ForkKeeps kernel child T root P)
    {body : Index → Mem → Option Mem}
    (hpart : ∀ i ∈ indices, ∀ page ∈ part i, LowerPage T root page)
    (hbody : ∀ i ∈ indices, ∀ m, P m → body i m = forkAll kernel child (part i) m) (hm : P m) :
    forEach body indices m = forkAll kernel child (indices.flatMap part) m := by
  induction indices generalizing m with
  | nil => rfl
  | cons i indices ih =>
    have hfirst := hbody i mem_cons_self m hm
    rw [flatMap_cons, forkAll_append, ← hfirst]
    cases hround : body i m with
    | none => simp [forEach, hround]
    | some m₁ =>
      -- the next round begins with the parent's tables as they were
      have hm₁ : P m₁ :=
        forkAll_keeps hkeep (hpart i mem_cons_self) hm (hfirst.symm.trans hround)
      have hrest := ih (fun j hj => hpart j (mem_cons_of_mem _ hj))
        (fun j hj => hbody j (mem_cons_of_mem _ hj)) hm₁
      simpa [forEach, hround] using hrest

variable {owner : Frame → Option Role} {p : Ctx} {s : Phys} {m : Mem}

/-- A round of the outer loops.  `path` leads to the table `f`, and `pages` are the pages behind its
entry `i`; in `m` the tables are still those of `s`. -/
lemma forkEntry_eq_forkAll (path : List Index) (i : Index) {walkChild : Frame → Mem → Option Mem}
    (hlinked : Linked pageFormat roleNext owner s.tables) (hf : owner f = some (.own p path))
    (hwalk : walk pageFormat s.tables root path = some f)
    (hnext : roleNext (.own p path) i = some (.own p (path ++ [i])))
    (hlow : path = [] → i.val < 256) (hm : KeepsLower p owner s m.phys)
    (habsent : walk pageFormat s.tables root (path ++ [i]) = none → pages = [])
    (hchild : ∀ y, owner y = some (.own p (path ++ [i])) →
      walk pageFormat s.tables root (path ++ [i]) = some y →
      walkChild y m = forkAll kernel child pages m) :
    forkEntry walkChild f i m = forkAll kernel child pages m := by
  -- the loop reads the entry now, the list was made from it at the start
  have hentry : m.phys.tables f i = s.tables f i := hm f path i hf hlow
  rcases hlinked f _ i _ hf hnext with hempty | ⟨y, hlink, hy⟩
  · have hnone : walk pageFormat s.tables root (path ++ [i]) = none := by
      rw [walk_append, hwalk, bind_some, walk_cons_empty hempty]
    have hzero : m.phys.tables f i = 0#64 := hentry.trans hempty
    rw [habsent hnone]
    simp [forkEntry, hzero, forkAll]
  · have htable : m.phys.tables f i = tableEntry y := hentry.trans hlink
    rw [← hchild y hy (walk_snoc hlink hwalk)]
    simp [forkEntry, htable]

lemma forkPage_eq_forkAll {i j k l : Index} {pt : Frame}
    (hwalk : walk pageFormat s.tables root [i, j, k] = some pt)
    (hentry : m.phys.tables pt l = s.tables pt l) :
    forkPage kernel child (indiciesToAddr i j k l) (m.phys.tables pt l) m =
      forkAll kernel child (pagesAt s.tables root i j k l) m := by
  rw [pagesAt_of_walk hwalk, hentry]
  by_cases hpresent : present (s.tables pt l) = true
  · rw [if_pos hpresent]
    cases hfork : forkPage kernel child (indiciesToAddr i j k l) (s.tables pt l) m with
    | none => simp [forkAll, hfork]
    | some m₁ => simp [forkAll, hfork]
  · simp [forkPage, hpresent, forkAll]

/-- The nested table loops fork the pages the table leads to. -/
lemma forkTable_eq_forkAll (path : List Index) {walkChild : Index → Frame → Mem → Option Mem}
    (hlinked : Linked pageFormat roleNext owner s.tables)
    (hsame : ∀ m, P m → KeepsLower p owner s m.phys)
    (hkeep : ForkKeeps kernel child s.tables root P) (hf : owner f = some (.own p path))
    (hwalk : walk pageFormat s.tables root path = some f)
    (hnext : ∀ i ∈ indices, roleNext (.own p path) i = some (.own p (path ++ [i])))
    (hlow : path = [] → ∀ i ∈ indices, i.val < 256)
    (hpart : ∀ i ∈ indices, ∀ page ∈ part i, LowerPage s.tables root page)
    (habsent : ∀ i, walk pageFormat s.tables root (path ++ [i]) = none → part i = [])
    (hchild : ∀ i ∈ indices, ∀ y m, P m → owner y = some (.own p (path ++ [i])) →
      walk pageFormat s.tables root (path ++ [i]) = some y →
      walkChild i y m = forkAll kernel child (part i) m) (hm : P m) :
    forEach (fun i => forkEntry (walkChild i) f i) indices m =
      forkAll kernel child (indices.flatMap part) m := by
  refine forEach_eq_forkAll hkeep hpart ?_ hm
  intro i hi m hm
  exact forkEntry_eq_forkAll path i hlinked hf hwalk (hnext i hi) (fun hnil => hlow hnil i hi)
    (hsame m hm) (habsent i) (hchild i hi · m hm)

/-- The nested loops go through the pages that were there at the start. -/
lemma forkPages_eq (hlinked : Linked pageFormat roleNext owner s.tables)
    (hroot : owner root = some (.own p [])) (hsame : ∀ m, P m → KeepsLower p owner s m.phys)
    (hkeep : ForkKeeps kernel child s.tables root P) (hm : P m) :
    forkPages root kernel child m = forkAll kernel child (lowerPages s.tables root) m := by
  -- from the root down: pml4, pdpt, pd, and the pages of a page table
  refine forkTable_eq_forkAll [] hlinked hsame hkeep hroot rfl (fun i => roleNext_own_root)
    (fun _ i => mem_lowerHalf.1) ?_ ?_ ?_ hm
  · intro i hi page hpage
    simp only [mem_flatMap] at hpage
    rcases hpage with ⟨j, _, k, _, l, _, hpage⟩
    exact .of_pagesAt hi hpage
  · intro i hnone
    simp only [flatMap_eq_nil_iff]
    exact fun j _ k _ l _ => pagesAt_of_absent hnone rfl
  intro i hi pdpt m hm hpdpt hwalk
  refine forkTable_eq_forkAll [i] hlinked hsame hkeep hpdpt hwalk
    (fun j _ => roleNext_own_lower (by simp) (by simp)) (by simp) ?_ ?_ ?_ hm
  · intro j _ page hpage
    simp only [mem_flatMap] at hpage
    rcases hpage with ⟨k, _, l, _, hpage⟩
    exact .of_pagesAt hi hpage
  · intro j hnone
    simp only [flatMap_eq_nil_iff]
    exact fun k _ l _ => pagesAt_of_absent hnone rfl
  intro j _ pd m hm hpd hwalk
  refine forkTable_eq_forkAll [i, j] hlinked hsame hkeep hpd hwalk
    (fun k _ => roleNext_own_lower (by simp) (by simp)) (by simp) ?_ ?_ ?_ hm
  · intro k _ page hpage
    simp only [mem_flatMap] at hpage
    rcases hpage with ⟨l, _, hpage⟩
    exact .of_pagesAt hi hpage
  · intro k hnone
    simp only [flatMap_eq_nil_iff]
    exact fun l _ => pagesAt_of_absent hnone rfl
  intro k _ pt m hm hpt hwalk
  refine forEach_eq_forkAll hkeep (fun l _ page hpage => .of_pagesAt hi hpage) ?_ hm
  intro l _ m hm
  exact forkPage_eq_forkAll hwalk (hsame m hm pt _ l hpt (by simp))

end Flatten

/-! ## One page -/

/-- The rights of two entries: writable, user, global and no-execute. -/
def SameRights (entry entry' : BitVec 64) : Prop :=
  ∀ n ∈ [1, 2, 8, 63], entry'.getLsbD n = entry.getLsbD n

lemma forkFlags_getLsbD (entry : BitVec 64) :
    (forkFlags entry).getLsbD 0 = true ∧ (forkFlags entry).getLsbD 1 = entry.getLsbD 1 ∧
      (forkFlags entry).getLsbD 2 = entry.getLsbD 2 ∧
      (forkFlags entry).getLsbD 3 = entry.getLsbD 63 ∧
      (forkFlags entry).getLsbD 4 = entry.getLsbD 8 := by
  rw [forkFlags]
  -- only these four bits are read, so there are sixteen cases
  generalize entry.getLsbD 1 = w, entry.getLsbD 2 = u, entry.getLsbD 63 = x, entry.getLsbD 8 = g
  revert w u x g
  decide

lemma sameRights_pageEntry (phys entry : BitVec 64) :
    SameRights entry (pageEntry phys (forkFlags entry) .normal) := by
  rcases forkFlags_getLsbD entry with ⟨_, hw, hu, hx, hg⟩
  -- which bit of the entry comes from which bit of the flags
  have hbit : ∀ {n : Nat}, n < 64 → (pageEntry phys (forkFlags entry) .normal).getLsbD n =
      MapCall.entryBit ⟨phys, 0#64, forkFlags entry, .normal⟩ n :=
    fun hn => pageEntry_getLsbD ⟨phys, 0#64, forkFlags entry, .normal⟩ hn
  intro n hn
  have hcases : n = 1 ∨ n = 2 ∨ n = 8 ∨ n = 63 := by simpa using hn
  rcases hcases with rfl | rfl | rfl | rfl
  · rw [hbit (by decide), ← hw]
    rfl
  · rw [hbit (by decide), ← hu]
    rfl
  · rw [hbit (by decide), ← hg]
    rfl
  · rw [hbit (by decide), ← hx]
    rfl

/-- The pages of the window for the two frames are in the upper half. -/
def WindowsUpper (frame block : Frame) : Prop :=
  IsUpper (frame.1 + windowBase) ∧ IsUpper (block.1 + windowBase)

/-- What forking the page at `virt` does, for a kernel with the tables of context `k` and a child with
those of `d`.  `block` is the frame that the child gets. -/
structure PageForked (k d : Ctx) (child : Frame) (owner : Frame → Option Role) (m : Mem)
    (virt entry : BitVec 64) (block : Frame) (owner' : Frame → Option Role) (m' : Mem) : Prop where
  grows : Grows owner m.phys owner' m'.phys
  new : ¬ m.phys.Kept block
  held : block ∈ m'.phys.live
  plain : owner' block = none
  frames : m'.frames = m.frames ++ [block]
  content : m'.phys.tables block = m.phys.tables (getFrame entry)
  page : lookup m'.phys.tables child virt = some (pageEntry block.1 (forkFlags entry) .normal)
  rest : ∀ v, ¬ IsUpper v → pageOf v ≠ pageOf virt →
    lookup m'.phys.tables child v = lookup m.phys.tables child v
  lower : ∀ c, c ≠ d → (c = k → WindowsUpper (getFrame entry) block) →
    KeepsLower c owner m.phys m'.phys

section Page

variable {owner : Frame → Option Role} {m m' : Mem} {k d : Ctx} {kernel child : Frame}
  {virt entry : BitVec 64}

/-- The page is copied to a new block, mapped at the same address. -/
lemma forkPage_spec (htracks : m.phys.Tracks roleNext owner)
    (hkernel : owner kernel = some (.own k [])) (hchild : owner child = some (.own d []))
    (hkd : k ≠ d) (hpresent : present entry = true) (hkept : m.phys.Kept (getFrame entry))
    (hplain : owner (getFrame entry) = none) (h : forkPage kernel child virt entry m = some m') :
    ∃ block owner', PageForked k d child owner m virt entry block owner' m' := by
  rcases forkPage_cases hpresent h with ⟨block, s₁, s₂, s₃, s₄, halloc, hold, hnew, hmap, rfl⟩
  rcases htracks.alloc_data halloc with ⟨_, hnone, hlive₁, htables₁⟩
  have hunkept : ¬ m.phys.Kept block := fun hk => Phys.Draws.ne_of_alloc halloc hk rfl
  -- the block, the two pages of the window, the copy, and the page of the child
  have hgrows₁ := Grows.alloc htracks halloc
  rcases Grows.mapPage hgrows₁.tracks hkernel hold with ⟨owner₂, l₂, hgrows₂, hrole₂, hmapped₂⟩
  rcases Grows.mapPage hgrows₂.tracks (hgrows₂.ext.keeps _ _ hkernel) hnew with
    ⟨owner₃, l₃, hgrows₃, hrole₃, hmapped₃⟩
  have hwindows := hgrows₁.trans (hgrows₂.trans hgrows₃)
  have hplain₃ : owner₃ block = none := (hgrows₂.trans hgrows₃).plain (.inl hlive₁) hnone
  have hlive₃ : block ∈ s₃.live := (hgrows₂.trans hgrows₃).ext.outstanding hlive₁
  have hcopied := hwindows.fill hunkept hplain₃ (s₃.tables (getFrame entry))
  have hchild₃ := hcopied.ext.keeps _ _ hchild
  rcases Grows.mapPage hcopied.tracks hchild₃ hmap with ⟨owner₄, l₄, hgrows₄, hrole₄, hmapped₄⟩
  -- the window is all that is mapped outside the child
  have hlower : ∀ c, (c = k → WindowsUpper (getFrame entry) block) → KeepsLower c owner m.phys
      { s₃ with tables := Function.update s₃.tables block (s₃.tables (getFrame entry)) } := by
    intro c hwindow
    have hcases : ∀ w : BitVec 64, (c = k → IsUpper w) → c ≠ k ∨ IsUpper w := fun w hw =>
      (Classical.em (c = k)).elim (fun hck => .inr (hw hck)) .inl
    have h₁ : KeepsLower c owner m.phys s₁ := fun x _ q _ _ => by rw [htables₁]
    have h₂ : KeepsLower c owner s₁ s₂ :=
      hmapped₂.keepsLower hrole₂ (hcases _ fun hck => (hwindow hck).1)
    have h₃ : KeepsLower c owner₂ s₂ s₃ :=
      hmapped₃.keepsLower hrole₃ (hcases _ fun hck => (hwindow hck).2)
    refine (h₁.trans (fun _ _ hx => hx) (h₂.trans hgrows₂.ext.keeps h₃)).trans hwindows.ext.keeps ?_
    -- the copy goes to the block, which is no table
    intro x path q hx _
    exact congrFun (Function.update_of_ne (Linked.ne_of_owner hx hplain₃) _ _) q
  refine ⟨block, owner₄, hcopied.trans hgrows₄, hunkept, hgrows₄.ext.outstanding hlive₃,
    hgrows₄.plain (.inl hlive₃) hplain₃, rfl, ?_, ?_, ?_, ?_⟩
  -- mapping for the child does not touch the block, mapping the window not the source
  · calc
      s₄.tables block
          = Function.update s₃.tables block (s₃.tables (getFrame entry)) block :=
            hgrows₄.content (.inl hlive₃) hplain₃
      _ = s₃.tables (getFrame entry) := Function.update_self _ _ _
      _ = m.phys.tables (getFrame entry) := hwindows.content hkept hplain
  · exact hmapped₄.lookup_written (forkFlags_getLsbD entry).1
  · intro v hv hpage
    rw [hmapped₄.lookup_rest hrole₄ hchild₃ hv hpage]
    exact (hlower d fun hdk => absurd hdk.symm hkd).lookup htracks.linked hchild hv
  · intro c hcd hwindow
    exact (hlower c hwindow).trans hcopied.ext.keeps (hmapped₄.keepsLower hrole₄ (.inl hcd))

end Page

end SigmaOS.Proc.Process
