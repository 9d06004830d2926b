import SigmaOS.Arch.PagingRefine
import SigmaOS.Lib.TableTree

/-!
# Arch.SlPaging — second-level page tables of the IOMMU

`x86_64::sl_paging::context` translates the addresses that devices use.  Its tables have the shape
of those of the processor but other entries (bits 0 to 2 are read, write and execute, bits 12 to 51
the frame), and the number of levels, 3 to 5, is chosen when the context is made.

* `context`, `getLevelOrCreate` and `map` embed the constructor, the lambda of `map` and `map`
  itself, over the memory and frame allocator `Phys` of the processor's tables;
* `walkTables` and `translate` are what the hardware does with the tables: nine bits of the address
  for each level, from the root down, up to an entry without read permission.

The mapping of a new table into the kernel's window is left out: the window is the identity here.
-/

namespace SigmaOS.Arch.SlPaging

open Lib List Function Option Finset
open Arch.Paging

def setBit (entry : BitVec 64) (n : Nat) (value : Bool) : BitVec 64 :=
  if value then bitSet entry n else entry &&& ~~~(1#64 <<< n)

/-- `entry.addr = phys >> 12`, and `entry.frame = phys >> 12`: the field is bits 12 to 51. -/
def setAddr (entry phys : BitVec 64) : BitVec 64 :=
  (entry &&& ~~~frameMask) ||| (phys &&& frameMask)

def readable (entry : BitVec 64) : Bool := entry.getLsbD 0

/-! ## Contexts -/

structure Context where
  level : Nat
  physRoot : Frame

def createTable (s : Phys) : Option (Frame × Phys) :=
  match s.alloc with
  | none => none
  | some (phys, s) => some (phys, s.clear phys)

def context (level : Nat) (s : Phys) : Option (Context × Phys) :=
  if level ≤ 5 ∧ level ≥ 3 then
    match createTable s with
    | none => none
    | some (phys, s) => some ({ level := level, physRoot := phys }, s)
  else
    none

def pml5Index : BitVec 64 → Index := tableIndex 48

def pml4Index : BitVec 64 → Index := tableIndex 39

def pml3Index : BitVec 64 → Index := tableIndex 30

def pml2Index : BitVec 64 → Index := tableIndex 21

def pml1Index : BitVec 64 → Index := tableIndex 12

/-- The table behind an entry, created when the entry is not readable.  The entry is a reference:
it is looked at again after the new table was cleared. -/
def getLevelOrCreate (previous : Frame) (index : Index) (s : Phys) : Option (Frame × Phys) :=
  let entry := s.tables previous index
  let s := s.touch previous
  if readable entry then
    some (getFrame entry, s)
  else
    match createTable s with
    | none => none
    | some (phys, s) =>
      let entry := setBit (setBit (setAddr (s.tables previous index) phys.1) 0 true) 1 true
      some (getFrame entry, s.write previous index entry)

/-- What `map` makes of the entry of the page; `mapSlPageRead`, `mapSlPageWrite` and
`mapSlPageExecute` are bits 0 to 2 of `flags`. -/
def setLeaf (entry pa flags : BitVec 64) : BitVec 64 :=
  let entry := setBit entry 0 (flags.getLsbD 0)
  let entry := setBit entry 1 (flags.getLsbD 1)
  let entry := setBit entry 2 (flags.getLsbD 2)
  setAddr entry pa

def map (c : Context) (pa iova flags : BitVec 64) (s : Phys) : Option Phys := do
  let (current, s) ←
    if c.level ≥ 5 then getLevelOrCreate c.physRoot (pml5Index iova) s else some (c.physRoot, s)
  let (current, s) ←
    if c.level ≥ 4 then getLevelOrCreate current (pml4Index iova) s else some (current, s)
  let (current, s) ← getLevelOrCreate current (pml3Index iova) s
  let (current, s) ← getLevelOrCreate current (pml2Index iova) s
  some (s.write current (pml1Index iova) (setLeaf (s.tables current (pml1Index iova)) pa flags))

/-! ## The hardware -/

/-- The entry of the last level for an address, when the entries above it are readable. -/
def walkTables (m : Tables Frame Index (BitVec 64)) : Nat → Frame → BitVec 64 → Option (BitVec 64)
  | 0, _, _ => none
  | 1, f, iova => some (m f (tableIndex 12 iova))
  | level + 2, f, iova =>
    let entry := m f (tableIndex (12 + 9 * (level + 1)) iova)
    if readable entry then walkTables m (level + 1) (getFrame entry) iova else none

structure Leaf where
  frame : Nat
  r : Bool
  w : Bool
  x : Bool
  deriving DecidableEq, Repr

def leafOf (entry : BitVec 64) : Leaf :=
  { frame := (entry.extractLsb' 12 40).toNat
    r := entry.getLsbD 0
    w := entry.getLsbD 1
    x := entry.getLsbD 2 }

def translate (m : Tables Frame Index (BitVec 64)) (level : Nat) (root : Frame) (iova : BitVec 64) :
    Option Leaf :=
  match walkTables m level root iova with
  | none => none
  | some entry => if readable entry then some (leafOf entry) else none

section Bits

variable (entry phys flags : BitVec 64) {n : Nat}

lemma setBit_getLsbD {k : Nat} (value : Bool) (hk : k < 64) (hn : n < 64) :
    (setBit entry k value).getLsbD n = if n = k then value else entry.getLsbD n := by
  have hpow : 1#64 <<< k = BitVec.twoPow 64 k := rfl
  cases value with
  | false =>
    by_cases hnk : n = k
    · simp [setBit, hpow, hnk, hk]
    · simp [setBit, hpow, hnk, hn]
  | true =>
    rw [setBit, if_pos rfl, bitSet_getLsbD entry hk]
    by_cases hnk : n = k
    · simp [hnk]
    · simp [hnk]

lemma setAddr_getLsbD (hn : n < 64) :
    (setAddr entry phys).getLsbD n =
      if 12 ≤ n ∧ n < 52 then phys.getLsbD n else entry.getLsbD n := by
  rw [setAddr, BitVec.getLsbD_or, BitVec.getLsbD_and, BitVec.getLsbD_and, BitVec.getLsbD_not,
    frameMask_getLsbD hn]
  by_cases hframe : 12 ≤ n ∧ n < 52
  · simp [hframe]
  · simp [hframe, hn]

lemma setLeaf_getLsbD (hn : n < 64) :
    (setLeaf entry phys flags).getLsbD n =
      if 12 ≤ n ∧ n < 52 then phys.getLsbD n
      else if n < 3 then flags.getLsbD n else entry.getLsbD n := by
  rw [setLeaf, setAddr_getLsbD _ _ hn]
  by_cases hframe : 12 ≤ n ∧ n < 52
  · simp [hframe]
  · rw [if_neg hframe, if_neg hframe, setBit_getLsbD _ _ (by decide) hn,
      setBit_getLsbD _ _ (by decide) hn, setBit_getLsbD _ _ (by decide) hn]
    by_cases hlow : n < 3
    · have hcases : n = 0 ∨ n = 1 ∨ n = 2 := by omega
      rcases hcases with rfl | rfl | rfl
      · simp
      · simp
      · simp
    · have hother : n ≠ 0 ∧ n ≠ 1 ∧ n ≠ 2 := by omega
      simp [hlow, hother]

lemma setLeaf_setLeaf (phys' flags' : BitVec 64) :
    setLeaf (setLeaf entry phys flags) phys' flags' = setLeaf entry phys' flags' := by
  refine BitVec.eq_of_getLsbD_eq ?_
  intro n hn
  rw [setLeaf_getLsbD _ _ _ hn, setLeaf_getLsbD _ _ _ hn, setLeaf_getLsbD _ _ _ hn]
  by_cases hframe : 12 ≤ n ∧ n < 52
  · simp [hframe]
  · by_cases hlow : n < 3
    · simp [hframe, hlow]
    · simp [hframe, hlow]

lemma leafOf_setLeaf :
    leafOf (setLeaf entry phys flags) =
      { frame := (phys.extractLsb' 12 40).toNat, r := flags.getLsbD 0, w := flags.getLsbD 1,
        x := flags.getLsbD 2 } := by
  have hframe : (setLeaf entry phys flags).extractLsb' 12 40 = phys.extractLsb' 12 40 := by
    refine BitVec.eq_of_getLsbD_eq ?_
    intro n hn
    rw [BitVec.getLsbD_extractLsb', BitVec.getLsbD_extractLsb',
      setLeaf_getLsbD _ _ _ (by omega : 12 + n < 64), if_pos (by omega)]
  rw [leafOf, hframe, setLeaf_getLsbD _ _ _ (by decide), setLeaf_getLsbD _ _ _ (by decide),
    setLeaf_getLsbD _ _ _ (by decide)]
  rfl

end Bits

def linkEntry (table : Frame) : BitVec 64 :=
  setBit (setBit (setAddr 0#64 table.1) 0 true) 1 true

lemma linkEntry_getLsbD (table : Frame) {n : Nat} (hn : n < 64) :
    (linkEntry table).getLsbD n =
      if n < 2 then true else if 12 ≤ n ∧ n < 52 then table.1.getLsbD n else false := by
  rw [linkEntry, setBit_getLsbD _ _ (by decide) hn, setBit_getLsbD _ _ (by decide) hn,
    setAddr_getLsbD _ _ hn, BitVec.getLsbD_zero]
  by_cases hlow : n < 2
  · have hcases : n = 0 ∨ n = 1 := by omega
    rcases hcases with rfl | rfl
    · simp
    · simp
  · have hother : n ≠ 0 ∧ n ≠ 1 := by omega
    simp [hlow, hother]

@[simp] lemma readable_linkEntry (table : Frame) : readable (linkEntry table) = true := by
  rw [readable, linkEntry_getLsbD table (by decide)]
  rfl

@[simp] lemma readable_zero : readable 0#64 = false :=
  rfl

@[simp] lemma getFrame_linkEntry (table : Frame) : getFrame (linkEntry table) = table := by
  refine Subtype.ext ?_
  show linkEntry table &&& frameMask = table.1
  refine BitVec.eq_of_getLsbD_eq ?_
  intro n hn
  rw [← table.2, BitVec.getLsbD_and, BitVec.getLsbD_and, frameMask_getLsbD hn,
    linkEntry_getLsbD table hn]
  by_cases hframe : 12 ≤ n ∧ n < 52
  · have hlow : ¬ n < 2 := by omega
    simp [hframe, hlow]
  · simp [hframe]

def slFormat : LinkFormat Frame (BitVec 64) where
  empty := 0#64
  link := linkEntry
  child := fun entry => if readable entry then some (getFrame entry) else none
  child_empty := by simp
  child_link := by simp

/-! ## The way of an address -/

/-- The indices from the root of a context down to the last table, with `above` levels above it. -/
def tablePath : Nat → BitVec 64 → List Index
  | 0, _ => []
  | above + 1, iova => tableIndex (12 + 9 * (above + 1)) iova :: tablePath above iova

@[simp] lemma tablePath_length (above : Nat) (iova : BitVec 64) :
    (tablePath above iova).length = above := by
  induction above with
  | zero => rfl
  | succ above ih => simp [tablePath, ih]

def pageOf (iova : BitVec 64) : Nat := iova.toNat / 2 ^ 12

lemma mod_mul_eq_iff {x y a b : Nat} :
    x % (a * b) = y % (a * b) ↔ x / a % b = y / a % b ∧ x % a = y % a := by
  constructor
  · intro h
    refine ⟨?_, ?_⟩
    · rw [← Nat.mod_mul_right_div_self, ← Nat.mod_mul_right_div_self, h]
    · rw [← Nat.mod_mul_right_mod x a b, ← Nat.mod_mul_right_mod y a b, h]
  · rintro ⟨hdiv, hmod⟩
    rw [Nat.mod_mul, Nat.mod_mul, hdiv, hmod]

/-- Two addresses share path and leaf slot iff they share the covered page bits. -/
lemma tablePath_eq_iff {v w : BitVec 64} (above : Nat) :
    (tablePath above v = tablePath above w ∧ pml1Index v = pml1Index w) ↔
      pageOf v % 2 ^ (9 * (above + 1)) = pageOf w % 2 ^ (9 * (above + 1)) := by
  induction above with
  | zero => simp [tablePath, pml1Index, Fin.ext_iff, tableIndex_val, pageOf]
  | succ above ih =>
    have hshift : ∀ u : BitVec 64, u.toNat / 2 ^ (12 + 9 * (above + 1)) =
        pageOf u / 2 ^ (9 * (above + 1)) := by
      intro u
      rw [pageOf, Nat.div_div_eq_div_mul, Nat.pow_add]
    have hsize : 2 ^ (9 * (above + 1 + 1)) = 2 ^ (9 * (above + 1)) * 512 := by
      rw [Nat.mul_succ 9 (above + 1), Nat.pow_add]
    rw [hsize, mod_mul_eq_iff, ← ih, ← hshift, ← hshift, ← tableIndex_val,
      ← tableIndex_val, ← Fin.ext_iff]
    simp [tablePath, and_assoc]

/-- Addresses that a context with `level` levels translates. -/
def InRange (level : Nat) (iova : BitVec 64) : Prop :=
  iova.toNat < 2 ^ (12 + 9 * level)

instance decidableInRange (level : Nat) (iova : BitVec 64) : Decidable (InRange level iova) :=
  inferInstanceAs (Decidable (_ < _))

lemma tablePath_eq_iff_of_inRange {v w : BitVec 64} {above : Nat} (hv : InRange (above + 1) v)
    (hw : InRange (above + 1) w) :
    (tablePath above v = tablePath above w ∧ pml1Index v = pml1Index w) ↔ pageOf v = pageOf w := by
  have hlt : ∀ u : BitVec 64, InRange (above + 1) u → pageOf u < 2 ^ (9 * (above + 1)) := by
    intro u hu
    refine Nat.div_lt_of_lt_mul ?_
    rw [← Nat.pow_add]
    exact hu
  rw [tablePath_eq_iff, Nat.mod_eq_of_lt (hlt v hv), Nat.mod_eq_of_lt (hlt w hw)]

lemma walkTables_eq (m : Tables Frame Index (BitVec 64)) (above : Nat) (f : Frame)
    (iova : BitVec 64) :
    walkTables m (above + 1) f iova =
      (walk slFormat m f (tablePath above iova)).map fun g => m g (pml1Index iova) := by
  induction above generalizing f with
  | zero => rfl
  | succ above ih =>
    rw [walkTables, tablePath, walk]
    by_cases hr : readable (m f (tableIndex (12 + 9 * (above + 1)) iova)) = true
    · simpa [slFormat, hr] using ih _
    · simp [slFormat, hr]

lemma translate_eq (m : Tables Frame Index (BitVec 64)) (above : Nat) (root : Frame)
    (iova : BitVec 64) :
    translate m (above + 1) root iova =
      let entry := readAt slFormat m root (tablePath above iova) (pml1Index iova)
      if readable entry then some (leafOf entry) else none := by
  rw [translate, walkTables_eq]
  cases hwalk : walk slFormat m root (tablePath above iova) with
  | none =>
    rw [readAt_of_none hwalk]
    rfl
  | some g =>
    rw [readAt_of_walk hwalk]
    rfl

/-! ## Tracked memory -/

/-- The frames that are outstanding are those of others, `others`, and the tables of the context. -/
structure Tracks (c : Context) (others : Finset Frame) (owner : Frame → Option (List Index))
    (s : Phys) : Prop where
  tree : Tree slFormat (c.level - 1) c.physRoot owner s.tables
  live : ∀ f, f ∈ s.live ↔ f ∈ others ∨ ∃ path, owner f = some path
  apart : ∀ f path, owner f = some path → f ∉ others
  clean : s.misuse = false

section Tracks

variable {c : Context} {others : Finset Frame} {owner : Frame → Option (List Index)} {s s' : Phys}
  {f g : Frame} {path : List Index} {i : Index}

lemma Tracks.touch (h : Tracks c others owner s) (hf : owner f = some path) : s.touch f = s :=
  Phys.touch_of_live ((h.live f).2 (.inr ⟨path, hf⟩))

/-- A new table is a frame not in use, blanked and marked live. -/
lemma createTable_cases (h : createTable s = some (g, s')) :
    g ∉ s.live ∧ s'.tables = s.tables.blank slFormat g ∧ s'.live = insert g s.live ∧
      s'.misuse = s.misuse := by
  unfold createTable at h
  split at h
  · cases h
  next g s₁ ha =>
  cases h
  rcases Phys.alloc_cases ha with ⟨hfresh, htables, hlive, hmisuse⟩
  have hin : g ∈ s₁.live := by
    rw [hlive]
    exact mem_insert_self g s.live
  refine ⟨hfresh, ?_, hlive, ?_⟩
  · simp [Phys.clear, htables, Tables.blank, slFormat]
  · show (s₁.touch g).misuse = s.misuse
    rw [Phys.touch_of_live hin, hmisuse]

lemma Tracks.owner_none (h : Tracks c others owner s) (hg : g ∉ s.live) : owner g = none := by
  cases ho : owner g with
  | none => rfl
  | some path => exact absurd ((h.live g).2 (.inr ⟨path, ho⟩)) hg

/-- An empty frame is attached below a table. -/
lemma Tracks.attach (h : Tracks c others owner s) (hf : owner f = some path)
    (hlen : path.length < c.level - 1) (hempty : s.tables f i = 0#64) (hg : g ∉ s.live)
    (htables : s'.tables = s.tables.attach slFormat f i g) (hlive : s'.live = insert g s.live)
    (hmisuse : s'.misuse = s.misuse) :
    Tracks c others (Function.update owner g (some (path ++ [i]))) s' := by
  have hnone := h.owner_none hg
  refine ⟨?_, ?_, ?_, hmisuse.trans h.clean⟩
  · rw [htables]
    exact h.tree.attach hf hlen hempty hnone
  · intro x
    rw [hlive, mem_insert, h.live x]
    by_cases hxg : x = g
    · subst hxg
      simp
    · simp [hxg]
  · intro x l hx hother
    by_cases hxg : x = g
    · exact hg ((h.live g).2 (.inl (hxg ▸ hother)))
    · rw [update_of_ne hxg] at hx
      exact h.apart x l hx hother

/-- What getting down to tables of the context may change: there are more of them, and no page is
another one. -/
structure Descends (c : Context) (others : Finset Frame) (owner owner' : Frame → Option (List Index))
    (s s' : Phys) : Prop where
  tracks : Tracks c others owner' s'
  keeps : ∀ x l, owner x = some l → owner' x = some l
  reads : ∀ rest j, rest.length = c.level - 1 →
    readAt slFormat s'.tables c.physRoot rest j = readAt slFormat s.tables c.physRoot rest j

/-- The table is there already, or is made. -/
lemma getLevelOrCreate_spec (h : Tracks c others owner s) (hf : owner f = some path)
    (hlen : path.length < c.level - 1) (he : getLevelOrCreate f i s = some (g, s')) :
    ∃ owner', Descends c others owner owner' s s' ∧ owner' g = some (path ++ [i]) := by
  have htouch := h.touch hf
  rcases h.tree.linked f path i _ hf (treeNext_of_lt hlen) with hempty | ⟨x, hlink, hx⟩
  · have hzero : s.tables f i = 0#64 := hempty
    simp [getLevelOrCreate, htouch, hzero] at he
    split at he
    · cases he
    next y s₁ hc =>
    rcases createTable_cases hc with ⟨hfresh, htables, hlive, hmisuse⟩
    have hnone := h.owner_none hfresh
    have hfy := Linked.ne_of_owner hf hnone
    have hentry : s₁.tables f i = 0#64 := by rw [htables, Tables.blank_of_ne hfy, hzero]
    have hpair : y = g ∧ s₁.write f i (linkEntry y) = s' := by
      have hlinked : setBit (setBit (setAddr 0#64 y.1) 0 true) 1 true = linkEntry y := rfl
      simpa [hentry, hlinked] using he
    rcases hpair with ⟨rfl, rfl⟩
    have hin : f ∈ s₁.live := by
      rw [hlive]
      exact mem_insert_of_mem ((h.live f).2 (.inr ⟨path, hf⟩))
    have hattach : (s₁.write f i (linkEntry y)).tables = s.tables.attach slFormat f i y := by
      show s₁.tables.set f i (linkEntry y) = _
      rw [htables]
      rfl
    have hclean : (s₁.write f i (linkEntry y)).misuse = s.misuse := by
      show (s₁.touch f).misuse = s.misuse
      rw [Phys.touch_of_live hin, hmisuse]
    refine ⟨_, ⟨h.attach hf hlen hzero hfresh hattach hlive hclean, ?_, ?_⟩,
      update_self _ _ _⟩
    · intro x l hx
      rwa [update_of_ne (Linked.ne_of_owner hx hnone)]
    · intro rest j hrest
      rw [hattach]
      exact h.tree.readAt_attach hf hlen hzero hnone hrest
  · have hentry : s.tables f i = linkEntry x := hlink
    have hpair : x = g ∧ s = s' := by simpa [getLevelOrCreate, htouch, hentry] using he
    rcases hpair with ⟨rfl, rfl⟩
    exact ⟨owner, ⟨h, fun _ _ hy => hy, fun _ _ _ => rfl⟩, hx⟩

def descend : List Index → Frame × Phys → Option (Frame × Phys)
  | [], here => some here
  | i :: rest, (f, s) => getLevelOrCreate f i s >>= descend rest

/-- The whole descent of `map`. -/
lemma descend_spec {rest : List Index} (h : Tracks c others owner s) (hf : owner f = some path)
    (hlen : path.length + rest.length ≤ c.level - 1) (hd : descend rest (f, s) = some (g, s')) :
    ∃ owner', Descends c others owner owner' s s' ∧ owner' g = some (path ++ rest) := by
  induction rest generalizing f s owner path with
  | nil =>
    have hpair : f = g ∧ s = s' := by simpa [descend] using hd
    rcases hpair with ⟨rfl, rfl⟩
    exact ⟨owner, ⟨h, fun _ _ hy => hy, fun _ _ _ => rfl⟩, by simpa using hf⟩
  | cons i rest ih =>
    rw [length_cons] at hlen
    rcases bind_eq_some_iff.1 hd with ⟨⟨x, s₁⟩, hstep, hrest⟩
    have hlt : path.length < c.level - 1 := by omega
    rcases getLevelOrCreate_spec h hf hlt hstep with ⟨owner₁, hfirst, hx⟩
    have hlen' : (path ++ [i]).length + rest.length ≤ c.level - 1 := by
      rw [length_append, length_singleton]
      omega
    rcases ih hfirst.tracks hx hlen' hrest with ⟨owner₂, hsecond, hg⟩
    refine ⟨owner₂, ⟨hsecond.tracks, ?_, ?_⟩, by simpa using hg⟩
    · intro y l hy
      exact hsecond.keeps y l (hfirst.keeps y l hy)
    · intro path' j hpath'
      rw [hsecond.reads path' j hpath', hfirst.reads path' j hpath']

/-- `map` descends to the last table and writes one leaf there. -/
lemma map_eq {pa iova flags : BitVec 64} (hlevel : c.level ≤ 5 ∧ c.level ≥ 3) :
    map c pa iova flags s =
      (descend (tablePath (c.level - 1) iova) (c.physRoot, s)).map fun out =>
        out.2.write out.1 (pml1Index iova)
          (setLeaf (out.2.tables out.1 (pml1Index iova)) pa flags) := by
  rcases c with ⟨level, root⟩
  have hrange : level ≤ 5 ∧ level ≥ 3 := hlevel
  have hcases : level = 3 ∨ level = 4 ∨ level = 5 := by omega
  rcases hcases with rfl | rfl | rfl
  · simp [map, descend, tablePath, map_eq_bind, bind_assoc, pml3Index, pml2Index]
  · simp [map, descend, tablePath, map_eq_bind, bind_assoc, pml4Index, pml3Index,
      pml2Index]
  · simp [map, descend, tablePath, map_eq_bind, bind_assoc, pml5Index, pml4Index,
      pml3Index, pml2Index]

/-- What `map` does to the pages: the entry of one of them is written, in a table of the context. -/
structure Maps (c : Context) (others : Finset Frame) (owner owner' : Frame → Option (List Index))
    (pa iova flags : BitVec 64) (s s' : Phys) : Prop where
  tracks : Tracks c others owner' s'
  keeps : ∀ x l, owner x = some l → owner' x = some l
  table : ∃ g, owner' g = some (tablePath (c.level - 1) iova)
  written : readAt slFormat s'.tables c.physRoot (tablePath (c.level - 1) iova) (pml1Index iova) =
    setLeaf (readAt slFormat s.tables c.physRoot (tablePath (c.level - 1) iova) (pml1Index iova))
      pa flags
  reads : ∀ rest j, rest.length = c.level - 1 →
    ¬ (rest = tablePath (c.level - 1) iova ∧ j = pml1Index iova) →
    readAt slFormat s'.tables c.physRoot rest j = readAt slFormat s.tables c.physRoot rest j

/-- What a call of `map` leaves. -/
lemma map_spec {pa iova flags : BitVec 64} (hlevel : c.level ≤ 5 ∧ c.level ≥ 3)
    (h : Tracks c others owner s) (hm : map c pa iova flags s = some s') :
    ∃ owner', Maps c others owner owner' pa iova flags s s' := by
  rw [map_eq hlevel] at hm
  rcases map_eq_some_iff.1 hm with ⟨⟨g, s₁⟩, hd, rfl⟩
  have hpath := tablePath_length (c.level - 1) iova
  have hlen : ([] : List Index).length + (tablePath (c.level - 1) iova).length ≤ c.level - 1 := by
    simp
  rcases descend_spec h h.tree.root_role hlen hd with ⟨owner', hdown, hg⟩
  have htree := hdown.tracks.tree
  rw [nil_append] at hg
  have hbefore : s₁.tables g (pml1Index iova) =
      readAt slFormat s.tables c.physRoot (tablePath (c.level - 1) iova) (pml1Index iova) := by
    rw [← hdown.reads _ _ hpath, readAt_of_walk (htree.reach g _ hg)]
  refine ⟨owner', ⟨htree.set_data hg hpath, hdown.tracks.live, hdown.tracks.apart, ?_⟩,
    hdown.keeps, ⟨g, hg⟩, ?_, ?_⟩
  · show (s₁.touch g).misuse = false
    rw [hdown.tracks.touch hg, hdown.tracks.clean]
  · rw [← hbefore]
    exact htree.readAt_set_same hg hpath
  · intro rest j hrest hother
    rw [← hdown.reads rest j hrest]
    exact htree.readAt_set_other hg hpath hrest fun hr hj => hother ⟨hr, hj⟩

lemma context_cases {level : Nat} (h : context level s = some (c, s')) :
    c.level = level ∧ (level ≤ 5 ∧ level ≥ 3) ∧ createTable s = some (c.physRoot, s') := by
  unfold context at h
  split at h
  · next hlevel =>
    split at h
    · cases h
    next hc =>
    cases h
    exact ⟨rfl, hlevel, hc⟩
  · cases h

/-- A new context has an empty root and nothing else. -/
lemma context_tracks {level : Nat} (h : context level s = some (c, s'))
    (hclean : s.misuse = false) :
    c.level = level ∧ (level ≤ 5 ∧ level ≥ 3) ∧ (∃ owner, Tracks c s.live owner s') ∧
      ∀ rest j, readAt slFormat s'.tables c.physRoot rest j = 0#64 := by
  rcases context_cases h with ⟨hc, hlevel, hroot⟩
  rcases createTable_cases hroot with ⟨hfresh, htables, hlive, hmisuse⟩
  have hblank : ∀ p, s'.tables c.physRoot p = slFormat.empty := by
    intro p
    rw [htables]
    exact Tables.blank_same
  refine ⟨hc, hlevel, ⟨_, Tree.single hblank, ?_, ?_, hmisuse.trans hclean⟩, ?_⟩
  · intro f
    rw [hlive, mem_insert]
    by_cases hf : f = c.physRoot
    · simp [hf]
    · simp [hf]
  · intro f path hf hother
    by_cases hfr : f = c.physRoot
    · exact hfresh (hfr ▸ hother)
    · rw [update_of_ne hfr] at hf
      exact absurd hf (by simp)
  · intro rest j
    exact readAt_blank hblank

end Tracks

/-! ## Sequences of calls -/

structure MapCall where
  pa : BitVec 64
  iova : BitVec 64
  flags : BitVec 64

def MapCall.leaf (call : MapCall) : Leaf :=
  { frame := call.pa.toNat / 2 ^ 12
    r := call.flags.getLsbD 0
    w := call.flags.getLsbD 1
    x := call.flags.getLsbD 2 }

/-- The memory of a context with the calls made on it, the newest first. -/
structure Space where
  phys : Phys
  calls : List MapCall

/-- Calls that are looked at: the address is one of the context's, the frame one of memory. -/
def Mappable (level : Nat) (_ : Space) (call : MapCall) : Prop :=
  InRange level call.iova ∧ call.pa.toNat < 2 ^ 52

instance decidableMappable (level : Nat) (sp : Space) (call : MapCall) :
    Decidable (Mappable level sp call) :=
  inferInstanceAs (Decidable (_ ∧ _))

namespace Space

variable {c : Context} {others : Finset Frame} {sp sp' : Space} {call : MapCall}

def step (c : Context) (sp : Space) (call : MapCall) : Option Space :=
  match map c call.pa call.iova call.flags sp.phys with
  | none => none
  | some s => some ⟨s, call :: sp.calls⟩

def last (sp : Space) (iova : BitVec 64) : Option MapCall :=
  sp.calls.find? fun call => pageOf call.iova = pageOf iova

/-- What is stored for a page: the fields of the last call, or nothing. -/
def stored (sp : Space) (iova : BitVec 64) : BitVec 64 :=
  match sp.last iova with
  | none => 0#64
  | some call => setLeaf 0#64 call.pa call.flags

/-- The tables hold, for every page, what the last call asked for. -/
structure Refines (c : Context) (others : Finset Frame) (sp : Space) : Prop where
  tracked : ∃ owner, Tracks c others owner sp.phys ∧
    ∀ call ∈ sp.calls, ∃ f, owner f = some (tablePath (c.level - 1) call.iova)
  asked : ∀ call ∈ sp.calls, InRange c.level call.iova ∧ call.pa.toNat < 2 ^ 52
  pages : ∀ iova, InRange c.level iova →
    readAt slFormat sp.phys.tables c.physRoot (tablePath (c.level - 1) iova) (pml1Index iova) =
      sp.stored iova

lemma step_cases (h : sp.step c call = some sp') :
    map c call.pa call.iova call.flags sp.phys = some sp'.phys ∧
      sp'.calls = call :: sp.calls := by
  unfold step at h
  split at h
  · cases h
  next hm =>
  cases h
  exact ⟨hm, rfl⟩

variable {iova : BitVec 64} {level : Nat}

lemma stored_same (hcalls : sp'.calls = call :: sp.calls)
    (hpage : pageOf call.iova = pageOf iova) : sp'.stored iova = setLeaf 0#64 call.pa call.flags := by
  simp [stored, last, hcalls, hpage]

lemma stored_other (hcalls : sp'.calls = call :: sp.calls)
    (hpage : pageOf call.iova ≠ pageOf iova) : sp'.stored iova = sp.stored iova := by
  simp [stored, last, hcalls, hpage]

lemma setLeaf_stored (sp : Space) (iova pa flags : BitVec 64) :
    setLeaf (sp.stored iova) pa flags = setLeaf 0#64 pa flags := by
  cases hlast : sp.last iova with
  | none => simp [stored, hlast]
  | some before => simp [stored, hlast, setLeaf_setLeaf]

/-- One call of `map` keeps the refinement. -/
lemma Refines.step (hlevel : c.level ≤ 5 ∧ c.level ≥ 3) (h : sp.Refines c others)
    (hok : Mappable c.level sp call) (hs : sp.step c call = some sp') : sp'.Refines c others := by
  rcases step_cases hs with ⟨hmap, hcalls⟩
  rcases h.tracked with ⟨owner, htracks, htable⟩
  rcases map_spec hlevel htracks hmap with ⟨owner', hmaps⟩
  have habove : c.level = c.level - 1 + 1 := by omega
  refine ⟨⟨owner', hmaps.tracks, ?_⟩, ?_, ?_⟩
  · intro x hx
    rw [hcalls] at hx
    rcases mem_cons.1 hx with rfl | hx
    · exact hmaps.table
    · rcases htable x hx with ⟨f, hf⟩
      exact ⟨f, hmaps.keeps f _ hf⟩
  · intro x hx
    rw [hcalls] at hx
    rcases mem_cons.1 hx with rfl | hx
    · exact hok
    · exact h.asked x hx
  · intro iova hiova
    have hsame : (tablePath (c.level - 1) iova = tablePath (c.level - 1) call.iova ∧
        pml1Index iova = pml1Index call.iova) ↔ pageOf iova = pageOf call.iova :=
      tablePath_eq_iff_of_inRange (habove ▸ hiova) (habove ▸ hok.1)
    by_cases hpage : pageOf call.iova = pageOf iova
    · rcases hsame.2 hpage.symm with ⟨hpath, hindex⟩
      rw [stored_same hcalls hpage, hpath, hindex, hmaps.written, h.pages call.iova hok.1,
        setLeaf_stored]
    · rw [stored_other hcalls hpage, ← h.pages iova hiova]
      exact hmaps.reads _ _ (tablePath_length _ _) fun hboth => hpage (hsame.1 hboth).symm

lemma context_refines {s s' : Phys} (h : context level s = some (c, s'))
    (hclean : s.misuse = false) :
    c.level = level ∧ (level ≤ 5 ∧ level ≥ 3) ∧ Refines c s.live ⟨s', []⟩ := by
  rcases context_tracks h hclean with ⟨rfl, hlevel, htracks, hblank⟩
  rcases htracks with ⟨owner, htracks⟩
  exact ⟨rfl, hlevel, ⟨owner, htracks, nofun⟩,
    nofun, fun _ _ => hblank _ _⟩

lemma run_refines {s s' : Phys} (h : context level s = some (c, s'))
    (hclean : s.misuse = false) (hrun : Run (Space.step c) (Mappable level) ⟨s', []⟩ sp) :
    c.level = level ∧ (level ≤ 5 ∧ level ≥ 3) ∧ sp.Refines c s.live := by
  rcases context_refines h hclean with ⟨rfl, hlevel, hstart⟩
  exact ⟨rfl, hlevel, hrun.invariant hstart fun t a u ht hok hs => ht.step hlevel hok hs⟩

lemma Refines.leafOf_stored (h : sp.Refines c others)
    (hlast : sp.last iova = some call) : leafOf (sp.stored iova) = call.leaf := by
  have hpa := (h.asked call (mem_of_find?_eq_some hlast)).2
  have hframe : (call.pa.extractLsb' 12 40).toNat = call.pa.toNat / 2 ^ 12 := by
    rw [BitVec.extractLsb'_toNat, Nat.shiftRight_eq_div_pow]
    exact Nat.mod_eq_of_lt (by omega)
  rw [stored, hlast, leafOf_setLeaf, hframe]
  rfl

end Space

/-- After any sequence of `map` calls on a new context of three to five levels, the hardware
translates every address by the last call for its page, and not at all where there was none or it did
not ask for read permission.  The entry where the walk for a mapped page ends has the frame and the
three permissions of that call in any case. -/
theorem sl_tables_refine_map {level : Nat} {s s' : Phys} {c : Context} {sp : Space}
    (hnew : context level s = some (c, s')) (hclean : s.misuse = false)
    (hrun : Run (Space.step c) (Mappable level) ⟨s', []⟩ sp) :
    (∀ iova, InRange level iova →
      translate sp.phys.tables level c.physRoot iova =
        match sp.last iova with
        | none => none
        | some call => if call.leaf.r then some call.leaf else none) ∧
      (∀ iova, InRange level iova → ∀ call, sp.last iova = some call →
        ∃ entry, walkTables sp.phys.tables level c.physRoot iova = some entry ∧
          leafOf entry = call.leaf) ∧
      sp.phys.misuse = false := by
  rcases Space.run_refines hnew hclean hrun with ⟨rfl, hlevel, href⟩
  rcases href.tracked with ⟨owner, htracks, htable⟩
  have habove : c.level = c.level - 1 + 1 := by omega
  refine ⟨?_, ?_, htracks.clean⟩
  · intro iova hiova
    rw [habove, translate_eq, href.pages iova hiova]
    cases hlast : sp.last iova with
    | none => simp [Space.stored, hlast]
    | some call =>
      have hleaf := href.leafOf_stored hlast
      have hread : readable (sp.stored iova) = call.leaf.r := congrArg Leaf.r hleaf
      simp only [hread, hleaf]
  · intro iova hiova call hlast
    -- the page was mapped, so its tables are there
    have hmem := List.mem_of_find?_eq_some hlast
    have hpage : pageOf call.iova = pageOf iova := by simpa using List.find?_some hlast
    have hcall := (href.asked call hmem).1
    rcases htable call hmem with ⟨g, hg⟩
    have hpath := ((tablePath_eq_iff_of_inRange (habove ▸ hcall) (habove ▸ hiova)).2 hpage).1
    rw [hpath] at hg
    have hwalk := htracks.tree.reach g _ hg
    have hstored := href.pages iova hiova
    rw [readAt_of_walk hwalk] at hstored
    rw [habove, walkTables_eq, hwalk]
    exact ⟨_, rfl, (congrArg leafOf hstored).trans (href.leafOf_stored hlast)⟩

def sampleMemory : Phys :=
  Phys.boot (fun _ _ => 0#64)
    [frameAt 1, frameAt 2, frameAt 3, frameAt 4, frameAt 5, frameAt 6] ∅

def sampleCalls : List MapCall :=
  [{ pa := 0x7abc#64, iova := 0x1000000000000#64, flags := 3#64 },
    { pa := 0x8000#64, iova := 0x1000000001000#64, flags := 1#64 },
    { pa := 0x9000#64, iova := 0x1000000001234#64, flags := 2#64 }]

/-- Three calls on five levels; the last one takes read permission away. -/
theorem sl_tables_refine_map_sample :
    ∃ c s sp,
      context 5 sampleMemory = some (c, s) ∧
        exec (Space.step c) ⟨s, []⟩ sampleCalls = some sp ∧
        translate sp.phys.tables 5 c.physRoot 0x1000000000123#64 =
          some { frame := 7, r := true, w := true, x := false } ∧
        translate sp.phys.tables 5 c.physRoot 0x1000000001000#64 = none ∧
        translate sp.phys.tables 5 c.physRoot 0x2000#64 = none := by
  have hrun : ∃ c s sp,
      context 5 sampleMemory = some (c, s) ∧
        exec (Space.step c) ⟨s, []⟩ sampleCalls = some sp ∧ sp.calls = sampleCalls.reverse :=
    ⟨_, _, _, rfl, rfl, rfl⟩
  rcases hrun with ⟨c, s, sp, hnew, hexec, hcalls⟩
  refine ⟨c, s, sp, hnew, hexec, ?_⟩
  have hok : ∀ call ∈ sampleCalls, InRange 5 call.iova ∧ call.pa.toNat < 2 ^ 52 := by decide
  have hall := (sl_tables_refine_map hnew rfl (exec_run hexec fun call hc _ => hok call hc)).1
  refine ⟨?_, ?_, ?_⟩
  · rw [hall _ (by decide), Space.last, hcalls]
    rfl
  · rw [hall _ (by decide), Space.last, hcalls]
    rfl
  · rw [hall _ (by decide), Space.last, hcalls]
    rfl

end SigmaOS.Arch.SlPaging
