import SigmaOS.Arch.Paging

/-!
# Arch.PagingMap — what `map_page` does to the tables

The tables are tracked by roles: `Phys.Tracks next owner s` says that every table with a role is
linked only to tables with the right role, that its frame is outstanding, and that no frame has
been misused so far.
-/

namespace SigmaOS.Arch.Paging

open Function BitVec Finset
open Lib

/-! ## Links between tables -/

@[simp] lemma present_zero : present 0#64 = false := rfl

lemma frame_getLsbD_low (f : Frame) {n : Nat} (hn : n < 12) : f.1.getLsbD n = false := by
  have hmask : ∀ i : Fin 12, frameMask.getLsbD i.val = false := by decide
  rw [← f.2, getLsbD_and, hmask ⟨n, hn⟩, Bool.and_false]

lemma tableEntry_eq (f : Frame) : tableEntry f = f.1 ||| 7#64 := by
  have hseven : (7#64 : BitVec 64) = (1#64 <<< 0) ||| (1#64 <<< 1) ||| (1#64 <<< 2) := by decide
  rw [hseven, tableEntry, setFrame, f.2]
  simp [bitSet, BitVec.or_assoc]

@[simp] lemma present_tableEntry (f : Frame) : present (tableEntry f) = true := by
  simp [present, tableEntry_eq]

@[simp] lemma huge_tableEntry (f : Frame) : huge (tableEntry f) = false := by
  have hseven : (7#64 : BitVec 64).getLsbD 7 = false := by decide
  rw [huge, tableEntry_eq, getLsbD_or, frame_getLsbD_low f (by decide), hseven]
  rfl

@[simp] lemma getFrame_tableEntry (f : Frame) : getFrame (tableEntry f) = f := by
  have hseven : (7#64 : BitVec 64) &&& frameMask = 0#64 := by decide
  refine Subtype.ext ?_
  show tableEntry f &&& frameMask = f.1
  rw [tableEntry_eq, and_or_distrib_right, f.2, hseven, or_zero]

lemma getPatFlags_frame (cache : CacheType) : getPatFlags cache &&& frameMask = 0#64 := by
  cases cache with
  | normal => decide
  | uncacheable => decide
  | writeThrough => decide
  | writeBack => decide
  | writeCombining => decide

lemma getFrame_pageEntry (phys flags : BitVec 64) (cache : CacheType) :
    getFrame (pageEntry phys flags cache) = getFrame phys := by
  have hmask : flagsMask &&& frameMask = 0#64 := by decide
  refine Subtype.ext ?_
  show (0#64 ||| (phys &&& frameMask) ||| (entryFlags flags &&& flagsMask) ||| getPatFlags cache) &&&
    frameMask = phys &&& frameMask
  rw [BitVec.and_or_distrib_right, BitVec.and_or_distrib_right, BitVec.and_assoc (entryFlags flags),
    hmask, getPatFlags_frame, BitVec.zero_or, BitVec.and_zero, BitVec.or_zero, BitVec.or_zero,
    BitVec.and_assoc, BitVec.and_self]

lemma getFrame_frame (f : Frame) : getFrame f.1 = f :=
  Subtype.ext f.2

def pageFormat : LinkFormat Frame (BitVec 64) where
  empty := 0#64
  link := tableEntry
  child := fun entry => if present entry then some (getFrame entry) else none
  child_empty := by simp
  child_link := by simp

lemma lookup_eq (m : Tables Frame Index (BitVec 64)) (root : Frame) (virt : BitVec 64) :
    lookup m root virt =
      let entry := readAt pageFormat m root [pml4Index virt, pdptIndex virt, pdIndex virt]
        (ptIndex virt)
      if present entry then some entry else none := by
  by_cases h4 : present (m root (pml4Index virt)) = true
  swap
  · simp [lookup, readAt, walk, pageFormat, h4]
  by_cases h3 : present (m (getFrame (m root (pml4Index virt))) (pdptIndex virt)) = true
  swap
  · simp [lookup, readAt, walk, pageFormat, h4, h3]
  by_cases h2 : present (m (getFrame (m (getFrame (m root (pml4Index virt)))
      (pdptIndex virt))) (pdIndex virt)) = true
  · simp [lookup, readAt, walk, pageFormat, h4, h3, h2]
  · simp [lookup, readAt, walk, pageFormat, h4, h3, h2]

/-! ## Tracked memory -/

structure Phys.Tracks {L : Type} (next : L → Index → Option L) (owner : Frame → Option L)
    (s : Phys) : Prop where
  linked : Linked pageFormat next owner s.tables
  live : ∀ f l, owner f = some l → f ∈ s.live
  clean : s.misuse = false

namespace Phys

variable {L : Type} {next : L → Index → Option L} {owner : Frame → Option L} {s s' : Phys}
  {f g : Frame} {l l' : L} {i : Index} {entry : BitVec 64}

lemma touch_of_live (h : f ∈ s.live) : s.touch f = s := by
  simp [touch, h]

lemma alloc_cases (h : s.alloc = some (g, s')) :
    g ∉ s.live ∧ s'.tables = s.tables ∧ s'.live = insert g s.live ∧ s'.misuse = s.misuse := by
  unfold alloc at h
  split at h
  · cases h
  split at h
  · cases h
  next hx =>
  cases h
  exact ⟨hx, rfl, rfl, rfl⟩

section

variable (h : s.Tracks next owner)
include h

lemma Tracks.touch (hf : owner f = some l) : s.touch f = s :=
  touch_of_live (h.live f l hf)

lemma Tracks.owner_none (hg : g ∉ s.live) : owner g = none := by
  cases ho : owner g with
  | none => rfl
  | some l => exact absurd (h.live g l ho) hg

/-- The allocator answers a frame that has no role yet. -/
lemma Tracks.alloc (ha : s.alloc = some (g, s')) (l : L) :
    owner g = none ∧ (s'.clear g).tables = s.tables.blank pageFormat g ∧
      (s'.clear g).Tracks next (update owner g (some l)) := by
  rcases alloc_cases ha with ⟨hg, htables, hlive, hmisuse⟩
  have ho := h.owner_none hg
  have hclear : (s'.clear g).tables = s.tables.blank pageFormat g := by
    simp [clear, htables, Tables.blank, pageFormat]
  refine ⟨ho, hclear, ?_, ?_, ?_⟩
  · rw [hclear]
    exact h.linked.blank ho
  · intro x k hx
    show x ∈ s'.live
    rw [hlive]
    by_cases hxg : x = g
    · rw [hxg]
      exact mem_insert_self g s.live
    · rw [update_of_ne hxg] at hx
      exact mem_insert_of_mem (h.live x k hx)
  · have hin : g ∈ s'.live := by
      rw [hlive]
      exact mem_insert_self g s.live
    show (s'.touch g).misuse = false
    rw [touch_of_live hin, hmisuse, h.clean]

lemma Tracks.alloc_data (ha : s.alloc = some (g, s')) :
    s'.Tracks next owner ∧ owner g = none ∧ g ∈ s'.live ∧ s'.tables = s.tables := by
  rcases alloc_cases ha with ⟨hg, htables, hlive, hmisuse⟩
  refine ⟨⟨?_, ?_, ?_⟩, h.owner_none hg, ?_, htables⟩
  · rw [htables]
    exact h.linked
  · intro f l hf
    rw [hlive]
    exact mem_insert_of_mem (h.live f l hf)
  · rw [hmisuse, h.clean]
  · rw [hlive]
    exact mem_insert_self g s.live

lemma Tracks.write_data (hf : owner f = some l) (hdata : next l i = none) :
    (s.write f i entry).Tracks next owner := by
  refine ⟨h.linked.set_data hf hdata, h.live, ?_⟩
  show (s.touch f).misuse = false
  rw [h.touch hf, h.clean]

lemma Tracks.write_entry (hf : owner f = some l) (hl : next l i = some l')
    (he : entry = 0#64 ∨ ∃ g, entry = tableEntry g ∧ owner g = some l') :
    (s.write f i entry).Tracks next owner := by
  refine ⟨h.linked.set_entry hf hl he, h.live, ?_⟩
  show (s.touch f).misuse = false
  rw [h.touch hf, h.clean]

end

end Phys

section Descend

variable {L : Type} {next : L → Index → Option L} {owner : Frame → Option L} {s s' : Phys}
  {f g root : Frame} {k l l' : L} {i : Index}

lemma ensureTable_present (h : s.Tracks next owner) (hf : owner f = some l)
    (hg : pageFormat.child (s.tables f i) = some g) : ensureTable f i s = some (g, s) := by
  have htouch := h.touch hf
  by_cases hp : present (s.tables f i) = true
  · have hgf : getFrame (s.tables f i) = g := by simpa [pageFormat, hp] using hg
    simp [ensureTable, hp, htouch, hgf]
  · simp [pageFormat, hp] at hg

lemma ensureTable_missing (htouch : s.touch f = s) (hzero : s.tables f i = 0#64)
    (he : ensureTable f i s = some (g, s')) :
    ∃ s₁, s.alloc = some (g, s₁) ∧ s' = (s₁.clear g).write f i (tableEntry g) := by
  cases ha : s.alloc with
  | none => simp [ensureTable, hzero, htouch, ha] at he
  | some out =>
    rcases out with ⟨x, s₁⟩
    have hpair : x = g ∧ (s₁.clear x).write f i (tableEntry x) = s' := by
      simpa [ensureTable, hzero, htouch, ha] using he
    rcases hpair with ⟨rfl, rfl⟩
    exact ⟨s₁, rfl, rfl⟩

/-- The table is there already, or a cleared frame is attached. -/
lemma ensureTable_spec (h : s.Tracks next owner) (hf : owner f = some l) (hl : next l i = some l')
    (he : ensureTable f i s = some (g, s')) :
    (s.tables f i = tableEntry g ∧ owner g = some l' ∧ s' = s) ∨
      (s.tables f i = 0#64 ∧ g ∉ s.live ∧ s'.live = insert g s.live ∧
        s'.tables = s.tables.attach pageFormat f i g ∧
        s'.Tracks next (update owner g (some l'))) := by
  have htouch := h.touch hf
  rcases h.linked f l i l' hf hl with hempty | ⟨x, hlink, hx⟩
  · have hzero : s.tables f i = 0#64 := hempty
    rcases ensureTable_missing htouch hzero he with ⟨s₁, ha, rfl⟩
    rcases h.alloc ha l' with ⟨ho, htables, htracks⟩
    rcases Phys.alloc_cases ha with ⟨hg, _, hlive, _⟩
    have hne := Linked.ne_of_owner hf ho
    have hf' : update owner g (some l') f = some l := by rwa [update_of_ne hne]
    refine .inr ⟨hzero, hg, hlive, ?_,
      htracks.write_entry hf' hl (.inr ⟨g, rfl, by simp⟩)⟩
    show (s₁.clear g).tables.set f i (tableEntry g) = s.tables.attach pageFormat f i g
    rw [htables]
    rfl
  · have hentry : s.tables f i = tableEntry x := hlink
    have hpair : x = g ∧ s = s' := by simpa [ensureTable, hentry, htouch] using he
    rcases hpair with ⟨rfl, rfl⟩
    exact .inl ⟨hentry, hx, rfl⟩

/-- On the way from the role `k` along `path`, index `q` of a table with the role `m` is passed. -/
def Passed (next : L → Index → Option L) (k : L) (path : List Index) (m : L) (q : Index) : Prop :=
  ∃ before, before ++ [q] <+: path ∧ roleAt next k before = some m

variable {path : List Index} {owner' : Frame → Option L}

lemma Passed.mono {path' : List Index} {m : L} {q : Index} (h : Passed next k path m q)
    (hpath : path <+: path') : Passed next k path' m q := by
  rcases h with ⟨before, hbefore, hm⟩
  exact ⟨before, hbefore.trans hpath, hm⟩

/-- What the steps down from `root` along `path` have done: `g` is the table reached.  Of the
tables there were, only empty entries on the way have changed; new tables hold no data, and no
outstanding frame has become a table. -/
structure Descended (next : L → Index → Option L) (owner : Frame → Option L) (s : Phys)
    (root : Frame) (k : L) (path : List Index) (owner' : Frame → Option L) (s' : Phys) (g : Frame)
    (l : L) : Prop where
  tracks : s'.Tracks next owner'
  keeps : ∀ x l, owner x = some l → owner' x = some l
  start : owner root = some k
  role : roleAt next k path = some l
  reached : walk pageFormat s'.tables root path = some g
  reads : ∀ x l path' l' j, owner x = some l → roleAt next l path' = some l' →
    next l' j = none →
    readAt pageFormat s'.tables x path' j = readAt pageFormat s.tables x path' j
  entries : ∀ x m q, owner x = some m →
    s'.tables x q = s.tables x q ∨ (s.tables x q = 0#64 ∧ Passed next k path m q)
  blank : ∀ x m q, owner x = none → owner' x = some m → next m q = none → s'.tables x q = 0#64
  outstanding : s.live ⊆ s'.live
  others : ∀ x, x ∈ s.live → owner x = none → owner' x = none

lemma Descended.start_at (h : s.Tracks next owner) (hroot : owner root = some k) :
    Descended next owner s root k [] owner s root k :=
  { tracks := h
    keeps := fun _ _ hx => hx
    start := hroot
    role := rfl
    reached := rfl
    reads := fun _ _ _ _ _ _ _ _ => rfl
    entries := fun _ _ _ _ => .inl rfl
    blank := fun x m q hnone hsome => absurd (hnone.symm.trans hsome) (by simp)
    outstanding := Finset.Subset.refl _
    others := fun _ _ hx => hx }

lemma Descended.owner_reached (h : Descended next owner s root k path owner' s' g l) :
    owner' g = some l :=
  h.tracks.linked.walk_owner (h.keeps root k h.start) h.role h.reached

/-- One level of the descent of `map_page`. -/
lemma Descended.ensure {s'' : Phys} {g' : Frame}
    (h : Descended next owner s root k path owner' s' g l) (hl : next l i = some l')
    (he : ensureTable g i s' = some (g', s'')) :
    ∃ owner'', Descended next owner s root k (path ++ [i]) owner'' s'' g' l' := by
  have hg := h.owner_reached
  have hroot := h.keeps root k h.start
  have hrole := roleAt_snoc hl h.role
  have hlonger : path <+: path ++ [i] := List.prefix_append path [i]
  rcases ensureTable_spec h.tracks hg hl he with
    ⟨hlink, _, rfl⟩ | ⟨hempty, hnew, hlive, htables, htr⟩
  · refine ⟨owner', { h with
      role := hrole
      reached := walk_snoc hlink h.reached
      entries := ?_ }⟩
    intro x m q hx
    rcases h.entries x m q hx with hsame | ⟨hzero, hpassed⟩
    · exact .inl hsame
    · exact .inr ⟨hzero, hpassed.mono hlonger⟩
  · have hnone := h.tracks.owner_none hnew
    have hgg' := Linked.ne_of_owner hg hnone
    refine ⟨_, htr, ?_, h.start, hrole, ?_, ?_, ?_, ?_, ?_, ?_⟩
    · intro x m hx
      have hx' := h.keeps x m hx
      rwa [update_of_ne (Linked.ne_of_owner hx' hnone)]
    · rw [htables]
      exact walk_snoc Tables.attach_same
        (h.tracks.linked.walk_attach hempty hnone hroot h.role h.reached)
    · intro x m path' m' j hx hm hdata
      rw [htables, h.tracks.linked.readAt_attach hg hl hempty hnone (h.keeps x m hx) hm hdata]
      exact h.reads x m path' m' j hx hm hdata
    · intro x m q hx
      have hx' := h.keeps x m hx
      by_cases hhere : x = g ∧ q = i
      · -- the entry that links the new table was empty, also before the first step down
        rcases hhere with ⟨rfl, rfl⟩
        have hml : m = l := Option.some.inj (hx'.symm.trans hg)
        rw [hml]
        refine .inr ⟨?_, path, List.prefix_refl _, h.role⟩
        rcases h.entries x m q hx with hsame | ⟨hzero, _⟩
        · rw [← hsame, hempty]
        · exact hzero
      · rw [htables, Tables.attach_apply (Linked.ne_of_owner hx' hnone) hhere]
        rcases h.entries x m q hx with hsame | ⟨hzero, hpassed⟩
        · exact .inl hsame
        · exact .inr ⟨hzero, hpassed.mono hlonger⟩
    · intro x m q hx hm hdata
      rw [htables]
      by_cases hxg : x = g'
      · rw [hxg]
        exact Tables.attach_new hgg'
      · rw [update_of_ne hxg] at hm
        rw [Tables.attach_apply hxg, h.blank x m q hx hm hdata]
        rintro ⟨rfl, rfl⟩
        rw [Option.some.inj (hm.symm.trans hg), hl] at hdata
        exact absurd hdata (by simp)
    · rw [hlive]
      exact h.outstanding.trans (subset_insert g' _)
    · intro x hx hnone'
      have hxg : x ≠ g' := by
        rintro rfl
        exact hnew (h.outstanding hx)
      rw [update_of_ne hxg]
      exact h.others x hx hnone'

end Descend

/-! ## The whole walk -/

def tablePath (virt : BitVec 64) : List Index :=
  [pml4Index virt, pdptIndex virt, pdIndex virt]

lemma lookup_eq_some {m : Tables Frame Index (BitVec 64)} {root : Frame}
    {virt entry : BitVec 64} :
    lookup m root virt = some entry ↔
      ∃ pt, walk pageFormat m root (tablePath virt) = some pt ∧ m pt (ptIndex virt) = entry ∧
        present entry = true := by
  rw [lookup_eq, ← tablePath]
  cases hwalk : walk pageFormat m root (tablePath virt) with
  | none =>
    rw [readAt_of_none hwalk]
    simp [pageFormat]
  | some pt =>
    rw [readAt_of_walk hwalk]
    simp only [Option.some.injEq, exists_eq_left', Option.ite_none_right_eq_some]
    refine ⟨?_, ?_⟩
    · rintro ⟨hpresent, rfl⟩
      exact ⟨rfl, hpresent⟩
    · rintro ⟨rfl, hpresent⟩
      exact ⟨hpresent, rfl⟩

/-- What `map_page` has done below a table with the role `k`, where the way to the page table leads
to the role `l`: the page entry is what was asked for, and no data in another place changes. -/
structure PageMapped {L : Type} (next : L → Index → Option L) (owner : Frame → Option L) (s : Phys)
    (root : Frame) (k l : L) (virt entry : BitVec 64) (owner' : Frame → Option L) (s' : Phys) :
    Prop where
  tracks : s'.Tracks next owner'
  keeps : ∀ x m, owner x = some m → owner' x = some m
  reached : ∃ pt, walk pageFormat s'.tables root (tablePath virt) = some pt ∧
    s'.tables pt (ptIndex virt) = entry
  reads : ∀ x m path m' j, owner x = some m → roleAt next m path = some m' → next m' j = none →
    (m' = l → j ≠ ptIndex virt) →
    readAt pageFormat s'.tables x path j = readAt pageFormat s.tables x path j
  links : ∀ x m q m', owner x = some m → next m q = some m' →
    s'.tables x q = s.tables x q ∨ (s.tables x q = 0#64 ∧ Passed next k (tablePath virt) m q)
  data : ∀ x m q, owner x = some m → next m q = none →
    s'.tables x q = s.tables x q ∨ (s'.tables x q = entry ∧ m = l ∧ q = ptIndex virt)
  blank : ∀ x m q, owner x = none → owner' x = some m → next m q = none →
    s'.tables x q = 0#64 ∨ s'.tables x q = entry
  outstanding : s.live ⊆ s'.live
  others : ∀ x, x ∈ s.live → owner x = none → owner' x = none

section MapPage

variable {L : Type} {next : L → Index → Option L} {owner owner' : Frame → Option L}
  {s s' : Phys} {root : Frame} {k l : L} {virt : BitVec 64}

variable {entry : BitVec 64} {pt : Frame} {cache : CacheType}

lemma PageMapped.written (h : PageMapped next owner s root k l virt entry owner' s') :
    readAt pageFormat s'.tables root (tablePath virt) (ptIndex virt) = entry := by
  rcases h.reached with ⟨pt, hwalk, hentry⟩
  simp [readAt, hwalk, hentry]

/-- At the end of the descent the entry is written. -/
lemma Descended.write (h : Descended next owner s root k (tablePath virt) owner' s' pt l)
    (hdata : next l (ptIndex virt) = none) :
    PageMapped next owner s root k l virt entry owner' (s'.write pt (ptIndex virt) entry) := by
  have hpt := h.owner_reached
  have hroot := h.keeps root k h.start
  have hset : (s'.write pt (ptIndex virt) entry).tables =
      s'.tables.set pt (ptIndex virt) entry := rfl
  refine ⟨h.tracks.write_data hpt hdata, h.keeps, ?_, ?_, ?_, ?_, ?_, h.outstanding, h.others⟩
  · have hwalk := h.tracks.linked.walk_set_data (e := entry) hpt hdata hroot h.role
    exact ⟨pt, hwalk.trans h.reached, Tables.set_same⟩
  · intro x m path m' j hx hm hd hother
    have hread := h.tracks.linked.readAt_set_data (e := entry) hpt hdata (h.keeps x m hx) hm hother
    exact hread.trans (h.reads x m path m' j hx hm hd)
  · intro x m q m' hx hm
    rw [hset, Linked.set_data_apply hpt hdata (h.keeps x m hx) hm]
    exact h.entries x m q hx
  · intro x m q hx hm
    rw [hset]
    by_cases hhere : x = pt ∧ q = ptIndex virt
    · rcases hhere with ⟨rfl, rfl⟩
      have hml : m = l := Option.some.inj ((h.keeps x m hx).symm.trans hpt)
      exact .inr ⟨Tables.set_same, hml, rfl⟩
    · rw [Tables.set_apply hhere]
      rcases h.entries x m q hx with hsame | ⟨_, before, hbefore, hrole⟩
      · exact .inl hsame
      · -- an entry that is passed leads on, it is no data
        exact absurd (roleAt_leads h.role hbefore hrole) (by simp [hm])
  · intro x m q hx hm hnone
    rw [hset]
    by_cases hhere : x = pt ∧ q = ptIndex virt
    · rcases hhere with ⟨rfl, rfl⟩
      exact .inr Tables.set_same
    · rw [Tables.set_apply hhere]
      exact .inl (h.blank x m q hx hm hnone)

lemma mapPage_cases {phys flags : BitVec 64}
    (hmap : mapPage root phys virt flags cache s = some s') :
    ∃ pdpt s₁ pd s₂ pt s₃, ensureTable root (pml4Index virt) s = some (pdpt, s₁) ∧
      ensureTable pdpt (pdptIndex virt) s₁ = some (pd, s₂) ∧
      ensureTable pd (pdIndex virt) s₂ = some (pt, s₃) ∧
      s' = s₃.write pt (ptIndex virt) (pageEntry phys flags cache) := by
  unfold mapPage at hmap
  split at hmap
  · cases hmap
  next pdpt s₁ he₁ =>
  split at hmap
  · cases hmap
  next pd s₂ he₂ =>
  split at hmap
  · cases hmap
  next pt s₃ he₃ =>
  cases hmap
  exact ⟨pdpt, s₁, pd, s₂, pt, s₃, he₁, he₂, he₃, rfl⟩

lemma init_cases {target : Option Frame} (hinit : init target s = some (root, s')) :
    ∃ s₁, (deinit target s).alloc = some (root, s₁) ∧ s' = s₁.clear root := by
  unfold init at hinit
  split at hinit
  · cases hinit
  next halloc =>
  cases hinit
  exact ⟨_, halloc, rfl⟩

lemma cloneTable_cases {fill : Frame → Phys → Option Phys} {table : Frame}
    (hclone : cloneTable fill s = some (table, s')) :
    ∃ s₁, s.alloc = some (table, s₁) ∧ fill table (s₁.clear table) = some s' := by
  unfold cloneTable at hclone
  split at hclone
  · cases hclone
  next halloc =>
  split at hclone
  · cases hclone
  next hfill =>
  cases hclone
  exact ⟨_, halloc, hfill⟩

lemma clonePagingInfo_cases {source : Frame}
    (hclone : clonePagingInfo source none s = some (root, s')) :
    ∃ s₁ s₂, s.alloc = some (root, s₁) ∧
      forEach (cloneEntry clonePdpt source root) lowerHalf (s₁.clear root) = some s₂ ∧
      forEach (fun i s => some (copyEntry source root i s)) upperHalf s₂ = some s' := by
  unfold clonePagingInfo at hclone
  split at hclone
  · cases hclone
  next hinit =>
  split at hclone
  · cases hclone
  next hlower =>
  split at hclone
  · cases hclone
  next hupper =>
  cases hclone
  rcases init_cases hinit with ⟨s₀, halloc, rfl⟩
  exact ⟨s₀, _, halloc, hlower, hupper⟩

lemma mapPage_spec {phys flags : BitVec 64} (h : s.Tracks next owner)
    (hroot : owner root = some k) (hrole : roleAt next k (tablePath virt) = some l)
    (hdata : next l (ptIndex virt) = none) (hmap : mapPage root phys virt flags cache s = some s') :
    ∃ owner', PageMapped next owner s root k l virt (pageEntry phys flags cache) owner' s' := by
  rcases roleAt_cons hrole with ⟨l₁, hl₁, hrole₁⟩
  rcases roleAt_cons hrole₁ with ⟨l₂, hl₂, hrole₂⟩
  rcases roleAt_cons hrole₂ with ⟨l₃, hl₃, hrole₃⟩
  have hl : l₃ = l := by simpa [roleAt] using hrole₃
  subst hl
  rcases mapPage_cases hmap with ⟨pdpt, s₁, pd, s₂, pt, s₃, he₁, he₂, he₃, rfl⟩
  rcases (Descended.start_at h hroot).ensure hl₁ he₁ with ⟨owner₁, h₁⟩
  rcases h₁.ensure hl₂ he₂ with ⟨owner₂, h₂⟩
  rcases h₂.ensure hl₃ he₃ with ⟨owner₃, h₃⟩
  exact ⟨owner₃, Descended.write h₃ hdata⟩

lemma mapPage_existing (phys flags : BitVec 64) (cache : CacheType) (h : s.Tracks next owner)
    (hroot : owner root = some k) (hrole : roleAt next k (tablePath virt) = some l)
    (hwalk : walk pageFormat s.tables root (tablePath virt) = some pt) :
    mapPage root phys virt flags cache s =
      some (s.write pt (ptIndex virt) (pageEntry phys flags cache)) := by
  rcases roleAt_cons hrole with ⟨l₁, hl₁, hrole₁⟩
  rcases roleAt_cons hrole₁ with ⟨l₂, hl₂, _⟩
  rcases walk_cons_some hwalk with ⟨pdpt, hpdpt, hwalk₁⟩
  rcases walk_cons_some hwalk₁ with ⟨pd, hpd, hwalk₂⟩
  rcases walk_cons_some hwalk₂ with ⟨pt', hpt, hwalk₃⟩
  have hptpt : pt' = pt := by simpa [walk] using hwalk₃
  have hpdptRole := (h.linked.child_owner hroot hl₁ hpdpt).2
  have hpdRole := (h.linked.child_owner hpdptRole hl₂ hpd).2
  rw [mapPage, ensureTable_present h hroot hpdpt]
  simp only [ensureTable_present h hpdptRole hpd, ensureTable_present h hpdRole hpt, hptpt]

lemma PageMapped.persists {x : Frame} {path : List Index} {k' m : L} {q : Index}
    (hs : s.Tracks next owner) (h : PageMapped next owner s root k l virt entry owner' s')
    (hx : owner x = some k') (hrole : roleAt next k' path = some m) (hq : next m q = none)
    (hwalk : walk pageFormat s.tables x path = some pt) :
    walk pageFormat s'.tables x path = some pt ∧
      (s'.tables pt q = s.tables pt q ∨ s'.tables pt q = entry) := by
  refine ⟨hs.linked.walk_mono ?_ hx hrole hwalk, ?_⟩
  · intro y n p n' z hy hn hlink
    rcases h.links y n p n' hy hn with hsame | ⟨hzero, _⟩
    · exact hsame.trans hlink
    · have hchild := pageFormat.child_link z
      rw [← hlink, hzero] at hchild
      exact absurd hchild (by simp [pageFormat])
  · rcases h.data pt m q (hs.linked.walk_owner hx hrole hwalk) hq with hsame | ⟨hentry, _⟩
    · exact .inl hsame
    · exact .inr hentry

end MapPage

end SigmaOS.Arch.Paging
