import SigmaOS.Arch.PagingMap
import SigmaOS.Lib.TableTree

/-!
# Arch.PagingTeardown — which tables belong to a context

The tables of the lower half belong to one context each; the tables of the upper half are shared by
all clones and never freed.  This is what the roles say: `own c path` is the table of context `c`
behind the indices `path`, `shared k` a table of the upper half with `k` levels below it.

`deinit` walks the lower half of a context three levels deep and calls `free_block` for every table
on its way back up.  `tablesBelow` is the list of these calls.  Each table of the lower half is on
it once, since its role is the way to it (`tablesBelow_nodup`), and the walk is nothing but these
calls (`deinit_eq_frees`).
-/

namespace SigmaOS.Arch.Paging

open Lib List

abbrev Ctx := Nat

/-! ## Roles -/

inductive Role
  | own (c : Ctx) (path : List Index)
  | shared (levels : Nat)
  deriving DecidableEq

/-- Below the root, the lower half belongs to the context and the upper half is shared. -/
def roleNext : Role → Index → Option Role
  | .own c [], i => if i.val < 256 then some (.own c [i]) else some (.shared 2)
  | .own c (p :: path), i => if path.length < 2 then some (.own c (p :: path ++ [i])) else none
  | .shared 0, _ => none
  | .shared (k + 1), _ => some (.shared k)

lemma roleAt_root (c : Ctx) (i j k : Index) :
    ∃ l, roleAt roleNext (.own c []) [i, j, k] = some l ∧ ∀ p, roleNext l p = none := by
  by_cases hi : i.val < 256
  · exact ⟨.own c [i, j, k], by simp [roleAt, roleNext, hi], fun p => by simp [roleNext]⟩
  · exact ⟨.shared 0, by simp [roleAt, roleNext, hi], fun p => rfl⟩

variable {c : Ctx} {path : List Index} {i : Index}

lemma roleNext_own_lower (hlen : path.length < 3) (hlow : path = [] → i.val < 256) :
    roleNext (.own c path) i = some (.own c (path ++ [i])) := by
  cases path with
  | nil => simp [roleNext, hlow rfl]
  | cons p rest =>
    have hrest : rest.length < 2 := Nat.lt_of_succ_lt_succ hlen
    simp [roleNext, hrest]

lemma roleNext_own_upper (hi : ¬ i.val < 256) : roleNext (.own c []) i = some (.shared 2) := by
  simp [roleNext, hi]

lemma roleNext_cases {l l' : Role} (h : roleNext l i = some l') :
    (∃ c path, path.length < 3 ∧ l = .own c path ∧ l' = .own c (path ++ [i])) ∨
      (∃ c, l = .own c [] ∧ l' = .shared 2) ∨ ∃ k, l = .shared (k + 1) ∧ l' = .shared k := by
  cases l with
  | own c path =>
    cases path with
    | nil =>
      by_cases hi : i.val < 256
      · exact .inl ⟨c, [], Nat.succ_pos 2, rfl, by simpa [roleNext, hi] using h.symm⟩
      · exact .inr (.inl ⟨c, rfl, by simpa [roleNext, hi] using h.symm⟩)
    | cons p rest =>
      by_cases hlen : rest.length < 2
      · exact .inl ⟨c, p :: rest, Nat.succ_lt_succ hlen, rfl,
          by simpa [roleNext, hlen] using h.symm⟩
      · simp [roleNext, hlen] at h
  | shared k =>
    cases k with
    | zero => simp [roleNext] at h
    | succ k => exact .inr (.inr ⟨k, rfl, by simpa [roleNext] using h.symm⟩)

lemma roleNext_own {l : Role} (h : roleNext l i = some (.own c path)) :
    ∃ path', l = .own c path' := by
  rcases roleNext_cases h with ⟨c', path', _, rfl, hl⟩ | ⟨_, _, hl⟩ | ⟨_, _, hl⟩
  · exact ⟨path', by rw [(Role.own.inj hl).1]⟩
  · cases hl
  · cases hl

lemma roleNext_own_root (h : i ∈ lowerHalf) :
    roleNext (.own c []) i = some (.own c ([] ++ [i])) :=
  roleNext_own_lower (Nat.succ_pos 2) fun _ => by simpa [lowerHalf] using h

lemma roleAt_own {below path : List Index} (hlen : path.length + below.length ≤ 3)
    (hlow : path = [] → ∀ i ∈ below.head?, i.val < 256) :
    roleAt roleNext (.own c path) below = some (.own c (path ++ below)) := by
  induction below generalizing path with
  | nil => simp [roleAt]
  | cons i below ih =>
    rw [length_cons] at hlen
    have hrest : (path ++ [i]).length + below.length ≤ 3 := by
      rw [length_append, length_singleton]
      omega
    have hnext : roleNext (.own c path) i = some (.own c (path ++ [i])) :=
      roleNext_own_lower (by omega) fun hnil => hlow hnil i rfl
    simpa [roleAt, hnext] using ih hrest (by simp)

lemma roleAt_shared {path : List Index} {k : Nat} (hlen : path.length ≤ k) :
    roleAt roleNext (.shared k) path = some (.shared (k - path.length)) := by
  induction path generalizing k with
  | nil => rfl
  | cons p path ih =>
    cases k with
    | zero => exact absurd hlen (Nat.not_succ_le_zero _)
    | succ k =>
      have hk : path.length ≤ k := Nat.le_of_succ_le_succ hlen
      simpa [roleAt, roleNext] using ih hk

lemma lowerHalf_nodup : lowerHalf.Nodup := by
  exact List.Nodup.filter _ (nodup_finRange 512)

def Phys.freeAll (frames : List Frame) (s : Phys) : Phys :=
  frames.foldl Phys.free s

namespace Phys

variable {s : Phys} {f x : Frame} {fs gs : List Frame}

@[simp] lemma freeAll_nil : s.freeAll [] = s :=
  rfl

@[simp] lemma freeAll_cons : s.freeAll (f :: fs) = (s.free f).freeAll fs :=
  rfl

lemma freeAll_append : s.freeAll (fs ++ gs) = (s.freeAll fs).freeAll gs :=
  foldl_append

@[simp] lemma freeAll_tables : (s.freeAll fs).tables = s.tables := by
  induction fs generalizing s with
  | nil => rfl
  | cons f fs ih => exact ih

lemma mem_freeAll_live : x ∈ (s.freeAll fs).live ↔ x ∈ s.live ∧ x ∉ fs := by
  induction fs generalizing s with
  | nil => simp
  | cons f fs ih =>
    rw [freeAll_cons, ih]
    simp only [Phys.free, Finset.mem_erase, mem_cons, not_or]
    tauto

lemma freeAll_misuse (hnodup : fs.Nodup) (hlive : ∀ x ∈ fs, x ∈ s.live) :
    (s.freeAll fs).misuse = s.misuse := by
  induction fs generalizing s with
  | nil => rfl
  | cons f fs ih =>
    rcases nodup_cons.1 hnodup with ⟨hf, hrest⟩
    rw [freeAll_cons, ih hrest ?_]
    · simp [Phys.free, hlive f mem_cons_self]
    · intro x hx
      have hxf : x ≠ f := fun h => hf (h ▸ hx)
      exact Finset.mem_erase.2 ⟨hxf, hlive x (mem_cons_of_mem f hx)⟩

/-- A loop whose rounds free disjoint parts frees them all. -/
lemma foldl_frees {m : Tables Frame Index (BitVec 64)} {body : Phys → Index → Phys}
    {part : Index → List Frame} {indices : List Index} {s : Phys}
    (hbody : ∀ t, ∀ i ∈ indices, t.tables = m → f ∈ t.live → (∀ x ∈ part i, x ∈ t.live) →
      body t i = t.freeAll (part i))
    (hs : s.tables = m) (hnodup : (indices.flatMap part ++ [f]).Nodup)
    (hlive : ∀ x ∈ indices.flatMap part ++ [f], x ∈ s.live) :
    indices.foldl body s = s.freeAll (indices.flatMap part) := by
  induction indices generalizing s with
  | nil => rfl
  | cons i indices ih =>
    rw [flatMap_cons, append_assoc] at hnodup hlive
    have hmine : ∀ x ∈ part i, x ∈ s.live := fun x hx => hlive x (mem_append_left _ hx)
    have hf : f ∈ s.live :=
      hlive f (mem_append_right _ (mem_append_right _ (mem_singleton.2 rfl)))
    -- what the later rounds release is still outstanding
    have hrest : ∀ x ∈ indices.flatMap part ++ [f], x ∈ (s.freeAll (part i)).live := by
      intro x hx
      refine mem_freeAll_live.2 ⟨hlive x (mem_append_right _ hx), ?_⟩
      intro hin
      exact (nodup_append.1 hnodup).2.2 x hin x hx rfl
    rw [foldl_cons, hbody s i mem_cons_self hs hf hmine, flatMap_cons,
      freeAll_append]
    exact ih (fun t j hj => hbody t j (mem_cons_of_mem i hj)) (freeAll_tables.trans hs)
      (nodup_append.1 hnodup).2.1 hrest

end Phys

/-! ## The tables below a table -/

/-- The tables behind the entries `indices` of the table in `f`, up to `levels` levels down, each of
them after those below it. -/
def tablesBelow (m : Tables Frame Index (BitVec 64)) : Nat → List Index → Frame → List Frame
  | 0, _, _ => []
  | levels + 1, indices, f =>
    indices.flatMap fun i =>
      match pageFormat.child (m f i) with
      | none => []
      | some g => tablesBelow m levels (List.finRange 512) g ++ [g]

def tablesBehind (m : Tables Frame Index (BitVec 64)) (levels : Nat) (f : Frame) (i : Index) :
    List Frame :=
  match pageFormat.child (m f i) with
  | none => []
  | some g => tablesBelow m levels (List.finRange 512) g ++ [g]

section Below

variable {m : Tables Frame Index (BitVec 64)} {levels : Nat} {indices : List Index} {f g x : Frame}
  {i : Index}

lemma tablesBehind_eq :
    tablesBehind m levels f = behind pageFormat m (tablesBelow m levels (List.finRange 512)) f := by
  funext i
  cases hchild : pageFormat.child (m f i) with
  | none => simp [tablesBehind, behind, hchild]
  | some g => simp [tablesBehind, behind, hchild]

lemma tablesBelow_succ :
    tablesBelow m (levels + 1) indices f = indices.flatMap (tablesBehind m levels f) :=
  rfl

lemma mem_tablesBelow :
    x ∈ tablesBelow m levels indices f ↔
      ∃ i ∈ indices, ∃ path : List Index, path.length < levels ∧
        walk pageFormat m f (i :: path) = some x := by
  induction levels generalizing indices f with
  | zero => simp [tablesBelow]
  | succ levels ih =>
    rw [tablesBelow_succ, tablesBehind_eq, mem_flatMap]
    refine exists_congr fun i => and_congr_right fun _ => mem_behind_walk fun g => ?_
    rw [ih]
    exact exists_congr fun j => and_iff_right (mem_finRange j)

end Below

section Roles

variable {owner : Frame → Option Role} {m : Tables Frame Index (BitVec 64)} {c : Ctx}
  {levels : Nat} {indices path : List Index} {f g x : Frame} {i : Index}

/-- The entries `indices` of a table of context `c` lead to tables of the same context. -/
def OwnEntries (c : Ctx) (path indices : List Index) : Prop :=
  ∀ i ∈ indices, roleNext (.own c path) i = some (.own c (path ++ [i]))

lemma ownEntries_root : OwnEntries c [] lowerHalf :=
  fun _ hi => roleNext_own_root hi

lemma ownEntries_snoc (hlen : path.length < 2) :
    OwnEntries c (path ++ [i]) (List.finRange 512) := by
  intro j _
  refine roleNext_own_lower ?_ (by simp)
  rw [length_append, length_singleton]
  omega

lemma role_of_mem_tablesBelow (hlinked : Linked pageFormat roleNext owner m)
    (hlen : path.length + levels ≤ 3) (hown : OwnEntries c path indices)
    (hf : owner f = some (.own c path)) (hx : x ∈ tablesBelow m levels indices f) :
    ∃ i ∈ indices, ∃ rest, owner x = some (.own c (path ++ i :: rest)) := by
  rcases mem_tablesBelow.1 hx with ⟨i, hi, rest, hrest, hwalk⟩
  rcases walk_cons_some hwalk with ⟨g, hchild, hwalk⟩
  have hg := (hlinked.child_owner hf (hown i hi) hchild).2
  have hlen' : (path ++ [i]).length + rest.length ≤ 3 := by
    rw [length_append, length_singleton]
    omega
  refine ⟨i, hi, rest, ?_⟩
  simpa using hlinked.walk_owner hg (roleAt_own hlen' (by simp)) hwalk

/-- No table is reached twice from a root. -/
lemma tablesBelow_nodup (hlinked : Linked pageFormat roleNext owner m) {levels : Nat}
    {path indices : List Index} {f : Frame} (hlen : path.length + levels ≤ 3)
    (hown : OwnEntries c path indices) (hnodup : indices.Nodup)
    (hf : owner f = some (.own c path)) : (tablesBelow m levels indices f ++ [f]).Nodup := by
  induction levels generalizing path indices f with
  | zero => exact nodup_singleton f
  | succ levels ih =>
    have hplace : Function.Injective (Role.own c) := fun _ _ h => (Role.own.inj h).2
    have hlen' : ∀ i : Index, (path ++ [i]).length + levels ≤ 3 := by
      intro i
      rw [length_append, length_singleton]
      omega
    rw [tablesBelow_succ, tablesBehind_eq]
    refine hlinked.nodup_behind hplace hf hown hnodup ?_ ?_
    · intro i _ g hg x hx
      cases levels with
      | zero => exact absurd hx not_mem_nil
      | succ levels =>
        rcases role_of_mem_tablesBelow hlinked (hlen' i) (ownEntries_snoc (by omega)) hg hx with
          ⟨j, _, rest, hrole⟩
        exact ⟨j, rest, hrole⟩
    · intro i _ g hg
      cases levels with
      | zero => exact nodup_singleton g
      | succ levels => exact ih (hlen' i) (ownEntries_snoc (by omega)) (nodup_finRange 512) hg

end Roles

section Walk

variable {owner : Frame → Option Role} {m : Tables Frame Index (BitVec 64)} {c : Ctx}

/-- `clean` releases what is below a table and does nothing else, as long as these tables are
outstanding. -/
def FreesBelow (m : Tables Frame Index (BitVec 64)) (levels : Nat) (indices : List Index) (f : Frame)
    (clean : Frame → Phys → Phys) : Prop :=
  ∀ s : Phys, s.tables = m → (∀ x ∈ tablesBelow m levels indices f ++ [f], x ∈ s.live) →
    clean f s = s.freeAll (tablesBelow m levels indices f)

variable {f r : Frame} {s : Phys}

section

variable (hlinked : Linked pageFormat roleNext owner m)
include hlinked

lemma cleanEntries_frees {levels : Nat} {path : List Index} {cleanChild : Frame → Phys → Phys}
    (hlen : path.length + (levels + 1) ≤ 3) (hf : owner f = some (.own c path))
    (hchild : ∀ i g, owner g = some (.own c (path ++ [i])) →
      FreesBelow m levels (List.finRange 512) g cleanChild) {indices : List Index}
    (hown : OwnEntries c path indices) (hnodup : indices.Nodup) :
    FreesBelow m (levels + 1) indices f (cleanEntries cleanChild indices) := by
  intro s hs hlive
  refine Phys.foldl_frees ?_ hs (tablesBelow_nodup hlinked hlen hown hnodup hf) hlive
  -- one round of the loop
  intro t i hi ht hft hmine
  simp only [ht, Phys.touch_of_live hft]
  rcases hlinked f _ i _ hf (hown i hi) with hempty | ⟨g, hlink, hg⟩
  · have hzero : m f i = 0#64 := hempty
    simp [hzero, pageFormat]
  · have hentry : m f i = tableEntry g := hlink
    have hbehind : pageFormat.child (m f i) = some g := by simp [hentry, pageFormat]
    simp only [hbehind] at hmine ⊢
    rw [Phys.freeAll_append, ← hchild i g hg t ht hmine]
    simp [hentry]

lemma cleanPd_frees {i j : Index} (hf : owner f = some (.own c [i, j])) :
    FreesBelow m 1 (List.finRange 512) f cleanPd := by
  have hown : OwnEntries c ([i] ++ [j]) (List.finRange 512) := ownEntries_snoc (Nat.lt_succ_self 1)
  refine cleanEntries_frees hlinked (Nat.le_refl 3) hf ?_ hown (nodup_finRange 512)
  intro k g _ s _ _
  rfl

lemma cleanPdpt_frees {i : Index} (hf : owner f = some (.own c [i])) :
    FreesBelow m 2 (List.finRange 512) f cleanPdpt := by
  have hown : OwnEntries c ([] ++ [i]) (List.finRange 512) := ownEntries_snoc Nat.two_pos
  refine cleanEntries_frees hlinked (Nat.le_refl 3) hf ?_ hown (nodup_finRange 512)
  intro j g hg
  exact cleanPd_frees hlinked hg

lemma cleanRoot_frees (hr : owner r = some (.own c [])) :
    FreesBelow m 3 lowerHalf r (cleanEntries cleanPdpt lowerHalf) :=
  cleanEntries_frees hlinked (Nat.le_refl 3) hr (fun _ _ hg => cleanPdpt_frees hlinked hg)
    ownEntries_root lowerHalf_nodup

end

def deinitFrees (m : Tables Frame Index (BitVec 64)) (r : Frame) : List Frame :=
  tablesBelow m 3 lowerHalf r ++ [r]

lemma role_of_mem_deinitFrees {x : Frame} (hlinked : Linked pageFormat roleNext owner m)
    (hr : owner r = some (.own c [])) (hx : x ∈ deinitFrees m r) :
    ∃ path, owner x = some (.own c path) := by
  rcases mem_append.1 hx with hbelow | hroot
  · rcases role_of_mem_tablesBelow hlinked (Nat.le_refl 3) ownEntries_root hr hbelow with
      ⟨i, _, rest, hrole⟩
    exact ⟨_, hrole⟩
  · exact ⟨[], mem_singleton.1 hroot ▸ hr⟩

lemma deinitFrees_live (h : s.Tracks roleNext owner) (hr : owner r = some (.own c [])) :
    ∀ x ∈ deinitFrees s.tables r, x ∈ s.live := by
  intro x hx
  rcases role_of_mem_deinitFrees h.linked hr hx with ⟨path, hrole⟩
  exact h.live x _ hrole

lemma deinit_eq_frees (h : s.Tracks roleNext owner) (hr : owner r = some (.own c [])) :
    deinit (some r) s = s.freeAll (deinitFrees s.tables r) := by
  have hloop := cleanRoot_frees h.linked hr s rfl (deinitFrees_live h hr)
  rw [deinitFrees, Phys.freeAll_append, ← hloop]
  rfl

lemma deinitFrees_nodup (hlinked : Linked pageFormat roleNext owner m)
    (hr : owner r = some (.own c [])) : (deinitFrees m r).Nodup := by
  have hlen : ([] : List Index).length + 3 ≤ 3 := Nat.le_refl 3
  exact tablesBelow_nodup hlinked hlen ownEntries_root lowerHalf_nodup hr

end Walk

/-! ## The teardown of a context -/

/-- The state of a teardown of context `c`: the tables are as they were, and every table with a role
is outstanding unless it is one of the tables `done`. -/
structure Cleaning (owner : Frame → Option Role) (c : Ctx) (start : Phys)
    (done : List Index → Prop) (s : Phys) : Prop where
  tables : s.tables = start.tables
  live : ∀ f l, owner f = some l → f ∈ s.live ∨ ∃ path, l = .own c path ∧ done path
  clean : s.misuse = false

/-- `clean` releases the tables below a table of context `c` behind `path`, and leaves all others
alone. -/
def Cleans (owner : Frame → Option Role) (c : Ctx) (start : Phys) (path : List Index)
    (clean : Frame → Phys → Phys) : Prop :=
  ∀ f done s, owner f = some (.own c path) → Cleaning owner c start done s →
    (∀ p, path <+: p → ¬ done p) →
    Cleaning owner c start (fun p => done p ∨ ∃ i, path ++ [i] <+: p) (clean f s)

section Deinit

variable {owner : Frame → Option Role} {c : Ctx} {start s : Phys} {done done' : List Index → Prop}
  {f : Frame} {path : List Index}

lemma Cleaning.mem_live (h : Cleaning owner c start done s) (hf : owner f = some (.own c path))
    (hnot : ¬ done path) : f ∈ s.live := by
  rcases h.live f _ hf with hlive | ⟨path', hl, hd⟩
  · exact hlive
  · have hpath : path = path' := (Role.own.inj hl).2
    exact absurd (hpath ▸ hd) hnot

lemma Cleaning.freeAll {frames : List Frame} (h : Cleaning owner c start done s)
    (hnodup : frames.Nodup)
    (hrole : ∀ x ∈ frames, ∃ path, owner x = some (.own c path) ∧ ¬ done path ∧ done' path) :
    Cleaning owner c start (fun p => done p ∨ done' p) (s.freeAll frames) := by
  have hlive : ∀ x ∈ frames, x ∈ s.live := by
    intro x hx
    rcases hrole x hx with ⟨path, hown, hnot, _⟩
    exact h.mem_live hown hnot
  refine ⟨Phys.freeAll_tables.trans h.tables, ?_, (Phys.freeAll_misuse hnodup hlive).trans h.clean⟩
  intro x l hx
  by_cases hmem : x ∈ frames
  · rcases hrole x hmem with ⟨path, hown, _, hd⟩
    exact .inr ⟨path, Option.some.inj (hx.symm.trans hown), .inr hd⟩
  · rcases h.live x l hx with hin | ⟨path, hl, hd⟩
    · exact .inl (Phys.mem_freeAll_live.2 ⟨hin, hmem⟩)
    · exact .inr ⟨path, hl, .inl hd⟩

lemma cleanRoot_cleans (hlinked : Linked pageFormat roleNext owner start.tables) :
    Cleans owner c start [] (cleanEntries cleanPdpt lowerHalf) := by
  intro r done s hr h hdone
  have hrole : ∀ x ∈ tablesBelow start.tables 3 lowerHalf r, ∃ path,
      owner x = some (.own c path) ∧ ¬ done path ∧ ∃ i, [] ++ [i] <+: path := by
    intro x hx
    rcases role_of_mem_tablesBelow hlinked (Nat.le_refl 3) ownEntries_root hr hx with
      ⟨i, _, rest, hrole⟩
    exact ⟨_, hrole, hdone _ nil_prefix, i, rest, rfl⟩
  have hlive : ∀ x ∈ deinitFrees start.tables r, x ∈ s.live := by
    intro x hx
    rcases role_of_mem_deinitFrees hlinked hr hx with ⟨path, hown⟩
    exact h.mem_live hown (hdone path nil_prefix)
  rw [cleanRoot_frees hlinked hr s h.tables hlive]
  exact h.freeAll (nodup_append.1 (deinitFrees_nodup hlinked hr)).1 hrole

def forgetCtx (c : Ctx) (owner : Frame → Option Role) (f : Frame) : Option Role :=
  match owner f with
  | some (.own c' path) => if c' = c then none else some (.own c' path)
  | o => o

/-- What remains when the tables of a context lose their roles. -/
lemma forgetCtx_eq_some {f : Frame} {l : Role} :
    forgetCtx c owner f = some l ↔ owner f = some l ∧ ¬ ∃ path, l = .own c path := by
  cases ho : owner f with
  | none => simp [forgetCtx, ho]
  | some k =>
    cases k with
    | own c' path =>
      by_cases hc : c' = c
      · subst hc
        simp only [forgetCtx, ho, if_true, reduceCtorEq, Option.some.injEq, false_iff, not_and,
          not_not]
        rintro rfl
        exact ⟨path, rfl⟩
      · simp only [forgetCtx, ho, hc, if_false, Option.some.injEq]
        constructor
        · rintro rfl
          refine ⟨rfl, ?_⟩
          rintro ⟨path', hl⟩
          exact hc (Role.own.inj hl).1
        · exact fun h => h.1
    | shared k =>
      simp only [forgetCtx, ho, Option.some.injEq]
      constructor
      · rintro rfl
        exact ⟨rfl, by simp⟩
      · exact fun h => h.1

lemma Cleaning.tracks {s t : Phys} {done : List Index → Prop} (h : s.Tracks roleNext owner)
    (hall : Cleaning owner c s done t) : t.Tracks roleNext (forgetCtx c owner) := by
  refine ⟨?_, ?_, hall.clean⟩
  · rw [hall.tables]
    refine h.linked.forget (fun l => ∃ path, l = .own c path)
      (fun f l => forgetCtx_eq_some) ?_
    rintro l p l' hl hnext ⟨path, rfl⟩
    exact hl (roleNext_own hnext)
  · intro f l hf
    rcases forgetCtx_eq_some.1 hf with ⟨hf', hnot⟩
    rcases hall.live f l hf' with hlive | ⟨path, hl, _⟩
    · exact hlive
    · exact absurd ⟨path, hl⟩ hnot

lemma deinit_spec {s : Phys} {r : Frame} (h : s.Tracks roleNext owner)
    (hr : owner r = some (.own c [])) :
    (deinit (some r) s).Tracks roleNext (forgetCtx c owner) := by
  have hstart : Cleaning owner c s (fun _ => False) s :=
    ⟨rfl, fun f l hf => .inl (h.live f l hf), h.clean⟩
  have hloop := cleanRoot_cleans h.linked r _ s hr hstart fun _ _ hd => hd
  -- the root itself goes last
  have hroot : ∀ x ∈ [r], ∃ path, owner x = some (.own c path) ∧
      ¬ (False ∨ ∃ i, [] ++ [i] <+: path) ∧ path = [] := by
    intro x hx
    exact ⟨[], mem_singleton.1 hx ▸ hr, by simp, rfl⟩
  have hdone := hloop.freeAll (nodup_singleton r) hroot
  exact Cleaning.tracks h hdone

end Deinit

variable {R : Phys → Phys → Prop}

section

variable (hrefl : ∀ s, R s s) (htrans : ∀ {s t u}, R s t → R t u → R s u)
  (htouch : ∀ s f, R s (s.touch f)) (hfree : ∀ s f, R s (s.free f))
include hrefl htrans htouch hfree

/-- A teardown only touches and frees: what these two keep, the loops keep. -/
lemma cleanEntries_relates {cleanChild : Frame → Phys → Phys}
    (hchild : ∀ f s, R s (cleanChild f s)) (f : Frame) (indices : List Index) (s : Phys) :
    R s (cleanEntries cleanChild indices f s) := by
  induction indices generalizing s with
  | nil => exact hrefl s
  | cons i indices ih =>
    by_cases hentry : (present (s.tables f i) && !huge (s.tables f i)) = true
    · have hloop : cleanEntries cleanChild (i :: indices) f s =
          cleanEntries cleanChild indices f
            ((cleanChild (getFrame (s.tables f i)) (s.touch f)).free
              (getFrame (s.tables f i))) := by
        simp only [cleanEntries, foldl_cons, hentry, if_true]
      rw [hloop]
      exact htrans (htrans (htrans (htouch s f) (hchild _ _)) (hfree _ _)) (ih _)
    · have hloop : cleanEntries cleanChild (i :: indices) f s =
          cleanEntries cleanChild indices f (s.touch f) := by
        simp only [cleanEntries, foldl_cons, if_neg hentry]
      rw [hloop]
      exact htrans (htouch s f) (ih _)

lemma cleanPdpt_relates (f : Frame) (s : Phys) : R s (cleanPdpt f s) :=
  cleanEntries_relates hrefl htrans htouch hfree
    (cleanEntries_relates hrefl htrans htouch hfree (fun _ s => hrefl s) · (List.finRange 512)) f _ s

lemma cleanRoot_relates (r : Frame) (s : Phys) : R s (cleanEntries cleanPdpt lowerHalf r s) :=
  cleanEntries_relates hrefl htrans htouch hfree
    (cleanPdpt_relates hrefl htrans htouch hfree) r lowerHalf s

end

lemma deinit_tables (root : Option Frame) (s : Phys) : (deinit root s).tables = s.tables := by
  cases root with
  | none => rfl
  | some r =>
    have hloop : (cleanEntries cleanPdpt lowerHalf r s).tables = s.tables :=
      cleanRoot_relates (R := fun s t => t.tables = s.tables) (fun _ => rfl)
        (fun h h' => h'.trans h) (fun _ _ => rfl) (fun _ _ => rfl) r s
    simpa [deinit, Phys.free] using hloop

end SigmaOS.Arch.Paging
