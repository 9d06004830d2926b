import SigmaOS.Arch.PagingTeardown
import SigmaOS.Lib.Run

/-!
# Arch.PagingClone — new tables, and what is in them

`Phys.Holding D owner s` is tracked memory in which every page entry of a table with a role has the
property `D`.  Mapping, creating and cloning contexts only add roles (`Extends`): tables keep the
role they have, and an outstanding frame without a role does not get one.

`Fills` is what the functions that clone have in common: they write the entries of new tables, and
of no table that was there before.
-/

namespace SigmaOS.Arch.Paging

open Function List
open Lib

/-- From `s` to `s'` tables keep their roles, and new tables are in frames that were free. -/
structure Extends (owner : Frame → Option Role) (s : Phys) (owner' : Frame → Option Role)
    (s' : Phys) : Prop where
  keeps : ∀ x l, owner x = some l → owner' x = some l
  outstanding : s.live ⊆ s'.live
  others : ∀ x, x ∈ s.live → owner x = none → owner' x = none

namespace Extends

variable {owner owner' owner'' : Frame → Option Role} {s s' s'' : Phys}

lemma of_live (hlive : s.live ⊆ s'.live) : Extends owner s owner s' :=
  ⟨fun _ _ hx => hx, hlive, fun _ _ hx => hx⟩

lemma refl : Extends owner s owner s :=
  of_live (Finset.Subset.refl _)

lemma trans (h : Extends owner s owner' s') (h' : Extends owner' s' owner'' s'') :
    Extends owner s owner'' s'' :=
  ⟨fun x l hx => h'.keeps x l (h.keeps x l hx), h.outstanding.trans h'.outstanding,
    fun x hx hnone => h'.others x (h.outstanding hx) (h.others x hx hnone)⟩

end Extends

/-! ## Page entries with a property -/

structure Phys.Holding (D : BitVec 64 → Prop) (owner : Frame → Option Role) (s : Phys) : Prop where
  tracks : s.Tracks roleNext owner
  data : ∀ x l q, owner x = some l → roleNext l q = none → D (s.tables x q)

def Phys.Grown (D : BitVec 64 → Prop) (owner : Frame → Option Role) (s s' : Phys) : Prop :=
  ∃ owner', s'.Holding D owner' ∧ Extends owner s owner' s'

namespace Phys

variable {D : BitVec 64 → Prop} {owner : Frame → Option Role} {s s' : Phys} {f g root : Frame}
  {c : Ctx} {l l' : Role} {i : Index} {entry : BitVec 64}

lemma Tracks.holding (h : s.Tracks roleNext owner) : s.Holding (fun _ => True) owner :=
  ⟨h, fun _ _ _ _ _ => trivial⟩

/-- A frame that is taken and cleared becomes a table of any role. -/
lemma Holding.alloc (hzero : D 0#64) (h : s.Holding D owner) (ha : s.alloc = some (g, s'))
    (l : Role) :
    (s'.clear g).Holding D (update owner g (some l)) ∧
      Extends owner s (update owner g (some l)) (s'.clear g) := by
  rcases h.tracks.alloc ha l with ⟨hnone, htables, htracks⟩
  rcases alloc_cases ha with ⟨hg, _, hlive, _⟩
  refine ⟨⟨htracks, ?_⟩, ?_, ?_, ?_⟩
  · intro x k q hx hk
    rw [htables]
    by_cases hxg : x = g
    · rw [hxg, Tables.blank_same]
      exact hzero
    · rw [update_of_ne hxg] at hx
      rw [Tables.blank_of_ne hxg]
      exact h.data x k q hx hk
  · intro x k hx
    rwa [update_of_ne (Linked.ne_of_owner hx hnone)]
  · show s.live ⊆ s'.live
    rw [hlive]
    exact Finset.subset_insert g s.live
  · intro x hx hnone'
    have hxg : x ≠ g := by
      rintro rfl
      exact hg hx
    rwa [update_of_ne hxg]

lemma Holding.alloc_data (h : s.Holding D owner) (ha : s.alloc = some (g, s')) :
    s'.Holding D owner ∧ owner g = none ∧ g ∈ s'.live ∧ s.live ⊆ s'.live := by
  rcases h.tracks.alloc_data ha with ⟨htracks, hnone, hg, htables⟩
  rcases alloc_cases ha with ⟨_, _, hlive, _⟩
  refine ⟨⟨htracks, ?_⟩, hnone, hg, ?_⟩
  · intro x k q hx hk
    rw [htables]
    exact h.data x k q hx hk
  · rw [hlive]
    exact Finset.subset_insert g s.live

lemma Holding.of_same (h : s.Holding D owner)
    (hsame : ∀ x l, owner x = some l → s'.tables x = s.tables x) (hlive : s'.live = s.live)
    (hmisuse : s'.misuse = s.misuse) : s'.Holding D owner := by
  refine ⟨⟨?_, ?_, hmisuse.trans h.tracks.clean⟩, ?_⟩
  · intro x k q k' hx hk
    rw [hsame x k hx]
    exact h.tracks.linked x k q k' hx hk
  · intro x k hx
    rw [hlive]
    exact h.tracks.live x k hx
  · intro x k q hx hk
    rw [hsame x k hx]
    exact h.data x k q hx hk

lemma Holding.write_data (h : s.Holding D owner) (hf : owner f = some l)
    (hnext : roleNext l i = none) (hentry : D entry) : (s.write f i entry).Holding D owner := by
  refine ⟨h.tracks.write_data hf hnext, ?_⟩
  intro x k q hx hk
  show D (s.tables.set f i entry x q)
  by_cases hhere : x = f ∧ q = i
  · rcases hhere with ⟨rfl, rfl⟩
    rw [Tables.set_same]
    exact hentry
  · rw [Tables.set_apply hhere]
    exact h.data x k q hx hk

lemma Holding.write_entry (h : s.Holding D owner) (hf : owner f = some l)
    (hnext : roleNext l i = some l')
    (he : entry = 0#64 ∨ ∃ g, entry = tableEntry g ∧ owner g = some l') :
    (s.write f i entry).Holding D owner := by
  refine ⟨h.tracks.write_entry hf hnext he, ?_⟩
  intro x k q hx hk
  have hother : ¬ (x = f ∧ q = i) := by
    rintro ⟨rfl, rfl⟩
    rw [Option.some.inj (hx.symm.trans hf), hnext] at hk
    exact absurd hk (by simp)
  show D (s.tables.set f i entry x q)
  rw [Tables.set_apply hother]
  exact h.data x k q hx hk

/-- `map_page` keeps the data in the tables as `D` says. -/
lemma Holding.mapPage {phys virt flags : BitVec 64} {cache : CacheType} (hzero : D 0#64)
    (h : s.Holding D owner) (hroot : owner root = some (.own c []))
    (hentry : D (pageEntry phys flags cache))
    (hmap : Paging.mapPage root phys virt flags cache s = some s') : s.Grown D owner s' := by
  rcases roleAt_root c (pml4Index virt) (pdptIndex virt) (pdIndex virt) with ⟨l, hrole, hdata⟩
  rcases mapPage_spec h.tracks hroot hrole (hdata _) hmap with ⟨owner', hmapped⟩
  refine ⟨owner', ⟨hmapped.tracks, ?_⟩, hmapped.keeps, hmapped.outstanding, hmapped.others⟩
  intro x k q hx hk
  cases hold : owner x with
  | none =>
    rcases hmapped.blank x k q hold hx hk with hblank | hnew
    · rw [hblank]
      exact hzero
    · rw [hnew]
      exact hentry
  | some k' =>
    have hkk : k' = k := Option.some.inj ((hmapped.keeps x k' hold).symm.trans hx)
    subst hkk
    rcases hmapped.data x k' q hold hk with hsame | ⟨hnew, _⟩
    · rw [hsame]
      exact h.data x k' q hold hk
    · rw [hnew]
      exact hentry

end Phys

variable {σ : Type} {body : Index → σ → Option σ} {i : Index}

lemma forEach_chain {s' : σ} {indices : List Index} {s : σ}
    (hs : forEach body indices s = some s') :
    Chain (fun i t t' => body i t = some t') indices s s' := by
  induction indices generalizing s with
  | nil =>
    cases hs
    exact Chain.nil _
  | cons i indices ih =>
    unfold forEach at hs
    split at hs
    · cases hs
    next hb =>
    exact Chain.cons hb (ih hs)

lemma forEach_invariant {P : σ → Prop} {s s' : σ} {indices : List Index}
    (hbody : ∀ i ∈ indices, ∀ t t', P t → body i t = some t' → P t') (h : P s)
    (hs : forEach body indices s = some s') : P s' :=
  ((forEach_chain hs).collects (Q := fun _ _ => True)
    (fun i hi t t' ht hb => ⟨hbody i hi t t' ht hb, trivial, fun _ _ => trivial⟩) h).1

/-- A role with more than `n` indices on the way to it, or a shared one. -/
def Role.Below (n : Nat) : Role → Prop
  | .own _ path => n < path.length
  | .shared _ => True

lemma roleNext_below {n : Nat} {l l' : Role} (h : l.Below n) (hl : roleNext l i = some l') :
    l'.Below n := by
  rcases roleNext_cases hl with ⟨c, path, _, rfl, rfl⟩ | ⟨c, rfl, rfl⟩ | ⟨k, rfl, rfl⟩
  · have hn : n < path.length := h
    show n < (path ++ [i]).length
    rw [length_append]
    exact Nat.lt_add_right _ hn
  · trivial
  · trivial

lemma roleAt_own_snoc {c : Ctx} {path below : List Index}
    (hlen : path.length + below.length ≤ 2) :
    ∃ l, roleAt roleNext (.own c (path ++ [i])) below = some l := by
  have hrest : (path ++ [i]).length + below.length ≤ 3 := by
    rw [length_append, length_singleton]
    omega
  exact ⟨_, roleAt_own hrest (by simp)⟩

/-! ## Filling tables -/

/-- From `s` to `s'` tables are added; of the tables there were, only the entries `written` may have
changed. -/
structure Fills (D : BitVec 64 → Prop) (owner : Frame → Option Role) (s : Phys)
    (written : Set (Frame × Index)) (owner' : Frame → Option Role) (s' : Phys) : Prop where
  holding : s'.Holding D owner'
  ext : Extends owner s owner' s'
  same : ∀ x l q, owner x = some l → (x, q) ∉ written → s'.tables x q = s.tables x q

namespace Fills

variable {D : BitVec 64 → Prop} {owner owner₁ owner₂ : Frame → Option Role} {s s₁ s₂ : Phys}
  {written written' : Set (Frame × Index)} {f g x : Frame} {c : Ctx} {l l' : Role} {i k : Index}
  {path below : List Index} {entry : BitVec 64}

lemma refl (h : s.Holding D owner) : Fills D owner s written owner s :=
  ⟨h, Extends.refl, fun _ _ _ _ _ => rfl⟩

lemma weaken (h : Fills D owner s ∅ owner₁ s₁) (written : Set (Frame × Index)) :
    Fills D owner s written owner₁ s₁ :=
  ⟨h.holding, h.ext, fun x l q hx _ => h.same x l q hx (Set.notMem_empty _)⟩

/-- What the second part writes into tables that were there at the start belongs to `written`. -/
lemma trans (h : Fills D owner s written owner₁ s₁) (h' : Fills D owner₁ s₁ written' owner₂ s₂)
    (hsub : ∀ x l q, owner x = some l → (x, q) ∈ written' → (x, q) ∈ written) :
    Fills D owner s written owner₂ s₂ := by
  refine ⟨h'.holding, h.ext.trans h'.ext, ?_⟩
  intro x l q hx hnot
  rw [h'.same x l q (h.ext.keeps x l hx) (fun hin => hnot (hsub x l q hx hin))]
  exact h.same x l q hx hnot

lemma fresh {indices : List Index} (h : Fills D owner s ∅ owner₁ s₁) (hg : owner g = none)
    (h' : Fills D owner₁ s₁ {e | e.1 = g ∧ e.2 ∈ indices} owner₂ s₂) :
    Fills D owner s ∅ owner₂ s₂ := by
  refine h.trans h' ?_
  rintro x l q hx ⟨hxg, _⟩
  exact absurd hxg (Linked.ne_of_owner hx hg)

lemma alloc (hzero : D 0#64) (h : s.Holding D owner) (ha : s.alloc = some (g, s₁)) (l : Role) :
    owner g = none ∧ (∀ q, (s₁.clear g).tables g q = 0#64) ∧
      Fills D owner s ∅ (update owner g (some l)) (s₁.clear g) := by
  rcases h.tracks.alloc ha l with ⟨hnone, htables, _⟩
  rcases h.alloc hzero ha l with ⟨hholding, hext⟩
  refine ⟨hnone, ?_, hholding, hext, ?_⟩
  · intro q
    rw [htables]
    exact Tables.blank_same
  · intro x k q hx _
    rw [htables, Tables.blank_of_ne (Linked.ne_of_owner hx hnone)]

lemma write (h : (s.write f i entry).Holding D owner) :
    Fills D owner s {(f, i)} owner (s.write f i entry) := by
  refine ⟨h, Extends.of_live (Finset.Subset.refl _), ?_⟩
  intro x _ q _ hnot
  have hother : ¬ (x = f ∧ q = i) := by
    rintro ⟨rfl, rfl⟩
    exact hnot rfl
  exact Tables.set_apply hother

lemma copy (h : s.Holding D owner) (hf : owner f = some l)
    (hwrite : (s.write g i (s.tables f i)).Holding D owner) :
    Fills D owner s {(g, i)} owner (copyEntry f g i s) := by
  rw [copyEntry, h.tracks.touch hf]
  exact write hwrite

lemma readAt_same (hf : Fills D owner s ∅ owner₁ s₁) (h : s.Holding D owner)
    (hx : owner x = some l) (hl : roleAt roleNext l below = some l') :
    readAt pageFormat s₁.tables x below k = readAt pageFormat s.tables x below k :=
  h.tracks.linked.readAt_congr (fun _ => True) (fun _ _ _ _ _ => trivial)
    (fun y m q hy _ => hf.same y m q hy (Set.notMem_empty _)) hx trivial hl

lemma readAt_below (hf : Fills D owner s written owner₁ s₁) (h : s.Holding D owner)
    (hg : owner g = some (.own c path)) (hwritten : ∀ e ∈ written, e.1 = g) (hx : owner x = some l)
    (hbelow : l.Below path.length) (hl : roleAt roleNext l below = some l') :
    readAt pageFormat s₁.tables x below k = readAt pageFormat s.tables x below k := by
  refine h.tracks.linked.readAt_congr (Role.Below path.length) (fun _ _ _ => roleNext_below) ?_ hx
    hbelow hl
  intro y m q hy hm
  refine hf.same y m q hy fun hin => ?_
  -- the table that is filled is not below itself
  have hyg : y = g := hwritten (y, q) hin
  have hm' : m = .own c path := Option.some.inj (hy.symm.trans (hyg ▸ hg))
  rw [hm'] at hm
  exact absurd hm (Nat.lt_irrefl path.length)

end Fills

/-! ## Copies -/

/-- The `n` levels of tables below `g` read as those below `f`. -/
def Copies (n : Nat) (m : Tables Frame Index (BitVec 64)) (f : Frame)
    (m' : Tables Frame Index (BitVec 64)) (g : Frame) : Prop :=
  ∀ below k, below.length = n → readAt pageFormat m' g below k = readAt pageFormat m f below k

/-- What is read through entry `i` of `g` is what is read through entry `i` of `f`. -/
def Copied (n : Nat) (m : Tables Frame Index (BitVec 64)) (f : Frame)
    (m' : Tables Frame Index (BitVec 64)) (g : Frame) (i : Index) : Prop :=
  ∀ below k, below.length = n →
    readAt pageFormat m' g (i :: below) k = readAt pageFormat m f (i :: below) k

lemma Copied.fill {D : BitVec 64 → Prop} {owner owner' : Frame → Option Role} {s s' : Phys}
    {written : Set (Frame × Index)} {m : Tables Frame Index (BitVec 64)} {f g : Frame} {d : Ctx}
    {path : List Index} {n : Nat} {j : Index} (h : Copied n m f s.tables g j)
    (hs : s.Holding D owner) (hf : Fills D owner s written owner' s')
    (hg : owner g = some (.own d path))
    (hnext : roleNext (.own d path) j = some (.own d (path ++ [j]))) (hlen : path.length + n ≤ 2)
    (hwritten : ∀ e ∈ written, e.1 = g ∧ e.2 ≠ j) : Copied n m f s'.tables g j := by
  intro below k hbelow
  rw [← h below k hbelow]
  have hentry : s'.tables g j = s.tables g j :=
    hf.same g _ j hg fun hin => (hwritten _ hin).2 rfl
  rcases hs.tracks.linked g _ j _ hg hnext with hempty | ⟨y, hlink, hy⟩
  · rw [readAt_cons_empty hempty, readAt_cons_empty (hentry.trans hempty)]
  · rw [readAt_cons_link hlink, readAt_cons_link (hentry.trans hlink)]
    have hdeep : (Role.own d (path ++ [j])).Below path.length := by simp [Role.Below]
    rcases roleAt_own_snoc (c := d) (i := j) (hbelow ▸ hlen) with ⟨l, hrole⟩
    exact hf.readAt_below hs hg (fun e he => (hwritten e he).1) hy hdeep hrole

section Clone

variable {D : BitVec 64 → Prop} {owner : Frame → Option Role} {c d : Ctx} {s s' : Phys}

/-- `clone` makes, from a table of context `c` behind `path`, a table of context `d` that reads the
same for `n` levels. -/
def Clones (D : BitVec 64 → Prop) (c d : Ctx) (path : List Index) (n : Nat)
    (clone : Frame → Phys → Option (Frame × Phys)) : Prop :=
  ∀ owner f g s s', s.Holding D owner → owner f = some (.own c path) → clone f s = some (g, s') →
    ∃ owner', Fills D owner s ∅ owner' s' ∧ owner' g = some (.own d path) ∧
      Copies n s.tables f s'.tables g

variable {indices path : List Index} {target source : Frame}
  {clone : Frame → Phys → Option (Frame × Phys)} {n : Nat} {i : Index}
  {owner₁ : Frame → Option Role}

/-- A loop that fills the entries `indices` of a table.  `Q i` is what the round for `i` establishes;
until then the entry is empty. -/
lemma forEach_fills {body : Index → Phys → Option Phys} {l : Role} {Q : Index → Phys → Prop}
    (h : s.Holding D owner) (htarget : owner target = some l)
    (hblank : ∀ i ∈ indices, s.tables target i = 0#64) (hbody : ∀ i ∈ indices, ∀ owner₁ s₁ s₂,
      Fills D owner s {e | e.1 = target ∧ e.2 ∈ indices} owner₁ s₁ →
      (s₁.tables target i = 0#64 ∨ Q i s₁) → body i s₁ = some s₂ →
      ∃ owner₂, Fills D owner₁ s₁ {(target, i)} owner₂ s₂ ∧ Q i s₂)
    (hkeep : ∀ i j owner₁ s₁ owner₂ s₂, s₁.Holding D owner₁ → owner₁ target = some l →
      Fills D owner₁ s₁ {(target, i)} owner₂ s₂ → j ≠ i → j ∈ indices → Q j s₁ → Q j s₂)
    (hs : forEach body indices s = some s') :
    ∃ owner', Fills D owner s {e | e.1 = target ∧ e.2 ∈ indices} owner' s' ∧
      ∀ i ∈ indices, Q i s' := by
  let Filled (t : Phys) : Prop := ∃ owner₁,
    Fills D owner s {e | e.1 = target ∧ e.2 ∈ indices} owner₁ t ∧
      ∀ j ∈ indices, t.tables target j = 0#64 ∨ Q j t
  have hloop := (forEach_chain hs).collects (I := Filled) (Q := fun i t => i ∈ indices → Q i t) (by
    rintro i hi t t' ⟨owner₁, hfills, hentries⟩ hb
    have htarget₁ := hfills.ext.keeps _ _ htarget
    rcases hbody i hi owner₁ t t' hfills (hentries i hi) hb with ⟨owner₂, hround, hown⟩
    have hothers : ∀ j ∈ indices, Q j t → Q j t' := by
      intro j hj hq
      by_cases hji : j = i
      · exact hji ▸ hown
      · exact hkeep i j owner₁ t owner₂ t' hfills.holding htarget₁ hround hji hj hq
    refine ⟨⟨owner₂, hfills.trans hround ?_, ?_⟩, fun _ => hown, fun j hq hj => hothers j hj (hq hj)⟩
    · rintro x _ q _ hin
      have hxq : x = target ∧ q = i := by simpa using hin
      exact ⟨hxq.1, hxq.2 ▸ hi⟩
    · intro j hj
      by_cases hji : j = i
      · exact .inr (hji ▸ hown)
      · rcases hentries j hj with hempty | hq
        · have hsame := hround.same target _ j htarget₁ (by simpa using hji)
          exact .inl (hsame.trans hempty)
        · exact .inr (hothers j hj hq))
    ⟨owner, Fills.refl h, fun j hj => .inl (hblank j hj)⟩
  rcases hloop with ⟨⟨owner', hfills, _⟩, hall, _⟩
  exact ⟨owner', hfills, fun i hi => hall i hi hi⟩

lemma cloneTable_spec {fill : Frame → Phys → Option Phys} {g : Frame} {C : Phys → Prop}
    (hzero : D 0#64) (h : s.Holding D owner)
    (hfill : ∀ owner₁ s₁ s₂, Fills D owner s ∅ owner₁ s₁ → owner g = none →
      owner₁ g = some (.own d path) → (∀ q, s₁.tables g q = 0#64) → fill g s₁ = some s₂ →
      ∃ owner₂, Fills D owner₁ s₁ {e | e.1 = g ∧ e.2 ∈ List.finRange 512} owner₂ s₂ ∧ C s₂)
    (hs : cloneTable fill s = some (g, s')) :
    ∃ owner', Fills D owner s ∅ owner' s' ∧ owner' g = some (.own d path) ∧ C s' := by
  rcases cloneTable_cases hs with ⟨s₁, halloc, hf⟩
  rcases Fills.alloc hzero h halloc (.own d path) with ⟨hnone, hblank, hnew⟩
  rcases hfill _ _ _ hnew hnone (by simp) hblank hf with ⟨owner₂, hfills, hC⟩
  exact ⟨owner₂, hnew.fresh hnone hfills, hfills.ext.keeps _ _ (by simp), hC⟩

lemma getFlags_tableEntry (f : Frame) : getFlags (tableEntry f) = 7#64 := by
  have hmask : frameMask &&& flagsMask = 0#64 := by decide
  have hseven : 7#64 &&& flagsMask = 7#64 := by decide
  rw [getFlags, tableEntry_eq, BitVec.and_or_distrib_right, ← f.2, BitVec.and_assoc, hmask, hseven,
    BitVec.and_zero, BitVec.zero_or]

lemma setFlags_setFrame (f g : Frame) :
    setFlags (setFrame 0#64 g.1) (getFlags (tableEntry f)) = tableEntry g := by
  have hseven : 7#64 &&& flagsMask = 7#64 := by decide
  rw [getFlags_tableEntry, setFlags, setFrame, g.2, hseven, tableEntry_eq, BitVec.zero_or]

/-- An entry is skipped when it is empty, and else a copy of its table is linked. -/
lemma cloneEntry_spec (hclone : Clones D c d (path ++ [i]) n clone)
    (hc : roleNext (.own c path) i = some (.own c (path ++ [i])))
    (hd : roleNext (.own d path) i = some (.own d (path ++ [i]))) (hlen : path.length + n ≤ 2)
    (h : s.Holding D owner) (hsource : owner source = some (.own c path))
    (htarget : owner target = some (.own d path))
    (hs : cloneEntry clone source target i s = some s') :
    (s.tables source i = 0#64 ∧ s' = s) ∨
      ∃ x y owner', s.tables source i = tableEntry x ∧ s'.tables target i = tableEntry y ∧
        Fills D owner s {(target, i)} owner' s' ∧ Copies n s.tables x s'.tables y := by
  have htouch := h.tracks.touch hsource
  rcases h.tracks.linked source _ i _ hsource hc with hempty | ⟨f, hlink, hf⟩
  · have hzero : s.tables source i = 0#64 := hempty
    have heq : s = s' := by simpa [cloneEntry, hzero, htouch, getFlags] using hs
    exact .inl ⟨hzero, heq.symm⟩
  · have hentry : s.tables source i = tableEntry f := hlink
    have hpresent : present (getFlags (tableEntry f)) = true := by
      rw [getFlags_tableEntry]
      decide
    have hhuge : huge (getFlags (tableEntry f)) = false := by
      rw [getFlags_tableEntry]
      decide
    cases hcl : clone f s with
    | none => simp [cloneEntry, hentry, htouch, hpresent, hhuge, hcl] at hs
    | some out =>
      rcases out with ⟨g, s₁⟩
      have heq : s₁.write target i (tableEntry g) = s' := by
        simpa [cloneEntry, hentry, htouch, hpresent, hhuge, hcl, setFlags_setFrame] using hs
      rcases hclone owner f g s s₁ h hf hcl with ⟨owner₁, hchild, hg, hcopies⟩
      have htarget₁ := hchild.ext.keeps _ _ htarget
      have hlinked := Fills.write
        (hchild.holding.write_entry htarget₁ hd (.inr ⟨g, rfl, hg⟩))
      subst heq
      refine .inr ⟨f, g, owner₁, hentry, Tables.set_same, ?_, ?_⟩
      · exact (hchild.weaken {(target, i)}).trans hlinked fun _ _ _ _ hin => hin
      · intro below k hbelow
        rcases roleAt_own_snoc (c := d) (i := i) (hbelow ▸ hlen) with ⟨l, hl⟩
        rw [← hcopies below k hbelow]
        exact hlinked.readAt_below hchild.holding htarget₁ (by simp) hg (by simp [Role.Below]) hl

/-- The same from a state in which other entries were copied before. -/
lemma cloneEntry_copied {owner₀ : Frame → Option Role} {s₀ : Phys}
    (hclone : Clones D c d (path ++ [i]) n clone)
    (hnext : ∀ e : Ctx, roleNext (.own e path) i = some (.own e (path ++ [i])))
    (hlen : path.length + n ≤ 2) (h₀ : s₀.Holding D owner₀)
    (hsource : owner₀ source = some (.own c path)) (hkept : Fills D owner₀ s₀ ∅ owner s)
    (htarget : owner target = some (.own d path))
    (hentry : s.tables target i = 0#64 ∨ Copied n s₀.tables source s.tables target i)
    (hs : cloneEntry clone source target i s = some s') :
    ∃ owner', Fills D owner s {(target, i)} owner' s' ∧
      Copied n s₀.tables source s'.tables target i := by
  have hsource' := hkept.ext.keeps _ _ hsource
  have hsame : s.tables source i = s₀.tables source i :=
    hkept.same source _ i hsource (Set.notMem_empty _)
  rcases cloneEntry_spec hclone (hnext c) (hnext d) hlen hkept.holding hsource' htarget hs with
    ⟨hempty, rfl⟩ | ⟨x, y, owner', hx, hy, hfills, hcopies⟩
  · refine ⟨owner, Fills.refl hkept.holding, ?_⟩
    rcases hentry with hblank | hcopied
    · intro below k _
      rw [readAt_cons_empty hblank, readAt_cons_empty (hsame.symm.trans hempty)]
    · exact hcopied
  · refine ⟨owner', hfills, ?_⟩
    intro below k hbelow
    have hx₀ : s₀.tables source i = pageFormat.link x := hsame.symm.trans hx
    rcases roleAt_own_snoc (c := c) (i := i) (hbelow ▸ hlen) with ⟨l, hl⟩
    have hxowner : owner₀ x = some (.own c (path ++ [i])) :=
      (h₀.tracks.linked.child_owner hsource (hnext c) (by rw [hx₀, pageFormat.child_link])).2
    calc
      readAt pageFormat s'.tables target (i :: below) k
          = readAt pageFormat s'.tables y below k := readAt_cons_link hy
      _ = readAt pageFormat s.tables x below k := hcopies below k hbelow
      _ = readAt pageFormat s₀.tables x below k := hkept.readAt_same h₀ hxowner hl
      _ = readAt pageFormat s₀.tables source (i :: below) k := (readAt_cons_link hx₀).symm

/-- The lowest level copies its entries one by one. -/
lemma clonePt_clones {p q r : Index} (hzero : D 0#64) : Clones D c d [p, q, r] 0 clonePt := by
  intro owner f g s s' h hf hs
  refine cloneTable_spec (C := fun t => Copies 0 s.tables f t.tables g) hzero h ?_ hs
  intro owner₁ s₁ s₂ hnew hnone hg hblank hloop
  have hdata : ∀ (e : Ctx) i, roleNext (.own e [p, q, r]) i = none := by simp [roleNext]
  have hfilled := forEach_fills (Q := fun i t => t.tables g i = s.tables f i) hnew.holding hg
    (fun i _ => hblank i) (by
      intro i _ owner₂ t t' hfills _ hbody
      have heq : copyEntry f g i t = t' := by simpa using hbody
      have hkept := hnew.fresh hnone hfills
      have hf₂ := hkept.ext.keeps _ _ hf
      have hentry : t.tables f i = s.tables f i := hkept.same f _ i hf (Set.notMem_empty _)
      have hwrite := hkept.holding.write_data (hfills.ext.keeps _ _ hg) (hdata d i)
        (hkept.holding.data f _ i hf₂ (hdata c i))
      subst heq
      exact ⟨owner₂, Fills.copy hkept.holding hf₂ hwrite, Tables.set_same.trans hentry⟩)
    (by
      intro i j owner₂ t owner₃ t' _ hg₂ hround hji _ hq
      exact (hround.same g _ j hg₂ (by simpa using hji)).trans hq) hloop
  rcases hfilled with ⟨owner₂, hfills, hall⟩
  refine ⟨owner₂, hfills, ?_⟩
  intro below k hbelow
  rw [eq_nil_of_length_eq_zero hbelow]
  exact hall k (mem_finRange k)

lemma cloneEntries_fills {f g : Frame} {s₁ s₂ : Phys}
    (hclone : ∀ i, Clones D c d (path ++ [i]) n clone)
    (hnext : ∀ i ∈ indices, ∀ e : Ctx, roleNext (.own e path) i = some (.own e (path ++ [i])))
    (hlen : path.length + n ≤ 2) (h : s.Holding D owner) (hf : owner f = some (.own c path))
    (hnew : Fills D owner s ∅ owner₁ s₁) (hnone : owner g = none)
    (hg : owner₁ g = some (.own d path)) (hblank : ∀ q, s₁.tables g q = 0#64)
    (hloop : forEach (cloneEntry clone f g) indices s₁ = some s₂) :
    ∃ owner₂, Fills D owner₁ s₁ {e | e.1 = g ∧ e.2 ∈ indices} owner₂ s₂ ∧
      ∀ i ∈ indices, Copied n s.tables f s₂.tables g i := by
  refine forEach_fills (Q := fun i t => Copied n s.tables f t.tables g i) hnew.holding hg
    (fun i _ => hblank i) ?_ ?_ hloop
  · intro i hi owner₂ t t' hfills hentry hbody
    exact cloneEntry_copied (hclone i) (hnext i hi) hlen h hf (hnew.fresh hnone hfills)
      (hfills.ext.keeps _ _ hg) hentry hbody
  · intro i j owner₂ t owner₃ t' ht hg₂ hround hji hj hq
    refine hq.fill ht hround hg₂ (hnext j hj d) hlen ?_
    rintro e rfl
    exact ⟨rfl, Ne.symm hji⟩

/-- A level above clones if the level below does. -/
lemma cloneTable_clones (hzero : D 0#64) (p : Index) (path : List Index)
    (hlen : path.length + n < 2) (hclone : ∀ i, Clones D c d (p :: path ++ [i]) n clone) :
    Clones D c d (p :: path) (n + 1) fun f =>
      cloneTable fun new => forEach (cloneEntry clone f new) (List.finRange 512) := by
  intro owner f g s s' h hf hs
  refine cloneTable_spec (C := fun t => Copies (n + 1) s.tables f t.tables g) hzero h ?_ hs
  intro owner₁ s₁ s₂ hnew hnone hg hblank hloop
  have hpath : (p :: path).length < 3 := by
    rw [length_cons]
    omega
  have hdepth : (p :: path).length + n ≤ 2 := by
    rw [length_cons]
    omega
  rcases cloneEntries_fills hclone (fun _ _ _ => roleNext_own_lower hpath (by simp)) hdepth h hf
    hnew hnone hg hblank hloop with ⟨owner₂, hfills, hall⟩
  refine ⟨owner₂, hfills, ?_⟩
  intro below k hbelow
  cases below with
  | nil => exact absurd hbelow (Nat.zero_ne_add_one n)
  | cons i below => exact hall i (mem_finRange i) below k (Nat.succ.inj hbelow)

lemma clonePd_clones {p q : Index} (hzero : D 0#64) : Clones D c d [p, q] 1 clonePd :=
  cloneTable_clones hzero p [q] (Nat.lt_succ_self 1) fun _ => clonePt_clones hzero

lemma clonePdpt_clones {p : Index} (hzero : D 0#64) : Clones D c d [p] 2 clonePdpt :=
  cloneTable_clones hzero p [] (Nat.lt_succ_self 1) fun _ => clonePd_clones hzero

/-- What `clone_paging_info` has done, from the root `source` into the new root `r` of context `d`. -/
structure Cloned (D : BitVec 64 → Prop) (owner : Frame → Option Role) (s : Phys) (source : Frame)
    (d : Ctx) (r : Frame) (owner' : Frame → Option Role) (s' : Phys) : Prop where
  fills : Fills D owner s ∅ owner' s'
  root : owner' r = some (.own d [])
  lower : ∀ i ∈ lowerHalf, Copied 2 s.tables source s'.tables r i
  upper : ∀ i ∈ upperHalf, s'.tables r i = s.tables source i

lemma mem_upperHalf : i ∈ upperHalf ↔ ¬ i.val < 256 := by
  simp [upperHalf]

lemma mem_lowerHalf : i ∈ lowerHalf ↔ i.val < 256 := by
  simp [lowerHalf]

/-- The loop over the upper half copies the entries, not the tables. -/
lemma copyUpper_fills {r : Frame} {s₁ s₂ : Phys} (hsource : owner source = some (.own c []))
    (hkept : Fills D owner s ∅ owner₁ s₁) (hnone : owner r = none)
    (hr : owner₁ r = some (.own d [])) (hblank : ∀ i ∈ upperHalf, s₁.tables r i = 0#64)
    (hloop : forEach (fun i s => some (copyEntry source r i s)) upperHalf s₁ = some s₂) :
    ∃ owner₂, Fills D owner₁ s₁ {e | e.1 = r ∧ e.2 ∈ upperHalf} owner₂ s₂ ∧
      ∀ i ∈ upperHalf, s₂.tables r i = s.tables source i := by
  refine forEach_fills (Q := fun i t => t.tables r i = s.tables source i) hkept.holding hr hblank
    ?_ ?_ hloop
  · intro i hi owner₂ t t' hfills _ hbody
    have heq : copyEntry source r i t = t' := by simpa using hbody
    have hnext : ∀ e : Ctx, roleNext (.own e []) i = some (.shared 2) :=
      fun e => roleNext_own_upper (mem_upperHalf.1 hi)
    have hkept₂ := hkept.fresh hnone hfills
    have hsource₂ := hkept₂.ext.keeps _ _ hsource
    have hentry : t.tables source i = s.tables source i :=
      hkept₂.same source _ i hsource (Set.notMem_empty _)
    have hwrite := hkept₂.holding.write_entry (hfills.ext.keeps _ _ hr) (hnext d)
      (hkept₂.holding.tracks.linked source _ i _ hsource₂ (hnext c))
    subst heq
    exact ⟨owner₂, Fills.copy hkept₂.holding hsource₂ hwrite, Tables.set_same.trans hentry⟩
  · intro i j owner₂ t owner₃ t' _ hr₂ hround hji _ hq
    exact (hround.same r _ j hr₂ (by simpa using hji)).trans hq

/-- What `clone_paging_info` leaves, from any state of the tables. -/
lemma clonePagingInfo_spec {r : Frame} (hzero : D 0#64) (h : s.Holding D owner)
    (hsource : owner source = some (.own c []))
    (hs : clonePagingInfo source none s = some (r, s')) :
    ∃ owner', Cloned D owner s source d r owner' s' := by
  rcases clonePagingInfo_cases hs with ⟨s₀, s₂, halloc, hlower, hupper⟩
  rcases Fills.alloc hzero h halloc (.own d []) with ⟨hnone, hblank, hnew⟩
  have hroot : update owner r (some (Role.own d [])) r = some (.own d []) := by simp
  have hclone : ∀ i, Clones D c d ([] ++ [i]) 2 clonePdpt := fun _ => clonePdpt_clones hzero
  rcases cloneEntries_fills hclone (fun i hi e => roleNext_own_root hi) (Nat.le_refl 2) h hsource
    hnew hnone hroot hblank hlower with ⟨owner₂, hfills₂, hcopied⟩
  have hkept₂ := hnew.fresh hnone hfills₂
  have hroot₂ := hfills₂.ext.keeps _ _ hroot
  -- the first loop has not touched the upper half of the new root
  have hblank₂ : ∀ i ∈ upperHalf, s₂.tables r i = 0#64 := by
    intro i hi
    rw [hfills₂.same r _ i hroot fun hin => mem_upperHalf.1 hi (mem_lowerHalf.1 hin.2)]
    exact hblank i
  rcases copyUpper_fills hsource hkept₂ hnone hroot₂ hblank₂ hupper with
    ⟨owner₃, hfills₃, hshared⟩
  refine ⟨owner₃, hkept₂.fresh hnone hfills₃, hfills₃.ext.keeps _ _ hroot₂, ?_, hshared⟩
  -- nor does the second loop touch the lower half
  intro i hi
  refine (hcopied i hi).fill hkept₂.holding hfills₃ hroot₂ (roleNext_own_root hi) (Nat.le_refl 2) ?_
  rintro e ⟨he, hin⟩
  refine ⟨he, ?_⟩
  rintro rfl
  exact mem_upperHalf.1 hin (mem_lowerHalf.1 hi)

end Clone

end SigmaOS.Arch.Paging
