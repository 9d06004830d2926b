import SigmaOS.Arch.CloneIsolation

/-!
# Arch.PagingFrame — what mapping and cloning leave alone

`Phys.Draws W s s'`: on the way from `s` to `s'` frames were allocated and none was released, and
of the frames that the allocator could not give away only those in `W` were written.  Cloning
writes none of them (`clonePagingInfo_draws`), mapping only tables (`mapPage_draws`), so memory
that is no table keeps its content, whether it belongs to the allocator or not.
-/

namespace SigmaOS.Arch.Paging

open Function List
open Lib

/-! ## Frames that the allocator does not give away -/

def Phys.Kept (s : Phys) (x : Frame) : Prop :=
  x ∈ s.live ∨ x ∉ s.supply

structure Phys.Draws (W : Frame → Prop) (s s' : Phys) : Prop where
  supply : ∀ x ∈ s'.supply, x ∈ s.supply
  grows : s.live ⊆ s'.live
  drawn : ∀ x ∈ s'.live, x ∈ s.live ∨ x ∈ s.supply
  spares : ∀ x, s.Kept x → ¬ W x → s'.tables x = s.tables x

def nowhere (_ : Frame) : Prop := False

namespace Phys.Draws

variable {W W' : Frame → Prop} {s s' s₁ : Phys} {f g x : Frame} {i : Index} {entry : BitVec 64}

lemma refl : Draws W s s :=
  ⟨fun _ hx => hx, Finset.Subset.refl _, fun _ hx => .inl hx, fun _ _ _ => rfl⟩

lemma kept (h : Draws W s s') (hx : s.Kept x) : s'.Kept x := by
  rcases hx with hlive | hnot
  · exact .inl (h.grows hlive)
  · exact .inr fun hin => hnot (h.supply x hin)

lemma foreign (h : Draws W s s') (hlive : x ∉ s.live) (hsupply : x ∉ s.supply) :
    x ∉ s'.live ∧ x ∉ s'.supply := by
  refine ⟨?_, fun hin => hsupply (h.supply x hin)⟩
  intro hin
  rcases h.drawn x hin with hold | hnew
  · exact hlive hold
  · exact hsupply hnew

lemma trans (h : Draws W s s₁) (h' : Draws W' s₁ s') (hsub : ∀ x, s.Kept x → W' x → W x) :
    Draws W s s' := by
  refine ⟨fun x hx => h.supply x (h'.supply x hx), h.grows.trans h'.grows, ?_, ?_⟩
  · intro x hx
    rcases h'.drawn x hx with hlive | hin
    · exact h.drawn x hlive
    · exact .inr (h.supply x hin)
  · intro x hkept hnot
    rw [h'.spares x (h.kept hkept) fun hW' => hnot (hsub x hkept hW')]
    exact h.spares x hkept hnot

lemma touch : Draws W s (s.touch f) :=
  ⟨fun _ hx => hx, Finset.Subset.refl _, fun _ hx => .inl hx, fun _ _ _ => rfl⟩

lemma write : Draws (· = f) s (s.write f i entry) :=
  ⟨fun _ hx => hx, Finset.Subset.refl _, fun _ hx => .inl hx, fun _ _ hne => Tables.set_of_ne hne⟩

lemma clear : Draws (· = f) s (s.clear f) :=
  ⟨fun _ hx => hx, Finset.Subset.refl _, fun _ hx => .inl hx,
    fun _ _ hne => update_of_ne hne _ _⟩

lemma alloc (h : s.alloc = some (g, s')) : g ∈ s.supply ∧ g ∉ s.live ∧ Draws nowhere s s' := by
  cases hs : s.supply with
  | nil => simp [Phys.alloc, hs] at h
  | cons y rest =>
    by_cases hy : y ∈ s.live
    · simp [Phys.alloc, hs, hy] at h
    · have hpair : y = g ∧ { s with supply := rest, live := insert y s.live } = s' := by
        simpa [Phys.alloc, hs, hy] using h
      rcases hpair with ⟨rfl, rfl⟩
      refine ⟨mem_cons_self, hy, ?_, Finset.subset_insert y s.live, ?_, fun _ _ _ => rfl⟩
      · intro x hx
        rw [hs]
        exact mem_cons_of_mem y hx
      · intro x hx
        rcases Finset.mem_insert.1 hx with rfl | hold
        · exact .inr (hs ▸ mem_cons_self)
        · exact .inl hold

lemma ne_of_alloc (h : s.alloc = some (g, s')) (hx : s.Kept x) : x ≠ g := by
  rintro rfl
  rcases alloc h with ⟨hin, hnot, _⟩
  rcases hx with hlive | hout
  · exact hnot hlive
  · exact hout hin

lemma fresh (h : s.alloc = some (g, s₁)) (h' : Draws (· = g) s₁ s') : Draws nowhere s s' :=
  (alloc h).2.2.trans h' fun _ hkept heq => absurd heq (ne_of_alloc h hkept)

end Phys.Draws

section Clone

variable {W : Frame → Prop} {s s' : Phys}

lemma forEach_draws {body : Index → Phys → Option Phys} {indices : List Index}
    (hbody : ∀ i t t', body i t = some t' → Phys.Draws W t t')
    (h : forEach body indices s = some s') : Phys.Draws W s s' :=
  forEach_invariant (P := Phys.Draws W s)
    (fun i _ _ _ ht hb => ht.trans (hbody i _ _ hb) fun _ _ hW => hW) Phys.Draws.refl h

def Spares (clone : Frame → Phys → Option (Frame × Phys)) : Prop :=
  ∀ f s g s', clone f s = some (g, s') → Phys.Draws nowhere s s'

lemma copyEntry_draws {source target : Frame} {i : Index} :
    Phys.Draws (· = target) s (copyEntry source target i s) :=
  Phys.Draws.touch.trans Phys.Draws.write fun _ _ hW => hW

lemma cloneEntry_draws {clone : Frame → Phys → Option (Frame × Phys)} (hclone : Spares clone)
    {source target : Frame} {i : Index} (h : cloneEntry clone source target i s = some s') :
    Phys.Draws (· = target) s s' := by
  have htouch : Phys.Draws (· = target) s (s.touch source) := Phys.Draws.touch
  -- the table behind a present entry is cloned, a huge page copied, an absent entry passed over
  simp only [cloneEntry] at h
  split at h
  · split at h
    · split at h
      · cases h
      · next table s₁ hcl =>
        cases h
        exact (htouch.trans (hclone _ _ _ _ hcl) fun _ _ hW => absurd hW id).trans
          Phys.Draws.write fun _ _ hW => hW
    · cases h
      exact htouch.trans Phys.Draws.write fun _ _ hW => hW
  · cases h
    exact htouch

lemma cloneTable_spares {body : Frame → Frame → Index → Phys → Option Phys}
    (hbody : ∀ f g i t t', body f g i t = some t' → Phys.Draws (· = g) t t') :
    Spares fun f => cloneTable fun new => forEach (body f new) (List.finRange 512) := by
  intro f s g s' h
  rcases cloneTable_cases h with ⟨s₁, halloc, hloop⟩
  exact Phys.Draws.fresh halloc
    (Phys.Draws.clear.trans (forEach_draws (hbody f g) hloop) fun _ _ hW => hW)

lemma clonePt_spares : Spares clonePt :=
  cloneTable_spares fun _ _ _ t t' hcopy => by
    cases hcopy
    exact copyEntry_draws

lemma clonePd_spares : Spares clonePd :=
  cloneTable_spares fun _ _ _ _ _ h => cloneEntry_draws clonePt_spares h

lemma clonePdpt_spares : Spares clonePdpt :=
  cloneTable_spares fun _ _ _ _ _ h => cloneEntry_draws clonePd_spares h

lemma clonePagingInfo_draws {source r : Frame}
    (h : clonePagingInfo source none s = some (r, s')) : Phys.Draws nowhere s s' := by
  rcases clonePagingInfo_cases h with ⟨s₁, s₂, halloc, hlower, hupper⟩
  -- both loops write the new root; what else they write is new as well
  have hfirst : Phys.Draws (· = r) s₁ s₂ :=
    Phys.Draws.clear.trans
      (forEach_draws (fun _ _ _ hb => cloneEntry_draws clonePdpt_spares hb) hlower)
      fun _ _ hW => hW
  have hsecond : Phys.Draws (· = r) s₂ s' := by
    refine forEach_draws (fun i t t' hb => ?_) hupper
    cases hb
    exact copyEntry_draws
  exact Phys.Draws.fresh halloc (hfirst.trans hsecond fun _ _ hW => hW)

end Clone

section Map

variable {L : Type} {next : L → Index → Option L} {owner : Frame → Option L} {s s' : Phys}
  {f g root : Frame} {k l l' : L} {i : Index} {virt : BitVec 64}

def HasRole (owner : Frame → Option L) (x : Frame) : Prop :=
  owner x ≠ none

lemma ensureTable_draws (h : s.Tracks next owner) (hf : owner f = some l)
    (hl : next l i = some l') (he : ensureTable f i s = some (g, s')) :
    ∃ owner', s'.Tracks next owner' ∧ owner' g = some l' ∧
      (∀ x, s.Kept x → owner' x = owner x) ∧ Phys.Draws (HasRole owner) s s' := by
  have hrole : HasRole owner f := by simp [HasRole, hf]
  -- the table is there already, or the entry is zero and a new one is linked
  rcases ensureTable_spec h hf hl he with ⟨_, hg, rfl⟩ | ⟨hzero, _, _, _, htracks⟩
  · exact ⟨owner, h, hg, fun _ _ => rfl, Phys.Draws.refl⟩
  · rcases ensureTable_missing (h.touch hf) hzero he with ⟨s₁, ha, rfl⟩
    refine ⟨_, htracks, update_self g _ owner, ?_, ?_⟩
    · intro y hy
      exact update_of_ne (Phys.Draws.ne_of_alloc ha hy) _ _
    · have hnew : Phys.Draws (HasRole owner) s (s₁.clear g) :=
        Phys.Draws.refl.trans (Phys.Draws.fresh ha Phys.Draws.clear) fun _ _ hW => absurd hW id
      refine hnew.trans Phys.Draws.write ?_
      rintro y _ rfl
      exact hrole

/-- `map_page` takes frames from the allocator for tables only. -/
lemma mapPage_draws {phys flags : BitVec 64} {cache : CacheType} (h : s.Tracks next owner)
    (hroot : owner root = some k) (hrole : roleAt next k (tablePath virt) = some l)
    (hmap : mapPage root phys virt flags cache s = some s') : Phys.Draws (HasRole owner) s s' := by
  rcases roleAt_cons hrole with ⟨l₁, hl₁, hrole₁⟩
  rcases roleAt_cons hrole₁ with ⟨l₂, hl₂, hrole₂⟩
  rcases roleAt_cons hrole₂ with ⟨l₃, hl₃, _⟩
  rcases mapPage_cases hmap with ⟨pdpt, s₁, pd, s₂, pt, s₃, he₁, he₂, he₃, rfl⟩
  rcases ensureTable_draws h hroot hl₁ he₁ with ⟨owner₁, h₁, hpdpt, hsame₁, hdraws₁⟩
  rcases ensureTable_draws h₁ hpdpt hl₂ he₂ with ⟨owner₂, h₂, hpd, hsame₂, hdraws₂⟩
  rcases ensureTable_draws h₂ hpd hl₃ he₃ with ⟨owner₃, h₃, hpt, hsame₃, hdraws₃⟩
  -- a frame that was kept has in the end the role that it had
  have hkeep₂ : ∀ x, s.Kept x → owner₂ x = owner x := fun x hx =>
    (hsame₂ x (hdraws₁.kept hx)).trans (hsame₁ x hx)
  have hdraws₁₂ : Phys.Draws (HasRole owner) s s₂ := by
    refine hdraws₁.trans hdraws₂ ?_
    intro x hx hhas
    rwa [HasRole, hsame₁ x hx] at hhas
  have hdraws₁₃ : Phys.Draws (HasRole owner) s s₃ := by
    refine hdraws₁₂.trans hdraws₃ ?_
    intro x hx hhas
    rwa [HasRole, hkeep₂ x hx] at hhas
  -- the last write is to the page table: an old one has had its role all along
  refine hdraws₁₃.trans Phys.Draws.write ?_
  rintro x hx rfl
  have hthere := hsame₃ x (hdraws₁₂.kept hx)
  rw [HasRole, ← hkeep₂ x hx, ← hthere, hpt]
  simp

end Map

/-! ## The lower half of a context -/

/-- No entry of the lower half of context `c` is written, in none of its tables. -/
def KeepsLower (c : Ctx) (owner : Frame → Option Role) (s s' : Phys) : Prop :=
  ∀ x path q, owner x = some (.own c path) → (path = [] → q.val < 256) →
    s'.tables x q = s.tables x q

section Lower

variable {owner owner' : Frame → Option Role} {s s' : Phys} {a c : Ctx} {root : Frame} {l : Role}
  {virt v entry : BitVec 64} {path : List Index}

lemma KeepsLower.trans {owner₁ : Frame → Option Role} {s₁ : Phys} (h : KeepsLower c owner s s₁)
    (hkeeps : ∀ x l, owner x = some l → owner₁ x = some l) (h' : KeepsLower c owner₁ s₁ s') :
    KeepsLower c owner s s' :=
  fun x path q hx hq => (h' x path q (hkeeps x _ hx) hq).trans (h x path q hx hq)

section

variable (h : KeepsLower c owner s s') (hlinked : Linked pageFormat roleNext owner s.tables)
  (hroot : owner root = some (.own c [])) (hv : ¬ IsUpper v)
include h hlinked hroot hv

/-- What is read through the lower half stays. -/
lemma KeepsLower.readAt :
    readAt pageFormat s'.tables root (tablePath v) (ptIndex v) =
      readAt pageFormat s.tables root (tablePath v) (ptIndex v) := by
  have hi : (pml4Index v).val < 256 := Nat.lt_of_not_le hv
  have hentry : s'.tables root (pml4Index v) = s.tables root (pml4Index v) :=
    h root [] _ hroot fun _ => hi
  have hnext : roleNext (.own c []) (pml4Index v) = some (.own c [pml4Index v]) :=
    roleNext_own_lower (Nat.succ_pos 2) fun _ => hi
  rcases hlinked root _ _ _ hroot hnext with hempty | ⟨y, hlink, hy⟩
  · rw [tablePath, readAt_cons_empty hempty, readAt_cons_empty (hentry.trans hempty)]
  · rw [tablePath, readAt_cons_link hlink, readAt_cons_link (hentry.trans hlink)]
    -- below the root all entries belong to the lower half
    refine hlinked.readAt_congr (fun l => ∃ p path, l = .own c (p :: path)) ?_ ?_ hy ⟨_, _, rfl⟩
      (roleAt_own (Nat.le_refl 3) (by simp))
    · rintro _ q l' ⟨p, path, rfl⟩ hl'
      rcases roleNext_cases hl' with ⟨_, _, _, hl, rfl⟩ | ⟨_, hl, _⟩ | ⟨_, hl, _⟩
      · cases hl
        exact ⟨p, path ++ [q], rfl⟩
      · cases hl
      · cases hl
    · rintro x _ q hx ⟨p, path, rfl⟩
      exact h x _ q hx (by simp)

lemma KeepsLower.lookup : lookup s'.tables root v = lookup s.tables root v := by
  rw [lookup_eq, lookup_eq, ← tablePath, h.readAt hlinked hroot hv]

end

lemma roleAt_ofOrShared (hrole : roleAt roleNext (.own a []) path = some l) : l.OfOrShared a := by
  refine roleAt_kept (Role.OfOrShared a) (fun _ _ _ => roleNext_ofOrShared) ?_ hrole
  rintro c' path' heq
  exact (Role.own.inj heq).1.symm

lemma roleAt_upper_own {before : List Index} (hv : IsUpper virt) (hne : before ≠ [])
    (hbefore : before <+: tablePath virt) :
    roleAt roleNext (.own a []) before ≠ some (.own c path) := by
  intro hrole
  cases before with
  | nil => exact hne rfl
  | cons i before =>
    have hi : i = pml4Index virt := (cons_prefix_cons.1 hbefore).1
    have hlen : before.length ≤ 2 := (cons_prefix_cons.1 hbefore).2.length_le
    have hupper : ¬ i.val < 256 := hi ▸ Nat.not_lt.2 hv
    simp [roleAt, roleNext_own_upper hupper, roleAt_shared hlen] at hrole

/-- A page of another context, or of the upper half, leaves a lower half alone. -/
lemma PageMapped.keepsLower
    (hmapped : PageMapped roleNext owner s root (.own a []) l virt entry owner' s')
    (hrole : roleAt roleNext (.own a []) (tablePath virt) = some l) (hca : c ≠ a ∨ IsUpper virt) :
    KeepsLower c owner s s' := by
  intro x path q hx hq
  -- an entry that was written is one on the way to `virt`
  have hsame : s'.tables x q = s.tables x q ∨
      ∃ before, before <+: tablePath virt ∧ (before = [] → q = pml4Index virt) ∧
        roleAt roleNext (.own a []) before = some (.own c path) := by
    cases hnext : roleNext (.own c path) q with
    | none =>
      rcases hmapped.data x _ q hx hnext with hsame | ⟨_, hl, _⟩
      · exact .inl hsame
      · exact .inr ⟨_, prefix_refl _, by simp [tablePath], hl ▸ hrole⟩
    | some l' =>
      rcases hmapped.links x _ q l' hx hnext with hsame | ⟨_, before, hbefore, hat⟩
      · exact .inl hsame
      · refine .inr ⟨before, (prefix_append _ _).trans hbefore, ?_, hat⟩
        rintro rfl
        exact (cons_prefix_cons.1 hbefore).1
  rcases hsame with hsame | ⟨before, hbefore, hfirst, hat⟩
  · exact hsame
  · have hc : c = a := roleAt_ofOrShared hat c path rfl
    have hv : IsUpper virt := hca.resolve_left fun hne => hne hc
    by_cases hnil : before = []
    · -- the root: the entry that was passed is one of the upper half
      rw [hnil] at hat
      have hpath : path = [] := (Role.own.inj (Option.some.inj hat)).2.symm
      have hlow := hq hpath
      rw [hfirst hnil] at hlow
      exact absurd hv (Nat.not_le.2 hlow)
    · exact absurd hat (roleAt_upper_own hv hnil hbefore)

lemma PageMapped.lookup_written {phys flags : BitVec 64} {cache : CacheType}
    (h : PageMapped roleNext owner s root (.own a []) l virt (pageEntry phys flags cache) owner' s')
    (hflags : flags.getLsbD 0 = true) :
    lookup s'.tables root virt = some (pageEntry phys flags cache) := by
  rw [lookup_eq, ← tablePath, h.written]
  simp [present_pageEntry, hflags]

/-- After a page was mapped, the other lower pages lead where they did. -/
lemma PageMapped.lookup_rest
    (h : PageMapped roleNext owner s root (.own a []) l virt entry owner' s')
    (hrole : roleAt roleNext (.own a []) (tablePath virt) = some l)
    (hroot : owner root = some (.own a [])) (hv : ¬ IsUpper v) (hpage : pageOf v ≠ pageOf virt) :
    lookup s'.tables root v = lookup s.tables root v := by
  have hpath : roleAt roleNext (.own a []) (tablePath v) = some (.own a (tablePath v)) :=
    roleAt_lower hv (prefix_refl _)
  have hdata : roleNext (.own a (tablePath v)) (ptIndex v) = none := by simp [tablePath, roleNext]
  have hread := h.reads root _ _ _ _ hroot hpath hdata (by
    intro hl hpt
    -- the same page table and the same entry: the same page
    have hlower : ¬ IsUpper virt := by
      intro hup
      rw [roleAt_upper hup, ← hl] at hrole
      simp at hrole
    rw [roleAt_lower hlower (prefix_refl _), ← hl] at hrole
    have hsame : tablePath virt = tablePath v := (Role.own.inj (Option.some.inj hrole)).2
    have hindices : pml4Index virt = pml4Index v ∧ pdptIndex virt = pdptIndex v ∧
        pdIndex virt = pdIndex v := by
      simpa [tablePath] using hsame
    rcases hindices with ⟨h4, h3, h2⟩
    exact hpage (pageOf_eq_iff.2 ⟨h4.symm, h3.symm, h2.symm, hpt⟩))
  rw [lookup_eq, lookup_eq, ← tablePath, hread]

end Lower

/-! ## Memory that grows -/

/-- From `s` to `s'` tables were added, and besides new frames only tables were written. -/
structure Grows (owner : Frame → Option Role) (s : Phys) (owner' : Frame → Option Role)
    (s' : Phys) : Prop where
  tracks : s'.Tracks roleNext owner'
  ext : Extends owner s owner' s'
  draws : Phys.Draws (HasRole owner) s s'

namespace Grows

variable {owner owner₁ owner' : Frame → Option Role} {s s₁ s' : Phys} {root x g : Frame} {c : Ctx}

lemma refl (h : s.Tracks roleNext owner) : Grows owner s owner s :=
  ⟨h, Extends.refl, Phys.Draws.refl⟩

lemma plain (h : Grows owner s owner' s') (hx : s.Kept x) (hnone : owner x = none) :
    owner' x = none := by
  -- outstanding frames keep being no tables; a foreign one is never handed out
  by_cases hlive : x ∈ s.live
  · exact h.ext.others x hlive hnone
  · have hout : x ∉ s.supply := hx.resolve_left hlive
    exact h.tracks.owner_none (h.draws.foreign hlive hout).1

lemma content (h : Grows owner s owner' s') (hx : s.Kept x) (hnone : owner x = none) :
    s'.tables x = s.tables x :=
  h.draws.spares x hx fun hrole => hrole hnone

lemma trans (h : Grows owner s owner₁ s₁) (h' : Grows owner₁ s₁ owner' s') :
    Grows owner s owner' s' := by
  refine ⟨h'.tracks, h.ext.trans h'.ext, h.draws.trans h'.draws ?_⟩
  intro x hkept hrole hnone
  exact hrole (h.plain hkept hnone)

lemma alloc (h : s.Tracks roleNext owner) (ha : s.alloc = some (g, s')) :
    Grows owner s owner s' := by
  have hdraws := (Phys.Draws.alloc ha).2.2
  refine ⟨(h.alloc_data ha).1, Extends.of_live hdraws.grows, ?_⟩
  exact Phys.Draws.refl.trans hdraws fun _ _ hW => absurd hW id

lemma fill (h : Grows owner s owner' s') (hg : ¬ s.Kept g) (hnone : owner' g = none)
    (content : Index → BitVec 64) :
    Grows owner s owner' { s' with tables := update s'.tables g content } := by
  -- no table is affected, so all roles stay
  have hsame : ∀ x l, owner' x = some l → update s'.tables g content x = s'.tables x :=
    fun x l hx => update_of_ne (Linked.ne_of_owner hx hnone) _ _
  have hholding : Phys.Holding (fun _ => True) owner'
      { s' with tables := update s'.tables g content } :=
    h.tracks.holding.of_same hsame rfl rfl
  refine ⟨hholding.tracks, ⟨h.ext.keeps, h.ext.outstanding, h.ext.others⟩, h.draws.supply,
    h.draws.grows, h.draws.drawn, ?_⟩
  intro x hkept hrole
  have hxg : x ≠ g := by
    rintro rfl
    exact hg hkept
  exact (update_of_ne hxg _ _).trans (h.draws.spares x hkept hrole)

lemma mapPage {phys virt flags : BitVec 64} {cache : CacheType} (h : s.Tracks roleNext owner)
    (hroot : owner root = some (.own c []))
    (hmap : Paging.mapPage root phys virt flags cache s = some s') :
    ∃ owner' l, Grows owner s owner' s' ∧ roleAt roleNext (.own c []) (tablePath virt) = some l ∧
      PageMapped roleNext owner s root (.own c []) l virt (pageEntry phys flags cache)
        owner' s' := by
  rcases mapPage_root h hroot hmap with ⟨owner', l, hrole, hmapped⟩
  exact ⟨owner', l, ⟨hmapped.tracks, ⟨hmapped.keeps, hmapped.outstanding, hmapped.others⟩,
    mapPage_draws h hroot hrole hmap⟩, hrole, hmapped⟩

lemma clonePagingInfo {new : Frame} (d : Ctx) (h : s.Tracks roleNext owner)
    (hroot : owner root = some (.own c []))
    (hclone : Paging.clonePagingInfo root none s = some (new, s')) :
    ∃ owner', Grows owner s owner' s' ∧ Cloned (fun _ => True) owner s root d new owner' s' ∧
      ∀ a, KeepsLower a owner s s' := by
  rcases clonePagingInfo_spec (d := d) trivial h.holding hroot hclone with ⟨owner', hcloned⟩
  refine ⟨owner', ⟨hcloned.fills.holding.tracks, hcloned.fills.ext, ?_⟩, hcloned, ?_⟩
  · exact Phys.Draws.refl.trans (clonePagingInfo_draws hclone) fun _ _ hW => absurd hW id
  · intro a x path q hx _
    exact hcloned.fills.same x _ q hx (Set.notMem_empty _)

end Grows

lemma Cloned.lookup_clone {D : BitVec 64 → Prop} {owner owner' : Frame → Option Role}
    {s s' : Phys} {source new : Frame} {d : Ctx} {v : BitVec 64}
    (h : Cloned D owner s source d new owner' s') (hv : ¬ IsUpper v) :
    lookup s'.tables new v = lookup s.tables source v := by
  have hread := h.lower (pml4Index v) (mem_lowerHalf.2 (Nat.lt_of_not_le hv))
    [pdptIndex v, pdIndex v] (ptIndex v) rfl
  rw [lookup_eq, lookup_eq, hread]

/-! ## Tables in use -/

/-- How many levels of tables there may be below a table. -/
def Role.levels : Role → Nat
  | .own _ path => 3 - path.length
  | .shared k => k

lemma roleNext_levels {l l' : Role} {i : Index} (h : roleNext l i = some l') :
    l'.levels < l.levels := by
  rcases roleNext_cases h with ⟨c, path, hlen, rfl, rfl⟩ | ⟨c, rfl, rfl⟩ | ⟨k, rfl, rfl⟩
  · show 3 - (path ++ [i]).length < 3 - path.length
    rw [length_append, length_singleton]
    omega
  · exact Nat.lt_succ_self 2
  · exact Nat.lt_succ_self k

lemma roleAt_length {l' : Role} {path : List Index} {l : Role}
    (h : roleAt roleNext l path = some l') : path.length ≤ l.levels := by
  induction path generalizing l with
  | nil => exact Nat.zero_le _
  | cons i path ih =>
    rcases roleAt_cons h with ⟨l₁, hnext, hl₁⟩
    exact Nat.lt_of_le_of_lt (ih hl₁) (roleNext_levels hnext)

namespace Machine

def IsTable (m : Machine) (f : Frame) : Prop :=
  ∃ c r, c ∉ m.retired ∧ m.roots c = some r ∧ TableOf m.phys.tables r f

lemma IsTable.live {m : Machine} {f : Frame} (h : m.IsTable f) (hinv : m.Inv) :
    f ∈ m.phys.live := by
  rcases hinv with ⟨owner, htracks, hroots⟩
  rcases h with ⟨c, r, hc, hr, htable⟩
  rcases htable.role htracks.linked (hroots c r hc hr) with ⟨l, hl, _⟩
  exact htracks.live f l hl

/-- The invariant of the lifecycle gives the tables their roles. -/
lemma Inv.tables {m : Machine} (h : m.Inv) :
    ∃ owner, m.phys.Tracks roleNext owner ∧
      (∀ c r, c ∉ m.retired → m.roots c = some r → owner r = some (.own c [])) ∧
      ∀ f, owner f ≠ none → m.IsTable f := by
  classical
  rcases h with ⟨owner, htracks, hroots⟩
  -- a table without a context in use may be forgotten
  let Reached (f : Frame) : Prop := ∃ c r path l, c ∉ m.retired ∧ m.roots c = some r ∧
    roleAt roleNext (.own c []) path = some l ∧ walk pageFormat m.phys.tables r path = some f
  have hiff : ∀ f l, (if Reached f then owner f else none) = some l ↔
      Reached f ∧ owner f = some l := by
    intro f l
    by_cases hf : Reached f
    · simp [hf]
    · simp [hf]
  refine ⟨fun f => if Reached f then owner f else none, ⟨?_, ?_, htracks.clean⟩, ?_, ?_⟩
  · -- what a table in use links to is in use
    intro f l p l' hf hl
    rcases (hiff f l).1 hf with ⟨⟨c, r, path, l₁, hc, hr, hrole, hwalk⟩, hfl⟩
    have hll : l₁ = l := by
      have hf₁ := htracks.linked.walk_owner (hroots c r hc hr) hrole hwalk
      exact Option.some.inj (hf₁.symm.trans hfl)
    rcases htracks.linked f l p l' hfl hl with hempty | ⟨g, hlink, hg⟩
    · exact .inl hempty
    · refine .inr ⟨g, hlink, (hiff g l').2 ⟨⟨c, r, path ++ [p], l', hc, hr, ?_, ?_⟩, hg⟩⟩
      · exact roleAt_snoc (hll ▸ hl) hrole
      · exact walk_snoc hlink hwalk
  · intro f l hf
    exact htracks.live f l ((hiff f l).1 hf).2
  · intro c r hc hr
    exact (hiff r _).2 ⟨⟨c, r, [], .own c [], hc, hr, rfl, rfl⟩, hroots c r hc hr⟩
  · intro f hf
    by_cases hreached : Reached f
    · rcases hreached with ⟨c, r, path, l, hc, hr, hrole, hwalk⟩
      exact ⟨c, r, hc, hr, path, roleAt_length hrole, hwalk⟩
    · exact absurd (if_neg hreached) hf

end Machine

end SigmaOS.Arch.Paging
