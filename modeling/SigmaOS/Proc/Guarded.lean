import SigmaOS.Arch.PagingClone
import SigmaOS.Proc.System

/-!
# Proc.Guarded — memory that user code may reach

`Guarded H owner s`: every page entry that is open to user code leads to a frame of `H`, and no
frame of `H` holds a table.  It is about the tables with a role; whoever has tables without one may
have mapped whatever they like.
-/

namespace SigmaOS.Proc.Process

open Lib Arch.Paging

/-- If the entry is open to user code, it leads to a frame of `H`. -/
def Granted (H : Frame → Prop) (entry : BitVec 64) : Prop :=
  present entry = true → entry.getLsbD 2 = true → H (getFrame entry)

variable {H : Frame → Prop} {cache : CacheType}

lemma granted_zero : Granted H 0#64 := by
  intro hpresent
  exact absurd hpresent (by decide)

lemma granted_pageEntry {phys flags : BitVec 64} (hframe : H (getFrame phys)) :
    Granted H (pageEntry phys flags cache) := by
  intro _ _
  rw [getFrame_pageEntry]
  exact hframe

lemma granted_kernel {phys flags : BitVec 64} (hflags : flags.getLsbD 2 = false) :
    Granted H (pageEntry phys flags cache) := by
  intro _ huser
  rw [pageEntry_user, hflags] at huser
  exact absurd huser (by simp)

def UserPage (m : Tables Frame Index (BitVec 64)) (root : Frame) (virt : BitVec 64) : Prop :=
  ∃ entry, lookup m root virt = some entry ∧ entry.getLsbD 2 = true

/-! ## Guarded memory -/

structure Guarded (H : Frame → Prop) (owner : Frame → Option Role) (s : Phys) : Prop where
  holding : s.Holding (Granted H) owner
  handed : ∀ f, H f → f ∈ s.live ∧ owner f = none

def GuardedFrom (H : Frame → Prop) (owner : Frame → Option Role) (s s' : Phys) : Prop :=
  ∃ owner', Guarded H owner' s' ∧ Extends owner s owner' s'

section Guard

variable {H H₀ : Frame → Prop} {owner owner' : Frame → Option Role} {s s' s₁ : Phys} {c : Ctx}
  {root f g : Frame} {virt : BitVec 64}

lemma Guarded.refl (h : Guarded H owner s) : GuardedFrom H owner s s :=
  ⟨owner, h, Extends.refl⟩

variable {H' : Frame → Prop} {cache : CacheType} {entry : BitVec 64}

lemma GuardedFrom.trans {owner₁ : Frame → Option Role} (hext : Extends owner s owner₁ s₁)
    (h : GuardedFrom H' owner₁ s₁ s') : GuardedFrom H' owner s s' := by
  rcases h with ⟨owner', h', hext'⟩
  exact ⟨owner', h', hext.trans hext'⟩

section

variable (h : Guarded H owner s)
include h

lemma Guarded.extend (h' : s'.Holding (Granted H) owner') (hext : Extends owner s owner' s') :
    Guarded H owner' s' := by
  refine ⟨h', ?_⟩
  intro f hf
  rcases h.handed f hf with ⟨hlive, hnone⟩
  exact ⟨hext.outstanding hlive, hext.others f hlive hnone⟩

lemma Guarded.grown (h' : s.Grown (Granted H) owner s') : GuardedFrom H owner s s' := by
  rcases h' with ⟨owner', hholding, hext⟩
  exact ⟨owner', h.extend hholding hext, hext⟩

lemma Guarded.congr (hiff : ∀ f, H f ↔ H' f) : Guarded H' owner s := by
  have heq : H = H' := funext fun f => propext (hiff f)
  exact heq ▸ h

lemma Guarded.of_same (hsame : ∀ x l, owner x = some l → s'.tables x = s.tables x)
    (hlive : s'.live = s.live) (hmisuse : s'.misuse = s.misuse) : Guarded H owner s' := by
  refine ⟨h.holding.of_same hsame hlive hmisuse, ?_⟩
  intro f hf
  rw [hlive]
  exact h.handed f hf

lemma Guarded.write (hf : owner f = none) (page : Index → BitVec 64) :
    Guarded H owner { s with tables := Function.update s.tables f page } :=
  h.of_same (fun _ _ hx => Function.update_of_ne (Linked.ne_of_owner hx hf) _ _) rfl rfl

lemma Guarded.alloc_kernel (ha : s.alloc = some (g, s')) :
    Guarded H owner s' ∧ Extends owner s owner s' := by
  rcases h.holding.alloc_data ha with ⟨h', _, _, hlive⟩
  have hext : Extends owner s owner s' := Extends.of_live hlive
  exact ⟨h.extend h' hext, hext⟩

lemma Guarded.alloc_user (ha : s.alloc = some (g, s')) :
    Guarded (fun f => H f ∨ f = g) owner s' ∧ Extends owner s owner s' := by
  rcases h.holding.alloc_data ha with ⟨h', hnone, hg, _⟩
  rcases h.alloc_kernel ha with ⟨hguard, hext⟩
  refine ⟨⟨⟨h'.tracks, ?_⟩, ?_⟩, hext⟩
  · intro x l q hx hl hpresent huser
    exact .inl (h'.data x l q hx hl hpresent huser)
  · intro f hf
    rcases hf with hf | rfl
    · exact hguard.handed f hf
    · exact ⟨hg, hnone⟩

lemma Guarded.mapPage {phys flags : BitVec 64} (hroot : owner root = some (.own c []))
    (hentry : Granted H (pageEntry phys flags cache))
    (hmap : mapPage root phys virt flags cache s = some s') : GuardedFrom H owner s s' :=
  h.grown (h.holding.mapPage granted_zero hroot hentry hmap)

lemma Guarded.mapWindow {phys flags : BitVec 64} (hroot : owner root = some (.own c []))
    (hflags : flags.getLsbD 2 = false) (hmap : mapWindow root phys flags cache s = some s') :
    GuardedFrom H owner s s' :=
  h.mapPage hroot (granted_kernel hflags) hmap

end

lemma lookup_data {D : BitVec 64 → Prop} (h : s.Holding D owner)
    (hroot : owner root = some (.own c [])) (hlookup : lookup s.tables root virt = some entry) :
    D entry := by
  rcases roleAt_root c (pml4Index virt) (pdptIndex virt) (pdIndex virt) with ⟨l, hrole, hdata⟩
  rcases lookup_eq_some.1 hlookup with ⟨pt, hwalk, rfl, _⟩
  exact h.data pt l _ (h.tracks.linked.walk_owner hroot hrole hwalk) (hdata _)

lemma Guarded.user_frame (h : Guarded H owner s) (hroot : owner root = some (.own c []))
    (hlookup : lookup s.tables root virt = some entry) (huser : entry.getLsbD 2 = true) :
    H (getFrame entry) :=
  lookup_data h.holding hroot hlookup (lookup_present hlookup) huser

lemma UserPage.mapPage {x : Frame} {k : Ctx} {phys v flags : BitVec 64}
    (hpage : UserPage s.tables x v) (h : s.Tracks roleNext owner) (hx : owner x = some (.own k []))
    (hroot : owner root = some (.own c [])) (hpresent : flags.getLsbD 0 = true)
    (huser : flags.getLsbD 2 = true) (hmap : mapPage root phys virt flags cache s = some s') :
    UserPage s'.tables x v := by
  rcases hpage with ⟨entry, hlookup, hentry⟩
  rcases mapPage_root h hroot hmap with ⟨owner', l, _, hmapped⟩
  rcases roleAt_root k (pml4Index v) (pdptIndex v) (pdIndex v) with ⟨l', hrole, hdata⟩
  rcases lookup_eq_some.1 hlookup with ⟨pt, hwalk, rfl, hold⟩
  rcases hmapped.persists h hx hrole (hdata (ptIndex v)) hwalk with ⟨hwalk', hsame | hnew⟩
  · refine ⟨_, lookup_eq_some.2 ⟨pt, hwalk', hsame, hold⟩, hentry⟩
  · refine ⟨_, lookup_eq_some.2 ⟨pt, hwalk', hnew, ?_⟩, ?_⟩
    · rw [present_pageEntry, hpresent]
    · rw [pageEntry_user, huser]

end Guard

/-! ## Stores -/

/-- No address of the buffer is on a page that is mapped for the kernel only. -/
def UserBuffer (m : Tables Frame Index (BitVec 64)) (root : Frame) (virt : BitVec 64) (n : Nat) :
    Prop :=
  ∀ k, k < n → ∀ entry, lookup m root (virt + BitVec.ofNat 64 k) = some entry →
    entry.getLsbD 2 = true

section Store

variable {H : Frame → Prop} {owner : Frame → Option Role} {s s' : Phys} {c : Ctx} {root : Frame}
  {virt : BitVec 64}

/-- What the kernel or user code writes to a page open to user code is in no table. -/
lemma Guarded.storeFrame {user : Bool} {f : Frame} (h : Guarded H owner s)
    (hroot : owner root = some (.own c []))
    (huser : user = true ∨ ∀ entry, lookup s.tables root virt = some entry → entry.getLsbD 2 = true)
    (hf : storeFrame s.tables root user virt = some f) : owner f = none := by
  rcases storeFrame_cases hf with ⟨entry, hlookup, rfl, _, hentry⟩
  have hopen : entry.getLsbD 2 = true := by
    rcases huser with hmode | hpage
    · exact hentry hmode
    · exact hpage entry hlookup
  exact (h.handed _ (h.user_frame hroot hlookup hopen)).2

lemma Guarded.same (h : Guarded H owner s) (hsame : SameTables owner s s') : Guarded H owner s' :=
  h.of_same hsame.tables hsame.live hsame.misuse

lemma Guarded.writeBytes {bytes : List (BitVec 8)} (h : Guarded H owner s)
    (hroot : owner root = some (.own c [])) (hbuffer : UserBuffer s.tables root virt bytes.length) :
    SameTables owner s (writeBytes root virt bytes s).2 :=
  writeBytes_same h.holding.tracks hroot fun k hk _ _ hf =>
    h.storeFrame hroot (.inr (hbuffer k hk)) hf

end Store

section Loops

variable {H H₀ : Frame → Prop} {owner : Frame → Option Role} {s s' : Phys} {c : Ctx}
  {root kernel child : Frame}

/-- The frames of the other threads, and those of the thread that is working. -/
def HandedTo (H₀ : Frame → Prop) (m : Mem) (f : Frame) : Prop :=
  H₀ f ∨ f ∈ m.frames

variable {frames blocks : List Frame} {block : Frame} {flags base : BitVec 64} {n : Nat}
  {owner : Frame → Option Role} {s : Phys}

lemma handedTo_snoc {phys : Phys} {f : Frame} {phys' : Phys} :
    (HandedTo H₀ ⟨phys, frames⟩ f ∨ f = block) ↔ HandedTo H₀ ⟨phys', frames ++ [block]⟩ f := by
  simp [HandedTo, or_assoc]

lemma Guarded.mapBlock {virt : BitVec 64} {s₂ : Phys} (h : Guarded H owner s)
    (hroot : owner root = some (.own c [])) (halloc : s.alloc = some (block, s₁))
    (hmap : Arch.Paging.mapPage root block.1 virt flags .normal s₁ = some s₂) :
    ∃ owner₂, Guarded (fun f => H f ∨ f = block) owner₂ s₂ ∧ Extends owner s owner₂ s₂ := by
  rcases h.alloc_user halloc with ⟨h₁, hext₁⟩
  have hentry : Granted (fun f => H f ∨ f = block) (pageEntry block.1 flags .normal) :=
    granted_pageEntry (.inr (getFrame_frame block))
  rcases h₁.mapPage hroot hentry hmap with ⟨owner₂, h₂, hext₂⟩
  exact ⟨owner₂, h₂, hext₁.trans hext₂⟩

/-- The kernel may clear a page just after it was mapped for user code. -/
lemma userBuffer_mapPage {virt phys : BitVec 64} {cache : CacheType} {s' : Phys} {N : Nat}
    (h : s.Tracks roleNext owner) (hroot : owner root = some (.own c []))
    (huser : flags.getLsbD 2 = true) (hlower : ¬ IsUpper virt)
    (hmap : Arch.Paging.mapPage root phys virt flags cache s = some s')
    (hbuffer : virt.toNat % 4096 ≠ 0 ∨ 4096 < N → UserBuffer s.tables root virt N) :
    UserBuffer s'.tables root virt N := by
  intro k hk entry hlookup
  rcases lookup_mapPage h hroot hmap hlookup with ⟨_, rfl⟩ | ⟨hother, hold⟩
  · rw [pageEntry_user, huser]
  · refine hbuffer ?_ k hk entry (hold (.inr hlower))
    by_contra hinside
    rw [not_or, not_not] at hinside
    exact hother (pageOf_add hinside.1 (by omega))

/-- The range stays in the lower half; and where its pages are cleared across their ends, none of them,
and not the one behind them, is mapped for the kernel only. -/
structure UserRange (m : Tables Frame Index (BitVec 64)) (root : Frame) (flags : BitVec 64) (n : Nat)
    (base : BitVec 64) : Prop where
  lower : 0 < n → ¬ IsUpper base
  inside : ¬ Overruns flags n base
  buffer : base.toNat % 4096 ≠ 0 → UserBuffer m root base (4096 * (n + 1))

/-- New blocks are mapped for the caller. -/
lemma mapPages_guarded {virt phys : BitVec 64} {done : Bool} {m m' : Mem}
    (huser : flags.getLsbD 2 = true) (h : Guarded (HandedTo H₀ m) owner m.phys)
    (hroot : owner root = some (.own c [])) (hrange : UserRange m.phys.tables root flags n virt)
    (hrun : mapPages root flags false n virt phys m = some (done, m')) :
    GuardedFrom (HandedTo H₀ m') owner m.phys m'.phys := by
  induction n generalizing virt phys m owner with
  | zero =>
    cases hrun
    exact h.refl
  | succ n ih =>
    rcases mapPages_cases hrun with ⟨ok, m₁, hround, hcases⟩
    rcases mapRound_cases hround with ⟨hraw, _⟩ | ⟨_, block, s₁, s₂, halloc, hmap, _, rfl⟩
    · cases hraw
    have hvirt := hrange.lower (Nat.succ_pos n)
    rcases h.holding.tracks.alloc_data halloc with ⟨h₁, _, _, htables⟩
    rcases h.mapBlock hroot halloc hmap with ⟨owner₂, h₂, hext⟩
    have hroot₂ := hext.keeps _ _ hroot
    have hmapped : ∀ N ≤ 4096 * (n + 1 + 1), virt.toNat % 4096 ≠ 0 ∨ N = 4096 →
        UserBuffer s₂.tables root virt N := by
      intro N hN hmod
      refine userBuffer_mapPage h₁ hroot huser hvirt hmap fun hout k hk => ?_
      rw [htables]
      exact hrange.buffer (by omega) k (by omega)
    have hsame : SameTables owner₂ s₂ (memsetAligned4k root virt s₂).2 := by
      refine h₂.writeBytes hroot₂ ?_
      rw [List.length_replicate]
      exact hmapped 4096 (by omega) (.inr rfl)
    have h₃ : Guarded (HandedTo H₀ ⟨(memsetAligned4k root virt s₂).2, m.frames ++ [block]⟩) owner₂
        (memsetAligned4k root virt s₂).2 :=
      (h₂.same hsame).congr fun f => handedTo_snoc
    have hext₃ : Extends owner m.phys owner₂ (memsetAligned4k root virt s₂).2 :=
      hext.trans (Extends.of_live (by rw [hsame.live]))
    rcases hcases with ⟨_, _, rfl⟩ | ⟨rfl, hrest⟩
    · exact ⟨owner₂, h₃, hext₃⟩
    rcases stays_lower (mapRound_cleared hround h.holding.tracks hroot) hvirt hrange.inside with
      ⟨hlower, hinside⟩
    refine GuardedFrom.trans hext₃ (ih h₃ hroot₂ ⟨hlower, hinside, ?_⟩ hrest)
    intro hmod k hk entry hlookup
    have hmod' : virt.toNat % 4096 ≠ 0 := by
      rw [toNat_nextPage] at hmod
      omega
    have haddr : virt + BitVec.ofNat 64 (4096 + k) = virt + 4096#64 + BitVec.ofNat 64 k := by
      rw [BitVec.ofNat_add, BitVec.add_assoc]
    rw [lookup_of_same h₂.holding.tracks.linked hroot₂ hsame.tables, ← haddr] at hlookup
    exact hmapped _ (Nat.le_refl _) (.inl hmod') (4096 + k) (by omega) entry hlookup

/-- Frames are taken without being mapped. -/
lemma allocRun_guarded (h : Guarded H owner s) (hrun : allocRun base n s = some (blocks, s')) :
    Guarded H owner s' ∧ Extends owner s owner s' := by
  induction n generalizing base blocks s with
  | zero =>
    cases hrun
    exact ⟨h, Extends.refl⟩
  | succ n ih =>
    rw [allocRun] at hrun
    split at hrun
    · cases hrun
    next halloc =>
    rcases h.alloc_kernel halloc with ⟨h₁, hext₁⟩
    split at hrun
    swap
    · cases hrun
    split at hrun
    · cases hrun
    next hrest =>
    cases hrun
    rcases ih h₁ hrest with ⟨h₂, hext₂⟩
    exact ⟨h₂, hext₁.trans hext₂⟩

lemma allocNBlocks_guarded (h : Guarded H owner s)
    (hs : allocNBlocks n s = some (base, blocks, s')) :
    Guarded H owner s' ∧ Extends owner s owner s' := by
  unfold allocNBlocks at hs
  split at hs
  · cases hs
  split at hs
  · cases hs
  next hrun =>
  cases hs
  exact allocRun_guarded h hrun

/-- Mapping the kernel windows without the user bit keeps the tables guarded. -/
lemma mapWindows_guarded (hflags : flags.getLsbD 2 = false) (h : Guarded H owner s)
    (hkernel : owner kernel = some (.own c []))
    (hrun : mapWindows kernel flags frames s = some s') : GuardedFrom H owner s s' := by
  induction frames generalizing s owner with
  | nil =>
    cases hrun
    exact h.refl
  | cons f frames ih =>
    rw [mapWindows] at hrun
    split at hrun
    · cases hrun
    next hmap =>
    rcases h.mapWindow hkernel hflags hmap with ⟨owner₁, h₁, hext₁⟩
    exact GuardedFrom.trans hext₁ (ih h₁ (hext₁.keeps _ _ hkernel) hrun)

/-- They are mapped for the kernel. -/
lemma vcpuFrames_guarded (h : Guarded H owner s) (hkernel : owner kernel = some (.own c []))
    (hs : vcpuFrames kernel s = some s') : GuardedFrom H owner s s' := by
  unfold vcpuFrames at hs
  split at hs
  · cases hs
  next halloc =>
  rcases h.alloc_kernel halloc with ⟨h₁, hext₁⟩
  split at hs
  · cases hs
  next hmap =>
  rcases h₁.mapWindow hkernel (by decide) hmap with ⟨owner₂, h₂, hext₂⟩
  split at hs
  · cases hs
  next hmsr =>
  rcases allocNBlocks_guarded h₂ hmsr with ⟨h₃, hext₃⟩
  split at hs
  · cases hs
  next hio =>
  rcases allocNBlocks_guarded h₃ hio with ⟨h₄, hext₄⟩
  have hext := ((hext₁.trans hext₂).trans hext₃).trans hext₄
  exact GuardedFrom.trans hext (mapWindows_guarded (by decide) h₄ (hext.keeps _ _ hkernel) hs)

/-- A guest gets pages that the caller has. -/
lemma mapVspace_guarded {space : Frame} {k : Ctx} {host guest : BitVec 64} (h : Guarded H owner s)
    (hroot : owner root = some (.own c [])) (hspace : owner space = some (.own k []))
    (hpages : ∀ i, i < n → UserPage s.tables root (host + 4096#64 * BitVec.ofNat 64 i))
    (hrun : mapGuestPages space (fun m v => getPhys m root v) n host guest s = some s') :
    GuardedFrom H owner s s' := by
  induction n generalizing host guest s owner with
  | zero =>
    cases hrun
    exact h.refl
  | succ n ih =>
    rw [mapGuestPages] at hrun
    split at hrun
    · cases hrun
    next s₁ hmap =>
    have hfirst := hpages 0 (Nat.succ_pos n)
    rw [BitVec.mul_zero, BitVec.add_zero] at hfirst
    rcases hfirst with ⟨entry, hlookup, huser⟩
    have hentry : Granted H (pageEntry (getPhys s.tables root host) 7#64 .normal) := by
      refine granted_pageEntry ?_
      rw [getPhys, hlookup, getFrame_frame]
      exact h.user_frame hroot hlookup huser
    rcases h.mapPage hspace hentry hmap with ⟨owner₁, h₁, hext₁⟩
    have hpages₁ : ∀ i, i < n →
        UserPage s₁.tables root (host + 4096#64 + 4096#64 * BitVec.ofNat 64 i) := by
      intro i hi
      have haddr : host + 4096#64 + 4096#64 * BitVec.ofNat 64 i =
          host + 4096#64 * BitVec.ofNat 64 (i + 1) := by
        rw [BitVec.add_assoc, Nat.add_comm i 1, BitVec.ofNat_add, BitVec.mul_add]
        rfl
      rw [haddr]
      exact (hpages (i + 1) (Nat.succ_lt_succ hi)).mapPage h.holding.tracks hroot hspace
        (by decide) (by decide) hmap
    exact GuardedFrom.trans hext₁
      (ih h₁ (hext₁.keeps _ _ hroot) (hext₁.keeps _ _ hspace) hpages₁ hrun)

/-- A child gets a new block. -/
lemma forkPage_guarded {virt entry : BitVec 64} {m m' : Mem}
    (h : Guarded (HandedTo H₀ m) owner m.phys) (hkernel : owner kernel = some (.own c []))
    (hchild : owner child = some (.own c [])) (hs : forkPage kernel child virt entry m = some m') :
    GuardedFrom (HandedTo H₀ m') owner m.phys m'.phys := by
  by_cases hpresent : present entry = true
  swap
  · have hm : m = m' := by simpa [forkPage, hpresent] using hs
    exact hm ▸ h.refl
  rcases forkPage_cases hpresent hs with ⟨block, s₁, s₂, s₃, s₄, halloc, hold, hnew, hmap, rfl⟩
  rcases h.alloc_user halloc with ⟨h₁, hext₁⟩
  rcases h₁.mapWindow hkernel (by decide) hold with ⟨owner₂, h₂, hext₂⟩
  rcases h₂.mapWindow (hext₂.keeps _ _ hkernel) (by decide) hnew with ⟨owner₃, h₃, hext₃⟩
  have hext := (hext₁.trans hext₂).trans hext₃
  -- the copy goes to the new block, which is no table
  have hcopy := h₃.write (h₃.handed block (.inr rfl)).2 (s₃.tables (getFrame entry))
  have hsame : Extends owner₃ s₃ owner₃
      { s₃ with tables := Function.update s₃.tables block (s₃.tables (getFrame entry)) } :=
    Extends.of_live (Finset.Subset.refl _)
  have hentry : Granted (fun f => HandedTo H₀ m f ∨ f = block)
      (pageEntry block.1 (forkFlags entry) .normal) :=
    granted_pageEntry (.inr (getFrame_frame block))
  rcases hcopy.mapPage (hext.keeps _ _ hchild) hentry hmap with ⟨owner₄, h₄, hext₄⟩
  exact ⟨owner₄, h₄.congr fun f => handedTo_snoc, (hext.trans hsame).trans hext₄⟩

lemma forEach_forkEntry {P : Mem → Prop} {walkChild : Index → Frame → Mem → Option Mem}
    {table : Frame} {indices : List Index} {m m' : Mem}
    (hwalk : ∀ i f t t', P t → walkChild i f t = some t' → P t') (h : P m)
    (hs : forEach (fun i => forkEntry (walkChild i) table i) indices m = some m') : P m' := by
  refine forEach_invariant (P := P) ?_ h hs
  intro i _ t t' ht hentry
  by_cases hpresent : present (t.phys.tables table i) = true
  · exact hwalk i _ t t' ht (by simpa [forkEntry, hpresent] using hentry)
  · have htt : t = t' := by simpa [forkEntry, hpresent] using hentry
    exact htt ▸ ht

/-- It gets one for every page. -/
lemma forkPages_guarded {m m' : Mem} (h : Guarded (HandedTo H₀ m) owner m.phys)
    (hkernel : owner kernel = some (.own c [])) (hchild : owner child = some (.own c []))
    (hs : forkPages root kernel child m = some m') :
    GuardedFrom (HandedTo H₀ m') owner m.phys m'.phys := by
  have hpage : ∀ virt entry t t', GuardedFrom (HandedTo H₀ t) owner m.phys t.phys →
      forkPage kernel child virt entry t = some t' →
      GuardedFrom (HandedTo H₀ t') owner m.phys t'.phys := by
    rintro virt entry t t' ⟨owner₁, h₁, hext₁⟩ ht
    exact GuardedFrom.trans hext₁
      (forkPage_guarded h₁ (hext₁.keeps _ _ hkernel) (hext₁.keeps _ _ hchild) ht)
  -- the four loops keep what one page keeps
  have hloops : ∀ P : Mem → Prop,
      (∀ virt entry t t', P t → forkPage kernel child virt entry t = some t' → P t') →
      P m → P m' := by
    intro P hP hm
    refine forEach_forkEntry (P := P) (fun i pdpt t₁ t₁' h₁ hs₁ => ?_) hm hs
    refine forEach_forkEntry (P := P) (fun j pd t₂ t₂' h₂ hs₂ => ?_) h₁ hs₁
    refine forEach_forkEntry (P := P) (fun k pt t₃ t₃' h₃ hs₃ => ?_) h₂ hs₂
    exact forEach_invariant (P := P) (fun l _ t₄ t₄' h₄ hs₄ => hP _ _ t₄ t₄' h₄ hs₄) h₃ hs₃
  exact hloops (fun t => GuardedFrom (HandedTo H₀ t) owner m.phys t.phys) hpage h.refl

end Loops

end SigmaOS.Proc.Process
