import SigmaOS.Arch.PagingHalves
import SigmaOS.Arch.PagingTotal

/-!
# Arch.KernelHalf — the kernel half of all address spaces

`clone_paging_info` copies the upper 256 entries of the kernel's root by value.  The clones share
the tables behind these entries with the kernel, so a page that the kernel maps later is seen by all
of them as long as its PML4 entry was there when they were made.
-/

namespace SigmaOS.Arch.Paging

open Machine Finset
open Function
open Lib

lemma passed_root {k c : Ctx} {path : List Index} {i : Index}
    (h : Passed roleNext (.own k []) path (.own c []) i) : c = k ∧ path.head? = some i := by
  rcases h with ⟨before, hpath, hrole⟩
  cases before with
  | nil =>
    have hck : k = c := by simpa [roleAt] using hrole
    rcases hpath with ⟨rest, rfl⟩
    exact ⟨hck.symm, rfl⟩
  | cons p before =>
    rcases roleAt_cons hrole with ⟨l, hl, hrest⟩
    have hbelow : l.Below 0 := by
      rcases roleNext_cases hl with ⟨_, path', _, _, rfl⟩ | ⟨_, _, rfl⟩ | ⟨_, _, rfl⟩
      · show 0 < (path' ++ [p]).length
        simp
      · trivial
      · trivial
    have hroot := roleAt_kept (Role.Below 0) (fun _ _ _ => roleNext_below) hbelow hrest
    exact absurd hroot (Nat.lt_irrefl 0)

section Root

variable {owner : Frame → Option Role} {s s' : Phys} {k c : Ctx} {rk r : Frame}
  {phys virt flags : BitVec 64} {cache : CacheType}

lemma mapPage_root_same (h : s.Tracks roleNext owner) (hk : owner rk = some (.own k []))
    (hr : owner r = some (.own c [])) (hmap : mapPage rk phys virt flags cache s = some s')
    {i : Index} (hslot : c = k → i = pml4Index virt → present (s.tables r i) = true) :
    s'.tables r i = s.tables r i := by
  rcases mapPage_root h hk hmap with ⟨owner', l, _, hmapped⟩
  have hnext : ∃ l', roleNext (.own c []) i = some l' := by
    by_cases hi : i.val < 256
    · exact ⟨_, roleNext_own_lower (Nat.succ_pos 2) fun _ => hi⟩
    · exact ⟨_, roleNext_own_upper hi⟩
  rcases hnext with ⟨l', hl'⟩
  rcases hmapped.links r _ i l' hr hl' with hsame | ⟨hzero, hpassed⟩
  · exact hsame
  · rcases passed_root hpassed with ⟨hck, hhead⟩
    have hi : i = pml4Index virt := (Option.some.inj hhead).symm
    have hpresent := hslot hck hi
    rw [hzero] at hpresent
    exact absurd hpresent (by simp)

end Root

section Lookup

variable {m : Tables Frame Index (BitVec 64)} {r r' : Frame} {virt : BitVec 64}

lemma lookup_congr_root (h : m r (pml4Index virt) = m r' (pml4Index virt)) :
    lookup m r virt = lookup m r' virt := by
  simp only [lookup, h]

lemma getEntry_of_absent (h : present (m r (pml4Index virt)) = false) :
    getEntry m r virt = 0#64 := by
  simp [getEntry, lookup, h]

end Lookup

namespace Machine

/-! ## The kernel and its clones -/

/-- Every context in use translates the upper half as context `k` does. -/
def Shared (k : Ctx) (m : Machine) : Prop :=
  ∀ c r rk, c ∉ m.retired → m.roots c = some r → m.roots k = some rk → ∀ virt, IsUpper virt →
    getPhys m.phys.tables r virt = getPhys m.phys.tables rk virt ∧
      getEntry m.phys.tables r virt = getEntry m.phys.tables rk virt

/-- What happens to the upper halves: context `k` maps pages and is cloned into contexts without a
root, and the others are torn down. -/
def KernelOp (k : Ctx) (m : Machine) : CtxOp → Prop
  | .init _ => False
  | .mapPage c _ _ _ _ => c = k
  | .clonePagingInfo source target => source = k ∧ m.roots target = none
  | .deinit c => c ≠ k ∧ c ∉ m.retired

/-- The PML4 entry of context `k` for `virt` is there, or no other context is in use. -/
def SlotThere (k : Ctx) (m : Machine) (virt : BitVec 64) : Prop :=
  (∃ rk, m.roots k = some rk ∧ present (m.phys.tables rk (pml4Index virt)) = true) ∨
    ∀ c, c ≠ k → c ∈ m.retired ∨ m.roots c = none

/-- Pages of the upper half are mapped behind PML4 entries that are there. -/
def KeepsSlots (k : Ctx) (m : Machine) : CtxOp → Prop
  | .mapPage _ _ virt _ _ => IsUpper virt → m.SlotThere k virt
  | _ => True

/-- The upper entries of all roots are those of the kernel's root. -/
structure KernelInv (k : Ctx) (rk : Frame) (m : Machine) : Prop where
  inv : m.Inv
  root : m.roots k = some rk
  alive : k ∉ m.retired
  same : ∀ c r, c ∉ m.retired → m.roots c = some r →
    ∀ i ∈ upperHalf, m.phys.tables r i = m.phys.tables rk i

variable {m m' : Machine} {k c : Ctx} {rk : Frame} {op : CtxOp} {phys virt flags : BitVec 64}
  {cache : CacheType}

section

variable (h : m.KernelInv k rk)
include h

lemma KernelInv.shared : m.Shared k := by
  intro c r rk' hc hr hrk virt hv
  have hkk : rk = rk' := Option.some.inj (h.root.symm.trans hrk)
  have hlookup : lookup m.phys.tables r virt = lookup m.phys.tables rk virt :=
    lookup_congr_root (h.same c r hc hr _ (mem_upperHalf.2 (Nat.not_lt.2 hv)))
  rw [← hkk, getPhys, getPhys, getEntry, getEntry, hlookup]
  exact ⟨rfl, rfl⟩

/-- A page under a slot that is there already adds no slot. -/
lemma KernelInv.mapPage (hslot : IsUpper virt → m.SlotThere k virt)
    (hs : m.step (.mapPage k phys virt flags cache) = some m') : m'.KernelInv k rk := by
  have hinv' := h.inv.mapPage h.alive hs
  rcases mapPage_root_cases h.root hs with ⟨s, hmap, rfl⟩
  refine ⟨hinv', h.root, h.alive, ?_⟩
  rcases h.inv with ⟨owner, htracks, hroots⟩
  have hrk := hroots k rk h.alive h.root
  intro c r hc hr i hi
  by_cases hck : c = k
  · subst hck
    rw [Option.some.inj (h.root.symm.trans hr)]
  · -- the root of another context does not change, and the kernel's does not where there is one
    have hother : s.tables r i = m.phys.tables r i :=
      mapPage_root_same htracks hrk (hroots c r hc hr) hmap fun heq => absurd heq hck
    have hkernel : s.tables rk i = m.phys.tables rk i := by
      refine mapPage_root_same htracks hrk hrk hmap fun _ hidx => ?_
      have hupper : IsUpper virt := Nat.le_of_not_lt (hidx ▸ mem_upperHalf.1 hi)
      rcases hslot hupper with ⟨rk', hrk', hpresent⟩ | halone
      · rw [hidx, Option.some.inj (h.root.symm.trans hrk')]
        exact hpresent
      · rcases halone c hck with hretired | hnone
        · exact absurd hretired hc
        · exact absurd (hnone.symm.trans hr) (by simp)
    rw [hother, hkernel]
    exact h.same c r hc hr i hi

/-- A clone copies the slots and changes none of the source. -/
lemma KernelInv.clonePagingInfo (htarget : m.roots c = none)
    (hs : m.step (.clonePagingInfo k c) = some m') :
    m'.KernelInv k rk ∧ ∀ i, m'.phys.tables rk i = m.phys.tables rk i := by
  have hinv' := h.inv.clonePagingInfo h.alive htarget hs
  rcases clonePagingInfo_root_cases h.root htarget hs with ⟨hkc, new, s, hclone, rfl⟩
  rcases h.inv with ⟨owner, htracks, hroots⟩
  have hrk := hroots k rk h.alive h.root
  rcases clonePagingInfo_spec (d := c) trivial htracks.holding hrk hclone with ⟨owner', hcloned⟩
  have hkept : ∀ x l i, owner x = some l → s.tables x i = m.phys.tables x i :=
    fun x l i hx => hcloned.fills.same x l i hx (Set.notMem_empty _)
  refine ⟨⟨hinv', (update_of_ne hkc _ _).trans h.root,
    fun hin => h.alive (mem_of_mem_erase hin), ?_⟩, fun i => hkept rk _ i hrk⟩
  intro c' r hc' hr i hi
  show s.tables r i = s.tables rk i
  rw [hkept rk _ i hrk]
  by_cases hcc : c' = c
  · -- the new root has the entries of the kernel's
    subst hcc
    have hnew : new = r := by simpa using hr
    rw [← hnew]
    exact hcloned.upper i hi
  · have hlive : c' ∉ m.retired := fun hin => hc' (mem_erase.2 ⟨hcc, hin⟩)
    have hr' : m.roots c' = some r := by simpa [hcc] using hr
    rw [hkept r _ i (hroots c' r hlive hr')]
    exact h.same c' r hlive hr' i hi

lemma KernelInv.deinit (hck : c ≠ k) (hc : c ∉ m.retired)
    (hs : m.step (.deinit c) = some m') : m'.KernelInv k rk := by
  have hinv' := h.inv.deinit hc hs
  cases hs
  have hretired : ∀ c', c' ≠ c → (c' ∈ (if m.roots c = none then m.retired else
      insert c m.retired) ↔ c' ∈ m.retired) := by
    intro c' hcc
    by_cases hnone : m.roots c = none
    · simp [hnone]
    · simp [hnone, hcc]
  refine ⟨hinv', h.root, mt (hretired k (Ne.symm hck)).1 h.alive, ?_⟩
  intro c' r hc' hr i hi
  have hlive : c' ∉ m.retired := by
    by_cases hcc : c' = c
    · exact hcc ▸ hc
    · exact mt (hretired c' hcc).2 hc'
  rw [deinit_tables]
  exact h.same c' r hlive hr i hi

lemma KernelInv.step (hop : m.KernelOp k op) (hslot : m.KeepsSlots k op)
    (hs : m.step op = some m') : m'.KernelInv k rk := by
  cases op with
  | init c => exact absurd hop id
  | mapPage c phys virt flags cache =>
    have hck : c = k := hop
    subst hck
    exact h.mapPage hslot hs
  | clonePagingInfo source target =>
    rcases hop with ⟨rfl, htarget⟩
    exact (h.clonePagingInfo htarget hs).1
  | deinit c => exact h.deinit hop.1 hop.2 hs

end

lemma init_kernelInv {tables : Tables Frame Index (BitVec 64)} {supply : List Frame}
    (hs : (start tables supply).step (.init k) = some m) :
    ∃ rk, m.KernelInv k rk ∧ ∀ i, m.phys.tables rk i = 0#64 := by
  have hinv := (start_inv tables supply).init (notMem_empty k) hs
  rcases init_cases hs with ⟨rk, s, _, rfl⟩
  refine ⟨rk, ⟨hinv, update_self k _ _, notMem_erase k _, ?_⟩, ?_⟩
  · intro c r _ hr i _
    by_cases hck : c = k
    · subst hck
      have hrr : rk = r := by simpa using hr
      rw [hrr]
    · exact absurd hr (by simp [hck, start])
  · exact s.clear_self rk

/-- A slot that is filled after a clone is not in the clone. -/
lemma KernelInv.new_slot (h : m.KernelInv k rk) (hv : IsUpper virt)
    (hflags : flags.getLsbD 0 = true) (hslot : ¬ m.SlotThere k virt)
    (hs : m.step (.mapPage k phys virt flags cache) = some m') : ¬ m'.Shared k := by
  rw [SlotThere, not_or] at hslot
  rcases hslot with ⟨habsent, hclone⟩
  rw [not_forall] at hclone
  rcases hclone with ⟨c, hclone⟩
  rw [Classical.not_imp, not_or] at hclone
  rcases hclone with ⟨hck, hc, hroot⟩
  rcases Option.ne_none_iff_exists'.1 hroot with ⟨r, hr⟩
  rcases mapPage_root_cases h.root hs with ⟨s, hmap, rfl⟩
  rcases h.inv with ⟨owner, htracks, hroots⟩
  have hrk := hroots k rk h.alive h.root
  -- the entry in the clone's root is not present, neither before nor after
  have hkernel : present (m.phys.tables rk (pml4Index virt)) = false := by
    rw [← Bool.not_eq_true]
    exact fun hpresent => habsent ⟨rk, h.root, hpresent⟩
  have hother : s.tables r (pml4Index virt) = m.phys.tables r (pml4Index virt) :=
    mapPage_root_same htracks hrk (hroots c r hc hr) hmap fun heq => absurd heq hck
  have hentry : present (s.tables r (pml4Index virt)) = false := by
    rw [hother, h.same c r hc hr _ (mem_upperHalf.2 (Nat.not_lt.2 hv)), hkernel]
  have hfound := mapPage_getEntry htracks hrk hflags hmap
  intro hshared
  have hsame : getEntry s.tables r virt = getEntry s.tables rk virt :=
    (hshared c r rk hc hr h.root virt hv).2
  rw [← hsame, getEntry_of_absent hentry] at hfound
  exact absurd hfound (by simp)

end Machine

/-- In every run in which the kernel maps pages of its half only behind PML4 entries that are there,
or while it has no clones, all contexts in use translate the upper half as the kernel does.  One more
call keeps it so exactly if it meets the condition. -/
theorem upper_half_shared {k : Ctx} {tables : Tables Frame Index (BitVec 64)} {supply : List Frame}
    {m₀ m : Machine} (hinit : (Machine.start tables supply).step (.init k) = some m₀)
    (hrun : Run Machine.step (fun m op => m.KernelOp k op ∧ m.KeepsSlots k op) m₀ m) :
    m.Shared k ∧
      ∀ phys virt flags cache m', IsUpper virt → flags.getLsbD 0 = true →
        m.step (.mapPage k phys virt flags cache) = some m' →
          (m'.Shared k ↔ m.SlotThere k virt) := by
  rcases init_kernelInv hinit with ⟨rk, h₀, _⟩
  have h : m.KernelInv k rk :=
    hrun.invariant h₀ fun t op u ht hok hs => ht.step hok.1 hok.2 hs
  refine ⟨h.shared, ?_⟩
  intro phys virt flags cache m' hv hflags hs
  refine ⟨?_, ?_⟩
  · intro hshared
    by_contra hslot
    exact h.new_slot hv hflags hslot hs hshared
  · intro hslot
    exact (h.mapPage (fun _ => hslot) hs).shared

/-- The kernel maps a page, and is cloned after that. -/
theorem upper_half_shared_sample :
    ∃ (m₀ m : Machine) (r : Frame), (Machine.fresh (cloneFrames + 4)).step (.init 0) = some m₀ ∧
      Run Machine.step (fun m op => m.KernelOp 0 op ∧ m.KeepsSlots 0 op) m₀ m ∧
      m.roots 1 = some r ∧ m.Shared 0 := by
  have hstock : (fresh (cloneFrames + 4)).phys.Stocked (0 + cloneFrames + 3 + 1) :=
    (fresh_stocked (by decide)).mono (by decide)
  rcases init_defined (c := 0) rfl hstock with ⟨rk, m₀, hinit, hstock₀, hroots₀, _⟩
  have hroot₀ : m₀.roots 0 = some rk := by rw [hroots₀, update_self]
  have hnone : ∀ c, c ≠ 0 → m₀.roots c = none := by
    intro c hc
    rw [hroots₀, update_of_ne hc]
    rfl
  rcases mapPage_step 0x5000#64 windowBase 3#64 .normal hroot₀ hstock₀ with
    ⟨m₁, hmap, hstock₁, hroots₁, _⟩
  rcases clonePagingInfo_step (c := 0) (d := 1) (hroots₁ ▸ hroot₀) (by decide)
    (hroots₁ ▸ hnone 1 (by decide)) hstock₁ with ⟨r, m₂, hclone, _, hroots₂, _⟩
  have hrun : Run step (fun m op => m.KernelOp 0 op ∧ m.KeepsSlots 0 op) m₀ m₂ := by
    refine Run.tail (Run.single ?_ hmap) ?_ hclone
    · exact ⟨rfl, fun _ => Or.inr fun c hc => Or.inr (hnone c hc)⟩
    · exact ⟨⟨rfl, hroots₁ ▸ hnone 1 (by decide)⟩, trivial⟩
  exact ⟨m₀, m₂, r, hinit, hrun, by rw [hroots₂, update_self],
    (upper_half_shared hinit hrun).1⟩

/-- The kernel maps the page after it was cloned: the clone has no PML4 entry for it. -/
theorem upper_half_not_shared :
    ¬ ∀ (k : Ctx) (tables : Tables Frame Index (BitVec 64)) (supply : List Frame)
        (m₀ m₁ m₂ : Machine),
      (Machine.start tables supply).step (.init k) = some m₀ →
      Run Machine.step (fun m op => ∃ c, op = .clonePagingInfo k c ∧ m.roots c = none) m₀ m₁ →
      Run Machine.step (fun _ op => ∃ phys virt flags cache,
        op = .mapPage k phys virt flags cache ∧ IsUpper virt) m₁ m₂ →
      m₂.Shared k := by
  intro hall
  have hstock : (fresh (cloneFrames + 4)).phys.Stocked (0 + 3 + cloneFrames + 1) :=
    (fresh_stocked (by decide)).mono (by decide)
  rcases init_defined (c := 0) rfl hstock with ⟨r₀, m₀, hinit, hstock₀, hroots₀, _⟩
  have hnone : m₀.roots 1 = none := by
    rw [hroots₀, update_of_ne (by decide)]
    rfl
  rcases init_kernelInv hinit with ⟨rk, h₀, hblank⟩
  rcases clonePagingInfo_step (c := 0) (d := 1) h₀.root (by decide) hnone hstock₀ with
    ⟨r, m₁, hclone, hstock₁, hroots₁, hretired₁⟩
  rcases h₀.clonePagingInfo hnone hclone with ⟨h₁, hkept⟩
  rcases mapPage_step 0x5000#64 windowBase 3#64 .normal h₁.root hstock₁ with ⟨m₂, hmap, _⟩
  have hslot : ¬ m₁.SlotThere 0 windowBase := by
    rintro (⟨rk', hrk', hpresent⟩ | halone)
    · rw [← Option.some.inj (h₁.root.symm.trans hrk'), hkept, hblank] at hpresent
      exact absurd hpresent (by simp)
    · rcases halone 1 (by decide) with hretired | hroot
      · rw [hretired₁] at hretired
        exact absurd hretired (Finset.notMem_erase 1 _)
      · rw [hroots₁, update_self] at hroot
        exact absurd hroot (by simp)
  have hupper : IsUpper windowBase := by decide
  refine h₁.new_slot hupper (by decide) hslot hmap (hall 0 _ _ m₀ m₁ m₂ hinit ?_ ?_)
  · exact Run.single ⟨1, rfl, hnone⟩ hclone
  · exact Run.single ⟨_, _, _, _, rfl, hupper⟩ hmap

end SigmaOS.Arch.Paging
