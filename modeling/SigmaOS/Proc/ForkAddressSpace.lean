import SigmaOS.Proc.ForkPages

/-!
# Proc.ForkAddressSpace — the child gets a copy of every page

`fork_address_space` clones the kernel's context into the child, and then forks the pages of the
parent's lower half.  `Forking` is the invariant over the list of pages: which frames the child has
for the pages that are done, and what has not changed.
-/

namespace SigmaOS.Proc.Process

open Lib Arch Arch.Paging List

/-- `context::fork_address_space` of the context behind `root` into a child whose context has the
root `target`; the frames are the child's `resources.frames`. -/
def forkAddressSpace (root kernel : Frame) (target : Option Frame) (m : Mem) :
    Option (Frame × Mem) :=
  match clonePagingInfo kernel target m.phys with
  | none => none
  | some (new, phys) =>
    match forkPages root kernel new ⟨phys, m.frames⟩ with
    | none => none
    | some m => some (new, m)

/-- The fork of the system is the one of address spaces. -/
lemma System.fork_eq (s : System) (t : Tid) (root : Frame) :
    s.fork t root =
      let child := freeSlot (fun i => (s.threads i).state) s.count
      let slot := s.threads child
      (forkAddressSpace root s.kernel slot.root ⟨s.phys, slot.frames⟩).map fun out =>
        { s with
          phys := out.2.phys
          threads := Function.update s.threads child
            ⟨.idle, (s.threads t).privilege, some out.1, out.2.frames, []⟩
          count := max s.count (child + 1) } := by
  simp only [System.fork, forkAddressSpace]
  cases clonePagingInfo s.kernel
      (s.threads (freeSlot (fun i => (s.threads i).state) s.count)).root s.phys with
  | none => rfl
  | some out =>
    simp only
    cases forkPages root s.kernel out.1
        ⟨out.2, (s.threads (freeSlot (fun i => (s.threads i).state) s.count)).frames⟩ with
    | none => rfl
    | some m => rfl

/-! ## All pages -/

/-- The frames that the copy goes through the window for have their pages there. -/
def WindowsAbove (s : Phys) (root : Frame) : Prop :=
  (∀ f ∈ s.supply, IsUpper (f.1 + windowBase)) ∧
    ∀ page, LowerPage s.tables root page → IsUpper ((getFrame page.2).1 + windowBase)

lemma WindowsAbove.mono {s s' : Phys} {root : Frame} (h : WindowsAbove s root)
    (hsupply : ∀ f ∈ s'.supply, f ∈ s.supply)
    (hpages : ∀ page, LowerPage s'.tables root page → LowerPage s.tables root page) :
    WindowsAbove s' root :=
  ⟨fun f hf => h.1 f (hsupply f hf), fun page hpage => h.2 page (hpages page hpage)⟩

/-- The memory after the clone: three contexts with their tables, and no frame in use that is not
kept.  Only where the parent is the kernel itself, the window must be in the upper half. -/
structure Ready (p k d : Ctx) (root kernel child : Frame) (owner : Frame → Option Role)
    (s : Phys) : Prop where
  tracks : s.Tracks roleNext owner
  parentRole : owner root = some (.own p [])
  kernelRole : owner kernel = some (.own k [])
  childRole : owner child = some (.own d [])
  apart : p ≠ d ∧ k ≠ d
  sources : ∀ page, LowerPage s.tables root page →
    s.Kept (getFrame page.2) ∧ owner (getFrame page.2) = none
  used : ∀ page, LowerPage s.tables child page → s.Kept (getFrame page.2)
  window : p = k → WindowsAbove s root

/-- From the memory `s` after the clone, the pages `done` have been forked. -/
structure Forking (p k : Ctx) (root child : Frame) (owner : Frame → Option Role) (s : Phys)
    (done : List (BitVec 64 × BitVec 64)) (owner' : Frame → Option Role) (m : Mem) : Prop where
  grows : Grows owner s owner' m.phys
  parent : KeepsLower p owner s m.phys
  kernel : WindowsAbove s root → KeepsLower k owner s m.phys
  copies : ∀ page ∈ done, ∃ block ∈ m.frames,
    m.phys.tables block = s.tables (getFrame page.2) ∧
      lookup m.phys.tables child page.1 = some (pageEntry block.1 (forkFlags page.2) .normal)
  rest : ∀ v, ¬ IsUpper v → (∀ page ∈ done, pageOf page.1 ≠ pageOf v) →
    lookup m.phys.tables child v = lookup s.tables child v
  used : ∀ page, LowerPage m.phys.tables child page → m.phys.Kept (getFrame page.2)
  single : ∀ page page', LowerPage m.phys.tables child page →
    LowerPage m.phys.tables child page' → getFrame page.2 = getFrame page'.2 →
    getFrame page.2 ∈ m.frames → pageOf page.1 = pageOf page'.1
  records : ∀ block ∈ m.frames, ¬ s.Kept block ∧ block ∈ m.phys.live ∧ owner' block = none
  distinct : m.frames.Nodup

section Pages

variable {p k d : Ctx} {root kernel child : Frame} {owner owner' : Frame → Option Role} {s : Phys}
  {done : List (BitVec 64 × BitVec 64)} {page : BitVec 64 × BitVec 64} {m m' : Mem}

lemma Ready.forkPage (h : Ready p k d root kernel child owner s)
    (hgrows : Grows owner s owner' m.phys) (hpage : LowerPage s.tables root page)
    (hfork : Process.forkPage kernel child page.1 page.2 m = some m') :
    ∃ block owner'', PageForked k d child owner' m page.1 page.2 block owner'' m' := by
  rcases h.sources page hpage with ⟨hkept, hplain⟩
  exact forkPage_spec hgrows.tracks (hgrows.ext.keeps _ _ h.kernelRole)
    (hgrows.ext.keeps _ _ h.childRole) h.apart.2 (lookup_present hpage.2)
    (hgrows.draws.kept hkept) (hgrows.plain hkept hplain) hfork

variable {owner'' : Frame → Option Role} {block : Frame}

lemma PageForked.windowsUpper
    (hforked : PageForked k d child owner' m page.1 page.2 block owner'' m')
    (hgrows : Grows owner s owner' m.phys) (hpage : LowerPage s.tables root page)
    (hwindow : WindowsAbove s root) : WindowsUpper (getFrame page.2) block := by
  -- a frame that is not kept is one the allocator has to give away
  have hsupply : block ∈ m.phys.supply := by
    by_contra hout
    exact hforked.new (.inr hout)
  exact ⟨hwindow.2 page hpage, hwindow.1 block (hgrows.draws.supply block hsupply)⟩

/-- The loops never write the lower half of the parent that they walk through. -/
lemma Ready.forkKeeps (h : Ready p k d root kernel child owner s) :
    ForkKeeps kernel child s.tables root fun m =>
      ∃ owner', Grows owner s owner' m.phys ∧ KeepsLower p owner s m.phys := by
  rintro page m m' hpage ⟨owner', hgrows, hparent⟩ hfork
  rcases h.forkPage hgrows hpage hfork with ⟨block, owner'', hforked⟩
  refine ⟨owner'', hgrows.trans hforked.grows, hparent.trans hgrows.ext.keeps ?_⟩
  -- if the parent is not the kernel, the window is in other tables
  refine hforked.lower p h.apart.1 fun hpk => ?_
  exact hforked.windowsUpper hgrows hpage (h.window hpk)

lemma PageForked.childPage {virt entry : BitVec 64}
    (hforked : PageForked k d child owner' m virt entry block owner'' m')
    (hused : ∀ page, LowerPage m.phys.tables child page → m.phys.Kept (getFrame page.2))
    (hpage : LowerPage m'.phys.tables child page) :
    (pageOf page.1 = pageOf virt ∧ getFrame page.2 = block) ∨
      (pageOf page.1 ≠ pageOf virt ∧ LowerPage m.phys.tables child page ∧
        getFrame page.2 ≠ block) := by
  rcases hpage with ⟨hlow, hlookup⟩
  by_cases hsame : pageOf page.1 = pageOf virt
  · rw [lookup_congr_page hsame, hforked.page] at hlookup
    refine .inl ⟨hsame, ?_⟩
    rw [← Option.some.inj hlookup, getFrame_pageEntry, getFrame_frame]
  · rw [hforked.rest _ hlow hsame] at hlookup
    refine .inr ⟨hsame, ⟨hlow, hlookup⟩, ?_⟩
    -- frames in use are kept, the block was not
    intro hblock
    exact hforked.new (hblock ▸ hused page ⟨hlow, hlookup⟩)

lemma Ready.start (h : Ready p k d root kernel child owner s) :
    Forking p k root child owner s [] owner ⟨s, []⟩ where
  grows := Grows.refl h.tracks
  parent := fun _ _ _ _ _ => rfl
  kernel := fun _ _ _ _ _ _ => rfl
  copies := nofun
  rest := fun _ _ _ => rfl
  used := h.used
  single := nofun
  records := nofun
  distinct := nodup_nil

/-- One page is copied. -/
lemma Forking.step (hready : Ready p k d root kernel child owner s)
    (h : Forking p k root child owner s done owner' m) (hpage : LowerPage s.tables root page)
    (hdone : ∀ q ∈ done, LowerPage s.tables root q ∧ pageOf q.1 ≠ pageOf page.1)
    (hfork : Process.forkPage kernel child page.1 page.2 m = some m') :
    ∃ owner'', Forking p k root child owner s (done ++ [page]) owner'' m' := by
  rcases hready.forkPage h.grows hpage hfork with ⟨block, owner'', hforked⟩
  have hwindows := hforked.windowsUpper h.grows hpage
  have hsource := (hready.sources page hpage)
  -- what is recorded already is outstanding, so the step keeps it
  have hrecorded : ∀ b ∈ m.frames, m.phys.Kept b := fun b hb => .inl (h.records b hb).2.1
  have hblock : block ∉ m.frames := fun hb => hforked.new (hrecorded block hb)
  refine ⟨owner'', h.grows.trans hforked.grows, ?_, ?_, ?_, ?_, ?_, ?_, ?_, ?_⟩
  · exact h.parent.trans h.grows.ext.keeps
      (hforked.lower p hready.apart.1 fun hpk => hwindows (hready.window hpk))
  · intro habove
    exact (h.kernel habove).trans h.grows.ext.keeps
      (hforked.lower k hready.apart.2 fun _ => hwindows habove)
  -- pages that were done keep their copies, and the new one has its own
  · intro q hq
    rw [hforked.frames]
    rcases mem_append.1 hq with hold | hnew
    · rcases h.copies q hold with ⟨b, hb, hcontent, hlookup⟩
      refine ⟨b, mem_append_left _ hb, ?_, ?_⟩
      · exact (hforked.grows.content (hrecorded b hb) (h.records b hb).2.2).trans hcontent
      · exact (hforked.rest q.1 (hdone q hold).1.1 (hdone q hold).2).trans hlookup
    · rw [mem_singleton.1 hnew]
      refine ⟨block, mem_append_right _ (mem_singleton_self block), ?_, hforked.page⟩
      exact hforked.content.trans (h.grows.content hsource.1 hsource.2)
  · intro v hv hother
    have hne := hother page (mem_append_right _ (mem_singleton_self page))
    rw [hforked.rest v hv (Ne.symm hne)]
    exact h.rest v hv fun q hq => hother q (mem_append_left _ hq)
  · intro q hq
    rcases hforked.childPage h.used hq with ⟨_, hframe⟩ | ⟨_, hold, _⟩
    · exact .inl (hframe ▸ hforked.held)
    · exact hforked.grows.draws.kept (h.used q hold)
  -- only the new page is on the block
  · intro q q' hq hq' hframe hin
    rcases hforked.childPage h.used hq with ⟨hsame, hb⟩ | ⟨_, hold, hb⟩
    · rcases hforked.childPage h.used hq' with ⟨hsame', _⟩ | ⟨_, _, hb'⟩
      · exact hsame.trans hsame'.symm
      · exact absurd (hframe.symm.trans hb) hb'
    · rcases hforked.childPage h.used hq' with ⟨_, hb'⟩ | ⟨_, hold', _⟩
      · exact absurd (hframe.trans hb') hb
      · rw [hforked.frames] at hin
        have hin' : getFrame q.2 ∈ m.frames := by simpa [hb] using hin
        exact h.single q q' hold hold' hframe hin'
  · intro b hb
    rw [hforked.frames] at hb
    rcases mem_append.1 hb with hold | hnew
    · rcases h.records b hold with ⟨hunkept, hlive, hplain⟩
      exact ⟨hunkept, hforked.grows.ext.outstanding hlive,
        hforked.grows.plain (.inl hlive) hplain⟩
    · rw [mem_singleton.1 hnew]
      exact ⟨fun hkept => hforked.new (h.grows.draws.kept hkept), hforked.held, hforked.plain⟩
  · rw [hforked.frames]
    exact h.distinct.append (nodup_singleton block) (by simpa using hblock)

/-- All pages are, one after the other. -/
lemma Forking.run (hready : Ready p k d root kernel child owner s)
    {pages : List (BitVec 64 × BitVec 64)} (done : List (BitVec 64 × BitVec 64))
    {owner' : Frame → Option Role} {m : Mem}
    (hlower : ∀ page ∈ done ++ pages, LowerPage s.tables root page)
    (hdistinct : (done ++ pages).Pairwise fun q q' => pageOf q.1 ≠ pageOf q'.1)
    (h : Forking p k root child owner s done owner' m) (hall : forkAll kernel child pages m = some m') :
    ∃ owner'', Forking p k root child owner s (done ++ pages) owner'' m' := by
  -- by induction on what is left, for any list of what is done
  induction pages generalizing done owner' m with
  | nil =>
    rw [append_nil]
    exact ⟨owner', Option.some.inj hall ▸ h⟩
  | cons page pages ih =>
    unfold forkAll at hall
    split at hall
    · cases hall
    next hfork =>
    have hpage := hlower page (mem_append_right _ mem_cons_self)
    have hapart := (pairwise_append.1 hdistinct).2.2
    rcases h.step hready hpage (fun q hq =>
      ⟨hlower q (mem_append_left _ hq), hapart q hq page mem_cons_self⟩) hfork with
      ⟨owner₁, h₁⟩
    -- the page moves from the list that is left to the one that is done
    rw [append_cons] at hlower hdistinct ⊢
    exact ih (done ++ [page]) hlower hdistinct h₁ hall

lemma Ready.forkAll {pages : List (BitVec 64 × BitVec 64)}
    (h : Ready p k d root kernel child owner s)
    (hlower : ∀ page ∈ pages, LowerPage s.tables root page)
    (hdistinct : pages.Pairwise fun q q' => pageOf q.1 ≠ pageOf q'.1)
    (hall : Process.forkAll kernel child pages ⟨s, []⟩ = some m) :
    ∃ owner', Forking p k root child owner s pages owner' m := by
  have hrun := Forking.run h [] hlower hdistinct h.start hall
  rwa [nil_append] at hrun

end Pages

/-! ## The whole function -/

/-- The memory before the call: the pages of the parent and of the kernel are on frames that the
allocator does not give away, and those of the parent on no tables. -/
structure Forkable (p k : Ctx) (root kernel : Frame) (owner : Frame → Option Role) (s : Phys) :
    Prop where
  tracks : s.Tracks roleNext owner
  parentRole : owner root = some (.own p [])
  kernelRole : owner kernel = some (.own k [])
  sources : ∀ page, LowerPage s.tables root page →
    s.Kept (getFrame page.2) ∧ owner (getFrame page.2) = none
  used : ∀ page, LowerPage s.tables kernel page → s.Kept (getFrame page.2)
  window : p = k → WindowsAbove s root

/-- From the memory `s` the address space behind `root` was forked into `child`. -/
structure Forked (s : Phys) (root kernel child : Frame) (m : Mem) : Prop where
  /-- A page of the parent: the same rights and content on a frame that is new, that no other page of
  the child and no page of the parent or the kernel is on, and that is recorded once. -/
  copied : ∀ v entry, ¬ IsUpper v → lookup s.tables root v = some entry →
    ∃ entry', lookup m.phys.tables child v = some entry' ∧ SameRights entry entry' ∧
      m.phys.tables (getFrame entry') = s.tables (getFrame entry) ∧
      (getFrame entry' ∈ s.supply ∧ getFrame entry' ∉ s.live) ∧
      (∀ w other, ¬ IsUpper w → lookup m.phys.tables child w = some other →
        getFrame other = getFrame entry' → pageOf w = pageOf v) ∧
      (∀ r ∈ [root, kernel], ∀ w other, ¬ IsUpper w → lookup s.tables r w = some other →
        getFrame other ≠ getFrame entry') ∧
      m.frames.count (getFrame entry') = 1
  /-- Any other page. -/
  others : ∀ v, ¬ IsUpper v → lookup s.tables root v = none →
    lookup m.phys.tables child v = lookup s.tables kernel v
  /-- The kernel's pages do not change, if the window is where it should be. -/
  kernelPages : WindowsAbove s root → ∀ v, ¬ IsUpper v →
    lookup m.phys.tables kernel v = lookup s.tables kernel v
  parentEntries : ∀ f q, LowerTableOf s.tables root f → (f = root → q.val < 256) →
    m.phys.tables f q = s.tables f q
  parentContents : ∀ v entry, ¬ IsUpper v → lookup s.tables root v = some entry →
    m.phys.tables (getFrame entry) = s.tables (getFrame entry)

section Whole

variable {p k d : Ctx} {root kernel child : Frame} {owner owner₀ owner' : Frame → Option Role}
  {s s₀ : Phys} {m : Mem}

/-- What is left to do after the clone, with the tables of the child as those of context `d`. -/
structure ChildCloned (p k d : Ctx) (root kernel child : Frame) (owner : Frame → Option Role)
    (s : Phys) (owner₀ : Frame → Option Role) (s₀ : Phys) : Prop where
  grows : Grows owner s owner₀ s₀
  lower : ∀ a, KeepsLower a owner s s₀
  cloned : Cloned (fun _ => True) owner s kernel d child owner₀ s₀
  parentLookup : ∀ v, ¬ IsUpper v → lookup s₀.tables root v = lookup s.tables root v
  ready : Ready p k d root kernel child owner₀ s₀

/-- The child begins as a clone of the kernel. -/
lemma Forkable.clone (h : Forkable p k root kernel owner s)
    (hclone : clonePagingInfo kernel none s = some (child, s₀)) :
    ∃ d owner₀, ChildCloned p k d root kernel child owner s owner₀ s₀ := by
  -- any number that is none of the two will do for the child
  have hd : p ≠ p + k + 1 ∧ k ≠ p + k + 1 :=
    ⟨Nat.ne_of_lt (Nat.lt_succ_of_le (Nat.le_add_right p k)),
      Nat.ne_of_lt (Nat.lt_succ_of_le (Nat.le_add_left k p))⟩
  rcases Grows.clonePagingInfo (p + k + 1) h.tracks h.kernelRole hclone with
    ⟨owner₀, hgrows, hcloned, hlower⟩
  -- the clone writes new tables only, so the parent's pages are found as before
  have hlookup : ∀ v, ¬ IsUpper v → lookup s₀.tables root v = lookup s.tables root v :=
    fun v hv => (hlower p).lookup h.tracks.linked h.parentRole hv
  have hparent : ∀ page, LowerPage s₀.tables root page → LowerPage s.tables root page :=
    fun page hpage => ⟨hpage.1, (hlookup page.1 hpage.1).symm.trans hpage.2⟩
  refine ⟨p + k + 1, owner₀, hgrows, hlower, hcloned, hlookup, hgrows.tracks,
    hgrows.ext.keeps _ _ h.parentRole, hgrows.ext.keeps _ _ h.kernelRole, hcloned.root, hd,
    ?_, ?_, ?_⟩
  · intro page hpage
    rcases h.sources page (hparent page hpage) with ⟨hkept, hplain⟩
    exact ⟨hgrows.draws.kept hkept, hgrows.plain hkept hplain⟩
  · rintro page ⟨hlow, hfound⟩
    rw [hcloned.lookup_clone hlow] at hfound
    exact hgrows.draws.kept (h.used page ⟨hlow, hfound⟩)
  · intro hpk
    exact (h.window hpk).mono hgrows.draws.supply hparent

lemma ChildCloned.forkPages_eq (h : ChildCloned p k d root kernel child owner s owner₀ s₀) :
    forkPages root kernel child ⟨s₀, []⟩ =
      forkAll kernel child (lowerPages s.tables root) ⟨s₀, []⟩ := by
  rw [← lowerPages_congr h.parentLookup]
  exact Process.forkPages_eq h.ready.tracks.linked h.ready.parentRole
    (fun _ hm => hm.choose_spec.2) h.ready.forkKeeps
    ⟨owner₀, Grows.refl h.ready.tracks, fun _ _ _ _ _ => rfl⟩

/-- What the copies of all pages add up to. -/
lemma Forking.forked (h : Forkable p k root kernel owner s)
    (hclone : ChildCloned p k d root kernel child owner s owner₀ s₀)
    (hforking : Forking p k root child owner₀ s₀ (lowerPages s.tables root) owner' m) :
    Forked s root kernel child m := by
  have hkeeps := hclone.grows.ext.keeps
  refine ⟨?_, ?_, ?_, ?_, ?_⟩
  · intro v entry hv hentry
    rcases h.sources (v, entry) ⟨hv, hentry⟩ with ⟨hkept, hplain⟩
    rcases lowerPages_complete hv hentry with ⟨page, hin, hpage, rfl⟩
    rcases hforking.copies page hin with ⟨block, hblock, hcontent, hfound⟩
    have hframe : getFrame (pageEntry block.1 (forkFlags page.2) .normal) = block := by
      rw [getFrame_pageEntry, getFrame_frame]
    -- new after the clone means new before it
    have hnew : ¬ s.Kept block := fun hk =>
      (hforking.records block hblock).1 (hclone.grows.draws.kept hk)
    rw [lookup_congr_page hpage] at hfound
    refine ⟨_, hfound, sameRights_pageEntry _ _, ?_, ?_, ?_, ?_, ?_⟩
    · rw [hframe, hcontent]
      exact hclone.grows.content hkept hplain
    · rw [hframe]
      exact ⟨by_contra fun hout => hnew (.inr hout), fun hlive => hnew (.inl hlive)⟩
    · intro w other hw hother hsame
      have hin' : getFrame other ∈ m.frames := by rwa [hsame, hframe]
      exact hforking.single (w, other) (v, _) ⟨hw, hother⟩ ⟨hv, hfound⟩ hsame hin'
    · -- a page from before the call is on a frame that was kept
      intro r hr w other hw hother hsame
      rw [hframe] at hsame
      have hcases : r = root ∨ r = kernel := by simpa using hr
      rcases hcases with rfl | rfl
      · exact hnew (hsame ▸ (h.sources (w, other) ⟨hw, hother⟩).1)
      · exact hnew (hsame ▸ h.used (w, other) ⟨hw, hother⟩)
    · rw [hframe]
      exact count_eq_one_of_mem hforking.distinct hblock
  · intro v hv hnone
    -- no page of the list is at `v`, so the child has what the clone gave it
    rw [hforking.rest v hv ?_, hclone.cloned.lookup_clone hv]
    intro page hin hpage
    have hfound := (mem_lowerPages hin).2
    rw [lookup_congr_page hpage, hnone] at hfound
    simp at hfound
  · intro habove v hv
    have habove₀ : WindowsAbove s₀ root := habove.mono hclone.grows.draws.supply
      fun page hpage => ⟨hpage.1, (hclone.parentLookup page.1 hpage.1).symm.trans hpage.2⟩
    exact ((hclone.lower k).trans hkeeps (hforking.kernel habove₀)).lookup h.tracks.linked
      h.kernelRole hv
  · rintro f q ⟨path, hlen, hlow, hwalk⟩ hq
    have hrole := h.tracks.linked.walk_owner h.parentRole (roleAt_lowerPath hlen hlow) hwalk
    refine ((hclone.lower p).trans hkeeps hforking.parent) f path q hrole ?_
    rintro rfl
    exact hq (Option.some.inj hwalk).symm
  · intro v entry hv hentry
    rcases h.sources (v, entry) ⟨hv, hentry⟩ with ⟨hkept, hplain⟩
    exact (hclone.grows.trans hforking.grows).content hkept hplain

/-- The whole of the loop over the parent's pages. -/
lemma forkAddressSpace_spec (h : Forkable p k root kernel owner s)
    (hfork : forkAddressSpace root kernel none ⟨s, []⟩ = some (child, m)) :
    Forked s root kernel child m := by
  unfold forkAddressSpace at hfork
  split at hfork
  · cases hfork
  next s₀ hclone =>
  split at hfork
  · cases hfork
  next hpages =>
  cases hfork
  rcases h.clone hclone with ⟨d, owner₀, hcloned⟩
  rw [hcloned.forkPages_eq] at hpages
  -- the list was made before the clone and is used after it
  have hlower : ∀ page ∈ lowerPages s.tables root, LowerPage s₀.tables root page := by
    intro page hin
    rcases mem_lowerPages hin with ⟨hlow, hfound⟩
    exact ⟨hlow, (hcloned.parentLookup page.1 hlow).trans hfound⟩
  rcases hcloned.ready.forkAll hlower lowerPages_pairwise hpages with ⟨owner', hforking⟩
  exact hforking.forked h hcloned

end Whole

section Frames

variable {n : Nat} {root kernel : Frame} {m : Mem}

/-- Forking a page needs at most ten frames. -/
lemma forkPage_defined (kernel child : Frame) (virt entry : BitVec 64)
    (h : m.phys.Stocked (n + 10)) :
    ∃ m', forkPage kernel child virt entry m = some m' ∧ m'.phys.Stocked n := by
  by_cases hpresent : present entry = true
  -- an entry that is not present is passed over
  swap
  · exact ⟨m, by simp [forkPage, hpresent], h.mono (Nat.le_add_right n 10)⟩
  rcases Phys.Stocked.alloc (n := n + 3 + 3 + 3) h with ⟨block, s₁, halloc, h₁⟩
  rcases mapPage_defined kernel (getFrame entry).1 ((getFrame entry).1 + windowBase) 27#64 .normal h₁
    with ⟨s₂, hold, h₂⟩
  rcases mapPage_defined kernel block.1 (block.1 + windowBase) 27#64 .normal h₂ with ⟨s₃, hnew, h₃⟩
  have hcopy : Phys.Stocked (n + 3)
      { s₃ with tables := Function.update s₃.tables block (s₃.tables (getFrame entry)) } :=
    h₃.of_same rfl rfl
  rcases mapPage_defined child block.1 virt (forkFlags entry) .normal hcopy with ⟨s₄, hmap, h₄⟩
  refine ⟨⟨s₄, m.frames ++ [block]⟩, ?_, h₄⟩
  simp [forkPage, hpresent, halloc, mapWindow, hold, hnew, hmap]

lemma forkAll_defined (kernel child : Frame) (pages : List (BitVec 64 × BitVec 64)) {m : Mem}
    (h : m.phys.Stocked (10 * pages.length)) : ∃ m', forkAll kernel child pages m = some m' := by
  induction pages generalizing m with
  | nil => exact ⟨m, rfl⟩
  | cons page pages ih =>
    rcases forkPage_defined kernel child page.1 page.2 h with ⟨m₁, hfork, h₁⟩
    rcases ih h₁ with ⟨m', hrest⟩
    exact ⟨m', by simp [forkAll, hfork, hrest]⟩

lemma forkAddressSpace_defined {p k : Ctx} {owner : Frame → Option Role} {s : Phys}
    (h : Forkable p k root kernel owner s)
    (hstock : s.Stocked (10 * (lowerPages s.tables root).length + cloneFrames)) :
    ∃ child m, forkAddressSpace root kernel none ⟨s, []⟩ = some (child, m) := by
  rcases clonePagingInfo_defined kernel hstock with ⟨child, s₀, hclone, h₀⟩
  -- what the clone leaves over is enough for all pages
  rcases h.clone hclone with ⟨d, owner₀, hcloned⟩
  rcases forkAll_defined kernel child (lowerPages s.tables root) (m := ⟨s₀, []⟩) h₀ with ⟨m, hall⟩
  exact ⟨child, m, by simp [forkAddressSpace, hclone, hcloned.forkPages_eq, hall]⟩

end Frames

/-- A parent in any state that the contexts can reach.  The pages of its lower half are on no table,
and the allocator gives away none of the frames that the parent or the kernel have pages on.  With
enough frames the call returns, and whenever it returns the child has a copy of every page. -/
theorem fork_address_space_copies {tables : Tables Frame Index (BitVec 64)} {supply : List Frame}
    {machine : Paging.Machine} {p k : Ctx} {root kernel : Frame}
    (hrun : Run Paging.Machine.step Paging.Machine.Disciplined
      (Paging.Machine.start tables supply) machine)
    (hp : p ∉ machine.retired) (hroot : machine.roots p = some root)
    (hk : k ∉ machine.retired) (hkernel : machine.roots k = some kernel)
    (hplain : ∀ v entry, ¬ IsUpper v → lookup machine.phys.tables root v = some entry →
      ¬ machine.IsTable (getFrame entry))
    (hfresh : ∀ r ∈ [root, kernel], ∀ v entry, ¬ IsUpper v →
      lookup machine.phys.tables r v = some entry → machine.phys.Kept (getFrame entry))
    (hwindow : p = k → WindowsAbove machine.phys root) :
    (machine.phys.Stocked
        (10 * (lowerPages machine.phys.tables root).length + cloneFrames) →
      ∃ child m, forkAddressSpace root kernel none ⟨machine.phys, []⟩ = some (child, m)) ∧
    ∀ child m, forkAddressSpace root kernel none ⟨machine.phys, []⟩ = some (child, m) →
      Forked machine.phys root kernel child m := by
  have hinv : machine.Inv :=
    hrun.invariant (Paging.Machine.start_inv tables supply) fun t op u ht hok hs => ht.step hok hs
  rcases hinv.tables with ⟨owner, htracks, hroots, htables⟩
  have hforkable : Forkable p k root kernel owner machine.phys := by
    refine ⟨htracks, hroots p root hp hroot, hroots k kernel hk hkernel, ?_, ?_, hwindow⟩
    · rintro ⟨v, entry⟩ ⟨hlow, hfound⟩
      refine ⟨hfresh root List.mem_cons_self v entry hlow hfound, ?_⟩
      -- a frame with a role is a table of some context in use
      by_contra hrole
      exact hplain v entry hlow hfound (htables _ hrole)
    · rintro ⟨v, entry⟩ ⟨hlow, hfound⟩
      exact hfresh kernel (List.mem_cons_of_mem _ List.mem_cons_self) v entry hlow hfound
  exact ⟨fun hstock => forkAddressSpace_defined hforkable hstock,
    fun child m hfork => forkAddressSpace_spec hforkable hfork⟩

/-! ## A parent with one page -/

lemma init_draws {machine machine' : Paging.Machine} {c : Ctx} (hroot : machine.roots c = none)
    (hs : machine.step (.init c) = some machine') :
    ∃ r, machine'.roots c = some r ∧ Phys.Draws nowhere machine.phys machine'.phys ∧
      r ∈ machine'.phys.live ∧ ∀ q, machine'.phys.tables r q = 0#64 := by
  rcases Paging.Machine.init_cases hs with ⟨r, s, halloc, rfl⟩
  rw [hroot] at halloc
  refine ⟨r, Function.update_self c _ _, Phys.Draws.fresh halloc Phys.Draws.clear, ?_,
    s.clear_self r⟩
  show r ∈ s.live
  rw [(Phys.alloc_cases halloc).2.2.1]
  exact Finset.mem_insert_self r _

lemma lookup_blank {T : Tables Frame Index (BitVec 64)} {root : Frame} {v : BitVec 64}
    (hroot : ∀ q : Index, q.val < 256 → T root q = 0#64) (hv : ¬ IsUpper v) :
    lookup T root v = none := by
  have hentry : T root (pml4Index v) = pageFormat.empty := hroot _ (Nat.lt_of_not_le hv)
  rw [lookup_eq, readAt_cons_empty hentry]
  rfl

lemma length_le_one {pages : List (BitVec 64 × BitVec 64)} {virt : BitVec 64}
    (hsame : ∀ page ∈ pages, pageOf page.1 = pageOf virt)
    (hdistinct : pages.Pairwise fun q q' => pageOf q.1 ≠ pageOf q'.1) : pages.length ≤ 1 := by
  cases pages with
  | nil => exact Nat.zero_le 1
  | cons q pages =>
    cases pages with
    | nil => exact Nat.le_refl 1
    | cons q' pages =>
      have hq := hsame q mem_cons_self
      have hq' := hsame q' (mem_cons_of_mem _ mem_cons_self)
      exact absurd (hq.trans hq'.symm) (rel_of_pairwise_cons hdistinct mem_cons_self)

/-- The kernel is context 0 and the parent context 1, both without pages; `frame` is none of the
allocator's. -/
structure TwoContexts (n : Nat) (frame : Frame) (machine : Paging.Machine) (root kernel : Frame) :
    Prop where
  run : Run Paging.Machine.step Paging.Machine.Disciplined (Paging.Machine.fresh (n + 2)) machine
  alive : ∀ c, c ∉ machine.retired
  parentRoot : machine.roots 1 = some root
  kernelRoot : machine.roots 0 = some kernel
  stock : machine.phys.Stocked n
  parentBlank : ∀ q, machine.phys.tables root q = 0#64
  kernelBlank : ∀ q, machine.phys.tables kernel q = 0#64
  foreign : frame ∉ machine.phys.live ∧ frame ∉ machine.phys.supply

/-- Two contexts for the sample. -/
lemma exists_twoContexts {n k : Nat} (hn : n + 2 ≤ k) (hk : k < 2 ^ 40) :
    ∃ machine root kernel, TwoContexts n (frameNumber k) machine root kernel := by
  have hstock : (Paging.Machine.fresh (n + 2)).phys.Stocked (n + 1 + 1) :=
    Paging.Machine.fresh_stocked (Nat.le_of_lt (Nat.lt_of_le_of_lt hn hk))
  -- first the kernel's context, then the parent's
  rcases Paging.Machine.init_defined (c := 0) rfl hstock with
    ⟨_, m₁, hinit₁, hstock₁, hroots₁, hretired₁⟩
  rcases init_draws rfl hinit₁ with ⟨kernel, hkernel₁, hdraws₁, hlive₁, hblank₁⟩
  have hnone₁ : m₁.roots 1 = none := by
    rw [hroots₁, Function.update_of_ne (by decide)]
    rfl
  rcases Paging.Machine.init_defined hnone₁ hstock₁ with
    ⟨_, m₂, hinit₂, hstock₂, hroots₂, hretired₂⟩
  rcases init_draws hnone₁ hinit₂ with ⟨root, hroot₂, hdraws₂, _, hblank₂⟩
  have hempty₁ : m₁.retired = ∅ := hretired₁.trans (Finset.erase_empty 0)
  have halive₁ : 1 ∉ m₁.retired := hempty₁ ▸ Finset.notMem_empty 1
  have hrun₁ : Run Paging.Machine.step Paging.Machine.Disciplined
      (Paging.Machine.fresh (n + 2)) m₁ :=
    Run.single (a := CtxOp.init 0) (Finset.notMem_empty 0) hinit₁
  rcases hdraws₁.foreign (Finset.notMem_empty _) (Paging.Machine.fresh_foreign hn hk) with
    ⟨hlive, hsupply⟩
  refine ⟨m₂, root, kernel, hrun₁.tail (a := CtxOp.init 1) halive₁ hinit₂, ?_, hroot₂, ?_, hstock₂,
    hblank₂, ?_, hdraws₂.foreign hlive hsupply⟩
  · intro c
    rw [hretired₂, hempty₁, Finset.erase_empty]
    exact Finset.notMem_empty c
  · rw [hroots₂, Function.update_of_ne (by decide), hkernel₁]
  · intro q
    rw [hdraws₂.spares kernel (.inl hlive₁) id, hblank₁]

/-- The page 0x400000 is mapped for the parent, on a frame that is none of the allocator's, and no
other page for either. -/
structure OnePage (n : Nat) (frame : Frame) (machine : Paging.Machine) (root kernel : Frame) :
    Prop where
  run : Run Paging.Machine.step Paging.Machine.Disciplined
    (Paging.Machine.fresh (n + 3 + 2)) machine
  alive : ∀ c, c ∉ machine.retired
  parentRoot : machine.roots 1 = some root
  kernelRoot : machine.roots 0 = some kernel
  stock : machine.phys.Stocked n
  found : lookup machine.phys.tables root 0x400000#64 = some (pageEntry frame.1 7#64 .normal)
  only : ∀ v entry, ¬ IsUpper v → lookup machine.phys.tables root v = some entry →
    pageOf v = pageOf 0x400000#64 ∧ getFrame entry = frame
  kernelPages : ∀ v, ¬ IsUpper v → lookup machine.phys.tables kernel v = none
  foreign : frame ∉ machine.phys.live ∧ frame ∉ machine.phys.supply

/-- The parent maps a page. -/
lemma TwoContexts.onePage {n : Nat} {frame root kernel : Frame} {m : Paging.Machine}
    (h : TwoContexts (n + 3) frame m root kernel) :
    ∃ machine, OnePage n frame machine root kernel := by
  rcases Paging.Machine.mapPage_step frame.1 0x400000#64 7#64 .normal h.parentRoot h.stock with
    ⟨machine, hmap, hstock, hroots, hretired⟩
  have hrun : Run Paging.Machine.step Paging.Machine.Disciplined
      (Paging.Machine.fresh (n + 3 + 2)) machine :=
    h.run.tail (a := CtxOp.mapPage 1 frame.1 0x400000#64 7#64 .normal) (h.alive 1) hmap
  have hinv : m.Inv :=
    h.run.invariant (Paging.Machine.start_inv _ _) fun t op u ht hok hs => ht.step hok hs
  rcases hinv with ⟨owner, htracks, hroles⟩
  have hparent := hroles 1 root (h.alive 1) h.parentRoot
  have hkernel := hroles 0 kernel (h.alive 0) h.kernelRoot
  rcases Paging.Machine.mapPage_root_cases h.parentRoot hmap with ⟨s, hpage, rfl⟩
  rcases Grows.mapPage htracks hparent hpage with ⟨owner', l, hgrows, hrole, hmapped⟩
  have hfound : lookup s.tables root 0x400000#64 = some (pageEntry frame.1 7#64 .normal) :=
    hmapped.lookup_written (by decide)
  refine ⟨_, hrun, fun c => hretired ▸ h.alive c, h.parentRoot, h.kernelRoot, hstock, hfound, ?_,
    ?_, hgrows.draws.foreign h.foreign.1 h.foreign.2⟩
  · intro v entry hv hentry
    by_cases hsame : pageOf v = pageOf 0x400000#64
    · rw [lookup_congr_page hsame, hfound] at hentry
      rw [← Option.some.inj hentry, getFrame_pageEntry, getFrame_frame]
      exact ⟨hsame, rfl⟩
    · rw [hmapped.lookup_rest hrole hparent hv hsame,
        lookup_blank (fun q _ => h.parentBlank q) hv] at hentry
      simp at hentry
  · intro v hv
    rw [(hmapped.keepsLower hrole (.inl (by decide))).lookup htracks.linked hkernel hv]
    exact lookup_blank (fun q _ => h.kernelBlank q) hv

/-- The child of a parent with one page. -/
theorem fork_address_space_copies_sample :
    ∃ (machine : Paging.Machine) (root kernel child : Frame) (m : Mem) (entry entry' : BitVec 64),
      Run Paging.Machine.step Paging.Machine.Disciplined
          (Paging.Machine.fresh (10 + cloneFrames + 3 + 2)) machine ∧
        machine.roots 1 = some root ∧ machine.roots 0 = some kernel ∧
        forkAddressSpace root kernel none ⟨machine.phys, []⟩ = some (child, m) ∧
        lookup machine.phys.tables root 0x400000#64 = some entry ∧
        lookup m.phys.tables child 0x400000#64 = some entry' ∧ SameRights entry entry' ∧
        m.phys.tables (getFrame entry') = machine.phys.tables (getFrame entry) ∧
        m.frames.count (getFrame entry') = 1 := by
  have hfew : 10 + cloneFrames + 3 + 2 ≤ 2 ^ 40 - 1 := by decide
  rcases exists_twoContexts hfew (by decide) with ⟨m₂, root, kernel, htwo⟩
  rcases htwo.onePage with ⟨machine, h⟩
  have hinv : machine.Inv :=
    h.run.invariant (Paging.Machine.start_inv _ _) fun t op u ht hok hs => ht.step hok hs
  -- one page, so one block and at most nine tables
  have hlength : (lowerPages machine.phys.tables root).length ≤ 1 :=
    length_le_one (fun page hin => (h.only page.1 page.2 (mem_lowerPages hin).1
      (mem_lowerPages hin).2).1) lowerPages_pairwise
  have hfresh : ∀ r ∈ [root, kernel], ∀ v entry, ¬ IsUpper v →
      lookup machine.phys.tables r v = some entry → machine.phys.Kept (getFrame entry) := by
    intro r hr v entry hv hentry
    have hcases : r = root ∨ r = kernel := by simpa using hr
    rcases hcases with rfl | rfl
    · exact Or.inr ((h.only v entry hv hentry).2 ▸ h.foreign.2)
    · exact absurd hentry (by simp [h.kernelPages v hv])
  have hcopies := fork_address_space_copies h.run (h.alive 1) h.parentRoot (h.alive 0) h.kernelRoot
    (fun v entry hv hentry htable =>
      h.foreign.1 ((h.only v entry hv hentry).2 ▸ htable.live hinv))
    hfresh (fun heq => absurd heq (by decide))
  rcases hcopies.1 (h.stock.mono (Nat.add_le_add_right (Nat.mul_le_mul_left 10 hlength) _)) with
    ⟨child, m, hfork⟩
  rcases (hcopies.2 child m hfork).copied _ _ (by decide) h.found with
    ⟨entry', hchild, hrights, hcontent, _, _, _, hcount⟩
  exact ⟨machine, root, kernel, child, m, _, entry', h.run, h.parentRoot, h.kernelRoot, hfork,
    h.found, hchild, hrights, hcontent, hcount⟩

end SigmaOS.Proc.Process
