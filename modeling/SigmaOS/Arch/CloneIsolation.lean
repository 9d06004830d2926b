import SigmaOS.Arch.PagingHalves
import SigmaOS.Arch.PagingTotal

/-!
# Arch.CloneIsolation — a clone has a lower half of its own

After `clone_paging_info` the two contexts answer alike for every address of the lower half, but no
table of the clone's lower half is a table of the source.

The tables behind the lower half of context `c` have the roles `own c path`, the tables of any other
context have roles of that context or shared ones, and a frame has one role.  So over whole runs the
tables of a context in use are outstanding and its own (`tables_freed_once`).
-/

namespace SigmaOS.Arch.Paging

open Machine
open Lib

/-! ## Tables of a context -/

/-- `f` is a table below `root`, or `root` itself. -/
def TableOf (m : Tables Frame Index (BitVec 64)) (root f : Frame) : Prop :=
  ∃ path : List Index, path.length ≤ 3 ∧ walk pageFormat m root path = some f

/-- `f` is a table of the lower half below `root`, or `root` itself. -/
def LowerTableOf (m : Tables Frame Index (BitVec 64)) (root f : Frame) : Prop :=
  ∃ path : List Index, path.length ≤ 3 ∧ (∀ i ∈ path.head?, i.val < 256) ∧
    walk pageFormat m root path = some f

/-- The role is none of another context than `c`. -/
def Role.OfOrShared (c : Ctx) (l : Role) : Prop :=
  ∀ c' path, l = .own c' path → c' = c

lemma roleNext_ofOrShared {c : Ctx} {i : Index} {l l' : Role} (h : l.OfOrShared c)
    (hl : roleNext l i = some l') : l'.OfOrShared c := by
  rintro c' path rfl
  rcases roleNext_own hl with ⟨path', hl'⟩
  exact h c' path' hl'

lemma roleAt_defined {c : Ctx} {path : List Index} (hlen : path.length ≤ 3) :
    ∃ l, roleAt roleNext (.own c []) path = some l := by
  cases path with
  | nil => exact ⟨.own c [], rfl⟩
  | cons i path =>
    have hrest : path.length ≤ 2 := Nat.le_of_succ_le_succ hlen
    by_cases hi : i.val < 256
    · exact ⟨_, roleAt_own (by simpa using hlen) fun _ j hj => Option.some.inj hj ▸ hi⟩
    · have hnext := roleNext_own_upper (c := c) hi
      exact ⟨.shared (2 - path.length), by simpa [roleAt, hnext] using roleAt_shared hrest⟩

section Separate

variable {owner : Frame → Option Role} {m : Tables Frame Index (BitVec 64)} {a b : Ctx}
  {ra rb f : Frame}

lemma roleAt_lowerPath {path : List Index} (hlen : path.length ≤ 3)
    (hlower : ∀ i ∈ path.head?, i.val < 256) :
    roleAt roleNext (.own b []) path = some (.own b path) :=
  roleAt_own (by simpa using hlen) fun _ => hlower

lemma LowerTableOf.role (h : LowerTableOf m rb f) (hlinked : Linked pageFormat roleNext owner m)
    (hrb : owner rb = some (.own b [])) : ∃ path, owner f = some (.own b path) := by
  rcases h with ⟨path, hlen, hlower, hwalk⟩
  exact ⟨path, hlinked.walk_owner hrb (roleAt_lowerPath hlen hlower) hwalk⟩

lemma TableOf.role (h : TableOf m ra f) (hlinked : Linked pageFormat roleNext owner m)
    (hra : owner ra = some (.own a [])) : ∃ l, owner f = some l ∧ l.OfOrShared a := by
  rcases h with ⟨path, hlen, hwalk⟩
  rcases roleAt_defined (c := a) hlen with ⟨l, hl⟩
  have hroot : (Role.own a []).OfOrShared a := by
    rintro c' path' heq
    exact (Role.own.inj heq).1.symm
  exact ⟨l, hlinked.walk_owner hra hl hwalk,
    roleAt_kept (Role.OfOrShared a) (fun _ _ _ => roleNext_ofOrShared) hroot hl⟩

lemma lowerTable_separate (hlinked : Linked pageFormat roleNext owner m)
    (hra : owner ra = some (.own a [])) (hrb : owner rb = some (.own b [])) (hab : a ≠ b)
    (hlower : LowerTableOf m rb f) : ¬ TableOf m ra f := by
  intro htable
  rcases hlower.role hlinked hrb with ⟨path, hf⟩
  rcases htable.role hlinked hra with ⟨l, hl, hof⟩
  have heq : l = .own b path := Option.some.inj (hl.symm.trans hf)
  exact hab (hof b path heq).symm

end Separate

/-! ## Entries of the lower half -/

lemma getEntry_congr {m m' : Tables Frame Index (BitVec 64)} {r r' : Frame} {virt : BitVec 64}
    (h : readAt pageFormat m' r' (tablePath virt) (ptIndex virt) =
      readAt pageFormat m r (tablePath virt) (ptIndex virt)) :
    getEntry m' r' virt = getEntry m r virt := by
  have hlookup : lookup m' r' virt = lookup m r virt := by rw [lookup_eq, lookup_eq, ← tablePath, h]
  rw [getEntry, getEntry, hlookup]

section Lower

variable {owner owner' : Frame → Option Role} {s s' : Phys} {a b : Ctx} {ra rb : Frame}
  {phys virt flags v : BitVec 64} {cache : CacheType}

lemma Cloned.getEntry_clone {D : BitVec 64 → Prop} (h : Cloned D owner s ra b rb owner' s')
    (hv : ¬ IsUpper v) : getEntry s'.tables rb v = getEntry s.tables ra v :=
  getEntry_congr (h.lower (pml4Index v) (mem_lowerHalf.2 (Nat.lt_of_not_le hv))
    [pdptIndex v, pdIndex v] (ptIndex v) rfl)

lemma Cloned.getEntry_source {D : BitVec 64 → Prop} (h : Cloned D owner s ra b rb owner' s')
    (hs : s.Holding D owner) (hra : owner ra = some (.own a [])) :
    getEntry s'.tables ra v = getEntry s.tables ra v := by
  rcases roleAt_root a (pml4Index v) (pdptIndex v) (pdIndex v) with ⟨l, hrole, _⟩
  exact getEntry_congr (h.fills.readAt_same hs hra hrole)

lemma mapPage_other_lower (h : s.Tracks roleNext owner) (hra : owner ra = some (.own a []))
    (hrb : owner rb = some (.own b [])) (hab : a ≠ b) (hvirt : ¬ IsUpper virt)
    (hmap : mapPage ra phys virt flags cache s = some s') (hv : ¬ IsUpper v) :
    getEntry s'.tables rb v = getEntry s.tables rb v := by
  have hrole : ∀ (c : Ctx) (w : BitVec 64), ¬ IsUpper w →
      roleAt roleNext (.own c []) (tablePath w) = some (.own c (tablePath w)) :=
    fun c w hw => roleAt_lower hw (List.prefix_refl _)
  have hdata : ∀ (c : Ctx) (w : BitVec 64) q, roleNext (.own c (tablePath w)) q = none := by
    intro c w q
    simp [tablePath, roleNext]
  rcases mapPage_spec h hra (hrole a virt hvirt) (hdata a virt _) hmap with ⟨owner', hmapped⟩
  refine getEntry_congr (hmapped.reads rb _ _ _ _ hrb (hrole b v hv) (hdata b v _) ?_)
  intro heq
  exact absurd (Role.own.inj heq).1.symm hab

end Lower

namespace Machine

def MapsLower (a b : Ctx) : CtxOp → Prop
  | .mapPage c _ virt _ _ => (c = a ∨ c = b) ∧ ¬ IsUpper virt
  | _ => False

structure Pair (a b : Ctx) (ra rb : Frame) (m : Machine) : Prop where
  inv : m.Inv
  first : m.roots a = some ra
  second : m.roots b = some rb
  firstAlive : a ∉ m.retired
  secondAlive : b ∉ m.retired

variable {m m' : Machine} {a b c : Ctx} {ra rb r : Frame} {op : CtxOp}
  {phys virt flags : BitVec 64} {cache : CacheType}

lemma Pair.symm (h : m.Pair a b ra rb) : m.Pair b a rb ra :=
  ⟨h.inv, h.second, h.first, h.secondAlive, h.firstAlive⟩

lemma Pair.mapFirst (h : m.Pair a b ra rb)
    (hs : m.step (.mapPage a phys virt flags cache) = some m') : m'.Pair a b ra rb := by
  have hinv' := h.inv.mapPage h.firstAlive hs
  rcases mapPage_root_cases h.first hs with ⟨s, _, rfl⟩
  exact ⟨hinv', h.first, h.second, h.firstAlive, h.secondAlive⟩

lemma Pair.step (h : m.Pair a b ra rb) (hop : MapsLower a b op) (hs : m.step op = some m') :
    m'.Pair a b ra rb := by
  cases op with
  | mapPage c phys virt flags cache =>
    rcases hop with ⟨rfl | rfl, _⟩
    · exact h.mapFirst hs
    · exact (h.symm.mapFirst hs).symm
  | init c => exact absurd hop id
  | clonePagingInfo source target => exact absurd hop id
  | deinit c => exact absurd hop id

lemma Pair.other_lower (h : m.Pair a b ra rb) (hab : a ≠ b) (hvirt : ¬ IsUpper virt)
    (hs : m.step (.mapPage a phys virt flags cache) = some m') {v : BitVec 64} (hv : ¬ IsUpper v) :
    getEntry m'.phys.tables rb v = getEntry m.phys.tables rb v := by
  rcases mapPage_root_cases h.first hs with ⟨s, hmap, rfl⟩
  rcases h.inv with ⟨owner, htracks, hroots⟩
  exact mapPage_other_lower htracks (hroots a ra h.firstAlive h.first)
    (hroots b rb h.secondAlive h.second) hab hvirt hmap hv

end Machine

/-- Context `a` is cloned into a context `b` without a root, in any state that the contexts can reach.
The lower halves then answer alike and have no table in common, and after any calls of `map_page` on
lower-half addresses of the two, one more call changes no entry in the lower half of the other one. -/
theorem clone_isolated {tables : Tables Frame Index (BitVec 64)} {supply : List Frame}
    {m m₁ : Machine} {a b : Ctx} {ra : Frame}
    (hrun : Run Machine.step Machine.Disciplined (Machine.start tables supply) m)
    (ha : a ∉ m.retired) (hra : m.roots a = some ra) (hb : m.roots b = none)
    (hclone : m.step (.clonePagingInfo a b) = some m₁) :
    ∃ rb, m₁.roots a = some ra ∧ m₁.roots b = some rb ∧
      (∀ v, ¬ IsUpper v →
        getEntry m₁.phys.tables rb v = getEntry m₁.phys.tables ra v ∧
          getEntry m₁.phys.tables ra v = getEntry m.phys.tables ra v) ∧
      (∀ f, LowerTableOf m₁.phys.tables rb f → ¬ TableOf m₁.phys.tables ra f) ∧
      ∀ m₂, Run Machine.step (fun _ => Machine.MapsLower a b) m₁ m₂ →
        ∀ phys virt flags cache m₃, ¬ IsUpper virt →
          (m₂.step (.mapPage a phys virt flags cache) = some m₃ →
            ∀ v, ¬ IsUpper v →
              getEntry m₃.phys.tables rb v = getEntry m₂.phys.tables rb v) ∧
          (m₂.step (.mapPage b phys virt flags cache) = some m₃ →
            ∀ v, ¬ IsUpper v →
              getEntry m₃.phys.tables ra v = getEntry m₂.phys.tables ra v) := by
  have hinv : m.Inv :=
    hrun.invariant (start_inv tables supply) fun t op u ht hok hs => ht.step hok hs
  have hinv₁ := hinv.clonePagingInfo ha hb hclone
  rcases clonePagingInfo_root_cases hra hb hclone with ⟨hab, rb, s, hpaging, rfl⟩
  rcases hinv with ⟨owner, htracks, hroots⟩
  have hraRole := hroots a ra ha hra
  rcases clonePagingInfo_spec (d := b) trivial htracks.holding hraRole hpaging with
    ⟨owner', hcloned⟩
  have hpair : Machine.Pair a b ra rb
      ⟨s, Function.update m.roots b (some rb), m.retired.erase b⟩ :=
    ⟨hinv₁, (Function.update_of_ne hab _ _).trans hra, Function.update_self b _ _,
      fun hin => ha (Finset.mem_of_mem_erase hin), Finset.notMem_erase b _⟩
  refine ⟨rb, hpair.first, hpair.second, ?_, ?_, ?_⟩
  · intro v hv
    have hsource := hcloned.getEntry_source (v := v) htracks.holding hraRole
    exact ⟨(hcloned.getEntry_clone hv).trans hsource.symm, hsource⟩
  · intro f hf
    exact lowerTable_separate hcloned.fills.holding.tracks.linked
      (hcloned.fills.ext.keeps _ _ hraRole) hcloned.root hab hf
  · intro m₂ hmaps phys virt flags cache m₃ hvirt
    have hpair₂ : m₂.Pair a b ra rb :=
      hmaps.invariant hpair fun t op u ht hop hs => ht.step hop hs
    refine ⟨?_, ?_⟩
    · intro hs v hv
      exact hpair₂.other_lower hab hvirt hs hv
    · intro hs v hv
      exact hpair₂.symm.other_lower (Ne.symm hab) hvirt hs hv

/-- A context with one page is cloned. -/
theorem clone_isolated_sample :
    ∃ (m m₁ : Machine) (ra rb : Frame),
      Run Machine.step Machine.Disciplined (Machine.fresh (cloneFrames + 4)) m ∧
        m.step (.clonePagingInfo 0 1) = some m₁ ∧ m₁.roots 0 = some ra ∧ m₁.roots 1 = some rb ∧
        present (getEntry m₁.phys.tables rb 0x400000#64) = true ∧
        ∀ f, LowerTableOf m₁.phys.tables rb f → ¬ TableOf m₁.phys.tables ra f := by
  have hstock : (fresh (cloneFrames + 4)).phys.Stocked (0 + cloneFrames + 3 + 1) :=
    (fresh_stocked (by decide)).mono (by decide)
  rcases init_defined (c := 0) rfl hstock with
    ⟨ra, m₀, hinit, hstock₀, hroots₀, hretired₀⟩
  have hra : m₀.roots 0 = some ra := by rw [hroots₀, Function.update_self]
  have hnone : m₀.roots 1 = none := by
    rw [hroots₀, Function.update_of_ne (by decide)]
    rfl
  have halive : 0 ∉ m₀.retired := by
    rw [hretired₀]
    exact Finset.notMem_erase 0 _
  rcases mapPage_step 0x5000#64 0x400000#64 7#64 .normal hra hstock₀ with
    ⟨m, hmap, hstock, hroots, hretired⟩
  rcases clonePagingInfo_step (c := 0) (d := 1) (hroots ▸ hra) (by decide) (hroots ▸ hnone)
    hstock with ⟨_, m₁, hclone, _⟩
  have hrun₀ : Run step Machine.Disciplined (fresh (cloneFrames + 4)) m₀ :=
    Run.single (a := CtxOp.init 0) (Finset.notMem_empty 0) hinit
  have hrun : Run step Machine.Disciplined (fresh (cloneFrames + 4)) m :=
    hrun₀.tail (a := .mapPage 0 0x5000#64 0x400000#64 7#64 .normal) halive hmap
  rcases clone_isolated hrun (hretired ▸ halive) (hroots ▸ hra) (hroots ▸ hnone) hclone with
    ⟨rb, hra₁, hrb₁, hanswers, hseparate, _⟩
  refine ⟨m, m₁, ra, rb, hrun, hclone, hra₁, hrb₁, ?_, hseparate⟩
  rcases hanswers 0x400000#64 (by decide) with ⟨hclone₁, hsource⟩
  rcases hrun₀.invariant (start_inv _ _) (fun t op u ht hok hs => ht.step hok hs) with
    ⟨owner, htracks, hroles⟩
  rcases mapPage_root_cases hra hmap with ⟨s, hpage, rfl⟩
  rw [hclone₁, hsource]
  exact mapPage_getEntry htracks (hroles 0 ra halive hra) (by decide) hpage

/-! ## Every table freed once -/

/-- All tables that a context in use has are outstanding, and those of its lower half are its own. -/
structure Machine.Owned (m : Machine) : Prop where
  outstanding : ∀ c r f, c ∉ m.retired → m.roots c = some r → TableOf m.phys.tables r f →
    f ∈ m.phys.live
  own : ∀ c c' r r' f, c ≠ c' → c ∉ m.retired → c' ∉ m.retired → m.roots c = some r →
    m.roots c' = some r' → LowerTableOf m.phys.tables r f → ¬ TableOf m.phys.tables r' f

lemma Machine.Inv.owned {m : Machine} (h : m.Inv) : m.Owned := by
  rcases h with ⟨owner, htracks, hroots⟩
  refine ⟨fun c r f hc hr hf => ?_, fun c c' r r' f hne hc hc' hr hr' hf => ?_⟩
  · rcases hf.role htracks.linked (hroots c r hc hr) with ⟨l, hl, _⟩
    exact htracks.live f l hl
  · exact lowerTable_separate htracks.linked (hroots c' r' hc' hr') (hroots c r hc hr) (Ne.symm hne) hf

/-- In every run in which contexts are used with discipline, no table frame is freed twice for one
allocation and none is dereferenced after it was freed; nor is a table of a context in use one that
was freed and handed out again. -/
theorem tables_freed_once {tables : Tables Frame Index (BitVec 64)} {supply : List Frame}
    {m : Machine} (hrun : Run Machine.step Machine.Disciplined (Machine.start tables supply) m) :
    m.phys.misuse = false ∧ m.Owned := by
  have hinv : m.Inv :=
    hrun.invariant (Machine.start_inv tables supply) fun t op u ht hok hs => ht.step hok hs
  refine ⟨?_, hinv.owned⟩
  rcases hinv with ⟨_, htracks, _⟩
  exact htracks.clean

/-- A context is created, mapped into and cloned; the first one is torn down, and the clone goes on. -/
theorem tables_freed_once_sample :
    ∃ m r, Run Machine.step Machine.Disciplined (Machine.fresh (cloneFrames + 7)) m ∧
      0 ∈ m.retired ∧ m.roots 1 = some r ∧ m.phys.misuse = false ∧ m.Owned := by
  have hstock : (fresh (cloneFrames + 7)).phys.Stocked (0 + 3 + cloneFrames + 3 + 1) :=
    (fresh_stocked (by decide)).mono (by decide)
  rcases init_defined (c := 0) rfl hstock with ⟨ra, m₁, hinit, hstock₁, hroots₁, hretired₁⟩
  have hra : m₁.roots 0 = some ra := by rw [hroots₁, Function.update_self]
  have hnone : m₁.roots 1 = none := by
    rw [hroots₁, Function.update_of_ne (by decide)]
    rfl
  have hempty : m₁.retired = ∅ := hretired₁
  rcases mapPage_step 0x5000#64 0x400000#64 7#64 .normal hra hstock₁ with
    ⟨m₂, hmap, hstock₂, hroots₂, hretired₂⟩
  rcases clonePagingInfo_step (c := 0) (d := 1) (hroots₂ ▸ hra) (by decide) (hroots₂ ▸ hnone)
    hstock₂ with ⟨rb, m₃, hclone, hstock₃, hroots₃, hretired₃⟩
  have hra₃ : m₃.roots 0 = some ra := by
    rw [hroots₃, Function.update_of_ne (by decide), hroots₂, hra]
  have hrb₃ : m₃.roots 1 = some rb := by rw [hroots₃, Function.update_self]
  have hempty₃ : m₃.retired = ∅ := by rw [hretired₃, hretired₂, hempty]; rfl
  obtain ⟨m₄, hdeinit, hphys₄, hroots₄, hretired₄⟩ : ∃ m₄, m₃.step (.deinit 0) = some m₄ ∧
      m₄.phys = deinit (some ra) m₃.phys ∧ m₄.roots = m₃.roots ∧ m₄.retired = {0} :=
    ⟨_, rfl, by simp [hra₃], rfl, by simp [hra₃, hempty₃]⟩
  have hstock₄ : m₄.phys.Stocked (0 + 3) := by
    rw [hphys₄]
    exact hstock₃.shrinks (deinit_shrinks _ _)
  have hone : 1 ∉ m₄.retired := by
    rw [hretired₄]
    decide
  rcases mapPage_step 0x6000#64 0x400000#64 7#64 .normal (hroots₄ ▸ hrb₃) hstock₄ with
    ⟨m₅, hmap₅, _, hroots₅, hretired₅⟩
  have hrun : Run step Machine.Disciplined (fresh (cloneFrames + 7)) m₅ := by
    refine Run.tail (a := .mapPage 1 0x6000#64 0x400000#64 7#64 .normal) ?_ hone hmap₅
    refine Run.tail (a := .deinit 0) ?_ (by rw [Disciplined, hempty₃]; simp) hdeinit
    refine Run.tail (a := .clonePagingInfo 0 1) ?_
      ⟨by rw [hretired₂, hempty]; simp, hroots₂ ▸ hnone⟩ hclone
    refine Run.tail (a := .mapPage 0 0x5000#64 0x400000#64 7#64 .normal) ?_
      (by rw [Disciplined, hempty]; simp) hmap
    exact Run.single (a := .init 0) (Finset.notMem_empty 0) hinit
  exact ⟨m₅, rb, hrun, by rw [hretired₅, hretired₄]; simp, by rw [hroots₅, hroots₄, hrb₃],
    tables_freed_once hrun⟩

/-- A context that is torn down twice, as `kill` does it by `deinit` and `init`. -/
theorem tables_not_freed_once :
    ¬ ∀ (tables : Tables Frame Index (BitVec 64)) (supply : List Frame) (m : Machine),
      Run Machine.step (fun _ _ => True) (Machine.start tables supply) m →
        m.phys.misuse = false := by
  intro hall
  have hinit : ∃ m, (Machine.start (fun _ _ => 0#64) [frameAt 1]).step (.init 0) = some m ∧
      m.roots 0 = some (frameAt 1) :=
    ⟨_, rfl, rfl⟩
  rcases hinit with ⟨m, hstep, hroot⟩
  have hdeinit : ∀ m : Machine, m.roots 0 = some (frameAt 1) → ∃ m', m.step (.deinit 0) = some m' ∧
      m'.roots 0 = some (frameAt 1) ∧ m'.phys = deinit (some (frameAt 1)) m.phys := by
    intro m hm
    exact ⟨_, rfl, hm, by simp only [hm]⟩
  rcases hdeinit m hroot with ⟨m₁, hstep₁, hroot₁, hphys₁⟩
  rcases hdeinit m₁ hroot₁ with ⟨m₂, hstep₂, _, hphys₂⟩
  have hclean := hall _ _ m₂
    (Run.tail (Run.tail (Run.single trivial hstep) trivial hstep₁) trivial hstep₂)
  have hdangling : m₂.phys.misuse = true := by
    rw [hphys₂]
    refine deinit_dangling ?_
    rw [hphys₁]
    exact deinit_root _ _
  rw [hdangling] at hclean
  exact absurd hclean (by decide)

end SigmaOS.Arch.Paging
