import SigmaOS.Arch.PagingClone

/-!
# Arch.PagingLife — the life cycle of paging contexts

Contexts are created, mapped into, cloned and torn down in any order.  `deinit` leaves
`paging_info` as it is, so a second `deinit`, which is also the first thing `init` and
`clone_paging_info` do, walks tables that have been freed (`deinit_dangling`).  Where no context is
used after its `deinit`, every table has one place in one context (`Inv`).
-/

namespace SigmaOS.Arch.Paging

open Lib Finset

lemma Phys.Holding.deinit {D : BitVec 64 → Prop} {owner : Frame → Option Role} {s : Phys}
    {c : Ctx} {r : Frame} (h : s.Holding D owner) (hr : owner r = some (.own c [])) :
    (Paging.deinit (some r) s).Holding D (forgetCtx c owner) := by
  refine ⟨deinit_spec h.tracks hr, ?_⟩
  intro x l q hx hl
  rw [deinit_tables]
  exact h.data x l q (forgetCtx_eq_some.1 hx).1 hl

/-! ## Contexts -/

/-- All contexts with the memory of their tables.  `retired` are those on which `deinit` has run
since they were given a root. -/
structure Machine where
  phys : Phys
  roots : Ctx → Option Frame
  retired : Finset Ctx

inductive CtxOp
  | init (c : Ctx)
  | mapPage (c : Ctx) (phys virt flags : BitVec 64) (cache : CacheType)
  | clonePagingInfo (source target : Ctx)
  | deinit (c : Ctx)

namespace Machine

def start (tables : Tables Frame Index (BitVec 64)) (supply : List Frame) : Machine :=
  { phys := { tables := tables, supply := supply, live := ∅, misuse := false }
    roots := fun _ => none
    retired := ∅ }

def step (m : Machine) : CtxOp → Option Machine
  | .init c =>
    match Paging.init (m.roots c) m.phys with
    | none => none
    | some (r, s) =>
      some
        { phys := s
          roots := Function.update m.roots c (some r)
          retired := m.retired.erase c }
  | .mapPage c phys virt flags cache =>
    match m.roots c with
    | none => none
    | some r =>
      match Paging.mapPage r phys virt flags cache m.phys with
      | none => none
      | some s => some { m with phys := s }
  | .clonePagingInfo source target =>
    match m.roots source with
    | none => none
    | some r =>
      if source = target then
        none
      else
        match Paging.clonePagingInfo r (m.roots target) m.phys with
        | none => none
        | some (new, s) =>
          some
            { phys := s
              roots := Function.update m.roots target (some new)
              retired := m.retired.erase target }
  | .deinit c =>
    some
      { m with
        phys := Paging.deinit (m.roots c) m.phys
        retired := if m.roots c = none then m.retired else insert c m.retired }

/-- After its `deinit` a context is never used again, `init` included, and clones go to contexts
without a root. -/
def Disciplined (m : Machine) : CtxOp → Prop
  | .init c => c ∉ m.retired
  | .mapPage c _ _ _ _ => c ∉ m.retired
  | .clonePagingInfo source target => source ∉ m.retired ∧ m.roots target = none
  | .deinit c => c ∉ m.retired

def Inv (m : Machine) : Prop :=
  ∃ owner, m.phys.Tracks roleNext owner ∧
    ∀ c r, c ∉ m.retired → m.roots c = some r → owner r = some (.own c [])

def Holds (D : BitVec 64 → Prop) (m : Machine) : Prop :=
  ∃ owner, m.phys.Holding D owner ∧
    ∀ c r, c ∉ m.retired → m.roots c = some r → owner r = some (.own c [])

variable {m m' : Machine} {c : Ctx} {r : Frame} {s s' : Phys} {owner : Frame → Option Role}
  {D : BitVec 64 → Prop}

lemma inv_iff_holds : m.Inv ↔ m.Holds fun _ => True := by
  constructor
  · rintro ⟨owner, htracks, hroots⟩
    exact ⟨owner, htracks.holding, hroots⟩
  · rintro ⟨owner, hholding, hroots⟩
    exact ⟨owner, hholding.tracks, hroots⟩

lemma Holds.of_root (h : s.Holding D owner) (hr : owner r = some (.own c []))
    (hothers : ∀ c' r', c' ≠ c → c' ∉ m.retired → m.roots c' = some r' →
      owner r' = some (.own c' [])) :
    Holds D ⟨s, Function.update m.roots c (some r), m.retired.erase c⟩ := by
  refine ⟨owner, h, ?_⟩
  intro c' r' hc' hr'
  by_cases hcc : c' = c
  · subst hcc
    have hrr : r = r' := by simpa using hr'
    exact hrr ▸ hr
  · refine hothers c' r' hcc ?_ (by simpa [hcc] using hr')
    intro hin
    exact hc' (mem_erase.2 ⟨hcc, hin⟩)

lemma forgetCtx_root {c' : Ctx} (hcc : c' ≠ c) (hr : owner r = some (.own c' [])) :
    forgetCtx c owner r = some (.own c' []) := by
  refine forgetCtx_eq_some.2 ⟨hr, ?_⟩
  rintro ⟨path, hl⟩
  exact hcc (Role.own.inj hl).1

lemma init_cases (hs : m.step (.init c) = some m') :
    ∃ r s, (Paging.deinit (m.roots c) m.phys).alloc = some (r, s) ∧
      m' = ⟨s.clear r, Function.update m.roots c (some r), m.retired.erase c⟩ := by
  simp only [step] at hs
  split at hs
  · cases hs
  next r _ hinit =>
  rcases Paging.init_cases hinit with ⟨s, halloc, rfl⟩
  cases hs
  exact ⟨r, s, halloc, rfl⟩

lemma Holds.init (hzero : D 0#64) (h : m.Holds D) (hok : c ∉ m.retired)
    (hs : m.step (.init c) = some m') : m'.Holds D := by
  rcases h with ⟨owner, hold, hroots⟩
  rcases init_cases hs with ⟨r, s, halloc, rfl⟩
  -- what remains of the roles once the old tables are gone
  have hbase : ∃ owner₁, (Paging.deinit (m.roots c) m.phys).Holding D owner₁ ∧
      ∀ c' r', c' ≠ c → c' ∉ m.retired → m.roots c' = some r' →
        owner₁ r' = some (.own c' []) := by
    cases hroot : m.roots c with
    | none => exact ⟨owner, hold, fun c' r' _ hc' hr' => hroots c' r' hc' hr'⟩
    | some old =>
      exact ⟨forgetCtx c owner, hold.deinit (hroots c old hok hroot),
        fun c' r' hcc hc' hr' => forgetCtx_root hcc (hroots c' r' hc' hr')⟩
  rcases hbase with ⟨owner₁, hold₁, hothers⟩
  rcases Fills.alloc hzero hold₁ halloc (.own c []) with ⟨_, _, hnew⟩
  exact Holds.of_root hnew.holding (by simp) fun c' r' hcc hc' hr' =>
    hnew.ext.keeps _ _ (hothers c' r' hcc hc' hr')

lemma Inv.init (h : m.Inv) (hok : c ∉ m.retired) (hs : m.step (.init c) = some m') : m'.Inv :=
  inv_iff_holds.2 ((inv_iff_holds.1 h).init trivial hok hs)

variable {cache : CacheType} {d : Ctx}

lemma mapPage_cases {phys virt flags : BitVec 64}
    (hs : m.step (.mapPage c phys virt flags cache) = some m') :
    ∃ r s, m.roots c = some r ∧ Paging.mapPage r phys virt flags cache m.phys = some s ∧
      m' = { m with phys := s } := by
  simp only [step] at hs
  split at hs
  · cases hs
  next r hroot =>
  split at hs
  · cases hs
  next s hmap =>
  cases hs
  exact ⟨r, s, hroot, hmap, rfl⟩

lemma mapPage_root_cases {phys virt flags : BitVec 64} (hroot : m.roots c = some r)
    (hs : m.step (.mapPage c phys virt flags cache) = some m') :
    ∃ s, Paging.mapPage r phys virt flags cache m.phys = some s ∧ m' = { m with phys := s } := by
  rcases mapPage_cases hs with ⟨r', s, hroot', hmap, heq⟩
  cases Option.some.inj (hroot.symm.trans hroot')
  exact ⟨s, hmap, heq⟩

lemma Holds.mapPage {phys virt flags : BitVec 64} (hzero : D 0#64) (h : m.Holds D)
    (hok : c ∉ m.retired) (hentry : D (pageEntry phys flags cache))
    (hs : m.step (.mapPage c phys virt flags cache) = some m') : m'.Holds D := by
  rcases h with ⟨owner, hold, hroots⟩
  rcases mapPage_cases hs with ⟨r, s, hroot, hmap, rfl⟩
  rcases hold.mapPage hzero (hroots c r hok hroot) hentry hmap with ⟨owner', hold', hext⟩
  exact ⟨owner', hold', fun c' r' hc' hr' => hext.keeps _ _ (hroots c' r' hc' hr')⟩

lemma Inv.mapPage {phys virt flags : BitVec 64} (h : m.Inv) (hok : c ∉ m.retired)
    (hs : m.step (.mapPage c phys virt flags cache) = some m') : m'.Inv :=
  inv_iff_holds.2 ((inv_iff_holds.1 h).mapPage trivial hok trivial hs)

lemma clonePagingInfo_cases (hs : m.step (.clonePagingInfo c d) = some m') :
    c ≠ d ∧ ∃ r new s, m.roots c = some r ∧
      Paging.clonePagingInfo r (m.roots d) m.phys = some (new, s) ∧
      m' = ⟨s, Function.update m.roots d (some new), m.retired.erase d⟩ := by
  simp only [step] at hs
  split at hs
  · cases hs
  next r hroot =>
  split at hs
  · cases hs
  next hcd =>
  split at hs
  · cases hs
  next hclone =>
  cases hs
  exact ⟨hcd, r, _, _, hroot, hclone, rfl⟩

lemma clonePagingInfo_root_cases (hroot : m.roots c = some r) (htarget : m.roots d = none)
    (hs : m.step (.clonePagingInfo c d) = some m') :
    c ≠ d ∧ ∃ new s, Paging.clonePagingInfo r none m.phys = some (new, s) ∧
      m' = ⟨s, Function.update m.roots d (some new), m.retired.erase d⟩ := by
  rcases clonePagingInfo_cases hs with ⟨hcd, r', new, s, hroot', hclone, heq⟩
  cases Option.some.inj (hroot.symm.trans hroot')
  exact ⟨hcd, new, s, htarget ▸ hclone, heq⟩

lemma Holds.clonePagingInfo (hzero : D 0#64) (h : m.Holds D) (hok : c ∉ m.retired)
    (htarget : m.roots d = none) (hs : m.step (.clonePagingInfo c d) = some m') : m'.Holds D := by
  rcases h with ⟨owner, hold, hroots⟩
  rcases clonePagingInfo_cases hs with ⟨_, r, new, s, hroot, hclone, rfl⟩
  rw [htarget] at hclone
  rcases clonePagingInfo_spec (d := d) hzero hold (hroots c r hok hroot) hclone with
    ⟨owner', hcloned⟩
  exact Holds.of_root hcloned.fills.holding hcloned.root fun c' r' _ hc' hr' =>
    hcloned.fills.ext.keeps _ _ (hroots c' r' hc' hr')

lemma Inv.clonePagingInfo (h : m.Inv) (hok : c ∉ m.retired) (htarget : m.roots d = none)
    (hs : m.step (.clonePagingInfo c d) = some m') : m'.Inv :=
  inv_iff_holds.2 ((inv_iff_holds.1 h).clonePagingInfo trivial hok htarget hs)

lemma Holds.deinit (h : m.Holds D) (hok : c ∉ m.retired) (hs : m.step (.deinit c) = some m') :
    m'.Holds D := by
  rcases h with ⟨owner, hold, hroots⟩
  cases hs
  cases hroot : m.roots c with
  | none => exact ⟨owner, hold, fun c' r' hc' hr' => hroots c' r' (by simpa using hc') hr'⟩
  | some r =>
    refine ⟨forgetCtx c owner, hold.deinit (hroots c r hok hroot), ?_⟩
    intro c' r' hc' hr'
    have hc : c' ∉ insert c m.retired := by simpa using hc'
    rw [mem_insert, not_or] at hc
    exact forgetCtx_root hc.1 (hroots c' r' hc.2 hr')

lemma Inv.deinit (h : m.Inv) (hok : c ∉ m.retired) (hs : m.step (.deinit c) = some m') : m'.Inv :=
  inv_iff_holds.2 ((inv_iff_holds.1 h).deinit hok hs)

lemma Inv.step {op : CtxOp} (h : m.Inv) (hok : m.Disciplined op) (hs : m.step op = some m') :
    m'.Inv := by
  cases op with
  | init c => exact h.init hok hs
  | mapPage c phys virt flags cache => exact h.mapPage hok hs
  | clonePagingInfo source target => exact h.clonePagingInfo hok.1 hok.2 hs
  | deinit c => exact h.deinit hok hs

lemma start_inv (tables : Tables Frame Index (BitVec 64)) (supply : List Frame) :
    (start tables supply).Inv :=
  ⟨fun _ => none, ⟨fun f l p l' hf _ => absurd hf (by simp), fun f l hf => absurd hf (by simp),
    rfl⟩, fun c r _ hr => absurd hr (by simp [start])⟩

end Machine

/-! ## `deinit` twice -/

/-- What a teardown cannot do: obtain a frame, or make good a misuse. -/
structure Phys.Shrinks (s s' : Phys) : Prop where
  supply : s'.supply = s.supply
  live : s'.live ⊆ s.live
  misuse : s.misuse = true → s'.misuse = true

namespace Phys.Shrinks

variable {s t u : Phys}

lemma refl (s : Phys) : s.Shrinks s :=
  ⟨rfl, subset_rfl, id⟩

lemma trans (h : s.Shrinks t) (h' : t.Shrinks u) : s.Shrinks u :=
  ⟨h'.supply.trans h.supply, h'.live.trans h.live, fun hm => h'.misuse (h.misuse hm)⟩

lemma touch (s : Phys) (f : Frame) : s.Shrinks (s.touch f) :=
  ⟨rfl, subset_rfl, fun hm => by simp [Phys.touch, hm]⟩

lemma free (s : Phys) (f : Frame) : s.Shrinks (s.free f) :=
  ⟨rfl, erase_subset f s.live, fun hm => by simp [Phys.free, hm]⟩

end Phys.Shrinks

lemma cleanRoot_shrinks (r : Frame) (s : Phys) :
    s.Shrinks (cleanEntries cleanPdpt lowerHalf r s) :=
  cleanRoot_relates Phys.Shrinks.refl (fun h h' => h.trans h') Phys.Shrinks.touch
    Phys.Shrinks.free r s

lemma deinit_shrinks (root : Option Frame) (s : Phys) : s.Shrinks (deinit root s) := by
  cases root with
  | none => exact Phys.Shrinks.refl s
  | some r => exact (cleanRoot_shrinks r s).trans (Phys.Shrinks.free _ r)

/-- A teardown of a root that was freed is a misuse. -/
lemma deinit_dangling {r : Frame} {s : Phys} (hr : r ∉ s.live) :
    (deinit (some r) s).misuse = true := by
  have hloop := cleanRoot_shrinks r s
  have hout : r ∉ (cleanEntries cleanPdpt lowerHalf r s).live :=
    mt (mem_of_subset hloop.live) hr
  simp [deinit, Phys.free, hout]

lemma deinit_root (r : Frame) (s : Phys) : r ∉ (deinit (some r) s).live :=
  notMem_erase r _

end SigmaOS.Arch.Paging
