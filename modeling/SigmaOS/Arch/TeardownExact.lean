import SigmaOS.Arch.PagingFrame

/-!
# Arch.TeardownExact — the frames `deinit` releases

`deinit_frees_exactly` is about every context in use after any run of context operations, among them
the copying of root entries of the upper half from one context to another.
-/

namespace SigmaOS.Arch.Paging

open Lib

/-- `deinit` frees exactly the tables of the lower half. -/
lemma mem_deinitFrees {m : Tables Frame Index (BitVec 64)} {r f : Frame} :
    f ∈ deinitFrees m r ↔ LowerTableOf m r f := by
  rw [deinitFrees, List.mem_append, mem_tablesBelow, List.mem_singleton]
  constructor
  · rintro (⟨i, hi, path, hlen, hwalk⟩ | rfl)
    · refine ⟨i :: path, Nat.succ_le_of_lt hlen, ?_, hwalk⟩
      intro j hj
      have hji : i = j := by simpa using hj
      exact hji ▸ mem_lowerHalf.1 hi
    · exact ⟨[], Nat.zero_le 3, by simp, rfl⟩
  · rintro ⟨path, hlen, hlower, hwalk⟩
    cases path with
    | nil => exact .inr (by simpa [walk] using hwalk.symm)
    | cons i path => exact .inl ⟨i, mem_lowerHalf.2 (hlower i rfl), path, hlen, hwalk⟩

/-! ## Runs -/

/-- `f` is a table behind one of the upper 256 entries of `root`. -/
def UpperTableOf (m : Tables Frame Index (BitVec 64)) (root f : Frame) : Prop :=
  ∃ (i : Index) (path : List Index), 256 ≤ i.val ∧ path.length ≤ 2 ∧
    walk pageFormat m root (i :: path) = some f

/-- The operations on contexts, and the loop of `clone_paging_info` over the upper half alone. -/
inductive SpaceOp
  | ctx (op : CtxOp)
  | copyUpper (source target : Ctx)

namespace Machine

def copyUpper (m : Machine) (source target : Ctx) : Option Machine :=
  match m.roots source, m.roots target with
  | some a, some b =>
    (forEach (fun i s => some (copyEntry a b i s)) upperHalf m.phys).map fun s =>
      { m with phys := s }
  | _, _ => none

def spaceStep (m : Machine) : SpaceOp → Option Machine
  | .ctx op => m.step op
  | .copyUpper source target => m.copyUpper source target

/-- Contexts are used with discipline, and pages are mapped to frames of `data`. -/
def Admits (data : Set Frame) (m : Machine) : SpaceOp → Prop
  | .ctx (.mapPage c phys virt flags cache) =>
    m.Disciplined (.mapPage c phys virt flags cache) ∧ getFrame phys ∈ data
  | .ctx op => m.Disciplined op
  | .copyUpper source target => source ∉ m.retired ∧ target ∉ m.retired

def LeadsTo (data : Set Frame) (entry : BitVec 64) : Prop :=
  present entry = true → getFrame entry ∈ data

variable {data : Set Frame} {cache : CacheType}

lemma leadsTo_zero : LeadsTo data 0#64 := by
  intro hpresent
  exact absurd hpresent (by simp)

lemma leadsTo_pageEntry {phys flags : BitVec 64} (h : getFrame phys ∈ data) :
    LeadsTo data (pageEntry phys flags cache) := by
  intro _
  rwa [getFrame_pageEntry]

def Foreign (data : Set Frame) (s : Phys) : Prop :=
  ∀ f ∈ data, f ∉ s.live ∧ f ∉ s.supply

variable {m m' : Machine} {c : Ctx} {data : Set Frame} {W : Frame → Prop} {s s' : Phys}
  {D : BitVec 64 → Prop}

lemma Foreign.draws (h : Foreign data s) (hdraws : Phys.Draws W s s') : Foreign data s' :=
  fun f hf => hdraws.foreign (h f hf).1 (h f hf).2

lemma Foreign.free (h : Foreign data s) (f : Frame) : Foreign data (s.free f) :=
  fun x hx => ⟨fun hin => (h x hx).1 (Finset.mem_of_mem_erase hin), (h x hx).2⟩

lemma Foreign.deinit (h : Foreign data s) (root : Option Frame) :
    Foreign data (Paging.deinit root s) := by
  cases root with
  | none => exact h
  | some r =>
    have hloop : Foreign data (cleanEntries cleanPdpt lowerHalf r s) :=
      cleanRoot_relates (R := fun s t => Foreign data s → Foreign data t) (fun _ hs => hs)
        (fun hst htu hs => htu (hst hs)) (fun _ _ hs => hs) (fun _ f hs => hs.free f) r s h
    exact hloop.free r

lemma copyEntry_holding {owner : Frame → Option Role} {a b : Ctx} {ra rb : Frame} {i : Index}
    (h : s.Holding D owner) (ha : owner ra = some (.own a [])) (hb : owner rb = some (.own b []))
    (hi : i ∈ upperHalf) : (copyEntry ra rb i s).Holding D owner := by
  have hnext : ∀ e : Ctx, roleNext (.own e []) i = some (.shared 2) :=
    fun e => roleNext_own_upper (mem_upperHalf.1 hi)
  rw [copyEntry, h.tracks.touch ha]
  exact h.write_entry hb (hnext b) (h.tracks.linked ra _ i _ ha (hnext a))

lemma forEach_copy {ra rb : Frame} {indices : List Index} {s s' : Phys} (P : Phys → Prop)
    (hround : ∀ i ∈ indices, ∀ t, P t → P (copyEntry ra rb i t)) (h : P s)
    (hloop : forEach (fun i s => some (copyEntry ra rb i s)) indices s = some s') : P s' := by
  refine forEach_invariant ?_ h hloop
  intro i hi t t' ht hbody
  rw [← Option.some.inj hbody]
  exact hround i hi t ht

lemma copyUpper_cases {source target : Ctx} (hs : m.copyUpper source target = some m') :
    ∃ ra rb s, m.roots source = some ra ∧ m.roots target = some rb ∧
      forEach (fun i s => some (copyEntry ra rb i s)) upperHalf m.phys = some s ∧
      m' = { m with phys := s } := by
  unfold copyUpper at hs
  split at hs
  · next ra rb ha hb =>
    rcases Option.map_eq_some_iff.1 hs with ⟨s, hloop, rfl⟩
    exact ⟨ra, rb, s, ha, hb, hloop, rfl⟩
  · cases hs

/-- The state after any number of operations: pages lead to frames of `data`, and no table is in one
of them. -/
structure Sound (data : Set Frame) (m : Machine) : Prop where
  holds : m.Holds (LeadsTo data)
  foreign : Foreign data m.phys

section

variable (h : m.Sound data) (hok : c ∉ m.retired)
include h hok

lemma Sound.init (hs : m.step (.init c) = some m') : m'.Sound data := by
  refine ⟨h.holds.init leadsTo_zero hok hs, ?_⟩
  rcases init_cases hs with ⟨r, s, halloc, rfl⟩
  exact ((h.foreign.deinit (m.roots c)).draws (Phys.Draws.alloc halloc).2.2).draws Phys.Draws.clear

lemma Sound.mapPage {phys virt flags : BitVec 64} (hphys : getFrame phys ∈ data)
    (hs : m.step (.mapPage c phys virt flags cache) = some m') : m'.Sound data := by
  refine ⟨h.holds.mapPage leadsTo_zero hok (leadsTo_pageEntry hphys) hs, ?_⟩
  rcases h.holds with ⟨owner, hold, hroots⟩
  rcases mapPage_cases hs with ⟨r, s, hroot, hmap, rfl⟩
  rcases roleAt_root c (pml4Index virt) (pdptIndex virt) (pdIndex virt) with ⟨l, hrole, _⟩
  exact h.foreign.draws (mapPage_draws hold.tracks (hroots c r hok hroot) hrole hmap)

lemma Sound.clonePagingInfo {d : Ctx} (htarget : m.roots d = none)
    (hs : m.step (.clonePagingInfo c d) = some m') : m'.Sound data := by
  refine ⟨h.holds.clonePagingInfo leadsTo_zero hok htarget hs, ?_⟩
  rcases clonePagingInfo_cases hs with ⟨_, r, new, s, _, hclone, rfl⟩
  rw [htarget] at hclone
  exact h.foreign.draws (clonePagingInfo_draws hclone)

lemma Sound.deinit (hs : m.step (.deinit c) = some m') : m'.Sound data := by
  refine ⟨h.holds.deinit hok hs, ?_⟩
  cases hs
  exact h.foreign.deinit (m.roots c)

end

lemma Sound.copyUpper {source target : Ctx} (h : m.Sound data) (hsource : source ∉ m.retired)
    (htarget : target ∉ m.retired) (hs : m.copyUpper source target = some m') : m'.Sound data := by
  rcases copyUpper_cases hs with ⟨ra, rb, s, hra, hrb, hloop, rfl⟩
  rcases h.holds with ⟨owner, hold, hroots⟩
  refine ⟨⟨owner, ?_, hroots⟩, ?_⟩
  · refine forEach_copy (Phys.Holding (LeadsTo data) owner) ?_ hold hloop
    intro i hi t ht
    exact copyEntry_holding ht (hroots source ra hsource hra) (hroots target rb htarget hrb) hi
  · refine forEach_copy (Foreign data) ?_ h.foreign hloop
    intro i _ t ht
    exact ht.draws copyEntry_draws

lemma Sound.step {op : SpaceOp} (h : m.Sound data) (hok : m.Admits data op)
    (hs : m.spaceStep op = some m') : m'.Sound data := by
  cases op with
  | ctx op =>
    cases op with
    | init c => exact h.init hok hs
    | mapPage c phys virt flags cache => exact h.mapPage hok.1 hok.2 hs
    | clonePagingInfo source target => exact h.clonePagingInfo hok.1 hok.2 hs
    | deinit c => exact h.deinit hok hs
  | copyUpper source target => exact h.copyUpper hok.1 hok.2 hs

lemma start_sound (tables : Tables Frame Index (BitVec 64)) {supply : List Frame}
    (hsupply : ∀ f ∈ supply, f ∉ data) : (start tables supply).Sound data := by
  refine ⟨⟨fun _ => none, ⟨⟨?_, ?_, rfl⟩, ?_⟩, ?_⟩, ?_⟩
  · exact fun f l p l' hf _ => absurd hf (by simp)
  · exact fun f l hf => absurd hf (by simp)
  · exact fun x l q hx _ => absurd hx (by simp)
  · exact fun c r _ hr => absurd hr (by simp [start])
  · intro f hf
    exact ⟨by simp [start], fun hin => hsupply f hin hf⟩

end Machine

/-- In every state that the contexts can reach, with frames for the tables that are none of the mapped
data frames, `deinit` of a context in use is the `free_block` of its root and of the tables behind the
lower half of the root, once for each of them; it releases no table of the upper half and no frame
that a page of the context leads to. -/
theorem deinit_frees_exactly {tables : Tables Frame Index (BitVec 64)} {supply : List Frame}
    {data : Set Frame} {m : Machine} {c : Ctx} {r : Frame} (hsupply : ∀ f ∈ supply, f ∉ data)
    (hrun : Run Machine.spaceStep (Machine.Admits data) (Machine.start tables supply) m)
    (hc : c ∉ m.retired) (hr : m.roots c = some r) :
    ∃ freed : List Frame,
      deinit (some r) m.phys = m.phys.freeAll freed ∧
        (deinit (some r) m.phys).misuse = false ∧ freed.Nodup ∧
        (∀ f, f ∈ freed ↔ LowerTableOf m.phys.tables r f) ∧
        (∀ f, UpperTableOf m.phys.tables r f → f ∉ freed) ∧
        ∀ virt entry, lookup m.phys.tables r virt = some entry → getFrame entry ∉ freed := by
  have hsound : m.Sound data :=
    hrun.invariant (Machine.start_sound tables hsupply) fun _ _ _ ht hok hs => ht.step hok hs
  rcases hsound.holds with ⟨owner, hold, hroots⟩
  have hroot := hroots c r hc hr
  have hlinked := hold.tracks.linked
  have hfreed : ∀ f, f ∈ deinitFrees m.phys.tables r →
      ∃ path, owner f = some (.own c path) := by
    intro f hf
    exact (mem_deinitFrees.1 hf).role hlinked hroot
  refine ⟨deinitFrees m.phys.tables r, deinit_eq_frees hold.tracks hroot, ?_, ?_, ?_, ?_, ?_⟩
  · exact (deinit_spec hold.tracks hroot).clean
  · exact deinitFrees_nodup hlinked hroot
  · exact fun f => mem_deinitFrees
  · -- a table behind the upper half has the role of a shared table
    rintro f ⟨i, path, hi, hlen, hwalk⟩ hf
    rcases hfreed f hf with ⟨own, hown⟩
    have hrole : roleAt roleNext (.own c []) (i :: path) = some (.shared (2 - path.length)) := by
      simpa [roleAt, roleNext_own_upper (Nat.not_lt.2 hi)] using roleAt_shared hlen
    have hshared := hlinked.walk_owner hroot hrole hwalk
    exact absurd (hown.symm.trans hshared) (by simp)
  · -- a page leads to a frame of `data`, and all tables are frames of the allocator
    intro virt entry hlookup hf
    rcases lookup_eq_some.1 hlookup with ⟨pt, hwalk, hentry, hpresent⟩
    rcases roleAt_root c (pml4Index virt) (pdptIndex virt) (pdIndex virt) with ⟨l, hrole, hdata⟩
    have hpt := hlinked.walk_owner hroot hrole hwalk
    have hleads := hold.data pt l (ptIndex virt) hpt (hdata _)
    rw [hentry] at hleads
    rcases hfreed _ hf with ⟨path, hown⟩
    exact (hsound.foreign _ (hleads hpresent)).1 (hold.tracks.live _ _ hown)

/-- A context with one page gives its three tables back. -/
theorem deinit_frees_exactly_sample :
    ∃ m r, exec Machine.spaceStep
        (Machine.start (fun _ _ => 0#64) [frameAt 1, frameAt 2, frameAt 3, frameAt 4])
        [.ctx (.init 0), .ctx (.mapPage 0 0x5000#64 0x400000#64 7#64 .normal)] = some m ∧
      m.roots 0 = some r ∧ ∃ freed : List Frame,
        deinit (some r) m.phys = m.phys.freeAll freed ∧ freed.Nodup ∧
          ∀ f, f ∈ freed ↔ LowerTableOf m.phys.tables r f := by
  have hstates : ∃ m₁ m₂ r, (Machine.start (fun _ _ => 0#64)
        [frameAt 1, frameAt 2, frameAt 3, frameAt 4]).spaceStep (.ctx (.init 0)) = some m₁ ∧
      m₁.spaceStep (.ctx (.mapPage 0 0x5000#64 0x400000#64 7#64 .normal)) = some m₂ ∧
      m₂.roots 0 = some r ∧ m₁.retired = ∅ ∧ m₂.retired = ∅ :=
    ⟨_, _, _, rfl, rfl, rfl, rfl, rfl⟩
  rcases hstates with ⟨m₁, m₂, r, hinit, hmap, hr, hretired₁, hretired₂⟩
  refine ⟨m₂, r, by simp [exec, hinit, hmap], hr, ?_⟩
  have hsupply : ∀ f ∈ [frameAt 1, frameAt 2, frameAt 3, frameAt 4],
      f ∉ ({getFrame 0x5000#64} : Set Frame) := by
    simp only [List.forall_mem_cons, Set.mem_singleton_iff]
    exact ⟨by decide, by decide, by decide, by decide, fun f hf => absurd hf List.not_mem_nil⟩
  have hadmits₁ : m₁.Admits {getFrame 0x5000#64}
      (.ctx (.mapPage 0 0x5000#64 0x400000#64 7#64 .normal)) := by
    refine ⟨?_, rfl⟩
    show 0 ∉ m₁.retired
    simp [hretired₁]
  have hadmits₀ : (Machine.start (fun _ _ => 0#64)
      [frameAt 1, frameAt 2, frameAt 3, frameAt 4]).Admits {getFrame 0x5000#64}
        (.ctx (.init 0)) := Finset.notMem_empty 0
  have hrun := Run.tail (Run.single hadmits₀ hinit) hadmits₁ hmap
  have hc : 0 ∉ m₂.retired := by simp [hretired₂]
  rcases deinit_frees_exactly hsupply hrun hc hr with ⟨freed, hfreed, _, hnodup, hmem, _⟩
  exact ⟨freed, hfreed, hnodup, hmem⟩

end SigmaOS.Arch.Paging
