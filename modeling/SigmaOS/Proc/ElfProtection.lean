import SigmaOS.Arch.PagingProtect
import SigmaOS.Arch.PagingTotal
import SigmaOS.Proc.ElfImage

/-!
# Proc.ElfProtection — what the pages of an executable allow

The loader maps the pages of a segment writable, to fill them, and then asks for the permissions the
segment has.  As `set_page_protection` only adds bits, the first permission stays: every page that
was loaded can be written (`loadSegment_loaded`).  No-execute, which is a bit that is added, arrives.
-/

namespace SigmaOS.Proc.Elf

open Lib Arch.Paging List Function

/-! ## The address space and the tables -/

/-- The loader's view of the address space is what the tables of the context hold. -/
def Space.Shows (s : Space) (c : Context) : Prop :=
  ∀ virt, s.pages (pageOf virt) = c.entryAt virt

section Shows

variable {s : Space} {c : Context} {virt flags : BitVec 64}

lemma setPageProtection_same (h : present (s.pages (pageOf virt)) = true) :
    (s.setPageProtection virt flags).pages (pageOf virt) =
      protectedEntry (s.pages (pageOf virt)) flags .normal := by
  rw [Space.setPageProtection, if_pos h, protectedEntry_eq]
  exact update_self _ _ _

lemma Space.Shows.setPageProtection (h : s.Shows c) :
    (s.setPageProtection virt flags).Shows (c.setPageProtection virt flags .normal).2 := by
  intro v
  rw [c.entryAt_setPageProtection, ← h v]
  by_cases hpage : pageOf v = pageOf virt
  · rw [hpage]
    by_cases hpresent : present (s.pages (pageOf virt)) = true
    · rw [if_pos ⟨rfl, hpresent⟩, setPageProtection_same hpresent]
    · rw [if_neg fun hboth => hpresent hboth.2, Space.setPageProtection, if_neg hpresent]
  · rw [if_neg fun hboth => hpage hboth.1, setPageProtection_other hpage]

/-- Mapping a page keeps the space a view of the page tables. -/
lemma Space.Shows.mapPage {frame : Frame} {s' : Phys} (h : s.Shows c)
    (hmap : Arch.Paging.mapPage c.root frame.1 virt flags .normal c.phys = some s') :
    (s.mapPage frame virt flags).Shows ⟨c.root, s', c.tree.mapPage hmap⟩ := by
  rcases c.tree with ⟨owner, htracks, hroot⟩
  rcases mapPage_spec htracks hroot (roleAt_tablePath virt) (treeNext_tablePath virt _) hmap with
    ⟨owner', hmapped⟩
  intro v
  by_cases hpage : pageOf v = pageOf virt
  · have hnew : entryAt s'.tables c.root v = pageEntry frame.1 flags .normal :=
      (entryAt_congr s'.tables c.root hpage).trans hmapped.written
    rw [hpage]
    exact (update_self _ _ _).trans hnew.symm
  · have hold : entryAt s'.tables c.root v = entryAt c.phys.tables c.root v :=
      hmapped.reads c.root [] _ _ _ hroot (roleAt_tablePath v) (treeNext_tablePath v _)
        (tablePath_ne hpage)
    exact (update_of_ne hpage _ _).trans ((h v).trans hold.symm)

/-- What the loader asks of the thread's context. -/
inductive PageCall
  | map (frame : Frame) (virt flags : BitVec 64)
  | protect (virt flags : BitVec 64)

def Space.pageCall (s : Space) : PageCall → Space
  | .map frame virt flags => s.mapPage frame virt flags
  | .protect virt flags => s.setPageProtection virt flags

/-- The calls on the tables; `map_page` returns only while there are frames for new tables. -/
inductive TableCalls : Context → List PageCall → Context → Prop
  | nil (c : Context) : TableCalls c [] c
  | map {c c' : Context} {calls : List PageCall} {frame : Frame} {virt flags : BitVec 64} {s' : Phys}
      (hmap : Arch.Paging.mapPage c.root frame.1 virt flags .normal c.phys = some s')
      (hrest : TableCalls ⟨c.root, s', c.tree.mapPage hmap⟩ calls c') :
      TableCalls c (.map frame virt flags :: calls) c'
  | protect {c c' : Context} {calls : List PageCall} {virt flags : BitVec 64}
      (hrest : TableCalls (c.setPageProtection virt flags .normal).2 calls c') :
      TableCalls c (.protect virt flags :: calls) c'

lemma stocked_setPageProtection {n : Nat} (h : c.phys.Stocked n) :
    (c.setPageProtection virt flags .normal).2.phys.Stocked n := by
  have hsame : (c.setPageProtection virt flags .normal).2.phys.supply = c.phys.supply ∧
      (c.setPageProtection virt flags .normal).2.phys.live = c.phys.live := by
    simp only [Context.setPageProtection, Arch.Paging.setPageProtection]
    split_ifs <;> exact ⟨rfl, rfl⟩
  exact h.of_same hsame.1 hsame.2

lemma exists_tableCalls (calls : List PageCall) :
    ∀ c : Context, c.phys.Stocked (3 * calls.length) → ∃ c', TableCalls c calls c' := by
  induction calls with
  | nil => exact fun c _ => ⟨c, .nil c⟩
  | cons call calls ih =>
    intro c hstock
    rw [length_cons, Nat.mul_succ] at hstock
    cases call with
    | map frame virt flags =>
      rcases mapPage_defined c.root frame.1 virt flags .normal hstock with ⟨s', hmap, hleft⟩
      rcases ih ⟨c.root, s', c.tree.mapPage hmap⟩ hleft with ⟨c', hrest⟩
      exact ⟨c', .map hmap hrest⟩
    | protect virt flags =>
      rcases ih _ (stocked_setPageProtection (hstock.mono (Nat.le_add_right _ 3))) with ⟨c', hrest⟩
      exact ⟨c', .protect hrest⟩

/-- With three frames left for each of them, every sequence of calls returns; and then four levels of
tables hold what the map from pages to entries holds which the loader works on. -/
theorem table_calls_shown (h : s.Shows c) (calls : List PageCall)
    (hstock : c.phys.Stocked (3 * calls.length)) :
    (∃ c', TableCalls c calls c') ∧
      ∀ c', TableCalls c calls c' → (calls.foldl Space.pageCall s).Shows c' := by
  refine ⟨exists_tableCalls calls c hstock, ?_⟩
  clear hstock
  intro c' hcalls
  induction hcalls generalizing s with
  | nil c => exact h
  | map hmap _ ih => exact ih (h.mapPage hmap)
  | protect _ ih => exact ih h.setPageProtection

lemma exists_shows (c : Context) : ∃ s : Space, s.Shows c := by
  refine ⟨⟨fun p => c.entryAt (p.setWidth 64 <<< 12), fun _ _ => 0#8, [], []⟩, fun virt => ?_⟩
  refine entryAt_congr c.phys.tables c.root (pageOf_eq_iff_toNat.2 ?_)
  simp [pageOf, BitVec.extractLsb'_toNat, Nat.shiftLeft_eq, Nat.shiftRight_eq_div_pow]
  omega

end Shows

/-! ## Permissions -/

def pfX : BitVec 32 := 1#32

def pfW : BitVec 32 := 2#32

def Writable (entry : BitVec 64) : Prop :=
  present entry = true ∧ entry.getLsbD 1 = true

def Executable (entry : BitVec 64) : Prop :=
  present entry = true ∧ entry.getLsbD 63 = false

def Phdr.Has (ph : Phdr) (flag : BitVec 32) : Prop :=
  ph.pFlags &&& flag ≠ 0#32

instance (ph : Phdr) (flag : BitVec 32) : Decidable (ph.Has flag) :=
  inferInstanceAs (Decidable (_ ≠ _))

lemma segmentFlags_noExecute (ph : Phdr) :
    (segmentFlags ph.pFlags).getLsbD 3 = true ↔ ¬ ph.Has pfX := by
  unfold segmentFlags Phdr.Has pfX
  by_cases hx : ph.pFlags &&& 1#32 = 0#32
  · by_cases hw : ph.pFlags &&& 2#32 = 0#32
    · simp [hx, hw]
    · simp [hx, hw]
  · by_cases hw : ph.pFlags &&& 2#32 = 0#32
    · simp [hx, hw]
    · simp [hx, hw]

/-! ## One segment -/

/-- The entry of a page that went through the loops: mapped for the loader to write, with the flags
of the segment over that. -/
def loadedEntry (frame : Frame) (flags : BitVec 64) : BitVec 64 :=
  protectedEntry (pageEntry frame.1 3#64 .normal) flags .normal

section Segment

variable {r : Initrd} {fileName : List (BitVec 8)} {base start flags : BitVec 64} {ph : Phdr}
  {s t : Space}

lemma loadedEntry_getLsbD (frame : Frame) (flags : BitVec 64) :
    present (loadedEntry frame flags) = true ∧ (loadedEntry frame flags).getLsbD 1 = true ∧
      (loadedEntry frame flags).getLsbD 63 = flags.getLsbD 3 := by
  have hmapped := pageEntry_mapped frame
  have hnx : (pageEntry frame.1 3#64 .normal).getLsbD 63 = false :=
    (pageEntry_getLsbD ⟨frame.1, 0#64, 3#64, .normal⟩ (by decide)).trans
      (by simp [MapCall.entryBit])
  refine ⟨present_protectedEntry flags .normal hmapped.1, ?_, ?_⟩
  · rw [loadedEntry, protectedEntry_permission (b := (1, 1)) (by decide), hmapped.2, Bool.true_or]
  · rw [loadedEntry, protectedEntry_permission (b := (63, 3)) (by decide), hnx, Bool.false_or]

lemma writable_loadedEntry (frame : Frame) (flags : BitVec 64) :
    Writable (loadedEntry frame flags) :=
  ⟨(loadedEntry_getLsbD frame flags).1, (loadedEntry_getLsbD frame flags).2.1⟩

lemma executable_loadedEntry_iff (frame : Frame) (ph : Phdr) :
    Executable (loadedEntry frame (segmentFlags ph.pFlags)) ↔ ph.Has pfX := by
  rcases loadedEntry_getLsbD frame (segmentFlags ph.pFlags) with ⟨hpresent, _, hnx⟩
  have hflag := segmentFlags_noExecute ph
  rw [Executable, hnx]
  constructor
  · rintro ⟨_, hbit⟩
    by_contra hx
    rw [hflag.2 hx] at hbit
    cases hbit
  · intro hx
    exact ⟨hpresent, Bool.eq_false_iff.2 fun hbit => hflag.1 hbit hx⟩

lemma protectedEntry_twice (entry flags : BitVec 64) (cache : CacheType) :
    protectedEntry (protectedEntry entry flags cache) flags cache =
      protectedEntry entry flags cache := by
  apply BitVec.eq_of_getLsbD_eq
  intro n _
  simp only [protectedEntry_getLsbD]
  cases entry.getLsbD n <;> cases (entryFlags flags).getLsbD n <;>
    cases (getPatFlags cache).getLsbD n <;> rfl

/-- The page has the new protection, or the loop does not come to it. -/
lemma protect_loaded (start flags : BitVec 64) {p : BitVec 36} (js : List Nat) (s : Space)
    (hpresent : present (s.pages p) = true) :
    (js.foldl (fun s j => s.setPageProtection (pageAt start j) flags) s).pages p =
        protectedEntry (s.pages p) flags .normal ∨
      (p ∉ loopPages start js ∧
        (js.foldl (fun s j => s.setPageProtection (pageAt start j) flags) s).pages p =
          s.pages p) := by
  induction js generalizing s with
  | nil =>
    refine .inr ⟨?_, rfl⟩
    rintro ⟨j, hj, _⟩
    exact absurd hj not_mem_nil
  | cons j js ih =>
    rw [foldl_cons, loopPages_cons]
    by_cases hp : p = pageOf (pageAt start j)
    · subst hp
      have hfirst : (s.setPageProtection (pageAt start j) flags).pages (pageOf (pageAt start j)) =
          protectedEntry (s.pages (pageOf (pageAt start j))) flags .normal :=
        setPageProtection_same hpresent
      refine .inl ?_
      rcases ih (s.setPageProtection (pageAt start j) flags)
          (by rw [hfirst]; exact present_protectedEntry flags .normal hpresent) with
        hagain | ⟨_, hkept⟩
      · rw [hagain, hfirst, protectedEntry_twice]
      · rw [hkept, hfirst]
    · have hsame : (s.setPageProtection (pageAt start j) flags).pages p = s.pages p :=
        setPageProtection_other hp
      rcases ih (s.setPageProtection (pageAt start j) flags) (by rw [hsame]; exact hpresent) with
        hlater | ⟨hnot, hkept⟩
      · exact .inl (by rw [hlater, hsame])
      · exact .inr ⟨fun hin => hin.elim hp hnot, by rw [hkept, hsame]⟩

lemma addPages_mapped {js : List Nat}
    (h : Chain (fun j s t => addPage start j s = some (true, t)) js s t) {p : BitVec 36}
    (hp : p ∈ loopPages start js) :
    ∃ frame : Frame, t.pages p = pageEntry frame.1 3#64 .normal := by
  induction h with
  | nil s =>
    rcases hp with ⟨j, hj, _⟩
    exact absurd hj not_mem_nil
  | @cons j js s u t hround hrest ih =>
    by_cases hlater : p ∈ loopPages start js
    · exact ih hlater
    · rw [loopPages_cons] at hp
      rcases addPage_true hround with ⟨frame, _, _, _, hpages, _⟩
      refine ⟨frame, ?_⟩
      rw [addPages_other hrest hlater, hpages, hp.resolve_right hlater, update_self]

/-- Every page of a loaded segment has the segment's flags. -/
lemma loadSegment_loaded (h : loadSegment r fileName base ph s = some (true, t)) {p : BitVec 36}
    (hp : p ∈ mappedPages base ph) :
    ∃ frame, t.pages p = loadedEntry frame (segmentFlags ph.pFlags) := by
  rcases loadSegment_true h with ⟨hzero, _⟩ | ⟨u, v, src, hadd, _, hcopy, rfl⟩
  · -- a segment without bytes has no rounds
    rcases hp with ⟨j, hj, _⟩
    rw [hzero] at hj
    exact absurd (mem_range.1 hj) (Nat.not_lt_zero j)
  · rcases addPages_mapped hadd hp with ⟨frame, hmapped⟩
    rw [← memcpy_pages hcopy] at hmapped
    have hpresent : present (v.pages p) = true := by
      rw [hmapped]
      exact (pageEntry_mapped frame).1
    rcases protect_loaded (base + ph.pVaddr) (segmentFlags ph.pFlags) (List.range _) v hpresent with
      hprotected | ⟨hnot, _⟩
    · exact ⟨frame, hprotected.trans (by rw [hmapped, loadedEntry])⟩
    · exact absurd hp hnot

/-- The loops stay on the pages of the segment, also where the number of pages does not fit into 64
bits: no round is made then. -/
lemma mappedPages_subset_segmentPages (base : BitVec 64) (ph : Phdr) :
    mappedPages base ph ⊆ segmentPages base ph := by
  rintro p ⟨j, hj, rfl⟩
  have hround := mem_range.1 hj
  have hlt : j * 4096 < ph.pMemsz.toNat := by
    rw [Process.divCeil_block] at hround
    omega
  refine ⟨j * 4096, hlt, ?_⟩
  rw [segmentByte, pageAt, BitVec.ofNat_mul]

end Segment

/-! ## The file -/

/-- No page is used by two segments of the file. -/
def PageDisjoint (r : Initrd) (header base : BitVec 64) : Prop :=
  ∀ i j, IsLoad r header i → IsLoad r header j → i ≠ j →
    Disjoint (segmentPages base (programHeader r header i))
      (segmentPages base (programHeader r header j))

section File

variable {r : Initrd} {fileName : List (BitVec 8)} {wantsLd : Bool} {header base : BitVec 64}
  {l l' : Loader}

lemma PageDisjoint.not_mapped (h : PageDisjoint r header base) {i j : Nat}
    (hi : IsLoad r header i) (hj : IsLoad r header j) (hij : i ≠ j) {p : BitVec 36}
    (hp : p ∈ segmentPages base (programHeader r header i)) :
    p ∉ mappedPages base (programHeader r header j) := by
  intro hin
  exact Set.disjoint_left.1 (h i j hi hj hij) hp (mappedPages_subset_segmentPages _ _ hin)

/-- The pages of a segment at the end, mapped by its loop or not. -/
lemma loadExecutable_pages (hfind : r.find fileName = some header)
    (hdisjoint : PageDisjoint r header base)
    (h : loadExecutable r fileName wantsLd base l = some (true, l')) {i : Nat}
    (hi : IsLoad r header i) :
    (∀ p ∈ mappedPages base (programHeader r header i), ∃ frame,
        l'.space.pages p = loadedEntry frame (segmentFlags (programHeader r header i).pFlags)) ∧
      ∀ p ∈ segmentPages base (programHeader r header i),
        p ∉ mappedPages base (programHeader r header i) →
          l'.space.pages p = l.space.pages p := by
  refine ⟨?_, ?_⟩
  · rcases loadExecutable_true hfind h with ⟨l₁, l₂, _, hend, hchain⟩
    -- once a segment is loaded, the rounds of the others leave its pages alone
    let Loaded : Nat → Loader → Prop := fun i l => IsLoad r header i →
      ∀ p ∈ mappedPages base (programHeader r header i), ∃ frame,
        l.space.pages p = loadedEntry frame (segmentFlags (programHeader r header i).pFlags)
    have hrun := hchain.collects (I := fun _ => True) (Q := Loaded) ?_ trivial
    · rw [hend]
      exact hrun.2.1 i (mem_range.2 hi.1) hi
    · intro i hi l l' _ hround
      rcases loadHeader_true hfind hround with ⟨htype, hsegment⟩ | ⟨htype, hsame⟩
      · have hload : IsLoad r header i := ⟨mem_range.1 hi, htype⟩
        have hown : Loaded i l' := fun _ p hp => loadSegment_loaded hsegment hp
        refine ⟨trivial, hown, ?_⟩
        intro j hj hjload p hp
        by_cases hji : j = i
        · subst hji
          exact hown hload p hp
        · have hother := hdisjoint.not_mapped hjload hload hji
            (mappedPages_subset_segmentPages _ _ hp)
          rw [loadSegment_other hsegment hother]
          exact hj hjload p hp
      · refine ⟨trivial, fun hload => absurd hload.2 htype, ?_⟩
        intro j hj hjload
        rw [hsame]
        exact hj hjload
  · intro p hp hnot
    refine loadExecutable_other hfind h fun j hj => ?_
    by_cases hji : j = i
    · rwa [hji]
    · exact hdisjoint.not_mapped hi hj (Ne.symm hji) hp

/-- The pages of the segments can be written only where the segment has `PF_W`, and run only where it
has `PF_X`. -/
def KeepsPermissions (r : Initrd) (header base : BitVec 64) (s : Space) : Prop :=
  ∀ i, IsLoad r header i → ∀ p ∈ segmentPages base (programHeader r header i),
    (Writable (s.pages p) → (programHeader r header i).Has pfW) ∧
      (Executable (s.pages p) → (programHeader r header i).Has pfX)

/-- What has to hold before: every page in the loops of a segment belongs to one with `PF_W`, and a
page outside the loops allows no more than the segment. -/
def PermissionsFit (r : Initrd) (header base : BitVec 64) (s : Space) : Prop :=
  ∀ i, IsLoad r header i → ∀ p ∈ segmentPages base (programHeader r header i),
    (p ∈ mappedPages base (programHeader r header i) → (programHeader r header i).Has pfW) ∧
      (p ∉ mappedPages base (programHeader r header i) →
        (Writable (s.pages p) → (programHeader r header i).Has pfW) ∧
          (Executable (s.pages p) → (programHeader r header i).Has pfX))

/-- The pages that the loop misses decide. -/
lemma keepsPermissions_iff (hfind : r.find fileName = some header)
    (hdisjoint : PageDisjoint r header base)
    (h : loadExecutable r fileName wantsLd base l = some (true, l')) :
    KeepsPermissions r header base l'.space ↔ PermissionsFit r header base l.space := by
  refine forall₂_congr fun i hi => forall₂_congr fun p hp => ?_
  rcases loadExecutable_pages hfind hdisjoint h hi with ⟨hloaded, hold⟩
  by_cases hin : p ∈ mappedPages base (programHeader r header i)
  · rcases hloaded p hin with ⟨frame, hentry⟩
    have hwritable := writable_loadedEntry frame (segmentFlags (programHeader r header i).pFlags)
    have hexecutable := executable_loadedEntry_iff frame (programHeader r header i)
    rw [hentry]
    constructor
    · rintro ⟨hw, _⟩
      exact ⟨fun _ => hw hwritable, fun hnot => absurd hin hnot⟩
    · rintro ⟨hw, _⟩
      exact ⟨fun _ => hw hin, hexecutable.1⟩
  · rw [hold p hp hin]
    constructor
    · intro hkeeps
      exact ⟨fun hmapped => absurd hmapped hin, fun _ => hkeeps⟩
    · rintro ⟨_, hfits⟩
      exact hfits hin

end File

/-- On a present page, `set_page_protection` returns `true`, keeps the frame and all other pages, and
gives exactly the permissions that are asked for if and only if the page had no others.  So the
permissions of the segments hold for their pages after `load_executable` if and only if no segment
without `PF_W` has a page in the loops, and the pages outside the loops allowed no more before. -/
theorem protection_exact_iff (c : Context) (virt flags : BitVec 64) (cache : CacheType)
    (r : Initrd) (fileName : List (BitVec 8)) (wantsLd : Bool) (header base : BitVec 64)
    (l l' : Loader) :
    (∀ entry, c.lookup virt = some entry →
      (c.setPageProtection virt flags cache).1 = true ∧
        (∃ entry', (c.setPageProtection virt flags cache).2.lookup virt = some entry' ∧
          getFrame entry' = getFrame entry ∧ (Grants entry' flags ↔ Within entry flags)) ∧
        ∀ v, pageOf v ≠ pageOf virt →
          (c.setPageProtection virt flags cache).2.lookup v = c.lookup v) ∧
      (r.find fileName = some header → PageDisjoint r header base →
        loadExecutable r fileName wantsLd base l = some (true, l') →
          (KeepsPermissions r header base l'.space ↔ PermissionsFit r header base l.space)) := by
  refine ⟨?_, ?_⟩
  · intro entry hentry
    exact Context.setPageProtection_spec flags cache hentry
  · intro hfind hdisjoint hrun
    exact keepsPermissions_iff hfind hdisjoint hrun

/-! ## A page and a file -/

lemma exists_onePage (flags : BitVec 64) :
    ∃ c : Context, c.entryAt 0x400000#64 = pageEntry 0x5000#64 flags .normal := by
  have hinit : ∃ root s,
      init none (Phys.boot (fun _ _ => 0#64) [frameAt 1, frameAt 2, frameAt 3, frameAt 4] ∅) =
          some (root, s) ∧
        ∃ s', mapPage root 0x5000#64 0x400000#64 flags .normal s = some s' :=
    ⟨_, _, rfl, _, rfl⟩
  rcases hinit with ⟨root, s, hnew, s', hmap⟩
  have htree := init_isTree hnew
  refine ⟨⟨root, s', htree.mapPage hmap⟩, ?_⟩
  rcases htree with ⟨owner, htracks, hroot⟩
  rcases mapPage_spec htracks hroot (roleAt_tablePath _) (treeNext_tablePath _ _) hmap with
    ⟨owner', hmapped⟩
  exact hmapped.written

/-- A page is mapped into a new address space and then opened to user code. -/
theorem table_calls_shown_sample :
    ∃ (s : Space) (c c' : Context), s.Shows c ∧
      TableCalls c [.map (frameAt 8) 0x400000#64 3#64, .protect 0x400000#64 7#64] c' ∧
        ((s.mapPage (frameAt 8) 0x400000#64 3#64).setPageProtection 0x400000#64 7#64).Shows c' := by
  rcases (Machine.fresh_stocked (show 7 ≤ 2 ^ 40 by decide)).alloc with ⟨root, s₀, halloc, hstock⟩
  have hnew : init none (Machine.fresh 7).phys = some (root, s₀.clear root) := by
    rw [init, deinit, halloc]
  rcases exists_shows ⟨root, s₀.clear root, init_isTree hnew⟩ with ⟨s, hs⟩
  rcases table_calls_shown hs [.map (frameAt 8) 0x400000#64 3#64, .protect 0x400000#64 7#64]
    (hstock.of_same rfl rfl) with ⟨⟨c', hcalls⟩, hshows⟩
  exact ⟨s, _, c', hs, hcalls, hshows c' hcalls⟩

lemma pageDisjoint_of_one {r : Initrd} {header base : BitVec 64}
    (h : (fileHeader r header).ePhnum = 1#16) : PageDisjoint r header base := by
  rintro i j ⟨hi, _⟩ ⟨hj, _⟩ hij
  rw [h] at hi hj
  exact absurd ((Nat.lt_one_iff.1 hi).trans (Nat.lt_one_iff.1 hj).symm) hij

/-- A page that was not writable is made so, and a file with one writable segment is loaded. -/
theorem protection_exact_sample :
    ∃ (c : Context) (entry : BitVec 64) (l' : Loader),
      (c.setPageProtection 0x400000#64 7#64 .normal).2.lookup 0x400000#64 = some entry ∧
        Grants entry 7#64 ∧
        loadExecutable (oneSegmentInitrd 0x400000#64) [97#8] false 0#64 emptyLoader =
          some (true, l') ∧
        KeepsPermissions (oneSegmentInitrd 0x400000#64) 4096#64 0#64 l'.space := by
  rcases exists_onePage 1#64 with ⟨c, hstored⟩
  have hentry := Context.lookup_of_entryAt hstored (by decide)
  have hdone : (loadExecutable (oneSegmentInitrd 0x400000#64) [97#8] false 0#64
      emptyLoader).map Prod.fst = some true := by
    decide
  rcases Option.map_eq_some_iff.1 hdone with ⟨⟨go, l'⟩, hrun, hgo⟩
  cases hgo
  rcases protection_exact_iff c 0x400000#64 7#64 .normal (oneSegmentInitrd 0x400000#64) [97#8] false
    4096#64 0#64 emptyLoader l' with ⟨hpage, hfile⟩
  rcases hpage _ hentry with ⟨_, ⟨entry, hnew, _, hgrants⟩, _⟩
  refine ⟨c, entry, l', hnew, hgrants.2 (by decide), hrun, ?_⟩
  apply (hfile (by decide) (pageDisjoint_of_one (by decide)) hrun).2
  rintro i ⟨hi, _⟩ p _
  have hzero : i = 0 := by
    have hone : (fileHeader (oneSegmentInitrd 0x400000#64) 4096#64).ePhnum.toNat = 1 := by decide
    rw [hone] at hi
    exact Nat.lt_one_iff.1 hi
  have hw : (programHeader (oneSegmentInitrd 0x400000#64) 4096#64 i).Has pfW := by
    rw [hzero]
    decide
  -- nothing was mapped before
  exact ⟨fun _ => hw, fun _ => ⟨fun _ => hw, fun hx => absurd hx.1 (by simp [emptyLoader])⟩⟩

def readOnlySegment (addr : BitVec 64) : BitVec 8 :=
  if addr = 4676#64 then 4#8 else oneSegment 0x400000#64 addr

def readOnlyInitrd : Initrd :=
  ⟨readOnlySegment, [4096#64]⟩

/-- A writable page that is asked to be readable stays writable, and the page of a segment without
`PF_W` can be written after the file is loaded. -/
theorem protection_not_exact :
    (¬ ∀ (c : Context) (virt flags : BitVec 64) (cache : CacheType) (entry : BitVec 64),
        c.lookup virt = some entry → flags.getLsbD 0 = true →
          ∃ entry', (c.setPageProtection virt flags cache).2.lookup virt = some entry' ∧
            Grants entry' flags) ∧
      ¬ ∀ (r : Initrd) (fileName : List (BitVec 8)) (wantsLd : Bool) (header base : BitVec 64)
        (l l' : Loader), r.find fileName = some header → PageDisjoint r header base →
          loadExecutable r fileName wantsLd base l = some (true, l') →
            KeepsPermissions r header base l'.space := by
  refine ⟨?_, ?_⟩
  · intro hclaim
    rcases exists_onePage 7#64 with ⟨c, hstored⟩
    have hentry := Context.lookup_of_entryAt hstored (by decide)
    rcases hclaim c 0x400000#64 5#64 .normal _ hentry (by decide) with ⟨entry, hnew, hgrants⟩
    rcases (Context.setPageProtection_spec 5#64 .normal hentry).2.1 with ⟨entry', hnew', _, hiff⟩
    rw [Option.some.inj (hnew.symm.trans hnew')] at hgrants
    exact absurd (hiff.1 hgrants) (by decide)
  · intro hclaim
    have hfind : readOnlyInitrd.find [97#8] = some 4096#64 := by decide
    have hdisjoint : PageDisjoint readOnlyInitrd 4096#64 0#64 := pageDisjoint_of_one (by decide)
    have hsegment : programHeader readOnlyInitrd 4096#64 0 =
        ⟨1#32, 4#32, 120#64, 0x400000#64, 8#64, 16#64⟩ := by
      decide
    have hload : IsLoad readOnlyInitrd 4096#64 0 := ⟨by decide, by rw [hsegment]; rfl⟩
    have hdone : (loadExecutable readOnlyInitrd [97#8] false 0#64 emptyLoader).map Prod.fst =
        some true := by
      decide
    rcases Option.map_eq_some_iff.1 hdone with ⟨⟨go, l'⟩, hrun, hgo⟩
    cases hgo
    have hfits := (keepsPermissions_iff hfind hdisjoint hrun).1
      (hclaim _ _ _ _ _ _ _ hfind hdisjoint hrun) 0 hload
    rw [hsegment] at hfits
    -- the first page of the segment is in the loops
    have hpage : pageOf 0x400000#64 ∈ mappedPages 0#64
        ⟨1#32, 4#32, 120#64, 0x400000#64, 8#64, 16#64⟩ := ⟨0, by decide, by decide⟩
    exact (hfits _ (mappedPages_subset_segmentPages _ _ hpage)).1 hpage (by decide)

end SigmaOS.Proc.Elf
