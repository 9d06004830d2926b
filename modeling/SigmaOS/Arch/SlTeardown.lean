import SigmaOS.Arch.SlPaging
import SigmaOS.Arch.TeardownExact

/-!
# Arch.SlTeardown — the frames a second-level context releases

The destructor of `sl_paging::context` calls `clean_tables` with the root and its level.  The
recursion ends at the second level, whose entries are released without looking into the tables
behind them: those are the tables with the pages.
-/

namespace SigmaOS.Arch.SlPaging

open Lib List
open Arch.Paging

/-! ## The destructor -/

def deleteTable (phys : Frame) (s : Phys) : Phys :=
  s.free phys

def cleanEntries (below : Frame → Phys → Phys) (phys : Frame) (s : Phys) : Phys :=
  (List.finRange 512).foldl
    (fun s i =>
      let entry := s.tables phys i
      let s := s.touch phys
      if readable entry then below (getFrame entry) s else s) s

def cleanTables : Nat → Frame → Phys → Phys
  | level + 3, phys, s => deleteTable phys (cleanEntries (cleanTables (level + 2)) phys s)
  | _, phys, s => deleteTable phys (cleanEntries deleteTable phys s)

def destroy (c : Context) (s : Phys) : Phys :=
  cleanTables c.level c.physRoot s

section Frees

variable {m : Tables Frame Index (BitVec 64)} {f : Frame}

/-- The frames of a table and of the tables up to `levels` levels below it, in the order in which
they are released. -/
def frames (m : Tables Frame Index (BitVec 64)) (levels : Nat) (f : Frame) : List Frame :=
  subtree slFormat m (List.finRange 512) levels f ++ [f]

/-- Cleaning a table frees the tables below it, then the table. -/
lemma cleanEntries_frees {below : Frame → Phys → Phys} {levels : Nat} {s : Phys}
    (hbelow : ∀ i g t, slFormat.child (m f i) = some g → t.tables = m →
      (∀ x ∈ frames m levels g, x ∈ t.live) → below g t = t.freeAll (frames m levels g))
    (hs : s.tables = m) (hnodup : (frames m (levels + 1) f).Nodup)
    (hlive : ∀ x ∈ frames m (levels + 1) f, x ∈ s.live) :
    deleteTable f (cleanEntries below f s) = s.freeAll (frames m (levels + 1) f) := by
  rw [frames, Phys.freeAll_append]
  refine congrArg (Phys.free · f) (Phys.foldl_frees ?_ hs hnodup hlive)
  intro t i _ ht hf hmine
  have htouch : t.touch f = t := Phys.touch_of_live hf
  by_cases hr : readable (m f i) = true
  · have hchild : slFormat.child (m f i) = some (getFrame (m f i)) := by simp [slFormat, hr]
    simp only [hchild] at hmine ⊢
    simp only [ht, hr, htouch, if_true]
    exact hbelow i _ t hchild ht hmine
  · have hchild : slFormat.child (m f i) = none := by simp [slFormat, hr]
    simp [hchild, ht, hr, htouch]

variable {depth : Nat} {root : Frame} {owner : Frame → Option (List Index)}

/-- By induction on the level, `cleanTables` frees the frames of the subtree. -/
lemma cleanTables_frees (htree : Tree slFormat depth root owner m)
    {above : Nat} {f : Frame} {path : List Index} {s : Phys} (hf : owner f = some path)
    (hlen : path.length + (above + 1) ≤ depth) (hs : s.tables = m)
    (hlive : ∀ x ∈ frames m (above + 1) f, x ∈ s.live) :
    cleanTables (above + 2) f s = s.freeAll (frames m (above + 1) f) := by
  induction above generalizing f path s with
  | zero =>
    have hnodup := htree.subtree_nodup mem_finRange (nodup_finRange 512) hf hlen
    exact cleanEntries_frees (fun _ _ _ _ _ _ => rfl) hs hnodup hlive
  | succ above ih =>
    have hnodup := htree.subtree_nodup mem_finRange (nodup_finRange 512) hf hlen
    refine cleanEntries_frees ?_ hs hnodup hlive
    intro i g t hchild ht hg
    have hlt : path.length < depth := by omega
    have hrole := (htree.linked.child_owner hf (treeNext_of_lt hlt) hchild).2
    refine ih hrole ?_ ht hg
    rw [length_append, length_singleton]
    omega

end Frees

/-! ## What was handed out -/

/-- The frames `taken` were handed out by `alloc_block` between two states, and nothing was
released. -/
structure Takes (taken : List Frame) (s t : Phys) : Prop where
  supply : s.supply = taken ++ t.supply
  live : ∀ f, f ∈ t.live ↔ f ∈ s.live ∨ f ∈ taken
  fresh : ∀ f ∈ taken, f ∉ s.live
  nodup : taken.Nodup

section Takes

variable {s t u : Phys} {as bs : List Frame} {f g : Frame} {i : Index} {entry : BitVec 64}

lemma Takes.nil (hsupply : t.supply = s.supply) (hlive : t.live = s.live) : Takes [] s t := by
  refine ⟨by rw [hsupply, nil_append], ?_, nofun,
    nodup_nil⟩
  intro f
  simp [hlive]

lemma Takes.trans (h : Takes as s t) (h' : Takes bs t u) : Takes (as ++ bs) s u := by
  refine ⟨by rw [h.supply, h'.supply, append_assoc], ?_, ?_, ?_⟩
  · intro f
    rw [h'.live, h.live, mem_append, or_assoc]
  · intro f hf hs
    rcases mem_append.1 hf with has | hbs
    · exact h.fresh f has hs
    · exact h'.fresh f hbs ((h.live f).2 (.inl hs))
  · refine nodup_append.2 ⟨h.nodup, h'.nodup, ?_⟩
    rintro f hf g hg rfl
    exact h'.fresh f hg ((h.live f).2 (.inr hf))

lemma touch_takes : Takes [] s (s.touch f) :=
  Takes.nil rfl rfl

lemma write_takes : Takes [] s (s.write f i entry) :=
  Takes.nil rfl rfl

/-- A new table is one frame of the allocator. -/
lemma createTable_takes (h : createTable s = some (g, t)) : Takes [g] s t := by
  unfold createTable Phys.alloc at h
  split at h
  · cases h
  next ha =>
  cases h
  split at ha
  · cases ha
  next hs =>
  split at ha
  · cases ha
  next hx =>
  cases ha
  refine ⟨hs, ?_, ?_, nodup_singleton g⟩
  · intro f
    show f ∈ insert g s.live ↔ _
    rw [Finset.mem_insert, mem_singleton]
    exact or_comm
  · intro f hf
    rwa [mem_singleton.1 hf]

lemma getLevelOrCreate_takes (h : getLevelOrCreate f i s = some (g, t)) :
    ∃ taken, Takes taken s t := by
  simp only [getLevelOrCreate] at h
  split at h
  · cases h
    exact ⟨[], touch_takes⟩
  split at h
  · cases h
  next hc =>
  cases h
  exact ⟨_, (touch_takes.trans (createTable_takes hc)).trans write_takes⟩

/-- A descent takes only frames from the allocator. -/
lemma descend_takes {path : List Index} (h : descend path (f, s) = some (g, t)) :
    ∃ taken, Takes taken s t := by
  induction path generalizing f s with
  | nil =>
    have hpair : f = g ∧ s = t := by simpa [descend] using h
    rw [hpair.2]
    exact ⟨[], Takes.nil rfl rfl⟩
  | cons i path ih =>
    rcases Option.bind_eq_some_iff.1 h with ⟨⟨x, s₁⟩, hstep, hrest⟩
    rcases getLevelOrCreate_takes hstep with ⟨as, has⟩
    rcases ih hrest with ⟨bs, hbs⟩
    exact ⟨as ++ bs, has.trans hbs⟩

lemma map_takes {c : Context} {pa iova flags : BitVec 64} (hlevel : c.level ≤ 5 ∧ c.level ≥ 3)
    (h : map c pa iova flags s = some t) : ∃ taken, Takes taken s t := by
  rw [map_eq hlevel] at h
  rcases Option.map_eq_some_iff.1 h with ⟨⟨g, s₁⟩, hd, rfl⟩
  rcases descend_takes hd with ⟨taken, htaken⟩
  exact ⟨_, htaken.trans write_takes⟩

lemma context_takes {level : Nat} {c : Context} (h : context level s = some (c, t)) :
    ∃ taken, Takes taken s t := by
  exact ⟨_, createTable_takes (context_cases h).2.2⟩

end Takes

/-- Along a run of `map` calls the tables stay a tree over frames taken since. -/
lemma run_tracks {ok : Space → MapCall → Prop} {level : Nat} {s s' : Phys} {c : Context}
    {sp : Space} (h : context level s = some (c, s')) (hclean : s.misuse = false)
    (hrun : Run (Space.step c) ok ⟨s', []⟩ sp) :
    (c.level ≤ 5 ∧ c.level ≥ 3) ∧ (∃ owner, Tracks c s.live owner sp.phys) ∧
      ∃ taken, Takes taken s sp.phys := by
  rcases context_tracks h hclean with ⟨rfl, hlevel, htracks, _⟩
  have hboth : (∃ owner, Tracks c s.live owner sp.phys) ∧ ∃ taken, Takes taken s sp.phys := by
    refine hrun.invariant (I := fun sp => (∃ owner, Tracks c s.live owner sp.phys) ∧
      ∃ taken, Takes taken s sp.phys) ⟨htracks, context_takes h⟩ ?_
    rintro t call u ⟨⟨owner, ht⟩, as, has⟩ _ hs
    have hmap := (Space.step_cases hs).1
    rcases map_spec hlevel ht hmap with ⟨owner', hmaps⟩
    rcases map_takes hlevel hmap with ⟨bs, hbs⟩
    exact ⟨⟨owner', hmaps.tracks⟩, as ++ bs, has.trans hbs⟩
  exact ⟨hlevel, hboth⟩

/-- After any sequence of `map` calls on a new context, the destructor is nothing but calls of
`free_block`.  No frame is released twice, those that are released are those that `alloc_block` has
handed out since the context was made, and a frame that is only the target of a translation is none
of them.  What is outstanding then is what was before. -/
theorem destroy_exact {level : Nat} {s s' : Phys} {c : Context} {sp : Space}
    (hnew : context level s = some (c, s')) (hclean : s.misuse = false)
    (hrun : Run (Space.step c) (fun _ call => InRange level call.iova) ⟨s', []⟩ sp) :
    ∃ frees taken, destroy c sp.phys = sp.phys.freeAll frees ∧ frees.Nodup ∧
      s.supply = taken ++ sp.phys.supply ∧ frees.Perm taken ∧
      (∀ call ∈ sp.calls, getFrame call.pa ∉ taken → getFrame call.pa ∉ frees) ∧
      (destroy c sp.phys).live = s.live ∧ (destroy c sp.phys).misuse = false := by
  rcases run_tracks hnew hclean hrun with ⟨hlevel, ⟨owner, htracks⟩, taken, htakes⟩
  have htree := htracks.tree
  -- the root is `above + 1` levels above the tables with the pages
  have habove : ∃ above, c.level = above + 2 := ⟨c.level - 2, by omega⟩
  rcases habove with ⟨above, habove⟩
  have hdepth : c.level - 1 = above + 1 := by omega
  rw [hdepth] at htree
  have hmem : ∀ f, f ∈ frames sp.phys.tables (above + 1) c.physRoot ↔
      ∃ path, owner f = some path := fun f => htree.mem_subtree_root List.mem_finRange
  have hlen : ([] : List Index).length + (above + 1) ≤ above + 1 := by simp
  have hlive : ∀ f ∈ frames sp.phys.tables (above + 1) c.physRoot, f ∈ sp.phys.live :=
    fun f hf => (htracks.live f).2 (Or.inr ((hmem f).1 hf))
  have hnodup : (frames sp.phys.tables (above + 1) c.physRoot).Nodup :=
    htree.subtree_nodup List.mem_finRange (List.nodup_finRange 512) htree.root_role hlen
  have hdestroy : destroy c sp.phys =
      sp.phys.freeAll (frames sp.phys.tables (above + 1) c.physRoot) := by
    rw [destroy, habove]
    exact cleanTables_frees htree htree.root_role hlen rfl hlive
  have htaken : ∀ f, (∃ path, owner f = some path) ↔ f ∈ taken := by
    intro f
    constructor
    · rintro ⟨path, hf⟩
      have hin := (htakes.live f).1 ((htracks.live f).2 (Or.inr ⟨path, hf⟩))
      exact hin.resolve_left (htracks.apart f path hf)
    · intro hf
      have hin := (htracks.live f).1 ((htakes.live f).2 (Or.inr hf))
      exact hin.resolve_left (htakes.fresh f hf)
  have hsame : ∀ f, f ∈ frames sp.phys.tables (above + 1) c.physRoot ↔ f ∈ taken :=
    fun f => (hmem f).trans (htaken f)
  refine ⟨_, taken, hdestroy, hnodup, htakes.supply,
    (List.perm_ext_iff_of_nodup hnodup htakes.nodup).2 hsame, ?_, ?_, ?_⟩
  · intro call _ hnot hin
    exact hnot ((hsame _).1 hin)
  · ext f
    rw [hdestroy, Phys.mem_freeAll_live, htakes.live, hsame]
    constructor
    · rintro ⟨hs | ht, hnot⟩
      · exact hs
      · exact absurd ht hnot
    · intro hs
      exact ⟨Or.inl hs, fun ht => htakes.fresh f ht hs⟩
  · rw [hdestroy, Phys.freeAll_misuse hnodup hlive]
    exact htracks.clean

/-- The five frames of a context are given back. -/
theorem destroy_exact_sample :
    ∃ c s sp frees,
      context 5 sampleMemory = some (c, s) ∧
        exec (Space.step c) ⟨s, []⟩ sampleCalls = some sp ∧
        destroy c sp.phys = sp.phys.freeAll frees ∧
        frees.Perm [frameAt 1, frameAt 2, frameAt 3, frameAt 4, frameAt 5] := by
  have hrun : ∃ c s sp,
      context 5 sampleMemory = some (c, s) ∧
        exec (Space.step c) ⟨s, []⟩ sampleCalls = some sp ∧ sp.phys.supply = [frameAt 6] :=
    ⟨_, _, _, rfl, rfl, rfl⟩
  rcases hrun with ⟨c, s, sp, hnew, hexec, hsupply⟩
  have hok : ∀ call ∈ sampleCalls, InRange 5 call.iova := by decide
  rcases destroy_exact hnew rfl (exec_run hexec fun call hc _ => hok call hc) with
    ⟨frees, taken, hdestroy, _, htaken, hperm, _⟩
  refine ⟨c, s, sp, frees, hnew, hexec, hdestroy, ?_⟩
  -- five of the six frames were handed out
  rw [hsupply] at htaken
  have hsupplied : [frameAt 1, frameAt 2, frameAt 3, frameAt 4, frameAt 5] ++ [frameAt 6] =
      taken ++ [frameAt 6] := htaken
  have hfive := (List.append_cancel_right hsupplied).symm
  rw [← hfive]
  exact hperm

end SigmaOS.Arch.SlPaging
