import Mathlib.Tactic.IntervalCases
import SigmaOS.Arch.PagingMap
import SigmaOS.Lib.Run

/-!
# Arch.PagingRefine — page tables refine a finite map

Seen from outside, a context is a map from pages (bits 12 to 47 of an address) to the last
`map_page` call for the page.
-/

namespace SigmaOS.Arch.Paging

open Lib BitVec

def pageOf (virt : BitVec 64) : BitVec 36 :=
  virt.extractLsb' 12 36

lemma tableIndex_val (shift : Nat) (virt : BitVec 64) :
    (tableIndex shift virt).val = virt.toNat / 2 ^ shift % 512 := by
  show ((virt >>> shift) &&& 0x1FF#64).toNat = _
  rw [toNat_and, toNat_ushiftRight, Nat.shiftRight_eq_div_pow]
  exact Nat.and_two_pow_sub_one_eq_mod _ 9

variable {k n : Nat}

lemma pageOf_eq_iff_toNat {v w : BitVec 64} :
    pageOf v = pageOf w ↔ v.toNat / 2 ^ 12 % 2 ^ 36 = w.toNat / 2 ^ 12 % 2 ^ 36 := by
  rw [← toNat_inj]
  simp [pageOf, BitVec.extractLsb'_toNat, Nat.shiftRight_eq_div_pow]

lemma pageOf_eq_iff {v w : BitVec 64} :
    pageOf v = pageOf w ↔
      pml4Index v = pml4Index w ∧ pdptIndex v = pdptIndex w ∧ pdIndex v = pdIndex w ∧
        ptIndex v = ptIndex w := by
  rw [pageOf_eq_iff_toNat]
  simp only [pml4Index, pdptIndex, pdIndex, ptIndex, Fin.ext_iff, tableIndex_val]
  constructor
  · intro h
    refine ⟨?_, ?_, ?_, ?_⟩ <;> omega
  · rintro ⟨h4, h3, h2, h1⟩
    omega

lemma lookup_congr_page {m : Tables Frame Index (BitVec 64)} {root : Frame} {v w : BitVec 64}
    (h : pageOf v = pageOf w) : lookup m root v = lookup m root w := by
  rcases pageOf_eq_iff.1 h with ⟨h4, h3, h2, h1⟩
  rw [lookup_eq, lookup_eq, h4, h3, h2, h1]

structure MapCall where
  phys : BitVec 64
  virt : BitVec 64
  flags : BitVec 64
  cache : CacheType

def MapCall.asksPresent (c : MapCall) : Bool := c.flags.getLsbD 0

/-- Bit `n` of the entry a call asks for: the frame, and one bit for each flag and cache type. -/
def MapCall.entryBit (c : MapCall) (n : Nat) : Bool :=
  if 12 ≤ n ∧ n < 52 then
    c.phys.getLsbD n
  else
    match n with
    | 0 => c.flags.getLsbD 0
    | 1 => c.flags.getLsbD 1
    | 2 => c.flags.getLsbD 2
    | 3 => c.cache = .writeCombining ∨ c.cache = .uncacheable
    | 4 => c.cache = .writeThrough
    | 7 => c.cache = .uncacheable
    | 8 => c.flags.getLsbD 4
    | 63 => c.flags.getLsbD 3
    | _ => false

/-- Bit `n` of the answer of `get_entry` after the last call for the page. -/
def answerEntry (last : Option MapCall) (n : Nat) : Bool :=
  match last with
  | none => false
  | some c => c.asksPresent && c.entryBit n

/-- Bit `n` of the answer of `get_phys` after the last call for the page. -/
def answerPhys (last : Option MapCall) (n : Nat) : Bool :=
  match last with
  | none => true
  | some c => if c.asksPresent then decide (12 ≤ n ∧ n < 52) && c.phys.getLsbD n else true

/-! ## Bits of an entry -/

lemma bitSet_getLsbD (w : BitVec 64) (hk : k < 64) (n : Nat) :
    (bitSet w k).getLsbD n = (w.getLsbD n || decide (n = k)) := by
  have hpow : 1#64 <<< k = BitVec.twoPow 64 k := rfl
  rw [bitSet, getLsbD_or, hpow, getLsbD_twoPow]
  simp [hk, eq_comm]

lemma frameMask_getLsbD (hn : n < 64) : frameMask.getLsbD n = decide (12 ≤ n ∧ n < 52) := by
  have hall : ∀ i : Fin 64, frameMask.getLsbD i.val = decide (12 ≤ i.val ∧ i.val < 52) := by decide
  exact hall ⟨n, hn⟩

lemma flagsMask_getLsbD (hn : n < 64) : flagsMask.getLsbD n = decide (¬ (12 ≤ n ∧ n < 52)) := by
  have hall : ∀ i : Fin 64, flagsMask.getLsbD i.val = decide (¬ (12 ≤ i.val ∧ i.val < 52)) := by
    decide
  exact hall ⟨n, hn⟩

lemma ite_bitSet_getLsbD (b : Bool) (w : BitVec 64) (hk : k < 64) (n : Nat) :
    (if b then bitSet w k else w).getLsbD n = (w.getLsbD n || (b && decide (n = k))) := by
  cases b with
  | false => simp
  | true => simp [bitSet_getLsbD w hk n]

lemma entryFlags_getLsbD (flags : BitVec 64) (n : Nat) :
    (entryFlags flags).getLsbD n =
      ((flags.getLsbD 0 && decide (n = 0)) || (flags.getLsbD 2 && decide (n = 2)) ||
        (flags.getLsbD 3 && decide (n = 63)) || (flags.getLsbD 4 && decide (n = 8)) ||
        (flags.getLsbD 1 && decide (n = 1))) := by
  simp [entryFlags, ite_bitSet_getLsbD]

lemma getPatFlags_getLsbD (cache : CacheType) (n : Nat) :
    (getPatFlags cache).getLsbD n =
      ((decide (cache = .writeCombining ∨ cache = .uncacheable) && decide (n = 3)) ||
        (decide (cache = .writeThrough) && decide (n = 4)) ||
        (decide (cache = .uncacheable) && decide (n = 7))) := by
  cases cache <;> simp [getPatFlags, bitSet_getLsbD]

lemma pageEntry_getLsbD (c : MapCall) (hn : n < 64) :
    (pageEntry c.phys c.flags c.cache).getLsbD n = c.entryBit n := by
  have hbits : (pageEntry c.phys c.flags c.cache).getLsbD n =
      ((c.phys.getLsbD n && decide (12 ≤ n ∧ n < 52)) ||
        ((entryFlags c.flags).getLsbD n && decide (¬ (12 ≤ n ∧ n < 52))) ||
        (getPatFlags c.cache).getLsbD n) := by
    simp [pageEntry, setFlags, setFrame, frameMask_getLsbD hn, flagsMask_getLsbD hn]
  rw [hbits, entryFlags_getLsbD, getPatFlags_getLsbD]
  by_cases hframe : 12 ≤ n ∧ n < 52
  · have hother : n ≠ 3 ∧ n ≠ 4 ∧ n ≠ 7 := by omega
    simp [MapCall.entryBit, hframe, hother]
  · -- below bit 12 and above bit 51 there is one case for each bit
    have hcases : n < 12 ∨ 52 ≤ n := by omega
    rcases hcases with hlow | hhigh
    · interval_cases n <;> simp [MapCall.entryBit]
    · interval_cases n <;> simp [MapCall.entryBit]

/-! ## Sequences of calls -/

structure Space where
  phys : Phys
  calls : List MapCall

namespace Space

def step (root : Frame) (sp : Space) (c : MapCall) : Option Space :=
  match mapPage root c.phys c.virt c.flags c.cache sp.phys with
  | none => none
  | some s => some ⟨s, c :: sp.calls⟩

def last (sp : Space) (virt : BitVec 64) : Option MapCall :=
  sp.calls.find? fun c => pageOf c.virt = pageOf virt

/-- What is stored for a page: the entry of the last call, or nothing. -/
def stored (sp : Space) (virt : BitVec 64) : BitVec 64 :=
  match sp.last virt with
  | none => 0#64
  | some c => pageEntry c.phys c.flags c.cache

/-- The tables hold, for every page, what the last call asked for. -/
structure Refines (root : Frame) (sp : Space) : Prop where
  tracked : ∃ owner, sp.phys.Tracks (treeNext 3) owner ∧ owner root = some []
  pages : ∀ virt, readAt pageFormat sp.phys.tables root
    [pml4Index virt, pdptIndex virt, pdIndex virt] (ptIndex virt) = sp.stored virt

variable {root : Frame} {sp sp' : Space} {c : MapCall}

lemma step_cases (h : sp.step root c = some sp') :
    mapPage root c.phys c.virt c.flags c.cache sp.phys = some sp'.phys ∧
      sp'.calls = c :: sp.calls := by
  unfold step at h
  split at h
  · cases h
  next hm =>
  cases h
  exact ⟨hm, rfl⟩

variable {virt : BitVec 64} {n : Nat}

lemma stored_same (hcalls : sp'.calls = c :: sp.calls) (hpage : pageOf c.virt = pageOf virt) :
    sp'.stored virt = pageEntry c.phys c.flags c.cache := by
  simp [stored, last, hcalls, hpage]

lemma stored_other (hcalls : sp'.calls = c :: sp.calls) (hpage : pageOf c.virt ≠ pageOf virt) :
    sp'.stored virt = sp.stored virt := by
  simp [stored, last, hcalls, hpage]

/-- One call of `map_page` keeps the refinement. -/
lemma Refines.step (h : sp.Refines root) (hs : sp.step root c = some sp') : sp'.Refines root := by
  rcases step_cases hs with ⟨hmap, hcalls⟩
  rcases h.tracked with ⟨owner, htracks, hroot⟩
  have hrole : ∀ virt, roleAt (treeNext 3) [] [pml4Index virt, pdptIndex virt, pdIndex virt] =
      some [pml4Index virt, pdptIndex virt, pdIndex virt] := fun virt => rfl
  rcases mapPage_spec htracks hroot (hrole c.virt) rfl hmap with ⟨owner', hmapped⟩
  refine ⟨⟨owner', hmapped.tracks, hmapped.keeps root [] hroot⟩, ?_⟩
  intro virt
  by_cases hpage : pageOf c.virt = pageOf virt
  · rcases pageOf_eq_iff.1 hpage with ⟨h4, h3, h2, h1⟩
    rw [stored_same hcalls hpage, ← h4, ← h3, ← h2, ← h1]
    exact hmapped.written
  · -- the path or the last index differs
    have hother : [pml4Index virt, pdptIndex virt, pdIndex virt] =
        [pml4Index c.virt, pdptIndex c.virt, pdIndex c.virt] → ptIndex virt ≠ ptIndex c.virt := by
      intro hpath h1
      have hindices : pml4Index virt = pml4Index c.virt ∧ pdptIndex virt = pdptIndex c.virt ∧
          pdIndex virt = pdIndex c.virt := by
        simpa using hpath
      exact hpage (pageOf_eq_iff.2 ⟨hindices.1, hindices.2.1, hindices.2.2, h1⟩).symm
    rw [stored_other hcalls hpage, ← h.pages virt]
    exact hmapped.reads root [] _ _ _ hroot (hrole virt) rfl hother

lemma Refines.lookup (h : sp.Refines root) (virt : BitVec 64) :
    lookup sp.phys.tables root virt =
      if present (sp.stored virt) then some (sp.stored virt) else none := by
  rw [lookup_eq, h.pages virt]

lemma absent_answers {m : Tables Frame Index (BitVec 64)} (h : Paging.lookup m root virt = none)
    (hn : n < 64) :
    (getEntry m root virt).getLsbD n = false ∧ (getPhys m root virt).getLsbD n = true := by
  refine ⟨by simp [getEntry, h], ?_⟩
  rw [getPhys, h]
  show (BitVec.allOnes 64).getLsbD n = true
  rw [getLsbD_allOnes]
  exact decide_eq_true hn

/-- Under the refinement the answers are those of the last call for the page. -/
lemma Refines.answers (h : sp.Refines root) (virt : BitVec 64) (hn : n < 64) :
    (getEntry sp.phys.tables root virt).getLsbD n = answerEntry (sp.last virt) n ∧
      (getPhys sp.phys.tables root virt).getLsbD n = answerPhys (sp.last virt) n := by
  have hlookup := h.lookup virt
  cases hlast : sp.last virt with
  | none =>
    have hstored : sp.stored virt = 0#64 := by simp [stored, hlast]
    have hnone : Paging.lookup sp.phys.tables root virt = none := by simpa [hstored] using hlookup
    simpa [answerEntry, answerPhys] using absent_answers hnone hn
  | some c =>
    have hstored : sp.stored virt = pageEntry c.phys c.flags c.cache := by simp [stored, hlast]
    have hpresent : present (pageEntry c.phys c.flags c.cache) = c.asksPresent :=
      pageEntry_getLsbD c (n := 0) (by decide)
    rw [hstored, hpresent] at hlookup
    cases hask : c.asksPresent with
    | false =>
      have hnone : Paging.lookup sp.phys.tables root virt = none := by simpa [hask] using hlookup
      simpa [answerEntry, answerPhys, hask] using absent_answers hnone hn
    | true =>
      have hsome : Paging.lookup sp.phys.tables root virt =
          some (pageEntry c.phys c.flags c.cache) := by
        simpa [hask] using hlookup
      have hbit := pageEntry_getLsbD c hn
      refine ⟨by simp [getEntry, hsome, answerEntry, hask, hbit], ?_⟩
      have hframe : (getPhys sp.phys.tables root virt).getLsbD n =
          (c.entryBit n && decide (12 ≤ n ∧ n < 52)) := by
        simp [getPhys, hsome, getFrame, hbit, frameMask_getLsbD hn]
      rw [hframe]
      by_cases hrange : 12 ≤ n ∧ n < 52
      · simp [answerPhys, hask, MapCall.entryBit, hrange]
      · simp [answerPhys, hask, hrange]

end Space

/-- Memory in which no frame has been misused; the rest is arbitrary. -/
def Phys.boot (tables : Tables Frame Index (BitVec 64)) (supply : List Frame)
    (live : Finset Frame) : Phys :=
  { tables := tables, supply := supply, live := live, misuse := false }

lemma init_refines {tables : Tables Frame Index (BitVec 64)} {supply : List Frame}
    {live : Finset Frame} {root : Frame} {s : Phys}
    (h : init none (Phys.boot tables supply live) = some (root, s)) :
    Space.Refines root ⟨s, []⟩ := by
  have hnone : (Phys.boot tables supply live).Tracks (treeNext 3) (fun _ => none) :=
    ⟨fun f l p l' hf _ => absurd hf (by simp), fun f l hf => absurd hf (by simp), rfl⟩
  rcases init_cases h with ⟨s₁, halloc, rfl⟩
  rcases hnone.alloc halloc [] with ⟨_, htables, htracks⟩
  refine ⟨⟨_, htracks, by simp⟩, ?_⟩
  intro virt
  show readAt pageFormat (s₁.clear root).tables root _ _ = 0#64
  rw [htables]
  exact readAt_blank fun p => Tables.blank_same

/-- After any sequence of `map_page` calls on a new context, `get_entry` and `get_phys` answer for
every address by the last call for its page, and one more call changes the answers for no other
page. -/
theorem page_tables_refine_map {tables : Tables Frame Index (BitVec 64)} {supply : List Frame}
    {live : Finset Frame} {root : Frame} {s : Phys} {sp : Space}
    (hinit : init none (Phys.boot tables supply live) = some (root, s))
    (hrun : Run (Space.step root) (fun _ _ => True) ⟨s, []⟩ sp) :
    (∀ virt n, n < 64 →
      (getEntry sp.phys.tables root virt).getLsbD n = answerEntry (sp.last virt) n ∧
        (getPhys sp.phys.tables root virt).getLsbD n = answerPhys (sp.last virt) n) ∧
      ∀ c sp', sp.step root c = some sp' → ∀ virt, pageOf virt ≠ pageOf c.virt →
        getEntry sp'.phys.tables root virt = getEntry sp.phys.tables root virt ∧
          getPhys sp'.phys.tables root virt = getPhys sp.phys.tables root virt := by
  have href : sp.Refines root :=
    hrun.invariant (init_refines hinit) fun t c u ht _ hs => ht.step hs
  refine ⟨?_, ?_⟩
  · exact fun virt n hn => href.answers virt hn
  · intro c sp' hs virt hpage
    have hcalls := (Space.step_cases hs).2
    have hsame : lookup sp'.phys.tables root virt = lookup sp.phys.tables root virt := by
      rw [(href.step hs).lookup virt, href.lookup virt,
        Space.stored_other hcalls (Ne.symm hpage)]
    exact ⟨by rw [getEntry, getEntry, hsame], by rw [getPhys, getPhys, hsame]⟩

def sampleCall : MapCall :=
  { phys := 0x5abc#64, virt := 0x400000#64, flags := 7#64, cache := .normal }

def laterCall : MapCall :=
  { phys := 0x7000#64, virt := 0x400010#64, flags := 1#64, cache := .normal }

/-- The last of three calls is for the page of the first one. -/
theorem page_tables_refine_map_sample :
    ∃ root s sp,
      init none (Phys.boot (fun _ _ => 0#64) [frameAt 1, frameAt 2, frameAt 3, frameAt 4] ∅) =
          some (root, s) ∧
        exec (Space.step root) ⟨s, []⟩
            [sampleCall, { sampleCall with virt := 0x401000#64 }, laterCall] = some sp ∧
        ∀ n, n < 64 →
          (getPhys sp.phys.tables root 0x400123#64).getLsbD n = answerPhys (some laterCall) n := by
  have hrun : ∃ root s sp,
      init none (Phys.boot (fun _ _ => 0#64) [frameAt 1, frameAt 2, frameAt 3, frameAt 4] ∅) =
          some (root, s) ∧
        exec (Space.step root) ⟨s, []⟩
            [sampleCall, { sampleCall with virt := 0x401000#64 }, laterCall] = some sp ∧
        sp.last 0x400123#64 = some laterCall :=
    ⟨_, _, _, rfl, rfl, rfl⟩
  rcases hrun with ⟨root, s, sp, hinit, hexec, hlast⟩
  refine ⟨root, s, sp, hinit, hexec, ?_⟩
  intro n hn
  have hall := page_tables_refine_map hinit (exec_run hexec fun _ _ _ => trivial)
  rw [← hlast]
  exact (hall.1 0x400123#64 n hn).2

end SigmaOS.Arch.Paging
