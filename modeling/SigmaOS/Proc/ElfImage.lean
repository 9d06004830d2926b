import Mathlib.Order.CompletePartialOrder
import SigmaOS.Proc.Elf

/-!
# Proc.ElfImage — the image of an executable

The three passes over a segment (`addPage`, `memcpy`, `protect`) work on a set of pages that are
mapped to frames of their own, taken from the allocator since the segment was begun: `Fresh s₀ s
M`.  Whatever happens on such pages cannot be seen through the pages of another segment.

The loader counts the pages of a segment by its size alone.
-/

namespace SigmaOS.Proc.Elf

open Function List BitVec Set
open Lib Arch.Paging

lemma eq_of_page_offset {v w : BitVec 64} (hv : v.toNat < 2 ^ 48) (hw : w.toNat < 2 ^ 48)
    (hpage : pageOf v = pageOf w) (hoffset : offsetOf v = offsetOf w) : v = w := by
  have hp := pageOf_eq_iff_toNat.1 hpage
  have ho : v.toNat % 2 ^ 12 = w.toNat % 2 ^ 12 := by
    simpa [offsetOf, BitVec.extractLsb'_toNat] using congrArg BitVec.toNat hoffset
  apply eq_of_toNat_eq
  omega

lemma add_ofNat_toNat {start : BitVec 64} {k : Nat} (h : start.toNat + k < 2 ^ 64) :
    (start + BitVec.ofNat 64 k).toNat = start.toNat + k := by
  rw [toNat_add, toNat_ofNat, Nat.add_mod_mod, Nat.mod_eq_of_lt h]

lemma pageAt_toNat {start : BitVec 64} {j : Nat} (h : start.toNat + j * 4096 < 2 ^ 64) :
    (pageAt start j).toNat = start.toNat + j * 4096 := by
  have hmul : BitVec.ofNat 64 j * 4096#64 = BitVec.ofNat 64 (j * 4096) := by rw [ofNat_mul]
  rw [pageAt, hmul, add_ofNat_toNat h]

/-! ## Pages of a segment -/

def segmentByte (base : BitVec 64) (ph : Phdr) (k : Nat) : BitVec 64 :=
  base + ph.pVaddr + BitVec.ofNat 64 k

def segmentPages (base : BitVec 64) (ph : Phdr) : Set (BitVec 36) :=
  {p | ∃ k < ph.pMemsz.toNat, pageOf (segmentByte base ph k) = p}

def loopPages (start : BitVec 64) (js : List Nat) : Set (BitVec 36) :=
  {p | ∃ j ∈ js, pageOf (pageAt start j) = p}

/-- All pages of a segment that the loops go over. -/
def mappedPages (base : BitVec 64) (ph : Phdr) : Set (BitVec 36) :=
  loopPages (base + ph.pVaddr) (List.range (Types.divCeil ph.pMemsz 4096#64).toNat)

def InLowerHalf (base : BitVec 64) (ph : Phdr) : Prop :=
  ∀ k < ph.pMemsz.toNat, (base + ph.pVaddr).toNat + k < 2 ^ 47

/-- What the last, partly used page of the segment would hold if the segment began on a page boundary
still ends in that page when it begins where it does. -/
def Fits (ph : Phdr) : Prop :=
  ph.pVaddr.toNat % 4096 + (ph.pMemsz.toNat - 1) % 4096 < 4096

instance (ph : Phdr) : Decidable (Fits ph) :=
  inferInstanceAs (Decidable (_ < _))

section Pages

variable {base : BitVec 64} {ph : Phdr}

lemma loopPages_cons (start : BitVec 64) (j : Nat) (js : List Nat) :
    loopPages start (j :: js) = insert (pageOf (pageAt start j)) (loopPages start js) := by
  ext p
  simp [loopPages, eq_comm]

section

variable (h : InLowerHalf base ph)
include h

lemma InLowerHalf.byte_toNat {k : Nat} (hk : k < ph.pMemsz.toNat) :
    (segmentByte base ph k).toNat = (base + ph.pVaddr).toNat + k :=
  add_ofNat_toNat (Nat.lt_trans (h k hk) (by decide))

lemma InLowerHalf.byte_inj {k l : Nat} (hk : k < ph.pMemsz.toNat) (hl : l < ph.pMemsz.toNat)
    (hpage : pageOf (segmentByte base ph k) = pageOf (segmentByte base ph l))
    (hoffset : offsetOf (segmentByte base ph k) = offsetOf (segmentByte base ph l)) : k = l := by
  have hkn := h.byte_toNat hk
  have hln := h.byte_toNat hl
  have hk47 := h k hk
  have hl47 := h l hl
  have heq := congrArg BitVec.toNat
    (eq_of_page_offset (by omega) (by omega) hpage hoffset)
  omega

lemma InLowerHalf.divCeil_toNat :
    (Types.divCeil ph.pMemsz 4096#64).toNat = (ph.pMemsz.toNat + 4095) / 4096 := by
  have hsize : ph.pMemsz.toNat ≤ 2 ^ 47 := by
    by_contra hbig
    have hlast := h (2 ^ 47) (by omega)
    omega
  rw [Process.divCeil_block, Nat.mod_eq_of_lt (by omega)]

lemma InLowerHalf.round {j : Nat} (hj : j < (Types.divCeil ph.pMemsz 4096#64).toNat) :
    j * 4096 < ph.pMemsz.toNat ∧
      pageAt (base + ph.pVaddr) j = segmentByte base ph (j * 4096) := by
  rw [h.divCeil_toNat] at hj
  have hlt : j * 4096 < ph.pMemsz.toNat := by omega
  have hin := h _ hlt
  refine ⟨hlt, ?_⟩
  -- both addresses are below the end of the segment, so neither wraps
  apply eq_of_toNat_eq
  rw [pageAt_toNat (by omega), h.byte_toNat hlt]

lemma InLowerHalf.mappedPages_subset : mappedPages base ph ⊆ segmentPages base ph := by
  rintro p ⟨j, hj, rfl⟩
  rcases h.round (mem_range.1 hj) with ⟨hlt, heq⟩
  exact ⟨j * 4096, hlt, by rw [heq]⟩

/-- Byte `k` is on a page of the loops exactly if that page's number, counted from the first one of
the segment, is below the number of rounds. -/
lemma InLowerHalf.byte_mapped_iff {k : Nat} (hk : k < ph.pMemsz.toNat) :
    pageOf (segmentByte base ph k) ∈ mappedPages base ph ↔
      ((base + ph.pVaddr).toNat % 4096 + k) / 4096 < (Types.divCeil ph.pMemsz 4096#64).toNat := by
  have hkn := h.byte_toNat hk
  have hk47 := h k hk
  constructor
  · rintro ⟨j, hj, hpage⟩
    have hround := mem_range.1 hj
    rcases h.round hround with ⟨hlt, heq⟩
    have hjn := h.byte_toNat hlt
    rw [heq, pageOf_eq_iff_toNat, hkn, hjn] at hpage
    omega
  · intro hlt
    refine ⟨((base + ph.pVaddr).toNat % 4096 + k) / 4096, mem_range.2 hlt, ?_⟩
    rcases h.round hlt with ⟨hin, heq⟩
    have hjn := h.byte_toNat hin
    have hj47 := h _ hin
    rw [heq, pageOf_eq_iff_toNat, hkn, hjn]
    omega

end

lemma start_mod (haligned : base.toNat % 4096 = 0) :
    (base + ph.pVaddr).toNat % 4096 = ph.pVaddr.toNat % 4096 := by
  rw [toNat_add]
  omega

lemma InLowerHalf.mappedPages_eq (h : InLowerHalf base ph) (haligned : base.toNat % 4096 = 0)
    (hfits : Fits ph) : mappedPages base ph = segmentPages base ph := by
  apply Set.Subset.antisymm h.mappedPages_subset
  rintro p ⟨k, hk, rfl⟩
  rw [h.byte_mapped_iff hk, start_mod haligned, h.divCeil_toNat]
  unfold Fits at hfits
  omega

lemma InLowerHalf.exists_not_mapped (h : InLowerHalf base ph) (haligned : base.toNat % 4096 = 0)
    (hfits : ¬ Fits ph) :
    ∃ k < ph.pMemsz.toNat, pageOf (segmentByte base ph k) ∉ mappedPages base ph := by
  unfold Fits at hfits
  have hlast : ph.pMemsz.toNat - 1 < ph.pMemsz.toNat := by omega
  refine ⟨ph.pMemsz.toNat - 1, hlast, ?_⟩
  rw [h.byte_mapped_iff hlast, start_mod haligned, h.divCeil_toNat]
  omega

end Pages

/-! ## Pages with frames of their own -/

/-- Since `s₀`, the pages of `M` were mapped, for the loader to write, to distinct frames that the
allocator answered; nothing else changed. -/
structure Fresh (s₀ s : Space) (M : Set (BitVec 36)) : Prop where
  nodup : s.supply.Nodup
  supply : s.supply ⊆ s₀.supply
  mapped : ∀ p ∈ M, present (s.pages p) = true ∧ (s.pages p).getLsbD 1 = true
  taken : ∀ p ∈ M, getFrame (s.pages p) ∈ s₀.supply ∧ getFrame (s.pages p) ∉ s.supply
  distinct : ∀ p ∈ M, ∀ q ∈ M, getFrame (s.pages p) = getFrame (s.pages q) → p = q
  pages : ∀ p, p ∉ M → s.pages p = s₀.pages p
  bytes : ∀ f, f ∉ s₀.supply → s.bytes f = s₀.bytes f

def Zero (s : Space) (M : Set (BitVec 36)) : Prop :=
  ∀ p ∈ M, ∀ o, s.byteAt p o = 0#8

lemma Fresh.refl {s : Space} (h : s.supply.Nodup) : Fresh s s ∅ where
  nodup := h
  supply := fun _ hf => hf
  mapped := fun p hp => absurd hp (notMem_empty p)
  taken := fun p hp => absurd hp (notMem_empty p)
  distinct := fun p hp => absurd hp (notMem_empty p)
  pages := fun _ _ => rfl
  bytes := fun _ _ => rfl

section Mapping

variable {s₀ s t : Space} {M : Set (BitVec 36)} {start : BitVec 64}

/-- A round of the page loop maps one zeroed frame. -/
lemma addPage_true {j : Nat} (h : addPage start j s = some (true, t)) :
    ∃ frame supply, s.supply = frame :: supply ∧ t.supply = supply ∧
      t.pages = update s.pages (pageOf (pageAt start j)) (pageEntry frame.1 3#64 .normal) ∧
      t.bytes = update s.bytes frame fun _ => 0#8 := by
  unfold addPage at h
  split at h
  · cases h
  · next frame supply hsupply =>
    split at h
    · cases h
    · refine ⟨frame, supply, hsupply, ?_⟩
      simp only [Option.map_eq_some_iff, Prod.mk.injEq, true_and, exists_eq_right,
        Space.clearPage] at h
      split at h
      · cases h
        refine ⟨rfl, rfl, ?_⟩
        simp [Space.mapPage, getFrame_pageEntry, getFrame_frame]
      · cases h

lemma pageEntry_mapped (frame : Frame) :
    present (pageEntry frame.1 3#64 .normal) = true ∧
      (pageEntry frame.1 3#64 .normal).getLsbD 1 = true := by
  have hbit := fun n => pageEntry_getLsbD ⟨frame.1, 0#64, 3#64, .normal⟩ (n := n)
  exact ⟨(hbit 0 (by decide)).trans (by simp [MapCall.entryBit]),
    (hbit 1 (by decide)).trans (by simp [MapCall.entryBit])⟩

/-- A round of the loop maps one more page. -/
lemma Fresh.addPage {j : Nat} (h : Fresh s₀ s M) (hs : addPage start j s = some (true, t)) :
    Fresh s₀ t (insert (pageOf (pageAt start j)) M) := by
  rcases addPage_true hs with ⟨frame, supply, hsupply, htsupply, hpages, hbytes⟩
  have hnodup := h.nodup
  rw [hsupply] at hnodup
  have hframe : frame ∈ s₀.supply := h.supply (hsupply ▸ mem_cons_self)
  have hrest : ∀ f ∈ supply, f ∈ s.supply := fun f hf => hsupply ▸ mem_cons_of_mem frame hf
  have hnew : t.pages (pageOf (pageAt start j)) = pageEntry frame.1 3#64 .normal := by
    rw [hpages, update_self]
  have hold : ∀ p, p ≠ pageOf (pageAt start j) → t.pages p = s.pages p := by
    intro p hp
    rw [hpages, update_of_ne hp]
  have hnewFrame : getFrame (t.pages (pageOf (pageAt start j))) = frame := by
    rw [hnew, getFrame_pageEntry, getFrame_frame]
  -- the frames of the other pages left the supply before this one
  have hother : ∀ p ∈ M, p ≠ pageOf (pageAt start j) →
      getFrame (t.pages p) ≠ frame ∧ getFrame (t.pages p) ∉ supply := by
    intro p hp hne
    rw [hold p hne]
    refine ⟨?_, fun hf => (h.taken p hp).2 (hrest _ hf)⟩
    intro heq
    exact (h.taken p hp).2 (hsupply ▸ heq ▸ mem_cons_self)
  refine ⟨?_, ?_, ?_, ?_, ?_, ?_, ?_⟩
  · rw [htsupply]
    exact hnodup.of_cons
  · rw [htsupply]
    exact fun f hf => h.supply (hrest f hf)
  · intro p hp
    by_cases heq : p = pageOf (pageAt start j)
    · rw [heq, hnew]
      exact pageEntry_mapped frame
    · rw [hold p heq]
      exact h.mapped p (hp.resolve_left heq)
  · intro p hp
    rw [htsupply]
    by_cases heq : p = pageOf (pageAt start j)
    · rw [heq, hnewFrame]
      exact ⟨hframe, hnodup.notMem⟩
    · have hin := hp.resolve_left heq
      refine ⟨?_, (hother p hin heq).2⟩
      rw [hold p heq]
      exact (h.taken p hin).1
  · intro p hp q hq hpq
    by_cases hpnew : p = pageOf (pageAt start j)
    · by_cases hqnew : q = pageOf (pageAt start j)
      · rw [hpnew, hqnew]
      · rw [hpnew, hnewFrame] at hpq
        exact absurd hpq.symm (hother q (hq.resolve_left hqnew) hqnew).1
    · by_cases hqnew : q = pageOf (pageAt start j)
      · rw [hqnew, hnewFrame] at hpq
        exact absurd hpq (hother p (hp.resolve_left hpnew) hpnew).1
      · rw [hold p hpnew, hold q hqnew] at hpq
        exact h.distinct p (hp.resolve_left hpnew) q (hq.resolve_left hqnew) hpq
  · intro p hp
    rw [hold p fun heq => hp (.inl heq)]
    exact h.pages p fun hin => hp (.inr hin)
  · intro f hf
    have hne : f ≠ frame := fun heq => hf (heq ▸ hframe)
    rw [hbytes, update_of_ne hne]
    exact h.bytes f hf

lemma Zero.addPage {j : Nat} (h : Fresh s₀ s M) (hzero : Zero s M)
    (hs : Elf.addPage start j s = some (true, t)) :
    Zero t (insert (pageOf (pageAt start j)) M) := by
  rcases addPage_true hs with ⟨frame, supply, hsupply, _, hpages, hbytes⟩
  intro p hp o
  by_cases heq : p = pageOf (pageAt start j)
  · rw [Space.byteAt, hpages, hbytes, heq, update_self, getFrame_pageEntry, getFrame_frame,
      update_self]
  · have hin := hp.resolve_left heq
    have hne : getFrame (s.pages p) ≠ frame := by
      intro hframe
      exact (h.taken p hin).2 (hsupply ▸ hframe ▸ mem_cons_self)
    rw [Space.byteAt, hpages, hbytes, update_of_ne heq, update_of_ne hne]
    exact hzero p hin o

/-- The whole page loop maps fresh zeroed pages. -/
lemma Fresh.addPages {js : List Nat}
    (hrun : Chain (fun j s t => Elf.addPage start j s = some (true, t)) js s t) (h : Fresh s₀ s M)
    (hzero : Zero s M) : Fresh s₀ t (M ∪ loopPages start js) ∧ Zero t (M ∪ loopPages start js) := by
  -- the set of pages grows with each round, so it is general in the induction
  induction hrun generalizing M with
  | nil s =>
    have hnone : loopPages start [] = ∅ := by simp [loopPages]
    rw [hnone, union_empty]
    exact ⟨h, hzero⟩
  | @cons j js s u t hround _ ih =>
    rw [loopPages_cons, union_insert, ← insert_union]
    exact ih (h.addPage hround) (hzero.addPage h hround)

end Mapping

section Copying

variable {s₀ s t : Space} {M : Set (BitVec 36)} {virt : BitVec 64} {byte : BitVec 8}

lemma writeByte_some (h : s.writeByte virt byte = some t) :
    t.pages = s.pages ∧ t.supply = s.supply ∧
      t.bytes = update s.bytes (getFrame (s.pages (pageOf virt)))
        (update (s.bytes (getFrame (s.pages (pageOf virt)))) (offsetOf virt) byte) := by
  unfold Space.writeByte at h
  split at h
  · cases h
    exact ⟨rfl, rfl, rfl⟩
  · cases h

/-- A byte on a page of the segment. -/
lemma Fresh.writeByte (h : Fresh s₀ s M) (hin : pageOf virt ∈ M)
    (hs : s.writeByte virt byte = some t) : Fresh s₀ t M := by
  rcases writeByte_some hs with ⟨hpages, hsupply, hbytes⟩
  refine ⟨?_, ?_, ?_, ?_, ?_, ?_, ?_⟩
  · rw [hsupply]
    exact h.nodup
  · rw [hsupply]
    exact h.supply
  · rw [hpages]
    exact h.mapped
  · rw [hpages, hsupply]
    exact h.taken
  · rw [hpages]
    exact h.distinct
  · rw [hpages]
    exact h.pages
  · intro f hf
    have hne : f ≠ getFrame (s.pages (pageOf virt)) := fun heq => hf (heq ▸ (h.taken _ hin).1)
    rw [hbytes, update_of_ne hne]
    exact h.bytes f hf

lemma writeByte_readByte (hs : s.writeByte virt byte = some t) : t.readByte virt = byte := by
  rcases writeByte_some hs with ⟨hpages, _, hbytes⟩
  rw [Space.readByte, Space.byteAt, hpages, hbytes, update_self, update_self]

/-- A byte written leaves every other byte of the mapped pages. -/
lemma Fresh.writeByte_same (h : Fresh s₀ s M) (hin : pageOf virt ∈ M)
    (hs : s.writeByte virt byte = some t) {p : BitVec 36} {o : BitVec 12} (hp : p ∈ M)
    (hother : ¬ (pageOf virt = p ∧ offsetOf virt = o)) : t.byteAt p o = s.byteAt p o := by
  rcases writeByte_some hs with ⟨hpages, _, hbytes⟩
  rw [Space.byteAt, Space.byteAt, hpages, hbytes]
  -- either another offset of the same frame, or another frame
  by_cases hpage : pageOf virt = p
  · subst hpage
    have hne : o ≠ offsetOf virt := fun heq => hother ⟨rfl, heq.symm⟩
    rw [update_self, update_of_ne hne]
  · have hne : getFrame (s.pages p) ≠ getFrame (s.pages (pageOf virt)) :=
      fun heq => hpage (h.distinct _ hp _ hin heq).symm
    rw [update_of_ne hne]

variable {mem : BitVec 64 → BitVec 8} {src : BitVec 64} {base : BitVec 64} {ph : Phdr} {n : Nat}

/-- The bytes of the file are there, and no others are touched. -/
lemma Fresh.memcpy (h : Fresh s₀ s M) (hlower : InLowerHalf base ph) (hn : n ≤ ph.pMemsz.toNat)
    (hin : segmentPages base ph ⊆ M) (hs : s.memcpy mem (base + ph.pVaddr) src n = some t) :
    Fresh s₀ t M ∧
      (∀ k < n, t.readByte (segmentByte base ph k) = mem (src + BitVec.ofNat 64 k)) ∧
      ∀ p ∈ M, ∀ o, (∀ k < n, ¬ (pageOf (segmentByte base ph k) = p ∧
        offsetOf (segmentByte base ph k) = o)) → t.byteAt p o = s.byteAt p o := by
  -- what the loop keeps: the frames, and the bytes that are not its own
  let Kept : Space → Prop := fun u =>
    Fresh s₀ u M ∧ ∀ p ∈ M, ∀ o, (∀ k < n, ¬ (pageOf (segmentByte base ph k) = p ∧
      offsetOf (segmentByte base ph k) = o)) → u.byteAt p o = s.byteAt p o
  let Done : Nat → Space → Prop := fun k u =>
    k < n → u.readByte (segmentByte base ph k) = mem (src + BitVec.ofNat 64 k)
  have hrun := (exec_chain hs).collects (I := Kept) (Q := Done) ?_ ⟨h, fun _ _ _ _ => rfl⟩
  · rcases hrun with ⟨⟨hfresh, hsame⟩, hdone, _⟩
    exact ⟨hfresh, fun k hk => hdone k (mem_range.2 hk) hk, hsame⟩
  · rintro k hk u v ⟨hfresh, hsame⟩ hwrite
    have hkn := mem_range.1 hk
    have hpage : pageOf (segmentByte base ph k) ∈ M := hin ⟨k, by omega, rfl⟩
    refine ⟨⟨hfresh.writeByte hpage hwrite, ?_⟩, fun _ => writeByte_readByte hwrite, ?_⟩
    · intro p hp o hfree
      rw [hfresh.writeByte_same hpage hwrite hp (hfree k hkn)]
      exact hsame p hp o hfree
    · intro l hl hln
      by_cases hlk : l = k
      · rw [hlk]
        exact writeByte_readByte hwrite
      · have hother := hfresh.writeByte_same hpage hwrite (hin ⟨l, by omega, rfl⟩)
          (o := offsetOf (segmentByte base ph l)) fun ⟨hp, ho⟩ =>
            hlk (hlower.byte_inj (by omega) (by omega) hp ho).symm
        exact hother.trans (hl hln)

end Copying

/-! ## The third pass: opening the pages -/

/-- The entries only gain bits outside the frame; the contents stay. -/
structure Opens (s t : Space) : Prop where
  bytes : t.bytes = s.bytes
  supply : t.supply = s.supply
  pages : ∀ p, ∃ bits, bits &&& frameMask = 0#64 ∧ t.pages p = s.pages p ||| bits

namespace Opens

variable {s t u : Space}

lemma refl (s : Space) : Opens s s :=
  ⟨rfl, rfl, fun _ => ⟨0#64, zero_and, BitVec.or_zero.symm⟩⟩

lemma trans (h : Opens s t) (h' : Opens t u) : Opens s u := by
  refine ⟨h'.bytes.trans h.bytes, h'.supply.trans h.supply, ?_⟩
  intro p
  rcases h.pages p with ⟨bits, hbits, heq⟩
  rcases h'.pages p with ⟨bits', hbits', heq'⟩
  refine ⟨bits ||| bits', ?_, ?_⟩
  · rw [BitVec.and_or_distrib_right, hbits, hbits', BitVec.or_zero]
  · rw [heq', heq, BitVec.or_assoc]

lemma getFrame_eq (h : Opens s t) (p : BitVec 36) :
    getFrame (t.pages p) = getFrame (s.pages p) := by
  rcases h.pages p with ⟨bits, hbits, heq⟩
  refine Subtype.ext ?_
  show t.pages p &&& frameMask = s.pages p &&& frameMask
  rw [heq, and_or_distrib_right, hbits, or_zero]

lemma getLsbD_of (h : Opens s t) {p : BitVec 36} {n : Nat} (hbit : (s.pages p).getLsbD n = true) :
    (t.pages p).getLsbD n = true := by
  rcases h.pages p with ⟨bits, _, heq⟩
  rw [heq, getLsbD_or, hbit, Bool.true_or]

lemma byteAt_eq (h : Opens s t) (p : BitVec 36) (o : BitVec 12) :
    t.byteAt p o = s.byteAt p o := by
  rw [Space.byteAt, Space.byteAt, h.getFrame_eq, h.bytes]

end Opens

section Opening

variable {s₀ s t : Space} {M : Set (BitVec 36)} {start flags : BitVec 64}

lemma setPageProtection_opens (s : Space) (virt flags : BitVec 64) :
    Opens s (s.setPageProtection virt flags) := by
  simp only [Space.setPageProtection]
  split
  · refine ⟨rfl, rfl, ?_⟩
    intro p
    by_cases hp : p = pageOf virt
    · subst hp
      refine ⟨entryFlags flags &&& flagsMask, ?_, ?_⟩
      · rw [BitVec.and_assoc, show flagsMask &&& frameMask = 0#64 by decide, BitVec.and_zero]
      · exact (update_self _ _ _).trans BitVec.or_zero
    · refine ⟨0#64, BitVec.zero_and, ?_⟩
      exact (update_of_ne hp _ _).trans BitVec.or_zero.symm
  · exact Opens.refl s

lemma setPageProtection_other {virt : BitVec 64} {p : BitVec 36} (hp : p ≠ pageOf virt) :
    (s.setPageProtection virt flags).pages p = s.pages p := by
  simp only [Space.setPageProtection]
  split
  · exact update_of_ne hp _ _
  · rfl

lemma setPageProtection_user {virt : BitVec 64} (huser : flags.getLsbD 2 = true)
    (hpresent : present (s.pages (pageOf virt)) = true) :
    ((s.setPageProtection virt flags).pages (pageOf virt)).getLsbD 2 = true := by
  have hmask : flagsMask.getLsbD 2 = true := by decide
  have hflag : (entryFlags flags).getLsbD 2 = true := by simp [entryFlags_getLsbD, huser]
  simp [Space.setPageProtection, hpresent, setFlags, hflag, hmask]

lemma segmentFlags_user (pFlags : BitVec 32) : (segmentFlags pFlags).getLsbD 2 = true := by
  unfold segmentFlags
  split <;> split <;> decide

/-- The protection opens pages and changes no frame. -/
lemma protect_rounds (start flags : BitVec 64) :
    ∀ (js : List Nat) (s : Space),
      let t := js.foldl (fun s j => s.setPageProtection (pageAt start j) flags) s
      Opens s t ∧ (∀ p, p ∉ loopPages start js → t.pages p = s.pages p) ∧
        (flags.getLsbD 2 = true → ∀ p ∈ loopPages start js, present (s.pages p) = true →
          (t.pages p).getLsbD 2 = true) := by
  intro js
  induction js with
  | nil =>
    intro s
    refine ⟨Opens.refl s, fun _ _ => rfl, ?_⟩
    rintro _ p ⟨j, hj, _⟩
    exact absurd hj not_mem_nil
  | cons j js ih =>
    intro s
    have hround := setPageProtection_opens s (pageAt start j) flags
    rcases ih (s.setPageProtection (pageAt start j) flags) with ⟨hopens, hsame, huser⟩
    rw [loopPages_cons]
    refine ⟨hround.trans hopens, ?_, ?_⟩
    · intro p hp
      have hne : p ≠ pageOf (pageAt start j) := fun heq => hp (.inl heq)
      exact (hsame p fun hin => hp (.inr hin)).trans (setPageProtection_other hne)
    · rintro hflag p (rfl | hp) hpresent
      · exact hopens.getLsbD_of (setPageProtection_user hflag hpresent)
      · exact huser hflag p hp (hround.getLsbD_of hpresent)

lemma Fresh.opens (h : Fresh s₀ s M) (hopens : Opens s t)
    (hsame : ∀ p, p ∉ M → t.pages p = s.pages p) : Fresh s₀ t M where
  nodup := hopens.supply ▸ h.nodup
  supply := hopens.supply ▸ h.supply
  mapped := fun p hp =>
    ⟨hopens.getLsbD_of (h.mapped p hp).1, hopens.getLsbD_of (h.mapped p hp).2⟩
  taken := fun p hp => by
    rw [hopens.getFrame_eq, hopens.supply]
    exact h.taken p hp
  distinct := fun p hp q hq hpq => by
    rw [hopens.getFrame_eq, hopens.getFrame_eq] at hpq
    exact h.distinct p hp q hq hpq
  pages := fun p hp => (hsame p hp).trans (h.pages p hp)
  bytes := fun f hf => by
    rw [hopens.bytes]
    exact h.bytes f hf

end Opening

/-! ## A segment -/

/-- The image of a segment: every byte of it is open to user code, the first `p_filesz` bytes are
those of the file at `header`, and the others are zero. -/
def Image (r : Initrd) (header base : BitVec 64) (ph : Phdr) (s : Space) : Prop :=
  ∀ k < ph.pMemsz.toNat,
    present (s.pages (pageOf (segmentByte base ph k))) = true ∧
      (s.pages (pageOf (segmentByte base ph k))).getLsbD 2 = true ∧
      s.readByte (segmentByte base ph k) =
        if k < ph.pFilesz.toNat then
          r.mem (Initrd.memberData header + ph.pOffset + BitVec.ofNat 64 k)
        else
          0#8

section Segment

variable {r : Initrd} {fileName : List (BitVec 8)} {header base : BitVec 64} {ph : Phdr}
  {s t : Space}

/-- The parts of a segment that was loaded. -/
lemma loadSegment_true (h : loadSegment r fileName base ph s = some (true, t)) :
    (ph.pMemsz = 0#64 ∧ t = s) ∨
      ∃ u v src, Chain (fun j s t => addPage (base + ph.pVaddr) j s = some (true, t))
          (List.range (Types.divCeil ph.pMemsz 4096#64).toNat) s u ∧
        r.readFile fileName ph.pOffset ph.pFilesz = some src ∧
        u.memcpy r.mem (base + ph.pVaddr) src ph.pFilesz.toNat = some v ∧
        t = protect (base + ph.pVaddr) (segmentFlags ph.pFlags)
          (Types.divCeil ph.pMemsz 4096#64).toNat v := by
  unfold loadSegment at h
  split at h
  · next hzero =>
    cases h
    exact .inl ⟨hzero, rfl⟩
  · simp only at h
    split at h
    · cases h
    · cases h
    · next u hloop =>
      split at h
      · cases h
      · next src hread =>
        split at h
        · cases h
        · next v hcopy =>
          cases h
          exact .inr ⟨u, v, src, loop_chain hloop, hread, hcopy, rfl⟩

lemma addPages_other {start : BitVec 64} {js : List Nat}
    (h : Chain (fun j s t => addPage start j s = some (true, t)) js s t) {p : BitVec 36}
    (hp : p ∉ loopPages start js) : t.pages p = s.pages p := by
  induction h with
  | nil s => rfl
  | cons hround _ ih =>
    rw [loopPages_cons] at hp
    rcases addPage_true hround with ⟨frame, supply, _, _, hpages, _⟩
    rw [ih fun hin => hp (.inr hin), hpages,
      update_of_ne fun heq => hp (.inl heq)]

lemma memcpy_pages {mem : BitVec 64 → BitVec 8} {dest src : BitVec 64} {n : Nat}
    (h : s.memcpy mem dest src n = some t) : t.pages = s.pages :=
  ((exec_chain h).collects (I := fun u => u.pages = s.pages) (Q := fun _ _ => True)
    (fun _ _ _ _ hu hwrite =>
      ⟨(writeByte_some hwrite).1.trans hu, trivial, fun _ _ => trivial⟩) rfl).1

lemma loadSegment_other (h : loadSegment r fileName base ph s = some (true, t)) {p : BitVec 36}
    (hp : p ∉ mappedPages base ph) : t.pages p = s.pages p := by
  rcases loadSegment_true h with ⟨_, rfl⟩ | ⟨u, v, src, hadd, _, hcopy, rfl⟩
  · rfl
  · rw [protect, (protect_rounds _ _ _ v).2.1 p hp, memcpy_pages hcopy]
    exact addPages_other hadd hp

/-- One segment is in memory as the file has it. -/
lemma loadSegment_image (hfind : r.find fileName = some header) (hlower : InLowerHalf base ph)
    (hpages : mappedPages base ph = segmentPages base ph)
    (hsize : ph.pFilesz.toNat ≤ ph.pMemsz.toNat) (hnodup : s.supply.Nodup)
    (h : loadSegment r fileName base ph s = some (true, t)) :
    Fresh s t (segmentPages base ph) ∧ Image r header base ph t := by
  rcases loadSegment_true h with ⟨hzero, rfl⟩ | ⟨u, v, src, hadd, hread, hcopy, rfl⟩
  · have hempty : segmentPages base ph = ∅ := by simp [segmentPages, hzero]
    rw [hempty]
    refine ⟨Fresh.refl hnodup, ?_⟩
    intro k hk
    rw [hzero] at hk
    exact absurd hk (Nat.not_lt_zero k)
  · have hloop : loopPages (base + ph.pVaddr)
        (List.range (Types.divCeil ph.pMemsz 4096#64).toNat) = segmentPages base ph := hpages
    -- the passes in turn: clear pages, the bytes of the file on them, and the user bit
    rcases Fresh.addPages hadd (Fresh.refl hnodup) fun p hp => absurd hp (notMem_empty p) with
      ⟨hfresh, hzero⟩
    rw [hloop, empty_union] at hfresh hzero
    rcases hfresh.memcpy hlower hsize Set.Subset.rfl hcopy with ⟨hfresh', hcopied, hsame⟩
    rcases protect_rounds (base + ph.pVaddr) (segmentFlags ph.pFlags)
      (List.range (Types.divCeil ph.pMemsz 4096#64).toNat) v with ⟨hopens, hother, huser⟩
    rw [hloop] at hother huser
    refine ⟨hfresh'.opens hopens hother, ?_⟩
    intro k hk
    have hpage : pageOf (segmentByte base ph k) ∈ segmentPages base ph := ⟨k, hk, rfl⟩
    refine ⟨hopens.getLsbD_of (hfresh'.mapped _ hpage).1,
      huser (segmentFlags_user _) _ hpage (hfresh'.mapped _ hpage).1, ?_⟩
    rw [Space.readByte, protect, hopens.byteAt_eq]
    split
    · next hfile =>
      rw [← Initrd.readFile_some hfind hread]
      exact hcopied k hfile
    · next hrest =>
      -- the copy stops before this byte, which is still clear
      rw [hsame _ hpage _ fun l hl ⟨hp, ho⟩ =>
        hrest (hlower.byte_inj (by omega) hk hp ho ▸ hl)]
      exact hzero _ hpage _

/-- Fresh pages elsewhere keep a segment's image. -/
lemma Image.fresh {M : Set (BitVec 36)} (himage : Image r header base ph s)
    (htaken : ∀ p ∈ segmentPages base ph, getFrame (s.pages p) ∉ s.supply) (h : Fresh s t M)
    (hdisjoint : Disjoint (segmentPages base ph) M) :
    Image r header base ph t ∧
      ∀ p ∈ segmentPages base ph, getFrame (t.pages p) ∉ t.supply := by
  have hsame : ∀ p ∈ segmentPages base ph, t.pages p = s.pages p := fun p hp =>
    h.pages p (disjoint_left.1 hdisjoint hp)
  refine ⟨?_, ?_⟩
  · intro k hk
    have hpage : pageOf (segmentByte base ph k) ∈ segmentPages base ph := ⟨k, hk, rfl⟩
    rw [Space.readByte, Space.byteAt, hsame _ hpage, h.bytes _ (htaken _ hpage)]
    exact himage k hk
  · intro p hp hin
    rw [hsame p hp] at hin
    exact htaken p hp (h.supply hin)

end Segment

/-! ## The file -/

def fileHeader (r : Initrd) (header : BitVec 64) : Ehdr :=
  Ehdr.read r.mem (Initrd.memberData header)

def programHeader (r : Initrd) (header : BitVec 64) (i : Nat) : Phdr :=
  Phdr.read r.mem
    (Initrd.memberData header + ((fileHeader r header).ePhoff + phdrSize * BitVec.ofNat 64 i))

def IsLoad (r : Initrd) (header : BitVec 64) (i : Nat) : Prop :=
  i < (fileHeader r header).ePhnum.toNat ∧ (programHeader r header i).pType = ptLoad

/-- A file whose segments are in the lower half when it is loaded at `base`, on pages of their own,
with all their bytes in the file. -/
structure Loadable (r : Initrd) (header base : BitVec 64) : Prop where
  aligned : base.toNat % 4096 = 0
  lower : ∀ i, IsLoad r header i → InLowerHalf base (programHeader r header i)
  disjoint : ∀ i j, IsLoad r header i → IsLoad r header j → i ≠ j →
    Disjoint (segmentPages base (programHeader r header i))
      (segmentPages base (programHeader r header j))
  sizes : ∀ i, IsLoad r header i →
    (programHeader r header i).pFilesz.toNat ≤ (programHeader r header i).pMemsz.toNat
  inside : ∀ i, IsLoad r header i →
    (programHeader r header i).pOffset.toNat + (programHeader r header i).pFilesz.toNat ≤
      (r.memberSize header).toNat

section File

variable {r : Initrd} {fileName : List (BitVec 8)} {wantsLd : Bool} {header base : BitVec 64}
  {l l' : Loader} {i : Nat}

section

variable (hfind : r.find fileName = some header)
include hfind

/-- Only headers of the type `PT_LOAD` change the address space. -/
lemma loadHeader_true
    (h : loadHeader r fileName wantsLd base (fileHeader r header) i l = some (true, l')) :
    ((programHeader r header i).pType = ptLoad ∧
        loadSegment r fileName base (programHeader r header i) l.space = some (true, l'.space)) ∨
      ((programHeader r header i).pType ≠ ptLoad ∧ l'.space = l.space) := by
  unfold loadHeader at h
  split at h
  · cases h
  · next src hread =>
    rw [Initrd.readFile_some hfind hread] at h
    change (if (programHeader r header i).pType = ptInterp then _ else _) = _ at h
    split at h
    · next htype =>
      have hne : (programHeader r header i).pType ≠ ptLoad := by
        rw [htype]
        decide
      refine .inr ⟨hne, ?_⟩
      split at h
      · split at h
        · cases h
        · cases h
          rfl
      · cases h
        rfl
    · split at h
      · next htype =>
        have hne : (programHeader r header i).pType ≠ ptLoad := by
          change (programHeader r header i).pType = ptPhdr at htype
          rw [htype]
          decide
        cases h
        exact .inr ⟨hne, rfl⟩
      · split at h
        · next htype =>
          rcases Option.map_eq_some_iff.1 h with ⟨⟨go, s⟩, hsegment, heq⟩
          cases heq
          exact .inl ⟨htype, hsegment⟩
        · next htype =>
          cases h
          exact .inr ⟨htype, rfl⟩

/-- Loading is a chain over the program headers. -/
lemma loadExecutable_true (h : loadExecutable r fileName wantsLd base l = some (true, l')) :
    ∃ l₁ l₂, l₁.space = l.space ∧ l'.space = l₂.space ∧
      Chain (fun i l l' => loadHeader r fileName wantsLd base (fileHeader r header) i l =
        some (true, l')) (List.range (fileHeader r header).ePhnum.toNat) l₁ l₂ := by
  unfold loadExecutable at h
  split at h
  · cases h
  · next src hread =>
    have hsrc : Ehdr.read r.mem src = fileHeader r header := by
      rw [Initrd.readFile_some hfind hread, BitVec.add_zero]
      rfl
    rw [hsrc] at h
    simp only at h
    split at h
    · cases h
    · cases h
    · next l₂ hloop =>
      cases h
      refine ⟨_, l₂, ?_, rfl, loop_chain hloop⟩
      rfl

/-- Pages outside the LOAD segments are not touched. -/
lemma loadExecutable_other (h : loadExecutable r fileName wantsLd base l = some (true, l'))
    {p : BitVec 36}
    (hp : ∀ i, IsLoad r header i → p ∉ mappedPages base (programHeader r header i)) :
    l'.space.pages p = l.space.pages p := by
  rcases loadExecutable_true hfind h with ⟨l₁, l₂, hstart, hend, hchain⟩
  have hkept := (hchain.collects (I := fun l => l.space.pages p = l₁.space.pages p)
    (Q := fun _ _ => True) (fun i hi l l' hl hround => ?_) rfl).1
  · rw [hend, hkept, hstart]
  · refine ⟨?_, trivial, fun _ _ => trivial⟩
    rcases loadHeader_true hfind hround with ⟨htype, hsegment⟩ | ⟨_, hsame⟩
    · rw [loadSegment_other hsegment (hp i ⟨mem_range.1 hi, htype⟩)]
      exact hl
    · rw [hsame]
      exact hl

/-- All segments are, if no later one overlaps. -/
lemma loadExecutable_images (hfile : Loadable r header base)
    (hfits : ∀ i, IsLoad r header i → Fits (programHeader r header i))
    (hnodup : l.space.supply.Nodup)
    (h : loadExecutable r fileName wantsLd base l = some (true, l')) :
    ∀ i, IsLoad r header i → Image r header base (programHeader r header i) l'.space := by
  rcases loadExecutable_true hfind h with ⟨l₁, l₂, hstart, hend, hchain⟩
  -- a segment once loaded keeps its image, as its frames never return to the supply
  let Loaded : Nat → Loader → Prop := fun i l => IsLoad r header i →
    Image r header base (programHeader r header i) l.space ∧
      ∀ p ∈ segmentPages base (programHeader r header i),
        getFrame (l.space.pages p) ∉ l.space.supply
  have hrun := hchain.collects (I := fun l => l.space.supply.Nodup) (Q := Loaded) ?_
    (hstart ▸ hnodup)
  · intro i hi
    rw [hend]
    exact (hrun.2.1 i (mem_range.2 hi.1) hi).1
  · intro i hi l l' hl hround
    rcases loadHeader_true hfind hround with ⟨htype, hsegment⟩ | ⟨htype, hsame⟩
    · have hload : IsLoad r header i := ⟨mem_range.1 hi, htype⟩
      have hpages := (hfile.lower i hload).mappedPages_eq hfile.aligned (hfits i hload)
      rcases loadSegment_image hfind (hfile.lower i hload) hpages (hfile.sizes i hload) hl
        hsegment with ⟨hfresh, himage⟩
      have hown : Loaded i l' := fun _ => ⟨himage, fun p hp => (hfresh.taken p hp).2⟩
      refine ⟨hfresh.nodup, hown, ?_⟩
      intro j hj hjload
      by_cases hji : j = i
      · exact hji ▸ hown hload
      · rcases hj hjload with ⟨hjimage, hjtaken⟩
        exact hjimage.fresh hjtaken hfresh (hfile.disjoint j i hjload hload hji)
    · have hkeep : ∀ j, Loaded j l → Loaded j l' := by
        intro j hj hjload
        rw [hsame]
        exact hj hjload
      exact ⟨hsame ▸ hl, fun hload => absurd hload.2 htype, hkeep⟩

end

end File

/-- The call returns `true` with the image of every segment in place if no segment needs more pages
than its size alone asks for.  Where one does, and its pages were not open to user code before, its
image is not complete. -/
theorem image_loaded (r : Initrd) (fileName : List (BitVec 8)) (wantsLd : Bool)
    (header base : BitVec 64) (l l' : Loader) (hfind : r.find fileName = some header)
    (hfile : Loadable r header base) (hfresh : l.space.supply.Nodup)
    (hrun : loadExecutable r fileName wantsLd base l = some (true, l')) :
    ((∀ i, IsLoad r header i → Fits (programHeader r header i)) →
        ∀ i, IsLoad r header i → Image r header base (programHeader r header i) l'.space) ∧
      ((∀ i, IsLoad r header i → ∀ p ∈ segmentPages base (programHeader r header i),
          ¬ (present (l.space.pages p) = true ∧ (l.space.pages p).getLsbD 2 = true)) →
        (∀ i, IsLoad r header i → Image r header base (programHeader r header i) l'.space) →
          ∀ i, IsLoad r header i → Fits (programHeader r header i)) := by
  refine ⟨fun hfits => loadExecutable_images hfind hfile hfits hfresh hrun, ?_⟩
  intro hclosed himages i hi
  by_contra hfits
  rcases (hfile.lower i hi).exists_not_mapped hfile.aligned hfits with ⟨k, hk, hmissing⟩
  have hpage : pageOf (segmentByte base (programHeader r header i) k) ∈
      segmentPages base (programHeader r header i) := ⟨k, hk, rfl⟩
  -- no other segment has this page in its loops either
  have hother : ∀ j, IsLoad r header j → pageOf (segmentByte base (programHeader r header i) k) ∉
      mappedPages base (programHeader r header j) := by
    intro j hj hin
    by_cases hji : j = i
    · subst hji
      exact hmissing hin
    · exact Set.disjoint_left.1 (hfile.disjoint j i hj hi hji)
        ((hfile.lower j hj).mappedPages_subset hin) hpage
  rcases himages i hi k hk with ⟨hpresent, huser, _⟩
  rw [loadExecutable_other hfind hrun hother] at hpresent huser
  exact hclosed i hi _ hpage ⟨hpresent, huser⟩

/-! ## A file with one segment -/

/-- An archive with the file `a`, whose one segment has 8 bytes in the file and 16 in memory. -/
def oneSegment (vaddr : BitVec 64) (addr : BitVec 64) : BitVec 8 :=
  match addr.toNat - 4096 with
  | 0 => 97#8
  | 124 => 48#8 | 125 => 48#8 | 126 => 48#8 | 127 => 48#8 | 128 => 48#8 | 129 => 48#8
  | 130 => 48#8 | 131 => 48#8 | 132 => 50#8 | 133 => 48#8 | 134 => 48#8
  | 544 => 64#8
  | 568 => 1#8
  | 576 => 1#8
  | 580 => 6#8
  | 584 => 120#8
  | 592 => vaddr.extractLsb' 0 8
  | 593 => vaddr.extractLsb' 8 8
  | 594 => vaddr.extractLsb' 16 8
  | 608 => 8#8
  | 616 => 16#8
  | 632 => 1#8 | 633 => 2#8 | 634 => 3#8 | 635 => 4#8 | 636 => 5#8 | 637 => 6#8 | 638 => 7#8
  | 639 => 8#8
  | _ => 0#8

def oneSegmentInitrd (vaddr : BitVec 64) : Initrd :=
  ⟨oneSegment vaddr, [4096#64]⟩

def emptyLoader : Loader where
  space := ⟨fun _ => 0#64, fun _ _ => 0#8, [frameAt 1, frameAt 2], []⟩
  aux := ⟨0#64, 0#64, 0#64, 0#64⟩
  ldPath := none

lemma emptyLoader_nodup : emptyLoader.space.supply.Nodup := by
  decide

section OneSegment

variable {vaddr : BitVec 64}

/-- The sample file. -/
lemma oneSegment_loadable
    (hheader : fileHeader (oneSegmentInitrd vaddr) 4096#64 = ⟨0#64, 64#64, 1#16⟩)
    (hsegment : programHeader (oneSegmentInitrd vaddr) 4096#64 0 =
      ⟨1#32, 6#32, 120#64, vaddr, 8#64, 16#64⟩)
    (hsize : (oneSegmentInitrd vaddr).memberSize 4096#64 = 128#64) (hlow : vaddr.toNat < 2 ^ 46) :
    Loadable (oneSegmentInitrd vaddr) 4096#64 0#64 := by
  have honly : ∀ i, IsLoad (oneSegmentInitrd vaddr) 4096#64 i → i = 0 := by
    rintro i ⟨hi, _⟩
    rw [hheader] at hi
    exact Nat.lt_one_iff.1 hi
  refine ⟨by decide, ?_, ?_, ?_, ?_⟩
  · intro i hi k hk
    rw [honly i hi, hsegment] at hk ⊢
    rw [BitVec.zero_add]
    change k < 16 at hk
    change vaddr.toNat + k < 2 ^ 47
    omega
  · intro i j hi hj hij
    exact absurd ((honly i hi).trans (honly j hj).symm) hij
  · intro i hi
    rw [honly i hi, hsegment]
    exact (by decide : 8 ≤ 16)
  · intro i hi
    rw [honly i hi, hsegment, hsize]
    exact (by decide : 120 + 8 ≤ 128)

end OneSegment

/-- The segment at the start of a page. -/
theorem image_loaded_aligned :
    ∃ l', loadExecutable (oneSegmentInitrd 0x400000#64) [97#8] false 0#64 emptyLoader =
        some (true, l') ∧
      ∀ i, IsLoad (oneSegmentInitrd 0x400000#64) 4096#64 i →
        Image (oneSegmentInitrd 0x400000#64) 4096#64 0#64
          (programHeader (oneSegmentInitrd 0x400000#64) 4096#64 i) l'.space := by
  have hsegment : programHeader (oneSegmentInitrd 0x400000#64) 4096#64 0 =
      ⟨1#32, 6#32, 120#64, 0x400000#64, 8#64, 16#64⟩ := by
    decide
  have hheader : fileHeader (oneSegmentInitrd 0x400000#64) 4096#64 = ⟨0#64, 64#64, 1#16⟩ := by
    decide
  have hdone : (loadExecutable (oneSegmentInitrd 0x400000#64) [97#8] false 0#64
      emptyLoader).map Prod.fst = some true := by
    decide
  rcases Option.map_eq_some_iff.1 hdone with ⟨⟨go, l'⟩, hrun, hgo⟩
  cases hgo
  refine ⟨l', hrun, (image_loaded _ _ _ _ _ _ _ (by decide)
    (oneSegment_loadable hheader hsegment (by decide) (by decide)) emptyLoader_nodup hrun).1 ?_⟩
  rintro i ⟨hi, _⟩
  rw [hheader] at hi
  rw [Nat.lt_one_iff.1 hi, hsegment]
  decide

/-- Eight bytes before the end of a page, the same segment gets one page instead of two. -/
theorem image_not_loaded :
    ¬ ∀ (r : Initrd) (fileName : List (BitVec 8)) (wantsLd : Bool) (header base : BitVec 64)
      (l l' : Loader), r.find fileName = some header → Loadable r header base →
        l.space.supply.Nodup → loadExecutable r fileName wantsLd base l = some (true, l') →
          ∀ i, IsLoad r header i → Image r header base (programHeader r header i) l'.space := by
  intro hclaim
  have hsegment : programHeader (oneSegmentInitrd 0x400ff8#64) 4096#64 0 =
      ⟨1#32, 6#32, 120#64, 0x400ff8#64, 8#64, 16#64⟩ := by
    decide
  have hheader : fileHeader (oneSegmentInitrd 0x400ff8#64) 4096#64 = ⟨0#64, 64#64, 1#16⟩ := by
    decide
  have hfind : (oneSegmentInitrd 0x400ff8#64).find [97#8] = some 4096#64 := by decide
  have hdone : (loadExecutable (oneSegmentInitrd 0x400ff8#64) [97#8] false 0#64
      emptyLoader).map Prod.fst = some true := by
    decide
  rcases Option.map_eq_some_iff.1 hdone with ⟨⟨go, l'⟩, hrun, hgo⟩
  cases hgo
  have hload : IsLoad (oneSegmentInitrd 0x400ff8#64) 4096#64 0 := by
    refine ⟨?_, ?_⟩
    · rw [hheader]
      decide
    · rw [hsegment]
      decide
  have himage := hclaim _ _ _ _ _ _ _ hfind
    (oneSegment_loadable hheader hsegment (by decide) (by decide)) emptyLoader_nodup hrun 0 hload
  rw [hsegment] at himage
  -- byte 8 is the first one of the second page
  have hpresent := (himage 8 (by decide)).1
  rw [loadExecutable_other hfind hrun] at hpresent
  · exact absurd hpresent (by decide)
  · rintro i ⟨hi, _⟩ ⟨j, hj, hpage⟩
    rw [hheader] at hi
    rw [Nat.lt_one_iff.1 hi, hsegment] at hj hpage
    have hj0 : j = 0 := Nat.lt_one_iff.1 (List.mem_range.1 hj)
    subst hj0
    exact absurd hpage (by decide)

end SigmaOS.Proc.Elf
