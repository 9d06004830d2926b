import SigmaOS.Mm.HeapAlignment

/-!
# Mm.HeapRequests — requests of any size

`alloc` adds the size of the header to the size that was asked for, and the sum to the offset, in
64 bits.  `Fits` is the condition on a call under which neither wraps: a free block is large
enough, or the new block ends below `2 ^ 64`.  A call that does not meet it gets a pointer all the
same, to a block that goes beyond the end of the address space.
-/

namespace SigmaOS.Mm.Alloc

open Lib Option
open Mm.Pmm (blockSize u64 u64_of_lt)

namespace Heap

/-- `get_free_block` has a block for the request. -/
def Reusable (h : Heap) (size : Nat) : Prop :=
  ∃ a ∈ h.made, ∃ hd, h.mem a = some hd ∧ hd.isFree = true ∧ size ≤ hd.size

def FitsNew (h : Heap) (size align : Nat) : Prop :=
  h.offset + align - 1 < 2 ^ 64 ∧ alignUp h.offset align + (size + headerSize) < 2 ^ 64

def FitsAlloc (h : Heap) (size : Nat) : Prop :=
  size = 0 ∨ h.Reusable size ∨ h.FitsNew size 64

variable {h h' : Heap} {size align p ptr : Nat}

lemma Reusable.found (hi : h.Inv) (hreuse : h.Reusable size) : getFreeBlock size h ≠ some none := by
  rcases hreuse with ⟨a, ha, hd, hmem, hfree, hfit⟩
  intro hnone
  rw [getFreeBlock, hi.visitHeaders_eq] at hnone
  have hlook := List.findSome?_eq_none_iff.1 (Option.some.inj hnone) a ha
  simp [hmem, hfree, hfit] at hlook

/-! ## No call that fits overflows -/

lemma FitsNew.reserve (hfits : h.FitsNew size align) :
    (h.reserve (size + headerSize) align).overflowed = h.overflowed := by
  have hboth : h.offset + align - 1 < 2 ^ 64 ∧
      alignUp h.offset align + (size + headerSize) < 2 ^ 64 := hfits
  show (h.overflowed || !decide (h.offset + align - 1 < 2 ^ 64 ∧
    alignUp h.offset align + (size + headerSize) < 2 ^ 64)) = h.overflowed
  rw [decide_eq_true hboth, Bool.not_true, Bool.or_false]

lemma newBlock_overflowed (hs : newBlock size align h = some (p, h')) :
    h'.overflowed = (h.reserve (size + headerSize) align).overflowed := by
  rcases newBlock_cases hs with ⟨h₁, hgrow, ⟨_, _, rfl⟩ | ⟨_, happ⟩⟩
  · exact (growPages_erodes hgrow).overflowed
  · exact (appendHeader_overflowed happ).trans (growPages_erodes hgrow).overflowed

lemma alloc_overflowed (hi : h.Inv) (hfits : h.FitsAlloc size)
    (hs : alloc size h = some (p, h')) : h'.overflowed = h.overflowed := by
  by_cases hsize : size = 0
  · have hpair : 0 = p ∧ h = h' := by simpa [alloc, hsize] using hs
    rw [hpair.2]
  rcases alloc_cases hi hsize hs with ⟨hnone, hnew⟩ | ⟨a, _, _, _, _, _, _, rfl⟩
  · rcases hfits.resolve_left hsize with hreuse | hfits
    · exact absurd hnone (hreuse.found hi)
    · rw [newBlock_overflowed hnew, hfits.reserve]
  · rfl

/-- A header has room behind the pages that were made. -/
lemma Inv.appendHeader_defined {h₁ : Heap} {block : Nat} (hi : h.Inv) (hup : h.offset ≤ block)
    (hg : (h.reserve (size + headerSize) align).Grown h₁) :
    ∃ h₂, Alloc.appendHeader block size h₁ = some h₂ := by
  have htail : (h₁.addHeader block size).tail = h.tail := hg.tail
  by_cases hnil : h.tail = 0
  · exact ⟨_, by rw [Alloc.appendHeader]; exact if_pos (htail.trans hnil)⟩
  · have ht : h.tail ∈ h.made := by
      refine hi.tail_mem fun hmade => hnil ?_
      rw [hi.tail, hmade]
      rfl
    rcases hi.stored ht with ⟨hd, hmem⟩
    have hend := hi.below _ ht
    have hbeyond := hi.paged.beyond
    have hhead := header_le_endAt (h := h) (a := h.tail)
    have hkept : (h₁.addHeader block size).mem h.tail = some hd := by
      refine (setHeader_apart (.inl (by omega))).trans ?_
      exact (hg.mem h.tail (show h.tail + headerSize ≤ h.pageOffset by omega)).trans hmem
    rw [Alloc.appendHeader]
    rw [htail, if_neg hnil, hkept]
    exact ⟨_, rfl⟩

/-- A request that does not fit below `2 ^ 64` gets a block that ends behind it. -/
lemma alloc_beyond (hi : h.Inv) (hsize : size ≠ 0) (hreuse : ¬ h.Reusable size)
    (hover : 2 ^ 64 < alignUp h.offset 64 + (size + headerSize))
    (hlast : alignUp h.offset 64 + (size + headerSize) + blockSize < 2 ^ 65) :
    ∃ p h', alloc size h = some (p, h') ∧ p ≠ 0 ∧ 2 ^ 64 < p + size := by
  have hnone : getFreeBlock size h = some none := by
    rcases getFreeBlock_spec hi size with hnone | ⟨a, ha, hd, _, hmem, hfree, hfit⟩
    · exact hnone
    · exact absurd ⟨a, ha, hd, hmem, hfree, hfit⟩ hreuse
  have hfits := hi.paged.fits
  have haligned := hi.paged.aligned
  rcases hi.alignUp_offset with ⟨hup, hzero⟩
  -- the offset has wrapped and lies before the last page, so the loop of `morecore` ends
  have hwrapped : (h.reserve (size + headerSize) 64).offset =
      alignUp h.offset 64 + (size + headerSize) - 2 ^ 64 := by
    show (alignUp h.offset 64 + (size + headerSize)) % 2 ^ 64 = _
    omega
  have hroom : (h.reserve (size + headerSize) 64).offset + blockSize < 2 ^ 64 := by
    omega
  have hfuel : (h.reserve (size + headerSize) 64).offset <
      (h.reserve (size + headerSize) 64).pageOffset + 2 ^ 52 * blockSize := by
    simp only [blockSize] at *
    omega
  rcases growPages_defined hroom hfuel with ⟨h₁, hgrow⟩
  have hg : (h.reserve (size + headerSize) 64).Grown h₁ := growPages_spec haligned hfits hgrow
  rcases hi.appendHeader_defined hup hg with ⟨h₂, happ⟩
  have hgrow' : growPages pageFuel (h.reserve (size + headerSize) 64) = some h₁ := hgrow
  refine ⟨alignUp h.offset 64 + headerSize, h₂, ?_, by omega, by omega⟩
  simp [alloc, hsize, hnone, newBlock, morecore, hgrow', hzero, happ]

end Heap

namespace World

variable {w w' : World} {op : Op} {size p : Nat} {h : Heap}

/-- The addresses that a call computes do not wrap. -/
def Fits (w : World) : Op → Prop
  | .alloc size => w.heap.FitsAlloc size
  | .allocA size align => w.heap.FitsNew size align
  | .realloc ptr size =>
    (ptr ≠ 0 ∧ ∃ hd, w.heap.mem (ptr - headerSize) = some hd ∧ size ≤ hd.size) ∨
      w.heap.FitsAlloc size
  | .free _ => True
  | .store _ _ _ => True

/-- A `realloc` that fits does not overflow. -/
lemma Inv.noOverflow_realloc {ptr : Nat} (hi : w.Inv) (hflag : w.heap.overflowed = false)
    (hfits : w.Fits (.realloc ptr size)) :
    w.NoOverflow (.realloc ptr size) := by
  intro w' hs
  rcases map_eq_some_iff.1 hs with ⟨out, hout, rfl⟩
  show out.2.overflowed = false
  rcases Heap.realloc_cases hout with
    ⟨_, _, hfreed⟩ | ⟨_, hptr, halloc⟩ | ⟨_, hptr, hd, hmem, ⟨_, rfl⟩ | ⟨_, rfl⟩ |
      ⟨hfit, ret, h₁, halloc, hmove⟩⟩
  · exact (Heap.free_overflowed hfreed).trans hflag
  · have hfits' := hfits.resolve_left fun hstay => hstay.1 hptr
    exact (Heap.alloc_overflowed hi.heap hfits' halloc).trans hflag
  · exact hflag
  · exact hflag
  · -- the block has to be moved
    have hfits' : w.heap.FitsAlloc size := by
      refine hfits.resolve_left ?_
      rintro ⟨_, hd', hmem', hle⟩
      exact hfit (Option.some.inj (hmem.symm.trans hmem') ▸ hle)
    exact (Heap.moveBlock_overflowed hmove).trans
      ((Heap.alloc_overflowed hi.heap hfits' halloc).trans hflag)

/-- No request that fits overflows. -/
lemma Inv.noOverflow (hi : w.Inv) (hflag : w.heap.overflowed = false) (hfits : w.Fits op) :
    w.NoOverflow op := by
  cases op with
  | alloc size =>
    intro w' hs
    rcases map_eq_some_iff.1 hs with ⟨out, hout, rfl⟩
    exact (Heap.alloc_overflowed hi.heap hfits hout).trans hflag
  | allocA size align =>
    intro w' hs
    rcases map_eq_some_iff.1 hs with ⟨out, hout, rfl⟩
    exact (Heap.newBlock_overflowed hout).trans ((Heap.FitsNew.reserve hfits).trans hflag)
  | realloc ptr size => exact hi.noOverflow_realloc hflag hfits
  | free ptr =>
    intro w' hs
    rcases map_eq_some_iff.1 hs with ⟨h', hfreed, rfl⟩
    exact (Heap.free_overflowed hfreed).trans hflag
  | store ptr first len =>
    intro w' hs
    cases hs
    exact hflag

lemma run_inv {mem : Nat → Option Header}
    (hrun : Run World.step (fun w op => w.Allowed op ∧ w.Fits op) (World.start mem) w) :
    w.Inv ∧ w.heap.overflowed = false := by
  refine hrun.invariant (I := fun w => w.Inv ∧ w.heap.overflowed = false)
    ⟨start_inv mem, rfl⟩ ?_
  rintro t op u ⟨hi, hflag⟩ ⟨hok, hfits⟩ hs
  have hno := hi.noOverflow hflag hfits
  exact ⟨hi.step hok hno hs, hno u hs⟩

/-- What the caller of `alloc` may expect of the answer `p`, `h` being the heap after the call: the
block lies in the address space and in mapped pages, without a live block or a header in it; or the
pointer is null, and all blocks are as they were. -/
structure Served (w : World) (size p : Nat) (h : Heap) : Prop where
  inside : p ≠ 0 → p + size ≤ 2 ^ 64
  mapped : p ≠ 0 → ∀ x ∈ Set.Ico p (p + size), x / blockSize * blockSize ∈ h.mapped
  live : p ≠ 0 → ∀ q n, w.live q = some n → Disjoint (Set.Ico p (p + size)) (Set.Ico q (q + n))
  headers : p ≠ 0 → ∀ a ∈ h.made, Disjoint (Set.Ico p (p + size)) (Set.Ico a (a + headerSize))
  intact : p = 0 → h.made = w.heap.made ∧ ∀ a ∈ w.heap.made, h.mem a = w.heap.mem a

/-- The block that is returned is large enough and in use by nobody else. -/
lemma Inv.served (hi : w.Inv) (hsize : size ≠ 0) (hs : Alloc.alloc size w.heap = some (p, h))
    (hno : h.overflowed = false) : w.Served size p h := by
  rcases Heap.alloc_spec hi.heap hsize hs hno with ⟨a, rfl, hh⟩
  have hout : (a + headerSize, h).1 = a + headerSize := rfl
  have hsafe := (hi.handed hout hh).safe
  have hlive : (w.hand 0 (a + headerSize, h) size).live =
      Function.update w.live (a + headerSize) (some size) := by
    simp [hand]
  have hself : (w.hand 0 (a + headerSize, h) size).live (a + headerSize) = some size := by
    rw [hlive, Function.update_self]
  refine ⟨?_, ?_, ?_, ?_, ?_⟩
  · intro _
    rcases hh.block with ⟨hd, hmem, _, hfit⟩
    have hend := hh.inv.below a hh.mem
    rw [Heap.endAt_eq hmem] at hend
    have hoffset := hh.inv.paged.beyond
    have hpage := hh.inv.paged.fits
    omega
  · intro _ x hx
    exact hsafe.mapped _ _ x hself hx
  · intro _ q n hq
    -- the block was free, so no live pointer leads to it
    have hne : q ≠ a + headerSize := by
      rintro rfl
      rw [hh.not_live hi.holds] at hq
      cases hq
    refine hsafe.disjoint _ _ q n hself ?_ hne.symm
    rw [hlive, Function.update_of_ne hne]
    exact hq
  · intro _ b hb
    exact hsafe.headers _ _ b hself hb
  · intro hzero
    simp at hzero

end World

/-- In every reachable state whose calls have all fitted, a request of any size that fits is served.
One that does not is answered with a block that exceeds the address space, as long as the end that
`morecore` computes does not wrap into the last page. -/
theorem requests_served {mem : Nat → Option Header} {w : World}
    (hrun : Run World.step (fun w op => w.Allowed op ∧ w.Fits op) (World.start mem) w) {size : Nat}
    (hsize : 1 ≤ size) :
    (w.Fits (.alloc size) → ∀ p h, alloc size w.heap = some (p, h) → w.Served size p h) ∧
      (¬ w.heap.Reusable size → 2 ^ 64 < alignUp w.heap.offset 64 + (size + headerSize) →
        alignUp w.heap.offset 64 + (size + headerSize) + blockSize < 2 ^ 65 →
        ∃ p h, alloc size w.heap = some (p, h) ∧ ¬ w.Served size p h) := by
  rcases World.run_inv hrun with ⟨hi, hflag⟩
  have hpos : size ≠ 0 := Nat.ne_of_gt hsize
  refine ⟨?_, ?_⟩
  · intro hfits p h hs
    exact hi.served hpos hs ((Heap.alloc_overflowed hi.heap hfits hs).trans hflag)
  · intro hreuse hover hlast
    rcases Heap.alloc_beyond hi.heap hpos hreuse hover hlast with ⟨p, h, hs, hp, hbeyond⟩
    exact ⟨p, h, hs, fun hserved => absurd (hserved.inside hp) (Nat.not_le.2 hbeyond)⟩

theorem requests_served_sample :
    ∃ w, exec World.step (World.start fun _ => none) [.alloc 16] = some w ∧
      ∀ p h, alloc 5000 w.heap = some (p, h) → w.Served 5000 p h := by
  have hsteps : ∃ w, (World.start fun _ => none).step (.alloc 16) = some w ∧
      w.heap.offset = heapBase + 80 :=
    ⟨_, rfl, rfl⟩
  rcases hsteps with ⟨w, hs, hoffset⟩
  have hfirst : (World.start fun _ => none).Fits (.alloc 16) :=
    Or.inr (Or.inr ⟨by decide, by decide⟩)
  have hsecond : w.Fits (.alloc 5000) := by
    refine Or.inr (Or.inr ?_)
    unfold Heap.FitsNew
    rw [hoffset]
    decide
  have hrun : Run World.step (fun w op => w.Allowed op ∧ w.Fits op)
      (World.start fun _ => none) w := by
    refine Run.single ?_ hs
    exact ⟨trivial, hfirst⟩
  exact ⟨w, by simp [exec, hs], (requests_served hrun (by decide)).1 hsecond⟩

/-- The largest size of all, on the fresh heap: with the header it wraps to 63. -/
theorem requests_not_served :
    ¬ ∀ (mem : Nat → Option Header) (w : World) (size : Nat),
      Run World.step World.Allowed (World.start mem) w → 1 ≤ size → size < 2 ^ 64 →
        ∀ p h, alloc size w.heap = some (p, h) → w.Served size p h := by
  intro hall
  have halloc : ∃ h, alloc (2 ^ 64 - 1) (World.start fun _ => none).heap = some (heapBase + 64, h) :=
    ⟨_, rfl⟩
  rcases halloc with ⟨h, hs⟩
  have hserved := hall _ _ (2 ^ 64 - 1) (Run.refl _) (by decide) (by decide) _ h hs
  exact absurd (hserved.inside (by decide)) (by decide)

end SigmaOS.Mm.Alloc
