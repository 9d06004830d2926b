import SigmaOS.Mm.HeapSafety

/-!
# Mm.HeapAlignment — the alignment of heap pointers

`morecore` aligns the header of a new block, and the caller gets the address behind the header, 64 bytes
later.  So an alignment of more than 64 is lost, and a block with an alignment of less than 64 may lie
anywhere: once it has been given back, `alloc` hands it out to a caller that expects a multiple of 64.

`Linked` is what the functions keep whatever their callers do, overflows included: the links lead to
headers that were made, and those of them that are free lie at multiples of 64.
-/

namespace SigmaOS.Mm.Alloc

open Lib List Option
open Mm.Pmm (blockSize u64)

/-! ## Rounding -/

lemma dvd_alignUp {align n : Nat} (halign : ∃ k, k < 64 ∧ align = 2 ^ k) :
    align ∣ alignUp n align := by
  rcases halign with ⟨k, hk, rfl⟩
  have hfits : u64 (n + 2 ^ k - 1) < 2 ^ 64 := Nat.mod_lt _ (Nat.two_pow_pos 64)
  rw [alignUp, alignDown_two_pow hfits hk]
  exact Nat.dvd_sub_mod _

namespace Heap

variable {h h' : Heap} {a block size align ptr p : Nat} {hd : Header}

structure Linked (h : Heap) : Prop where
  head : h.head = 0 ∨ h.head ∈ h.made
  tail : h.tail = 0 ∨ h.tail ∈ h.made
  next : ∀ a ∈ h.made, ∀ hd, h.mem a = some hd → hd.next = 0 ∨ hd.next ∈ h.made
  free : ∀ a ∈ h.made, ∀ hd, h.mem a = some hd → hd.isFree = true → 64 ∣ a

/-- From `h` to `h'` headers have been lost at most. -/
structure Erodes (h h' : Heap) : Prop where
  head : h'.head = h.head
  tail : h'.tail = h.tail
  made : h'.made = h.made
  overflowed : h'.overflowed = h.overflowed
  mem : ∀ a hd, h'.mem a = some hd → h.mem a = some hd

lemma Erodes.linked (he : h.Erodes h') (hl : h.Linked) : h'.Linked := by
  refine ⟨?_, ?_, ?_, ?_⟩
  · rw [he.head, he.made]
    exact hl.head
  · rw [he.tail, he.made]
    exact hl.tail
  · rw [he.made]
    exact fun a ha hd hmem => hl.next a ha hd (he.mem a hd hmem)
  · rw [he.made]
    exact fun a ha hd hmem => hl.free a ha hd (he.mem a hd hmem)

lemma Erodes.trans {h'' : Heap} (he : h.Erodes h') (he' : h'.Erodes h'') : h.Erodes h'' :=
  ⟨he'.head.trans he.head, he'.tail.trans he.tail, he'.made.trans he.made,
    he'.overflowed.trans he.overflowed, fun a hd hmem => he.mem a hd (he'.mem a hd hmem)⟩

lemma overwrite_some {lo len : Nat} {mem : Nat → Option Header}
    (hmem : overwrite lo len mem a = some hd) : mem a = some hd := by
  unfold overwrite at hmem
  split at hmem
  · cases hmem
  · exact hmem

lemma fill_erodes (lo len : Nat) : h.Erodes (h.fill lo len) :=
  ⟨rfl, rfl, rfl, rfl, fun _ _ hmem => overwrite_some hmem⟩

/-- Growing by pages adds no header and changes none. -/
lemma growPages_erodes {fuel : Nat} {h : Heap} (hs : growPages fuel h = some h') :
    h.Erodes h' := by
  induction fuel generalizing h with
  | zero => cases hs
  | succ fuel ih =>
    by_cases hle : h.pageOffset ≤ h.offset
    · have hrest := ih (by simpa [growPages, hle] using hs)
      have hround : h.Erodes (h.fill h.pageOffset blockSize).mapPage :=
        ⟨rfl, rfl, rfl, rfl, fun _ _ hmem => overwrite_some hmem⟩
      exact hround.trans hrest
    · have heq : h = h' := by simpa [growPages, hle] using hs
      exact heq ▸ ⟨rfl, rfl, rfl, rfl, fun _ _ hmem => hmem⟩

/-- A header is rewritten in place. -/
lemma Linked.setHeader (hl : h.Linked) (hnext : a ∈ h.made → hd.next = 0 ∨ hd.next ∈ h.made)
    (hfree : a ∈ h.made → hd.isFree = true → 64 ∣ a) : (h.setHeader a hd).Linked := by
  have hmem : ∀ b hd', (h.setHeader a hd).mem b = some hd' →
      b = a ∧ hd' = hd ∨ h.mem b = some hd' := by
    intro b hd' hb
    by_cases hba : b = a
    · subst hba
      exact .inl ⟨rfl, Option.some.inj (hb.symm.trans setHeader_self)⟩
    · have hkept : overwrite a headerSize h.mem b = some hd' := by
        simpa [Heap.setHeader, hba] using hb
      exact .inr (overwrite_some hkept)
  refine ⟨hl.head, hl.tail, ?_, ?_⟩
  · intro b hb hd' hb'
    rcases hmem b hd' hb' with ⟨rfl, rfl⟩ | hold
    · exact hnext hb
    · exact hl.next b hb hd' hold
  · intro b hb hd' hb' hf
    rcases hmem b hd' hb' with ⟨rfl, rfl⟩ | hold
    · exact hfree hb hf
    · exact hl.free b hb hd' hold hf

/-- A header is added behind the last one. -/
lemma Linked.addHeader (hl : h.Linked) : (h.addHeader block size).Linked := by
  have hgrown : Linked { h with
      head := if h.head = 0 then block else h.head
      made := h.made ++ [block]
      mem := overwrite block headerSize h.mem } := by
    have hsub : ∀ {b}, b ∈ h.made → b ∈ h.made ++ [block] := fun hb => mem_append_left _ hb
    have hold : ∀ a ∈ h.made ++ [block], ∀ hd, overwrite block headerSize h.mem a = some hd →
        a ∈ h.made ∧ h.mem a = some hd := by
      intro b hb hd' hmem
      refine ⟨(mem_append.1 hb).resolve_right ?_, overwrite_some hmem⟩
      -- what was at the place of the new header is gone
      intro hblock
      rw [mem_singleton.1 hblock] at hmem
      simp [overwrite, headerSize] at hmem
    refine ⟨?_, hl.tail.imp_right hsub, ?_, ?_⟩
    · by_cases hhead : h.head = 0
      · exact .inr (by simp [hhead])
      · exact .inr (by simpa [hhead] using .inl (hl.head.resolve_left hhead))
    · intro b hb hd' hmem
      rcases hold b hb hd' hmem with ⟨hb', hmem'⟩
      exact (hl.next b hb' hd' hmem').imp_right hsub
    · intro b hb hd' hmem
      rcases hold b hb hd' hmem with ⟨hb', hmem'⟩
      exact hl.free b hb' hd' hmem'
  refine ⟨hgrown.head, hgrown.tail, ?_, ?_⟩
  · intro b hb hd' hmem
    by_cases hbb : b = block
    · subst hbb
      rw [← Option.some.inj (setHeader_self.symm.trans hmem)]
      exact .inl rfl
    · exact hgrown.next b hb hd' (by simpa [Heap.addHeader, Heap.setHeader, hbb] using hmem)
  · intro b hb hd' hmem hf
    by_cases hbb : b = block
    · subst hbb
      rw [← Option.some.inj (setHeader_self.symm.trans hmem)] at hf
      cases hf
    · exact hgrown.free b hb hd' (by simpa [Heap.addHeader, Heap.setHeader, hbb] using hmem) hf

lemma Linked.appendHeader (hl : h.Linked) (hs : appendHeader block size h = some h') :
    h'.Linked := by
  have hadded : (h.addHeader block size).Linked := hl.addHeader
  have hblock : block ∈ (h.addHeader block size).made :=
    mem_append_right _ (mem_singleton.2 rfl)
  rcases appendHeader_cases hs with rfl | ⟨hd, hmem, rfl⟩
  · exact ⟨hadded.head, .inr hblock, hadded.next, hadded.free⟩
  · have hlinked : ((h.addHeader block size).setHeader (h.addHeader block size).tail
        { hd with next := block }).Linked :=
      hadded.setHeader (fun _ => .inr hblock) fun ht => hadded.free _ ht hd hmem
    exact ⟨hlinked.head, .inr hblock, hlinked.next, hlinked.free⟩

lemma newBlock_linked (hl : h.Linked) (hs : newBlock size align h = some (p, h')) :
    h'.Linked ∧ (p = 0 ∨ p = alignUp h.offset align + headerSize) := by
  rcases newBlock_cases hs with ⟨h₁, hgrow, hends⟩
  have hl₁ : h₁.Linked := by
    refine (growPages_erodes hgrow).linked ?_
    exact ⟨hl.head, hl.tail, hl.next, hl.free⟩
  rcases hends with ⟨_, hp, rfl⟩ | ⟨hp, happ⟩
  · exact ⟨hl₁, .inl hp⟩
  · exact ⟨hl₁.appendHeader happ, .inr hp⟩

/-- What `alloc` returns is aligned, reused or new. -/
lemma alloc_linked (hl : h.Linked) (hs : alloc size h = some (p, h')) : h'.Linked ∧ 64 ∣ p := by
  unfold alloc at hs
  split at hs
  · cases hs
    exact ⟨hl, Nat.dvd_zero 64⟩
  split at hs
  · cases hs
  · rcases newBlock_linked hl hs with ⟨hl', rfl | rfl⟩
    · exact ⟨hl', Nat.dvd_zero 64⟩
    · exact ⟨hl', (Nat.dvd_add_iff_left (Nat.dvd_refl 64)).1 (dvd_alignUp ⟨6, by decide, rfl⟩)⟩
  next a hfound =>
  -- the block that is handed out again is a free one of the list
  have hnext : ∀ x n, x ∈ h.made → h.mem x = some n → n.next = 0 ∨ n.next ∈ h.made :=
    fun x n hx hn => hl.next x hx n hn
  rcases visit_some hnext hl.head hfound with ⟨x, hd, hx, hmem, hlook⟩
  rcases ite_none_right_eq_some.1 hlook with ⟨hfit, hxa⟩
  cases hxa
  have hboth : hd.isFree = true ∧ size ≤ hd.size := by simpa using hfit
  have haligned : 64 ∣ a := hl.free a hx hd hmem hboth.1
  simp only [hmem] at hs
  split at hs
  · cases hs
    exact ⟨hl.setHeader (fun _ => hl.next a hx hd hmem) fun _ hf => absurd hf (by simp),
      (Nat.dvd_add_iff_left (Nat.dvd_refl 64)).1 haligned⟩
  · cases reportCorruption_eq hs
    exact ⟨hl, Nat.dvd_zero 64⟩

lemma free_linked (hl : h.Linked) (hptr : 64 ∣ ptr) (hs : Alloc.free ptr h = some h') :
    h'.Linked := by
  rcases free_cases hs with rfl | ⟨hd, hmem, rfl⟩
  · exact hl
  · exact hl.setHeader (fun ha => hl.next _ ha hd hmem)
      fun _ _ => Nat.dvd_sub hptr (Nat.dvd_refl 64)

lemma moveBlock_linked {ret : Nat} (hl : h.Linked) (hptr : 64 ∣ ptr) (hret : 64 ∣ ret)
    (hs : moveBlock ptr ret h = some (p, h')) : h'.Linked ∧ 64 ∣ p := by
  rcases moveBlock_cases hs with ⟨hp, hcase⟩
  have hp' : p = ret := hp
  refine ⟨?_, hp' ▸ hret⟩
  rcases hcase with hsame | ⟨len, hfreed⟩
  · have hsame' : h' = h := hsame
    exact hsame' ▸ hl
  · exact free_linked ((fill_erodes ret len).linked hl) hptr hfreed

/-- `realloc` keeps the list linked and returns an aligned pointer. -/
lemma realloc_linked (hl : h.Linked) (hptr : 64 ∣ ptr) (hs : realloc ptr size h = some (p, h')) :
    h'.Linked ∧ 64 ∣ p := by
  rcases realloc_cases hs with
    ⟨_, rfl, hfreed⟩ | ⟨_, _, halloc⟩ | ⟨_, _, hd, _, ⟨_, heq⟩ | ⟨_, heq⟩ |
      ⟨_, ret, h₁, halloc, hmove⟩⟩
  · exact ⟨free_linked hl hptr hfreed, Nat.dvd_zero 64⟩
  · exact alloc_linked hl halloc
  · cases heq
    exact ⟨hl, Nat.dvd_zero 64⟩
  · cases heq
    exact ⟨hl, hptr⟩
  · rcases alloc_linked hl halloc with ⟨hl₁, hret⟩
    exact moveBlock_linked hl₁ hptr hret hmove

end Heap

/-! ## Runs -/

/-- No alignment is larger than a header, and only multiples of 64 are given back or resized. -/
def Op.Regular : Op → Prop
  | .alloc _ => True
  | .allocA _ align => align ∣ 64
  | .realloc ptr _ => 64 ∣ ptr
  | .free ptr => 64 ∣ ptr
  | .store _ _ _ => True

namespace World

variable {w w' : World} {op : Op}

/-- The pointer that a call returns now is aligned as its caller expects; null always is. -/
def Aligned (w : World) : Op → Prop
  | .alloc size => ∀ p h, alloc size w.heap = some (p, h) → 64 ∣ p
  | .allocA size align => ∀ p h, allocA size align w.heap = some (p, h) → align ∣ p
  | .realloc ptr size => ∀ p h, realloc ptr size w.heap = some (p, h) → 64 ∣ p
  | .free _ => True
  | .store _ _ _ => True

/-- Every regular operation keeps the list linked. -/
lemma step_linked (hl : w.heap.Linked) (hop : op.Regular) (hs : w.step op = some w') :
    w'.heap.Linked := by
  cases op with
  | alloc size =>
    rcases map_eq_some_iff.1 hs with ⟨out, hout, rfl⟩
    exact (Heap.alloc_linked hl hout).1
  | allocA size align =>
    rcases map_eq_some_iff.1 hs with ⟨out, hout, rfl⟩
    exact (Heap.newBlock_linked hl hout).1
  | realloc ptr size =>
    rcases map_eq_some_iff.1 hs with ⟨out, hout, rfl⟩
    exact (Heap.realloc_linked hl hop hout).1
  | free ptr =>
    rcases map_eq_some_iff.1 hs with ⟨h', hout, rfl⟩
    exact Heap.free_linked hl hop hout
  | store ptr first len =>
    cases hs
    exact (Heap.fill_erodes _ _).linked hl

lemma start_linked (mem : Nat → Option Header) : (start mem).heap.Linked :=
  ⟨.inl rfl, .inl rfl, nofun,
    nofun⟩

lemma allocA_aligned_iff {size align p : Nat} {h : Heap} (hl : w.heap.Linked)
    (halign : ∃ k, k < 64 ∧ align = 2 ^ k) (hs : allocA size align w.heap = some (p, h))
    (hp : p ≠ 0) : align ∣ p ↔ align ∣ 64 := by
  have hptr : p = alignUp w.heap.offset align + headerSize :=
    (Heap.newBlock_linked hl hs).2.resolve_left hp
  rw [hptr]
  exact (Nat.dvd_add_iff_right (dvd_alignUp halign)).symm

lemma aligned_of_linked (hl : w.heap.Linked) (hop : op.Regular) (hallowed : w.Allowed op) :
    w.Aligned op := by
  cases op with
  | alloc size => exact fun p h hs => (Heap.alloc_linked hl hs).2
  | allocA size align =>
    intro p h hs
    by_cases hp : p = 0
    · exact hp ▸ Nat.dvd_zero align
    · exact (allocA_aligned_iff hl hallowed hs hp).2 hop
  | realloc ptr size => exact fun p h hs => (Heap.realloc_linked hl hop hs).2
  | free ptr => trivial
  | store ptr first len => trivial

end World

/-- In every sequence of calls with alignments up to 64 in which only multiples of 64 are given back or
resized, every pointer that is returned is aligned; and `alloc_a` returns a multiple of an alignment
only if that is one up to 64. -/
theorem pointers_aligned {mem : Nat → Option Header} {w : World}
    (hrun : Run World.step (fun w op => w.Allowed op ∧ op.Regular) (World.start mem) w) :
    (∀ op, w.Allowed op → op.Regular → w.Aligned op) ∧
      ∀ size align p h, (∃ k, k < 64 ∧ align = 2 ^ k) → allocA size align w.heap = some (p, h) →
        p ≠ 0 → (align ∣ p ↔ align ∣ 64) := by
  have hl : w.heap.Linked :=
    hrun.invariant (I := fun w => w.heap.Linked) (World.start_linked mem)
      fun _ _ _ ht hok hs => World.step_linked ht hok.2 hs
  exact ⟨fun op hallowed hop => World.aligned_of_linked hl hop hallowed,
    fun size align p h halign hs hp => World.allocA_aligned_iff hl halign hs hp⟩

theorem pointers_aligned_sample :
    ∃ w, exec World.step (World.start fun _ => none) [.alloc 16, .allocA 512 16] = some w ∧
      w.Aligned (.alloc 100) := by
  have hsteps : ∃ w₁ w₂, (World.start fun _ => none).step (.alloc 16) = some w₁ ∧
      w₁.step (.allocA 512 16) = some w₂ :=
    ⟨_, _, rfl, rfl⟩
  rcases hsteps with ⟨w₁, w₂, hs₁, hs₂⟩
  have hrun : Run World.step (fun w op => w.Allowed op ∧ op.Regular)
      (World.start fun _ => none) w₂ := by
    refine Run.tail (Run.single ?_ hs₁) ?_ hs₂
    · exact ⟨trivial, trivial⟩
    · exact ⟨⟨4, by decide, rfl⟩, ⟨4, rfl⟩⟩
  exact ⟨w₂, by simp [exec, hs₁, hs₂], (pointers_aligned hrun).1 (.alloc 100) trivial trivial⟩

/-- A block with the alignment 16, as `simd` asks for it, is given back and used again by `alloc`. -/
theorem pointers_not_aligned :
    ¬ ∀ (mem : Nat → Option Header) (w : World) (op : Op),
      Run World.step World.Allowed (World.start mem) w → w.Allowed op → w.Aligned op := by
  intro hall
  have hsteps : ∃ w₁ w₂ w₃ h, (World.start fun _ => none).step (.alloc 16) = some w₁ ∧
      w₁.step (.allocA 512 16) = some w₂ ∧ w₂.step (.free (heapBase + 144)) = some w₃ ∧
      w₂.live (heapBase + 144) = some 512 ∧ alloc 512 w₃.heap = some (heapBase + 144, h) :=
    ⟨_, _, _, _, rfl, rfl, rfl, rfl, rfl⟩
  rcases hsteps with ⟨w₁, w₂, w₃, h, hs₁, hs₂, hs₃, hlive, halloc⟩
  have hrun : Run World.step World.Allowed (World.start fun _ => none) w₃ := by
    refine Run.tail (Run.tail (Run.single ?_ hs₁) ?_ hs₂) ?_ hs₃
    · trivial
    · exact ⟨4, by decide, rfl⟩
    · exact Or.inr ⟨512, hlive⟩
  have hdvd : 64 ∣ heapBase + 144 := hall _ w₃ (.alloc 512) hrun trivial _ _ halloc
  exact absurd hdvd (by decide)

end SigmaOS.Mm.Alloc
