import Mathlib.Data.Finset.Card
import Mathlib.Data.List.Pairwise
import Mathlib.Data.Nat.Bitwise
import SigmaOS.Mm.Heap

/-!
# Mm.HeapLayout — how the blocks of the heap lie

`Heap.Inv` is what all functions of the heap keep: the headers are a null-terminated list in the order
of their addresses, each block ends before the next one starts, and everything up to the offset is
mapped.  Since a new block is always made at the end, the list and the layout grow together.

What a write does to it depends on where it goes: `Retouched` is a write into the data of a block or
into the `is_free` field of a header, `growPages_spec` the pages that are cleared behind the last
block.
-/

namespace SigmaOS.Mm.Alloc

open Lib List
open Mm.Pmm (blockSize u64 u64_of_lt)

/-- Masking with a power of two rounds down. -/
lemma alignDown_two_pow {n k : Nat} (hn : n < 2 ^ 64) (hk : k < 64) :
    alignDown n (2 ^ k) = n - n % 2 ^ k := by
  have hpow : 2 ^ k * 2 ^ (64 - k) = 2 ^ 64 := by
    rw [← Nat.pow_add, Nat.add_sub_cancel' (Nat.le_of_lt hk)]
  have hmask : 2 ^ 64 - 1 - (2 ^ k - 1) = 2 ^ k * (2 ^ (64 - k) - 1) := by
    have hpos : 0 < 2 ^ k := Nat.two_pow_pos k
    rw [Nat.mul_sub, hpow, Nat.mul_one]
    omega
  have hround : n - n % 2 ^ k = 2 ^ k * (n / 2 ^ k) := by
    have hsplit := Nat.div_add_mod n (2 ^ k)
    omega
  rw [alignDown, hmask, hround]
  refine Nat.eq_of_testBit_eq fun i => ?_
  rw [Nat.testBit_and, Nat.testBit_two_pow_mul, Nat.testBit_two_pow_mul, Nat.testBit_div_two_pow,
    Nat.testBit_two_pow_sub_one]
  by_cases hki : k ≤ i
  · rw [Nat.sub_add_cancel hki]
    by_cases hi : i < 64
    · have hlt : i - k < 64 - k := by omega
      simp [hki, hlt]
    · -- above bit 63 there is nothing in the number
      have hpow' : 2 ^ 64 ≤ 2 ^ i := Nat.pow_le_pow_right Nat.two_pos (Nat.le_of_not_lt hi)
      simp [Nat.testBit_lt_two_pow (Nat.lt_of_lt_of_le hn hpow')]
  · simp [hki]

lemma alignUp_bounds {n align : Nat} (halign : ∃ k, k < 64 ∧ align = 2 ^ k)
    (hfit : n + align - 1 < 2 ^ 64) : n ≤ alignUp n align ∧ alignUp n align < n + align := by
  rcases halign with ⟨k, hk, rfl⟩
  rw [alignUp, u64_of_lt hfit, alignDown_two_pow hfit hk]
  omega

lemma overwrite_apart {lo len a : Nat} {mem : Nat → Option Header}
    (h : a + headerSize ≤ lo ∨ lo + len ≤ a) : overwrite lo len mem a = mem a := by
  have hnot : ¬ (0 < len ∧ a < lo + len ∧ lo < a + headerSize) := by omega
  simp [overwrite, hnot]

namespace Heap

variable {h h' : Heap} {a b : Nat} {hd : Header}

@[simp] lemma setHeader_self : (h.setHeader a hd).mem a = some hd := by
  simp [setHeader]

lemma setHeader_apart (hab : b + headerSize ≤ a ∨ a + headerSize ≤ b) :
    (h.setHeader a hd).mem b = h.mem b := by
  have hne : b ≠ a := by
    rintro rfl
    simp only [headerSize] at hab
    omega
  simp only [setHeader, Function.update_of_ne hne]
  exact overwrite_apart hab

/-! ## The invariant -/

def endAt (h : Heap) (a : Nat) : Nat :=
  match h.mem a with
  | none => a + headerSize
  | some hd => a + headerSize + hd.size

lemma endAt_eq (hmem : h.mem a = some hd) : h.endAt a = a + headerSize + hd.size := by
  simp [endAt, hmem]

lemma header_le_endAt : a + headerSize ≤ h.endAt a := by
  cases hmem : h.mem a with
  | none => simp [endAt, hmem]
  | some hd =>
    rw [endAt_eq hmem]
    exact Nat.le_add_right _ _

/-- The pages from `start` on have been mapped up to the page offset. -/
structure Paged (h : Heap) (start : Nat) : Prop where
  beyond : h.offset < h.pageOffset
  aligned : h.pageOffset % blockSize = 0
  fits : h.pageOffset < 2 ^ 64
  mapped : ∀ x, start ≤ x → x < h.pageOffset → x / blockSize * blockSize ∈ h.mapped

structure Inv (h : Heap) : Prop where
  list : Segment h.mem Header.next h.head h.made 0
  tail : h.tail = h.made.getLast?.getD 0
  magic : ∀ a ∈ h.made, ∀ hd, h.mem a = some hd → hd.checkMagic = true
  layout : h.made.Pairwise fun a b => h.endAt a ≤ b
  start : heapBase ≤ h.offset
  above : ∀ a ∈ h.made, heapBase ≤ a
  below : ∀ a ∈ h.made, h.endAt a ≤ h.offset
  paged : h.Paged heapBase

namespace Inv

section

variable (hi : h.Inv)
include hi

lemma stored (ha : a ∈ h.made) : ∃ hd, h.mem a = some hd :=
  hi.list.stored a ha

lemma apart (ha : a ∈ h.made) (hb : b ∈ h.made) (hab : a ≠ b) :
    h.endAt a ≤ b ∨ h.endAt b ≤ a := by
  have hsym : h.made.Pairwise fun a b => h.endAt a ≤ b ∨ h.endAt b ≤ a :=
    hi.layout.imp fun hle => .inl hle
  have : Std.Symm fun a b => h.endAt a ≤ b ∨ h.endAt b ≤ a := ⟨fun _ _ => Or.symm⟩
  exact hsym.forall ha hb hab

lemma headers_apart (ha : a ∈ h.made) (hb : b ∈ h.made) (hab : b ≠ a) :
    b + headerSize ≤ a ∨ a + headerSize ≤ b := by
  rcases hi.apart hb ha hab with hle | hle
  · exact .inl (Nat.le_trans header_le_endAt hle)
  · exact .inr (Nat.le_trans header_le_endAt hle)

lemma data_apart (ha : a ∈ h.made) (hb : b ∈ h.made) {lo len : Nat} (hlo : a + headerSize ≤ lo)
    (hlen : lo + len ≤ h.endAt a) : b + headerSize ≤ lo ∨ lo + len ≤ b := by
  by_cases hba : b = a
  · exact .inl (hba ▸ hlo)
  · rcases hi.apart hb ha hba with hle | hle
    · have hhead := header_le_endAt (h := h) (a := b)
      exact .inl (by omega)
    · exact .inr (Nat.le_trans hlen hle)

lemma nodup : h.made.Nodup := by
  refine hi.layout.imp ?_
  intro a b hab
  have hhead := header_le_endAt (h := h) (a := a)
  have hlt : a < b := by
    simp only [headerSize] at hhead
    omega
  exact Nat.ne_of_lt hlt

lemma pos (ha : a ∈ h.made) : a ≠ 0 := by
  have hbase := hi.above a ha
  simp only [heapBase] at hbase
  omega

lemma zero_notMem : 0 ∉ h.made :=
  fun hin => hi.pos hin rfl

lemma length_lt : h.made.length < listFuel := by
  have hsub : h.made.toFinset ⊆ Finset.range h.offset := by
    intro a ha
    have hmade : a ∈ h.made := mem_toFinset.1 ha
    have hend := hi.below a hmade
    have hhead := header_le_endAt (h := h) (a := a)
    simp only [headerSize] at hhead
    exact Finset.mem_range.2 (by omega)
  have hcard := Finset.card_le_card hsub
  rw [toFinset_card_of_nodup hi.nodup, Finset.card_range] at hcard
  have hoffset := hi.paged.beyond
  have hpage := hi.paged.fits
  show h.made.length < 2 ^ 64
  omega

lemma tail_mem (hne : h.made ≠ []) : h.tail ∈ h.made := by
  rw [hi.tail, List.getLast?_eq_some_getLast hne]
  exact getLast_mem hne

lemma visitHeaders_eq {R : Type} (look : Nat → Header → Option R) :
    visitHeaders look h = some (firstAnswer h.mem look h.made) :=
  hi.list.visit_eq hi.zero_notMem hi.length_lt

end

end Inv

/-! ## Small changes -/

/-- From `h` to `h'` the headers have changed in `is_free` at most. -/
structure Retouched (h h' : Heap) : Prop where
  head : h'.head = h.head
  tail : h'.tail = h.tail
  made : h'.made = h.made
  offset : h'.offset = h.offset
  pageOffset : h'.pageOffset = h.pageOffset
  mapped : h'.mapped = h.mapped
  headers : ∀ a ∈ h.made, ∀ hd, h.mem a = some hd →
    ∃ hd', h'.mem a = some hd' ∧ hd'.next = hd.next ∧ hd'.size = hd.size ∧
      hd'.checkMagic = hd.checkMagic

lemma Inv.endAt_same (hi : h.Inv) (ha : a ∈ h.made)
    (hsame : ∀ hd, h.mem a = some hd → ∃ hd', h'.mem a = some hd' ∧ hd'.size = hd.size) :
    h'.endAt a = h.endAt a := by
  rcases hi.stored ha with ⟨hd, hmem⟩
  rcases hsame hd hmem with ⟨hd', hmem', hsize⟩
  rw [endAt_eq hmem, endAt_eq hmem', hsize]

/-- The invariant is about the links, the sizes and the magic numbers only. -/
lemma Inv.congr (hi : h.Inv) (hhead : h'.head = h.head) (htail : h'.tail = h.tail)
    (hmade : h'.made = h.made) (hoffset : h.offset ≤ h'.offset) (hpaged : h'.Paged heapBase)
    (hheaders : ∀ a ∈ h.made, ∀ hd, h.mem a = some hd →
      ∃ hd', h'.mem a = some hd' ∧ hd'.next = hd.next ∧ hd'.size = hd.size ∧
        hd'.checkMagic = hd.checkMagic) : h'.Inv := by
  have hends : ∀ a ∈ h.made, h'.endAt a = h.endAt a := fun a ha =>
    hi.endAt_same ha fun hd hmem => (hheaders a ha hd hmem).imp fun _ hd' => ⟨hd'.1, hd'.2.2.1⟩
  refine ⟨?_, ?_, ?_, ?_, Nat.le_trans hi.start hoffset, hmade ▸ hi.above, ?_, hpaged⟩
  · rw [hhead, hmade]
    refine hi.list.congr fun a ha hd hmem => ?_
    rcases hheaders a ha hd hmem with ⟨hd', hmem', hnext, _⟩
    exact ⟨hd', hmem', hnext⟩
  · rw [htail, hmade]
    exact hi.tail
  · intro a ha hd' hmem'
    rw [hmade] at ha
    rcases hi.stored ha with ⟨hd, hmem⟩
    rcases hheaders a ha hd hmem with ⟨hd'', hmem'', _, _, hmagic⟩
    rw [Option.some.inj (hmem'.symm.trans hmem''), hmagic]
    exact hi.magic a ha hd hmem
  · rw [hmade]
    refine hi.layout.imp_of_mem ?_
    intro a b ha _ hab
    rw [hends a ha]
    exact hab
  · rw [hmade]
    intro a ha
    rw [hends a ha]
    exact Nat.le_trans (hi.below a ha) hoffset

lemma Paged.congr {start : Nat} (hp : h.Paged start) (hoffset : h'.offset = h.offset)
    (hpage : h'.pageOffset = h.pageOffset) (hmapped : h'.mapped = h.mapped) : h'.Paged start := by
  rcases hp with ⟨hbeyond, haligned, hfits, hin⟩
  rw [← hpage] at hbeyond haligned hfits hin
  exact ⟨hoffset ▸ hbeyond, haligned, hfits, hmapped ▸ hin⟩

lemma Retouched.inv (hr : h.Retouched h') (hi : h.Inv) : h'.Inv :=
  hi.congr hr.head hr.tail hr.made (Nat.le_of_eq hr.offset.symm)
    (hi.paged.congr hr.offset hr.pageOffset hr.mapped) hr.headers

lemma Inv.setFree (hi : h.Inv) (ha : a ∈ h.made) (hmem : h.mem a = some hd) (isFree : Bool) :
    h.Retouched (h.setHeader a { hd with isFree := isFree }) := by
  refine ⟨rfl, rfl, rfl, rfl, rfl, rfl, ?_⟩
  intro b hb hd' hmem'
  by_cases hba : b = a
  · subst hba
    rw [← Option.some.inj (hmem.symm.trans hmem')]
    exact ⟨_, setHeader_self, rfl, rfl, rfl⟩
  · exact ⟨hd', (setHeader_apart (hi.headers_apart ha hb hba)).trans hmem', rfl, rfl, rfl⟩

lemma Inv.setFree_other (hi : h.Inv) (ha : a ∈ h.made) (hb : b ∈ h.made) (hba : b ≠ a) :
    (h.setHeader a hd).mem b = h.mem b :=
  setHeader_apart (hi.headers_apart ha hb hba)

variable {fuel : Nat} {h : Heap}

lemma Inv.fill_same (hi : h.Inv) (ha : a ∈ h.made) (hb : b ∈ h.made) {lo len : Nat}
    (hlo : a + headerSize ≤ lo) (hlen : lo + len ≤ h.endAt a) : (h.fill lo len).mem b = h.mem b :=
  overwrite_apart (hi.data_apart ha hb hlo hlen)

lemma Inv.fill (hi : h.Inv) (ha : a ∈ h.made) {lo len : Nat} (hlo : a + headerSize ≤ lo)
    (hlen : lo + len ≤ h.endAt a) : h.Retouched (h.fill lo len) :=
  ⟨rfl, rfl, rfl, rfl, rfl, rfl, fun _ hb hd hmem =>
    ⟨hd, (hi.fill_same ha hb hlo hlen).trans hmem, rfl, rfl, rfl⟩⟩

/-- From `h` to `h'` pages have been mapped and cleared behind the page offset. -/
structure Grown (h h' : Heap) : Prop where
  head : h'.head = h.head
  tail : h'.tail = h.tail
  made : h'.made = h.made
  offset : h'.offset = h.offset
  overflowed : h'.overflowed = h.overflowed
  mem : ∀ a, a + headerSize ≤ h.pageOffset → h'.mem a = h.mem a
  pages : ∀ p ∈ h.mapped, p ∈ h'.mapped
  paged : h'.Paged h.pageOffset

/-- One more page. -/
lemma Grown.round (haligned : h.pageOffset % blockSize = 0)
    (hfits : h.pageOffset + blockSize < 2 ^ 64)
    (hg : (h.fill h.pageOffset blockSize).mapPage.Grown h') : h.Grown h' := by
  have hnext : (h.fill h.pageOffset blockSize).mapPage.pageOffset = h.pageOffset + blockSize :=
    u64_of_lt hfits
  refine ⟨hg.head, hg.tail, hg.made, hg.offset, hg.overflowed, ?_, ?_, ?_⟩
  · intro a ha
    rw [hg.mem a (by rw [hnext]; exact Nat.le_trans ha (Nat.le_add_right _ _))]
    exact overwrite_apart (.inl ha)
  · intro p hp
    exact hg.pages p (mem_cons_of_mem _ hp)
  · refine ⟨hg.paged.beyond, hg.paged.aligned, hg.paged.fits, ?_⟩
    intro x hlo hhi
    by_cases hx : x < h.pageOffset + blockSize
    · -- the page that this round has mapped
      have hpage : x / blockSize * blockSize = h.pageOffset := by
        simp only [blockSize] at *
        omega
      rw [hpage]
      exact hg.pages _ mem_cons_self
    · exact hg.paged.mapped x (by rw [hnext]; exact Nat.le_of_not_lt hx) hhi

/-- At the top of the address space the page loop does not end. -/
lemma growPages_endless (hoffset : 2 ^ 64 - blockSize ≤ h.offset)
    (haligned : h.pageOffset % blockSize = 0) (hfits : h.pageOffset < 2 ^ 64) :
    growPages fuel h = none := by
  induction fuel generalizing h with
  | zero => rfl
  | succ fuel ih =>
    have hle : h.pageOffset ≤ h.offset := by
      simp only [blockSize] at *
      omega
    rw [growPages, if_pos hle]
    refine ih hoffset ?_ (Nat.mod_lt _ (Nat.two_pow_pos 64))
    show (h.pageOffset + blockSize) % 2 ^ 64 % blockSize = 0
    simp only [blockSize] at *
    omega

/-- The loop maps pages up to the new end. -/
lemma growPages_spec (haligned : h.pageOffset % blockSize = 0) (hfits : h.pageOffset < 2 ^ 64)
    (hs : growPages fuel h = some h') : h.Grown h' := by
  induction fuel generalizing h with
  | zero => cases hs
  | succ fuel ih =>
    by_cases hlast : 2 ^ 64 - blockSize ≤ h.offset
    · rw [growPages_endless hlast haligned hfits] at hs
      cases hs
    unfold growPages at hs
    split at hs
    · next hle =>
      have hroom : h.pageOffset + blockSize < 2 ^ 64 := by
        omega
      have hnext : (h.fill h.pageOffset blockSize).mapPage.pageOffset =
          h.pageOffset + blockSize := u64_of_lt hroom
      refine Grown.round haligned hroom (ih ?_ (hnext ▸ hroom) hs)
      rw [hnext, Nat.add_mod_right]
      exact haligned
    · next hle =>
      cases hs
      exact ⟨rfl, rfl, rfl, rfl, rfl, fun _ _ => rfl, fun _ hp => hp,
        Nat.lt_of_not_le hle, haligned, hfits, fun x hlo hhi => absurd hlo (Nat.not_le.2 hhi)⟩

/-- With room left the page loop ends. -/
lemma growPages_defined {n : Nat} (hroom : h.offset + blockSize < 2 ^ 64)
    (hend : h.offset < h.pageOffset + n * blockSize) : ∃ h', growPages (n + 1) h = some h' := by
  induction n generalizing h with
  | zero =>
    have hnot : ¬ h.pageOffset ≤ h.offset := by omega
    exact ⟨h, by simp [growPages, hnot]⟩
  | succ n ih =>
    by_cases hle : h.pageOffset ≤ h.offset
    · have hnext : (h.fill h.pageOffset blockSize).mapPage.pageOffset =
          h.pageOffset + blockSize :=
        u64_of_lt (Nat.lt_of_le_of_lt (Nat.add_le_add_right hle _) hroom)
      have hlater : h.offset < (h.fill h.pageOffset blockSize).mapPage.pageOffset +
          n * blockSize := by
        rw [Nat.succ_mul] at hend
        omega
      rcases ih (h := (h.fill h.pageOffset blockSize).mapPage) hroom hlater with ⟨h', hs⟩
      exact ⟨h', by rw [growPages, if_pos hle, hs]⟩
    · exact ⟨h, by simp [growPages, hle]⟩

end Heap

end SigmaOS.Mm.Alloc
