import SigmaOS.Mm.HeapLayout

/-!
# Mm.HeapSpec — what the functions of the heap do

Each function of the heap keeps `Heap.Inv` and says which block it hands out or takes back:
`Appended` is a new block at the end, `Handed` any block that a caller gets.  `Holds` connects the
headers with what the callers hold: behind every live pointer is a block that is in use and large
enough.

The functions return as long as the heap stays clear of the last page of the address space, where the
loop of `morecore` would not end (`alloc_defined`, `realloc_defined`).
-/

namespace SigmaOS.Mm.Alloc

open Function List
open Lib
open Mm.Pmm (blockSize u64 u64_of_lt)

namespace Heap

variable {h h' : Heap} {a b block size align ret ptr : Nat} {hd : Header}

/-! ## A new block -/

lemma morecore_cases (hs : morecore size align h = some (ret, h')) :
    ret = alignUp h.offset align ∧ growPages pageFuel (h.reserve size align) = some h' := by
  unfold morecore at hs
  split at hs
  · cases hs
  next hgrow =>
  cases hs
  exact ⟨rfl, hgrow⟩

/-- More room at the end, and all headers as before. -/
lemma morecore_spec (hi : h.Inv) (halign : ∃ k, k < 64 ∧ align = 2 ^ k)
    (hs : morecore size align h = some (ret, h')) (hno : h'.overflowed = false) :
    h'.Inv ∧ h'.made = h.made ∧ (∀ a ∈ h.made, h'.mem a = h.mem a) ∧ h.offset ≤ ret ∧
      ret + size ≤ h'.offset := by
  rcases morecore_cases hs with ⟨rfl, hgrow⟩
  have hg : (h.reserve size align).Grown h' := growPages_spec hi.paged.aligned hi.paged.fits hgrow
  have hfits : h.offset + align - 1 < 2 ^ 64 ∧ alignUp h.offset align + size < 2 ^ 64 := by
    have hflag : (h.reserve size align).overflowed = false := hg.overflowed ▸ hno
    simpa [reserve] using (Bool.or_eq_false_iff.1 hflag).2
  have hoffset : h'.offset = alignUp h.offset align + size :=
    hg.offset.trans (u64_of_lt hfits.2)
  have hup := (alignUp_bounds halign hfits.1).1
  -- the headers end before the first page that was cleared
  have hmem : ∀ a ∈ h.made, h'.mem a = h.mem a := by
    intro a ha
    have hend := hi.below a ha
    have hhead := header_le_endAt (h := h) (a := a)
    have hpage := hi.paged.beyond
    exact hg.mem a (show a + headerSize ≤ h.pageOffset by omega)
  refine ⟨hi.congr hg.head hg.tail hg.made (by omega)
    ⟨hg.paged.beyond, hg.paged.aligned, hg.paged.fits, ?_⟩
    fun a ha hd hold => ⟨hd, (hmem a ha).trans hold, rfl, rfl, rfl⟩, hg.made, hmem, hup,
    Nat.le_of_eq hoffset.symm⟩
  intro x hlo hhi
  by_cases hx : x < h.pageOffset
  · exact hg.pages _ (hi.paged.mapped x hlo hx)
  · exact hg.paged.mapped x (Nat.le_of_not_lt hx) hhi

structure Appended (h : Heap) (block size : Nat) (h' : Heap) : Prop where
  inv : h'.Inv
  made : h'.made = h.made ++ [block]
  fresh : block ∉ h.made
  header : h'.mem block = some (Header.new size)
  others : ∀ a ∈ h.made, ∀ hd, h.mem a = some hd →
    ∃ hd', h'.mem a = some hd' ∧ hd'.size = hd.size ∧ hd'.isFree = hd.isFree ∧
      hd'.checkMagic = hd.checkMagic

lemma Appended.behind (ha : Appended h block size h') (hi : h.Inv) (hb : b ∈ h.made) :
    h.endAt b ≤ block := by
  have hlayout := ha.inv.layout
  rw [ha.made, pairwise_append] at hlayout
  have hend := hlayout.2.2 b hb block mem_cons_self
  rwa [hi.endAt_same hb fun hd hmem => (ha.others b hb hd hmem).imp fun _ hd' =>
    ⟨hd'.1, hd'.2.1⟩] at hend

/-- A header at the end of the list. -/
lemma Inv.append (hi : h.Inv) (hends : ∀ a ∈ h.made, h.endAt a ≤ block) (hbase : heapBase ≤ block)
    (hroom : block + headerSize + size ≤ h.offset) (hmade : h'.made = h.made ++ [block])
    (htail : h'.tail = block) (hoffset : h'.offset = h.offset)
    (hpages : h'.pageOffset = h.pageOffset ∧ h'.mapped = h.mapped)
    (hnew : h'.mem block = some (Header.new size)) (hold : ∀ a ∈ h.made, ∀ hd, h.mem a = some hd →
      ∃ hd', h'.mem a = some hd' ∧ hd'.size = hd.size ∧ hd'.isFree = hd.isFree ∧
        hd'.checkMagic = hd.checkMagic)
    (hlist : Segment h'.mem Header.next h'.head (h.made ++ [block]) 0) :
    Appended h block size h' := by
  have hend : h'.endAt block = block + headerSize + size := endAt_eq hnew
  have hendAt : ∀ a ∈ h.made, h'.endAt a = h.endAt a := fun a ha =>
    hi.endAt_same ha fun hd hmem => (hold a ha hd hmem).imp fun _ hd' => ⟨hd'.1, hd'.2.1⟩
  have hfresh : block ∉ h.made := by
    intro hin
    have hle := hends block hin
    have hhead := header_le_endAt (h := h) (a := block)
    simp only [headerSize] at hhead
    omega
  refine ⟨⟨?_, ?_, ?_, ?_, ?_, ?_, ?_, ?_⟩, hmade, hfresh, hnew, hold⟩
  · rw [hmade]
    exact hlist
  · rw [htail, hmade, List.getLast?_append]
    rfl
  · rw [hmade]
    intro a ha hd' hmem'
    rcases mem_append.1 ha with hin | hlast
    · rcases hi.stored hin with ⟨hd, hmem⟩
      rcases hold a hin hd hmem with ⟨hd'', hmem'', _, _, hmagic⟩
      rw [Option.some.inj (hmem'.symm.trans hmem''), hmagic]
      exact hi.magic a hin hd hmem
    · rw [mem_singleton.1 hlast] at hmem'
      rw [Option.some.inj (hmem'.symm.trans hnew)]
      rfl
  · rw [hmade, pairwise_append]
    refine ⟨hi.layout.imp_of_mem ?_, pairwise_singleton _ _, ?_⟩
    · intro a b ha _ hab
      rw [hendAt a ha]
      exact hab
    · intro a ha b hb
      rw [hendAt a ha, mem_singleton.1 hb]
      exact hends a ha
  · rw [hoffset]
    exact hi.start
  · rw [hmade]
    intro a ha
    rcases mem_append.1 ha with hin | hlast
    · exact hi.above a hin
    · rw [mem_singleton.1 hlast]
      exact hbase
  · rw [hmade, hoffset]
    intro a ha
    rcases mem_append.1 ha with hin | hlast
    · rw [hendAt a hin]
      exact hi.below a hin
    · rw [mem_singleton.1 hlast, hend]
      exact hroom
  · exact hi.paged.congr hoffset hpages.1 hpages.2

/-- The first header of all. -/
lemma appendHeader_first (hi : h.Inv) (hbase : heapBase ≤ block)
    (hroom : block + headerSize + size ≤ h.offset) (hnil : h.made = []) :
    ∃ h', appendHeader block size h = some h' ∧ Appended h block size h' := by
  have hnew : (h.addHeader block size).mem block = some (Header.new size) := setHeader_self
  have hnone : ∀ a, a ∉ h.made := fun a ha => not_mem_nil (hnil ▸ ha)
  have hhead : h.head = 0 := by
    have hlist := hi.list
    rw [hnil] at hlist
    exact hlist
  have htail : (h.addHeader block size).tail = 0 := by
    show h.tail = 0
    rw [hi.tail, hnil]
    rfl
  refine ⟨{ h.addHeader block size with tail := block }, by simp [appendHeader, htail],
    hi.append (fun a ha => absurd ha (hnone a)) hbase hroom rfl rfl rfl ⟨rfl, rfl⟩ hnew
      (fun a ha => absurd ha (hnone a)) ?_⟩
  have hfirst : (h.addHeader block size).head = block := if_pos hhead
  rw [hnil]
  show Segment (h.addHeader block size).mem Header.next (h.addHeader block size).head [block] 0
  rw [hfirst]
  exact Segment.singleton hnew

lemma Inv.addHeader_head (hi : h.Inv) (hne : h.made ≠ []) :
    (h.addHeader block size).head = h.head := by
  refine if_neg ?_
  have hlist := hi.list
  cases hmade : h.made with
  | nil => exact absurd hmade hne
  | cons x rest =>
    rw [hmade] at hlist
    rw [hlist.1]
    exact hi.pos (by rw [hmade]; exact mem_cons_self)

section

variable (hi : h.Inv) (hends : ∀ a ∈ h.made, h.endAt a ≤ block) (hbase : heapBase ≤ block)
  (hroom : block + headerSize + size ≤ h.offset)
include hi hends hbase hroom

/-- A header is linked behind the last one. -/
lemma appendHeader_link {xs : List Nat} {t : Nat} (hconcat : h.made = xs ++ [t]) :
    ∃ h', appendHeader block size h = some h' ∧ Appended h block size h' := by
  have hnew : (h.addHeader block size).mem block = some (Header.new size) := setHeader_self
  have hold : ∀ a ∈ h.made, (h.addHeader block size).mem a = h.mem a :=
    fun a ha => setHeader_apart (.inl (Nat.le_trans header_le_endAt (hends a ha)))
  have ht : t ∈ h.made := by
    rw [hconcat]
    exact mem_append_right xs mem_cons_self
  have htail : (h.addHeader block size).tail = t := by
    show h.tail = t
    rw [hi.tail, hconcat, List.getLast?_append]
    rfl
  have hhead : (h.addHeader block size).head = h.head :=
    hi.addHeader_head (ne_nil_of_mem ht)
  rcases hi.stored ht with ⟨hdt, hmemt⟩
  have hmem₀ : (h.addHeader block size).mem t = some hdt := (hold t ht).trans hmemt
  let h' : Heap :=
    { (h.addHeader block size).setHeader t { hdt with next := block } with tail := block }
  have hresult : appendHeader block size h = some h' := by
    simp [appendHeader, htail, hi.pos ht, hmem₀, h']
  have hblock : h'.mem block = some (Header.new size) :=
    (setHeader_apart (.inr (Nat.le_trans header_le_endAt (hends t ht)))).trans hnew
  have hlast : h'.mem t = some { hdt with next := block } := setHeader_self
  have hothers : ∀ a ∈ h.made, a ≠ t → h'.mem a = h.mem a :=
    fun a ha hat => (setHeader_apart (hi.headers_apart ht ha hat)).trans (hold a ha)
  refine ⟨h', hresult, hi.append hends hbase hroom rfl rfl rfl ⟨rfl, rfl⟩ hblock ?_ ?_⟩
  · -- of the old headers only the link of the last one has changed
    intro a ha hd hmem
    by_cases hat : a = t
    · subst hat
      rw [← Option.some.inj (hmemt.symm.trans hmem)]
      exact ⟨_, hlast, rfl, rfl, rfl⟩
    · exact ⟨hd, (hothers a ha hat).trans hmem, rfl, rfl, rfl⟩
  · have hnodup := hi.nodup
    rw [hconcat, nodup_append] at hnodup
    have hlist := hi.list
    rw [hconcat] at hlist
    have hxs : ∀ x ∈ xs, ∀ n, h.mem x = some n → ∃ n', h'.mem x = some n' ∧ n'.next = n.next := by
      intro x hx n hmem
      have hxt : x ≠ t := hnodup.2.2 x hx t mem_cons_self
      have hxmade : x ∈ h.made := by
        rw [hconcat]
        exact mem_append_left _ hx
      exact ⟨n, (hothers x hxmade hxt).trans hmem, rfl⟩
    have hrelinked := hlist.relink hxs hlast
    show Segment h'.mem Header.next (h.addHeader block size).head (h.made ++ [block]) 0
    rw [hhead, hconcat]
    exact Segment.append_iff.2 ⟨block, hrelinked, Segment.singleton hblock⟩

lemma appendHeader_spec :
    ∃ h', appendHeader block size h = some h' ∧ Appended h block size h' := by
  rcases eq_nil_or_concat' h.made with hnil | ⟨xs, t, hconcat⟩
  · exact appendHeader_first hi hbase hroom hnil
  · exact appendHeader_link hi hends hbase hroom hconcat

end

lemma appendHeader_cases (hs : appendHeader block size h = some h') :
    h' = { h.addHeader block size with tail := block } ∨
      ∃ hd, (h.addHeader block size).mem (h.addHeader block size).tail = some hd ∧
        h' = { (h.addHeader block size).setHeader (h.addHeader block size).tail
          { hd with next := block } with tail := block } := by
  simp only [appendHeader] at hs
  split at hs
  · exact .inl (Option.some.inj hs).symm
  split at hs
  · cases hs
  next hd hmem =>
  exact .inr ⟨hd, hmem, (Option.some.inj hs).symm⟩

lemma appendHeader_overflowed (hs : appendHeader block size h = some h') :
    h'.overflowed = h.overflowed := by
  rcases appendHeader_cases hs with rfl | ⟨hd, _, rfl⟩
  · rfl
  · rfl

/-- A new block, given the room for it. -/
lemma newBlock_of_morecore {h₁ : Heap} (hi : h.Inv) (halign : ∃ k, k < 64 ∧ align = 2 ^ k)
    (hm : morecore (size + headerSize) align h = some (block, h₁)) (hno : h₁.overflowed = false) :
    ∃ h', newBlock size align h = some (block + headerSize, h') ∧ Appended h block size h' ∧
      h'.overflowed = h₁.overflowed := by
  rcases morecore_spec hi halign hm hno with ⟨hi₁, hmade, hmem, hstart, hroom⟩
  have hends : ∀ a ∈ h₁.made, h₁.endAt a ≤ block := by
    rw [hmade]
    intro a ha
    rw [endAt, hmem a ha]
    exact Nat.le_trans (hi.below a ha) hstart
  have hbase : heapBase ≤ block := Nat.le_trans hi.start hstart
  have hblock : block ≠ 0 := by
    simp only [heapBase] at hbase
    omega
  rcases appendHeader_spec hi₁ hends hbase
    (show block + headerSize + size ≤ h₁.offset by omega) with ⟨h₂, happ, happended⟩
  refine ⟨h₂, by simp [newBlock, hm, hblock, happ], ⟨happended.inv, hmade ▸ happended.made,
    hmade ▸ happended.fresh, happended.header, ?_⟩, appendHeader_overflowed happ⟩
  intro a ha hd hold
  exact happended.others a (hmade.symm ▸ ha) hd ((hmem a ha).trans hold)

/-- The ways in which a block is made. -/
lemma newBlock_cases (hs : newBlock size align h = some (ptr, h')) :
    ∃ h₁, growPages pageFuel (h.reserve (size + headerSize) align) = some h₁ ∧
      (alignUp h.offset align = 0 ∧ ptr = 0 ∧ h' = h₁ ∨
        ptr = alignUp h.offset align + headerSize ∧
          appendHeader (alignUp h.offset align) size h₁ = some h') := by
  unfold newBlock at hs
  split at hs
  · cases hs
  next block h₁ hm =>
  rcases morecore_cases hm with ⟨rfl, hgrow⟩
  refine ⟨h₁, hgrow, ?_⟩
  split at hs
  · next hzero =>
    cases hs
    exact .inl ⟨hzero, rfl, rfl⟩
  split at hs
  · cases hs
  next happ =>
  cases hs
  exact .inr ⟨rfl, happ⟩

/-- A new block is appended to the list. -/
lemma newBlock_spec (hi : h.Inv) (halign : ∃ k, k < 64 ∧ align = 2 ^ k)
    (hs : newBlock size align h = some (ptr, h')) (hno : h'.overflowed = false) :
    ∃ block, ptr = block + headerSize ∧ Appended h block size h' := by
  rcases newBlock_cases hs with ⟨h₁, hgrow, hends⟩
  -- what comes after `morecore` does not touch the offset
  have hno₁ : h₁.overflowed = false := by
    rcases hends with ⟨_, _, rfl⟩ | ⟨_, happ⟩
    · exact hno
    · exact (appendHeader_overflowed happ).symm.trans hno
  have hm : morecore (size + headerSize) align h = some (alignUp h.offset align, h₁) := by
    simp [morecore, hgrow]
  rcases newBlock_of_morecore hi halign hm hno₁ with ⟨h₂, hs₂, happended, _⟩
  have hpair : alignUp h.offset align + headerSize = ptr ∧ h₂ = h' := by simpa [hs₂] using hs
  rcases hpair with ⟨rfl, rfl⟩
  exact ⟨_, rfl, happended⟩

/-! ## A block for a caller -/

/-- A caller gets the block at `a`, which was free or is new. -/
structure Handed (h : Heap) (a size : Nat) (h' : Heap) : Prop where
  inv : h'.Inv
  made : ∀ b ∈ h.made, b ∈ h'.made
  mem : a ∈ h'.made
  block : ∃ hd, h'.mem a = some hd ∧ hd.isFree = false ∧ size ≤ hd.size
  fresh : a ∈ h.made → ∀ hd, h.mem a = some hd → hd.isFree = true
  others : ∀ b ∈ h.made, b ≠ a → ∀ hd, h.mem b = some hd →
    ∃ hd', h'.mem b = some hd' ∧ hd'.size = hd.size ∧ hd'.isFree = hd.isFree

lemma Appended.handed (ha : Appended h block size h') : Handed h block size h' where
  inv := ha.inv
  made := fun b hb => by
    rw [ha.made]
    exact mem_append_left _ hb
  mem := by
    rw [ha.made]
    exact mem_append_right _ mem_cons_self
  block := ⟨Header.new size, ha.header, rfl, Nat.le_refl size⟩
  fresh := fun hin => absurd hin ha.fresh
  others := fun b hb _ hd hmem => by
    rcases ha.others b hb hd hmem with ⟨hd', hmem', hsize, hfree, _⟩
    exact ⟨hd', hmem', hsize, hfree⟩

lemma Handed.ne_used {b : Nat} {hd : Header} (hh : Handed h block size h') (hb : b ∈ h.made)
    (hmem : h.mem b = some hd) (hused : hd.isFree = false) : b ≠ block := by
  rintro rfl
  exact absurd ((hh.fresh hb hd hmem).symm.trans hused) (by simp)

/-- The search finds nothing, or a free block that is large enough. -/
lemma getFreeBlock_spec (hi : h.Inv) (size : Nat) :
    getFreeBlock size h = some none ∨
      ∃ a ∈ h.made, ∃ hd, getFreeBlock size h = some (some a) ∧ h.mem a = some hd ∧
        hd.isFree = true ∧ size ≤ hd.size := by
  have hvisit := hi.visitHeaders_eq fun a hd =>
    if hd.isFree && decide (size ≤ hd.size) then some a else none
  cases hanswer : firstAnswer h.mem
      (fun a hd => if hd.isFree && decide (size ≤ hd.size) then some a else none) h.made with
  | none =>
    rw [hanswer] at hvisit
    exact .inl hvisit
  | some a =>
    rw [hanswer] at hvisit
    rcases firstAnswer_some hanswer with ⟨x, hx, hd, hmem, hlook⟩
    rcases Option.ite_none_right_eq_some.1 hlook with ⟨hfit, hxa⟩
    cases hxa
    have hboth : hd.isFree = true ∧ size ≤ hd.size := by simpa using hfit
    exact .inr ⟨a, hx, hd, hvisit, hmem, hboth.1, hboth.2⟩

lemma alloc_cases (hi : h.Inv) (hsize : size ≠ 0) (hs : alloc size h = some (ptr, h')) :
    getFreeBlock size h = some none ∧ newBlock size 64 h = some (ptr, h') ∨
      ∃ a ∈ h.made, ∃ hd, h.mem a = some hd ∧ hd.isFree = true ∧ size ≤ hd.size ∧
        ptr = a + headerSize ∧ h' = h.setHeader a { hd with isFree := false } := by
  rcases getFreeBlock_spec hi size with hnone | ⟨a, ha, hd, hfound, hmem, hfree, hfit⟩
  · exact .inl ⟨hnone, by simpa [alloc, hsize, hnone] using hs⟩
  · have hpair : a + headerSize = ptr ∧ h.setHeader a { hd with isFree := false } = h' := by
      simpa [alloc, hsize, hfound, hmem, hi.magic a ha hd hmem] using hs
    exact .inr ⟨a, ha, hd, hmem, hfree, hfit, hpair.1.symm, hpair.2.symm⟩

/-- `alloc` hands out one block, reused or new. -/
lemma alloc_spec (hi : h.Inv) (hsize : size ≠ 0) (hs : alloc size h = some (ptr, h'))
    (hno : h'.overflowed = false) : ∃ a, ptr = a + headerSize ∧ Handed h a size h' := by
  rcases alloc_cases hi hsize hs with ⟨_, hnew⟩ | ⟨a, ha, hd, hmem, hfree, hfit, rfl, rfl⟩
  · rcases newBlock_spec hi ⟨6, by decide, rfl⟩ hnew hno with ⟨block, hptr, happended⟩
    exact ⟨block, hptr, happended.handed⟩
  · refine ⟨a, rfl, (hi.setFree ha hmem false).inv hi, fun b hb => hb, ha,
      ⟨_, setHeader_self, rfl, hfit⟩, ?_, ?_⟩
    · intro _ hd' hmem'
      rw [← Option.some.inj (hmem.symm.trans hmem')]
      exact hfree
    · intro b hb hba hd' hmem'
      exact ⟨hd', (hi.setFree_other ha hb hba).trans hmem', rfl, rfl⟩

/-! ## What the callers hold -/

/-- Behind every live pointer is a block in use, with room for what was asked for. -/
def Holds (h : Heap) (live : Nat → Option Nat) : Prop :=
  ∀ p n, live p = some n → ∃ a ∈ h.made, p = a + headerSize ∧
    ∃ hd, h.mem a = some hd ∧ hd.isFree = false ∧ n ≤ hd.size

section Holds

variable {live : Nat → Option Nat} {n : Nat}

lemma Holds.of_same (hl : h.Holds live) (hmade : h'.made = h.made)
    (hmem : ∀ a ∈ h.made, h'.mem a = h.mem a) : h'.Holds live := by
  intro p n hp
  rcases hl p n hp with ⟨a, ha, hpa, hd, hhd, hfree, hn⟩
  exact ⟨a, hmade ▸ ha, hpa, hd, (hmem a ha).trans hhd, hfree, hn⟩

/-- Handing a block out adds it to the live ones. -/
lemma Handed.holds (hh : Handed h a size h') (hl : h.Holds live) :
    h'.Holds (update live (a + headerSize) (some size)) := by
  intro p n hp
  by_cases hpa : p = a + headerSize
  · subst hpa
    have hn : size = n := by simpa using hp
    rcases hh.block with ⟨hd, hmem, hfree, hfit⟩
    exact ⟨a, hh.mem, rfl, hd, hmem, hfree, hn ▸ hfit⟩
  · rw [update_of_ne hpa] at hp
    rcases hl p n hp with ⟨b, hb, rfl, hd, hmem, hfree, hn⟩
    have hba : b ≠ a := by
      rintro rfl
      exact hpa rfl
    rcases hh.others b hb hba hd hmem with ⟨hd', hmem', hsize, hfree'⟩
    exact ⟨b, hh.made b hb, rfl, hd', hmem', hfree'.trans hfree, hsize ▸ hn⟩

lemma Handed.not_live (hh : Handed h a size h') (hl : h.Holds live) :
    live (a + headerSize) = none := by
  cases hlive : live (a + headerSize) with
  | none => rfl
  | some n =>
    rcases hl _ n hlive with ⟨b, hb, hab, hd, hmem, hused, _⟩
    exact absurd (Nat.add_right_cancel hab).symm (hh.ne_used hb hmem hused)

/-- Freeing a live pointer succeeds and removes it from the live ones. -/
lemma free_spec (hi : h.Inv) (hl : h.Holds live) (hp : live ptr = some n) :
    ∃ h', free ptr h = some h' ∧ h'.Inv ∧ h'.Holds (update live ptr none) ∧
      h'.overflowed = h.overflowed := by
  rcases hl ptr n hp with ⟨a, ha, rfl, hd, hmem, hfree, _⟩
  have hmagic := hi.magic a ha hd hmem
  refine ⟨h.setHeader a { hd with isFree := true }, ?_, (hi.setFree ha hmem true).inv hi, ?_, rfl⟩
  · simp [free, hmem, hmagic, hfree]
  · intro p k hpk
    have hne : p ≠ a + headerSize := by
      rintro rfl
      simp at hpk
    rw [update_of_ne hne] at hpk
    rcases hl p k hpk with ⟨b, hb, rfl, hd', hmem', hfree', hk⟩
    have hba : b ≠ a := by
      rintro rfl
      exact hne rfl
    exact ⟨b, hb, rfl, hd', (hi.setFree_other ha hb hba).trans hmem', hfree', hk⟩

/-- The old block is freed and the new one in use. -/
lemma moveBlock_spec (hl : h.Holds live) (hp : live ptr = some n) (hh : Handed h a size h')
    (hsize : ∀ hd, h.mem (ptr - headerSize) = some hd → hd.size < size) :
    ∃ h'', moveBlock ptr (a + headerSize) h' = some (a + headerSize, h'') ∧ h''.Inv ∧
      a + headerSize ≠ ptr ∧
      h''.Holds (update (update live ptr none) (a + headerSize) (some size)) ∧
      h''.overflowed = h'.overflowed := by
  rcases hl ptr n hp with ⟨b, hb, rfl, hd, hmem, hfree, _⟩
  have hba : b ≠ a := hh.ne_used hb hmem hfree
  have hne : a + headerSize ≠ b + headerSize := fun heq => hba (Nat.add_right_cancel heq).symm
  rcases hh.others b hb hba hd hmem with ⟨hd', hmem', hsame, _⟩
  rcases hh.block with ⟨hda, hmema, _, hfit⟩
  have hlt : hd.size < size := hsize hd (by rw [Nat.add_sub_cancel, hmem])
  -- the copy stays within the new block
  have hroom : a + headerSize + hd'.size ≤ h'.endAt a := by
    rw [endAt_eq hmema]
    omega
  have hcopied := (hh.inv.fill hh.mem (Nat.le_refl (a + headerSize)) hroom).inv hh.inv
  have hl' : (h'.fill (a + headerSize) hd'.size).Holds
      (update live (a + headerSize) (some size)) :=
    (hh.holds hl).of_same rfl fun c hc => hh.inv.fill_same hh.mem hc (Nat.le_refl _) hroom
  have hp' : update live (a + headerSize) (some size) (b + headerSize) = some n := by
    rw [update_of_ne (Ne.symm hne), hp]
  rcases free_spec hcopied hl' hp' with ⟨h'', hfreed, hi'', hl'', hflag⟩
  refine ⟨h'', ?_, hi'', hne, ?_, hflag⟩
  · simp [moveBlock, hmem', hfreed]
  · rwa [update_comm hne] at hl''

end Holds

lemma reportCorruption_eq {R : Type} {result r : R} (hs : reportCorruption result h = some r) :
    r = result := by
  unfold reportCorruption at hs
  split at hs
  · cases hs
  · exact (Option.some.inj hs).symm

lemma free_cases (hs : free ptr h = some h') :
    h' = h ∨ ∃ hd, h.mem (ptr - headerSize) = some hd ∧
      h' = h.setHeader (ptr - headerSize) { hd with isFree := true } := by
  unfold free at hs
  split at hs
  · exact .inl (Option.some.inj hs).symm
  split at hs
  · cases hs
  next hd hmem =>
  split at hs
  · split at hs
    · exact .inl (Option.some.inj hs).symm
    · exact .inr ⟨hd, hmem, (Option.some.inj hs).symm⟩
  · exact .inl (reportCorruption_eq hs)

lemma free_overflowed (hs : free ptr h = some h') : h'.overflowed = h.overflowed := by
  rcases free_cases hs with rfl | ⟨hd, _, rfl⟩
  · rfl
  · rfl

variable {out : Nat × Heap} {live : Nat → Option Nat}

lemma moveBlock_cases (hs : moveBlock ptr ret h = some out) :
    out.1 = ret ∧ (out.2 = h ∨ ∃ len, free ptr (h.fill ret len) = some out.2) := by
  unfold moveBlock at hs
  split at hs
  · next hret =>
    cases hs
    exact ⟨hret.symm, .inl rfl⟩
  split at hs
  · cases hs
  next hd hmem =>
  split at hs
  · cases hs
  next hfreed =>
  cases hs
  exact ⟨rfl, .inr ⟨hd.size, hfreed⟩⟩

lemma moveBlock_overflowed (hs : moveBlock ptr ret h = some out) :
    out.2.overflowed = h.overflowed := by
  rcases (moveBlock_cases hs).2 with hsame | ⟨len, hfreed⟩
  · rw [hsame]
  · show out.2.overflowed = (h.fill ret len).overflowed
    exact free_overflowed hfreed

/-! ## Enough room -/

/-- With room left, `morecore` returns. -/
lemma morecore_defined (hi : h.Inv) (halign : ∃ k, k < 64 ∧ align = 2 ^ k)
    (hroom : h.offset + align + size + blockSize < 2 ^ 64) :
    ∃ h', morecore size align h = some (alignUp h.offset align, h') ∧
      h'.overflowed = h.overflowed := by
  have hfit : h.offset + align - 1 < 2 ^ 64 := by omega
  have hup := alignUp_bounds halign hfit
  have hend : alignUp h.offset align + size < 2 ^ 64 := by omega
  have hoffset : (h.reserve size align).offset = alignUp h.offset align + size := u64_of_lt hend
  have hpages : (h.reserve size align).offset + blockSize < 2 ^ 64 := by
    omega
  have hfuel : (h.reserve size align).offset <
      (h.reserve size align).pageOffset + 2 ^ 52 * blockSize := by
    simp only [blockSize] at *
    omega
  rcases growPages_defined hpages hfuel with ⟨h', hgrow⟩
  have hg : (h.reserve size align).Grown h' :=
    growPages_spec hi.paged.aligned hi.paged.fits hgrow
  refine ⟨h', by simp only [morecore, pageFuel, hgrow], ?_⟩
  rw [hg.overflowed]
  show (h.overflowed || !decide (h.offset + align - 1 < 2 ^ 64 ∧
    alignUp h.offset align + size < 2 ^ 64)) = h.overflowed
  rw [decide_eq_true ⟨hfit, hend⟩, Bool.not_true, Bool.or_false]

/-- The offset lies before the last page, so it is not rounded up beyond the end. -/
lemma Inv.alignUp_offset (hi : h.Inv) :
    h.offset ≤ alignUp h.offset 64 ∧ alignUp h.offset 64 ≠ 0 := by
  have hbeyond := hi.paged.beyond
  have hfits := hi.paged.fits
  have haligned := hi.paged.aligned
  have hbase := hi.start
  have hoffset : h.offset + 64 - 1 < 2 ^ 64 := by
    simp only [blockSize] at haligned
    omega
  have halign : ∃ k, k < 64 ∧ 64 = 2 ^ k := ⟨6, by decide, rfl⟩
  have hup := (alignUp_bounds halign hoffset).1
  refine ⟨hup, ?_⟩
  simp only [heapBase] at hbase
  omega

lemma alloc_ne_zero (hi : h.Inv) (hsize : size ≠ 0) (hs : alloc size h = some (ptr, h')) :
    ptr ≠ 0 := by
  rcases alloc_cases hi hsize hs with ⟨_, hnew⟩ | ⟨a, _, _, _, _, _, rfl, _⟩
  · rcases newBlock_cases hnew with ⟨h₁, _, ⟨hzero, _⟩ | ⟨rfl, _⟩⟩
    · exact absurd hzero hi.alignUp_offset.2
    · exact Nat.succ_ne_zero _
  · exact Nat.succ_ne_zero _

lemma newBlock_defined (hi : h.Inv) (hflag : h.overflowed = false)
    (halign : ∃ k, k < 64 ∧ align = 2 ^ k)
    (hroom : h.offset + align + (size + headerSize) + blockSize < 2 ^ 64) :
    ∃ out, newBlock size align h = some out ∧ out.2.overflowed = false := by
  rcases morecore_defined hi halign hroom with ⟨h₁, hm, hflag₁⟩
  rcases newBlock_of_morecore hi halign hm (hflag₁.trans hflag) with ⟨h₂, hs, _, hflag₂⟩
  exact ⟨_, hs, (hflag₂.trans hflag₁).trans hflag⟩

lemma alloc_defined (hi : h.Inv) (hflag : h.overflowed = false)
    (hroom : h.offset + 64 + (size + headerSize) + blockSize < 2 ^ 64) :
    ∃ out, alloc size h = some out ∧ out.2.overflowed = false := by
  by_cases hsize : size = 0
  · exact ⟨(0, h), by simp [alloc, hsize], hflag⟩
  rcases getFreeBlock_spec hi size with hnone | ⟨a, ha, hd, hfound, hmem, _, _⟩
  · have halign : ∃ k, k < 64 ∧ 64 = 2 ^ k := ⟨6, by decide, rfl⟩
    rcases newBlock_defined hi hflag halign hroom with ⟨out, hs, hno⟩
    exact ⟨out, by simp [alloc, hsize, hnone, hs], hno⟩
  · refine ⟨(a + headerSize, h.setHeader a { hd with isFree := false }), ?_, hflag⟩
    simp [alloc, hsize, hfound, hmem, hi.magic a ha hd hmem]

lemma size_lt_of_not_le {h : Heap} {a size : Nat} {hd : Header} (hmem : h.mem a = some hd)
    (hfit : ¬ size ≤ hd.size) :
    ∀ hd', h.mem (a + headerSize - headerSize) = some hd' → hd'.size < size := by
  intro hd' hmem'
  rw [Nat.add_sub_cancel, hmem] at hmem'
  rw [← Option.some.inj hmem']
  exact Nat.lt_of_not_le hfit

/-- `realloc` of a live pointer returns while the heap has room. -/
lemma realloc_defined {ptr n : Nat} (hi : h.Inv) (hl : h.Holds live)
    (hflag : h.overflowed = false) (hp : live ptr = some n)
    (hroom : h.offset + 64 + (size + headerSize) + blockSize < 2 ^ 64) :
    ∃ out, realloc ptr size h = some out ∧ out.2.overflowed = false := by
  rcases free_spec hi hl hp with ⟨h', hfreed, _, _, hflag'⟩
  rcases hl ptr n hp with ⟨a, ha, rfl, hd, hmem, hfree, _⟩
  have hmagic := hi.magic a ha hd hmem
  by_cases hsize : size = 0
  · exact ⟨(0, h'), by simp [realloc, hsize, hfreed], hflag'.trans hflag⟩
  by_cases hfit : size ≤ hd.size
  · exact ⟨(a + headerSize, h), by simp [realloc, hsize, hmem, hfree, hmagic, hfit], hflag⟩
  · rcases alloc_defined hi hflag hroom with ⟨⟨ret, h₁⟩, halloc, hno₁⟩
    rcases alloc_spec hi hsize halloc hno₁ with ⟨b, rfl, hh⟩
    rcases moveBlock_spec hl hp hh (size_lt_of_not_le hmem hfit) with ⟨h₂, hmove, _, _, _, hflag₂⟩
    refine ⟨(b + headerSize, h₂), ?_, hflag₂.trans hno₁⟩
    simp [realloc, hsize, hmem, hfree, hmagic, hfit, halloc, hmove]

/-- The branches of `realloc`. -/
lemma realloc_cases (hs : realloc ptr size h = some out) :
    (size = 0 ∧ out.1 = 0 ∧ free ptr h = some out.2) ∨
      (size ≠ 0 ∧ ptr = 0 ∧ alloc size h = some out) ∨
      size ≠ 0 ∧ ptr ≠ 0 ∧ ∃ hd, h.mem (ptr - headerSize) = some hd ∧
        ((hd.isFree = true ∨ hd.checkMagic = false) ∧ out = (0, h) ∨
          size ≤ hd.size ∧ out = (ptr, h) ∨
          ¬ size ≤ hd.size ∧ ∃ ret h₁, alloc size h = some (ret, h₁) ∧
            moveBlock ptr ret h₁ = some out) := by
  unfold realloc at hs
  split at hs
  · next hzero =>
    cases hs
    exact .inl ⟨hzero.2, rfl, by simp [free, hzero.1]⟩
  split at hs
  · next hsize =>
    split at hs
    · cases hs
    next hfreed =>
    cases hs
    exact .inl ⟨hsize, rfl, hfreed⟩
  next hsize =>
  refine .inr ?_
  split at hs
  · next hptr => exact .inl ⟨hsize, hptr, hs⟩
  next hptr =>
  refine .inr ⟨hsize, hptr, ?_⟩
  split at hs
  · cases hs
  next hd hmem =>
  refine ⟨hd, hmem, ?_⟩
  split at hs
  · next hfree => exact .inl ⟨.inl hfree, (Option.some.inj hs).symm⟩
  split at hs
  · next hmagic => exact .inl ⟨.inr (by simpa using hmagic), (Option.some.inj hs).symm⟩
  refine .inr ?_
  split at hs
  · next hfit => exact .inl ⟨hfit, (Option.some.inj hs).symm⟩
  next hfit =>
  split at hs
  · cases hs
  next ret h₁ halloc =>
  exact .inr ⟨hfit, ret, h₁, halloc, hs⟩

/-- `realloc` returns the same block, or allocates and moves. -/
lemma Inv.realloc_cases (hi : h.Inv) (ha : a ∈ h.made) (hmem : h.mem a = some hd)
    (hused : hd.isFree = false) (hsize : size ≠ 0)
    (hs : realloc (a + headerSize) size h = some out) :
    (size ≤ hd.size ∧ out = (a + headerSize, h)) ∨
      ¬ size ≤ hd.size ∧ ∃ ret h₁, alloc size h = some (ret, h₁) ∧
        moveBlock (a + headerSize) ret h₁ = some out := by
  rcases Heap.realloc_cases hs with ⟨hzero, _⟩ | ⟨_, hzero, _⟩ | ⟨_, _, hd', hmem', hends⟩
  · exact absurd hzero hsize
  · exact absurd hzero (Nat.succ_ne_zero _)
  · rw [Nat.add_sub_cancel, hmem] at hmem'
    cases hmem'
    rcases hends with ⟨hbad, _⟩ | hends
    · simp [hused, hi.magic a ha hd hmem] at hbad
    · exact hends

/-- The pointer returned is the old one or, without overflow, one not live. -/
lemma realloc_pointer {n q : Nat} (hi : h.Inv) (hl : h.Holds live) (hp : live ptr = some n)
    (hsize : size ≠ 0) (hs : realloc ptr size h = some (q, h')) :
    q ≠ 0 ∧ (h'.overflowed = false → q = ptr ∨ live q = none) := by
  rcases hl ptr n hp with ⟨a, ha, rfl, hd, hmem, hused, _⟩
  rcases hi.realloc_cases ha hmem hused hsize hs with ⟨_, heq⟩ | ⟨_, ret, h₁, halloc, hmove⟩
  · have hq : q = a + headerSize := congrArg Prod.fst heq
    exact ⟨hq ▸ Nat.succ_ne_zero _, fun _ => .inl hq⟩
  · have hret := alloc_ne_zero hi hsize halloc
    have hq : q = ret := (moveBlock_cases hmove).1
    refine ⟨hq ▸ hret, ?_⟩
    intro hno
    have hno₁ : h₁.overflowed = false := (moveBlock_overflowed hmove) ▸ hno
    rcases alloc_spec hi hsize halloc hno₁ with ⟨b, rfl, hh⟩
    exact .inr (hq ▸ hh.not_live hl)

/-- No header is corrupted. -/
lemma Inv.checkForCorruption_eq (hi : h.Inv) : checkForCorruption h = some false := by
  have hnone : firstAnswer h.mem (fun _ hd => if hd.corrupted then some () else none) h.made =
      none := by
    refine firstAnswer_none fun a ha hd hmem => ?_
    have hmagic := hi.magic a ha hd hmem
    -- a link leads to a header or nowhere
    have hnext : (heapBase ≤ hd.next ∧ hd.next < 2 ^ 64 - 1) ∨ hd.next = 0 := by
      rcases hi.list.next_mem a ha hd hmem with hin | hnull
      · have hbase := hi.above _ hin
        have hend := hi.below _ hin
        have hhead := header_le_endAt (h := h) (a := hd.next)
        have hoffset := hi.paged.beyond
        have hpage := hi.paged.fits
        exact .inl ⟨hbase, by omega⟩
      · exact .inr hnull
    have hsound : hd.corrupted = false := by
      rcases hnext with ⟨hlow, hhigh⟩ | hnull
      · have hnotLow : ¬ hd.next < heapBase - 1 := by omega
        have hnotOnes : hd.next ≠ 0xffffffffffffffff := by omega
        simp [Header.corrupted, hnotLow, hnotOnes, hmagic]
      · simp [Header.corrupted, hnull, hmagic]
    simp [hsound]
  rw [checkForCorruption, hi.visitHeaders_eq, hnone]
  rfl

end Heap

end SigmaOS.Mm.Alloc
