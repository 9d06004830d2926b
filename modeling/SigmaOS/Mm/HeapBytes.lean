import SigmaOS.Mm.HeapSafety

/-!
# Mm.HeapBytes — the contents of heap blocks

`Heap` knows of a write only which headers it destroys.  `Memory` is the heap with the bytes of the
address space: writing a header, clearing a page and copying a block are writes to bytes as well,
and the functions are those of `Heap` with these writes.  How a header lies in its 64 bytes is left
open (`Layout`).
-/

namespace SigmaOS.Mm.Alloc

open Lib
open Mm.Pmm (blockSize u64 u64_of_lt)

abbrev Bytes := Nat → BitVec 8

/-- How a header is written into memory: only its own bytes change. -/
structure Layout where
  put : Nat → Header → Bytes → Bytes
  put_apart : ∀ a hd bytes x, x < a ∨ a + headerSize ≤ x → put a hd bytes x = bytes x

structure Memory where
  heap : Heap
  bytes : Bytes

namespace Memory

variable (L : Layout)

def setHeader (m : Memory) (a : Nat) (hd : Header) : Memory :=
  { heap := m.heap.setHeader a hd
    bytes := L.put a hd m.bytes }

def clearPage (m : Memory) : Memory :=
  { heap := m.heap.fill m.heap.pageOffset blockSize
    bytes := fun x =>
      if m.heap.pageOffset ≤ x ∧ x < m.heap.pageOffset + blockSize then 0#8 else m.bytes x }

/-- `memcpy`, for ranges that do not overlap. -/
def copy (m : Memory) (dst src len : Nat) : Memory :=
  { heap := m.heap.fill dst len
    bytes := fun x => if dst ≤ x ∧ x < dst + len then m.bytes (src + (x - dst)) else m.bytes x }

def growPages : Nat → Memory → Option Memory
  | 0, _ => none
  | fuel + 1, m =>
    if m.heap.pageOffset ≤ m.heap.offset then
      growPages fuel { m.clearPage with heap := m.clearPage.heap.mapPage }
    else
      some m

def morecore (size align : Nat) (m : Memory) : Option (Nat × Memory) :=
  match growPages pageFuel { m with heap := m.heap.reserve size align } with
  | none => none
  | some m' => some (alignUp m.heap.offset align, m')

def addHeader (m : Memory) (block size : Nat) : Memory :=
  { heap := m.heap.addHeader block size
    bytes := L.put block (Header.new size) m.bytes }

def appendHeader (block size : Nat) (m : Memory) : Option Memory :=
  let m := m.addHeader L block size
  if m.heap.tail = 0 then
    some { m with heap := { m.heap with tail := block } }
  else
    match m.heap.mem m.heap.tail with
    | none => none
    | some hd =>
      let m := m.setHeader L m.heap.tail { hd with next := block }
      some { m with heap := { m.heap with tail := block } }

def newBlock (size align : Nat) (m : Memory) : Option (Nat × Memory) :=
  match morecore (size + headerSize) align m with
  | none => none
  | some (block, m) =>
    if block = 0 then
      some (0, m)
    else
      match appendHeader L block size m with
      | none => none
      | some m => some (block + headerSize, m)

def reportCorruption {R : Type} (result : R) (m : Memory) : Option R :=
  Alloc.reportCorruption result m.heap

def alloc (size : Nat) (m : Memory) : Option (Nat × Memory) :=
  if size = 0 then
    some (0, m)
  else
    match getFreeBlock size m.heap with
    | none => none
    | some none => newBlock L size 64 m
    | some (some a) =>
      match m.heap.mem a with
      | none => none
      | some hd =>
        if hd.checkMagic then
          some (a + headerSize, m.setHeader L a { hd with isFree := false })
        else
          reportCorruption (0, m) m

def free (ptr : Nat) (m : Memory) : Option Memory :=
  if ptr = 0 then
    some m
  else
    match m.heap.mem (ptr - headerSize) with
    | none => none
    | some hd =>
      if hd.checkMagic then
        if hd.isFree then
          some m
        else
          some (m.setHeader L (ptr - headerSize) { hd with isFree := true })
      else
        reportCorruption m m

def moveBlock (ptr ret : Nat) (m : Memory) : Option (Nat × Memory) :=
  if ret = 0 then
    some (0, m)
  else
    match m.heap.mem (ptr - headerSize) with
    | none => none
    | some hd =>
      match free L ptr (m.copy ret ptr hd.size) with
      | none => none
      | some m => some (ret, m)

def realloc (ptr size : Nat) (m : Memory) : Option (Nat × Memory) :=
  if ptr = 0 ∧ size = 0 then
    some (0, m)
  else if size = 0 then
    match free L ptr m with
    | none => none
    | some m => some (0, m)
  else if ptr = 0 then
    alloc L size m
  else
    match m.heap.mem (ptr - headerSize) with
    | none => none
    | some hd =>
      if hd.isFree then
        some (0, m)
      else if !hd.checkMagic then
        some (0, m)
      else if size ≤ hd.size then
        some (ptr, m)
      else
        match alloc L size m with
        | none => none
        | some (ret, m) => moveBlock L ptr ret m

/-! ## Without the bytes -/

variable {L} {m m' : Memory} {a b block size align ptr p ret x : Nat} {hd : Header}

def answer (out : Nat × Memory) : Nat × Heap :=
  (out.1, out.2.heap)

lemma growPages_heap (fuel : Nat) (m : Memory) :
    (growPages fuel m).map heap = Alloc.growPages fuel m.heap := by
  induction fuel generalizing m with
  | zero => rfl
  | succ fuel ih =>
    by_cases hle : m.heap.pageOffset ≤ m.heap.offset
    · rw [growPages, if_pos hle, Alloc.growPages, if_pos hle, ih]
      rfl
    · rw [growPages, if_neg hle, Alloc.growPages, if_neg hle]
      rfl

lemma morecore_heap (size align : Nat) (m : Memory) :
    (morecore size align m).map answer = Alloc.morecore size align m.heap := by
  have hgrow := growPages_heap pageFuel { m with heap := m.heap.reserve size align }
  rw [morecore, Alloc.morecore, ← hgrow]
  cases growPages pageFuel { m with heap := m.heap.reserve size align } with
  | none => rfl
  | some m₁ => rfl

lemma appendHeader_heap (block size : Nat) (m : Memory) :
    (appendHeader L block size m).map heap = Alloc.appendHeader block size m.heap := by
  by_cases htail : (m.heap.addHeader block size).tail = 0
  · simp [appendHeader, addHeader, Alloc.appendHeader, htail]
  · cases hmem : (m.heap.addHeader block size).mem (m.heap.addHeader block size).tail with
    | none => simp [appendHeader, addHeader, Alloc.appendHeader, htail, hmem]
    | some hd => simp [appendHeader, addHeader, setHeader, Alloc.appendHeader, htail, hmem]

lemma newBlock_heap (size align : Nat) (m : Memory) :
    (newBlock L size align m).map answer = Alloc.newBlock size align m.heap := by
  rw [newBlock, Alloc.newBlock, ← morecore_heap]
  cases morecore (size + headerSize) align m with
  | none => rfl
  | some out =>
    simp only [Option.map_some, answer]
    split
    · rfl
    rw [← appendHeader_heap (L := L)]
    cases appendHeader L out.1 size out.2 with
    | none => rfl
    | some m₂ => rfl

lemma reportCorruption_heap {R S : Type} (f : R → S) (result : R) (m : Memory) :
    (reportCorruption result m).map f = Alloc.reportCorruption (f result) m.heap := by
  rw [reportCorruption, Alloc.reportCorruption, Alloc.reportCorruption]
  cases checkForCorruption m.heap with
  | none => rfl
  | some found => rfl

/-- The byte model of `alloc` projects to the header model. -/
lemma alloc_heap (size : Nat) (m : Memory) :
    (alloc L size m).map answer = Alloc.alloc size m.heap := by
  unfold alloc Alloc.alloc
  split
  · rfl
  cases getFreeBlock size m.heap with
  | none => rfl
  | some found =>
    cases found with
    | none => exact newBlock_heap size 64 m
    | some a =>
      simp only
      cases m.heap.mem a with
      | none => rfl
      | some hd =>
        simp only
        split
        · rfl
        · exact reportCorruption_heap answer (0, m) m

/-- So does `free`. -/
lemma free_heap (ptr : Nat) (m : Memory) : (free L ptr m).map heap = Alloc.free ptr m.heap := by
  unfold free Alloc.free
  split
  · rfl
  cases m.heap.mem (ptr - headerSize) with
  | none => rfl
  | some hd =>
    simp only
    split
    · split
      · rfl
      · rfl
    · exact reportCorruption_heap heap m m

/-- So does the move of `realloc`. -/
lemma moveBlock_heap (ptr ret : Nat) (m : Memory) :
    (moveBlock L ptr ret m).map answer = Alloc.moveBlock ptr ret m.heap := by
  unfold moveBlock Alloc.moveBlock
  split
  · rfl
  cases m.heap.mem (ptr - headerSize) with
  | none => rfl
  | some hd =>
    have hfree : (free L ptr (m.copy ret ptr hd.size)).map heap =
        Alloc.free ptr (m.heap.fill ret hd.size) := free_heap ptr _
    simp only [← hfree]
    cases free L ptr (m.copy ret ptr hd.size) with
    | none => rfl
    | some m₁ => rfl

/-- Forgetting the bytes, the call is the one on headers. -/
lemma realloc_heap (ptr size : Nat) (m : Memory) :
    (realloc L ptr size m).map answer = Alloc.realloc ptr size m.heap := by
  unfold realloc Alloc.realloc
  split
  · rfl
  split
  · rw [← free_heap (L := L)]
    cases free L ptr m with
    | none => rfl
    | some m₁ => rfl
  split
  · exact alloc_heap size m
  cases m.heap.mem (ptr - headerSize) with
  | none => rfl
  | some hd =>
    simp only [← alloc_heap (L := L)]
    split
    · rfl
    split
    · rfl
    split
    · rfl
    cases alloc L size m with
    | none => rfl
    | some out => exact moveBlock_heap ptr out.1 out.2

/-! ## The data of the blocks -/

def InData (h : Heap) (b x : Nat) : Prop :=
  b + headerSize ≤ x ∧ x < h.endAt b

/-- From `m` to `m'` no byte in the data of a block of `m` has changed. -/
def SameData (m m' : Memory) : Prop :=
  ∀ b ∈ m.heap.made, ∀ x, InData m.heap b x → m'.bytes x = m.bytes x

lemma InData.put (hi : m.heap.Inv) (hb : b ∈ m.heap.made) (hx : InData m.heap b x)
    (ha : a ∈ m.heap.made) (bytes : Bytes) : L.put a hd bytes x = bytes x := by
  refine L.put_apart a hd bytes x ?_
  have hend : x + 1 ≤ m.heap.endAt b := hx.2
  rcases hi.data_apart hb ha hx.1 hend with hle | hle
  · exact .inr hle
  · exact .inl hle

/-- New pages come behind the bytes that are there. -/
lemma growPages_bytes :
    ∀ {fuel : Nat} {m : Memory}, m.heap.pageOffset % blockSize = 0 → m.heap.pageOffset < 2 ^ 64 →
      growPages fuel m = some m' → ∀ x, x < m.heap.pageOffset → m'.bytes x = m.bytes x := by
  intro fuel
  induction fuel with
  | zero =>
    intro m _ _ hs
    cases hs
  | succ fuel ih =>
    intro m haligned hfits hs x hx
    by_cases hlast : 2 ^ 64 - blockSize ≤ m.heap.offset
    · have hnone := growPages_heap (fuel + 1) m
      rw [hs, Heap.growPages_endless hlast haligned hfits] at hnone
      exact absurd hnone (by simp)
    by_cases hle : m.heap.pageOffset ≤ m.heap.offset
    · have hroom : m.heap.pageOffset + blockSize < 2 ^ 64 := by
        omega
      have hnext : m.clearPage.heap.mapPage.pageOffset = m.heap.pageOffset + blockSize :=
        u64_of_lt hroom
      rw [growPages, if_pos hle] at hs
      have haligned' : m.clearPage.heap.mapPage.pageOffset % blockSize = 0 := by
        rw [hnext, Nat.add_mod_right]
        exact haligned
      have hx' : x < m.clearPage.heap.mapPage.pageOffset := by
        omega
      rw [ih (m := { m.clearPage with heap := m.clearPage.heap.mapPage }) haligned'
        (hnext ▸ hroom) hs x hx']
      show (if m.heap.pageOffset ≤ x ∧ x < m.heap.pageOffset + blockSize then 0#8
        else m.bytes x) = m.bytes x
      rw [if_neg (by omega)]
    · have heq : m = m' := by simpa [growPages, hle] using hs
      rw [heq]

lemma appendHeader_bytes (hs : appendHeader L block size m = some m') (hblock : x < block)
    (htail : x < m.heap.tail ∨ m.heap.tail + headerSize ≤ x) : m'.bytes x = m.bytes x := by
  have hadded : L.put block (Header.new size) m.bytes x = m.bytes x :=
    L.put_apart _ _ _ _ (.inl hblock)
  simp only [appendHeader] at hs
  split at hs
  · cases hs
    exact hadded
  split at hs
  · cases hs
  cases hs
  exact (L.put_apart _ _ _ _ htail).trans hadded

/-- A block that is made: pages first, then its header. -/
lemma newBlock_cases (hs : newBlock L size align m = some (p, m')) (hp : p ≠ 0) :
    ∃ m₁, growPages pageFuel { m with heap := m.heap.reserve (size + headerSize) align } = some m₁ ∧
      p = alignUp m.heap.offset align + headerSize ∧
      appendHeader L (alignUp m.heap.offset align) size m₁ = some m' := by
  unfold newBlock morecore at hs
  split at hs
  · cases hs
  next block m₁ hm =>
  split at hm
  · cases hm
  next hgrow =>
  cases hm
  refine ⟨m₁, hgrow, ?_⟩
  split at hs
  · cases hs
    exact absurd rfl hp
  split at hs
  · cases hs
  next happ =>
  cases hs
  exact ⟨rfl, happ⟩

/-- Making a block leaves the data of the others. -/
lemma newBlock_data (hi : m.heap.Inv) (halign : ∃ k, k < 64 ∧ align = 2 ^ k)
    (hs : newBlock L size align m = some (p, m')) (hno : m'.heap.overflowed = false) :
    SameData m m' := by
  have hheap : Alloc.newBlock size align m.heap = some (p, m'.heap) := by
    rw [← newBlock_heap (L := L), hs]
    rfl
  rcases Heap.newBlock_spec hi halign hheap hno with ⟨block, rfl, happended⟩
  rcases newBlock_cases hs (Nat.succ_ne_zero _) with ⟨m₁, hgrow, hptr, happ⟩
  have hblock : block = alignUp m.heap.offset align := Nat.add_right_cancel hptr
  have htail : m₁.heap.tail = m.heap.tail := by
    have hg := growPages_heap pageFuel
      { m with heap := m.heap.reserve (size + headerSize) align }
    rw [hgrow] at hg
    have hgrown : (m.heap.reserve (size + headerSize) align).Grown m₁.heap :=
      Heap.growPages_spec hi.paged.aligned hi.paged.fits hg.symm
    exact hgrown.tail
  intro b hb x hx
  have hend : x + 1 ≤ m.heap.endAt b := hx.2
  have hpages : x < m.heap.pageOffset :=
    Nat.lt_of_lt_of_le hx.2
      (Nat.le_of_lt (Nat.lt_of_le_of_lt (hi.below b hb) hi.paged.beyond))
  have hbefore : x < alignUp m.heap.offset align :=
    hblock ▸ Nat.lt_of_lt_of_le hx.2 (happended.behind hi hb)
  -- the last header is no data
  have hlast : x < m₁.heap.tail ∨ m₁.heap.tail + headerSize ≤ x := by
    rw [htail]
    exact (hi.data_apart hb (hi.tail_mem (List.ne_nil_of_mem hb)) hx.1 hend).symm
  rw [appendHeader_bytes happ hbefore hlast]
  exact growPages_bytes
    (m := { m with heap := m.heap.reserve (size + headerSize) align })
    hi.paged.aligned hi.paged.fits hgrow x hpages

/-- `alloc` changes no byte of a block's data. -/
lemma alloc_data (hi : m.heap.Inv) (hs : alloc L size m = some (p, m'))
    (hno : m'.heap.overflowed = false) : SameData m m' := by
  unfold alloc at hs
  split at hs
  · cases hs
    exact fun _ _ _ _ => rfl
  rcases Heap.getFreeBlock_spec hi size with hnone | ⟨a, ha, hd, hfound, hmem, _⟩
  · rw [hnone] at hs
    exact newBlock_data hi ⟨6, by decide, rfl⟩ hs hno
  · simp only [hfound, hmem, hi.magic a ha hd hmem, if_true] at hs
    cases hs
    intro b hb x hx
    exact hx.put hi hb ha m.bytes

/-- Nor does `free`. -/
lemma free_data (hi : m.heap.Inv) (ha : a ∈ m.heap.made)
    (hs : free L (a + headerSize) m = some m') : SameData m m' := by
  rcases hi.stored ha with ⟨hd, hmem⟩
  have hmagic := hi.magic a ha hd hmem
  by_cases hfree : hd.isFree = true
  · have heq : m = m' := by simpa [free, hmem, hmagic, hfree] using hs
    exact heq ▸ fun _ _ _ _ => rfl
  · have heq : m.setHeader L a { hd with isFree := true } = m' := by
      simpa [free, hmem, hmagic, hfree] using hs
    rw [← heq]
    intro b hb x hx
    exact hx.put hi hb ha m.bytes

/-- The copy goes to the new block only. -/
lemma moveBlock_data (hi : m.heap.Inv) (ha : a ∈ m.heap.made) (hb : b ∈ m.heap.made)
    (hmem : m.heap.mem b = some hd) (hroom : a + headerSize + hd.size ≤ m.heap.endAt a)
    (hs : moveBlock L (b + headerSize) (a + headerSize) m = some (p, m')) :
    (∀ i, i < hd.size → m'.bytes (a + headerSize + i) = m.bytes (b + headerSize + i)) ∧
      ∀ c ∈ m.heap.made, c ≠ a → ∀ x, InData m.heap c x → m'.bytes x = m.bytes x := by
  have hfill := hi.fill ha (Nat.le_refl (a + headerSize)) hroom
  have hi' := hfill.inv hi
  rw [moveBlock, if_neg (by simp), Nat.add_sub_cancel, hmem] at hs
  simp only at hs
  split at hs
  · cases hs
  next m' hfreed =>
  cases hs
  have hsame := free_data (m := m.copy (a + headerSize) (b + headerSize) hd.size) hi' hb hfreed
  have hdata : ∀ c ∈ m.heap.made, ∀ x, InData m.heap c x →
      m'.bytes x = (m.copy (a + headerSize) (b + headerSize) hd.size).bytes x := by
    intro c hc x hx
    refine hsame c hc x ⟨hx.1, ?_⟩
    show x < (m.heap.fill (a + headerSize) hd.size).endAt c
    rw [hi.endAt_same hc fun hd hmem => (hfill.headers c hc hd hmem).imp fun _ hd' =>
      ⟨hd'.1, hd'.2.2.1⟩]
    exact hx.2
  refine ⟨?_, ?_⟩
  · intro i hlt
    rw [hdata a ha _ ⟨Nat.le_add_right _ _, by omega⟩]
    have hin : a + headerSize ≤ a + headerSize + i ∧
        a + headerSize + i < a + headerSize + hd.size := by
      omega
    simp only [copy, if_pos hin, Nat.add_sub_cancel_left]
  · intro c hc hca x hx
    rw [hdata c hc x hx]
    -- the new block has no byte of another one
    have hout : ¬ (a + headerSize ≤ x ∧ x < a + headerSize + hd.size) := by
      have hend : x < m.heap.endAt c := hx.2
      have hstart : c + headerSize ≤ x := hx.1
      rcases hi.apart hc ha hca with hle | hle
      · omega
      · omega
    simp only [copy, if_neg hout]

/-- A block is made and the old one copied into it. -/
lemma alloc_moveBlock_data {n : Nat} {m₁ : Memory} (hb : b ∈ m.heap.made)
    (hmem : m.heap.mem b = some hd) (hused : hd.isFree = false) (hsize : hd.size < n)
    (hh : m.heap.Handed a n m₁.heap) (hsame : SameData m m₁)
    (hs : moveBlock L (b + headerSize) (a + headerSize) m₁ = some (p, m')) :
    (∀ i, i < hd.size → m'.bytes (p + i) = m.bytes (b + headerSize + i)) ∧
      ∀ c ∈ m.heap.made, ∀ hd', m.heap.mem c = some hd' → hd'.isFree = false →
        ∀ x, InData m.heap c x → m'.bytes x = m.bytes x := by
  have hother : ∀ c ∈ m.heap.made, ∀ hd', m.heap.mem c = some hd' → hd'.isFree = false →
      c ≠ a ∧ ∃ hd'', m₁.heap.mem c = some hd'' ∧ hd''.size = hd'.size := by
    intro c hc hd' hmem' hfree
    have hca := hh.ne_used hc hmem' hfree
    rcases hh.others c hc hca hd' hmem' with ⟨hd'', hmem'', hsize, _⟩
    exact ⟨hca, hd'', hmem'', hsize⟩
  rcases hother b hb hd hmem hused with ⟨_, hd₁, hmem₁, hsize₁⟩
  rcases hh.block with ⟨hda, hmema, _, hlarge⟩
  have hroom : a + headerSize + hd₁.size ≤ m₁.heap.endAt a := by
    rw [Heap.endAt_eq hmema]
    omega
  rcases moveBlock_data hh.inv hh.mem (hh.made b hb) hmem₁ hroom hs with ⟨hcopied, hothers⟩
  have hp : p = a + headerSize := by
    have hmoved := moveBlock_heap (L := L) (b + headerSize) (a + headerSize) m₁
    rw [hs] at hmoved
    exact (Heap.moveBlock_cases hmoved.symm).1
  refine ⟨?_, ?_⟩
  · intro i hlt
    rw [hp, hcopied i (hsize₁ ▸ hlt)]
    refine hsame b hb _ ⟨Nat.le_add_right _ _, ?_⟩
    rw [Heap.endAt_eq hmem]
    omega
  · intro c hc hd' hmem' hfree x hx
    rcases hother c hc hd' hmem' hfree with ⟨hca, hd'', hmem'', hsize⟩
    have hx₁ : InData m₁.heap c x := by
      refine ⟨hx.1, ?_⟩
      rw [Heap.endAt_eq hmem'', hsize, ← Heap.endAt_eq hmem']
      exact hx.2
    exact (hothers c (hh.made c hc) hca x hx₁).trans (hsame c hc x hx)

/-- The whole of `realloc`, for the data in use. -/
lemma realloc_data {live : Nat → Option Nat} {k n : Nat} (hi : m.heap.Inv)
    (hl : m.heap.Holds live) (hp : live (b + headerSize) = some k) (hmem : m.heap.mem b = some hd)
    (hn : n ≠ 0) (hs : realloc L (b + headerSize) n m = some (p, m'))
    (hno : m'.heap.overflowed = false) :
    (∀ i, i < min hd.size n → m'.bytes (p + i) = m.bytes (b + headerSize + i)) ∧
      ∀ c ∈ m.heap.made, c ≠ b → ∀ hd', m.heap.mem c = some hd' → hd'.isFree = false →
        ∀ x, InData m.heap c x → m'.bytes x = m.bytes x := by
  rcases hl _ k hp with ⟨b', hb, heq, hd₀, hmem₀, hused, _⟩
  have hbb : b' = b := (Nat.add_right_cancel heq).symm
  subst hbb
  have hdd : hd₀ = hd := Option.some.inj (hmem₀.symm.trans hmem)
  subst hdd
  have hmagic := hi.magic b' hb hd₀ hmem
  by_cases hfit : n ≤ hd₀.size
  · -- the block is large enough, and nothing is written
    have hpair : b' + headerSize = p ∧ m = m' := by
      simpa [realloc, hn, hmem, hused, hmagic, hfit] using hs
    rcases hpair with ⟨rfl, rfl⟩
    exact ⟨fun _ _ => rfl, fun _ _ _ _ _ _ _ _ => rfl⟩
  simp [realloc, hn, hmem, hused, hmagic, hfit] at hs
  split at hs
  · cases hs
  next ret m₁ halloc =>
  have hno₁ : m₁.heap.overflowed = false := by
    have hheap := moveBlock_heap (L := L) (b' + headerSize) ret m₁
    rw [hs] at hheap
    rw [← Heap.moveBlock_overflowed hheap.symm]
    exact hno
  have hheap : Alloc.alloc n m.heap = some (ret, m₁.heap) := by
    rw [← alloc_heap (L := L), halloc]
    rfl
  rcases Heap.alloc_spec hi hn hheap hno₁ with ⟨a, rfl, hh⟩
  rcases alloc_moveBlock_data hb hmem hused (Nat.lt_of_not_le hfit) hh
    (alloc_data hi halloc hno₁) hs with ⟨hcopied, hothers⟩
  refine ⟨fun i hlt => hcopied i (Nat.lt_of_lt_of_le hlt (Nat.min_le_left _ _)), ?_⟩
  intro c hc _
  exact hothers c hc

end Memory

namespace World

/-- The pointer is live, and its block is in use and has room for `n` bytes. -/
def InUse (w : World) (p n : Nat) : Prop :=
  w.live p = some n ∧
    ∃ hd, w.heap.mem (p - headerSize) = some hd ∧ hd.isFree = false ∧ n ≤ hd.size

variable {w : World} {p n : Nat}

lemma Inv.inUse (hi : w.Inv) (hp : w.live p = some n) : w.InUse p n := by
  rcases hi.holds p n hp with ⟨a, _, rfl, hd, hmem, hfree, hn⟩
  refine ⟨hp, hd, ?_, hfree, hn⟩
  rwa [Nat.add_sub_cancel]

end World

/-- `realloc` of a live pointer `p` in any reachable state, as long as the heap does not overflow: if it
returns a pointer, the bytes there are those that were at `p`, as far as both blocks go, and there is
room for what was asked for; if it returns null, `p` is as it was; and so are all other blocks. -/
theorem realloc_preserves (L : Layout) {mem : Nat → Option Header} {w : World}
    (hrun : Run World.step (fun w op => w.Allowed op ∧ w.NoOverflow op) (World.start mem) w)
    {p k n q : Nat} {hd : Header} {bytes : Bytes} {m' : Memory} (hlive : w.live p = some k)
    (hmem : w.heap.mem (p - headerSize) = some hd) (hn : 1 ≤ n)
    (hs : Memory.realloc L p n ⟨w.heap, bytes⟩ = some (q, m'))
    (hno : q ≠ 0 → m'.heap.overflowed = false) :
    ∃ w', w.step (.realloc p n) = some w' ∧ w'.heap = m'.heap ∧
      (q ≠ 0 → w'.InUse q n ∧ ∀ i, i < min hd.size n → m'.bytes (q + i) = bytes (p + i)) ∧
      (q = 0 → w'.InUse p k ∧ ∀ i, i < hd.size → m'.bytes (p + i) = bytes (p + i)) ∧
      ∀ r j hd', r ≠ p → w.live r = some j → w.heap.mem (r - headerSize) = some hd' →
        w'.InUse r j ∧ ∀ i, i < hd'.size → m'.bytes (r + i) = bytes (r + i) := by
  have hinv : w.Inv :=
    hrun.invariant (World.start_inv mem) fun t op u ht hok hstep => ht.step hok.1 hok.2 hstep
  have hn' : n ≠ 0 := Nat.ne_of_gt hn
  have hheap : realloc p n w.heap = some (q, m'.heap) := by
    have hr := Memory.realloc_heap (L := L) p n ⟨w.heap, bytes⟩
    rw [hs] at hr
    exact hr.symm
  rcases Heap.realloc_pointer hinv.heap hinv.holds hlive hn' hheap with ⟨hq, hpointer⟩
  have hflag := hno hq
  have hstep : w.step (.realloc p n) = some (w.hand p (q, m'.heap) n) := by simp [World.step, hheap]
  have hinv' : (w.hand p (q, m'.heap) n).Inv :=
    hinv.realloc (Or.inr ⟨k, hlive⟩) (World.noOverflow_of_step hstep hflag) hstep
  rcases hinv.holds p k hlive with ⟨b, hb, rfl, _⟩
  rw [Nat.add_sub_cancel] at hmem
  have hdata := Memory.realloc_data (m := ⟨w.heap, bytes⟩) hinv.heap hinv.holds hlive hmem hn' hs
    hflag
  refine ⟨_, hstep, rfl, ?_, fun hnull => absurd hnull hq, ?_⟩
  · intro _
    refine ⟨hinv'.inUse ?_, hdata.1⟩
    simp [World.hand, hq]
  · intro r j hd' hr hj hmem'
    rcases hinv.holds r j hj with ⟨c, hc, rfl, hd₀, hmem₀, hused, _⟩
    rw [Nat.add_sub_cancel, hmem₀] at hmem'
    have hdd : hd₀ = hd' := Option.some.inj hmem'
    subst hdd
    have hcb : c ≠ b := by
      rintro rfl
      exact hr rfl
    -- the pointer returned is the old one or was not live
    have hrq : c + headerSize ≠ q := by
      rintro rfl
      rcases hpointer hflag with heq | hnone
      · exact hr heq
      · rw [hj] at hnone
        cases hnone
    refine ⟨hinv'.inUse ?_, ?_⟩
    · have hlive' : (w.hand (b + headerSize) (q, m'.heap) n).live (c + headerSize) =
          w.live (c + headerSize) := by
        simp [World.hand, hq, hrq, hcb]
      rw [hlive', hj]
    · intro i hi
      refine hdata.2 c hc hcb hd₀ hmem₀ hused _ ⟨Nat.le_add_right _ _, ?_⟩
      show c + headerSize + i < w.heap.endAt c
      rw [Heap.endAt_eq hmem₀]
      omega

def blankLayout : Layout where
  put := fun a _ bytes x => if a ≤ x ∧ x < a + headerSize then 0#8 else bytes x
  put_apart := fun _ _ _ _ hx => if_neg (by omega)

/-- A block of 16 bytes grows to 100 and moves. -/
theorem realloc_preserves_sample :
    ∃ w w' m', exec World.step (World.start fun _ => none) [.alloc 16, .alloc 8] = some w ∧
      Memory.realloc blankLayout (heapBase + 64) 100 ⟨w.heap, fun x => BitVec.ofNat 8 x⟩ =
        some (heapBase + 320, m') ∧
      w.step (.realloc (heapBase + 64) 100) = some w' ∧ w'.InUse (heapBase + 320) 100 ∧
      ∀ i, i < 16 → m'.bytes (heapBase + 320 + i) = BitVec.ofNat 8 (heapBase + 64 + i) := by
  have hsteps : ∃ w₁ w₂ hd m', (World.start fun _ => none).step (.alloc 16) = some w₁ ∧
      w₁.step (.alloc 8) = some w₂ ∧ w₁.heap.overflowed = false ∧ w₂.heap.overflowed = false ∧
      w₂.live (heapBase + 64) = some 16 ∧ w₂.heap.mem (heapBase + 64 - headerSize) = some hd ∧
      hd.size = 16 ∧
      Memory.realloc blankLayout (heapBase + 64) 100 ⟨w₂.heap, fun x => BitVec.ofNat 8 x⟩ =
        some (heapBase + 320, m') ∧ m'.heap.overflowed = false :=
    ⟨_, _, _, _, rfl, rfl, rfl, rfl, rfl, rfl, rfl, rfl, rfl⟩
  rcases hsteps with ⟨w₁, w₂, hd, m', hs₁, hs₂, hno₁, hno₂, hlive, hmem, hsize, hrealloc, hno⟩
  have hrun : Run World.step (fun w op => w.Allowed op ∧ w.NoOverflow op)
      (World.start fun _ => none) w₂ := by
    refine Run.tail (Run.single ?_ hs₁) ?_ hs₂
    · exact ⟨trivial, World.noOverflow_of_step hs₁ hno₁⟩
    · exact ⟨trivial, World.noOverflow_of_step hs₂ hno₂⟩
  rcases realloc_preserves blankLayout hrun hlive hmem (by decide) hrealloc fun _ => hno with
    ⟨w', hstep, _, hmoved, _⟩
  rcases hmoved (by decide) with ⟨huse, hbytes⟩
  refine ⟨w₂, w', m', by simp [exec, hs₁, hs₂], hrealloc, hstep, huse, ?_⟩
  intro i hi
  refine hbytes i ?_
  rw [hsize]
  omega

end SigmaOS.Mm.Alloc
