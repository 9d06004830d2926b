import SigmaOS.Lib.Run
import SigmaOS.Mm.HeapSpec

/-!
# Mm.HeapSafety — blocks of the kernel heap do not overlap

The heap with its callers, in any sequence of calls.  `heap_safe`: live blocks are disjoint from each
other and from all headers and lie in mapped pages, the list of headers is complete and intact,
`check_for_corruption` finds nothing, and every call returns for which there is room.
-/

namespace SigmaOS.Mm.Alloc

open Lib List Option
open Mm.Pmm (blockSize u64)

namespace World

variable {w w' : World} {op : Op} {ptr size align : Nat}

structure Inv (w : World) : Prop where
  heap : w.heap.Inv
  holds : w.heap.Holds w.live

lemma noOverflow_of_step (hs : w.step op = some w') (hno : w'.heap.overflowed = false) :
    w.NoOverflow op := by
  intro w'' hs'
  rw [← Option.some.inj (hs.symm.trans hs')]
  exact hno

section

variable (hi : w.Inv)
include hi

lemma Inv.handed {out : Nat × Heap} {a : Nat} (hout : out.1 = a + headerSize)
    (hh : w.heap.Handed a size out.2) : (w.hand 0 out size).Inv := by
  refine ⟨hh.inv, ?_⟩
  have hlive : (w.hand 0 out size).live = Function.update w.live (a + headerSize) (some size) := by
    simp [hand, hout]
  rw [hlive]
  exact hh.holds hi.holds

lemma Inv.alloc (hno : w.NoOverflow (.alloc size)) (hs : w.step (.alloc size) = some w') :
    w'.Inv := by
  have hflag := hno w' hs
  rcases map_eq_some_iff.1 hs with ⟨out, hout, rfl⟩
  by_cases hsize : size = 0
  · have heq : out = (0, w.heap) := by simpa [Alloc.alloc, hsize] using hout.symm
    rw [heq]
    exact ⟨hi.heap, by simpa [hand] using hi.holds⟩
  · rcases Heap.alloc_spec hi.heap hsize hout hflag with ⟨a, hptr, hh⟩
    exact hi.handed hptr hh

lemma Inv.allocA (halign : ∃ k, k < 64 ∧ align = 2 ^ k) (hno : w.NoOverflow (.allocA size align))
    (hs : w.step (.allocA size align) = some w') : w'.Inv := by
  have hflag := hno w' hs
  rcases map_eq_some_iff.1 hs with ⟨out, hout, rfl⟩
  rcases Heap.newBlock_spec hi.heap halign hout hflag with ⟨a, hptr, happended⟩
  exact hi.handed hptr happended.handed

lemma Inv.free (hvalid : w.Valid ptr) (hs : w.step (.free ptr) = some w') : w'.Inv := by
  rcases map_eq_some_iff.1 hs with ⟨h', hfree, rfl⟩
  rcases hvalid with rfl | ⟨n, hp⟩
  · have heq : w.heap = h' := by simpa [Alloc.free] using hfree
    rw [← heq]
    exact ⟨hi.heap, by simpa [hand] using hi.holds⟩
  · rcases hi.holds ptr n hp with ⟨a, _, hptr, _⟩
    rcases Heap.free_spec hi.heap hi.holds hp with ⟨h'', hfree', hi', hl', _⟩
    have heq : h'' = h' := Option.some.inj (hfree'.symm.trans hfree)
    rw [← heq]
    exact ⟨hi', by simpa [hand, hptr] using hl'⟩

/-- `realloc` of a valid pointer keeps the invariant. -/
lemma Inv.realloc (hvalid : w.Valid ptr) (hno : w.NoOverflow (.realloc ptr size))
    (hs : w.step (.realloc ptr size) = some w') : w'.Inv := by
  have hflag := hno w' hs
  rcases map_eq_some_iff.1 hs with ⟨out, hout, rfl⟩
  rcases Heap.realloc_cases hout with
    ⟨rfl, hnull, hfreed⟩ | ⟨hsize, rfl, halloc⟩ | ⟨hsize, hptr, hd, hmem, hends⟩
  · refine hi.free hvalid ?_
    rw [World.step, hfreed, ← hnull]
    rfl
  · rcases Heap.alloc_spec hi.heap hsize halloc hflag with ⟨a, hptr, hh⟩
    exact hi.handed hptr hh
  rcases hvalid.resolve_left hptr with ⟨n, hp⟩
  rcases hi.holds ptr n hp with ⟨a, ha, rfl, hd', hmem', hfree, _⟩
  rw [Nat.add_sub_cancel, hmem'] at hmem
  cases hmem
  rcases hends with ⟨_, rfl⟩ | ⟨hfit, rfl⟩ | ⟨hfit, ret, h₁, halloc, hmove⟩
  · exact ⟨hi.heap, by simpa [hand, hsize] using hi.holds⟩
  · -- the block is large enough: it stays, with another size
    refine ⟨hi.heap, ?_⟩
    intro p k hpk
    by_cases hpa : p = a + headerSize
    · subst hpa
      have hk : size = k := by simpa [hand] using hpk
      exact ⟨a, ha, rfl, hd, hmem', hfree, hk ▸ hfit⟩
    · exact hi.holds p k (by simpa [hand, hpa] using hpk)
  · have hflag₁ : h₁.overflowed = false := Heap.moveBlock_overflowed hmove ▸ hflag
    rcases Heap.alloc_spec hi.heap hsize halloc hflag₁ with ⟨b, rfl, hh⟩
    rcases Heap.moveBlock_spec hi.holds hp hh (Heap.size_lt_of_not_le hmem' hfit) with
      ⟨h₂, hmove', hi₂, _, hl₂, _⟩
    have heq : (b + headerSize, h₂) = out := Option.some.inj (hmove'.symm.trans hmove)
    rw [← heq]
    exact ⟨hi₂, by simpa [hand] using hl₂⟩

/-- A store inside a live block keeps the invariant. -/
lemma Inv.store {first len : Nat} (hp : ∃ n, w.live ptr = some n ∧ first + len ≤ n)
    (hs : w.step (.store ptr first len) = some w') : w'.Inv := by
  rcases hp with ⟨n, hp, hlen⟩
  have heq : { w with heap := w.heap.fill (ptr + first) len } = w' := by simpa [step] using hs
  rcases hi.holds ptr n hp with ⟨a, ha, rfl, hd, hmem, _, hn⟩
  have hlo : a + headerSize ≤ a + headerSize + first := Nat.le_add_right _ _
  have hhi : a + headerSize + first + len ≤ w.heap.endAt a := by
    rw [Heap.endAt_eq hmem]
    omega
  rw [← heq]
  exact ⟨(hi.heap.fill ha hlo hhi).inv hi.heap,
    hi.holds.of_same rfl fun b hb => hi.heap.fill_same ha hb hlo hhi⟩

lemma Inv.step (hok : w.Allowed op) (hno : w.NoOverflow op) (hs : w.step op = some w') :
    w'.Inv := by
  cases op with
  | alloc size => exact hi.alloc hno hs
  | allocA size align => exact hi.allocA hok hno hs
  | realloc ptr size => exact hi.realloc hok hno hs
  | free ptr => exact hi.free hok hs
  | store ptr first len => exact hi.store hok hs

end

/-- The empty heap. -/
lemma start_inv (mem : Nat → Option Header) : (start mem).Inv := by
  refine ⟨⟨rfl, rfl, ?_, List.Pairwise.nil, Nat.le_refl _, ?_, ?_, ?_⟩, ?_⟩
  · exact nofun
  · exact nofun
  · exact nofun
  · have hpage : (start mem).heap.pageOffset = heapBase + 4 * blockSize := by
      simp [start, Heap.init, Heap.mapPage, Heap.boot, u64, heapBase, blockSize]
    have hmapped : (start mem).heap.mapped = [heapBase + 3 * blockSize, heapBase + 2 * blockSize,
        heapBase + blockSize, heapBase] := by
      simp [start, Heap.init, Heap.mapPage, Heap.boot, u64, heapBase, blockSize]
    have hoffset : (start mem).heap.offset = heapBase := rfl
    refine ⟨?_, ?_, ?_, ?_⟩
    · rw [hpage, hoffset]
      decide
    · rw [hpage]
      decide
    · rw [hpage]
      decide
    · intro x hlo hhi
      rw [hmapped]
      simp only [mem_cons, not_mem_nil, or_false]
      simp only [heapBase, blockSize] at *
      omega
  · intro p n hp
    exact absurd hp (by simp [start])

def RoomFor (w : World) (size align : Nat) : Prop :=
  w.heap.offset + align + (size + headerSize) + blockSize < 2 ^ 64

def Room (w : World) : Op → Prop
  | .alloc size => w.RoomFor size 64
  | .allocA size align => w.RoomFor size align
  | .realloc _ size => w.RoomFor size 64
  | .free _ => True
  | .store _ _ _ => True

/-- With room left, every allowed call returns. -/
lemma Inv.defined (hi : w.Inv) (hflag : w.heap.overflowed = false) (hok : w.Allowed op)
    (hroom : w.Room op) : ∃ w', w.step op = some w' ∧ w'.heap.overflowed = false := by
  cases op with
  | alloc size =>
    rcases Heap.alloc_defined hi.heap hflag hroom with ⟨out, hs, hno⟩
    exact ⟨w.hand 0 out size, by simp [World.step, hs], hno⟩
  | allocA size align =>
    rcases Heap.newBlock_defined hi.heap hflag hok hroom with ⟨out, hs, hno⟩
    exact ⟨w.hand 0 out size, by simp [World.step, Alloc.allocA, hs], hno⟩
  | realloc ptr size =>
    have hdefined : ∃ out, Alloc.realloc ptr size w.heap = some out ∧
        out.2.overflowed = false := by
      rcases hok with rfl | ⟨n, hp⟩
      · rcases Heap.alloc_defined hi.heap hflag hroom with ⟨out, hs, hno⟩
        by_cases hsize : size = 0
        · exact ⟨(0, w.heap), by simp [Alloc.realloc, hsize], hflag⟩
        · exact ⟨out, by simp [Alloc.realloc, hsize, hs], hno⟩
      · exact Heap.realloc_defined hi.heap hi.holds hflag hp hroom
    rcases hdefined with ⟨out, hs, hno⟩
    exact ⟨w.hand ptr out size, by simp [World.step, hs], hno⟩
  | free ptr =>
    rcases hok with rfl | ⟨n, hp⟩
    · exact ⟨w.hand 0 (0, w.heap) 0, by simp [World.step, Alloc.free], hflag⟩
    · rcases Heap.free_spec hi.heap hi.holds hp with ⟨h', hs, _, _, hno⟩
      exact ⟨w.hand ptr (0, h') 0, by simp [World.step, hs], hno.trans hflag⟩
  | store ptr first len => exact ⟨_, rfl, hflag⟩

/-! ## Safety -/

structure Safe (w : World) : Prop where
  disjoint : ∀ p n q k, w.live p = some n → w.live q = some k → p ≠ q →
    Disjoint (Set.Ico p (p + n)) (Set.Ico q (q + k))
  headers : ∀ p n a, w.live p = some n → a ∈ w.heap.made →
    Disjoint (Set.Ico p (p + n)) (Set.Ico a (a + headerSize))
  mapped : ∀ p n x, w.live p = some n → x ∈ Set.Ico p (p + n) →
    x / blockSize * blockSize ∈ w.heap.mapped
  list : Segment w.heap.mem Header.next w.heap.head w.heap.made 0
  tail : w.heap.tail = w.heap.made.getLast?.getD 0
  once : w.heap.made.Nodup
  magic : ∀ a ∈ w.heap.made, ∃ hd, w.heap.mem a = some hd ∧ hd.checkMagic = true
  sound : checkForCorruption w.heap = some false

lemma Inv.live_block {p n : Nat} (hi : w.Inv) (hp : w.live p = some n) :
    ∃ a ∈ w.heap.made, p = a + headerSize ∧ p + n ≤ w.heap.endAt a := by
  rcases hi.holds p n hp with ⟨a, ha, rfl, hd, hmem, _, hn⟩
  refine ⟨a, ha, rfl, ?_⟩
  rw [Heap.endAt_eq hmem]
  exact Nat.add_le_add_left hn _

lemma disjoint_Ico {p n q k : Nat} (h : p + n ≤ q ∨ q + k ≤ p) :
    Disjoint (Set.Ico p (p + n)) (Set.Ico q (q + k)) := by
  refine Set.disjoint_left.2 ?_
  intro x hx hx'
  rw [Set.mem_Ico] at hx hx'
  omega

/-- The invariant says that blocks in use are disjoint and inside. -/
lemma Inv.safe (hi : w.Inv) : w.Safe where
  disjoint := by
    intro p n q k hp hq hpq
    rcases hi.live_block hp with ⟨a, ha, rfl, hend⟩
    rcases hi.live_block hq with ⟨b, hb, rfl, hend'⟩
    have hab : a ≠ b := by
      rintro rfl
      exact hpq rfl
    refine disjoint_Ico ?_
    rcases hi.heap.apart ha hb hab with hle | hle
    · exact .inl (by omega)
    · exact .inr (by omega)
  headers := by
    intro p n b hp hb
    rcases hi.live_block hp with ⟨a, ha, rfl, hend⟩
    exact disjoint_Ico (hi.heap.data_apart ha hb (Nat.le_refl _) hend).symm
  mapped := by
    intro p n x hp hx
    rcases hi.live_block hp with ⟨a, ha, rfl, hend⟩
    rw [Set.mem_Ico] at hx
    have hbase := hi.heap.above a ha
    have hoffset := hi.heap.below a ha
    have hpage := hi.heap.paged.beyond
    exact hi.heap.paged.mapped x (by omega) (by omega)
  list := hi.heap.list
  tail := hi.heap.tail
  once := hi.heap.nodup
  magic := by
    intro a ha
    rcases hi.heap.stored ha with ⟨hd, hmem⟩
    exact ⟨hd, hmem, hi.heap.magic a ha hd hmem⟩
  sound := hi.heap.checkForCorruption_eq

end World

/-- In every sequence of calls in which the callers pass null or live pointers and the end of the heap
does not overflow, the heap is safe after every call; and every further call for which there is room
returns. -/
theorem heap_safe {mem : Nat → Option Header} {w : World}
    (hrun : Run World.step (fun w op => w.Allowed op ∧ w.NoOverflow op) (World.start mem) w) :
    w.Safe ∧ ∀ op, w.Allowed op → w.Room op → ∃ w', w.step op = some w' := by
  have hinv : w.Inv ∧ w.heap.overflowed = false :=
    hrun.invariant (I := fun w => w.Inv ∧ w.heap.overflowed = false)
      ⟨World.start_inv mem, rfl⟩
      fun t op u ht hok hs => ⟨ht.1.step hok.1 hok.2 hs, hok.2 u hs⟩
  refine ⟨hinv.1.safe, ?_⟩
  intro op hok hroom
  rcases hinv.1.defined hinv.2 hok hroom with ⟨w', hs, _⟩
  exact ⟨w', hs⟩

/-- The block that was freed is used again. -/
theorem heap_safe_sample :
    ∃ w, exec World.step (World.start fun _ => none)
        [.alloc 16, .allocA 100 64, .free (heapBase + 64), .alloc 8] = some w ∧
      w.live (heapBase + 64) = some 8 ∧ w.live (heapBase + 192) = some 100 ∧ w.Safe := by
  have hsteps : ∃ w₁ w₂ w₃ w₄, (World.start fun _ => none).step (.alloc 16) = some w₁ ∧
      w₁.step (.allocA 100 64) = some w₂ ∧ w₂.step (.free (heapBase + 64)) = some w₃ ∧
      w₃.step (.alloc 8) = some w₄ ∧ w₁.heap.overflowed = false ∧ w₂.heap.overflowed = false ∧
      w₃.heap.overflowed = false ∧ w₄.heap.overflowed = false ∧
      w₂.live (heapBase + 64) = some 16 ∧ w₄.live (heapBase + 64) = some 8 ∧
      w₄.live (heapBase + 192) = some 100 :=
    ⟨_, _, _, _, rfl, rfl, rfl, rfl, rfl, rfl, rfl, rfl, rfl, rfl, rfl⟩
  rcases hsteps with ⟨w₁, w₂, w₃, w₄, hs₁, hs₂, hs₃, hs₄, hno₁, hno₂, hno₃, hno₄, hlive, hfirst,
    hsecond⟩
  have hrun : Run World.step (fun w op => w.Allowed op ∧ w.NoOverflow op)
      (World.start fun _ => none) w₄ := by
    refine Run.tail (Run.tail (Run.tail (Run.single ?_ hs₁) ?_ hs₂) ?_ hs₃) ?_ hs₄
    · exact ⟨trivial, World.noOverflow_of_step hs₁ hno₁⟩
    · exact ⟨⟨6, by decide, rfl⟩, World.noOverflow_of_step hs₂ hno₂⟩
    · exact ⟨Or.inr ⟨16, hlive⟩, World.noOverflow_of_step hs₃ hno₃⟩
    · exact ⟨trivial, World.noOverflow_of_step hs₄ hno₄⟩
  exact ⟨w₄, by simp [exec, hs₁, hs₂, hs₃, hs₄], hfirst, hsecond, (heap_safe hrun).1⟩

end SigmaOS.Mm.Alloc
