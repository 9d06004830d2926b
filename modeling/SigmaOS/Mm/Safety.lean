import SigmaOS.Lib.Run
import SigmaOS.Mm.Pmm

/-!
# Mm.Safety — what every run of the frame allocator keeps

The entries on the stack are kept aligned, below `2^52` and pairwise disjoint by each of the three
operations, and the free set changes exactly by the blocks handed out or given back.

Entries without pages may stay on the stack (`allocNBlocks` leaves them in place) and later take in
a freed block from either side; nothing below excludes them.
-/

namespace SigmaOS.Mm.Pmm

open RleStackEntry List Set
open Lib

/-! ## Well-formed entries and stacks -/

/-- An aligned entry that ends below `2^52`. -/
structure RleStackEntry.Wf (e : RleStackEntry) : Prop where
  aligned : e.base % blockSize = 0
  bounded : e.base + e.nPages * blockSize ≤ 2 ^ 52

def IsBlock (a : Nat) : Prop :=
  a % blockSize = 0 ∧ a + blockSize ≤ 2 ^ 52

structure RleStack.Wf (s : RleStack) : Prop where
  entry : ∀ i, i < s.pointer → (s.slots i).Wf
  disjoint : ∀ i j, i < s.pointer → j < s.pointer → i ≠ j →
    Disjoint (s.slots i).blocks (s.slots j).blocks

namespace RleStackEntry

variable {e : RleStackEntry} {addr : Nat}

lemma Wf.limit_eq (h : e.Wf) : e.limit = e.base + e.nPages * blockSize := by
  have hb := h.bounded
  rw [limit, u64_of_lt (x := e.nPages * blockSize) (by omega), u64_of_lt (by omega)]

lemma Wf.isBlock (h : e.Wf) (ha : addr ∈ e.blocks) : IsBlock addr := by
  have hmod := extent_mod h.aligned ha
  have hup := extent_upper ha
  exact ⟨hmod, le_trans hup h.bounded⟩

/-- An entry that loses its first `n` pages.  An entry may end at the end of the address space: its
base wraps around when all pages are gone, and then there are no blocks. -/
lemma blocks_drop {n : Nat} (hb : e.base + e.nPages * blockSize ≤ 2 ^ 64) (hn : n ≤ e.nPages) :
    e.blocks = extent blockSize e.base n ∪
        blocks ⟨u64 (e.base + u64 (blockSize * n)), e.nPages - n⟩ ∧
      Disjoint (extent blockSize e.base n)
        (blocks ⟨u64 (e.base + u64 (blockSize * n)), e.nPages - n⟩) := by
  by_cases hall : e.nPages - n = 0
  · have hlen : e.nPages = n := by omega
    have hempty : blocks
        ⟨u64 (e.base + u64 (blockSize * n)), e.nPages - n⟩ = ∅ := by
      rw [blocks, hall, extent_zero]
    rw [hempty, union_empty, blocks, hlen]
    exact ⟨rfl, disjoint_empty _⟩
  · have hlt : (n + 1) * blockSize ≤ e.nPages * blockSize :=
      Nat.mul_le_mul_right _ (by omega)
    simp only [blockSize] at hb hlt
    have hbase : u64 (e.base + u64 (blockSize * n)) = e.base + n * blockSize := by
      simp only [blockSize]
      rw [Nat.mul_comm, u64_of_lt (x := n * 0x1000) (by omega), u64_of_lt (by omega)]
    have hpages : e.nPages = n + (e.nPages - n) := by omega
    rw [blocks, blocks, hbase]
    refine ⟨?_, ?_⟩
    · rw [← extent_add, ← hpages]
    · refine disjoint_left.2 ?_
      intro a ha hrest
      have hup := extent_upper ha
      have hlo := extent_lower hrest
      simp only [blockSize] at hup hlo
      omega

/-- Cutting `n` pages off an entry splits its blocks in two. -/
lemma Wf.drop {n : Nat} (h : e.Wf) (hn : n ≤ e.nPages) :
    RleStackEntry.Wf ⟨u64 (e.base + u64 (blockSize * n)), e.nPages - n⟩ ∧
      e.blocks = extent blockSize e.base n ∪
        blocks ⟨u64 (e.base + u64 (blockSize * n)), e.nPages - n⟩ ∧
      Disjoint (extent blockSize e.base n)
        (blocks ⟨u64 (e.base + u64 (blockSize * n)), e.nPages - n⟩) := by
  have hb := h.bounded
  have hmul : n * blockSize ≤ e.nPages * blockSize := Nat.mul_le_mul_right _ hn
  have hbase : u64 (e.base + u64 (blockSize * n)) = e.base + n * blockSize := by
    rw [Nat.mul_comm blockSize n, u64_of_lt (x := n * blockSize) (by omega),
      u64_of_lt (by omega)]
  have hpages : e.nPages = n + (e.nPages - n) := by omega
  refine ⟨⟨?_, ?_⟩, blocks_drop (by omega) hn⟩
  · simp only [hbase]
    rw [Nat.add_mul_mod_self_right, h.aligned]
  · simp only [hbase]
    have hsplit : e.nPages * blockSize = n * blockSize + (e.nPages - n) * blockSize := by
      rw [← Nat.add_mul, ← hpages]
    omega

/-- An entry grows by an adjacent block. -/
lemma Wf.absorb (h : e.Wf) (ha : IsBlock addr) (hadj : adjacent addr e = true) :
    (absorb addr e).Wf ∧ (absorb addr e).blocks = insert addr e.blocks := by
  have hb := h.bounded
  have hal := h.aligned
  have hamod := ha.1
  have halt := ha.2
  have hpages : u64 (e.nPages + 1) = e.nPages + 1 := by
    refine u64_of_lt ?_
    simp only [blockSize] at hb
    omega
  have haddr : u64 (addr + blockSize) = addr + blockSize := u64_of_lt (by omega)
  by_cases hunder : u64 (addr + blockSize) = e.base
  · -- the block is just under the entry
    have hbase : u64 (e.base + 2 ^ 64 - blockSize) = addr := by
      rw [u64]
      omega
    have heq : Pmm.absorb addr e = ⟨addr, e.nPages + 1⟩ := by
      rw [Pmm.absorb, if_pos hunder, hbase, hpages]
    rw [heq]
    refine ⟨⟨hamod, ?_⟩, ?_⟩
    · simp only [Nat.add_mul, Nat.one_mul]
      omega
    · rw [blocks, extent_succ_left, blocks, ← hunder, haddr]
  · -- the block is just above the entry
    have habove : e.base + e.nPages * blockSize = addr := by
      have hor : u64 (addr + blockSize) = e.base ∨ e.limit = addr := by simpa [adjacent] using hadj
      rcases hor with hor | hor
      · exact absurd hor hunder
      · rw [← h.limit_eq, hor]
    have heq : Pmm.absorb addr e = ⟨e.base, e.nPages + 1⟩ := by simp [Pmm.absorb, hunder, hpages]
    rw [heq]
    refine ⟨⟨hal, ?_⟩, ?_⟩
    · simp only [Nat.add_mul, Nat.one_mul]
      omega
    · rw [blocks, extent_succ_right, blocks, habove]

end RleStackEntry

namespace RleStack

variable {s s' : RleStack} {e ent : RleStackEntry} {i n addr : Nat}

lemma blocks_subset_free (hi : i < s.pointer) : (s.slots i).blocks ⊆ s.free :=
  fun _ ha => ⟨i, hi, ha⟩

lemma free_write (hi : i < s.pointer) :
    (s.write i e).free = e.blocks ∪ {a | ∃ j, j < s.pointer ∧ j ≠ i ∧ a ∈ (s.slots j).blocks} := by
  ext a
  constructor
  · rintro ⟨j, hj, ha⟩
    by_cases hji : j = i
    · subst hji
      exact .inl (by simpa [write] using ha)
    · exact .inr ⟨j, hj, hji, by simpa [write, hji] using ha⟩
  · rintro (ha | ⟨j, hj, hji, ha⟩)
    · exact ⟨i, hi, by simpa [write] using ha⟩
    · exact ⟨j, hj, by simpa [write, hji] using ha⟩

lemma free_eq_at (hi : i < s.pointer) :
    s.free =
      (s.slots i).blocks ∪ {a | ∃ j, j < s.pointer ∧ j ≠ i ∧ a ∈ (s.slots j).blocks} := by
  have hself : s.write i (s.slots i) = s := by simp [write]
  rw [← free_write hi, hself]

/-- Replacing an entry keeps the stack well formed when the new entry only has blocks of the old
one and blocks that were not free. -/
lemma Wf.write (h : s.Wf) (hi : i < s.pointer) (he : e.Wf)
    (hnew : ∀ a ∈ e.blocks, a ∈ (s.slots i).blocks ∨ a ∉ s.free) : (s.write i e).Wf := by
  have hother : ∀ j, j < s.pointer → j ≠ i → Disjoint e.blocks (s.slots j).blocks := by
    intro j hj hji
    refine disjoint_left.2 ?_
    intro a ha haj
    rcases hnew a ha with hold | hout
    · exact disjoint_left.1 (h.disjoint i j hi hj (Ne.symm hji)) hold haj
    · exact hout ⟨j, hj, haj⟩
  refine ⟨?_, ?_⟩
  · intro j hj
    by_cases hji : j = i
    · subst hji
      simpa [RleStack.write] using he
    · simpa [RleStack.write, hji] using h.entry j hj
  · intro j k hj hk hjk
    by_cases hji : j = i
    · subst hji
      have hkj : k ≠ j := Ne.symm hjk
      simpa [RleStack.write, hkj] using hother k hk hkj
    · by_cases hki : k = i
      · subst hki
        simpa [RleStack.write, hji] using (hother j hj hji).symm
      · simpa [RleStack.write, hji, hki] using h.disjoint j k hj hk hjk

/-! ## `pop` and `push` -/

lemma pop_some (hpop : s.pop = some (ent, s')) :
    ∃ n, s.pointer = n + 1 ∧ ent = s.slots n ∧ s' = { s with pointer := n } := by
  unfold RleStack.pop at hpop
  split at hpop
  · cases hpop
  next n hp =>
  cases hpop
  exact ⟨n, hp, rfl, rfl⟩

lemma push_some (hpush : s.push e = some s') :
    s' = { s with slots := Function.update s.slots s.pointer e, pointer := s.pointer + 1 } := by
  have hs' : s.pointer + 2 ≠ s.top ∧
      { s with slots := Function.update s.slots s.pointer e, pointer := s.pointer + 1 } = s' := by
    simpa [RleStack.push] using hpush
  exact hs'.2.symm

/-- What `pop` (and the loop around it) leaves behind: the entry taken off and a stack that
together stand for the old free set. -/
structure Popped (s : RleStack) (ent : RleStackEntry) (s' : RleStack) : Prop where
  entry : ent.Wf
  wf : s'.Wf
  free_eq : s.free = ent.blocks ∪ s'.free
  disjoint : Disjoint ent.blocks s'.free

/-- What a pop takes away. -/
lemma Wf.pop (h : s.Wf) (hpop : s.pop = some (ent, s')) : Popped s ent s' := by
  rcases pop_some hpop with ⟨n, hp, rfl, rfl⟩
  have hn : n < s.pointer := by omega
  refine ⟨h.entry n hn, ⟨?_, ?_⟩, ?_, ?_⟩
  · intro i hi
    exact h.entry i (Nat.lt_trans hi hn)
  · intro i j hi hj hij
    exact h.disjoint i j (Nat.lt_trans hi hn) (Nat.lt_trans hj hn) hij
  · ext a
    constructor
    · rintro ⟨i, hi, ha⟩
      by_cases hin : i = n
      · subst hin
        exact .inl ha
      · exact .inr ⟨i, by show i < n; omega, ha⟩
    · rintro (ha | ⟨i, hi, ha⟩)
      · exact ⟨n, hn, ha⟩
      · exact ⟨i, Nat.lt_trans hi hn, ha⟩
  · refine disjoint_left.2 ?_
    rintro a ha ⟨i, hi, hai⟩
    have hin : n ≠ i := (Nat.ne_of_lt hi).symm
    exact disjoint_left.1 (h.disjoint n i hn (Nat.lt_trans hi hn) hin) ha hai

/-- Pushing an entry adds its blocks to the free set. -/
lemma free_push (hpush : s.push e = some s') : s'.free = e.blocks ∪ s.free := by
  rcases push_some hpush with rfl
  ext a
  constructor
  · rintro ⟨i, hi, ha⟩
    by_cases hip : i = s.pointer
    · subst hip
      exact .inl (by simpa using ha)
    · have hlt : i < s.pointer := by
        have hle : i < s.pointer + 1 := hi
        omega
      exact .inr ⟨i, hlt, by simpa [hip] using ha⟩
  · rintro (ha | ⟨i, hi, ha⟩)
    · exact ⟨s.pointer, Nat.lt_succ_self _, by simpa using ha⟩
    · exact ⟨i, Nat.lt_succ_of_lt hi, by simpa [Nat.ne_of_lt hi] using ha⟩

/-- An entry of other blocks is pushed. -/
lemma Wf.push (h : s.Wf) (he : e.Wf) (hdis : Disjoint e.blocks s.free)
    (hpush : s.push e = some s') : s'.Wf := by
  rcases push_some hpush with rfl
  have hnew : ∀ j, j < s.pointer → Disjoint e.blocks (s.slots j).blocks := fun j hj =>
    hdis.mono_right (blocks_subset_free hj)
  refine ⟨?_, ?_⟩
  · intro i hi
    by_cases hip : i = s.pointer
    · subst hip
      simpa using he
    · have hlt : i < s.pointer := Nat.lt_of_le_of_ne (Nat.le_of_lt_succ hi) hip
      simpa [hip] using h.entry i hlt
  · intro i j hi hj hij
    by_cases hip : i = s.pointer
    · subst hip
      have hlt : j < s.pointer := Nat.lt_of_le_of_ne (Nat.le_of_lt_succ hj) (Ne.symm hij)
      simpa [Ne.symm hij] using hnew j hlt
    · have hilt : i < s.pointer := Nat.lt_of_le_of_ne (Nat.le_of_lt_succ hi) hip
      by_cases hjp : j = s.pointer
      · subst hjp
        simpa [hip] using (hnew i hilt).symm
      · have hjlt : j < s.pointer := Nat.lt_of_le_of_ne (Nat.le_of_lt_succ hj) hjp
        simpa [hip, hjp] using h.disjoint i j hilt hjlt hij

end RleStack

section Operations

variable {s s' : RleStack} {ent : RleStackEntry} {n b addr : Nat}

/-- The block comes from the popped entry, whose rest is pushed back. -/
lemma allocBlock_cases (h : allocBlock s = some (b, s')) :
    ∃ e t, popNonempty (s.pointer + 1) s = some (e, t) ∧ b = e.base ∧
      (e.nPages - 1 = 0 ∧ s' = t ∨
        e.nPages - 1 ≠ 0 ∧ t.push ⟨u64 (e.base + blockSize), e.nPages - 1⟩ = some s') := by
  simp only [allocBlock] at h
  split at h
  · cases h
  next e t hpop =>
  refine ⟨e, t, hpop, ?_⟩
  split at h
  · next hmore =>
    split at h
    · cases h
    next hpush =>
    cases h
    exact ⟨rfl, .inr ⟨hmore, hpush⟩⟩
  · next hlast =>
    cases h
    exact ⟨rfl, .inl ⟨not_not.1 hlast, rfl⟩⟩

/-- Entries without pages are passed over. -/
lemma popNonempty_spec {fuel : Nat} {s : RleStack} (hwf : s.Wf)
    (h : popNonempty fuel s = some (ent, s')) : RleStack.Popped s ent s' ∧ ent.nPages ≠ 0 := by
  induction fuel generalizing s with
  | zero => cases h
  | succ fuel ih =>
    unfold popNonempty at h
    split at h
    · cases h
    next e t hpop =>
    have hpopped := hwf.pop hpop
    split at h
    · next hz =>
      -- an empty entry: the free set of `t` is that of `s`
      rcases ih hpopped.wf h with ⟨hp, hne⟩
      have hempty : e.blocks = ∅ := by rw [blocks, hz, extent_zero]
      have hfree : s.free = t.free := by rw [hpopped.free_eq, hempty, empty_union]
      exact ⟨⟨hp.entry, hp.wf, hfree.trans hp.free_eq, hp.disjoint⟩, hne⟩
    · next hz =>
      cases h
      exact ⟨hpopped, hz⟩

/-- One free block is taken. -/
lemma allocBlock_spec (hwf : s.Wf) (h : allocBlock s = some (b, s')) :
    s'.Wf ∧ b ∈ s.free ∧ s'.free = s.free \ {b} := by
  rcases allocBlock_cases h with ⟨e, t, hpop, rfl, hends⟩
  rcases popNonempty_spec hwf hpop with ⟨hp, hne⟩
  have hone : 1 ≤ e.nPages := Nat.one_le_iff_ne_zero.2 hne
  have hdrop := hp.entry.drop hone
  have hbase : u64 (e.base + u64 (blockSize * 1)) = u64 (e.base + blockSize) := by
    simp [u64, blockSize]
  rw [hbase, extent_one] at hdrop
  rcases hdrop with ⟨hrestWf, hblocks, hsplit⟩
  have hnotin := disjoint_singleton_left.1 hsplit
  have hbfree : e.base ∈ s.free := by
    rw [hp.free_eq, hblocks]
    exact .inl (.inl rfl)
  have hbt : e.base ∉ t.free := by
    refine disjoint_left.1 hp.disjoint ?_
    rw [hblocks]
    exact .inl rfl
  have hfree : blocks ⟨u64 (e.base + blockSize), e.nPages - 1⟩ ∪ t.free =
      s.free \ {e.base} := by
    rw [hp.free_eq, hblocks, union_assoc, singleton_union,
      insert_sdiff_self_of_notMem]
    rintro (hin | hin)
    · exact hnotin hin
    · exact hbt hin
  rcases hends with ⟨hlast, rfl⟩ | ⟨_, hpush⟩
  · refine ⟨hp.wf, hbfree, ?_⟩
    rw [← hfree, hlast, blocks, extent_zero, empty_union]
  · have hdis : Disjoint
        (blocks ⟨u64 (e.base + blockSize), e.nPages - 1⟩) t.free := by
      refine hp.disjoint.mono_left ?_
      rw [hblocks]
      exact subset_union_right
    exact ⟨hp.wf.push hrestWf hdis hpush, hbfree, (RleStack.free_push hpush).trans hfree⟩

lemma freeBlock_cases (h : freeBlock addr s = some s') :
    (∃ i, i < s.pointer ∧ adjacent addr (s.slots i) = true ∧
      s' = s.write i (absorb addr (s.slots i))) ∨ s.push ⟨addr, 1⟩ = some s' := by
  cases hfind : (List.range s.pointer).find? (fun i => adjacent addr (s.slots i)) with
  | some i =>
    have hs' : s.write i (absorb addr (s.slots i)) = s' := by simpa [freeBlock, hfind] using h
    have hi : i < s.pointer := mem_range.1 (mem_of_find?_eq_some hfind)
    exact .inl ⟨i, hi, by simpa using List.find?_some hfind, hs'.symm⟩
  | none => exact .inr (by simpa [freeBlock, hfind] using h)

/-- Freeing keeps the stack well formed and adds the one block. -/
lemma freeBlock_spec (hwf : s.Wf) (ha : IsBlock addr) (hout : addr ∉ s.free)
    (h : freeBlock addr s = some s') : s'.Wf ∧ s'.free = insert addr s.free := by
  rcases freeBlock_cases h with ⟨i, hi, hadj, rfl⟩ | hpush
  · rcases (hwf.entry i hi).absorb ha hadj with ⟨hnewWf, hnewBlocks⟩
    refine ⟨hwf.write hi hnewWf ?_, ?_⟩
    · intro a hain
      rw [hnewBlocks] at hain
      rcases hain with rfl | hin
      · exact .inr hout
      · exact .inl hin
    · rw [RleStack.free_write hi, hnewBlocks, RleStack.free_eq_at hi, insert_union]
  · have hblocks : blocks ⟨addr, 1⟩ = {addr} := extent_one
    refine ⟨hwf.push ⟨ha.1, by simpa using ha.2⟩ ?_ hpush, ?_⟩
    · rw [hblocks]
      exact disjoint_singleton_left.2 hout
    · rw [RleStack.free_push hpush, hblocks, singleton_union]

/-- What holds of the accumulator at every round of the scan in `alloc_n_blocks` over `s`: the
entries only shrink, and the last run of blocks taken out (if there is one) was free in `s` and is
not free any more. -/
structure NScan (n : Nat) (s : RleStack) (acc : Nat × RleStack) : Prop where
  pointer : acc.2.pointer = s.pointer
  wf : acc.2.Wf
  shrinks : acc.2.free ⊆ s.free
  taken : acc.1 = 0 ∨
    (extent blockSize acc.1 n ⊆ s.free ∧ Disjoint (extent blockSize acc.1 n) acc.2.free)

/-- One entry of the scan for `n` blocks. -/
lemma NScan.step {acc : Nat × RleStack} {i : Nat} (h : NScan n s acc) (hi : i < s.pointer) :
    NScan n s (allocNScan n acc i) := by
  rcases acc with ⟨b, t⟩
  have hit : i < t.pointer := by
    have hp : t.pointer = s.pointer := h.pointer
    omega
  by_cases hn : n ≤ (t.slots i).nPages
  · have hacc : allocNScan n (b, t) i = ((t.slots i).base, t.write i
        ⟨u64 ((t.slots i).base + u64 (blockSize * n)), (t.slots i).nPages - n⟩) := by
      simp [allocNScan, hn]
    rw [hacc]
    rcases (h.wf.entry i hit).drop hn with ⟨hrestWf, hblocks, hsplit⟩
    have hsub : blocks
        ⟨u64 ((t.slots i).base + u64 (blockSize * n)), (t.slots i).nPages - n⟩ ⊆
          (t.slots i).blocks := by
      rw [hblocks]
      exact subset_union_right
    have htaken : extent blockSize (t.slots i).base n ⊆ (t.slots i).blocks := by
      rw [hblocks]
      exact subset_union_left
    have hshrink : (t.write i
        ⟨u64 ((t.slots i).base + u64 (blockSize * n)), (t.slots i).nPages - n⟩).free ⊆ t.free := by
      rw [RleStack.free_write hit, RleStack.free_eq_at hit]
      exact union_subset_union_left _ hsub
    refine ⟨h.pointer, h.wf.write hit hrestWf (fun a ha => .inl (hsub ha)),
      hshrink.trans h.shrinks, .inr ⟨?_, ?_⟩⟩
    · exact (htaken.trans (RleStack.blocks_subset_free hit)).trans h.shrinks
    · -- the blocks taken are neither in the rest of the entry nor in another entry
      rw [RleStack.free_write hit]
      refine disjoint_left.2 ?_
      intro a ha hin
      rcases hin with hin | ⟨j, hj, hji, haj⟩
      · exact disjoint_left.1 hsplit ha hin
      · exact disjoint_left.1 (h.wf.disjoint i j hit hj (Ne.symm hji)) (htaken ha) haj
  · have hacc : allocNScan n (b, t) i = (b, t) := by simp [allocNScan, hn]
    rw [hacc]
    exact h

lemma NScan.foldl {is : List Nat} {acc : Nat × RleStack} (hlt : ∀ i ∈ is, i < s.pointer)
    (h : NScan n s acc) : NScan n s (is.foldl (allocNScan n) acc) := by
  induction is generalizing acc with
  | nil => exact h
  | cons i is ih =>
    exact ih (fun j hj => hlt j (mem_cons_of_mem _ hj)) (h.step (hlt i mem_cons_self))

/-- The `n` blocks `alloc_n_blocks` returns were free and are not free any more.  Other blocks may
leave the free set too: every entry that is big enough loses `n` pages. -/
lemma allocNBlocks_spec (hwf : s.Wf) (h : allocNBlocks n s = some (b, s')) :
    s'.Wf ∧ extent blockSize b n ⊆ s.free ∧ s'.free ⊆ s.free \ extent blockSize b n := by
  have hstart : NScan n s (0, s) := ⟨rfl, hwf, subset_rfl, .inl rfl⟩
  have hend : NScan n s ((List.range s.pointer).foldl (allocNScan n) (0, s)) :=
    NScan.foldl (fun i hi => mem_range.1 hi) hstart
  simp only [allocNBlocks] at h
  split at h
  · cases h
  next hz =>
  rw [Option.some.inj h] at hend hz
  rcases hend.taken with h0 | ⟨hin, hdis⟩
  · exact absurd h0 hz
  · exact ⟨hend.wf, hin, fun a ha =>
      ⟨hend.shrinks ha, fun hab => disjoint_left.1 hdis hab ha⟩⟩

end Operations

/-! ## Runs -/

structure Pool where
  stack : RleStack
  outstanding : Finset Nat

inductive Call
  | allocBlock
  | allocNBlocks (n : Nat)
  | freeBlock (addr : Nat)
  deriving DecidableEq, Repr

def run (b n : Nat) : Finset Nat :=
  (Finset.range n).image (fun k => b + k * blockSize)

variable {p : Pool} {s : RleStack} {c : Call}

lemma mem_run {a b n : Nat} : a ∈ run b n ↔ a ∈ extent blockSize b n := by
  constructor
  · intro h
    rcases Finset.mem_image.1 h with ⟨k, hk, rfl⟩
    exact ⟨k, Finset.mem_range.1 hk, rfl⟩
  · rintro ⟨k, hk, rfl⟩
    exact Finset.mem_image.2 ⟨k, Finset.mem_range.2 hk, rfl⟩

def Pool.call (p : Pool) : Call → Option (Finset Nat × Pool)
  | .allocBlock =>
    match allocBlock p.stack with
    | none => none
    | some (b, s) => some ({b}, ⟨s, insert b p.outstanding⟩)
  | .allocNBlocks n =>
    match allocNBlocks n p.stack with
    | none => none
    | some (b, s) => some (run b n, ⟨s, p.outstanding ∪ run b n⟩)
  | .freeBlock addr =>
    match freeBlock addr p.stack with
    | none => none
    | some s => some (∅, ⟨s, p.outstanding.erase addr⟩)

def Pool.step (p : Pool) (c : Call) : Option Pool :=
  (p.call c).map Prod.snd

/-- The calls considered: runs of at least one block, and `free_block` of outstanding blocks. -/
def Pool.Legal (p : Pool) : Call → Prop
  | .allocBlock => True
  | .allocNBlocks n => 1 ≤ n
  | .freeBlock addr => addr ∈ p.outstanding

/-- The regions are well formed and pairwise disjoint, and no outstanding block is in one. -/
structure Pool.Inv (p : Pool) : Prop where
  wf : p.stack.Wf
  isBlock : ∀ a ∈ p.outstanding, IsBlock a
  apart : ∀ a ∈ p.outstanding, a ∉ p.stack.free

/-- What one legal call does: the blocks it returns are not outstanding, `alloc_block` takes exactly
the block it returns out of the free set, and `free_block` adds exactly the block it is given. -/
structure Pool.CallSafe (p : Pool) (c : Call) (blocks : Finset Nat) (p' : Pool) : Prop where
  fresh : ∀ a ∈ blocks, a ∉ p.outstanding
  alloc : c = .allocBlock →
    ∃ b ∈ p.stack.free, blocks = {b} ∧ p'.stack.free = p.stack.free \ {b}
  free : ∀ addr, c = .freeBlock addr →
    addr ∉ p.stack.free ∧ p'.stack.free = insert addr p.stack.free

/-- A block goes from the free ones to those outstanding. -/
lemma Pool.Inv.allocBlock {b : Nat} (h : p.Inv) (ha : Pmm.allocBlock p.stack = some (b, s)) :
    Pool.Inv ⟨s, insert b p.outstanding⟩ ∧
      p.CallSafe .allocBlock {b} ⟨s, insert b p.outstanding⟩ := by
  rcases allocBlock_spec h.wf ha with ⟨hwf, hb, hfree⟩
  refine ⟨⟨hwf, ?_, ?_⟩, ⟨?_, ?_, ?_⟩⟩
  · intro a hin
    rcases Finset.mem_insert.1 hin with rfl | hin
    · rcases hb with ⟨i, hi, hbi⟩
      exact (h.wf.entry i hi).isBlock hbi
    · exact h.isBlock a hin
  · intro a hin hafree
    have hafree' : a ∈ p.stack.free \ {b} := hfree ▸ hafree
    rcases Finset.mem_insert.1 hin with rfl | hin
    · exact hafree'.2 rfl
    · exact h.apart a hin hafree'.1
  · intro a hin hout
    have hab : a = b := Finset.mem_singleton.1 hin
    subst hab
    exact h.apart a hout hb
  · intro _
    exact ⟨b, hb, rfl, hfree⟩
  · intro addr hne
    cases hne

/-- A run of blocks does. -/
lemma Pool.Inv.allocNBlocks {n b : Nat} (h : p.Inv)
    (ha : Pmm.allocNBlocks n p.stack = some (b, s)) :
    Pool.Inv ⟨s, p.outstanding ∪ run b n⟩ ∧
      p.CallSafe (.allocNBlocks n) (run b n) ⟨s, p.outstanding ∪ run b n⟩ := by
  rcases allocNBlocks_spec h.wf ha with ⟨hwf, hin, hsub⟩
  refine ⟨⟨hwf, ?_, ?_⟩, ⟨?_, ?_, ?_⟩⟩
  · intro a hout
    rcases Finset.mem_union.1 hout with hout | hout
    · exact h.isBlock a hout
    · rcases hin (mem_run.1 hout) with ⟨i, hi, hai⟩
      exact (h.wf.entry i hi).isBlock hai
  · intro a hout hafree
    have hafree' := hsub hafree
    rcases Finset.mem_union.1 hout with hout | hout
    · exact h.apart a hout hafree'.1
    · exact hafree'.2 (mem_run.1 hout)
  · intro a hain hout
    exact h.apart a hout (hin (mem_run.1 hain))
  · intro hne
    cases hne
  · intro addr hne
    cases hne

/-- A block comes back. -/
lemma Pool.Inv.freeBlock {addr : Nat} (h : p.Inv) (hout : addr ∈ p.outstanding)
    (ha : Pmm.freeBlock addr p.stack = some s) :
    Pool.Inv ⟨s, p.outstanding.erase addr⟩ ∧
      p.CallSafe (.freeBlock addr) ∅ ⟨s, p.outstanding.erase addr⟩ := by
  rcases freeBlock_spec h.wf (h.isBlock addr hout) (h.apart addr hout) ha with ⟨hwf, hfree⟩
  refine ⟨⟨hwf, ?_, ?_⟩, ⟨?_, ?_, ?_⟩⟩
  · intro a hin
    exact h.isBlock a (Finset.mem_of_mem_erase hin)
  · intro a hin hafree
    have hafree' : a ∈ insert addr p.stack.free := hfree ▸ hafree
    rcases hafree' with rfl | hafree'
    · exact Finset.ne_of_mem_erase hin rfl
    · exact h.apart a (Finset.mem_of_mem_erase hin) hafree'
  · intro a hin
    simp at hin
  · intro hne
    cases hne
  · intro addr' heq
    cases heq
    exact ⟨h.apart addr hout, hfree⟩

/-- Every legal call keeps the invariant and is safe. -/
lemma Pool.Inv.call {p' : Pool} {blocks : Finset Nat} (h : p.Inv) (hc : p.Legal c)
    (hcall : p.call c = some (blocks, p')) : p'.Inv ∧ p.CallSafe c blocks p' := by
  cases c with
  | allocBlock =>
    simp only [Pool.call] at hcall
    split at hcall
    · cases hcall
    next ha =>
    cases hcall
    exact h.allocBlock ha
  | allocNBlocks n =>
    simp only [Pool.call] at hcall
    split at hcall
    · cases hcall
    next ha =>
    cases hcall
    exact h.allocNBlocks ha
  | freeBlock addr =>
    simp only [Pool.call] at hcall
    split at hcall
    · cases hcall
    next ha =>
    cases hcall
    exact h.freeBlock hc ha

lemma Pool.Inv.step {p' : Pool} (h : p.Inv) (hc : p.Legal c) (hstep : p.step c = some p') :
    p'.Inv := by
  rcases Option.map_eq_some_iff.1 hstep with ⟨⟨blocks, q⟩, hcall, rfl⟩
  exact (h.call hc hcall).1

/-- In every run of legal calls from a well-formed start, the regions stay pairwise disjoint and
disjoint from the outstanding blocks, and every further legal call is safe: it returns no
outstanding block, and `alloc_block` and `free_block` move exactly one block. -/
theorem pmm_run_safe {p q : Pool} (hstart : p.Inv) (hrun : Run Pool.step Pool.Legal p q) :
    q.stack.Wf ∧ (∀ a ∈ q.outstanding, a ∉ q.stack.free) ∧
      ∀ c blocks q', q.Legal c → q.call c = some (blocks, q') → q.CallSafe c blocks q' := by
  have hq : q.Inv := hrun.invariant hstart (fun t c u ht hc hs => ht.step hc hs)
  exact ⟨hq.wf, hq.apart, fun c blocks q' hc hcall => (hq.call hc hcall).2⟩

/-- Two pages at 1 MiB, an empty entry at 3 MiB, and the block just under the latter handed out. -/
def samplePool : Pool where
  stack :=
    { slots := fun i => if i = 0 then ⟨0x100000, 2⟩ else ⟨0x300000, 0⟩
      pointer := 2
      top := 16 }
  outstanding := {0x2ff000}

/-- Two entries with a gap between them. -/
lemma samplePool_inv : samplePool.Inv := by
  refine ⟨⟨?_, ?_⟩, ?_, ?_⟩
  · intro i hi
    have hcase : i = 0 ∨ i = 1 := by
      have hlt : i < 2 := hi
      omega
    rcases hcase with rfl | rfl
    · exact ⟨by decide, by decide⟩
    · exact ⟨by decide, by decide⟩
  · intro i j hi hj hij
    have hempty : (samplePool.stack.slots 1).blocks = ∅ := extent_zero
    have hlti : i < 2 := hi
    have hltj : j < 2 := hj
    have hcase : i = 1 ∨ j = 1 := by omega
    rcases hcase with rfl | rfl
    · rw [hempty]
      exact empty_disjoint _
    · rw [hempty]
      exact disjoint_empty _
  · intro a ha
    have hcase : a = 0x2ff000 := Finset.mem_singleton.1 ha
    subst hcase
    exact ⟨by decide, by decide⟩
  · rintro a ha ⟨i, hi, hai⟩
    have hcase : a = 0x2ff000 := Finset.mem_singleton.1 ha
    subst hcase
    have hlt : i < 2 := hi
    have hcase : i = 0 ∨ i = 1 := by omega
    rcases hcase with rfl | rfl
    · have hup := extent_upper hai
      simp [samplePool, blockSize] at hup
    · have hlo := extent_lower hai
      simp [samplePool] at hlo

theorem pmm_run_safe_sample :
    ∃ q, samplePool.step (.freeBlock 0x2ff000) = some q ∧ q.stack.Wf ∧
      (∀ a ∈ q.outstanding, a ∉ q.stack.free) ∧
      ∀ c blocks q', q.Legal c → q.call c = some (blocks, q') → q.CallSafe c blocks q' :=
  ⟨_, rfl, pmm_run_safe samplePool_inv
    (Run.single (a := Call.freeBlock 0x2ff000) (Finset.mem_singleton.2 rfl) rfl)⟩

end SigmaOS.Mm.Pmm
