import Mathlib.Algebra.BigOperators.Group.Finset.Piecewise
import Mathlib.Algebra.Order.BigOperators.Group.Finset
import SigmaOS.Mm.Contiguous

/-!
# Mm.Depth — how deep the stack gets

`init` gives the stack one slot for each block.  An entry with pages stands for at least one free
block, so these entries fit (`pointer_le`); but `alloc_n_blocks` leaves entries without pages
behind, and `free_block` lets them drift and pushes new ones beside them.

`Pool.overflows` says that a call reaches `push` when the stack is full.
-/

namespace SigmaOS.Mm.Pmm

open Finset
open Lib

namespace RleStack

variable {s s' : RleStack} {e ent : RleStackEntry} {i n : Nat}

def pages (s : RleStack) : Nat :=
  ∑ i ∈ Finset.range s.pointer, (s.slots i).nPages

def emptyEntries (s : RleStack) : Nat :=
  ((Finset.range s.pointer).filter fun i => (s.slots i).nPages = 0).card

lemma pointer_le (s : RleStack) : s.pointer ≤ s.pages + s.emptyEntries := by
  have hone : ∀ i ∈ range s.pointer,
      1 ≤ (s.slots i).nPages + if (s.slots i).nPages = 0 then 1 else 0 := by
    intro i _
    by_cases hz : (s.slots i).nPages = 0
    · simp [hz]
    · omega
  calc
    s.pointer = ∑ i ∈ range s.pointer, 1 := by simp
    _ ≤ ∑ i ∈ range s.pointer,
          ((s.slots i).nPages + if (s.slots i).nPages = 0 then 1 else 0) :=
        sum_le_sum hone
    _ = s.pages + s.emptyEntries := by
        rw [sum_add_distrib, pages, emptyEntries, card_filter]

lemma pages_write (hi : i < s.pointer) :
    (s.write i e).pages + (s.slots i).nPages = s.pages + e.nPages := by
  have hmem : i ∈ range s.pointer := mem_range.2 hi
  have hrest : ∀ j ∈ (range s.pointer).erase i,
      ((s.write i e).slots j).nPages = (s.slots j).nPages := by
    intro j hj
    simp [write, ne_of_mem_erase hj]
  have hnew : ((s.write i e).slots i).nPages = e.nPages := by simp [write]
  have hwrite : (s.write i e).pages = e.nPages +
      ∑ j ∈ (range s.pointer).erase i, (s.slots j).nPages := by
    rw [← hnew, ← sum_congr rfl hrest]
    exact (add_sum_erase _ (fun j => ((s.write i e).slots j).nPages) hmem).symm
  have hold : s.pages = (s.slots i).nPages +
      ∑ j ∈ (range s.pointer).erase i, (s.slots j).nPages :=
    (add_sum_erase _ (fun j => (s.slots j).nPages) hmem).symm
  omega

lemma pages_push (hpush : s.push e = some s') :
    s'.pages = s.pages + e.nPages ∧ s'.pointer = s.pointer + 1 ∧ s'.top = s.top := by
  rcases push_some hpush with rfl
  refine ⟨?_, rfl, rfl⟩
  have hold : ∀ i ∈ range s.pointer,
      (Function.update s.slots s.pointer e i).nPages = (s.slots i).nPages := by
    intro i hi
    rw [Function.update_of_ne (Nat.ne_of_lt (mem_range.1 hi))]
  simp only [pages]
  rw [sum_range_succ, Function.update_self, sum_congr rfl hold]

lemma pages_pop (hpop : s.pop = some (ent, s')) :
    s.pages = s'.pages + ent.nPages ∧ s.pointer = s'.pointer + 1 ∧ s'.top = s.top := by
  rcases pop_some hpop with ⟨n, hp, rfl, rfl⟩
  refine ⟨?_, hp, rfl⟩
  rw [pages, hp, sum_range_succ]
  rfl

end RleStack

section Counts

variable {s s' : RleStack} {ent : RleStackEntry} {n b addr : Nat}

/-- What a pop takes from the page count and the pointer. -/
lemma popNonempty_pages {fuel : Nat} {s : RleStack} (h : popNonempty fuel s = some (ent, s')) :
    s.pages = s'.pages + ent.nPages ∧ ent.nPages ≠ 0 ∧ s'.pointer + 1 ≤ s.pointer ∧
      s'.top = s.top := by
  induction fuel generalizing s with
  | zero => cases h
  | succ fuel ih =>
    unfold popNonempty at h
    split at h
    · cases h
    next hpop =>
    rcases RleStack.pages_pop hpop with ⟨hpages, hpointer, htop⟩
    split at h
    · rcases ih h with ⟨hpages', hne, hpointer', htop'⟩
      exact ⟨by omega, hne, by omega, htop'.trans htop⟩
    · next hz =>
      cases h
      exact ⟨hpages, hz, by omega, htop⟩

lemma allocBlock_pages (h : allocBlock s = some (b, s')) :
    s'.pages + 1 = s.pages ∧ s'.pointer ≤ s.pointer ∧ s'.top = s.top := by
  rcases allocBlock_cases h with ⟨e, t, hpop, _, hends⟩
  rcases popNonempty_pages hpop with ⟨hpages, hne, hpointer, htop⟩
  rcases hends with ⟨hlast, rfl⟩ | ⟨hlast, hpush⟩
  · exact ⟨by omega, by omega, htop⟩
  · rcases RleStack.pages_push hpush with ⟨hpages', hpointer', htop'⟩
    have hrest : s'.pages = t.pages + (e.nPages - 1) := hpages'
    exact ⟨by omega, by omega, htop'.trans htop⟩

/-- The pages that are handed out are taken from one entry. -/
lemma allocNBlocks_pages (h : allocNBlocks n s = some (b, s')) :
    s'.pages + n ≤ s.pages ∧ s'.pointer = s.pointer ∧ s'.top = s.top := by
  rcases allocNBlocks_cases h with ⟨⟨i, hi, hbig, _⟩, hpointer, htop, hslots⟩
  have hmem : i ∈ range s.pointer := mem_range.2 hi
  refine ⟨?_, hpointer, htop⟩
  have hshrink : ∀ j, j < s.pointer → (s'.slots j).nPages ≤ (s.slots j).nPages := by
    intro j hj
    rw [hslots j hj]
    by_cases hn : n ≤ (s.slots j).nPages
    · rw [scanned, if_pos hn]
      exact Nat.sub_le _ _
    · rw [scanned, if_neg hn]
  have hat : (s'.slots i).nPages + n = (s.slots i).nPages := by
    rw [hslots i hi, scanned, if_pos hbig]
    exact Nat.sub_add_cancel hbig
  have hothers : ∑ j ∈ (range s.pointer).erase i, (s'.slots j).nPages ≤
      ∑ j ∈ (range s.pointer).erase i, (s.slots j).nPages := by
    refine sum_le_sum ?_
    intro j hj
    exact hshrink j (mem_range.1 (mem_of_mem_erase hj))
  have hnew : (s'.slots i).nPages +
      ∑ j ∈ (range s.pointer).erase i, (s'.slots j).nPages = s'.pages := by
    rw [RleStack.pages, hpointer]
    exact add_sum_erase _ (fun j => (s'.slots j).nPages) hmem
  have hold : (s.slots i).nPages +
      ∑ j ∈ (range s.pointer).erase i, (s.slots j).nPages = s.pages :=
    add_sum_erase _ (fun j => (s.slots j).nPages) hmem
  omega

/-- Freeing adds one page and at most one entry. -/
lemma freeBlock_pages (hwf : s.Wf) (h : freeBlock addr s = some s') :
    s'.pages = s.pages + 1 ∧ s'.pointer ≤ s.pointer + 1 ∧ s'.top = s.top := by
  rcases freeBlock_cases h with ⟨i, hi, _, rfl⟩ | hpush
  · have hlt : u64 ((s.slots i).nPages + 1) = (s.slots i).nPages + 1 := by
      have hb := (hwf.entry i hi).bounded
      simp only [blockSize] at hb
      exact u64_of_lt (by omega)
    have hgrow : (absorb addr (s.slots i)).nPages = u64 ((s.slots i).nPages + 1) := by
      rw [absorb]
      split
      · rfl
      · rfl
    have hpages := RleStack.pages_write (e := absorb addr (s.slots i)) hi
    exact ⟨by omega, Nat.le_succ _, rfl⟩
  · rcases RleStack.pages_push hpush with ⟨hpages, hpointer, htop⟩
    exact ⟨hpages, Nat.le_of_eq hpointer, htop⟩

end Counts

lemma card_run_le (b n : Nat) : (run b n).card ≤ n := by
  simpa [run] using card_image_le (s := range n) (f := fun k => b + k * blockSize)

namespace Pool

/-- The call gets to `push` when there is no room: the overflow `PANIC`. -/
def overflows (p : Pool) : Call → Bool
  | .allocBlock =>
    match popNonempty (p.stack.pointer + 1) p.stack with
    | none => false
    | some (ent, s) => ent.nPages - 1 ≠ 0 && s.pointer + 2 = s.top
  | .allocNBlocks _ => false
  | .freeBlock addr =>
    ((List.range p.stack.pointer).find? fun i => adjacent addr (p.stack.slots i)).isNone &&
      p.stack.pointer + 2 = p.stack.top

lemma call_of_overflows {p : Pool} {c : Call} (h : p.overflows c = true) : p.call c = none := by
  cases c with
  | allocBlock =>
    cases hpop : popNonempty (p.stack.pointer + 1) p.stack with
    | none => simp [overflows, hpop] at h
    | some et =>
      have hfull : et.1.nPages - 1 ≠ 0 ∧ et.2.pointer + 2 = et.2.top := by
        simpa [overflows, hpop] using h
      simp [call, Pmm.allocBlock, hpop, hfull.1, RleStack.push, hfull.2]
  | allocNBlocks n => simp [overflows] at h
  | freeBlock addr =>
    have hfull : ((List.range p.stack.pointer).find? fun i =>
      adjacent addr (p.stack.slots i)) = none ∧ p.stack.pointer + 2 = p.stack.top := by
      simpa only [overflows, Bool.and_eq_true, Option.isNone_iff_eq_none, decide_eq_true_eq]
        using h
    simp [call, Pmm.freeBlock, hfull.1, RleStack.push, hfull.2]

/-- The start: disjoint regions with `blocks` blocks in all and none of them empty, nothing
outstanding, and room for three entries more than blocks. -/
structure Start (p : Pool) (blocks : Nat) : Prop where
  inv : p.Inv
  idle : p.outstanding = ∅
  pages : p.stack.pages = blocks
  nonempty : p.stack.emptyEntries = 0
  room : blocks + 3 ≤ p.stack.top

/-- A block is given back only while there are no more entries without pages than blocks
outstanding. -/
def Covered (p : Pool) (c : Call) : Prop :=
  p.Legal c ∧ ∀ addr, c = .freeBlock addr → p.stack.emptyEntries ≤ p.outstanding.card

/-- The pages on the stack and the blocks outstanding are no more than the blocks there are (those
that `alloc_n_blocks` loses are neither), and the stack is at most one entry deeper than that. -/
structure Shallow (blocks : Nat) (p : Pool) : Prop where
  inv : p.Inv
  pages : p.stack.pages + p.outstanding.card ≤ blocks
  depth : p.stack.pointer ≤ blocks + 1
  room : blocks + 3 ≤ p.stack.top

variable {p p' q : Pool} {c : Call} {blocks : Nat}

lemma Start.shallow (h : p.Start blocks) : p.Shallow blocks := by
  have hpointer := p.stack.pointer_le
  have hpages := h.pages
  have hempty := h.nonempty
  refine ⟨h.inv, ?_, by omega, h.room⟩
  rw [h.idle, card_empty]
  omega

lemma Shallow.pointer_le (h : p.Shallow blocks) {addr : Nat} (hc : p.Covered (.freeBlock addr)) :
    p.stack.pointer ≤ blocks := by
  have hpointer := p.stack.pointer_le
  have hempty := hc.2 addr rfl
  have hpages := h.pages
  omega

/-- Every call within the bound keeps the stack shallow. -/
lemma Shallow.step (h : p.Shallow blocks) (hc : p.Covered c) (hstep : p.step c = some p') :
    p'.Shallow blocks := by
  have hinv : p'.Inv := h.inv.step hc.1 hstep
  have hpages := h.pages
  have hdepth := h.depth
  have hroom := h.room
  rcases Option.map_eq_some_iff.1 hstep with ⟨⟨answer, p''⟩, hcall, rfl⟩
  have hsafe := (h.inv.call hc.1 hcall).2
  cases c with
  | allocBlock =>
    simp only [call] at hcall
    split at hcall
    · cases hcall
    next b s ha =>
    cases hcall
    rcases allocBlock_pages ha with ⟨hp, hd, ht⟩
    have hfresh : b ∉ p.outstanding := hsafe.fresh b (mem_singleton_self _)
    have hcard := card_insert_of_notMem hfresh
    exact ⟨hinv, by show s.pages + (insert b p.outstanding).card ≤ blocks; omega,
      hd.trans hdepth, ht ▸ hroom⟩
  | allocNBlocks n =>
    simp only [call] at hcall
    split at hcall
    · cases hcall
    next b s ha =>
    cases hcall
    rcases allocNBlocks_pages ha with ⟨hp, hd, ht⟩
    have hcard : (p.outstanding ∪ run b n).card ≤ p.outstanding.card + n :=
      (card_union_le _ _).trans (Nat.add_le_add_left (card_run_le _ n) _)
    exact ⟨hinv, by show s.pages + (p.outstanding ∪ run b n).card ≤ blocks; omega,
      hd ▸ hdepth, ht ▸ hroom⟩
  | freeBlock addr =>
    simp only [call] at hcall
    split at hcall
    · cases hcall
    next s ha =>
    cases hcall
    rcases freeBlock_pages h.inv.wf ha with ⟨hp, hd, ht⟩
    have hout : addr ∈ p.outstanding := hc.1
    have hcard := card_erase_add_one hout
    have hpointer := h.pointer_le hc
    exact ⟨hinv, by show s.pages + (p.outstanding.erase addr).card ≤ blocks; omega,
      by show s.pointer ≤ blocks + 1; omega, ht ▸ hroom⟩

/-- A call that is covered does not overflow a shallow stack. -/
lemma Shallow.not_overflows (h : p.Shallow blocks) (hc : p.Covered c) :
    p.overflows c = false := by
  have hdepth := h.depth
  have hroom := h.room
  cases c with
  | allocBlock =>
    cases hpop : popNonempty (p.stack.pointer + 1) p.stack with
    | none => simp [overflows, hpop]
    | some et =>
      -- at least one entry was popped before the rest is pushed
      rcases popNonempty_pages hpop with ⟨_, _, hpointer, htop⟩
      have hlt : et.2.pointer + 2 ≠ et.2.top := by omega
      simp [overflows, hpop, hlt]
  | allocNBlocks n => rfl
  | freeBlock addr =>
    have hpointer := h.pointer_le hc
    have hlt : p.stack.pointer + 2 ≠ p.stack.top := by omega
    simp [overflows, hlt]

end Pool

/-- With room for three entries more than blocks, no run of calls in which blocks are given back only
while there are no more entries without pages than blocks outstanding gets to the overflow
`PANIC`. -/
theorem push_never_overflows {p q : Pool} {c : Call} {blocks : Nat} (hstart : p.Start blocks)
    (hrun : Run Pool.step Pool.Covered p q) (hc : q.Covered c) : q.overflows c = false := by
  have hq : q.Shallow blocks :=
    hrun.invariant hstart.shallow (fun _ _ _ ht hok hs => ht.step hok hs)
  exact hq.not_overflows hc

instance (p : Pool) (c : Call) : Decidable (p.Legal c) :=
  match c with
  | .allocBlock => inferInstanceAs (Decidable True)
  | .allocNBlocks n => inferInstanceAs (Decidable (1 ≤ n))
  | .freeBlock addr => inferInstanceAs (Decidable (addr ∈ p.outstanding))

def fourBlocks : Pool where
  stack := { slots := fun _ => ⟨0x1000, 4⟩, pointer := 1, top := 7 }
  outstanding := ∅

lemma fourBlocks_start : fourBlocks.Start 4 := by
  refine ⟨⟨⟨?_, ?_⟩, by simp [fourBlocks], by simp [fourBlocks]⟩, rfl, rfl, rfl, by decide⟩
  · intro i _
    show RleStackEntry.Wf ⟨0x1000, 4⟩
    exact ⟨by decide, by decide⟩
  · intro i j hi hj hij
    have hi' : i < 1 := hi
    have hj' : j < 1 := hj
    omega

/-- Four blocks out and the last one back: the stack is empty by then. -/
theorem push_never_overflows_four :
    ∃ q, exec Pool.step fourBlocks [.allocNBlocks 3, .allocBlock] = some q ∧
      q.overflows (.freeBlock 0x4000) = false := by
  refine ⟨_, rfl, push_never_overflows (c := .freeBlock 0x4000) fourBlocks_start
    (Run.tail (a := .allocBlock) (Run.single (a := .allocNBlocks 3) ?_ rfl) ?_ rfl) ?_⟩
  · exact ⟨by decide, by rintro addr ⟨⟩⟩
  · exact ⟨trivial, by rintro addr ⟨⟩⟩
  · exact ⟨by decide, fun _ _ => by decide⟩

/-- Calls that leave five entries without pages and one block fewer outstanding than there are. -/
def drift : List Call :=
  [.allocNBlocks 3, .allocBlock, .freeBlock 0x2000, .freeBlock 0x4000, .freeBlock 0x3000,
    .allocNBlocks 2, .allocNBlocks 1, .freeBlock 0x1000, .freeBlock 0x4000, .allocNBlocks 1,
    .freeBlock 0x3000, .allocNBlocks 1, .freeBlock 0x2000, .freeBlock 0x3000, .allocNBlocks 2,
    .freeBlock 0x2000, .allocNBlocks 1]

/-- After `drift` the next `free_block` finds no entry beside its block and no room for its own. -/
theorem push_overflows_after_drift :
    fourBlocks.Start 4 ∧ ∃ q, Run Pool.step Pool.Legal fourBlocks q ∧
      q.Legal (.freeBlock 0x1000) ∧ q.overflows (.freeBlock 0x1000) = true := by
  refine ⟨fourBlocks_start, ?_⟩
  have hend : (exec (fun p c => if Pool.Legal p c then p.step c else none) fourBlocks drift).map
      (fun q => decide (q.Legal (.freeBlock 0x1000)) && q.overflows (.freeBlock 0x1000)) =
        some true := by
    decide +kernel
  rcases Option.map_eq_some_iff.1 hend with ⟨q, hq, hlast⟩
  have hboth := Bool.and_eq_true_iff.1 hlast
  exact ⟨q, exec_guarded hq, of_decide_eq_true hboth.1, hboth.2⟩

end SigmaOS.Mm.Pmm
