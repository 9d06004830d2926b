import Mathlib.Algebra.Group.Nat.Defs
import Mathlib.Data.Finset.Image
import Mathlib.Order.CompletePartialOrder
import SigmaOS.Lib.Extent

/-!
# Mm.Pmm — the run-length-encoded stack of the physical memory manager

`mm::pmm` keeps the free physical blocks on a stack of pairs (base, page count) that lives in raw
memory behind the kernel image.  The stack pointer moves over raw slots, so a popped entry stays readable
above the pointer (the sorting code in `Mm.SortOrder` looks at it).

`uint64_t` arithmetic is `Nat` arithmetic reduced by `u64`.  A `PANIC` is the answer `none`.
-/

namespace SigmaOS.Mm.Pmm

open Lib

def blockSize : Nat := 0x1000

def u64 (x : Nat) : Nat := x % 2 ^ 64

lemma u64_of_lt {x : Nat} (h : x < 2 ^ 64) : u64 x = x :=
  Nat.mod_eq_of_lt h

/-! ## The stack -/

structure RleStackEntry where
  base : Nat
  nPages : Nat
  deriving DecidableEq, Repr

namespace RleStackEntry

/-- `entry->base + entry->n_pages * block_size`, as the code computes it. -/
def limit (e : RleStackEntry) : Nat :=
  u64 (e.base + u64 (e.nPages * blockSize))

def blocks (e : RleStackEntry) : Set Nat :=
  extent blockSize e.base e.nPages

end RleStackEntry

/-- `stack_base`, `stack_pointer` and `stack_top`: the slots are indexed from `stack_base`, the two
other pointers are offsets from it. -/
structure RleStack where
  slots : Nat → RleStackEntry
  pointer : Nat
  top : Nat

namespace RleStack

def pop (s : RleStack) : Option (RleStackEntry × RleStack) :=
  match s.pointer with
  | 0 => none
  | n + 1 => some (s.slots n, { s with pointer := n })

def push (s : RleStack) (e : RleStackEntry) : Option RleStack :=
  if s.pointer + 2 = s.top then
    none
  else
    some { s with slots := Function.update s.slots s.pointer e, pointer := s.pointer + 1 }

def write (s : RleStack) (i : Nat) (e : RleStackEntry) : RleStack :=
  { s with slots := Function.update s.slots i e }

def free (s : RleStack) : Set Nat :=
  {a | ∃ i, i < s.pointer ∧ a ∈ (s.slots i).blocks}

end RleStack

/-! ## Allocation and release -/

/-- `ent = pop()` and the loop that pops on while the entry has no pages.  Every round lowers the
stack pointer, so `pointer + 1` rounds end in the underflow `PANIC` or in an entry with pages. -/
def popNonempty : Nat → RleStack → Option (RleStackEntry × RleStack)
  | 0, _ => none
  | fuel + 1, s =>
    match s.pop with
    | none => none
    | some (ent, s') => if ent.nPages = 0 then popNonempty fuel s' else some (ent, s')

def allocBlock (s : RleStack) : Option (Nat × RleStack) :=
  match popNonempty (s.pointer + 1) s with
  | none => none
  | some (ent, s') =>
    let addr := ent.base
    let rest : RleStackEntry := ⟨u64 (ent.base + blockSize), ent.nPages - 1⟩
    if rest.nPages ≠ 0 then
      match s'.push rest with
      | none => none
      | some s'' => some (addr, s'')
    else
      some (addr, s')

/-- One round of the scan in `alloc_n_blocks`: the scan does not stop at the first entry that is
big enough, and every one it meets loses its first `n` pages. -/
def allocNScan (n : Nat) (acc : Nat × RleStack) (i : Nat) : Nat × RleStack :=
  let ent := acc.2.slots i
  if n ≤ ent.nPages then
    (ent.base, acc.2.write i ⟨u64 (ent.base + u64 (blockSize * n)), ent.nPages - n⟩)
  else
    acc

def allocNBlocks (n : Nat) (s : RleStack) : Option (Nat × RleStack) :=
  let found := (List.range s.pointer).foldl (allocNScan n) (0, s)
  if found.1 = 0 then none else some found

/-- The block lies just under the entry, or just above it. -/
def adjacent (addr : Nat) (e : RleStackEntry) : Bool :=
  u64 (addr + blockSize) == e.base || e.limit == addr

/-- The entry after it has taken in the block: the test for "just under" comes first. -/
def absorb (addr : Nat) (e : RleStackEntry) : RleStackEntry :=
  if u64 (addr + blockSize) = e.base then
    ⟨u64 (e.base + 2 ^ 64 - blockSize), u64 (e.nPages + 1)⟩
  else
    ⟨e.base, u64 (e.nPages + 1)⟩

def freeBlock (addr : Nat) (s : RleStack) : Option RleStack :=
  match (List.range s.pointer).find? (fun i => adjacent addr (s.slots i)) with
  | some i => some (s.write i (absorb addr (s.slots i)))
  | none => s.push ⟨addr, 1⟩

end SigmaOS.Mm.Pmm
