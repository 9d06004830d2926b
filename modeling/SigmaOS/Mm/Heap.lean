import SigmaOS.Lib.LinkedList
import SigmaOS.Mm.Pmm

/-!
# Mm.Heap — the kernel heap

`alloc::alloc` hands out the first free block that is large enough, whole, and otherwise appends a new
block at the end of the heap, which grows by pages from `0xffffffffd0000000` on.  The headers of the
blocks are a linked list that lies between the data.

* `Heap` is the state of the file: the headers in memory, `head` and `tail`, the two offsets, and the
  pages that have been mapped.  A header takes 64 bytes; whatever else is written into them destroys
  it (`overwrite`), and a function that then reads it is not defined.
* Sizes and addresses are numbers; where the source computes in `uint64_t`, `u64` wraps the result.
* `made` and `overflowed` are not part of the program: the addresses at which a header was made, and
  whether the end of a new block did not fit into 64 bits.

Frames for the heap's pages are assumed to be there, so `morecore` never fails for want of one.  The
lock and the diagnostics are left out.
-/

namespace SigmaOS.Mm.Alloc

open Lib
open Mm.Pmm (blockSize u64 u64_of_lt)

/-! ## Headers -/

def magicLow : BitVec 16 := 0xBEEF#16

def magicHigh : BitVec 16 := 0xC0DE#16

structure Header where
  magicLow : BitVec 16
  next : Nat
  size : Nat
  isFree : Bool
  magicHigh : BitVec 16
  deriving DecidableEq

def headerSize : Nat := 64

@[simp] lemma headerSize_ne_zero : headerSize ≠ 0 := by
  decide

def Header.checkMagic (hd : Header) : Bool :=
  hd.magicLow == Alloc.magicLow && hd.magicHigh == Alloc.magicHigh

/-- A header as `alloc` and `alloc_a` fill it in. -/
def Header.new (size : Nat) : Header :=
  { magicLow := Alloc.magicLow
    next := 0
    size := size
    isFree := false
    magicHigh := Alloc.magicHigh }

/-! ## State -/

def heapBase : Nat := 0xffffffffd0000000

structure Heap where
  mem : Nat → Option Header
  head : Nat
  tail : Nat
  pageOffset : Nat
  offset : Nat
  mapped : List Nat
  made : List Nat
  overflowed : Bool

/-- `len` bytes from `lo` on are written: no header that has one of them is left. -/
def overwrite (lo len : Nat) (mem : Nat → Option Header) : Nat → Option Header :=
  fun a => if 0 < len ∧ a < lo + len ∧ lo < a + headerSize then none else mem a

namespace Heap

def setHeader (h : Heap) (a : Nat) (hd : Header) : Heap :=
  { h with mem := Function.update (overwrite a headerSize h.mem) a (some hd) }

def fill (h : Heap) (lo len : Nat) : Heap :=
  { h with mem := overwrite lo len h.mem }

def mapPage (h : Heap) : Heap :=
  { h with
    mapped := h.pageOffset :: h.mapped
    pageOffset := u64 (h.pageOffset + blockSize) }

/-- The globals before `init`; nothing is known of the memory. -/
def boot (mem : Nat → Option Header) : Heap :=
  { mem := mem
    head := 0
    tail := 0
    pageOffset := heapBase
    offset := heapBase
    mapped := []
    made := []
    overflowed := false }

def init (h : Heap) : Heap :=
  h.mapPage.mapPage.mapPage.mapPage

end Heap

/-! ## Growing -/

def alignDown (n align : Nat) : Nat :=
  n &&& (2 ^ 64 - 1 - (align - 1))

def alignUp (n align : Nat) : Nat :=
  alignDown (u64 (n + align - 1)) align

/-- There are `2 ^ 52` pages; a loop that has mapped more has started again at page 0 and does not
end. -/
def pageFuel : Nat := 2 ^ 52 + 1

def growPages : Nat → Heap → Option Heap
  | 0, _ => none
  | fuel + 1, h =>
    if h.pageOffset ≤ h.offset then
      growPages fuel (h.fill h.pageOffset blockSize).mapPage
    else
      some h

/-- The first half of `morecore`: the offset moves behind `size` new bytes.  `size` is the exact sum
that the callers wrap; it is only added to the offset, which is wrapped in any case. -/
def Heap.reserve (h : Heap) (size align : Nat) : Heap :=
  let ret := alignUp h.offset align
  let fits := decide (h.offset + align - 1 < 2 ^ 64 ∧ ret + size < 2 ^ 64)
  { h with offset := u64 (ret + size), overflowed := h.overflowed || !fits }

def morecore (size align : Nat) (h : Heap) : Option (Nat × Heap) :=
  match growPages pageFuel (h.reserve size align) with
  | none => none
  | some h' => some (alignUp h.offset align, h')

/-! ## The list of blocks -/

/-- More than there can be headers in memory. -/
def listFuel : Nat := 2 ^ 64

def visitHeaders {R : Type} (look : Nat → Header → Option R) (h : Heap) : Option (Option R) :=
  visit h.mem Header.next 0 look listFuel h.head

def getFreeBlock (size : Nat) : Heap → Option (Option Nat) :=
  visitHeaders fun a hd => if hd.isFree && decide (size ≤ hd.size) then some a else none

def Header.corrupted (hd : Header) : Bool :=
  (decide (hd.next < heapBase - 1) && hd.next != 0) || hd.next == 0xffffffffffffffff ||
    !hd.checkMagic

/-- `check_for_corruption`: whether there is a header that cannot be right. -/
def checkForCorruption (h : Heap) : Option Bool :=
  (visitHeaders (fun _ hd => if hd.corrupted then some () else none) h).map Option.isSome

/-- The header of a new block, before it is linked to the last one. -/
def Heap.addHeader (h : Heap) (block size : Nat) : Heap :=
  { h.setHeader block (Header.new size) with
    head := if h.head = 0 then block else h.head
    made := h.made ++ [block] }

def appendHeader (block size : Nat) (h : Heap) : Option Heap :=
  let h := h.addHeader block size
  if h.tail = 0 then
    some { h with tail := block }
  else
    match h.mem h.tail with
    | none => none
    | some hd => some { h.setHeader h.tail { hd with next := block } with tail := block }

/-- The second half of `alloc`, and all of `alloc_a`. -/
def newBlock (size align : Nat) (h : Heap) : Option (Nat × Heap) :=
  match morecore (size + headerSize) align h with
  | none => none
  | some (block, h) =>
    if block = 0 then
      some (0, h)
    else
      match appendHeader block size h with
      | none => none
      | some h => some (block + headerSize, h)

/-! ## The interface -/

/-- The way out of `alloc` and `free` when a header has lost its magic number. -/
def reportCorruption {R : Type} (result : R) (h : Heap) : Option R :=
  match checkForCorruption h with
  | none => none
  | some _ => some result

def alloc (size : Nat) (h : Heap) : Option (Nat × Heap) :=
  if size = 0 then
    some (0, h)
  else
    match getFreeBlock size h with
    | none => none
    | some none => newBlock size 64 h
    | some (some a) =>
      match h.mem a with
      | none => none
      | some hd =>
        if hd.checkMagic then
          some (a + headerSize, h.setHeader a { hd with isFree := false })
        else
          reportCorruption (0, h) h

def allocA (size align : Nat) (h : Heap) : Option (Nat × Heap) :=
  newBlock size align h

def free (ptr : Nat) (h : Heap) : Option Heap :=
  if ptr = 0 then
    some h
  else
    match h.mem (ptr - headerSize) with
    | none => none
    | some hd =>
      if hd.checkMagic then
        if hd.isFree then
          some h
        else
          some (h.setHeader (ptr - headerSize) { hd with isFree := true })
      else
        reportCorruption h h

/-- The end of `realloc`: the data is copied and the old block given back.  The size is read from the
old header after the new block was made. -/
def moveBlock (ptr ret : Nat) (h : Heap) : Option (Nat × Heap) :=
  if ret = 0 then
    some (0, h)
  else
    match h.mem (ptr - headerSize) with
    | none => none
    | some hd =>
      match free ptr (h.fill ret hd.size) with
      | none => none
      | some h => some (ret, h)

def realloc (ptr size : Nat) (h : Heap) : Option (Nat × Heap) :=
  if ptr = 0 ∧ size = 0 then
    some (0, h)
  else if size = 0 then
    match free ptr h with
    | none => none
    | some h => some (0, h)
  else if ptr = 0 then
    alloc size h
  else
    match h.mem (ptr - headerSize) with
    | none => none
    | some hd =>
      if hd.isFree then
        some (0, h)
      else if !hd.checkMagic then
        some (0, h)
      else if size ≤ hd.size then
        some (ptr, h)
      else
        match alloc size h with
        | none => none
        | some (ret, h) => moveBlock ptr ret h

/-! ## Callers -/

/-- The heap with what its callers hold: `live p` is the size that was asked for with the live pointer
`p`. -/
structure World where
  heap : Heap
  live : Nat → Option Nat

inductive Op
  | alloc (size : Nat)
  | allocA (size align : Nat)
  | realloc (ptr size : Nat)
  | free (ptr : Nat)
  /-- A caller writes `len` bytes of its block, from byte `first` on. -/
  | store (ptr first len : Nat)

namespace World

def start (mem : Nat → Option Header) : World :=
  { heap := (Heap.boot mem).init
    live := fun _ => none }

/-- The caller gives up `old` for a block of `size` bytes; both pointers may be null.  Where a block
was asked for in vain, the old one stays. -/
def hand (w : World) (old : Nat) (out : Nat × Heap) (size : Nat) : World :=
  let live :=
    if old = 0 ∨ (out.1 = 0 ∧ size ≠ 0) then w.live else Function.update w.live old none
  { heap := out.2
    live := if out.1 = 0 then live else Function.update live out.1 (some size) }

def step (w : World) : Op → Option World
  | .alloc size => (alloc size w.heap).map fun out => w.hand 0 out size
  | .allocA size align => (allocA size align w.heap).map fun out => w.hand 0 out size
  | .realloc ptr size => (realloc ptr size w.heap).map fun out => w.hand ptr out size
  | .free ptr => (free ptr w.heap).map fun h => w.hand ptr (0, h) 0
  | .store ptr first len => some { w with heap := w.heap.fill (ptr + first) len }

def Valid (w : World) (ptr : Nat) : Prop :=
  ptr = 0 ∨ ∃ n, w.live ptr = some n

/-- What callers have to keep to: pointers are null or live, alignments are powers of two, and nobody
writes outside of its block. -/
def Allowed (w : World) : Op → Prop
  | .alloc _ => True
  | .allocA _ align => ∃ k, k < 64 ∧ align = 2 ^ k
  | .realloc ptr _ => w.Valid ptr
  | .free ptr => w.Valid ptr
  | .store ptr first len => ∃ n, w.live ptr = some n ∧ first + len ≤ n

def NoOverflow (w : World) (op : Op) : Prop :=
  ∀ w', w.step op = some w' → w'.heap.overflowed = false

end World

end SigmaOS.Mm.Alloc
