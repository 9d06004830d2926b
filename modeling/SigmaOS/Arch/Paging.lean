import Mathlib.Data.Finset.Basic
import SigmaOS.Lib.Tables

/-!
# Arch.Paging — four-level page tables

`x86_64::paging::context` keeps the virtual address of a PML4 table; all tables are 512 entries of
64 bits in a physical frame, reached through the window at `KERNEL_PHYSICAL_VIRTUAL_MAPPING_BASE`.
The window is the identity here: a table is named by its frame.

* `Phys` is the memory of all tables with the frame allocator.  The answers of `alloc_block` are
  given in advance by `supply`; an answer that is outstanding ends the run, since the allocator
  never hands out an outstanding frame.  `live` are the outstanding table frames, and `misuse`
  records that a frame was released or dereferenced while it was not outstanding.
* `mapPage`, `getPhys`, `getEntry` embed the functions of the same name, `init`, `deinit` and
  `clonePagingInfo` the life cycle of a context.

`invlpg` and the loading of CR3 are left out.
-/

namespace SigmaOS.Arch.Paging

open Lib

/-! ## Entries -/

def frameMask : BitVec 64 := 0x000FFFFFFFFFF000#64

def flagsMask : BitVec 64 := 0xFFF0000000000FFF#64

/-- A physical frame: a 4 KiB-aligned address below `2^52`. -/
abbrev Frame := {w : BitVec 64 // w &&& frameMask = w}

instance neZeroSixteen : @NeZero Nat Zero.ofOfNat0 16 := ⟨by decide⟩

def frameAt (n : Fin 16) : Frame :=
  ⟨BitVec.ofNat 64 (n.val * 4096), by revert n; decide⟩

abbrev Index := Fin 512

def bitSet (w : BitVec 64) (n : Nat) : BitVec 64 :=
  w ||| (1#64 <<< n)

/-- `bitops::bit_test` for the bits the code looks at. -/
def present (entry : BitVec 64) : Bool := entry.getLsbD 0

def huge (entry : BitVec 64) : Bool := entry.getLsbD 7

def setFrame (entry phys : BitVec 64) : BitVec 64 :=
  entry ||| (phys &&& frameMask)

def getFrame (entry : BitVec 64) : Frame :=
  ⟨entry &&& frameMask, by rw [BitVec.and_assoc, BitVec.and_self]⟩

def setFlags (entry flags : BitVec 64) : BitVec 64 :=
  entry ||| (flags &&& flagsMask)

def getFlags (entry : BitVec 64) : BitVec 64 :=
  entry &&& flagsMask

inductive CacheType
  | normal
  | uncacheable
  | writeThrough
  | writeBack
  | writeCombining
  deriving DecidableEq, Repr

/-- `get_pat_flags`: bit 3 is `write_through`, bit 4 `cache_disable`, bit 7 `pat`. -/
def getPatFlags : CacheType → BitVec 64
  | .normal => 0#64
  | .writeBack => 0#64
  | .writeCombining => bitSet 0#64 3
  | .writeThrough => bitSet 0#64 4
  | .uncacheable => bitSet (bitSet 0#64 3) 7

/-- `entry_flags` of `map_page`; the bits of `flags` are the `map_page_flags` present, writable,
user, no-execute and global, in this order. -/
def entryFlags (flags : BitVec 64) : BitVec 64 :=
  let e := if flags.getLsbD 0 then bitSet 0#64 0 else 0#64
  let e := if flags.getLsbD 2 then bitSet e 2 else e
  let e := if flags.getLsbD 3 then bitSet e 63 else e
  let e := if flags.getLsbD 4 then bitSet e 8 else e
  if flags.getLsbD 1 then bitSet e 1 else e

def pageEntry (phys flags : BitVec 64) (cache : CacheType) : BitVec 64 :=
  setFlags (setFrame 0#64 phys) (entryFlags flags) ||| getPatFlags cache

/-- The entry `map_page` writes for a new table: present, writable, user. -/
def tableEntry (table : Frame) : BitVec 64 :=
  bitSet (bitSet (bitSet (setFrame 0#64 table.1) 0) 1) 2

/-! ## Indices -/

lemma index_lt (virt : BitVec 64) (shift : Nat) :
    ((virt >>> shift) &&& 0x1FF#64).toNat < 512 := by
  exact Nat.lt_of_le_of_lt Nat.and_le_right (by decide)

def tableIndex (shift : Nat) (virt : BitVec 64) : Index :=
  ⟨((virt >>> shift) &&& 0x1FF#64).toNat, index_lt virt shift⟩

def pml4Index : BitVec 64 → Index := tableIndex 39

def pdptIndex : BitVec 64 → Index := tableIndex 30

def pdIndex : BitVec 64 → Index := tableIndex 21

def ptIndex : BitVec 64 → Index := tableIndex 12

/-! ## Memory and frame allocator -/

structure Phys where
  tables : Tables Frame Index (BitVec 64)
  supply : List Frame
  live : Finset Frame
  misuse : Bool

namespace Phys

def alloc (s : Phys) : Option (Frame × Phys) :=
  match s.supply with
  | [] => none
  | f :: rest =>
    if f ∈ s.live then none else some (f, { s with supply := rest, live := insert f s.live })

def free (s : Phys) (f : Frame) : Phys :=
  { s with live := s.live.erase f, misuse := s.misuse || decide (f ∉ s.live) }

def touch (s : Phys) (f : Frame) : Phys :=
  { s with misuse := s.misuse || decide (f ∉ s.live) }

def write (s : Phys) (f : Frame) (i : Index) (entry : BitVec 64) : Phys :=
  { s.touch f with tables := s.tables.set f i entry }

def clear (s : Phys) (f : Frame) : Phys :=
  { s.touch f with tables := Function.update s.tables f fun _ => 0#64 }

lemma clear_self (s : Phys) (f : Frame) (i : Index) : (s.clear f).tables f i = 0#64 := by
  simp [clear]

end Phys

/-- The table behind an entry of the table in `f`, created when the entry is not present. -/
def ensureTable (f : Frame) (i : Index) (s : Phys) : Option (Frame × Phys) :=
  let entry := s.tables f i
  let s := s.touch f
  if present entry then
    some (getFrame entry, s)
  else
    match s.alloc with
    | none => none
    | some (table, s) =>
      some (getFrame (tableEntry table), (s.clear table).write f i (tableEntry table))

/-- `context::map_page` on the context with the PML4 table `root`. -/
def mapPage (root : Frame) (phys virt flags : BitVec 64) (cache : CacheType) (s : Phys) :
    Option Phys :=
  match ensureTable root (pml4Index virt) s with
  | none => none
  | some (pdpt, s) =>
    match ensureTable pdpt (pdptIndex virt) s with
    | none => none
    | some (pd, s) =>
      match ensureTable pd (pdIndex virt) s with
      | none => none
      | some (pt, s) => some (s.write pt (ptIndex virt) (pageEntry phys flags cache))

/-- The present entry of a page, as `get_phys` and `get_entry` look for it. -/
def lookup (m : Tables Frame Index (BitVec 64)) (root : Frame) (virt : BitVec 64) :
    Option (BitVec 64) :=
  let pml4Entry := m root (pml4Index virt)
  if present pml4Entry then
    let pdptEntry := m (getFrame pml4Entry) (pdptIndex virt)
    if present pdptEntry then
      let pdEntry := m (getFrame pdptEntry) (pdIndex virt)
      if present pdEntry then
        let ptEntry := m (getFrame pdEntry) (ptIndex virt)
        if present ptEntry then some ptEntry else none
      else
        none
    else
      none
  else
    none

def getPhys (m : Tables Frame Index (BitVec 64)) (root : Frame) (virt : BitVec 64) : BitVec 64 :=
  match lookup m root virt with
  | some entry => (getFrame entry).1
  | none => BitVec.allOnes 64

def getEntry (m : Tables Frame Index (BitVec 64)) (root : Frame) (virt : BitVec 64) : BitVec 64 :=
  match lookup m root virt with
  | some entry => entry
  | none => 0#64

/-! ## Releasing the tables of a context -/

def lowerHalf : List Index :=
  (List.finRange 512).filter fun i => i.val < 256

def upperHalf : List Index :=
  (List.finRange 512).filter fun i => 256 ≤ i.val

/-- The loop of `clean_pd`, `clean_pdpt` and `deinit`: what a present entry that is not huge points
to is cleaned by `cleanChild` and released. -/
def cleanEntries (cleanChild : Frame → Phys → Phys) (indices : List Index) (f : Frame) (s : Phys) :
    Phys :=
  indices.foldl
    (fun s i =>
      let entry := s.tables f i
      let s := s.touch f
      if present entry && !huge entry then
        (cleanChild (getFrame entry) s).free (getFrame entry)
      else
        s)
    s

/-- Page tables are released without a look at them. -/
def cleanPd : Frame → Phys → Phys :=
  cleanEntries (fun _ s => s) (List.finRange 512)

def cleanPdpt : Frame → Phys → Phys :=
  cleanEntries cleanPd (List.finRange 512)

/-- `context::deinit`; `paging_info` keeps its value. -/
def deinit (root : Option Frame) (s : Phys) : Phys :=
  match root with
  | none => s
  | some r => (cleanEntries cleanPdpt lowerHalf r s).free r

def init (root : Option Frame) (s : Phys) : Option (Frame × Phys) :=
  match (deinit root s).alloc with
  | none => none
  | some (r, s) => some (r, s.clear r)

/-! ## Cloning -/

/-- A loop with a body that may panic. -/
def forEach {σ : Type} (body : Index → σ → Option σ) : List Index → σ → Option σ
  | [], s => some s
  | i :: is, s =>
    match body i s with
    | none => none
    | some s => forEach body is s

def copyEntry (source target : Frame) (i : Index) (s : Phys) : Phys :=
  (s.touch source).write target i (s.tables source i)

/-- The body of the loops in `clone_pd`, `clone_pdpt` and `clone_paging_info`. -/
def cloneEntry (cloneChild : Frame → Phys → Option (Frame × Phys)) (source target : Frame)
    (i : Index) (s : Phys) : Option Phys :=
  let entry := s.tables source i
  let s := s.touch source
  if present (getFlags entry) then
    if !huge (getFlags entry) then
      match cloneChild (getFrame entry) s with
      | none => none
      | some (table, s) => some (s.write target i (setFlags (setFrame 0#64 table.1) (getFlags entry)))
    else
      some (s.write target i entry)
  else
    some s

def cloneTable (fill : Frame → Phys → Option Phys) (s : Phys) : Option (Frame × Phys) :=
  match s.alloc with
  | none => none
  | some (table, s) =>
    match fill table (s.clear table) with
    | none => none
    | some s => some (table, s)

def clonePt (pt : Frame) : Phys → Option (Frame × Phys) :=
  cloneTable fun new => forEach (fun i s => some (copyEntry pt new i s)) (List.finRange 512)

def clonePd (pd : Frame) : Phys → Option (Frame × Phys) :=
  cloneTable fun new => forEach (cloneEntry clonePt pd new) (List.finRange 512)

def clonePdpt (pdpt : Frame) : Phys → Option (Frame × Phys) :=
  cloneTable fun new => forEach (cloneEntry clonePd pdpt new) (List.finRange 512)

/-- `context::clone_paging_info` into a context with the root `target`: the lower half is copied
table by table, the entries of the upper half are shared. -/
def clonePagingInfo (source : Frame) (target : Option Frame) (s : Phys) : Option (Frame × Phys) :=
  match init target (deinit target s) with
  | none => none
  | some (new, s) =>
    match forEach (cloneEntry clonePdpt source new) lowerHalf s with
    | none => none
    | some s =>
      match forEach (fun i s => some (copyEntry source new i s)) upperHalf s with
      | none => none
      | some s => some (new, s)

end SigmaOS.Arch.Paging
