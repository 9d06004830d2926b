import SigmaOS.Proc.Initrd
import SigmaOS.Proc.VmMap

/-!
# Proc.Elf — loading an executable

`load_executable` reads the program headers of an initrd file and builds the image of every `PT_LOAD`
segment in the address space of a thread: it maps the pages, clears them, copies the bytes of the
file, and then opens the pages to user code.

The address space is a map from pages to entries, which is what `map_page` implements
(`Arch.PagingRefine`); the frames of the page tables are not those that `alloc_block` answers to the
loader.  The context of the thread is the active one, so the loader writes through it: a write to a
page that is not present or not writable faults, and the call does not return (`none`).  The buffer
for the interpreter's path is always there.  The console output is left out.
-/

namespace SigmaOS.Proc.Elf

open Lib Arch.Paging

/-! ## Headers -/

/-- A little-endian number of `n` bytes. -/
def readLe (mem : BitVec 64 → BitVec 8) : BitVec 64 → Nat → Nat
  | _, 0 => 0
  | addr, n + 1 => (mem addr).toNat + 256 * readLe mem (addr + 1#64) n

/-- The fields of `Elf64_Ehdr` that the loader uses. -/
structure Ehdr where
  eEntry : BitVec 64
  ePhoff : BitVec 64
  ePhnum : BitVec 16
  deriving DecidableEq

def Ehdr.read (mem : BitVec 64 → BitVec 8) (addr : BitVec 64) : Ehdr where
  eEntry := BitVec.ofNat 64 (readLe mem (addr + 24#64) 8)
  ePhoff := BitVec.ofNat 64 (readLe mem (addr + 32#64) 8)
  ePhnum := BitVec.ofNat 16 (readLe mem (addr + 56#64) 2)

/-- `Elf64_Phdr`, without `p_paddr` and `p_align`, which the loader does not look at. -/
structure Phdr where
  pType : BitVec 32
  pFlags : BitVec 32
  pOffset : BitVec 64
  pVaddr : BitVec 64
  pFilesz : BitVec 64
  pMemsz : BitVec 64
  deriving DecidableEq

def Phdr.read (mem : BitVec 64 → BitVec 8) (addr : BitVec 64) : Phdr where
  pType := BitVec.ofNat 32 (readLe mem addr 4)
  pFlags := BitVec.ofNat 32 (readLe mem (addr + 4#64) 4)
  pOffset := BitVec.ofNat 64 (readLe mem (addr + 8#64) 8)
  pVaddr := BitVec.ofNat 64 (readLe mem (addr + 16#64) 8)
  pFilesz := BitVec.ofNat 64 (readLe mem (addr + 32#64) 8)
  pMemsz := BitVec.ofNat 64 (readLe mem (addr + 40#64) 8)

def ehdrSize : BitVec 64 := 64#64

def phdrSize : BitVec 64 := 56#64

def ptLoad : BitVec 32 := 1#32

def ptInterp : BitVec 32 := 3#32

def ptPhdr : BitVec 32 := 6#32

/-! ## The address space of the thread -/

structure Space where
  pages : BitVec 36 → BitVec 64
  bytes : Frame → BitVec 12 → BitVec 8
  supply : List Frame
  frames : List Frame

def offsetOf (virt : BitVec 64) : BitVec 12 :=
  virt.extractLsb' 0 12

namespace Space

def byteAt (s : Space) (page : BitVec 36) (offset : BitVec 12) : BitVec 8 :=
  s.bytes (getFrame (s.pages page)) offset

def readByte (s : Space) (virt : BitVec 64) : BitVec 8 :=
  s.byteAt (pageOf virt) (offsetOf virt)

/-- Whether the kernel can write at the address (`CR0.WP` is set, and SMAP is off for the call). -/
def writable (s : Space) (virt : BitVec 64) : Bool :=
  Process.isCanonical virt && present (s.pages (pageOf virt)) && (s.pages (pageOf virt)).getLsbD 1

def writeByte (s : Space) (virt : BitVec 64) (byte : BitVec 8) : Option Space :=
  if s.writable virt then
    let frame := getFrame (s.pages (pageOf virt))
    let contents := Function.update (s.bytes frame) (offsetOf virt) byte
    some { s with bytes := Function.update s.bytes frame contents }
  else
    none

/-- `memset_aligned_4k(virt & ~(block_size - 1), 0)`. -/
def clearPage (s : Space) (virt : BitVec 64) : Option Space :=
  if s.writable virt then
    some { s with bytes := Function.update s.bytes (getFrame (s.pages (pageOf virt))) fun _ => 0#8 }
  else
    none

def memcpy (s : Space) (mem : BitVec 64 → BitVec 8) (dest src : BitVec 64) (n : Nat) :
    Option Space :=
  exec (fun s k => s.writeByte (dest + BitVec.ofNat 64 k) (mem (src + BitVec.ofNat 64 k))) s
    (List.range n)

def mapPage (s : Space) (frame : Frame) (virt flags : BitVec 64) : Space :=
  { s with pages := Function.update s.pages (pageOf virt) (pageEntry frame.1 flags .normal) }

/-- `context::set_page_protection`, whose answer the loader does not look at.  The bits that are
asked for are added to those of the entry. -/
def setPageProtection (s : Space) (virt flags : BitVec 64) : Space :=
  let entry := s.pages (pageOf virt)
  if present entry then
    let entry := setFlags entry (entryFlags flags) ||| getPatFlags .normal
    { s with pages := Function.update s.pages (pageOf virt) entry }
  else
    s

end Space

/-! ## Loading -/

/-- The address of page `j` of a segment, `base + p_vaddr + (j * block_size)`. -/
def pageAt (start : BitVec 64) (j : Nat) : BitVec 64 :=
  start + BitVec.ofNat 64 j * 4096#64

/-- A round of the first loop: `map_page_flags_present | map_page_flags_writable` until the bytes are
there. -/
def addPage (start : BitVec 64) (j : Nat) (s : Space) : Option (Bool × Space) :=
  match s.supply with
  | [] => none
  | frame :: supply =>
    if frame.1 = 0#64 then
      some (false, { s with supply := supply })
    else
      -- the frame is noted in the thread's resources before it is mapped
      let s := { s with supply := supply, frames := s.frames ++ [frame] }
      ((s.mapPage frame (pageAt start j) 3#64).clearPage (pageAt start j)).map fun s => (true, s)

/-- `map_page_flags_present | map_page_flags_user`, and no-execute and writable by `p_flags`. -/
def segmentFlags (pFlags : BitVec 32) : BitVec 64 :=
  let flags := 5#64
  let flags := if pFlags &&& 1#32 = 0#32 then flags ||| 8#64 else flags
  if pFlags &&& 2#32 ≠ 0#32 then flags ||| 2#64 else flags

def protect (start flags : BitVec 64) (n : Nat) (s : Space) : Space :=
  (List.range n).foldl (fun s j => s.setPageProtection (pageAt start j) flags) s

def loadSegment (r : Initrd) (fileName : List (BitVec 8)) (base : BitVec 64) (ph : Phdr)
    (s : Space) : Option (Bool × Space) :=
  if ph.pMemsz = 0#64 then
    some (true, s)
  else
    let start := base + ph.pVaddr
    -- counted by the size alone, wherever in its page the segment starts
    let nPages := (Types.divCeil ph.pMemsz 4096#64).toNat
    match loop (addPage start) (List.range nPages) s with
    | none => none
    | some (false, s) => some (false, s)
    | some (true, s) =>
      match r.readFile fileName ph.pOffset ph.pFilesz with
      | none => some (false, s)
      | some src =>
        -- this goes through the thread's own mapping, which may end too early
        match s.memcpy r.mem start src ph.pFilesz.toNat with
        | none => none
        | some s => some (true, protect start (segmentFlags ph.pFlags) nPages s)

/-- The fields of `auxvals` that `load_executable` sets. -/
structure Auxvals where
  atPhdr : BitVec 64
  atPhent : BitVec 64
  atPhnum : BitVec 64
  atEntry : BitVec 64

/-- What the call works on: the thread, `*aux` and `*ld_out_path`. -/
structure Loader where
  space : Space
  aux : Auxvals
  ldPath : Option (List (BitVec 8))

/-- A round of the loop over the program headers; `wantsLd` says that `ld_out_path` is not null. -/
def loadHeader (r : Initrd) (fileName : List (BitVec 8)) (wantsLd : Bool) (base : BitVec 64)
    (header : Ehdr) (i : Nat) (l : Loader) : Option (Bool × Loader) :=
  match r.readFile fileName (header.ePhoff + phdrSize * BitVec.ofNat 64 i) phdrSize with
  | none => some (false, l)
  | some src =>
    let ph := Phdr.read r.mem src
    if ph.pType = ptInterp then
      if wantsLd then
        match r.readFile fileName ph.pOffset ph.pFilesz with
        | none => some (false, l)
        | some path =>
          let text := (List.range ph.pFilesz.toNat).map fun k => r.mem (path + BitVec.ofNat 64 k)
          some (true, { l with ldPath := some (text ++ [0#8]) })
      else
        some (true, l)
    else if ph.pType = ptPhdr then
      -- the loader does not check that a segment covers this address
      some (true, { l with aux := { l.aux with atPhdr := base + ph.pVaddr } })
    else if ph.pType = ptLoad then
      (loadSegment r fileName base ph l.space).map fun (go, s) => (go, { l with space := s })
    else
      some (true, l)

def loadExecutable (r : Initrd) (fileName : List (BitVec 8)) (wantsLd : Bool) (base : BitVec 64)
    (l : Loader) : Option (Bool × Loader) :=
  match r.readFile fileName 0#64 ehdrSize with
  | none => some (false, l)
  | some src =>
    let header := Ehdr.read r.mem src
    let aux := { l.aux with
      atPhdr := 0#64, atPhent := phdrSize, atPhnum := header.ePhnum.zeroExtend 64 }
    match loop (loadHeader r fileName wantsLd base header) (List.range header.ePhnum.toNat)
        { l with aux := aux } with
    | none => none
    | some (false, l) => some (false, l)
    | some (true, l) =>
      some (true, { l with aux := { l.aux with atEntry := base + header.eEntry } })

end SigmaOS.Proc.Elf
