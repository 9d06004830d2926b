import SigmaOS.Proc.VmMap

/-!
# Proc.System — the memory calls of user threads

All threads with their address spaces, the frames in `resources.frames` and the handles of
`handle_catalogue`, over one physical memory.  A step is a system call with any arguments, or a byte
that user code writes, in a thread or in a guest of `vctl`.

The bytes a call copies out (a file, a message, a resource region, the registers of a virtual CPU)
are given with the call.  A PANIC and an ASSERT that fails are the answer `none`; a fault in the
kernel leaves what was written before it.

The CPU has SVM; without it a `vspace` has no tables.  The contents of the frames behind a virtual CPU
and device registers are left out, and so are the IOMMU and the return values.
-/

namespace SigmaOS.Proc.Process

open Lib Arch.Paging
open Types (divCeil)

/-- What the kernel writes to the addresses from `virt` on, up to a fault. -/
def copyOut (root : Frame) (virt : BitVec 64) (bytes : List (BitVec 8)) (s : Phys) : Phys :=
  (writeBytes root virt bytes s).2

/-! ## Kernel mappings -/

def mapWindow (kernel : Frame) (phys flags : BitVec 64) (cache : CacheType) (s : Phys) :
    Option Phys :=
  mapPage kernel phys (phys + windowBase) flags cache s

/-- The next `n` answers of the allocator, if they are the blocks from `base` on. -/
def allocRun : BitVec 64 → Nat → Phys → Option (List Frame × Phys)
  | _, 0, s => some ([], s)
  | base, n + 1, s =>
    match s.alloc with
    | none => none
    | some (f, s) =>
      if f.1 = base then
        match allocRun (base + 4096#64) n s with
        | none => none
        | some (fs, s) => some (f :: fs, s)
      else
        none

/-- `mm::pmm::alloc_n_blocks`: the first address and the blocks. -/
def allocNBlocks (n : Nat) (s : Phys) : Option (BitVec 64 × List Frame × Phys) :=
  match s.supply with
  | [] => none
  | f :: _ =>
    match allocRun f.1 n s with
    | none => none
    | some (fs, s) => some (f.1, fs, s)

/-- A page of the window for each of the frames. -/
def mapWindows (kernel : Frame) (flags : BitVec 64) : List Frame → Phys → Option Phys
  | [], s => some s
  | f :: fs, s =>
    match mapWindow kernel f.1 flags .normal s with
    | none => none
    | some s => mapWindows kernel flags fs s

/-- The frames of `svm::vcpu::vcpu`: a control block, two pages of MSR bitmap, one of I/O bitmap. -/
def vcpuFrames (kernel : Frame) (s : Phys) : Option Phys :=
  match s.alloc with
  | none => none
  | some (vmcb, s) =>
    match mapWindow kernel vmcb.1 11#64 .normal s with
    | none => none
    | some s =>
      match allocNBlocks 2 s with
      | none => none
      | some (_, msrBitmap, s) =>
        match allocNBlocks 1 s with
        | none => none
        | some (_, ioBitmap, s) => mapWindows kernel 3#64 (msrBitmap ++ ioBitmap) s

/-- The loop of `vCtlMapVspace` and `vCtlMapVspacePhys` over `n` pages: each is mapped present,
writable and for user code into the nested tables. -/
def mapGuestPages (root : Frame)
    (hostPhys : Tables Frame Index (BitVec 64) → BitVec 64 → BitVec 64) :
    Nat → BitVec 64 → BitVec 64 → Phys → Option Phys
  | 0, _, _, s => some s
  | n + 1, host, guest, s =>
    match mapPage root (hostPhys s.tables host) guest 7#64 .normal s with
    | none => none
    | some s => mapGuestPages root hostPhys n (host + 4096#64) (guest + 4096#64) s

/-! ## Forking an address space -/

def indiciesToAddr (i j k l : Index) : BitVec 64 :=
  (BitVec.ofNat 64 i.val <<< 39) ||| (BitVec.ofNat 64 j.val <<< 30) |||
    (BitVec.ofNat 64 k.val <<< 21) ||| (BitVec.ofNat 64 l.val <<< 12)

/-- The `map_page_flags` a page of the child gets. -/
def forkFlags (entry : BitVec 64) : BitVec 64 :=
  1#64 ||| (if entry.getLsbD 1 then 2#64 else 0#64) ||| (if entry.getLsbD 2 then 4#64 else 0#64) |||
    (if entry.getLsbD 63 then 8#64 else 0#64) ||| (if entry.getLsbD 8 then 16#64 else 0#64)

/-- One page of the parent: a new block, both pages in the window, the copy, and the child's page. -/
def forkPage (kernel child : Frame) (virt entry : BitVec 64) (m : Mem) : Option Mem :=
  if present entry then
    match m.phys.alloc with
    | none => none
    | some (block, s) =>
      match mapWindow kernel (getFrame entry).1 27#64 .normal s with
      | none => none
      | some s =>
        match mapWindow kernel block.1 27#64 .normal s with
        | none => none
        | some s =>
          let s := { s with
            tables := Function.update s.tables block (s.tables (getFrame entry)) }
          match mapPage child block.1 virt (forkFlags entry) .normal s with
          | none => none
          | some s => some ⟨s, m.frames ++ [block]⟩
  else
    some m

/-- The steps of the copy of one page. -/
lemma forkPage_cases {kernel child : Frame} {virt entry : BitVec 64} {m m' : Mem}
    (hpresent : present entry = true) (h : forkPage kernel child virt entry m = some m') :
    ∃ block s₁ s₂ s₃ s₄, m.phys.alloc = some (block, s₁) ∧
      mapWindow kernel (getFrame entry).1 27#64 .normal s₁ = some s₂ ∧
      mapWindow kernel block.1 27#64 .normal s₂ = some s₃ ∧
      mapPage child block.1 virt (forkFlags entry) .normal
        { s₃ with tables := Function.update s₃.tables block (s₃.tables (getFrame entry)) } =
          some s₄ ∧
      m' = ⟨s₄, m.frames ++ [block]⟩ := by
  rw [forkPage, if_pos hpresent] at h
  split at h
  · cases h
  next block s₁ halloc =>
  split at h
  · cases h
  next s₂ hold =>
  split at h
  · cases h
  next s₃ hnew =>
  simp only at h
  split at h
  · cases h
  next s₄ hmap =>
  exact ⟨block, s₁, s₂, s₃, s₄, halloc, hold, hnew, hmap, (Option.some.inj h).symm⟩

/-- The body of the outer loops: what a present entry points to is walked by `walkChild`. -/
def forkEntry (walkChild : Frame → Mem → Option Mem) (table : Frame) (i : Index) (m : Mem) :
    Option Mem :=
  let entry := m.phys.tables table i
  if present entry then walkChild (getFrame entry) m else some m

/-- The loops of `context::fork_address_space`, which read the tables of the parent behind `root`. -/
def forkPages (root kernel child : Frame) : Mem → Option Mem :=
  forEach (fun i =>
    forkEntry (fun pdpt => forEach (fun j =>
      forkEntry (fun pd => forEach (fun k =>
        forkEntry (fun pt => forEach (fun l m =>
          forkPage kernel child (indiciesToAddr i j k l) (m.phys.tables pt l) m)
          (List.finRange 512)) pd k)
        (List.finRange 512)) pdpt j)
      (List.finRange 512)) root i)
    lowerHalf

/-! ## Threads -/

/-- A handle, as far as memory goes: the root of the nested tables of a `vspace`, or of the `vspace` a
virtual CPU runs in. -/
inductive Handle
  | vspace (root : Frame)
  | vcpu (root : Frame)
  | irq
  | ipcRing
  deriving DecidableEq

/-- A slot of `thread_list`.  The identifier of a handle is its position. -/
structure ThreadMem where
  state : ThreadState
  privilege : Privilege
  /-- `vmm.paging_info`. -/
  root : Option Frame
  /-- `resources.frames`. -/
  frames : List Frame
  handles : List Handle

structure System where
  phys : Phys
  /-- The root of the kernel's context. -/
  kernel : Frame
  threads : Tid → ThreadMem
  count : Nat

/-- The system calls, with what they copy out. -/
inductive Syscall
  | vmMap (virt phys size : BitVec 64) (prot flags : BitVec 32)
  | getPhysRegion (size : BitVec 64) (prot flags : BitVec 32) (region : BitVec 64)
      (bytes : List (BitVec 8))
  | fork
  | kill
  | initrdRead (buf : BitVec 64) (bytes : List (BitVec 8))
  | ipcReceive (buf : BitVec 64) (bytes : List (BitVec 8))
  | getResourceRegion (data : BitVec 64) (bytes : List (BitVec 8))
  | accessPci (addr : BitVec 64)
  | enableIrq
  | createVcpu (vspace : Nat)
  | runVcpu (vcpu : Nat) (vexit : BitVec 64) (bytes : List (BitVec 8))
  | nestedPageFault (vcpu : Nat) (rip : BitVec 64)
  | getRegs (vcpu : Nat) (regs : BitVec 64) (bytes : List (BitVec 8))
  | createVspace
  | mapVspace (vspace : Nat) (guest host size : BitVec 64)
  | mapVspacePhys (vspace : Nat) (guest host size : BitVec 64)
  | other

inductive SystemOp
  | store (t : Tid) (virt : BitVec 64) (byte : BitVec 8)
  | guestStore (t : Tid) (vcpu : Nat) (addr : BitVec 64) (byte : BitVec 8)
  | syscall (t : Tid) (call : Syscall)

def SystemOp.caller : SystemOp → Tid
  | .store t _ _ => t
  | .guestStore t _ _ _ => t
  | .syscall t _ => t

namespace System

def setThread (s : System) (t : Tid) (thread : ThreadMem) : System :=
  { s with threads := Function.update s.threads t thread }

def mem (s : System) (t : Tid) : Mem :=
  ⟨s.phys, (s.threads t).frames⟩

def withMem (s : System) (t : Tid) (m : Mem) : System :=
  { s with phys := m.phys }.setThread t { s.threads t with frames := m.frames }

def pushHandle (s : System) (t : Tid) (handle : Handle) : System :=
  s.setThread t { s.threads t with handles := (s.threads t).handles ++ [handle] }

/-- `handle_catalogue::get<vspace_handle>`. -/
def vspaceRoot (s : System) (t : Tid) (id : Nat) : Option Frame :=
  match (s.threads t).handles[id]? with
  | some (.vspace root) => some root
  | _ => none

/-- `handle_catalogue::get<vcpu_handle>`, and the tables the virtual CPU runs in. -/
def vcpuRoot (s : System) (t : Tid) (id : Nat) : Option Frame :=
  match (s.threads t).handles[id]? with
  | some (.vcpu root) => some root
  | _ => none

def copyOut (s : System) (root : Frame) (virt : BitVec 64) (bytes : List (BitVec 8)) : System :=
  { s with phys := Process.copyOut root virt bytes s.phys }

def withPhys (s : System) : Option Phys → Option System
  | none => none
  | some phys => some { s with phys := phys }

def getPhysRegion (s : System) (t : Tid) (root : Frame) (size : BitVec 64)
    (prot flags : BitVec 32) (region : BitVec 64) (bytes : List (BitVec 8)) : Option System :=
  match allocNBlocks (divCeil size 4096#64).toNat s.phys with
  | none => none
  | some (base, blocks, phys) =>
    match mapAnonymous root size 0#64 base prot flags ⟨phys, (s.threads t).frames ++ blocks⟩ with
    | none => none
    | some (.halted, m) => some (s.withMem t m)
    | some (.returned virt, m) =>
      if virt = 0#64 then
        some (s.withMem t m)
      else
        let phys := Process.copyOut root virt (List.replicate size.toNat 0#8) m.phys
        some (s.withMem t ⟨Process.copyOut root region bytes phys, m.frames⟩)

/-- `proc::process::fork`; the child takes the first free slot. -/
def fork (s : System) (t : Tid) (root : Frame) : Option System :=
  let child := freeSlot (fun i => (s.threads i).state) s.count
  let slot := s.threads child
  match clonePagingInfo s.kernel slot.root s.phys with
  | none => none
  | some (new, phys) =>
    match forkPages root s.kernel new ⟨phys, slot.frames⟩ with
    | none => none
    | some m =>
      some
        { s with
          phys := m.phys
          threads := Function.update s.threads child
            ⟨.idle, (s.threads t).privilege, some new, m.frames, []⟩
          count := max s.count (child + 1) }

def kill (s : System) (t : Tid) : Option System :=
  let thread := s.threads t
  match init thread.root (deinit thread.root (thread.frames.foldl Phys.free s.phys)) with
  | none => none
  | some (root, phys) =>
    some
      ({ s with phys := phys }.setThread t
        { thread with state := .disabled, privilege := .application, root := some root })

/-- A system call by thread `t` in the address space behind `root`. -/
def call (s : System) (t : Tid) (root : Frame) : Syscall → Option System
  | .vmMap virt phys size prot flags =>
    match syscallVmMap root (s.threads t).privilege virt phys size prot flags (s.mem t) with
    | none => none
    | some (_, m) => some (s.withMem t m)
  | .getPhysRegion size prot flags region bytes =>
    if !ptrIsUserland region || (s.threads t).privilege.level < Privilege.driver.level then
      some s
    else
      s.getPhysRegion t root size prot flags region bytes
  | .fork => s.fork t root
  | .kill => s.kill t
  | .initrdRead buf bytes => if checkPtr buf then some (s.copyOut root buf bytes) else none
  | .ipcReceive buf bytes => if checkPtr buf then some (s.copyOut root buf bytes) else none
  | .getResourceRegion data bytes => some (s.copyOut root data bytes)
  | .accessPci addr => s.withPhys (mapWindow s.kernel addr 27#64 .uncacheable s.phys)
  | .enableIrq => some (s.pushHandle t .irq)
  | .createVcpu id =>
    match s.vspaceRoot t id with
    | none => none
    | some space =>
      match vcpuFrames s.kernel s.phys with
      | none => none
      | some phys => some ({ s with phys := phys }.pushHandle t (.vcpu space))
  | .runVcpu id vexit bytes =>
    match s.vcpuRoot t id with
    | none => none
    | some _ => some (s.copyOut root vexit bytes)
  | .nestedPageFault id rip =>
    match s.vcpuRoot t id with
    | none => none
    | some space =>
      s.withPhys (mapWindow s.kernel (getPhys s.phys.tables space rip) 1#64 .normal s.phys)
  | .getRegs id regs bytes =>
    match s.vcpuRoot t id with
    | none => none
    | some _ => some (s.copyOut root regs bytes)
  | .createVspace =>
    match init none s.phys with
    | none => none
    | some (space, phys) => some ({ s with phys := phys }.pushHandle t (.vspace space))
  | .mapVspace id guest host size =>
    match s.vspaceRoot t id with
    | none => none
    | some space =>
      s.withPhys (mapGuestPages space (fun m v => getPhys m root v) (divCeil size 4096#64).toNat host
        guest s.phys)
  | .mapVspacePhys id guest host size =>
    match s.vspaceRoot t id with
    | none => none
    | some space =>
      s.withPhys
        (mapGuestPages space (fun _ phys => phys) (divCeil size 4096#64).toNat host guest s.phys)
  | .other => some s

def step (s : System) (op : SystemOp) : Option System :=
  match (s.threads op.caller).root with
  | none => none
  | some root =>
    match op with
    | .store _ virt byte =>
      if isCanonical virt then s.withPhys (storeByte root true virt byte s.phys) else none
    | .guestStore t id addr byte =>
      match s.vcpuRoot t id with
      | none => none
      | some space => s.withPhys (storeByte space true addr byte s.phys)
    | .syscall t call => s.call t root call

end System

end SigmaOS.Proc.Process
