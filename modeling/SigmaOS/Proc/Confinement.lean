import SigmaOS.Proc.Guarded

/-!
# Proc.Confinement — what application threads can reach

A frame is handed out when it is in `resources.frames` of a thread.  In a sound system the tables
of the kernel, of application threads and of their guests have a role, and memory is guarded: pages
open to user code lead to frames that are handed out.  The tables of drivers have no role.
-/

namespace SigmaOS.Proc.Process

open Lib Arch.Paging List
open Types (divCeil)

/-! ## The system -/

/-- The roots of the address space of a thread and of the guests it has. -/
def Handle.space : Handle → Option Frame
  | .vspace root => some root
  | .vcpu root => some root
  | .irq => none
  | .ipcRing => none

def ThreadMem.spaces (thread : ThreadMem) : List Frame :=
  thread.root.toList ++ thread.handles.filterMap Handle.space

namespace System

def Handed (s : System) (f : Frame) : Prop :=
  ∃ t, f ∈ (s.threads t).frames

/-- Every frame that an application thread or one of its guests reaches through a page open to user
code was handed out to a thread, and is outstanding. -/
def Confined (s : System) : Prop :=
  ∀ t root virt entry, (s.threads t).privilege = .application → root ∈ (s.threads t).spaces →
    lookup s.phys.tables root virt = some entry → entry.getLsbD 2 = true →
    s.Handed (getFrame entry) ∧ getFrame entry ∈ s.phys.live

/-- The tables of the kernel and of all application threads have a role and are guarded; slots that
are free have no tables yet. -/
structure Sounds (owner : Frame → Option Role) (s : System) : Prop where
  guarded : Guarded s.Handed owner s.phys
  kernel : owner s.kernel = some (.own 0 [])
  spaces : ∀ t root, (s.threads t).privilege = .application → root ∈ (s.threads t).spaces →
    owner root = some (.own 0 [])
  free : ∀ t, s.count ≤ t ∨ (s.threads t).state = .disabled → (s.threads t).root = none

def Sound (s : System) : Prop :=
  ∃ owner, Sounds owner s

def ByApplication (s : System) (op : SystemOp) : Prop :=
  (s.threads op.caller).privilege = .application

/-- `vctl` maps no physical addresses, and host pages only when they are open to the caller; what the
kernel writes to a buffer of the caller goes to no kernel page; `vm_map` stays out of the upper half,
where the window is, and clears no kernel page; and no thread is killed. -/
def Confining (s : System) (op : SystemOp) : Prop :=
  s.ByApplication op ∧
    match op with
    | .syscall t call =>
      ∀ root, (s.threads t).root = some root →
        match call with
        | .vmMap virt phys size prot _ =>
          refusesVmMap .application virt phys = true ∨
            UserRange s.phys.tables root (mapFlags prot) (divCeil size 4096#64).toNat
              (mapBase s.phys.tables root size virt)
        | .kill => False
        | .initrdRead buf bytes => UserBuffer s.phys.tables root buf bytes.length
        | .ipcReceive buf bytes => UserBuffer s.phys.tables root buf bytes.length
        | .getResourceRegion data bytes => UserBuffer s.phys.tables root data bytes.length
        | .runVcpu _ vexit bytes => UserBuffer s.phys.tables root vexit bytes.length
        | .getRegs _ regs bytes => UserBuffer s.phys.tables root regs bytes.length
        | .mapVspace _ _ host size => ∀ i, i < (divCeil size 4096#64).toNat →
            UserPage s.phys.tables root (host + 4096#64 * BitVec.ofNat 64 i)
        | .mapVspacePhys _ _ _ size => divCeil size 4096#64 = 0#64
        | _ => True
    | _ => True

variable {owner owner' : Frame → Option Role} {s s' : System} {t : Tid} {root : Frame}

lemma Sounds.extend {z : System} (h : Sounds owner s) (hguarded : Guarded z.Handed owner' z.phys)
    (hext : Extends owner s.phys owner' z.phys) (hkernel : z.kernel = s.kernel)
    (hspaces : ∀ u r, (z.threads u).privilege = .application → r ∈ (z.threads u).spaces →
      ((s.threads u).privilege = .application ∧ r ∈ (s.threads u).spaces) ∨
        owner' r = some (.own 0 []))
    (hfree : ∀ u, z.count ≤ u ∨ (z.threads u).state = .disabled → (z.threads u).root = none) :
    z.Sound := by
  refine ⟨owner', hguarded, ?_, ?_, hfree⟩
  · rw [hkernel]
    exact hext.keeps _ _ h.kernel
  · intro u r happ hr
    rcases hspaces u r happ hr with ⟨hold, hin⟩ | hnew
    · exact hext.keeps _ _ (h.spaces u r hold hin)
    · exact hnew

lemma Sounds.phys {phys : Phys} (h : Sounds owner s)
    (hguarded : GuardedFrom s.Handed owner s.phys phys) :
    ({ s with phys := phys } : System).Sound := by
  rcases hguarded with ⟨owner', hguarded, hext⟩
  exact h.extend (z := { s with phys := phys }) hguarded hext rfl
    (fun u r happ hr => .inl ⟨happ, hr⟩) h.free

lemma Sounds.withPhys {phys : Option Phys} (h : Sounds owner s)
    (hguarded : ∀ p, phys = some p → GuardedFrom s.Handed owner s.phys p)
    (hs : s.withPhys phys = some s') : s'.Sound := by
  cases phys with
  | none => cases hs
  | some p => exact Option.some.inj hs ▸ h.phys (hguarded p rfl)

def HandedOthers (s : System) (t : Tid) (f : Frame) : Prop :=
  ∃ u, u ≠ t ∧ f ∈ (s.threads u).frames

lemma handed_setThread (thread : ThreadMem) (phys : Phys) (f : Frame) :
    (∃ u, f ∈ (Function.update s.threads t thread u).frames) ↔
      HandedTo (s.HandedOthers t) ⟨phys, thread.frames⟩ f := by
  refine ⟨?_, ?_⟩
  · rintro ⟨u, hu⟩
    by_cases hut : u = t
    · subst hut
      exact .inr (by simpa using hu)
    · exact .inl ⟨u, hut, by simpa [hut] using hu⟩
  · rintro (⟨u, hut, hu⟩ | ht)
    · exact ⟨u, by simpa [hut] using hu⟩
    · exact ⟨t, by simpa using ht⟩

lemma handed_iff {phys : Phys} {f : Frame} :
    s.Handed f ↔ HandedTo (s.HandedOthers t) ⟨phys, (s.threads t).frames⟩ f := by
  have hself := handed_setThread (s := s) (t := t) (s.threads t) phys f
  rwa [Function.update_eq_self] at hself

/-- A thread is replaced, with its address spaces accounted for. -/
lemma Sounds.setThread {thread : ThreadMem} {phys : Phys} {count : Nat} (h : Sounds owner s)
    (hguarded : Guarded (HandedTo (s.HandedOthers t) ⟨phys, thread.frames⟩) owner' phys)
    (hext : Extends owner s.phys owner' phys)
    (hspaces : thread.privilege = .application → ∀ r ∈ thread.spaces,
      ((s.threads t).privilege = .application ∧ r ∈ (s.threads t).spaces) ∨
        owner' r = some (.own 0 [])) (hcount : s.count ≤ count)
    (hfree : count ≤ t ∨ thread.state = .disabled → thread.root = none) :
    (⟨phys, s.kernel, Function.update s.threads t thread, count⟩ : System).Sound := by
  refine h.extend (z := ⟨phys, s.kernel, Function.update s.threads t thread, count⟩)
    (hguarded.congr fun f => (handed_setThread thread phys f).symm) hext rfl ?_ ?_
  · intro u r happ hr
    by_cases hut : u = t
    · subst hut
      exact hspaces (by simpa using happ) r (by simpa using hr)
    · exact .inl ⟨by simpa [hut] using happ, by simpa [hut] using hr⟩
  · intro u hu
    by_cases hut : u = t
    · subst hut
      simpa using hfree (by simpa using hu)
    · simpa [hut] using h.free u (hu.imp hcount.trans (by simp [hut]))

lemma Sounds.withMem {m : Mem} (h : Sounds owner s)
    (hguarded : GuardedFrom (HandedTo (s.HandedOthers t) m) owner s.phys m.phys) :
    (s.withMem t m).Sound := by
  rcases hguarded with ⟨owner', hguarded, hext⟩
  exact h.setThread hguarded hext (fun happ r hr => .inl ⟨happ, hr⟩) (Nat.le_refl _) (h.free t)

/-- Pushing a handle keeps the system sound if its space is a root. -/
lemma Sounds.pushHandle {phys : Phys} {handle : Handle} (h : Sounds owner s)
    (hguarded : Guarded s.Handed owner' phys) (hext : Extends owner s.phys owner' phys)
    (hhandle : ∀ r, handle.space = some r → owner' r = some (.own 0 [])) :
    ({ s with phys := phys }.pushHandle t handle).Sound := by
  refine h.setThread (hguarded.congr fun f => handed_iff) hext ?_ (Nat.le_refl _) (h.free t)
  intro happ r hr
  have hcases : (r ∈ (s.threads t).root.toList ∨
      r ∈ (s.threads t).handles.filterMap Handle.space) ∨ r ∈ [handle].filterMap Handle.space := by
    simpa only [ThreadMem.spaces, filterMap_append, mem_append, or_assoc] using hr
  rcases hcases with hold | hnew
  · exact .inl ⟨happ, mem_append.2 hold⟩
  · exact .inr (hhandle r (by simpa using hnew))

/-! ## System calls -/

lemma Sounds.root_role (h : Sounds owner s) (happ : (s.threads t).privilege = .application)
    (hroot : (s.threads t).root = some root) : owner root = some (.own 0 []) := by
  refine h.spaces t root happ (mem_append_left _ ?_)
  simp [hroot]

lemma Sounds.handle_role {handle : Handle} {id : Nat} (h : Sounds owner s)
    (happ : (s.threads t).privilege = .application)
    (hhandle : (s.threads t).handles[id]? = some handle) (hspace : handle.space = some root) :
    owner root = some (.own 0 []) := by
  refine h.spaces t root happ (mem_append_right _ ?_)
  exact mem_filterMap.2 ⟨handle, mem_of_getElem? hhandle, hspace⟩

lemma vspaceRoot_handle {id : Nat} (h : s.vspaceRoot t id = some root) :
    (s.threads t).handles[id]? = some (.vspace root) := by
  unfold vspaceRoot at h
  split at h
  · next space hget =>
    rw [hget, Option.some.inj h]
  · exact absurd h (by simp)

lemma vcpuRoot_handle {id : Nat} (h : s.vcpuRoot t id = some root) :
    (s.threads t).handles[id]? = some (.vcpu root) := by
  unfold vcpuRoot at h
  split at h
  · next space hget =>
    rw [hget, Option.some.inj h]
  · exact absurd h (by simp)

section

variable (h : Sounds owner s)
include h

/-- `vm_map` maps new blocks outside of the kernel's window. -/
lemma Sounds.vmMap {virt phys size : BitVec 64} {prot flags : BitVec 32} {out : Outcome} {m : Mem}
    (happ : (s.threads t).privilege = .application) (hroot : (s.threads t).root = some root)
    (hok : refusesVmMap .application virt phys = true ∨
      UserRange s.phys.tables root (mapFlags prot) (divCeil size 4096#64).toNat
        (mapBase s.phys.tables root size virt))
    (hcall : syscallVmMap root .application virt phys size prot flags (s.mem t) = some (out, m)) :
    (s.withMem t m).Sound := by
  have hguarded : Guarded (HandedTo (s.HandedOthers t) (s.mem t)) owner (s.mem t).phys :=
    h.guarded.congr fun f => handed_iff
  refine h.withMem ?_
  rcases syscallVmMap_cases hcall with ⟨_, rfl⟩ | ⟨hrefuse, out', hmap⟩
  · exact hguarded.refl
  · rcases mapAnonymous_cases hmap with ⟨_, rfl⟩ | ⟨_, done, hrun⟩
    · exact hguarded.refl
    · -- physical addresses are refused
      have hphys : phys = 0#64 := by
        simpa [refusesVmMap, Privilege.level] using (Bool.or_eq_false_iff.1 hrefuse).2
      rw [hphys] at hrun
      exact mapPages_guarded (mapFlags_user prot) hguarded (h.root_role happ hroot)
        (hok.resolve_left (by simp [hrefuse])) hrun

/-- The child's pages are new blocks. -/
lemma Sounds.fork (happ : (s.threads t).privilege = .application) (hs : s.fork t root = some s') :
    s'.Sound := by
  have hslot : (s.threads (freeSlot (fun i => (s.threads i).state) s.count)).root = none := by
    refine h.free _ ?_
    rcases freeSlot_cases (fun i => (s.threads i).state) s.count with ⟨_, hdisabled⟩ | hcount
    · exact .inr hdisabled
    · exact .inl (Nat.le_of_eq hcount.symm)
  simp only [System.fork, hslot] at hs
  generalize freeSlot (fun i => (s.threads i).state) s.count = child at hs
  split at hs
  · cases hs
  next new phys hclone =>
  split at hs
  · cases hs
  next hpages =>
  rcases clonePagingInfo_spec (d := 0) granted_zero h.guarded.holding h.kernel hclone with
    ⟨owner₁, ⟨hholding, hext₁, _⟩, hnew, _, _⟩
  have h₁ : Guarded (HandedTo (s.HandedOthers child) ⟨phys, (s.threads child).frames⟩) owner₁ phys :=
    (h.guarded.extend hholding hext₁).congr fun f => handed_iff
  rcases forkPages_guarded h₁ (hext₁.keeps _ _ h.kernel) hnew hpages with ⟨owner₂, h₂, hext₂⟩
  rw [← Option.some.inj hs, happ]
  refine h.setThread h₂ (hext₁.trans hext₂) ?_ (Nat.le_max_left _ _) ?_
  · intro _ r hr
    have hrnew : r = new := by simpa [ThreadMem.spaces] using hr
    exact .inr (hrnew ▸ hext₂.keeps _ _ hnew)
  · rintro (hcount | hdisabled)
    · exact absurd (Nat.le_trans (Nat.le_max_right _ _) hcount) (Nat.not_succ_le_self _)
    · cases hdisabled

lemma Sounds.copyOut {virt : BitVec 64} {bytes : List (BitVec 8)}
    (hroot : owner root = some (.own 0 []))
    (hbuffer : UserBuffer s.phys.tables root virt bytes.length) :
    (s.copyOut root virt bytes).Sound := by
  have hsame := h.guarded.writeBytes hroot hbuffer
  exact h.phys ⟨owner, h.guarded.same hsame, Extends.of_live hsame.live.symm.subset⟩

lemma Sounds.copyOut_checked {virt : BitVec 64} {bytes : List (BitVec 8)}
    (hroot : owner root = some (.own 0 []))
    (hbuffer : UserBuffer s.phys.tables root virt bytes.length)
    (hs : (if checkPtr virt then some (s.copyOut root virt bytes) else none) = some s') :
    s'.Sound := by
  by_cases hptr : checkPtr virt = true
  · rw [if_pos hptr] at hs
    exact Option.some.inj hs ▸ h.copyOut hroot hbuffer
  · rw [if_neg hptr] at hs
    cases hs

lemma Sounds.copyOut_guest {virt : BitVec 64} {bytes : List (BitVec 8)} {guest : Option Frame}
    (hroot : owner root = some (.own 0 []))
    (hbuffer : UserBuffer s.phys.tables root virt bytes.length) (hs : (match guest with
      | none => none
      | some _ => some (s.copyOut root virt bytes)) = some s') : s'.Sound := by
  cases guest with
  | none => cases hs
  | some space => exact Option.some.inj hs ▸ h.copyOut hroot hbuffer

/-- The frames of a virtual CPU are mapped for the kernel. -/
lemma Sounds.createVcpu {id : Nat} {space : Frame} {phys : Phys}
    (happ : (s.threads t).privilege = .application) (hspace : s.vspaceRoot t id = some space)
    (hframes : vcpuFrames s.kernel s.phys = some phys) :
    ({ s with phys := phys }.pushHandle t (.vcpu space)).Sound := by
  rcases vcpuFrames_guarded h.guarded h.kernel hframes with ⟨owner', h', hext⟩
  have hspaceRole := h.handle_role happ (vspaceRoot_handle hspace) rfl
  refine h.pushHandle h' hext ?_
  intro r hr
  rw [← Option.some.inj hr]
  exact hext.keeps _ _ hspaceRole

lemma Sounds.createVspace {space : Frame} {phys : Phys}
    (hinit : init none s.phys = some (space, phys)) :
    ({ s with phys := phys }.pushHandle t (.vspace space)).Sound := by
  rcases init_cases hinit with ⟨s₁, halloc, rfl⟩
  rcases Fills.alloc granted_zero h.guarded.holding halloc (.own 0 []) with
    ⟨_, _, hholding, hext, _⟩
  refine h.pushHandle (h.guarded.extend hholding hext) hext ?_
  intro r hr
  rw [← Option.some.inj hr]
  simp

/-- Every system call keeps the state sound. -/
lemma Sounds.call {c : Syscall} (happ : (s.threads t).privilege = .application)
    (hroot : (s.threads t).root = some root) (hok : s.Confining (.syscall t c))
    (hs : s.call t root c = some s') : s'.Sound := by
  have hguard := hok.2 root hroot
  have hrole := h.root_role happ hroot
  cases c with
  | vmMap virt phys size prot flags =>
    rw [System.call, happ] at hs
    split at hs
    · cases hs
    next hcall =>
    cases hs
    exact h.vmMap happ hroot hguard hcall
  | getPhysRegion size prot flags region bytes =>
    -- the call is for drivers
    have hs' : s = s' := by simpa [System.call, happ, Privilege.level] using hs
    exact hs' ▸ ⟨owner, h⟩
  | fork => exact h.fork happ (by simpa only [System.call] using hs)
  | kill => exact absurd hguard (by simp)
  | initrdRead buf bytes => exact h.copyOut_checked hrole hguard hs
  | ipcReceive buf bytes => exact h.copyOut_checked hrole hguard hs
  | getResourceRegion data bytes =>
    cases hs
    exact h.copyOut hrole hguard
  | accessPci addr =>
    have hflags : (27#64).getLsbD 2 = false := by decide
    exact h.withPhys (fun p hp => h.guarded.mapWindow h.kernel hflags hp) hs
  | enableIrq =>
    cases hs
    exact h.pushHandle h.guarded Extends.refl (by simp [Handle.space])
  | createVcpu id =>
    rw [System.call] at hs
    split at hs
    · cases hs
    next hspace =>
    split at hs
    · cases hs
    next hframes =>
    cases hs
    exact h.createVcpu happ hspace hframes
  | runVcpu id vexit bytes => exact h.copyOut_guest hrole hguard hs
  | nestedPageFault id rip =>
    rw [System.call] at hs
    split at hs
    · cases hs
    · exact h.withPhys (fun p hp => h.guarded.mapWindow h.kernel (by decide) hp) hs
  | getRegs id regs bytes => exact h.copyOut_guest hrole hguard hs
  | createVspace =>
    rw [System.call] at hs
    split at hs
    · cases hs
    next hinit =>
    cases hs
    exact h.createVspace hinit
  | mapVspace id guest host size =>
    rw [System.call] at hs
    split at hs
    · cases hs
    next hspace =>
    have hspaceRole := h.handle_role happ (vspaceRoot_handle hspace) rfl
    exact h.withPhys (fun p hp => mapVspace_guarded h.guarded hrole hspaceRole hguard hp) hs
  | mapVspacePhys id guest host size =>
    -- there is no page to map
    rw [System.call, show divCeil size 4096#64 = 0#64 from hguard] at hs
    split at hs
    · cases hs
    · cases hs
      exact ⟨owner, h⟩
  | other =>
    cases hs
    exact ⟨owner, h⟩

lemma Sounds.store {virt : BitVec 64} {byte : BitVec 8} (hroot : owner root = some (.own 0 []))
    (hs : s.withPhys (storeByte root true virt byte s.phys) = some s') : s'.Sound := by
  refine h.withPhys (fun p hp => ?_) hs
  rcases storeByte_cases hp with ⟨f, page, hframe, rfl⟩
  exact ⟨owner, h.guarded.write (h.guarded.storeFrame hroot (.inl rfl) hframe) page,
    Extends.of_live (Finset.Subset.refl _)⟩

end

/-- So does every step, a byte written by user code included. -/
lemma Sound.step {op : SystemOp} (h : s.Sound) (hok : s.Confining op) (hs : s.step op = some s') :
    s'.Sound := by
  rcases h with ⟨owner, h⟩
  have happ : (s.threads op.caller).privilege = .application := hok.1
  rw [System.step] at hs
  split at hs
  · cases hs
  next root hroot =>
  cases op with
  | store t virt byte =>
    simp only at hs
    split at hs
    · exact h.store (h.root_role happ hroot) hs
    · cases hs
  | guestStore t id addr byte =>
    simp only at hs
    split at hs
    · cases hs
    next hspace =>
    exact h.store (h.handle_role happ (vcpuRoot_handle hspace) rfl) hs
  | syscall t c => exact h.call (t := t) happ hroot hok hs

lemma Sound.confined (h : s.Sound) : s.Confined := by
  rcases h with ⟨owner, h⟩
  intro t root virt entry happ hroot hlookup huser
  have hhanded := h.guarded.user_frame (h.spaces t root happ hroot) hlookup huser
  exact ⟨hhanded, (h.guarded.handed _ hhanded).1⟩

end System

/-- In every run of application threads whose calls meet the condition, every frame one of them or one
of their guests can reach through a page open to user code was handed out to a thread. -/
theorem application_confined {s₀ s : System} (h₀ : s₀.Sound)
    (hrun : Run System.step System.Confining s₀ s) : s.Confined :=
  (hrun.invariant h₀ fun _ _ _ h hok hs => h.step hok hs).confined

/-- The kernel's root is in frame 1, and thread 1 is an application with an empty address space. -/
def sampleSystem : System where
  phys :=
    { tables := fun _ _ => 0#64
      supply := [frameAt 3, frameAt 4, frameAt 5, frameAt 6, frameAt 7, frameAt 8, frameAt 9,
        frameAt 10]
      live := {frameAt 1, frameAt 2}
      misuse := false }
  kernel := frameAt 1
  threads := fun t =>
    if t = 1 then ⟨.running, .application, some (frameAt 2), [], []⟩
    else ⟨.disabled, .application, none, [], []⟩
  count := 2

/-- An application without pages. -/
lemma sampleSystem_sound : sampleSystem.Sound := by
  refine ⟨fun f => if f = frameAt 1 ∨ f = frameAt 2 then some (.own 0 []) else none,
    ⟨⟨⟨fun _ _ _ _ _ _ => .inl rfl, ?_, rfl⟩, fun _ _ _ _ _ => granted_zero⟩, ?_⟩, by decide,
    ?_, ?_⟩
  · intro f l hf
    by_cases hroot : f = frameAt 1 ∨ f = frameAt 2
    · simpa [sampleSystem] using hroot
    · simp [hroot] at hf
  · rintro f ⟨t, ht⟩
    by_cases ht1 : t = 1
    · simp [sampleSystem, ht1] at ht
    · simp [sampleSystem, ht1] at ht
  · intro t root _ hroot
    by_cases ht1 : t = 1
    · have heq : root = frameAt 2 := by simpa [sampleSystem, ht1, ThreadMem.spaces] using hroot
      simp [heq]
    · simp [sampleSystem, ht1, ThreadMem.spaces] at hroot
  · intro t ht
    have ht1 : t ≠ 1 := by
      rintro rfl
      rcases ht with hcount | hdisabled
      · exact absurd hcount (by decide)
      · exact absurd hdisabled (by decide)
    simp [sampleSystem, ht1]

lemma System.step_vmMap_one {s : System} {t : Tid} {root block : Frame} {s₁ s₂ : Phys}
    (h : s.Sound) (happ : (s.threads t).privilege = .application)
    (hroot : (s.threads t).root = some root) (halloc : s.phys.alloc = some (block, s₁))
    (hmap : mapPage root block.1 0x1000#64 (mapFlags 3#32) .normal s₁ = some s₂) :
    s.step (.syscall t (.vmMap 0x1000#64 0#64 0x1000#64 3#32 0#32)) =
      some (s.withMem t ⟨{ s₂ with tables := Function.update s₂.tables block fun _ => 0#64 },
        (s.threads t).frames ++ [block]⟩) := by
  rcases h with ⟨owner, h⟩
  have hround := mapRound_block (m := s.mem t) 0#64 h.guarded.holding.tracks
    (h.root_role happ hroot) halloc hmap (by decide) (by decide) (by decide) (by decide)
  have hpages : (divCeil 0x1000#64 4096#64).toNat = 1 := by decide
  have hraw : (0#64 != 0#64) = false := by decide
  have hbase : mapBase (s.mem t).phys.tables root 0x1000#64 0x1000#64 = 0x1000#64 := rfl
  have hne : 0x1000#64 ≠ 0#64 := by decide
  have hptr : checkPtr 0x1000#64 = true := by decide
  have hrefuse : refusesVmMap .application 0x1000#64 0#64 = false := by decide
  simp only [System.step, SystemOp.caller, hroot, System.call, happ, syscallVmMap, mapAnonymous,
    hbase, hne, hpages, hraw, mapPages, hround, hptr, hrefuse, Bool.false_eq_true, if_true, if_false]
  rfl

/-- A page of the application is mapped into its guest. -/
theorem application_confined_sample :
    ∃ s, exec System.step sampleSystem
        [.syscall 1 .createVspace, .syscall 1 (.vmMap 0x1000#64 0#64 0x1000#64 3#32 0#32),
          .syscall 1 (.mapVspace 0 0#64 0x1000#64 0x1000#64)] = some s ∧
      getPhys s.phys.tables (frameAt 3) 0#64 = (frameAt 4).1 ∧ s.Confined := by
  have hok : sampleSystem.Confining (.syscall 1 .createVspace) := ⟨rfl, fun _ _ => trivial⟩
  have hfirst : sampleSystem.step (.syscall 1 .createVspace) = some _ := rfl
  have hsecond := System.step_vmMap_one (t := 1) (sampleSystem_sound.step hok hfirst) rfl rfl rfl rfl
  refine ⟨_, exec_cons_some.2 ⟨_, hfirst, exec_cons_some.2 ⟨_, hsecond, rfl⟩⟩, by decide,
    application_confined sampleSystem_sound ?_⟩
  refine Run.tail (Run.tail (Run.single hok hfirst) ?_ hsecond)
    (a := .syscall 1 (.mapVspace 0 0#64 0x1000#64 0x1000#64)) ?_ rfl
  · have hrange : ∀ m root, UserRange m root (mapFlags 3#32) 1 0x1000#64 := fun _ _ =>
      ⟨fun _ => by decide, fun hover => absurd hover.2.2.2.2 (by decide),
        fun hmod => absurd (by decide) hmod⟩
    exact ⟨rfl, fun root _ => .inr (hrange _ root)⟩
  · refine ⟨rfl, ?_⟩
    intro root hroot i hi
    have hi0 : i = 0 := Nat.lt_one_iff.1 hi
    rw [← Option.some.inj hroot, hi0]
    exact ⟨0x8000000000004007#64, by decide, by decide⟩

/-- `vCtlMapVspacePhys` gives the guest frame 15, which nobody was handed out. -/
theorem application_not_confined :
    ¬ ∀ s₀ s : System, s₀.Sound → Run System.step System.ByApplication s₀ s → s.Confined := by
  intro hall
  have hrun : ∃ s, Run System.step System.ByApplication sampleSystem s ∧
      lookup s.phys.tables (frameAt 3) 0#64 = some 0xF007#64 ∧
      (s.threads 1).privilege = .application ∧ frameAt 3 ∈ (s.threads 1).spaces ∧
      ∀ t, (s.threads t).frames = [] := by
    refine ⟨_, Run.tail (Run.single (a := .syscall 1 .createVspace) rfl rfl)
      (a := .syscall 1 (.mapVspacePhys 0 0#64 0xF000#64 0x1000#64)) rfl rfl, by decide, rfl,
      by decide, ?_⟩
    intro t
    by_cases ht : t = 1
    · rw [ht]
      rfl
    · simp [sampleSystem, System.pushHandle, System.setThread, ht]
  rcases hrun with ⟨s, hs, hlookup, happ, hspace, hframes⟩
  rcases (hall sampleSystem s sampleSystem_sound hs 1 _ _ _ happ hspace hlookup (by decide)).1 with
    ⟨t, ht⟩
  rw [hframes t] at ht
  exact absurd ht List.not_mem_nil

end SigmaOS.Proc.Process
