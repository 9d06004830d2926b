import SigmaOS.Arch.PagingFrame
import SigmaOS.Proc.Thread
import SigmaOS.Types.Containers

/-!
# Proc.VmMap — the `vm_map` system call

`thread::map_anonymous` maps a range of pages into the caller's address space, with newly allocated
frames or, for drivers, with the physical memory they ask for.  `Mem` is what it changes: the
tables with the frame allocator, and the list `resources.frames` of the thread.

Page tables are memory like any other: a store follows the tables of the context and changes a word of
whatever frame they lead to, and so does `memset_aligned_4k`, byte by byte.  A fault or a PANIC halts
the CPU in the middle of the call.  The tables are shared with the other CPUs, so what was written
before remains: `Outcome.halted` comes with the memory at that point.  An allocator that has nothing
left is `none`.  The IOMMU, which has tables of its own, is left out.
-/

namespace SigmaOS.Proc.Process

open Lib Arch.Paging
open Types (divCeil divCeil_toNat)

structure Mem where
  phys : Phys
  frames : List Frame

inductive Outcome
  | returned (value : BitVec 64)
  | halted
  deriving DecidableEq

/-! ## Arguments -/

lemma divCeil_block (size : BitVec 64) :
    (divCeil size 4096#64).toNat = (size.toNat + 4095) % 2 ^ 64 / 4096 :=
  divCeil_toNat size 4096#64

def isCanonical (addr : BitVec 64) : Bool :=
  addr ≤ 0x00007fffffffffff#64 || (0xffff800000000000#64 ≤ addr && addr ≤ 0xffffffffffffffff#64)

def ptrIsUserland (ptr : BitVec 64) : Bool :=
  ptr ≤ 0x8000000000000000#64

/-- `CHECK_PTR`, which panics when it is false. -/
def checkPtr (ptr : BitVec 64) : Bool :=
  isCanonical ptr && ptrIsUserland ptr && ptr != 0#64

/-- `map_flags` of `map_anonymous`: `PROT_READ` is bit 0, `PROT_WRITE` bit 1, `PROT_EXEC` bit 2. -/
def mapFlags (prot : BitVec 32) : BitVec 64 :=
  (if prot.getLsbD 0 then 1#64 else 0#64) ||| (if prot.getLsbD 1 then 2#64 else 0#64) |||
    (if prot.getLsbD 2 then 0#64 else 8#64) ||| 4#64

def mmapBottom : BitVec 64 := 0x900000000#64

def mmapTop : BitVec 64 := 0x7FFFFFFFFFFF#64

/-! ## Stores -/

def putByte (word : BitVec 64) (n : Nat) (byte : BitVec 8) : BitVec 64 :=
  (word &&& ~~~(0xFF#64 <<< (8 * n))) ||| (byte.setWidth 64 <<< (8 * n))

/-- The frame a store to `virt` goes to, by user code or by the kernel (`CR0.WP` is set). -/
def storeFrame (m : Tables Frame Index (BitVec 64)) (root : Frame) (user : Bool)
    (virt : BitVec 64) : Option Frame :=
  match lookup m root virt with
  | none => none
  | some entry =>
    if entry.getLsbD 1 && (!user || entry.getLsbD 2) then some (getFrame entry) else none

def storeByte (root : Frame) (user : Bool) (virt : BitVec 64) (byte : BitVec 8) (s : Phys) :
    Option Phys :=
  match storeFrame s.tables root user virt with
  | none => none
  | some f =>
    let i := tableIndex 3 virt
    some { s with tables := s.tables.set f i (putByte (s.tables f i) (virt.toNat % 8) byte) }

/-- The kernel writes `bytes` to the addresses from `virt` on; the answer is `false` when a store
faults. -/
def writeBytes (root : Frame) : BitVec 64 → List (BitVec 8) → Phys → Bool × Phys
  | _, [], s => (true, s)
  | virt, byte :: bytes, s =>
    if isCanonical virt then
      match storeByte root false virt byte s with
      | none => (false, s)
      | some s => writeBytes root (virt + 1#64) bytes s
    else
      (false, s)

def memsetAligned4k (root : Frame) (virt : BitVec 64) (s : Phys) : Bool × Phys :=
  writeBytes root virt (List.replicate 4096 0#8) s

/-! ## The call -/

/-- The loop of `context::get_free_range` over the next `n` pages from `ptr`. -/
def freeRangeLoop (m : Tables Frame Index (BitVec 64)) (root : Frame) (neededPages : BitVec 64) :
    Nat → BitVec 64 → BitVec 64 → BitVec 64 → BitVec 64
  | 0, _, currentAddr, _ => currentAddr
  | n + 1, ptr, currentAddr, count =>
    if getPhys m root ptr = BitVec.allOnes 64 then
      let currentAddr := if currentAddr = BitVec.allOnes 64 then ptr else currentAddr
      let count := count + 1#64
      if count = neededPages then
        currentAddr
      else
        freeRangeLoop m root neededPages n (ptr + 4096#64) currentAddr count
    else
      freeRangeLoop m root neededPages n (ptr + 4096#64) (BitVec.allOnes 64) 0#64

/-- `context::get_free_range`; the pages from `searchBase` to `searchEnd` are searched, which
`map_anonymous` calls with a window far below the end of the address space. -/
def getFreeRange (m : Tables Frame Index (BitVec 64)) (root : Frame)
    (searchBase searchEnd size : BitVec 64) : BitVec 64 :=
  freeRangeLoop m root (divCeil size 4096#64) (divCeil (searchEnd - searchBase) 4096#64).toNat searchBase
    (BitVec.allOnes 64) 0#64

/-- One round of the loop of `map_anonymous`; `raw` is `!allocate_phys`.  The answer is `false` when
the clearing of the page ends in a fault. -/
def mapRound (root : Frame) (flags : BitVec 64) (raw : Bool) (virt phys : BitVec 64) (m : Mem) :
    Option (Bool × Mem) :=
  if raw then
    match mapPage root phys virt flags .normal m.phys with
    | none => none
    | some s => some (true, { m with phys := s })
  else
    match m.phys.alloc with
    | none => none
    | some (block, s) =>
      match mapPage root block.1 virt flags .normal s with
      | none => none
      | some s =>
        some ((memsetAligned4k root virt s).1,
          ⟨(memsetAligned4k root virt s).2, m.frames ++ [block]⟩)

/-- The loop over `n` pages. -/
def mapPages (root : Frame) (flags : BitVec 64) (raw : Bool) :
    Nat → BitVec 64 → BitVec 64 → Mem → Option (Bool × Mem)
  | 0, _, _, m => some (true, m)
  | n + 1, virt, phys, m =>
    match mapRound root flags raw virt phys m with
    | none => none
    | some (false, m) => some (false, m)
    | some (true, m) => mapPages root flags raw n (virt + 4096#64) (phys + 4096#64) m

def mapBase (m : Tables Frame Index (BitVec 64)) (root : Frame) (size virtBase : BitVec 64) :
    BitVec 64 :=
  if virtBase = 0#64 then getFreeRange m root mmapBottom mmapTop size else virtBase

/-- `thread::map_anonymous`; the flags are not used. -/
def mapAnonymous (root : Frame) (size virtBase physBase : BitVec 64) (prot _flags : BitVec 32)
    (m : Mem) : Option (Outcome × Mem) :=
  let virtBase := mapBase m.phys.tables root size virtBase
  if virtBase = 0#64 then
    some (.returned 0#64, m)
  else
    match mapPages root (mapFlags prot) (physBase != 0#64) (divCeil size 4096#64).toNat virtBase physBase
        m with
    | none => none
    | some (true, m) => some (.returned virtBase, m)
    | some (false, m) => some (.halted, m)

/-- The two checks of `syscall_vm_map` before it maps anything. -/
def refusesVmMap (privilege : Privilege) (virt phys : BitVec 64) : Bool :=
  !ptrIsUserland virt || (phys != 0#64 && decide (privilege.level < Privilege.driver.level))

def syscallVmMap (root : Frame) (privilege : Privilege) (virt phys size : BitVec 64)
    (prot flags : BitVec 32) (m : Mem) : Option (Outcome × Mem) :=
  if refusesVmMap privilege virt phys then
    some (.returned 1#64, m)
  else
    match mapAnonymous root size virt phys prot flags m with
    | none => none
    | some (.halted, m) => some (.halted, m)
    | some (.returned ret, m) => if checkPtr ret then some (.returned ret, m) else some (.halted, m)

/-! ## Stores and tables -/

/-- From `s` to `s'` only frames that are no tables were written. -/
structure SameTables (owner : Frame → Option Role) (s s' : Phys) : Prop where
  tables : ∀ x l, owner x = some l → s'.tables x = s.tables x
  supply : s'.supply = s.supply
  live : s'.live = s.live
  misuse : s'.misuse = s.misuse

/-- Every page of the lower half that the kernel can write to leads to memory that is no table, and
that the allocator does not give away. -/
def WritesData (owner : Frame → Option Role) (root : Frame) (s : Phys) : Prop :=
  ∀ v f, ¬ IsUpper v → storeFrame s.tables root false v = some f → s.Kept f ∧ owner f = none

section Stores

variable {owner : Frame → Option Role} {c : Ctx} {root f : Frame} {s s' : Phys}
  {virt flags : BitVec 64} {user : Bool} {byte : BitVec 8} {bytes : List (BitVec 8)}

namespace SameTables

lemma refl : SameTables owner s s :=
  ⟨fun _ _ _ => rfl, rfl, rfl, rfl⟩

lemma trans {s₁ : Phys} (h : SameTables owner s s₁) (h' : SameTables owner s₁ s') :
    SameTables owner s s' :=
  ⟨fun x l hx => (h'.tables x l hx).trans (h.tables x l hx), h'.supply.trans h.supply,
    h'.live.trans h.live, h'.misuse.trans h.misuse⟩

lemma update (hnone : owner f = none) (page : Index → BitVec 64) :
    SameTables owner s { s with tables := Function.update s.tables f page } :=
  ⟨fun _ _ hx => Function.update_of_ne (Linked.ne_of_owner hx hnone) _ _, rfl, rfl, rfl⟩

lemma tracks (h : SameTables owner s s') (ht : s.Tracks roleNext owner) :
    s'.Tracks roleNext owner :=
  (ht.holding.of_same h.tables h.live h.misuse).tracks

lemma storeFrame (h : SameTables owner s s') (ht : s.Tracks roleNext owner)
    (hroot : owner root = some (.own c [])) :
    storeFrame s'.tables root user virt = storeFrame s.tables root user virt := by
  rw [Process.storeFrame, Process.storeFrame, lookup_of_same ht.linked hroot h.tables]

lemma writesData (h : SameTables owner s s') (ht : s.Tracks roleNext owner)
    (hroot : owner root = some (.own c [])) (hdata : WritesData owner root s) :
    WritesData owner root s' := by
  intro v f hv hf
  rw [h.storeFrame ht hroot] at hf
  rw [Phys.Kept, h.live, h.supply]
  exact hdata v f hv hf

end SameTables

lemma storeFrame_cases (h : storeFrame s.tables root user virt = some f) :
    ∃ entry, lookup s.tables root virt = some entry ∧ f = getFrame entry ∧
      entry.getLsbD 1 = true ∧ (user = true → entry.getLsbD 2 = true) := by
  unfold storeFrame at h
  split at h
  · cases h
  next entry hlookup =>
  split at h
  · next hallowed =>
    refine ⟨entry, hlookup, (Option.some.inj h).symm, (Bool.and_eq_true_iff.1 hallowed).1, ?_⟩
    rintro rfl
    simpa using (Bool.and_eq_true_iff.1 hallowed).2
  · cases h

lemma storeFrame_congr_page {m : Tables Frame Index (BitVec 64)} {v w : BitVec 64}
    (h : pageOf v = pageOf w) : storeFrame m root user v = storeFrame m root user w := by
  rw [storeFrame, storeFrame, lookup_congr_page h]

lemma storeByte_cases (hs : storeByte root user virt byte s = some s') :
    ∃ f page, storeFrame s.tables root user virt = some f ∧
      s' = { s with tables := Function.update s.tables f page } := by
  unfold storeByte at hs
  split at hs
  · cases hs
  next f hframe =>
  exact ⟨f, _, hframe, (Option.some.inj hs).symm⟩

lemma add_ofNat_succ (virt : BitVec 64) (k : Nat) :
    virt + BitVec.ofNat 64 (k + 1) = virt + 1#64 + BitVec.ofNat 64 k := by
  rw [BitVec.add_assoc, ← BitVec.ofNat_add, Nat.add_comm 1 k]

/-- Where no byte of the range is in a table, no table is written. -/
lemma writeBytes_same (h : s.Tracks roleNext owner) (hroot : owner root = some (.own c []))
    (hdata : ∀ k < bytes.length, isCanonical (virt + BitVec.ofNat 64 k) = true →
      ∀ f, storeFrame s.tables root false (virt + BitVec.ofNat 64 k) = some f → owner f = none) :
    SameTables owner s (writeBytes root virt bytes s).2 := by
  induction bytes generalizing virt s with
  | nil => exact SameTables.refl
  | cons byte bytes ih =>
    rw [writeBytes]
    split
    swap
    · exact SameTables.refl
    next hcanonical =>
    split
    · exact SameTables.refl
    next s₁ hstore =>
    rcases storeByte_cases hstore with ⟨f, page, hframe, rfl⟩
    have hfirst := hdata 0 (Nat.succ_pos _)
    rw [BitVec.add_zero] at hfirst
    have hsame := SameTables.update (s := s) (hfirst hcanonical f hframe) page
    refine hsame.trans (ih (hsame.tracks h) ?_)
    intro k hk
    rw [hsame.storeFrame h hroot, ← add_ofNat_succ]
    exact hdata (k + 1) (Nat.succ_lt_succ hk)

/-- A write that went through met canonical addresses only. -/
lemma writeBytes_canonical (hdone : (writeBytes root virt bytes s).1 = true) {k : Nat}
    (hk : k < bytes.length) : isCanonical (virt + BitVec.ofNat 64 k) = true := by
  induction bytes generalizing virt s k with
  | nil => exact absurd hk (Nat.not_lt_zero k)
  | cons byte bytes ih =>
    rw [writeBytes] at hdone
    split at hdone
    swap
    · cases hdone
    next hcanonical =>
    split at hdone
    · cases hdone
    cases k with
    | zero => simpa using hcanonical
    | succ k =>
      rw [add_ofNat_succ]
      exact ih hdone (Nat.lt_of_succ_lt_succ hk)

lemma writeBytes_first (hdone : (writeBytes root virt (byte :: bytes) s).1 = true) :
    ∃ f, storeFrame s.tables root false virt = some f := by
  rw [writeBytes] at hdone
  split at hdone
  swap
  · cases hdone
  split at hdone
  · cases hdone
  next hstore =>
  rcases storeByte_cases hstore with ⟨f, _, hframe, _⟩
  exact ⟨f, hframe⟩

lemma putByte_zero {w : BitVec 64} {n b : Nat} (h : (putByte w n 0#8).getLsbD b = true) :
    w.getLsbD b = true ∧ b < 64 ∧ b / 8 ≠ n := by
  have hmask : ∀ j < 8, (0xFF#64).getLsbD j = true := by decide
  have hlt := BitVec.lt_of_getLsbD h
  simp only [putByte, BitVec.setWidth_zero, BitVec.zero_shiftLeft, BitVec.or_zero,
    BitVec.getLsbD_and, BitVec.getLsbD_not, BitVec.getLsbD_shiftLeft, Bool.and_eq_true] at h
  refine ⟨h.1, hlt, ?_⟩
  rintro rfl
  have hbyte : ¬ b < 8 * (b / 8) := by omega
  simp [hlt, hbyte, hmask (b - 8 * (b / 8)) (by omega)] at h

/-- Zeros that all go to one frame without a fault; no bit is left in the bytes written. -/
lemma writeBytes_zero {n : Nat} (h : s.Tracks roleNext owner) (hroot : owner root = some (.own c []))
    (hnone : owner f = none) (hroom : virt.toNat % 4096 + n ≤ 4096)
    (hframe : ∀ k < n, isCanonical (virt + BitVec.ofNat 64 k) = true ∧
      storeFrame s.tables root false (virt + BitVec.ofNat 64 k) = some f) :
    ∃ page, writeBytes root virt (List.replicate n 0#8) s =
        (true, { s with tables := Function.update s.tables f page }) ∧
      ∀ (i : Index) b, (page i).getLsbD b = true → (s.tables f i).getLsbD b = true ∧
        ¬ (virt.toNat % 4096 ≤ 8 * i.val + b / 8 ∧ 8 * i.val + b / 8 < virt.toNat % 4096 + n) := by
  induction n generalizing virt s with
  | zero =>
    refine ⟨s.tables f, by rw [Function.update_eq_self]; rfl, fun i b hb => ⟨hb, by omega⟩⟩
  | succ n ih =>
    have hfirst := hframe 0 (Nat.succ_pos _)
    rw [BitVec.add_zero] at hfirst
    rw [List.replicate_succ, writeBytes, if_pos hfirst.1, storeByte, hfirst.2]
    have hsame := SameTables.update (s := s) hnone (Function.update (s.tables f) (tableIndex 3 virt)
      (putByte (s.tables f (tableIndex 3 virt)) (virt.toNat % 8) 0#8))
    have hnext : n = 0 ∨ (virt + 1#64).toNat % 4096 = virt.toNat % 4096 + 1 := by
      have hone : (1#64).toNat = 1 := rfl
      rw [BitVec.toNat_add, hone]
      omega
    rcases @ih _ (virt + 1#64) (hsame.tracks h) (by omega) (by
      intro k hk
      rw [hsame.storeFrame h hroot, ← add_ofNat_succ]
      exact hframe (k + 1) (Nat.succ_lt_succ hk)) with ⟨page, hrest, hbits⟩
    refine ⟨page, hrest.trans (by rw [Function.update_idem]), fun i b hb => ?_⟩
    rcases hbits i b hb with ⟨hold, hout⟩
    simp only [Function.update_self] at hold
    by_cases hi : i = tableIndex 3 virt
    · rw [hi, Function.update_self] at hold
      rcases putByte_zero hold with ⟨hbit, hlt, hbyte⟩
      have hindex := tableIndex_val 3 virt
      rw [← hi] at hbit hindex
      exact ⟨hbit, by omega⟩
    · rw [Function.update_of_ne hi] at hold
      have hlt := BitVec.lt_of_getLsbD hold
      have hindex := tableIndex_val 3 virt
      have hne : i.val ≠ (tableIndex 3 virt).val := fun heq => hi (Fin.ext heq)
      exact ⟨hold, by omega⟩

end Stores

/-! ## One page -/

/-- Where the loop of `map_anonymous` can be: in the half of the user, or at the answer `-1`. -/
def Reaches (virt : BitVec 64) : Prop :=
  virt.toNat ≤ 2 ^ 63 ∨ virt = BitVec.allOnes 64

section Addresses

variable {virt : BitVec 64} {k : Nat}

lemma isCanonical_iff {v : BitVec 64} :
    isCanonical v = true ↔ v.toNat < 2 ^ 47 ∨ 2 ^ 64 - 2 ^ 47 ≤ v.toNat := by
  have hlt := v.isLt
  simp only [isCanonical, Bool.or_eq_true, Bool.and_eq_true, decide_eq_true_eq, BitVec.le_def,
    BitVec.toNat_ofNat]
  omega

lemma isUpper_iff {v : BitVec 64} : IsUpper v ↔ 2 ^ 47 ≤ v.toNat % 2 ^ 48 := by
  rw [IsUpper, pml4Index, tableIndex_val]
  omega

lemma pageOf_add (haligned : virt.toNat % 4096 = 0) (hk : k < 4096) :
    pageOf (virt + BitVec.ofNat 64 k) = pageOf virt := by
  have hlt := virt.isLt
  rw [pageOf_eq_iff_toNat, BitVec.toNat_add, BitVec.toNat_ofNat]
  omega

lemma Reaches.lower (h : Reaches virt) (hk : k < 4096)
    (hcanonical : isCanonical (virt + BitVec.ofNat 64 k) = true)
    (hpage : pageOf (virt + BitVec.ofNat 64 k) ≠ pageOf virt) :
    ¬ IsUpper (virt + BitVec.ofNat 64 k) := by
  have hones : (BitVec.allOnes 64).toNat = 2 ^ 64 - 1 := by decide
  rw [isCanonical_iff] at hcanonical
  rw [isUpper_iff]
  rw [Ne, pageOf_eq_iff_toNat] at hpage
  rw [BitVec.toNat_add, BitVec.toNat_ofNat] at *
  rcases h with hle | rfl
  · omega
  · omega

lemma toNat_nextPage (virt : BitVec 64) :
    (virt + 4096#64).toNat = (virt.toNat + 4096) % 2 ^ 64 :=
  BitVec.toNat_add virt 4096#64

lemma Reaches.next (h : Reaches virt) (hcanonical : isCanonical virt = true) :
    Reaches (virt + 4096#64) := by
  rw [isCanonical_iff] at hcanonical
  rcases h with hle | rfl
  · left
    rw [toNat_nextPage]
    omega
  · exact .inl (by decide)

end Addresses

/-- What a page that was mapped leaves in the tables. -/
structure PageStep (root : Frame) (flags virt : BitVec 64)
    (m m' : Tables Frame Index (BitVec 64)) : Prop where
  keeps : Harmless flags m root virt → KeepsUpper root m m'
  shows : Shows flags m' root virt
  persists : ∀ D : BitVec 64 → Prop, (∀ p, D (pageEntry p flags .normal)) →
    ∀ v, EntryHas D m root v → EntryHas D m' root v

/-- The tables are in order, and where a page is cleared across its end, no table is hit. -/
def RoundReady (c : Ctx) (root : Frame) (raw : Bool) (virt : BitVec 64) (s : Phys) : Prop :=
  ∃ owner, s.Tracks roleNext owner ∧ owner root = some (.own c []) ∧
    (raw = false → virt.toNat % 4096 ≠ 0 → WritesData owner root s ∧ Reaches virt)

section Step

variable {owner : Frame → Option Role} {c : Ctx} {root block : Frame} {s s₁ s' : Phys}
  {phys virt flags : BitVec 64} {raw done : Bool} {m m₁ : Mem}

lemma PageStep.of_mapPage (h : s.Tracks roleNext owner) (hroot : owner root = some (.own c []))
    (hmap : mapPage root phys virt flags .normal s = some s') :
    PageStep root flags virt s.tables s'.tables where
  keeps := mapPage_keepsUpper h hroot hmap
  shows := mapPage_shows h hroot hmap
  persists := fun _ hD _ hv => hv.mapPage h hroot (hD _) hmap

lemma PageStep.same (hstep : PageStep root flags virt s.tables s₁.tables)
    (h : s₁.Tracks roleNext owner) (hroot : owner root = some (.own c []))
    (hsame : SameTables owner s₁ s') : PageStep root flags virt s.tables s'.tables where
  keeps := by
    intro hharm
    refine (hstep.keeps hharm).trans (KeepsUpper.of_shared h.linked hroot ?_ ?_ ?_)
    · intro i _
      rw [hsame.tables root _ hroot]
    · intro x k q hx
      rw [hsame.tables x _ hx]
    · intro x q hx
      exact .inl (by rw [hsame.tables x _ hx])
  shows := hstep.shows.of_same h.linked hroot hsame.tables
  persists := fun D hD v hv => (hstep.persists D hD v hv).of_same h.linked hroot hsame.tables

/-- Physical memory is mapped, or a new block is mapped and cleared. -/
lemma mapRound_cases (hround : mapRound root flags raw virt phys m = some (done, m₁)) :
    (raw = true ∧ done = true ∧
      ∃ s, mapPage root phys virt flags .normal m.phys = some s ∧ m₁ = { m with phys := s }) ∨
    (raw = false ∧ ∃ block s s', m.phys.alloc = some (block, s) ∧
      mapPage root block.1 virt flags .normal s = some s' ∧
      done = (memsetAligned4k root virt s').1 ∧
      m₁ = ⟨(memsetAligned4k root virt s').2, m.frames ++ [block]⟩) := by
  unfold mapRound at hround
  cases raw with
  | true =>
    simp only [if_true] at hround
    split at hround
    · cases hround
    next s hmap =>
    cases hround
    exact .inl ⟨rfl, rfl, s, hmap, rfl⟩
  | false =>
    simp only [Bool.false_eq_true, if_false] at hround
    split at hround
    · cases hround
    next halloc =>
    split at hround
    · cases hround
    next hmap =>
    cases hround
    exact .inr ⟨rfl, _, _, _, halloc, hmap, rfl, rfl⟩

/-- After a page was mapped, its entry is the new one, and other pages of the two halves lead where they
led before. -/
lemma lookup_mapPage {v entry : BitVec 64} {cache : CacheType} (h : s.Tracks roleNext owner)
    (hroot : owner root = some (.own c [])) (hmap : mapPage root phys virt flags cache s = some s')
    (hlookup : lookup s'.tables root v = some entry) :
    (pageOf v = pageOf virt ∧ entry = pageEntry phys flags cache) ∨
      (pageOf v ≠ pageOf virt ∧
        (¬ IsUpper v ∨ ¬ IsUpper virt → lookup s.tables root v = some entry)) := by
  rcases Grows.mapPage h hroot hmap with ⟨owner', l, _, hrole, hmapped⟩
  by_cases hpage : pageOf v = pageOf virt
  · rcases lookup_eq_some.1 ((lookup_congr_page hpage).symm.trans hlookup) with ⟨pt, hwalk, rfl, _⟩
    rcases hmapped.reached with ⟨pt', hwalk', hentry⟩
    exact .inl ⟨hpage, by rw [Option.some.inj (hwalk.symm.trans hwalk'), hentry]⟩
  · refine .inr ⟨hpage, fun hhalves => ?_⟩
    by_cases hv : IsUpper v
    · have hlower := hhalves.resolve_left (not_not_intro hv)
      have hkeeps := mapPage_keepsUpper h hroot hmap fun hupper => absurd hupper hlower
      exact (hkeeps.lookup hv).symm.trans hlookup
    · exact (hmapped.lookup_rest hrole hroot hv hpage).symm.trans hlookup

/-- A block that was mapped: stores to its page go to it, and it is no table. -/
structure BlockMapped (c : Ctx) (root block : Frame) (virt : BitVec 64)
    (owner : Frame → Option Role) (s : Phys) : Prop where
  tracks : s.Tracks roleNext owner
  rooted : owner root = some (.own c [])
  plain : owner block = none
  frame : ∀ v f, pageOf v = pageOf virt → storeFrame s.tables root false v = some f → f = block

/-- The block belongs to no table. -/
lemma BlockMapped.of_mapPage (h : s.Tracks roleNext owner) (hroot : owner root = some (.own c []))
    (halloc : s.alloc = some (block, s₁))
    (hmap : mapPage root block.1 virt flags .normal s₁ = some s') :
    ∃ owner', BlockMapped c root block virt owner' s' ∧
      (WritesData owner root s → WritesData owner' root s') := by
  rcases h.alloc_data halloc with ⟨h₁, hblock, hlive, htables⟩
  rcases Grows.mapPage h₁ hroot hmap with ⟨owner', l, hgrows, hrole, hmapped⟩
  have hplain := hgrows.plain (.inl hlive) hblock
  have hframe : ∀ v f, pageOf v = pageOf virt → storeFrame s'.tables root false v = some f →
      f = block := by
    intro v f hpage hf
    rcases storeFrame_cases hf with ⟨entry, hlookup, rfl, _, _⟩
    rcases lookup_mapPage h₁ hroot hmap hlookup with ⟨_, rfl⟩ | ⟨hother, _⟩
    · rw [getFrame_pageEntry, getFrame_frame]
    · exact absurd hpage hother
  refine ⟨owner', ⟨hmapped.tracks, hmapped.keeps _ _ hroot, hplain, hframe⟩, ?_⟩
  intro hdata v f hv hf
  by_cases hpage : pageOf v = pageOf virt
  · rw [hframe v f hpage hf]
    exact ⟨hgrows.draws.kept (.inl hlive), hplain⟩
  · -- another page leads where it led before
    rw [storeFrame, hmapped.lookup_rest hrole hroot hv hpage, htables] at hf
    rcases hdata v f hv hf with ⟨hkept, hnone⟩
    have hkept₁ := (Grows.alloc h halloc).draws.kept hkept
    exact ⟨hgrows.draws.kept hkept₁, hgrows.plain hkept₁ hnone⟩

/-- `memset_aligned_4k` hits no table: it stays on the page, or goes on to one that leads to none. -/
lemma BlockMapped.memset_same (h : BlockMapped c root block virt owner s)
    (hready : virt.toNat % 4096 ≠ 0 → WritesData owner root s ∧ Reaches virt) :
    SameTables owner s (memsetAligned4k root virt s).2 := by
  refine writeBytes_same h.tracks h.rooted ?_
  intro k hk hcanonical f hf
  rw [List.length_replicate] at hk
  by_cases hpage : pageOf (virt + BitVec.ofNat 64 k) = pageOf virt
  · rw [h.frame _ f hpage hf]
    exact h.plain
  · rcases hready fun haligned => hpage (pageOf_add haligned hk) with ⟨hdata, hreaches⟩
    exact (hdata _ f (hreaches.lower hk hcanonical hpage) hf).2

/-- A round maps its page and leaves the state ready for the next. -/
lemma mapRound_ready (h : RoundReady c root raw virt m.phys)
    (hround : mapRound root flags raw virt phys m = some (done, m₁)) :
    PageStep root flags virt m.phys.tables m₁.phys.tables ∧ RoundReady c root raw virt m₁.phys := by
  rcases h with ⟨owner, htracks, hroot, hdata⟩
  rcases mapRound_cases hround with
    ⟨rfl, _, s, hmap, rfl⟩ | ⟨rfl, block, s₁, s₂, halloc, hmap, _, rfl⟩
  · rcases mapPage_root htracks hroot hmap with ⟨owner', _, _, hmapped⟩
    exact ⟨PageStep.of_mapPage htracks hroot hmap, owner', hmapped.tracks,
      hmapped.keeps _ _ hroot, nofun⟩
  · rcases htracks.alloc_data halloc with ⟨htracks₁, _, _, htables⟩
    have hstep : PageStep root flags virt m.phys.tables s₂.tables :=
      htables ▸ PageStep.of_mapPage htracks₁ hroot hmap
    rcases BlockMapped.of_mapPage htracks hroot halloc hmap with ⟨owner', hblock, hwrites⟩
    have hready : virt.toNat % 4096 ≠ 0 → WritesData owner' root s₂ ∧ Reaches virt :=
      fun hmod => ⟨hwrites (hdata rfl hmod).1, (hdata rfl hmod).2⟩
    have hsame := hblock.memset_same hready
    refine ⟨hstep.same hblock.tracks hblock.rooted hsame, owner', hsame.tracks hblock.tracks,
      hblock.rooted, ?_⟩
    intro _ hmod
    exact ⟨hsame.writesData hblock.tracks hblock.rooted (hready hmod).1, (hready hmod).2⟩

/-- The memory was cleared to its end: the page is writable, and both of its ends are canonical. -/
lemma mapRound_cleared (hround : mapRound root flags false virt phys m = some (true, m₁))
    (h : m.phys.Tracks roleNext owner) (hroot : owner root = some (.own c [])) :
    isCanonical virt = true ∧ isCanonical (virt + 4095#64) = true ∧ flags.getLsbD 0 = true ∧
      flags.getLsbD 1 = true := by
  rcases mapRound_cases hround with ⟨hraw, _⟩ | ⟨_, block, s₁, s₂, halloc, hmap, hdone, _⟩
  · cases hraw
  have hlength : (List.replicate 4096 0#8).length = 4096 := List.length_replicate
  have hfirst := writeBytes_canonical hdone.symm (k := 0) (by omega)
  have hlast := writeBytes_canonical hdone.symm (k := 4095) (by omega)
  rw [BitVec.add_zero] at hfirst
  rcases writeBytes_first hdone.symm with ⟨f, hf⟩
  rcases storeFrame_cases hf with ⟨entry, hlookup, _, hwritable, _⟩
  have hpresent := lookup_present hlookup
  -- the entry is the one that was just written
  rcases h.alloc_data halloc with ⟨h₁, _⟩
  rcases lookup_mapPage h₁ hroot hmap hlookup with ⟨_, rfl⟩ | ⟨hother, _⟩
  swap
  · exact absurd rfl hother
  rw [present_pageEntry] at hpresent
  rw [pageEntry_getLsbD ⟨block.1, 0#64, flags, .normal⟩ (by decide)] at hwritable
  exact ⟨hfirst, hlast, hpresent, hwritable⟩

/-- On a page boundary the whole block is cleared, if it is mapped to be read and written. -/
lemma mapRound_block (phys : BitVec 64) {s₂ : Phys} (h : m.phys.Tracks roleNext owner)
    (hroot : owner root = some (.own c [])) (halloc : m.phys.alloc = some (block, s₁))
    (hmap : mapPage root block.1 virt flags .normal s₁ = some s₂) (haligned : virt.toNat % 4096 = 0)
    (hcanonical : isCanonical virt = true) (hread : flags.getLsbD 0 = true)
    (hwrite : flags.getLsbD 1 = true) :
    mapRound root flags false virt phys m =
      some (true, ⟨{ s₂ with tables := Function.update s₂.tables block fun _ => 0#64 },
        m.frames ++ [block]⟩) := by
  rcases h.alloc_data halloc with ⟨h₁, hblock, hlive, _⟩
  rcases mapPage_root h₁ hroot hmap with ⟨owner', _, _, hmapped⟩
  have hframe : storeFrame s₂.tables root false virt = some block := by
    rw [storeFrame, hmapped.lookup_written hread]
    simp [pageEntry_getLsbD ⟨block.1, 0#64, flags, .normal⟩ (n := 1) (by decide),
      MapCall.entryBit, hwrite, getFrame_pageEntry, getFrame_frame]
  have hbytes : ∀ k < 4096, isCanonical (virt + BitVec.ofNat 64 k) = true ∧
      storeFrame s₂.tables root false (virt + BitVec.ofNat 64 k) = some block := by
    intro k hk
    rw [storeFrame_congr_page (pageOf_add haligned hk), isCanonical_iff]
    rw [isCanonical_iff] at hcanonical
    refine ⟨?_, hframe⟩
    rw [BitVec.toNat_add, BitVec.toNat_ofNat]
    omega
  rcases writeBytes_zero hmapped.tracks (hmapped.keeps _ _ hroot)
    (hmapped.others block hlive hblock) (by omega) hbytes with ⟨page, hclear, hbits⟩
  have hpage : page = fun _ => 0#64 := by
    refine funext fun i => BitVec.eq_of_getLsbD_eq fun b hb => ?_
    rw [BitVec.getLsbD_zero, Bool.eq_false_iff]
    exact fun hbit => (hbits i b hbit).2 (by omega)
  rw [← hpage]
  simp only [mapRound, halloc, hmap, memsetAligned4k, hclear, Bool.false_eq_true, if_false]

end Step

/-! ## The loop -/

def pageFrom (base : BitVec 64) (k : Nat) : BitVec 64 :=
  base + BitVec.ofNat 64 (4096 * k)

@[simp] lemma pageFrom_zero (base : BitVec 64) : pageFrom base 0 = base :=
  BitVec.add_zero base

lemma pageFrom_add (base : BitVec 64) (k j : Nat) :
    pageFrom base (k + j) = pageFrom base k + BitVec.ofNat 64 (4096 * j) := by
  rw [pageFrom, pageFrom, Nat.mul_add, BitVec.ofNat_add, BitVec.add_assoc]

lemma pageFrom_succ (base : BitVec 64) (k : Nat) :
    pageFrom base (k + 1) = pageFrom (base + 4096#64) k := by
  rw [Nat.add_comm, pageFrom_add]
  rfl

/-- A range that is cleared page by page, starts in the lower half and does not end there. -/
def Overruns (flags : BitVec 64) (n : Nat) (base : BitVec 64) : Prop :=
  flags.getLsbD 0 = true ∧ flags.getLsbD 1 = true ∧ base.toNat % 4096 = 0 ∧
    base.toNat < 2 ^ 47 ∧ 2 ^ 47 < base.toNat + 4096 * n

section Loop

variable {owner : Frame → Option Role} {c : Ctx} {root : Frame} {flags virt phys : BitVec 64}
  {raw done : Bool} {n : Nat} {m m' : Mem} {s : Phys}

/-- One round, then the rest if it succeeded. -/
lemma mapPages_cases (hrun : mapPages root flags raw (n + 1) virt phys m = some (done, m')) :
    ∃ ok m₁, mapRound root flags raw virt phys m = some (ok, m₁) ∧
      ((ok = false ∧ done = false ∧ m' = m₁) ∨
        (ok = true ∧
          mapPages root flags raw n (virt + 4096#64) (phys + 4096#64) m₁ = some (done, m'))) := by
  rw [mapPages] at hrun
  split at hrun
  · cases hrun
  · next hround =>
    cases hrun
    exact ⟨false, _, hround, .inl ⟨rfl, rfl, rfl⟩⟩
  · next hround => exact ⟨true, _, hround, .inr ⟨rfl, hrun⟩⟩

lemma RoundReady.cleared {m₁ : Mem} (h : RoundReady c root raw virt m.phys)
    (hround : mapRound root flags raw virt phys m = some (true, m₁)) (hraw : raw = false) :
    isCanonical virt = true ∧ isCanonical (virt + 4095#64) = true ∧ flags.getLsbD 0 = true ∧
      flags.getLsbD 1 = true := by
  rcases h with ⟨owner, htracks, hroot, _⟩
  subst hraw
  exact mapRound_cleared hround htracks hroot

lemma RoundReady.next (h : RoundReady c root raw virt s)
    (hcanonical : raw = false → isCanonical virt = true) :
    RoundReady c root raw (virt + 4096#64) s := by
  rcases h with ⟨owner, htracks, hroot, hdata⟩
  refine ⟨owner, htracks, hroot, ?_⟩
  intro hraw hmod
  have hmod' : virt.toNat % 4096 ≠ 0 := by
    rw [toNat_nextPage] at hmod
    omega
  exact ⟨(hdata hraw hmod').1, (hdata hraw hmod').2.next (hcanonical hraw)⟩

/-- A page of the lower half that was cleared: the next one is in the lower half as well. -/
lemma stays_lower (hcleared : isCanonical virt = true ∧ isCanonical (virt + 4095#64) = true ∧
      flags.getLsbD 0 = true ∧ flags.getLsbD 1 = true)
    (hlower : ¬ IsUpper virt) (hover : ¬ Overruns flags (n + 1) virt) :
    (0 < n → ¬ IsUpper (virt + 4096#64)) ∧ ¬ Overruns flags n (virt + 4096#64) := by
  rcases hcleared with ⟨hcanonical, hlast, hread, hwrite⟩
  have hnext : virt.toNat + 4096 ≤ 2 ^ 47 ∧ (virt + 4096#64).toNat = virt.toNat + 4096 := by
    have hend : (4095#64).toNat = 4095 := rfl
    rw [isCanonical_iff] at hcanonical
    rw [isCanonical_iff, BitVec.toNat_add, hend] at hlast
    rw [isUpper_iff] at hlower
    rw [toNat_nextPage]
    omega
  constructor
  · intro hn hupper
    refine hover ⟨hread, hwrite, ?_⟩
    rw [isUpper_iff, hnext.2] at hupper
    omega
  · rintro ⟨_, _, hmod, hbase, hend⟩
    refine hover ⟨hread, hwrite, ?_⟩
    rw [hnext.2] at hmod hbase hend
    omega

/-- The first page is mapped in the end, and all are if the loop goes through. -/
lemma mapPages_spec (h : RoundReady c root raw virt m.phys)
    (hrun : mapPages root flags raw n virt phys m = some (done, m')) :
    (∃ owner, m'.phys.Tracks roleNext owner ∧ owner root = some (.own c [])) ∧
      (∀ D : BitVec 64 → Prop, (∀ p, D (pageEntry p flags .normal)) → ∀ v,
        EntryHas D m.phys.tables root v → EntryHas D m'.phys.tables root v) ∧
      ∀ i < n, i = 0 ∨ done = true → Shows flags m'.phys.tables root (pageFrom virt i) := by
  induction n generalizing virt phys m with
  | zero =>
    cases hrun
    rcases h with ⟨owner, htracks, hroot, _⟩
    exact ⟨⟨owner, htracks, hroot⟩, fun _ _ _ hv => hv, fun i hi => absurd hi (Nat.not_lt_zero i)⟩
  | succ n ih =>
    rcases mapPages_cases hrun with ⟨ok, m₁, hround, hcases⟩
    rcases mapRound_ready h hround with ⟨hstep, hready⟩
    rcases hcases with ⟨rfl, rfl, rfl⟩ | ⟨rfl, hrest⟩
    · rcases hready with ⟨owner, htracks, hroot, _⟩
      refine ⟨⟨owner, htracks, hroot⟩, hstep.persists, ?_⟩
      rintro i - (rfl | hdone)
      · rw [pageFrom_zero]
        exact hstep.shows
      · cases hdone
    · rcases ih (hready.next fun hraw => (h.cleared hround hraw).1) hrest with
        ⟨htracked, hpersists, hshows⟩
      refine ⟨htracked, fun D hD v hv => hpersists D hD v (hstep.persists D hD v hv), ?_⟩
      intro i hi hdone
      cases i with
      | zero =>
        rw [pageFrom_zero]
        exact shows_iff.2 (hpersists _ (fun p => ⟨p, rfl⟩) _ (shows_iff.1 hstep.shows))
      | succ i =>
        rw [pageFrom_succ]
        exact hshows i (Nat.lt_of_succ_lt_succ hi) (.inr (hdone.resolve_left (Nat.succ_ne_zero i)))

end Loop

/-! ## The whole call -/

lemma mapFlags_user (prot : BitVec 32) : (mapFlags prot).getLsbD 2 = true := by
  have hfour : (4#64).getLsbD 2 = true := by decide
  rw [mapFlags, BitVec.getLsbD_or, hfour, Bool.or_true]

section Call

variable {root : Frame} {privilege : Privilege} {virt phys size : BitVec 64}
  {prot flags : BitVec 32} {m m' : Mem} {out : Outcome}

/-- The range is not found, or its pages are mapped. -/
lemma mapAnonymous_cases
    (hcall : mapAnonymous root size virt phys prot flags m = some (out, m')) :
    (mapBase m.phys.tables root size virt = 0#64 ∧ m = m') ∨
      (mapBase m.phys.tables root size virt ≠ 0#64 ∧
        ∃ done, mapPages root (mapFlags prot) (phys != 0#64) (divCeil size 4096#64).toNat
          (mapBase m.phys.tables root size virt) phys m = some (done, m')) := by
  simp only [mapAnonymous] at hcall
  split at hcall
  · next hbase =>
    cases hcall
    exact .inl ⟨hbase, rfl⟩
  next hbase =>
  refine .inr ⟨hbase, ?_⟩
  split at hcall
  · cases hcall
  · next hrun =>
    cases hcall
    exact ⟨true, hrun⟩
  · next hrun =>
    cases hcall
    exact ⟨false, hrun⟩

/-- The call is refused, or the range is mapped. -/
lemma syscallVmMap_cases
    (hcall : syscallVmMap root privilege virt phys size prot flags m = some (out, m')) :
    (refusesVmMap privilege virt phys = true ∧ m = m') ∨
      (refusesVmMap privilege virt phys = false ∧
        ∃ out', mapAnonymous root size virt phys prot flags m = some (out', m')) := by
  unfold syscallVmMap at hcall
  split at hcall
  · next hrefuse =>
    cases hcall
    exact .inl ⟨hrefuse, rfl⟩
  next hrefuse =>
  refine .inr ⟨Bool.eq_false_of_not_eq_true hrefuse, ?_⟩
  split at hcall
  · cases hcall
  · next hmap =>
    cases hcall
    exact ⟨_, hmap⟩
  next hmap =>
  split at hcall
  · cases hcall
    exact ⟨_, hmap⟩
  · cases hcall
    exact ⟨_, hmap⟩

end Call

end SigmaOS.Proc.Process
