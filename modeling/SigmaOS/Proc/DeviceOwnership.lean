import SigmaOS.Lib.Run
import SigmaOS.Proc.Thread
import SigmaOS.Types.Containers

/-!
# Proc.DeviceOwnership — which thread a device belongs to

`devctl` records the thread that claims a device by its tid, and `map_anonymous` and
`get_phys_region` map physical pages into the translations of all devices whose record is the tid
of the caller.  A tid is the number of a slot, and a killed thread leaves its slot to another
thread, but `kill` takes no record back.  So threads are told apart by their lifetimes here, which
are numbered as they begin, and the successful claims and the mappings are kept with the lifetime
they were made in.

The IOMMU is active, every device has a translation of its own, and the kernel thread makes no
system calls.
-/

namespace SigmaOS.Proc.Process

open Function List Option
open Lib

/-- The address of a page that was mapped into the translation of a device, and the lifetime of the
thread in whose call this was. -/
structure Exposure where
  device : Nat
  page : BitVec 64
  life : Nat
  deriving DecidableEq

structure Devices where
  state : Tid → ThreadState
  count : Nat
  /-- The lifetime that a slot is in. -/
  life : Tid → Nat
  /-- The number of lifetimes so far. -/
  lives : Nat
  /-- The length of `device_list`. -/
  devices : Nat
  /-- `device::driver`. -/
  driver : Nat → Tid
  /-- The lifetimes that have claimed a device. -/
  claimed : Nat → List Nat
  exposed : List Exposure

inductive DeviceOp
  | create
  | kill (tid : Tid)
  | claim (tid : Tid) (device : Nat)
  | mapAnonymous (tid : Tid) (size : BitVec 64) (physBase : BitVec 64) (room : Bool)
  | getPhysRegion (tid : Tid) (size : BitVec 64) (phys : BitVec 64) (room : Bool)

namespace Devices

def start (devices : Nat) : Devices :=
  { state := fun _ => .silent
    count := 1
    life := fun _ => 0
    lives := 1
    devices := devices
    driver := fun _ => 0
    claimed := fun _ => []
    exposed := [] }

def Live (s : Devices) (tid : Tid) : Prop :=
  tid ≠ 0 ∧ tid < s.count ∧ s.state tid ≠ .disabled

instance (s : Devices) (tid : Tid) : Decidable (s.Live tid) :=
  inferInstanceAs (Decidable (_ ∧ _))

def nextSlot (s : Devices) : Tid :=
  freeSlot s.state s.count

/-- `create_blocked_thread`: a new lifetime begins. -/
def createBlockedThread (s : Devices) : Devices :=
  { s with
    -- the slot keeps its number, so the tid of its last thread comes back
    state := Function.update s.state s.nextSlot .silent
    count := max s.count (s.nextSlot + 1)
    life := Function.update s.life s.nextSlot s.lives
    lives := s.lives + 1 }

def kill (s : Devices) (tid : Tid) : Devices :=
  -- `device::driver` is not touched
  { s with state := Function.update s.state tid .disabled }

/-- `devctl_cmd_claim` by the current thread `tid`. -/
def claim (s : Devices) (tid : Tid) (device : Nat) : Devices :=
  if s.driver device = 0 then
    { s with
      driver := Function.update s.driver device tid
      claimed := Function.update s.claimed device (s.claimed device ++ [s.life tid]) }
  else
    -- somebody has the device, and it makes no difference who
    s

/-- The loop over the devices: the page is mapped for those whose driver is the thread. -/
def expose (s : Devices) (tid : Tid) (page : BitVec 64) : Devices :=
  { s with
    exposed := s.exposed ++ ((List.range s.devices).filter fun d => s.driver d = tid).map fun d =>
      { device := d, page := page, life := s.life tid } }

/-- `map_anonymous` with a physical address: one round for each page, unless there is no room in the
virtual address space. -/
def mapAnonymous (s : Devices) (tid : Tid) (size physBase : BitVec 64) (room : Bool) : Devices :=
  if room then
    (List.range (Types.divCeil size 4096#64).toNat).foldl
      (fun s i => s.expose tid (physBase + BitVec.ofNat 64 (4096 * i))) s
  else
    s

/-- `get_phys_region`, with the answer of the frame allocator: the pages are mapped by
`map_anonymous`, and the first one again after that. -/
def getPhysRegion (s : Devices) (tid : Tid) (size phys : BitVec 64) (room : Bool) : Devices :=
  if phys = 0 then
    s
  else if room then
    (s.mapAnonymous tid size phys room).expose tid phys
  else
    s

def step (s : Devices) : DeviceOp → Option Devices
  | .create => some s.createBlockedThread
  | .kill tid => if s.Live tid then some (s.kill tid) else none
  | .claim tid device => if s.Live tid ∧ device < s.devices then some (s.claim tid device) else none
  | .mapAnonymous tid size physBase room =>
    if s.Live tid ∧ physBase ≠ 0 then some (s.mapAnonymous tid size physBase room) else none
  | .getPhysRegion tid size phys room =>
    if s.Live tid then some (s.getPhysRegion tid size phys room) else none

/-- No slot is reused whose tid is on record for a device. -/
def Unclaimed (s : Devices) : DeviceOp → Prop
  | .create => ∀ d < s.devices, s.driver d ≠ s.nextSlot
  | _ => True

/-- At most one lifetime has claimed a device, a live thread on record is in that lifetime, and pages
were mapped for the device in that lifetime only. -/
structure Ownership (s : Devices) : Prop where
  single : ∀ d, (s.claimed d).length ≤ 1
  owner : ∀ d tid, s.Live tid → s.driver d = tid → s.claimed d = [s.life tid]
  exposed : ∀ x ∈ s.exposed, s.claimed x.device = [x.life]

structure Inv (s : Devices) : Prop where
  ownership : s.Ownership
  unclaimed : ∀ d, s.driver d = 0 → s.claimed d = []
  recorded : ∀ d, s.driver d ≠ 0 → d < s.devices ∧ s.driver d < s.count
  begun : ∀ d, ∀ l ∈ s.claimed d, l < s.lives
  running : ∀ tid, s.life tid < s.lives
  kernel : s.state 0 ≠ .disabled
  slots : 0 < s.count

variable {s t : Devices} {tid : Tid} {device : Nat}

lemma Inv.start (devices : Nat) : (start devices).Inv where
  ownership :=
    { single := fun _ => Nat.zero_le _
      owner := by
        intro d tid hlive
        exact absurd (Nat.lt_one_iff.1 hlive.2.1) hlive.1
      exposed := by
        intro x hx
        cases hx }
  unclaimed := fun _ _ => rfl
  recorded := fun _ hd => absurd rfl hd
  begun := by
    intro d l hl
    cases hl
  running := fun _ => Nat.zero_lt_one
  kernel := by
    intro h
    cases h
  slots := Nat.zero_lt_one

/-! ## Steps -/

/-- The next slot is nonzero and holds no live thread. -/
lemma Inv.nextSlot (h : s.Inv) : s.nextSlot ≠ 0 ∧ ¬ s.Live s.nextSlot := by
  rcases freeSlot_cases s.state s.count with ⟨_, hdisabled⟩ | hnew
  · refine ⟨?_, fun hlive => hlive.2.2 hdisabled⟩
    intro hzero
    apply h.kernel
    rw [← hzero]
    exact hdisabled
  · refine ⟨?_, fun hlive => ?_⟩
    · rw [Devices.nextSlot, hnew]
      exact Nat.ne_of_gt h.slots
    · have hlt : s.nextSlot < s.count := hlive.2.1
      rw [Devices.nextSlot, hnew] at hlt
      exact absurd hlt (Nat.lt_irrefl _)

lemma live_create (htid : tid ≠ s.nextSlot) : s.createBlockedThread.Live tid → s.Live tid := by
  rintro ⟨hzero, hlt, hstate⟩
  have hlt' : tid < max s.count (s.nextSlot + 1) := hlt
  have hstate' : s.state tid ≠ .disabled := by
    intro hdisabled
    apply hstate
    exact (update_of_ne htid ..).trans hdisabled
  refine ⟨hzero, ?_, hstate'⟩
  -- a thread that was not in the list before would be the new one
  rcases Nat.lt_or_ge tid s.count with hcount | hcount
  · exact hcount
  · -- only the slot that was appended lies behind the old ones
    have hle : tid ≤ s.nextSlot := Nat.le_of_lt_succ (Nat.lt_of_not_le fun hge =>
      Nat.not_le_of_lt hlt' (Nat.max_le.2 ⟨hcount, hge⟩))
    rcases freeSlot_cases s.state s.count with ⟨hold, _⟩ | hnew
    · exact absurd (Nat.lt_of_le_of_lt hle hold) (Nat.not_lt_of_ge hcount)
    · exact absurd (Nat.le_antisymm hle (hnew.trans_le hcount)) htid

/-- A thread in a slot that is on record for no device. -/
lemma Inv.create (h : s.Inv) (hunclaimed : ∀ d < s.devices, s.driver d ≠ s.nextSlot) :
    s.createBlockedThread.Inv := by
  rcases h.nextSlot with ⟨hzero, _⟩
  refine ⟨⟨h.ownership.single, ?_, h.ownership.exposed⟩, h.unclaimed, ?_, ?_, ?_, ?_, ?_⟩
  · intro d tid hlive hdriver
    have hrecorded : s.driver d ≠ 0 := by
      rw [show s.driver d = tid from hdriver]
      exact hlive.1
    -- the new thread is on record for no device
    have htid : tid ≠ s.nextSlot := by
      rintro rfl
      exact hunclaimed d (h.recorded d hrecorded).1 hdriver
    show s.claimed d = [update s.life s.nextSlot s.lives tid]
    rw [update_of_ne htid]
    exact h.ownership.owner d tid (live_create htid hlive) hdriver
  · intro d hd
    exact ⟨(h.recorded d hd).1, Nat.lt_of_lt_of_le (h.recorded d hd).2 (Nat.le_max_left _ _)⟩
  · intro d l hl
    exact Nat.lt_succ_of_lt (h.begun d l hl)
  · intro tid
    show update s.life s.nextSlot s.lives tid < s.lives + 1
    by_cases htid : tid = s.nextSlot
    · rw [htid, update_self]
      exact Nat.lt_succ_self _
    · rw [update_of_ne htid]
      exact Nat.lt_succ_of_lt (h.running tid)
  · show update s.state s.nextSlot .silent 0 ≠ .disabled
    rw [update_of_ne hzero.symm]
    exact h.kernel
  · exact Nat.lt_of_lt_of_le h.slots (Nat.le_max_left _ _)

/-- Killing a live thread keeps the invariant. -/
lemma Inv.kill (h : s.Inv) (hlive : s.Live tid) : (s.kill tid).Inv := by
  refine ⟨⟨h.ownership.single, ?_, h.ownership.exposed⟩, h.unclaimed, h.recorded, h.begun,
    h.running, ?_, h.slots⟩
  · intro d u hu hdriver
    -- the killed thread drops out, all others were live before
    have hlive' : s.Live u := by
      refine ⟨hu.1, hu.2.1, ?_⟩
      by_cases hut : u = tid
      · rw [hut]
        exact hlive.2.2
      · have hstate : update s.state tid .disabled u ≠ .disabled := hu.2.2
        rwa [update_of_ne hut] at hstate
    exact h.ownership.owner d u hlive' hdriver
  · show update s.state tid .disabled 0 ≠ .disabled
    rw [update_of_ne hlive.1.symm]
    exact h.kernel

lemma claim_records (tid : Tid) (hfree : s.driver device = 0) (hnone : s.claimed device = [])
    (d : Nat) :
    (d = device ∧ (s.claim tid device).driver d = tid ∧
        (s.claim tid device).claimed d = [s.life tid]) ∨
      (d ≠ device ∧ (s.claim tid device).driver d = s.driver d ∧
        (s.claim tid device).claimed d = s.claimed d) := by
  rw [claim, if_pos hfree]
  by_cases hd : d = device
  · subst hd
    exact .inl ⟨rfl, update_self .., by simp [hnone]⟩
  · exact .inr ⟨hd, update_of_ne hd .., update_of_ne hd ..⟩

lemma claim_rest (s : Devices) (tid : Tid) (device : Nat) :
    (s.claim tid device).state = s.state ∧ (s.claim tid device).count = s.count ∧
    (s.claim tid device).life = s.life ∧ (s.claim tid device).lives = s.lives ∧
    (s.claim tid device).devices = s.devices ∧ (s.claim tid device).exposed = s.exposed := by
  unfold claim
  split <;> exact ⟨rfl, rfl, rfl, rfl, rfl, rfl⟩

section

variable (h : s.Inv) (hlive : s.Live tid)
include h hlive

/-- The first claim is recorded, a later one has no effect. -/
lemma Inv.claim (hdevice : device < s.devices) : (s.claim tid device).Inv := by
  by_cases hfree : s.driver device = 0
  -- a claim that is refused changes nothing
  swap
  · rwa [Devices.claim, if_neg hfree]
  have hnone := h.unclaimed device hfree
  have hrecords := claim_records tid hfree hnone
  rcases claim_rest s tid device with ⟨hstate, hcount, hlife, hlives, hdevices, hexposed⟩
  refine ⟨⟨?_, ?_, ?_⟩, ?_, ?_, ?_, ?_, ?_, ?_⟩
  · intro d
    rcases hrecords d with ⟨_, _, hclaimed⟩ | ⟨_, _, hclaimed⟩
    · rw [hclaimed]
      exact Nat.le_refl 1
    · rw [hclaimed]
      exact h.ownership.single d
  · intro d u hu hrecord
    rw [Live, hcount, hstate] at hu
    rw [hlife]
    rcases hrecords d with ⟨_, hdriver, hclaimed⟩ | ⟨_, hdriver, hclaimed⟩
    · rw [hclaimed, ← hrecord, hdriver]
    · rw [hclaimed]
      exact h.ownership.owner d u hu (hdriver.symm.trans hrecord)
  · intro x hx
    rw [hexposed] at hx
    have hclaimed := h.ownership.exposed x hx
    rcases hrecords x.device with ⟨hd, _, _⟩ | ⟨_, _, hsame⟩
    · -- nothing was mapped for a device that nobody had claimed
      rw [hd, hnone] at hclaimed
      cases hclaimed
    · exact hsame.trans hclaimed
  · intro d hd
    rcases hrecords d with ⟨_, hdriver, _⟩ | ⟨_, hdriver, hclaimed⟩
    · exact absurd (hdriver.symm.trans hd) hlive.1
    · exact hclaimed.trans (h.unclaimed d (hdriver.symm.trans hd))
  · intro d hd
    rw [hdevices, hcount]
    rcases hrecords d with ⟨rfl, hdriver, _⟩ | ⟨_, hdriver, _⟩
    · rw [hdriver]
      exact ⟨hdevice, hlive.2.1⟩
    · rw [hdriver] at hd ⊢
      exact h.recorded d hd
  · intro d l hl
    rw [hlives]
    rcases hrecords d with ⟨_, _, hclaimed⟩ | ⟨_, _, hclaimed⟩
    · rw [hclaimed, mem_singleton] at hl
      rw [hl]
      exact h.running tid
    · rw [hclaimed] at hl
      exact h.begun d l hl
  · rw [hlife, hlives]
    exact h.running
  · rw [hstate]
    exact h.kernel
  · rw [hcount]
    exact h.slots

lemma Inv.expose (page : BitVec 64) : (s.expose tid page).Inv := by
  refine ⟨⟨h.ownership.single, h.ownership.owner, ?_⟩, h.unclaimed, h.recorded, h.begun, h.running,
    h.kernel, h.slots⟩
  intro x hx
  rcases mem_append.1 hx with hold | hnew
  · exact h.ownership.exposed x hold
  · rcases mem_map.1 hnew with ⟨d, hd, rfl⟩
    have hdriver : s.driver d = tid := by simpa using (mem_filter.1 hd).2
    exact h.ownership.owner d tid hlive hdriver

/-- Mapping keeps the invariant and the caller alive. -/
lemma Inv.mapAnonymous (size physBase : BitVec 64) (room : Bool) :
    (s.mapAnonymous tid size physBase room).Inv ∧
      (s.mapAnonymous tid size physBase room).Live tid := by
  unfold Devices.mapAnonymous
  split
  · -- a round changes nothing but the list of mappings
    have hloop : ∀ (is : List Nat) (s : Devices), s.Inv → s.Live tid →
        (is.foldl (fun s i => s.expose tid (physBase + BitVec.ofNat 64 (4096 * i))) s).Inv ∧
          (is.foldl (fun s i => s.expose tid (physBase + BitVec.ofNat 64 (4096 * i))) s).Live tid := by
      intro is
      induction is with
      | nil =>
        intro s h hlive
        exact ⟨h, hlive⟩
      | cons i is ih =>
        intro s h hlive
        exact ih _ (h.expose hlive _) hlive
    exact hloop _ s h hlive
  · exact ⟨h, hlive⟩

lemma Inv.getPhysRegion (size phys : BitVec 64) (room : Bool) :
    (s.getPhysRegion tid size phys room).Inv := by
  unfold Devices.getPhysRegion
  split
  · exact h
  · split
    · rcases h.mapAnonymous hlive size phys room with ⟨hinv, hlive'⟩
      exact hinv.expose hlive' phys
    · exact h

end

/-- Every step that reuses no slot on record keeps the invariant. -/
lemma Inv.step (h : s.Inv) (op : DeviceOp) (hok : s.Unclaimed op) (hstep : s.step op = some t) :
    t.Inv := by
  cases op with
  | create =>
    rw [← Option.some.inj hstep]
    exact h.create hok
  | kill tid =>
    rcases ite_none_right_eq_some.1 hstep with ⟨hlive, heq⟩
    rw [← Option.some.inj heq]
    exact h.kill hlive
  | claim tid device =>
    rcases ite_none_right_eq_some.1 hstep with ⟨⟨hlive, hdevice⟩, heq⟩
    rw [← Option.some.inj heq]
    exact h.claim hlive hdevice
  | mapAnonymous tid size physBase room =>
    rcases ite_none_right_eq_some.1 hstep with ⟨⟨hlive, _⟩, heq⟩
    rw [← Option.some.inj heq]
    exact (h.mapAnonymous hlive size physBase room).1
  | getPhysRegion tid size phys room =>
    rcases ite_none_right_eq_some.1 hstep with ⟨hlive, heq⟩
    rw [← Option.some.inj heq]
    exact h.getPhysRegion hlive size phys room

/-- A new thread in a slot that a device still names breaks ownership. -/
lemma Inv.reuse (h : s.Inv) {device : Nat} (hdriver : s.driver device = s.nextSlot) :
    ¬ s.createBlockedThread.Ownership := by
  intro hownership
  have hlive : s.createBlockedThread.Live s.nextSlot := by
    refine ⟨h.nextSlot.1, Nat.lt_of_lt_of_le (Nat.lt_succ_self _) (Nat.le_max_right _ _),
      ?_⟩
    show update s.state s.nextSlot .silent s.nextSlot ≠ .disabled
    rw [update_self]
    intro hstate
    cases hstate
  -- the claim was made in an earlier lifetime than the one that just began
  have howner : s.claimed device = [update s.life s.nextSlot s.lives s.nextSlot] :=
    hownership.owner device s.nextSlot hlive hdriver
  rw [update_self] at howner
  exact Nat.lt_irrefl _ (h.begun device s.lives (by rw [howner]; exact mem_singleton_self _))

/-- As long as no slot on record is reused, every device belongs to the lifetime that has claimed it;
and the first time that one is reused, this is lost. -/
theorem device_ownership (devices : Nat) (s : Devices)
    (hrun : Run step Unclaimed (start devices) s) :
    s.Ownership ∧ ∀ op t, s.step op = some t → ¬ s.Unclaimed op → ¬ t.Ownership := by
  have hinv : s.Inv :=
    hrun.invariant (I := Inv) (Inv.start devices) fun _ op _ hi hok hstep => hi.step op hok hstep
  refine ⟨hinv.ownership, ?_⟩
  intro op t hstep hclaimed
  cases op with
  | create =>
    rw [← Option.some.inj hstep]
    simp only [Unclaimed, not_forall, not_not] at hclaimed
    rcases hclaimed with ⟨d, _, hdriver⟩
    exact hinv.reuse hdriver
  | kill tid => exact absurd trivial hclaimed
  | claim tid device => exact absurd trivial hclaimed
  | mapAnonymous tid size physBase room => exact absurd trivial hclaimed
  | getPhysRegion tid size phys room => exact absurd trivial hclaimed

/-- A thread claims the only device and maps a page for it. -/
theorem device_ownership_claim :
    (((start 1).createBlockedThread.claim 1 0).mapAnonymous 1 4096 0x5000 true).Ownership := by
  apply (device_ownership 1 _ ?_).1
  refine Run.tail (Run.tail (Run.single (a := .create) ?_ rfl) (a := .claim 1 0) trivial rfl)
    (a := .mapAnonymous 1 4096 0x5000 true) trivial rfl
  intro d _ hdriver
  have hslot : 0 = (start 1).nextSlot := hdriver
  exact absurd hslot (by decide)

/-- The owner of the device is killed, and a page of the next thread in its slot is mapped for the
device. -/
theorem device_exposes_next_thread :
    ¬ ∀ (devices : Nat) (ops : List DeviceOp) (s : Devices),
      exec step (start devices) ops = some s → s.Ownership := by
  intro h
  have hownership := h 1 [.create, .claim 1 0, .kill 1, .create, .mapAnonymous 1 4096 0x5000 true]
    ((((start 1).createBlockedThread.claim 1 0).kill 1).createBlockedThread.mapAnonymous
      1 4096 0x5000 true) rfl
  -- the lifetimes: 0 the kernel, 1 the owner, 2 the thread after it
  have hexposed := hownership.exposed { device := 0, page := 0x5000, life := 2 } (by decide)
  exact absurd hexposed (by decide)

end Devices

end SigmaOS.Proc.Process
