import SigmaOS.Arch.PagingRefine

/-!
# Smp.Ipi — TLB shootdowns

`send_shootdown` writes the range into two variables that all CPUs share and requests an interrupt
on every CPU, itself included; `shootdown_ipi` reads the variables again in every round of its loop.
The mutex is free again as soon as the interrupts are requested, whether they were handled or not.

A statement that accesses the shared variables is one step, and CPUs interleave in any way.  `sender`
is the CPU that has the mutex, with what it has left to do; `stale c` are the pages that were asked
for and that CPU `c` has not invalidated since.  An interrupt that is requested again before it is
taken is taken once.
-/

namespace SigmaOS.Smp

open Function
open Lib Arch.Paging

variable {κ : Type}

/-- What is next in `send_shootdown`: the two writes, the request and the release of the mutex. -/
inductive Sender
  | writeAddr (address length : BitVec 64)
  | writeLength (length : BitVec 64)
  | request
  | unlock

/-- `shootdown_ipi` with its `offset`: the loop is tested, or its body is next. -/
inductive Handler
  | away
  | test (offset : BitVec 64)
  | flush (offset : BitVec 64)

structure Shootdown (κ : Type) where
  addr : BitVec 64
  length : BitVec 64
  sender : Option (κ × Sender)
  pending : κ → Bool
  handler : κ → Handler
  stale : κ → Set (BitVec 36)

inductive Op (κ : Type)
  | call (c : κ) (address length : BitVec 64)
  | send (c : κ)
  | interrupt (c : κ)
  | round (c : κ)

def rangePages (address length : BitVec 64) (offset : Nat) : Set (BitVec 36) :=
  {p | ∃ k, offset ≤ k ∧ k < length.toNat ∧ pageOf (address + BitVec.ofNat 64 k) = p}

namespace Shootdown

def start : Shootdown κ :=
  ⟨0#64, 0#64, none, fun _ => false, fun _ => .away, fun _ => ∅⟩

variable [DecidableEq κ]

def sendStep (s : Shootdown κ) (c : κ) : Sender → Shootdown κ
  | .writeAddr address length =>
    { s with addr := address, sender := some (c, .writeLength length) }
  | .writeLength length => { s with length := length, sender := some (c, .request) }
  | .request => { s with pending := fun _ => true, sender := some (c, .unlock) }
  | .unlock => { s with sender := none }

def setCpu (s : Shootdown κ) (c : κ) (pending : Bool) (handler : Handler)
    (stale : Set (BitVec 36)) : Shootdown κ :=
  { s with
    pending := update s.pending c pending
    handler := update s.handler c handler
    stale := update s.stale c stale }

/-- A handler that runs on a CPU keeps `send_shootdown` waiting there. -/
def step (s : Shootdown κ) : Op κ → Option (Shootdown κ)
  | .call c address length =>
    match s.sender, s.handler c with
    | none, .away => some
        { s with
          sender := some (c, .writeAddr address length)
          stale := fun d => s.stale d ∪ rangePages address length 0 }
    | _, _ => none
  | .send c =>
    match s.sender, s.handler c with
    | some (d, next), .away => if d = c then some (s.sendStep c next) else none
    | _, _ => none
  | .interrupt c =>
    match s.pending c, s.handler c with
    | true, .away => some (s.setCpu c false (.test 0#64) (s.stale c))
    | _, _ => none
  | .round c =>
    match s.handler c with
    | .away => none
    | .test offset =>
      some (s.setCpu c (s.pending c) (if offset < s.length then .flush offset else .away) (s.stale c))
    | .flush offset =>
      some (s.setCpu c (s.pending c) (.test (offset + 0x1000#64))
        (s.stale c \ {pageOf (s.addr + offset)}))

/-- The interrupt of CPU `c` was taken, and its handler has returned. -/
def Quiet (s : Shootdown κ) (c : κ) : Prop :=
  s.pending c = false ∧ s.handler c = .away

/-- Whole pages, and `offset` does not wrap around before the end. -/
def Regular (address length : BitVec 64) : Prop :=
  address.toNat % 0x1000 = 0 ∧ length.toNat ≤ 2 ^ 64 - 0x1000

/-- Nobody calls `send_shootdown` before all CPUs are through with the last range. -/
def InTurn (s : Shootdown κ) : Op κ → Prop
  | .call _ address length => Regular address length ∧ ∀ d, s.Quiet d
  | _ => True

/-- The range of a call that has not requested the interrupts yet. -/
def announced (s : Shootdown κ) : Option (BitVec 64 × BitVec 64) :=
  match s.sender with
  | some (_, .writeAddr address length) => some (address, length)
  | some (_, .writeLength length) => some (s.addr, length)
  | some (_, .request) => some (s.addr, s.length)
  | _ => none

/-- What is stale on CPU `c` is what its handler still has to come to. -/
def Covered (s : Shootdown κ) (c : κ) : Prop :=
  match s.handler c with
  | .away => s.stale c ⊆ rangePages s.addr s.length 0 ∧ (s.pending c = false → s.stale c = ∅)
  | .test offset => offset.toNat % 0x1000 = 0 ∧ s.stale c ⊆ rangePages s.addr s.length offset.toNat
  | .flush offset => offset.toNat % 0x1000 = 0 ∧ offset < s.length ∧
      s.stale c ⊆ rangePages s.addr s.length offset.toNat

def Inv (s : Shootdown κ) : Prop :=
  match s.announced with
  | some (address, length) => Regular address length ∧
      ∀ d, s.Quiet d ∧ s.stale d ⊆ rangePages address length 0
  | none => Regular s.addr s.length ∧ ∀ d, s.Covered d

lemma rangePages_eq_empty {address length : BitVec 64} {offset : Nat}
    (h : length.toNat ≤ offset) : rangePages address length offset = ∅ := by
  refine Set.eq_empty_of_forall_notMem ?_
  rintro p ⟨k, hk, hlt, _⟩
  omega

/-- The first page of what is left is the one at `offset`. -/
lemma rangePages_diff {address length offset : BitVec 64} (h : Regular address length)
    (haligned : offset.toNat % 0x1000 = 0) :
    rangePages address length offset.toNat \ {pageOf (address + offset)} ⊆
      rangePages address length (offset.toNat + 0x1000) := by
  rintro p ⟨⟨k, hk, hlt, hpage⟩, hne⟩
  refine ⟨k, ?_, hlt, hpage⟩
  by_contra hnear
  refine hne (hpage.symm.trans (pageOf_eq_iff_toNat.2 ?_))
  have hstart := h.1
  rw [BitVec.toNat_add, BitVec.toNat_add, BitVec.toNat_ofNat]
  omega

section Steps

variable {s t : Shootdown κ} {c : κ}

/-- A regular request made while no shootdown is pending keeps the invariant. -/
lemma Inv.call {address length : BitVec 64} (h : s.Inv) (hregular : Regular address length)
    (hquiet : ∀ d, s.Quiet d) (hs : s.step (.call c address length) = some t) : t.Inv := by
  simp only [step] at hs
  split at hs
  next hsender _ =>
    cases hs
    simp only [Inv, announced, hsender] at h
    refine ⟨hregular, fun d => ⟨hquiet d, ?_⟩⟩
    -- nothing was stale before the call
    have hcovered := h.2 d
    simp only [Covered, (hquiet d).2] at hcovered
    show s.stale d ∪ rangePages address length 0 ⊆ rangePages address length 0
    rw [hcovered.2 (hquiet d).1, Set.empty_union]
  next => cases hs

/-- Sending the IPI keeps it. -/
lemma Inv.send (h : s.Inv) (hs : s.step (.send c) = some t) : t.Inv := by
  simp only [step] at hs
  split at hs
  next d next hsender _ =>
    split at hs
    next hd =>
      cases hs
      cases next with
      | request =>
        simp only [Inv, announced, hsender] at h
        refine ⟨h.1, fun d => ?_⟩
        rcases h.2 d with ⟨⟨_, haway⟩, hstale⟩
        simp only [Covered, sendStep, haway]
        exact ⟨hstale, fun hpending => by cases hpending⟩
      | _ =>
        simp only [Inv, announced, hsender] at h
        exact h
    next => cases hs
  next => cases hs

/-- Before the interrupts of a call are requested no handler runs, so a CPU that is not quiet works on
the shared range. -/
lemma Inv.setCpu {pending : Bool} {handler : Handler} {stale : Set (BitVec 36)} (h : s.Inv)
    (hbusy : ¬ s.Quiet c)
    (hc : s.Covered c → Regular s.addr s.length → (s.setCpu c pending handler stale).Covered c) :
    (s.setCpu c pending handler stale).Inv := by
  have hsame : (s.setCpu c pending handler stale).announced = s.announced := rfl
  unfold Inv at h ⊢
  rw [hsame]
  split at h
  · exact absurd (h.2 c).1 hbusy
  · refine ⟨h.1, fun d => ?_⟩
    by_cases hd : d = c
    · rw [hd]
      exact hc (h.2 c) h.1
    · have hcovered := h.2 d
      simp only [Covered, Shootdown.setCpu, update_of_ne hd]
      exact hcovered

lemma Inv.interrupt (h : s.Inv) (hs : s.step (.interrupt c) = some t) : t.Inv := by
  simp only [step] at hs
  split at hs
  next hpending haway =>
    cases hs
    refine h.setCpu (by simp [Quiet, hpending]) fun hc _ => ?_
    simp only [Covered, haway] at hc
    simp only [Covered, Shootdown.setCpu, update_self]
    exact ⟨rfl, hc.1⟩
  next => cases hs

/-- A CPU that waits serves one request. -/
lemma Inv.round (h : s.Inv) (hs : s.step (.round c) = some t) : t.Inv := by
  simp only [step] at hs
  split at hs
  · cases hs
  next offset htest =>
    cases hs
    refine h.setCpu (by simp [Quiet, htest]) fun hc _ => ?_
    simp only [Covered, htest] at hc
    by_cases hlt : offset < s.length
    · simp only [Covered, Shootdown.setCpu, update_self, if_pos hlt]
      exact ⟨hc.1, hlt, hc.2⟩
    · -- the loop is at its end, so nothing is left
      rw [rangePages_eq_empty (Nat.le_of_not_lt hlt), Set.subset_empty_iff] at hc
      simp only [Covered, Shootdown.setCpu, update_self, if_neg hlt, hc.2]
      exact ⟨Set.empty_subset _, fun _ => trivial⟩
  next offset hflush =>
    cases hs
    refine h.setCpu (by simp [Quiet, hflush]) fun hc hregular => ?_
    simp only [Covered, hflush] at hc
    rcases hc with ⟨haligned, hlt, hstale⟩
    have hnext : (offset + 0x1000#64).toNat = offset.toNat + 0x1000 := by
      have hend := hregular.2
      have hin : offset.toNat < s.length.toNat := hlt
      rw [BitVec.toNat_add, Nat.mod_eq_of_lt]
      · rfl
      · show offset.toNat + 0x1000 < 2 ^ 64
        omega
    simp only [Covered, Shootdown.setCpu, update_self, hnext]
    refine ⟨by omega, ?_⟩
    exact (Set.sdiff_subset_sdiff_left hstale).trans (rangePages_diff hregular haligned)

end Steps

/-- As long as every call finds all CPUs through with the last range, a CPU that has handled its
interrupt has nothing stale in its TLB, unless a further call is about to request interrupts. -/
theorem shootdown_complete {s : Shootdown κ} (hrun : Run step InTurn start s) {c : κ}
    (hannounced : s.announced = none) (hquiet : s.Quiet c) : s.stale c = ∅ := by
  have hinv : s.Inv := by
    refine hrun.invariant ⟨⟨rfl, Nat.zero_le _⟩, fun d => ⟨Set.empty_subset _, fun _ => rfl⟩⟩ ?_
    intro t op u ht hok hs
    cases op with
    | call c address length => exact ht.call hok.1 hok.2 hs
    | send c => exact ht.send hs
    | interrupt c => exact ht.interrupt hs
    | round c => exact ht.round hs
  unfold Inv at hinv
  rw [hannounced] at hinv
  have hcovered := hinv.2 c
  simp only [Covered, hquiet.2] at hcovered
  exact hcovered.2 hquiet.1

/-- One CPU asks for a page and the other one has handled its interrupt. -/
theorem shootdown_complete_sample :
    ∃ s : Shootdown Bool, Run step InTurn start s ∧ s.pending false = true ∧ s.stale true = ∅ := by
  have hcall : InTurn start (.call false 0x400000#64 0x1000#64) :=
    ⟨⟨rfl, by decide⟩, fun _ => ⟨rfl, rfl⟩⟩
  have hothers : ∀ op ∈ [Op.send false, .send false, .send false, .send false, .interrupt true,
      .round true, .round true, .round true], ∀ s : Shootdown Bool, InTurn s op := by
    simp [InTurn]
  have hfirst : Run step InTurn start _ := Run.single hcall rfl
  have hrun := hfirst.trans (exec_run rfl hothers)
  exact ⟨_, hrun, rfl, shootdown_complete hrun rfl ⟨rfl, rfl⟩⟩

/-- A second call before the interrupts of the first one were taken: its range is flushed only. -/
example : ∃ s : Shootdown Bool, exec step start
    ([.call false 0x400000#64 0x1000#64, .send false, .send false, .send false, .send false,
      .call false 0x500000#64 0x1000#64, .send false, .send false, .send false, .send false,
      .interrupt true, .round true, .round true, .round true] : List (Op Bool)) = some s ∧
      s.Quiet true ∧ pageOf 0x400000#64 ∈ s.stale true :=
  ⟨_, rfl, ⟨rfl, rfl⟩, .inl (.inr ⟨0, Nat.le_refl 0, by decide, rfl⟩), by decide⟩

end Shootdown

end SigmaOS.Smp
