import Mathlib.Algebra.Group.Nat.Defs
import SigmaOS.Lib.Run

/-!
# Arch.IrqLock — the nested interrupt lock of one CPU

`irq_lock` keeps one number: how often the lock is held, and in bit 63 whether interrupts were enabled
before.  `lock` reads this number, and then the interrupt flag, while interrupts may still be enabled.

The model runs `lock` and `unlock` instruction by instruction.  Code that calls them is an activation:
how often it holds the lock, and where it is in a call.  Whenever interrupts are enabled a handler may
start, with interrupts enabled or not, and suspends what was running; it returns when it has released
all that it locked, and gets the old interrupt flag back.  A failed assertion is recorded.
-/

namespace SigmaOS.Arch.IrqLock

open Lib BitVec

/-! ## The code -/

def oldIrqFlag : BitVec 64 :=
  1#64 <<< 63

/-- Where an activation is, with what it has in registers. -/
inductive Point
  | outside
  | lockLoad
  | lockFlags
  | lockTest (rflags : Bool)
  | lockStore (value : BitVec 64)
  | unlockLoad
  | unlockLast (c : BitVec 64)
  | unlockFlag (c : BitVec 64)
  | unlockStore (value : BitVec 64)
  deriving DecidableEq

structure Activation where
  point : Point
  /-- Calls of `lock` that have no `unlock` yet. -/
  depth : Nat
  /-- The interrupt flag before the outermost `lock`. -/
  before : Bool
  deriving DecidableEq

structure Cpu where
  count : BitVec 64
  interrupts : Bool
  failed : Bool
  running : Activation
  /-- What handlers have interrupted, each with the interrupt flag that `iret` restores. -/
  suspended : List (Activation × Bool)
  deriving DecidableEq

inductive Event
  | lock
  | unlock
  | instruction
  | interrupt (enabled : Bool)
  | iret

namespace Cpu

def goto (s : Cpu) (point : Point) : Cpu :=
  { s with running := { s.running with point := point } }

/-- `ASSERT(c & ~old_irq_flag)`. -/
def assertHeld (s : Cpu) (c : BitVec 64) : Cpu :=
  { s with failed := s.failed || decide (c &&& ~~~oldIrqFlag = 0#64) }

def setDepth (s : Cpu) (depth : Nat) : Cpu :=
  { s with running := { s.running with depth := depth } }

/-- The next instruction of `lock` or `unlock` in the running activation. -/
def instruction (s : Cpu) : Option Cpu :=
  match s.running.point with
  | .outside => none
  | .lockLoad =>
    if s.count = 0#64 then some (s.goto .lockFlags)
    else some ((s.assertHeld s.count).goto (.lockStore (s.count + 1#64)))
  | .lockFlags => some (s.goto (.lockTest s.interrupts))
  | .lockTest rflags =>
    if rflags then some ({ s with interrupts := false }.goto (.lockStore (oldIrqFlag ||| 1#64)))
    else some (s.goto (.lockStore 1#64))
  | .lockStore value => some (({ s with count := value }.setDepth (s.running.depth + 1)).goto .outside)
  | .unlockLoad =>
    if s.count &&& ~~~oldIrqFlag = 1#64 then some ((s.assertHeld s.count).goto (.unlockLast s.count))
    else some ((s.assertHeld s.count).goto (.unlockStore (s.count - 1#64)))
  | .unlockLast c =>
    some (({ s with count := 0#64 }.setDepth (s.running.depth - 1)).goto (.unlockFlag c))
  | .unlockFlag c =>
    if c &&& oldIrqFlag ≠ 0#64 then some ({ s with interrupts := true }.goto .outside)
    else some (s.goto .outside)
  | .unlockStore value => some (({ s with count := value }.setDepth (s.running.depth - 1)).goto .outside)

/-- Calls are properly nested: at most `2^63 - 1` levels, and no `unlock` without a `lock`. -/
def step (s : Cpu) : Event → Option Cpu
  | .lock =>
    if s.running.point = .outside ∧ s.running.depth < 2 ^ 63 - 1 then
      some { s with running := { s.running with
        point := .lockLoad
        before := if s.running.depth = 0 then s.interrupts else s.running.before } }
    else none
  | .unlock =>
    if s.running.point = .outside ∧ 0 < s.running.depth then some (s.goto .unlockLoad) else none
  | .instruction => s.instruction
  | .interrupt enabled =>
    if s.interrupts then
      some { s with
        interrupts := enabled
        running := ⟨.outside, 0, enabled⟩
        suspended := (s.running, s.interrupts) :: s.suspended }
    else none
  | .iret =>
    match s.suspended with
    | [] => none
    | (a, flag) :: rest =>
      if s.running.point = .outside ∧ s.running.depth = 0 then
        some { s with interrupts := flag, running := a, suspended := rest }
      else none

def start (interrupts : Bool) : Cpu :=
  ⟨0#64, interrupts, false, ⟨.outside, 0, interrupts⟩, []⟩

end Cpu

/-! ## The number -/

def packed (before : Bool) (depth : Nat) : BitVec 64 :=
  (if before then oldIrqFlag else 0#64) + BitVec.ofNat 64 depth

section Packed

variable (before : Bool) {depth : Nat}

lemma packed_true_one : oldIrqFlag ||| 1#64 = packed true 1 :=
  rfl

lemma packed_false_one : 1#64 = packed false 1 :=
  rfl

lemma packed_succ : packed before (depth + 1) = packed before depth + 1#64 := by
  rw [packed, packed, BitVec.ofNat_add, BitVec.add_assoc]

lemma toNat_packed (h : depth < 2 ^ 63) :
    (packed before depth).toNat = (if before then 2 ^ 63 else 0) + depth := by
  have hdepth : (BitVec.ofNat 64 depth).toNat = depth := by
    exact Nat.mod_eq_of_lt (by omega)
  cases before with
  | false => simp [packed, hdepth]
  | true =>
    have hflag : oldIrqFlag.toNat = 2 ^ 63 := by decide
    simp only [packed, if_true, toNat_add, hflag, hdepth]
    exact Nat.mod_eq_of_lt (by omega)

lemma packed_and_not (h : depth < 2 ^ 63) :
    packed before depth &&& ~~~oldIrqFlag = BitVec.ofNat 64 depth := by
  apply eq_of_toNat_eq
  have hmask : (~~~oldIrqFlag).toNat = 2 ^ 63 - 1 := by decide
  rw [toNat_and, hmask, Nat.and_two_pow_sub_one_eq_mod, toNat_packed before h, toNat_ofNat]
  cases before with
  | false => simp; omega
  | true => simp; omega

lemma packed_and_not_ne_zero (hpos : 0 < depth) (h : depth < 2 ^ 63) :
    packed before depth &&& ~~~oldIrqFlag ≠ 0#64 := by
  rw [packed_and_not before h]
  intro hzero
  have hdepth : depth % 2 ^ 64 = 0 := by simpa using congrArg BitVec.toNat hzero
  omega

lemma packed_and_not_eq_one (h : depth < 2 ^ 63) :
    packed before depth &&& ~~~oldIrqFlag = 1#64 ↔ depth = 1 := by
  rw [packed_and_not before h]
  constructor
  · intro hone
    have hdepth : depth % 2 ^ 64 = 1 := by simpa using congrArg BitVec.toNat hone
    omega
  · rintro rfl
    rfl

end Packed

/-! ## The invariant -/

def Fits (a : Activation) (count : BitVec 64) (interrupts : Bool) : Prop :=
  match a.point with
  | .outside | .lockLoad =>
    (a.depth = 0 ∧ count = 0#64 ∧ interrupts = a.before) ∨
      (0 < a.depth ∧ count = packed a.before a.depth ∧ interrupts = false)
  | .lockFlags => a.depth = 0 ∧ count = 0#64 ∧ interrupts = a.before
  | .lockTest rflags => a.depth = 0 ∧ count = 0#64 ∧ interrupts = a.before ∧ rflags = a.before
  | .lockStore value => value = packed a.before (a.depth + 1) ∧ interrupts = false
  | .unlockLoad => 0 < a.depth ∧ count = packed a.before a.depth ∧ interrupts = false
  | .unlockLast c => a.depth = 1 ∧ c = packed a.before 1 ∧ interrupts = false
  | .unlockFlag c => a.depth = 0 ∧ count = 0#64 ∧ c = packed a.before 1 ∧ interrupts = false
  | .unlockStore value => 2 ≤ a.depth ∧ value = packed a.before (a.depth - 1) ∧ interrupts = false

def Activation.Bounded (a : Activation) : Prop :=
  match a.point with
  | .outside | .unlockLoad | .unlockLast _ | .unlockFlag _ | .unlockStore _ => a.depth < 2 ^ 63
  | .lockLoad | .lockFlags | .lockTest _ | .lockStore _ => a.depth < 2 ^ 63 - 1

lemma Fits.count_eq_zero {a : Activation} {count : BitVec 64} (h : Fits a count true) :
    count = 0#64 := by
  rcases a with ⟨point, depth, before⟩
  cases point with
  | outside | lockLoad =>
    rcases h with ⟨_, hcount, _⟩ | ⟨_, _, hflag⟩
    · exact hcount
    · cases hflag
  | lockFlags => exact h.2.1
  | lockTest rflags => exact h.2.1
  | lockStore value => cases h.2
  | unlockLoad | unlockLast c | unlockStore value => cases h.2.2
  | unlockFlag c => cases h.2.2.2

structure Inv (s : Cpu) : Prop where
  failed : s.failed = false
  bounded : s.running.Bounded
  fits : Fits s.running s.count s.interrupts
  suspended : ∀ p ∈ s.suspended, p.2 = true ∧ p.1.Bounded ∧ Fits p.1 0#64 true

namespace Inv

variable {s t : Cpu}

/-- Every instruction keeps the invariant. -/
lemma instruction (h : Inv s) (hs : s.instruction = some t) : Inv t := by
  rcases s with ⟨count, interrupts, failed, ⟨point, depth, before⟩, suspended⟩
  rcases h with ⟨hfailed, hbounded, hfits, hsuspended⟩
  cases point with
  | outside => cases hs
  | lockLoad =>
    dsimp only [Fits, Activation.Bounded] at hfailed hbounded hfits
    rcases hfits with ⟨rfl, rfl, hflag⟩ | ⟨hpos, hcount, hflag⟩
    · cases hs
      exact ⟨hfailed, hbounded, ⟨rfl, rfl, hflag⟩, hsuspended⟩
    · have hheld := packed_and_not_ne_zero before hpos (Nat.lt_of_lt_pred hbounded)
      have hne : count ≠ 0#64 := fun hzero => hheld (by rw [← hcount, hzero, zero_and])
      rw [Cpu.instruction, if_neg hne] at hs
      cases hs
      refine ⟨?_, hbounded, ⟨?_, hflag⟩, hsuspended⟩
      · simp [Cpu.goto, Cpu.assertHeld, hfailed, hcount, hheld]
      · rw [packed_succ, hcount]
        rfl
  | lockFlags =>
    rcases hfits with ⟨hdepth, hcount, hflag⟩
    cases hs
    exact ⟨hfailed, hbounded, ⟨hdepth, hcount, hflag, hflag⟩, hsuspended⟩
  | lockTest rflags =>
    rcases hfits with ⟨rfl, hcount, hflag, rfl⟩
    cases rflags with
    | true =>
      cases hs
      exact ⟨hfailed, hbounded, ⟨packed_true_one, rfl⟩, hsuspended⟩
    | false =>
      cases hs
      exact ⟨hfailed, hbounded, ⟨packed_false_one, hflag⟩, hsuspended⟩
  | lockStore value =>
    rcases hfits with ⟨hvalue, hflag⟩
    cases hs
    exact ⟨hfailed, Nat.add_lt_of_lt_sub hbounded, .inr ⟨Nat.succ_pos depth, hvalue, hflag⟩,
      hsuspended⟩
  | unlockLoad =>
    dsimp only [Fits, Activation.Bounded] at hfailed hbounded hfits
    rcases hfits with ⟨hpos, hcount, hflag⟩
    have hheld := packed_and_not_ne_zero before hpos hbounded
    have hfailed' : (failed || decide (count &&& ~~~oldIrqFlag = 0#64)) = false := by
      simp [hfailed, hcount, hheld]
    have hlast := packed_and_not_eq_one before hbounded
    rw [← hcount] at hlast
    by_cases hone : depth = 1
    · rw [Cpu.instruction, if_pos (hlast.2 hone)] at hs
      cases hs
      exact ⟨hfailed', hbounded, ⟨hone, by rw [← hone]; exact hcount, hflag⟩, hsuspended⟩
    · rw [Cpu.instruction, if_neg (mt hlast.1 hone)] at hs
      cases hs
      refine ⟨hfailed', hbounded, ⟨?_, ?_, hflag⟩, hsuspended⟩
      · show 2 ≤ depth
        omega
      · obtain ⟨d, rfl⟩ : ∃ d, depth = d + 1 := ⟨depth - 1, by omega⟩
        show count - 1#64 = packed before (d + 1 - 1)
        rw [hcount, packed_succ, add_sub_cancel, Nat.add_sub_cancel]
  | unlockLast c =>
    rcases hfits with ⟨rfl, hc, hflag⟩
    cases hs
    exact ⟨hfailed, Nat.two_pow_pos 63, ⟨rfl, rfl, hc, hflag⟩, hsuspended⟩
  | unlockFlag c =>
    dsimp only [Fits] at hfits
    rcases hfits with ⟨hdepth, hcount, rfl, hflag⟩
    cases before with
    | true =>
      cases hs
      exact ⟨hfailed, hbounded, .inl ⟨hdepth, hcount, rfl⟩, hsuspended⟩
    | false =>
      cases hs
      exact ⟨hfailed, hbounded, .inl ⟨hdepth, hcount, hflag⟩, hsuspended⟩
  | unlockStore value =>
    rcases hfits with ⟨htwo, hvalue, hflag⟩
    cases hs
    exact ⟨hfailed, Nat.lt_of_le_of_lt (Nat.sub_le _ _) hbounded,
      .inr ⟨Nat.sub_pos_of_lt htwo, hvalue, hflag⟩, hsuspended⟩

/-- So does every event, an interrupt and the return from it included. -/
lemma step {e : Event} (h : Inv s) (hs : s.step e = some t) : Inv t := by
  have hbounded := h.bounded
  have hfits := h.fits
  cases e with
  | lock =>
    simp only [Cpu.step] at hs
    split at hs
    · rename_i hcall
      cases hs
      rw [Fits, hcall.1] at hfits
      refine ⟨h.failed, hcall.2, ?_, h.suspended⟩
      rcases hfits with ⟨hdepth, hcount, _⟩ | ⟨hpos, hcount, hflag⟩
      · exact .inl ⟨hdepth, hcount, by simp [hdepth]⟩
      · exact .inr ⟨hpos, by simpa [Nat.ne_of_gt hpos] using hcount, hflag⟩
    · cases hs
  | unlock =>
    simp only [Cpu.step] at hs
    split at hs
    · rename_i hcall
      cases hs
      rw [Fits, hcall.1] at hfits
      rw [Activation.Bounded, hcall.1] at hbounded
      refine ⟨h.failed, hbounded, ?_, h.suspended⟩
      rcases hfits with ⟨hdepth, _⟩ | hheld
      · exact absurd hdepth (Nat.ne_of_gt hcall.2)
      · exact hheld
    · cases hs
  | instruction => exact h.instruction hs
  | interrupt enabled =>
    cases hflag : s.interrupts with
    | false => simp [Cpu.step, hflag] at hs
    | true =>
      rw [hflag] at hfits
      have hcount := hfits.count_eq_zero
      simp only [Cpu.step, hflag, if_true] at hs
      cases hs
      refine ⟨h.failed, Nat.two_pow_pos 63, .inl ⟨rfl, hcount, rfl⟩, ?_⟩
      intro p hp
      rcases List.mem_cons.1 hp with rfl | hin
      · exact ⟨rfl, hbounded, hcount ▸ hfits⟩
      · exact h.suspended p hin
  | iret =>
    cases hsuspended : s.suspended with
    | nil => simp [Cpu.step, hsuspended] at hs
    | cons p rest =>
      have hall := h.suspended
      rw [hsuspended] at hall
      simp only [Cpu.step, hsuspended] at hs
      split at hs
      · rename_i hcall
        cases hs
        rw [Fits, hcall.1] at hfits
        have hcount : s.count = 0#64 := by
          rcases hfits with ⟨_, hcount, _⟩ | ⟨hpos, _⟩
          · exact hcount
          · exact absurd hcall.2 (Nat.ne_of_gt hpos)
        rcases hall p List.mem_cons_self with ⟨hflag, hp, hpfits⟩
        refine ⟨h.failed, hp, ?_, fun q hq => hall q (List.mem_cons_of_mem p hq)⟩
        rw [hcount, hflag]
        exact hpfits
      · cases hs

lemma start (interrupts : Bool) : Inv (Cpu.start interrupts) :=
  ⟨rfl, Nat.two_pow_pos 63, .inl ⟨rfl, rfl, rfl⟩, nofun⟩

lemma interrupts_of_depth {a : Activation} {count : BitVec 64} {interrupts : Bool}
    (h : Fits a count interrupts) (hdepth : 0 < a.depth) : interrupts = false := by
  rcases a with ⟨point, depth, before⟩
  cases point with
  | outside | lockLoad =>
    rcases h with ⟨hzero, _⟩ | ⟨_, _, hflag⟩
    · exact absurd hzero (Nat.ne_of_gt hdepth)
    · exact hflag
  | lockFlags | lockTest rflags | unlockFlag c => exact absurd h.1 (Nat.ne_of_gt hdepth)
  | lockStore value => exact h.2
  | unlockLoad | unlockLast c | unlockStore value => exact h.2.2

end Inv

/-- Every run of properly nested calls, with handlers wherever interrupts are enabled: while any code
holds the lock interrupts are disabled, no assertion fails, and behind the outermost `unlock` the
interrupt flag is as before the outermost `lock`. -/
theorem irq_lock_safe (interrupts : Bool) (s : Cpu)
    (h : Run Cpu.step (fun _ _ => True) (Cpu.start interrupts) s) :
    ((0 < s.running.depth ∨ ∃ p ∈ s.suspended, 0 < p.1.depth) → s.interrupts = false) ∧
      s.failed = false ∧
      (s.running.point = .outside → s.running.depth = 0 → s.interrupts = s.running.before) := by
  have hinv : Inv s := h.invariant (Inv.start interrupts) fun t e u ht _ hs => ht.step hs
  refine ⟨?_, hinv.failed, ?_⟩
  · rintro (hrunning | ⟨p, hp, hdepth⟩)
    · exact Inv.interrupts_of_depth hinv.fits hrunning
    · -- what a handler has interrupted does not hold the lock
      exact absurd (Inv.interrupts_of_depth (hinv.suspended p hp).2.2 hdepth) (by decide)
  · intro hpoint hdepth
    have hfits := hinv.fits
    rw [Fits, hpoint] at hfits
    rcases hfits with ⟨_, _, hflag⟩ | ⟨hpos, _⟩
    · exact hflag
    · exact absurd hdepth (Nat.ne_of_gt hpos)

/-- `lock` has read the number when a handler starts, which locks and unlocks; then `lock` goes on. -/
def lockInterrupted : List Event :=
  [.lock, .instruction, .interrupt false, .lock] ++ List.replicate 4 .instruction ++
    [.unlock] ++ List.replicate 3 .instruction ++ [.iret] ++ List.replicate 3 .instruction

theorem irq_lock_safe_interrupted : ∃ s, exec Cpu.step (Cpu.start true) lockInterrupted = some s ∧
    s.running.depth = 1 ∧ s.count = oldIrqFlag ||| 1#64 ∧ s.interrupts = false := by
  have hrun : ∃ s, exec Cpu.step (Cpu.start true) lockInterrupted = some s ∧
      s.running.depth = 1 ∧ s.count = oldIrqFlag ||| 1#64 := ⟨_, rfl, rfl, rfl⟩
  rcases hrun with ⟨s, hs, hdepth, hcount⟩
  have hsafe := irq_lock_safe true s (exec_run hs fun _ _ _ => trivial)
  exact ⟨s, hs, hdepth, hcount, hsafe.1 (Or.inl (Nat.lt_of_lt_of_eq Nat.one_pos hdepth.symm))⟩

end SigmaOS.Arch.IrqLock
