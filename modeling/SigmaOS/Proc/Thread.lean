import Mathlib.Data.List.Range

/-!
# Proc.Thread — thread slots

Threads live in the slots of `thread_list`, which never shrinks; the tid of a thread is the number
of its slot.  A killed thread leaves its slot in the state `DISABLED`, and `create_blocked_thread`
takes the first such slot before it appends a new one.
-/

namespace SigmaOS.Proc.Process

abbrev Tid := Nat

inductive ThreadState
  | disabled
  | idle
  | running
  | blocked
  | silent
  deriving DecidableEq, Repr

inductive Privilege
  | application
  | driver
  | kernel
  deriving DecidableEq, Repr

def Privilege.level : Privilege → Nat
  | .application => 0
  | .driver => 1
  | .kernel => 2

/-- The slot `create_blocked_thread` takes, given the states of the first `count` slots. -/
def freeSlot (state : Nat → ThreadState) (count : Nat) : Nat :=
  ((List.range count).find? fun i => state i = .disabled).getD count

lemma freeSlot_cases (state : Nat → ThreadState) (count : Nat) :
    (freeSlot state count < count ∧ state (freeSlot state count) = .disabled) ∨
      freeSlot state count = count := by
  cases hfind : (List.range count).find? fun i => state i = .disabled with
  | none => exact .inr (by simp [freeSlot, hfind])
  | some i =>
    have hi : freeSlot state count = i := by simp [freeSlot, hfind]
    have hstate : state i = .disabled := by simpa using List.find?_some hfind
    have hlt : i < count := List.mem_range.1 (List.mem_of_find?_eq_some hfind)
    rw [hi]
    exact .inl ⟨hlt, hstate⟩

end SigmaOS.Proc.Process
