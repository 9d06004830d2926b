import Mathlib.Data.Multiset.AddSub
import SigmaOS.Lib.Run
import SigmaOS.Proc.IpcOrder

/-!
# Proc.IpcBalance — no message of a ring is lost, duplicated or altered

In every state of every run the messages an endpoint has received together with those queued for it
are the messages the other endpoint has sent (`Net.Conserved`).  The heap differs from that of the
start in the copies of the queued messages only, so a copy lives from the `send` that makes it to the
`receive` that returns its message, and is released there once.
-/

namespace SigmaOS.Proc.Ipc

open Lib SigmaOS.Types Function

namespace Net

/-- A `receive` by `tid` takes the net `n` to `n'`: it finds nothing, or it returns the message of a
live copy and releases that copy and no other. -/
def Delivers (n : Net) (tid : Tid) (n' : Net) : Prop :=
  (n' = n ∧ pointers (n.ring.inbox tid) = []) ∨
    ∃ p body, p ∈ n.ring.copies ∧ n.heap p = some body ∧
      n'.heap = Function.update n.heap p none ∧
      (∀ x, x ∈ n'.ring.copies ↔ x ∈ n.ring.copies ∧ x ≠ p) ∧
      n'.received tid = n.received tid ++ [body]

/-- The messages received in a direction and those still queued are the messages sent in it. -/
def Accounts (n : Net) (sender receiver : Tid) : Prop :=
  ∃ queued : List Body, Holds n.heap (n.ring.inbox receiver) queued ∧
    (n.received receiver : Multiset Body) + queued = n.sent sender

structure Conserved (heap₀ : Heap) (n : Net) : Prop where
  toA : n.Accounts n.ring.b n.ring.a
  toB : n.Accounts n.ring.a n.ring.b
  /-- Every message in flight has a copy of its own, made since the start. -/
  apart : n.ring.copies.Nodup
  made : ∀ p ∈ n.ring.copies, heap₀ p = none
  /-- No other allocation has been left behind or released. -/
  rest : ∀ p, p ∉ n.ring.copies → n.heap p = heap₀ p
  /-- The next `receive` of either endpoint goes through. -/
  delivers : ∀ tid, n.ring.Endpoint tid → ∃ n', n.step (.receive tid) = some n' ∧ n.Delivers tid n'

/-! ## The balance along a run -/

structure Balanced (heap₀ : Heap) (n : Net) (queued : Tid → List Body) : Prop where
  queues : n.Queues queued
  accounts : ∀ tid, n.ring.Endpoint tid →
    (n.received tid : Multiset Body) + queued tid = n.sent (n.ring.peer tid)
  made : ∀ p ∈ n.ring.copies, heap₀ p = none
  rest : ∀ p, p ∉ n.ring.copies → n.heap p = heap₀ p

variable {heap₀ : Heap} {n n' : Net} {queued queued' : Tid → List Body} {op : Op} {tid : Tid}

/-- Outside of the copies the heap is as it was. -/
lemma Moves.heap_rest (hm : n.Moves queued op n' queued')
    (hmade : ∀ p ∈ n.ring.copies, heap₀ p = none)
    (hrest : ∀ p, p ∉ n.ring.copies → n.heap p = heap₀ p) :
    (∀ p ∈ n'.ring.copies, heap₀ p = none) ∧
      ∀ p, p ∉ n'.ring.copies → n'.heap p = heap₀ p := by
  cases hm with
  | refused => exact ⟨hmade, hrest⟩
  | empty => exact ⟨hmade, hrest⟩
  | @sent tid data _ _ _ p _ _ hfree hheap hcopies =>
    refine ⟨?_, ?_⟩
    · intro x hx
      rcases (hcopies x).1 hx with hold | rfl
      · exact hmade x hold
      · -- a free pointer outside the queues was free at the start as well
        by_cases hin : x ∈ n.ring.copies
        · exact hmade x hin
        · exact (hrest x hin).symm.trans hfree
    · intro x hx
      have hnot : x ∉ n.ring.copies := fun hin => hx ((hcopies x).2 (.inl hin))
      have hne : x ≠ p := fun heq => hx ((hcopies x).2 (.inr heq))
      calc n'.heap x = n.heap x := by rw [hheap, update_of_ne hne]
        _ = heap₀ x := hrest x hnot
  | @received tid _ p _ _ _ _ _ _ hheap hin hcopies =>
    refine ⟨fun x hx => hmade x ((hcopies x).1 hx).1, ?_⟩
    intro x hx
    by_cases hxp : x = p
    · subst hxp
      calc n'.heap x = none := by rw [hheap, update_self]
        _ = heap₀ x := (hmade x hin).symm
    · have hnot : x ∉ n.ring.copies := fun hold => hx ((hcopies x).2 ⟨hold, hxp⟩)
      calc n'.heap x = n.heap x := by rw [hheap, update_of_ne hxp]
        _ = heap₀ x := hrest x hnot

/-- Every operation keeps buffers and queued messages in balance. -/
lemma Balanced.step (h : n.Balanced heap₀ queued) (hs : n.step op = some n') :
    ∃ queued', n'.Balanced heap₀ queued' := by
  rcases h.queues.step hs with ⟨queued', hq', hm⟩
  rcases hm.heap_rest h.made h.rest with ⟨hmade, hrest⟩
  have hkept := hm.relates
    (R := fun sent received pending => (received : Multiset Body) + pending = (sent : Multiset Body))
    h.queues.distinct h.accounts (by
      intro sent received pending data hold
      rw [← Multiset.coe_add, ← Multiset.coe_add, ← hold, Multiset.add_assoc]) (by
      -- the multisets do not see from which end of the queue the message is taken
      intro tid sent received rest body _ _ hold
      rw [← hold, ← Multiset.coe_add, ← Multiset.coe_add, Multiset.add_assoc,
        Multiset.add_comm (rest : Multiset Body)])
  exact ⟨queued', hq', hkept.2, hmade, hrest⟩

/-- A receive on an endpoint delivers. -/
lemma Queues.delivers (h : n.Queues queued) (htid : n.ring.Endpoint tid) :
    ∃ n', n.step (.receive tid) = some n' ∧ n.Delivers tid n' := by
  rcases h.receive_defined htid with ⟨n', hs⟩
  refine ⟨n', hs, ?_⟩
  rcases h.step hs with ⟨queued', _, hm⟩
  cases hm with
  | empty _ hnil =>
    have hholds := (h.holds tid htid).2
    rw [hnil, List.forall₂_nil_right_iff] at hholds
    exact .inl ⟨rfl, by simp [pointers, hholds]⟩
  | received _ _ _ hlive hheap hin hcopies _ hreceived =>
    exact .inr ⟨_, _, hin, hlive, hheap, hcopies, by rw [hreceived, update_self]⟩

lemma Balanced.conserved (h : n.Balanced heap₀ queued) : n.Conserved heap₀ where
  toA := by
    have hacc := h.accounts n.ring.a (.inl rfl)
    exact ⟨_, h.queues.holds n.ring.a (.inl rfl), by simpa [Ring.peer] using hacc⟩
  toB := by
    have hacc := h.accounts n.ring.b (.inr rfl)
    exact ⟨_, h.queues.holds n.ring.b (.inr rfl),
      by simpa [Ring.peer, h.queues.distinct.symm] using hacc⟩
  apart := h.queues.apart
  made := h.made
  rest := h.rest
  delivers := fun _ htid => h.queues.delivers htid

lemma start_balanced {a b : Tid} {array : Nat → Message} {heap : Heap} (hab : a ≠ b) :
    (start a b array heap).Balanced heap fun _ => [] :=
  ⟨start_queues hab, fun _ _ => rfl, nofun, fun _ _ => rfl⟩

end Net

/-- In every interleaving of sends and receives the messages of both directions are conserved and
their copies accounted for. -/
theorem ring_conserves_messages {a b : Tid} {array : Nat → Message} {heap : Heap} {n : Net}
    (hab : a ≠ b) (hrun : Run Net.step (fun _ _ => True) (Net.start a b array heap) n) :
    n.Conserved heap := by
  have hbal : ∃ queued, n.Balanced heap queued := by
    refine hrun.invariant (I := fun m => ∃ queued, m.Balanced heap queued)
      ⟨_, Net.start_balanced hab⟩ ?_
    rintro t op u ⟨queued, ht⟩ _ hs
    exact ht.step hs
  rcases hbal with ⟨queued, h⟩
  exact h.conserved

theorem ring_conserves_messages_sample :
    ∃ n, exec Net.step sampleStart
        [.send 1 [1] (some 16) (some fun _ => blank), .send 1 [2] (some 17) none, .receive 2] =
          some n ∧ n.received 2 = [[2]] ∧ n.Conserved (fun _ => none) := by
  refine ⟨_, rfl, rfl, ?_⟩
  exact @ring_conserves_messages 1 2 (fun _ => blank) (fun _ => none) _ (by decide)
    (exec_run (rfl : exec Net.step sampleStart
      [.send 1 [1] (some 16) (some fun _ => blank), .send 1 [2] (some 17) none, .receive 2] = _)
      (fun _ _ _ => trivial))

end SigmaOS.Proc.Ipc
