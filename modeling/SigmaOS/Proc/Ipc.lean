import Mathlib.Algebra.Group.Nat.Defs
import Mathlib.Data.List.Forall2
import Mathlib.Data.List.Nodup
import SigmaOS.Lib.Run
import SigmaOS.Types.Queue

/-!
# Proc.Ipc — message rings between two threads

A ring joins two threads `a` and `b` by two queues.  `send` copies the caller's bytes to a new
kernel allocation and pushes a packet with the copy; `receive` pops a packet, copies its bytes out
and releases the copy.  Each of the two runs under the queue's lock and is one step here.
-/

namespace SigmaOS.Proc.Ipc

open Function List
open Lib SigmaOS.Types

abbrev Tid := Nat
abbrev Ptr := Nat
abbrev Body := List UInt8

/-- The kernel heap as far as message copies go: the bytes of every live allocation. -/
abbrev Heap := Ptr → Option Body

/-! ## Packets and queues -/

structure Message where
  magicLow : UInt16
  size : Nat
  data : Ptr
  magicHigh : UInt16

structure IpcQueue where
  /-- The count of `_receive_event`. -/
  receiveEvent : Nat
  queue : Queue Message
  sender : Tid
  receiver : Tid

namespace IpcQueue

/-- `queue::send`.  `copy` is the answer of `new std::byte[size]` (null for a size of zero), `fresh`
that of the `malloc` in `ensure_capacity`; an allocation that is still live is never handed out. -/
def send (heap : Heap) (q : IpcQueue) (data : Body) (copy : Option Ptr)
    (fresh : Option (Nat → Message)) : Option (Bool × Heap × IpcQueue) :=
  match copy with
  | none => some (false, heap, q)
  | some p =>
    if data.length = 0 then
      some (false, heap, q)
    else if heap p ≠ none then
      none
    else
      let packet : Message :=
        { magicLow := 0xF00D, magicHigh := 0xDEAD, data := p, size := data.length }
      match q.queue.push fresh packet with
      | none => none
      | some r =>
        some (true, Function.update heap p (some data),
          { q with queue := r, receiveEvent := (q.receiveEvent + 1) % 2 ^ 64 })

/-- `queue::receive`.  The first component is what is written to the caller's buffer, or `none` when
the call fails because there is no message. -/
def receive (heap : Heap) (q : IpcQueue) : Option (Option Body × Heap × IpcQueue) :=
  if q.queue.offset = 0 then
    some (none, heap, q)
  else
    match q.queue.pop with
    | none => none
    | some (msg, r) =>
      if msg.magicLow = 0xF00D ∧ msg.magicHigh = 0xDEAD then
        match heap msg.data with
        | none => none
        | some bytes =>
          some (some (bytes.take msg.size), Function.update heap msg.data none,
            { q with queue := r })
      else
        none

end IpcQueue

/-- A ring.  `_a_queue` holds what `a` receives, `_b_queue` what `b` receives. -/
structure Ring where
  a : Tid
  b : Tid
  aQueue : IpcQueue
  bQueue : IpcQueue

namespace Ring

def new (a b : Tid) (array : Nat → Message) : Ring :=
  { a := a
    b := b
    aQueue := ⟨0, ⟨array, 0, 0⟩, b, a⟩
    bQueue := ⟨0, ⟨array, 0, 0⟩, a, b⟩ }

/-- `ring::send` by the thread `tid`; a thread that is not an endpoint panics. -/
def send (heap : Heap) (r : Ring) (tid : Tid) (data : Body) (copy : Option Ptr)
    (fresh : Option (Nat → Message)) : Option (Bool × Heap × Ring) :=
  if tid = r.a then
    match r.bQueue.send heap data copy fresh with
    | none => none
    | some (ok, heap', q) => some (ok, heap', { r with bQueue := q })
  else if tid = r.b then
    match r.aQueue.send heap data copy fresh with
    | none => none
    | some (ok, heap', q) => some (ok, heap', { r with aQueue := q })
  else
    none

def receive (heap : Heap) (r : Ring) (tid : Tid) : Option (Option Body × Heap × Ring) :=
  if tid = r.a then
    match r.aQueue.receive heap with
    | none => none
    | some (msg, heap', q) => some (msg, heap', { r with aQueue := q })
  else if tid = r.b then
    match r.bQueue.receive heap with
    | none => none
    | some (msg, heap', q) => some (msg, heap', { r with bQueue := q })
  else
    none

end Ring

/-! ## What one queue operation does -/

/-- The packet `m` holds the message `body` on the heap. -/
structure Carries (heap : Heap) (m : Message) (body : Body) : Prop where
  bytes : heap m.data = some body
  size : m.size = body.length
  magic : m.magicLow = 0xF00D ∧ m.magicHigh = 0xDEAD

lemma Carries.update {heap : Heap} {m : Message} {body : Body} {p : Ptr} {v : Option Body}
    (h : Carries heap m body) (hp : m.data ≠ p) : Carries (update heap p v) m body :=
  ⟨by rw [update_of_ne hp]; exact h.bytes, h.size, h.magic⟩

/-- The packets of a queue hold the messages `pending`, oldest first. -/
def Holds (heap : Heap) (q : IpcQueue) (pending : List Body) : Prop :=
  q.queue.Wf ∧ List.Forall₂ (Carries heap) q.queue.contents pending

def pointers (q : IpcQueue) : List Ptr :=
  q.queue.contents.map Message.data

lemma Holds.live {heap : Heap} {q : IpcQueue} {pending : List Body} {p : Ptr}
    (h : Holds heap q pending) (hp : p ∈ pointers q) : heap p ≠ none := by
  rcases mem_map.1 hp with ⟨m, hm, rfl⟩
  rcases forall₂_iff_get.1 h.2 with ⟨hlen, hget⟩
  rcases get_of_mem hm with ⟨i, rfl⟩
  have hcar := hget i.1 i.2 (hlen ▸ i.2)
  have hbytes := hcar.bytes
  rw [hbytes]
  exact Option.some_ne_none _

/-- A write at a pointer the queue does not use is not seen. -/
lemma Holds.frame {heap : Heap} {q : IpcQueue} {pending : List Body} {p : Ptr} {v : Option Body}
    (h : Holds heap q pending) (hp : p ∉ pointers q) : Holds (update heap p v) q pending := by
  refine ⟨h.1, ?_⟩
  have hne : ∀ m ∈ q.queue.contents, m.data ≠ p := by
    intro m hm heq
    exact hp (mem_map.2 ⟨m, hm, heq⟩)
  have hmono : ∀ {ms : List Message} {bs : List Body}, (∀ m ∈ ms, m.data ≠ p) →
      List.Forall₂ (Carries heap) ms bs →
      List.Forall₂ (Carries (update heap p v)) ms bs := by
    intro ms bs hms hall
    induction hall with
    | nil => exact List.Forall₂.nil
    | cons hm _ ih =>
      exact List.Forall₂.cons (hm.update (hms _ mem_cons_self))
        (ih (fun m hin => hms m (mem_cons_of_mem _ hin)))
  exact hmono hne h.2

/-- A message is refused, or its copy is queued. -/
lemma send_spec {heap heap' : Heap} {q q' : IpcQueue} {data : Body} {copy : Option Ptr}
    {fresh : Option (Nat → Message)} {ok : Bool} {pending : List Body} (hq : Holds heap q pending)
    (h : q.send heap data copy fresh = some (ok, heap', q')) :
    (ok = false ∧ heap' = heap ∧ q' = q) ∨
      (ok = true ∧ ∃ p, copy = some p ∧ heap p = none ∧
        heap' = update heap p (some data) ∧ pointers q' = pointers q ++ [p] ∧
        Holds heap' q' (pending ++ [data])) := by
  cases copy with
  | none =>
    have heq : false = ok ∧ heap = heap' ∧ q = q' := by simpa [IpcQueue.send] using h
    exact .inl ⟨heq.1.symm, heq.2.1.symm, heq.2.2.symm⟩
  | some p =>
    by_cases hz : data.length = 0
    · have heq : false = ok ∧ heap = heap' ∧ q = q' := by
        simpa only [IpcQueue.send, hz, if_true, Option.some.injEq, Prod.mk.injEq] using h
      exact .inl ⟨heq.1.symm, heq.2.1.symm, heq.2.2.symm⟩
    · by_cases hp : heap p = none
      · cases hpush : q.queue.push fresh
            { magicLow := 0xF00D, magicHigh := 0xDEAD, data := p, size := data.length } with
        | none =>
          simp only [IpcQueue.send, hz, hp, hpush, if_false, ne_eq, not_true_eq_false] at h
          cases h
        | some r =>
          simp only [IpcQueue.send, hz, hp, hpush, if_false, ne_eq, not_true_eq_false,
            Option.some.injEq, Prod.mk.injEq] at h
          rcases h with ⟨rfl, rfl, rfl⟩
          rcases Queue.push_spec hq.1 hpush with ⟨hwf, hcont⟩
          have hnotin : p ∉ pointers q := fun hin => hq.live hin hp
          refine .inr ⟨rfl, p, rfl, hp, rfl, ?_, hwf, ?_⟩
          · simp [pointers, hcont]
          · have hnew : Carries (update heap p (some data))
                { magicLow := 0xF00D, magicHigh := 0xDEAD, data := p, size := data.length }
                data := ⟨by simp, rfl, rfl, rfl⟩
            show List.Forall₂ _ r.contents _
            rw [hcont]
            exact rel_append (hq.frame hnotin).2
              (List.Forall₂.cons hnew List.Forall₂.nil)
      · simp only [IpcQueue.send, hz, hp, if_false, ne_eq, not_false_eq_true, if_true] at h
        cases h

lemma send_event {heap heap' : Heap} {q q' : IpcQueue} {data : Body} {copy : Option Ptr}
    {fresh : Option (Nat → Message)} {ok : Bool}
    (h : q.send heap data copy fresh = some (ok, heap', q')) :
    q'.receiver = q.receiver ∧ (ok = true → q'.receiveEvent = (q.receiveEvent + 1) % 2 ^ 64) := by
  unfold IpcQueue.send at h
  split at h
  · cases h
    exact ⟨rfl, fun hok => absurd hok (by simp)⟩
  · split at h
    · cases h
      exact ⟨rfl, fun hok => absurd hok (by simp)⟩
    · split at h
      · cases h
      · dsimp only at h
        split at h
        · cases h
        · cases h
          exact ⟨rfl, fun _ => rfl⟩

lemma receive_event {heap heap' : Heap} {q q' : IpcQueue} {msg : Option Body}
    (h : q.receive heap = some (msg, heap', q')) :
    q'.receiver = q.receiver ∧ q'.receiveEvent = q.receiveEvent := by
  unfold IpcQueue.receive at h
  split at h
  · cases h
    exact ⟨rfl, rfl⟩
  · split at h
    · cases h
    · split at h
      · split at h
        · cases h
        · cases h
          exact ⟨rfl, rfl⟩
      · cases h

lemma forall₂_snoc_left {α β : Type} {R : α → β → Prop} {x : α} {xs : List α} {ys : List β}
    (h : List.Forall₂ R (xs ++ [x]) ys) :
    ∃ zs y, ys = zs ++ [y] ∧ List.Forall₂ R xs zs ∧ R x y := by
  induction xs generalizing ys with
  | nil =>
    cases h with
    | cons hxy hnil =>
      cases hnil
      exact ⟨[], _, rfl, List.Forall₂.nil, hxy⟩
  | cons x' xs ih =>
    cases h with
    | cons hxy hrest =>
      rcases ih hrest with ⟨zs, y, rfl, hzs, hy⟩
      exact ⟨_ :: zs, y, rfl, List.Forall₂.cons hxy hzs, hy⟩

lemma forall₂_exists {α β : Type} {R : α → β → Prop} {xs : List α} {ys : List β} {y : β}
    (h : List.Forall₂ R xs ys) (hy : y ∈ ys) : ∃ x ∈ xs, R x y := by
  induction h with
  | nil => cases hy
  | cons hxy _ ih =>
    rcases mem_cons.1 hy with rfl | hin
    · exact ⟨_, mem_cons_self, hxy⟩
    · rcases ih hin with ⟨x, hx, hR⟩
      exact ⟨x, mem_cons_of_mem _ hx, hR⟩

/-- There is none, or the last message in the queue is returned. -/
lemma receive_spec {heap heap' : Heap} {q q' : IpcQueue} {msg : Option Body} {pending : List Body}
    (hq : Holds heap q pending) (hnodup : (pointers q).Nodup)
    (h : q.receive heap = some (msg, heap', q')) :
    (msg = none ∧ pending = [] ∧ heap' = heap ∧ q' = q) ∨
      (∃ rest body p, pending = rest ++ [body] ∧ msg = some body ∧ heap p = some body ∧
        heap' = update heap p none ∧ pointers q = pointers q' ++ [p] ∧
        Holds heap' q' rest) := by
  by_cases hz : q.queue.offset = 0
  · have heq : none = msg ∧ heap = heap' ∧ q = q' := by
      simpa only [IpcQueue.receive, hz, if_true, Option.some.injEq, Prod.mk.injEq] using h
    have hnil : q.queue.contents = [] := Queue.contents_eq_nil.2 hz
    have hpend : pending = [] := by
      have hall := hq.2
      rw [hnil] at hall
      cases hall
      rfl
    exact .inl ⟨heq.1.symm, hpend, heq.2.1.symm, heq.2.2.symm⟩
  · cases hpop : q.queue.pop with
    | none =>
      simp only [IpcQueue.receive, hz, hpop, if_false] at h
      cases h
    | some mr =>
      rcases mr with ⟨m, r⟩
      rcases Queue.pop_spec hq.1 hpop with ⟨hwf, hcont⟩
      have hall := hq.2
      rw [hcont] at hall
      rcases forall₂_snoc_left hall with ⟨rest, body, hpend, hrest, hm⟩
      have htake : body.take m.size = body := by rw [hm.size, take_length]
      simp only [IpcQueue.receive, hz, hpop, hm.magic, hm.bytes, if_false, if_true, and_self,
        htake, Option.some.injEq, Prod.mk.injEq] at h
      rcases h with ⟨rfl, rfl, rfl⟩
      have hptrs : pointers q = pointers { q with queue := r } ++ [m.data] := by
        simp [pointers, hcont]
      have hnotin : m.data ∉ pointers { q with queue := r } := by
        rw [hptrs] at hnodup
        intro hin
        exact (nodup_append.1 hnodup).2.2 _ hin _ (mem_singleton.2 rfl) rfl
      have hkeep : Holds heap { q with queue := r } rest := ⟨hwf, hrest⟩
      exact .inr ⟨rest, body, m.data, hpend, rfl, hm.bytes, rfl, hptrs, hkeep.frame hnotin⟩

/-- A queue that holds its messages can be read. -/
lemma Holds.receive_defined {heap : Heap} {q : IpcQueue} {pending : List Body}
    (hq : Holds heap q pending) : ∃ out, q.receive heap = some out := by
  by_cases hz : q.queue.offset = 0
  · exact ⟨_, by simp only [IpcQueue.receive, hz, if_true]; rfl⟩
  · cases hpop : q.queue.pop with
    | none => exact absurd (Queue.pop_eq_none.1 hpop) hz
    | some mr =>
      rcases mr with ⟨m, r⟩
      have hall := hq.2
      rw [(Queue.pop_spec hq.1 hpop).2] at hall
      rcases forall₂_snoc_left hall with ⟨_, body, _, _, hm⟩
      exact ⟨_, by
        simp only [IpcQueue.receive, hz, hpop, hm.magic, hm.bytes, if_false, if_true, and_self]
        rfl⟩

end SigmaOS.Proc.Ipc
