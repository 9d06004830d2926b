import SigmaOS.Proc.IpcNet

/-!
# Proc.IpcOrder — the order in which a ring delivers messages

`types::queue` pops the packet pushed last, so a direction that holds two different messages
delivers the younger one first (`ring_not_first_in_first_out`).
-/

namespace SigmaOS.Proc.Ipc

open Lib SigmaOS.Types List

/-- First sent, first received, in both directions. -/
def Net.FirstInFirstOut (n : Net) : Prop :=
  n.received n.ring.b <+: n.sent n.ring.a ∧ n.received n.ring.a <+: n.sent n.ring.b

/-- The messages queued for the receiving endpoint all have the same body (there is at most one of
them, say); nothing is asked of `send`. -/
def Net.AgreeingReceive (n : Net) : Op → Prop
  | .send _ _ _ _ => True
  | .receive tid =>
    ∀ m ∈ (if tid = n.ring.a then n.ring.aQueue else n.ring.bQueue).queue.contents,
      ∀ m' ∈ (if tid = n.ring.a then n.ring.aQueue else n.ring.bQueue).queue.contents,
        n.heap m.data = n.heap m'.data

instance (n : Net) : DecidablePred n.AgreeingReceive
  | .send _ _ _ _ => isTrue trivial
  | .receive tid =>
    inferInstanceAs (Decidable (∀ m ∈ (n.ring.inbox tid).queue.contents,
      ∀ m' ∈ (n.ring.inbox tid).queue.contents, n.heap m.data = n.heap m'.data))

/-- What is sent in one direction is what has been received followed by what is queued. -/
def Flow (heap : Heap) (q : IpcQueue) (sent received : List Body) : Prop :=
  ∃ pending, sent = received ++ pending ∧ Holds heap q pending

structure Net.Ordered (a b : Tid) (n : Net) : Prop where
  ends : n.ring.a = a ∧ n.ring.b = b
  toA : Flow n.heap n.ring.aQueue (n.sent b) (n.received a)
  toB : Flow n.heap n.ring.bQueue (n.sent a) (n.received b)
  nodup : (pointers n.ring.aQueue ++ pointers n.ring.bQueue).Nodup

lemma snoc_eq_cons_of_forall_eq {α : Type} {x : α} {xs : List α} (h : ∀ y ∈ xs, y = x) :
    xs ++ [x] = x :: xs := by
  induction xs with
  | nil => rfl
  | cons y ys ih =>
    have hy : y = x := h y mem_cons_self
    rw [cons_append, ih (fun z hz => h z (mem_cons_of_mem _ hz)), hy]

/-- Order in terms of what the queues hold. -/
lemma Net.ordered_iff {a b : Tid} {n : Net} (hab : a ≠ b) :
    n.Ordered a b ↔ (n.ring.a = a ∧ n.ring.b = b) ∧ ∃ queued, n.Queues queued ∧
      ∀ tid, n.ring.Endpoint tid →
        n.sent (n.ring.peer tid) = n.received tid ++ queued tid := by
  constructor
  · rintro ⟨⟨rfl, rfl⟩, ⟨pa, hpa, hqa⟩, ⟨pb, hpb, hqb⟩, hnodup⟩
    refine ⟨⟨rfl, rfl⟩, fun tid => if tid = n.ring.a then pa else pb, ⟨hab, ?_, hnodup⟩, ?_⟩
    · rintro tid (rfl | rfl)
      · simpa [Ring.inbox] using hqa
      · simpa [Ring.inbox, hab.symm] using hqb
    · rintro tid (rfl | rfl)
      · simpa [Ring.peer] using hpa
      · simpa [Ring.peer, hab.symm] using hpb
  · rintro ⟨⟨rfl, rfl⟩, queued, hq, hflow⟩
    have hqa := hq.holds n.ring.a (.inl rfl)
    have hqb := hq.holds n.ring.b (.inr rfl)
    have hfa := hflow n.ring.a (.inl rfl)
    have hfb := hflow n.ring.b (.inr rfl)
    simp only [Ring.inbox, Ring.peer, if_true, hab.symm, if_false] at hqa hqb hfa hfb
    exact ⟨⟨rfl, rfl⟩, ⟨_, hfa, hqa⟩, ⟨_, hfb, hqb⟩, hq.apart⟩

lemma Holds.agree {heap : Heap} {q : IpcQueue} {rest : List Body} {body : Body}
    (h : Holds heap q (rest ++ [body]))
    (hagree : ∀ m ∈ q.queue.contents, ∀ m' ∈ q.queue.contents, heap m.data = heap m'.data) :
    ∀ y ∈ rest, y = body := by
  intro y hy
  rcases forall₂_exists h.2 (mem_append_left _ hy) with ⟨m, hm, hmy⟩
  rcases forall₂_exists h.2 (mem_append_right _ (mem_singleton.2 rfl)) with
    ⟨m', hm', hmb⟩
  have heq : some y = some body := by
    rw [← hmy.bytes, ← hmb.bytes]
    exact hagree m hm m' hm'
  exact Option.some.inj heq

/-- A receive among equal messages keeps the order. -/
lemma Net.Ordered.step {a b : Tid} {n n' : Net} {op : Op} (hab : a ≠ b) (h : n.Ordered a b)
    (hagree : n.AgreeingReceive op) (hs : n.step op = some n') : n'.Ordered a b := by
  rcases (Net.ordered_iff hab).1 h with ⟨hends, queued, hq, hflow⟩
  rcases hq.step hs with ⟨queued', hq', hm⟩
  have hkept := hm.relates (R := fun sent received pending => sent = received ++ pending)
    hq.distinct hflow (by
      intro sent received pending data hold
      rw [hold, append_assoc]) (by
      intro tid sent received rest body hop hlast hold
      subst hop
      -- all pending bodies equal the one returned, so it is also the oldest
      have htid : n.ring.Endpoint tid := by
        cases hm with
        | empty htid _ => exact htid
        | received htid => exact htid
      have hholds := hq.holds tid htid
      rw [hlast] at hholds
      rw [hold, snoc_eq_cons_of_forall_eq (hholds.agree hagree)]
      simp)
  exact (Net.ordered_iff hab).2
    ⟨⟨hkept.1.1.trans hends.1, hkept.1.2.trans hends.2⟩, queued', hq', hkept.2⟩

lemma Net.start_ordered (a b : Tid) (array : Nat → Message) (heap : Heap) :
    (Net.start a b array heap).Ordered a b := by
  have hempty : Flow heap ⟨0, ⟨array, 0, 0⟩, b, a⟩ [] [] :=
    ⟨[], rfl, Nat.le_refl 0, List.Forall₂.nil⟩
  exact ⟨⟨rfl, rfl⟩, hempty, ⟨[], rfl, Nat.le_refl 0, List.Forall₂.nil⟩, nodup_nil⟩

/-- In every interleaving of sends and receives in which a `receive` only meets messages that
agree, each endpoint receives a prefix of what the other has sent. -/
theorem ring_first_in_first_out {a b : Tid} {array : Nat → Message} {heap : Heap} {n : Net}
    (hab : a ≠ b)
    (hrun : Run Net.step Net.AgreeingReceive (Net.start a b array heap) n) :
    n.FirstInFirstOut := by
  have hord : n.Ordered a b := by
    refine hrun.invariant (Net.start_ordered a b array heap) ?_
    intro t op u ht hok hs
    exact ht.step hab hok hs
  rcases hord with ⟨⟨rfl, rfl⟩, ⟨pa, hpa, _⟩, ⟨pb, hpb, _⟩, _⟩
  exact ⟨⟨pb, hpb.symm⟩, ⟨pa, hpa.symm⟩⟩

def blank : Message :=
  { magicLow := 0, size := 0, data := 0, magicHigh := 0 }

def sampleStart : Net :=
  Net.start 1 2 (fun _ => blank) (fun _ => none)

/-- Thread 2 receives `[7]`, and then the first of two messages `[8]` in the order of the sends. -/
theorem ring_first_in_first_out_sample :
    ∃ n, exec Net.step sampleStart
        [.send 1 [7] (some 16) (some fun _ => blank), .receive 2, .send 1 [8] (some 17) none,
          .send 1 [8] (some 18) none, .receive 2] = some n ∧
      n.received 2 = [[7], [8]] ∧ n.sent 1 = [[7], [8], [8]] ∧ n.FirstInFirstOut := by
  refine ⟨_, rfl, rfl, rfl, ?_⟩
  refine @ring_first_in_first_out 1 2 (fun _ => blank) (fun _ => none) _ (by decide) ?_
  exact exec_guarded (show exec _ sampleStart
    [.send 1 [7] (some 16) (some fun _ => blank), .receive 2, .send 1 [8] (some 17) none,
      .send 1 [8] (some 18) none, .receive 2] = some _ from rfl)

/-- Thread 1 sends `[1]` and then `[2]`; the first message thread 2 receives is `[2]`. -/
theorem ring_not_first_in_first_out :
    ¬ ∀ (a b : Tid) (array : Nat → Message) (heap : Heap) (n : Net), a ≠ b →
      Run Net.step (fun _ _ => True) (Net.start a b array heap) n → n.FirstInFirstOut := by
  intro hall
  have hexec : ∃ n, exec Net.step sampleStart
      [.send 1 [1] (some 16) (some fun _ => blank), .send 1 [2] (some 17) none, .receive 2] =
        some n ∧ n.received n.ring.b = [[2]] ∧ n.sent n.ring.a = [[1], [2]] :=
    ⟨_, rfl, rfl, rfl⟩
  rcases hexec with ⟨n, hn, hrecv, hsent⟩
  have hfifo := hall 1 2 (fun _ => blank) (fun _ => none) n (by decide)
    (exec_run hn (fun _ _ _ => trivial))
  have hpre := hfifo.1
  rw [hrecv, hsent] at hpre
  exact absurd hpre (by decide)

end SigmaOS.Proc.Ipc
