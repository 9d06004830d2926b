import Mathlib.Data.Nat.Init
import Mathlib.Order.Interval.Finset.Nat
import SigmaOS.Lib.Run
import SigmaOS.Proc.Ipc
import SigmaOS.Proc.Scheduler

/-!
# Proc.IpcWakeup — a receiver that blocks on the receive event of its queue

A receiver repeats: block on the receive event of its queue, and once it is dispatched again,
receive once.  Every `send` triggers the event, and the scheduler takes one trigger when it finds the
receiver blocked.  `Wait` puts the queue, the scheduler and the receiver's place in its loop together;
the count of the event is the queue's own field, and the scheduler works on that field.

`Wait.Balanced` is the counting invariant: the messages queued are the triggers left, and one more
while the receiver has been woken up and has not received yet.
-/

namespace SigmaOS.Proc.Ipc

open Lib SigmaOS.Types Proc.Process List

/-! ## The three components together -/

inductive Next
  | block
  | receive
  deriving DecidableEq

structure Wait where
  /-- The address of the queue's `_receive_event`. -/
  event : Event
  queue : IpcQueue
  heap : Heap
  sched : Sched
  next : Next

/-- A `std::byte*`; zero is the null pointer. -/
def pointer (address : BitVec 64) : Option Ptr :=
  if address = 0#64 then none else some address.toNat

lemma pointer_mem {address : BitVec 64} {p : Ptr} (h : pointer address = some p) :
    p ∈ Finset.Ioo 0 (2 ^ 64) := by
  rcases Option.ite_none_left_eq_some.1 h with ⟨hz, hp⟩
  have hpos : address.toNat ≠ 0 := fun h0 => hz (BitVec.eq_of_toNat_eq h0)
  rw [← Option.some.inj hp, Finset.mem_Ioo]
  exact ⟨Nat.pos_of_ne_zero hpos, address.isLt⟩

inductive WaitOp
  /-- The peer sends; the copy is made at the address `copy`. -/
  | send (data : Body) (copy : BitVec 64) (fresh : Option (Nat → Message))
  /-- The receiver, current on CPU `c`, blocks and is switched out. -/
  | block (c : Cpu)
  | receive
  /-- The timer handler on CPU `c`. -/
  | timer (c : Cpu)
  /-- Anything else that happens to the threads. -/
  | other (sched : Sched)

namespace Wait

def start (event : Event) (sender receiver : Tid) (array : Nat → Message) (heap : Heap)
    (sched : Sched) : Wait :=
  { event := event
    queue := ⟨0, ⟨array, 0, 0⟩, sender, receiver⟩
    heap := heap
    sched := sched
    next := .block }

/-- The scheduler's view: the count of the receive event is the one in the queue. -/
def scheduler (w : Wait) : Sched :=
  { w.sched with triggers := Function.update w.sched.triggers w.event w.queue.receiveEvent }

def setScheduler (w : Wait) (s : Sched) : Wait :=
  { w with sched := s, queue := { w.queue with receiveEvent := s.triggers w.event } }

def step (w : Wait) : WaitOp → Option Wait
  | .send data copy fresh =>
    match w.queue.send w.heap data (pointer copy) fresh with
    | none => none
    | some (_, heap, q) => some { w with heap := heap, queue := q }
  | .block c =>
    -- `thread::block`: the state change and the switch to another thread
    some { w.setScheduler ((w.scheduler.block w.queue.receiver w.event).timerHandler c) with
      next := .receive }
  | .receive =>
    match w.queue.receive w.heap with
    | none => none
    | some (_, heap, q) => some { w with heap := heap, queue := q, next := .block }
  | .timer c => some (w.setScheduler (w.scheduler.timerHandler c))
  | .other sched => some { w with sched := sched }

def IsBlocked (w : Wait) : Prop :=
  (w.sched.tasks w.queue.receiver).state = .blocked

def Woken (w : Wait) : Prop :=
  w.next = .receive ∧ ¬ w.IsBlocked

instance (w : Wait) : Decidable w.IsBlocked :=
  inferInstanceAs (Decidable (_ = _))

instance (w : Wait) : Decidable w.Woken :=
  inferInstanceAs (Decidable (_ ∧ _))

/-- No thread but the receiver is blocked on the event. -/
def Private (w : Wait) (s : Sched) : Prop :=
  ∀ t, t ≠ w.queue.receiver → (s.tasks t).state = .blocked → (s.tasks t).event ≠ w.event

/-- The receiver keeps to its loop, and while it is blocked nothing but the scheduler's check touches
it; it does not become blocked otherwise. -/
def Protocol (w : Wait) : WaitOp → Prop
  | .send _ _ _ => True
  | .block c =>
    w.next = .block ∧ w.sched.current c = some w.queue.receiver ∧
      (w.sched.tasks w.queue.receiver).state = .running
  | .receive => w.next = .receive ∧ (w.sched.tasks w.queue.receiver).state = .running
  | .timer _ => True
  | .other s =>
    w.Private s ∧
      if w.IsBlocked then s.tasks w.queue.receiver = w.sched.tasks w.queue.receiver
      else (s.tasks w.queue.receiver).state ≠ .blocked

structure Counted (w : Wait) : Prop where
  count : w.queue.queue.offset = w.queue.receiveEvent + if w.Woken then 1 else 0
  /-- The `receive` of a receiver that has been woken up returns a message. -/
  receives : w.Woken → ∃ body heap q, w.queue.receive w.heap = some (some body, heap, q)
  /-- No wakeup is lost. -/
  wakes : w.IsBlocked → w.queue.queue.offset ≠ 0 → 0 < w.queue.receiveEvent
  /-- The count has neither passed zero downwards nor wrapped around upwards. -/
  bounded : w.queue.receiveEvent ≤ w.queue.queue.offset ∧ w.queue.queue.offset < 2 ^ 64

/-! ## The counting invariant -/

/-- The counting invariant, with what it needs of the queue and of the threads. -/
structure Balanced (w : Wait) (pending : List Body) : Prop where
  holds : Holds w.heap w.queue pending
  nodup : (pointers w.queue).Nodup
  addresses : ∀ p ∈ pointers w.queue, p ∈ Finset.Ioo 0 (2 ^ 64)
  count : w.queue.queue.offset = w.queue.receiveEvent + if w.Woken then 1 else 0
  waits : w.IsBlocked → w.next = .receive ∧ (w.sched.tasks w.queue.receiver).event = w.event
  others : w.Private w.sched

lemma pointers_length (q : IpcQueue) : (pointers q).length = q.queue.offset := by
  simp [pointers, Queue.contents]

/-- There are fewer than `2 ^ 64` messages in a queue: each has a non-null address of its own. -/
lemma offset_lt {q : IpcQueue} (hnodup : (pointers q).Nodup)
    (haddr : ∀ p ∈ pointers q, p ∈ Finset.Ioo 0 (2 ^ 64)) : q.queue.offset < 2 ^ 64 := by
  have hsub : (pointers q).toFinset ⊆ Finset.Ioo 0 (2 ^ 64) := by
    intro p hp
    exact haddr p (mem_toFinset.1 hp)
  have hcard := Finset.card_le_card hsub
  rw [toFinset_card_of_nodup hnodup, pointers_length, Nat.card_Ioo] at hcard
  omega

variable {s : Sched}

/-- A tick leaves the receiver blocked, or wakes it for one trigger. -/
lemma timer_wakes {r : Tid} {event : Event} (c : Cpu)
    (hwaits : (s.tasks r).state = .blocked → (s.tasks r).event = event)
    (hothers : ∀ t, t ≠ r → (s.tasks t).state = .blocked → (s.tasks t).event ≠ event) :
    ((((s.timerHandler c).tasks r).state = .blocked ↔ (s.tasks r).state = .blocked) ∧
        (s.timerHandler c).triggers event = s.triggers event) ∨
      ((s.tasks r).state = .blocked ∧ ((s.timerHandler c).tasks r).state ≠ .blocked ∧
        s.triggers event = (s.timerHandler c).triggers event + 1) := by
  rcases (Sched.timerHandler_blocked (s := s) c).2 with ⟨htriggers, hblocked⟩ | ⟨t, hwake⟩
  · exact .inl ⟨hblocked r, by rw [htriggers]⟩
  · by_cases htr : t = r
    · subst htr
      have hev := hwaits hwake.blocked
      have hpos := hwake.triggered
      have htaken := congrFun hwake.triggers event
      rw [hev, Function.update_self] at htaken
      rw [hev] at hpos
      exact .inr ⟨hwake.blocked, hwake.awake, by omega⟩
    · -- another thread is woken up, and its event is not this one
      have hne : event ≠ (s.tasks t).event := (hothers t htr hwake.blocked).symm
      refine .inl ⟨hwake.others r (Ne.symm htr), ?_⟩
      rw [hwake.triggers, Function.update_of_ne hne]

lemma timer_private {w : Wait} (c : Cpu) (h : w.Private s) : w.Private (s.timerHandler c) := by
  intro t ht hblocked
  rcases Sched.timerHandler_blocked (s := s) c with ⟨hevent, hcases⟩
  rw [hevent t]
  refine h t ht ?_
  rcases hcases with ⟨_, hsame⟩ | ⟨u, hwake⟩
  · exact (hsame t).1 hblocked
  · by_cases htu : t = u
    · exact absurd (htu ▸ hblocked) hwake.awake
    · exact (hwake.others t htu).1 hblocked

variable {w w' : Wait} {pending : List Body}

/-- A message and its trigger. -/
lemma Balanced.send {data : Body} {copy : BitVec 64} {fresh : Option (Nat → Message)}
    (h : w.Balanced pending) (hs : w.step (.send data copy fresh) = some w') :
    ∃ pending', w'.Balanced pending' := by
  simp only [step] at hs
  split at hs
  · cases hs
  next ok heap q hsend =>
  cases hs
  rcases send_event hsend with ⟨hreceiver, hevent⟩
  rcases send_spec h.holds hsend with
    ⟨rfl, rfl, rfl⟩ | ⟨rfl, p, hcopy, hp, rfl, hptrs, hholds⟩
  · exact ⟨pending, h⟩
  · have hnodup : (pointers q).Nodup := by
      rw [hptrs]
      refine nodup_append.2 ⟨h.nodup, nodup_singleton p, ?_⟩
      intro x hx y hy hxy
      exact h.holds.live (hxy.trans (mem_singleton.1 hy) ▸ hx) hp
    have haddr : ∀ x ∈ pointers q, x ∈ Finset.Ioo 0 (2 ^ 64) := by
      intro x hx
      rw [hptrs] at hx
      rcases mem_append.1 hx with hold | hnew
      · exact h.addresses x hold
      · rw [mem_singleton.1 hnew]
        exact pointer_mem hcopy
    have hoffset : q.queue.offset = w.queue.queue.offset + 1 := by
      rw [← pointers_length, ← pointers_length, hptrs, length_append]
      rfl
    have hwoken : Woken ⟨w.event, q, Function.update w.heap p (some data), w.sched, w.next⟩ ↔
        w.Woken := by
      simp [Woken, IsBlocked, hreceiver]
    have hlt := offset_lt hnodup haddr
    have hcount := h.count
    refine ⟨_, hholds, hnodup, haddr, ?_, ?_, ?_⟩
    · show q.queue.offset = q.receiveEvent + _
      rw [hevent rfl, if_congr hwoken rfl rfl, hoffset]
      omega
    · simpa [IsBlocked, hreceiver] using h.waits
    · simpa [Private, hreceiver] using h.others

/-- A tick after which the count is right. -/
lemma Balanced.dispatch {next : Next} (c : Cpu) (h : w.Balanced pending)
    (hcount : w.queue.queue.offset = s.triggers w.event +
      if next = .receive ∧ (s.tasks w.queue.receiver).state ≠ .blocked then 1 else 0)
    (hwaits : (s.tasks w.queue.receiver).state = .blocked →
      next = .receive ∧ (s.tasks w.queue.receiver).event = w.event) (hothers : w.Private s) :
    Balanced { w.setScheduler (s.timerHandler c) with next := next } pending := by
  have hevent := (Sched.timerHandler_blocked (s := s) c).1 w.queue.receiver
  rcases timer_wakes c (fun hb => (hwaits hb).2) hothers with
    ⟨hblocked, htriggers⟩ | ⟨hblocked, hawake, htaken⟩
  · refine ⟨h.holds, h.nodup, h.addresses, ?_, ?_, timer_private c hothers⟩
    · show w.queue.queue.offset = (s.timerHandler c).triggers w.event + _
      rw [htriggers, hcount]
      refine congrArg _ (if_congr ?_ rfl rfl)
      exact and_congr Iff.rfl (not_congr hblocked).symm
    · intro hb
      rcases hwaits (hblocked.1 hb) with ⟨hnext, hev⟩
      exact ⟨hnext, hevent.trans hev⟩
  · -- the trigger taken is the receiver's wakeup
    rcases hwaits hblocked with ⟨hnext, _⟩
    have hbefore : ¬ (next = .receive ∧ (s.tasks w.queue.receiver).state ≠ .blocked) :=
      fun hw => hw.2 hblocked
    have hafter : Woken { w.setScheduler (s.timerHandler c) with next := next } :=
      ⟨hnext, hawake⟩
    rw [if_neg hbefore, htaken] at hcount
    refine ⟨h.holds, h.nodup, h.addresses, ?_, fun hb => absurd hb hawake,
      timer_private c hothers⟩
    rw [if_pos hafter]
    exact hcount

lemma Balanced.timer (c : Cpu) (h : w.Balanced pending) :
    (w.setScheduler (w.scheduler.timerHandler c)).Balanced pending := by
  have hview : w.scheduler.triggers w.event = w.queue.receiveEvent := by simp [scheduler]
  have hcount : w.queue.queue.offset = w.scheduler.triggers w.event +
      if w.next = .receive ∧ (w.scheduler.tasks w.queue.receiver).state ≠ .blocked then 1 else 0 := by
    rw [hview]
    exact h.count.trans (congrArg _ (if_congr Iff.rfl rfl rfl))
  exact h.dispatch c hcount h.waits h.others

section

variable (h : w.Balanced pending)
include h

/-- Blocking keeps the balance. -/
lemma Balanced.block {c : Cpu} (hnext : w.next = .block) :
    Balanced { w.setScheduler ((w.scheduler.block w.queue.receiver w.event).timerHandler c) with
      next := .receive } pending := by
  have hwoken : ¬ w.Woken := by simp [Woken, hnext]
  have hcount := h.count
  rw [if_neg hwoken] at hcount
  refine h.dispatch c ?_ ?_ ?_
  · simpa [Sched.block, scheduler] using hcount
  · intro _
    exact ⟨rfl, by simp [Sched.block]⟩
  · intro t ht hblocked
    have hsame : (w.scheduler.block w.queue.receiver w.event).tasks t = w.sched.tasks t := by
      simp [Sched.block, scheduler, ht]
    rw [hsame] at hblocked ⊢
    exact h.others t ht hblocked

lemma Balanced.receives (hwoken : w.Woken) :
    ∃ body heap q, w.queue.receive w.heap = some (some body, heap, q) := by
  have hcount := h.count
  rw [if_pos hwoken] at hcount
  rcases h.holds.receive_defined with ⟨⟨msg, heap, q⟩, hrecv⟩
  rcases receive_spec h.holds h.nodup hrecv with
    ⟨_, hnil, _, _⟩ | ⟨_, body, _, _, rfl, _, _, _, _⟩
  · have hlen := h.holds.2.length_eq
    rw [hnil, length_nil, Queue.contents, length_map, length_range] at hlen
    omega
  · exact ⟨body, heap, q, hrecv⟩

/-- The receiver takes a message or waits. -/
lemma Balanced.receive (hok : w.Protocol .receive) (hs : w.step .receive = some w') :
    ∃ pending', w'.Balanced pending' := by
  rcases hok with ⟨hnext, hrunning⟩
  have hawake : ¬ w.IsBlocked := by simp [IsBlocked, hrunning]
  have hcount := h.count
  rw [if_pos ⟨hnext, hawake⟩] at hcount
  rcases h.receives ⟨hnext, hawake⟩ with ⟨body, heap, q, hrecv⟩
  have hw' : { w with heap := heap, queue := q, next := .block } = w' := by
    simpa [step, hrecv] using hs
  subst hw'
  rcases receive_event hrecv with ⟨hreceiver, hevent⟩
  rcases receive_spec h.holds h.nodup hrecv with
    ⟨hnone, _, _, _⟩ | ⟨rest, _, p, _, _, _, _, hptrs, hholds⟩
  · cases hnone
  · have hnodup := h.nodup
    rw [hptrs] at hnodup
    have hoffset : w.queue.queue.offset = q.queue.offset + 1 := by
      rw [← pointers_length, ← pointers_length, hptrs, length_append]
      rfl
    refine ⟨rest, hholds, (nodup_append.1 hnodup).1, ?_, ?_, ?_, ?_⟩
    · intro x hx
      exact h.addresses x (hptrs ▸ mem_append_left _ hx)
    · -- back at the top of its loop, the receiver counts for nothing
      have hwoken : ¬ Woken ⟨w.event, q, heap, w.sched, .block⟩ := by simp [Woken]
      show q.queue.offset = q.receiveEvent + _
      rw [if_neg hwoken, hevent]
      omega
    · intro hb
      exact absurd (by simpa [IsBlocked, hreceiver] using hb) hawake
    · simpa [Private, hreceiver] using h.others

/-- So do the steps of other threads. -/
lemma Balanced.other (hok : w.Protocol (.other s)) : Balanced { w with sched := s } pending := by
  rcases hok with ⟨hprivate, htask⟩
  have hblocked : IsBlocked { w with sched := s } ↔ w.IsBlocked := by
    by_cases hb : w.IsBlocked
    · rw [if_pos hb] at htask
      simp [IsBlocked, htask]
    · rw [if_neg hb] at htask
      exact iff_of_false htask hb
  refine ⟨h.holds, h.nodup, h.addresses, ?_, ?_, hprivate⟩
  · have hwoken : Woken { w with sched := s } ↔ w.Woken :=
      and_congr Iff.rfl (not_congr hblocked)
    rw [if_congr hwoken rfl rfl]
    exact h.count
  · intro hb
    have hold := hblocked.1 hb
    rw [if_pos hold] at htask
    exact ⟨(h.waits hold).1, by simpa [htask] using (h.waits hold).2⟩

lemma Balanced.step {op : WaitOp} (hok : w.Protocol op) (hs : w.step op = some w') :
    ∃ pending', w'.Balanced pending' := by
  cases op with
  | send data copy fresh => exact h.send hs
  | block c => exact ⟨pending, Option.some.inj hs ▸ h.block hok.1⟩
  | receive => exact h.receive hok hs
  | timer c => exact ⟨pending, Option.some.inj hs ▸ h.timer c⟩
  | other s => exact ⟨pending, Option.some.inj hs ▸ h.other hok⟩

lemma Balanced.counted : w.Counted where
  count := h.count
  receives := h.receives
  wakes := by
    intro hblocked hoffset
    have hcount := h.count
    rw [if_neg (fun hwoken : w.Woken => hwoken.2 hblocked)] at hcount
    omega
  bounded := ⟨by have hcount := h.count; omega, offset_lt h.nodup h.addresses⟩

end

end Wait

/-- In every interleaving of the receiver's loop with sends and with the scheduler on any CPU, the
messages queued are counted by the event and the wakeup that is not yet used. -/
theorem wakeups_counted {event : Event} {sender receiver : Tid} {array : Nat → Message} {heap : Heap}
    {sched : Sched} {w : Wait}
    (hnew : ∀ t, (sched.tasks t).state = .blocked → (sched.tasks t).event ≠ event)
    (hawake : (sched.tasks receiver).state ≠ .blocked)
    (hrun : Run Wait.step Wait.Protocol (Wait.start event sender receiver array heap sched) w) :
    w.Counted := by
  have hbal : ∃ pending, w.Balanced pending := by
    refine hrun.invariant (I := fun w => ∃ pending, w.Balanced pending) ⟨[], ?_⟩ ?_
    · refine ⟨⟨Nat.le_refl 0, List.Forall₂.nil⟩, List.nodup_nil, ?_, ?_, ?_, ?_⟩
      · intro p hp
        cases hp
      · rfl
      · intro hb
        exact absurd hb hawake
      · intro t _ hblocked
        exact hnew t hblocked
    · rintro u op v ⟨pending, hu⟩ hok hs
      exact hu.step hok hs
  rcases hbal with ⟨pending, h⟩
  exact h.counted

def sampleWait : Wait :=
  Wait.start 7 2 1 (fun _ => ⟨0, 0, 0, 0⟩) (fun _ => none)
    { tasks := fun _ => ⟨.running, 0⟩
      count := 2
      triggers := fun _ => 0
      current := fun _ => some 1 }

/-- The receiver blocks on an empty queue, a message is sent, and the timer wakes the receiver up. -/
theorem wakeups_counted_sample :
    ∃ w, exec Wait.step sampleWait
        [.block 0, .send [1] 16#64 (some fun _ => ⟨0, 0, 0, 0⟩), .timer 0] = some w ∧
      w.Woken ∧ w.queue.receiveEvent = 0 ∧ w.Counted := by
  refine ⟨_, rfl, by decide, by decide, ?_⟩
  refine @wakeups_counted 7 2 1 (fun _ => ⟨0, 0, 0, 0⟩) (fun _ => none) sampleWait.sched _ ?_ ?_ ?_
  · intro t hblocked
    cases hblocked
  · decide
  · exact Run.tail (Run.tail (Run.single (a := .block 0) ⟨rfl, rfl, rfl⟩ rfl)
      (a := .send [1] 16#64 (some fun _ => ⟨0, 0, 0, 0⟩)) trivial rfl) (a := .timer 0) trivial rfl

end SigmaOS.Proc.Ipc
