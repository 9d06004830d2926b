import SigmaOS.Proc.Ipc

/-!
# Proc.IpcNet — a ring, its heap and the history of both endpoints

A `Net` is a ring with the kernel heap and the history of both endpoints; a run is any interleaving
of sends and receives of the two threads.  Every property of such runs rests on one fact, proved
here once: a ring whose queues hold the messages `queued` (`Net.Queues`) takes a step in one of the
four ways of `Net.Moves`.
-/

namespace SigmaOS.Proc.Ipc

open Proc.Ipc.Ring List
open Function
open Lib SigmaOS.Types

/-! ## Runs of a ring -/

/-- A ring with the heap and the history of both endpoints: the bodies each thread has sent
successfully, and those its successful receives have returned. -/
structure Net where
  ring : Ring
  heap : Heap
  sent : Tid → List Body
  received : Tid → List Body

inductive Op
  | send (tid : Tid) (data : Body) (copy : Option Ptr) (fresh : Option (Nat → Message))
  | receive (tid : Tid)

def Net.start (a b : Tid) (array : Nat → Message) (heap : Heap) : Net :=
  { ring := Ring.new a b array, heap := heap, sent := fun _ => [], received := fun _ => [] }

/-- One locked queue operation of one endpoint. -/
def Net.step (n : Net) : Op → Option Net
  | .send tid data copy fresh =>
    match n.ring.send n.heap tid data copy fresh with
    | none => none
    | some (ok, heap, ring) =>
      some
        { n with
          ring := ring
          heap := heap
          sent := Function.update n.sent tid (n.sent tid ++ if ok then [data] else []) }
  | .receive tid =>
    match n.ring.receive n.heap tid with
    | none => none
    | some (msg, heap, ring) =>
      some
        { n with
          ring := ring
          heap := heap
          received := Function.update n.received tid (n.received tid ++ msg.toList) }

namespace Ring

def Endpoint (r : Ring) (tid : Tid) : Prop :=
  tid = r.a ∨ tid = r.b

def inbox (r : Ring) (tid : Tid) : IpcQueue :=
  if tid = r.a then r.aQueue else r.bQueue

def setInbox (r : Ring) (tid : Tid) (q : IpcQueue) : Ring :=
  if tid = r.a then { r with aQueue := q } else { r with bQueue := q }

def peer (r : Ring) (tid : Tid) : Tid :=
  if tid = r.a then r.b else r.a

/-- The allocations of the messages in flight, in both directions. -/
def copies (r : Ring) : List Ptr :=
  pointers r.aQueue ++ pointers r.bQueue

variable {r : Ring} {tid tid' : Tid} {q : IpcQueue}

@[simp] lemma setInbox_a : (r.setInbox tid q).a = r.a := by
  unfold setInbox
  split <;> rfl

@[simp] lemma setInbox_b : (r.setInbox tid q).b = r.b := by
  unfold setInbox
  split <;> rfl

@[simp] lemma setInbox_endpoint : (r.setInbox tid q).Endpoint tid' ↔ r.Endpoint tid' := by
  simp [Endpoint]

@[simp] lemma setInbox_peer : (r.setInbox tid q).peer tid' = r.peer tid' := by
  simp [peer]

lemma peer_endpoint : r.Endpoint (r.peer tid) := by
  unfold peer
  split
  · exact .inr rfl
  · exact .inl rfl

lemma peer_ne (hab : r.a ≠ r.b) : r.peer tid ≠ tid := by
  unfold peer
  split
  · rename_i h
    exact fun hb => hab (h.symm.trans hb.symm)
  · rename_i h
    exact fun ha => h ha.symm

lemma peer_peer (hab : r.a ≠ r.b) (h : r.Endpoint tid) : r.peer (r.peer tid) = tid := by
  rcases h with rfl | rfl
  · simp [peer, Ne.symm hab]
  · simp [peer, Ne.symm hab]

lemma endpoint_cases (h : r.Endpoint tid) (h' : r.Endpoint tid') :
    tid' = tid ∨ tid' = r.peer tid := by
  rcases h with rfl | rfl <;> rcases h' with rfl | rfl
  · exact .inl rfl
  · exact .inr (by simp [peer])
  · by_cases hab : r.b = r.a
    · exact .inl hab.symm
    · exact .inr (by simp [peer, hab])
  · exact .inl rfl

lemma inbox_setInbox_same : (r.setInbox tid q).inbox tid = q := by
  by_cases h : tid = r.a
  · simp [inbox, setInbox, h]
  · simp [inbox, setInbox, h]

lemma inbox_setInbox_peer (hab : r.a ≠ r.b) (h : r.Endpoint tid) :
    (r.setInbox tid q).inbox (r.peer tid) = r.inbox (r.peer tid) := by
  rcases h with rfl | rfl
  · simp [inbox, setInbox, peer, Ne.symm hab]
  · simp [inbox, setInbox, peer, Ne.symm hab]

@[simp] lemma setInbox_inbox : r.setInbox tid (r.inbox tid) = r := by
  by_cases h : tid = r.a
  · simp [inbox, setInbox, h]
  · simp [inbox, setInbox, h]

section

variable (hab : r.a ≠ r.b) (h : r.Endpoint tid)
include hab h

lemma copies_perm :
    r.copies.Perm (pointers (r.inbox (r.peer tid)) ++ pointers (r.inbox tid)) := by
  rcases h with rfl | rfl
  · simpa [copies, inbox, peer, Ne.symm hab] using perm_append_comm
  · simp [copies, inbox, peer, Ne.symm hab]

lemma mem_copies {p : Ptr} :
    p ∈ r.copies ↔ p ∈ pointers (r.inbox (r.peer tid)) ∨ p ∈ pointers (r.inbox tid) :=
  (copies_perm hab h).mem_iff.trans mem_append

lemma copies_setInbox_perm :
    (r.setInbox tid q).copies.Perm (pointers (r.inbox (r.peer tid)) ++ pointers q) := by
  have hends : (r.setInbox tid q).a ≠ (r.setInbox tid q).b := by simpa using hab
  have hperm := copies_perm hends (setInbox_endpoint.2 h)
  rwa [setInbox_peer, inbox_setInbox_same, inbox_setInbox_peer hab h] at hperm

end

/-- A message goes to the queue of the peer. -/
lemma send_inbox {heap heap' : Heap} {r' : Ring} {data : Body} {copy : Option Ptr}
    {fresh : Option (Nat → Message)} {ok : Bool} (hab : r.a ≠ r.b)
    (h : r.send heap tid data copy fresh = some (ok, heap', r')) :
    r.Endpoint tid ∧ ∃ q, (r.inbox (r.peer tid)).send heap data copy fresh = some (ok, heap', q) ∧
      r' = r.setInbox (r.peer tid) q := by
  unfold send at h
  split at h
  · next ha =>
    split at h
    · cases h
    next q hsend =>
    cases h
    subst ha
    exact ⟨.inl rfl, q, by simpa [inbox, peer, Ne.symm hab] using hsend,
      by simp [setInbox, peer, Ne.symm hab]⟩
  next ha =>
  split at h
  · next hb =>
    split at h
    · cases h
    next q hsend =>
    cases h
    exact ⟨.inr hb, q, by simpa [inbox, peer, ha] using hsend, by simp [setInbox, peer, ha]⟩
  · cases h

lemma receive_inbox (heap : Heap) (h : r.Endpoint tid) :
    r.receive heap tid = ((r.inbox tid).receive heap).map
      fun out => (out.1, out.2.1, r.setInbox tid out.2.2) := by
  by_cases ha : tid = r.a
  · cases hrecv : r.aQueue.receive heap with
    | none => simp [receive, inbox, ha, hrecv]
    | some out => simp [receive, inbox, setInbox, ha, hrecv]
  · have hb : tid = r.b := h.resolve_left ha
    subst hb
    cases hrecv : r.bQueue.receive heap with
    | none => simp [receive, inbox, ha, hrecv]
    | some out => simp [receive, inbox, setInbox, ha, hrecv]

lemma receive_endpoint {heap : Heap} {out : Option Body × Heap × Ring}
    (h : r.receive heap tid = some out) : r.Endpoint tid := by
  by_cases ha : tid = r.a
  · exact .inl ha
  · by_cases hb : tid = r.b
    · exact .inr hb
    · simp [receive, ha, hb] at h

end Ring

/-! ## What one step does -/

/-- Both queues of the ring hold their messages, each message in an allocation of its own. -/
structure Net.Queues (n : Net) (queued : Tid → List Body) : Prop where
  distinct : n.ring.a ≠ n.ring.b
  holds : ∀ tid, n.ring.Endpoint tid → Holds n.heap (n.ring.inbox tid) (queued tid)
  apart : n.ring.copies.Nodup

/-- The ways in which an operation takes the net `n`, with the messages `queued`, to another one:
a `send` is refused or puts a copy of its message behind the others, a `receive` finds nothing or
takes the message sent last and releases its copy. -/
inductive Net.Moves (n : Net) (queued : Tid → List Body) :
    Op → Net → (Tid → List Body) → Prop where
  | refused {tid : Tid} {data : Body} {copy : Option Ptr} {fresh : Option (Nat → Message)} :
      Moves n queued (.send tid data copy fresh) n queued
  | sent {tid : Tid} {data : Body} {copy : Option Ptr} {fresh : Option (Nat → Message)} {n' : Net}
      {p : Ptr} (endpoint : n.ring.Endpoint tid)
      (ends : n'.ring.a = n.ring.a ∧ n'.ring.b = n.ring.b)
      (free : n.heap p = none) (heap : n'.heap = Function.update n.heap p (some data))
      (copies : ∀ x, x ∈ n'.ring.copies ↔ x ∈ n.ring.copies ∨ x = p)
      (sent : n'.sent = Function.update n.sent tid (n.sent tid ++ [data]))
      (received : n'.received = n.received) :
      Moves n queued (.send tid data copy fresh) n'
        (Function.update queued (n.ring.peer tid) (queued (n.ring.peer tid) ++ [data]))
  | empty {tid : Tid} (endpoint : n.ring.Endpoint tid) (nothing : queued tid = []) :
      Moves n queued (.receive tid) n queued
  | received {tid : Tid} {n' : Net} {p : Ptr} {rest : List Body} {body : Body}
      (endpoint : n.ring.Endpoint tid)
      (ends : n'.ring.a = n.ring.a ∧ n'.ring.b = n.ring.b)
      (last : queued tid = rest ++ [body])
      (live : n.heap p = some body) (heap : n'.heap = Function.update n.heap p none)
      (inFlight : p ∈ n.ring.copies)
      (copies : ∀ x, x ∈ n'.ring.copies ↔ x ∈ n.ring.copies ∧ x ≠ p)
      (sent : n'.sent = n.sent)
      (received : n'.received = Function.update n.received tid (n.received tid ++ [body])) :
      Moves n queued (.receive tid) n' (Function.update queued tid rest)

namespace Net

variable {n n' : Net} {queued : Tid → List Body} {tid : Tid}

section

variable (h : n.Queues queued)
include h

lemma Queues.nodup (htid : n.ring.Endpoint tid) :
    (pointers (n.ring.inbox (n.ring.peer tid)) ++ pointers (n.ring.inbox tid)).Nodup :=
  (copies_perm h.distinct htid).nodup_iff.1 h.apart

/-- Replacing one inbox leaves the other's messages. -/
lemma Queues.setInbox {p : Ptr} {v : Option Body} {q : IpcQueue} {pending : List Body}
    {sent received : Tid → List Body} (htid : n.ring.Endpoint tid)
    (hp : p ∉ pointers (n.ring.inbox (n.ring.peer tid))) (hq : Holds (update n.heap p v) q pending)
    (hnodup : (pointers (n.ring.inbox (n.ring.peer tid)) ++ pointers q).Nodup) :
    Queues ⟨n.ring.setInbox tid q, update n.heap p v, sent, received⟩
      (update queued tid pending) := by
  have hab := h.distinct
  refine ⟨by simpa using hab, ?_, ?_⟩
  · intro t ht
    have ht' : n.ring.Endpoint t := by simpa using ht
    rcases endpoint_cases htid ht' with rfl | rfl
    · show Holds _ ((n.ring.setInbox t q).inbox t) _
      rw [inbox_setInbox_same, update_self]
      exact hq
    · show Holds _ ((n.ring.setInbox tid q).inbox (n.ring.peer tid)) _
      rw [inbox_setInbox_peer hab htid, update_of_ne (peer_ne hab)]
      exact (h.holds _ peer_endpoint).frame hp
  · exact (copies_setInbox_perm hab htid).nodup_iff.2 hnodup

/-- A send keeps what the queues hold. -/
lemma Queues.send {data : Body} {copy : Option Ptr} {fresh : Option (Nat → Message)}
    (hs : n.step (.send tid data copy fresh) = some n') :
    ∃ queued', n'.Queues queued' ∧ n.Moves queued (.send tid data copy fresh) n' queued' := by
  simp only [step] at hs
  split at hs
  · cases hs
  next ok heap ring hring =>
  cases hs
  rcases send_inbox h.distinct hring with ⟨htid, q, hsend, rfl⟩
  have hpeer : n.ring.Endpoint (n.ring.peer tid) := peer_endpoint
  rcases send_spec (h.holds _ hpeer) hsend with
    ⟨rfl, rfl, rfl⟩ | ⟨rfl, p, _, hp, rfl, hptrs, hr⟩
  · have hsame : { n with
        ring := n.ring.setInbox (n.ring.peer tid) (n.ring.inbox (n.ring.peer tid))
        sent := update n.sent tid (n.sent tid ++ if false then [data] else []) } = n := by simp
    rw [hsame]
    exact ⟨queued, h, Moves.refused⟩
  · -- a free allocation is none of those in flight
    have hfree : ∀ t, n.ring.Endpoint t → p ∉ pointers (n.ring.inbox t) :=
      fun t ht hin => (h.holds t ht).live hin hp
    have hnodup : (pointers (n.ring.inbox (n.ring.peer (n.ring.peer tid))) ++
        pointers q).Nodup := by
      have hold := h.nodup hpeer
      rw [hptrs, ← append_assoc]
      refine nodup_append.2 ⟨hold, nodup_singleton p, ?_⟩
      intro x hx y hy hxy
      have hxp : x = p := hxy.trans (mem_singleton.1 hy)
      rcases mem_append.1 (hxp ▸ hx) with hin | hin
      · exact hfree _ peer_endpoint hin
      · exact hfree _ hpeer hin
    refine ⟨_, h.setInbox hpeer (hfree _ peer_endpoint) hr hnodup,
      Moves.sent htid ⟨setInbox_a, setInbox_b⟩ hp rfl ?_ (by simp) rfl⟩
    intro x
    rw [(copies_setInbox_perm h.distinct hpeer).mem_iff, hptrs, mem_copies h.distinct hpeer]
    simp [or_assoc]

/-- So does a receive. -/
lemma Queues.receive (hs : n.step (.receive tid) = some n') :
    ∃ queued', n'.Queues queued' ∧ n.Moves queued (.receive tid) n' queued' := by
  cases hring : n.ring.receive n.heap tid with
  | none => simp [step, hring] at hs
  | some out =>
    have htid := receive_endpoint hring
    rw [receive_inbox n.heap htid] at hring
    rcases Option.map_eq_some_iff.1 hring with ⟨⟨msg, heap, q⟩, hrecv, rfl⟩
    have hn' : n' = { n with
        ring := n.ring.setInbox tid q
        heap := heap
        received := update n.received tid (n.received tid ++ msg.toList) } := by
      have hring' := receive_inbox n.heap htid
      rw [hrecv] at hring'
      simpa [step, hring'] using hs.symm
    have hnodup := h.nodup htid
    rcases receive_spec (h.holds tid htid) (nodup_append.1 hnodup).2.1 hrecv with
      ⟨rfl, hnil, rfl, rfl⟩ | ⟨rest, body, p, hlast, rfl, hlive, rfl, hptrs, hr⟩
    · have hsame : n' = n := by simpa using hn'
      subst hsame
      exact ⟨queued, h, Moves.empty htid hnil⟩
    · -- the pointer popped is not in the other queue and not twice in this one
      rw [hptrs, ← append_assoc] at hnodup
      rcases nodup_append.1 hnodup with ⟨hleft, _, hapart⟩
      have hnotin : ∀ x ∈ pointers (n.ring.inbox (n.ring.peer tid)) ++ pointers q, x ≠ p :=
        fun x hx => hapart x hx p (mem_singleton.2 rfl)
      subst hn'
      refine ⟨_, h.setInbox htid (fun hin => hnotin p (mem_append_left _ hin) rfl) hr hleft,
        Moves.received htid ⟨setInbox_a, setInbox_b⟩ hlast hlive rfl ?_ ?_ rfl
          (by simp)⟩
      · rw [mem_copies h.distinct htid, hptrs]
        simp
      · intro x
        rw [(copies_setInbox_perm h.distinct htid).mem_iff, mem_copies h.distinct htid,
          hptrs]
        constructor
        · intro hx
          refine ⟨?_, hnotin x hx⟩
          rcases mem_append.1 hx with hin | hin
          · exact .inl hin
          · exact .inr (mem_append_left _ hin)
        · rintro ⟨hin | hin, hne⟩
          · exact mem_append_left _ hin
          · rcases mem_append.1 hin with hin | hin
            · exact mem_append_right _ hin
            · exact absurd (mem_singleton.1 hin) hne

lemma Queues.step {op : Op} (hs : n.step op = some n') :
    ∃ queued', n'.Queues queued' ∧ n.Moves queued op n' queued' := by
  cases op with
  | send tid data copy fresh => exact h.send hs
  | receive tid => exact h.receive hs

end

lemma start_queues {a b : Tid} {array : Nat → Message} {heap : Heap} (hab : a ≠ b) :
    (start a b array heap).Queues fun _ => [] := by
  refine ⟨hab, ?_, nodup_nil⟩
  intro tid _
  have hempty : ∀ sender receiver, Holds heap ⟨0, ⟨array, 0, 0⟩, sender, receiver⟩ [] :=
    fun _ _ => ⟨Nat.le_refl 0, List.Forall₂.nil⟩
  by_cases h : tid = a
  · simpa [start, new, inbox, h] using hempty b a
  · simpa [start, new, inbox, h] using hempty a b

lemma Queues.receive_defined (h : n.Queues queued) (htid : n.ring.Endpoint tid) :
    ∃ n', n.step (.receive tid) = some n' := by
  rcases (h.holds tid htid).receive_defined with ⟨out, hout⟩
  have hring := receive_inbox n.heap htid
  rw [hout] at hring
  simp [Net.step, hring]

/-- What sending and receiving preserve holds along every move. -/
lemma Moves.relates {R : List Body → List Body → List Body → Prop} {op : Op}
    {queued' : Tid → List Body} (hab : n.ring.a ≠ n.ring.b) (hm : n.Moves queued op n' queued')
    (hR : ∀ tid, n.ring.Endpoint tid → R (n.sent (n.ring.peer tid)) (n.received tid) (queued tid))
    (hsend : ∀ {sent received pending : List Body} (data : Body), R sent received pending →
      R (sent ++ [data]) received (pending ++ [data]))
    (hreceive : ∀ {tid : Tid} {sent received rest : List Body} {body : Body},
      op = .receive tid → queued tid = rest ++ [body] → R sent received (rest ++ [body]) →
        R sent (received ++ [body]) rest) :
    (n'.ring.a = n.ring.a ∧ n'.ring.b = n.ring.b) ∧ ∀ tid, n'.ring.Endpoint tid →
      R (n'.sent (n'.ring.peer tid)) (n'.received tid) (queued' tid) := by
  have hpeer : ∀ {m : Net} (t : Tid), m.ring.a = n.ring.a ∧ m.ring.b = n.ring.b →
      m.ring.peer t = n.ring.peer t := by
    intro m t hends
    simp [peer, hends.1, hends.2]
  have hendpoint : ∀ {m : Net} {t : Tid}, m.ring.a = n.ring.a ∧ m.ring.b = n.ring.b →
      m.ring.Endpoint t → n.ring.Endpoint t := by
    intro m t hends ht
    simpa [Ring.Endpoint, hends.1, hends.2] using ht
  cases hm with
  | refused => exact ⟨⟨rfl, rfl⟩, hR⟩
  | @sent tid data _ _ _ p htid hends _ _ _ hsent hreceived =>
    refine ⟨hends, ?_⟩
    intro t ht
    have ht' := hendpoint hends ht
    rw [hpeer t hends, hsent, hreceived]
    rcases endpoint_cases htid ht' with rfl | rfl
    · -- the sender's own inbox and what its peer has sent are as before
      rw [update_of_ne (peer_ne hab),
        update_of_ne (peer_ne hab).symm]
      exact hR t ht'
    · have hold := hR _ ht'
      rw [peer_peer hab htid] at hold ⊢
      rw [update_self, update_self]
      exact hsend data hold
  | empty => exact ⟨⟨rfl, rfl⟩, hR⟩
  | @received tid _ p rest body htid hends hlast _ _ _ _ hsent hreceived =>
    refine ⟨hends, ?_⟩
    intro t ht
    have ht' := hendpoint hends ht
    have hold := hR _ ht'
    rw [hpeer t hends, hsent, hreceived]
    rcases endpoint_cases htid ht' with rfl | rfl
    · rw [update_self, update_self]
      rw [hlast] at hold
      exact hreceive rfl hlast hold
    · rw [update_of_ne (peer_ne hab), update_of_ne (peer_ne hab)]
      exact hold

end Net

end SigmaOS.Proc.Ipc
