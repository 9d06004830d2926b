import SigmaOS.Proc.IpcOrder

/-!
# Proc.IpcSize — the size a receiver asks for and the message it then gets

A receiver asks for the size of the top message, makes a buffer of that size and receives into it.
Both look at the packet pushed last, so a message sent in between is the one received: the sizes
agree exactly when nothing was sent in between or the last message sent in between has the size
asked for (`receive_matches_size_iff`).
-/

namespace SigmaOS.Proc.Ipc

open Lib SigmaOS.Types List

def IpcQueue.getTopMessageSize (q : IpcQueue) : Option Nat :=
  if q.queue.offset = 0 then
    some 0
  else
    match q.queue.back with
    | none => none
    | some msg => some msg.size

/-- `ring::get_top_message_size` by the thread `tid`; a thread that is not an endpoint panics. -/
def Ring.getTopMessageSize (r : Ring) (tid : Tid) : Option Nat :=
  if tid = r.a then
    r.aQueue.getTopMessageSize
  else if tid = r.b then
    r.bQueue.getTopMessageSize
  else
    none

/-- A positive size is that of the message `receive` takes next. -/
lemma Holds.getTopMessageSize {heap : Heap} {q : IpcQueue} {pending : List Body} {size : Nat}
    (h : Holds heap q pending) (hsize : q.getTopMessageSize = some size) (hpos : 0 < size) :
    ∃ rest body, pending = rest ++ [body] ∧ body.length = size := by
  by_cases hz : q.queue.offset = 0
  · have h0 : 0 = size := by simpa [IpcQueue.getTopMessageSize, hz] using hsize
    exact absurd h0 (Nat.ne_of_lt hpos)
  · rcases Queue.back_spec hz with ⟨front, msg, hback, hcont⟩
    have hmsg : msg.size = size := by simpa [IpcQueue.getTopMessageSize, hz, hback] using hsize
    have hall := h.2
    rw [hcont] at hall
    rcases forall₂_snoc_left hall with ⟨rest, body, hpend, _, hcarries⟩
    exact ⟨rest, body, hpend, hcarries.size.symm.trans hmsg⟩

lemma Ring.getTopMessageSize_inbox {r : Ring} {tid : Tid} {size : Nat}
    (h : r.getTopMessageSize tid = some size) :
    r.Endpoint tid ∧ (r.inbox tid).getTopMessageSize = some size := by
  by_cases ha : tid = r.a
  · exact ⟨.inl ha, by simpa [Ring.getTopMessageSize, Ring.inbox, ha] using h⟩
  · by_cases hb : tid = r.b
    · subst hb
      exact ⟨.inr rfl, by simpa [Ring.getTopMessageSize, Ring.inbox, ha] using h⟩
    · simp [Ring.getTopMessageSize, ha, hb] at h

/-! ## The steps between the query and the `receive` -/

def Op.caller : Op → Tid
  | .send tid _ _ _ => tid
  | .receive tid => tid

namespace Net

/-- What the peer of `tid` has sent from the net `n` up to the later net `m`. -/
def sentSince (n m : Net) (tid : Tid) : List Body :=
  (m.sent (n.ring.peer tid)).drop (n.sent (n.ring.peer tid)).length

/-- The net `m` is reached from `n`, where `pending` is queued for `tid`, without a step of `tid`:
what was sent in between stands behind `pending`. -/
structure Since (n : Net) (tid : Tid) (pending : List Body) (m : Net) (queued : Tid → List Body) :
    Prop where
  queues : m.Queues queued
  ends : m.ring.a = n.ring.a ∧ m.ring.b = n.ring.b
  behind : ∃ between, m.sent (n.ring.peer tid) = n.sent (n.ring.peer tid) ++ between ∧
    queued tid = pending ++ between

variable {n m m' : Net} {queued : Tid → List Body} {tid : Tid} {pending : List Body} {op : Op}

lemma Since.peer (h : n.Since tid pending m queued) (t : Tid) :
    m.ring.peer t = n.ring.peer t := by
  simp [Ring.peer, h.ends.1, h.ends.2]

lemma Since.endpoint (h : n.Since tid pending m queued) {t : Tid} :
    m.ring.Endpoint t ↔ n.ring.Endpoint t := by
  simp [Ring.Endpoint, h.ends.1, h.ends.2]

/-- What is sent in between comes behind what was queued. -/
lemma Since.step (htid : n.ring.Endpoint tid) (h : n.Since tid pending m queued)
    (hop : op.caller ≠ tid) (hs : m.step op = some m') :
    ∃ queued', n.Since tid pending m' queued' := by
  have hab : n.ring.a ≠ n.ring.b := by simpa [h.ends.1, h.ends.2] using h.queues.distinct
  rcases h.queues.step hs with ⟨queued', hq', hm⟩
  rcases h.behind with ⟨between, hsent, hqueued⟩
  cases hm with
  | refused => exact ⟨queued, h⟩
  | empty => exact ⟨queued, h⟩
  | @sent t data _ _ _ p ht hends _ _ _ hsent' _ =>
    -- the caller is not `tid`, so it is the peer, and its peer is `tid`
    have hcaller : t = n.ring.peer tid :=
      (Ring.endpoint_cases htid (h.endpoint.1 ht)).resolve_left hop
    have hback : m.ring.peer t = tid := by
      rw [h.peer, hcaller]
      exact Ring.peer_peer hab htid
    refine ⟨_, hq', ⟨hends.1.trans h.ends.1, hends.2.trans h.ends.2⟩, between ++ [data], ?_, ?_⟩
    · rw [hsent', ← hcaller, Function.update_self, hcaller, hsent, append_assoc]
    · rw [hback, Function.update_self, hqueued, append_assoc]
  | @received t _ p rest body ht hends _ _ _ _ _ hsent' _ =>
    have hne : tid ≠ t := fun heq => hop heq.symm
    refine ⟨_, hq', ⟨hends.1.trans h.ends.1, hends.2.trans h.ends.2⟩, between, ?_, ?_⟩
    · rw [hsent', hsent]
    · rw [Function.update_of_ne hne, hqueued]

lemma Queues.receive_last {rest : List Body} {body : Body} (h : m.Queues queued)
    (htid : m.ring.Endpoint tid) (hlast : queued tid = rest ++ [body]) :
    ∃ heap ring, m.ring.receive m.heap tid = some (some body, heap, ring) := by
  have hholds := h.holds tid htid
  rcases hholds.receive_defined with ⟨⟨msg, heap, q⟩, hrecv⟩
  have hring := Ring.receive_inbox m.heap htid
  rw [hrecv] at hring
  rcases receive_spec hholds (nodup_append.1 (h.nodup htid)).2.1 hrecv with
    ⟨_, hnil, _, _⟩ | ⟨rest', body', _, hlast', hmsg, _, _, _, _⟩
  · rw [hlast] at hnil
    exact absurd hnil (append_ne_nil_of_right_ne_nil _ (cons_ne_nil _ _))
  · have hbody : body' = body := by
      have heq := hlast'.symm.trans hlast
      exact singleton_inj.1 (append_inj' heq rfl).2
    exact ⟨heap, m.ring.setInbox tid q, by rw [hring, hmsg, hbody]; rfl⟩

end Net

/-- A receiver that has asked for the size, and got `size > 0`, receives a message of that size in
its next operation exactly when the last message sent in between, if there is one, has that size. -/
theorem receive_matches_size_iff {a b tid : Tid} {array : Nat → Message} {heap : Heap} {n m : Net}
    {size : Nat} (hab : a ≠ b)
    (hrun : Run Net.step (fun _ _ => True) (Net.start a b array heap) n)
    (hsize : n.ring.getTopMessageSize tid = some size) (hpos : 0 < size)
    (hbetween : Run Net.step (fun _ op => op.caller ≠ tid) n m) :
    ∃ body heap' ring', m.ring.receive m.heap tid = some (some body, heap', ring') ∧
      (body.length = size ↔
        ∀ last, (n.sentSince m tid).getLast? = some last → last.length = size) := by
  have hstart : ∃ queued, n.Queues queued := by
    refine hrun.invariant (I := fun k => ∃ queued, k.Queues queued) ⟨_, Net.start_queues hab⟩ ?_
    rintro k op k' ⟨queued, hk⟩ _ hs
    rcases hk.step hs with ⟨queued', hk', _⟩
    exact ⟨queued', hk'⟩
  rcases hstart with ⟨queued₀, hq₀⟩
  rcases Ring.getTopMessageSize_inbox hsize with ⟨htid, hinbox⟩
  rcases (hq₀.holds tid htid).getTopMessageSize hinbox hpos with ⟨rest, top, htop, hlen⟩
  have hsince : ∃ queued, n.Since tid (queued₀ tid) m queued := by
    refine hbetween.invariant (I := fun k => ∃ queued, n.Since tid (queued₀ tid) k queued)
      ⟨queued₀, hq₀, ⟨rfl, rfl⟩, [], by simp, by simp⟩ ?_
    rintro k op k' ⟨queued, hk⟩ hop hs
    exact hk.step htid hop hs
  rcases hsince with ⟨queued, h⟩
  rcases h.behind with ⟨between, hsent, hqueued⟩
  have hdrop : n.sentSince m tid = between := by simp [Net.sentSince, hsent]
  rw [hdrop]
  -- the message returned is the last one sent in between, or the one the query saw
  rcases List.eq_nil_or_concat between with rfl | ⟨front, last, rfl⟩
  · have hlast : queued tid = rest ++ [top] := by rw [hqueued, htop, List.append_nil]
    rcases h.queues.receive_last (h.endpoint.2 htid) hlast with ⟨heap', ring', hrecv⟩
    exact ⟨top, heap', ring', hrecv, iff_of_true hlen (by simp)⟩
  · have hlast : queued tid = (queued₀ tid ++ front) ++ [last] := by
      rw [hqueued, List.concat_eq_append, List.append_assoc]
    rcases h.queues.receive_last (h.endpoint.2 htid) hlast with ⟨heap', ring', hrecv⟩
    exact ⟨last, heap', ring', hrecv, by simp⟩

def oneByteSent : Net :=
  { ring :=
      { a := 1
        b := 2
        aQueue := ⟨0, ⟨fun _ => blank, 0, 0⟩, 2, 1⟩
        bQueue := ⟨1, ⟨Function.update (fun _ => blank) 0 ⟨0xF00D, 1, 16, 0xDEAD⟩, 17, 1⟩, 1, 2⟩ }
    heap := Function.update (fun _ => none) 16 (some [1])
    sent := Function.update (fun _ => []) 1 [[1]]
    received := fun _ => [] }

lemma oneByteSent_reached : Run Net.step (fun _ _ => True) sampleStart oneByteSent := by
  refine Run.single (a := Op.send 1 [1] (some 16) (some fun _ => blank)) trivial ?_
  simp [Net.step, Ring.send, sampleStart, Net.start, Ring.new, IpcQueue.send, Queue.push,
    Queue.ensureCapacity, oneByteSent]

/-- Thread 1 sends another byte after thread 2 has got the size. -/
theorem receive_matches_size_iff_sample :
    ∃ m, exec Net.step oneByteSent [.send 1 [2] (some 17) none] = some m ∧
      ∃ body heap ring, m.ring.receive m.heap 2 = some (some body, heap, ring) ∧
        body.length = 1 := by
  refine ⟨_, rfl, ?_⟩
  have hbetween : Run Net.step (fun _ op => op.caller ≠ 2) oneByteSent _ :=
    Run.single (a := Op.send 1 [2] (some 17) none) (by decide) rfl
  rcases receive_matches_size_iff (by decide) oneByteSent_reached rfl (by decide) hbetween with
    ⟨body, heap, ring, hrecv, hiff⟩
  exact ⟨body, heap, ring, hrecv, hiff.2 fun _ hlast => by cases hlast; rfl⟩

/-- Thread 2 asks for the size of the message of thread 1 and gets 1; thread 1 sends two bytes more;
thread 2 then receives two bytes. -/
theorem receive_not_matches_size :
    ¬ ∀ (a b tid : Tid) (array : Nat → Message) (heap : Heap) (n m : Net) (size : Nat), a ≠ b →
      Run Net.step (fun _ _ => True) (Net.start a b array heap) n →
      n.ring.getTopMessageSize tid = some size → 0 < size →
      Run Net.step (fun _ op => op.caller ≠ tid) n m →
      ∃ body heap' ring', m.ring.receive m.heap tid = some (some body, heap', ring') ∧
        body.length = size := by
  intro hall
  have hexec : ∃ m, exec Net.step oneByteSent [.send 1 [2, 3] (some 17) none] = some m ∧
      (m.ring.receive m.heap 2).map Prod.fst = some (some [2, 3]) := ⟨_, rfl, rfl⟩
  rcases hexec with ⟨m, hm, hrecv⟩
  have hbetween : Run Net.step (fun _ op => op.caller ≠ 2) oneByteSent m :=
    exec_run hm (by
      intro op hop _
      rw [List.mem_singleton.1 hop]
      decide)
  rcases hall 1 2 2 (fun _ => blank) (fun _ => none) oneByteSent m 1 (by decide)
      oneByteSent_reached rfl (by decide) hbetween with ⟨body, heap', ring', hbody, hlen⟩
  rw [hbody] at hrecv
  have htwo : body = [2, 3] := by simpa using hrecv
  rw [htwo] at hlen
  exact absurd hlen (by decide)

end SigmaOS.Proc.Ipc
