import SigmaOS.Drivers.XhciCompletion

/-!
# Drivers.XhciStale — calls that return on another call's event

The bounds of `Right.run` are exact.

* The 4096th command waits under the key of the first one, whose entry is still finished.
* The transfer that ends with block 4094 of its port waits under 0.  There `handle_irq`, which takes a
  port's ring for one of 0xff blocks, has filed the event of block 254.
* A transfer whose buffer cannot be allocated returns with its setup block on the ring.
-/

namespace SigmaOS.Drivers.Xhci

open Lib

namespace Exchange

/-! ## Runs on one ring -/

def completion (c : Controller) (addr : BitVec 64) : RingId → RawTrb
  | .command =>
    ⟨addr.extractLsb' 0 32, addr.extractLsb' 32 32, 1#32 <<< 24,
      0#8 ++ (0#8 ++ (commandCompletionEvent ++ 0#10))⟩
  | .port p =>
    ⟨addr.extractLsb' 0 32, addr.extractLsb' 32 32, 1#32 <<< 24,
      c.slotId p ++ (1#8 ++ (transferEvent ++ 0#10))⟩

lemma completes_completion (c : Controller) (addr : BitVec 64) (id : RingId) :
    c.Completes (completion c addr id) addr id := by
  cases id with
  | command =>
    refine ⟨?_, append_halves addr⟩
    exact (BitVec.extractLsb'_append_eq_of_add_le (by decide)).trans (by decide)
  | port p =>
    refine ⟨?_, ?_, BitVec.extractLsb'_append_eq_left, append_halves addr⟩
    · exact (BitVec.extractLsb'_append_eq_of_add_le (by decide)).trans (by decide)
    · exact (BitVec.extractLsb'_append_eq_of_add_le (by decide)).trans (by decide)

/-- A state in which only one ring was used: `n` blocks were put on it, and `d` events delivered. -/
structure UsesOnly (base : RingId → BitVec 64) (c : Controller) (id : RingId) (n d : Nat)
    (s : Exchange) : Prop where
  inStep : s.InStep base c
  failed : s.failed = false
  issued : (s.issued id).length = n
  delivered : (s.delivered id).length = d
  others : ∀ other, other ≠ id → s.issued other = []

section Only

variable {base : RingId → BitVec 64} {c : Controller} {s : Exchange} {id : RingId} {n d p : Nat}
  {call : Waiting}

lemma UsesOnly.within {commands blocks : Nat} {failures : Bool} (h : UsesOnly base c id n d s)
    (hcommands : id = .command → n ≤ commands) (hblocks : ∀ p, id = .port p → n ≤ blocks) :
    s.Within commands blocks failures where
  commands := by
    by_cases hid : RingId.command = id
    · rw [hid, h.issued]
      exact hcommands hid.symm
    · simp [h.others _ hid]
  blocks := by
    intro p
    by_cases hid : RingId.port p = id
    · rw [hid, h.issued]
      exact hblocks p hid.symm
    · simp [h.others _ hid]
  failures := by
    intro hfailed
    rw [h.failed] at hfailed
    cases hfailed

/-- While a call handles events one more can be delivered. -/
lemma UsesOnly.deliver (h : UsesOnly base c id n d s) (hphase : s.phase = .handling call)
    (hlt : d < n) :
    ∃ t, Run step ok s t ∧ UsesOnly base c id n (d + 1) t ∧ t.phase = .handling call := by
  obtain ⟨addr, haddr⟩ : ∃ addr, (s.issued id)[(s.delivered id).length]? = some addr :=
    ⟨_, List.getElem?_eq_getElem (by rw [h.issued, h.delivered]; exact hlt)⟩
  have hok : s.ok (.event id (completion s.controller addr id)) :=
    ⟨addr, haddr, completes_completion s.controller addr id⟩
  rcases h.inStep.handleEvent hok with ⟨hhandle, _⟩
  obtain ⟨c', hs⟩ : ∃ c', s.step (.event id (completion s.controller addr id)) =
      some (s.deliver id (completion s.controller addr id) c') := by
    simp [step, hphase, hhandle]
  refine ⟨_, Run.single hok hs, ⟨h.inStep.step hok hs, h.failed, h.issued, ?_, h.others⟩, hphase⟩
  simp [Exchange.deliver, h.delivered]

lemma UsesOnly.deliverAll {m d : Nat} {s : Exchange} (h : UsesOnly base c id n d s)
    (hphase : s.phase = .handling call) (hn : d + m = n) :
    ∃ t, Run step ok s t ∧ UsesOnly base c id n n t ∧ t.phase = .handling call := by
  induction m generalizing d s with
  | zero =>
    exact ⟨s, Run.refl s, hn ▸ h, hphase⟩
  | succ m ih =>
    rcases h.deliver hphase (by omega) with ⟨t, hrun, ht, hphase'⟩
    rcases ih ht hphase' (by omega) with ⟨u, hrest, hu, hphase''⟩
    exact ⟨u, hrun.trans hrest, hu, hphase''⟩

lemma UsesOnly.keep {t : Exchange} (h : UsesOnly base c id n d s) (hstep : t.InStep base c)
    (hfailed : t.failed = s.failed) (hissued : t.issued = s.issued)
    (hdelivered : t.delivered = s.delivered) : UsesOnly base c id n d t where
  inStep := hstep
  failed := hfailed.trans h.failed
  issued := by rw [hissued, h.issued]
  delivered := by rw [hdelivered, h.delivered]
  others := by
    rw [hissued]
    exact h.others

lemma UsesOnly.last (h : UsesOnly base c id n d s) (hphase : s.phase = .waiting call)
    (hring : call.ring = id) :
    call.last + 1 = n ∧ call.index = BitVec.ofNat 64 (waitIndex id call.last) := by
  have hwaits := h.inStep.call call (by rw [hphase]; rfl)
  rw [← hring]
  exact ⟨by rw [hwaits.last, hring, h.issued], hwaits.index⟩

/-- A call returns when an older completion left its index finished. -/
lemma UsesOnly.return {k : Nat} (h : UsesOnly base c id n d s) (hphase : s.phase = .waiting call)
    (hring : call.ring = id) (hk : k < d) (hkey : doneIndex id k = waitIndex id call.last) :
    ∃ t, Run step ok s t ∧ UsesOnly base c id n d t ∧ t.phase = .idle ∧
      ∃ event, ⟨id, call.last, d, event⟩ ∈ t.returns := by
  rcases (h.inStep.rings id).filed.marked k (by rw [h.delivered]; exact hk) with ⟨a, ha⟩
  have hfinished : ((s.controller.rings call.ring).events call.index).finished = true := by
    rw [doneKey, hkey, ← (h.last hphase hring).2, answers] at ha
    rw [hring]
    by_contra hnot
    rw [if_neg hnot] at ha
    cases ha
  have hs : s.step .look = some (s.returnFrom call) := by simp [step, hphase, hfinished]
  obtain ⟨event, hevent⟩ : ∃ event, ⟨call.ring, call.last, (s.delivered call.ring).length, event⟩ ∈
      (s.returnFrom call).returns := by
    simp [returnFrom]
  rw [hring, h.delivered] at hevent
  exact ⟨_, Run.single (a := .look) trivial hs, h.keep (h.inStep.lookStep hs) rfl rfl rfl, rfl,
    event, hevent⟩

/-- The rest of the blocks is completed, and the call returns. -/
lemma UsesOnly.finish (h : UsesOnly base c id n d s) (hphase : s.phase = .waiting call)
    (hring : call.ring = id) (hlt : d < n) (hfresh : FreshKey id call.last)
    (hown : doneIndex id call.last = waitIndex id call.last) :
    ∃ t, Run step ok s t ∧ UsesOnly base c id n n t ∧ t.phase = .idle := by
  have hlast := (h.last hphase hring).1
  have hnot : ¬ ((s.controller.rings call.ring).events call.index).finished = true := by
    intro hfinished
    have hown := h.inStep.own (by rw [hphase]; rfl) (hring.symm ▸ hfresh) hfinished
    have hseen := (List.getElem?_eq_some_iff.1 hown).1
    rw [hring, h.delivered] at hseen
    omega
  have hlook : s.step .look = some { s with phase := .handling call } := by
    simp only [step, hphase, hnot]
    rfl
  have hs₁ := h.keep (h.inStep.lookStep hlook) rfl rfl rfl
  rcases hs₁.deliverAll rfl (Nat.add_sub_cancel' (Nat.le_of_lt hlt)) with ⟨t, hrun, ht, hphase'⟩
  have hleave : t.step .leave = some { t with phase := .waiting call } := by
    simp only [step, hphase']
  have ht₁ := ht.keep (ht.inStep.leaveStep hleave) rfl rfl rfl
  rcases ht₁.return rfl hring (by omega) hown with ⟨u, hreturn, hu, hidle, _⟩
  have hhandled : Run step ok s t := (Run.single (a := .look) trivial hlook).trans hrun
  have hleft : Run step ok s { t with phase := .waiting call } :=
    Run.tail (a := .leave) hhandled trivial hleave
  exact ⟨u, hleft.trans hreturn, hu, hidle⟩

/-! ### Calls -/

/-- An idle driver issues one more command. -/
lemma UsesOnly.sendCommand (h : UsesOnly base c .command n d s) (hidle : s.phase = .idle) :
    ∃ t call, Run step ok s t ∧ UsesOnly base c .command (n + 1) d t ∧ t.phase = .waiting call ∧
      call.ring = .command := by
  obtain ⟨t, call, hs, hphase, hring, hfailed, hissued, hdelivered, hothers⟩ :
      ∃ t call, s.step (.sendCommand blankTrb) = some t ∧ t.phase = .waiting call ∧
        call.ring = .command ∧ t.failed = s.failed ∧
        (t.issued .command).length = (s.issued .command).length + 1 ∧ t.delivered = s.delivered ∧
        ∀ other, other ≠ .command → t.issued other = s.issued other := by
    simp +contextual [step, hidle, place]
  refine ⟨t, call, Run.single (a := .sendCommand blankTrb) trivial hs,
    ⟨h.inStep.sendCommandStep hs, hfailed.trans h.failed, by rw [hissued, h.issued],
      by rw [hdelivered, h.delivered], fun other hother => ?_⟩, hphase, hring⟩
  rw [hothers other hother, h.others other hother]

/-- A transfer is sent and waits. -/
lemma UsesOnly.sendControl {packet : Packet} {dma : Option (BitVec 64)}
    (h : UsesOnly base c (.port p) n d s) (hidle : s.phase = .idle) (hp : c.Registered p)
    (halloc : Allocated packet dma) :
    ∃ t call, Run step ok s t ∧
      UsesOnly base c (.port p) (n + controlBlocks packet dma) d t ∧ t.phase = .waiting call ∧
      call.ring = .port p := by
  have hok : s.ok (.sendControl p packet false dma) := h.inStep.registered_of.2 hp
  obtain ⟨t, hs⟩ : ∃ t, s.step (.sendControl p packet false dma) = some t := by
    simp only [step, hidle]
    split <;> exact ⟨_, rfl⟩
  rcases h.inStep.sendControl_cases hp hs with
    ⟨_, u, hu, hdelivered, hreturns, hfailed, _, hlength, hothers, ht⟩
  simp only [halloc, if_true] at ht
  refine ⟨t, _, Run.single hok hs, ⟨h.inStep.step hok hs, ?_, ?_, ?_, ?_⟩, by rw [ht], rfl⟩
  · rw [ht]
    exact hfailed.trans h.failed
  · rw [ht]
    exact hlength.trans (by rw [h.issued])
  · rw [ht]
    exact (congrArg (fun f => (f (RingId.port p)).length) hdelivered).trans h.delivered
  · intro other hother
    rw [ht]
    exact (hothers other hother).trans (h.others other hother)

lemma UsesOnly.not_right {k : Nat} (h : UsesOnly base c id n d s) (hphase : s.phase = .waiting call)
    (hring : call.ring = id) (hlt : d < n) (hk : k < d)
    (hkey : doneIndex id k = waitIndex id call.last) :
    ∃ t, Run step ok s t ∧ UsesOnly base c id n d t ∧ ¬ t.Right := by
  have hlast := (h.last hphase hring).1
  rcases h.return hphase hring hk hkey with ⟨t, hrun, ht, _, event, hevent⟩
  refine ⟨t, hrun, ht, fun hright => ?_⟩
  have hseen : call.last < d := (hright _ hevent).1
  omega

end Only

section Laps

variable (base : RingId → BitVec 64) (slotId : Nat → BitVec 8) (portBySlotId : BitVec 8 → Option Nat)

lemma usesOnly_start (id : RingId) :
    UsesOnly base (.new base slotId portBySlotId) id 0 0 (start (.new base slotId portBySlotId)) :=
  ⟨inStep_start base slotId portBySlotId, rfl, rfl, rfl, fun _ _ => rfl⟩

/-- Up to 4095 commands are issued and answered in turn. -/
lemma exists_commands :
    ∀ n, n ≤ 4095 → ∃ t, Run step ok (start (.new base slotId portBySlotId)) t ∧
      UsesOnly base (.new base slotId portBySlotId) .command n n t ∧ t.phase = .idle := by
  intro n
  induction n with
  | zero =>
    intro _
    exact ⟨_, Run.refl _, usesOnly_start base slotId portBySlotId .command, rfl⟩
  | succ n ih =>
    intro hn
    rcases ih (Nat.le_of_succ_le hn) with ⟨s, hrun, hs, hidle⟩
    rcases hs.sendCommand hidle with ⟨t, call, hsent, ht, hphase, hring⟩
    have hlast := (ht.last hphase hring).1
    have hfresh : FreshKey .command call.last := by
      simp only [FreshKey]
      omega
    rcases ht.finish hphase hring (Nat.lt_succ_self n) hfresh rfl with ⟨u, hdone, hu, hidle'⟩
    exact ⟨u, (hrun.trans hsent).trans hdone, hu, hidle'⟩

lemma exists_staleCommand :
    ∃ t, Run step ok (start (.new base slotId portBySlotId)) t ∧
      UsesOnly base (.new base slotId portBySlotId) .command 4096 4095 t ∧ ¬ t.Right := by
  rcases exists_commands base slotId portBySlotId 4095 (Nat.le_refl _) with ⟨s, hrun, hs, hidle⟩
  rcases hs.sendCommand hidle with ⟨t, call, hsent, ht, hphase, hring⟩
  have hlast : call.last = 4095 := Nat.succ.inj (ht.last hphase hring).1
  have hkey : doneIndex .command 0 = waitIndex .command call.last := by
    rw [hlast]
    rfl
  rcases ht.not_right hphase hring (by decide) (by decide) hkey with ⟨u, hreturn, hu, hnot⟩
  exact ⟨u, (hrun.trans hsent).trans hreturn, hu, hnot⟩

variable {p : Nat} (hp : (Controller.new base slotId portBySlotId).Registered p)

include hp

/-- Transfers without data have two blocks, those with data three; the block at index 254 must not be
the last one of a call. -/
lemma exists_blocks :
    ∀ n, n ≤ 4094 → n ≠ 1 → n ≠ 255 → ∃ t, Run step ok (start (.new base slotId portBySlotId)) t ∧
      UsesOnly base (.new base slotId portBySlotId) (.port p) n n t ∧ t.phase = .idle := by
  intro n
  induction n using Nat.strongRecOn with
  | ind n ih =>
    intro hn hone hskip
    by_cases hzero : n = 0
    · subst hzero
      exact ⟨_, Run.refl _, usesOnly_start base slotId portBySlotId (.port p), rfl⟩
    obtain ⟨packet, dma, halloc, m, hsum, hone', hskip', hpos⟩ :
        ∃ packet dma, Allocated packet dma ∧ ∃ m, m + controlBlocks packet dma = n ∧ m ≠ 1 ∧
          m ≠ 255 ∧ 0 < controlBlocks packet dma := by
      by_cases hback : n - 2 ≠ 1 ∧ n - 2 ≠ 255
      · exact ⟨⟨0, 0, 0, 0, 0⟩, none, .inl rfl, n - 2, Nat.sub_add_cancel (by omega), hback.1,
          hback.2, by decide⟩
      · exact ⟨⟨0, 0, 0, 0, 1⟩, some 0, .inr rfl, n - 3, Nat.sub_add_cancel (by omega), by omega,
          by omega, by decide⟩
    rcases ih m (by omega) (by omega) hone' hskip' with ⟨s, hrun, hs, hidle⟩
    rcases hs.sendControl hidle hp halloc with ⟨t, call, hsent, ht, hphase, hring⟩
    rw [hsum] at ht
    have hlast := (ht.last hphase hring).1
    have hfresh : FreshKey (.port p) call.last := by
      simp only [FreshKey]
      omega
    have hown : doneIndex (.port p) call.last = waitIndex (.port p) call.last := by
      simp only [doneIndex, waitIndex]
      rw [Nat.mod_eq_of_lt (show call.last < 4095 by omega),
        Nat.mod_eq_of_lt (show call.last + 1 < 4095 by omega), if_neg (by omega)]
    rcases ht.finish hphase hring (by omega) hfresh hown with ⟨u, hdone, hu, hidle'⟩
    exact ⟨u, (hrun.trans hsent).trans hdone, hu, hidle'⟩

/-- A run in which a transfer returns with a stale completion. -/
lemma exists_staleTransfer :
    ∃ t, Run step ok (start (.new base slotId portBySlotId)) t ∧
      UsesOnly base (.new base slotId portBySlotId) (.port p) 4095 4093 t ∧ ¬ t.Right := by
  rcases exists_blocks base slotId portBySlotId hp 4093 (by decide) (by decide) (by decide) with
    ⟨s, hrun, hs, hidle⟩
  have halloc : Allocated ⟨0, 0, 0, 0, 0⟩ none := .inl rfl
  rcases hs.sendControl hidle hp halloc with ⟨t, call, hsent, ht, hphase, hring⟩
  have hlast : call.last = 4094 := Nat.succ.inj (ht.last hphase hring).1
  have hkey : doneIndex (.port p) 254 = waitIndex (.port p) call.last := by
    rw [hlast]
    rfl
  rcases ht.not_right hphase hring (by decide) (by decide) hkey with ⟨u, hreturn, hu, hnot⟩
  exact ⟨u, (hrun.trans hsent).trans hreturn, hu, hnot⟩

/-- A run in which a transfer fails at once, which is not right. -/
lemma exists_failedTransfer (commands : Nat) {blocks : Nat} (hblocks : 0 < blocks) :
    ∃ t, Run step ok (start (.new base slotId portBySlotId)) t ∧
      t.Within commands blocks true ∧ ¬ t.Right := by
  have hstart := inStep_start base slotId portBySlotId
  obtain ⟨t, hs⟩ : ∃ t, (start (.new base slotId portBySlotId)).step
      (.sendControl p ⟨0, 0, 0, 0, 1⟩ false none) = some t := by
    simp only [step, start]
    split <;> exact ⟨_, rfl⟩
  rcases hstart.sendControl_cases hp hs with ⟨_, u, _, _, _, _, _, hlength, hothers, ht⟩
  have halloc : ¬ Allocated ⟨0, 0, 0, 0, 1⟩ none := by decide
  simp only [halloc, if_false] at ht
  have hissued : t.issued = u.issued := by rw [ht]
  refine ⟨t, Run.single (a := .sendControl p ⟨0, 0, 0, 0, 1⟩ false none) hp hs, ⟨?_, ?_, ?_⟩, ?_⟩
  · rw [hissued, hothers .command (by simp)]
    exact Nat.zero_le _
  · intro q
    by_cases hq : q = p
    · rw [hissued, hq, hlength]
      exact hblocks
    · rw [hissued, hothers (.port q) (by simpa using hq)]
      exact Nat.zero_le _
  · exact fun _ => rfl
  · intro hright
    have hseen := (hright _ (by rw [ht]; exact List.mem_append_right _ (List.mem_singleton.2 rfl))).1
    exact Nat.not_lt_zero _ hseen

end Laps

end Exchange

/-- With at most `commands` commands and `blocks` blocks on each port, each call returns on its own
event exactly if the commands are at most 4095, the blocks at most 4094, and no allocation fails
while there is a block. -/
theorem completions_right_iff (base : RingId → BitVec 64) (slotId : Nat → BitVec 8)
    (portBySlotId : BitVec 8 → Option Nat) (p : Nat)
    (hp : (Controller.new base slotId portBySlotId).Registered p) (commands blocks : Nat)
    (failures : Bool) :
    (∀ t, Run Exchange.step Exchange.ok (.start (.new base slotId portBySlotId)) t →
      t.Within commands blocks failures → t.Right) ↔
      commands ≤ 4095 ∧ blocks ≤ 4094 ∧ (failures = true → blocks = 0) := by
  constructor
  · intro hall
    refine ⟨?_, ?_, ?_⟩
    · by_contra hmany
      rcases Exchange.exists_staleCommand base slotId portBySlotId with ⟨t, hrun, ht, hnot⟩
      exact hnot (hall t hrun (ht.within (fun _ => by omega) fun q hq => by cases hq))
    · by_contra hmany
      rcases Exchange.exists_staleTransfer base slotId portBySlotId hp with ⟨t, hrun, ht, hnot⟩
      exact hnot (hall t hrun (ht.within (fun hid => by cases hid) fun _ _ => by omega))
    · intro hfailures
      by_contra hsome
      rcases Exchange.exists_failedTransfer base slotId portBySlotId hp commands
        (Nat.pos_of_ne_zero hsome) with ⟨t, hrun, ht, hnot⟩
      exact hnot (hall t hrun (hfailures ▸ ht))
  · rintro ⟨hcommands, hblocks, hfailures⟩ t hrun hin
    have hright : Exchange.Right (.start (.new base slotId portBySlotId)) := by
      intro r hr
      cases hr
    exact hright.run hrun (Exchange.inStep_start base slotId portBySlotId) hin hcommands hblocks
      hfailures

theorem completions_right_sample :
    let base : RingId → BitVec 64 := fun id => if id = .command then 0x100000#64 else 0x200000#64
    let portBySlotId : BitVec 8 → Option Nat := fun slot => if slot = 1#8 then some 0 else none
    ∀ t, Run Exchange.step Exchange.ok (.start (.new base (fun _ => 1#8) portBySlotId)) t →
      t.Within 100 1000 false → t.Right := by
  intro base portBySlotId
  exact (completions_right_iff base (fun _ => 1#8) portBySlotId 0 rfl 100 1000 false).2 (by decide)

/-- Without a failure, and with the ports' rings unused: the 4096th command. -/
theorem completions_not_right :
    ¬ ∀ (base : RingId → BitVec 64) (slotId : Nat → BitVec 8) (portBySlotId : BitVec 8 → Option Nat)
      (t : Exchange), Run Exchange.step Exchange.ok (.start (.new base slotId portBySlotId)) t →
        t.failed = false → t.Right := by
  intro hclaim
  rcases Exchange.exists_staleCommand (fun _ => 0x100000#64) (fun _ => 0#8) (fun _ => none) with
    ⟨t, hrun, ht, hnot⟩
  exact hnot (hclaim _ _ _ t hrun ht.failed)

end SigmaOS.Drivers.Xhci
