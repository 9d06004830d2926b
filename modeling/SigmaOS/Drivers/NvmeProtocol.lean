import SigmaOS.Drivers.Nvme

/-!
# Drivers.NvmeProtocol — the queues of driver and controller in step

Driver and controller each count the entries of a queue on their own.  They agree as long as both go
back to 0 at the same entry and the driver inverts its phase there (`Sync`): with the same size on
both sides, and with fewer than 65536 entries, as a 16-bit head never equals 65536.  The result of a
call then is that of its completion, unless a failure has the code 0 of another type (`Plain`).
-/

namespace SigmaOS.Drivers.Nvme

open Lib List

/-- The sizes that are possible: `nEntries` for the driver and `size` for the controller. -/
structure Sizes (nEntries size : Nat) : Prop where
  two : 2 ≤ nEntries
  max : nEntries ≤ 65536
  pos : 0 < size
  le : size ≤ nEntries

section Indices

variable {n size k : Nat} {i : BitVec 16}

lemma wraps_iff (h : Sizes n size) (hi : i.toNat = k % n) :
    (i + 1#16).toNat = n ↔ n < 65536 ∧ k % n + 1 = n := by
  have htwo := h.two
  rw [BitVec.toNat_add, hi]
  change (k % n + 1) % 65536 = n ↔ _
  omega

/-- Advancing an index counts modulo the queue's size. -/
lemma advance_toNat (h : Sizes n size) (hi : i.toNat = k % n) :
    (advance n i).toNat = (k + 1) % n := by
  have htwo := h.two
  have hmax := h.max
  have hlt := Nat.mod_lt k (show 0 < n by omega)
  have hsum : (i + 1#16).toNat = (k % n + 1) % 65536 := by
    rw [BitVec.toNat_add, hi]
    rfl
  have hwraps := wraps_iff h hi
  rw [mod_succ (by omega), nextIndex, advance]
  by_cases hend : k % n + 1 = n
  · split
    · rfl
    · next hnot =>
      omega
  · rw [if_neg hend, if_neg fun heq => hend (hwraps.1 heq).2, hsum]
    omega

/-- The phase the driver expects after `k` results: with 65536 entries it is never inverted. -/
def driverPhase (n k : Nat) : Bool :=
  if n < 65536 then lapPhase n k else true

lemma driverPhase_succ (h : Sizes n size) (hi : i.toNat = k % n) :
    driverPhase n (k + 1) =
      if (i + 1#16).toNat = n then !driverPhase n k else driverPhase n k := by
  have htwo := h.two
  have hwraps := wraps_iff h hi
  by_cases hn : n < 65536
  · simp only [driverPhase, hn, if_true, lapPhase_succ (show 0 < n by omega), hwraps, true_and]
  · have hnot : (i + 1#16).toNat ≠ n := fun heq => hn (hwraps.1 heq).1
    simp only [driverPhase, hn, if_false, if_neg hnot]

end Indices

/-- The code alone tells whether the command was successful. -/
def Status.Plain (status : Status) : Prop :=
  status.code = 0#8 → status.codeType = 0#3

lemma Status.Plain.success_eq {status : Status} (h : status.Plain) :
    decide (status.code = 0#8) = status.success := by
  by_cases hcode : status.code = 0#8
  · simp [success, hcode, h hcode]
  · simp [success, hcode]

/-! ## How far the two sides agree -/

/-- `N` commands fit: fewer than the controller has entries, or any number if the sizes agree, but at
most one lap of a queue with 65536 entries. -/
def Fits (n size N : Nat) : Prop :=
  N < size ∨ (size = n ∧ (n < 65536 ∨ N ≤ n))

section Agree

variable {n size N k : Nat}

lemma Fits.mono (h : Fits n size N) (hk : k ≤ N) : Fits n size k := by
  unfold Fits at *
  omega

section

variable (h : Fits n size N) (hsizes : Sizes n size)
include h hsizes

lemma Fits.mod_eq (hk : k ≤ N) : k % n = k % size := by
  have hle := hsizes.le
  rcases h with hlt | ⟨rfl, _⟩
  · rw [Nat.mod_eq_of_lt (show k < n by omega), Nat.mod_eq_of_lt (show k < size by omega)]
  · rfl

lemma Fits.phase_eq (hk : k < N) : driverPhase n k = lapPhase size k := by
  have hle := hsizes.le
  unfold driverPhase
  rcases h with hlt | ⟨rfl, hn⟩
  · rw [lapPhase_first (show k < size by omega)]
    split
    · exact lapPhase_first (by omega)
    · rfl
  · split
    · rfl
    · exact (lapPhase_first (by omega)).symm

lemma Fits.size_two (hN : 0 < N) : 2 ≤ size := by
  have htwo := hsizes.two
  unfold Fits at h
  omega

end

end Agree

namespace Link

variable {β : Type}

/-- What has passed: results after completions after fetches after commands, one call at a time. -/
structure Ordered (s : Link β) : Prop where
  returnedLe : s.returned.length ≤ s.posted.length
  postedLe : s.posted.length ≤ s.fetched.length
  fetchedLe : s.fetched.length ≤ s.sent.length
  oneCall : s.sent.length = s.returned.length + if s.waiting then 1 else 0
  inOrder : s.fetched <+: s.sent
  answered : s.returned <+: s.posted.map fun status => decide (status.code = 0#8)

structure DriverAt (n : Nat) (s : Link β) : Prop where
  entries : s.pair.nEntries = n
  tail : s.pair.submissionTail.toNat = s.sent.length % n
  head : s.pair.completionHead.toNat = s.returned.length % n
  expected : s.pair.expectedPhase = driverPhase n s.returned.length

/-- The controller's indices and phase are those of its counts, and it has seen the doorbells. -/
structure ControllerAt (size : Nat) (s : Link β) : Prop where
  entries : s.controller.size = size
  seenTail : s.controller.submissionTail = s.sent.length % size
  fetchHead : s.controller.submissionHead = s.fetched.length % size
  seenHead : s.controller.completionHead = s.returned.length % size
  postTail : s.controller.completionTail = s.posted.length % size
  phase : s.controller.phase = lapPhase size s.posted.length

structure Sync (n size : Nat) (s : Link β) : Prop where
  ordered : s.Ordered
  driver : s.DriverAt n
  controller : s.ControllerAt size
  written : Written size s.posted s.pair.completionQueue
  pending : ∀ cmd, s.sent[s.fetched.length]? = some cmd →
    s.pair.submissionQueue (s.fetched.length % size) = cmd

lemma sync_start [Inhabited β] (n size : Nat) : (start n size : Link β).Sync n size where
  ordered := ⟨Nat.le_refl 0, Nat.le_refl 0, Nat.le_refl 0, rfl, nil_prefix, nil_prefix⟩
  driver := by
    refine ⟨rfl, (Nat.zero_mod n).symm, (Nat.zero_mod n).symm, ?_⟩
    simp [start, QueuePair.new, driverPhase, lapPhase]
  controller := by
    refine ⟨rfl, (Nat.zero_mod size).symm, (Nat.zero_mod size).symm, (Nat.zero_mod size).symm,
      (Nat.zero_mod size).symm, ?_⟩
    simp [start, Controller.new, lapPhase]
  written := Written.nil fun _ => rfl
  pending := fun cmd hcmd => absurd hcmd (by simp [start])

section Steps

variable {n size : Nat} {s s' : Link β}

lemma Ordered.at_rest (h : s.Ordered) (hrest : s.waiting = false) :
    s.returned.length = s.sent.length ∧ s.posted.length = s.sent.length ∧
      s.fetched.length = s.sent.length := by
  have hcall := h.oneCall
  have hrp := h.returnedLe
  have hpf := h.postedLe
  have hfs := h.fetchedLe
  simp only [hrest, Bool.false_eq_true, if_false] at hcall
  omega

lemma Ordered.sent_le (h : s.Ordered) : s.sent.length ≤ s.returned.length + 1 := by
  have hcall := h.oneCall
  split at hcall <;> omega

section

variable (h : s.Sync n size) (hsizes : Sizes n size)
include h hsizes

lemma Sync.doorbell {N k : Nat} {i : BitVec 16} (hfits : Fits n size N) (hi : i.toNat = k % n)
    (hk : k + 1 ≤ N) :
    (advance s.pair.nEntries i).toNat = (k + 1) % n ∧ (k + 1) % n = (k + 1) % size ∧
      (advance s.pair.nEntries i).toNat < s.controller.size := by
  have hadvance : (advance s.pair.nEntries i).toNat = (k + 1) % n := by
    rw [h.driver.entries]
    exact advance_toNat hsizes hi
  have hmod := hfits.mod_eq hsizes hk
  refine ⟨hadvance, hmod, ?_⟩
  rw [hadvance, hmod, h.controller.entries]
  exact Nat.mod_lt _ hsizes.pos

/-- The driver puts a command into the next slot. -/
lemma Sync.send {body : β} (hfits : Fits n size (s.sent.length + 1))
    (hs : s.step (.send body) = some s') : s'.Sync n size := by
  have htail := h.driver.tail
  have hmod' := hfits.mod_eq hsizes (Nat.le_succ s.sent.length)
  cases hwait : s.waiting with
  | true => simp [step, hwait] at hs
  | false =>
    rcases h.ordered.at_rest hwait with ⟨hr, hp, hf⟩
    rcases h.doorbell hsizes hfits htail (Nat.le_refl _) with ⟨hadvance, hmod, hinside⟩
    have hring : s.controller.ringSubmission (advance s.pair.nEntries s.pair.submissionTail) =
        { s.controller with
          submissionTail := (advance s.pair.nEntries s.pair.submissionTail).toNat } :=
      if_pos hinside
    simp only [step, hwait, Bool.false_eq_true, if_false, QueuePair.sendCommand, hring,
      Option.some.injEq] at hs
    subst hs
    refine ⟨⟨h.ordered.returnedLe, h.ordered.postedLe, ?_, ?_, ?_, h.ordered.answered⟩,
      ⟨h.driver.entries, ?_, h.driver.head, h.driver.expected⟩,
      { h.controller with seenTail := ?_ }, h.written, ?_⟩
    · simp [hf]
    · simp [hr]
    · exact h.ordered.inOrder.trans (prefix_append _ _)
    · simpa using hadvance
    · simpa [hmod] using hadvance
    · intro cmd hcmd
      -- the command that was just sent is in the slot that is fetched next
      have hslot : s.fetched.length % size = s.pair.submissionTail.toNat := by rw [htail, hf, hmod']
      simp only [hf, List.getElem?_concat_length, Option.some.injEq] at hcmd
      simp only [hslot, Function.update_self]
      exact hcmd

/-- The controller is idle iff it fetched every command sent. -/
lemma Sync.idle_iff (hfits : Fits n size s.sent.length) :
    s.controller.Idle ↔ s.fetched.length = s.sent.length := by
  have hle := h.ordered.fetchedLe
  have hone := h.ordered.sent_le
  have hrp := h.ordered.returnedLe
  have hpf := h.ordered.postedLe
  rw [Controller.Idle, h.controller.fetchHead, h.controller.seenTail]
  constructor
  · intro hmod
    by_contra hne
    -- one command is open, and the index has moved on for it
    have hnext : s.sent.length = s.fetched.length + 1 := by omega
    rw [hnext, mod_succ hsizes.pos] at hmod
    exact nextIndex_ne (hfits.size_two hsizes (by omega)) hmod.symm
  · intro heq
    rw [heq]

/-- The controller takes the oldest command. -/
lemma Sync.fetch (hfits : Fits n size s.sent.length) (hs : s.step .fetch = some s') :
    s'.Sync n size := by
  have hone := h.ordered.sent_le
  have hrp := h.ordered.returnedLe
  have hpf := h.ordered.postedLe
  have hle := h.ordered.fetchedLe
  have hidle := h.idle_iff hsizes hfits
  by_cases hi : s.controller.Idle
  · simp [step, hi] at hs
  · simp only [step, hi, if_false, Option.some.injEq] at hs
    subst hs
    have hne : s.fetched.length ≠ s.sent.length := fun heq => hi (hidle.2 heq)
    have hlt : s.fetched.length < s.sent.length := Nat.lt_of_le_of_ne hle hne
    have hnext := h.pending _ (List.getElem?_eq_getElem hlt)
    refine ⟨⟨hrp, ?_, ?_, h.ordered.oneCall, ?_, h.ordered.answered⟩,
      ⟨h.driver.entries, h.driver.tail, h.driver.head, h.driver.expected⟩,
      { h.controller with fetchHead := ?_ }, h.written, ?_⟩
    · simp
      omega
    · simpa using Nat.succ_le_of_lt hlt
    · rw [h.controller.fetchHead, hnext]
      exact snoc_isPrefix h.ordered.inOrder (List.getElem?_eq_getElem hlt)
    · simp only [Controller.fetch, h.controller.entries, h.controller.fetchHead,
        length_append, length_singleton]
      exact (mod_succ hsizes.pos).symm
    · intro cmd hcmd
      -- nothing is left to fetch
      have hin := (List.getElem?_eq_some_iff.1 hcmd).1
      simp only [length_append, length_singleton] at hin
      omega

/-- The controller posts the completion of the command in hand. -/
lemma Sync.post {status : Status} (hs : s.step (.post status) = some s') : s'.Sync n size := by
  by_cases hready : s.posted.length < s.fetched.length ∧ ¬ s.controller.Full
  · simp only [step, hready, not_false_eq_true, and_self, if_true, Option.some.injEq] at hs
    subst hs
    have hslot := h.controller.postTail
    have hphase := h.controller.phase
    refine ⟨⟨?_, ?_, h.ordered.fetchedLe, h.ordered.oneCall, h.ordered.inOrder, ?_⟩,
      ⟨h.driver.entries, h.driver.tail, h.driver.head, h.driver.expected⟩,
      { h.controller with postTail := ?_, phase := ?_ }, ?_, h.pending⟩
    · have hle := h.ordered.returnedLe
      simp
      omega
    · simpa using Nat.succ_le_of_lt hready.1
    · rw [map_append]
      exact h.ordered.answered.trans (prefix_append _ _)
    · simp only [Controller.post, h.controller.entries, hslot, length_append,
        length_singleton]
      exact (mod_succ hsizes.pos).symm
    · simp only [Controller.post, h.controller.entries, hslot, hphase, length_append,
        length_singleton]
      exact (lapPhase_succ hsizes.pos).symm
    · have hwritten := h.written.post status
      rwa [← hslot, ← hphase] at hwritten
  · simp [step, hready] at hs

/-- The phase the driver polls for is there iff a completion is unread. -/
lemma Sync.poll_eq (hfits : Fits n size s.sent.length) (hwait : s.waiting = true) :
    (s.pair.completionQueue s.pair.completionHead.toNat).1 = s.pair.expectedPhase ↔
      s.returned.length < s.posted.length := by
  have hcall := h.ordered.oneCall
  simp only [hwait, if_true] at hcall
  have hlt : s.returned.length < s.sent.length := by omega
  rw [h.driver.head, h.driver.expected, hfits.mod_eq hsizes (Nat.le_of_lt hlt),
    hfits.phase_eq hsizes hlt]
  have hpf := h.ordered.postedLe
  have hfs := h.ordered.fetchedLe
  have hpos := hsizes.pos
  exact h.written.ready_iff hpos h.ordered.returnedLe (by omega)

lemma Sync.poll_entry (hfits : Fits n size s.sent.length)
    (hlt : s.returned.length < s.sent.length) (hready : s.returned.length < s.posted.length) :
    s.pair.completionQueue s.pair.completionHead.toNat =
      (lapPhase size s.returned.length, s.posted.get ⟨s.returned.length, hready⟩) := by
  have hone := h.ordered.sent_le
  have hpf := h.ordered.postedLe
  have hfs := h.ordered.fetchedLe
  have hpos := hsizes.pos
  rw [h.driver.head, hfits.mod_eq hsizes (Nat.le_of_lt hlt)]
  exact h.written.kept _ _ (List.getElem?_eq_getElem hready) (by omega)

/-- The driver takes a completion of the phase it expects. -/
lemma Sync.poll (hfits : Fits n size s.sent.length) (hs : s.step .poll = some s') :
    s'.Sync n size := by
  cases hwait : s.waiting with
  | false => simp [step, hwait] at hs
  | true =>
    have hcall := h.ordered.oneCall
    simp only [hwait, if_true] at hcall
    have hfound := h.poll_eq hsizes hfits hwait
    by_cases hready : s.returned.length < s.posted.length
    · have hlt : s.returned.length < s.sent.length := by omega
      have hhead := h.driver.head
      have hentry := h.poll_entry hsizes hfits hlt hready
      rcases h.doorbell hsizes hfits hhead (Nat.succ_le_of_lt hlt) with ⟨hadvance, hmod, hinside⟩
      have hring : s.controller.ringCompletion (advance s.pair.nEntries s.pair.completionHead) =
          { s.controller with
            completionHead := (advance s.pair.nEntries s.pair.completionHead).toNat } :=
        if_pos hinside
      simp only [step, hwait, if_true, QueuePair.poll, hfound.2 hready, hring,
        Option.some.injEq] at hs
      subst hs
      refine ⟨⟨?_, h.ordered.postedLe, h.ordered.fetchedLe, ?_, h.ordered.inOrder, ?_⟩,
        ⟨h.driver.entries, h.driver.tail, ?_, ?_⟩, { h.controller with seenHead := ?_ }, h.written,
        h.pending⟩
      · simpa using Nat.succ_le_of_lt hready
      · simpa using hcall
      · refine snoc_isPrefix h.ordered.answered ?_
        simp [hentry, List.getElem?_eq_getElem hready]
      · simpa using hadvance
      · simp only [length_append, length_singleton, driverPhase_succ hsizes hhead,
          h.driver.entries, h.driver.expected]
      · simpa [hmod] using hadvance
    · have hnone : s.pair.poll = none := by
        rw [QueuePair.poll, if_neg fun heq => hready (hfound.1 heq)]
      have hsame : s = s' := by simpa [step, hwait, hnone] using hs
      exact hsame ▸ h

end

/-- What a step adds to the commands sent and to the completions posted. -/
lemma step_grows {op : Op β} (hs : s.step op = some s') :
    s.sent.length ≤ s'.sent.length ∧
      (s'.posted = s.posted ∨ ∃ status, op = .post status ∧ s'.posted = s.posted ++ [status]) := by
  cases op with
  | send body =>
    simp only [step] at hs
    split at hs
    · cases hs
    · cases hs
      exact ⟨by simp, .inl rfl⟩
  | fetch =>
    simp only [step] at hs
    split at hs
    · cases hs
    · cases hs
      exact ⟨Nat.le_refl _, .inl rfl⟩
  | post status =>
    simp only [step] at hs
    split at hs
    · cases hs
      exact ⟨Nat.le_refl _, .inr ⟨status, rfl, rfl⟩⟩
    · cases hs
  | poll =>
    simp only [step] at hs
    split at hs
    · split at hs
      · cases hs
        exact ⟨Nat.le_refl _, .inl rfl⟩
      · cases hs
        exact ⟨Nat.le_refl _, .inl rfl⟩
    · cases hs

/-- One step of driver or controller keeps the two in sync. -/
lemma Sync.step (h : s.Sync n size) (hsizes : Sizes n size) {op : Op β} (hs : s.step op = some s')
    (hfits : Fits n size s'.sent.length) : s'.Sync n size := by
  have hold := hfits.mono (step_grows hs).1
  cases op with
  | send body =>
    refine h.send hsizes ?_ hs
    cases hwait : s.waiting with
    | true => simp [Link.step, hwait] at hs
    | false =>
      simp only [Link.step, hwait, Bool.false_eq_true, if_false, Option.some.injEq] at hs
      subst hs
      simpa using hfits
  | fetch => exact h.fetch hsizes hold hs
  | post status => exact h.post hsizes hs
  | poll => exact h.poll hsizes hold hs

lemma Sync.right (h : s.Sync n size) (hsizes : Sizes n size) (hfits : Fits n size s.sent.length)
    (hplain : ∀ status ∈ s.posted, status.Plain) : s.Right where
  inOrder := h.ordered.inOrder
  complete := fun hidle =>
    h.ordered.inOrder.eq_of_length ((h.idle_iff hsizes hfits).1 hidle)
  answered := by
    have hanswered := h.ordered.answered
    rwa [map_congr_left fun status hin => (hplain status hin).success_eq] at hanswered

end Steps

/-! ## Runs -/

def Reaches (kind : Status → Prop) (s t : Link β) : Prop :=
  Run step (fun _ op => op.Posts kind) s t

section Runs

variable {n size : Nat} {s t : Link β} {kind : Status → Prop}

lemma Reaches.sync (hrun : Reaches kind s t) (h : s.Sync n size) (hsizes : Sizes n size)
    (hfits : Fits n size t.sent.length) : t.Sync n size := by
  induction hrun with
  | refl => exact h
  | tail _ _ hs ih => exact (ih (hfits.mono (step_grows hs).1)).step hsizes hs hfits

lemma Reaches.posted (hrun : Reaches kind s t) (h : ∀ status ∈ s.posted, kind status) :
    ∀ status ∈ t.posted, kind status := by
  refine hrun.invariant (I := fun s => ∀ status ∈ s.posted, kind status) h ?_
  intro s op u hs hop hstep other hother
  rcases (step_grows hstep).2 with hsame | ⟨status, rfl, hposted⟩
  · exact hs other (hsame ▸ hother)
  · rw [hposted] at hother
    rcases mem_append.1 hother with hold | hnew
    · exact hs other hold
    · exact mem_singleton.1 hnew ▸ hop

/-- A whole call, from a state at rest, with any status that the controller may post. -/
lemma Sync.round [Inhabited β] {status : Status} (h : s.Sync n size) (hsizes : Sizes n size)
    (hrest : s.waiting = false) (hfits : Fits n size (s.sent.length + 1)) (hstatus : kind status) :
    ∃ t, Reaches kind s t ∧ t.Sync n size ∧ t.waiting = false ∧
      t.sent.length = s.sent.length + 1 ∧ t.posted = s.posted ++ [status] := by
  rcases h.ordered.at_rest hrest with ⟨hr, hp, hf⟩
  have htwo := hfits.size_two hsizes (Nat.succ_pos _)
  obtain ⟨s₁, hs₁, hsent₁, hfetched₁, hposted₁, hreturned₁, hwait₁⟩ :
      ∃ t, s.step (.send default) = some t ∧ t.sent.length = s.sent.length + 1 ∧
        t.fetched = s.fetched ∧ t.posted = s.posted ∧ t.returned = s.returned ∧
        t.waiting = true := by
    simp [Link.step, hrest]
  have hsync₁ := h.send hsizes hfits hs₁
  have hfits₁ : Fits n size s₁.sent.length := hsent₁ ▸ hfits
  have hbusy : ¬ s₁.controller.Idle := by
    rw [hsync₁.idle_iff hsizes hfits₁, hfetched₁, hsent₁]
    omega
  obtain ⟨s₂, hs₂, hsent₂, hfetched₂, hposted₂, hreturned₂, hwait₂⟩ :
      ∃ t, s₁.step .fetch = some t ∧ t.sent = s₁.sent ∧
        t.fetched.length = s₁.fetched.length + 1 ∧ t.posted = s₁.posted ∧
        t.returned = s₁.returned ∧ t.waiting = true := by
    simp [Link.step, hbusy, hwait₁]
  have hsync₂ := hsync₁.fetch hsizes hfits₁ hs₂
  have hroom : ¬ s₂.controller.Full := by
    rw [Controller.Full, hsync₂.controller.entries, hsync₂.controller.postTail,
      hsync₂.controller.seenHead, hposted₂, hposted₁, hreturned₂, hreturned₁, hp, hr]
    exact nextIndex_ne htwo
  have hready : s₂.posted.length < s₂.fetched.length := by
    rw [hposted₂, hposted₁, hfetched₂, hfetched₁]
    omega
  obtain ⟨s₃, hs₃, hsent₃, hposted₃, hreturned₃, hwait₃⟩ :
      ∃ t, s₂.step (.post status) = some t ∧ t.sent = s₂.sent ∧
        t.posted = s₂.posted ++ [status] ∧ t.returned = s₂.returned ∧ t.waiting = true := by
    simp [Link.step, hready, hroom, hwait₂]
  have hsync₃ := hsync₂.post hsizes hs₃
  have hfits₃ : Fits n size s₃.sent.length := by
    rw [hsent₃, hsent₂]
    exact hfits₁
  have hfound := (hsync₃.poll_eq hsizes hfits₃ hwait₃).2 (by
    rw [hreturned₃, hreturned₂, hreturned₁, hposted₃, hposted₂, hposted₁, length_append,
      length_singleton]
    omega)
  obtain ⟨s₄, hs₄, hsent₄, hposted₄, hwait₄⟩ :
      ∃ t, s₃.step .poll = some t ∧ t.sent = s₃.sent ∧ t.posted = s₃.posted ∧
        t.waiting = false := by
    simp [Link.step, hwait₃, QueuePair.poll, hfound]
  refine ⟨s₄, ?_, hsync₃.poll hsizes hfits₃ hs₄, hwait₄, ?_, ?_⟩
  · have hserved : Reaches kind s s₂ :=
      Run.tail (a := .fetch) (Run.single (a := .send default) trivial hs₁) trivial hs₂
    exact Run.tail (a := .poll) (Run.tail (a := .post status) hserved hstatus hs₃) trivial hs₄
  · rw [hsent₄, hsent₃, hsent₂, hsent₁]
  · rw [hposted₄, hposted₃, hposted₂, hposted₁]

lemma exists_rounds [Inhabited β] (hsizes : Sizes n size) (hkind : kind ⟨0#8, 0#3⟩) :
    ∀ k, Fits n size k → ∃ t : Link β, Reaches kind (start n size) t ∧ t.Sync n size ∧
      t.waiting = false ∧ t.sent.length = k := by
  intro k
  induction k with
  | zero =>
    intro _
    exact ⟨start n size, Run.refl _, sync_start n size, rfl, rfl⟩
  | succ k ih =>
    intro hfits
    rcases ih (hfits.mono (Nat.le_succ k)) with ⟨t, hrun, hsync, hrest, hlen⟩
    rcases hsync.round hsizes hrest (hlen ▸ hfits) hkind with ⟨u, hround, hsync', hrest', hlen', _⟩
    exact ⟨u, hrun.trans hround, hsync', hrest', by rw [hlen', hlen]⟩

/-- A failure with the code 0 of another type is taken for a success by the first call. -/
lemma exists_mistaken [Inhabited β] {status : Status} (hsizes : Sizes n size)
    (hfits : Fits n size 1) (hkind : kind status) (hplain : ¬ status.Plain) :
    ∃ t : Link β, Reaches kind (start n size) t ∧ t.sent.length = 1 ∧ ¬ t.Right := by
  rcases (sync_start (β := β) n size).round hsizes rfl hfits hkind with
    ⟨t, hrun, hsync, hrest, hlen, hposted⟩
  refine ⟨t, hrun, hlen, ?_⟩
  intro hright
  have hone : t.returned.length = 1 := by rw [(hsync.ordered.at_rest hrest).1, hlen]; rfl
  have hread : t.returned = [decide (status.code = 0#8)] := by
    have hanswered := hsync.ordered.answered
    rw [hposted] at hanswered
    exact hanswered.eq_of_length hone
  have hclaimed : t.returned = [status.success] := by
    have hanswered := hright.answered
    rw [hposted] at hanswered
    exact hanswered.eq_of_length hone
  refine hplain fun hcode => ?_
  have hsame : true = status.success := by simpa [hread, hcode] using hclaimed
  exact (of_decide_eq_true hsame.symm).2

/-- With a smaller queue for the controller, the doorbell value of command number `size` is outside
of it: the command is never fetched. -/
lemma exists_not_fetched [Inhabited β] (hsizes : Sizes n size) (hkind : kind ⟨0#8, 0#3⟩)
    (hlt : size < n) :
    ∃ t : Link β, Reaches kind (start n size) t ∧ t.sent.length = size ∧ ¬ t.Right := by
  have hpos := hsizes.pos
  rcases exists_rounds (β := β) hsizes hkind (size - 1) (.inl (by omega)) with
    ⟨s, hrun, hsync, hrest, hlen⟩
  rcases hsync.ordered.at_rest hrest with ⟨_, _, hf⟩
  have hadvance : (advance s.pair.nEntries s.pair.submissionTail).toNat = size := by
    rw [hsync.driver.entries, advance_toNat hsizes hsync.driver.tail, hlen,
      Nat.sub_add_cancel hpos, Nat.mod_eq_of_lt hlt]
  have hring : s.controller.ringSubmission (advance s.pair.nEntries s.pair.submissionTail) =
      s.controller := by
    refine if_neg ?_
    rw [hadvance, hsync.controller.entries]
    exact Nat.lt_irrefl size
  have hidle : s.controller.Idle :=
    (hsync.idle_iff hsizes (.inl (by omega))).2 hf
  obtain ⟨t, hs, hsent, hfetched, hcontroller⟩ :
      ∃ t, s.step (.send default) = some t ∧ t.sent.length = s.sent.length + 1 ∧
        t.fetched = s.fetched ∧ t.controller = s.controller := by
    simp [Link.step, hrest, QueuePair.sendCommand, hring]
  refine ⟨t, Run.tail (a := .send default) hrun trivial hs, by omega, ?_⟩
  intro hright
  have hall := congrArg List.length (hright.complete (hcontroller ▸ hidle))
  rw [hfetched, hsent] at hall
  omega

/-- After 65536 commands an entry of the lap before passes for a completion. -/
lemma exists_stale [Inhabited β] (hsizes : Sizes 65536 65536) (hkind : kind ⟨0#8, 0#3⟩) :
    ∃ t : Link β, Reaches kind (start 65536 65536) t ∧ t.sent.length = 65537 ∧ ¬ t.Right := by
  rcases exists_rounds (β := β) hsizes hkind 65536 (.inr ⟨rfl, .inr (Nat.le_refl _)⟩) with
    ⟨s, hrun, hsync, hrest, hlen⟩
  rcases hsync.ordered.at_rest hrest with ⟨hr, hp, _⟩
  -- slot 0 still has the phase of the first lap, and that is the phase that is expected
  have hfirst : (s.pair.completionQueue s.pair.completionHead.toNat).1 = s.pair.expectedPhase := by
    have hin : 0 < s.posted.length := by omega
    have hkept := hsync.written.kept 0 _ (List.getElem?_eq_getElem hin) (by omega)
    have hhead : s.pair.completionHead.toNat = 0 % 65536 := by rw [hsync.driver.head, hr, hlen]
    rw [hhead, hkept, hsync.driver.expected]
    rfl
  obtain ⟨t, hs, hsent, hposted, hreturned, hwait, hfound⟩ :
      ∃ t, s.step (.send default) = some t ∧ t.sent.length = s.sent.length + 1 ∧
        t.posted = s.posted ∧ t.returned = s.returned ∧ t.waiting = true ∧
        (t.pair.completionQueue t.pair.completionHead.toNat).1 = t.pair.expectedPhase := by
    simp [Link.step, hrest, QueuePair.sendCommand, hfirst]
  obtain ⟨u, hs', hsent', hposted', hreturned'⟩ :
      ∃ u, t.step .poll = some u ∧ u.sent = t.sent ∧ u.posted = t.posted ∧
        u.returned.length = t.returned.length + 1 := by
    simp [Link.step, hwait, QueuePair.poll, hfound]
  have hwaits : Reaches kind (start 65536 65536) t := Run.tail (a := .send default) hrun trivial hs
  refine ⟨u, Run.tail (a := .poll) hwaits trivial hs', by rw [hsent', hsent, hlen], ?_⟩
  intro hright
  have hlong := hright.answered.length_le
  rw [length_map, hreturned', hreturned, hposted', hposted] at hlong
  omega

/-- All runs of at most `N` commands are right exactly under these bounds. -/
lemma right_iff_fits [Inhabited β] (hsizes : Sizes n size) (hkind : kind ⟨0#8, 0#3⟩) (N : Nat) :
    (∀ t : Link β, Reaches kind (start n size) t → t.sent.length ≤ N → t.Right) ↔
      Fits n size N ∧ (0 < N → ∀ status, kind status → status.Plain) := by
  constructor
  · intro hall
    have hfits : Fits n size N := by
      by_contra hnot
      have hle := hsizes.le
      have hmax := hsizes.max
      unfold Fits at hnot
      by_cases hlt : size < n
      · rcases exists_not_fetched (β := β) hsizes hkind hlt with ⟨t, hrun, hlen, hwrong⟩
        exact hwrong (hall t hrun (by omega))
      · have hn : n = 65536 := by omega
        have hsize : size = 65536 := by omega
        subst hn hsize
        rcases exists_stale (β := β) hsizes hkind with ⟨t, hrun, hlen, hwrong⟩
        exact hwrong (hall t hrun (by omega))
    refine ⟨hfits, fun hN status hstatus => ?_⟩
    by_contra hplain
    rcases exists_mistaken (β := β) hsizes (hfits.mono hN) hstatus hplain with
      ⟨t, hrun, hlen, hwrong⟩
    exact hwrong (hall t hrun (by omega))
  · rintro ⟨hfits, hplain⟩ t hrun hlen
    have hfits' := hfits.mono hlen
    have hsync := hrun.sync (sync_start n size) hsizes hfits'
    refine hsync.right hsizes hfits' fun status hin => ?_
    -- a completion was posted, so a command was sent
    have hsent : 0 < t.sent.length := Nat.lt_of_lt_of_le (length_pos_of_mem hin)
      (Nat.le_trans hsync.ordered.postedLe hsync.ordered.fetchedLe)
    exact hplain (Nat.lt_of_lt_of_le hsent hlen) status
      (hrun.posted (fun _ hstart => absurd hstart not_mem_nil) status hin)

end Runs

end Link

/-! ## Both queues -/

lemma sizes_admin {n : Nat} (htwo : 2 ≤ n) (hmax : n ≤ 65536) : Sizes n (adminSize n) := by
  refine ⟨htwo, hmax, Nat.succ_pos _, ?_⟩
  rw [adminSize, BitVec.toNat_ofNat]
  omega

lemma sizes_io {n : Nat} (htwo : 2 ≤ n) (hmax : n ≤ 65536) : Sizes n (ioSize n) := by
  refine ⟨htwo, hmax, Nat.succ_pos _, ?_⟩
  rw [ioSize, BitVec.toNat_ofNat]
  omega

namespace Device

variable {β : Type} {d e : Device β} {kind : Status → Prop}

/-- A run of the device is a run of each of its two queue pairs. -/
lemma run_links (hrun : Run step (Posts kind) d e) :
    d.admin.Reaches kind e.admin ∧ d.io.Reaches kind e.io := by
  induction hrun with
  | refl => exact ⟨Run.refl _, Run.refl _⟩
  | @tail t u op _ hop hs ih =>
    cases op with
    | inl op =>
      rcases Option.map_eq_some_iff.1 hs with ⟨s, hstep, rfl⟩
      exact ⟨Run.tail ih.1 hop hstep, ih.2⟩
    | inr op =>
      rcases Option.map_eq_some_iff.1 hs with ⟨s, hstep, rfl⟩
      exact ⟨ih.1, Run.tail ih.2 hop hstep⟩

lemma run_admin {s t : Link β} (hrun : s.Reaches kind t) (io : Link β) :
    Run step (Posts kind) (⟨s, io⟩ : Device β) ⟨t, io⟩ := by
  induction hrun with
  | refl => exact Run.refl _
  | @tail t u op _ hop hs ih => exact Run.tail (a := .inl op) ih hop (by simp [step, hs])

lemma run_io {s t : Link β} (hrun : s.Reaches kind t) (admin : Link β) :
    Run step (Posts kind) (⟨admin, s⟩ : Device β) ⟨admin, t⟩ := by
  induction hrun with
  | refl => exact Run.refl _
  | @tail t u op _ hop hs ih => exact Run.tail (a := .inr op) ih hop (by simp [step, hs])

end Device

/-- For every `CAP.MQES` from 1 on and every controller that posts completions of some kind, success
among them: all states with at most `adminN` commands on the admin queue and at most `ioN` on the I/O
queue are right exactly if these numbers of commands fit and, where there is a command, all completions
of that kind are plain. -/
theorem queues_right_iff {β : Type} [Inhabited β] (mqes : BitVec 16) (hmqes : 1 ≤ mqes.toNat)
    (kind : Status → Prop) (hkind : kind ⟨0#8, 0#3⟩) (adminN ioN : Nat) :
    (∀ d : Device β, Run Device.step (Device.Posts kind) (Device.start mqes) d →
        d.admin.sent.length ≤ adminN → d.io.sent.length ≤ ioN → d.Right) ↔
      Fits (nQueueEntries mqes) (adminSize (nQueueEntries mqes)) adminN ∧
        Fits (nQueueEntries mqes) (ioSize (nQueueEntries mqes)) ioN ∧
        (0 < adminN ∨ 0 < ioN → ∀ status, kind status → status.Plain) := by
  have hlast := mqes.isLt
  have htwo : 2 ≤ nQueueEntries mqes := Nat.succ_le_succ hmqes
  have hmax : nQueueEntries mqes ≤ 65536 := hlast
  have hadmin := Link.right_iff_fits (β := β) (sizes_admin htwo hmax) hkind adminN
  have hio := Link.right_iff_fits (β := β) (sizes_io htwo hmax) hkind ioN
  constructor
  · intro hall
    have hadmin' := hadmin.1 fun t hrun hlen =>
      (hall ⟨t, _⟩ (Device.run_admin hrun _) hlen (Nat.zero_le _)).1
    have hio' := hio.1 fun t hrun hlen =>
      (hall ⟨_, t⟩ (Device.run_io hrun _) (Nat.zero_le _) hlen).2
    exact ⟨hadmin'.1, hio'.1, fun hone => hone.elim hadmin'.2 hio'.2⟩
  · rintro ⟨hadminFits, hioFits, hplain⟩ d hrun hadminLen hioLen
    rcases Device.run_links hrun with ⟨hadminRun, hioRun⟩
    exact ⟨hadmin.2 ⟨hadminFits, fun h => hplain (.inl h)⟩ _ hadminRun hadminLen,
      hio.2 ⟨hioFits, fun h => hplain (.inr h)⟩ _ hioRun hioLen⟩

def sampleOps : List (Op Unit ⊕ Op Unit) :=
  [.inl (.send ()), .inr (.send ()), .inl .fetch, .inr .fetch, .inl (.post ⟨0#8, 0#3⟩),
    .inr (.post ⟨2#8, 1#3⟩), .inr .poll, .inl .poll]

theorem queues_right_sample :
    ∃ d : Device Unit, exec Device.step (Device.start 1023#16) sampleOps = some d ∧
      d.admin.returned = [true] ∧ d.io.returned = [false] ∧ d.Right := by
  have hrun : ∃ d : Device Unit, exec Device.step (Device.start 1023#16) sampleOps = some d ∧
      d.admin.returned = [true] ∧ d.io.returned = [false] ∧ d.admin.sent.length = 1 ∧
        d.io.sent.length = 1 :=
    ⟨_, rfl, rfl, rfl, rfl, rfl⟩
  rcases hrun with ⟨d, hexec, hadmin, hio, hadminLen, hioLen⟩
  refine ⟨d, hexec, hadmin, hio, ?_⟩
  have hright := (queues_right_iff (β := Unit) 1023#16 (by decide)
    (fun status => status = ⟨0#8, 0#3⟩ ∨ status = ⟨2#8, 1#3⟩) (.inl rfl) 1 1).2
    ⟨Or.inl (by decide), Or.inl (by decide), fun _ status hstatus => by
      rcases hstatus with rfl | rfl
      · exact fun _ => rfl
      · exact fun hcode => absurd hcode (by decide)⟩
  refine hright d (exec_run hexec fun op hop _ => ?_) (Nat.le_of_eq hadminLen) (Nat.le_of_eq hioLen)
  revert op
  simp [sampleOps, Device.Posts, Op.Posts]

/-- With `MQES` = 4097 the admin queue has 4098 entries for the driver and 2 for the controller: the
second command is never fetched.  With `MQES` = 65535 the 65537th call on the I/O queue takes an entry
of the lap before for its completion.  With any `MQES`, a failure with the code 0 of type 1 is taken
for a success. -/
theorem queues_not_right :
    (¬ ∀ d : Device Unit, Run Device.step (Device.Posts fun status => status = ⟨0#8, 0#3⟩)
        (Device.start 4097#16) d → d.admin.Right) ∧
      (¬ ∀ d : Device Unit, Run Device.step (Device.Posts fun status => status = ⟨0#8, 0#3⟩)
        (Device.start 65535#16) d → d.io.Right) ∧
      ¬ ∀ d : Device Unit, Run Device.step (fun _ _ => True) (Device.start 1#16) d → d.io.Right := by
  refine ⟨?_, ?_, ?_⟩
  · intro hclaim
    have hrun : ∃ d : Device Unit, exec Device.step (Device.start 4097#16)
        [.inl (.send ()), .inl .fetch, .inl (.post ⟨0#8, 0#3⟩), .inl .poll, .inl (.send ())] =
          some d ∧
          d.admin.controller.Idle ∧ d.admin.fetched.length = 1 ∧ d.admin.sent.length = 2 :=
      ⟨_, rfl, rfl, rfl, rfl⟩
    rcases hrun with ⟨d, hexec, hidle, hfetched, hsent⟩
    have hright := hclaim d (exec_run hexec (by simp [Device.Posts, Op.Posts]))
    have hall := congrArg List.length (hright.complete hidle)
    omega
  · intro hclaim
    have hsizes : Sizes 65536 65536 := ⟨by decide, by decide, by decide, by decide⟩
    have hstale : ∃ t : Link Unit, Link.Reaches (fun status => status = ⟨0#8, 0#3⟩)
        (Link.start 65536 65536) t ∧ t.sent.length = 65537 ∧ ¬ t.Right :=
      Link.exists_stale hsizes rfl
    rcases hstale with ⟨t, hrun, _, hwrong⟩
    exact hwrong (hclaim ⟨_, t⟩ (Device.run_io hrun _))
  · intro hclaim
    have hrun : ∃ d : Device Unit, exec Device.step (Device.start 1#16)
        [.inr (.send ()), .inr .fetch, .inr (.post ⟨0#8, 1#3⟩), .inr .poll] = some d ∧
          d.io.returned = [true] ∧ d.io.posted = [⟨0#8, 1#3⟩] :=
      ⟨_, rfl, rfl, rfl⟩
    rcases hrun with ⟨d, hexec, hreturned, hposted⟩
    have hright := hclaim d (exec_run hexec fun _ _ _ => trivial)
    have hanswered := hright.answered
    rw [hreturned, hposted] at hanswered
    exact absurd hanswered (by decide)

end SigmaOS.Drivers.Nvme
