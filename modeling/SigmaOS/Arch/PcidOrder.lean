import Mathlib.Algebra.Group.Nat.Defs
import Mathlib.Data.List.Basic
import SigmaOS.Arch.Pcid

/-!
# Arch.PcidOrder — which context loses its slot

A context that is set and has no slot takes the slot with the lowest timestamp.  The timestamps are
drawn from a counter by every call that switches to another slot; a call that sets the active
context again returns early and draws none.

`Ordered` relates the slots to the history of the calls: the age of a slot is the number of
switches before its timestamp was drawn, and ages are in the order of the last calls.
-/

namespace SigmaOS.Arch.Paging

open Function List
open Lib

/-! ## What was used last

A history is a list of uses, the latest one at its end. -/

section Recency

universe u

variable {α : Type u} {hist : List α} {a b c : α}

/-- From some point of the history on, after the last use of `a`, there is a use of `b`. -/
def LastBefore (hist : List α) (a b : α) : Prop :=
  ∃ old new, hist = old ++ new ∧ a ∈ old ∧ a ∉ new ∧ b ∈ new

lemma LastBefore.snoc (h : LastBefore hist a b) (hac : a ≠ c) : LastBefore (hist ++ [c]) a b := by
  rcases h with ⟨old, new, hhist, ha, hnot, hb⟩
  refine ⟨old, new ++ [c], ?_, ha, ?_, ?_⟩
  · rw [hhist, append_assoc]
  · simpa using ⟨hnot, hac⟩
  · exact mem_append_left [c] hb

lemma lastBefore_newest (ha : a ∈ hist) (hac : a ≠ c) : LastBefore (hist ++ [c]) a c :=
  ⟨hist, [c], rfl, ha, by simpa using hac, mem_singleton.2 rfl⟩

lemma not_lastBefore_newest : ¬ LastBefore (hist ++ [a]) a b := by
  rintro ⟨old, new, hhist, _, hnot, hb⟩
  rcases eq_nil_or_concat new with rfl | ⟨new', d, rfl⟩
  · cases hb
  · have hd : a = d := by
      have hlast := congrArg getLast? hhist
      simpa using hlast
    exact hnot (by simp [hd])

/-- The number of uses that are of another element than the use before. -/
def switches [DecidableEq α] : List α → Nat
  | [] => 0
  | [_] => 1
  | a :: b :: hist => (if a = b then 0 else 1) + switches (b :: hist)

/-- One more call is one more switch unless it repeats the last context. -/
lemma switches_snoc [DecidableEq α] :
    ∀ hist : List α, switches (hist ++ [c]) =
      switches hist + if hist.getLast? = some c then 0 else 1 := by
  intro hist
  induction hist with
  | nil => rfl
  | cons a hist ih =>
    cases hist with
    | nil => simp [switches, Nat.add_comm]
    | cons b hist =>
      have hlast : (a :: b :: hist).getLast? = (b :: hist).getLast? := by simp
      have hrest : switches (a :: b :: hist ++ [c]) =
          (if a = b then 0 else 1) + switches (b :: hist ++ [c]) := rfl
      rw [hrest, ih, hlast, switches, Nat.add_assoc]

end Recency

/-! ## Sequences of calls -/

/-- A call of `set`: the context, and the roots that the contexts have at that time. -/
structure SetCall where
  info : Ctx
  roots : Ctx → Option Frame

namespace Cpu

def Holds (cpu : Cpu) (i : Pcid) (c : Ctx) : Prop :=
  (cpu.pcids.contexts i).context = some c

def set (cpu : Cpu) (call : SetCall) : Cpu :=
  (cpu.setCurrentInfo call.roots call.info).2

def sets (cpu : Cpu) (calls : List SetCall) : Cpu :=
  calls.foldl set cpu

def fresh (cr3 : Cr3) (cached : Pcid → List Frame) : Cpu :=
  { hasPcid := true
    pcids := PcidCpuContext.new fun _ => 0#64
    cr3 := cr3
    cached := cached }

def Full (cpu : Cpu) : Prop :=
  ∀ i, ∃ c, cpu.Holds i c

/-- The call replaces one context, and that is the one whose last call in `hist` is the oldest. -/
def ReplacesOldest (cpu : Cpu) (hist : List Ctx) (call : SetCall) : Prop :=
  ∃ i d, cpu.Holds i d ∧ (∀ j e, cpu.Holds j e → j ≠ i → LastBefore hist d e) ∧
    ∀ j, ((cpu.set call).pcids.contexts j).context =
      if j = i then some call.info else (cpu.pcids.contexts j).context

variable {cpu : Cpu} {call : SetCall} {calls : List SetCall} {info : Ctx} {i j : Pcid}

lemma sets_snoc : cpu.sets (calls ++ [call]) = (cpu.sets calls).set call := by
  simp [sets]

lemma sets_append {more : List SetCall} :
    cpu.sets (calls ++ more) = (cpu.sets calls).sets more := by
  simp [sets]

/-- A search without a hit answers a slot with the least timestamp. -/
lemma search_oldest {is : List Pcid} {pcid : Pcid} (h : cpu.search info is pcid = .oldest i) :
    (∀ j ∈ is, ¬ cpu.Holds j info) ∧
      (∀ j ∈ is, (cpu.pcids.contexts i).timestamp ≤ (cpu.pcids.contexts j).timestamp) ∧
      (cpu.pcids.contexts i).timestamp ≤ (cpu.pcids.contexts pcid).timestamp := by
  induction is generalizing pcid with
  | nil =>
    cases h
    exact ⟨by simp, by simp, BitVec.le_refl _⟩
  | cons j js ih =>
    simp only [search] at h
    split at h
    · cases h
    next hj =>
    rcases ih h with ⟨hnone, hjs, hstart⟩
    -- whichever of the two slots goes on, it is not younger than the other
    have hboth : (cpu.pcids.contexts i).timestamp ≤ (cpu.pcids.contexts j).timestamp ∧
        (cpu.pcids.contexts i).timestamp ≤ (cpu.pcids.contexts pcid).timestamp := by
      split at hstart
      · exact ⟨hstart, BitVec.le_trans hstart (BitVec.le_of_lt (by assumption))⟩
      · exact ⟨BitVec.le_trans hstart (BitVec.not_lt.1 (by assumption)), hstart⟩
    exact ⟨forall_mem_cons.2 ⟨hj, hnone⟩, forall_mem_cons.2 ⟨hboth.1, hjs⟩, hboth.2⟩

/-- `set` stays, switches to the slot of the context, or takes the oldest slot. -/
lemma set_cases (hfeature : cpu.hasPcid = true) (call : SetCall) :
    (∃ i, cpu.Holds i call.info ∧ (cpu.pcids.contexts i).pcid = cpu.pcids.activeContext ∧
      cpu.set call = cpu) ∨
    (∃ i, cpu.Holds i call.info ∧ (cpu.pcids.contexts i).pcid ≠ cpu.pcids.activeContext ∧
      cpu.set call = cpu.setContext call.roots i) ∨
    (∃ i, (∀ j, ¬ cpu.Holds j call.info) ∧
      (∀ j, (cpu.pcids.contexts i).timestamp ≤ (cpu.pcids.contexts j).timestamp) ∧
      cpu.set call = cpu.setContextTo call.roots i call.info) := by
  unfold set setCurrentInfo
  rw [if_pos hfeature]
  cases hsearch : cpu.search call.info (List.finRange nPcids) 0 with
  | holds i =>
    have hholds := search_holds hsearch
    by_cases hactive : (cpu.pcids.contexts i).pcid = cpu.pcids.activeContext
    · exact .inl ⟨i, hholds, hactive, by simp [hactive]⟩
    · exact .inr (.inl ⟨i, hholds, hactive, by simp [hactive]⟩)
  | oldest i =>
    rcases search_oldest hsearch with ⟨hnone, holdest, _⟩
    exact .inr (.inr ⟨i, fun j => hnone j (mem_finRange j),
      fun j => holdest j (mem_finRange j), rfl⟩)

lemma set_of_not_holds (hfeature : cpu.hasPcid = true) (hnone : ∀ j, ¬ cpu.Holds j call.info) :
    ∃ i, (∀ j, (cpu.pcids.contexts i).timestamp ≤ (cpu.pcids.contexts j).timestamp) ∧
      ∀ j, ((cpu.set call).pcids.contexts j).context =
        if j = i then some call.info else (cpu.pcids.contexts j).context := by
  rcases set_cases hfeature call with ⟨i, hholds, _⟩ | ⟨i, hholds, _⟩ | ⟨i, _, holdest, hset⟩
  · exact absurd hholds (hnone i)
  · exact absurd hholds (hnone i)
  · refine ⟨i, holdest, ?_⟩
    intro j
    rw [hset]
    exact (setContextTo_contexts cpu call.roots call.info i j).2

/-! ## The slots and the history -/

/-- How the slots come from the contexts `hist` that have been set: `ages i` is the number of switches
before the timestamp of slot `i` was drawn. -/
structure Ordered (cpu : Cpu) (hist : List Ctx) (ages : Pcid → Nat) : Prop where
  feature : cpu.hasPcid = true
  pcids : ∀ i, (cpu.pcids.contexts i).pcid = i
  unique : ∀ i j c, cpu.Holds i c → cpu.Holds j c → i = j
  seen : ∀ i c, cpu.Holds i c → c ∈ hist
  next : cpu.pcids.nextTimestamp = BitVec.ofNat 64 (switches hist)
  stamp : ∀ i c, cpu.Holds i c → (cpu.pcids.contexts i).timestamp = BitVec.ofNat 64 (ages i)
  young : ∀ i c, cpu.Holds i c → ages i < switches hist
  order : ∀ i j c d, cpu.Holds i c → cpu.Holds j d → i ≠ j →
    ages i < ages j ∧ LastBefore hist c d ∨ ages j < ages i ∧ LastBefore hist d c
  active : ∀ c, hist.getLast? = some c → cpu.Holds cpu.pcids.activeContext c ∧
    ages cpu.pcids.activeContext + 1 = switches hist

variable {hist : List Ctx} {ages : Pcid → Nat} {c : Ctx}

lemma fresh_ordered (cr3 : Cr3) (cached : Pcid → List Frame) :
    (fresh cr3 cached).Ordered [] fun _ => 0 := by
  have hnone : ∀ i c, ¬ (fresh cr3 cached).Holds i c := by
    intro i c h
    cases h
  refine ⟨rfl, fun _ => rfl, ?_, ?_, rfl, ?_, ?_, ?_, ?_⟩
  · intro i j c hi
    exact absurd hi (hnone i c)
  · intro i c hi
    exact absurd hi (hnone i c)
  · intro i c hi
    exact absurd hi (hnone i c)
  · intro i c hi
    exact absurd hi (hnone i c)
  · intro i j c d hi
    exact absurd hi (hnone i c)
  · intro c hc
    cases hc

/-- Setting the current context again changes no age. -/
lemma Ordered.again (h : cpu.Ordered hist ages) (hc : hist.getLast? = some c) :
    cpu.Ordered (hist ++ [c]) ages := by
  have hswitches : switches (hist ++ [c]) = switches hist := by simp [switches_snoc, hc]
  rcases h.active c hc with ⟨hholds, hage⟩
  -- an older context is not the active one
  have hkeeps : ∀ i j a b, cpu.Holds i a → cpu.Holds j b → ages i < ages j →
      LastBefore hist a b → LastBefore (hist ++ [c]) a b := by
    intro i j a b hi hj hlt hbefore
    refine hbefore.snoc ?_
    rintro rfl
    have hia := h.unique i _ a hi hholds
    subst hia
    have hyoung := h.young j b hj
    omega
  refine ⟨h.feature, h.pcids, h.unique, ?_, ?_, h.stamp, ?_, ?_, ?_⟩
  · intro i d hi
    exact mem_append_left _ (h.seen i d hi)
  · rw [hswitches]
    exact h.next
  · intro i d hi
    rw [hswitches]
    exact h.young i d hi
  · intro i j a b hi hj hij
    rcases h.order i j a b hi hj hij with ⟨hlt, hbefore⟩ | ⟨hlt, hbefore⟩
    · exact .inl ⟨hlt, hkeeps i j a b hi hj hlt hbefore⟩
    · exact .inr ⟨hlt, hkeeps j i b a hj hi hlt hbefore⟩
  · intro d hd
    have hdc : c = d := by simpa using hd
    rw [hswitches, ← hdc]
    exact ⟨hholds, hage⟩

/-- Slot `i`, the only one that may have held the context `c`, is switched to: it holds `c`, and its
timestamp is the next one. -/
structure SwitchedTo (cpu : Cpu) (i : Pcid) (c : Ctx) (cpu' : Cpu) : Prop where
  feature : cpu'.hasPcid = true
  pcids : ∀ j, (cpu'.pcids.contexts j).pcid = j
  contexts : ∀ j, (cpu'.pcids.contexts j).context =
    if j = i then some c else (cpu.pcids.contexts j).context
  only : ∀ j, cpu.Holds j c → j = i
  stamps : ∀ j, (cpu'.pcids.contexts j).timestamp =
    if j = i then cpu.pcids.nextTimestamp else (cpu.pcids.contexts j).timestamp
  next : cpu'.pcids.nextTimestamp = cpu.pcids.nextTimestamp + 1#64
  active : cpu'.pcids.activeContext = i

lemma SwitchedTo.holds {cpu' : Cpu} (hs : cpu.SwitchedTo i c cpu') : cpu'.Holds i c := by
  rw [Holds, hs.contexts i, if_pos rfl]

lemma SwitchedTo.holds_cases {cpu' : Cpu} {j : Pcid} {d : Ctx} (hs : cpu.SwitchedTo i c cpu')
    (hj : cpu'.Holds j d) : j = i ∧ d = c ∨ j ≠ i ∧ d ≠ c ∧ cpu.Holds j d := by
  rw [Holds, hs.contexts j] at hj
  by_cases hji : j = i
  · rw [if_pos hji] at hj
    exact .inl ⟨hji, (Option.some.inj hj).symm⟩
  · rw [if_neg hji] at hj
    refine .inr ⟨hji, ?_, hj⟩
    rintro rfl
    exact hji (hs.only j hj)

section

variable (h : cpu.Ordered hist ages)
include h

/-- A switch makes its slot the youngest. -/
lemma Ordered.switch {cpu' : Cpu} (hc : hist.getLast? ≠ some c) (hs : cpu.SwitchedTo i c cpu') :
    cpu'.Ordered (hist ++ [c]) (update ages i (switches hist)) := by
  have hswitches : switches (hist ++ [c]) = switches hist + 1 := by simp [switches_snoc, hc]
  have hnewest : ∀ j d, d ≠ c → cpu.Holds j d →
      ages j < switches hist ∧ LastBefore (hist ++ [c]) d c := by
    intro j d hdc hj
    exact ⟨h.young j d hj, lastBefore_newest (h.seen j d hj) hdc⟩
  refine ⟨hs.feature, hs.pcids, ?_, ?_, ?_, ?_, ?_, ?_, ?_⟩
  · intro j k d hj hk
    rcases hs.holds_cases hj with ⟨rfl, rfl⟩ | ⟨_, hdc, hj'⟩ <;>
      rcases hs.holds_cases hk with ⟨rfl, hd⟩ | ⟨_, hd, hk'⟩
    · rfl
    · exact absurd rfl hd
    · exact absurd hd hdc
    · exact h.unique j k d hj' hk'
  · intro j d hj
    rcases hs.holds_cases hj with ⟨_, rfl⟩ | ⟨_, _, hj'⟩
    · simp
    · exact mem_append_left _ (h.seen j d hj')
  · rw [hs.next, h.next, hswitches, BitVec.ofNat_add]
  · intro j d hj
    rw [hs.stamps j]
    rcases hs.holds_cases hj with ⟨rfl, _⟩ | ⟨hji, _, hj'⟩
    · rw [if_pos rfl, update_self, h.next]
    · rw [if_neg hji, update_of_ne hji, h.stamp j d hj']
  · intro j d hj
    rw [hswitches]
    rcases hs.holds_cases hj with ⟨rfl, _⟩ | ⟨hji, _, hj'⟩
    · rw [update_self]
      exact Nat.lt_succ_self _
    · rw [update_of_ne hji]
      exact Nat.lt_succ_of_lt (h.young j d hj')
  · intro j k a b hj hk hjk
    rcases hs.holds_cases hj with ⟨rfl, rfl⟩ | ⟨hji, hac, hj'⟩ <;>
      rcases hs.holds_cases hk with ⟨rfl, rfl⟩ | ⟨hki, hbc, hk'⟩
    · exact absurd rfl hjk
    · rw [update_self, update_of_ne hki]
      exact .inr (hnewest k b hbc hk')
    · rw [update_self, update_of_ne hji]
      exact .inl (hnewest j a hac hj')
    · rw [update_of_ne hji, update_of_ne hki]
      rcases h.order j k a b hj' hk' hjk with ⟨hlt, hbefore⟩ | ⟨hlt, hbefore⟩
      · exact .inl ⟨hlt, hbefore.snoc hac⟩
      · exact .inr ⟨hlt, hbefore.snoc hbc⟩
  · intro d hd
    have hdc : c = d := by simpa using hd
    rw [hs.active, hswitches, update_self, ← hdc]
    exact ⟨hs.holds, rfl⟩

/-- One call keeps the slots in the order of their last use. -/
lemma Ordered.set (call : SetCall) :
    ∃ ages', (cpu.set call).Ordered (hist ++ [call.info]) ages' := by
  have hlast : ∀ {i}, cpu.Holds i call.info → (cpu.pcids.contexts i).pcid ≠ cpu.pcids.activeContext →
      hist.getLast? ≠ some call.info := by
    intro i hholds hne hc
    have hi := h.unique i _ _ hholds (h.active _ hc).1
    exact hne ((h.pcids i).trans hi)
  rcases set_cases h.feature call with
    ⟨i, hholds, hactive, hset⟩ | ⟨i, hholds, hactive, hset⟩ | ⟨i, hnone, _, hset⟩
  · rw [hset]
    rw [h.pcids] at hactive
    subst hactive
    -- the slot that is active holds the context set last
    have hc : hist.getLast? = some call.info := by
      cases hlast : hist.getLast? with
      | none =>
        have hseen := h.seen _ _ hholds
        rw [List.getLast?_eq_none_iff.1 hlast] at hseen
        cases hseen
      | some d => exact (h.active d hlast).1.symm.trans hholds
    exact ⟨ages, h.again hc⟩
  · rw [hset]
    have hslots := setContext_contexts cpu call.roots i
    refine ⟨_, h.switch (i := i) (hlast hholds hactive)
      ⟨h.feature, ?_, ?_, ?_, ?_, rfl, h.pcids i⟩⟩
    · intro j
      exact (hslots j).1.trans (h.pcids j)
    · intro j
      rw [(hslots j).2]
      split
      · rename_i hj
        exact hj ▸ hholds
      · rfl
    · intro j hj
      exact h.unique j i _ hj hholds
    · intro j
      by_cases hj : j = i
      · simp [setContext, loadCr3, touch, hj]
      · simp [setContext, loadCr3, touch, hj]
  · rw [hset]
    have hslots := setContextTo_contexts cpu call.roots call.info i
    refine ⟨_, h.switch (i := i) ?_ ⟨h.feature, ?_, ?_, ?_, ?_, rfl, ?_⟩⟩
    · intro hc
      exact hnone _ (h.active _ hc).1
    · intro j
      exact (hslots j).1.trans (h.pcids j)
    · intro j
      exact (hslots j).2
    · intro j hj
      exact absurd hj (hnone j)
    · intro j
      by_cases hj : j = i
      · simp [setContextTo, loadCr3, touch, hj]
      · simp [setContextTo, loadCr3, touch, hj]
    · simpa [setContextTo, loadCr3, touch] using h.pcids i

lemma Ordered.sets (calls : List SetCall) :
    ∃ ages', (cpu.sets calls).Ordered (hist ++ calls.map SetCall.info) ages' := by
  induction calls using List.reverseRecOn with
  | nil => exact ⟨ages, by simpa [Cpu.sets] using h⟩
  | append_singleton calls call ih =>
    rcases ih with ⟨ages', h'⟩
    rcases h'.set call with ⟨ages'', h''⟩
    refine ⟨ages'', ?_⟩
    rw [sets_snoc]
    simpa using h''

/-- Before the counter has wrapped, the lowest timestamp is that of the context set least recently. -/
lemma Ordered.replaces (hcount : switches hist ≤ 2 ^ 64) (hfull : cpu.Full)
    (hnone : ∀ j, ¬ cpu.Holds j call.info) : cpu.ReplacesOldest hist call := by
  rcases set_of_not_holds h.feature hnone with ⟨i, holdest, hcontexts⟩
  rcases hfull i with ⟨d, hd⟩
  refine ⟨i, d, hd, ?_, hcontexts⟩
  intro j e he hji
  rcases h.order i j d e hd he hji.symm with ⟨_, hbefore⟩ | ⟨hlt, _⟩
  · exact hbefore
  · -- the timestamps are the ages, so slot `j` would have the lower one
    have hle := holdest j
    rw [h.stamp i d hd, h.stamp j e he, BitVec.le_def, BitVec.toNat_ofNat, BitVec.toNat_ofNat] at hle
    have hi := h.young i d hd
    omega

end

end Cpu

/-- On a CPU with the feature, after any sequence of calls, no context is in two slots and the active
slot holds the context set last.  While at most `2 ^ 64` of the calls have switched to another context
than the call before, a further call replaces, once all slots hold a context, exactly the one whose
last call is the oldest. -/
theorem slots_least_recent (cr3 : Cr3) (cached : Pcid → List Frame) (calls : List SetCall) :
    (∀ i j c, ((Cpu.fresh cr3 cached).sets calls).Holds i c →
      ((Cpu.fresh cr3 cached).sets calls).Holds j c → i = j) ∧
    (∀ c, (calls.map SetCall.info).getLast? = some c →
      ((Cpu.fresh cr3 cached).sets calls).Holds
        ((Cpu.fresh cr3 cached).sets calls).pcids.activeContext c) ∧
    (switches (calls.map SetCall.info) ≤ 2 ^ 64 → ((Cpu.fresh cr3 cached).sets calls).Full →
      ∀ call : SetCall, (∀ i, ¬ ((Cpu.fresh cr3 cached).sets calls).Holds i call.info) →
        ((Cpu.fresh cr3 cached).sets calls).ReplacesOldest (calls.map SetCall.info) call) := by
  rcases (Cpu.fresh_ordered cr3 cached).sets calls with ⟨ages, h⟩
  rw [List.nil_append] at h
  refine ⟨h.unique, ?_, ?_⟩
  · intro c hc
    exact (h.active c hc).1
  · intro hcount hfull call hnone
    exact h.replaces hcount hfull hnone

def fillCalls : List SetCall :=
  (List.range 9).map fun c => ⟨c, fun _ => none⟩

lemma nPcids_pos : 0 < nPcids := by
  decide

def bootCr3 : Cr3 := ⟨none, ⟨0, nPcids_pos⟩⟩

def filledCpu : Cpu :=
  (Cpu.fresh bootCr3 fun _ => []).sets fillCalls

lemma switches_fillCalls : switches (fillCalls.map SetCall.info) = 9 := by
  decide

lemma filledCpu_slots : ∀ i : Pcid,
    (filledCpu.pcids.contexts i).context = some (i.val + 1) ∧
      (filledCpu.pcids.contexts i).timestamp = BitVec.ofNat 64 (i.val + 1) := by
  decide +kernel

lemma filledCpu_holds (i : Pcid) : filledCpu.Holds i (i.val + 1) :=
  (filledCpu_slots i).1

lemma Cpu.not_holds_nine {cpu : Cpu} (h : ∀ i : Pcid, cpu.Holds i (i.val + 1)) (i : Pcid) :
    ¬ cpu.Holds i 9 := by
  intro hi
  have heq : i.val + 1 = 9 := Option.some.inj ((h i).symm.trans hi)
  have hlt : i.val < 8 := i.isLt
  omega

/-- The tenth context takes the slot of the second one. -/
theorem slots_least_recent_sample :
    filledCpu.Full ∧ filledCpu.ReplacesOldest (fillCalls.map SetCall.info) ⟨9, fun _ => none⟩ := by
  have hfull : filledCpu.Full := fun i => ⟨_, filledCpu_holds i⟩
  exact ⟨hfull, (slots_least_recent bootCr3 (fun _ => []) fillCalls).2.2
    (by rw [switches_fillCalls]; decide) hfull
    ⟨9, fun _ => none⟩ (Cpu.not_holds_nine filledCpu_holds)⟩

namespace Cpu

variable {cpu : Cpu} {hist : List Ctx} {ages : Pcid → Nat} {i j : Pcid} {c : Ctx}

lemma Ordered.set_held (h : cpu.Ordered hist ages) {call : SetCall} (hi : cpu.Holds i call.info)
    (hne : i ≠ cpu.pcids.activeContext) : cpu.set call = cpu.setContext call.roots i := by
  rcases set_cases h.feature call with ⟨k, hk, hactive, _⟩ | ⟨k, hk, _, hset⟩ | ⟨k, hnone, _⟩
  · have hki := h.unique k i _ hk hi
    rw [h.pcids, hki] at hactive
    exact absurd hactive hne
  · rw [hset, h.unique k i _ hk hi]
  · exact absurd hi (hnone i)

lemma setContext_timestamp (cpu : Cpu) (roots : Ctx → Option Frame) (i j : Pcid) :
    ((cpu.setContext roots i).pcids.contexts j).timestamp =
      if j = i then cpu.pcids.nextTimestamp else (cpu.pcids.contexts j).timestamp := by
  by_cases hj : j = i
  · simp [setContext, loadCr3, touch, hj]
  · simp [setContext, loadCr3, touch, hj]

/-- Nine contexts have been set, and the last two of them in turn: the slots hold the contexts 1 to 8,
and those of 7 and 8 have the two youngest timestamps. -/
structure InTurn (cpu : Cpu) (hist : List Ctx) : Prop where
  ordered : ∃ ages, cpu.Ordered hist ages
  holds : ∀ i : Pcid, cpu.Holds i (i.val + 1)
  last : hist.getLast? = some 8
  old : ∀ i : Pcid, i ≠ 6 → i ≠ 7 → (cpu.pcids.contexts i).timestamp ≠ 0#64
  six : (cpu.pcids.contexts 6).timestamp + 2#64 = cpu.pcids.nextTimestamp
  seven : (cpu.pcids.contexts 7).timestamp + 1#64 = cpu.pcids.nextTimestamp

def turn : List SetCall :=
  [⟨7, fun _ => none⟩, ⟨8, fun _ => none⟩]

/-- Setting 7 and then 8 switches twice, between the same two slots. -/
lemma InTurn.turn (h : cpu.InTurn hist) :
    (cpu.sets turn).InTurn (hist ++ [7, 8]) ∧ switches (hist ++ [7, 8]) = switches hist + 2 := by
  rcases h.ordered with ⟨ages, ho⟩
  have hactive : (7 : Pcid) = cpu.pcids.activeContext :=
    ho.unique _ _ 8 (h.holds 7) (ho.active 8 h.last).1
  have hseven : cpu.set ⟨7, fun _ => none⟩ = cpu.setContext (fun _ => none) 6 :=
    ho.set_held (h.holds 6) (by rw [← hactive]; decide)
  rcases ho.set ⟨7, fun _ => none⟩ with ⟨ages₁, ho₁⟩
  have hholds₁ : ∀ i, (cpu.set ⟨7, fun _ => none⟩).Holds i (i.val + 1) := by
    intro i
    rw [hseven]
    exact (setContext_contexts cpu _ 6 i).2.trans (h.holds i)
  have height : (cpu.set ⟨7, fun _ => none⟩).set ⟨8, fun _ => none⟩ =
      (cpu.setContext (fun _ => none) 6).setContext (fun _ => none) 7 := by
    rw [← hseven]
    refine ho₁.set_held (hholds₁ 7) ?_
    rw [hseven]
    show 7 ≠ (cpu.pcids.contexts 6).pcid
    rw [ho.pcids]
    decide
  have hsets : cpu.sets Cpu.turn =
      (cpu.setContext (fun _ => none) 6).setContext (fun _ => none) 7 := height
  have hstamps : ∀ j, ((cpu.sets Cpu.turn).pcids.contexts j).timestamp =
      if j = 7 then cpu.pcids.nextTimestamp + 1#64 else
        if j = 6 then cpu.pcids.nextTimestamp else (cpu.pcids.contexts j).timestamp := by
    intro j
    rw [hsets, setContext_timestamp, setContext_timestamp]
    rfl
  have hnext : (cpu.sets Cpu.turn).pcids.nextTimestamp = cpu.pcids.nextTimestamp + 1#64 + 1#64 := by
    rw [hsets]
    rfl
  refine ⟨⟨?_, ?_, ?_, ?_, ?_, ?_⟩, ?_⟩
  · exact ho.sets Cpu.turn
  · intro i
    rw [hsets]
    exact (setContext_contexts _ _ 7 i).2.trans
      ((setContext_contexts cpu _ 6 i).2.trans (h.holds i))
  · simp
  · intro i h6 h7
    rw [hstamps, if_neg h7, if_neg h6]
    exact h.old i h6 h7
  · rw [hstamps, hnext, if_neg (by decide), if_pos rfl, BitVec.add_assoc]
    rfl
  · rw [hstamps, hnext, if_pos rfl]
  · have hlast : (hist ++ [7]).getLast? ≠ some 8 := by simp
    have happend : hist ++ [7, 8] = hist ++ [7] ++ [8] := by simp
    rw [happend, switches_snoc, switches_snoc, if_neg hlast, h.last, if_neg (by simp)]

def turns (n : Nat) : List SetCall :=
  (List.replicate n turn).flatten

/-- `n` turns keep the slots in turn and count two switches each. -/
lemma InTurn.turns (h : cpu.InTurn hist) (n : Nat) :
    (cpu.sets (turns n)).InTurn (hist ++ (Cpu.turns n).map SetCall.info) ∧
      switches (hist ++ (Cpu.turns n).map SetCall.info) = switches hist + 2 * n := by
  induction n with
  | zero => simpa [Cpu.turns, Cpu.sets] using h
  | succ n ih =>
    rcases ih with ⟨hturns, hcount⟩
    rcases hturns.turn with ⟨hnext, hcount'⟩
    have hsucc : Cpu.turns (n + 1) = Cpu.turns n ++ Cpu.turn := by
      simp [Cpu.turns, replicate_succ']
    have hhist : hist ++ (Cpu.turns (n + 1)).map SetCall.info =
        hist ++ (Cpu.turns n).map SetCall.info ++ [7, 8] := by
      simp [hsucc, Cpu.turn]
    rw [hhist, hsucc, sets_append]
    exact ⟨hnext, by omega⟩

lemma filled_inTurn : filledCpu.InTurn (fillCalls.map SetCall.info) := by
  rcases (fresh_ordered bootCr3 fun _ => []).sets fillCalls with ⟨ages, h⟩
  have hnext : filledCpu.pcids.nextTimestamp = 9#64 := by
    unfold filledCpu
    rw [h.next, nil_append, switches_fillCalls]
  refine ⟨⟨ages, h⟩, filledCpu_holds, rfl, ?_, ?_, ?_⟩
  · intro i _ _ hzero
    rw [(filledCpu_slots i).2] at hzero
    have hnat := congrArg BitVec.toNat hzero
    have hlt : i.val < 8 := i.isLt
    rw [BitVec.toNat_ofNat, Nat.mod_eq_of_lt (by omega)] at hnat
    exact absurd hnat (Nat.succ_ne_zero _)
  · rw [hnext, (filledCpu_slots 6).2]
    rfl
  · rw [hnext, (filledCpu_slots 7).2]
    rfl

/-- When the timestamp 0 has been drawn again, the lowest timestamp is that of the context set last. -/
lemma InTurn.not_replacesOldest (h : cpu.InTurn hist) (hcount : switches hist = 2 ^ 64 + 1) :
    ¬ cpu.ReplacesOldest hist ⟨9, fun _ => none⟩ := by
  rcases h.ordered with ⟨ages, ho⟩
  have hnext : cpu.pcids.nextTimestamp = 1#64 := by
    rw [ho.next, hcount]
    rfl
  have hseven : (cpu.pcids.contexts 7).timestamp = 0#64 := by
    have hs := h.seven
    bv_omega
  have hother : ∀ i, i ≠ 7 → (cpu.pcids.contexts i).timestamp ≠ 0#64 := by
    intro i h7 hzero
    by_cases h6 : i = 6
    · have hs := h.six
      rw [hnext, ← h6, hzero] at hs
      exact absurd hs (by decide)
    · exact h.old i h6 h7 hzero
  rintro ⟨i, d, hd, horder, hcontexts⟩
  have hnone : ∀ j, ¬ cpu.Holds j (SetCall.mk 9 fun _ => none).info := not_holds_nine h.holds
  rcases set_of_not_holds ho.feature hnone with ⟨k, holdest, hcontexts'⟩
  have hk : k = 7 := by
    by_contra hk
    have hle := holdest 7
    exact hother k hk (by bv_omega)
  -- only one slot has got another context
  have hik : i = k := by
    by_contra hik
    have hi := hcontexts i
    rw [hcontexts' i, if_pos rfl, if_neg hik] at hi
    exact hnone i hi
  subst hik
  subst hk
  have hd8 : 8 = d := Option.some.inj ((h.holds 7).symm.trans hd)
  subst hd8
  rcases List.getLast?_eq_some_iff.1 h.last with ⟨hist', hhist⟩
  have hbefore := horder 0 1 (h.holds 0) (by decide)
  rw [hhist] at hbefore
  exact not_lastBefore_newest hbefore

end Cpu

/-- After `2 ^ 64 + 1` switches a further call replaces the context set last. -/
theorem slots_wrap :
    ¬ ∀ (cr3 : Cr3) (cached : Pcid → List Frame) (calls : List SetCall),
      (∀ i j c, ((Cpu.fresh cr3 cached).sets calls).Holds i c →
        ((Cpu.fresh cr3 cached).sets calls).Holds j c → i = j) ∧
      (∀ c, (calls.map SetCall.info).getLast? = some c →
        ((Cpu.fresh cr3 cached).sets calls).Holds
          ((Cpu.fresh cr3 cached).sets calls).pcids.activeContext c) ∧
      (((Cpu.fresh cr3 cached).sets calls).Full →
        ∀ call : SetCall, (∀ i, ¬ ((Cpu.fresh cr3 cached).sets calls).Holds i call.info) →
          ((Cpu.fresh cr3 cached).sets calls).ReplacesOldest (calls.map SetCall.info) call) := by
  intro hall
  have henough : ∃ n, 9 + 2 * n = 2 ^ 64 + 1 := ⟨2 ^ 63 - 4, by decide⟩
  rcases henough with ⟨n, hn⟩
  rcases Cpu.filled_inTurn.turns n with ⟨hturns, hcount⟩
  have hfill := switches_fillCalls
  have hreplaces := (hall bootCr3 (fun _ => []) (fillCalls ++ Cpu.turns n)).2.2
  rw [Cpu.sets_append, List.map_append] at hreplaces
  refine hturns.not_replacesOldest (by omega) (hreplaces ?_ _ ?_)
  · exact fun i => ⟨_, hturns.holds i⟩
  · exact Cpu.not_holds_nine hturns.holds

end SigmaOS.Arch.Paging
