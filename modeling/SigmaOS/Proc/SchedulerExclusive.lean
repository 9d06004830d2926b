import SigmaOS.Lib.Run
import SigmaOS.Proc.Scheduler

/-!
# Proc.SchedulerExclusive — one CPU for each thread

Between the two steps of `thread::block` a thread is `BLOCKED` and still the current thread of its
CPU, so another CPU may dispatch it when its event triggers in between; the same holds for a thread
that is woken up before its CPU has switched it out.
-/

namespace SigmaOS.Proc.Process

open Lib

inductive SchedOp
  | timer (c : Cpu)
  | block (c : Cpu) (event : Event)
  | trigger (event : Event)
  | untrigger (event : Event)
  | setSilent (c : Cpu)
  | wake (t : Tid)
  | create
  | fork (c : Cpu)
  | kill (c : Cpu)

namespace Sched

/-- One critical section.  `block`, `setSilent`, `fork` and `kill` are called by the current thread of
a CPU; `wake` is for silent threads, and the last thing `fork` does for the child. -/
def step (s : Sched) : SchedOp → Option Sched
  | .timer c => some (s.timerHandler c)
  | .block c event =>
    match s.current c with
    | none => none
    | some t => some (s.block t event)
  | .trigger event => some (s.trigger event)
  | .untrigger event => some (s.untrigger event)
  | .setSilent c =>
    match s.current c with
    | none => none
    | some t => some (s.setState t .silent)
  | .wake t => if t < s.count ∧ (s.tasks t).state = .silent then some (s.setState t .idle) else none
  | .create => some s.createBlockedThread
  | .fork c =>
    match s.current c with
    | none => none
    | some _ => some s.createBlockedThread
  | .kill c =>
    match s.current c with
    | none => none
    | some t => some (s.kill c t)

/-- The timer handler runs while no current thread of another CPU is blocked on an event that has
triggered, and only threads are woken up that are current nowhere. -/
def Quiet (s : Sched) : SchedOp → Prop
  | .timer c => ∀ c' t, c' ≠ c → s.current c' = some t → (s.tasks t).state = .blocked →
      s.triggers (s.tasks t).event = 0
  | .wake t => ∀ c, s.current c ≠ some t
  | _ => True

def Exclusive (s : Sched) : Prop :=
  ∀ c c' t, c ≠ c' → s.current c = some t → s.current c' = some t → t = kernelThread

structure Exclusion (s : Sched) : Prop where
  shared : s.Exclusive
  awake : ∀ c t, s.current c = some t → (s.tasks t).state ≠ .idle
  alone : ∀ c c' t, s.current c = some t → s.current c' = some t →
    (s.tasks t).state = .running → c = c'

variable {s s' : Sched} {t : Tid} {c : Cpu}

/-! ## The timer handler -/

variable {c' : Cpu} {u : Tid} {state : ThreadState}

section

variable (h : s.Exclusion)
include h

lemma Picked.not_current (hquiet : s.Quiet (.timer c)) (hpick : s.Picked t s') (hc : c' ≠ c) :
    s.current c' ≠ some t := by
  intro hcur
  rcases hpick.ready with hidle | ⟨hblocked, htriggered⟩
  · exact h.awake c' t hcur hidle
  · exact htriggered (hquiet c' t hc hcur hblocked)

/-- A CPU that finds nothing gives its thread up. -/
lemma Exclusion.idle : ((s.switchOut (s.current c)).setCurrent c none).Exclusion := by
  have hcurrent : ∀ c', c' ≠ c →
      ((s.switchOut (s.current c)).setCurrent c none).current c' = s.current c' := by
    intro c' hc'
    simp [setCurrent, hc', switchOut_current]
  have hnone : ((s.switchOut (s.current c)).setCurrent c none).current c = none := by
    simp [setCurrent]
  -- a thread that is current afterwards was current on the same CPU before
  have hbefore : ∀ c' u, ((s.switchOut (s.current c)).setCurrent c none).current c' = some u →
      c' ≠ c ∧ s.current c' = some u := by
    intro c' u hu
    have hc' : c' ≠ c := by
      rintro rfl
      rw [hnone] at hu
      exact absurd hu (by simp)
    rw [hcurrent c' hc'] at hu
    exact ⟨hc', hu⟩
  refine ⟨?_, ?_, ?_⟩
  · intro c₁ c₂ u hne h₁ h₂
    exact h.shared c₁ c₂ u hne (hbefore c₁ u h₁).2 (hbefore c₂ u h₂).2
  · intro c' u hu
    rcases hbefore c' u hu with ⟨hc', hu'⟩
    rcases switchOut_cases (s := s) (s.current c) u with ⟨hold, hrun, _⟩ | ⟨hsame, _⟩
    · exact absurd (h.alone c' c u hu' hold hrun) hc'
    · show ((s.switchOut (s.current c)).tasks u).state ≠ .idle
      rw [hsame]
      exact h.awake c' u hu'
  · intro c₁ c₂ u h₁ h₂ hrun
    have hrun' : ((s.switchOut (s.current c)).tasks u).state = .running := hrun
    rcases switchOut_cases (s := s) (s.current c) u with ⟨_, _, hidle⟩ | ⟨hsame, _⟩
    · rw [hidle] at hrun'
      exact absurd hrun' (by simp)
    · rw [hsame] at hrun'
      exact h.alone c₁ c₂ u (hbefore c₁ u h₁).2 (hbefore c₂ u h₂).2 hrun'

/-- A CPU takes a thread that no other one has. -/
lemma Exclusion.of_dispatch (hnew : ∀ c', c' ≠ c → s.current c' ≠ some t)
    (hhere : s'.current c = some t) (hthere : ∀ c', c' ≠ c → s'.current c' = s.current c')
    (hstate : (s'.tasks t).state = .running) (hothers : ∀ u, u ≠ t →
      (s.current c = some u ∧ (s.tasks u).state = .running) ∨ s'.tasks u = s.tasks u) :
    s'.Exclusion := by
  -- a thread that is current on another CPU was so before, and is not the new one
  have hbefore : ∀ c' u, c' ≠ c → s'.current c' = some u →
      s.current c' = some u ∧ u ≠ t ∧ s'.tasks u = s.tasks u := by
    intro c' u hc' hu
    rw [hthere c' hc'] at hu
    have hut : u ≠ t := by
      rintro rfl
      exact hnew c' hc' hu
    rcases hothers u hut with ⟨hold, hrun⟩ | hsame
    · exact absurd (h.alone c' c u hu hold hrun) hc'
    · exact ⟨hu, hut, hsame⟩
  refine ⟨?_, ?_, ?_⟩
  · intro c₁ c₂ u hne h₁ h₂
    by_cases hc₁ : c₁ = c
    · subst hc₁
      rw [hhere] at h₁
      exact absurd (Option.some.inj h₁).symm (hbefore c₂ u (Ne.symm hne) h₂).2.1
    by_cases hc₂ : c₂ = c
    · subst hc₂
      rw [hhere] at h₂
      exact absurd (Option.some.inj h₂).symm (hbefore c₁ u hc₁ h₁).2.1
    exact h.shared c₁ c₂ u hne (hbefore c₁ u hc₁ h₁).1 (hbefore c₂ u hc₂ h₂).1
  · intro c' u hu
    by_cases hc' : c' = c
    · subst hc'
      rw [hhere] at hu
      rw [← Option.some.inj hu, hstate]
      simp
    · rcases hbefore c' u hc' hu with ⟨hold, _, hsame⟩
      rw [hsame]
      exact h.awake c' u hold
  · intro c₁ c₂ u h₁ h₂ hrun
    by_cases hc₁ : c₁ = c
    · by_cases hc₂ : c₂ = c
      · rw [hc₁, hc₂]
      · rw [hc₁, hhere] at h₁
        exact absurd (Option.some.inj h₁).symm (hbefore c₂ u hc₂ h₂).2.1
    · by_cases hc₂ : c₂ = c
      · rw [hc₂, hhere] at h₂
        exact absurd (Option.some.inj h₂).symm (hbefore c₁ u hc₁ h₁).2.1
      · rcases hbefore c₁ u hc₁ h₁ with ⟨hold₁, _, hsame⟩
        rw [hsame] at hrun
        exact h.alone c₁ c₂ u hold₁ (hbefore c₂ u hc₂ h₂).1 hrun

/-- Dispatching on a quiet CPU runs no thread twice. -/
lemma Exclusion.dispatch (hquiet : s.Quiet (.timer c)) (hpick : s.Picked t s') :
    (((s'.switchOut (s.current c)).setCurrent c (some t)).setState t .running).Exclusion := by
  refine h.of_dispatch (fun c' hc' => hpick.not_current h hquiet hc') ?_ ?_ ?_ ?_
  · simp [setState, setCurrent]
  · intro c' hc'
    simp [setState, setCurrent, hc', switchOut_current, hpick.current]
  · simp [setState]
  · intro u hu
    have htask : (((s'.switchOut (s.current c)).setCurrent c (some t)).setState t .running).tasks u =
        (s'.switchOut (s.current c)).tasks u := by
      simp [setState, setCurrent, hu]
    rcases switchOut_cases (s := s') (s.current c) u with ⟨hold, hrun, _⟩ | ⟨hsame, _⟩
    · rw [hpick.others u hu] at hrun
      exact .inl ⟨hold, hrun⟩
    · exact .inr (by rw [htask, hsame, hpick.others u hu])

lemma Exclusion.timerHandler (hquiet : s.Quiet (.timer c)) : (s.timerHandler c).Exclusion := by
  unfold Sched.timerHandler
  split
  · exact h.idle
  · next hsched => exact h.dispatch hquiet (schedule_spec hsched)

lemma Exclusion.dispatched (hquiet : s.Quiet (.timer c))
    (hcur : (s.timerHandler c).current c = some t) (hc : c' ≠ c) : s.current c' ≠ some t := by
  unfold Sched.timerHandler at hcur
  split at hcur
  · simp [setCurrent] at hcur
  next new s' hsched =>
  have hnew : new = t := by simpa [setState, setCurrent] using hcur
  rw [← hnew]
  exact (schedule_spec hsched).not_current h hquiet hc

end

/-! ## The other steps -/

/-- A thread that runs nowhere changes. -/
lemma Exclusion.of_task (h : s.Exclusion)
    (hcurrent : ∀ c v, s'.current c = some v → s.current c = some v)
    (hothers : ∀ v, v ≠ u → s'.tasks v = s.tasks v) (hu : (∀ c, s.current c ≠ some u) ∨
      ((s'.tasks u).state ≠ .idle ∧ (s'.tasks u).state ≠ .running)) : s'.Exclusion := by
  refine ⟨?_, ?_, ?_⟩
  · intro c₁ c₂ v hne h₁ h₂
    exact h.shared c₁ c₂ v hne (hcurrent c₁ v h₁) (hcurrent c₂ v h₂)
  · intro c' v hv
    have hv' := hcurrent c' v hv
    by_cases hvu : v = u
    · subst hvu
      rcases hu with hnot | ⟨hidle, _⟩
      · exact absurd hv' (hnot c')
      · exact hidle
    · rw [hothers v hvu]
      exact h.awake c' v hv'
  · intro c₁ c₂ v h₁ h₂ hrun
    have h₁' := hcurrent c₁ v h₁
    by_cases hvu : v = u
    · subst hvu
      rcases hu with hnot | ⟨_, hnotrun⟩
      · exact absurd h₁' (hnot c₁)
      · exact absurd hrun hnotrun
    · rw [hothers v hvu] at hrun
      exact h.alone c₁ c₂ v h₁' (hcurrent c₂ v h₂) hrun

lemma setState_of_ne {v : Tid} (hvu : v ≠ u) : (s.setState u state).tasks v = s.tasks v := by
  simp [setState, hvu]

lemma setState_same : ((s.setState u state).tasks u).state = state := by
  simp [setState]

lemma Exclusion.createBlockedThread (h : s.Exclusion) : s.createBlockedThread.Exclusion := by
  refine h.of_task (fun _ _ hv => hv) (fun v hv => setState_of_ne hv) (.inr ?_)
  rw [Sched.createBlockedThread, setState_same]
  simp

lemma Exclusion.block (h : s.Exclusion) (u : Tid) (event : Event) :
    (s.block u event).Exclusion := by
  refine h.of_task (u := u) (fun _ _ hv => hv) ?_ (.inr ?_)
  · intro v hv
    simp [Sched.block, hv]
  · simp [Sched.block]

lemma Exclusion.setSilent (h : s.Exclusion) (u : Tid) : (s.setState u .silent).Exclusion := by
  refine h.of_task (fun _ _ hv => hv) (fun v hv => setState_of_ne hv) (.inr ?_)
  rw [setState_same]
  simp

/-- Nor does a kill. -/
lemma Exclusion.kill (h : s.Exclusion) (c : Cpu) (u : Tid) : (s.kill c u).Exclusion := by
  refine h.of_task ?_ (fun v hv => setState_of_ne hv) (.inr ?_)
  · -- the CPU of the thread has none any more, the others keep theirs
    intro c' v hv
    by_cases hc' : c' = c
    · rw [hc'] at hv
      simp [Sched.kill, setCurrent] at hv
    · simpa [Sched.kill, setCurrent, setState, hc'] using hv
  · show ((s.setState u .disabled).tasks u).state ≠ .idle ∧
      ((s.setState u .disabled).tasks u).state ≠ .running
    rw [setState_same]
    simp

/-- Every quiet step keeps the threads of the CPUs apart. -/
lemma Exclusion.step {op : SchedOp} (h : s.Exclusion) (hquiet : s.Quiet op)
    (hs : s.step op = some s') : s'.Exclusion := by
  cases op with
  | timer c =>
    cases hs
    exact h.timerHandler hquiet
  | block c event =>
    simp only [Sched.step] at hs
    split at hs
    · cases hs
    · cases hs
      exact h.block _ event
  | trigger event =>
    cases hs
    exact ⟨h.shared, h.awake, h.alone⟩
  | untrigger event =>
    cases hs
    exact ⟨h.shared, h.awake, h.alone⟩
  | setSilent c =>
    simp only [Sched.step] at hs
    split at hs
    · cases hs
    · cases hs
      exact h.setSilent _
  | wake u =>
    rcases Option.ite_none_right_eq_some.1 hs with ⟨_, hs⟩
    cases hs
    exact h.of_task (fun _ _ hv => hv) (fun v hv => setState_of_ne hv) (.inl hquiet)
  | create =>
    cases hs
    exact h.createBlockedThread
  | fork c =>
    simp only [Sched.step] at hs
    split at hs
    · cases hs
    · cases hs
      exact h.createBlockedThread
  | kill c =>
    simp only [Sched.step] at hs
    split at hs
    · cases hs
    · cases hs
      exact h.kill c _

lemma start_exclusion (enabled : Cpu → Bool) : (start enabled).Exclusion := by
  have hkernel : ∀ c u, (start enabled).current c = some u → u = kernelThread := by
    intro c u hu
    exact (Option.some.inj (Option.ite_none_right_eq_some.1 hu).2).symm
  exact ⟨fun c _ u _ hu _ => hkernel c u hu, fun _ _ _ => by simp [start],
    fun _ _ _ _ _ hrun => absurd hrun (by simp [start])⟩

end Sched

/-- In every quiet run no thread but the kernel thread is current on two CPUs, and the timer handler
of a CPU dispatches no thread that is current on another one. -/
theorem scheduler_exclusive {enabled : Cpu → Bool} {s : Sched}
    (hrun : Run Sched.step Sched.Quiet (Sched.start enabled) s) :
    s.Exclusive ∧ ∀ c t, s.Quiet (.timer c) → (s.timerHandler c).current c = some t →
      ∀ c', c' ≠ c → s.current c' ≠ some t := by
  have hexcl : s.Exclusion :=
    hrun.invariant (Sched.start_exclusion enabled) fun _ _ _ ht hok hs => ht.step hok hs
  exact ⟨hexcl.shared, fun c t hquiet hcur c' hc' => hexcl.dispatched hquiet hcur hc'⟩

/-- A second thread runs on CPU 0. -/
theorem scheduler_exclusive_sample :
    ∃ s, exec Sched.step (Sched.start fun c => c < 2) [.create, .wake 1, .timer 0] = some s ∧
      s.current 0 = some 1 ∧ s.current 1 = some kernelThread ∧ s.Exclusive := by
  refine ⟨_, rfl, rfl, rfl, ?_⟩
  refine (@scheduler_exclusive (fun c => c < 2) _ ?_).1
  refine Run.tail (Run.tail (Run.single (a := SchedOp.create) trivial rfl)
    (a := SchedOp.wake 1) ?_ rfl) (a := SchedOp.timer 0) ?_ rfl
  · intro c
    show (if decide (c < 2) then some kernelThread else none) ≠ some 1
    split
    · decide
    · exact (Option.some_ne_none 1).symm
  · intro c t _ hcur hblocked
    have hkernel : t = kernelThread := by
      change (if decide (c < 2) then some kernelThread else none) = some t at hcur
      split at hcur
      · exact (Option.some.inj hcur).symm
      · cases hcur
    rw [hkernel] at hblocked
    exact absurd hblocked (by decide)

/-- The first thread blocks on CPU 0, the event triggers, and CPU 1 dispatches the thread before CPU
0 has switched it out. -/
theorem scheduler_not_exclusive :
    ¬ ∀ (enabled : Cpu → Bool) (s : Sched),
      Run Sched.step (fun _ _ => True) (Sched.start enabled) s →
        s.Exclusive ∧ ∀ c t, (s.timerHandler c).current c = some t →
          ∀ c', c' ≠ c → s.current c' ≠ some t := by
  intro hall
  have hrun : ∃ s, exec Sched.step (Sched.start fun c => c < 2)
      [.create, .wake 1, .timer 0, .block 0 7, .trigger 7] = some s ∧ s.current 0 = some 1 ∧
        (s.timerHandler 1).current 1 = some 1 :=
    ⟨_, rfl, rfl, rfl⟩
  rcases hrun with ⟨s, hs, hzero, hone⟩
  have hexcl := hall (fun c => c < 2) s (exec_run hs fun _ _ _ => trivial)
  exact hexcl.2 1 1 hone 0 (by decide) hzero

end SigmaOS.Proc.Process
