import SigmaOS.Proc.Thread

/-!
# Proc.Scheduler — round robin over all CPUs

`Sched` is what the scheduler looks at: the state and the event of every thread, the counts of the
events, and the `current_thread` of every CPU.  A section that is held under `scheduler_mutex` or a
`thread_lock` is one step, so the timer handler is one step, while `thread::block` is two: the
state is set to `BLOCKED` in a step of its own, and the timer handler runs some time later.

`scheduling_queue` is left out, since nothing is ever pushed to it.
-/

namespace SigmaOS.Proc.Process

open List

abbrev Cpu := Nat

/-- `generic::event`, by its address. -/
abbrev Event := Nat

def kernelThread : Tid := 0

structure Task where
  state : ThreadState
  event : Event
  deriving DecidableEq

structure Sched where
  tasks : Tid → Task
  count : Nat
  triggers : Event → Nat
  current : Cpu → Option Tid

namespace Sched

def setState (s : Sched) (t : Tid) (state : ThreadState) : Sched :=
  { s with tasks := Function.update s.tasks t { s.tasks t with state := state } }

def setTriggers (s : Sched) (event : Event) (n : Nat) : Sched :=
  { s with triggers := Function.update s.triggers event n }

def setCurrent (s : Sched) (c : Cpu) (t : Option Tid) : Sched :=
  { s with current := Function.update s.current c t }

/-- `check_thread` of `schedule`: a blocked thread whose event has triggered takes one trigger and
becomes idle. -/
def checkThread (s : Sched) (t : Tid) : Option Sched :=
  match (s.tasks t).state with
  | .idle => some s
  | .blocked =>
    if s.triggers (s.tasks t).event = 0 then
      none
    else
      some ((s.setTriggers (s.tasks t).event (s.triggers (s.tasks t).event - 1)).setState t .idle)
  | _ => none

/-- The first thread of a list that passes `check_thread`. -/
def firstReady (s : Sched) : List Tid → Option (Tid × Sched)
  | [] => none
  | t :: ts =>
    match s.checkThread t with
    | some s' => some (t, s')
    | none => firstReady s ts

/-- `round_robin`: all threads from the first one, or from the current one to the end and then from
the first one to the current one. -/
def schedule (s : Sched) (current : Option Tid) : Option (Tid × Sched) :=
  match current with
  | none => s.firstReady (List.range s.count)
  | some t =>
    if t < s.count then
      s.firstReady ((List.range s.count).drop t ++ (List.range s.count).take t)
    else
      none

/-- A thread that is switched out while it is running becomes idle. -/
def switchOut (s : Sched) (old : Option Tid) : Sched :=
  match old with
  | none => s
  | some t => if (s.tasks t).state = .running then s.setState t .idle else s

/-- `timer_handler` on CPU `c`, with `idle_cpu` when there is nothing to run. -/
def timerHandler (s : Sched) (c : Cpu) : Sched :=
  match s.schedule (s.current c) with
  | none => (s.switchOut (s.current c)).setCurrent c none
  | some (new, s') => ((s'.switchOut (s.current c)).setCurrent c (some new)).setState new .running

/-! ## Other steps -/

def block (s : Sched) (t : Tid) (event : Event) : Sched :=
  { s with tasks := Function.update s.tasks t { state := .blocked, event := event } }

def trigger (s : Sched) (event : Event) : Sched :=
  s.setTriggers event (s.triggers event + 1)

def untrigger (s : Sched) (event : Event) : Sched :=
  s.setTriggers event (s.triggers event - 1)

def createBlockedThread (s : Sched) : Sched :=
  let tid := freeSlot (fun i => (s.tasks i).state) s.count
  { s with count := max s.count (tid + 1) }.setState tid .silent

/-- After `init_multitasking` and `init_cpu` of the CPUs `enabled`: the kernel thread is silent, and
current on all of them. -/
def start (enabled : Cpu → Bool) : Sched :=
  { tasks := fun _ => { state := .silent, event := 0 }
    count := 1
    triggers := fun _ => 0
    current := fun c => if enabled c then some kernelThread else none }

def kill (s : Sched) (c : Cpu) (t : Tid) : Sched :=
  (s.setState t .disabled).setCurrent c none

end Sched

namespace Sched

variable {s s' : Sched} {t : Tid} {c : Cpu}

/-- A thread that `check_thread` accepts: it is idle, or blocked on an event that has triggered. -/
def Ready (s : Sched) (t : Tid) : Prop :=
  (s.tasks t).state = .idle ∨
    ((s.tasks t).state = .blocked ∧ s.triggers (s.tasks t).event ≠ 0)

/-- From `s` to `s'` nothing has changed but the state of the thread `t`, which is now idle, and the
counts of the events. -/
structure Picked (s : Sched) (t : Tid) (s' : Sched) : Prop where
  ready : s.Ready t
  idle : (s'.tasks t).state = .idle
  others : ∀ u, u ≠ t → s'.tasks u = s.tasks u
  count : s'.count = s.count
  current : s'.current = s.current

lemma checkThread_cases (h : s.checkThread t = some s') :
    ((s.tasks t).state = .idle ∧ s' = s) ∨
      ((s.tasks t).state = .blocked ∧ s.triggers (s.tasks t).event ≠ 0 ∧
        s' = (s.setTriggers (s.tasks t).event (s.triggers (s.tasks t).event - 1)).setState t
          .idle) := by
  unfold checkThread at h
  split at h
  · next hstate =>
    cases h
    exact .inl ⟨hstate, rfl⟩
  · next hstate =>
    split at h
    · cases h
    next hzero =>
    cases h
    exact .inr ⟨hstate, hzero, rfl⟩
  · cases h

lemma checkThread_spec (h : s.checkThread t = some s') : s.Picked t s' := by
  rcases checkThread_cases h with ⟨hidle, rfl⟩ | ⟨hblocked, htriggered, rfl⟩
  · exact ⟨.inl hidle, hidle, fun _ _ => rfl, rfl, rfl⟩
  · refine ⟨.inr ⟨hblocked, htriggered⟩, by simp [setState, setTriggers], ?_, rfl, rfl⟩
    intro u hu
    simp [setState, setTriggers, hu]

lemma exists_checkThread (h : s.Ready t) : ∃ s', s.checkThread t = some s' := by
  rcases h with hidle | ⟨hblocked, htriggered⟩
  · exact ⟨s, by simp [checkThread, hidle]⟩
  · rw [checkThread, hblocked]
    exact ⟨_, if_neg htriggered⟩

lemma firstReady_check {ts : List Tid} (h : s.firstReady ts = some (t, s')) :
    s.checkThread t = some s' := by
  induction ts with
  | nil => cases h
  | cons u us ih =>
    unfold firstReady at h
    split at h
    · next hcheck =>
      cases h
      exact hcheck
    · exact ih h

lemma firstReady_mem {ts : List Tid} (h : s.firstReady ts = some (t, s')) : t ∈ ts := by
  induction ts with
  | nil => cases h
  | cons u us ih =>
    unfold firstReady at h
    split at h
    · cases h
      exact mem_cons_self
    · exact mem_cons_of_mem _ (ih h)

variable {old : Option Tid}

lemma schedule_lt (h : s.schedule old = some (t, s')) : t < s.count := by
  cases old with
  | none => exact mem_range.1 (firstReady_mem h)
  | some u =>
    by_cases hu : u < s.count
    · rw [schedule, if_pos hu] at h
      rcases mem_append.1 (firstReady_mem h) with hmem | hmem
      · exact mem_range.1 (mem_of_mem_drop hmem)
      · exact mem_range.1 (mem_of_mem_take hmem)
    · simp [schedule, hu] at h

lemma schedule_self (ht : t < s.count) (hready : s.Ready t) :
    ∃ s', s.schedule (some t) = some (t, s') := by
  rcases exists_checkThread hready with ⟨r, hr⟩
  have hdrop : (List.range s.count).drop t = t :: (List.range s.count).drop (t + 1) := by
    rw [drop_eq_getElem_cons (by simpa using ht), getElem_range]
  refine ⟨r, ?_⟩
  rw [schedule, if_pos ht, hdrop]
  simp [firstReady, hr]

lemma schedule_check (h : s.schedule old = some (t, s')) : s.checkThread t = some s' := by
  cases old with
  | none => exact firstReady_check h
  | some u =>
    by_cases hu : u < s.count
    · rw [schedule, if_pos hu] at h
      exact firstReady_check h
    · simp [schedule, hu] at h

lemma schedule_spec (h : s.schedule old = some (t, s')) : s.Picked t s' :=
  checkThread_spec (schedule_check h)

lemma switchOut_current (old : Option Tid) : (s.switchOut old).current = s.current := by
  cases old with
  | none => rfl
  | some u =>
    by_cases hrun : (s.tasks u).state = .running
    · simp [switchOut, hrun, setState]
    · simp [switchOut, hrun]

lemma switchOut_cases (old : Option Tid) (u : Tid) :
    (old = some u ∧ (s.tasks u).state = .running ∧ ((s.switchOut old).tasks u).state = .idle) ∨
      ((s.switchOut old).tasks u = s.tasks u ∧
        (old = some u → (s.tasks u).state ≠ .running)) := by
  cases old with
  | none => exact .inr ⟨rfl, fun h => absurd h (by simp)⟩
  | some v =>
    by_cases hrun : (s.tasks v).state = .running
    · by_cases huv : u = v
      · subst huv
        exact .inl ⟨rfl, hrun, by simp [switchOut, hrun, setState]⟩
      · refine .inr ⟨by simp [switchOut, hrun, setState, huv], ?_⟩
        intro h
        exact absurd (Option.some.inj h).symm huv
    · refine .inr ⟨by simp [switchOut, hrun], ?_⟩
      intro h
      rwa [← Option.some.inj h]

@[simp] lemma switchOut_triggers (old : Option Tid) :
    (s.switchOut old).triggers = s.triggers := by
  cases old with
  | none => rfl
  | some u =>
    by_cases hrun : (s.tasks u).state = .running
    · simp [switchOut, hrun, setState]
    · simp [switchOut, hrun]

@[simp] lemma switchOut_event (old : Option Tid) (u : Tid) :
    ((s.switchOut old).tasks u).event = (s.tasks u).event := by
  cases old with
  | none => rfl
  | some v =>
    by_cases hrun : (s.tasks v).state = .running
    · by_cases huv : u = v
      · subst huv
        simp [switchOut, hrun, setState]
      · simp [switchOut, hrun, setState, huv]
    · simp [switchOut, hrun]

@[simp] lemma switchOut_blocked (old : Option Tid) (u : Tid) :
    ((s.switchOut old).tasks u).state = .blocked ↔ (s.tasks u).state = .blocked := by
  rcases switchOut_cases (s := s) old u with ⟨_, hrun, hidle⟩ | ⟨hsame, _⟩
  · rw [hrun, hidle]
    simp
  · rw [hsame]

lemma timerHandler_eq (h : s.schedule (s.current c) = some (t, s')) :
    s.timerHandler c =
      ((s'.switchOut (s.current c)).setCurrent c (some t)).setState t .running := by
  simp [timerHandler, h]

/-- What dispatching a thread changes: its state, and that of the one switched out. -/
lemma timerHandler_dispatch (h : s.schedule (s.current c) = some (t, s')) :
    ((s.timerHandler c).tasks t).state = .running ∧
      (s.timerHandler c).triggers = s'.triggers ∧
      (∀ u, ((s.timerHandler c).tasks u).event = (s'.tasks u).event) ∧
      ∀ u, u ≠ t →
        (((s.timerHandler c).tasks u).state = .blocked ↔ (s'.tasks u).state = .blocked) := by
  have hother : ∀ u, u ≠ t →
      (s.timerHandler c).tasks u = (s'.switchOut (s.current c)).tasks u := by
    intro u hu
    simp [timerHandler_eq h, setState, setCurrent, hu]
  refine ⟨by simp [timerHandler_eq h, setState], by simp [timerHandler_eq h, setState, setCurrent],
    ?_, ?_⟩
  · intro u
    by_cases hu : u = t
    · subst hu
      simp [timerHandler_eq h, setState, setCurrent]
    · rw [hother u hu, switchOut_event]
  · intro u hu
    rw [hother u hu, switchOut_blocked]

/-- From `s` to `s'` the blocked thread `t` is woken up and has taken a trigger of its event. -/
structure Wakes (s : Sched) (t : Tid) (s' : Sched) : Prop where
  blocked : (s.tasks t).state = .blocked
  triggered : s.triggers (s.tasks t).event ≠ 0
  triggers : s'.triggers = Function.update s.triggers (s.tasks t).event
    (s.triggers (s.tasks t).event - 1)
  awake : (s'.tasks t).state ≠ .blocked
  others : ∀ u, u ≠ t → ((s'.tasks u).state = .blocked ↔ (s.tasks u).state = .blocked)

/-- A tick wakes at most one thread, for one trigger. -/
lemma timerHandler_blocked (c : Cpu) :
    (∀ u, ((s.timerHandler c).tasks u).event = (s.tasks u).event) ∧
      (((s.timerHandler c).triggers = s.triggers ∧
          ∀ u, ((s.timerHandler c).tasks u).state = .blocked ↔ (s.tasks u).state = .blocked) ∨
        ∃ t, s.Wakes t (s.timerHandler c)) := by
  cases hsched : s.schedule (s.current c) with
  | none =>
    have hs : s.timerHandler c = (s.switchOut (s.current c)).setCurrent c none := by
      simp [timerHandler, hsched]
    rw [hs]
    exact ⟨fun u => switchOut_event _ u, .inl ⟨switchOut_triggers _, fun u =>
      switchOut_blocked _ u⟩⟩
  | some out =>
    rcases out with ⟨t, r⟩
    rcases timerHandler_dispatch hsched with ⟨hself, htriggers, hevent, hblocked⟩
    have hpick := schedule_spec hsched
    rcases checkThread_cases (schedule_check hsched) with ⟨hidle, rfl⟩ | ⟨hsleep, htriggered, hr⟩
    · -- an idle thread was not blocked, and the check changes nothing
      refine ⟨hevent, .inl ⟨htriggers, ?_⟩⟩
      intro u
      by_cases hu : u = t
      · subst hu
        rw [hself, hidle]
        simp
      · exact hblocked u hu
    · refine ⟨?_, .inr ⟨t, hsleep, htriggered, ?_, ?_, ?_⟩⟩
      · intro u
        rw [hevent u, hr]
        by_cases hu : u = t
        · subst hu
          simp [setState, setTriggers]
        · simp [setState, setTriggers, hu]
      · rw [htriggers, hr]
        rfl
      · rw [hself]
        simp
      · intro u hu
        rw [hblocked u hu, hpick.others u hu]

end Sched

end SigmaOS.Proc.Process
